import BockIpfs.MfsRun

/-!
# `files mkdir` and `mfs.Mkdir`

`files mkdir` checks its path and its CID options and calls `mfs.Mkdir`, which `--parents` of
`files write` and `files cp` call too.

`mfs.Mkdir` is not under `src/`; it is modelled from the spec (§6 `makeDirectory`, §4.2
`addChild`, §7) and the help text of `-p`, "No error if existing, make parent directories as
needed". It splits the path at `/` and drops one empty element at each end, where `mfs.Lookup`
trims every outer slash; the two agree on every checked path but `//`, where `mfs.Mkdir` walks
one element, the empty name. It walks the elements: each one before the last must name a directory, and
under `-p` a missing one is made; the last is added as an empty directory, and under `-p` an
existing directory is accepted. Its meaning on the map `view` is `mkdirView`: the path and each
of its prefixes that named nothing now name a directory, and every other path names what it
named. The walk is proved equal to that map, and when it succeeds is `MkdirSucceeds` of the map,
so everything about `files mkdir` is read off the two.
-/

namespace BockIpfs.MfsMkdir

open Paths FilesPath MfsTree FilesIo FilesCp MfsRun

/-! ### `mfs.Mkdir` -/

/-- What `mfs.Mkdir` fails with. -/
inductive MkdirError where
  /-- The empty path. -/
  | noPath
  /-- `mkdir /` without `-p`. -/
  | rootExists
  /-- An element before the last names nothing, without `-p`: `os.ErrNotExist`. -/
  | notExist
  /-- An element before the last names a file; `walked` are the elements before it. -/
  | notADirectory (walked : List String)
  /-- The last element is taken, by a file or, without `-p`, a directory: `os.ErrExist`. -/
  | alreadyExists
  deriving DecidableEq, Repr

/-- The error's text: Go's for `os.ErrNotExist` and `os.ErrExist`, `mfs.Mkdir`'s own for the
other two. -/
def MkdirError.message : MkdirError → String
  | .noPath => "no path given to Mkdir"
  | .rootExists => "cannot create directory '/': Already exists"
  | .notExist => "file does not exist"
  | .notADirectory walked => "/".intercalate walked ++ " was not a directory"
  | .alreadyExists => "file already exists"

/-- Modelled from the spec: `mfs.Mkdir`'s walk over the elements of the path, in a directory's
entries (§6, §4.2): an element
before the last that names a directory is walked into, and under `-p` a missing one is made
empty and walked into; the last is added as an empty directory when its name is free, and under
`-p` kept as it is when it names a directory. `walked` holds the elements before, for the error
text. -/
def mkdirIn (mkparents : Bool) (walked : List String) :
    List String → List (String × MemNode) → Except MkdirError (List (String × MemNode))
  | [], entries => .ok entries
  | [name], entries =>
    match entries.lookup name with
    | none => .ok (entries ++ [(name, .directory [])])
    | some (.directory _) => if mkparents then .ok entries else .error .alreadyExists
    | some (.file _) => .error .alreadyExists
  | part :: next :: parts, entries =>
    match entries.lookup part with
    | some (.directory sub) =>
      (mkdirIn mkparents (walked ++ [part]) (next :: parts) sub).map fun sub =>
        updateEntry part (fun _ => .directory sub) entries
    | some (.file _) => .error (.notADirectory walked)
    | none =>
      if mkparents then
        (mkdirIn mkparents (walked ++ [part]) (next :: parts) []).map fun sub =>
          entries ++ [(part, .directory sub)]
      else .error .notExist

/-- The elements `mfs.Mkdir` walks: `path.SplitList`, without an empty first element and then
without an empty last one. -/
def mkdirParts (path : String) : List String :=
  let parts := elements path
  let parts := if parts.head? = some "" then parts.tail else parts
  if parts.getLast? = some "" then parts.dropLast else parts

/-- Modelled from the spec: `mfs.Mkdir(root, path, {Mkparents})` (§6). The root of MFS is a
directory; a file in its place is refused. -/
def mkdir (root : MemNode) (path : String) (mkparents : Bool) : Except MkdirError MemNode :=
  if path = "" then .error .noPath
  else
    match mkdirParts path with
    | [] => if mkparents then .ok root else .error .rootExists
    | parts =>
      match root with
      | .directory entries => (mkdirIn mkparents [] parts entries).map .directory
      | .file _ => .error (.notADirectory [])

/-- `files mkdir`: the tree afterwards and the error, if any. The path is checked, then the CID
options; `--flush` persists what the tree holds and is left out. -/
def filesMkdir (names : String → Option Nat) (root : MemNode) (arg : String) (dashp : Bool)
    (cidVersion : Option Int) (hash : Option String) : MemNode × Option String :=
  match checkPath arg with
  | .error e => (root, some e)
  | .ok path =>
    match getPrefix names cidVersion hash with
    | .error e => (root, some e)
    | .ok _ =>
      match mkdir root path dashp with
      | .error e => (root, some e.message)
      | .ok root => (root, none)

/-! ### `mfs.Mkdir` on the map -/

/-- The map `v` after `mfs.Mkdir` makes `parts`: each prefix of `parts` that named nothing names
a directory, and every other path names what it named. -/
def mkdirView (v : List String → Option Entry) (parts : List String) : List String → Option Entry :=
  fun q => if q <+: parts ∧ v q = none then some .directory else v q

/-- When `mfs.Mkdir` succeeds on the map `v`: under `-p` when no prefix of the path names a
file; without it when the path is not `/`, the path above it names a directory and the path
itself names nothing. -/
def MkdirSucceeds (v : List String → Option Entry) (parts : List String) : Bool → Prop
  | true => ∀ q, q <+: parts → ∀ content, v q ≠ some (.file content)
  | false => parts ≠ [] ∧ v parts.dropLast = some .directory ∧ v parts = none

/-- A map whose prefixes of `parts` all name something is its own `mkdirView`. -/
theorem mkdirView_of_forall {v : List String → Option Entry} {parts : List String}
    (h : ∀ q, q <+: parts → v q ≠ none) : mkdirView v parts = v :=
  funext fun q => if_neg fun hq => h q hq.1 hq.2

/-- `mfs.Mkdir` of no elements changes nothing. -/
theorem mkdirView_nil (node : MemNode) : mkdirView (view node) [] = view node :=
  mkdirView_of_forall fun q hq => by simp [List.prefix_nil.1 hq]

theorem mkdirView_of_not_prefix {v : List String → Option Entry} {parts q : List String}
    (h : ¬q <+: parts) : mkdirView v parts q = v q :=
  if_neg fun hq => h hq.1

/-- The path `mfs.Mkdir` makes names a directory afterwards, wherever it named no file. -/
theorem mkdirView_self {v : List String → Option Entry} {parts : List String}
    (h : ∀ content, v parts ≠ some (.file content)) : mkdirView v parts parts = some .directory := by
  unfold mkdirView
  split_ifs with hq
  · rfl
  · rcases hv : v parts with _ | (content | _)
    · exact absurd ⟨List.prefix_refl _, hv⟩ hq
    · exact absurd hv (h content)
    · rfl

@[simp] theorem mkdirView_view_nil (node : MemNode) (parts : List String) :
    mkdirView (view node) parts [] = some node.entry := by
  simp [mkdirView]

theorem mkdirView_cons_of_ne (v : List String → Option Entry) {part a : String} (ha : a ≠ part)
    (parts r : List String) : mkdirView v (part :: parts) (a :: r) = v (a :: r) := by
  simp [mkdirView, List.cons_prefix_cons, ha]

theorem mkdirView_cons_self (v : List String → Option Entry) (part : String)
    (parts r : List String) :
    mkdirView v (part :: parts) (part :: r) = mkdirView (fun r => v (part :: r)) parts r := by
  simp [mkdirView, List.cons_prefix_cons]

theorem view_file_ne_directory (content : List UInt8) (q : List String) :
    view (.file content) q ≠ some .directory := by
  cases q <;> simp [MemNode.entry]

/-- An empty directory is what a path that named nothing shows once it is made. -/
theorem mkdirView_view_empty (parts : List String) :
    mkdirView (view (.directory [])) parts = mkdirView (fun _ => none) parts := by
  funext q
  rcases q with _ | ⟨a, r⟩
  · simp [mkdirView, MemNode.entry]
  · simp [mkdirView, view_directory_cons]

/-- The prefixes of `part :: parts` are the empty one and `part` before each prefix of `parts`. -/
theorem forall_prefix_cons {P : List String → Prop} {part : String} {parts : List String} :
    (∀ q, q <+: part :: parts → P q) ↔ P [] ∧ ∀ r, r <+: parts → P (part :: r) := by
  simp only [List.prefix_cons_iff]
  constructor
  · exact fun h => ⟨h [] (.inl rfl), fun r hr => h _ (.inr ⟨r, rfl, hr⟩)⟩
  · rintro ⟨h0, h⟩ q (rfl | ⟨r, rfl, hr⟩)
    exacts [h0, h r hr]

/-- The entries `entries'` show `mkdirView` of `entries` along `part :: parts` when every other
name keeps its node and the paths through `part` show it along `parts`. -/
theorem view_directory_mkdirView {entries entries' : List (String × MemNode)} {part : String}
    {parts : List String} (hsame : ∀ a, a ≠ part → entries'.lookup a = entries.lookup a)
    (hchild : ∀ r, view (.directory entries') (part :: r) =
      mkdirView (fun r => view (.directory entries) (part :: r)) parts r) :
    view (.directory entries') = mkdirView (view (.directory entries)) (part :: parts) := by
  funext q
  rcases q with _ | ⟨a, r⟩
  · simp [MemNode.entry]
  · by_cases ha : a = part
    · rw [ha, mkdirView_cons_self, hchild]
    · rw [mkdirView_cons_of_ne _ ha, view_directory_cons, view_directory_cons, hsame a ha]

theorem map_eq_ok {α β ε : Type} {f : α → β} {x : Except ε α} {b : β} :
    x.map f = .ok b ↔ ∃ a, x = .ok a ∧ f a = b := by
  cases x <;> simp [Except.map]

theorem exists_map_eq_ok {α β ε : Type} {f : α → β} {x : Except ε α} :
    (∃ b, x.map f = .ok b) ↔ ∃ a, x = .ok a := by
  cases x <;> simp [Except.map]

/-- The walk's meaning: the entries it leaves show `mkdirView` of the entries it was given. -/
theorem view_mkdirIn {mkparents : Bool} :
    ∀ {walked parts : List String} {entries entries' : List (String × MemNode)},
      mkdirIn mkparents walked parts entries = .ok entries' →
        view (.directory entries') = mkdirView (view (.directory entries)) parts
  | _, [], _, _, h => by
    cases h
    exact (mkdirView_nil _).symm
  | _, [name], entries, _, h => by
    unfold mkdirIn at h
    split at h
    · rename_i hfree
      cases h
      refine view_directory_mkdirView (fun a ha => lookup_append_of_ne ha) fun r => ?_
      simp only [view_directory_cons, List.lookup_append, hfree, Option.none_or,
        List.lookup_cons_self, Option.some_bind, Option.none_bind]
      rw [← mkdirView_view_empty, mkdirView_nil]
    · rename_i sub hsub
      split_ifs at h
      cases h
      refine (mkdirView_of_forall fun q hq => ?_).symm
      rcases List.prefix_cons_iff.1 hq with rfl | ⟨r, rfl, hr⟩
      · simp
      · simp [List.prefix_nil.1 hr, view_directory_cons, hsub]
    · cases h
  | _, part :: next :: parts, entries, _, h => by
    unfold mkdirIn at h
    split at h
    · rename_i sub hsub
      obtain ⟨sub', hrec, rfl⟩ := map_eq_ok.1 h
      refine view_directory_mkdirView (fun a ha => by rw [lookup_updateEntry, if_neg ha])
        fun r => ?_
      simp only [view_directory_cons, lookup_updateEntry, if_true, hsub, Option.map_some',
        Option.some_bind]
      rw [view_mkdirIn hrec]
    · cases h
    · rename_i hfree
      split_ifs at h
      obtain ⟨sub', hrec, rfl⟩ := map_eq_ok.1 h
      refine view_directory_mkdirView (fun a ha => lookup_append_of_ne ha) fun r => ?_
      simp only [view_directory_cons, List.lookup_append, hfree, Option.none_or,
        List.lookup_cons_self, Option.some_bind, Option.none_bind]
      rw [view_mkdirIn hrec, mkdirView_view_empty]

/-- What the walk needs under `-p`: no prefix of the path names a file. -/
theorem mkdirIn_parents_ok_iff :
    ∀ {walked parts : List String} {entries : List (String × MemNode)},
      (∃ entries', mkdirIn true walked parts entries = .ok entries') ↔
        MkdirSucceeds (view (.directory entries)) parts true
  | _, [], _ => iff_of_true ⟨_, rfl⟩ fun q hq _ => by simp [List.prefix_nil.1 hq, MemNode.entry]
  | _, [name], entries => by
    simp only [MkdirSucceeds, forall_prefix_cons, List.prefix_nil, forall_eq, view_nil,
      view_directory_cons]
    unfold mkdirIn
    split <;> simp [*, MemNode.entry]
  | _, part :: next :: parts, entries => by
    rw [MkdirSucceeds, forall_prefix_cons]
    unfold mkdirIn
    split
    · rename_i sub hsub
      rw [exists_map_eq_ok, mkdirIn_parents_ok_iff]
      simp [MkdirSucceeds, view_directory_cons, hsub, MemNode.entry]
    · rename_i content hfile
      refine iff_of_false nofun fun h => h.2 [] List.nil_prefix content ?_
      simp [view_directory_cons, hfile, MemNode.entry]
    · rename_i hfree
      rw [if_pos rfl, exists_map_eq_ok, mkdirIn_parents_ok_iff]
      refine iff_of_true (fun q _ content => ?_) ⟨by simp [MemNode.entry], fun r _ content => ?_⟩
      · rcases q with _ | ⟨a, r⟩ <;> simp [view_directory_cons, MemNode.entry]
      · simp [view_directory_cons, hfree]

/-- What the walk needs without `-p`: the path above names a directory and the path nothing. -/
theorem mkdirIn_ok_iff :
    ∀ {walked parts : List String} {entries : List (String × MemNode)}, parts ≠ [] →
      ((∃ entries', mkdirIn false walked parts entries = .ok entries') ↔
        MkdirSucceeds (view (.directory entries)) parts false)
  | _, [], _, h => absurd rfl h
  | _, [name], entries, _ => by
    simp only [MkdirSucceeds, ne_eq, List.cons_ne_nil, not_false_eq_true, List.dropLast_single,
      view_nil, MemNode.entry, true_and, view_directory_cons]
    unfold mkdirIn
    split <;> simp [*]
  | _, part :: next :: parts, entries, _ => by
    simp only [MkdirSucceeds, ne_eq, List.cons_ne_nil, not_false_eq_true, List.dropLast_cons₂,
      true_and, view_directory_cons]
    unfold mkdirIn
    split
    · rename_i sub hsub
      rw [exists_map_eq_ok, mkdirIn_ok_iff (List.cons_ne_nil _ _)]
      simp [MkdirSucceeds, hsub]
    · rename_i content hfile
      simp [hfile, view_file_ne_directory]
    · rename_i hfree
      simp [hfree]

/-! ### The elements `mfs.Mkdir` walks -/

/-- A rooted path of valid elements splits back into them. -/
theorem mkdirParts_rootedPath {stack : List String} (hs : ∀ e ∈ stack, ValidElem e) :
    mkdirParts (rootedPath stack) = stack := by
  rcases List.eq_nil_or_concat stack with rfl | ⟨init, last, rfl⟩
  · rfl
  · have hlast : last ≠ "" := fun h => (hs last (by simp)).1 (by rw [h]; rfl)
    rw [mkdirParts, elements_rootedPath (by simp) fun e he => (hs e he).2.1]
    simp [hlast]

/-- A slash after kept elements is one more, empty, element, which `mfs.Mkdir` drops. -/
theorem mkdirParts_rootedPath_slash {stack : List String} (hne : stack ≠ [])
    (hs : ∀ e ∈ stack, ValidElem e) : mkdirParts (rootedPath stack ++ "/") = stack := by
  have hpath : rootedPath stack ++ "/" = rootedPath (stack ++ [""]) :=
    String.ext (by
      rw [String.data_append, show (rootedPath stack).data = (rootedPath stack).toList from rfl,
        show (rootedPath (stack ++ [""])).data = (rootedPath (stack ++ [""])).toList from rfl,
        toList_rootedPath hne, toList_rootedPath (by simp)]
      simp)
  have helems : elements (rootedPath (stack ++ [""])) = "" :: (stack ++ [""]) :=
    elements_rootedPath (by simp) fun e he => by
      rcases List.mem_append.1 he with he | he
      exacts [(hs e he).2.1, by rw [List.mem_singleton.1 he]; exact List.not_mem_nil _]
  rw [mkdirParts, hpath, helems]
  simp

/-- On a checked path `mfs.Mkdir` walks the elements `mfs.Lookup` walks, but for `//`, the
checked form of a path that cleans to `/` and ends in a slash: there it walks the empty name,
which `mfs.Lookup` trims away. -/
theorem mkdirParts_checkPath {arg path : String} (h : checkPath arg = .ok path) :
    mkdirParts path = if path = "//" then [""] else lookupParts path := by
  obtain ⟨hr, rfl⟩ := checkPath_eq_ok.1 h
  have hvalid := validElem_cleanStack arg
  rw [clean_of_rooted hr]
  split_ifs with hslash hroot hroot
  · rw [hroot]
    rfl
  · have hne : cleanStack arg ≠ [] := fun hs => hroot (by rw [hs]; rfl)
    rw [lookupParts, trimSlash_append_slash, ← lookupParts, lookupParts_rootedPath hvalid,
      mkdirParts_rootedPath_slash hne hvalid]
  · -- the rooted path `//` would split into the empty name, which `Clean` never keeps
    have hm := mkdirParts_rootedPath hvalid
    rw [hroot] at hm
    exact absurd (hvalid "" (by rw [← hm]; exact List.mem_singleton_self _)).1 (by decide)
  · rw [mkdirParts_rootedPath hvalid, lookupParts_rootedPath hvalid]

/-! ### `mfs.Mkdir` on the tree -/

/-- What `mfs.Mkdir` does to the map: `mkdirView` along the parts of its path. -/
theorem view_mkdir {root root' : MemNode} {path : String} {mkparents : Bool}
    (h : mkdir root path mkparents = .ok root') :
    view root' = mkdirView (view root) (mkdirParts path) := by
  unfold mkdir at h
  split at h
  · cases h
  split at h
  · rename_i hparts
    split_ifs at h
    cases h
    rw [hparts, mkdirView_nil]
  · split at h
    · obtain ⟨entries', hin, rfl⟩ := map_eq_ok.1 h
      exact view_mkdirIn hin
    · cases h

/-- When `mfs.Mkdir` succeeds on a tree whose root is a directory. -/
theorem mkdir_ok_iff {root : MemNode} (hroot : root.IsDirectory) {path : String}
    (hpath : path ≠ "") (mkparents : Bool) :
    (∃ root', mkdir root path mkparents = .ok root') ↔
      MkdirSucceeds (view root) (mkdirParts path) mkparents := by
  cases root with
  | file => exact hroot.elim
  | directory entries =>
    rw [mkdir, if_neg hpath]
    split
    · rename_i hparts
      rw [hparts]
      cases mkparents
      · simp [MkdirSucceeds]
      · simp [MkdirSucceeds, List.prefix_nil, MemNode.entry]
    · rename_i parts hparts
      rw [exists_map_eq_ok]
      cases mkparents
      · exact mkdirIn_ok_iff hparts
      · exact mkdirIn_parents_ok_iff

/-- After a successful `mfs.Mkdir` on a tree whose root is a directory, the path it walked names
a directory. -/
theorem view_mkdir_self {root root' : MemNode} {path : String} {mkparents : Bool}
    (hroot : root.IsDirectory) (h : mkdir root path mkparents = .ok root') :
    view root' (mkdirParts path) = some .directory := by
  have hpath : path ≠ "" := by
    rintro rfl
    cases h
  have hs := (mkdir_ok_iff hroot hpath mkparents).1 ⟨_, h⟩
  rw [view_mkdir h]
  apply mkdirView_self
  cases mkparents
  · -- without `-p` the path named nothing
    intro content hfile
    rw [hs.2.2] at hfile
    cases hfile
  · exact hs _ (List.prefix_refl _)

theorem updateEntry_of_lookup {name : String} {node : MemNode} :
    ∀ {entries : List (String × MemNode)}, entries.lookup name = some node →
      updateEntry name (fun _ => node) entries = entries
  | [], _ => rfl
  | (k, n) :: rest, h => by
    by_cases hk : k = name
    · subst hk
      simp only [List.lookup_cons_self, Option.some.injEq] at h
      simp [updateEntry, h]
    · rw [lookup_cons_of_ne (Ne.symm hk)] at h
      simp [updateEntry, hk, updateEntry_of_lookup h]

theorem mkdirIn_cons_directory {mkparents : Bool} {walked : List String} {part next : String}
    {parts : List String} {entries sub : List (String × MemNode)}
    (h : entries.lookup part = some (.directory sub)) :
    mkdirIn mkparents walked (part :: next :: parts) entries =
      (mkdirIn mkparents (walked ++ [part]) (next :: parts) sub).map fun sub =>
        updateEntry part (fun _ => .directory sub) entries := by
  simp only [mkdirIn, h]

/-- Once the walk has succeeded, the walk under `-p` along the same path succeeds on the entries
it left and changes nothing. -/
theorem mkdirIn_parents_of_ok {mkparents : Bool} :
    ∀ {walked walked' parts : List String} {entries entries' : List (String × MemNode)},
      mkdirIn mkparents walked parts entries = .ok entries' →
        mkdirIn true walked' parts entries' = .ok entries'
  | _, _, [], _, _, h => by cases h; rfl
  | _, _, [name], entries, _, h => by
    unfold mkdirIn at h
    split at h
    · rename_i hfree
      cases h
      simp [mkdirIn, List.lookup_append, hfree]
    · rename_i sub hsub
      split_ifs at h
      cases h
      simp [mkdirIn, hsub]
    · cases h
  | _, _, part :: next :: parts, entries, _, h => by
    unfold mkdirIn at h
    split at h
    · rename_i sub hsub
      obtain ⟨sub', hrec, rfl⟩ := map_eq_ok.1 h
      have hlookup : (updateEntry part (fun _ => .directory sub') entries).lookup part =
          some (.directory sub') := by
        simp [lookup_updateEntry, hsub]
      rw [mkdirIn_cons_directory hlookup, mkdirIn_parents_of_ok hrec]
      exact congrArg Except.ok (updateEntry_of_lookup hlookup)
    · cases h
    · rename_i hfree
      split_ifs at h
      obtain ⟨sub', hrec, rfl⟩ := map_eq_ok.1 h
      have hlookup : (entries ++ [(part, MemNode.directory sub')]).lookup part =
          some (.directory sub') := by
        simp [List.lookup_append, hfree]
      rw [mkdirIn_cons_directory hlookup, mkdirIn_parents_of_ok hrec]
      exact congrArg Except.ok (updateEntry_of_lookup hlookup)

/-- `mfs.Mkdir` under `-p` of a path a successful `mfs.Mkdir` made changes nothing. -/
theorem mkdir_parents_of_ok {root root' : MemNode} {path : String} {mkparents : Bool}
    (h : mkdir root path mkparents = .ok root') : mkdir root' path true = .ok root' := by
  have hpath : path ≠ "" := by
    rintro rfl
    cases h
  cases hp : mkdirParts path with
  | nil =>
    simp only [mkdir, hpath, hp, if_false] at h ⊢
    split_ifs at h
    cases h
    rfl
  | cons part parts =>
    cases root with
    | file => simp [mkdir, hpath, hp] at h
    | directory entries =>
      simp only [mkdir, hpath, hp, if_false] at h ⊢
      obtain ⟨entries', hin, rfl⟩ := map_eq_ok.1 h
      exact congrArg (Except.map MemNode.directory) (mkdirIn_parents_of_ok hin)

theorem uniqueNames_empty : (MemNode.directory []).UniqueNames :=
  uniqueNames_directory.2 ⟨List.nodup_nil, by simp⟩

/-- The walk adds a name only where it is free, so the names stay unique. -/
theorem uniqueNames_mkdirIn {mkparents : Bool} :
    ∀ {walked parts : List String} {entries entries' : List (String × MemNode)},
      (MemNode.directory entries).UniqueNames →
        mkdirIn mkparents walked parts entries = .ok entries' →
          (MemNode.directory entries').UniqueNames
  | _, [], _, _, hu, h => by cases h; exact hu
  | _, [name], entries, _, hu, h => by
    unfold mkdirIn at h
    split at h
    · rename_i hfree
      cases h
      exact uniqueNames_append hu hfree uniqueNames_empty
    · split_ifs at h
      cases h
      exact hu
    · cases h
  | _, part :: next :: parts, entries, _, hu, h => by
    unfold mkdirIn at h
    split at h
    · rename_i sub hsub
      obtain ⟨sub', hrec, rfl⟩ := map_eq_ok.1 h
      have hsub' := uniqueNames_mkdirIn
        ((uniqueNames_directory.1 hu).2 _ (mem_of_lookup_eq_some hsub)) hrec
      rw [uniqueNames_directory] at hu ⊢
      rw [map_fst_updateEntry]
      refine ⟨hu.1, fun e he => ?_⟩
      rcases mem_updateEntry he with he | ⟨_, -, rfl⟩
      exacts [hu.2 e he, hsub']
    · cases h
    · rename_i hfree
      split_ifs at h
      obtain ⟨sub', hrec, rfl⟩ := map_eq_ok.1 h
      exact uniqueNames_append hu hfree (uniqueNames_mkdirIn uniqueNames_empty hrec)

/-- `mfs.Mkdir` keeps the root a directory and the names unique. -/
theorem mkdir_invariants {root root' : MemNode} {path : String} {mkparents : Bool}
    (hdir : root.IsDirectory) (hunique : root.UniqueNames)
    (h : mkdir root path mkparents = .ok root') : root'.IsDirectory ∧ root'.UniqueNames := by
  unfold mkdir at h
  split at h
  · cases h
  split at h
  · split_ifs at h
    cases h
    exact ⟨hdir, hunique⟩
  · split at h
    · obtain ⟨entries', hin, rfl⟩ := map_eq_ok.1 h
      exact ⟨trivial, uniqueNames_mkdirIn hunique hin⟩
    · cases h

/-- Under `-p` the walk leaves the entries as they were, or the path named nothing before. -/
theorem mkdirIn_parents_eq_or_missing :
    ∀ {walked parts : List String} {entries entries' : List (String × MemNode)},
      mkdirIn true walked parts entries = .ok entries' →
        entries' = entries ∨ view (.directory entries) parts = none
  | _, [], _, _, h => by
    cases h
    exact .inl rfl
  | _, [name], entries, _, h => by
    unfold mkdirIn at h
    split at h
    · rename_i hfree
      exact .inr (by simp [view_directory_cons, hfree])
    · rw [if_pos rfl] at h
      cases h
      exact .inl rfl
    · cases h
  | _, part :: next :: parts, entries, _, h => by
    unfold mkdirIn at h
    split at h
    · rename_i sub hsub
      obtain ⟨sub', hrec, rfl⟩ := map_eq_ok.1 h
      rcases mkdirIn_parents_eq_or_missing hrec with rfl | hnone
      · exact .inl (updateEntry_of_lookup hsub)
      · exact .inr (by simp [view_directory_cons, hsub, hnone])
    · cases h
    · rename_i hfree
      exact .inr (by simp [view_directory_cons, hfree])

/-- `mfs.Mkdir` under `-p` leaves the tree as it was, or the path named nothing before. -/
theorem mkdir_parents_eq_or_missing {root root' : MemNode} {path : String}
    (h : mkdir root path true = .ok root') : root' = root ∨ view root (mkdirParts path) = none := by
  unfold mkdir at h
  split at h
  · cases h
  split at h
  · cases h
    exact .inl rfl
  · split at h
    · obtain ⟨entries', hin, rfl⟩ := map_eq_ok.1 h
      rcases mkdirIn_parents_eq_or_missing hin with rfl | hnone
      exacts [.inl rfl, .inr hnone]
    · cases h

/-! ### `files mkdir` -/

/-- What `files mkdir` can do: fail and leave the tree as it was, or run `mfs.Mkdir` on the
checked path. -/
theorem filesMkdir_cases {names : String → Option Nat} {root root' : MemNode} {arg : String}
    {dashp : Bool} {cidVersion : Option Int} {hash : Option String} {err : Option String}
    (h : filesMkdir names root arg dashp cidVersion hash = (root', err)) :
    (root' = root ∧ err.isSome) ∨
      ∃ path pfx, checkPath arg = .ok path ∧ getPrefix names cidVersion hash = .ok pfx ∧
        mkdir root path dashp = .ok root' ∧ err = none := by
  unfold filesMkdir at h
  split at h
  · cases h
    exact .inl ⟨rfl, rfl⟩
  · rename_i path hpath
    split at h
    · cases h
      exact .inl ⟨rfl, rfl⟩
    · rename_i pfx hpfx
      split at h
      · cases h
        exact .inl ⟨rfl, rfl⟩
      · rename_i root1 hmk
        cases h
        exact .inr ⟨path, pfx, hpath, hpfx, hmk, rfl⟩

/-- A successful `files mkdir` on a tree whose root is a directory makes the path `mfs.Mkdir`
walks a directory and, under `-p`, each prefix of it that named nothing; every other path names
what it named. `mfs.Lookup` of the checked path then finds a directory, but for `//`, whose
directory `mfs.Mkdir` makes under the empty name. -/
theorem view_filesMkdir {names : String → Option Nat} {root root' : MemNode} {arg : String}
    {dashp : Bool} {cidVersion : Option Int} {hash : Option String} (hroot : root.IsDirectory)
    (h : filesMkdir names root arg dashp cidVersion hash = (root', none)) :
    ∃ path, checkPath arg = .ok path ∧ view root' = mkdirView (view root) (mkdirParts path) ∧
      view root' (mkdirParts path) = some .directory ∧
      (path ≠ "//" → view root' (lookupParts path) = some .directory) := by
  rcases filesMkdir_cases h with ⟨-, hsome⟩ | ⟨path, -, hpath, -, hmk, -⟩
  · cases hsome
  · have hdir := view_mkdir_self hroot hmk
    refine ⟨path, hpath, view_mkdir hmk, hdir, fun hne => ?_⟩
    rwa [mkdirParts_checkPath hpath, if_neg hne] at hdir

/-- `files mkdir -p /b/c` beside a file `/a` makes `/b` and `/b/c`. -/
theorem mkdir_parents_beside_file :
    (MemNode.directory [("a", .file [1])]).IsDirectory ∧
      filesMkdir (fun _ => none) (.directory [("a", .file [1])]) "/b/c" true none none =
        (.directory [("a", .file [1]), ("b", .directory [("c", .directory [])])], none) ∧
      ∃ path, checkPath "/b/c" = .ok path ∧
        view (.directory [("a", .file [1]), ("b", .directory [("c", .directory [])])]) =
          mkdirView (view (.directory [("a", .file [1])])) (mkdirParts path) ∧
        view (.directory [("a", .file [1]), ("b", .directory [("c", .directory [])])])
          (mkdirParts path) = some .directory ∧
        (path ≠ "//" → view (.directory [("a", .file [1]), ("b", .directory [("c", .directory [])])])
          (lookupParts path) = some .directory) :=
  ⟨trivial, by rfl, @view_filesMkdir (fun _ => none) (.directory [("a", .file [1])]) _ "/b/c" true
    none none trivial (by rfl)⟩

/-- `files mkdir //` adds a directory under the empty name, where `mfs.Lookup` of `//` finds
the root. -/
example : filesMkdir (fun _ => none) (.directory []) "//" false none none =
      (.directory [("", .directory [])], none) ∧ lookupParts "//" = [] :=
  ⟨by rfl, by rfl⟩

/-- `files mkdir` succeeds exactly when the path checks, the CID options give a prefix and the
map allows `mfs.Mkdir`: under `-p`, no prefix of the path names a file; without it, the path is
not `/`, the path above it names a directory and the path names nothing. -/
theorem filesMkdir_ok_iff (names : String → Option Nat) {root : MemNode} (hroot : root.IsDirectory)
    (arg : String) (dashp : Bool) (cidVersion : Option Int) (hash : Option String) :
    (filesMkdir names root arg dashp cidVersion hash).2 = none ↔
      ∃ path, checkPath arg = .ok path ∧ (∃ pfx, getPrefix names cidVersion hash = .ok pfx) ∧
        MkdirSucceeds (view root) (mkdirParts path) dashp := by
  unfold filesMkdir
  rcases hc : checkPath arg with e | path
  · simp
  · simp only [Except.ok.injEq, exists_eq_left', ← mkdir_ok_iff hroot (checkPath_ne_empty hc)]
    cases getPrefix names cidVersion hash with
    | error => simp
    | ok pfx =>
      rcases hm : mkdir root path dashp with e | root' <;> simp [hm]

/-- `files mkdir /a` on the empty MFS succeeds: `/a` names nothing and `/` is a directory. -/
theorem mkdir_into_empty :
    (MemNode.directory []).IsDirectory ∧
      ((filesMkdir (fun _ => none) (.directory []) "/a" false none none).2 = none ↔
        ∃ path, checkPath "/a" = .ok path ∧ (∃ pfx, getPrefix (fun _ => none) none none = .ok pfx) ∧
          MkdirSucceeds (view (.directory [])) (mkdirParts path) false) :=
  ⟨trivial, @filesMkdir_ok_iff (fun _ => none) (.directory []) trivial "/a" false none none⟩

/-- `files mkdir -p` of a path that a `files mkdir` with the same options has just made succeeds
and leaves the tree as it is. -/
theorem filesMkdir_parents_idempotent {names : String → Option Nat} {root root' : MemNode}
    {arg : String} {dashp : Bool} {cidVersion : Option Int} {hash : Option String}
    (h : filesMkdir names root arg dashp cidVersion hash = (root', none)) :
    filesMkdir names root' arg true cidVersion hash = (root', none) := by
  rcases filesMkdir_cases h with ⟨-, hsome⟩ | ⟨path, pfx, hpath, hpfx, hmk, -⟩
  · cases hsome
  · simp only [filesMkdir, hpath, hpfx, mkdir_parents_of_ok hmk]

/-- `files mkdir /b`, then `files mkdir -p /b` on what it left. -/
theorem mkdir_then_mkdir_parents :
    filesMkdir (fun _ => none) (.directory []) "/b" false none none =
        (.directory [("b", .directory [])], none) ∧
      filesMkdir (fun _ => none) (.directory [("b", .directory [])]) "/b" true none none =
        (.directory [("b", .directory [])], none) :=
  ⟨by rfl, @filesMkdir_parents_idempotent (fun _ => none) (.directory []) _ "/b" false none none
    (by rfl)⟩

end BockIpfs.MfsMkdir
