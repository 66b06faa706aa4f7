import BockIpfs.MfsTree
import Mathlib.Data.String.Basic

/-!
# `files read`, `files write` and `files ls`

`files write` finds the file (or, under `--create`, adds an empty one to its directory),
truncates it under `--truncate`, seeks to the offset and copies the data in, cut to `--count`;
`files read` finds the file, checks the offset against its size and copies out what follows, up
to the count; `files ls` prints the names of a directory's entries, or the name of a file. All
three run on the tree of `MfsTree`.

A successful `files write` sets the file at its path in the map of `MfsTree` and changes no
other path, and `files write` then `files read` at the same offset gives the written bytes back,
for every tree, path and option the write accepts, created file or not. A failed `files write`
leaves MFS as it was when it fails before `getFileHandle` hands back the file; after that it
fails only on a negative `--count`, and then the file created under `--create` and the
truncation under `--truncate` stay.
-/

namespace BockIpfs.FilesIo

open Paths FilesPath MfsTree

/-- `io.LimitReader(r, count)` under `--count`: at most `count` bytes of what `r` holds. -/
def limitReader (count : Option Int) (data : List UInt8) : List UInt8 :=
  match count with
  | some count => data.take count.toNat
  | none => data

/-! ### The commands -/

/-- A CID prefix for new nodes: the CID version and the multihash function code. -/
structure Prefix where
  /-- The CID version. -/
  version : Int
  /-- The multihash function code. -/
  mhType : Nat
  deriving DecidableEq, Repr

/-- `dag.PrefixForCidVersion(version)`: dag-pb with sha2-256, for CID version 0 or 1. -/
def prefixForCidVersion (version : Int) : Except String Prefix :=
  if version = 0 ∨ version = 1 then .ok ⟨version, 0x12⟩
  else .error ("unknown CID version: " ++ toString version)

/-- The body `getPrefix` and `getPrefixNew` share: no prefix without `--cid-version` and
`--hash`; a hash function lifts CID version 0 to 1; `names` is go-multihash's table of hash
function names. -/
def prefixFromOptions (names : String → Option Nat) (cidVersion : Option Int) (hash : Option String) :
    Except String (Option Prefix) :=
  if cidVersion.isNone ∧ hash.isNone then .ok none
  else
    let version := if hash.isSome ∧ cidVersion.getD 0 = 0 then 1 else cidVersion.getD 0
    match prefixForCidVersion version, hash with
    | .error e, _ => .error e
    | .ok base, none => .ok (some base)
    | .ok base, some hash =>
      match names hash.toLower with
      | some code => .ok (some { base with mhType := code })
      | none => .error ("unrecognized hash function: " ++ hash.toLower)

/-- `getPrefixNew(req)`. -/
def getPrefixNew (names : String → Option Nat) (cidVersion : Option Int) (hash : Option String) :
    Except String (Option Prefix) :=
  prefixFromOptions names cidVersion hash

/-- `getPrefix(req)`. -/
def getPrefix (names : String → Option Nat) (cidVersion : Option Int) (hash : Option String) :
    Except String (Option Prefix) :=
  prefixFromOptions names cidVersion hash

/-- `getFileHandle(r, path, create, builder)`: the tree, with an empty file added to its
directory under `--create` when the path is missing, and the parts of the file's place. -/
def getFileHandle (root : MemNode) (path : String) (create : Bool) :
    Except String (MemNode × List String) :=
  match lookup root path with
  | .ok (.file _) => .ok (root, lookupParts path)
  | .ok (.directory _) => .error (path ++ " was not a file")
  | .error .notExist =>
    if create then
      match getParentDir root (split path).1 with
      | .error e => .error e.message
      | .ok entries =>
        match addChild entries (split path).2 (.file []) with
        | .error e => .error e
        | .ok entries =>
          .ok (modifyAt (fun _ => .directory entries) (lookupParts (split path).1) root,
            lookupParts (split path).1 ++ [(split path).2])
    else .error MfsError.notExist.message
  | .error e => .error e.message

/-- The options of `files write` the model reads; an absent `--offset` reads as 0. -/
structure WriteOptions where
  /-- `--offset`. -/
  offset : Int
  /-- `--create`. -/
  create : Bool
  /-- `--truncate`. -/
  truncate : Bool
  /-- `--count`, if given. -/
  count : Option Int
  /-- `--cid-version`, if given. -/
  cidVersion : Option Int
  /-- `--hash`, if given. -/
  hash : Option String
  deriving DecidableEq, Repr

/-- The message of a negative `--count`. -/
def negativeCount : String := "cannot have negative byte count"

/-- `files write` without `--parents`: the tree afterwards and the error, if any. -/
def filesWrite (names : String → Option Nat) (root : MemNode) (arg : String)
    (opts : WriteOptions) (data : List UInt8) : MemNode × Option String :=
  match checkPath arg with
  | .error e => (root, some e)
  | .ok path =>
    match getPrefixNew names opts.cidVersion opts.hash with
    | .error e => (root, some e)
    | .ok _ =>
      if opts.offset < 0 then (root, some "cannot have negative write offset")
      else
        match getFileHandle root path opts.create with
        | .error e => (root, some e)
        | .ok (root, place) =>
          let root := if opts.truncate then modifyAt (MemNode.mapContent fun _ => []) place root
            else root
          if opts.count.any (· < 0) then (root, some negativeCount)
          else
            (modifyAt (MemNode.mapContent (writeAt · opts.offset.toNat (limitReader opts.count data)))
              place root, none)

/-- The options of `files read`; an absent `--offset` reads as 0. -/
structure ReadOptions where
  /-- `--offset`. -/
  offset : Int
  /-- `--count`, if given. -/
  count : Option Int
  deriving DecidableEq, Repr

/-- `files read`: the bytes it emits, or its error. -/
def filesRead (root : MemNode) (arg : String) (opts : ReadOptions) : Except String (List UInt8) :=
  match checkPath arg with
  | .error e => .error e
  | .ok path =>
    match lookup root path with
    | .error e => .error (path ++ ": " ++ e.message)
    | .ok (.directory _) => .error (path ++ " was not a file")
    | .ok (.file content) =>
      if opts.offset < 0 then .error "cannot specify negative offset"
      else if opts.offset > content.length then
        .error ("offset was past end of file (" ++ toString opts.offset ++ " > " ++
          toString content.length ++ ")")
      else if opts.count.any (· < 0) then .error "cannot specify negative 'count'"
      else .ok (limitReader opts.count (content.drop opts.offset.toNat))

/-- `files ls` without `--long`, as its text encoder prints it: the names, one a line. With no
argument it lists `/`. A directory's entry names are sorted by `strings.Compare` (the order of
code points, which UTF-8 keeps) unless `-U` (`noSort`) is given; a file is listed by the name
`path.Split` gives of its checked path. -/
def filesLs (root : MemNode) (arg : Option String) (noSort : Bool) : Except String (List String) :=
  match checkPath (arg.getD "/") with
  | .error e => .error e
  | .ok path =>
    match lookup root path with
    | .error e => .error e.message
    | .ok (.directory entries) =>
      if noSort then .ok (entries.map (·.1))
      else .ok ((entries.map (·.1)).mergeSort fun a b => decide (a ≤ b))
    | .ok (.file _) => .ok [(split path).2]

/-! ### The place of a created file

`getFileHandle` adds a missing file under the directory `path.Split` gives and the name after it;
for a checked path with a name, the walk to that directory and on to the name is the walk to
the path. -/

theorem lookupParts_rootedPath {stack : List String} (hs : ∀ e ∈ stack, ValidElem e) :
    lookupParts (rootedPath stack) = stack := by
  rcases stack with _ | ⟨e, rest⟩
  · rfl
  · obtain ⟨hne, hslash, -⟩ := hs e (List.mem_cons_self _ _)
    have hrest : ∀ x ∈ rest.map String.toList, '/' ∉ x := by
      simpa using fun x hx => (hs x (List.mem_cons_of_mem _ hx)).2.1
    have hpath : (rootedPath (e :: rest)).toList =
        '/' :: (e.toList ++ ((rest.map String.toList).map ('/' :: ·)).flatten) := by
      rw [toList_rootedPath (List.cons_ne_nil _ _), List.map_cons, List.flatten_cons, List.map_map]
      rfl
    -- the leading slash goes and nothing trails, so the rest splits into the elements
    have hdrop : (rootedPath (e :: rest)).toList.dropWhile (· == '/') =
        e.toList ++ ((rest.map String.toList).map ('/' :: ·)).flatten := by
      obtain ⟨c, cs, hc⟩ := List.exists_cons_of_ne_nil hne
      have hc' : (c == '/') = false := by
        simpa using fun h : c = '/' => hslash (by rw [hc, h]; simp)
      rw [hpath, List.dropWhile_cons_of_pos rfl, hc, List.cons_append,
        List.dropWhile_cons_of_neg (by simp [hc'])]
    have hlast : (String.mk (e.toList ++
        ((rest.map String.toList).map ('/' :: ·)).flatten)).toList.getLast? ≠ some '/' := by
      have h := getLast?_rootedPath (List.cons_ne_nil e rest) hs
      rw [hpath, List.getLast?_cons] at h
      show (e.toList ++ _).getLast? ≠ _
      cases hl : (e.toList ++ ((rest.map String.toList).map ('/' :: ·)).flatten).getLast? with
      | none => simp
      | some x => rwa [hl, Option.getD_some] at h
    have helems : elements (trimSlash (rootedPath (e :: rest))) = e :: rest := by
      rw [trimSlash, hdrop, trimRightSlash_of_getLast? hlast, elements]
      show List.map String.mk (List.splitOn '/' (e.toList ++ _)) = _
      rw [splitOn_slash_join _ _ hslash hrest]
      simp [Function.comp_def]
    rw [lookupParts, helems, if_neg]
    intro h
    exact hne (by cases h; rfl)

/-- `path.Split` of a rooted path of valid elements: a directory whose parts are the elements
but the last, and the last as the name. -/
theorem lookupParts_split_rootedPath {init : List String} {last : String}
    (hs : ∀ e ∈ init ++ [last], ValidElem e) :
    lookupParts (split (rootedPath (init ++ [last]))).1 = init ∧
      (split (rootedPath (init ++ [last]))).2 = last := by
  rw [split_rootedPath_concat hs]
  refine ⟨?_, rfl⟩
  rcases init with _ | ⟨e, rest⟩
  · rfl
  · -- the directory is the rooted path of `init` with a `/` after it
    have hdir : String.mk (((e :: rest).map fun e => '/' :: e.toList).flatten ++ ['/']) =
        rootedPath (e :: rest) ++ "/" :=
      String.ext (by
        rw [String.data_append, show (rootedPath (e :: rest)).data =
          (rootedPath (e :: rest)).toList from rfl, toList_rootedPath (List.cons_ne_nil _ _)])
    simp only [hdir, lookupParts, trimSlash_append_slash]
    rw [← lookupParts, lookupParts_rootedPath fun x hx => hs x (List.mem_append_left _ hx)]

/-- Where a checked path has a name after its last `/`, the directory's parts and the name are
the path's parts. -/
theorem lookupParts_split_checkPath {arg path : String} (h : checkPath arg = .ok path)
    (hname : (split path).2 ≠ "") :
    lookupParts (split path).1 ++ [(split path).2] = lookupParts path := by
  obtain ⟨hr, rfl⟩ := checkPath_eq_ok.1 h
  split_ifs at hname ⊢
  · exact absurd (split_append_slash _) hname
  · rw [clean_of_rooted hr] at hname ⊢
    rcases List.eq_nil_or_concat (cleanStack arg) with hs | ⟨init, last, hs⟩
    · rw [hs] at hname
      exact absurd rfl hname
    · rw [List.concat_eq_append] at hs
      have hvalid := validElem_cleanStack arg
      rw [hs] at hvalid ⊢
      obtain ⟨hdir, hname⟩ := lookupParts_split_rootedPath hvalid
      rw [hdir, hname, lookupParts_rootedPath hvalid]

/-! ### What the commands do -/

/-- What `getFileHandle` can do: hand back a file the path already names, or add an empty one
under a free name of the directory before it. -/
theorem getFileHandle_eq_ok {root root' : MemNode} {path : String} {create : Bool}
    {place : List String} (h : getFileHandle root path create = .ok (root', place)) :
    (∃ content, nodeAt (lookupParts path) root = some (.file content) ∧ root' = root ∧
      place = lookupParts path) ∨
    (nodeAt (lookupParts path) root = none ∧ ∃ entries,
      nodeAt (lookupParts (split path).1) root = some (.directory entries) ∧
      entries.lookup (split path).2 = none ∧
      root' = modifyAt (fun _ => .directory (entries ++ [((split path).2, .file [])]))
        (lookupParts (split path).1) root ∧
      place = lookupParts (split path).1 ++ [(split path).2]) := by
  unfold getFileHandle lookup at h
  split at h
  · rename_i content hl
    cases h
    exact .inl ⟨content, lookupAt_eq_ok_iff.1 hl, rfl, rfl⟩
  · cases h
  · rename_i hl
    split at h
    · split at h
      · cases h
      · rename_i entries hdir
        split at h
        · cases h
        · rename_i hadd
          obtain ⟨hname, rfl⟩ := addChild_eq_ok.1 hadd
          obtain ⟨rfl, rfl⟩ := Prod.mk.inj (Except.ok.inj h)
          exact .inr ⟨nodeAt_eq_none hl, entries, getParentDir_eq_ok.1 hdir, hname, rfl, rfl⟩
    · cases h
  · cases h

/-- On a checked path, the handle `getFileHandle` gives is the path's own place, and the map
afterwards is the map before with the file there: its old bytes, or none for a new file. -/
theorem getFileHandle_view {arg path : String} {root root' : MemNode} {create : Bool}
    {place : List String} (hpath : checkPath arg = .ok path)
    (h : getFileHandle root path create = .ok (root', place)) :
    place = lookupParts path ∧
      view root' = setFile (view root) place (contentAt (view root) place) := by
  rcases getFileHandle_eq_ok h with
    ⟨content, hc, hroot, rfl⟩ | ⟨hnone, entries, hdir, hname, hroot, hplace⟩
  · have hv : view root (lookupParts path) = some (.file content) := view_eq_file_iff.2 hc
    rw [hroot, contentAt, hv, setFile_of_eq hv]
    exact ⟨rfl, rfl⟩
  · -- the name is not empty: the directory of a path ending in `/` is the path itself
    have hsplit : (split path).2 ≠ "" := by
      intro he
      have hdirpath := split_fst_append_snd path
      rw [he, String.append_empty] at hdirpath
      rw [hdirpath, hnone] at hdir
      cases hdir
    rw [lookupParts_split_checkPath hpath hsplit] at hplace
    subst hplace
    rw [hroot, view_modifyAt_addChild hdir hname, lookupParts_split_checkPath hpath hsplit]
    simp [contentAt, view, hnone]

/-- Past a directory the walk reaches, `mfs.Lookup` of one more element is that directory's
child. -/
theorem lookupAt_concat_of_directory {name : String} {entries : List (String × MemNode)} :
    ∀ {done p : List String} {node : MemNode}, nodeAt p node = some (.directory entries) →
      lookupAt done (p ++ [name]) node = child entries name
  | _, [], _, h => by
    cases Option.some.inj h
    simp only [List.nil_append, lookupAt]
    cases child entries name <;> rfl
  | _, _ :: _, .file _, h => by cases h
  | _, part :: _, .directory _, h => by
    obtain ⟨next, hnext, hp⟩ := Option.bind_eq_some.1 h
    simp only [List.cons_append, lookupAt, child, hnext]
    exact lookupAt_concat_of_directory hp

/-- Under `--create`, `getFileHandle` of a checked path with a name succeeds when the path above
it names a directory and the path is not a directory itself: it hands back the file there, or
adds an empty one. -/
theorem getFileHandle_create {root : MemNode} {arg path : String} (hpath : checkPath arg = .ok path)
    (hname : (split path).2 ≠ "")
    (hparent : view root (lookupParts path).dropLast = some .directory)
    (hnotdir : view root (lookupParts path) ≠ some .directory) :
    ∃ root', getFileHandle root path true = .ok (root', lookupParts path) := by
  have hsplit := lookupParts_split_checkPath hpath hname
  rw [← hsplit, List.dropLast_concat] at hparent
  rw [← hsplit] at hnotdir
  obtain ⟨dirNode, hdirNode, hentry⟩ := Option.map_eq_some'.1 hparent
  cases dirNode with
  | file => cases hentry
  | directory entries =>
    unfold getFileHandle lookup
    rw [← hsplit, lookupAt_concat_of_directory hdirNode, child]
    cases hl : entries.lookup (split path).2 with
    | none =>
      have hadd : addChild entries (split path).2 (.file []) =
          .ok (entries ++ [((split path).2, .file [])]) := addChild_eq_ok.2 ⟨hl, rfl⟩
      simp only [if_true, getParentDir_eq_ok.2 hdirNode, hadd]
      exact ⟨_, rfl⟩
    | some node =>
      cases node with
      | file => exact ⟨_, rfl⟩
      | directory =>
        refine absurd ?_ hnotdir
        simp [view_append hdirNode, view_directory_cons, hl, MemNode.entry]

/-- What `files write` can do: fail before it changes anything, or find (or create) the file,
truncate it under `--truncate`, and then either fail on a negative `--count` or write. -/
theorem filesWrite_cases {names : String → Option Nat} {root root' : MemNode} {arg : String}
    {opts : WriteOptions} {data : List UInt8} {err : Option String}
    (h : filesWrite names root arg opts data = (root', err)) :
    (root' = root ∧ err.isSome) ∨
    ∃ path pfx root1 place, checkPath arg = .ok path ∧
      getPrefixNew names opts.cidVersion opts.hash = .ok pfx ∧ 0 ≤ opts.offset ∧
      getFileHandle root path opts.create = .ok (root1, place) ∧
      let root2 := if opts.truncate then modifyAt (MemNode.mapContent fun _ => []) place root1
        else root1
      (opts.count.any (· < 0) = true ∧ err = some negativeCount ∧ root' = root2) ∨
      (opts.count.any (· < 0) = false ∧ err = none ∧ root' = modifyAt
        (MemNode.mapContent (writeAt · opts.offset.toNat (limitReader opts.count data))) place root2) := by
  unfold filesWrite at h
  split at h
  · cases h
    exact .inl ⟨rfl, rfl⟩
  · rename_i path hpath
    split at h
    · cases h
      exact .inl ⟨rfl, rfl⟩
    · rename_i pfx hpfx
      by_cases hoff : opts.offset < 0
      · rw [if_pos hoff] at h
        cases h
        exact .inl ⟨rfl, rfl⟩
      · rw [if_neg hoff] at h
        split at h
        · cases h
          exact .inl ⟨rfl, rfl⟩
        · rename_i root1 place hhandle
          refine .inr ⟨path, pfx, root1, place, hpath, hpfx, by omega, hhandle, ?_⟩
          dsimp only at h ⊢
          by_cases hcount : opts.count.any (· < 0)
          · rw [if_pos hcount] at h
            cases h
            exact .inl ⟨hcount, rfl, rfl⟩
          · rw [if_neg hcount] at h
            cases h
            exact .inr ⟨by simpa using hcount, rfl, rfl⟩

/-- `files write` once the path, the CID options, the offset and `--count` pass and
`getFileHandle` gives a file: truncate under `--truncate`, then write. -/
theorem filesWrite_eq_of_getFileHandle {names : String → Option Nat} {root root1 : MemNode}
    {arg path : String} {opts : WriteOptions} {data : List UInt8} {place : List String}
    {pfx : Option Prefix} (hpath : checkPath arg = .ok path)
    (hpfx : getPrefixNew names opts.cidVersion opts.hash = .ok pfx) (hoff : 0 ≤ opts.offset)
    (hcount : ∀ count ∈ opts.count, 0 ≤ count)
    (hh : getFileHandle root path opts.create = .ok (root1, place)) :
    filesWrite names root arg opts data =
      (modifyAt (MemNode.mapContent (writeAt · opts.offset.toNat (limitReader opts.count data)))
        place (if opts.truncate then modifyAt (MemNode.mapContent fun _ => []) place root1
          else root1), none) := by
  have hc : opts.count.any (· < 0) = false := by
    cases h : opts.count with
    | none => rfl
    | some c => simpa using hcount c h
  simp only [filesWrite, hpath, hpfx, not_lt.2 hoff, if_false, hh, hc, Bool.false_eq_true]

/-- Truncating the file a map sets under `--truncate`. -/
theorem view_truncate {node : MemNode} {v : List String → Option Entry} {p : List String}
    {content : List UInt8} (h : view node = setFile v p content) (truncate : Bool) :
    view (if truncate then modifyAt (MemNode.mapContent fun _ => []) p node else node) =
      setFile v p (if truncate then [] else content) := by
  cases truncate
  · exact h
  · exact view_mapContent_of_setFile h _

/-- What `files read` emits: the bytes of the file at the checked path from the offset on, up
to the count, when the offset is within the file and neither it nor the count is negative. -/
theorem filesRead_eq_ok {root : MemNode} {arg : String} {opts : ReadOptions}
    {bytes : List UInt8} :
    filesRead root arg opts = .ok bytes ↔ ∃ path content, checkPath arg = .ok path ∧
      view root (lookupParts path) = some (.file content) ∧ 0 ≤ opts.offset ∧
      opts.offset ≤ content.length ∧ (∀ count ∈ opts.count, 0 ≤ count) ∧
      bytes = limitReader opts.count (content.drop opts.offset.toNat) := by
  unfold filesRead
  cases hc : checkPath arg with
  | error => simp
  | ok path =>
    simp only [lookup, Except.ok.injEq, exists_and_left, exists_eq_left']
    cases hl : lookupAt [] (lookupParts path) root with
    | error => simp [view, nodeAt_eq_none hl]
    | ok node =>
      rw [view, lookupAt_eq_ok_iff.1 hl]
      cases node with
      | directory => simp [MemNode.entry]
      | file content =>
        simp only [Option.map_some', MemNode.entry, Option.some.injEq, Entry.file.injEq,
          exists_eq_left']
        have hcount : opts.count.any (· < 0) = true ↔ ¬∀ count ∈ opts.count, 0 ≤ count := by
          cases opts.count <;> simp [Int.not_le]
        split_ifs with h1 h2 h3
        · exact iff_of_false (by simp) fun h => absurd h.1 (by omega)
        · exact iff_of_false (by simp) fun h => absurd h.2.1 (by omega)
        · exact iff_of_false (by simp) fun h => hcount.1 h3 h.2.2.1
        · rw [Except.ok.injEq]
          exact ⟨fun h => ⟨by omega, by omega, not_not.1 (mt hcount.2 h3), h.symm⟩,
            fun h => h.2.2.2.symm⟩

/-- The end of a write on a file the map sets: truncate under `--truncate`, then write. -/
theorem view_writeAt {node : MemNode} {v : List String → Option Entry} {p : List String}
    {content : List UInt8} (h : view node = setFile v p content) (truncate : Bool) (offset : Nat)
    (data : List UInt8) :
    view (modifyAt (MemNode.mapContent (writeAt · offset data)) p
        (if truncate then modifyAt (MemNode.mapContent fun _ => []) p node else node)) =
      setFile v p (writeAt (if truncate then [] else content) offset data) :=
  view_mapContent_of_setFile (view_truncate h truncate) _

/-! ### `files write`, then what the files hold -/

/-- A successful `files write` sets the file at the checked path to its old bytes (none for a
new file or under `--truncate`) with the data, cut to `--count`, written at the offset over
them, zero-filled up to it; every other path names what it named before. -/
theorem view_filesWrite {names : String → Option Nat} {root root' : MemNode} {arg : String}
    {opts : WriteOptions} {data : List UInt8}
    (h : filesWrite names root arg opts data = (root', none)) :
    ∃ path, checkPath arg = .ok path ∧
      view root' = setFile (view root) (lookupParts path)
        (writeAt (if opts.truncate then [] else contentAt (view root) (lookupParts path))
          opts.offset.toNat (limitReader opts.count data)) := by
  rcases filesWrite_cases h with ⟨-, hsome⟩ | ⟨path, -, root1, place, hpath, -, -, hhandle, hrest⟩
  · cases hsome
  · obtain ⟨rfl, hview⟩ := getFileHandle_view hpath hhandle
    rcases hrest with ⟨-, hnone, -⟩ | ⟨-, -, rfl⟩
    · cases hnone
    · exact ⟨path, hpath, view_writeAt hview _ _ _⟩

/-- Writing `[7]` to a new file `/b` beside `/a`. -/
theorem write_created_beside :
    filesWrite (fun _ => none) (.directory [("a", .file [1])]) "/b"
        ⟨0, true, false, none, none, none⟩ [7] =
      (.directory [("a", .file [1]), ("b", .file [7])], none) ∧
    ∃ path, checkPath "/b" = .ok path ∧
      view (.directory [("a", .file [1]), ("b", .file [7])]) =
        setFile (view (.directory [("a", .file [1])])) (lookupParts path)
          (writeAt (if false then [] else contentAt (view (.directory [("a", .file [1])]))
            (lookupParts path)) (0 : Int).toNat (limitReader none [7])) :=
  ⟨by rfl, @view_filesWrite (fun _ => none) (.directory [("a", .file [1])]) _ "/b"
    ⟨0, true, false, none, none, none⟩ [7] (by rfl)⟩

/-- The spec's overlapping writes: `AAAA` at 0, then `BB` at 2, leave `AABB`. -/
example :
    view (filesWrite (fun _ => none)
      (filesWrite (fun _ => none) (.directory []) "/f" ⟨0, true, false, none, none, none⟩
        [65, 65, 65, 65]).1 "/f" ⟨2, false, false, none, none, none⟩ [66, 66]).1 ["f"] =
      some (.file [65, 65, 66, 66]) := by
  rfl

/-- `files write` then `files read` at the same offset, for as many bytes as were written,
gives those bytes back: for every tree, path and option the write accepts, created file or
not. -/
theorem filesRead_after_filesWrite {names : String → Option Nat} {root root' : MemNode}
    {arg : String} {opts : WriteOptions} {data : List UInt8}
    (h : filesWrite names root arg opts data = (root', none)) :
    filesRead root' arg ⟨opts.offset, some (limitReader opts.count data).length⟩ =
      .ok (limitReader opts.count data) := by
  rcases filesWrite_cases h with ⟨-, hsome⟩ | ⟨path, -, root1, place, hpath, -, hoff, hhandle, hrest⟩
  · cases hsome
  · obtain ⟨rfl, hview⟩ := getFileHandle_view hpath hhandle
    rcases hrest with ⟨-, hnone, -⟩ | ⟨-, -, rfl⟩
    · cases hnone
    · have hfile := congrFun (view_writeAt hview opts.truncate opts.offset.toNat
        (limitReader opts.count data)) (lookupParts path)
      rw [setFile, if_pos rfl] at hfile
      refine filesRead_eq_ok.2 ⟨path, _, hpath, hfile, hoff, ?_,
        fun _ hc => by rw [Option.mem_def, Option.some.injEq] at hc; omega, ?_⟩
      · simp only [length_writeAt]
        omega
      · simp [limitReader, take_drop_writeAt]

/-- The spec's round trip: `write("/f.txt", 0, "hi", create)`, then `read("/f.txt", 0, 2)`. -/
theorem read_back_after_create :
    filesWrite (fun _ => none) (.directory []) "/f.txt" ⟨0, true, false, none, none, none⟩
        [104, 105] = (.directory [("f.txt", .file [104, 105])], none) ∧
    filesRead (.directory [("f.txt", .file [104, 105])]) "/f.txt" ⟨0, some 2⟩ = .ok [104, 105] :=
  ⟨by rfl, @filesRead_after_filesWrite (fun _ => none) (.directory []) _ "/f.txt"
    ⟨0, true, false, none, none, none⟩ [104, 105] (by rfl)⟩

/-- A failed `files write` leaves MFS as it was when it fails before `getFileHandle` hands back
the file. It fails after that only on a negative `--count`, a check that comes after the file was
created under `--create` and truncated under `--truncate`: both stay. -/
theorem view_filesWrite_error {names : String → Option Nat} {root root' : MemNode} {arg : String}
    {opts : WriteOptions} {data : List UInt8} {e : String}
    (h : filesWrite names root arg opts data = (root', some e)) :
    (root' = root ∧ ¬∃ path pfx handle, checkPath arg = .ok path ∧
        getPrefixNew names opts.cidVersion opts.hash = .ok pfx ∧ 0 ≤ opts.offset ∧
        getFileHandle root path opts.create = .ok handle) ∨
      e = negativeCount ∧ ∃ path, checkPath arg = .ok path ∧
        view root' = setFile (view root) (lookupParts path)
          (if opts.truncate then [] else contentAt (view root) (lookupParts path)) := by
  by_cases hreach : ∃ path pfx handle, checkPath arg = .ok path ∧
      getPrefixNew names opts.cidVersion opts.hash = .ok pfx ∧ 0 ≤ opts.offset ∧
      getFileHandle root path opts.create = .ok handle
  · -- every check before the count passed: only the count can have failed
    obtain ⟨path, pfx, ⟨root1, place⟩, hpath, hpfx, hoff, hhandle⟩ := hreach
    simp only [filesWrite, hpath, hpfx, if_neg (not_lt.2 hoff), hhandle] at h
    by_cases hcount : opts.count.any (· < 0) = true
    · rw [if_pos hcount] at h
      obtain ⟨rfl, hview⟩ := getFileHandle_view hpath hhandle
      obtain ⟨hroot', he⟩ := Prod.mk.inj h
      refine .inr ⟨(Option.some.inj he).symm, path, hpath, ?_⟩
      rw [← hroot', view_truncate hview]
    · rw [if_neg hcount] at h
      cases h
  · -- a check before the count failed, before anything changed
    rcases filesWrite_cases h with ⟨hsame, -⟩ | ⟨path, pfx, root1, place, hpath, hpfx, hoff, hh, -⟩
    exacts [.inl ⟨hsame, hreach⟩, absurd ⟨path, pfx, _, hpath, hpfx, hoff, hh⟩ hreach]

/-- `--truncate` with `--count=-1` on a file holding `[1]`: the write fails, and leaves the file
empty. -/
theorem failed_write_truncates :
    filesWrite (fun _ => none) (.directory [("a", .file [1])]) "/a"
        ⟨0, false, true, some (-1), none, none⟩ [2] =
      (.directory [("a", .file [])], some negativeCount) ∧
    ((MemNode.directory [("a", .file [])] = .directory [("a", .file [1])] ∧
        ¬∃ path pfx handle, checkPath "/a" = .ok path ∧
          getPrefixNew (fun _ => none) none none = .ok pfx ∧ (0 : Int) ≤ 0 ∧
          getFileHandle (.directory [("a", .file [1])]) path false = .ok handle) ∨
      negativeCount = negativeCount ∧ ∃ path, checkPath "/a" = .ok path ∧
        view (.directory [("a", .file [])]) =
          setFile (view (.directory [("a", .file [1])])) (lookupParts path)
            (if true then [] else contentAt (view (.directory [("a", .file [1])]))
              (lookupParts path))) :=
  ⟨by rfl, @view_filesWrite_error (fun _ => none) (.directory [("a", .file [1])]) _ "/a"
    ⟨0, false, true, some (-1), none, none⟩ [2] _ (by rfl)⟩

/-! ### `files ls` -/

/-- `files ls /f/` where `/f` is a file prints an empty name: `checkPath` keeps the `/`,
`mfs.Lookup` trims it and finds the file, and `path.Split` then gives the empty name. -/
example : filesLs (.directory [("f", .file [1])]) (some "/f/") false = .ok [""] ∧
    filesLs (.directory [("f", .file [1])]) (some "/f") false = .ok ["f"] :=
  ⟨by rfl, by rfl⟩

end BockIpfs.FilesIo
