import BockIpfs.MfsMkdir

/-!
# `--parents`, and runs of the commands that change MFS

With `--parents`, `files write` and `files cp` first call `ensureContainingDirectoryExists`,
which makes the directory of their path, and the directories above it, with `mfs.Mkdir` under
`-p`. `files write --parents` is then `files write` on the tree that leaves. `files cp
--parents` attaches the node it resolved before the directories were made; a copy that fails
leaves MFS as it was all the same, since the directories are made only where the destination's
directory was missing, and then the copy cannot fail.

Without `--parents`, `files write` and `files cp` are the commands of `FilesIo` and `FilesCp`.
The commands `files write`, `files cp`, `files mkdir` and `files rm`, with all the options the
model reads, run one after another on MFS and keep the invariants `MfsRun` states.
-/

namespace BockIpfs.MfsParents

open Paths FilesPath MfsTree FilesIo FilesCp MfsRun MfsMkdir

/-! ### The commands with `--parents` -/

/-- `path.Dir`: the directory part of `Split`, cleaned. -/
def dir (path : String) : String := clean (split path).1

/-- `ensureContainingDirectoryExists(r, path, builder)`: make the directory of `path` and those
above it, nothing when it is `/`. -/
def ensureContainingDirectoryExists (root : MemNode) (path : String) : Except MkdirError MemNode :=
  if dir path = "/" then .ok root else mkdir root (dir path) true

/-- `files write`, with `--parents` given as `parents`. After the path, the CID options and the
offset are checked, `--parents` makes the directory of the path; what follows is `filesWrite` on
the tree that leaves, whose checks of the path, the options and the offset pass again. -/
def filesWriteWith (names : String → Option Nat) (root : MemNode) (arg : String)
    (opts : WriteOptions) (parents : Bool) (data : List UInt8) : MemNode × Option String :=
  match checkPath arg with
  | .error e => (root, some e)
  | .ok path =>
    match getPrefixNew names opts.cidVersion opts.hash with
    | .error e => (root, some e)
    | .ok _ =>
      if parents ∧ 0 ≤ opts.offset then
        match ensureContainingDirectoryExists root path with
        | .error e => (root, some e.message)
        | .ok root => filesWrite names root arg opts data
      else filesWrite names root arg opts data

/-- The options `files cp` declares. -/
structure CpOptions where
  /-- `--force`. -/
  force : Bool
  /-- `--parents`. -/
  parents : Bool
  deriving DecidableEq, Repr

/-- `files cp` with the options it declares. Its first call, `getPrefixNew`, reads
`--cid-version` and `--hash`, which `files cp` does not declare, so it gives no prefix and no
error, and is left out. After the source resolves to a valid UnixFS node, `--parents` makes the
directory of the destination, `--force` unlinks a file there, and the node resolved before is
attached. -/
def filesCpWith (resolve : String → Except String Source) (root : MemNode) (source dest : String)
    (opts : CpOptions) : MemNode × Option String :=
  match filesCpTarget source dest with
  | .error e => (root, some e)
  | .ok (src, dst) =>
    match getNodeFromPath resolve root src with
    | .error e => (root, some ("cp: cannot get node from path " ++ src ++ ": " ++ e))
    | .ok (.invalid none) => (root, some invalidUnixFS)
    | .ok (.invalid (some detail)) => (root, some (invalidUnixFS ++ ": " ++ detail))
    | .ok (.unixfs node) =>
      match if opts.parents then ensureContainingDirectoryExists root dst else .ok root with
      | .error e => (root, some e.message)
      | .ok root =>
        match if opts.force then unlinkNodeIfExists root dst else .ok root with
        | .error e => (root, some ("cp: cannot unlink existing file: " ++ e))
        | .ok root =>
          match putNode root dst node with
          | .error e => (root, some ("cp: cannot put node in path " ++ dst ++ ": " ++ e))
          | .ok root => (root, none)

/-! ### The directory of a path -/

theorem cleanStep_empty (rooted : Bool) (stack : List String) : cleanStep rooted stack "" = stack :=
  if_pos (.inl rfl)

/-- `Clean` keeps every valid element. -/
theorem foldl_cleanStep_valid :
    ∀ {elems : List String} (stack : List String), (∀ e ∈ elems, ValidElem e) →
      elems.foldl (cleanStep true) stack = stack ++ elems
  | [], stack, _ => (List.append_nil stack).symm
  | e :: elems, stack, h => by
    obtain ⟨hne, -, hdot, hdotdot⟩ := h e (List.mem_cons_self _ _)
    have he : e ≠ "" := fun he => hne (by rw [he]; rfl)
    rw [List.foldl_cons, cleanStep, if_neg (not_or.2 ⟨he, hdot⟩), if_neg hdotdot,
      foldl_cleanStep_valid _ fun x hx => h x (List.mem_cons_of_mem _ hx), List.append_assoc,
      List.singleton_append]

/-- `path.Dir` of a rooted path of valid elements followed by `/`: the rooted path. -/
theorem clean_rootedPath_slash {init : List String} (hinit : ∀ e ∈ init, ValidElem e) :
    clean (String.mk ((init.map fun e => '/' :: e.toList).flatten ++ ['/'])) = rootedPath init := by
  have hstack : ∀ e ∈ init ++ [""], '/' ∉ e.toList := by
    intro e he
    rcases List.mem_append.1 he with he | he
    · exact (hinit e he).2.1
    · rw [List.mem_singleton.1 he]
      exact List.not_mem_nil _
  have hpath : String.mk ((init.map fun e => '/' :: e.toList).flatten ++ ['/']) =
      rootedPath (init ++ [""]) :=
    String.ext (by
      rw [show (rootedPath (init ++ [""])).data = (rootedPath (init ++ [""])).toList from rfl,
        toList_rootedPath (by simp)]
      simp)
  have hhead : (rootedPath (init ++ [""])).toList.head? = some '/' := by
    rw [toList_rootedPath (by simp)]
    cases init <;> simp
  rw [hpath, clean_of_rooted hhead, cleanStack, elements_rootedPath (by simp) hstack,
    List.foldl_cons, cleanStep_empty, List.foldl_append, foldl_cleanStep_valid [] hinit,
    List.nil_append, List.foldl_cons, cleanStep_empty, List.foldl_nil]

/-- For a checked path with a name, `path.Dir` is the rooted path of the path's parts without
the name, which are valid. -/
theorem dir_checkPath {arg path : String} (h : checkPath arg = .ok path)
    (hname : (split path).2 ≠ "") :
    (∀ e ∈ (lookupParts path).dropLast, ValidElem e) ∧
      dir path = rootedPath (lookupParts path).dropLast := by
  obtain ⟨hr, rfl⟩ := checkPath_eq_ok.1 h
  split_ifs at hname ⊢
  · exact absurd (split_append_slash _) hname
  · rw [clean_of_rooted hr] at hname ⊢
    rcases List.eq_nil_or_concat (cleanStack arg) with hs | ⟨init, last, hs⟩
    · rw [hs] at hname
      exact absurd rfl hname
    · rw [List.concat_eq_append] at hs
      have hvalid := validElem_cleanStack arg
      rw [hs] at hvalid ⊢
      have hinit : ∀ e ∈ init, ValidElem e := fun e he => hvalid e (List.mem_append_left _ he)
      rw [dir, split_rootedPath_concat hvalid, lookupParts_rootedPath hvalid, List.dropLast_concat,
        clean_rootedPath_slash hinit]
      exact ⟨hinit, rfl⟩

/-- For a checked path with a name, `mfs.Mkdir` of `path.Dir` walks the path's parts without the
name. -/
theorem mkdirParts_dir {arg path : String} (h : checkPath arg = .ok path)
    (hname : (split path).2 ≠ "") : mkdirParts (dir path) = (lookupParts path).dropLast := by
  obtain ⟨hvalid, hdir⟩ := dir_checkPath h hname
  rw [hdir, mkdirParts_rootedPath hvalid]

/-- `Clean` keeps a rooted path of valid elements. -/
theorem clean_rootedPath {stack : List String} (hs : ∀ e ∈ stack, ValidElem e) :
    clean (rootedPath stack) = rootedPath stack := by
  rcases stack with _ | ⟨e, rest⟩
  · rfl
  · have hhead : (rootedPath (e :: rest)).toList.head? = some '/' := by
      rw [toList_rootedPath (List.cons_ne_nil _ _)]
      rfl
    rw [clean_of_rooted hhead, cleanStack,
      elements_rootedPath (List.cons_ne_nil _ _) fun x hx => (hs x hx).2.1, List.foldl_cons,
      cleanStep_empty, foldl_cleanStep_valid [] hs, List.nil_append]

/-- `mfs.Mkdir` of the `Clean` of a checked path walks the parts of the path. -/
theorem mkdirParts_clean_checkPath {p c : String} (h : checkPath p = .ok c) :
    mkdirParts (clean c) = lookupParts c := by
  obtain ⟨hr, rfl⟩ := checkPath_eq_ok.1 h
  have hvalid := validElem_cleanStack p
  rw [clean_of_rooted hr]
  split_ifs
  · rcases hs : cleanStack p with _ | ⟨e, rest⟩
    · rfl
    · rw [hs] at hvalid
      have hslash : rootedPath (e :: rest) ++ "/" =
          String.mk (((e :: rest).map fun e => '/' :: e.toList).flatten ++ ['/']) :=
        String.ext (by
          rw [String.data_append, show (rootedPath (e :: rest)).data =
            (rootedPath (e :: rest)).toList from rfl, toList_rootedPath (List.cons_ne_nil _ _)])
      rw [hslash, clean_rootedPath_slash hvalid, ← hslash, mkdirParts_rootedPath hvalid, lookupParts,
        trimSlash_append_slash, ← lookupParts, lookupParts_rootedPath hvalid]
  · rw [clean_rootedPath hvalid, mkdirParts_rootedPath hvalid, lookupParts_rootedPath hvalid]

/-- `mfs.Mkdir` of `path.Dir` of the destination `files cp` computes walks the parts of its
`Split`. -/
theorem mkdirParts_dir_filesCpTarget {source dest src dst : String}
    (h : filesCpTarget source dest = .ok (src, dst)) :
    mkdirParts (dir dst) = lookupParts (split dst).1 := by
  have hname := split_snd_filesCpTarget h
  cases hs : checkPath source with
  | error => simp [filesCpTarget, hs, bind, Except.bind] at h
  | ok checked =>
    cases hd : checkPath dest with
    | error => simp [filesCpTarget, hs, hd, bind, Except.bind] at h
    | ok c =>
      simp only [filesCpTarget, hs, hd, bind, Except.bind, pure, Except.pure, Except.ok.injEq,
        Prod.mk.injEq] at h
      obtain ⟨rfl, rfl⟩ := h
      split_ifs at hname ⊢ with hslash
      · -- the checked directory, then the source's base name
        obtain ⟨-, hbs⟩ := base_ne_empty (getLast?_trimRightSlash checked)
        rw [dir, split_append hslash hbs]
        exact mkdirParts_clean_checkPath hd
      · rw [mkdirParts_dir hd hname, ← lookupParts_split_checkPath hd hname, List.dropLast_concat]

/-- `ensureContainingDirectoryExists` is `mfs.Mkdir` under `-p` of `path.Dir`, which changes
nothing for `/`. -/
theorem ensureContainingDirectoryExists_eq (root : MemNode) (path : String) :
    ensureContainingDirectoryExists root path = mkdir root (dir path) true := by
  unfold ensureContainingDirectoryExists
  split_ifs with h
  · rw [h]
    rfl
  · rfl

/-! ### `--parents` on `files write` and `files cp` -/

/-- With `--parents`, once the path, the CID options and the offset pass, `files write` is
`filesWrite` on the tree `ensureContainingDirectoryExists` leaves. -/
theorem filesWriteWith_parents {names : String → Option Nat} {root root1 : MemNode}
    {arg path : String} {opts : WriteOptions} {data : List UInt8} {pfx : Option Prefix}
    (hpath : checkPath arg = .ok path) (hpfx : getPrefixNew names opts.cidVersion opts.hash = .ok pfx)
    (hoff : 0 ≤ opts.offset) (hens : ensureContainingDirectoryExists root path = .ok root1) :
    filesWriteWith names root arg opts true data = filesWrite names root1 arg opts data := by
  simp only [filesWriteWith, hpath, hpfx, hoff, hens, true_and, if_true]

/-- What `files write` with `--parents` can do: fail before it changes anything, or run
`filesWrite` on the tree it was given or on the tree `ensureContainingDirectoryExists` left. -/
theorem filesWriteWith_cases {names : String → Option Nat} {root root' : MemNode} {arg : String}
    {opts : WriteOptions} {parents : Bool} {data : List UInt8} {err : Option String}
    (h : filesWriteWith names root arg opts parents data = (root', err)) :
    (root' = root ∧ err.isSome) ∨ filesWrite names root arg opts data = (root', err) ∨
      ∃ path root1, ensureContainingDirectoryExists root path = .ok root1 ∧
        filesWrite names root1 arg opts data = (root', err) := by
  unfold filesWriteWith at h
  split at h
  · cases h
    exact .inl ⟨rfl, rfl⟩
  · rename_i path _
    split at h
    · cases h
      exact .inl ⟨rfl, rfl⟩
    · split_ifs at h
      · split at h
        · cases h
          exact .inl ⟨rfl, rfl⟩
        · rename_i root1 hens
          exact .inr (.inr ⟨path, root1, hens, h⟩)
      · exact .inr (.inl h)

/-- What `files cp` with its options can do: fail before it changes anything, or resolve a UnixFS
node on the tree it was given and make the destination's directory under `--parents`, and then
fail to unlink under `--force` (keeping those directories), or fail to attach, or attach. -/
theorem filesCpWith_cases {resolve : String → Except String Source} {root root' : MemNode}
    {source dest : String} {opts : CpOptions} {err : Option String}
    (h : filesCpWith resolve root source dest opts = (root', err)) :
    (root' = root ∧ err.isSome) ∨
    ∃ src dst node root0, filesCpTarget source dest = .ok (src, dst) ∧
      getNodeFromPath resolve root src = .ok (.unixfs node) ∧
      ((opts.parents = false ∧ root0 = root) ∨
        (opts.parents = true ∧ ensureContainingDirectoryExists root dst = .ok root0)) ∧
      ((opts.force = true ∧ (∃ e, unlinkNodeIfExists root0 dst = .error e) ∧ root' = root0 ∧
          err.isSome) ∨
        ∃ root1, ((opts.force = false ∧ root1 = root0) ∨
          (opts.force = true ∧ unlinkNodeIfExists root0 dst = .ok root1)) ∧
        (((∃ e, putNode root1 dst node = .error e) ∧ root' = root1 ∧ err.isSome) ∨
          (putNode root1 dst node = .ok root' ∧ err = none))) := by
  unfold filesCpWith at h
  split at h
  · cases h
    exact .inl ⟨rfl, rfl⟩
  rename_i src dst htarget
  split at h
  · cases h
    exact .inl ⟨rfl, rfl⟩
  · cases h
    exact .inl ⟨rfl, rfl⟩
  · cases h
    exact .inl ⟨rfl, rfl⟩
  rename_i node hnode
  split at h
  · cases h
    exact .inl ⟨rfl, rfl⟩
  rename_i root0 hens
  refine .inr ⟨src, dst, node, root0, htarget, hnode, ?_, ?_⟩
  · cases hp : opts.parents <;> simp only [hp, if_true, if_false, Bool.false_eq_true] at hens
    · exact .inl ⟨rfl, (Except.ok.inj hens).symm⟩
    · exact .inr ⟨rfl, hens⟩
  split at h
  · rename_i e hunlink
    cases h
    cases hf : opts.force <;> simp only [hf, if_true, if_false, Bool.false_eq_true] at hunlink
    · cases hunlink
    · exact .inl ⟨rfl, ⟨e, hunlink⟩, rfl, rfl⟩
  rename_i root1 hunlink
  refine .inr ⟨root1, ?_, ?_⟩
  · cases hf : opts.force <;> simp only [hf, if_true, if_false, Bool.false_eq_true] at hunlink
    · exact .inl ⟨rfl, (Except.ok.inj hunlink).symm⟩
    · exact .inr ⟨rfl, hunlink⟩
  split at h
  · rename_i e hput
    cases h
    exact .inl ⟨⟨e, hput⟩, rfl, rfl⟩
  · rename_i hput
    cases h
    exact .inr ⟨hput, rfl⟩

/-- Without `--parents`, `files cp` is `filesCp`. -/
theorem filesCpWith_plain (resolve : String → Except String Source) (root : MemNode)
    (source dest : String) (force : Bool) :
    filesCpWith resolve root source dest ⟨force, false⟩ = filesCp resolve root source dest force := by
  unfold filesCpWith filesCp
  -- the two bodies are the same matches over the same steps, whatever the steps give
  generalize filesCpTarget source dest = target
  generalize getNodeFromPath resolve root = get
  generalize unlinkNodeIfExists = unlink
  generalize putNode = put
  rfl

theorem ensureContainingDirectoryExists_invariants {root root1 : MemNode} {path : String}
    (hdir : root.IsDirectory) (hunique : root.UniqueNames)
    (h : ensureContainingDirectoryExists root path = .ok root1) :
    root1.IsDirectory ∧ root1.UniqueNames := by
  rw [ensureContainingDirectoryExists_eq] at h
  exact mkdir_invariants hdir hunique h

theorem filesWriteWith_invariants (names : String → Option Nat) (root : MemNode) (arg : String)
    (opts : WriteOptions) (parents : Bool) (data : List UInt8) (hdir : root.IsDirectory)
    (hunique : root.UniqueNames) :
    (filesWriteWith names root arg opts parents data).1.IsDirectory ∧
      (filesWriteWith names root arg opts parents data).1.UniqueNames := by
  rcases hw : filesWriteWith names root arg opts parents data with ⟨root', err⟩
  rcases filesWriteWith_cases hw with ⟨rfl, -⟩ | hw | ⟨path, root1, hens, hw⟩
  · exact ⟨hdir, hunique⟩
  · simpa [hw] using filesWrite_invariants names root arg opts data hdir hunique
  · have h1 := ensureContainingDirectoryExists_invariants hdir hunique hens
    simpa [hw] using filesWrite_invariants names root1 arg opts data h1.1 h1.2

theorem filesCpWith_invariants (R : Resolver) (root : MemNode) (source dest : String)
    (opts : CpOptions) (hdir : root.IsDirectory) (hunique : root.UniqueNames) :
    (filesCpWith R.resolve root source dest opts).1.IsDirectory ∧
      (filesCpWith R.resolve root source dest opts).1.UniqueNames := by
  rcases hc : filesCpWith R.resolve root source dest opts with ⟨root', err⟩
  rcases filesCpWith_cases hc with ⟨rfl, -⟩ | ⟨src, dst, node, root0, -, hnode, hens, hrest⟩
  · exact ⟨hdir, hunique⟩
  have h0 : root0.IsDirectory ∧ root0.UniqueNames := by
    rcases hens with ⟨-, rfl⟩ | ⟨-, hens⟩
    exacts [⟨hdir, hunique⟩, ensureContainingDirectoryExists_invariants hdir hunique hens]
  rcases hrest with ⟨-, -, rfl, -⟩ | ⟨root1, hunlink, hput⟩
  · exact h0
  have h1 : root1.IsDirectory ∧ root1.UniqueNames := by
    rcases hunlink with ⟨-, rfl⟩ | ⟨-, hu⟩
    exacts [h0, filesCp_unlink_invariants h0.1 h0.2 hu]
  rcases hput with ⟨-, rfl, -⟩ | ⟨hp, -⟩
  · exact h1
  · exact putNode_invariants h1.1 h1.2 (getNodeFromPath_uniqueNames R hunique hnode) hp

theorem filesMkdir_invariants (names : String → Option Nat) (root : MemNode) (arg : String)
    (dashp : Bool) (cidVersion : Option Int) (hash : Option String) (hdir : root.IsDirectory)
    (hunique : root.UniqueNames) :
    (filesMkdir names root arg dashp cidVersion hash).1.IsDirectory ∧
      (filesMkdir names root arg dashp cidVersion hash).1.UniqueNames := by
  rcases hm : filesMkdir names root arg dashp cidVersion hash with ⟨root', err⟩
  rcases filesMkdir_cases hm with ⟨rfl, -⟩ | ⟨path, -, -, -, hmk, -⟩
  · exact ⟨hdir, hunique⟩
  · exact mkdir_invariants hdir hunique hmk

/-- `files write --parents --create` of a checked path with a name succeeds wherever no path
above it names a file and it is not a directory itself, given valid CID options, offset and
count: the directories above it that were missing are made, and the path holds its old bytes
(none for a new file or under `--truncate`) with the data, cut to `--count`, written at the
offset over them. -/
theorem filesWriteWith_parents_create {names : String → Option Nat} {root : MemNode}
    {arg path : String} {opts : WriteOptions} {data : List UInt8} {pfx : Option Prefix}
    (hpath : checkPath arg = .ok path) (hname : (split path).2 ≠ "")
    (hpfx : getPrefixNew names opts.cidVersion opts.hash = .ok pfx) (hoff : 0 ≤ opts.offset)
    (hcount : ∀ count ∈ opts.count, 0 ≤ count) (hcreate : opts.create = true)
    (hfile : ∀ q, q <+: (lookupParts path).dropLast → ∀ content, view root q ≠ some (.file content))
    (hnotdir : view root (lookupParts path) ≠ some .directory) :
    ∃ root', filesWriteWith names root arg opts true data = (root', none) ∧
      view root' = setFile (mkdirView (view root) (lookupParts path).dropLast) (lookupParts path)
        (writeAt (if opts.truncate then [] else contentAt (view root) (lookupParts path))
          opts.offset.toNat (limitReader opts.count data)) := by
  have hroot : root.IsDirectory := by
    cases root with
    | file content => exact absurd rfl (hfile [] List.nil_prefix content)
    | directory => trivial
  have hdirparts := mkdirParts_dir hpath hname
  have hdirne : dir path ≠ "" := (dir_checkPath hpath hname).2 ▸ rootedPath_ne_empty _
  obtain ⟨root1, hmk⟩ := (mkdir_ok_iff hroot hdirne true).2 (by rw [hdirparts]; exact hfile)
  have hens : ensureContainingDirectoryExists root path = .ok root1 := by
    rw [ensureContainingDirectoryExists_eq, hmk]
  have hview1 : view root1 = mkdirView (view root) (lookupParts path).dropLast := by
    rw [view_mkdir hmk, hdirparts]
  -- the path is not made: it is longer than the parts of its directory
  have hsame : view root1 (lookupParts path) = view root (lookupParts path) := by
    have hne : lookupParts path ≠ [] := by
      rw [← lookupParts_split_checkPath hpath hname]
      simp
    rw [hview1]
    refine mkdirView_of_not_prefix fun h => ?_
    have := h.length_le
    rw [List.length_dropLast] at this
    have := List.length_pos.2 hne
    omega
  -- the directory of the path is one afterwards: it was, or it is made
  have hparent : view root1 (lookupParts path).dropLast = some .directory := by
    rw [hview1]
    exact mkdirView_self (hfile _ (List.prefix_refl _))
  obtain ⟨root2, hh⟩ := getFileHandle_create hpath hname hparent (hsame ▸ hnotdir)
  have hcontent : contentAt (view root1) (lookupParts path) =
      contentAt (view root) (lookupParts path) := by
    rw [contentAt, contentAt, hsame]
  refine ⟨_, by rw [filesWriteWith_parents hpath hpfx hoff hens,
    filesWrite_eq_of_getFileHandle hpath hpfx hoff hcount (hcreate ▸ hh)], ?_⟩
  rw [view_writeAt (getFileHandle_view hpath hh).2, hcontent, hview1]

/-- The spec's scenario: `files write --parents --create /a/b/f` of `hi` into an empty MFS
makes `/a` and `/a/b` and writes the file. -/
theorem write_parents_into_empty :
    filesWriteWith (fun _ => none) (.directory []) "/a/b/f" ⟨0, true, false, none, none, none⟩
        true [104, 105] =
      (.directory [("a", .directory [("b", .directory [("f", .file [104, 105])])])], none) ∧
    ∃ root', filesWriteWith (fun _ => none) (.directory []) "/a/b/f"
        ⟨0, true, false, none, none, none⟩ true [104, 105] = (root', none) ∧
      view root' = setFile (mkdirView (view (.directory [])) (lookupParts "/a/b/f").dropLast)
        (lookupParts "/a/b/f")
        (writeAt (if false then [] else contentAt (view (.directory [])) (lookupParts "/a/b/f"))
          (0 : Int).toNat (limitReader none [104, 105])) :=
  ⟨by rfl, @filesWriteWith_parents_create (fun _ => none) (.directory []) "/a/b/f" "/a/b/f"
    ⟨0, true, false, none, none, none⟩ [104, 105] none (by rfl) (by decide) (by rfl) (by decide)
    (by simp) rfl
    (fun q _ content => by cases q <;> simp [view_directory_cons, MemNode.entry]) (by decide)⟩

/-! ### `files cp` with its options -/

/-- Where the destination's directory named nothing, `--parents` leaves it an empty directory. -/
theorem ensureContainingDirectoryExists_missing {root root0 : MemNode} {dst : String}
    {d : List String} (hens : ensureContainingDirectoryExists root dst = .ok root0)
    (hd : mkdirParts (dir dst) = d) (hnone : view root d = none) (name : String) :
    ∃ entries, nodeAt d root0 = some (.directory entries) ∧ entries.lookup name = none := by
  rw [ensureContainingDirectoryExists_eq] at hens
  have hview := view_mkdir hens
  rw [hd] at hview
  have hdir : view root0 d = some .directory := by
    rw [hview]
    exact mkdirView_self (by simp [hnone])
  obtain ⟨n, hn, he⟩ := Option.map_eq_some'.1 hdir
  cases n with
  | file => cases he
  | directory entries =>
    refine ⟨entries, hn, ?_⟩
    -- the name under it names nothing, as it named nothing before
    have hchild : view root0 (d ++ [name]) = none := by
      rw [hview, mkdirView_of_not_prefix fun hp => by simpa using hp.length_le]
      exact view_append_of_none hnone _
    rw [view_append hn, view_directory_cons] at hchild
    cases hl : entries.lookup name with
    | none => rfl
    | some n => simp [hl] at hchild

/-- Where a path's directory has no entry of its name, the `--force` unlink does nothing. -/
theorem unlinkNodeIfExists_of_free {root : MemNode} {path : String}
    {entries : List (String × MemNode)}
    (hdir : nodeAt (lookupParts (split path).1) root = some (.directory entries))
    (hfree : entries.lookup (split path).2 = none) : unlinkNodeIfExists root path = .ok root := by
  unfold unlinkNodeIfExists lookup
  rw [show lookupAt [] (lookupParts (split path).1) root = .ok (.directory entries) from
    lookupAt_eq_ok_iff.2 hdir]
  simp only [child, hfree]

/-- After the `--force` unlink removed a file, its name is free in a directory that is there, so
the attach cannot fail. -/
theorem putNode_after_unlink {root root1 : MemNode} {path : String}
    (hu : unlinkNodeIfExists root path = .ok root1) (hname : (split path).2 ≠ "")
    (node : MemNode) : root1 = root ∨ ∃ root', putNode root1 path node = .ok root' := by
  rcases unlinkNodeIfExists_eq_ok hu with ⟨rfl, -⟩ | ⟨entries, -, hdir, -, hroot⟩
  · exact .inl rfl
  · rw [hroot]
    exact .inr ⟨_, putNode_eq_ok.2 ⟨hname, _, nodeAt_modifyAt _ hdir, lookup_filter_self _ _, rfl⟩⟩

/-- A failed `files cp` leaves MFS exactly as it was, with `--parents` and `--force` too:
`--parents` makes directories only where the destination's directory named nothing, and then
there is nothing to unlink and the attach cannot fail. -/
theorem filesCpWith_error_unchanged {resolve : String → Except String Source}
    {root root' : MemNode} {source dest : String} {opts : CpOptions} {e : String}
    (h : filesCpWith resolve root source dest opts = (root', some e)) : root' = root := by
  rcases filesCpWith_cases h with ⟨rfl, -⟩ | ⟨src, dst, node, root0, htarget, -, hens, hrest⟩
  · rfl
  have hname := split_snd_filesCpTarget htarget
  have h0 : root0 = root := by
    rcases hens with ⟨-, rfl⟩ | ⟨-, hens⟩
    · rfl
    have hmk := hens
    rw [ensureContainingDirectoryExists_eq] at hmk
    refine (mkdir_parents_eq_or_missing hmk).resolve_right fun hnone => ?_
    -- the destination's directory was missing: it is made empty, and the copy goes through
    rw [mkdirParts_dir_filesCpTarget htarget] at hnone
    obtain ⟨entries, hdir, hfree⟩ := ensureContainingDirectoryExists_missing hens
      (mkdirParts_dir_filesCpTarget htarget) hnone (split dst).2
    have hunlink := unlinkNodeIfExists_of_free hdir hfree
    have hput : putNode root0 dst node = .ok _ := putNode_eq_ok.2 ⟨hname, entries, hdir, hfree, rfl⟩
    rcases hrest with ⟨-, ⟨_, he⟩, -⟩ | ⟨root1, hstep, ⟨⟨_, he⟩, -⟩ | ⟨-, hnone⟩⟩
    · rw [hunlink] at he
      cases he
    · rcases hstep with ⟨-, rfl⟩ | ⟨-, hu⟩
      · rw [hput] at he
        cases he
      · rw [hunlink] at hu
        cases hu
        rw [hput] at he
        cases he
    · cases hnone
  subst h0
  rcases hrest with ⟨-, -, rfl, -⟩ | ⟨root1, hstep, ⟨⟨_, he⟩, rfl, -⟩ | ⟨-, hnone⟩⟩
  · rfl
  · rcases hstep with ⟨-, rfl⟩ | ⟨-, hu⟩
    · rfl
    · rcases putNode_after_unlink hu hname node with rfl | ⟨_, hput⟩
      · rfl
      · rw [hput] at he
        cases he
  · cases hnone

/-- `files cp --parents --force /a /d/a` where `/d/a` is a directory: refused, and MFS stays as
it was. -/
theorem parents_copy_onto_directory :
    filesCpWith (fun _ => .error "offline")
        (.directory [("a", .file [1]), ("d", .directory [("a", .directory [])])]) "/a" "/d/a"
        ⟨true, true⟩ =
      (.directory [("a", .file [1]), ("d", .directory [("a", .directory [])])],
        some "cp: cannot unlink existing file: not a file: /d/a") ∧
    MemNode.directory [("a", .file [1]), ("d", .directory [("a", .directory [])])] =
      .directory [("a", .file [1]), ("d", .directory [("a", .directory [])])] :=
  ⟨by rfl, @filesCpWith_error_unchanged (fun _ => .error "offline") _ _ "/a" "/d/a" ⟨true, true⟩ _
    (by rfl)⟩

theorem grafted_congr {v u v' w : List String → Option Entry} {place : List String}
    (h : Grafted v v' place w) (hvu : ∀ q, (∀ r, q ≠ place ++ r) → v q = u q) :
    Grafted u v' place w :=
  ⟨h.1, fun q hq => (h.2 q hq).trans (hvu q hq)⟩

/-- A successful `files cp` grafts at the destination the node the source named before anything
changed, a node of MFS for a source outside `/ipfs/`; under `--parents` onto the map with the
destination's missing directories made, and every other path names what it named. -/
theorem view_filesCpWith {resolve : String → Except String Source} {root root' : MemNode}
    {source dest : String} {opts : CpOptions}
    (h : filesCpWith resolve root source dest opts = (root', none)) :
    ∃ src dst node, filesCpTarget source dest = .ok (src, dst) ∧
      getNodeFromPath resolve root src = .ok (.unixfs node) ∧
      (src.startsWith "/ipfs/" = false → nodeAt (lookupParts src) root = some node) ∧
      Grafted (if opts.parents then mkdirView (view root) (lookupParts (split dst).1)
          else view root)
        (view root') (lookupParts (split dst).1 ++ [(split dst).2]) (view node) := by
  rcases filesCpWith_cases h with ⟨-, hsome⟩ | ⟨src, dst, node, root0, htarget, hnode, hens, hrest⟩
  · cases hsome
  rcases hrest with ⟨-, -, -, hsome⟩ | ⟨root1, hstep, ⟨-, -, hsome⟩ | ⟨hput, -⟩⟩
  · cases hsome
  · cases hsome
  refine ⟨src, dst, node, htarget, hnode, fun hp => nodeAt_getNodeFromPath hp hnode, ?_⟩
  -- the map before the attach: the tree `--parents` left, less a file the unlink removed there
  have hview0 : view root0 = if opts.parents then mkdirView (view root) (lookupParts (split dst).1)
      else view root := by
    rcases hens with ⟨hp, rfl⟩ | ⟨hp, hens⟩
    · rw [hp, if_neg Bool.false_ne_true]
    · rw [ensureContainingDirectoryExists_eq] at hens
      rw [hp, if_pos rfl, view_mkdir hens, mkdirParts_dir_filesCpTarget htarget]
  rw [← hview0]
  refine grafted_congr (view_putNode hput).2 fun q hq => ?_
  rcases hstep with ⟨-, rfl⟩ | ⟨-, hu⟩
  · rfl
  · exact view_unlinkNodeIfExists hu hq

/-- `files cp --parents /a /a/b/c`: the node attached is `/a` as it was before `/a/b` was made. -/
theorem parents_copy_into_itself :
    filesCpWith (fun _ => .error "offline") (.directory [("a", .directory [("f", .file [1])])])
        "/a" "/a/b/c" ⟨false, true⟩ =
      (.directory [("a", .directory [("f", .file [1]),
        ("b", .directory [("c", .directory [("f", .file [1])])])])], none) ∧
    ∃ src dst node, filesCpTarget "/a" "/a/b/c" = .ok (src, dst) ∧
      getNodeFromPath (fun _ => .error "offline")
        (.directory [("a", .directory [("f", .file [1])])]) src = .ok (.unixfs node) ∧
      (src.startsWith "/ipfs/" = false →
        nodeAt (lookupParts src) (.directory [("a", .directory [("f", .file [1])])]) = some node) ∧
      Grafted (if true then mkdirView (view (.directory [("a", .directory [("f", .file [1])])]))
            (lookupParts (split dst).1)
          else view (.directory [("a", .directory [("f", .file [1])])]))
        (view (.directory [("a", .directory [("f", .file [1]),
          ("b", .directory [("c", .directory [("f", .file [1])])])])]))
        (lookupParts (split dst).1 ++ [(split dst).2]) (view node) :=
  ⟨by rfl, @view_filesCpWith (fun _ => .error "offline")
    (.directory [("a", .directory [("f", .file [1])])]) _ "/a" "/a/b/c" ⟨false, true⟩ (by rfl)⟩

/-! ### Runs of the commands that change MFS -/

/-- A command of `ipfs files` that changes MFS. -/
inductive FilesCommand where
  /-- `files write arg`, with `--parents` given as `parents`. -/
  | write (arg : String) (opts : WriteOptions) (parents : Bool) (data : List UInt8)
  /-- `files cp source dest`. -/
  | cp (source dest : String) (opts : CpOptions)
  /-- `files mkdir arg`, with `-p` given as `dashp`. -/
  | mkdir (arg : String) (dashp : Bool) (cidVersion : Option Int) (hash : Option String)
  /-- `files rm args`, with `--force` and `-r` given as `force` and `dashr`, answering on the
  response stream `emit`. -/
  | rm (args : List String) (force dashr : Bool) (emit : List String → String → Option String)

/-- One command on the tree: the tree after it and its error. -/
def filesStep (names : String → Option Nat) (resolve : String → Except String Source)
    (root : MemNode) : FilesCommand → MemNode × Option String
  | .write arg opts parents data => filesWriteWith names root arg opts parents data
  | .cp source dest opts => filesCpWith resolve root source dest opts
  | .mkdir arg dashp cidVersion hash => filesMkdir names root arg dashp cidVersion hash
  | .rm args force dashr emit =>
    ((FilesRm.filesRmCmd emit root args force dashr).root,
      (FilesRm.filesRmCmd emit root args force dashr).error)

/-- Commands one after another, each on the tree the one before left: the last tree and the
error of each command. -/
def filesRun (names : String → Option Nat) (resolve : String → Except String Source) :
    MemNode → List FilesCommand → MemNode × List (Option String)
  | root, [] => (root, [])
  | root, cmd :: cmds =>
    let r := filesStep names resolve root cmd
    let rest := filesRun names resolve r.1 cmds
    (rest.1, r.2 :: rest.2)

theorem filesStep_invariants (names : String → Option Nat) (R : Resolver) {root : MemNode}
    (hdir : root.IsDirectory) (hunique : root.UniqueNames) :
    ∀ cmd, (filesStep names R.resolve root cmd).1.IsDirectory ∧
      (filesStep names R.resolve root cmd).1.UniqueNames
  | .write arg opts parents data =>
    filesWriteWith_invariants names root arg opts parents data hdir hunique
  | .cp source dest opts => filesCpWith_invariants R root source dest opts hdir hunique
  | .mkdir arg dashp cidVersion hash =>
    filesMkdir_invariants names root arg dashp cidVersion hash hdir hunique
  | .rm args force dashr emit => filesRmCmd_invariants emit args force dashr hdir hunique

/-- Over every run of `files write`, `files cp`, `files mkdir` and `files rm`, with all the
options the model reads, `--parents`, `-p`, `--force` and `-r` among them, MFS keeps its root a
directory and the names of every directory unique, whichever commands fail, given a DAG whose
directories have unique names. -/
theorem filesRun_invariants (names : String → Option Nat) (R : Resolver) :
    ∀ (s : Mfs) (cmds : List FilesCommand),
      (filesRun names R.resolve s.root cmds).1.IsDirectory ∧
        (filesRun names R.resolve s.root cmds).1.UniqueNames := by
  suffices h : ∀ (cmds : List FilesCommand) {root : MemNode}, root.IsDirectory →
      root.UniqueNames → (filesRun names R.resolve root cmds).1.IsDirectory ∧
        (filesRun names R.resolve root cmds).1.UniqueNames from
    fun s cmds => h cmds s.isDirectory s.unique
  intro cmds
  induction cmds with
  | nil => exact fun hdir hunique => ⟨hdir, hunique⟩
  | cons cmd cmds ih =>
    intro root hdir hunique
    have h := filesStep_invariants names R hdir hunique cmd
    exact ih h.1 h.2

/-- From the empty MFS: make `/a`, write the file `/a/f`, copy `/a` to `/b` and remove `/a`. -/
theorem mkdir_write_copy_remove :
    filesRun (fun _ => none) offline.resolve Mfs.empty.root
        [.mkdir "/a" false none none, .write "/a/f" ⟨0, true, false, none, none, none⟩ false [1],
          .cp "/a" "/b" ⟨false, false⟩, .rm ["/a"] false true fun _ _ => none] =
      (.directory [("b", .directory [("f", .file [1])])], [none, none, none, none]) ∧
    (filesRun (fun _ => none) offline.resolve Mfs.empty.root
        [.mkdir "/a" false none none, .write "/a/f" ⟨0, true, false, none, none, none⟩ false [1],
          .cp "/a" "/b" ⟨false, false⟩, .rm ["/a"] false true fun _ _ => none]).1.IsDirectory ∧
    (filesRun (fun _ => none) offline.resolve Mfs.empty.root
        [.mkdir "/a" false none none, .write "/a/f" ⟨0, true, false, none, none, none⟩ false [1],
          .cp "/a" "/b" ⟨false, false⟩, .rm ["/a"] false true fun _ _ => none]).1.UniqueNames :=
  ⟨by rfl, filesRun_invariants (fun _ => none) offline Mfs.empty _⟩

end BockIpfs.MfsParents
