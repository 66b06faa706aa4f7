import BockIpfs.FilesIo
import BockIpfs.FilesCp
import BockIpfs.FilesRm
import Mathlib.Data.List.Nodup

/-!
# The invariants of MFS, command by command

Each command that changes MFS keeps two invariants of the tree: the root is a directory, and no
directory has two entries of one name (§3, invariant 3). A new entry is added only by
`AddChild`, which refuses a name that is taken, an entry is removed by `Unlink` with every entry
of its name, and a change in place keeps the names of the directory it is made in. What
`files cp` attaches comes from MFS itself, where the invariant holds, or from an `/ipfs/` path:
there the invariant is an assumption on the DAG, since a dag-pb node may list two links of one
name, and it is carried by `Resolver`. The runs of the commands, one after another, are in
`MfsParents`, which adds `files mkdir` and the option `--parents`.

With unique names, every node the tree holds is the node its path names: first-match lookup
shadows no entry. `Mfs` is the tree with its invariants.
-/

namespace BockIpfs.MfsTree

/-! ### The invariants -/

/-- Whether a node is a directory. -/
def MemNode.IsDirectory : MemNode → Prop
  | .file _ => False
  | .directory _ => True

mutual
/-- No directory of the tree has two entries of one name. -/
def MemNode.UniqueNames : MemNode → Prop
  | .file _ => True
  | .directory entries => (entries.map Prod.fst).Nodup ∧ EntriesUnique entries
/-- `UniqueNames` for the node of every entry. -/
def EntriesUnique : List (String × MemNode) → Prop
  | [] => True
  | (_, node) :: rest => node.UniqueNames ∧ EntriesUnique rest
end

theorem entriesUnique_iff : ∀ {entries : List (String × MemNode)},
    EntriesUnique entries ↔ ∀ e ∈ entries, e.2.UniqueNames
  | [] => by simp [EntriesUnique]
  | (_, _) :: _ => by simp [EntriesUnique, entriesUnique_iff]

theorem uniqueNames_directory {entries : List (String × MemNode)} :
    (MemNode.directory entries).UniqueNames ↔
      (entries.map Prod.fst).Nodup ∧ ∀ e ∈ entries, e.2.UniqueNames := by
  rw [MemNode.UniqueNames, entriesUnique_iff]

end BockIpfs.MfsTree

namespace BockIpfs.MfsRun

open Paths FilesPath MfsTree FilesIo FilesCp

/-! ### Entries of a directory -/

theorem lookup_cons_of_ne {name k : String} {n : MemNode} {rest : List (String × MemNode)}
    (hk : name ≠ k) : ((k, n) :: rest).lookup name = rest.lookup name := by
  simp [List.lookup_cons, beq_false_of_ne hk]

theorem mem_of_lookup_eq_some {name : String} {node : MemNode} :
    ∀ {entries : List (String × MemNode)}, entries.lookup name = some node → (name, node) ∈ entries
  | [], h => by cases h
  | (k, n) :: rest, h => by
    by_cases hk : name = k
    · subst hk
      simp only [List.lookup_cons_self, Option.some.injEq] at h
      exact h ▸ List.mem_cons_self _ _
    · rw [lookup_cons_of_ne hk] at h
      exact List.mem_cons_of_mem _ (mem_of_lookup_eq_some h)

theorem not_mem_of_lookup_eq_none {name : String} :
    ∀ {entries : List (String × MemNode)}, entries.lookup name = none →
      name ∉ entries.map Prod.fst
  | [], _ => List.not_mem_nil _
  | (k, _) :: rest, h => by
    by_cases hk : name = k
    · subst hk
      simp at h
    · rw [lookup_cons_of_ne hk] at h
      simpa [hk] using not_mem_of_lookup_eq_none h

/-- In a directory of distinct names, an entry is what lookup finds under its name. -/
theorem lookup_eq_some_of_mem {name : String} {node : MemNode} :
    ∀ {entries : List (String × MemNode)}, (entries.map Prod.fst).Nodup →
      (name, node) ∈ entries → entries.lookup name = some node
  | [], _, h => absurd h (List.not_mem_nil _)
  | (k, n) :: rest, hnd, h => by
    rw [List.map_cons, List.nodup_cons] at hnd
    rcases List.mem_cons.1 h with he | he
    · cases he
      exact List.lookup_cons_self
    · have hk : name ≠ k := by
        rintro rfl
        exact hnd.1 (List.mem_map.2 ⟨_, he, rfl⟩)
      rw [lookup_cons_of_ne hk]
      exact lookup_eq_some_of_mem hnd.2 he

theorem map_fst_updateEntry (name : String) (f : MemNode → MemNode) :
    ∀ entries : List (String × MemNode),
      (updateEntry name f entries).map Prod.fst = entries.map Prod.fst
  | [] => rfl
  | (k, _) :: rest => by
    unfold updateEntry
    split_ifs <;> simp [map_fst_updateEntry name f rest]

/-- An entry after `updateEntry` was there before, or is the changed first entry of the name. -/
theorem mem_updateEntry {name : String} {f : MemNode → MemNode} {e : String × MemNode} :
    ∀ {entries : List (String × MemNode)}, e ∈ updateEntry name f entries →
      e ∈ entries ∨ ∃ node, entries.lookup name = some node ∧ e = (name, f node)
  | [], h => absurd h (List.not_mem_nil _)
  | (k, n) :: rest, h => by
    unfold updateEntry at h
    split_ifs at h with hk
    · subst hk
      rcases List.mem_cons.1 h with rfl | he
      · exact .inr ⟨n, List.lookup_cons_self, rfl⟩
      · exact .inl (List.mem_cons_of_mem _ he)
    · rcases List.mem_cons.1 h with rfl | he
      · exact .inl (List.mem_cons_self _ _)
      · rcases mem_updateEntry he with he | ⟨node, hnode, rfl⟩
        · exact .inl (List.mem_cons_of_mem _ he)
        · exact .inr ⟨node, by rwa [lookup_cons_of_ne (Ne.symm hk)], rfl⟩

/-! ### What keeps the invariants -/

/-- A change in place keeps the names unique when the change keeps them at the node it is made
at. -/
theorem uniqueNames_modifyAt {f : MemNode → MemNode} :
    ∀ {parts : List String} {root : MemNode}, root.UniqueNames →
      (∀ n, nodeAt parts root = some n → n.UniqueNames → (f n).UniqueNames) →
        (modifyAt f parts root).UniqueNames
  | [], root, h, hf => hf root rfl h
  | _ :: _, .file _, h, _ => h
  | part :: parts, .directory entries, h, hf => by
    rw [uniqueNames_directory] at h
    rw [modifyAt, uniqueNames_directory, map_fst_updateEntry]
    refine ⟨h.1, fun e he => ?_⟩
    rcases mem_updateEntry he with he | ⟨node, hnode, rfl⟩
    · exact h.2 e he
    · exact uniqueNames_modifyAt (h.2 _ (mem_of_lookup_eq_some hnode))
        fun n hn => hf n (by simp [nodeAt, hnode, hn])

theorem isDirectory_modifyAt {f : MemNode → MemNode}
    (hf : ∀ n : MemNode, n.IsDirectory → (f n).IsDirectory) :
    ∀ {parts : List String} {root : MemNode}, root.IsDirectory →
      (modifyAt f parts root).IsDirectory
  | [], _, h => hf _ h
  | _ :: _, .file _, h => h
  | _ :: _, .directory _, _ => trivial

theorem uniqueNames_mapContent (g : List UInt8 → List UInt8) :
    ∀ {n : MemNode}, n.UniqueNames → (n.mapContent g).UniqueNames
  | .file _, _ => trivial
  | .directory _, h => h

theorem isDirectory_mapContent (g : List UInt8 → List UInt8) :
    ∀ {n : MemNode}, n.IsDirectory → (n.mapContent g).IsDirectory
  | .directory _, h => h

/-- A node added under a free name keeps the names unique. -/
theorem uniqueNames_append {entries : List (String × MemNode)} {name : String} {node : MemNode}
    (h : (MemNode.directory entries).UniqueNames) (hfree : entries.lookup name = none)
    (hnode : node.UniqueNames) : (MemNode.directory (entries ++ [(name, node)])).UniqueNames := by
  rw [uniqueNames_directory] at h ⊢
  refine ⟨?_, fun e he => ?_⟩
  · rw [List.map_append, List.map_singleton, List.nodup_append]
    exact ⟨h.1, List.nodup_singleton _, List.disjoint_singleton.2 (not_mem_of_lookup_eq_none hfree)⟩
  · rcases List.mem_append.1 he with he | he
    · exact h.2 e he
    · rw [List.mem_singleton.1 he]
      exact hnode

theorem uniqueNames_filter {entries : List (String × MemNode)} (p : String × MemNode → Bool)
    (h : (MemNode.directory entries).UniqueNames) :
    (MemNode.directory (entries.filter p)).UniqueNames := by
  rw [uniqueNames_directory] at h ⊢
  exact ⟨h.1.sublist ((List.filter_sublist entries).map _),
    fun e he => h.2 e (List.mem_of_mem_filter he)⟩

/-- Every node of a tree with unique names has unique names. -/
theorem uniqueNames_nodeAt : ∀ {parts : List String} {root n : MemNode}, root.UniqueNames →
    nodeAt parts root = some n → n.UniqueNames
  | [], _, _, h, hn => by cases hn; exact h
  | _ :: _, .file _, _, _, hn => by cases hn
  | part :: _, .directory entries, _, h, hn => by
    obtain ⟨next, hnext, hrest⟩ := Option.bind_eq_some.1 hn
    exact uniqueNames_nodeAt ((uniqueNames_directory.1 h).2 _ (mem_of_lookup_eq_some hnext)) hrest

/-! ### One command -/

theorem uniqueNames_getFileHandle {root root' : MemNode} {path : String} {create : Bool}
    {place : List String} (h : root.UniqueNames)
    (hh : getFileHandle root path create = .ok (root', place)) : root'.UniqueNames := by
  rcases getFileHandle_eq_ok hh with ⟨-, -, rfl, -⟩ | ⟨-, entries, hdir, hfree, hroot, -⟩
  · exact h
  · -- naming the parent's parts keeps Lean from unfolding them when it checks the goal
    generalize lookupParts (split path).1 = parts at hdir hroot
    subst hroot
    exact uniqueNames_modifyAt h fun n hn hu => by
      rw [hdir] at hn
      cases hn
      exact uniqueNames_append hu hfree trivial

theorem isDirectory_getFileHandle {root root' : MemNode} {path : String} {create : Bool}
    {place : List String} (h : root.IsDirectory)
    (hh : getFileHandle root path create = .ok (root', place)) : root'.IsDirectory := by
  rcases getFileHandle_eq_ok hh with ⟨-, -, rfl, -⟩ | ⟨-, _, -, -, hroot, -⟩
  · exact h
  · generalize lookupParts (split path).1 = parts at hroot
    subst hroot
    exact isDirectory_modifyAt (fun _ _ => by trivial) h

/-- `files write` keeps both invariants: it adds a file only under a free name, and otherwise
changes the bytes of a file. -/
theorem filesWrite_invariants (names : String → Option Nat) (root : MemNode) (arg : String)
    (opts : WriteOptions) (data : List UInt8) (hdir : root.IsDirectory)
    (hunique : root.UniqueNames) :
    (filesWrite names root arg opts data).1.IsDirectory ∧
      (filesWrite names root arg opts data).1.UniqueNames := by
  rcases hw : filesWrite names root arg opts data with ⟨root', err⟩
  rcases filesWrite_cases hw with ⟨rfl, -⟩ | ⟨path, -, root1, place, -, -, -, hh, hrest⟩
  · exact ⟨hdir, hunique⟩
  · have hdir1 := isDirectory_getFileHandle hdir hh
    have hunique1 := uniqueNames_getFileHandle hunique hh
    -- the truncation and the write change bytes only
    have hdir2 : (if opts.truncate then modifyAt (MemNode.mapContent fun _ => []) place root1
        else root1).IsDirectory := by
      split_ifs
      exacts [isDirectory_modifyAt (fun _ => isDirectory_mapContent _) hdir1, hdir1]
    have hunique2 : (if opts.truncate then modifyAt (MemNode.mapContent fun _ => []) place root1
        else root1).UniqueNames := by
      split_ifs
      exacts [uniqueNames_modifyAt hunique1 fun _ _ => uniqueNames_mapContent _, hunique1]
    rcases hrest with ⟨-, -, rfl⟩ | ⟨-, -, rfl⟩
    · exact ⟨hdir2, hunique2⟩
    · exact ⟨isDirectory_modifyAt (fun _ => isDirectory_mapContent _) hdir2,
        uniqueNames_modifyAt hunique2 fun _ _ => uniqueNames_mapContent _⟩

theorem filesCp_unlink_invariants {root root1 : MemNode} {path : String}
    (hdir : root.IsDirectory) (hunique : root.UniqueNames)
    (hu : unlinkNodeIfExists root path = .ok root1) : root1.IsDirectory ∧ root1.UniqueNames := by
  rcases unlinkNodeIfExists_eq_ok hu with ⟨rfl, -⟩ | ⟨entries, -, hd, -, hroot⟩
  · exact ⟨hdir, hunique⟩
  · generalize lookupParts (split path).1 = parts at hd hroot
    subst hroot
    refine ⟨isDirectory_modifyAt (fun _ _ => by trivial) hdir, uniqueNames_modifyAt hunique ?_⟩
    intro n hn hu
    rw [hd] at hn
    cases hn
    exact uniqueNames_filter _ hu

theorem putNode_invariants {root root' : MemNode} {path : String} {node : MemNode}
    (hdir : root.IsDirectory) (hunique : root.UniqueNames) (hnode : node.UniqueNames)
    (hp : putNode root path node = .ok root') : root'.IsDirectory ∧ root'.UniqueNames := by
  obtain ⟨-, entries, hd, hfree, hroot⟩ := putNode_eq_ok.1 hp
  generalize lookupParts (split path).1 = parts at hd hroot
  subst hroot
  refine ⟨isDirectory_modifyAt (fun _ _ => by trivial) hdir, uniqueNames_modifyAt hunique ?_⟩
  intro n hn hu
  rw [hd] at hn
  cases hn
  exact uniqueNames_append hu hfree hnode

/-- `api.ResolveNode` for `/ipfs/` paths, with what `files cp` relies on of the DAG: no
directory it gives has two entries of one name. -/
structure Resolver where
  /-- What an `/ipfs/` path resolves to. -/
  resolve : String → Except String Source
  /-- The directories it gives have unique names. -/
  unique : ∀ p node, resolve p = .ok (.unixfs node) → node.UniqueNames

/-- A node without the network: no `/ipfs/` path resolves. -/
def offline : Resolver := ⟨fun _ => .error "offline", fun _ _ h => by cases h⟩

/-- The node `files cp` attaches has unique names: it is a node of MFS, or the DAG gives it. -/
theorem getNodeFromPath_uniqueNames (R : Resolver) {root node : MemNode} {p : String}
    (hunique : root.UniqueNames) (h : getNodeFromPath R.resolve root p = .ok (.unixfs node)) :
    node.UniqueNames := by
  cases hp : p.startsWith "/ipfs/"
  · exact uniqueNames_nodeAt hunique (nodeAt_getNodeFromPath hp h)
  · rw [getNodeFromPath, if_pos hp] at h
    exact R.unique p node h

/-- `removePath` keeps both invariants: it takes every entry of one name out of a directory, in
place. -/
theorem removeTrimmed_invariants {root root' : MemNode} {path : String} {force dashr : Bool}
    (hdir : root.IsDirectory) (hunique : root.UniqueNames)
    (h : FilesRm.removeTrimmed root path force dashr = .ok root') :
    root'.IsDirectory ∧ root'.UniqueNames := by
  rcases FilesRm.removeTrimmed_eq_ok h with ⟨hsame, -⟩ | ⟨entries, hd, -, hroot⟩
  · exact hsame ▸ ⟨hdir, hunique⟩
  · generalize lookupParts (split path).1 = parts at hd hroot
    subst hroot
    refine ⟨isDirectory_modifyAt (fun _ _ => by trivial) hdir, uniqueNames_modifyAt hunique ?_⟩
    intro n hn hu
    rw [hd] at hn
    cases hn
    exact uniqueNames_filter _ hu

theorem removePath_invariants {root root' : MemNode} {path : String} {force dashr : Bool}
    (hdir : root.IsDirectory) (hunique : root.UniqueNames)
    (h : FilesRm.removePath root path force dashr = .ok root') :
    root'.IsDirectory ∧ root'.UniqueNames := by
  by_cases hroot : path = "/"
  · rw [FilesRm.removePath, if_pos hroot] at h
    cases h
  rw [FilesRm.removePath, if_neg hroot] at h
  exact removeTrimmed_invariants hdir hunique h

/-- One argument of `files rm` keeps both invariants, removed or refused. -/
theorem rmArg_invariants (force dashr : Bool) {root : MemNode} (arg : String)
    (hdir : root.IsDirectory) (hunique : root.UniqueNames) :
    (FilesRm.rmArg force dashr root arg).1.IsDirectory ∧
      (FilesRm.rmArg force dashr root arg).1.UniqueNames := by
  unfold FilesRm.rmArg
  split
  · exact ⟨hdir, hunique⟩
  · split
    · exact removePath_invariants hdir hunique ‹_›
    · exact ⟨hdir, hunique⟩

/-- `files rm` keeps both invariants, whichever of its arguments fail. -/
theorem filesRmCmd_invariants (emit : List String → String → Option String) (args : List String)
    (force dashr : Bool) {root : MemNode} (hdir : root.IsDirectory) (hunique : root.UniqueNames) :
    (FilesRm.filesRmCmd emit root args force dashr).root.IsDirectory ∧
      (FilesRm.filesRmCmd emit root args force dashr).root.UniqueNames := by
  rw [FilesRm.filesRmCmd_root]
  induction args generalizing root with
  | nil => exact ⟨hdir, hunique⟩
  | cons arg args ih =>
    have h := rmArg_invariants force dashr arg hdir hunique
    exact ih h.1 h.2

/-- The node `putNode` attaches is the node its path names afterwards. -/
theorem nodeAt_putNode {root root' : MemNode} {path : String} {node : MemNode}
    (hp : putNode root path node = .ok root') :
    nodeAt (lookupParts (split path).1 ++ [(split path).2]) root' = some node := by
  obtain ⟨-, entries, hd, hfree, hroot⟩ := putNode_eq_ok.1 hp
  rw [hroot, nodeAt_append, nodeAt_modifyAt _ hd]
  simp [nodeAt, List.lookup_append, hfree]

/-- The invariant rests on the DAG: a copy that succeeds attaches the node it finds as it is, so
a directory from an `/ipfs/` path with two entries of one name brings both into MFS. -/
theorem filesCp_imports_duplicates {resolve : String → Except String Source}
    {root root' node : MemNode} {source dest src dst : String} {force : Bool}
    (h : filesCp resolve root source dest force = (root', none))
    (htarget : filesCpTarget source dest = .ok (src, dst))
    (hnode : getNodeFromPath resolve root src = .ok (.unixfs node))
    (hdup : ¬ node.UniqueNames) : ¬ root'.UniqueNames := by
  rcases filesCp_cases h with ⟨-, hsome⟩ | ⟨src', dst', node', root1, htarget', hnode', -, hput⟩
  · cases hsome
  · rw [htarget] at htarget'
    obtain ⟨rfl, rfl⟩ := Prod.mk.inj (Except.ok.inj htarget')
    rw [hnode] at hnode'
    obtain rfl : node = node' := by cases hnode'; rfl
    rcases hput with ⟨-, -, -, hsome⟩ | ⟨hp, -⟩
    · cases hsome
    · exact fun hu => hdup (uniqueNames_nodeAt hu (nodeAt_putNode hp))

/-- A DAG directory with two entries named `a`. -/
def twoEntriesNamedA : MemNode := .directory [("a", .file []), ("a", .file [1])]

-- `String.startsWith` runs by well-founded recursion: unsealed so that the copy evaluates
unseal String.substrEq.loop in
/-- `files cp /ipfs/x /d` of that directory into an empty MFS succeeds, and MFS then has a
directory with two entries of one name. -/
theorem cp_directory_with_duplicates :
    filesCp (fun _ => .ok (.unixfs twoEntriesNamedA)) (.directory []) "/ipfs/x" "/d" false =
        (.directory [("d", twoEntriesNamedA)], none) ∧
      filesCpTarget "/ipfs/x" "/d" = .ok ("/ipfs/x", "/d") ∧
      getNodeFromPath (fun _ => .ok (.unixfs twoEntriesNamedA)) (.directory []) "/ipfs/x" =
        .ok (.unixfs twoEntriesNamedA) ∧
      ¬ twoEntriesNamedA.UniqueNames ∧
      ¬ (MemNode.directory [("d", twoEntriesNamedA)]).UniqueNames := by
  have hdup : ¬ twoEntriesNamedA.UniqueNames := fun h =>
    absurd (uniqueNames_directory.1 h).1 (by decide)
  have hcp : filesCp (fun _ => .ok (.unixfs twoEntriesNamedA)) (.directory []) "/ipfs/x" "/d"
      false = (.directory [("d", twoEntriesNamedA)], none) := by rfl
  have htarget : filesCpTarget "/ipfs/x" "/d" = .ok ("/ipfs/x", "/d") := by rfl
  have hnode : getNodeFromPath (fun _ => .ok (.unixfs twoEntriesNamedA)) (.directory [])
      "/ipfs/x" = .ok (.unixfs twoEntriesNamedA) := by rfl
  exact ⟨hcp, htarget, hnode, hdup, filesCp_imports_duplicates hcp htarget hnode hdup⟩

/-! ### The tree with its invariants -/

/-- MFS with its invariants: the root is a directory, and no directory has two entries of one
name. -/
structure Mfs where
  /-- The tree. -/
  root : MemNode
  /-- The root is a directory. -/
  isDirectory : root.IsDirectory
  /-- No directory has two entries of one name. -/
  unique : root.UniqueNames

/-- The MFS of a fresh node: an empty root directory. -/
def Mfs.empty : Mfs :=
  ⟨.directory [], trivial, uniqueNames_directory.2 ⟨List.nodup_nil, fun _ h => absurd h (List.not_mem_nil _)⟩⟩

/-! ### Nothing is shadowed -/

/-- The nodes a tree holds, with the names of the entries on the way to each. -/
inductive Reaches : List String → MemNode → MemNode → Prop
  | here (node : MemNode) : Reaches [] node node
  | entry {entries : List (String × MemNode)} {name : String} {node n : MemNode}
      {parts : List String} :
      (name, node) ∈ entries → Reaches parts node n → Reaches (name :: parts) (.directory entries) n

/-- In a tree with unique names, every node it holds is what its path names. -/
theorem nodeAt_of_reaches {parts : List String} {root n : MemNode} (hunique : root.UniqueNames)
    (h : Reaches parts root n) : nodeAt parts root = some n := by
  induction h with
  | here => rfl
  | entry hmem _ ih =>
    rw [uniqueNames_directory] at hunique
    simp only [nodeAt, lookup_eq_some_of_mem hunique.1 hmem, Option.some_bind]
    exact ih (hunique.2 _ hmem)

/-- A tree with the file `/a/b` and the file `/c`. -/
def nestedTree : MemNode := .directory [("a", .directory [("b", .file [7])]), ("c", .file [])]

/-- `/a/b` of that tree, whose names are unique, is the file the tree holds there. -/
theorem nested_file_found :
    nestedTree.UniqueNames ∧ Reaches ["a", "b"] nestedTree (.file [7]) ∧
      nodeAt ["a", "b"] nestedTree = some (.file [7]) :=
  have hunique : nestedTree.UniqueNames :=
    uniqueNames_directory.2 ⟨by decide, by simp [uniqueNames_directory, MemNode.UniqueNames, EntriesUnique]⟩
  have hreach : Reaches ["a", "b"] nestedTree (.file [7]) :=
    .entry (List.mem_cons_self _ _) (.entry (List.mem_cons_self _ _) (.here _))
  ⟨hunique, hreach, nodeAt_of_reaches hunique hreach⟩

end BockIpfs.MfsRun
