import BockIpfs.MfsParents

/-!
# Undoing `files cp` and `files mkdir` with `files rm -r`

`files cp` without `--force` and `--parents` attaches the source's node under a free name of a
directory that is there, and `files mkdir` without `-p` adds an empty directory under a free
name of a directory that is there. `removePath` with `-r` of the path the command acted on
unlinks that name from that directory again, and what it leaves is the tree before the command,
node for node, whatever the tree and the path: the command is undone.

Both rest on one fact about the tree: adding an entry under a free name of the directory at `d`
and then keeping every entry of another name there gives the tree back. What differs is how
each command finds its place. `files cp` puts the node where `putNode` splits its destination,
which is where `removePath` splits it; `mfs.Mkdir` drops the empty elements of its path, and
`removePath` trims one trailing slash before it splits: on every checked path but `/`, the two
find the same entry.
-/

namespace BockIpfs.MfsUndo

open Paths FilesPath MfsTree FilesIo FilesCp MfsRun MfsMkdir MfsParents FilesRm

/-! ### Changing one node twice -/

theorem updateEntry_updateEntry (name : String) (f g : MemNode → MemNode) :
    ∀ entries : List (String × MemNode),
      updateEntry name f (updateEntry name g entries) = updateEntry name (f ∘ g) entries
  | [] => rfl
  | (key, node) :: rest => by
    by_cases hk : key = name
    · simp [updateEntry, hk]
    · simp [updateEntry, hk, updateEntry_updateEntry name f g rest]

/-- Two changes in place at one path are one change. -/
theorem modifyAt_modifyAt (f g : MemNode → MemNode) : ∀ (p : List String) (node : MemNode),
    modifyAt f p (modifyAt g p node) = modifyAt (f ∘ g) p node
  | [], _ => rfl
  | _ :: _, .file _ => rfl
  | part :: p, .directory entries => by
    rw [modifyAt, modifyAt, modifyAt, updateEntry_updateEntry,
      show modifyAt f p ∘ modifyAt g p = modifyAt (f ∘ g) p from funext (modifyAt_modifyAt f g p)]

/-- The first entry of a name changed by two functions that agree on its node. -/
theorem updateEntry_congr {name : String} {f g : MemNode → MemNode} :
    ∀ {entries : List (String × MemNode)} {node : MemNode}, entries.lookup name = some node →
      f node = g node → updateEntry name f entries = updateEntry name g entries
  | [], _, h, _ => by cases h
  | (key, n) :: rest, node, h, hfg => by
    by_cases hk : key = name
    · subst hk
      obtain rfl : n = node := by simpa using h
      simp [updateEntry, hfg]
    · rw [lookup_cons_of_ne (Ne.symm hk)] at h
      simp [updateEntry, hk, updateEntry_congr h hfg]

/-- Setting the node a path names to itself changes nothing. -/
theorem modifyAt_of_nodeAt : ∀ {p : List String} {node n : MemNode}, nodeAt p node = some n →
    modifyAt (fun _ => n) p node = node
  | [], _, _, h => by cases h; rfl
  | _ :: _, .file _, _, h => by cases h
  | _ :: p, .directory _, n, h => by
    obtain ⟨next, hnext, hp⟩ := Option.bind_eq_some.1 h
    rw [modifyAt, @updateEntry_congr _ _ (fun _ => next) _ _ hnext (modifyAt_of_nodeAt hp),
      updateEntry_of_lookup hnext]

/-! ### Adding an entry and unlinking it -/

theorem filter_append_fresh {entries : List (String × MemNode)} {name : String}
    (hfree : entries.lookup name = none) (node : MemNode) :
    (entries ++ [(name, node)]).filter (·.1 != name) = entries := by
  have hne : ∀ e ∈ entries, e.1 ≠ name := fun e he hk =>
    not_mem_of_lookup_eq_none hfree (hk ▸ List.mem_map_of_mem Prod.fst he)
  rw [List.filter_append, List.filter_eq_self.2 fun e he => by simpa using hne e he]
  simp

/-- Adding an entry under a free name of the directory at `d`, then keeping every entry of
another name there, gives the tree back. -/
theorem unlink_after_add {root : MemNode} {d : List String} {entries : List (String × MemNode)}
    {name : String} (hdir : nodeAt d root = some (.directory entries))
    (hfree : entries.lookup name = none) (node : MemNode) :
    modifyAt (fun _ => .directory ((entries ++ [(name, node)]).filter (·.1 != name))) d
      (modifyAt (fun _ => .directory (entries ++ [(name, node)])) d root) = root := by
  rw [modifyAt_modifyAt, filter_append_fresh hfree]
  exact modifyAt_of_nodeAt hdir

/-- The body of `removePath -r`, on a tree with an entry just added under a free name of the
directory its path splits into: the tree before the addition, whether the node is a file or a
directory. -/
theorem removeTrimmed_added {root : MemNode} {path : String} {entries : List (String × MemNode)}
    (hdir : nodeAt (lookupParts (split path).1) root = some (.directory entries))
    (hfree : entries.lookup (split path).2 = none) (node : MemNode) :
    removeTrimmed (modifyAt (fun _ => .directory (entries ++ [((split path).2, node)]))
      (lookupParts (split path).1) root) path false true = .ok root := by
  generalize hadded : entries ++ [((split path).2, node)] = added
  have hparent : getParentDir (modifyAt (fun _ => .directory added) (lookupParts (split path).1)
      root) (split path).1 = .ok added := getParentDir_eq_ok.2 (nodeAt_modifyAt _ hdir)
  have hlookup : added.lookup (split path).2 = some node := by
    rw [← hadded, List.lookup_append, hfree]
    simp
  have hunlink : unlinkIn (modifyAt (fun _ => .directory added) (lookupParts (split path).1) root)
      (split path).1 (split path).2 added = .ok root := by
    rw [unlinkIn, unlink_eq_ok.2 ⟨by rw [hlookup]; rfl, rfl⟩, ← hadded]
    exact congrArg Except.ok (unlink_after_add hdir hfree node)
  unfold removeTrimmed
  simp only [hparent, Bool.false_eq_true, if_false, child_eq_ok.2 hlookup]
  cases node <;> simp only [if_true, hunlink]

/-! ### Where `removePath` unlinks -/

/-- `removePath` trims the one slash after a path that ends in none. -/
theorem rmPlace_append_slash {path : String} (h : path.toList.getLast? ≠ some '/') :
    rmPlace (path ++ "/") = rmPlace path := by
  have hl : (path ++ "/").toList = path.toList ++ ['/'] := by simp [String.toList]
  have hslash : (path ++ "/").toList.getLast? = some '/' := by rw [hl]; simp
  simp only [rmPlace]
  rw [if_pos hslash, if_neg h, hl, List.dropLast_concat]
  rfl

theorem rmPlace_rootedPath {init : List String} {last : String}
    (hs : ∀ e ∈ init ++ [last], ValidElem e) : rmPlace (rootedPath (init ++ [last])) = init ++ [last] := by
  obtain ⟨hdir, hname⟩ := lookupParts_split_rootedPath hs
  simp only [rmPlace, if_neg (getLast?_rootedPath (by simp) hs), hdir, hname]

/-- On every checked path but `/`, `removePath` unlinks the entry `mfs.Mkdir` makes: its trim
and its split find the place that `mfs.Mkdir`'s dropping of empty elements finds. -/
theorem rmPlace_checkPath {arg path : String} (h : checkPath arg = .ok path) (hroot : path ≠ "/") :
    rmPlace path = mkdirParts path := by
  obtain ⟨hr, rfl⟩ := checkPath_eq_ok.1 h
  have hvalid := validElem_cleanStack arg
  rw [clean_of_rooted hr] at hroot ⊢
  rcases List.eq_nil_or_concat (cleanStack arg) with hs | ⟨init, last, hs⟩
  · -- `arg` cleans to `/`: the checked path is `//`, which both split into the empty name
    rw [hs] at hroot ⊢
    split_ifs at hroot ⊢
    exacts [rfl, absurd rfl hroot]
  · rw [List.concat_eq_append] at hs
    rw [hs] at hvalid ⊢
    split_ifs
    · rw [rmPlace_append_slash (getLast?_rootedPath (by simp) hvalid), rmPlace_rootedPath hvalid,
        mkdirParts_rootedPath_slash (by simp) hvalid]
    · rw [rmPlace_rootedPath hvalid, mkdirParts_rootedPath hvalid]

/-! ### Undoing `files cp` -/

/-- `files cp` without `--force`, then `files rm -r` of the destination it computed, gives
back MFS exactly as it was, whatever the source's node. -/
theorem removePath_after_filesCp {resolve : String → Except String Source} {root root1 : MemNode}
    {source dest : String} (h : filesCp resolve root source dest false = (root1, none)) :
    ∃ src dst, filesCpTarget source dest = .ok (src, dst) ∧
      removePath root1 dst false true = .ok root := by
  rw [← filesCpWith_plain] at h
  rcases filesCpWith_cases h with ⟨-, hsome⟩ | ⟨src, dst, node, root0, htarget, -, hens, hrest⟩
  · cases hsome
  -- without `--parents` and `--force`, the copy is one `putNode` on the tree as it was
  obtain rfl : root0 = root := by
    rcases hens with ⟨-, h0⟩ | ⟨hf, -⟩
    exacts [h0, absurd hf Bool.false_ne_true]
  have hput : putNode root0 dst node = .ok root1 := by
    rcases hrest with ⟨hf, -⟩ | ⟨root1', ⟨-, rfl⟩ | ⟨hf, -⟩, hput⟩
    · exact absurd hf Bool.false_ne_true
    · rcases hput with ⟨-, -, hsome⟩ | ⟨hput, -⟩
      exacts [absurd hsome Bool.false_ne_true, hput]
    · exact absurd hf Bool.false_ne_true
  obtain ⟨hname, entries, hdir, hfree, hroot1⟩ := putNode_eq_ok.1 hput
  refine ⟨src, dst, htarget, ?_⟩
  -- a destination with a name is neither `/` nor slashed, so `removePath` takes it as it is
  have hne : dst ≠ "/" := fun he => hname (by rw [he]; rfl)
  have hlast : ¬dst.toList.getLast? = some '/' := fun hl => hname (split_snd_eq_empty hl)
  rw [removePath, if_neg hne, if_neg hlast, hroot1]
  exact removeTrimmed_added hdir hfree node

theorem copy_then_remove :
    filesCp offline.resolve (.directory [("a", .file [1])]) "/a" "/b" false =
        (.directory [("a", .file [1]), ("b", .file [1])], none) ∧
      ∃ src dst, filesCpTarget "/a" "/b" = .ok (src, dst) ∧
        removePath (.directory [("a", .file [1]), ("b", .file [1])]) dst false true =
          .ok (.directory [("a", .file [1])]) :=
  ⟨by rfl, @removePath_after_filesCp offline.resolve _ _ _ _ (by rfl)⟩

/-! ### Undoing `files mkdir` -/

/-- `mfs.Mkdir`'s walk without `-p`: the elements before the last name directories all the way,
and the last is added as an empty directory under a free name of the last of them. -/
theorem mkdirIn_false_eq_ok : ∀ {walked init : List String} {last : String}
    {entries entries' : List (String × MemNode)},
    mkdirIn false walked (init ++ [last]) entries = .ok entries' →
      ∃ dentries, nodeAt init (.directory entries) = some (.directory dentries) ∧
        dentries.lookup last = none ∧
        MemNode.directory entries' =
          modifyAt (fun _ => .directory (dentries ++ [(last, .directory [])])) init
            (.directory entries)
  | _, [], last, entries, _, h => by
    rw [List.nil_append, mkdirIn] at h
    split at h
    · rename_i hfree
      cases h
      exact ⟨entries, rfl, hfree, rfl⟩
    all_goals cases h
  | _, part :: init, last, entries, _, h => by
    obtain ⟨next, rest, hnr⟩ := List.exists_cons_of_ne_nil (List.append_ne_nil_of_right_ne_nil
      init (List.cons_ne_nil last []))
    rw [List.cons_append, hnr, mkdirIn] at h
    split at h
    · rename_i sub hsub
      obtain ⟨sub', hrec, rfl⟩ := map_eq_ok.1 h
      rw [← hnr] at hrec
      obtain ⟨dentries, hd, hfree, hsub'⟩ := mkdirIn_false_eq_ok hrec
      refine ⟨dentries, by simp [nodeAt, hsub, hd], hfree, ?_⟩
      rw [modifyAt, updateEntry_congr hsub hsub']
    all_goals cases h

theorem mkdir_false_eq_ok {root root' : MemNode} {path : String}
    (h : mkdir root path false = .ok root') :
    ∃ init last entries, mkdirParts path = init ++ [last] ∧
      nodeAt init root = some (.directory entries) ∧ entries.lookup last = none ∧
      root' = modifyAt (fun _ => .directory (entries ++ [(last, .directory [])])) init root := by
  unfold mkdir at h
  split at h
  · cases h
  split at h
  · cases h
  · rename_i hnil
    obtain ⟨init, last, hparts⟩ := (List.eq_nil_or_concat (mkdirParts path)).resolve_left hnil
    rw [List.concat_eq_append] at hparts
    rw [hparts] at h
    split at h
    · obtain ⟨entries', hin, rfl⟩ := map_eq_ok.1 h
      obtain ⟨dentries, hd, hfree, hroot'⟩ := mkdirIn_false_eq_ok hin
      exact ⟨init, last, dentries, hparts, hd, hfree, hroot'⟩
    · cases h

/-- `files mkdir` without `-p`, then `files rm -r` of its checked path, gives back MFS exactly
as it was. -/
theorem removePath_after_filesMkdir {names : String → Option Nat} {root root1 : MemNode}
    {arg : String} {cidVersion : Option Int} {hash : Option String}
    (h : filesMkdir names root arg false cidVersion hash = (root1, none)) :
    ∃ path, checkPath arg = .ok path ∧ removePath root1 path false true = .ok root := by
  rcases filesMkdir_cases h with ⟨-, hsome⟩ | ⟨path, -, hpath, -, hmk, -⟩
  · cases hsome
  refine ⟨path, hpath, ?_⟩
  obtain ⟨init, last, entries, hparts, hdir, hfree, hroot1⟩ := mkdir_false_eq_ok hmk
  have hne : path ≠ "/" := fun he => by
    rw [he] at hparts
    exact absurd hparts.symm (List.append_ne_nil_of_right_ne_nil init (List.cons_ne_nil last []))
  -- the place `removePath` finds, after its trim, is the one `mfs.Mkdir` added to
  have hplace := (rmPlace_checkPath hpath hne).trans hparts
  rw [removePath, if_neg hne]
  simp only [rmPlace] at hplace
  generalize (if path.toList.getLast? = some '/' then String.mk path.toList.dropLast else path) =
    trimmed at hplace ⊢
  obtain ⟨hd, hl⟩ := List.append_inj' hplace rfl
  obtain rfl := List.singleton_inj.1 hl
  rw [hroot1, ← hd]
  rw [← hd] at hdir
  exact removeTrimmed_added hdir hfree _

/-- The slash `files mkdir` keeps on its path is the one `removePath` trims. -/
theorem mkdir_then_remove :
    filesMkdir (fun _ => none) (.directory [("x", .directory [])]) "/x/d/" false none none =
        (.directory [("x", .directory [("d", .directory [])])], none) ∧
      ∃ path, checkPath "/x/d/" = .ok path ∧
        removePath (.directory [("x", .directory [("d", .directory [])])]) path false true =
          .ok (.directory [("x", .directory [])]) :=
  ⟨by rfl, @removePath_after_filesMkdir (fun _ => none) _ _ _ none none (by rfl)⟩

end BockIpfs.MfsUndo
