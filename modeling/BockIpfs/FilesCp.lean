import BockIpfs.MfsTree

/-!
# `files cp` over MFS in memory

`files cp` checks both paths, names the destination after the source when it ends in `/`,
finds the source node (in MFS, or behind an `/ipfs/` path), refuses one that is not UnixFS,
removes an existing file at the destination under `--force`, and attaches the node there with
`mfs.PutNode`.

A successful copy grafts the source node into the map of `MfsTree` at the destination and
changes no path outside it; it replaces no directory, and a file only under `--force`. A failed
copy leaves MFS as it was: under `--force` a file is removed only where the attach after it
cannot fail.
-/

namespace BockIpfs.FilesCp

open Paths FilesPath MfsTree

/-- What `getNodeFromPath` gives: a node that is valid UnixFS, or, behind an `/ipfs/` path, a
block that is not (with the decoding error, if there is one). -/
inductive Source where
  | unixfs (node : MemNode)
  | invalid (detail : Option String)

/-- `getNodeFromPath(ctx, node, api, p)`: an `/ipfs/` path is resolved by `resolve`
(`api.ResolveNode`); any other path is looked up in MFS, whose nodes are all valid UnixFS. -/
def getNodeFromPath (resolve : String → Except String Source) (root : MemNode) (p : String) :
    Except String Source :=
  if p.startsWith "/ipfs/" then resolve p
  else
    match lookup root p with
    | .ok node => .ok (.unixfs node)
    | .error e => .error e.message

/-- `unlinkNodeIfExists(node, path)`, run under `--force`: remove the file `path` names; there is
nothing to do when its directory or the entry is missing, and a directory is refused. -/
def unlinkNodeIfExists (root : MemNode) (path : String) : Except String MemNode :=
  match lookup root (split path).1 with
  | .error .notExist => .ok root
  | .error e => .error e.message
  | .ok (.file _) => .error ("not a directory: " ++ (split path).1)
  | .ok (.directory entries) =>
    match child entries (split path).2 with
    | .error _ => .ok root
    | .ok (.directory _) => .error ("not a file: " ++ path)
    | .ok (.file _) =>
      match unlink entries (split path).2 with
      | .ok entries =>
        .ok (modifyAt (fun _ => .directory entries) (lookupParts (split path).1) root)
      | .error e => .error e.message

/-- Modelled from the spec (§4.5): `mfs.PutNode(root, path, node)` adds `node` to the directory
`putNodeTarget` gives, under its name; `lookupDir` refuses a file there, `AddChild` a name that
is taken. -/
def putNode (root : MemNode) (path : String) (node : MemNode) : Except String MemNode :=
  match putNodeTarget path with
  | .error e => .error e
  | .ok (dir, name) =>
    match lookup root dir with
    | .error e => .error e.message
    | .ok (.file _) => .error (dir ++ " is not a directory")
    | .ok (.directory entries) =>
      match addChild entries name node with
      | .error e => .error e
      | .ok entries => .ok (modifyAt (fun _ => .directory entries) (lookupParts dir) root)

/-- `errFilesCpInvalidUnixFS`. -/
def invalidUnixFS : String := "cp: source must be a valid UnixFS (dag-pb or raw codec)"

/-- `files cp` without `--parents`: the tree afterwards and the error, if any. -/
def filesCp (resolve : String → Except String Source) (root : MemNode) (source dest : String)
    (force : Bool) : MemNode × Option String :=
  match filesCpTarget source dest with
  | .error e => (root, some e)
  | .ok (src, dst) =>
    match getNodeFromPath resolve root src with
    | .error e => (root, some ("cp: cannot get node from path " ++ src ++ ": " ++ e))
    | .ok (.invalid none) => (root, some invalidUnixFS)
    | .ok (.invalid (some detail)) => (root, some (invalidUnixFS ++ ": " ++ detail))
    | .ok (.unixfs node) =>
      match if force then unlinkNodeIfExists root dst else .ok root with
      | .error e => (root, some ("cp: cannot unlink existing file: " ++ e))
      | .ok root =>
        match putNode root dst node with
        | .error e => (root, some ("cp: cannot put node in path " ++ dst ++ ": " ++ e))
        | .ok root => (root, none)

/-! ### The destination's name -/

theorem checkPath_ne_empty {p c : String} (h : checkPath p = .ok c) : c ≠ "" := by
  obtain ⟨hr, rfl⟩ := checkPath_eq_ok.1 h
  rw [clean_of_rooted hr]
  split_ifs
  · exact fun he => by simpa [show "/".length = 1 from rfl] using congrArg String.length he
  · exact rootedPath_ne_empty _

/-- The destination `files cp` computes always has a name after its last `/`. -/
theorem split_snd_filesCpTarget {source dest src dst : String}
    (h : filesCpTarget source dest = .ok (src, dst)) : (split dst).2 ≠ "" := by
  cases hs : checkPath source with
  | error => simp [filesCpTarget, hs, bind, Except.bind] at h
  | ok checked =>
    cases hd : checkPath dest with
    | error => simp [filesCpTarget, hs, hd, bind, Except.bind] at h
    | ok dir =>
      simp only [filesCpTarget, hs, hd, bind, Except.bind, pure, Except.pure, Except.ok.injEq,
        Prod.mk.injEq] at h
      obtain ⟨rfl, rfl⟩ := h
      split_ifs with hslash
      · -- the directory, then the source's base name
        obtain ⟨hb, hbs⟩ := base_ne_empty (getLast?_trimRightSlash checked)
        rwa [split_append hslash hbs]
      · obtain ⟨c, hc⟩ := Option.ne_none_iff_exists'.1 fun hn =>
          checkPath_ne_empty hd (String.ext (List.getLast?_eq_none_iff.1 hn))
        exact split_snd_ne_empty hc fun h => hslash (h ▸ hc)

/-! ### The steps of a copy -/

theorem putNodeTarget_eq (path : String) :
    putNodeTarget path = if (split path).2 = "" then .error "cannot create file with empty name"
      else .ok ((split path).1, (split path).2) :=
  rfl

/-- What `mfs.PutNode` does: add the node under a free name of an existing directory. -/
theorem putNode_eq_ok {root root' : MemNode} {path : String} {node : MemNode} :
    putNode root path node = .ok root' ↔ (split path).2 ≠ "" ∧ ∃ entries,
      nodeAt (lookupParts (split path).1) root = some (.directory entries) ∧
      entries.lookup (split path).2 = none ∧
      root' = modifyAt (fun _ => .directory (entries ++ [((split path).2, node)]))
        (lookupParts (split path).1) root := by
  rw [putNode, putNodeTarget_eq]
  by_cases hn : (split path).2 = ""
  · rw [if_pos hn]
    exact iff_of_false nofun fun h => h.1 hn
  · rw [if_neg hn]
    simp only [ne_eq, hn, not_false_eq_true, true_and, lookup]
    cases hl : lookupAt [] (lookupParts (split path).1) root with
    | error =>
      refine iff_of_false nofun fun ⟨_, h, _⟩ => ?_
      rw [← lookupAt_eq_ok_iff, hl] at h
      cases h
    | ok dirNode =>
      rw [lookupAt_eq_ok_iff] at hl
      cases dirNode with
      | file => exact iff_of_false nofun fun ⟨_, h, _⟩ => by cases hl.symm.trans h
      | directory entries =>
        simp only [hl, Option.some.injEq, MemNode.directory.injEq, exists_eq_left']
        cases hadd : addChild entries (split path).2 node with
        | error =>
          have htaken : entries.lookup (split path).2 ≠ none := fun hfree => by
            rw [addChild, hfree] at hadd
            cases hadd
          simp [htaken]
        | ok entries' =>
          obtain ⟨hfree, rfl⟩ := addChild_eq_ok.1 hadd
          simp only [Except.ok.injEq, hfree, true_and]
          exact eq_comm

/-- What the `--force` unlink does: leave the tree, where the directory or the entry is
missing, or remove the file the path names. -/
theorem unlinkNodeIfExists_eq_ok {root root1 : MemNode} {path : String}
    (h : unlinkNodeIfExists root path = .ok root1) :
    (root1 = root ∧ ∀ entries, nodeAt (lookupParts (split path).1) root =
      some (.directory entries) → entries.lookup (split path).2 = none) ∨
    ∃ entries content, nodeAt (lookupParts (split path).1) root = some (.directory entries) ∧
      entries.lookup (split path).2 = some (.file content) ∧
      root1 = modifyAt (fun _ => .directory (entries.filter (·.1 != (split path).2)))
        (lookupParts (split path).1) root := by
  unfold unlinkNodeIfExists lookup at h
  split at h
  · rename_i hl
    cases h
    refine .inl ⟨rfl, fun entries hd => ?_⟩
    rw [← @lookupAt_eq_ok_iff [], hl] at hd
    cases hd
  · cases h
  · cases h
  · rename_i entries hl
    have hd := lookupAt_eq_ok_iff.1 hl
    split at h
    · rename_i hc
      cases h
      refine .inl ⟨rfl, fun entries' hd' => ?_⟩
      rw [hd, Option.some.injEq, MemNode.directory.injEq] at hd'
      exact hd' ▸ lookup_eq_none_of_child hc
    · cases h
    · rename_i content hc
      split at h
      · rename_i hu
        obtain ⟨-, rfl⟩ := unlink_eq_ok.1 hu
        obtain rfl := Except.ok.inj h
        exact .inr ⟨entries, content, hd, child_eq_ok.1 hc, rfl⟩
      · cases h

/-- `mfs.PutNode` grafts the node at the directory and name of the path, where nothing was. -/
theorem view_putNode {root root' : MemNode} {path : String} {node : MemNode}
    (h : putNode root path node = .ok root') :
    view root (lookupParts (split path).1 ++ [(split path).2]) = none ∧
      Grafted (view root) (view root') (lookupParts (split path).1 ++ [(split path).2])
        (view node) := by
  obtain ⟨-, entries, hdir, hfree, hroot⟩ := putNode_eq_ok.1 h
  rw [hroot]
  refine ⟨by simp [view_append hdir, view_directory_cons, hfree], fun r => ?_, fun q hq => ?_⟩
  · rw [List.append_assoc, List.singleton_append, view_modifyAt_entries_child hdir,
      List.lookup_append, hfree]
    simp
  · exact view_modifyAt_entries_of_ne hdir (fun _ => lookup_append_of_ne)
      fun r hr => hq r (by rw [hr, List.append_assoc, List.singleton_append])

/-- The `--force` unlink changes no path outside the destination. -/
theorem view_unlinkNodeIfExists {root root1 : MemNode} {path : String}
    (h : unlinkNodeIfExists root path = .ok root1) {q : List String}
    (hq : ∀ r, q ≠ lookupParts (split path).1 ++ [(split path).2] ++ r) :
    view root1 q = view root q := by
  rcases unlinkNodeIfExists_eq_ok h with ⟨rfl, -⟩ | ⟨entries, content, hdir, -, hroot⟩
  · rfl
  · rw [hroot]
    exact view_modifyAt_entries_of_ne hdir (fun a ha => lookup_filter_of_ne _ a ha entries)
      fun r hr => hq r (by rw [hr, List.append_assoc, List.singleton_append])

/-- A source outside `/ipfs/` is the node MFS has at its path. -/
theorem nodeAt_getNodeFromPath {resolve : String → Except String Source} {root : MemNode}
    {p : String} {node : MemNode} (hp : p.startsWith "/ipfs/" = false)
    (h : getNodeFromPath resolve root p = .ok (.unixfs node)) :
    nodeAt (lookupParts p) root = some node := by
  rw [getNodeFromPath, if_neg (by simp [hp]), lookup] at h
  split at h
  · rename_i hl
    cases h
    exact lookupAt_eq_ok_iff.1 hl
  · cases h

/-- What `files cp` can do: fail before it changes anything, or find a UnixFS node, run the
unlink under `--force`, and then either fail to attach the node or attach it. -/
theorem filesCp_cases {resolve : String → Except String Source} {root root' : MemNode}
    {source dest : String} {force : Bool} {err : Option String}
    (h : filesCp resolve root source dest force = (root', err)) :
    (root' = root ∧ err.isSome) ∨
    ∃ src dst node root1, filesCpTarget source dest = .ok (src, dst) ∧
      getNodeFromPath resolve root src = .ok (.unixfs node) ∧
      ((force = false ∧ root1 = root) ∨ (force = true ∧ unlinkNodeIfExists root dst = .ok root1)) ∧
      ((∃ e, putNode root1 dst node = .error e ∧ root' = root1 ∧ err.isSome) ∨
        (putNode root1 dst node = .ok root' ∧ err = none)) := by
  unfold filesCp at h
  split at h
  · cases h
    exact .inl ⟨rfl, rfl⟩
  · rename_i src dst htarget
    split at h
    · cases h
      exact .inl ⟨rfl, rfl⟩
    · cases h
      exact .inl ⟨rfl, rfl⟩
    · cases h
      exact .inl ⟨rfl, rfl⟩
    · rename_i node hnode
      split at h
      · cases h
        exact .inl ⟨rfl, rfl⟩
      · rename_i root1 hunlink
        have hstep : (force = false ∧ root1 = root) ∨
            (force = true ∧ unlinkNodeIfExists root dst = .ok root1) := by
          cases force
          · exact .inl ⟨rfl, by simpa using hunlink.symm⟩
          · exact .inr ⟨rfl, by simpa using hunlink⟩
        refine .inr ⟨src, dst, node, root1, htarget, hnode, hstep, ?_⟩
        split at h
        · rename_i e hput
          cases h
          exact .inl ⟨e, hput, rfl, rfl⟩
        · rename_i hput
          cases h
          exact .inr ⟨hput, rfl⟩

/-! ### What a copy does to MFS -/

/-- A successful `files cp` attaches the source node at the destination's directory and name,
where there was nothing before or, under `--force`, a file; the map afterwards is the map before
with the node grafted there. A source outside `/ipfs/` is the node MFS had at its path. -/
theorem view_filesCp {resolve : String → Except String Source} {root root' : MemNode}
    {source dest : String} {force : Bool}
    (h : filesCp resolve root source dest force = (root', none)) :
    ∃ src dst node, filesCpTarget source dest = .ok (src, dst) ∧
      getNodeFromPath resolve root src = .ok (.unixfs node) ∧
      (src.startsWith "/ipfs/" = false → nodeAt (lookupParts src) root = some node) ∧
      (view root (lookupParts (split dst).1 ++ [(split dst).2]) = none ∨
        force = true ∧ ∃ content,
          view root (lookupParts (split dst).1 ++ [(split dst).2]) = some (.file content)) ∧
      Grafted (view root) (view root') (lookupParts (split dst).1 ++ [(split dst).2])
        (view node) := by
  rcases filesCp_cases h with ⟨-, hsome⟩ | ⟨src, dst, node, root1, htarget, hnode, hstep, hput⟩
  · cases hsome
  rcases hput with ⟨-, -, -, hsome⟩ | ⟨hput, -⟩
  · cases hsome
  obtain ⟨hfree, hgraft, hframe⟩ := view_putNode hput
  refine ⟨src, dst, node, htarget, hnode, fun hp => nodeAt_getNodeFromPath hp hnode, ?_,
    hgraft, fun q hq => ?_⟩
  · rcases hstep with ⟨-, rfl⟩ | ⟨rfl, hunlink⟩
    · exact .inl hfree
    · rcases unlinkNodeIfExists_eq_ok hunlink with ⟨rfl, -⟩ | ⟨entries, content, hdir, hfile, -⟩
      · exact .inl hfree
      · exact .inr ⟨rfl, content, by simp [view_append hdir, view_directory_cons, hfile,
          MemNode.entry]⟩
  · rw [hframe q hq]
    rcases hstep with ⟨-, rfl⟩ | ⟨-, hunlink⟩
    · rfl
    · exact view_unlinkNodeIfExists hunlink hq

/-- `files cp --force /a /d/` over a file `/d/a`: the copy replaces it. -/
theorem force_copy_replaces_file :
    filesCp (fun _ => .error "offline")
        (.directory [("a", .file [1]), ("d", .directory [("a", .file [9])])]) "/a" "/d/" true =
      (.directory [("a", .file [1]), ("d", .directory [("a", .file [1])])], none) ∧
    ∃ src dst node, filesCpTarget "/a" "/d/" = .ok (src, dst) ∧
      getNodeFromPath (fun _ => .error "offline")
        (.directory [("a", .file [1]), ("d", .directory [("a", .file [9])])]) src =
          .ok (.unixfs node) ∧
      (src.startsWith "/ipfs/" = false → nodeAt (lookupParts src)
        (.directory [("a", .file [1]), ("d", .directory [("a", .file [9])])]) = some node) ∧
      (view (.directory [("a", .file [1]), ("d", .directory [("a", .file [9])])])
          (lookupParts (split dst).1 ++ [(split dst).2]) = none ∨
        true = true ∧ ∃ content,
          view (.directory [("a", .file [1]), ("d", .directory [("a", .file [9])])])
            (lookupParts (split dst).1 ++ [(split dst).2]) = some (.file content)) ∧
      Grafted (view (.directory [("a", .file [1]), ("d", .directory [("a", .file [9])])]))
        (view (.directory [("a", .file [1]), ("d", .directory [("a", .file [1])])]))
        (lookupParts (split dst).1 ++ [(split dst).2]) (view node) :=
  ⟨by rfl, view_filesCp (by rfl)⟩

/-- A failed `files cp` leaves MFS as it was, `--force` included: a file the unlink removes
leaves its name free in a directory that is there, so the attach after it cannot fail. -/
theorem filesCp_error_unchanged {resolve : String → Except String Source} {root root' : MemNode}
    {source dest : String} {force : Bool} {e : String}
    (h : filesCp resolve root source dest force = (root', some e)) : root' = root := by
  rcases filesCp_cases h with ⟨rfl, -⟩ | ⟨src, dst, node, root1, htarget, -, hstep, hput⟩
  · rfl
  rcases hput with ⟨e', hput, rfl, -⟩ | ⟨-, hnone⟩
  · rcases hstep with ⟨-, rfl⟩ | ⟨-, hunlink⟩
    · rfl
    rcases unlinkNodeIfExists_eq_ok hunlink with ⟨rfl, -⟩ | ⟨entries, content, hdir, -, rfl⟩
    · rfl
    have hok := (@putNode_eq_ok _ _ dst node).2 ⟨split_snd_filesCpTarget htarget, _,
      nodeAt_modifyAt (fun _ => .directory (entries.filter (·.1 != (split dst).2))) hdir,
      lookup_filter_self _ _, rfl⟩
    rw [hput] at hok
    cases hok
  · cases hnone

/-- `files cp --force /a /d` where `/d` is a directory: refused, and MFS stays as it was. -/
theorem force_copy_onto_directory :
    filesCp (fun _ => .error "offline") (.directory [("a", .file [1]), ("d", .directory [])])
        "/a" "/d" true =
      (.directory [("a", .file [1]), ("d", .directory [])],
        some "cp: cannot unlink existing file: not a file: /d") ∧
    MemNode.directory [("a", .file [1]), ("d", .directory [])] =
      .directory [("a", .file [1]), ("d", .directory [])] :=
  ⟨by rfl, @filesCp_error_unchanged (fun _ => .error "offline") _ _ "/a" "/d" true _ (by rfl)⟩

end BockIpfs.FilesCp
