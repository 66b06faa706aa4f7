import BockIpfs.MfsTree

/-!
# `files rm`: `removePath` over the tree of MFS

`removePath` finds the directory of its path with `getParentDir` and unlinks the name from it,
on the tree of `MfsTree`; the library calls it makes are the ones modelled there from the spec.
A flush persists blocks and does not change the tree, so it is left out.

`removePath` refuses the path `"/"` and trims one trailing slash before it splits the path.
`checkPath` keeps a trailing slash, so every argument with the same cleaned path reaches the
same trimmed path, except for the root: `//`, `/./` and `/a/../` are checked to `//`, pass the
root test, and resolve to an unlink of the empty name in the root directory.

A successful `removePath` takes the subtree at its path out of the map of `MfsTree` and changes
no other path. A path that names nothing gives `os.ErrNotExist`, which `--force` accepts, except
where a file lies on the way to it: `getParentDir` then fails with another error.
-/

namespace BockIpfs.FilesRm

open Paths FilesPath MfsTree

/-- `pdir.Unlink(name)` and `pdir.Flush()` on the directory at `dir`: the new root. -/
def unlinkIn (root : MemNode) (dir name : String) (entries : List (String × MemNode)) :
    Except MfsError MemNode :=
  match unlink entries name with
  | .ok entries' => .ok (modifyAt (fun _ => .directory entries') (lookupParts dir) root)
  | .error e => .error e

/-- The body of `removePath` after the root test and the trim: split the path, find the parent
directory, and unlink the name, with `force` turning a missing parent or name into success and
`dashr` needed for a directory. Returns the new root. -/
def removeTrimmed (root : MemNode) (path : String) (force dashr : Bool) :
    Except MfsError MemNode :=
  let dir := (split path).1
  let name := (split path).2
  match getParentDir root dir with
  | .error e => if force ∧ e = .notExist then .ok root else .error e
  | .ok entries =>
    if force then
      match unlinkIn root dir name entries with
      | .error .notExist => .ok root
      | result => result
    else
      match child entries name with
      | .error e => .error e
      | .ok (.directory _) => if dashr then unlinkIn root dir name entries else .error .isDirectory
      | .ok (.file _) => unlinkIn root dir name entries

/-- `removePath(filesRoot, path, force, dashr)` on a checked path: refuse `"/"`, trim one
trailing slash, then remove. -/
def removePath (root : MemNode) (path : String) (force dashr : Bool) : Except MfsError MemNode :=
  if path = "/" then .error .cannotDeleteRoot
  else
    removeTrimmed root
      (if path.toList.getLast? = some '/' then String.mk path.toList.dropLast else path) force dashr

/-! ### Where each error comes from -/

theorem child_eq_error {entries : List (String × MemNode)} {name : String} {e : MfsError}
    (h : child entries name = .error e) : e = .notExist := by
  unfold child at h
  split at h <;> cases h
  rfl

/-- The unlink fails only where the name is free. -/
theorem unlinkIn_eq_error {root : MemNode} {dir name : String} {entries : List (String × MemNode)}
    {e : MfsError} (h : unlinkIn root dir name entries = .error e) :
    e = .notExist ∧ entries.lookup name = none := by
  unfold unlinkIn unlink at h
  cases hl : entries.lookup name <;> simp [hl] at h
  exact ⟨h.symm, rfl⟩

/-- The unlink takes every entry of the name out of the directory at `dir`. -/
theorem unlinkIn_eq_ok {root root' : MemNode} {dir name : String}
    {entries : List (String × MemNode)} (h : unlinkIn root dir name entries = .ok root') :
    (entries.lookup name).isSome ∧
      root' = modifyAt (fun _ => .directory (entries.filter (·.1 != name))) (lookupParts dir) root := by
  unfold unlinkIn unlink at h
  cases hl : entries.lookup name <;> simp [hl] at h
  exact ⟨rfl, h.symm⟩

theorem lookupAt_eq_error : ∀ {done parts : List String} {node : MemNode} {e : MfsError},
    lookupAt done parts node = .error e → e ≠ .cannotDeleteRoot
  | _, [], _, _, h => by cases h
  | _, _ :: _, .file _, _, h => by cases h; simp
  | _, part :: _, .directory entries, _, h => by
    unfold lookupAt at h
    cases hc : child entries part with
    | ok next => rw [hc] at h; exact lookupAt_eq_error h
    | error e' => rw [hc] at h; cases h; simp [child_eq_error hc]

theorem getParentDir_eq_error {root : MemNode} {dir : String} {e : MfsError}
    (h : getParentDir root dir = .error e) : e ≠ .cannotDeleteRoot := by
  unfold getParentDir lookup at h
  split at h <;> cases h
  · simp
  · exact lookupAt_eq_error ‹_›

/-- Only the root test of `removePath` answers that the root cannot be deleted. -/
theorem removeTrimmed_ne_cannotDeleteRoot (root : MemNode) (path : String) (force dashr : Bool) :
    removeTrimmed root path force dashr ≠ .error .cannotDeleteRoot := by
  intro h
  unfold removeTrimmed at h
  dsimp only at h
  split at h
  · -- no parent directory
    split_ifs at h
    cases h
    exact getParentDir_eq_error ‹_› rfl
  · by_cases hf : force = true
    · -- `--force`: the unlink's own error
      rw [if_pos hf] at h
      split at h
      · cases h
      · cases (unlinkIn_eq_error h).1
    · rw [if_neg hf] at h
      split at h
      · cases h
        cases child_eq_error ‹_›
      · split_ifs at h
        · cases (unlinkIn_eq_error h).1
        · cases h
      · cases (unlinkIn_eq_error h).1

/-! ### What `removePath` does to the map -/

/-- The map `v` with the subtree at `place` taken out: every path through `place` names
nothing, and every other path names what it named. -/
def eraseAt (v : List String → Option Entry) (place : List String) : List String → Option Entry :=
  fun q => if place <+: q then none else v q

/-- The entry `removePath` unlinks: its path with one trailing slash trimmed, as the parts of
the directory `path.Split` gives and the name after it. -/
def rmPlace (path : String) : List String :=
  let trimmed := if path.toList.getLast? = some '/' then String.mk path.toList.dropLast else path
  lookupParts (split trimmed).1 ++ [(split trimmed).2]

/-- Taking out a subtree that is not there changes nothing. -/
theorem eraseAt_view_of_none {root : MemNode} {place : List String} (h : view root place = none) :
    eraseAt (view root) place = view root :=
  funext fun q => by
    unfold eraseAt
    split_ifs with hq
    · obtain ⟨r, rfl⟩ := hq
      exact (view_append_of_none h r).symm
    · rfl

theorem getParentDir_notExist {root : MemNode} {dir : String}
    (h : getParentDir root dir = .error .notExist) :
    lookupAt [] (lookupParts dir) root = .error .notExist := by
  unfold getParentDir lookup at h
  split at h
  · cases h
  · cases h
  · rename_i hl
    cases h
    exact hl

/-- What a successful `removeTrimmed` can do: nothing, where the entry is not there (under
`--force`), or unlink every entry of the name from the directory its path names. -/
theorem removeTrimmed_eq_ok {root root' : MemNode} {path : String} {force dashr : Bool}
    (h : removeTrimmed root path force dashr = .ok root') :
    (root' = root ∧ view root (lookupParts (split path).1 ++ [(split path).2]) = none) ∨
      ∃ entries, nodeAt (lookupParts (split path).1) root = some (.directory entries) ∧
        (entries.lookup (split path).2).isSome ∧
        root' = modifyAt (fun _ => .directory (entries.filter (·.1 != (split path).2)))
          (lookupParts (split path).1) root := by
  unfold removeTrimmed at h
  dsimp only at h
  split at h
  · -- no parent directory, which `--force` accepts
    rename_i e hparent
    split_ifs at h with hfe
    cases h
    rw [hfe.2] at hparent
    simp only [view, nodeAt_append, nodeAt_eq_none (getParentDir_notExist hparent), Option.none_bind,
      Option.map_none',
      and_self, true_or]
  · rename_i entries hparent
    have hdir := getParentDir_eq_ok.1 hparent
    by_cases hf : force = true
    · rw [if_pos hf] at h
      split at h
      · -- no entry of the name, which `--force` accepts
        rename_i hu
        cases h
        have hfree := (unlinkIn_eq_error hu).2
        exact .inl ⟨rfl, by simp [view_append hdir, view_directory_cons, hfree]⟩
      · exact .inr ⟨entries, hdir, unlinkIn_eq_ok h⟩
    · rw [if_neg hf] at h
      split at h
      · cases h
      · split_ifs at h
        exact .inr ⟨entries, hdir, unlinkIn_eq_ok h⟩
      · exact .inr ⟨entries, hdir, unlinkIn_eq_ok h⟩

/-- Unlinking `name` from the directory at `d` takes the subtree at `d ++ [name]` out of the
map. -/
theorem view_modifyAt_filter {d : List String} {root : MemNode}
    {entries : List (String × MemNode)} (name : String)
    (h : nodeAt d root = some (.directory entries)) :
    view (modifyAt (fun _ => .directory (entries.filter (·.1 != name))) d root) =
      eraseAt (view root) (d ++ [name]) := by
  funext q
  by_cases hq : ∃ r, q = d ++ name :: r
  · obtain ⟨r, rfl⟩ := hq
    rw [view_modifyAt_entries_child h, lookup_filter_self, eraseAt, if_pos ⟨r, by simp⟩]
    rfl
  · push_neg at hq
    rw [view_modifyAt_entries_of_ne h (fun a ha => lookup_filter_of_ne name a ha entries) hq,
      eraseAt, if_neg]
    rintro ⟨r, hr⟩
    exact hq r (by rw [← hr]; simp)

/-- A successful `removePath` takes the subtree at its path out of the map and changes no other
path; under `--force`, a path that named nothing leaves MFS as it was. -/
theorem view_removePath {root root' : MemNode} {path : String} {force dashr : Bool}
    (h : removePath root path force dashr = .ok root') :
    view root' = eraseAt (view root) (rmPlace path) := by
  by_cases hroot : path = "/"
  · rw [removePath, if_pos hroot] at h
    cases h
  rw [removePath, if_neg hroot] at h
  simp only [rmPlace]
  rcases removeTrimmed_eq_ok h with ⟨hsame, hnone⟩ | ⟨entries, hdir, -, hunlink⟩
  · rw [hsame, eraseAt_view_of_none hnone]
  · rw [hunlink, view_modifyAt_filter _ hdir]

/-- `files rm -r /a` takes the directory `/a` and the file under it out, and leaves `/c`. -/
theorem rm_directory_beside_file :
    removePath (.directory [("a", .directory [("b", .file [1])]), ("c", .file [2])]) "/a" false
        true = .ok (.directory [("c", .file [2])]) ∧
      view (.directory [("c", .file [2])]) =
        eraseAt (view (.directory [("a", .directory [("b", .file [1])]), ("c", .file [2])]))
          (rmPlace "/a") :=
  ⟨by rfl, @view_removePath (.directory [("a", .directory [("b", .file [1])]), ("c", .file [2])])
    _ "/a" false true (by rfl)⟩

/-! ### A path that names nothing -/

/-- For a checked path that does not clean to the root, `removePath` acts on the cleaned path:
the slash `checkPath` kept is the one it trims. -/
theorem removePath_checkPath {p c : String} (h : checkPath p = .ok c) (hroot : clean p ≠ "/")
    (root : MemNode) (force dashr : Bool) :
    removePath root c force dashr = removeTrimmed root (clean p) force dashr := by
  obtain ⟨hr, rfl⟩ := checkPath_eq_ok.1 h
  have hs : cleanStack p ≠ [] := fun hs => hroot (by rw [clean_of_rooted hr, hs]; rfl)
  have hlast := getLast?_rootedPath hs (validElem_cleanStack p)
  rw [← clean_of_rooted hr] at hlast
  split_ifs
  · have hne : clean p ++ "/" ≠ "/" := fun he => by
      have := congrArg String.toList he
      simp only [String.toList, String.data_append] at this
      exact rootedPath_ne_empty _ (by rw [← clean_of_rooted hr]; exact String.ext (by simpa using this))
    rw [removePath, if_neg hne, if_pos (by simp [String.toList])]
    congr 1
    exact String.ext (by simp [String.toList])
  · rw [removePath, if_neg hroot, if_neg hlast]

/-- Arguments with the same cleaned path, other than the root, remove the same entry with the
same outcome, whatever the tree and flags. -/
theorem removePath_same_clean {p q c d : String} (hp : checkPath p = .ok c)
    (hq : checkPath q = .ok d) (hclean : clean p = clean q) (hroot : clean p ≠ "/")
    (root : MemNode) (force dashr : Bool) :
    removePath root c force dashr = removePath root d force dashr := by
  rw [removePath_checkPath hp hroot, removePath_checkPath hq (hclean ▸ hroot), hclean]

/-- `/a/b/` and `/a//b` remove the same entry. -/
theorem rm_same_entry_two_spellings :
    checkPath "/a/b/" = .ok "/a/b/" ∧ checkPath "/a//b" = .ok "/a/b" ∧
      clean "/a/b/" = clean "/a//b" ∧ clean "/a/b/" ≠ "/" ∧
      removePath (.directory [("a", .directory [("b", .file [2])])]) "/a/b/" false false =
        removePath (.directory [("a", .directory [("b", .file [2])])]) "/a/b" false false :=
  ⟨rfl, rfl, by decide, by decide,
    @removePath_same_clean "/a/b/" "/a//b" "/a/b/" "/a/b" rfl rfl (by decide) (by decide) _ false false⟩

/-- `removePath` of `//` is the removal of the empty name in the root directory. -/
theorem removePath_double_slash (root : MemNode) (force dashr : Bool) :
    removePath root "//" force dashr = removeTrimmed root "/" force dashr := by
  rw [removePath, if_neg (by decide), if_pos (by decide)]
  rfl

/-- Every spelling of the root reaches `removePath` as `/`, which is refused, or as `//`, which
is not: `checkPath` appends a slash to every spelling that ends in one, other than `/`. -/
theorem removePath_root_spellings {p c : String} (h : checkPath p = .ok c) (hroot : clean p = "/")
    (root : MemNode) (force dashr : Bool) :
    (c = "/" ∧ removePath root c force dashr = .error .cannotDeleteRoot) ∨
      (c = "//" ∧ removePath root c force dashr ≠ .error .cannotDeleteRoot) := by
  obtain ⟨_, rfl⟩ := checkPath_eq_ok.1 h
  rw [hroot]
  split_ifs
  · refine .inr ⟨rfl, ?_⟩
    rw [show "/" ++ "/" = "//" from rfl, removePath_double_slash]
    exact removeTrimmed_ne_cannotDeleteRoot root "/" force dashr
  · exact .inl ⟨rfl, by simp [removePath]⟩

/-- `files rm //` (also `/./`, `/a/../`) is not refused as the root: `//` cleans to `/`, but
`checkPath` returns `//`, which passes `removePath`'s test for `"/"`. With `--force` the unlink
of the empty name in the root directory fails with `os.ErrNotExist`, which is success, and the
tree is left as it was. Of all the spellings of the root, only `/` itself is refused. -/
theorem rm_double_slash_not_refused (root : MemNode) (force dashr : Bool) :
    clean "//" = clean "/" ∧ checkPath "//" = .ok "//" ∧ checkPath "/" = .ok "/" ∧
      removePath root "/" force dashr = .error .cannotDeleteRoot ∧
      removePath root "//" force dashr ≠ .error .cannotDeleteRoot ∧
      removePath (.directory [("a", .file [1])]) "//" true dashr =
        .ok (.directory [("a", .file [1])]) ∧
      ∀ p c, checkPath p = .ok c → clean p = "/" →
        (c = "/" ∧ removePath root c force dashr = .error .cannotDeleteRoot) ∨
          (c = "//" ∧ removePath root c force dashr ≠ .error .cannotDeleteRoot) := by
  refine ⟨by decide, rfl, rfl, by simp [removePath], ?_, ?_,
    fun p c h hroot => removePath_root_spellings h hroot root force dashr⟩
  · rw [removePath_double_slash]
    exact removeTrimmed_ne_cannotDeleteRoot root "/" force dashr
  · rw [removePath_double_slash]
    rfl

/-! ### `files rm` over its arguments -/

/-- The body of `filesRmCmd`'s loop for one argument: `checkPath`, then `removePath` on the tree
the arguments before it left. The tree after it, and the text of the error appended to `errs`. -/
def rmArg (force dashr : Bool) (root : MemNode) (arg : String) : MemNode × Option String :=
  match checkPath arg with
  | .error e => (root, some (arg ++ " is not a valid path: " ++ e))
  | .ok path =>
    match removePath root path force dashr with
    | .ok root' => (root', none)
    | .error e => (root, some (path ++ ": " ++ e.message))

/-- The loop of `filesRmCmd`: every argument in order, each on the tree the ones before it left,
with the error of each failed one appended to `errs`. -/
def rmLoop (force dashr : Bool) : MemNode → List String → List String → MemNode × List String
  | root, errs, [] => (root, errs)
  | root, errs, arg :: args =>
    rmLoop force dashr (rmArg force dashr root arg).1 (errs ++ (rmArg force dashr root arg).2.toList)
      args

/-- `for _, err = range errs { e := res.Emit(err.Error()); if e != nil { return e } }`: the
messages emitted and the error of the first `Emit` that fails, where `emit sent msg` is what
`res.Emit(msg)` returns after the messages `sent`. -/
def emitAll (emit : List String → String → Option String) (sent : List String) :
    List String → List String × Option String
  | [] => (sent, none)
  | msg :: msgs =>
    match emit sent msg with
    | some e => (sent, some e)
    | none => emitAll emit (sent ++ [msg]) msgs

/-- What `filesRmCmd` leaves. -/
structure RmOutcome where
  /-- The tree after the command. -/
  root : MemNode
  /-- The messages emitted, in order. -/
  emitted : List String
  /-- The error Run returns. -/
  error : Option String

/-- `filesRmCmd`'s Run after `cmdenv.GetNode`: the loop over the arguments, then, if any failed,
their messages emitted one by one and the error `can't remove some files`. -/
def filesRmCmd (emit : List String → String → Option String) (root : MemNode)
    (args : List String) (force dashr : Bool) : RmOutcome :=
  let (root', errs) := rmLoop force dashr root [] args
  if errs.length > 0 then
    match emitAll emit [] errs with
    | (sent, some e) => ⟨root', sent, some e⟩
    | (sent, none) => ⟨root', sent, some "can't remove some files"⟩
  else ⟨root', [], none⟩

/-! ### Every argument, each on the tree the ones before it left -/

/-- An argument fails on a tree: `checkPath` refuses it, or `removePath` refuses its checked
path there. -/
def Fails (force dashr : Bool) (root : MemNode) (arg : String) : Prop :=
  match checkPath arg with
  | .error _ => True
  | .ok path => ∃ e, removePath root path force dashr = .error e

/-- Each argument with the tree it is removed from: the tree the arguments before it left. -/
def removals (force dashr : Bool) : MemNode → List String → List (MemNode × String)
  | _, [] => []
  | root, arg :: args => (root, arg) :: removals force dashr (rmArg force dashr root arg).1 args

/-- The message of each argument that fails on the tree it is removed from, in argument order. -/
def rmMessages (force dashr : Bool) (root : MemNode) (args : List String) : List String :=
  (removals force dashr root args).filterMap fun p => (rmArg force dashr p.1 p.2).2

/-- The emitter takes every message, each after the ones before it. -/
def Accepts (emit : List String → String → Option String) (sent : List String) :
    List String → Prop
  | [] => True
  | msg :: msgs => emit sent msg = none ∧ Accepts emit (sent ++ [msg]) msgs

theorem rmArg_snd_isSome (force dashr : Bool) (root : MemNode) (arg : String) :
    (rmArg force dashr root arg).2.isSome ↔ Fails force dashr root arg := by
  unfold rmArg Fails
  cases checkPath arg with
  | error e => simp
  | ok path => cases hr : removePath root path force dashr <;> simp [hr]

theorem rmMessages_ne_nil (force dashr : Bool) (root : MemNode) (args : List String) :
    rmMessages force dashr root args ≠ [] ↔
      ∃ p ∈ removals force dashr root args, Fails force dashr p.1 p.2 := by
  simp [rmMessages, ← rmArg_snd_isSome, Option.isSome_iff_ne_none]

/-- The loop's invariant: after some arguments, the tree is the one they left and `errs` holds
the message of each that failed, in order. -/
theorem rmLoop_eq (force dashr : Bool) : ∀ (args : List String) (root : MemNode)
    (errs : List String),
    rmLoop force dashr root errs args =
      (args.foldl (fun t a => (rmArg force dashr t a).1) root,
        errs ++ rmMessages force dashr root args)
  | [], _, _ => by simp [rmLoop, rmMessages, removals]
  | arg :: args, root, errs => by
    simp only [rmLoop, rmLoop_eq force dashr args, rmMessages, removals, List.foldl_cons,
      List.filterMap_cons]
    cases (rmArg force dashr root arg).2 <;> simp

theorem emitAll_prefix (emit : List String → String → Option String) :
    ∀ (msgs sent : List String), (emitAll emit sent msgs).1 <+: sent ++ msgs
  | [], _ => by simp [emitAll]
  | msg :: msgs, sent => by
    rw [emitAll]
    split
    · exact List.prefix_append _ _
    · simpa using emitAll_prefix emit msgs (sent ++ [msg])

theorem emitAll_of_accepts {emit : List String → String → Option String} :
    ∀ {msgs sent : List String}, Accepts emit sent msgs → emitAll emit sent msgs = (sent ++ msgs, none)
  | [], _, _ => by simp [emitAll]
  | msg :: msgs, sent, ⟨hmsg, hmsgs⟩ => by simp [emitAll, hmsg, emitAll_of_accepts hmsgs]

/-- Where the emitter refuses a message, the messages before it are what was emitted, and its
error is the one returned. -/
theorem emitAll_refused (emit : List String → String → Option String) :
    ∀ (msgs sent : List String), (emitAll emit sent msgs).1 ≠ sent ++ msgs →
      ∃ msg, (emitAll emit sent msgs).1 ++ [msg] <+: sent ++ msgs ∧
        (emitAll emit sent msgs).2 = emit (emitAll emit sent msgs).1 msg ∧
        (emit (emitAll emit sent msgs).1 msg).isSome
  | [], _, h => absurd (by simp [emitAll]) h
  | msg :: msgs, sent, h => by
    rw [emitAll] at h ⊢
    cases he : emit sent msg with
    | some e => exact ⟨msg, by simp, by simp [he], by simp [he]⟩
    | none =>
      simp only [he] at h ⊢
      simpa using emitAll_refused emit msgs (sent ++ [msg]) (by simpa using h)

/-- The command, given the loop's invariant: the tree all arguments leave, and, when some
failed, their messages as far as the emitter takes them. -/
theorem filesRmCmd_eq (emit : List String → String → Option String) (root : MemNode)
    (args : List String) (force dashr : Bool) :
    filesRmCmd emit root args force dashr =
      if rmMessages force dashr root args = [] then
        ⟨args.foldl (fun t a => (rmArg force dashr t a).1) root, [], none⟩
      else
        ⟨args.foldl (fun t a => (rmArg force dashr t a).1) root,
          (emitAll emit [] (rmMessages force dashr root args)).1,
          some ((emitAll emit [] (rmMessages force dashr root args)).2.getD
            "can't remove some files")⟩ := by
  simp only [filesRmCmd, rmLoop_eq, List.nil_append]
  split_ifs with hlen hnil hnil
  · simp [hnil] at hlen
  · cases emitAll emit [] _ with
    | mk sent e => cases e <;> rfl
  · rfl
  · exact absurd (List.length_pos.2 hnil) hlen

/-- The tree `files rm` leaves: every argument removed in order, each on the tree the ones before
it left. -/
theorem filesRmCmd_root (emit : List String → String → Option String) (root : MemNode)
    (args : List String) (force dashr : Bool) :
    (filesRmCmd emit root args force dashr).root =
      args.foldl (fun t a => (rmArg force dashr t a).1) root := by
  rw [filesRmCmd_eq]
  split_ifs <;> rfl

/-- `files rm` removes every argument in order, each on the tree the ones before it left, and
goes on after a failure. The messages are one for each failed argument, in argument order. The
command returns an error exactly when an argument failed. Where the response emitter takes
every message, it emits them all and returns `can't remove some files`; otherwise it emits them
until the emitter refuses one, and that refusal's error is what it returns. -/
theorem filesRmCmd_removes_each (emit : List String → String → Option String) (root : MemNode)
    (args : List String) (force dashr : Bool) :
    (filesRmCmd emit root args force dashr).root =
        args.foldl (fun t a => (rmArg force dashr t a).1) root ∧
      (∀ p ∈ removals force dashr root args,
        ((rmArg force dashr p.1 p.2).2.isSome ↔ Fails force dashr p.1 p.2)) ∧
      ((filesRmCmd emit root args force dashr).error.isSome ↔
        ∃ p ∈ removals force dashr root args, Fails force dashr p.1 p.2) ∧
      (filesRmCmd emit root args force dashr).emitted <+: rmMessages force dashr root args ∧
      (Accepts emit [] (rmMessages force dashr root args) →
        (filesRmCmd emit root args force dashr).emitted = rmMessages force dashr root args ∧
          (rmMessages force dashr root args ≠ [] →
            (filesRmCmd emit root args force dashr).error = some "can't remove some files")) ∧
      ((filesRmCmd emit root args force dashr).emitted ≠ rmMessages force dashr root args →
        ∃ msg, (filesRmCmd emit root args force dashr).emitted ++ [msg] <+:
            rmMessages force dashr root args ∧
          (filesRmCmd emit root args force dashr).error =
            emit (filesRmCmd emit root args force dashr).emitted msg) := by
  have hfails := rmMessages_ne_nil force dashr root args
  refine ⟨?_, fun p _ => rmArg_snd_isSome force dashr p.1 p.2, ?_⟩
  all_goals rw [filesRmCmd_eq]; split_ifs with hnil
  · rfl
  · rfl
  -- no argument failed: nothing is emitted and nothing returned
  · rw [hnil] at hfails ⊢
    exact ⟨by simpa using hfails, List.nil_prefix, fun _ => ⟨rfl, fun h => absurd rfl h⟩,
      fun h => absurd rfl h⟩
  -- some failed: the emitter decides how many messages go out
  · refine ⟨by simpa using hfails.1 hnil, by simpa using emitAll_prefix emit _ [],
      fun h => by rw [emitAll_of_accepts h]; exact ⟨List.nil_append _, fun _ => rfl⟩, fun h => ?_⟩
    obtain ⟨msg, hpre, herr, hsome⟩ := emitAll_refused emit _ [] (by simpa using h)
    obtain ⟨e, he⟩ := Option.isSome_iff_exists.1 hsome
    exact ⟨msg, by simpa using hpre, by rw [herr, he]; rfl⟩

/-- With a response stream that takes one message and then fails, `files rm a /x` on an empty
MFS emits one message for its two failed arguments and returns the stream's error. -/
example : (filesRmCmd (fun sent _ => if sent = [] then none else some "closed") (.directory [])
      ["a", "/x"] false false).emitted =
        ["a is not a valid path: paths must start with a leading slash"] ∧
      (filesRmCmd (fun sent _ => if sent = [] then none else some "closed") (.directory [])
        ["a", "/x"] false false).error = some "closed" :=
  ⟨rfl, rfl⟩

end BockIpfs.FilesRm
