import BockIpfs.Paths

/-!
# `checkPath` and the target of `files cp`

`checkPath` accepts an absolute path, cleans it with `path.Clean` and puts back a trailing
slash the argument had. `files cp` trims the slashes off the checked source and, when the
checked destination ends in `/`, appends the source's `path.Base`; `mfs.PutNode` then splits
the destination into the directory and the entry name it attaches. For every source that does
not clean to `/`, that name is the last element of the cleaned source: non-empty, free of `/`,
and neither `.` nor `..`. A source that cleans to `/` trims to the empty string, whose base is
`.`, so the entry is attached under the name `.`.
-/

namespace BockIpfs.FilesPath

open Paths

/-- `checkPath(p)`: refuse an empty or relative path, clean it, and keep a trailing slash. -/
def checkPath (p : String) : Except String String :=
  if p = "" then .error "paths must not be empty"
  else if p.toList.head? ≠ some '/' then .error "paths must start with a leading slash"
  else
    let cleaned := clean p
    .ok (if p.toList.getLast? = some '/' ∧ p ≠ "/" then cleaned ++ "/" else cleaned)

/-- The source and destination `files cp` computes from its two arguments before resolving the
source: the checked source without trailing slashes, and the checked destination, extended by
the source's base name when it ends in `/`. -/
def filesCpTarget (source dest : String) : Except String (String × String) := do
  let src ← checkPath source
  let src := trimRightSlash src
  let dst ← checkPath dest
  let dst := if dst.toList.getLast? = some '/' then dst ++ base src else dst
  return (src, dst)

/-- The directory and entry name `mfs.PutNode` attaches a node under: `path.Split` of the
target, refusing an empty name. -/
def putNodeTarget (path : String) : Except String (String × String) :=
  let (dir, name) := split path
  if name = "" then .error "cannot create file with empty name" else .ok (dir, name)

/-- What `checkPath` accepts, and what it returns for it. -/
theorem checkPath_eq_ok {p c : String} :
    checkPath p = .ok c ↔ p.toList.head? = some '/' ∧
      c = if p.toList.getLast? = some '/' ∧ p ≠ "/" then clean p ++ "/" else clean p := by
  unfold checkPath
  by_cases hp : p = ""
  · subst hp
    simp
  · by_cases hr : p.toList.head? = some '/'
    · simp only [hp, hr, if_false, ne_eq, not_true_eq_false, Except.ok.injEq, true_and]
      exact eq_comm
    · have hr' : ¬p.data.head? = some '/' := hr
      simp [hp, hr']

/-- A checked path trims to the cleaned path, or to nothing when that is the root. -/
theorem trimRightSlash_checkPath {p c : String} (h : checkPath p = .ok c) :
    trimRightSlash c = if cleanStack p = [] then "" else clean p := by
  obtain ⟨hr, rfl⟩ := checkPath_eq_ok.1 h
  have hclean : trimRightSlash (clean p) = if cleanStack p = [] then "" else clean p := by
    rw [clean_of_rooted hr]
    split_ifs with hs
    · rw [hs]
      exact trimRightSlash_slash
    · exact trimRightSlash_of_getLast? (getLast?_rootedPath hs (validElem_cleanStack p))
  split_ifs at hclean ⊢ <;> simp_all [trimRightSlash_append_slash]

/-- `files cp` into a directory. When the checked destination ends in `/`, the node is attached
at the destination followed by `path.Base` of the trimmed, checked source. For a source that
does not clean to `/`, `mfs.PutNode` attaches it in that directory under a name that is
non-empty, free of `/`, neither `.` nor `..`, and the last element of the cleaned source; for a
source that cleans to `/`, the name is `.`. -/
theorem cp_into_directory_entry {source dest src dst dir : String}
    (hcp : filesCpTarget source dest = .ok (src, dst)) (hdir : checkPath dest = .ok dir)
    (hslash : dir.toList.getLast? = some '/') :
    (∃ checked, checkPath source = .ok checked ∧ src = trimRightSlash checked) ∧
    dst = dir ++ base src ∧
    (clean source ≠ "/" →
      putNodeTarget dst = .ok (dir, base src) ∧ base src ≠ "" ∧ '/' ∉ (base src).toList ∧
        base src ≠ "." ∧ base src ≠ ".." ∧ (elements (clean source)).getLast? = some (base src)) ∧
    (clean source = "/" → base src = ".") := by
  cases hsrc : checkPath source with
  | error e =>
    simp [filesCpTarget, hsrc, bind, Except.bind] at hcp
  | ok checked =>
    simp only [filesCpTarget, hsrc, hdir, bind, Except.bind, pure, Except.pure] at hcp
    rw [if_pos hslash] at hcp
    obtain ⟨rfl, rfl⟩ : trimRightSlash checked = src ∧ dir ++ base (trimRightSlash checked) = dst := by
      simpa using hcp
    have hr := (checkPath_eq_ok.1 hsrc).1
    have hvalid := validElem_cleanStack source
    refine ⟨⟨checked, rfl, rfl⟩, rfl, fun hne => ?_, fun heq => ?_⟩
    · have hs : cleanStack source ≠ [] := fun hs => hne (by rw [clean_of_rooted hr, hs]; rfl)
      obtain ⟨init, last, hil⟩ := (List.eq_nil_or_concat (cleanStack source)).resolve_left hs
      rw [List.concat_eq_append] at hil
      rw [hil] at hvalid
      obtain ⟨hlne, hlslash, hldot, hldots⟩ := hvalid last (by simp)
      have hbase : base (trimRightSlash checked) = last := by
        rw [trimRightSlash_checkPath hsrc, if_neg hs, clean_of_rooted hr, hil,
          base_rootedPath init last hvalid]
      rw [hbase]
      refine ⟨?_, fun h => hlne (by rw [h]; rfl), hlslash, hldot, hldots, ?_⟩
      · simp only [putNodeTarget, split_append hslash hlslash]
        rw [if_neg fun h => hlne (by rw [h]; rfl)]
      · rw [clean_of_rooted hr, hil, elements_rootedPath (by simp) fun e he => (hvalid e he).2.1]
        rw [← List.cons_append, List.getLast?_concat]
    · have hs : cleanStack source = [] := by
        by_contra hs
        exact rootedPath_ne_slash hs hvalid (by rw [← clean_of_rooted hr, heq])
      rw [trimRightSlash_checkPath hsrc, if_pos hs]
      rfl

/-- Copying `/ipfs/QmX` into `/docs/` attaches it in `/docs/` under the name `QmX`. -/
theorem cp_ipfs_path_into_directory :
    putNodeTarget "/docs/QmX" = .ok ("/docs/", base "/ipfs/QmX") ∧ base "/ipfs/QmX" = "QmX" :=
  ⟨((cp_into_directory_entry (show filesCpTarget "/ipfs/QmX" "/docs/" = .ok ("/ipfs/QmX", "/docs/QmX")
      from rfl) (show checkPath "/docs/" = .ok "/docs/" from rfl) rfl).2.2.1 (by decide)).1,
    by decide⟩

/-- Copying the root into `/x/` attaches it at `/x/.`, under the name `.`: the base of the
trimmed source `""` is `.`. -/
theorem cp_root_into_directory :
    filesCpTarget "/" "/x/" = .ok ("", "/x/.") ∧ putNodeTarget "/x/." = .ok ("/x/", ".") := by
  constructor <;> rfl

end BockIpfs.FilesPath
