import BockIpfs.VirtualFs

/-!
# Reading back what `addFolder` and `addFile` wrote

`findNode` resolves a component to the first child of that name, whatever its type, while
`addFolder` continues into the first child that is a folder of that name and `addFile`
appends without looking. So a file named like a component shadows the folder `addFolder`
creates after it, and an older entry shadows the file `addFile` appends. The exact rule:
after `addFolder(root, p)` a prefix `q` of `p` resolves to a folder iff no non-empty prefix
of `q` resolved to a file before; after `addFile(root, p, cid)` into an existing folder, `p`
resolves to what it resolved to before, and otherwise to the new entry. `addFolder` is
idempotent for every tree and path.
-/

namespace BockIpfs.VirtualFsLookup

open VirtualFs

/-- Some non-empty prefix of `parts` resolves to a file under first-match lookup. -/
def hitsFile : List String → VfsNode → Bool
  | [], _ => false
  | _ :: _, .file .. => false
  | part :: parts, .folder _ children =>
    match children.find? (fun child => child.name == part) with
    | some next => !next.isFolder || hitsFile parts next
    | none => false

@[simp] theorem hitsFile_empty_folder (name : String) : ∀ parts : List String,
    hitsFile parts (.folder name []) = false
  | [] => rfl
  | _ :: _ => rfl

/-- After `addFolder`'s loop, a prefix of its path resolves to a folder exactly when no
non-empty prefix of it resolved to a file before. -/
theorem findNodeAt_addFolderAt_folder_iff : ∀ (parts qs : List String) (current : VfsNode),
    current.isFolder = true → qs <+: parts →
      ((∃ name children, findNodeAt qs (addFolderAt parts current) = some (.folder name children)) ↔
        hitsFile qs current = false)
  | parts, [], current, hcur, _ => by
    simp only [findNodeAt_nil, Option.some.injEq, hitsFile, iff_true]
    exact isFolder_iff.1 ((isFolder_addFolderAt parts current).trans hcur)
  | [], _ :: _, _, _, h => absurd h (by simp)
  | _ :: _, _ :: _, .file .., hcur, _ => by simp at hcur
  | part :: parts, q :: qs, .folder name children, _, h => by
    obtain ⟨rfl, hqs⟩ := List.cons_prefix_cons.1 h
    rcases first_match_cases (fun child => child.name == q) children with
      hnone | ⟨pre, c, post, rfl, hpre, hc⟩
    · -- no child of that name: the new empty folder is the match
      have hfresh := findNodeAt_addFolderAt_folder_iff parts qs (.folder q []) rfl hqs
      have hfind : children.find? (fun child => child.name == q) = none :=
        List.find?_eq_none.2 fun c hc => by simp [hnone c hc]
      have hnew : (children ++ [addFolderAt parts (.folder q [])]).find?
          (fun child => child.name == q) = some (addFolderAt parts (.folder q [])) :=
        find?_first hnone (by simp [name_addFolderAt])
      rw [addFolderAt, modifyFirst?_none fun c hc => isFolderNamed_false_of_name (hnone c hc)]
      simp only [Option.getD_none, findNodeAt_cons_folder, hitsFile, hfind, hnew,
        Option.some_bind]
      simpa using hfresh
    · have hpre' : ∀ y ∈ pre, isFolderNamed q y = false := fun y hy =>
        isFolderNamed_false_of_name (hpre y hy)
      have hname : c.name = q := by simpa using hc
      cases c with
      | folder cname cchildren =>
        -- the first child of that name is a folder: `addFolder` continues into it
        have hrest := findNodeAt_addFolderAt_folder_iff parts qs (.folder cname cchildren) rfl hqs
        rw [addFolderAt, modifyFirst?_first hpre' (by simpa [isFolderNamed] using hname)]
        simp only [Option.getD_some, findNodeAt_cons_folder, hitsFile, find?_first hpre hc,
          Option.some_bind, isFolder_folder, Bool.not_true, Bool.false_or]
        rw [find?_first hpre (by simpa [name_addFolderAt] using hname)]
        simpa using hrest
      | file fname cid timestamp =>
        -- the first child of that name is a file: it shadows whatever `addFolder` adds
        obtain ⟨rest, hrest⟩ : ∃ rest, (modifyFirst? (isFolderNamed q) (addFolderAt parts)
            (pre ++ VfsNode.file fname cid timestamp :: post)).getD
              (pre ++ VfsNode.file fname cid timestamp :: post ++
                [addFolderAt parts (.folder q [])]) = pre ++ .file fname cid timestamp :: rest := by
          have hfalse : ∀ y ∈ pre ++ [VfsNode.file fname cid timestamp],
              isFolderNamed q y = false := fun y hy => by
            rcases List.mem_append.1 hy with hy | hy
            · exact hpre' y hy
            · simp only [List.mem_singleton] at hy
              simp [hy, isFolderNamed]
          have hkeep : modifyFirst? (isFolderNamed q) (addFolderAt parts)
              (pre ++ [VfsNode.file fname cid timestamp] ++ post) =
                (modifyFirst? (isFolderNamed q) (addFolderAt parts) post).map
                  (pre ++ [VfsNode.file fname cid timestamp] ++ ·) :=
            modifyFirst?_append_of_false hfalse post
          simp only [List.append_assoc, List.singleton_append] at hkeep
          rw [hkeep]
          cases modifyFirst? (isFolderNamed q) (addFolderAt parts) post <;> simp
        simp only [addFolderAt, hrest, findNodeAt_cons_folder, hitsFile, find?_first hpre hc,
          Option.some_bind, isFolder_file, Bool.not_false, Bool.true_or]
        cases qs <;> simp

/-- Pushing along a path that reaches a folder appends to that folder's children. -/
theorem findNodeAt_pushAt (entry : VfsNode) : ∀ (dir : List String) (current : VfsNode)
    (name : String) (children : List VfsNode),
    findNodeAt dir current = some (.folder name children) →
      findNodeAt dir (pushAt entry dir current) = some (.folder name (children ++ [entry]))
  | [], .folder _ _, _, _, h => by cases h; rfl
  | [], .file .., _, _, h => by cases h
  | _ :: _, .file .., _, _, h => by cases h
  | part :: parts, .folder _ kids, name, children, h => by
    rw [findNodeAt_cons_folder, Option.bind_eq_some] at h
    obtain ⟨c, hc, hcn⟩ := h
    rcases first_match_cases (fun child => child.name == part) kids with
      hnone | ⟨pre, c', post, rfl, hpre, hc'⟩
    · have hfind : kids.find? (fun child => child.name == part) = none :=
        List.find?_eq_none.2 fun c hc => by simp [hnone c hc]
      rw [hfind] at hc
      cases hc
    · rw [find?_first hpre hc'] at hc
      cases hc
      have hname : (pushAt entry parts c).name == part := by rwa [name_pushAt]
      simp only [pushAt, modifyFirst?_first hpre hc', Option.getD_some, findNodeAt_cons_folder,
        find?_first hpre hname, Option.some_bind]
      exact findNodeAt_pushAt entry parts c name children hcn

/-- Reading back after an insertion. After `addFolder(root, p)` on a folder root, a prefix `q`
of `p`'s components resolves to a folder exactly when no non-empty prefix of `q` resolved to a
file before the call. After `addFile(root, p, cid)` whose target folder exists, `p` resolves to
the node it resolved to before the call if there was one, and otherwise to the new file entry. -/
theorem addFolder_addFile_read_back (root : VfsNode) (hroot : root.isFolder = true)
    (p q cid timestamp : String) :
    (pathParts q <+: pathParts p →
      ((∃ name children, getByPath (addFolder root p) q = some (.folder name children)) ↔
        hitsFile (pathParts q) root = false)) ∧
    (∀ name children, findNodeAt (pathParts p).dropLast root = some (.folder name children) →
      getByPath (addFile root p cid timestamp) p =
        (getByPath root p).or
          ((pathParts p).getLast?.map fun fileName => .file fileName cid timestamp)) := by
  refine ⟨findNodeAt_addFolderAt_folder_iff _ _ root hroot, fun name children hdir => ?_⟩
  rcases List.eq_nil_or_concat (pathParts p) with h | ⟨dir, fileName, h⟩
  · simp [addFile_of_pathParts_eq_nil h, getByPath, findNode, h]
  · rw [List.concat_eq_append] at h
    rw [h, List.dropLast_concat] at hdir
    simp only [getByPath, findNode, addFile_eq h, h, findNodeAt_append,
      findNodeAt_pushAt _ dir root name children hdir, hdir, Option.some_bind,
      findNodeAt_cons_folder, List.find?_append, List.getLast?_concat, Option.map_some']
    cases List.find? (fun child => child.name == fileName) children <;> simp

/-- First-match lookup shadows entries: a file named like the folder being created hides the
folder, and an older entry hides the file just added under its name. -/
theorem shadowed_entries :
    getByPath (addFolder (.folder "/" [.file "a" "QmOld" "t0"]) "/a") "/a" =
      some (.file "a" "QmOld" "t0") ∧
    getByPath (addFile (.folder "/" [.file "a.txt" "QmOld" "t0"]) "/a.txt" "QmNew" "t1")
      "/a.txt" = some (.file "a.txt" "QmOld" "t0") := by
  decide

/-- Read-back on the manage script's first call, from an empty root. -/
theorem read_back_manage_script :
    createVirtualFs.isFolder = true ∧
      ∃ name children, getByPath (addFolder createVirtualFs "/Documents/Projects") "/Documents" =
        some (.folder name children) :=
  ⟨rfl, ((addFolder_addFile_read_back createVirtualFs rfl "/Documents/Projects" "/Documents"
    "" "").1 (by decide)).2 (by decide)⟩

/-- A second `addFolder` on the same path finds every folder the first one found or created. -/
theorem modifyFirst?_idem {α : Type} {p : α → Bool} {f : α → α}
    (hp : ∀ x, p x = true → p (f x) = true) (hf : ∀ x, f (f x) = f x)
    (d : α) (hd : p (f d) = true) (xs : List α) :
    modifyFirst? p f ((modifyFirst? p f xs).getD (xs ++ [f d])) =
      some ((modifyFirst? p f xs).getD (xs ++ [f d])) := by
  rcases first_match_cases p xs with hnone | ⟨pre, x, post, rfl, hpre, hx⟩
  · rw [modifyFirst?_none hnone, Option.getD_none, modifyFirst?_first hnone hd, hf]
  · rw [modifyFirst?_first hpre hx, Option.getD_some, modifyFirst?_first hpre (hp x hx), hf]

theorem addFolderAt_idem : ∀ (parts : List String) (current : VfsNode),
    addFolderAt parts (addFolderAt parts current) = addFolderAt parts current
  | [], _ => rfl
  | _ :: _, .file .. => rfl
  | part :: parts, .folder name children => by
    have hp : ∀ c, isFolderNamed part c = true → isFolderNamed part (addFolderAt parts c) = true :=
      fun c hc => by simpa [isFolderNamed, name_addFolderAt, isFolder_addFolderAt] using hc
    have hd : isFolderNamed part (addFolderAt parts (.folder part [])) = true := by
      simp [isFolderNamed, name_addFolderAt, isFolder_addFolderAt]
    rw [addFolderAt, addFolderAt, modifyFirst?_idem hp (addFolderAt_idem parts) _ hd, Option.getD_some]

/-- `addFolder` is idempotent: a second call on the same path creates no folder. -/
theorem addFolder_idempotent (root : VfsNode) (p : String) :
    addFolder (addFolder root p) p = addFolder root p :=
  addFolderAt_idem _ root

end BockIpfs.VirtualFsLookup
