import BockIpfs.VirtualFsLookup
import Mathlib.Data.List.Nodup

/-!
# Sibling names under `addFolder` and `addFile`

No code of the list-based file system keeps sibling names distinct: `addFile` appends an entry
whatever is already there, and `addFolder` appends a folder next to a file of the same name.
What the insertions do keep, from every tree, is that no folder has two folder children of the
same name, since `addFolder` reuses the first folder of a name before it creates one. Full
uniqueness is kept by `addFolder` when no prefix of its path resolves to a file, and by
`addFile` when its path resolves to nothing yet; in a tree with unique sibling names every
entry is reachable by its name path under first-match lookup.
-/

namespace BockIpfs.VirtualFsNames

open VirtualFs VirtualFsLookup

/-- The children whose names must be distinct: all of them, or only the folders. -/
def counted (foldersOnly : Bool) (child : VfsNode) : Bool := !foldersOnly || child.isFolder

mutual
/-- No folder of the tree has two counted children with the same name. -/
def NoDupNames (foldersOnly : Bool) : VfsNode → Prop
  | .file .. => True
  | .folder _ children =>
    ((children.filter (counted foldersOnly)).map VfsNode.name).Nodup ∧
      NoDupNamesList foldersOnly children
/-- `NoDupNames` for every node of a child array. -/
def NoDupNamesList (foldersOnly : Bool) : List VfsNode → Prop
  | [] => True
  | c :: cs => NoDupNames foldersOnly c ∧ NoDupNamesList foldersOnly cs
end

/-- No folder has two children with the same name. -/
def UniqueNames : VfsNode → Prop := NoDupNames false

/-- No folder has two folder children with the same name. -/
def FolderNamesUnique : VfsNode → Prop := NoDupNames true

variable {foldersOnly : Bool}

@[simp] theorem noDupNames_file (name cid timestamp : String) :
    NoDupNames foldersOnly (.file name cid timestamp) := trivial

/-- Counting every child filters nothing out. -/
theorem filter_counted_false (cs : List VfsNode) : cs.filter (counted false) = cs :=
  List.filter_eq_self.2 fun _ _ => rfl

theorem noDupNamesList_iff : ∀ {cs : List VfsNode},
    NoDupNamesList foldersOnly cs ↔ ∀ c ∈ cs, NoDupNames foldersOnly c
  | [] => by simp [NoDupNamesList]
  | c :: cs => by simp [NoDupNamesList, noDupNamesList_iff]

theorem noDupNames_folder_iff {name : String} {cs : List VfsNode} :
    NoDupNames foldersOnly (.folder name cs) ↔
      ((cs.filter (counted foldersOnly)).map VfsNode.name).Nodup ∧
        ∀ c ∈ cs, NoDupNames foldersOnly c := by
  rw [NoDupNames, noDupNamesList_iff]

theorem noDupNames_empty (name : String) : NoDupNames foldersOnly (.folder name []) := by
  simp [noDupNames_folder_iff]

theorem counted_eq {a b : VfsNode} (h : a.isFolder = b.isFolder) :
    counted foldersOnly a = counted foldersOnly b := by
  simp [counted, h]

/-- Replacing one child by a node of the same name and type keeps a folder duplicate-free. -/
theorem noDupNames_replace {name : String} {pre post : List VfsNode} {c c' : VfsNode}
    (hname : c'.name = c.name) (htype : c'.isFolder = c.isFolder)
    (hc' : NoDupNames foldersOnly c')
    (h : NoDupNames foldersOnly (.folder name (pre ++ c :: post))) :
    NoDupNames foldersOnly (.folder name (pre ++ c' :: post)) := by
  rw [noDupNames_folder_iff] at h ⊢
  refine ⟨?_, fun d hd => ?_⟩
  · have hmap : ((pre ++ c' :: post).filter (counted foldersOnly)).map VfsNode.name =
        ((pre ++ c :: post).filter (counted foldersOnly)).map VfsNode.name := by
      simp only [List.filter_append, List.filter_cons, counted_eq htype]
      split <;> simp [hname]
    exact hmap ▸ h.1
  · rcases List.mem_append.1 hd with hd | hd
    · exact h.2 d (by simp [hd])
    · rcases List.mem_cons.1 hd with rfl | hd
      · exact hc'
      · exact h.2 d (by simp [hd])

/-- Appending a child of a fresh name keeps a folder duplicate-free. -/
theorem noDupNames_append {name : String} {cs : List VfsNode} {d : VfsNode}
    (h : NoDupNames foldersOnly (.folder name cs)) (hd : NoDupNames foldersOnly d)
    (hfresh : counted foldersOnly d = true →
      ∀ c ∈ cs, counted foldersOnly c = true → c.name ≠ d.name) :
    NoDupNames foldersOnly (.folder name (cs ++ [d])) := by
  rw [noDupNames_folder_iff] at h ⊢
  refine ⟨?_, fun c hc => ?_⟩
  · rw [List.filter_append, List.map_append, List.nodup_append]
    refine ⟨h.1, by cases hd' : counted foldersOnly d <;> simp [List.filter_cons, hd'], ?_⟩
    cases hd' : counted foldersOnly d
    · simp [List.filter_cons, hd']
    · simp only [List.filter_cons, hd', if_true, List.filter_nil, List.map_cons, List.map_nil]
      simpa [List.disjoint_singleton, List.mem_map, List.mem_filter] using
        fun c hc hk => hfresh hd' c hc hk
  · rcases List.mem_append.1 hc with hc | hc
    · exact h.2 c hc
    · simp only [List.mem_singleton] at hc
      exact hc ▸ hd

/-- `addFolder`'s loop keeps folder names unique, from every tree. -/
theorem folderNamesUnique_addFolderAt : ∀ (parts : List String) (current : VfsNode),
    FolderNamesUnique current → FolderNamesUnique (addFolderAt parts current)
  | [], _, h => h
  | _ :: _, .file .., h => h
  | part :: parts, .folder name children, h => by
    rcases first_match_cases (isFolderNamed part) children with
      hnone | ⟨pre, c, post, rfl, hpre, hc⟩
    · rw [addFolderAt, modifyFirst?_none hnone, Option.getD_none]
      refine noDupNames_append h
        (folderNamesUnique_addFolderAt parts _ (noDupNames_empty part)) fun _ c hc hk => ?_
      have := hnone c hc
      simp_all [isFolderNamed, counted, name_addFolderAt]
    · rw [addFolderAt, modifyFirst?_first hpre hc, Option.getD_some]
      exact noDupNames_replace (name_addFolderAt parts c) (isFolder_addFolderAt parts c)
        (folderNamesUnique_addFolderAt parts c
          ((noDupNames_folder_iff.1 h).2 c (by simp))) h

/-- `addFolder`'s loop keeps all sibling names unique when no prefix of its path resolves to
a file. -/
theorem uniqueNames_addFolderAt : ∀ (parts : List String) (current : VfsNode),
    hitsFile parts current = false → UniqueNames current → UniqueNames (addFolderAt parts current)
  | [], _, _, h => h
  | _ :: _, .file .., _, h => h
  | part :: parts, .folder name children, hhit, h => by
    rcases first_match_cases (fun child => child.name == part) children with
      hnone | ⟨pre, c, post, rfl, hpre, hc⟩
    · rw [addFolderAt, modifyFirst?_none fun c hc => isFolderNamed_false_of_name (hnone c hc),
        Option.getD_none]
      refine noDupNames_append h
        (uniqueNames_addFolderAt parts _ (hitsFile_empty_folder part parts)
          (noDupNames_empty part)) fun _ c hc _ => ?_
      simpa [name_addFolderAt] using hnone c hc
    · simp only [hitsFile, find?_first hpre hc, Bool.or_eq_false_iff, Bool.not_eq_false'] at hhit
      have hfolder : isFolderNamed part c = true := by simp_all [isFolderNamed]
      rw [addFolderAt, modifyFirst?_first (fun y hy => isFolderNamed_false_of_name (hpre y hy))
        hfolder, Option.getD_some]
      exact noDupNames_replace (name_addFolderAt parts c) (isFolder_addFolderAt parts c)
        (uniqueNames_addFolderAt parts c hhit.2 ((noDupNames_folder_iff.1 h).2 c (by simp))) h

/-- A push keeps the counted names unique when the target folder holds no counted child of
the new entry's name. -/
theorem noDupNames_pushAt (entry : VfsNode) (hentry : NoDupNames foldersOnly entry) :
    ∀ (dir : List String) (current : VfsNode),
    (∀ name cs, findNodeAt dir current = some (.folder name cs) →
      counted foldersOnly entry = true →
        ∀ c ∈ cs, counted foldersOnly c = true → c.name ≠ entry.name) →
    NoDupNames foldersOnly current → NoDupNames foldersOnly (pushAt entry dir current)
  | [], .folder name cs, hfresh, h => noDupNames_append h hentry (hfresh name cs rfl)
  | [], .file .., _, h => h
  | _ :: _, .file .., _, h => h
  | part :: parts, .folder name children, hfresh, h => by
    rcases first_match_cases (fun child => child.name == part) children with
      hnone | ⟨pre, c, post, rfl, hpre, hc⟩
    · rw [pushAt, modifyFirst?_none hnone, Option.getD_none]
      exact h
    · rw [pushAt, modifyFirst?_first hpre hc, Option.getD_some]
      refine noDupNames_replace (name_pushAt entry parts c) (isFolder_pushAt entry parts c)
        (noDupNames_pushAt entry hentry parts c (fun n cs hn => hfresh n cs ?_)
          ((noDupNames_folder_iff.1 h).2 c (by simp))) h
      simp [find?_first hpre hc, hn]

/-- `addFile` keeps the counted names unique when its folder holds no counted child of the
file's name. -/
theorem noDupNames_addFile {root : VfsNode} {p cid timestamp : String}
    (hfresh : ∀ dir fileName, pathParts p = dir ++ [fileName] → ∀ name cs,
      findNodeAt dir root = some (.folder name cs) →
        counted foldersOnly (.file fileName cid timestamp) = true →
          ∀ c ∈ cs, counted foldersOnly c = true → c.name ≠ fileName)
    (h : NoDupNames foldersOnly root) : NoDupNames foldersOnly (addFile root p cid timestamp) := by
  rcases List.eq_nil_or_concat (pathParts p) with hp | ⟨dir, fileName, hp⟩
  · rwa [addFile_of_pathParts_eq_nil hp]
  · rw [List.concat_eq_append] at hp
    rw [addFile_eq hp]
    exact noDupNames_pushAt _ (noDupNames_file _ _ _) dir root (hfresh dir fileName hp) h

/-- Unique names propagate to every node a path resolves to. -/
theorem noDupNames_findNodeAt : ∀ {parts : List String} {current n : VfsNode},
    NoDupNames foldersOnly current → findNodeAt parts current = some n → NoDupNames foldersOnly n
  | [], _, _, h, rfl => h
  | _ :: _, .file .., _, _, hn => by simp at hn
  | part :: parts, .folder name children, n, h, hn => by
    rw [findNodeAt_cons_folder, Option.bind_eq_some] at hn
    obtain ⟨c, hc, hcn⟩ := hn
    exact noDupNames_findNodeAt ((noDupNames_folder_iff.1 h).2 c (List.mem_of_find?_eq_some hc)) hcn

/-- In a list of distinct names, first-match lookup of a member's name finds that member. -/
theorem find?_name_of_nodup : ∀ {cs : List VfsNode} {c : VfsNode},
    (cs.map VfsNode.name).Nodup → c ∈ cs → cs.find? (fun child => child.name == c.name) = some c
  | d :: cs, c, hnd, hc => by
    rw [List.map_cons, List.nodup_cons] at hnd
    rcases List.mem_cons.1 hc with rfl | hc
    · simp
    · have hne : d.name ≠ c.name := fun he => hnd.1 (he ▸ List.mem_map_of_mem _ hc)
      rw [List.find?_cons_of_neg _ (by simpa using hne)]
      exact find?_name_of_nodup hnd.2 hc

/-- Sibling names under the two insertions. Both keep folder names unique among siblings, from
every tree. `addFolder(root, p)` keeps all sibling names unique when no non-empty prefix of `p`
resolves to a file, and `addFile(root, p, cid)` does when `p` resolves to nothing yet. With
unique sibling names, every child of a folder that a path reaches is reachable by that path
extended with the child's name. -/
theorem sibling_names_after_insertions (root : VfsNode) (p cid timestamp : String) :
    (FolderNamesUnique root →
      FolderNamesUnique (addFolder root p) ∧ FolderNamesUnique (addFile root p cid timestamp)) ∧
    (UniqueNames root → hitsFile (pathParts p) root = false → UniqueNames (addFolder root p)) ∧
    (UniqueNames root → getByPath root p = none →
      UniqueNames (addFile root p cid timestamp)) ∧
    (UniqueNames root → ∀ qs name children c, findNodeAt qs root = some (.folder name children) →
      c ∈ children → findNodeAt (qs ++ [c.name]) root = some c) := by
  refine ⟨fun h => ⟨folderNamesUnique_addFolderAt _ root h, ?_⟩,
    fun h hhit => uniqueNames_addFolderAt _ root hhit h, fun h hnone => ?_,
    fun h qs name children c hq hc => ?_⟩
  · exact noDupNames_addFile (fun _ _ _ _ _ _ hk => by simp [counted] at hk) h
  · refine noDupNames_addFile (fun dir fileName hp n cs hn _ c hc _ he => ?_) h
    simp only [getByPath, findNode, hp, findNodeAt_append, hn, Option.some_bind,
      findNodeAt_cons_folder, Option.bind_eq_none, findNodeAt_nil] at hnone
    cases hf : cs.find? fun child => child.name == fileName with
    | none => exact List.find?_eq_none.1 hf c hc (by simp [he])
    | some a => exact Option.noConfusion (hnone a hf)
  · have hnd := noDupNames_findNodeAt h hq
    rw [noDupNames_folder_iff] at hnd
    have hnodup : (children.map VfsNode.name).Nodup := by
      simpa only [filter_counted_false] using hnd.1
    rw [findNodeAt_append, hq, Option.some_bind, findNodeAt_cons_folder,
      find?_name_of_nodup hnodup hc]
    rfl

/-- The manage script's first call keeps the empty root's sibling names unique. -/
theorem manage_script_keeps_names :
    UniqueNames createVirtualFs ∧ hitsFile (pathParts "/Documents/Projects") createVirtualFs = false ∧
      UniqueNames (addFolder createVirtualFs "/Documents/Projects") :=
  ⟨noDupNames_empty "/", by decide,
    (sibling_names_after_insertions createVirtualFs "/Documents/Projects" "" "").2.1
      (noDupNames_empty "/") (by decide)⟩

/-- Uploading a file whose name is taken, or creating a folder named like a file, leaves two
siblings of one name. -/
theorem duplicate_siblings :
    ¬UniqueNames (addFile (.folder "/" [.file "a.txt" "QmOld" "t0"]) "/a.txt" "QmNew" "t1") ∧
      ¬UniqueNames (addFolder (.folder "/" [.file "a" "QmOld" "t0"]) "/a") := by
  have hfile : addFile (.folder "/" [.file "a.txt" "QmOld" "t0"]) "/a.txt" "QmNew" "t1" =
      .folder "/" [.file "a.txt" "QmOld" "t0", .file "a.txt" "QmNew" "t1"] := by decide
  have hfolder : addFolder (.folder "/" [.file "a" "QmOld" "t0"]) "/a" =
      .folder "/" [.file "a" "QmOld" "t0", .folder "a" []] := by decide
  simp [hfile, hfolder, UniqueNames, NoDupNames, filter_counted_false]

end BockIpfs.VirtualFsNames
