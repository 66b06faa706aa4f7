import BockIpfs.Paths

/-!
# The list-based virtual file system

`utils/virtualFs.ts` keeps the drive's index as a JSON tree of `VfsNode`s. A folder holds an
ordered child array, `findNode` takes the first child of a given name, and `addFolder` and
`addFile` mutate the tree in place and return it. Trees come from `JSON.parse` or from these
functions, so no node is shared and an in-place mutation is a functional update along one
path. The clock reading of `new Date().toISOString()` is an argument of `addFile`.
-/

namespace BockIpfs.VirtualFs

open Paths

/-- `VfsNode`: a file with its CID and upload time, or a folder with its ordered children. -/
inductive VfsNode where
  | file (name cid timestamp : String)
  | folder (name : String) (children : List VfsNode)
  deriving Repr

mutual
/-- Structural equality of trees, decided child by child. -/
def VfsNode.decEq : (a b : VfsNode) → Decidable (a = b)
  | .file n c t, .file n' c' t' =>
    if h : n = n' ∧ c = c' ∧ t = t' then isTrue (by obtain ⟨rfl, rfl, rfl⟩ := h; rfl)
    else isFalse (by rintro ⟨⟩; exact h ⟨rfl, rfl, rfl⟩)
  | .file .., .folder .. => isFalse (by rintro ⟨⟩)
  | .folder .., .file .. => isFalse (by rintro ⟨⟩)
  | .folder n cs, .folder n' cs' =>
    match VfsNode.decEqList cs cs' with
    | isTrue hc =>
      if hn : n = n' then isTrue (by subst hn hc; rfl) else isFalse (by rintro ⟨⟩; exact hn rfl)
    | isFalse hc => isFalse (by rintro ⟨⟩; exact hc rfl)
/-- Structural equality of child arrays. -/
def VfsNode.decEqList : (a b : List VfsNode) → Decidable (a = b)
  | [], [] => isTrue rfl
  | [], _ :: _ => isFalse (by rintro ⟨⟩)
  | _ :: _, [] => isFalse (by rintro ⟨⟩)
  | a :: as, b :: bs =>
    match VfsNode.decEq a b, VfsNode.decEqList as bs with
    | isTrue h1, isTrue h2 => isTrue (by subst h1 h2; rfl)
    | isFalse h1, _ => isFalse (by rintro ⟨⟩; exact h1 rfl)
    | _, isFalse h2 => isFalse (by rintro ⟨⟩; exact h2 rfl)
end

instance : DecidableEq VfsNode := VfsNode.decEq

/-- `node.name`. -/
def VfsNode.name : VfsNode → String
  | .file name .. => name
  | .folder name _ => name

/-- `node.type === 'folder'`. -/
def VfsNode.isFolder : VfsNode → Bool
  | .file .. => false
  | .folder .. => true

@[simp] theorem name_file (name cid timestamp : String) :
    (VfsNode.file name cid timestamp).name = name := rfl

@[simp] theorem name_folder (name : String) (children : List VfsNode) :
    (VfsNode.folder name children).name = name := rfl

@[simp] theorem isFolder_file (name cid timestamp : String) :
    (VfsNode.file name cid timestamp).isFolder = false := rfl

@[simp] theorem isFolder_folder (name : String) (children : List VfsNode) :
    (VfsNode.folder name children).isFolder = true := rfl

/-- `createVirtualFs()`: the empty root folder `/`. -/
def createVirtualFs : VfsNode := .folder "/" []

/-- `path.split('/').filter(Boolean)`: the non-empty `/`-separated components of a path. -/
def pathParts (path : String) : List String :=
  (elements path).filter (· != "")

/-- The loop of `findNode` from `current`: enter the first child of each name in turn. -/
def findNodeAt : List String → VfsNode → Option VfsNode
  | [], current => some current
  | _ :: _, .file .. => none
  | part :: parts, .folder _ children =>
    match children.find? (fun child => child.name == part) with
    | some next => findNodeAt parts next
    | none => none

/-- `findNode(path, root)`. -/
def findNode (path : String) (root : VfsNode) : Option VfsNode :=
  findNodeAt (pathParts path) root

/-- `getByPath(root, path)`. -/
def getByPath (root : VfsNode) (path : String) : Option VfsNode :=
  findNode path root

/-- Replace the first element satisfying `p` by its image under `f`; `none` when there is none.
This is a JavaScript `find` followed by a mutation of the element it returns. -/
def modifyFirst? {α : Type} (p : α → Bool) (f : α → α) : List α → Option (List α)
  | [] => none
  | x :: xs => if p x then some (f x :: xs) else (modifyFirst? p f xs).map (x :: ·)

/-- `child.name === part && child.type === 'folder'`, the match `addFolder` looks for. -/
def isFolderNamed (part : String) (child : VfsNode) : Bool :=
  child.name == part && child.isFolder

/-- The loop of `addFolder` from `current`: stop at a file; otherwise continue into the first
child that is a folder of this name, pushing a new empty folder when there is none. -/
def addFolderAt : List String → VfsNode → VfsNode
  | [], current => current
  | _ :: _, current@(.file ..) => current
  | part :: parts, .folder name children =>
    .folder name ((modifyFirst? (isFolderNamed part) (addFolderAt parts) children).getD
      (children ++ [addFolderAt parts (.folder part [])]))

/-- `addFolder(root, path)`. -/
def addFolder (root : VfsNode) (path : String) : VfsNode :=
  addFolderAt (pathParts path) root

/-- `folder.children.push(entry)` on the node that `findNodeAt parts` reaches, done in place:
the same first-match walk, ending with a push at the end of the child array. -/
def pushAt (entry : VfsNode) : List String → VfsNode → VfsNode
  | [], .folder name children => .folder name (children ++ [entry])
  | [], current@(.file ..) => current
  | _ :: _, current@(.file ..) => current
  | part :: parts, .folder name children =>
    .folder name ((modifyFirst? (fun child => child.name == part) (pushAt entry parts)
      children).getD children)

/-- `addFile(root, path, cid)` with `timestamp` the clock reading: pop the file name, look up
the folder `'/' + parts.join('/')` and push the new file entry into it when it is a folder. -/
def addFile (root : VfsNode) (path cid timestamp : String) : VfsNode :=
  let parts := pathParts path
  match parts.getLast? with
  | none => root
  | some fileName =>
    let folderPath := "/" ++ "/".intercalate parts.dropLast
    match findNode folderPath root with
    | some (.folder ..) => pushAt (.file fileName cid timestamp) (pathParts folderPath) root
    | _ => root

/-! ### The first element matching a predicate -/

section FirstMatch

variable {α : Type} {p : α → Bool} {f : α → α}

/-- A list has no element satisfying `p`, or a first one. -/
theorem first_match_cases (p : α → Bool) : ∀ xs : List α,
    (∀ x ∈ xs, p x = false) ∨
      ∃ pre x post, xs = pre ++ x :: post ∧ (∀ y ∈ pre, p y = false) ∧ p x = true
  | [] => .inl (by simp)
  | x :: xs => by
    cases hx : p x
    · rcases first_match_cases p xs with h | ⟨pre, y, post, rfl, hpre, hy⟩
      · exact .inl (by simpa [hx] using h)
      · exact .inr ⟨x :: pre, y, post, rfl, by simpa [hx] using hpre, hy⟩
    · exact .inr ⟨[], x, xs, rfl, by simp, hx⟩

theorem find?_first {pre post : List α} {x : α} (hpre : ∀ y ∈ pre, p y = false)
    (hx : p x = true) : (pre ++ x :: post).find? p = some x := by
  rw [List.find?_append, List.find?_eq_none.2 fun y hy => by simp [hpre y hy]]
  simp [hx]

theorem modifyFirst?_first {pre post : List α} {x : α} (hpre : ∀ y ∈ pre, p y = false)
    (hx : p x = true) : modifyFirst? p f (pre ++ x :: post) = some (pre ++ f x :: post) := by
  induction pre with
  | nil => simp [modifyFirst?, hx]
  | cons y pre ih =>
    simp [modifyFirst?, hpre y (by simp), ih fun z hz => hpre z (by simp [hz])]

theorem modifyFirst?_none {xs : List α} (h : ∀ x ∈ xs, p x = false) :
    modifyFirst? p f xs = none := by
  induction xs with
  | nil => rfl
  | cons x xs ih => simp [modifyFirst?, h x (by simp), ih fun y hy => h y (by simp [hy])]

theorem modifyFirst?_append_of_false {pre : List α}
    (hpre : ∀ y ∈ pre, p y = false) (xs : List α) :
    modifyFirst? p f (pre ++ xs) = (modifyFirst? p f xs).map (pre ++ ·) := by
  induction pre with
  | nil => simp
  | cons y pre ih =>
    simp [modifyFirst?, hpre y (by simp), ih fun z hz => hpre z (by simp [hz]), Option.map_map,
      Function.comp_def]

end FirstMatch

/-! ### Path components -/

/-- A path component is non-empty and holds no `/`. -/
theorem mem_pathParts {path part : String} (h : part ∈ pathParts path) :
    part ≠ "" ∧ '/' ∉ part.toList := by
  obtain ⟨hmem, hne⟩ := List.mem_filter.1 h
  exact ⟨by simpa using hne, slash_not_mem_of_mem_elements hmem⟩

/-- Splitting `'/' + parts.join('/')` gives back the components. -/
theorem pathParts_folderPath {parts : List String} (h : ∀ s ∈ parts, s ≠ "" ∧ '/' ∉ s.toList) :
    pathParts ("/" ++ "/".intercalate parts) = parts := by
  rw [slash_intercalate_eq_rootedPath]
  cases parts with
  | nil => decide
  | cons part parts =>
    rw [pathParts, elements_rootedPath (by simp) fun s hs => (h s hs).2,
      List.filter_cons_of_neg (by simp), List.filter_eq_self.2 fun s hs => by simpa using (h s hs).1]

/-! ### Lookup -/

@[simp] theorem findNodeAt_nil (current : VfsNode) : findNodeAt [] current = some current := rfl

@[simp] theorem findNodeAt_cons_file (part : String) (parts : List String) (name cid timestamp : String) :
    findNodeAt (part :: parts) (.file name cid timestamp) = none := rfl

@[simp] theorem findNodeAt_cons_folder (part : String) (parts : List String) (name : String)
    (children : List VfsNode) :
    findNodeAt (part :: parts) (.folder name children) =
      (children.find? fun child => child.name == part).bind (findNodeAt parts) := by
  cases h : children.find? fun child => child.name == part <;> simp [findNodeAt, h]

theorem findNodeAt_append (xs ys : List String) (current : VfsNode) :
    findNodeAt (xs ++ ys) current = (findNodeAt xs current).bind (findNodeAt ys) := by
  induction xs generalizing current with
  | nil => rfl
  | cons part parts ih =>
    cases current with
    | file => rfl
    | folder name children =>
      cases children.find? fun child => child.name == part <;> simp [ih, Option.bind_assoc]

/-! ### `addFile` reduced to a push along the folder path -/

/-- A push below a path that does not end at a folder changes nothing, as `addFile`'s
`folder && folder.type === 'folder'` test requires. -/
theorem pushAt_of_not_folder (entry : VfsNode) : ∀ (dir : List String) (current : VfsNode),
    (∀ name children, findNodeAt dir current ≠ some (.folder name children)) →
      pushAt entry dir current = current
  | [], .file .., _ => rfl
  | [], .folder name children, h => absurd rfl (h name children)
  | _ :: _, .file .., _ => rfl
  | part :: parts, .folder name children, h => by
    rcases first_match_cases (fun child => child.name == part) children with
      hnone | ⟨pre, c, post, rfl, hpre, hc⟩
    · simp [pushAt, modifyFirst?_none hnone]
    · have hrest := pushAt_of_not_folder entry parts c fun n cs hn =>
        h n cs (by simp [find?_first hpre hc, hn])
      simp [pushAt, modifyFirst?_first hpre hc, hrest]

/-- `addFile` pushes the new file entry along the folder path below its last component. -/
theorem addFile_eq {root : VfsNode} {path cid timestamp fileName : String} {dir : List String}
    (h : pathParts path = dir ++ [fileName]) :
    addFile root path cid timestamp = pushAt (.file fileName cid timestamp) dir root := by
  have hdir : ∀ s ∈ dir, s ≠ "" ∧ '/' ∉ s.toList := fun s hs =>
    mem_pathParts (h ▸ List.mem_append_left _ hs)
  simp only [addFile, findNode, h, List.getLast?_concat, List.dropLast_concat,
    pathParts_folderPath hdir]
  split
  · rfl
  · exact (pushAt_of_not_folder _ dir root fun n cs hn => by simp_all).symm

/-- `addFile` at a path with no component returns the tree unchanged. -/
theorem addFile_of_pathParts_eq_nil {root : VfsNode} {path cid timestamp : String}
    (h : pathParts path = []) : addFile root path cid timestamp = root := by
  simp [addFile, h]

/-! ### What the insertions keep -/

theorem isFolder_iff {node : VfsNode} :
    node.isFolder = true ↔ ∃ name children, node = .folder name children := by
  cases node <;> simp

theorem name_addFolderAt : ∀ (parts : List String) (current : VfsNode),
    (addFolderAt parts current).name = current.name
  | [], _ => rfl
  | _ :: _, .file .. => rfl
  | _ :: _, .folder .. => rfl

theorem isFolder_addFolderAt : ∀ (parts : List String) (current : VfsNode),
    (addFolderAt parts current).isFolder = current.isFolder
  | [], _ => rfl
  | _ :: _, .file .. => rfl
  | _ :: _, .folder .. => rfl

theorem name_pushAt (entry : VfsNode) : ∀ (dir : List String) (current : VfsNode),
    (pushAt entry dir current).name = current.name
  | [], .file .. => rfl
  | [], .folder .. => rfl
  | _ :: _, .file .. => rfl
  | _ :: _, .folder .. => rfl

/-- A child of another name is no folder of this name. -/
theorem isFolderNamed_false_of_name {part : String} {c : VfsNode} (h : (c.name == part) = false) :
    isFolderNamed part c = false := by
  simp [isFolderNamed, h]

theorem isFolder_pushAt (entry : VfsNode) : ∀ (dir : List String) (current : VfsNode),
    (pushAt entry dir current).isFolder = current.isFolder
  | [], .file .. => rfl
  | [], .folder .. => rfl
  | _ :: _, .file .. => rfl
  | _ :: _, .folder .. => rfl

end BockIpfs.VirtualFs
