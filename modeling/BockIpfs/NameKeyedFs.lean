import BockIpfs.VirtualFs
import Mathlib.Data.List.Sort
import Mathlib.Algebra.Group.Nat.Basic

/-!
# The name-keyed folder tree

A second tree in the repository keeps each folder's children in a plain object keyed by name,
under a module-level `root`. A plain object `{}` inherits the members of `Object.prototype`, so
`children[part]` reads a function for `constructor`, `toString` and the other inherited names,
and assigning a file to `children["__proto__"]` replaces the object's prototype instead of adding
an entry.

`addFolder` walks the path, creating each missing folder, and throws at a component that reads a
value that is not a folder. It therefore throws at an inherited name also after it has created
the folders before it, so a call is not atomic: the folders created before the throw stay. What
holds is the rule for each component: at the first one that does not name an existing folder it
throws, leaving the tree as it was, when that component reads a value; otherwise it creates the
rest of the path and throws at the first later component that is a name of `Object.prototype`.
When it returns, every prefix of the path names a folder, and every entry present before is kept.
-/

namespace BockIpfs.NameKeyedFs

open VirtualFs

/-- A `FileNode` or a `FolderNode`. A folder's children object is given by its own entries, in
the order they were created, and by the file object assigned to its `__proto__`, if one was: the
CID and timestamp of that file, whose name is `__proto__`. -/
inductive KeyedNode where
  | file (name cid timestamp : String)
  | folder (name : String) (children : List (String × KeyedNode)) (proto : Option (String × String))
  deriving Repr

mutual
/-- Structural equality of nodes. -/
def KeyedNode.decEq : (a b : KeyedNode) → Decidable (a = b)
  | .file n c t, .file n' c' t' =>
    if h : n = n' ∧ c = c' ∧ t = t' then isTrue (by obtain ⟨rfl, rfl, rfl⟩ := h; rfl)
    else isFalse (by rintro ⟨⟩; exact h ⟨rfl, rfl, rfl⟩)
  | .file .., .folder .. => isFalse (by rintro ⟨⟩)
  | .folder .., .file .. => isFalse (by rintro ⟨⟩)
  | .folder n cs p, .folder n' cs' p' =>
    match KeyedNode.decEqEntries cs cs' with
    | isTrue hc =>
      if h : n = n' ∧ p = p' then isTrue (by obtain ⟨rfl, rfl⟩ := h; subst hc; rfl)
      else isFalse (by rintro ⟨⟩; exact h ⟨rfl, rfl⟩)
    | isFalse hc => isFalse (by rintro ⟨⟩; exact hc rfl)
/-- Structural equality of own-entry lists. -/
def KeyedNode.decEqEntries : (a b : List (String × KeyedNode)) → Decidable (a = b)
  | [], [] => isTrue rfl
  | [], _ :: _ => isFalse (by rintro ⟨⟩)
  | _ :: _, [] => isFalse (by rintro ⟨⟩)
  | (k, a) :: as, (k', b) :: bs =>
    match KeyedNode.decEq a b, KeyedNode.decEqEntries as bs with
    | isTrue h1, isTrue h2 =>
      if hk : k = k' then isTrue (by subst h1 h2 hk; rfl) else isFalse (by rintro ⟨⟩; exact hk rfl)
    | isFalse h1, _ => isFalse (by rintro ⟨⟩; exact h1 rfl)
    | _, isFalse h2 => isFalse (by rintro ⟨⟩; exact h2 rfl)
end

instance : DecidableEq KeyedNode := KeyedNode.decEq

/-- A folder object, as `addFolder`'s loop holds it in `current`. -/
structure Folder where
  name : String
  children : List (String × KeyedNode)
  proto : Option (String × String)
  deriving DecidableEq, Repr

/-- The folder as a node of its parent's children. -/
def Folder.toNode (folder : Folder) : KeyedNode := .folder folder.name folder.children folder.proto

/-- The module-level `root`. -/
def root : Folder := { name := "root", children := [], proto := none }

/-! ### Reading and writing a children object -/

/-- The own properties of `Object.prototype` in Node.js, which every children object `{}`
inherits: `__proto__` reads the prototype itself, every other name reads a function. -/
def objectPrototypeKeys : List String :=
  ["constructor", "__defineGetter__", "__defineSetter__", "hasOwnProperty", "__lookupGetter__",
    "__lookupSetter__", "isPrototypeOf", "propertyIsEnumerable", "toString", "valueOf",
    "__proto__", "toLocaleString"]

/-- A value that `children[part]` reads. -/
inductive Member where
  /-- A node: an own entry, or the file object set as prototype, read through `__proto__`. -/
  | node (node : KeyedNode)
  /-- A string field of the file object set as prototype. -/
  | text (value : String)
  /-- A member of `Object.prototype`: a function, or the prototype object itself. -/
  | builtin
  deriving DecidableEq, Repr

/-- The string fields `type`, `name`, `cid` and `timestamp` of a file object. -/
def fileField (name cid timestamp part : String) : Option String :=
  if part = "type" then some "file" else if part = "name" then some name
  else if part = "cid" then some cid else if part = "timestamp" then some timestamp else none

/-- What the prototype chain of a children object gives for a name the object does not own:
first the file object set as its prototype, if one was, then `Object.prototype`. -/
def inheritedMember (proto : Option (String × String)) (part : String) : Option Member :=
  let builtin : Option Member := if part ∈ objectPrototypeKeys then some .builtin else none
  match proto with
  | none => builtin
  | some (cid, timestamp) =>
    if part = "__proto__" then some (.node (.file "__proto__" cid timestamp))
    else ((fileField "__proto__" cid timestamp part).map Member.text).orElse fun _ => builtin

/-- `current.children[part]`: the own entry of that name, or else what the prototype chain
gives; `none` is `undefined`. -/
def readChild (current : Folder) (part : String) : Option Member :=
  match current.children.lookup part with
  | some node => some (.node node)
  | none => inheritedMember current.proto part

/-- JavaScript truthiness of a value read; `none` is `undefined`. -/
def truthy : Option Member → Bool
  | none => false
  | some (.text value) => value != ""
  | some _ => true

/-- The folder a read gives when it has `type === "folder"`. -/
def asFolder? : Option Member → Option Folder
  | some (.node (.folder name children proto)) => some ⟨name, children, proto⟩
  | _ => none

/-- `children[part] = node` for a name other than `__proto__`: the own entry of that name is
replaced in place, or a new own entry is added last. -/
def setEntry (part : String) (node : KeyedNode) :
    List (String × KeyedNode) → List (String × KeyedNode)
  | [] => [(part, node)]
  | (key, value) :: rest =>
    if key = part then (part, node) :: rest else (key, value) :: setEntry part node rest

/-- `current.children[part] = node` for a name other than `__proto__`. -/
def Folder.assign (current : Folder) (part : String) (node : KeyedNode) : Folder :=
  { current with children := setEntry part node current.children }

/-! ### `addFolder`, `addFile` and `listFolderContents` -/

/-- The message of the error `addFolder` throws at `part`. -/
def notAFolder (part : String) : String := "\"" ++ part ++ "\" exists and is not a folder."

/-- `addFolder`'s loop from the folder `current` on: the folder afterwards, and the message of
the error thrown, if one is. The source mutates the tree in place, so the folders created before
a throw stay, and descending into an existing folder writes the changed folder back. A missing
child is created under `part`, which is then never `__proto__`, since that name always reads a
value. -/
def addFolderIn : List String → Folder → Folder × Option String
  | [], current => (current, none)
  | part :: parts, current =>
    if !truthy (readChild current part) then
      let next := addFolderIn parts ⟨part, [], none⟩
      (current.assign part next.1.toNode, next.2)
    else
      match asFolder? (readChild current part) with
      | some child =>
        let next := addFolderIn parts child
        (current.assign part next.1.toNode, next.2)
      | none => (current, some (notAFolder part))

/-- `addFolder(path)` on the tree `tree` that `root` holds: the tree afterwards, and the message
of the error thrown, if one is. -/
def addFolder (tree : Folder) (path : String) : Folder × Option String :=
  addFolderIn (pathParts path) tree

/-- The message of the error `addFile` and `listFolderContents` throw at `part`. -/
def folderMissing (part : String) : String := "Folder \"" ++ part ++ "\" does not exist."

/-- `current.children[filename] = {type: "file", ...}`: an own entry, or for `__proto__` the
children object's new prototype. -/
def Folder.assignFile (current : Folder) (filename cid timestamp : String) : Folder :=
  if filename = "__proto__" then { current with proto := some (cid, timestamp) }
  else current.assign filename (.file filename cid timestamp)

/-- `addFile`'s loop from the folder `current` on. It only walks existing folders and changes
the tree at the end, so an error leaves the tree as it was. -/
def addFileIn (filename cid timestamp : String) : List String → Folder → Except String Folder
  | [], current => .ok (current.assignFile filename cid timestamp)
  | part :: parts, current =>
    match asFolder? (readChild current part) with
    | some child =>
      (addFileIn filename cid timestamp parts child).map fun next => current.assign part next.toNode
    | none => .error (folderMissing part)

/-- `addFile(path, filename, cid, timestamp)` on the tree `tree` that `root` holds. -/
def addFile (tree : Folder) (path filename cid timestamp : String) : Except String Folder :=
  addFileIn filename cid timestamp (pathParts path) tree

/-- The value of a string of decimal digits. -/
def decimalValue (key : String) : Nat :=
  key.toList.foldl (fun value digit => 10 * value + (digit.toNat - '0'.toNat)) 0

/-- An array index: `0` to `2^32 - 2` in canonical decimal. `Object.values` lists the own keys
that are array indices first, in ascending order, and then the others in creation order. -/
def isArrayIndex (key : String) : Bool :=
  key.toList ≠ [] && key.toList.all Char.isDigit && (key == "0" || key.toList.head? != some '0') &&
    decimalValue key < 2 ^ 32 - 1

/-- `Object.values(children)`: the values of the own entries in property order. -/
def ownValues (entries : List (String × KeyedNode)) : List KeyedNode :=
  ((entries.filter fun entry => isArrayIndex entry.1).insertionSort
      (fun a b => decimalValue a.1 ≤ decimalValue b.1) ++
    entries.filter fun entry => !isArrayIndex entry.1).map Prod.snd

/-- `listFolderContents`'s loop from the folder `current` on. -/
def listFolderContentsIn : List String → Folder → Except String (List KeyedNode)
  | [], current => .ok (ownValues current.children)
  | part :: parts, current =>
    match asFolder? (readChild current part) with
    | some child => listFolderContentsIn parts child
    | none => .error (folderMissing part)

/-- `listFolderContents(path)` on the tree `tree` that `root` holds. -/
def listFolderContents (tree : Folder) (path : String) : Except String (List KeyedNode) :=
  listFolderContentsIn (pathParts path) tree

/-! ### Reads and writes -/

section Entries

variable {part : String} {node : KeyedNode}

theorem lookup_cons_of_ne {key : String} {value : KeyedNode} {rest : List (String × KeyedNode)}
    (h : key ≠ part) : ((key, value) :: rest).lookup part = rest.lookup part := by
  simp [List.lookup_cons, beq_false_of_ne (Ne.symm h)]

@[simp] theorem lookup_setEntry_self : ∀ entries : List (String × KeyedNode),
    (setEntry part node entries).lookup part = some node
  | [] => by simp [setEntry]
  | (key, value) :: rest => by
    by_cases h : key = part
    · simp [setEntry, h]
    · simp only [setEntry, h, if_false, lookup_cons_of_ne h, lookup_setEntry_self rest]

theorem lookup_setEntry_of_ne {key : String} (h : key ≠ part) :
    ∀ entries : List (String × KeyedNode), (setEntry part node entries).lookup key = entries.lookup key
  | [] => by simp [setEntry, lookup_cons_of_ne (Ne.symm h)]
  | (k, value) :: rest => by
    by_cases hk : k = part
    · subst hk; simp [setEntry, lookup_cons_of_ne (Ne.symm h)]
    · simp only [setEntry, hk, if_false, List.lookup_cons, lookup_setEntry_of_ne h rest]

/-- Writing back the entry a name already holds changes nothing. -/
theorem setEntry_of_lookup : ∀ {entries : List (String × KeyedNode)},
    entries.lookup part = some node → setEntry part node entries = entries
  | [], h => by simp at h
  | (key, value) :: rest, h => by
    by_cases hk : key = part
    · subst hk; simp_all [setEntry]
    · rw [lookup_cons_of_ne hk] at h
      simp [setEntry, hk, setEntry_of_lookup h]

end Entries

@[simp] theorem name_assign (current : Folder) (part : String) (node : KeyedNode) :
    (current.assign part node).name = current.name := rfl

@[simp] theorem proto_assign (current : Folder) (part : String) (node : KeyedNode) :
    (current.assign part node).proto = current.proto := rfl

@[simp] theorem toNode_inj {a b : Folder} : a.toNode = b.toNode ↔ a = b := by
  cases a; cases b; simp [Folder.toNode]

/-- An own entry is what `children[part]` reads. -/
theorem readChild_of_lookup {current : Folder} {part : String} {node : KeyedNode}
    (h : current.children.lookup part = some node) : readChild current part = some (.node node) := by
  simp [readChild, h]

/-- The prototype chain gives no folder: the file object set as prototype is a file. -/
@[simp] theorem asFolder?_inheritedMember (proto : Option (String × String)) (part : String) :
    asFolder? (inheritedMember proto part) = none := by
  rcases proto with _ | ⟨cid, timestamp⟩
  · simp only [inheritedMember]; split <;> rfl
  · simp only [inheritedMember]
    split
    · rfl
    · cases fileField "__proto__" cid timestamp part
      · simp only [Option.map_none', Option.orElse]; split <;> rfl
      · rfl

/-- A read of `type === "folder"` is an own entry. -/
theorem lookup_of_asFolder? {current : Folder} {part : String} {child : Folder}
    (h : asFolder? (readChild current part) = some child) :
    current.children.lookup part = some child.toNode := by
  unfold readChild at h
  split at h
  · rename_i node hnode
    cases node <;> simp only [asFolder?, Option.some.injEq, reduceCtorEq] at h
    subst h; exact hnode
  · simp at h

/-- What a fresh children object `{}` reads: the names of `Object.prototype` and nothing else. -/
theorem readChild_fresh (name part : String) :
    readChild ⟨name, [], none⟩ part = if part ∈ objectPrototypeKeys then some .builtin else none :=
  rfl

theorem truthy_of_asFolder? {member : Option Member} {child : Folder}
    (h : asFolder? member = some child) : truthy member = true := by
  match member, h with
  | some (.node (.folder ..)), _ => rfl

/-! ### One component of `addFolder` -/

section Step

variable {current child : Folder} {part : String} {parts : List String}

/-- A component that reads nothing gets a new empty folder, and the loop goes on in it. -/
theorem addFolderIn_create (h : truthy (readChild current part) = false) :
    addFolderIn (part :: parts) current =
      (current.assign part (addFolderIn parts ⟨part, [], none⟩).1.toNode,
        (addFolderIn parts ⟨part, [], none⟩).2) := by
  simp [addFolderIn, h]

/-- A component that names a folder: the loop goes on in it and writes it back. -/
theorem addFolderIn_descend (h : asFolder? (readChild current part) = some child) :
    addFolderIn (part :: parts) current =
      (current.assign part (addFolderIn parts child).1.toNode, (addFolderIn parts child).2) := by
  simp [addFolderIn, truthy_of_asFolder? h, h]

/-- A component that reads a value that is not a folder: the loop throws there. -/
theorem addFolderIn_throw (ht : truthy (readChild current part) = true)
    (h : asFolder? (readChild current part) = none) :
    addFolderIn (part :: parts) current = (current, some (notAFolder part)) := by
  simp [addFolderIn, ht, h]

end Step

@[simp] theorem name_addFolderIn : ∀ (parts : List String) (current : Folder),
    (addFolderIn parts current).1.name = current.name
  | [], _ => rfl
  | part :: parts, current => by
    unfold addFolderIn; split
    · rfl
    · split <;> rfl

@[simp] theorem proto_addFolderIn : ∀ (parts : List String) (current : Folder),
    (addFolderIn parts current).1.proto = current.proto
  | [], _ => rfl
  | part :: parts, current => by
    unfold addFolderIn; split
    · rfl
    · split <;> rfl

theorem lookup_eq_none_of_truthy {current : Folder} {part : String}
    (h : truthy (readChild current part) = false) : current.children.lookup part = none := by
  cases hl : current.children.lookup part with
  | none => rfl
  | some node => rw [readChild_of_lookup hl] at h; cases h

theorem assign_of_lookup {current : Folder} {part : String} {node : KeyedNode}
    (h : current.children.lookup part = some node) : current.assign part node = current := by
  simp [Folder.assign, setEntry_of_lookup h]

/-! ### What `addFolder` does to every entry -/

/-- The entry that `parts` names from `node`, following own entries. -/
def entryAt : List String → KeyedNode → Option KeyedNode
  | [], node => some node
  | part :: parts, .folder _ children _ => (children.lookup part).bind (entryAt parts)
  | _ :: _, .file .. => none

@[simp] theorem entryAt_cons_toNode (part : String) (parts : List String) (folder : Folder) :
    entryAt (part :: parts) folder.toNode = (folder.children.lookup part).bind (entryAt parts) :=
  rfl

theorem entryAt_cons_assign (current : Folder) (part key : String) (parts : List String)
    (node : KeyedNode) :
    entryAt (key :: parts) (current.assign part node).toNode =
      if key = part then entryAt parts node else entryAt (key :: parts) current.toNode := by
  split
  · subst key; simp [Folder.assign]
  · simp [Folder.assign, lookup_setEntry_of_ne ‹_›]

/-- Only a folder has entries below it. -/
theorem folder_of_entryAt : ∀ {parts : List String} {node : KeyedNode} {folder : Folder},
    entryAt parts node = some folder.toNode → ∃ child : Folder, node = child.toNode
  | _, .folder name children proto, _, _ => ⟨⟨name, children, proto⟩, rfl⟩
  | [], .file .., _, h => by simp [entryAt, Folder.toNode] at h
  | _ :: _, .file .., _, h => by cases h

/-- What `addFolder` keeps of an entry: a file as it is, a folder's name and prototype. -/
def Kept : KeyedNode → KeyedNode → Prop
  | .file name cid timestamp, node => node = .file name cid timestamp
  | .folder name _ proto, node => ∃ children, node = .folder name children proto

theorem kept_refl : ∀ node : KeyedNode, Kept node node
  | .file .. => rfl
  | .folder .. => ⟨_, rfl⟩

/-- Whether it returns or throws, `addFolder`'s loop keeps every entry that a path named before:
it only adds entries and writes back the folders it descends into. -/
theorem entryAt_addFolderIn : ∀ (parts : List String) (current : Folder) (q : List String)
    (node : KeyedNode), entryAt q current.toNode = some node →
      ∃ node', entryAt q (addFolderIn parts current).1.toNode = some node' ∧ Kept node node'
  | [], _, _, node, h => ⟨node, h, kept_refl node⟩
  | part :: parts, current, [], _, h => by
    cases h
    exact ⟨_, rfl, (addFolderIn (part :: parts) current).1.children, by simp [Folder.toNode]⟩
  | part :: parts, current, key :: q, node, h => by
    by_cases hr : truthy (readChild current part) = false
    · rw [addFolderIn_create hr, entryAt_cons_assign]
      split
      · -- the component read nothing, so no path through it named an entry
        subst key
        simp [lookup_eq_none_of_truthy hr] at h
      · exact ⟨node, h, kept_refl node⟩
    · cases hf : asFolder? (readChild current part) with
      | none =>
        rw [addFolderIn_throw (by simpa using hr) hf]
        exact ⟨node, h, kept_refl node⟩
      | some child =>
        rw [addFolderIn_descend hf, entryAt_cons_assign]
        split
        · subst key
          rw [entryAt_cons_toNode, lookup_of_asFolder? hf, Option.some_bind] at h
          exact entryAt_addFolderIn parts child q node h
        · exact ⟨node, h, kept_refl node⟩

/-- When `addFolder`'s loop returns, every prefix of its components names a folder. -/
theorem addFolderIn_prefix_folder : ∀ (parts : List String) (current : Folder),
    (addFolderIn parts current).2 = none → ∀ pre, pre <+: parts →
      ∃ folder : Folder, entryAt pre (addFolderIn parts current).1.toNode = some folder.toNode
  | [], _, _, pre, hpre => by rw [List.prefix_nil.1 hpre]; exact ⟨_, rfl⟩
  | _ :: _, _, _, [], _ => ⟨_, rfl⟩
  | part :: parts, current, hok, key :: pre, hpre => by
    obtain ⟨hkey, hrest⟩ := List.cons_prefix_cons.1 hpre
    subst key
    by_cases hr : truthy (readChild current part) = false
    · rw [addFolderIn_create hr] at hok ⊢
      rw [entryAt_cons_assign, if_pos rfl]
      exact addFolderIn_prefix_folder parts _ hok pre hrest
    · cases hf : asFolder? (readChild current part) with
      | none => rw [addFolderIn_throw (by simpa using hr) hf] at hok; cases hok
      | some child =>
        rw [addFolderIn_descend hf] at hok ⊢
        rw [entryAt_cons_assign, if_pos rfl]
        exact addFolderIn_prefix_folder parts child hok pre hrest

/-! ### Where `addFolder` throws -/

/-- Once a folder has been created, every later component is read in a fresh `{}`, which holds
only the names of `Object.prototype`: the loop throws at the first of them, if there is one. -/
theorem addFolderIn_fresh : ∀ (parts : List String) (name : String),
    (addFolderIn parts ⟨name, [], none⟩).2 =
      (parts.find? fun part => part ∈ objectPrototypeKeys).map notAFolder
  | [], _ => rfl
  | part :: parts, name => by
    by_cases h : part ∈ objectPrototypeKeys
    · rw [addFolderIn_throw (by simp [readChild_fresh, h, truthy])
        (by simp [readChild_fresh, h, asFolder?])]
      simp [h]
    · rw [addFolderIn_create (by simp [readChild_fresh, h, truthy]), addFolderIn_fresh parts part]
      simp [h]

/-- In a fresh folder the loop creates each component, up to the first name of
`Object.prototype`, as a folder. -/
theorem addFolderIn_fresh_folders : ∀ (parts : List String) (name : String) (q : List String),
    q <+: parts.takeWhile (fun part => part ∉ objectPrototypeKeys) →
      ∃ folder : Folder, entryAt q (addFolderIn parts ⟨name, [], none⟩).1.toNode = some folder.toNode
  | _, _, [], _ => ⟨_, rfl⟩
  | [], _, _ :: _, hq => absurd hq (by simp)
  | part :: parts, _, key :: q, hq => by
    by_cases h : part ∈ objectPrototypeKeys
    · simp [List.takeWhile_cons, h] at hq
    · rw [List.takeWhile_cons, if_pos (by simpa using h)] at hq
      obtain ⟨rfl, hrest⟩ := List.cons_prefix_cons.1 hq
      rw [addFolderIn_create (by simp [readChild_fresh, h, truthy]), entryAt_cons_assign, if_pos rfl]
      exact addFolderIn_fresh_folders parts key q hrest

/-- Below components that name existing folders, the loop's tree is the loop's tree from the
folder they reach. -/
theorem entryAt_addFolderIn_append : ∀ (pre : List String) (current folder : Folder)
    (rest r : List String), entryAt pre current.toNode = some folder.toNode →
      entryAt (pre ++ r) (addFolderIn (pre ++ rest) current).1.toNode =
        entryAt r (addFolderIn rest folder).1.toNode
  | [], current, folder, rest, r, h => by
    obtain rfl : current = folder := toNode_inj.1 (Option.some.inj h)
    rfl
  | part :: pre, current, folder, rest, r, h => by
    rw [entryAt_cons_toNode, Option.bind_eq_some] at h
    obtain ⟨node, hl, hn⟩ := h
    obtain ⟨child, rfl⟩ := folder_of_entryAt hn
    have hf : asFolder? (readChild current part) = some child := by
      rw [readChild_of_lookup hl]; rfl
    rw [List.cons_append, List.cons_append, addFolderIn_descend hf, entryAt_cons_assign, if_pos rfl]
    exact entryAt_addFolderIn_append pre child folder rest r hn

/-- Through components that name existing folders the loop changes nothing of its own: its error
is the one the loop raises from the folder reached, and the tree is unchanged if that folder is. -/
theorem addFolderIn_append : ∀ (pre : List String) (current folder : Folder) (rest : List String),
    entryAt pre current.toNode = some folder.toNode →
      (addFolderIn (pre ++ rest) current).2 = (addFolderIn rest folder).2 ∧
        ((addFolderIn rest folder).1 = folder → (addFolderIn (pre ++ rest) current).1 = current)
  | [], current, folder, rest, h => by
    obtain rfl : current = folder := toNode_inj.1 (Option.some.inj h)
    exact ⟨rfl, id⟩
  | part :: pre, current, folder, rest, h => by
    rw [entryAt_cons_toNode, Option.bind_eq_some] at h
    obtain ⟨node, hl, hn⟩ := h
    obtain ⟨child, rfl⟩ := folder_of_entryAt hn
    have hf : asFolder? (readChild current part) = some child := by
      rw [readChild_of_lookup hl]; rfl
    obtain ⟨herr, htree⟩ := addFolderIn_append pre child folder rest hn
    rw [List.cons_append, addFolderIn_descend hf]
    exact ⟨herr, fun hsame => by rw [htree hsame]; exact assign_of_lookup hl⟩

/-- Every list of components either names folders all the way, or has a first component that
does not name an existing folder, under the folder that the components before it name. -/
theorem entryAt_folder_or_first_missing : ∀ (parts : List String) (current : Folder),
    (∃ folder : Folder, entryAt parts current.toNode = some folder.toNode) ∨
      ∃ pre part post folder, parts = pre ++ part :: post ∧
        entryAt pre current.toNode = some (Folder.toNode folder) ∧
        asFolder? (readChild folder part) = none
  | [], current => .inl ⟨current, rfl⟩
  | part :: parts, current => by
    cases hf : asFolder? (readChild current part) with
    | none => exact .inr ⟨[], part, parts, current, rfl, rfl, hf⟩
    | some child =>
      have hl := lookup_of_asFolder? hf
      rcases entryAt_folder_or_first_missing parts child with
        ⟨folder, h⟩ | ⟨pre, p, post, folder, rfl, h, hp⟩
      · exact .inl ⟨folder, by simp [hl, h]⟩
      · exact .inr ⟨part :: pre, p, post, folder, rfl, by simp [hl, h], hp⟩

/-- A path that names folders all the way leaves the tree as it was, and returns. -/
theorem addFolderIn_of_entryAt {parts : List String} {current folder : Folder}
    (h : entryAt parts current.toNode = some folder.toNode) :
    addFolderIn parts current = (current, none) := by
  obtain ⟨herr, htree⟩ := addFolderIn_append parts current folder [] h
  rw [List.append_nil] at herr htree
  exact Prod.ext (htree rfl) herr

/-- At the first component that does not name an existing folder: if it reads a value, the loop
throws there and leaves the tree as it was; if it reads nothing, the loop creates it and the rest
of the path as folders, up to the first later component that is a name of `Object.prototype`,
and throws there, if there is one. -/
theorem addFolderIn_first_missing {current folder : Folder} {pre : List String} {part : String}
    (hpre : entryAt pre current.toNode = some folder.toNode)
    (hpart : asFolder? (readChild folder part) = none) (post : List String) :
    (truthy (readChild folder part) = true →
        addFolderIn (pre ++ part :: post) current = (current, some (notAFolder part))) ∧
      (truthy (readChild folder part) = false →
        (addFolderIn (pre ++ part :: post) current).2 =
          (post.find? fun part => part ∈ objectPrototypeKeys).map notAFolder ∧
        ∀ q, q <+: part :: post.takeWhile (fun part => part ∉ objectPrototypeKeys) →
          ∃ created : Folder,
            entryAt (pre ++ q) (addFolderIn (pre ++ part :: post) current).1.toNode =
              some created.toNode) := by
  obtain ⟨herr, htree⟩ := addFolderIn_append pre current folder (part :: post) hpre
  refine ⟨fun ht => ?_, fun hr => ⟨?_, fun q hq => ?_⟩⟩
  · rw [addFolderIn_throw ht hpart] at herr htree
    exact Prod.ext (htree rfl) herr
  · rw [herr, addFolderIn_create hr, addFolderIn_fresh]
  · -- the component itself is created, then the rest in fresh folders
    rw [entryAt_addFolderIn_append pre current folder _ q hpre, addFolderIn_create hr]
    rcases q with _ | ⟨key, q⟩
    · exact ⟨_, rfl⟩
    · obtain ⟨rfl, hrest⟩ := List.cons_prefix_cons.1 hq
      rw [entryAt_cons_assign, if_pos rfl]
      exact addFolderIn_fresh_folders post key q hrest

/-! ### `addFolder` on a path -/

/-- Every name of `Object.prototype` is one path component. -/
theorem objectPrototypeKeys_component : ∀ key ∈ objectPrototypeKeys, key ≠ "" ∧ '/' ∉ key.toList := by
  decide

theorem pathParts_two {part key : String} (hpart : part ≠ "" ∧ '/' ∉ part.toList)
    (hkey : key ≠ "" ∧ '/' ∉ key.toList) : pathParts ("/" ++ part ++ "/" ++ key) = [part, key] := by
  simpa [String.intercalate, String.intercalate.go, String.append_assoc] using
    pathParts_folderPath (show ∀ s ∈ [part, key], s ≠ "" ∧ '/' ∉ s.toList from
      fun s hs => by rcases List.mem_pair.1 hs with rfl | rfl <;> assumption)

/-- What `addFolder(path)` does, for every tree and path. The path either names folders all the
way, and then the call returns and changes nothing, or it has a first component that does not
name an existing folder. If that component reads a value (a file, a member of
`Object.prototype`, or a field of a file set as prototype), the call throws there and leaves the
tree as it was; if it reads nothing, the call creates it and the rest of the path, and throws
exactly when a later component is a name of `Object.prototype`; the folders it created up to
that component stay. Whether it returns or throws, every entry that a path named before is
kept, and when it returns, every prefix of the path names a folder. -/
theorem addFolder_outcome (tree : Folder) (path : String) :
    ((∃ folder : Folder, entryAt (pathParts path) tree.toNode = some folder.toNode) ∨
      ∃ pre part post folder, pathParts path = pre ++ part :: post ∧
        entryAt pre tree.toNode = some (Folder.toNode folder) ∧
        asFolder? (readChild folder part) = none) ∧
    (∀ folder : Folder, entryAt (pathParts path) tree.toNode = some folder.toNode →
      addFolder tree path = (tree, none)) ∧
    (∀ pre part post (folder : Folder), pathParts path = pre ++ part :: post →
      entryAt pre tree.toNode = some folder.toNode → asFolder? (readChild folder part) = none →
        (truthy (readChild folder part) = true →
          addFolder tree path = (tree, some (notAFolder part))) ∧
        (truthy (readChild folder part) = false →
          (addFolder tree path).2 =
            (post.find? fun part => part ∈ objectPrototypeKeys).map notAFolder ∧
          ∀ q, q <+: part :: post.takeWhile (fun part => part ∉ objectPrototypeKeys) →
            ∃ created : Folder, entryAt (pre ++ q) (addFolder tree path).1.toNode =
              some created.toNode)) ∧
    (∀ q node, entryAt q tree.toNode = some node →
      ∃ node', entryAt q (addFolder tree path).1.toNode = some node' ∧ Kept node node') ∧
    ((addFolder tree path).2 = none → ∀ pre, pre <+: pathParts path →
      ∃ folder : Folder, entryAt pre (addFolder tree path).1.toNode = some folder.toNode) := by
  refine ⟨entryAt_folder_or_first_missing _ tree, fun folder h => addFolderIn_of_entryAt h,
    fun pre part post folder hparts hpre hpart => ?_, entryAt_addFolderIn _ tree,
    addFolderIn_prefix_folder _ tree⟩
  rw [addFolder, hparts]
  exact addFolderIn_first_missing hpre hpart post

/-- `addFolder` is not atomic. For every tree, a component `part` that reads nothing in the root,
followed by a name `key` of `Object.prototype`: `addFolder("/part/key")` creates the folder
`part`, reads the inherited `key` in the new folder's `{}` and throws. The path `part` named
nothing before the call and names the new folder after it. -/
theorem addFolder_throws_after_creating (tree : Folder) (part key : String)
    (hpart : part ≠ "" ∧ '/' ∉ part.toList) (hread : readChild tree part = none)
    (hkey : key ∈ objectPrototypeKeys) :
    addFolder tree ("/" ++ part ++ "/" ++ key) =
        (tree.assign part (.folder part [] none), some (notAFolder key)) ∧
      entryAt [part] tree.toNode = none ∧
      entryAt [part] (addFolder tree ("/" ++ part ++ "/" ++ key)).1.toNode =
        some (.folder part [] none) := by
  have hadd : addFolder tree ("/" ++ part ++ "/" ++ key) =
      (tree.assign part (.folder part [] none), some (notAFolder key)) := by
    rw [addFolder, pathParts_two hpart (objectPrototypeKeys_component key hkey),
      addFolderIn_create (by simp [hread, truthy]),
      addFolderIn_throw (by simp [readChild_fresh, hkey, truthy])
        (by simp [readChild_fresh, hkey, asFolder?])]
    rfl
  have hnone : tree.children.lookup part = none := lookup_eq_none_of_truthy (by simp [hread, truthy])
  refine ⟨hadd, by simp [hnone], ?_⟩
  rw [hadd]
  simp [Folder.assign, entryAt]

/-- From the fresh module-level `root`, `addFolder("/a/constructor")` creates `a` and throws
`"constructor" exists and is not a folder.` -/
theorem addFolder_a_constructor :
    ("a" ≠ "" ∧ '/' ∉ "a".toList) ∧ readChild root "a" = none ∧
      "constructor" ∈ objectPrototypeKeys ∧
      (addFolder root ("/" ++ "a" ++ "/" ++ "constructor") =
          (root.assign "a" (.folder "a" [] none), some (notAFolder "constructor")) ∧
        entryAt ["a"] root.toNode = none ∧
        entryAt ["a"] (addFolder root ("/" ++ "a" ++ "/" ++ "constructor")).1.toNode =
          some (.folder "a" [] none)) :=
  ⟨by decide, rfl, by decide,
    addFolder_throws_after_creating root "a" "constructor" (by decide) rfl (by decide)⟩

example : notAFolder "constructor" = "\"constructor\" exists and is not a folder." := rfl

/-! ### `addFile` and `listFolderContents` -/

/-- `Object.values` lists the value of every own entry once. -/
theorem ownValues_perm (entries : List (String × KeyedNode)) :
    List.Perm (ownValues entries) (entries.map Prod.snd) := by
  let index : String × KeyedNode → Bool := fun entry => isArrayIndex entry.1
  have hsort := List.perm_insertionSort (fun a b : String × KeyedNode =>
    decimalValue a.1 ≤ decimalValue b.1) (entries.filter index)
  exact List.Perm.map Prod.snd
    ((hsort.append_right (entries.filter fun entry => !index entry)).trans
      (List.filter_append_perm index entries))

/-- Integer-like keys are listed first, in ascending order. -/
example : ownValues [("b", .file "b" "x" "t"), ("10", .file "10" "y" "t"), ("2", .file "2" "z" "t")] =
    [.file "2" "z" "t", .file "10" "y" "t", .file "b" "x" "t"] := by
  decide

/-- The listing of a folder that a path names. -/
theorem listFolderContentsIn_of_entryAt : ∀ {parts : List String} {current folder : Folder},
    entryAt parts current.toNode = some folder.toNode →
      listFolderContentsIn parts current = .ok (ownValues folder.children)
  | [], current, folder, h => by
    obtain rfl : current = folder := toNode_inj.1 (Option.some.inj h)
    rfl
  | part :: parts, current, folder, h => by
    rw [entryAt_cons_toNode, Option.bind_eq_some] at h
    obtain ⟨node, hl, hn⟩ := h
    obtain ⟨child, rfl⟩ := folder_of_entryAt hn
    have hf : asFolder? (readChild current part) = some child := by
      rw [readChild_of_lookup hl]; rfl
    simp only [listFolderContentsIn, hf]
    exact listFolderContentsIn_of_entryAt hn

/-- When `addFile`'s loop succeeds, its path named a folder, and now names that folder with the
file assigned. -/
theorem addFileIn_ok {filename cid timestamp : String} : ∀ {parts : List String}
    {current tree : Folder}, addFileIn filename cid timestamp parts current = .ok tree →
      ∃ folder : Folder, entryAt parts current.toNode = some folder.toNode ∧
        entryAt parts tree.toNode = some (folder.assignFile filename cid timestamp).toNode
  | [], current, tree, h => by
    cases h
    exact ⟨current, rfl, rfl⟩
  | part :: parts, current, tree, h => by
    simp only [addFileIn] at h
    cases hf : asFolder? (readChild current part) with
    | none => simp [hf] at h
    | some child =>
      rw [hf] at h
      cases hnext : addFileIn filename cid timestamp parts child with
      | error e => simp [hnext, Except.map] at h
      | ok next =>
        simp only [hnext, Except.map, Except.ok.injEq] at h
        subst h
        obtain ⟨folder, hbefore, hafter⟩ := addFileIn_ok hnext
        refine ⟨folder, ?_, ?_⟩
        · rwa [entryAt_cons_toNode, lookup_of_asFolder? hf, Option.some_bind]
        · rwa [entryAt_cons_assign, if_pos rfl]

/-- After `addFile` succeeds, listing its folder shows the new file, unless the file is named
`__proto__`: that assignment replaces the children object's prototype, `Object.values` does not
see it, and the listing is the same as before the call. -/
theorem listFolderContents_addFile {tree tree' : Folder} {path filename cid timestamp : String}
    (h : addFile tree path filename cid timestamp = .ok tree') :
    (filename ≠ "__proto__" → ∃ contents, listFolderContents tree' path = .ok contents ∧
      .file filename cid timestamp ∈ contents) ∧
    (filename = "__proto__" → listFolderContents tree' path = listFolderContents tree path) := by
  obtain ⟨folder, hbefore, hafter⟩ := addFileIn_ok h
  have hlist := listFolderContentsIn_of_entryAt hafter
  refine ⟨fun hname => ⟨_, hlist, ?_⟩, fun hname => ?_⟩
  · simp only [Folder.assignFile, hname, if_false, Folder.assign]
    obtain ⟨pre, post, hsplit, -⟩ := List.lookup_eq_some_iff.1
      (@lookup_setEntry_self filename (.file filename cid timestamp) folder.children)
    rw [(ownValues_perm _).mem_iff, hsplit]
    simp
  · subst hname
    rw [listFolderContents, listFolderContents, hlist, listFolderContentsIn_of_entryAt hbefore]
    simp [Folder.assignFile]

/-- Uploading `a.txt` into the fresh root lists it. -/
theorem listFolderContents_after_upload :
    addFile root "/" "a.txt" "QmX" "t0" = .ok (root.assign "a.txt" (.file "a.txt" "QmX" "t0")) ∧
      (("a.txt" ≠ "__proto__" → ∃ contents,
          listFolderContents (root.assign "a.txt" (.file "a.txt" "QmX" "t0")) "/" = .ok contents ∧
          .file "a.txt" "QmX" "t0" ∈ contents) ∧
        ("a.txt" = "__proto__" →
          listFolderContents (root.assign "a.txt" (.file "a.txt" "QmX" "t0")) "/" =
            listFolderContents root "/")) :=
  ⟨rfl, listFolderContents_addFile rfl⟩

end BockIpfs.NameKeyedFs
