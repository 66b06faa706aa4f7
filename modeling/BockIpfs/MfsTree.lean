import BockIpfs.FilesPath

/-!
# MFS in memory

The tree of MFS as the node holds it while commands run: directories of named entries and
files with their bytes. The library calls the commands make on it are modelled from the spec:
path resolution (§4.1), a directory's `child`, `addChild` and `unlink` (§4.2), and a file
descriptor's `seek`, `write` and `truncate` (§4.3). A flush persists blocks and does not change
what a read sees, so it is left out. Every command of the model, `files rm` included, runs on
this one tree.

What a client observes of the tree is, for each path, whether it names a file and its bytes or
a directory: the map `view`. A change made in place at one node (`modifyAt`) leaves every path
that does not run through that node naming what it named, so a change of a file's bytes, and
the addition of a file under a free name, each set one file of the map and nothing else.
-/

namespace BockIpfs.MfsTree

open Paths

/-- Modelled from the spec (§3, §4.3): an MFS node in memory, a file with its bytes or a
directory of named entries. -/
inductive MemNode where
  | file (content : List UInt8)
  | directory (entries : List (String × MemNode))
  deriving Repr

/-- The errors of the MFS calls and of the helpers of `files` that use them. -/
inductive MfsError where
  /-- `removePath` of `/`. -/
  | cannotDeleteRoot
  /-- `os.ErrNotExist`: an element names nothing. -/
  | notExist
  /-- The walk of `mfs.Lookup` met a file; `path` is the walk up to it. -/
  | notADirectory (path : String)
  /-- `getParentDir` found a file. -/
  | notMfsDirectory
  /-- `removePath` of a directory without `-r`. -/
  | isDirectory
  deriving DecidableEq, Repr

/-- The text Go prints for each error. -/
def MfsError.message : MfsError → String
  | .cannotDeleteRoot => "cannot delete root"
  | .notExist => "file does not exist"
  | .notADirectory path => "cannot access " ++ path ++ ": Not a directory"
  | .notMfsDirectory => "expected *mfs.Directory, didn't get it. This is likely a race condition"
  | .isDirectory => "path is a directory, use -r to remove directories"

/-! ### Finding and changing a node -/

/-- The elements `mfs.Lookup` walks for a path: the path without outer slashes, split at `/`;
none for the root. -/
def lookupParts (path : String) : List String :=
  let parts := elements (trimSlash path)
  if parts = [""] then [] else parts

/-- Modelled from the spec: `Directory.Child(name)` (§4.2), `os.ErrNotExist` when absent. -/
def child (entries : List (String × MemNode)) (name : String) : Except MfsError MemNode :=
  match entries.lookup name with
  | some node => .ok node
  | none => .error .notExist

/-- Modelled from the spec: the walk of `mfs.Lookup` (§4.1). Every node passed must be a
directory, and each element names a child; `done` holds the elements already walked, for the
error text. -/
def lookupAt (done : List String) : List String → MemNode → Except MfsError MemNode
  | [], node => .ok node
  | part :: _, .file _ => .error (.notADirectory (join (done ++ [part])))
  | part :: parts, .directory entries =>
    match child entries part with
    | .ok next => lookupAt (done ++ [part]) parts next
    | .error e => .error e

/-- `mfs.Lookup(root, path)`. -/
def lookup (root : MemNode) (path : String) : Except MfsError MemNode :=
  lookupAt [] (lookupParts path) root

/-- `getParentDir(root, dir)`: the entries of the directory at `dir`. -/
def getParentDir (root : MemNode) (dir : String) : Except MfsError (List (String × MemNode)) :=
  match lookup root dir with
  | .ok (.directory entries) => .ok entries
  | .ok (.file _) => .error .notMfsDirectory
  | .error e => .error e

/-- Apply `f` to the node of the first entry named `name`. -/
def updateEntry (name : String) (f : MemNode → MemNode) :
    List (String × MemNode) → List (String × MemNode)
  | [] => []
  | (key, node) :: rest =>
    if key = name then (key, f node) :: rest else (key, node) :: updateEntry name f rest

/-- The tree after the node `lookupAt` reaches along `parts` is changed by `f` in place; the
tree is unchanged where the walk fails. -/
def modifyAt (f : MemNode → MemNode) : List String → MemNode → MemNode
  | [], node => f node
  | _ :: _, node@(.file _) => node
  | part :: parts, .directory entries => .directory (updateEntry part (modifyAt f parts) entries)

/-- Modelled from the spec: `Directory.AddChild(name, node)` (§4.2), refused with
`mfs.ErrDirExists` when the name is taken. -/
def addChild (entries : List (String × MemNode)) (name : String) (node : MemNode) :
    Except String (List (String × MemNode)) :=
  match entries.lookup name with
  | some _ => .error "directory already has entry by that name"
  | none => .ok (entries ++ [(name, node)])

/-- Modelled from the spec: `Directory.Unlink(name)` (§4.2), the entries without `name`, or
`os.ErrNotExist` when absent. -/
def unlink (entries : List (String × MemNode)) (name : String) :
    Except MfsError (List (String × MemNode)) :=
  match entries.lookup name with
  | some _ => .ok (entries.filter (·.1 != name))
  | none => .error .notExist

/-! ### File content -/

/-- Modelled from the spec (§4.3) and `DagModifier.Seek`: the content after seeking to `offset`,
which fills a gap past the end with zero bytes, and writing `data` there, over what it covers. -/
def writeAt (content : List UInt8) (offset : Nat) (data : List UInt8) : List UInt8 :=
  let padded := content ++ List.replicate (offset - content.length) 0
  padded.take offset ++ data ++ padded.drop (offset + data.length)

/-- A file node with its content changed by `f`; a directory stays as it is. -/
def MemNode.mapContent (f : List UInt8 → List UInt8) : MemNode → MemNode
  | .file content => .file (f content)
  | node => node

/-! ### MFS as a map from paths

The tree is what the commands keep; what a client observes through `files read`, `files stat`
and `files ls` is, for each path, whether it names a file with its bytes or a directory. -/

/-- What a path names. -/
inductive Entry where
  | file (content : List UInt8)
  | directory
  deriving DecidableEq, Repr

/-- What a node is, seen from its path. -/
def MemNode.entry : MemNode → Entry
  | .file content => .file content
  | .directory _ => .directory

/-- The node the walk along `parts` reaches, if each element names an entry. -/
def nodeAt : List String → MemNode → Option MemNode
  | [], node => some node
  | _ :: _, .file _ => none
  | part :: parts, .directory entries => (entries.lookup part).bind (nodeAt parts)

/-- The tree as a map from the parts of a path to what it names. -/
def view (root : MemNode) (parts : List String) : Option Entry :=
  (nodeAt parts root).map MemNode.entry

/-- The map `v` with the file at `place` holding `content`. -/
def setFile (v : List String → Option Entry) (place : List String) (content : List UInt8) :
    List String → Option Entry :=
  fun parts => if parts = place then some (.file content) else v parts

/-- The bytes of the file at `parts`; none where there is no file. -/
def contentAt (v : List String → Option Entry) (parts : List String) : List UInt8 :=
  match v parts with
  | some (.file content) => content
  | _ => []

/-- `v'` is `v` with `w` grafted at `place`: the paths through `place` name what `w` names
below it, and every other path names what it named in `v`. -/
def Grafted (v v' : List String → Option Entry) (place : List String)
    (w : List String → Option Entry) : Prop :=
  (∀ r, v' (place ++ r) = w r) ∧ ∀ q, (∀ r, q ≠ place ++ r) → v' q = v q

@[simp] theorem setFile_setFile (v : List String → Option Entry) (place : List String)
    (content content' : List UInt8) :
    setFile (setFile v place content) place content' = setFile v place content' := by
  funext parts
  by_cases h : parts = place <;> simp [setFile, h]

theorem setFile_of_eq {v : List String → Option Entry} {place : List String}
    {content : List UInt8} (h : v place = some (.file content)) : setFile v place content = v := by
  funext parts
  by_cases hp : parts = place
  · rw [setFile, if_pos hp, hp, h]
  · rw [setFile, if_neg hp]

/-! ### The walk, on the tree and on the map -/

theorem child_eq_ok {entries : List (String × MemNode)} {name : String} {node : MemNode} :
    child entries name = .ok node ↔ entries.lookup name = some node := by
  unfold child
  cases entries.lookup name <;> simp

theorem lookup_eq_none_of_child {entries : List (String × MemNode)} {name : String}
    {e : MfsError} (h : child entries name = .error e) : entries.lookup name = none := by
  unfold child at h
  cases hl : entries.lookup name
  · rfl
  · rw [hl] at h
    cases h

theorem lookupAt_eq_ok_iff : ∀ {done parts : List String} {node n : MemNode},
    lookupAt done parts node = .ok n ↔ nodeAt parts node = some n
  | _, [], _, _ => by simp [lookupAt, nodeAt]
  | _, _ :: _, .file _, _ => by simp [lookupAt, nodeAt]
  | _, part :: _, .directory entries, _ => by
    simp only [lookupAt, nodeAt, child]
    cases entries.lookup part with
    | none => simp
    | some next => exact lookupAt_eq_ok_iff

theorem nodeAt_eq_none {done parts : List String} {node : MemNode} {e : MfsError}
    (h : lookupAt done parts node = .error e) : nodeAt parts node = none := by
  cases hn : nodeAt parts node with
  | none => rfl
  | some n => rw [lookupAt_eq_ok_iff.2 hn] at h; cases h

theorem getParentDir_eq_ok {root : MemNode} {dir : String} {entries : List (String × MemNode)} :
    getParentDir root dir = .ok entries ↔ nodeAt (lookupParts dir) root = some (.directory entries) := by
  rw [← lookupAt_eq_ok_iff, getParentDir, lookup]
  cases lookupAt [] (lookupParts dir) root with
  | error => simp
  | ok node => cases node <;> simp
theorem nodeAt_append (r : List String) : ∀ (p : List String) (node : MemNode),
    nodeAt (p ++ r) node = (nodeAt p node).bind (nodeAt r)
  | [], _ => rfl
  | _ :: _, .file _ => rfl
  | part :: p, .directory entries => by
    show (entries.lookup part).bind (nodeAt (p ++ r)) = _
    rw [nodeAt, Option.bind_assoc]
    exact congrArg _ (funext (nodeAt_append r p))

theorem view_append {p : List String} {node n : MemNode} (h : nodeAt p node = some n)
    (r : List String) : view node (p ++ r) = view n r := by
  simp [view, nodeAt_append, h]

theorem view_append_of_none {root : MemNode} {p : List String} (h : view root p = none)
    (r : List String) : view root (p ++ r) = none := by
  simp only [view, Option.map_eq_none'] at h ⊢
  rw [nodeAt_append, h]
  rfl

@[simp] theorem view_nil (node : MemNode) : view node [] = some node.entry := rfl

@[simp] theorem view_file_cons (content : List UInt8) (part : String) (parts : List String) :
    view (.file content) (part :: parts) = none := rfl

theorem view_directory_cons (entries : List (String × MemNode)) (part : String)
    (parts : List String) :
    view (.directory entries) (part :: parts) = (entries.lookup part).bind fun n => view n parts := by
  simp [view, nodeAt, Function.comp_def]

theorem view_eq_file_iff {parts : List String} {node : MemNode} {content : List UInt8} :
    view node parts = some (.file content) ↔ nodeAt parts node = some (.file content) := by
  simp only [view, Option.map_eq_some']
  constructor
  · rintro ⟨n, hn, he⟩
    cases n <;> cases he
    exact hn
  · exact fun h => ⟨_, h, rfl⟩

/-! ### What changing one node does to the map -/

theorem lookup_updateEntry (name key : String) (f : MemNode → MemNode) :
    ∀ entries : List (String × MemNode), (updateEntry name f entries).lookup key =
      if key = name then (entries.lookup key).map f else entries.lookup key
  | [] => by simp [updateEntry]
  | (k, node) :: rest => by
    have ih := lookup_updateEntry name key f rest
    by_cases h : key = k
    · subst h
      by_cases hk : key = name <;> simp [updateEntry, hk]
    · have hb : (key == k) = false := beq_false_of_ne h
      by_cases hk : k = name
      · subst hk
        simp [updateEntry, List.lookup_cons, h, hb]
      · simp [updateEntry, List.lookup_cons, hk, hb, ih]

theorem nodeAt_modifyAt (f : MemNode → MemNode) : ∀ {p : List String} {node n : MemNode},
    nodeAt p node = some n → nodeAt p (modifyAt f p node) = some (f n)
  | [], _, _, h => by cases h; rfl
  | _ :: _, .file _, _, h => by cases h
  | part :: _, .directory entries, _, h => by
    obtain ⟨next, hnext, hp⟩ := Option.bind_eq_some.1 h
    simp only [modifyAt, nodeAt, lookup_updateEntry, if_pos rfl, hnext, Option.map_some',
      Option.some_bind]
    exact nodeAt_modifyAt f hp

/-- A change at `p` leaves every path that does not run through `p` naming what it named: a
path off `p` reaches the same node, and one that stops short of `p` reaches a directory that
stays one. -/
theorem view_modifyAt_of_ne (f : MemNode → MemNode) : ∀ {p q : List String} (node : MemNode),
    (∀ r, q ≠ p ++ r) → view (modifyAt f p node) q = view node q
  | [], q, _, hq => absurd (List.nil_append q).symm (hq q)
  | _ :: _, _, .file _, _ => rfl
  | _ :: _, [], .directory _, _ => rfl
  | part :: _, a :: _, .directory entries, hq => by
    rw [modifyAt, view_directory_cons, view_directory_cons, lookup_updateEntry]
    split_ifs with ha
    · subst ha
      cases entries.lookup a with
      | none => rfl
      | some next => exact view_modifyAt_of_ne f next fun r h => hq r (by rw [h]; rfl)
    · rfl

/-- Changing the bytes of the file at `p` sets that file in the map, and nothing else. -/
theorem view_modifyAt_mapContent (g : List UInt8 → List UInt8) {p : List String}
    {node : MemNode} {content : List UInt8} (h : view node p = some (.file content)) :
    view (modifyAt (MemNode.mapContent g) p node) = setFile (view node) p (g content) := by
  have hn := view_eq_file_iff.1 h
  funext q
  by_cases hq : ∃ r, q = p ++ r
  · obtain ⟨r, rfl⟩ := hq
    rw [view_append (nodeAt_modifyAt _ hn)]
    cases r <;> simp [setFile, view_append hn, MemNode.mapContent, MemNode.entry]
  · push_neg at hq
    rw [view_modifyAt_of_ne _ _ hq, setFile, if_neg (by simpa using hq [])]

theorem addChild_eq_ok {entries entries' : List (String × MemNode)} {name : String}
    {node : MemNode} :
    addChild entries name node = .ok entries' ↔
      entries.lookup name = none ∧ entries' = entries ++ [(name, node)] := by
  unfold addChild
  cases entries.lookup name <;> simp [eq_comm]

theorem lookup_append_of_ne {entries : List (String × MemNode)} {name a : String}
    {node : MemNode} (ha : a ≠ name) :
    (entries ++ [(name, node)]).lookup a = entries.lookup a := by
  simp [List.lookup_append, List.lookup_cons, beq_false_of_ne ha]

theorem lookup_filter_of_ne (name a : String) (ha : a ≠ name) :
    ∀ entries : List (String × MemNode),
      (entries.filter (·.1 != name)).lookup a = entries.lookup a
  | [] => rfl
  | (k, node) :: rest => by
    by_cases hk : k = name
    · subst hk
      simp [List.lookup_cons, beq_false_of_ne ha, lookup_filter_of_ne k a ha rest]
    · simp [hk, List.lookup_cons, lookup_filter_of_ne name a ha rest]

theorem lookup_filter_self (name : String) :
    ∀ entries : List (String × MemNode), (entries.filter (·.1 != name)).lookup name = none
  | [] => rfl
  | (k, node) :: rest => by
    by_cases hk : k = name
    · simp [hk, lookup_filter_self name rest]
    · simp [hk, List.lookup_cons, beq_false_of_ne (Ne.symm hk), lookup_filter_self name rest]

theorem unlink_eq_ok {entries entries' : List (String × MemNode)} {name : String} :
    unlink entries name = .ok entries' ↔
      (entries.lookup name).isSome ∧ entries' = entries.filter (·.1 != name) := by
  unfold unlink
  cases entries.lookup name <;> simp [eq_comm]

/-- Changing the entries of the directory at `d` so that every name but `name` keeps its node
leaves every path that does not run through `d ++ [name]` naming what it named. -/
theorem view_modifyAt_entries_of_ne {d : List String} {node : MemNode}
    {entries entries' : List (String × MemNode)} {name : String}
    (h : nodeAt d node = some (.directory entries))
    (hsame : ∀ a, a ≠ name → entries'.lookup a = entries.lookup a) {q : List String}
    (hq : ∀ r, q ≠ d ++ name :: r) :
    view (modifyAt (fun _ => .directory entries') d node) q = view node q := by
  by_cases hd : ∃ r, q = d ++ r
  · obtain ⟨r, rfl⟩ := hd
    rw [view_append (nodeAt_modifyAt _ h), view_append h]
    rcases r with _ | ⟨a, r⟩
    · rfl
    · have ha : a ≠ name := fun ha => hq r (by rw [ha])
      simp only [view_directory_cons, hsame a ha]
  · push_neg at hd
    exact view_modifyAt_of_ne _ _ hd

/-- Through `d ++ [name]`, the changed tree shows the new entry `name`. -/
theorem view_modifyAt_entries_child {d : List String} {node : MemNode}
    {entries entries' : List (String × MemNode)} {name : String}
    (h : nodeAt d node = some (.directory entries)) (r : List String) :
    view (modifyAt (fun _ => .directory entries') d node) (d ++ name :: r) =
      (entries'.lookup name).bind fun n => view n r := by
  simp only [view_append (nodeAt_modifyAt _ h), view_directory_cons]

/-- Adding an empty file `name` to the directory at `d`, where `name` is free, sets a file at
`d ++ [name]` in the map, and nothing else. -/
theorem view_modifyAt_addChild {d : List String} {node : MemNode}
    {entries : List (String × MemNode)} {name : String}
    (h : nodeAt d node = some (.directory entries)) (hname : entries.lookup name = none) :
    view (modifyAt (fun _ => .directory (entries ++ [(name, .file [])])) d node) =
      setFile (view node) (d ++ [name]) [] := by
  funext q
  by_cases hq : ∃ r, q = d ++ name :: r
  · obtain ⟨r, rfl⟩ := hq
    rw [view_modifyAt_entries_child h, List.lookup_append, hname]
    simp only [setFile, view_append h, view_directory_cons, hname]
    cases r <;> simp [MemNode.entry]
  · push_neg at hq
    rw [view_modifyAt_entries_of_ne h (fun _ => lookup_append_of_ne) hq, setFile, if_neg (hq [])]

/-- A change of bytes at a file the map already sets composes with it. -/
theorem view_mapContent_of_setFile {node : MemNode} {v : List String → Option Entry}
    {p : List String} {content : List UInt8} (h : view node = setFile v p content)
    (g : List UInt8 → List UInt8) :
    view (modifyAt (MemNode.mapContent g) p node) = setFile v p (g content) := by
  rw [view_modifyAt_mapContent g (by rw [h, setFile, if_pos rfl]), h, setFile_setFile]

/-! ### The bytes of a write -/

theorem length_writeAt (content : List UInt8) (offset : Nat) (data : List UInt8) :
    (writeAt content offset data).length = max content.length (offset + data.length) := by
  simp only [writeAt, List.length_append, List.length_take, List.length_drop,
    List.length_replicate]
  omega

/-- Reading from the offset as many bytes as were written gives them back. -/
theorem take_drop_writeAt (content : List UInt8) (offset : Nat) (data : List UInt8) :
    ((writeAt content offset data).drop offset).take data.length = data := by
  have h : (List.take offset (content ++ List.replicate (offset - content.length) 0)).length =
      offset := by
    simp only [List.length_take, List.length_append, List.length_replicate]
    omega
  simp only [writeAt, List.append_assoc, List.drop_left' h, List.take_left]

end BockIpfs.MfsTree
