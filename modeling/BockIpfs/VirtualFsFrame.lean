import BockIpfs.VirtualFs

/-!
# Insertions only append: the frame of `addFolder` and `addFile`

Both insertions of `utils/virtualFs.ts` push at the end of one child array per folder they
visit and change nothing else. `Extends before after` says exactly that: files are unchanged,
and every folder keeps its name and has its old children, each extended, as a prefix of its
new ones. It is reflexive and transitive, so it holds along any sequence of insertions, and
first-match lookup respects it: a path that resolved before still resolves, to an extension
of the same node.
-/

namespace BockIpfs.VirtualFsFrame

open VirtualFs

mutual
/-- `Extends before after`: `after` is `before` grown by appends to child arrays only. -/
def Extends : VfsNode → VfsNode → Prop
  | .file name cid timestamp, after => after = .file name cid timestamp
  | .folder name children, .folder name' children' =>
    name' = name ∧ ExtendsList children children'
  | .folder .., .file .. => False
/-- `ExtendsList before after`: `after` starts with the extensions of `before`, in order. -/
def ExtendsList : List VfsNode → List VfsNode → Prop
  | [], _ => True
  | c :: cs, c' :: cs' => Extends c c' ∧ ExtendsList cs cs'
  | _ :: _, [] => False
end

@[simp] theorem extends_file (name cid timestamp : String) (after : VfsNode) :
    Extends (.file name cid timestamp) after ↔ after = .file name cid timestamp := Iff.rfl

@[simp] theorem extends_folder (name name' : String) (children children' : List VfsNode) :
    Extends (.folder name children) (.folder name' children') ↔
      name' = name ∧ ExtendsList children children' := Iff.rfl

@[simp] theorem extendsList_nil (after : List VfsNode) : ExtendsList [] after := trivial

@[simp] theorem extendsList_cons (c c' : VfsNode) (cs cs' : List VfsNode) :
    ExtendsList (c :: cs) (c' :: cs') ↔ Extends c c' ∧ ExtendsList cs cs' := Iff.rfl

mutual
theorem extends_refl : ∀ t : VfsNode, Extends t t
  | .file .. => rfl
  | .folder _ children => ⟨rfl, extendsList_refl children⟩
theorem extendsList_refl : ∀ cs : List VfsNode, ExtendsList cs cs
  | [] => trivial
  | c :: cs => ⟨extends_refl c, extendsList_refl cs⟩
end

mutual
theorem extends_trans : ∀ {a b c : VfsNode}, Extends a b → Extends b c → Extends a c
  | .file .., _, _, rfl, h => h
  | .folder .., .folder .., .folder .., ⟨hn, hl⟩, ⟨hn', hl'⟩ =>
    ⟨hn'.trans hn, extendsList_trans hl hl'⟩
theorem extendsList_trans : ∀ {as bs cs : List VfsNode},
    ExtendsList as bs → ExtendsList bs cs → ExtendsList as cs
  | [], _, _, _, _ => trivial
  | _ :: _, _ :: _, _ :: _, ⟨h, hs⟩, ⟨h', hs'⟩ => ⟨extends_trans h h', extendsList_trans hs hs'⟩
end

/-- An extension keeps the name. -/
theorem Extends.name_eq : ∀ {a b : VfsNode}, Extends a b → b.name = a.name
  | .file .., _, rfl => rfl
  | .folder .., .folder .., ⟨hn, _⟩ => hn

/-- An extension keeps the type. -/
theorem Extends.isFolder_eq : ∀ {a b : VfsNode}, Extends a b → b.isFolder = a.isFolder
  | .file .., _, rfl => rfl
  | .folder .., .folder .., _ => rfl

theorem extendsList_append_right : ∀ {cs cs' : List VfsNode} (extra : List VfsNode),
    ExtendsList cs cs' → ExtendsList cs (cs' ++ extra)
  | [], _, _, _ => trivial
  | _ :: _, _ :: _, _, ⟨h, hs⟩ => ⟨h, extendsList_append_right _ hs⟩

theorem extendsList_middle {c c' : VfsNode} (h : Extends c c') :
    ∀ (pre post : List VfsNode), ExtendsList (pre ++ c :: post) (pre ++ c' :: post)
  | [], post => ⟨h, extendsList_refl post⟩
  | d :: pre, post => ⟨extends_refl d, extendsList_middle h pre post⟩

/-- Mutating the first match by an extending map, or else taking a default that starts with
the old list, extends the child array. -/
theorem extendsList_modifyFirst? {p : VfsNode → Bool} {f : VfsNode → VfsNode}
    (hf : ∀ c, Extends c (f c)) (cs extra : List VfsNode) :
    ExtendsList cs ((modifyFirst? p f cs).getD (cs ++ extra)) := by
  rcases first_match_cases p cs with hnone | ⟨pre, c, post, rfl, hpre, hc⟩
  · rw [modifyFirst?_none hnone]
    exact extendsList_append_right extra (extendsList_refl cs)
  · rw [modifyFirst?_first hpre hc]
    exact extendsList_middle (hf c) pre post

/-- `addFolder`'s loop only appends. -/
theorem extends_addFolderAt : ∀ (parts : List String) (current : VfsNode),
    Extends current (addFolderAt parts current)
  | [], current => extends_refl current
  | _ :: _, .file .. => rfl
  | _ :: parts, .folder _ children =>
    ⟨rfl, extendsList_modifyFirst? (extends_addFolderAt parts) children _⟩

/-- The push of `addFile` only appends. -/
theorem extends_pushAt (entry : VfsNode) : ∀ (dir : List String) (current : VfsNode),
    Extends current (pushAt entry dir current)
  | [], .folder _ children => ⟨rfl, extendsList_append_right _ (extendsList_refl children)⟩
  | [], .file .. => rfl
  | _ :: _, .file .. => rfl
  | part :: parts, .folder name children => by
    simpa [pushAt] using extendsList_modifyFirst? (extends_pushAt entry parts) children []

theorem extends_addFolder (root : VfsNode) (path : String) : Extends root (addFolder root path) :=
  extends_addFolderAt _ root

theorem extends_addFile (root : VfsNode) (path cid timestamp : String) :
    Extends root (addFile root path cid timestamp) := by
  rcases List.eq_nil_or_concat (pathParts path) with h | ⟨dir, fileName, h⟩
  · rw [addFile_of_pathParts_eq_nil h]
    exact extends_refl root
  · rw [List.concat_eq_append] at h
    rw [addFile_eq h]
    exact extends_pushAt _ dir root

/-- First-match lookup by name in an extended child array finds the extension of the old
match: the old children come first and keep their names. -/
theorem find?_extendsList {part : String} : ∀ {cs cs' : List VfsNode} {c : VfsNode},
    ExtendsList cs cs' → cs.find? (fun child => child.name == part) = some c →
      ∃ c', cs'.find? (fun child => child.name == part) = some c' ∧ Extends c c'
  | [], _, _, _, h => by simp at h
  | d :: cs, d' :: cs', c, ⟨hd, hs⟩, h => by
    by_cases hp : d.name = part
    · have hp' : d'.name = part := hd.name_eq.trans hp
      rw [List.find?_cons_of_pos _ (by simpa using hp)] at h
      rw [List.find?_cons_of_pos _ (by simpa using hp')]
      exact ⟨d', rfl, Option.some.inj h ▸ hd⟩
    · have hp' : ¬d'.name = part := by rwa [hd.name_eq]
      rw [List.find?_cons_of_neg _ (by simpa using hp)] at h
      rw [List.find?_cons_of_neg _ (by simpa using hp')]
      exact find?_extendsList hs h

/-- A path that resolved in `before` resolves in any extension, to an extension of the old
node. -/
theorem findNodeAt_extends : ∀ {parts : List String} {before after n : VfsNode},
    Extends before after → findNodeAt parts before = some n →
      ∃ n', findNodeAt parts after = some n' ∧ Extends n n'
  | [], _, _, _, h, rfl => ⟨_, rfl, h⟩
  | _ :: _, .file .., _, _, _, h => by simp at h
  | part :: parts, .folder .., .folder .., n, ⟨_, hl⟩, h => by
    simp only [findNodeAt_cons_folder, Option.bind_eq_some] at h ⊢
    obtain ⟨c, hc, hn⟩ := h
    obtain ⟨c', hc', hcc'⟩ := find?_extendsList hl hc
    obtain ⟨n', hn', hnn'⟩ := findNodeAt_extends hcc' hn
    exact ⟨n', ⟨c', hc', hn'⟩, hnn'⟩
  | _ :: _, .folder .., .file .., _, h, _ => h.elim

/-- An extended child array keeps every file of the old one. -/
theorem file_mem_of_extendsList {name cid timestamp : String} : ∀ {cs cs' : List VfsNode},
    ExtendsList cs cs' → .file name cid timestamp ∈ cs → .file name cid timestamp ∈ cs'
  | [], _, _, h => by simp at h
  | _ :: _, _ :: _, ⟨hc, hs⟩, h => by
    rcases List.mem_cons.1 h with rfl | h
    · rw [show _ = _ from hc]
      exact List.mem_cons_self _ _
    · exact List.mem_cons_of_mem _ (file_mem_of_extendsList hs h)

/-- `addFolder` and `addFile` never lose or shadow an entry. The tree after either call
extends the tree before: every file is unchanged and every folder keeps its name and its old
children, in order, as a prefix of its new ones. A path that resolved before resolves after,
to an extension of the same node, so to a node of the same name and type, and for a file to
the same file, CID and timestamp included. -/
theorem addFolder_addFile_keep_entries (root : VfsNode) (p cid timestamp q : String) :
    Extends root (addFolder root p) ∧ Extends root (addFile root p cid timestamp) ∧
      ∀ n, getByPath root q = some n →
        (∃ n', getByPath (addFolder root p) q = some n' ∧ Extends n n') ∧
          ∃ n', getByPath (addFile root p cid timestamp) q = some n' ∧ Extends n n' :=
  ⟨extends_addFolder root p, extends_addFile root p cid timestamp, fun _ hn =>
    ⟨findNodeAt_extends (extends_addFolder root p) hn,
      findNodeAt_extends (extends_addFile root p cid timestamp) hn⟩⟩

end BockIpfs.VirtualFsFrame
