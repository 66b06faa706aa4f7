import BockIpfs.VirtualFsFrame

/-!
# The drive's API routes and the persisted tree

`data/virtualFs.json` holds the tree between requests; `loadVirtualFsFromDisk` parses it (or
starts a fresh root) and `saveVirtualFsToDisk` writes it back, and `JSON.parse` gives back what
`JSON.stringify` wrote, so the file is modelled as the tree itself.

`POST /api/fs/add-folder` loads the tree and adds the folder in memory, but never saves it: it
answers `{success: true}` and the next load still has the old tree. `POST /api/fs/add-file` is
a chain of segments between awaits; Node.js runs one segment of one request at a time, in any
order the event loop picks. Its last segment loads, adds and saves with no await in between, so
every interleaving leaves the file as running the committed uploads one after another would,
and no update is lost: every upload that answers success without a warning has its entry in
the file from then on, if its name is a single path component, and every entry persisted
before stays.
-/

namespace BockIpfs.FsRoutes

open Paths VirtualFs VirtualFsFrame

/-- `loadVirtualFsFromDisk()`: the persisted tree, or a fresh root while the file is missing. -/
def loadVirtualFsFromDisk (disk : Option VfsNode) : VfsNode :=
  disk.getD (.folder "/" [])

/-- `saveVirtualFsToDisk(vfs)`: the file afterwards. -/
def saveVirtualFsToDisk (vfs : VfsNode) : Option VfsNode := some vfs

/-! ### `POST /api/fs/add-folder` -/

/-- The answers of `POST /api/fs/add-folder`. -/
inductive AddFolderResponse where
  /-- `{success: true}`. -/
  | success
  /-- `{error: 'Failed to add folder'}` with status 500. -/
  | failed
  deriving DecidableEq, Repr

/-- `POST /api/fs/add-folder` with the body's `path` (`none` when the body is not JSON or its
`path` is not a string, so that `addFolder` throws): the file afterwards and the answer. The
tree `addFolder` changes is dropped. -/
def addFolderRoute (disk : Option VfsNode) (path : Option String) :
    Option VfsNode × AddFolderResponse :=
  match path with
  | none => (disk, .failed)
  | some path =>
    let _vfs := addFolder (loadVirtualFsFromDisk disk) path
    (disk, .success)

/-- `POST /api/fs/add-folder` answers success for every persisted tree and path, but the file
keeps the old tree, so the page's refetch resolves the path as before the call. From an empty
root, `/Docs` is still missing after the route answered success. -/
theorem add_folder_route_not_saved (t : VfsNode) (p : String) :
    addFolderRoute (some t) (some p) = (some t, .success) ∧
      getByPath (loadVirtualFsFromDisk (addFolderRoute (some t) (some p)).1) p = getByPath t p ∧
      getByPath (loadVirtualFsFromDisk (addFolderRoute (some createVirtualFs) (some "/Docs")).1)
        "/Docs" = none :=
  ⟨rfl, rfl, by decide⟩

/-! ### `POST /api/fs/add-file` -/

/-- The answers of `POST /api/fs/add-file`. -/
inductive AddFileResponse where
  /-- `{error: 'No file provided'}` with status 400. -/
  | noFile
  /-- `{success: true, cid, path, size, name}`, with a `warning` when the tree was not updated. -/
  | uploaded (cid path name : String) (size : Nat) (warning : Option String)
  /-- `{error: 'IPFS upload failed', details}` with status 500. -/
  | ipfsFailed (details : String)
  /-- `{error: 'Failed to upload file', details, type}` with status 500: the error's message and
  the name of its constructor. -/
  | failed (details type : String)
  deriving DecidableEq, Repr

/-- What the outside world does at one request's awaits. -/
structure Upload where
  /-- `await req.formData()` and `formData.get('file')`: the file's name and size, no file, or
  the message and constructor name of the error thrown before the first await returns (by the
  form parser, or by `file.arrayBuffer` when the field is not a file). -/
  form : Except (String × String) (Option (String × Nat))
  /-- `await fetch(...)` to the IPFS daemon and `await ipfsResponse.text()`: status, status text
  and body, or the error the fetch rejects with. -/
  ipfs : Except String (Nat × String × String)
  /-- Whether the three `await import(...)` of the file-system modules resolve. -/
  importsResolve : Bool
  /-- The clock reading `new Date().toISOString()` gives inside `addFile`. -/
  timestamp : String
  deriving Repr

/-- The group of `/"Hash":"([^"]+)"/` when it matches at the start of `text`: the non-empty run
of non-quote characters after `"Hash":"`, closed by a quote. -/
def hashAt (text : List Char) : Option String :=
  if "\"Hash\":\"".toList <+: text then
    let rest := text.drop 8
    let value := rest.takeWhile (· != '"')
    if value ≠ [] ∧ (rest.drop value.length).head? = some '"' then some (String.mk value) else none
  else none

/-- `text.match(/"Hash":"([^"]+)"/)?.[1]`: the group of the leftmost match. -/
def extractHash : List Char → Option String
  | [] => none
  | c :: text => (hashAt (c :: text)).orElse fun _ => extractHash text

/-- Where one request's handler is suspended: before it runs, at each of its awaits, or done
with its answer. -/
inductive Stage where
  | start
  | arrayBuffer (name : String) (size : Nat)
  | fetch (name : String) (size : Nat)
  | text (name : String) (size : Nat)
  | importLoad (name : String) (size : Nat) (cid : String)
  | importFs (name : String) (size : Nat) (cid : String)
  | importSave (name : String) (size : Nat) (cid : String)
  | responded (response : AddFileResponse)
  deriving DecidableEq, Repr

/-- The success answer for an upload of `name`. -/
def uploadedResponse (name : String) (size : Nat) (cid : String) (warning : Option String) :
    AddFileResponse :=
  .uploaded cid ("/" ++ name) name size warning

/-- One segment of `POST /api/fs/add-file`: resume at the stage's await and run to the next
await or to the answer. Only the last segment touches the file: it loads the tree, adds the
file at `/${file.name}` and saves, with no await in between. -/
def advance (upload : Upload) (disk : Option VfsNode) : Stage → Stage × Option VfsNode
  | .start =>
    match upload.form with
    | .error (details, type) => (.responded (.failed details type), disk)
    | .ok none => (.responded .noFile, disk)
    | .ok (some (name, size)) => (.arrayBuffer name size, disk)
  | .arrayBuffer name size => (.fetch name size, disk)
  | .fetch name size =>
    match upload.ipfs with
    | .error details => (.responded (.ipfsFailed details), disk)
    | .ok (status, statusText, _) =>
      if 200 ≤ status ∧ status < 300 then (.text name size, disk)
      else (.responded (.ipfsFailed ("IPFS API returned " ++ toString status ++ ": " ++ statusText)),
        disk)
  | .text name size =>
    match upload.ipfs with
    | .ok (_, _, body) =>
      match extractHash body.toList with
      | some cid => (.importLoad name size cid, disk)
      | none => (.responded (.ipfsFailed "Could not extract hash from IPFS response"), disk)
    | .error details => (.responded (.ipfsFailed details), disk)
  | .importLoad name size cid =>
    if upload.importsResolve then (.importFs name size cid, disk)
    else (.responded (uploadedResponse name size cid
      (some "File uploaded to IPFS but VFS update failed")), disk)
  | .importFs name size cid => (.importSave name size cid, disk)
  | .importSave name size cid =>
    let vfs := addFile (loadVirtualFsFromDisk disk) ("/" ++ name) cid upload.timestamp
    (.responded (uploadedResponse name size cid none), saveVirtualFsToDisk vfs)
  | .responded response => (.responded response, disk)

/-- The server: the file, and each concurrent request with what the world does at its awaits
and where it is suspended. -/
structure Server where
  /-- `data/virtualFs.json`. -/
  disk : Option VfsNode
  /-- The requests in flight or answered. -/
  requests : List (Upload × Stage)

/-- The event loop resumes request `i` for one segment. -/
def step (s : Server) (i : Nat) : Server :=
  match s.requests[i]? with
  | none => s
  | some (upload, stage) =>
    let next := advance upload s.disk stage
    { disk := next.2, requests := s.requests.set i (upload, next.1) }

/-- A run of the event loop: the requests resumed, one segment each, in `schedule` order. -/
def run (s : Server) (schedule : List Nat) : Server := schedule.foldl step s

/-- All requests arrive at a server whose file holds `t`. -/
def initial (t : VfsNode) (uploads : List Upload) : Server :=
  { disk := some t, requests := uploads.map fun upload => (upload, .start) }

/-! ### No interleaving loses an upload -/

/-- The children of the root folder. -/
def rootChildren : VfsNode → List VfsNode
  | .file .. => []
  | .folder _ children => children

/-- A file name that `addFile` puts in the root: one non-empty component. -/
def SingleName (name : String) : Prop := name ≠ "" ∧ '/' ∉ name.toList

/-- What every reachable state of a run from a file holding `t` satisfies: the file holds an
extension of `t`, and every upload answered success without a warning, under a single-component
name, has its entry among the root's children. -/
def Durable (t : VfsNode) (s : Server) : Prop :=
  Extends t (loadVirtualFsFromDisk s.disk) ∧ s.disk.isSome ∧
    ∀ upload cid path name size,
      (upload, .responded (.uploaded cid path name size none)) ∈ s.requests → SingleName name →
        .file name cid upload.timestamp ∈ rootChildren (loadVirtualFsFromDisk s.disk)

/-- What one segment can do: the last one loads, adds and saves, and answers success without a
warning; every other one leaves the file alone and answers no such success unless it was
already given. -/
theorem advance_cases (upload : Upload) (disk : Option VfsNode) (stage : Stage) :
    (∃ name size cid, stage = .importSave name size cid ∧
      advance upload disk stage = (.responded (uploadedResponse name size cid none),
        some (addFile (loadVirtualFsFromDisk disk) ("/" ++ name) cid upload.timestamp))) ∨
    ((advance upload disk stage).2 = disk ∧ ∀ cid path name size,
      (advance upload disk stage).1 = .responded (.uploaded cid path name size none) →
        stage = (advance upload disk stage).1) := by
  cases stage
  case importSave name size cid => exact .inl ⟨name, size, cid, rfl, rfl⟩
  case responded => exact .inr ⟨rfl, fun _ _ _ _ _ => rfl⟩
  -- every other segment only moves to the next await or answers without touching the file
  all_goals
    refine .inr ⟨?_, fun _ _ _ _ h => ?_⟩
    · simp only [advance]
      repeat' split
      all_goals rfl
    · simp only [advance] at h
      repeat' split at h
      all_goals simp [uploadedResponse] at h

/-- `/${name}` for a single-component name is the one component `name`. -/
theorem pathParts_slash_name {name : String} (h : SingleName name) :
    pathParts ("/" ++ name) = [name] := by
  simpa [String.intercalate, String.intercalate.go] using
    pathParts_folderPath (show ∀ s ∈ [name], s ≠ "" ∧ '/' ∉ s.toList by simpa using h)

/-- `addFile` of a single-component name into a folder root appends the entry to the root. -/
theorem mem_rootChildren_addFile {root : VfsNode} (hroot : root.isFolder = true) {name : String}
    (h : SingleName name) (cid timestamp : String) :
    .file name cid timestamp ∈ rootChildren (addFile root ("/" ++ name) cid timestamp) := by
  obtain ⟨rootName, children, rfl⟩ := isFolder_iff.1 hroot
  rw [addFile_eq (show pathParts ("/" ++ name) = [] ++ [name] by simpa using pathParts_slash_name h)]
  simp [pushAt, rootChildren]

/-- An extension keeps every file of the root. -/
theorem mem_rootChildren_of_extends {a b : VfsNode} (hab : Extends a b)
    {name cid timestamp : String} (h : .file name cid timestamp ∈ rootChildren a) :
    .file name cid timestamp ∈ rootChildren b := by
  match a, b, hab with
  | .file .., _, _ => simp [rootChildren] at h
  | .folder .., .folder .., ⟨_, hl⟩ => exact file_mem_of_extendsList hl h

@[simp] theorem loadVirtualFsFromDisk_some (vfs : VfsNode) :
    loadVirtualFsFromDisk (some vfs) = vfs := rfl

/-- One segment of any request keeps the run durable. -/
theorem durable_step {t : VfsNode} (ht : t.isFolder = true) {s : Server} (hs : Durable t s)
    (i : Nat) : Durable t (step s i) := by
  obtain ⟨hext, hsome, hmem⟩ := hs
  cases hi : s.requests[i]? with
  | none => simpa only [step, hi] using ⟨hext, hsome, hmem⟩
  | some entry =>
    obtain ⟨upload, stage⟩ := entry
    simp only [step, hi]
    rcases advance_cases upload s.disk stage with ⟨name, size, cid, rfl, hadv⟩ | ⟨hdisk, hresp⟩
    · have hfold : (loadVirtualFsFromDisk s.disk).isFolder = true := hext.isFolder_eq.trans ht
      have hext' := extends_addFile (loadVirtualFsFromDisk s.disk) ("/" ++ name) cid
        upload.timestamp
      rw [hadv]
      refine ⟨extends_trans hext hext', rfl, fun u c p n sz hm hn => ?_⟩
      rcases List.mem_or_eq_of_mem_set hm with hm | he
      · exact mem_rootChildren_of_extends hext' (hmem u c p n sz hm hn)
      · simp only [uploadedResponse, Prod.mk.injEq, Stage.responded.injEq,
          AddFileResponse.uploaded.injEq] at he
        obtain ⟨rfl, rfl, -, rfl, -, -⟩ := he
        exact mem_rootChildren_addFile hfold hn c u.timestamp
    · refine ⟨by rw [hdisk]; exact hext, by rw [hdisk]; exact hsome, fun u c p n sz hm hn => ?_⟩
      rw [hdisk]
      rcases List.mem_or_eq_of_mem_set hm with hm | he
      · exact hmem u c p n sz hm hn
      · obtain ⟨rfl, hst⟩ := Prod.mk.inj he
        rw [(hresp c p n sz hst.symm).trans hst.symm] at hi
        exact hmem u c p n sz (List.getElem?_mem hi) hn

theorem durable_run {t : VfsNode} (ht : t.isFolder = true) :
    ∀ (schedule : List Nat) (s : Server), Durable t s → Durable t (run s schedule)
  | [], _, hs => hs
  | i :: schedule, _, hs => durable_run ht schedule _ (durable_step ht hs i)

/-- Concurrent uploads lose no entry. For every persisted tree with a folder root, any uploads
and any order of their segments, the file holds at every point of the run an extension of the
tree it started with, so no entry persisted before is lost, and every upload that answered
success without a warning, under a file name that is a single path component, has a file entry
with that name, its CID and its timestamp in the root folder. -/
theorem concurrent_uploads_durable (t : VfsNode) (ht : t.isFolder = true) (uploads : List Upload)
    (schedule : List Nat) :
    Extends t (loadVirtualFsFromDisk (run (initial t uploads) schedule).disk) ∧
      ∀ upload cid path name size,
        (upload, .responded (.uploaded cid path name size none)) ∈
          (run (initial t uploads) schedule).requests → SingleName name →
        .file name cid upload.timestamp ∈
          rootChildren (loadVirtualFsFromDisk (run (initial t uploads) schedule).disk) := by
  obtain ⟨hext, -, hmem⟩ := durable_run ht schedule (initial t uploads)
    ⟨extends_refl t, rfl, fun _ _ _ _ _ hm => by simp [initial] at hm⟩
  exact ⟨hext, hmem⟩

/-! ### The uploads commit in a serial order -/

/-- What one segment adds to the file: the last segment of an upload adds its file name, CID and
timestamp; every other segment adds nothing. -/
def committed (s : Server) (i : Nat) : List (String × String × String) :=
  match s.requests[i]? with
  | some (upload, .importSave name _ cid) => [(name, cid, upload.timestamp)]
  | _ => []

/-- The uploads whose last segment runs during `schedule`, in the order it runs. -/
def commits (s : Server) : List Nat → List (String × String × String)
  | [] => []
  | i :: schedule => committed s i ++ commits (step s i) schedule

/-- The tree after `addFile` of each committed upload, one after another. -/
def applyCommits (t : VfsNode) (log : List (String × String × String)) : VfsNode :=
  log.foldl (fun t entry => addFile t ("/" ++ entry.1) entry.2.1 entry.2.2) t

/-- One segment changes the file exactly by the upload it commits, if any. -/
theorem load_step (s : Server) (i : Nat) :
    loadVirtualFsFromDisk (step s i).disk =
      applyCommits (loadVirtualFsFromDisk s.disk) (committed s i) := by
  unfold step committed
  cases hi : s.requests[i]? with
  | none => rfl
  | some entry =>
    obtain ⟨upload, stage⟩ := entry
    have hdisk := advance_cases upload s.disk stage
    -- the last segment adds its upload; every other one leaves the file as it was
    cases stage
    case importSave name size cid =>
      simp only [advance, saveVirtualFsToDisk, loadVirtualFsFromDisk, applyCommits, List.foldl_cons,
        List.foldl_nil, Option.getD_some]
    all_goals simp only [(hdisk.resolve_left (by simp)).1]; rfl

/-- Every interleaving of the uploads leaves the file as a serial execution would: the tree it
started with, with `addFile` applied for each upload whose last segment ran, in the order those
segments ran. No upload's update is lost or applied twice. -/
theorem run_serializable (s : Server) (schedule : List Nat) :
    loadVirtualFsFromDisk (run s schedule).disk =
      applyCommits (loadVirtualFsFromDisk s.disk) (commits s schedule) := by
  induction schedule generalizing s with
  | nil => rfl
  | cons i schedule ih =>
    rw [run, List.foldl_cons, ← run, ih, load_step, commits, applyCommits, applyCommits,
      applyCommits, List.foldl_append]

/-- An upload of `name` (three bytes) that the daemon accepts as `QmX`. -/
def uploadNamed (name : String) : Upload :=
  { form := .ok (some (name, 3)), ipfs := .ok (200, "OK", "\"Hash\":\"QmX\""),
    importsResolve := true, timestamp := "t0" }

/-- The seven segments of one request, run back to back. -/
def oneRequest : List Nat := [0, 0, 0, 0, 0, 0, 0]

/-- One upload of `a.txt` from an empty root. -/
theorem upload_from_empty_root :
    createVirtualFs.isFolder = true ∧
      (Extends createVirtualFs (loadVirtualFsFromDisk
          (run (initial createVirtualFs [uploadNamed "a.txt"]) oneRequest).disk) ∧
        ∀ upload cid path name size,
          (upload, .responded (.uploaded cid path name size none)) ∈
            (run (initial createVirtualFs [uploadNamed "a.txt"]) oneRequest).requests →
            SingleName name →
          .file name cid upload.timestamp ∈ rootChildren (loadVirtualFsFromDisk
            (run (initial createVirtualFs [uploadNamed "a.txt"]) oneRequest).disk)) :=
  ⟨rfl, concurrent_uploads_durable createVirtualFs rfl [uploadNamed "a.txt"] oneRequest⟩

/-- An upload named `docs/a.txt`, a name that is not one path component, answers success
without a warning, but `addFile` finds no folder `/docs`, and the file keeps the empty root. -/
theorem slashed_name_not_indexed :
    (run (initial createVirtualFs [uploadNamed "docs/a.txt"]) oneRequest).requests.map Prod.snd =
        [.responded (uploadedResponse "docs/a.txt" 3 "QmX" none)] ∧
      (run (initial createVirtualFs [uploadNamed "docs/a.txt"]) oneRequest).disk =
        some createVirtualFs := by
  decide

end BockIpfs.FsRoutes
