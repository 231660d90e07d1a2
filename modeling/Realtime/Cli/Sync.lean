import Realtime.Lib.Encoding
import Realtime.Lib.JsValue
import Realtime.Lib.JsonText

/-!
# The sync of a folder with a vault

`scanLocal`, `listRemote`, `pull` and `push` of `packages/cli/src/sync.ts`, with the routing
of `kinds.ts` and the filter of `attachmentFilter.ts`. The snapshot is the plain object that
`.rtmd` has it as: a path without an entry of its own is answered by the prototype.

`Setup` has what is not of this package (the digest, the globs, the numbers of JSON), the
attachment settings of the folder and its linked directories; `VaultHandle` is the vault, by
what it answers to a write. While a pull or a push runs no one else writes to the folder or the
vault.
-/

namespace Realtime.Cli

open Lib Lib.Utf16 Lib.Json
open Lib.Js (dunderProto prototypeNames)

/-! ## Paths -/

inductive FileKind
  | note
  | canvas
  | base
  | attachment
  deriving DecidableEq

def dot : UInt16 := 46
def slash : UInt16 := 47

def lowerUnit (c : UInt16) : UInt16 := if 65 ≤ c && c ≤ 90 then c + 32 else c

/-- No letter outside of ASCII becomes one of these by `toLowerCase`. -/
def kindForPath (relPath : JsString) : FileKind :=
  let lower := relPath.map lowerUnit
  if ascii ".md" <:+ lower then .note
  else if ascii ".canvas" <:+ lower then .canvas
  else if ascii ".base" <:+ lower then .base
  else .attachment

def isExcluded (relPath : JsString) : Bool :=
  (relPath.splitOn slash).any fun seg => seg.head? = some dot

structure AttachmentSync where
  enabled : Bool
  includeGlobs : List JsString

structure Setup (ν η : Type) where
  numbers : Numbers ν
  sha256 : Bytes → η
  /-- `picomatch.isMatch(path, glob, { dot: true })` -/
  isMatch : JsString → JsString → Bool
  attachmentSync : Option AttachmentSync
  /-- Whether a directory on the way to the path is a symbolic link. No sync makes or removes
  such a link: it writes behind it, and its scan does not look there. -/
  linked : JsString → Bool

variable {ν η : Type} [DecidableEq η] (S : Setup ν η)

def shouldSyncFile (path : JsString) (kind : FileKind) : Bool :=
  if kind ≠ .attachment then true
  else
    match S.attachmentSync with
    | none => true
    | some settings =>
        settings.enabled &&
          (settings.includeGlobs.isEmpty || settings.includeGlobs.any (S.isMatch path))

/-! ## Content -/

/-- `Buffer.from(bytes).toString("utf8")` -/
def toText (bytes : Bytes) : JsString := Str.encodeUtf16 (Str.fromUtf8Lossy bytes)

/-- `Buffer.from(text, "utf8")` -/
def toBytes (text : JsString) : Bytes := Str.toUtf8 (Str.fromUtf16Lossy text)

def hashBytes (bytes : Bytes) : η := S.sha256 bytes

def hashText (text : JsString) : η := hashBytes S (toBytes text)

/-- `JSON.stringify(JSON.parse(text))`, and a text that is none as it is. -/
def normalizeStructured (text : JsString) : JsString :=
  match parse S.numbers text with
  | some value => print S.numbers [] value
  | none => text

def hashLocalContent (kind : FileKind) (bytes : Bytes) : η :=
  if kind = .canvas ∨ kind = .base then hashText S (normalizeStructured S (toText bytes))
  else hashBytes S bytes

/-! ## The snapshot -/

structure SyncFileState (η : Type) where
  kind : FileKind
  hash : η
  size : Nat
  mtimeMs : Nat

/-- Whether a field of that name is there and not `0`. -/
def SyncFileState.hasField (state : SyncFileState η) (name : JsString) : Bool :=
  name = ascii "kind" || name = ascii "hash" || (name = ascii "size" && state.size ≠ 0) ||
    (name = ascii "mtimeMs" && state.mtimeMs ≠ 0)

/-- `SyncState.files`, with the entry that an assignment to `__proto__` made its prototype. -/
structure Files (η : Type) where
  own : List (JsString × SyncFileState η) := []
  proto : Option (SyncFileState η) := none

/-- What `files[path]` is. -/
inductive Snap (η : Type)
  | absent
  | entry (state : SyncFileState η)
  /-- Of a prototype, and truthy. It has no hash, no size and no time. -/
  | other

def Snap.truthy : Snap η → Bool
  | .absent => false
  | _ => true

def Snap.hash : Snap η → Option η
  | .entry state => some state.hash
  | _ => none

namespace Files

def lookup (files : Files η) (path : JsString) : Snap η :=
  match Assoc.get path files.own with
  | some state => .entry state
  | none =>
      match files.proto with
      | none => if path ∈ prototypeNames then .other else .absent
      | some state =>
          if path = dunderProto then .entry state
          else if state.hasField path || path ∈ prototypeNames then .other
          else .absent

/-- `files[path] = state` -/
def set (files : Files η) (path : JsString) (state : SyncFileState η) : Files η :=
  if path = dunderProto ∧ path ∉ Assoc.keys files.own then { files with proto := some state }
  else { files with own := Assoc.set path state files.own }

/-- `delete files[path]` -/
def delete (files : Files η) (path : JsString) : Files η :=
  { files with own := Assoc.erase path files.own }

/-- What is left after it was written to `.rtmd` and read again. -/
def reread (files : Files η) : Files η := { own := files.own }

end Files

def forgetIgnoredAttachments (files : Files η) : Files η :=
  { files with own := files.own.filter fun e => shouldSyncFile S e.1 e.2.kind }

/-! ## The folder -/

/-- What stands at a path. A link has what it leads to, where that is a file. -/
inductive Node
  | file (bytes : Bytes) (mtimeMs : Nat)
  | link (target : Option (Bytes × Nat))

/-- What `statSync` and `readFileSync` see. -/
def Node.read : Node → Option (Bytes × Nat)
  | .file bytes mtimeMs => some (bytes, mtimeMs)
  | .link target => target

/-- The files and links by their paths, those behind a linked directory too. No two paths lead
to one file: a linked directory leads out of the folder, to a place of its own. -/
abbrev Folder := List (JsString × Node)

structure LocalEntry (η : Type) where
  kind : FileKind
  size : Nat
  mtimeMs : Nat
  hash : η

/-- The hash that the scan has of a file: that of the snapshot if size and time are those of
the snapshot. -/
def scanHash (snapshot : Files η) (rel : JsString) (bytes : Bytes) (mtimeMs : Nat) : η :=
  match snapshot.lookup rel with
  | .entry snap =>
      if snap.size = bytes.length ∧ snap.mtimeMs = mtimeMs then snap.hash
      else hashLocalContent S (kindForPath rel) bytes
  | _ => hashLocalContent S (kindForPath rel) bytes

def scanNode (snapshot : Files η) (rel : JsString) : Node → Option (LocalEntry η)
  | .link _ => none
  | .file bytes mtimeMs =>
      if isExcluded rel then none
      else if S.linked rel then none
      else if shouldSyncFile S rel (kindForPath rel) then
        some
          { kind := kindForPath rel, size := bytes.length, mtimeMs,
            hash := scanHash S snapshot rel bytes mtimeMs }
      else none

def scanLocal (folder : Folder) (snapshot : Files η) : List (JsString × LocalEntry η) :=
  folder.filterMap fun e => (scanNode S snapshot e.1 e.2).map fun l => (e.1, l)

/-- `none`: nothing can be read there. -/
def recordLocal (folder : Folder) (relPath : JsString) (kind : FileKind) (hash : η)
    (files : Files η) : Option (Files η) :=
  ((Assoc.get relPath folder).bind Node.read).map fun stat =>
    files.set relPath { kind, hash, size := stat.1.length, mtimeMs := stat.2 }

/-! ## The vault -/

inductive Stored (ν : Type)
  | note (content : JsString)
  | canvas (value : Value ν)
  | base (value : Value ν)
  | attachment (bytes : Bytes)

def Stored.kind : Stored ν → FileKind
  | .note _ => .note
  | .canvas _ => .canvas
  | .base _ => .base
  | .attachment _ => .attachment

abbrev Vault (ν : Type) := List (JsString × Stored ν)

def listRemote (vault : Vault ν) : Vault ν :=
  (vault.filter fun e => e.2.kind = .note) ++
    (vault.filter fun e => e.2.kind = .attachment && shouldSyncFile S e.1 .attachment) ++
    (vault.filter fun e => e.2.kind = .canvas) ++ (vault.filter fun e => e.2.kind = .base)

/-- The hash in a listing. -/
def Stored.listHash : Stored ν → Option η
  | .attachment bytes => some (hashBytes S bytes)
  | _ => none

structure RemoteContent (ν η : Type) where
  hash : η
  bytes : Bytes
  /-- The value whose hash is `valueHash`. -/
  value : Option (Value ν) := none

/-- `fetchRemote` -/
def fetchRemote : Stored ν → RemoteContent ν η
  | .note content => { hash := hashText S content, bytes := toBytes content }
  | .canvas value | .base value =>
      { hash := hashText S (print S.numbers [] value)
        bytes := toBytes (print S.numbers [9] value ++ [newline])
        value := some value }
  | .attachment bytes => { hash := hashBytes S bytes, bytes }

structure RemotePrecondition (ν η : Type) where
  contentHash : Option η := none
  value : Option (Value ν) := none
  absent : Bool := false

/-- What comes of a write, with what the vault then has. -/
inductive Answer (α : Type)
  | stored (content : α)
  /-- `ConflictError` -/
  | conflict
  | failed

def Answer.map {α β : Type} (f : α → β) : Answer α → Answer β
  | .stored content => .stored (f content)
  | .conflict => .conflict
  | .failed => .failed

/-- Each write with what is stored at the path before it. -/
structure VaultHandle (ν η : Type) where
  createNote : JsString → JsString → Option (Stored ν) → Answer JsString
  replaceNote : JsString → JsString → Option η → Option (Stored ν) → Answer JsString
  createStructured : FileKind → JsString → Value ν → Option (Stored ν) → Answer (Value ν)
  replaceStructured : FileKind → JsString → Value ν → Option (Value ν) → Option (Stored ν) →
    Answer (Value ν)
  uploadAttachment : JsString → Bytes → Option η → Bool → Option (Stored ν) → Answer Bytes
  delete : FileKind → JsString → Option (Stored ν) → Bool

/-! ## Pull -/

structure PullState (η : Type) where
  folder : Folder
  files : Files η
  conflicts : List (JsString × String) := []
  applied : List (String × JsString) := []

/-- One path of the listing; `now` is the time of a file written. The error is that of a path
that cannot be read. -/
def pullRemote (theirs : Bool) (scanned : List (JsString × LocalEntry η)) (now : Nat)
    (relPath : JsString) (r : Stored ν) (st : PullState η) :
    Except (PullState η) (PullState η) :=
  if isExcluded relPath then .ok st
  else
    let snap := st.files.lookup relPath
    let l := Assoc.get relPath scanned
    if snap.truthy && (r.listHash S).isSome && r.listHash S = snap.hash then .ok st
    else
      let content := fetchRemote S r
      let remoteChanged := !snap.truthy || snap.hash ≠ some content.hash
      if !remoteChanged then .ok st
      else
        let localChanged :=
          if snap.truthy then l.all fun l => snap.hash ≠ some l.hash else l.isSome
        if l.any fun l => l.hash = content.hash then
          match recordLocal st.folder relPath r.kind content.hash st.files with
          | some files => .ok { st with files }
          | none => .error st
        else if localChanged && !theirs then
          .ok { st with conflicts := st.conflicts ++
            [(relPath, "modified locally and remotely (use --theirs to overwrite)")] }
        else
          match Assoc.get relPath st.folder with
          | some (.link _) =>
              .ok { st with conflicts := st.conflicts ++
                [(relPath, "local path is a symlink; refusing to overwrite")] }
          | _ =>
              let folder := Assoc.set relPath (.file content.bytes now) st.folder
              match recordLocal folder relPath r.kind content.hash st.files with
              | some files =>
                  .ok { st with
                    folder, files
                    applied := st.applied ++
                      [(if snap.truthy then "update" else "create", relPath)] }
              | none => .error { st with folder }

/-- One path of the snapshot. -/
def pullDeleted (theirs : Bool) (scanned : List (JsString × LocalEntry η)) (listed : Vault ν)
    (st : PullState η) (relPath : JsString) : PullState η :=
  if (Assoc.get relPath listed).isSome then st
  else
    match Assoc.get relPath st.files.own with
    | none => st
    | some snap =>
        let l := Assoc.get relPath scanned
        if (l.any fun l => l.hash ≠ snap.hash) && !theirs then
          { st with conflicts := st.conflicts ++
            [(relPath, "deleted remotely but modified locally (use --theirs to delete)")] }
        else
          { st with
            folder := if l.isSome then Assoc.erase relPath st.folder else st.folder
            files := st.files.delete relPath
            applied := st.applied ++ [("delete", relPath)] }

def pullListed (theirs : Bool) (now : JsString → Nat) (vault : Vault ν) (folder : Folder)
    (files : Files η) : Except (PullState η) (PullState η) :=
  (listRemote S vault).foldlM
    (fun st e => pullRemote S theirs (scanLocal S folder files) (now e.1) e.1 e.2 st)
    { folder, files }

/-- `pull` of a folder whose snapshot has forgotten the attachments that are ignored. -/
def pullFiles (theirs : Bool) (now : JsString → Nat) (vault : Vault ν) (folder : Folder)
    (files : Files η) : Except (PullState η) (PullState η) :=
  (pullListed S theirs now vault folder files).map fun st =>
    (Assoc.keys st.files.own).foldl
      (pullDeleted theirs (scanLocal S folder files) (listRemote S vault)) st

def pull (theirs : Bool) (now : JsString → Nat) (vault : Vault ν) (folder : Folder)
    (files : Files η) : Except (PullState η) (PullState η) :=
  pullFiles S theirs now vault folder (forgetIgnoredAttachments S files)

/-! ## Push -/

/-- `failed` is a text that is no JSON, or any other error. -/
def uploadLocal (V : VaultHandle ν η) (kind : FileKind) (relPath : JsString) (bytes : Bytes)
    (fileExists : Bool) (precondition : RemotePrecondition ν η) (current : Option (Stored ν)) :
    Answer (Stored ν) :=
  match kind with
  | .note =>
      (if fileExists then
        V.replaceNote relPath (toText bytes) precondition.contentHash current
      else V.createNote relPath (toText bytes) current).map .note
  | .canvas =>
      match parse S.numbers (toText bytes) with
      | none => .failed
      | some value =>
          (if fileExists then V.replaceStructured .canvas relPath value precondition.value current
          else V.createStructured .canvas relPath value current).map .canvas
  | .base =>
      match parse S.numbers (toText bytes) with
      | none => .failed
      | some value =>
          (if fileExists then V.replaceStructured .base relPath value precondition.value current
          else V.createStructured .base relPath value current).map .base
  | .attachment =>
      (V.uploadAttachment relPath bytes precondition.contentHash precondition.absent
        current).map .attachment

structure PushState (ν η : Type) where
  vault : Vault ν
  files : Files η
  conflicts : List (JsString × String) := []
  applied : List (String × JsString) := []

/-- How far `push` gets with a path before it waits for an upload. -/
inductive Begun (ν η : Type)
  | done (st : PushState ν η)
  | threw
  | upload (bytes : Bytes) (precondition : RemotePrecondition ν η)

/-- `push` for one path: nothing to do, a conflict, or an upload with its precondition. -/
def beginPush (force : Bool) (folder : Folder) (listed : Vault ν) (relPath : JsString)
    (l : LocalEntry η) (st : PushState ν η) : Begun ν η :=
  let snap := st.files.lookup relPath
  let localChanged := !snap.truthy || snap.hash ≠ some l.hash
  let start (precondition : RemotePrecondition ν η) : Begun ν η :=
    match (Assoc.get relPath folder).bind Node.read with
    | some stat => .upload stat.1 precondition
    | none => .threw
  if !localChanged then .done st
  else
    match Assoc.get relPath listed with
    | some r =>
        if force then start {}
        else
          let remoteHash := (r.listHash S).getD (fetchRemote S r).hash
          if remoteHash = l.hash then
            match recordLocal folder relPath l.kind l.hash st.files with
            | some files => .done { st with files }
            | none => .threw
          else if !snap.truthy || snap.hash ≠ some remoteHash then
            .done { st with conflicts := st.conflicts ++
              [(relPath, "modified remotely too (use --force to overwrite)")] }
          else
            start
              { contentHash := some remoteHash
                value := if (r.listHash S).isSome then none else (fetchRemote S r).value }
    | none =>
        if snap.truthy && !force then
          .done { st with conflicts := st.conflicts ++
            [(relPath, "deleted remotely but modified locally (use --force to re-create)")] }
        else start { absent := !force }

/-- What follows once the vault has answered. -/
def finishPush (force : Bool) (folder : Folder) (relPath : JsString) (l : LocalEntry η)
    (fileExists : Bool) (answer : Answer (Stored ν)) (st : PushState ν η) :
    Except (PushState ν η) (PushState ν η) :=
  match answer with
  | .failed => .error st
  | .conflict =>
      let hint := if force then "pull, then push again" else "use --force to overwrite"
      .ok { st with conflicts := st.conflicts ++
        [(relPath, (if fileExists then "modified" else "created") ++ " remotely during push (" ++
          hint ++ ")")] }
  | .stored content =>
      let vault := Assoc.set relPath content st.vault
      match recordLocal folder relPath l.kind l.hash st.files with
      | none => .error { st with vault }
      | some files =>
          .ok { st with
            vault, files
            applied := st.applied ++ [(if fileExists then "update" else "create", relPath)] }

/-- One file of the scan. -/
def pushLocal (V : VaultHandle ν η) (force : Bool) (folder : Folder) (listed : Vault ν)
    (relPath : JsString) (l : LocalEntry η) (st : PushState ν η) :
    Except (PushState ν η) (PushState ν η) :=
  match beginPush S force folder listed relPath l st with
  | .done st => .ok st
  | .threw => .error st
  | .upload bytes precondition =>
      let fileExists := (Assoc.get relPath listed).isSome
      finishPush force folder relPath l fileExists
        (uploadLocal S V l.kind relPath bytes fileExists precondition
          (Assoc.get relPath st.vault)) st

/-- One path of the snapshot. The delete is sent without a precondition, so what it deletes is
taken to be what was listed: no one else writes to the vault in between. -/
def pushDeleted (V : VaultHandle ν η) (force : Bool) (scanned : List (JsString × LocalEntry η))
    (listed : Vault ν) (st : PushState ν η) (relPath : JsString) :
    Except (PushState ν η) (PushState ν η) :=
  if (Assoc.get relPath scanned).isSome then .ok st
  else
    match Assoc.get relPath st.files.own with
    | none => .ok st
    | some snap =>
        match Assoc.get relPath listed with
        | none => .ok { st with files := st.files.delete relPath }
        | some r =>
            if !force && (r.listHash S).getD (fetchRemote S r).hash ≠ snap.hash then
              .ok { st with conflicts := st.conflicts ++
                [(relPath, "deleted locally but modified remotely (use --force to delete)")] }
            else if V.delete snap.kind relPath (Assoc.get relPath st.vault) then
              .ok { st with
                vault := Assoc.erase relPath st.vault
                files := st.files.delete relPath
                applied := st.applied ++ [("delete", relPath)] }
            else .error st

/-- `push` of a folder whose snapshot has forgotten the attachments that are ignored. -/
def pushFiles (V : VaultHandle ν η) (force : Bool) (vault : Vault ν) (folder : Folder)
    (files : Files η) : Except (PushState ν η) (PushState ν η) := do
  let st ← (scanLocal S folder files).foldlM
    (fun st e => pushLocal S V force folder (listRemote S vault) e.1 e.2 st) { vault, files }
  (Assoc.keys st.files.own).foldlM
    (pushDeleted S V force (scanLocal S folder files) (listRemote S vault)) st

def push (V : VaultHandle ν η) (force : Bool) (vault : Vault ν) (folder : Folder)
    (files : Files η) : Except (PushState ν η) (PushState ν η) :=
  pushFiles S V force vault folder (forgetIgnoredAttachments S files)

end Realtime.Cli
