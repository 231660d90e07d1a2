import Mathlib.Data.List.Sort
import Realtime.Lib.Assoc
import Realtime.Lib.Durable
import Realtime.Storage.Segment

/-!
# Document persistence

`DocumentPersistence` of `server/src/crdt_storage.rs`: a document's directory with
its snapshots, update segments and manifest, and the operations on it.

Which file-system calls fail, and how far they got, is an input of each
operation. A temporary file never gets a name the code reads, so `atomic_write`
either leaves its target alone, or has renamed over it and may then fail to sync
the directory.
-/

namespace Realtime.Storage

open Lib Lib.Durable

def snapshotMagic : Bytes := ascii "RTCRDT02"

def snapshotHeaderBytes : Nat := 8 + 8 + 32

def maxSnapshotBytes : Nat := 512 * 1024 * 1024

def u64Max : Nat := 2 ^ 64 - 1

def saturatingAdd (a b : Nat) : Nat := min (a + b) u64Max

inductive StorageError where
  | io
  | corrupt (corruption : Corruption)
  | logTooLarge (maxBytes : Nat)
  deriving DecidableEq

inductive FileName where
  | snapshot (generation : Nat)
  | log (generation : Nat)
  deriving DecidableEq

structure Manifest where
  format : String
  version : Nat
  generation : Nat
  snapshot : FileName
  updates : FileName
  totalRecords : Nat

def Manifest.new (generation totalRecords : Nat) : Manifest :=
  ⟨"realtime-crdt", 3, generation, .snapshot generation, .log generation, totalRecords⟩

def Manifest.validate (manifest : Manifest) : Except Corruption Unit :=
  if manifest.format ≠ "realtime-crdt" then .error .unknownFormat
  else if manifest.version ≠ 3 ∧ manifest.version ≠ 2 then .error .unsupportedVersion
  else if manifest.snapshot ≠ .snapshot manifest.generation ∨
      manifest.updates ≠ .log manifest.generation then .error .manifestNames
  else .ok ()

/-- The manifest file, as `serde_json` reads it. -/
inductive ManifestFile where
  | parsed (manifest : Manifest)
  | garbled

/-- The directory of a document. -/
structure Disk where
  manifest : Slot ManifestFile
  snapshots : List (Nat × Slot Bytes)
  logs : List (Nat × Slot File)

namespace Disk

def snapshotSlot (d : Disk) (generation : Nat) : Slot Bytes :=
  (Assoc.get generation d.snapshots).getD .empty

def logSlot (d : Disk) (generation : Nat) : Slot File :=
  (Assoc.get generation d.logs).getD .empty

def read (d : Disk) : FileName → Option Bytes
  | .snapshot generation => (d.snapshotSlot generation).now
  | .log generation => (d.logSlot generation).now.map File.content

def putManifest (manifest : Manifest) (d : Disk) : Disk :=
  { d with manifest := d.manifest.put (.parsed manifest) }

def putSnapshot (generation : Nat) (bytes : Bytes) (d : Disk) : Disk :=
  { d with
    snapshots := Assoc.set generation ((d.snapshotSlot generation).put bytes) d.snapshots }

def putLog (generation : Nat) (bytes : Bytes) (d : Disk) : Disk :=
  { d with
    logs := Assoc.set generation ((d.logSlot generation).put (.ofBytes bytes)) d.logs }

def modifyLog (generation : Nat) (f : File → File) (d : Disk) : Disk :=
  { d with logs := Assoc.set generation ((d.logSlot generation).modify f) d.logs }

def syncDirectory (d : Disk) : Disk where
  manifest := d.manifest.sync
  snapshots := d.snapshots.map fun e => (e.1, e.2.sync)
  logs := d.logs.map fun e => (e.1, e.2.sync)

end Disk

/-! ## File-system calls -/

inductive AtomicWrite where
  | failed
  /-- The rename took effect, and then the directory could not be synced. -/
  | renamed
  | synced
  deriving DecidableEq

def atomicWrite (outcome : AtomicWrite) (put : Disk → Disk) (d : Disk) : Bool × Disk :=
  match outcome with
  | .failed => (false, d)
  | .renamed => (false, put d)
  | .synced => (true, (put d).syncDirectory)

/-- `set_len` and `sync_all`. -/
inductive Resize where
  | failed
  | resized
  | synced
  deriving DecidableEq

def resizeLog (generation length : Nat) (outcome : Resize) (d : Disk) : Bool × Disk :=
  match (d.logSlot generation).now, outcome with
  | none, _ => (false, d)
  | some _, .failed => (false, d)
  | some _, .resized => (false, d.modifyLog generation (File.resize length))
  | some _, .synced => (true, d.modifyLog generation fun file => (file.resize length).sync)

structure TruncateFaults where
  resize : Resize
  directorySynced : Bool

def truncateLog (generation length : Nat) (faults : TruncateFaults) (d : Disk) : Bool × Disk :=
  match resizeLog generation length faults.resize d with
  | (false, d) => (false, d)
  | (true, d) => if faults.directorySynced then (true, d.syncDirectory) else (false, d)

/-- `open`, `write_all` and `sync_all` of a record. -/
inductive Write where
  | notOpened
  | partly (bytes : Nat)
  | unsynced
  | synced
  deriving DecidableEq

def writeRecord (generation : Nat) (record : Bytes) (outcome : Write) (d : Disk) : Bool × Disk :=
  match (d.logSlot generation).now, outcome with
  | none, _ => (false, d)
  | some _, .notOpened => (false, d)
  | some _, .partly bytes => (false, d.modifyLog generation (File.append (record.take bytes)))
  | some _, .unsynced => (false, d.modifyLog generation (File.append record))
  | some _, .synced => (true, d.modifyLog generation fun file => (file.append record).sync)

/-- The files whose removal succeeds. -/
structure Removals where
  snapshots : Nat → Bool
  logs : Nat → Bool

def removeOldGenerations (active : Nat) (removals : Removals) (d : Disk) : Disk :=
  { d with
    snapshots := d.snapshots.map fun e =>
      (e.1, if e.1 < active ∧ removals.snapshots e.1 then e.2.remove else e.2)
    logs := d.logs.map fun e =>
      (e.1, if e.1 < active ∧ removals.logs e.1 then e.2.remove else e.2) }

/-! ## Operations -/

/-- The writer of a document: what its segment has, and whether an append failed. -/
structure DocumentPersistence where
  generation : Nat
  logBytes : Nat
  records : Nat
  totalRecords : Nat
  recoveredTail : Bool
  appendFailed : Bool
  maxLogBytes : Nat

variable (backend : Backend)

namespace DocumentPersistence

def shouldCompact (p : DocumentPersistence) : Bool :=
  256 ≤ p.records || 4 * 1024 * 1024 ≤ p.logBytes

def recordLen (updateBytes : Nat) : Except StorageError Nat :=
  if u64Max < recordHeaderBytes + updateBytes then .error (.corrupt .recordLengthOverflow)
  else .ok (recordHeaderBytes + updateBytes)

/-- Whether a record of this length is past the replay limit; a sum beyond `u64`
is, too. -/
def exceeds (p : DocumentPersistence) (recordLen : Nat) : Bool :=
  p.maxLogBytes < p.logBytes + recordLen

def requiresCompaction (p : DocumentPersistence) (updateBytes : Nat) : Except StorageError Bool :=
  (recordLen updateBytes).map p.exceeds

def discardPartialRecord (p : DocumentPersistence) (outcome : Resize) (d : Disk) : Bool × Disk :=
  resizeLog p.generation p.logBytes outcome d

structure AppendFaults where
  /-- Cutting off what a prior append has left. -/
  recover : Resize
  write : Write
  discard : Resize

/-- `append_update` behind its first check. -/
def appendRecord (p : DocumentPersistence) (update : Bytes) (faults : AppendFaults) (d : Disk) :
    Except StorageError Unit × DocumentPersistence × Disk :=
  match recordLen update.length with
  | .error error => (.error error, p, d)
  | .ok recordLen =>
      if p.exceeds recordLen then (.error (.logTooLarge p.maxLogBytes), p, d)
      else
        let record := encodeRecord backend update
        match writeRecord p.generation record faults.write d with
        | (true, d) =>
            (.ok (),
              { p with
                logBytes := saturatingAdd p.logBytes record.length
                records := saturatingAdd p.records 1
                totalRecords := saturatingAdd p.totalRecords 1 },
              d)
        | (false, d) =>
            match p.discardPartialRecord faults.discard d with
            | (true, d) => (.error .io, p, d)
            | (false, d) => (.error .io, { p with appendFailed := true }, d)

def appendUpdate (p : DocumentPersistence) (update : Bytes) (faults : AppendFaults) (d : Disk) :
    Except StorageError Unit × DocumentPersistence × Disk :=
  if p.appendFailed then
    match p.discardPartialRecord faults.recover d with
    | (false, d) => (.error (.corrupt .partialRecordStays), p, d)
    | (true, d) => appendRecord backend { p with appendFailed := false } update faults d
  else appendRecord backend p update faults d

/-- `discard_last_record`: the file is cut back to where the record began. -/
def discardLastRecord (p : DocumentPersistence) (logBytesBefore : Nat) (faults : TruncateFaults)
    (d : Disk) : Except StorageError Unit × DocumentPersistence × Disk :=
  if p.logBytes ≤ logBytesBefore then (.ok (), p, d)
  else
    match truncateLog p.generation logBytesBefore faults d with
    | (false, d) => (.error .io, p, d)
    | (true, d) =>
        (.ok (),
          { p with
            logBytes := logBytesBefore
            records := p.records - 1
            totalRecords := p.totalRecords - 1 },
          d)

end DocumentPersistence

def encodeSnapshot (snapshot : Bytes) : Bytes :=
  snapshotMagic ++ LittleEndian.encode 8 snapshot.length ++ (backend.checksum snapshot).1 ++
    snapshot

/-- `decode_snapshot`: the framing, its length and its checksum. -/
def decodeSnapshot (bytes : Bytes) : Except Corruption Bytes :=
  if bytes.length < snapshotHeaderBytes ∨ !snapshotMagic.isPrefixOf bytes then
    .error .invalidSnapshotHeader
  else
    let length := LittleEndian.decode ((bytes.drop 8).take 8)
    if maxSnapshotBytes < length then .error .snapshotTooLarge
    else if bytes.length ≠ snapshotHeaderBytes + length then .error .snapshotLengthMismatch
    else
      let expected := (bytes.drop 16).take 32
      let snapshot := bytes.drop snapshotHeaderBytes
      if (backend.checksum snapshot).1 ≠ expected then .error .snapshotChecksumMismatch
      else .ok snapshot

structure CompactFaults where
  snapshot : AtomicWrite
  log : AtomicWrite
  manifest : AtomicWrite
  removals : Removals

/-- The next generation is written completely before the manifest names it. -/
def DocumentPersistence.compact (p : DocumentPersistence) (snapshot : Bytes)
    (faults : CompactFaults) (d : Disk) :
    Except StorageError Unit × DocumentPersistence × Disk :=
  if maxSnapshotBytes < snapshot.length then (.error (.corrupt .snapshotTooLarge), p, d)
  else if u64Max ≤ p.generation then (.error (.corrupt .generationOverflow), p, d)
  else
    let next := p.generation + 1
    match atomicWrite faults.snapshot (Disk.putSnapshot next (encodeSnapshot backend snapshot)) d
      with
    | (false, d) => (.error .io, p, d)
    | (true, d) =>
        match atomicWrite faults.log (Disk.putLog next logMagic) d with
        | (false, d) => (.error .io, p, d)
        | (true, d) =>
            match atomicWrite faults.manifest (Disk.putManifest (.new next p.totalRecords)) d with
            | (false, d) => (.error .io, p, d)
            | (true, d) =>
                (.ok (),
                  { p with
                    generation := next
                    logBytes := logMagic.length
                    records := 0
                    recoveredTail := false
                    appendFailed := false },
                  removeOldGenerations next faults.removals d)

/-! ## Loading -/

structure Loaded where
  doc : Doc
  persistence : DocumentPersistence

def freshPersistence : DocumentPersistence :=
  ⟨0, logMagic.length, 0, 0, false, false, maxLogBytes⟩

/-- The directory of a new document, which is filled under a temporary name and
renamed when it is complete. -/
def freshDisk (snapshot : Bytes) : Disk where
  manifest := ⟨some (.parsed (.new 0 0)), []⟩
  snapshots := [(0, ⟨some (encodeSnapshot backend snapshot), []⟩)]
  logs := [(0, ⟨some (.ofBytes logMagic), []⟩)]

/-- A `create_document` whose file-system calls succeed. -/
def createDocument (snapshot : Bytes) : Except StorageError (Loaded × Disk) :=
  if maxSnapshotBytes < snapshot.length then .error (.corrupt .snapshotTooLarge)
  else .ok (⟨⟨snapshot, []⟩, freshPersistence⟩, freshDisk backend snapshot)

structure GenerationFaults where
  readSnapshot : Bool
  readLog : Bool
  truncate : TruncateFaults

def decodeDoc (update : Bytes) : Except Corruption Doc :=
  if !backend.validUpdate update then .error .invalidSnapshot
  else if !backend.integrates [] update then .error .snapshotNotIntegrated
  else .ok ⟨update, []⟩

/-- The part of `load_generation` before the log. -/
def loadSnapshot (manifest : Manifest) (faults : GenerationFaults) (d : Disk) :
    Except StorageError Doc := do
  manifest.validate.mapError .corrupt
  let some bytes := if faults.readSnapshot then d.read manifest.snapshot else none
    | throw .io
  let snapshot ← (decodeSnapshot backend bytes).mapError .corrupt
  (decodeDoc backend snapshot).mapError .corrupt

/-- `replay_log` of a file, which is cut if need be. -/
def replayFile (mode : RecoveryMode) (generation : Nat) (name : FileName) (doc : Doc)
    (faults : GenerationFaults) (d : Disk) : Except StorageError Replay × Disk :=
  match if faults.readLog then d.read name else none with
  | none => (.error .io, d)
  | some bytes =>
      match replayLog backend mode doc bytes with
      | .error corruption => (.error (.corrupt corruption), d)
      | .ok replay =>
          if replay.repaired then
            match truncateLog generation replay.bytes faults.truncate d with
            | (false, d) => (.error .io, d)
            | (true, d) => (.ok replay, d)
          else (.ok replay, d)

/-- The snapshot and the segments of a generation. -/
def loadGeneration (mode : RecoveryMode) (manifest : Manifest) (faults : GenerationFaults)
    (d : Disk) : Except StorageError Loaded × Disk :=
  match loadSnapshot backend manifest faults d with
  | .error error => (.error error, d)
  | .ok doc =>
      match replayFile backend mode manifest.generation manifest.updates doc faults d with
      | (.error error, d) => (.error error, d)
      | (.ok replay, d) =>
          (.ok ⟨replay.doc,
            { generation := manifest.generation
              logBytes := replay.bytes
              records := replay.records
              totalRecords := saturatingAdd manifest.totalRecords replay.records
              recoveredTail := replay.repaired
              appendFailed := false
              maxLogBytes := maxLogBytes }⟩, d)

def readManifest (readable : Bool) (d : Disk) : Except StorageError Manifest :=
  match if readable then d.manifest.now else none with
  | none => .error .io
  | some .garbled => .error (.corrupt .invalidManifest)
  | some (.parsed manifest) =>
      (manifest.validate.mapError .corrupt).map fun _ => manifest

structure RecoveryFaults where
  listed : Bool
  attempts : Nat → GenerationFaults
  write : AtomicWrite

/-- The search of `recover_manifest`, newest generation first. -/
def tryGenerations (faults : RecoveryFaults) : List Nat → Disk →
    Except StorageError Manifest × Disk
  | [], d => (.error (.corrupt .noRecoverableGeneration), d)
  | generation :: older, d =>
      let manifest := Manifest.new generation 0
      if (d.logSlot generation).now.isNone then tryGenerations faults older d
      else
        match loadGeneration backend .repair manifest (faults.attempts generation) d with
        | (.error _, d) => tryGenerations faults older d
        | (.ok _, d) =>
            match atomicWrite faults.write (Disk.putManifest manifest) d with
            | (false, d) => (.error .io, d)
            | (true, d) => (.ok manifest, d)

def recoverManifest (faults : RecoveryFaults) (d : Disk) : Except StorageError Manifest × Disk :=
  if !faults.listed then (.error .io, d)
  else
    let generations := (Assoc.keys d.snapshots).filter fun g => (d.snapshotSlot g).now.isSome
    tryGenerations backend faults (generations.insertionSort (· ≥ ·)) d

structure LoadFaults where
  readManifest : Bool
  recoverManifest : RecoveryFaults
  generation : GenerationFaults
  recoverGeneration : RecoveryFaults
  recovered : GenerationFaults
  removals : Removals

/-- The manifest to load from, and whether it had to be recovered. An error of
the recovery itself is not the one reported. -/
def findManifest (mode : RecoveryMode) (faults : LoadFaults) (d : Disk) :
    Except StorageError (Manifest × Bool) × Disk :=
  match readManifest faults.readManifest d with
  | .ok manifest => (.ok (manifest, false), d)
  | .error error =>
      if mode = RecoveryMode.repair then
        match recoverManifest backend faults.recoverManifest d with
        | (.ok manifest, d) => (.ok (manifest, true), d)
        | (.error _, d) => (.error error, d)
      else (.error error, d)

/-- Load a manifest's generation; a repair falls back on a recovered one. -/
def loadManifest (mode : RecoveryMode) (faults : LoadFaults) (manifest : Manifest)
    (recovered : Bool) (d : Disk) : Except StorageError (Loaded × Bool) × Disk :=
  match loadGeneration backend mode manifest faults.generation d with
  | (.ok loaded, d) => (.ok (loaded, recovered), d)
  | (.error error, d) =>
      if mode = RecoveryMode.repair then
        match recoverManifest backend faults.recoverGeneration d with
        | (.error _, d) => (.error error, d)
        | (.ok manifest, d) =>
            match loadGeneration backend mode manifest faults.recovered d with
            | (.error error, d) => (.error error, d)
            | (.ok loaded, d) => (.ok (loaded, true), d)
      else (.error error, d)

def loadExisting (mode : RecoveryMode) (faults : LoadFaults) (d : Disk) :
    Except StorageError Loaded × Disk :=
  match findManifest backend mode faults d with
  | (.error error, d) => (.error error, d)
  | (.ok (manifest, recovered), d) =>
      match loadManifest backend mode faults manifest recovered d with
      | (.error error, d) => (.error error, d)
      | (.ok (loaded, recovered), d) =>
          let persistence :=
            { loaded.persistence with
              recoveredTail := loaded.persistence.recoveredTail || recovered }
          (.ok { loaded with persistence },
            if mode = RecoveryMode.inspect then d
            else removeOldGenerations persistence.generation faults.removals d)

/-- Where there is a manifest, it is loaded; a directory without one is debris. -/
def loadOrCreate (emptyState : Bytes) (faults : LoadFaults) (d : Disk) :
    Except StorageError Loaded × Disk :=
  match d.manifest.now with
  | some _ => loadExisting backend .recoverInterruptedAppend faults d
  | none =>
      match createDocument backend emptyState with
      | .error error => (.error error, d)
      | .ok (loaded, d) => (.ok loaded, d)

def DocumentPersistence.reload (faults : LoadFaults) (d : Disk) :
    Except StorageError Loaded × Disk :=
  loadExisting backend .recoverInterruptedAppend faults d

end Realtime.Storage
