import Mathlib.Logic.Relation
import Realtime.Epoch.Replacement
import Realtime.Lib.Durable

/-!
# Activating an epoch

`maybe_activate_epoch` of `server/src/crdt.rs` behind its check of the
acknowledgements, with what it reads and writes in the root directory: the epoch
manifest and a directory for each physical document. The directory of a document
is filled under a temporary name and renamed when it is complete
(`create_document`), and what is acknowledged on it is in it.

The process may crash, and any of these calls may fail, also behind a rename.
-/

namespace Realtime.Epoch

open Lib Lib.Durable

/-- `<physical id>.crdt`. A directory without a manifest is debris. -/
inductive Directory (yrs : Yrs) where
  | committed (document : Document yrs)
  | debris

structure Disk (yrs : Yrs) where
  manifest : Slot EpochManifest
  /-- The directories by physical document id. -/
  documents : List (String × Slot (Directory yrs))

variable {yrs : Yrs}

namespace Disk

def slot (d : Disk yrs) (physical : String) : Slot (Directory yrs) :=
  (Assoc.get physical d.documents).getD .empty

def putManifest (m : EpochManifest) (d : Disk yrs) : Disk yrs :=
  { d with manifest := d.manifest.put m }

def put (physical : String) (directory : Directory yrs) (d : Disk yrs) : Disk yrs :=
  { d with documents := Assoc.set physical ((d.slot physical).put directory) d.documents }

def remove (physical : String) (d : Disk yrs) : Disk yrs :=
  { d with documents := Assoc.set physical (d.slot physical).remove d.documents }

/-- A write to the files of a directory. -/
def modify (physical : String) (f : Directory yrs → Directory yrs) (d : Disk yrs) : Disk yrs :=
  { d with documents := Assoc.set physical ((d.slot physical).modify f) d.documents }

/-- `sync_directory` of the root. -/
def syncRoot (d : Disk yrs) : Disk yrs where
  manifest := d.manifest.sync
  documents := d.documents.map fun e => (e.1, e.2.sync)

/-- The directories that are there. -/
def directories (d : Disk yrs) : Finset String :=
  ((d.documents.filter fun e => e.2.now.isSome).map fun e => directoryOf e.1).toFinset

variable (d : Disk yrs) (physical other : String)

theorem slot_put (directory : Directory yrs) :
    (d.put physical directory).slot other =
      if physical = other then (d.slot other).put directory else d.slot other := by
  rw [put, slot, Assoc.get_set]
  split
  · rename_i h
    rw [h]
    rfl
  · rfl

theorem slot_remove :
    (d.remove physical).slot other =
      if physical = other then (d.slot other).remove else d.slot other := by
  rw [remove, slot, Assoc.get_set]
  split
  · rename_i h
    rw [h]
    rfl
  · rfl

theorem slot_modify (f : Directory yrs → Directory yrs) :
    (d.modify physical f).slot other =
      if physical = other then (d.slot other).modify f else d.slot other := by
  rw [modify, slot, Assoc.get_set]
  split
  · rename_i h
    rw [h]
    rfl
  · rfl

theorem slot_syncRoot : d.syncRoot.slot physical = (d.slot physical).sync := by
  rw [slot, slot, syncRoot, Assoc.get_mapValues]
  cases Assoc.get physical d.documents <;> rfl

end Disk

/-! ## File-system calls -/

/-- A change of an entry of the root, which is then synced. -/
inductive Commit where
  | failed
  | unsynced
  | synced
  deriving DecidableEq

def Disk.commit (outcome : Commit) (change : Disk yrs → Disk yrs) (d : Disk yrs) :
    Bool × Disk yrs :=
  match outcome with
  | .failed => (false, d)
  | .unsynced => (false, change d)
  | .synced => (true, (change d).syncRoot)

structure CreateFaults where
  /-- The temporary directory is there and the root is synced. -/
  temporary : Bool
  rename : Commit

/-- `create_document`: the directory is made beside its place and moved there when complete. -/
def createDocument (physical : String) (document : Document yrs) (faults : CreateFaults)
    (d : Disk yrs) : Option (Document yrs) × Disk yrs :=
  if !faults.temporary then (none, d)
  else
    match d.syncRoot.commit faults.rename (Disk.put physical (.committed document)) with
    | (true, d) => (some document, d)
    | (false, d) => (none, d)

structure LoadFaults where
  readable : Bool
  debris : Commit
  create : CreateFaults

/-- `create_or_load_replacement`: what is committed is loaded, not written again. -/
def createOrLoadReplacement (physical : String) (document : Document yrs) (faults : LoadFaults)
    (d : Disk yrs) : Option (Document yrs) × Disk yrs :=
  if !faults.readable then (none, d)
  else
    match (d.slot physical).now with
    | some (.committed document) => (some document.reload, d)
    | some .debris =>
        match d.commit faults.debris (Disk.remove physical) with
        | (false, d) => (none, d)
        | (true, d) => createDocument physical document faults.create d
    | none => createDocument physical document faults.create d

/-- `load_or_create` does the same for an empty document. -/
def loadOrCreate (physical : String) (faults : LoadFaults) (d : Disk yrs) :
    Option (Document yrs) × Disk yrs :=
  createOrLoadReplacement physical .empty faults d

section

variable (digest : String → String)

/-- `save_manifest`. -/
def writeManifest (m : EpochManifest) (outcome : Commit) (d : Disk yrs) :
    Except EpochError Unit × Disk yrs :=
  match m.validate digest m.logicalDocumentId with
  | .error error => (.error error, d)
  | .ok () =>
      match d.commit outcome (Disk.putManifest m) with
      | (true, d) => (.ok (), d)
      | (false, d) => (.error .io, d)

structure ExpiryFaults where
  /-- The directories that cannot be removed, and those of them that lose their
  manifest before the removal fails. -/
  fails : String → Bool
  gutted : String → Bool
  save : Commit

/-- The directories after the loop of `remove_expired`. -/
def Disk.sweep (swept : Sweep) (faults : ExpiryFaults) (d : Disk yrs) : Disk yrs :=
  { d with
    documents := d.documents.map fun e =>
      let path := directoryOf e.1
      (e.1,
        if path ∈ swept.attempted then
          if !faults.fails path then e.2.remove
          else if faults.gutted path then e.2.modify fun _ => .debris
          else e.2
        else e.2) }

theorem Disk.slot_sweep {swept : Sweep} {physical : String}
    (h : directoryOf physical ∉ swept.attempted) (faults : ExpiryFaults) (d : Disk yrs) :
    (d.sweep swept faults).slot physical = d.slot physical := by
  rw [slot, slot, sweep]
  dsimp only
  rw [Assoc.get_mapEntries fun physical (e : Slot (Directory yrs)) =>
    if directoryOf physical ∈ swept.attempted then
      if !faults.fails (directoryOf physical) then e.remove
      else if faults.gutted (directoryOf physical) then e.modify fun _ => .debris
      else e
    else e]
  simp only [if_neg h]
  rw [Option.map_id']

/-- `remove_expired` and its directories. -/
def expireDirectories (m : EpochManifest) (nowMs : UInt64) (faults : ExpiryFaults)
    (d : Disk yrs) : Except EpochError Unit × EpochManifest × Disk yrs :=
  let (_, m, swept) :=
    removeExpired digest m nowMs d.directories faults.fails (faults.save = .synced)
  let d := d.sweep swept faults
  if swept.failed then (.error .io, m, d)
  else
    let (result, d) := writeManifest digest m faults.save d
    (result, m, d)

/-! ## The store -/

structure Store (yrs : Yrs) where
  disk : Disk yrs
  /-- The manifest of the `EpochRuntime`. -/
  runtime : Option EpochManifest
  /-- The `LiveDocument`. -/
  live : Option (UInt64 × Document yrs)

structure OpenFaults where
  readable : Bool
  create : Commit
  expiry : ExpiryFaults

variable (documentId : String)

/-- `epoch_runtime_initialized`. -/
def openRuntime (nowMs : UInt64) (faults : OpenFaults) (s : Store yrs) : Store yrs :=
  if s.runtime.isSome || !faults.readable then s
  else
    let (loaded, d) : Option EpochManifest × Disk yrs :=
      match s.disk.manifest.now with
      | some m => (if m.validate digest documentId = .ok () then some m else none, s.disk)
      | none =>
          let m := EpochManifest.initial documentId nowMs
          match writeManifest digest m faults.create s.disk with
          | (.ok (), d) => (some m, d)
          | (.error _, d) => (none, d)
    match loaded with
    | none => { s with disk := d }
    | some m =>
        match expireDirectories digest m nowMs faults.expiry d with
        | (.ok (), m, d) => { s with disk := d, runtime := some m }
        | (.error _, _, d) => { s with disk := d }

/-- `get_or_load` under a manifest. -/
def getOrLoad (m : EpochManifest) (faults : LoadFaults) (s : Store yrs) :
    Option (Document yrs) × Store yrs :=
  match s.live.filter fun live => live.1 = m.current.epoch with
  | some (_, document) => (some document, s)
  | none =>
      match loadOrCreate m.current.physicalDocumentId faults s.disk with
      | (some document, d) =>
          (some document, { s with disk := d, live := some (m.current.epoch, document) })
      | (none, d) => (none, { s with disk := d })

/-- `begin_epoch_transition`. The manifest in memory goes first, whatever the disk says. -/
def beginEpochTransition (nowMs : UInt64) (load : LoadFaults) (save : Commit) (s : Store yrs) :
    Store yrs :=
  match s.runtime with
  | none => s
  | some m =>
      match getOrLoad m load s with
      | (none, s) => s
      | (some document, s) =>
          match document.logicalReplacement, m.begin digest nowMs with
          | .ok _, .ok (m, _) =>
              { s with runtime := some m, disk := (writeManifest digest m save s.disk).2 }
          | _, _ => s

structure ActivateFaults where
  load : LoadFaults
  replacement : LoadFaults
  save : Commit
  expiry : ExpiryFaults

inductive Activation (yrs : Yrs) where
  /-- No epoch is pending. -/
  | idle
  | failed
  /-- The old epoch's document and the new one's. -/
  | activated (old new : Document yrs)

variable (measurements : Document yrs → UInt64 × UInt64)

/-- The switch to the new epoch. The manifest in memory goes first, and it stays
switched if the one on disk cannot be saved. -/
def commitActivation (nowMs recoveryWindowMs : UInt64) (faults : ActivateFaults)
    (m : EpochManifest) (new : Document yrs) (s : Store yrs) : Bool × Store yrs :=
  let (stateBytes, deleteSetBytes) := measurements new
  match m.activate nowMs recoveryWindowMs stateBytes deleteSetBytes with
  | .error _ => (false, s)
  | .ok m =>
      match writeManifest digest m faults.save s.disk with
      | (.error _, d) => (false, { s with disk := d, runtime := some m })
      | (.ok (), d) =>
          -- an error of the removal is only logged
          let (_, m, d) := expireDirectories digest m nowMs faults.expiry d
          (true, ⟨d, some m, some (m.current.epoch, new)⟩)

/-- `maybe_activate_epoch`: the replacement is copied from the document, stored, and then the
manifest switches to it. -/
def maybeActivateEpoch (nowMs recoveryWindowMs : UInt64) (faults : ActivateFaults)
    (s : Store yrs) : Activation yrs × Store yrs :=
  match s.runtime with
  | none => (.failed, s)
  | some m =>
      match m.pending with
      | none => (.idle, s)
      | some pending =>
          match getOrLoad m faults.load s with
          | (none, s) => (.failed, s)
          | (some old, s) =>
              match old.logicalReplacement with
              | .error _ => (.failed, s)
              | .ok replacement =>
                  match createOrLoadReplacement pending.physicalDocumentId replacement
                      faults.replacement s.disk with
                  | (none, d) => (.failed, { s with disk := d })
                  | (some new, d) =>
                      match commitActivation digest measurements nowMs recoveryWindowMs faults m
                          new { s with disk := d } with
                      | (true, s) => (.activated old new, s)
                      | (false, s) => (.failed, s)

variable {Update : Type} (applyUpdate : Update → Document yrs → Option (Document yrs))

/-- An update on the current epoch, which is acknowledged when it is stored. -/
def applyToCurrent (update : Update) (faults : LoadFaults) (s : Store yrs) : Store yrs :=
  match s.runtime with
  | none => s
  | some m =>
      match getOrLoad m faults s with
      | (none, s) => s
      | (some document, s) =>
          match applyUpdate update document with
          | none => s
          | some document =>
              { s with
                disk := s.disk.modify m.current.physicalDocumentId fun _ => .committed document
                live := some (m.current.epoch, document) }

def cleanupRetiredEpochs (nowMs : UInt64) (faults : ExpiryFaults) (s : Store yrs) : Store yrs :=
  match s.runtime with
  | none => s
  | some m =>
      let (_, m, d) := expireDirectories digest m nowMs faults s.disk
      { s with disk := d, runtime := some m }

/-- What a process does to the store, with what fails of it, and its end. -/
inductive StoreOp (yrs : Yrs) (Update : Type) where
  | openRuntime (nowMs : UInt64) (faults : OpenFaults)
  | applyUpdate (update : Update) (faults : LoadFaults)
  | begin (nowMs : UInt64) (load : LoadFaults) (save : Commit)
  | activate (nowMs recoveryWindowMs : UInt64) (faults : ActivateFaults)
  | cleanup (nowMs : UInt64) (faults : ExpiryFaults)
  /-- The last user of the document is gone. -/
  | drop
  | crash (image : Disk yrs)

def Store.step (s : Store yrs) : StoreOp yrs Update → Store yrs
  | .openRuntime nowMs faults => openRuntime digest documentId nowMs faults s
  | .applyUpdate update faults => applyToCurrent applyUpdate update faults s
  | .begin nowMs load save => beginEpochTransition digest nowMs load save s
  | .activate nowMs recoveryWindowMs faults =>
      (maybeActivateEpoch digest measurements nowMs recoveryWindowMs faults s).2
  | .cleanup nowMs faults => cleanupRetiredEpochs digest nowMs faults s
  | .drop => { s with live := none }
  | .crash image => ⟨image, none, none⟩

end

end Realtime.Epoch
