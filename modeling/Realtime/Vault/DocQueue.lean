import Mathlib.Tactic
import Realtime.Lib.Assoc
import Realtime.Lib.RustStr
import Realtime.Lib.Transition
import Realtime.Vault.RemoteDelete

/-!
# The document queue

`docQueue` and the connection slots of `src/VaultSync.ts`, with everything that puts a document
in the queue or pumps it. A step is what runs between two awaits. What a pass of a remote
delete does to files is in `RemoteDelete`; here it decides freely between its awaits.
-/

namespace Realtime.Vault.DocQueue

open Lib RemoteDelete
open RemoteDelete.State (truthy)

/-! ## The state -/

inductive SyncStatus where
  | offline
  | connecting
  | error
  | handshaking
  | connected
  deriving DecidableEq

/-- An entry of `docQueue`. -/
structure QueueItem where
  path : Path
  guid : Guid
  kind : DocKind
  reconnect : Bool
  retiredBaseline : Option String
  deriving DecidableEq

/-- What the queue looks at of a document. -/
structure SyncedDoc where
  guid : Guid
  ready : Bool
  status : SyncStatus
  /-- `retiredBaseline()` -/
  retiredBaseline : Option String
  deriving DecidableEq

/-- What the slot of a started document waits for. -/
inductive Completion where
  | ready
  | nextServerSync
  deriving DecidableEq

/-- The promise of `whenQueueSlotFree` is open, resolved, or what it calls has run. -/
inductive Slot where
  | waiting
  | resolved
  | freed
  deriving DecidableEq

structure Started where
  item : QueueItem
  completion : Completion
  generation : Nat
  slot : Slot
  deriving DecidableEq

/-- The await a remote delete is at. -/
inductive DeletePoint where
  | reconciling
  | renaming (target : Path)
  | deleting
  deriving DecidableEq

structure DeletePass where
  path : Path
  kind : DocKind
  deletedIdentity : Option Guid
  point : DeletePoint
  deriving DecidableEq

/-- What a pass that waits, or fails, does next. -/
inductive Outcome where
  /-- Nothing is left to do. -/
  | ends
  | fails
  | renames (target : Path) (pending : Bool)
  /-- The documents are removed, and a file that is there is deleted. -/
  | deletes (present : Bool)
  deriving DecidableEq

/-- `runInitialSync`: whether what it queued has been pumped, and the timer of a failure. -/
inductive InitialSync where
  | notRun
  | running (pumped : Bool)
  | retrying
  | synced
  deriving DecidableEq

/-- `change.action` of a key of an index map, with `change.oldValue`. -/
inductive KeyChange (ν : Type) where
  | put
  | delete (oldValue : Option ν)

/-- The platform and the settings. -/
structure Config where
  isMobile : Bool
  activeVaultId : String

/-- The queue of documents and what decides on its pumps. -/
structure VaultSync where
  destroyed : Bool
  mobileSuspended : Bool
  docQueue : List (Path × QueueItem)
  activeDocConnections : Nat
  docConnectionGeneration : Nat
  /-- Every document the queue ever started. -/
  started : List Started
  documents : List (Path × SyncedDoc)
  structuredDocuments : List (Path × StructuredKind × SyncedDoc)
  files : List (Path × Guid)
  structured : List (Path × Option StructuredMeta)
  prioritizedPaths : List Path
  prioritizedGuids : List Guid
  highPriorityDrained : Bool
  indexStatus : SyncStatus
  mobileCatchUpPending : Bool
  mobileResumeInProgress : Bool
  /-- The generations of the calls of `resumeFromBackground` that wait for the index. -/
  resumes : List Nat
  invalidationReloads : List Path
  invalidationReloadPending : List Path
  /-- The timers of the windows. -/
  reloadTimers : List (Path × String)
  bootstrapPrepared : Bool
  initialSync : InitialSync
  /-- The paths `bootstrapLog.removed` is true of. -/
  removed : List Path
  localFiles : List Path
  deletes : List DeletePass
  remoteDeletePending : List (Path × DocKind × Option Guid)
  deleteTimers : List (Path × DocKind × Option Guid)

namespace VaultSync

/-! ## The document registry -/

def residentOf (s : VaultSync) (path : Path) : DocKind → Option SyncedDoc
  | .text => Assoc.get path s.documents
  | .structured _ => (Assoc.get path s.structuredDocuments).map Prod.snd

def removeDocument (s : VaultSync) (path : Path) : VaultSync :=
  { s with documents := Assoc.erase path s.documents }

def removeStructuredDocument (s : VaultSync) (path : Path) : VaultSync :=
  { s with structuredDocuments := Assoc.erase path s.structuredDocuments }

def removeOf (s : VaultSync) (path : Path) : DocKind → VaultSync
  | .text => s.removeDocument path
  | .structured _ => s.removeStructuredDocument path

def newDoc (guid : Guid) (retiredBaseline : Option String) : SyncedDoc :=
  ⟨guid, false, .offline, retiredBaseline⟩

/-- `ensureDocument` -/
def ensureDocument (s : VaultSync) (path : Path) (guid : Guid) (retiredBaseline : Option String) :
    VaultSync :=
  if (Assoc.get path s.documents).any (·.guid = guid) then s
  else
    let s := s.removeDocument path
    { s with documents := Assoc.set path (newDoc guid retiredBaseline) s.documents }

/-- `ensureStructuredDocument` -/
def ensureStructuredDocument (s : VaultSync) (path : Path) (guid : Guid) (kind : StructuredKind)
    (retiredBaseline : Option String) : VaultSync :=
  if (Assoc.get path s.structuredDocuments).any (·.2.guid = guid) then s
  else
    let s := s.removeStructuredDocument path
    { s with
      structuredDocuments :=
        Assoc.set path (kind, newDoc guid retiredBaseline) s.structuredDocuments }

def ensureItem (s : VaultSync) (item : QueueItem) : VaultSync :=
  match item.kind with
  | .text => s.ensureDocument item.path item.guid item.retiredBaseline
  | .structured kind => s.ensureStructuredDocument item.path item.guid kind item.retiredBaseline

def pathForGuid (s : VaultSync) (guid : Guid) : Option Path :=
  match s.files.find? fun e => e.2 = guid with
  | some e => some e.1
  | none => (s.structured.find? fun e => e.2.map (·.guid) = some guid).map Prod.fst

/-! ## The queue -/

/-- A new `Map` with the item in front, and its path prioritized. -/
def putFront (s : VaultSync) (item : QueueItem) : VaultSync :=
  { s with
    prioritizedPaths := s.prioritizedPaths.insert item.path
    docQueue := (item.path, item) :: Assoc.erase item.path s.docQueue }

/-- `enqueueDoc` -/
def enqueueDoc (s : VaultSync) (item : QueueItem) (front : Bool) : VaultSync :=
  if s.destroyed then s
  else if (s.residentOf item.path item.kind).any (·.guid = item.guid) then s
  else
    let s := s.removeOf item.path item.kind
    if front then s.putFront item
    else { s with docQueue := Assoc.set item.path item s.docQueue }

/-- The item is taken out and put in front or at the end. -/
def requeue (s : VaultSync) (item : QueueItem) (front : Bool) : VaultSync :=
  if front then s.putFront item
  else { s with docQueue := Assoc.erase item.path s.docQueue ++ [(item.path, item)] }

/-- `enqueueReconnect` -/
def enqueueReconnect (s : VaultSync) (item : QueueItem) (front : Bool) : VaultSync :=
  if s.destroyed then s
  else
    match s.residentOf item.path item.kind with
    | none => s.enqueueDoc item front
    | some doc =>
        if doc.guid ≠ item.guid then s.enqueueDoc item front
        else if doc.ready = false then s.requeue item front
        else if doc.status ≠ .offline ∧ doc.status ≠ .error then s
        else s.requeue { item with reconnect := true } front

def enqueue (s : VaultSync) (item : QueueItem) (front reconnect : Bool) : VaultSync :=
  if reconnect then s.enqueueReconnect item front else s.enqueueDoc item front

def textItem (path : Path) (guid : Guid) : QueueItem := ⟨path, guid, .text, false, none⟩

def structuredItem (path : Path) (entry : StructuredMeta) : QueueItem :=
  ⟨path, entry.guid, .structured entry.kind, false, none⟩

/-- The item of the text entry at the path, then that of the structured one. -/
def indexItems (s : VaultSync) (path : Path) : List QueueItem :=
  (truthy (Assoc.get path s.files)).toList.map (textItem path) ++
    (Assoc.get path s.structured).join.toList.map (structuredItem path)

/-- `enqueueKnownPath` -/
def enqueueKnownPath (s : VaultSync) (path : Path) (front reconnect : Bool) : VaultSync :=
  (s.indexItems path).foldl (fun s item => s.enqueue item front reconnect) s

/-- The body of the loop of `pumpDocQueue`. -/
def start (s : VaultSync) (item : QueueItem) : VaultSync :=
  let s := s.ensureItem item
  let connected := (s.residentOf item.path item.kind).any (·.status = .connected)
  { s with
    activeDocConnections := s.activeDocConnections + 1
    started := s.started ++
      [⟨item, if item.reconnect && !connected then .nextServerSync else .ready,
        s.docConnectionGeneration, .waiting⟩] }

/-- The loop of `pumpDocQueue`, over what is queued. -/
def pumpLoop (concurrency : Nat) : List (Path × QueueItem) → VaultSync → VaultSync
  | [], s => { s with docQueue := [] }
  | e :: queue, s =>
      if s.activeDocConnections < concurrency then
        pumpLoop concurrency queue ({ s with docQueue := queue }.start e.2)
      else { s with docQueue := e :: queue }

end VaultSync

section Source

variable (cfg : Config)

def concurrency : Nat := if cfg.isMobile then 1 else 2

namespace VaultSync

/-- `pumpDocQueue` -/
def pumpDocQueue (s : VaultSync) : VaultSync :=
  if s.destroyed || s.mobileSuspended then s else pumpLoop (concurrency cfg) s.docQueue s

/-- What runs once the slot of a started document is free. -/
def slotFree (s : VaultSync) (doc : Started) : VaultSync :=
  if doc.generation ≠ s.docConnectionGeneration then s
  else
    let s := { s with
      activeDocConnections := s.activeDocConnections - 1
      prioritizedPaths := s.prioritizedPaths.erase doc.item.path
      prioritizedGuids := s.prioritizedGuids.erase doc.item.guid }
    { s with
      highPriorityDrained := s.highPriorityDrained || s.prioritizedPaths.isEmpty }.pumpDocQueue cfg

/-! ## Suspend and resume -/

def suspendForBackground (s : VaultSync) : VaultSync :=
  if !cfg.isMobile || s.destroyed || s.mobileSuspended then s
  else
    { s with
      mobileSuspended := true
      docConnectionGeneration := s.docConnectionGeneration + 1
      activeDocConnections := 0 }

/-- `queueMobileReconnects`, with what `startupPriorityPaths` returns. -/
def queueMobileReconnects (s : VaultSync) (priorities : List Path) : VaultSync :=
  let s := s.documents.foldl (fun s e =>
    if Assoc.get e.1 s.files = some e.2.guid then
      s.enqueueReconnect (textItem e.1 e.2.guid) false else s) s
  let s := s.structuredDocuments.foldl (fun s e =>
    match (Assoc.get e.1 s.structured).join with
    | some entry =>
        if entry.guid = e.2.2.guid then s.enqueueReconnect (structuredItem e.1 entry) false else s
    | none => s) s
  (priorities.reverse.foldl (fun s path => s.enqueueKnownPath path true true) s).pumpDocQueue cfg

/-- `resumeFromBackground` once the index has answered. -/
def resumed (s : VaultSync) (generation : Nat) (priorities : List Path) : VaultSync :=
  let s := { s with mobileResumeInProgress := false }
  if s.destroyed || s.mobileSuspended || generation ≠ s.docConnectionGeneration then s
  else if s.indexStatus ≠ .connected then { s with mobileCatchUpPending := true }
  else { s with mobileCatchUpPending := false }.queueMobileReconnects cfg priorities

/-- `resumeFromBackground`, up to its await; elsewhere than on mobile it only wakes providers. -/
def resumeFromBackground (s : VaultSync) (priorities : List Path) : VaultSync :=
  if s.destroyed || !cfg.isMobile then s
  else
    let s := { s with mobileSuspended := false, mobileResumeInProgress := true }
    if s.indexStatus ≠ .connected then
      { s with resumes := s.resumes ++ [s.docConnectionGeneration] }
    else s.resumed cfg s.docConnectionGeneration priorities

/-- `runInitialSync`, up to its first await. -/
def runInitialSync (s : VaultSync) : VaultSync :=
  if s.destroyed then s
  else
    match s.initialSync with
    | .notRun | .retrying => { s with initialSync := .running false }
    | _ => s

/-- `handleIndexStatus` -/
def handleIndexStatus (s : VaultSync) (status : SyncStatus) (priorities : List Path) : VaultSync :=
  let s := { s with indexStatus := status }
  if s.mobileSuspended then s
  else
    match status with
    | .connected =>
        let s := s.runInitialSync
        if cfg.isMobile && s.mobileCatchUpPending && !s.mobileResumeInProgress then
          { s with mobileCatchUpPending := false }.queueMobileReconnects cfg priorities
        else s
    | .connecting | .handshaking => s
    | .error | .offline =>
        if cfg.isMobile && s.initialSync = .synced then { s with mobileCatchUpPending := true }
        else s

/-! ## Priorities, epochs and invalidations -/

def prioritizeGuid (s : VaultSync) : Option Guid → VaultSync
  | some guid => { s with prioritizedGuids := s.prioritizedGuids.insert guid }
  | none => s

/-- `prioritizeItem`, with the path as `trim` leaves it. -/
def prioritizeItem (s : VaultSync) (path : Option Path) (guid : Option Guid) : VaultSync :=
  let found := truthy ((truthy path).or ((truthy guid).bind s.pathForGuid))
  let s := s.prioritizeGuid (truthy guid)
  match found with
  | some path => (s.enqueueKnownPath path true cfg.isMobile).pumpDocQueue cfg
  | none => s

def documentGuid (documentId : String) : Option Guid :=
  (Str.stripPrefix (cfg.activeVaultId.toList ++ "__".toList) documentId.toList).map String.ofList

/-- After a rewind the content is no baseline. -/
def epochBaseline (rewound : Bool) (doc : SyncedDoc) : Option String :=
  if rewound then none else doc.retiredBaseline

/-- `rebuildDocumentForEpoch` -/
def rebuildDocumentForEpoch (s : VaultSync) (documentId : String) (rewound : Bool) : VaultSync :=
  if s.destroyed then s
  else
    match documentGuid cfg documentId with
    | none => s
    | some guid =>
        let s := s.documents.foldl (fun s e =>
          if e.2.guid = guid then
            (s.removeDocument e.1).enqueueDoc
              ⟨e.1, guid, .text, false, epochBaseline rewound e.2⟩ true
          else s) s
        let s := s.structuredDocuments.foldl (fun s e =>
          if e.2.2.guid = guid then
            (s.removeStructuredDocument e.1).enqueueDoc
              ⟨e.1, guid, .structured e.2.1, false, epochBaseline rewound e.2.2⟩ true
          else s) s
        s.pumpDocQueue cfg

/-- `onDocumentInvalidated` -/
def onDocumentInvalidated (s : VaultSync) (documentId : String) : VaultSync :=
  if !cfg.isMobile || s.destroyed then s
  else
    match truthy ((truthy (documentGuid cfg documentId)).bind s.pathForGuid) with
    | none => s
    | some path =>
        let resident := (Assoc.get path s.documents).isSome ||
          (Assoc.get path s.structuredDocuments).isSome
        if resident then (s.enqueueKnownPath path true true).pumpDocQueue cfg
        else if path ∈ s.invalidationReloads then
          { s with invalidationReloadPending := s.invalidationReloadPending.insert path }
        else
          let s := { s with
            invalidationReloads := s.invalidationReloads.insert path
            reloadTimers := s.reloadTimers ++ [(path, documentId)] }
          (s.enqueueKnownPath path true true).pumpDocQueue cfg

/-- The end of a window of `onDocumentInvalidated`. -/
def reloadWindowOver (s : VaultSync) (path : Path) (documentId : String) : VaultSync :=
  let pending := decide (path ∈ s.invalidationReloadPending)
  let s := { s with
    invalidationReloads := s.invalidationReloads.erase path
    invalidationReloadPending := s.invalidationReloadPending.erase path }
  if pending && !s.destroyed then s.onDocumentInvalidated cfg documentId else s

/-! ## Index changes and remote deletes -/

def wasReintroduced (s : VaultSync) (path : Path) : DocKind → Bool
  | .text => (Assoc.get path s.files).isSome
  | .structured _ => (Assoc.get path s.structured).isSome

/-- `handleRemoteDelete`, up to its first await. -/
def handleRemoteDelete (s : VaultSync) (path : Path) (kind : DocKind)
    (deletedIdentity : Option Guid) : VaultSync :=
  if s.destroyed then s
  else if s.deletes.any (·.path = path) then
    { s with remoteDeletePending := Assoc.set path (kind, deletedIdentity) s.remoteDeletePending }
  else
    { s with
      remoteDeletePending := Assoc.erase path s.remoteDeletePending
      deletes := s.deletes ++ [⟨path, kind, deletedIdentity, .reconciling⟩] }

/-- The item an observer queues, and whether in front. -/
def queueChanged (s : VaultSync) (item : QueueItem) : VaultSync :=
  if item.path ∈ s.removed then s
  else
    (s.enqueueDoc item (item.path ∈ s.prioritizedPaths || item.guid ∈ s.prioritizedGuids ||
      item.path ∉ s.localFiles)).pumpDocQueue cfg

def fileChanged (s : VaultSync) (path : Path) : KeyChange Guid → VaultSync
  | .put =>
      match truthy (Assoc.get path s.files) with
      | some guid => s.queueChanged cfg (textItem path guid)
      | none => s
  | .delete oldValue => s.handleRemoteDelete path .text oldValue

/-- `onFilesChanged` -/
def onFilesChanged (s : VaultSync) (keys : List (Path × KeyChange Guid)) : VaultSync :=
  if s.destroyed || !s.bootstrapPrepared then s
  else keys.foldl (fun s e => s.fileChanged cfg e.1 e.2) s

def structuredChanged (s : VaultSync) (path : Path) : KeyChange StructuredMeta → VaultSync
  | .put =>
      match (Assoc.get path s.structured).join with
      | some entry => s.queueChanged cfg (structuredItem path entry)
      | none => s
  | .delete oldValue =>
      s.handleRemoteDelete path (.structured ((oldValue.map (·.kind)).getD .canvas))
        (oldValue.map (·.guid))

/-- `onStructuredChanged` -/
def onStructuredChanged (s : VaultSync) (keys : List (Path × KeyChange StructuredMeta)) :
    VaultSync :=
  if s.destroyed || !s.bootstrapPrepared then s
  else keys.foldl (fun s e => s.structuredChanged cfg e.1 e.2) s

/-- `rematerializeReintroducedPath` -/
def rematerializeReintroducedPath (s : VaultSync) (path : Path) : VaultSync :=
  match truthy (Assoc.get path s.files) with
  | some guid => (s.removeDocument path).enqueueDoc (textItem path guid) false
  | none =>
      match (Assoc.get path s.structured).join with
      | some entry =>
          (s.removeStructuredDocument path).ensureStructuredDocument path entry.guid entry.kind none
      | none => s

def setPoint (s : VaultSync) (pass : DeletePass) (point : DeletePoint) : VaultSync :=
  { s with deletes := s.deletes.map fun p => if p = pass then { p with point := point } else p }

/-- The end of a pass: a delete that came meanwhile is reconciled next. -/
def endPass (s : VaultSync) (pass : DeletePass) : VaultSync :=
  match Assoc.get pass.path s.remoteDeletePending with
  | some (kind, identity) =>
      { s with
        remoteDeletePending := Assoc.erase pass.path s.remoteDeletePending
        deletes := s.deletes.map fun p =>
          if p = pass then ⟨pass.path, kind, identity, .reconciling⟩ else p }
  | none => { s with deletes := s.deletes.erase pass }

/-- The `catch` of `reconcileRemoteDelete`. -/
def failPass (s : VaultSync) (pass : DeletePass) : VaultSync :=
  let s := if s.destroyed then s
    else { s with
      deleteTimers := s.deleteTimers ++ [(pass.path, pass.kind, pass.deletedIdentity)] }
  s.endPass pass

/-- A remote delete goes on from its await. -/
def continueDelete (s : VaultSync) (pass : DeletePass) (outcome : Outcome) : Option VaultSync :=
  if pass ∉ s.deletes then none
  else
    match pass.point, outcome with
    | _, .fails => some (s.failPass pass)
    | .reconciling, .ends => some (s.endPass pass)
    | .reconciling, .renames target pending =>
        if s.destroyed || s.wasReintroduced pass.path pass.kind ||
            (truthy pass.deletedIdentity).bind s.pathForGuid ≠ some target then none
        else
          let s := (s.removeDocument pass.path).removeStructuredDocument pass.path
          let s := if pending then s.removeOf target pass.kind else s
          some (s.setPoint pass (.renaming target))
    | .reconciling, .deletes present =>
        if s.destroyed || s.wasReintroduced pass.path pass.kind then none
        else
          let s := (s.removeDocument pass.path).removeStructuredDocument pass.path
          some (if present then s.setPoint pass .deleting else s.endPass pass)
    | .renaming target, .ends =>
        match truthy pass.deletedIdentity with
        | none => none
        | some guid =>
            if s.destroyed then some (s.endPass pass)
            else
              some (((s.enqueueDoc ⟨target, guid, pass.kind, false, none⟩ true).pumpDocQueue cfg)
                |>.endPass pass)
    | .deleting, .ends =>
        if s.destroyed || !s.wasReintroduced pass.path pass.kind then some (s.endPass pass)
        else some ((s.rematerializeReintroducedPath pass.path).endPass pass)
    | _, _ => none

end VaultSync

/-! ## Steps -/

/-- What finishes the promise of a slot. -/
inductive Finish where
  | completion
  | timeout
  | status (status : SyncStatus)
  deriving DecidableEq

def Finish.finishes : Finish → Bool
  | .completion | .timeout => true
  | .status st => st = .error

inductive Event where
  | filesChanged (files : List (Path × Guid)) (keys : List (Path × KeyChange Guid))
  | structuredChanged (structured : List (Path × Option StructuredMeta))
      (keys : List (Path × KeyChange StructuredMeta))
  | deleteContinues (pass : DeletePass) (outcome : Outcome)
  | deleteRetried (path : Path) (kind : DocKind) (deletedIdentity : Option Guid)
  | epochRebuilt (documentId : String) (rewound : Bool)
  | prioritized (path : Option Path) (guid : Option Guid)
  | invalidated (documentId : String)
  | reloadWindowOver (path : Path) (documentId : String)
  | suspended
  | resumes (priorities : List Path)
  | resumed (generation : Nat) (priorities : List Path)
  | indexStatus (status : SyncStatus) (priorities : List Path)
  /-- `reconnectDocumentsWhenCompatible` -/
  | documentsReconnected
  | finish (index : Nat) (finish : Finish)
  | slotFree (index : Nat)
  /-- A pass of the initial sync queues an entry, ends, and the whole sync ends or fails. -/
  | initialSyncQueues (item : QueueItem) (front : Bool)
  | initialSyncPassed
  | initialSynced
  | initialSyncFailed
  | initialSyncRetried
  /-- Documents are made, evicted or get ready, and files come and go. -/
  | outside (documents : List (Path × SyncedDoc))
      (structuredDocuments : List (Path × StructuredKind × SyncedDoc))
      (removed localFiles : List Path)
  | destroyed

/-- The slot of a started document. -/
def VaultSync.setSlot (s : VaultSync) (index : Nat) (slot : Slot) : VaultSync :=
  { s with started := s.started.modify index fun doc => { doc with slot := slot } }

def step (s : VaultSync) : Event → Option VaultSync
  | .filesChanged files keys => some ({ s with files := files }.onFilesChanged cfg keys)
  | .structuredChanged structured keys =>
      some ({ s with structured := structured }.onStructuredChanged cfg keys)
  | .deleteContinues pass outcome => s.continueDelete cfg pass outcome
  | .deleteRetried path kind deletedIdentity =>
      if (path, kind, deletedIdentity) ∈ s.deleteTimers then
        some ({ s with deleteTimers := s.deleteTimers.erase (path, kind, deletedIdentity) }
          |>.handleRemoteDelete path kind deletedIdentity)
      else none
  | .epochRebuilt documentId rewound => some (s.rebuildDocumentForEpoch cfg documentId rewound)
  | .prioritized path guid => some (s.prioritizeItem cfg path guid)
  | .invalidated documentId => some (s.onDocumentInvalidated cfg documentId)
  | .reloadWindowOver path documentId =>
      if (path, documentId) ∈ s.reloadTimers then
        some ({ s with reloadTimers := s.reloadTimers.erase (path, documentId) }
          |>.reloadWindowOver cfg path documentId)
      else none
  | .suspended => some (s.suspendForBackground cfg)
  | .resumes priorities => some (s.resumeFromBackground cfg priorities)
  | .resumed generation priorities =>
      if generation ∈ s.resumes then
        some ({ s with resumes := s.resumes.erase generation }.resumed cfg generation priorities)
      else none
  | .indexStatus status priorities => some (s.handleIndexStatus cfg status priorities)
  | .documentsReconnected =>
      if cfg.isMobile || s.destroyed || s.mobileSuspended then none else some (s.pumpDocQueue cfg)
  | .finish index finish =>
      match s.started[index]? with
      | some doc =>
          if doc.slot = .waiting && finish.finishes then some (s.setSlot index .resolved)
          else some s
      | none => none
  | .slotFree index =>
      match s.started[index]? with
      | some doc =>
          if doc.slot = .resolved then some ((s.setSlot index .freed).slotFree cfg doc) else none
      | none => none
  | .initialSyncQueues item front =>
      match s.initialSync with
      | .running _ =>
          if s.destroyed || item ∉ s.indexItems item.path then none
          else
            let s := { s with bootstrapPrepared := true, initialSync := .running false }
            some (s.enqueueDoc item front)
      | _ => none
  | .initialSyncPassed =>
      match s.initialSync with
      | .running _ =>
          let s := { s with bootstrapPrepared := true, initialSync := .running true }
          let s := s.pumpDocQueue cfg
          some { s with
            highPriorityDrained := s.highPriorityDrained || s.prioritizedPaths.isEmpty }
      | _ => none
  | .initialSynced =>
      if s.initialSync = .running true then some { s with initialSync := .synced } else none
  | .initialSyncFailed =>
      match s.initialSync with
      | .running _ => if s.destroyed then none else some { s with initialSync := .retrying }
      | _ => none
  | .initialSyncRetried =>
      if s.initialSync = .retrying then some s.runInitialSync else none
  | .outside documents structuredDocuments removed localFiles =>
      some { s with
        documents := documents
        structuredDocuments := structuredDocuments
        removed := removed
        localFiles := localFiles }
  | .destroyed => some { s with destroyed := true, documents := [], structuredDocuments := [] }

end Source

/-- What the constructor leaves, with the persisted index. -/
def Constructed (s : VaultSync) : Prop :=
  ∃ mobileSuspended files structured removed localFiles,
    s = {
      destroyed := false
      mobileSuspended := mobileSuspended
      docQueue := []
      activeDocConnections := 0
      docConnectionGeneration := 0
      started := []
      documents := []
      structuredDocuments := []
      files := files
      structured := structured
      prioritizedPaths := []
      prioritizedGuids := []
      highPriorityDrained := false
      indexStatus := .offline
      mobileCatchUpPending := false
      mobileResumeInProgress := false
      resumes := []
      invalidationReloads := []
      invalidationReloadPending := []
      reloadTimers := []
      bootstrapPrepared := false
      initialSync := .notRun
      removed := removed
      localFiles := localFiles
      deletes := []
      remoteDeletePending := []
      deleteTimers := [] }

end Realtime.Vault.DocQueue
