import Mathlib.Tactic
import Realtime.Lib.Assoc
import Realtime.Lib.Transition
import Realtime.Vault.BootstrapEvents
import Realtime.Vault.LocalSyncState

/-!
# Applying remote deletes

`handleRemoteDelete` and what it awaits, from `src/VaultSync.ts`. A path has at most one
pass in flight; a delete that arrives meanwhile is coalesced, and a pass that fails is
retried. A step is what runs between two awaits, or something else that happens while
a pass waits: another program writes the file, the user types, the index changes.

The last fields of the state record what no code reads: the content the server
acknowledged, the content a local store is known to contain, the conflict copies, and
what a pass had read of a path when it let the delete go on.
-/

namespace Realtime.Vault.RemoteDelete

open Lib

abbrev Guid := String

variable {τ φ : Type}

/-- A resident `Document`, `CanvasDocument` or `BaseDocument`. -/
structure Resident (τ : Type) where
  guid : Guid
  epoch : Nat
  content : τ
  ready : Bool
  deriving DecidableEq

structure StructuredMeta where
  guid : Guid
  kind : StructuredKind
  deriving DecidableEq

/-- The locals of `preserveUnacknowledgedVersions` that outlive a round. -/
structure Preserving (φ : Type) where
  handled : List φ
  preservedPaths : List Path

/-- A call of `vault.delete`, with what was at the path. -/
structure Call (τ : Type) where
  disk : τ
  residents : List (Resident τ)
  inFiles : Bool
  inStructured : Bool

/-- The await a pass is at. -/
inductive Point (τ φ : Type) where
  /-- `ensureParentFolder` of `applyRemoteRename`, with the target and whether a
  document was resident there. -/
  | parentFolder (target : Path) (pending : Bool)
  | moving (target : Path)
  | moved (target : Path)
  /-- `applyRemoteRename` resolved to `false`. -/
  | notRenamed
  | hashResident (l : Preserving φ) (resident : Resident τ)
  | readDisk (l : Preserving φ) (resident : Option (Resident τ))
  | diskRead (l : Preserving φ) (resident : Option (Resident τ)) (disk : τ)
  | hashDisk (l : Preserving φ) (resident : Option (Resident τ)) (disk : τ)
  /-- `storedContentFingerprint`, with the recorded fingerprint it is compared to. -/
  | hashStored (l : Preserving φ) (resident : Resident τ) (disk : τ) (expected : Option (Nat × φ))
  | hashPending (l : Preserving φ) (pending : τ)
  | copying (l : Preserving φ) (pending : τ)
  | copied (l : Preserving φ) (destination : Path)
  /-- What `preserveUnacknowledgedVersions` resolved to. -/
  | preserved (preservedPaths : Option (List Path))
  | deleting (call : Call τ)
  | deleted
  /-- `reconcileRemoteDelete` resolved. -/
  | resolved

/-- The await can reject. -/
def Point.fallible : Point τ φ → Bool
  | .parentFolder _ _ | .moving _ | .hashResident _ _ | .readDisk _ _ | .hashDisk _ _ _
  | .hashStored _ _ _ _ | .hashPending _ _ | .copying _ _ | .deleting _ => true
  | _ => false

/-- A running `reconcileRemoteDelete`. -/
structure Pass (τ φ : Type) where
  kind : DocKind
  deletedIdentity : Option Guid
  point : Point τ φ

/-- What a pass had read when it resolved to a list of copies. -/
structure Seen (τ : Type) where
  deletedIdentity : Option Guid
  resident : Option (Resident τ)
  disk : Option τ

/-- The index, the files, the loaded documents and the running passes. -/
structure State (τ φ : Type) where
  files : List (Path × Guid)
  /-- A malformed entry is `none`. -/
  structured : List (Path × Option StructuredMeta)
  vault : Path → Option τ
  documents : Path → Option (Resident τ)
  structuredDocuments : Path → Option (StructuredKind × Resident τ)
  localSyncState : Path → Option (LocalPathState Guid φ)
  bootstrapPrepared : Bool
  /-- `bootstrapLog.removed` -/
  removed : Path → Bool
  destroyed : Bool
  /-- `remoteDeleteInFlight` -/
  passes : Path → Option (Pass τ φ)
  remoteDeletePending : Path → Option (DocKind × Option Guid)
  remoteDeletePreserved : Path → Bool
  /-- The timers of failed passes. -/
  retries : List (Path × DocKind × Option Guid)
  acked : List (Guid × τ)
  stored : List (Guid × Nat × τ)
  copies : List (Path × τ)
  seen : Path → Option (Seen τ)

namespace State

/-! ## What the code asks -/

def wasReintroduced (s : State τ φ) (path : Path) : DocKind → Bool
  | .text => (Assoc.get path s.files).isSome
  | .structured _ => (Assoc.get path s.structured).isSome

def aborted (s : State τ φ) (path : Path) (kind : DocKind) : Bool :=
  s.destroyed || s.wasReintroduced path kind

def localFileExists (s : State τ φ) (path : Path) : Bool := (s.vault path).isSome

def residentContent (s : State τ φ) (path : Path) : DocKind → Option (Resident τ)
  | .text => s.documents path
  | .structured kind =>
      match s.structuredDocuments path with
      | some (k, r) => if k = kind then some r else none
      | none => none

def pathForGuid (s : State τ φ) (guid : Guid) : Option Path :=
  match s.files.find? fun e => e.2 = guid with
  | some e => some e.1
  | none => (s.structured.find? fun e => e.2.map (·.guid) = some guid).map Prod.fst

/-- `targetKind` -/
def targetKind (s : State τ φ) (target : Path) : DocKind → Option DocKind
  | .text => some .text
  | .structured _ => ((Assoc.get target s.structured).join).map fun m => .structured m.kind

/-- The document map `applyRemoteRename` looks at. -/
def residentOf (s : State τ φ) (path : Path) : DocKind → Option (Resident τ)
  | .text => s.documents path
  | .structured _ => (s.structuredDocuments path).map Prod.snd

/-! ## What it does -/

def removeDocument (s : State τ φ) (path : Path) : State τ φ :=
  { s with documents := Function.update s.documents path none }

def removeStructuredDocument (s : State τ φ) (path : Path) : State τ φ :=
  { s with structuredDocuments := Function.update s.structuredDocuments path none }

def removeOf (s : State τ φ) (path : Path) : DocKind → State τ φ
  | .text => s.removeDocument path
  | .structured _ => s.removeStructuredDocument path

/-- The pass goes on to its next await. -/
def suspend (s : State τ φ) (path : Path) (pass : Pass τ φ) (point : Point τ φ) : State τ φ :=
  { s with passes := Function.update s.passes path (some { pass with point := point }) }

/-- `preserveUnacknowledgedVersions` resolves with the copies. -/
def resolvePreserved (s : State τ φ) (path : Path) (pass : Pass τ φ) (l : Preserving φ)
    (resident : Option (Resident τ)) (disk : Option τ) : State τ φ :=
  { s.suspend path pass (.preserved (some l.preservedPaths)) with
    seen := Function.update s.seen path (some ⟨pass.deletedIdentity, resident, disk⟩) }

/-- The second half of a round: the file on disk. -/
def diskRound (s : State τ φ) (path : Path) (pass : Pass τ φ) (l : Preserving φ)
    (resident : Option (Resident τ)) : State τ φ :=
  if s.localFileExists path then s.suspend path pass (.readDisk l resident)
  else s.resolvePreserved path pass l resident none

/-- One turn of the loop of `preserveUnacknowledgedVersions`. -/
def round (s : State τ φ) (path : Path) (pass : Pass τ φ) (l : Preserving φ) : State τ φ :=
  match s.residentContent path pass.kind with
  | some resident => s.suspend path pass (.hashResident l resident)
  | none => s.diskRound path pass l none

/-- An empty string is no identity. -/
def truthy (identity : Option Guid) : Option Guid := identity.filter (· ≠ "")

def preserveUnacknowledgedVersions (s : State τ φ) (path : Path) (pass : Pass τ φ) : State τ φ :=
  let acknowledged := (truthy pass.deletedIdentity).bind fun guid =>
    LocalPathState.acknowledgedFingerprint guid (s.localSyncState path)
  s.round path pass ⟨acknowledged.toList, []⟩

/-- What is at the path when `vault.delete` is called. -/
def call (s : State τ φ) (path : Path) (disk : τ) : Call τ where
  disk := disk
  residents := (s.documents path).toList ++ ((s.structuredDocuments path).map Prod.snd).toList
  inFiles := (Assoc.get path s.files).isSome
  inStructured := (Assoc.get path s.structured).isSome

/-- `reconcileRemoteDelete` from where nothing is left to preserve. -/
def deleteFile (s : State τ φ) (path : Path) (pass : Pass τ φ) : State τ φ :=
  if s.aborted path pass.kind then s.suspend path pass .resolved
  else
    let s' := (s.removeDocument path).removeStructuredDocument path
    match s.vault path with
    | some disk => s'.suspend path pass (.deleting (s.call path disk))
    | none =>
        { s'.suspend path pass .resolved with
          localSyncState := Function.update s.localSyncState path none
          remoteDeletePreserved := Function.update s.remoteDeletePreserved path false }

/-- `applyRemoteRename` up to its first await: the target and the document there. -/
def renameTarget (s : State τ φ) (origin : Path) (kind : DocKind) (guid : Guid) :
    Option (Path × Bool) :=
  match s.pathForGuid guid with
  | none => none
  | some target =>
      if target = origin ∨ s.localFileExists target = true ∨
          s.targetKind target kind ≠ some kind ∨
          (s.residentOf target kind).any (·.ready) = true then none
      else some (target, (s.residentOf target kind).isSome)

/-- `reconcileRemoteDelete`, up to its first await. -/
def reconcileRemoteDelete (s : State τ φ) (path : Path) (kind : DocKind)
    (deletedIdentity : Option Guid) : State τ φ :=
  let pass : Pass τ φ := ⟨kind, deletedIdentity, .resolved⟩
  if s.wasReintroduced path kind then s.suspend path pass .resolved
  else if s.localFileExists path = true ∧ s.remoteDeletePreserved path = false then
    match truthy deletedIdentity with
    | some guid =>
        match s.renameTarget path kind guid with
        | some (target, pending) => s.suspend path pass (.parentFolder target pending)
        | none => s.suspend path pass .notRenamed
    | none => s.preserveUnacknowledgedVersions path pass
  else s.deleteFile path pass

/-- `handleRemoteDelete`, up to its first await. -/
def handleRemoteDelete (s : State τ φ) (path : Path) (kind : DocKind)
    (deletedIdentity : Option Guid) : State τ φ :=
  if s.destroyed then s
  else
    match s.passes path with
    | some _ =>
        { s with
          remoteDeletePending :=
            Function.update s.remoteDeletePending path (some (kind, deletedIdentity)) }
    | none =>
        { s with remoteDeletePending := Function.update s.remoteDeletePending path none }
          |>.reconcileRemoteDelete path kind deletedIdentity

/-- The `catch` of `reconcileRemoteDelete`. -/
def catchError (s : State τ φ) (path : Path) (pass : Pass τ φ) : State τ φ :=
  if s.destroyed then s.suspend path pass .resolved
  else
    { s.suspend path pass .resolved with
      retries := s.retries ++ [(path, pass.kind, pass.deletedIdentity)] }

def moveRecord (s : State τ φ) (origin target : Path) (kind : DocKind) : State τ φ :=
  { s with
    localSyncState :=
      Function.update (Function.update s.localSyncState origin none) target
        (some (LocalPathState.moved (.doc kind) (s.localSyncState origin))) }

/-- `enqueueDoc`: a document of another guid gives way, the new one is loaded later. -/
def enqueueDoc (s : State τ φ) (path : Path) (guid : Guid) (kind : DocKind) : State τ φ :=
  if s.destroyed || (s.residentOf path kind).all (·.guid = guid) then s else s.removeOf path kind

def rematerializeReintroducedPath (s : State τ φ) (path : Path) : State τ φ :=
  match truthy (Assoc.get path s.files) with
  | some _ => s.removeDocument path
  | none =>
      if (Assoc.get path s.structured).join.isSome then s.removeStructuredDocument path else s

/-- `applyRemoteRename` once the folder exists. -/
def applyRemoteRename (s : State τ φ) (path : Path) (pass : Pass τ φ) (target : Path)
    (pending : Bool) : State τ φ :=
  if s.aborted path pass.kind = true ∨ s.localFileExists target = true ∨
      s.localFileExists path = false ∨
      (truthy pass.deletedIdentity).bind s.pathForGuid ≠ some target then
    s.suspend path pass .notRenamed
  else
    let s' := (s.removeDocument path).removeStructuredDocument path
    let s' := if pending then s'.removeOf target pass.kind else s'
    (s'.moveRecord path target pass.kind).suspend path pass (.moving target)

/-! ## What runs when an await is over -/

section Resume

variable [DecidableEq φ] (sha256Text : τ → φ)

/-- Continue after the await `pass` is at. -/
def resume (s : State τ φ) (path : Path) (pass : Pass τ φ) : Option (State τ φ) :=
  match pass.point with
  | .parentFolder target pending => some (s.applyRemoteRename path pass target pending)
  | .moved target =>
      let s' := s.suspend path pass .resolved
      some (match truthy pass.deletedIdentity with
        | some guid => s'.enqueueDoc target guid pass.kind
        | none => s')
  | .notRenamed =>
      if s.remoteDeletePreserved path then some (s.deleteFile path pass)
      else some (s.preserveUnacknowledgedVersions path pass)
  | .hashResident l resident =>
      if s.aborted path pass.kind then some (s.suspend path pass (.preserved none))
      else if sha256Text resident.content ∈ l.handled then
        some (s.diskRound path pass l (some resident))
      else some (s.suspend path pass (.hashPending l resident.content))
  | .diskRead l resident disk =>
      if s.aborted path pass.kind then some (s.suspend path pass (.preserved none))
      else some (s.suspend path pass (.hashDisk l resident disk))
  | .hashDisk l resident disk =>
      if s.aborted path pass.kind then some (s.suspend path pass (.preserved none))
      else if sha256Text disk ∈ l.handled then
        some (s.resolvePreserved path pass l resident (some disk))
      else
        match resident with
        | some r =>
            if some r.guid = pass.deletedIdentity then
              some (s.suspend path pass (.hashStored l r disk
                (LocalPathState.diskFingerprintFor r.guid (s.localSyncState path))))
            else some (s.suspend path pass (.hashPending l disk))
        | none => some (s.suspend path pass (.hashPending l disk))
  | .hashStored l resident disk expected =>
      if s.aborted path pass.kind then some (s.suspend path pass (.preserved none))
      else if expected = some (resident.epoch, sha256Text disk) then
        some (s.resolvePreserved path pass l (some resident) (some disk))
      else some (s.suspend path pass (.hashPending l disk))
  | .hashPending l pending =>
      some (s.suspend path pass
        (.copying { l with handled := sha256Text pending :: l.handled } pending))
  | .copied l destination =>
      if s.aborted path pass.kind then some (s.suspend path pass (.preserved none))
      else some (s.round path pass { l with preservedPaths := l.preservedPaths ++ [destination] })
  | .preserved none => some (s.suspend path pass .resolved)
  | .preserved (some preservedPaths) =>
      let s' :=
        if preservedPaths = [] then s
        else { s with
          remoteDeletePreserved := Function.update s.remoteDeletePreserved path true }
      some (s'.deleteFile path pass)
  | .deleted =>
      if s.destroyed then some (s.suspend path pass .resolved)
      else if s.wasReintroduced path pass.kind then
        some ((s.rematerializeReintroducedPath path).suspend path pass .resolved)
      else
        some { s.suspend path pass .resolved with
          localSyncState := Function.update s.localSyncState path none
          remoteDeletePreserved := Function.update s.remoteDeletePreserved path false }
  -- the loop of `handleRemoteDelete`
  | .resolved =>
      match s.remoteDeletePending path with
      | some (kind, deletedIdentity) =>
          some ({ s with remoteDeletePending := Function.update s.remoteDeletePending path none }
            |>.reconcileRemoteDelete path kind deletedIdentity)
      | none => some { s with passes := Function.update s.passes path none }
  | _ => none

/-- What a file operation of a pass does, before the await on it is over. -/
def effect (s : State τ φ) (path : Path) (pass : Pass τ φ) (destination : Path) :
    Option (State τ φ) :=
  match pass.point with
  | .moving target =>
      match s.vault path, s.vault target with
      | some disk, none =>
          some { s.suspend path pass (.moved target) with
            vault := Function.update (Function.update s.vault path none) target (some disk) }
      | _, _ => none
  | .readDisk l resident =>
      (s.vault path).map fun disk => s.suspend path pass (.diskRead l resident disk)
  | .copying l pending =>
      if s.localFileExists destination then none
      else
        some { s.suspend path pass (.copied l destination) with
          vault := Function.update s.vault destination (some pending)
          copies := (path, pending) :: s.copies }
  | .deleting _ =>
      some { s.suspend path pass .deleted with vault := Function.update s.vault path none }
  | _ => none

/-- An await rejects. A failed rename puts the record back. -/
def reject (s : State τ φ) (path : Path) (pass : Pass τ φ) : Option (State τ φ) :=
  match pass.point with
  | .moving target => some ((s.moveRecord target path pass.kind).catchError path pass)
  | point => if point.fallible then some (s.catchError path pass) else none

end Resume

/-! ## What else happens -/

/-- The content of a fingerprint that is recorded. -/
inductive RecordOp (τ : Type) where
  | mark (kind : MaterializedKind)
  | beginCandidate (kind : MaterializedKind) (identity : Option Guid) (candidate : Option τ)
  | migrateLegacyIdentity (kind : MaterializedKind) (identity : Guid)
  | commit (kind : MaterializedKind) (identity : Guid)
  | markSynced (kind : MaterializedKind) (identity : Guid) (content : τ) (reconciled : Bool)
  | markPublished (kind : MaterializedKind) (identity : Guid) (content : τ)
      (replaced : Option Guid)
  | markDisk (kind : MaterializedKind) (identity : Guid) (epoch : Nat) (content : τ)
  | remove
  | move (target : Path) (kind : DocKind)
  /-- `adoptIndexEpoch` of an index that was restored from a backup. -/
  | clear

def setRecord (s : State τ φ) (path : Path) (r : Option (LocalPathState Guid φ)) : State τ φ :=
  { s with localSyncState := Function.update s.localSyncState path r }

section Record

variable [DecidableEq φ] (sha256Text : τ → φ)

/-- What is recorded of a path. -/
def record (s : State τ φ) (path : Path) : RecordOp τ → State τ φ
  | .mark kind => s.setRecord path (some (.mark kind (s.localSyncState path)))
  | .beginCandidate kind identity candidate =>
      s.setRecord path
        (some (.beginCandidate kind identity (candidate.map sha256Text) (s.localSyncState path)))
  | .migrateLegacyIdentity kind identity =>
      s.setRecord path
        (LocalPathState.migrateLegacyIdentity kind identity (s.localSyncState path))
  | .commit kind identity => s.setRecord path (some (.commit kind identity (s.localSyncState path)))
  | .markSynced kind identity content reconciled =>
      { s.setRecord path (some
          (.markSynced kind identity (sha256Text content) reconciled (s.localSyncState path))) with
        acked := (identity, content) :: s.acked }
  | .markPublished kind identity content replaced =>
      { s.setRecord path (some
          (.markPublished kind identity (sha256Text content) replaced (s.localSyncState path))) with
        acked := (identity, content) :: s.acked }
  | .markDisk kind identity epoch content =>
      { s.setRecord path
          (LocalPathState.markDisk kind identity (epoch, sha256Text content)
            (s.localSyncState path)) with
        stored := (identity, epoch, content) :: s.stored }
  | .remove => s.setRecord path none
  | .move target kind => s.moveRecord path target kind
  | .clear => { s with localSyncState := fun _ => none }

end Record

/-- The observer of `files`, for one path. -/
def onFilesChanged (before : List (Path × Guid)) (s : State τ φ) (path : Path) : State τ φ :=
  if s.destroyed || !s.bootstrapPrepared then s
  else
    match Assoc.get path s.files with
    | some guid =>
        if guid = "" ∨ s.removed path = true then s
        else
          { s with remoteDeletePreserved := Function.update s.remoteDeletePreserved path false }
            |>.enqueueDoc path guid .text
    | none =>
        match Assoc.get path before with
        | some old => s.handleRemoteDelete path .text (some old)
        | none => s

/-- The observer of `structured`, for one path; a malformed entry is passed over. -/
def onStructuredChanged (before : List (Path × Option StructuredMeta)) (s : State τ φ)
    (path : Path) : State τ φ :=
  if s.destroyed || !s.bootstrapPrepared then s
  else
    match Assoc.get path s.structured with
    | some entry =>
        match entry with
        | some entry =>
            if s.removed path then s
            else
              { s with remoteDeletePreserved := Function.update s.remoteDeletePreserved path false }
                |>.enqueueDoc path entry.guid (.structured entry.kind)
        | none => s
    | none =>
        match Assoc.get path before with
        | some (some old) =>
            s.handleRemoteDelete path (.structured old.kind) (some old.guid)
        | some none => s.handleRemoteDelete path (.structured .canvas) none
        | none => s

/-- What an index transaction does to a map. -/
def change {α : Type} (m : List (Path × α)) (c : Path × Option α) : List (Path × α) :=
  match c.2 with
  | some v => Assoc.set c.1 v m
  | none => Assoc.erase c.1 m

/-- An index transaction of any device, with the observers it runs. -/
def transact (s : State τ φ) (files : List (Path × Option Guid))
    (structured : List (Path × Option (Option StructuredMeta))) : State τ φ :=
  let s' := { s with
    files := files.foldl change s.files
    structured := structured.foldl change s.structured }
  let s' := (files.map Prod.fst).eraseDups.foldl (onFilesChanged s.files) s'
  (structured.map Prod.fst).eraseDups.foldl (onStructuredChanged s.structured) s'

end State

/-- What happens between two awaits of the passes. -/
inductive Event (τ : Type) where
  /-- The file at a path is written, created or removed by anything but a pass. -/
  | edit (path : Path) (content : Option τ)
  /-- A document is loaded, edited, synced or dropped. -/
  | document (path : Path) (resident : Option (Resident τ))
  | structuredDocument (path : Path) (resident : Option (StructuredKind × Resident τ))
  | transact (files : List (Path × Option Guid))
      (structured : List (Path × Option (Option StructuredMeta)))
  | record (path : Path) (op : State.RecordOp τ)
  | prepare
  | removed (path : Path) (removed : Bool)
  /-- The startup calls `handleRemoteDelete` for what has left the index. -/
  | startup (path : Path) (kind : DocKind) (deletedIdentity : Option Guid)
  | retry (index : Nat)
  | resume (path : Path)
  | effect (path : Path) (destination : Path)
  | reject (path : Path)
  | destroy

def step [DecidableEq φ] (sha256Text : τ → φ) (s : State τ φ) : Event τ → Option (State τ φ)
  | .edit path content => some { s with vault := Function.update s.vault path content }
  | .document path resident =>
      some { s with documents := Function.update s.documents path resident }
  | .structuredDocument path resident =>
      some { s with structuredDocuments := Function.update s.structuredDocuments path resident }
  | .transact files structured => some (s.transact files structured)
  | .record path op => some (s.record sha256Text path op)
  | .prepare => some { s with bootstrapPrepared := true }
  | .removed path removed => some { s with removed := Function.update s.removed path removed }
  | .startup path kind deletedIdentity => some (s.handleRemoteDelete path kind deletedIdentity)
  | .retry index =>
      match s.retries[index]? with
      | some (path, kind, deletedIdentity) =>
          some ({ s with retries := s.retries.eraseIdx index }
            |>.handleRemoteDelete path kind deletedIdentity)
      | none => none
  | .resume path => (s.passes path).bind fun pass => s.resume sha256Text path pass
  | .effect path destination => (s.passes path).bind fun pass => s.effect path pass destination
  | .reject path => (s.passes path).bind fun pass => s.reject path pass
  | .destroy => some { s with destroyed := true }

end Realtime.Vault.RemoteDelete
