import Mathlib.Tactic
import Realtime.Lib.Utf16
import Realtime.Vault.LocalSyncState

/-!
# Reconciling a binary file

`BinarySync` of `src/BinarySync.ts` for one path: what a reconcile decides from the hashes on
disk, in the shared index and in the baseline, and what a device records of a version it has
published. `src/lineage.ts` tells a later version from one that was published beside it.
-/

namespace Realtime.Vault.BinarySync

open Lib.Utf16

/-! ## Lineage -/

def lineageLength : Nat := 8

def prefixLength : Nat := 16

/-- An entry of the index. An absent field is `none`; a `prev` of `some none` is `null`, and an
element of the lineage that is no string is `none`. -/
structure VersionedEntry where
  hash : JsString
  prev : Option (Option JsString) := none
  lineage : Option (List (Option JsString)) := none
  deriving DecidableEq

def lineageAfter (replaced : Option VersionedEntry) : List JsString :=
  match replaced with
  | none => []
  | some replaced =>
      if replaced.hash = [] then []
      else
        let prior := (replaced.lineage.getD []).filterMap id
        (replaced.hash.take prefixLength :: prior).take lineageLength

/-- The entry was built on the ancestor, as far as its lineage reaches. -/
def descendsFrom (entry : VersionedEntry) (ancestor : JsString) : Bool :=
  entry.prev = some (some ancestor) ||
    (entry.lineage.getD []).contains (some (ancestor.take prefixLength))

/-! ## The state of a path -/

/-- What `sha256Hex` returns. -/
structure Digest where
  hex : JsString
  length_eq : hex.length = 64
  deriving DecidableEq

/-- What `hashDisk` resolves to. -/
inductive DiskHash where
  | unreadable
  | absent
  | present (hash : Digest)
  deriving DecidableEq

structure Device where
  /-- `none` without a `LocalSyncState`, `some none` where that has no record of the path. -/
  localSyncState : Option (Option (LocalPathState JsString JsString))
  lastSyncedHash : Option JsString
  pendingDownload : Bool
  urgent : Bool
  liveDelete : Bool
  deferredInitialPull : Bool
  deferredReconcile : Bool
  deriving DecidableEq

/-- What a reconcile finds: `Since` is after its one await. -/
structure Circumstances where
  destroyed : Bool
  tracked : Bool
  ignored : Bool
  movingAway : Bool
  pullingMissingRemote : Bool
  paused : Bool
  disk : DiskHash
  destroyedSince : Bool
  pausedSince : Bool
  remote : Option VersionedEntry
  pendingLocalRemoval : Bool
  deriving DecidableEq

/-- What `reconcileNow` decides for a path. -/
inductive Decision where
  | nothing
  | deferred
  | agreed
  | queueLocalUpload (expectedRemoteHash : Option JsString) (localHash : JsString)
  | deleteLocal
  | publishDelete
  | downloadToDisk (hash : JsString) (expectedLocalHash : Option JsString)
  | resolveConflict
  deriving DecidableEq

/-- An empty string is falsy, as `null` is. -/
def truthy : Option JsString → Bool
  | some s => s ≠ []
  | none => false

namespace Device

/-- Both sides have moved apart, and only the remote one has left the baseline. -/
def onRemoteMoved (dev : Device) (base : JsString) (remote : VersionedEntry) : Decision :=
  let state := dev.localSyncState.join
  let ownBase := (state.map fun s => decide (s.identity = some (some base)) &&
    s.publishedFrom.isSome).getD false
  if descendsFrom remote base then .downloadToDisk remote.hash (some base)
  else if (state.bind (·.replacedIdentity)) = some (some remote.hash) then
    .queueLocalUpload (some remote.hash) base
  else if dev.localSyncState.isSome && !ownBase then .downloadToDisk remote.hash (some base)
  else if remote.prev.isNone then .downloadToDisk remote.hash (some base)
  else .resolveConflict

/-- `reconcileNow` where disk and index differ. -/
def decide (dev : Device) (localHash : Option JsString) (remote : Option VersionedEntry)
    (liveDelete initialPull pendingLocalRemoval : Bool) : Decision :=
  let remoteHash := remote.map (·.hash)
  let base := dev.lastSyncedHash
  match truthy localHash, truthy remoteHash with
  | true, false =>
      if base = none then .queueLocalUpload none (localHash.getD [])
      else if base = localHash then .deleteLocal
      else .resolveConflict
  | false, true =>
      if base = remoteHash ∧ initialPull = false ∧
          (liveDelete = true ∨ dev.pendingDownload = false) then .publishDelete
      else if pendingLocalRemoval then .nothing
      else .downloadToDisk (remoteHash.getD []) localHash
  | true, true =>
      if base = remoteHash then .queueLocalUpload remoteHash (localHash.getD [])
      else
        match remote with
        | some remote =>
            if base = localHash then dev.onRemoteMoved (localHash.getD []) remote
            else .resolveConflict
        | none => .resolveConflict
  | false, false => .nothing

/-- What `reconcileNow` records where disk and index agree. -/
def agree (dev : Device) (remoteHash : Option JsString) : Device :=
  let dev := { dev with pendingDownload := false, urgent := false }
  match remoteHash with
  | some hash =>
      if hash = [] then { dev with lastSyncedHash := none }
      else
        { dev with
          lastSyncedHash := some hash
          localSyncState := dev.localSyncState.map fun state =>
            some (LocalPathState.markSynced .binary hash hash true state) }
  | none => { dev with lastSyncedHash := none }

def deferReconcile (dev : Device) (initialPull : Bool) : Device :=
  { dev with
    deferredReconcile := true
    deferredInitialPull := dev.deferredInitialPull || initialPull }

/-- A local file without a record begins as a candidate. -/
def beginCandidate (dev : Device) (localHash : Option JsString) : Device :=
  match dev.localSyncState, localHash with
  | some none, some hash =>
      if hash = [] then dev
      else
        { dev with
          localSyncState :=
            some (some (LocalPathState.beginCandidate .binary (some hash) (some hash) none)) }
  | _, _ => dev

/-- `reconcileNow` behind its await. -/
def compare (dev : Device) (c : Circumstances) (liveDelete initialPull : Bool) :
    Decision × Device :=
  let remoteHash := c.remote.map (·.hash)
  match c.disk with
  | .unreadable => (.nothing, dev)
  | .absent =>
      if remoteHash = none then (.agreed, dev.agree none)
      else (dev.decide none c.remote liveDelete initialPull c.pendingLocalRemoval, dev)
  | .present hash =>
      let dev := dev.beginCandidate (some hash.hex)
      if remoteHash = some hash.hex then (.agreed, dev.agree remoteHash)
      else (dev.decide (some hash.hex) c.remote liveDelete initialPull c.pendingLocalRemoval, dev)

def reconcileNow (dev : Device) (c : Circumstances) : Decision × Device :=
  if c.destroyed || !c.tracked || c.ignored || c.movingAway then (.nothing, dev)
  else
    let liveDelete := dev.liveDelete
    let initialPull := !liveDelete && (c.pullingMissingRemote || dev.deferredInitialPull)
    let dev :=
      { dev with
        liveDelete := false
        deferredInitialPull :=
          dev.deferredInitialPull && (liveDelete || c.pullingMissingRemote) }
    if c.paused then (.deferred, { dev with liveDelete }.deferReconcile initialPull)
    else if c.destroyedSince then (.nothing, dev)
    else if c.pausedSince then (.deferred, { dev with liveDelete }.deferReconcile initialPull)
    else dev.compare c liveDelete initialPull

/-- The entry the index has afterwards, and what the device records of it. -/
def publishMeta (dev : Device) (entry : VersionedEntry) : VersionedEntry × Device :=
  (entry,
    { dev with
      lastSyncedHash := some entry.hash
      localSyncState := dev.localSyncState.map fun state =>
        some (LocalPathState.markPublished .binary entry.hash entry.hash entry.prev.join state) })

/-- What `doUpload` publishes, in place of the entry its job expects. -/
def published (hash : Digest) (replaced : Option VersionedEntry) : VersionedEntry where
  hash := hash.hex
  prev := some (replaced.map (·.hash))
  lineage :=
    let lineage := lineageAfter replaced
    if lineage = [] then none else some (lineage.map some)

/-- `seedBaseline` of a device that starts, from the index as it was persisted. -/
def seedBaseline (dev : Device) (persisted : Option VersionedEntry) : Device :=
  let dev :=
    { dev with
      lastSyncedHash := none
      pendingDownload := false
      urgent := false
      liveDelete := false
      deferredInitialPull := false
      deferredReconcile := false }
  match dev.localSyncState with
  | none =>
      match persisted with
      | some entry => if entry.hash = [] then dev
          else { dev with lastSyncedHash := some entry.hash }
      | none => dev
  | some state =>
      -- the first loop, over the index
      let (state, base) :=
        match persisted with
        | some entry =>
            if entry.hash = [] then (state, none)
            else
              let state := LocalPathState.migrateLegacyIdentity .binary entry.hash state
              (state, state.bind fun s =>
                if s.identity = some (some entry.hash) ∧ s.candidate = false then some entry.hash
                else none)
        | none => (state, none)
      -- and the second, over the records
      let recorded := state.bind fun s =>
        if s.kind = .binary ∧ s.candidate = false then
          s.identity.join.bind fun identity =>
            if identity ≠ [] ∧ s.fingerprint = some identity then some identity else none
        else none
      { dev with localSyncState := some state, lastSyncedHash := recorded.or base }

end Device

end Realtime.Vault.BinarySync
