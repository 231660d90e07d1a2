import Mathlib.Tactic
import Realtime.Lib.Transition
import Realtime.Sync.Provider

/-!
# Read-only connections

The provider with tokens that may be read-only, and the functions of `src/SyncedDoc.ts` that
take content for acknowledged. On a read-only connection the server ignores every update and
still answers probes. A token is replaced only between connections.
-/

namespace Realtime.Sync

open Lib

variable {D V U E C : Type}

/-- The document and what is on record about its local content updates. -/
structure Session (D V U E : Type) where
  world : World D V U E
  /-- The level of the token that a connection was opened with. -/
  granted : Nat → Authorization
  contentRevision : Nat
  edits : List E
  /-- The updates that a read-only server has been offered. -/
  offered : List E
  /-- The versions that read-only servers have answered. -/
  readOnlyAnswers : List Nat

namespace Session

def hasLocalChanges (s : Session D V U E) : Bool := s.world.provider.hasLocalChanges

def document (s : Session D V U E) : D := s.world.provider.document

def server (s : Session D V U E) : D := s.world.server

/-! ## The server's side of a connection -/

/-- `run_connection`: client updates on a read-only connection are ignored. -/
def serve (y : Yjs D V U E) (s : Session D V U E) (k : Nat) : Option (World D V U E) :=
  let c := s.world.conns k
  match s.granted k, c.up with
  | .readOnly, .syncStep2 _ :: up | .readOnly, .update _ :: up =>
      if c.serving then some (s.world.setConn k { c with up := up }) else none
  | _, _ => s.world.serve y k

/-! ## Steps -/

/-- The message that the client gets from the socket next. -/
def received (s : Session D V U E) (k : Nat) : Option (ServerMessage V U) :=
  if s.world.provider.socket = some k ∧ (s.world.conns k).readyState ≠ .connecting ∧
      s.world.blocksTraffic = false then (s.world.conns k).down.head?
  else none

/-- A local content update. It brings a version unless it is made with a read-only token. -/
def edit (y : Yjs D V U E) (s : Session D V U E) (e : E) : Session D V U E :=
  let edited := { s.world with
    provider := { s.world.provider with document := y.edit s.document e }
    made :=
      if s.world.provider.readOnly then s.world.made
      else (s.world.provider.localVersion + 1, e) :: s.world.made }
  { s with
    world := edited.documentUpdateListener (y.update s.document e)
    edits := e :: s.edits }

/-- A message arrives; of a read-only session what it offers and is answered is recorded. -/
def deliver (y : Yjs D V U E) (s : Session D V U E) (k : Nat) : Option (Session D V U E) :=
  (Sync.step y s.world (.deliver k)).map fun w =>
    let s' := { s with world := w }
    match s.received k with
    | some (.syncStep1 _) => if s.world.provider.readOnly then { s' with offered := s.edits }
        else s'
    | some (.syncStatus v) =>
        if s.world.provider.readOnly then { s' with readOnlyAnswers := v :: s.readOnlyAnswers }
        else s'
    | _ => s'

/-- A step of the provider within a session. A token is minted only where no socket is. -/
def advance (y : Yjs D V U E) (s : Session D V U E) : Event U E → Option (Session D V U E)
  | .edit e => if s.world.provider.destroyed then none else some (s.edit y e)
  | .mintToken a =>
      if s.world.provider.socket.isNone then
        (Sync.step y s.world (.mintToken a)).map fun w => { s with world := w }
      else none
  | .dropToken =>
      if s.world.provider.socket.isNone then
        (Sync.step y s.world .dropToken).map fun w => { s with world := w }
      else none
  | .attemptConnection =>
      match s.world.provider.clientToken with
      | some level =>
          (Sync.step y s.world .attemptConnection).map fun w =>
            { s with
              world := w
              granted := Function.update s.granted s.world.fresh level }
      | none => none
  | .serve k => (s.serve y k).map fun w => { s with world := w }
  | .deliver k => s.deliver y k
  | event => (Sync.step y s.world event).map fun w => { s with world := w }

variable [DecidableEq C] (serializeRecoveryContent : D → C)

/-- `noteContentChanged` -/
def noteContentChanged (s s' : Session D V U E) : Session D V U E :=
  if serializeRecoveryContent s'.document = serializeRecoveryContent s.document then s'
  else { s' with contentRevision := s.contentRevision + 1 }

def step (y : Yjs D V U E) (s : Session D V U E) (event : Event U E) :
    Option (Session D V U E) :=
  (s.advance y event).map (s.noteContentChanged serializeRecoveryContent)

end Session

/-! ## What counts as acknowledged -/

/-- The state of the `SyncedDoc` around the provider. -/
structure SyncedDoc where
  destroyed : Bool
  ready : Bool
  startupReady : Bool
  canHibernateLocally : Bool

namespace SyncedDoc

def mayHibernate (doc : SyncedDoc) (s : Session D V U E) : Bool :=
  !doc.destroyed && doc.ready && !s.hasLocalChanges && doc.canHibernateLocally

/-- Before and after its state is stored. -/
def prepareForHibernation (doc : SyncedDoc) (s : Session D V U E) (doc' : SyncedDoc)
    (s' : Session D V U E) : Bool :=
  if !doc.mayHibernate s then false else doc'.mayHibernate s'

variable (serializeRecoveryContent : D → C)

def retiredBaseline (doc : SyncedDoc) (s : Session D V U E) : Option C :=
  if doc.destroyed || !doc.ready || s.hasLocalChanges then none
  else some (serializeRecoveryContent s.document)

/-- The content whose fingerprint is recorded, before and after it is hashed. -/
def recordAcknowledgedContent (doc : SyncedDoc) (s : Session D V U E) (doc' : SyncedDoc)
    (s' : Session D V U E) : Option C :=
  if doc.destroyed || !doc.startupReady || s.hasLocalChanges then none
  else
    let content := serializeRecoveryContent s.document
    if doc'.destroyed || !doc'.startupReady || s'.hasLocalChanges then none
    else if s'.contentRevision ≠ s.contentRevision then none
    else some content

end SyncedDoc

end Realtime.Sync
