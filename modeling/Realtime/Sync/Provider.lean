import Mathlib.Tactic
import Realtime.Lib.Transition

/-!
# The document transport

`RealtimeProvider` of `src/sync/RealtimeProvider.ts`, with the sockets it opens and a
server that serves each connection in order. The version counters live as long as the
provider; whether the server's SyncStep1 has arrived is asked anew on each socket.

What the provider and the server use of Yjs is a parameter. The connect loop, its timers
and the token source decide only when the next attempt is made or a socket fails, so
these are steps that may happen at any time.
-/

namespace Realtime.Sync

open Lib

/-- Documents `D`, state vectors `V`, encoded updates `U` and local edits `E`. -/
structure Yjs (D V U E : Type) where
  encodeStateVector : D → V
  encodeStateAsUpdate : D → V → U
  applyUpdate : D → U → D
  /-- A local transaction. -/
  edit : D → E → D
  /-- The update it fires. -/
  update : D → E → U
  /-- The document holds the edit, integrated or pending. -/
  Contains : D → E → Prop
  /-- `decodeUpdate(update).structs.length !== 0` -/
  hasStructs : U → Bool

variable {D V U E : Type}

/-- What is documented of Yjs: documents only grow; an update brings its edit to any
document; and the update for a state vector brings all edits to any document that has
grown from the one the vector is of. -/
structure Yjs.Lawful (y : Yjs D V U E) : Prop where
  applyUpdate : ∀ d u e, y.Contains d e → y.Contains (y.applyUpdate d u) e
  edit : ∀ d e e', y.Contains d e' → y.Contains (y.edit d e) e'
  edit_self : ∀ d e, y.Contains (y.edit d e) e
  update : ∀ d d' e, y.Contains (y.applyUpdate d' (y.update d e)) e
  encodeStateAsUpdate : ∀ d d₀ d' e, y.Contains d e →
    (∀ e', y.Contains d₀ e' → y.Contains d' e') →
    y.Contains (y.applyUpdate d' (y.encodeStateAsUpdate d (y.encodeStateVector d₀))) e

inductive Authorization where
  | full
  | readOnly
  deriving DecidableEq

/-- `connecting`, `SOCKET_OPEN`, or closing and closed. -/
inductive ReadyState where
  | connecting
  | opened
  | closed
  deriving DecidableEq

inductive ClientMessage (V U : Type) where
  | syncStep1 (stateVector : V)
  | syncStep2 (update : U)
  | update (update : U)
  | syncStatus (version : Nat)
  | epochAcknowledgement (epoch : Nat)

/-- What the server applies of a message. -/
def ClientMessage.payload : ClientMessage V U → Option U
  | .syncStep2 u | .update u => some u
  | _ => none

inductive ServerMessage (V U : Type) where
  | syncStep1 (stateVector : V)
  | syncStep2 (update : U)
  | update (update : U)
  | syncStatus (version : Nat)
  | epochProposal (epoch : Nat)

/-- A socket and the connection behind it. -/
structure Conn (V U : Type) where
  readyState : ReadyState
  /-- On the way to the server. -/
  up : List (ClientMessage V U)
  /-- On the way to the client. -/
  down : List (ServerMessage V U)
  /-- The server reads from it. -/
  serving : Bool

/-- The fields of the provider that decide what counts as saved. -/
structure Provider (D : Type) where
  document : D
  destroyed : Bool
  /-- `clientToken.authorization` -/
  clientToken : Option Authorization
  socket : Option Nat
  localVersion : Nat
  acknowledgedVersion : Int
  readOnlyDivergence : Bool
  receivedServerSyncStep1 : Bool
  pendingEpoch : Option Nat
  epochFlushTimer : Bool

namespace Provider

def awaitingAcknowledgement (p : Provider D) : Bool := p.acknowledgedVersion < p.localVersion

def hasLocalChanges (p : Provider D) : Bool := p.readOnlyDivergence || p.awaitingAcknowledgement

def readOnly (p : Provider D) : Bool := p.clientToken = some .readOnly

def clearEpochHandoff (p : Provider D) : Provider D :=
  { p with pendingEpoch := none, epochFlushTimer := false }

end Provider

/-- An epoch acknowledgement that was sent. -/
structure Handoff (E : Type) where
  timedOut : Bool
  hasLocalChanges : Bool
  made : List E

/-- The provider, its connections and the server, with a record of the edits. -/
structure World (D V U E : Type) where
  provider : Provider D
  conns : Nat → Conn V U
  /-- No socket has this number yet. -/
  fresh : Nat
  /-- `connectionGate.blocksTraffic()` -/
  blocksTraffic : Bool
  /-- `handleEpochProposal` does not throw. -/
  acceptsEpoch : Bool
  /-- The server's document, as it is on disk. -/
  server : D
  /-- The edits made locally, each with the version it brought. -/
  made : List (Nat × E)
  handoffs : List (Handoff E)

namespace World

def setConn (w : World D V U E) (k : Nat) (c : Conn V U) : World D V U E :=
  { w with conns := Function.update w.conns k c }

/-- `closeSocket`, and `failSocket` of the current socket. -/
def closeSocket (w : World D V U E) : World D V U E :=
  match w.provider.socket with
  | some k =>
      { w.setConn k { w.conns k with readyState := .closed } with
        provider := { w.provider.clearEpochHandoff with socket := none } }
  | none => { w with provider := w.provider.clearEpochHandoff }

def push (w : World D V U E) (k : Nat) (m : ClientMessage V U) : World D V U E :=
  w.setConn k { w.conns k with up := (w.conns k).up ++ [m] }

/-- Whether the message was sent is the second component. -/
def send (w : World D V U E) (m : ClientMessage V U) : World D V U E × Bool :=
  match w.provider.socket with
  | some k =>
      if (w.conns k).readyState ≠ .opened then (w, false)
      else if w.blocksTraffic then (w.closeSocket, false)
      else (w.push k m, true)
  | none => (w, false)

def sendSyncStep1 (y : Yjs D V U E) (w : World D V U E) : World D V U E :=
  (w.send (.syncStep1 (y.encodeStateVector w.provider.document))).1

def checkSync (w : World D V U E) : World D V U E :=
  if w.provider.receivedServerSyncStep1 then (w.send (.syncStatus w.provider.localVersion)).1
  else w

def incrementLocalVersion (w : World D V U E) : World D V U E :=
  { w with provider := { w.provider with localVersion := w.provider.localVersion + 1 } }

def documentUpdateListener (w : World D V U E) (update : U) : World D V U E :=
  if w.provider.destroyed then w
  else if w.provider.readOnly then w
  else ((w.send (.update update)).1.incrementLocalVersion).checkSync

/-- `finishEpochHandoff`: the epoch is acknowledged, or the socket closed where it is refused. -/
def finishEpochHandoff (w : World D V U E) (timedOut : Bool) : World D V U E :=
  let w' := { w with provider := w.provider.clearEpochHandoff }
  match w.provider.pendingEpoch with
  | some epoch =>
      if w'.provider.socket.isNone then w'
      else if w'.acceptsEpoch then
        let sent := w'.send (.epochAcknowledgement epoch)
        if sent.2 then
          { sent.1 with
            handoffs :=
              ⟨timedOut, w.provider.hasLocalChanges, w.made.map Prod.snd⟩ :: sent.1.handoffs }
        else sent.1
      else w'.closeSocket
  | none => w'

/-- The answer to a version; an epoch that waited for it is acknowledged now. -/
def acknowledgeVersion (w : World D V U E) (version : Nat) : World D V U E :=
  let w' := { w with
    provider := { w.provider with
      readOnlyDivergence := w.provider.readOnly && w.provider.readOnlyDivergence
      acknowledgedVersion := max w.provider.acknowledgedVersion version } }
  if w'.provider.pendingEpoch.isSome && !w'.provider.hasLocalChanges then
    w'.finishEpochHandoff false
  else w'

def receiveEpochProposal (w : World D V U E) (epoch : Nat) : World D V U E :=
  let w' := { w with provider := { w.provider with pendingEpoch := some epoch } }
  if !w'.provider.hasLocalChanges || w'.provider.readOnly then w'.finishEpochHandoff false
  else
    let checked := w'.checkSync
    { checked with provider := { checked.provider with epochFlushTimer := true } }

/-- A SyncStep1 of the server. -/
def receiveSyncStep1 (y : Yjs D V U E) (w : World D V U E) (stateVector : V) : World D V U E :=
  let reply := y.encodeStateAsUpdate w.provider.document stateVector
  let replied := (w.send (.syncStep2 reply)).1
  let diverged := replied.provider.readOnly && y.hasStructs reply
  let received := { replied with
    provider := { replied.provider with
      receivedServerSyncStep1 := true
      readOnlyDivergence := replied.provider.readOnlyDivergence || diverged } }
  received.checkSync

def receiveMessage (y : Yjs D V U E) (w : World D V U E) : ServerMessage V U → World D V U E
  | .syncStep1 stateVector => w.receiveSyncStep1 y stateVector
  | .syncStep2 u | .update u =>
      { w with provider := { w.provider with document := y.applyUpdate w.provider.document u } }
  | .syncStatus version => w.acknowledgeVersion version
  | .epochProposal epoch => w.receiveEpochProposal epoch

/-- `attemptConnection` -/
def attemptConnection (w : World D V U E) : World D V U E :=
  let w' := w.closeSocket
  { w'.setConn w'.fresh ⟨.connecting, [], [], true⟩ with
    fresh := w'.fresh + 1
    provider := { w'.provider with socket := some w'.fresh, receivedServerSyncStep1 := false } }

/-- The server takes the next message of a connection. -/
def serve (y : Yjs D V U E) (w : World D V U E) (k : Nat) : Option (World D V U E) :=
  let c := w.conns k
  if c.serving then
    match c.up with
    | .syncStep1 stateVector :: up =>
        some (w.setConn k { c with
          up := up
          down := c.down ++ [.syncStep2 (y.encodeStateAsUpdate w.server stateVector)] })
    | .syncStep2 u :: up | .update u :: up =>
        some { w.setConn k { c with up := up } with server := y.applyUpdate w.server u }
    | .syncStatus version :: up =>
        some (w.setConn k { c with up := up, down := c.down ++ [.syncStatus version] })
    | .epochAcknowledgement _ :: _ => some (w.setConn k { c with up := [], serving := false })
    | [] => none
  else none

end World

/-- What the user, the server, the network and the timers do. -/
inductive Event (U E : Type) where
  | edit (e : E)
  /-- Another device, or the server itself, changes the server's document. -/
  | remote (update : U)
  | mintToken (authorization : Authorization)
  | dropToken
  | attemptConnection
  | open (socket : Nat)
  /-- The socket is no longer open, and the client is not told yet. -/
  | shut (socket : Nat)
  /-- An error or close event, a timeout, an invalid message. -/
  | failSocket
  | setGate (blocksTraffic : Bool)
  | setEpochHandler (acceptsEpoch : Bool)
  | serve (socket : Nat)
  /-- The server closes the connection: a failed apply, a crash. -/
  | stopServing (socket : Nat)
  | serverSyncStep1 (socket : Nat)
  | serverUpdate (socket : Nat) (update : U)
  | serverProposal (socket : Nat) (epoch : Nat)
  /-- The socket dies with what is in flight. -/
  | lose (socket : Nat)
  | deliver (socket : Nat)
  | heartbeat
  | epochFlushTimeout
  | disconnect
  | destroy

/-- The provider is destroyed together with its document. -/
def step (y : Yjs D V U E) (w : World D V U E) : Event U E → Option (World D V U E)
  | .edit e =>
      if w.provider.destroyed then none
      else
        let edited := { w with
          provider := { w.provider with document := y.edit w.provider.document e }
          made := (w.provider.localVersion + 1, e) :: w.made }
        some (edited.documentUpdateListener (y.update w.provider.document e))
  | .remote u => some { w with server := y.applyUpdate w.server u }
  | .mintToken a => some { w with provider := { w.provider with clientToken := some a } }
  | .dropToken => some { w with provider := { w.provider with clientToken := none } }
  | .attemptConnection => if w.provider.destroyed then none else some w.attemptConnection
  | .open k =>
      if (w.conns k).readyState = .connecting then
        let opened := w.setConn k { w.conns k with readyState := .opened }
        if w.provider.socket = some k then some (opened.sendSyncStep1 y) else some opened
      else none
  | .shut k => some (w.setConn k { w.conns k with readyState := .closed })
  | .failSocket => some w.closeSocket
  | .setGate b => some { w with blocksTraffic := b }
  | .setEpochHandler b => some { w with acceptsEpoch := b }
  | .serve k => w.serve y k
  | .stopServing k => some (w.setConn k { w.conns k with up := [], serving := false })
  | .serverSyncStep1 k =>
      some (w.setConn k { w.conns k with
        down := (w.conns k).down ++ [.syncStep1 (y.encodeStateVector w.server)] })
  | .serverUpdate k u =>
      some (w.setConn k { w.conns k with down := (w.conns k).down ++ [.update u] })
  | .serverProposal k epoch =>
      some (w.setConn k { w.conns k with down := (w.conns k).down ++ [.epochProposal epoch] })
  | .lose k => some (w.setConn k ⟨.closed, [], [], false⟩)
  | .deliver k =>
      match (w.conns k).down with
      | m :: down =>
          if (w.conns k).readyState = .connecting then none else
          let taken := w.setConn k { w.conns k with down := down }
          if w.provider.socket = some k then
            if w.blocksTraffic then some taken.closeSocket else some (taken.receiveMessage y m)
          else some taken
      | [] => none
  | .heartbeat =>
      if w.provider.receivedServerSyncStep1 then some w.checkSync else some (w.sendSyncStep1 y)
  | .epochFlushTimeout =>
      if w.provider.epochFlushTimer then some (w.finishEpochHandoff true) else none
  | .disconnect => some w.closeSocket
  | .destroy =>
      let closed := w.closeSocket
      some { closed with provider := { closed.provider with destroyed := true } }

end Realtime.Sync
