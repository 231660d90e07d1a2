import Realtime.Lib.Assoc
import Realtime.Lib.Transition
import Realtime.Mux.Delivery

/-!
# Queued OPENs

`MuxConnection` and `MuxWebSocket` of `src/sync/mux.ts`: the shards of every server origin,
their pools and the virtual sockets on them. A step is one event: a call of the client, an
event of a shard's real socket, or a timer.

A handler that calls back into the client stops there. What it has left to do is in `todo`,
the client may open and close sockets, and `resume` goes on when the callback returns. Only
the client acts while anything is left, as a handler runs to its end before the next event.
-/

namespace Realtime.Mux

open Lib

namespace Client

def openErrRejected : Nat := 1
def openErrToken : Nat := 2

def heartbeatTimeoutMs : Nat := 12000
def openRetryInitialMs : Nat := 1000
def openRetryMaxMs : Nat := 10000

/-- `OPEN_BURST_SIZE` -/
def openBurstSize : Nat := 8
def maxChannelsPerConnection : Nat := 512
def maxMessageBytes : Nat := 64 * 1024 * 1024

inductive ReadyState where
  | connecting
  | open
  | closing
  | closed
  deriving DecidableEq

/-- Virtual sockets and connections are known by their numbers, in order of creation. A
timer is whether it is scheduled. -/
structure MuxConnection (υ : Type) where
  url : υ
  ws : Option ReadyState := none
  channels : List (Nat × Nat) := []
  pendingOpens : List (Nat × String) := []
  nextChannelId : Nat := 1
  heartbeatTimer : Bool := false
  openRetryTimer : Bool := false
  openPaceTimer : Bool := false
  openRetryMs : Nat := 0
  openBlockedUntil : Nat := 0
  openBurstRemaining : Nat := openBurstSize
  lastActivity : Nat := 0
  chunked : Bool := false
  /-- The bytes received of a message in parts. -/
  partials : List (Nat × Nat) := []
  /-- What went out on the real sockets, channel by channel. -/
  sent : List (Nat × ClientFrame) := []

structure MuxWebSocket where
  readyState : ReadyState := .connecting
  conn : Nat
  channelId : Nat
  deriving DecidableEq

/-- What a handler still has to do. -/
inductive Action where
  | deliverError (socket : Nat) (reason : Option String)
  | deliverClose (socket : Nat)
  /-- The rest of the constructor of a virtual socket, after `ensureSocket`. -/
  | opened (socket : Nat)
  | close (socket : Nat)
  | teardownIfIdle (conn : Nat)
  | release (conn : Nat)
  deriving DecidableEq

structure Connections (υ : Type) where
  connections : List (MuxConnection υ) := []
  connectionPools : List (υ × List Nat) := []
  sockets : List MuxWebSocket := []
  todo : List Action := []

variable {υ : Type}

/-! ## A connection -/

namespace MuxConnection

/-- `channels.size === 0 && pendingOpens.size === 0` -/
def idle (c : MuxConnection υ) : Bool := c.channels.isEmpty && c.pendingOpens.isEmpty

def send (c : MuxConnection υ) (channelId : Nat) (frame : ClientFrame) : MuxConnection υ :=
  { c with sent := c.sent ++ [(channelId, frame)] }

def sendNextOpen (c : MuxConnection υ) : Option (MuxConnection υ) :=
  if c.ws = some .open then
    match c.pendingOpens with
    | [] => none
    | (channelId, pathAndQuery) :: rest =>
        some ({ c with pendingOpens := rest }.send channelId (.openChannel pathAndQuery))
  else none

/-- The loop of `flushOpens`, with this much of the burst remaining. -/
def sendBurst : Nat → MuxConnection υ → MuxConnection υ
  | 0, c => c
  | n + 1, c =>
      match c.sendNextOpen with
      | some c' => sendBurst n { c' with openBurstRemaining := n }
      | none => c

def schedulePacedOpen (c : MuxConnection υ) : MuxConnection υ := { c with openPaceTimer := true }

def scheduleOpenRetry (c : MuxConnection υ) : MuxConnection υ := { c with openRetryTimer := true }

def clearOpenRetryTimer (c : MuxConnection υ) : MuxConnection υ :=
  { c with openRetryTimer := false }

def clearOpenPaceTimer (c : MuxConnection υ) : MuxConnection υ := { c with openPaceTimer := false }

def stopHeartbeat (c : MuxConnection υ) : MuxConnection υ := { c with heartbeatTimer := false }

def schedulePacedOpenIfPending (c : MuxConnection υ) : MuxConnection υ :=
  if c.pendingOpens.isEmpty then c else c.schedulePacedOpen

/-- `flushOpens`: held back while the server has refused opens, and between two paced ones. -/
def flushOpens (now : Nat) (c : MuxConnection υ) : MuxConnection υ :=
  if c.ws ≠ some .open then c
  else if now < c.openBlockedUntil then c.scheduleOpenRetry
  else
    let c := c.clearOpenRetryTimer
    if c.openPaceTimer then c
    else (sendBurst c.openBurstRemaining c).schedulePacedOpenIfPending

def backOffOpens (now : Nat) (c : MuxConnection υ) : MuxConnection υ :=
  let openRetryMs :=
    if c.openRetryMs = 0 then openRetryInitialMs else min (c.openRetryMs * 2) openRetryMaxMs
  { c with openRetryMs := openRetryMs, openBlockedUntil := now + openRetryMs }

def resetOpenBackoff (c : MuxConnection υ) : MuxConnection υ :=
  clearOpenRetryTimer { c with openRetryMs := 0, openBlockedUntil := 0 }

/-- The channels whose OPEN was already sent. -/
def openedChannels (c : MuxConnection υ) : List (Nat × Nat) :=
  c.channels.filter fun channel => channel.1 ∉ Assoc.keys c.pendingOpens

def needsSocket (c : MuxConnection υ) : Bool := c.ws ≠ some .open && c.ws ≠ some .connecting

/-- `ensureSocket` up to the callbacks of `failOpenedChannels`: the new socket is in place,
and the channels that end with a socket still closing are gone. -/
def ensureSocket (c : MuxConnection υ) : MuxConnection υ :=
  if c.needsSocket then
    { c with
      ws := some .connecting
      chunked := false
      partials := []
      channels :=
        if c.ws.isSome then
          c.channels.filter fun channel => channel.1 ∈ Assoc.keys c.pendingOpens
        else c.channels }
  else c

/-- The channels that `ensureSocket` fails. -/
def failedBySocket (c : MuxConnection υ) : List (Nat × Nat) :=
  if c.needsSocket && c.ws.isSome then c.openedChannels else []

/-- `register`, and `openChannel` up to `ensureSocket`. -/
def register (socket : Nat) (pathAndQuery : String) (c : MuxConnection υ) : MuxConnection υ :=
  { c with
    nextChannelId := c.nextChannelId + 1
    channels := Assoc.set c.nextChannelId socket c.channels
    pendingOpens := Assoc.set c.nextChannelId pathAndQuery c.pendingOpens }

def sendData (channelId : Nat) (payload : Bytes) (c : MuxConnection υ) : MuxConnection υ :=
  if c.ws = some .open then
    { c with
      sent := c.sent ++ (Client.sendData c.chunked payload).map fun frame => (channelId, frame) }
  else c

/-- `closeChannel`, without the teardown of an idle connection. -/
def closeChannel (channelId : Nat) (c : MuxConnection υ) : MuxConnection υ :=
  let c :=
    { c with
      pendingOpens := Assoc.erase channelId c.pendingOpens
      channels := Assoc.erase channelId c.channels
      partials := Assoc.erase channelId c.partials }
  if c.ws = some .open then c.send channelId .close else c

/-- A channel that the server ended. -/
def dropChannel (channelId : Nat) (c : MuxConnection υ) : MuxConnection υ :=
  { c with
    channels := Assoc.erase channelId c.channels
    partials := Assoc.erase channelId c.partials }

/-- `teardown`, without `release`. -/
def teardown (c : MuxConnection υ) : MuxConnection υ :=
  { c.stopHeartbeat.resetOpenBackoff.clearOpenPaceTimer with
    partials := [], chunked := false, ws := none }

/-- `handleDown` up to its callbacks. -/
def handleDown (c : MuxConnection υ) : MuxConnection υ :=
  { c.stopHeartbeat.resetOpenBackoff.clearOpenPaceTimer with
    channels := [], pendingOpens := [], partials := [], chunked := false, ws := none }

/-- `ws.onopen` -/
def handleOpen (now later : Nat) (c : MuxConnection υ) : MuxConnection υ :=
  flushOpens later
    { c with
      ws := some .open
      lastActivity := now
      openBurstRemaining := openBurstSize
      heartbeatTimer := true }

/-- The callback of `schedulePacedOpen`, which reads the clock twice. -/
def handlePaceTimer (now later : Nat) (c : MuxConnection υ) : MuxConnection υ :=
  let c := { c with openPaceTimer := false }
  if now < c.openBlockedUntil then c.flushOpens later
  else (c.sendNextOpen.getD c).schedulePacedOpenIfPending

/-- The `open_ok` case of `receive`, without the delivery. -/
def handleOpenOk (now later : Nat) (c : MuxConnection υ) : MuxConnection υ :=
  if c.openBlockedUntil ≤ now then c.resetOpenBackoff.flushOpens later else c

/-- The `open_err` case of `receive`, before the callbacks. -/
def handleOpenErr (now channelId reason : Nat) (c : MuxConnection υ) : MuxConnection υ :=
  let c := if reason = openErrRejected ∨ reason = openErrUnspecified then c.backOffOpens now else c
  c.dropChannel channelId

end MuxConnection

/-! ## All connections -/

namespace Connections

variable [DecidableEq υ]

/-- The numbers of the connections that `acquire` may hand out for an origin. -/
def pool (s : Connections υ) (url : υ) : List Nat := (Assoc.get url s.connectionPools).getD []

def modify (s : Connections υ) (i : Nat) (f : MuxConnection υ → MuxConnection υ) : Connections υ :=
  { s with connections := s.connections.modify i f }

def modifySocket (s : Connections υ) (k : Nat) (readyState : ReadyState) : Connections υ :=
  { s with sockets := s.sockets.modify k fun socket => { socket with readyState := readyState } }

def hasRoom (s : Connections υ) (i : Nat) : Bool :=
  match s.connections[i]? with
  | some c => c.channels.length < maxChannelsPerConnection
  | none => false

/-- `MuxConnection.acquire` -/
def acquire (s : Connections υ) (url : υ) : Connections υ × Nat :=
  match (s.pool url).find? s.hasRoom with
  | some i => (s, i)
  | none =>
      let i := s.connections.length
      ({ s with
          connections := s.connections ++ [{ url := url }]
          connectionPools := Assoc.set url (s.pool url ++ [i]) s.connectionPools }, i)

/-- A connection without channels leaves its pool. -/
def release (s : Connections υ) (i : Nat) : Connections υ :=
  match s.connections[i]? with
  | none => s
  | some c =>
      if c.idle then
        let pool := (s.pool c.url).erase i
        { s with
          connectionPools :=
            if pool.isEmpty then Assoc.erase c.url s.connectionPools
            else Assoc.set c.url pool s.connectionPools }
      else s

def teardown (s : Connections υ) (i : Nat) : Connections υ := (s.modify i .teardown).release i

def teardownIfIdle (s : Connections υ) (i now : Nat) : Connections υ :=
  match s.connections[i]? with
  | none => s
  | some c =>
      if c.idle then
        if c.openBlockedUntil ≤ now then s.teardown i else s.modify i .scheduleOpenRetry
      else s

def closeChannel (s : Connections υ) (i channelId : Nat) : Connections υ :=
  let s := s.modify i (.closeChannel channelId)
  match s.connections[i]? with
  | none => s
  | some c => if c.idle then s.teardown i else s

/-- `MuxWebSocket.close` -/
def close (s : Connections υ) (k : Nat) : Connections υ :=
  match s.sockets[k]? with
  | none => s
  | some socket =>
      if socket.readyState = .closed then s
      else (s.modifySocket k .closed).closeChannel socket.conn socket.channelId

/-- `deliverOpen` -/
def deliverOpen (s : Connections υ) (k : Nat) : Connections υ :=
  match s.sockets[k]? with
  | none => s
  | some socket => if socket.readyState = .connecting then s.modifySocket k .open else s

/-- The end of `openChannel`. -/
def opened (s : Connections υ) (k now : Nat) : Connections υ :=
  match s.sockets[k]? with
  | none => s
  | some socket => s.modify socket.conn (.flushOpens now)

/-- Go on with a handler until it calls back into the client, or is done. -/
def proceed (now : Nat) : List Action → Connections υ → Connections υ
  | [], s => { s with todo := [] }
  | .deliverError _ _ :: rest, s => { s with todo := rest }
  | .deliverClose k :: rest, s =>
      match s.sockets[k]? with
      | none => proceed now rest s
      | some socket =>
          if socket.readyState = .closed then proceed now rest s
          else { s.modifySocket k .closed with todo := rest }
  | .opened k :: rest, s => { s.opened k now with todo := rest }
  | .close k :: rest, s => proceed now rest (s.close k)
  | .teardownIfIdle i :: rest, s => proceed now rest (s.teardownIfIdle i now)
  | .release i :: rest, s => proceed now rest (s.release i)

def failAll (reason : Option String) (channels : List (Nat × Nat)) : List Action :=
  channels.flatMap fun channel => [.deliverError channel.2 reason, .deliverClose channel.2]

/-- The constructor of a virtual socket, once it has its connection. -/
def constructOn (s : Connections υ) (i : Nat) (pathAndQuery : String) (now : Nat) :
    Connections υ :=
  let k := s.sockets.length
  match s.connections[i]? with
  | none => s
  | some c =>
      let registered := c.register k pathAndQuery
      let socket : MuxWebSocket := { conn := i, channelId := c.nextChannelId }
      proceed now (failAll none registered.failedBySocket ++ .opened k :: s.todo)
        { s.modify i fun c => (c.register k pathAndQuery).ensureSocket with
          sockets := s.sockets ++ [socket] }

/-- `new MuxWebSocket(url)` -/
def openSocket (s : Connections υ) (url : υ) (pathAndQuery : String) (now : Nat) :
    Connections υ :=
  let acquired := s.acquire url
  acquired.1.constructOn acquired.2 pathAndQuery now

def handleDown (s : Connections υ) (i now : Nat) : Connections υ :=
  match s.connections[i]? with
  | none => s
  | some c => proceed now (failAll none c.channels ++ [.release i]) (s.modify i .handleDown)

/-- `SOCKET_ERROR_TOKEN_REJECTED`, of an OPEN_ERR with that reason. -/
def errorReason (reason : Nat) : Option String :=
  if reason = openErrToken then some "token-rejected" else none

/-- The callbacks for a channel that the server ended, where it is registered. -/
def endChannel (c : MuxConnection υ) (i channelId : Nat) (actions : Nat → List Action) :
    List Action :=
  match Assoc.get channelId c.channels with
  | some k => actions k ++ [.teardownIfIdle i]
  | none => [.teardownIfIdle i]

/-- A part that makes a message too long closes the channel and drops what was there of it. -/
def receivePart (s : Connections υ) (i now : Nat) (c : MuxConnection υ) (channelId bytes : Nat) :
    Connections υ :=
  match Assoc.get channelId c.channels with
  | none => s
  | some k =>
      let bytes := (Assoc.get channelId c.partials).getD 0 + bytes
      if bytes > maxMessageBytes then
        proceed now [.deliverError k none, .close k]
          (s.modify i fun c => { c with partials := Assoc.erase channelId c.partials })
      else s.modify i fun c => { c with partials := Assoc.set channelId bytes c.partials }

/-- `receive`; `later` is the second reading of the clock, where there is one. -/
def receive (s : Connections υ) (i : Nat) (buf : Bytes) (now later : Nat) : Connections υ :=
  let s := s.modify i fun c => { c with lastActivity := now }
  match s.connections[i]?, decodeFrame buf with
  | some _, some .chunked => s.modify i fun c => { c with chunked := true }
  | some c, some (.part channelId payload) => s.receivePart i now c channelId payload.length
  | some _, some (.data channelId _) =>
      s.modify i fun c => { c with partials := Assoc.erase channelId c.partials }
  | some c, some (.openOk channelId) =>
      let s := s.modify i (.handleOpenOk now later)
      match Assoc.get channelId c.channels with
      | some k => s.deliverOpen k
      | none => s
  | some c, some (.openErr channelId reason) =>
      proceed later
        (endChannel c i channelId fun k => [.deliverError k (errorReason reason), .deliverClose k])
        (s.modify i (.handleOpenErr now channelId reason))
  | some c, some (.close channelId) =>
      proceed later (endChannel c i channelId fun k => [.deliverClose k])
        (s.modify i (.dropChannel channelId))
  | _, _ => s

/-- `heartbeatTick`; whether the PING can be sent. -/
def heartbeatTick (s : Connections υ) (i now : Nat) (sends : Bool) : Connections υ :=
  match s.connections[i]? with
  | none => s
  | some c =>
      if c.ws ≠ some .open then s
      else if now - c.lastActivity > heartbeatTimeoutMs || !sends then s.handleDown i now
      else s

/-! ## Steps -/

/-- `later` is another reading of the clock in the same handler. -/
inductive Event (υ : Type) where
  | openSocket (url : υ) (pathAndQuery : String) (now : Nat)
  | closeSocket (socket : Nat)
  | sendData (socket : Nat) (payload : Bytes)
  /-- The callback that is running returns. -/
  | resume (now : Nat)
  | socketOpen (conn now later : Nat)
  /-- The server starts to close the real socket: no handler runs. -/
  | socketClosing (conn : Nat)
  | socketClose (conn now : Nat)
  | socketError (conn now : Nat)
  | message (conn : Nat) (buf : Bytes) (now later : Nat)
  | openRetryTimer (conn now later : Nat)
  | openPaceTimer (conn now later : Nat)
  | heartbeat (conn now : Nat) (sends : Bool)

/-- The client has no hold of a socket that is still being constructed. -/
def available (s : Connections υ) (k : Nat) : Bool := k < s.sockets.length && .opened k ∉ s.todo

/-- An event of a connection, when no handler is running. -/
def onConnection (s : Connections υ) (i : Nat) (enabled : MuxConnection υ → Bool)
    (next : Connections υ) : Option (Connections υ) :=
  match s.connections[i]? with
  | some c => if s.todo = [] ∧ enabled c then some next else none
  | none => none

def sendData (s : Connections υ) (k : Nat) (payload : Bytes) : Connections υ :=
  match s.sockets[k]? with
  | none => s
  | some socket =>
      if socket.readyState = .open then s.modify socket.conn (.sendData socket.channelId payload)
      else s

def step (s : Connections υ) : Event υ → Option (Connections υ)
  | .openSocket url pathAndQuery now => some (s.openSocket url pathAndQuery now)
  | .closeSocket k => if s.available k then some (s.close k) else none
  | .sendData k payload => if s.available k then some (s.sendData k payload) else none
  | .resume now => if s.todo = [] then none else some (proceed now s.todo s)
  | .socketOpen i now later =>
      s.onConnection i (fun c => c.ws = some .connecting) (s.modify i (.handleOpen now later))
  | .socketClosing i =>
      s.onConnection i (fun c => c.ws = some .connecting || c.ws = some .open)
        (s.modify i fun c => { c with ws := some .closing })
  | .socketClose i now => s.onConnection i (fun c => c.ws.isSome) (s.handleDown i now)
  | .socketError i now => s.onConnection i (fun c => c.ws.isSome) (s.handleDown i now)
  | .message i buf now later =>
      s.onConnection i (fun c => c.ws = some .open || c.ws = some .closing)
        (s.receive i buf now later)
  | .openRetryTimer i now later =>
      s.onConnection i (·.openRetryTimer)
        ((s.modify i fun c => { c with openRetryTimer := false }.flushOpens now).teardownIfIdle i
          later)
  | .openPaceTimer i now later =>
      s.onConnection i (·.openPaceTimer) (s.modify i (.handlePaceTimer now later))
  | .heartbeat i now sends =>
      s.onConnection i (·.heartbeatTimer) (s.heartbeatTick i now sends)

end Connections

/-! ## One connection -/

namespace MuxConnection

/-- What sends a queued OPEN later: the socket opening, its close event failing every
channel, or one of the two timers. -/
def Waiting (c : MuxConnection υ) : Prop :=
  c.ws = some .connecting ∨ c.ws = some .closing ∨
    c.ws = some .open ∧ (c.openRetryTimer = true ∨ c.openPaceTimer = true)

/-- `pooled`: the connection is in its pool; `excused`: the channels that may be pending
without being registered. -/
structure Sound (c : MuxConnection υ) (pooled : Prop) (excused : Nat → Prop) : Prop where
  waiting : c.pendingOpens ≠ [] → c.Waiting
  registered : ∀ id ∈ Assoc.keys c.pendingOpens, id ∈ Assoc.keys c.channels ∨ excused id
  pooled : c.idle = false → pooled

section

variable {c c' : MuxConnection υ} {pooled pooled' : Prop} {excused excused' : Nat → Prop}

theorem Sound.mono (h : c.Sound pooled excused) (hpooled : pooled → pooled')
    (hexcused : ∀ id, excused id → excused' id) : c.Sound pooled' excused' where
  waiting := h.waiting
  registered id hid := (h.registered id hid).imp_right (hexcused id)
  pooled hidle := hpooled (h.pooled hidle)

/-- Timers matter to an open socket only. -/
theorem Waiting.of_ws (h : c.Waiting) (hopen : c.ws ≠ some .open) (hws : c'.ws = c.ws) :
    c'.Waiting := by
  rcases h with hconn | hclosing | ⟨hc, _⟩
  · exact .inl (hws.trans hconn)
  · exact .inr (.inl (hws.trans hclosing))
  · exact absurd hc hopen

theorem idle_iff : c.idle = true ↔ c.channels = [] ∧ c.pendingOpens = [] := by
  simp [idle]

theorem sound_of_idle (h : c.idle = true) : c.Sound pooled excused := by
  have hpending := (idle_iff.mp h).2
  refine ⟨fun hne => absurd hpending hne, fun id hid => ?_, fun hidle => ?_⟩
  · rw [hpending] at hid
    cases hid
  · rw [h] at hidle
    cases hidle

/-- OPENs go out from the front of the queue, and nothing else changes. -/
structure Sends (c c' : MuxConnection υ) : Prop where
  url : c'.url = c.url
  ws : c'.ws = c.ws
  channels : c'.channels = c.channels
  openRetryTimer : c'.openRetryTimer = c.openRetryTimer
  openPaceTimer : c'.openPaceTimer = c.openPaceTimer
  pendingOpens : c'.pendingOpens <:+ c.pendingOpens

theorem Sends.refl (c : MuxConnection υ) : c.Sends c := ⟨rfl, rfl, rfl, rfl, rfl, List.suffix_rfl⟩

theorem Sends.trans {c'' : MuxConnection υ} (h : c.Sends c') (h' : c'.Sends c'') :
    c.Sends c'' where
  url := h'.url.trans h.url
  ws := h'.ws.trans h.ws
  channels := h'.channels.trans h.channels
  openRetryTimer := h'.openRetryTimer.trans h.openRetryTimer
  openPaceTimer := h'.openPaceTimer.trans h.openPaceTimer
  pendingOpens := h'.pendingOpens.trans h.pendingOpens

theorem sendNextOpen_sends (h : c.sendNextOpen = some c') : c.Sends c' := by
  unfold sendNextOpen at h
  split at h
  · cases hpending : c.pendingOpens with
    | nil =>
        rw [hpending] at h
        cases h
    | cons next rest =>
        rw [hpending] at h
        obtain rfl := Option.some.inj h
        refine ⟨rfl, rfl, rfl, rfl, rfl, ?_⟩
        rw [hpending]
        exact List.suffix_cons _ _
  · cases h

theorem sendBurst_sends (n : Nat) (c : MuxConnection υ) : c.Sends (sendBurst n c) := by
  induction n generalizing c with
  | zero => exact .refl c
  | succ n ih =>
      rw [sendBurst]
      split
      · next c' h =>
          obtain ⟨hurl, hws, hchannels, hretry, hpace, hpending⟩ := sendNextOpen_sends h
          have hsend : c.Sends { c' with openBurstRemaining := n } :=
            ⟨hurl, hws, hchannels, hretry, hpace, hpending⟩
          exact hsend.trans (ih _)
      · exact .refl c

theorem Sends.registered (h : c.Sends c')
    (hreg : ∀ id ∈ Assoc.keys c.pendingOpens, id ∈ Assoc.keys c.channels ∨ excused id) :
    ∀ id ∈ Assoc.keys c'.pendingOpens, id ∈ Assoc.keys c'.channels ∨ excused id := by
  intro id hid
  rw [h.channels]
  exact hreg id ((h.pendingOpens.map Prod.fst).subset hid)

theorem Sends.idle (h : c.Sends c') (hidle : c'.idle = false) : c.idle = false := by
  by_contra hc
  obtain ⟨hchannels, hpending⟩ := idle_iff.mp (by simpa using hc)
  have hempty : c'.pendingOpens = [] := List.suffix_nil.mp (hpending ▸ h.pendingOpens)
  rw [idle_iff.mpr ⟨h.channels.trans hchannels, hempty⟩] at hidle
  cases hidle

theorem Sends.schedulePacedOpenIfPending_sound (h : c.Sends c') (hws : c.ws = some .open)
    (hreg : ∀ id ∈ Assoc.keys c.pendingOpens, id ∈ Assoc.keys c.channels ∨ excused id)
    (hpooled : c.idle = false → pooled) :
    c'.schedulePacedOpenIfPending.Sound pooled excused := by
  unfold schedulePacedOpenIfPending
  split
  · next hempty =>
      refine ⟨fun hne => absurd (List.isEmpty_iff.mp hempty) hne, h.registered hreg,
        fun hidle => hpooled (h.idle hidle)⟩
  · refine ⟨fun _ => .inr (.inr ⟨h.ws.trans hws, .inr rfl⟩), h.registered hreg, fun hidle => ?_⟩
    exact hpooled (h.idle hidle)

/-- The socket need not have been served before. -/
theorem flushOpens_sound (now : Nat)
    (hwaiting : c.ws ≠ some .open → c.pendingOpens ≠ [] → c.Waiting)
    (hreg : ∀ id ∈ Assoc.keys c.pendingOpens, id ∈ Assoc.keys c.channels ∨ excused id)
    (hpooled : c.idle = false → pooled) : (c.flushOpens now).Sound pooled excused := by
  unfold flushOpens
  split
  · next hws => exact ⟨hwaiting hws, hreg, hpooled⟩
  · next hws =>
      have hopen : c.ws = some .open := not_not.mp hws
      split
      · exact ⟨fun _ => .inr (.inr ⟨hopen, .inl rfl⟩), hreg, hpooled⟩
      · show Sound (if c.clearOpenRetryTimer.openPaceTimer then _ else _) _ _
        split
        · next hpace => exact ⟨fun _ => .inr (.inr ⟨hopen, .inr hpace⟩), hreg, hpooled⟩
        · have hsends := sendBurst_sends c.clearOpenRetryTimer.openBurstRemaining
            c.clearOpenRetryTimer
          exact hsends.schedulePacedOpenIfPending_sound hopen hreg hpooled

theorem Sound.flushOpens (h : c.Sound pooled excused) (now : Nat) :
    (c.flushOpens now).Sound pooled excused :=
  flushOpens_sound now (fun _ => h.waiting) h.registered h.pooled

theorem schedulePacedOpenIfPending_url (c : MuxConnection υ) :
    c.schedulePacedOpenIfPending.url = c.url := by
  unfold schedulePacedOpenIfPending
  split <;> rfl

theorem flushOpens_url (now : Nat) (c : MuxConnection υ) : (c.flushOpens now).url = c.url := by
  unfold MuxConnection.flushOpens
  split
  · rfl
  · split
    · rfl
    · show (if _ then _ else _ : MuxConnection υ).url = _
      split
      · rfl
      · exact (schedulePacedOpenIfPending_url _).trans (sendBurst_sends _ _).url

theorem handleOpen_url (now later : Nat) (c : MuxConnection υ) :
    (c.handleOpen now later).url = c.url := flushOpens_url later _

theorem handlePaceTimer_url (now later : Nat) (c : MuxConnection υ) :
    (c.handlePaceTimer now later).url = c.url := by
  show MuxConnection.url (if _ then _ else _) = _
  split
  · exact flushOpens_url later _
  · rw [schedulePacedOpenIfPending_url]
    cases hnext : sendNextOpen { c with openPaceTimer := false } with
    | none => rfl
    | some c' => exact (sendNextOpen_sends hnext).url

theorem handleOpenOk_url (now later : Nat) (c : MuxConnection υ) :
    (c.handleOpenOk now later).url = c.url := by
  unfold handleOpenOk
  split
  · exact flushOpens_url later _
  · rfl

theorem handleOpenErr_url (now channelId reason : Nat) (c : MuxConnection υ) :
    (c.handleOpenErr now channelId reason).url = c.url := by
  show MuxConnection.url (if _ then _ else _) = _
  split <;> rfl

theorem handleOpen_sound (h : c.Sound pooled excused) (now later : Nat) :
    (c.handleOpen now later).Sound pooled excused :=
  flushOpens_sound later (fun hws => absurd rfl hws) h.registered h.pooled

theorem handlePaceTimer_sound (h : c.Sound pooled excused) (now later : Nat) :
    (c.handlePaceTimer now later).Sound pooled excused := by
  show Sound (if _ then _ else _) _ _
  split
  · exact flushOpens_sound later (fun hopen hne => (h.waiting hne).of_ws hopen rfl)
      h.registered h.pooled
  · by_cases hopen : c.ws = some .open
    · have hsends : Sends { c with openPaceTimer := false }
          ((sendNextOpen { c with openPaceTimer := false }).getD
            { c with openPaceTimer := false }) := by
        cases hnext : sendNextOpen { c with openPaceTimer := false } with
        | none => exact .refl _
        | some c' => exact sendNextOpen_sends hnext
      exact hsends.schedulePacedOpenIfPending_sound hopen h.registered h.pooled
    · rw [sendNextOpen, if_neg hopen, Option.getD_none]
      unfold schedulePacedOpenIfPending
      split <;>
        exact ⟨fun hne => (h.waiting hne).of_ws hopen rfl, h.registered, h.pooled⟩

theorem handleOpenOk_sound (h : c.Sound pooled excused) (now later : Nat) :
    (c.handleOpenOk now later).Sound pooled excused := by
  unfold handleOpenOk
  split
  · exact flushOpens_sound later (fun hopen hne => (h.waiting hne).of_ws hopen rfl)
      h.registered h.pooled
  · exact h

theorem register_registered (socket : Nat) (pathAndQuery : String)
    (hreg : ∀ id ∈ Assoc.keys c.pendingOpens, id ∈ Assoc.keys c.channels ∨ excused id) :
    ∀ id ∈ Assoc.keys (c.register socket pathAndQuery).pendingOpens,
      id ∈ Assoc.keys (c.register socket pathAndQuery).channels ∨ excused id := by
  intro id hid
  rcases Assoc.mem_keys_set.mp hid with hnew | hold
  · exact .inl (Assoc.mem_keys_set.mpr (.inl hnew))
  · exact (hreg id hold).imp_left fun h => Assoc.mem_keys_set.mpr (.inr h)

theorem ensureSocket_pendingOpens (c : MuxConnection υ) :
    c.ensureSocket.pendingOpens = c.pendingOpens := by
  unfold ensureSocket
  split <;> rfl

theorem ensureSocket_registered
    (hreg : ∀ id ∈ Assoc.keys c.pendingOpens, id ∈ Assoc.keys c.channels ∨ excused id) :
    ∀ id ∈ Assoc.keys c.ensureSocket.pendingOpens,
      id ∈ Assoc.keys c.ensureSocket.channels ∨ excused id := by
  intro id hid
  rw [ensureSocket_pendingOpens] at hid
  refine (hreg id hid).imp_left fun h => ?_
  unfold ensureSocket
  split
  · show id ∈ Assoc.keys (if _ then _ else _)
    split
    · -- a pending channel is not failed
      obtain ⟨channel, hmem, rfl⟩ := List.mem_map.mp h
      exact List.mem_map_of_mem (List.mem_filter.mpr ⟨hmem, decide_eq_true hid⟩)
    · exact h
  · exact h

theorem ensureSocket_url (c : MuxConnection υ) : c.ensureSocket.url = c.url := by
  unfold ensureSocket
  split <;> rfl

theorem ensureSocket_sound (hneeds : c.needsSocket = true)
    (hreg : ∀ id ∈ Assoc.keys c.pendingOpens, id ∈ Assoc.keys c.channels ∨ excused id)
    (hpooled : pooled) : c.ensureSocket.Sound pooled excused := by
  refine ⟨fun _ => .inl ?_, ensureSocket_registered hreg, fun _ => hpooled⟩
  rw [ensureSocket, if_pos hneeds]

theorem closeChannel_url (c : MuxConnection υ) (channelId : Nat) :
    (c.closeChannel channelId).url = c.url := by
  show MuxConnection.url (if _ then _ else _) = _
  split <;> rfl

theorem closeChannel_sound (h : c.Sound pooled excused) (channelId : Nat) :
    (c.closeChannel channelId).Sound pooled excused := by
  have hclosed : Sound
      { c with
        pendingOpens := Assoc.erase channelId c.pendingOpens
        channels := Assoc.erase channelId c.channels
        partials := Assoc.erase channelId c.partials } pooled excused := by
    refine ⟨fun hne => h.waiting ?_, fun id hid => ?_, fun hidle => h.pooled ?_⟩
    · intro hnil
      exact hne (by simp [hnil, Assoc.erase])
    · obtain ⟨hne, hpending⟩ := Assoc.mem_keys_erase.mp hid
      exact (h.registered id hpending).imp_left fun hch => Assoc.mem_keys_erase.mpr ⟨hne, hch⟩
    · by_contra hc
      obtain ⟨hchannels, hpending⟩ := idle_iff.mp (by simpa using hc)
      simp [idle, hchannels, hpending, Assoc.erase] at hidle
  show Sound (if _ then _ else _) _ _
  split <;> exact ⟨hclosed.waiting, hclosed.registered, hclosed.pooled⟩

/-- A channel that is dropped while it is pending stays so. -/
theorem dropChannel_sound (h : c.Sound pooled excused) (channelId : Nat)
    (hmono : ∀ id, excused id → excused' id)
    (hdropped : channelId ∈ Assoc.keys c.pendingOpens → excused' channelId) :
    (c.dropChannel channelId).Sound pooled excused' := by
  refine ⟨h.waiting, fun id hid => ?_, fun hidle => h.pooled ?_⟩
  · by_cases hne : id = channelId
    · exact .inr (hne ▸ hdropped (hne ▸ hid))
    · rcases h.registered id hid with hch | hexcused
      · exact .inl (Assoc.mem_keys_erase.mpr ⟨hne, hch⟩)
      · exact .inr (hmono id hexcused)
  · by_contra hc
    obtain ⟨hchannels, hpending⟩ := idle_iff.mp (by simpa using hc)
    simp [idle, dropChannel, hchannels, hpending, Assoc.erase] at hidle

theorem handleOpenErr_sound (h : c.Sound pooled excused) (now channelId reason : Nat)
    (hmono : ∀ id, excused id → excused' id)
    (hdropped : channelId ∈ Assoc.keys c.pendingOpens → excused' channelId) :
    (c.handleOpenErr now channelId reason).Sound pooled excused' := by
  unfold handleOpenErr
  split
  · have hbacked : (c.backOffOpens now).Sound pooled excused :=
      ⟨h.waiting, h.registered, h.pooled⟩
    exact dropChannel_sound hbacked channelId hmono hdropped
  · exact dropChannel_sound h channelId hmono hdropped

end

end MuxConnection

/-! ## All connections, step by step -/

namespace Connections

variable [DecidableEq υ]

/-- Every connection is sound, and a pool holds connections of its own origin. -/
structure Sound (s : Connections υ) (excused : Nat → Nat → Prop) : Prop where
  connection : ∀ (i : Nat) (c : MuxConnection υ), s.connections[i]? = some c →
    c.Sound (i ∈ s.pool c.url) (excused i)
  pool : ∀ url, ∀ i ∈ s.pool url, ∃ c, s.connections[i]? = some c ∧ c.url = url

section

variable {s : Connections υ} {excused excused' : Nat → Nat → Prop} {i : Nat}

theorem Sound.congr (h : s.Sound excused) {s' : Connections υ}
    (hconnections : s'.connections = s.connections)
    (hpools : s'.connectionPools = s.connectionPools) : s'.Sound excused := by
  cases s
  cases s'
  cases hconnections
  cases hpools
  exact ⟨h.connection, h.pool⟩

/-- What a step makes of one connection. -/
theorem Sound.modify_mono (h : s.Sound excused) {f : MuxConnection υ → MuxConnection υ}
    (hmono : ∀ j id, excused j id → excused' j id)
    (hf : ∀ c, s.connections[i]? = some c → c.Sound (i ∈ s.pool c.url) (excused i) →
      (f c).url = c.url ∧ (f c).Sound (i ∈ s.pool c.url) (excused' i)) :
    (s.modify i f).Sound excused' := by
  refine ⟨fun j c' hc' => ?_, fun url j hj => ?_⟩
  · rw [modify, List.getElem?_modify] at hc'
    obtain ⟨c, hc, rfl⟩ := Option.map_eq_some_iff.mp hc'
    by_cases hij : i = j
    · subst hij
      obtain ⟨hurl, hsound⟩ := hf c hc (h.connection i c hc)
      rw [if_pos rfl]
      exact hurl ▸ hsound
    · rw [if_neg hij]
      exact (h.connection j c hc).mono id (hmono j)
  · obtain ⟨c, hc, hurl⟩ := h.pool url j hj
    rw [modify, List.getElem?_modify, hc]
    by_cases hij : i = j
    · subst hij
      refine ⟨f c, ?_, (hf c hc (h.connection i c hc)).1.trans hurl⟩
      exact congrArg some (if_pos rfl)
    · exact ⟨c, congrArg some (if_neg hij), hurl⟩

theorem Sound.modify (h : s.Sound excused) {f : MuxConnection υ → MuxConnection υ}
    (hf : ∀ c, s.connections[i]? = some c → c.Sound (i ∈ s.pool c.url) (excused i) →
      (f c).url = c.url ∧ (f c).Sound (i ∈ s.pool c.url) (excused i)) :
    (s.modify i f).Sound excused :=
  h.modify_mono (fun _ _ => id) hf

/-- Only the connection itself leaves its pool. -/
theorem mem_pool_release {j : Nat} {url : υ} (hij : j ≠ i) (h : j ∈ s.pool url) :
    j ∈ (s.release i).pool url := by
  unfold Connections.release
  split
  · exact h
  · next c _ =>
      split
      · show j ∈ (Assoc.get url (if ((s.pool c.url).erase i).isEmpty then _ else _)).getD []
        by_cases hurl : c.url = url
        · subst hurl
          have hkept : j ∈ (s.pool c.url).erase i := (List.mem_erase_of_ne hij).mpr h
          rw [if_neg (fun hempty => by simp [List.isEmpty_iff.mp hempty] at hkept),
            Assoc.get_set_self]
          exact hkept
        · split
          · rw [Assoc.get_erase_ne hurl]
            exact h
          · rw [Assoc.get_set_ne hurl]
            exact h
      · exact h

theorem connections_release (s : Connections υ) (i : Nat) :
    (s.release i).connections = s.connections := by
  unfold Connections.release
  split
  · rfl
  · split <;> rfl

theorem mem_pool_of_release {j : Nat} {url : υ} (h : j ∈ (s.release i).pool url) :
    j ∈ s.pool url := by
  unfold Connections.release at h
  split at h
  · exact h
  · next c _ =>
      split at h
      · change j ∈ (Assoc.get url (if ((s.pool c.url).erase i).isEmpty then _ else _)).getD [] at h
        by_cases hurl : c.url = url
        · subst hurl
          split at h
          · rw [Assoc.get_erase_self] at h
            cases h
          · rw [Assoc.get_set_self] at h
            exact List.mem_of_mem_erase h
        · split at h
          · rwa [Assoc.get_erase_ne hurl] at h
          · rwa [Assoc.get_set_ne hurl] at h
      · exact h

theorem Sound.release (h : s.Sound excused) (i : Nat) : (s.release i).Sound excused := by
  refine ⟨fun j c hc => ?_, fun url j hj => ?_⟩
  · rw [connections_release] at hc
    by_cases hidle : c.idle = true
    · exact MuxConnection.sound_of_idle hidle
    · refine (h.connection j c hc).mono (fun hpool => ?_) fun _ => id
      by_cases hij : j = i
      · subst hij
        simp only [Connections.release, hc, if_neg hidle]
        exact hpool
      · exact mem_pool_release hij hpool
  · rw [connections_release]
    exact h.pool url j (mem_pool_of_release hj)

theorem Sound.teardown (h : s.Sound excused)
    (hidle : ∀ c, s.connections[i]? = some c → c.idle = true) :
    (s.teardown i).Sound excused := by
  have hdown : (s.modify i .teardown).Sound excused :=
    h.modify fun c hc _ => ⟨rfl, MuxConnection.sound_of_idle (hidle c hc)⟩
  exact hdown.release i

theorem Sound.teardownIfIdle (h : s.Sound excused) (i now : Nat) :
    (s.teardownIfIdle i now).Sound excused := by
  unfold Connections.teardownIfIdle
  split
  · exact h
  · next c hc =>
      split
      · next hidle =>
          split
          · exact h.teardown fun c' hc' => Option.some.inj (hc.symm.trans hc') ▸ hidle
          · refine h.modify fun c' hc' _ => ⟨rfl, MuxConnection.sound_of_idle ?_⟩
            exact Option.some.inj (hc.symm.trans hc') ▸ hidle
      · exact h

theorem Sound.closeChannel (h : s.Sound excused) (i channelId : Nat) :
    (s.closeChannel i channelId).Sound excused := by
  have hclosed : (s.modify i (.closeChannel channelId)).Sound excused :=
    h.modify fun c _ hc => ⟨c.closeChannel_url channelId, MuxConnection.closeChannel_sound hc _⟩
  simp only [Connections.closeChannel]
  split
  · exact hclosed
  · next c hc =>
      split
      · next hidle =>
          exact hclosed.teardown fun c' hc' => Option.some.inj (hc.symm.trans hc') ▸ hidle
      · exact hclosed

theorem Sound.close (h : s.Sound excused) (k : Nat) : (s.close k).Sound excused := by
  unfold Connections.close
  split
  · exact h
  · split
    · exact h
    · have hsocket : (s.modifySocket k .closed).Sound excused := h.congr rfl rfl
      exact hsocket.closeChannel _ _

omit [DecidableEq υ] in
theorem opened_eq {k now : Nat} {socket : MuxWebSocket} (h : s.sockets[k]? = some socket) :
    s.opened k now = s.modify socket.conn (.flushOpens now) := by
  rw [Connections.opened, h]

theorem Sound.opened (h : s.Sound excused) (k now : Nat) : (s.opened k now).Sound excused := by
  unfold Connections.opened
  split
  · exact h
  · exact h.modify fun c _ hc => ⟨MuxConnection.flushOpens_url now c, hc.flushOpens now⟩

theorem Sound.proceed (h : s.Sound excused) (now : Nat) (actions : List Action) :
    (proceed now actions s).Sound excused := by
  induction actions generalizing s with
  | nil => exact h.congr rfl rfl
  | cons action rest ih =>
      cases action with
      | deliverError => exact h.congr rfl rfl
      | deliverClose k =>
          rw [Connections.proceed]
          split
          · exact ih h
          · split
            · exact ih h
            · exact h.congr rfl rfl
      | opened k => exact (h.opened k now).congr rfl rfl
      | close k => exact ih (h.close k)
      | teardownIfIdle i => exact ih (h.teardownIfIdle i now)
      | release i => exact ih (h.release i)

theorem Sound.handleDown (h : s.Sound excused) (i now : Nat) :
    (s.handleDown i now).Sound excused := by
  unfold Connections.handleDown
  split
  · exact h
  · have hdown : (s.modify i .handleDown).Sound excused :=
      h.modify fun c _ _ => ⟨rfl, MuxConnection.sound_of_idle rfl⟩
    exact hdown.proceed now _

/-- The acquired connection is in the pool of its origin. -/
theorem Sound.acquire (h : s.Sound excused) (url : υ) :
    (s.acquire url).1.Sound excused ∧ (s.acquire url).2 ∈ (s.acquire url).1.pool url := by
  unfold Connections.acquire
  split
  · next i hfind => exact ⟨h, List.mem_of_find?_eq_some hfind⟩
  · have hpool : ∀ origin j, j ∈ s.pool origin →
        j ∈ (Assoc.get origin (Assoc.set url (s.pool url ++ [s.connections.length])
          s.connectionPools)).getD [] := by
      intro origin j hj
      by_cases hurl : url = origin
      · subst hurl
        rw [Assoc.get_set_self]
        exact List.mem_append_left _ hj
      · rw [Assoc.get_set_ne hurl]
        exact hj
    refine ⟨⟨fun j c hc => ?_, fun origin j hj => ?_⟩, ?_⟩
    · rcases lt_or_ge j s.connections.length with hlt | hge
      · rw [List.getElem?_append_left hlt] at hc
        exact (h.connection j c hc).mono (hpool c.url j) fun _ => id
      · rw [List.getElem?_append_right hge] at hc
        obtain rfl := List.mem_singleton.mp (List.mem_of_getElem? hc)
        exact MuxConnection.sound_of_idle rfl
    · have hold : ∀ c, s.connections[j]? = some c →
          (s.connections ++ [({ url := url } : MuxConnection υ)])[j]? = some c := by
        intro c hc
        rw [List.getElem?_append_left (List.getElem?_eq_some_iff.mp hc).1, hc]
      change j ∈ (Assoc.get origin (Assoc.set url (s.pool url ++ [s.connections.length])
        s.connectionPools)).getD [] at hj
      by_cases hurl : url = origin
      · subst hurl
        rw [Assoc.get_set_self, Option.getD_some] at hj
        rcases List.mem_append.mp hj with hj | hj
        · obtain ⟨c, hc, hcurl⟩ := h.pool url j hj
          exact ⟨c, hold c hc, hcurl⟩
        · obtain rfl := List.mem_singleton.mp hj
          exact ⟨{ url := url }, List.getElem?_concat_length, rfl⟩
      · rw [Assoc.get_set_ne hurl] at hj
        obtain ⟨c, hc, hcurl⟩ := h.pool origin j hj
        exact ⟨c, hold c hc, hcurl⟩
    · show _ ∈ (Assoc.get url (Assoc.set url _ s.connectionPools)).getD []
      rw [Assoc.get_set_self]
      exact List.mem_append_right _ (List.mem_singleton_self _)

/-- Where the socket need not be replaced, `opened` follows at once. -/
theorem Sound.constructOn (h : s.Sound excused) {pathAndQuery : String} (now : Nat)
    (hpool : ∀ c, s.connections[i]? = some c → i ∈ s.pool c.url) :
    (s.constructOn i pathAndQuery now).Sound excused := by
  unfold Connections.constructOn
  split
  · exact h
  · next c hc =>
      have hreg := MuxConnection.register_registered s.sockets.length pathAndQuery
        (h.connection i c hc).registered
      by_cases hneeds : c.needsSocket = true
      · have hplaced : (s.modify i fun c =>
            (c.register s.sockets.length pathAndQuery).ensureSocket).Sound excused := by
          refine h.modify fun c' hc' _ => ?_
          obtain rfl := Option.some.inj (hc.symm.trans hc')
          exact ⟨MuxConnection.ensureSocket_url _,
            MuxConnection.ensureSocket_sound hneeds hreg (hpool c hc)⟩
        refine Sound.proceed ?_ now _
        exact hplaced.congr rfl rfl
      · have hfailed : (c.register s.sockets.length pathAndQuery).failedBySocket = [] := by
          rw [MuxConnection.failedBySocket, if_neg]
          exact fun hboth => hneeds (Bool.and_eq_true_iff.mp hboth).1
        have hflushed : (s.modify i fun c => MuxConnection.flushOpens now
            (c.register s.sockets.length pathAndQuery).ensureSocket).Sound excused := by
          refine h.modify fun c' hc' hsound => ?_
          obtain rfl := Option.some.inj (hc.symm.trans hc')
          refine ⟨(MuxConnection.flushOpens_url _ _).trans (MuxConnection.ensureSocket_url _), ?_⟩
          have hsame : (c.register s.sockets.length pathAndQuery).ensureSocket =
              c.register s.sockets.length pathAndQuery := if_neg hneeds
          rw [hsame]
          refine MuxConnection.flushOpens_sound now (fun hopen _ => .inl ?_) hreg
            fun _ => hpool c hc
          have hws : c.ws = some .open ∨ c.ws = some .connecting := by
            simpa [MuxConnection.needsSocket, not_and_or, -not_and] using hneeds
          exact hws.resolve_left hopen
        simp only [hfailed, failAll, List.flatMap_nil, List.nil_append, Connections.proceed]
        rw [opened_eq List.getElem?_concat_length]
        exact hflushed.congr (List.modify_modify_eq _ _ _ _) rfl

theorem Sound.openSocket (h : s.Sound excused) (url : υ) (pathAndQuery : String) (now : Nat) :
    (s.openSocket url pathAndQuery now).Sound excused := by
  obtain ⟨hacquired, hmem⟩ := h.acquire url
  refine hacquired.constructOn now fun c hc => ?_
  obtain ⟨c', hc', hurl⟩ := hacquired.pool url _ hmem
  obtain rfl := Option.some.inj (hc.symm.trans hc')
  rwa [hurl]

theorem Sound.mono (h : s.Sound excused) (hmono : ∀ j id, excused j id → excused' j id) :
    s.Sound excused' :=
  ⟨fun j c hc => (h.connection j c hc).mono id (hmono j), h.pool⟩

theorem Sound.receivePart (h : s.Sound excused) (i now : Nat) (c : MuxConnection υ)
    (channelId bytes : Nat) : (s.receivePart i now c channelId bytes).Sound excused := by
  unfold Connections.receivePart
  split
  · exact h
  · simp only
    split
    · refine Sound.proceed ?_ now _
      exact h.modify fun c _ hc => ⟨rfl, hc.waiting, hc.registered, hc.pooled⟩
    · exact h.modify fun c _ hc => ⟨rfl, hc.waiting, hc.registered, hc.pooled⟩

theorem Sound.deliverOpen (h : s.Sound excused) (k : Nat) : (s.deliverOpen k).Sound excused := by
  unfold Connections.deliverOpen
  split
  · exact h
  · split
    · exact h.congr rfl rfl
    · exact h

/-- The frame says that the server ended this channel. -/
def EndsChannel (buf : Bytes) (id : Nat) : Prop :=
  decodeFrame buf = some (.close id) ∨ ∃ reason, decodeFrame buf = some (.openErr id reason)

theorem Sound.receive (h : s.Sound excused) (i : Nat) (buf : Bytes) (now later : Nat)
    (hmono : ∀ j id, excused j id → excused' j id)
    (hended : ∀ id c, s.connections[i]? = some c → id ∈ Assoc.keys c.pendingOpens →
      EndsChannel buf id → excused' i id) : (s.receive i buf now later).Sound excused' := by
  have hactive : (s.modify i fun c => { c with lastActivity := now }).Sound excused :=
    h.modify fun c _ hc => ⟨rfl, hc.waiting, hc.registered, hc.pooled⟩
  have hended' : ∀ id c, (s.modify i fun c => { c with lastActivity := now }).connections[i]? =
      some c → id ∈ Assoc.keys c.pendingOpens → EndsChannel buf id → excused' i id := by
    intro id c hc
    rw [Connections.modify, List.getElem?_modify_eq] at hc
    obtain ⟨c', hc', rfl⟩ := Option.map_eq_some_iff.mp hc
    exact hended id c' hc'
  unfold Connections.receive
  generalize (s.modify i fun c => { c with lastActivity := now }) = s at hactive hended'
  simp only
  split
  · exact (hactive.mono hmono).modify fun c _ hc => ⟨rfl, hc.waiting, hc.registered, hc.pooled⟩
  · exact (hactive.mono hmono).receivePart _ _ _ _ _
  · exact (hactive.mono hmono).modify fun c _ hc => ⟨rfl, hc.waiting, hc.registered, hc.pooled⟩
  · have hadmitted : (s.modify i (.handleOpenOk now later)).Sound excused' :=
      (hactive.mono hmono).modify fun c _ hc =>
        ⟨c.handleOpenOk_url now later, MuxConnection.handleOpenOk_sound hc now later⟩
    split
    · exact hadmitted.deliverOpen _
    · exact hadmitted
  · next channelId reason _ hframe =>
      refine Sound.proceed ?_ later _
      refine hactive.modify_mono hmono fun c hc hsound => ⟨c.handleOpenErr_url _ _ _, ?_⟩
      exact MuxConnection.handleOpenErr_sound hsound now channelId reason (hmono i)
        fun hpending => hended' channelId c hc hpending (.inr ⟨reason, hframe⟩)
  · next channelId _ hframe =>
      refine Sound.proceed ?_ later _
      refine hactive.modify_mono hmono fun c hc hsound => ⟨rfl, ?_⟩
      exact MuxConnection.dropChannel_sound hsound channelId (hmono i)
        fun hpending => hended' channelId c hc hpending (.inl hframe)
  · exact hactive.mono hmono

theorem Sound.heartbeatTick (h : s.Sound excused) (i now : Nat) (sends : Bool) :
    (s.heartbeatTick i now sends).Sound excused := by
  unfold Connections.heartbeatTick
  split
  · exact h
  · split
    · exact h
    · split
      · exact h.handleDown i now
      · exact h

theorem Sound.sendData (h : s.Sound excused) (k : Nat) (payload : Bytes) :
    (s.sendData k payload).Sound excused := by
  unfold Connections.sendData
  split
  · exact h
  · split
    · refine h.modify fun c _ hc => ?_
      unfold MuxConnection.sendData
      split
      · exact ⟨rfl, hc.waiting, hc.registered, hc.pooled⟩
      · exact ⟨rfl, hc⟩
    · exact h

omit [DecidableEq υ] in
theorem onConnection_eq_some {s' next : Connections υ} {enabled : MuxConnection υ → Bool}
    (h : s.onConnection i enabled next = some s') :
    ∃ c, s.connections[i]? = some c ∧ enabled c = true ∧ s' = next := by
  unfold onConnection at h
  split at h
  · next c hc =>
      split at h
      · next henabled => exact ⟨c, hc, henabled.2, (Option.some.inj h).symm⟩
      · cases h
  · cases h

/-- The frame that the event delivers to a connection ends a channel whose OPEN is still
queued there. -/
def EndsPending (s : Connections υ) (event : Event υ) (i id : Nat) : Prop :=
  ∃ buf now later c, event = .message i buf now later ∧ EndsChannel buf id ∧
    s.connections[i]? = some c ∧ id ∈ Assoc.keys c.pendingOpens

theorem Sound.step (h : s.Sound excused) {event : Event υ} {s' : Connections υ}
    (hstep : s.step event = some s') :
    s'.Sound fun i id => excused i id ∨ EndsPending s event i id := by
  have hmono : ∀ j id, excused j id → excused j id ∨ EndsPending s event j id :=
    fun j id => Or.inl
  have h' := h.mono hmono
  cases event with
  | openSocket url pathAndQuery now =>
      obtain rfl := Option.some.inj hstep
      exact h'.openSocket url pathAndQuery now
  | closeSocket k =>
      simp only [Connections.step] at hstep
      split at hstep
      · obtain rfl := Option.some.inj hstep
        exact h'.close k
      · cases hstep
  | sendData k payload =>
      simp only [Connections.step] at hstep
      split at hstep
      · obtain rfl := Option.some.inj hstep
        exact h'.sendData k payload
      · cases hstep
  | resume now =>
      simp only [Connections.step] at hstep
      split at hstep
      · cases hstep
      · obtain rfl := Option.some.inj hstep
        exact h'.proceed now _
  | socketOpen i now later =>
      obtain ⟨_, _, _, rfl⟩ := onConnection_eq_some hstep
      exact h'.modify fun c _ hc =>
        ⟨c.handleOpen_url now later, MuxConnection.handleOpen_sound hc now later⟩
  | socketClosing i =>
      obtain ⟨_, _, _, rfl⟩ := onConnection_eq_some hstep
      exact h'.modify fun c _ hc => ⟨rfl, fun _ => .inr (.inl rfl), hc.registered, hc.pooled⟩
  | socketClose i now =>
      obtain ⟨_, _, _, rfl⟩ := onConnection_eq_some hstep
      exact h'.handleDown i now
  | socketError i now =>
      obtain ⟨_, _, _, rfl⟩ := onConnection_eq_some hstep
      exact h'.handleDown i now
  | message i buf now later =>
      obtain ⟨_, _, _, rfl⟩ := onConnection_eq_some hstep
      exact h.receive i buf now later hmono fun id c hc hpending hends =>
        .inr ⟨buf, now, later, c, rfl, hends, hc, hpending⟩
  | openRetryTimer i now later =>
      obtain ⟨_, _, _, rfl⟩ := onConnection_eq_some hstep
      refine Sound.teardownIfIdle ?_ i later
      refine h'.modify fun c _ hc => ⟨MuxConnection.flushOpens_url _ _, ?_⟩
      exact MuxConnection.flushOpens_sound now
        (fun hopen hne => (hc.waiting hne).of_ws hopen rfl) hc.registered hc.pooled
  | openPaceTimer i now later =>
      obtain ⟨_, _, _, rfl⟩ := onConnection_eq_some hstep
      exact h'.modify fun c _ hc =>
        ⟨c.handlePaceTimer_url now later, MuxConnection.handlePaceTimer_sound hc now later⟩
  | heartbeat i now sends =>
      obtain ⟨_, _, _, rfl⟩ := onConnection_eq_some hstep
      exact h'.heartbeatTick i now sends

theorem Sound.init : ({} : Connections υ).Sound excused := by
  refine ⟨fun i c hc => ?_, fun url i hi => ?_⟩
  · rw [List.getElem?_nil] at hc
    cases hc
  · cases hi

end

/-! ## Runs -/

/-- Some event of the run ended the channel while its OPEN was queued. -/
def EndedWhilePending (s : Connections υ) (events : List (Event υ)) (i id : Nat) : Prop :=
  ∃ before event after s', events = before ++ event :: after ∧
    before.foldlM step s = some s' ∧ EndsPending s' event i id

theorem sound_run {s : Connections υ} (events : List (Event υ))
    (hrun : events.foldlM step {} = some s) : s.Sound (EndedWhilePending {} events) := by
  induction events using List.reverseRecOn generalizing s with
  | nil =>
      obtain rfl := Option.some.inj hrun
      exact .init
  | append_singleton events event ih =>
      rw [List.foldlM_append] at hrun
      obtain ⟨before, hbefore, hstep⟩ := Option.bind_eq_some_iff.mp hrun
      simp only [List.foldlM_cons, List.foldlM_nil, bind_pure] at hstep
      refine ((ih hbefore).step hstep).mono fun i id hexcused => ?_
      rcases hexcused with ⟨earlier, e, after, t, rfl, ht, hends⟩ | hends
      · exact ⟨earlier, e, after ++ [event], t, by simp, ht, hends⟩
      · exact ⟨events, event, [], before, rfl, hbefore, hends⟩

/-- A queued OPEN waits for its socket to open or to finish closing, or for a timer; its
channel is registered, unless the server ended a channel that it had not been told of; and
a connection with channels or queued OPENs is in its pool. -/
theorem no_open_stranded (events : List (Event υ)) (s : Connections υ)
    (hrun : events.foldlM step {} = some s) (i : Nat) (c : MuxConnection υ)
    (hc : s.connections[i]? = some c) :
    (c.pendingOpens ≠ [] → c.ws = some .connecting ∨ c.ws = some .closing ∨
      c.ws = some .open ∧ (c.openRetryTimer = true ∨ c.openPaceTimer = true)) ∧
    (∀ id ∈ Assoc.keys c.pendingOpens, id ∈ Assoc.keys c.channels ∨
      EndedWhilePending {} events i id) ∧
    (c.channels ≠ [] ∨ c.pendingOpens ≠ [] → i ∈ s.pool c.url) := by
  have hsound := (sound_run events hrun).connection i c hc
  refine ⟨hsound.waiting, hsound.registered, fun hbusy => hsound.pooled ?_⟩
  by_contra hidle
  obtain ⟨hchannels, hpending⟩ := MuxConnection.idle_iff.mp (by simpa using hidle)
  exact hbusy.elim (· hchannels) (· hpending)

/-- The server refuses an OPEN, another one is queued behind the backoff, and the server
starts to close the socket. -/
def closingRun : List (Event Unit) :=
  [.openSocket () "/d/a" 0, .socketOpen 0 0 0, .message 0 [3, 1, 1] 0 0, .resume 0, .resume 0,
    .openSocket () "/d/b" 0, .socketClosing 0]

theorem closingRun_state : ∃ (s : Connections Unit) (c : MuxConnection Unit),
    closingRun.foldlM step {} = some s ∧ s.connections[0]? = some c ∧ c.ws = some .closing ∧
      c.pendingOpens ≠ [] := by
  have hrun : (closingRun.foldlM step {}).isSome = true := by decide
  obtain ⟨s, hs⟩ := Option.isSome_iff_exists.mp hrun
  have hstate : (closingRun.foldlM step {}).map (fun s =>
      s.connections.map fun c => (c.ws, Assoc.keys c.pendingOpens)) =
        some [(some .closing, [2])] := by decide
  rw [hs, Option.map_some, Option.some_inj] at hstate
  obtain ⟨c, hlist, hc⟩ := List.map_eq_singleton_iff.mp hstate
  obtain ⟨hws, hpending⟩ := Prod.mk.inj hc
  refine ⟨s, c, hs, by rw [hlist]; rfl, hws, fun hnil => ?_⟩
  rw [hnil] at hpending
  cases hpending

/-- The second OPEN waits for the close event. -/
theorem no_open_stranded_closing : ∃ (s : Connections Unit) (c : MuxConnection Unit),
    closingRun.foldlM step {} = some s ∧ s.connections[0]? = some c ∧ c.pendingOpens ≠ [] ∧
      (c.ws = some .connecting ∨ c.ws = some .closing ∨
        c.ws = some .open ∧ (c.openRetryTimer = true ∨ c.openPaceTimer = true)) ∧
      0 ∈ s.pool c.url := by
  obtain ⟨s, c, hs, hc, _, hne⟩ := closingRun_state
  obtain ⟨hwaiting, _, hpool⟩ := no_open_stranded closingRun s hs 0 c hc
  exact ⟨s, c, hs, hc, hne, hwaiting hne, hpool (.inr hne)⟩

/-- With a socket that is closing, a queued OPEN has neither a socket that connects nor one
that is open. -/
theorem not_connecting_or_open : ¬ ∀ (events : List (Event Unit)) (s : Connections Unit) (i : Nat)
    (c : MuxConnection Unit), events.foldlM step {} = some s → s.connections[i]? = some c →
    c.pendingOpens ≠ [] → c.ws = some .connecting ∨
      c.ws = some .open ∧ (c.openRetryTimer = true ∨ c.openPaceTimer = true) := by
  intro h
  obtain ⟨s, c, hs, hc, hws, hne⟩ := closingRun_state
  rcases h closingRun s 0 c hs hc hne with hconn | ⟨hopen, _⟩
  · rw [hws] at hconn
    cases hconn
  · rw [hws] at hopen
    cases hopen

end Connections

end Client

end Realtime.Mux
