import Mathlib.Data.Finset.Card
import Realtime.Lib.Assoc
import Realtime.Mux.Wire

/-!
# The multiplexed read loop

The server's loop over one client socket (`handle` in `server/src/dmux.rs`) and
the client calls that feed it (`sendData` and `closeChannel` in
`src/sync/mux.ts`).

A payload above the chunk size travels as PART frames and a final DATA frame.
The loop buffers the parts of each channel, under one byte budget for the
connection, and hands the joined message to the channel's document session.
Everything the loop does not decide itself is an input of the step: the clock,
whether the session's queue has room, whether a control frame could be queued,
and the notifications of sessions that ended.
-/

namespace Realtime.Mux

open Lib

namespace Server

/-- Hard fan-out bound for one client connection. -/
def maxChannels : Nat := 512

def maxOpensPerWindow : Nat := 128

def maxOpensPerConnection : Nat := 4096

/-- `OPEN_RATE_WINDOW`, in milliseconds. -/
def openRateWindow : Nat := 10000

/-- OPEN_ERR reason of an admission refusal. -/
def openErrRejected : UInt64 := 1

structure OpenLimiter where
  seenChannels : Finset UInt64
  windowStarted : Nat
  opensInWindow : Nat
  opensTotal : Nat

namespace OpenLimiter

def new (now : Nat) : OpenLimiter := ⟨∅, now, 0, 0⟩

def exhausted (limiter : OpenLimiter) : Bool := limiter.opensTotal ≥ maxOpensPerConnection

/-- Start a new rate window once the current one has run out. -/
def roll (limiter : OpenLimiter) (now : Nat) : OpenLimiter :=
  if now - limiter.windowStarted ≥ openRateWindow then
    { limiter with windowStarted := now, opensInWindow := 0 }
  else limiter

def refuses (limiter : OpenLimiter) (channel : UInt64) (activeChannels : Nat) : Bool :=
  channel = controlChannel || channel ∈ limiter.seenChannels || activeChannels ≥ maxChannels ||
    limiter.opensInWindow ≥ maxOpensPerWindow || limiter.opensTotal ≥ maxOpensPerConnection

def admitChannel (limiter : OpenLimiter) (channel : UInt64) (activeChannels now : Nat) :
    Bool × OpenLimiter :=
  let limiter := limiter.roll now
  if limiter.refuses channel activeChannels then (false, limiter)
  else (true, { limiter with
    opensInWindow := limiter.opensInWindow + 1
    opensTotal := limiter.opensTotal + 1
    seenChannels := insert channel limiter.seenChannels })

end OpenLimiter

/-- Outcome of `try_send` into a session's queue. -/
inductive Queue where
  | room
  | full
  | closed
  deriving DecidableEq

/-- What the loop finds around it while handling one frame. -/
structure Surroundings where
  now : Nat
  queue : Queue
  /-- Whether `send_control` got its frame into the outbound queue. -/
  controlSent : Bool

/-- The variables of the loop, and what it has handed on. -/
structure ReadLoop where
  channels : Finset UInt64
  openLimiter : OpenLimiter
  partials : List (UInt64 × Bytes)
  partialBytes : Nat
  /-- Set when `partial_bytes` had less to give than was taken from it. -/
  underflowed : Bool
  /-- Cleared when the loop breaks; the connection then ends. -/
  running : Bool
  /-- Messages handed to document sessions, in order. -/
  delivered : List (UInt64 × Bytes)
  /-- Control frames queued for the client, in order. -/
  control : List Bytes

namespace ReadLoop

def new (now : Nat) : ReadLoop where
  channels := ∅
  openLimiter := .new now
  partials := []
  partialBytes := 0
  underflowed := false
  running := true
  delivered := []
  control := []

/-- The messages one channel's session received. -/
def deliveredTo (s : ReadLoop) (channel : UInt64) : List Bytes :=
  (s.delivered.filter fun d => d.1 = channel).map Prod.snd

def removeChannel (s : ReadLoop) (channel : UInt64) : ReadLoop :=
  { s with channels := s.channels.erase channel }

/-- What is buffered of a channel goes, and its bytes are given back. -/
def discardPartial (s : ReadLoop) (channel : UInt64) : ReadLoop :=
  match Assoc.get channel s.partials with
  | some part =>
      { s with
        partials := Assoc.erase channel s.partials
        partialBytes := s.partialBytes - part.length
        underflowed := s.underflowed || s.partialBytes < part.length }
  | none => s

/-- Queue a control frame, or break when it cannot be delivered. -/
def sendControl (s : ReadLoop) (frame : Bytes) (sent : Bool) : ReadLoop :=
  if sent then { s with control := s.control ++ [frame] } else { s with running := false }

def resetOversized (s : ReadLoop) (channel : UInt64) (sent : Bool) : ReadLoop :=
  (s.removeChannel channel).sendControl (encodeSimple frameClose channel) sent

/-- An OPEN is admitted or refused; a limiter that is exhausted ends the connection. -/
def onOpen (s : ReadLoop) (channel : UInt64) (around : Surroundings) : ReadLoop :=
  let (admitted, limiter) := s.openLimiter.admitChannel channel s.channels.card around.now
  let s := { s with openLimiter := limiter }
  if admitted then { s with channels := insert channel s.channels }
  else
    let s := s.sendControl (encodeOpenErr channel openErrRejected) around.controlSent
    if limiter.exhausted then { s with running := false } else s

def onPart (s : ReadLoop) (channel : UInt64) (payload : Bytes) (around : Surroundings) :
    ReadLoop :=
  if channel ∉ s.channels then s
  else if s.partialBytes + payload.length > maxDataFrameBytes then
    (s.discardPartial channel).resetOversized channel around.controlSent
  else
    { s with
      partials := Assoc.set channel ((Assoc.get channel s.partials).getD [] ++ payload) s.partials
      partialBytes := s.partialBytes + payload.length }

/-- Hand a complete message to the channel's session. A session that is backed
up loses the channel, never the message alone. -/
def handOver (s : ReadLoop) (channel : UInt64) (message : Bytes) (around : Surroundings) :
    ReadLoop :=
  if channel ∈ s.channels then
    match around.queue with
    | .room => { s with delivered := s.delivered ++ [(channel, message)] }
    | .full =>
        (s.removeChannel channel).sendControl (encodeSimple frameClose channel) around.controlSent
    | .closed => s.removeChannel channel
  else s

/-- The last piece of a message. Its parts leave the buffer before its size is looked at. -/
def onData (s : ReadLoop) (channel : UInt64) (payload : Bytes) (around : Surroundings) :
    ReadLoop :=
  match Assoc.get channel s.partials with
  | some joined =>
      let s := s.discardPartial channel
      if joined.length + payload.length > maxDataFrameBytes then
        s.resetOversized channel around.controlSent
      else s.handOver channel (joined ++ payload) around
  | none => s.handOver channel payload around

/-- A channel that ends, by CLOSE or with its session, takes its partial along. -/
def dropChannel (s : ReadLoop) (channel : UInt64) : ReadLoop :=
  (s.removeChannel channel).discardPartial channel

def onFrame (s : ReadLoop) (frame : Frame) (around : Surroundings) : ReadLoop :=
  match frame with
  | .openChannel channel _ => s.onOpen channel around
  | .part channel payload => s.onPart channel payload around
  | .data channel payload => s.onData channel payload around
  | .oversizedData channel =>
      (s.discardPartial channel).resetOversized channel around.controlSent
  | .close channel => s.dropChannel channel
  | .ping =>
      if around.controlSent then
        { s with control := s.control ++ [encodeSimple framePong controlChannel] }
      else s

/-! ## The buffer account

`Wf` ties the byte counter to the buffered partials. Each operation keeps it;
the only care needed is that a channel's partial goes before, or together
with, its registration. -/

/-- The account: the counter is what is buffered, and only registered channels have parts. -/
structure Wf (s : ReadLoop) : Prop where
  partials : Assoc.Wf s.partials
  accounted : s.partialBytes = Assoc.total List.length s.partials
  exact : s.underflowed = false
  bounded : s.partialBytes ≤ maxDataFrameBytes
  registered : ∀ c ∈ Assoc.keys s.partials, c ∈ s.channels
  seen : ∀ c ∈ s.channels, c ∈ s.openLimiter.seenChannels

theorem wf_new (now : Nat) : Wf (new now) where
  partials := Assoc.wf_nil
  accounted := rfl
  exact := rfl
  bounded := Nat.zero_le _
  registered := by simp [new]
  seen := by simp [new]

theorem Wf.get_none {s : ReadLoop} (h : Wf s) {c : UInt64} (hc : c ∉ s.channels) :
    Assoc.get c s.partials = none :=
  Assoc.get_eq_none_iff.mpr fun hk => hc (h.registered c hk)

@[simp] theorem discardPartial_channels (s : ReadLoop) (c : UInt64) :
    (s.discardPartial c).channels = s.channels := by
  unfold discardPartial
  split <;> rfl

@[simp] theorem discardPartial_openLimiter (s : ReadLoop) (c : UInt64) :
    (s.discardPartial c).openLimiter = s.openLimiter := by
  unfold discardPartial
  split <;> rfl

@[simp] theorem discardPartial_delivered (s : ReadLoop) (c : UInt64) :
    (s.discardPartial c).delivered = s.delivered := by
  unfold discardPartial
  split <;> rfl

@[simp] theorem sendControl_openLimiter (s : ReadLoop) (frame : Bytes) (sent : Bool) :
    (s.sendControl frame sent).openLimiter = s.openLimiter := by
  unfold sendControl
  split <;> rfl

@[simp] theorem resetOversized_openLimiter (s : ReadLoop) (c : UInt64) (sent : Bool) :
    (s.resetOversized c sent).openLimiter = s.openLimiter :=
  sendControl_openLimiter _ _ _

@[simp] theorem handOver_openLimiter (s : ReadLoop) (c : UInt64) (message : Bytes)
    (around : Surroundings) : (s.handOver c message around).openLimiter = s.openLimiter := by
  unfold handOver
  split
  · split
    · rfl
    · exact sendControl_openLimiter _ _ _
    · rfl
  · rfl

theorem discardPartial_partials (s : ReadLoop) (c : UInt64) :
    (s.discardPartial c).partials = Assoc.erase c s.partials := by
  unfold discardPartial
  split
  · rfl
  · rename_i hnone
    exact (Assoc.erase_of_not_mem (Assoc.get_eq_none_iff.mp hnone)).symm

theorem discardPartial_removeChannel (s : ReadLoop) (c : UInt64) :
    (s.removeChannel c).discardPartial c = (s.discardPartial c).removeChannel c := by
  unfold removeChannel discardPartial
  cases Assoc.get c s.partials <;> rfl

theorem wf_discardPartial {s : ReadLoop} (h : Wf s) (c : UInt64) : Wf (s.discardPartial c) := by
  cases hget : Assoc.get c s.partials with
  | none =>
      have hsame : s.discardPartial c = s := by rw [discardPartial, hget]
      rw [hsame]
      exact h
  | some part =>
      have htotal := Assoc.total_erase (w := List.length) h.partials hget
      have hle : part.length ≤ s.partialBytes := by
        rw [h.accounted]
        omega
      rw [discardPartial, hget]
      exact {
        partials := Assoc.wf_erase h.partials
        accounted := by
          change s.partialBytes - part.length = _
          rw [h.accounted, ← htotal]
          exact Nat.add_sub_cancel _ _
        exact := by simp [h.exact, Nat.not_lt.mpr hle]
        bounded := le_trans (Nat.sub_le _ _) h.bounded
        registered := fun j hj => h.registered j (Assoc.mem_keys_erase.mp hj).2
        seen := h.seen }

theorem wf_removeChannel {s : ReadLoop} (h : Wf s) {c : UInt64} (hc : c ∉ Assoc.keys s.partials) :
    Wf (s.removeChannel c) :=
  { h with
    registered := fun j hj =>
      Finset.mem_erase.mpr ⟨fun he => hc (he ▸ hj), h.registered j hj⟩
    seen := fun j hj => h.seen j (Finset.mem_of_mem_erase hj) }

theorem not_mem_keys_discardPartial (s : ReadLoop) (c : UInt64) :
    c ∉ Assoc.keys (s.discardPartial c).partials := by
  rw [discardPartial_partials, Assoc.mem_keys_erase]
  simp

theorem wf_dropChannel {s : ReadLoop} (h : Wf s) (c : UInt64) : Wf (s.dropChannel c) := by
  rw [dropChannel, discardPartial_removeChannel]
  exact wf_removeChannel (wf_discardPartial h c) (not_mem_keys_discardPartial s c)

theorem wf_sendControl {s : ReadLoop} (h : Wf s) (frame : Bytes) (sent : Bool) :
    Wf (s.sendControl frame sent) := by
  unfold sendControl
  split
  · exact { h with }
  · exact { h with }

theorem wf_discardReset {s : ReadLoop} (h : Wf s) (c : UInt64) (sent : Bool) :
    Wf ((s.discardPartial c).resetOversized c sent) :=
  wf_sendControl (wf_removeChannel (wf_discardPartial h c) (not_mem_keys_discardPartial s c)) _ _

theorem OpenLimiter.seen_roll (limiter : OpenLimiter) (now : Nat) :
    (limiter.roll now).seenChannels = limiter.seenChannels := by
  unfold OpenLimiter.roll
  split <;> rfl

/-- A refusal leaves the seen channels alone; an admission is of a channel
never seen, and records it. -/
theorem OpenLimiter.admitChannel_seen (limiter : OpenLimiter) (c : UInt64) (active now : Nat) :
    ((limiter.admitChannel c active now).1 = false ∧
      (limiter.admitChannel c active now).2.seenChannels = limiter.seenChannels) ∨
    ((limiter.admitChannel c active now).1 = true ∧ c ∉ limiter.seenChannels ∧
      (limiter.admitChannel c active now).2.seenChannels = insert c limiter.seenChannels) := by
  unfold OpenLimiter.admitChannel
  by_cases hr : (limiter.roll now).refuses c active = true
  · left
    simp [hr, OpenLimiter.seen_roll]
  · right
    have hfresh : c ∉ limiter.seenChannels := by
      intro hmem
      apply hr
      simp [OpenLimiter.refuses, OpenLimiter.seen_roll, hmem]
    simp [hr, OpenLimiter.seen_roll, hfresh]

theorem wf_onOpen {s : ReadLoop} (h : Wf s) (c : UInt64) (around : Surroundings) :
    Wf (s.onOpen c around) := by
  rcases OpenLimiter.admitChannel_seen s.openLimiter c s.channels.card around.now with
    ⟨hno, hseen⟩ | ⟨hyes, -, hseen⟩
  · have hwf : Wf
      { s with openLimiter := (s.openLimiter.admitChannel c s.channels.card around.now).2 } :=
      { h with
        seen := fun j hj => by
          change j ∈ (s.openLimiter.admitChannel c s.channels.card around.now).2.seenChannels
          rw [hseen]
          exact h.seen j hj }
    simp only [onOpen, hno, Bool.false_eq_true, if_false]
    have hsent := wf_sendControl hwf (encodeOpenErr c openErrRejected) around.controlSent
    split
    · exact { hsent with }
    · exact hsent
  · simp only [onOpen, hyes, if_true]
    exact { h with
      registered := fun j hj => Finset.mem_insert_of_mem (h.registered j hj)
      seen := fun j hj => by
        change j ∈ (s.openLimiter.admitChannel c s.channels.card around.now).2.seenChannels
        rw [hseen]
        rcases Finset.mem_insert.mp hj with rfl | hmem
        · exact Finset.mem_insert_self _ _
        · exact Finset.mem_insert_of_mem (h.seen j hmem) }

theorem wf_onPart {s : ReadLoop} (h : Wf s) (c : UInt64) (payload : Bytes)
    (around : Surroundings) : Wf (s.onPart c payload around) := by
  unfold onPart
  split
  · exact h
  · rename_i hreg
    split
    · exact wf_discardReset h c around.controlSent
    · rename_i hroom
      have htotal := Assoc.total_set List.length c
        ((Assoc.get c s.partials).getD [] ++ payload) s.partials
      exact {
        partials := Assoc.wf_set h.partials
        accounted := by
          change s.partialBytes + payload.length = _
          rw [h.accounted]
          cases hget : Assoc.get c s.partials with
          | none => simp [hget] at htotal ⊢; omega
          | some part => simp [hget] at htotal ⊢; omega
        exact := h.exact
        bounded := Nat.le_of_not_gt hroom
        registered := fun j hj => by
          rcases Assoc.mem_keys_set.mp hj with rfl | hmem
          · exact not_not.mp hreg
          · exact h.registered j hmem
        seen := h.seen }

theorem wf_handOver {s : ReadLoop} (h : Wf s) {c : UInt64} (hc : c ∉ Assoc.keys s.partials)
    (message : Bytes) (around : Surroundings) : Wf (s.handOver c message around) := by
  unfold handOver
  split
  · split
    · exact { h with }
    · exact wf_sendControl (wf_removeChannel h hc) _ _
    · exact wf_removeChannel h hc
  · exact h

theorem wf_onData {s : ReadLoop} (h : Wf s) (c : UInt64) (payload : Bytes)
    (around : Surroundings) : Wf (s.onData c payload around) := by
  unfold onData
  split
  · have hclear := not_mem_keys_discardPartial s c
    have hwf := wf_discardPartial h c
    dsimp only
    split
    · exact wf_discardReset h c around.controlSent
    · exact wf_handOver hwf hclear _ around
  · rename_i hnone
    exact wf_handOver h (Assoc.get_eq_none_iff.mp hnone) _ around

theorem wf_onFrame {s : ReadLoop} (h : Wf s) (frame : Frame) (around : Surroundings) :
    Wf (s.onFrame frame around) := by
  cases frame with
  | openChannel c path => exact wf_onOpen h c around
  | part c payload => exact wf_onPart h c payload around
  | data c payload => exact wf_onData h c payload around
  | oversizedData c => exact wf_discardReset h c around.controlSent
  | close c => exact wf_dropChannel h c
  | ping =>
      simp only [onFrame]
      split
      · exact { h with }
      · exact h

end ReadLoop

end Server

end Realtime.Mux
