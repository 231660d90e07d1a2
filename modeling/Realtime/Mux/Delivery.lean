import Realtime.Mux.ReadLoop

/-!
# Whole messages only

What the client's calls put on the wire, channel by channel, and what the read
loop makes of it. The client cuts a payload into PART frames and a closing DATA
frame; `assemble` is the receiver the protocol has in mind, which joins them
again. The loop tracks it on every registered channel (`Tracks`) and stops
tracking a channel only by dropping it for good.

Frames of different channels may interleave in any order: nothing below uses
more than the order of each channel's own frames.
-/

namespace Realtime.Mux

open Lib

namespace Client

/-- `CHUNK_BYTES`: payloads above this travel as PART frames. -/
def chunkBytes : Nat := 64 * 1024

/-- A frame the client sends on one of its channels. -/
inductive ClientFrame where
  | openChannel (pathAndQuery : String)
  | part (payload : Bytes)
  | data (payload : Bytes)
  | close

/-- The bytes of a frame on a channel. -/
def ClientFrame.encode (channel : UInt64) : ClientFrame → Bytes
  | .openChannel pathAndQuery => encodeOpen channel.toNat pathAndQuery
  | .part payload => encodeData channel.toNat payload false
  | .data payload => encodeData channel.toNat payload true
  | .close => encodeClose channel.toNat

/-- `encodeData(channelId, payload, final)` as a frame. -/
def ClientFrame.ofPayload (payload : Bytes) (final : Bool) : ClientFrame :=
  if final then .data payload else .part payload

/-- The loop of `sendData`, from offset `start`. -/
def sendChunks (payload : Bytes) (start : Nat) : List ClientFrame :=
  if start < payload.length then
    let stop := min (start + chunkBytes) payload.length
    .ofPayload (payload.extract start stop) (stop = payload.length) ::
      sendChunks payload (start + chunkBytes)
  else []
termination_by payload.length - start
decreasing_by
  have : 0 < chunkBytes := by decide
  omega

/-- `sendData` on an open socket; `chunked` once the server has sent CHUNKED. -/
def sendData (chunked : Bool) (payload : Bytes) : List ClientFrame :=
  if !chunked || payload.length ≤ chunkBytes then [.ofPayload payload true]
  else sendChunks payload 0

/-- A call of the client on one channel. -/
inductive Call where
  | openChannel (pathAndQuery : String)
  | sendData (chunked : Bool) (payload : Bytes)
  | closeChannel

def Call.frames : Call → List ClientFrame
  | .openChannel pathAndQuery => [.openChannel pathAndQuery]
  | .sendData chunked payload => Client.sendData chunked payload
  | .closeChannel => [.close]

/-- The payloads passed to `sendData`, in order. -/
def payloads (calls : List Call) : List Bytes :=
  calls.filterMap fun
    | .sendData _ payload => some payload
    | _ => none

/-! ## Joining a channel's frames -/

/-- Messages completed so far, and the parts of the one in progress. -/
abbrev Assembly := List Bytes × Bytes

def Assembly.add (a : Assembly) : ClientFrame → Assembly
  | .openChannel _ => (a.1, [])
  | .part payload => (a.1, a.2 ++ payload)
  | .data payload => (a.1 ++ [a.2 ++ payload], [])
  | .close => (a.1, [])

def assemble (frames : List ClientFrame) : Assembly := frames.foldl Assembly.add ([], [])

theorem assemble_snoc (frames : List ClientFrame) (f : ClientFrame) :
    assemble (frames ++ [f]) = (assemble frames).add f := by
  simp [assemble]

/-- The chunks from `start` on join what is in progress to the rest of the
payload. -/
theorem foldl_sendChunks (payload : Bytes) (start : Nat) (done : List Bytes)
    (h : start < payload.length) :
    (sendChunks payload start).foldl Assembly.add (done, payload.take start) =
      (done ++ [payload], []) := by
  induction hn : payload.length - start using Nat.strong_induction_on generalizing start with
  | _ n ih =>
      have hpos : 0 < chunkBytes := by decide
      have hjoin : ∀ stop, start ≤ stop →
          payload.take start ++ payload.extract start stop = payload.take stop := by
        intro stop hle
        rw [List.extract_eq_take_drop, ← List.take_add, Nat.add_sub_cancel' hle]
      rw [sendChunks, if_pos h, List.foldl_cons]
      by_cases hlast : start + chunkBytes < payload.length
      · have hmin : min (start + chunkBytes) payload.length = start + chunkBytes := by omega
        rw [hmin, ClientFrame.ofPayload, if_neg (by simp; omega), Assembly.add,
          hjoin _ (by omega)]
        exact ih _ (by omega) _ hlast rfl
      · have hmin : min (start + chunkBytes) payload.length = payload.length := by omega
        rw [hmin, ClientFrame.ofPayload, if_pos (by simp), Assembly.add, hjoin _ (by omega),
          List.take_length, sendChunks, if_neg (by omega)]
        rfl

/-- One `sendData` completes exactly its payload. -/
theorem foldl_sendData (chunked : Bool) (payload : Bytes) (done : List Bytes) :
    (sendData chunked payload).foldl Assembly.add (done, []) = (done ++ [payload], []) := by
  unfold sendData
  split
  · rfl
  · rename_i hlong
    have hpos : 0 < payload.length := by
      simp at hlong
      omega
    simpa using foldl_sendChunks payload 0 done hpos

theorem foldl_frames (call : Call) (done : List Bytes) :
    call.frames.foldl Assembly.add (done, []) = (done ++ payloads [call], []) := by
  cases call with
  | openChannel path => simp [Call.frames, payloads, Assembly.add]
  | sendData chunked payload =>
      rw [Call.frames, foldl_sendData]
      rfl
  | closeChannel => simp [Call.frames, payloads, Assembly.add]

theorem payloads_cons (call : Call) (calls : List Call) :
    payloads (call :: calls) = payloads [call] ++ payloads calls := by
  rw [payloads, ← List.singleton_append, List.filterMap_append]
  rfl

theorem foldl_flatMap_frames (calls : List Call) (done : List Bytes) :
    (calls.flatMap Call.frames).foldl Assembly.add (done, []) = (done ++ payloads calls, []) := by
  induction calls generalizing done with
  | nil => simp [payloads]
  | cons call calls ih =>
      rw [List.flatMap_cons, List.foldl_append, foldl_frames, ih, payloads_cons call calls,
        List.append_assoc]

theorem Assembly.le_foldl (a : Assembly) (frames : List ClientFrame) :
    a.1 <+: (frames.foldl Assembly.add a).1 := by
  induction frames generalizing a with
  | nil => exact List.prefix_refl _
  | cons f frames ih =>
      refine List.IsPrefix.trans ?_ (ih (a.add f))
      cases f <;> simp [Assembly.add]

/-- However far the frames of some calls have been read, the messages completed
are the first payloads of those calls. -/
theorem assemble_initial {read : List ClientFrame} {calls : List Call}
    (h : read <+: calls.flatMap Call.frames) : (assemble read).1 <+: payloads calls := by
  obtain ⟨rest, hrest⟩ := h
  have hall := foldl_flatMap_frames calls []
  rw [← hrest, List.foldl_append] at hall
  have hle := Assembly.le_foldl (assemble read) rest
  change ((rest.foldl Assembly.add (assemble read))) = _ at hall
  rw [hall] at hle
  simpa using hle

theorem mem_sendChunks {payload : Bytes} {start : Nat} {f : ClientFrame}
    (h : f ∈ sendChunks payload start) : ∃ p final, f = .ofPayload p final := by
  induction hn : payload.length - start using Nat.strong_induction_on generalizing start with
  | _ n ih =>
      have hpos : 0 < chunkBytes := by decide
      rw [sendChunks] at h
      split at h
      · rcases List.mem_cons.mp h with rfl | hmem
        · exact ⟨_, _, rfl⟩
        · exact ih _ (by omega) hmem rfl
      · simp at h

theorem open_not_mem_sendData {chunked : Bool} {payload : Bytes} {path : String} :
    ClientFrame.openChannel path ∉ sendData chunked payload := by
  intro hmem
  have hpayload : ∃ p final, ClientFrame.openChannel path = .ofPayload p final := by
    unfold sendData at hmem
    split at hmem
    · exact ⟨_, _, List.mem_singleton.mp hmem⟩
    · exact mem_sendChunks hmem
  obtain ⟨p, final, heq⟩ := hpayload
  cases final <;> simp [ClientFrame.ofPayload] at heq

/-- An OPEN never falls inside a message of its own channel. -/
theorem no_partial_at_open {path : String} (calls : List Call) :
    ∀ (read rest : List ClientFrame) (done : List Bytes),
      calls.flatMap Call.frames = read ++ .openChannel path :: rest →
      (read.foldl Assembly.add (done, [])).2 = [] := by
  induction calls with
  | nil => intro read rest done h; simp at h
  | cons call calls ih =>
      intro read rest done h
      rw [List.flatMap_cons] at h
      rcases List.append_eq_append_iff.mp h with ⟨more, hread, htail⟩ | ⟨more, hcall, htail⟩
      · rw [hread, List.foldl_append, foldl_frames]
        exact ih more rest _ htail
      · cases more with
        | nil =>
            rw [List.append_nil] at hcall
            rw [← hcall, foldl_frames]
        | cons f more =>
            -- The OPEN is one of this call's frames, so the call is the open itself.
            obtain ⟨rfl, -⟩ := List.cons.inj htail
            have hmem : ClientFrame.openChannel path ∈ call.frames := by
              rw [hcall]
              simp
            cases call with
            | openChannel p =>
                have hlen := congrArg List.length hcall
                have hnil : read = [] := List.length_eq_zero_iff.mp (by
                  simp [Call.frames] at hlen
                  omega)
                rw [hnil]
                rfl
            | sendData chunked payload => exact absurd hmem open_not_mem_sendData
            | closeChannel => simp [Call.frames] at hmem

end Client

/-! ## One step, seen from one channel -/

namespace Server.ReadLoop

open Client

theorem deliveredTo_congr {s s' : ReadLoop} (h : s'.delivered = s.delivered) (c : UInt64) :
    s'.deliveredTo c = s.deliveredTo c := by
  rw [deliveredTo, h, deliveredTo]

/-- Nothing about channel `c` changed. -/
structure SameAt (c : UInt64) (s s' : ReadLoop) : Prop where
  channels : c ∈ s'.channels ↔ c ∈ s.channels
  partials : Assoc.get c s'.partials = Assoc.get c s.partials
  delivered : s'.deliveredTo c = s.deliveredTo c

/-- Channel `c` is gone; its session received nothing in this step. -/
structure DroppedAt (c : UInt64) (s s' : ReadLoop) : Prop where
  channels : c ∉ s'.channels
  delivered : s'.deliveredTo c = s.deliveredTo c

theorem SameAt.refl (c : UInt64) (s : ReadLoop) : SameAt c s s := ⟨Iff.rfl, rfl, rfl⟩

theorem SameAt.trans {c : UInt64} {s s' s'' : ReadLoop} (h : SameAt c s s')
    (h' : SameAt c s' s'') : SameAt c s s'' :=
  ⟨h'.channels.trans h.channels, h'.partials.trans h.partials, h'.delivered.trans h.delivered⟩

theorem sameAt_sendControl (c : UInt64) (s : ReadLoop) (frame : Bytes) (sent : Bool) :
    SameAt c s (s.sendControl frame sent) := by
  unfold sendControl
  split <;> exact ⟨Iff.rfl, rfl, rfl⟩

theorem sameAt_removeChannel {c d : UInt64} (h : c ≠ d) (s : ReadLoop) :
    SameAt c s (s.removeChannel d) :=
  ⟨by simp [removeChannel, h], rfl, rfl⟩

theorem sameAt_discardPartial {c d : UInt64} (h : c ≠ d) (s : ReadLoop) :
    SameAt c s (s.discardPartial d) :=
  ⟨by simp, by rw [discardPartial_partials, Assoc.get_erase_ne (Ne.symm h)],
    deliveredTo_congr (by simp) c⟩

theorem sameAt_resetOversized {c d : UInt64} (h : c ≠ d) (s : ReadLoop) (sent : Bool) :
    SameAt c s (s.resetOversized d sent) :=
  (sameAt_removeChannel h s).trans (sameAt_sendControl c _ _ _)

theorem sameAt_handOver {c d : UInt64} (h : c ≠ d) (s : ReadLoop) (message : Bytes)
    (around : Surroundings) : SameAt c s (s.handOver d message around) := by
  unfold handOver
  split
  · split
    · exact ⟨Iff.rfl, rfl, by simp [deliveredTo, Ne.symm h]⟩
    · exact (sameAt_removeChannel h s).trans (sameAt_sendControl c _ _ _)
    · exact sameAt_removeChannel h s
  · exact .refl c s

/-- The channel a frame is about. -/
def channelOf : Frame → Option UInt64
  | .openChannel c _ | .part c _ | .data c _ | .oversizedData c | .close c => some c
  | .ping => none

/-- A frame touches no channel but its own. -/
theorem sameAt_onFrame {c : UInt64} {frame : Frame} (h : channelOf frame ≠ some c)
    (s : ReadLoop) (around : Surroundings) : SameAt c s (s.onFrame frame around) := by
  cases frame with
  | openChannel d path =>
      have hne : c ≠ d := fun he => h (by rw [he]; rfl)
      simp only [onFrame, onOpen]
      split
      · exact ⟨by simp [hne], rfl, rfl⟩
      · have hsent := sameAt_sendControl c
          { s with openLimiter := (s.openLimiter.admitChannel d s.channels.card around.now).2 }
          (encodeOpenErr d openErrRejected) around.controlSent
        split
        · exact ⟨hsent.channels, hsent.partials, hsent.delivered⟩
        · exact ⟨hsent.channels, hsent.partials, hsent.delivered⟩
  | part d payload =>
      have hne : c ≠ d := fun he => h (by rw [he]; rfl)
      simp only [onFrame, onPart]
      split
      · exact .refl c s
      · split
        · exact (sameAt_discardPartial hne s).trans (sameAt_resetOversized hne _ _)
        · exact ⟨Iff.rfl, Assoc.get_set_ne (Ne.symm hne) _ _, rfl⟩
  | data d payload =>
      have hne : c ≠ d := fun he => h (by rw [he]; rfl)
      simp only [onFrame, onData]
      split
      · split
        · exact (sameAt_discardPartial hne s).trans (sameAt_resetOversized hne _ _)
        · exact (sameAt_discardPartial hne s).trans (sameAt_handOver hne _ _ _)
      · exact sameAt_handOver hne s _ _
  | oversizedData d =>
      have hne : c ≠ d := fun he => h (by rw [he]; rfl)
      exact (sameAt_discardPartial hne s).trans (sameAt_resetOversized hne _ _)
  | close d =>
      have hne : c ≠ d := fun he => h (by rw [he]; rfl)
      exact (sameAt_removeChannel hne s).trans (sameAt_discardPartial hne _)
  | ping =>
      simp only [onFrame]
      split
      · exact ⟨Iff.rfl, rfl, rfl⟩
      · exact .refl c s

theorem droppedAt_resetOversized (c : UInt64) (s : ReadLoop) (sent : Bool) :
    DroppedAt c s (s.resetOversized c sent) := by
  have hsent := sameAt_sendControl c (s.removeChannel c) (encodeSimple frameClose c) sent
  exact ⟨by rw [resetOversized, hsent.channels]; simp [removeChannel], hsent.delivered⟩

theorem droppedAt_discardReset (c : UInt64) (s : ReadLoop) (sent : Bool) :
    DroppedAt c s ((s.discardPartial c).resetOversized c sent) :=
  have h := droppedAt_resetOversized c (s.discardPartial c) sent
  ⟨h.channels, h.delivered.trans (deliveredTo_congr (by simp) c)⟩

theorem droppedAt_dropChannel (c : UInt64) (s : ReadLoop) : DroppedAt c s (s.dropChannel c) :=
  ⟨by simp [dropChannel, removeChannel], deliveredTo_congr (by simp [dropChannel, removeChannel]) c⟩

/-- An OPEN either changes nothing about its channel, or registers a channel
never seen before. -/
theorem onOpen_self (c : UInt64) (s : ReadLoop) (around : Surroundings) :
    SameAt c s (s.onOpen c around) ∨
      (c ∉ s.openLimiter.seenChannels ∧ Assoc.get c (s.onOpen c around).partials =
        Assoc.get c s.partials ∧ (s.onOpen c around).deliveredTo c = s.deliveredTo c) := by
  rcases OpenLimiter.admitChannel_seen s.openLimiter c s.channels.card around.now with
    ⟨hno, -⟩ | ⟨hyes, hfresh, -⟩
  · left
    simp only [onOpen, hno, Bool.false_eq_true, if_false]
    have hsent := sameAt_sendControl c
      { s with openLimiter := (s.openLimiter.admitChannel c s.channels.card around.now).2 }
      (encodeOpenErr c openErrRejected) around.controlSent
    split <;> exact ⟨hsent.channels, hsent.partials, hsent.delivered⟩
  · right
    simp only [onOpen, hyes, if_true]
    exact ⟨hfresh, trivial, rfl⟩

/-- A PART is ignored on an unregistered channel, drops an overflowing one, and
otherwise extends the channel's partial. -/
theorem onPart_self (c : UInt64) (s : ReadLoop) (payload : Bytes) (around : Surroundings) :
    (c ∉ s.channels ∧ s.onPart c payload around = s) ∨ DroppedAt c s (s.onPart c payload around) ∨
      (c ∈ s.channels ∧ Assoc.get c (s.onPart c payload around).partials =
        some ((Assoc.get c s.partials).getD [] ++ payload) ∧
        (s.onPart c payload around).deliveredTo c = s.deliveredTo c) := by
  unfold onPart
  split
  · rename_i hout
    exact .inl ⟨hout, rfl⟩
  · rename_i hreg
    split
    · exact .inr (.inl (droppedAt_discardReset c s around.controlSent))
    · exact .inr (.inr ⟨not_not.mp hreg, Assoc.get_set_self c _ _, rfl⟩)

theorem handOver_self (c : UInt64) (s : ReadLoop) (message : Bytes) (around : Surroundings) :
    (c ∉ s.channels ∧ s.handOver c message around = s) ∨
      DroppedAt c s (s.handOver c message around) ∨
      (c ∈ s.channels ∧ (s.handOver c message around).partials = s.partials ∧
        (s.handOver c message around).deliveredTo c = s.deliveredTo c ++ [message]) := by
  unfold handOver
  split
  · rename_i hreg
    split
    · exact .inr (.inr ⟨hreg, rfl, by simp [deliveredTo]⟩)
    · exact .inr (.inl (droppedAt_resetOversized c s around.controlSent))
    · exact .inr (.inl ⟨by simp [removeChannel], rfl⟩)
  · rename_i hout
    exact .inl ⟨hout, rfl⟩

/-- A DATA frame delivers nothing on an unregistered channel; otherwise it hands
over the channel's partial joined with its payload, or drops the channel. -/
theorem onData_self {s : ReadLoop} (hwf : Wf s) (c : UInt64) (payload : Bytes)
    (around : Surroundings) :
    (c ∉ s.channels ∧ SameAt c s (s.onData c payload around)) ∨
      DroppedAt c s (s.onData c payload around) ∨
      (c ∈ s.channels ∧ Assoc.get c (s.onData c payload around).partials = none ∧
        (s.onData c payload around).deliveredTo c =
          s.deliveredTo c ++ [(Assoc.get c s.partials).getD [] ++ payload]) := by
  by_cases hreg : c ∈ s.channels
  · right
    unfold onData
    cases hget : Assoc.get c s.partials with
    | some joined =>
        dsimp only
        split
        · exact .inl (droppedAt_discardReset c s around.controlSent)
        · have hsame : (s.discardPartial c).deliveredTo c = s.deliveredTo c :=
            deliveredTo_congr (by simp) c
          rcases handOver_self c (s.discardPartial c) (joined ++ payload) around with
            ⟨hout, -⟩ | hdrop | ⟨-, hpart, hdel⟩
          · exact absurd hreg (by simpa using hout)
          · exact .inl ⟨hdrop.channels, hdrop.delivered.trans hsame⟩
          · refine .inr ⟨hreg, ?_, by rw [hdel, hsame]; rfl⟩
            rw [hpart, discardPartial_partials, Assoc.get_erase_self]
    | none =>
        dsimp only
        rcases handOver_self c s payload around with ⟨hout, -⟩ | hdrop | ⟨-, hpart, hdel⟩
        · exact absurd hreg hout
        · exact .inl hdrop
        · exact .inr ⟨hreg, by rw [hpart, hget], by rw [hdel]; rfl⟩
  · left
    refine ⟨hreg, ?_⟩
    rw [onData, hwf.get_none hreg]
    dsimp only
    rw [handOver, if_neg hreg]
    exact .refl c s

/-! ## Runs -/

/-- What can happen to the loop: a frame of the client, a heartbeat, a session
that ended, or the end of the socket. -/
inductive Event where
  | client (channel : UInt64) (frame : ClientFrame) (around : Surroundings)
  | ping (around : Surroundings)
  | done (channel : UInt64)
  | stop

/-- One binary message from the socket. -/
def receive (s : ReadLoop) (buf : Bytes) (around : Surroundings) : ReadLoop :=
  match parseFrame buf with
  | some frame => s.onFrame frame around
  | none => s

def step (s : ReadLoop) (event : Event) : ReadLoop :=
  if s.running then
    match event with
    | .client channel frame around => s.receive (frame.encode channel) around
    | .ping around => s.receive encodePing around
    | .done channel => s.dropChannel channel
    | .stop => { s with running := false }
  else s

def run (s : ReadLoop) (events : List Event) : ReadLoop := events.foldl step s

/-- The frames of one channel among the events. -/
def framesOf (c : UInt64) (events : List Event) : List ClientFrame :=
  events.filterMap fun
    | .client d frame _ => if d = c then some frame else none
    | _ => none

/-- The events carry, channel by channel and in order, what the client's calls
put on the wire, up to wherever the socket has got. -/
def FromClient (sent : UInt64 → List Call) (events : List Event) : Prop :=
  ∀ c, framesOf c events <+: (sent c).flatMap Call.frames

/-- The client frames among the events, with their channels. -/
def clientFrames (events : List Event) : List (UInt64 × ClientFrame) :=
  events.filterMap fun
    | .client d frame _ => some (d, frame)
    | _ => none

theorem framesOf_eq (c : UInt64) (events : List Event) :
    framesOf c events =
      (clientFrames events).filterMap fun p => if p.1 = c then some p.2 else none := by
  rw [framesOf, clientFrames, List.filterMap_filterMap]
  congr 1
  funext e
  cases e <;> simp

/-- A client that makes its calls one after another, each writing its frames
without a break, is such a source whatever has been read of it. -/
theorem fromClient_of_calls {calls : List (UInt64 × Call)} {events : List Event}
    (h : clientFrames events <+:
      calls.flatMap fun p => p.2.frames.map fun frame => (p.1, frame)) :
    FromClient (fun c => (calls.filter fun p => p.1 = c).map Prod.snd) events := by
  intro c
  have hpick : ∀ l : List (UInt64 × Call),
      (l.flatMap fun p => p.2.frames.map fun frame => (p.1, frame)).filterMap
          (fun p => if p.1 = c then some p.2 else none) =
        ((l.filter fun p => p.1 = c).map Prod.snd).flatMap Call.frames := by
    intro l
    induction l with
    | nil => rfl
    | cons p l ih =>
        rw [List.flatMap_cons, List.filterMap_append, ih]
        by_cases hp : p.1 = c
        · simp [hp, List.filterMap_map]
        · simp [hp, List.filterMap_map]
  rw [framesOf_eq, ← hpick]
  exact h.filterMap _

theorem run_snoc (s : ReadLoop) (events : List Event) (e : Event) :
    s.run (events ++ [e]) = (s.run events).step e := by
  simp [run]

theorem framesOf_snoc (c : UInt64) (events : List Event) (e : Event) :
    framesOf c (events ++ [e]) = framesOf c events ++ framesOf c [e] := by
  simp [framesOf]

theorem FromClient.of_append {sent : UInt64 → List Call} {events more : List Event}
    (h : FromClient sent (events ++ more)) : FromClient sent events := by
  intro c
  refine List.IsPrefix.trans ?_ (h c)
  rw [framesOf, framesOf, List.filterMap_append]
  exact List.prefix_append _ _

theorem wf_receive {s : ReadLoop} (h : Wf s) (buf : Bytes) (around : Surroundings) :
    Wf (s.receive buf around) := by
  unfold receive
  split
  · exact wf_onFrame h _ around
  · exact h

theorem wf_step {s : ReadLoop} (h : Wf s) (e : Event) : Wf (s.step e) := by
  unfold step
  split
  · cases e with
    | client c frame around => exact wf_receive h _ around
    | ping around => exact wf_receive h _ around
    | done c => exact wf_dropChannel h c
    | stop => exact { h with }
  · exact h

theorem wf_run {s : ReadLoop} (h : Wf s) (events : List Event) : Wf (s.run events) := by
  induction events using List.reverseRecOn with
  | nil => exact h
  | append_singleton events e ih =>
      rw [run_snoc]
      exact wf_step ih e

/-- An OPEN parses to itself or, its path being too long, to nothing. -/
theorem parseFrame_open_cases (c : UInt64) (path : String) :
    parseFrame (encodeOpen c.toNat path) = some (.openChannel c path) ∨
      parseFrame (encodeOpen c.toNat path) = none := by
  by_cases hlen : (utf8 path).length ≤ maxOpenPathBytes
  · exact .inl (parseFrame_encodeOpen c hlen)
  · right
    refine (parseFrame_header frameOpen c _).trans ?_
    rw [parseBody, if_pos rfl, writeVarString]
    cases hread : readVarint (writeVarUint (utf8 path).length ++ utf8 path) with
    | none => rfl
    | some p =>
        -- The length read is the length written, which is out of bounds.
        have hdec : Leb128.decode _ = some (p.1.toNat, p.2) := decode_of_readVarint hread
        rw [writeVarUint, Leb128.decode_encode_append] at hdec
        have hval := (Prod.mk.inj (Option.some.inj hdec)).1
        simp only [Option.bind_eq_bind, Option.bind_some]
        rw [if_pos (.inl (by omega))]

/-- While the loop runs, a registered channel's partial is the message in
progress; what its session has received is part of what was completed. -/
structure Tracks (s : ReadLoop) (c : UInt64) (read : List ClientFrame) : Prop where
  inProgress : s.running → c ∈ s.channels →
    (Assoc.get c s.partials).getD [] = (assemble read).2
  completed : (s.deliveredTo c).Sublist (assemble read).1

theorem Tracks.of_same {s s' : ReadLoop} {c : UInt64} {read : List ClientFrame}
    (h : Tracks s c read) (hrun : s'.running → s.running) (hsame : SameAt c s s') :
    Tracks s' c read :=
  ⟨fun hr hc => by rw [hsame.partials]; exact h.inProgress (hrun hr) (hsame.channels.mp hc),
    by rw [hsame.delivered]; exact h.completed⟩

theorem completed_mono {s s' : ReadLoop} {c : UInt64} {read more : List ClientFrame}
    (h : Tracks s c read) (hdel : s'.deliveredTo c = s.deliveredTo c) :
    (s'.deliveredTo c).Sublist (assemble (read ++ more)).1 := by
  rw [hdel, assemble, List.foldl_append]
  exact h.completed.trans (Assembly.le_foldl _ more).sublist

theorem Tracks.of_dropped {s s' : ReadLoop} {c : UInt64} {read more : List ClientFrame}
    (h : Tracks s c read) (hdrop : DroppedAt c s s') : Tracks s' c (read ++ more) :=
  ⟨fun _ hc => absurd hc hdrop.channels, completed_mono h hdrop.delivered⟩

theorem parseFrame_encode_channel {c : UInt64} {f : ClientFrame} {frame : Frame}
    (h : parseFrame (f.encode c) = some frame) : channelOf frame = some c := by
  cases f with
  | openChannel path =>
      rcases parseFrame_open_cases c path with hopen | hnone
      · rw [ClientFrame.encode, hopen] at h
        obtain rfl := Option.some.inj h
        rfl
      · rw [ClientFrame.encode, hnone] at h
        cases h
  | part payload =>
      rw [ClientFrame.encode, parseFrame_encodeData] at h
      obtain rfl := Option.some.inj h
      split <;> rfl
  | data payload =>
      rw [ClientFrame.encode, parseFrame_encodeData] at h
      obtain rfl := Option.some.inj h
      split <;> rfl
  | close =>
      rw [ClientFrame.encode, parseFrame_encodeClose] at h
      obtain rfl := Option.some.inj h
      rfl

theorem sameAt_receive {c d : UInt64} (hne : d ≠ c) (s : ReadLoop) (f : ClientFrame)
    (around : Surroundings) : SameAt c s (s.receive (f.encode d) around) := by
  unfold receive
  split
  · rename_i frame hparse
    refine sameAt_onFrame ?_ s around
    rw [parseFrame_encode_channel hparse]
    simpa using hne
  · exact .refl c s

theorem sameAt_ping (c : UInt64) (s : ReadLoop) (around : Surroundings) :
    SameAt c s (s.receive encodePing around) := by
  rw [receive, parseFrame_encodePing]
  exact sameAt_onFrame (by simp [channelOf]) s around

/-- A frame on its own channel advances the loop and the assembly together. -/
theorem tracks_receive {s : ReadLoop} {c : UInt64} {read : List ClientFrame} (hwf : Wf s)
    (h : Tracks s c read) (hrun : s.running) (f : ClientFrame) (around : Surroundings)
    (hopen : ∀ path, f = .openChannel path → (assemble read).2 = []) :
    Tracks (s.receive (f.encode c) around) c (read ++ [f]) := by
  cases f with
  | openChannel path =>
      have hkeep : (assemble (read ++ [.openChannel path])) = assemble read := by
        rw [assemble_snoc, Assembly.add, ← hopen path rfl]
      rw [ClientFrame.encode, receive]
      rcases parseFrame_open_cases c path with hparse | hparse
      · rw [hparse]
        rcases onOpen_self c s around with hsame | ⟨hfresh, hpart, hdel⟩
        · have := h.of_same (fun _ => hrun) hsame
          exact ⟨by rw [hkeep]; exact this.inProgress, by rw [hkeep]; exact this.completed⟩
        · -- A channel never seen is not registered, so nothing is buffered for it.
          have hnone := hwf.get_none fun hc => hfresh (hwf.seen c hc)
          refine ⟨fun _ _ => ?_, completed_mono h hdel⟩
          change (Assoc.get c (s.onOpen c around).partials).getD [] = _
          rw [hkeep, hpart, hnone, hopen path rfl]
          rfl
      · rw [hparse]
        exact ⟨by rw [hkeep]; exact h.inProgress, by rw [hkeep]; exact h.completed⟩
  | part payload =>
      rw [ClientFrame.encode, receive, parseFrame_encodeData]
      split
      · rename_i frame hframe
        split at hframe
        · obtain rfl := Option.some.inj hframe
          exact h.of_dropped (droppedAt_discardReset c s around.controlSent)
        · obtain rfl := Option.some.inj hframe
          change Tracks (s.onPart c payload around) c _
          rcases onPart_self c s payload around with ⟨hout, hsame⟩ | hdrop | ⟨hin, hpart, hdel⟩
          · exact ⟨fun _ hc => absurd (hsame ▸ hc) hout, completed_mono h (by rw [hsame])⟩
          · exact h.of_dropped hdrop
          · refine ⟨fun _ _ => ?_, completed_mono h hdel⟩
            rw [hpart, assemble_snoc, Option.getD_some, h.inProgress hrun hin]
            rfl
      · rename_i hnone
        cases hnone
  | data payload =>
      rw [ClientFrame.encode, receive, parseFrame_encodeData]
      split
      · rename_i frame hframe
        split at hframe
        · obtain rfl := Option.some.inj hframe
          exact h.of_dropped (droppedAt_discardReset c s around.controlSent)
        · obtain rfl := Option.some.inj hframe
          change Tracks (s.onData c payload around) c _
          rcases onData_self hwf c payload around with
            ⟨hout, hsame⟩ | hdrop | ⟨hin, hpart, hdel⟩
          · exact ⟨fun _ hc => absurd (hsame.channels.mp hc) hout,
              completed_mono h hsame.delivered⟩
          · exact h.of_dropped hdrop
          · have hcur := h.inProgress hrun hin
            refine ⟨fun _ _ => by rw [hpart, assemble_snoc]; rfl, ?_⟩
            rw [hdel, hcur, assemble_snoc]
            exact h.completed.append (List.Sublist.refl _)
      · rename_i hnone
        cases hnone
  | close =>
      rw [ClientFrame.encode, receive, parseFrame_encodeClose]
      exact h.of_dropped (droppedAt_dropChannel c s)

theorem tracks_step {s : ReadLoop} {c : UInt64} {read : List ClientFrame} (hwf : Wf s)
    (h : Tracks s c read) (e : Event)
    (hopen : ∀ path, framesOf c [e] = [.openChannel path] → (assemble read).2 = []) :
    Tracks (s.step e) c (read ++ framesOf c [e]) := by
  by_cases hrun : s.running = true
  · unfold step
    rw [if_pos hrun]
    cases e with
    | client d f around =>
        by_cases hd : d = c
        · subst hd
          have hframes : framesOf d [.client d f around] = [f] := by simp [framesOf]
          rw [hframes] at hopen ⊢
          exact tracks_receive hwf h hrun f around fun path hf => hopen path (by rw [hf])
        · have hframes : framesOf c [.client d f around] = [] := by simp [framesOf, hd]
          rw [hframes, List.append_nil]
          exact h.of_same (fun _ => hrun) (sameAt_receive hd s f around)
    | ping around =>
        rw [show framesOf c [.ping around] = [] from rfl, List.append_nil]
        exact h.of_same (fun _ => hrun) (sameAt_ping c s around)
    | done d =>
        by_cases hd : d = c
        · subst hd
          exact h.of_dropped (droppedAt_dropChannel d s)
        · rw [show framesOf c [.done d] = [] from rfl, List.append_nil]
          exact h.of_same (fun _ => hrun)
            ((sameAt_removeChannel (Ne.symm hd) s).trans (sameAt_discardPartial (Ne.symm hd) _))
    | stop =>
        rw [show framesOf c [.stop] = [] from rfl, List.append_nil]
        exact ⟨fun hr => absurd hr (by simp), h.completed⟩
  · unfold step
    rw [if_neg hrun]
    exact ⟨fun hr => absurd hr hrun, completed_mono h rfl⟩

theorem tracks_run {sent : UInt64 → List Call} {events : List Event}
    (hclient : FromClient sent events) (now : Nat) (c : UInt64) :
    Tracks ((new now).run events) c (framesOf c events) := by
  induction events using List.reverseRecOn with
  | nil => exact ⟨by simp [run, new], by simp [run, new, deliveredTo]⟩
  | append_singleton events e ih =>
      rw [run_snoc, framesOf_snoc]
      refine tracks_step (wf_run (wf_new now) events) (ih hclient.of_append) e ?_
      intro path hframe
      obtain ⟨rest, hrest⟩ := hclient c
      rw [framesOf_snoc, hframe, List.append_assoc] at hrest
      exact no_partial_at_open (sent c) _ rest [] hrest.symm

/-! ## A dropped channel stays dropped -/

/-- The channel was opened once and is no longer registered. -/
structure Gone (s : ReadLoop) (c : UInt64) : Prop where
  seen : c ∈ s.openLimiter.seenChannels
  channels : c ∉ s.channels

theorem seen_onFrame {c : UInt64} {s : ReadLoop} (h : c ∈ s.openLimiter.seenChannels)
    (frame : Frame) (around : Surroundings) :
    c ∈ (s.onFrame frame around).openLimiter.seenChannels := by
  cases frame with
  | openChannel d path =>
      have hmem : c ∈ (s.openLimiter.admitChannel d s.channels.card around.now).2.seenChannels := by
        rcases OpenLimiter.admitChannel_seen s.openLimiter d s.channels.card around.now with
          ⟨-, heq⟩ | ⟨-, -, heq⟩
        · rw [heq]
          exact h
        · rw [heq]
          exact Finset.mem_insert_of_mem h
      simp only [onFrame, onOpen]
      split
      · exact hmem
      · split
        · simpa using hmem
        · simpa using hmem
  | part d payload =>
      simp only [onFrame, onPart]
      split
      · exact h
      · split
        · simpa using h
        · exact h
  | data d payload =>
      simp only [onFrame, onData]
      split
      · split
        · simpa using h
        · simpa using h
      · simpa using h
  | oversizedData d => simpa [onFrame] using h
  | close d => simpa [onFrame, dropChannel, removeChannel] using h
  | ping =>
      simp only [onFrame]
      split <;> exact h

/-- A frame on a channel that is gone does nothing to it. -/
theorem onFrame_gone {c : UInt64} {s : ReadLoop} (hwf : Wf s) (h : Gone s c) (frame : Frame)
    (around : Surroundings) :
    Gone (s.onFrame frame around) c ∧ (s.onFrame frame around).deliveredTo c = s.deliveredTo c := by
  have hseen := seen_onFrame h.seen frame around
  by_cases hown : channelOf frame = some c
  · have hend : c ∉ (s.onFrame frame around).channels ∧
        (s.onFrame frame around).deliveredTo c = s.deliveredTo c := by
      cases frame with
      | openChannel d path =>
          obtain rfl : d = c := Option.some.inj hown
          rcases onOpen_self d s around with hsame | ⟨hfresh, -, -⟩
          · exact ⟨fun hc => h.channels (hsame.channels.mp hc), hsame.delivered⟩
          · exact absurd h.seen hfresh
      | part d payload =>
          obtain rfl : d = c := Option.some.inj hown
          simp only [onFrame, onPart, if_pos h.channels]
          exact ⟨h.channels, trivial⟩
      | data d payload =>
          obtain rfl : d = c := Option.some.inj hown
          rcases onData_self hwf d payload around with ⟨-, hsame⟩ | hdrop | ⟨hin, -, -⟩
          · exact ⟨fun hc => h.channels (hsame.channels.mp hc), hsame.delivered⟩
          · exact ⟨hdrop.channels, hdrop.delivered⟩
          · exact absurd hin h.channels
      | oversizedData d =>
          obtain rfl : d = c := Option.some.inj hown
          have hdrop := droppedAt_discardReset d s around.controlSent
          exact ⟨hdrop.channels, hdrop.delivered⟩
      | close d =>
          obtain rfl : d = c := Option.some.inj hown
          have hdrop := droppedAt_dropChannel d s
          exact ⟨hdrop.channels, hdrop.delivered⟩
      | ping => cases hown
    exact ⟨⟨hseen, hend.1⟩, hend.2⟩
  · have hsame := sameAt_onFrame hown s around
    exact ⟨⟨hseen, fun hc => h.channels (hsame.channels.mp hc)⟩, hsame.delivered⟩

theorem receive_gone {c : UInt64} {s : ReadLoop} (hwf : Wf s) (h : Gone s c) (buf : Bytes)
    (around : Surroundings) :
    Gone (s.receive buf around) c ∧ (s.receive buf around).deliveredTo c = s.deliveredTo c := by
  unfold receive
  split
  · exact onFrame_gone hwf h _ around
  · exact ⟨h, rfl⟩

theorem step_gone {c : UInt64} {s : ReadLoop} (hwf : Wf s) (h : Gone s c) (e : Event) :
    Gone (s.step e) c ∧ (s.step e).deliveredTo c = s.deliveredTo c := by
  unfold step
  split
  · cases e with
    | client d f around => exact receive_gone hwf h _ around
    | ping around => exact receive_gone hwf h _ around
    | done d =>
        exact ⟨⟨by simpa [dropChannel, removeChannel] using h.seen,
          by simp [dropChannel, removeChannel, h.channels]⟩,
          deliveredTo_congr (by simp [dropChannel, removeChannel]) c⟩
    | stop => exact ⟨⟨h.seen, h.channels⟩, rfl⟩
  · exact ⟨h, rfl⟩

theorem run_gone {c : UInt64} {s : ReadLoop} (hwf : Wf s) (h : Gone s c) (events : List Event) :
    Gone (s.run events) c ∧ (s.run events).deliveredTo c = s.deliveredTo c := by
  induction events using List.reverseRecOn with
  | nil => exact ⟨h, rfl⟩
  | append_singleton events e ih =>
      rw [run_snoc]
      have hstep := step_gone (wf_run hwf events) ih.1 e
      exact ⟨hstep.1, hstep.2.trans ih.2⟩

/-- **Whole messages only.** In every run of the loop over the frames of a
client: what a channel's session received are payloads passed to `sendData` for
that channel, each whole, in the order sent; a channel that was opened and is
no longer registered never receives anything again, whatever follows; and the
buffer account is exact, bounded, and only about registered channels. -/
theorem delivers_whole_messages (sent : UInt64 → List Call) (events : List Event)
    (hclient : FromClient sent events) (now : Nat) :
    (∀ c, (((new now).run events).deliveredTo c).Sublist (payloads (sent c))) ∧
    (∀ c, c ∈ ((new now).run events).openLimiter.seenChannels →
      c ∉ ((new now).run events).channels → ∀ more,
        ((new now).run (events ++ more)).deliveredTo c = ((new now).run events).deliveredTo c) ∧
    ((new now).run events).partialBytes =
        Assoc.total List.length ((new now).run events).partials ∧
      ((new now).run events).underflowed = false ∧
      ((new now).run events).partialBytes ≤ maxDataFrameBytes ∧
      ∀ c ∈ Assoc.keys ((new now).run events).partials, c ∈ ((new now).run events).channels := by
  have hwf := wf_run (wf_new now) events
  refine ⟨fun c => ?_, fun c hseen hout more => ?_, hwf.accounted, hwf.exact, hwf.bounded,
    hwf.registered⟩
  · exact (tracks_run hclient now c).completed.trans (assemble_initial (hclient c)).sublist
  · have hgone := run_gone hwf ⟨hseen, hout⟩ more
    rw [run, List.foldl_append]
    exact hgone.2

/-- One byte more than a chunk. -/
def longPayload : Bytes := List.replicate (chunkBytes + 1) 7

theorem sendData_longPayload :
    Client.sendData true longPayload = [.part (List.replicate chunkBytes 7), .data [7]] := by
  have hlength : longPayload.length = chunkBytes + 1 := List.length_replicate
  have hpos : 0 < chunkBytes := by decide
  have hfirst : longPayload.extract 0 chunkBytes = List.replicate chunkBytes 7 := by
    simp [longPayload]
  have hlast : longPayload.extract chunkBytes (chunkBytes + 1) = [7] := by
    simp [longPayload]
  rw [Client.sendData, hlength, if_neg (by simp), Client.sendChunks, if_pos (by omega),
    Client.sendChunks, if_pos (by omega), Client.sendChunks, if_neg (by omega), hlength,
    Nat.zero_add, Nat.min_eq_left (Nat.le_succ _), Nat.min_eq_right (by omega)]
  simp only [hfirst, hlast]
  simp [ClientFrame.ofPayload]

/-- Two channels; the first one's payload is in two frames, and the second one's
session is over before its payload comes. -/
def twoChannels : List Event :=
  [.client 1 (.openChannel "/d/a/ws/a?token=t") ⟨0, .room, true⟩,
    .client 2 (.openChannel "/d/b/ws/b?token=t") ⟨0, .room, true⟩,
    .client 1 (.part (List.replicate chunkBytes 7)) ⟨1, .room, true⟩,
    .done 2,
    .client 1 (.data [7]) ⟨1, .room, true⟩,
    .client 2 (.data [1, 2, 3]) ⟨2, .room, true⟩]

theorem delivers_whole_messages_two_calls :
    (((new 0).run twoChannels).deliveredTo 1).Sublist [longPayload] ∧
      (((new 0).run twoChannels).deliveredTo 2).Sublist [[1, 2, 3]] := by
  have hcalls : clientFrames twoChannels <+:
      [((1 : UInt64), Call.openChannel "/d/a/ws/a?token=t"),
        (2, .openChannel "/d/b/ws/b?token=t"), (1, .sendData true longPayload),
        (2, .sendData true [1, 2, 3])].flatMap fun p =>
          p.2.frames.map fun frame => (p.1, frame) := by
    have hshort : Client.sendData true [1, 2, 3] = [.data [1, 2, 3]] := by
      rw [Client.sendData, if_pos (by decide), ClientFrame.ofPayload, if_pos rfl]
    simp only [List.flatMap_cons, List.flatMap_nil, Call.frames, sendData_longPayload, hshort]
    exact List.prefix_rfl
  have hrun := (delivers_whole_messages _ _ (fromClient_of_calls hcalls) 0).1
  exact ⟨hrun 1, hrun 2⟩

end Server.ReadLoop

end Realtime.Mux
