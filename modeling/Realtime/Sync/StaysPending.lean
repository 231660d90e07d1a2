import Mathlib.Tactic
import Realtime.Sync.ReadOnly
import Realtime.Sync.Saved

/-!
# Read-only edits stay pending

An update that counts is unsaved until the server has it: what a read-only server was offered
is noted as divergence, which only the answer of a full-access connection lifts, and there the
handshake has carried it.
-/

namespace Realtime.Sync

open Lib

variable {D V U E C : Type}

/-- What a server lacks of an insertion, the update for its state vector brings as structs. -/
def Yjs.SendsStructs (y : Yjs D V U E) (Inserts : E → Prop) : Prop :=
  ∀ d d₀ e, Inserts e → y.Contains d e → ¬y.Contains d₀ e →
    y.hasStructs (y.encodeStateAsUpdate d (y.encodeStateVector d₀)) = true

namespace Session

/-- The server has every update that counts. A deletion may instead have been answered by a
read-only server. -/
structure Acknowledged (y : Yjs D V U E) (Inserts : E → Prop) (s : Session D V U E) : Prop where
  made : ∀ p ∈ s.world.made,
    y.Contains s.server p.2 ∨ (¬Inserts p.2 ∧ ∃ v ∈ s.readOnlyAnswers, p.1 ≤ v)
  offered : ∀ e ∈ s.offered, Inserts e → y.Contains s.server e

end Session

/-- What becomes of a message. -/
theorem World.send_cases (w : World D V U E) (m : ClientMessage V U) :
    ((w.send m).1 = w ∧
        ∀ k, w.provider.socket = some k → (w.conns k).readyState ≠ .opened) ∨
      (w.send m).1 = w.closeSocket ∨
      ∃ k, w.provider.socket = some k ∧ (w.send m).1 = w.push k m := by
  unfold World.send
  split
  · rename_i k hk
    split
    · rename_i hclosed
      refine .inl ⟨rfl, fun j hj => ?_⟩
      obtain rfl : k = j := Option.some.inj (hk.symm.trans hj)
      exact hclosed
    · split
      · exact .inr (.inl rfl)
      · exact .inr (.inr ⟨k, hk, rfl⟩)
  · rename_i hnone
    exact .inl ⟨rfl, fun k hk => absurd (hnone.symm.trans hk) nofun⟩

theorem World.closeSocket_socket (w : World D V U E) : w.closeSocket.provider.socket = none := by
  unfold World.closeSocket
  split
  · rfl
  · assumption

theorem World.closeSocket_readOnly (w : World D V U E) :
    w.closeSocket.provider.readOnly = w.provider.readOnly := by
  unfold World.closeSocket
  split <;> rfl

theorem World.closeSocket_fresh (w : World D V U E) : w.closeSocket.fresh = w.fresh := by
  unfold World.closeSocket
  split <;> rfl

theorem World.closeSocket_clientToken (w : World D V U E) :
    w.closeSocket.provider.clientToken = w.provider.clientToken := by
  unfold World.closeSocket
  split <;> rfl

theorem World.send_readOnly (w : World D V U E) (m : ClientMessage V U) :
    (w.send m).1.provider.readOnly = w.provider.readOnly := by
  rcases w.send_cases m with ⟨hsame, -⟩ | hclose | ⟨k, -, hpush⟩
  · rw [hsame]
  · rw [hclose, w.closeSocket_readOnly]
  · rw [hpush]
    rfl

/-- A socket that has sent a message has it queued. -/
theorem World.conns_push (w : World D V U E) (k : Nat) (m : ClientMessage V U) :
    (w.push k m).conns k = { w.conns k with up := (w.conns k).up ++ [m] } :=
  Function.update_self ..

/-- What is on record after a message. -/
def Session.noteMessage (s : Session D V U E) (w : World D V U E) :
    ServerMessage V U → Session D V U E
  | .syncStep1 _ =>
      if s.world.provider.readOnly then { s with world := w, offered := s.edits }
      else { s with world := w }
  | .syncStatus v =>
      if s.world.provider.readOnly then
        { s with world := w, readOnlyAnswers := v :: s.readOnlyAnswers }
      else { s with world := w }
  | _ => { s with world := w }

/-- The current socket takes a message, or it closes, or the socket is not the current one. -/
theorem Session.deliver_cases {y : Yjs D V U E} {s s' : Session D V U E} {k : Nat}
    (h : s.deliver y k = some s') :
    ∃ m down, (s.world.conns k).down = m :: down ∧
      (s.world.conns k).readyState ≠ .connecting ∧
      ((s.received k = none ∧
          (s' = { s with world := s.world.setConn k { s.world.conns k with down := down } } ∨
            s' = { s with
              world := (s.world.setConn k { s.world.conns k with down := down }).closeSocket })) ∨
        (s.world.provider.socket = some k ∧ s.received k = some m ∧
          s' = s.noteMessage
            ((s.world.setConn k { s.world.conns k with down := down }).receiveMessage
            y m) m)) := by
  obtain ⟨w, hstep, hw⟩ := Option.map_eq_some_iff.mp h
  simp only [Sync.step] at hstep
  split at hstep
  · rename_i m down hdown
    split at hstep
    · cases hstep
    · rename_i hready
      refine ⟨m, down, hdown, hready, ?_⟩
      split at hstep
      · rename_i hk
        split at hstep
        · rename_i hblocks
          have hnone : s.received k = none := if_neg fun hall => by
            rw [hall.2.2] at hblocks
            cases hblocks
          cases hstep
          rw [hnone] at hw
          exact .inl ⟨hnone, .inr hw.symm⟩
        · rename_i hblocks
          have hsome : s.received k = some m := by
            rw [Session.received, if_pos ⟨hk, hready, Bool.eq_false_of_not_eq_true hblocks⟩, hdown]
            rfl
          cases hstep
          rw [hsome] at hw
          refine .inr ⟨hk, hsome, hw.symm.trans ?_⟩
          cases m <;> rfl
      · rename_i hk
        have hnone : s.received k = none := if_neg fun hall => hk hall.1
        cases hstep
        rw [hnone] at hw
        exact .inl ⟨hnone, .inl hw.symm⟩
  · cases hstep

/-! ## One socket -/

theorem ConnOk.weaken {y : Yjs D V U E} {server : D} {version : Nat} {made made' : List (Nat × E)}
    {received : Bool} {c : Conn V U} (h : ConnOk y server version made received c)
    (hmade : ∀ p ∈ made', y.Contains server p.2 ∨ ∃ q ∈ made, q.2 = p.2 ∧ q.1 ≤ p.1) :
    ConnOk y server version made' received c where
  known := h.known
  answers := fun v hv => by
    refine ⟨(h.answers v hv).1, fun p hp hle => ?_⟩
    rcases hmade p hp with hin | ⟨q, hq, heq, hqp⟩
    · exact hin
    · exact heq ▸ (h.answers v hv).2 q hq (hqp.trans hle)
  probes := fun hs pre v post hup => by
    refine ⟨(h.probes hs pre v post hup).1, fun p hp hle => ?_⟩
    rcases hmade p hp with hin | ⟨q, hq, heq, hqp⟩
    · exact .inl hin
    · exact heq ▸ (h.probes hs pre v post hup).2 q hq (hqp.trans hle)
  current := fun hs hr ho p hp => by
    rcases hmade p hp with hin | ⟨q, hq, heq, -⟩
    · exact .inl hin
    · exact heq ▸ h.current hs hr ho q hq
  connecting := h.connecting

/-- What the sockets' state is measured against. -/
structure Counters (D E : Type) where
  server : D
  localVersion : Nat
  acknowledgedVersion : Int
  readOnlyDivergence : Bool
  received : Bool
  made : List (Nat × E)
  offered : List E

def Session.counters (s : Session D V U E) : Counters D E :=
  ⟨s.server, s.world.provider.localVersion, s.world.provider.acknowledgedVersion,
    s.world.provider.readOnlyDivergence, s.world.provider.receivedServerSyncStep1,
    s.world.made, s.offered⟩

/-- The updates that an answer speaks for: those up to its version, and all that no version
keeps pending. -/
def Counters.covered (n : Counters D E) : List (Nat × E) :=
  n.made.map (fun p => (if (p.1 : Int) ≤ n.acknowledgedVersion then 0 else p.1, p.2)) ++
    n.offered.map fun e => (0, e)

theorem Counters.covered_of_made {n : Counters D E} {p : Nat × E} (hp : p ∈ n.made) {v : Nat}
    (hle : (p.1 : Int) ≤ n.acknowledgedVersion ∨ p.1 ≤ v) :
      ∃ q ∈ n.covered, q.2 = p.2 ∧ q.1 ≤ v := by
  refine ⟨(if (p.1 : Int) ≤ n.acknowledgedVersion then 0 else p.1, p.2),
    List.mem_append_left _ (List.mem_map_of_mem hp), rfl, ?_⟩
  dsimp only
  split
  · exact Nat.zero_le v
  · exact hle.resolve_left ‹_›

theorem Counters.covered_of_offered {n : Counters D E} {e : E} (he : e ∈ n.offered) :
    (0, e) ∈ n.covered := List.mem_append_right _ (List.mem_map_of_mem he)

/-- What holds of the current socket. -/
structure ChannelOk (y : Yjs D V U E) (Inserts : E → Prop) (n : Counters D E)
    (level : Authorization) (c : Conn V U) : Prop where
  known : ∀ stateVector, .syncStep1 stateVector ∈ c.down →
    ∃ d, stateVector = y.encodeStateVector d ∧ Grows y d n.server
  probed : ∀ v, .syncStatus v ∈ c.up ∨ .syncStatus v ∈ c.down →
    n.received = true ∧ v ≤ n.localVersion
  full : level = .full → ConnOk y n.server n.localVersion n.covered n.received c
  noted : level = .readOnly → n.received = true → n.readOnlyDivergence = true ∨
    ∀ p ∈ n.made, Inserts p.2 → y.Contains n.server p.2

namespace ChannelOk

variable {y : Yjs D V U E} {Inserts : E → Prop} {n : Counters D E} {level : Authorization}
  {c : Conn V U}

theorem grow (h : ChannelOk y Inserts n level c) {server : D} (hgrow : Grows y n.server server) :
    ChannelOk y Inserts { n with server := server } level c where
  known := fun sv hsv => by
    obtain ⟨d, hd, hle⟩ := h.known sv hsv
    exact ⟨d, hd, fun e he => hgrow e (hle e he)⟩
  probed := h.probed
  full := fun hl => (h.full hl).grow hgrow
  noted := fun hl hr => (h.noted hl hr).imp id fun hin p hp hins => hgrow _ (hin p hp hins)

/-- A probe is sent with the current version, once SyncStep1 has been answered. -/
theorem push (h : ChannelOk y Inserts n level c) {m : ClientMessage V U}
    (hm : ∀ v, m = .syncStatus v →
      v = n.localVersion ∧ n.received = true ∧ c.readyState = .opened) :
    ChannelOk y Inserts n level { c with up := c.up ++ [m] } where
  known := h.known
  probed := fun v hv => by
    have hv : .syncStatus v ∈ c.up ++ [m] ∨ .syncStatus v ∈ c.down := hv
    rw [List.mem_append, List.mem_singleton] at hv
    rcases hv with (hup | hnew) | hdown
    · exact h.probed v (.inl hup)
    · obtain ⟨rfl, hr, -⟩ := hm v hnew.symm
      exact ⟨hr, le_rfl⟩
    · exact h.probed v (.inr hdown)
  full := fun hl => (h.full hl).push fun v hv hs => by
    obtain ⟨rfl, hr, ho⟩ := hm v hv
    exact ⟨le_rfl, fun p hp _ => (h.full hl).current hs hr ho p hp⟩
  noted := h.noted

theorem opens (h : ChannelOk y Inserts n level c) (hr : c.readyState = .connecting) :
    ChannelOk y Inserts n level { c with readyState := .opened } :=
  ⟨h.known, h.probed, fun hl => (h.full hl).opens hr, h.noted⟩

theorem shut (h : ChannelOk y Inserts n level c) :
    ChannelOk y Inserts n level { c with readyState := .closed } :=
  ⟨h.known, h.probed, fun hl => (h.full hl).shut, h.noted⟩

theorem stop (h : ChannelOk y Inserts n level c) :
    ChannelOk y Inserts n level { c with up := [], serving := false } where
  known := h.known
  probed := fun v hv => h.probed v (hv.imp (fun hin => absurd hin List.not_mem_nil) id)
  full := fun hl => (h.full hl).stop
  noted := h.noted

/-- The server sends what is neither SyncStep1 nor an answer. -/
theorem setDown (h : ChannelOk y Inserts n level c) {down : List (ServerMessage V U)}
    (hknown : ∀ sv, .syncStep1 sv ∈ down →
      .syncStep1 sv ∈ c.down ∨ sv = y.encodeStateVector n.server)
    (hanswers : ∀ v, .syncStatus v ∈ down → .syncStatus v ∈ c.down) :
    ChannelOk y Inserts n level { c with down := down } where
  known := fun sv hsv => by
    rcases hknown sv hsv with hold | hnew
    · exact h.known sv hold
    · exact ⟨n.server, hnew, fun _ he => he⟩
  probed := fun v hv => h.probed v (hv.imp id (hanswers v))
  full := fun hl => (h.full hl).setDown hknown hanswers
  noted := h.noted

/-- The server takes a message that brings nothing. -/
theorem skip (h : ChannelOk y Inserts n level c) {m : ClientMessage V U}
    {up : List (ClientMessage V U)} (hup : c.up = m :: up)
    (hm : m.payload = none ∨ level = .readOnly) :
    ChannelOk y Inserts n level { c with up := up } where
  known := h.known
  probed := fun v hv => h.probed v (hv.imp (fun hin => hup ▸ List.mem_cons_of_mem m hin) id)
  full := fun hl => by
    rcases hm with hm | hread
    · exact (h.full hl).skip hup hm
    · exact absurd (hl.symm.trans hread) nofun
  noted := h.noted

/-- The server applies an update. -/
theorem apply (hy : y.Lawful) (h : ChannelOk y Inserts n level c) {m : ClientMessage V U}
    {up : List (ClientMessage V U)} {u : U} (hup : c.up = m :: up) (hm : m.payload = some u) :
    ChannelOk y Inserts { n with server := y.applyUpdate n.server u } level
      { c with up := up } where
  known := (h.grow fun e => hy.applyUpdate n.server u e).known
  probed := fun v hv => h.probed v (hv.imp (fun hin => hup ▸ List.mem_cons_of_mem m hin) id)
  full := fun hl => (h.full hl).apply hy hup hm
  noted := (h.grow fun e => hy.applyUpdate n.server u e).noted

/-- The server answers a probe. -/
theorem answer (h : ChannelOk y Inserts n level c) {v : Nat} {up : List (ClientMessage V U)}
    (hs : c.serving = true) (hup : c.up = .syncStatus v :: up) :
    ChannelOk y Inserts n level { c with up := up, down := c.down ++ [.syncStatus v] } where
  known := fun sv hsv => h.known sv (by simpa using hsv)
  probed := fun v' hv' => by
    have hv' : .syncStatus v' ∈ up ∨ .syncStatus v' ∈ c.down ++ [.syncStatus v] := hv'
    rw [List.mem_append, List.mem_singleton] at hv'
    rcases hv' with hin | hdown | hnew
    · exact h.probed v' (.inl (hup ▸ List.mem_cons_of_mem _ hin))
    · exact h.probed v' (.inr hdown)
    · obtain rfl := ServerMessage.syncStatus.inj hnew
      exact h.probed v' (.inl (hup ▸ List.mem_cons_self))
  full := fun hl => (h.full hl).answer hs hup
  noted := h.noted

end ChannelOk

/-- An update that counts is the server's, or keeps the provider's changes pending. -/
structure Counted (y : Yjs D V U E) (Inserts : E → Prop) (s : Session D V U E) : Prop where
  granted : ∀ k, s.world.provider.socket = some k →
    s.world.provider.clientToken = some (s.granted k)
  acknowledged_le : s.world.provider.acknowledgedVersion ≤ s.world.provider.localVersion
  held : ∀ e ∈ s.edits, y.Contains s.document e
  made : ∀ p ∈ s.world.made, p.1 ≤ s.world.provider.localVersion ∧ p.2 ∈ s.edits
  offered : ∀ e ∈ s.offered, e ∈ s.edits
  kept : ∀ p ∈ s.world.made, y.Contains s.server p.2 ∨
    s.world.provider.readOnlyDivergence = true ∨
    s.world.provider.acknowledgedVersion < p.1 ∨
    (¬Inserts p.2 ∧ ∃ v ∈ s.readOnlyAnswers, p.1 ≤ v)
  noted : ∀ e ∈ s.offered, Inserts e →
    y.Contains s.server e ∨ s.world.provider.readOnlyDivergence = true
  socket : ∀ k, s.world.provider.socket = some k →
    ChannelOk y Inserts s.counters (s.granted k) (s.world.conns k)

namespace Counted

variable {y : Yjs D V U E} {Inserts : E → Prop} {s : Session D V U E}

theorem acknowledged (h : Counted y Inserts s) (hno : s.hasLocalChanges = false) :
    s.Acknowledged y Inserts := by
  obtain ⟨hdivergence, hawaiting⟩ := Bool.or_eq_false_iff.mp hno
  have hle : s.world.provider.localVersion ≤ s.world.provider.acknowledgedVersion := by
    simpa [Provider.awaitingAcknowledgement] using hawaiting
  constructor
  · intro p hp
    rcases h.kept p hp with hin | hdiv | hlt | hanswered
    · exact .inl hin
    · exact absurd (hdivergence.symm.trans hdiv) Bool.false_ne_true
    · have hp := (h.made p hp).1
      omega
    · exact .inr hanswered
  · intro e he hinserts
    rcases h.noted e he hinserts with hin | hdiv
    · exact hin
    · exact absurd (hdivergence.symm.trans hdiv) Bool.false_ne_true

/-- A socket other than the current one, or the current one in a way that keeps what holds
of it. -/
theorem setConn (h : Counted y Inserts s) {k : Nat} {c : Conn V U}
    (hc : s.world.provider.socket = some k → ChannelOk y Inserts s.counters (s.granted k) c) :
    Counted y Inserts { s with world := s.world.setConn k c } where
  granted := h.granted
  acknowledged_le := h.acknowledged_le
  held := h.held
  made := h.made
  offered := h.offered
  kept := h.kept
  noted := h.noted
  socket := fun j hj => by
    show ChannelOk y Inserts s.counters (s.granted j) (Function.update s.world.conns k c j)
    by_cases hjk : j = k
    · subst hjk
      rw [Function.update_self]
      exact hc hj
    · rw [Function.update_of_ne hjk]
      exact h.socket j hj

theorem clearEpochHandoff (h : Counted y Inserts s) :
    Counted y Inserts { s with
      world := { s.world with provider := s.world.provider.clearEpochHandoff } } :=
  ⟨h.granted, h.acknowledged_le, h.held, h.made, h.offered, h.kept, h.noted, h.socket⟩

theorem closeSocket (h : Counted y Inserts s) :
    Counted y Inserts { s with world := s.world.closeSocket } := by
  unfold World.closeSocket
  split
  · exact ⟨nofun, h.acknowledged_le, h.held, h.made, h.offered, h.kept, h.noted, nofun⟩
  · exact h.clearEpochHandoff

theorem send (h : Counted y Inserts s) {m : ClientMessage V U}
    (hm : ∀ v, m = .syncStatus v → v = s.world.provider.localVersion ∧
      s.world.provider.receivedServerSyncStep1 = true) :
    Counted y Inserts { s with world := (s.world.send m).1 } := by
  unfold World.send
  split
  · rename_i k hk
    split
    · exact h
    · rename_i hopen
      split
      · exact h.closeSocket
      · refine h.setConn fun _ => (h.socket k hk).push fun v hv => ?_
        obtain ⟨hversion, hreceived⟩ := hm v hv
        exact ⟨hversion, hreceived, not_not.mp hopen⟩
  · exact h

theorem sendSyncStep1 (h : Counted y Inserts s) :
    Counted y Inserts { s with world := s.world.sendSyncStep1 y } := h.send nofun

theorem checkSync (h : Counted y Inserts s) :
    Counted y Inserts { s with world := s.world.checkSync } := by
  unfold World.checkSync
  split
  · rename_i hreceived
    exact h.send fun v hv => ⟨(ClientMessage.syncStatus.inj hv).symm, hreceived⟩
  · exact h

/-! ### Messages of the server -/

theorem setHandoff (h : Counted y Inserts s) {pendingEpoch : Option Nat}
    {epochFlushTimer : Bool} :
    Counted y Inserts { s with
      world := { s.world with
        provider := { s.world.provider with
          pendingEpoch := pendingEpoch
          epochFlushTimer := epochFlushTimer } } } :=
  ⟨h.granted, h.acknowledged_le, h.held, h.made, h.offered, h.kept, h.noted, h.socket⟩

theorem recordHandoff (h : Counted y Inserts s) {handoffs : List (Handoff E)} :
    Counted y Inserts { s with world := { s.world with handoffs := handoffs } } :=
  ⟨h.granted, h.acknowledged_le, h.held, h.made, h.offered, h.kept, h.noted, h.socket⟩

theorem finishEpochHandoff (h : Counted y Inserts s) (timedOut : Bool) :
    Counted y Inserts { s with world := s.world.finishEpochHandoff timedOut } := by
  have hclear := h.clearEpochHandoff
  simp only [World.finishEpochHandoff]
  split
  · split
    · exact hclear
    · split
      · rename_i epoch _ _ _
        have hsent := hclear.send (m := .epochAcknowledgement epoch) (by rintro _ ⟨⟩)
        split
        · exact hsent.recordHandoff
        · exact hsent
      · exact hclear.closeSocket
  · exact hclear

theorem receiveEpochProposal (h : Counted y Inserts s) (epoch : Nat) :
    Counted y Inserts { s with world := s.world.receiveEpochProposal epoch } := by
  have hpending : Counted y Inserts { s with
      world := { s.world with
        provider := { s.world.provider with pendingEpoch := some epoch } } } :=
    ⟨h.granted, h.acknowledged_le, h.held, h.made, h.offered, h.kept, h.noted, h.socket⟩
  simp only [World.receiveEpochProposal]
  split
  · exact hpending.finishEpochHandoff false
  · exact hpending.checkSync.setHandoff

theorem readOnly_iff (h : Counted y Inserts s) {k : Nat} (hk : s.world.provider.socket = some k) :
    s.world.provider.readOnly = true ↔ s.granted k = .readOnly := by
  rw [Provider.readOnly, h.granted k hk]
  simp

/-- An answer raises the acknowledged version. -/
theorem covered_acknowledged {n : Counters D E} {v : Nat} {divergence : Bool}
    (hsaved : ∀ p ∈ n.covered, p.1 ≤ v → y.Contains n.server p.2) :
    ∀ p ∈ Counters.covered { n with
        acknowledgedVersion := max n.acknowledgedVersion v
        readOnlyDivergence := divergence },
      y.Contains n.server p.2 ∨ ∃ q ∈ n.covered, q.2 = p.2 ∧ q.1 ≤ p.1 := by
  intro p hp
  rcases List.mem_append.mp hp with hmade | hoffered
  · obtain ⟨q, hq, rfl⟩ := List.mem_map.mp hmade
    dsimp only
    split
    · rename_i hle
      obtain ⟨q', hq', heq, hle'⟩ := Counters.covered_of_made (n := n) hq (v := v)
        ((le_max_iff.mp hle).imp id Int.ofNat_le.mp)
      exact .inl (heq ▸ hsaved q' hq' hle')
    · obtain ⟨q', hq', heq, hle'⟩ := Counters.covered_of_made (n := n) hq (v := q.1) (.inr le_rfl)
      exact .inr ⟨q', hq', heq, hle'⟩
  · exact .inr ⟨p, List.mem_append_right _ hoffered, rfl, le_rfl⟩

/-- The version counts as acknowledged. -/
theorem acknowledged_full (h : Counted y Inserts s) {v : Nat}
    (hread : s.world.provider.readOnly = false) (hle : v ≤ s.world.provider.localVersion)
    (hsaved : ∀ p ∈ s.counters.covered, p.1 ≤ v → y.Contains s.server p.2) :
    Counted y Inserts { s with
      world := { s.world with
        provider := { s.world.provider with
          readOnlyDivergence := s.world.provider.readOnly && s.world.provider.readOnlyDivergence
          acknowledgedVersion := max s.world.provider.acknowledgedVersion v } } } where
  granted := h.granted
  acknowledged_le := by
    have := h.acknowledged_le
    show max s.world.provider.acknowledgedVersion (v : Int) ≤ s.world.provider.localVersion
    omega
  held := h.held
  made := h.made
  offered := h.offered
  kept := fun p hp => by
    show _ ∨ _ ∨ max s.world.provider.acknowledgedVersion (v : Int) < p.1 ∨ _
    by_cases hcovered : (p.1 : Int) ≤ s.world.provider.acknowledgedVersion ∨ p.1 ≤ v
    · obtain ⟨q, hq, heq, hqv⟩ := Counters.covered_of_made (n := s.counters) hp hcovered
      exact .inl (heq ▸ hsaved q hq hqv)
    · obtain ⟨hack, hv⟩ := not_or.mp hcovered
      exact .inr (.inr (.inl (by omega)))
  noted := fun e he _ =>
    .inl (hsaved (0, e) (Counters.covered_of_offered he) (Nat.zero_le v))
  socket := fun k hk => by
    have hfull : s.granted k = .full := by
      cases hlevel : s.granted k with
      | full => rfl
      | readOnly => exact absurd (hread.symm.trans ((h.readOnly_iff hk).mpr hlevel)) nofun
    refine ⟨(h.socket k hk).known, (h.socket k hk).probed, fun hl => ?_, fun hl => ?_⟩
    · exact ((h.socket k hk).full hl).weaken (covered_acknowledged hsaved)
    · exact absurd (hl.symm.trans hfull) nofun

/-- A read-only server has answered, which lifts no divergence. -/
theorem acknowledged_readOnly (h : Counted y Inserts s) {v : Nat}
    (hread : s.world.provider.readOnly = true) (hle : v ≤ s.world.provider.localVersion)
    (hnoted : s.world.provider.readOnlyDivergence = true ∨
      ∀ p ∈ s.world.made, Inserts p.2 → y.Contains s.server p.2) :
    Counted y Inserts { s with
      world := { s.world with
        provider := { s.world.provider with
          readOnlyDivergence := s.world.provider.readOnly && s.world.provider.readOnlyDivergence
          acknowledgedVersion := max s.world.provider.acknowledgedVersion v } }
      readOnlyAnswers := v :: s.readOnlyAnswers } where
  granted := h.granted
  acknowledged_le := by
    have := h.acknowledged_le
    show max s.world.provider.acknowledgedVersion (v : Int) ≤ s.world.provider.localVersion
    omega
  held := h.held
  made := h.made
  offered := h.offered
  kept := fun p hp => by
    show _ ∨ (_ && _) = true ∨ max s.world.provider.acknowledgedVersion (v : Int) < p.1 ∨ _
    rw [hread, Bool.true_and]
    rcases h.kept p hp with hin | hdiv | hlt | ⟨hins, v', hv', hpv⟩
    · exact .inl hin
    · exact .inr (.inl hdiv)
    · by_cases hpv : p.1 ≤ v
      · by_cases hins : Inserts p.2
        · rcases hnoted with hdiv | hin
          · exact .inr (.inl hdiv)
          · exact .inl (hin p hp hins)
        · exact .inr (.inr (.inr ⟨hins, v, List.mem_cons_self, hpv⟩))
      · exact .inr (.inr (.inl (by omega)))
    · exact .inr (.inr (.inr ⟨hins, v', List.mem_cons_of_mem _ hv', hpv⟩))
  noted := fun e he hins => by
    show _ ∨ (_ && _) = true
    rw [hread, Bool.true_and]
    exact h.noted e he hins
  socket := fun k hk => by
    have hlevel := (h.readOnly_iff hk).mp hread
    refine ⟨(h.socket k hk).known, (h.socket k hk).probed, fun hl => ?_, fun hl hr => ?_⟩
    · exact absurd (hl.symm.trans hlevel) nofun
    · show (_ && _) = true ∨ _
      rw [hread, Bool.true_and]
      exact (h.socket k hk).noted hl hr

theorem acknowledgeVersion_full (h : Counted y Inserts s) {v : Nat}
    (hread : s.world.provider.readOnly = false) (hle : v ≤ s.world.provider.localVersion)
    (hsaved : ∀ p ∈ s.counters.covered, p.1 ≤ v → y.Contains s.server p.2) :
    Counted y Inserts { s with world := s.world.acknowledgeVersion v } := by
  have hack := h.acknowledged_full hread hle hsaved
  simp only [World.acknowledgeVersion]
  split
  · exact hack.finishEpochHandoff false
  · exact hack

theorem acknowledgeVersion_readOnly (h : Counted y Inserts s) {v : Nat}
    (hread : s.world.provider.readOnly = true) (hle : v ≤ s.world.provider.localVersion)
    (hnoted : s.world.provider.readOnlyDivergence = true ∨
      ∀ p ∈ s.world.made, Inserts p.2 → y.Contains s.server p.2) :
    Counted y Inserts { s with
      world := s.world.acknowledgeVersion v
      readOnlyAnswers := v :: s.readOnlyAnswers } := by
  have hack := h.acknowledged_readOnly hread hle hnoted
  simp only [World.acknowledgeVersion]
  split
  · exact hack.finishEpochHandoff false
  · exact hack

/-! ### The handshake -/

/-- SyncStep1 counts as received, and what is queued carries every update. -/
theorem received_full (h : Counted y Inserts s) {structs : Bool}
    (hread : s.world.provider.readOnly = false)
    (hr : ∀ k, s.world.provider.socket = some k → (s.world.conns k).readyState ≠ .connecting)
    (hc : ∀ k, s.world.provider.socket = some k → (s.world.conns k).serving = true →
      (s.world.conns k).readyState = .opened → ∀ p ∈ s.counters.covered,
        Carried y s.server (s.world.conns k).up p.2) :
    Counted y Inserts { s with
      world := { s.world with
        provider := { s.world.provider with
          receivedServerSyncStep1 := true
          readOnlyDivergence := s.world.provider.readOnlyDivergence ||
            (s.world.provider.readOnly && structs) } } } := by
  rw [hread, Bool.false_and, Bool.or_false]
  refine ⟨h.granted, h.acknowledged_le, h.held, h.made, h.offered, h.kept, h.noted,
    fun k hk => ?_⟩
  refine ⟨(h.socket k hk).known, fun v hv => ⟨rfl, ((h.socket k hk).probed v hv).2⟩,
    fun hl => ?_, fun hl => ?_⟩
  · exact ((h.socket k hk).full hl).receive (hr k hk) (hc k hk)
  · exact absurd (hread.symm.trans ((h.readOnly_iff hk).mpr hl)) nofun

/-- What a read-only server lacks of the insertions is noted. -/
theorem received_readOnly (h : Counted y Inserts s) {structs : Bool}
    (hread : s.world.provider.readOnly = true)
    (hstructs : structs = true ∨ ∀ e ∈ s.edits, Inserts e → y.Contains s.server e) :
    Counted y Inserts { s with
      world := { s.world with
        provider := { s.world.provider with
          receivedServerSyncStep1 := true
          readOnlyDivergence := s.world.provider.readOnlyDivergence ||
            (s.world.provider.readOnly && structs) } }
      offered := s.edits } := by
  rw [hread, Bool.true_and]
  have hnoted : (s.world.provider.readOnlyDivergence || structs) = true ∨
      ∀ e ∈ s.edits, Inserts e → y.Contains s.server e :=
    hstructs.imp (fun hs => by rw [hs, Bool.or_true]) id
  refine ⟨h.granted, h.acknowledged_le, h.held, h.made, fun _ he => he, fun p hp => ?_,
    fun e he hins => ?_, fun k hk => ?_⟩
  · exact (h.kept p hp).imp id (Or.imp (fun hdiv => by show (_ || _) = true; rw [hdiv]; rfl) id)
  · exact hnoted.symm.imp (fun hin => hin e he hins) id
  · refine ⟨(h.socket k hk).known, fun v hv => ⟨rfl, ((h.socket k hk).probed v hv).2⟩,
      fun hl => ?_, fun _ _ => ?_⟩
    · exact absurd (hl.symm.trans ((h.readOnly_iff hk).mp hread)) nofun
    · exact hnoted.imp id fun hin p hp => hin p.2 (h.made p hp).2

theorem edit_of_covered (h : Counted y Inserts s) {p : Nat × E} (hp : p ∈ s.counters.covered) :
    p.2 ∈ s.edits := by
  rcases List.mem_append.mp hp with hmade | hoffered
  · obtain ⟨q, hq, rfl⟩ := List.mem_map.mp hmade
    exact (h.made q hq).2
  · obtain ⟨e, he, rfl⟩ := List.mem_map.mp hoffered
    exact h.offered e he

/-- The reply brings a full-access server every update, from the document its SyncStep1 was
of. -/
theorem receiveSyncStep1_full (hy : y.Lawful) (h : Counted y Inserts s) {d : D}
    (hread : s.world.provider.readOnly = false) (hgrow : Grows y d s.server)
    (hr : ∀ k, s.world.provider.socket = some k → (s.world.conns k).readyState ≠ .connecting) :
    Counted y Inserts { s with
      world := s.world.receiveSyncStep1 y (y.encodeStateVector d) } := by
  have hsent := h.send (m := .syncStep2 (y.encodeStateAsUpdate s.document
    (y.encodeStateVector d))) nofun
  have hdelivers : ∀ p ∈ s.counters.covered,
      Delivers y s.server (y.encodeStateAsUpdate s.document (y.encodeStateVector d)) p.2 :=
    fun p hp d' hd' => hy.encodeStateAsUpdate _ d d' p.2 (h.held _ (h.edit_of_covered hp))
      fun e he => hd' e (hgrow e he)
  unfold World.receiveSyncStep1
  refine Counted.checkSync (s := { s with world := _ }) (hsent.received_full ?_ ?_ ?_)
  · exact (s.world.send_readOnly _).trans hread
  · intro k hk
    dsimp only at hk ⊢
    rcases s.world.send_cases (.syncStep2 (y.encodeStateAsUpdate s.document
      (y.encodeStateVector d))) with ⟨hsame, -⟩ | hclose | ⟨j, hj, hpush⟩
    · rw [hsame] at hk ⊢
      exact hr k hk
    · rw [hclose, World.closeSocket_socket] at hk
      cases hk
    · rw [hpush] at hk ⊢
      obtain rfl : j = k := Option.some.inj (hj.symm.trans hk)
      rw [World.conns_push]
      exact hr j hj
  · intro k hk _ hopen p hp
    dsimp only at hk hopen ⊢
    rcases s.world.send_cases (.syncStep2 (y.encodeStateAsUpdate s.document
      (y.encodeStateVector d))) with ⟨hsame, hclosed⟩ | hclose | ⟨j, hj, hpush⟩
    · rw [hsame] at hk hopen
      exact absurd hopen (hclosed k hk)
    · rw [hclose, World.closeSocket_socket] at hk
      cases hk
    · rw [hpush] at hk
      obtain rfl : j = k := Option.some.inj (hj.symm.trans hk)
      refine .inr ⟨.syncStep2 (y.encodeStateAsUpdate s.document (y.encodeStateVector d)), ?_, _,
        rfl, ?_⟩
      · rw [hpush, World.conns_push]
        exact List.mem_append_right _ List.mem_cons_self
      · rw [hpush] at hp ⊢
        exact hdelivers p hp

/-- A read-only server is offered every update, and what it lacks is noted. -/
theorem receiveSyncStep1_readOnly (hstructs : y.SendsStructs Inserts) (h : Counted y Inserts s)
    {d : D} (hread : s.world.provider.readOnly = true) (hgrow : Grows y d s.server) :
    Counted y Inserts { s with
      world := s.world.receiveSyncStep1 y (y.encodeStateVector d)
      offered := s.edits } := by
  have hsent := h.send (m := .syncStep2 (y.encodeStateAsUpdate s.document
    (y.encodeStateVector d))) nofun
  unfold World.receiveSyncStep1
  refine Counted.checkSync (s := { s with world := _, offered := _ })
    (hsent.received_readOnly ((s.world.send_readOnly _).trans hread) ?_)
  by_cases hlacks : ∃ e ∈ s.edits, Inserts e ∧ ¬y.Contains d e
  · obtain ⟨e, he, hins, hnot⟩ := hlacks
    exact .inl (hstructs s.document d e hins (h.held e he) hnot)
  · right
    intro e he hins
    dsimp only [Session.server]
    rw [World.send_server]
    by_contra hnot
    exact hlacks ⟨e, he, hins, fun hin => hnot (hgrow e hin)⟩

theorem setDocument (hy : y.Lawful) (h : Counted y Inserts s) (u : U) :
    Counted y Inserts { s with
      world := { s.world with
        provider := { s.world.provider with document := y.applyUpdate s.document u } } } :=
  ⟨h.granted, h.acknowledged_le, fun e he => hy.applyUpdate _ u e (h.held e he), h.made, h.offered,
    h.kept, h.noted, h.socket⟩

/-! ### Updates and connections -/

theorem covered_edited {n : Counters D E} {e : E}
    (hle : n.acknowledgedVersion ≤ n.localVersion) :
    Counters.covered { n with
        localVersion := n.localVersion + 1
        made := (n.localVersion + 1, e) :: n.made } =
      (n.localVersion + 1, e) :: n.covered := by
  unfold Counters.covered
  dsimp only
  rw [List.map_cons, if_neg (by omega), List.cons_append]

/-- The document and the version after an update. -/
theorem edited (hy : y.Lawful) (h : Counted y Inserts s) {e : E}
    (hread : s.world.provider.readOnly = false)
    (he : ∀ k, s.world.provider.socket = some k → (s.world.conns k).serving = true →
      s.world.provider.receivedServerSyncStep1 = true → (s.world.conns k).readyState = .opened →
        Carried y s.server (s.world.conns k).up e) :
    Counted y Inserts { s with
      world := { s.world with
        provider := { s.world.provider with
          document := y.edit s.document e
          localVersion := s.world.provider.localVersion + 1 }
        made := (s.world.provider.localVersion + 1, e) :: s.world.made }
      edits := e :: s.edits } where
  granted := h.granted
  acknowledged_le := by
    have := h.acknowledged_le
    show s.world.provider.acknowledgedVersion ≤
      ((s.world.provider.localVersion + 1 : Nat) : Int)
    omega
  held := fun e' he' => by
    rcases List.mem_cons.mp he' with rfl | he'
    · exact hy.edit_self _ e'
    · exact hy.edit _ _ _ (h.held e' he')
  made := fun p hp => by
    rcases List.mem_cons.mp hp with rfl | hp
    · exact ⟨le_rfl, List.mem_cons_self⟩
    · exact ⟨Nat.le_succ_of_le (h.made p hp).1, List.mem_cons_of_mem _ (h.made p hp).2⟩
  offered := fun e' he' => List.mem_cons_of_mem _ (h.offered e' he')
  kept := fun p hp => by
    rcases List.mem_cons.mp hp with rfl | hp
    · have := h.acknowledged_le
      refine .inr (.inr (.inl ?_))
      show s.world.provider.acknowledgedVersion <
        ((s.world.provider.localVersion + 1 : Nat) : Int)
      omega
    · exact h.kept p hp
  noted := h.noted
  socket := fun k hk => by
    have hc := h.socket k hk
    refine ⟨hc.known, fun v hv => ?_, fun hl => ?_, fun hl => ?_⟩
    · obtain ⟨hr, hle⟩ := hc.probed v hv
      exact ⟨hr, Nat.le_succ_of_le hle⟩
    · have hcovered := covered_edited (n := s.counters) (e := e) h.acknowledged_le
      have hedit := (hc.full hl).edit (he k hk)
      show ConnOk y s.server (s.world.provider.localVersion + 1) _ _ _
      exact hcovered ▸ hedit
    · exact absurd (hread.symm.trans ((h.readOnly_iff hk).mpr hl)) nofun

/-- With a read-only token nothing but the document changes. -/
theorem edit_readOnly (hy : y.Lawful) (h : Counted y Inserts s)
    (hread : s.world.provider.readOnly = true) (e : E) : Counted y Inserts (s.edit y e) := by
  have hworld : s.edit y e = { s with
      world := { s.world with
        provider := { s.world.provider with document := y.edit s.document e } }
      edits := e :: s.edits } := by
    have hread' : { s.world.provider with document := y.edit s.document e }.readOnly = true :=
      hread
    unfold Session.edit World.documentUpdateListener
    simp only [hread, hread', if_true, ite_self]
  rw [hworld]
  refine ⟨h.granted, h.acknowledged_le, fun e' he' => ?_,
    fun p hp => ⟨(h.made p hp).1, List.mem_cons_of_mem _ (h.made p hp).2⟩,
    fun e' he' => List.mem_cons_of_mem _ (h.offered e' he'), h.kept, h.noted, h.socket⟩
  rcases List.mem_cons.mp he' with rfl | he'
  · exact hy.edit_self _ e'
  · exact hy.edit _ _ _ (h.held e' he')

theorem edit_full (hy : y.Lawful) (h : Counted y Inserts s)
    (hd : s.world.provider.destroyed = false) (hread : s.world.provider.readOnly = false) (e : E) :
    Counted y Inserts (s.edit y e) := by
  unfold Session.edit
  simp only [hread, Bool.false_eq_true, if_false]
  unfold World.documentUpdateListener
  rw [if_neg (by simp [hd]), if_neg (by simpa [Provider.readOnly] using hread)]
  refine Counted.checkSync (s := { s with world := _, edits := _ }) ?_
  unfold World.send
  split
  · rename_i k hsocket
    have hk : s.world.provider.socket = some k := hsocket
    split
    · rename_i hopen
      -- the socket is closing: the update is not sent, and no later probe is
      refine h.edited hy hread fun j hj _ _ hopen' => absurd hopen' ?_
      obtain rfl : k = j := Option.some.inj (hk.symm.trans hj)
      exact hopen
    · split
      · have hclosed := h.closeSocket
        rw [World.closeSocket_of_some hk] at hclosed
        rw [World.closeSocket_of_some hsocket]
        exact hclosed.edited (e := e) hy hread (by rintro _ ⟨⟩)
      · have hpushed : Counted y Inserts { s with
            world := s.world.push k (.update (y.update s.document e)) } :=
          h.setConn fun _ => (h.socket k hk).push (by rintro _ ⟨⟩)
        refine hpushed.edited hy hread fun j hj _ _ _ =>
          .inr ⟨.update (y.update s.document e), ?_, _, rfl, fun d _ => hy.update _ d e⟩
        obtain rfl : k = j := Option.some.inj (hk.symm.trans hj)
        dsimp only
        rw [World.conns_push]
        exact List.mem_append_right _ List.mem_cons_self
  · rename_i hnone
    have hk : s.world.provider.socket = none := hnone
    exact h.edited hy hread fun j hj =>
      absurd (hk.symm.trans hj).symm (Option.some_ne_none j)

theorem attemptConnection (h : Counted y Inserts s) {level : Authorization}
    (hlevel : s.world.provider.clientToken = some level) :
    Counted y Inserts { s with
      world := s.world.attemptConnection
      granted := Function.update s.granted s.world.fresh level } := by
  have hclosed := h.closeSocket
  have hfresh := World.closeSocket_fresh s.world
  refine ⟨fun k hk => ?_, hclosed.acknowledged_le, hclosed.held, hclosed.made, hclosed.offered,
    hclosed.kept, hclosed.noted, fun k hk => ?_⟩
  · obtain rfl : s.world.closeSocket.fresh = k := Option.some.inj hk
    show s.world.closeSocket.provider.clientToken =
      some (Function.update s.granted s.world.fresh level s.world.closeSocket.fresh)
    rw [hfresh, Function.update_self, World.closeSocket_clientToken, hlevel]
  · obtain rfl : s.world.closeSocket.fresh = k := Option.some.inj hk
    show ChannelOk y _ _ _
      (Function.update s.world.closeSocket.conns s.world.closeSocket.fresh
        ⟨.connecting, [], [], true⟩
        _)
    rw [Function.update_self]
    refine ⟨nofun, nofun, fun _ => ?_, nofun⟩
    exact ⟨nofun, nofun, fun _ pre v post hup => absurd hup.symm (by simp), nofun, fun _ => rfl⟩

theorem grow (h : Counted y Inserts s) {server : D} (hgrow : Grows y s.server server) :
    Counted y Inserts { s with world := { s.world with server := server } } where
  granted := h.granted
  acknowledged_le := h.acknowledged_le
  held := h.held
  made := h.made
  offered := h.offered
  kept := fun p hp => (h.kept p hp).imp (hgrow _) id
  noted := fun e he hins => (h.noted e he hins).imp (hgrow _) id
  socket := fun k hk => (h.socket k hk).grow hgrow

/-- The server applies an update of some connection. -/
theorem applied (hy : y.Lawful) (h : Counted y Inserts s) {k : Nat} {m : ClientMessage V U}
    {up : List (ClientMessage V U)} {u : U} (hup : (s.world.conns k).up = m :: up)
    (hm : m.payload = some u) :
    Counted y Inserts { s with
      world := { s.world.setConn k { s.world.conns k with up := up } with
        server := y.applyUpdate s.world.server u } } := by
  have hgrown := h.grow fun e => hy.applyUpdate s.server u e
  exact hgrown.setConn fun hk => (h.socket k hk).apply hy hup hm

theorem serve (hy : y.Lawful) (h : Counted y Inserts s) {k : Nat} {w : World D V U E}
    (hserve : s.serve y k = some w) : Counted y Inserts { s with world := w } := by
  have hserved : ∀ {w}, s.world.serve y k = some w → Counted y Inserts { s with world := w } := by
    intro w hserve
    simp only [World.serve] at hserve
    split at hserve
    · rename_i hs
      split at hserve
      · rename_i sv up hup
        cases hserve
        refine h.setConn fun hk => ((h.socket k hk).skip hup (.inl rfl)).setDown
          (fun sv' hsv' => .inl ?_) (fun v hv => ?_)
        · simpa using hsv'
        · simpa using hv
      · rename_i u up hup
        cases hserve
        exact h.applied hy hup rfl
      · rename_i u up hup
        cases hserve
        exact h.applied hy hup rfl
      · rename_i v up hup
        cases hserve
        exact h.setConn fun hk => (h.socket k hk).answer hs hup
      · cases hserve
        exact h.setConn fun hk => (h.socket k hk).stop
      · cases hserve
    · cases hserve
  simp only [Session.serve] at hserve
  split at hserve
  · rename_i hlevel hup
    split at hserve
    · cases hserve
      exact h.setConn fun hk => (h.socket k hk).skip hup (.inr hlevel)
    · cases hserve
  · rename_i hlevel hup
    split at hserve
    · cases hserve
      exact h.setConn fun hk => (h.socket k hk).skip hup (.inr hlevel)
    · cases hserve
  · exact hserved hserve

/-- The client gets a message. -/
theorem deliver (hy : y.Lawful) (hstructs : y.SendsStructs Inserts) (h : Counted y Inserts s)
    {k : Nat} {s' : Session D V U E} (hdeliver : s.deliver y k = some s') :
    Counted y Inserts s' := by
  obtain ⟨m, down, hdown, hready, hcases⟩ := Session.deliver_cases hdeliver
  have htaken : Counted y Inserts { s with
      world := s.world.setConn k { s.world.conns k with down := down } } :=
    h.setConn fun hk => (h.socket k hk).setDown
      (fun sv hsv => .inl (hdown ▸ List.mem_cons_of_mem m hsv))
      (fun v hv => hdown ▸ List.mem_cons_of_mem m hv)
  rcases hcases with ⟨-, rfl | rfl⟩ | ⟨hk, -, rfl⟩
  · exact htaken
  · exact htaken.closeSocket
  · have hchannel := h.socket k hk
    have hmem : m ∈ (s.world.conns k).down := hdown ▸ List.mem_cons_self
    have hlevel := h.readOnly_iff hk
    cases m with
    | syncStep1 sv =>
        obtain ⟨d, rfl, hgrow⟩ := hchannel.known sv hmem
        unfold Session.noteMessage
        dsimp only
        split
        · rename_i hread
          exact htaken.receiveSyncStep1_readOnly hstructs hread hgrow
        · rename_i hread
          refine htaken.receiveSyncStep1_full hy (Bool.eq_false_of_not_eq_true hread) hgrow
            fun j hj => ?_
          obtain rfl : k = j := Option.some.inj (hk.symm.trans hj)
          dsimp only [World.setConn]
          rw [Function.update_self]
          exact hready
    | syncStep2 u => exact htaken.setDocument hy u
    | update u => exact htaken.setDocument hy u
    | syncStatus v =>
        obtain ⟨hreceived, hle⟩ := hchannel.probed v (.inr hmem)
        unfold Session.noteMessage
        dsimp only
        split
        · rename_i hread
          exact htaken.acknowledgeVersion_readOnly hread hle
            (hchannel.noted (hlevel.mp hread) hreceived)
        · rename_i hread
          have hfull : s.granted k = .full := by
            cases hgranted : s.granted k with
            | full => rfl
            | readOnly => exact absurd (hlevel.mpr hgranted) hread
          exact htaken.acknowledgeVersion_full (Bool.eq_false_of_not_eq_true hread) hle
            ((hchannel.full hfull).answers v hmem).2
    | epochProposal epoch => exact htaken.receiveEpochProposal epoch

/-- Hashing the content changes nothing else. -/
theorem noteContentChanged [DecidableEq C] (serialize : D → C) {s₀ : Session D V U E}
    (h : Counted y Inserts s) : Counted y Inserts (s₀.noteContentChanged serialize s) := by
  unfold Session.noteContentChanged
  split
  · exact h
  · exact ⟨h.granted, h.acknowledged_le, h.held, h.made, h.offered, h.kept, h.noted, h.socket⟩

theorem advance (hy : y.Lawful) (hstructs : y.SendsStructs Inserts) (h : Counted y Inserts s)
    {event : Event U E} {s' : Session D V U E} (hadvance : s.advance y event = some s') :
    Counted y Inserts s' := by
  cases event with
  | edit e =>
      simp only [Session.advance] at hadvance
      split at hadvance
      · cases hadvance
      · rename_i hd
        cases hadvance
        cases hread : s.world.provider.readOnly with
        | true => exact h.edit_readOnly hy hread e
        | false => exact h.edit_full hy (Bool.eq_false_of_not_eq_true hd) hread e
  | remote u =>
      cases hadvance
      exact h.grow fun e => hy.applyUpdate s.server u e
  | mintToken a =>
      simp only [Session.advance] at hadvance
      split at hadvance
      · rename_i hnone
        cases hadvance
        -- no socket has the old level
        have hnone := Option.isNone_iff_eq_none.mp hnone
        exact ⟨fun k hk => absurd (hnone.symm.trans hk).symm (Option.some_ne_none k),
          h.acknowledged_le, h.held, h.made, h.offered, h.kept, h.noted, h.socket⟩
      · cases hadvance
  | dropToken =>
      simp only [Session.advance] at hadvance
      split at hadvance
      · rename_i hnone
        cases hadvance
        have hnone := Option.isNone_iff_eq_none.mp hnone
        exact ⟨fun k hk => absurd (hnone.symm.trans hk).symm (Option.some_ne_none k),
          h.acknowledged_le, h.held, h.made, h.offered, h.kept, h.noted, h.socket⟩
      · cases hadvance
  | attemptConnection =>
      simp only [Session.advance] at hadvance
      split at hadvance
      · rename_i level hlevel
        obtain ⟨w, hstep, rfl⟩ := Option.map_eq_some_iff.mp hadvance
        simp only [Sync.step] at hstep
        split at hstep
        · cases hstep
        · cases hstep
          exact h.attemptConnection hlevel
      · cases hadvance
  | «open» k =>
      obtain ⟨w, hstep, rfl⟩ := Option.map_eq_some_iff.mp hadvance
      simp only [Sync.step] at hstep
      split at hstep
      · rename_i hready
        have hopened := h.setConn fun hk => (h.socket k hk).opens hready
        split at hstep
        · cases hstep
          exact hopened.sendSyncStep1
        · cases hstep
          exact hopened
      · cases hstep
  | shut k =>
      cases hadvance
      exact h.setConn fun hk => (h.socket k hk).shut
  | failSocket =>
      cases hadvance
      exact h.closeSocket
  | setGate b =>
      cases hadvance
      exact ⟨h.granted, h.acknowledged_le, h.held, h.made, h.offered, h.kept, h.noted, h.socket⟩
  | setEpochHandler b =>
      cases hadvance
      exact ⟨h.granted, h.acknowledged_le, h.held, h.made, h.offered, h.kept, h.noted, h.socket⟩
  | serve k =>
      obtain ⟨w, hserve, rfl⟩ := Option.map_eq_some_iff.mp hadvance
      exact h.serve hy hserve
  | stopServing k =>
      cases hadvance
      exact h.setConn fun hk => (h.socket k hk).stop
  | serverSyncStep1 k =>
      cases hadvance
      -- the message carries the state vector of the server as it is now
      refine h.setConn fun hk => (h.socket k hk).setDown (fun sv hsv => ?_) (fun v hv => ?_)
      · simpa [Session.counters, Session.server] using hsv
      · simpa using hv
  | serverUpdate k u =>
      cases hadvance
      refine h.setConn fun hk => (h.socket k hk).setDown (fun sv hsv => .inl ?_) (fun v hv => ?_)
      · simpa using hsv
      · simpa using hv
  | serverProposal k epoch =>
      cases hadvance
      refine h.setConn fun hk => (h.socket k hk).setDown (fun sv hsv => .inl ?_) (fun v hv => ?_)
      · simpa using hsv
      · simpa using hv
  | lose k =>
      cases hadvance
      -- what is in flight is lost on both sides
      refine h.setConn fun hk => ⟨by rintro _ ⟨⟩, fun _ hv => ?_, fun _ =>
        ⟨by rintro _ ⟨⟩, by rintro _ ⟨⟩, by rintro ⟨⟩, by rintro ⟨⟩, by rintro ⟨⟩⟩, ?_⟩
      · rcases hv with hv | hv <;> exact (List.not_mem_nil hv).elim
      · exact (h.socket k hk).noted
  | deliver k => exact h.deliver hy hstructs hadvance
  | heartbeat =>
      obtain ⟨w, hstep, rfl⟩ := Option.map_eq_some_iff.mp hadvance
      simp only [Sync.step] at hstep
      split at hstep
      · cases hstep
        exact h.checkSync
      · cases hstep
        exact h.sendSyncStep1
  | epochFlushTimeout =>
      obtain ⟨w, hstep, rfl⟩ := Option.map_eq_some_iff.mp hadvance
      simp only [Sync.step] at hstep
      split at hstep
      · cases hstep
        exact h.finishEpochHandoff true
      · cases hstep
  | disconnect =>
      cases hadvance
      exact h.closeSocket
  | destroy =>
      cases hadvance
      have hc := h.closeSocket
      exact ⟨hc.granted, hc.acknowledged_le, hc.held, hc.made, hc.offered, hc.kept, hc.noted,
        hc.socket⟩

end Counted

/-! ## Nothing but an answer ends it -/

/-- What was pending is pending still. -/
structure Keeps (w w' : World D V U E) : Prop where
  readOnlyDivergence : w.provider.readOnlyDivergence = true →
    w'.provider.readOnlyDivergence = true
  acknowledgedVersion : w'.provider.acknowledgedVersion = w.provider.acknowledgedVersion
  localVersion : w.provider.localVersion ≤ w'.provider.localVersion

namespace Keeps

variable {w w' w'' : World D V U E}

theorem of_eq (h : w'.provider.readOnlyDivergence = w.provider.readOnlyDivergence)
    (hack : w'.provider.acknowledgedVersion = w.provider.acknowledgedVersion)
    (hversion : w'.provider.localVersion = w.provider.localVersion) : Keeps w w' :=
  ⟨fun hdiv => h.trans hdiv, hack, hversion.ge⟩

theorem trans (h : Keeps w w') (h' : Keeps w' w'') : Keeps w w'' :=
  ⟨fun hdiv => h'.readOnlyDivergence (h.readOnlyDivergence hdiv),
    h'.acknowledgedVersion.trans h.acknowledgedVersion, h.localVersion.trans h'.localVersion⟩

theorem hasLocalChanges (h : Keeps w w') (hw : w.provider.hasLocalChanges = true) :
    w'.provider.hasLocalChanges = true := by
  unfold Provider.hasLocalChanges Provider.awaitingAcknowledgement at hw ⊢
  rcases Bool.or_eq_true_iff.mp hw with hdiv | hlt
  · rw [h.readOnlyDivergence hdiv, Bool.true_or]
  · have hle := h.localVersion
    have hlt := of_decide_eq_true hlt
    rw [h.acknowledgedVersion, Bool.or_eq_true_iff]
    exact .inr (decide_eq_true (by omega))

theorem closeSocket (w : World D V U E) : Keeps w w.closeSocket := by
  unfold World.closeSocket
  split <;> exact .of_eq rfl rfl rfl

theorem send (w : World D V U E) (m : ClientMessage V U) : Keeps w (w.send m).1 := by
  rcases w.send_cases m with ⟨hsame, -⟩ | hclose | ⟨k, -, hpush⟩
  · rw [hsame]
    exact .of_eq rfl rfl rfl
  · rw [hclose]
    exact closeSocket w
  · rw [hpush]
    exact .of_eq rfl rfl rfl

theorem checkSync (w : World D V U E) : Keeps w w.checkSync := by
  unfold World.checkSync
  split
  · exact send w _
  · exact .of_eq rfl rfl rfl

theorem finishEpochHandoff (w : World D V U E) (timedOut : Bool) :
    Keeps w (w.finishEpochHandoff timedOut) := by
  have hclear : Keeps w { w with provider := w.provider.clearEpochHandoff } := .of_eq rfl rfl rfl
  simp only [World.finishEpochHandoff]
  split
  · split
    · exact hclear
    · split
      · rename_i epoch _ _ _
        have hsent := hclear.trans (send _ (.epochAcknowledgement epoch))
        split
        · exact ⟨hsent.1, hsent.2, hsent.3⟩
        · exact hsent
      · exact hclear.trans (closeSocket _)
  · exact hclear

theorem receiveEpochProposal (w : World D V U E) (epoch : Nat) :
    Keeps w (w.receiveEpochProposal epoch) := by
  have hpending : Keeps w { w with provider := { w.provider with pendingEpoch := some epoch } } :=
    .of_eq rfl rfl rfl
  simp only [World.receiveEpochProposal]
  split
  · exact hpending.trans (finishEpochHandoff _ false)
  · have hchecked := hpending.trans (checkSync _)
    exact ⟨hchecked.1, hchecked.2, hchecked.3⟩

theorem receiveSyncStep1 (y : Yjs D V U E) (w : World D V U E) (sv : V) :
    Keeps w (w.receiveSyncStep1 y sv) := by
  unfold World.receiveSyncStep1
  refine Keeps.trans ?_ (checkSync _)
  have hsent := send w (.syncStep2 (y.encodeStateAsUpdate w.provider.document sv))
  refine ⟨fun hdiv => ?_, hsent.2, hsent.3⟩
  show (_ || _) = true
  rw [hsent.1 hdiv, Bool.true_or]

theorem documentUpdateListener (w : World D V U E) (u : U) :
    Keeps w (w.documentUpdateListener u) := by
  unfold World.documentUpdateListener
  split
  · exact .of_eq rfl rfl rfl
  · split
    · exact .of_eq rfl rfl rfl
    · refine Keeps.trans ?_ (checkSync _)
      have hsent := send w (.update u)
      exact ⟨hsent.1, hsent.2, Nat.le_succ_of_le hsent.3⟩

/-- Every message but an answer. -/
theorem receiveMessage (y : Yjs D V U E) (w : World D V U E) {m : ServerMessage V U}
    (hm : ∀ v, m ≠ .syncStatus v) : Keeps w (w.receiveMessage y m) := by
  cases m with
  | syncStep1 sv => exact receiveSyncStep1 y w sv
  | syncStep2 u => exact .of_eq rfl rfl rfl
  | update u => exact .of_eq rfl rfl rfl
  | syncStatus v => exact absurd rfl (hm v)
  | epochProposal epoch => exact receiveEpochProposal w epoch

theorem serve {y : Yjs D V U E} {w w' : World D V U E} {k : Nat} (h : w.serve y k = some w') :
    Keeps w w' := by
  simp only [World.serve] at h
  split at h
  · split at h <;> cases h <;> exact .of_eq rfl rfl rfl
  · cases h

end Keeps

theorem Session.noteMessage_world (s : Session D V U E) (w : World D V U E)
    (m : ServerMessage V U) : (s.noteMessage w m).world = w := by
  unfold Session.noteMessage
  split
  · split <;> rfl
  · split <;> rfl
  · rfl

/-- A step keeps pending what was pending, or the client gets an answer. -/
theorem Session.advance_keeps {y : Yjs D V U E} {s s' : Session D V U E} {event : Event U E}
    (h : s.advance y event = some s') :
    Keeps s.world s'.world ∨ ∃ k v down, event = .deliver k ∧
      s.world.provider.socket = some k ∧ s.received k = some (.syncStatus v) ∧
      (s.world.conns k).down = .syncStatus v :: down ∧
      s'.world =
        (s.world.setConn k { s.world.conns k with down := down }).acknowledgeVersion v := by
  cases event with
  | edit e =>
      simp only [Session.advance] at h
      split at h
      · cases h
      · cases h
        have hedited : Keeps s.world { s.world with
            provider := { s.world.provider with document := y.edit s.document e }
            made := if s.world.provider.readOnly then s.world.made
              else (s.world.provider.localVersion + 1, e) :: s.world.made } :=
          .of_eq rfl rfl rfl
        exact .inl (hedited.trans (Keeps.documentUpdateListener _ _))
  | deliver k =>
      obtain ⟨m, down, hdown, -, hcases⟩ := Session.deliver_cases h
      have htaken : Keeps s.world (s.world.setConn k { s.world.conns k with down := down }) :=
        .of_eq rfl rfl rfl
      rcases hcases with ⟨-, rfl | rfl⟩ | ⟨hk, hreceived, rfl⟩
      · exact .inl htaken
      · exact .inl (htaken.trans (Keeps.closeSocket _))
      · rw [Session.noteMessage_world]
        by_cases hm : ∃ v, m = .syncStatus v
        · obtain ⟨v, rfl⟩ := hm
          exact .inr ⟨k, v, down, rfl, hk, hreceived, hdown, rfl⟩
        · exact .inl (htaken.trans (Keeps.receiveMessage y _ fun v hv => hm ⟨v, hv⟩))
  | serve k =>
      obtain ⟨w, hserve, rfl⟩ := Option.map_eq_some_iff.mp h
      simp only [Session.serve] at hserve
      left
      split at hserve
      · split at hserve <;> cases hserve
        exact .of_eq rfl rfl rfl
      · split at hserve <;> cases hserve
        exact .of_eq rfl rfl rfl
      · exact Keeps.serve hserve
  | attemptConnection =>
      simp only [Session.advance] at h
      split at h
      · obtain ⟨w, hstep, rfl⟩ := Option.map_eq_some_iff.mp h
        simp only [Sync.step] at hstep
        split at hstep <;> cases hstep
        have hclosed := Keeps.closeSocket s.world
        exact .inl ⟨hclosed.1, hclosed.2, hclosed.3⟩
      · cases h
  | mintToken | dropToken =>
      simp only [Session.advance] at h
      split at h <;> cases h
      exact .inl (.of_eq rfl rfl rfl)
  | «open» k =>
      obtain ⟨w, hstep, rfl⟩ := Option.map_eq_some_iff.mp h
      simp only [Sync.step] at hstep
      split at hstep
      · have hopened : Keeps s.world (s.world.setConn k
            { s.world.conns k with readyState := .opened }) := .of_eq rfl rfl rfl
        split at hstep <;> cases hstep
        · exact .inl (hopened.trans (Keeps.send _ _))
        · exact .inl hopened
      · cases hstep
  | heartbeat =>
      obtain ⟨w, hstep, rfl⟩ := Option.map_eq_some_iff.mp h
      simp only [Sync.step] at hstep
      split at hstep <;> cases hstep
      · exact .inl (Keeps.checkSync _)
      · exact .inl (Keeps.send _ _)
  | epochFlushTimeout =>
      obtain ⟨w, hstep, rfl⟩ := Option.map_eq_some_iff.mp h
      simp only [Sync.step] at hstep
      split at hstep <;> cases hstep
      exact .inl (Keeps.finishEpochHandoff _ true)
  | failSocket | disconnect =>
      cases h
      exact .inl (Keeps.closeSocket s.world)
  | destroy =>
      cases h
      have hclosed := Keeps.closeSocket s.world
      exact .inl ⟨hclosed.1, hclosed.2, hclosed.3⟩
  | remote _ | shut _ | setGate _ | setEpochHandler _ | stopServing _ | serverSyncStep1 _
    | serverUpdate _ _ | serverProposal _ _ | lose _ =>
      cases h
      exact .inl (.of_eq rfl rfl rfl)

/-- A read-only server's answer lifts no divergence. -/
theorem acknowledgeVersion_of_readOnly {w : World D V U E} (hread : w.provider.readOnly = true)
    (hdiv : w.provider.readOnlyDivergence = true) (v : Nat) :
    (w.acknowledgeVersion v).provider.hasLocalChanges = true := by
  have hack : ({ w.provider with
      readOnlyDivergence := w.provider.readOnly && w.provider.readOnlyDivergence
      acknowledgedVersion := max w.provider.acknowledgedVersion v } : Provider D).hasLocalChanges =
        true := by
    show ((_ && _) || _) = true
    rw [hread, hdiv]
    rfl
  simp only [World.acknowledgeVersion]
  split
  · exact (Keeps.finishEpochHandoff _ false).hasLocalChanges hack
  · exact hack

/-! ## Runs -/

/-- A provider that was just constructed, over a document that may hold offline edits. -/
structure Started (y : Yjs D V U E) (s : Session D V U E) : Prop where
  world : Constructed y s.world
  edits : s.edits = s.world.made.map Prod.snd
  offered : s.offered = []
  readOnlyAnswers : s.readOnlyAnswers = []

theorem Started.counted {y : Yjs D V U E} {Inserts : E → Prop} {s : Session D V U E}
    (h : Started y s) : Counted y Inserts s where
  granted := fun k hk => absurd (h.world.socket.symm.trans hk) nofun
  acknowledged_le := by simp [h.world.acknowledgedVersion, h.world.localVersion]
  held := fun e he => by
    rw [h.edits] at he
    obtain ⟨p, hp, rfl⟩ := List.mem_map.mp he
    exact (h.world.made p hp).2
  made := fun p hp => by
    rw [h.edits, (h.world.made p hp).1]
    exact ⟨Nat.zero_le _, List.mem_map_of_mem hp⟩
  offered := fun e he => absurd (h.offered ▸ he) List.not_mem_nil
  kept := fun p hp => by
    rw [h.world.acknowledgedVersion]
    exact .inr (.inr (.inl (by omega)))
  noted := fun e he => absurd (h.offered ▸ he) List.not_mem_nil
  socket := fun k hk => absurd (h.world.socket.symm.trans hk) nofun

section Runs

variable [DecidableEq C] {serializeRecoveryContent : D → C} {y : Yjs D V U E} {Inserts : E → Prop}
  {s s' : Session D V U E}

/-- The client's answer to a probe, after the handshake of its connection. What divergence was
noted only a full-access server's answer ends. -/
def Session.Answered (s : Session D V U E) (event : Event U E) : Prop :=
  ∃ k v, event = .deliver k ∧ s.received k = some (.syncStatus v) ∧
    s.world.provider.receivedServerSyncStep1 = true ∧
    (s.world.provider.readOnlyDivergence = true → s.granted k = .full)

/-- Updates that count stay pending, and are not taken for acknowledged. -/
structure StaysPending (serializeRecoveryContent : D → C) (y : Yjs D V U E) (Inserts : E → Prop)
    (s : Session D V U E) : Prop where
  pending : s.hasLocalChanges = false → s.Acknowledged y Inserts
  ended : ∀ event s', s.step serializeRecoveryContent y event = some s' →
    s.hasLocalChanges = true → s'.hasLocalChanges = false → s.Answered event
  retired : ∀ (doc : SyncedDoc) content,
    doc.retiredBaseline serializeRecoveryContent s = some content → s.Acknowledged y Inserts
  hibernated : ∀ (doc doc' : SyncedDoc) s₀, doc.prepareForHibernation s₀ doc' s = true →
    s.Acknowledged y Inserts
  recorded : ∀ (doc doc' : SyncedDoc) s₀ content,
    Reach (· = s₀) (Takes (Session.step serializeRecoveryContent y)) s →
    doc.recordAcknowledgedContent serializeRecoveryContent s₀ doc' s = some content →
    content = serializeRecoveryContent s.document ∧ s.Acknowledged y Inserts

theorem Session.noteMessage_contentRevision (s : Session D V U E) (w : World D V U E)
    (m : ServerMessage V U) : (s.noteMessage w m).contentRevision = s.contentRevision := by
  unfold Session.noteMessage
  split
  · split <;> rfl
  · split <;> rfl
  · rfl

theorem Session.advance_contentRevision {event : Event U E} (h : s.advance y event = some s') :
    s'.contentRevision = s.contentRevision := by
  cases event with
  | edit e =>
      simp only [Session.advance] at h
      split at h <;> cases h
      rfl
  | deliver k =>
      obtain ⟨m, down, -, -, hcases⟩ := Session.deliver_cases h
      rcases hcases with ⟨-, rfl | rfl⟩ | ⟨-, -, rfl⟩
      · rfl
      · rfl
      · rw [Session.noteMessage_contentRevision]
  | mintToken | dropToken =>
      simp only [Session.advance] at h
      split at h <;> cases h
      rfl
  | attemptConnection =>
      simp only [Session.advance] at h
      split at h
      · obtain ⟨w, -, rfl⟩ := Option.map_eq_some_iff.mp h
        rfl
      · cases h
  | «open» _ | heartbeat | epochFlushTimeout | serve _ =>
      obtain ⟨w, -, rfl⟩ := Option.map_eq_some_iff.mp h
      rfl
  | remote _ | shut _ | setGate _ | setEpochHandler _ | stopServing _ | serverSyncStep1 _
    | serverUpdate _ _ | serverProposal _ _ | lose _ | failSocket | disconnect | destroy =>
      cases h
      rfl

/-- Equal revisions are of equal content. -/
theorem sameContent_of_revision {s₀ : Session D V U E}
    (h : Reach (· = s₀) (Takes (Session.step serializeRecoveryContent y)) s) :
    s₀.contentRevision ≤ s.contentRevision ∧ (s.contentRevision = s₀.contentRevision →
      serializeRecoveryContent s.document = serializeRecoveryContent s₀.document) := by
  induction h with
  | start h =>
      rw [h]
      exact ⟨le_rfl, fun _ => rfl⟩
  | @step s s' event _ hstep ih =>
      obtain ⟨hle, hsame⟩ := ih
      obtain ⟨next, hadvance, rfl⟩ := Option.map_eq_some_iff.mp hstep
      have hrevision := Session.advance_contentRevision hadvance
      unfold Session.noteContentChanged
      split
      · rename_i hcontent
        rw [hrevision]
        exact ⟨hle, fun heq => hcontent.trans (hsame heq)⟩
      · refine ⟨Nat.le_succ_of_le hle, fun heq => ?_⟩
        have heq : s.contentRevision + 1 = s₀.contentRevision := heq
        omega

theorem Session.noteContentChanged_world (s s' : Session D V U E) :
    (s.noteContentChanged serializeRecoveryContent s').world = s'.world := by
  unfold Session.noteContentChanged
  split <;> rfl

theorem counted_of_reach (hy : y.Lawful) (hstructs : y.SendsStructs Inserts)
    (h : Reach (Started y) (Takes (Session.step serializeRecoveryContent y)) s) :
    Counted y Inserts s := by
  have hinit : ∀ s, Started y s → Counted y Inserts s := fun _ hs => hs.counted
  refine h.invariant hinit fun s event s' hs hstep => ?_
  obtain ⟨next, hadvance, rfl⟩ := Option.map_eq_some_iff.mp hstep
  exact (hs.advance hy hstructs hadvance).noteContentChanged serializeRecoveryContent

/-- What ends the pending state is an answer. -/
theorem Counted.answered (h : Counted y Inserts s) {event : Event U E}
    (hstep : s.step serializeRecoveryContent y event = some s')
    (hpending : s.hasLocalChanges = true) (hno : s'.hasLocalChanges = false) :
    s.Answered event := by
  obtain ⟨next, hadvance, rfl⟩ := Option.map_eq_some_iff.mp hstep
  rw [Session.hasLocalChanges, Session.noteContentChanged_world] at hno
  rcases Session.advance_keeps hadvance with
    hkeeps | ⟨k, v, down, rfl, hk, hreceived, hdown, hworld⟩
  · exact absurd (hno.symm.trans (hkeeps.hasLocalChanges hpending)) nofun
  · have hmem : .syncStatus v ∈ (s.world.conns k).down := hdown ▸ List.mem_cons_self
    refine ⟨k, v, rfl, hreceived, ((h.socket k hk).probed v (.inr hmem)).1, fun hdiv => ?_⟩
    cases hlevel : s.granted k with
    | full => rfl
    | readOnly =>
        have hread := (h.readOnly_iff hk).mpr hlevel
        rw [hworld] at hno
        have hkept := acknowledgeVersion_of_readOnly
          (w := s.world.setConn k { s.world.conns k with down := down }) hread hdiv v
        exact absurd (hno.symm.trans hkept) nofun

end Runs

/-- Documents that are the lists of their edits, of which the even ones insert. -/
def parityLists : Yjs (List Nat) (List Nat) (List Nat) Nat :=
  { editLists with hasStructs := fun u => u.any fun e => e % 2 == 0 }

theorem parityLists_lawful : parityLists.Lawful :=
  ⟨editLists_lawful.applyUpdate, editLists_lawful.edit, editLists_lawful.edit_self,
    editLists_lawful.update, editLists_lawful.encodeStateAsUpdate⟩

theorem parityLists_sendsStructs : parityLists.SendsStructs fun e => e % 2 = 0 := by
  intro d d₀ e hins he hnot
  refine List.any_eq_true.mpr ⟨e, List.mem_filter.mpr ⟨he, ?_⟩, beq_iff_eq.mpr hins⟩
  exact decide_eq_true hnot

/-- An empty document, at a server that has nothing. -/
def started : Session (List Nat) (List Nat) (List Nat) Nat where
  world := ⟨⟨[], false, none, none, 0, -1, false, false, none, false⟩,
    fun _ => ⟨.closed, [], [], false⟩, 0, false, true, [], [], []⟩
  granted := fun _ => .full
  contentRevision := 0
  edits := []
  offered := []
  readOnlyAnswers := []

theorem started_started : Started parityLists started where
  world := ⟨rfl, rfl, rfl, rfl, rfl, rfl, rfl, rfl, rfl, nofun, rfl⟩
  edits := rfl
  offered := rfl
  readOnlyAnswers := rfl

/-- A socket is opened, and everything sent on it is delivered. -/
def connection (k : Nat) : List (Event (List Nat) Nat) :=
  [.attemptConnection, .open k, .serverSyncStep1 k, .deliver k, .serve k, .serve k, .serve k,
    .deliver k, .deliver k]

end Realtime.Sync
