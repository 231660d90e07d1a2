import Mathlib.Tactic
import Realtime.Lib.Transition
import Realtime.Sync.Provider

/-!
# Saved means saved

What the current socket has in flight carries every local edit the server lacks, once
the server's SyncStep1 has been answered on it (`ConnOk.current`). A probe is queued
behind all of that, so its answer speaks for every edit up to its version.
-/

namespace Realtime.Sync

open Lib

variable {D V U E : Type}

section Carried

variable {y : Yjs D V U E} {d d' : D} {u : U} {e : E} {m : ClientMessage V U}
  {msgs rest : List (ClientMessage V U)}

def Grows (y : Yjs D V U E) (d d' : D) : Prop := ∀ e, y.Contains d e → y.Contains d' e

/-- The update brings the edit to any document that has grown from `d`. -/
def Delivers (y : Yjs D V U E) (d : D) (u : U) (e : E) : Prop :=
  ∀ d', Grows y d d' → y.Contains (y.applyUpdate d' u) e

/-- The server has the edit, or will once it has taken the messages. -/
def Carried (y : Yjs D V U E) (d : D) (msgs : List (ClientMessage V U)) (e : E) : Prop :=
  y.Contains d e ∨ ∃ m ∈ msgs, ∃ u, m.payload = some u ∧ Delivers y d u e

theorem Carried.grow (h : Carried y d msgs e) (hgrow : Grows y d d') : Carried y d' msgs e := by
  rcases h with h | ⟨m, hm, u, hu, h⟩
  · exact .inl (hgrow e h)
  · exact .inr ⟨m, hm, u, hu, fun d'' hd => h d'' fun e' he => hd e' (hgrow e' he)⟩

theorem Carried.append (h : Carried y d msgs e) (more : List (ClientMessage V U)) :
    Carried y d (msgs ++ more) e :=
  h.imp id fun ⟨m, hm, hu⟩ => ⟨m, List.mem_append_left _ hm, hu⟩

/-- The server has applied the first message. -/
theorem Carried.apply (hy : y.Lawful) (hm : m.payload = some u)
    (h : Carried y d (m :: rest) e) : Carried y (y.applyUpdate d u) rest e := by
  have hgrow : Grows y d (y.applyUpdate d u) := fun e' => hy.applyUpdate d u e'
  rcases h with h | ⟨m', hm', u', hu', h⟩
  · exact .inl (hgrow e h)
  · rcases List.mem_cons.mp hm' with rfl | hmem
    · obtain rfl : u = u' := Option.some.inj (hm.symm.trans hu')
      exact .inl (h d fun _ he => he)
    · exact Carried.grow (.inr ⟨m', hmem, u', hu', h⟩) hgrow

/-- The first message brought nothing. -/
theorem Carried.skip (hm : m.payload = none) (h : Carried y d (m :: rest) e) :
    Carried y d rest e := by
  rcases h with h | ⟨m', hm', u', hu', h⟩
  · exact .inl h
  · rcases List.mem_cons.mp hm' with rfl | hmem
    · cases hm.symm.trans hu'
    · exact .inr ⟨m', hmem, u', hu', h⟩

end Carried

/-! ## One socket -/

/-- What holds of the current socket. -/
structure ConnOk (y : Yjs D V U E) (server : D) (version : Nat) (made : List (Nat × E))
    (received : Bool) (c : Conn V U) : Prop where
  known : ∀ stateVector, .syncStep1 stateVector ∈ c.down →
    ∃ d, stateVector = y.encodeStateVector d ∧ Grows y d server
  answers : ∀ v, .syncStatus v ∈ c.down → v ≤ version ∧
    ∀ p ∈ made, p.1 ≤ v → y.Contains server p.2
  probes : c.serving = true → ∀ pre v post, c.up = pre ++ .syncStatus v :: post →
    v ≤ version ∧ ∀ p ∈ made, p.1 ≤ v → Carried y server pre p.2
  current : c.serving = true → received = true → c.readyState = .opened →
    ∀ p ∈ made, Carried y server c.up p.2
  connecting : c.readyState = .connecting → received = false

namespace ConnOk

variable {y : Yjs D V U E} {server server' : D} {version : Nat} {made : List (Nat × E)}
  {received : Bool} {c : Conn V U}

theorem grow (h : ConnOk y server version made received c) (hgrow : Grows y server server') :
    ConnOk y server' version made received c where
  known := fun sv hsv => by
    obtain ⟨d, hd, hle⟩ := h.known sv hsv
    exact ⟨d, hd, fun e he => hgrow e (hle e he)⟩
  answers := fun v hv =>
    ⟨(h.answers v hv).1, fun p hp hle => hgrow _ ((h.answers v hv).2 p hp hle)⟩
  probes := fun hs pre v post hup =>
    ⟨(h.probes hs pre v post hup).1,
      fun p hp hle => ((h.probes hs pre v post hup).2 p hp hle).grow hgrow⟩
  current := fun hs hr ho p hp => (h.current hs hr ho p hp).grow hgrow
  connecting := h.connecting

/-- A message is sent. A probe speaks for what is queued before it. -/
theorem push (h : ConnOk y server version made received c) {m : ClientMessage V U}
    (hm : ∀ v, m = .syncStatus v → c.serving = true → v ≤ version ∧
      ∀ p ∈ made, p.1 ≤ v → Carried y server c.up p.2) :
    ConnOk y server version made received { c with up := c.up ++ [m] } where
  known := h.known
  answers := h.answers
  probes := fun hs pre v post hup => by
    have hup : c.up ++ [m] = pre ++ .syncStatus v :: post := hup
    rcases List.eq_nil_or_concat post with rfl | ⟨post, last, rfl⟩
    · obtain ⟨rfl, hlast⟩ := List.append_inj' hup rfl
      exact hm v (List.singleton_inj.mp hlast) hs
    · rw [List.concat_eq_append, ← List.cons_append, ← List.append_assoc] at hup
      exact h.probes hs pre v post (List.append_inj' hup rfl).1
  current := fun hs hr ho p hp => (h.current hs hr ho p hp).append [m]
  connecting := h.connecting

/-- An edit is made, and what is queued carries it. -/
theorem edit (h : ConnOk y server version made received c) {e : E}
    (he : c.serving = true → received = true → c.readyState = .opened → Carried y server c.up e) :
    ConnOk y server (version + 1) ((version + 1, e) :: made) received c where
  known := h.known
  answers := fun v hv => by
    obtain ⟨hle, hsaved⟩ := h.answers v hv
    refine ⟨by omega, fun p hp hpv => ?_⟩
    rcases List.mem_cons.mp hp with rfl | hp
    · exact absurd hpv (by simp only []; omega)
    · exact hsaved p hp hpv
  probes := fun hs pre v post hup => by
    obtain ⟨hle, hcarried⟩ := h.probes hs pre v post hup
    refine ⟨by omega, fun p hp hpv => ?_⟩
    -- a probe that is under way does not speak for the new edit
    rcases List.mem_cons.mp hp with rfl | hp
    · exact absurd hpv (by simp only []; omega)
    · exact hcarried p hp hpv
  current := fun hs hr ho p hp => by
    rcases List.mem_cons.mp hp with rfl | hp
    · exact he hs hr ho
    · exact h.current hs hr ho p hp
  connecting := h.connecting

/-- SyncStep1 has been answered. -/
theorem receive (h : ConnOk y server version made received c)
    (hr : c.readyState ≠ .connecting)
    (hc : c.serving = true → c.readyState = .opened → ∀ p ∈ made, Carried y server c.up p.2) :
    ConnOk y server version made true c :=
  ⟨h.known, h.answers, h.probes, fun hs _ ho => hc hs ho, fun hcon => absurd hcon hr⟩

/-- Nothing has been received on a socket that opens. -/
theorem opens (h : ConnOk y server version made received c) (hr : c.readyState = .connecting) :
    ConnOk y server version made received { c with readyState := .opened } :=
  ⟨h.known, h.answers, h.probes,
    fun _ hrec => absurd ((h.connecting hr).symm.trans hrec) (by simp), nofun⟩

theorem shut (h : ConnOk y server version made received c) :
    ConnOk y server version made received { c with readyState := .closed } :=
  ⟨h.known, h.answers, h.probes, nofun, nofun⟩

/-- The server sends what is neither SyncStep1 nor an answer. -/
theorem setDown (h : ConnOk y server version made received c) {down : List (ServerMessage V U)}
    (hknown : ∀ sv, .syncStep1 sv ∈ down →
      .syncStep1 sv ∈ c.down ∨ sv = y.encodeStateVector server)
    (hanswers : ∀ v, .syncStatus v ∈ down → .syncStatus v ∈ c.down) :
    ConnOk y server version made received { c with down := down } where
  known := fun sv hsv => by
    rcases hknown sv hsv with hold | hnew
    · exact h.known sv hold
    · exact ⟨server, hnew, fun _ he => he⟩
  answers := fun v hv => h.answers v (hanswers v hv)
  probes := h.probes
  current := h.current
  connecting := h.connecting

theorem stop (h : ConnOk y server version made received c) :
    ConnOk y server version made received { c with up := [], serving := false } :=
  ⟨h.known, h.answers, nofun, nofun, h.connecting⟩

/-- The server takes a message that brings nothing. -/
theorem skip (h : ConnOk y server version made received c) {m : ClientMessage V U}
    {up : List (ClientMessage V U)} (hup : c.up = m :: up) (hm : m.payload = none) :
    ConnOk y server version made received { c with up := up } where
  known := h.known
  answers := h.answers
  probes := fun hs pre v post heq => by
    have heq : up = pre ++ .syncStatus v :: post := heq
    obtain ⟨hle, hcarried⟩ := h.probes hs (m :: pre) v post (by rw [hup, heq, List.cons_append])
    exact ⟨hle, fun p hp hpv => (hcarried p hp hpv).skip hm⟩
  current := fun hs hr ho p hp => by
    have hcarried := h.current hs hr ho p hp
    rw [hup] at hcarried
    exact hcarried.skip hm
  connecting := h.connecting

/-- The server applies an update. -/
theorem apply (hy : y.Lawful) (h : ConnOk y server version made received c)
    {m : ClientMessage V U} {up : List (ClientMessage V U)} {u : U} (hup : c.up = m :: up)
    (hm : m.payload = some u) :
    ConnOk y (y.applyUpdate server u) version made received { c with up := up } where
  known := (h.grow fun e => hy.applyUpdate server u e).known
  answers := (h.grow fun e => hy.applyUpdate server u e).answers
  probes := fun hs pre v post heq => by
    have heq : up = pre ++ .syncStatus v :: post := heq
    obtain ⟨hle, hcarried⟩ := h.probes hs (m :: pre) v post (by rw [hup, heq, List.cons_append])
    exact ⟨hle, fun p hp hpv => (hcarried p hp hpv).apply hy hm⟩
  current := fun hs hr ho p hp => by
    have hcarried := h.current hs hr ho p hp
    rw [hup] at hcarried
    exact hcarried.apply hy hm
  connecting := h.connecting

/-- The server answers a probe: nothing is queued before it any more. -/
theorem answer (h : ConnOk y server version made received c) {v : Nat}
    {up : List (ClientMessage V U)} (hs : c.serving = true) (hup : c.up = .syncStatus v :: up) :
    ConnOk y server version made received
      { c with up := up, down := c.down ++ [.syncStatus v] } := by
  have hskip := h.skip hup rfl
  obtain ⟨hle, hcarried⟩ := h.probes hs [] v up hup
  refine ⟨fun sv hsv => h.known sv ?_, fun v' hv' => ?_, hskip.probes, hskip.current,
    h.connecting⟩
  · simpa using hsv
  · rcases List.mem_append.mp hv' with hold | hnew
    · exact h.answers v' hold
    · obtain rfl : v' = v := by simpa using hnew
      refine ⟨hle, fun p hp hpv => ?_⟩
      rcases hcarried p hp hpv with hin | ⟨m, hm, -⟩
      · exact hin
      · exact absurd hm List.not_mem_nil

end ConnOk

/-! ## The provider -/

/-- What the provider counts as saved is in the document of the server. -/
structure Inv (y : Yjs D V U E) (w : World D V U E) : Prop where
  token : w.provider.readOnly = false
  divergence : w.provider.readOnlyDivergence = false
  acknowledged_le : w.provider.acknowledgedVersion ≤ w.provider.localVersion
  held : ∀ p ∈ w.made, p.1 ≤ w.provider.localVersion ∧ y.Contains w.provider.document p.2
  saved : ∀ p ∈ w.made, (p.1 : Int) ≤ w.provider.acknowledgedVersion → y.Contains w.server p.2
  socket : ∀ k, w.provider.socket = some k → ConnOk y w.server w.provider.localVersion w.made
    w.provider.receivedServerSyncStep1 (w.conns k)
  handoffs : ∀ a ∈ w.handoffs, a.timedOut = false →
    a.hasLocalChanges = false ∧ ∀ e ∈ a.made, y.Contains w.server e

theorem World.closeSocket_of_some {w : World D V U E} {k : Nat}
    (hk : w.provider.socket = some k) : w.closeSocket =
      { w.setConn k { w.conns k with readyState := .closed } with
        provider := { w.provider.clearEpochHandoff with socket := none } } := by
  unfold World.closeSocket
  rw [hk]

theorem World.closeSocket_server (w : World D V U E) : w.closeSocket.server = w.server := by
  unfold World.closeSocket
  split <;> rfl

theorem World.send_server (w : World D V U E) (m : ClientMessage V U) :
    (w.send m).1.server = w.server := by
  unfold World.send
  split
  · split
    · rfl
    · split
      · exact w.closeSocket_server
      · rfl
  · rfl

namespace Inv

variable {y : Yjs D V U E} {w : World D V U E}

/-- Nothing is unsaved when the provider says so. -/
theorem saved_of_not_hasLocalChanges (h : Inv y w) (hno : w.provider.hasLocalChanges = false) :
    ∀ p ∈ w.made, y.Contains w.server p.2 := by
  intro p hp
  have hle : w.provider.localVersion ≤ w.provider.acknowledgedVersion := by
    simp only [Provider.hasLocalChanges, Provider.awaitingAcknowledgement, Bool.or_eq_false_iff,
      decide_eq_false_iff_not, not_lt] at hno
    exact hno.2
  have hmade := (h.held p hp).1
  exact h.saved p hp (by omega)

/-- The server's document grows. -/
theorem grow (h : Inv y w) {server : D} (hgrow : Grows y w.server server) :
    Inv y { w with server := server } where
  token := h.token
  divergence := h.divergence
  acknowledged_le := h.acknowledged_le
  held := h.held
  saved := fun p hp hle => hgrow _ (h.saved p hp hle)
  socket := fun k hk => (h.socket k hk).grow hgrow
  handoffs := fun a ha ht =>
    ⟨(h.handoffs a ha ht).1, fun e he => hgrow e ((h.handoffs a ha ht).2 e he)⟩

/-- A socket other than the current one, or the current one in a way that keeps what
holds of it. -/
theorem setConn (h : Inv y w) {k : Nat} {c : Conn V U}
    (hc : w.provider.socket = some k → ConnOk y w.server w.provider.localVersion w.made
      w.provider.receivedServerSyncStep1 c) : Inv y (w.setConn k c) where
  token := h.token
  divergence := h.divergence
  acknowledged_le := h.acknowledged_le
  held := h.held
  saved := h.saved
  socket := fun j hj => by
    show ConnOk y w.server _ w.made _ (Function.update w.conns k c j)
    by_cases hjk : j = k
    · subst hjk
      rw [Function.update_self]
      exact hc hj
    · rw [Function.update_of_ne hjk]
      exact h.socket j hj
  handoffs := h.handoffs

theorem clearEpochHandoff (h : Inv y w) :
    Inv y { w with provider := w.provider.clearEpochHandoff } :=
  ⟨h.token, h.divergence, h.acknowledged_le, h.held, h.saved, h.socket, h.handoffs⟩

theorem closeSocket (h : Inv y w) : Inv y w.closeSocket := by
  unfold World.closeSocket
  split
  · exact ⟨h.token, h.divergence, h.acknowledged_le, h.held, h.saved, nofun, h.handoffs⟩
  · exact h.clearEpochHandoff

/-- A probe may be sent with the current version when the queue carries every edit. -/
theorem send (h : Inv y w) {m : ClientMessage V U}
    (hm : ∀ k v, w.provider.socket = some k → (w.conns k).readyState = .opened →
      m = .syncStatus v → (w.conns k).serving = true → v ≤ w.provider.localVersion ∧
        ∀ p ∈ w.made, p.1 ≤ v → Carried y w.server (w.conns k).up p.2) :
    Inv y (w.send m).1 := by
  unfold World.send
  split
  · rename_i k hk
    split
    · exact h
    · rename_i hopen
      split
      · exact h.closeSocket
      · refine h.setConn fun _ => (h.socket k hk).push fun v => ?_
        exact hm k v hk (not_not.mp hopen)
  · exact h

theorem sendSyncStep1 (h : Inv y w) : Inv y (w.sendSyncStep1 y) :=
  h.send fun _ _ _ _ hm => nomatch hm

theorem checkSync (h : Inv y w) : Inv y w.checkSync := by
  unfold World.checkSync
  split
  · rename_i hreceived
    refine h.send fun k v hk hopen hm hs => ?_
    obtain rfl : w.provider.localVersion = v := ClientMessage.syncStatus.inj hm
    exact ⟨le_rfl, fun p hp _ => (h.socket k hk).current hs hreceived hopen p hp⟩
  · exact h

/-! ### Edits -/

/-- The document and the version after an edit. -/
theorem edited (hy : y.Lawful) (h : Inv y w) {e : E}
    (he : ∀ k, w.provider.socket = some k → (w.conns k).serving = true →
      w.provider.receivedServerSyncStep1 = true → (w.conns k).readyState = .opened →
        Carried y w.server (w.conns k).up e) :
    Inv y { w with
      provider := { w.provider with
        document := y.edit w.provider.document e
        localVersion := w.provider.localVersion + 1 }
      made := (w.provider.localVersion + 1, e) :: w.made } where
  token := h.token
  divergence := h.divergence
  acknowledged_le := by
    have := h.acknowledged_le
    show w.provider.acknowledgedVersion ≤ ((w.provider.localVersion + 1 : Nat) : Int)
    omega
  held := fun p hp => by
    rcases List.mem_cons.mp hp with rfl | hp
    · exact ⟨le_rfl, hy.edit_self _ e⟩
    · exact ⟨Nat.le_succ_of_le (h.held p hp).1, hy.edit _ _ _ (h.held p hp).2⟩
  saved := fun p hp hle => by
    rcases List.mem_cons.mp hp with rfl | hp
    · have := h.acknowledged_le
      have hle : ((w.provider.localVersion + 1 : Nat) : Int) ≤ w.provider.acknowledgedVersion := hle
      omega
    · exact h.saved p hp hle
  socket := fun k hk => (h.socket k hk).edit (he k hk)
  handoffs := h.handoffs

theorem edit (hy : y.Lawful) (h : Inv y w) (hd : w.provider.destroyed = false) {e : E} :
    Inv y (World.documentUpdateListener { w with
      provider := { w.provider with document := y.edit w.provider.document e }
      made := (w.provider.localVersion + 1, e) :: w.made }
      (y.update w.provider.document e)) := by
  unfold World.documentUpdateListener
  rw [if_neg (by simp [hd]), if_neg (by simpa [Provider.readOnly] using h.token)]
  refine Inv.checkSync ?_
  unfold World.send
  split
  · rename_i k hsocket
    have hk : w.provider.socket = some k := hsocket
    split
    · rename_i hopen
      -- the socket is closing: the update is not sent, and no later probe is
      refine h.edited hy fun j hj _ _ hopen' => absurd hopen' ?_
      obtain rfl : k = j := Option.some.inj (hk.symm.trans hj)
      exact hopen
    · split
      · have hclosed : Inv y w.closeSocket := h.closeSocket
        rw [World.closeSocket_of_some hk] at hclosed
        rw [World.closeSocket_of_some hsocket]
        exact hclosed.edited (e := e) hy nofun
      · have hpushed : Inv y (w.push k (.update (y.update w.provider.document e))) :=
          h.setConn fun _ => (h.socket k hk).push (fun _ hm => nomatch hm)
        refine hpushed.edited hy fun j hj _ _ _ =>
          .inr ⟨.update (y.update w.provider.document e), ?_, _, rfl, fun d _ => hy.update _ d e⟩
        obtain rfl : k = j := Option.some.inj (hk.symm.trans hj)
        simp [World.push, World.setConn]
  · rename_i hk
    have hk : w.provider.socket = none := hk
    exact h.edited hy fun j hj => absurd (hk.symm.trans hj) nofun

/-! ### Messages of the server -/

/-- Fields of the provider change that the invariant does not look at. -/
theorem setHandoff (h : Inv y w) {pendingEpoch : Option Nat} {epochFlushTimer : Bool} :
    Inv y { w with
      provider := { w.provider with
        pendingEpoch := pendingEpoch
        epochFlushTimer := epochFlushTimer } } :=
  ⟨h.token, h.divergence, h.acknowledged_le, h.held, h.saved, h.socket, h.handoffs⟩

theorem recordHandoff (h : Inv y w) {a : Handoff E}
    (ha : a.timedOut = false → a.hasLocalChanges = false ∧ ∀ e ∈ a.made, y.Contains w.server e) :
    Inv y { w with handoffs := a :: w.handoffs } where
  token := h.token
  divergence := h.divergence
  acknowledged_le := h.acknowledged_le
  held := h.held
  saved := h.saved
  socket := h.socket
  handoffs := fun b hb => by
    rcases List.mem_cons.mp hb with rfl | hb
    · exact ha
    · exact h.handoffs b hb

/-- The acknowledgement goes out with nothing unsaved, or because the time is up. -/
theorem finishEpochHandoff (h : Inv y w) {timedOut : Bool}
    (hno : timedOut = false → w.provider.hasLocalChanges = false) :
    Inv y (w.finishEpochHandoff timedOut) := by
  have hclear := h.clearEpochHandoff
  simp only [World.finishEpochHandoff]
  split
  · split
    · exact hclear
    · split
      · rename_i epoch _ _ _
        have hsent := hclear.send (m := .epochAcknowledgement epoch) (fun _ _ _ _ hm => nomatch hm)
        split
        · refine hsent.recordHandoff fun ht => ⟨hno ht, fun e he => ?_⟩
          obtain ⟨p, hp, rfl⟩ := List.mem_map.mp he
          rw [World.send_server]
          exact h.saved_of_not_hasLocalChanges (hno ht) p hp
        · exact hsent
      · exact hclear.closeSocket
  · exact hclear

/-- The server answers a probe. -/
theorem acknowledgeVersion (h : Inv y w) {version : Nat} (hle : version ≤ w.provider.localVersion)
    (hsaved : ∀ p ∈ w.made, p.1 ≤ version → y.Contains w.server p.2) :
    Inv y (w.acknowledgeVersion version) := by
  have hack : Inv y { w with
      provider := { w.provider with
        readOnlyDivergence := w.provider.readOnly && w.provider.readOnlyDivergence
        acknowledgedVersion := max w.provider.acknowledgedVersion version } } := by
    refine ⟨h.token, by simp [h.token], ?_, h.held, fun p hp hmax => ?_, h.socket, h.handoffs⟩
    · have := h.acknowledged_le
      show max w.provider.acknowledgedVersion (version : Int) ≤ w.provider.localVersion
      omega
    · have hmax : (p.1 : Int) ≤ max w.provider.acknowledgedVersion version := hmax
      rcases le_max_iff.mp hmax with hold | hnew
      · exact h.saved p hp hold
      · exact hsaved p hp (by omega)
  simp only [World.acknowledgeVersion]
  split
  · rename_i hpending
    refine hack.finishEpochHandoff fun _ => ?_
    simpa using (Bool.and_eq_true_iff.mp hpending).2
  · exact hack

theorem receiveEpochProposal (h : Inv y w) {epoch : Nat} :
    Inv y (w.receiveEpochProposal epoch) := by
  have hpending : Inv y { w with provider := { w.provider with pendingEpoch := some epoch } } :=
    h.setHandoff
  simp only [World.receiveEpochProposal]
  split
  · rename_i hno
    refine hpending.finishEpochHandoff fun _ => ?_
    -- with full access the acknowledgement does not go out early for another reason
    rcases Bool.or_eq_true_iff.mp hno with hno | hread
    · simpa using hno
    · exact absurd (h.token.symm.trans hread) (by decide)
  · exact hpending.checkSync.setHandoff

/-- SyncStep1 counts as received, and what is queued carries every edit. -/
theorem received (h : Inv y w) {structs : Bool}
    (hr : ∀ k, w.provider.socket = some k → (w.conns k).readyState ≠ .connecting)
    (hc : ∀ k, w.provider.socket = some k → (w.conns k).serving = true →
      (w.conns k).readyState = .opened → ∀ p ∈ w.made,
        Carried y w.server (w.conns k).up p.2) :
    Inv y { w with
      provider := { w.provider with
        receivedServerSyncStep1 := true
        readOnlyDivergence := w.provider.readOnlyDivergence || (w.provider.readOnly && structs) } }
    where
  token := h.token
  divergence := by
    show (w.provider.readOnlyDivergence || (w.provider.readOnly && structs)) = false
    simp [h.token, h.divergence]
  acknowledged_le := h.acknowledged_le
  held := h.held
  saved := h.saved
  socket := fun k hk => (h.socket k hk).receive (hr k hk) (hc k hk)
  handoffs := h.handoffs

/-- The reply brings the server every edit, from the document its SyncStep1 was of. -/
theorem receiveSyncStep1 (hy : y.Lawful) (h : Inv y w) {d : D} (hgrow : Grows y d w.server)
    (hr : ∀ k, w.provider.socket = some k → (w.conns k).readyState ≠ .connecting) :
    Inv y (w.receiveSyncStep1 y (y.encodeStateVector d)) := by
  simp only [World.receiveSyncStep1]
  refine Inv.checkSync ?_
  unfold World.send
  split
  · rename_i k hk
    split
    · rename_i hopen
      refine h.received hr fun j hj _ hopen' => absurd hopen' ?_
      obtain rfl : k = j := Option.some.inj (hk.symm.trans hj)
      exact hopen
    · split
      · have hclosed : Inv y w.closeSocket := h.closeSocket
        rw [World.closeSocket_of_some hk] at hclosed ⊢
        exact hclosed.received nofun nofun
      · have hpushed : Inv y (w.push k (.syncStep2
            (y.encodeStateAsUpdate w.provider.document (y.encodeStateVector d)))) :=
          h.setConn fun _ => (h.socket k hk).push (fun _ hm => nomatch hm)
        have hready : ∀ j, w.provider.socket = some j →
            ((w.push k (.syncStep2 (y.encodeStateAsUpdate w.provider.document
              (y.encodeStateVector d)))).conns j).readyState ≠ .connecting := by
          intro j hj
          obtain rfl : k = j := Option.some.inj (hk.symm.trans hj)
          simpa [World.push, World.setConn] using hr k hk
        refine hpushed.received hready fun j hj _ _ p hp => .inr ⟨.syncStep2
          (y.encodeStateAsUpdate w.provider.document (y.encodeStateVector d)), ?_, _, rfl,
          fun d' hd' => ?_⟩
        · obtain rfl : k = j := Option.some.inj (hk.symm.trans hj)
          simp [World.push, World.setConn]
        · exact hy.encodeStateAsUpdate _ d d' p.2 (h.held p hp).2 fun e he => hd' e (hgrow e he)
  · rename_i hk
    exact h.received hr fun j hj => absurd (hk.symm.trans hj) nofun

theorem setDocument (h : Inv y w) {d : D} (hd : Grows y w.provider.document d) :
    Inv y { w with provider := { w.provider with document := d } } :=
  ⟨h.token, h.divergence, h.acknowledged_le,
    fun p hp => ⟨(h.held p hp).1, hd _ (h.held p hp).2⟩, h.saved, h.socket, h.handoffs⟩

/-- The current socket delivers a message. -/
theorem receiveMessage (hy : y.Lawful) (h : Inv y w) {m : ServerMessage V U}
    (hr : ∀ k, w.provider.socket = some k → (w.conns k).readyState ≠ .connecting)
    (hknown : ∀ sv, m = .syncStep1 sv →
      ∃ d, sv = y.encodeStateVector d ∧ Grows y d w.server)
    (hanswer : ∀ v, m = .syncStatus v → v ≤ w.provider.localVersion ∧
      ∀ p ∈ w.made, p.1 ≤ v → y.Contains w.server p.2) :
    Inv y (w.receiveMessage y m) := by
  cases m with
  | syncStep1 sv =>
      obtain ⟨d, rfl, hgrow⟩ := hknown sv rfl
      exact h.receiveSyncStep1 hy hgrow hr
  | syncStep2 u => exact h.setDocument fun e => hy.applyUpdate _ u e
  | update u => exact h.setDocument fun e => hy.applyUpdate _ u e
  | syncStatus v => exact h.acknowledgeVersion (hanswer v rfl).1 (hanswer v rfl).2
  | epochProposal epoch => exact h.receiveEpochProposal

theorem attemptConnection (h : Inv y w) : Inv y w.attemptConnection := by
  have hclosed := h.closeSocket
  refine ⟨hclosed.token, hclosed.divergence, hclosed.acknowledged_le, hclosed.held, hclosed.saved,
    fun k hk => ?_, hclosed.handoffs⟩
  obtain rfl : w.closeSocket.fresh = k := Option.some.inj hk
  show ConnOk y _ _ _ false
    (Function.update w.closeSocket.conns w.closeSocket.fresh ⟨.connecting, [], [], true⟩ _)
  rw [Function.update_self]
  exact ⟨nofun, nofun, fun _ pre v post hup => absurd hup.symm (by simp), nofun, fun _ => rfl⟩

/-- The server applies an update of some connection. -/
theorem applied (hy : y.Lawful) (h : Inv y w) {k : Nat} {m : ClientMessage V U}
    {up : List (ClientMessage V U)} {u : U} (hup : (w.conns k).up = m :: up)
    (hm : m.payload = some u) :
    Inv y { w.setConn k { w.conns k with up := up } with
      server := y.applyUpdate w.server u } := by
  have hgrown : Inv y { w with server := y.applyUpdate w.server u } :=
    h.grow fun e => hy.applyUpdate w.server u e
  exact hgrown.setConn fun hk => (h.socket k hk).apply hy hup hm

/-- The server takes a message of some connection. -/
theorem serve (hy : y.Lawful) (h : Inv y w) {k : Nat} {w' : World D V U E}
    (hserve : w.serve y k = some w') : Inv y w' := by
  simp only [World.serve] at hserve
  split at hserve
  · rename_i hs
    split at hserve
    · rename_i sv up hup
      cases hserve
      refine h.setConn fun hk => ((h.socket k hk).skip hup rfl).setDown (fun sv' hsv' => .inl ?_)
        (fun v hv => ?_)
      · simpa using hsv'
      · simpa using hv
    · rename_i u up hup
      cases hserve
      exact h.applied hy hup rfl
    · rename_i u up hup
      cases hserve
      exact h.applied hy hup rfl
    · rename_i v up hup
      cases hserve
      exact h.setConn fun hk => (h.socket k hk).answer hs hup
    · cases hserve
      exact h.setConn fun hk => (h.socket k hk).stop
    · cases hserve
  · cases hserve

end Inv

/-! ## Runs -/

/-- A provider that was just constructed, over a document that may have content. -/
structure Constructed (y : Yjs D V U E) (w : World D V U E) : Prop where
  destroyed : w.provider.destroyed = false
  clientToken : w.provider.clientToken = none
  socket : w.provider.socket = none
  localVersion : w.provider.localVersion = 0
  acknowledgedVersion : w.provider.acknowledgedVersion = -1
  readOnlyDivergence : w.provider.readOnlyDivergence = false
  receivedServerSyncStep1 : w.provider.receivedServerSyncStep1 = false
  pendingEpoch : w.provider.pendingEpoch = none
  epochFlushTimer : w.provider.epochFlushTimer = false
  made : ∀ p ∈ w.made, p.1 = 0 ∧ y.Contains w.provider.document p.2
  handoffs : w.handoffs = []

theorem Constructed.inv {y : Yjs D V U E} {w : World D V U E} (h : Constructed y w) : Inv y w where
  token := by simp [Provider.readOnly, h.clientToken]
  divergence := h.readOnlyDivergence
  acknowledged_le := by simp [h.acknowledgedVersion, h.localVersion]
  held := fun p hp => ⟨by rw [(h.made p hp).1]; exact Nat.zero_le _, (h.made p hp).2⟩
  saved := fun p hp hle => by
    rw [h.acknowledgedVersion] at hle
    omega
  socket := fun k hk => absurd (h.socket.symm.trans hk) nofun
  handoffs := by simp [h.handoffs]

/-- Every token grants full access. -/
def fullAccess (_ : World D V U E) (event : Event U E) : Prop :=
  ∀ a, event = .mintToken a → a = .full

theorem inv_step {y : Yjs D V U E} (hy : y.Lawful) {w w' : World D V U E} (h : Inv y w)
    {event : Event U E} (hfull : fullAccess w event) (hstep : step y w event = some w') :
    Inv y w' := by
  cases event with
  | edit e =>
      simp only [step] at hstep
      split at hstep
      · cases hstep
      · rename_i hd
        cases hstep
        exact h.edit hy (by simpa using hd)
  | remote u =>
      cases hstep
      exact h.grow fun e => hy.applyUpdate w.server u e
  | mintToken a =>
      cases hstep
      -- the only level in these runs is full access
      obtain rfl := hfull a rfl
      exact ⟨rfl, h.divergence, h.acknowledged_le, h.held, h.saved, h.socket, h.handoffs⟩
  | dropToken =>
      cases hstep
      exact ⟨rfl, h.divergence, h.acknowledged_le, h.held, h.saved, h.socket, h.handoffs⟩
  | attemptConnection =>
      simp only [step] at hstep
      split at hstep
      · cases hstep
      · cases hstep
        exact h.attemptConnection
  | «open» k =>
      simp only [step] at hstep
      split at hstep
      · rename_i hready
        have hopened : Inv y (w.setConn k { w.conns k with readyState := .opened }) :=
          h.setConn fun hk => (h.socket k hk).opens hready
        split at hstep
        · cases hstep
          exact hopened.sendSyncStep1
        · cases hstep
          exact hopened
      · cases hstep
  | shut k =>
      cases hstep
      exact h.setConn fun hk => (h.socket k hk).shut
  | failSocket =>
      cases hstep
      exact h.closeSocket
  | setGate b =>
      cases hstep
      exact ⟨h.token, h.divergence, h.acknowledged_le, h.held, h.saved, h.socket, h.handoffs⟩
  | setEpochHandler b =>
      cases hstep
      exact ⟨h.token, h.divergence, h.acknowledged_le, h.held, h.saved, h.socket, h.handoffs⟩
  | serve k => exact h.serve hy hstep
  | stopServing k =>
      cases hstep
      exact h.setConn fun hk => (h.socket k hk).stop
  | serverSyncStep1 k =>
      cases hstep
      refine h.setConn fun hk => (h.socket k hk).setDown (fun sv hsv => ?_) (fun v hv => ?_)
      · simpa using hsv
      · simpa using hv
  | serverUpdate k u =>
      cases hstep
      refine h.setConn fun hk => (h.socket k hk).setDown (fun sv hsv => .inl ?_) (fun v hv => ?_)
      · simpa using hsv
      · simpa using hv
  | serverProposal k epoch =>
      cases hstep
      refine h.setConn fun hk => (h.socket k hk).setDown (fun sv hsv => .inl ?_) (fun v hv => ?_)
      · simpa using hsv
      · simpa using hv
  | lose k =>
      cases hstep
      exact h.setConn fun _ => ⟨nofun, nofun, nofun, nofun, nofun⟩
  | deliver k =>
      simp only [step] at hstep
      split at hstep
      · rename_i m down hdown
        -- the message leaves the connection before it is looked at
        have htaken : Inv y (w.setConn k { w.conns k with down := down }) :=
          h.setConn fun hk => (h.socket k hk).setDown
            (fun sv hsv => .inl (hdown ▸ List.mem_cons_of_mem m hsv))
            (fun v hv => hdown ▸ List.mem_cons_of_mem m hv)
        split at hstep
        · cases hstep
        · rename_i hready
          split at hstep
          · rename_i hk
            split at hstep
            · cases hstep
              exact htaken.closeSocket
            · cases hstep
              refine htaken.receiveMessage hy (fun j hj => ?_) (fun sv hm => ?_) (fun v hm => ?_)
              · obtain rfl : k = j := Option.some.inj (hk.symm.trans hj)
                simpa [World.setConn] using hready
              · exact (h.socket k hk).known sv (by rw [hdown, hm]; exact List.mem_cons_self)
              · exact (h.socket k hk).answers v (by rw [hdown, hm]; exact List.mem_cons_self)
          · cases hstep
            exact htaken
      · cases hstep
  | heartbeat =>
      simp only [step] at hstep
      split at hstep
      · cases hstep
        exact h.checkSync
      · cases hstep
        exact h.sendSyncStep1
  | epochFlushTimeout =>
      simp only [step] at hstep
      split at hstep
      · cases hstep
        exact h.finishEpochHandoff nofun
      · cases hstep
  | disconnect =>
      cases hstep
      exact h.closeSocket
  | destroy =>
      cases hstep
      have hc := h.closeSocket
      exact ⟨hc.token, hc.divergence, hc.acknowledged_le, hc.held, hc.saved, hc.socket,
        hc.handoffs⟩

/-- While the provider reports nothing unsaved the server has every local edit, and an epoch
is acknowledged before the time is up only then. -/
theorem saved_means_saved {y : Yjs D V U E} (hy : y.Lawful) {w : World D V U E}
    (h : Reach (Constructed y) (Where fullAccess (Takes (step y))) w) :
    (w.provider.hasLocalChanges = false → ∀ p ∈ w.made, y.Contains w.server p.2) ∧
      ∀ a ∈ w.handoffs, a.timedOut = false →
        a.hasLocalChanges = false ∧ ∀ e ∈ a.made, y.Contains w.server e := by
  have hinit : ∀ w, Constructed y w → Inv y w := fun _ hw => hw.inv
  have hstep : ∀ w event w', Inv y w → Where fullAccess (Takes (step y)) w event w' → Inv y w' :=
    fun _ _ _ hw hstep => inv_step hy hw hstep.1 hstep.2
  have hinv : Inv y w := h.invariant hinit hstep
  exact ⟨hinv.saved_of_not_hasLocalChanges, hinv.handoffs⟩

/-- Documents that are the lists of their edits. -/
def editLists : Yjs (List Nat) (List Nat) (List Nat) Nat where
  encodeStateVector := id
  encodeStateAsUpdate := fun d known => d.filter fun e => e ∉ known
  applyUpdate := fun d u => d ++ u
  edit := fun d e => e :: d
  update := fun _ e => [e]
  Contains := fun d e => e ∈ d
  hasStructs := fun u => !u.isEmpty

theorem editLists_lawful : editLists.Lawful where
  applyUpdate := fun _ _ _ h => List.mem_append_left _ h
  edit := fun _ _ _ h => List.mem_cons_of_mem _ h
  edit_self := fun _ _ => List.mem_cons_self
  update := fun _ _ _ => List.mem_append_right _ List.mem_cons_self
  encodeStateAsUpdate := fun d d₀ d' e he hgrow => by
    show e ∈ d' ++ d.filter fun e => e ∉ d₀
    by_cases hknown : e ∈ d₀
    · exact List.mem_append_left _ (hgrow e hknown)
    · exact List.mem_append_right _ (List.mem_filter.mpr ⟨he, by simpa using hknown⟩)

/-- A document with the edit 1, at a server that has nothing. -/
def constructed : World (List Nat) (List Nat) (List Nat) Nat where
  provider := ⟨[1], false, none, none, 0, -1, false, false, none, false⟩
  conns := fun _ => ⟨.closed, [], [], false⟩
  fresh := 0
  blocksTraffic := false
  acceptsEpoch := true
  server := []
  made := [(0, 1)]
  handoffs := []

/-- Edit 2 is made before the server's SyncStep1 arrives; then an epoch is proposed. -/
def session : List (Event (List Nat) Nat) :=
  [.mintToken .full, .attemptConnection, .open 0, .edit 2, .serverSyncStep1 0, .deliver 0,
    .serve 0, .serve 0, .serve 0, .serve 0, .deliver 0, .deliver 0, .serverProposal 0 1,
    .deliver 0]

theorem saved_means_saved_session : ∃ w : World (List Nat) (List Nat) (List Nat) Nat,
    w.provider.hasLocalChanges = false ∧ w.made = [(1, 2), (0, 1)] ∧ w.handoffs.length = 1 ∧
      (∀ p ∈ w.made, p.2 ∈ w.server) ∧ ∀ a ∈ w.handoffs, a.timedOut = false →
        a.hasLocalChanges = false ∧ ∀ e ∈ a.made, e ∈ w.server := by
  have hrun : ∃ w, session.foldlM (step editLists) constructed = some w ∧
      w.provider.hasLocalChanges = false ∧ w.made = [(1, 2), (0, 1)] ∧ w.handoffs.length = 1 :=
    ⟨_, rfl, rfl, rfl, rfl⟩
  obtain ⟨w, hrun, hno, hmade, hhandoffs⟩ := hrun
  have hstart : Constructed editLists constructed :=
    ⟨rfl, rfl, rfl, rfl, rfl, rfl, rfl, rfl, rfl, by simp [constructed, editLists], rfl⟩
  have hmeets : Meets fullAccess (step editLists) constructed session := by
    refine .cons (fun a ha => (Event.mintToken.inj ha).symm) rfl ?_
    refine .cons nofun rfl ?_
    refine .cons nofun rfl ?_
    refine .cons nofun rfl ?_
    refine .cons nofun rfl ?_
    refine .cons nofun rfl ?_
    refine .cons nofun rfl ?_
    refine .cons nofun rfl ?_
    refine .cons nofun rfl ?_
    refine .cons nofun rfl ?_
    refine .cons nofun rfl ?_
    refine .cons nofun rfl ?_
    refine .cons nofun rfl ?_
    exact .cons nofun rfl trivial
  have hreach := (Reach.start hstart).run_where hrun hmeets
  obtain ⟨hsaved, hhandoff⟩ := saved_means_saved editLists_lawful hreach
  exact ⟨w, hno, hmade, hhandoffs, hsaved hno, hhandoff⟩

end Realtime.Sync
