import Mathlib.Tactic
import Realtime.Lib.Transition
import Realtime.Epoch.Switch

/-!
# No write is lost at an epoch switch

All that matters happens under the write gate, and `get_or_load` is serialised by the
load lock. What is not covered is the time between the commit of an activation and its
insertion in `documents`: a load in it makes a second document of the new epoch, whose
writes the first one lacks. Where no load falls into it, the current epoch has one
document (`Inv.unique`), which contains every acknowledged update (`Inv.contents`).
-/

namespace Realtime.Epoch.Switch

open Lib

variable {υ : Type} {s s' : State υ} {t : Nat} {task task' : Task υ}

/-- The task has the load lock. -/
def Point.locked : Point υ → Bool
  | .reading | .looking _ | .loading _ | .inserting _ _ => true
  | _ => false

/-- The task reads or writes the document. The documents of an activation that has
committed are not used any more. -/
def Point.uses (i : Nat) : Point υ → Bool
  | .inserting _ j | .loaded _ j | .writing j _ | .creating j _ | .committing j _ _ => i = j
  | _ => false

def Used (s : State υ) (i : Nat) : Prop :=
  (∃ t task, s.tasks t = some task ∧ task.point.uses i = true) ∨
    ∃ c client, s.clients c = some client ∧ client.document = i

/-- While a task is here, no document of the current epoch is in use. -/
def Point.Quiet (current : Nat) : Point υ → Prop
  | .looking epoch | .inserting epoch _ => epoch ≠ current
  | .loading _ | .publishing _ _ _ => True
  | _ => False

/-- The documents and epochs the point names exist. -/
def Point.Known (s : State υ) : Point υ → Prop
  | .looking epoch | .loading epoch => epoch ≤ s.current
  | .inserting epoch i | .loaded epoch i | .publishing _ epoch i =>
      epoch ≤ s.current ∧ i < s.nextInstance ∧ (s.instances i).epoch = epoch
  | .writing i _ | .creating i _ | .committing i _ _ => i < s.nextInstance
  | _ => True

/-- The point is one of this operation, and what the task found still holds. -/
def Task.Ready (s : State υ) (task : Task υ) : Prop :=
  match task.point with
  | .looking epoch | .loading epoch | .inserting epoch _ | .loaded epoch _ => epoch = s.current
  | .writing i _ =>
      (s.instances i).epoch = s.current ∧ ((∃ c u, task.op = .update c u) ∨ s.pending = none)
  | .creating i source =>
      (s.instances i).epoch = s.current ∧ s.acked ⊆ source
  | .committing _ source replacement =>
      s.acked ⊆ source ∧ s.acked ⊆ replacement ∧
        ∀ current pending, task.op = .activating current pending →
          s.acked ⊆ (s.disk pending).getD []
  | .publishing _ epoch _ => epoch = s.current
  | _ => True

/-- Behind `get_or_load`, where no connecting task comes. -/
def Point.acts : Point υ → Bool
  | .writing _ _ | .creating _ _ | .committing _ _ _ | .publishing _ _ _ => true
  | _ => false

/-- What holds of a task where it stands: its locks are its own, what it was told is true. -/
structure TaskOk (s : State υ) (t : Nat) (task : Task υ) : Prop where
  gate : task.gated = true → s.writeGate = some t
  lock : task.point.locked = true → s.loadLock = some t
  known : task.point.Known s
  acts : task.point.acts = true → task.gated = true
  started : ∀ current pending, task.op = .activating current pending → task.gated = true
  ready : task.gated = true → task.Ready s
  activating : task.gated = true → ∀ current pending, task.op = .activating current pending →
    (∀ i e k, task.point ≠ .publishing i e k) → current = s.current ∧ s.pending = some pending
  busy : ∀ c u, task.op = .update c u →
    ∃ client, s.clients c = some client ∧ client.status = .busy t
  quiet : task.point.Quiet s.current → ∀ i, (s.instances i).epoch = s.current → ¬ Used s i
  unlisted : ∀ i e k, task.point = .publishing i e k → ∀ j, s.live ≠ some (s.current, j)

structure ClientOk (s : State υ) (c : Nat) (client : Client) : Prop where
  document : client.document < s.nextInstance
  epoch : (s.instances client.document).epoch = client.epoch
  open_ : client.status ≠ .leaving → s.acknowledged c = false

/-- What was claimed of an update when it was applied. -/
def Applied.Ok (a : Applied υ) : Prop :=
  a.epoch = a.current ∧ (a.connection = none → a.pending = none) ∧ a.acknowledged = false

/-- No acknowledged update is missing from the current document or its file, and there is only one
current document in use. -/
structure Inv (s : State υ) : Prop where
  tasks : ∀ t task, s.tasks t = some task → TaskOk s t task
  clients : ∀ c client, s.clients c = some client → ClientOk s c client
  freshTask : ∀ t, s.nextTask ≤ t → s.tasks t = none
  freshClient : ∀ c, s.nextConnection ≤ c → s.clients c = none ∧ s.acknowledged c = false
  live : ∀ e i, s.live = some (e, i) →
    e ≤ s.current ∧ i < s.nextInstance ∧ (s.instances i).epoch = e
  epochs : ∀ i < s.nextInstance, (s.instances i).epoch ≤ s.current
  /-- A document of the current epoch that is in use can be found. -/
  home : ∀ i, Used s i → (s.instances i).epoch = s.current →
    s.live = some (s.current, i) ∨
      ∃ t task, s.tasks t = some task ∧ task.point = .inserting s.current i
  unique : ∀ i j, Used s i → Used s j → (s.instances i).epoch = s.current →
    (s.instances j).epoch = s.current → i = j
  contents : ∀ i, Used s i → (s.instances i).epoch = s.current →
    s.acked ⊆ (s.instances i).contents
  disk : s.acked ⊆ (s.disk s.current).getD []
  /-- Only an activation writes a file ahead of the current epoch. -/
  ahead : ∀ e, s.current < e → (s.disk e).isSome →
    ∃ t i source replacement,
      s.tasks t = some ⟨.activating s.current e, .committing i source replacement⟩
  pending : ∀ p, s.pending = some p → s.current < p
  applied : ∀ a ∈ s.applied, a.Ok
  commits : ∀ c ∈ s.commits, c.acked ⊆ c.source

/-- `get_or_load` does not load an epoch from storage while the activation of this epoch
is committed but not in `documents`. -/
def NoLoadInside (s : State υ) : Event υ → Prop
  | .advance t _ => ∀ op epoch, s.tasks t = some ⟨op, .loading epoch⟩ →
      ∀ t' op' i k, s.tasks t' ≠ some ⟨op', .publishing i epoch k⟩
  | _ => True

/-! ## Frames -/

theorem Point.holds_cases {p : Point υ} {i : Nat} (h : p.holds i = true) :
    p.uses i = true ∨ ∃ j e k, p = .publishing j e k := by
  cases p with
  | publishing j e k => exact .inr ⟨j, e, k, rfl⟩
  | _ => exact .inl h

theorem Point.holds_of_uses {p : Point υ} {i : Nat} (h : p.uses i = true) :
    p.holds i = true := by
  cases p with
  | publishing => cases h
  | _ => exact h

theorem Used.alive (h : Inv s) {i : Nat} (hi : Used s i) : s.alive i = true := by
  unfold State.alive
  rcases hi with ⟨t, task, ht, huses⟩ | ⟨c, client, hc, hdoc⟩
  · have hlt : t < s.nextTask := by
      by_contra hle
      rw [h.freshTask t (by omega)] at ht
      cases ht
    refine Bool.or_eq_true_iff.mpr (.inl ?_)
    refine List.any_eq_true.mpr ⟨t, List.mem_range.mpr hlt, ?_⟩
    rw [ht]
    exact Point.holds_of_uses huses
  · have hlt : c < s.nextConnection := by
      by_contra hle
      rw [(h.freshClient c (by omega)).1] at hc
      cases hc
    refine Bool.or_eq_true_iff.mpr (.inr ?_)
    refine List.any_eq_true.mpr ⟨c, List.mem_range.mpr hlt, ?_⟩
    rw [hc]
    exact decide_eq_true hdoc

/-- What keeps a document alive uses it, or is a committed activation. -/
theorem used_or_publishing {i : Nat} (hi : s.alive i = true) :
    Used s i ∨ ∃ t task j e k, s.tasks t = some task ∧ task.point = .publishing j e k := by
  rcases Bool.or_eq_true_iff.mp hi with hi | hi
  · obtain ⟨t, -, hi⟩ := List.any_eq_true.mp hi
    cases ht : s.tasks t with
    | none => simp [ht] at hi
    | some task =>
        rw [ht] at hi
        rcases Point.holds_cases (p := task.point) hi with hi | ⟨j, e, k, hp⟩
        · exact .inl (.inl ⟨t, task, ht, hi⟩)
        · exact .inr ⟨t, task, j, e, k, ht, hp⟩
  · obtain ⟨c, -, hi⟩ := List.any_eq_true.mp hi
    cases hc : s.clients c with
    | none => simp [hc] at hi
    | some client => exact .inl (.inr ⟨c, client, hc, by simpa [hc] using hi⟩)

/-- Only the task that has the gate is gated. -/
theorem Inv.gated_eq (h : Inv s) {t' : Nat} (ht : s.tasks t = some task)
    (ht' : s.tasks t' = some task') (hg : task.gated = true) (hg' : task'.gated = true) :
    t' = t :=
  Option.some.inj (((h.tasks t' task' ht').gate hg').symm.trans ((h.tasks t task ht).gate hg))

theorem Inv.locked_eq (h : Inv s) {t' : Nat} (ht : s.tasks t = some task)
    (ht' : s.tasks t' = some task') (hl : task.point.locked = true)
    (hl' : task'.point.locked = true) : t' = t :=
  Option.some.inj (((h.tasks t' task' ht').lock hl').symm.trans ((h.tasks t task ht).lock hl))

/-- A task moves on, appears or ends, and only the locks change. -/
theorem Inv.retask (h : Inv s) {new : Option (Task υ)} {g l : Option Nat}
    {a : Bool} {n : Nat} (hn : s.nextTask ≤ n) (ht : t < n)
    (hgate : ∀ t', t' ≠ t → s.writeGate = some t' → g = some t')
    (hlock : ∀ t', t' ≠ t → s.loadLock = some t' → l = some t')
    (hok : ∀ task, new = some task →
      TaskOk { s with writeGate := g, loadLock := l } t task)
    (huses : ∀ task, new = some task → ∀ i, task.point.uses i = true →
      (s.instances i).epoch = s.current → Used s i)
    (hleft : ∀ task, s.tasks t = some task →
      (∀ i, task.point = .inserting s.current i → s.live = some (s.current, i)) ∧
        ∀ i source replacement, task.point ≠ .committing i source replacement) :
    Inv { s with
      tasks := Function.update s.tasks t new
      writeGate := g
      loadLock := l
      activating := a
      nextTask := n } := by
  have hused : ∀ i, Used { s with
      tasks := Function.update s.tasks t new
      writeGate := g
      loadLock := l
      activating := a
      nextTask := n } i → (s.instances i).epoch = s.current → Used s i := by
    rintro i (⟨t', task, ht', hi⟩ | hi) he
    · have ht' : Function.update s.tasks t new t' = some task := ht'
      by_cases heq : t' = t
      · subst heq
        rw [Function.update_self] at ht'
        exact huses task ht' i hi he
      · rw [Function.update_of_ne heq] at ht'
        exact .inl ⟨t', task, ht', hi⟩
    · exact .inr hi
  exact
    { tasks := fun t' task ht' => by
        have ht' : Function.update s.tasks t new t' = some task := ht'
        by_cases heq : t' = t
        · subst heq
          rw [Function.update_self] at ht'
          have hnew := hok task ht'
          exact { hnew with quiet := fun hq i he hu => hnew.quiet hq i he (hused i hu he) }
        · rw [Function.update_of_ne heq] at ht'
          have hold := h.tasks t' task ht'
          exact
            { hold with
              gate := fun hg => hgate t' heq (hold.gate hg)
              lock := fun hl => hlock t' heq (hold.lock hl)
              quiet := fun hq i he hu => hold.quiet hq i he (hused i hu he) }
      clients := fun c client hc =>
        have hold := h.clients c client hc
        ⟨hold.document, hold.epoch, hold.open_⟩
      freshTask := fun t' hle =>
        (Function.update_of_ne (by have hle : n ≤ t' := hle; omega) ..).trans
          (h.freshTask t' (hn.trans hle))
      freshClient := h.freshClient
      live := h.live
      epochs := h.epochs
      home := fun i hu he => by
        rcases h.home i (hused i hu he) he with hlive | ⟨t', task, ht', hp⟩
        · exact .inl hlive
        · by_cases heq : t' = t
          · subst heq
            exact .inl ((hleft task ht').1 i hp)
          · exact .inr ⟨t', task, (Function.update_of_ne heq ..).trans ht', hp⟩
      unique := fun i j hi hj hei hej => h.unique i j (hused i hi hei) (hused j hj hej) hei hej
      contents := fun i hi he => h.contents i (hused i hi he) he
      disk := h.disk
      ahead := fun e he hd => by
        obtain ⟨t', i, source, replacement, ht'⟩ := h.ahead e he hd
        have heq : t' ≠ t := by
          rintro rfl
          exact (hleft _ ht').2 i source replacement rfl
        exact ⟨t', i, source, replacement, (Function.update_of_ne heq ..).trans ht'⟩
      pending := h.pending
      applied := h.applied
      commits := h.commits }

theorem Inv.lt_nextTask (h : Inv s) (ht : s.tasks t = some task) : t < s.nextTask := by
  by_contra hle
  rw [h.freshTask t (by omega)] at ht
  cases ht

theorem Inv.lt_nextConnection (h : Inv s) {c : Nat} {client : Client}
    (hc : s.clients c = some client) : c < s.nextConnection := by
  by_contra hle
  rw [(h.freshClient c (by omega)).1] at hc
  cases hc

/-- The task leaves its point, and nothing but itself was found through it. -/
def Point.Free (p : Point υ) : Prop :=
  (∀ e i, p ≠ .inserting e i) ∧ ∀ i source replacement, p ≠ .committing i source replacement

theorem Inv.goto (h : Inv s) (ht : s.tasks t = some task) {op : Op υ} {p : Point υ}
    (hok : TaskOk s t ⟨op, p⟩)
    (huses : ∀ i, p.uses i = true → (s.instances i).epoch = s.current → Used s i)
    (hfree : task.point.Free) : Inv (s.goto t op p) := by
  refine h.retask (n := s.nextTask) le_rfl (h.lt_nextTask ht) (fun _ _ h => h) (fun _ _ h => h)
    ?_ ?_ ?_
  · rintro _ ⟨⟩
    exact hok
  · rintro _ ⟨⟩
    exact huses
  · intro old hold
    obtain rfl : task = old := Option.some.inj (ht.symm.trans hold)
    exact ⟨fun i hp => absurd hp (hfree.1 _ _), hfree.2⟩

theorem State.setStatus_clients {c c' : Nat} {status : Status} {client' : Client}
    (hc' : (s.setStatus c status).clients c' = some client') :
    ∃ client, s.clients c' = some client ∧ client'.document = client.document ∧
      client'.epoch = client.epoch ∧
        ((c' = c ∧ client'.status = status) ∨ (c' ≠ c ∧ client'.status = client.status)) := by
  have hc' : Function.update s.clients c ((s.clients c).map fun client =>
      { client with status := status }) c' = some client' := hc'
  by_cases heq : c' = c
  · subst heq
    rw [Function.update_self] at hc'
    obtain ⟨client, hc, rfl⟩ := Option.map_eq_some_iff.mp hc'
    exact ⟨client, hc, rfl, rfl, .inl ⟨rfl, rfl⟩⟩
  · rw [Function.update_of_ne heq] at hc'
    exact ⟨client', hc', rfl, rfl, .inr ⟨heq, rfl⟩⟩

theorem Used.of_setStatus {c i : Nat} {status : Status} (h : Used (s.setStatus c status) i) :
    Used s i := by
  rcases h with hi | ⟨c', client', hc', hdoc⟩
  · exact .inl hi
  · obtain ⟨client, hc, hdoc', -⟩ := State.setStatus_clients hc'
    exact .inr ⟨c', client, hc, hdoc'.symm.trans hdoc⟩

/-- Only the status of a connection changes. -/
theorem Inv.setStatus (h : Inv s) {c : Nat} {status : Status}
    (hidle : ∀ t task u, s.tasks t = some task → task.op ≠ .update c u)
    (hopen : status ≠ .leaving → ∀ client, s.clients c = some client → client.status ≠ .leaving) :
    Inv (s.setStatus c status) := by
  exact
    { tasks := fun t task ht =>
        have hold := h.tasks t task ht
        { hold with
          busy := fun c' u hop => by
            have hne : c' ≠ c := by
              rintro rfl
              exact hidle t task u ht hop
            obtain ⟨client, hc, hbusy⟩ := hold.busy c' u hop
            exact ⟨client, (Function.update_of_ne hne ..).trans hc, hbusy⟩
          quiet := fun hq i he hu => hold.quiet hq i he hu.of_setStatus }
      clients := fun c' client' hc' => by
        obtain ⟨client, hc, hdoc, hepoch, hstatus⟩ := State.setStatus_clients hc'
        have hold := h.clients c' client hc
        refine ⟨hdoc ▸ hold.document, by rw [hdoc, hepoch]; exact hold.epoch, fun hne => ?_⟩
        refine hold.open_ ?_
        rcases hstatus with ⟨rfl, heq⟩ | ⟨-, heq⟩
        · exact hopen (heq ▸ hne) client hc
        · exact heq ▸ hne
      freshTask := h.freshTask
      freshClient := fun c' hle => by
        refine ⟨?_, (h.freshClient c' hle).2⟩
        cases hc' : (s.setStatus c status).clients c' with
        | none => rfl
        | some client' =>
            obtain ⟨client, hc, -⟩ := State.setStatus_clients hc'
            rw [(h.freshClient c' hle).1] at hc
            cases hc
      live := h.live
      epochs := h.epochs
      home := fun i hu => h.home i hu.of_setStatus
      unique := fun i j hi hj => h.unique i j hi.of_setStatus hj.of_setStatus
      contents := fun i hi => h.contents i hi.of_setStatus
      disk := h.disk
      ahead := h.ahead
      pending := h.pending
      applied := h.applied
      commits := h.commits }

theorem Inv.finish (h : Inv s) (ht : s.tasks t = some task) (hfree : task.point.Free) :
    Inv (s.finish t task) := by
  have hgone : Inv { s.setTask t none with
      writeGate := if task.gated then none else s.writeGate } := by
    refine h.retask (n := s.nextTask) le_rfl (h.lt_nextTask ht) ?_ (fun _ _ h => h) nofun nofun ?_
    · intro t' hne hgate
      cases hg : task.gated with
      | false => exact hgate
      | true =>
          have hown := (h.tasks t task ht).gate hg
          exact absurd (Option.some.inj (hgate.symm.trans hown)) hne
    · intro old hold
      obtain rfl : task = old := Option.some.inj (ht.symm.trans hold)
      exact ⟨fun i hp => absurd hp (hfree.1 _ _), hfree.2⟩
  cases hop : task.op with
  | update c u =>
      obtain ⟨client, hc, hbusy⟩ := (h.tasks t task ht).busy c u hop
      simp only [State.finish, hop]
      refine hgone.setStatus ?_ ?_
      · intro t' task' u' ht' hop'
        have ht' : Function.update s.tasks t none t' = some task' := ht'
        by_cases heq : t' = t
        · subst heq
          rw [Function.update_self] at ht'
          cases ht'
        · rw [Function.update_of_ne heq] at ht'
          obtain ⟨client', hc', hbusy'⟩ := (h.tasks t' task' ht').busy c u' hop'
          obtain rfl : client = client' := Option.some.inj (hc.symm.trans hc')
          exact heq (Status.busy.inj (hbusy'.symm.trans hbusy))
      · intro _ client' hc'
        obtain rfl : client = client' := Option.some.inj (hc.symm.trans hc')
        rw [hbusy]
        exact nofun
  | _ =>
      simp only [State.finish, hop]
      exact hgone

/-! ## What the tasks do -/

theorem Inv.spawn (h : Inv s) {op : Op υ} {p : Point υ} (hp : p = .gate ∨ p = .waiting)
    (hgated : (⟨op, p⟩ : Task υ).gated = false) (hact : ∀ c p, op ≠ .activating c p)
    (hbusy : ∀ c u, op = .update c u →
      ∃ client, s.clients c = some client ∧ client.status = .busy s.nextTask) :
    Inv (s.spawn op p) := by
  refine h.retask (n := s.nextTask + 1) (t := s.nextTask) (by omega) (by omega)
    (fun _ _ h => h) (fun _ _ h => h) ?_ ?_ ?_
  · rintro _ ⟨⟩
    rcases hp with rfl | rfl
    all_goals exact
      { gate := fun hg => absurd (hgated.symm.trans hg) nofun
        lock := nofun
        known := trivial
        acts := nofun
        started := fun c p hop => absurd hop (hact c p)
        ready := fun _ => trivial
        activating := fun hg => absurd (hgated.symm.trans hg) nofun
        busy := hbusy
        quiet := fun hq => hq.elim
        unlisted := nofun }
  · rintro _ ⟨⟩ i hi
    rcases hp with rfl | rfl <;> cases hi
  · intro old hold
    rw [h.freshTask _ le_rfl] at hold
    cases hold

/-- What a point names is there for good. -/
theorem Point.Known.mono {p : Point υ} (h : p.Known s) (hcurrent : s.current ≤ s'.current)
    (hnext : s.nextInstance ≤ s'.nextInstance)
    (hepoch : ∀ i < s.nextInstance, (s'.instances i).epoch = (s.instances i).epoch) :
    p.Known s' := by
  cases p with
  | looking | loading => exact le_trans h hcurrent
  | inserting | loaded | publishing =>
      obtain ⟨he, hi, heq⟩ := h
      exact ⟨he.trans hcurrent, hi.trans_le hnext, (hepoch _ hi).trans heq⟩
  | writing | creating | committing => exact lt_of_lt_of_le h hnext
  | _ => trivial

/-- The gated task proposes an epoch. -/
theorem Inv.propose (h : Inv s) {expected : Option Nat} {e i : Nat}
    (ht : s.tasks t = some ⟨.begin expected, .loaded e i⟩) : Inv s.propose := by
  have hother : ∀ t' task, s.tasks t' = some task → task.gated = true → t' = t :=
    fun t' task ht' hg => h.gated_eq ht ht' rfl hg
  exact
    { tasks := fun t' task ht' => by
        have hold := h.tasks t' task ht'
        refine
          { gate := hold.gate
            lock := hold.lock
            known := hold.known.mono le_rfl le_rfl fun _ _ => rfl
            acts := hold.acts
            started := hold.started
            ready := fun hg => ?_
            activating := fun hg => ?_
            busy := hold.busy
            quiet := hold.quiet
            unlisted := hold.unlisted }
        · obtain rfl := hother t' task ht' hg
          obtain rfl := Option.some.inj (ht.symm.trans ht')
          exact hold.ready hg
        · obtain rfl := hother t' task ht' hg
          obtain rfl := Option.some.inj (ht.symm.trans ht')
          exact nofun
      clients := fun c client hc =>
        have hold := h.clients c client hc
        ⟨hold.document, hold.epoch, hold.open_⟩
      freshTask := h.freshTask
      freshClient := h.freshClient
      live := h.live
      epochs := h.epochs
      home := h.home
      unique := h.unique
      contents := h.contents
      disk := h.disk
      ahead := h.ahead
      pending := fun p hp => by
        have hp : some (s.pending.getD (s.current + 1)) = some p := hp
        obtain rfl := Option.some.inj hp
        cases hpend : s.pending with
        | none =>
            show s.current < s.current + 1
            omega
        | some q => exact h.pending q hpend
      applied := h.applied
      commits := h.commits }

/-- A connection is registered with the document that its task has loaded. -/
theorem Inv.register (h : Inv s) {op : Op υ} {e i : Nat}
    (ht : s.tasks t = some ⟨op, .loaded e i⟩) : Inv (s.register e i) := by
  obtain ⟨-, hlt, hepoch⟩ := (h.tasks t _ ht).known
  have hused : ∀ j, Used (s.register e i) j → Used s j := by
    rintro j (hj | ⟨c, client, hc, hdoc⟩)
    · exact .inl hj
    · have hc : Function.update s.clients s.nextConnection (some ⟨e, i, .idle⟩) c =
          some client := hc
      by_cases heq : c = s.nextConnection
      · subst heq
        rw [Function.update_self] at hc
        obtain rfl := Option.some.inj hc
        exact .inl ⟨t, _, ht, decide_eq_true hdoc.symm⟩
      · rw [Function.update_of_ne heq] at hc
        exact .inr ⟨c, client, hc, hdoc⟩
  exact
    { tasks := fun t' task ht' =>
        have hold := h.tasks t' task ht'
        { gate := hold.gate
          lock := hold.lock
          known := hold.known.mono le_rfl le_rfl fun _ _ => rfl
          acts := hold.acts
          started := hold.started
          ready := hold.ready
          activating := hold.activating
          busy := fun c u hop => by
            obtain ⟨client, hc, hbusy⟩ := hold.busy c u hop
            have hne : c ≠ s.nextConnection := (h.lt_nextConnection hc).ne
            exact ⟨client, (Function.update_of_ne hne ..).trans hc, hbusy⟩
          quiet := fun hq j he hu => hold.quiet hq j he (hused j hu)
          unlisted := hold.unlisted }
      clients := fun c client hc => by
        have hc : Function.update s.clients s.nextConnection (some ⟨e, i, .idle⟩) c =
          some client := hc
        by_cases heq : c = s.nextConnection
        · subst heq
          rw [Function.update_self] at hc
          obtain rfl := Option.some.inj hc
          exact ⟨hlt, hepoch, fun _ => (h.freshClient _ le_rfl).2⟩
        · rw [Function.update_of_ne heq] at hc
          have hold := h.clients c client hc
          exact ⟨hold.document, hold.epoch, hold.open_⟩
      freshTask := h.freshTask
      freshClient := fun c hle => by
        have hle : s.nextConnection + 1 ≤ c := hle
        have hne : c ≠ s.nextConnection := by omega
        exact ⟨(Function.update_of_ne hne ..).trans (h.freshClient c (by omega)).1,
          (h.freshClient c (by omega)).2⟩
      live := h.live
      epochs := h.epochs
      home := fun j hu => h.home j (hused j hu)
      unique := fun j k hj hk => h.unique j k (hused j hj) (hused k hk)
      contents := fun j hj => h.contents j (hused j hj)
      disk := h.disk
      ahead := h.ahead
      pending := h.pending
      applied := h.applied
      commits := h.commits }

/-- The gated task writes to the document of the current epoch. -/
theorem Inv.write (h : Inv s) {op : Op υ} {i : Nat} {u : υ} {k : Option Nat}
    (ht : s.tasks t = some ⟨op, .writing i u⟩)
    (hconnection : k = none → ∀ c u, op ≠ .update c u)
    (hopen : k.any s.acknowledged = false) : Inv (s.write i u k) := by
  have hself := h.tasks t _ ht
  have hg : (⟨op, .writing i u⟩ : Task υ).gated = true := hself.acts rfl
  obtain ⟨hepoch, hpending⟩ := hself.ready hg
  have huse : Used s i := .inl ⟨t, _, ht, decide_eq_true rfl⟩
  have hsame : ∀ j, ((s.write i u k).instances j).epoch = (s.instances j).epoch := by
    intro j
    show (Function.update s.instances i _ j).epoch = _
    by_cases heq : j = i
    · subst heq
      rw [Function.update_self]
    · rw [Function.update_of_ne heq]
  have hdisk : ∀ e, e ≠ s.current → (s.write i u k).disk e = s.disk e := by
    intro e hne
    exact Function.update_of_ne (fun heq => hne (heq.trans hepoch)) ..
  exact
    { tasks := fun t' task ht' => by
        have hold := h.tasks t' task ht'
        refine
          { gate := hold.gate
            lock := hold.lock
            known := hold.known.mono le_rfl le_rfl fun j _ => hsame j
            acts := hold.acts
            started := hold.started
            ready := fun hg' => ?_
            activating := hold.activating
            busy := hold.busy
            quiet := fun hq j he hu => hold.quiet hq j ((hsame j).symm.trans he) hu
            unlisted := hold.unlisted }
        obtain rfl := h.gated_eq ht ht' hg hg'
        obtain rfl := Option.some.inj (ht.symm.trans ht')
        exact ⟨(hsame i).trans hepoch, hpending⟩
      clients := fun c client hc =>
        have hold := h.clients c client hc
        ⟨hold.document, (hsame _).trans hold.epoch, hold.open_⟩
      freshTask := h.freshTask
      freshClient := h.freshClient
      live := fun e j hl =>
        have hold := h.live e j hl
        ⟨hold.1, hold.2.1, (hsame j).trans hold.2.2⟩
      epochs := fun j hj => (hsame j).trans_le (h.epochs j hj)
      home := fun j hu he => h.home j hu ((hsame j).symm.trans he)
      unique := fun j k hj hk hej hek =>
        h.unique j k hj hk ((hsame j).symm.trans hej) ((hsame k).symm.trans hek)
      contents := fun j hj he => by
        -- It is the one document that is in use.
        obtain rfl := h.unique i j huse hj hepoch ((hsame j).symm.trans he)
        show u :: s.acked ⊆ (Function.update s.instances i _ i).contents
        rw [Function.update_self]
        exact List.cons_subset_cons u (h.contents i huse hepoch)
      disk := by
        show u :: s.acked ⊆ (Function.update s.disk (s.instances i).epoch _ s.current).getD []
        rw [hepoch, Function.update_self]
        exact List.cons_subset_cons u h.disk
      ahead := fun e he hd => by
        rw [hdisk e (Nat.ne_of_gt he)] at hd
        exact h.ahead e he hd
      pending := h.pending
      applied := fun a ha => by
        rcases List.mem_cons.mp ha with rfl | ha
        · refine ⟨hepoch, fun hnone => ?_, hopen⟩
          rcases hpending with ⟨c, u', hop⟩ | hnone'
          · exact absurd hop (hconnection hnone c u')
          · exact hnone'
        · exact h.applied a ha
      commits := h.commits }

theorem Inv.used_lt (h : Inv s) {i : Nat} (hi : Used s i) : i < s.nextInstance := by
  rcases hi with ⟨t, task, ht, huses⟩ | ⟨c, client, hc, rfl⟩
  · have hknown := (h.tasks t task ht).known
    cases hp : task.point with
    | inserting e j | loaded e j =>
        rw [hp] at huses hknown
        obtain rfl : i = j := of_decide_eq_true huses
        exact hknown.2.1
    | writing j _ | creating j _ | committing j _ _ =>
        rw [hp] at huses hknown
        obtain rfl : i = j := of_decide_eq_true huses
        exact hknown
    | _ =>
        rw [hp] at huses
        cases huses
  · exact (h.clients c client hc).document

/-- Locks are held, and what was found is still so, whatever happens outside the gate. -/
theorem Task.Ready.mono (hready : task.Ready s) (hknown : task.point.Known s)
    (hcurrent : s'.current = s.current) (hpending : s'.pending = s.pending)
    (hacked : s'.acked = s.acked) (hdisk : ∀ e, (s'.disk e).getD [] = (s.disk e).getD [])
    (hepoch : ∀ i < s.nextInstance, (s'.instances i).epoch = (s.instances i).epoch) :
    task.Ready s' := by
  obtain ⟨op, p⟩ := task
  cases p with
  | looking | loading | inserting | loaded | publishing => exact hready.trans hcurrent.symm
  | writing i u =>
      refine ⟨((hepoch i hknown).trans hready.1).trans hcurrent.symm, ?_⟩
      exact hready.2.imp id fun hnone => hpending.trans hnone
  | creating i source =>
      refine ⟨((hepoch i hknown).trans hready.1).trans hcurrent.symm, ?_⟩
      exact hacked ▸ hready.2
  | committing i source replacement =>
      refine ⟨hacked ▸ hready.1, hacked ▸ hready.2.1, fun current pending hop => ?_⟩
      rw [hacked, hdisk]
      exact hready.2.2 current pending hop
  | _ => trivial

/-- A document is loaded where no document of its epoch is in use. -/
theorem Inv.load (h : Inv s) {op : Op υ} {e : Nat} (ht : s.tasks t = some ⟨op, .loading e⟩)
    (hcond : ∀ t' op' i k, s.tasks t' ≠ some ⟨op', .publishing i e k⟩) :
    Inv ((s.load e).goto t op (.inserting e s.nextInstance)) := by
  have hself := h.tasks t _ ht
  have hknown : e ≤ s.current := hself.known
  have hquiet : ∀ i, (s.instances i).epoch = s.current → ¬ Used s i := hself.quiet trivial
  let s' := (s.load e).goto t op (.inserting e s.nextInstance)
  show Inv s'
  have hold_epoch : ∀ j < s.nextInstance, s'.instances j = s.instances j :=
    fun j hj => Function.update_of_ne hj.ne ..
  have hnew : s'.instances s.nextInstance = ⟨e, (s.disk e).getD []⟩ := Function.update_self ..
  have hdisk : ∀ e', (s'.disk e').getD [] = (s.disk e').getD [] := by
    intro e'
    show (Function.update s.disk e _ e').getD [] = _
    by_cases heq : e' = e
    · subst heq
      rw [Function.update_self]
      rfl
    · rw [Function.update_of_ne heq]
  have hself_at : s'.tasks t = some ⟨op, .inserting e s.nextInstance⟩ := Function.update_self ..
  have hothers : ∀ t', t' ≠ t → s'.tasks t' = s.tasks t' :=
    fun t' hne => Function.update_of_ne hne ..
  have hused : ∀ j, Used s' j → j = s.nextInstance ∨ Used s j := by
    rintro j (⟨t', task, ht', hj⟩ | hj)
    · by_cases heq : t' = t
      · subst heq
        obtain rfl := Option.some.inj (hself_at.symm.trans ht')
        exact .inl (of_decide_eq_true hj)
      · exact .inr (.inl ⟨t', task, (hothers t' heq).symm.trans ht', hj⟩)
    · exact .inr (.inr hj)
  -- A document of the current epoch that is in use now is the new one.
  have honly : ∀ j, Used s' j → (s'.instances j).epoch = s.current →
      j = s.nextInstance ∧ e = s.current := by
    intro j hj he
    rcases hused j hj with rfl | hu
    · rw [hnew] at he
      exact ⟨rfl, he⟩
    · rw [hold_epoch j (h.used_lt hu)] at he
      exact absurd hu (hquiet j he)
  exact
    { tasks := fun t' task ht' => by
        by_cases heq : t' = t
        · subst heq
          obtain rfl := Option.some.inj (hself_at.symm.trans ht')
          exact
            { gate := by cases op <;> exact hself.gate
              lock := fun _ => hself.lock rfl
              known := ⟨hknown, Nat.lt_succ_self _, congrArg Instance.epoch hnew⟩
              acts := nofun
              started := by cases op <;> exact hself.started
              ready := by cases op <;> exact hself.ready
              activating := by
                cases op with
                | activating c p =>
                    intro _ c' p' hop _
                    exact hself.activating rfl c' p' hop nofun
                | _ => exact nofun
              busy := hself.busy
              quiet := fun hq j he hu => hq (honly j hu he).2
              unlisted := nofun }
        · rw [hothers t' heq] at ht'
          have hold := h.tasks t' task ht'
          exact
            { gate := hold.gate
              lock := hold.lock
              known := hold.known.mono le_rfl (Nat.le_succ _) fun j hj =>
                congrArg Instance.epoch (hold_epoch j hj)
              acts := hold.acts
              started := hold.started
              ready := fun hg => (hold.ready hg).mono hold.known rfl rfl rfl hdisk fun j hj =>
                congrArg Instance.epoch (hold_epoch j hj)
              activating := hold.activating
              busy := hold.busy
              quiet := fun hq j he hu => by
                obtain ⟨-, hcur⟩ := honly j hu he
                -- The task would have the load lock, or be where no load may fall.
                obtain ⟨op', p⟩ := task
                cases p with
                | publishing i e' k =>
                    obtain rfl : e' = s.current := hold.ready (hold.acts rfl)
                    exact hcond t' op' i k (hcur ▸ ht')
                | looking | loading | inserting => exact heq (h.locked_eq ht ht' rfl rfl)
                | _ => exact hq
              unlisted := hold.unlisted }
      clients := fun c client hc => by
        have hold := h.clients c client hc
        refine ⟨hold.document.trans (Nat.lt_succ_self _), ?_, hold.open_⟩
        rw [hold_epoch _ hold.document]
        exact hold.epoch
      freshTask := fun t' hle => by
        have hlt := h.lt_nextTask ht
        have hle : s.nextTask ≤ t' := hle
        rw [hothers t' (by omega)]
        exact h.freshTask t' hle
      freshClient := h.freshClient
      live := fun e' j hl => by
        obtain ⟨hcur, hlt, hep⟩ := h.live e' j hl
        exact ⟨hcur, hlt.trans (Nat.lt_succ_self _),
          (congrArg Instance.epoch (hold_epoch j hlt)).trans hep⟩
      epochs := fun j hj => by
        rcases Nat.lt_succ_iff_lt_or_eq.mp hj with hj | rfl
        · rw [hold_epoch j hj]
          exact h.epochs j hj
        · rw [hnew]
          exact hknown
      home := fun j hu he => by
        obtain ⟨rfl, hcur⟩ := honly j hu he
        exact .inr ⟨t, _, hself_at, by rw [hcur]; rfl⟩
      unique := fun i j hi hj hei hej => (honly i hi hei).1.trans (honly j hj hej).1.symm
      contents := fun j hu he => by
        obtain ⟨rfl, rfl⟩ := honly j hu he
        rw [hnew]
        exact h.disk
      disk := by
        rw [hdisk]
        exact h.disk
      ahead := fun e' he hd => by
        have he : s.current < e' := he
        have hsame : s'.disk e' = s.disk e' := Function.update_of_ne (by omega) ..
        rw [hsame] at hd
        obtain ⟨t', i, source, replacement, ht'⟩ := h.ahead e' he hd
        have hne : t' ≠ t := by
          rintro rfl
          cases Option.some.inj (ht.symm.trans ht')
        exact ⟨t', i, source, replacement, (hothers t' hne).trans ht'⟩
      pending := h.pending
      applied := h.applied
      commits := h.commits }

/-- `documents` gets the loaded document. -/
theorem Inv.insert (h : Inv s) {op : Op υ} {e i : Nat}
    (ht : s.tasks t = some ⟨op, .inserting e i⟩) : Inv { s with live := some (e, i) } := by
  have hself := h.tasks t _ ht
  obtain ⟨hle, hlt, hepoch⟩ := hself.known
  have huse : Used s i := .inl ⟨t, _, ht, decide_eq_true rfl⟩
  exact
    { h with
      tasks := fun t' task ht' =>
        have hold := h.tasks t' task ht'
        { hold with
          ready := fun hg => (hold.ready hg).mono hold.known rfl rfl rfl (fun _ => rfl)
            fun _ _ => rfl
          unlisted := fun j e' k hp j' hl => by
            obtain ⟨rfl, rfl⟩ : e = s.current ∧ i = j' := by simpa using hl
            exact hold.quiet (by rw [hp]; trivial) i hepoch huse }
      clients := fun c client hc =>
        have hold := h.clients c client hc
        ⟨hold.document, hold.epoch, hold.open_⟩
      live := fun e' j hl => by
        obtain ⟨rfl, rfl⟩ : e = e' ∧ i = j := by simpa using hl
        exact ⟨hle, hlt, hepoch⟩
      home := fun j hu he => by
        by_cases heq : e = s.current
        · obtain rfl := h.unique i j huse hu (hepoch.trans heq) he
          exact .inl (by rw [heq])
        · exact absurd hu (hself.quiet heq j he) }

/-- The replacement is written under its own name. -/
theorem Inv.create (h : Inv s) {current pending i : Nat} {source : List υ}
    (ht : s.tasks t = some ⟨.activating current pending, .creating i source⟩) :
    Inv ({ s with
      disk := Function.update s.disk pending (some ((s.disk pending).getD source)) }.goto t
        (.activating current pending) (.committing i source ((s.disk pending).getD source))) := by
  have hself := h.tasks t _ ht
  have hg : (⟨.activating current pending, .creating i source⟩ : Task υ).gated = true := rfl
  obtain ⟨rfl, hpending⟩ := hself.activating hg _ _ rfl nofun
  have hlt := h.pending pending hpending
  -- No other activation is at work, so the file is new.
  have hnone : s.disk pending = none := by
    by_contra hsome
    obtain ⟨t', j, src, rep, ht'⟩ := h.ahead pending hlt (Option.isSome_iff_ne_none.mpr hsome)
    obtain rfl := h.gated_eq ht ht' hg rfl
    cases Option.some.inj (ht.symm.trans ht')
  rw [hnone]
  let s' : State υ := { s with disk := Function.update s.disk pending (some source) }.goto t
    (.activating s.current pending) (.committing i source source)
  show Inv s'
  have hself_at : s'.tasks t = some ⟨.activating s.current pending, .committing i source source⟩ :=
    Function.update_self ..
  have hothers : ∀ t', t' ≠ t → s'.tasks t' = s.tasks t' :=
    fun t' hne => Function.update_of_ne hne ..
  have hused : ∀ j, Used s' j → Used s j := by
    rintro j (⟨t', task, ht', hj⟩ | hj)
    · by_cases heq : t' = t
      · subst heq
        obtain rfl := Option.some.inj (hself_at.symm.trans ht')
        exact .inl ⟨t', _, ht, hj⟩
      · exact .inl ⟨t', task, (hothers t' heq).symm.trans ht', hj⟩
    · exact .inr hj
  exact
    { tasks := fun t' task ht' => by
        by_cases heq : t' = t
        · subst heq
          obtain rfl := Option.some.inj (hself_at.symm.trans ht')
          obtain ⟨-, hacked⟩ := hself.ready hg
          exact
            { gate := fun _ => hself.gate hg
              lock := nofun
              known := hself.known
              acts := fun _ => rfl
              started := fun _ _ _ => rfl
              ready := fun _ => ⟨hacked, hacked, fun _ _ hop => by
                obtain ⟨-, rfl⟩ := Op.activating.inj hop
                show s.acked ⊆ (Function.update s.disk pending (some source) pending).getD []
                rw [Function.update_self]
                exact hacked⟩
              activating := fun _ _ _ hop _ => hself.activating hg _ _ hop nofun
              busy := nofun
              quiet := fun hq => hq.elim
              unlisted := nofun }
        · rw [hothers t' heq] at ht'
          have hold := h.tasks t' task ht'
          exact
            { hold with
              known := hold.known.mono le_rfl le_rfl fun _ _ => rfl
              ready := fun hg' => absurd (h.gated_eq ht ht' hg hg') heq
              quiet := fun hq j he hu => hold.quiet hq j he (hused j hu) }
      clients := fun c client hc =>
        have hold := h.clients c client hc
        ⟨hold.document, hold.epoch, hold.open_⟩
      freshTask := fun t' hle => by
        have hlt := h.lt_nextTask ht
        have hle : s.nextTask ≤ t' := hle
        rw [hothers t' (by omega)]
        exact h.freshTask t' hle
      freshClient := h.freshClient
      live := h.live
      epochs := h.epochs
      home := fun j hu he => by
        rcases h.home j (hused j hu) he with hl | ⟨t', task, ht', hp⟩
        · exact .inl hl
        · have hne : t' ≠ t := by
            rintro rfl
            obtain rfl := Option.some.inj (ht.symm.trans ht')
            cases hp
          exact .inr ⟨t', task, (hothers t' hne).trans ht', hp⟩
      unique := fun j k hj hk => h.unique j k (hused j hj) (hused k hk)
      contents := fun j hj => h.contents j (hused j hj)
      disk := by
        have hsame : s'.disk s.current = s.disk s.current :=
          Function.update_of_ne (Nat.ne_of_lt hlt) ..
        show s.acked ⊆ (s'.disk s.current).getD []
        rw [hsame]
        exact h.disk
      ahead := fun e he hd => by
        by_cases heq : e = pending
        · exact ⟨t, i, source, source, heq ▸ hself_at⟩
        · have hsame : s'.disk e = s.disk e := Function.update_of_ne heq ..
          rw [hsame] at hd
          obtain ⟨t', j, src, rep, ht'⟩ := h.ahead e he hd
          obtain rfl := h.gated_eq ht ht' hg rfl
          cases Option.some.inj (ht.symm.trans ht')
      pending := h.pending
      applied := h.applied
      commits := h.commits }

/-- The activation is committed. Nothing of the new epoch is in use yet. -/
theorem Inv.commit (h : Inv s) {current pending i : Nat} {source replacement : List υ}
    (ht : s.tasks t = some ⟨.activating current pending, .committing i source replacement⟩) :
    Inv ((s.commit pending source replacement).goto t (.activating current pending)
      (.publishing i pending s.nextInstance)) := by
  have hself := h.tasks t _ ht
  have hg : (⟨.activating current pending, .committing i source replacement⟩ : Task υ).gated =
      true := rfl
  obtain ⟨rfl, hpending⟩ := hself.activating hg _ _ rfl nofun
  have hlt := h.pending pending hpending
  obtain ⟨hsource, hreplacement, hdisk⟩ := hself.ready hg
  let s' : State υ := (s.commit pending source replacement).goto t
    (.activating s.current pending) (.publishing i pending s.nextInstance)
  show Inv s'
  have hold_epoch : ∀ j < s.nextInstance, s'.instances j = s.instances j :=
    fun j hj => Function.update_of_ne hj.ne ..
  have hnew : s'.instances s.nextInstance = ⟨pending, replacement⟩ := Function.update_self ..
  have hself_at : s'.tasks t =
      some ⟨.activating s.current pending, .publishing i pending s.nextInstance⟩ :=
    Function.update_self ..
  have hothers : ∀ t', t' ≠ t → s'.tasks t' = s.tasks t' :=
    fun t' hne => Function.update_of_ne hne ..
  have hused : ∀ j, Used s' j → Used s j := by
    rintro j (⟨t', task, ht', hj⟩ | hj)
    · by_cases heq : t' = t
      · subst heq
        obtain rfl := Option.some.inj (hself_at.symm.trans ht')
        cases hj
      · exact .inl ⟨t', task, (hothers t' heq).symm.trans ht', hj⟩
    · exact .inr hj
  have hnone : ∀ j, (s'.instances j).epoch = pending → ¬ Used s' j := by
    intro j he hj
    have hlt' := h.used_lt (hused j hj)
    rw [hold_epoch j hlt'] at he
    have hle := h.epochs j hlt'
    omega
  exact
    { tasks := fun t' task ht' => by
        by_cases heq : t' = t
        · subst heq
          obtain rfl := Option.some.inj (hself_at.symm.trans ht')
          exact
            { gate := fun _ => hself.gate hg
              lock := nofun
              known := ⟨le_rfl, Nat.lt_succ_self _, congrArg Instance.epoch hnew⟩
              acts := fun _ => rfl
              started := fun _ _ _ => rfl
              ready := fun _ => rfl
              activating := fun _ _ _ _ hp => absurd rfl (hp _ _ _)
              busy := nofun
              quiet := fun _ => hnone
              unlisted := fun _ _ _ _ j hl => by
                have hle : pending ≤ s.current := (h.live pending j hl).1
                omega }
        · rw [hothers t' heq] at ht'
          have hold := h.tasks t' task ht'
          exact
            { gate := hold.gate
              lock := hold.lock
              known := hold.known.mono hlt.le (Nat.le_succ _) fun j hj =>
                congrArg Instance.epoch (hold_epoch j hj)
              acts := hold.acts
              started := hold.started
              ready := fun hg' => absurd (h.gated_eq ht ht' hg hg') heq
              activating := fun hg' => absurd (h.gated_eq ht ht' hg hg') heq
              busy := hold.busy
              quiet := fun _ => hnone
              unlisted := fun _ _ _ hp =>
                absurd (h.gated_eq ht ht' hg (hold.acts (by rw [hp]; rfl))) heq }
      clients := fun c client hc => by
        have hold := h.clients c client hc
        refine ⟨hold.document.trans (Nat.lt_succ_self _), ?_, hold.open_⟩
        rw [hold_epoch _ hold.document]
        exact hold.epoch
      freshTask := fun t' hle => by
        have hlt := h.lt_nextTask ht
        have hle : s.nextTask ≤ t' := hle
        rw [hothers t' (by omega)]
        exact h.freshTask t' hle
      freshClient := h.freshClient
      live := fun e j hl => by
        obtain ⟨hle, hj, he⟩ := h.live e j hl
        exact ⟨hle.trans hlt.le, hj.trans (Nat.lt_succ_self _),
          (congrArg Instance.epoch (hold_epoch j hj)).trans he⟩
      epochs := fun j hj => by
        rcases Nat.lt_succ_iff_lt_or_eq.mp hj with hj | rfl
        · rw [hold_epoch j hj]
          exact (h.epochs j hj).trans hlt.le
        · rw [hnew]
          exact le_rfl
      home := fun j hu he => absurd hu (hnone j he)
      unique := fun j _ hu _ he _ => absurd hu (hnone j he)
      contents := fun j hu he => absurd hu (hnone j he)
      disk := hdisk _ _ rfl
      ahead := fun e he hd => by
        have he : pending < e := he
        -- Only this activation wrote ahead, and it wrote the file of `pending`.
        obtain ⟨t', j, src, rep, ht'⟩ := h.ahead e (by omega) hd
        obtain rfl := h.gated_eq ht ht' hg rfl
        cases Option.some.inj (ht.symm.trans ht')
        omega
      pending := nofun
      applied := h.applied
      commits := fun c hc => by
        rcases List.mem_cons.mp hc with rfl | hc
        · exact hsource
        · exact h.commits c hc }

theorem State.finish_tasks : (s.finish t task).tasks = Function.update s.tasks t none := by
  obtain ⟨op, p⟩ := task
  cases op <;> rfl

theorem Used.of_finish {i : Nat} (h : Used (s.finish t task) i) : Used s i := by
  have hgone : Used (s.setTask t none) i := by
    simp only [State.finish] at h
    split at h
    · exact h.of_setStatus
    · exact h
  rcases hgone with ⟨t', task', ht', hi⟩ | hi
  · have ht' : Function.update s.tasks t none t' = some task' := ht'
    by_cases heq : t' = t
    · subst heq
      rw [Function.update_self] at ht'
      cases ht'
    · rw [Function.update_of_ne heq] at ht'
      exact .inl ⟨t', task', ht', hi⟩
  · exact .inr hi

/-- `documents` gets the replacement, which goes with the activation. -/
theorem Inv.publish (h : Inv s) {op : Op υ} {i e k : Nat}
    (ht : s.tasks t = some ⟨op, .publishing i e k⟩) :
    Inv ({ s with live := some (e, k) }.finish t ⟨op, .publishing i e k⟩) := by
  have hself := h.tasks t _ ht
  have hg : (⟨op, .publishing i e k⟩ : Task υ).gated = true := hself.acts rfl
  obtain ⟨hle, hlt, hepoch⟩ := hself.known
  have hend : Inv (s.finish t ⟨op, .publishing i e k⟩) := h.finish ht ⟨nofun, nofun⟩
  have hshape : { s with live := some (e, k) }.finish t ⟨op, .publishing i e k⟩ =
      { s.finish t ⟨op, .publishing i e k⟩ with live := some (e, k) } := by
    cases op <;> rfl
  have hfields : (s.finish t ⟨op, .publishing i e k⟩).current = s.current ∧
      (s.finish t ⟨op, .publishing i e k⟩).instances = s.instances ∧
        (s.finish t ⟨op, .publishing i e k⟩).nextInstance = s.nextInstance := by
    cases op <;> exact ⟨rfl, rfl, rfl⟩
  obtain ⟨hcurrent, hinstances, hnext⟩ := hfields
  have hnone : ∀ j, (s.instances j).epoch = s.current →
      ¬ Used (s.finish t ⟨op, .publishing i e k⟩) j :=
    fun j he hu => hself.quiet trivial j he hu.of_finish
  rw [hshape]
  exact
    { hend with
      tasks := fun t' task' ht' => by
        have hold := hend.tasks t' task' ht'
        refine
          { hold with
            ready := fun hg' => (hold.ready hg').mono hold.known rfl rfl rfl (fun _ => rfl)
              fun _ _ => rfl
            unlisted := fun j e' k' hp => ?_ }
        -- It would have the gate as well.
        have ht' : (s.finish t ⟨op, .publishing i e k⟩).tasks t' = some task' := ht'
        rw [State.finish_tasks] at ht'
        by_cases heq : t' = t
        · subst heq
          rw [Function.update_self] at ht'
          cases ht'
        · rw [Function.update_of_ne heq] at ht'
          exact absurd (h.gated_eq ht ht' hg (hold.acts (by rw [hp]; rfl))) heq
      clients := fun c client hc =>
        have hold := hend.clients c client hc
        ⟨hold.document, hold.epoch, hold.open_⟩
      live := fun e' j hl => by
        obtain ⟨rfl, rfl⟩ : e = e' ∧ k = j := by simpa using hl
        exact ⟨hcurrent ▸ hle, hnext ▸ hlt, by rw [hinstances]; exact hepoch⟩
      home := fun j hu he => absurd hu (hnone j (by rw [← hinstances, ← hcurrent]; exact he)) }

/-- What the runtime knows of the connections says nothing about documents. -/
theorem Inv.connections (h : Inv s) (connections : Nat → Option EpochConnection) :
    Inv { s with connections := connections } :=
  { h with
    tasks := fun t' task ht' =>
      have hold := h.tasks t' task ht'
      { hold with
        ready := fun hg => (hold.ready hg).mono hold.known rfl rfl rfl (fun _ => rfl)
          fun _ _ => rfl }
    clients := fun c client hc =>
      have hold := h.clients c client hc
      ⟨hold.document, hold.epoch, hold.open_⟩ }

theorem Inv.acknowledge (h : Inv s) {c epoch : Nat} : Inv (s.acknowledge c epoch) := by
  unfold State.acknowledge
  split
  · split
    · exact h.connections _
    · exact h
  · exact h

/-! ## Steps -/

/-- `get_or_load` returned. -/
theorem Inv.continueLoaded (h : Inv s) {op : Op υ} {e i : Nat}
    (ht : s.tasks t = some ⟨op, .loaded e i⟩) (hstep : s.continueLoaded t op e i = some s') :
    Inv s' := by
  have hself := h.tasks t _ ht
  have huse : Used s i := .inl ⟨t, _, ht, decide_eq_true rfl⟩
  have huses : ∀ j, i = j → Used s j := fun j hj => hj ▸ huse
  have hfree : (Point.loaded e i : Point υ).Free := ⟨nofun, nofun⟩
  obtain ⟨-, hlt, hepoch⟩ := hself.known
  -- A server write, which no pending epoch has stopped.
  have hwriting : ∀ u, (∀ c u, op ≠ .update c u) → (⟨op, .loaded e i⟩ : Task υ).gated = true →
      (∀ c p, op ≠ .activating c p) → s.pending = none → Inv (s.goto t op (.writing i u)) := by
    intro u hop hg hact hnone
    have hg' : (⟨op, .writing i u⟩ : Task υ).gated = true := by
      cases op <;> first | rfl | cases hg
    refine h.goto ht ?_ (fun j hj _ => huses j (of_decide_eq_true hj).symm) hfree
    exact
      { gate := fun _ => hself.gate hg
        lock := nofun
        known := hlt
        acts := fun _ => hg'
        started := fun c p hop => absurd hop (hact c p)
        ready := fun _ => ⟨hepoch.trans (hself.ready hg), .inr hnone⟩
        activating := fun _ c p hop => absurd hop (hact c p)
        busy := fun c u hop' => absurd hop' (hop c u)
        quiet := fun hq => hq.elim
        unlisted := nofun }
  cases op with
  | apply expected update =>
      simp only [State.continueLoaded] at hstep
      split at hstep
      · exact Option.some.inj hstep ▸ h.finish ht hfree
      · split at hstep
        · exact Option.some.inj hstep ▸ h.finish ht hfree
        · rename_i hnone
          refine Option.some.inj hstep ▸ hwriting update nofun rfl nofun ?_
          exact Option.not_isSome_iff_eq_none.mp hnone
  | modify build =>
      simp only [State.continueLoaded] at hstep
      split at hstep
      · exact Option.some.inj hstep ▸ h.finish ht hfree
      · split at hstep
        · exact Option.some.inj hstep ▸ h.finish ht hfree
        · rename_i hnone
          refine Option.some.inj hstep ▸ hwriting _ nofun rfl nofun ?_
          exact Option.not_isSome_iff_eq_none.mp hnone
  | begin expected =>
      simp only [State.continueLoaded] at hstep
      split at hstep
      · exact Option.some.inj hstep ▸ h.finish ht hfree
      · exact Option.some.inj hstep ▸ (h.propose ht).finish ht hfree
  | activating current pending =>
      have hg : (⟨.activating current pending, .loaded e i⟩ : Task υ).gated = true := rfl
      have hcurrent : (s.instances i).epoch = s.current := hepoch.trans (hself.ready hg)
      refine Option.some.inj hstep ▸
        h.goto ht ?_ (fun j hj _ => huses j (of_decide_eq_true hj).symm) hfree
      exact
        { gate := fun _ => hself.gate hg
          lock := nofun
          known := hlt
          acts := fun _ => rfl
          started := fun _ _ _ => rfl
          ready := fun _ => ⟨hcurrent, h.contents i huse hcurrent⟩
          activating := fun _ c p hop _ => hself.activating hg c p hop nofun
          busy := nofun
          quiet := fun hq => hq.elim
          unlisted := nofun }
  | connect requested =>
      simp only [State.continueLoaded] at hstep
      split at hstep
      · exact Option.some.inj hstep ▸ h.finish ht hfree
      · exact Option.some.inj hstep ▸ (h.register ht).finish ht hfree
  | _ => cases hstep

/-- A task that takes a lock on its way. -/
theorem Inv.take (h : Inv s) (ht : s.tasks t = some task) {op : Op υ} {p : Point υ}
    {g l : Option Nat} {a : Bool}
    (hgate : ∀ t', t' ≠ t → s.writeGate = some t' → g = some t')
    (hlock : ∀ t', t' ≠ t → s.loadLock = some t' → l = some t')
    (hok : TaskOk { s with writeGate := g, loadLock := l } t ⟨op, p⟩)
    (huses : ∀ i, p.uses i = true → (s.instances i).epoch = s.current → Used s i)
    (hleft : (∀ i, task.point = .inserting s.current i → s.live = some (s.current, i)) ∧
      ∀ i source replacement, task.point ≠ .committing i source replacement) :
    Inv ({ s with writeGate := g, loadLock := l, activating := a }.goto t op p) := by
  refine h.retask (n := s.nextTask) le_rfl (h.lt_nextTask ht) hgate hlock ?_ ?_ ?_
  · rintro _ ⟨⟩
    exact hok
  · rintro _ ⟨⟩
    exact huses
  · intro old hold
    obtain rfl : task = old := Option.some.inj (ht.symm.trans hold)
    exact hleft

/-- At the write gate. -/
theorem Inv.advance_gate (h : Inv s) {op : Op υ} (ht : s.tasks t = some ⟨op, .gate⟩)
    (hfree : s.writeGate = none) {p : Point υ} (hp : p = .gated ∨ p = .waiting) :
    Inv ({ s with writeGate := some t }.goto t op p) := by
  have hself := h.tasks t _ ht
  have hact : ∀ c p, op ≠ .activating c p := by
    rintro c p rfl
    cases hself.started c p rfl
  refine h.take (l := s.loadLock) (a := s.activating) ht ?_ (fun _ _ h => h) ?_ ?_
    ⟨nofun, nofun⟩
  · intro t' _ hg
    rw [hfree] at hg
    cases hg
  · rcases hp with rfl | rfl
    all_goals exact
      { gate := fun _ => rfl
        lock := nofun
        known := trivial
        acts := nofun
        started := fun c p hop => absurd hop (hact c p)
        ready := fun _ => trivial
        activating := fun _ c p hop => absurd hop (hact c p)
        busy := hself.busy
        quiet := fun hq => hq.elim
        unlisted := nofun }
  · rcases hp with rfl | rfl <;> exact nofun

/-- Inside `get_or_load`. -/
theorem TaskOk.along {op : Op υ} {p q : Point υ} {l : Option Nat}
    (h : TaskOk s t ⟨op, p⟩) (hgated : (⟨op, q⟩ : Task υ).gated = (⟨op, p⟩ : Task υ).gated)
    (hlock : q.locked = true → l = some t) (hknown : q.Known s) (hacts : q.acts = false)
    (hready : (⟨op, q⟩ : Task υ).gated = true → (⟨op, q⟩ : Task υ).Ready s)
    (hquiet : q.Quiet s.current → ∀ i, (s.instances i).epoch = s.current → ¬ Used s i)
    (hplain : p.acts = false) : TaskOk { s with loadLock := l } t ⟨op, q⟩ where
  gate := fun hg => h.gate (hgated.symm.trans hg)
  lock := hlock
  known := hknown.mono le_rfl le_rfl fun _ _ => rfl
  acts := fun ha => absurd (hacts.symm.trans ha) nofun
  started := fun c p hop => hgated.trans (h.started c p hop)
  ready := fun hg => (hready hg).mono hknown rfl rfl rfl (fun _ => rfl) fun _ _ => rfl
  activating := fun hg c p' hop _ => by
    refine h.activating (hgated.symm.trans hg) c p' hop ?_
    rintro i e k rfl
    cases hplain
  busy := h.busy
  quiet := hquiet
  unlisted := fun i e k hp => by
    obtain rfl : q = .publishing i e k := hp
    cases hacts

/-- `live_document` -/
theorem Inv.advance_looking (h : Inv s) {op : Op υ} {e : Nat}
    (ht : s.tasks t = some ⟨op, .looking e⟩) :
    (∀ i, s.live = some (e, i) → s.alive i = true →
      Inv ({ s with loadLock := none }.goto t op (.loaded e i))) ∧
    ((∀ i, s.live = some (e, i) → s.alive i = false) → Inv (s.goto t op (.loading e))) := by
  have hself := h.tasks t _ ht
  constructor
  · intro i hlive halive
    obtain ⟨hle, hlt, hepoch⟩ := h.live e i hlive
    refine h.take (g := s.writeGate) (a := s.activating) ht (fun _ _ h => h) ?_ ?_ ?_
      ⟨nofun, nofun⟩
    · intro t' hne hl
      exact absurd (Option.some.inj (hl.symm.trans (hself.lock rfl))) hne
    · refine hself.along ?_ nofun ⟨hle, hlt, hepoch⟩ rfl ?_ nofun rfl
      · cases op <;> rfl
      · cases op <;> exact hself.ready
    · intro j hj he
      obtain rfl : j = i := of_decide_eq_true hj
      have hcurrent : e = s.current := hepoch.symm.trans he
      rcases used_or_publishing halive with hu | ⟨t', task', j', e', k, ht', hp⟩
      · exact hu
      · exact absurd (hcurrent ▸ hlive) ((h.tasks t' task' ht').unlisted j' e' k hp j)
  · intro hdead
    refine h.goto ht ?_ nofun ⟨nofun, nofun⟩
    refine hself.along (l := s.loadLock) ?_ (fun _ => hself.lock rfl) hself.known rfl ?_ ?_ rfl
    · cases op <;> rfl
    · cases op <;> exact hself.ready
    · intro _ i he hu
      by_cases hcurrent : e = s.current
      · -- It would have been found, or another task would have the load lock.
        rcases h.home i hu he with hlive | ⟨t', task', ht', hp⟩
        · have halive := hu.alive h
          rw [hdead i (hcurrent ▸ hlive)] at halive
          cases halive
        · obtain rfl := h.locked_eq ht ht' rfl (by rw [hp]; rfl)
          obtain rfl := Option.some.inj (ht.symm.trans ht')
          cases hp
      · exact hself.quiet hcurrent i he hu

theorem Inv.advance (h : Inv s) {timedOut : Bool} (ht : s.tasks t = some task)
    (hcond : NoLoadInside s (.advance t timedOut))
    (hstep : s.advance t timedOut task = some s') : Inv s' := by
  have hself := h.tasks t task ht
  obtain ⟨op, p⟩ := task
  cases p with
  | gate =>
      simp only [State.advance] at hstep
      split at hstep
      · cases hstep
      · rename_i hsome
        have hfree : s.writeGate = none := Option.not_isSome_iff_eq_none.mp hsome
        cases op with
        | update c u => exact Option.some.inj hstep ▸ h.advance_gate ht hfree (.inl rfl)
        | activate => exact Option.some.inj hstep ▸ h.advance_gate ht hfree (.inl rfl)
        | _ => exact Option.some.inj hstep ▸ h.advance_gate ht hfree (.inr rfl)
  | gated =>
      cases op with
      | update c u =>
          obtain ⟨client, hc, hbusy⟩ := hself.busy c u rfl
          have hclient := h.clients c client hc
          simp only [State.advance, hc] at hstep
          split at hstep
          · rename_i hwrite
            -- the update of a connection is taken only in the epoch it has
            have hcurrent : s.current = client.epoch := by
              have hand := (Bool.and_eq_true_iff.mp hwrite).1
              exact of_decide_eq_true hand
            refine Option.some.inj hstep ▸ h.goto ht ?_ ?_ ⟨nofun, nofun⟩
            · exact
                { gate := fun _ => hself.gate rfl
                  lock := nofun
                  known := hclient.document
                  acts := fun _ => rfl
                  started := nofun
                  ready := fun _ => ⟨hclient.epoch.trans hcurrent.symm, .inl ⟨c, u, rfl⟩⟩
                  activating := nofun
                  busy := fun c' u' hop => by
                    obtain ⟨rfl, -⟩ := Op.update.inj hop
                    exact ⟨client, hc, hbusy⟩
                  quiet := fun hq => hq.elim
                  unlisted := nofun }
            · intro j hj _
              exact .inr ⟨c, client, hc, (of_decide_eq_true hj).symm⟩
          · exact Option.some.inj hstep ▸ h.finish ht ⟨nofun, nofun⟩
      | activate =>
          simp only [State.advance] at hstep
          split at hstep
          · exact Option.some.inj hstep ▸ h.finish ht ⟨nofun, nofun⟩
          · rename_i pending hpending
            split at hstep
            · exact Option.some.inj hstep ▸ h.finish ht ⟨nofun, nofun⟩
            · refine Option.some.inj hstep ▸ h.take (g := s.writeGate) (l := s.loadLock)
                ht (fun _ _ h => h) (fun _ _ h => h) ?_ nofun ⟨nofun, nofun⟩
              exact
                { gate := fun _ => hself.gate rfl
                  lock := nofun
                  known := trivial
                  acts := nofun
                  started := fun _ _ _ => rfl
                  ready := fun _ => trivial
                  activating := fun _ c p hop _ => by
                    obtain ⟨rfl, rfl⟩ := Op.activating.inj hop
                    exact ⟨rfl, hpending⟩
                  busy := nofun
                  quiet := fun hq => hq.elim
                  unlisted := nofun }
      | _ => cases hstep
  | waiting =>
      simp only [State.advance] at hstep
      split at hstep
      · cases hstep
      · rename_i hsome
        have hfree : s.loadLock = none := Option.not_isSome_iff_eq_none.mp hsome
        refine Option.some.inj hstep ▸ h.take (g := s.writeGate)
          (a := s.activating) ht (fun _ _ h => h) ?_ ?_ nofun ⟨nofun, nofun⟩
        · intro t' _ hl
          rw [hfree] at hl
          cases hl
        · refine hself.along ?_ (fun _ => rfl) trivial rfl (fun _ => trivial) nofun rfl
          cases op <;> rfl
  | reading =>
      refine Option.some.inj hstep ▸ h.goto ht ?_ nofun ⟨nofun, nofun⟩
      refine hself.along (l := s.loadLock) ?_ (fun _ => hself.lock rfl) le_rfl rfl
        (fun _ => rfl) (fun hq => absurd rfl hq) rfl
      cases op <;> rfl
  | looking e =>
      -- the entry of `documents` is alive and of this epoch, or the document is loaded
      obtain ⟨hfound, hmissed⟩ := h.advance_looking ht
      simp only [State.advance] at hstep
      split at hstep
      · rename_i e' i hlive
        split at hstep
        · rename_i htest
          obtain ⟨he, halive⟩ := Bool.and_eq_true_iff.mp htest
          obtain rfl := of_decide_eq_true he
          exact Option.some.inj hstep ▸ hfound i hlive halive
        · rename_i htest
          refine Option.some.inj hstep ▸ hmissed fun j hj => ?_
          obtain ⟨rfl, rfl⟩ : e' = e ∧ i = j := by simpa using hlive.symm.trans hj
          simpa using htest
      · rename_i hlive
        refine Option.some.inj hstep ▸ hmissed fun j hj => ?_
        rw [hlive] at hj
        cases hj
  -- this is where the condition of the run is needed
  | loading e => exact Option.some.inj hstep ▸ h.load ht fun t' op' i k => hcond op e ht t' op' i k
  | inserting e i =>
      have hins := h.insert ht
      refine Option.some.inj hstep ▸ hins.take (g := s.writeGate) (a := s.activating)
        ht (fun _ _ h => h) ?_ ?_ ?_ ⟨?_, nofun⟩
      · intro t' hne hl
        exact absurd (Option.some.inj (hl.symm.trans (hself.lock rfl))) hne
      · refine (hins.tasks t _ ht).along ?_ nofun hself.known rfl ?_ nofun rfl
        · cases op <;> rfl
        · cases op <;> exact hself.ready
      · intro j hj _
        exact .inl ⟨t, _, ht, hj⟩
      · intro j hp
        obtain ⟨hcurrent, hdocument⟩ : e = s.current ∧ i = j := Point.inserting.inj hp
        show some (e, i) = some (s.current, j)
        rw [hcurrent, hdocument]
  | loaded e i => exact h.continueLoaded ht hstep
  | writing i u =>
      have hfree : (Point.writing i u : Point υ).Free := ⟨nofun, nofun⟩
      cases op with
      | update c u' =>
          obtain ⟨client, hc, hbusy⟩ := hself.busy c u' rfl
          have hopen := (h.clients c client hc).open_ (by rw [hbusy]; exact nofun)
          exact Option.some.inj hstep ▸ (h.write (k := some c) ht nofun hopen).finish ht hfree
      | _ => exact Option.some.inj hstep ▸ (h.write ht (fun _ => nofun) rfl).finish ht hfree
  | creating i source =>
      cases op with
      | activating current pending => exact Option.some.inj hstep ▸ h.create ht
      | _ => cases hstep
  | committing i source replacement =>
      cases op with
      | activating current pending =>
          -- the write gate was held all along, so the epochs are those the task began with
          obtain ⟨rfl, hpending⟩ := hself.activating rfl _ _ rfl nofun
          simp only [State.advance] at hstep
          rw [if_neg (by simp [hpending])] at hstep
          exact Option.some.inj hstep ▸ h.commit ht
      | _ => cases hstep
  | publishing i e k => exact Option.some.inj hstep ▸ h.publish ht

/-- A connection that is about to be closed has acknowledged. -/
theorem Inv.setAcknowledged (h : Inv s) {c : Nat} (hlt : c < s.nextConnection)
    (hleaving : ∀ client, s.clients c = some client → client.status = .leaving) :
    Inv { s with acknowledged := Function.update s.acknowledged c true } :=
  { h with
    tasks := fun t' task ht' =>
      have hold := h.tasks t' task ht'
      { hold with
        ready := fun hg => (hold.ready hg).mono hold.known rfl rfl rfl (fun _ => rfl)
          fun _ _ => rfl }
    clients := fun c' client hc' => by
      have hold := h.clients c' client hc'
      refine ⟨hold.document, hold.epoch, fun hne => ?_⟩
      have hother : c' ≠ c := by
        rintro rfl
        exact hne (hleaving client hc')
      exact (Function.update_of_ne hother ..).trans (hold.open_ hne)
    freshClient := fun c' hle => by
      have hle : s.nextConnection ≤ c' := hle
      refine ⟨(h.freshClient c' hle).1, ?_⟩
      exact (Function.update_of_ne (by omega) ..).trans (h.freshClient c' hle).2 }

theorem Inv.close (h : Inv s) {c : Nat} {client : Client} (hc : s.clients c = some client)
    (hleaving : client.status = .leaving) :
    Inv { s with
      connections := Function.update s.connections c none
      clients := Function.update s.clients c none } := by
  have hold_client : ∀ c' client', Function.update s.clients c none c' = some client' →
      s.clients c' = some client' := by
    intro c' client' hc'
    by_cases heq : c' = c
    · subst heq
      rw [Function.update_self] at hc'
      cases hc'
    · rwa [Function.update_of_ne heq] at hc'
  have hused : ∀ i, Used { s with
      connections := Function.update s.connections c none
      clients := Function.update s.clients c none } i → Used s i := by
    rintro i (hi | ⟨c', client', hc', hdoc⟩)
    · exact .inl hi
    · exact .inr ⟨c', client', hold_client c' client' hc', hdoc⟩
  exact
    { h with
      tasks := fun t' task ht' =>
        have hold := h.tasks t' task ht'
        { hold with
          ready := fun hg => (hold.ready hg).mono hold.known rfl rfl rfl (fun _ => rfl)
            fun _ _ => rfl
          busy := fun c' u hop => by
            obtain ⟨client', hc', hbusy⟩ := hold.busy c' u hop
            have hne : c' ≠ c := by
              rintro rfl
              obtain rfl : client = client' := Option.some.inj (hc.symm.trans hc')
              cases hleaving.symm.trans hbusy
            exact ⟨client', (Function.update_of_ne hne ..).trans hc', hbusy⟩
          quiet := fun hq i he hu => hold.quiet hq i he (hused i hu) }
      clients := fun c' client' hc' => by
        have hold := h.clients c' client' (hold_client c' client' hc')
        exact ⟨hold.document, hold.epoch, hold.open_⟩
      freshClient := fun c' hle => by
        refine ⟨?_, (h.freshClient c' hle).2⟩
        have hlt := h.lt_nextConnection hc
        have hle : s.nextConnection ≤ c' := hle
        exact (Function.update_of_ne (by omega) ..).trans (h.freshClient c' hle).1
      home := fun i hu => h.home i (hused i hu)
      unique := fun i j hi hj => h.unique i j (hused i hi) (hused j hj)
      contents := fun i hi => h.contents i (hused i hi) }

theorem any_status {c : Nat} {status : Status}
    (h : (s.clients c).any (·.status = status) = true) :
    ∃ client, s.clients c = some client ∧ client.status = status := by
  cases hc : s.clients c with
  | none =>
      rw [hc] at h
      cases h
  | some client =>
      rw [hc] at h
      exact ⟨client, rfl, of_decide_eq_true h⟩

/-- No task works for an idle connection. -/
theorem Inv.not_update (h : Inv s) {c : Nat} {client : Client} (hc : s.clients c = some client)
    (hidle : client.status = .idle) (t : Nat) (task : Task υ) (u : υ)
    (ht : s.tasks t = some task) : task.op ≠ .update c u := by
  intro hop
  obtain ⟨client', hc', hbusy⟩ := (h.tasks t task ht).busy c u hop
  obtain rfl : client = client' := Option.some.inj (hc.symm.trans hc')
  cases hidle.symm.trans hbusy

theorem Inv.step (h : Inv s) {e : Event υ} (hcond : NoLoadInside s e)
    (hstep : step s e = some s') : Inv s' := by
  cases e with
  | apply expected update =>
      exact Option.some.inj hstep ▸ h.spawn (.inl rfl) rfl (fun _ _ => nofun) nofun
  | modify build => exact Option.some.inj hstep ▸ h.spawn (.inl rfl) rfl (fun _ _ => nofun) nofun
  | begin expected => exact Option.some.inj hstep ▸ h.spawn (.inl rfl) rfl (fun _ _ => nofun) nofun
  | activate => exact Option.some.inj hstep ▸ h.spawn (.inl rfl) rfl (fun _ _ => nofun) nofun
  | connect requested =>
      exact Option.some.inj hstep ▸ h.spawn (.inr rfl) rfl (fun _ _ => nofun) nofun
  | update c u =>
      simp only [Switch.step] at hstep
      split at hstep
      · rename_i hany
        obtain ⟨client, hc, hidle⟩ := any_status hany
        have hbusy : Inv (s.setStatus c (.busy s.nextTask)) := by
          refine h.setStatus (h.not_update hc hidle) fun _ client' hc' => ?_
          obtain rfl : client = client' := Option.some.inj (hc.symm.trans hc')
          rw [hidle]
          exact nofun
        refine Option.some.inj hstep ▸ hbusy.spawn (.inl rfl) rfl (fun _ _ => nofun) ?_
        intro c' u' hop
        obtain ⟨rfl, -⟩ := Op.update.inj hop
        refine ⟨{ client with status := .busy s.nextTask }, ?_, rfl⟩
        show Function.update s.clients c ((s.clients c).map fun client =>
          { client with status := .busy s.nextTask }) c = _
        rw [Function.update_self, hc]
        rfl
      · cases hstep
  | advance t timedOut =>
      obtain ⟨task, ht, hadvance⟩ := Option.bind_eq_some_iff.mp hstep
      exact h.advance ht hcond hadvance
  | acknowledge c epoch =>
      simp only [Switch.step] at hstep
      split at hstep
      · rename_i hany
        obtain ⟨client, hc, hidle⟩ := any_status hany
        obtain ⟨hclients, htasks, hacknowledged⟩ :
            (s.acknowledge c epoch).clients = s.clients ∧
              (s.acknowledge c epoch).tasks = s.tasks ∧
                (s.acknowledge c epoch).acknowledged = s.acknowledged := by
          unfold State.acknowledge
          split
          · split <;> exact ⟨rfl, rfl, rfl⟩
          · exact ⟨rfl, rfl, rfl⟩
        have hleft : Inv ((s.acknowledge c epoch).setStatus c .leaving) :=
          h.acknowledge.setStatus (fun t task u ht => h.not_update hc hidle t task u (htasks ▸ ht))
            (absurd rfl)
        have hlt : c < (s.acknowledge c epoch).nextConnection :=
          h.acknowledge.lt_nextConnection (hclients ▸ hc)
        have hend := hleft.setAcknowledged (c := c) hlt fun client' hc' => by
          obtain ⟨_, -, -, -, ⟨-, hstatus⟩ | ⟨hne, -⟩⟩ := State.setStatus_clients hc'
          · exact hstatus
          · exact absurd rfl hne
        rw [← hacknowledged] at hstep
        exact Option.some.inj hstep ▸ hend
      · cases hstep
  | leave c =>
      simp only [Switch.step] at hstep
      split at hstep
      · rename_i hany
        obtain ⟨client, hc, hidle⟩ := any_status hany
        exact Option.some.inj hstep ▸ h.setStatus (h.not_update hc hidle) (absurd rfl)
      · cases hstep
  | close c =>
      simp only [Switch.step] at hstep
      split at hstep
      · rename_i hany
        obtain ⟨client, hc, hleaving⟩ := any_status hany
        exact Option.some.inj hstep ▸ h.close hc hleaving
      · cases hstep

/-! ## Runs -/

/-- The server has started, with the document at some epoch. -/
def State.init (epoch : Nat) (stored : Option (List υ)) : State υ where
  current := epoch
  pending := none
  connections := fun _ => none
  activating := false
  writeGate := none
  loadLock := none
  disk := Function.update (fun _ => none) epoch stored
  instances := fun _ => ⟨epoch, []⟩
  nextInstance := 0
  live := none
  tasks := fun _ => none
  nextTask := 0
  clients := fun _ => none
  nextConnection := 0
  acked := []
  acknowledged := fun _ => false
  applied := []
  commits := []

def Starts (s : State υ) : Prop := ∃ epoch stored, s = State.init epoch stored

theorem Inv.init (epoch : Nat) (stored : Option (List υ)) : Inv (State.init epoch stored) := by
  have hused : ∀ i, ¬ Used (State.init epoch stored) i := by
    rintro i (⟨_, _, ht, -⟩ | ⟨_, _, hc, -⟩)
    · cases ht
    · cases hc
  exact
    { tasks := nofun
      clients := nofun
      freshTask := fun _ _ => rfl
      freshClient := fun _ _ => ⟨rfl, rfl⟩
      live := nofun
      epochs := nofun
      home := fun i hu => absurd hu (hused i)
      unique := fun i _ hu => absurd hu (hused i)
      contents := fun i hu => absurd hu (hused i)
      disk := List.nil_subset _
      ahead := fun e he hd => by
        have he : epoch < e := he
        have hnone : Function.update (fun _ => none) epoch stored e = none :=
          Function.update_of_ne (by omega) ..
        rw [show (State.init epoch stored).disk e = none from hnone] at hd
        cases hd
      pending := nofun
      applied := nofun
      commits := nofun }

theorem inv_of_reach (h : Reach Starts (Where NoLoadInside (Takes step)) s) : Inv s := by
  have hinit : ∀ s : State υ, Starts s → Inv s := by
    rintro _ ⟨epoch, stored, rfl⟩
    exact .init epoch stored
  have hstep : ∀ (s : State υ) (e : Event υ) (s' : State υ), Inv s →
      Where NoLoadInside (Takes step) s e s' → Inv s' :=
    fun _ _ _ h hs => h.step hs.1 hs.2
  exact h.invariant hinit hstep

/-- Where nothing is loaded between a commit and its insertion, what was acknowledged
before an activation is in the document that the new epoch is made of, and every update
goes to the current epoch: from a connection, before this acknowledges a new one, from the
server, while no epoch is pending. -/
theorem no_write_lost_at_switch (s : State υ)
    (h : Reach Starts (Where NoLoadInside (Takes step)) s) :
    (∀ c ∈ s.commits, c.acked ⊆ c.source) ∧
      ∀ a ∈ s.applied, a.epoch = a.current ∧ (a.connection = none → a.pending = none) ∧
        a.acknowledged = false :=
  ⟨(inv_of_reach h).commits, (inv_of_reach h).applied⟩

/-- A connection writes, and the activation that it has acknowledged is committed. -/
theorem no_write_lost_at_switch_once :
    ∃ s : State Nat, s.commits.map Committed.acked = [[7]] ∧
      (∀ c ∈ s.commits, c.acked ⊆ c.source) ∧
        ∀ a ∈ s.applied, a.epoch = a.current ∧ (a.connection = none → a.pending = none) ∧
          a.acknowledged = false := by
  let enter : List (Event Nat) := .connect none :: List.replicate 6 (.advance 0 false)
  let write : List (Event Nat) := .update 0 7 :: List.replicate 3 (.advance 1 false)
  let propose : List (Event Nat) := .begin none :: List.replicate 5 (.advance 2 false)
  let activate : List (Event Nat) :=
    [.acknowledge 0 1, .activate] ++ List.replicate 8 (.advance 3 false)
  let events := enter ++ write ++ propose ++ activate
  have hrun : ((events.foldlM step (State.init 0 none)).map fun s =>
      s.commits.map Committed.acked) = some [[7]] := by decide
  obtain ⟨s, hs, hcommits⟩ := Option.map_eq_some_iff.mp hrun
  -- There is one task, so no activation is under way, where the document is loaded.
  have hmeets : Meets NoLoadInside step (State.init 0 none) events :=
    .cons trivial rfl <| .cons nofun rfl <| .cons nofun rfl <| .cons nofun rfl <|
    .cons (fun _ _ _ t' _ _ _ => by cases t' <;> exact nofun) rfl <|
    .cons nofun rfl <| .cons nofun rfl <| .cons trivial rfl <|
    .cons nofun rfl <| .cons nofun rfl <| .cons nofun rfl <| .cons trivial rfl <|
    .cons nofun rfl <| .cons nofun rfl <| .cons nofun rfl <| .cons nofun rfl <|
    .cons nofun rfl <| .cons trivial rfl <| .cons trivial rfl <| .cons nofun rfl <|
    .cons nofun rfl <| .cons nofun rfl <| .cons nofun rfl <| .cons nofun rfl <|
    .cons nofun rfl <| .cons nofun rfl <| .cons nofun rfl <| trivial
  have hstart : Starts (State.init 0 (none : Option (List Nat))) := ⟨0, none, rfl⟩
  exact ⟨s, hcommits, no_write_lost_at_switch s (.run_where (.start hstart) hs hmeets)⟩

/-- A load that falls inside an activation: `B` then writes to a document that `C` does not
have, and the next epoch is made of the document of `C`. -/
theorem not_no_write_lost_at_switch :
    ¬ ∀ s : State Nat, Reach Starts (Takes step) s →
      (∀ c ∈ s.commits, c.acked ⊆ c.source) ∧
        ∀ a ∈ s.applied, a.epoch = a.current ∧ (a.connection = none → a.pending = none) ∧
          a.acknowledged = false := by
  intro hclaim
  let enter (t : Nat) : List (Event Nat) := .connect none :: List.replicate 6 (.advance t false)
  let propose (t : Nat) : List (Event Nat) := .begin none :: List.replicate 5 (.advance t false)
  let activate (t : Nat) : List (Event Nat) := .activate :: List.replicate 8 (.advance t false)
  let events := enter 0 ++ propose 1 ++ [.acknowledge 0 1] ++ activate 2 ++ enter 3 ++
    [.advance 2 false] ++ enter 4 ++ .update 1 7 :: List.replicate 3 (.advance 5 false) ++
      propose 6 ++ [.acknowledge 1 2, .acknowledge 2 2] ++ activate 7
  have hrun : ((events.foldlM step (State.init 0 none)).map fun s =>
      s.commits.map fun c => (c.acked, c.source)) = some [([7], []), ([], [])] := by decide
  obtain ⟨s, hs, hcommits⟩ := Option.map_eq_some_iff.mp hrun
  have hstart : Starts (State.init 0 (none : Option (List Nat))) := ⟨0, none, rfl⟩
  have hkept := (hclaim s (Reach.run (.start hstart) hs)).1
  have hlost : (([7], []) : List Nat × List Nat) ∈ s.commits.map fun c => (c.acked, c.source) := by
    rw [hcommits]
    exact List.mem_cons_self
  obtain ⟨c, hc, heq⟩ := List.mem_map.mp hlost
  obtain ⟨hacked, hsource⟩ := Prod.mk.inj heq
  have hsub := hkept c hc
  rw [hacked, hsource] at hsub
  exact absurd (hsub List.mem_cons_self) List.not_mem_nil

end Realtime.Epoch.Switch
