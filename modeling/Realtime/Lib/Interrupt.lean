import Mathlib.Data.List.Basic

/-!
# Programs that may be stopped

A program changes a state by actions, one after another. A schedule says of each
action in turn whether it is carried out, fails, or is the last thing that happens,
and how far it got. What a program leaves behind is described by three conditions:
on the states in which it returns, in which it gives up, and in which it is stopped.
-/

namespace Lib.Interrupt

universe u

variable {σ : Type u} {ε α β : Type}

/-- What becomes of an action that is not carried out: it fails, or the process ends.
The number picks one of the states in which the action may be left. -/
inductive Fault
  | fails (left : Nat)
  | stops (left : Nat)
  deriving DecidableEq, Repr

abbrev Schedule := List (Option Fault)

/-- A program gives up with an error of its own, or with `none` where an action failed. -/
inductive Result (σ : Type u) (ε α : Type) : Type u
  | ok (a : α) (s : σ) (rest : Schedule)
  | error (e : Option ε) (s : σ) (rest : Schedule)
  | stopped (s : σ)

namespace Result

/-- The state that is left. -/
def state : Result σ ε α → σ
  | ok _ s _ => s
  | error _ s _ => s
  | stopped s => s

/-- What holds of the state, by how the program ended. -/
def Holds (Q : α → σ → Prop) (E : Option ε → σ → Prop) (C : σ → Prop) : Result σ ε α → Prop
  | ok a s _ => Q a s
  | error e s _ => E e s
  | stopped s => C s

/-- No action failed and nothing stopped the program. -/
def Calm : Result σ ε α → Prop
  | ok _ _ rest => rest = []
  | error e _ rest => e.isSome ∧ rest = []
  | stopped _ => False

theorem Holds.mono {Q Q' : α → σ → Prop} {E E' : Option ε → σ → Prop} {C C' : σ → Prop}
    {r : Result σ ε α} (h : r.Holds Q E C) (hQ : ∀ a s, Q a s → Q' a s)
    (hE : ∀ e s, E e s → E' e s) (hC : ∀ s, C s → C' s) : r.Holds Q' E' C' := by
  cases r with
  | ok a s rest => exact hQ a s h
  | error e s rest => exact hE e s h
  | stopped s => exact hC s h

end Result

/-- A program. Under a schedule without faults it runs to its end. -/
structure Prog (σ : Type u) (ε α : Type) where
  run : σ → Schedule → Result σ ε α
  calm : ∀ s, (run s []).Calm

namespace Prog

def ret (a : α) : Prog σ ε α where
  run s sched := .ok a s sched
  calm _ := rfl

/-- Go on with `k`, unless the program gave up or was stopped. -/
def next (k : α → Prog σ ε β) : Result σ ε α → Result σ ε β
  | .ok a s rest => (k a).run s rest
  | .error e s rest => .error e s rest
  | .stopped s => .stopped s

def seq (m : Prog σ ε α) (k : α → Prog σ ε β) : Prog σ ε β where
  run s sched := next k (m.run s sched)
  calm s := by
    have hm := m.calm s
    cases hrun : m.run s [] with
    | ok a t rest =>
        rw [hrun] at hm
        cases (show rest = [] from hm)
        exact (k a).calm t
    | error e t rest =>
        rw [hrun] at hm
        exact hm
    | stopped t =>
        rw [hrun] at hm
        exact hm.elim

instance : Monad (Prog σ ε) where
  pure := ret
  bind := seq

def raise (e : ε) : Prog σ ε α where
  run s sched := .error (some e) s sched
  calm _ := ⟨rfl, rfl⟩

def read (f : σ → α) : Prog σ ε α where
  run s sched := .ok (f s) s sched
  calm _ := rfl

/-- An action that may be left in the state before it or in one of `left`. -/
def act (left : σ → List σ) (effect : σ → σ) : Prog σ ε Unit where
  run s sched :=
    match sched with
    | [] => .ok () (effect s) []
    | none :: rest => .ok () (effect s) rest
    | some (.fails k) :: rest => .error none ((left s).getD k s) rest
    | some (.stops k) :: _ => .stopped ((left s).getD k s)
  calm _ := rfl

/-- An action that is carried out at once or not at all. -/
def atomic (effect : σ → σ) : Prog σ ε Unit := act (fun _ => []) effect

/-- What an error of the program is, for the program to go on with. -/
def caught : Result σ ε α → Result σ ε (Except (Option ε) α)
  | .ok a s rest => .ok (.ok a) s rest
  | .error e s rest => .ok (.error e) s rest
  | .stopped s => .stopped s

def attempt (m : Prog σ ε α) : Prog σ ε (Except (Option ε) α) where
  run s sched := caught (m.run s sched)
  calm s := by
    have hm := m.calm s
    cases hrun : m.run s [] with
    | ok a t rest =>
        rw [hrun] at hm
        exact hm
    | error e t rest =>
        rw [hrun] at hm
        exact hm.2
    | stopped t =>
        rw [hrun] at hm
        exact hm.elim

/-- The result of a handler, behind which the program still gives up with `e`. -/
def raising (e : Option ε) : Result σ ε Unit → Result σ ε α
  | .ok _ s rest => .error e s rest
  | .error e' s rest => .error e' s rest
  | .stopped s => .stopped s

def handle (handler : Prog σ ε Unit) : Result σ ε α → Result σ ε α
  | .ok a s rest => .ok a s rest
  | .error e s rest => raising e (handler.run s rest)
  | .stopped s => .stopped s

theorem calm_raising {e : Option ε} (he : e.isSome) {r : Result σ ε Unit} (h : r.Calm) :
    (raising e r : Result σ ε α).Calm := by
  cases r with
  | ok u t rest => exact ⟨he, h⟩
  | error e' t rest => exact h
  | stopped t => exact h.elim

/-- Carry out `handler` where `m` gives up. -/
def onError (m : Prog σ ε α) (handler : Prog σ ε Unit) : Prog σ ε α where
  run s sched := handle handler (m.run s sched)
  calm s := by
    have hm := m.calm s
    cases hrun : m.run s [] with
    | ok a t rest =>
        rw [hrun] at hm
        exact hm
    | error e t rest =>
        rw [hrun] at hm
        obtain ⟨he, rfl⟩ := hm
        exact calm_raising he (handler.calm t)
    | stopped t =>
        rw [hrun] at hm
        exact hm.elim

def forEach (f : β → Prog σ ε Unit) : List β → Prog σ ε Unit
  | [] => pure ()
  | x :: xs => f x >>= fun _ => forEach f xs

end Prog

/-- From a state in `P` the program returns in `Q`, gives up in `E` or is stopped in `C`. -/
def Triple (P : σ → Prop) (m : Prog σ ε α) (Q : α → σ → Prop) (E : Option ε → σ → Prop)
    (C : σ → Prop) : Prop :=
  ∀ s sched, P s → (m.run s sched).Holds Q E C

section Rules

variable {P P' : σ → Prop} {Q Q' : α → σ → Prop} {R : β → σ → Prop}
variable {E E' : Option ε → σ → Prop} {C C' : σ → Prop}

theorem Triple.mono {m : Prog σ ε α} (h : Triple P m Q E C) (hP : ∀ s, P' s → P s)
    (hQ : ∀ a s, Q a s → Q' a s) (hE : ∀ e s, E e s → E' e s) (hC : ∀ s, C s → C' s) :
    Triple P' m Q' E' C' :=
  fun s sched hs => (h s sched (hP s hs)).mono hQ hE hC

theorem Triple.pre {m : Prog σ ε α} (h : Triple P m Q E C) (hP : ∀ s, P' s → P s) :
    Triple P' m Q E C :=
  h.mono hP (fun _ _ h => h) (fun _ _ h => h) (fun _ h => h)

/-- One state at a time. -/
theorem Triple.of_forall {m : Prog σ ε α} (h : ∀ t, P t → Triple (· = t) m Q E C) :
    Triple P m Q E C :=
  fun s sched hs => h s hs s sched rfl

theorem triple_pure (a : α) (h : ∀ s, P s → Q a s) :
    Triple P (pure a : Prog σ ε α) Q E C :=
  fun s _ hs => h s hs

theorem Triple.bind {m : Prog σ ε β} {k : β → Prog σ ε α} (hm : Triple P m R E C)
    (hk : ∀ b, Triple (R b) (k b) Q E C) : Triple P (m >>= k) Q E C := by
  intro s sched hs
  have hrun := hm s sched hs
  show (Prog.next k (m.run s sched)).Holds Q E C
  cases hr : m.run s sched with
  | ok b t rest =>
      rw [hr] at hrun
      exact hk b t rest hrun
  | error e t rest =>
      rw [hr] at hrun
      exact hrun
  | stopped t =>
      rw [hr] at hrun
      exact hrun

theorem triple_raise (e : ε) (h : ∀ s, P s → E (some e) s) :
    Triple P (Prog.raise e : Prog σ ε α) Q E C :=
  fun s _ hs => h s hs

theorem triple_act {Q : Unit → σ → Prop} (left : σ → List σ) (effect : σ → σ)
    (hdone : ∀ s, P s → Q () (effect s))
    (hleft : ∀ s, P s → ∀ t, t = s ∨ t ∈ left s → E none t ∧ C t) :
    Triple P (Prog.act left effect : Prog σ ε Unit) Q E C := by
  intro s sched hs
  have hstate : ∀ k, E none ((left s).getD k s) ∧ C ((left s).getD k s) := by
    intro k
    refine hleft s hs _ ?_
    rw [List.getD_eq_getElem?_getD]
    cases hk : (left s)[k]? with
    | none => exact .inl rfl
    | some t => exact .inr (List.mem_of_getElem? hk)
  match sched with
  | [] => exact hdone s hs
  | none :: _ => exact hdone s hs
  | some (.fails k) :: _ => exact (hstate k).1
  | some (.stops k) :: _ => exact (hstate k).2

theorem Triple.attempt {m : Prog σ ε α} (h : Triple P m Q E C)
    {E' : Option ε → σ → Prop} :
    Triple P m.attempt (fun r s => match r with | .ok a => Q a s | .error e => E e s) E' C := by
  intro s sched hs
  have hrun := h s sched hs
  show (Prog.caught (m.run s sched)).Holds _ _ _
  cases hr : m.run s sched with
  | ok a t rest =>
      rw [hr] at hrun
      exact hrun
  | error e t rest =>
      rw [hr] at hrun
      exact hrun
  | stopped t =>
      rw [hr] at hrun
      exact hrun

theorem Triple.read_bind {f : σ → β} {k : β → Prog σ ε α}
    (h : ∀ s, P s → Triple (· = s) (k (f s)) Q E C) : Triple P (Prog.read f >>= k) Q E C :=
  fun s sched hs => h s hs s sched rfl

theorem forEach_map {γ : Type} (f : β → Prog σ ε Unit) (g : γ → β) (xs : List γ) :
    Prog.forEach f (xs.map g) = Prog.forEach (fun x => f (g x)) xs := by
  induction xs with
  | nil => rfl
  | cons x xs ih =>
      show (f (g x) >>= fun _ => Prog.forEach f (xs.map g)) = _
      rw [ih]
      rfl

/-- A loop keeps what each turn keeps, stated with the turns still to come. -/
theorem Triple.forEach {f : β → Prog σ ε Unit} {I : List β → σ → Prop} {l : List β}
    (h : ∀ x xs, Triple (I (x :: xs)) (f x) (fun _ => I xs) E C) :
    Triple (I l) (Prog.forEach f l) (fun _ => I []) E C := by
  induction l with
  | nil => exact triple_pure () fun _ hs => hs
  | cons x xs ih => exact (h x xs).bind fun _ => ih

theorem Triple.onError {m : Prog σ ε α} {handler : Prog σ ε Unit} {F : Option ε → σ → Prop}
    (h : Triple P m Q F C) (hhandler : ∀ e, Triple (F e) handler (fun _ => E e) E C) :
    Triple P (m.onError handler) Q E C := by
  intro s sched hs
  have hrun := h s sched hs
  show (Prog.handle handler (m.run s sched)).Holds Q E C
  cases hr : m.run s sched with
  | ok a t rest =>
      rw [hr] at hrun
      exact hrun
  | error e t rest =>
      rw [hr] at hrun
      have hrun' := hhandler e t rest hrun
      show (Prog.raising e (handler.run t rest)).Holds Q E C
      cases hr' : handler.run t rest with
      | ok u t' rest' =>
          rw [hr'] at hrun'
          exact hrun'
      | error e' t' rest' =>
          rw [hr'] at hrun'
          exact hrun'
      | stopped t' =>
          rw [hr'] at hrun'
          exact hrun'
  | stopped t =>
      rw [hr] at hrun
      exact hrun

end Rules

/-- The program gives up only where an action failed, and there, as where it is stopped, in `I`. -/
abbrev Guards (I P : σ → Prop) (m : Prog σ ε α) (Q : α → σ → Prop) : Prop :=
  Triple P m Q (fun e s => e = none ∧ I s) I

section Guarding

variable {I I' P P' : σ → Prop} {Q Q' : α → σ → Prop} {s : σ} {left : σ → List σ} {effect : σ → σ}

theorem Guards.mono {m : Prog σ ε α} (h : Guards I P m Q) (hI : ∀ s, I s → I' s)
    (hQ : ∀ a s, Q a s → Q' a s) : Guards I' P m Q' :=
  Triple.mono h (fun _ h => h) hQ (fun _ s h => ⟨h.1, hI s h.2⟩) hI

theorem Guards.weaken {m : Prog σ ε α} (h : Guards I P m Q) (hI : ∀ s, I s → I' s) :
    Guards I' P m Q :=
  h.mono hI fun _ _ h => h

theorem Guards.pre {m : Prog σ ε α} (h : Guards I P m Q) (hP : ∀ s, P' s → P s) :
    Guards I P' m Q :=
  Triple.pre h hP

/-- What is guarded, among other errors and stops. -/
theorem Guards.triple {m : Prog σ ε α} {E : Option ε → σ → Prop} {C : σ → Prop}
    (h : Guards I P m Q) (hE : ∀ s, I s → E none s) (hC : ∀ s, I s → C s) : Triple P m Q E C :=
  Triple.mono h (fun _ h => h) (fun _ _ h => h) (fun _ s h => h.1 ▸ hE s h.2) hC

theorem guards_act {Q : Unit → σ → Prop} (hleft : ∀ t, t = s ∨ t ∈ left s → I t)
    (hdone : Q () (effect s)) : Guards I (· = s) (Prog.act left effect : Prog σ ε Unit) Q := by
  refine triple_act left effect ?_ ?_
  · rintro _ rfl
    exact hdone
  · rintro _ rfl t ht
    exact ⟨⟨rfl, hleft t ht⟩, hleft t ht⟩

theorem guards_atomic {Q : Unit → σ → Prop} (hs : I s) (hdone : Q () (effect s)) :
    Guards I (· = s) (Prog.atomic effect : Prog σ ε Unit) Q := by
  refine guards_act (fun t ht => ?_) hdone
  rcases ht with rfl | ht
  · exact hs
  · exact absurd ht List.not_mem_nil

theorem guards_act_one {part : σ → σ} {Q : Unit → σ → Prop} (hs : I s) (hpart : I (part s))
    (hdone : Q () (effect s)) :
    Guards I (· = s) (Prog.act (fun s => [part s]) effect : Prog σ ε Unit) Q := by
  refine guards_act (fun t ht => ?_) hdone
  rcases ht with rfl | ht
  · exact hs
  · rw [List.mem_singleton.mp ht]
    exact hpart

theorem Guards.onError {m : Prog σ ε α} {handler : Prog σ ε Unit} (h : Guards I P m Q)
    (hhandler : Guards I I handler fun _ => I) : Guards I P (m.onError handler) Q := by
  refine Triple.onError h fun e => ?_
  exact Triple.of_forall fun s hs => Triple.mono hhandler (fun _ heq => heq ▸ hs.2)
    (fun _ t ht => ⟨hs.1, ht⟩) (fun _ _ h => h) fun _ h => h

end Guarding

/-- Where no action fails and nothing stops the program, it returns in `Q`. -/
def Finishes (P : σ → Prop) (m : Prog σ ε α) (Q : α → σ → Prop) : Prop :=
  ∀ s, P s → ∃ a t, m.run s [] = .ok a t [] ∧ Q a t

section Finishing

variable {P : σ → Prop} {Q : α → σ → Prop} {R : β → σ → Prop}

/-- A program without errors of its own finishes. -/
theorem Triple.finishes {m : Prog σ ε α} {E : Option ε → σ → Prop} {C : σ → Prop}
    (h : Triple P m Q E C) (hE : ∀ e s, ¬ E (some e) s) : Finishes P m Q := by
  intro s hs
  have hrun := h s [] hs
  have hcalm := m.calm s
  cases hr : m.run s [] with
  | ok a t rest =>
      rw [hr] at hrun hcalm
      cases (show rest = [] from hcalm)
      exact ⟨a, t, rfl, hrun⟩
  | error e t rest =>
      rw [hr] at hrun hcalm
      obtain ⟨e, rfl⟩ := Option.isSome_iff_exists.mp hcalm.1
      exact absurd hrun (hE e t)
  | stopped t =>
      rw [hr] at hcalm
      exact hcalm.elim

theorem Finishes.bind {m : Prog σ ε β} {k : β → Prog σ ε α} (hm : Finishes P m R)
    (hk : ∀ b, Finishes (R b) (k b) Q) : Finishes P (m >>= k) Q := by
  intro s hs
  obtain ⟨b, t, hrun, ht⟩ := hm s hs
  obtain ⟨a, t', hrun', ht'⟩ := hk b t ht
  refine ⟨a, t', ?_, ht'⟩
  show Prog.next k (m.run s []) = _
  rw [hrun]
  exact hrun'

theorem Finishes.onError {m : Prog σ ε α} {handler : Prog σ ε Unit} (h : Finishes P m Q) :
    Finishes P (m.onError handler) Q := by
  intro s hs
  obtain ⟨a, t, hrun, ht⟩ := h s hs
  refine ⟨a, t, ?_, ht⟩
  show Prog.handle handler (m.run s []) = _
  rw [hrun]
  rfl

theorem Finishes.attempt {m : Prog σ ε α} (h : Finishes P m Q) :
    Finishes P m.attempt fun r s => ∃ a, r = .ok a ∧ Q a s := by
  intro s hs
  obtain ⟨a, t, hrun, ht⟩ := h s hs
  refine ⟨.ok a, t, ?_, a, rfl, ht⟩
  show Prog.caught (m.run s []) = _
  rw [hrun]
  rfl

end Finishing

end Lib.Interrupt
