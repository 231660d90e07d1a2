import Mathlib.Data.List.Basic

/-!
# Runs of a transition system

States reached from an initial one by labelled steps, and the invariant rule. A
run whose steps all meet a condition is a run of the system restricted to it.
Last, histories: lists of events to which a step adds at the end.
-/

namespace Lib

variable {σ α : Type*}

inductive Reach (init : σ → Prop) (step : σ → α → σ → Prop) : σ → Prop
  | start {s : σ} : init s → Reach init step s
  | step {s s' : σ} {a : α} : Reach init step s → step s a s' → Reach init step s'

/-- What holds at the start and is kept by every step holds wherever a run gets. -/
theorem Reach.invariant {init inv : σ → Prop} {step : σ → α → σ → Prop}
    (hinit : ∀ s, init s → inv s) (hstep : ∀ s a s', inv s → step s a s' → inv s') {s : σ}
    (h : Reach init step s) : inv s := by
  induction h with
  | start h => exact hinit _ h
  | step _ h ih => exact hstep _ _ _ ih h

/-- The steps of `step` that meet `cond`. -/
def Where (cond : σ → α → Prop) (step : σ → α → σ → Prop) (s : σ) (a : α) (s' : σ) : Prop :=
  cond s a ∧ step s a s'

theorem Reach.of_where {init : σ → Prop} {cond : σ → α → Prop} {step : σ → α → σ → Prop} {s : σ}
    (h : Reach init (Where cond step) s) : Reach init step s := by
  induction h with
  | start h => exact .start h
  | step _ h ih => exact ih.step h.2

/-- The steps of a system that a partial function computes. -/
def Takes (step : σ → α → Option σ) (s : σ) (a : α) (s' : σ) : Prop := step s a = some s'

/-- Every step of the run meets `cond`. -/
def Meets (cond : σ → α → Prop) (step : σ → α → Option σ) : σ → List α → Prop
  | _, [] => True
  | s, a :: as => cond s a ∧ ∀ s', step s a = some s' → Meets cond step s' as

theorem Meets.cons {cond : σ → α → Prop} {step : σ → α → Option σ} {s s' : σ} {a : α}
    {as : List α} (hcond : cond s a) (hstep : step s a = some s') (h : Meets cond step s' as) :
    Meets cond step s (a :: as) := by
  refine ⟨hcond, fun t ht => ?_⟩
  rw [hstep, Option.some_inj] at ht
  exact ht ▸ h

theorem meets_congr {cond cond' : σ → α → Prop} {step : σ → α → Option σ}
    (h : ∀ s a, cond s a ↔ cond' s a) (s : σ) (as : List α) :
    Meets cond step s as ↔ Meets cond' step s as := by
  induction as generalizing s with
  | nil => exact Iff.rfl
  | cons a as ih =>
      unfold Meets
      rw [h]
      exact and_congr_right fun _ => forall_congr' fun t => forall_congr' fun _ => ih t

theorem meets_of_forall {cond : σ → α → Prop} {step : σ → α → Option σ} {as : List α}
    (h : ∀ a ∈ as, ∀ s, cond s a) (s : σ) : Meets cond step s as := by
  induction as generalizing s with
  | nil => trivial
  | cons a as ih =>
      obtain ⟨ha, has⟩ := List.forall_mem_cons.mp h
      exact ⟨ha s, fun s' _ => ih has s'⟩

theorem Reach.run {init : σ → Prop} {step : σ → α → Option σ} {as : List α} {s s' : σ}
    (h : Reach init (Takes step) s) (hrun : as.foldlM step s = some s') :
    Reach init (Takes step) s' := by
  induction as generalizing s with
  | nil =>
      cases hrun
      exact h
  | cons a as ih =>
      rw [List.foldlM_cons] at hrun
      obtain ⟨next, hnext, hrun⟩ := Option.bind_eq_some_iff.mp hrun
      exact ih (h.step hnext) hrun

theorem Reach.run_where {init : σ → Prop} {cond : σ → α → Prop} {step : σ → α → Option σ}
    {as : List α} {s s' : σ} (h : Reach init (Where cond (Takes step)) s)
    (hrun : as.foldlM step s = some s') (hcond : Meets cond step s as) :
    Reach init (Where cond (Takes step)) s' := by
  induction as generalizing s with
  | nil =>
      cases hrun
      exact h
  | cons a as ih =>
      rw [List.foldlM_cons] at hrun
      obtain ⟨next, hnext, hrun⟩ := Option.bind_eq_some_iff.mp hrun
      exact ih (h.step ⟨hcond.1, hnext⟩) hrun (hcond.2 next hnext)

/-! ## Histories -/

variable {ε : Type*} {h a b : List ε} {e x y : ε}

/-- Each event was allowed after those before it. -/
def Lawful (ok : List ε → ε → Prop) (h : List ε) : Prop :=
  ∀ past e later, h = past ++ e :: later → ok past e

/-- `y` came about after `x`. -/
def Precedes (h : List ε) (x y : ε) : Prop := ∃ past later, h = past ++ y :: later ∧ x ∈ past

theorem concat_eq_append_cons (hsplit : h ++ [e] = a ++ x :: b) :
    (x = e ∧ a = h) ∨ ∃ later, h = a ++ x :: later := by
  rcases List.eq_nil_or_concat b with rfl | ⟨later, last, rfl⟩
  · obtain ⟨hfront, hlast⟩ := List.append_inj' hsplit rfl
    exact .inl ⟨(List.cons.inj hlast).1.symm, hfront.symm⟩
  · rw [List.concat_eq_append, ← List.cons_append, ← List.append_assoc] at hsplit
    exact .inr ⟨later, (List.append_inj' hsplit rfl).1⟩

theorem Lawful.concat {ok : List ε → ε → Prop} (hlaw : Lawful ok h) (hok : ok h e) :
    Lawful ok (h ++ [e]) := by
  intro past x later hsplit
  rcases concat_eq_append_cons hsplit with ⟨rfl, rfl⟩ | ⟨later, hsplit⟩
  · exact hok
  · exact hlaw past x later hsplit

theorem lawful_nil (ok : List ε → ε → Prop) : Lawful ok [] := by
  intro past x later hsplit
  simp at hsplit

theorem Precedes.mem (hxy : Precedes h x y) : x ∈ h := by
  obtain ⟨past, later, rfl, hx⟩ := hxy
  exact List.mem_append_left _ hx

theorem precedes_concat (hxy : Precedes (h ++ [e]) x y) : Precedes h x y ∨ (y = e ∧ x ∈ h) := by
  obtain ⟨past, later, hsplit, hx⟩ := hxy
  rcases concat_eq_append_cons hsplit with ⟨rfl, rfl⟩ | ⟨later, hsplit⟩
  · exact .inr ⟨rfl, hx⟩
  · exact .inl ⟨past, later, hsplit, hx⟩

end Lib
