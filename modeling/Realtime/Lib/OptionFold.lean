import Mathlib.Data.Option.Basic

/-!
# Folds that can fail

Rules for `List.foldlM` in `Option`: a property every step keeps, and a fold all
of whose steps succeed.
-/

namespace Lib.OptionFold

variable {σ α : Type*} {f : σ → α → Option σ} {P : σ → Prop} {xs : List α} {s s' : σ}

theorem foldlM_cons_eq_some {x : α} :
    (x :: xs).foldlM f s = some s' ↔ ∃ next, f s x = some next ∧ xs.foldlM f next = some s' := by
  rw [List.foldlM_cons, Option.bind_eq_bind, Option.bind_eq_some_iff]

/-- What every step keeps holds at the end. -/
theorem foldlM_keeps (hstep : ∀ s x s', x ∈ xs → P s → f s x = some s' → P s') (hs : P s)
    (h : xs.foldlM f s = some s') : P s' := by
  induction xs generalizing s with
  | nil =>
      obtain rfl : s = s' := by simpa using h
      exact hs
  | cons x xs ih =>
      obtain ⟨next, hx, hrest⟩ := foldlM_cons_eq_some.mp h
      apply ih (fun s y s' hy => hstep s y s' (List.mem_cons_of_mem _ hy)) _ hrest
      exact hstep s x next List.mem_cons_self hs hx

/-- A fold succeeds if every step does. -/
theorem foldlM_returns (hstep : ∀ s x, x ∈ xs → P s → ∃ s', f s x = some s' ∧ P s') (hs : P s) :
    ∃ s', xs.foldlM f s = some s' ∧ P s' := by
  induction xs generalizing s with
  | nil => exact ⟨s, rfl, hs⟩
  | cons x xs ih =>
      obtain ⟨next, hx, hnext⟩ := hstep s x List.mem_cons_self hs
      obtain ⟨s', hrest, hlast⟩ := ih (fun s y hy => hstep s y (List.mem_cons_of_mem _ hy)) hnext
      exact ⟨s', foldlM_cons_eq_some.mpr ⟨next, hx, hrest⟩, hlast⟩

/-- A fold of steps that succeed is a plain fold. -/
theorem foldlM_eq_some_foldl {g : σ → α → σ}
    (hstep : ∀ s x, x ∈ xs → P s → f s x = some (g s x) ∧ P (g s x)) (hs : P s) :
    xs.foldlM f s = some (xs.foldl g s) ∧ P (xs.foldl g s) := by
  induction xs generalizing s with
  | nil => exact ⟨rfl, hs⟩
  | cons x xs ih =>
      obtain ⟨hx, hnext⟩ := hstep s x List.mem_cons_self hs
      obtain ⟨hrest, hlast⟩ := ih (fun s y hy => hstep s y (List.mem_cons_of_mem _ hy)) hnext
      exact ⟨foldlM_cons_eq_some.mpr ⟨_, hx, hrest⟩, hlast⟩

end Lib.OptionFold
