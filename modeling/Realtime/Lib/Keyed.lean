import Mathlib.Data.List.Nodup

/-!
# Folds of keyed operations

Operations that each have a key and change a state at that key only. Over a list
with distinct keys, the state at a key is what the key's operation makes of it. An operation
may also throw; its error is the state that it leaves, and nothing runs after it.
-/

namespace Lib

variable {σ ω κ β : Type*} {step : σ → ω → σ} {key : ω → κ} {view : σ → κ → β}

theorem view_foldl_of_forall_ne (hframe : ∀ s op k, key op ≠ k → view (step s op) k = view s k)
    {ops : List ω} {k : κ} (hne : ∀ op ∈ ops, key op ≠ k) (s : σ) :
    view (ops.foldl step s) k = view s k := by
  induction ops generalizing s with
  | nil => rfl
  | cons op ops ih =>
      rw [List.foldl_cons, ih fun x hx => hne x (List.mem_cons_of_mem _ hx)]
      exact hframe s op k (hne op List.mem_cons_self)

/-- The operation of the key acts on what was there before all of them. -/
theorem view_foldl_of_mem {effect : ω → β → β}
    (hframe : ∀ s op k, key op ≠ k → view (step s op) k = view s k)
    (hown : ∀ s op, view (step s op) (key op) = effect op (view s (key op)))
    {ops : List ω} (hnodup : (ops.map key).Nodup) {op : ω} (hmem : op ∈ ops) (s : σ) :
    view (ops.foldl step s) (key op) = effect op (view s (key op)) := by
  induction ops generalizing s with
  | nil => cases hmem
  | cons first ops ih =>
      rw [List.map_cons, List.nodup_cons] at hnodup
      rw [List.foldl_cons]
      rcases List.mem_cons.mp hmem with rfl | hmem
      · rw [view_foldl_of_forall_ne hframe (fun x hx heq => ?_), hown]
        exact hnodup.1 (heq ▸ List.mem_map_of_mem hx)
      · have hne : key first ≠ key op := fun heq =>
          hnodup.1 (heq ▸ List.mem_map_of_mem hmem)
        rw [ih hnodup.2 hmem, hframe s first _ hne]

/-! ## Operations that may throw -/

/-- The state a run ends in. -/
def ended : Except σ σ → σ
  | .ok s => s
  | .error s => s

section

variable {step : σ → ω → Except σ σ}

theorem foldlM_cons_ok {op : ω} {ops : List ω} {s s' : σ} (h : step s op = .ok s') :
    (op :: ops).foldlM step s = ops.foldlM step s' := by
  rw [List.foldlM_cons, h]
  rfl

theorem foldlM_cons_error {op : ω} {ops : List ω} {s s' : σ} (h : step s op = .error s') :
    (op :: ops).foldlM step s = .error s' := by
  rw [List.foldlM_cons, h]
  rfl

theorem inv_foldlM {P : σ → Prop} (hstep : ∀ s op, P s → P (ended (step s op))) {s : σ} (h : P s)
    (ops : List ω) : P (ended (ops.foldlM step s)) := by
  induction ops generalizing s with
  | nil => exact h
  | cons op ops ih =>
      have hop := hstep s op h
      cases hrun : step s op with
      | error s' =>
          rw [foldlM_cons_error hrun]
          rwa [hrun] at hop
      | ok s' =>
          rw [foldlM_cons_ok hrun]
          rw [hrun] at hop
          exact ih hop

theorem view_foldlM_of_forall_ne
    (hframe : ∀ s op k, key op ≠ k → view (ended (step s op)) k = view s k)
    {ops : List ω} {k : κ} (hne : ∀ op ∈ ops, key op ≠ k) (s : σ) :
    view (ended (ops.foldlM step s)) k = view s k := by
  induction ops generalizing s with
  | nil => rfl
  | cons op ops ih =>
      have hop := hframe s op k (hne op List.mem_cons_self)
      cases hstep : step s op with
      | error s' =>
          rw [foldlM_cons_error hstep]
          rwa [hstep] at hop
      | ok s' =>
          rw [foldlM_cons_ok hstep, ih fun x hx => hne x (List.mem_cons_of_mem _ hx)]
          rwa [hstep] at hop

/-- At a key, a run leaves what the key's operation leaves, which found there what was there at
first; or it threw before, and left that. -/
theorem view_foldlM (hframe : ∀ s op k, key op ≠ k → view (ended (step s op)) k = view s k)
    {ops : List ω} (hnodup : (ops.map key).Nodup) {pre post : List ω} {op : ω}
    (hops : ops = pre ++ op :: post) (s : σ) :
    (∃ s1, pre.foldlM step s = .ok s1 ∧ view s1 (key op) = view s (key op) ∧
        view (ended (ops.foldlM step s)) (key op) = view (ended (step s1 op)) (key op)) ∨
      ((∃ s1, ops.foldlM step s = .error s1) ∧
        view (ended (ops.foldlM step s)) (key op) = view s (key op)) := by
  subst hops
  rw [List.map_append, List.map_cons] at hnodup
  obtain ⟨hfresh, -⟩ := List.nodup_cons.mp (List.nodup_middle.mp hnodup)
  rw [List.mem_append, not_or] at hfresh
  have hne {l : List ω} (hl : key op ∉ l.map key) : ∀ x ∈ l, key x ≠ key op :=
    fun x hx heq => hl (heq ▸ List.mem_map_of_mem hx)
  have hpre := view_foldlM_of_forall_ne hframe (hne hfresh.1) s
  rw [List.foldlM_append]
  cases hrun : pre.foldlM step s with
  | error s1 =>
      rw [hrun] at hpre
      exact .inr ⟨⟨s1, rfl⟩, hpre⟩
  | ok s1 =>
      rw [hrun] at hpre
      refine .inl ⟨s1, rfl, hpre, ?_⟩
      show view (ended ((op :: post).foldlM step s1)) (key op) = _
      cases hstep : step s1 op with
      | error s2 => rw [foldlM_cons_error hstep]
      | ok s2 =>
          rw [foldlM_cons_ok hstep]
          exact view_foldlM_of_forall_ne hframe (hne hfresh.2) s2

theorem view_foldlM_of_ok
    (hframe : ∀ s op k, key op ≠ k → view (ended (step s op)) k = view s k)
    {ops : List ω} (hnodup : (ops.map key).Nodup) {pre post : List ω} {op : ω}
    (hops : ops = pre ++ op :: post) {s s' : σ} (h : ops.foldlM step s = .ok s') :
    ∃ s1 s2, pre.foldlM step s = .ok s1 ∧ step s1 op = .ok s2 ∧
      view s1 (key op) = view s (key op) ∧ view s' (key op) = view s2 (key op) := by
  rcases view_foldlM hframe hnodup hops s with ⟨s1, hrun, hview, hended⟩ | ⟨⟨s1, hthrew⟩, -⟩
  · rw [h] at hended
    cases hstep : step s1 op with
    | ok s2 =>
        rw [hstep] at hended
        exact ⟨s1, s2, hrun, hstep, hview, hended⟩
    | error s2 =>
        rw [hops, List.foldlM_append, hrun] at h
        replace h : (op :: post).foldlM step s1 = .ok s' := h
        rw [foldlM_cons_error hstep] at h
        cases h
  · rw [h] at hthrew
    cases hthrew

/-- A run goes through where no operation throws that finds at its key what was there. -/
theorem foldlM_ok (hframe : ∀ s op k, key op ≠ k → view (ended (step s op)) k = view s k)
    {ops : List ω} (hnodup : (ops.map key).Nodup) {s : σ}
    (hok : ∀ op ∈ ops, ∀ s1, view s1 (key op) = view s (key op) → ∃ s2, step s1 op = .ok s2) :
    ∃ s', ops.foldlM step s = .ok s' := by
  induction ops generalizing s with
  | nil => exact ⟨s, rfl⟩
  | cons op ops ih =>
      obtain ⟨hfresh, hrest⟩ := List.nodup_cons.mp hnodup
      obtain ⟨s2, hstep⟩ := hok op List.mem_cons_self s rfl
      rw [foldlM_cons_ok hstep]
      refine ih hrest fun x hx s1 hview => hok x (List.mem_cons_of_mem _ hx) s1 ?_
      have hne : key op ≠ key x := fun heq => hfresh (heq ▸ List.mem_map_of_mem hx)
      have hkeep := hframe s op (key x) hne
      rw [hstep] at hkeep
      exact hview.trans hkeep

end

end Lib
