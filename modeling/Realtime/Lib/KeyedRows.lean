import Mathlib.Data.List.Nodup

/-!
# Rows with keys

Lists of rows in which no key occurs twice. Rows are put in by their keys; when all rows of
a target have been put, and no key is left that it does not have, the rows are the target.
-/

namespace Lib.KeyedRows

variable {α κ : Type*} (k : α → κ)

/-- The row of a key becomes `v`; the others stay. -/
structure Puts (v : α) (rows rows' : List α) : Prop where
  nodup : (rows'.map k).Nodup
  mem_iff : ∀ x, x ∈ rows' ↔ x = v ∨ x ∈ rows ∧ k x ≠ k v

section

variable {k} {v : α} {rows : List α} (hnodup : (rows.map k).Nodup)
include hnodup

theorem Puts.append (h : k v ∉ rows.map k) : Puts k v rows (rows ++ [v]) where
  nodup := by
    rw [List.map_append, List.map_singleton]
    exact List.nodup_append_comm.mp (List.nodup_cons.mpr ⟨h, hnodup⟩)
  mem_iff x := by
    have hne (hx : x ∈ rows) : k x ≠ k v := fun heq => h (heq ▸ List.mem_map_of_mem hx)
    rw [List.mem_append, List.mem_singleton]
    constructor
    · rintro (hx | rfl)
      · exact .inr ⟨hx, hne hx⟩
      · exact .inl rfl
    · rintro (rfl | ⟨hx, -⟩)
      · exact .inr rfl
      · exact .inl hx

theorem Puts.self (h : v ∈ rows) : Puts k v rows rows where
  nodup := hnodup
  mem_iff x := by
    constructor
    · intro hx
      by_cases heq : k x = k v
      · exact .inl (List.inj_on_of_nodup_map hnodup hx h heq)
      · exact .inr ⟨hx, heq⟩
    · rintro (rfl | ⟨hx, -⟩)
      · exact h
      · exact hx

theorem Puts.map {f : α → α} (h : k v ∈ rows.map k) (hown : ∀ x ∈ rows, k x = k v → f x = v)
    (hframe : ∀ x ∈ rows, k x ≠ k v → f x = x) : Puts k v rows (rows.map f) where
  nodup := by
    have hkeys : (rows.map f).map k = rows.map k := by
      rw [List.map_map]
      refine List.map_congr_left fun x hx => ?_
      show k (f x) = k x
      by_cases heq : k x = k v
      · rw [hown x hx heq, heq]
      · rw [hframe x hx heq]
    rwa [hkeys]
  mem_iff x := by
    rw [List.mem_map]
    constructor
    · rintro ⟨y, hy, rfl⟩
      by_cases heq : k y = k v
      · exact .inl (hown y hy heq)
      · rw [hframe y hy heq]
        exact .inr ⟨hy, heq⟩
    · rintro (rfl | ⟨hx, hne⟩)
      · obtain ⟨y, hy, heq⟩ := List.mem_map.mp h
        exact ⟨y, hy, hown y hy heq⟩
      · exact ⟨x, hx, hframe x hx hne⟩

end

variable {k} {current target : List α} {step : List α → α → Option (List α)}

/-- Steps that each put a row, as long as the row of its key is the one that was read. -/
def PutsAll (k : α → κ) (current target : List α) (step : List α → α → Option (List α)) : Prop :=
  ∀ v ∈ target, ∀ rows, (rows.map k).Nodup → (∀ x ∈ rows, k x ∈ target.map k) →
    (∀ x, k x = k v → (x ∈ rows ↔ x ∈ current)) →
      ∃ rows', step rows v = some rows' ∧ Puts k v rows rows'

/-- What rows there are when some of the target have been put. -/
theorem PutsAll.foldlM (h : PutsAll k current target step) {rest rows : List α}
    (hrest : ∀ v ∈ rest, v ∈ target) (hkeys : (rest.map k).Nodup) (hnodup : (rows.map k).Nodup)
    (hsub : ∀ x ∈ rows, k x ∈ target.map k)
    (hread : ∀ v ∈ rest, ∀ x, k x = k v → (x ∈ rows ↔ x ∈ current)) :
    ∃ rows', rest.foldlM step rows = some rows' ∧ (rows'.map k).Nodup ∧
      ∀ x, x ∈ rows' ↔ x ∈ rest ∨ x ∈ rows ∧ k x ∉ rest.map k := by
  induction rest generalizing rows with
  | nil => exact ⟨rows, rfl, hnodup, by simp⟩
  | cons v rest ih =>
      obtain ⟨hv, hrest⟩ := List.forall_mem_cons.mp hrest
      rw [List.map_cons, List.nodup_cons] at hkeys
      obtain ⟨rows₁, hstep, hput⟩ := h v hv rows hnodup hsub (hread v List.mem_cons_self)
      have hsub₁ (x : α) (hx : x ∈ rows₁) : k x ∈ target.map k := by
        rcases (hput.mem_iff x).mp hx with rfl | ⟨hx, -⟩
        · exact List.mem_map_of_mem hv
        · exact hsub x hx
      -- the rows of the other keys are still those that were read
      have hread₁ (w : α) (hw : w ∈ rest) (x : α) (hx : k x = k w) :
          x ∈ rows₁ ↔ x ∈ current := by
        have hne : k x ≠ k v := fun heq =>
          hkeys.1 (heq ▸ hx ▸ List.mem_map_of_mem hw)
        rw [hput.mem_iff, ← hread w (List.mem_cons_of_mem _ hw) x hx]
        have hxv : x ≠ v := fun heq => hne (congrArg k heq)
        tauto
      obtain ⟨rows', hrun, hnodup', hmem⟩ := ih hrest hkeys.2 hput.nodup hsub₁ hread₁
      refine ⟨rows', ?_, hnodup', fun x => ?_⟩
      · rw [List.foldlM_cons, hstep]
        exact hrun
      · have hv' : k v ∉ rest.map k := hkeys.1
        rw [hmem, hput.mem_iff, List.mem_cons, List.map_cons, List.mem_cons]
        constructor
        · rintro (hx | ⟨rfl | ⟨hx, hne⟩, hno⟩)
          · exact .inl (.inr hx)
          · exact .inl (.inl rfl)
          · exact .inr ⟨hx, not_or.mpr ⟨hne, hno⟩⟩
        · rintro ((rfl | hx) | ⟨hx, hno⟩)
          · exact .inr ⟨.inl rfl, hv'⟩
          · exact .inl hx
          · exact .inr ⟨.inr ⟨hx, (not_or.mp hno).1⟩, (not_or.mp hno).2⟩

/-- Rows with no key that the target does not have become the target. -/
theorem PutsAll.perm (h : PutsAll k current target step) {rows : List α}
    (hkeys : (target.map k).Nodup) (hnodup : (rows.map k).Nodup)
    (hsub : ∀ x ∈ rows, k x ∈ target.map k)
    (hread : ∀ v ∈ target, ∀ x, k x = k v → (x ∈ rows ↔ x ∈ current)) :
    ∃ rows', target.foldlM step rows = some rows' ∧ rows'.Perm target := by
  obtain ⟨rows', hrun, hnodup', hmem⟩ :=
    h.foldlM (fun _ hv => hv) hkeys hnodup hsub hread
  refine ⟨rows', hrun, (List.perm_ext_iff_of_nodup hnodup'.of_map hkeys.of_map).mpr fun x => ?_⟩
  rw [hmem]
  exact ⟨fun hx => hx.elim id fun hx => absurd (hsub x hx.1) hx.2, .inl⟩

end Lib.KeyedRows
