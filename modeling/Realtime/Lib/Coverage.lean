import Mathlib.Order.MinMax

/-!
# Intervals that leave no gap

A list of half-open intervals, read in the order of their lower ends by a
reader that holds a mark and moves it to the upper end of each interval it
accepts. `GapFree` says the reader never meets an interval that starts past its
mark. `Linked` says the same without an order: every lower end is covered by an
interval that starts strictly earlier. `Joined` says how far a chain of intervals
gets, whatever else the list holds.
-/

namespace Lib

variable {α β : Type*} [LinearOrder α] (lo hi : β → α)

/-- Read in this order from the mark `w`, no interval starts past the mark. -/
def GapFree (w : α) : List β → Prop
  | [] => True
  | b :: bs => lo b ≤ w ∧ GapFree (max w (hi b)) bs

/-- `v` is at most `w`, or covered by an interval that starts before it. -/
def Covered (w : α) (bs : List β) (v : α) : Prop :=
  v ≤ w ∨ ∃ b ∈ bs, lo b < v ∧ v ≤ hi b

def Linked (w : α) (bs : List β) : Prop := ∀ b ∈ bs, Covered lo hi w bs (lo b)

/-- `v` is at most `w`, or at most the upper end of an interval whose lower end is
joined to `w`. -/
inductive Joined (w : α) (bs : List β) : α → Prop
  | base {v : α} : v ≤ w → Joined w bs v
  | link {v : α} {b : β} : b ∈ bs → Joined w bs (lo b) → v ≤ hi b → Joined w bs v

variable {lo hi} {w v : α} {bs bs' : List β} {b : β}

theorem Covered.mono (h : Covered lo hi w bs v) (hsub : ∀ b ∈ bs, b ∈ bs') :
    Covered lo hi w bs' v := by
  rcases h with hle | ⟨b, hb, hcov⟩
  · exact Or.inl hle
  · exact Or.inr ⟨b, hsub b hb, hcov⟩

/-- The upper end of an interval whose lower end is covered. -/
theorem covered_upper (hb : b ∈ bs) (h : Covered lo hi w bs (lo b)) (hle : lo b ≤ hi b) :
    Covered lo hi w bs (hi b) := by
  rcases hle.eq_or_lt with heq | hlt
  · rw [← heq]
    exact h
  · exact Or.inr ⟨b, hb, hlt, le_rfl⟩

theorem GapFree.mono {w' : α} (h : GapFree lo hi w bs) (hle : w ≤ w') : GapFree lo hi w' bs := by
  induction bs generalizing w w' with
  | nil => trivial
  | cons b bs ih => exact ⟨h.1.trans hle, ih h.2 (max_le_max_right _ hle)⟩

theorem gapFree_of_linked (hsorted : bs.Pairwise fun b b' => lo b ≤ lo b')
    (hlinked : Linked lo hi w bs) : GapFree lo hi w bs := by
  induction bs generalizing w with
  | nil => trivial
  | cons b bs ih =>
      obtain ⟨hfirst, hrest⟩ := List.pairwise_cons.mp hsorted
      refine ⟨?_, ih hrest fun c hc => ?_⟩
      · -- nothing in the list starts before its first interval
        rcases hlinked b List.mem_cons_self with hle | ⟨c, hc, hlt, _⟩
        · exact hle
        · rcases List.mem_cons.mp hc with rfl | hc
          · exact absurd hlt (lt_irrefl _)
          · exact absurd hlt (not_lt.mpr (hfirst c hc))
      · rcases hlinked c (List.mem_cons_of_mem _ hc) with hle | ⟨d, hd, hlt, hle⟩
        · exact Or.inl (le_max_of_le_left hle)
        · rcases List.mem_cons.mp hd with rfl | hd
          · exact Or.inl (le_max_of_le_right hle)
          · exact Or.inr ⟨d, hd, hlt, hle⟩

/-! ## Chains -/

theorem Joined.of_le {u : α} (h : Joined lo hi w bs v) (hle : u ≤ v) : Joined lo hi w bs u := by
  cases h with
  | base hw => exact .base (hle.trans hw)
  | link hb hlo hhi => exact .link hb hlo (hle.trans hhi)

theorem Joined.trans {u : α} (h : Joined lo hi w bs u) (h' : Joined lo hi u bs v) :
    Joined lo hi w bs v := by
  induction h' with
  | base hle => exact h.of_le hle
  | link hb _ hhi ih => exact .link hb ih hhi

/-- A point that no interval of a chain leads past is an upper bound of it. -/
theorem Joined.le_of_closed {u : α} (h : Joined lo hi w bs v) (hw : w ≤ u)
    (hclosed : ∀ b ∈ bs, lo b ≤ u → hi b ≤ u) : v ≤ u := by
  induction h with
  | base hle => exact hle.trans hw
  | link hb _ hhi ih => exact hhi.trans (hclosed _ hb ih)

/-- Below a joined point, every point is at most `w` or inside an interval of a
chain. -/
theorem Joined.inside {u : α} (h : Joined lo hi w bs v) (hle : u ≤ v) :
    u ≤ w ∨ ∃ b ∈ bs, Joined lo hi w bs (lo b) ∧ lo b < u ∧ u ≤ hi b := by
  induction h with
  | base hw => exact .inl (hle.trans hw)
  | @link v b hb hlo hhi ih =>
      rcases lt_or_ge (lo b) u with hlt | hge
      · exact .inr ⟨b, hb, hlo, hlt, hle.trans hhi⟩
      · exact ih hge

/-- The list may lose intervals that end at or below the base, and the base may
rise. -/
theorem Joined.trim {w' : α} (h : Joined lo hi w bs v) (hw : w ≤ w')
    (hkept : ∀ b ∈ bs, b ∈ bs' ∨ hi b ≤ w') : Joined lo hi w' bs' v := by
  induction h with
  | base hv => exact .base (hv.trans hw)
  | link hb _ hhi ih =>
      rcases hkept _ hb with hb | hle
      · exact .link hb ih hhi
      · exact .base (hhi.trans hle)

theorem Joined.mono (h : Joined lo hi w bs v) (hsub : ∀ b ∈ bs, b ∈ bs') :
    Joined lo hi w bs' v :=
  h.trim le_rfl fun b hb => .inl (hsub b hb)

end Lib
