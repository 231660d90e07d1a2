import Mathlib.Data.List.Sort
import Mathlib.Tactic

/-!
# Edit scripts over a list

An edit replaces the range `[start, stop)` of a list; a script is a list of
edits read from the front. `splice` copies the gaps between the edits and puts
each replacement in its range, or the old contents where `keep` rejects the
edit. A script `Fits` when its ranges are in order, disjoint and inside the
list; rejecting an edit of such a script is the same as leaving it out. A
`Script` from one list to another is built change by change, as a diff reports
them.
-/

namespace Lib.Splice

variable {α : Type*}

/-- The items from `a` up to `b`, empty when `b ≤ a`. -/
def slice (l : List α) (a b : Nat) : List α := (l.take b).drop a

structure Edit (α : Type*) where
  start : Nat
  stop : Nat
  replacement : List α
  deriving DecidableEq

namespace Edit

/-- An edit that covers nothing. -/
def Insertion (e : Edit α) : Prop := e.start = e.stop

instance (e : Edit α) : Decidable e.Insertion := inferInstanceAs (Decidable (_ = _))

/-- `e` ends before `f` begins, and begins earlier. -/
def Before (e f : Edit α) : Prop := e.stop ≤ f.start ∧ e.start < f.start

/-- What a script of the other side may not do to a range: share an item with
it, insert inside it or at its ends, or insert where it inserts. -/
def Touches (e f : Edit α) : Prop :=
  (∃ i, (e.start ≤ i ∧ i < e.stop) ∧ f.start ≤ i ∧ i < f.stop) ∨
  (e.Insertion ∧ ¬f.Insertion ∧ f.start ≤ e.start ∧ e.start ≤ f.stop) ∨
  (f.Insertion ∧ ¬e.Insertion ∧ e.start ≤ f.start ∧ f.start ≤ e.stop) ∨
  (e.Insertion ∧ f.Insertion ∧ e.start = f.start)

end Edit

/-- `base` from `offset` on, with the edits `keep` accepts applied. -/
def splice (base : List α) (keep : Edit α → Bool) : Nat → List (Edit α) → List α
  | offset, [] => base.drop offset
  | offset, e :: es =>
      slice base offset e.start ++
        ((if keep e then e.replacement else slice base e.start e.stop) ++
          splice base keep e.stop es)

/-- Ranges in order, disjoint, from `offset` on and inside `bound` items. -/
def Fits (bound : Nat) : Nat → List (Edit α) → Prop
  | offset, [] => offset ≤ bound
  | offset, e :: es => offset ≤ e.start ∧ e.start ≤ e.stop ∧ Fits bound e.stop es

theorem slice_append_drop (l : List α) {a b : Nat} (hab : a ≤ b) :
    slice l a b ++ l.drop b = l.drop a := by
  have hsplit : l.drop b = (l.drop a).drop (b - a) := by
    rw [List.drop_drop, Nat.add_sub_cancel' hab]
  rw [hsplit, slice, List.drop_take, List.take_append_drop]

theorem slice_append_slice (l : List α) {a b c : Nat} (hab : a ≤ b) (hbc : b ≤ c) :
    slice l a b ++ slice l b c = slice l a c := by
  have h := slice_append_drop (l.take c) hab
  rwa [slice, List.take_take, min_eq_left hbc] at h

theorem Fits.le {bound : Nat} : ∀ {offset : Nat} {es : List (Edit α)},
    Fits bound offset es → offset ≤ bound
  | _, [], h => h
  | _, _ :: _, ⟨h1, h2, h3⟩ => h1.trans (h2.trans h3.le)

theorem Fits.weaken {bound offset offset' : Nat} {es : List (Edit α)} (hle : offset' ≤ offset)
    (h : Fits bound offset es) : Fits bound offset' es := by
  cases es with
  | nil => exact hle.trans h
  | cons e es => exact ⟨hle.trans h.1, h.2⟩

theorem Fits.filter {bound : Nat} (keep : Edit α → Bool) {offset : Nat} {es : List (Edit α)}
    (h : Fits bound offset es) : Fits bound offset (es.filter keep) := by
  induction es generalizing offset with
  | nil => exact h
  | cons e es ih =>
      obtain ⟨h1, h2, h3⟩ := h
      rw [List.filter_cons]
      split
      · exact ⟨h1, h2, ih h3⟩
      · exact (ih h3).weaken (h1.trans h2)

/-- A script that fits later may be read from earlier: the gap is copied. -/
theorem slice_append_splice (base : List α) (keep : Edit α → Bool) {bound a b : Nat}
    {es : List (Edit α)} (hab : a ≤ b) (h : Fits bound b es) :
    slice base a b ++ splice base keep b es = splice base keep a es := by
  cases es with
  | nil => exact slice_append_drop base hab
  | cons e es =>
      simp only [splice]
      rw [← List.append_assoc, slice_append_slice base hab h.1]

/-- Rejecting an edit is leaving it out. -/
theorem splice_filter (base : List α) (keep : Edit α → Bool) {bound offset : Nat}
    {es : List (Edit α)} (h : Fits bound offset es) :
    splice base keep offset es = splice base (fun _ => true) offset (es.filter keep) := by
  induction es generalizing offset with
  | nil => rfl
  | cons e es ih =>
      obtain ⟨h1, h2, h3⟩ := h
      rw [List.filter_cons]
      cases hk : keep e with
      | true => simp [splice, hk, ih h3]
      | false =>
          have hrest := h3.filter keep
          simp only [splice, hk, Bool.false_eq_true, if_false, ih h3]
          rw [slice_append_splice base _ h2 hrest, slice_append_splice base _ h1 (hrest.weaken h2)]

/-- Ordered edits with valid ranges fit. -/
theorem fits_of_pairwise_before {bound : Nat} {es : List (Edit α)}
    (hord : es.Pairwise Edit.Before) (hvalid : ∀ e ∈ es, e.start ≤ e.stop ∧ e.stop ≤ bound)
    {offset : Nat} (hoff : offset ≤ bound) (hfrom : ∀ e ∈ es, offset ≤ e.start) :
    Fits bound offset es := by
  induction es generalizing offset with
  | nil => exact hoff
  | cons e es ih =>
      obtain ⟨hhead, htail⟩ := List.pairwise_cons.mp hord
      obtain ⟨hle, hbound⟩ := hvalid e List.mem_cons_self
      refine ⟨hfrom e List.mem_cons_self, hle, ?_⟩
      apply ih htail (fun f hf => hvalid f (List.mem_cons_of_mem _ hf)) hbound
      intro f hf
      exact (hhead f hf).1

/-- Two ordered scripts with the same edits are the same script. -/
theorem eq_of_before_of_mem_iff {es fs : List (Edit α)} (hes : es.Pairwise Edit.Before)
    (hfs : fs.Pairwise Edit.Before) (hmem : ∀ e, e ∈ es ↔ e ∈ fs) : es = fs := by
  have hne : ∀ {e f : Edit α}, e.Before f → e ≠ f := by
    rintro e f h rfl
    exact lt_irrefl _ h.2
  have hperm : es.Perm fs := (List.perm_ext_iff_of_nodup (hes.imp hne) (hfs.imp hne)).mpr hmem
  apply hperm.eq_of_pairwise _ hes hfs
  intro e f _ _ hef hfe
  exact absurd (hef.2.trans hfe.2) (lt_irrefl _)

/-! ## Scripts between two lists -/

/-- `es` turns `base` into `next`, and any two of its edits have an untouched
item between them. -/
structure Script (base next : List α) (es : List (Edit α)) : Prop where
  apart : es.Pairwise fun e f => e.stop < f.start
  valid : ∀ e ∈ es, e.start ≤ e.stop ∧ e.stop ≤ base.length
  spells : splice base (fun _ => true) 0 es = next

namespace Script

variable {base next : List α} {es : List (Edit α)}

theorem before (h : Script base next es) : es.Pairwise Edit.Before := by
  refine List.Pairwise.imp_of_mem ?_ h.apart
  intro e f he _ hef
  exact ⟨hef.le, (h.valid e he).1.trans_lt hef⟩

theorem fits (h : Script base next es) : Fits base.length 0 es :=
  fits_of_pairwise_before h.before h.valid (Nat.zero_le _) fun _ _ => Nat.zero_le _

/-- Of two edits of one script, the earlier one leaves an item before the later. -/
theorem stop_lt_start (h : Script base next es) {e f : Edit α} (he : e ∈ es) (hf : f ∈ es)
    (hlt : e.start < f.start) : e.stop < f.start := by
  obtain ⟨front, behind, rfl⟩ := List.append_of_mem he
  obtain ⟨-, hrest, hapart⟩ := List.pairwise_append.mp h.apart
  rcases List.mem_append.mp hf with hfront | hfrom
  · have := hapart f hfront e List.mem_cons_self
    have := (h.valid f hf).1
    omega
  · rcases List.mem_cons.mp hfrom with rfl | hbehind
    · omega
    · exact (List.pairwise_cons.mp hrest).1 f hbehind

end Script

/-- Items behind the last edit are copied. -/
theorem splice_append_base (base tail : List α) (keep : Edit α → Bool) {offset : Nat}
    {es : List (Edit α)} (h : Fits base.length offset es) :
    splice (base ++ tail) keep offset es = splice base keep offset es ++ tail := by
  induction es generalizing offset with
  | nil => exact List.drop_append_of_le_length h
  | cons e es ih =>
      obtain ⟨h1, h2, h3⟩ := h
      have hslice : ∀ a b, b ≤ base.length → slice (base ++ tail) a b = slice base a b := by
        intro a b hb
        rw [slice, List.take_append_of_le_length hb, slice]
      simp only [splice, ih h3, hslice _ _ h3.le, hslice _ _ (h2.trans h3.le), List.append_assoc]

/-- A last edit that covers everything behind the others. -/
theorem splice_snoc (base covered : List α) {offset : Nat} {es : List (Edit α)}
    (h : Fits base.length offset es) (replacement : List α) :
    splice (base ++ covered) (fun _ => true) offset
        (es ++ [⟨base.length, (base ++ covered).length, replacement⟩]) =
      splice base (fun _ => true) offset es ++ replacement := by
  induction es generalizing offset with
  | nil => simp [splice, slice]
  | cons e es ih =>
      obtain ⟨h1, h2, h3⟩ := h
      have hslice : slice (base ++ covered) offset e.start = slice base offset e.start := by
        rw [slice, List.take_append_of_le_length (h2.trans h3.le), slice]
      simp only [List.cons_append, splice, ih h3, hslice, if_true, List.append_assoc]

namespace Script

variable {base next : List α} {es : List (Edit α)}

theorem empty : Script ([] : List α) [] [] := ⟨List.Pairwise.nil, by simp, rfl⟩

/-- Both lists go on with the same items. -/
theorem kept (h : Script base next es) (items : List α) :
    Script (base ++ items) (next ++ items) es where
  apart := h.apart
  valid := by
    intro e he
    obtain ⟨h1, h2⟩ := h.valid e he
    exact ⟨h1, h2.trans (by simp)⟩
  spells := by rw [splice_append_base _ _ _ h.fits, h.spells]

/-- `base` goes on with `covered`, `next` with `replacement`. -/
theorem snoc (h : Script base next es) (hclosed : ∀ e ∈ es, e.stop < base.length)
    (covered replacement : List α) :
    Script (base ++ covered) (next ++ replacement)
      (es ++ [⟨base.length, (base ++ covered).length, replacement⟩]) where
  apart := by
    apply List.pairwise_append.mpr
    refine ⟨h.apart, List.pairwise_singleton _ _, ?_⟩
    intro e he f hf
    obtain rfl := List.mem_singleton.mp hf
    exact hclosed e he
  valid := by
    intro e he
    rcases List.mem_append.mp he with he | he
    · exact (h.kept covered).valid e he
    · obtain rfl := List.mem_singleton.mp he
      simp
  spells := by rw [splice_snoc _ _ h.fits, h.spells]

end Script

end Lib.Splice
