import Mathlib.Tactic

/-!
# What two lists have in common

The start that two lists share and, behind it, the end that they share; in between is what
one has in place of the other.
-/

namespace Lib

variable {α : Type*}

/-- A list cut in three, from `start` to `stop`. -/
theorem take_append_middle_append_drop (l : List α) {start stop : Nat} (h : start ≤ stop) :
    l.take start ++ ((l.take stop).drop start ++ l.drop stop) = l := by
  have htake : l.take start = (l.take stop).take start := by
    rw [List.take_take, min_eq_left h]
  rw [← List.append_assoc, htake, List.take_append_drop, List.take_append_drop]

theorem take_length_sub (head middle tail : List α) :
    (head ++ (middle ++ tail)).take ((head ++ (middle ++ tail)).length - tail.length) =
      head ++ middle := by
  rw [← List.append_assoc, List.length_append, Nat.add_sub_cancel, List.take_left]

theorem drop_length_sub (head middle tail : List α) :
    (head ++ (middle ++ tail)).drop ((head ++ (middle ++ tail)).length - tail.length) = tail := by
  rw [← List.append_assoc, List.length_append, Nat.add_sub_cancel, List.drop_left]

variable [DecidableEq α]

/-- How far two lists agree from their start. -/
def commonPrefix : List α → List α → Nat
  | x :: old, y :: next => if x = y then commonPrefix old next + 1 else 0
  | _, _ => 0

theorem commonPrefix_le_left (old next : List α) : commonPrefix old next ≤ old.length := by
  induction old generalizing next with
  | nil => exact Nat.zero_le _
  | cons x old ih =>
      cases next with
      | nil => exact Nat.zero_le _
      | cons y next =>
          rw [commonPrefix]
          split
          · exact Nat.succ_le_succ (ih next)
          · exact Nat.zero_le _

theorem take_commonPrefix (old next : List α) :
    old.take (commonPrefix old next) = next.take (commonPrefix old next) := by
  induction old generalizing next with
  | nil => simp [commonPrefix]
  | cons x old ih =>
      cases next with
      | nil => simp [commonPrefix]
      | cons y next =>
          rw [commonPrefix]
          split
          · rename_i h
            rw [List.take_succ_cons, List.take_succ_cons, ih, h]
          · rfl

theorem commonPrefix_comm (old next : List α) :
    commonPrefix old next = commonPrefix next old := by
  induction old generalizing next with
  | nil => cases next <;> rfl
  | cons x old ih =>
      cases next with
      | nil => rfl
      | cons y next => simp only [commonPrefix, ih next, eq_comm]

theorem commonPrefix_self (l : List α) : commonPrefix l l = l.length := by
  induction l with
  | nil => rfl
  | cons x l ih => rw [commonPrefix, if_pos rfl, ih, List.length_cons]

/-- The end of a list that agrees with the end of another. -/
theorem drop_commonPrefix_reverse (old next : List α) :
    old.drop (old.length - commonPrefix old.reverse next.reverse) =
      next.drop (next.length - commonPrefix old.reverse next.reverse) := by
  have h := take_commonPrefix old.reverse next.reverse
  rw [List.take_reverse, List.take_reverse] at h
  exact List.reverse_injective h

/-- How far two lists agree from their end, behind `start`. -/
def commonSuffix (start : Nat) (old next : List α) : Nat :=
  commonPrefix (old.drop start).reverse (next.drop start).reverse

theorem commonSuffix_comm (start : Nat) (old next : List α) :
    commonSuffix start old next = commonSuffix start next old := commonPrefix_comm _ _

theorem commonSuffix_le_left (start : Nat) (old next : List α) :
    commonSuffix start old next ≤ old.length - start := by
  have h := commonPrefix_le_left (old.drop start).reverse (next.drop start).reverse
  rwa [List.length_reverse, List.length_drop] at h

/-- Start and end do not overlap: what is between them in the one list can be put in the place
of what is between them in the other. -/
theorem exists_affixes (old next : List α) :
    ∃ head middle middle' tail, old = head ++ (middle ++ tail) ∧
      next = head ++ (middle' ++ tail) ∧ head.length = commonPrefix old next ∧
      tail.length = commonSuffix (commonPrefix old next) old next := by
  have hend := commonSuffix_le_left (commonPrefix old next) old next
  have hend' := commonSuffix_le_left (commonPrefix old next) next old
  rw [commonSuffix_comm] at hend'
  have hstart := commonPrefix_le_left old next
  have hstart' := commonPrefix_le_left next old
  rw [commonPrefix_comm] at hstart'
  have htail : old.drop (old.length - commonSuffix (commonPrefix old next) old next) =
      next.drop (next.length - commonSuffix (commonPrefix old next) old next) := by
    have h := drop_commonPrefix_reverse (old.drop (commonPrefix old next))
      (next.drop (commonPrefix old next))
    rw [← commonSuffix, List.drop_drop, List.drop_drop, List.length_drop, List.length_drop] at h
    rw [show old.length - commonSuffix (commonPrefix old next) old next =
        commonPrefix old next + (old.length - commonPrefix old next -
          commonSuffix (commonPrefix old next) old next) by omega,
      show next.length - commonSuffix (commonPrefix old next) old next =
        commonPrefix old next + (next.length - commonPrefix old next -
          commonSuffix (commonPrefix old next) old next) by omega]
    exact h
  have hstop : commonPrefix old next ≤
      old.length - commonSuffix (commonPrefix old next) old next := by omega
  have hstop' : commonPrefix old next ≤
      next.length - commonSuffix (commonPrefix old next) old next := by omega
  have hold := take_append_middle_append_drop old hstop
  have hnext := take_append_middle_append_drop next hstop'
  rw [← htail, ← take_commonPrefix] at hnext
  refine ⟨_, _, _, _, hold.symm, hnext.symm, ?_, ?_⟩
  · rw [List.length_take, min_eq_left hstart]
  · rw [List.length_drop]
    omega

end Lib
