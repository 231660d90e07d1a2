import Mathlib.Data.List.Basic
import Mathlib.Tactic
import Realtime.Lib.Utf16

/-!
# Shared text on UTF-16 offsets

The contents of a `Y.Text` under `delete` and `insert`. The shared type does not
allow a surrogate pair to be divided: where the boundary of an operation falls
inside a pair, both halves become U+FFFD. A lone high surrogate before a boundary
stays here; what becomes of one is in `Lib.YItems`.

A rewrite of the middle of `head ++ old ++ tail` into `head ++ new ++ tail`, as a
delete followed by an insert, therefore gives that text exactly when none of its
boundaries falls inside a pair (`rewriteMiddle_eq_iff`).
-/

namespace Lib.YText

open Lib.Utf16

/-- The boundary between `left` and `right` falls inside a surrogate pair. -/
def Divides (left right : JsString) : Prop :=
  ∃ high low, left.getLast? = some high ∧ right.head? = some low ∧
    isHighSurrogate high = true ∧ isLowSurrogate low = true

instance (left right : JsString) : Decidable (Divides left right) :=
  match hl : left.getLast?, hr : right.head? with
  | some high, some low =>
      decidable_of_iff (isHighSurrogate high = true ∧ isLowSurrogate low = true) <| by
        simp [Divides, hl, hr]
  | none, _ => isFalse <| by simp [Divides, hl]
  | some _, none => isFalse <| by simp [Divides, hr]

/-- What a boundary leaves of the text before it. -/
def leftPart (left right : JsString) : JsString :=
  if Divides left right then left.dropLast ++ [replacement] else left

/-- What a boundary leaves of the text behind it. -/
def rightPart (left right : JsString) : JsString :=
  if Divides left right then replacement :: right.tail else right

/-- `ytext.delete(index, length)` -/
def delete (text : JsString) (index length : Nat) : JsString :=
  leftPart (text.take index) (text.drop index) ++
    rightPart (text.take (index + length)) (text.drop (index + length))

/-- `ytext.insert(index, content)` -/
def insert (text : JsString) (index : Nat) (content : JsString) : JsString :=
  leftPart (text.take index) (text.drop index) ++
    (content ++ rightPart (text.take index) (text.drop index))

@[simp] theorem length_leftPart (left right : JsString) :
    (leftPart left right).length = left.length := by
  unfold leftPart
  split
  · rename_i h
    obtain ⟨high, -, hl, -⟩ := h
    have : left ≠ [] := by
      rintro rfl
      simp at hl
    have := List.length_pos_of_ne_nil this
    simp
    omega
  · rfl

@[simp] theorem length_rightPart (left right : JsString) :
    (rightPart left right).length = right.length := by
  unfold rightPart
  split
  · rename_i h
    obtain ⟨-, low, -, hr, -⟩ := h
    cases right with
    | nil => simp at hr
    | cons c right => simp
  · rfl

theorem not_isHighSurrogate_replacement : isHighSurrogate replacement = false := by decide

theorem not_isLowSurrogate_replacement : isLowSurrogate replacement = false := by decide

theorem leftPart_eq_iff {left right : JsString} :
    leftPart left right = left ↔ ¬Divides left right := by
  constructor
  · rintro heq ⟨high, low, hl, hr, hhigh, hlow⟩
    have hdiv : Divides left right := ⟨high, low, hl, hr, hhigh, hlow⟩
    rw [leftPart, if_pos hdiv] at heq
    rw [← heq, List.getLast?_append, List.getLast?_singleton] at hl
    obtain rfl : replacement = high := by simpa using hl
    rw [not_isHighSurrogate_replacement] at hhigh
    cases hhigh
  · intro h
    exact if_neg h

theorem rightPart_eq_iff {left right : JsString} :
    rightPart left right = right ↔ ¬Divides left right := by
  constructor
  · rintro heq ⟨high, low, hl, hr, hhigh, hlow⟩
    have hdiv : Divides left right := ⟨high, low, hl, hr, hhigh, hlow⟩
    rw [rightPart, if_pos hdiv] at heq
    rw [← heq] at hr
    obtain rfl : replacement = low := by simpa using hr
    rw [not_isLowSurrogate_replacement] at hlow
    cases hlow
  · intro h
    exact if_neg h

/-- A half that was replaced is no half of a pair any more. -/
theorem not_divides_leftPart {left right : JsString} (h : Divides left right) (next : JsString) :
    ¬Divides (leftPart left right) next := by
  rintro ⟨high, low, hl, -, hhigh, -⟩
  rw [leftPart, if_pos h, List.getLast?_append, List.getLast?_singleton] at hl
  obtain rfl : replacement = high := by simpa using hl
  rw [not_isHighSurrogate_replacement] at hhigh
  cases hhigh

theorem not_divides_rightPart {left right : JsString} (h : Divides left right)
    (before : JsString) : ¬Divides before (rightPart left right) := by
  rintro ⟨high, low, -, hr, -, hlow⟩
  rw [rightPart, if_pos h] at hr
  obtain rfl : replacement = low := by simpa using hr
  rw [not_isLowSurrogate_replacement] at hlow
  cases hlow

/-! ## Rewriting a middle -/

variable (head old new tail : JsString)

/-- Delete `old`, if there is anything to delete. -/
def deleteMiddle : JsString :=
  if 0 < old.length then delete (head ++ old ++ tail) head.length old.length
  else head ++ old ++ tail

/-- Delete `old` and insert `new`, leaving out what is empty. -/
def rewriteMiddle : JsString :=
  if new.isEmpty then deleteMiddle head old tail
  else insert (deleteMiddle head old tail) head.length new

/-- Some boundary of the rewrite falls inside a surrogate pair. -/
def DividesMiddle : Prop :=
  (old ≠ [] ∧ (Divides head (old ++ tail) ∨ Divides (head ++ old) tail)) ∨
    (new ≠ [] ∧ Divides head tail)

instance : Decidable (DividesMiddle head old new tail) := inferInstanceAs (Decidable (_ ∨ _))

theorem deleteMiddle_eq : deleteMiddle head old tail =
    if old = [] then head ++ tail
    else leftPart head (old ++ tail) ++ rightPart (head ++ old) tail := by
  unfold deleteMiddle
  cases old with
  | nil => simp
  | cons c old =>
      rw [if_pos (by simp), if_neg (by simp), delete]
      have hlen : head.length + (c :: old).length = (head ++ c :: old).length := by simp
      rw [hlen, List.take_left' rfl, List.drop_left' rfl, List.append_assoc, List.take_left' rfl,
        List.drop_left' rfl]

theorem rewriteMiddle_eq_iff :
    rewriteMiddle head old new tail = head ++ (new ++ tail) ↔
      ¬DividesMiddle head old new tail := by
  -- the text between the two operations, cut where the insertion goes
  obtain ⟨left, right, hmid, hleft, hlen, hiff, hdamaged⟩ : ∃ left right,
      deleteMiddle head old tail = left ++ right ∧ left.length = head.length ∧
      right.length = tail.length ∧
      (left = head ∧ right = tail ↔
        ¬(old ≠ [] ∧ (Divides head (old ++ tail) ∨ Divides (head ++ old) tail))) ∧
      (¬(left = head ∧ right = tail) → ¬Divides left right) := by
    rw [deleteMiddle_eq]
    by_cases hold : old = []
    · exact ⟨head, tail, by rw [if_pos hold], rfl, rfl, by simp [hold], by simp⟩
    · refine ⟨leftPart head (old ++ tail), rightPart (head ++ old) tail, by rw [if_neg hold],
        length_leftPart _ _, length_rightPart _ _, ?_, ?_⟩
      · rw [leftPart_eq_iff, rightPart_eq_iff]
        simp [hold]
      · rw [leftPart_eq_iff, rightPart_eq_iff, not_and_or, not_not, not_not]
        rintro (h | h)
        · exact not_divides_leftPart h _
        · exact not_divides_rightPart h _
  have hsplit : ∀ {l r : JsString}, l.length = head.length →
      (l ++ (new ++ r) = head ++ (new ++ tail) ↔ l = head ∧ r = tail) := by
    intro l r hl
    constructor
    · intro h
      obtain ⟨hhead, hrest⟩ := List.append_inj h hl
      exact ⟨hhead, List.append_cancel_left hrest⟩
    · rintro ⟨rfl, rfl⟩
      rfl
  unfold rewriteMiddle DividesMiddle
  rw [hmid, not_or, ← hiff]
  by_cases hnew : new = []
  · rw [if_pos (by simp [hnew])]
    simpa [hnew] using hsplit (r := right) hleft
  · rw [if_neg (by simpa using hnew), insert, ← hleft, List.take_left' rfl, List.drop_left' rfl,
      hsplit (by simpa using hleft)]
    by_cases hwhole : left = head ∧ right = tail
    · obtain ⟨rfl, rfl⟩ := hwhole
      simp [leftPart_eq_iff, rightPart_eq_iff, hnew]
    · have hkeep := hdamaged hwhole
      rw [leftPart_eq_iff.mpr hkeep, rightPart_eq_iff.mpr hkeep]
      simp [hwhole]

end Lib.YText
