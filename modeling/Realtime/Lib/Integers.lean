import Mathlib.Tactic
import Realtime.Lib.Encoding

/-!
# Integers as text and as doubles

The decimal text of an integer, what Rust's `parse` and JavaScript's `BigInt` read from a
text, and the double next to an integer.
-/

namespace Lib.Integers

open Lib.Str

/-! ## Text -/

/-- The decimal text. -/
def decimal (n : ℤ) : Str :=
  if n < 0 then '-' :: Nat.toDigits 10 n.natAbs else Nat.toDigits 10 n.natAbs

def digitValue (base : Nat) (c : Char) : Option Nat :=
  let digit :=
    if c.isDigit then some (c.toNat - 48)
    else if 'a' ≤ c ∧ c ≤ 'z' then some (c.toNat - 87)
    else if 'A' ≤ c ∧ c ≤ 'Z' then some (c.toNat - 55)
    else none
  digit.filter (· < base)

/-- One or more digits, and nothing else. -/
def readNat (base : Nat) (s : Str) : Option Nat :=
  if s.isEmpty then none
  else (s.mapM (digitValue base)).map fun digits => digits.foldl (fun n d => n * base + d) 0

/-- Digits, perhaps with a sign. -/
def readSigned : Str → Option ℤ
  | '-' :: digits => (readNat 10 digits).map fun n : Nat => -(n : ℤ)
  | '+' :: digits => (readNat 10 digits).map Int.ofNat
  | digits => (readNat 10 digits).map Int.ofNat

def InI64 (n : ℤ) : Prop := -2 ^ 63 ≤ n ∧ n < 2 ^ 63

instance (n : ℤ) : Decidable (InI64 n) := inferInstanceAs (Decidable (_ ∧ _))

/-- `parse::<i64>` -/
def parseI64 (s : Str) : Option ℤ := (readSigned s).filter fun n => InI64 n

/-- The characters that JavaScript trims. -/
def isJsSpace (c : Char) : Bool := (isWhitespace c && c.toNat != 0x85) || c.toNat = 0xFEFF

/-- `BigInt` of a string; none where it throws. -/
def bigInt (s : Str) : Option ℤ :=
  match (s.dropWhile isJsSpace).rdropWhile isJsSpace with
  | [] => some 0
  | '0' :: x :: digits =>
      if x = 'x' ∨ x = 'X' then (readNat 16 digits).map Int.ofNat
      else if x = 'o' ∨ x = 'O' then (readNat 8 digits).map Int.ofNat
      else if x = 'b' ∨ x = 'B' then (readNat 2 digits).map Int.ofNat
      else readSigned ('0' :: x :: digits)
  | s => readSigned s

theorem isDigit_of_mem_toDigits {n : Nat} {c : Char} (h : c ∈ Nat.toDigits 10 n) :
    c.isDigit = true :=
  Nat.isDigit_of_mem_toDigits (by decide) (by decide) h

theorem isDigit_range {c : Char} (h : c.isDigit = true) : 48 ≤ c.toNat ∧ c.toNat ≤ 57 := by
  simp only [Char.isDigit, Bool.and_eq_true, decide_eq_true_eq] at h
  exact h

theorem digitValue_of_isDigit {c : Char} (h : c.isDigit = true) :
    digitValue 10 c = some (c.toNat - 48) := by
  have hrange := isDigit_range h
  unfold digitValue
  dsimp only
  rw [if_pos h, Option.filter_some, if_pos (by simp only [decide_eq_true_eq]; omega)]

/-- The decimal digits of a number are read back. -/
theorem readNat_toDigits (n : Nat) : readNat 10 (Nat.toDigits 10 n) = some n := by
  have hmap : ∀ s : Str, (∀ c ∈ s, c.isDigit = true) →
      s.mapM (digitValue 10) = some (s.map fun c => c.toNat - 48) := by
    intro s hs
    induction s with
    | nil => rfl
    | cons c s ih =>
        obtain ⟨hc, hs⟩ := List.forall_mem_cons.mp hs
        rw [List.mapM_cons, digitValue_of_isDigit hc, ih hs]
        rfl
  have hfold := Nat.ofDigitChars_ten_toDigits (n := n)
  rw [Nat.ofDigitChars_eq_foldl] at hfold
  simp only [Nat.mul_comm] at hfold
  unfold readNat
  rw [if_neg (by simp [Nat.toDigits_ne_nil]), hmap _ fun c hc => isDigit_of_mem_toDigits hc,
    Option.map_some, List.foldl_map]
  exact congrArg some hfold

theorem readSigned_decimal (n : ℤ) : readSigned (decimal n) = some n := by
  unfold decimal
  split_ifs with hneg
  · rw [readSigned, readNat_toDigits, Option.map_some]
    congr 1
    omega
  · unfold readSigned
    split
    · next digits heq =>
      have hminus : '-' ∈ Nat.toDigits 10 n.natAbs := heq ▸ List.mem_cons_self
      exact absurd (isDigit_of_mem_toDigits hminus) (by decide)
    · next digits heq =>
      have hplus : '+' ∈ Nat.toDigits 10 n.natAbs := heq ▸ List.mem_cons_self
      exact absurd (isDigit_of_mem_toDigits hplus) (by decide)
    · rw [readNat_toDigits, Option.map_some]
      congr 1
      show (n.natAbs : ℤ) = n
      omega

theorem parseI64_decimal {n : ℤ} (h : InI64 n) : parseI64 (decimal n) = some n := by
  rw [parseI64, readSigned_decimal, Option.filter_some, if_pos (decide_eq_true h)]

/-- A decimal text is signs and digits. -/
theorem mem_decimal {n : ℤ} {c : Char} (h : c ∈ decimal n) : c = '-' ∨ c.isDigit = true := by
  unfold decimal at h
  split_ifs at h
  · exact (List.mem_cons.mp h).imp_right isDigit_of_mem_toDigits
  · exact .inr (isDigit_of_mem_toDigits h)

theorem isJsSpace_decimal {n : ℤ} {c : Char} (h : c ∈ decimal n) : isJsSpace c = false := by
  rcases mem_decimal h with rfl | hdigit
  · rfl
  · obtain ⟨hlow, hhigh⟩ := isDigit_range hdigit
    have hval : c.val.toNat = c.toNat := rfl
    simp only [isJsSpace, isWhitespace, UInt32.le_iff_toNat_le, ← UInt32.toNat_inj,
      Bool.or_eq_false_iff, Bool.and_eq_false_iff, decide_eq_false_iff_not, hval,
      UInt32.reduceToNat]
    omega

/-- Without a second character there is no prefix that names a base. -/
theorem bigInt_decimal (n : ℤ) : bigInt (decimal n) = some n := by
  have hdrop (t : Str) (ht : ∀ c ∈ t, isJsSpace c = false) : t.dropWhile isJsSpace = t := by
    cases t with
    | nil => rfl
    | cons c t => exact List.dropWhile_cons_of_neg (by simp [ht c List.mem_cons_self])
  have htrim : ((decimal n).dropWhile isJsSpace).rdropWhile isJsSpace = decimal n := by
    rw [hdrop _ fun c hc => isJsSpace_decimal hc, List.rdropWhile, hdrop, List.reverse_reverse]
    exact fun c hc => isJsSpace_decimal (List.mem_reverse.mp hc)
  have hne : decimal n ≠ [] := by
    unfold decimal
    split_ifs
    · nofun
    · exact Nat.toDigits_ne_nil
  unfold bigInt
  rw [htrim]
  split
  · next heq => exact (hne heq).elim
  · next x digits heq =>
    have hx : x ∈ decimal n := heq ▸ List.mem_cons_of_mem _ List.mem_cons_self
    have hbase : ∀ c : Char, 57 < c.toNat → x ≠ c := by
      rintro c hc rfl
      rcases mem_decimal hx with rfl | hdigit
      · exact absurd hc (by decide)
      · have := isDigit_range hdigit
        omega
    rw [if_neg (by simp [hbase]), if_neg (by simp [hbase]), if_neg (by simp [hbase]), ← heq]
    exact readSigned_decimal n
  · exact readSigned_decimal n

/-! ## Doubles -/

/-- The double next to an integer, the even one of two. -/
def toDouble (n : ℤ) : ℚ :=
  let unit : ℤ := 2 ^ (Nat.log2 n.natAbs - 52)
  let down := n / unit
  let rest := n % unit
  if 2 * rest < unit ∨ 2 * rest = unit ∧ down % 2 = 0 then down * unit else (down + 1) * unit

end Lib.Integers
