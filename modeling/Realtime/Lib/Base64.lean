import Mathlib.Tactic
import Realtime.Lib.RustStr

/-!
# Base64

The encoding with padding, the strict decoder (canonical padding, no bits left over) and the
forgiving one of the web platform. Both read back what was encoded.
-/

namespace Lib.Base64

open Lib.Str

/-! ## Digits -/

/-- The character of six bits. -/
def digit (n : Nat) : Char :=
  if n < 26 then Char.ofNat (n + 65)
  else if n < 52 then Char.ofNat (n + 71)
  else if n < 62 then Char.ofNat (n - 4)
  else if n = 62 then '+'
  else '/'

def value (c : Char) : Option Nat :=
  if 'A' ≤ c ∧ c ≤ 'Z' then some (c.toNat - 65)
  else if 'a' ≤ c ∧ c ≤ 'z' then some (c.toNat - 71)
  else if '0' ≤ c ∧ c ≤ '9' then some (c.toNat + 4)
  else if c = '+' then some 62
  else if c = '/' then some 63
  else none

/-- The characters that the forgiving decoder passes over. -/
def isSpace (c : Char) : Bool :=
  c = ' ' || c = '\t' || c = '\n' || c = '\r' || c = Char.ofNat 12

theorem digit_spec : ∀ n < 64, value (digit n) = some n ∧ digit n ≠ '=' ∧
    isSpace (digit n) = false := by
  decide +kernel

theorem value_digit {n : Nat} (h : n < 64) : value (digit n) = some n := (digit_spec n h).1

theorem digit_ne_pad {n : Nat} (h : n < 64) : digit n ≠ '=' := (digit_spec n h).2.1

theorem isSpace_digit {n : Nat} (h : n < 64) : isSpace (digit n) = false := (digit_spec n h).2.2

/-! ## Groups of three bytes -/

def byte₀ (w x : Nat) : UInt8 := UInt8.ofNat (w * 4 + x / 16)

def byte₁ (x y : Nat) : UInt8 := UInt8.ofNat (x % 16 * 16 + y / 4)

def byte₂ (y z : Nat) : UInt8 := UInt8.ofNat (y % 4 * 64 + z)

def encode : Bytes → Str
  | [] => []
  | [a] => [digit (a.toNat / 4), digit (a.toNat % 4 * 16), '=', '=']
  | [a, b] =>
      [digit (a.toNat / 4), digit (a.toNat % 4 * 16 + b.toNat / 16), digit (b.toNat % 16 * 4), '=']
  | a :: b :: c :: rest =>
      digit (a.toNat / 4) :: digit (a.toNat % 4 * 16 + b.toNat / 16) ::
        digit (b.toNat % 16 * 4 + c.toNat / 64) :: digit (c.toNat % 64) :: encode rest

def decode : Str → Option Bytes
  | [] => some []
  | w :: x :: y :: z :: rest =>
      match value w, value x with
      | some w, some x =>
          if rest.isEmpty && z = '=' then
            if y = '=' then if x % 16 = 0 then some [byte₀ w x] else none
            else
              match value y with
              | some y => if y % 4 = 0 then some [byte₀ w x, byte₁ x y] else none
              | none => none
          else
            match value y, value z, decode rest with
            | some y, some z, some bytes => some (byte₀ w x :: byte₁ x y :: byte₂ y z :: bytes)
            | _, _, _ => none
      | _, _ => none
  | _ => none

/-- The bytes of a row of digits; bits that are no byte are dropped. -/
def bytesOf : List Nat → Bytes
  | w :: x :: y :: z :: rest => byte₀ w x :: byte₁ x y :: byte₂ y z :: bytesOf rest
  | [w, x, y] => [byte₀ w x, byte₁ x y]
  | [w, x] => [byte₀ w x]
  | _ => []

/-- Without up to two pads at the end of whole groups. -/
def unpad (s : Str) : Str :=
  if s.length % 4 = 0 then
    match s.reverse with
    | '=' :: '=' :: front => front.reverse
    | '=' :: front => front.reverse
    | _ => s
  else s

def forgivingDecode (s : Str) : Option Bytes :=
  let digits := unpad (s.filter fun c => !isSpace c)
  if digits.length % 4 = 1 then none else (digits.mapM value).map bytesOf

/-! ## What was encoded is read back -/

theorem ofNat_eq {b : UInt8} {n : Nat} (h : n = b.toNat) : UInt8.ofNat n = b := by
  rw [h, UInt8.ofNat_toNat]

theorem byte₀_eq (a : UInt8) {low : Nat} (h : low < 16) :
    byte₀ (a.toNat / 4) (a.toNat % 4 * 16 + low) = a := ofNat_eq (by omega)

theorem byte₁_eq (a b : UInt8) {low : Nat} (h : low < 4) :
    byte₁ (a.toNat % 4 * 16 + b.toNat / 16) (b.toNat % 16 * 4 + low) = b := by
  have hb := b.toNat_lt
  exact ofNat_eq (by omega)

theorem byte₂_eq (b c : UInt8) : byte₂ (b.toNat % 16 * 4 + c.toNat / 64) (c.toNat % 64) = c := by
  have hc := c.toNat_lt
  exact ofNat_eq (by omega)

theorem decode_encode (bytes : Bytes) : decode (encode bytes) = some bytes := by
  have hlast : (([] : Str).isEmpty && decide ('=' = '=')) = true := rfl
  induction bytes using encode.induct with
  | case1 => rfl
  | case2 a =>
      have ha := a.toNat_lt
      have hbyte := byte₀_eq a (show 0 < 16 by omega)
      rw [Nat.add_zero] at hbyte
      rw [encode, decode, value_digit (by omega), value_digit (by omega)]
      dsimp only
      rw [if_pos hlast, if_pos rfl, if_pos (by omega), hbyte]
  | case3 a b =>
      have ha := a.toNat_lt
      have hb := b.toNat_lt
      have hbyte := byte₁_eq a b (show 0 < 4 by omega)
      rw [Nat.add_zero] at hbyte
      rw [encode, decode, value_digit (by omega), value_digit (by omega)]
      dsimp only
      rw [if_pos hlast, if_neg (digit_ne_pad (by omega)), value_digit (by omega)]
      dsimp only
      rw [if_pos (by omega), byte₀_eq a (by omega), hbyte]
  | case4 a b c rest ih =>
      have ha := a.toNat_lt
      have hb := b.toNat_lt
      have hc := c.toNat_lt
      rw [encode, decode, value_digit (by omega), value_digit (by omega)]
      dsimp only
      rw [if_neg (by simp [digit_ne_pad (show c.toNat % 64 < 64 by omega)]),
        value_digit (by omega), value_digit (by omega), ih]
      dsimp only
      rw [byte₀_eq a (by omega), byte₁_eq a b (by omega), byte₂_eq b c]

/-- The digits of an encoding and its pads. -/
theorem encode_eq (bytes : Bytes) :
    ∃ digits pads, encode bytes = digits.map digit ++ pads ∧ (∀ n ∈ digits, n < 64) ∧
      bytesOf digits = bytes ∧
      (pads = [] ∧ digits.length % 4 = 0 ∨ pads = ['='] ∧ digits.length % 4 = 3 ∨
        pads = ['=', '='] ∧ digits.length % 4 = 2) := by
  induction bytes using encode.induct with
  | case1 => exact ⟨[], [], rfl, nofun, rfl, .inl ⟨rfl, rfl⟩⟩
  | case2 a =>
      have ha := a.toNat_lt
      refine ⟨[a.toNat / 4, a.toNat % 4 * 16], ['=', '='], rfl, ?_, ?_, .inr (.inr ⟨rfl, rfl⟩)⟩
      · simp only [List.forall_mem_cons, List.not_mem_nil, false_imp_iff, implies_true, and_true]
        omega
      · have hbyte := byte₀_eq a (show 0 < 16 by omega)
        rw [Nat.add_zero] at hbyte
        rw [bytesOf, hbyte]
  | case3 a b =>
      have ha := a.toNat_lt
      have hb := b.toNat_lt
      refine ⟨[a.toNat / 4, a.toNat % 4 * 16 + b.toNat / 16, b.toNat % 16 * 4], ['='], rfl, ?_, ?_,
        .inr (.inl ⟨rfl, rfl⟩)⟩
      · simp only [List.forall_mem_cons, List.not_mem_nil, false_imp_iff, implies_true, and_true]
        omega
      · have hbyte := byte₁_eq a b (show 0 < 4 by omega)
        rw [Nat.add_zero] at hbyte
        rw [bytesOf, byte₀_eq a (by omega), hbyte]
  | case4 a b c rest ih =>
      have ha := a.toNat_lt
      have hb := b.toNat_lt
      have hc := c.toNat_lt
      obtain ⟨digits, pads, hencode, hlt, hbytes, hpads⟩ := ih
      refine ⟨a.toNat / 4 :: (a.toNat % 4 * 16 + b.toNat / 16) ::
        (b.toNat % 16 * 4 + c.toNat / 64) :: (c.toNat % 64) :: digits, pads, ?_, ?_, ?_, ?_⟩
      · rw [encode, hencode]
        rfl
      · simp only [List.forall_mem_cons]
        exact ⟨by omega, by omega, by omega, by omega, hlt⟩
      · rw [bytesOf, byte₀_eq a (by omega), byte₁_eq a b (by omega), byte₂_eq b c, hbytes]
      · simp only [List.length_cons]
        refine hpads.imp ?_ (Or.imp ?_ ?_) <;> exact fun h => ⟨h.1, by omega⟩

theorem mapM_value {digits : List Nat} (h : ∀ n ∈ digits, n < 64) :
    (digits.map digit).mapM value = some digits := by
  induction digits with
  | nil => rfl
  | cons n digits ih =>
      obtain ⟨hn, hdigits⟩ := List.forall_mem_cons.mp h
      rw [List.map_cons, List.mapM_cons, value_digit hn, ih hdigits]
      rfl

theorem forgivingDecode_encode (bytes : Bytes) : forgivingDecode (encode bytes) = some bytes := by
  obtain ⟨digits, pads, hencode, hlt, hbytes, hpads⟩ := encode_eq bytes
  have hspace : (encode bytes).filter (fun c => !isSpace c) = encode bytes := by
    rw [List.filter_eq_self, hencode]
    intro c hc
    rcases List.mem_append.mp hc with hc | hc
    · obtain ⟨n, hn, rfl⟩ := List.mem_map.mp hc
      rw [isSpace_digit (hlt n hn)]
      rfl
    · have hpad : c = '=' := by
        rcases hpads with ⟨rfl, -⟩ | ⟨rfl, -⟩ | ⟨rfl, -⟩ <;> simp at hc <;> exact hc
      rw [hpad]
      rfl
  have hunpad : unpad (encode bytes) = digits.map digit := by
    rw [hencode, unpad]
    rcases hpads with ⟨rfl, hlen⟩ | ⟨rfl, hlen⟩ | ⟨rfl, hlen⟩
    · rw [List.append_nil, if_pos (by rw [List.length_map, hlen])]
      split
      · next front heq =>
        have hmem : '=' ∈ digits.map digit := by
          rw [← List.mem_reverse, heq]
          exact List.mem_cons_self
        obtain ⟨n, hn, hpad⟩ := List.mem_map.mp hmem
        exact (digit_ne_pad (hlt n hn) hpad).elim
      · next front _ heq =>
        have hmem : '=' ∈ digits.map digit := by
          rw [← List.mem_reverse, heq]
          exact List.mem_cons_self
        obtain ⟨n, hn, hpad⟩ := List.mem_map.mp hmem
        exact (digit_ne_pad (hlt n hn) hpad).elim
      · rfl
    · rw [if_pos (by simp only [List.length_append, List.length_map, List.length_singleton]; omega),
        List.reverse_append]
      show (match '=' :: (digits.map digit).reverse with
        | '=' :: '=' :: front => front.reverse
        | '=' :: front => front.reverse
        | _ => _) = _
      split
      · next front heq =>
        have hmem : '=' ∈ digits.map digit := by
          rw [← List.mem_reverse, (List.cons.inj heq).2]
          exact List.mem_cons_self
        obtain ⟨n, hn, hpad⟩ := List.mem_map.mp hmem
        exact (digit_ne_pad (hlt n hn) hpad).elim
      · next front _ heq =>
        rw [← (List.cons.inj heq).2, List.reverse_reverse]
      · next hnot => exact (hnot _ rfl).elim
    · rw [if_pos (by simp only [List.length_append, List.length_map, List.length_cons,
        List.length_nil]; omega), List.reverse_append]
      show List.reverse (digits.map digit).reverse = _
      rw [List.reverse_reverse]
  unfold forgivingDecode
  dsimp only
  rw [hspace, hunpad, List.length_map, if_neg (by omega), mapM_value hlt, Option.map_some, hbytes]

end Lib.Base64
