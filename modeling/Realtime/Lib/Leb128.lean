import Mathlib.Tactic

/-!
# Unsigned LEB128

The base-128 little-endian encoding of a natural number: seven payload bits a
byte, lowest first, the high bit set on every byte but the last. `decode` reads
the number at the front of a byte string with no bound on its size, so it is
the mathematical value that a bounded reader has to agree with.

Readers accumulate: they keep the value read so far and the weight of the next
byte. `decode_cons_small` and `decode_cons_large` are the two steps such a
reader is compared with.
-/

namespace Lib.Leb128

/-- The encoding of `n`: low seven bits first, high bit set while more follow. -/
def encode (n : Nat) : List UInt8 :=
  if 128 ≤ n then UInt8.ofNat (128 + n % 128) :: encode (n / 128)
  else [UInt8.ofNat n]
termination_by n
decreasing_by exact Nat.div_lt_self (by omega) (by omega)

/-- The number at the front of the bytes and what follows it; `none` when they
end inside it. -/
def decode : List UInt8 → Option (Nat × List UInt8)
  | [] => none
  | b :: rest =>
      if 128 ≤ b.toNat then
        (decode rest).bind fun p => some (b.toNat % 128 + 128 * p.1, p.2)
      else some (b.toNat, rest)

theorem encode_small {n : Nat} (h : n < 128) : encode n = [UInt8.ofNat n] := by
  rw [encode, if_neg (by omega)]

theorem encode_large {n : Nat} (h : 128 ≤ n) :
    encode n = UInt8.ofNat (128 + n % 128) :: encode (n / 128) := by
  rw [encode, if_pos h]

/-- Rule of induction along the digits of a number. -/
theorem digit_induction {P : Nat → Prop} (small : ∀ n, n < 128 → P n)
    (large : ∀ n, 128 ≤ n → P (n / 128) → P n) (n : Nat) : P n := by
  induction n using Nat.strong_induction_on with
  | _ n ih =>
      rcases Nat.lt_or_ge n 128 with hn | hn
      · exact small n hn
      · exact large n hn (ih _ (Nat.div_lt_self (by omega) (by omega)))

theorem toNat_last {n : Nat} (h : n < 128) : (UInt8.ofNat n).toNat = n := by
  rw [UInt8.toNat_ofNat']
  omega

theorem toNat_more (n : Nat) : (UInt8.ofNat (128 + n % 128)).toNat = 128 + n % 128 := by
  rw [UInt8.toNat_ofNat']
  omega

theorem decode_cons_small {b : UInt8} {rest : List UInt8} (h : b.toNat < 128) :
    decode (b :: rest) = some (b.toNat, rest) := by
  rw [decode, if_neg (by omega)]

theorem decode_cons_large {b : UInt8} {rest tail : List UInt8} {m : Nat}
    (h : 128 ≤ b.toNat) (hrest : decode rest = some (m, tail)) :
    decode (b :: rest) = some (b.toNat % 128 + 128 * m, tail) := by
  rw [decode, if_pos h, hrest, Option.bind_some]

/-- Decoding an encoding gives the number back and leaves the rest untouched. -/
theorem decode_encode_append (n : Nat) (rest : List UInt8) :
    decode (encode n ++ rest) = some (n, rest) := by
  induction n using digit_induction with
  | small n hn =>
      rw [encode_small hn, List.singleton_append, decode_cons_small, toNat_last hn]
      rw [toNat_last hn]
      exact hn
  | large n hn ih =>
      have hbyte := toNat_more n
      rw [encode_large hn, List.cons_append, decode_cons_large (by omega) ih, hbyte]
      congr 2
      omega

end Lib.Leb128
