import Mathlib.Tactic
import Realtime.Lib.RustStr
import Realtime.Lib.Utf16

/-!
# One string on two sides

The UTF-16 code units in which JavaScript holds a Rust string, the parts of a Rust string
before and behind a byte offset, and the bytes of a string, from which it is read back.
-/

namespace Lib.Str

open Lib.Utf16

/-! ## UTF-16 -/

def units (c : Char) : JsString :=
  if c.toNat < 0x10000 then [UInt16.ofNat c.toNat]
  else
    let n := c.toNat - 0x10000
    [UInt16.ofNat (0xd800 + n / 1024), UInt16.ofNat (0xdc00 + n % 1024)]

/-- `encode_utf16` -/
def encodeUtf16 (s : Str) : JsString := s.flatMap units

@[simp] theorem encodeUtf16_nil : encodeUtf16 [] = [] := rfl

@[simp] theorem encodeUtf16_cons (c : Char) (s : Str) :
    encodeUtf16 (c :: s) = units c ++ encodeUtf16 s := List.flatMap_cons

theorem toNat_lt (c : Char) : c.toNat < 0x110000 := by
  rcases c.valid with h | h
  · show c.val.toNat < _
    omega
  · exact h.2

/-- No character is a surrogate. -/
theorem toNat_ne_surrogate (c : Char) : c.toNat < 0xd800 ∨ 0xdfff < c.toNat := by
  rcases c.valid with h | h
  · exact .inl h
  · exact .inr h.1

theorem ofNat_inj {m n : Nat} (hm : m < 0x10000) (hn : n < 0x10000)
    (h : UInt16.ofNat m = UInt16.ofNat n) : m = n := by
  have hnat := congrArg UInt16.toNat h
  rwa [UInt16.toNat_ofNat_of_lt' hm, UInt16.toNat_ofNat_of_lt' hn] at hnat

/-- A character is told from its code units, whatever follows it. -/
theorem units_append_inj {c d : Char} {s t : JsString} (h : units c ++ s = units d ++ t) :
    c = d ∧ s = t := by
  have hc := toNat_lt c
  have hd := toNat_lt d
  have hsc := toNat_ne_surrogate c
  have hsd := toNat_ne_surrogate d
  unfold units at h
  split at h <;> split at h
  · rename_i hlc hld
    obtain ⟨hhead, htail⟩ := List.cons.inj h
    exact ⟨Char.toNat_inj.mp (ofNat_inj hlc hld hhead), htail⟩
  · rename_i hlc hld
    obtain ⟨hhead, -⟩ := List.cons.inj h
    have hval := ofNat_inj hlc (by omega) hhead
    omega
  · rename_i hlc hld
    obtain ⟨hhead, -⟩ := List.cons.inj h
    have hval := ofNat_inj (by omega) hld hhead
    omega
  · rename_i hlc hld
    obtain ⟨hhigh, hrest⟩ := List.cons.inj h
    obtain ⟨hlow, htail⟩ := List.cons.inj hrest
    have hval := ofNat_inj (by omega) (by omega) hhigh
    have hval' := ofNat_inj (by omega) (by omega) hlow
    exact ⟨Char.toNat_inj.mp (by omega), htail⟩

theorem units_ne_nil (c : Char) : units c ≠ [] := by
  unfold units
  split <;> nofun

theorem encodeUtf16_injective : Function.Injective encodeUtf16 := by
  intro s t h
  induction s generalizing t with
  | nil =>
      cases t with
      | nil => rfl
      | cons d t =>
          rw [encodeUtf16_nil, encodeUtf16_cons] at h
          exact absurd (List.append_eq_nil_iff.mp h.symm).1 (units_ne_nil d)
  | cons c s ih =>
      cases t with
      | nil =>
          rw [encodeUtf16_nil, encodeUtf16_cons] at h
          exact absurd (List.append_eq_nil_iff.mp h).1 (units_ne_nil c)
      | cons d t =>
          rw [encodeUtf16_cons, encodeUtf16_cons] at h
          obtain ⟨rfl, htail⟩ := units_append_inj h
          rw [ih htail]

@[simp] theorem encodeUtf16_inj {s t : Str} : encodeUtf16 s = encodeUtf16 t ↔ s = t :=
  encodeUtf16_injective.eq_iff

theorem encodeUtf16_append (s t : Str) :
    encodeUtf16 (s ++ t) = encodeUtf16 s ++ encodeUtf16 t := List.flatMap_append

/-- The code units of a front are those of a front of the text. -/
theorem encodeUtf16_prefix_iff {s t : Str} : encodeUtf16 s <+: encodeUtf16 t ↔ s <+: t := by
  constructor
  · rintro ⟨rest, h⟩
    induction s generalizing t with
    | nil => exact List.nil_prefix
    | cons c s ih =>
        rw [encodeUtf16_cons, List.append_assoc] at h
        cases t with
        | nil =>
            rw [encodeUtf16_nil] at h
            exact absurd (List.append_eq_nil_iff.mp h).1 (units_ne_nil c)
        | cons d t =>
            rw [encodeUtf16_cons] at h
            obtain ⟨rfl, htail⟩ := units_append_inj h
            exact List.cons_prefix_cons.mpr ⟨rfl, ih htail⟩
  · rintro ⟨rest, rfl⟩
    exact ⟨encodeUtf16 rest, (encodeUtf16_append s rest).symm⟩

@[simp] theorem encodeUtf16_eq_nil {s : Str} : encodeUtf16 s = [] ↔ s = [] := by
  rw [← encodeUtf16_nil, encodeUtf16_inj]

@[simp] theorem byteLength_nil : byteLength [] = 0 := rfl

@[simp] theorem byteLength_cons (c : Char) (s : Str) :
    byteLength (c :: s) = c.utf8Size + byteLength s := List.sum_cons

theorem byteLength_append (s t : Str) : byteLength (s ++ t) = byteLength s + byteLength t := by
  simp [byteLength]

theorem eq_nil_of_byteLength {s : Str} (h : byteLength s = 0) : s = [] := by
  cases s with
  | nil => rfl
  | cons c s =>
      rw [byteLength_cons] at h
      have hpos := c.utf8Size_pos
      omega

theorem length_units_le (c : Char) : (units c).length ≤ c.utf8Size := by
  have hpos := c.utf8Size_pos
  unfold units
  split
  · exact hpos
  · rename_i hlarge
    have hsize : c.utf8Size = 4 := by
      rw [Char.utf8Size_eq_four_iff, UInt32.lt_iff_toNat_lt]
      show 0xffff < c.toNat
      omega
    rw [hsize]
    show 2 ≤ 4
    omega

/-- No string is longer in code units than in bytes. -/
theorem length_encodeUtf16_le (s : Str) : (encodeUtf16 s).length ≤ byteLength s := by
  induction s with
  | nil => exact Nat.le_refl 0
  | cons c s ih =>
      rw [encodeUtf16_cons, List.length_append, byteLength_cons]
      exact Nat.add_le_add (length_units_le c) ih

/-! ## Byte offsets -/

/-- `&s[..offset]` -/
def takeBytes : Nat → Str → Str
  | _, [] => []
  | offset, c :: s => if c.utf8Size ≤ offset then c :: takeBytes (offset - c.utf8Size) s else []

/-- `&s[offset..]` -/
def dropBytes : Nat → Str → Str
  | _, [] => []
  | offset, c :: s =>
      if c.utf8Size ≤ offset then dropBytes (offset - c.utf8Size) s else c :: s

theorem takeBytes_append (s t : Str) : takeBytes (byteLength s) (s ++ t) = s := by
  induction s with
  | nil =>
      cases t with
      | nil => rfl
      | cons c t => exact if_neg (by simpa using c.utf8Size_pos.ne')
  | cons c s ih =>
      rw [List.cons_append, takeBytes, byteLength_cons, if_pos (Nat.le_add_right _ _),
        Nat.add_sub_cancel_left, ih]

theorem dropBytes_append (s t : Str) : dropBytes (byteLength s) (s ++ t) = t := by
  induction s with
  | nil =>
      cases t with
      | nil => rfl
      | cons c t => exact if_neg (by simpa using c.utf8Size_pos.ne')
  | cons c s ih =>
      rw [List.cons_append, dropBytes, byteLength_cons, if_pos (Nat.le_add_right _ _),
        Nat.add_sub_cancel_left, ih]

/-- A string of code units, with a replacement character for each that has no partner. -/
def fromUtf16Lossy : JsString → Str
  | [] => []
  | [c] => [Char.ofNat (if isHighSurrogate c || isLowSurrogate c then 0xfffd else c.toNat)]
  | c :: d :: rest =>
      if isHighSurrogate c && isLowSurrogate d then
        Char.ofNat (0x10000 + (c.toNat - 0xd800) * 1024 + (d.toNat - 0xdc00)) ::
          fromUtf16Lossy rest
      else
        Char.ofNat (if isHighSurrogate c || isLowSurrogate c then 0xfffd else c.toNat) ::
          fromUtf16Lossy (d :: rest)

theorem fromUtf16Lossy_cons {c : UInt16} (hhigh : isHighSurrogate c = false)
    (hlow : isLowSurrogate c = false) (rest : JsString) :
    fromUtf16Lossy (c :: rest) = Char.ofNat c.toNat :: fromUtf16Lossy rest := by
  cases rest with
  | nil => simp [fromUtf16Lossy, hhigh, hlow]
  | cons d rest => simp [fromUtf16Lossy, hhigh, hlow]

theorem fromUtf16Lossy_units (c : Char) (rest : JsString) :
    fromUtf16Lossy (units c ++ rest) = c :: fromUtf16Lossy rest := by
  have hc := toNat_lt c
  have hsurrogate := toNat_ne_surrogate c
  have hunit (n : Nat) (hn : n < 0x10000) : (UInt16.ofNat n).toNat = n :=
    UInt16.toNat_ofNat_of_lt' hn
  unfold units
  split
  · rename_i hlt
    rw [List.singleton_append, fromUtf16Lossy_cons, hunit _ hlt, Char.ofNat_toNat]
    all_goals
      simp only [isHighSurrogate, isLowSurrogate, UInt16.le_iff_toNat_le, hunit _ hlt,
        UInt16.reduceToNat, Bool.and_eq_false_iff, decide_eq_false_iff_not]
      omega
  · rename_i hlarge
    have hhigh := hunit (0xd800 + (c.toNat - 0x10000) / 1024) (by omega)
    have hlow := hunit (0xdc00 + (c.toNat - 0x10000) % 1024) (by omega)
    have hchar : 0x10000 + (0xd800 + (c.toNat - 0x10000) / 1024 - 0xd800) * 1024 +
        (0xdc00 + (c.toNat - 0x10000) % 1024 - 0xdc00) = c.toNat := by
      generalize c.toNat = n at *
      omega
    dsimp only
    rw [List.cons_append, List.singleton_append, fromUtf16Lossy, if_pos, hhigh, hlow, hchar,
      Char.ofNat_toNat]
    · simp only [isHighSurrogate, isLowSurrogate, UInt16.le_iff_toNat_le, hhigh, hlow,
        UInt16.reduceToNat, Bool.and_eq_true, decide_eq_true_eq]
      omega

@[simp] theorem fromUtf16Lossy_encodeUtf16 (s : Str) : fromUtf16Lossy (encodeUtf16 s) = s := by
  induction s with
  | nil => rfl
  | cons c s ih => rw [encodeUtf16_cons, fromUtf16Lossy_units, ih]

theorem toNat_ofNat_of_isValidChar {n : Nat} (h : n.isValidChar) : (Char.ofNat n).toNat = n := by
  rw [Char.ofNat, dif_pos h]
  rfl

/-- A string without lone surrogates is read as it is. -/
theorem encodeUtf16_fromUtf16Lossy {t : JsString} (h : Paired t) :
    encodeUtf16 (fromUtf16Lossy t) = t := by
  induction h with
  | nil => rfl
  | @unit c rest hhigh hlow _ ih =>
      rw [fromUtf16Lossy_cons hhigh hlow, encodeUtf16_cons, ih]
      have hc := c.toNat_lt
      simp only [isHighSurrogate, isLowSurrogate, UInt16.le_iff_toNat_le, UInt16.reduceToNat,
        Bool.and_eq_false_iff, decide_eq_false_iff_not] at hhigh hlow
      have hvalid : (Char.ofNat c.toNat).toNat = c.toNat :=
        toNat_ofNat_of_isValidChar (by rw [Nat.isValidChar]; omega)
      rw [units, hvalid, if_pos (by omega)]
      simp
  | @pair c d rest hhigh hlow _ ih =>
      rw [fromUtf16Lossy, if_pos (by rw [hhigh, hlow]; rfl), encodeUtf16_cons, ih]
      simp only [isHighSurrogate, isLowSurrogate, UInt16.le_iff_toNat_le, UInt16.reduceToNat,
        Bool.and_eq_true, decide_eq_true_eq] at hhigh hlow
      have hvalid : (Char.ofNat (0x10000 + (c.toNat - 0xd800) * 1024 + (d.toNat - 0xdc00))).toNat =
          0x10000 + (c.toNat - 0xd800) * 1024 + (d.toNat - 0xdc00) :=
        toNat_ofNat_of_isValidChar (by rw [Nat.isValidChar]; omega)
      rw [units, hvalid, if_neg (by omega)]
      have hc : 0xd800 +
          (0x10000 + (c.toNat - 0xd800) * 1024 + (d.toNat - 0xdc00) - 0x10000) / 1024 =
            c.toNat := by omega
      have hd : 0xdc00 +
          (0x10000 + (c.toNat - 0xd800) * 1024 + (d.toNat - 0xdc00) - 0x10000) % 1024 =
            d.toNat := by omega
      simp only [hc, hd, UInt16.ofNat_toNat]
      rfl

/-! ## UTF-8 -/

/-- The bytes of a string. -/
def toUtf8 (s : Str) : Bytes := s.flatMap String.utf8EncodeChar

theorem isContinuation_iff {b : UInt8} :
    isContinuation b = true ↔ 128 ≤ b.toNat ∧ b.toNat ≤ 191 := by
  rw [isContinuation, decide_eq_true_eq, UInt8.le_iff_toNat_le, UInt8.le_iff_toNat_le]
  rfl

theorem secondByte_of {first second : UInt8} (hcont : isContinuation second)
    (he0 : first.toNat = 224 → 160 ≤ second.toNat) (hed : first.toNat = 237 → second.toNat ≤ 159)
    (hf0 : first.toNat = 240 → 144 ≤ second.toNat) (hf4 : first.toNat = 244 → second.toNat ≤ 143) :
    secondByte first second = true := by
  obtain ⟨hlow, hhigh⟩ := isContinuation_iff.mp hcont
  unfold secondByte
  split_ifs with h1 h2 h3 h4
  · exact decide_eq_true ⟨he0 (h1 ▸ rfl), hhigh⟩
  · exact decide_eq_true ⟨hlow, hed (h2 ▸ rfl)⟩
  · exact decide_eq_true ⟨hf0 (h3 ▸ rfl), hhigh⟩
  · exact decide_eq_true ⟨hlow, hf4 (h4 ▸ rfl)⟩
  · exact hcont

section Chunks

variable {b0 b1 b2 b3 : UInt8} (rest : Bytes)

theorem utf8Chunks_one (h : b0.toNat < 128) :
    utf8Chunks (b0 :: rest) = some (Char.ofNat b0.toNat) :: utf8Chunks rest := by
  rw [utf8Chunks.eq_def]
  dsimp only
  rw [if_pos (UInt8.lt_iff_toNat_lt.mpr h)]

theorem utf8Chunks_two (h0 : 194 ≤ b0.toNat ∧ b0.toNat < 224) (h1 : isContinuation b1) :
    utf8Chunks (b0 :: b1 :: rest) =
      some (Char.ofNat (b0.toNat % 32 * 64 + low b1)) :: utf8Chunks rest := by
  rw [utf8Chunks.eq_def]
  dsimp only
  rw [if_neg, if_neg, if_pos, if_pos h1]
  all_goals simp only [UInt8.lt_iff_toNat_lt, UInt8.reduceToNat]
  all_goals omega

theorem utf8Chunks_three (h0 : 224 ≤ b0.toNat ∧ b0.toNat < 240) (h1 : secondByte b0 b1)
    (h2 : isContinuation b2) :
    utf8Chunks (b0 :: b1 :: b2 :: rest) =
      some (Char.ofNat (b0.toNat % 16 * 4096 + low b1 * 64 + low b2)) :: utf8Chunks rest := by
  rw [utf8Chunks.eq_def]
  dsimp only
  rw [if_neg, if_neg, if_neg, if_neg (by simp [h1]), if_neg (by simp [h2]), if_pos]
  all_goals simp only [UInt8.lt_iff_toNat_lt, UInt8.reduceToNat]
  all_goals omega

theorem utf8Chunks_four (h0 : 240 ≤ b0.toNat ∧ b0.toNat ≤ 244) (h1 : secondByte b0 b1)
    (h2 : isContinuation b2) (h3 : isContinuation b3) :
    utf8Chunks (b0 :: b1 :: b2 :: b3 :: rest) =
      some (Char.ofNat (b0.toNat % 8 * 262144 + low b1 * 4096 + low b2 * 64 + low b3)) ::
        utf8Chunks rest := by
  rw [utf8Chunks.eq_def]
  dsimp only
  rw [if_neg, if_neg, if_neg, if_neg (by simp [h1]), if_neg (by simp [h2]), if_neg,
    if_neg (by simp [h3])]
  all_goals simp only [UInt8.lt_iff_toNat_lt, UInt8.reduceToNat]
  all_goals omega

end Chunks

theorem isContinuation_ofNat (n : Nat) : isContinuation (UInt8.ofNat (n % 64 + 128)) := by
  rw [isContinuation_iff, UInt8.toNat_ofNat_of_lt' (by show _ < 256; omega)]
  omega

theorem low_ofNat (n : Nat) : low (UInt8.ofNat (n % 64 + 128)) = n % 64 := by
  rw [low, UInt8.toNat_ofNat_of_lt' (by show _ < 256; omega)]
  omega

theorem utf8Chunks_encode (c : Char) (rest : Bytes) :
    utf8Chunks (String.utf8EncodeChar c ++ rest) = some c :: utf8Chunks rest := by
  have hlt : c.val.toNat < 0x110000 := toNat_lt c
  have hsur : c.val.toNat < 0xd800 ∨ 0xdfff < c.val.toNat := toNat_ne_surrogate c
  have hc : Char.ofNat c.val.toNat = c := Char.ofNat_toNat c
  have hbyte (m : Nat) (hm : m < 256) : (UInt8.ofNat m).toNat = m := UInt8.toNat_ofNat_of_lt' hm
  unfold String.utf8EncodeChar
  dsimp only
  generalize c.val.toNat = n at *
  subst hc
  split_ifs with h1 h2 h3
  all_goals simp only [List.cons_append, List.nil_append]
  · have h0 := hbyte n (by omega)
    rw [utf8Chunks_one _ (by omega), h0]
  · have h0 := hbyte (n / 64 % 32 + 192) (by omega)
    rw [utf8Chunks_two _ (by omega) (isContinuation_ofNat _), h0, low_ofNat]
    congr 3
    omega
  · have h0 := hbyte (n / 4096 % 16 + 224) (by omega)
    have h1 := hbyte (n / 64 % 64 + 128) (by omega)
    rw [utf8Chunks_three _ (by omega) _ (isContinuation_ofNat _), h0, low_ofNat, low_ofNat]
    · congr 3
      omega
    · apply secondByte_of (isContinuation_ofNat _) <;> omega
  · have h0 := hbyte (n / 262144 % 8 + 240) (by omega)
    have h1 := hbyte (n / 4096 % 64 + 128) (by omega)
    rw [utf8Chunks_four _ (by omega) _ (isContinuation_ofNat _) (isContinuation_ofNat _), h0,
      low_ofNat, low_ofNat, low_ofNat]
    · congr 3
      omega
    · apply secondByte_of (isContinuation_ofNat _) <;> omega

theorem utf8Chunks_toUtf8 (s : Str) : utf8Chunks (toUtf8 s) = s.map some := by
  induction s with
  | nil => rw [toUtf8, List.flatMap_nil, utf8Chunks, List.map_nil]
  | cons c s ih =>
      show utf8Chunks (String.utf8EncodeChar c ++ toUtf8 s) = _
      rw [utf8Chunks_encode, ih, List.map_cons]

@[simp] theorem fromUtf8Lossy_toUtf8 (s : Str) : fromUtf8Lossy (toUtf8 s) = s := by
  simp [fromUtf8Lossy, utf8Chunks_toUtf8, Function.comp_def]

end Lib.Str
