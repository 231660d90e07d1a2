import Mathlib.Data.List.TakeWhile
import Mathlib.Tactic
import Realtime.Lib.Assoc
import Realtime.Lib.Utf16

/-!
# JSON text

JSON values and their text in UTF-16 code units: `print` is JavaScript's `JSON.stringify`
with its indentation, `parse` its `JSON.parse`. An object is its entries in order; a name that
comes again in a text keeps its first place and takes the last value.

What a number is, and which numeral denotes it, is a parameter (`Numbers`): a number that
has no numeral is printed as `null`. A printed value is read back as it is but for these
numbers, and for those whose numeral denotes another one (`canon`); printing does not tell
the difference.
-/

namespace Lib.Json

open Lib.Utf16

inductive Value (ν : Type) where
  | null
  | bool (b : Bool)
  | num (n : ν)
  | str (s : JsString)
  | arr (items : List (Value ν))
  | obj (entries : List (JsString × Value ν))

variable {ν : Type}

/-- Induction with one hypothesis for all items or entries of a container. -/
@[elab_as_elim]
theorem Value.ind {motive : Value ν → Prop} (null : motive .null) (bool : ∀ b, motive (.bool b))
    (num : ∀ n, motive (.num n)) (str : ∀ s, motive (.str s))
    (arr : ∀ items, (∀ v ∈ items, motive v) → motive (.arr items))
    (obj : ∀ entries, (∀ e ∈ entries, motive e.2) → motive (.obj entries)) : ∀ v, motive v := by
  intro v
  refine @Value.rec ν motive (fun items => ∀ v ∈ items, motive v)
    (fun entries => ∀ e ∈ entries, motive e.2) (fun e => motive e.2) null bool num str arr obj
    ?_ ?_ ?_ ?_ ?_ v
  · simp
  · intro head tail hhead htail v hv
    rcases List.mem_cons.mp hv with rfl | hv
    · exact hhead
    · exact htail v hv
  · simp
  · intro head tail hhead htail e he
    rcases List.mem_cons.mp he with rfl | he
    · exact hhead
    · exact htail e he
  · intro _ _ h
    exact h

/-! ## Tokens -/

def quoteMark : UInt16 := 34
def comma : UInt16 := 44
def colon : UInt16 := 58
def openBracket : UInt16 := 91
def backslash : UInt16 := 92
def closeBracket : UInt16 := 93
def openBrace : UInt16 := 123
def closeBrace : UInt16 := 125

def isSpace (c : UInt16) : Bool := c = 32 || c = 9 || c = 10 || c = 13

def skipSpace (s : JsString) : JsString := s.dropWhile isSpace

/-- A lower-case hexadecimal digit. -/
def hexDigit (n : Nat) : UInt16 := UInt16.ofNat (if n < 10 then 48 + n else 87 + n)

def hexValue (c : UInt16) : Option Nat :=
  if 48 ≤ c ∧ c ≤ 57 then some (c.toNat - 48)
  else if 97 ≤ c ∧ c ≤ 102 then some (c.toNat - 87)
  else if 65 ≤ c ∧ c ≤ 70 then some (c.toNat - 55)
  else none

/-- The code unit written as four hexadecimal digits. -/
def readHex (a b c d : UInt16) : Option UInt16 := do
  let a ← hexValue a
  let b ← hexValue b
  let c ← hexValue c
  let d ← hexValue d
  some (UInt16.ofNat (((a * 16 + b) * 16 + c) * 16 + d))

def unicodeEscape (c : UInt16) : JsString :=
  [backslash, 117, hexDigit (c.toNat / 4096), hexDigit (c.toNat / 256 % 16),
    hexDigit (c.toNat / 16 % 16), hexDigit (c.toNat % 16)]

/-- A code unit in a string literal, where it is no half of a surrogate pair. -/
def quoteUnit (c : UInt16) : JsString :=
  if c = 8 then [backslash, 98]
  else if c = 9 then [backslash, 116]
  else if c = 10 then [backslash, 110]
  else if c = 12 then [backslash, 102]
  else if c = 13 then [backslash, 114]
  else if c = quoteMark ∨ c = backslash then [backslash, c]
  else if c < 32 ∨ isHighSurrogate c ∨ isLowSurrogate c then unicodeEscape c
  else [c]

/-- The inside of a string literal: surrogates in pairs stand as they are. -/
def quoteUnits : JsString → JsString
  | [] => []
  | [c] => quoteUnit c
  | c :: d :: rest =>
      if isHighSurrogate c ∧ isLowSurrogate d then c :: d :: quoteUnits rest
      else quoteUnit c ++ quoteUnits (d :: rest)

/-- `QuoteJSONString` -/
def quote (s : JsString) : JsString := quoteMark :: quoteUnits s ++ [quoteMark]

def simpleEscape (c : UInt16) : Option UInt16 :=
  if c = 34 ∨ c = 92 ∨ c = 47 then some c
  else if c = 98 then some 8
  else if c = 102 then some 12
  else if c = 110 then some 10
  else if c = 114 then some 13
  else if c = 116 then some 9
  else none

/-- A string literal behind its opening quote, and what comes after it. -/
def readString : JsString → Option (JsString × JsString)
  | [] => none
  | c :: rest =>
      if c = quoteMark then some ([], rest)
      else if c = backslash then
        match rest with
        | [] => none
        | e :: rest =>
            if e = 117 then
              match rest with
              | h1 :: h2 :: h3 :: h4 :: rest => do
                  let unit ← readHex h1 h2 h3 h4
                  let (s, rest) ← readString rest
                  some (unit :: s, rest)
              | _ => none
            else do
              let unit ← simpleEscape e
              let (s, rest) ← readString rest
              some (unit :: s, rest)
      else if c < 32 then none
      else do
        let (s, rest) ← readString rest
        some (c :: s, rest)

def isDigit (c : UInt16) : Bool := 48 ≤ c && c ≤ 57

def readDigits (s : JsString) : Option (JsString × JsString) :=
  if s.takeWhile isDigit = [] then none else some (s.takeWhile isDigit, s.dropWhile isDigit)

/-- A digit sequence that has no leading zero. -/
def readInteger : JsString → Option (JsString × JsString)
  | [] => none
  | c :: rest => if c = 48 then some ([c], rest) else readDigits (c :: rest)

def readFraction : JsString → Option (JsString × JsString)
  | [] => some ([], [])
  | c :: rest =>
      if c = 46 then (readDigits rest).map fun (ds, rest) => (c :: ds, rest)
      else some ([], c :: rest)

/-- An optional sign of these, and what follows. -/
def readSign (allowed : UInt16 → Bool) : JsString → JsString × JsString
  | [] => ([], [])
  | c :: rest => if allowed c then ([c], rest) else ([], c :: rest)

def readExponent : JsString → Option (JsString × JsString)
  | [] => some ([], [])
  | c :: rest =>
      if c = 101 ∨ c = 69 then
        let signed := readSign (fun c => c = 43 || c = 45) rest
        (readDigits signed.2).map fun (ds, rest) => (c :: signed.1 ++ ds, rest)
      else some ([], c :: rest)

/-- The numeral that a text begins with, and what comes after it. -/
def readNumeral (s : JsString) : Option (JsString × JsString) := do
  let signed := readSign (fun c => c = 45) s
  let (int, rest) ← readInteger signed.2
  let (frac, rest) ← readFraction rest
  let (exp, rest) ← readExponent rest
  some (signed.1 ++ int ++ frac ++ exp, rest)

/-! ## Values -/

/-- The numbers and their numerals. -/
structure Numbers (ν : Type) where
  /-- `none`: not finite. -/
  print : ν → Option JsString
  read : JsString → ν
  readNumeral_print : ∀ n s, print n = some s → readNumeral s = some (s, [])
  print_read : ∀ n s, print n = some s → print (read s) = some s

def readLiteral (word : JsString) (v : Value ν) (s : JsString) : Option (Value ν × JsString) :=
  if word <+: s then some (v, s.drop word.length) else none

variable (N : Numbers ν)

/-- A literal name or a number. -/
def readScalar (s : JsString) : Option (Value ν × JsString) :=
  (readLiteral (ascii "null") .null s).or <| (readLiteral (ascii "true") (.bool true) s).or <|
    (readLiteral (ascii "false") (.bool false) s).or <|
      (readNumeral s).map fun (numeral, rest) => (.num (N.read numeral), rest)

/-- A name in quotes and its colon. -/
def readKey : JsString → Option (JsString × JsString)
  | [] => none
  | c :: rest =>
      if c = quoteMark then do
        let (key, rest) ← readString rest
        match skipSpace rest with
        | [] => none
        | d :: rest => if d = colon then some (key, rest) else none
      else none

mutual

/-- The value that a text begins with, and what comes after it. Each value and each further
item takes one unit of fuel and at least one of the text. -/
def readValue : Nat → JsString → Option (Value ν × JsString)
  | 0, _ => none
  | fuel + 1, s =>
      match skipSpace s with
      | [] => none
      | c :: rest =>
          if c = quoteMark then (readString rest).map fun (s, rest) => (.str s, rest)
          else if c = openBracket then
            if (skipSpace rest).head? = some closeBracket then
              some (.arr [], (skipSpace rest).tail)
            else (readItems fuel rest).map fun (items, rest) => (.arr items, rest)
          else if c = openBrace then
            if (skipSpace rest).head? = some closeBrace then some (.obj [], (skipSpace rest).tail)
            else (readMembers fuel [] rest).map fun (entries, rest) => (.obj entries, rest)
          else readScalar N (c :: rest)

def readItems : Nat → JsString → Option (List (Value ν) × JsString)
  | 0, _ => none
  | fuel + 1, s => do
      let (v, rest) ← readValue fuel s
      match skipSpace rest with
      | [] => none
      | c :: rest =>
          if c = comma then do
            let (items, rest) ← readItems fuel rest
            some (v :: items, rest)
          else if c = closeBracket then some ([v], rest)
          else none

def readMembers : Nat → List (JsString × Value ν) → JsString →
    Option (List (JsString × Value ν) × JsString)
  | 0, _, _ => none
  | fuel + 1, entries, s => do
      let (key, rest) ← readKey (skipSpace s)
      let (v, rest) ← readValue fuel rest
      let entries := Assoc.set key v entries
      match skipSpace rest with
      | [] => none
      | c :: rest =>
          if c = comma then readMembers fuel entries rest
          else if c = closeBrace then some (entries, rest)
          else none

end

/-- `JSON.parse`; the fuel is that of the whole text, so it never runs out. -/
def parse (text : JsString) : Option (Value ν) :=
  match readValue N (2 * text.length + 1) text with
  | some (v, rest) => if skipSpace rest = [] then some v else none
  | none => none

/-! ## Printing -/

/-- The parts between brackets, on lines of their own where there is a gap. -/
def enclose (l r : UInt16) (gap indent : JsString) (parts : List JsString) : JsString :=
  if parts = [] then [l, r]
  else if gap = [] then l :: List.intercalate [comma] parts ++ [r]
  else
    let separator := newline :: (indent ++ gap)
    l :: separator ++ List.intercalate (comma :: separator) parts ++ newline :: indent ++ [r]

/-- A member of an object, from the text of its value. -/
def printEntry (gap key text : JsString) : JsString :=
  quote key ++ colon :: ((if gap = [] then [] else [32]) ++ text)

mutual

/-- `JSON.stringify(value, null, gap)`, at a line with this indentation. -/
def printAt (gap indent : JsString) : Value ν → JsString
  | .null => ascii "null"
  | .bool true => ascii "true"
  | .bool false => ascii "false"
  | .num n => (N.print n).getD (ascii "null")
  | .str s => quote s
  | .arr items =>
      enclose openBracket closeBracket gap indent (printItems gap (indent ++ gap) items)
  | .obj entries =>
      enclose openBrace closeBrace gap indent (printEntries gap (indent ++ gap) entries)

def printItems (gap indent : JsString) : List (Value ν) → List JsString
  | [] => []
  | v :: items => printAt gap indent v :: printItems gap indent items

def printEntries (gap indent : JsString) : List (JsString × Value ν) → List JsString
  | [] => []
  | (key, v) :: entries =>
      printEntry gap key (printAt gap indent v) :: printEntries gap indent entries

end

def print (gap : JsString) (v : Value ν) : JsString := printAt N gap [] v

/-! ## What is read back -/

mutual

/-- The value with each number as its numeral has it. -/
def canon : Value ν → Value ν
  | .num n =>
      match N.print n with
      | some s => .num (N.read s)
      | none => .null
  | .arr items => .arr (canonItems items)
  | .obj entries => .obj (canonEntries entries)
  | v => v

def canonItems : List (Value ν) → List (Value ν)
  | [] => []
  | v :: items => canon v :: canonItems items

def canonEntries : List (JsString × Value ν) → List (JsString × Value ν)
  | [] => []
  | (key, v) :: entries => (key, canon v) :: canonEntries entries

end

/-- No name comes twice in an object. -/
inductive Wf : Value ν → Prop
  | null : Wf .null
  | bool (b : Bool) : Wf (.bool b)
  | num (n : ν) : Wf (.num n)
  | str (s : JsString) : Wf (.str s)
  | arr {items : List (Value ν)} : (∀ v ∈ items, Wf v) → Wf (.arr items)
  | obj {entries : List (JsString × Value ν)} :
      Assoc.Wf entries → (∀ e ∈ entries, Wf e.2) → Wf (.obj entries)

/-! ## Strings -/

theorem hexValue_hexDigit {n : Nat} (h : n < 16) : hexValue (hexDigit n) = some n := by
  interval_cases n <;> rfl

theorem readHex_hexDigit (c : UInt16) :
    readHex (hexDigit (c.toNat / 4096)) (hexDigit (c.toNat / 256 % 16))
      (hexDigit (c.toNat / 16 % 16)) (hexDigit (c.toNat % 16)) = some c := by
  have hc : c.toNat < 65536 := c.toNat_lt
  have hvalue : ((c.toNat / 4096 * 16 + c.toNat / 256 % 16) * 16 + c.toNat / 16 % 16) * 16 +
      c.toNat % 16 = c.toNat := by omega
  rw [readHex, hexValue_hexDigit (by omega), hexValue_hexDigit (by omega),
    hexValue_hexDigit (by omega), hexValue_hexDigit (by omega)]
  show some (UInt16.ofNat _) = some c
  rw [hvalue, UInt16.ofNat_toNat]

theorem readString_quoteMark (t : JsString) : readString (quoteMark :: t) = some ([], t) := by
  rw [readString.eq_def]
  exact if_pos rfl

/-- A unit that needs no escape. -/
theorem readString_raw {c : UInt16} (hquote : c ≠ quoteMark) (hback : c ≠ backslash)
    (hcontrol : ¬ c < 32) (t : JsString) :
    readString (c :: t) = (readString t).map fun p => (c :: p.1, p.2) := by
  rw [readString.eq_def]
  simp only [if_neg hquote, if_neg hback, if_neg hcontrol]
  cases readString t <;> rfl

theorem readString_unicodeEscape (c : UInt16) (t : JsString) :
    readString (unicodeEscape c ++ t) = (readString t).map fun p => (c :: p.1, p.2) := by
  rw [unicodeEscape, readString.eq_def]
  simp only [List.cons_append, List.nil_append, if_true, readHex_hexDigit,
    show ¬ backslash = quoteMark by decide, if_false]
  cases readString t <;> rfl

theorem readString_simpleEscape {c e : UInt16} (he : simpleEscape e = some c) (hu : e ≠ 117)
    (t : JsString) :
    readString (backslash :: e :: t) = (readString t).map fun p => (c :: p.1, p.2) := by
  rw [readString.eq_def]
  simp only [if_true, show ¬ backslash = quoteMark by decide, if_false, if_neg hu, he]
  cases readString t <;> rfl

theorem readString_quoteUnit (c : UInt16) (t : JsString) :
    readString (quoteUnit c ++ t) = (readString t).map fun p => (c :: p.1, p.2) := by
  unfold quoteUnit
  split
  · next h => exact readString_simpleEscape (by rw [h]; rfl) (by decide) t
  · split
    · next h => exact readString_simpleEscape (by rw [h]; rfl) (by decide) t
    · split
      · next h => exact readString_simpleEscape (by rw [h]; rfl) (by decide) t
      · split
        · next h => exact readString_simpleEscape (by rw [h]; rfl) (by decide) t
        · split
          · next h => exact readString_simpleEscape (by rw [h]; rfl) (by decide) t
          · split
            · next h =>
                rcases h with rfl | rfl <;> exact readString_simpleEscape rfl (by decide) t
            · next h =>
                obtain ⟨hquote, hback⟩ := not_or.mp h
                split
                · exact readString_unicodeEscape c t
                · next hplain =>
                    exact readString_raw hquote hback (fun hlt => hplain (.inl hlt)) t

/-- A surrogate needs no escape to be read back. -/
theorem readString_surrogate {c : UInt16} (h : 0xd800 ≤ c) (t : JsString) :
    readString (c :: t) = (readString t).map fun p => (c :: p.1, p.2) := by
  have hc : 0xd800 ≤ c.toNat := h
  refine readString_raw ?_ ?_ ?_ t
  · rintro rfl
    exact absurd hc (by decide)
  · rintro rfl
    exact absurd hc (by decide)
  · intro hlt
    have hlt' : c.toNat < 32 := hlt
    omega

theorem readString_quoteUnits (s rest : JsString) :
    readString (quoteUnits s ++ quoteMark :: rest) = some (s, rest) := by
  induction s using quoteUnits.induct with
  | case1 => exact readString_quoteMark rest
  | case2 c =>
      rw [quoteUnits, readString_quoteUnit, readString_quoteMark]
      rfl
  | case3 c d s hpair ih =>
      have hhigh : 0xd800 ≤ c := by
        have h := hpair.1
        simp only [isHighSurrogate, Bool.and_eq_true, decide_eq_true_eq] at h
        exact h.1
      have hlow : 0xd800 ≤ d := by
        have h := hpair.2
        simp only [isLowSurrogate, Bool.and_eq_true, decide_eq_true_eq] at h
        have hle : (0xd800 : UInt16) ≤ 0xdc00 := by decide
        exact UInt16.le_trans hle h.1
      rw [quoteUnits, if_pos hpair, List.cons_append, List.cons_append,
        readString_surrogate hhigh, readString_surrogate hlow, ih]
      rfl
  | case4 c d s hpair ih =>
      rw [quoteUnits, if_neg hpair, List.append_assoc, readString_quoteUnit, ih]
      rfl

theorem readString_quote (s rest : JsString) :
    readString (quoteUnits s ++ [quoteMark] ++ rest) = some (s, rest) := by
  rw [List.append_assoc]
  exact readString_quoteUnits s rest

/-! ## Numerals -/

/-- The units of which a numeral is made. -/
def isNumeralUnit (c : UInt16) : Bool :=
  isDigit c || c = 43 || c = 45 || c = 46 || c = 69 || c = 101

/-- No numeral goes on into this text. -/
def Stops (rest : JsString) : Prop := ∀ c ∈ rest.head?, isNumeralUnit c = false

theorem stops_nil : Stops [] := nofun

theorem stops_cons {c : UInt16} {rest : JsString} (h : isNumeralUnit c = false) :
    Stops (c :: rest) := by
  intro d hd
  obtain rfl := Option.some.inj hd
  exact h

theorem Stops.head {c : UInt16} {rest : JsString} (h : Stops (c :: rest)) :
    isNumeralUnit c = false := h c rfl

section

variable {s t r rest : JsString}

theorem takeWhile_isDigit_append (h : Stops rest) (s : JsString) :
    (s ++ rest).takeWhile isDigit = s.takeWhile isDigit ∧
      (s ++ rest).dropWhile isDigit = s.dropWhile isDigit ++ rest := by
  induction s with
  | nil =>
      cases rest with
      | nil => exact ⟨rfl, rfl⟩
      | cons c rest =>
          have hc : isDigit c = false := by
            have hstop := h.head
            simp only [isNumeralUnit, Bool.or_eq_false_iff] at hstop
            exact hstop.1.1.1.1.1
          simp [hc]
  | cons c s ih =>
      obtain ⟨htake, hdrop⟩ := ih
      cases hc : isDigit c with
      | true => simp [hc, htake, hdrop]
      | false => simp [hc]

theorem readDigits_append (h : Stops rest) (hs : readDigits s = some (t, r)) :
    readDigits (s ++ rest) = some (t, r ++ rest) := by
  obtain ⟨htake, hdrop⟩ := takeWhile_isDigit_append h s
  unfold readDigits at hs ⊢
  rw [htake, hdrop]
  split at hs
  · cases hs
  · next hne =>
      rw [if_neg hne]
      cases hs
      rfl

theorem readInteger_append (h : Stops rest) (hs : readInteger s = some (t, r)) :
    readInteger (s ++ rest) = some (t, r ++ rest) := by
  cases s with
  | nil => cases hs
  | cons c s =>
      rw [readInteger] at hs
      rw [List.cons_append, readInteger]
      split at hs
      · next hzero =>
          rw [if_pos hzero]
          cases hs
          rfl
      · next hzero =>
          rw [if_neg hzero]
          exact readDigits_append h hs

theorem readFraction_append (h : Stops rest) (hs : readFraction s = some (t, r)) :
    readFraction (s ++ rest) = some (t, r ++ rest) := by
  cases s with
  | nil =>
      cases hs
      cases rest with
      | nil => rfl
      | cons c rest =>
          have hc : c ≠ 46 := by
            rintro rfl
            exact absurd h.head (by decide)
          rw [List.nil_append, readFraction, if_neg hc]
  | cons c s =>
      rw [readFraction] at hs
      rw [List.cons_append, readFraction]
      split at hs
      · next hdot =>
          obtain ⟨p, hp, heq⟩ := Option.map_eq_some_iff.mp hs
          cases heq
          rw [if_pos hdot, readDigits_append h hp]
          rfl
      · next hdot =>
          cases hs
          rw [if_neg hdot]
          rfl

theorem readSign_append {allowed : UInt16 → Bool} (hs : s ≠ []) (rest : JsString) :
    readSign allowed (s ++ rest) =
      ((readSign allowed s).1, (readSign allowed s).2 ++ rest) := by
  cases s with
  | nil => exact absurd rfl hs
  | cons c s =>
      rw [List.cons_append, readSign, readSign]
      split <;> rfl

theorem readExponent_append (h : Stops rest) (hs : readExponent s = some (t, r)) :
    readExponent (s ++ rest) = some (t, r ++ rest) := by
  cases s with
  | nil =>
      cases hs
      cases rest with
      | nil => rfl
      | cons c rest =>
          have hc : ¬ (c = 101 ∨ c = 69) := by
            rintro (rfl | rfl) <;> exact absurd h.head (by decide)
          rw [List.nil_append, readExponent, if_neg hc]
  | cons c s =>
      rw [readExponent] at hs
      rw [List.cons_append, readExponent]
      split at hs
      · next hexp =>
          rw [if_pos hexp]
          have hne : s ≠ [] := by
            rintro rfl
            cases hs
          obtain ⟨p, hp, heq⟩ := Option.map_eq_some_iff.mp hs
          cases heq
          rw [readSign_append hne]
          simp only
          rw [readDigits_append h hp]
          rfl
      · next hexp =>
          cases hs
          rw [if_neg hexp]
          rfl

/-- A numeral is read from the front of any text that does not go on with it. -/
theorem readNumeral_append (h : Stops rest) (hs : readNumeral s = some (t, r)) :
    readNumeral (s ++ rest) = some (t, r ++ rest) := by
  have hne : s ≠ [] := by
    rintro rfl
    cases hs
  unfold readNumeral at hs ⊢
  simp only at hs
  obtain ⟨⟨int, r1⟩, hint, hs⟩ := Option.bind_eq_some_iff.mp hs
  obtain ⟨⟨frac, r2⟩, hfrac, hs⟩ := Option.bind_eq_some_iff.mp hs
  obtain ⟨⟨exp, r3⟩, hexp, hs⟩ := Option.bind_eq_some_iff.mp hs
  cases hs
  rw [readSign_append hne]
  simp only [readInteger_append h hint, Option.bind_eq_bind, Option.bind_some,
    readFraction_append h hfrac, readExponent_append h hexp]

theorem readDigits_head {c : UInt16} (hs : readDigits (c :: s) = some (t, r)) :
    isDigit c = true := by
  by_contra hc
  rw [readDigits, List.takeWhile_cons_of_neg (by simpa using hc), if_pos rfl] at hs
  cases hs

/-- A numeral begins with a digit or a minus sign. -/
theorem readNumeral_head (hs : readNumeral s = some (t, r)) :
    ∃ c s', s = c :: s' ∧ (isDigit c = true ∨ c = 45) := by
  unfold readNumeral at hs
  simp only at hs
  obtain ⟨⟨int, r1⟩, hint, -⟩ := Option.bind_eq_some_iff.mp hs
  cases s with
  | nil => cases hint
  | cons c s =>
      refine ⟨c, s, rfl, ?_⟩
      rw [readSign] at hint
      split at hint
      · next hminus => exact .inr (by simpa using hminus)
      · rw [readInteger] at hint
        split at hint
        · next hzero =>
            rw [hzero]
            exact .inl rfl
        · exact .inl (readDigits_head hint)

end

section

variable {s t r : JsString}

theorem readDigits_units (h : readDigits s = some (t, r)) : ∀ c ∈ t, isNumeralUnit c = true := by
  rw [readDigits] at h
  split at h
  · cases h
  · cases h
    intro c hc
    rw [isNumeralUnit, List.mem_takeWhile_imp hc]
    rfl

theorem readInteger_units (h : readInteger s = some (t, r)) :
    ∀ c ∈ t, isNumeralUnit c = true := by
  cases s with
  | nil => cases h
  | cons c s =>
      rw [readInteger] at h
      split at h
      · next hzero =>
          cases h
          rw [hzero]
          exact List.forall_mem_singleton.mpr rfl
      · exact readDigits_units h

theorem readFraction_units (h : readFraction s = some (t, r)) :
    ∀ c ∈ t, isNumeralUnit c = true := by
  cases s with
  | nil =>
      cases h
      exact nofun
  | cons c s =>
      rw [readFraction] at h
      split at h
      · next hdot =>
          obtain ⟨⟨ds, rest⟩, hds, heq⟩ := Option.map_eq_some_iff.mp h
          cases heq
          rw [hdot]
          exact List.forall_mem_cons.mpr ⟨rfl, readDigits_units hds⟩
      · cases h
        exact nofun

theorem readSign_units {allowed : UInt16 → Bool}
    (h : ∀ c, allowed c = true → isNumeralUnit c = true) (s : JsString) :
    ∀ c ∈ (readSign allowed s).1, isNumeralUnit c = true := by
  cases s with
  | nil => exact nofun
  | cons c s =>
      rw [readSign]
      split
      · next hc => exact List.forall_mem_singleton.mpr (h c hc)
      · exact nofun

theorem readExponent_units (h : readExponent s = some (t, r)) :
    ∀ c ∈ t, isNumeralUnit c = true := by
  cases s with
  | nil =>
      cases h
      exact nofun
  | cons c s =>
      rw [readExponent] at h
      split at h
      · next hexp =>
          obtain ⟨⟨ds, rest⟩, hds, heq⟩ := Option.map_eq_some_iff.mp h
          cases heq
          have hc : isNumeralUnit c = true := by rcases hexp with rfl | rfl <;> rfl
          have hsign : ∀ c : UInt16, (decide (c = 43) || decide (c = 45)) = true →
              isNumeralUnit c = true := by
            intro c hc
            rw [Bool.or_eq_true, decide_eq_true_eq, decide_eq_true_eq] at hc
            rcases hc with rfl | rfl <;> rfl
          refine List.forall_mem_cons.mpr ⟨hc, ?_⟩
          exact List.forall_mem_append.mpr ⟨readSign_units hsign _, readDigits_units hds⟩
      · cases h
        exact nofun

theorem readNumeral_units (h : readNumeral s = some (t, r)) :
    ∀ c ∈ t, isNumeralUnit c = true := by
  unfold readNumeral at h
  simp only at h
  obtain ⟨⟨int, r1⟩, hint, h⟩ := Option.bind_eq_some_iff.mp h
  obtain ⟨⟨frac, r2⟩, hfrac, h⟩ := Option.bind_eq_some_iff.mp h
  obtain ⟨⟨exp, r3⟩, hexp, h⟩ := Option.bind_eq_some_iff.mp h
  cases h
  have hsign : ∀ c : UInt16, decide (c = 45) = true → isNumeralUnit c = true := by
    intro c hc
    rw [of_decide_eq_true hc]
    rfl
  exact List.forall_mem_append.mpr ⟨List.forall_mem_append.mpr ⟨List.forall_mem_append.mpr
    ⟨readSign_units hsign s, readInteger_units hint⟩, readFraction_units hfrac⟩,
    readExponent_units hexp⟩

end

/-! ## Reading a printed value -/

section

variable {c : UInt16} {gap indent lead trail s t rest : JsString}

theorem skipSpace_append (h : ∀ c ∈ lead, isSpace c = true) (t : JsString) :
    skipSpace (lead ++ t) = skipSpace t := List.dropWhile_append_of_pos h

theorem skipSpace_cons (h : isSpace c = false) (t : JsString) : skipSpace (c :: t) = c :: t :=
  List.dropWhile_cons_of_neg (by simp [h])

theorem isNumeralUnit_of_isSpace (h : isSpace c = true) : isNumeralUnit c = false := by
  simp only [isSpace, Bool.or_eq_true, decide_eq_true_eq] at h
  rcases h with ((rfl | rfl) | rfl) | rfl <;> rfl

theorem stops_append_cons (h : ∀ c ∈ trail, isSpace c = true) (hc : isNumeralUnit c = false)
    (t : JsString) : Stops (trail ++ c :: t) := by
  cases trail with
  | nil => exact stops_cons hc
  | cons d trail => exact stops_cons (isNumeralUnit_of_isSpace (h d List.mem_cons_self))

theorem readValue_space (h : ∀ c ∈ lead, isSpace c = true) (fuel : Nat) (t : JsString) :
    readValue N fuel (lead ++ t) = readValue N fuel t := by
  cases fuel with
  | zero => rw [readValue, readValue]
  | succ fuel => rw [readValue, readValue, skipSpace_append h]

theorem readKey_quote (key t : JsString) :
    readKey (quote key ++ colon :: t) = some (key, t) := by
  show readKey (quoteMark :: (quoteUnits key ++ [quoteMark] ++ colon :: t)) = _
  rw [readKey, if_pos rfl, readString_quote]
  rfl

/-- The layout of a container that is not empty: the same space before each part. -/
theorem enclose_cons (hgap : ∀ c ∈ gap, isSpace c = true) (hindent : ∀ c ∈ indent, isSpace c = true)
    (l r : UInt16) (p : JsString) (parts : List JsString) : ∃ lead trail,
      (∀ c ∈ lead, isSpace c = true) ∧ (∀ c ∈ trail, isSpace c = true) ∧
        enclose l r gap indent (p :: parts) =
          l :: (lead ++ (List.intercalate (comma :: lead) (p :: parts) ++ (trail ++ [r]))) := by
  unfold enclose
  rw [if_neg (List.cons_ne_nil _ _)]
  by_cases hnil : gap = []
  · refine ⟨[], [], nofun, nofun, ?_⟩
    rw [if_pos hnil]
    rfl
  · refine ⟨newline :: (indent ++ gap), newline :: indent, ?_, ?_, ?_⟩
    · intro c hc
      rcases List.mem_cons.mp hc with rfl | hc
      · rfl
      · exact (List.mem_append.mp hc).elim (hindent c) (hgap c)
    · intro c hc
      rcases List.mem_cons.mp hc with rfl | hc
      · rfl
      · exact hindent c hc
    · rw [if_neg hnil]
      simp

/-- How a value's text begins: not with space, and not with what closes an array. -/
theorem printAt_head (gap indent : JsString) (v : Value ν) :
    ∃ c t, printAt N gap indent v = c :: t ∧ isSpace c = false ∧ c ≠ closeBracket := by
  cases v with
  | null => exact ⟨_, _, rfl, rfl, by decide⟩
  | bool b => cases b <;> exact ⟨_, _, rfl, rfl, by decide⟩
  | num n =>
      rw [printAt]
      cases hn : N.print n with
      | none => exact ⟨_, _, rfl, rfl, by decide⟩
      | some s =>
          obtain ⟨c, s', rfl, hc⟩ := readNumeral_head (N.readNumeral_print n s hn)
          refine ⟨c, s', rfl, ?_⟩
          rcases hc with hdigit | rfl
          · simp only [isDigit, Bool.and_eq_true, decide_eq_true_eq] at hdigit
            have hlow : 48 ≤ c.toNat := hdigit.1
            have hhigh : c.toNat ≤ 57 := hdigit.2
            constructor
            · simp only [isSpace, Bool.or_eq_false_iff, decide_eq_false_iff_not]
              refine ⟨⟨⟨?_, ?_⟩, ?_⟩, ?_⟩ <;>
                (rintro rfl; exact absurd hlow (by decide))
            · rintro rfl
              exact absurd hhigh (by decide)
          · exact ⟨rfl, by decide⟩
  | str s => exact ⟨_, _, rfl, rfl, by decide⟩
  | arr items =>
      rw [printAt, enclose]
      split
      · exact ⟨_, _, rfl, rfl, by decide⟩
      · split <;> exact ⟨_, _, rfl, rfl, by decide⟩
  | obj entries =>
      rw [printAt, enclose]
      split
      · exact ⟨_, _, rfl, rfl, by decide⟩
      · split <;> exact ⟨_, _, rfl, rfl, by decide⟩

theorem readScalar_numeral (hs : readNumeral s = some (s, [])) (hrest : Stops rest) :
    readScalar N (s ++ rest) = some (.num (N.read s), rest) := by
  obtain ⟨c, s', rfl, hc⟩ := readNumeral_head hs
  have hliteral : ∀ (d : UInt16) (word : JsString) (v : Value ν), d ≠ c →
      readLiteral (d :: word) v (c :: s' ++ rest) = none := by
    intro d word v hne
    refine if_neg fun hstarts => hne ?_
    exact (List.cons_prefix_cons.mp hstarts).1
  have hne : ∀ d : UInt16, isDigit d = false → d ≠ 45 → d ≠ c := by
    rintro d hdigit hminus rfl
    rcases hc with h | h
    · rw [hdigit] at h
      cases h
    · exact hminus h
  rw [readScalar, show ascii "null" = 110 :: ascii "ull" by rfl,
    show ascii "true" = 116 :: ascii "rue" by rfl, show ascii "false" = 102 :: ascii "alse" by rfl,
    hliteral _ _ _ (hne _ rfl (by decide)), hliteral _ _ _ (hne _ rfl (by decide)),
    hliteral _ _ _ (hne _ rfl (by decide)), readNumeral_append hrest hs]
  rfl

/-! The readers have fuel for the whole text that is left. -/

/-- The value's text is read back, whatever comes after it. -/
def ReadsBack (gap indent : JsString) (v : Value ν) : Prop :=
  ∀ rest fuel, Stops rest → 2 * (printAt N gap indent v ++ rest).length + 1 ≤ fuel →
    readValue N fuel (printAt N gap indent v ++ rest) = some (canon N v, rest)

variable {N}

theorem readItems_print {items : List (Value ν)} (hne : items ≠ [])
    (hlead : ∀ c ∈ lead, isSpace c = true) (htrail : ∀ c ∈ trail, isSpace c = true)
    (ih : ∀ v ∈ items, ReadsBack N gap indent v)
    {fuel : Nat} (hfuel : 2 * (lead ++ (List.intercalate (comma :: lead)
      (printItems N gap indent items) ++ (trail ++ closeBracket :: rest))).length + 2 ≤ fuel) :
    readItems N fuel (lead ++ (List.intercalate (comma :: lead) (printItems N gap indent items) ++
      (trail ++ closeBracket :: rest))) = some (canonItems N items, rest) := by
  induction items generalizing fuel with
  | nil => exact absurd rfl hne
  | cons v items ihitems =>
      obtain ⟨fuel, rfl⟩ := Nat.exists_eq_add_of_le' (show 1 ≤ fuel by omega)
      rw [readItems, readValue_space N hlead]
      cases items with
      | nil =>
          rw [printItems, printItems, List.intercalate_singleton] at hfuel ⊢
          rw [ih v List.mem_cons_self _ _ (stops_append_cons htrail rfl rest)
            (by simp only [List.length_append, List.length_cons] at hfuel ⊢; omega)]
          simp only [Option.bind_eq_bind, Option.bind_some, skipSpace_append htrail]
          rw [skipSpace_cons rfl]
          rfl
      | cons w items =>
          rw [printItems, printItems, List.intercalate_cons_cons, ← printItems] at hfuel ⊢
          simp only [List.append_assoc, List.cons_append] at hfuel ⊢
          rw [ih v List.mem_cons_self _ _ (stops_cons rfl)
            (by simp only [List.length_append, List.length_cons] at hfuel ⊢; omega)]
          simp only [Option.bind_eq_bind, Option.bind_some]
          rw [skipSpace_cons rfl]
          simp only [if_true]
          rw [ihitems (List.cons_ne_nil w items) (fun v hv => ih v (List.mem_cons_of_mem _ hv))
            (by simp only [List.length_append, List.length_cons] at hfuel ⊢; omega)]
          rfl

theorem keys_canonEntries (entries : List (JsString × Value ν)) :
    Assoc.keys (canonEntries N entries) = Assoc.keys entries := by
  induction entries with
  | nil => rfl
  | cons e entries ih => rw [canonEntries, Assoc.keys_cons, Assoc.keys_cons, ih]

/-- One member, whatever comes after it. -/
theorem readMembers_printEntry {v : Value ν} (hlead : ∀ c ∈ lead, isSpace c = true)
    (hread : ReadsBack N gap indent v) (hrest : Stops rest) (acc : List (JsString × Value ν))
    (key : JsString) {fuel : Nat}
    (hfuel : 2 * (printAt N gap indent v ++ rest).length + 1 ≤ fuel) :
    readMembers N (fuel + 1) acc (lead ++ (printEntry gap key (printAt N gap indent v) ++ rest)) =
      match skipSpace rest with
      | [] => none
      | c :: rest =>
          if c = comma then readMembers N fuel (Assoc.set key (canon N v) acc) rest
          else if c = closeBrace then some (Assoc.set key (canon N v) acc, rest)
          else none := by
  have hspace : ∀ c ∈ (if gap = [] then [] else [32] : JsString), isSpace c = true := by
    split
    · nofun
    · intro c hc
      obtain rfl := List.mem_singleton.mp hc
      rfl
  have hkey : ∀ t, skipSpace (quote key ++ t) = quote key ++ t := fun t => skipSpace_cons rfl _
  rw [readMembers, skipSpace_append hlead, printEntry, List.append_assoc, List.cons_append,
    List.append_assoc, hkey, readKey_quote]
  simp only [Option.bind_eq_bind, Option.bind_some]
  rw [readValue_space N hspace, hread _ _ hrest hfuel]
  rfl

theorem readMembers_print {entries : List (JsString × Value ν)} (hne : entries ≠ [])
    (hlead : ∀ c ∈ lead, isSpace c = true) (htrail : ∀ c ∈ trail, isSpace c = true)
    (ih : ∀ e ∈ entries, ReadsBack N gap indent e.2)
    (acc : List (JsString × Value ν)) (hkeys : (Assoc.keys acc ++ Assoc.keys entries).Nodup)
    {fuel : Nat} (hfuel : 2 * (lead ++ (List.intercalate (comma :: lead)
      (printEntries N gap indent entries) ++ (trail ++ closeBrace :: rest))).length + 2 ≤ fuel) :
    readMembers N fuel acc (lead ++ (List.intercalate (comma :: lead)
      (printEntries N gap indent entries) ++ (trail ++ closeBrace :: rest))) =
        some (acc ++ canonEntries N entries, rest) := by
  induction entries generalizing fuel acc with
  | nil => exact absurd rfl hne
  | cons e entries ihentries =>
      obtain ⟨key, v⟩ := e
      have hfresh : key ∉ Assoc.keys acc := fun hmem =>
        List.disjoint_of_nodup_append hkeys hmem List.mem_cons_self
      obtain ⟨fuel, rfl⟩ := Nat.exists_eq_add_of_le' (show 1 ≤ fuel by omega)
      cases entries with
      | nil =>
          rw [printEntries, printEntries, List.intercalate_singleton] at hfuel ⊢
          rw [readMembers_printEntry hlead (ih _ List.mem_cons_self)
            (stops_append_cons htrail rfl rest) acc key (by
              simp only [printEntry, List.length_append, List.length_cons] at hfuel ⊢; omega),
            skipSpace_append htrail, skipSpace_cons rfl, Assoc.set_of_not_mem _ hfresh]
          rfl
      | cons f entries =>
          obtain ⟨key', w⟩ := f
          rw [printEntries, printEntries, List.intercalate_cons_cons, ← printEntries] at hfuel ⊢
          simp only [List.append_assoc, List.cons_append] at hfuel ⊢
          rw [readMembers_printEntry hlead (ih _ List.mem_cons_self) (stops_cons rfl) acc key (by
              simp only [printEntry, List.length_append, List.length_cons] at hfuel ⊢; omega),
            skipSpace_cons rfl, Assoc.set_of_not_mem _ hfresh]
          simp only [if_true]
          have hkeys' : (Assoc.keys (acc ++ [(key, canon N v)]) ++
              Assoc.keys ((key', w) :: entries)).Nodup := by
            rw [Assoc.keys_append, List.append_assoc]
            exact hkeys
          rw [ihentries (List.cons_ne_nil _ entries)
            (fun e he => ih e (List.mem_cons_of_mem _ he)) _ hkeys' (by
              simp only [List.length_append, List.length_cons] at hfuel ⊢; omega),
            List.append_assoc]
          rfl

variable (hgap : ∀ c ∈ gap, isSpace c = true)

include hgap

theorem readsBack_arr {items : List (Value ν)} (hindent : ∀ c ∈ indent, isSpace c = true)
    (ih : ∀ v ∈ items, ReadsBack N gap (indent ++ gap) v) :
    ReadsBack N gap indent (.arr items) := by
  intro rest fuel _ hfuel
  obtain ⟨fuel, rfl⟩ := Nat.exists_eq_add_of_le' (show 1 ≤ fuel by omega)
  rw [printAt] at hfuel ⊢
  cases items with
  | nil =>
      rw [printItems, enclose, if_pos rfl, List.cons_append, readValue, skipSpace_cons rfl]
      rfl
  | cons v items =>
      obtain ⟨lead, trail, hlead, htrail, henclose⟩ := enclose_cons hgap hindent openBracket
        closeBracket (printAt N gap (indent ++ gap) v) (printItems N gap (indent ++ gap) items)
      obtain ⟨c, t, hhead, hspace, hclose⟩ := printAt_head N gap (indent ++ gap) v
      rw [← printItems] at henclose
      rw [henclose] at hfuel ⊢
      simp only [List.cons_append, List.append_assoc, List.nil_append] at hfuel ⊢
      -- the first item tells the array from an empty one
      have hfirst : (skipSpace (lead ++ (List.intercalate (comma :: lead)
          (printItems N gap (indent ++ gap) (v :: items)) ++
            (trail ++ closeBracket :: rest)))).head? = some c := by
        rw [skipSpace_append hlead, printItems, hhead]
        cases printItems N gap (indent ++ gap) items with
        | nil =>
            rw [List.intercalate_singleton, List.cons_append, skipSpace_cons hspace]
            rfl
        | cons p parts =>
            rw [List.intercalate_cons_cons, List.cons_append, List.cons_append, List.cons_append,
              skipSpace_cons hspace]
            rfl
      rw [readValue, skipSpace_cons rfl]
      simp only [show ¬ openBracket = quoteMark by decide, if_false, if_true, hfirst,
        Option.some_inj, hclose]
      rw [readItems_print (List.cons_ne_nil v items) hlead htrail ih (by
        simp only [List.length_append, List.length_cons] at hfuel ⊢; omega)]
      rfl

theorem readsBack_obj {entries : List (JsString × Value ν)}
    (hindent : ∀ c ∈ indent, isSpace c = true) (hwf : Assoc.Wf entries)
    (ih : ∀ e ∈ entries, ReadsBack N gap (indent ++ gap) e.2) :
    ReadsBack N gap indent (.obj entries) := by
  intro rest fuel _ hfuel
  obtain ⟨fuel, rfl⟩ := Nat.exists_eq_add_of_le' (show 1 ≤ fuel by omega)
  rw [printAt] at hfuel ⊢
  cases entries with
  | nil =>
      rw [printEntries, enclose, if_pos rfl, List.cons_append, readValue, skipSpace_cons rfl]
      rfl
  | cons e entries =>
      obtain ⟨key, v⟩ := e
      obtain ⟨lead, trail, hlead, htrail, henclose⟩ := enclose_cons hgap hindent openBrace
        closeBrace (printEntry gap key (printAt N gap (indent ++ gap) v))
        (printEntries N gap (indent ++ gap) entries)
      rw [← printEntries] at henclose
      rw [henclose] at hfuel ⊢
      simp only [List.cons_append, List.append_assoc, List.nil_append] at hfuel ⊢
      have hfirst : (skipSpace (lead ++ (List.intercalate (comma :: lead)
          (printEntries N gap (indent ++ gap) ((key, v) :: entries)) ++
            (trail ++ closeBrace :: rest)))).head? = some quoteMark := by
        rw [skipSpace_append hlead, printEntries, printEntry, quote]
        cases printEntries N gap (indent ++ gap) entries with
        | nil =>
            rw [List.intercalate_singleton]
            simp only [List.cons_append]
            rw [skipSpace_cons rfl]
            rfl
        | cons p parts =>
            rw [List.intercalate_cons_cons]
            simp only [List.cons_append]
            rw [skipSpace_cons rfl]
            rfl
      rw [readValue, skipSpace_cons rfl]
      simp only [show ¬ openBrace = quoteMark by decide, show ¬ openBrace = openBracket by decide,
        if_false, if_true, hfirst, Option.some_inj, show ¬ quoteMark = closeBrace by decide]
      rw [readMembers_print (List.cons_ne_nil _ entries) hlead htrail ih [] hwf (by
        simp only [List.length_append, List.length_cons] at hfuel ⊢; omega)]
      rfl

/-- What is printed with space for a gap is read back. -/
theorem readsBack {v : Value ν} (hwf : Wf v) (hindent : ∀ c ∈ indent, isSpace c = true) :
    ReadsBack N gap indent v := by
  induction hwf generalizing indent with
  | null =>
      intro rest fuel _ hfuel
      obtain ⟨fuel, rfl⟩ := Nat.exists_eq_add_of_le' (show 1 ≤ fuel by omega)
      rfl
  | bool b =>
      intro rest fuel _ hfuel
      obtain ⟨fuel, rfl⟩ := Nat.exists_eq_add_of_le' (show 1 ≤ fuel by omega)
      cases b <;> rfl
  | num n =>
      intro rest fuel hrest hfuel
      obtain ⟨fuel, rfl⟩ := Nat.exists_eq_add_of_le' (show 1 ≤ fuel by omega)
      rw [printAt, canon]
      cases hn : N.print n with
      | none => rfl
      | some s =>
          have hs := N.readNumeral_print n s hn
          obtain ⟨c, s', rfl, hc⟩ := readNumeral_head hs
          have hne : ∀ d : UInt16, isDigit d = false → d ≠ 45 → c ≠ d := by
            rintro d hdigit hminus rfl
            rcases hc with h | h
            · rw [hdigit] at h
              cases h
            · exact hminus h
          have hspace : isSpace c = false := by
            simp only [isSpace, Bool.or_eq_false_iff, decide_eq_false_iff_not]
            exact ⟨⟨⟨hne _ rfl (by decide), hne _ rfl (by decide)⟩, hne _ rfl (by decide)⟩,
              hne _ rfl (by decide)⟩
          show readValue N (fuel + 1) (c :: (s' ++ rest)) = some (.num (N.read (c :: s')), rest)
          rw [readValue, skipSpace_cons hspace]
          simp only [if_neg (hne quoteMark rfl (by decide)),
            if_neg (hne openBracket rfl (by decide)), if_neg (hne openBrace rfl (by decide))]
          exact readScalar_numeral N hs hrest
  | str s =>
      intro rest fuel _ hfuel
      obtain ⟨fuel, rfl⟩ := Nat.exists_eq_add_of_le' (show 1 ≤ fuel by omega)
      show readValue N (fuel + 1) (quoteMark :: (quoteUnits s ++ [quoteMark] ++ rest)) = _
      rw [readValue, skipSpace_cons rfl]
      simp only [if_true, readString_quote]
      rfl
  | arr _ ih =>
      refine readsBack_arr hgap hindent fun v hv => ih v hv fun c hc => ?_
      exact (List.mem_append.mp hc).elim (hindent c) (hgap c)
  | obj hentries _ ih =>
      refine readsBack_obj hgap hindent hentries fun e he => ih e he fun c hc => ?_
      exact (List.mem_append.mp hc).elim (hindent c) (hgap c)

end

/-! ## The round trip -/

variable {N} {gap : JsString}

/-- A printed value is read back, whatever space follows it. -/
theorem parse_print (hgap : ∀ c ∈ gap, isSpace c = true) {v : Value ν} (hwf : Wf v)
    {trail : JsString} (htrail : ∀ c ∈ trail, isSpace c = true) :
    parse N (print N gap v ++ trail) = some (canon N v) := by
  have hstops : Stops trail := by
    cases trail with
    | nil => exact stops_nil
    | cons c trail =>
        exact stops_cons (isNumeralUnit_of_isSpace (htrail c List.mem_cons_self))
  have hnil : ∀ c ∈ ([] : JsString), isSpace c = true := nofun
  rw [parse, print, readsBack hgap hwf hnil trail _ hstops le_rfl]
  have hspace : skipSpace trail = [] := List.dropWhile_eq_nil_iff.mpr htrail
  simp only [hspace, if_true]

theorem parse_print_eq (hgap : ∀ c ∈ gap, isSpace c = true) {v : Value ν} (hwf : Wf v) :
    parse N (print N gap v) = some (canon N v) := by
  have hnil : ∀ c ∈ ([] : JsString), isSpace c = true := nofun
  have hread := parse_print (N := N) hgap hwf hnil
  rwa [List.append_nil] at hread

mutual

theorem printAt_canon (gap indent : JsString) :
    ∀ v : Value ν, printAt N gap indent (canon N v) = printAt N gap indent v
  | .null => rfl
  | .bool true => rfl
  | .bool false => rfl
  | .num n => by
      rw [canon]
      cases hn : N.print n with
      | none => rw [printAt, printAt, hn, Option.getD_none]
      | some s => rw [printAt, printAt, N.print_read n s hn, hn]
  | .str s => rfl
  | .arr items => by rw [canon, printAt, printAt, printItems_canon]
  | .obj entries => by rw [canon, printAt, printAt, printEntries_canon]

theorem printItems_canon (gap indent : JsString) :
    ∀ items : List (Value ν), printItems N gap indent (canonItems N items) =
      printItems N gap indent items
  | [] => rfl
  | v :: items => by
      rw [canonItems, printItems, printItems, printAt_canon, printItems_canon]

theorem printEntries_canon (gap indent : JsString) :
    ∀ entries : List (JsString × Value ν), printEntries N gap indent (canonEntries N entries) =
      printEntries N gap indent entries
  | [] => rfl
  | (key, v) :: entries => by
      rw [canonEntries, printEntries, printEntries, printAt_canon, printEntries_canon]

end

theorem print_canon (gap : JsString) (v : Value ν) : print N gap (canon N v) = print N gap v :=
  printAt_canon gap [] v

theorem canonItems_eq_map (items : List (Value ν)) : canonItems N items = items.map (canon N) := by
  induction items with
  | nil => rfl
  | cons v items ih => rw [canonItems, ih, List.map_cons]

theorem canonEntries_eq_map (entries : List (JsString × Value ν)) :
    canonEntries N entries = entries.map fun e => (e.1, canon N e.2) := by
  induction entries with
  | nil => rfl
  | cons e entries ih => rw [canonEntries, ih, List.map_cons]

theorem Wf.canon {v : Value ν} (h : Wf v) : Wf (canon N v) := by
  induction h with
  | null => exact .null
  | bool b => exact .bool b
  | num n =>
      rw [Json.canon]
      cases N.print n with
      | none => exact .null
      | some s => exact .num _
  | str s => exact .str s
  | arr _ ih =>
      rw [Json.canon, canonItems_eq_map]
      refine .arr fun w hw => ?_
      obtain ⟨v, hv, rfl⟩ := List.mem_map.mp hw
      exact ih v hv
  | obj hkeys _ ih =>
      rw [Json.canon]
      refine .obj ?_ fun e he => ?_
      · rw [Assoc.Wf, keys_canonEntries]
        exact hkeys
      · rw [canonEntries_eq_map] at he
        obtain ⟨e', he', rfl⟩ := List.mem_map.mp he
        exact ih e' he'

/-- What was printed once is read back as it is. -/
theorem canon_canon {v : Value ν} (h : Wf v) : canon N (canon N v) = canon N v := by
  have hgap : ∀ c ∈ ([] : JsString), isSpace c = true := nofun
  have hcanon : Wf (canon N v) := h.canon
  have hread := parse_print_eq (N := N) hgap hcanon
  rw [print_canon, parse_print_eq hgap h] at hread
  exact (Option.some.inj hread).symm

/-- Every number in the value is what its numeral is read as. -/
inductive Exact (N : Numbers ν) : Value ν → Prop
  | null : Exact N .null
  | bool (b : Bool) : Exact N (.bool b)
  | num {n : ν} {s : JsString} : N.print n = some s → N.read s = n → Exact N (.num n)
  | str (s : JsString) : Exact N (.str s)
  | arr {items : List (Value ν)} : (∀ v ∈ items, Exact N v) → Exact N (.arr items)
  | obj {entries : List (JsString × Value ν)} : (∀ e ∈ entries, Exact N e.2) →
      Exact N (.obj entries)

theorem Exact.canon {v : Value ν} (h : Exact N v) : canon N v = v := by
  induction h with
  | null => rfl
  | bool b => rfl
  | num hprint hread =>
      rw [Json.canon, hprint]
      exact congrArg Value.num hread
  | str s => rfl
  | arr _ ih => rw [Json.canon, canonItems_eq_map, List.map_congr_left ih, List.map_id']
  | obj _ ih =>
      rw [Json.canon, canonEntries_eq_map,
        List.map_congr_left fun e he => congrArg (e.1, ·) (ih e he), List.map_id']

theorem exact_of_canon {v : Value ν} (h : canon N v = v) : Exact N v := by
  induction v using Value.ind with
  | null => exact .null
  | bool b => exact .bool b
  | num n =>
      rw [canon] at h
      cases hprint : N.print n with
      | none => rw [hprint] at h; cases h
      | some s =>
          rw [hprint] at h
          exact .num hprint (Value.num.inj h)
  | str s => exact .str s
  | arr items ih =>
      rw [canon, canonItems_eq_map] at h
      refine .arr fun v hv => ih v hv ?_
      exact List.map_inj_left.mp ((Value.arr.inj h).trans (List.map_id' items).symm) v hv
  | obj entries ih =>
      rw [canon, canonEntries_eq_map] at h
      refine .obj fun e he => ih e he ?_
      exact congrArg Prod.snd
        (List.map_inj_left.mp ((Value.obj.inj h).trans (List.map_id' entries).symm) e he)

theorem canon_eq_self_iff {v : Value ν} : canon N v = v ↔ Exact N v :=
  ⟨exact_of_canon, Exact.canon⟩

/-- Only values that are read back alike are printed alike. -/
theorem canon_eq_of_print_eq (hgap : ∀ c ∈ gap, isSpace c = true) {v w : Value ν} (hv : Wf v)
    (hw : Wf w) (h : print N gap v = print N gap w) : canon N v = canon N w := by
  have hread := parse_print_eq (N := N) hgap hv
  rw [h, parse_print_eq hgap hw] at hread
  exact (Option.some.inj hread).symm

/-! ## What a text can hold -/

section

variable {fuel : Nat} {s rest : JsString}

theorem readScalar_wf {v : Value ν} (h : readScalar N s = some (v, rest)) : Wf v := by
  have hliteral : ∀ {word : JsString} {w : Value ν}, Wf w →
      ∀ {p : Value ν × JsString}, readLiteral word w s = some p → Wf p.1 := by
    intro word w hw p hp
    unfold readLiteral at hp
    split at hp
    · cases hp
      exact hw
    · cases hp
  rcases Option.or_eq_some_iff.mp h with h | ⟨-, h⟩
  · exact hliteral .null h
  · rcases Option.or_eq_some_iff.mp h with h | ⟨-, h⟩
    · exact hliteral (.bool true) h
    · rcases Option.or_eq_some_iff.mp h with h | ⟨-, h⟩
      · exact hliteral (.bool false) h
      · obtain ⟨p, -, hp⟩ := Option.map_eq_some_iff.mp h
        cases hp
        exact .num _

/-- One step of the three readers keeps well-formedness; the induction is on the fuel. -/
theorem read_wf (fuel : Nat) :
    (∀ s (v : Value ν) rest, readValue N fuel s = some (v, rest) → Wf v) ∧
    (∀ s items rest, readItems N fuel s = some (items, rest) → ∀ v ∈ items, Wf v) ∧
    ∀ acc s entries rest, Assoc.Wf acc → (∀ e ∈ acc, Wf e.2) →
      readMembers N fuel acc s = some (entries, rest) →
        Assoc.Wf entries ∧ ∀ e ∈ entries, Wf e.2 := by
  induction fuel with
  | zero =>
      refine ⟨fun s v rest h => ?_, fun s items rest h => ?_, fun acc s entries rest _ _ h => ?_⟩
      · rw [readValue] at h
        cases h
      · rw [readItems] at h
        cases h
      · rw [readMembers] at h
        cases h
  | succ fuel ih =>
      obtain ⟨ihvalue, ihitems, ihmembers⟩ := ih
      refine ⟨fun s v rest h => ?_, fun s items rest h => ?_,
        fun acc s entries rest hacc hvalues h => ?_⟩
      · rw [readValue] at h
        split at h
        · cases h
        · split at h
          · obtain ⟨p, -, hp⟩ := Option.map_eq_some_iff.mp h
            cases hp
            exact .str _
          · split at h
            · split at h
              · cases h
                exact .arr nofun
              · obtain ⟨p, hitems, hp⟩ := Option.map_eq_some_iff.mp h
                cases hp
                exact .arr (ihitems _ _ _ hitems)
            · split at h
              · split at h
                · cases h
                  exact .obj Assoc.wf_nil nofun
                · obtain ⟨p, hmembers, hp⟩ := Option.map_eq_some_iff.mp h
                  cases hp
                  obtain ⟨hkeys, hentries⟩ := ihmembers _ _ _ _ Assoc.wf_nil nofun hmembers
                  exact .obj hkeys hentries
              · exact readScalar_wf h
      · rw [readItems] at h
        obtain ⟨⟨v, rest'⟩, hv, h⟩ := Option.bind_eq_some_iff.mp h
        have hhead := ihvalue _ _ _ hv
        simp only at h
        split at h
        · cases h
        · split at h
          · obtain ⟨⟨tail, rest''⟩, htail, h⟩ := Option.bind_eq_some_iff.mp h
            cases h
            intro w hw
            rcases List.mem_cons.mp hw with rfl | hw
            · exact hhead
            · exact ihitems _ _ _ htail w hw
          · split at h
            · cases h
              intro w hw
              exact List.mem_singleton.mp hw ▸ hhead
            · cases h
      · rw [readMembers] at h
        obtain ⟨⟨key, rest1⟩, -, h⟩ := Option.bind_eq_some_iff.mp h
        obtain ⟨⟨v, rest2⟩, hv, h⟩ := Option.bind_eq_some_iff.mp h
        have hset : ∀ e ∈ Assoc.set key v acc, Wf e.2 := by
          intro e he
          rcases Assoc.mem_set he with rfl | he
          · exact ihvalue _ _ _ hv
          · exact hvalues e he
        simp only at h
        split at h
        · cases h
        · split at h
          · exact ihmembers _ _ _ _ (Assoc.wf_set hacc) hset h
          · split at h
            · cases h
              exact ⟨Assoc.wf_set hacc, hset⟩
            · cases h

theorem parse_wf {text : JsString} {v : Value ν} (h : parse N text = some v) : Wf v := by
  unfold parse at h
  split at h
  · next w rest hread =>
      split at h
      · cases h
        exact (read_wf _).1 _ _ _ hread
      · cases h
  · cases h

end

/-! ## What is printed has no lone surrogates -/

theorem isNumeralUnit_lt {c : UInt16} (h : isNumeralUnit c = true) : c < 0xd800 := by
  simp only [isNumeralUnit, isDigit, Bool.or_eq_true, Bool.and_eq_true, decide_eq_true_eq,
    UInt16.le_iff_toNat_le, ← UInt16.toNat_inj, UInt16.reduceToNat] at h
  rw [UInt16.lt_iff_toNat_lt]
  show c.toNat < 55296
  omega

theorem hexDigit_lt {n : Nat} (h : n < 16) : hexDigit n < 0xd800 := by
  rw [hexDigit, UInt16.lt_iff_toNat_lt]
  split
  · rw [UInt16.toNat_ofNat_of_lt' (show 48 + n < 65536 by omega)]
    show 48 + n < 55296
    omega
  · rw [UInt16.toNat_ofNat_of_lt' (show 87 + n < 65536 by omega)]
    show 87 + n < 55296
    omega

theorem paired_unicodeEscape (c : UInt16) : Paired (unicodeEscape c) := by
  have hc := c.toNat_lt
  apply paired_of_lt
  simp only [unicodeEscape, List.forall_mem_cons]
  refine ⟨by decide, by decide, hexDigit_lt ?_, hexDigit_lt ?_, hexDigit_lt ?_, hexDigit_lt ?_,
    nofun⟩
  all_goals omega

theorem paired_quoteUnit (c : UInt16) : Paired (quoteUnit c) := by
  rw [quoteUnit]
  repeat' split
  all_goals first | exact paired_of_all (by decide) | skip
  · next h =>
      apply paired_of_all
      rcases h with rfl | rfl <;> decide
  · exact paired_unicodeEscape c
  · next h =>
      simp only [not_or, Bool.not_eq_true] at h
      exact .unit h.2.1 h.2.2 .nil

theorem paired_quoteUnits (s : JsString) : Paired (quoteUnits s) := by
  induction s using quoteUnits.induct with
  | case1 => exact .nil
  | case2 c => exact paired_quoteUnit c
  | case3 c d rest hpair ih =>
      rw [quoteUnits, if_pos hpair]
      exact .pair hpair.1 hpair.2 ih
  | case4 c d rest hpair ih =>
      rw [quoteUnits, if_neg hpair]
      exact (paired_quoteUnit c).append ih

theorem paired_quote (s : JsString) : Paired (quote s) := by
  have hmark : Paired [quoteMark] := paired_of_all (by decide)
  exact (hmark.append (paired_quoteUnits s)).append hmark

theorem paired_intercalate {sep : JsString} (hsep : Paired sep) {parts : List JsString}
    (h : ∀ part ∈ parts, Paired part) : Paired (List.intercalate sep parts) := by
  induction parts with
  | nil => exact .nil
  | cons part parts ih =>
      obtain ⟨hpart, hparts⟩ := List.forall_mem_cons.mp h
      cases parts with
      | nil => simpa using hpart
      | cons next parts =>
          rw [List.intercalate_cons_cons]
          exact (hpart.append hsep).append (ih hparts)

theorem paired_enclose {l r : UInt16} (hl : l < 0xd800) (hr : r < 0xd800) {gap indent : JsString}
    (hgap : Paired gap) (hindent : Paired indent) {parts : List JsString}
    (h : ∀ part ∈ parts, Paired part) : Paired (enclose l r gap indent parts) := by
  have hone {c : UInt16} (hc : c < 0xd800) : Paired [c] :=
    paired_of_lt (List.forall_mem_singleton.mpr hc)
  have hcomma : Paired [comma] := hone (by decide)
  rw [enclose]
  split
  · exact (hone hl).append (hone hr)
  · split
    · exact ((hone hl).append (paired_intercalate hcomma h)).append (hone hr)
    · have hsep : Paired (newline :: (indent ++ gap)) :=
        (hone (by decide : newline < 0xd800)).append (hindent.append hgap)
      have hend : Paired (newline :: indent) := (hone (by decide : newline < 0xd800)).append hindent
      exact (((((hone hl).append hsep).append (paired_intercalate (hcomma.append hsep) h)).append
        hend).append (hone hr))

theorem paired_printItems {gap indent : JsString} {items : List (Value ν)}
    (h : ∀ v ∈ items, Paired (printAt N gap indent v)) :
    ∀ part ∈ printItems N gap indent items, Paired part := by
  induction items with
  | nil => exact nofun
  | cons v items ih =>
      obtain ⟨hv, hitems⟩ := List.forall_mem_cons.mp h
      rw [printItems]
      exact List.forall_mem_cons.mpr ⟨hv, ih hitems⟩

theorem paired_printEntries {gap indent : JsString} {entries : List (JsString × Value ν)}
    (h : ∀ e ∈ entries, Paired (printAt N gap indent e.2)) :
    ∀ part ∈ printEntries N gap indent entries, Paired part := by
  induction entries with
  | nil => exact nofun
  | cons e entries ih =>
      obtain ⟨he, hentries⟩ := List.forall_mem_cons.mp h
      rw [printEntries]
      refine List.forall_mem_cons.mpr ⟨?_, ih hentries⟩
      have hcolon : Paired [colon] := paired_of_all (by decide)
      have hspace : Paired (if gap = [] then [] else [32]) := by
        split
        · exact .nil
        · exact paired_of_all (by decide)
      exact (paired_quote e.1).append (hcolon.append (hspace.append he))

theorem paired_printAt {gap : JsString} (hgap : Paired gap) (v : Value ν) {indent : JsString}
    (hindent : Paired indent) : Paired (printAt N gap indent v) := by
  have hnull : Paired (ascii "null") := paired_of_all (by decide +kernel)
  induction v using Value.ind generalizing indent with
  | null => exact hnull
  | bool b =>
      cases b with
      | true => exact paired_of_all (show (ascii "true").all _ = true by decide +kernel)
      | false => exact paired_of_all (show (ascii "false").all _ = true by decide +kernel)
  | num n =>
      rw [printAt]
      cases hn : N.print n with
      | none => exact hnull
      | some s =>
          have hunits := readNumeral_units (N.readNumeral_print n s hn)
          exact paired_of_lt fun c hc => isNumeralUnit_lt (hunits c hc)
  | str s => exact paired_quote s
  | arr items ih =>
      rw [printAt]
      exact paired_enclose (by decide) (by decide) hgap hindent
        (paired_printItems fun v hv => ih v hv (hindent.append hgap))
  | obj entries ih =>
      rw [printAt]
      exact paired_enclose (by decide) (by decide) hgap hindent
        (paired_printEntries fun e he => ih e he (hindent.append hgap))

theorem paired_print {gap : JsString} (hgap : Paired gap) (v : Value ν) :
    Paired (print N gap v) := paired_printAt hgap v .nil

end Lib.Json
