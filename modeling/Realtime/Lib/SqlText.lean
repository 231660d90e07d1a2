import Mathlib.Tactic
import Realtime.Lib.Encoding

/-!
# The text of SQL

How comments and quotes are read, over any kind of characters, and the tokens that SQLite
takes from a text. A token is of a kind, legal or not (SQLite refuses a text at its first
illegal token), and has the content of its quotes, or its own text.
-/

namespace Lib.Sql

/-! ## Comments and quotes -/

section Readers

variable {α : Type} [DecidableEq α]

/-- What is behind a block comment; `s` starts behind the opening mark. -/
def afterComment (star slash : α) : List α → List α
  | [] => []
  | [_] => []
  | c :: d :: rest => if c = star ∧ d = slash then rest else afterComment star slash (d :: rest)

/-- The content of a quote up to its closing mark or the end, and what is behind it; `s`
starts behind the opening mark. A doubled mark may stand for itself. -/
def quoted (close : α) (doubled : Bool) : List α → List α × List α
  | [] => ([], [])
  | c :: rest =>
      if c = close then
        match rest with
        | [] => ([], [])
        | d :: rest =>
            if doubled ∧ d = close then
              let r := quoted close doubled rest
              (close :: r.1, r.2)
            else ([], d :: rest)
      else
        let r := quoted close doubled rest
        (c :: r.1, r.2)

/-- The quote has a closing mark. -/
def isClosed (close : α) (doubled : Bool) : List α → Bool
  | [] => false
  | c :: rest =>
      if c = close then
        match rest with
        | [] => true
        | d :: rest => if doubled ∧ d = close then isClosed close doubled rest else true
      else isClosed close doubled rest

theorem afterComment_suffix (star slash : α) (s : List α) : afterComment star slash s <:+ s := by
  induction s using afterComment.induct star slash with
  | case1 => exact List.suffix_rfl
  | case2 => exact List.nil_suffix
  | case3 c d rest h =>
      rw [afterComment, if_pos h]
      exact List.suffix_append [c, d] rest
  | case4 c d rest h ih =>
      rw [afterComment, if_neg h]
      exact ih.trans (List.suffix_cons c _)

theorem length_afterComment (star slash : α) (s : List α) :
    (afterComment star slash s).length ≤ s.length :=
  (afterComment_suffix star slash s).length_le

variable {close c d : α} {doubled : Bool}

theorem quoted_other (h : c ≠ close) (rest : List α) :
    quoted close doubled (c :: rest) =
      (c :: (quoted close doubled rest).1, (quoted close doubled rest).2) := by
  cases rest <;> simp [quoted, h]

theorem quoted_last : quoted close doubled [close] = ([], []) := by simp [quoted]

theorem quoted_doubled (h : doubled ∧ d = close) (rest : List α) :
    quoted close doubled (close :: d :: rest) =
      (close :: (quoted close doubled rest).1, (quoted close doubled rest).2) := by
  simp [quoted, h]

theorem quoted_end (h : ¬(doubled ∧ d = close)) (rest : List α) :
    quoted close doubled (close :: d :: rest) = ([], d :: rest) := by
  simp only [quoted, if_true, if_neg h]

theorem isClosed_other (h : c ≠ close) (rest : List α) :
    isClosed close doubled (c :: rest) = isClosed close doubled rest := by
  cases rest <;> simp [isClosed, h]

theorem isClosed_doubled (h : doubled ∧ d = close) (rest : List α) :
    isClosed close doubled (close :: d :: rest) = isClosed close doubled rest := by
  simp [isClosed, h]

/-- Induction over the characters of a quote: none is left, one that is no mark, the last
mark, a doubled mark, a closing mark. -/
theorem quoted_induction {motive : List α → Prop} (nil : motive [])
    (other : ∀ c rest, c ≠ close → motive rest → motive (c :: rest)) (last : motive [close])
    (twice : ∀ d rest, doubled ∧ d = close → motive rest → motive (close :: d :: rest))
    (behind : ∀ d rest, ¬(doubled ∧ d = close) → motive (close :: d :: rest)) :
    ∀ s, motive s := by
  intro s
  induction s using quoted.induct close doubled with
  | case1 => exact nil
  | case2 => exact last
  | case3 d rest h ih => exact twice d rest h ih
  | case4 d rest h => exact behind d rest h
  | case5 c rest h ih => exact other c rest h ih

theorem quoted_suffix (close : α) (doubled : Bool) (s : List α) :
    (quoted close doubled s).2 <:+ s := by
  induction s using @quoted_induction _ _ close doubled with
  | nil => exact List.suffix_rfl
  | other c rest h ih =>
      rw [quoted_other h]
      exact ih.trans (List.suffix_cons c _)
  | last =>
      rw [quoted_last]
      exact List.nil_suffix
  | twice d rest h ih =>
      rw [quoted_doubled h]
      exact ih.trans (List.suffix_append [close, d] rest)
  | behind d rest h =>
      rw [quoted_end h]
      exact List.suffix_cons close _

theorem length_quoted (close : α) (doubled : Bool) (s : List α) :
    (quoted close doubled s).2.length ≤ s.length :=
  (quoted_suffix close doubled s).length_le

end Readers

/-! ## Tokens -/

inductive Kind where
  /-- spaces and comments -/
  | space
  | string
  /-- an identifier in quotes or brackets -/
  | quotedName
  /-- an identifier or a keyword -/
  | bareName
  /-- of a blob literal the text is its letter -/
  | blob
  | number
  | parameter
  | symbol
  deriving DecidableEq

structure Token where
  kind : Kind
  legal : Bool
  text : Str
  deriving DecidableEq

def byteOrderMark : Char := Char.ofNat 0xFEFF

/-- The spaces that a token of spaces begins with. -/
def isSpaceStart (c : Char) : Bool :=
  c = ' ' || c = '\t' || c = '\n' || c = '\r' || c = Char.ofNat 12

def isSpace (c : Char) : Bool := isSpaceStart c || c = Char.ofNat 11

def isIdChar (c : Char) : Bool := c.isAlphanum || c = '_' || c = '$' || 128 ≤ c.toNat

def isIdStart (c : Char) : Bool :=
  c.isAlpha || c = '_' || (128 ≤ c.toNat && c != byteOrderMark)

def isXDigit (c : Char) : Bool :=
  c.isDigit || ('a' ≤ c && c ≤ 'f') || ('A' ≤ c && c ≤ 'F')

/-- The symbols that are a token, alone or with others. -/
def isSymbol (c : Char) (rest : Str) : Bool :=
  "-+*/%()=<>|&~,.;".toList.contains c || (c = '!' && rest.head? = some '=') ||
    c = byteOrderMark

/-- A quote as a token. -/
def quotedToken (kind : Kind) (close : Char) (doubled : Bool) (s : Str) : Token × Str :=
  let r := quoted close doubled s
  (⟨kind, isClosed close doubled s, r.1⟩, r.2)

/-- A blob literal; `s` starts behind its quote, and the next quote ends it, whatever stands
between. -/
def blobToken (letter : Char) (s : Str) : Token × Str :=
  let digits := s.takeWhile isXDigit
  let legal := (s.dropWhile isXDigit).head? = some '\'' ∧ digits.length % 2 = 0
  (⟨.blob, legal, [letter]⟩, (s.dropWhile (· != '\'')).tail)

/-- The end of a number: the fraction and the exponent. -/
def fraction : Str → Str × Str
  | '.' :: rest => ('.' :: rest.takeWhile Char.isDigit, rest.dropWhile Char.isDigit)
  | s => ([], s)

def exponent (s : Str) : Str × Str :=
  match s with
  | e :: rest =>
      if e = 'e' ∨ e = 'E' then
        match rest with
        | d :: rest' =>
            if d.isDigit then (e :: rest.takeWhile Char.isDigit, rest.dropWhile Char.isDigit)
            else if (d = '+' ∨ d = '-') ∧ rest'.head?.any Char.isDigit then
              (e :: d :: rest'.takeWhile Char.isDigit, rest'.dropWhile Char.isDigit)
            else ([], s)
        | [] => ([], s)
      else ([], s)
  | [] => ([], s)

/-- A number without its first character: after `0` it may be hexadecimal. Digits may be
separated by `_`. -/
def numberTail (c : Char) (s : Str) : Str × Str :=
  if c = '0' ∧ (s.head? = some 'x' ∨ s.head? = some 'X') ∧ s.tail.head?.any isXDigit then
    (s.take 1 ++ s.tail.takeWhile (fun d => isXDigit d || d = '_'),
      s.tail.dropWhile (fun d => isXDigit d || d = '_'))
  else
    let whole := fun d : Char => c != '.' && (d.isDigit || d = '_')
    let f := if c = '.' then (s.takeWhile Char.isDigit, s.dropWhile Char.isDigit)
      else fraction (s.dropWhile whole)
    let e := exponent f.2
    (s.takeWhile whole ++ f.1 ++ e.1, e.2)

/-- A number, with the letters that make it illegal. -/
def numberToken (c : Char) (s : Str) : Token × Str :=
  let r := numberTail c s
  let wrong := r.2.takeWhile isIdChar
  (⟨.number, wrong.isEmpty, c :: r.1 ++ wrong⟩, r.2.dropWhile isIdChar)

def inSuffix (c : Char) : Bool := !isSpace c && c != ')'

/-- The suffix of a parameter behind its parenthesis: any text without spaces. -/
def parameterSuffix (s : Str) : Bool × Str × Str :=
  match s.dropWhile inSuffix with
  | [] => (false, s.takeWhile inSuffix, [])
  | d :: behind =>
      if d = ')' then (true, s.takeWhile inSuffix ++ [d], behind)
      else (false, s.takeWhile inSuffix, d :: behind)

/-- A parameter behind its first character: the name, which may have `::` in it, and a suffix
in parentheses. `named` if there was a character of the name. -/
def parameterTail (named : Bool) : Str → Bool × Str × Str
  | [] => (named, [], [])
  | c :: rest =>
      if isIdChar c then
        let r := parameterTail true rest
        (r.1, c :: r.2.1, r.2.2)
      else if c = '(' ∧ named then
        let r := parameterSuffix rest
        (r.1, c :: r.2.1, r.2.2)
      else
        match rest with
        | [] => (named, [], [c])
        | d :: rest =>
            if c = ':' ∧ d = ':' then
              let r := parameterTail named rest
              (r.1, c :: d :: r.2.1, r.2.2)
            else (named, [], c :: d :: rest)

/-- What the first characters of a token say. -/
inductive Class where
  | space
  | lineComment
  | blockComment
  | quote (kind : Kind) (close : Char) (doubled : Bool)
  | blob
  | word
  | number
  | numbered
  | parameter
  | symbol

def classOf (c : Char) (rest : Str) : Class :=
  if isSpaceStart c then .space
  else if c = '-' then if rest.head? = some '-' then .lineComment else .symbol
  else if c = '/' then
    if rest.head? = some '*' ∧ rest.tail ≠ [] then .blockComment else .symbol
  else if c = '\'' then .quote .string '\'' true
  else if c = '"' ∨ c = '`' then .quote .quotedName c true
  else if c = '[' then .quote .quotedName ']' false
  else if isIdStart c then
    if (c = 'x' ∨ c = 'X') ∧ rest.head? = some '\'' then .blob else .word
  else if c.isDigit ∨ c = '.' ∧ rest.head?.any Char.isDigit then .number
  else if c = '?' then .numbered
  else if c = '$' ∨ c = '@' ∨ c = '#' ∨ c = ':' then .parameter
  else .symbol

/-- The token of a class and the rest of the text. -/
def tokenOf (c : Char) (rest : Str) : Class → Token × Str
  | .space => (⟨.space, true, []⟩, rest.dropWhile isSpace)
  | .lineComment => (⟨.space, true, []⟩, rest.dropWhile (· != '\n'))
  | .blockComment => (⟨.space, true, []⟩, afterComment '*' '/' rest.tail)
  | .quote kind close doubled => quotedToken kind close doubled rest
  | .blob => blobToken c rest.tail
  | .word => (⟨.bareName, true, c :: rest.takeWhile isIdChar⟩, rest.dropWhile isIdChar)
  | .number => numberToken c rest
  | .numbered =>
      (⟨.parameter, true, c :: rest.takeWhile Char.isDigit⟩, rest.dropWhile Char.isDigit)
  | .parameter =>
      let r := parameterTail false rest
      (⟨.parameter, r.1, c :: r.2.1⟩, r.2.2)
  | .symbol => (⟨.symbol, isSymbol c rest, [c]⟩, rest)

/-- The first token of a text and the rest of the text. -/
def nextToken (c : Char) (rest : Str) : Token × Str := tokenOf c rest (classOf c rest)

/-! ## Characters -/

theorem isDigit_iff (c : Char) : c.isDigit = true ↔ 48 ≤ c.toNat ∧ c.toNat ≤ 57 := by
  simp only [Char.isDigit, Bool.and_eq_true, decide_eq_true_eq, ge_iff_le, UInt32.le_iff_toNat_le]
  exact Iff.rfl

theorem isAlpha_iff (c : Char) :
    c.isAlpha = true ↔ 65 ≤ c.toNat ∧ c.toNat ≤ 90 ∨ 97 ≤ c.toNat ∧ c.toNat ≤ 122 := by
  simp only [Char.isAlpha, Char.isUpper, Char.isLower, Bool.or_eq_true, Bool.and_eq_true,
    decide_eq_true_eq, ge_iff_le, UInt32.le_iff_toNat_le]
  exact Iff.rfl

theorem eq_iff_code (c d : Char) : c = d ↔ c.toNat = d.toNat := Char.toNat_inj.symm

theorem isIdChar_code (c : Char) : isIdChar c = true ↔ 65 ≤ c.toNat ∧ c.toNat ≤ 90 ∨
    97 ≤ c.toNat ∧ c.toNat ≤ 122 ∨ 48 ≤ c.toNat ∧ c.toNat ≤ 57 ∨ c.toNat = 95 ∨ c.toNat = 36 ∨
    128 ≤ c.toNat := by
  simp only [isIdChar, Char.isAlphanum, Bool.or_eq_true, isAlpha_iff, isDigit_iff,
    decide_eq_true_eq, eq_iff_code, or_assoc]
  exact Iff.rfl

theorem isIdChar_of_isIdStart {c : Char} (h : isIdStart c = true) : isIdChar c = true := by
  simp only [isIdStart, Bool.or_eq_true, Bool.and_eq_true, isAlpha_iff, decide_eq_true_eq,
    eq_iff_code] at h
  rw [isIdChar_code]
  have hunderscore : '_'.toNat = 95 := rfl
  omega

theorem head_dropWhile {p : Char → Bool} {s : Str} {d : Char}
    (h : d ∈ (s.dropWhile p).head?) : p d = false := by
  have hhead := List.head?_dropWhile_not p s
  rw [h] at hhead
  exact hhead

/-! ## What is left behind a token -/

theorem fraction_append (s : Str) : (fraction s).1 ++ (fraction s).2 = s := by
  unfold fraction
  split
  · rw [List.cons_append, List.takeWhile_append_dropWhile]
  · rfl

theorem exponent_append (s : Str) : (exponent s).1 ++ (exponent s).2 = s := by
  unfold exponent
  split
  · split_ifs
    · split
      · split_ifs
        · rw [List.cons_append, List.takeWhile_append_dropWhile]
        · rw [List.cons_append, List.cons_append, List.takeWhile_append_dropWhile]
        · rfl
      · rfl
    · rfl
  · rfl

theorem numberTail_append (c : Char) (s : Str) : (numberTail c s).1 ++ (numberTail c s).2 = s := by
  unfold numberTail
  split_ifs with hhex hdot
  · obtain ⟨-, hx, -⟩ := hhex
    cases s with
    | nil => rcases hx with hx | hx <;> cases hx
    | cons x s =>
        dsimp only
        rw [List.append_assoc, List.tail_cons, List.takeWhile_append_dropWhile]
        rfl
  · have hwhole : s.takeWhile (fun d : Char => c != '.' && (d.isDigit || d = '_')) = [] := by
      cases s with
      | nil => rfl
      | cons d s => simp [hdot]
    dsimp only
    rw [hwhole, List.nil_append, List.append_assoc, exponent_append,
      List.takeWhile_append_dropWhile]
  · dsimp only
    rw [List.append_assoc, exponent_append, List.append_assoc, fraction_append,
      List.takeWhile_append_dropWhile]

theorem parameterSuffix_append (s : Str) :
    (parameterSuffix s).2.1 ++ (parameterSuffix s).2.2 = s := by
  have hs := List.takeWhile_append_dropWhile (p := inSuffix) (l := s)
  unfold parameterSuffix
  split
  · next heq => rwa [heq] at hs
  · next d behind heq =>
    rw [heq] at hs
    split_ifs
    · rw [List.append_assoc, List.singleton_append]
      exact hs
    · exact hs

section ParameterTail

variable {named : Bool} {c d : Char}

theorem parameterTail_idChar (h : isIdChar c = true) (rest : Str) :
    parameterTail named (c :: rest) = ((parameterTail true rest).1,
      c :: (parameterTail true rest).2.1, (parameterTail true rest).2.2) := by
  cases rest <;> simp [parameterTail, h]

theorem parameterTail_open (h : isIdChar c = false) (hopen : c = '(' ∧ named = true) (rest : Str) :
    parameterTail named (c :: rest) = ((parameterSuffix rest).1,
      c :: (parameterSuffix rest).2.1, (parameterSuffix rest).2.2) := by
  cases rest <;>
    simp only [parameterTail, h, if_pos hopen, Bool.false_eq_true, if_false]

theorem parameterTail_last (h : isIdChar c = false) (hopen : ¬(c = '(' ∧ named = true)) :
    parameterTail named [c] = (named, [], [c]) := by
  simp only [parameterTail, h, if_neg hopen, Bool.false_eq_true, if_false]

theorem parameterTail_colons (h : isIdChar c = false) (hopen : ¬(c = '(' ∧ named = true))
    (hcolons : c = ':' ∧ d = ':') (rest : Str) :
    parameterTail named (c :: d :: rest) = ((parameterTail named rest).1,
      c :: d :: (parameterTail named rest).2.1, (parameterTail named rest).2.2) := by
  simp only [parameterTail, h, if_neg hopen, Bool.false_eq_true, if_false, if_pos hcolons]

theorem parameterTail_end (h : isIdChar c = false) (hopen : ¬(c = '(' ∧ named = true))
    (hcolons : ¬(c = ':' ∧ d = ':')) (rest : Str) :
    parameterTail named (c :: d :: rest) = (named, [], c :: d :: rest) := by
  simp only [parameterTail, h, if_neg hopen, Bool.false_eq_true, if_false, if_neg hcolons]

end ParameterTail

theorem parameterTail_append (named : Bool) (s : Str) :
    (parameterTail named s).2.1 ++ (parameterTail named s).2.2 = s := by
  induction named, s using parameterTail.induct with
  | case1 => rfl
  | case2 named c rest h ih =>
      rw [parameterTail_idChar h]
      exact congrArg (c :: ·) ih
  | case3 named c rest h hopen =>
      rw [parameterTail_open (Bool.eq_false_iff.mpr h) hopen]
      exact congrArg (c :: ·) (parameterSuffix_append rest)
  | case4 named c h hopen =>
      rw [parameterTail_last (Bool.eq_false_iff.mpr h) hopen]
      rfl
  | case5 named c h hopen d rest hcolons ih =>
      rw [parameterTail_colons (Bool.eq_false_iff.mpr h) hopen hcolons]
      exact congrArg (c :: d :: ·) ih
  | case6 named c h hopen d rest hcolons =>
      rw [parameterTail_end (Bool.eq_false_iff.mpr h) hopen hcolons]
      rfl

theorem nextToken_suffix (c : Char) (rest : Str) : (nextToken c rest).2 <:+ rest := by
  unfold nextToken
  cases classOf c rest with
  | space => exact List.dropWhile_suffix _
  | lineComment => exact List.dropWhile_suffix _
  | blockComment => exact (afterComment_suffix _ _ _).trans (List.tail_suffix rest)
  | quote kind close doubled => exact quoted_suffix _ _ _
  | blob =>
      exact ((List.tail_suffix _).trans (List.dropWhile_suffix _)).trans (List.tail_suffix rest)
  | word => exact List.dropWhile_suffix _
  | number => exact (List.dropWhile_suffix _).trans ⟨_, numberTail_append c rest⟩
  | numbered => exact List.dropWhile_suffix _
  | parameter => exact ⟨_, parameterTail_append false rest⟩
  | symbol => exact List.suffix_rfl

theorem length_nextToken (c : Char) (rest : Str) :
    (nextToken c rest).2.length ≤ rest.length := (nextToken_suffix c rest).length_le

/-- The classes, with what is known of the characters. -/
theorem classOf_cases {motive : Class → Prop} {c : Char} {rest : Str}
    (space : isSpaceStart c = true → motive .space)
    (lineComment : c = '-' → rest.head? = some '-' → motive .lineComment)
    (blockComment : c = '/' → rest.head? = some '*' → rest.tail ≠ [] → motive .blockComment)
    (string : c = '\'' → motive (.quote .string '\'' true))
    (quotedName : c = '"' ∨ c = '`' → motive (.quote .quotedName c true))
    (bracketed : c = '[' → motive (.quote .quotedName ']' false))
    (blob : c = 'x' ∨ c = 'X' → rest.head? = some '\'' → motive .blob)
    (word : isIdStart c = true → motive .word)
    (number : c.isDigit = true ∨ c = '.' → motive .number)
    (numbered : c = '?' → motive .numbered)
    (parameter : c = '$' ∨ c = '@' ∨ c = '#' ∨ c = ':' → motive .parameter)
    (dash : c = '-' → rest.head? ≠ some '-' → motive .symbol)
    (slash : c = '/' → ¬(rest.head? = some '*' ∧ rest.tail ≠ []) → motive .symbol)
    (symbol : isIdStart c = false → c ≠ '-' → c ≠ '/' → c ≠ '\'' → c ≠ '"' → c ≠ '`' → c ≠ '[' →
      motive .symbol) : motive (classOf c rest) := by
  unfold classOf
  split
  · exact space ‹_›
  split
  · split
    · exact lineComment ‹_› ‹_›
    · exact dash ‹_› ‹_›
  split
  · split
    · next hnext => exact blockComment ‹_› hnext.1 hnext.2
    · exact slash ‹_› ‹_›
  split
  · exact string ‹_›
  split
  · exact quotedName ‹_›
  split
  · exact bracketed ‹_›
  split
  · split
    · next hblob => exact blob hblob.1 hblob.2
    · exact word ‹_›
  split
  · next hdigit => exact number (hdigit.imp_right And.left)
  split
  · exact numbered ‹_›
  split
  · exact parameter ‹_›
  · next hspace hdash hslash hstring hname hbracket hid _ _ _ =>
    exact symbol (Bool.eq_false_iff.mpr hid) hdash hslash hstring (fun h => hname (.inl h))
      (fun h => hname (.inr h)) hbracket

def tokens : Str → List Token
  | [] => []
  | c :: rest => (nextToken c rest).1 :: tokens (nextToken c rest).2
termination_by s => s.length
decreasing_by exact Nat.lt_succ_of_le (length_nextToken c rest)

/-- What SQLite reads of a text, which ends before a null character. -/
def readable (s : Str) : Str := s.takeWhile (· != Char.ofNat 0)

/-- The tokens before the first that is illegal. -/
def legalTokens (s : Str) : List Token := (tokens (readable s)).takeWhile Token.legal

end Lib.Sql
