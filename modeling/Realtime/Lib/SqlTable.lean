import Realtime.Lib.SqlText

/-!
# What a stored `CREATE TABLE` declares

The tokens of a text together with the text they are taken from, and the columns and
constraints that SQLite finds between the parentheses of a `CREATE TABLE` statement. SQLite
stores such a statement as `CREATE TABLE ` and the text from the name on.
-/

namespace Lib.Sql

/-! ## Pieces -/

/-- A token and its text. -/
structure Piece where
  token : Token
  raw : Str
  deriving DecidableEq

def pieces : Str → List Piece
  | [] => []
  | c :: rest =>
      ⟨(nextToken c rest).1, (c :: rest).take (rest.length + 1 - (nextToken c rest).2.length)⟩ ::
        pieces (nextToken c rest).2
termination_by s => s.length
decreasing_by exact Nat.lt_succ_of_le (length_nextToken c rest)

def raws (ps : List Piece) : Str := ps.flatMap Piece.raw

namespace Piece

/-- Spaces or a comment. -/
def isSpace (p : Piece) : Bool := p.token.kind = .space

def isComment (p : Piece) : Bool := p.isSpace && !p.raw.all Sql.isSpace

def is (c : Char) (p : Piece) : Bool := p.token.kind = .symbol && p.token.text = [c]

/-- SQLite takes the token in a statement that it stores. -/
def isOrdinary (p : Piece) : Bool := p.token.legal && p.token.kind != .parameter

/-- A table or a column may be named so; a string is taken for a name here. -/
def isName (p : Piece) : Bool :=
  p.token.kind = .bareName || p.token.kind = .quotedName || p.token.kind = .string

/-- The words a table constraint begins with, which name no column unless quoted. -/
def isConstraint (p : Piece) : Bool :=
  p.token.kind = .bareName &&
    ["CONSTRAINT".toList, "PRIMARY".toList, "FOREIGN".toList, "UNIQUE".toList,
      "CHECK".toList].contains (p.token.text.map Char.toUpper)

end Piece

/-! ## Tables -/

/-- A column or table constraints, with the spaces and comments around them. -/
structure Item where
  before : List Piece
  first : Piece
  inner : List Piece
  after : List Piece
  before_space : ∀ p ∈ before, p.isSpace = true
  isName_first : first.isName = true
  inner_last : ∀ p ∈ inner.getLast?, p.isSpace = false
  after_space : ∀ p ∈ after, p.isSpace = true

namespace Item

def pieces (i : Item) : List Piece := i.before ++ i.first :: i.inner ++ i.after

/-- From the first token to the last. -/
def definition (i : Item) : Str := raws (i.first :: i.inner)

/-- The name of a column and its definition. -/
def column (i : Item) : Option (Str × Str) :=
  if i.first.isConstraint then none else some (i.first.token.text, i.definition)

end Item

def toItem (ps : List Piece) : Option Item :=
  match h : ps.dropWhile Piece.isSpace with
  | [] => none
  | p :: rest =>
      if hname : p.isName then
        some {
          before := ps.takeWhile Piece.isSpace
          first := p
          inner := rest.rdropWhile Piece.isSpace
          after := rest.rtakeWhile Piece.isSpace
          before_space := fun _ => List.mem_takeWhile_imp
          isName_first := hname
          inner_last := fun q hq => by
            have hlast := List.rdropWhile_last_not Piece.isSpace rest
            obtain ⟨hne, rfl⟩ := List.mem_getLast?_eq_getLast hq
            exact Bool.eq_false_iff.mpr (hlast hne)
          after_space := fun _ => List.mem_rtakeWhile_imp }
      else none

/-- The parts between the commas up to the parenthesis that ends the body; `depth` counts
those still open within the body, and `item` is read already. -/
def splitBody : Nat → List Piece → List Piece → Option (List (List Piece))
  | _, _, [] => none
  | depth, item, p :: ps =>
      if p.is ')' then
        match depth with
        | 0 => some [item]
        | depth + 1 => splitBody depth (item ++ [p]) ps
      else if p.is '(' then splitBody (depth + 1) (item ++ [p]) ps
      else if p.is ',' ∧ depth = 0 then (splitBody 0 [] ps).map (item :: ·)
      else splitBody depth (item ++ [p]) ps

/-- A `CREATE TABLE` statement, with the spaces behind the name and all that stands behind
the opening parenthesis. -/
structure Table where
  name : Piece
  gap : List Piece
  body : List Piece
  items : List Item

def Table.columns (t : Table) : List (Str × Str) := t.items.filterMap Item.column

/-- What a stored statement declares. -/
def declared (s : Str) : Option Table :=
  match Str.stripPrefix "CREATE TABLE ".toList s with
  | none => none
  | some text =>
      if (pieces text).all Piece.isOrdinary then
        match pieces text with
        | [] => none
        | name :: ps =>
            match name.isName, ps.dropWhile Piece.isSpace with
            | true, p :: body =>
                if p.is '(' then
                  match splitBody 0 [] body with
                  | none => none
                  | some parts =>
                      (parts.mapM toItem).map fun items =>
                        { name, gap := ps.takeWhile Piece.isSpace, body, items }
                else none
            | _, _ => none
      else none

/-! ## What is known of a piece -/

/-- The raw text behind the opening mark of a quote with its closing mark, and its content. -/
inductive Closes (close : Char) (doubled : Bool) : Str → Str → Prop
  | last : Closes close doubled [close] []
  | other {c r text} (hc : c ≠ close) : Closes close doubled r text →
      Closes close doubled (c :: r) (c :: text)
  | twice {r text} (hdoubled : doubled = true) : Closes close doubled r text →
      Closes close doubled (close :: close :: r) (close :: text)

theorem Closes.mem {close : Char} {doubled : Bool} {r text : Str}
    (h : Closes close doubled r text) : close ∈ r := by
  induction h with
  | last => exact List.mem_singleton_self _
  | other _ _ ih => exact List.mem_cons_of_mem _ ih
  | twice _ _ _ => exact List.mem_cons_self

theorem Closes.quoted {close : Char} {doubled : Bool} {r text : Str}
    (h : Closes close doubled r text) {behind : Str}
    (hbehind : doubled = true → behind.head? ≠ some close) :
    quoted close doubled (r ++ behind) = (text, behind) := by
  induction h with
  | last =>
      cases behind with
      | nil => exact quoted_last
      | cons d behind => exact quoted_end (fun h => hbehind h.1 (congrArg some h.2)) behind
  | other hc _ ih => rw [List.cons_append, quoted_other hc, ih]
  | twice hdoubled _ ih =>
      rw [List.cons_append, List.cons_append, quoted_doubled ⟨hdoubled, rfl⟩, ih]

theorem exists_closes {close : Char} {doubled : Bool} {s : Str}
    (h : isClosed close doubled s = true) :
    ∃ r, r ++ (Sql.quoted close doubled s).2 = s ∧
      Closes close doubled r (Sql.quoted close doubled s).1 ∧
      (doubled = true → (Sql.quoted close doubled s).2.head? ≠ some close) := by
  induction s using @quoted_induction _ _ close doubled with
  | nil => cases h
  | other c rest hc ih =>
      rw [isClosed_other hc] at h
      obtain ⟨r, hsplit, hr, hhead⟩ := ih h
      rw [quoted_other hc]
      exact ⟨c :: r, congrArg (c :: ·) hsplit, .other hc hr, hhead⟩
  | last =>
      rw [quoted_last]
      exact ⟨[close], rfl, .last, fun _ => nofun⟩
  | twice d rest hd ih =>
      rw [isClosed_doubled hd] at h
      obtain ⟨r, hsplit, hr, hhead⟩ := ih h
      rw [quoted_doubled hd]
      obtain ⟨hdoubled, rfl⟩ := hd
      exact ⟨d :: d :: r, congrArg (d :: d :: ·) hsplit, .twice hdoubled hr, hhead⟩
  | behind d rest hd =>
      rw [quoted_end hd]
      exact ⟨[close], rfl, .last, fun hdoubled hhead => hd ⟨hdoubled, Option.some_inj.mp hhead⟩⟩

/-- A text between quotes, with the quotes in it doubled. -/
def doubleQuotes (quote : Char) (s : Str) : Str :=
  s.flatMap fun c => if c = quote then [quote, quote] else [c]

theorem doubleQuotes_eq_self {q : Char} {n : Str} (h : q ∉ n) : doubleQuotes q n = n := by
  induction n with
  | nil => rfl
  | cons c n ih =>
      have hc := List.ne_of_not_mem_cons h
      show (if c = q then [q, q] else [c]) ++ doubleQuotes q n = c :: n
      rw [if_neg (Ne.symm hc), ih (List.not_mem_of_not_mem_cons h)]
      rfl

theorem length_doubleQuotes (q : Char) (n : Str) :
    (doubleQuotes q n).length = n.length + n.count q := by
  induction n with
  | nil => rfl
  | cons c n ih =>
      show ((if c = q then [q, q] else [c]) ++ doubleQuotes q n).length = _
      rw [List.length_append, ih, List.length_cons, List.count_cons]
      by_cases hc : c = q
      · rw [if_pos hc, if_pos (beq_iff_eq.mpr hc)]
        show 2 + _ = _
        omega
      · rw [if_neg hc, if_neg (fun h => hc (beq_iff_eq.mp h))]
        show 1 + _ = _
        omega

theorem not_mem_of_eq_doubleQuotes {q : Char} {n : Str} (h : n = doubleQuotes q n) : q ∉ n := by
  have hlength := length_doubleQuotes q n
  rw [← h] at hlength
  exact List.count_eq_zero.mp (by omega)

theorem doubleQuotes_cons (q c : Char) (s : Str) : doubleQuotes q (c :: s) =
    (if c = q then [q, q] else [c]) ++ doubleQuotes q s := rfl

/-- A quote with doubled marks is read back. -/
theorem closes_doubleQuotes (q : Char) (s : Str) :
    Closes q true (doubleQuotes q s ++ [q]) s := by
  induction s with
  | nil => exact .last
  | cons c s ih =>
      rw [doubleQuotes_cons]
      by_cases hc : c = q
      · obtain rfl := hc
        rw [if_pos rfl]
        exact .twice rfl ih
      · rw [if_neg hc]
        exact .other hc ih

/-- The text that opens a quote, what closes it, and whether a doubled mark stands for one. -/
inductive IsQuote : Kind → Char → Char → Bool → Prop
  | string : IsQuote .string '\'' '\'' true
  | double : IsQuote .quotedName '"' '"' true
  | accent : IsQuote .quotedName '`' '`' true
  | bracket : IsQuote .quotedName '[' ']' false

/-- A letter, a digit, or what else may stand in a number. -/
def InNumber (d : Char) : Prop := isIdChar d = true ∨ d = '.' ∨ d = '+' ∨ d = '-'

/-- The pieces that SQLite takes, by the text they have and the text behind them. -/
inductive Shape (behind : Str) : Piece → Prop
  | blank {c r} (hraw : ∀ d ∈ c :: r, isSpace d = true) :
      Shape behind ⟨⟨.space, true, []⟩, c :: r⟩
  | comment {c r} (hc : c = '-' ∨ c = '/') : Shape behind ⟨⟨.space, true, []⟩, c :: r⟩
  | quote {kind c close doubled text r} (hquote : IsQuote kind c close doubled)
      (hraw : Closes close doubled r text) (hbehind : doubled = true → behind.head? ≠ some close) :
      Shape behind ⟨⟨kind, true, text⟩, c :: r⟩
  | blob {c digits} (hc : c = 'x' ∨ c = 'X') (hdigits : ∀ d ∈ digits, isXDigit d = true) :
      Shape behind ⟨⟨.blob, true, [c]⟩, c :: '\'' :: digits ++ ['\'']⟩
  | word {c r} (hc : isIdStart c = true) (hr : ∀ d ∈ r, isIdChar d = true)
      (hbehind : ∀ d ∈ behind.head?, isIdChar d = false) :
      Shape behind ⟨⟨.bareName, true, c :: r⟩, c :: r⟩
  | number {c r} (hc : c.isDigit = true ∨ c = '.')
      (hr : ∀ d ∈ r, InNumber d) :
      Shape behind ⟨⟨.number, true, c :: r⟩, c :: r⟩
  | symbol {c} (hc : "-+*/%()=<>|&~,.;!".toList.contains c = true ∨ c = byteOrderMark) :
      Shape behind ⟨⟨.symbol, true, [c]⟩, [c]⟩

theorem eq_take_of_append {s t u : Str} (h : s ++ t = u) : u.take (u.length - t.length) = s := by
  rw [← h, List.length_append, Nat.add_sub_cancel, List.take_left]

theorem inNumber_of_isDigit {d : Char} (h : d.isDigit = true) : InNumber d := by
  rw [isDigit_iff] at h
  exact .inl ((isIdChar_code d).mpr (by omega))

theorem inNumber_exponent (s : Str) : ∀ d ∈ (exponent s).1, InNumber d := by
  have hdigits (t : Str) : ∀ d ∈ t.takeWhile Char.isDigit, InNumber d := fun d hd =>
    inNumber_of_isDigit (List.mem_takeWhile_imp hd)
  have hletter {e : Char} (he : e = 'e' ∨ e = 'E') : InNumber e := by
    rcases he with rfl | rfl <;> exact .inl (by decide)
  unfold exponent
  split
  · split_ifs with he
    · split
      · split_ifs with hdigit hsign
        · exact List.forall_mem_cons.mpr ⟨hletter he, hdigits _⟩
        · refine List.forall_mem_cons.mpr ⟨hletter he, List.forall_mem_cons.mpr ⟨?_, hdigits _⟩⟩
          exact .inr (.inr hsign.1)
        · exact List.forall_mem_nil _
      · exact List.forall_mem_nil _
    · exact List.forall_mem_nil _
  · exact List.forall_mem_nil _

theorem inNumber_fraction (s : Str) : ∀ d ∈ (fraction s).1, InNumber d := by
  unfold fraction
  split
  · exact List.forall_mem_cons.mpr
      ⟨.inr (.inl rfl), fun d hd => inNumber_of_isDigit (List.mem_takeWhile_imp hd)⟩
  · exact List.forall_mem_nil _

theorem inNumber_numberTail (c : Char) (s : Str) : ∀ d ∈ (numberTail c s).1, InNumber d := by
  unfold numberTail
  split_ifs with hhex hdot
  · obtain ⟨-, hx, -⟩ := hhex
    intro d hd
    rcases List.mem_append.mp hd with hd | hd
    · cases s with
      | nil => cases hd
      | cons x s =>
          obtain rfl := List.mem_singleton.mp hd
          rcases hx with h | h
          · obtain rfl := Option.some_inj.mp h
            exact .inl (by decide)
          · obtain rfl := Option.some_inj.mp h
            exact .inl (by decide)
    · refine .inl ((isIdChar_code d).mpr ?_)
      have hx := List.mem_takeWhile_imp hd
      simp only [isXDigit, Bool.or_eq_true, Bool.and_eq_true, decide_eq_true_eq, isDigit_iff,
        eq_iff_code, Char.le_def, UInt32.le_iff_toNat_le] at hx
      change ((_ ∨ 97 ≤ d.toNat ∧ d.toNat ≤ 102) ∨ 65 ≤ d.toNat ∧ d.toNat ≤ 70) ∨
        d.toNat = 95 at hx
      omega
  all_goals
    intro d hd
    dsimp only at hd
    rw [List.append_assoc, List.mem_append, List.mem_append] at hd
    rcases hd with hd | hd | hd
  · have hx := List.mem_takeWhile_imp hd
    simp only [hdot, bne_self_eq_false, Bool.and_eq_true, Bool.or_eq_true] at hx
    rcases hx.2 with hx | hx
    · exact inNumber_of_isDigit hx
    · exact .inl (by simp only [decide_eq_true_eq] at hx; rw [hx]; decide)
  · exact inNumber_of_isDigit (List.mem_takeWhile_imp hd)
  · exact inNumber_exponent _ d hd
  · have hx := List.mem_takeWhile_imp hd
    simp only [Bool.and_eq_true, Bool.or_eq_true] at hx
    rcases hx.2 with hx | hx
    · exact inNumber_of_isDigit hx
    · exact .inl (by simp only [decide_eq_true_eq] at hx; rw [hx]; decide)
  · exact inNumber_fraction _ d hd
  · exact inNumber_exponent _ d hd

theorem quotedToken_shape {kind : Kind} {c close : Char} {doubled : Bool} {r behind : Str}
    (hquote : IsQuote kind c close doubled)
    (hlegal : (quotedToken kind close doubled (r ++ behind)).1.legal = true)
    (h : (quotedToken kind close doubled (r ++ behind)).2 = behind) :
    Shape behind ⟨(quotedToken kind close doubled (r ++ behind)).1, c :: r⟩ := by
  unfold quotedToken at hlegal h ⊢
  dsimp only at hlegal h ⊢
  obtain ⟨r', hsplit, hr, hhead⟩ := exists_closes hlegal
  rw [h] at hsplit hhead
  obtain rfl := List.append_cancel_right hsplit
  rw [hlegal]
  exact .quote hquote hr hhead

theorem symbol_shape {c : Char} {r behind : Str} {tok : Token} (hlegal : tok.legal = true)
    (h : tokenOf c (r ++ behind) .symbol = (tok, behind)) : Shape behind ⟨tok, c :: r⟩ := by
  obtain ⟨rfl, hbehind⟩ := Prod.mk.inj h
  obtain rfl : r = [] := List.append_left_eq_self.mp hbehind
  have hsymbol : isSymbol c ([] ++ behind) = true := hlegal
  rw [hsymbol]
  refine .symbol ?_
  unfold isSymbol at hsymbol
  simp only [Bool.or_eq_true, Bool.and_eq_true, decide_eq_true_eq] at hsymbol
  rcases hsymbol with (hsymbol | ⟨rfl, -⟩) | hsymbol
  · refine .inl (List.contains_iff_mem.mpr ?_)
    exact List.mem_append_left ['!'] (List.contains_iff_mem.mp hsymbol)
  · exact .inl (by decide)
  · exact .inr hsymbol

theorem shape_of_nextToken {c : Char} {r behind : Str} {tok : Token}
    (h : nextToken c (r ++ behind) = (tok, behind)) (hlegal : tok.legal = true)
    (hordinary : tok.kind ≠ .parameter) : Shape behind ⟨tok, c :: r⟩ := by
  have hwhile {p : Char → Bool} (hdrop : (r ++ behind).dropWhile p = behind) :
      (r ++ behind).takeWhile p = r := by
    have hsplit := List.takeWhile_append_dropWhile (p := p) (l := r ++ behind)
    rw [hdrop] at hsplit
    exact List.append_cancel_right hsplit
  unfold nextToken at h
  revert h
  refine classOf_cases (motive := fun cl => tokenOf c (r ++ behind) cl = (tok, behind) →
    Shape behind ⟨tok, c :: r⟩) ?space ?line ?block ?string ?name ?bracket ?blob ?word ?number
    ?numbered ?parameter ?dash ?slash ?symbol
  case space =>
    intro hc h
    obtain ⟨rfl, hbehind⟩ := Prod.mk.inj h
    refine .blank (List.forall_mem_cons.mpr ⟨?_, fun d hd => ?_⟩)
    · unfold isSpace
      rw [hc, Bool.true_or]
    · rw [← hwhile hbehind] at hd
      exact List.mem_takeWhile_imp hd
  case line =>
    intro hc _ h
    obtain ⟨rfl, -⟩ := Prod.mk.inj h
    exact .comment (.inl hc)
  case block =>
    intro hc _ _ h
    obtain ⟨rfl, -⟩ := Prod.mk.inj h
    exact .comment (.inr hc)
  case string =>
    rintro rfl h
    obtain ⟨rfl, hbehind⟩ := Prod.mk.inj h
    exact quotedToken_shape .string hlegal hbehind
  case name =>
    rintro (rfl | rfl) h
    · obtain ⟨rfl, hbehind⟩ := Prod.mk.inj h
      exact quotedToken_shape .double hlegal hbehind
    · obtain ⟨rfl, hbehind⟩ := Prod.mk.inj h
      exact quotedToken_shape .accent hlegal hbehind
  case bracket =>
    rintro rfl h
    obtain ⟨rfl, hbehind⟩ := Prod.mk.inj h
    exact quotedToken_shape .bracket hlegal hbehind
  case blob =>
    intro hc hquote h
    obtain ⟨rfl, hbehind⟩ := Prod.mk.inj h
    obtain ⟨s, hs⟩ : ∃ s, r ++ behind = '\'' :: s := List.head?_eq_some_iff.mp hquote
    rw [hs, List.tail_cons] at hbehind hlegal ⊢
    -- the digits end at the closing quote
    obtain ⟨hclose, -⟩ : (s.dropWhile isXDigit).head? = some '\'' ∧
        (s.takeWhile isXDigit).length % 2 = 0 := of_decide_eq_true hlegal
    obtain ⟨t, ht⟩ : ∃ t, s.dropWhile isXDigit = '\'' :: t := List.head?_eq_some_iff.mp hclose
    have hdigits : ∀ d ∈ s.takeWhile isXDigit, isXDigit d = true := fun d =>
      List.mem_takeWhile_imp
    have hsplit : s.takeWhile isXDigit ++ '\'' :: t = s := by
      rw [← ht, List.takeWhile_append_dropWhile]
    have hother : ∀ d ∈ s.takeWhile isXDigit, (d != '\'') = true := by
      intro d hd
      refine bne_iff_ne.mpr fun heq => ?_
      have h := hdigits d hd
      rw [heq] at h
      exact absurd h (by decide)
    have hrest : t = behind := by
      have hdrop : s.dropWhile (· != '\'') = '\'' :: t := by
        rw [← hsplit, List.dropWhile_append_of_pos hother]
        exact List.dropWhile_cons_of_neg (by decide)
      have htail := hbehind
      rw [hdrop, List.tail_cons] at htail
      exact htail
    have hr : r = '\'' :: s.takeWhile isXDigit ++ ['\''] := by
      have happend : r ++ behind = ('\'' :: s.takeWhile isXDigit ++ ['\'']) ++ behind := by
        rw [hs, List.append_assoc, List.singleton_append, List.cons_append, ← hrest, hsplit]
      exact List.append_cancel_right happend
    have hshape := @Shape.blob behind _ _ hc hdigits
    rw [hr]
    rw [show decide ((s.dropWhile isXDigit).head? = some '\'' ∧
      (s.takeWhile isXDigit).length % 2 = 0) = true from hlegal]
    exact hshape
  case word =>
    intro hc h
    obtain ⟨rfl, hbehind⟩ := Prod.mk.inj h
    rw [hwhile hbehind]
    refine .word hc (fun d hd => ?_) fun d hd => head_dropWhile (hbehind ▸ hd)
    rw [← hwhile hbehind] at hd
    exact List.mem_takeWhile_imp hd
  case number =>
    intro hc h
    obtain ⟨rfl, hbehind⟩ := Prod.mk.inj h
    have hwrong : (numberTail c (r ++ behind)).2.takeWhile isIdChar = [] :=
      List.isEmpty_iff.mp hlegal
    have hrest : (numberTail c (r ++ behind)).2 = behind := by
      have hsplit := List.takeWhile_append_dropWhile (p := isIdChar)
        (l := (numberTail c (r ++ behind)).2)
      rw [hwrong, List.nil_append] at hsplit
      exact hsplit.symm.trans hbehind
    have hr : (numberTail c (r ++ behind)).1 = r := by
      have hsplit := numberTail_append c (r ++ behind)
      rw [hrest] at hsplit
      exact List.append_cancel_right hsplit
    rw [hwrong, hr, List.append_nil]
    exact .number hc (hr ▸ inNumber_numberTail c _)
  case numbered =>
    intro _ h
    obtain ⟨rfl, -⟩ := Prod.mk.inj h
    exact absurd rfl hordinary
  case parameter =>
    intro _ h
    obtain ⟨rfl, -⟩ := Prod.mk.inj h
    exact absurd rfl hordinary
  case dash => exact fun _ _ h => symbol_shape hlegal h
  case slash => exact fun _ _ h => symbol_shape hlegal h
  case symbol => exact fun _ _ _ _ _ _ _ h => symbol_shape hlegal h

/-- Pieces of a text, one behind the other, with `behind` behind them. -/
def Lexed (behind : Str) : List Piece → Prop
  | [] => True
  | p :: ps => Shape (raws ps ++ behind) p ∧ Lexed behind ps

theorem raws_append (ps qs : List Piece) : raws (ps ++ qs) = raws ps ++ raws qs :=
  List.flatMap_append

theorem raws_cons (p : Piece) (ps : List Piece) : raws (p :: ps) = p.raw ++ raws ps :=
  List.flatMap_cons

theorem raws_pieces (s : Str) : raws (pieces s) = s := by
  induction s using pieces.induct with
  | case1 => rw [pieces, raws, List.flatMap_nil]
  | case2 c rest ih =>
      obtain ⟨front, hfront⟩ := nextToken_suffix c rest
      have htake := eq_take_of_append (s := c :: front) (congrArg (c :: ·) hfront)
      rw [List.length_cons] at htake
      rw [pieces, raws_cons, ih, htake]
      exact congrArg (c :: ·) hfront

theorem lexed_pieces {s : Str} (h : ∀ p ∈ pieces s, p.isOrdinary = true) :
    Lexed [] (pieces s) := by
  induction s using pieces.induct with
  | case1 =>
      rw [pieces]
      trivial
  | case2 c rest ih =>
      obtain ⟨front, hfront⟩ := nextToken_suffix c rest
      have htake := eq_take_of_append (s := c :: front) (congrArg (c :: ·) hfront)
      rw [List.length_cons] at htake
      rw [pieces, htake] at h ⊢
      obtain ⟨hfirst, hrest⟩ := List.forall_mem_cons.mp h
      simp only [Piece.isOrdinary, Bool.and_eq_true, bne_iff_ne] at hfirst
      refine ⟨?_, ih hrest⟩
      rw [raws_pieces, List.append_nil]
      refine shape_of_nextToken ?_ hfirst.1 hfirst.2
      rw [hfront]

theorem lexed_append {behind : Str} {ps qs : List Piece} :
    Lexed behind (ps ++ qs) ↔ Lexed (raws qs ++ behind) ps ∧ Lexed behind qs := by
  induction ps with
  | nil => simp only [List.nil_append, Lexed, true_and]
  | cons p ps ih =>
      rw [List.cons_append, Lexed, Lexed, ih, raws_append, List.append_assoc, and_assoc]

theorem toItem_pieces {ps : List Piece} {i : Item} (h : toItem ps = some i) : i.pieces = ps := by
  unfold toItem at h
  split at h
  · cases h
  · next p rest hdrop =>
    split at h
    · obtain rfl := Option.some_inj.mp h
      show ps.takeWhile Piece.isSpace ++ p :: rest.rdropWhile Piece.isSpace ++
        rest.rtakeWhile Piece.isSpace = ps
      rw [List.append_assoc, List.cons_append, List.rdropWhile_append_rtakeWhile, ← hdrop,
        List.takeWhile_append_dropWhile]
    · cases h

theorem Shape.raw_ne_nil {behind : Str} {p : Piece} (h : Shape behind p) : p.raw ≠ [] := by
  cases h <;> exact List.cons_ne_nil _ _

/-- A bare name ends where it must. -/
theorem Shape.behind_bareName {behind : Str} {p : Piece} (h : Shape behind p)
    (hbare : p.token.kind = .bareName) : ∀ c ∈ behind.head?, isIdChar c = false := by
  cases h with
  | word _ _ hbehind => exact hbehind
  | quote hquote => cases hquote <;> cases hbare
  | _ => cases hbare

theorem Shape.raw_bareName {behind : Str} {p : Piece} (h : Shape behind p)
    (hbare : p.token.kind = .bareName) : p.raw = p.token.text := by
  cases h with
  | word => rfl
  | quote hquote => cases hquote <;> cases hbare
  | _ => cases hbare

theorem Shape.raw_of_is {behind : Str} {p : Piece} {c : Char} (h : Shape behind p)
    (hc : p.is c = true) : p.raw = [c] := by
  cases h with
  | symbol => simpa [Piece.is] using hc
  | quote hquote => cases hquote <;> simp [Piece.is] at hc
  | _ => simp [Piece.is] at hc

/-- The parts of a body are pieces of its text. -/
theorem lexed_splitBody {n : Nat} {item ps : List Piece} {parts : List (List Piece)}
    {behind : Str} (h : splitBody n item ps = some parts) (hlexed : Lexed behind (item ++ ps)) :
    ∀ part ∈ parts, ∃ b, Lexed b part := by
  induction ps generalizing n item parts with
  | nil => cases h
  | cons p ps ih =>
      have hnext : Lexed behind ((item ++ [p]) ++ ps) := by
        rwa [List.append_assoc, List.singleton_append]
      obtain ⟨hitem, hrest⟩ := lexed_append.mp hlexed
      unfold splitBody at h
      split at h
      · split at h
        · obtain rfl := Option.some_inj.mp h
          exact List.forall_mem_singleton.mpr ⟨_, hitem⟩
        · exact ih h hnext
      · split at h
        · exact ih h hnext
        · split at h
          · obtain ⟨parts', hparts, rfl⟩ := Option.map_eq_some_iff.mp h
            exact List.forall_mem_cons.mpr ⟨⟨_, hitem⟩, ih hparts hrest.2⟩
          · exact ih h hnext

/-- A statement is the text of what it declares. -/
structure Declares (s : Str) (t : Table) : Prop where
  text : s = "CREATE TABLE ".toList ++ (raws (t.name :: t.gap) ++ '(' :: raws t.body)
  isName : t.name.isName = true
  name : Shape (raws t.gap ++ '(' :: raws t.body) t.name
  gap_space : ∀ p ∈ t.gap, p.isSpace = true
  gap : Lexed ('(' :: raws t.body) t.gap
  body : Lexed [] t.body
  split : splitBody 0 [] t.body = some (t.items.map Item.pieces)
  items : ∀ i ∈ t.items, ∃ b, Lexed b i.pieces

theorem map_pieces_of_mapM {parts : List (List Piece)} {items : List Item}
    (h : parts.mapM toItem = some items) : items.map Item.pieces = parts := by
  induction parts generalizing items with
  | nil =>
      obtain rfl := Option.some_inj.mp h
      rfl
  | cons part parts ih =>
      rw [List.mapM_cons] at h
      obtain ⟨i, hi, h⟩ := Option.bind_eq_some_iff.mp h
      obtain ⟨rest, hrest, h⟩ := Option.bind_eq_some_iff.mp h
      obtain rfl := Option.some_inj.mp h
      rw [List.map_cons, toItem_pieces hi, ih hrest]

theorem declares_of_declared {s : Str} {t : Table} (h : declared s = some t) : Declares s t := by
  unfold declared at h
  split at h
  · cases h
  next text htext =>
  split at h
  swap
  · cases h
  next hordinary =>
  have hs : s = "CREATE TABLE ".toList ++ text := by
    unfold Str.stripPrefix at htext
    split at htext
    · next hfront =>
      obtain ⟨u, rfl⟩ := List.isPrefixOf_iff_prefix.mp hfront
      rw [← Option.some_inj.mp htext, List.drop_left]
    · cases htext
  have hlexed := lexed_pieces (List.all_eq_true.mp hordinary)
  have hraws := raws_pieces text
  split at h
  · cases h
  next name ps hps =>
  rw [hps] at hlexed hraws
  split at h
  swap
  · cases h
  next p body hname hdrop =>
  split at h
  swap
  · cases h
  next hopen =>
  split at h
  · cases h
  next parts hparts =>
  obtain ⟨items, hitems, rfl⟩ := Option.map_eq_some_iff.mp h
  have hmap := map_pieces_of_mapM hitems
  have hsplit : ps = ps.takeWhile Piece.isSpace ++ p :: body := by
    rw [← hdrop, List.takeWhile_append_dropWhile]
  obtain ⟨hshape, hps'⟩ := hlexed
  rw [hsplit] at hshape hps' hraws
  obtain ⟨hgap, hp, hbody⟩ := lexed_append.mp hps'
  have hp' := hp.raw_of_is hopen
  rw [raws_append, raws_cons p, hp', List.append_nil] at hshape
  rw [raws_cons p, hp', List.append_nil] at hgap
  rw [raws_cons, raws_append, raws_cons p, hp'] at hraws
  have hpart := lexed_splitBody hparts hbody
  exact {
    text := by
      rw [hs, ← hraws]
      show _ = _ ++ (raws (name :: ps.takeWhile Piece.isSpace) ++ '(' :: raws body)
      rw [raws_cons, List.append_assoc]
      rfl
    isName := hname
    name := hshape
    gap_space := fun _ => List.mem_takeWhile_imp
    gap := hgap
    body := hbody
    split := hparts.trans (congrArg some hmap.symm)
    items := fun i hi => hpart _ (hmap ▸ List.mem_map_of_mem hi) }

end Lib.Sql
