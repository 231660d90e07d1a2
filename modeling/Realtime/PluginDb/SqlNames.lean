import Realtime.PluginDb.SqlLint

/-!
# The names that the linters let through

On a text whose parameters have no quote and no comment in their suffixes the linters see the
tokens that SQLite sees, and the identifiers they find are the words of these tokens. What
they let through there are strings in the place of a name.
-/

namespace Realtime.PluginDb

open Lib Lib.Sql

/-! ## Plain text -/

def isPart (c : Char) : Bool := isWordPart c.toNat

/-- The words of a text without quotes and comments. -/
def words : Str → List Str
  | [] => []
  | c :: rest =>
      if isWordStart c.toNat then (c :: rest.takeWhile isPart) :: words (rest.dropWhile isPart)
      else words rest
termination_by s => s.length
decreasing_by
  all_goals
    simp only [List.length_cons]
    refine Nat.lt_succ_of_le ?_
    first
      | exact (List.dropWhile_sublist _).length_le
      | exact le_rfl

/-- The character opens a quote, or a comment with the next. -/
def opensAt (c : Char) (rest : Str) : Bool :=
  c = '\'' || c = '"' || c = '`' || c = '[' || (c = '-' && rest.head? = some '-') ||
    (c = '/' && rest.head? = some '*')

/-- A quote or a comment is opened in the text. -/
def opens : Str → Bool
  | [] => false
  | c :: rest => opensAt c rest || opens rest

/-- No word and no comment goes on over the cut. -/
def Cut (t r : Str) : Prop :=
  ∀ c ∈ t.getLast?, ∀ d ∈ r.head?,
    (isPart c = true → isPart d = false) ∧ ¬(c = '-' ∧ d = '-') ∧ ¬(c = '/' ∧ d = '*')

theorem while_cut {p : Char → Bool} {t r : Str}
    (h : (∀ c ∈ t, p c = true) → ∀ d ∈ r.head?, p d = false) :
    (t ++ r).takeWhile p = t.takeWhile p ∧ (t ++ r).dropWhile p = t.dropWhile p ++ r := by
  induction t with
  | nil =>
      cases r with
      | nil => exact ⟨rfl, rfl⟩
      | cons d r =>
          have hd : p d = false := h nofun d rfl
          rw [List.nil_append, List.takeWhile_cons_of_neg (by simp [hd]),
            List.dropWhile_cons_of_neg (by simp [hd])]
          exact ⟨rfl, rfl⟩
  | cons c t ih =>
      rw [List.cons_append]
      cases hc : p c with
      | true =>
          obtain ⟨htake, hdrop⟩ := ih fun hall => h (List.forall_mem_cons.mpr ⟨hc, hall⟩)
          rw [List.takeWhile_cons_of_pos hc, List.dropWhile_cons_of_pos hc,
            List.takeWhile_cons_of_pos hc, List.dropWhile_cons_of_pos hc, htake, hdrop]
          exact ⟨rfl, rfl⟩
      | false =>
          rw [List.takeWhile_cons_of_neg (by simp [hc]), List.dropWhile_cons_of_neg (by simp [hc]),
            List.takeWhile_cons_of_neg (by simp [hc]), List.dropWhile_cons_of_neg (by simp [hc])]
          exact ⟨rfl, rfl⟩

theorem opens_of_suffix {s t : Str} (hsuffix : s <:+ t) (h : opens t = false) :
    opens s = false := by
  obtain ⟨front, rfl⟩ := hsuffix
  induction front with
  | nil => exact h
  | cons c front ih => exact ih (Bool.or_eq_false_iff.mp h).2

theorem Cut.of_suffix {s t r : Str} (hsuffix : s <:+ t) (h : Cut t r) : Cut s r := by
  obtain ⟨front, rfl⟩ := hsuffix
  intro c hc
  refine h c ?_
  rw [Option.mem_def] at hc ⊢
  rw [List.getLast?_append, hc]
  rfl

theorem passed_of_not_opensAt {c : Char} {rest : Str} (h : opensAt c rest = false)
    (hword : isWordStart c.toNat = false) :
    Passed characters c ∧ ¬(c = '-' ∧ rest.head? = some '-') ∧
      ¬(c = '/' ∧ rest.head? = some '*') := by
  simp only [opensAt, Bool.or_eq_false_iff, decide_eq_false_iff_not, Bool.and_eq_false_iff] at h
  obtain ⟨⟨⟨⟨⟨hquote, hdouble⟩, hback⟩, hbracket⟩, hdash⟩, hslash⟩ := h
  exact ⟨⟨hquote, hdouble, hback, hbracket, hword⟩, by tauto, by tauto⟩

theorem isPart_of_start {c : Char} (h : isWordStart c.toNat = true) : isPart c = true := by
  rw [isPart, isWordPart, h]
  rfl

/-- In plain text the linter finds the words. -/
theorem serverIdentifiers_plain {t r : Str} (hopens : opens t = false) (hcut : Cut t r) :
    serverIdentifiers (t ++ r) = words t ++ serverIdentifiers r := by
  induction t using words.induct with
  | case1 =>
      rw [words]
      rfl
  | case2 c rest hstart ih =>
      have hdropSuffix : rest.dropWhile isPart <:+ c :: rest :=
        (List.dropWhile_suffix _).trans (List.suffix_cons c rest)
      have hwhile : (∀ d ∈ rest, isPart d = true) → ∀ d ∈ r.head?, isPart d = false := by
        intro hall d hd
        have hlast : ∀ x ∈ (c :: rest).getLast?, isPart x = true := by
          intro x hx
          rcases List.mem_cons.mp (List.mem_of_getLast? hx) with rfl | hx
          · exact isPart_of_start hstart
          · exact hall x hx
        have hsome := List.getLast?_eq_some_getLast (List.cons_ne_nil c rest)
        exact (hcut _ hsome d hd).1 (hlast _ hsome)
      obtain ⟨htake, hdrop⟩ := while_cut hwhile
      have hstep := ih (opens_of_suffix hdropSuffix hopens) (hcut.of_suffix hdropSuffix)
      rw [words, if_pos hstart, List.cons_append, List.cons_append, ← hstep, ← htake, ← hdrop]
      exact identifiers_word proper_characters hstart
  | case3 c rest hstart ih =>
      obtain ⟨hat, hrest⟩ := Bool.or_eq_false_iff.mp hopens
      obtain ⟨hpassed, hdash, hslash⟩ := passed_of_not_opensAt hat (by simpa using hstart)
      rw [words, if_neg hstart, List.cons_append,
        ← ih hrest (hcut.of_suffix (List.suffix_cons c rest))]
      cases rest with
      | nil =>
          exact identifiers_passed hpassed (fun h => (hcut c rfl _ h.2).2.1 ⟨h.1, rfl⟩)
            fun h => (hcut c rfl _ h.2).2.2 ⟨h.1, rfl⟩
      | cons x rest => exact identifiers_passed hpassed hdash hslash

/-! ## Kinds of characters -/

/-- The character opens nothing, whatever follows it. -/
def Harmless (c : Char) : Prop :=
  c ≠ '\'' ∧ c ≠ '"' ∧ c ≠ '`' ∧ c ≠ '[' ∧ c ≠ '-' ∧ c ≠ '/'

theorem Harmless.opensAt {c : Char} (h : Harmless c) (rest : Str) : opensAt c rest = false := by
  obtain ⟨hquote, hdouble, hback, hbracket, hdash, hslash⟩ := h
  simp [PluginDb.opensAt, hquote, hdouble, hback, hbracket, hdash, hslash]

theorem opens_append {t : Str} (h : ∀ c ∈ t, Harmless c) (r : Str) : opens (t ++ r) = opens r := by
  induction t with
  | nil => rfl
  | cons c t ih =>
      obtain ⟨hc, ht⟩ := List.forall_mem_cons.mp h
      rw [List.cons_append, opens, hc.opensAt, Bool.false_or, ih ht]

theorem harmless_of_code {c : Char} (h : c.toNat ≠ 39 ∧ c.toNat ≠ 34 ∧ c.toNat ≠ 96 ∧
    c.toNat ≠ 91 ∧ c.toNat ≠ 45 ∧ c.toNat ≠ 47) : Harmless c := by
  obtain ⟨hquote, hdouble, hback, hbracket, hdash, hslash⟩ := h
  refine ⟨?_, ?_, ?_, ?_, ?_, ?_⟩
  all_goals
    rintro rfl
    contradiction

theorem isWordStart_iff (n : Nat) :
    isWordStart n = true ↔ 65 ≤ n ∧ n ≤ 90 ∨ 97 ≤ n ∧ n ≤ 122 ∨ n = 95 := by
  simp only [isWordStart, Bool.or_eq_true, Bool.and_eq_true, decide_eq_true_eq, or_assoc]

theorem isPart_iff (c : Char) :
    isPart c = true ↔ isWordStart c.toNat = true ∨ 48 ≤ c.toNat ∧ c.toNat ≤ 57 ∨ c.toNat = 36 := by
  simp only [isPart, isWordPart, Bool.or_eq_true, Bool.and_eq_true, decide_eq_true_eq, or_assoc]

theorem isIdChar_iff (c : Char) : isIdChar c = true ↔ isPart c = true ∨ 128 ≤ c.toNat := by
  rw [isPart_iff, isWordStart_iff]
  simp only [isIdChar, Char.isAlphanum, Bool.or_eq_true, isAlpha_iff, isDigit_iff,
    decide_eq_true_eq, eq_iff_code]
  show _ ↔ _
  have hunderscore : '_'.toNat = 95 := rfl
  have hdollar : '$'.toNat = 36 := rfl
  omega

theorem harmless_of_isIdChar {c : Char} (h : isIdChar c = true) : Harmless c := by
  rw [isIdChar_iff, isPart_iff, isWordStart_iff] at h
  exact harmless_of_code (by omega)

theorem isPart_of_not_isIdChar {c : Char} (h : isIdChar c = false) : isPart c = false := by
  rw [← Bool.not_eq_true, isIdChar_iff, not_or] at h
  exact Bool.not_eq_true _ ▸ h.1

theorem isIdChar_of_isDigit {c : Char} (h : c.isDigit = true) : isIdChar c = true := by
  rw [isDigit_iff] at h
  rw [isIdChar_iff, isPart_iff]
  exact .inl (.inr (.inl h))

theorem isWordStart_of_not_isIdStart {c : Char} (h : isIdStart c = false) :
    isWordStart c.toNat = false := by
  rw [← Bool.not_eq_true] at h ⊢
  refine mt (fun hword => ?_) h
  rw [isWordStart_iff] at hword
  simp only [isIdStart, Bool.or_eq_true, isAlpha_iff, decide_eq_true_eq, eq_iff_code]
  have hunderscore : '_'.toNat = 95 := rfl
  omega

/-- A space, a digit or a question mark, which the linter passes over. -/
structure Skipped (c : Char) : Prop where
  harmless : Harmless c
  word : isWordStart c.toNat = false

theorem serverIdentifiers_skipped {t : Str} (h : ∀ c ∈ t, Skipped c) (r : Str) :
    serverIdentifiers (t ++ r) = serverIdentifiers r := by
  induction t with
  | nil => rfl
  | cons c t ih =>
      obtain ⟨hc, ht⟩ := List.forall_mem_cons.mp h
      obtain ⟨hpassed, hdash, hslash⟩ :=
        passed_of_not_opensAt (hc.harmless.opensAt (t ++ r)) hc.word
      rw [← ih ht]
      exact identifiers_passed hpassed hdash hslash

theorem words_skipped {t : Str} (h : ∀ c ∈ t, Skipped c) : words t = [] := by
  induction t with
  | nil => rw [words]
  | cons c t ih =>
      obtain ⟨hc, ht⟩ := List.forall_mem_cons.mp h
      rw [words, if_neg (by simp [hc.word]), ih ht]

theorem isSpace_skipped {c : Char} (h : isSpace c = true) : Skipped c := by
  have hcode : c.toNat = 32 ∨ c.toNat = 9 ∨ c.toNat = 10 ∨ c.toNat = 13 ∨ c.toNat = 12 ∨
      c.toNat = 11 := by
    simp only [isSpace, isSpaceStart, Bool.or_eq_true, decide_eq_true_eq, eq_iff_code,
      or_assoc] at h
    exact h
  refine ⟨harmless_of_code (by omega), ?_⟩
  rw [← Bool.not_eq_true, isWordStart_iff]
  omega

theorem isDigit_skipped {c : Char} (h : c.isDigit = true) : Skipped c := by
  rw [isDigit_iff] at h
  refine ⟨harmless_of_code (by omega), ?_⟩
  rw [← Bool.not_eq_true, isWordStart_iff]
  omega

/-! ## The tokens of a text -/

/-- The words that a token shows the linter. -/
def shown (tok : Token) : List Str :=
  match tok.kind with
  | .quotedName => [tok.text]
  | .bareName | .blob | .number | .parameter => words tok.text
  | .space | .string | .symbol => []

/-- The parameter has no quote and no comment in its suffix. -/
def IsPlain (tok : Token) : Prop := tok.kind = .parameter → opens tok.text = false

/-- Harmless characters up to one that is in no word. -/
theorem cut_of_idChar {t r : Str} (ht : ∀ c ∈ t.getLast?, c ≠ '-' ∧ c ≠ '/')
    (hr : ∀ d ∈ r.head?, isPart d = false) : Cut t r := fun c hc d hd =>
  ⟨fun _ => hr d hd, fun h => (ht c hc).1 h.1, fun h => (ht c hc).2 h.1⟩

theorem serverIdentifiers_word {c : Char} (hc : isIdStart c = true) (rest : Str) :
    serverIdentifiers (c :: rest) = words (c :: rest.takeWhile isIdChar) ++
      serverIdentifiers (rest.dropWhile isIdChar) := by
  have hharmless : ∀ d ∈ c :: rest.takeWhile isIdChar, Harmless d := by
    refine List.forall_mem_cons.mpr ⟨harmless_of_isIdChar (isIdChar_of_isIdStart hc),
      fun d hd => ?_⟩
    exact harmless_of_isIdChar (List.mem_takeWhile_imp hd)
  have hopens : opens (c :: rest.takeWhile isIdChar) = false := by
    have h := opens_append hharmless []
    rwa [List.append_nil] at h
  have hcut : Cut (c :: rest.takeWhile isIdChar) (rest.dropWhile isIdChar) :=
    cut_of_idChar
      (fun d hd => ⟨(hharmless d (List.mem_of_getLast? hd)).2.2.2.2.1,
        (hharmless d (List.mem_of_getLast? hd)).2.2.2.2.2⟩)
      fun d hd => isPart_of_not_isIdChar (head_dropWhile hd)
  rw [← serverIdentifiers_plain hopens hcut, List.cons_append, List.takeWhile_append_dropWhile]

/-- What stands behind the first quote of a blob literal is read alike: as the rest of a
string, or as what follows. -/
theorem serverIdentifiers_blob (s : Str) :
    serverIdentifiers (quoted '\'' true s).2 =
      serverIdentifiers (s.dropWhile (· != '\'')).tail := by
  induction s using @quoted_induction _ _ '\'' true with
  | nil => rfl
  | other c rest h ih =>
      rw [quoted_other h, List.dropWhile_cons_of_pos (by simpa using h)]
      exact ih
  | last => rfl
  | twice d rest h ih =>
      rw [quoted_doubled h, List.dropWhile_cons_of_neg (by simp), List.tail_cons, h.2]
      exact (identifiers_string proper_characters rfl).symm
  | behind d rest h =>
      rw [quoted_end h, List.dropWhile_cons_of_neg (by simp), List.tail_cons]

/-! ## Numbers and parameters -/

/-- Text that opens nothing and does not end in a character that may. -/
structure Inert (t : Str) : Prop where
  opens : opens t = false
  last : ∀ c ∈ t.getLast?, c ≠ '-' ∧ c ≠ '/'

theorem inert_of_harmless {t : Str} (h : ∀ c ∈ t, Harmless c) : Inert t where
  opens := by
    have hopens := opens_append h []
    rwa [List.append_nil] at hopens
  last := fun c hc =>
    ⟨(h c (List.mem_of_getLast? hc)).2.2.2.2.1, (h c (List.mem_of_getLast? hc)).2.2.2.2.2⟩

theorem Inert.append {s t : Str} (hs : ∀ c ∈ s, Harmless c) (ht : Inert t) : Inert (s ++ t) where
  opens := (opens_append hs t).trans ht.opens
  last := by
    intro c hc
    rw [Option.mem_def, List.getLast?_append] at hc
    cases hlast : t.getLast? with
    | none =>
        rw [hlast] at hc
        exact (inert_of_harmless hs).last c hc
    | some d =>
        rw [hlast] at hc
        obtain rfl := Option.some_inj.mp hc
        exact ht.last d hlast

theorem harmless_of_isDigit {c : Char} (h : c.isDigit = true) : Harmless c :=
  harmless_of_isIdChar (isIdChar_of_isDigit h)

theorem isXDigit_harmless {c : Char} (h : isXDigit c = true) : Harmless c := by
  simp only [isXDigit, Bool.or_eq_true, Bool.and_eq_true, isDigit_iff, decide_eq_true_eq,
    Char.le_def, UInt32.le_iff_toNat_le] at h
  have hval : c.val.toNat = c.toNat := rfl
  have ha : 'a'.val.toNat = 97 := rfl
  have hf : 'f'.val.toNat = 102 := rfl
  have hA : 'A'.val.toNat = 65 := rfl
  have hF : 'F'.val.toNat = 70 := rfl
  exact harmless_of_code (by omega)

/-- An exponent with the letters behind it. -/
theorem inert_exponent (s : Str) {wrong : Str} (hwrong : ∀ c ∈ wrong, Harmless c) :
    Inert ((exponent s).1 ++ wrong) := by
  have hdigits (t : Str) : ∀ c ∈ t.takeWhile Char.isDigit ++ wrong, Harmless c := by
    intro c hc
    rcases List.mem_append.mp hc with hc | hc
    · exact harmless_of_isDigit (List.mem_takeWhile_imp hc)
    · exact hwrong c hc
  unfold exponent
  split
  · next e rest =>
    split_ifs with he
    · have hharmless : Harmless e := by
        rcases he with rfl | rfl <;> exact harmless_of_code (by decide)
      split
      · next d rest' =>
        split_ifs with hd hsign
        · rw [List.cons_append]
          exact Inert.append (s := [e]) (List.forall_mem_singleton.mpr hharmless)
            (inert_of_harmless (hdigits _))
        · -- a sign is followed by a digit
          obtain ⟨hsign, hnext⟩ := hsign
          cases rest' with
          | nil => cases hnext
          | cons x rest' =>
              have hx : x.isDigit = true := hnext
              rw [List.cons_append, List.cons_append]
              refine Inert.append (s := [e]) (List.forall_mem_singleton.mpr hharmless) ?_
              have hinert := inert_of_harmless (hdigits (x :: rest'))
              rw [List.takeWhile_cons_of_pos hx, List.cons_append] at hinert ⊢
              refine ⟨?_, fun c hc => hinert.last c ?_⟩
              · rw [opens, hinert.opens, Bool.or_false]
                have hdash : x ≠ '-' := (harmless_of_isDigit hx).2.2.2.2.1
                rcases hsign with rfl | rfl
                · exact (harmless_of_code (by decide)).opensAt _
                · simp [opensAt, hdash]
              · rwa [Option.mem_def, List.getLast?_cons_cons] at hc
        · exact inert_of_harmless hwrong
      · exact inert_of_harmless hwrong
    · exact inert_of_harmless hwrong
  · exact inert_of_harmless hwrong

theorem inert_number {c : Char} (hc : c.isDigit = true ∨ c = '.') (s : Str) :
    Inert (numberToken c s).1.text := by
  have hfirst : Harmless c := by
    rcases hc with hc | rfl
    · exact harmless_of_isDigit hc
    · exact harmless_of_code (by decide)
  have hwrong (t : Str) : ∀ d ∈ t.takeWhile isIdChar, Harmless d := fun d hd =>
    harmless_of_isIdChar (List.mem_takeWhile_imp hd)
  show Inert (c :: (numberTail c s).1 ++ (numberTail c s).2.takeWhile isIdChar)
  rw [List.cons_append]
  refine Inert.append (s := [c]) (List.forall_mem_singleton.mpr hfirst) ?_
  unfold numberTail
  split_ifs with hhex hdot
  · refine Inert.append (fun d hd => ?_) (inert_of_harmless (hwrong _))
    rcases List.mem_append.mp hd with hd | hd
    · cases s with
      | nil => cases hd
      | cons x s =>
          obtain rfl := List.mem_singleton.mp hd
          rcases hhex.2.1 with h | h
          · obtain rfl := Option.some_inj.mp h
            exact harmless_of_code (by decide)
          · obtain rfl := Option.some_inj.mp h
            exact harmless_of_code (by decide)
    · have hx := List.mem_takeWhile_imp hd
      simp only [Bool.or_eq_true, decide_eq_true_eq] at hx
      rcases hx with hx | rfl
      · exact isXDigit_harmless hx
      · exact harmless_of_code (by decide)
  all_goals
    dsimp only
    rw [List.append_eq, List.append_assoc _ (exponent _).1 _]
    refine Inert.append (fun d hd => ?_) (inert_exponent _ (hwrong _))
    rcases List.mem_append.mp hd with hd | hd
    · have hx := List.mem_takeWhile_imp hd
      simp only [Bool.and_eq_true, Bool.or_eq_true, decide_eq_true_eq] at hx
      rcases hx.2 with hx | rfl
      · exact harmless_of_isDigit hx
      · exact harmless_of_code (by decide)
  · exact harmless_of_isDigit (List.mem_takeWhile_imp hd)
  · unfold fraction at hd
    split at hd
    · rcases List.mem_cons.mp hd with rfl | hd
      · exact harmless_of_code (by decide)
      · exact harmless_of_isDigit (List.mem_takeWhile_imp hd)
    · cases hd

theorem Cut.of_last {t r : Str} {c : Char} (hlast : t.getLast? = some c)
    (h : ∀ d ∈ r.head?, (isPart c = true → isPart d = false) ∧ ¬(c = '-' ∧ d = '-') ∧
      ¬(c = '/' ∧ d = '*')) : Cut t r := by
  intro x hx
  rw [Option.mem_def, hlast] at hx
  obtain rfl := Option.some_inj.mp hx
  exact h

/-- A character that is in no name, and that no comment begins or goes on with. -/
theorem cut_suffix (x : Char) (s : Str) :
    Cut (x :: '(' :: (parameterSuffix s).2.1) (parameterSuffix s).2.2 := by
  unfold parameterSuffix
  split
  · exact fun _ _ _ hd => by cases hd
  · next d behind heq =>
    split_ifs with hparen
    · refine Cut.of_last (c := ')') ?_ fun y _ =>
        ⟨fun h => absurd h (by decide), fun h => absurd h.1 (by decide),
          fun h => absurd h.1 (by decide)⟩
      rw [hparen, ← List.cons_append, ← List.cons_append, List.getLast?_concat]
    · -- the suffix ends before a space
      have hspace : isSpace d = true := by
        have hin : inSuffix d = false := head_dropWhile (p := inSuffix) (s := s) (by rw [heq]; rfl)
        simpa [inSuffix, hparen] using hin
      obtain ⟨hharmless, -⟩ := isSpace_skipped hspace
      have hpart : isPart d = false := by
        have hcode : d.toNat = 32 ∨ d.toNat = 9 ∨ d.toNat = 10 ∨ d.toNat = 13 ∨ d.toNat = 12 ∨
            d.toNat = 11 := by
          simp only [isSpace, isSpaceStart, Bool.or_eq_true, decide_eq_true_eq, eq_iff_code,
            or_assoc] at hspace
          exact hspace
        rw [← Bool.not_eq_true, isPart_iff, isWordStart_iff]
        omega
      intro c _ y hy
      obtain rfl := Option.some_inj.mp hy
      refine ⟨fun _ => hpart, fun h => hharmless.2.2.2.2.1 h.2, fun h => ?_⟩
      rw [h.2] at hspace
      exact absurd hspace (by decide)

/-- A parameter ends where no word goes on. -/
theorem cut_parameter (named : Bool) (s : Str) (x : Char) (hx : x ≠ '-' ∧ x ≠ '/') :
    Cut (x :: (parameterTail named s).2.1) (parameterTail named s).2.2 := by
  induction named, s using parameterTail.induct generalizing x with
  | case1 => exact fun _ _ _ hd => by cases hd
  | case2 named c rest h ih =>
      rw [parameterTail_idChar h]
      have hcut := ih c ⟨(harmless_of_isIdChar h).2.2.2.2.1, (harmless_of_isIdChar h).2.2.2.2.2⟩
      intro y hy
      rw [Option.mem_def, List.getLast?_cons_cons] at hy
      exact hcut y hy
  | case3 named c rest h hopen =>
      rw [parameterTail_open (Bool.eq_false_iff.mpr h) hopen, hopen.1]
      exact cut_suffix x rest
  | case4 named c h hopen =>
      rw [parameterTail_last (Bool.eq_false_iff.mpr h) hopen]
      refine cut_of_idChar (fun y hy => ?_) fun d hd => ?_
      · obtain rfl := Option.some_inj.mp hy
        exact hx
      · obtain rfl := Option.some_inj.mp hd
        exact isPart_of_not_isIdChar (Bool.eq_false_iff.mpr h)
  | case5 named c h hopen d rest hcolons ih =>
      rw [parameterTail_colons (Bool.eq_false_iff.mpr h) hopen hcolons]
      have hcut := ih ':' ⟨by decide, by decide⟩
      intro y hy
      rw [Option.mem_def, hcolons.1, hcolons.2, List.getLast?_cons_cons,
        List.getLast?_cons_cons] at hy
      exact hcut y hy
  | case6 named c h hopen d rest hcolons =>
      rw [parameterTail_end (Bool.eq_false_iff.mpr h) hopen hcolons]
      refine cut_of_idChar (fun y hy => ?_) fun y hy => ?_
      · obtain rfl := Option.some_inj.mp hy
        exact hx
      · obtain rfl := Option.some_inj.mp hy
        exact isPart_of_not_isIdChar (Bool.eq_false_iff.mpr h)

/-! ## In step -/

/-- Linter and SQLite take one step together. -/
theorem serverIdentifiers_step (c : Char) (rest : Str)
    (hplain : IsPlain (nextToken c rest).1) :
    serverIdentifiers (c :: rest) =
      shown (nextToken c rest).1 ++ serverIdentifiers (nextToken c rest).2 := by
  unfold nextToken at hplain ⊢
  revert hplain
  refine classOf_cases (motive := fun cls => IsPlain (tokenOf c rest cls).1 →
    serverIdentifiers (c :: rest) =
      shown (tokenOf c rest cls).1 ++ serverIdentifiers (tokenOf c rest cls).2)
    ?_ ?_ ?_ ?_ ?_ ?_ ?_ ?_ ?_ ?_ ?_ ?_ ?_ ?_
  · -- spaces
    intro hc _
    have hskipped : ∀ d ∈ c :: rest.takeWhile isSpace, Skipped d :=
      List.forall_mem_cons.mpr ⟨isSpace_skipped (by rw [isSpace, hc, Bool.true_or]), fun d hd =>
        isSpace_skipped (List.mem_takeWhile_imp hd)⟩
    have hrun := serverIdentifiers_skipped hskipped (rest.dropWhile isSpace)
    rw [List.cons_append, List.takeWhile_append_dropWhile] at hrun
    exact hrun
  · intro hc hnext _
    -- a dash that begins no comment
    exact identifiers_dash hc hnext
  · intro hc hnext _ _
    exact identifiers_comment proper_characters hc hnext
  · intro hc _
    exact identifiers_string proper_characters hc
  · intro hc _
    exact identifiers_name proper_characters hc
  · intro hc _
    exact identifiers_bracket proper_characters hc
  · -- the letter of a blob literal is a word, and its quote a string
    intro hc hnext _
    have hstart : isWordStart c.toNat = true := by
      rcases hc with rfl | rfl <;> decide
    cases rest with
    | nil => cases hnext
    | cons d rest =>
        obtain rfl := Option.some_inj.mp hnext
        have hwords : words [c] = [[c]] := by
          rw [words, if_pos hstart, List.takeWhile_nil, List.dropWhile_nil, words]
        show _ = words [c] ++ serverIdentifiers (rest.dropWhile (· != '\'')).tail
        rw [hwords, ← serverIdentifiers_blob]
        refine (identifiers_word proper_characters hstart).trans ?_
        have hpart : isWordPart (characters.code '\'') = false := by decide
        rw [List.takeWhile_cons_of_neg (by simp [hpart]),
          List.dropWhile_cons_of_neg (by simp [hpart])]
        exact congrArg ([c] :: ·) (identifiers_string proper_characters rfl)
  · intro hc _
    -- a word is an identifier as it stands
    exact serverIdentifiers_word hc rest
  · -- a number with the letters behind it
    intro hc _
    have hinert := inert_number hc rest
    have hcut : Cut (numberToken c rest).1.text (numberToken c rest).2 :=
      cut_of_idChar hinert.last fun d hd => isPart_of_not_isIdChar (head_dropWhile hd)
    have happend : (numberToken c rest).1.text ++ (numberToken c rest).2 = c :: rest := by
      show c :: (numberTail c rest).1 ++ (numberTail c rest).2.takeWhile isIdChar ++
        (numberTail c rest).2.dropWhile isIdChar = _
      rw [List.append_assoc, List.takeWhile_append_dropWhile, List.cons_append,
        numberTail_append]
    rw [← happend]
    exact serverIdentifiers_plain hinert.opens hcut
  · -- a numbered parameter
    intro hc _
    have hskipped : ∀ d ∈ c :: rest.takeWhile Char.isDigit, Skipped d := by
      refine List.forall_mem_cons.mpr ⟨?_, fun d hd => isDigit_skipped (List.mem_takeWhile_imp hd)⟩
      rw [hc]
      exact ⟨harmless_of_code (by decide), by decide⟩
    have hrun := serverIdentifiers_skipped hskipped (rest.dropWhile Char.isDigit)
    rw [List.cons_append, List.takeWhile_append_dropWhile] at hrun
    show _ = words (c :: rest.takeWhile Char.isDigit) ++ _
    rw [words_skipped hskipped]
    exact hrun
  · -- a named parameter
    intro hc hplain
    have hmark : c ≠ '-' ∧ c ≠ '/' := by
      rcases hc with rfl | rfl | rfl | rfl <;> decide
    have happend : c :: (parameterTail false rest).2.1 ++ (parameterTail false rest).2.2 =
        c :: rest := congrArg (c :: ·) (parameterTail_append false rest)
    rw [← happend]
    exact serverIdentifiers_plain (hplain rfl) (cut_parameter false rest c hmark)
  · intro hc hnext _
    refine identifiers_passed ?_ (fun h => hnext h.2) fun h => ?_
    · rw [hc]
      exact ⟨by decide, by decide, by decide, by decide, by decide⟩
    · rw [hc] at h
      exact absurd h.1 (by decide)
  · intro hc hnext _
    by_cases hstar : rest.head? = some '*'
    · -- the mark of a comment at the end of the text
      have htail : rest.tail = [] := by
        by_contra htail
        exact hnext ⟨hstar, htail⟩
      have hrest : rest = ['*'] := by
        cases rest with
        | nil => cases hstar
        | cons d rest =>
            obtain rfl := Option.some_inj.mp hstar
            obtain rfl : rest = [] := htail
            rfl
      refine (identifiers_comment proper_characters hc hstar).trans ?_
      rw [htail, hrest]
      refine Eq.symm (identifiers_passed ?_ ?_ ?_)
      · exact ⟨by decide, by decide, by decide, by decide, by decide⟩
      · exact fun h => absurd h.1 (by decide)
      · exact fun h => absurd h.1 (by decide)
    · refine identifiers_passed ?_ (fun h => ?_) fun h => hstar h.2
      · rw [hc]
        exact ⟨by decide, by decide, by decide, by decide, by decide⟩
      · rw [hc] at h
        exact absurd h.1 (by decide)
  · intro hid hdash hslash hquote hdouble hback hbracket _
    exact identifiers_passed
      ⟨hquote, hdouble, hback, hbracket, isWordStart_of_not_isIdStart hid⟩
      (fun h => hdash h.1) fun h => hslash h.1

theorem serverIdentifiers_eq {s : Str} (h : ∀ tok ∈ tokens s, IsPlain tok) :
    serverIdentifiers s = (tokens s).flatMap shown := by
  induction s using tokens.induct with
  | case1 =>
      rw [tokens, serverIdentifiers, identifiers]
      rfl
  | case2 c rest ih =>
      rw [tokens] at h ⊢
      obtain ⟨hplain, hrest⟩ := List.forall_mem_cons.mp h
      rw [List.flatMap_cons, serverIdentifiers_step c rest hplain, ih hrest]

/-! ## A text that goes on -/

/-- The comment is closed with text behind it, or nothing is. -/
theorem afterComment_append (s r : Str) :
    afterComment '*' '/' (s ++ r) = afterComment '*' '/' s ++ r ∨ afterComment '*' '/' s = [] := by
  induction s using afterComment.induct '*' '/' with
  | case1 => exact .inr rfl
  | case2 => exact .inr rfl
  | case3 c d rest h =>
      rw [List.cons_append, List.cons_append, afterComment, afterComment, if_pos h, if_pos h]
      exact .inl rfl
  | case4 c d rest h ih =>
      rw [List.cons_append, List.cons_append, afterComment, afterComment, if_neg h, if_neg h]
      exact ih

/-- The quote is closed with text behind it, or its content may go on. -/
theorem quoted_append (close : Char) (doubled : Bool) (s r : Str) :
    ((quoted close doubled (s ++ r)).1 = (quoted close doubled s).1 ∧
        (quoted close doubled (s ++ r)).2 = (quoted close doubled s).2 ++ r) ∨
      ((quoted close doubled s).1 <+: (quoted close doubled (s ++ r)).1 ∧
        (quoted close doubled s).2 = []) := by
  induction s using @quoted_induction _ _ close doubled with
  | nil => exact .inr ⟨List.nil_prefix, rfl⟩
  | other c rest h ih =>
      rw [List.cons_append, quoted_other h, quoted_other h]
      refine ih.imp (fun h => ⟨congrArg (c :: ·) h.1, h.2⟩) fun h => ⟨?_, h.2⟩
      exact List.cons_prefix_cons.mpr ⟨rfl, h.1⟩
  | last =>
      rw [quoted_last]
      exact .inr ⟨List.nil_prefix, rfl⟩
  | twice d rest h ih =>
      rw [List.cons_append, List.cons_append, quoted_doubled h, quoted_doubled h]
      refine ih.imp (fun h => ⟨congrArg (close :: ·) h.1, h.2⟩) fun h => ⟨?_, h.2⟩
      exact List.cons_prefix_cons.mpr ⟨rfl, h.1⟩
  | behind d rest h =>
      rw [List.cons_append, List.cons_append, quoted_end h, quoted_end h]
      exact .inl ⟨rfl, rfl⟩

/-- A run ends in the text, or may go on. -/
theorem while_append (p : Char → Bool) (s r : Str) :
    ((s ++ r).takeWhile p = s.takeWhile p ∧ (s ++ r).dropWhile p = s.dropWhile p ++ r) ∨
      (s.takeWhile p <+: (s ++ r).takeWhile p ∧ s.dropWhile p = []) := by
  by_cases hall : ∀ c ∈ s, p c = true
  · refine .inr ⟨?_, List.dropWhile_eq_nil_iff.mpr hall⟩
    rw [List.takeWhile_eq_self_iff.mpr hall, List.takeWhile_append_of_pos hall]
    exact List.prefix_append _ _
  · exact .inl (while_cut fun h => (hall h).elim)

/-- What is found in a text begins an identifier of the text that goes on. -/
theorem serverIdentifiers_append {s : Str} (r : Str) {w : Str} (h : w ∈ serverIdentifiers s) :
    ∃ w' ∈ serverIdentifiers (s ++ r), w <+: w' := by
  unfold serverIdentifiers at h ⊢
  have hnil : w ∉ identifiers characters [] := by
    rw [identifiers]
    exact List.not_mem_nil
  have hhead {t : Str} {d : Char} (ht : t.head? = some d) : (t ++ r).head? = some d := by
    rw [List.head?_append, ht]
    rfl
  induction s using identifiers.induct characters with
  | case1 => exact (hnil h).elim
  | case2 c rest hc ih =>
      rw [identifiers_dash hc.1 hc.2] at h
      rw [List.cons_append, identifiers_dash hc.1 (hhead hc.2)]
      rcases while_append (· != characters.mark '\n') rest r with ⟨-, hdrop⟩ | ⟨-, hempty⟩
      · rw [hdrop]
        exact ih h
      · rw [hempty] at h
        exact (hnil h).elim
  | case3 c rest _ hc ih =>
      rw [identifiers_comment proper_characters hc.1 hc.2] at h
      have htail : (rest ++ r).tail = rest.tail ++ r := by
        cases rest with
        | nil => exact absurd hc.2.symm (Option.some_ne_none _)
        | cons d rest => rfl
      rw [List.cons_append, identifiers_comment proper_characters hc.1 (hhead hc.2), htail]
      rcases afterComment_append rest.tail r with happend | hempty
      · rw [show afterComment (characters.mark '*') (characters.mark '/') (rest.tail ++ r) =
          afterComment (characters.mark '*') (characters.mark '/') rest.tail ++ r from happend]
        exact ih h
      · rw [show afterComment (characters.mark '*') (characters.mark '/') rest.tail = []
          from hempty] at h
        exact (hnil h).elim
  | case4 rest _ _ ih =>
      rw [identifiers_string proper_characters rfl] at h
      rw [List.cons_append, identifiers_string proper_characters rfl]
      rcases quoted_append (characters.mark '\'') true rest r with ⟨-, happend⟩ | ⟨-, hempty⟩
      · rw [happend]
        exact ih h
      · rw [hempty] at h
        exact (hnil h).elim
  | case5 c rest _ _ _ hc ih =>
      rw [identifiers_name proper_characters hc] at h
      rw [List.cons_append, identifiers_name proper_characters hc]
      rcases quoted_append c true rest r with ⟨hcontent, happend⟩ | ⟨hcontent, hempty⟩
      · rw [hcontent, happend]
        rcases List.mem_cons.mp h with rfl | h
        · exact ⟨_, List.mem_cons_self, List.prefix_rfl⟩
        · obtain ⟨w', hw', hstarts⟩ := ih h
          exact ⟨w', List.mem_cons_of_mem _ hw', hstarts⟩
      · rw [hempty] at h
        rcases List.mem_cons.mp h with rfl | h
        · exact ⟨_, List.mem_cons_self, hcontent⟩
        · exact (hnil h).elim
  | case6 rest _ _ _ _ ih =>
      rw [identifiers_bracket proper_characters rfl] at h
      rw [List.cons_append, identifiers_bracket proper_characters rfl]
      rcases quoted_append (characters.mark ']') false rest r with ⟨hcontent, happend⟩ |
        ⟨hcontent, hempty⟩
      · rw [hcontent, happend]
        rcases List.mem_cons.mp h with rfl | h
        · exact ⟨_, List.mem_cons_self, List.prefix_rfl⟩
        · obtain ⟨w', hw', hstarts⟩ := ih h
          exact ⟨w', List.mem_cons_of_mem _ hw', hstarts⟩
      · rw [hempty] at h
        rcases List.mem_cons.mp h with rfl | h
        · exact ⟨_, List.mem_cons_self, hcontent⟩
        · exact (hnil h).elim
  | case7 c rest _ _ _ _ _ hc ih =>
      rw [identifiers_word proper_characters hc] at h
      rw [List.cons_append, identifiers_word proper_characters hc]
      rcases while_append (fun d => isWordPart (characters.code d)) rest r with
        ⟨htake, hdrop⟩ | ⟨htake, hempty⟩
      · rw [htake, hdrop]
        rcases List.mem_cons.mp h with rfl | h
        · exact ⟨_, List.mem_cons_self, List.prefix_rfl⟩
        · obtain ⟨w', hw', hstarts⟩ := ih h
          exact ⟨w', List.mem_cons_of_mem _ hw', hstarts⟩
      · rw [hempty] at h
        rcases List.mem_cons.mp h with rfl | h
        · exact ⟨_, List.mem_cons_self, List.cons_prefix_cons.mpr ⟨rfl, htake⟩⟩
        · exact (hnil h).elim
  | case8 c rest hdash hslash hquote hname hbracket hword ih =>
      have hpassed : Passed characters c :=
        ⟨hquote, fun h => hname (.inl h), fun h => hname (.inr h), hbracket, by simpa using hword⟩
      rw [identifiers_passed hpassed hdash hslash] at h
      cases rest with
      | nil => exact (hnil h).elim
      | cons d rest =>
          have hstep : identifiers characters (c :: d :: (rest ++ r)) =
              identifiers characters (d :: (rest ++ r)) := identifiers_passed hpassed hdash hslash
          rw [List.cons_append, List.cons_append, hstep]
          exact ih h

/-! ## What passes -/

section Names

variable (nameOnly : List Token → Nat → Bool)

/-- SQLite takes the word for a name: an identifier, or a string where its grammar has only a
name (`nameOnly` of the tokens and a place among them). -/
def IsName (s w : Str) : Prop :=
  ∃ i tok, (legalTokens s)[i]? = some tok ∧ tok.text = w ∧
    (tok.kind = .bareName ∨ tok.kind = .quotedName ∨
      tok.kind = .string ∧ nameOnly (legalTokens s) i = true)

/-- No parameter has a quote or a comment in its suffix. -/
def InStep (s : Str) : Prop := ∀ tok ∈ tokens (readable s), IsPlain tok

/-- A token that is no string shows an internal word. -/
def ShowsInternal (s : Str) : Prop :=
  ∃ tok ∈ tokens (readable s), ∃ w ∈ shown tok, IsInternal w

/-- No string in the place of a name is an internal one. -/
def StringsOrdinary (s : Str) : Prop :=
  ∀ i tok, (legalTokens s)[i]? = some tok → tok.kind = .string →
    nameOnly (legalTokens s) i = true → ¬IsInternal tok.text

/-- The linters agree on a text, and if it passes no internal name is in it. -/
structure Guarded (l : LowerCase) (s : Str) : Prop where
  identifiers : sqlIdentifiers (Str.encodeUtf16 s) = (serverIdentifiers s).map Str.encodeUtf16
  rejected : (∃ ident, lint l (Str.encodeUtf16 s) = .error ident) ↔
    ∃ ident ∈ serverIdentifiers s, lintIdentifier ident = some (.crsqlite ident) ∨
      lintIdentifier ident = some (.sqlite ident)
  names : lint l (Str.encodeUtf16 s) = .ok () ∨ lintSql s = .ok () →
    ∀ w, IsName nameOnly s w → ¬IsInternal w

variable {nameOnly}

theorem IsInternal.of_prefix {w w' : Str} (hstarts : w <+: w') (h : IsInternal w) :
    IsInternal w' := by
  have hlower : Str.lower w <+: Str.lower w' := hstarts.map Char.toLower
  exact h.imp (·.trans hlower) (·.trans hlower)

/-- A text passes one of the linters only without an internal identifier. -/
theorem no_internal_of_passed {l : LowerCase} {s : Str}
    (h : lint l (Str.encodeUtf16 s) = .ok () ∨ lintSql s = .ok ()) :
    ∀ ident ∈ serverIdentifiers s, ¬IsInternal ident := by
  intro ident hident hinternal
  rcases h with h | h
  · obtain ⟨e, he⟩ := (lint_error_iff l s).mpr ⟨ident, hident, hinternal⟩
    rw [he] at h
    cases h
  · unfold lintSql at h
    split at h
    · cases h
    · next hnone =>
      have hpass := List.findSome?_eq_none_iff.mp hnone ident hident
      rcases (lintIdentifier_iff ident).mpr hinternal with hsome | hsome
      · rw [hpass] at hsome
        cases hsome
      · rw [hpass] at hsome
        cases hsome

theorem mem_tokens_of_legal {s : Str} {i : Nat} {tok : Token}
    (h : (legalTokens s)[i]? = some tok) : tok ∈ tokens (readable s) :=
  (List.takeWhile_prefix _).subset (List.mem_of_getElem? h)

/-- A letter is a letter in either case. -/
theorem isWordStart_of_toLower {c : Char} (h : isWordStart c.toLower.toNat = true) :
    isWordStart c.toNat = true := by
  by_cases hupper : c.val ≥ 'A'.val ∧ c.val ≤ 'Z'.val
  · have hlow : 65 ≤ c.toNat := UInt32.le_iff_toNat_le.mp hupper.1
    have hhigh : c.toNat ≤ 90 := UInt32.le_iff_toNat_le.mp hupper.2
    rw [isWordStart_iff]
    omega
  · rwa [show c.toLower = c from dif_neg hupper] at h

theorem isPart_of_toLower {c : Char} (h : isPart c.toLower = true) : isPart c = true := by
  by_cases hupper : c.val ≥ 'A'.val ∧ c.val ≤ 'Z'.val
  · have hlow : 65 ≤ c.toNat := UInt32.le_iff_toNat_le.mp hupper.1
    have hhigh : c.toNat ≤ 90 := UInt32.le_iff_toNat_le.mp hupper.2
    rw [isPart_iff, isWordStart_iff]
    omega
  · rwa [show c.toLower = c from dif_neg hupper] at h

/-- A front of word characters is in the first word. -/
theorem prefix_takeWhile {p w : Str} (hp : ∀ c ∈ p, isPart c = true) (h : p <+: Str.lower w) :
    p <+: Str.lower (w.takeWhile isPart) := by
  induction p generalizing w with
  | nil => exact List.nil_prefix
  | cons x p ih =>
      obtain ⟨hx, hfront⟩ := List.forall_mem_cons.mp hp
      cases w with
      | nil => exact absurd (List.prefix_nil.mp h) (List.cons_ne_nil x p)
      | cons c w =>
          obtain ⟨rfl, htail⟩ := List.cons_prefix_cons.mp h
          rw [List.takeWhile_cons_of_pos (isPart_of_toLower hx)]
          exact List.cons_prefix_cons.mpr ⟨rfl, ih hfront htail⟩

/-- An internal bare name shows an internal word. -/
theorem words_of_internal {w : Str} (h : IsInternal w) : ∃ v ∈ words w, IsInternal v := by
  have hfirst {x : Char} {p : Str} (hx : isWordStart x.toNat = true)
      (hp : ∀ c ∈ x :: p, isPart c = true) (hstarts : x :: p <+: Str.lower w) :
      ∃ v ∈ words w, x :: p <+: Str.lower v := by
    cases w with
    | nil => exact absurd (List.prefix_nil.mp hstarts) (List.cons_ne_nil x p)
    | cons c w =>
        have hstart : isWordStart c.toNat = true := by
          obtain ⟨rfl, -⟩ := List.cons_prefix_cons.mp hstarts
          exact isWordStart_of_toLower hx
        have hword := prefix_takeWhile hp hstarts
        rw [List.takeWhile_cons_of_pos (isPart_of_start hstart)] at hword
        refine ⟨_, ?_, hword⟩
        rw [words, if_pos hstart]
        exact List.mem_cons_self
  rcases h with h | h
  · obtain ⟨v, hv, hstarts⟩ := hfirst (by decide) (by simp; decide) h
    exact ⟨v, hv, .inl hstarts⟩
  · obtain ⟨v, hv, hstarts⟩ := hfirst (by decide) (by simp; decide) h
    exact ⟨v, hv, .inr hstarts⟩

/-- In step with SQLite an internal name that is no string is found. -/
theorem showsInternal_of_name {s : Str} {tok : Token} (htok : tok ∈ tokens (readable s))
    (hkind : tok.kind = .bareName ∨ tok.kind = .quotedName) (h : IsInternal tok.text) :
    ShowsInternal s := by
  rcases hkind with hkind | hkind
  · obtain ⟨v, hv, hinternal⟩ := words_of_internal h
    refine ⟨tok, htok, v, ?_, hinternal⟩
    rw [shown, hkind]
    exact hv
  · refine ⟨tok, htok, tok.text, ?_, h⟩
    rw [shown, hkind]
    exact List.mem_singleton_self _

/-- What is shown is found by the linters, also if SQLite reads a part of the text only. -/
theorem internal_of_shown {s : Str} (hstep : InStep s) (h : ShowsInternal s) :
    ∃ ident ∈ serverIdentifiers s, IsInternal ident := by
  obtain ⟨tok, htok, w, hw, hinternal⟩ := h
  have hfound : w ∈ serverIdentifiers (readable s) := by
    rw [serverIdentifiers_eq hstep]
    exact List.mem_flatMap.mpr ⟨tok, htok, hw⟩
  obtain ⟨w', hw', hstarts⟩ := serverIdentifiers_append (s.dropWhile (· != Char.ofNat 0)) hfound
  rw [readable, List.takeWhile_append_dropWhile] at hw'
  exact ⟨w', hw', hinternal.of_prefix hstarts⟩

/-- A text whose parameters hide nothing is guarded if an internal word is shown or no string
is an internal name, and without a null character only then. -/
theorem guarded_iff (nameOnly : List Token → Nat → Bool) (l : LowerCase) (s : Str) :
    (InStep s ∧ (ShowsInternal s ∨ StringsOrdinary nameOnly s) → Guarded nameOnly l s) ∧
      (InStep s → Char.ofNat 0 ∉ s → Guarded nameOnly l s →
        ShowsInternal s ∨ StringsOrdinary nameOnly s) := by
  have hrejected : (∃ ident, lint l (Str.encodeUtf16 s) = .error ident) ↔
      ∃ ident ∈ serverIdentifiers s, lintIdentifier ident = some (.crsqlite ident) ∨
        lintIdentifier ident = some (.sqlite ident) := by
    rw [lint_error_iff]
    exact exists_congr fun ident => and_congr_right fun _ => (lintIdentifier_iff ident).symm
  constructor
  · rintro ⟨hstep, hcond⟩
    refine ⟨sqlIdentifiers_encode s, hrejected, fun hpass w hname hinternal => ?_⟩
    have hclean := no_internal_of_passed hpass
    have hnotShown : ¬ShowsInternal s := fun hshown =>
      let ⟨ident, hident, h⟩ := internal_of_shown hstep hshown
      hclean ident hident h
    obtain ⟨i, tok, htok, rfl, hkind⟩ := hname
    rcases hkind with hkind | hkind | ⟨hkind, honly⟩
    · exact hnotShown (showsInternal_of_name (mem_tokens_of_legal htok) (.inl hkind) hinternal)
    · exact hnotShown (showsInternal_of_name (mem_tokens_of_legal htok) (.inr hkind) hinternal)
    · exact hcond.resolve_left hnotShown i tok htok hkind honly hinternal
  · intro hstep hnull hguarded
    by_contra hcond
    obtain ⟨hnotShown, hstrings⟩ := not_or.mp hcond
    -- nothing is found, so the text passes
    have hreadable : readable s = s :=
      List.takeWhile_eq_self_iff.mpr fun c hc => by
        simp only [bne_iff_ne, ne_eq]
        rintro rfl
        exact hnull hc
    have hpass : lint l (Str.encodeUtf16 s) = .ok () := by
      cases hlint : lint l (Str.encodeUtf16 s) with
      | ok u => rfl
      | error e =>
          obtain ⟨ident, hident, hinternal⟩ := (lint_error_iff l s).mp ⟨e, hlint⟩
          have hall := serverIdentifiers_eq hstep
          rw [hreadable] at hall
          rw [hall, List.mem_flatMap] at hident
          obtain ⟨tok, htok, hw⟩ := hident
          exact (hnotShown ⟨tok, hreadable.symm ▸ htok, ident, hw, hinternal⟩).elim
    refine hstrings fun i tok htok hkind honly => ?_
    exact hguarded.names (.inl hpass) tok.text ⟨i, tok, htok, rfl, .inr (.inr ⟨hkind, honly⟩)⟩

end Names

/-- No character beyond ASCII has a lower case of its own. -/
def plainLowerCase : LowerCase where
  image := fun _ c _ => [c]
  beyond := fun _ c _ h => .inr (.inr ⟨c, [], rfl, h⟩)

/-- The token is behind `FROM` and spaces. -/
def behindFrom (toks : List Token) (i : Nat) : Bool :=
  match (toks.take i).reverse.dropWhile (fun tok => tok.kind = .space) with
  | tok :: _ => tok.kind = .bareName && tok.text = "FROM".toList
  | [] => false

/-- A text that reads an internal table, whose name is a string. -/
def stringTable : Str := "SELECT * FROM 'sqlite_master'".toList

/-- The suffix of the parameter has a quote, which the linters take for the begin of a
string up to the end of the text. -/
def hiddenTable : Str := "SELECT $a('), name FROM sqlite_master --'".toList

theorem not_guarded :
    ¬Guarded behindFrom plainLowerCase stringTable ∧
      ¬Guarded behindFrom plainLowerCase hiddenTable := by
  have hpass : ∀ s : Str, (∀ ident ∈ serverIdentifiers s, ¬IsInternal ident) →
      lint plainLowerCase (Str.encodeUtf16 s) = .ok () := by
    intro s hclean
    cases hlint : lint plainLowerCase (Str.encodeUtf16 s) with
    | ok u => rfl
    | error e =>
        obtain ⟨ident, hident, hinternal⟩ := (lint_error_iff plainLowerCase s).mp ⟨e, hlint⟩
        exact (hclean ident hident hinternal).elim
  refine ⟨fun h => ?_, fun h => ?_⟩
  · have hfound : serverIdentifiers stringTable = ["SELECT".toList, "FROM".toList] := by
      decide +kernel
    refine h.names (.inl (hpass _ ?_)) "sqlite_master".toList
      ⟨6, ⟨.string, true, "sqlite_master".toList⟩, ?_, rfl, .inr (.inr ⟨rfl, ?_⟩)⟩ ?_
    · rw [hfound]
      unfold IsInternal
      decide +kernel
    · decide +kernel
    · decide +kernel
    · unfold IsInternal
      decide +kernel
  · have hfound : serverIdentifiers hiddenTable = ["SELECT".toList, "a".toList] := by
      decide +kernel
    refine h.names (.inl (hpass _ ?_)) "sqlite_master".toList
      ⟨9, ⟨.bareName, true, "sqlite_master".toList⟩, ?_, rfl, .inl rfl⟩ ?_
    · rw [hfound]
      unfold IsInternal
      decide +kernel
    · decide +kernel
    · unfold IsInternal
      decide +kernel

end Realtime.PluginDb
