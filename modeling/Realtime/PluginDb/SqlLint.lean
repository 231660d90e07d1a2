import Realtime.Lib.SqlText

/-!
# The linters of plugin SQL

`lint_sql` of `server/src/plugindb.rs` and `lint` of `src/pluginDb/SyncedPluginDatabase.ts`.
Both look for identifiers outside of strings and comments that begin with `crsql_` or
`sqlite_`, and find the same. SQLite takes a string for a name where only a name may stand,
and takes any text in the suffix of a parameter, which the linters know nothing of.
-/

namespace Realtime.PluginDb

open Lib Lib.Sql
open Lib.Utf16 (JsString)

/-! ## Identifiers -/

/-- `[A-Za-z_]` -/
def isWordStart (n : Nat) : Bool := (65 ≤ n && n ≤ 90) || (97 ≤ n && n ≤ 122) || n = 95

/-- `[A-Za-z0-9_$]` -/
def isWordPart (n : Nat) : Bool := isWordStart n || (48 ≤ n && n ≤ 57) || n = 36

/-- The characters of the server, or the code units of the client. -/
structure Alphabet (α : Type) where
  mark : Char → α
  code : α → Nat

def characters : Alphabet Char := ⟨id, Char.toNat⟩

def codeUnits : Alphabet UInt16 := ⟨fun c => UInt16.ofNat c.toNat, UInt16.toNat⟩

section Identifiers

variable {α : Type} [DecidableEq α]

/-- The scan that server and client have in common. -/
def identifiers (a : Alphabet α) : List α → List (List α)
  | [] => []
  | c :: rest =>
      if c = a.mark '-' ∧ rest.head? = some (a.mark '-') then
        identifiers a (rest.dropWhile (· != a.mark '\n'))
      else if c = a.mark '/' ∧ rest.head? = some (a.mark '*') then
        identifiers a (afterComment (a.mark '*') (a.mark '/') rest.tail)
      else if c = a.mark '\'' then identifiers a (quoted (a.mark '\'') true rest).2
      else if c = a.mark '"' ∨ c = a.mark '`' then
        (quoted c true rest).1 :: identifiers a (quoted c true rest).2
      else if c = a.mark '[' then
        (quoted (a.mark ']') false rest).1 :: identifiers a (quoted (a.mark ']') false rest).2
      else if isWordStart (a.code c) then
        (c :: rest.takeWhile fun d => isWordPart (a.code d)) ::
          identifiers a (rest.dropWhile fun d => isWordPart (a.code d))
      else identifiers a rest
termination_by s => s.length
decreasing_by
  all_goals
    simp only [List.length_cons]
    refine Nat.lt_succ_of_le ?_
    first
      | exact (List.dropWhile_sublist _).length_le
      | exact (length_afterComment _ _ _).trans (List.tail_sublist rest).length_le
      | exact length_quoted _ _ _
      | exact le_rfl

end Identifiers

/-- `sql_identifiers` -/
def serverIdentifiers (sql : Str) : List Str := identifiers characters sql

/-- `sqlIdentifiers` -/
def sqlIdentifiers (sql : JsString) : List JsString := identifiers codeUnits sql

/-! ## The linters -/

inductive LintError where
  | crsqlite (ident : Str)
  | sqlite (ident : Str)
  | outbox (ident : Str)

/-- What `lint_sql` says of one identifier. -/
def lintIdentifier (ident : Str) : Option LintError :=
  let lower := Str.lower ident
  if "crsql_".toList.isPrefixOf lower then some (.crsqlite ident)
  else if "sqlite_".toList.isPrefixOf lower then some (.sqlite ident)
  else if lower = "realtime_server".toList ∨ lower = "publish_outbox".toList then
    some (.outbox ident)
  else none

/-- `lint_sql` -/
def lintSql (sql : Str) : Except LintError Unit :=
  match (serverIdentifiers sql).findSome? lintIdentifier with
  | some e => .error e
  | none => .ok ()

/-- The lower case of the characters beyond ASCII, which may depend on what stands around
them. Only those of the Kelvin sign and of the dotted capital I begin in ASCII. -/
structure LowerCase where
  image : Str → Char → Str → Str
  beyond : ∀ before c after, 128 ≤ c.toNat →
    (c.toNat = 0x212A ∧ image before c after = ['k']) ∨
    (c.toNat = 0x130 ∧ image before c after = ['i', Char.ofNat 0x307]) ∨
    ∃ d rest, image before c after = d :: rest ∧ 128 ≤ d.toNat

/-- `toLowerCase` from a place in the text on. -/
def toLowerCase (l : LowerCase) : Str → Str → Str
  | _, [] => []
  | before, c :: after =>
      (if c.toNat < 128 then [c.toLower] else l.image before c after) ++
        toLowerCase l (before ++ [c]) after

/-- `lint`; the error is the identifier it names. -/
def lint (l : LowerCase) (sql : JsString) : Except JsString Unit :=
  let isInternal (ident : JsString) :=
    let lower := Str.encodeUtf16 (toLowerCase l [] (Str.fromUtf16Lossy ident))
    (Str.encodeUtf16 "crsql_".toList).isPrefixOf lower ||
      (Str.encodeUtf16 "sqlite_".toList).isPrefixOf lower
  match (sqlIdentifiers sql).find? isInternal with
  | some ident => .error ident
  | none => .ok ()

/-- The identifier begins with `crsql_` or `sqlite_`, in any letter case. -/
def IsInternal (ident : Str) : Prop :=
  "crsql_".toList <+: Str.lower ident ∨ "sqlite_".toList <+: Str.lower ident

/-! ## Code units -/

theorem code_of_ascii {c : Char} (h : c.toNat < 128) :
    Str.units c = [codeUnits.mark c] ∧ codeUnits.code (codeUnits.mark c) = c.toNat :=
  ⟨if_pos (by omega), UInt16.toNat_ofNat_of_lt' (by show _ < 65536; omega)⟩

theorem code_of_beyond {c : Char} (h : 128 ≤ c.toNat) :
    ∀ u ∈ Str.units c, 128 ≤ codeUnits.code u := by
  have hc := Str.toNat_lt c
  have hcode (n : Nat) (hn : n < 65536) : codeUnits.code (UInt16.ofNat n) = n :=
    UInt16.toNat_ofNat_of_lt' hn
  intro u hu
  unfold Str.units at hu
  split at hu
  · rw [List.mem_singleton.mp hu, hcode _ (by assumption)]
    exact h
  · rcases List.mem_cons.mp hu with rfl | hu
    · rw [hcode _ (by omega)]
      omega
    · rw [List.mem_singleton.mp hu, hcode _ (by omega)]
      omega

/-- A code unit is an ASCII mark if the character is. -/
theorem unit_eq_mark_iff {m : Char} (hm : m.toNat < 128) {c : Char} {u : UInt16}
    (hu : u ∈ Str.units c) : u = codeUnits.mark m ↔ c = m := by
  by_cases hc : c.toNat < 128
  · rw [(code_of_ascii hc).1, List.mem_singleton] at hu
    subst hu
    constructor
    · intro h
      have hcode := congrArg codeUnits.code h
      rw [(code_of_ascii hc).2, (code_of_ascii hm).2] at hcode
      exact Char.toNat_inj.mp hcode
    · exact congrArg codeUnits.mark
  · have hbeyond := code_of_beyond (not_lt.mp hc) u hu
    constructor
    · rintro rfl
      rw [(code_of_ascii hm).2] at hbeyond
      omega
    · rintro rfl
      omega

/-- What is asked of the code alone is asked of the character. -/
theorem code_unit {p : Nat → Bool} (hp : ∀ n, 128 ≤ n → p n = false) {c : Char} {u : UInt16}
    (hu : u ∈ Str.units c) : p (codeUnits.code u) = p c.toNat := by
  by_cases hc : c.toNat < 128
  · rw [(code_of_ascii hc).1, List.mem_singleton] at hu
    rw [hu, (code_of_ascii hc).2]
  · rw [hp _ (not_lt.mp hc), hp _ (code_of_beyond (not_lt.mp hc) u hu)]

/-- A run of characters is a run of code units. -/
theorem while_encode {p : Char → Bool} {q : UInt16 → Bool}
    (h : ∀ c, ∀ u ∈ Str.units c, q u = p c) (s : Str) :
    (Str.encodeUtf16 s).takeWhile q = Str.encodeUtf16 (s.takeWhile p) ∧
      (Str.encodeUtf16 s).dropWhile q = Str.encodeUtf16 (s.dropWhile p) := by
  induction s with
  | nil => exact ⟨rfl, rfl⟩
  | cons c s ih =>
      rw [Str.encodeUtf16_cons]
      cases hc : p c with
      | true =>
          have hall : ∀ u ∈ Str.units c, q u = true := fun u hu => (h c u hu).trans hc
          rw [List.takeWhile_append_of_pos hall, List.dropWhile_append_of_pos hall, ih.1, ih.2,
            List.takeWhile_cons_of_pos hc, List.dropWhile_cons_of_pos hc, Str.encodeUtf16_cons]
          exact ⟨rfl, rfl⟩
      | false =>
          rw [List.takeWhile_cons_of_neg (by simp [hc]), List.dropWhile_cons_of_neg (by simp [hc]),
            Str.encodeUtf16_cons]
          cases hunits : Str.units c with
          | nil => exact (Str.units_ne_nil c hunits).elim
          | cons u us =>
              have hu : q u = false := (h c u (hunits ▸ List.mem_cons_self)).trans hc
              rw [List.cons_append, List.takeWhile_cons_of_neg (by simp [hu]),
                List.dropWhile_cons_of_neg (by simp [hu])]
              exact ⟨rfl, rfl⟩

theorem quoted_units {close : UInt16} {doubled : Bool} {us : JsString}
    (h : ∀ u ∈ us, u ≠ close) (rest : JsString) :
    quoted close doubled (us ++ rest) =
      (us ++ (quoted close doubled rest).1, (quoted close doubled rest).2) := by
  induction us with
  | nil => rfl
  | cons u us ih =>
      obtain ⟨hu, hus⟩ := List.forall_mem_cons.mp h
      rw [List.cons_append, quoted_other hu, ih hus, List.cons_append]

/-- A quote in code units has the content of the quote in characters. -/
theorem quoted_encode {close : Char} (hclose : close.toNat < 128) (doubled : Bool) (s : Str) :
    quoted (codeUnits.mark close) doubled (Str.encodeUtf16 s) =
      (Str.encodeUtf16 (quoted close doubled s).1, Str.encodeUtf16 (quoted close doubled s).2) := by
  have hunits : Str.units close = [codeUnits.mark close] := (code_of_ascii hclose).1
  induction s using @quoted_induction _ _ close doubled with
  | nil => rfl
  | other c rest h ih =>
      have hne : ∀ u ∈ Str.units c, u ≠ codeUnits.mark close := fun u hu =>
        mt (unit_eq_mark_iff hclose hu).mp h
      rw [Str.encodeUtf16_cons, quoted_units hne, ih, quoted_other h, Str.encodeUtf16_cons]
  | last =>
      rw [Str.encodeUtf16_cons, hunits, Str.encodeUtf16_nil, List.append_nil, quoted_last,
        quoted_last]
      rfl
  | twice d rest h ih =>
      rw [Str.encodeUtf16_cons, Str.encodeUtf16_cons, h.2, hunits, List.singleton_append,
        List.singleton_append, quoted_doubled ⟨h.1, rfl⟩, ih, quoted_doubled ⟨h.1, rfl⟩,
        Str.encodeUtf16_cons, hunits]
      rfl
  | behind d rest h =>
      rw [Str.encodeUtf16_cons, hunits, List.singleton_append, Str.encodeUtf16_cons, quoted_end h]
      cases hd : Str.units d with
      | nil => exact (Str.units_ne_nil d hd).elim
      | cons u us =>
          have hu : ¬(doubled ∧ u = codeUnits.mark close) := fun hboth =>
            h ⟨hboth.1, (unit_eq_mark_iff hclose (hd ▸ List.mem_cons_self)).mp hboth.2⟩
          rw [List.cons_append, quoted_end hu, Str.encodeUtf16_cons, hd]
          rfl

theorem afterComment_units {star slash : UInt16} {us : JsString} (h : ∀ u ∈ us, u ≠ star)
    (rest : JsString) : afterComment star slash (us ++ rest) = afterComment star slash rest := by
  induction us with
  | nil => rfl
  | cons u us ih =>
      obtain ⟨hu, hus⟩ := List.forall_mem_cons.mp h
      rw [← ih hus, List.cons_append]
      cases us ++ rest with
      | nil => rfl
      | cons v vs => exact if_neg fun hboth => hu hboth.1

theorem afterComment_encode (s : Str) :
    afterComment (codeUnits.mark '*') (codeUnits.mark '/') (Str.encodeUtf16 s) =
      Str.encodeUtf16 (afterComment '*' '/' s) := by
  have hstar : Str.units '*' = [codeUnits.mark '*'] := rfl
  have hslash : Str.units '/' = [codeUnits.mark '/'] := rfl
  have hpass {c : Char} (hc : c ≠ '*') (rest : JsString) :
      afterComment (codeUnits.mark '*') (codeUnits.mark '/') (Str.units c ++ rest) =
        afterComment (codeUnits.mark '*') (codeUnits.mark '/') rest :=
    afterComment_units (fun u hu => mt (unit_eq_mark_iff (by decide) hu).mp hc) rest
  induction s using afterComment.induct '*' '/' with
  | case1 => rfl
  | case2 c =>
      rw [Str.encodeUtf16_cons]
      by_cases hc : c = '*'
      · rw [hc]
        rfl
      · rw [hpass hc]
        rfl
  | case3 c d rest h =>
      rw [Str.encodeUtf16_cons, Str.encodeUtf16_cons, h.1, h.2, hstar, hslash, afterComment,
        if_pos ⟨rfl, rfl⟩]
      exact if_pos ⟨rfl, rfl⟩
  | case4 c d rest h ih =>
      rw [Str.encodeUtf16_cons, afterComment, if_neg h, ← ih]
      by_cases hc : c = '*'
      · rw [hc, hstar, List.singleton_append, Str.encodeUtf16_cons]
        cases hd : Str.units d with
        | nil => exact (Str.units_ne_nil d hd).elim
        | cons u us =>
            refine if_neg fun hboth => h ⟨hc, ?_⟩
            exact (unit_eq_mark_iff (by decide) (hd ▸ List.mem_cons_self)).mp hboth.2
      · exact hpass hc _

theorem isWordPart_beyond (n : Nat) (h : 128 ≤ n) : isWordPart n = false := by
  simp only [isWordPart, isWordStart, Bool.or_eq_false_iff, Bool.and_eq_false_iff,
    decide_eq_false_iff_not]
  omega

theorem isWordStart_beyond (n : Nat) (h : 128 ≤ n) : isWordStart n = false :=
  Bool.or_eq_false_iff.mp (Bool.or_eq_false_iff.mp (isWordPart_beyond n h)).1 |>.1

/-- The next code unit is an ASCII mark if the next character is. -/
theorem head_encode_iff {m : Char} (hm : m.toNat < 128) (s : Str) :
    (Str.encodeUtf16 s).head? = some (codeUnits.mark m) ↔ s.head? = some m := by
  cases s with
  | nil => exact iff_of_false nofun nofun
  | cons c s =>
      rw [Str.encodeUtf16_cons]
      cases hunits : Str.units c with
      | nil => exact (Str.units_ne_nil c hunits).elim
      | cons u us =>
          rw [List.cons_append, List.head?_cons, List.head?_cons, Option.some_inj, Option.some_inj]
          exact unit_eq_mark_iff hm (hunits ▸ List.mem_cons_self)

/-! ## One step of the scan -/

/-- The marks are told apart. -/
structure Alphabet.Proper {α : Type} (a : Alphabet α) : Prop where
  injective : ∀ m n : Char, m.toNat < 128 → n.toNat < 128 → a.mark m = a.mark n → m = n
  code : ∀ m : Char, m.toNat < 128 → a.code (a.mark m) = m.toNat

theorem proper_characters : characters.Proper where
  injective := fun _ _ _ _ h => h
  code := fun _ _ => rfl

theorem proper_codeUnits : codeUnits.Proper where
  injective := fun m n hm hn h =>
    (unit_eq_mark_iff hn (by rw [(code_of_ascii hm).1, List.mem_singleton])).mp h
  code := fun m hm => (code_of_ascii hm).2

section Step

variable {α : Type} [DecidableEq α] {a : Alphabet α} {c : α} {rest : List α}

omit [DecidableEq α] in
theorem Alphabet.Proper.ne (ha : a.Proper) {m n : Char} (hm : m.toNat < 128) (hn : n.toNat < 128)
    (h : m ≠ n) : a.mark m ≠ a.mark n := mt (ha.injective m n hm hn) h

/-- A character that opens nothing and begins no word. -/
structure Passed (a : Alphabet α) (c : α) : Prop where
  quote : c ≠ a.mark '\''
  double : c ≠ a.mark '"'
  back : c ≠ a.mark '`'
  bracket : c ≠ a.mark '['
  word : isWordStart (a.code c) = false

theorem identifiers_dash (hc : c = a.mark '-') (hnext : rest.head? = some (a.mark '-')) :
    identifiers a (c :: rest) = identifiers a (rest.dropWhile (· != a.mark '\n')) := by
  rw [identifiers, if_pos ⟨hc, hnext⟩]

theorem identifiers_comment (ha : a.Proper) (hc : c = a.mark '/')
    (hnext : rest.head? = some (a.mark '*')) :
    identifiers a (c :: rest) =
      identifiers a (afterComment (a.mark '*') (a.mark '/') rest.tail) := by
  have hdash : c ≠ a.mark '-' := hc ▸ ha.ne (by decide) (by decide) (by decide)
  rw [identifiers, if_neg (by simp [hdash]), if_pos ⟨hc, hnext⟩]

theorem identifiers_string (ha : a.Proper) (hc : c = a.mark '\'') :
    identifiers a (c :: rest) = identifiers a (quoted (a.mark '\'') true rest).2 := by
  have hdash : c ≠ a.mark '-' := hc ▸ ha.ne (by decide) (by decide) (by decide)
  have hslash : c ≠ a.mark '/' := hc ▸ ha.ne (by decide) (by decide) (by decide)
  rw [identifiers, if_neg (by simp [hdash]), if_neg (by simp [hslash]), if_pos hc]

theorem identifiers_name (ha : a.Proper) (hc : c = a.mark '"' ∨ c = a.mark '`') :
    identifiers a (c :: rest) =
      (quoted c true rest).1 :: identifiers a (quoted c true rest).2 := by
  have hne {m : Char} (hm : m.toNat < 128) (hdouble : '"' ≠ m) (hback : '`' ≠ m) :
      c ≠ a.mark m := by
    rcases hc with rfl | rfl
    · exact ha.ne (by decide) hm hdouble
    · exact ha.ne (by decide) hm hback
  have hdash : c ≠ a.mark '-' := hne (by decide) (by decide) (by decide)
  have hslash : c ≠ a.mark '/' := hne (by decide) (by decide) (by decide)
  have hquote : c ≠ a.mark '\'' := hne (by decide) (by decide) (by decide)
  rw [identifiers, if_neg (by simp [hdash]), if_neg (by simp [hslash]), if_neg hquote, if_pos hc]

theorem identifiers_bracket (ha : a.Proper) (hc : c = a.mark '[') :
    identifiers a (c :: rest) =
      (quoted (a.mark ']') false rest).1 :: identifiers a (quoted (a.mark ']') false rest).2 := by
  have hne {m : Char} (hm : m.toNat < 128) (h : '[' ≠ m) : c ≠ a.mark m :=
    hc ▸ ha.ne (by decide) hm h
  have hdash : c ≠ a.mark '-' := hne (by decide) (by decide)
  have hslash : c ≠ a.mark '/' := hne (by decide) (by decide)
  have hquote : c ≠ a.mark '\'' := hne (by decide) (by decide)
  have hdouble : c ≠ a.mark '"' := hne (by decide) (by decide)
  have hback : c ≠ a.mark '`' := hne (by decide) (by decide)
  rw [identifiers, if_neg (by simp [hdash]), if_neg (by simp [hslash]), if_neg hquote,
    if_neg (by simp [hdouble, hback]), if_pos hc]

theorem identifiers_word (ha : a.Proper) (hc : isWordStart (a.code c) = true) :
    identifiers a (c :: rest) = (c :: rest.takeWhile fun d => isWordPart (a.code d)) ::
      identifiers a (rest.dropWhile fun d => isWordPart (a.code d)) := by
  have hne {m : Char} (hm : m.toNat < 128) (h : isWordStart m.toNat = false) : c ≠ a.mark m := by
    rintro rfl
    rw [ha.code m hm, h] at hc
    cases hc
  have hdash : c ≠ a.mark '-' := hne (by decide) (by decide)
  have hslash : c ≠ a.mark '/' := hne (by decide) (by decide)
  have hquote : c ≠ a.mark '\'' := hne (by decide) (by decide)
  have hdouble : c ≠ a.mark '"' := hne (by decide) (by decide)
  have hback : c ≠ a.mark '`' := hne (by decide) (by decide)
  have hbracket : c ≠ a.mark '[' := hne (by decide) (by decide)
  rw [identifiers, if_neg (by simp [hdash]), if_neg (by simp [hslash]), if_neg hquote,
    if_neg (by simp [hdouble, hback]), if_neg hbracket, if_pos hc]

theorem identifiers_passed (h : Passed a c)
    (hdash : ¬(c = a.mark '-' ∧ rest.head? = some (a.mark '-')))
    (hslash : ¬(c = a.mark '/' ∧ rest.head? = some (a.mark '*'))) :
    identifiers a (c :: rest) = identifiers a rest := by
  rw [identifiers, if_neg hdash, if_neg hslash, if_neg h.quote, if_neg (by simp [h.double, h.back]),
    if_neg h.bracket, if_neg (by simp [h.word])]

end Step

/-! ## Client and server agree -/

theorem tail_encode {c : Char} (hc : c.toNat < 128) {s : Str} (h : s.head? = some c) :
    (Str.encodeUtf16 s).tail = Str.encodeUtf16 s.tail := by
  cases s with
  | nil => cases h
  | cons d s =>
      obtain rfl := Option.some_inj.mp h
      rw [Str.encodeUtf16_cons, (code_of_ascii hc).1]
      rfl

/-- The code units of a character that is passed are passed. -/
theorem identifiers_units {c : Char} (hpassed : Passed characters c) {rest : Str}
    (hdash : ¬(c = '-' ∧ rest.head? = some '-')) (hslash : ¬(c = '/' ∧ rest.head? = some '*')) :
    identifiers codeUnits (Str.units c ++ Str.encodeUtf16 rest) =
      identifiers codeUnits (Str.encodeUtf16 rest) := by
  have hunit : ∀ u ∈ Str.units c, Passed codeUnits u := fun u hu =>
    { quote := mt (unit_eq_mark_iff (by decide) hu).mp hpassed.quote
      double := mt (unit_eq_mark_iff (by decide) hu).mp hpassed.double
      back := mt (unit_eq_mark_iff (by decide) hu).mp hpassed.back
      bracket := mt (unit_eq_mark_iff (by decide) hu).mp hpassed.bracket
      word := (code_unit isWordStart_beyond hu).trans hpassed.word }
  by_cases hc : c.toNat < 128
  · rw [(code_of_ascii hc).1] at hunit ⊢
    have hmark {m : Char} (hm : m.toNat < 128) : codeUnits.mark c = codeUnits.mark m ↔ c = m :=
      unit_eq_mark_iff hm (by rw [(code_of_ascii hc).1, List.mem_singleton])
    refine identifiers_passed (hunit _ (List.mem_singleton_self _)) ?_ ?_
    · rwa [hmark (by decide), List.append_eq, List.nil_append, head_encode_iff (by decide)]
    · rwa [hmark (by decide), List.append_eq, List.nil_append, head_encode_iff (by decide)]
  · have hne : ∀ m : Char, m.toNat < 128 → ∀ u ∈ Str.units c, u ≠ codeUnits.mark m := by
      intro m hm u hu h
      have heq := (unit_eq_mark_iff hm hu).mp h
      rw [heq] at hc
      exact hc hm
    revert hunit hne
    generalize Str.units c = us
    intro hunit hne
    induction us with
    | nil => rfl
    | cons u us ih =>
        rw [List.cons_append, identifiers_passed (hunit u List.mem_cons_self)
          (fun h => hne _ (by decide) u List.mem_cons_self h.1)
          (fun h => hne _ (by decide) u List.mem_cons_self h.1)]
        exact ih (fun v hv => hunit v (List.mem_cons_of_mem _ hv))
          fun m hm v hv => hne m hm v (List.mem_cons_of_mem _ hv)

/-- Client and server find the same identifiers. -/
theorem sqlIdentifiers_encode (s : Str) :
    sqlIdentifiers (Str.encodeUtf16 s) = (serverIdentifiers s).map Str.encodeUtf16 := by
  unfold sqlIdentifiers serverIdentifiers
  induction s using identifiers.induct characters with
  | case1 =>
      rw [Str.encodeUtf16_nil, identifiers, identifiers]
      rfl
  | case2 c rest h ih =>
      obtain ⟨hc, hnext⟩ := h
      have hline : ∀ c : Char, ∀ u ∈ Str.units c, (u != codeUnits.mark '\n') = (c != '\n') :=
        fun c u hu => by
          rw [Bool.eq_iff_iff, bne_iff_ne, bne_iff_ne, ne_eq, unit_eq_mark_iff (by decide) hu]
      have hunits : Str.units c = [codeUnits.mark '-'] := hc ▸ rfl
      rw [Str.encodeUtf16_cons, hunits, List.singleton_append, identifiers_dash hc hnext,
        identifiers_dash rfl ((head_encode_iff (by decide) rest).mpr hnext),
        (while_encode hline rest).2]
      exact ih
  | case3 c rest _ h ih =>
      obtain ⟨hc, hnext⟩ := h
      have hunits : Str.units c = [codeUnits.mark '/'] := hc ▸ rfl
      rw [Str.encodeUtf16_cons, hunits, List.singleton_append,
        identifiers_comment proper_characters hc hnext,
        identifiers_comment proper_codeUnits rfl ((head_encode_iff (by decide) rest).mpr hnext),
        tail_encode (c := '*') (by decide) hnext, afterComment_encode]
      exact ih
  | case4 rest _ _ ih =>
      have hunits : Str.units (characters.mark '\'') = [codeUnits.mark '\''] := rfl
      rw [Str.encodeUtf16_cons, hunits, List.singleton_append,
        identifiers_string proper_characters rfl, identifiers_string proper_codeUnits rfl,
        quoted_encode (by decide)]
      exact ih
  | case5 c rest _ _ _ h ih =>
      have hascii : c.toNat < 128 := by
        rcases h with rfl | rfl <;> decide
      have hunits := (code_of_ascii hascii).1
      have hmarks : codeUnits.mark c = codeUnits.mark '"' ∨ codeUnits.mark c = codeUnits.mark '`' :=
        h.imp (congrArg codeUnits.mark) (congrArg codeUnits.mark)
      rw [Str.encodeUtf16_cons, hunits, List.singleton_append,
        identifiers_name proper_characters h, identifiers_name proper_codeUnits hmarks,
        quoted_encode hascii, List.map_cons]
      exact congrArg (_ :: ·) ih
  | case6 rest _ _ _ _ ih =>
      have hunits : Str.units (characters.mark '[') = [codeUnits.mark '['] := rfl
      rw [Str.encodeUtf16_cons, hunits, List.singleton_append,
        identifiers_bracket proper_characters rfl, identifiers_bracket proper_codeUnits rfl,
        quoted_encode (by decide), List.map_cons]
      exact congrArg (_ :: ·) ih
  | case7 c rest _ _ _ _ _ h ih =>
      have hascii : c.toNat < 128 := by
        by_contra hbeyond
        rw [show characters.code c = c.toNat from rfl,
          isWordStart_beyond _ (not_lt.mp hbeyond)] at h
        cases h
      have hpart : ∀ d : Char, ∀ u ∈ Str.units d,
          isWordPart (codeUnits.code u) = isWordPart (characters.code d) :=
        fun d u hu => code_unit isWordPart_beyond hu
      have hstart : isWordStart (codeUnits.code (codeUnits.mark c)) = true := by
        rw [(code_of_ascii hascii).2]
        exact h
      rw [Str.encodeUtf16_cons, (code_of_ascii hascii).1, List.singleton_append,
        identifiers_word proper_characters h, identifiers_word proper_codeUnits hstart,
        (while_encode hpart rest).1, (while_encode hpart rest).2, List.map_cons,
        Str.encodeUtf16_cons, (code_of_ascii hascii).1]
      exact congrArg (_ :: ·) ih
  | case8 c rest hdash hslash hquote hname hbracket hword ih =>
      have hpassed : Passed characters c :=
        ⟨hquote, fun h => hname (.inl h), fun h => hname (.inr h), hbracket, by simpa using hword⟩
      rw [Str.encodeUtf16_cons, identifiers_units hpassed hdash hslash,
        identifiers_passed hpassed hdash hslash]
      exact ih

theorem toLower_of_beyond {c : Char} (h : 128 ≤ c.toNat) : c.toLower = c := by
  refine dif_neg fun hupper => ?_
  have hle : c.toNat ≤ 90 := UInt32.le_iff_toNat_le.mp hupper.2
  omega

/-- Whether a text in lower case begins with such a word is told by its ASCII characters. -/
theorem prefix_toLowerCase_iff (l : LowerCase) {p : Str}
    (hp : ∀ c ∈ p, c.toNat < 128 ∧ c ≠ 'k') (hlast : p.getLast? ≠ some 'i') (before s : Str) :
    p <+: toLowerCase l before s ↔ p <+: Str.lower s := by
  induction s generalizing p before with
  | nil => exact Iff.rfl
  | cons c s ih =>
      cases p with
      | nil => exact iff_of_true List.nil_prefix List.nil_prefix
      | cons x p =>
          obtain ⟨hx, hp⟩ := List.forall_mem_cons.mp hp
          rw [toLowerCase, show Str.lower (c :: s) = c.toLower :: Str.lower s from rfl,
            List.cons_prefix_cons]
          by_cases hc : c.toNat < 128
          · have hlast' : p.getLast? ≠ some 'i' := fun h => hlast (by
              rw [List.getLast?_cons, h]
              rfl)
            rw [if_pos hc, List.singleton_append, List.cons_prefix_cons, ih hp hlast']
          · have hne : x ≠ c := by
              rintro rfl
              exact hc hx.1
            rw [if_neg hc, toLower_of_beyond (not_lt.mp hc)]
            refine iff_of_false (fun h => ?_) fun h => hne h.1
            rcases l.beyond before c s (not_lt.mp hc) with ⟨-, himage⟩ | ⟨-, himage⟩ |
              ⟨d, rest, himage, hd⟩
            · rw [himage, List.singleton_append, List.cons_prefix_cons] at h
              exact hx.2 h.1
            · rw [himage, List.cons_append, List.cons_prefix_cons] at h
              cases p with
              | nil => exact hlast (by rw [h.1]; rfl)
              | cons y p =>
                  rw [List.singleton_append, List.cons_prefix_cons] at h
                  have hy := (List.forall_mem_cons.mp hp).1.1
                  rw [h.2.1] at hy
                  exact absurd hy (by decide)
            · rw [himage, List.cons_append, List.cons_prefix_cons] at h
              rw [h.1] at hx
              omega

theorem isInternal_iff (l : LowerCase) (ident : Str) :
    ((Str.encodeUtf16 "crsql_".toList).isPrefixOf (Str.encodeUtf16 (toLowerCase l []
        (Str.fromUtf16Lossy (Str.encodeUtf16 ident)))) ||
      (Str.encodeUtf16 "sqlite_".toList).isPrefixOf (Str.encodeUtf16 (toLowerCase l []
        (Str.fromUtf16Lossy (Str.encodeUtf16 ident))))) = true ↔ IsInternal ident := by
  rw [Bool.or_eq_true, List.isPrefixOf_iff_prefix, List.isPrefixOf_iff_prefix,
    Str.encodeUtf16_prefix_iff, Str.encodeUtf16_prefix_iff, Str.fromUtf16Lossy_encodeUtf16,
    prefix_toLowerCase_iff l (by simp) (by decide), prefix_toLowerCase_iff l (by simp)
      (by decide)]
  exact Iff.rfl

/-- The client rejects the texts with an identifier that begins with an internal prefix. -/
theorem lint_error_iff (l : LowerCase) (s : Str) :
    (∃ ident, lint l (Str.encodeUtf16 s) = .error ident) ↔
      ∃ ident ∈ serverIdentifiers s, IsInternal ident := by
  unfold lint
  dsimp only
  rw [sqlIdentifiers_encode]
  split
  · next ident hfind =>
    have hmem := List.mem_of_find?_eq_some hfind
    have hinternal := List.find?_some hfind
    obtain ⟨word, hword, rfl⟩ := List.mem_map.mp hmem
    exact iff_of_true ⟨_, rfl⟩ ⟨word, hword, (isInternal_iff l word).mp hinternal⟩
  · next hfind =>
    refine iff_of_false (by rintro ⟨_, ⟨⟩⟩) ?_
    rintro ⟨word, hword, hinternal⟩
    exact List.find?_eq_none.mp hfind _ (List.mem_map_of_mem hword)
      ((isInternal_iff l word).mpr hinternal)

/-- What `lint_sql` calls internal of the database engine. -/
theorem lintIdentifier_iff (ident : Str) :
    lintIdentifier ident = some (.crsqlite ident) ∨ lintIdentifier ident = some (.sqlite ident) ↔
      IsInternal ident := by
  unfold lintIdentifier IsInternal
  rw [← List.isPrefixOf_iff_prefix, ← List.isPrefixOf_iff_prefix]
  dsimp only
  split_ifs with hcrsql hsqlite
  · exact iff_of_true (.inl rfl) (.inl hcrsql)
  · exact iff_of_true (.inr rfl) (.inr hsqlite)
  · exact iff_of_false (by simp) (fun h => h.elim hcrsql hsqlite)
  · exact iff_of_false (by simp) (fun h => h.elim hcrsql hsqlite)

end Realtime.PluginDb
