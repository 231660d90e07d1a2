import Realtime.Lib.SqlTable
import Realtime.PluginDb.SqlLint

/-!
# The published schema

`apply_schema_idempotent` of `server/src/plugindb.rs` and the readers below it: the columns
of a published `CREATE TABLE` statement, and the commands that add those a replica's table
lacks. The readers know quotes but no comments, and only names in ASCII.
-/

namespace Realtime.PluginDb

open Lib Lib.Sql

/-! ## Reading a statement -/

/-- `parse_quoted_identifier` -/
def parseQuotedIdentifier : Str → Option Str
  | [] => none
  | c :: rest =>
      if c = '"' ∨ c = '`' then
        if c ∈ rest then
          let name := (quoted c true rest).1
          if name = [] ∧ rest.head? = some c then none
          else if name = [] then some (rest.takeWhile (· != c))
          else some name
        else none
      else if c = '[' then
        if ']' ∈ rest then some (rest.takeWhile (· != ']')) else none
      else if isWordStart c.toNat then
        some ((c :: rest).takeWhile fun d => isWordPart d.toNat)
      else none

/-- An item of the body, unless it is blank. -/
def trimmed (cur : Str) : List Str := if Str.trim cur = [] then [] else [Str.trim cur]

/-- The scan of `parse_create_table_columns` from the first parenthesis on. Within a quote
`quote` is the mark that ends it. -/
def bodyItems (quote : Option Char) (depth : Nat) (cur : Str) : Str → List Str
  | [] => []
  | c :: rest =>
      match quote with
      | some close => bodyItems (if c = close then none else some close) depth (cur ++ [c]) rest
      | none =>
          if c = '\'' ∨ c = '"' ∨ c = '`' then bodyItems (some c) depth (cur ++ [c]) rest
          else if c = '[' then bodyItems (some ']') depth (cur ++ [c]) rest
          else if c = '(' then
            -- the outermost parenthesis opens the body itself
            bodyItems none (depth + 1) (if depth = 0 then cur else cur ++ [c]) rest
          else if c = ')' then
            if depth = 1 then trimmed cur
            else bodyItems none (depth - 1) (cur ++ [c]) rest
          else if c = ',' ∧ depth = 1 then trimmed cur ++ bodyItems none depth [] rest
          else bodyItems none depth (cur ++ [c]) rest

def constraintKeywords : List Str :=
  ["CONSTRAINT".toList, "PRIMARY".toList, "FOREIGN".toList, "UNIQUE".toList, "CHECK".toList]

/-- The column of an item, if it is one. -/
def columnOf (item : Str) : Option (Str × Str) :=
  let first := item.dropWhile Str.isWhitespace
  let keyword := first.takeWhile fun c => !(Str.isWhitespace c || c = '(')
  if keyword.map Char.toUpper ∈ constraintKeywords then none
  else (parseQuotedIdentifier first).map fun name => (name, item)

/-- `parse_create_table_columns` -/
def parseCreateTableColumns (stmt : Str) : List (Str × Str) :=
  (bodyItems none 0 [] (stmt.dropWhile (· != '('))).filterMap columnOf

/-- `create_table_target`; lower case keeps every offset, here counted in characters. -/
def createTableTarget (stmt : Str) : Option Str :=
  let s := stmt.dropWhile Str.isWhitespace
  let lower := Str.lower s
  match Str.stripPrefix "create table".toList lower with
  | none => none
  | some after =>
      let offset := s.length - after.length
      let restOrig := s.drop offset
      let restLower := (lower.drop offset).dropWhile Str.isWhitespace
      let behind := match Str.stripPrefix "if not exists".toList restLower with
        | some rest => rest.dropWhile Str.isWhitespace
        | none => restLower
      let skip := restLower.length - behind.length
      parseQuotedIdentifier ((restOrig.drop skip).dropWhile Str.isWhitespace)

/-- `crsql_as_crr_target` -/
def crsqlAsCrrTarget (stmt : Str) : Option Str :=
  let s := Str.trim stmt
  match Str.stripPrefix "select crsql_as_crr(".toList (Str.lower s) with
  | none => none
  | some after =>
      match (s.drop (s.length - after.length)).dropWhile Str.isWhitespace with
      | '\'' :: rest => if '\'' ∈ rest then some (rest.takeWhile (· != '\'')) else none
      | _ => none

/-! ## The tables of a replica -/

structure TableColumn where
  name : Str
  /-- generated or hidden, which `PRAGMA table_info` leaves out -/
  hidden : Bool

structure StoredTable where
  name : Str
  columns : List TableColumn

/-- The table of a name in any letter case. -/
def findTable (r : List StoredTable) (name : Str) : Option StoredTable :=
  r.find? fun t => Str.lower t.name = Str.lower name

/-- The columns of `table_columns` -/
def tableColumns (r : List StoredTable) (table : Str) : List Str :=
  match findTable r (table.filter (· != '"')) with
  | some t => (t.columns.filter fun c => !c.hidden).map TableColumn.name
  | none => []

def clockTable (table : Str) : Str := table ++ "__crsql_clock".toList

/-- The commands that add columns, with the name of the table as it stands between double and
between single quotes. -/
def alterCommands (inDouble inSingle : Str) (isCrr : Bool) (columns : List (Str × Str)) :
    List Str :=
  if columns = [] then []
  else
    (if isCrr then ["SELECT crsql_begin_alter('".toList ++ inSingle ++ "')".toList] else []) ++
      columns.map (fun c =>
        "ALTER TABLE \"".toList ++ inDouble ++ "\" ADD COLUMN ".toList ++ c.2) ++
      if isCrr then ["SELECT crsql_commit_alter('".toList ++ inSingle ++ "')".toList] else []

/-- The commands of `reconcile_added_columns`; quotes in the name of the table are not
doubled. -/
def reconcileAddedColumns (r : List StoredTable) (table stmt : Str) (isCrr : Bool) : List Str :=
  let present := (tableColumns r table).map Str.lower
  alterCommands table table isCrr
    ((parseCreateTableColumns stmt).filter fun c => Str.lower c.1 ∉ present)

/-- The commands that `apply_schema_idempotent` has for a statement; `existing` are the
tables at its start. -/
def schemaCommands (existing : List Str) (r : List StoredTable) (stmt : Str) : List Str :=
  let execute := match crsqlAsCrrTarget stmt with
    | some table => if clockTable table ∈ existing then [] else [stmt]
    | none => [stmt]
  match createTableTarget stmt with
  | some table =>
      if table ∈ existing then reconcileAddedColumns r table stmt (clockTable table ∈ existing)
      else execute
  | none => execute

/-! ## The condition on a statement -/

/-- The depth behind a text for the scan, if it ends outside of quotes and meets no end of an
item. -/
def levelAfter (quote : Option Char) (n : Nat) : Str → Option Nat
  | [] => if quote = none then some n else none
  | c :: rest =>
      match quote with
      | some close => levelAfter (if c = close then none else some close) n rest
      | none =>
          if c = '\'' ∨ c = '"' ∨ c = '`' then levelAfter (some c) n rest
          else if c = '[' then levelAfter (some ']') n rest
          else if c = '(' then levelAfter none (n + 1) rest
          else if c = ')' then if n = 0 then none else levelAfter none (n - 1) rest
          else if c = ',' ∧ n = 0 then none
          else levelAfter none n rest

/-- No comment in the body has marks that move the scan. -/
def undisturbed (n : Nat) : List Piece → Bool
  | [] => true
  | p :: ps =>
      if p.is ')' then if n = 0 then true else undisturbed (n - 1) ps
      else if p.is '(' then undisturbed (n + 1) ps
      else (!p.isComment || levelAfter none n p.raw = some n) && undisturbed n ps

/-- The scan begins at the parenthesis of the body and no comment leads it astray. -/
def Aligned (t : Table) : Prop := '(' ∉ raws (t.name :: t.gap) ∧ undisturbed 0 t.body = true

instance (t : Table) : Decidable (Aligned t) := inferInstanceAs (Decidable (_ ∧ _))

/-- What is read of a name: all of a quoted one, unless it is empty, and the front in ASCII
of a bare one. -/
def identifierOf (p : Piece) : Option Str :=
  match p.token.kind with
  | .quotedName =>
      if p.token.text = [] ∧ p.raw.head? ≠ some '[' then none else some p.token.text
  | .bareName =>
      let word := p.raw.dropWhile Str.isWhitespace
      if word.head?.any (fun c => isWordStart c.toNat) then
        some (word.takeWhile fun c => isWordPart c.toNat)
      else none
  | _ => none

/-- The item is read as what it declares. A column has a name that is read, no comment
around it and no space beyond ASCII at its end. The keyword of a constraint is set off from
what follows it, or hidden by a comment before it. -/
def Readable (i : Item) : Prop :=
  if i.first.isConstraint then
    i.before.any Piece.isComment = true ∨
      ∀ p ∈ (i.inner ++ i.after).head?, p.isSpace && !p.isComment || p.is '('
  else
    identifierOf i.first = some i.first.token.text ∧
      (∀ p ∈ i.before ++ i.after, p.isComment = false) ∧
      ∀ c ∈ i.definition.getLast?, Str.isWhitespace c = false

instance (i : Item) : Decidable (Readable i) :=
  have : Decidable (∀ c ∈ i.definition.getLast?, Str.isWhitespace c = false) :=
    Option.decidableForallMem _
  inferInstanceAs (Decidable (if i.first.isConstraint then _ else _))

/-! ## The scan over pieces -/

theorem bodyItems_level {quote : Option Char} {n m : Nat} {t : Str}
    (h : levelAfter quote n t = some m) (cur rest : Str) :
    bodyItems quote (n + 1) cur (t ++ rest) = bodyItems none (m + 1) (cur ++ t) rest := by
  induction t generalizing quote n cur with
  | nil =>
      unfold levelAfter at h
      split at h
      · next hquote =>
        obtain rfl := Option.some_inj.mp h
        rw [hquote, List.nil_append, List.append_nil]
      · cases h
  | cons c t ih =>
      have happend : cur ++ c :: t = (cur ++ [c]) ++ t := by
        rw [List.append_assoc, List.singleton_append]
      rw [happend, List.cons_append]
      cases quote with
      | some close => exact ih h (cur ++ [c])
      | none =>
          unfold levelAfter at h
          dsimp only at h
          rw [bodyItems]
          split at h
          · next hmark =>
            rw [if_pos hmark]
            exact ih h (cur ++ [c])
          next hmark =>
          rw [if_neg hmark]
          split at h
          · next hbracket =>
            rw [if_pos hbracket]
            exact ih h (cur ++ [c])
          next hbracket =>
          rw [if_neg hbracket]
          split at h
          · next hopen =>
            rw [if_pos hopen, if_neg (Nat.succ_ne_zero n)]
            exact ih h (cur ++ [c])
          next hopen =>
          rw [if_neg hopen]
          split at h
          · next hclose =>
            split at h
            · cases h
            · next hn =>
              rw [if_pos hclose, if_neg (by omega), Nat.add_sub_cancel]
              have hdepth : n - 1 + 1 = n := by omega
              rw [← ih h (cur ++ [c]), hdepth]
          next hclose =>
          rw [if_neg hclose]
          split at h
          · cases h
          · next hcomma =>
            rw [if_neg (fun hc => hcomma ⟨hc.1, by omega⟩)]
            exact ih h (cur ++ [c])

/-- Neither a quote nor a delimiter of the scan. -/
def IsFlat (c : Char) : Prop :=
  c ≠ '\'' ∧ c ≠ '"' ∧ c ≠ '`' ∧ c ≠ '[' ∧ c ≠ '(' ∧ c ≠ ')' ∧ c ≠ ','

theorem isFlat_of_code {c : Char} (h : c.toNat ≠ 39 ∧ c.toNat ≠ 34 ∧ c.toNat ≠ 96 ∧
    c.toNat ≠ 91 ∧ c.toNat ≠ 40 ∧ c.toNat ≠ 41 ∧ c.toNat ≠ 44) : IsFlat c := by
  obtain ⟨hquote, hdouble, hback, hbracket, hopen, hclose, hcomma⟩ := h
  refine ⟨?_, ?_, ?_, ?_, ?_, ?_, ?_⟩
  all_goals
    rintro rfl
    contradiction

theorem isFlat_of_isIdChar {c : Char} (h : isIdChar c = true) : IsFlat c := by
  rw [isIdChar_code] at h
  exact isFlat_of_code (by omega)

theorem isFlat_of_inNumber {c : Char} (h : InNumber c) : IsFlat c := by
  rcases h with h | rfl | rfl | rfl
  · exact isFlat_of_isIdChar h
  · exact isFlat_of_code (by decide)
  · exact isFlat_of_code (by decide)
  · exact isFlat_of_code (by decide)

theorem isFlat_of_isSpace {c : Char} (h : isSpace c = true) : IsFlat c := by
  simp only [isSpace, isSpaceStart, Bool.or_eq_true, decide_eq_true_eq] at h
  rcases h with ((((rfl | rfl) | rfl) | rfl) | rfl) | rfl
  all_goals exact isFlat_of_code (by decide)

theorem levelAfter_cons_flat {c : Char} (h : IsFlat c) (n : Nat) (t : Str) :
    levelAfter none n (c :: t) = levelAfter none n t := by
  obtain ⟨hquote, hdouble, hback, hbracket, hopen, hclose, hcomma⟩ := h
  rw [levelAfter]
  simp only [hquote, hdouble, hback, hbracket, hopen, hclose, hcomma, or_self, false_and,
    if_false]

theorem levelAfter_flat {t : Str} (h : ∀ c ∈ t, IsFlat c) (n : Nat) :
    levelAfter none n t = some n := by
  induction t with
  | nil => exact if_pos rfl
  | cons c t ih =>
      obtain ⟨hc, ht⟩ := List.forall_mem_cons.mp h
      rw [levelAfter_cons_flat hc, ih ht]

/-- A quote is passed over: a doubled mark closes and opens it again. -/
theorem levelAfter_closes {close : Char} {doubled : Bool} {r text : Str}
    (h : Closes close doubled r text)
    (hmark : doubled = true → close = '\'' ∨ close = '"' ∨ close = '`') (n : Nat) :
    levelAfter (some close) n r = some n := by
  induction h with
  | last =>
      rw [levelAfter]
      rw [if_pos rfl]
      exact if_pos rfl
  | other hc _ ih =>
      rw [levelAfter]
      rw [if_neg hc, ih]
  | twice hdoubled _ ih =>
      rw [levelAfter]
      rw [if_pos rfl, levelAfter]
      rw [if_pos (hmark hdoubled), ih]

theorem levelAfter_piece {behind : Str} {p : Piece} (h : Shape behind p) (n : Nat)
    (hcomment : p.isComment = true → levelAfter none n p.raw = some n)
    (hopen : p.is '(' = false) (hclose : p.is ')' = false)
    (hcomma : p.is ',' = true → n ≠ 0) : levelAfter none n p.raw = some n := by
  cases h with
  | @blank c r hraw => exact levelAfter_flat (fun d hd => isFlat_of_isSpace (hraw d hd)) n
  | @comment c r hc =>
      refine hcomment ?_
      rcases hc with rfl | rfl <;> rfl
  | @quote kind c close doubled text r hquote hraw _ =>
      cases hquote with
      | string => exact levelAfter_closes hraw (fun _ => .inl rfl) n
      | double => exact levelAfter_closes hraw (fun _ => .inr (.inl rfl)) n
      | accent => exact levelAfter_closes hraw (fun _ => .inr (.inr rfl)) n
      | bracket => exact levelAfter_closes hraw nofun n
  | @blob c digits hc hdigits =>
      have hflat : IsFlat c := by
        rcases hc with rfl | rfl <;> exact isFlat_of_code (by decide)
      have hcloses : Closes '\'' true (digits ++ ['\'']) digits := by
        clear hopen hclose hcomma hcomment
        induction digits with
        | nil => exact .last
        | cons d digits ih =>
            obtain ⟨hd, hdigits⟩ := List.forall_mem_cons.mp hdigits
            refine .other ?_ (ih hdigits)
            rintro rfl
            exact absurd hd (by decide)
      show levelAfter none n (c :: '\'' :: digits ++ ['\'']) = some n
      rw [List.cons_append, levelAfter_cons_flat hflat]
      exact levelAfter_closes hcloses (fun _ => .inl rfl) n
  | @word c r hc hr _ =>
      refine levelAfter_flat (List.forall_mem_cons.mpr ⟨?_, ?_⟩) n
      · exact isFlat_of_isIdChar (isIdChar_of_isIdStart hc)
      · exact fun d hd => isFlat_of_isIdChar (hr d hd)
  | @number c r hc hr =>
      refine levelAfter_flat (List.forall_mem_cons.mpr ⟨?_, fun d hd => ?_⟩) n
      · exact isFlat_of_inNumber (hc.elim inNumber_of_isDigit fun h => .inr (.inl h))
      · exact isFlat_of_inNumber (hr d hd)
  | @symbol c hc =>
      have hnot {d : Char} (hd : Piece.is d ⟨⟨.symbol, true, [c]⟩, [c]⟩ = false) : c ≠ d := by
        rintro rfl
        simp [Piece.is] at hd
      by_cases hc' : c = ','
      · obtain rfl := hc'
        have hn := hcomma rfl
        rw [levelAfter]
        simp [hn, levelAfter]
      · have hother {d : Char} (hd : ("-+*/%()=<>|&~,.;!".toList.contains d || d = byteOrderMark) =
            false) : c ≠ d := by
          rintro rfl
          rw [Bool.or_eq_false_iff, decide_eq_false_iff_not] at hd
          rcases hc with hc | hc
          · exact absurd hc (by rw [hd.1]; exact Bool.false_ne_true)
          · exact hd.2 hc
        refine levelAfter_flat (List.forall_mem_singleton.mpr ?_) n
        exact ⟨hother (by decide), hother (by decide), hother (by decide), hother (by decide),
          hnot hopen, hnot hclose, hc'⟩

theorem bodyItems_splitBody {n : Nat} {item ps : List Piece} {parts : List (List Piece)}
    {behind : Str} (hlexed : Lexed behind ps) (hlevel : undisturbed n ps = true)
    (h : splitBody n item ps = some parts) :
    bodyItems none (n + 1) (raws item) (raws ps) =
      parts.flatMap fun part => trimmed (raws part) := by
  induction ps generalizing n item parts with
  | nil => cases h
  | cons p ps ih =>
      obtain ⟨hp, hps⟩ := hlexed
      have hnext : raws (item ++ [p]) = raws item ++ p.raw := by
        rw [raws_append, raws_cons]
        exact congrArg (raws item ++ ·) (List.append_nil p.raw)
      unfold splitBody at h
      unfold undisturbed at hlevel
      rw [raws_cons]
      split at h
      · next hclose =>
        rw [if_pos hclose] at hlevel
        rw [hp.raw_of_is hclose] at hnext ⊢
        rw [List.singleton_append, bodyItems]
        cases n with
        | zero =>
            obtain rfl := Option.some_inj.mp h
            rw [List.flatMap_singleton]
            rfl
        | succ n =>
            rw [if_neg (Nat.succ_ne_zero n)] at hlevel
            have hrest := ih hps hlevel h
            rw [hnext] at hrest
            rw [← hrest]
            rfl
      · next hclose =>
        rw [if_neg hclose] at hlevel
        split at h
        · next hopen =>
          rw [if_pos hopen] at hlevel
          have hrest := ih hps hlevel h
          rw [hp.raw_of_is hopen] at hnext ⊢
          rw [hnext] at hrest
          rw [← hrest, List.singleton_append, bodyItems]
          rfl
        · next hopen =>
          rw [if_neg hopen, Bool.and_eq_true] at hlevel
          split at h
          · next hcomma =>
            obtain ⟨hcomma, rfl⟩ := hcomma
            obtain ⟨parts', hparts, rfl⟩ := Option.map_eq_some_iff.mp h
            rw [List.flatMap_cons, ← ih hps hlevel.2 hparts, hp.raw_of_is hcomma,
              List.singleton_append, bodyItems]
            rfl
          · next hcomma =>
            have hlevel' := levelAfter_piece hp n
              (fun hcomment => by simpa [hcomment] using hlevel.1)
              (Bool.eq_false_iff.mpr hopen) (Bool.eq_false_iff.mpr hclose)
              (fun hc hn => hcomma ⟨hc, hn⟩)
            rw [bodyItems_level hlevel', ← hnext, ih hps hlevel.2 h]

/-- What is read of an item. -/
def readItem (i : Item) : Option (Str × Str) := columnOf (Str.trim (raws i.pieces))

theorem parseCreateTableColumns_eq {s : Str} {t : Table} (ht : Declares s t) (h : Aligned t) :
    parseCreateTableColumns s = t.items.filterMap readItem := by
  have hbody : s.dropWhile (· != '(') = '(' :: raws t.body := by
    have hfront : ∀ c ∈ "CREATE TABLE ".toList ++ raws (t.name :: t.gap), (c != '(') = true := by
      intro c hc
      rcases List.mem_append.mp hc with hc | hc
      · have hall : "CREATE TABLE ".toList.all (· != '(') = true := by decide
        exact List.all_eq_true.mp hall c hc
      · exact bne_iff_ne.mpr fun heq => h.1 (heq ▸ hc)
    rw [ht.text, ← List.append_assoc, List.dropWhile_append_of_pos hfront,
      List.dropWhile_cons_of_neg (by decide)]
  have hscan := bodyItems_splitBody ht.body h.2 ht.split
  unfold parseCreateTableColumns
  rw [hbody, bodyItems]
  show (bodyItems none (0 + 1) (raws []) (raws t.body)).filterMap columnOf = _
  rw [hscan]
  induction t.items with
  | nil => rfl
  | cons i items ih =>
      rw [List.map_cons, List.flatMap_cons, List.filterMap_append, ih]
      unfold trimmed
      split
      · next hblank =>
        rw [List.filterMap_cons_none (by rw [readItem, hblank]; rfl)]
        rfl
      · rw [List.filterMap_cons, List.filterMap_nil, List.filterMap_cons]
        unfold readItem
        cases columnOf (Str.trim (raws i.pieces)) <;> rfl

/-! ## Reading a name -/

theorem isWordStart_iff_code (n : Nat) :
    isWordStart n = true ↔ 65 ≤ n ∧ n ≤ 90 ∨ 97 ≤ n ∧ n ≤ 122 ∨ n = 95 := by
  simp only [isWordStart, Bool.or_eq_true, Bool.and_eq_true, decide_eq_true_eq, or_assoc]

theorem isWordPart_iff_code (n : Nat) : isWordPart n = true ↔
    65 ≤ n ∧ n ≤ 90 ∨ 97 ≤ n ∧ n ≤ 122 ∨ n = 95 ∨ 48 ≤ n ∧ n ≤ 57 ∨ n = 36 := by
  simp only [isWordPart, Bool.or_eq_true, isWordStart_iff_code, Bool.and_eq_true,
    decide_eq_true_eq, or_assoc]

theorem isWordPart_of_not_isIdChar {c : Char} (h : isIdChar c = false) :
    isWordPart c.toNat = false := by
  rw [← Bool.not_eq_true, isIdChar_code] at h
  rw [← Bool.not_eq_true, isWordPart_iff_code]
  omega

theorem isWhitespace_iff_code (c : Char) : Str.isWhitespace c = true ↔
    9 ≤ c.toNat ∧ c.toNat ≤ 13 ∨ c.toNat = 32 ∨ c.toNat = 0x85 ∨ c.toNat = 0xA0 ∨
      c.toNat = 0x1680 ∨ 0x2000 ≤ c.toNat ∧ c.toNat ≤ 0x200A ∨ c.toNat = 0x2028 ∨
      c.toNat = 0x2029 ∨ c.toNat = 0x202F ∨ c.toNat = 0x205F ∨ c.toNat = 0x3000 := by
  simp only [Str.isWhitespace, Bool.or_eq_true, decide_eq_true_eq, or_assoc,
    UInt32.le_iff_toNat_le, ← UInt32.toNat_inj]
  exact Iff.rfl

theorem isWhitespace_of_isSpace {c : Char} (h : isSpace c = true) : Str.isWhitespace c = true := by
  simp only [isSpace, isSpaceStart, Bool.or_eq_true, decide_eq_true_eq] at h
  rcases h with ((((rfl | rfl) | rfl) | rfl) | rfl) | rfl <;> decide

theorem isWhitespace_of_isWordPart {c : Char} (h : isWordPart c.toNat = true) :
    Str.isWhitespace c = false := by
  rw [isWordPart_iff_code] at h
  rw [← Bool.not_eq_true, isWhitespace_iff_code]
  omega

/-- A bare name is read up to its first character beyond ASCII. -/
theorem parse_word {w r : Str} (hw : ∀ c ∈ w, isIdChar c = true) (hne : w ≠ [])
    (hr : ∀ c ∈ r.head?, isIdChar c = false) :
    parseQuotedIdentifier (w ++ r) =
      if w.head?.any (fun c => isWordStart c.toNat) then
        some (w.takeWhile fun c => isWordPart c.toNat)
      else none := by
  have hnone : r.takeWhile (fun c => isWordPart c.toNat) = [] := by
    cases r with
    | nil => rfl
    | cons c r =>
        refine List.takeWhile_cons_of_neg ?_
        rw [isWordPart_of_not_isIdChar (hr c rfl)]
        exact Bool.false_ne_true
  have hwhile : (w ++ r).takeWhile (fun c => isWordPart c.toNat) =
      w.takeWhile fun c => isWordPart c.toNat := by
    rw [List.takeWhile_append, hnone, List.append_nil]
    split
    · next hlength => exact ((List.takeWhile_prefix _).eq_of_length hlength).symm
    · rfl
  obtain ⟨c, w, rfl⟩ := List.exists_cons_of_ne_nil hne
  obtain ⟨-, hdouble, hback, hbracket, -⟩ := isFlat_of_isIdChar (hw c List.mem_cons_self)
  rw [List.cons_append] at hwhile ⊢
  rw [parseQuotedIdentifier, if_neg (not_or.mpr ⟨hdouble, hback⟩), if_neg hbracket, hwhile]
  rfl

/-- A quoted name is read to its end. -/
theorem parse_quoted {c : Char} {r text behind : Str} (hc : c = '"' ∨ c = '`')
    (h : Closes c true r text) (hbehind : behind.head? ≠ some c) :
    parseQuotedIdentifier (c :: (r ++ behind)) = if text = [] then none else some text := by
  have hmem : c ∈ r ++ behind := List.mem_append_left _ h.mem
  rw [parseQuotedIdentifier, if_pos hc, if_pos hmem, h.quoted fun _ => hbehind]
  dsimp only
  split_ifs with hboth hempty hempty'
  · rfl
  · exact absurd hboth.1 hempty
  · -- the content is empty only where the quote ends at once
    refine absurd ⟨hempty', ?_⟩ hboth
    cases h with
    | last => rfl
    | other => cases hempty'
    | twice => cases hempty'
  · rfl

theorem takeWhile_closes {close : Char} {r text : Str} (h : Closes close false r text)
    (behind : Str) : (r ++ behind).takeWhile (· != close) = text := by
  induction h with
  | last => exact List.takeWhile_cons_of_neg (by simp)
  | other hc _ ih =>
      rw [List.cons_append]
      exact (List.takeWhile_cons_of_pos (by simp [hc])).trans (congrArg _ ih)
  | twice hdoubled => cases hdoubled

theorem parse_name {behind r : Str} {p : Piece} (h : Shape behind p) (hname : p.isName = true)
    (hr : r = [] ∨ r.head? = behind.head?) (hhead : ∀ c ∈ p.raw.head?, Str.isWhitespace c = false) :
    parseQuotedIdentifier (p.raw ++ r) = identifierOf p := by
  have hnext {q : Char → Prop} (hq : ∀ c ∈ behind.head?, q c) : ∀ c ∈ r.head?, q c := by
    rcases hr with rfl | hr
    · exact nofun
    · rwa [hr]
  cases h with
  | @quote kind c close doubled text t hquote hraw hbehind =>
      have hmark : doubled = true → r.head? ≠ some close := fun hd hc =>
        hnext (q := (· ≠ close)) (fun d hd' => by
          rintro rfl
          exact hbehind hd hd') close hc rfl
      cases hquote with
      | string => rfl
      | double =>
          show parseQuotedIdentifier ('"' :: (t ++ r)) = _
          rw [parse_quoted (.inl rfl) hraw (hmark rfl)]
          simp [identifierOf]
      | accent =>
          show parseQuotedIdentifier ('`' :: (t ++ r)) = _
          rw [parse_quoted (.inr rfl) hraw (hmark rfl)]
          simp [identifierOf]
      | bracket =>
          show parseQuotedIdentifier ('[' :: (t ++ r)) = _
          have hmem : ']' ∈ t ++ r := List.mem_append_left _ hraw.mem
          rw [parseQuotedIdentifier, if_neg (by decide), if_pos rfl, if_pos hmem,
            takeWhile_closes hraw]
          simp [identifierOf]
  | @word c t hc ht hbehind =>
      have hw : ∀ d ∈ c :: t, isIdChar d = true :=
        List.forall_mem_cons.mpr ⟨isIdChar_of_isIdStart hc, ht⟩
      have hdrop : (c :: t).dropWhile Str.isWhitespace = c :: t := by
        refine List.dropWhile_cons_of_neg ?_
        rw [hhead c rfl]
        exact Bool.false_ne_true
      show parseQuotedIdentifier ((c :: t) ++ r) = _
      rw [parse_word hw (List.cons_ne_nil _ _) (hnext hbehind)]
      show _ = if ((c :: t).dropWhile Str.isWhitespace).head?.any _ then _ else _
      rw [hdrop]
  | _ => cases hname

/-! ## Reading an item -/

theorem isAlpha_of_toUpper {c : Char} (h : c.toUpper.isAlpha = true) : c.isAlpha = true := by
  by_cases hlower : c.val ≥ 'a'.val ∧ c.val ≤ 'z'.val
  · have hlow : 97 ≤ c.toNat := UInt32.le_iff_toNat_le.mp hlower.1
    have hhigh : c.toNat ≤ 122 := UInt32.le_iff_toNat_le.mp hlower.2
    rw [isAlpha_iff]
    omega
  · rwa [show c.toUpper = c from dif_neg hlower] at h

/-- A keyword has letters only. -/
theorem isAlpha_of_keyword {k : Str} (h : k.map Char.toUpper ∈ constraintKeywords) :
    ∀ c ∈ k, c.isAlpha = true := by
  have hall : ∀ word ∈ constraintKeywords, word.all Char.isAlpha = true := by decide
  intro c hc
  exact isAlpha_of_toUpper (List.all_eq_true.mp (hall _ h) _ (List.mem_map_of_mem hc))

theorem isConstraint_iff (p : Piece) : p.isConstraint = true ↔
    p.token.kind = .bareName ∧ p.token.text.map Char.toUpper ∈ constraintKeywords := by
  simp only [Piece.isConstraint, Bool.and_eq_true, decide_eq_true_eq, List.contains_iff_mem]
  rfl

/-- The word before the first space or parenthesis. -/
def keywordOf (s : Str) : Str := s.takeWhile fun c => !(Str.isWhitespace c || c = '(')

theorem columnOf_eq {s : Str} (h : ∀ c ∈ s.head?, Str.isWhitespace c = false) :
    columnOf s = if (keywordOf s).map Char.toUpper ∈ constraintKeywords then none
      else (parseQuotedIdentifier s).map fun name => (name, s) := by
  have hdrop : s.dropWhile Str.isWhitespace = s := by
    cases s with
    | nil => rfl
    | cons c s =>
        refine List.dropWhile_cons_of_neg ?_
        rw [h c rfl]
        exact Bool.false_ne_true
  unfold columnOf
  rw [hdrop]
  rfl

theorem rdropWhile_cons {c : Char} (h : Str.isWhitespace c = false) (s : Str) :
    (c :: s).rdropWhile Str.isWhitespace = c :: s.rdropWhile Str.isWhitespace := by
  unfold List.rdropWhile
  rw [List.reverse_cons, List.dropWhile_append]
  split
  · next hempty =>
    rw [List.isEmpty_iff.mp hempty, List.dropWhile_cons_of_neg (by simp [h])]
    rfl
  · rw [List.reverse_append]
    rfl

/-- Spaces around a text are trimmed. -/
theorem trim_append {a d b : Str} (ha : ∀ c ∈ a, Str.isWhitespace c = true) (hne : d ≠ [])
    (hhead : ∀ c ∈ d.head?, Str.isWhitespace c = false) :
    Str.trim (a ++ d ++ b) = (d ++ b).rdropWhile Str.isWhitespace := by
  obtain ⟨c, d, rfl⟩ := List.exists_cons_of_ne_nil hne
  unfold Str.trim
  rw [List.append_assoc, List.dropWhile_append_of_pos ha, List.cons_append,
    List.dropWhile_cons_of_neg]
  rw [hhead c rfl]
  exact Bool.false_ne_true

theorem rdropWhile_append_of_last {d b : Str} (hb : ∀ c ∈ b, Str.isWhitespace c = true)
    (hlast : ∀ c ∈ d.getLast?, Str.isWhitespace c = false) :
    (d ++ b).rdropWhile Str.isWhitespace = d := by
  unfold List.rdropWhile
  rw [List.reverse_append, List.dropWhile_append_of_pos fun c hc => hb c (List.mem_reverse.mp hc)]
  have hdrop : d.reverse.dropWhile Str.isWhitespace = d.reverse := by
    cases hd : d.reverse with
    | nil => rfl
    | cons c t =>
        refine List.dropWhile_cons_of_neg ?_
        rw [hlast c (by rw [Option.mem_def, List.getLast?_eq_head?_reverse, hd]; rfl)]
        exact Bool.false_ne_true
  rw [hdrop, List.reverse_reverse]

/-- A text that is cut back to its front has spaces only behind it. -/
theorem whitespace_of_rdropWhile {d b : Str} (h : (d ++ b).rdropWhile Str.isWhitespace = d) :
    ∀ c ∈ b, Str.isWhitespace c = true := by
  have hsplit := List.rdropWhile_append_rtakeWhile (p := Str.isWhitespace) (l := d ++ b)
  rw [h] at hsplit
  rw [← List.append_cancel_left hsplit]
  exact fun c hc => List.mem_rtakeWhile_imp hc

section Spaces

variable {behind : Str} {ps : List Piece}

theorem whitespace_of_blank (hspace : ∀ p ∈ ps, p.isSpace = true)
    (h : ∀ p ∈ ps, p.isComment = false) : ∀ c ∈ raws ps, Str.isWhitespace c = true := by
  intro c hc
  obtain ⟨p, hp, hcp⟩ := List.mem_flatMap.mp hc
  have hblank := h p hp
  rw [Piece.isComment, hspace p hp, Bool.true_and, Bool.not_eq_false'] at hblank
  exact isWhitespace_of_isSpace (List.all_eq_true.mp hblank c hcp)

theorem shape_of_mem (hlexed : Lexed behind ps) {p : Piece} (hp : p ∈ ps) :
    ∃ b, Shape b p := by
  obtain ⟨front, back, rfl⟩ := List.append_of_mem hp
  exact ⟨_, (lexed_append.mp hlexed).2.1⟩

/-- A comment begins with a mark that is no space. -/
theorem comment_head {p : Piece} (h : Shape behind p) (hcomment : p.isComment = true) :
    ∃ c t, p.raw = c :: t ∧ (c = '-' ∨ c = '/') := by
  cases h with
  | @comment c t hc => exact ⟨c, t, rfl, hc⟩
  | @blank c t hraw =>
      have hall : (c :: t).all Sql.isSpace = true := List.all_eq_true.mpr hraw
      simp only [Piece.isComment, hall, Bool.not_true, Bool.and_false, Bool.false_eq_true]
        at hcomment
  | quote hquote => cases hquote <;> cases hcomment
  | _ => cases hcomment

theorem isWhitespace_mark {c : Char} (h : c = '-' ∨ c = '/') : Str.isWhitespace c = false := by
  rcases h with rfl | rfl <;> decide

/-- Where a comment is among spaces, the first mark behind the spaces is that of a comment. -/
theorem head_of_comment (hlexed : Lexed behind ps) (hspace : ∀ p ∈ ps, p.isSpace = true)
    (h : ∃ p ∈ ps, p.isComment = true) (r : Str) :
    ∃ c t, (raws ps ++ r).dropWhile Str.isWhitespace = c :: t ∧ (c = '-' ∨ c = '/') := by
  induction ps with
  | nil =>
      obtain ⟨p, hp, -⟩ := h
      cases hp
  | cons p ps ih =>
      obtain ⟨hp, hps⟩ := List.forall_mem_cons.mp hspace
      rw [raws_cons, List.append_assoc]
      by_cases hcomment : p.isComment = true
      · obtain ⟨c, t, hraw, hc⟩ := comment_head hlexed.1 hcomment
        refine ⟨c, t ++ (raws ps ++ r), ?_, hc⟩
        rw [hraw, List.cons_append, List.dropWhile_cons_of_neg]
        rw [isWhitespace_mark hc]
        exact Bool.false_ne_true
      · have hblank : ∀ c ∈ p.raw, Str.isWhitespace c = true := by
          have hraw := @whitespace_of_blank [p] (List.forall_mem_singleton.mpr hp)
            (List.forall_mem_singleton.mpr (Bool.eq_false_iff.mpr hcomment))
          rwa [raws_cons, raws, List.flatMap_nil, List.append_nil] at hraw
        rw [List.dropWhile_append_of_pos hblank]
        refine ih hlexed.2 hps ?_
        obtain ⟨q, hq, hqcomment⟩ := h
        rcases List.mem_cons.mp hq with rfl | hq
        · exact absurd hqcomment hcomment
        · exact ⟨q, hq, hqcomment⟩

end Spaces

/-- A name that is read in full, with its text. -/
inductive Reads : Piece → Prop
  | quoted {c r text} (hc : c = '"' ∨ c = '`' ∨ c = '[') :
      Reads ⟨⟨.quotedName, true, text⟩, c :: r⟩
  | bare {c r} (h : ∀ d ∈ c :: r, isWordPart d.toNat = true) :
      Reads ⟨⟨.bareName, true, c :: r⟩, c :: r⟩

theorem reads_of_identifierOf {behind : Str} {p : Piece} (h : Shape behind p)
    (hread : identifierOf p = some p.token.text) : Reads p := by
  cases h with
  | quote hquote =>
      cases hquote with
      | string => cases hread
      | double => exact .quoted (.inl rfl)
      | accent => exact .quoted (.inr (.inl rfl))
      | bracket => exact .quoted (.inr (.inr rfl))
  | @word c t =>
      refine .bare ?_
      simp only [identifierOf] at hread
      split at hread
      · -- the word read is no longer than what is left of the name
        have hread := Option.some_inj.mp hread
        have hdrop : (c :: t).dropWhile Str.isWhitespace = c :: t := by
          refine (List.dropWhile_suffix _).eq_of_length_le ?_
          conv_lhs => rw [← hread]
          exact (List.takeWhile_prefix _).length_le
        rw [hdrop] at hread
        intro d hd
        rw [← hread] at hd
        exact (List.mem_takeWhile_imp hd :)
      · cases hread
  | _ => cases hread

theorem Reads.head_plain {p : Piece} (h : Reads p) :
    ∀ c ∈ p.raw.head?, Str.isWhitespace c = false := by
  cases h with
  | quoted hc =>
      rintro d ⟨⟩
      rcases hc with rfl | rfl | rfl <;> decide
  | bare h =>
      rintro d ⟨⟩
      exact isWhitespace_of_isWordPart (h _ List.mem_cons_self)

theorem not_end_of_isWordPart {c : Char} (h : isWordPart c.toNat = true) :
    (!(Str.isWhitespace c || c = '(')) = true := by
  have hparen : c ≠ '(' := by
    rintro rfl
    exact absurd h (by decide)
  simp [isWhitespace_of_isWordPart h, hparen]

theorem isIdChar_of_isWordPart {c : Char} (h : isWordPart c.toNat = true) : isIdChar c = true := by
  rw [isWordPart_iff_code] at h
  rw [isIdChar_code]
  omega

/-- No column that is read is taken for a constraint. -/
theorem Reads.not_keyword {p : Piece} (h : Reads p) (hconstraint : p.isConstraint = false)
    {r : Str} (hr : p.token.kind = .bareName → ∀ c ∈ r.head?, isIdChar c = false) :
    (keywordOf (p.raw ++ r)).map Char.toUpper ∉ constraintKeywords := by
  intro hkeyword
  have halpha := isAlpha_of_keyword hkeyword
  cases h with
  | @quoted c t text hc =>
      have hmem : c ∈ keywordOf ((c :: t) ++ r) := by
        unfold keywordOf
        rw [List.cons_append, List.takeWhile_cons_of_pos]
        · exact List.mem_cons_self
        · rcases hc with rfl | rfl | rfl <;> decide
      have hc' := halpha c hmem
      rcases hc with rfl | rfl | rfl <;> exact absurd hc' (by decide)
  | @bare c t hpart =>
      have hsplit : keywordOf ((c :: t) ++ r) = (c :: t) ++ keywordOf r :=
        List.takeWhile_append_of_pos fun d hd => not_end_of_isWordPart (hpart d hd)
      rw [hsplit] at hkeyword halpha
      cases hrest : keywordOf r with
      | nil =>
          rw [hrest, List.append_nil] at hkeyword
          exact absurd ((isConstraint_iff _).mpr ⟨rfl, hkeyword⟩) (Bool.eq_false_iff.mp hconstraint)
      | cons d k =>
          -- behind the name there is no letter
          have hd : r.head? = some d := by
            obtain ⟨back, hback⟩ := List.takeWhile_prefix
              (fun c => !(Str.isWhitespace c || c = '(')) (l := r)
            unfold keywordOf at hrest
            rw [← hback, hrest]
            rfl
          have hid := hr rfl d hd
          have hletter := halpha d (by rw [hrest]; simp)
          rw [isAlpha_iff] at hletter
          rw [← Bool.not_eq_true, isIdChar_code] at hid
          omega

section Items

variable {behind : Str} {i : Item}

theorem raws_item (i : Item) : raws i.pieces = raws i.before ++ i.definition ++ raws i.after := by
  unfold Item.pieces Item.definition
  rw [raws_append, raws_append, List.append_assoc]

/-- What stands behind the first token, within the definition. -/
theorem definition_eq (i : Item) : i.definition = i.first.raw ++ raws i.inner := raws_cons _ _

theorem lexed_item (h : Lexed behind i.pieces) : ∃ b, Lexed b i.before ∧
    Shape (raws i.inner ++ (raws i.after ++ behind)) i.first ∧
    Lexed (raws i.after ++ behind) i.inner ∧ Lexed behind i.after := by
  obtain ⟨hfront, hafter⟩ := lexed_append.mp h
  obtain ⟨hbefore, hfirst, hinner⟩ := lexed_append.mp hfront
  exact ⟨_, hbefore, hfirst, hinner, hafter⟩

/-- Behind the first token and behind all that is left of the definition stands the same. -/
theorem head_inner (i : Item) (b : Str) (hinner : Lexed (raws i.after ++ behind) i.inner) :
    raws i.inner = [] ∨ (raws i.inner).head? = (raws i.inner ++ b).head? := by
  cases hi : i.inner with
  | nil => exact .inl rfl
  | cons p ps =>
      rw [hi] at hinner
      obtain ⟨c, t, hraw⟩ := List.exists_cons_of_ne_nil hinner.1.raw_ne_nil
      exact .inr (by rw [raws_cons, hraw]; rfl)

theorem head_isName {p : Piece} (h : Shape behind p) (hname : p.isName = true) :
    ∀ c ∈ p.raw.head?, c ≠ '-' ∧ c ≠ '/' := by
  cases h with
  | quote hquote =>
      cases hquote <;>
        · rintro c ⟨⟩
          decide
  | @word c t hc =>
      have hid := isIdChar_of_isIdStart hc
      rintro d ⟨⟩
      constructor
      · rintro rfl
        exact absurd hid (by decide)
      · rintro rfl
        exact absurd hid (by decide)
  | _ => cases hname

/-- The spaces and comments before a definition end where it begins, or with a mark of a
comment. -/
theorem trim_item (h : Lexed behind i.pieces) (htrim : Str.trim (raws i.pieces) = i.definition) :
    (∀ p ∈ i.before ++ i.after, p.isComment = false) ∧
      ∀ c ∈ i.definition.head?, Str.isWhitespace c = false := by
  obtain ⟨b, hbefore, hfirst, -, hafter⟩ := lexed_item h
  have hhead : ∀ c ∈ i.definition.head?, Str.isWhitespace c = false := by
    rw [← htrim]
    exact Str.head_trim _
  have hne : i.definition ≠ [] := by
    rw [definition_eq]
    exact List.append_ne_nil_of_left_ne_nil hfirst.raw_ne_nil _
  refine ⟨fun p hp => ?_, hhead⟩
  have hnoBefore : ∀ p ∈ i.before, p.isComment = false := by
    intro p hp
    by_contra hcomment
    obtain ⟨c, t, hdrop, hc⟩ := head_of_comment hbefore i.before_space
      ⟨p, hp, Bool.not_eq_false _ ▸ hcomment⟩ (i.definition ++ raws i.after)
    -- the mark would be the first character of the definition
    have hmark : i.definition.head? = some c := by
      rw [← htrim, raws_item, List.append_assoc, Str.trim, hdrop]
      obtain ⟨t', ht'⟩ := List.rdropWhile_prefix Str.isWhitespace (c :: t)
      cases hr : (c :: t).rdropWhile Str.isWhitespace with
      | nil =>
          have hall := (List.rdropWhile_eq_nil_iff.mp hr) c List.mem_cons_self
          rw [isWhitespace_mark hc] at hall
          cases hall
      | cons d u =>
          rw [hr] at ht'
          exact congrArg some (List.cons.inj ht').1
    rw [definition_eq, List.head?_append_of_ne_nil _ hfirst.raw_ne_nil] at hmark
    have hplain := head_isName hfirst i.isName_first c hmark
    rcases hc with rfl | rfl
    · exact hplain.1 rfl
    · exact hplain.2 rfl
  rcases List.mem_append.mp hp with hp | hp
  · exact hnoBefore p hp
  · by_contra hcomment
    rw [raws_item, trim_append (whitespace_of_blank i.before_space hnoBefore) hne hhead] at htrim
    have hspaces := whitespace_of_rdropWhile htrim
    obtain ⟨b', hshape⟩ := shape_of_mem hafter hp
    obtain ⟨c, t, hraw, hc⟩ := comment_head hshape (Bool.not_eq_false _ ▸ hcomment)
    have hspace := hspaces c (List.mem_flatMap.mpr ⟨p, hp, hraw ▸ List.mem_cons_self⟩)
    rw [isWhitespace_mark hc] at hspace
    cases hspace

/-- A column is read as declared exactly if it is readable. -/
theorem readItem_column_iff (h : Lexed behind i.pieces) (hcolumn : i.first.isConstraint = false) :
    readItem i = some (i.first.token.text, i.definition) ↔ Readable i := by
  obtain ⟨b, hbefore, hfirst, hinner, hafter⟩ := lexed_item h
  have hne : i.definition ≠ [] := by
    rw [definition_eq]
    exact List.append_ne_nil_of_left_ne_nil hfirst.raw_ne_nil _
  have hheadFirst : i.definition.head? = i.first.raw.head? := by
    rw [definition_eq, List.head?_append_of_ne_nil _ hfirst.raw_ne_nil]
  have hparse (hhead : ∀ c ∈ i.definition.head?, Str.isWhitespace c = false) :
      parseQuotedIdentifier i.definition = identifierOf i.first := by
    rw [definition_eq]
    exact parse_name hfirst i.isName_first (head_inner i _ hinner) (hheadFirst ▸ hhead)
  unfold Readable
  rw [if_neg (by rw [hcolumn]; exact Bool.false_ne_true)]
  unfold readItem
  rw [columnOf_eq (Str.head_trim _)]
  constructor
  · intro hread
    split at hread
    · cases hread
    · obtain ⟨name, hname, hpair⟩ := Option.map_eq_some_iff.mp hread
      obtain ⟨rfl, htrim⟩ := Prod.mk.inj hpair
      obtain ⟨hcomments, hhead⟩ := trim_item h htrim
      rw [htrim, hparse hhead] at hname
      exact ⟨hname, hcomments, htrim ▸ Str.last_trim _⟩
  · rintro ⟨hname, hcomments, hlast⟩
    obtain ⟨hnoBefore, hnoAfter⟩ := List.forall_mem_append.mp hcomments
    have hreads := reads_of_identifierOf hfirst hname
    have hhead : ∀ c ∈ i.definition.head?, Str.isWhitespace c = false :=
      hheadFirst ▸ hreads.head_plain
    have htrim : Str.trim (raws i.pieces) = i.definition := by
      rw [raws_item, trim_append (whitespace_of_blank i.before_space hnoBefore) hne hhead]
      exact rdropWhile_append_of_last (whitespace_of_blank i.after_space hnoAfter) hlast
    have hkeyword := hreads.not_keyword hcolumn (r := raws i.inner) fun hbare c hc => by
      rcases head_inner i (raws i.after ++ behind) hinner with hnil | hhead
      · rw [hnil] at hc
        cases hc
      · exact hfirst.behind_bareName hbare c (hhead ▸ hc)
    rw [htrim, definition_eq, if_neg hkeyword, ← definition_eq, hparse hhead, hname]
    rfl

theorem rdropWhile_append_plain {d : Str} (h : ∀ c ∈ d, Str.isWhitespace c = false) (r : Str) :
    (d ++ r).rdropWhile Str.isWhitespace = d ++ r.rdropWhile Str.isWhitespace := by
  induction d with
  | nil => rfl
  | cons c d ih =>
      obtain ⟨hc, hd⟩ := List.forall_mem_cons.mp h
      rw [List.cons_append, rdropWhile_cons hc, ih hd, List.cons_append]

/-- What is behind a keyword sets it off, or is neither space nor letter. -/
theorem head_next {p : Piece} {c : Char} (h : Shape behind p) (hc : p.raw.head? = some c)
    (hid : isIdChar c = false) (hnext : (p.isSpace && !p.isComment || p.is '(') = false) :
    Str.isWhitespace c = false ∧ c ≠ '(' := by
  simp only [Bool.or_eq_false_iff, Bool.and_eq_false_imp, Bool.not_eq_false'] at hnext
  cases h with
  | @blank d r hraw =>
      have hall : (d :: r).all Sql.isSpace = true := List.all_eq_true.mpr hraw
      have hcomment := hnext.1 rfl
      simp only [Piece.isComment, hall, Bool.not_true, Bool.and_false, Bool.false_eq_true]
        at hcomment
  | comment hmark =>
      obtain rfl := Option.some_inj.mp hc
      rcases hmark with rfl | rfl <;> decide
  | quote hquote =>
      obtain rfl := Option.some_inj.mp hc
      cases hquote <;> decide
  | blob hx =>
      obtain rfl := Option.some_inj.mp hc
      rcases hx with rfl | rfl <;> exact absurd hid (by decide)
  | word hstart =>
      obtain rfl := Option.some_inj.mp hc
      rw [isIdChar_of_isIdStart hstart] at hid
      cases hid
  | @number d r hd =>
      obtain rfl := Option.some_inj.mp hc
      rcases hd with hd | rfl
      · rw [isDigit_iff] at hd
        rw [← Bool.not_eq_true, isIdChar_code] at hid
        omega
      · decide
  | @symbol d hd =>
      obtain rfl := Option.some_inj.mp hc
      have hparen : d ≠ '(' := by
        rintro rfl
        exact absurd hnext.2 (by decide)
      refine ⟨?_, hparen⟩
      rcases hd with hd | rfl
      · have hall : "-+*/%()=<>|&~,.;!".toList.all (fun d => !Str.isWhitespace d) = true := by
          decide
        simpa only [Bool.not_eq_true'] using
          List.all_eq_true.mp hall d (List.contains_iff_mem.mp hd)
      · exact absurd hid (by decide)

theorem columnOf_mark {c : Char} (h : c = '-' ∨ c = '/') (s : Str) : columnOf (c :: s) = none := by
  have hhead : ∀ d ∈ (c :: s).head?, Str.isWhitespace d = false := by
    rintro d ⟨⟩
    exact isWhitespace_mark h
  rw [columnOf_eq hhead]
  split
  · rfl
  · rcases h with rfl | rfl <;> rfl

theorem ne_nil_of_keyword {w : Str} (hw : w.map Char.toUpper ∈ constraintKeywords) : w ≠ [] := by
  rintro rfl
  exact absurd hw (by decide)

theorem isWordPart_of_keyword {w : Str} (hw : w.map Char.toUpper ∈ constraintKeywords) :
    ∀ c ∈ w, isWordPart c.toNat = true := by
  intro c hc
  have hletter := (isAlpha_iff c).mp (isAlpha_of_keyword hw c hc)
  rw [isWordPart_iff_code]
  omega

theorem head_keyword {w : Str} (hw : w.map Char.toUpper ∈ constraintKeywords) (r : Str) :
    ∀ c ∈ (w ++ r).head?, Str.isWhitespace c = false := by
  rw [List.head?_append_of_ne_nil _ (ne_nil_of_keyword hw)]
  exact fun c hc => isWhitespace_of_isWordPart (isWordPart_of_keyword hw c (List.mem_of_head? hc))

/-- A keyword that is set off is recognised. -/
theorem columnOf_keyword {w r : Str} (hw : w.map Char.toUpper ∈ constraintKeywords)
    (hr : ∀ c ∈ r.head?, Str.isWhitespace c = true ∨ c = '(') : columnOf (w ++ r) = none := by
  have hpart := isWordPart_of_keyword hw
  have hend : keywordOf r = [] := by
    cases r with
    | nil => rfl
    | cons c r =>
        refine List.takeWhile_cons_of_neg ?_
        rcases hr c rfl with h | rfl
        · simp [h]
        · decide
  have hkeyword : keywordOf (w ++ r) = w := by
    have hfront : keywordOf (w ++ r) = w ++ keywordOf r :=
      List.takeWhile_append_of_pos fun c hc => not_end_of_isWordPart (hpart c hc)
    rw [hfront, hend, List.append_nil]
  rw [columnOf_eq (head_keyword hw r), hkeyword, if_pos hw]

/-- A keyword with a mark at its end is taken for a column. -/
theorem columnOf_glued {w r : Str} {c : Char} (hw : w.map Char.toUpper ∈ constraintKeywords)
    (hws : Str.isWhitespace c = false) (hparen : c ≠ '(') (hid : isIdChar c = false) :
    columnOf (w ++ c :: r) = some (w, w ++ c :: r) := by
  have hpart := isWordPart_of_keyword hw
  have hkeyword : (keywordOf (w ++ c :: r)).map Char.toUpper ∉ constraintKeywords := by
    intro hlong
    have hmem : c ∈ keywordOf (w ++ c :: r) := by
      have hfront : keywordOf (w ++ c :: r) = w ++ keywordOf (c :: r) :=
        List.takeWhile_append_of_pos fun c hc => not_end_of_isWordPart (hpart c hc)
      have hgoes : keywordOf (c :: r) = c :: keywordOf r :=
        List.takeWhile_cons_of_pos (by simp [hws, hparen])
      rw [hfront, hgoes]
      exact List.mem_append_right _ List.mem_cons_self
    have hletter := (isAlpha_iff c).mp (isAlpha_of_keyword hlong c hmem)
    rw [← Bool.not_eq_true, isIdChar_code] at hid
    omega
  have hbehind : ∀ d ∈ (c :: r).head?, isIdChar d = false := by
    rintro d ⟨⟩
    exact hid
  have hstart : w.head?.any (fun d => isWordStart d.toNat) = true := by
    obtain ⟨d, t, rfl⟩ := List.exists_cons_of_ne_nil (ne_nil_of_keyword hw)
    have hd := (isAlpha_iff d).mp (isAlpha_of_keyword hw d List.mem_cons_self)
    exact (isWordStart_iff_code _).mpr (by omega)
  have hall : w.takeWhile (fun d => isWordPart d.toNat) = w := by
    have hwhile := @List.takeWhile_append_of_pos _ _ _ [] hpart
    rwa [List.append_nil, List.takeWhile_nil, List.append_nil] at hwhile
  rw [columnOf_eq (head_keyword hw _), if_neg hkeyword,
    parse_word (fun d hd => isIdChar_of_isWordPart (hpart d hd)) (ne_nil_of_keyword hw) hbehind,
    if_pos hstart, hall]
  rfl

/-- Behind a keyword stands what sets it off, or a mark. -/
theorem readItem_keyword (h : Lexed behind i.pieces) (hconstraint : i.first.isConstraint = true)
    (hno : ∀ p ∈ i.before, p.isComment = false) :
    (∀ p ∈ (i.inner ++ i.after).head?, p.isSpace && !p.isComment || p.is '(') ∧
        readItem i = none ∨
      ¬(∀ p ∈ (i.inner ++ i.after).head?, p.isSpace && !p.isComment || p.is '(') ∧
        ∃ r, readItem i = some (i.first.token.text, i.first.token.text ++ r) := by
  obtain ⟨b, -, hfirst, hinner, hafter⟩ := lexed_item h
  obtain ⟨hbare, hkeyword⟩ := (isConstraint_iff _).mp hconstraint
  have hraw := hfirst.raw_bareName hbare
  have hne := ne_nil_of_keyword hkeyword
  have htrim : Str.trim (raws i.pieces) = i.first.token.text ++
      (raws (i.inner ++ i.after)).rdropWhile Str.isWhitespace := by
    have hitem : i.definition ++ raws i.after =
        i.first.token.text ++ raws (i.inner ++ i.after) := by
      rw [definition_eq, hraw, List.append_assoc, raws_append]
    rw [raws_item, trim_append (whitespace_of_blank i.before_space hno), hitem,
      rdropWhile_append_plain]
    · exact fun c hc => isWhitespace_of_isWordPart (isWordPart_of_keyword hkeyword c hc)
    · rw [definition_eq, hraw]
      exact List.append_ne_nil_of_left_ne_nil hne _
    · rw [definition_eq, hraw]
      exact head_keyword hkeyword _
  have hlexed : Lexed behind (i.inner ++ i.after) := lexed_append.mpr ⟨hinner, hafter⟩
  have hid := hfirst.behind_bareName hbare
  rw [← List.append_assoc, ← raws_append] at hid
  unfold readItem
  rw [htrim]
  cases hpieces : i.inner ++ i.after with
  | nil => exact .inl ⟨nofun, columnOf_keyword hkeyword nofun⟩
  | cons p ps =>
      rw [hpieces] at hlexed hid
      obtain ⟨c, t, hp⟩ := List.exists_cons_of_ne_nil hlexed.1.raw_ne_nil
      rw [raws_cons, hp] at hid ⊢
      cases hnext : (p.isSpace && !p.isComment || p.is '(') with
      | true =>
          refine .inl ⟨fun q hq => Option.some_inj.mp hq ▸ hnext, columnOf_keyword hkeyword ?_⟩
          -- the first character, if it is not trimmed
          intro d hd
          obtain ⟨back, hback⟩ := List.rdropWhile_prefix Str.isWhitespace ((c :: t) ++ raws ps)
          have hdc : d = c := by
            have hhead := congrArg List.head? hback
            rw [List.head?_append, hd] at hhead
            exact Option.some_inj.mp hhead
          rw [hdc]
          rcases Bool.or_eq_true_iff.mp hnext with hblank | hopen
          · obtain ⟨hspace, hcomment⟩ := Bool.and_eq_true_iff.mp hblank
            refine .inl (@whitespace_of_blank [p] (List.forall_mem_singleton.mpr hspace)
              (List.forall_mem_singleton.mpr (by simpa using hcomment)) c ?_)
            rw [raws_cons, hp]
            exact List.mem_cons_self
          · rw [hlexed.1.raw_of_is hopen] at hp
            exact .inr (List.cons.inj hp).1.symm
      | false =>
          have hc : isIdChar c = false := hid c rfl
          obtain ⟨hws, hparen⟩ := head_next hlexed.1 (by rw [hp]; rfl) hc hnext
          rw [List.cons_append, rdropWhile_cons hws]
          exact .inr ⟨fun h => Bool.false_ne_true (hnext ▸ h p rfl), _,
            columnOf_glued hkeyword hws hparen hc⟩

theorem readItem_constraint (h : Lexed behind i.pieces)
    (hconstraint : i.first.isConstraint = true) :
    (readItem i = none ↔ Readable i) ∧
      ∀ v ∈ readItem i, v.1 = i.first.token.text ∧ v.2.head? = i.first.raw.head? := by
  obtain ⟨b, hbefore, hfirst, -, -⟩ := lexed_item h
  obtain ⟨hbare, hkeyword⟩ := (isConstraint_iff _).mp hconstraint
  unfold Readable
  rw [if_pos hconstraint]
  by_cases hcomment : i.before.any Piece.isComment = true
  · -- the comment hides the item
    obtain ⟨c, t, hdrop, hc⟩ := head_of_comment hbefore i.before_space
      (List.any_eq_true.mp hcomment) (i.definition ++ raws i.after)
    have hnone : readItem i = none := by
      rw [readItem, raws_item, List.append_assoc, Str.trim, hdrop,
        rdropWhile_cons (isWhitespace_mark hc)]
      exact columnOf_mark hc _
    rw [hnone]
    exact ⟨iff_of_true rfl (.inl hcomment), by rintro _ ⟨⟩⟩
  · have hno : ∀ p ∈ i.before, p.isComment = false := fun p hp =>
      Bool.eq_false_iff.mpr fun hp' => hcomment (List.any_eq_true.mpr ⟨p, hp, hp'⟩)
    rcases readItem_keyword h hconstraint hno with ⟨hnext, hnone⟩ | ⟨hnext, r, hsome⟩
    · rw [hnone]
      exact ⟨iff_of_true rfl (.inr hnext), by rintro _ ⟨⟩⟩
    · rw [hsome]
      refine ⟨iff_of_false (Option.some_ne_none _) (not_or.mpr ⟨hcomment, hnext⟩), ?_⟩
      rintro v ⟨⟩
      rw [hfirst.raw_bareName hbare]
      exact ⟨rfl, List.head?_append_of_ne_nil _ (ne_nil_of_keyword hkeyword)⟩

theorem readItem_iff (h : Lexed behind i.pieces) : readItem i = i.column ↔ Readable i := by
  unfold Item.column
  cases hc : i.first.isConstraint with
  | true => exact (readItem_constraint h hc).1
  | false => exact readItem_column_iff h hc

/-- No constraint is read as one of the columns. -/
theorem not_column_of_constraint {j : Item} {bj : Str} (h : Lexed behind i.pieces)
    (hj : Lexed bj j.pieces) (hconstraint : i.first.isConstraint = true) {v : Str × Str}
    (hv : readItem i = some v) : j.column ≠ some v := by
  intro hcolumn
  unfold Item.column at hcolumn
  split at hcolumn
  · cases hcolumn
  · next hno =>
    refine hno ?_
    obtain ⟨hname, hhead⟩ := (readItem_constraint h hconstraint).2 v hv
    obtain rfl := Option.some_inj.mp hcolumn
    obtain ⟨-, -, hfirst, -, -⟩ := lexed_item h
    obtain ⟨-, -, hfirst', -, -⟩ := lexed_item hj
    obtain ⟨hbare, hkeyword⟩ := (isConstraint_iff _).mp hconstraint
    obtain ⟨c, w, hw⟩ := List.exists_cons_of_ne_nil (ne_nil_of_keyword hkeyword)
    have hc : j.first.raw.head? = some c := by
      rw [definition_eq, List.head?_append_of_ne_nil _ hfirst'.raw_ne_nil,
        hfirst.raw_bareName hbare, hw] at hhead
      exact hhead
    have hletter := isAlpha_of_keyword hkeyword c (hw ▸ List.mem_cons_self)
    -- a name that begins with a letter is bare
    rw [← show j.first.token.text = i.first.token.text from hname] at hkeyword
    refine (isConstraint_iff _).mpr ⟨?_, hkeyword⟩
    have hisName := j.isName_first
    generalize j.first = p at hfirst' hc hisName
    cases hfirst' with
    | word => rfl
    | quote hquote =>
        obtain rfl := Option.some_inj.mp hc
        cases hquote <;> exact absurd hletter (by decide)
    | _ => cases hisName

end Items

/-- Where the second function has a value wherever the first has one, equal lists come from
equal values. -/
theorem eq_of_filterMap_eq {α β : Type} {f g : α → Option β} {l : List α}
    (hsome : ∀ x ∈ l, g x = none → f x = none) (h : l.filterMap f = l.filterMap g) :
    ∀ x ∈ l, f x = g x := by
  have hlength : ∀ l : List α, (∀ x ∈ l, g x = none → f x = none) →
      (l.filterMap f).length ≤ (l.filterMap g).length := by
    intro l
    induction l with
    | nil => exact fun _ => le_rfl
    | cons x l ih =>
        intro hl
        obtain ⟨hx, hl⟩ := List.forall_mem_cons.mp hl
        have hrest := ih hl
        rw [List.filterMap_cons, List.filterMap_cons]
        cases hg : g x with
        | none => rwa [hx hg]
        | some b =>
            cases f x with
            | none => exact Nat.le_succ_of_le hrest
            | some a => exact Nat.succ_le_succ hrest
  induction l with
  | nil => exact List.forall_mem_nil _
  | cons x l ih =>
      obtain ⟨hx, hl⟩ := List.forall_mem_cons.mp hsome
      rw [List.filterMap_cons, List.filterMap_cons] at h
      cases hg : g x with
      | none =>
          rw [hg, hx hg] at h
          exact List.forall_mem_cons.mpr ⟨(hx hg).trans hg.symm, ih hl h⟩
      | some b =>
          cases hf : f x with
          | none =>
              rw [hg, hf] at h
              have hle := hlength l hl
              dsimp only at h
              rw [h, List.length_cons] at hle
              omega
          | some a =>
              rw [hg, hf] at h
              obtain ⟨rfl, hrest⟩ := List.cons.inj h
              exact List.forall_mem_cons.mpr ⟨hf.trans hg.symm, ih hl hrest⟩

/-- The columns are those declared exactly if every item is readable. -/
theorem parseCreateTableColumns_iff {s : Str} {t : Table} (ht : Declares s t) (h : Aligned t) :
    parseCreateTableColumns s = t.columns ↔ ∀ i ∈ t.items, Readable i := by
  rw [parseCreateTableColumns_eq ht h]
  constructor
  · intro heq i hi
    obtain ⟨b, hlexed⟩ := ht.items i hi
    refine (readItem_iff hlexed).mp (eq_of_filterMap_eq (fun j hj hnone => ?_) heq i hi)
    obtain ⟨bj, hj'⟩ := ht.items j hj
    have hconstraint : j.first.isConstraint = true := by
      by_contra hno
      rw [Item.column, if_neg hno] at hnone
      cases hnone
    cases hv : readItem j with
    | none => rfl
    | some v =>
        have hmem : v ∈ t.items.filterMap Item.column := by
          show v ∈ t.columns
          rw [← heq]
          exact List.mem_filterMap.mpr ⟨j, hj, hv⟩
        obtain ⟨k, hk, hcolumn⟩ := List.mem_filterMap.mp hmem
        obtain ⟨bk, hk'⟩ := ht.items k hk
        exact absurd hcolumn (not_column_of_constraint hj' hk' hconstraint hv)
  · intro hall
    refine List.filterMap_congr fun i hi => ?_
    obtain ⟨b, hlexed⟩ := ht.items i hi
    exact (readItem_iff hlexed).mpr (hall i hi)

/-! ## The commands -/

/-- All columns of the table of a name. -/
def allColumns (r : List StoredTable) (name : Str) : List Str :=
  match findTable r name with
  | some t => t.columns.map TableColumn.name
  | none => []

/-- The declared columns that the replica's table lacks. -/
def lacking (r : List StoredTable) (t : Table) : List (Str × Str) :=
  t.columns.filter fun c => Str.lower c.1 ∉ (allColumns r t.name.token.text).map Str.lower

/-- The commands that add just these. -/
def intendedCommands (existing : List Str) (r : List StoredTable) (t : Table) : List Str :=
  alterCommands (doubleQuotes '"' t.name.token.text) (doubleQuotes '\'' t.name.token.text)
    (clockTable t.name.token.text ∈ existing) (lacking r t)

/-- The columns read are those declared, and a table the replica has gets those it lacks. -/
def Published (existing : List Str) (r : List StoredTable) (s : Str) (t : Table) : Prop :=
  parseCreateTableColumns s = t.columns ∧
    ((findTable r t.name.token.text).isSome = true →
      schemaCommands existing r s = intendedCommands existing r t)

/-- The replica's table is found under the name read, its columns are listed, and there are
no quotes in its name where columns are to be added. -/
def Reachable (existing : List Str) (r : List StoredTable) (t : Table) : Prop :=
  ∃ n, identifierOf t.name = some n ∧ n ∈ existing ∧
    (∀ c ∈ t.columns, Str.lower c.1 ∈ (tableColumns r n).map Str.lower ↔
      Str.lower c.1 ∈ (allColumns r t.name.token.text).map Str.lower) ∧
    (lacking r t ≠ [] → n = t.name.token.text ∧ '"' ∉ n ∧
      (clockTable n ∈ existing → '\'' ∉ n))

theorem toLower_of_not_isAlpha {c : Char} (h : c.isAlpha = false) : c.toLower = c := by
  refine dif_neg fun hupper => ?_
  have hlow : 65 ≤ c.toNat := UInt32.le_iff_toNat_le.mp hupper.1
  have hhigh : c.toNat ≤ 90 := UInt32.le_iff_toNat_le.mp hupper.2
  rw [← Bool.not_eq_true, isAlpha_iff] at h
  omega

theorem isAlpha_toLower (c : Char) : c.toLower.isAlpha = c.isAlpha := by
  by_cases hupper : c.val ≥ 'A'.val ∧ c.val ≤ 'Z'.val
  · have hlow : 65 ≤ c.toNat := UInt32.le_iff_toNat_le.mp hupper.1
    have hhigh : c.toNat ≤ 90 := UInt32.le_iff_toNat_le.mp hupper.2
    have hcode : c.toLower.toNat = c.toNat + 32 := by
      have hval : c.toLower.val = c.val + ('a'.val - 'A'.val) := by
        rw [Char.toLower, dif_pos hupper]
      have hsum : (c.val + ('a'.val - 'A'.val)).toNat = (c.toNat + 32) % 2 ^ 32 :=
        UInt32.toNat_add _ _
      rw [Char.toNat, hval, hsum, Nat.mod_eq_of_lt (by omega)]
    rw [(isAlpha_iff c).mpr (by omega), (isAlpha_iff _).mpr (by omega)]
  · rw [show c.toLower = c from dif_neg hupper]

theorem isWhitespace_of_isAlpha {c : Char} (h : c.isAlpha = true) :
    Str.isWhitespace c = false := by
  rw [isAlpha_iff] at h
  rw [← Bool.not_eq_true, isWhitespace_iff_code]
  omega

theorem isWhitespace_toLower (c : Char) : Str.isWhitespace c.toLower = Str.isWhitespace c := by
  cases h : c.isAlpha with
  | false => rw [toLower_of_not_isAlpha h]
  | true =>
      rw [isWhitespace_of_isAlpha h, isWhitespace_of_isAlpha]
      rwa [isAlpha_toLower]

theorem dropWhile_lower (s : Str) :
    (Str.lower s).dropWhile Str.isWhitespace = Str.lower (s.dropWhile Str.isWhitespace) := by
  unfold Str.lower
  rw [List.dropWhile_map]
  refine congrArg _ (congrArg (fun p => s.dropWhile p) (funext fun c => ?_))
  exact isWhitespace_toLower c

/-- Behind the name the first character that is no space is a mark. -/
theorem head_gap {gap : List Piece} {body : Str} (hlexed : Lexed ('(' :: body) gap)
    (hspace : ∀ p ∈ gap, p.isSpace = true) :
    ∃ c t, (raws gap ++ '(' :: body).dropWhile Str.isWhitespace = c :: t ∧
      (c = '-' ∨ c = '/' ∨ c = '(') := by
  by_cases hcomment : ∃ p ∈ gap, p.isComment = true
  · obtain ⟨c, t, hdrop, hc⟩ := head_of_comment hlexed hspace hcomment ('(' :: body)
    exact ⟨c, t, hdrop, hc.imp_right .inl⟩
  · have hblank := whitespace_of_blank hspace fun p hp =>
      Bool.eq_false_iff.mpr fun h => hcomment ⟨p, hp, h⟩
    refine ⟨'(', body, ?_, .inr (.inr rfl)⟩
    rw [List.dropWhile_append_of_pos hblank, List.dropWhile_cons_of_neg (by decide)]

/-- No name and what may stand behind it look like `if not exists`. -/
theorem not_ifNotExists {behind : Str} {p : Piece} (h : Shape behind p) (hname : p.isName = true)
    (hbehind : ∃ c t, behind.dropWhile Str.isWhitespace = c :: t ∧
      (c = '-' ∨ c = '/' ∨ c = '(')) :
    ¬"if not exists".toList <+: Str.lower ((p.raw ++ behind).dropWhile Str.isWhitespace) := by
  rintro ⟨u, hu⟩
  obtain ⟨a, y, hy, ha, hu⟩ := List.map_eq_cons_iff.mp hu.symm
  obtain ⟨b, y, rfl, hb, hu⟩ := List.map_eq_cons_iff.mp hu
  obtain ⟨c, y, rfl, hc, hu⟩ := List.map_eq_cons_iff.mp hu
  obtain ⟨d, y, rfl, hd, -⟩ := List.map_eq_cons_iff.mp hu
  have hletter {x z : Char} (hx : x.toLower = z) (hz : z.isAlpha = true) : x.isAlpha = true := by
    rwa [← isAlpha_toLower, hx]
  have hmark {x : Char} (hx : x.isAlpha = true) : ¬(x = '-' ∨ x = '/' ∨ x = '(') := by
    rintro (rfl | rfl | rfl) <;> exact absurd hx (by decide)
  have hidOf {x : Char} (hx : x.isAlpha = true) : isIdChar x = true := by
    rw [isAlpha_iff] at hx
    rw [isIdChar_code]
    omega
  obtain rfl : c = ' ' := by
    cases hc' : c.isAlpha with
    | false => rwa [toLower_of_not_isAlpha hc'] at hc
    | true =>
        rw [← isAlpha_toLower, hc] at hc'
        exact absurd hc' (by decide)
  have ha := hletter ha (by decide)
  have hb := hletter hb (by decide)
  have hd := hletter hd (by decide)
  obtain ⟨x, t, hdrop, hx⟩ := hbehind
  cases h with
  | @quote kind q close doubled text r hquote =>
      -- the name begins with its quote
      have hq : q.isAlpha = false ∧ Str.isWhitespace q = false := by
        cases hquote <;> decide
      rw [List.cons_append, List.dropWhile_cons_of_neg (by rw [hq.2]; exact Bool.false_ne_true)]
        at hy
      obtain ⟨rfl, -⟩ := List.cons.inj hy
      rw [hq.1] at ha
      cases ha
  | @word w r hw hr hend =>
      have hall : ∀ z ∈ w :: r, isIdChar z = true :=
        List.forall_mem_cons.mpr ⟨isIdChar_of_isIdStart hw, hr⟩
      have hword : ∀ z ∈ (w :: r).dropWhile Str.isWhitespace, isIdChar z = true := fun z hz =>
        hall z ((List.dropWhile_suffix _).subset hz)
      have hnext {z : Char} {v : Str} (hz : behind = z :: v) : isIdChar z = false :=
        hend z (by rw [hz]; rfl)
      rw [List.dropWhile_append] at hy
      split at hy
      · -- only spaces in the name
        rw [hdrop] at hy
        obtain ⟨rfl, -⟩ := List.cons.inj hy
        exact hmark ha hx
      next hne =>
      match hrest : (w :: r).dropWhile Str.isWhitespace with
      | [] => exact hne (by rw [hrest]; rfl)
      | [_] =>
          rw [hrest] at hy
          have hid := hnext (List.cons.inj hy).2
          rw [hidOf hb] at hid
          cases hid
      | [_, _] =>
          rw [hrest] at hy
          have hbehind := (List.cons.inj (List.cons.inj hy).2).2
          have hstop : (behind.dropWhile Str.isWhitespace) = d :: y := by
            rw [show behind = ' ' :: d :: y from hbehind, List.dropWhile_cons_of_pos (by decide),
              List.dropWhile_cons_of_neg (by simp [isWhitespace_of_isAlpha hd])]
          rw [hstop] at hdrop
          obtain ⟨rfl, -⟩ := List.cons.inj hdrop
          exact hmark hd hx
      | _ :: _ :: z :: v =>
          rw [hrest] at hy hword
          have hz := (List.cons.inj (List.cons.inj (List.cons.inj hy).2).2).1
          have hid := hword z (by simp)
          rw [show z = ' ' from hz] at hid
          exact absurd hid (by decide)
  | _ => cases hname

/-- A name behind which stand spaces, comments and a parenthesis. -/
theorem parse_trimmed_name {behind : Str} {p : Piece} (h : Shape behind p)
    (hname : p.isName = true)
    (hbehind : ∃ c t, behind.dropWhile Str.isWhitespace = c :: t ∧
      (c = '-' ∨ c = '/' ∨ c = '(')) :
    parseQuotedIdentifier ((p.raw ++ behind).dropWhile Str.isWhitespace) = identifierOf p := by
  obtain ⟨x, t, hdrop, hx⟩ := hbehind
  have hquote (hhead : ∀ c ∈ p.raw.head?, Str.isWhitespace c = false) :
      parseQuotedIdentifier ((p.raw ++ behind).dropWhile Str.isWhitespace) = identifierOf p := by
    obtain ⟨c, r, hraw⟩ := List.exists_cons_of_ne_nil h.raw_ne_nil
    rw [← parse_name h hname (.inr rfl) hhead, hraw, List.cons_append,
      List.dropWhile_cons_of_neg]
    rw [hhead c (by rw [hraw]; rfl)]
    exact Bool.false_ne_true
  cases h with
  | quote hq =>
      refine hquote ?_
      rintro c ⟨⟩
      cases hq <;> decide
  | @word w r hw hr hend =>
      have hall : ∀ z ∈ w :: r, isIdChar z = true :=
        List.forall_mem_cons.mpr ⟨isIdChar_of_isIdStart hw, hr⟩
      show parseQuotedIdentifier (((w :: r) ++ behind).dropWhile Str.isWhitespace) =
        if ((w :: r).dropWhile Str.isWhitespace).head?.any (fun c => isWordStart c.toNat) then _
        else none
      rw [List.dropWhile_append]
      cases hrest : (w :: r).dropWhile Str.isWhitespace with
      | nil =>
          -- the name has spaces only, and the mark behind it is no name
          rw [List.isEmpty_nil, if_pos rfl, hdrop]
          rcases hx with rfl | rfl | rfl <;> rfl
      | cons z v =>
          have hword : ∀ d ∈ z :: v, isIdChar d = true := fun d hd =>
            hall d ((List.dropWhile_suffix Str.isWhitespace).subset (hrest ▸ hd))
          rw [List.isEmpty_cons, if_neg Bool.false_ne_true]
          exact parse_word hword (List.cons_ne_nil _ _) hend
  | _ => cases hname

theorem createTableTarget_eq {s : Str} {t : Table} (ht : Declares s t) :
    createTableTarget s = identifierOf t.name := by
  obtain ⟨behind, hbehind⟩ : ∃ b, b = raws t.gap ++ '(' :: raws t.body := ⟨_, rfl⟩
  have hname := ht.name
  have hgap := head_gap ht.gap ht.gap_space
  rw [← hbehind] at hname hgap
  have hs : s = "CREATE TABLE".toList ++ ' ' :: (t.name.raw ++ behind) := by
    rw [ht.text, raws_cons, List.append_assoc, hbehind]
    rfl
  have hsame : s.dropWhile Str.isWhitespace = s := by
    rw [hs]
    exact List.dropWhile_cons_of_neg (by decide)
  have hlower : Str.lower s =
      "create table".toList ++ Str.lower (' ' :: (t.name.raw ++ behind)) := by
    rw [hs, Str.lower, List.map_append]
    rfl
  have hoffset : s.length - (Str.lower (' ' :: (t.name.raw ++ behind))).length = 12 := by
    rw [hs, List.length_append, Str.lower, List.length_map, Nat.add_sub_cancel]
    rfl
  have hdropLower : (Str.lower s).drop 12 = Str.lower (' ' :: (t.name.raw ++ behind)) := by
    rw [hlower]
    exact List.drop_left' rfl
  have hdrop : s.drop 12 = ' ' :: (t.name.raw ++ behind) := by
    rw [hs]
    exact List.drop_left' rfl
  have htrim : (' ' :: (t.name.raw ++ behind)).dropWhile Str.isWhitespace =
      (t.name.raw ++ behind).dropWhile Str.isWhitespace :=
    List.dropWhile_cons_of_pos (by decide)
  have hnot : Str.stripPrefix "if not exists".toList
      (Str.lower ((t.name.raw ++ behind).dropWhile Str.isWhitespace)) = none := by
    refine if_neg fun h => ?_
    exact not_ifNotExists hname ht.isName hgap (List.isPrefixOf_iff_prefix.mp h)
  unfold createTableTarget
  dsimp only
  rw [hsame, hlower, Str.stripPrefix_append, ← hlower]
  dsimp only
  rw [hoffset, hdropLower, hdrop, dropWhile_lower, htrim, hnot]
  dsimp only
  rw [Nat.sub_self, List.drop_zero, htrim]
  exact parse_trimmed_name hname ht.isName hgap

theorem crsqlAsCrrTarget_eq {s : Str} {t : Table} (ht : Declares s t) :
    crsqlAsCrrTarget s = none := by
  have hs : s = 'C' :: ("REATE TABLE ".toList ++ (raws (t.name :: t.gap) ++ '(' :: raws t.body)) :=
    ht.text
  have htrim : ∃ r, Str.trim s = 'C' :: r := by
    rw [hs, Str.trim, List.dropWhile_cons_of_neg (by decide), rdropWhile_cons (by decide)]
    exact ⟨_, rfl⟩
  obtain ⟨r, hr⟩ := htrim
  have hnone : Str.stripPrefix "select crsql_as_crr(".toList (Str.lower (Str.trim s)) = none := by
    rw [hr]
    rfl
  unfold crsqlAsCrrTarget
  dsimp only
  rw [hnone]

theorem schemaCommands_eq {s : Str} {t : Table} (ht : Declares s t) (existing : List Str)
    (r : List StoredTable) : schemaCommands existing r s =
      match identifierOf t.name with
      | some n =>
          if n ∈ existing then reconcileAddedColumns r n s (clockTable n ∈ existing) else [s]
      | none => [s] := by
  unfold schemaCommands
  rw [createTableTarget_eq ht, crsqlAsCrrTarget_eq ht]

/-- A run of quotes becomes longer where the quotes of a name are doubled. -/
theorem ne_run (k : Nat) (n x y : Str) :
    n ++ '"' :: ' ' :: x ≠
      List.replicate (k + 1) '"' ++ (doubleQuotes '"' n ++ '"' :: ' ' :: y) := by
  intro h
  induction n generalizing k with
  | nil =>
      rw [List.replicate_succ, List.nil_append, List.cons_append] at h
      have hrest := (List.cons.inj h).2
      cases k with
      | zero => exact absurd (List.cons.inj hrest).1 (by decide)
      | succ k =>
          rw [List.replicate_succ] at hrest
          exact absurd (List.cons.inj hrest).1 (by decide)
  | cons c n ih =>
      rw [List.replicate_succ] at h
      obtain ⟨rfl, hrest⟩ := List.cons.inj h
      refine ih (k + 1) (hrest.trans ?_)
      show _ ++ ('"' :: '"' :: doubleQuotes '"' n ++ _) = _
      rw [List.replicate_succ', List.replicate_succ']
      simp only [List.append_assoc, List.cons_append, List.nil_append]

theorem not_mem_of_quoted_eq {n x y : Str}
    (h : n ++ '"' :: ' ' :: x = doubleQuotes '"' n ++ '"' :: ' ' :: y) : '"' ∉ n := by
  induction n with
  | nil => exact List.not_mem_nil
  | cons c n ih =>
      by_cases hc : c = '"'
      · obtain rfl := hc
        exact absurd (List.cons.inj h).2 (ne_run 0 n x y)
      · have hfront : doubleQuotes '"' (c :: n) = c :: doubleQuotes '"' n := by
          show (if c = '"' then ['"', '"'] else [c]) ++ _ = _
          rw [if_neg hc]
          rfl
        rw [hfront] at h
        exact List.not_mem_cons_of_ne_of_not_mem (Ne.symm hc) (ih (List.cons.inj h).2)

/-- A name is read in full unless it is bare, and then without quotes. -/
theorem identifierOf_cases {behind : Str} {p : Piece} {n : Str} (h : Shape behind p)
    (hread : identifierOf p = some n) :
    n = p.token.text ∨ '"' ∉ n ∧ '"' ∉ p.token.text := by
  cases h with
  | quote hquote =>
      simp only [identifierOf] at hread
      cases hquote with
      | string => cases hread
      | _ =>
          dsimp only at hread
          split at hread
          · cases hread
          · exact .inl (Option.some_inj.mp hread).symm
  | @word c r hc hr =>
      have hall : ∀ d ∈ c :: r, d ≠ '"' := fun d hd =>
        (isFlat_of_isIdChar ((List.forall_mem_cons (p := fun x => isIdChar x = true)).mpr
          ⟨isIdChar_of_isIdStart hc, hr⟩ d hd)).2.1
      simp only [identifierOf] at hread
      split at hread
      · obtain rfl := Option.some_inj.mp hread
        refine .inr ⟨fun hmem => hall _ ?_ rfl, fun hmem => hall _ hmem rfl⟩
        exact (List.dropWhile_suffix _).subset ((List.takeWhile_prefix _).subset hmem)
      · cases hread
  | _ => cases hread

/-- The lists of commands are the same in all their parts. -/
theorem alterCommands_parts {n m k k' : Str} {b b' : Bool} {xs ys : List (Str × Str)}
    (hx : xs ≠ []) (h : alterCommands n k b xs = alterCommands m k' b' ys) :
    ys ≠ [] ∧ b = b' ∧ (b = true → k = k') ∧
      xs.map (fun c => "ALTER TABLE \"".toList ++ n ++ "\" ADD COLUMN ".toList ++ c.2) =
        ys.map fun c => "ALTER TABLE \"".toList ++ m ++ "\" ADD COLUMN ".toList ++ c.2 := by
  obtain ⟨x, xs, rfl⟩ := List.exists_cons_of_ne_nil hx
  unfold alterCommands at h
  rw [if_neg (List.cons_ne_nil x xs)] at h
  cases ys with
  | nil => cases b <;> cases h
  | cons y ys =>
      rw [if_neg (List.cons_ne_nil y ys)] at h
      refine ⟨List.cons_ne_nil _ _, ?_⟩
      -- the first characters of the first commands are `A` or `S`
      cases b <;> cases b'
      · exact ⟨rfl, nofun, by simpa using h⟩
      · exact absurd (List.cons.inj (List.cons.inj h).1).1 (by decide)
      · exact absurd (List.cons.inj (List.cons.inj h).1).1 (by decide)
      · obtain ⟨hbegin, hrest⟩ := List.cons.inj h
        refine ⟨rfl, fun _ => ?_, (List.append_inj' hrest rfl).1⟩
        have hname : "SELECT crsql_begin_alter('".toList ++ k = _ :=
          List.append_cancel_right hbegin
        exact List.append_cancel_left hname

theorem alter_inj {n x y : Str}
    (h : "ALTER TABLE \"".toList ++ n ++ "\" ADD COLUMN ".toList ++ x =
      "ALTER TABLE \"".toList ++ n ++ "\" ADD COLUMN ".toList ++ y) : x = y :=
  List.append_cancel_left h

theorem alter_name {n m x y : Str}
    (h : "ALTER TABLE \"".toList ++ n ++ "\" ADD COLUMN ".toList ++ x =
      "ALTER TABLE \"".toList ++ m ++ "\" ADD COLUMN ".toList ++ y) :
    n ++ '"' :: ' ' :: ("ADD COLUMN ".toList ++ x) =
      m ++ '"' :: ' ' :: ("ADD COLUMN ".toList ++ y) := by
  rw [List.append_assoc, List.append_assoc, List.append_assoc, List.append_assoc] at h
  exact List.append_cancel_left h

/-- What is read of a column is read of its definition. -/
theorem parse_columns_name {s : Str} {c d : Str × Str} (hc : c ∈ parseCreateTableColumns s)
    (hd : d ∈ parseCreateTableColumns s) (h : c.2 = d.2) : c = d := by
  have hread {c : Str × Str} (hc : c ∈ parseCreateTableColumns s) : columnOf c.2 = some c := by
    obtain ⟨item, -, hitem⟩ := List.mem_filterMap.mp hc
    have hsame : c.2 = item := by
      unfold columnOf at hitem
      dsimp only at hitem
      split at hitem
      · cases hitem
      · obtain ⟨name, -, rfl⟩ := Option.map_eq_some_iff.mp hitem
        rfl
    rw [hsame, hitem]
  have hsame := hread hc
  rw [h, hread hd] at hsame
  exact (Option.some_inj.mp hsame).symm

theorem alterCommands_nil (n m : Str) (b : Bool) : alterCommands n m b [] = [] := if_pos rfl

theorem alterCommands_ne_nil {n m : Str} {b : Bool} {xs : List (Str × Str)} (h : xs ≠ []) :
    alterCommands n m b xs ≠ [] := by
  obtain ⟨x, xs, rfl⟩ := List.exists_cons_of_ne_nil h
  unfold alterCommands
  rw [if_neg (List.cons_ne_nil x xs)]
  cases b <;> exact List.cons_ne_nil _ _

theorem eq_of_quote_free {n m x y : Str} (hn : '"' ∉ n) (hm : '"' ∉ m)
    (h : n ++ '"' :: x = m ++ '"' :: y) : n = m := by
  have hfront {k : Str} (hk : '"' ∉ k) (z : Str) : (k ++ '"' :: z).takeWhile (· != '"') = k := by
    have hall : ∀ c ∈ k, (c != '"') = true := by
      intro c hc
      refine bne_iff_ne.mpr ?_
      rintro rfl
      exact hk hc
    rw [List.takeWhile_append_of_pos hall]
    exact List.append_nil k
  rw [← hfront hn x, h, hfront hm]

section Commands

variable {existing : List Str} {r : List StoredTable} {t : Table} {n : Str}

theorem reachable_of_commands {s : Str} (ht : Declares s t)
    (hcolumns : parseCreateTableColumns s = t.columns) (hname : identifierOf t.name = some n)
    (h : alterCommands n n (clockTable n ∈ existing)
      (t.columns.filter fun c => Str.lower c.1 ∉ (tableColumns r n).map Str.lower) =
      intendedCommands existing r t) :
    (∀ c ∈ t.columns, Str.lower c.1 ∈ (tableColumns r n).map Str.lower ↔
      Str.lower c.1 ∈ (allColumns r t.name.token.text).map Str.lower) ∧
    (lacking r t ≠ [] → n = t.name.token.text ∧ '"' ∉ n ∧
      (clockTable n ∈ existing → '\'' ∉ n)) := by
  by_cases hmissing : (t.columns.filter fun c =>
      Str.lower c.1 ∉ (tableColumns r n).map Str.lower) = []
  · -- no command on either side
    have hlacking : lacking r t = [] := by
      by_contra hne
      rw [hmissing, alterCommands_nil] at h
      exact alterCommands_ne_nil hne h.symm
    refine ⟨fun c hc => ?_, fun hne => absurd hlacking hne⟩
    have hlisted := List.filter_eq_nil_iff.mp hmissing c hc
    have hhas := List.filter_eq_nil_iff.mp hlacking c hc
    exact iff_of_true (by simpa using hlisted) (by simpa using hhas)
  · obtain ⟨hne, hcrr, hsingle, hmap⟩ := alterCommands_parts hmissing h
    have hfull : n = t.name.token.text ∧ '"' ∉ n := by
      obtain ⟨x, xs, hx⟩ := List.exists_cons_of_ne_nil hmissing
      obtain ⟨y, ys, hy⟩ := List.exists_cons_of_ne_nil hne
      rw [hx, hy] at hmap
      have hfirst := alter_name (List.cons.inj hmap).1
      rcases identifierOf_cases ht.name hname with rfl | ⟨hn, htext⟩
      · exact ⟨rfl, not_mem_of_quoted_eq hfirst⟩
      · rw [doubleQuotes_eq_self htext] at hfirst
        exact ⟨eq_of_quote_free hn htext hfirst, hn⟩
    obtain ⟨rfl, hquote⟩ := hfull
    refine ⟨fun c hc => ?_, fun _ => ⟨rfl, hquote, fun hclock => ?_⟩⟩
    · rw [doubleQuotes_eq_self hquote] at hmap
      -- a command on one side is the same column on the other
      have hmem {xs ys : List (Str × Str)} (hxs : ∀ d ∈ xs, d ∈ t.columns)
          (hys : ∀ d ∈ ys, d ∈ t.columns)
          (heq : xs.map (fun c => "ALTER TABLE \"".toList ++ t.name.token.text ++
            "\" ADD COLUMN ".toList ++ c.2) = ys.map fun c => "ALTER TABLE \"".toList ++
            t.name.token.text ++ "\" ADD COLUMN ".toList ++ c.2) (hc : c ∈ xs) : c ∈ ys := by
        have halter := List.mem_map_of_mem (f := fun c : Str × Str => "ALTER TABLE \"".toList ++
          t.name.token.text ++ "\" ADD COLUMN ".toList ++ c.2) hc
        rw [heq] at halter
        obtain ⟨d, hd, hdc⟩ := List.mem_map.mp halter
        rwa [← parse_columns_name (hcolumns ▸ hys d hd) (hcolumns ▸ hxs c hc) (alter_inj hdc)]
      have hmissingMem : ∀ d ∈ t.columns.filter fun c =>
          Str.lower c.1 ∉ (tableColumns r t.name.token.text).map Str.lower, d ∈ t.columns :=
        fun d hd => (List.mem_filter.mp hd).1
      have hlackingMem : ∀ d ∈ lacking r t, d ∈ t.columns := fun d hd => (List.mem_filter.mp hd).1
      have hiff : c ∈ t.columns.filter (fun c =>
          Str.lower c.1 ∉ (tableColumns r t.name.token.text).map Str.lower) ↔ c ∈ lacking r t :=
        ⟨hmem hmissingMem hlackingMem hmap, hmem hlackingMem hmissingMem hmap.symm⟩
      simp only [lacking, List.mem_filter, hc, true_and, decide_eq_true_eq] at hiff
      exact not_iff_not.mp hiff
    · exact not_mem_of_eq_doubleQuotes (hsingle (decide_eq_true hclock))

theorem commands_of_reachable
    (hlisted : ∀ c ∈ t.columns, Str.lower c.1 ∈ (tableColumns r n).map Str.lower ↔
      Str.lower c.1 ∈ (allColumns r t.name.token.text).map Str.lower)
    (hquotes : lacking r t ≠ [] → n = t.name.token.text ∧ '"' ∉ n ∧
      (clockTable n ∈ existing → '\'' ∉ n)) :
    alterCommands n n (clockTable n ∈ existing)
      (t.columns.filter fun c => Str.lower c.1 ∉ (tableColumns r n).map Str.lower) =
      intendedCommands existing r t := by
  have hfilter : (t.columns.filter fun c =>
      Str.lower c.1 ∉ (tableColumns r n).map Str.lower) = lacking r t :=
    List.filter_congr fun c hc => decide_eq_decide.mpr (not_congr (hlisted c hc))
  rw [hfilter]
  unfold intendedCommands
  by_cases hlacking : lacking r t = []
  · rw [hlacking, alterCommands_nil, alterCommands_nil]
  · obtain ⟨rfl, hdouble, hsingle⟩ := hquotes hlacking
    rw [doubleQuotes_eq_self hdouble]
    by_cases hclock : clockTable t.name.token.text ∈ existing
    · rw [doubleQuotes_eq_self (hsingle hclock)]
    · unfold alterCommands
      simp only [hclock, decide_false, Bool.false_eq_true, if_false]

end Commands

/-- The commands are those intended exactly if the table is reached by its name. -/
theorem schemaCommands_iff {s : Str} {t : Table} (ht : Declares s t)
    (hcolumns : parseCreateTableColumns s = t.columns) (existing : List Str)
    (r : List StoredTable) :
    schemaCommands existing r s = intendedCommands existing r t ↔ Reachable existing r t := by
  have hnot : [s] ≠ intendedCommands existing r t := by
    intro heq
    unfold intendedCommands alterCommands at heq
    split at heq
    · cases heq
    · next hne =>
      obtain ⟨c, cs, hcs⟩ := List.exists_cons_of_ne_nil hne
      rw [hcs, ht.text] at heq
      split at heq
      · exact absurd (List.cons.inj (List.cons.inj heq).1).1 (by decide)
      · exact absurd (List.cons.inj (List.cons.inj heq).1).1 (by decide)
  rw [schemaCommands_eq ht]
  cases hname : identifierOf t.name with
  | none => exact iff_of_false hnot fun ⟨n, hn, _⟩ => nomatch hname.symm.trans hn
  | some n =>
      dsimp only
      by_cases hexists : n ∈ existing
      · rw [if_pos hexists]
        unfold reconcileAddedColumns
        dsimp only
        rw [hcolumns]
        constructor
        · intro h
          exact ⟨n, hname, hexists, reachable_of_commands ht hcolumns hname h⟩
        · rintro ⟨n', hn', -, hlisted, hquotes⟩
          obtain rfl := Option.some_inj.mp (hname.symm.trans hn')
          exact commands_of_reachable hlisted hquotes
      · rw [if_neg hexists]
        refine iff_of_false hnot fun ⟨n', hn', hmem, _⟩ => hexists ?_
        rwa [Option.some_inj.mp (hname.symm.trans hn')]

/-- On a statement whose comments do not disturb the scan, the columns are read as they are
declared and the replica's table gets just those it lacks, if and only if every item is
readable and the table is reached by its name. -/
theorem published_iff {s : Str} {t : Table} (hdeclared : declared s = some t) (haligned : Aligned t)
    (existing : List Str) (r : List StoredTable) :
    Published existing r s t ↔ (∀ i ∈ t.items, Readable i) ∧
      ((findTable r t.name.token.text).isSome = true → Reachable existing r t) := by
  have ht := declares_of_declared hdeclared
  unfold Published
  rw [parseCreateTableColumns_iff ht haligned]
  refine and_congr_right fun hitems => forall_congr' fun _ => ?_
  exact schemaCommands_iff ht ((parseCreateTableColumns_iff ht haligned).mpr hitems) existing r

def notesTable : Str :=
  ("CREATE TABLE \"notes\" (id TEXT, body TEXT /* (md) */ DEFAULT 'it''s, ok', " ++
    "[a tag] BLOB, UNIQUE (id))").toList

theorem declared_notesTable : (declared notesTable).isSome = true := by decide +kernel

def notes : Table := (declared notesTable).get declared_notesTable

/-- The table without its last column. -/
def olderNotes : List StoredTable :=
  [⟨"notes".toList, [⟨"ID".toList, false⟩, ⟨"body".toList, false⟩]⟩]

def notesTables : List Str := ["notes".toList, "notes__crsql_clock".toList]

theorem notes_ordinary : Aligned notes ∧ (∀ i ∈ notes.items, Readable i) ∧
    identifierOf notes.name = some notes.name.token.text ∧ notes.name.token.text ∈ notesTables ∧
    '"' ∉ notes.name.token.text ∧ '\'' ∉ notes.name.token.text ∧
    (∀ c ∈ notes.columns,
      Str.lower c.1 ∈ (tableColumns olderNotes notes.name.token.text).map Str.lower ↔
        Str.lower c.1 ∈ (allColumns olderNotes notes.name.token.text).map Str.lower) ∧
    lacking olderNotes notes = [("a tag".toList, "[a tag] BLOB".toList)] := by decide +kernel

theorem published_iff_notes : Published notesTables olderNotes notesTable notes ∧
    lacking olderNotes notes = [("a tag".toList, "[a tag] BLOB".toList)] := by
  obtain ⟨haligned, hitems, hname, hexists, hdouble, hsingle, hlisted, hlacking⟩ := notes_ordinary
  exact ⟨(published_iff (Option.some_get declared_notesTable).symm haligned _ _).mpr
    ⟨hitems, fun _ => ⟨_, hname, hexists, hlisted, fun _ => ⟨rfl, hdouble, fun _ => hsingle⟩⟩⟩,
    hlacking⟩

/-- A comment that has a comma in it makes a column of what follows the comma. -/
def commentedTable : Str := "CREATE TABLE t(a INTEGER, -- key, assigned once\n b TEXT)".toList

theorem declared_commentedTable : (declared commentedTable).isSome = true := by decide +kernel

theorem not_published : ¬∀ (existing : List Str) (r : List StoredTable) (s : Str) (t : Table),
    declared s = some t → Published existing r s t := by
  intro h
  have hcolumns := (h [] [] commentedTable _ (Option.some_get declared_commentedTable).symm).1
  exact absurd hcolumns (by decide +kernel)

/-- The replica has both columns and still gets one more. -/
example : schemaCommands ["t".toList]
    [⟨"t".toList, [⟨"a".toList, false⟩, ⟨"b".toList, false⟩]⟩] commentedTable =
    ["ALTER TABLE \"t\" ADD COLUMN assigned once\n b TEXT".toList] := by decide +kernel

end Realtime.PluginDb
