import Mathlib.Data.Char
import Mathlib.Data.List.Lex
import Realtime.Lib.SqlTable
import Realtime.PluginDb.Values

/-!
# The dump of a replica

`dump_replica` of `server/src/plugindb.rs` and what a rollback reads of its text:
`dump_crr_tables` and `dump_create_statements`. The text is cut at every `;` before a line
end, wherever that stands.
-/

namespace Realtime.PluginDb.Dump

open Lib Lib.Sql Lib.Integers

/-! ## Writing -/

abbrev Row := List SqlValue

/-- What is read of a database with SQL. -/
structure Database where
  /-- names and SQL of the tables in `sqlite_master`, by name -/
  master : List (Str × Str)
  /-- `PRAGMA table_info`: the columns of a table and their numbers in the primary key -/
  tableInfo : Str → List (Str × Nat)
  /-- `SELECT` of columns of a table -/
  select : Str → List Str → List Row
  /-- the same with `ORDER BY` of all of them -/
  selectOrdered : Str → List Str → List Row

/-- SQL's `LIKE`, of an underscore for any character and a percent sign for any text. -/
def like : Str → Str → Bool
  | [], s => s.isEmpty
  | '%' :: p, [] => like p []
  | '%' :: p, c :: s => like p (c :: s) || like ('%' :: p) s
  | _ :: _, [] => false
  | '_' :: p, _ :: s => like p s
  | a :: p, c :: s => a.toLower = c.toLower && like p s
termination_by p s => p.length + s.length

def isUserTable (name : Str) : Bool :=
  !like "sqlite_%".toList name && !like "crsql_%".toList name &&
    !like "%__crsql_clock".toList name && !like "%__crsql_pks".toList name

def clockSuffix : Str := "__crsql_clock".toList

/-- `trim_end_matches` of the suffix of a clock table -/
def trimClock (name : Str) : Str :=
  if clockSuffix <:+ name then trimClock (name.take (name.length - clockSuffix.length)) else name
termination_by name.length
decreasing_by
  rename_i h
  have hlength := h.length_le
  have hsuffix : clockSuffix.length = 13 := rfl
  rw [List.length_take]
  omega

/-- `replace('"', "")` -/
def strip (name : Str) : Str := name.filter (· != '"')

def hexDigit (n : Nat) : Char := Char.ofNat (if n < 10 then 48 + n else 55 + n)

/-- `:02X` -/
def hexByte (b : UInt8) : Str := [hexDigit (b.toNat / 16), hexDigit (b.toNat % 16)]

/-- `format_sql_value`, with the text of a real number as a parameter. -/
def formatSqlValue (formatReal : ℚ → Str) : SqlValue → Str
  | .null => "NULL".toList
  | .integer i => decimal i.1
  | .real q => formatReal q
  | .text t => '\'' :: doubleQuotes '\'' t ++ ['\'']
  | .blob b => 'X' :: '\'' :: b.flatMap hexByte ++ ['\'']

def join (sep : String) (parts : List Str) : Str := List.intercalate sep.toList parts

def columnList (cols : List Str) : Str := join ", " (cols.map fun c => '"' :: strip c ++ ['"'])

/-- The statement of a row, without the `;` and line end behind it. -/
def rowLine (formatReal : ℚ → Str) (table : Str) (cols : List Str) (row : Row) : Str :=
  "INSERT INTO \"".toList ++ strip table ++ "\" (".toList ++ columnList cols ++
    ") VALUES (".toList ++ join ", " (row.map (formatSqlValue formatReal)) ++ ")".toList

/-- `dump_table_rows` -/
def dumpTableRows (formatReal : ℚ → Str) (db : Database) (table : Str) : Str :=
  let cols := (db.tableInfo (strip table)).map Prod.fst
  if cols = [] then []
  else
    (db.selectOrdered (strip table) (cols.map strip)).flatMap fun row =>
      rowLine formatReal table cols row ++ ";\n".toList

def userTables (db : Database) : List (Str × Str) := db.master.filter fun t => isUserTable t.1

/-- The tables that have a clock table. -/
def crrTables (db : Database) : List Str :=
  ((db.master.map Prod.fst).filter (like "%__crsql_clock".toList)).map trimClock

/-- `dump_replica` -/
def dumpReplica (formatReal : ℚ → Str) (db : Database) : Str :=
  (userTables db).flatMap (fun t =>
    t.2 ++ ";\n".toList ++ dumpTableRows formatReal db t.1 ++ "\n".toList) ++
    "-- crr: ".toList ++ join "," (crrTables db) ++ "\n".toList

/-! ## Reading -/

/-- `dump_crr_tables` -/
def dumpCrrTables (dump : Str) : List Str :=
  match (Str.lines dump).reverse.findSome? (Str.stripPrefix "-- crr: ".toList) with
  | some list => ((list.splitOn ',').map Str.trim).filter (· != [])
  | none => []

/-- `normalize_sql` -/
def normalizeSql (sql : Str) : Str :=
  join " " ((sql.splitOnP Str.isWhitespace).filter (· != []))

/-- `split(";\n")` -/
def splitStatements : Str → List Str
  | [] => [[]]
  | [c] => [[c]]
  | c :: d :: rest =>
      if c = ';' ∧ d = '\n' then [] :: splitStatements rest
      else (splitStatements (d :: rest)).modifyHead (c :: ·)

/-- The statement begins as `CREATE TABLE` behind its spaces. -/
def isCreate (stmt : Str) : Bool :=
  Str.lower ((stmt.dropWhile Str.isWhitespace).take 12) = "create table".toList

/-- What `dump_create_statements` has before it is sorted. -/
def createStatements (dump : Str) : List Str :=
  ((splitStatements dump).filter isCreate).map fun stmt =>
    normalizeSql (stmt.dropWhile Str.isWhitespace)

def sorted (stmts : List Str) : List Str := stmts.mergeSort fun a b => a ≤ b

/-- `dump_create_statements` -/
def dumpCreateStatements (dump : Str) : List Str := sorted (createStatements dump)

/-- `schema_matches` -/
def schemaMatches (db : Database) (dump : Str) : Bool :=
  sorted ((userTables db).map fun t => normalizeSql t.2) = dumpCreateStatements dump

/-! ## Where statements are cut -/

/-- A `CREATE TABLE` is read behind one of the cuts of the text. -/
def hides : Str → Bool
  | [] => false
  | c :: s => (c = ';' && s.head? = some '\n' && isCreate s.tail) || hides s

/-- The text has a cut. -/
def cuts : Str → Bool
  | [] => false
  | c :: s => (c = ';' && s.head? = some '\n') || cuts s

/-- No space, and nothing of the text `create table`. -/
def IsMark (c : Char) : Prop := c = ';' ∨ c = '\'' ∨ c = '"'

theorem IsMark.not_space {c : Char} (h : IsMark c) : Str.isWhitespace c = false := by
  rcases h with rfl | rfl | rfl <;> decide

theorem IsMark.not_mem {c : Char} (h : IsMark c) : c.toLower ∉ "create table".toList := by
  rcases h with rfl | rfl | rfl <;> decide

/-- What is behind a mark does not make a `CREATE TABLE` of what is before it. -/
theorem isCreate_append {c : Char} (h : IsMark c) (a b : Str) :
    isCreate (a ++ c :: b) = isCreate a := by
  have hnot (t : Str) (ht : c.toLower ∈ t) : t ≠ "create table".toList := by
    rintro rfl
    exact h.not_mem ht
  unfold isCreate
  rw [List.dropWhile_append]
  split
  · next hempty =>
    rw [List.isEmpty_iff.mp hempty, List.dropWhile_cons_of_neg (by rw [h.not_space]; decide)]
    refine decide_eq_decide.mpr (iff_of_false (hnot _ ?_) (by decide))
    exact List.mem_cons_self
  · by_cases hlength : 12 ≤ (a.dropWhile Str.isWhitespace).length
    · rw [List.take_append_of_le_length hlength]
    · refine decide_eq_decide.mpr (iff_of_false (hnot _ ?_) fun heq => ?_)
      · rw [Str.lower, List.take_append, List.take_of_length_le (by omega), List.map_append]
        refine List.mem_append_right _ (List.mem_map_of_mem ?_)
        obtain ⟨k, hk⟩ : ∃ k, 12 - (a.dropWhile Str.isWhitespace).length = k + 1 :=
          ⟨12 - (a.dropWhile Str.isWhitespace).length - 1, by omega⟩
        rw [hk, List.take_succ_cons]
        exact List.mem_cons_self
      · have hl := congrArg List.length heq
        rw [Str.lower, List.length_map, List.length_take] at hl
        have h12 : "create table".toList.length = 12 := rfl
        omega

theorem splitStatements_ne_nil (s : Str) : splitStatements s ≠ [] := by
  induction s using splitStatements.induct with
  | case1 => exact List.cons_ne_nil _ _
  | case2 => exact List.cons_ne_nil _ _
  | case3 c d rest h => 
      rw [splitStatements, if_pos h]
      exact List.cons_ne_nil _ _
  | case4 c d rest h ih =>
      rw [splitStatements, if_neg h]
      cases hs : splitStatements (d :: rest) with
      | nil => exact absurd hs ih
      | cons => exact List.cons_ne_nil _ _

/-- Statements that are ended are cut from each other. -/
theorem splitStatements_append (s rest : Str) :
    splitStatements (s ++ ";\n".toList ++ rest) = splitStatements s ++ splitStatements rest := by
  induction s using splitStatements.induct with
  | case1 => exact if_pos ⟨rfl, rfl⟩
  | case2 c =>
      show splitStatements (c :: ';' :: '\n' :: rest) = [c] :: splitStatements rest
      rw [splitStatements, if_neg (fun h => absurd h.2 (by decide)), splitStatements,
        if_pos ⟨rfl, rfl⟩]
      rfl
  | case3 c d s h ih =>
      show splitStatements (c :: d :: (s ++ ";\n".toList ++ rest)) = _
      rw [splitStatements, if_pos h, ih, splitStatements, if_pos h]
      rfl
  | case4 c d s h ih =>
      show splitStatements (c :: d :: (s ++ ";\n".toList ++ rest)) = _
      rw [splitStatements, if_neg h, splitStatements, if_neg h]
      have hrest : splitStatements (d :: (s ++ ";\n".toList ++ rest)) =
          splitStatements (d :: s) ++ splitStatements rest := ih
      rw [hrest]
      cases hs : splitStatements (d :: s) with
      | nil => exact absurd hs (splitStatements_ne_nil _)
      | cons => rfl

/-- The first piece is the text up to the first cut. -/
theorem splitStatements_head (s : Str) : ∃ p ps, splitStatements s = p :: ps ∧
    (cuts s = false ∧ p = s ∧ ps = [] ∨
      cuts s = true ∧ ∃ rest, s = p ++ ";\n".toList ++ rest ∧ ps = splitStatements rest) := by
  induction s using splitStatements.induct with
  | case1 => exact ⟨[], [], rfl, .inl ⟨rfl, rfl, rfl⟩⟩
  | case2 c => 
      refine ⟨[c], [], rfl, .inl ⟨?_, rfl, rfl⟩⟩
      simp [cuts]
  | case3 c d rest h =>
      obtain ⟨rfl, rfl⟩ := h
      refine ⟨[], _, if_pos ⟨rfl, rfl⟩, .inr ⟨rfl, rest, rfl, rfl⟩⟩
  | case4 c d rest h ih =>
      obtain ⟨p, ps, hs, hcases⟩ := ih
      have hcuts : cuts (c :: d :: rest) = cuts (d :: rest) := by
        have hno : (decide (c = ';') && decide ((d :: rest).head? = some '\n')) = false := by
          by_contra hyes
          rw [Bool.not_eq_false, Bool.and_eq_true, decide_eq_true_eq, decide_eq_true_eq] at hyes
          exact h ⟨hyes.1, Option.some_inj.mp hyes.2⟩
        rw [cuts, hno, Bool.false_or]
      refine ⟨c :: p, ps, ?_, ?_⟩
      · rw [splitStatements, if_neg h, hs]
        rfl
      · rw [hcuts]
        rcases hcases with ⟨hno, rfl, rfl⟩ | ⟨hyes, rest', heq, rfl⟩
        · exact .inl ⟨hno, rfl, rfl⟩
        · exact .inr ⟨hyes, rest', congrArg (c :: ·) heq, rfl⟩

theorem hides_of_not_cut {c d : Char} (h : ¬(c = ';' ∧ d = '\n')) (rest : Str) :
    hides (c :: d :: rest) = hides (d :: rest) := by
  have hno : (decide (c = ';') && decide ((d :: rest).head? = some '\n')) = false := by
    by_contra hyes
    rw [Bool.not_eq_false, Bool.and_eq_true, decide_eq_true_eq, decide_eq_true_eq] at hyes
    exact h ⟨hyes.1, Option.some_inj.mp hyes.2⟩
  rw [hides, hno, Bool.false_and, Bool.false_or]

theorem isCreate_head {s p : Str} {ps : List Str} (h : splitStatements s = p :: ps) :
    isCreate p = isCreate s := by
  obtain ⟨p', ps', heq, hcases⟩ := splitStatements_head s
  obtain ⟨rfl, rfl⟩ := List.cons.inj (h.symm.trans heq)
  rcases hcases with ⟨-, rfl, -⟩ | ⟨-, rest, hs, -⟩
  · rfl
  · rw [hs, List.append_assoc]
    exact (isCreate_append (.inl rfl) p _).symm

/-- The later pieces that begin as `CREATE TABLE`. -/
theorem any_tail (s : Str) : (splitStatements s).tail.any isCreate = hides s := by
  induction s using splitStatements.induct with
  | case1 => rfl
  | case2 c => simp [splitStatements, hides]
  | case3 c d rest h ih =>
      obtain ⟨p, ps, hs, -⟩ := splitStatements_head rest
      have hhead := isCreate_head hs
      rw [hs, List.tail_cons] at ih
      obtain ⟨rfl, rfl⟩ := h
      rw [splitStatements, if_pos ⟨rfl, rfl⟩, List.tail_cons, hs, List.any_cons, ih, hhead]
      simp [hides]
  | case4 c d rest h ih =>
      rw [hides_of_not_cut h, ← ih, splitStatements, if_neg h]
      cases splitStatements (d :: rest) <;> rfl

theorem createStatements_append (s rest : Str) :
    createStatements (s ++ ";\n".toList ++ rest) = createStatements s ++ createStatements rest := by
  unfold createStatements
  rw [splitStatements_append, List.filter_append, List.map_append]

theorem createStatements_newline (s : Str) :
    createStatements ('\n' :: s) = createStatements s := by
  have hspace (p : Str) : ('\n' :: p).dropWhile Str.isWhitespace = p.dropWhile Str.isWhitespace :=
    List.dropWhile_cons_of_pos (by decide)
  have hcreate (p : Str) : isCreate ('\n' :: p) = isCreate p := by
    unfold isCreate
    rw [hspace]
  unfold createStatements
  cases s with
  | nil => rfl
  | cons d rest =>
      rw [splitStatements, if_neg (fun h => absurd h.1 (by decide))]
      cases splitStatements (d :: rest) with
      | nil => rfl
      | cons p ps =>
          rw [List.modifyHead_cons, List.filter_cons, List.filter_cons, hcreate]
          split
          · rw [List.map_cons, List.map_cons, hspace]
          · rfl

/-- A statement that is no `CREATE TABLE` itself gives none unless it hides one. -/
theorem createStatements_eq_nil_iff {s : Str} (h : isCreate s = false) :
    createStatements s = [] ↔ hides s = false := by
  obtain ⟨p, ps, hs, -⟩ := splitStatements_head s
  have hhead := isCreate_head hs
  have htail := any_tail s
  rw [hs, List.tail_cons] at htail
  unfold createStatements
  rw [List.map_eq_nil_iff, hs, List.filter_cons, hhead, h, if_neg Bool.false_ne_true, ← htail,
    List.filter_eq_nil_iff, List.any_eq_false]

/-- The characters that are no spaces. -/
def ink (s : Str) : Nat := (s.filter fun c => !Str.isWhitespace c).length

theorem ink_append (a b : Str) : ink (a ++ b) = ink a + ink b := by
  rw [ink, List.filter_append, List.length_append]
  rfl

theorem ink_join (parts : List Str) : ink (join " " parts) = (parts.map ink).sum := by
  unfold join
  induction parts with
  | nil => rfl
  | cons part parts ih =>
      cases parts with
      | nil =>
          rw [List.intercalate_singleton]
          rfl
      | cons next parts =>
          have hsum : ((part :: next :: parts).map ink).sum =
              ink part + ((next :: parts).map ink).sum := by rw [List.map_cons, List.sum_cons]
          have hspace : ink " ".toList = 0 := by decide
          rw [List.intercalate_cons_cons, ink_append, ink_append, ih, hsum]
          omega

/-- Spaces are all that is lost. -/
theorem ink_normalizeSql (s : Str) : ink (normalizeSql s) = ink s := by
  have hfilter (parts : List Str) :
      ((parts.filter (· != [])).map ink).sum = (parts.map ink).sum := by
    induction parts with
    | nil => rfl
    | cons part parts ih =>
        rw [List.filter_cons, List.map_cons, List.sum_cons, ← ih]
        split
        · rw [List.map_cons, List.sum_cons]
        · next hempty =>
          obtain rfl : part = [] := by simpa using hempty
          exact (Nat.zero_add _).symm
  unfold normalizeSql
  rw [ink_join, hfilter]
  induction s with
  | nil => rfl
  | cons c s ih =>
      rw [List.splitOnP_cons_eq_if_modifyHead]
      split
      · next hspace =>
        rw [List.map_cons, List.sum_cons, ih]
        simp [ink, hspace]
      · next hspace =>
        rw [← show ink s + 1 = ink (c :: s) by simp [ink, hspace], ← ih]
        cases hparts : s.splitOnP Str.isWhitespace with
        | nil => exact absurd hparts (List.splitOnP_ne_nil _ _)
        | cons part parts =>
            rw [List.modifyHead_cons, List.map_cons, List.map_cons, List.sum_cons, List.sum_cons]
            have hcons : ink (c :: part) = ink part + 1 := by simp [ink, hspace]
            omega

/-- The first piece of a statement that is cut has less in it. -/
theorem createStatements_create {s : Str} (h : isCreate s = true) : ∃ p ps,
    createStatements s = normalizeSql p :: ps ∧ ink p ≤ ink s ∧
      (cuts s = false → p = s.dropWhile Str.isWhitespace ∧ ps = []) ∧
      (ink p = ink s → cuts s = false) := by
  have hdrop (t : Str) : ink (t.dropWhile Str.isWhitespace) = ink t := by
    induction t with
    | nil => rfl
    | cons c t ih =>
        cases hc : Str.isWhitespace c with
        | true =>
            rw [List.dropWhile_cons_of_pos hc, ih]
            simp [ink, hc]
        | false => rw [List.dropWhile_cons_of_neg (by rw [hc]; exact Bool.false_ne_true)]
  obtain ⟨p, ps, hs, hcases⟩ := splitStatements_head s
  have hhead := (isCreate_head hs).trans h
  refine ⟨p.dropWhile Str.isWhitespace, (ps.filter isCreate).map fun stmt =>
    normalizeSql (stmt.dropWhile Str.isWhitespace), ?_, ?_⟩
  · unfold createStatements
    rw [hs, List.filter_cons_of_pos hhead, List.map_cons]
  rw [hdrop]
  rcases hcases with ⟨hno, rfl, rfl⟩ | ⟨hyes, rest, heq, -⟩
  · exact ⟨le_rfl, fun _ => ⟨rfl, rfl⟩, fun _ => hno⟩
  · have hink : ink s = ink p + ink ";\n".toList + ink rest := by
      rw [heq, ink_append, ink_append]
    have hcut : ink ";\n".toList = 1 := by decide
    refine ⟨by omega, fun hno => ?_, fun heq => by omega⟩
    rw [hno] at hyes
    cases hyes

/-- The text of a table: its SQL, the statements of its rows and an empty line. -/
def tableText (sql : Str) (lines : List Str) : Str :=
  sql ++ ";\n".toList ++ lines.flatMap (fun line => line ++ ";\n".toList) ++ "\n".toList

theorem createStatements_lines (lines : List Str) (rest : Str) :
    createStatements (lines.flatMap (fun line => line ++ ";\n".toList) ++ rest) =
      lines.flatMap createStatements ++ createStatements rest := by
  induction lines with
  | nil => rfl
  | cons line lines ih =>
      rw [List.flatMap_cons, List.append_assoc, createStatements_append, ih, List.flatMap_cons,
        List.append_assoc]

/-- The statements of a dump are read from its parts. -/
theorem createStatements_tables (tables : List (Str × List Str)) (trailer : Str) :
    createStatements (tables.flatMap (fun t => tableText t.1 t.2) ++ trailer) =
      tables.flatMap (fun t => createStatements t.1 ++ t.2.flatMap createStatements) ++
        createStatements trailer := by
  induction tables with
  | nil => rfl
  | cons t tables ih =>
      rw [List.flatMap_cons, List.append_assoc, tableText, List.append_assoc, List.append_assoc,
        createStatements_append, createStatements_lines, List.flatMap_cons, List.append_assoc,
        List.append_assoc]
      congr 2
      exact (createStatements_newline _).trans ih

/-- Every table gives a statement; where there are no more, no row gives one, and they have no
more in them than the tables have. -/
theorem createStatements_count {tables : List (Str × List Str)}
    (hsql : ∀ t ∈ tables, isCreate t.1 = true) :
    let read := tables.flatMap fun t => createStatements t.1 ++ t.2.flatMap createStatements
    tables.length ≤ read.length ∧
      (read.length ≤ tables.length → (∀ t ∈ tables, t.2.flatMap createStatements = []) ∧
        (read.map ink).sum ≤ (tables.map fun t => ink t.1).sum ∧
        ((tables.map fun t => ink t.1).sum ≤ (read.map ink).sum →
          ∀ t ∈ tables, cuts t.1 = false)) := by
  induction tables with
  | nil => exact ⟨le_rfl, fun _ => ⟨List.forall_mem_nil _, le_rfl, fun _ => List.forall_mem_nil _⟩⟩
  | cons t tables ih =>
      obtain ⟨ht, htables⟩ := List.forall_mem_cons.mp hsql
      obtain ⟨hlength, hrest⟩ := ih htables
      obtain ⟨p, ps, hread, hle, -, hcut⟩ := createStatements_create ht
      dsimp only at hlength hrest ⊢
      rw [List.flatMap_cons, hread]
      simp only [List.length_append, List.length_cons, List.map_append, List.map_cons,
        List.sum_append, List.sum_cons, ink_normalizeSql]
      refine ⟨by omega, fun hfew => ?_⟩
      have hps : ps = [] := List.length_eq_zero_iff.mp (by omega)
      have hlines : t.2.flatMap createStatements = [] := List.length_eq_zero_iff.mp (by omega)
      obtain ⟨hnone, hsum, hcuts⟩ := hrest (by omega)
      rw [hps, hlines, List.map_nil, List.sum_nil]
      refine ⟨List.forall_mem_cons.mpr ⟨hlines, hnone⟩, by omega, fun hmore => ?_⟩
      exact List.forall_mem_cons.mpr ⟨hcut (by omega), hcuts (by omega)⟩

/-- Just the statements of the tables are read if and only if none is cut and no row or table
name hides one. -/
theorem createStatements_perm_iff {tables : List (Str × List Str)} {trailer : Str}
    (hsql : ∀ t ∈ tables, isCreate t.1 = true ∧ ∀ c ∈ t.1.head?, Str.isWhitespace c = false)
    (hlines : ∀ t ∈ tables, ∀ line ∈ t.2, isCreate line = false)
    (htrailer : isCreate trailer = false) :
    (tables.map fun t => normalizeSql t.1).Perm
        (createStatements (tables.flatMap (fun t => tableText t.1 t.2) ++ trailer)) ↔
      (∀ t ∈ tables, cuts t.1 = false ∧ ∀ line ∈ t.2, hides line = false) ∧
        hides trailer = false := by
  rw [createStatements_tables, ← createStatements_eq_nil_iff htrailer]
  have hhides {t : Str × List Str} (ht : t ∈ tables) :
      t.2.flatMap createStatements = [] ↔ ∀ line ∈ t.2, hides line = false := by
    rw [List.flatMap_eq_nil_iff]
    exact forall₂_congr fun line hline => createStatements_eq_nil_iff (hlines t ht line hline)
  constructor
  · intro hperm
    obtain ⟨hmore, hfew⟩ := createStatements_count fun t ht => (hsql t ht).1
    have hlength := hperm.length_eq
    rw [List.length_map, List.length_append] at hlength
    have hnone : createStatements trailer = [] := List.length_eq_zero_iff.mp (by omega)
    obtain ⟨hrows, -, hcuts⟩ := hfew (by omega)
    have hsum := (hperm.map ink).sum_eq
    rw [hnone, List.append_nil, List.map_map] at hsum
    have hink : (tables.map (ink ∘ fun t => normalizeSql t.1)) = tables.map fun t => ink t.1 :=
      List.map_congr_left fun t _ => ink_normalizeSql t.1
    rw [hink] at hsum
    exact ⟨fun t ht => ⟨hcuts hsum.le t ht, (hhides ht).mp (hrows t ht)⟩, hnone⟩
  · rintro ⟨htables, hnone⟩
    rw [hnone, List.append_nil]
    have hread : tables.flatMap (fun t => createStatements t.1 ++ t.2.flatMap createStatements) =
        tables.map fun t => normalizeSql t.1 := by
      rw [← List.flatMap_singleton' (tables.map _), List.flatMap_map]
      refine List.flatMap_congr fun t ht => ?_
      obtain ⟨p, ps, hp, -, hwhole, -⟩ := createStatements_create (hsql t ht).1
      obtain ⟨rfl, rfl⟩ := hwhole (htables t ht).1
      rw [hp, (hhides ht).mpr (htables t ht).2, Str.dropWhile_of_head (hsql t ht).2]
      rfl
    rw [hread]

theorem sorted_eq_iff {l l' : List Str} : sorted l = sorted l' ↔ l.Perm l' := by
  have hperm (l : List Str) : (sorted l).Perm l := List.mergeSort_perm _ _
  have htrans (a b c : Str) (hab : decide (a ≤ b) = true) (hbc : decide (b ≤ c) = true) :
      decide (a ≤ c) = true :=
    decide_eq_true (le_trans (of_decide_eq_true hab) (of_decide_eq_true hbc))
  have htotal (a b : Str) : (decide (a ≤ b) || decide (b ≤ a)) = true := by
    rw [Bool.or_eq_true, decide_eq_true_eq, decide_eq_true_eq]
    exact le_total a b
  have hsorted (l : List Str) : (sorted l).Pairwise fun a b => decide (a ≤ b) = true :=
    List.pairwise_mergeSort htrans htotal l
  constructor
  · intro h
    exact (hperm l).symm.trans (h ▸ hperm l')
  · intro h
    have hanti (a b : Str) (hab : decide (a ≤ b) = true) (hba : decide (b ≤ a) = true) : a = b :=
      le_antisymm (of_decide_eq_true hab) (of_decide_eq_true hba)
    exact List.Perm.eq_of_pairwise (fun a b _ _ => hanti a b) (hsorted l) (hsorted l')
      ((hperm l).trans (h.trans (hperm l').symm))

/-! ## What rows and names hide -/

theorem hides_cons {c : Char} (h : c ≠ ';') (s : Str) : hides (c :: s) = hides s := by
  rw [hides, decide_eq_false h, Bool.false_and, Bool.false_and, Bool.false_or]

theorem hides_clean {a : Str} (h : ∀ c ∈ a, c ≠ ';') (b : Str) : hides (a ++ b) = hides b := by
  induction a with
  | nil => rfl
  | cons c a ih =>
      obtain ⟨hc, ha⟩ := List.forall_mem_cons.mp h
      rw [List.cons_append, hides_cons hc, ih ha]

/-- A quote separates what is hidden before it from what is hidden behind it. -/
theorem hides_quote {q : Char} (hq : q = '\'' ∨ q = '"') (a b : Str) :
    hides (a ++ q :: b) = (hides a || hides b) := by
  have hmark : IsMark q := hq.elim (fun h => .inr (.inl h)) fun h => .inr (.inr h)
  have hne : q ≠ ';' := by rcases hq with rfl | rfl <;> decide
  have hline : some q ≠ some '\n' := by rcases hq with rfl | rfl <;> decide
  induction a with
  | nil => exact (hides_cons hne b).trans (Bool.false_or _).symm
  | cons c a ih =>
      rw [List.cons_append, hides, hides, ih, Bool.or_assoc]
      cases a with
      | nil => simp [hline]
      | cons d a =>
          rw [List.cons_append, List.tail_cons, List.tail_cons, isCreate_append hmark]
          rfl

theorem isCreate_doubleQuotes (t : Str) : isCreate (doubleQuotes '\'' t) = isCreate t := by
  by_cases hmem : '\'' ∈ t
  · -- what is before the first quote decides
    obtain ⟨a, b, rfl, hno⟩ := List.eq_append_cons_of_mem hmem
    have hfront : doubleQuotes '\'' (a ++ '\'' :: b) =
        a ++ '\'' :: '\'' :: doubleQuotes '\'' b := by
      unfold doubleQuotes
      rw [List.flatMap_append]
      exact congrArg (· ++ _) (doubleQuotes_eq_self hno)
    have hmark : IsMark '\'' := .inr (.inl rfl)
    rw [hfront, isCreate_append hmark, isCreate_append hmark]
  · rw [doubleQuotes_eq_self hmem]

theorem hides_doubleQuotes (t : Str) : hides (doubleQuotes '\'' t) = hides t := by
  induction t with
  | nil => rfl
  | cons c t ih =>
      rw [doubleQuotes_cons]
      by_cases hc : c = '\''
      · obtain rfl := hc
        rw [if_pos rfl, hides_cons (by decide) t, ← ih]
        exact (hides_cons (by decide) _).trans (hides_cons (by decide) _)
      · rw [if_neg hc, List.singleton_append, hides, hides, ih]
        cases t with
        | nil => rfl
        | cons d t =>
            rw [doubleQuotes_cons]
            by_cases hd : d = '\''
            · obtain rfl := hd
              simp
            · rw [if_neg hd, List.singleton_append, List.tail_cons, List.tail_cons,
                isCreate_doubleQuotes]
              rfl

/-- A text that hides a `CREATE TABLE`. -/
def hidesValue : SqlValue → Bool
  | .text t => hides t
  | _ => false

/-- One of the values that a dump is of: no real number. -/
def IsPlainValue : SqlValue → Prop
  | .real _ => False
  | _ => True

theorem hexDigit_ne {n : Nat} (h : n < 16) : hexDigit n ≠ ';' ∧ hexDigit n ≠ '\'' := by
  have hall : ∀ n < 16, hexDigit n ≠ ';' ∧ hexDigit n ≠ '\'' := by decide
  exact hall n h

theorem mem_hexByte {b : UInt8} {c : Char} (h : c ∈ hexByte b) : c ≠ ';' ∧ c ≠ '\'' := by
  have hb := b.toNat_lt
  rcases List.mem_cons.mp h with rfl | h
  · exact hexDigit_ne (by omega)
  · obtain rfl := List.mem_singleton.mp h
    exact hexDigit_ne (by omega)

section Lines

variable {formatReal : ℚ → Str}

theorem hides_value {v : SqlValue} (h : IsPlainValue v) (b : Str) :
    hides (formatSqlValue formatReal v ++ b) = (hidesValue v || hides b) := by
  cases v with
  | null =>
      show hides ("NULL".toList ++ b) = _
      exact hides_clean (by simp) b
  | integer i =>
      refine hides_clean (fun c hc => ?_) b
      rcases mem_decimal hc with rfl | hc
      · decide
      · rintro rfl
        exact absurd hc (by decide)
  | real q => exact h.elim
  | text t =>
      show hides ('\'' :: (doubleQuotes '\'' t ++ ['\'']) ++ b) = _
      rw [List.cons_append, hides_cons (by decide), List.append_assoc, List.singleton_append,
        hides_quote (.inl rfl), hides_doubleQuotes]
      rfl
  | blob bytes =>
      refine hides_clean (fun c hc => ?_) b
      rcases List.mem_append.mp hc with hc | hc
      · rcases List.mem_cons.mp hc with rfl | hc
        · decide
        rcases List.mem_cons.mp hc with rfl | hc
        · decide
        obtain ⟨byte, -, hbyte⟩ := List.mem_flatMap.mp hc
        exact (mem_hexByte hbyte).1
      · obtain rfl := List.mem_singleton.mp hc
        decide

theorem hides_values {row : Row} (h : ∀ v ∈ row, IsPlainValue v) (b : Str) :
    hides (join ", " (row.map (formatSqlValue formatReal)) ++ b) =
      (row.any hidesValue || hides b) := by
  unfold join
  induction row with
  | nil => rfl
  | cons v row ih =>
      obtain ⟨hv, hrow⟩ := List.forall_mem_cons.mp h
      cases row with
      | nil =>
          show hides (List.intercalate _ [formatSqlValue formatReal v] ++ b) = _
          rw [List.intercalate_singleton, hides_value hv, List.any_cons, List.any_nil,
            Bool.or_false]
      | cons w row =>
          rw [List.map_cons, List.map_cons, List.intercalate_cons_cons, List.append_assoc,
            List.append_assoc, hides_value hv, hides_clean (by simp), List.any_cons,
            Bool.or_assoc]
          exact congrArg _ (ih hrow)

theorem hides_columns (cols : List Str) (b : Str) :
    hides (columnList cols ++ b) = (cols.any (fun c => hides (strip c)) || hides b) := by
  have hcolumn (c b : Str) : hides ('"' :: strip c ++ ['"'] ++ b) =
      (hides (strip c) || hides b) := by
    rw [List.append_assoc, List.singleton_append, List.cons_append, hides_cons (by decide),
      hides_quote (.inr rfl)]
  unfold columnList join
  induction cols with
  | nil => rfl
  | cons c cols ih =>
      cases cols with
      | nil =>
          show hides (List.intercalate _ ['"' :: strip c ++ ['"']] ++ b) = _
          rw [List.intercalate_singleton, hcolumn, List.any_cons, List.any_nil, Bool.or_false]
      | cons d cols =>
          rw [List.map_cons, List.map_cons, List.intercalate_cons_cons, List.append_assoc,
            List.append_assoc, hcolumn, hides_clean (by simp), List.any_cons, Bool.or_assoc]
          exact congrArg _ ih

/-- The statement of a row hides what its names and values hide. -/
theorem hides_rowLine (table : Str) (cols : List Str) {row : Row}
    (h : ∀ v ∈ row, IsPlainValue v) : hides (rowLine formatReal table cols row) =
      (hides (strip table) || cols.any (fun c => hides (strip c)) || row.any hidesValue) := by
  have hname : rowLine formatReal table cols row = "INSERT INTO \"".toList ++ (strip table ++
      '"' :: (" (".toList ++ (columnList cols ++ (") VALUES (".toList ++
        (join ", " (row.map (formatSqlValue formatReal)) ++ ")".toList))))) := by
    unfold rowLine
    simp only [List.append_assoc]
    rfl
  rw [hname, hides_clean (by simp), hides_quote (.inr rfl), hides_clean (by simp),
    hides_columns, hides_clean (by simp), hides_values h, Bool.or_assoc]
  have hend : hides ")".toList = false := by decide
  rw [hend, Bool.or_false]

end Lines

theorem isCreate_rowLine (formatReal : ℚ → Str) (table : Str) (cols : List Str) (row : Row) :
    isCreate (rowLine formatReal table cols row) = false := by
  unfold rowLine
  simp only [List.append_assoc]
  rfl

/-! ## The trailer -/

/-- A name that the trailer gives back. -/
def IsTrailerName (name : Str) : Prop :=
  name ≠ [] ∧ '\n' ∉ name ∧ ',' ∉ name ∧ Str.trim name = name

theorem mem_intercalate {sep part : Str} {parts : List Str} {c : Char} (hc : c ∈ part)
    (hpart : part ∈ parts) : c ∈ List.intercalate sep parts := by
  induction parts with
  | nil => cases hpart
  | cons first parts ih =>
      cases parts with
      | nil =>
          obtain rfl := List.mem_singleton.mp hpart
          rwa [List.intercalate_singleton]
      | cons next parts =>
          rw [List.intercalate_cons_cons]
          rcases List.mem_cons.mp hpart with rfl | hpart
          · exact List.mem_append_left _ (List.mem_append_left _ hc)
          · exact List.mem_append_right _ (ih hpart)

theorem mem_of_mem_join {sep : String} {parts : List Str} {c : Char} (h : c ∈ join sep parts) :
    c ∈ sep.toList ∨ ∃ part ∈ parts, c ∈ part := by
  unfold join at h
  induction parts with
  | nil => cases h
  | cons first parts ih =>
      cases parts with
      | nil =>
          rw [List.intercalate_singleton] at h
          exact .inr ⟨first, List.mem_cons_self, h⟩
      | cons next parts =>
          rw [List.intercalate_cons_cons, List.append_assoc, List.mem_append, List.mem_append] at h
          rcases h with h | h | h
          · exact .inr ⟨first, List.mem_cons_self, h⟩
          · exact .inl h
          · exact (ih h).imp_right fun ⟨part, hpart, hc⟩ => ⟨part, List.mem_cons_of_mem _ hpart, hc⟩

/-- The last character of names that are not empty is that of one of them. -/
theorem getLast_join {sep : String} {parts : List Str} (h : ∀ part ∈ parts, part ≠ []) {c : Char}
    (hc : (join sep parts).getLast? = some c) : ∃ part ∈ parts, part.getLast? = some c := by
  unfold join at hc
  induction parts with
  | nil => cases hc
  | cons first parts ih =>
      obtain ⟨hfirst, hparts⟩ := List.forall_mem_cons.mp h
      cases parts with
      | nil =>
          rw [List.intercalate_singleton] at hc
          exact ⟨first, List.mem_cons_self, hc⟩
      | cons next parts =>
          obtain ⟨d, hd⟩ := List.exists_mem_of_ne_nil next (hparts next List.mem_cons_self)
          have hmem := @mem_intercalate sep.toList _ _ _ hd (@List.mem_cons_self _ _ parts)
          rw [List.intercalate_cons_cons,
            List.getLast?_append_of_ne_nil _ (List.ne_nil_of_mem hmem)] at hc
          obtain ⟨part, hpart, hlast⟩ := ih hparts hc
          exact ⟨part, List.mem_cons_of_mem _ hpart, hlast⟩

/-- All that is read of a trailer are such names. -/
theorem isTrailerName_of_mem {dump name : Str} (h : name ∈ dumpCrrTables dump) :
    IsTrailerName name := by
  unfold dumpCrrTables at h
  split at h
  · next list hlist =>
    obtain ⟨line, hline, hstarts⟩ := List.exists_of_findSome?_eq_some hlist
    have hno := Str.not_mem_lines (List.mem_reverse.mp hline)
    obtain ⟨hmem, hne⟩ := List.mem_filter.mp h
    obtain ⟨part, hpart, rfl⟩ := List.mem_map.mp hmem
    have hcomma := Str.not_mem_of_mem_splitOn hpart
    refine ⟨by simpa using hne, fun hc => hno ?_, fun hc => hcomma (Str.mem_of_mem_trim hc),
      Str.trim_trim part⟩
    -- a part of the list is a part of its line
    have hlistMem : '\n' ∈ list := by
      rw [← @List.intercalate_splitOn _ list _ _ ',']
      exact mem_intercalate (Str.mem_of_mem_trim hc) hpart
    unfold Str.stripPrefix at hstarts
    split at hstarts
    · rw [← Option.some_inj.mp hstarts] at hlistMem
      exact (List.drop_sublist _ _).subset hlistMem
    · cases hstarts
  · cases h

/-- The trailer gives the names back if they are such names. -/
theorem dumpCrrTables_of_plain {front : Str} {names : List Str}
    (hfront : front = [] ∨ front.getLast? = some '\n') (h : ∀ name ∈ names, IsTrailerName name) :
    dumpCrrTables (front ++ ("-- crr: ".toList ++ join "," names ++ "\n".toList)) = names := by
  have hnewline : '\n' ∉ "-- crr: ".toList ++ join "," names := by
    intro hc
    rcases List.mem_append.mp hc with hc | hc
    · exact absurd hc (by decide)
    · rcases mem_of_mem_join hc with hc | ⟨name, hname, hc⟩
      · exact absurd hc (by decide)
      · exact (h name hname).2.1 hc
  have hreturn : ("-- crr: ".toList ++ join "," names).getLast? ≠ some '\r' := by
    intro hlast
    rw [List.getLast?_append] at hlast
    rcases Option.or_eq_some_iff.mp hlast with hlast | ⟨-, hlast⟩
    · obtain ⟨name, hname, hlast⟩ := getLast_join (fun name hname => (h name hname).1) hlast
      rw [← (h name hname).2.2.2] at hlast
      exact absurd (Str.last_trim name _ hlast) (by decide)
    · exact absurd hlast (by decide)
  obtain ⟨before, hlines⟩ := Str.lines_append hfront hnewline hreturn
  have hlist : (Str.lines (front ++ ("-- crr: ".toList ++ join "," names ++
      "\n".toList))).reverse.findSome? (Str.stripPrefix "-- crr: ".toList) =
      some (join "," names) := by
    rw [show "\n".toList = ['\n'] from rfl, hlines, List.reverse_append, List.reverse_singleton,
      List.singleton_append, List.findSome?_cons, Str.stripPrefix_append]
  unfold dumpCrrTables
  rw [hlist]
  dsimp only
  cases names with
  | nil => rfl
  | cons first names =>
      have hsplit : (join "," (first :: names)).splitOn ',' = first :: names :=
        List.splitOn_intercalate ',' (fun name hname => (h name hname).2.2.1)
          (List.cons_ne_nil _ _)
      have htrim : (first :: names).map Str.trim = first :: names :=
        (List.map_congr_left fun name hname => (h name hname).2.2.2).trans (List.map_id _)
      rw [hsplit, htrim]
      exact List.filter_eq_self.mpr fun name hname => by simpa using (h name hname).1

/-! ## The names of tables -/

section Like

variable {p s : Str}

theorem like_self (h : ∀ c ∈ p, c ≠ '%') : like p p = true := by
  induction p with
  | nil => rw [like, List.isEmpty_nil]
  | cons c p ih =>
      obtain ⟨hc, hp⟩ := List.forall_mem_cons.mp h
      by_cases hany : c = '_'
      · obtain rfl := hany
        rw [like]
        exact ih hp
      · rw [like]
        · rw [ih hp, Bool.and_true]
          exact decide_eq_true rfl
        · exact hc
        · exact hany

theorem like_percent_append (a : Str) (h : like p s = true) : like ('%' :: p) (a ++ s) = true := by
  induction a with
  | nil =>
      cases s with
      | nil => rwa [List.nil_append, like]
      | cons c s => rw [List.nil_append, like, h, Bool.true_or]
  | cons c a ih => rw [List.cons_append, like, ih, Bool.or_true]

theorem like_percent (h : like ('%' :: p) s = true) : ∃ a b, a ++ b = s ∧ like p b = true := by
  induction s with
  | nil =>
      rw [like] at h
      exact ⟨[], [], rfl, h⟩
  | cons c s ih =>
      rw [like, Bool.or_eq_true] at h
      rcases h with h | h
      · exact ⟨[], c :: s, rfl, h⟩
      · obtain ⟨a, b, rfl, hb⟩ := ih h
        exact ⟨c :: a, b, rfl, hb⟩

/-- The last character of a pattern is the last of the text. -/
theorem like_last {x : Char} (hp : ∀ c ∈ p, c ≠ '%') (hx : x ≠ '%' ∧ x ≠ '_')
    (h : like (p ++ [x]) s = true) : ∃ b y, s = b ++ [y] ∧ x.toLower = y.toLower := by
  induction p generalizing s with
  | nil =>
      cases s with
      | nil =>
          rw [List.nil_append, like] at h
          · cases h
          · exact fun hpercent => hx.1 hpercent
      | cons c s =>
          rw [List.nil_append, like, Bool.and_eq_true, decide_eq_true_eq] at h
          · obtain ⟨hc, hs⟩ := h
            rw [like, List.isEmpty_iff] at hs
            exact ⟨[], c, by rw [hs]; rfl, hc⟩
          · exact hx.1
          · exact hx.2
  | cons c p ih =>
      obtain ⟨hc, hp⟩ := List.forall_mem_cons.mp hp
      rw [List.cons_append] at h
      cases s with
      | nil =>
          rw [like] at h
          · cases h
          · exact fun hpercent => hc hpercent
      | cons d s =>
          have hrest : like (p ++ [x]) s = true := by
            by_cases hany : c = '_'
            · obtain rfl := hany
              rwa [like] at h
            · rw [like, Bool.and_eq_true] at h
              · exact h.2
              · exact hc
              · exact hany
          obtain ⟨b, y, rfl, hy⟩ := ih hp hrest
          exact ⟨d :: b, y, rfl, hy⟩

end Like

def clockName (name : Str) : Str := name ++ clockSuffix

def pksName (name : Str) : Str := name ++ "__crsql_pks".toList

theorem like_clockName (name : Str) : like "%__crsql_clock".toList (clockName name) = true :=
  like_percent_append name (like_self (p := "__crsql_clock".toList) (by simp))

theorem like_pksName (name : Str) : like "%__crsql_pks".toList (pksName name) = true :=
  like_percent_append name (like_self (p := "__crsql_pks".toList) (by simp))

theorem not_like_pksName (name : Str) :
    like "%__crsql_clock".toList (pksName name) = false := by
  by_contra hlike
  obtain ⟨a, b, hsplit, hb⟩ := like_percent (Bool.not_eq_false _ ▸ hlike)
  obtain ⟨c, y, rfl, hy⟩ := like_last (p := "__crsql_cloc".toList) (x := 'k') (by simp)
    ⟨by decide, by decide⟩ hb
  have hlast := congrArg List.getLast? hsplit
  rw [← List.append_assoc, List.getLast?_concat, pksName, List.getLast?_append] at hlast
  obtain rfl : y = 's' := Option.some_inj.mp hlast
  exact absurd hy (by decide)

theorem not_like_of_user {name : Str} (h : isUserTable name = true) :
    like "%__crsql_clock".toList name = false := by
  simp only [isUserTable, Bool.and_eq_true, Bool.not_eq_true'] at h
  exact h.1.2

/-- The name of a user table is found behind that of its clock. -/
theorem trimClock_clockName {name : Str} (h : isUserTable name = true) :
    trimClock (clockName name) = name := by
  have hno : ¬clockSuffix <:+ name := by
    rintro ⟨a, rfl⟩
    have hlike : like "%__crsql_clock".toList (a ++ clockSuffix) = true :=
      like_percent_append a (like_self (p := "__crsql_clock".toList) (by simp))
    rw [not_like_of_user h] at hlike
    cases hlike
  have htake : (clockName name).take ((clockName name).length - clockSuffix.length) = name := by
    rw [clockName, List.length_append, Nat.add_sub_cancel, List.take_left]
  have hsuffix : clockSuffix <:+ clockName name := List.suffix_append name clockSuffix
  rw [trimClock, if_pos hsuffix, htake, trimClock, if_neg hno]

theorem not_isUserTable_clock (name : Str) : isUserTable (clockName name) = false := by
  unfold isUserTable
  rw [like_clockName, Bool.not_true, Bool.and_false, Bool.false_and]

theorem not_isUserTable_pks (name : Str) : isUserTable (pksName name) = false := by
  unfold isUserTable
  rw [like_pksName, Bool.not_true, Bool.and_false]

end Realtime.PluginDb.Dump
