import Mathlib.Data.List.GetD
import Mathlib.Data.List.Pairwise
import Realtime.Lib.Assoc
import Realtime.Lib.KeyedRows
import Realtime.PluginDb.Dump

/-!
# Rolling a replica back to its dump

`table_columns`, `read_table_rows` and `diff_apply_table` of `server/src/plugindb.rs`: rows
are matched by the texts of their keys, and keyed commands make the rows of a table those of
the dump. Then what a dump must not have in it for the rollback to be possible.
-/

namespace Realtime.PluginDb.Dump

open Lib Lib.Sql Lib.Integers

deriving instance DecidableEq for SqlValue

/-! ## Matching rows -/

/-- `table_columns` of the columns that are listed: all, and those of the primary key in its
order -/
def tableColumns (info : List (Str × Nat)) : List Str × List Str :=
  let pks := (info.filter fun c => 0 < c.2).map fun c => (c.2, c.1)
  (info.map Prod.fst,
    (pks.mergeSort fun a b => a.1 < b.1 || (a.1 = b.1 && a.2 ≤ b.2)).map Prod.snd)

/-- The places of the columns of the key. -/
def pkIdx (cols pks : List Str) : List Nat := pks.filterMap fun pk => cols.findIdx? (· = pk)

/-- The values at some places. -/
def valuesAt (idx : List Nat) (row : Row) : List SqlValue := idx.map fun i => row.getD i .null

def separator : String := "\x1f"

def rowKey (formatReal : ℚ → Str) (idx : List Nat) (row : Row) : Str :=
  join separator ((valuesAt idx row).map (formatSqlValue formatReal))

/-- `read_table_rows`; the order of the entries is left open. -/
def readTableRows (formatReal : ℚ → Str) (db : Database) (table : Str) (cols pks : List Str) :
    List (Str × Row) :=
  (db.select (strip table) (cols.map strip)).foldl
    (fun out vals => Assoc.set (rowKey formatReal (pkIdx cols pks) vals) vals out) []

/-- The commands on the rows of a table; columns are given by their places. -/
inductive RowCommand where
  | delete (pk : List SqlValue)
  | insert (vals : Row)
  | update (set : List (Nat × SqlValue)) (pk : List SqlValue)

/-- The commands of `diff_apply_table`, for the entries of both tables in the orders in which
they are met. -/
def diffApplyTable (cols pks : List Str) (current target : List (Str × Row)) : List RowCommand :=
  if cols = [] ∨ pks = [] then []
  else
    let idx := pkIdx cols pks
    current.filterMap (fun (key, vals) =>
      if key ∈ Assoc.keys target then none else some (.delete (valuesAt idx vals))) ++
    target.filterMap fun (key, vals) =>
      match Assoc.get key current with
      | none => some (.insert vals)
      | some cur =>
          if cur ≠ vals then
            let nonPk := (List.range cols.length).filter fun i => i ∉ idx
            if nonPk = [] then none
            else some (.update (nonPk.map fun i => (i, vals.getD i .null)) (valuesAt idx vals))
          else none

/-! ## SQLite -/

/-- The values of a row at some places are equal to others, in the columns' sense. -/
def agrees (same : Nat → SqlValue → SqlValue → Bool) (idx : List Nat) (pk : List SqlValue)
    (row : Row) : Bool :=
  (idx.zip pk).all fun e => same e.1 (row.getD e.1 .null) e.2

def setValues (row : Row) (set : List (Nat × SqlValue)) : Row :=
  set.foldl (fun row e => row.set e.1 e.2) row

/-- A command on the rows of a table, none where it fails on the key. -/
def RowCommand.run (same : Nat → SqlValue → SqlValue → Bool) (idx : List Nat) (rows : List Row) :
    RowCommand → Option (List Row)
  | .delete pk => some (rows.filter fun row => !agrees same idx pk row)
  | .insert vals =>
      if rows.any (agrees same idx (valuesAt idx vals)) then none else some (rows ++ [vals])
  | .update set pk =>
      some (rows.map fun row => if agrees same idx pk row then setValues row set else row)

def runCommands (same : Nat → SqlValue → SqlValue → Bool) (idx : List Nat) (rows : List Row)
    (commands : List RowCommand) : Option (List Row) :=
  commands.foldlM (RowCommand.run same idx) rows

/-- Rows of NULL, integers, texts and blobs. -/
structure PlainRows (width : Nat) (rows : List Row) : Prop where
  width : ∀ row ∈ rows, row.length = width
  plain : ∀ row ∈ rows, ∀ v ∈ row, IsPlainValue v

/-- Such rows with no NULL in a key and no key twice. -/
structure Keyed (width : Nat) (same : Nat → SqlValue → SqlValue → Bool) (idx : List Nat)
    (rows : List Row) : Prop extends PlainRows width rows where
  notNull : ∀ row ∈ rows, ∀ v ∈ valuesAt idx row, v ≠ .null
  distinct : rows.Pairwise fun r s => agrees same idx (valuesAt idx r) s = false ∧
    agrees same idx (valuesAt idx s) r = false

/-- A user table with a primary key. -/
structure UserTable where
  name : Str
  sql : Str
  columns : List (Str × Nat)
  isCrr : Bool
  /-- whether two values are equal in a column, which may have a collation -/
  same : Nat → SqlValue → SqlValue → Bool
  /-- `ORDER BY` of all columns -/
  order : List Row → List Row
  isUser : isUserTable name = true
  isTable : ∃ rest, sql = "CREATE TABLE ".toList ++ rest
  hasKey : ∃ c ∈ columns, 0 < c.2
  same_refl : ∀ i v, v ≠ .null → same i v v = true
  order_perm : ∀ rows, (order rows).Perm rows
  order_congr : ∀ rows rows',
    Keyed columns.length same (pkIdx (tableColumns columns).1 (tableColumns columns).2) rows →
    rows.Perm rows' → order rows = order rows'

namespace UserTable

variable (t : UserTable)

def cols : List Str := (tableColumns t.columns).1

def pks : List Str := (tableColumns t.columns).2

def idx : List Nat := pkIdx t.cols t.pks

/-- The rows it may have. The keys of a CRR have no NULL in them. -/
structure Rows (rows : List Row) : Prop where
  plain : PlainRows t.columns.length rows
  keyed : t.isCrr = true → Keyed t.columns.length t.same t.idx rows

/-- No double quote in its names, which would be taken out. -/
def NamesPlain : Prop := '"' ∉ t.name ∧ ∀ c ∈ t.columns, '"' ∉ c.1

end UserTable

/-- The tables in `sqlite_master` with those of cr-sqlite. -/
def masterOf (sidecarSql : Str → Str) (tables : List UserTable) : List (Str × Str) :=
  tables.flatMap fun t => (t.name, t.sql) :: if t.isCrr then
    [(clockName t.name, sidecarSql (clockName t.name)),
      (pksName t.name, sidecarSql (pksName t.name))] else []

/-- A database of these tables, with these rows in them. -/
structure Holds (db : Database) (tables : List UserTable) (rows : UserTable → List Row) : Prop where
  tableInfo : ∀ t ∈ tables, db.tableInfo t.name = t.columns
  select : ∀ t ∈ tables, (db.select t.name t.cols).Perm (rows t)
  selectOrdered : ∀ t ∈ tables, db.selectOrdered t.name t.cols = t.order (rows t)
  keyed : ∀ t ∈ tables, t.Rows (rows t)

/-! ## Texts that are read back -/

/-- The text up to the first character of another kind is known. -/
theorem append_cancel_of_kind {α : Type*} {P : α → Prop} {s t x y : List α} {c d : α}
    (hs : ∀ a ∈ s, P a) (ht : ∀ a ∈ t, P a) (hc : ¬P c) (hd : ¬P d)
    (h : s ++ c :: x = t ++ d :: y) : s = t ∧ c :: x = d :: y := by
  induction s generalizing t with
  | nil =>
      cases t with
      | nil => exact ⟨rfl, h⟩
      | cons b t =>
          obtain ⟨rfl, -⟩ := List.cons.inj h
          exact absurd (ht c List.mem_cons_self) hc
  | cons a s ih =>
      obtain ⟨ha, hs⟩ := List.forall_mem_cons.mp hs
      cases t with
      | nil =>
          obtain ⟨rfl, -⟩ := List.cons.inj h
          exact absurd ha hd
      | cons b t =>
          obtain ⟨rfl, hrest⟩ := List.cons.inj h
          obtain ⟨rfl, htail⟩ := ih hs (List.forall_mem_cons.mp ht).2 hrest
          exact ⟨rfl, htail⟩

theorem hexByte_inj {b b' : UInt8} (h : hexByte b = hexByte b') : b = b' := by
  have hdigit : ∀ m < 16, ∀ n < 16, hexDigit m = hexDigit n → m = n := by decide
  have hb := b.toNat_lt
  have hb' := b'.toNat_lt
  obtain ⟨hhigh, hlow⟩ := List.cons.inj h
  have hlow' := (List.cons.inj hlow).1
  have hhigh := hdigit _ (by omega) _ (by omega) hhigh
  have hlow := hdigit _ (by omega) _ (by omega) hlow'
  exact UInt8.toNat_inj.mp (by omega)

theorem hexBytes_inj {a b : List UInt8} (h : a.flatMap hexByte = b.flatMap hexByte) : a = b := by
  induction a generalizing b with
  | nil =>
      cases b with
      | nil => rfl
      | cons _ _ => cases h
  | cons x a ih =>
      cases b with
      | nil => cases h
      | cons y b =>
          rw [List.flatMap_cons, List.flatMap_cons] at h
          obtain ⟨hxy, hab⟩ := List.append_inj h rfl
          rw [hexByte_inj hxy, ih hab]

/-- A character that ends a value. -/
def IsEnd (c : Char) : Prop := c = ',' ∨ c = ')' ∨ c = '\x1f'

theorem IsEnd.not_quote {c : Char} (h : IsEnd c) : c ≠ '\'' := by
  rcases h with rfl | rfl | rfl <;> decide

theorem IsEnd.not_decimal {c : Char} (h : IsEnd c) : ¬(c = '-' ∨ c.isDigit = true) := by
  rcases h with rfl | rfl | rfl <;> decide

theorem decimal_ne_nil (n : ℤ) : decimal n ≠ [] := by
  intro h
  have hread := readSigned_decimal n
  rw [h] at hread
  exact absurd hread (by simp [readSigned, readNat])

/-- What a value is, as its first character shows it. -/
def kindOfHead (c : Char) : Nat :=
  if c = 'N' then 0
  else if c = '-' ∨ c.isDigit = true then 1
  else if c = '\'' then 2
  else if c = 'X' then 3
  else 4

def kindOfValue : SqlValue → Nat
  | .null => 0
  | .text _ => 2
  | .blob _ => 3
  | _ => 1

theorem head_formatSqlValue (formatReal : ℚ → Str) {v : SqlValue} (h : IsPlainValue v) :
    ∃ c s, formatSqlValue formatReal v = c :: s ∧ kindOfHead c = kindOfValue v := by
  cases v with
  | null => exact ⟨'N', _, rfl, rfl⟩
  | integer i =>
      obtain ⟨c, s, hs⟩ := List.exists_cons_of_ne_nil (decimal_ne_nil i.1)
      refine ⟨c, s, hs, ?_⟩
      have hc : c = '-' ∨ c.isDigit = true := mem_decimal (hs ▸ List.mem_cons_self)
      have hne : c ≠ 'N' := by
        rintro rfl
        exact absurd hc (by decide)
      unfold kindOfHead
      rw [if_neg hne, if_pos hc]
      rfl
  | real q => exact h.elim
  | text t => exact ⟨'\'', _, rfl, rfl⟩
  | blob b => exact ⟨'X', _, rfl, rfl⟩

section Read

variable {formatReal : ℚ → Str}

/-- The text of a value is read back, whatever is behind it. -/
theorem formatSqlValue_cancel {v w : SqlValue} (hv : IsPlainValue v) (hw : IsPlainValue w)
    {c d : Char} (hc : IsEnd c) (hd : IsEnd d) {x y : Str}
    (h : formatSqlValue formatReal v ++ c :: x = formatSqlValue formatReal w ++ d :: y) :
    v = w ∧ c :: x = d :: y := by
  have hkind : kindOfValue v = kindOfValue w := by
    obtain ⟨a, s, hs, ha⟩ := head_formatSqlValue formatReal hv
    obtain ⟨b, t, ht, hb⟩ := head_formatSqlValue formatReal hw
    rw [hs, ht] at h
    rw [← ha, ← hb, (List.cons.inj h).1]
  cases v with
  | null =>
      cases w with
      | null => exact ⟨rfl, List.append_cancel_left h⟩
      | integer j => cases hkind
      | real q => exact hw.elim
      | text t => cases hkind
      | blob b => cases hkind
  | integer i =>
      cases w with
      | null => cases hkind
      | integer j =>
          obtain ⟨heq, htail⟩ := append_cancel_of_kind (fun _ ha => mem_decimal ha)
            (fun _ ha => mem_decimal ha) hc.not_decimal hd.not_decimal h
          have hread := readSigned_decimal i.1
          rw [heq, readSigned_decimal j.1] at hread
          exact ⟨congrArg _ (Subtype.ext (Option.some_inj.mp hread).symm), htail⟩
      | real q => exact hw.elim
      | text t => cases hkind
      | blob b => cases hkind
  | real q => exact hv.elim
  | text s =>
      cases w with
      | null => cases hkind
      | integer j => cases hkind
      | real q => exact hw.elim
      | text t =>
          have hs := @Closes.quoted _ _ _ _ (closes_doubleQuotes '\'' s) (c :: x)
            fun _ hhead => hc.not_quote (Option.some_inj.mp hhead)
          have ht := @Closes.quoted _ _ _ _ (closes_doubleQuotes '\'' t) (d :: y)
            fun _ hhead => hd.not_quote (Option.some_inj.mp hhead)
          have hquote : doubleQuotes '\'' s ++ ['\''] ++ c :: x =
              doubleQuotes '\'' t ++ ['\''] ++ d :: y := (List.cons.inj h).2
          rw [hquote, ht] at hs
          obtain ⟨rfl, htail⟩ := Prod.mk.inj hs
          exact ⟨rfl, htail.symm⟩
      | blob b => cases hkind
  | blob a =>
      cases w with
      | null => cases hkind
      | integer j => cases hkind
      | real q => exact hw.elim
      | text t => cases hkind
      | blob b =>
          have hhex (bytes : List UInt8) : ∀ e ∈ bytes.flatMap hexByte, e ≠ '\'' := by
            intro e he
            obtain ⟨byte, -, hbyte⟩ := List.mem_flatMap.mp he
            exact (mem_hexByte hbyte).2
          have hbytes : a.flatMap hexByte ++ '\'' :: c :: x =
              b.flatMap hexByte ++ '\'' :: d :: y := by
            rw [List.append_cons, List.append_cons (b.flatMap hexByte)]
            exact (List.cons.inj (List.cons.inj h).2).2
          obtain ⟨heq, htail⟩ := append_cancel_of_kind (hhex a) (hhex b) (not_not.mpr rfl)
            (not_not.mpr rfl) hbytes
          exact ⟨congrArg _ (hexBytes_inj heq), (List.cons.inj htail).2⟩

/-- What is behind the first of joined texts. -/
theorem join_cons_append (sep : String) (a : Str) (parts : List Str) (z : Str) :
    join sep (a :: parts) ++ z =
      a ++ if parts = [] then z else sep.toList ++ (join sep parts ++ z) := by
  unfold join
  cases parts with
  | nil => rw [List.intercalate_singleton, if_pos rfl]
  | cons b parts =>
      rw [if_neg (List.cons_ne_nil _ _), List.intercalate_cons_cons, List.append_assoc,
        List.append_assoc]

/-- So are values with a separator between them. -/
theorem join_cancel {sep : String} {s : Char} {rest : Str} (hsep : sep.toList = s :: rest)
    (hs : IsEnd s ∧ s ≠ ')') {row row' : Row} (hrow : ∀ v ∈ row, IsPlainValue v)
    (hrow' : ∀ v ∈ row', IsPlainValue v) {x y : Str}
    (h : join sep (row.map (formatSqlValue formatReal)) ++ ')' :: x =
      join sep (row'.map (formatSqlValue formatReal)) ++ ')' :: y) : row = row' ∧ x = y := by
  have hend : IsEnd ')' := .inr (.inl rfl)
  -- a value is not empty
  have hempty {v : SqlValue} (hv : IsPlainValue v) (t x : Str) :
      formatSqlValue formatReal v ++ t ≠ ')' :: x := by
    intro heq
    obtain ⟨c, u, hu, hc⟩ := head_formatSqlValue formatReal hv
    rw [hu] at heq
    obtain ⟨rfl, -⟩ := List.cons.inj heq
    cases v <;> exact absurd hc (by simp [kindOfHead, kindOfValue])
  induction row generalizing row' with
  | nil =>
      cases row' with
      | nil => exact ⟨rfl, (List.cons.inj h).2⟩
      | cons w row' =>
          rw [List.map_cons, join_cons_append] at h
          exact absurd h.symm (hempty (hrow' w List.mem_cons_self) _ _)
  | cons v row ih =>
      obtain ⟨hv, hrest⟩ := List.forall_mem_cons.mp hrow
      cases row' with
      | nil =>
          rw [List.map_cons, join_cons_append] at h
          exact absurd h (hempty hv _ _)
      | cons w row' =>
          obtain ⟨hw, hrest'⟩ := List.forall_mem_cons.mp hrow'
          rw [List.map_cons, List.map_cons, join_cons_append, join_cons_append, hsep] at h
          simp only [List.map_eq_nil_iff] at h
          by_cases hnil : row = []
          · by_cases hnil' : row' = []
            · rw [if_pos hnil, if_pos hnil'] at h
              obtain ⟨rfl, htail⟩ := formatSqlValue_cancel hv hw hend hend h
              rw [hnil, hnil']
              exact ⟨rfl, (List.cons.inj htail).2⟩
            · rw [if_pos hnil, if_neg hnil'] at h
              obtain ⟨-, htail⟩ := formatSqlValue_cancel hv hw hend hs.1 h
              exact absurd (List.cons.inj htail).1.symm hs.2
          · by_cases hnil' : row' = []
            · rw [if_neg hnil, if_pos hnil'] at h
              obtain ⟨-, htail⟩ := formatSqlValue_cancel hv hw hs.1 hend h
              exact absurd (List.cons.inj htail).1 hs.2
            · rw [if_neg hnil, if_neg hnil'] at h
              obtain ⟨rfl, htail⟩ := formatSqlValue_cancel hv hw hs.1 hs.1 h
              obtain ⟨rfl, hxy⟩ := ih hrest hrest'
                (List.append_cancel_left (List.cons.inj htail).2)
              exact ⟨rfl, hxy⟩

/-- Keys have the same text only if their values are the same. -/
theorem joined_inj {row row' : Row} (hrow : ∀ v ∈ row, IsPlainValue v)
    (hrow' : ∀ v ∈ row', IsPlainValue v)
    (h : join separator (row.map (formatSqlValue formatReal)) =
      join separator (row'.map (formatSqlValue formatReal))) : row = row' :=
  (@join_cancel _ separator '\x1f' [] rfl ⟨.inr (.inr rfl), by decide⟩ _ _ hrow hrow' [] []
    (congrArg (· ++ [')']) h)).1

/-- The rows of a table are known from their statements. -/
theorem rowLines_cancel {table : Str} {cols : List Str} {rows rows' : List Row}
    (hrows : ∀ row ∈ rows, ∀ v ∈ row, IsPlainValue v)
    (hrows' : ∀ row ∈ rows', ∀ v ∈ row, IsPlainValue v) {x y : Str}
    (h : (rows.map (rowLine formatReal table cols)).flatMap (· ++ ";\n".toList) ++ '\n' :: x =
      (rows'.map (rowLine formatReal table cols)).flatMap (· ++ ";\n".toList) ++ '\n' :: y) :
    rows = rows' ∧ x = y := by
  have hfirst (row : Row) (rows : List Row) (z : Str) :
      ((row :: rows).map (rowLine formatReal table cols)).flatMap (· ++ ";\n".toList) ++ z =
        'I' :: ("NSERT INTO \"".toList ++ strip table ++ "\" (".toList ++ columnList cols ++
          ") VALUES (".toList ++ (join ", " (row.map (formatSqlValue formatReal)) ++ ')' ::
            (";\n".toList ++
              ((rows.map (rowLine formatReal table cols)).flatMap (· ++ ";\n".toList) ++ z)))) := by
    rw [List.map_cons, List.flatMap_cons]
    unfold rowLine
    simp only [List.append_assoc]
    rfl
  induction rows generalizing rows' with
  | nil =>
      cases rows' with
      | nil => exact ⟨rfl, (List.cons.inj h).2⟩
      | cons row' rows' =>
          rw [hfirst] at h
          exact absurd (List.cons.inj h).1 (by decide)
  | cons row rows ih =>
      obtain ⟨hrow, hrest⟩ := List.forall_mem_cons.mp hrows
      cases rows' with
      | nil =>
          rw [hfirst] at h
          exact absurd (List.cons.inj h).1 (by decide)
      | cons row' rows' =>
          obtain ⟨hrow', hrest'⟩ := List.forall_mem_cons.mp hrows'
          rw [hfirst, hfirst] at h
          have hvalues := List.append_cancel_left (List.cons.inj h).2
          obtain ⟨rfl, htail⟩ := join_cancel rfl ⟨.inl rfl, by decide⟩ hrow hrow' hvalues
          obtain ⟨rfl, hxy⟩ := ih hrest hrest' (List.append_cancel_left htail)
          exact ⟨rfl, hxy⟩

end Read

/-! ## Rows that are matched -/

section Match

variable {width : Nat} {same : Nat → SqlValue → SqlValue → Bool} {idx : List Nat}

theorem agrees_valuesAt (v row : Row) : agrees same idx (valuesAt idx v) row =
    idx.all fun i => same i (row.getD i .null) (v.getD i .null) := by
  unfold agrees valuesAt
  induction idx with
  | nil => rfl
  | cons i idx ih =>
      rw [List.map_cons, List.zip_cons_cons, List.all_cons, List.all_cons, ih]

theorem valuesAt_eq_iff {row row' : Row} : valuesAt idx row = valuesAt idx row' ↔
    ∀ i ∈ idx, row.getD i .null = row'.getD i .null := List.map_inj_left

/-- Only the values of the key matter. -/
theorem agrees_congr {row row' : Row} (h : valuesAt idx row = valuesAt idx row') (v : Row) :
    agrees same idx (valuesAt idx v) row = agrees same idx (valuesAt idx v) row' := by
  rw [agrees_valuesAt, agrees_valuesAt, Bool.eq_iff_iff, List.all_eq_true, List.all_eq_true]
  refine forall₂_congr fun i hi => ?_
  rw [valuesAt_eq_iff.mp h i hi]

section Keyed

variable {rows : List Row} (h : Keyed width same idx rows)
include h

theorem Keyed.perm {rows' : List Row} (hperm : rows.Perm rows') : Keyed width same idx rows' where
  width row hrow := h.width row (hperm.mem_iff.mpr hrow)
  plain row hrow := h.plain row (hperm.mem_iff.mpr hrow)
  notNull row hrow := h.notNull row (hperm.mem_iff.mpr hrow)
  distinct := h.distinct.perm hperm fun h => ⟨h.2, h.1⟩

variable (hrefl : ∀ i v, v ≠ .null → same i v v = true)
include hrefl

/-- A row has the key of another only if it is that one. -/
theorem Keyed.agrees_iff {v w : Row} (hv : v ∈ rows) (hw : w ∈ rows) :
    agrees same idx (valuesAt idx v) w = true ↔ w = v := by
  constructor
  · intro hagrees
    by_contra hne
    have hsymm : Std.Symm fun r s => agrees same idx (valuesAt idx r) s = false ∧
        agrees same idx (valuesAt idx s) r = false := ⟨fun _ _ h => ⟨h.2, h.1⟩⟩
    obtain ⟨-, hno⟩ := h.distinct.forall hw hv hne
    rw [hagrees] at hno
    cases hno
  · rintro rfl
    rw [agrees_valuesAt, List.all_eq_true]
    intro i hi
    exact hrefl i _ (h.notNull w hw _ (List.mem_map_of_mem hi))

theorem Keyed.nodup : (rows.map (valuesAt idx)).Nodup := by
  have hpairwise : rows.Pairwise fun r s => valuesAt idx r ≠ valuesAt idx s := by
    refine h.distinct.imp_of_mem fun {r s} hr hs hrs heq => ?_
    have hself := (h.agrees_iff hrefl hs hs).mpr rfl
    rw [agrees_congr heq.symm, hrs.2] at hself
    cases hself
  exact List.pairwise_map.mpr hpairwise

end Keyed

/-- Texts of keys are the same just when the keys are. -/
theorem rowKey_eq_iff {formatReal : ℚ → Str} {row row' : Row}
    (hrow : ∀ v ∈ valuesAt idx row, IsPlainValue v)
    (hrow' : ∀ v ∈ valuesAt idx row', IsPlainValue v) :
    rowKey formatReal idx row = rowKey formatReal idx row' ↔ valuesAt idx row = valuesAt idx row' :=
  ⟨fun h => joined_inj hrow hrow' h, fun h => by rw [rowKey, rowKey, h]⟩

theorem PlainRows.plain_valuesAt {rows : List Row} (h : PlainRows width rows) {row : Row}
    (hrow : row ∈ rows) : ∀ v ∈ valuesAt idx row, IsPlainValue v := by
  intro v hv
  obtain ⟨i, -, rfl⟩ := List.mem_map.mp hv
  rw [List.getD_eq_getElem?_getD]
  cases hi : row[i]? with
  | none => trivial
  | some v => exact h.plain row hrow v (List.mem_of_getElem? hi)

/-- The values that are set are those of the other row. -/
theorem getD_setValues (is : List Nat) (v row : Row) (j : Nat) :
    (setValues row (is.map fun i => (i, v.getD i .null))).length = row.length ∧
      (setValues row (is.map fun i => (i, v.getD i .null))).getD j .null =
        if j ∈ is ∧ j < row.length then v.getD j .null else row.getD j .null := by
  unfold setValues
  induction is generalizing row with
  | nil => exact ⟨rfl, by simp⟩
  | cons i is ih =>
      obtain ⟨hlength, hget⟩ := ih (row.set i (v.getD i .null))
      rw [List.length_set] at hlength hget
      refine ⟨hlength, hget.trans ?_⟩
      by_cases hj : j ∈ is ∧ j < row.length
      · rw [if_pos hj, if_pos ⟨List.mem_cons_of_mem _ hj.1, hj.2⟩]
      · rw [if_neg hj, List.getD_eq_getElem?_getD, List.getElem?_set]
        by_cases hi : i = j
        · obtain rfl := hi
          by_cases hlt : i < row.length
          · rw [if_pos rfl, if_pos hlt, if_pos ⟨List.mem_cons_self, hlt⟩]
            rfl
          · rw [if_pos rfl, if_neg hlt, if_neg fun h => hlt h.2, List.getD_eq_getElem?_getD,
              List.getElem?_eq_none (by omega)]
        · rw [if_neg hi, if_neg, List.getD_eq_getElem?_getD]
          rintro ⟨hmem, hlt⟩
          rcases List.mem_cons.mp hmem with rfl | hmem
          · exact hi rfl
          · exact hj ⟨hmem, hlt⟩

/-- A row with the key of another and its other values is that row. -/
theorem setValues_eq {v row : Row} (hv : v.length = width) (hrow : row.length = width)
    (h : valuesAt idx row = valuesAt idx v) {is : List Nat}
    (his : ∀ i < width, i ∉ idx → i ∈ is) :
    setValues row (is.map fun i => (i, v.getD i .null)) = v := by
  refine List.ext_getElem (by rw [(getD_setValues is v row 0).1, hrow, hv]) fun i hi hi' => ?_
  have hget := (getD_setValues is v row i).2
  rw [List.getD_eq_getElem _ _ hi] at hget
  rw [hget, ← List.getD_eq_getElem v .null hi']
  split
  · rfl
  · next hno =>
    have hmem : i ∈ idx := by
      by_contra hidx
      exact hno ⟨his i (by omega) hidx, by omega⟩
    exact valuesAt_eq_iff.mp h i hmem

end Match

/-! ## The commands of a diff -/

section Diff

variable {formatReal : ℚ → Str} {width : Nat} {same : Nat → SqlValue → SqlValue → Bool}
  {idx : List Nat}

/-- The rows with the texts of their keys. -/
def withKeys (formatReal : ℚ → Str) (idx : List Nat) (rows : List Row) : List (Str × Row) :=
  rows.map fun row => (rowKey formatReal idx row, row)

/-- No row is lost where no key is there twice. -/
theorem readTableRows_eq {db : Database} {table : Str} {cols pks : List Str}
    (h : ((db.select (strip table) (cols.map strip)).map
      (rowKey formatReal (pkIdx cols pks))).Nodup) :
    readTableRows formatReal db table cols pks =
      withKeys formatReal (pkIdx cols pks) (db.select (strip table) (cols.map strip)) := by
  have hrun (rows : List Row) (out : List (Str × Row)) (hnodup : (Assoc.keys out ++
      rows.map (rowKey formatReal (pkIdx cols pks))).Nodup) :
      rows.foldl (fun out vals => Assoc.set (rowKey formatReal (pkIdx cols pks) vals) vals out)
        out = out ++ withKeys formatReal (pkIdx cols pks) rows := by
    induction rows generalizing out with
    | nil => exact (List.append_nil out).symm
    | cons row rows ih =>
        rw [List.map_cons] at hnodup
        have hno : rowKey formatReal (pkIdx cols pks) row ∉ Assoc.keys out := fun hmem =>
          (List.nodup_append.mp hnodup).2.2 _ hmem _ List.mem_cons_self rfl
        rw [List.foldl_cons, Assoc.set_of_not_mem row hno, ih, List.append_assoc]
        · rfl
        · rw [Assoc.keys, List.map_append, List.append_assoc]
          exact hnodup
  exact hrun _ [] h

theorem keys_withKeys (rows : List Row) :
    Assoc.keys (withKeys formatReal idx rows) = rows.map (rowKey formatReal idx) :=
  List.map_map

theorem runCommands_append (rows : List Row) (cs ds : List RowCommand) :
    runCommands same idx rows (cs ++ ds) =
      (runCommands same idx rows cs).bind fun rows => runCommands same idx rows ds :=
  List.foldlM_append

/-- Deletes leave the rows that none of them is for. -/
theorem runCommands_deletes (rows gone : List Row) :
    runCommands same idx rows (gone.map fun row => .delete (valuesAt idx row)) =
      some (rows.filter fun row => gone.all fun d => !agrees same idx (valuesAt idx d) row) := by
  induction gone generalizing rows with
  | nil => exact congrArg some (List.filter_eq_self.mpr fun _ _ => rfl).symm
  | cons d gone ih =>
      unfold runCommands at ih ⊢
      rw [List.map_cons, List.foldlM_cons]
      refine (ih _).trans ?_
      rw [List.filter_filter]
      congr 2
      funext row
      rw [List.all_cons, Bool.and_comm]

/-- A row that is written where its key is as it was read. -/
def putRow (formatReal : ℚ → Str) (idx : List Nat) (width : Nat) (current : List (Str × Row))
    (vals : Row) : Option RowCommand :=
  match Assoc.get (rowKey formatReal idx vals) current with
  | none => some (.insert vals)
  | some cur =>
      if cur ≠ vals then
        let nonPk := (List.range width).filter fun i => i ∉ idx
        if nonPk = [] then none
        else some (.update (nonPk.map fun i => (i, vals.getD i .null)) (valuesAt idx vals))
      else none

/-- A command that may be left out. -/
def runPut (same : Nat → SqlValue → SqlValue → Bool) (idx : List Nat) (rows : List Row) :
    Option RowCommand → Option (List Row)
  | none => some rows
  | some c => c.run same idx rows

variable {rows target : List Row} (hrows : Keyed width same idx rows)
  (htarget : Keyed width same idx target) (hrefl : ∀ i v, v ≠ .null → same i v v = true)

include hrows hrefl in
theorem Keyed.nodup_rowKey : (rows.map (rowKey formatReal idx)).Nodup := by
  refine List.pairwise_map.mpr ?_
  refine (List.pairwise_map.mp (hrows.nodup hrefl)).imp_of_mem fun {r s} hr hs hne heq => hne ?_
  exact (rowKey_eq_iff (hrows.plain_valuesAt hr) (hrows.plain_valuesAt hs)).mp heq

include hrows htarget hrefl

/-- A row of the target is put, by whatever command. -/
theorem putsAll_putRow {read : List Row} (hperm : read.Perm rows) :
    KeyedRows.PutsAll (valuesAt idx) rows target fun now vals =>
      runPut same idx now (putRow formatReal idx width (withKeys formatReal idx read) vals) := by
  intro v hv now hnodup hsub hread
  dsimp only
  -- a row that agrees with the key has it
  have hagrees (x : Row) (hx : x ∈ now) :
      agrees same idx (valuesAt idx v) x = true ↔ valuesAt idx x = valuesAt idx v := by
    obtain ⟨w, hw, hwx⟩ := List.mem_map.mp (hsub x hx)
    rw [agrees_congr hwx.symm, htarget.agrees_iff hrefl hv hw, ← hwx]
    exact ⟨fun h => congrArg _ h, fun h => List.inj_on_of_nodup_map (htarget.nodup hrefl) hw hv h⟩
  have hkey (x : Row) (hx : x ∈ rows) :
      rowKey formatReal idx x = rowKey formatReal idx v ↔ valuesAt idx x = valuesAt idx v :=
    rowKey_eq_iff (hrows.plain_valuesAt hx) (htarget.plain_valuesAt hv)
  cases hget : Assoc.get (rowKey formatReal idx v) (withKeys formatReal idx read) with
  | none =>
      have hput : putRow formatReal idx width (withKeys formatReal idx read) v =
          some (.insert v) := by rw [putRow, hget]
      have hno : valuesAt idx v ∉ now.map (valuesAt idx) := by
        intro hmem
        obtain ⟨x, hx, hxv⟩ := List.mem_map.mp hmem
        have hxrows := (hread x hxv).mp hx
        refine Assoc.get_eq_none_iff.mp hget ?_
        rw [keys_withKeys, ← (hkey x hxrows).mpr hxv]
        exact List.mem_map_of_mem (hperm.mem_iff.mpr hxrows)
      have hany : now.any (agrees same idx (valuesAt idx v)) = false := by
        rw [List.any_eq_false]
        intro x hx hyes
        exact hno (List.mem_map.mpr ⟨x, hx, (hagrees x hx).mp hyes⟩)
      refine ⟨now ++ [v], ?_, .append hnodup hno⟩
      rw [hput, runPut, RowCommand.run, hany, if_neg Bool.false_ne_true]
  | some cur =>
      obtain ⟨hcur, hcurKey⟩ :
          cur ∈ rows ∧ rowKey formatReal idx cur = rowKey formatReal idx v := by
        obtain ⟨row, hrow, heq⟩ := List.mem_map.mp (Assoc.mem_of_get hget)
        obtain ⟨hkeys, rfl⟩ := Prod.mk.inj heq
        exact ⟨hperm.mem_iff.mp hrow, hkeys⟩
      have hvalues := (hkey cur hcur).mp hcurKey
      have hnow : cur ∈ now := (hread cur hvalues).mpr hcur
      by_cases heq : cur = v
      · have hput : putRow formatReal idx width (withKeys formatReal idx read) v = none := by
          rw [putRow, hget]
          exact if_neg (not_not.mpr heq)
        rw [hput]
        exact ⟨now, rfl, .self hnodup (heq ▸ hnow)⟩
      · have hset {is : List Nat} (his : ∀ i < width, i ∉ idx → i ∈ is) :=
          setValues_eq (htarget.width v hv) (hrows.width cur hcur) hvalues his
        have hmem (i : Nat) (hi : i < width) (hidx : i ∉ idx) :
            i ∈ (List.range width).filter fun i => i ∉ idx :=
          List.mem_filter.mpr ⟨List.mem_range.mpr hi, decide_eq_true hidx⟩
        -- columns outside the key are left, or the rows would be the same
        have hnonPk : (List.range width).filter (fun i => i ∉ idx) ≠ [] := by
          intro hnil
          have hsame := hset hmem
          rw [hnil] at hsame
          exact heq hsame
        have hput : putRow formatReal idx width (withKeys formatReal idx read) v =
            some (.update (((List.range width).filter fun i => i ∉ idx).map
              fun i => (i, v.getD i .null)) (valuesAt idx v)) := by
          rw [putRow, hget]
          exact (if_pos heq).trans (if_neg hnonPk)
        rw [hput]
        refine ⟨_, rfl, .map hnodup (hvalues ▸ List.mem_map_of_mem hnow) (fun x hx hxv => ?_)
          fun x hx hxv => ?_⟩
        · rw [if_pos ((hagrees x hx).mpr hxv)]
          obtain rfl : x = cur := List.inj_on_of_nodup_map hnodup hx hnow (hxv.trans hvalues.symm)
          exact hset hmem
        · rw [if_neg fun hyes => hxv ((hagrees x hx).mp hyes)]

/-- The commands of a diff make the rows of a table those of the target. -/
theorem runCommands_diff {cols pks : List Str} (hwidth : cols.length = width)
    (hidx : pkIdx cols pks = idx) (hcols : cols ≠ []) (hpks : pks ≠ []) {read written : List Row}
    (hread : read.Perm rows) (hwritten : written.Perm target) :
    ∃ rows', runCommands same idx rows (diffApplyTable cols pks (withKeys formatReal idx read)
      (withKeys formatReal idx written)) = some rows' ∧ rows'.Perm target := by
  have hwrittenKeyed := htarget.perm hwritten.symm
  let gone := read.filter fun row =>
    rowKey formatReal idx row ∉ written.map (rowKey formatReal idx)
  have hsplit : diffApplyTable cols pks (withKeys formatReal idx read)
      (withKeys formatReal idx written) = gone.map (fun row => .delete (valuesAt idx row)) ++
        written.filterMap (putRow formatReal idx width (withKeys formatReal idx read)) := by
    unfold diffApplyTable
    rw [if_neg (not_or.mpr ⟨hcols, hpks⟩), keys_withKeys, hidx, hwidth]
    dsimp only
    refine congrArg₂ _ ?_ List.filterMap_map
    have hgone : gone.map (fun row => RowCommand.delete (valuesAt idx row)) =
        gone.filterMap fun row => some (.delete (valuesAt idx row)) :=
      (congrFun List.filterMap_eq_map gone).symm
    rw [hgone, List.filterMap_filter, withKeys, List.filterMap_map]
    congr 1
    funext row
    by_cases hmem : rowKey formatReal idx row ∈ written.map (rowKey formatReal idx)
    · exact (if_pos hmem).trans (if_neg fun hno => absurd hmem (of_decide_eq_true hno)).symm
    · exact (if_neg hmem).trans (if_pos (decide_eq_true hmem)).symm
  have hkey (x : Row) (hx : x ∈ rows) : rowKey formatReal idx x ∈
      written.map (rowKey formatReal idx) ↔ valuesAt idx x ∈ written.map (valuesAt idx) := by
    rw [List.mem_map, List.mem_map]
    refine exists_congr fun y => and_congr_right fun hy => ?_
    exact rowKey_eq_iff (hwrittenKeyed.plain_valuesAt hy) (hrows.plain_valuesAt hx)
  -- just the rows whose keys the target has are left
  let left := rows.filter fun row => gone.all fun d => !agrees same idx (valuesAt idx d) row
  have hleft (x : Row) : x ∈ left ↔ x ∈ rows ∧ valuesAt idx x ∈ written.map (valuesAt idx) := by
    rw [List.mem_filter, List.all_eq_true]
    refine and_congr_right fun hx => ?_
    rw [← hkey x hx]
    constructor
    · intro hall
      by_contra hno
      have hgone : x ∈ gone :=
        List.mem_filter.mpr ⟨hread.mem_iff.mpr hx, decide_eq_true hno⟩
      have hself := hall x hgone
      rw [(hrows.agrees_iff hrefl hx hx).mpr rfl] at hself
      cases hself
    · intro hmem d hd
      obtain ⟨hdread, hdno⟩ := List.mem_filter.mp hd
      have hne : x ≠ d := fun heq => of_decide_eq_true hdno (heq ▸ hmem)
      rw [Bool.not_eq_true', ← Bool.not_eq_true]
      exact fun hagrees => hne ((hrows.agrees_iff hrefl (hread.mem_iff.mp hdread) hx).mp hagrees)
  obtain ⟨rows', hrun, hperm⟩ := (putsAll_putRow hrows hwrittenKeyed hrefl hread).perm
    (hwrittenKeyed.nodup hrefl)
    ((hrows.nodup hrefl).sublist (List.filter_sublist.map _))
    (fun x hx => ((hleft x).mp hx).2)
    (fun v hv x hxv => (hleft x).trans (and_iff_left (hxv ▸ List.mem_map_of_mem hv)))
  refine ⟨rows', ?_, hperm.trans hwritten⟩
  rw [hsplit, runCommands_append, runCommands_deletes, Option.bind_some, runCommands,
    List.foldlM_filterMap, ← hrun]
  congr 1
  funext now vals
  cases putRow formatReal idx width (withKeys formatReal idx read) vals with
  | none => rfl
  | some c => rfl

end Diff

/-! ## The dump of a replica of known tables -/

/-- A replica of user tables, and the rows in them. -/
structure IsReplica (sidecarSql : Str → Str) (tables : List UserTable) (db : Database)
    (rows : UserTable → List Row) : Prop extends Holds db tables rows where
  master : db.master.Perm (masterOf sidecarSql tables)
  names : (tables.map UserTable.name).Nodup
  plainNames : ∀ t ∈ tables, t.NamesPlain

def crrNames (tables : List UserTable) : List Str :=
  (tables.filter (·.isCrr)).map UserTable.name

theorem exists_of_perm_map {α β : Type*} {f : α → β} {l : List β} {as : List α}
    (h : l.Perm (as.map f)) : ∃ bs : List α, bs.Perm as ∧ l = bs.map f := by
  generalize hm : as.map f = m at h
  induction h generalizing as with
  | nil => exact ⟨as, .refl _, hm.symm⟩
  | cons x _ ih =>
      obtain ⟨a, as, rfl, rfl, htail⟩ := List.map_eq_cons_iff.mp hm
      obtain ⟨bs, hbs, rfl⟩ := ih htail
      exact ⟨a :: bs, hbs.cons a, rfl⟩
  | swap x y l =>
      obtain ⟨a, as, rfl, rfl, htail⟩ := List.map_eq_cons_iff.mp hm
      obtain ⟨b, as, rfl, rfl, rfl⟩ := List.map_eq_cons_iff.mp htail
      exact ⟨b :: a :: as, .swap a b as, rfl⟩
  | trans _ _ ih ih' =>
      obtain ⟨bs, hbs, rfl⟩ := ih' hm
      obtain ⟨cs, hcs, rfl⟩ := ih rfl
      exact ⟨cs, hcs.trans hbs, rfl⟩

theorem filter_masterOf (sidecarSql : Str → Str) (tables : List UserTable) :
    (masterOf sidecarSql tables).filter (fun t => isUserTable t.1) =
      tables.map fun t => (t.name, t.sql) := by
  unfold masterOf
  induction tables with
  | nil => rfl
  | cons t tables ih =>
      rw [List.flatMap_cons, List.filter_append, ih, List.map_cons, List.filter_cons,
        if_pos t.isUser]
      cases t.isCrr with
      | false => rfl
      | true =>
          have hclock : ¬isUserTable (clockName t.name) = true :=
            Bool.not_eq_true _ ▸ not_isUserTable_clock t.name
          have hpks : ¬isUserTable (pksName t.name) = true :=
            Bool.not_eq_true _ ▸ not_isUserTable_pks t.name
          rw [if_pos rfl, List.filter_cons, if_neg hclock, List.filter_cons, if_neg hpks]
          rfl

theorem crrTables_masterOf (sidecarSql : Str → Str) (tables : List UserTable) :
    ((((masterOf sidecarSql tables).map Prod.fst).filter
      (like "%__crsql_clock".toList)).map trimClock) = crrNames tables := by
  unfold masterOf crrNames
  induction tables with
  | nil => rfl
  | cons t tables ih =>
      have hname : ¬like "%__crsql_clock".toList t.name = true :=
        Bool.not_eq_true _ ▸ not_like_of_user t.isUser
      have hpks : ¬like "%__crsql_clock".toList (pksName t.name) = true :=
        Bool.not_eq_true _ ▸ not_like_pksName t.name
      rw [List.flatMap_cons, List.map_append, List.filter_append, List.map_append, ih,
        List.map_cons, List.filter_cons_of_neg hname]
      cases hcrr : t.isCrr with
      | false =>
          rw [List.filter_cons_of_neg (by rw [hcrr]; exact Bool.false_ne_true)]
          rfl
      | true =>
          rw [List.filter_cons_of_pos hcrr, if_pos rfl, List.map_cons, List.map_singleton,
            List.filter_cons_of_pos (like_clockName _), List.filter_cons_of_neg hpks,
            List.filter_nil, List.map_singleton, trimClock_clockName t.isUser, List.map_cons]
          rfl

theorem strip_eq {name : Str} (h : '"' ∉ name) : strip name = name :=
  List.filter_eq_self.mpr fun _ hc => bne_iff_ne.mpr fun heq => h (heq ▸ hc)

section Replica

variable {formatReal : ℚ → Str} {sidecarSql : Str → Str} {tables : List UserTable} {db : Database}
  {rows : UserTable → List Row} (h : IsReplica sidecarSql tables db rows)

include h

theorem IsReplica.userTables : ∃ ts : List UserTable, ts.Perm tables ∧
    userTables db = ts.map fun t => (t.name, t.sql) :=
  exists_of_perm_map (filter_masterOf sidecarSql tables ▸ h.master.filter _)

theorem IsReplica.crrTables : (crrTables db).Perm (crrNames tables) :=
  crrTables_masterOf sidecarSql tables ▸ ((h.master.map Prod.fst).filter _).map trimClock

end Replica

namespace UserTable

/-- The statements of rows of the table. -/
def lines (t : UserTable) (formatReal : ℚ → Str) (rows : List Row) : List Str :=
  rows.map (rowLine formatReal t.name t.cols)

theorem cols_ne_nil (t : UserTable) : t.cols ≠ [] := by
  obtain ⟨c, hc, -⟩ := t.hasKey
  exact List.ne_nil_of_mem (List.mem_map_of_mem hc)

theorem pks_ne_nil (t : UserTable) : t.pks ≠ [] := by
  obtain ⟨c, hc, hpk⟩ := t.hasKey
  have hmem : (c.2, c.1) ∈ (t.columns.filter fun c => 0 < c.2).map fun c => (c.2, c.1) :=
    List.mem_map_of_mem (List.mem_filter.mpr ⟨hc, decide_eq_true hpk⟩)
  refine List.ne_nil_of_mem (a := c.1) (List.mem_map_of_mem (f := Prod.snd) (a := (c.2, c.1)) ?_)
  exact (List.mergeSort_perm _ _).mem_iff.mpr hmem

theorem NamesPlain.cols {t : UserTable} (h : t.NamesPlain) : t.cols.map strip = t.cols := by
  refine (List.map_congr_left fun c hc => ?_).trans (List.map_id _)
  obtain ⟨column, hcolumn, rfl⟩ := List.mem_map.mp hc
  exact strip_eq (h.2 column hcolumn)

end UserTable

def trailer (db : Database) : Str := "-- crr: ".toList ++ join "," (crrTables db) ++ "\n".toList

theorem dumpReplica_append (formatReal : ℚ → Str) (db : Database) : dumpReplica formatReal db =
    (userTables db).flatMap (fun t =>
      t.2 ++ ";\n".toList ++ dumpTableRows formatReal db t.1 ++ "\n".toList) ++ trailer db := by
  unfold dumpReplica trailer
  simp only [List.append_assoc]

/-- The text of a dump, table by table. -/
theorem dumpReplica_eq {formatReal : ℚ → Str} {db : Database} {tables ts : List UserTable}
    {rows : UserTable → List Row}
    (hts : ∀ t ∈ ts, t ∈ tables) (hplain : ∀ t ∈ ts, t.NamesPlain)
    (h : Holds db tables rows) (huser : userTables db = ts.map fun t => (t.name, t.sql)) :
    dumpReplica formatReal db =
      (ts.map fun t => (t.sql, t.lines formatReal (t.order (rows t)))).flatMap
        (fun t => tableText t.1 t.2) ++ trailer db := by
  rw [dumpReplica_append, huser, List.flatMap_map, List.flatMap_map]
  refine congrArg (· ++ _) (List.flatMap_congr fun t ht => ?_)
  have hcols : (db.tableInfo (strip t.name)).map Prod.fst = t.cols := by
    rw [strip_eq (hplain t ht).1, h.tableInfo t (hts t ht)]
    rfl
  unfold dumpTableRows tableText UserTable.lines
  dsimp only
  rw [hcols, if_neg t.cols_ne_nil, (hplain t ht).cols, strip_eq (hplain t ht).1,
    h.selectOrdered t (hts t ht), List.flatMap_map]

/-- Dumps of the same tables are the same just when the rows are. -/
theorem dump_eq_iff {formatReal : ℚ → Str} {ts : List UserTable} {f g : UserTable → List Row}
    (hf : ∀ t ∈ ts, ∀ row ∈ f t, ∀ v ∈ row, IsPlainValue v)
    (hg : ∀ t ∈ ts, ∀ row ∈ g t, ∀ v ∈ row, IsPlainValue v) (z : Str) :
    (ts.map fun t => (t.sql, t.lines formatReal (f t))).flatMap (fun t => tableText t.1 t.2) ++ z =
      (ts.map fun t => (t.sql, t.lines formatReal (g t))).flatMap (fun t => tableText t.1 t.2) ++ z
      ↔ ∀ t ∈ ts, f t = g t := by
  induction ts with
  | nil => simp
  | cons t ts ih =>
      obtain ⟨hft, hfts⟩ := List.forall_mem_cons.mp hf
      obtain ⟨hgt, hgts⟩ := List.forall_mem_cons.mp hg
      rw [List.forall_mem_cons, ← ih hfts hgts]
      have hfirst (f : UserTable → List Row) :
          ((t :: ts).map fun t => (t.sql, t.lines formatReal (f t))).flatMap
              (fun t => tableText t.1 t.2) ++ z =
            t.sql ++ ";\n".toList ++ ((t.lines formatReal (f t)).flatMap (· ++ ";\n".toList) ++
              '\n' :: ((ts.map fun t => (t.sql, t.lines formatReal (f t))).flatMap
                (fun t => tableText t.1 t.2) ++ z)) := by
        rw [List.map_cons, List.flatMap_cons]
        unfold tableText
        simp only [List.append_assoc]
        rfl
      rw [hfirst, hfirst]
      constructor
      · intro heq
        exact rowLines_cancel hft hgt (List.append_cancel_left heq)
      · rintro ⟨hrows, hrest⟩
        rw [hrows, hrest]

/-! ## Rolling back -/

/-- `later` is rolled back to the dump of `db`, which makes the database `temp`; entries are
met in any order. -/
structure RollsBack (formatReal : ℚ → Str) (sidecarSql : Str → Str) (tables : List UserTable)
    (rows rowsLater : UserTable → List Row) (db temp later : Database) : Prop where
  creates : dumpCreateStatements (dumpReplica formatReal db) =
    sorted (tables.map fun t => normalizeSql t.sql)
  schema : schemaMatches later (dumpReplica formatReal db) = true
  crr : (dumpCrrTables (dumpReplica formatReal db)).Perm (crrNames tables)
  restored : ∀ t ∈ tables, t.isCrr = true →
    let (cols, pks) := tableColumns (temp.tableInfo (strip t.name))
    ∀ current target : List (Str × Row),
      current.Perm (readTableRows formatReal later t.name cols pks) →
      target.Perm (readTableRows formatReal temp t.name cols pks) →
        ∃ rows', runCommands t.same t.idx (rowsLater t)
          (diffApplyTable cols pks current target) = some rows' ∧ rows'.Perm (rows t)
  again : ∀ after rowsAfter, IsReplica sidecarSql tables after rowsAfter →
    after.master = later.master →
    (∀ t ∈ tables, t.isCrr = true → (rowsAfter t).Perm (rows t)) →
    (∀ t ∈ tables, t.isCrr = false → rowsAfter t = rowsLater t) →
      dumpReplica formatReal after = dumpReplica formatReal db

/-- What a dump must not have in it, and tables that are no CRRs unchanged. -/
structure Clean (tables : List UserTable) (rows rowsLater : UserTable → List Row) : Prop where
  sql : ∀ t ∈ tables, cuts t.sql = false
  statements : ∀ t ∈ tables, ∀ row ∈ rows t, hides t.name = false ∧
    (∀ c ∈ t.columns, hides c.1 = false) ∧ ∀ v ∈ row, hidesValue v = false
  crr : ∀ t ∈ tables, t.isCrr = true → IsTrailerName t.name
  others : ∀ t ∈ tables, t.isCrr = false → t.order (rowsLater t) = t.order (rows t)

section Main

variable {formatReal : ℚ → Str} {sidecarSql : Str → Str} {tables : List UserTable}
  {db temp later : Database} {rows rowsLater : UserTable → List Row}

theorem isCreate_sql (t : UserTable) : isCreate t.sql = true := by
  obtain ⟨rest, hsql⟩ := t.isTable
  rw [hsql]
  rfl

theorem head_sql (t : UserTable) : ∀ c ∈ t.sql.head?, Str.isWhitespace c = false := by
  obtain ⟨rest, hsql⟩ := t.isTable
  rw [hsql]
  intro c hc
  obtain rfl : 'C' = c := Option.some_inj.mp hc
  decide

theorem plain_order (t : UserTable) {l : List Row} (h : t.Rows l) :
    ∀ row ∈ t.order l, ∀ v ∈ row, IsPlainValue v :=
  fun row hrow => h.plain.plain row ((t.order_perm l).mem_iff.mp hrow)

/-- Names that the trailer gives back hide nothing in it. -/
theorem hides_trailer (h : ∀ name ∈ crrTables db, IsTrailerName name) :
    hides (trailer db) = false := by
  -- the only line end is that behind the names
  have hline (s : Str) (hs : '\n' ∉ s) : hides (s ++ ['\n']) = false := by
    induction s with
    | nil => decide
    | cons c s ih =>
        rw [List.cons_append, hides, ih (List.not_mem_of_not_mem_cons hs), Bool.or_false]
        cases s with
        | nil => simp [isCreate, Str.lower]
        | cons d s =>
            have hd : some d ≠ some '\n' := fun heq =>
              hs (Option.some_inj.mp heq ▸ List.mem_cons_of_mem _ List.mem_cons_self)
            rw [List.cons_append, List.head?_cons, decide_eq_false hd, Bool.and_false,
              Bool.false_and]
  refine hline _ fun hmem => ?_
  rcases List.mem_append.mp hmem with hmem | hmem
  · exact absurd hmem (by decide)
  · rcases mem_of_mem_join hmem with hmem | ⟨name, hname, hmem⟩
    · exact absurd hmem (by decide)
    · exact (h name hname).2.1 hmem

/-- The statements of the tables are read if no row hides one and no statement is cut. -/
theorem creates_iff (hdb : IsReplica sidecarSql tables db rows) :
    dumpCreateStatements (dumpReplica formatReal db) =
        sorted (tables.map fun t => normalizeSql t.sql) ↔
      ((∀ t ∈ tables, cuts t.sql = false) ∧ ∀ t ∈ tables, ∀ row ∈ rows t, hides t.name = false ∧
        (∀ c ∈ t.columns, hides c.1 = false) ∧ ∀ v ∈ row, hidesValue v = false) ∧
          hides (trailer db) = false := by
  obtain ⟨ts, hts, huser⟩ := hdb.userTables
  have hmem (t : UserTable) : t ∈ ts ↔ t ∈ tables := hts.mem_iff
  rw [eq_comm, dumpCreateStatements, sorted_eq_iff,
    dumpReplica_eq (fun t ht => (hmem t).mp ht) (fun t ht => hdb.plainNames t ((hmem t).mp ht))
      hdb.toHolds huser]
  have hperm : (tables.map fun t => normalizeSql t.sql).Perm
      ((ts.map fun t => (t.sql, t.lines formatReal (t.order (rows t)))).map
        fun t => normalizeSql t.1) := by
    rw [List.map_map]
    exact hts.symm.map _
  rw [hperm.congr_left, createStatements_perm_iff]
  · refine and_congr_left' ?_
    rw [List.forall_mem_map, ← forall₂_and]
    refine forall_congr' fun t => ?_
    rw [hmem]
    refine forall_congr' fun ht => and_congr_right' ?_
    unfold UserTable.lines
    rw [List.forall_mem_map]
    refine forall_congr' fun row => ?_
    rw [(t.order_perm _).mem_iff]
    refine forall_congr' fun hrow => ?_
    rw [hides_rowLine _ _ ((hdb.keyed t ht).plain.plain row hrow), Bool.or_eq_false_iff,
      Bool.or_eq_false_iff, and_assoc, List.any_eq_false, List.any_eq_false,
      strip_eq (hdb.plainNames t ht).1]
    simp only [Bool.not_eq_true]
    refine and_congr_right' (and_congr_left' ?_)
    refine List.forall_mem_map.trans (forall₂_congr fun c hc => ?_)
    rw [strip_eq ((hdb.plainNames t ht).2 c hc)]
  · rw [List.forall_mem_map]
    exact fun t _ => ⟨isCreate_sql t, head_sql t⟩
  · rw [List.forall_mem_map]
    intro t _ line hline
    obtain ⟨row, -, rfl⟩ := List.mem_map.mp hline
    exact isCreate_rowLine _ _ _ _
  · rfl

/-- A table of the replica is known by its name. -/
theorem IsReplica.eq_of_name (hdb : IsReplica sidecarSql tables db rows) {t u : UserTable}
    (ht : t ∈ tables) (hu : u ∈ tables) (h : t.name = u.name) : t = u :=
  List.inj_on_of_nodup_map hdb.names ht hu h

theorem schemaMatches_iff (hlater : IsReplica sidecarSql tables later rowsLater) {dump : Str} :
    schemaMatches later dump = true ↔
      dumpCreateStatements dump = sorted (tables.map fun t => normalizeSql t.sql) := by
  obtain ⟨ts, hts, huser⟩ := hlater.userTables
  have hsorted : sorted ((userTables later).map fun t => normalizeSql t.2) =
      sorted (tables.map fun t => normalizeSql t.sql) := by
    rw [huser, List.map_map, sorted_eq_iff]
    exact hts.map _
  rw [schemaMatches, decide_eq_true_eq, hsorted, eq_comm]

theorem dumpCrrTables_iff (hdb : IsReplica sidecarSql tables db rows) :
    (dumpCrrTables (dumpReplica formatReal db)).Perm (crrNames tables) ↔
      ∀ t ∈ tables, t.isCrr = true → IsTrailerName t.name := by
  have hnames : (∀ name ∈ crrNames tables, IsTrailerName name) ↔
      ∀ t ∈ tables, t.isCrr = true → IsTrailerName t.name := by
    rw [crrNames, List.forall_mem_map]
    refine forall_congr' fun t => ?_
    rw [List.mem_filter, and_imp]
  rw [← hnames]
  constructor
  · intro h name hname
    exact isTrailerName_of_mem (h.mem_iff.mpr hname)
  · intro h
    refine List.Perm.trans (.of_eq ?_) hdb.crrTables
    rw [dumpReplica_append]
    refine dumpCrrTables_of_plain ?_ fun name hname => h name (hdb.crrTables.mem_iff.mp hname)
    -- the text of a table ends its line
    rcases List.eq_nil_or_concat (userTables db) with hnil | ⟨front, t, hlast⟩
    · rw [hnil]
      exact .inl rfl
    · rw [hlast, List.concat_eq_append, List.flatMap_append, List.flatMap_singleton,
        ← List.append_assoc]
      exact .inr List.getLast?_concat

/-- A table is rolled back, whatever the names and texts in it. -/
theorem restored (hdb : IsReplica sidecarSql tables db rows)
    (hlater : IsReplica sidecarSql tables later rowsLater) (htemp : Holds temp tables rows)
    {t : UserTable} (ht : t ∈ tables) (hcrr : t.isCrr = true) {current target : List (Str × Row)}
    (hcurrent : current.Perm (readTableRows formatReal later t.name t.cols t.pks))
    (htarget : target.Perm (readTableRows formatReal temp t.name t.cols t.pks)) :
    ∃ rows', runCommands t.same t.idx (rowsLater t)
      (diffApplyTable t.cols t.pks current target) = some rows' ∧ rows'.Perm (rows t) := by
  have hplain := hdb.plainNames t ht
  have hread {db : Database} {rows : UserTable → List Row} (h : Holds db tables rows)
      {entries : List (Str × Row)}
      (hentries : entries.Perm (readTableRows formatReal db t.name t.cols t.pks)) :
      ∃ read : List Row, read.Perm (rows t) ∧ entries = withKeys formatReal t.idx read := by
    have hselect := h.select t ht
    have hkeyed := (h.keyed t ht).keyed hcrr
    rw [readTableRows_eq, hplain.cols, strip_eq hplain.1] at hentries
    · obtain ⟨read, hperm, rfl⟩ := exists_of_perm_map hentries
      exact ⟨read, hperm.trans hselect, rfl⟩
    · rw [hplain.cols, strip_eq hplain.1]
      exact (hkeyed.perm hselect.symm).nodup_rowKey t.same_refl
  obtain ⟨read, hread₁, rfl⟩ := hread hlater.toHolds hcurrent
  obtain ⟨written, hwritten, rfl⟩ := hread htemp htarget
  exact runCommands_diff ((hlater.keyed t ht).keyed hcrr) ((htemp.keyed t ht).keyed hcrr)
    t.same_refl (List.length_map ..) rfl t.cols_ne_nil t.pks_ne_nil hread₁ hwritten

/-- The replica with the rows that a rollback leaves. -/
def rolledBack (rows rowsLater : UserTable → List Row) (t : UserTable) : List Row :=
  if t.isCrr then rows t else rowsLater t

/-- A database with other rows. -/
def withRows (db : Database) (ts : List UserTable) (rows : UserTable → List Row) : Database :=
  { db with
    select := fun name _ => ((ts.find? (·.name = name)).map rows).getD []
    selectOrdered := fun name _ =>
      ((ts.find? (·.name = name)).map fun t => t.order (rows t)).getD [] }

theorem IsReplica.withRows (hdb : IsReplica sidecarSql tables db rows)
    {rows' : UserTable → List Row} (hrows : ∀ t ∈ tables, t.Rows (rows' t)) :
    IsReplica sidecarSql tables (withRows db tables rows') rows' := by
  have hfind {t : UserTable} (ht : t ∈ tables) : tables.find? (·.name = t.name) = some t := by
    cases hfind : tables.find? (·.name = t.name) with
    | none => exact absurd (List.find?_eq_none.mp hfind t ht) (by simp)
    | some u =>
        have hname : u.name = t.name := by simpa using List.find?_some hfind
        rw [hdb.eq_of_name (List.mem_of_find?_eq_some hfind) ht hname]
  exact {
    tableInfo := hdb.tableInfo
    select := fun t ht => by
      show (((tables.find? (·.name = t.name)).map rows').getD []).Perm _
      rw [hfind ht]
      exact .refl _
    selectOrdered := fun t ht => by
      show (((tables.find? (·.name = t.name)).map fun t => t.order (rows' t)).getD []) = _
      rw [hfind ht]
      rfl
    keyed := hrows
    master := hdb.master
    names := hdb.names
    plainNames := hdb.plainNames }

end Main

/-- Rows by their texts. -/
def byText (rows : List Row) : List Row :=
  rows.mergeSort fun r s => join separator (r.map (formatSqlValue fun _ => [])) ≤
    join separator (s.map (formatSqlValue fun _ => []))

theorem byText_congr {rows rows' : List Row} (h : ∀ row ∈ rows, ∀ v ∈ row, IsPlainValue v)
    (hperm : rows.Perm rows') : byText rows = byText rows' := by
  have hsorted (l : List Row) : (byText l).Pairwise fun r s =>
      decide (join separator (r.map (formatSqlValue fun _ => [])) ≤
        join separator (s.map (formatSqlValue fun _ => []))) = true := by
    refine List.pairwise_mergeSort (fun a b c hab hbc => ?_) (fun a b => ?_) l
    · exact decide_eq_true (le_trans (of_decide_eq_true hab) (of_decide_eq_true hbc))
    · rw [Bool.or_eq_true, decide_eq_true_eq, decide_eq_true_eq]
      exact le_total _ _
  have hmem (l : List Row) : (byText l).Perm l := List.mergeSort_perm _ _
  refine List.Perm.eq_of_pairwise (fun r s hr hs hrs hsr => ?_) (hsorted rows) (hsorted rows')
    ((hmem rows).trans (hperm.trans (hmem rows').symm))
  have hr := h r ((hmem rows).mem_iff.mp hr)
  have hs := h s (hperm.mem_iff.mpr ((hmem rows').mem_iff.mp hs))
  exact joined_inj hr hs
    (le_antisymm (of_decide_eq_true hrs) (of_decide_eq_true hsr))

/-- The table of the tests: a key and a title. -/
def tasks : UserTable where
  name := "tasks".toList
  sql := "CREATE TABLE tasks (id PRIMARY KEY NOT NULL, title)".toList
  columns := [("id".toList, 1), ("title".toList, 0)]
  isCrr := true
  same _ v w := v = w
  order := byText
  isUser := by decide +kernel
  isTable := ⟨_, rfl⟩
  hasKey := ⟨("id".toList, 1), List.mem_cons_self, Nat.one_pos⟩
  same_refl _ _ _ := decide_eq_true rfl
  order_perm _ := List.mergeSort_perm _ _
  order_congr _ _ h hperm := byText_congr h.plain hperm

/-- A replica with these tasks. -/
def tasksReplica (rows : List Row) : Database where
  master := masterOf id [tasks]
  tableInfo _ := tasks.columns
  select _ _ := rows
  selectOrdered _ _ := tasks.order rows

def titled (id title : String) : Row := [.text id.toList, .text title.toList]

theorem isReplica_tasks (rows : List Row) (h : tasks.Rows rows) :
    IsReplica id [tasks] (tasksReplica rows) fun _ => rows where
  tableInfo := by simp [tasksReplica]
  select t ht := .refl _
  selectOrdered t ht := by obtain rfl := List.mem_singleton.mp ht; rfl
  keyed t ht := by obtain rfl := List.mem_singleton.mp ht; exact h
  master := .refl _
  names := List.nodup_singleton _
  plainNames t ht := by
    obtain rfl := List.mem_singleton.mp ht
    exact ⟨by decide, by decide⟩

/-- A task with an identifier and a title. -/
theorem rows_task (id title : String) : tasks.Rows [titled id title] := by
  have hplain : PlainRows tasks.columns.length [titled id title] := by
    refine ⟨fun row hrow => ?_, fun row hrow v hv => ?_⟩
    · obtain rfl := List.mem_singleton.mp hrow
      rfl
    · obtain rfl := List.mem_singleton.mp hrow
      simp only [titled, List.mem_cons, List.not_mem_nil, or_false] at hv
      rcases hv with rfl | rfl <;> trivial
  refine ⟨hplain, fun _ => ⟨hplain, fun row hrow v hv => ?_, List.pairwise_singleton _ _⟩⟩
  obtain rfl := List.mem_singleton.mp hrow
  have hidx : tasks.idx = [0] := by decide +kernel
  rw [hidx] at hv
  obtain rfl := List.mem_singleton.mp hv
  exact nofun

end Realtime.PluginDb.Dump
