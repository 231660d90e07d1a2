import Mathlib.Data.List.TakeWhile
import Realtime.PluginDb.Client

/-!
# How a publish pass splits its rows

The rows of one version are indivisible. `publishNow` fills a batch with whole versions while
they fit; only a version that is too large by itself makes a batch larger than
`MAX_BATCH_ROWS`.
-/

namespace Realtime.PluginDb

/-- Two batches' rows have no version in common. -/
def Apart (changes changes' : List ChangeRow) : Prop :=
  ∀ r ∈ changes, ∀ r' ∈ changes', r.dbVersion ≠ r'.dbVersion

def OneVersion (changes : List ChangeRow) : Prop :=
  ∀ r ∈ changes, ∀ r' ∈ changes, r.dbVersion = r'.dbVersion

/-- A batch of at most so many rows, or of a single version. -/
def Fits (changes : List ChangeRow) : Prop := changes.length ≤ maxBatchRows ∨ OneVersion changes

/-- Rows in parts that tear no version. -/
structure Whole (rows : List ChangeRow) (parts : List (List ChangeRow)) : Prop where
  rows : parts.flatten = rows
  nonempty : ∀ changes ∈ parts, changes ≠ []
  apart : parts.Pairwise Apart

/-- The batches of the rows behind a version. -/
structure Splits (since : Int) (rows : List ChangeRow) (batches : List Batch) : Prop where
  whole : Whole rows (batches.map (·.changes))
  first : ∀ b ∈ batches.head?, b.fromDbVersion = since
  next : batches.IsChain fun b b' => b'.fromDbVersion = b.toDbVersion
  last : ∀ b ∈ batches, b.changes.getLast?.map (·.dbVersion) = some b.toDbVersion
  size : ∀ b ∈ batches, Fits b.changes
  /-- other batches with these properties are no fewer -/
  fewest : ∀ parts, Whole rows parts → (∀ changes ∈ parts, Fits changes) →
    batches.length ≤ parts.length
  /-- with fewer batches, of any size, no version has to be torn -/
  coarser : ∀ n, 0 < n → n ≤ batches.length → ∃ parts, Whole rows parts ∧ parts.length = n

namespace Client

/-! ## The rows of one version -/

section Group

variable {r : ChangeRow} {rest : List ChangeRow}

/-- The rows from the front that have the version of the first. -/
def group (r : ChangeRow) (rest : List ChangeRow) : List ChangeRow :=
  r :: rest.takeWhile fun r' => r'.dbVersion = r.dbVersion

def after (r : ChangeRow) (rest : List ChangeRow) : List ChangeRow :=
  rest.dropWhile fun r' => r'.dbVersion = r.dbVersion

theorem group_append_after (r : ChangeRow) (rest : List ChangeRow) :
    group r rest ++ after r rest = r :: rest := by
  rw [group, List.cons_append, after, List.takeWhile_append_dropWhile]

theorem version_of_mem_group {x : ChangeRow} (h : x ∈ group r rest) :
    x.dbVersion = r.dbVersion := by
  rcases List.mem_cons.mp h with rfl | h
  · rfl
  · simpa using List.mem_takeWhile_imp h

theorem length_after_lt (r : ChangeRow) (rest : List ChangeRow) :
    (after r rest).length < (r :: rest).length :=
  Nat.lt_succ_of_le (List.dropWhile_sublist _).length_le

/-- In order, the version does not come back. -/
theorem lt_of_mem_after (h : (r :: rest).Pairwise fun r r' => r.dbVersion ≤ r'.dbVersion)
    {x y : ChangeRow} (hx : x ∈ group r rest) (hy : y ∈ after r rest) :
    x.dbVersion < y.dbVersion := by
  rw [version_of_mem_group hx]
  clear hx
  unfold after at hy
  induction rest with
  | nil => cases hy
  | cons z zs ih =>
      obtain ⟨hfirst, hrest⟩ := List.pairwise_cons.mp h
      by_cases hz : z.dbVersion = r.dbVersion
      · rw [List.dropWhile_cons, if_pos (decide_eq_true hz)] at hy
        exact ih (h.sublist (.cons_cons r (List.sublist_cons_self z zs))) hy
      · rw [List.dropWhile_cons, if_neg (by simpa using hz)] at hy
        have hle : z.dbVersion ≤ y.dbVersion := by
          rcases List.mem_cons.mp hy with rfl | hy
          · exact le_rfl
          · exact (List.pairwise_cons.mp hrest).1 y hy
        have hlt := hfirst z List.mem_cons_self
        omega

theorem sorted_after (h : (r :: rest).Pairwise fun r r' => r.dbVersion ≤ r'.dbVersion) :
    (after r rest).Pairwise fun r r' => r.dbVersion ≤ r'.dbVersion :=
  (List.pairwise_cons.mp h).2.sublist (List.dropWhile_sublist _)

theorem oneVersion_group (r : ChangeRow) (rest : List ChangeRow) : OneVersion (group r rest) :=
  fun _ hx _ hy => (version_of_mem_group hx).trans (version_of_mem_group hy).symm

/-- A part that tears no version begins with all rows of the first. -/
theorem exists_group_append {part behind : List ChangeRow} (hpart : part ≠ [])
    (happend : part ++ behind = r :: rest) (hapart : Apart part behind) :
    ∃ part', part = group r rest ++ part' ∧ part' ++ behind = after r rest := by
  rw [← group_append_after] at happend
  rcases List.append_eq_append_iff.mp happend with ⟨bs, hgroup, hbehind⟩ | ⟨as, hpart', hafter⟩
  · cases bs with
    | nil => exact ⟨[], by simpa using hgroup.symm, by simpa using hbehind⟩
    | cons b bs =>
        -- a row of the version is left behind
        obtain ⟨a, ha⟩ := List.exists_mem_of_ne_nil part hpart
        have hb : b ∈ behind := hbehind ▸ List.mem_cons_self
        refine absurd (oneVersion_group r rest a ?_ b ?_) (hapart a ha b hb)
        · exact hgroup ▸ List.mem_append_left _ ha
        · exact hgroup ▸ List.mem_append_right _ List.mem_cons_self
  · exact ⟨as, hpart', hafter.symm⟩

theorem chunkRows_cons (chunk : List ChangeRow) (r : ChangeRow) (rest : List ChangeRow) :
    chunkRows chunk (r :: rest) =
      if chunk ≠ [] ∧ maxBatchRows < chunk.length + (group r rest).length then
        chunk :: chunkRows (group r rest) (after r rest)
      else chunkRows (chunk ++ group r rest) (after r rest) := by
  rw [chunkRows]
  rfl

end Group

/-! ## The batches of a pass -/

section Batches

variable {chunk : List ChangeRow}

/-- Rows in order go on where the versions of a part end. -/
theorem apart_chunkRows {rows : List ChangeRow}
    (hsorted : rows.Pairwise fun r r' => r.dbVersion ≤ r'.dbVersion) (hchunk : Apart chunk rows) :
    (chunkRows chunk rows).Pairwise Apart := by
  induction hn : rows.length using Nat.strong_induction_on generalizing chunk rows with
  | h n ih =>
      cases rows with
      | nil =>
          rw [chunkRows]
          split
          · exact .nil
          · exact List.pairwise_singleton _ _
      | cons r rest =>
          have hafter : Apart (group r rest) (after r rest) := fun x hx y hy =>
            (lt_of_mem_after hsorted hx hy).ne
          have hlength := length_after_lt r rest
          rw [chunkRows_cons]
          split
          · refine List.pairwise_cons.mpr ⟨fun changes hmem x hx y hy => ?_,
              ih _ (hn ▸ hlength) (sorted_after hsorted) hafter rfl⟩
            -- what comes behind what is begun are the rows
            refine hchunk x hx y ?_
            rw [← group_append_after, ← flatten_chunkRows]
            exact List.mem_flatten_of_mem hmem hy
          · refine ih _ (hn ▸ hlength) (sorted_after hsorted) (fun x hx y hy => ?_) rfl
            rcases List.mem_append.mp hx with hx | hx
            · refine hchunk x hx y ?_
              rw [← group_append_after]
              exact List.mem_append_right _ hy
            · exact hafter x hx y hy

theorem fits_chunkRows (hchunk : Fits chunk) (rows : List ChangeRow) :
    ∀ changes ∈ chunkRows chunk rows, Fits changes := by
  induction hn : rows.length using Nat.strong_induction_on generalizing chunk rows with
  | h n ih =>
      intro changes hmem
      cases rows with
      | nil =>
          rw [chunkRows] at hmem
          split at hmem
          · cases hmem
          · rw [List.mem_singleton.mp hmem]
            exact hchunk
      | cons r rest =>
          have hgroup : Fits (group r rest) := .inr (oneVersion_group r rest)
          have hlength := length_after_lt r rest
          rw [chunkRows_cons] at hmem
          split at hmem
          · rcases List.mem_cons.mp hmem with rfl | hmem
            · exact hchunk
            · exact ih _ (hn ▸ hlength) hgroup _ rfl changes hmem
          · next hfull =>
            refine ih _ (hn ▸ hlength) ?_ _ rfl changes hmem
            by_cases hnil : chunk = []
            · rw [hnil]
              exact hgroup
            · refine .inl ?_
              rw [List.length_append]
              exact Nat.le_of_not_lt fun hlt => hfull ⟨hnil, hlt⟩

/-- With more begun there are no fewer batches, and never more than one more. -/
theorem length_chunkRows (rows chunk chunk' : List ChangeRow) :
    (chunk.length ≤ chunk'.length →
      (chunkRows chunk rows).length ≤ (chunkRows chunk' rows).length) ∧
    (chunkRows chunk rows).length ≤ (chunkRows chunk' rows).length + 1 := by
  induction hn : rows.length using Nat.strong_induction_on generalizing chunk chunk' rows with
  | h n ih =>
      have hnil (l : List ChangeRow) : l = [] ↔ l.length = 0 := List.length_eq_zero_iff.symm
      cases rows with
      | nil =>
          rw [chunkRows, chunkRows]
          simp only [hnil]
          split <;> split <;> simp
          omega
      | cons r rest =>
          have hlength := length_after_lt r rest
          have hrest (c c' : List ChangeRow) := ih _ (hn ▸ hlength) (after r rest) c c' rfl
          obtain ⟨hmono, -⟩ := hrest (group r rest) (chunk' ++ group r rest)
          obtain ⟨-, hmore⟩ := hrest (chunk ++ group r rest) (group r rest)
          obtain ⟨hboth, hone⟩ := hrest (chunk ++ group r rest) (chunk' ++ group r rest)
          rw [List.length_append, List.length_append] at hboth
          rw [List.length_append] at hmono
          rw [chunkRows_cons, chunkRows_cons]
          simp only [Ne, hnil]
          split
          · split
            · rw [List.length_cons, List.length_cons]
              omega
            · rw [List.length_cons]
              omega
          · split
            · rw [List.length_cons]
              omega
            · omega

/-- No other parts of these rows are fewer: where the first begins with `start`, which is no
shorter than what is begun, and the versions of `start` do not go on. -/
theorem length_chunkRows_le {rows : List ChangeRow}
    (hsorted : rows.Pairwise fun r r' => r.dbVersion ≤ r'.dbVersion)
    {start front : List ChangeRow} {parts : List (List ChangeRow)} (hstart : Apart start rows)
    (hlength : chunk.length ≤ start.length) (hrows : front ++ parts.flatten = rows)
    (hnonempty : ∀ changes ∈ parts, changes ≠ [])
    (hapart : ((start ++ front) :: parts).Pairwise Apart)
    (hfits : ∀ changes ∈ (start ++ front) :: parts, Fits changes) :
    (chunkRows chunk rows).length ≤ parts.length + 1 := by
  induction hn : rows.length using Nat.strong_induction_on
    generalizing chunk rows start front parts with
  | h n ih =>
      cases rows with
      | nil =>
          rw [chunkRows]
          split
          · exact Nat.zero_le _
          · exact Nat.le_add_left _ _
      | cons r rest =>
          have hshorter : (after r rest).length < n := hn ▸ length_after_lt r rest
          have hgroupAfter : Apart (group r rest) (after r rest) := fun x hx y hy =>
            (lt_of_mem_after hsorted hx hy).ne
          rw [chunkRows_cons]
          by_cases hfront : front = []
          · -- the version begins a part of its own
            cases parts with
            | nil =>
                rw [hfront] at hrows
                cases hrows
            | cons part parts =>
                rw [hfront, List.nil_append, List.flatten_cons] at hrows
                obtain ⟨hpart, hparts⟩ := List.forall_mem_cons.mp hnonempty
                obtain ⟨-, hapart⟩ := List.pairwise_cons.mp hapart
                have hbehind : Apart part parts.flatten := fun x hx y hy => by
                  obtain ⟨changes, hmem, hy⟩ := List.mem_flatten.mp hy
                  exact (List.pairwise_cons.mp hapart).1 changes hmem x hx y hy
                obtain ⟨front', rfl, hfront'⟩ := exists_group_append hpart hrows hbehind
                have hleft := ih _ hshorter (sorted_after hsorted) hgroupAfter le_rfl hfront'
                  hparts hapart (fun changes hmem => hfits changes (List.mem_cons_of_mem _ hmem))
                  rfl
                have hmore := (length_chunkRows (after r rest) (chunk ++ group r rest)
                  (group r rest)).2
                split
                · rw [List.length_cons, List.length_cons]
                  omega
                · rw [List.length_cons]
                  omega
          · -- the version goes on in the part that is begun
            have hbehind : Apart front parts.flatten := fun x hx y hy => by
              obtain ⟨changes, hmem, hy⟩ := List.mem_flatten.mp hy
              exact (List.pairwise_cons.mp hapart).1 changes hmem x (List.mem_append_right _ hx)
                y hy
            obtain ⟨front', rfl, hfront'⟩ := exists_group_append hfront hrows hbehind
            split
            · next hfull =>
              -- the other part holds at least as many rows, and of two versions
              obtain ⟨hnil, hlarge⟩ := hfull
              exfalso
              have hpos := List.length_pos_of_ne_nil hnil
              obtain ⟨x, hx⟩ := List.exists_mem_of_length_pos (Nat.lt_of_lt_of_le hpos hlength)
              rcases hfits _ List.mem_cons_self with hfew | hone
              · rw [List.length_append, List.length_append] at hfew
                omega
              · refine hstart x hx r List.mem_cons_self (hone x (List.mem_append_left _ hx) r ?_)
                exact List.mem_append_right _ (List.mem_append_left _ List.mem_cons_self)
            · rw [← List.append_assoc] at hapart hfits
              refine ih _ hshorter (sorted_after hsorted) (fun x hx y hy => ?_) ?_ hfront'
                hnonempty hapart hfits rfl
              · rcases List.mem_append.mp hx with hx | hx
                · refine hstart x hx y ?_
                  rw [← group_append_after]
                  exact List.mem_append_right _ hy
                · exact hgroupAfter x hx y hy
              · rw [List.length_append, List.length_append]
                exact Nat.add_le_add_right hlength _

end Batches

/-! ## A pass -/

section Pass

variable {site : Site} {schemaVersion since : Int} {makeBatchId : Nat → String}

theorem map_changes_batchesOf (chunks : List (List ChangeRow)) :
    (batchesOf site schemaVersion makeBatchId since chunks).map (·.changes) = chunks := by
  induction chunks generalizing since makeBatchId with
  | nil => rfl
  | cons changes chunks ih => rw [batchesOf, List.map_cons, ih]

theorem head_batchesOf (chunks : List (List ChangeRow)) :
    ∀ b ∈ (batchesOf site schemaVersion makeBatchId since chunks).head?,
      b.fromDbVersion = since := by
  cases chunks with
  | nil => exact nofun
  | cons changes chunks =>
      intro b hb
      obtain rfl := Option.some_inj.mp hb
      rfl

theorem isChain_batchesOf (chunks : List (List ChangeRow)) :
    (batchesOf site schemaVersion makeBatchId since chunks).IsChain
      fun b b' => b'.fromDbVersion = b.toDbVersion := by
  induction chunks generalizing since makeBatchId with
  | nil => exact .nil
  | cons changes chunks ih =>
      rw [batchesOf, List.isChain_cons]
      exact ⟨head_batchesOf chunks, ih⟩

theorem last_batchesOf {chunks : List (List ChangeRow)} (hne : ∀ changes ∈ chunks, changes ≠ []) :
    ∀ b ∈ batchesOf site schemaVersion makeBatchId since chunks,
      b.changes.getLast?.map (·.dbVersion) = some b.toDbVersion := by
  induction chunks generalizing since makeBatchId with
  | nil => exact nofun
  | cons changes chunks ih =>
      obtain ⟨hchanges, hchunks⟩ := List.forall_mem_cons.mp hne
      refine List.forall_mem_cons.mpr ⟨?_, ih hchunks⟩
      show changes.getLast?.map (·.dbVersion) = some (lastVersion changes)
      rw [lastVersion, List.getLast?_eq_some_getLast hchanges]
      rfl

/-- Joining the last of some parts tears no version. -/
theorem exists_whole_of_le {rows : List ChangeRow} {parts : List (List ChangeRow)}
    (h : Whole rows parts) {n : Nat} (hpos : 0 < n) (hn : n ≤ parts.length) :
    ∃ joined, Whole rows joined ∧ joined.length = n := by
  obtain ⟨m, rfl⟩ : ∃ m, n = m + 1 := ⟨n - 1, by omega⟩
  have hsplit := List.take_append_drop m parts
  have hapart := h.apart
  rw [← hsplit, List.pairwise_append] at hapart
  refine ⟨parts.take m ++ [(parts.drop m).flatten], ⟨?_, ?_, ?_⟩, ?_⟩
  · rw [List.flatten_append, List.flatten_singleton, ← List.flatten_append, hsplit, h.rows]
  · intro changes hmem
    rcases List.mem_append.mp hmem with hmem | hmem
    · exact h.nonempty changes (List.mem_of_mem_take hmem)
    · rw [List.mem_singleton.mp hmem]
      have hmem' : parts.get ⟨m, by omega⟩ ∈ parts.drop m :=
        List.mem_drop_iff_getElem.mpr ⟨0, by omega, rfl⟩
      obtain ⟨r, hr⟩ := List.exists_mem_of_ne_nil _ (h.nonempty _ (List.get_mem parts _))
      exact List.ne_nil_of_mem (List.mem_flatten_of_mem hmem' hr)
  · refine List.pairwise_append.mpr ⟨hapart.1, List.pairwise_singleton _ _, ?_⟩
    intro changes hchanges joined hjoined x hx y hy
    rw [List.mem_singleton.mp hjoined] at hy
    obtain ⟨later, hlater, hy⟩ := List.mem_flatten.mp hy
    exact hapart.2.2 changes hchanges later hlater x hx y hy
  · rw [List.length_append, List.length_take, List.length_singleton]
    omega

/-- A pass publishes the rows it has read in whole versions, in as few batches as can be. -/
theorem publishedBatches_splits (c : Client) (makeBatchId : Nat → String) (read : Read)
    (hsorted : read.rows.Pairwise fun r r' => r.dbVersion ≤ r'.dbVersion) :
    Splits read.since read.rows (c.publishedBatches makeBatchId read) := by
  have hne := chunkRows_ne_nil [] read.rows
  have hwhole : Whole read.rows (chunkRows [] read.rows) :=
    ⟨flatten_chunkRows [] read.rows, hne, apart_chunkRows hsorted (fun _ hx => nomatch hx)⟩
  have hchanges := @map_changes_batchesOf read.site c.schemaVersion read.since makeBatchId
    (chunkRows [] read.rows)
  have hlength : (c.publishedBatches makeBatchId read).length =
      (chunkRows [] read.rows).length := by
    rw [← hchanges, List.length_map]
    rfl
  refine ⟨?_, head_batchesOf _, isChain_batchesOf _, last_batchesOf hne, fun b hb => ?_,
    fun parts hparts hfits => ?_, fun n hpos hn => ?_⟩
  · rw [publishedBatches, hchanges]
    exact hwhole
  · refine @fits_chunkRows [] (.inl (Nat.zero_le _)) read.rows b.changes ?_
    rw [← hchanges]
    exact List.mem_map_of_mem hb
  · rw [hlength]
    cases parts with
    | nil =>
        have hrows : read.rows = [] := hparts.rows.symm
        rw [hrows, chunkRows]
        exact Nat.le_refl _
    | cons part parts =>
        have hle := @length_chunkRows_le [] read.rows hsorted [] part parts
          (fun _ hx => nomatch hx) le_rfl hparts.rows
          (List.forall_mem_cons.mp hparts.nonempty).2 hparts.apart hfits
        exact hle
  · rw [hlength] at hn
    exact exists_whole_of_le hwhole hpos hn

/-- A row that sets one cell, committed with a version. -/
def cellRow (pk : String) (dbVersion : Int) : ChangeRow where
  table := "notes"
  pk := pk
  cid := "title"
  val := "x"
  colVersion := 1
  dbVersion := dbVersion
  siteId := "s"
  cl := 1
  seq := 0

/-- One row in each of more versions than a batch takes. -/
def manyRows : List ChangeRow := (List.range (maxBatchRows + 1)).map fun n : Nat => cellRow "a" n

theorem length_manyRows : manyRows.length = maxBatchRows + 1 := by
  rw [manyRows, List.length_map, List.length_range]

theorem sorted_manyRows : manyRows.Pairwise fun r r' => r.dbVersion ≤ r'.dbVersion := by
  refine List.pairwise_map.mpr (List.pairwise_le_range.imp fun h => ?_)
  exact Int.ofNat_le.mpr h

theorem not_fits_manyRows : ¬Fits manyRows := by
  intro hfits
  rcases hfits with hlength | hversion
  · rw [length_manyRows] at hlength
    exact absurd hlength (Nat.not_succ_le_self _)
  · have hmem (n : Nat) (hn : n < maxBatchRows + 1) : cellRow "a" n ∈ manyRows :=
      List.mem_map_of_mem (List.mem_range.mpr hn)
    have hsame := hversion _ (hmem 0 (by decide)) _ (hmem 1 (by decide))
    exact absurd hsame (by decide)

/-- The rows of a pass that are too many for one batch are split. -/
theorem publishedBatches_splits_manyRows :
    Splits 0 manyRows ((fresh "s" 1).publishedBatches (fun _ => "b") ⟨"s", 0, manyRows⟩) ∧
      1 < ((fresh "s" 1).publishedBatches (fun _ => "b") ⟨"s", 0, manyRows⟩).length := by
  have hsorted := sorted_manyRows
  generalize hmany : manyRows = rows at hsorted ⊢
  have hsplits := publishedBatches_splits (fresh "s" 1) (fun _ => "b") ⟨"s", 0, rows⟩ hsorted
  refine ⟨hsplits, ?_⟩
  generalize (fresh "s" 1).publishedBatches (fun _ => "b") ⟨"s", 0, rows⟩ = batches at hsplits
  have hrows : (batches.map (·.changes)).flatten = rows := hsplits.whole.rows
  cases batches with
  | nil =>
      have hlength := congrArg List.length hrows
      rw [← hmany, length_manyRows] at hlength
      cases hlength
  | cons b batches =>
      cases batches with
      | nil =>
          have hchanges : b.changes = rows := by simpa using hrows
          have hfits := hsplits.size b List.mem_cons_self
          rw [hchanges, ← hmany] at hfits
          exact absurd hfits not_fits_manyRows
      | cons b' batches => simp

end Pass

end Client

end Realtime.PluginDb
