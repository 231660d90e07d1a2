import Realtime.PluginDb.Log
import Mathlib.Data.List.TakeWhile

/-!
# The server's replica and its cursor

`apply_to_replica` walks the log in array order against one mark for each site,
`store_cursor` merges the marks into the stored row, and the compaction pass
compares the stored row with the cursors of the devices. Each function is
followed by what the proofs use of it.
-/

namespace Realtime.PluginDb

open Lib

/-! ## Applying the log -/

/-- One batch of `apply_to_replica`: the rows inserted so far and the cursor. -/
def applyToReplicaStep (acc : List ChangeRow × Cursor) (b : Batch) : List ChangeRow × Cursor :=
  if b.toDbVersion ≤ acc.2.at b.siteId then acc
  else
    (acc.1 ++ b.changes.filter fun c => decide (acc.2.at b.siteId < c.dbVersion),
      Assoc.set b.siteId (max (acc.2.at b.siteId) b.toDbVersion) acc.2)

/-- `apply_to_replica`: the rows it inserts and the cursor it returns. -/
def applyToReplica (batches : List Batch) (cursor : Cursor) : List ChangeRow × Cursor :=
  batches.foldl applyToReplicaStep ([], cursor)

theorem applyToReplicaStep_at (acc : List ChangeRow × Cursor) (b : Batch) (site : Site) :
    (applyToReplicaStep acc b).2.at site =
      if site = b.siteId then max (acc.2.at site) b.toDbVersion else acc.2.at site := by
  unfold applyToReplicaStep
  by_cases hle : b.toDbVersion ≤ acc.2.at b.siteId
  · rw [if_pos hle]
    split
    · next heq => rw [heq, max_eq_left hle]
    · rfl
  · rw [if_neg hle, Cursor.at_set]
    split
    · next heq => rw [heq]
    · rfl

theorem mem_applyToReplicaStep {acc : List ChangeRow × Cursor} {b : Batch} {r : ChangeRow}
    (h : r ∈ acc.1) : r ∈ (applyToReplicaStep acc b).1 := by
  unfold applyToReplicaStep
  split
  · exact h
  · exact List.mem_append_left _ h

theorem mem_applyToReplicaStep_of_lt {acc : List ChangeRow × Cursor} {b : Batch} {r : ChangeRow}
    (hr : r ∈ b.changes) (hto : r.dbVersion ≤ b.toDbVersion)
    (hfloor : acc.2.at b.siteId < r.dbVersion) : r ∈ (applyToReplicaStep acc b).1 := by
  unfold applyToReplicaStep
  rw [if_neg (by omega)]
  exact List.mem_append_right _ (List.mem_filter.mpr ⟨hr, by simpa using hfloor⟩)

/-- A mark of the pass is the one it started from or the end of a batch. -/
theorem foldl_applyToReplica_at (batches : List Batch) (acc : List ChangeRow × Cursor)
    (site : Site) :
    acc.2.at site ≤ (batches.foldl applyToReplicaStep acc).2.at site ∧
      ((batches.foldl applyToReplicaStep acc).2.at site = acc.2.at site ∨
        ∃ b ∈ batches, b.siteId = site ∧
          (batches.foldl applyToReplicaStep acc).2.at site = b.toDbVersion) := by
  induction batches generalizing acc with
  | nil => exact ⟨le_rfl, Or.inl rfl⟩
  | cons b batches ih =>
      obtain ⟨hle, hcases⟩ := ih (applyToReplicaStep acc b)
      have hstep := applyToReplicaStep_at acc b site
      rw [List.foldl_cons]
      refine ⟨?_, ?_⟩
      · refine le_trans ?_ hle
        rw [hstep]
        split
        · exact le_max_left _ _
        · exact le_rfl
      · rcases hcases with heq | ⟨b', hb', hsite, heq⟩
        · rw [heq, hstep]
          split
          · next hsite =>
              rcases max_choice (acc.2.at site) b.toDbVersion with hmax | hmax
              · exact Or.inl hmax
              · exact Or.inr ⟨b, List.mem_cons_self, hsite.symm, hmax⟩
          · exact Or.inl rfl
        · exact Or.inr ⟨b', List.mem_cons_of_mem _ hb', hsite, heq⟩

theorem mem_foldl_applyToReplica {batches : List Batch} {acc : List ChangeRow × Cursor}
    {r : ChangeRow} (h : r ∈ acc.1) : r ∈ (batches.foldl applyToReplicaStep acc).1 := by
  induction batches generalizing acc with
  | nil => exact h
  | cons b batches ih => exact ih (mem_applyToReplicaStep h)

theorem wf_foldl_applyToReplica {batches : List Batch} {acc : List ChangeRow × Cursor}
    (h : Assoc.Wf acc.2) : Assoc.Wf (batches.foldl applyToReplicaStep acc).2 := by
  induction batches generalizing acc with
  | nil => exact h
  | cons b batches ih =>
      refine ih ?_
      unfold applyToReplicaStep
      split
      · exact h
      · exact Assoc.wf_set h

/-- A row above the mark it meets is inserted. -/
theorem mem_applyToReplica {pre post : List Batch} {b : Batch} {cursor : Cursor} {r : ChangeRow}
    (hr : r ∈ b.changes) (hto : r.dbVersion ≤ b.toDbVersion)
    (hcursor : cursor.at b.siteId < r.dbVersion)
    (hpre : ∀ b' ∈ pre, b'.siteId = b.siteId → b'.toDbVersion < r.dbVersion) :
    r ∈ (applyToReplica (pre ++ b :: post) cursor).1 := by
  unfold applyToReplica
  rw [List.foldl_append, List.foldl_cons]
  refine mem_foldl_applyToReplica (mem_applyToReplicaStep_of_lt hr hto ?_)
  rcases (foldl_applyToReplica_at pre ([], cursor) b.siteId).2 with heq | ⟨b', hb', hsite, heq⟩
  · rw [heq]
    exact hcursor
  · rw [heq]
    exact hpre b' hb' hsite

/-! ## Storing the cursor -/

/-- `i64::MIN`. -/
def i64Min : Int := -9223372036854775808

/-- One entry of the merge in `store_cursor`: the merged cursor, and whether
anything changed. -/
def mergeEntry (acc : Cursor × Bool) (e : Site × Int) : Cursor × Bool :=
  let entry := (Assoc.get e.1 acc.1).getD i64Min
  (Assoc.set e.1 (if entry < e.2 then e.2 else entry) acc.1, acc.2 || decide (entry < e.2))

/-- `store_cursor` on the row it found. -/
def mergeCursor (stored cursor : Cursor) : Cursor × Bool := cursor.foldl mergeEntry (stored, false)

theorem get_foldl_mergeEntry {cursor : Cursor} (hwf : Assoc.Wf cursor) (acc : Cursor × Bool)
    (site : Site) :
    Assoc.get site (cursor.foldl mergeEntry acc).1 =
      match Assoc.get site cursor with
      | none => Assoc.get site acc.1
      | some v => some (max ((Assoc.get site acc.1).getD i64Min) v) := by
  induction cursor generalizing acc with
  | nil => rfl
  | cons e cursor ih =>
      obtain ⟨hnot, hwf'⟩ := Assoc.wf_cons.mp hwf
      rw [List.foldl_cons, ih hwf', Assoc.get_cons]
      by_cases hsite : e.1 = site
      · subst hsite
        rw [if_pos rfl, Assoc.get_eq_none_iff.mpr hnot]
        simp only [mergeEntry, Assoc.get_set_self]
        congr 1
        split
        · next hlt => exact (max_eq_right hlt.le).symm
        · next hge => exact (max_eq_left (not_lt.mp hge)).symm
      · rw [if_neg hsite]
        simp only [mergeEntry, Assoc.get_set_ne hsite]

theorem wf_mergeCursor {stored cursor : Cursor} (h : Assoc.Wf stored) :
    Assoc.Wf (mergeCursor stored cursor).1 := by
  unfold mergeCursor
  suffices ∀ acc : Cursor × Bool, Assoc.Wf acc.1 →
      Assoc.Wf (cursor.foldl mergeEntry acc).1 from this _ h
  intro acc hacc
  induction cursor generalizing acc with
  | nil => exact hacc
  | cons e cursor ih => exact ih _ (Assoc.wf_set hacc)

/-- Marks are merged by their maximum. -/
theorem mergeCursor_at (stored : Cursor) {cursor : Cursor} (hwf : Assoc.Wf cursor) {site : Site}
    (hnonneg : 0 ≤ cursor.at site) :
    stored.at site ≤ (mergeCursor stored cursor).1.at site ∧
      ((mergeCursor stored cursor).1.at site = stored.at site ∨
        (mergeCursor stored cursor).1.at site = cursor.at site) := by
  have hat : (mergeCursor stored cursor).1.at site = _ :=
    congrArg (·.getD 0) (get_foldl_mergeEntry hwf (stored, false) site)
  unfold Cursor.at at hat hnonneg ⊢
  rw [hat]
  cases hc : Assoc.get site cursor with
  | none => exact ⟨le_rfl, Or.inl rfl⟩
  | some v =>
      rw [hc] at hnonneg
      cases hs : Assoc.get site stored with
      | none =>
          have hmax : max i64Min v = v := max_eq_right (le_trans (by decide) hnonneg)
          simp only [Option.getD_none, Option.getD_some, hmax]
          exact ⟨hnonneg, Or.inr trivial⟩
      | some w =>
          simp only [Option.getD_some]
          exact ⟨le_max_left _ _, max_choice w v⟩

/-! ## Deciding what to drop -/

/-- `STALE_CURSOR_MS`. -/
def staleCursorMs : Int := 30 * 24 * 60 * 60 * 1000

/-- `stale`: the device has not refreshed its cursor within the window. -/
def isStale (cursorsAt : Cursor) (now : Int) (device : Site) : Bool :=
  match Assoc.get device cursorsAt with
  | some t => decide (staleCursorMs < now - t)
  | none => false

/-- The devices whose cursors count for `site`. -/
def liveCursors (cursors : List (Site × Cursor)) (cursorsAt : Cursor) (now : Int) (site : Site) :
    List (Site × Cursor) :=
  cursors.filter fun d => d.1 ≠ site && !isStale cursorsAt now d.1

/-- `safe[site]`; `ext` is `ext_available()`. -/
def safeMark (ext : Bool) (cursors : List (Site × Cursor)) (cursorsAt : Cursor)
    (serverCursor : Cursor) (now : Int) (site : Site) : Option Int :=
  let live := liveCursors cursors cursorsAt now site
  if ext || live ≠ [] then
    some (live.foldl (fun m d => min m (d.2.at site)) (serverCursor.at site))
  else none

/-- `drop_ids` of `maybe_compact`. -/
def dropIds (ext : Bool) (batches : List Batch) (cursors : List (Site × Cursor))
    (cursorsAt : Cursor) (serverCursor : Cursor) (now : Int) : List String :=
  (batches.takeWhile fun b =>
    decide (b.toDbVersion ≤
      (safeMark ext cursors cursorsAt serverCursor now b.siteId).getD 0)).map (·.id)

theorem foldl_min_le (l : List (Site × Cursor)) (site : Site) (m : Int) :
    l.foldl (fun m d => min m (d.2.at site)) m ≤ m ∧
      ∀ d ∈ l, l.foldl (fun m d => min m (d.2.at site)) m ≤ d.2.at site := by
  induction l generalizing m with
  | nil => exact ⟨le_rfl, fun d hd => (List.not_mem_nil hd).elim⟩
  | cons d l ih =>
      obtain ⟨hle, hall⟩ := ih (min m (d.2.at site))
      refine ⟨hle.trans (min_le_left _ _), ?_⟩
      intro d' hd'
      rcases List.mem_cons.mp hd' with rfl | hd'
      · exact hle.trans (min_le_right _ _)
      · exact hall d' hd'

/-- A safe mark is within the server's and every live device's. -/
theorem safeMark_le {ext : Bool} {cursors : List (Site × Cursor)} {cursorsAt serverCursor : Cursor}
    {now : Int} {site : Site} {v : Int} (hpos : 0 < v)
    (h : v ≤ (safeMark ext cursors cursorsAt serverCursor now site).getD 0) :
    v ≤ serverCursor.at site ∧
      ∀ d ∈ liveCursors cursors cursorsAt now site, v ≤ d.2.at site := by
  simp only [safeMark] at h
  split at h
  · rw [Option.getD_some] at h
    obtain ⟨hle, hall⟩ := foldl_min_le (liveCursors cursors cursorsAt now site) site
      (serverCursor.at site)
    exact ⟨h.trans hle, fun d hd => h.trans (hall d hd)⟩
  · rw [Option.getD_none] at h
    omega

/-- What a batch id in `drop_ids` was checked against. -/
theorem of_mem_dropIds {ext : Bool} {batches : List Batch} {cursors : List (Site × Cursor)}
    {cursorsAt serverCursor : Cursor} {now : Int} {id : String}
    (hpos : ∀ b ∈ batches, 0 < b.toDbVersion)
    (h : id ∈ dropIds ext batches cursors cursorsAt serverCursor now) :
    ∃ b ∈ batches, b.id = id ∧ b.toDbVersion ≤ serverCursor.at b.siteId ∧
      ∀ d ∈ liveCursors cursors cursorsAt now b.siteId, b.toDbVersion ≤ d.2.at b.siteId := by
  obtain ⟨b, hb, rfl⟩ := List.mem_map.mp h
  have hmem : b ∈ batches := (List.takeWhile_sublist _).subset hb
  have hsafe := List.mem_takeWhile_imp hb
  exact ⟨b, hmem, rfl, safeMark_le (hpos b hmem) (by simpa using hsafe)⟩

/-! ## The trim -/

/-- The marks of `build_compaction_update`. -/
def compactionMarks (ids : List String) (batches : List Batch) (marks : Cursor) : Cursor :=
  batches.foldl (fun m b =>
    if b.id ∈ ids then Assoc.set b.siteId (max (m.at b.siteId) b.toDbVersion) m else m) marks

theorem compactionMarks_cons (ids : List String) (b : Batch) (batches : List Batch)
    (marks : Cursor) :
    compactionMarks ids (b :: batches) marks =
      compactionMarks ids batches
        (if b.id ∈ ids then Assoc.set b.siteId (max (marks.at b.siteId) b.toDbVersion) marks
          else marks) := rfl

theorem compactionMarks_at (ids : List String) (batches : List Batch) (marks : Cursor) :
    (∀ site, marks.at site ≤ (compactionMarks ids batches marks).at site) ∧
      ∀ b ∈ batches, b.id ∈ ids →
        b.toDbVersion ≤ (compactionMarks ids batches marks).at b.siteId := by
  induction batches generalizing marks with
  | nil => exact ⟨fun _ => le_rfl, fun b hb => (List.not_mem_nil hb).elim⟩
  | cons b batches ih =>
      rw [compactionMarks_cons]
      by_cases hid : b.id ∈ ids
      · rw [if_pos hid]
        obtain ⟨hgrow, hall⟩ :=
          ih (Assoc.set b.siteId (max (marks.at b.siteId) b.toDbVersion) marks)
        have hset : ∀ site, marks.at site ≤
            Cursor.at (Assoc.set b.siteId (max (marks.at b.siteId) b.toDbVersion) marks) site := by
          intro site
          rw [Cursor.at_set]
          split
          · next heq => exact heq ▸ le_max_left _ _
          · exact le_rfl
        refine ⟨fun site => (hset site).trans (hgrow site), ?_⟩
        intro b' hb' hid'
        rcases List.mem_cons.mp hb' with rfl | hb'
        · refine le_trans ?_ (hgrow b'.siteId)
          rw [Cursor.at_set, if_pos rfl]
          exact le_max_right _ _
        · exact hall b' hb' hid'
      · rw [if_neg hid]
        obtain ⟨hgrow, hall⟩ := ih marks
        refine ⟨hgrow, ?_⟩
        intro b' hb' hid'
        rcases List.mem_cons.mp hb' with rfl | hb'
        · exact absurd hid' hid
        · exact hall b' hb' hid'

end Realtime.PluginDb
