import Realtime.PluginDb.Replica

/-!
# What compaction may remove

Any number of passes over one database run at once, each of them from await to
await: they read the document, read the stored cursor, refresh the replica, and
store the cursor in two more steps; a replication pass then decides what
everyone has and trims the log. Only the row in the database, the replica and
the document are shared.

`history` keeps every batch that was ever in the log, in the order of
publication (`item`); `replica` every row that was ever merged.
-/

namespace Realtime.PluginDb.Compaction

open Lib

/-- A batch in the shared array. -/
structure Entry where
  item : Nat
  batch : Batch
  deriving DecidableEq

/-- `DocView`, with the number of batches published by then. -/
structure DocView where
  entries : List Entry
  cursors : List (Site × Cursor)
  cursorsAt : Cursor
  compactedThrough : Cursor
  time : Nat
  deriving DecidableEq

def DocView.batches (v : DocView) : List Batch := v.entries.map (·.batch)

/-- Where a pass stands. The flag tells a replication pass, which compacts,
from `bootstrap_changes`, `query_sql` and `execute_sql`, which do not. -/
inductive Task where
  | idle
  | fetched (compacts : Bool) (view : DocView)
  | loaded (compacts : Bool) (view : DocView) (cursor : Cursor)
  | applied (compacts : Bool) (view : DocView) (cursor : Cursor)
  | found (compacts : Bool) (view : DocView) (cursor : Cursor) (existing : Option Cursor)
  | stored (view : DocView)
  | checking (view : DocView) (serverCursor : Cursor)
  | verified (view : DocView) (now : Int) (ids : List String)
  | trimming (view : DocView) (now : Int) (ids : List String) (current : DocView)

structure System (ι : Type) where
  log : List Entry
  cursors : List (Site × Cursor)
  cursorsAt : Cursor
  compactedThrough : Cursor
  row : Option Cursor
  replica : List ChangeRow
  tasks : ι → Task
  serverSite : Site
  ext : Bool
  published : Nat
  history : List Entry

variable {ι : Type}

namespace System

/-- What `load_cursor` returns. -/
def storedCursor (σ : System ι) : Cursor := σ.row.getD []

/-- What a reader of the document sees. -/
def view (σ : System ι) : DocView :=
  ⟨σ.log, σ.cursors, σ.cursorsAt, σ.compactedThrough, σ.published⟩

def setTask [DecidableEq ι] (σ : System ι) (i : ι) (t : Task) : System ι :=
  { σ with tasks := Function.update σ.tasks i t }

/-- A batch is put into the array between `pre` and `post`. -/
def publish (σ : System ι) (b : Batch) (pre post : List Entry) : System ι :=
  { σ with
    log := pre ++ ⟨σ.published, b⟩ :: post
    published := σ.published + 1
    history := σ.history ++ [⟨σ.published, b⟩] }

/-- Nothing has happened yet. -/
structure Initial (σ : System ι) : Prop where
  log : σ.log = []
  history : σ.history = []
  row : σ.row = none
  compactedThrough : σ.compactedThrough = []
  tasks : ∀ i, σ.tasks i = .idle

end System

/-- Rows of a batch are within its end, and versions start at 1. -/
structure WellFormed (b : Batch) : Prop where
  to_pos : 0 < b.toDbVersion
  rows : ∀ r ∈ b.changes, 0 < r.dbVersion ∧ r.dbVersion ≤ b.toDbVersion

/-- The row after `store_cursor` writes: an update replaces whatever is there,
an insert fails on a row that has appeared (the table has a unique index). -/
def storedRow (row existing : Option Cursor) (cursor : Cursor) : Option Cursor :=
  match existing with
  | some stored => if (mergeCursor stored cursor).2 then some (mergeCursor stored cursor).1 else row
  | none => if row.isSome then row else some cursor

/-- The entries `build_compaction_update` removes. -/
def dropped (ids : List String) (current : DocView) : List Nat :=
  (current.entries.filter fun e => e.batch.id ∈ ids).map (·.item)

inductive Event (ι : Type) where
  | publish (b : Batch) (post : List Entry)
  | store (i : ι)
  | trim (i : ι)
  | other

/-- One step of a device or of a pass between two awaits. -/
inductive Step [DecidableEq ι] : System ι → Event ι → System ι → Prop
  | publish (σ : System ι) (b : Batch) (pre post : List Entry) (hlog : σ.log = pre ++ post)
      (hwf : WellFormed b) (hids : ∀ e ∈ σ.history, e.batch.id = b.id → e.batch = b)
      (hown : b.siteId = σ.serverSite → ∀ r ∈ b.changes, r ∈ σ.replica) :
      Step σ (.publish b post) (σ.publish b pre post)
  | setCursor (σ : System ι) (device : Site) (cursor : Cursor) (now : Int) :
      Step σ .other
        { σ with
          cursors := Assoc.set device cursor σ.cursors
          cursorsAt := Assoc.set device now σ.cursorsAt }
  | commit (σ : System ι) (rows : List ChangeRow) :
      Step σ .other { σ with replica := σ.replica ++ rows }
  | fetch (σ : System ι) (i : ι) (compacts : Bool) (hidle : σ.tasks i = .idle) :
      Step σ .other (σ.setTask i (.fetched compacts σ.view))
  | load (σ : System ι) (i : ι) {compacts : Bool} {view : DocView} (hext : σ.ext = true)
      (htask : σ.tasks i = .fetched compacts view) :
      Step σ .other (σ.setTask i (.loaded compacts view σ.storedCursor))
  | apply (σ : System ι) (i : ι) {compacts : Bool} {view : DocView} {cursor : Cursor}
      (htask : σ.tasks i = .loaded compacts view cursor) :
      Step σ .other
        { σ.setTask i (.applied compacts view (applyToReplica view.batches cursor).2) with
          replica := σ.replica ++ (applyToReplica view.batches cursor).1 }
  | advanceOwn (σ : System ι) (i : ι) (e : Entry) (hidle : σ.tasks i = .idle)
      (he : e ∈ σ.history) (hsite : e.batch.siteId = σ.serverSite) :
      Step σ .other (σ.setTask i (.applied false σ.view
        (Assoc.set σ.serverSite
          (max (σ.storedCursor.at σ.serverSite) e.batch.toDbVersion) σ.storedCursor)))
  | find (σ : System ι) (i : ι) {compacts : Bool} {view : DocView} {cursor : Cursor}
      (htask : σ.tasks i = .applied compacts view cursor) :
      Step σ .other (σ.setTask i (.found compacts view cursor σ.row))
  | store (σ : System ι) (i : ι) {compacts : Bool} {view : DocView} {cursor : Cursor}
      {existing : Option Cursor} (htask : σ.tasks i = .found compacts view cursor existing) :
      Step σ (.store i)
        { σ.setTask i (if compacts then .stored view else .idle) with
          row := storedRow σ.row existing cursor }
  | noReplica (σ : System ι) (i : ι) {view : DocView} (hext : σ.ext = false)
      (htask : σ.tasks i = .fetched true view) : Step σ .other (σ.setTask i (.stored view))
  | check (σ : System ι) (i : ι) {view : DocView} (serverCursor : Cursor)
      (htask : σ.tasks i = .stored view)
      (hcursor : serverCursor = σ.storedCursor ∨ serverCursor = []) :
      Step σ .other (σ.setTask i (.checking view serverCursor))
  | verify (σ : System ι) (i : ι) {view : DocView} {serverCursor : Cursor} (now : Int)
      (htask : σ.tasks i = .checking view serverCursor) :
      Step σ .other (σ.setTask i (.verified view now
        (dropIds σ.ext view.batches view.cursors view.cursorsAt serverCursor now)))
  | read (σ : System ι) (i : ι) {view : DocView} {now : Int} {ids : List String}
      (htask : σ.tasks i = .verified view now ids) :
      Step σ .other (σ.setTask i (.trimming view now ids σ.view))
  | trim (σ : System ι) (i : ι) {view current : DocView} {now : Int} {ids : List String}
      (marks : Cursor) (htask : σ.tasks i = .trimming view now ids current)
      (hdropped : dropped ids current ≠ [])
      (hmarks : marks = compactionMarks ids current.batches current.compactedThrough ∨
        (σ.compactedThrough ≠ current.compactedThrough ∧ marks = σ.compactedThrough)) :
      Step σ (.trim i)
        { σ.setTask i .idle with
          log := σ.log.filter fun e => e.item ∉ dropped ids current
          compactedThrough := marks }
  | abandon (σ : System ι) (i : ι) : Step σ .other (σ.setTask i .idle)

/-- What the code needs of a step to do what it promises.

* A device's batch goes behind the batches of its site, and a row of it at or
  below the end of one of them has been published before.
* No other pass has written the stored row since `store_cursor` read it.
* No other pass has moved the compaction marks since the trim was built. -/
def InOrder (σ : System ι) : Event ι → Prop
  | .publish b post =>
      b.siteId = σ.serverSite ∨
        (∀ e ∈ post, e.batch.siteId ≠ b.siteId) ∧
          ∀ r ∈ b.changes, ∀ e ∈ σ.history, e.batch.siteId = b.siteId →
            r.dbVersion ≤ e.batch.toDbVersion →
            ∃ e' ∈ σ.history, e'.batch.siteId = b.siteId ∧ r ∈ e'.batch.changes
  | .store i => ∀ compacts view cursor existing,
      σ.tasks i = .found compacts view cursor existing → σ.row = existing
  | .trim i => ∀ view now ids current,
      σ.tasks i = .trimming view now ids current → σ.compactedThrough = current.compactedThrough
  | .other => True

/-- States reached by runs whose steps all meet `cond`. -/
inductive Reach [DecidableEq ι] (cond : System ι → Event ι → Prop) : System ι → Prop
  | initial {σ : System ι} : σ.Initial → Reach cond σ
  | step {σ σ' : System ι} {e : Event ι} : Reach cond σ → Step σ e σ' → cond σ e → Reach cond σ'

/-- The stored cursor of a site at `v`: every change of the site up to `v` that
is or was in the log is in the replica. -/
def System.Covers (σ : System ι) : Prop :=
  ∀ e ∈ σ.history, ∀ r ∈ e.batch.changes,
    r.dbVersion ≤ σ.storedCursor.at e.batch.siteId → r ∈ σ.replica

/-- The batch was checked in `view`: it is one of the view's, and every device
whose cursor counts had it. -/
def Checked (view : DocView) (now : Int) (b : Batch) : Prop :=
  b ∈ view.batches ∧
    ∀ d ∈ liveCursors view.cursors view.cursorsAt now b.siteId, b.toDbVersion ≤ d.2.at b.siteId

/-- What a step promises. -/
structure Safe (σ σ' : System ι) : Prop where
  stored : ∀ site, σ.storedCursor.at site ≤ σ'.storedCursor.at site
  covers : σ'.Covers
  marks : ∀ site, σ.compactedThrough.at site ≤ σ'.compactedThrough.at site
  removed : ∀ e ∈ σ.log, e ∉ σ'.log →
    (∀ r ∈ e.batch.changes, r ∈ σ'.replica) ∧
    e.batch.toDbVersion ≤ σ'.compactedThrough.at e.batch.siteId ∧
    ∃ i view now ids current, σ.tasks i = .trimming view now ids current ∧
      Checked view now e.batch

/-! ## The invariant -/

variable {σ σ' : System ι}

/-- Version `v` of a site can be trusted: some batch reaches it, and the replica
has every change up to it. -/
def Settled (σ : System ι) (site : Site) (v : Int) : Prop :=
  (v ≤ 0 ∨ ∃ e ∈ σ.history, e.batch.siteId = site ∧ v ≤ e.batch.toDbVersion) ∧
    ∀ e ∈ σ.history, e.batch.siteId = site → ∀ r ∈ e.batch.changes, r.dbVersion ≤ v →
      r ∈ σ.replica

structure CursorOk (σ : System ι) (c : Cursor) : Prop where
  wf : Assoc.Wf c
  nonneg : ∀ site, 0 ≤ c.at site
  settled : ∀ site, Settled σ site (c.at site)

/-- A view holds what was published before it, less what the replica has, each
device's batches in the order of publication. -/
structure ViewOk (σ : System ι) (v : DocView) : Prop where
  time : v.time ≤ σ.published
  entries : ∀ e ∈ v.entries, e ∈ σ.history ∧ e.item < v.time
  ordered : v.entries.Pairwise fun e e' =>
    e.batch.siteId = e'.batch.siteId → e.batch.siteId ≠ σ.serverSite → e.item < e'.item
  complete : ∀ e ∈ σ.history, e.item < v.time →
    e ∈ v.entries ∨ ∀ r ∈ e.batch.changes, r ∈ σ.replica

/-- Every id was checked in the view, and the replica has what it names. -/
def IdsOk (σ : System ι) (view : DocView) (now : Int) (ids : List String) : Prop :=
  ∀ id ∈ ids, ∃ e ∈ view.entries, e.batch.id = id ∧ Checked view now e.batch ∧
    ∀ r ∈ e.batch.changes, r ∈ σ.replica

/-- What a compaction holds between two awaits stays true while the log grows. -/
def TaskOk (σ : System ι) : Task → Prop
  | .idle => True
  | .fetched _ view => ViewOk σ view
  | .loaded _ view cursor => ViewOk σ view ∧ CursorOk σ cursor
  | .applied _ view cursor => ViewOk σ view ∧ CursorOk σ cursor
  | .found _ view cursor existing =>
      ViewOk σ view ∧ CursorOk σ cursor ∧ ∀ stored, existing = some stored → CursorOk σ stored
  | .stored view => ViewOk σ view
  | .checking view serverCursor => ViewOk σ view ∧ CursorOk σ serverCursor
  | .verified view now ids => ViewOk σ view ∧ IdsOk σ view now ids
  | .trimming view now ids current =>
      ViewOk σ view ∧ IdsOk σ view now ids ∧ ViewOk σ current

/-- What was published is told apart by its place and its id, and every cursor that is stored or
held may be trusted. -/
structure Inv (σ : System ι) : Prop where
  items : ∀ e ∈ σ.history, e.item < σ.published
  item_inj : ∀ e ∈ σ.history, ∀ e' ∈ σ.history, e.item = e'.item → e = e'
  ids : ∀ e ∈ σ.history, ∀ e' ∈ σ.history, e.batch.id = e'.batch.id → e.batch = e'.batch
  wf : ∀ e ∈ σ.history, WellFormed e.batch
  own : ∀ e ∈ σ.history, e.batch.siteId = σ.serverSite → ∀ r ∈ e.batch.changes, r ∈ σ.replica
  versions : ∀ e ∈ σ.history, e.batch.siteId ≠ σ.serverSite → ∀ r ∈ e.batch.changes,
    ∀ e' ∈ σ.history, e'.batch.siteId = e.batch.siteId → e'.item < e.item →
      r.dbVersion ≤ e'.batch.toDbVersion →
      ∃ e'' ∈ σ.history, e''.batch.siteId = e.batch.siteId ∧ e''.item < e.item ∧
        r ∈ e''.batch.changes
  log : ViewOk σ σ.view
  stored : CursorOk σ σ.storedCursor
  tasks : ∀ i, TaskOk σ (σ.tasks i)

/-! ## What growth keeps -/

/-- The replica and the history grow, and what is new in the history lies above
every version that could be trusted. -/
structure Grows (σ σ' : System ι) : Prop where
  serverSite : σ'.serverSite = σ.serverSite
  published : σ.published ≤ σ'.published
  replica : ∀ r ∈ σ.replica, r ∈ σ'.replica
  history : ∀ e ∈ σ.history, e ∈ σ'.history
  fresh : ∀ e ∈ σ'.history, e ∈ σ.history ∨ σ.published ≤ e.item ∧
    ∀ v, Settled σ e.batch.siteId v → ∀ r ∈ e.batch.changes, r.dbVersion ≤ v → r ∈ σ'.replica

theorem Settled.mono {site : Site} {v : Int} (h : Settled σ site v) (hg : Grows σ σ') :
    Settled σ' site v := by
  refine ⟨?_, ?_⟩
  · rcases h.1 with hle | ⟨e, he, hsite, hle⟩
    · exact Or.inl hle
    · exact Or.inr ⟨e, hg.history e he, hsite, hle⟩
  · intro e he hsite r hr hle
    rcases hg.fresh e he with hold | ⟨_, hnew⟩
    · exact hg.replica r (h.2 e hold hsite r hr hle)
    · subst hsite
      exact hnew v h r hr hle

theorem CursorOk.mono {c : Cursor} (h : CursorOk σ c) (hg : Grows σ σ') : CursorOk σ' c :=
  ⟨h.wf, h.nonneg, fun site => (h.settled site).mono hg⟩

theorem ViewOk.mono {v : DocView} (h : ViewOk σ v) (hg : Grows σ σ') : ViewOk σ' v where
  time := h.time.trans hg.published
  entries := fun e he => ⟨hg.history e (h.entries e he).1, (h.entries e he).2⟩
  ordered := hg.serverSite ▸ h.ordered
  complete := by
    intro e he hlt
    rcases hg.fresh e he with hold | ⟨hge, _⟩
    · exact (h.complete e hold hlt).imp_right fun hall r hr => hg.replica r (hall r hr)
    · exact absurd (hlt.trans_le h.time) (not_lt.mpr hge)

theorem IdsOk.mono {view : DocView} {now : Int} {ids : List String} (h : IdsOk σ view now ids)
    (hg : Grows σ σ') : IdsOk σ' view now ids := by
  intro id hid
  obtain ⟨e, he, heq, hchecked, hrows⟩ := h id hid
  exact ⟨e, he, heq, hchecked, fun r hr => hg.replica r (hrows r hr)⟩

theorem TaskOk.mono {t : Task} (h : TaskOk σ t) (hg : Grows σ σ') : TaskOk σ' t := by
  cases t with
  | idle => trivial
  | fetched compacts view => exact ViewOk.mono h hg
  | loaded compacts view cursor => exact ⟨h.1.mono hg, h.2.mono hg⟩
  | applied compacts view cursor => exact ⟨h.1.mono hg, h.2.mono hg⟩
  | found compacts view cursor existing =>
      exact ⟨h.1.mono hg, h.2.1.mono hg, fun stored heq => (h.2.2 stored heq).mono hg⟩
  | stored view => exact ViewOk.mono h hg
  | checking view serverCursor => exact ⟨h.1.mono hg, h.2.mono hg⟩
  | verified view now ids => exact ⟨h.1.mono hg, h.2.mono hg⟩
  | trimming view now ids current => exact ⟨h.1.mono hg, h.2.1.mono hg, h.2.2.mono hg⟩

/-- Only the replica grows. -/
theorem grows_replica (hserver : σ'.serverSite = σ.serverSite)
    (hpublished : σ'.published = σ.published) (hhistory : σ'.history = σ.history)
    (hreplica : ∀ r ∈ σ.replica, r ∈ σ'.replica) : Grows σ σ' where
  serverSite := hserver
  published := hpublished.ge
  replica := hreplica
  history := fun _ he => hhistory ▸ he
  fresh := fun _ he => Or.inl (hhistory ▸ he)

/-- The parts of the invariant that a step keeps when the history stays. -/
theorem Inv.keep (h : Inv σ) (hserver : σ'.serverSite = σ.serverSite)
    (hpublished : σ'.published = σ.published) (hhistory : σ'.history = σ.history)
    (hreplica : ∀ r ∈ σ.replica, r ∈ σ'.replica) (hlog : ViewOk σ' σ'.view)
    (hstored : CursorOk σ' σ'.storedCursor) (htasks : ∀ i, TaskOk σ' (σ'.tasks i)) : Inv σ' where
  items := by
    rw [hhistory, hpublished]
    exact h.items
  item_inj := hhistory ▸ h.item_inj
  ids := hhistory ▸ h.ids
  wf := hhistory ▸ h.wf
  own := by
    rw [hhistory, hserver]
    exact fun e he hsite r hr => hreplica r (h.own e he hsite r hr)
  versions := by
    rw [hhistory, hserver]
    exact h.versions
  log := hlog
  stored := hstored
  tasks := htasks

/-! ## Refreshing the replica -/

/-- The entries of a site in front of one, in a view: they were published
earlier. -/
theorem ViewOk.before {v : DocView} (h : ViewOk σ v) {e : Entry} (he : e ∈ v.entries)
    (hsite : e.batch.siteId ≠ σ.serverSite) :
    ∃ pre post, v.batches = pre ++ e.batch :: post ∧
      ∀ b ∈ pre, b.siteId = e.batch.siteId →
        ∃ e' ∈ σ.history, e'.batch = b ∧ e'.item < e.item := by
  obtain ⟨pre, post, hsplit⟩ := List.append_of_mem he
  refine ⟨pre.map (·.batch), post.map (·.batch), by simp [DocView.batches, hsplit], ?_⟩
  intro b hb hb'
  obtain ⟨e', he', rfl⟩ := List.mem_map.mp hb
  have hordered := h.ordered
  rw [hsplit, List.pairwise_append] at hordered
  have hlt := hordered.2.2 e' he' e List.mem_cons_self hb' (hb' ▸ hsite)
  have hmem : e' ∈ v.entries := hsplit ▸ List.mem_append_left _ he'
  exact ⟨e', (h.entries e' hmem).1, rfl, hlt⟩

/-- The replica after a pass over `view` from `cursor` has every change up to
the marks the pass ends with. -/
theorem Inv.mem_of_le_applied (h : Inv σ) {view : DocView} {cursor : Cursor} (hv : ViewOk σ view)
    (hc : CursorOk σ cursor) {site : Site} :
    ∀ e ∈ σ.history, e.batch.siteId = site → ∀ r ∈ e.batch.changes,
      r.dbVersion ≤ (applyToReplica view.batches cursor).2.at site →
      r ∈ σ.replica ++ (applyToReplica view.batches cursor).1 := by
  intro e
  -- by the order of publication: a change is looked up in the first batch that has it
  induction hn : e.item using Nat.strong_induction_on generalizing e with
  | _ n ih =>
      intro he hsite r hr hle
      subst hn
      subst hsite
      by_cases hserver : e.batch.siteId = σ.serverSite
      · exact List.mem_append_left _ (h.own e he hserver r hr)
      -- an earlier batch that ends past the change leads to an earlier batch that has it
      have hearlier : ∀ e' ∈ σ.history, e'.batch.siteId = e.batch.siteId → e'.item < e.item →
          r.dbVersion ≤ e'.batch.toDbVersion →
          r ∈ σ.replica ++ (applyToReplica view.batches cursor).1 := by
        intro e' he' hsite' hlt hle'
        obtain ⟨e'', he'', hsite'', hlt'', hr''⟩ :=
          h.versions e he hserver r hr e' he' hsite' hlt hle'
        exact ih e''.item hlt'' e'' rfl he'' hsite'' r hr'' hle
      by_cases hold : r.dbVersion ≤ cursor.at e.batch.siteId
      · exact List.mem_append_left _ ((hc.settled e.batch.siteId).2 e he rfl r hr hold)
      by_cases htime : e.item < view.time
      · rcases hv.complete e he htime with hmem | hall
        · obtain ⟨pre, post, hsplit, hpre⟩ := hv.before hmem hserver
          by_cases hpast : ∃ b ∈ pre, b.siteId = e.batch.siteId ∧ r.dbVersion ≤ b.toDbVersion
          · obtain ⟨b, hb, hsite, hle'⟩ := hpast
            obtain ⟨e', he', rfl, hlt⟩ := hpre b hb hsite
            exact hearlier e' he' hsite hlt hle'
          · refine List.mem_append_right _ ?_
            rw [hsplit]
            refine mem_applyToReplica hr ((h.wf e he).rows r hr).2 (by omega) ?_
            intro b hb hsite
            by_contra hge
            exact hpast ⟨b, hb, hsite, by omega⟩
        · exact List.mem_append_left _ (hall r hr)
      · -- published after the view: some batch of the view ends past the change
        rcases (foldl_applyToReplica_at view.batches ([], cursor) e.batch.siteId).2 with
          heq | ⟨b, hb, hsite, heq⟩
        · exact absurd (heq ▸ hle) hold
        · obtain ⟨e', he', rfl⟩ := List.mem_map.mp hb
          obtain ⟨hhist, hlt⟩ := hv.entries e' he'
          exact hearlier e' hhist hsite (by omega) (heq ▸ hle)

theorem Inv.applied (h : Inv σ) {view : DocView} {cursor : Cursor} (hv : ViewOk σ view)
    (hc : CursorOk σ cursor) (hhistory : σ'.history = σ.history)
    (hreplica : σ'.replica = σ.replica ++ (applyToReplica view.batches cursor).1) :
    CursorOk σ' (applyToReplica view.batches cursor).2 := by
  refine ⟨wf_foldl_applyToReplica hc.wf, ?_, ?_⟩
  · intro site
    exact (hc.nonneg site).trans (foldl_applyToReplica_at view.batches ([], cursor) site).1
  · intro site
    refine ⟨?_, ?_⟩
    · rw [hhistory]
      rcases (foldl_applyToReplica_at view.batches ([], cursor) site).2 with
        heq | ⟨b, hb, hsite, heq⟩
      · exact (hc.settled site).1.imp (fun hle => heq ▸ hle)
          fun ⟨e, he, hsite, hle⟩ => ⟨e, he, hsite, heq ▸ hle⟩
      · obtain ⟨e, he, rfl⟩ := List.mem_map.mp hb
        exact Or.inr ⟨e, (hv.entries e he).1, hsite, heq.le⟩
    · rw [hhistory, hreplica]
      exact h.mem_of_le_applied hv hc

/-! ## Storing the cursor -/

theorem CursorOk.nil (σ : System ι) (h : Inv σ) : CursorOk σ [] := by
  refine ⟨Assoc.wf_nil, fun _ => le_rfl, fun site => ⟨Or.inl le_rfl, ?_⟩⟩
  intro e he _ r hr hle
  exact absurd hle (not_le.mpr ((h.wf e he).rows r hr).1)

theorem CursorOk.merge {stored cursor : Cursor} (hs : CursorOk σ stored) (hc : CursorOk σ cursor) :
    CursorOk σ (mergeCursor stored cursor).1 := by
  refine ⟨wf_mergeCursor hs.wf, ?_, ?_⟩
  · intro site
    exact (hs.nonneg site).trans (mergeCursor_at stored hc.wf (hc.nonneg site)).1
  · intro site
    rcases (mergeCursor_at stored hc.wf (hc.nonneg site)).2 with heq | heq
    · rw [heq]
      exact hs.settled site
    · rw [heq]
      exact hc.settled site

/-- Nothing was written since the row was read: the merge is of what is
stored. -/
theorem storedRow_ok {existing : Option Cursor} {cursor : Cursor} (hrow : σ.row = existing)
    (hs : CursorOk σ σ.storedCursor) (hc : CursorOk σ cursor) :
    CursorOk σ ((storedRow σ.row existing cursor).getD []) ∧
      ∀ site, σ.storedCursor.at site ≤
        Cursor.at ((storedRow σ.row existing cursor).getD []) site := by
  subst hrow
  unfold System.storedCursor at hs ⊢
  cases hrow : σ.row with
  | none =>
      rw [hrow] at hs
      exact ⟨hc, fun site => hc.nonneg site⟩
  | some stored =>
      rw [hrow] at hs
      simp only [storedRow, Option.getD_some] at hs ⊢
      split
      · exact ⟨hs.merge hc, fun site => (mergeCursor_at stored hc.wf (hc.nonneg site)).1⟩
      · exact ⟨hs, fun site => le_rfl⟩

/-- The server's own site may always be trusted: its batches hold rows of the
replica. -/
theorem Inv.advanceOwn (h : Inv σ) {e : Entry} (he : e ∈ σ.history)
    (hsite : e.batch.siteId = σ.serverSite) :
    CursorOk σ (Assoc.set σ.serverSite
      (max (σ.storedCursor.at σ.serverSite) e.batch.toDbVersion) σ.storedCursor) := by
  have hs := h.stored
  refine ⟨Assoc.wf_set hs.wf, ?_, ?_⟩
  · intro site
    rw [Cursor.at_set]
    split
    · exact (hs.nonneg σ.serverSite).trans (le_max_left _ _)
    · exact hs.nonneg site
  · intro site
    rw [Cursor.at_set]
    split
    · next heq =>
        subst heq
        refine ⟨?_, fun e' he' hsite' r hr _ => h.own e' he' hsite' r hr⟩
        rcases max_choice (σ.storedCursor.at σ.serverSite) e.batch.toDbVersion with hmax | hmax
        · rw [hmax]
          exact (hs.settled σ.serverSite).1
        · exact Or.inr ⟨e, he, hsite, hmax.le⟩
    · exact hs.settled site

/-! ## Publishing -/

/-- A new batch in its place grows the history. -/
theorem grows_publish {b : Batch} {post : List Entry} (pre : List Entry)
    (hown : b.siteId = σ.serverSite → ∀ r ∈ b.changes, r ∈ σ.replica)
    (hwf : WellFormed b) (horder : InOrder σ (.publish b post)) :
    Grows σ (σ.publish b pre post) := by
  refine ⟨rfl, Nat.le_succ _, fun _ hr => hr, fun _ he => List.mem_append_left _ he, ?_⟩
  intro e he
  rcases List.mem_append.mp he with he | he
  · exact Or.inl he
  · rw [List.mem_singleton.mp he]
    refine Or.inr ⟨le_rfl, ?_⟩
    intro v hv r hr hle
    rcases horder with hsite | ⟨_, hrows⟩
    · exact hown hsite r hr
    · rcases hv.1 with hzero | ⟨e', he', hsite, hto⟩
      · exact absurd (hle.trans hzero) (not_le.mpr (hwf.rows r hr).1)
      · obtain ⟨e'', he'', hsite'', hr''⟩ := hrows r hr e' he' hsite (hle.trans hto)
        exact hv.2 e'' he'' hsite'' r hr'' hle

theorem Inv.publish (h : Inv σ) {b : Batch} {pre post : List Entry} (hlog : σ.log = pre ++ post)
    (hwf : WellFormed b) (hids : ∀ e ∈ σ.history, e.batch.id = b.id → e.batch = b)
    (hown : b.siteId = σ.serverSite → ∀ r ∈ b.changes, r ∈ σ.replica)
    (horder : InOrder σ (.publish b post)) : Inv (σ.publish b pre post) := by
  have hg := grows_publish pre hown hwf horder
  have hmem : ∀ e ∈ σ.log, e ∈ σ.history ∧ e.item < σ.published := h.log.entries
  refine ⟨?_, ?_, ?_, ?_, ?_, ?_, ?_, h.stored.mono hg, fun i => (h.tasks i).mono hg⟩
  · intro e he
    rcases List.mem_append.mp he with he | he
    · exact Nat.lt_succ_of_lt (h.items e he)
    · rw [List.mem_singleton.mp he]
      exact Nat.lt_succ_self _
  · intro e he e' he' heq
    rcases List.mem_append.mp he with he | he <;> rcases List.mem_append.mp he' with he' | he'
    · exact h.item_inj e he e' he' heq
    · rw [List.mem_singleton.mp he'] at heq
      exact absurd heq (h.items e he).ne
    · rw [List.mem_singleton.mp he] at heq
      exact absurd heq.symm (h.items e' he').ne
    · rw [List.mem_singleton.mp he, List.mem_singleton.mp he']
  · intro e he e' he' heq
    rcases List.mem_append.mp he with he | he <;> rcases List.mem_append.mp he' with he' | he'
    · exact h.ids e he e' he' heq
    · rw [List.mem_singleton.mp he'] at heq ⊢
      exact hids e he heq
    · rw [List.mem_singleton.mp he] at heq ⊢
      exact (hids e' he' heq.symm).symm
    · rw [List.mem_singleton.mp he, List.mem_singleton.mp he']
  · intro e he
    rcases List.mem_append.mp he with he | he
    · exact h.wf e he
    · rw [List.mem_singleton.mp he]
      exact hwf
  · intro e he hsite r hr
    rcases List.mem_append.mp he with he | he
    · exact h.own e he hsite r hr
    · rw [List.mem_singleton.mp he] at hsite hr
      exact hown hsite r hr
  · -- what an earlier version of the site covers is in an earlier entry
    intro e he hsite r hr e' he' hsite' hlt hle
    rcases List.mem_append.mp he with he | he
    · rcases List.mem_append.mp he' with he' | he'
      · obtain ⟨e'', he'', hfound⟩ := h.versions e he hsite r hr e' he' hsite' hlt hle
        exact ⟨e'', List.mem_append_left _ he'', hfound⟩
      · rw [List.mem_singleton.mp he'] at hlt
        exact absurd hlt (not_lt.mpr (h.items e he).le)
    · rw [List.mem_singleton.mp he] at hsite hr hsite' hlt ⊢
      rcases List.mem_append.mp he' with he' | he'
      · rcases horder with hserver | ⟨_, hrows⟩
        · exact absurd hserver hsite
        · obtain ⟨e'', he'', hsite'', hr''⟩ := hrows r hr e' he' hsite' hle
          exact ⟨e'', List.mem_append_left _ he'', hsite'', h.items e'' he'', hr''⟩
      · rw [List.mem_singleton.mp he'] at hlt
        exact absurd hlt (lt_irrefl _)
  · have hlogOk := h.log
    have hordered := hlogOk.ordered
    refine ⟨le_rfl, ?_, ?_, ?_⟩
    · intro e he
      rcases List.mem_append.mp he with he | he
      · have hin := hmem e (hlog ▸ List.mem_append_left _ he)
        exact ⟨List.mem_append_left _ hin.1, Nat.lt_succ_of_lt hin.2⟩
      · rcases List.mem_cons.mp he with rfl | he
        · exact ⟨List.mem_append_right _ List.mem_cons_self, Nat.lt_succ_self _⟩
        · have hin := hmem e (hlog ▸ List.mem_append_right _ he)
          exact ⟨List.mem_append_left _ hin.1, Nat.lt_succ_of_lt hin.2⟩
    · -- the new entry is the last of its site, and the youngest of all
      show (pre ++ ⟨σ.published, b⟩ :: post).Pairwise _
      rw [show σ.view.entries = pre ++ post from hlog, List.pairwise_append] at hordered
      obtain ⟨hpre, hpost, hcross⟩ := hordered
      refine List.pairwise_append.mpr ⟨hpre, List.pairwise_cons.mpr ⟨?_, hpost⟩, ?_⟩
      · intro e he heq hsite
        rcases horder with hserver | ⟨hlast, _⟩
        · exact absurd hserver hsite
        · exact absurd heq.symm (hlast e he)
      · intro e he e' he' heq hsite
        rcases List.mem_cons.mp he' with rfl | he'
        · exact (hmem e (hlog ▸ List.mem_append_left _ he)).2
        · exact hcross e he e' he' heq hsite
    · intro e he _
      rcases List.mem_append.mp he with he | he
      · -- an entry that was removed stays covered
        refine (hlogOk.complete e he (h.items e he)).imp_left fun hin => ?_
        have hin' : e ∈ pre ++ post := hlog ▸ hin
        rcases List.mem_append.mp hin' with hin' | hin'
        · exact List.mem_append_left _ hin'
        · exact List.mem_append_right _ (List.mem_cons_of_mem _ hin')
      · rw [List.mem_singleton.mp he]
        exact Or.inl (List.mem_append_right _ List.mem_cons_self)

/-! ## Trimming -/

section Steps

variable [DecidableEq ι]

theorem tasks_setTask {t : Task} {i : ι} {τ : System ι} (ht : TaskOk τ t)
    (hothers : ∀ j, TaskOk τ (σ.tasks j)) :
    ∀ j, TaskOk τ ((σ.setTask i t).tasks j) := by
  intro j
  unfold System.setTask
  by_cases hj : j = i
  · subst hj
    simpa using ht
  · simpa [hj] using hothers j

/-- A pass moves on and shares nothing. -/
theorem Inv.setTask (h : Inv σ) (i : ι) {t : Task} (ht : TaskOk σ t) : Inv (σ.setTask i t) := by
  have hg : Grows σ (σ.setTask i t) := grows_replica rfl rfl rfl fun _ hr => hr
  exact h.keep rfl rfl rfl (fun _ hr => hr) (h.log.mono hg) (h.stored.mono hg)
    (tasks_setTask (ht.mono hg) fun j => (h.tasks j).mono hg)

omit [DecidableEq ι] in
/-- An entry that a trim takes out was checked by the pass. -/
theorem Inv.of_dropped (h : Inv σ) {view current : DocView} {now : Int} {ids : List String}
    (hview : ViewOk σ view) (hids : IdsOk σ view now ids) (hcurrent : ViewOk σ current)
    {e : Entry} (he : e ∈ σ.history) (hdropped : e.item ∈ dropped ids current) :
    e ∈ current.entries ∧ e.batch.id ∈ ids ∧ Checked view now e.batch ∧
      ∀ r ∈ e.batch.changes, r ∈ σ.replica := by
  obtain ⟨e', he', hitem⟩ := List.mem_map.mp hdropped
  obtain ⟨hin, hid⟩ := List.mem_filter.mp he'
  obtain rfl : e' = e := h.item_inj e' (hcurrent.entries e' hin).1 e he hitem
  have hid' : e'.batch.id ∈ ids := by simpa using hid
  obtain ⟨e'', he'', heq, hchecked, hrows⟩ := hids _ hid'
  have hbatch : e''.batch = e'.batch := h.ids e'' (hview.entries e'' he'').1 e' he heq
  rw [hbatch] at hchecked hrows
  exact ⟨hin, hid', hchecked, hrows⟩

theorem Inv.trim (h : Inv σ) (i : ι) {view current : DocView} {now : Int} {ids : List String}
    (marks : Cursor) (htask : σ.tasks i = .trimming view now ids current) :
    Inv { σ.setTask i .idle with
      log := σ.log.filter fun e => e.item ∉ dropped ids current
      compactedThrough := marks } := by
  obtain ⟨hview, hids, hcurrent⟩ : ViewOk σ view ∧ IdsOk σ view now ids ∧ ViewOk σ current := by
    have ht := h.tasks i
    rwa [htask] at ht
  set σ' : System ι := { σ.setTask i .idle with
    log := σ.log.filter fun e => e.item ∉ dropped ids current
    compactedThrough := marks } with hσ'
  have hg : Grows σ σ' := grows_replica rfl rfl rfl fun _ hr => hr
  refine h.keep rfl rfl rfl (fun _ hr => hr) ?_ (h.stored.mono hg)
    (tasks_setTask (t := .idle) trivial fun j => (h.tasks j).mono hg)
  refine ⟨le_rfl, ?_, ?_, ?_⟩
  · intro e he
    exact h.log.entries e (List.mem_filter.mp he).1
  · exact h.log.ordered.sublist List.filter_sublist
  · intro e he hlt
    rcases h.log.complete e he hlt with hin | hrows
    · by_cases hdrop : e.item ∈ dropped ids current
      · exact Or.inr (h.of_dropped hview hids hcurrent he hdrop).2.2.2
      · exact Or.inl (List.mem_filter.mpr ⟨hin, by simpa using hdrop⟩)
    · exact Or.inr hrows

/-! ## Runs -/

omit [DecidableEq ι] in
/-- What the pass found safe is in the replica. -/
theorem Inv.idsOk (h : Inv σ) {view : DocView} {serverCursor : Cursor} (hview : ViewOk σ view)
    (hcursor : CursorOk σ serverCursor) (now : Int) :
    IdsOk σ view now
      (dropIds σ.ext view.batches view.cursors view.cursorsAt serverCursor now) := by
  intro id hid
  have hpos : ∀ b ∈ view.batches, 0 < b.toDbVersion := by
    intro b hb
    obtain ⟨e, he, rfl⟩ := List.mem_map.mp hb
    exact (h.wf e (hview.entries e he).1).to_pos
  obtain ⟨b, hb, rfl, hserver, hdevices⟩ := of_mem_dropIds hpos hid
  obtain ⟨e, he, rfl⟩ := List.mem_map.mp hb
  have hhist := (hview.entries e he).1
  refine ⟨e, he, rfl, ⟨hb, hdevices⟩, ?_⟩
  intro r hr
  exact (hcursor.settled e.batch.siteId).2 e hhist rfl r hr
    (((h.wf e hhist).rows r hr).2.trans hserver)

theorem Inv.step (h : Inv σ) {e : Event ι} (hstep : Step σ e σ') (horder : InOrder σ e) :
    Inv σ' := by
  cases hstep with
  | publish b pre post hlog hwf hids hown => exact h.publish hlog hwf hids hown horder
  | setCursor device cursor now =>
      have hg : Grows σ { σ with
          cursors := Assoc.set device cursor σ.cursors
          cursorsAt := Assoc.set device now σ.cursorsAt } :=
        grows_replica rfl rfl rfl fun _ hr => hr
      exact h.keep rfl rfl rfl (fun _ hr => hr)
        ⟨h.log.time, h.log.entries, h.log.ordered, h.log.complete⟩ (h.stored.mono hg)
        fun j => (h.tasks j).mono hg
  | commit rows =>
      have hg : Grows σ { σ with replica := σ.replica ++ rows } :=
        grows_replica rfl rfl rfl fun _ hr => List.mem_append_left _ hr
      exact h.keep rfl rfl rfl hg.replica (h.log.mono hg) (h.stored.mono hg)
        fun j => (h.tasks j).mono hg
  | fetch i compacts hidle => exact h.setTask i h.log
  | load i hext htask =>
      have ht := h.tasks i
      rw [htask] at ht
      exact h.setTask i ⟨ht, h.stored⟩
  | @apply i compacts view cursor htask =>
      have ht := h.tasks i
      rw [htask] at ht
      obtain ⟨hview, hcursor⟩ := ht
      set τ : System ι := { σ.setTask i
        (.applied compacts view (applyToReplica view.batches cursor).2) with
          replica := σ.replica ++ (applyToReplica view.batches cursor).1 } with hτ
      have hg : Grows σ τ := grows_replica rfl rfl rfl fun _ hr => List.mem_append_left _ hr
      exact h.keep rfl rfl rfl hg.replica (h.log.mono hg) (h.stored.mono hg)
        (tasks_setTask (t := .applied _ _ _) ⟨hview.mono hg, h.applied hview hcursor rfl rfl⟩
          fun j => (h.tasks j).mono hg)
  | advanceOwn i e hidle he hsite => exact h.setTask i ⟨h.log, h.advanceOwn he hsite⟩
  | find i htask =>
      have ht := h.tasks i
      rw [htask] at ht
      refine h.setTask i ⟨ht.1, ht.2, ?_⟩
      intro stored hrow
      have hstored := h.stored
      rwa [System.storedCursor, hrow] at hstored
  | @store i compacts view cursor existing htask =>
      have ht := h.tasks i
      rw [htask] at ht
      set τ : System ι := { σ.setTask i (if compacts then .stored view else .idle) with
        row := storedRow σ.row existing cursor } with hτ
      have hg : Grows σ τ := grows_replica rfl rfl rfl fun _ hr => hr
      have hrow := storedRow_ok (horder _ _ _ _ htask) h.stored ht.2.1
      refine h.keep rfl rfl rfl hg.replica (h.log.mono hg) (hrow.1.mono hg)
        (tasks_setTask ?_ fun j => (h.tasks j).mono hg)
      cases compacts with
      | true => exact ht.1.mono hg
      | false => trivial
  | noReplica i hext htask =>
      have ht := h.tasks i
      rw [htask] at ht
      exact h.setTask i ht
  | check i serverCursor htask hcursor =>
      have ht := h.tasks i
      rw [htask] at ht
      refine h.setTask i ⟨ht, ?_⟩
      rcases hcursor with rfl | rfl
      · exact h.stored
      · exact CursorOk.nil σ h
  | verify i now htask =>
      have ht := h.tasks i
      rw [htask] at ht
      exact h.setTask i ⟨ht.1, h.idsOk ht.1 ht.2 now⟩
  | read i htask =>
      have ht := h.tasks i
      rw [htask] at ht
      exact h.setTask i ⟨ht.1, ht.2, h.log⟩
  | trim i marks htask hdropped hmarks => exact h.trim i marks htask
  | abandon i => exact h.setTask i trivial

omit [DecidableEq ι] in
theorem System.Initial.inv (h : σ.Initial) : Inv σ := by
  have hempty : ∀ e, e ∉ σ.history := by
    rw [h.history]
    exact fun _ => List.not_mem_nil
  have hlog : ∀ e, e ∉ σ.log := by
    rw [h.log]
    exact fun _ => List.not_mem_nil
  have hview : ViewOk σ σ.view := by
    refine ⟨le_rfl, fun e he => absurd he (hlog e), ?_, fun e he => absurd he (hempty e)⟩
    show σ.log.Pairwise _
    rw [h.log]
    exact List.Pairwise.nil
  have hstored : CursorOk σ σ.storedCursor := by
    rw [System.storedCursor, h.row]
    exact ⟨Assoc.wf_nil, fun _ => le_rfl,
      fun _ => ⟨Or.inl le_rfl, fun e he => absurd he (hempty e)⟩⟩
  exact ⟨fun e he => absurd he (hempty e), fun e he => absurd he (hempty e),
    fun e he => absurd he (hempty e), fun e he => absurd he (hempty e),
    fun e he => absurd he (hempty e), fun e he => absurd he (hempty e), hview, hstored,
    fun i => by rw [h.tasks i]; trivial⟩

theorem Reach.inv (h : Reach InOrder σ) : Inv σ := by
  induction h with
  | initial hinit => exact hinit.inv
  | step _ hstep horder ih => exact ih.step hstep horder

omit [DecidableEq ι] in
/-- A step that leaves the row, the marks and the log where they were. -/
theorem safe_of_covers (hcovers : σ'.Covers) (hrow : σ'.row = σ.row)
    (hmarks : σ'.compactedThrough = σ.compactedThrough) (hlog : ∀ e ∈ σ.log, e ∈ σ'.log) :
    Safe σ σ' where
  stored := fun site => by rw [System.storedCursor, System.storedCursor, hrow]
  covers := hcovers
  marks := fun site => by rw [hmarks]
  removed := fun e he hne => absurd (hlog e he) hne

/-- As long as devices publish in version order and neither two stores of the
cursor nor two trims overlap: the stored cursor and the compaction marks only
grow, the replica has all that the cursor says, and a batch leaves the log only
when the replica and every device that counts have it. -/
theorem leaves_only_when_everyone_has_it {e : Event ι} (h : Reach InOrder σ)
    (hstep : Step σ e σ') (horder : InOrder σ e) : Safe σ σ' := by
  have hinv := h.inv
  have hcovers : σ'.Covers := by
    intro e he r hr hle
    exact ((hinv.step hstep horder).stored.settled e.batch.siteId).2 e he rfl r hr hle
  cases hstep with
  | publish b pre post hlog hwf hids hown =>
      refine safe_of_covers hcovers rfl rfl ?_
      intro e he
      rw [hlog] at he
      rcases List.mem_append.mp he with he | he
      · exact List.mem_append_left _ he
      · exact List.mem_append_right _ (List.mem_cons_of_mem _ he)
  | store i htask =>
      have ht := hinv.tasks i
      rw [htask] at ht
      have hrow := storedRow_ok (horder _ _ _ _ htask) hinv.stored ht.2.1
      exact ⟨hrow.2, hcovers, fun _ => le_rfl, fun e he hne => absurd he hne⟩
  | @trim i view current now ids marks htask hdropped hmarks =>
      have ht := hinv.tasks i
      rw [htask] at ht
      obtain ⟨hview, hids, hcurrent⟩ := ht
      have hsame := horder _ _ _ _ htask
      have heq : marks = compactionMarks ids current.batches current.compactedThrough := by
        rcases hmarks with heq | ⟨hne, _⟩
        · exact heq
        · exact absurd hsame hne
      obtain ⟨hgrow, hto⟩ := compactionMarks_at ids current.batches current.compactedThrough
      refine ⟨fun _ => le_rfl, hcovers, ?_, ?_⟩
      · intro site
        show _ ≤ marks.at site
        rw [heq, hsame]
        exact hgrow site
      · intro e he hne
        have hdrop : e.item ∈ dropped ids current := by
          by_contra hkeep
          exact hne (List.mem_filter.mpr ⟨he, by simpa using hkeep⟩)
        obtain ⟨hin, hid, hchecked, hrows⟩ :=
          hinv.of_dropped hview hids hcurrent (hinv.log.entries e he).1 hdrop
        refine ⟨hrows, ?_, i, view, now, ids, current, htask, hchecked⟩
        show _ ≤ marks.at _
        rw [heq]
        exact hto e.batch (List.mem_map_of_mem hin) hid
  | setCursor | commit | fetch | load | apply | advanceOwn | find | noReplica | check | verify
  | read | abandon => exact safe_of_covers hcovers rfl rfl fun _ he => he

end Steps

/-! ## Two runs -/

/-- A batch of one change. -/
def oneChange (id : String) (dbVersion : Int) : Batch where
  id := id
  siteId := "c1"
  fromDbVersion := dbVersion - 1
  toDbVersion := dbVersion
  schemaVersion := 1
  changes := [⟨"notes", "AQ==", "body", "1", 1, dbVersion, "c1", 1, 0⟩]
  format := syncFormat

theorem oneChange_wellFormed (id : String) {dbVersion : Int} (h : 0 < dbVersion) :
    WellFormed (oneChange id dbVersion) := by
  refine ⟨h, ?_⟩
  intro r hr
  rw [List.mem_singleton.mp hr]
  exact ⟨h, le_rfl⟩

/-- A server with one pass and no device cursors. -/
def solo (log : List Entry) (row : Option Cursor) (replica : List ChangeRow) (published : Nat)
    (history : List Entry) (t : Task) : System Unit where
  log := log
  cursors := []
  cursorsAt := []
  compactedThrough := []
  row := row
  replica := replica
  tasks := fun _ => t
  serverSite := "5e"
  ext := true
  published := published
  history := history

@[simp] theorem solo_setTask (log : List Entry) (row : Option Cursor) (replica : List ChangeRow)
    (published : Nat) (history : List Entry) (t t' : Task) :
    (solo log row replica published history t).setTask () t' =
      solo log row replica published history t' := by
  have htasks : Function.update (fun _ : Unit => t) () t' = fun _ => t' :=
    funext fun _ => Function.update_self ..
  simp [System.setTask, solo, htasks]

/-- A replication pass up to its compaction, on a replica that has stored
nothing yet. -/
theorem Reach.refresh {cond : System Unit → Event Unit → Prop} (log history : List Entry)
    (published : Nat) (hcond : ∀ σ e, InOrder σ e → cond σ e)
    (h : Reach cond (solo log none [] published history .idle)) :
    Reach cond (solo log (some (applyToReplica (log.map (·.batch)) []).2)
      (applyToReplica (log.map (·.batch)) []).1 published history
      (.stored ⟨log, [], [], [], published⟩)) := by
  set view : DocView := ⟨log, [], [], [], published⟩ with hview
  set result := applyToReplica (log.map (·.batch)) [] with hresult
  have hother : ∀ σ, cond σ .other := fun σ => hcond σ .other trivial
  have hfetch := h.step (.fetch _ () true rfl) (hother _)
  rw [solo_setTask] at hfetch
  have hload := hfetch.step (.load _ () rfl rfl) (hother _)
  rw [solo_setTask] at hload
  have happly := hload.step (.apply _ () rfl) (hother _)
  rw [solo_setTask] at happly
  have happlied : Reach cond (solo log none result.1 published history
      (.applied true view result.2)) := by
    simpa [solo, System.storedCursor, System.view, DocView.batches, ← hresult] using happly
  have hfind := happlied.step (.find _ () rfl) (hother _)
  rw [solo_setTask] at hfind
  have hstore := hfind.step (.store _ () rfl) (hcond _ _ ?_)
  · rw [solo_setTask] at hstore
    exact hstore
  · intro compacts view' cursor existing htask
    injection htask

theorem solo_initial : (solo [] none [] 0 [] .idle).Initial := ⟨rfl, rfl, rfl, rfl, fun _ => rfl⟩

/-- One published batch, merged, stored and trimmed. -/
theorem leaves_only_when_everyone_has_it_one_batch :
    ∃ σ σ' : System Unit, Reach InOrder σ ∧ Step σ (.trim ()) σ' ∧ σ.log.length = 1 ∧
      σ'.log = [] ∧ Safe σ σ' := by
  set b := oneChange "b1" 1 with hb
  have hinit : Reach InOrder (solo [] none [] 0 [] .idle) := Reach.initial solo_initial
  have horder : InOrder (solo [] none [] 0 [] .idle) (.publish b []) :=
    Or.inr ⟨fun e he => (List.not_mem_nil he).elim, fun r _ e he => (List.not_mem_nil he).elim⟩
  have hpublish := hinit.step (.publish _ b [] [] rfl (oneChange_wellFormed "b1" (by decide))
    (fun e he => (List.not_mem_nil he).elim)
    (fun hsite => by simp [hb, oneChange, solo] at hsite)) horder
  have hresult : applyToReplica [b] [] = (b.changes, [("c1", 1)]) := by decide
  have hids : dropIds true [b] [] [] [("c1", 1)] 0 = ["b1"] := by decide
  set view : DocView := ⟨[⟨0, b⟩], [], [], [], 1⟩ with hview
  have hstored := Reach.refresh [⟨0, b⟩] [⟨0, b⟩] 1 (fun _ _ h => h) hpublish
  rw [List.map_cons, List.map_nil, hresult] at hstored
  have hcheck := hstored.step (.check _ () [("c1", 1)] rfl (Or.inl rfl)) trivial
  rw [solo_setTask] at hcheck
  have hverify : Reach InOrder (solo [⟨0, b⟩] (some [("c1", 1)]) b.changes 1 [⟨0, b⟩]
      (.verified view 0 ["b1"])) := by
    have h := hcheck.step (.verify _ () 0 rfl) trivial
    rw [solo_setTask] at h
    exact hids ▸ h
  have hread := hverify.step (.read _ () rfl) trivial
  rw [solo_setTask] at hread
  have htrim : InOrder (solo [⟨0, b⟩] (some [("c1", 1)]) b.changes 1 [⟨0, b⟩]
      (.trimming view 0 ["b1"] view)) (.trim ()) := by
    intro view' now ids current htask
    injection htask with _ _ _ hcurrent
    rw [← hcurrent]
    rfl
  have hstep := Step.trim _ () (compactionMarks ["b1"] view.batches view.compactedThrough)
    (show (solo [⟨0, b⟩] (some [("c1", 1)]) b.changes 1 [⟨0, b⟩]
      (.trimming view 0 ["b1"] view)).tasks () = .trimming view 0 ["b1"] view from rfl)
    (by decide) (Or.inl rfl)
  exact ⟨_, _, hread, hstep, rfl, by decide, leaves_only_when_everyone_has_it hread hstep htrim⟩

/-- The second batch of a site sits in front of the first: the pass moves the
mark to 2 with the second and skips the first, whose change never reaches the
replica. -/
theorem not_leaves_only_when_everyone_has_it :
    ∃ (σ σ' : System Unit) (e : Event Unit), Reach (fun _ _ => True) σ ∧ Step σ e σ' ∧
      ¬ Safe σ σ' := by
  set b1 := oneChange "b1" 1 with hb1
  set b2 := oneChange "b2" 2 with hb2
  have hinit : Reach (fun _ _ => True) (solo [] none [] 0 [] .idle) := Reach.initial solo_initial
  have hfirst := hinit.step (.publish _ b1 [] [] rfl (oneChange_wellFormed "b1" (by decide))
    (fun e he => (List.not_mem_nil he).elim)
    (fun hsite => by simp [hb1, oneChange, solo] at hsite)) trivial
  have hsecond := hfirst.step (.publish _ b2 [] [⟨0, b1⟩] rfl
    (oneChange_wellFormed "b2" (by decide))
    (fun e he heq => by
      rw [List.mem_singleton.mp he] at heq
      simp [hb1, hb2, oneChange] at heq)
    (fun hsite => by simp [hb2, oneChange, solo, System.publish] at hsite)) trivial
  have hstored := Reach.refresh [⟨1, b2⟩, ⟨0, b1⟩] [⟨0, b1⟩, ⟨1, b2⟩] 2 (fun _ _ _ => trivial)
    hsecond
  refine ⟨_, _, _, hstored, .abandon _ (), ?_⟩
  intro hsafe
  have hcovers := hsafe.covers ⟨0, b1⟩ List.mem_cons_self _ List.mem_cons_self (by decide)
  revert hcovers
  decide

end Realtime.PluginDb.Compaction
