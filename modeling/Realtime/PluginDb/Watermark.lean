import Mathlib.Tactic
import Realtime.Lib.Transition
import Realtime.PluginDb.Client

/-!
# The publish watermark

`published` says how far a device has published each of its own sites. It is kept
in the snapshot, and the log it speaks of in a document that may be another one
after a restart or a change of epoch. `catchUp` joins a log: it applies what the log
holds, then clamps the watermarks to it, and publishes from there.

The clamp looks at the largest version the log has of a site, whatever is missing
below it, and a publish pass that started before the clamp still appends after it.
Apart from these two the watermark is sound.
-/

namespace Realtime.PluginDb.Watermark

open Lib

/-! ## The device and its log -/

/-- The batch whose transaction an apply pass waits for. -/
structure Applying where
  batch : Batch
  ownSite : Bool
  applied : Int
  /-- The database was replaced meanwhile. -/
  stale : Bool

/-- A device with the log as far as it has it. -/
structure Device where
  client : Client
  /-- The batches of `sync`. -/
  log : List Batch
  compactedThrough : Cursor
  /-- Every batch `sync` has held: apply passes are queued with what it held then. -/
  seen : List Batch
  applying : Option Applying
  /-- A catch-up is running. -/
  running : Bool
  /-- What a catch-up found in the log when it registered its observers. -/
  initialBatches : Option (List Batch)
  /-- The watermarks have been clamped to this log. -/
  clamped : Bool

/-- `inLog` of `reconcilePublished`. -/
def inLog (batches : List Batch) : Cursor :=
  batches.foldl (fun c b => Assoc.set b.siteId (max (c.at b.siteId) b.toDbVersion) c) []

/-- `durable` of `reconcilePublished`. -/
def durable (batches : List Batch) (compacted : Cursor) (site : Site) : Int :=
  max (compacted.at site) ((inLog batches).at site)

def reconcilePublished (c : Client) (batches : List Batch) (compacted : Cursor) : Client :=
  { c with
    published := c.published.map fun e => (e.1, min e.2 (durable batches compacted e.1)) }

/-- The bookkeeping after the transaction of a batch. -/
def finishApply (c : Client) (a : Applying) : Client :=
  Client.mark
    (if a.ownSite then
      { c with
        published := Assoc.set a.batch.siteId (max a.applied a.batch.toDbVersion) c.published }
    else { c with cursor := Assoc.set a.batch.siteId a.batch.toDbVersion c.cursor })
    a.batch.id

/-! ## Runs -/

/-- What cr-sqlite promises of a database. -/
structure DbOk (d : Db) : Prop where
  nonneg : 0 ≤ d.dbVersion
  pos : ∀ r ∈ d.changes, 0 < r.dbVersion
  own : ∀ r ∈ d.changes, r.siteId = d.siteId → r.dbVersion ≤ d.dbVersion

/-- A batch as devices publish them: with rows of its site up to its end. Under the
current site of a device only the device itself publishes. -/
structure Genuine (d : Db) (b : Batch) : Prop where
  rows : ∀ r ∈ b.changes, r.siteId = b.siteId ∧ 0 < r.dbVersion ∧ r.dbVersion ≤ b.toDbVersion
  own : b.siteId = d.siteId → b.toDbVersion ≤ d.dbVersion

/-- A device that was just opened, on any snapshot and any log, under a new site id. -/
structure Device.Opened (d : Device) : Prop where
  db : DbOk d.client.db
  site : d.client.db.siteId ∉ Assoc.keys d.client.published
  reads : d.client.reads = []
  log : ∀ b ∈ d.log, Genuine d.client.db b
  seen : d.seen = d.log
  applying : d.applying = none
  running : d.running = true
  initialBatches : d.initialBatches = none
  clamped : d.clamped = false

/-- What happens between two awaits; `replaceTransport` is a reconnection to another log. -/
inductive Event where
  | write
  | read (site : Site)
  | publish (read : Read)
  | arrive (batches : List Batch)
  | compact
  | startApply (b : Batch)
  | endApply
  | failApply
  | rebase
  | replaceTransport
  | observe
  | clampRetired
  | clamp
  | finish
  | fail
  | restart

/-- One step between two awaits. -/
inductive Step : Device → Event → Device → Prop
  | write (d : Device) (db' : Db) (hcommit : d.client.db.Commits db') :
      Step d .write { d with client := { d.client with db := db' } }
  | read (d : Device) (site : Site) (hsite : site ∈ d.client.ownSites) :
      Step d (.read site) { d with client := d.client.readOwn site }
  /-- The passes of a retired log or a replaced database have left `reads`. -/
  | publish (d : Device) (read : Read) (makeBatchId : Nat → String)
      (hread : read ∈ d.client.reads) :
      Step d (.publish read)
        { d with
          client := d.client.publishNow makeBatchId read
          log := d.log ++ d.client.publishedBatches makeBatchId read
          seen := d.seen ++ d.client.publishedBatches makeBatchId read }
  | arrive (d : Device) (batches : List Batch)
      (hbatches : ∀ b ∈ batches, Genuine d.client.db b) :
      Step d (.arrive batches) { d with log := d.log ++ batches, seen := d.seen ++ batches }
  /-- The server trims what everyone has. -/
  | compact (d : Device) (log : List Batch) (compactedThrough : Cursor)
      (hsub : ∀ b ∈ log, b ∈ d.log)
      (hgrow : ∀ site, d.compactedThrough.at site ≤ compactedThrough.at site)
      (hdropped : ∀ b ∈ d.log, b ∈ log ∨ b.toDbVersion ≤ compactedThrough.at b.siteId) :
      Step d .compact { d with log := log, compactedThrough := compactedThrough }
  /-- Until the clamp, passes that were queued on a retired log still run. -/
  | startApply (d : Device) (b : Batch) (hidle : d.applying = none)
      (hseen : d.clamped = true → b ∈ d.seen) (hgenuine : Genuine d.client.db b)
      (hid : b.id ∉ d.client.appliedBatchIds) (hto : d.client.applied b.siteId < b.toDbVersion)
      (hformat : b.format = syncFormat) (hschema : b.schemaVersion ≤ d.client.schemaVersion)
      (hfrom : b.fromDbVersion ≤ d.client.applied b.siteId) :
      Step d (.startApply b)
        { d with
          applying := some ⟨b, d.client.ownSite b.siteId, d.client.applied b.siteId, false⟩ }
  | endApply (d : Device) (a : Applying) (db' : Db) (happlying : d.applying = some a)
      (hmerge : if a.stale then db' = d.client.db else d.client.db.Merges a.batch.changes db') :
      Step d .endApply
        { d with
          client := finishApply { d.client with db := db' } a
          applying := none }
  | failApply (d : Device) : Step d .failApply { d with applying := none }
  /-- The database is replaced by one built from the server's replica. -/
  | rebase (d : Device) (db' : Db) (cursor : Cursor) (hdb : DbOk db')
      (hsite : ∀ b ∈ d.seen, b.siteId ≠ db'.siteId) :
      Step d .rebase
        { d with
          client := { d.client with
            db := db'
            cursor := cursor
            published := []
            appliedBatchIds := []
            bufferedBatches := []
            reads := [] }
          applying := d.applying.map fun a => { a with stale := true } }
  | replaceTransport (d : Device) (log : List Batch) (compactedThrough : Cursor)
      (hlog : ∀ b ∈ log, Genuine d.client.db b) :
      Step d .replaceTransport
        { d with
          client := { d.client with reads := [] }
          log := log
          compactedThrough := compactedThrough
          seen := log
          running := true
          initialBatches := none
          clamped := false }
  | observe (d : Device) (hrunning : d.running = true) (hclamped : d.clamped = false) :
      Step d .observe { d with initialBatches := some d.log }
  /-- A catch-up whose log was retired under it still clamps. -/
  | clampRetired (d : Device) (batches : List Batch) (hrunning : d.running = true)
      (hclamped : d.clamped = false) :
      Step d .clampRetired
        { d with client := reconcilePublished d.client batches d.compactedThrough }
  /-- The clamp comes right behind the catch-up's own apply pass, so none is running. -/
  | clamp (d : Device) (batches : List Batch) (hrunning : d.running = true)
      (hclamped : d.clamped = false) (hobserved : d.initialBatches = some batches)
      (hidle : d.applying = none) :
      Step d .clamp
        { d with
          client := reconcilePublished d.client batches d.compactedThrough
          clamped := true }
  | finish (d : Device) (hclamped : d.clamped = true) : Step d .finish { d with running := false }
  /-- The catch-up throws. -/
  | fail (d : Device) : Step d .fail { d with running := false }
  | restart (d d' : Device) (hopened : d'.Opened) : Step d .restart d'

/-! ## Soundness -/

/-- Versions of a site that its batches in the log reach from `compactedThrough`
without a gap. -/
def Reaches (d : Device) (site : Site) (v : Int) : Prop :=
  Joined Batch.fromDbVersion Batch.toDbVersion (max 0 (d.compactedThrough.at site))
    (siteBatches d.log site) v

/-- The change is compacted, or in a batch of a gap-free chain. -/
def InLog (d : Device) (r : ChangeRow) : Prop :=
  r.dbVersion ≤ d.compactedThrough.at r.siteId ∨
    ∃ b ∈ d.log, b.siteId = r.siteId ∧ r ∈ b.changes ∧ Reaches d r.siteId b.fromDbVersion

/-- The watermark of every own site is sound. -/
def Device.Sound (d : Device) : Prop :=
  ∀ site v, Assoc.get site d.client.published = some v →
    ∀ r ∈ d.client.db.changes, r.siteId = site → r.dbVersion ≤ v → InLog d r

/-- The batch carries the local rows of the versions it spans. -/
def Carries (d : Device) (b : Batch) : Prop :=
  ∀ r ∈ d.client.db.changes, r.siteId = b.siteId → b.fromDbVersion < r.dbVersion →
    r.dbVersion ≤ b.toDbVersion → r ∈ b.changes

/-- The pass asked for rows from at or below the mark on, and got all of them. -/
def Waits (d : Device) (mark : Int) (read : Read) : Prop :=
  read.since ≤ mark ∧
    ∀ r ∈ d.client.db.changes, r.siteId = read.site → mark < r.dbVersion →
      r.dbVersion ≤ Client.lastVersion read.rows → r ∈ read.rows

/-- When a catch-up clamps, the log it found has no gap in the batches of an own
site, these carry the local rows, and a publish pass that waits for its rows did not
start past the clamp. -/
structure Clampable (d : Device) (batches : List Batch) : Prop where
  gapFree : ∀ b ∈ batches, d.client.ownSite b.siteId → Reaches d b.siteId b.fromDbVersion
  carries : ∀ b ∈ d.log, d.client.ownSite b.siteId → Carries d b
  reads : ∀ read ∈ d.client.reads,
    Waits d (durable batches d.compactedThrough read.site) read

/-- The condition on a step. -/
def cond (d : Device) : Event → Prop
  | .clamp => ∀ batches, d.initialBatches = some batches → Clampable d batches
  | .arrive batches => ∀ b ∈ batches, d.client.ownSite b.siteId → Carries d b
  | .rebase => d.applying = none
  | .fail => d.clamped = true
  | _ => True

/-! ## Chains in a log that changes -/

/-- The log of `d'` has what that of `d` has, or it was compacted. -/
structure Keeps (d d' : Device) : Prop where
  compacted : ∀ site, d.compactedThrough.at site ≤ d'.compactedThrough.at site
  log : ∀ b ∈ d.log, b ∈ d'.log ∨ b.toDbVersion ≤ d'.compactedThrough.at b.siteId

section Keeps

variable {d d' : Device} {site : Site} {v : Int} {r : ChangeRow}

theorem Keeps.of_subset (hcompacted : d'.compactedThrough = d.compactedThrough)
    (hlog : ∀ b ∈ d.log, b ∈ d'.log) : Keeps d d' :=
  ⟨fun _ => by rw [hcompacted], fun b hb => .inl (hlog b hb)⟩

theorem Keeps.reaches (h : Keeps d d') (hreaches : Reaches d site v) : Reaches d' site v := by
  refine Joined.trim hreaches (max_le_max_left 0 (h.compacted site)) fun b hb => ?_
  obtain ⟨hmem, hsite⟩ := mem_siteBatches.mp hb
  rcases h.log b hmem with hmem | hle
  · exact .inl (mem_siteBatches.mpr ⟨hmem, hsite⟩)
  · exact .inr (le_max_of_le_right (hsite ▸ hle))

theorem Keeps.inLog (h : Keeps d d') (hrows : ∀ b ∈ d.log, ∀ r ∈ b.changes,
    r.dbVersion ≤ b.toDbVersion) (hr : InLog d r) : InLog d' r := by
  rcases hr with hle | ⟨b, hb, hsite, hmem, hreaches⟩
  · exact .inl (hle.trans (h.compacted _))
  · rcases h.log b hb with hb' | hle
    · exact .inr ⟨b, hb', hsite, hmem, h.reaches hreaches⟩
    · exact .inl ((hrows b hb r hmem).trans (hsite ▸ hle))

/-- The end of a batch that starts in a chain. -/
theorem Reaches.upper {b : Batch} (hb : b ∈ d.log) (h : Reaches d b.siteId b.fromDbVersion) :
    Reaches d b.siteId b.toDbVersion :=
  .link (mem_siteBatches.mpr ⟨hb, rfl⟩) h le_rfl

/-- A local row that a chain reaches is in it, if its batches carry the local rows. -/
theorem Reaches.inLog (h : Reaches d site v) (hcarries : ∀ b ∈ d.log, b.siteId = site →
    Carries d b) (hr : r ∈ d.client.db.changes) (hsite : r.siteId = site)
    (hpos : 0 < r.dbVersion) (hle : r.dbVersion ≤ v) : InLog d r := by
  subst hsite
  rcases Joined.inside h hle with hbase | ⟨b, hb, hlo, hlt, hhi⟩
  · refine .inl ?_
    rcases le_max_iff.mp hbase with hbase | hbase
    · omega
    · exact hbase
  · obtain ⟨hb, hsite⟩ := mem_siteBatches.mp hb
    exact .inr ⟨b, hb, hsite, hcarries b hb hsite r hr hsite.symm hlt hhi, hlo⟩

end Keeps

/-! ## What holds in every state -/

/-- The rows of a publish pass. -/
structure ReadOk (c : Client) (read : Read) : Prop where
  own : c.ownSite read.site = true
  sorted : read.rows.Pairwise fun r r' => r.dbVersion ≤ r'.dbVersion
  rows : ∀ r ∈ read.rows, r.siteId = read.site ∧ 0 < r.dbVersion ∧ read.since < r.dbVersion
  current : read.site = c.db.siteId → ∀ r ∈ read.rows, r.dbVersion ≤ c.db.dbVersion
  since : read.site = c.db.siteId → read.since ≤ c.db.dbVersion

structure ApplyOk (c : Client) (a : Applying) : Prop where
  fresh : a.stale = false
  genuine : Genuine c.db a.batch
  start : a.batch.fromDbVersion ≤ a.applied
  stop : a.applied < a.batch.toDbVersion
  own : a.ownSite = c.ownSite a.batch.siteId

/-- What needs no clamp: rows, reads and the running apply are genuine. -/
structure Base (d : Device) : Prop where
  db : DbOk d.client.db
  current : d.client.published.at d.client.db.siteId ≤ d.client.db.dbVersion
  log : ∀ b ∈ d.log, b ∈ d.seen
  seen : ∀ b ∈ d.seen, Genuine d.client.db b ∧
    (b ∈ d.log ∨ b.toDbVersion ≤ d.compactedThrough.at b.siteId)
  initial : ∀ batches, d.initialBatches = some batches → ∀ b ∈ batches, b ∈ d.seen
  reads : ∀ read ∈ d.client.reads, ReadOk d.client read
  applying : ∀ a, d.applying = some a → ApplyOk d.client a

/-- Up to `v` the batches of the site reach, and the local rows are in the log. -/
structure SoundTo (d : Device) (site : Site) (v : Int) : Prop where
  reaches : Reaches d site v
  rows : ∀ r ∈ d.client.db.changes, r.siteId = site → r.dbVersion ≤ v → InLog d r

/-- What holds from the clamp on. -/
structure Tight (d : Device) : Prop where
  published : ∀ site, d.client.ownSite site → SoundTo d site (d.client.published.at site)
  carried : ∀ b ∈ d.log, d.client.ownSite b.siteId → ∀ r ∈ d.client.db.changes,
    r.siteId = b.siteId → b.fromDbVersion < r.dbVersion → r.dbVersion ≤ b.toDbVersion →
    r ∈ b.changes ∨ InLog d r
  reads : ∀ read ∈ d.client.reads, SoundTo d read.site read.since ∧
    ∀ r ∈ d.client.db.changes, r.siteId = read.site →
      r.dbVersion ≤ Client.lastVersion read.rows → r ∈ read.rows ∨ InLog d r
  applying : ∀ a, d.applying = some a → a.batch ∈ d.seen ∧
    (a.ownSite → SoundTo d a.batch.siteId a.applied)

structure Inv (d : Device) : Prop where
  base : Base d
  tight : d.clamped = true → Tight d
  clamped : d.running = false → d.clamped = true

theorem Base.log_rows {d : Device} (h : Base d) :
    ∀ b ∈ d.log, ∀ r ∈ b.changes, r.dbVersion ≤ b.toDbVersion :=
  fun b hb r hr => ((h.seen b (h.log b hb)).1.rows r hr).2.2

/-- A watermark stays sound if the log keeps what it has and a row that is new below
it is in the log. -/
theorem SoundTo.transfer {d d' : Device} {site : Site} {v : Int} (h : SoundTo d site v)
    (hbase : Base d) (hkeeps : Keeps d d') (hrows : ∀ r ∈ d'.client.db.changes,
      r.siteId = site → r.dbVersion ≤ v → r ∈ d.client.db.changes ∨ InLog d' r) :
    SoundTo d' site v where
  reaches := hkeeps.reaches h.reaches
  rows := by
    intro r hr hsite hle
    rcases hrows r hr hsite hle with hr | hr
    · exact hkeeps.inLog hbase.log_rows (h.rows r hr hsite hle)
    · exact hr

/-! ## The batches of a publish pass -/

theorem le_lastVersion {rows : List ChangeRow} {r : ChangeRow}
    (hsorted : rows.Pairwise fun r r' => r.dbVersion ≤ r'.dbVersion) (hr : r ∈ rows) :
    r.dbVersion ≤ Client.lastVersion rows := by
  have hne : rows ≠ [] := List.ne_nil_of_mem hr
  have hlast : Client.lastVersion rows = (rows.getLast hne).dbVersion := by
    simp [Client.lastVersion, List.getLast?_eq_some_getLast hne]
  rw [hlast]
  obtain ⟨front, hrows⟩ : ∃ front, rows = front ++ [rows.getLast hne] :=
    ⟨_, (List.dropLast_append_getLast hne).symm⟩
  rw [hrows] at hr hsorted
  rcases List.mem_append.mp hr with hr | hr
  · exact (List.pairwise_append.mp hsorted).2.2 r hr _ List.mem_cons_self
  · rw [List.mem_singleton.mp hr]

/-- Each batch starts where the one before it ended. -/
theorem joined_batchesOf {site : Site} {schemaVersion since : Int} {makeBatchId : Nat → String}
    {chunks : List (List ChangeRow)} {w : Int} {bs : List Batch}
    (hsub : ∀ b ∈ Client.batchesOf site schemaVersion makeBatchId since chunks, b ∈ bs)
    (hsince : Joined Batch.fromDbVersion Batch.toDbVersion w bs since) :
    ∀ changes ∈ chunks,
      ∃ b ∈ Client.batchesOf site schemaVersion makeBatchId since chunks, b.changes = changes ∧
        b.toDbVersion = Client.lastVersion changes ∧
        Joined Batch.fromDbVersion Batch.toDbVersion w bs b.fromDbVersion := by
  induction chunks generalizing since makeBatchId with
  | nil => exact fun changes h => (List.not_mem_nil h).elim
  | cons first chunks ih =>
      intro changes hchanges
      rcases List.mem_cons.mp hchanges with rfl | hchanges
      · exact ⟨_, List.mem_cons_self, rfl, rfl, hsince⟩
      · obtain ⟨b, hb, hspec⟩ := ih (fun b hb => hsub b (List.mem_cons_of_mem _ hb))
          (.link (hsub _ List.mem_cons_self) hsince le_rfl) changes hchanges
        exact ⟨b, List.mem_cons_of_mem _ hb, hspec⟩

theorem toDbVersion_of_mem_batchesOf {site : Site} {schemaVersion since : Int}
    {makeBatchId : Nat → String} {chunks : List (List ChangeRow)} {b : Batch}
    (hb : b ∈ Client.batchesOf site schemaVersion makeBatchId since chunks) :
    b.toDbVersion = Client.lastVersion b.changes := by
  induction chunks generalizing since makeBatchId with
  | nil => exact (List.not_mem_nil hb).elim
  | cons first chunks ih =>
      rcases List.mem_cons.mp hb with rfl | hb
      · rfl
      · exact ih hb

theorem mem_chunk {rows : List ChangeRow} {r : ChangeRow} (hr : r ∈ rows) :
    ∃ changes ∈ Client.chunkRows [] rows, r ∈ changes := by
  rw [← List.mem_flatten, Client.flatten_chunkRows, List.nil_append]
  exact hr

theorem mem_of_mem_chunk {rows changes : List ChangeRow} {r : ChangeRow}
    (hchanges : changes ∈ Client.chunkRows [] rows) (hr : r ∈ changes) : r ∈ rows := by
  have hmem : r ∈ (Client.chunkRows [] rows).flatten := List.mem_flatten.mpr ⟨_, hchanges, hr⟩
  rwa [Client.flatten_chunkRows, List.nil_append] at hmem

theorem sorted_chunk {rows changes : List ChangeRow}
    (hsorted : rows.Pairwise fun r r' => r.dbVersion ≤ r'.dbVersion)
    (hchanges : changes ∈ Client.chunkRows [] rows) :
    changes.Pairwise fun r r' => r.dbVersion ≤ r'.dbVersion := by
  have hflat : (Client.chunkRows [] rows).flatten.Pairwise
      fun r r' => r.dbVersion ≤ r'.dbVersion := by
    rwa [Client.flatten_chunkRows, List.nil_append]
  exact (List.pairwise_flatten.mp hflat).1 changes hchanges

/-- Where the watermarks are after the bookkeeping of a pass. -/
theorem at_foldl_batchesOf (site s : Site) (schemaVersion since : Int)
    (makeBatchId : Nat → String) (chunks : List (List ChangeRow)) (published : Cursor) :
    Cursor.at ((Client.batchesOf site schemaVersion makeBatchId since chunks).foldl
      (fun p b => Assoc.set b.siteId b.toDbVersion p) published) s = published.at s ∨
    (s = site ∧ ∃ changes ∈ chunks,
      Cursor.at ((Client.batchesOf site schemaVersion makeBatchId since chunks).foldl
        (fun p b => Assoc.set b.siteId b.toDbVersion p) published) s =
        Client.lastVersion changes) := by
  induction chunks generalizing since makeBatchId published with
  | nil => exact .inl rfl
  | cons first chunks ih =>
      rw [Client.batchesOf, List.foldl_cons]
      rcases ih (Client.lastVersion first) (fun n => makeBatchId (n + 1))
        (Assoc.set site (Client.lastVersion first) published) with heq | ⟨hs, changes, hmem, heq⟩
      · rw [heq, Cursor.at_set]
        split
        · next hs => exact .inr ⟨hs, first, List.mem_cons_self, rfl⟩
        · exact .inl rfl
      · exact .inr ⟨hs, changes, List.mem_cons_of_mem _ hmem, heq⟩

theorem isSome_foldl_batchesOf {site s : Site} {schemaVersion since : Int}
    {makeBatchId : Nat → String} {chunks : List (List ChangeRow)} {published : Cursor} :
    (Assoc.get s ((Client.batchesOf site schemaVersion makeBatchId since chunks).foldl
      (fun p b => Assoc.set b.siteId b.toDbVersion p) published)).isSome →
    s = site ∨ (Assoc.get s published).isSome := by
  induction chunks generalizing since makeBatchId published with
  | nil => exact .inr
  | cons first chunks ih =>
      intro h
      rw [Client.batchesOf, List.foldl_cons] at h
      rcases ih h with hs | hs
      · exact .inl hs
      · rw [Assoc.get_set] at hs
        split at hs
        · next heq => exact .inl heq.symm
        · exact .inr hs

theorem isSome_foldl_of_isSome {s : Site} {batches : List Batch} {published : Cursor}
    (h : (Assoc.get s published).isSome) :
    (Assoc.get s (batches.foldl (fun p b => Assoc.set b.siteId b.toDbVersion p)
      published)).isSome := by
  induction batches generalizing published with
  | nil => exact h
  | cons b batches ih =>
      refine ih ?_
      rw [Assoc.get_set]
      split
      · rfl
      · exact h

/-! ## Own sites stay own -/

section Own

variable {c : Client} {site : Site}

theorem ownSite_iff :
    c.ownSite site = true ↔ site = c.db.siteId ∨ (Assoc.get site c.published).isSome := by
  simp [Client.ownSite]

theorem ownSite_publishNow {read : Read} {makeBatchId : Nat → String}
    (hown : c.ownSite read.site = true) :
    (c.publishNow makeBatchId read).ownSite site = true ↔ c.ownSite site = true := by
  rw [ownSite_iff, ownSite_iff]
  constructor
  · rintro (hsite | hsome)
    · exact .inl hsite
    · rcases isSome_foldl_batchesOf hsome with hsite | hsome
      · rw [hsite]
        exact ownSite_iff.mp hown
      · exact .inr hsome
  · rintro (hsite | hsome)
    · exact .inl hsite
    · exact .inr (isSome_foldl_of_isSome hsome)

theorem ownSite_finishApply {a : Applying} (hown : a.ownSite = c.ownSite a.batch.siteId) :
    (finishApply c a).ownSite site = true ↔ c.ownSite site = true := by
  unfold finishApply
  cases ha : a.ownSite with
  | false => exact Iff.rfl
  | true =>
      rw [ha] at hown
      rw [ownSite_iff, ownSite_iff]
      simp only [Client.mark, if_true]
      rw [Assoc.get_set]
      by_cases hsite : a.batch.siteId = site
      · rw [if_pos hsite]
        rw [hsite] at hown
        exact ⟨fun _ => ownSite_iff.mp hown.symm, fun _ => .inr rfl⟩
      · rw [if_neg hsite]

theorem ownSite_reconcilePublished {batches : List Batch} {compacted : Cursor} :
    (reconcilePublished c batches compacted).ownSite site = true ↔ c.ownSite site = true := by
  unfold Client.ownSite reconcilePublished
  rw [Assoc.get_mapEntries fun s v => min v (durable batches compacted s), Option.isSome_map]

theorem mem_ownSites : site ∈ c.ownSites ↔ c.ownSite site = true := by
  rw [ownSite_iff, Client.ownSites, List.mem_cons, Assoc.get_isSome_iff]

end Own

/-! ## Each step keeps the base -/

section Base

variable {d : Device}

theorem Genuine.mono {db db' : Db} {b : Batch} (h : Genuine db b)
    (hsite : db'.siteId = db.siteId) (hle : db.dbVersion ≤ db'.dbVersion) : Genuine db' b :=
  ⟨h.rows, fun hown => (h.own (hown.trans hsite)).trans hle⟩

/-- The database moves on under its site id. -/
theorem Base.setDb (h : Base d) {db' : Db} (hok : DbOk db')
    (hsite : db'.siteId = d.client.db.siteId) (hle : d.client.db.dbVersion ≤ db'.dbVersion) :
    Base { d with client := { d.client with db := db' } } := by
  have hown : ∀ site, ({ d.client with db := db' } : Client).ownSite site =
      d.client.ownSite site := by
    intro site
    simp only [Client.ownSite, hsite]
  refine ⟨hok, ?_, h.log, fun b hb => ?_, h.initial, fun read hread => ?_, fun a ha => ?_⟩
  · show d.client.published.at db'.siteId ≤ db'.dbVersion
    rw [hsite]
    exact h.current.trans hle
  · exact ⟨(h.seen b hb).1.mono hsite hle, (h.seen b hb).2⟩
  · have hread := h.reads read hread
    exact ⟨(hown _).trans hread.own, hread.sorted, hread.rows,
      fun hs r hr => (hread.current (hs.trans hsite) r hr).trans hle,
      fun hs => (hread.since (hs.trans hsite)).trans hle⟩
  · have ha := h.applying a ha
    exact ⟨ha.fresh, ha.genuine.mono hsite hle, ha.start, ha.stop, ha.own.trans (hown _).symm⟩

theorem DbOk.commits {db db' : Db} (h : DbOk db) (hcommit : db.Commits db') : DbOk db' := by
  have hversion := hcommit.dbVersion
  have hnonneg := h.nonneg
  refine ⟨by omega, fun r hr => ?_, fun r hr hsite => ?_⟩
  · rcases hcommit.changes r hr with hr | ⟨_, hr⟩
    · exact h.pos r hr
    · omega
  · rcases hcommit.changes r hr with hr | ⟨_, hr⟩
    · have hle := h.own r hr (hsite.trans hcommit.siteId)
      omega
    · omega

theorem DbOk.merges {db db' : Db} {b : Batch} (h : DbOk db) (hb : Genuine db b)
    (hmerge : db.Merges b.changes db') : DbOk db' := by
  have hversion := hmerge.dbVersion
  have hnonneg := h.nonneg
  refine ⟨by omega, fun r hr => ?_, fun r hr hsite => ?_⟩
  · rcases hmerge.changes r hr with hr | hr
    · exact h.pos r hr
    · exact (hb.rows r hr).2.1
  · have hsite := hsite.trans hmerge.siteId
    rcases hmerge.changes r hr with hr | hr
    · have hle := h.own r hr hsite
      omega
    · obtain ⟨hrsite, _, hto⟩ := hb.rows r hr
      have hle := hb.own (hrsite.symm.trans hsite)
      omega

theorem ReadOk.congr {c c' : Client} {read : Read} (h : ReadOk c read) (hdb : c'.db = c.db)
    (hown : ∀ site, c'.ownSite site = true ↔ c.ownSite site = true) : ReadOk c' read :=
  ⟨(hown _).mpr h.own, h.sorted, h.rows, by rw [hdb]; exact h.current, by
    rw [hdb]
    exact h.since⟩

theorem ApplyOk.congr {c c' : Client} {a : Applying} (h : ApplyOk c a) (hdb : c'.db = c.db)
    (hown : ∀ site, c'.ownSite site = true ↔ c.ownSite site = true) : ApplyOk c' a :=
  ⟨h.fresh, by rw [hdb]; exact h.genuine, h.start, h.stop,
    h.own.trans (Bool.eq_iff_iff.mpr (hown _)).symm⟩

/-- The bookkeeping changes. -/
theorem Base.setClient (h : Base d) {c : Client} (hdb : c.db = d.client.db)
    (hown : ∀ site, c.ownSite site = true ↔ d.client.ownSite site = true)
    (hcurrent : c.published.at d.client.db.siteId ≤ d.client.db.dbVersion)
    (hreads : ∀ read ∈ c.reads, read ∈ d.client.reads ∨ ReadOk c read) :
    Base { d with client := c } := by
  refine ⟨?_, ?_, h.log, ?_, h.initial, fun read hread => ?_, fun a ha => ?_⟩
  · show DbOk c.db
    rw [hdb]
    exact h.db
  · show c.published.at c.db.siteId ≤ c.db.dbVersion
    rw [hdb]
    exact hcurrent
  · show ∀ b ∈ d.seen, Genuine c.db b ∧ _
    rw [hdb]
    exact h.seen
  · rcases hreads read hread with hread | hread
    · exact (h.reads read hread).congr hdb hown
    · exact hread
  · exact (h.applying a ha).congr hdb hown

theorem Base.read (h : Base d) {site : Site} (hsite : site ∈ d.client.ownSites) :
    Base { d with client := d.client.readOwn site } := by
  refine h.setClient rfl (fun _ => Iff.rfl) h.current fun read hread => ?_
  rcases List.mem_append.mp hread with hread | hread
  · exact .inl hread
  · obtain rfl := List.mem_singleton.mp hread
    refine .inr ⟨mem_ownSites.mp hsite, pairwise_readChangesForSite _ _ _, fun r hr => ?_,
      fun hs r hr => ?_, fun hs => ?_⟩
    · obtain ⟨hr, hrsite, hsince⟩ := mem_readChangesForSite.mp hr
      exact ⟨hrsite, h.db.pos r hr, hsince⟩
    · obtain ⟨hr, hrsite, _⟩ := mem_readChangesForSite.mp hr
      exact h.db.own r hr (hrsite.trans hs)
    · have hs : site = d.client.db.siteId := hs
      show d.client.published.at site ≤ d.client.db.dbVersion
      rw [hs]
      exact h.current

/-- What `publishNow` appends. -/
theorem ReadOk.genuine {c : Client} {read : Read} (h : ReadOk c read)
    {makeBatchId : Nat → String} {b : Batch} (hb : b ∈ c.publishedBatches makeBatchId read) :
    b.siteId = read.site ∧ b.toDbVersion = Client.lastVersion b.changes ∧
      b.changes ∈ Client.chunkRows [] read.rows ∧ Genuine c.db b := by
  obtain ⟨hsite, _, hchunk⟩ := Client.siteId_of_mem_batchesOf hb
  have hto : b.toDbVersion = Client.lastVersion b.changes := toDbVersion_of_mem_batchesOf hb
  refine ⟨hsite, hto, hchunk, ⟨fun r hr => ?_, fun hown => ?_⟩⟩
  · obtain ⟨hrsite, hpos, _⟩ := h.rows r (mem_of_mem_chunk hchunk hr)
    refine ⟨hrsite.trans hsite.symm, hpos, ?_⟩
    rw [hto]
    exact le_lastVersion (sorted_chunk h.sorted hchunk) hr
  · obtain ⟨r, hr, hlast⟩ := Client.lastVersion_mem (Client.chunkRows_ne_nil [] _ _ hchunk)
    rw [hto, ← hlast]
    exact h.current (hsite.symm.trans hown) r (mem_of_mem_chunk hchunk hr)

theorem Base.addLog (h : Base d) {batches : List Batch}
    (hbatches : ∀ b ∈ batches, Genuine d.client.db b) :
    Base { d with log := d.log ++ batches, seen := d.seen ++ batches } := by
  refine ⟨h.db, h.current, fun b hb => ?_, fun b hb => ?_, fun bs hbs b hb => ?_, h.reads,
    h.applying⟩
  · rcases List.mem_append.mp hb with hb | hb
    · exact List.mem_append_left _ (h.log b hb)
    · exact List.mem_append_right _ hb
  · rcases List.mem_append.mp hb with hb | hb
    · exact ⟨(h.seen b hb).1, (h.seen b hb).2.imp_left (List.mem_append_left _)⟩
    · exact ⟨hbatches b hb, .inl (List.mem_append_right _ hb)⟩
  · exact List.mem_append_left _ (h.initial bs hbs b hb)

/-- The watermark of a site after `publishNow`: as before, or at a row it published. -/
theorem at_publishNow (c : Client) (makeBatchId : Nat → String) (read : Read) (site : Site) :
    (c.publishNow makeBatchId read).published.at site = c.published.at site ∨
      (site = read.site ∧ ∃ r ∈ read.rows,
        (c.publishNow makeBatchId read).published.at site = r.dbVersion) := by
  rcases at_foldl_batchesOf read.site site c.schemaVersion read.since makeBatchId
    (Client.chunkRows [] read.rows) c.published with heq | ⟨hsite, changes, hchunk, heq⟩
  · exact .inl heq
  · obtain ⟨r, hr, hlast⟩ := Client.lastVersion_mem (Client.chunkRows_ne_nil [] _ _ hchunk)
    exact .inr ⟨hsite, r, mem_of_mem_chunk hchunk hr, heq.trans hlast.symm⟩

theorem Base.publish (h : Base d) {read : Read} (makeBatchId : Nat → String)
    (hread : read ∈ d.client.reads) :
    Base
      { d with
        client := d.client.publishNow makeBatchId read
        log := d.log ++ d.client.publishedBatches makeBatchId read
        seen := d.seen ++ d.client.publishedBatches makeBatchId read } := by
  have hok := h.reads read hread
  refine (h.addLog fun b hb => (hok.genuine hb).2.2.2).setClient rfl
    (fun _ => ownSite_publishNow hok.own) ?_ fun read' hread' => .inl (List.mem_of_mem_erase hread')
  rcases at_publishNow d.client makeBatchId read d.client.db.siteId with heq | ⟨hsite, r, hr, heq⟩
  · rw [heq]
    exact h.current
  · rw [heq]
    exact hok.current hsite.symm r hr

theorem Base.reconcile (h : Base d) (batches : List Batch) (compacted : Cursor) :
    Base { d with client := reconcilePublished d.client batches compacted } := by
  refine h.setClient rfl (fun _ => ownSite_reconcilePublished) ?_ fun _ hread => .inl hread
  refine le_trans ?_ h.current
  unfold Cursor.at
  simp only [reconcilePublished]
  rw [Assoc.get_mapEntries fun s v => min v (durable batches compacted s)]
  cases Assoc.get d.client.db.siteId d.client.published with
  | none => exact le_rfl
  | some v => exact min_le_left _ _

theorem Base.setApplying (h : Base d) {applying : Option Applying}
    (happlying : ∀ a, applying = some a → ApplyOk d.client a) :
    Base { d with applying := applying } :=
  ⟨h.db, h.current, h.log, h.seen, h.initial, h.reads, happlying⟩

theorem Base.finishApply (h : Base d) {a : Applying} (ha : d.applying = some a) :
    Base { d with client := Watermark.finishApply d.client a, applying := none } := by
  have hok := h.applying a ha
  have hclear : Base { d with applying := none } := h.setApplying nofun
  have hdb : (Watermark.finishApply d.client a).db = d.client.db := by
    unfold Watermark.finishApply
    split <;> rfl
  have hreads : (Watermark.finishApply d.client a).reads = d.client.reads := by
    unfold Watermark.finishApply
    split <;> rfl
  refine hclear.setClient hdb (fun _ => ownSite_finishApply hok.own) ?_
    fun read hread => .inl (hreads ▸ hread)
  unfold Watermark.finishApply
  split
  · show Cursor.at (Assoc.set _ _ _) _ ≤ _
    rw [Cursor.at_set]
    split
    · next hsite =>
      rw [max_eq_right hok.stop.le]
      exact hok.genuine.own hsite.symm
    · exact h.current
  · exact h.current

theorem Device.Opened.base (h : d.Opened) : Base d := by
  refine ⟨h.db, ?_, ?_, ?_, ?_, ?_, ?_⟩
  · rw [Cursor.at, Assoc.get_eq_none_iff.mpr h.site]
    exact h.db.nonneg
  · rw [h.seen]
    exact fun _ hb => hb
  · rw [h.seen]
    exact fun b hb => ⟨h.log b hb, .inl hb⟩
  · rw [h.initialBatches]
    exact fun _ h => by cases h
  · rw [h.reads]
    exact fun _ h => (List.not_mem_nil h).elim
  · rw [h.applying]
    exact fun _ h => by cases h

end Base

/-! ## Each step keeps the watermarks sound -/

section Tight

variable {d : Device}

theorem lastVersion_le {rows : List ChangeRow} {v : Int} (hpos : 0 ≤ v)
    (hrows : ∀ r ∈ rows, r.dbVersion ≤ v) : Client.lastVersion rows ≤ v := by
  by_cases hne : rows = []
  · rw [hne]
    exact hpos
  · obtain ⟨r, hr, hlast⟩ := Client.lastVersion_mem hne
    rw [← hlast]
    exact hrows r hr

/-- The database moves on: a row of an own site that is new is in the log, or above
everything the device knows of its current site. -/
theorem Tight.setDb (h : Tight d) (hbase : Base d) {db' : Db}
    (hsite : db'.siteId = d.client.db.siteId)
    (hnew : ∀ r ∈ db'.changes, d.client.ownSite r.siteId = true →
      r ∈ d.client.db.changes ∨ InLog d r ∨
        (r.siteId = d.client.db.siteId ∧ d.client.db.dbVersion < r.dbVersion)) :
    Tight { d with client := { d.client with db := db' } } := by
  have hown : ∀ site, ({ d.client with db := db' } : Client).ownSite site =
      d.client.ownSite site := by
    intro site
    simp only [Client.ownSite, hsite]
  -- below what the device knows, a row is an old one or in the log
  have hold : ∀ {site v}, d.client.ownSite site = true →
      (site = d.client.db.siteId → v ≤ d.client.db.dbVersion) →
      ∀ r ∈ db'.changes, r.siteId = site → r.dbVersion ≤ v →
        r ∈ d.client.db.changes ∨ InLog d r := by
    intro site v hsite hv r hr hrsite hle
    rcases hnew r hr (hrsite ▸ hsite) with hr | hr | ⟨hcurrent, hlt⟩
    · exact .inl hr
    · exact .inr hr
    · have hv := hv (hrsite.symm.trans hcurrent)
      omega
  have hkeeps : Keeps d { d with client := { d.client with db := db' } } :=
    .of_subset rfl fun _ hb => hb
  refine ⟨fun site hs => ?_, fun b hb hs r hr hrsite hfrom hto => ?_, fun read hread => ?_,
    fun a ha => ⟨(h.applying a ha).1, fun hs => ?_⟩⟩
  · have hs := (hown site).symm.trans hs
    refine (h.published site hs).transfer hbase hkeeps (hold hs fun heq => ?_)
    rw [heq]
    exact hbase.current
  · have hs := (hown _).symm.trans hs
    have hgenuine := (hbase.seen b (hbase.log b hb)).1
    rcases hold hs hgenuine.own r hr hrsite hto with hr | hr
    · exact h.carried b hb hs r hr hrsite hfrom hto
    · exact .inr hr
  · have hok := hbase.reads read hread
    refine ⟨(h.reads read hread).1.transfer hbase hkeeps (hold hok.own hok.since),
      fun r hr hrsite hle => ?_⟩
    rcases hold hok.own (fun hs => lastVersion_le hbase.db.nonneg (hok.current hs)) r hr hrsite hle
      with hr | hr
    · exact (h.reads read hread).2 r hr hrsite hle
    · exact .inr hr
  · have hok := hbase.applying a ha
    refine ((h.applying a ha).2 hs).transfer hbase hkeeps
      (hold (hok.own.symm.trans hs) fun hc => ?_)
    exact hok.stop.le.trans (hok.genuine.own hc)

theorem SoundTo.setClient {site : Site} {v : Int} (h : SoundTo d site v) {c : Client}
    (hdb : c.db = d.client.db) : SoundTo { d with client := c } site v := by
  refine ⟨h.reaches, ?_⟩
  show ∀ r ∈ c.db.changes, _
  rw [hdb]
  exact h.rows

/-- The bookkeeping changes to another that is sound. -/
theorem Tight.setClient (h : Tight d) {c : Client} (hdb : c.db = d.client.db)
    (hown : ∀ site, c.ownSite site = true ↔ d.client.ownSite site = true)
    (hpublished : ∀ site, d.client.ownSite site = true →
      c.published.at site = d.client.published.at site ∨ SoundTo d site (c.published.at site))
    (hreads : ∀ read ∈ c.reads, read ∈ d.client.reads ∨ (SoundTo d read.site read.since ∧
      ∀ r ∈ d.client.db.changes, r.siteId = read.site →
        r.dbVersion ≤ Client.lastVersion read.rows → r ∈ read.rows ∨ InLog d r)) :
    Tight { d with client := c } := by
  refine ⟨fun site hs => ?_, fun b hb hs r hr => ?_, fun read hread => ?_, fun a ha => ?_⟩
  · have hs := (hown site).mp hs
    refine SoundTo.setClient ?_ hdb
    rcases hpublished site hs with heq | hsound
    · rw [heq]
      exact h.published site hs
    · exact hsound
  · exact h.carried b hb ((hown _).mp hs) r (hdb ▸ hr)
  · obtain ⟨hsound, hrows⟩ : SoundTo d read.site read.since ∧
        ∀ r ∈ d.client.db.changes, r.siteId = read.site →
          r.dbVersion ≤ Client.lastVersion read.rows → r ∈ read.rows ∨ InLog d r := by
      rcases hreads read hread with hread | hread
      · exact h.reads read hread
      · exact hread
    exact ⟨hsound.setClient hdb, fun r hr => hrows r (hdb ▸ hr)⟩
  · exact ⟨(h.applying a ha).1, fun hs => ((h.applying a ha).2 hs).setClient hdb⟩

theorem Tight.read (h : Tight d) {site : Site} (hsite : site ∈ d.client.ownSites) :
    Tight { d with client := d.client.readOwn site } := by
  refine h.setClient rfl (fun _ => Iff.rfl) (fun _ _ => .inl rfl) fun read hread => ?_
  rcases List.mem_append.mp hread with hread | hread
  · exact .inl hread
  · obtain rfl := List.mem_singleton.mp hread
    have hsound := h.published site (mem_ownSites.mp hsite)
    refine .inr ⟨hsound, fun r hr hrsite _ => ?_⟩
    by_cases hle : r.dbVersion ≤ d.client.published.at site
    · exact .inr (hsound.rows r hr hrsite hle)
    · exact .inl (mem_readChangesForSite.mpr ⟨hr, hrsite, by omega⟩)

/-- The log changes, and keeps what it had. -/
theorem Tight.setLog (h : Tight d) (hbase : Base d) {log seen : List Batch} {compacted : Cursor}
    (hkeeps : Keeps d { d with log := log, seen := seen, compactedThrough := compacted })
    (hseen : ∀ b ∈ d.seen, b ∈ seen)
    (hcarried : ∀ b ∈ log, b ∈ d.log ∨ (d.client.ownSite b.siteId = true →
      ∀ r ∈ d.client.db.changes, r.siteId = b.siteId → b.fromDbVersion < r.dbVersion →
        r.dbVersion ≤ b.toDbVersion → r ∈ b.changes ∨
          InLog { d with log := log, seen := seen, compactedThrough := compacted } r)) :
    Tight { d with log := log, seen := seen, compactedThrough := compacted } := by
  have hin := fun {r} => hkeeps.inLog (r := r) hbase.log_rows
  have hsound : ∀ {site v}, SoundTo d site v →
      SoundTo { d with log := log, seen := seen, compactedThrough := compacted } site v :=
    fun h => h.transfer hbase hkeeps fun _ hr _ _ => .inl hr
  refine ⟨fun site hs => hsound (h.published site hs),
    fun b hb hs r hr hrsite hfrom hto => ?_, fun read hread =>
      ⟨hsound (h.reads read hread).1, fun r hr hrsite hle => ?_⟩,
    fun a ha => ⟨hseen _ (h.applying a ha).1, fun hs => hsound ((h.applying a ha).2 hs)⟩⟩
  · rcases hcarried b hb with hb | hb
    · exact (h.carried b hb hs r hr hrsite hfrom hto).imp_right hin
    · exact hb hs r hr hrsite hfrom hto
  · exact ((h.reads read hread).2 r hr hrsite hle).imp_right hin

/-- Every row a pass read is in a batch it appends, and the chain reaches it. -/
theorem Tight.publish_rows (h : Tight d) (hbase : Base d) {read : Read}
    (makeBatchId : Nat → String) (hread : read ∈ d.client.reads) {d' : Device}
    (hlog : d'.log = d.log ++ d.client.publishedBatches makeBatchId read)
    (hcompacted : d'.compactedThrough = d.compactedThrough) :
    ∀ r ∈ read.rows, InLog d' r ∧ Reaches d' read.site r.dbVersion := by
  have hok := hbase.reads read hread
  have hkeeps : Keeps d d' := .of_subset hcompacted fun b hb => by
    rw [hlog]
    exact List.mem_append_left _ hb
  have hnew : ∀ b ∈ d.client.publishedBatches makeBatchId read, b ∈ d'.log := fun b hb => by
    rw [hlog]
    exact List.mem_append_right _ hb
  have hsite : ∀ b ∈ d.client.publishedBatches makeBatchId read, b.siteId = read.site :=
    fun b hb => (hok.genuine hb).1
  have hsub : ∀ b ∈ d.client.publishedBatches makeBatchId read,
      b ∈ siteBatches d'.log read.site :=
    fun b hb => mem_siteBatches.mpr ⟨hnew b hb, hsite b hb⟩
  have hchain := joined_batchesOf hsub (hkeeps.reaches (h.reads read hread).1.reaches)
  intro r hr
  obtain ⟨changes, hchunk, hmem⟩ := mem_chunk hr
  obtain ⟨b, hb, rfl, hto, hfrom⟩ := hchain changes hchunk
  have hrsite := (hok.rows r hr).1
  refine ⟨.inr ⟨b, hnew b hb, (hsite b hb).trans hrsite.symm, hmem, hrsite ▸ hfrom⟩, ?_⟩
  refine .link (hsub b hb) hfrom ?_
  rw [hto]
  exact le_lastVersion (sorted_chunk hok.sorted hchunk) hmem

theorem Tight.publish (h : Tight d) (hbase : Base d) {read : Read} (makeBatchId : Nat → String)
    (hread : read ∈ d.client.reads) :
    Tight
      { d with
        client := d.client.publishNow makeBatchId read
        log := d.log ++ d.client.publishedBatches makeBatchId read
        seen := d.seen ++ d.client.publishedBatches makeBatchId read } := by
  have hok := hbase.reads read hread
  obtain ⟨hsince, hrows⟩ := h.reads read hread
  set batches := d.client.publishedBatches makeBatchId read with hbatches
  set d' : Device := { d with log := d.log ++ batches, seen := d.seen ++ batches } with hd'
  have hkeeps : Keeps d d' := .of_subset rfl fun _ hb => List.mem_append_left _ hb
  have hin := fun {r} => hkeeps.inLog (r := r) hbase.log_rows
  have hpublished : ∀ r ∈ read.rows, InLog d' r ∧ Reaches d' read.site r.dbVersion :=
    h.publish_rows hbase makeBatchId hread rfl rfl
  have hlocal : ∀ r ∈ d.client.db.changes, r.siteId = read.site →
      r.dbVersion ≤ Client.lastVersion read.rows → InLog d' r := by
    intro r hr hrsite hle
    rcases hrows r hr hrsite hle with hr | hr
    · exact (hpublished r hr).1
    · exact hin hr
  have htight : Tight d' := by
    refine h.setLog hbase hkeeps (fun _ hb => List.mem_append_left _ hb) fun b hb => ?_
    rcases List.mem_append.mp hb with hb | hb
    · exact .inl hb
    · refine .inr fun _ r hr hrsite _ hto => .inr ?_
      obtain ⟨hsite, hlast, hchunk, _⟩ := hok.genuine hb
      obtain ⟨r', hr', hlast'⟩ := Client.lastVersion_mem (Client.chunkRows_ne_nil [] _ _ hchunk)
      have hle := le_lastVersion hok.sorted (mem_of_mem_chunk hchunk hr')
      exact hlocal r hr (hrsite.trans hsite) (by omega)
  refine htight.setClient rfl (fun _ => ownSite_publishNow hok.own) (fun site _ => ?_)
    fun read' hread' => .inl (List.mem_of_mem_erase hread')
  rcases at_publishNow d.client makeBatchId read site with heq | ⟨rfl, r, hr, heq⟩
  · exact .inl heq
  · refine .inr ⟨heq ▸ (hpublished r hr).2, fun r' hr' hrsite hle => hlocal r' hr' hrsite ?_⟩
    rw [heq] at hle
    exact hle.trans (le_lastVersion hok.sorted hr)

/-- What the watermarks do not speak of changes. -/
theorem Tight.setApplying (h : Tight d) {applying : Option Applying} {running clamped : Bool}
    {initialBatches : Option (List Batch)}
    (happlying : ∀ a, applying = some a → a.batch ∈ d.seen ∧
      (a.ownSite → SoundTo d a.batch.siteId a.applied)) :
    Tight { d with
      applying := applying
      running := running
      initialBatches := initialBatches
      clamped := clamped } := by
  have hsound : ∀ {site v}, SoundTo d site v → SoundTo { d with
      applying := applying
      running := running
      initialBatches := initialBatches
      clamped := clamped } site v := fun h => ⟨h.reaches, h.rows⟩
  exact ⟨fun site hs => hsound (h.published site hs), h.carried,
    fun read hread => ⟨hsound (h.reads read hread).1, (h.reads read hread).2⟩,
    fun a ha => ⟨(happlying a ha).1, fun hs => hsound ((happlying a ha).2 hs)⟩⟩

/-- The rows of a batch of an own site that an apply pass merges. -/
theorem Tight.merged_inLog (h : Tight d) (hbase : Base d) {a : Applying}
    (ha : d.applying = some a) {r : ChangeRow} (hr : r ∈ a.batch.changes)
    (hown : d.client.ownSite r.siteId = true) : InLog d r := by
  have hok := hbase.applying a ha
  obtain ⟨hsite, _, hto⟩ := hok.genuine.rows r hr
  rw [hsite] at hown
  obtain ⟨hseen, hsound⟩ := h.applying a ha
  rcases (hbase.seen _ hseen).2 with hlog | hle
  · refine .inr ⟨_, hlog, hsite.symm, hr, ?_⟩
    rw [hsite]
    exact Joined.of_le (hsound (hok.own.trans hown)).reaches hok.start
  · exact .inl (hto.trans (hsite ▸ hle))

theorem Tight.finishApply (h : Tight d) (hbase : Base d) {a : Applying}
    (ha : d.applying = some a) :
    Tight { d with client := Watermark.finishApply d.client a, applying := none } := by
  have hok := hbase.applying a ha
  have hclear : Tight { d with applying := none } := h.setApplying nofun
  have hdb : (Watermark.finishApply d.client a).db = d.client.db := by
    unfold Watermark.finishApply
    split <;> rfl
  have hreads : (Watermark.finishApply d.client a).reads = d.client.reads := by
    unfold Watermark.finishApply
    split <;> rfl
  refine hclear.setClient hdb (fun _ => ownSite_finishApply hok.own) (fun site _ => ?_)
    fun read hread => .inl (hreads ▸ hread)
  cases hown : a.ownSite with
  | false =>
      refine .inl ?_
      unfold Watermark.finishApply
      rw [hown]
      rfl
  | true =>
      have hat : (Watermark.finishApply d.client a).published.at site =
          if site = a.batch.siteId then a.batch.toDbVersion else d.client.published.at site := by
        unfold Watermark.finishApply
        rw [hown, max_eq_right hok.stop.le]
        exact Cursor.at_set _ _ _ _
      rw [hat]
      split
      · next hsite =>
        subst hsite
        refine .inr ?_
        obtain ⟨hseen, hsound⟩ := h.applying a ha
        have hsound := hsound hown
        rcases (hbase.seen _ hseen).2 with hlog | hcompacted
        · -- the batch starts in the chain
          have hfrom : Reaches d a.batch.siteId a.batch.fromDbVersion :=
            Joined.of_le hsound.reaches hok.start
          refine ⟨Reaches.upper hlog hfrom, fun r hr hrsite hle => ?_⟩
          by_cases happlied : r.dbVersion ≤ a.applied
          · exact hsound.rows r hr hrsite happlied
          · have hstart := hok.start
            rcases h.carried _ hlog (hok.own.symm.trans hown) r hr hrsite (by omega) hle
              with hr | hr
            · exact .inr ⟨_, hlog, hrsite.symm, hr, hrsite ▸ hfrom⟩
            · exact hr
        · exact ⟨.base (le_max_of_le_right hcompacted),
            fun r _ hrsite hle => .inl (hle.trans (hrsite ▸ hcompacted))⟩
      · exact .inl rfl

/-- The largest version of a site in a list of batches is the end of one of them. -/
theorem inLog_at (batches : List Batch) (site : Site) :
    0 ≤ (inLog batches).at site ∧ ((inLog batches).at site = 0 ∨
      ∃ b ∈ batches, b.siteId = site ∧ (inLog batches).at site = b.toDbVersion) := by
  suffices h : ∀ c : Cursor, c.at site ≤ Cursor.at (batches.foldl
      (fun c b => Assoc.set b.siteId (max (c.at b.siteId) b.toDbVersion) c) c) site ∧
      (Cursor.at (batches.foldl
        (fun c b => Assoc.set b.siteId (max (c.at b.siteId) b.toDbVersion) c) c) site = c.at site ∨
      ∃ b ∈ batches, b.siteId = site ∧ Cursor.at (batches.foldl
        (fun c b => Assoc.set b.siteId (max (c.at b.siteId) b.toDbVersion) c) c) site =
          b.toDbVersion) from h []
  induction batches with
  | nil => exact fun c => ⟨le_rfl, .inl rfl⟩
  | cons b batches ih =>
      intro c
      obtain ⟨hle, hcases⟩ := ih (Assoc.set b.siteId (max (c.at b.siteId) b.toDbVersion) c)
      rw [List.foldl_cons]
      rw [Cursor.at_set] at hle hcases
      refine ⟨le_trans ?_ hle, ?_⟩
      · split
        · next hsite => exact hsite ▸ le_max_left _ _
        · exact le_rfl
      · rcases hcases with heq | ⟨b', hb', hspec⟩
        · rw [heq]
          split
          · next hsite =>
            rcases max_choice (c.at b.siteId) b.toDbVersion with hmax | hmax
            · exact .inl (hmax.trans (by rw [hsite]))
            · exact .inr ⟨b, List.mem_cons_self, hsite.symm, hmax⟩
          · exact .inl rfl
        · exact .inr ⟨b', List.mem_cons_of_mem _ hb', hspec⟩

theorem Clampable.reaches {batches : List Batch} (h : Clampable d batches) (hbase : Base d)
    (hobserved : d.initialBatches = some batches) {site : Site}
    (hown : d.client.ownSite site = true) :
    Reaches d site (durable batches d.compactedThrough site) := by
  unfold durable
  rcases max_choice (d.compactedThrough.at site) ((inLog batches).at site) with hmax | hmax
  · rw [hmax]
    exact .base (le_max_right _ _)
  · rw [hmax]
    rcases (inLog_at batches site).2 with hzero | ⟨b, hb, rfl, heq⟩
    · rw [hzero]
      exact .base (le_max_left _ _)
    · rw [heq]
      rcases (hbase.seen b (hbase.initial batches hobserved b hb)).2 with hlog | hle
      · exact Reaches.upper hlog (h.gapFree b hb hown)
      · exact .base (le_max_of_le_right hle)

theorem Clampable.tight {batches : List Batch} (h : Clampable d batches) (hbase : Base d)
    (hobserved : d.initialBatches = some batches) (hidle : d.applying = none) :
    Tight
      { d with
        client := reconcilePublished d.client batches d.compactedThrough
        clamped := true } := by
  -- below what the clamp takes for durable, everything is in the log
  have hsound : ∀ {site v}, d.client.ownSite site = true →
      v ≤ durable batches d.compactedThrough site →
      SoundTo { d with clamped := true } site v := by
    intro site v hown hle
    have hreaches := Joined.of_le (h.reaches hbase hobserved hown) hle
    refine ⟨hreaches, fun r hr hrsite hrle => ?_⟩
    exact Reaches.inLog hreaches (fun b hb hsite => h.carries b hb (hsite ▸ hown)) hr hrsite
      (hbase.db.pos r hr) hrle
  refine ⟨fun site hs => ?_, fun b hb hs r hr hrsite hfrom hto => .inl ?_, fun read hread => ?_,
    fun a ha => ?_⟩
  · have hown := ownSite_reconcilePublished.mp hs
    refine SoundTo.setClient (hsound hown ?_) rfl
    show Cursor.at (List.map _ _) site ≤ _
    rw [Cursor.at, Assoc.get_mapEntries fun s v => min v (durable batches d.compactedThrough s)]
    cases Assoc.get site d.client.published with
    | none => exact le_max_of_le_right (inLog_at batches site).1
    | some v => exact min_le_right _ _
  · exact h.carries b hb (ownSite_reconcilePublished.mp hs) r hr hrsite hfrom hto
  · obtain ⟨hsince, hrows⟩ := h.reads read hread
    have hown := (hbase.reads read hread).own
    refine ⟨SoundTo.setClient (hsound hown hsince) rfl, fun r hr hrsite hle => ?_⟩
    by_cases hdurable : r.dbVersion ≤ durable batches d.compactedThrough read.site
    · exact .inr ((hsound hown le_rfl).rows r hr hrsite hdurable)
    · exact .inl (hrows r hr hrsite (by omega) hle)
  · rw [hidle] at ha
    cases ha

end Tight

/-! ## Runs -/

theorem Device.Opened.inv {d : Device} (h : d.Opened) : Inv d := by
  refine ⟨h.base, fun hclamped => ?_, fun hrunning => ?_⟩
  · rw [h.clamped] at hclamped
    cases hclamped
  · rw [h.running] at hrunning
    cases hrunning

theorem Inv.step {d d' : Device} {e : Event} (h : Inv d) (hcond : cond d e) (hstep : Step d e d') :
    Inv d' := by
  obtain ⟨hbase, htight, hclamped⟩ := h
  cases hstep with
  | write db' hcommit =>
      have hle : d.client.db.dbVersion ≤ db'.dbVersion := by
        have := hcommit.dbVersion
        omega
      refine ⟨hbase.setDb (hbase.db.commits hcommit) hcommit.siteId hle, fun hc => ?_, hclamped⟩
      -- what the commit adds lies above the watermark
      refine (htight hc).setDb hbase hcommit.siteId fun r hr _ => ?_
      rcases hcommit.changes r hr with hr | ⟨hsite, hversion⟩
      · exact .inl hr
      · have := hcommit.dbVersion
        exact .inr (.inr ⟨hsite, by omega⟩)
  | read site hsite =>
      exact ⟨hbase.read hsite, fun hc => (htight hc).read hsite, hclamped⟩
  | publish read makeBatchId hread =>
      exact ⟨hbase.publish makeBatchId hread, fun hc => (htight hc).publish hbase makeBatchId hread,
        hclamped⟩
  | arrive batches hbatches =>
      refine ⟨hbase.addLog hbatches, fun hc => ?_, hclamped⟩
      refine (htight hc).setLog hbase (.of_subset rfl fun _ hb => List.mem_append_left _ hb)
        (fun _ hb => List.mem_append_left _ hb) fun b hb => ?_
      rcases List.mem_append.mp hb with hb | hb
      · exact .inl hb
      · exact .inr fun hown r hr hsite hfrom hto => .inl (hcond b hb hown r hr hsite hfrom hto)
  | compact log compactedThrough hsub hgrow hdropped =>
      refine ⟨⟨hbase.db, hbase.current, fun b hb => hbase.log b (hsub b hb), fun b hb => ?_,
        hbase.initial, hbase.reads, hbase.applying⟩, fun hc => ?_, hclamped⟩
      · refine ⟨(hbase.seen b hb).1, ?_⟩
        rcases (hbase.seen b hb).2 with hlog | hle
        · exact hdropped b hlog
        · exact .inr (hle.trans (hgrow _))
      · exact (htight hc).setLog hbase ⟨hgrow, hdropped⟩ (fun _ hb => hb)
          fun b hb => .inl (hsub b hb)
  | startApply b hidle hseen hgenuine hid hto hformat hschema hfrom =>
      refine ⟨hbase.setApplying fun a ha => ?_, fun hc => (htight hc).setApplying fun a ha => ?_,
        hclamped⟩
      · cases ha
        exact ⟨rfl, hgenuine, hfrom, hto, rfl⟩
      · cases ha
        refine ⟨hseen hc, fun hown => ?_⟩
        -- a batch of an own site counts from the watermark
        have happlied : d.client.applied b.siteId = d.client.published.at b.siteId := by
          rw [Client.applied, if_pos hown]
        show SoundTo d b.siteId (d.client.applied b.siteId)
        rw [happlied]
        exact (htight hc).published b.siteId hown
  | endApply a db' happlying hmerge =>
      have hok := hbase.applying a happlying
      rw [hok.fresh] at hmerge
      have hmerge : d.client.db.Merges a.batch.changes db' := hmerge
      have hbase' := hbase.setDb (hbase.db.merges hok.genuine hmerge) hmerge.siteId hmerge.dbVersion
      refine ⟨hbase'.finishApply happlying, fun hc => ?_, hclamped⟩
      refine Tight.finishApply ?_ hbase' happlying
      refine (htight hc).setDb hbase hmerge.siteId fun r hr hown => ?_
      rcases hmerge.changes r hr with hr | hr
      · exact .inl hr
      · exact .inr (.inl ((htight hc).merged_inLog hbase happlying hr hown))
  | failApply =>
      have hnone : ∀ a, (none : Option Applying) ≠ some a := fun a => (Option.some_ne_none a).symm
      exact ⟨hbase.setApplying fun a ha => absurd ha (hnone a),
        fun hc => (htight hc).setApplying fun a ha => absurd ha (hnone a), hclamped⟩
  | rebase db' cursor hdb hsite =>
      -- the rows and watermarks of the old database are gone, and nothing of it is under way
      have hidle : d.applying.map (fun a => { a with stale := true }) = none := by
        rw [hcond]
        rfl
      have hown : ∀ site, ({ d.client with
          db := db'
          cursor := cursor
          published := []
          appliedBatchIds := []
          bufferedBatches := []
          reads := [] } : Client).ownSite site = true ↔ site = db'.siteId := by
        intro site
        rw [ownSite_iff]
        exact ⟨fun h => h.resolve_right (by simp), .inl⟩
      refine ⟨⟨hdb, hdb.nonneg, hbase.log, fun b hb => ⟨?_, (hbase.seen b hb).2⟩, hbase.initial,
        fun _ h => (List.not_mem_nil h).elim, fun a ha => ?_⟩, fun hc => ⟨fun site _ => ?_,
        fun b hb hs => ?_, fun _ h => (List.not_mem_nil h).elim, fun a ha => ?_⟩, hclamped⟩
      · exact ⟨(hbase.seen b hb).1.rows, fun heq => absurd heq (hsite b hb)⟩
      · exact absurd (hidle.symm.trans ha) (by simp)
      · -- nothing is published, and versions start at 1
        refine ⟨.base (le_max_left _ _), fun r hr _ hle => ?_⟩
        have hpos := hdb.pos r hr
        have hle : r.dbVersion ≤ 0 := hle
        omega
      · exact absurd ((hown _).mp hs) (hsite b (hbase.log b hb))
      · exact absurd (hidle.symm.trans ha) (by simp)
  | replaceTransport log compactedThrough hlog =>
      -- another log: nothing is clamped to it yet
      refine ⟨⟨hbase.db, hbase.current, fun _ hb => hb, fun b hb => ⟨hlog b hb, .inl hb⟩,
        by rintro _ ⟨⟩, fun _ h => (List.not_mem_nil h).elim, fun a ha => ?_⟩, by rintro ⟨⟩,
        by rintro ⟨⟩⟩
      exact (hbase.applying a ha).congr rfl fun _ => Iff.rfl
  | observe hrunning hclamped' =>
      refine ⟨⟨hbase.db, hbase.current, hbase.log, hbase.seen, fun batches h b hb => ?_,
        hbase.reads, hbase.applying⟩, fun hc => ?_, hclamped⟩
      · cases h
        exact hbase.log b hb
      · exact absurd (hclamped'.symm.trans hc) (by simp)
  | clampRetired batches hrunning hclamped' =>
      refine ⟨hbase.reconcile batches _, fun hc => ?_, hclamped⟩
      exact absurd (hclamped'.symm.trans hc) (by simp)
  | clamp batches hrunning hclamped' hobserved hidle =>
      have hbase' := hbase.reconcile batches d.compactedThrough
      exact ⟨⟨hbase'.db, hbase'.current, hbase'.log, hbase'.seen, hbase'.initial, hbase'.reads,
        hbase'.applying⟩, fun _ => (hcond batches hobserved).tight hbase hobserved hidle,
        fun _ => rfl⟩
  | finish hclamped' =>
      exact ⟨⟨hbase.db, hbase.current, hbase.log, hbase.seen, hbase.initial, hbase.reads,
        hbase.applying⟩, fun hc => (htight hc).setApplying (htight hc).applying, fun _ => hclamped'⟩
  | fail =>
      exact ⟨⟨hbase.db, hbase.current, hbase.log, hbase.seen, hbase.initial, hbase.reads,
        hbase.applying⟩, fun hc => (htight hc).setApplying (htight hc).applying, fun _ => hcond⟩
  | restart _ hopened => exact hopened.inv

/-- In a run whose clamps meet a log without gaps, the watermarks are sound whenever
no catch-up is running. -/
theorem watermark_sound {d : Device} (h : Lib.Reach Device.Opened (Where cond Step) d)
    (hidle : d.running = false) : d.Sound := by
  have hinv : Inv d :=
    h.invariant (fun _ h => h.inv) fun _ _ _ hinv hstep => hinv.step hstep.1 hstep.2
  have htight := hinv.tight (hinv.clamped hidle)
  intro site v hget r hr hsite hle
  have hown : d.client.ownSite site = true := ownSite_iff.mpr (.inr (by rw [hget]; rfl))
  refine (htight.published site hown).rows r hr hsite ?_
  rw [Cursor.at, hget]
  exact hle

/-! ## A restart from a snapshot -/

/-- The change of version `v` of the session before. -/
def earlierRow (v : Int) : ChangeRow where
  table := "t"
  pk := "1"
  cid := "c"
  val := "0"
  colVersion := v
  dbVersion := v
  siteId := "a"
  cl := 1
  seq := 0

/-- The batch with the change of version `v`. -/
def earlierBatch (id : String) (v : Int) : Batch where
  id := id
  siteId := "a"
  fromDbVersion := v - 1
  toDbVersion := v
  schemaVersion := 1
  changes := [earlierRow v]
  format := syncFormat

/-- The session before made two changes, published both and saved its snapshot. -/
def restored (log : List Batch) : Device where
  client := { Client.fresh "b" 1 with
    db := ⟨"b", 2, [earlierRow 1, earlierRow 2]⟩
    published := [("a", 2)] }
  log := log
  compactedThrough := []
  seen := log
  applying := none
  running := true
  initialBatches := none
  clamped := false

/-- After the catch-up, when the log has the second batch. -/
def rejoined (log : List Batch) : Device :=
  { restored log with
    running := false
    initialBatches := some log
    clamped := true }

theorem restored_opened {log : List Batch} (hlog : ∀ b ∈ log, Genuine (restored []).client.db b) :
    (restored log).Opened where
  db := by
    have hrow : ∀ r ∈ [earlierRow 1, earlierRow 2], 0 < r.dbVersion ∧ r.siteId ≠ "b" := by decide
    refine ⟨?_, fun r hr => (hrow r hr).1, fun r hr hsite => absurd hsite (hrow r hr).2⟩
    show (0 : Int) ≤ 2
    decide
  site := by
    show "b" ∉ ["a"]
    decide
  reads := rfl
  log := hlog
  seen := rfl
  applying := rfl
  running := rfl
  initialBatches := rfl
  clamped := rfl

theorem earlierBatch_genuine {id : String} {v : Int} (hv : 0 < v) :
    Genuine (restored []).client.db (earlierBatch id v) := by
  refine ⟨fun r hr => ?_, fun hsite => ?_⟩
  · obtain rfl := List.mem_singleton.mp hr
    exact ⟨rfl, hv, le_rfl⟩
  · exact absurd (show "a" = "b" from hsite) (by decide)

/-- The run of a catch-up over a log in which the site reaches version 2. -/
theorem reach_rejoined {log : List Batch} {cond : Device → Event → Prop}
    (hlog : ∀ b ∈ log, Genuine (restored []).client.db b) (hmax : (inLog log).at "a" = 2)
    (hobserve : cond (restored log) .observe)
    (hclamp : cond { restored log with initialBatches := some log } .clamp)
    (hfinish : cond { rejoined log with running := true } .finish) :
    Lib.Reach Device.Opened (Where cond Step) (rejoined log) := by
  have hobserved : Lib.Reach Device.Opened (Where cond Step)
      { restored log with initialBatches := some log } :=
    (Lib.Reach.start (restored_opened hlog)).step ⟨hobserve, .observe _ rfl rfl⟩
  have hclamped : Lib.Reach Device.Opened (Where cond Step)
      { rejoined log with running := true } := by
    have hsame : reconcilePublished (restored log).client log [] = (restored log).client := by
      simp [reconcilePublished, restored, durable, hmax]
    have hstate : ({ rejoined log with running := true } : Device) =
        { restored log with
          client := reconcilePublished (restored log).client log []
          initialBatches := some log
          clamped := true } := by
      rw [hsame]
      rfl
    rw [hstate]
    exact hobserved.step ⟨hclamp, .clamp _ log rfl rfl rfl rfl⟩
  exact hclamped.step ⟨hfinish, .finish _ rfl⟩

def bothBatches : List Batch := [earlierBatch "x" 1, earlierBatch "y" 2]

theorem bothBatches_clampable :
    Clampable { restored bothBatches with initialBatches := some bothBatches } bothBatches where
  gapFree := by
    have hfirst : Reaches { restored bothBatches with initialBatches := some bothBatches } "a" 0 :=
      .base (le_max_left _ _)
    intro b hb _
    rcases List.mem_pair.mp hb with rfl | rfl
    · exact hfirst
    · exact Reaches.upper (d := { restored bothBatches with initialBatches := some bothBatches })
        (b := earlierBatch "x" 1) List.mem_cons_self hfirst
  carries := by
    intro b hb _ r hr _ hfrom hto
    rcases List.mem_pair.mp hb with rfl | rfl <;> rcases List.mem_pair.mp hr with rfl | rfl
    · exact List.mem_cons_self
    · exact absurd hto (by decide)
    · exact absurd hfrom (by decide)
    · exact List.mem_cons_self
  reads := fun _ h => (List.not_mem_nil h).elim

theorem reach_bothBatches :
    Lib.Reach Device.Opened (Where cond Step) (rejoined bothBatches) := by
  refine reach_rejoined (fun b hb => ?_) (by decide) trivial (fun batches hbatches => ?_) trivial
  · rcases List.mem_pair.mp hb with rfl | rfl
    · exact earlierBatch_genuine (by decide)
    · exact earlierBatch_genuine (by decide)
  · cases hbatches
    exact bothBatches_clampable

theorem watermark_sound_restored : (rejoined bothBatches).Sound :=
  watermark_sound reach_bothBatches rfl

/-- The document has lost the first batch. The clamp sees that the site is at version
2 and leaves the watermark there, so the first change is in no log. -/
theorem not_watermark_sound :
    Lib.Reach Device.Opened Step (rejoined [earlierBatch "y" 2]) ∧
      (rejoined [earlierBatch "y" 2]).running = false ∧
      ¬(rejoined [earlierBatch "y" 2]).Sound := by
  refine ⟨?_, rfl, fun h => ?_⟩
  · have hreach : Lib.Reach Device.Opened (Where (fun _ _ => True) Step)
        (rejoined [earlierBatch "y" 2]) := by
      refine reach_rejoined (fun b hb => ?_) (by decide) trivial trivial trivial
      rw [List.mem_singleton.mp hb]
      exact earlierBatch_genuine (by decide)
    exact hreach.of_where
  · rcases h "a" 2 rfl (earlierRow 1) List.mem_cons_self rfl (by decide) with hle |
      ⟨b, hb, _, hr, _⟩
    · exact absurd hle (by decide)
    · obtain rfl := List.mem_singleton.mp hb
      exact absurd hr (by decide)

end Realtime.PluginDb.Watermark
