import Mathlib.Tactic
import Realtime.Lib.Transition
import Realtime.PluginDb.Watermark

/-!
# Rebuilding the database from the server

`rebaseFromServer` publishes what the device has, builds a replacement from the
server's replica over several awaits, swaps it in and closes the old database. While
it runs no new transaction starts. One that had started before may still commit, up to
the swap: the databases of a process share one queue, in which the statements of the
replacement stand behind it. A read of the publish pass may be ahead of it all the same,
as it is answered together with an equal read that is queued already.

The device and everything else that runs on it is that of `Watermark`.
-/

namespace Realtime.PluginDb.Rebase

open Lib Watermark

/-- `PluginDbState` -/
inductive DbState where
  | loadingWasm
  | restoring
  | bootstrapping
  | syncing
  | live
  | offline
  | needsMigration
  | error
  deriving DecidableEq

/-- What `captureSnapshot` writes. -/
structure Snapshot where
  db : Db
  schemaVersion : Int
  cursor : Cursor
  published : Cursor

def capture (c : Client) : Snapshot := ⟨c.db, c.schemaVersion, c.cursor, c.published⟩

/-- What there was when the rebase started. -/
structure Saved where
  client : Client
  snapshot : Option Snapshot
  /-- `previousState` -/
  state : DbState
  touches : Nat

/-- Where `doRebase` stands. -/
inductive Task where
  | idle
  /-- In `publishNow`, with the sites it has yet to read. -/
  | publishing (saved : Saved) (todo : List Site)
  | reading (saved : Saved) (read : Read) (todo : List Site)
  | building (saved : Saved)
  /-- The old database, with its own sites, until it is closed. -/
  | swapped (old : Db) (own : List Site) (closed : Bool)
  | succeeded (old : Db) (own : List Site)
  | failed (saved : Saved)

/-- No rebase is running. -/
def Task.over : Task → Bool
  | .idle | .succeeded _ _ | .failed _ => true
  | _ => false

/-- The engine of a database with the rebase it may be in. -/
structure Engine where
  device : Device
  task : Task
  state : DbState
  snapshot : Option Snapshot
  /-- Calls of `exec` and `transaction` that passed `assertReady` and have not
  resolved. They keep the database they got. -/
  calls : Nat
  /-- Steps that were not the rebase's. -/
  touches : Nat

/-- A step of the rebase, or one that comes between two of its. -/
inductive Event where
  | background (e : Watermark.Event)
  | call
  | commit
  | reject
  | persist
  | setState
  | start
  | read
  | readFails
  | append
  | build
  | fail
  | swap
  | close
  | finish

/-- The engine after a step that is not the rebase's. -/
def Engine.touch (s : Engine) (d : Device) : Engine :=
  { s with device := d, touches := s.touches + 1 }

/-- One step between two awaits. -/
inductive Step : Engine → Event → Engine → Prop
  /-- Other publish passes, apply passes, the log, a catch-up. -/
  | background (s : Engine) (e : Watermark.Event) (d : Device) (hstep : Watermark.Step s.device e d)
      (hwrite : e ≠ .write) (hrebase : e ≠ .rebase) (hrestart : e ≠ .restart) :
      Step s (.background e) (s.touch d)
  /-- `assertReady` throws while a rebase runs. -/
  | call (s : Engine) (hover : s.task.over = true) : Step s .call { s with calls := s.calls + 1 }
  /-- A transaction on the database it got, which is the live one. -/
  | commit (s : Engine) (d : Device) (hcalls : 0 < s.calls)
      (hstep : Watermark.Step s.device .write d) :
      Step s .commit { s.touch d with calls := s.calls - 1 }
  | reject (s : Engine) : Step s .reject { s with calls := s.calls - 1 }
  | persist (s : Engine) :
      Step s .persist { s.touch s.device with snapshot := some (capture s.device.client) }
  | setState (s : Engine) (state : DbState) :
      Step s .setState { s.touch s.device with state := state }
  | start (s : Engine) (hidle : s.task = .idle) :
      Step s .start
        { s with
          task := .publishing ⟨s.device.client, s.snapshot, s.state, s.touches⟩
            s.device.client.ownSites
          state := .bootstrapping }
  | read (s : Engine) (saved : Saved) (site : Site) (todo : List Site)
      (htask : s.task = .publishing saved (site :: todo)) :
      Step s .read
        { s with
          device := { s.device with client := s.device.client.readOwn site }
          task := .reading saved
            ⟨site, s.device.client.published.at site,
              readChangesForSite s.device.client.db site (s.device.client.published.at site)⟩
            todo }
  /-- `publishNow` goes on with the next site. -/
  | readFails (s : Engine) (saved : Saved) (site : Site) (todo : List Site)
      (htask : s.task = .publishing saved (site :: todo)) :
      Step s .readFails { s with task := .publishing saved todo }
  /-- Nothing is appended to a log that was retired meanwhile. -/
  | append (s : Engine) (saved : Saved) (read : Read) (todo : List Site)
      (makeBatchId : Nat → String) (htask : s.task = .reading saved read todo) :
      Step s .append
        { s with
          device :=
            if read ∈ s.device.client.reads then
              { s.device with
                client := s.device.client.publishNow makeBatchId read
                log := s.device.log ++ s.device.client.publishedBatches makeBatchId read
                seen := s.device.seen ++ s.device.client.publishedBatches makeBatchId read }
            else s.device
          task := .publishing saved todo }
  | build (s : Engine) (saved : Saved) (htask : s.task = .publishing saved []) :
      Step s .build { s with task := .building saved }
  /-- There is no server to ask, or the request, the migration or the decoding fails. -/
  | fail (s : Engine) (saved : Saved) (htask : s.task = .building saved) :
      Step s .fail { s with task := .failed saved, state := saved.state }
  /-- The replacement has been filled, by statements behind every call. -/
  | swap (s : Engine) (saved : Saved) (d : Device) (htask : s.task = .building saved)
      (hcalls : s.calls = 0) (hstep : Watermark.Step s.device .rebase d) :
      Step s .swap
        { s with
          device := d
          task := .swapped s.device.client.db s.device.client.ownSites false }
  | close (s : Engine) (old : Db) (own : List Site) (htask : s.task = .swapped old own false) :
      Step s .close { s with task := .swapped old own true }
  /-- After the log was applied and published to again. -/
  | finish (s : Engine) (old : Db) (own : List Site) (htask : s.task = .swapped old own true) :
      Step s .finish
        { s with
          task := .succeeded old own
          state := if s.state = .needsMigration then .needsMigration else .live
          snapshot := some (capture s.device.client) }

/-- Before the rebase. The watermarks have come about in a run in which they are
sound. -/
structure Engine.Ready (s : Engine) : Prop where
  idle : s.task = .idle
  device : Lib.Reach Device.Opened (Where Watermark.cond Watermark.Step) s.device

/-- The condition on a step: the rebase starts with watermarks that were clamped to the
log, and from then on no transaction commits once the rows of the current site have
been read, no read fails and the log is not replaced. -/
def cond (s : Engine) : Event → Prop
  | .background e =>
      Watermark.cond s.device e ∧ (e = .replaceTransport → s.task = .idle)
  | .start => s.device.clamped = true
  | .commit => s.task.over = true ∨
      ∃ saved todo, s.task = .publishing saved todo ∧ s.device.client.db.siteId ∈ todo
  | .readFails => False
  | _ => True

/-- Every change the old database had of a site of this device is in the log or in the
replacement. -/
def Kept (s : Engine) : Prop :=
  ∀ old own, s.task = .succeeded old own → ∀ r ∈ old.changes, r.siteId ∈ own →
    InLog s.device r ∨ r ∈ s.device.client.db.changes

/-- The failed rebase left everything as it was, apart from what was published. -/
def Restored (s : Engine) : Prop :=
  ∀ saved, s.task = .failed saved → s.touches = saved.touches →
    s.device.client.db = saved.client.db ∧ s.device.client.cursor = saved.client.cursor ∧
      s.snapshot = saved.snapshot ∧ s.state = saved.state ∧
      ∀ site, s.device.client.published.at site = saved.client.published.at site ∨
        ∃ b ∈ s.device.log, b.siteId = site ∧
          s.device.client.published.at site = b.toDbVersion

/-! ## What else runs -/

/-- What the other steps leave of the rows of own sites. -/
structure Beside (d d' : Device) : Prop where
  keeps : Keeps d d'
  clamped : d'.clamped = true
  current : d'.client.db.siteId = d.client.db.siteId
  own : ∀ site, d'.client.ownSite site = true ↔ d.client.ownSite site = true
  rows : ∀ r ∈ d'.client.db.changes, d.client.ownSite r.siteId = true →
    r ∈ d.client.db.changes ∨ InLog d' r
  reads : ∀ read ∈ d.client.reads, read ∈ d'.client.reads ∨ ∀ r ∈ read.rows, InLog d' r

section Beside

variable {d d' : Device}

/-- The client and the log stay. -/
theorem Beside.of_same (hc : d'.clamped = true) (hclient : d'.client = d.client)
    (hlog : d'.log = d.log) (hcompacted : d'.compactedThrough = d.compactedThrough) :
    Beside d d' where
  keeps := .of_subset hcompacted fun b hb => hlog ▸ hb
  clamped := hc
  current := by rw [hclient]
  own := fun _ => by rw [hclient]
  rows := fun _ hr _ => .inl (hclient ▸ hr)
  reads := fun _ hread => .inl (hclient ▸ hread)

theorem Beside.publish (hbase : Base d) (htight : Tight d) (hc : d.clamped = true) {read : Read}
    (makeBatchId : Nat → String) (hread : read ∈ d.client.reads) :
    Beside d
      { d with
        client := d.client.publishNow makeBatchId read
        log := d.log ++ d.client.publishedBatches makeBatchId read
        seen := d.seen ++ d.client.publishedBatches makeBatchId read } where
  keeps := .of_subset rfl fun _ hb => List.mem_append_left _ hb
  clamped := hc
  current := rfl
  own := fun _ => ownSite_publishNow (hbase.reads read hread).own
  rows := fun _ hr _ => .inl hr
  reads := by
    intro read' hread'
    by_cases heq : read' = read
    · subst heq
      refine .inr fun r hr => (htight.publish_rows hbase makeBatchId hread ?_ ?_ r hr).1
      · rfl
      · rfl
    · exact .inl ((List.mem_erase_of_ne heq).mpr hread')

theorem Beside.endApply (hbase : Base d) (htight : Tight d) (hc : d.clamped = true)
    {a : Applying} (happlying : d.applying = some a) {db' : Db}
    (hmerge : d.client.db.Merges a.batch.changes db') :
    Beside d { d with
      client := Watermark.finishApply { d.client with db := db' } a
      applying := none } := by
  have hok := hbase.applying a happlying
  have hsame : ∀ site, ({ d.client with db := db' } : Client).ownSite site =
      d.client.ownSite site := by
    intro site
    simp only [Client.ownSite, hmerge.siteId]
  have hdb : (Watermark.finishApply { d.client with db := db' } a).db = db' := by
    unfold Watermark.finishApply
    split <;> rfl
  have hreads : (Watermark.finishApply { d.client with db := db' } a).reads = d.client.reads := by
    unfold Watermark.finishApply
    split <;> rfl
  refine ⟨.of_subset rfl fun _ hb => hb, hc, ?_, fun site => ?_, fun r hr hown => ?_,
    fun read hread => .inl ?_⟩
  · show (Watermark.finishApply { d.client with db := db' } a).db.siteId = _
    rw [hdb]
    exact hmerge.siteId
  · rw [← hsame site]
    exact ownSite_finishApply (hok.own.trans (hsame _).symm)
  · have hr : r ∈ (Watermark.finishApply { d.client with db := db' } a).db.changes := hr
    rw [hdb] at hr
    rcases hmerge.changes r hr with hr | hr
    · exact .inl hr
    · exact .inr (htight.merged_inLog hbase happlying hr hown)
  · show read ∈ (Watermark.finishApply { d.client with db := db' } a).reads
    rw [hreads]
    exact hread

theorem beside_of_step {e : Watermark.Event} (hinv : Watermark.Inv d) (hc : d.clamped = true)
    (hstep : Watermark.Step d e d') (hwrite : e ≠ .write) (hrebase : e ≠ .rebase)
    (hrestart : e ≠ .restart) (hreplace : e ≠ .replaceTransport) : Beside d d' := by
  have hbase := hinv.base
  have htight := hinv.tight hc
  cases hstep with
  | write db' hcommit => exact absurd rfl hwrite
  | read site hsite =>
      exact ⟨.of_subset rfl fun _ hb => hb, hc, rfl, fun _ => Iff.rfl, fun _ hr _ => .inl hr,
        fun _ hread => .inl (List.mem_append_left _ hread)⟩
  | publish read makeBatchId hread => exact .publish hbase htight hc makeBatchId hread
  | arrive batches hbatches =>
      exact ⟨.of_subset rfl fun _ hb => List.mem_append_left _ hb, hc, rfl, fun _ => Iff.rfl,
        fun _ hr _ => .inl hr, fun _ hread => .inl hread⟩
  | compact log compactedThrough hsub hgrow hdropped =>
      exact ⟨⟨hgrow, hdropped⟩, hc, rfl, fun _ => Iff.rfl, fun _ hr _ => .inl hr,
        fun _ hread => .inl hread⟩
  | startApply b => exact .of_same hc rfl rfl rfl
  | endApply a db' happlying hmerge =>
      rw [(hbase.applying a happlying).fresh] at hmerge
      exact .endApply hbase htight hc happlying hmerge
  | failApply => exact .of_same hc rfl rfl rfl
  | rebase db' cursor hdb hsite => exact absurd rfl hrebase
  | replaceTransport log compactedThrough hlog => exact absurd rfl hreplace
  | observe hrunning hclamped => exact absurd (hclamped.symm.trans hc) (by simp)
  | clampRetired batches hrunning hclamped => exact absurd (hclamped.symm.trans hc) (by simp)
  | clamp batches hrunning hclamped => exact absurd (hclamped.symm.trans hc) (by simp)
  | finish hclamped => exact .of_same hc rfl rfl rfl
  | fail => exact .of_same hc rfl rfl rfl
  | restart _ hopened => exact absurd rfl hrestart

/-- What is left of the invariant once the database has been replaced. -/
structure Logged (d : Device) : Prop where
  rows : ∀ b ∈ d.log, ∀ r ∈ b.changes, r.dbVersion ≤ b.toDbVersion
  reads : ∀ read ∈ d.client.reads, read.rows.Pairwise fun r r' => r.dbVersion ≤ r'.dbVersion

theorem logged_of_base (h : Base d) : Logged d :=
  ⟨h.log_rows, fun read hread => (h.reads read hread).sorted⟩

/-- The log and the passes of a client whose passes are among those of another. -/
theorem Logged.mono (h : Logged d) (hlog : ∀ b ∈ d'.log, b ∈ d.log)
    (hreads : ∀ read ∈ d'.client.reads, read ∈ d.client.reads) : Logged d' :=
  ⟨fun b hb => h.rows b (hlog b hb), fun read hread => h.reads read (hreads read hread)⟩

theorem Logged.step {e : Watermark.Event} (h : Logged d) (hstep : Watermark.Step d e d')
    (hrestart : e ≠ .restart) (hreplace : e ≠ .replaceTransport) : Logged d' ∧ Keeps d d' := by
  have hsame : Keeps d d := .of_subset rfl fun _ hb => hb
  cases hstep with
  | write db' hcommit => exact ⟨h.mono (fun _ hb => hb) fun _ hr => hr, ⟨hsame.1, hsame.2⟩⟩
  | read site hsite =>
      refine ⟨⟨h.rows, fun read hread => ?_⟩, ⟨hsame.1, hsame.2⟩⟩
      rcases List.mem_append.mp hread with hread | hread
      · exact h.reads read hread
      · rw [List.mem_singleton.mp hread]
        exact pairwise_readChangesForSite _ _ _
  | publish read makeBatchId hread =>
      refine ⟨⟨fun b hb r hr => ?_, fun read' hread' =>
        h.reads read' (List.mem_of_mem_erase hread')⟩,
        .of_subset rfl fun _ hb => List.mem_append_left _ hb⟩
      rcases List.mem_append.mp hb with hb | hb
      · exact h.rows b hb r hr
      · have hchunk := (Client.siteId_of_mem_batchesOf hb).2.2
        rw [toDbVersion_of_mem_batchesOf hb]
        exact le_lastVersion (sorted_chunk (h.reads read hread) hchunk) hr
  | arrive batches hbatches =>
      refine ⟨⟨fun b hb r hr => ?_, h.reads⟩, .of_subset rfl fun _ hb => List.mem_append_left _ hb⟩
      rcases List.mem_append.mp hb with hb | hb
      · exact h.rows b hb r hr
      · exact ((hbatches b hb).rows r hr).2.2
  | compact log compactedThrough hsub hgrow hdropped =>
      exact ⟨h.mono hsub fun _ hr => hr, ⟨hgrow, hdropped⟩⟩
  | startApply b => exact ⟨⟨h.rows, h.reads⟩, ⟨hsame.1, hsame.2⟩⟩
  | endApply a db' happlying hmerge =>
      refine ⟨h.mono (fun _ hb => hb) fun read hread => ?_, ⟨hsame.1, hsame.2⟩⟩
      have hreads : (Watermark.finishApply { d.client with db := db' } a).reads =
          d.client.reads := by
        unfold Watermark.finishApply
        split <;> rfl
      exact hreads ▸ hread
  | failApply => exact ⟨⟨h.rows, h.reads⟩, ⟨hsame.1, hsame.2⟩⟩
  | rebase db' cursor hdb hsite =>
      exact ⟨⟨h.rows, fun _ hr => (List.not_mem_nil hr).elim⟩, ⟨hsame.1, hsame.2⟩⟩
  | replaceTransport log compactedThrough hlog => exact absurd rfl hreplace
  | observe hrunning hclamped => exact ⟨⟨h.rows, h.reads⟩, ⟨hsame.1, hsame.2⟩⟩
  | clampRetired batches hrunning hclamped => exact ⟨⟨h.rows, h.reads⟩, ⟨hsame.1, hsame.2⟩⟩
  | clamp batches hrunning hclamped hobserved hidle =>
      exact ⟨⟨h.rows, h.reads⟩, ⟨hsame.1, hsame.2⟩⟩
  | finish hclamped => exact ⟨⟨h.rows, h.reads⟩, ⟨hsame.1, hsame.2⟩⟩
  | fail => exact ⟨⟨h.rows, h.reads⟩, ⟨hsame.1, hsame.2⟩⟩
  | restart _ hopened => exact absurd rfl hrestart

end Beside

/-! ## The rebase -/

/-- Every local row of the site is in the log. -/
def Flushed (d : Device) (site : Site) : Prop :=
  ∀ r ∈ d.client.db.changes, r.siteId = site → InLog d r

/-- A row is in the log, or among those a pass is about to append. -/
def Pending (d : Device) (read : Read) : Prop :=
  ∀ r ∈ d.client.db.changes, r.siteId = read.site →
    InLog d r ∨ (r ∈ read.rows ∧ read ∈ d.client.reads)

/-- What holds where the rebase stands. -/
def Stage (d : Device) : Task → Prop
  | .idle | .failed _ => Watermark.Inv d
  | .publishing _ todo => Watermark.Inv d ∧ d.clamped = true ∧
      (∀ site ∈ todo, d.client.ownSite site = true) ∧
      ∀ site, d.client.ownSite site = true → site ∉ todo → Flushed d site
  | .reading _ read todo => Watermark.Inv d ∧ d.clamped = true ∧
      (∀ site ∈ todo, d.client.ownSite site = true) ∧
      (∀ site, d.client.ownSite site = true → site ∉ todo → site ≠ read.site → Flushed d site) ∧
      d.client.ownSite read.site = true ∧ Pending d read
  | .building _ => Watermark.Inv d ∧ d.clamped = true ∧
      ∀ site, d.client.ownSite site = true → Flushed d site
  | .swapped old own _ | .succeeded old own => Logged d ∧
      ∀ r ∈ old.changes, r.siteId ∈ own → InLog d r

section Stage

variable {d d' : Device}

theorem Flushed.beside {site : Site} (h : Flushed d site) (hbase : Base d) (hbeside : Beside d d')
    (hown : d.client.ownSite site = true) : Flushed d' site := by
  intro r hr hsite
  rcases hbeside.rows r hr (hsite ▸ hown) with hr | hr
  · exact hbeside.keeps.inLog hbase.log_rows (h r hr hsite)
  · exact hr

theorem Pending.beside {read : Read} (h : Pending d read) (hbase : Base d)
    (hbeside : Beside d d') (hown : d.client.ownSite read.site = true) : Pending d' read := by
  intro r hr hsite
  rcases hbeside.rows r hr (hsite ▸ hown) with hr | hr
  · rcases h r hr hsite with hr | ⟨hr, hread⟩
    · exact .inl (hbeside.keeps.inLog hbase.log_rows hr)
    · rcases hbeside.reads read hread with hread | hin
      · exact .inr ⟨hr, hread⟩
      · exact .inl (hin r hr)
  · exact .inl hr

/-- The other steps leave the rebase where it stands. -/
theorem Stage.background {e : Watermark.Event} {task : Task} (h : Stage d task)
    (hcond : Watermark.cond d e) (hreplace : e = .replaceTransport → task = .idle)
    (hstep : Watermark.Step d e d') (hwrite : e ≠ .write) (hrebase : e ≠ .rebase)
    (hrestart : e ≠ .restart) : Stage d' task := by
  cases task with
  | idle => exact Watermark.Inv.step h hcond hstep
  | failed saved => exact Watermark.Inv.step h hcond hstep
  | publishing saved todo =>
      obtain ⟨hinv, hc, htodo, hflushed⟩ := h
      have hbeside := beside_of_step hinv hc hstep hwrite hrebase hrestart
        fun he => nomatch hreplace he
      refine ⟨hinv.step hcond hstep, hbeside.clamped,
        fun site hsite => (hbeside.own site).mpr (htodo site hsite), fun site hown hsite => ?_⟩
      have hown := (hbeside.own site).mp hown
      exact (hflushed site hown hsite).beside hinv.base hbeside hown
  | reading saved read todo =>
      obtain ⟨hinv, hc, htodo, hflushed, hread, hpending⟩ := h
      have hbeside := beside_of_step hinv hc hstep hwrite hrebase hrestart
        fun he => nomatch hreplace he
      refine ⟨hinv.step hcond hstep, hbeside.clamped,
        fun site hsite => (hbeside.own site).mpr (htodo site hsite), fun site hown hsite hne => ?_,
        (hbeside.own _).mpr hread, hpending.beside hinv.base hbeside hread⟩
      have hown := (hbeside.own site).mp hown
      exact (hflushed site hown hsite hne).beside hinv.base hbeside hown
  | building saved =>
      obtain ⟨hinv, hc, hflushed⟩ := h
      have hbeside := beside_of_step hinv hc hstep hwrite hrebase hrestart
        fun he => nomatch hreplace he
      refine ⟨hinv.step hcond hstep, hbeside.clamped, fun site hown => ?_⟩
      have hown := (hbeside.own site).mp hown
      exact (hflushed site hown).beside hinv.base hbeside hown
  | swapped old own closed =>
      obtain ⟨hlogged, hin⟩ := h
      obtain ⟨hlogged', hkeeps⟩ := hlogged.step hstep hrestart fun he => nomatch hreplace he
      exact ⟨hlogged', fun r hr hsite => hkeeps.inLog hlogged.rows (hin r hr hsite)⟩
  | succeeded old own =>
      obtain ⟨hlogged, hin⟩ := h
      obtain ⟨hlogged', hkeeps⟩ := hlogged.step hstep hrestart fun he => nomatch hreplace he
      exact ⟨hlogged', fun r hr hsite => hkeeps.inLog hlogged.rows (hin r hr hsite)⟩

/-- A transaction commits to the live database. -/
theorem Stage.commit {task : Task} (h : Stage d task)
    (hcond : task.over = true ∨
      ∃ saved todo, task = .publishing saved todo ∧ d.client.db.siteId ∈ todo)
    (hstep : Watermark.Step d .write d') : Stage d' task := by
  have hfree : Watermark.cond d .write := trivial
  cases task with
  | idle => exact Watermark.Inv.step h hfree hstep
  | failed saved => exact Watermark.Inv.step h hfree hstep
  | publishing saved todo =>
      obtain ⟨hinv, hc, htodo, hflushed⟩ := h
      have hcurrent : d.client.db.siteId ∈ todo := by
        rcases hcond with hover | ⟨_, _, heq, hmem⟩
        · cases hover
        · cases heq
          exact hmem
      have hinv' := hinv.step hfree hstep
      cases hstep with
      | write db' hcommit =>
        have hown : ∀ site, ({ d.client with db := db' } : Client).ownSite site =
            d.client.ownSite site := by
          intro site
          simp only [Client.ownSite, hcommit.siteId]
        refine ⟨hinv', hc, fun site hsite => (hown site).trans (htodo site hsite),
          fun site hs hsite r hr hrsite => ?_⟩
        rcases hcommit.changes r hr with hr | ⟨hnew, _⟩
        · exact hflushed site ((hown site).symm.trans hs) hsite r hr hrsite
        · -- the rows of the current site are still to be read
          exact absurd (hrsite ▸ hnew ▸ hcurrent) hsite
  | reading saved read todo =>
      rcases hcond with hover | ⟨_, _, heq, _⟩
      · cases hover
      · cases heq
  | building saved =>
      rcases hcond with hover | ⟨_, _, heq, _⟩
      · cases hover
      · cases heq
  | swapped old own closed =>
      rcases hcond with hover | ⟨_, _, heq, _⟩
      · cases hover
      · cases heq
  | succeeded old own =>
      obtain ⟨hlogged, hin⟩ := h
      obtain ⟨hlogged', hkeeps⟩ := hlogged.step hstep (by simp) (by simp)
      exact ⟨hlogged', fun r hr hsite => hkeeps.inLog hlogged.rows (hin r hr hsite)⟩

theorem Stage.step {s s' : Engine} {e : Event} (h : Stage s.device s.task) (hcond : cond s e)
    (hstep : Step s e s') : Stage s'.device s'.task := by
  cases hstep with
  | background e d hstep hwrite hrebase hrestart =>
      exact h.background hcond.1 hcond.2 hstep hwrite hrebase hrestart
  | call hover => exact h
  | commit d hcalls hstep => exact h.commit hcond hstep
  | reject => exact h
  | persist => exact h
  | setState => exact h
  | start hidle =>
      rw [hidle] at h
      exact ⟨h, hcond, fun site hsite => mem_ownSites.mp hsite,
        fun site hown hsite => absurd (mem_ownSites.mpr hown) hsite⟩
  | read saved site todo htask =>
      rw [htask] at h
      obtain ⟨hinv, hc, htodo, hflushed⟩ := h
      -- what is above the watermark is in the read, what is below in the log
      have hown := htodo site List.mem_cons_self
      have hsound := (hinv.tight hc).published site hown
      have hfree : Watermark.cond s.device (.read site) := trivial
      refine ⟨hinv.step hfree (.read _ site (mem_ownSites.mpr hown)), hc,
        fun site' hsite' => htodo site' (List.mem_cons_of_mem _ hsite'),
        fun site' hs hsite' hne => hflushed site' hs fun hmem => ?_, hown, fun r hr hrsite => ?_⟩
      · rcases List.mem_cons.mp hmem with heq | hmem
        · exact hne heq
        · exact hsite' hmem
      · by_cases hle : r.dbVersion ≤ s.device.client.published.at site
        · exact .inl (hsound.rows r hr hrsite hle)
        · refine .inr ⟨mem_readChangesForSite.mpr ⟨hr, hrsite, by omega⟩, ?_⟩
          exact List.mem_append_right _ List.mem_cons_self
  | readFails => exact hcond.elim
  | append saved read todo makeBatchId htask =>
      rw [htask] at h
      obtain ⟨hinv, hc, htodo, hflushed, hown, hpending⟩ := h
      dsimp only
      split
      · next hread =>
        -- the batches of the read reach the log; other sites keep what they had
        have hbeside := Beside.publish hinv.base (hinv.tight hc) hc makeBatchId hread
        have hfree : Watermark.cond s.device (.publish read) := trivial
        refine ⟨hinv.step hfree (.publish _ read makeBatchId hread), hc,
          fun site hsite => (hbeside.own site).mpr (htodo site hsite), fun site hs hsite => ?_⟩
        have hs := (hbeside.own site).mp hs
        by_cases heq : site = read.site
        · intro r hr hrsite
          rcases hpending.beside hinv.base hbeside hown r hr (hrsite.trans heq) with hr | ⟨hr, _⟩
          · exact hr
          · refine ((hinv.tight hc).publish_rows hinv.base makeBatchId hread ?_ ?_ r hr).1
            · rfl
            · rfl
        · exact (hflushed site hs hsite heq).beside hinv.base hbeside hs
      · next hread =>
        refine ⟨hinv, hc, htodo, fun site hs hsite => ?_⟩
        by_cases heq : site = read.site
        · intro r hr hrsite
          exact (hpending r hr (hrsite.trans heq)).resolve_right fun h => hread h.2
        · exact hflushed site hs hsite heq
  | build saved htask =>
      rw [htask] at h
      exact ⟨h.1, h.2.1, fun site hs => h.2.2.2 site hs List.not_mem_nil⟩
  | fail saved htask =>
      rw [htask] at h
      exact h.1
  | swap saved d htask hcalls hstep =>
      rw [htask] at h
      obtain ⟨hinv, hc, hflushed⟩ := h
      -- nothing can be committed any more, and all of it is in the log
      have hlogged := logged_of_base hinv.base
      obtain ⟨hlogged', hkeeps⟩ := hlogged.step hstep (by simp) (by simp)
      refine ⟨hlogged', fun r hr hsite => hkeeps.inLog hlogged.rows ?_⟩
      exact hflushed r.siteId (mem_ownSites.mp hsite) r hr rfl
  | close old own htask =>
      rw [htask] at h
      exact h
  | finish old own htask =>
      rw [htask] at h
      exact h

end Stage

/-! ## A rebase that fails -/

def Task.saved : Task → Option Saved
  | .publishing saved _ | .reading saved _ _ | .building saved | .failed saved => some saved
  | _ => none

/-- As long as nothing else ran, what was saved is what there is. -/
structure AsSaved (s : Engine) (saved : Saved) : Prop where
  db : s.device.client.db = saved.client.db
  cursor : s.device.client.cursor = saved.client.cursor
  snapshot : s.snapshot = saved.snapshot
  published : ∀ site, s.device.client.published.at site = saved.client.published.at site ∨
    ∃ b ∈ s.device.log, b.siteId = site ∧ s.device.client.published.at site = b.toDbVersion
  state : ∀ failed, s.task = .failed failed → s.state = saved.state

def Untouched (s : Engine) : Prop :=
  ∀ saved, s.task.saved = some saved →
    saved.touches ≤ s.touches ∧ (s.touches = saved.touches → AsSaved s saved)

theorem Untouched.touch {s s' : Engine} (h : Untouched s) (htask : s'.task.saved = s.task.saved)
    (htouches : s'.touches = s.touches + 1) : Untouched s' := by
  intro saved hsaved
  have hle := (h saved (htask ▸ hsaved)).1
  exact ⟨by omega, fun heq => by omega⟩

/-- A step of the rebase that leaves the device alone. -/
theorem Untouched.stay {s s' : Engine} (h : Untouched s) (htask : s'.task.saved = s.task.saved)
    (htouches : s'.touches = s.touches) (hdevice : s'.device = s.device)
    (hsnapshot : s'.snapshot = s.snapshot)
    (hstate : ∀ saved, s'.task = .failed saved → s.task = .failed saved ∧ s'.state = s.state ∨
      s'.state = saved.state) : Untouched s' := by
  intro saved hsaved
  obtain ⟨hle, has⟩ := h saved (htask ▸ hsaved)
  refine ⟨htouches ▸ hle, fun heq => ?_⟩
  have has := has (htouches ▸ heq)
  refine ⟨hdevice ▸ has.db, hdevice ▸ has.cursor, hsnapshot ▸ has.snapshot, hdevice ▸ has.published,
    fun failed hfailed => ?_⟩
  rcases hstate failed hfailed with ⟨hold, hsame⟩ | hnew
  · rw [hsame]
    exact has.state failed hold
  · rw [hfailed] at hsaved
    cases hsaved
    exact hnew

/-- The watermarks after `publishNow` are those from before or ends of batches it
appended. -/
theorem at_publishNow_end (c : Client) (makeBatchId : Nat → String) (read : Read) (site : Site) :
    (c.publishNow makeBatchId read).published.at site = c.published.at site ∨
      ∃ b ∈ c.publishedBatches makeBatchId read, b.siteId = site ∧
        (c.publishNow makeBatchId read).published.at site = b.toDbVersion := by
  rcases at_foldl_batchesOf read.site site c.schemaVersion read.since makeBatchId
    (Client.chunkRows [] read.rows) c.published with heq | ⟨rfl, changes, hchunk, heq⟩
  · exact .inl heq
  · have hself : Joined Batch.fromDbVersion Batch.toDbVersion read.since
        (c.publishedBatches makeBatchId read) read.since := .base le_rfl
    obtain ⟨b, hb, _, hto, _⟩ := joined_batchesOf (fun _ hb => hb) hself changes hchunk
    exact .inr ⟨b, hb, (Client.siteId_of_mem_batchesOf hb).1, heq.trans hto.symm⟩

theorem Untouched.step {s s' : Engine} {e : Event} (h : Untouched s) (hstep : Step s e s') :
    Untouched s' := by
  cases hstep with
  | background e d hstep hwrite hrebase hrestart => exact h.touch rfl rfl
  | call hover => exact h.stay rfl rfl rfl rfl fun _ hfailed => .inl ⟨hfailed, rfl⟩
  | commit d hcalls hstep => exact h.touch rfl rfl
  | reject => exact h.stay rfl rfl rfl rfl fun _ hfailed => .inl ⟨hfailed, rfl⟩
  | persist => exact h.touch rfl rfl
  | setState => exact h.touch rfl rfl
  | start hidle =>
      intro saved hsaved
      cases hsaved
      exact ⟨le_rfl, fun _ => ⟨rfl, rfl, rfl, fun _ => .inl rfl, nofun⟩⟩
  | read saved site todo htask =>
      intro saved' hsaved
      obtain ⟨hle, has⟩ := h saved' (by rw [htask]; exact hsaved)
      refine ⟨hle, fun heq => ?_⟩
      have has := has heq
      exact ⟨has.db, has.cursor, has.snapshot, has.published, nofun⟩
  | readFails saved site todo htask =>
      exact h.stay (by rw [htask]; rfl) rfl rfl rfl nofun
  | append saved read todo makeBatchId htask =>
      intro saved' hsaved
      obtain ⟨hle, has⟩ := h saved' (by rw [htask]; exact hsaved)
      refine ⟨hle, fun heq => ?_⟩
      have has := has heq
      by_cases hread : read ∈ s.device.client.reads
      · refine ⟨?_, ?_, has.snapshot, fun site => ?_, nofun⟩
        · rw [if_pos hread]
          exact has.db
        · rw [if_pos hread]
          exact has.cursor
        · rw [if_pos hread]
          rcases at_publishNow_end s.device.client makeBatchId read site with hsame |
            ⟨b, hb, hsite, hto⟩
          · rcases has.published site with hold | ⟨b, hb, hsite, hto⟩
            · exact .inl (hsame.trans hold)
            · exact .inr ⟨b, List.mem_append_left _ hb, hsite, hsame.trans hto⟩
          · exact .inr ⟨b, List.mem_append_right _ hb, hsite, hto⟩
      · refine ⟨?_, ?_, has.snapshot, ?_, nofun⟩
        · rw [if_neg hread]
          exact has.db
        · rw [if_neg hread]
          exact has.cursor
        · rw [if_neg hread]
          exact has.published
  | build saved htask => exact h.stay (by rw [htask]; rfl) rfl rfl rfl nofun
  | fail saved htask =>
      refine h.stay (by rw [htask]; rfl) rfl rfl rfl fun failed hfailed => .inr ?_
      cases hfailed
      rfl
  | swap saved d htask hcalls hstep => exact fun _ hsaved => by cases hsaved
  | close old own htask => exact fun _ hsaved => by cases hsaved
  | finish old own htask => exact fun _ hsaved => by cases hsaved

theorem reach_restored {s : Engine} (h : Lib.Reach Engine.Ready Step s) : Restored s := by
  have huntouched : Untouched s := by
    refine h.invariant (fun s hready saved hsaved => ?_) fun _ _ _ hs hstep => hs.step hstep
    rw [hready.idle] at hsaved
    cases hsaved
  intro saved htask heq
  have has := (huntouched saved (by rw [htask]; rfl)).2 heq
  exact ⟨has.db, has.cursor, has.snapshot, has.state saved htask, has.published⟩

/-- In a run that meets the condition, a rebase that succeeds loses no change; in every
run, one that fails leaves everything as it was. -/
theorem rebase_loses_nothing {s : Engine} (h : Lib.Reach Engine.Ready (Where cond Step) s) :
    Kept s ∧ Restored s := by
  have hready : ∀ s : Engine, s.Ready → Stage s.device s.task := by
    intro s hready
    rw [hready.idle]
    exact hready.device.invariant (fun _ hopened => hopened.inv)
      fun _ _ _ hinv hstep => hinv.step hstep.1 hstep.2
  have hstep : ∀ (s : Engine) (e : Event) (s' : Engine), Stage s.device s.task →
      Where cond Step s e s' → Stage s'.device s'.task :=
    fun s e s' hs hstep => hs.step hstep.1 hstep.2
  have hstage : Stage s.device s.task := by
    show (fun s : Engine => Stage s.device s.task) s
    exact h.invariant hready hstep
  refine ⟨fun old own htask r hr hsite => ?_, reach_restored h.of_where⟩
  rw [htask] at hstage
  exact .inl (hstage.2 r hr hsite)

/-! ## A transaction that outlives the publish pass -/

/-- A device with two changes, both published, and a call under way. -/
def busy : Engine := ⟨rejoined bothBatches, .idle, .live, none, 1, 0⟩

theorem busy_ready : busy.Ready := ⟨rfl, reach_bothBatches⟩

/-- What the rebase of `busy` starts with. -/
def busySaved : Saved := ⟨busy.device.client, none, .live, 0⟩

/-- The rebase has begun to publish. -/
def started : Engine :=
  { busy with task := .publishing busySaved ["b", "a"], state := .bootstrapping }

/-- A change of the session itself. -/
def lateRow : ChangeRow := { earlierRow 3 with siteId := "b" }

/-- The batch it is published in. -/
def lateBatch : Batch where
  id := "z"
  siteId := "b"
  fromDbVersion := 0
  toDbVersion := 3
  schemaVersion := 1
  changes := [lateRow]
  format := syncFormat

/-- The live database once the call has committed. -/
def late : Db := ⟨"b", 3, [earlierRow 1, earlierRow 2, lateRow]⟩

theorem commits_late : (rejoined bothBatches).client.db.Commits late := ⟨rfl, rfl, by decide⟩

/-- The replacement, with the two changes the server had. -/
def rebuilt : Db := ⟨"c", 2, [earlierRow 1, earlierRow 2]⟩

theorem dbOk_rebuilt : DbOk rebuilt := by
  have hrow : ∀ r ∈ rebuilt.changes, 0 < r.dbVersion ∧ r.siteId ≠ "c" := by decide
  exact ⟨by decide, fun r hr => (hrow r hr).1, fun r hr hsite => absurd hsite (hrow r hr).2⟩

section

variable {cond' : Engine → Event → Prop} {s : Engine} {saved : Saved} {site : Site}
  {todo : List Site} (hfree : ∀ (s : Engine) (e : Event), e ≠ .commit → cond s e → cond' s e)

include hfree

/-- A site with nothing to publish. -/
theorem reach_read_append (h : Lib.Reach Engine.Ready (Where cond' Step) s)
    (htask : s.task = .publishing saved (site :: todo)) (hreads : s.device.client.reads = [])
    (hrows : readChangesForSite s.device.client.db site (s.device.client.published.at site) = []) :
    Lib.Reach Engine.Ready (Where cond' Step) { s with task := .publishing saved todo } := by
  have hread := h.step ⟨hfree s .read (by simp) trivial, .read s saved site todo htask⟩
  have happend := hread.step
    ⟨hfree _ .append (by simp) trivial, .append _ saved _ todo (fun _ => "") rfl⟩
  convert happend using 1
  obtain ⟨⟨⟨db, schemaVersion, cursor, published, ids, buffered, reads⟩, log, compacted, seen,
    applying, running, initial, clamped⟩, task, state, snapshot, calls, touches⟩ := s
  cases hreads
  have hrows : readChangesForSite db site (published.at site) = [] := hrows
  simp [Client.readOwn, hrows, Client.publishNow, Client.publishedBatches, Client.chunkRows,
    Client.batchesOf]

/-- What is left to do when all is published. -/
theorem reach_finish (h : Lib.Reach Engine.Ready (Where cond' Step) s)
    (htask : s.task = .publishing saved []) (hcalls : s.calls = 0)
    (hsite : ∀ b ∈ s.device.seen, b.siteId ≠ "c") :
    ∃ s', Lib.Reach Engine.Ready (Where cond' Step) s' ∧
      s'.task = .succeeded s.device.client.db s.device.client.ownSites ∧
      s'.device.client.db = rebuilt ∧ s'.device.log = s.device.log ∧
      s'.device.compactedThrough = s.device.compactedThrough := by
  have hbuild := h.step ⟨hfree _ .build (by simp) trivial, .build _ saved htask⟩
  have hswap := hbuild.step ⟨hfree _ .swap (by simp) trivial,
    .swap _ saved _ rfl hcalls (.rebase _ rebuilt [("a", 2)] dbOk_rebuilt hsite)⟩
  have hclose := hswap.step ⟨hfree _ .close (by simp) trivial, .close _ _ _ rfl⟩
  have hfinish := hclose.step ⟨hfree _ .finish (by simp) trivial, .finish _ _ _ rfl⟩
  exact ⟨_, hfinish, rfl, rfl, rfl, rfl⟩

end

theorem reach_started {cond' : Engine → Event → Prop}
    (hfree : ∀ (s : Engine) (e : Event), e ≠ .commit → cond s e → cond' s e) :
    Lib.Reach Engine.Ready (Where cond' Step) started :=
  (Lib.Reach.start busy_ready).step
    ⟨hfree busy .start (by simp) (show busy.device.clamped = true from rfl), .start busy rfl⟩

/-- The engine after the commit, while `todo` is still to be read. -/
def committed (todo : List Site) : Engine :=
  { started with
    device := { started.device with client := { started.device.client with db := late } }
    task := .publishing busySaved todo
    calls := 0
    touches := 1 }

theorem readChanges_none (db : Db) (site : Site) (since : Int)
    (h : db.changes.filter (fun r => r.siteId == site && decide (since < r.dbVersion)) = []) :
    readChangesForSite db site since = [] := by
  rw [readChangesForSite, h, List.mergeSort_nil]

/-- The call commits before the rows of the current site are read: the pass publishes its
change, and the rebase keeps it. -/
theorem rebase_loses_nothing_committed : ∃ s : Engine,
    (∃ own, s.task = .succeeded late own ∧ lateRow ∈ late.changes ∧ "b" ∈ own) ∧
      Kept s ∧ Restored s := by
  have hcommit : Lib.Reach Engine.Ready (Where cond Step) (committed ["b", "a"]) :=
    (reach_started fun _ _ _ h => h).step
      ⟨show cond started .commit from .inr ⟨busySaved, ["b", "a"], rfl, List.mem_cons_self⟩,
        .commit started _ Nat.one_pos (.write _ late commits_late)⟩
  have hrows : readChangesForSite late "b" 0 = [lateRow] := by
    have hfilter : late.changes.filter (fun r => r.siteId == "b" && decide (0 < r.dbVersion)) =
        [lateRow] := by decide
    rw [readChangesForSite, hfilter, List.mergeSort_singleton]
  have hread := hcommit.step ⟨show cond _ .read from trivial, .read _ busySaved "b" ["a"] rfl⟩
  have happend := hread.step
    ⟨show cond _ .append from trivial, .append _ busySaved _ ["a"] (fun _ => "z") rfl⟩
  have hpublished : Lib.Reach Engine.Ready (Where cond Step)
      { committed ["a"] with
        device := { (committed ["a"]).device with
          client := { (committed ["a"]).device.client with
            published := [("a", 2), ("b", 3)]
            appliedBatchIds := ["z"] }
          log := bothBatches ++ [lateBatch]
          seen := bothBatches ++ [lateBatch] } } := by
    convert happend using 1
    simp [committed, started, busy, rejoined, restored, Client.fresh, Client.readOwn, Cursor.at,
      Assoc.get, hrows, Client.publishNow, Client.publishedBatches, Client.chunkRows,
      Client.batchesOf, lateBatch]
    decide
  have hlast := reach_read_append (fun _ _ _ h => h) hpublished rfl rfl
    (readChanges_none _ _ _ (by decide))
  obtain ⟨s, hreach, htask, -⟩ := reach_finish (fun _ _ _ h => h) hlast rfl rfl (by decide)
  exact ⟨s, ⟨_, htask, by decide, by decide⟩, rebase_loses_nothing hreach⟩

/-- The rows of the current site have been read when the call commits; its change is neither
in the log nor in the replacement. -/
theorem not_rebase_loses_nothing :
    ∃ s : Engine, Lib.Reach Engine.Ready Step s ∧ s.task = .succeeded late ["b", "a"] ∧
      ¬Kept s := by
  have hfree : ∀ (s : Engine) (e : Event), e ≠ .commit → cond s e → True := fun _ _ _ _ => trivial
  have hfirst := reach_read_append hfree (reach_started hfree) rfl rfl
    (readChanges_none _ _ _ (by decide))
  have hcommit : Lib.Reach Engine.Ready (Where (fun _ _ => True) Step) (committed ["a"]) :=
    hfirst.step ⟨trivial, .commit _ _ Nat.one_pos (.write _ late commits_late)⟩
  have hsecond := reach_read_append hfree hcommit rfl rfl (readChanges_none _ _ _ (by decide))
  obtain ⟨s, hreach, htask, hdb, hlog, hcompacted⟩ := reach_finish hfree hsecond rfl rfl (by decide)
  refine ⟨s, hreach.of_where, htask, fun h => ?_⟩
  rcases h _ _ htask lateRow (by decide) (by decide) with hin | hr
  · rcases hin with hle | ⟨b, hb, hsite, _⟩
    · rw [hcompacted] at hle
      exact absurd hle (by decide)
    · rw [hlog] at hb
      rcases List.mem_pair.mp hb with rfl | rfl
      · exact absurd hsite (by decide)
      · exact absurd hsite (by decide)
  · rw [hdb] at hr
    exact absurd hr (by decide)

end Realtime.PluginDb.Rebase
