import Realtime.PluginDb.Client

/-!
# Every batch of the log can be applied

The server commits to its own replica and publishes what it committed with
`publish_own_batch`. A client starts a batch where its last one ended; the
server starts it just below the first row of the transaction. The two agree as
long as nothing but the server's own transactions advances the replica's
version: a merge in between leaves a gap that no client ever gets over.

The log is the one all documents converge to. A device works on whichever part
of it has reached it.
-/

namespace Realtime.PluginDb

open Lib

/-! ## The server's side -/

/-- `PendingPublish`, a row of the publication outbox. -/
structure PendingPublish where
  batchId : String
  rows : List ChangeRow
  siteHex : Site
  post : Int
  deriving DecidableEq

/-- What `publish_own_batch` reads of the document. -/
structure LogView where
  batches : List Batch
  schemaVersion : Int

structure Server where
  db : Db
  outbox : List PendingPublish
  deriving DecidableEq

/-- `execute_against_replica` and `apply_dump_rollback`, once the transaction
has turned the replica into `db'`: the outbox row is written with it. -/
def Server.execute (s : Server) (db' : Db) (batchId : String) : Server :=
  let pre := s.db.dbVersion
  let post := db'.dbVersion
  let rows := readChangesForSite db' s.db.siteId pre
  { db := db'
    outbox := if rows = [] then s.outbox else s.outbox ++ [⟨batchId, rows, s.db.siteId, post⟩] }

/-- `from` of `publish_own_batch`. -/
def PendingPublish.fromDbVersion (p : PendingPublish) : Int :=
  ((p.rows.map (·.dbVersion)).min?).getD p.post - 1

/-- The batch of `publish_own_batch`. -/
def PendingPublish.batch (view : LogView) (p : PendingPublish) : Batch where
  id := p.batchId
  siteId := p.siteHex
  fromDbVersion := p.fromDbVersion
  toDbVersion := p.post
  schemaVersion :=
    if view.schemaVersion ≠ 0 then view.schemaVersion
    else (view.batches.getLast?.map (·.schemaVersion)).getD 1
  changes := p.rows
  format := ((view.batches.getLast?.map (·.format)).filter (· ≠ "")).getD syncFormat

/-- What `publish_own_batch` appends. -/
def publishOwnBatch (view : LogView) (p : PendingPublish) : List Batch :=
  if view.batches.any (·.id == p.batchId) then [] else [p.batch view]

/-! ## Runs -/

variable {ι : Type} [DecidableEq ι]

structure System (ι : Type) where
  clients : ι → Client
  server : Server
  log : List Batch

/-- Every database is new and has a site id of its own. -/
structure System.Initial (σ : System ι) : Prop where
  clients : ∀ i, ∃ siteHex schemaVersion, σ.clients i = Client.fresh siteHex schemaVersion
  server : σ.server = ⟨⟨σ.server.db.siteId, 0, []⟩, []⟩
  log : σ.log = []
  sites : ∀ i j, (σ.clients i).db.siteId = (σ.clients j).db.siteId → i = j
  serverSite : ∀ i, (σ.clients i).db.siteId ≠ σ.server.db.siteId

def System.setClient (σ : System ι) (i : ι) (c : Client) : System ι :=
  { σ with clients := Function.update σ.clients i c }

@[simp] theorem System.setClient_self (σ : System ι) (i : ι) (c : Client) :
    (σ.setClient i c).clients i = c := Function.update_self ..

theorem System.setClient_ne (σ : System ι) {i j : ι} (h : j ≠ i) (c : Client) :
    (σ.setClient i c).clients j = σ.clients j := Function.update_of_ne h ..

/-- An id no batch and no outbox row has. -/
def System.Unused (σ : System ι) (id : String) : Prop :=
  (∀ b ∈ σ.log, b.id ≠ id) ∧ ∀ p ∈ σ.server.outbox, p.batchId ≠ id

/-- A device or the server does something with its database or the log. -/
inductive Event (ι : Type) where
  | localWrite (i : ι)
  | readOwn (i : ι)
  | publishNow (i : ι)
  | applyBatches (i : ι)
  | replicate
  | serverWrite
  | publishOwnBatch
  | deletePending

/-- One step. Transactions of the server run under its write lock, which every
earlier outbox row has left by then (`flush_pending_locked`). -/
inductive Step : System ι → Event ι → System ι → Prop
  | localWrite (σ : System ι) (i : ι) (db' : Db) (hcommit : (σ.clients i).db.Commits db') :
      Step σ (.localWrite i) (σ.setClient i { σ.clients i with db := db' })
  | readOwn (σ : System ι) (i : ι) (site : Site) (hsite : site ∈ (σ.clients i).ownSites) :
      Step σ (.readOwn i) (σ.setClient i ((σ.clients i).readOwn site))
  | publishNow (σ : System ι) (i : ι) (read : Read) (makeBatchId : Nat → String)
      (hread : read ∈ (σ.clients i).reads)
      (hnodup : (((σ.clients i).publishedBatches makeBatchId read).map (·.id)).Nodup)
      (hunused : ∀ b ∈ (σ.clients i).publishedBatches makeBatchId read, σ.Unused b.id) :
      Step σ (.publishNow i)
        { σ.setClient i ((σ.clients i).publishNow makeBatchId read) with
          log := σ.log ++ (σ.clients i).publishedBatches makeBatchId read }
  | applyBatches (σ : System ι) (i : ι) (applies : Batch → Bool) (seen : List Batch) (db' : Db)
      (hseen : ∀ b ∈ seen, b ∈ σ.log)
      (hmerge : (σ.clients i).db.Merges
        (((σ.clients i).applyBatches applies [] seen).merged.flatMap (·.changes)) db') :
      Step σ (.applyBatches i)
        (σ.setClient i { ((σ.clients i).applyBatches applies [] seen).client with db := db' })
  | replicate (σ : System ι) (seen : List Batch) (db' : Db) (hseen : ∀ b ∈ seen, b ∈ σ.log)
      (hmerge : σ.server.db.Merges (seen.flatMap (·.changes)) db') :
      Step σ .replicate { σ with server := { σ.server with db := db' } }
  | serverWrite (σ : System ι) (db' : Db) (batchId : String) (hflushed : σ.server.outbox = [])
      (hcommit : σ.server.db.Commits db') (hunused : σ.Unused batchId) :
      Step σ .serverWrite { σ with server := σ.server.execute db' batchId }
  | publishOwnBatch (σ : System ι) (p : PendingPublish) (rest : List PendingPublish)
      (view : LogView) (houtbox : σ.server.outbox = p :: rest)
      (hview : ∀ b ∈ view.batches, b ∈ σ.log)
      (hown : ∀ b ∈ σ.log, b.siteId = σ.server.db.siteId → b ∈ view.batches) :
      Step σ .publishOwnBatch { σ with log := σ.log ++ publishOwnBatch view p }
  | deletePending (σ : System ι) (p : PendingPublish) (rest : List PendingPublish)
      (houtbox : σ.server.outbox = p :: rest) (hpublished : ∃ b ∈ σ.log, b.id = p.batchId) :
      Step σ .deletePending { σ with server := { σ.server with outbox := rest } }

/-- States reached by runs in which every server transaction meets `cond`. -/
inductive Reach (cond : System ι → Prop) : System ι → Prop
  | initial {σ : System ι} : σ.Initial → Reach cond σ
  | step {σ σ' : System ι} {e : Event ι} : Reach cond σ → Step σ e σ' →
      (e = .serverWrite → cond σ) → Reach cond σ'

/-- The replica is at the version the server's own last batch ended at: no merge
has advanced it since. -/
def System.Unmerged (σ : System ι) : Prop :=
  σ.server.db.dbVersion = 0 ∨
    ∃ b ∈ σ.log, b.siteId = σ.server.db.siteId ∧ b.toDbVersion = σ.server.db.dbVersion

/-- A batch that `c` has marked, and whose range is in its database. -/
def Client.Applied (c : Client) (b : Batch) : Prop :=
  b.id ∈ c.appliedBatchIds ∧
    (b.siteId = c.db.siteId ∨ b.toDbVersion ≤ c.cursor.at b.siteId)

/-- The batches of every site chain up from 0, and a device that receives the
whole log, can read its schemas and fails no transaction applies all of it. -/
def System.Delivers (σ : System ι) : Prop :=
  Chained σ.log ∧
    ∀ i seen, (∀ b, b ∈ seen ↔ b ∈ σ.log) →
      (∀ b ∈ σ.log, b.schemaVersion ≤ (σ.clients i).schemaVersion) →
      ∀ b ∈ σ.log, ((σ.clients i).applyBatches (fun _ => true) [] seen).client.Applied b

/-! ## The invariant of a run -/

/-- What holds of one device. -/
structure Client.Inv (log : List Batch) (c : Client) : Prop where
  tracks : c.Tracks log
  known : ∀ id ∈ c.appliedBatchIds, ∃ b ∈ log, b.id = id
  published : Reached log c.db.siteId (c.published.at c.db.siteId)
  reads : ∀ read ∈ c.reads, read.site = c.db.siteId ∧ Reached log read.site read.since ∧
    (read.rows.Pairwise fun r r' => r.dbVersion ≤ r'.dbVersion) ∧
    ∀ r ∈ read.rows, r.siteId = c.db.siteId ∧ read.since < r.dbVersion

/-- What holds of the server: its rows are within its version wherever they
are, and the outbox row starts where the log reaches. -/
structure Server.Inv (log : List Batch) (s : Server) : Prop where
  changes : ∀ r ∈ s.db.changes, r.siteId = s.db.siteId → r.dbVersion ≤ s.db.dbVersion
  logged : ∀ b ∈ log, ∀ r ∈ b.changes, r.siteId = s.db.siteId → r.dbVersion ≤ s.db.dbVersion
  outbox : ∀ p ∈ s.outbox, p.siteHex = s.db.siteId ∧ p.fromDbVersion ≤ p.post ∧
    Reached log s.db.siteId p.fromDbVersion ∧ (∀ r ∈ p.rows, r.dbVersion ≤ s.db.dbVersion) ∧
    ∀ b ∈ log, b.id = p.batchId → b.siteId = s.db.siteId

/-- The batches of each site reach from one to the next, and no two parties have one site. -/
structure System.Inv (σ : System ι) : Prop where
  log : LogOk σ.log
  reached : ∀ b ∈ σ.log, b.fromDbVersion ≤ b.toDbVersion ∧ Reached σ.log b.siteId b.fromDbVersion
  clients : ∀ i, (σ.clients i).Inv σ.log
  server : σ.server.Inv σ.log
  sites : ∀ i j, (σ.clients i).db.siteId = (σ.clients j).db.siteId → i = j
  serverSite : ∀ i, (σ.clients i).db.siteId ≠ σ.server.db.siteId

variable {σ σ' : System ι} {log : List Batch} {c : Client}

theorem reached_self {site : Site} {v : Int} (h : v ≤ 0) : Reached log site v := Or.inl h

omit [DecidableEq ι] in
/-- The end of a batch of the log is reached. -/
theorem System.Inv.reached_to (h : σ.Inv) {b : Batch} (hb : b ∈ σ.log) :
    Reached σ.log b.siteId b.toDbVersion :=
  covered_upper (mem_siteBatches.mpr ⟨hb, rfl⟩) (h.reached b hb).2 (h.reached b hb).1

/-- Batches of other sites with new ids do not concern a device. -/
theorem Client.Inv.append (h : c.Inv log) {bs : List Batch}
    (hsites : ∀ b ∈ bs, b.siteId ≠ c.db.siteId) (hids : ∀ b ∈ bs, b.id ∉ c.appliedBatchIds) :
    c.Inv (log ++ bs) := by
  have hsub : ∀ b ∈ log, b ∈ log ++ bs := fun b hb => List.mem_append_left _ hb
  refine ⟨⟨h.tracks.published, ?_, ?_, h.tracks.nonneg⟩, ?_, h.published.mono hsub, ?_⟩
  · intro b hb hsite
    rcases List.mem_append.mp hb with hb | hb
    · exact h.tracks.own b hb hsite
    · exact absurd hsite (hsites b hb)
  · intro b hb hsite hid
    rcases List.mem_append.mp hb with hb | hb
    · exact h.tracks.marked b hb hsite hid
    · exact absurd hid (hids b hb)
  · intro id hid
    obtain ⟨b, hb, heq⟩ := h.known id hid
    exact ⟨b, hsub b hb, heq⟩
  · intro read hread
    obtain ⟨hsite, hsince, hrows⟩ := h.reads read hread
    exact ⟨hsite, hsince.mono hsub, hrows⟩

/-- Whatever a transaction does to the rows, the bookkeeping stays. -/
theorem Client.Inv.setDb (h : c.Inv log) {db' : Db} (hsite : db'.siteId = c.db.siteId) :
    Client.Inv log { c with db := db' } where
  tracks := ⟨hsite ▸ h.tracks.published, hsite ▸ h.tracks.own, hsite ▸ h.tracks.marked,
    h.tracks.nonneg⟩
  known := h.known
  published := hsite ▸ h.published
  reads := hsite ▸ h.reads

/-- A device changes and keeps its site id. -/
theorem System.Inv.setClient (h : σ.Inv) (i : ι) (c' : Client) (bs : List Batch)
    (hlog : LogOk (σ.log ++ bs))
    (hreached : ∀ b ∈ bs, b.fromDbVersion ≤ b.toDbVersion ∧
      Reached (σ.log ++ bs) b.siteId b.fromDbVersion)
    (hc : c'.Inv (σ.log ++ bs)) (hothers : ∀ j, j ≠ i → (σ.clients j).Inv (σ.log ++ bs))
    (hserver : σ.server.Inv (σ.log ++ bs)) (hsite : c'.db.siteId = (σ.clients i).db.siteId) :
    System.Inv { σ.setClient i c' with log := σ.log ++ bs } := by
  have hsites : ∀ j, ((σ.setClient i c').clients j).db.siteId = (σ.clients j).db.siteId := by
    intro j
    by_cases hj : j = i
    · rw [hj, System.setClient_self, hsite]
    · rw [System.setClient_ne σ hj]
  refine ⟨hlog, ?_, ?_, hserver, ?_, ?_⟩
  · intro b hb
    rcases List.mem_append.mp hb with hb | hb
    · obtain ⟨hle, hcov⟩ := h.reached b hb
      exact ⟨hle, hcov.mono fun b' hb' => List.mem_append_left _ hb'⟩
    · exact hreached b hb
  · intro j
    by_cases hj : j = i
    · subst hj
      show ((σ.setClient j c').clients j).Inv _
      rw [System.setClient_self]
      exact hc
    · show ((σ.setClient i c').clients j).Inv _
      rw [System.setClient_ne σ hj]
      exact hothers j hj
  · intro j k heq
    exact h.sites j k (by rw [← hsites j, ← hsites k]; exact heq)
  · intro j
    show ((σ.setClient i c').clients j).db.siteId ≠ _
    rw [hsites]
    exact h.serverSite j

/-- A device changes and the log does not. -/
theorem System.Inv.setClient_only (h : σ.Inv) (i : ι) {c' : Client} (hc : c'.Inv σ.log)
    (hsite : c'.db.siteId = (σ.clients i).db.siteId) : (σ.setClient i c').Inv := by
  have hset := h.setClient i c' []
  simp only [List.append_nil] at hset
  exact hset h.log (fun b hb => (List.not_mem_nil hb).elim) hc (fun j _ => h.clients j) h.server
    hsite

theorem Client.Inv.readOwn (h : c.Inv log) {site : Site} (hsite : site ∈ c.ownSites) :
    (c.readOwn site).Inv log := by
  have hown : site = c.db.siteId := by
    rcases List.mem_cons.mp hsite with heq | hmem
    · exact heq
    · exact h.tracks.published site hmem
  subst hown
  refine ⟨⟨h.tracks.published, h.tracks.own, h.tracks.marked, h.tracks.nonneg⟩, h.known,
    h.published, ?_⟩
  intro read hread
  rcases List.mem_append.mp hread with hread | hread
  · exact h.reads read hread
  · rw [List.mem_singleton.mp hread]
    refine ⟨rfl, h.published, pairwise_readChangesForSite _ _ _, ?_⟩
    intro r hr
    exact (mem_readChangesForSite.mp hr).2

/-! ## Publishing -/

omit [DecidableEq ι] in
/-- New ids, one for each batch. -/
theorem LogOk.append {log bs : List Batch} (h : LogOk log)
    (hnodup : (bs.map (·.id)).Nodup) (hunused : ∀ b ∈ bs, ∀ b' ∈ log, b'.id ≠ b.id)
    (hformats : ∀ b ∈ bs, b.format = syncFormat) : LogOk (log ++ bs) where
  ids := by
    intro b hb b' hb' heq
    rcases List.mem_append.mp hb with hb | hb <;> rcases List.mem_append.mp hb' with hb' | hb'
    · exact h.ids b hb b' hb' heq
    · exact absurd heq (hunused b' hb' b hb)
    · exact absurd heq.symm (hunused b hb b' hb')
    · exact List.inj_on_of_nodup_map hnodup hb hb' heq
  formats := by
    intro b hb
    rcases List.mem_append.mp hb with hb | hb
    · exact h.formats b hb
    · exact hformats b hb

/-- What `publishNow` leaves in `published`: the end of the last batch. -/
theorem at_foldl_published (site : Site) (batches : List Batch) (published : Cursor)
    (hsite : ∀ b ∈ batches, b.siteId = site) :
    Cursor.at (batches.foldl (fun p b => Assoc.set b.siteId b.toDbVersion p) published) site =
      Client.endOf (published.at site) batches ∧
    ∀ s ∈ Assoc.keys (batches.foldl (fun p b => Assoc.set b.siteId b.toDbVersion p) published),
      s = site ∨ s ∈ Assoc.keys published := by
  induction batches generalizing published with
  | nil => exact ⟨rfl, fun s hs => Or.inr hs⟩
  | cons b batches ih =>
      obtain ⟨hat, hkeys⟩ := ih (Assoc.set b.siteId b.toDbVersion published)
        fun b' hb' => hsite b' (List.mem_cons_of_mem _ hb')
      obtain rfl := hsite b List.mem_cons_self
      refine ⟨?_, ?_⟩
      · rw [List.foldl_cons, hat, Cursor.at_set, if_pos rfl]
        rfl
      · intro s hs
        rcases hkeys s hs with hs | hs
        · exact Or.inl hs
        · rcases Assoc.mem_keys_set.mp hs with hs | hs
          · exact Or.inl hs
          · exact Or.inr hs

theorem publishedBatches_reached (h : c.Inv log) {read : Read} (hread : read ∈ c.reads)
    (makeBatchId : Nat → String) :
    let bs := c.publishedBatches makeBatchId read
    (∀ b ∈ bs, b.siteId = c.db.siteId ∧ b.format = syncFormat ∧
      (∀ r ∈ b.changes, r.siteId = c.db.siteId) ∧ b.fromDbVersion ≤ b.toDbVersion ∧
      Reached (log ++ bs) b.siteId b.fromDbVersion) ∧
    Reached (log ++ bs) c.db.siteId (Client.endOf read.since bs) := by
  obtain ⟨hsite, hsince, hsorted, hrows⟩ := h.reads read hread
  set bs := c.publishedBatches makeBatchId read with hbs
  have hflat : (Client.chunkRows [] read.rows).flatten = read.rows := by
    rw [Client.flatten_chunkRows, List.nil_append]
  have hmem : ∀ b ∈ bs, b.siteId = c.db.siteId ∧ b.format = syncFormat ∧
      b.changes ∈ Client.chunkRows [] read.rows := by
    intro b hb
    obtain ⟨hb1, hb2, hb3⟩ := Client.siteId_of_mem_batchesOf hb
    exact ⟨hb1.trans hsite, hb2, hb3⟩
  have hsub : ∀ b ∈ bs, b ∈ siteBatches (log ++ bs) c.db.siteId :=
    fun b hb => mem_siteBatches.mpr ⟨List.mem_append_right _ hb, (hmem b hb).1⟩
  obtain ⟨hall, hend⟩ := Client.batchesOf_covered read.site c.schemaVersion makeBatchId
    (Client.chunkRows_ne_nil [] read.rows) (by rw [hflat]; exact hsorted)
    (fun r hr => ((hrows r (by rwa [hflat] at hr)).2).le) hsub
    (hsite ▸ hsince.mono fun b hb => List.mem_append_left _ hb)
  refine ⟨?_, hend⟩
  intro b hb
  obtain ⟨hb1, hb2, hb3⟩ := hmem b hb
  refine ⟨hb1, hb2, ?_, (hall b hb).1, hb1 ▸ (hall b hb).2⟩
  intro r hr
  refine (hrows r ?_).1
  rw [← hflat]
  exact List.mem_flatten.mpr ⟨b.changes, hb3, hr⟩

/-- The device that published: its batches are marked and reached. -/
theorem Client.Inv.publishNow (h : c.Inv log) {read : Read} (hread : read ∈ c.reads)
    (makeBatchId : Nat → String)
    (hunused : ∀ b ∈ c.publishedBatches makeBatchId read, ∀ b' ∈ log, b'.id ≠ b.id) :
    (c.publishNow makeBatchId read).Inv (log ++ c.publishedBatches makeBatchId read) := by
  obtain ⟨hall, hend⟩ := publishedBatches_reached h hread makeBatchId
  set bs := c.publishedBatches makeBatchId read with hbs
  obtain ⟨hat, hkeys⟩ := at_foldl_published c.db.siteId bs c.published fun b hb => (hall b hb).1
  have hsub : ∀ b ∈ log, b ∈ log ++ bs := fun b hb => List.mem_append_left _ hb
  refine ⟨⟨?_, ?_, ?_, h.tracks.nonneg⟩, ?_, ?_, ?_⟩
  · intro site hsite
    rcases hkeys site hsite with heq | hmem
    · exact heq
    · exact h.tracks.published site hmem
  · intro b hb hsite
    rcases List.mem_append.mp hb with hb | hb
    · exact List.mem_append_left _ (h.tracks.own b hb hsite)
    · exact List.mem_append_right _ (List.mem_map_of_mem hb)
  · intro b hb hsite hid
    rcases List.mem_append.mp hb with hb | hb
    · rcases List.mem_append.mp hid with hid | hid
      · exact h.tracks.marked b hb hsite hid
      · obtain ⟨b', hb', heq⟩ := List.mem_map.mp hid
        exact absurd heq.symm (hunused b' hb' b hb)
    · exact absurd (hall b hb).1 hsite
  · intro id hid
    rcases List.mem_append.mp hid with hid | hid
    · obtain ⟨b, hb, heq⟩ := h.known id hid
      exact ⟨b, hsub b hb, heq⟩
    · obtain ⟨b, hb, heq⟩ := List.mem_map.mp hid
      exact ⟨b, List.mem_append_right _ hb, heq⟩
  · show Reached _ c.db.siteId (Cursor.at (bs.foldl _ c.published) c.db.siteId)
    rw [hat]
    cases hcase : bs with
    | nil => simpa [hcase, Client.endOf] using h.published
    | cons b rest =>
        rw [hcase] at hend
        exact hend
  · intro r hr
    obtain ⟨hsite, hsince, hrows⟩ := h.reads r (List.mem_of_mem_erase hr)
    exact ⟨hsite, hsince.mono hsub, hrows⟩

/-- Batches the server does not mind: rows of its own site are within its
version, and no other site took an id of its outbox. -/
theorem Server.Inv.append {s : Server} (h : s.Inv log) {bs : List Batch}
    (hrows : ∀ b ∈ bs, ∀ r ∈ b.changes, r.siteId = s.db.siteId → r.dbVersion ≤ s.db.dbVersion)
    (hids : ∀ b ∈ bs, ∀ p ∈ s.outbox, b.id = p.batchId → b.siteId = s.db.siteId) :
    s.Inv (log ++ bs) where
  changes := h.changes
  logged := by
    intro b hb
    rcases List.mem_append.mp hb with hb | hb
    · exact h.logged b hb
    · exact hrows b hb
  outbox := by
    intro p hp
    obtain ⟨hsite, hle, hfrom, hversions, hid⟩ := h.outbox p hp
    refine ⟨hsite, hle, hfrom.mono fun b hb => List.mem_append_left _ hb, hversions, ?_⟩
    intro b hb heq
    rcases List.mem_append.mp hb with hb | hb
    · exact hid b hb heq
    · exact hids b hb p hp heq

theorem System.Inv.publishNow (h : σ.Inv) {i : ι} {read : Read} {makeBatchId : Nat → String}
    (hread : read ∈ (σ.clients i).reads)
    (hnodup : (((σ.clients i).publishedBatches makeBatchId read).map (·.id)).Nodup)
    (hunused : ∀ b ∈ (σ.clients i).publishedBatches makeBatchId read, σ.Unused b.id) :
    System.Inv { σ.setClient i ((σ.clients i).publishNow makeBatchId read) with
      log := σ.log ++ (σ.clients i).publishedBatches makeBatchId read } := by
  obtain ⟨hall, _⟩ := publishedBatches_reached (h.clients i) hread makeBatchId
  -- no device has marked a batch that did not exist
  have hids : ∀ j, ∀ b ∈ (σ.clients i).publishedBatches makeBatchId read,
      b.id ∉ (σ.clients j).appliedBatchIds := by
    intro j b hb hid
    obtain ⟨b', hb', heq⟩ := (h.clients j).known b.id hid
    exact (hunused b hb).1 b' hb' heq
  apply h.setClient i _ _ (h.log.append hnodup (fun b hb => (hunused b hb).1)
    fun b hb => (hall b hb).2.1)
  · intro b hb
    exact (hall b hb).2.2.2
  · exact (h.clients i).publishNow hread makeBatchId fun b hb => (hunused b hb).1
  · intro j hj
    refine (h.clients j).append ?_ (hids j)
    intro b hb heq
    exact hj (h.sites j i (heq.symm.trans (hall b hb).1))
  · refine h.server.append ?_ ?_
    · intro b hb r hr heq
      exact absurd (((hall b hb).2.2.1 r hr).symm.trans heq) (h.serverSite i)
    · intro b hb p hp heq
      exact absurd heq.symm ((hunused b hb).2 p hp)
  · rfl

theorem System.Inv.applyBatches (h : σ.Inv) {i : ι} {applies : Batch → Bool} {seen : List Batch}
    {db' : Db} (hseen : ∀ b ∈ seen, b ∈ σ.log) {rows : List ChangeRow}
    (hmerge : (σ.clients i).db.Merges rows db') :
    (σ.setClient i
      { ((σ.clients i).applyBatches applies [] seen).client with db := db' }).Inv := by
  obtain ⟨htracks, hframe⟩ :=
    Client.applyBatches_tracks applies [] h.log (h.clients i).tracks hseen
  refine h.setClient_only i (Client.Inv.setDb ?_ ?_) hmerge.siteId
  · refine ⟨htracks, ?_, ?_, ?_⟩
    · intro id hid
      rcases hframe.marks id hid with hid | hid
      · exact (h.clients i).known id hid
      · exact hid
    · rw [hframe.published, hframe.db]
      exact (h.clients i).published
    · rw [hframe.reads, hframe.db]
      exact (h.clients i).reads
  · rw [hmerge.siteId, hframe.db]

/-! ## The server's steps -/

theorem Server.Inv.merge {s : Server} (h : s.Inv log) {seen : List Batch} {db' : Db}
    (hseen : ∀ b ∈ seen, b ∈ log) (hmerge : s.db.Merges (seen.flatMap (·.changes)) db') :
    Server.Inv log { s with db := db' } where
  changes := by
    intro r hr hsite
    have hsite' : r.siteId = s.db.siteId := hsite.trans hmerge.siteId
    rcases hmerge.changes r hr with hr | hr
    · exact (h.changes r hr hsite').trans hmerge.dbVersion
    · obtain ⟨b, hb, hr⟩ := List.mem_flatMap.mp hr
      exact (h.logged b (hseen b hb) r hr hsite').trans hmerge.dbVersion
  logged := fun b hb r hr hsite =>
    (h.logged b hb r hr (hsite.trans hmerge.siteId)).trans hmerge.dbVersion
  outbox := by
    intro p hp
    obtain ⟨hsite, hle, hfrom, hversions, hid⟩ := h.outbox p hp
    rw [hmerge.siteId]
    exact ⟨hsite, hle, hfrom, fun r hr => (hversions r hr).trans hmerge.dbVersion, hid⟩

/-- The rows of a transaction carry its version, so the batch starts at the
version the replica had before. -/
theorem fromDbVersion_of_forall {p : PendingPublish} {v : Int} (hne : p.rows ≠ [])
    (h : ∀ r ∈ p.rows, r.dbVersion = v) : p.fromDbVersion = v - 1 := by
  have hsome : ∃ m, (p.rows.map (·.dbVersion)).min? = some m := by
    cases hmin : (p.rows.map (·.dbVersion)).min? with
    | none => exact absurd (by simpa using List.min?_eq_none_iff.mp hmin) hne
    | some m => exact ⟨m, rfl⟩
  obtain ⟨m, hm⟩ := hsome
  obtain ⟨r, hr, rfl⟩ := List.mem_map.mp (List.min?_mem hm)
  rw [PendingPublish.fromDbVersion, hm, Option.getD_some, h r hr]

omit [DecidableEq ι] in
theorem System.Inv.serverWrite (h : σ.Inv) {db' : Db} {batchId : String}
    (hflushed : σ.server.outbox = []) (hcommit : σ.server.db.Commits db')
    (hunused : σ.Unused batchId) (hunmerged : σ.Unmerged) :
    (σ.server.execute db' batchId).Inv σ.log := by
  have hlt : σ.server.db.dbVersion ≤ db'.dbVersion := by
    rw [hcommit.dbVersion]
    omega
  refine ⟨?_, ?_, ?_⟩
  · intro r hr hsite
    rcases hcommit.changes r hr with hr | hr
    · exact (h.server.changes r hr (hsite.trans hcommit.siteId)).trans hlt
    · exact hr.2.le
  · intro b hb r hr hsite
    exact (h.server.logged b hb r hr (hsite.trans hcommit.siteId)).trans hlt
  · intro p hp
    set rows := readChangesForSite db' σ.server.db.siteId σ.server.db.dbVersion with hrows
    have hp' : rows ≠ [] ∧ p = ⟨batchId, rows, σ.server.db.siteId, db'.dbVersion⟩ := by
      by_cases hempty : rows = []
      · simp [Server.execute, ← hrows, hempty, hflushed] at hp
      · exact ⟨hempty, by simpa [Server.execute, ← hrows, hempty, hflushed] using hp⟩
    obtain ⟨hne, rfl⟩ := hp'
    -- every row past the old version is one this transaction wrote
    have hversion : ∀ r ∈ rows, r.dbVersion = db'.dbVersion := by
      intro r hr
      obtain ⟨hr, hsite, hpast⟩ := mem_readChangesForSite.mp hr
      rcases hcommit.changes r hr with hold | hnew
      · exact absurd (h.server.changes r hold hsite) (by omega)
      · exact hnew.2
    have hfrom : PendingPublish.fromDbVersion ⟨batchId, rows, σ.server.db.siteId, db'.dbVersion⟩ =
        σ.server.db.dbVersion := by
      rw [fromDbVersion_of_forall hne hversion, hcommit.dbVersion]
      omega
    refine ⟨hcommit.siteId.symm, ?_, ?_, fun r hr => (hversion r hr).le, ?_⟩
    · rw [hfrom]
      exact hlt
    · rw [hfrom]
      show Reached σ.log db'.siteId _
      rw [hcommit.siteId]
      rcases hunmerged with hzero | ⟨b, hb, hsite, hto⟩
      · exact reached_self hzero.le
      · rw [← hsite, ← hto]
        exact h.reached_to hb
    · intro b hb heq
      exact absurd heq (hunused.1 b hb)

theorem format_batch {view : LogView} {p : PendingPublish}
    (h : ∀ b ∈ view.batches, b.format = syncFormat) : (p.batch view).format = syncFormat := by
  cases hlast : view.batches.getLast? with
  | none => simp [PendingPublish.batch, hlast]
  | some b =>
      simp [PendingPublish.batch, hlast, h b (List.mem_of_getLast? hlast), Option.filter,
        syncFormat]

omit [DecidableEq ι] in
theorem System.Inv.publishOwnBatch (h : σ.Inv) {p : PendingPublish} {rest : List PendingPublish}
    {view : LogView} (houtbox : σ.server.outbox = p :: rest)
    (hview : ∀ b ∈ view.batches, b ∈ σ.log)
    (hown : ∀ b ∈ σ.log, b.siteId = σ.server.db.siteId → b ∈ view.batches) :
    System.Inv { σ with log := σ.log ++ publishOwnBatch view p } := by
  have hp : p ∈ σ.server.outbox := houtbox ▸ List.mem_cons_self
  obtain ⟨hsite, hle, hfrom, hversions, hid⟩ := h.server.outbox p hp
  by_cases hany : view.batches.any (·.id == p.batchId) = true
  · rw [PluginDb.publishOwnBatch, if_pos hany, List.append_nil]
    exact h
  · rw [PluginDb.publishOwnBatch, if_neg hany]
    -- a batch under this id would be the server's own, and in its view
    have hunused : ∀ b ∈ σ.log, b.id ≠ p.batchId := by
      intro b hb heq
      refine hany (List.any_eq_true.mpr ⟨b, hown b hb (hid b hb heq), ?_⟩)
      simpa using heq
    have hsub : ∀ b ∈ σ.log, b ∈ σ.log ++ [p.batch view] :=
      fun b hb => List.mem_append_left _ hb
    refine ⟨?_, ?_, ?_, ?_, h.sites, h.serverSite⟩
    · refine h.log.append (by simp) ?_ ?_
      · intro b hb b' hb'
        rw [List.mem_singleton.mp hb]
        exact hunused b' hb'
      · intro b hb
        rw [List.mem_singleton.mp hb]
        exact format_batch fun b hb => h.log.formats b (hview b hb)
    · intro b hb
      rcases List.mem_append.mp hb with hb | hb
      · exact ⟨(h.reached b hb).1, (h.reached b hb).2.mono hsub⟩
      · rw [List.mem_singleton.mp hb]
        refine ⟨hle, ?_⟩
        show Reached _ p.siteHex p.fromDbVersion
        rw [hsite]
        exact hfrom.mono hsub
    · intro i
      refine (h.clients i).append ?_ ?_
      · intro b hb heq
        rw [List.mem_singleton.mp hb] at heq
        exact h.serverSite i (heq.symm.trans hsite)
      · intro b hb hmem
        rw [List.mem_singleton.mp hb] at hmem
        obtain ⟨b', hb', heq⟩ := (h.clients i).known _ hmem
        exact hunused b' hb' heq
    · refine h.server.append ?_ ?_
      · intro b hb r hr _
        rw [List.mem_singleton.mp hb] at hr
        exact hversions r hr
      · intro b hb _ _ _
        rw [List.mem_singleton.mp hb]
        exact hsite

/-! ## Runs keep the invariant -/

theorem System.Inv.step (h : σ.Inv) {e : Event ι} (hstep : Step σ e σ')
    (hcond : e = .serverWrite → σ.Unmerged) : σ'.Inv := by
  cases hstep with
  | localWrite i db' hcommit =>
      exact h.setClient_only i ((h.clients i).setDb hcommit.siteId) hcommit.siteId
  | readOwn i site hsite => exact h.setClient_only i ((h.clients i).readOwn hsite) rfl
  | publishNow i read makeBatchId hread hnodup hunused => exact h.publishNow hread hnodup hunused
  | applyBatches i applies seen db' hseen hmerge => exact h.applyBatches hseen hmerge
  | replicate seen db' hseen hmerge =>
      exact ⟨h.log, h.reached, h.clients, h.server.merge hseen hmerge, h.sites,
        fun i => hmerge.siteId ▸ h.serverSite i⟩
  | serverWrite db' batchId hflushed hcommit hunused =>
      exact ⟨h.log, h.reached, h.clients,
        h.serverWrite hflushed hcommit hunused (hcond rfl), h.sites,
        fun i => hcommit.siteId ▸ h.serverSite i⟩
  | publishOwnBatch p rest view houtbox hview hown => exact h.publishOwnBatch houtbox hview hown
  | deletePending p rest houtbox hpublished =>
      refine ⟨h.log, h.reached, h.clients, ⟨h.server.changes, h.server.logged, ?_⟩, h.sites,
        h.serverSite⟩
      intro q hq
      exact h.server.outbox q (houtbox ▸ List.mem_cons_of_mem _ hq)

omit [DecidableEq ι] in
theorem System.Initial.inv (h : σ.Initial) : σ.Inv := by
  have hlog := h.log
  refine ⟨?_, ?_, ?_, ?_, h.sites, h.serverSite⟩
  · rw [hlog]
    exact ⟨fun b hb => (List.not_mem_nil hb).elim, fun b hb => (List.not_mem_nil hb).elim⟩
  · rw [hlog]
    exact fun b hb => (List.not_mem_nil hb).elim
  · intro i
    obtain ⟨siteHex, schemaVersion, hfresh⟩ := h.clients i
    rw [hfresh, hlog]
    refine ⟨⟨?_, ?_, ?_, ?_⟩, ?_, reached_self le_rfl, ?_⟩ <;>
      simp [Client.fresh]
  · rw [h.server, hlog]
    exact ⟨by simp, by simp, by simp⟩

theorem Reach.inv (h : Reach System.Unmerged σ) : σ.Inv := by
  induction h with
  | initial hinit => exact hinit.inv
  | step _ hstep hcond ih => exact ih.step hstep hcond

/-- As long as no merge advances the replica between the server's own
transactions, every device can apply every batch of the log. -/
theorem every_batch_applies (h : Reach System.Unmerged σ) : σ.Delivers := by
  have hinv := h.inv
  refine ⟨chained_of_reached fun b hb => (hinv.reached b hb).2, ?_⟩
  intro i seen hseen hschema b hb
  obtain ⟨_, hall⟩ := Client.applyBatches_delivers hinv.log (hinv.clients i).tracks
    (fun b hb => (hinv.reached b hb).2) hseen hschema
  obtain ⟨htracks, hframe⟩ := Client.applyBatches_tracks (fun _ => true) [] hinv.log
    (hinv.clients i).tracks fun b hb => (hseen b).mp hb
  refine ⟨hall b hb, ?_⟩
  by_cases hown : b.siteId =
      ((σ.clients i).applyBatches (fun _ => true) [] seen).client.db.siteId
  · exact Or.inl hown
  · exact Or.inr (htracks.marked b hb hown (hall b hb))

/-! ## Two runs -/

/-- A change of one cell at a version of a site. -/
def cellChange (site : Site) (dbVersion : Int) : ChangeRow :=
  ⟨"notes", "AQ==", "body", "1", 1, dbVersion, site, 1, 0⟩

/-- One device and the server. -/
def alone (c : Client) (s : Server) (log : List Batch) : System Unit := ⟨fun _ => c, s, log⟩

@[simp] theorem alone_setClient (c c' : Client) (s : Server) (log : List Batch) :
    (alone c s log).setClient () c' = alone c' s log := by
  simp only [System.setClient, alone, System.mk.injEq, and_true]
  funext i
  exact Function.update_self ..

theorem alone_initial :
    (alone (Client.fresh "c1" 1) ⟨⟨"5e", 0, []⟩, []⟩ []).Initial where
  clients := fun _ => ⟨"c1", 1, rfl⟩
  server := rfl
  log := rfl
  sites := fun _ _ _ => rfl
  serverSite := fun _ => by simp [alone, Client.fresh]

/-- A server transaction that writes one cell, and its publication. -/
theorem Reach.serverBatch {cond : System ι → Prop} (h : Reach cond σ) (batchId : String)
    (hcond : cond σ) (hflushed : σ.server.outbox = []) (hunused : σ.Unused batchId)
    (hchanges : ∀ r ∈ σ.server.db.changes, r.dbVersion ≤ σ.server.db.dbVersion) :
    let version := σ.server.db.dbVersion + 1
    let p : PendingPublish :=
      ⟨batchId, [cellChange σ.server.db.siteId version], σ.server.db.siteId, version⟩
    Reach cond
      { σ with
        server := ⟨⟨σ.server.db.siteId, version,
          σ.server.db.changes ++ [cellChange σ.server.db.siteId version]⟩, [p]⟩
        log := σ.log ++ [p.batch ⟨σ.log, 1⟩] } := by
  intro version p
  set db' : Db := ⟨σ.server.db.siteId, version,
    σ.server.db.changes ++ [cellChange σ.server.db.siteId version]⟩ with hdb
  have hcommit : σ.server.db.Commits db' := by
    refine ⟨rfl, rfl, ?_⟩
    intro r hr
    rcases List.mem_append.mp hr with hr | hr
    · exact Or.inl hr
    · rw [List.mem_singleton.mp hr]
      exact Or.inr ⟨rfl, rfl⟩
  have hexecute : σ.server.execute db' batchId = ⟨db', [p]⟩ := by
    have hold : σ.server.db.changes.filter (fun r => r.siteId == σ.server.db.siteId &&
        decide (σ.server.db.dbVersion < r.dbVersion)) = [] := by
      refine List.filter_eq_nil_iff.mpr ?_
      intro r hr
      have hle := hchanges r hr
      simp
      omega
    simp [Server.execute, readChangesForSite, hdb, List.filter_append, hold, cellChange, version,
      hflushed, p]
  have hwrite := h.step (.serverWrite σ db' batchId hflushed hcommit hunused) fun _ => hcond
  rw [hexecute] at hwrite
  have hpublish := hwrite.step (.publishOwnBatch _ p [] ⟨σ.log, 1⟩ rfl (fun b hb => hb)
    fun b hb _ => hb) (fun hevent => by cases hevent)
  have hnew : publishOwnBatch ⟨σ.log, 1⟩ p = [p.batch ⟨σ.log, 1⟩] := by
    refine if_neg ?_
    simpa [p] using hunused.1
  rw [hnew] at hpublish
  exact hpublish

/-- The device's first batch. -/
def firstBatch : Batch where
  id := "b1"
  siteId := "c1"
  fromDbVersion := 0
  toDbVersion := 1
  schemaVersion := 1
  changes := [cellChange "c1" 1]
  format := syncFormat

/-- The device after it wrote one cell and published it. -/
def publisher : Client :=
  { Client.fresh "c1" 1 with
    db := ⟨"c1", 1, [cellChange "c1" 1]⟩
    published := [("c1", 1)]
    appliedBatchIds := ["b1"] }

/-- The server merges what the device published: both are at version 1. -/
theorem reach_merged : Reach (fun _ => True)
    (alone publisher ⟨⟨"5e", 1, [cellChange "c1" 1]⟩, []⟩ [firstBatch]) := by
  set c : Client := { Client.fresh "c1" 1 with db := ⟨"c1", 1, [cellChange "c1" 1]⟩ } with hc
  set read : Read := ⟨"c1", 0, [cellChange "c1" 1]⟩ with hread
  set s : Server := ⟨⟨"5e", 0, []⟩, []⟩ with hs
  have hown : ∀ r ∈ [cellChange "c1" 1], r ∈ ([] : List ChangeRow) ∨
      (r.siteId = "c1" ∧ r.dbVersion = 1) := by
    simp [cellChange]
  have hwrite : Reach (fun _ => True) (alone c s []) := by
    have hinit : Reach (fun _ => True) (alone (Client.fresh "c1" 1) s []) :=
      Reach.initial alone_initial
    have h := hinit.step
      (.localWrite _ () ⟨"c1", 1, [cellChange "c1" 1]⟩ ⟨rfl, rfl, hown⟩) (fun _ => trivial)
    rwa [alone_setClient] at h
  have hreads : Reach (fun _ => True) (alone { c with reads := [read] } s []) := by
    have h := hwrite.step (.readOwn _ () "c1" List.mem_cons_self) (fun _ => trivial)
    rw [alone_setClient] at h
    have hrows : readChangesForSite c.db "c1" 0 = [cellChange "c1" 1] := by
      simp [readChangesForSite, cellChange, hc]
    have heq : ((alone c s []).clients ()).readOwn "c1" = { c with reads := [read] } := by
      show c.readOwn "c1" = _
      simp only [Client.readOwn, hread]
      rw [show c.published.at "c1" = 0 from rfl, hrows]
      rfl
    rwa [heq] at h
  have hpublish : Reach (fun _ => True) (alone publisher s [firstBatch]) := by
    have hbatches : ({ c with reads := [read] } : Client).publishedBatches (fun _ => "b1") read =
        [firstBatch] := by
      simp [Client.publishedBatches, Client.chunkRows, Client.batchesOf, Client.lastVersion, hread,
        firstBatch, cellChange, hc, Client.fresh]
    have hnow : ({ c with reads := [read] } : Client).publishNow (fun _ => "b1") read =
        publisher := by
      simp only [Client.publishNow, hbatches]
      simp [publisher, hc, Client.fresh, firstBatch, Assoc.set]
    have h := hreads.step (.publishNow _ () read (fun _ => "b1") List.mem_cons_self
      (by rw [show (alone _ s []).clients () = { c with reads := [read] } from rfl, hbatches]; simp)
      (by simp [alone, System.Unused, hs])) (fun _ => trivial)
    rw [alone_setClient, show (alone _ s []).clients () = { c with reads := [read] } from rfl,
      hnow, hbatches] at h
    exact h
  exact hpublish.step (.replicate _ [firstBatch] ⟨"5e", 1, [cellChange "c1" 1]⟩ (fun _ hb => hb)
    ⟨rfl, by simp [alone, hs], fun r hr => Or.inr (by simpa [firstBatch] using hr)⟩)
    (fun _ => trivial)

/-- Two transactions of a server that has merged nothing chain up. -/
theorem every_batch_applies_two_writes :
    ∃ σ : System Unit, σ.log.length = 2 ∧ Reach System.Unmerged σ ∧ σ.Delivers := by
  have hinit : Reach System.Unmerged (alone (Client.fresh "c1" 1) ⟨⟨"5e", 0, []⟩, []⟩ []) :=
    Reach.initial alone_initial
  have hfirst := hinit.serverBatch "s1" (Or.inl rfl) rfl
    ⟨by simp [alone], by simp [alone]⟩ (by simp [alone])
  have hflushed := hfirst.step (.deletePending _ _ [] rfl ⟨_, List.mem_append_right _
    List.mem_cons_self, rfl⟩) (fun hevent => nomatch hevent)
  have hsecond := hflushed.serverBatch "s2"
    (Or.inr ⟨_, List.mem_append_right _ List.mem_cons_self, rfl, rfl⟩) rfl
    ⟨by simp [alone, PendingPublish.batch], by simp⟩ (by simp [alone, cellChange])
  exact ⟨_, by simp [alone], hsecond, every_batch_applies hsecond⟩

/-- A merge between two batches of the server: its next batch starts at the
merged version, past what any device has of the server's site, and the device
does not get over the gap. -/
theorem not_every_batch_applies :
    ∃ σ : System Unit, Reach (fun _ => True) σ ∧ ¬ Chained σ.log ∧
      (∀ b ∈ σ.log, b.schemaVersion ≤ (σ.clients ()).schemaVersion) ∧
      ∃ b ∈ σ.log, b.id ∉
        ((σ.clients ()).applyBatches (fun _ => true) [] σ.log).client.appliedBatchIds := by
  have hreach := reach_merged.serverBatch "s1" trivial rfl
    ⟨by simp [alone, firstBatch], by simp [alone]⟩ (by simp [alone, cellChange])
  refine ⟨_, hreach, ?_, ?_, _, List.mem_append_right _ List.mem_cons_self, ?_⟩
  · intro hchained
    have h := hchained "5e"
    simp [alone, siteBatches, firstBatch, PendingPublish.batch, GapFree,
      PendingPublish.fromDbVersion, cellChange] at h
  · simp [alone, firstBatch, PendingPublish.batch, publisher, Client.fresh]
  · have hsites : ["c1", "5e"].eraseDups = ["c1", "5e"] := by decide
    simp [alone, Client.applyBatches, bySite, hsites, siteBatches, Option.filter, syncFormat,
      firstBatch, PendingPublish.batch, PendingPublish.fromDbVersion, cellChange,
      Client.applySites, Client.applySite, Client.applyBatch, publisher, Client.applied,
      Client.ownSite, Client.fresh, Assoc.get_cons]

end Realtime.PluginDb
