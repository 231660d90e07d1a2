import Realtime.PluginDb.Log

/-!
# A client of a plugin database

`publishNow` cuts what the device committed into batches, each starting where
the one before it ended. `applyBatchesAsync` walks a log site by site in version
order and stops at the first batch that starts past what it has applied.

A pass of `publishNow` waits while the rows are read, and another pass may run
meanwhile; the rows it was given stay in `reads` until it goes on. Apply passes
are queued one behind the other.
-/

namespace Realtime.PluginDb

open Lib

/-- `MAX_BATCH_ROWS`. -/
def maxBatchRows : Nat := 500

/-- One site of a publish pass that has read its rows. -/
structure Read where
  site : Site
  since : Int
  rows : List ChangeRow
  deriving DecidableEq

/-- `SyncedPluginDatabase`; `siteHex` is the site id of `db`. -/
structure Client where
  db : Db
  schemaVersion : Int
  cursor : Cursor
  published : Cursor
  appliedBatchIds : List String
  bufferedBatches : List Batch
  reads : List Read
  deriving DecidableEq

namespace Client

/-- A device that has just opened the database. -/
def fresh (siteHex : Site) (schemaVersion : Int) : Client where
  db := ⟨siteHex, 0, []⟩
  schemaVersion := schemaVersion
  cursor := []
  published := []
  appliedBatchIds := []
  bufferedBatches := []
  reads := []

/-! ## Publishing -/

/-- The current site and every site published under before. -/
def ownSites (c : Client) : List Site := c.db.siteId :: Assoc.keys c.published

/-- The chunks of `rows`, with `chunk` begun; the rows of one version stay
together. -/
def chunkRows (chunk : List ChangeRow) : List ChangeRow → List (List ChangeRow)
  | [] => if chunk = [] then [] else [chunk]
  | r :: rest =>
      let group := r :: rest.takeWhile fun r' => r'.dbVersion = r.dbVersion
      let after := rest.dropWhile fun r' => r'.dbVersion = r.dbVersion
      if chunk ≠ [] ∧ maxBatchRows < chunk.length + group.length then
        chunk :: chunkRows group after
      else chunkRows (chunk ++ group) after
termination_by rows => rows.length
decreasing_by
  all_goals
    simp only [List.length_cons]
    exact Nat.lt_succ_of_le (List.dropWhile_sublist _).length_le

/-- `changes[changes.length - 1].db_version`. -/
def lastVersion (changes : List ChangeRow) : Int := (changes.getLast?.map (·.dbVersion)).getD 0

/-- The batches of a pass; `makeBatchId n` is the `n`-th id it draws. -/
def batchesOf (site : Site) (schemaVersion : Int) (makeBatchId : Nat → String)
    (fromDbVersion : Int) : List (List ChangeRow) → List Batch
  | [] => []
  | changes :: chunks =>
      { id := makeBatchId 0
        siteId := site
        fromDbVersion := fromDbVersion
        toDbVersion := lastVersion changes
        schemaVersion := schemaVersion
        changes := changes
        format := syncFormat } ::
      batchesOf site schemaVersion (fun n => makeBatchId (n + 1)) (lastVersion changes) chunks

/-- `publishNow` up to the rows of one own site. -/
def readOwn (c : Client) (site : Site) : Client :=
  let since := c.published.at site
  { c with reads := c.reads ++ [⟨site, since, readChangesForSite c.db site since⟩] }

/-- The batches `publishNow` appends for rows it has read. -/
def publishedBatches (c : Client) (makeBatchId : Nat → String) (read : Read) : List Batch :=
  batchesOf read.site c.schemaVersion makeBatchId read.since (chunkRows [] read.rows)

/-- `publishNow` from the rows of one site on: the bookkeeping for the batches
it appends. -/
def publishNow (c : Client) (makeBatchId : Nat → String) (read : Read) : Client :=
  let batches := c.publishedBatches makeBatchId read
  { c with
    appliedBatchIds := c.appliedBatchIds ++ batches.map (·.id)
    published := batches.foldl (fun p b => Assoc.set b.siteId b.toDbVersion p) c.published
    reads := c.reads.erase read }

/-! ## Applying -/

/-- `ownSite`: a site this device published under. -/
def ownSite (c : Client) (site : Site) : Bool :=
  site == c.db.siteId || (Assoc.get site c.published).isSome

/-- `applied`: how far a site's batches are known to be in the database. -/
def applied (c : Client) (site : Site) : Int :=
  if c.ownSite site then c.published.at site else c.cursor.at site

def mark (c : Client) (id : String) : Client :=
  { c with appliedBatchIds := c.appliedBatchIds ++ [id] }

def buffer (c : Client) (b : Batch) : Client :=
  if c.bufferedBatches.any (·.id == b.id) then c
  else { c with bufferedBatches := c.bufferedBatches ++ [b] }

/-- The bookkeeping after a batch went into the database. -/
def advance (c : Client) (b : Batch) : Client :=
  mark
    (if c.ownSite b.siteId then
      { c with
        published := Assoc.set b.siteId (max (c.applied b.siteId) b.toDbVersion) c.published }
    else { c with cursor := Assoc.set b.siteId b.toDbVersion c.cursor })
    b.id

/-- The state of an apply pass: the batches it put into the database, and
whether a range it misses was compacted away. -/
structure Pass where
  client : Client
  merged : List Batch
  needsRebase : Bool

/-- One batch of a site; the flag says whether the pass goes on with the site.
`applies` tells which transactions succeed. -/
def applyBatch (applies : Batch → Bool) (compacted : Cursor) (p : Pass) (b : Batch) : Pass × Bool :=
  let c := p.client
  if b.id ∈ c.appliedBatchIds then (p, true)
  else if b.toDbVersion ≤ c.applied b.siteId then ({ p with client := c.mark b.id }, true)
  else if b.format ≠ syncFormat then ({ p with client := c.mark b.id }, true)
  else if c.schemaVersion < b.schemaVersion then ({ p with client := c.buffer b }, false)
  else if c.applied b.siteId < b.fromDbVersion then
    ({ p with needsRebase := decide (b.fromDbVersion ≤ compacted.at b.siteId) }, false)
  else if applies b then
    ({ p with client := c.advance b, merged := p.merged ++ [b] }, true)
  else (p, false)

def applySite (applies : Batch → Bool) (compacted : Cursor) : Pass → List Batch → Pass
  | p, [] => p
  | p, b :: bs =>
      match applyBatch applies compacted p b with
      | (p', true) => applySite applies compacted p' bs
      | (p', false) => p'

def applySites (applies : Batch → Bool) (compacted : Cursor) : Pass → List (List Batch) → Pass
  | p, [] => p
  | p, bs :: rest =>
      let p' := applySite applies compacted p bs
      if p'.needsRebase then p' else applySites applies compacted p' rest

end Client

/-- `x.fromDbVersion - y.fromDbVersion || x.toDbVersion - y.toDbVersion`. -/
def batchOrder (x y : Batch) : Bool :=
  x.fromDbVersion < y.fromDbVersion ||
    (x.fromDbVersion == y.fromDbVersion && x.toDbVersion ≤ y.toDbVersion)

/-- The batches of one site in version order. -/
def siteBatches (batches : List Batch) (site : Site) : List Batch :=
  (batches.filter (·.siteId == site)).mergeSort batchOrder

/-- `bySite`: the sites in the order the log names them. -/
def bySite (batches : List Batch) : List (List Batch) :=
  (batches.map (·.siteId)).eraseDups.map (siteBatches batches)

/-- `applyBatchesAsync`, up to what it does to the database. -/
def Client.applyBatches (c : Client) (applies : Batch → Bool) (compacted : Cursor)
    (batches : List Batch) : Client.Pass :=
  applySites applies compacted ⟨c, [], false⟩ (bySite batches)

/-! ## What a publish pass appends -/

namespace Client

theorem flatten_chunkRows (chunk rows : List ChangeRow) :
    (chunkRows chunk rows).flatten = chunk ++ rows := by
  fun_induction chunkRows chunk rows with
  | case1 => simp
  | case2 chunk h => simp
  | case3 chunk r rest group after h ih =>
      rw [List.flatten_cons, ih, List.cons_append, List.takeWhile_append_dropWhile]
  | case4 chunk r rest group after h ih =>
      rw [ih, List.append_assoc, List.cons_append, List.takeWhile_append_dropWhile]

theorem chunkRows_ne_nil (chunk rows : List ChangeRow) :
    ∀ changes ∈ chunkRows chunk rows, changes ≠ [] := by
  fun_induction chunkRows chunk rows with
  | case1 => simp
  | case2 chunk h => simpa using h
  | case3 chunk r rest group after h ih =>
      intro changes hmem
      rcases List.mem_cons.mp hmem with rfl | hmem
      · exact h.1
      · exact ih changes hmem
  | case4 chunk r rest group after h ih => exact ih

theorem lastVersion_mem {changes : List ChangeRow} (h : changes ≠ []) :
    ∃ r ∈ changes, r.dbVersion = lastVersion changes := by
  refine ⟨changes.getLast h, List.getLast_mem h, ?_⟩
  simp [lastVersion, List.getLast?_eq_some_getLast h]

theorem siteId_of_mem_batchesOf {site : Site} {schemaVersion fromDbVersion : Int}
    {makeBatchId : Nat → String} {chunks : List (List ChangeRow)} {b : Batch}
    (hb : b ∈ batchesOf site schemaVersion makeBatchId fromDbVersion chunks) :
    b.siteId = site ∧ b.format = syncFormat ∧ b.changes ∈ chunks := by
  induction chunks generalizing fromDbVersion makeBatchId with
  | nil => simp [batchesOf] at hb
  | cons changes chunks ih =>
      rcases List.mem_cons.mp hb with rfl | hb
      · exact ⟨rfl, rfl, List.mem_cons_self⟩
      · obtain ⟨hsite, hformat, hmem⟩ := ih hb
        exact ⟨hsite, hformat, List.mem_cons_of_mem _ hmem⟩

/-- Where the batches of a pass end. -/
def endOf (since : Int) (batches : List Batch) : Int :=
  batches.foldl (fun _ b => b.toDbVersion) since

/-- Each batch starts where the one before it ended: from a covered version on,
the whole pass is covered. -/
theorem batchesOf_covered (site : Site) (schemaVersion : Int) (makeBatchId : Nat → String)
    {since : Int} {chunks : List (List ChangeRow)} {bs : List Batch}
    (hne : ∀ changes ∈ chunks, changes ≠ [])
    (hsorted : chunks.flatten.Pairwise fun r r' => r.dbVersion ≤ r'.dbVersion)
    (hsince : ∀ r ∈ chunks.flatten, since ≤ r.dbVersion)
    (hsub : ∀ b ∈ batchesOf site schemaVersion makeBatchId since chunks, b ∈ bs)
    (hcov : Covered (·.fromDbVersion) (·.toDbVersion) 0 bs since) :
    (∀ b ∈ batchesOf site schemaVersion makeBatchId since chunks,
      b.fromDbVersion ≤ b.toDbVersion ∧
        Covered (·.fromDbVersion) (·.toDbVersion) 0 bs b.fromDbVersion) ∧
    Covered (·.fromDbVersion) (·.toDbVersion) 0 bs
      (endOf since (batchesOf site schemaVersion makeBatchId since chunks)) := by
  induction chunks generalizing since makeBatchId with
  | nil => exact ⟨fun b hb => (List.not_mem_nil hb).elim, hcov⟩
  | cons changes chunks ih =>
      obtain ⟨r, hr, hlast⟩ := lastVersion_mem (hne changes List.mem_cons_self)
      rw [List.flatten_cons, List.pairwise_append] at hsorted
      obtain ⟨_, hrest, hbefore⟩ := hsorted
      have hle : since ≤ lastVersion changes := by
        rw [← hlast]
        exact hsince r (List.mem_append_left _ hr)
      have hend := covered_upper (hsub _ List.mem_cons_self) hcov hle
      obtain ⟨hall, hfinal⟩ := ih _ (fun c hc => hne c (List.mem_cons_of_mem _ hc)) hrest
        (fun r' hr' => hlast ▸ hbefore r hr r' hr')
        (fun b hb => hsub b (List.mem_cons_of_mem _ hb)) hend
      refine ⟨?_, hfinal⟩
      intro b hb
      rcases List.mem_cons.mp hb with rfl | hb
      · exact ⟨hle, hcov⟩
      · exact hall b hb

end Client

/-! ## What an apply pass leaves -/

/-- Ids name batches, and every client knows the format. -/
structure LogOk (log : List Batch) : Prop where
  ids : ∀ b ∈ log, ∀ b' ∈ log, b.id = b'.id → b = b'
  formats : ∀ b ∈ log, b.format = syncFormat

namespace Client

/-- What a device knows of a log: it publishes under its own site only, has
marked all of its own batches, and a marked batch of another site is within the
cursor. -/
structure Tracks (log : List Batch) (c : Client) : Prop where
  published : ∀ site ∈ Assoc.keys c.published, site = c.db.siteId
  own : ∀ b ∈ log, b.siteId = c.db.siteId → b.id ∈ c.appliedBatchIds
  marked : ∀ b ∈ log, b.siteId ≠ c.db.siteId → b.id ∈ c.appliedBatchIds →
    b.toDbVersion ≤ c.cursor.at b.siteId
  nonneg : ∀ site, 0 ≤ c.cursor.at site

/-- What an apply pass over batches of `log` never changes, and what only
grows. -/
structure Frame (log : List Batch) (p p' : Pass) : Prop where
  db : p'.client.db = p.client.db
  schemaVersion : p'.client.schemaVersion = p.client.schemaVersion
  published : p'.client.published = p.client.published
  reads : p'.client.reads = p.client.reads
  marked : ∀ id ∈ p.client.appliedBatchIds, id ∈ p'.client.appliedBatchIds
  marks : ∀ id ∈ p'.client.appliedBatchIds,
    id ∈ p.client.appliedBatchIds ∨ ∃ b ∈ log, b.id = id
  merged : ∀ b ∈ p'.merged, b ∈ p.merged ∨ b ∈ log

variable {log : List Batch} {c : Client} {p p' p'' : Pass} {b : Batch} {bs : List Batch}

@[simp] theorem buffer_db (c : Client) (b : Batch) : (c.buffer b).db = c.db := by
  unfold buffer
  split <;> rfl

@[simp] theorem buffer_schemaVersion (c : Client) (b : Batch) :
    (c.buffer b).schemaVersion = c.schemaVersion := by
  unfold buffer
  split <;> rfl

@[simp] theorem buffer_published (c : Client) (b : Batch) :
    (c.buffer b).published = c.published := by
  unfold buffer
  split <;> rfl

@[simp] theorem buffer_reads (c : Client) (b : Batch) : (c.buffer b).reads = c.reads := by
  unfold buffer
  split <;> rfl

@[simp] theorem buffer_appliedBatchIds (c : Client) (b : Batch) :
    (c.buffer b).appliedBatchIds = c.appliedBatchIds := by
  unfold buffer
  split <;> rfl

theorem Frame.refl (p : Pass) : Frame log p p :=
  ⟨rfl, rfl, rfl, rfl, fun _ h => h, fun _ h => Or.inl h, fun _ h => Or.inl h⟩

theorem Frame.trans (h : Frame log p p') (h' : Frame log p' p'') : Frame log p p'' where
  db := h'.db.trans h.db
  schemaVersion := h'.schemaVersion.trans h.schemaVersion
  published := h'.published.trans h.published
  reads := h'.reads.trans h.reads
  marked := fun id hid => h'.marked id (h.marked id hid)
  marks := by
    intro id hid
    rcases h'.marks id hid with hid | hid
    · exact h.marks id hid
    · exact Or.inr hid
  merged := by
    intro b hb
    rcases h'.merged b hb with hb | hb
    · exact h.merged b hb
    · exact Or.inr hb

theorem Tracks.ownSite_eq (h : Tracks log c) {site : Site} (hne : site ≠ c.db.siteId) :
    c.ownSite site = false := by
  have hnone : Assoc.get site c.published = none :=
    Assoc.get_eq_none_iff.mpr fun hmem => hne (h.published site hmem)
  simp [ownSite, hne, hnone]

theorem Tracks.applied_eq (h : Tracks log c) {site : Site} (hne : site ≠ c.db.siteId) :
    c.applied site = c.cursor.at site := by
  simp [applied, h.ownSite_eq hne]

theorem Tracks.advance_eq (h : Tracks log c) (hne : b.siteId ≠ c.db.siteId) :
    c.advance b = mark { c with cursor := Assoc.set b.siteId b.toDbVersion c.cursor } b.id := by
  simp [advance, h.ownSite_eq hne]

theorem mem_mark {c : Client} {id id' : String} (h : id' ∈ (c.mark id).appliedBatchIds) :
    id' ∈ c.appliedBatchIds ∨ id' = id := by
  simpa [Client.mark] using h

/-- A batch within the cursor is marked. -/
theorem Tracks.mark (hlog : LogOk log) (h : Tracks log c) (hb : b ∈ log)
    (hle : b.toDbVersion ≤ c.cursor.at b.siteId) : Tracks log (c.mark b.id) where
  published := h.published
  own := fun b' hb' hsite => List.mem_append_left _ (h.own b' hb' hsite)
  marked := by
    intro b' hb' hsite hid
    rcases List.mem_append.mp hid with hid | hid
    · exact h.marked b' hb' hsite hid
    · rw [hlog.ids b' hb' b hb (List.mem_singleton.mp hid)]
      exact hle
  nonneg := h.nonneg

theorem Tracks.advance (hlog : LogOk log) (h : Tracks log c) (hb : b ∈ log)
    (hne : b.siteId ≠ c.db.siteId) (hlt : c.cursor.at b.siteId < b.toDbVersion) :
    Tracks log (c.advance b) := by
  rw [h.advance_eq hne]
  refine Tracks.mark hlog ?_ hb (by simp [Cursor.at_set])
  have hgrow : ∀ site, c.cursor.at site ≤
      Cursor.at (Assoc.set b.siteId b.toDbVersion c.cursor) site := by
    intro site
    rw [Cursor.at_set]
    split
    · next heq => exact heq ▸ hlt.le
    · exact le_rfl
  exact ⟨h.published, h.own, fun b' hb' hsite hid => (h.marked b' hb' hsite hid).trans (hgrow _),
    fun site => (h.nonneg site).trans (hgrow site)⟩

theorem Tracks.buffer (h : Tracks log c) : Tracks log (c.buffer b) := by
  unfold Client.buffer
  split
  · exact h
  · exact ⟨h.published, h.own, h.marked, h.nonneg⟩

/-- Everything a batch of the log can do to a pass. -/
theorem applyBatch_cases (applies : Batch → Bool) (compacted : Cursor) (hlog : LogOk log)
    (h : Tracks log p.client) (hb : b ∈ log) :
    (b.id ∈ p.client.appliedBatchIds ∧ applyBatch applies compacted p b = (p, true)) ∨
    (b.toDbVersion ≤ p.client.cursor.at b.siteId ∧
      applyBatch applies compacted p b = ({ p with client := p.client.mark b.id }, true)) ∨
    (b.siteId ≠ p.client.db.siteId ∧ p.client.cursor.at b.siteId < b.toDbVersion ∧
      applyBatch applies compacted p b =
        ({ p with client := p.client.advance b, merged := p.merged ++ [b] }, true)) ∨
    (¬(b.schemaVersion ≤ p.client.schemaVersion ∧
        b.fromDbVersion ≤ p.client.cursor.at b.siteId ∧ applies b) ∧
      (applyBatch applies compacted p b).2 = false ∧
      (applyBatch applies compacted p b).1.merged = p.merged ∧
      ((applyBatch applies compacted p b).1.client = p.client ∨
        (applyBatch applies compacted p b).1.client = p.client.buffer b)) := by
  by_cases hid : b.id ∈ p.client.appliedBatchIds
  · exact Or.inl ⟨hid, by simp [applyBatch, hid]⟩
  have hne : b.siteId ≠ p.client.db.siteId := fun heq => hid (h.own b hb heq)
  have hformat := hlog.formats b hb
  by_cases hto : b.toDbVersion ≤ p.client.cursor.at b.siteId
  · exact Or.inr (Or.inl ⟨hto, by simp [applyBatch, hid, h.applied_eq hne, hto]⟩)
  by_cases hschema : p.client.schemaVersion < b.schemaVersion
  · refine Or.inr (Or.inr (Or.inr ⟨fun hok => absurd hok.1 (by omega), ?_⟩))
    simp [applyBatch, hid, h.applied_eq hne, hto, hformat, hschema]
  by_cases hfrom : p.client.cursor.at b.siteId < b.fromDbVersion
  · refine Or.inr (Or.inr (Or.inr ⟨fun hok => absurd hok.2.1 (by omega), ?_⟩))
    simp [applyBatch, hid, h.applied_eq hne, hto, hformat, hschema, hfrom]
  cases hap : applies b with
  | true =>
      refine Or.inr (Or.inr (Or.inl ⟨hne, by omega, ?_⟩))
      simp [applyBatch, hid, h.applied_eq hne, hto, hformat, hschema, hfrom, hap]
  | false =>
      refine Or.inr (Or.inr (Or.inr ⟨fun hok => absurd hok.2.2 (by simp), ?_⟩))
      simp [applyBatch, hid, h.applied_eq hne, hto, hformat, hschema, hfrom, hap]

theorem applyBatch_tracks (applies : Batch → Bool) (compacted : Cursor) (hlog : LogOk log)
    (h : Tracks log p.client) (hb : b ∈ log) :
    Tracks log (applyBatch applies compacted p b).1.client ∧
      Frame log p (applyBatch applies compacted p b).1 := by
  rcases applyBatch_cases applies compacted hlog h hb with
    ⟨_, heq⟩ | ⟨hle, heq⟩ | ⟨hne, hlt, heq⟩ | ⟨_, _, hmerged, hclient⟩
  · rw [heq]
    exact ⟨h, Frame.refl p⟩
  · rw [heq]
    refine ⟨h.mark hlog hb hle, ⟨rfl, rfl, rfl, rfl, fun _ hid => List.mem_append_left _ hid, ?_,
      fun _ hb => Or.inl hb⟩⟩
    exact fun id hid => (mem_mark hid).imp_right fun heq => ⟨b, hb, heq.symm⟩
  · rw [heq]
    refine ⟨h.advance hlog hb hne hlt, ?_⟩
    simp only [h.advance_eq hne]
    refine ⟨rfl, rfl, rfl, rfl, fun _ hid => List.mem_append_left _ hid, ?_, ?_⟩
    · exact fun id hid => (mem_mark hid).imp_right fun heq => ⟨b, hb, heq.symm⟩
    · intro b' hb'
      rcases List.mem_append.mp hb' with hb' | hb'
      · exact Or.inl hb'
      · exact Or.inr (List.mem_singleton.mp hb' ▸ hb)
  · rcases hclient with hclient | hclient
    · rw [hclient]
      exact ⟨h, ⟨by rw [hclient], by rw [hclient], by rw [hclient], by rw [hclient],
        fun _ hid => by rwa [hclient], fun _ hid => Or.inl (by rwa [hclient] at hid),
        fun _ hb => Or.inl (hmerged ▸ hb)⟩⟩
    · rw [hclient]
      exact ⟨h.buffer, ⟨by simp [hclient], by simp [hclient], by simp [hclient], by simp [hclient],
        fun _ hid => by simpa [hclient] using hid,
        fun _ hid => Or.inl (by simpa [hclient] using hid), fun _ hb => Or.inl (hmerged ▸ hb)⟩⟩

theorem applySite_tracks (applies : Batch → Bool) (compacted : Cursor) (hlog : LogOk log)
    (h : Tracks log p.client) (hbs : ∀ b ∈ bs, b ∈ log) :
    Tracks log (applySite applies compacted p bs).client ∧
      Frame log p (applySite applies compacted p bs) := by
  induction bs generalizing p with
  | nil => exact ⟨h, Frame.refl p⟩
  | cons b bs ih =>
      obtain ⟨htracks, hframe⟩ :=
        applyBatch_tracks applies compacted hlog h (hbs b List.mem_cons_self)
      unfold applySite
      split
      · next p' heq =>
          rw [heq] at htracks hframe
          obtain ⟨htracks', hframe'⟩ := ih htracks fun b hb => hbs b (List.mem_cons_of_mem _ hb)
          exact ⟨htracks', hframe.trans hframe'⟩
      · next p' heq =>
          rw [heq] at htracks hframe
          exact ⟨htracks, hframe⟩

theorem applySites_tracks (applies : Batch → Bool) (compacted : Cursor) (hlog : LogOk log)
    {groups : List (List Batch)} (h : Tracks log p.client)
    (hgroups : ∀ bs ∈ groups, ∀ b ∈ bs, b ∈ log) :
    Tracks log (applySites applies compacted p groups).client ∧
      Frame log p (applySites applies compacted p groups) := by
  induction groups generalizing p with
  | nil => exact ⟨h, Frame.refl p⟩
  | cons bs groups ih =>
      obtain ⟨htracks, hframe⟩ :=
        applySite_tracks applies compacted hlog h (hgroups bs List.mem_cons_self)
      simp only [applySites]
      split
      · exact ⟨htracks, hframe⟩
      · obtain ⟨htracks', hframe'⟩ :=
          ih htracks fun bs hbs => hgroups bs (List.mem_cons_of_mem _ hbs)
        exact ⟨htracks', hframe.trans hframe'⟩

/-! ## A pass over a log without gaps -/

theorem applySite_marked (applies : Batch → Bool) (compacted : Cursor)
    (h : ∀ b ∈ bs, b.id ∈ p.client.appliedBatchIds) : applySite applies compacted p bs = p := by
  induction bs with
  | nil => rfl
  | cons b bs ih =>
      have heq : applyBatch applies compacted p b = (p, true) := by
        simp [applyBatch, h b List.mem_cons_self]
      simp only [applySite, heq]
      exact ih fun b' hb' => h b' (List.mem_cons_of_mem _ hb')

/-- Nothing stops the pass at a site of another device: each batch is within
the cursor, or starts there and moves it. -/
theorem applySite_delivers (compacted : Cursor) (hlog : LogOk log) {site : Site}
    (h : Tracks log p.client) (hne : site ≠ p.client.db.siteId)
    (hbs : ∀ b ∈ bs, b ∈ log ∧ b.siteId = site)
    (hschema : ∀ b ∈ bs, b.schemaVersion ≤ p.client.schemaVersion)
    (hgap : GapFree Batch.fromDbVersion Batch.toDbVersion (p.client.cursor.at site) bs) :
    (applySite (fun _ => true) compacted p bs).needsRebase = p.needsRebase ∧
      ∀ b ∈ bs, b.id ∈ (applySite (fun _ => true) compacted p bs).client.appliedBatchIds := by
  induction bs generalizing p with
  | nil => exact ⟨rfl, fun b hb => (List.not_mem_nil hb).elim⟩
  | cons b bs ih =>
      obtain ⟨hb, rfl⟩ := hbs b List.mem_cons_self
      have hrest : ∀ b' ∈ bs, b' ∈ log ∧ b'.siteId = b.siteId :=
        fun b' hb' => hbs b' (List.mem_cons_of_mem _ hb')
      obtain ⟨htracks, hframe⟩ := applyBatch_tracks (fun _ => true) compacted hlog h hb
      -- whatever the batch did, the pass goes on from a cursor at or past its end
      suffices hgo : ∃ p', applyBatch (fun _ => true) compacted p b = (p', true) ∧
          p'.needsRebase = p.needsRebase ∧ b.id ∈ p'.client.appliedBatchIds ∧
          max (p.client.cursor.at b.siteId) b.toDbVersion ≤ p'.client.cursor.at b.siteId by
        obtain ⟨p', heq, hneeds, hid, hcursor⟩ := hgo
        rw [heq] at htracks hframe
        obtain ⟨hneeds', hall⟩ := ih htracks (hframe.db ▸ hne) hrest
          (fun b' hb' => hframe.schemaVersion ▸ hschema b' (List.mem_cons_of_mem _ hb'))
          (hgap.2.mono hcursor)
        have hframe' := (applySite_tracks (fun _ => true) compacted hlog htracks
          fun b' hb' => (hrest b' hb').1).2
        simp only [applySite, heq]
        refine ⟨hneeds'.trans hneeds, ?_⟩
        intro b' hb'
        rcases List.mem_cons.mp hb' with rfl | hb'
        · exact hframe'.marked _ hid
        · exact hall b' hb'
      rcases applyBatch_cases (fun _ => true) compacted hlog h hb with
        ⟨hid, heq⟩ | ⟨hle, heq⟩ | ⟨_, hlt, heq⟩ | ⟨hstall, _⟩
      · exact ⟨p, heq, rfl, hid, by simp [h.marked b hb hne hid]⟩
      · exact ⟨_, heq, rfl, by simp [mark], by simp [mark, hle]⟩
      · refine ⟨_, heq, rfl, ?_⟩
        simp only [h.advance_eq hne, mark]
        simp [Cursor.at_set, hlt.le]
      · exact absurd ⟨hschema b List.mem_cons_self, hgap.1, rfl⟩ hstall

theorem applySites_delivers (compacted : Cursor) (sites : List Site) (group : Site → List Batch)
    (hlog : LogOk log) (h : Tracks log p.client) (hneeds : p.needsRebase = false)
    (hgroup : ∀ site ∈ sites, ∀ b ∈ group site,
      b ∈ log ∧ b.siteId = site ∧ b.schemaVersion ≤ p.client.schemaVersion)
    (hgap : ∀ site, GapFree Batch.fromDbVersion Batch.toDbVersion 0 (group site)) :
    let p' := applySites (fun _ => true) compacted p (sites.map group)
    p'.needsRebase = false ∧
      ∀ site ∈ sites, ∀ b ∈ group site, b.id ∈ p'.client.appliedBatchIds := by
  induction sites generalizing p with
  | nil => exact ⟨hneeds, fun site hsite => (List.not_mem_nil hsite).elim⟩
  | cons site sites ih =>
      have hlogs : ∀ b ∈ group site, b ∈ log :=
        fun b hb => (hgroup site List.mem_cons_self b hb).1
      obtain ⟨htracks, hframe⟩ := applySite_tracks (fun _ => true) compacted hlog h hlogs
      have hsite : (applySite (fun _ => true) compacted p (group site)).needsRebase = false ∧
          ∀ b ∈ group site,
            b.id ∈ (applySite (fun _ => true) compacted p (group site)).client.appliedBatchIds := by
        by_cases hown : site = p.client.db.siteId
        · -- the device has marked its own batches when it published them
          have hmarked : ∀ b ∈ group site, b.id ∈ p.client.appliedBatchIds := fun b hb =>
            h.own b (hlogs b hb) ((hgroup site List.mem_cons_self b hb).2.1.trans hown)
          rw [applySite_marked _ compacted hmarked]
          exact ⟨hneeds, hmarked⟩
        · obtain ⟨hkeeps, hall⟩ := applySite_delivers compacted hlog h hown
            (fun b hb => ⟨hlogs b hb, (hgroup site List.mem_cons_self b hb).2.1⟩)
            (fun b hb => (hgroup site List.mem_cons_self b hb).2.2)
            ((hgap site).mono (h.nonneg site))
          exact ⟨hkeeps.trans hneeds, hall⟩
      obtain ⟨hneeds', hall⟩ := ih htracks hsite.1 (fun s hs b hb => by
        rw [hframe.schemaVersion]
        exact hgroup s (List.mem_cons_of_mem _ hs) b hb)
      have hframe' := (applySites_tracks (fun _ => true) compacted hlog htracks (by
          intro bs hbs b hb
          obtain ⟨s, hs, rfl⟩ := List.mem_map.mp hbs
          exact (hgroup s (List.mem_cons_of_mem _ hs) b hb).1)).2
      simp only [List.map_cons, applySites, hsite.1, Bool.false_eq_true, if_false]
      refine ⟨hneeds', ?_⟩
      intro s hs b hb
      rcases List.mem_cons.mp hs with rfl | hs
      · exact hframe'.marked _ (hsite.2 b hb)
      · exact hall s hs b hb

end Client

theorem mem_siteBatches {batches : List Batch} {site : Site} {b : Batch} :
    b ∈ siteBatches batches site ↔ b ∈ batches ∧ b.siteId = site := by
  simp [siteBatches]

theorem pairwise_siteBatches (batches : List Batch) (site : Site) :
    (siteBatches batches site).Pairwise fun b b' => b.fromDbVersion ≤ b'.fromDbVersion := by
  have h : (siteBatches batches site).Pairwise fun b b' => batchOrder b b' := by
    apply List.pairwise_mergeSort
    · intro a b c hab hbc
      simp [batchOrder] at hab hbc ⊢
      omega
    · intro a b
      simp [batchOrder]
      omega
  refine h.imp ?_
  intro b b' hle
  simp [batchOrder] at hle
  omega

theorem Client.applyBatches_tracks {log seen : List Batch} {c : Client} (applies : Batch → Bool)
    (compacted : Cursor) (hlog : LogOk log) (h : c.Tracks log) (hseen : ∀ b ∈ seen, b ∈ log) :
    (c.applyBatches applies compacted seen).client.Tracks log ∧
      Client.Frame log ⟨c, [], false⟩ (c.applyBatches applies compacted seen) := by
  refine applySites_tracks applies compacted hlog (p := ⟨c, [], false⟩) h ?_
  intro bs hbs b hb
  obtain ⟨site, _, rfl⟩ := List.mem_map.mp hbs
  exact hseen b (mem_siteBatches.mp hb).1

/-- `v` is reached by the batches of `site`: it is at most 0, or a batch that
starts before it ends at or past it. -/
def Reached (log : List Batch) (site : Site) (v : Int) : Prop :=
  Covered Batch.fromDbVersion Batch.toDbVersion 0 (siteBatches log site) v

theorem Reached.mono {log log' : List Batch} {site : Site} {v : Int} (h : Reached log site v)
    (hsub : ∀ b ∈ log, b ∈ log') : Reached log' site v := by
  refine Covered.mono h ?_
  intro b hb
  obtain ⟨hb, hsite⟩ := mem_siteBatches.mp hb
  exact mem_siteBatches.mpr ⟨hsub b hb, hsite⟩

/-- Every batch of a site in version order starts at or before where the ones
before it end. -/
def Chained (log : List Batch) : Prop :=
  ∀ site, GapFree Batch.fromDbVersion Batch.toDbVersion 0 (siteBatches log site)

theorem chained_of_reached {log : List Batch}
    (h : ∀ b ∈ log, Reached log b.siteId b.fromDbVersion) : Chained log := by
  intro site
  apply gapFree_of_linked (pairwise_siteBatches log site)
  intro b hb
  obtain ⟨hmem, rfl⟩ := mem_siteBatches.mp hb
  exact h b hmem

/-- A device that receives a whole chained log ends with every batch marked. -/
theorem Client.applyBatches_delivers {log seen : List Batch} {c : Client} (hlog : LogOk log)
    (h : c.Tracks log) (hreached : ∀ b ∈ log, Reached log b.siteId b.fromDbVersion)
    (hseen : ∀ b, b ∈ seen ↔ b ∈ log) (hschema : ∀ b ∈ log, b.schemaVersion ≤ c.schemaVersion) :
    let p := c.applyBatches (fun _ => true) [] seen
    p.needsRebase = false ∧ ∀ b ∈ log, b.id ∈ p.client.appliedBatchIds := by
  have hgap : Chained seen := chained_of_reached fun b hb =>
    (hreached b ((hseen b).mp hb)).mono fun b' hb' => (hseen b').mpr hb'
  obtain ⟨hneeds, hall⟩ := applySites_delivers (p := ⟨c, [], false⟩) []
    (seen.map (·.siteId)).eraseDups (siteBatches seen) hlog h rfl
    (by
      intro site _ b hb
      obtain ⟨hb, hsite⟩ := mem_siteBatches.mp hb
      exact ⟨(hseen b).mp hb, hsite, hschema b ((hseen b).mp hb)⟩) hgap
  refine ⟨hneeds, ?_⟩
  intro b hb
  have hmem : b ∈ seen := (hseen b).mpr hb
  refine hall b.siteId ?_ b (mem_siteBatches.mpr ⟨hmem, rfl⟩)
  exact List.mem_eraseDups.mpr (List.mem_map_of_mem hmem)

end Realtime.PluginDb
