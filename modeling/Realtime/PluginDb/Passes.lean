import Mathlib.Tactic
import Realtime.Lib.Transition
import Realtime.PluginDb.Client

/-!
# Applying the log in passes

Batches reach `applyBatchesAsync` in any number of passes and in any order. What a
pass leaves for a site depends on the batches only as far as they overlap: where two
of them span the same versions, the one that comes first keeps the other out.
-/

namespace Realtime.PluginDb.Passes

open Lib Client

/-- A device, with what was merged into its database since this was opened or built
anew, and the cursor it then had. -/
structure State where
  client : Client
  merged : List Batch
  covered : Cursor

/-- What an apply pass is given; `applies` tells which transactions succeed. -/
structure Delivery where
  applies : Batch → Bool
  compacted : Cursor
  batches : List Batch

def State.pass (s : State) (d : Delivery) : State :=
  let p := s.client.applyBatches d.applies d.compacted d.batches
  { s with client := p.client, merged := s.merged ++ p.merged }

/-- `Number.isSafeInteger`. -/
def isSafeInteger (v : Int) : Bool := -(2 ^ 53 - 1) ≤ v ∧ v ≤ 2 ^ 53 - 1

/-- The cursor of `bootstrapInto`: what the rows reach, and what the server says they
cover. -/
def bootstrapInto (cursor : Cursor) (rows : List ChangeRow) (covered : Cursor) : Cursor :=
  covered.foldl
    (fun c e =>
      if isSafeInteger e.2 ∧ 0 < e.2 then
        Assoc.set e.1.toLower (max (c.at e.1.toLower) e.2) c
      else c)
    (rows.foldl (fun c r => Assoc.set r.siteId (max (c.at r.siteId) r.dbVersion) c) cursor)

/-! ## Runs -/

/-- A device that was just opened: what its cursor says, its database has. -/
structure State.Initial (s : State) : Prop where
  merged : s.merged = []
  marked : s.client.appliedBatchIds = []
  buffered : s.client.bufferedBatches = []
  covered : s.covered = s.client.cursor

inductive Event where
  | pass
  | publish
  | upgrade
  | rebase
  deriving DecidableEq

/-- One step of a device; the log may grow meanwhile. -/
inductive Step (log : List Batch) : State → Event → State → Prop
  | pass (s : State) (d : Delivery) (hlog : ∀ b ∈ d.batches, b ∈ log) :
      Step log s .pass (s.pass d)
  | publish (s : State) (read : Read) (makeBatchId : Nat → String)
      (hown : s.client.ownSite read.site = true)
      (hlog : ∀ b ∈ s.client.publishedBatches makeBatchId read, b ∈ log) :
      Step log s .publish { s with client := s.client.publishNow makeBatchId read }
  /-- `upgradeSchema`; `drainBuffered` empties the buffer before its pass. -/
  | upgrade (s : State) (schemaVersion : Int) (hnewer : s.client.schemaVersion < schemaVersion) :
      Step log s .upgrade
        { s with client := { s.client with
          schemaVersion := schemaVersion
          bufferedBatches := [] } }
  | rebase (s : State) (db : Db) (rows : List ChangeRow) (covered : Cursor) :
      Step log s .rebase
        { client := { s.client with
            db := db
            cursor := bootstrapInto [] rows covered
            published := []
            appliedBatchIds := []
            bufferedBatches := []
            reads := [] }
          merged := []
          covered := bootstrapInto [] rows covered }

/-! ## One batch -/

/-- Everything a batch can do to a pass. -/
inductive Outcome (applies : Batch → Bool) (compacted : Cursor) (p : Pass) (b : Batch) :
    Pass × Bool → Prop
  | marked (hid : b.id ∈ p.client.appliedBatchIds) : Outcome applies compacted p b (p, true)
  | below (hle : b.toDbVersion ≤ p.client.applied b.siteId) :
      Outcome applies compacted p b ({ p with client := p.client.mark b.id }, true)
  | unsupported (hformat : b.format ≠ syncFormat) :
      Outcome applies compacted p b ({ p with client := p.client.mark b.id }, true)
  | newer (hto : p.client.applied b.siteId < b.toDbVersion) (hformat : b.format = syncFormat)
      (hschema : p.client.schemaVersion < b.schemaVersion) :
      Outcome applies compacted p b ({ p with client := p.client.buffer b }, false)
  | gap (hto : p.client.applied b.siteId < b.toDbVersion) (hformat : b.format = syncFormat)
      (hfrom : p.client.applied b.siteId < b.fromDbVersion) :
      Outcome applies compacted p b
        ({ p with needsRebase := decide (b.fromDbVersion ≤ compacted.at b.siteId) }, false)
  | merged (hto : p.client.applied b.siteId < b.toDbVersion) (hformat : b.format = syncFormat)
      (hschema : b.schemaVersion ≤ p.client.schemaVersion)
      (hfrom : b.fromDbVersion ≤ p.client.applied b.siteId) (happlies : applies b = true) :
      Outcome applies compacted p b
        ({ p with client := p.client.advance b, merged := p.merged ++ [b] }, true)
  | failed (happlies : applies b = false) : Outcome applies compacted p b (p, false)

theorem applyBatch_outcome (applies : Batch → Bool) (compacted : Cursor) (p : Pass) (b : Batch) :
    Outcome applies compacted p b (applyBatch applies compacted p b) := by
  simp only [applyBatch]
  split
  · next hid => exact .marked hid
  · split
    · next hle => exact .below hle
    · next hto =>
      have hto : p.client.applied b.siteId < b.toDbVersion := by omega
      split
      · next hformat => exact .unsupported hformat
      · next hformat =>
        have hformat : b.format = syncFormat := by simpa using hformat
        split
        · next hschema => exact .newer hto hformat hschema
        · next hschema =>
          split
          · next hfrom => exact .gap hto hformat hfrom
          · next hfrom =>
            split
            · next happlies => exact .merged hto hformat (by omega) (by omega) happlies
            · next happlies => exact .failed (by simpa using happlies)

/-! ## What a pass never takes back -/

/-- The merged batches of a site. -/
def ofSite (batches : List Batch) (site : Site) : List Batch :=
  batches.filter fun b => b.siteId = site

theorem mem_ofSite {batches : List Batch} {site : Site} {b : Batch} :
    b ∈ ofSite batches site ↔ b ∈ batches ∧ b.siteId = site := by
  simp [ofSite]

/-- From `p` to `p'` over some of `batches`. -/
structure Grows (batches : List Batch) (p p' : Pass) : Prop where
  schemaVersion : p'.client.schemaVersion = p.client.schemaVersion
  own : ∀ site, p'.client.ownSite site = p.client.ownSite site
  cursor : ∀ site, p.client.cursor.at site ≤ p'.client.cursor.at site
  applied : ∀ site, p.client.applied site ≤ p'.client.applied site
  marked : ∀ id ∈ p.client.appliedBatchIds, id ∈ p'.client.appliedBatchIds
  marks : ∀ id ∈ p'.client.appliedBatchIds, id ∈ p.client.appliedBatchIds ∨
    ∃ b ∈ batches, b.id = id ∧
      (b.toDbVersion ≤ p'.client.applied b.siteId ∨ b.format ≠ syncFormat)
  buffered : ∀ b ∈ p.client.bufferedBatches, b ∈ p'.client.bufferedBatches
  buffers : ∀ b ∈ p'.client.bufferedBatches, b ∈ p.client.bufferedBatches ∨
    (b ∈ batches ∧ b.format = syncFormat ∧ p.client.schemaVersion < b.schemaVersion ∧
      p.client.applied b.siteId < b.toDbVersion)
  merged : ∀ b ∈ p.merged, b ∈ p'.merged
  merges : ∀ b ∈ p'.merged, b ∈ p.merged ∨
    (b ∈ batches ∧ b.format = syncFormat ∧ b.schemaVersion ≤ p.client.schemaVersion ∧
      b.fromDbVersion < b.toDbVersion ∧ p.client.applied b.siteId < b.toDbVersion ∧
      b.toDbVersion ≤ p'.client.applied b.siteId)
  /-- The cursor moves along the merged batches. -/
  joined : ∀ site w, Joined Batch.fromDbVersion Batch.toDbVersion w (ofSite p.merged site)
      (p.client.cursor.at site) →
    Joined Batch.fromDbVersion Batch.toDbVersion w (ofSite p'.merged site)
      (p'.client.cursor.at site)
  elsewhere : ∀ site, (∀ b ∈ batches, b.siteId ≠ site) →
    p'.client.cursor.at site = p.client.cursor.at site

section Grows

variable {batches : List Batch} {p p' p'' : Pass} {b : Batch} {site : Site}

theorem Grows.refl (p : Pass) : Grows batches p p where
  schemaVersion := rfl
  own := fun _ => rfl
  cursor := fun _ => le_rfl
  applied := fun _ => le_rfl
  marked := fun _ h => h
  marks := fun _ h => .inl h
  buffered := fun _ h => h
  buffers := fun _ h => .inl h
  merged := fun _ h => h
  merges := fun _ h => .inl h
  joined := fun _ _ h => h
  elsewhere := fun _ _ => rfl

theorem Grows.trans (h : Grows batches p p') (h' : Grows batches p' p'') :
    Grows batches p p'' where
  schemaVersion := h'.schemaVersion.trans h.schemaVersion
  own := fun site => (h'.own site).trans (h.own site)
  cursor := fun site => (h.cursor site).trans (h'.cursor site)
  applied := fun site => (h.applied site).trans (h'.applied site)
  marked := fun id hid => h'.marked id (h.marked id hid)
  marks := by
    intro id hid
    rcases h'.marks id hid with hid | hid
    · rcases h.marks id hid with hid | ⟨b, hb, heq, hle⟩
      · exact .inl hid
      · exact .inr ⟨b, hb, heq, hle.imp_left fun hle => hle.trans (h'.applied _)⟩
    · exact .inr hid
  buffered := fun b hb => h'.buffered b (h.buffered b hb)
  buffers := by
    intro b hb
    rcases h'.buffers b hb with hb | ⟨hb, hformat, hschema, hto⟩
    · exact h.buffers b hb
    · exact .inr ⟨hb, hformat, h.schemaVersion ▸ hschema, (h.applied _).trans_lt hto⟩
  merged := fun b hb => h'.merged b (h.merged b hb)
  merges := by
    intro b hb
    rcases h'.merges b hb with hb | ⟨hb, hformat, hschema, hne, hto, hle⟩
    · rcases h.merges b hb with hb | ⟨hb, hformat, hschema, hne, hto, hle⟩
      · exact .inl hb
      · exact .inr ⟨hb, hformat, hschema, hne, hto, hle.trans (h'.applied _)⟩
    · exact .inr ⟨hb, hformat, h.schemaVersion ▸ hschema, hne, (h.applied _).trans_lt hto, hle⟩
  joined := fun site w hjoined => h'.joined site w (h.joined site w hjoined)
  elsewhere := fun site hsite => (h'.elsewhere site hsite).trans (h.elsewhere site hsite)

/-! ### The bookkeeping of one batch -/

theorem applied_of_remote {c : Client} (hremote : c.ownSite site = false) :
    c.applied site = c.cursor.at site := by
  rw [Client.applied, hremote]
  rfl

theorem applied_of_own {c : Client} (hown : c.ownSite site = true) :
    c.applied site = c.published.at site := by
  rw [Client.applied, hown]
  rfl

theorem ownSite_advance (c : Client) (b : Batch) (site : Site) :
    (c.advance b).ownSite site = c.ownSite site := by
  unfold Client.advance Client.mark
  cases hown : c.ownSite b.siteId with
  | false => rfl
  | true =>
      simp only [Client.ownSite, if_true]
      rw [Assoc.get_set]
      by_cases hsite : b.siteId = site
      · rw [if_pos hsite]
        rw [hsite] at hown
        unfold Client.ownSite at hown
        rw [hown]
        simp
      · rw [if_neg hsite]

theorem cursor_advance (c : Client) (b : Batch) (site : Site) :
    (c.advance b).cursor.at site =
      if site = b.siteId ∧ c.ownSite site = false then b.toDbVersion else c.cursor.at site := by
  unfold Client.advance Client.mark
  cases hown : c.ownSite b.siteId with
  | true =>
      rw [if_pos rfl, if_neg]
      rintro ⟨rfl, hremote⟩
      rw [hown] at hremote
      cases hremote
  | false =>
      show Cursor.at (Assoc.set _ _ _) site = _
      rw [Cursor.at_set]
      by_cases hsite : site = b.siteId
      · subst hsite
        rw [if_pos rfl, if_pos ⟨rfl, hown⟩]
      · rw [if_neg hsite, if_neg fun h => hsite h.1]

theorem applied_advance {c : Client} {b : Batch} (hto : c.applied b.siteId < b.toDbVersion)
    (site : Site) :
    (c.advance b).applied site = if site = b.siteId then b.toDbVersion else c.applied site := by
  cases hown : c.ownSite site with
  | false =>
      rw [applied_of_remote ((ownSite_advance c b site).trans hown), applied_of_remote hown,
        cursor_advance]
      simp only [hown, and_true]
  | true =>
      rw [applied_of_own ((ownSite_advance c b site).trans hown), applied_of_own hown]
      unfold Client.advance Client.mark
      by_cases hsite : site = b.siteId
      · subst hsite
        rw [if_pos hown, if_pos rfl]
        show Cursor.at (Assoc.set _ _ _) _ = _
        rw [Cursor.at_set, if_pos rfl, max_eq_right hto.le]
      · rw [if_neg hsite]
        split
        · show Cursor.at (Assoc.set _ _ _) site = _
          rw [Cursor.at_set, if_neg hsite]
        · rfl

theorem Grows.mark (hb : b ∈ batches)
    (hwhy : b.toDbVersion ≤ p.client.applied b.siteId ∨ b.format ≠ syncFormat) :
    Grows batches p { p with client := p.client.mark b.id } where
  schemaVersion := rfl
  own := fun _ => rfl
  cursor := fun _ => le_rfl
  applied := fun _ => le_rfl
  marked := fun _ h => List.mem_append_left _ h
  marks := fun _ h => (mem_mark h).imp_right fun heq => ⟨b, hb, heq.symm, hwhy⟩
  buffered := fun _ h => h
  buffers := fun _ h => .inl h
  merged := fun _ h => h
  merges := fun _ h => .inl h
  joined := fun _ _ h => h
  elsewhere := fun _ _ => rfl

theorem mem_buffer {c : Client} {b b' : Batch} (h : b' ∈ (c.buffer b).bufferedBatches) :
    b' ∈ c.bufferedBatches ∨ b' = b := by
  unfold Client.buffer at h
  split at h
  · exact .inl h
  · simpa using h

theorem mem_buffer_of_mem {c : Client} {b b' : Batch} (h : b' ∈ c.bufferedBatches) :
    b' ∈ (c.buffer b).bufferedBatches := by
  unfold Client.buffer
  split
  · exact h
  · exact List.mem_append_left _ h

/-- Buffering touches nothing but the buffer. -/
theorem buffer_eq (c : Client) (b : Batch) :
    c.buffer b = { c with bufferedBatches := (c.buffer b).bufferedBatches } := by
  unfold Client.buffer
  split <;> rfl

theorem Grows.buffer (hb : b ∈ batches) (hto : p.client.applied b.siteId < b.toDbVersion)
    (hformat : b.format = syncFormat) (hschema : p.client.schemaVersion < b.schemaVersion) :
    Grows batches p { p with client := p.client.buffer b } := by
  have hmem : ∀ b' ∈ (p.client.buffer b).bufferedBatches,
      b' ∈ p.client.bufferedBatches ∨ b' = b := fun _ h => mem_buffer h
  have hold : ∀ b' ∈ p.client.bufferedBatches, b' ∈ (p.client.buffer b).bufferedBatches :=
    fun _ h => mem_buffer_of_mem h
  rw [buffer_eq]
  exact {
    schemaVersion := rfl
    own := fun _ => rfl
    cursor := fun _ => le_rfl
    applied := fun _ => le_rfl
    marked := fun _ h => h
    marks := fun _ h => .inl h
    buffered := hold
    buffers := fun b' h => (hmem b' h).imp_right fun heq => by
      subst heq
      exact ⟨hb, hformat, hschema, hto⟩
    merged := fun _ h => h
    merges := fun _ h => .inl h
    joined := fun _ _ h => h
    elsewhere := fun _ _ => rfl }

theorem Grows.advance (hb : b ∈ batches) (hto : p.client.applied b.siteId < b.toDbVersion)
    (hformat : b.format = syncFormat) (hschema : b.schemaVersion ≤ p.client.schemaVersion)
    (hfrom : b.fromDbVersion ≤ p.client.applied b.siteId) :
    Grows batches p { p with client := p.client.advance b, merged := p.merged ++ [b] } := by
  have hbuffered : (p.client.advance b).bufferedBatches = p.client.bufferedBatches := by
    unfold Client.advance Client.mark
    split <;> rfl
  have hmarks : (p.client.advance b).appliedBatchIds = p.client.appliedBatchIds ++ [b.id] := by
    unfold Client.advance Client.mark
    split <;> rfl
  have happlied := applied_advance hto
  refine ⟨?_, ownSite_advance _ _, fun site => ?_, fun site => ?_, fun id hid => ?_,
    fun id hid => ?_, fun _ hb' => ?_, fun _ hb' => ?_, fun _ hb' => List.mem_append_left _ hb',
    fun b' hb' => ?_, fun site w hjoined => ?_, fun site hsite => ?_⟩
  · unfold Client.advance Client.mark
    split <;> rfl
  · show _ ≤ (p.client.advance b).cursor.at site
    rw [cursor_advance]
    split
    · next h =>
      obtain ⟨rfl, hremote⟩ := h
      rw [applied_of_remote hremote] at hto
      exact hto.le
    · exact le_rfl
  · show _ ≤ (p.client.advance b).applied site
    rw [happlied]
    split
    · next hsite => exact hsite ▸ hto.le
    · exact le_rfl
  · show id ∈ (p.client.advance b).appliedBatchIds
    rw [hmarks]
    exact List.mem_append_left _ hid
  · have hid : id ∈ (p.client.advance b).appliedBatchIds := hid
    rw [hmarks] at hid
    rcases List.mem_append.mp hid with hid | hid
    · exact .inl hid
    · refine .inr ⟨b, hb, (List.mem_singleton.mp hid).symm, .inl ?_⟩
      show b.toDbVersion ≤ (p.client.advance b).applied b.siteId
      rw [happlied, if_pos rfl]
  · show _ ∈ (p.client.advance b).bufferedBatches
    rw [hbuffered]
    exact hb'
  · exact .inl (hbuffered ▸ hb')
  · rcases List.mem_append.mp hb' with hb' | hb'
    · exact .inl hb'
    · obtain rfl := List.mem_singleton.mp hb'
      refine .inr ⟨hb, hformat, hschema, hfrom.trans_lt hto, hto, ?_⟩
      show b'.toDbVersion ≤ (p.client.advance b').applied b'.siteId
      rw [happlied, if_pos rfl]
  · have hjoined : Joined Batch.fromDbVersion Batch.toDbVersion w
        (ofSite (p.merged ++ [b]) site) (p.client.cursor.at site) := by
      refine hjoined.mono fun b' hb' => ?_
      obtain ⟨hb', hsite⟩ := mem_ofSite.mp hb'
      exact mem_ofSite.mpr ⟨List.mem_append_left _ hb', hsite⟩
    show Joined _ _ w _ ((p.client.advance b).cursor.at site)
    rw [cursor_advance]
    split
    · next h =>
      -- the batch starts at or below the cursor
      obtain ⟨rfl, hremote⟩ := h
      rw [applied_of_remote hremote] at hfrom
      exact .link (mem_ofSite.mpr ⟨List.mem_append_right _ List.mem_cons_self, rfl⟩)
        (hjoined.of_le hfrom) le_rfl
    · exact hjoined
  · show (p.client.advance b).cursor.at site = _
    rw [cursor_advance, if_neg fun h => hsite b hb h.1.symm]

theorem Outcome.grows {applies : Batch → Bool} {compacted : Cursor} {r : Pass × Bool}
    (h : Outcome applies compacted p b r) (hb : b ∈ batches) : Grows batches p r.1 := by
  cases h with
  | marked hid => exact .refl p
  | below hle => exact .mark hb (.inl hle)
  | unsupported hformat => exact .mark hb (.inr hformat)
  | newer hto hformat hschema => exact .buffer hb hto hformat hschema
  | gap hto hformat hfrom =>
      exact ⟨rfl, fun _ => rfl, fun _ => le_rfl, fun _ => le_rfl, fun _ h => h, fun _ h => .inl h,
        fun _ h => h, fun _ h => .inl h, fun _ h => h, fun _ h => .inl h, fun _ _ h => h,
        fun _ _ => rfl⟩
  | merged hto hformat hschema hfrom happlies => exact .advance hb hto hformat hschema hfrom
  | failed happlies => exact .refl p

theorem applySite_grows (applies : Batch → Bool) (compacted : Cursor) {bs : List Batch}
    (hbs : ∀ b ∈ bs, b ∈ batches) : Grows batches p (applySite applies compacted p bs) := by
  induction bs generalizing p with
  | nil => exact .refl p
  | cons b bs ih =>
      have hgrows := (applyBatch_outcome applies compacted p b).grows (hbs b List.mem_cons_self)
      unfold applySite
      split
      · next p' heq =>
        rw [heq] at hgrows
        exact hgrows.trans (ih fun b hb => hbs b (List.mem_cons_of_mem _ hb))
      · next p' heq =>
        rw [heq] at hgrows
        exact hgrows

theorem applySites_grows (applies : Batch → Bool) (compacted : Cursor) {groups : List (List Batch)}
    (hgroups : ∀ bs ∈ groups, ∀ b ∈ bs, b ∈ batches) :
    Grows batches p (applySites applies compacted p groups) := by
  induction groups generalizing p with
  | nil => exact .refl p
  | cons bs groups ih =>
      have hgrows := applySite_grows (p := p) applies compacted (hgroups bs List.mem_cons_self)
      simp only [applySites]
      split
      · exact hgrows
      · exact hgrows.trans (ih fun bs hbs => hgroups bs (List.mem_cons_of_mem _ hbs))

theorem applyBatches_grows (c : Client) (applies : Batch → Bool) (compacted : Cursor)
    (batches : List Batch) :
    Grows batches ⟨c, [], false⟩ (c.applyBatches applies compacted batches) := by
  refine applySites_grows applies compacted fun bs hbs b hb => ?_
  obtain ⟨site, _, rfl⟩ := List.mem_map.mp hbs
  exact (mem_siteBatches.mp hb).1

end Grows

/-! ## Runs keep the cursor honest -/

/-- The cursor is reached along merged batches from what the database started with. -/
structure Honest (log : List Batch) (s : State) : Prop where
  merged : ∀ b ∈ s.merged, b ∈ log ∧ b.format = syncFormat
  joined : ∀ site, Joined Batch.fromDbVersion Batch.toDbVersion (s.covered.at site)
    (ofSite s.merged site) (s.client.cursor.at site)

theorem joined_append {w v : Int} {site : Site} {l l' : List Batch}
    (h : Joined Batch.fromDbVersion Batch.toDbVersion w (ofSite l site) v)
    {u : Int} (h' : Joined Batch.fromDbVersion Batch.toDbVersion v (ofSite l' site) u) :
    Joined Batch.fromDbVersion Batch.toDbVersion w (ofSite (l ++ l') site) u := by
  have hsplit : ofSite (l ++ l') site = ofSite l site ++ ofSite l' site := List.filter_append _ _
  rw [hsplit]
  exact (h.mono fun _ hb => List.mem_append_left _ hb).trans
    (h'.mono fun _ hb => List.mem_append_right _ hb)

theorem Honest.pass {log : List Batch} {s : State} (h : Honest log s) {d : Delivery}
    (hlog : ∀ b ∈ d.batches, b ∈ log) : Honest log (s.pass d) := by
  have hgrows := applyBatches_grows s.client d.applies d.compacted d.batches
  refine ⟨fun b hb => ?_, fun site => ?_⟩
  · rcases List.mem_append.mp hb with hb | hb
    · exact h.merged b hb
    · rcases hgrows.merges b hb with hb | ⟨hb, hformat, _⟩
      · exact (List.not_mem_nil hb).elim
      · exact ⟨hlog b hb, hformat⟩
  · exact joined_append (h.joined site) (hgrows.joined site _ (.base le_rfl))

theorem Honest.step {log : List Batch} {s s' : State} {e : Event} (h : Honest log s)
    (hstep : Step log s e s') : Honest log s' := by
  cases hstep with
  | pass d hlog => exact h.pass hlog
  | publish read makeBatchId hown hlog => exact ⟨h.merged, h.joined⟩
  | upgrade schemaVersion hnewer => exact ⟨h.merged, h.joined⟩
  | rebase db rows covered => exact ⟨fun _ hb => (List.not_mem_nil hb).elim, fun _ => .base le_rfl⟩

theorem reach_honest {log : List Batch} {s : State}
    (h : Lib.Reach State.Initial (Step log) s) : Honest log s := by
  refine h.invariant (fun s hinit => ⟨?_, fun site => ?_⟩) fun _ _ _ hs hstep => hs.step hstep
  · rw [hinit.merged]
    exact fun _ hb => (List.not_mem_nil hb).elim
  · rw [hinit.covered]
    exact .base le_rfl

theorem Step.cursor_le {log : List Batch} {s s' : State} {e : Event} (h : Step log s e s')
    (he : e ≠ .rebase) (site : Site) : s.client.cursor.at site ≤ s'.client.cursor.at site := by
  cases h with
  | pass d hlog => exact (applyBatches_grows s.client d.applies d.compacted d.batches).cursor site
  | publish read makeBatchId hown hlog => exact le_rfl
  | upgrade schemaVersion hnewer => exact le_rfl
  | rebase db rows covered => exact absurd rfl he

/-! ## The last pass -/

/-- A pass whose marks and buffer speak of the log. -/
structure Sane (log : List Batch) (p : Pass) : Prop where
  marked : ∀ b ∈ log, b.id ∈ p.client.appliedBatchIds →
    b.toDbVersion ≤ p.client.applied b.siteId ∨ b.format ≠ syncFormat
  buffered : ∀ b ∈ p.client.bufferedBatches, b ∈ log

/-- Ids name batches. -/
def IdsUnique (log : List Batch) : Prop := ∀ b ∈ log, ∀ b' ∈ log, b.id = b'.id → b = b'

section LastPass

variable {log batches : List Batch} {p p' : Pass} {site : Site}

theorem Sane.grows (h : Sane log p) (hids : IdsUnique log) (hgrows : Grows batches p p')
    (hlog : ∀ b ∈ batches, b ∈ log) : Sane log p' := by
  refine ⟨fun b hb hid => ?_, fun b hb => ?_⟩
  · rcases hgrows.marks b.id hid with hid | ⟨b', hb', heq, hwhy⟩
    · exact (h.marked b hb hid).imp_left fun hle => hle.trans (hgrows.applied _)
    · rw [← hids b' (hlog b' hb') b hb heq]
      exact hwhy
  · rcases hgrows.buffers b hb with hb | ⟨hb, _⟩
    · exact h.buffered b hb
    · exact hlog b hb

/-- The pass stops at `x`: it is next in line but too new, or starts past the cursor. -/
structure Stops (p : Pass) (site : Site) (x : Batch) : Prop where
  siteId : x.siteId = site
  format : x.format = syncFormat
  beyond : p.client.cursor.at site < x.toDbVersion
  why : (p.client.schemaVersion < x.schemaVersion ∧ x ∈ p.client.bufferedBatches) ∨
    p.client.cursor.at site < x.fromDbVersion

/-- When a pass that fails no transaction is through with a site, a batch is within
the cursor, or the pass stopped at one that starts no later. -/
def Settled (p : Pass) (site : Site) (bs : List Batch) : Prop :=
  ∀ b ∈ bs, b.format = syncFormat → b.toDbVersion ≤ p.client.cursor.at site ∨
    ∃ x ∈ bs, Stops p site x ∧ x.fromDbVersion ≤ b.fromDbVersion

theorem mem_buffer_self {c : Client} {b : Batch} (hids : IdsUnique log) (hb : b ∈ log)
    (hlog : ∀ b ∈ c.bufferedBatches, b ∈ log) : b ∈ (c.buffer b).bufferedBatches := by
  unfold Client.buffer
  split
  · next hany =>
    obtain ⟨b', hb', heq⟩ := List.any_eq_true.mp hany
    rw [hids b hb b' (hlog b' hb') (by simpa using heq : b'.id = b.id).symm]
    exact hb'
  · exact List.mem_append_right _ List.mem_cons_self

theorem applySite_settled (compacted : Cursor) {applies : Batch → Bool}
    (happlies : ∀ b, applies b = true) (hids : IdsUnique log) {bs : List Batch}
    (hsane : Sane log p) (hremote : p.client.ownSite site = false)
    (hbs : ∀ b ∈ bs, b ∈ log ∧ b.siteId = site)
    (hsorted : bs.Pairwise fun b b' => b.fromDbVersion ≤ b'.fromDbVersion) :
    Settled (applySite applies compacted p bs) site bs := by
  induction bs generalizing p with
  | nil => exact fun b hb => (List.not_mem_nil hb).elim
  | cons b bs ih =>
      obtain ⟨hb, hsite⟩ := hbs b List.mem_cons_self
      obtain ⟨hfirst, hrest⟩ := List.pairwise_cons.mp hsorted
      have happlied := applied_of_remote hremote
      have houtcome := applyBatch_outcome applies compacted p b
      have hgrows : Grows [b] p (applyBatch applies compacted p b).1 :=
        houtcome.grows List.mem_cons_self
      -- whatever the batch did, if the pass goes on the batch is within the cursor
      have hgoes : ∀ p', applyBatch applies compacted p b = (p', true) →
          (b.format = syncFormat → b.toDbVersion ≤ p'.client.applied b.siteId) →
          Settled (applySite applies compacted p (b :: bs)) site (b :: bs) := by
        intro p' heq hwithin
        rw [heq] at hgrows
        have hremote' := (hgrows.own site).trans hremote
        have hin := ih (hsane.grows hids hgrows (by simpa using hb)) hremote'
          (fun b' hb' => hbs b' (List.mem_cons_of_mem _ hb')) hrest
        have hlater : Grows bs p' (applySite applies compacted p' bs) :=
          applySite_grows applies compacted fun _ hb => hb
        simp only [applySite, heq]
        intro b' hb' hformat
        rcases List.mem_cons.mp hb' with rfl | hb'
        · refine .inl (le_trans ?_ (hlater.cursor site))
          rw [← applied_of_remote hremote', ← hsite]
          exact hwithin hformat
        · rcases hin b' hb' hformat with hle | ⟨x, hx, hstops, hfrom⟩
          · exact .inl hle
          · exact .inr ⟨x, List.mem_cons_of_mem _ hx, hstops, hfrom⟩
      -- and if it stops, it stops at the batch
      have hstops : ∀ p', applyBatch applies compacted p b = (p', false) → Stops p' site b →
          Settled (applySite applies compacted p (b :: bs)) site (b :: bs) := by
        intro p' heq hstop
        simp only [applySite, heq]
        intro b' hb' _
        refine .inr ⟨b, List.mem_cons_self, hstop, ?_⟩
        rcases List.mem_cons.mp hb' with rfl | hb'
        · exact le_rfl
        · exact hfirst b' hb'
      generalize hr : applyBatch applies compacted p b = r at houtcome
      cases houtcome with
      | marked hid =>
          refine hgoes _ hr fun hformat => ?_
          exact (hsane.marked b hb hid).resolve_right fun hne => hne hformat
      | below hle => exact hgoes _ hr fun _ => hle
      | unsupported hformat => exact hgoes _ hr fun heq => absurd heq hformat
      | newer hto hformat hschema =>
          refine hstops _ hr ⟨hsite, hformat, ?_, .inl ⟨?_, mem_buffer_self hids hb hsane.buffered⟩⟩
          · rw [hsite, happlied] at hto
            rw [buffer_eq]
            exact hto
          · rw [buffer_eq]
            exact hschema
      | gap hto hformat hfrom =>
          rw [hsite, happlied] at hto hfrom
          exact hstops _ hr ⟨hsite, hformat, hto, .inr hfrom⟩
      | merged hto hformat hschema hfrom happlies =>
          refine hgoes _ hr fun _ => ?_
          show _ ≤ (p.client.advance b).applied b.siteId
          rw [applied_advance hto, if_pos rfl]
      | failed hfails =>
          rw [happlies] at hfails
          cases hfails

theorem Settled.grows {bs : List Batch} (h : Settled p site bs) (hgrows : Grows batches p p')
    (hother : ∀ b ∈ batches, b.siteId ≠ site) : Settled p' site bs := by
  intro b hb hformat
  rw [hgrows.elsewhere site hother]
  rcases h b hb hformat with hle | ⟨x, hx, hstops, hfrom⟩
  · exact .inl hle
  · refine .inr ⟨x, hx, ⟨hstops.siteId, hstops.format, ?_, ?_⟩, hfrom⟩
    · rw [hgrows.elsewhere site hother]
      exact hstops.beyond
    · rw [hgrows.elsewhere site hother, hgrows.schemaVersion]
      exact hstops.why.imp_left fun ⟨hschema, hmem⟩ => ⟨hschema, hgrows.buffered x hmem⟩

theorem applySites_settled (compacted : Cursor) {applies : Batch → Bool}
    (happlies : ∀ b, applies b = true) (hids : IdsUnique log) (hlog : ∀ b ∈ batches, b ∈ log)
    {sites : List Site} (hnodup : sites.Nodup) (hsane : Sane log p)
    (hremote : p.client.ownSite site = false) (hsite : site ∈ sites)
    (hneeds : (applySites applies compacted p (sites.map (siteBatches batches))).needsRebase =
      false) :
    Settled (applySites applies compacted p (sites.map (siteBatches batches))) site
      (siteBatches batches site) := by
  induction sites generalizing p with
  | nil => exact (List.not_mem_nil hsite).elim
  | cons first sites ih =>
      obtain ⟨hfresh, hnodup⟩ := List.nodup_cons.mp hnodup
      have hgroup : ∀ s, ∀ b ∈ siteBatches batches s, b ∈ log ∧ b.siteId = s := by
        intro s b hb
        obtain ⟨hb, hs⟩ := mem_siteBatches.mp hb
        exact ⟨hlog b hb, hs⟩
      have hgrows : Grows (siteBatches batches first) p
          (applySite applies compacted p (siteBatches batches first)) :=
        applySite_grows applies compacted fun _ hb => hb
      simp only [List.map_cons, applySites] at hneeds ⊢
      split at hneeds
      · next hstop => exact absurd (hneeds.symm.trans hstop) (by simp)
      · next hgo =>
        rw [if_neg hgo]
        rcases List.mem_cons.mp hsite with rfl | hsite
        · -- the other groups leave the site alone
          have hsettled := applySite_settled compacted happlies hids hsane hremote (hgroup site)
            (pairwise_siteBatches batches site)
          have hother : ∀ bs ∈ sites.map (siteBatches batches), ∀ b ∈ bs,
              b ∈ batches.filter fun b => b.siteId ≠ site := by
            intro bs hbs b hb
            obtain ⟨s, hs, rfl⟩ := List.mem_map.mp hbs
            obtain ⟨hb, hbs⟩ := mem_siteBatches.mp hb
            refine List.mem_filter.mpr ⟨hb, ?_⟩
            simpa [hbs] using fun heq : s = site => hfresh (heq ▸ hs)
          have hlater := applySites_grows
            (p := applySite applies compacted p (siteBatches batches site)) applies compacted hother
          exact hsettled.grows hlater fun b hb => by simpa using (List.mem_filter.mp hb).2
        · exact ih hnodup (hsane.grows hids hgrows fun b hb => (hgroup first b hb).1)
            ((hgrows.own site).trans hremote) hsite hneeds

end LastPass

/-! ## Every order leads to the same place -/

def State.run (s : State) (ds : List Delivery) : State := ds.foldl State.pass s

/-- `s` is reached from `s₀` by passes over parts of the log, the last of which had the
whole log, failed no transaction and asked for no rebase. -/
def Delivered (log : List Batch) (s₀ s : State) : Prop :=
  ∃ ds d, (∀ d ∈ ds, ∀ b ∈ d.batches, b ∈ log) ∧ (∀ b, b ∈ d.batches ↔ b ∈ log) ∧
    (∀ b, d.applies b = true) ∧
    ((s₀.run ds).client.applyBatches d.applies d.compacted d.batches).needsRebase = false ∧
    s = (s₀.run ds).pass d

/-- The versions two batches span have none in common. -/
def Apart (b b' : Batch) : Prop :=
  b.toDbVersion ≤ b'.fromDbVersion ∨ b'.toDbVersion ≤ b.fromDbVersion

/-- No batch that is too new spans a version that another one spans. -/
def NewerApart (log : List Batch) (schemaVersion : Int) (site : Site) : Prop :=
  ∀ n ∈ log, n.siteId = site → n.format = syncFormat → schemaVersion < n.schemaVersion →
    ∀ b ∈ log, b.siteId = site → b.format = syncFormat → b.schemaVersion ≤ schemaVersion →
      Apart n b

/-- Every batch of the site spans a version, and no two the same. -/
structure AllApart (log : List Batch) (site : Site) : Prop where
  spans : ∀ b ∈ log, b.siteId = site → b.format = syncFormat → b.fromDbVersion < b.toDbVersion
  apart : ∀ b ∈ log, ∀ b' ∈ log, b.siteId = site → b'.siteId = site → b.format = syncFormat →
    b'.format = syncFormat → b ≠ b' → Apart b b'

/-- Where passes over parts of the log lead from `s₀`. -/
structure Arrived (log : List Batch) (s₀ s : State) : Prop where
  schemaVersion : s.client.schemaVersion = s₀.client.schemaVersion
  own : ∀ site, s.client.ownSite site = s₀.client.ownSite site
  cursor : ∀ site, s₀.client.cursor.at site ≤ s.client.cursor.at site
  applied : ∀ site, s₀.client.applied site ≤ s.client.applied site
  sane : Sane log ⟨s.client, [], false⟩
  buffered : ∀ b ∈ s.client.bufferedBatches, b.format = syncFormat ∧
    s₀.client.schemaVersion < b.schemaVersion ∧ s₀.client.applied b.siteId < b.toDbVersion
  merged : ∀ b ∈ s.merged, b ∈ log ∧ b.format = syncFormat ∧
    b.schemaVersion ≤ s₀.client.schemaVersion ∧ b.fromDbVersion < b.toDbVersion ∧
    s₀.client.applied b.siteId < b.toDbVersion ∧ b.toDbVersion ≤ s.client.applied b.siteId
  joined : ∀ site, Joined Batch.fromDbVersion Batch.toDbVersion (s₀.client.cursor.at site)
    (ofSite s.merged site) (s.client.cursor.at site)

section Delivered

variable {log : List Batch} {s₀ s s' : State} {site : Site}

theorem State.Initial.arrived (h : s₀.Initial) : Arrived log s₀ s₀ where
  schemaVersion := rfl
  own := fun _ => rfl
  cursor := fun _ => le_rfl
  applied := fun _ => le_rfl
  sane := by
    refine ⟨fun b _ hid => ?_, fun b hb => ?_⟩
    · rw [h.marked] at hid
      exact (List.not_mem_nil hid).elim
    · rw [h.buffered] at hb
      exact (List.not_mem_nil hb).elim
  buffered := by
    rw [h.buffered]
    exact fun _ hb => (List.not_mem_nil hb).elim
  merged := by
    rw [h.merged]
    exact fun _ hb => (List.not_mem_nil hb).elim
  joined := fun _ => .base le_rfl

theorem Arrived.pass (h : Arrived log s₀ s) (hids : IdsUnique log) {d : Delivery}
    (hlog : ∀ b ∈ d.batches, b ∈ log) : Arrived log s₀ (s.pass d) := by
  have hgrows := applyBatches_grows s.client d.applies d.compacted d.batches
  refine ⟨hgrows.schemaVersion.trans h.schemaVersion,
    fun site => (hgrows.own site).trans (h.own site),
    fun site => (h.cursor site).trans (hgrows.cursor site),
    fun site => (h.applied site).trans (hgrows.applied site), ?_, fun b hb => ?_, fun b hb => ?_,
    fun site => joined_append (h.joined site) (hgrows.joined site _ (.base le_rfl))⟩
  · have hsane := h.sane.grows hids hgrows hlog
    exact ⟨hsane.marked, hsane.buffered⟩
  · rcases hgrows.buffers b hb with hb | ⟨_, hformat, hschema, hto⟩
    · exact h.buffered b hb
    · exact ⟨hformat, h.schemaVersion ▸ hschema, (h.applied _).trans_lt hto⟩
  · rcases List.mem_append.mp hb with hb | hb
    · obtain ⟨hmem, hformat, hschema, hne, hto, hle⟩ := h.merged b hb
      exact ⟨hmem, hformat, hschema, hne, hto, hle.trans (hgrows.applied _)⟩
    · rcases hgrows.merges b hb with hb | ⟨hb, hformat, hschema, hne, hto, hle⟩
      · exact (List.not_mem_nil hb).elim
      · exact ⟨hlog b hb, hformat, h.schemaVersion ▸ hschema, hne, (h.applied _).trans_lt hto, hle⟩

theorem Arrived.run (h : Arrived log s₀ s) (hids : IdsUnique log) {ds : List Delivery}
    (hlog : ∀ d ∈ ds, ∀ b ∈ d.batches, b ∈ log) : Arrived log s₀ (s.run ds) := by
  induction ds generalizing s with
  | nil => exact h
  | cons d ds ih =>
      exact ih (h.pass hids (hlog d List.mem_cons_self)) fun d hd =>
        hlog d (List.mem_cons_of_mem _ hd)

theorem Delivered.arrived (h : Delivered log s₀ s) (hinit : s₀.Initial) (hids : IdsUnique log) :
    Arrived log s₀ s := by
  obtain ⟨ds, d, hlog, hall, _, _, rfl⟩ := h
  exact (hinit.arrived.run hids hlog).pass hids fun b hb => (hall b).mp hb

theorem Delivered.settled (h : Delivered log s₀ s) (hinit : s₀.Initial) (hids : IdsUnique log)
    (hremote : s₀.client.ownSite site = false) :
    Settled ⟨s.client, [], false⟩ site (siteBatches log site) := by
  obtain ⟨ds, d, hlog, hall, happlies, hneeds, rfl⟩ := h
  have harrived := hinit.arrived.run hids hlog
  have hmem : ∀ b, b ∈ siteBatches d.batches site ↔ b ∈ siteBatches log site := by
    intro b
    rw [mem_siteBatches, mem_siteBatches, hall b]
  intro b hb hformat
  have hb := (hmem b).mpr hb
  have hsite : site ∈ (d.batches.map (·.siteId)).eraseDups := by
    obtain ⟨hin, hs⟩ := mem_siteBatches.mp hb
    exact List.mem_eraseDups.mpr (List.mem_map.mpr ⟨b, hin, hs⟩)
  have hsettled := applySites_settled d.compacted happlies hids (fun b hb => (hall b).mp hb)
    (Assoc.nodup_eraseDups _) harrived.sane ((harrived.own site).trans hremote) hsite hneeds
  rcases hsettled b hb hformat with hle | ⟨x, hx, hstops, hfrom⟩
  · exact .inl hle
  · exact .inr ⟨x, (hmem x).mp hx, ⟨hstops.siteId, hstops.format, hstops.beyond, hstops.why⟩, hfrom⟩

/-- No batch the device can read leads past the cursor. -/
theorem Delivered.closed (h : Delivered log s₀ s) (hinit : s₀.Initial) (hids : IdsUnique log)
    (hremote : s₀.client.ownSite site = false)
    (happart : NewerApart log s₀.client.schemaVersion site) {b : Batch} (hb : b ∈ log)
    (hsite : b.siteId = site) (hformat : b.format = syncFormat)
    (hschema : b.schemaVersion ≤ s₀.client.schemaVersion)
    (hfrom : b.fromDbVersion ≤ s.client.cursor.at site) :
    b.toDbVersion ≤ s.client.cursor.at site := by
  rcases h.settled hinit hids hremote b (mem_siteBatches.mpr ⟨hb, hsite⟩) hformat with
    hle | ⟨x, hx, hstops, hxfrom⟩
  · exact hle
  · have hbeyond : s.client.cursor.at site < x.toDbVersion := hstops.beyond
    rcases hstops.why with ⟨hnewer, _⟩ | hgap
    · have hnewer : s₀.client.schemaVersion < x.schemaVersion := by
        rw [← (h.arrived hinit hids).schemaVersion]
        exact hnewer
      rcases happart x (mem_siteBatches.mp hx).1 hstops.siteId hstops.format hnewer b hb hsite
        hformat hschema with hle | hle
      · omega
      · omega
    · have hgap : s.client.cursor.at site < x.fromDbVersion := hgap
      omega

theorem Delivered.cursor_le (h : Delivered log s₀ s) (h' : Delivered log s₀ s')
    (hinit : s₀.Initial) (hids : IdsUnique log) (hremote : s₀.client.ownSite site = false)
    (happart : NewerApart log s₀.client.schemaVersion site) :
    s.client.cursor.at site ≤ s'.client.cursor.at site := by
  have harrived := h.arrived hinit hids
  refine (harrived.joined site).le_of_closed ((h'.arrived hinit hids).cursor site) ?_
  intro b hb hfrom
  obtain ⟨hb, hsite⟩ := mem_ofSite.mp hb
  obtain ⟨hlog, hformat, hschema, _⟩ := harrived.merged b hb
  exact h'.closed hinit hids hremote happart hlog hsite hformat hschema hfrom

theorem AllApart.newerApart (h : AllApart log site) (schemaVersion : Int) :
    NewerApart log schemaVersion site := by
  intro n hn hsite hformat hnewer b hb hbsite hbformat hschema
  refine h.apart n hn b hb hsite hbsite hformat hbformat ?_
  rintro rfl
  omega

/-- A version within the cursor is spanned by a merged batch and by no other. -/
theorem Arrived.merged_of_spans (h : Arrived log s₀ s) (happart : AllApart log site) {b : Batch}
    (hb : b ∈ log) (hsite : b.siteId = site) (hformat : b.format = syncFormat)
    (hto : s₀.client.cursor.at site < b.toDbVersion)
    (hle : b.toDbVersion ≤ s.client.cursor.at site) : b ∈ s.merged := by
  rcases (h.joined site).inside hle with hbase | ⟨m, hm, _, hlt, hmle⟩
  · omega
  · obtain ⟨hm, hmsite⟩ := mem_ofSite.mp hm
    obtain ⟨hmlog, hmformat, _⟩ := h.merged m hm
    by_cases heq : m = b
    · exact heq ▸ hm
    · have hspans := happart.spans b hb hsite hformat
      rcases happart.apart m hmlog b hb hmsite hsite hmformat hformat heq with h | h
      · omega
      · omega

theorem Delivered.mem_merged (h : Delivered log s₀ s) (hinit : s₀.Initial) (hids : IdsUnique log)
    (hremote : s₀.client.ownSite site = false) (happart : AllApart log site) {b : Batch}
    (hsite : b.siteId = site) :
    b ∈ s.merged ↔ b ∈ log ∧ b.format = syncFormat ∧
      s₀.client.cursor.at site < b.toDbVersion ∧ b.toDbVersion ≤ s.client.cursor.at site := by
  have harrived := h.arrived hinit hids
  constructor
  · intro hb
    obtain ⟨hlog, hformat, _, _, hto, hle⟩ := harrived.merged b hb
    rw [hsite, applied_of_remote hremote] at hto
    rw [hsite, applied_of_remote ((harrived.own site).trans hremote)] at hle
    exact ⟨hlog, hformat, hto, hle⟩
  · rintro ⟨hlog, hformat, hto, hle⟩
    exact harrived.merged_of_spans happart hlog hsite hformat hto hle

/-- The buffered batches that are next in line. -/
theorem Delivered.mem_buffered (h : Delivered log s₀ s) (hinit : s₀.Initial)
    (hids : IdsUnique log) (hremote : s₀.client.ownSite site = false)
    (happart : AllApart log site) {b : Batch} (hsite : b.siteId = site)
    (hfrom : b.fromDbVersion ≤ s.client.cursor.at site) :
    b ∈ s.client.bufferedBatches ↔ b ∈ log ∧ b.format = syncFormat ∧
      s₀.client.schemaVersion < b.schemaVersion ∧ s.client.cursor.at site < b.toDbVersion := by
  have harrived := h.arrived hinit hids
  constructor
  · intro hb
    obtain ⟨hformat, hnewer, hto⟩ := harrived.buffered b hb
    have hlog := harrived.sane.buffered b hb
    rw [hsite, applied_of_remote hremote] at hto
    refine ⟨hlog, hformat, hnewer, ?_⟩
    by_contra hle
    -- within the cursor it would have been merged, which it is too new for
    have hmerged := harrived.merged_of_spans happart hlog hsite hformat hto (by omega)
    obtain ⟨_, _, hschema, _⟩ := harrived.merged b hmerged
    omega
  · rintro ⟨hlog, hformat, hnewer, hto⟩
    rcases h.settled hinit hids hremote b (mem_siteBatches.mpr ⟨hlog, hsite⟩) hformat with
      hle | ⟨x, hx, hstops, hxfrom⟩
    · have hle : b.toDbVersion ≤ s.client.cursor.at site := hle
      omega
    · have hbeyond : s.client.cursor.at site < x.toDbVersion := hstops.beyond
      rcases hstops.why with ⟨_, hmem⟩ | hgap
      · by_cases heq : x = b
        · exact heq ▸ hmem
        · have hspans := happart.spans b hlog hsite hformat
          rcases happart.apart x (mem_siteBatches.mp hx).1 b hlog hstops.siteId hsite
            hstops.format hformat heq with h | h
          · omega
          · omega
      · have hgap : s.client.cursor.at site < x.fromDbVersion := hgap
        omega

end Delivered

/-- What holds of passes over a log, in any order. -/
theorem passes_over_log {log : List Batch} (hids : IdsUnique log) :
    (∀ s, Lib.Reach State.Initial (Step log) s → ∀ b ∈ log, b.format = syncFormat →
      ∀ r ∈ b.changes, r.dbVersion ≤ s.client.cursor.at b.siteId →
        (∃ m ∈ s.merged, r ∈ m.changes) ∨ r.dbVersion ≤ s.covered.at b.siteId ∨
          ∃ m ∈ s.merged, m.siteId = b.siteId ∧ m.fromDbVersion < r.dbVersion ∧
            r.dbVersion ≤ m.toDbVersion) ∧
    (∀ s e s', Step log s e s' → e ≠ .rebase →
      ∀ site, s.client.cursor.at site ≤ s'.client.cursor.at site) ∧
    (∀ (s : State) (d : Delivery), ∀ id ∈ (s.pass d).client.appliedBatchIds,
      id ∈ s.client.appliedBatchIds ∨ ∃ b ∈ d.batches, b.id = id ∧
        (b ∈ (s.pass d).merged ∨ b.toDbVersion ≤ (s.pass d).client.applied b.siteId ∨
          b.format ≠ syncFormat)) ∧
    ∀ s₀ s s' site, s₀.Initial → s₀.client.ownSite site = false →
      Delivered log s₀ s → Delivered log s₀ s' →
      (NewerApart log s₀.client.schemaVersion site →
        s.client.cursor.at site = s'.client.cursor.at site) ∧
      (AllApart log site → ∀ b, b.siteId = site →
        (b ∈ s.merged ↔ b ∈ s'.merged) ∧
          (b.fromDbVersion ≤ s.client.cursor.at site →
            (b ∈ s.client.bufferedBatches ↔ b ∈ s'.client.bufferedBatches))) := by
  refine ⟨fun s hreach b _ _ r _ hle => ?_, fun s e s' hstep he => hstep.cursor_le he,
    fun s d id hid => ?_, fun s₀ s s' site hinit hremote h h' => ?_⟩
  · rcases ((reach_honest hreach).joined b.siteId).inside hle with hbase | ⟨m, hm, _, hlt, hmle⟩
    · exact .inr (.inl hbase)
    · obtain ⟨hm, hsite⟩ := mem_ofSite.mp hm
      exact .inr (.inr ⟨m, hm, hsite, hlt, hmle⟩)
  · rcases (applyBatches_grows s.client d.applies d.compacted d.batches).marks id hid with
      hid | ⟨b, hb, heq, hwhy⟩
    · exact .inl hid
    · exact .inr ⟨b, hb, heq, .inr hwhy⟩
  · have hcursor : NewerApart log s₀.client.schemaVersion site →
        s.client.cursor.at site = s'.client.cursor.at site := fun happart =>
      le_antisymm (h.cursor_le h' hinit hids hremote happart)
        (h'.cursor_le h hinit hids hremote happart)
    refine ⟨hcursor, fun happart b hsite => ?_⟩
    have hsame := hcursor (happart.newerApart _)
    refine ⟨?_, fun hfrom => ?_⟩
    · rw [h.mem_merged hinit hids hremote happart hsite,
        h'.mem_merged hinit hids hremote happart hsite, hsame]
    · rw [h.mem_buffered hinit hids hremote happart hsite hfrom,
        h'.mem_buffered hinit hids hremote happart hsite (hsame ▸ hfrom), hsame]

/-! ## Batches that overlap -/

/-- A batch of the site `a` from version 0 on. -/
def fromZero (id : String) (toDbVersion schemaVersion : Int) : Batch where
  id := id
  siteId := "a"
  fromDbVersion := 0
  toDbVersion := toDbVersion
  schemaVersion := schemaVersion
  changes := [⟨"t", "1", "c", "0", toDbVersion, toDbVersion, "a", 1, 0⟩]
  format := syncFormat

def wide : Batch := fromZero "x" 2 1

/-- A part of `wide`, read before a later change won its cell. -/
def narrow : Batch := fromZero "y" 1 1

/-- The same, published under a schema the device does not have. -/
def upgraded : Batch := fromZero "n" 1 2

def opened : State := ⟨Client.fresh "b" 1, [], []⟩

/-- A pass without failures. -/
def whole (batches : List Batch) : Delivery := ⟨fun _ => true, [], batches⟩

/-- One batch arrives before the other. -/
def arrivals (first second : Batch) : State :=
  (opened.run [whole [first]]).pass (whole [wide, second])

theorem opened_initial : opened.Initial := ⟨rfl, rfl, rfl, rfl⟩

theorem bySite_one (b : Batch) : bySite [b] = [[b]] := by
  simp [bySite, siteBatches, List.eraseDups_cons]

theorem bySite_wide {b : Batch} (hsite : b.siteId = "a") (horder : batchOrder wide b = false) :
    bySite [wide, b] = [[b, wide]] := by
  have hwide : wide.siteId = "a" := rfl
  simp [bySite, siteBatches, hsite, hwide, List.eraseDups_cons, List.mergeSort,
    List.MergeSort.Internal.splitInTwo, horder]

/-- The two passes, with the second batch sorted before the wide one. -/
theorem arrivals_eq {first second : Batch} (hsite : second.siteId = "a")
    (horder : batchOrder wide second = false) :
    let p := applySites (fun _ => true) [] ⟨opened.client, [], false⟩ [[first]]
    let p' := applySites (fun _ => true) [] ⟨p.client, [], false⟩ [[second, wide]]
    arrivals first second = ⟨p'.client, p.merged ++ p'.merged, []⟩ ∧
      ((opened.run [whole [first]]).client.applyBatches (fun _ => true) []
        [wide, second]).needsRebase = p'.needsRebase := by
  simp only [arrivals, State.run, List.foldl_cons, List.foldl_nil, State.pass, whole,
    Client.applyBatches, bySite_one, bySite_wide hsite horder]
  exact ⟨rfl, trivial⟩

theorem arrivals_delivered {first second : Batch}
    (hfirst : first ∈ [wide, second])
    (hneeds : ((opened.run [whole [first]]).client.applyBatches (fun _ => true) []
      [wide, second]).needsRebase = false) :
    Delivered [wide, second] opened (arrivals first second) := by
  refine ⟨[whole [first]], whole [wide, second], fun d hd b hb => ?_, fun _ => Iff.rfl,
    fun _ => rfl, hneeds, rfl⟩
  obtain rfl := List.mem_singleton.mp hd
  obtain rfl := List.mem_singleton.mp hb
  exact hfirst

theorem arrivals_narrow : (arrivals wide narrow).client.cursor = [("a", 2)] ∧
    (arrivals wide narrow).merged = [wide] ∧ (arrivals narrow narrow).merged = [narrow, wide] := by
  rw [(arrivals_eq rfl (by decide)).1, (arrivals_eq rfl (by decide)).1]
  decide

theorem arrivals_upgraded : (arrivals wide upgraded).client.cursor = [("a", 2)] ∧
    (arrivals wide upgraded).client.bufferedBatches = [] ∧
    (arrivals upgraded upgraded).client.cursor = [] ∧
    (arrivals upgraded upgraded).client.bufferedBatches = [upgraded] := by
  rw [(arrivals_eq rfl (by decide)).1, (arrivals_eq rfl (by decide)).1]
  decide

theorem passes_over_log_narrow :
    (arrivals wide narrow).client.cursor.at "a" =
      (arrivals narrow narrow).client.cursor.at "a" := by
  have hids : IdsUnique [wide, narrow] := by
    unfold IdsUnique
    decide
  have hdelivered : ∀ first ∈ [wide, narrow],
      Delivered [wide, narrow] opened (arrivals first narrow) := by
    intro first hfirst
    refine arrivals_delivered hfirst ?_
    rw [(arrivals_eq rfl (by decide)).2]
    rcases List.mem_pair.mp hfirst with rfl | rfl <;> decide
  refine ((passes_over_log hids).2.2.2 opened _ _ "a" opened_initial (by decide)
    (hdelivered wide (by decide)) (hdelivered narrow (by decide))).1 ?_
  -- every batch has the schema of the device
  intro n hn _ _ hnewer
  rcases List.mem_pair.mp hn with rfl | rfl <;> exact absurd hnewer (by decide)

/-- If the wide batch arrives first, the narrow one is never merged, although the
cursor is past its change. If a batch of a newer schema arrives first, the device
stalls at it, and does not if the wide one does. -/
theorem not_passes_over_log :
    (Delivered [wide, narrow] opened (arrivals wide narrow) ∧
      Delivered [wide, narrow] opened (arrivals narrow narrow) ∧
      (∃ r ∈ narrow.changes, r.dbVersion ≤ (arrivals wide narrow).client.cursor.at "a" ∧
        (∀ m ∈ (arrivals wide narrow).merged, r ∉ m.changes) ∧
        (arrivals wide narrow).covered.at "a" < r.dbVersion) ∧
      narrow ∈ (arrivals narrow narrow).merged ∧ narrow ∉ (arrivals wide narrow).merged) ∧
    Delivered [wide, upgraded] opened (arrivals wide upgraded) ∧
      Delivered [wide, upgraded] opened (arrivals upgraded upgraded) ∧
      (arrivals wide upgraded).client.cursor.at "a" ≠
        (arrivals upgraded upgraded).client.cursor.at "a" ∧
      upgraded ∈ (arrivals upgraded upgraded).client.bufferedBatches ∧
      upgraded ∉ (arrivals wide upgraded).client.bufferedBatches := by
  obtain ⟨hcursor, hwide, hnarrow⟩ := arrivals_narrow
  obtain ⟨hcursor₁, hbuffer₁, hcursor₂, hbuffer₂⟩ := arrivals_upgraded
  have hneeds : ∀ second ∈ [narrow, upgraded], ∀ first ∈ [wide, second],
      Delivered [wide, second] opened (arrivals first second) := by
    intro second hsecond first hfirst
    refine arrivals_delivered hfirst ?_
    rcases List.mem_pair.mp hsecond with rfl | rfl <;>
      rw [(arrivals_eq rfl (by decide)).2] <;>
      rcases List.mem_pair.mp hfirst with rfl | rfl <;> decide
  refine ⟨⟨hneeds _ (by decide) _ (by decide), hneeds _ (by decide) _ (by decide), ?_, ?_, ?_⟩,
    hneeds _ (by decide) _ (by decide), hneeds _ (by decide) _ (by decide), ?_, ?_, ?_⟩
  · refine ⟨_, List.mem_cons_self, ?_, ?_, ?_⟩
    · rw [hcursor]
      decide
    · rw [hwide]
      decide
    · show (0 : Int) < 1
      decide
  · rw [hnarrow]
    decide
  · rw [hwide]
    decide
  · rw [hcursor₁, hcursor₂]
    decide
  · rw [hbuffer₂]
    decide
  · rw [hbuffer₁]
    decide

end Realtime.PluginDb.Passes
