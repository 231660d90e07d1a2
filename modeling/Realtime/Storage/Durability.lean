import Mathlib.Logic.Relation
import Realtime.Storage.Recovery

/-!
# Acknowledged updates survive

Runs of a document's persistence with failing file-system calls, crashes and
restarts. As long as every append goes to the generation a crash would come back
to, no acknowledged update is ever lost. `compact` breaks that when it fails
behind the rename of its manifest: the old generation stays in memory, and what
is appended to it is acknowledged although the manifest names the new one.
-/

namespace Realtime.Storage

open Lib Lib.Durable

/-! ## Runs -/

/-- The writer in memory, the files, and what was acknowledged. -/
structure Store where
  /-- The state in memory, while the process runs. -/
  persistence : Option DocumentPersistence
  disk : Disk
  /-- The updates whose append returned `Ok` and that were not taken back. -/
  acked : List Bytes
  /-- The segment length before the record just appended. -/
  appended : Option Nat

inductive Op where
  | appendUpdate (update : Bytes) (faults : DocumentPersistence.AppendFaults)
  | discardLastRecord (faults : TruncateFaults)
  | compact (snapshot : Bytes) (faults : CompactFaults)
  | reload (faults : LoadFaults)
  | crash (image : Disk)
  | loadOrCreate (faults : LoadFaults)

variable (backend : Backend) (emptyState : Bytes)

/-- One call. `discard_last_record` is for the record just appended, with the
segment length read before it. -/
def Store.step (s : Store) : Op → Store
  | .appendUpdate update faults =>
      match s.persistence with
      | none => s
      | some p =>
          match p.appendUpdate backend update faults s.disk with
          | (.ok _, p', d) => ⟨some p', d, s.acked ++ [update], some p.logBytes⟩
          | (.error _, p', d) => ⟨some p', d, s.acked, none⟩
  | .discardLastRecord faults =>
      match s.persistence, s.appended with
      | some p, some before =>
          match p.discardLastRecord before faults s.disk with
          | (.ok _, p', d) => ⟨some p', d, s.acked.dropLast, none⟩
          | (.error _, p', d) => ⟨some p', d, s.acked, some before⟩
      | _, _ => s
  | .compact snapshot faults =>
      match s.persistence with
      | none => s
      | some p =>
          let result := p.compact backend snapshot faults s.disk
          ⟨some result.2.1, result.2.2, s.acked, none⟩
  | .reload faults =>
      match s.persistence with
      | none => s
      | some p =>
          match DocumentPersistence.reload backend faults s.disk with
          | (.ok loaded, d) => ⟨some loaded.persistence, d, s.acked, none⟩
          | (.error _, d) => ⟨some p, d, s.acked, none⟩
  | .crash image => ⟨none, image, s.acked, none⟩
  | .loadOrCreate faults =>
      match s.persistence with
      | some _ => s
      | none =>
          match Storage.loadOrCreate backend emptyState faults s.disk with
          | (.ok loaded, d) => ⟨some loaded.persistence, d, s.acked, none⟩
          | (.error _, d) => ⟨none, d, s.acked, none⟩

variable (contains : Bytes → Bytes → Prop)

/-- The snapshot of a compaction holds what was acknowledged, and a crash keeps
what is synced. -/
def Permitted (s : Store) : Op → Prop
  | .compact snapshot _ => ∀ u ∈ s.acked, contains snapshot u
  | .crash image => Crash s.disk image
  | _ => True

/-- An append goes to the one generation a crash can come back to, and
`discard_last_record` does not fail once it has cut the segment. -/
def Sheltered (s : Store) : Op → Prop
  | .appendUpdate _ _ => ∀ p, s.persistence = some p → Settled p s.disk
  | .discardLastRecord faults =>
      faults.resize ≠ .failed → faults.resize = .synced ∧ faults.directorySynced = true
  | _ => True

/-- The states reached from a created document. -/
def Reached (allowed : Store → Op → Prop) (s : Store) : Prop :=
  ∃ snapshot loaded d, createDocument backend snapshot = .ok (loaded, d) ∧
    Relation.ReflTransGen
      (fun t t' => ∃ op, Permitted contains t op ∧ allowed t op ∧
        t' = t.step backend emptyState op)
      ⟨some loaded.persistence, d, [], none⟩ s

/-- After a crash, a load that succeeds returns all acknowledged updates. -/
def SurvivesCrash (s : Store) : Prop :=
  ∀ image faults loaded d, Crash s.disk image →
    Storage.loadOrCreate backend emptyState faults image = (.ok loaded, d) →
    HoldsAcked contains loaded.doc s.acked

/-! ## The invariant -/

/-- The last acknowledged update is the last record of the segment. -/
structure JustAppended (p : DocumentPersistence) (d : Disk) (acked : List Bytes) (before : Nat) :
    Prop where
  settled : Settled p d
  record : ∃ file updates update folded logged, acked = folded ++ (logged ++ [update]) ∧
    (d.logSlot p.generation).now = some file ∧
    file.content = encodeSegment backend (updates ++ [update]) ∧
    (∀ u ∈ updates, Encodable u) ∧ before = (encodeSegment backend updates).length ∧
    encodeSegment backend updates <+: file.kept ∧
    SnapshotHolds backend contains d p.generation folded ∧ logged.Sublist updates
  logBytes_lt : before < p.logBytes
  appendFailed_eq : p.appendFailed = false
  limit_eq : p.maxLogBytes = maxLogBytes

structure Inv (s : Store) : Prop where
  recoverable : Recoverable backend contains s.disk s.acked
  tracks : ∀ p, s.persistence = some p → Tracks backend contains p s.disk s.acked
  appended : ∀ p before, s.persistence = some p → s.appended = some before →
    JustAppended backend contains p s.disk s.acked before

variable {backend contains} {emptyState} {d d' : Disk} {acked : List Bytes}
  {p p' : DocumentPersistence}

/-! ## Appending -/

theorem Settled.modifyLog (h : Settled p d) (g : Nat) (f : File → File) :
    Settled p (d.modifyLog g f) := by
  refine ⟨h.manifest, ?_⟩
  rw [Disk.logSlot_modifyLog]
  split
  · rename_i hg
    exact hg ▸ h.log
  · exact h.log

theorem Settled.syncDirectory (h : Settled p d) : Settled p d.syncDirectory := by
  refine ⟨?_, ?_⟩
  · intro image himage
    rw [Disk.manifest_syncDirectory, Slot.images_sync, List.mem_singleton] at himage
    exact himage ▸ h.manifest _ (Slot.now_mem_images _)
  · rw [Disk.logSlot_syncDirectory]
    rfl

theorem Settled.of_generation (h : Settled p d) (hg : p'.generation = p.generation) :
    Settled p' d :=
  ⟨fun image himage => hg ▸ h.manifest image himage, hg ▸ h.log⟩

/-- The segment is written to behind the records in memory. -/
theorem Tracks.write (h : Tracks backend contains p d acked) (hfailed : p.appendFailed = true)
    (piece : Bytes) :
    Tracks backend contains p (d.modifyLog p.generation (File.append piece)) acked := by
  obtain ⟨view, hview⟩ := h
  refine ⟨{ view with file := view.file.append piece, tail := view.tail ++ piece }, { hview with
    file_eq := ?_
    content_eq := ?_
    tail_eq := ?_
    kept := ?_ }⟩
  · rw [Disk.logSlot_modifyLog, if_pos rfl]
    show (d.logSlot p.generation).now.map _ = _
    rw [hview.file_eq]
    rfl
  · show view.file.content ++ piece = _
    rw [hview.content_eq, List.append_assoc]
  · intro hfalse
    rw [hfailed] at hfalse
    cases hfalse
  · exact hview.kept.trans (File.kept_isPrefix_append piece view.file)

/-- The segment is cut back to the records in memory. -/
theorem Tracks.cut (h : Tracks backend contains p d acked) (failed : Bool) {f : File → File}
    (hf : f = File.resize p.logBytes ∨ f = fun file => (file.resize p.logBytes).sync) :
    Tracks backend contains { p with appendFailed := failed } (d.modifyLog p.generation f)
      acked := by
  obtain ⟨view, hview⟩ := h
  have hcontent : (view.file.resize p.logBytes).content = encodeSegment backend view.updates := by
    rw [hview.logBytes_eq]
    exact File.content_resize hview.content_eq
  have hkept : encodeSegment backend view.synced <+: (view.file.resize p.logBytes).kept := by
    apply File.isPrefix_kept_resize hview.kept
    rw [hview.logBytes_eq]
    obtain ⟨more, hmore⟩ := hview.synced_isPrefix
    rw [← hmore, encodeSegment_append, List.length_append]
    exact Nat.le_add_right _ _
  refine ⟨{ view with file := f view.file, tail := [] }, { hview with
    file_eq := ?_
    content_eq := ?_
    tail_eq := fun _ => rfl
    kept := ?_ }⟩
  · rw [Disk.logSlot_modifyLog, if_pos rfl]
    show (d.logSlot p.generation).now.map f = _
    rw [hview.file_eq]
    rfl
  · rw [List.append_nil]
    rcases hf with rfl | rfl
    · exact hcontent
    · exact hcontent
  · rcases hf with rfl | rfl
    · exact hkept
    · show _ <+: (view.file.resize p.logBytes).sync.kept
      rw [File.kept_sync]
      exact hkept.trans (File.kept_isPrefix_content _)

theorem Tracks.setFailed (h : Tracks backend contains p d acked) :
    Tracks backend contains { p with appendFailed := true } d acked := by
  obtain ⟨view, hview⟩ := h
  exact ⟨view, { hview with tail_eq := fun hfalse => nomatch hfalse }⟩

theorem encodeSegment_snoc (updates : List Bytes) (update : Bytes) :
    encodeSegment backend (updates ++ [update]) =
      encodeSegment backend updates ++ encodeRecord backend update := by
  rw [encodeSegment_append, encodeRecords_cons, encodeRecords_nil, List.append_nil]

theorem saturatingAdd_eq {a b : Nat} (h : a + b ≤ maxLogBytes) : saturatingAdd a b = a + b := by
  apply min_eq_left
  have : maxLogBytes ≤ u64Max := by decide
  omega

/-- What `writeRecord` may do. -/
theorem writeRecord_cases {g : Nat} {record : Bytes} {outcome : Write} {ok : Bool}
    (h : writeRecord g record outcome d = (ok, d')) :
    (ok = false ∧ (d' = d ∨ ∃ piece, d' = d.modifyLog g (File.append piece))) ∨
    (ok = true ∧ d' = d.modifyLog g fun file => (file.append record).sync) := by
  unfold writeRecord at h
  split at h
  · cases h
    exact .inl ⟨rfl, .inl rfl⟩
  · cases h
    exact .inl ⟨rfl, .inl rfl⟩
  · cases h
    exact .inl ⟨rfl, .inr ⟨_, rfl⟩⟩
  · cases h
    exact .inl ⟨rfl, .inr ⟨_, rfl⟩⟩
  · cases h
    exact .inr ⟨rfl, rfl⟩

section Append

variable {update : Bytes}

/-- A record that was written and synced. -/
theorem Tracks.append (h : Tracks backend contains p d acked) (hsettled : Settled p d)
    (hfailed : p.appendFailed = false)
    (hfits : p.logBytes + (recordHeaderBytes + update.length) ≤ p.maxLogBytes)
    (records total : Nat) :
    let p' := { p with
      logBytes := saturatingAdd p.logBytes (encodeRecord backend update).length
      records := records
      totalRecords := total }
    let d' := d.modifyLog p.generation fun file =>
      (file.append (encodeRecord backend update)).sync
    Tracks backend contains p' d' (acked ++ [update]) ∧
      JustAppended backend contains p' d' (acked ++ [update]) p.logBytes := by
  intro p' d'
  obtain ⟨view, hview⟩ := h
  have hlen : saturatingAdd p.logBytes (encodeRecord backend update).length =
      (encodeSegment backend (view.updates ++ [update])).length := by
    rw [length_encodeRecord, saturatingAdd_eq (hview.limit_eq ▸ hfits), encodeSegment_snoc,
      List.length_append, length_encodeRecord, hview.logBytes_eq]
  have henc : Encodable update := by
    have : maxLogBytes < 256 ^ 8 := by decide
    rw [hview.limit_eq] at hfits
    rw [Encodable]
    omega
  let file := (view.file.append (encodeRecord backend update)).sync
  have hfile : (d'.logSlot p.generation).now = some file := by
    show ((d.modifyLog _ _).logSlot p.generation).now = _
    rw [Disk.logSlot_modifyLog, if_pos rfl]
    show (d.logSlot p.generation).now.map _ = _
    rw [hview.file_eq]
    rfl
  have hcontent : file.content = encodeSegment backend (view.updates ++ [update]) := by
    show view.file.content ++ _ = _
    rw [hview.content_eq, hview.tail_eq hfailed, List.append_nil, encodeSegment_snoc]
  have hkept : file.kept = encodeSegment backend (view.updates ++ [update]) := by
    rw [← hcontent]
    exact File.kept_sync _
  have hlogged : view.logged.Sublist view.updates :=
    hview.logged_sublist.trans hview.synced_isPrefix.sublist
  refine ⟨⟨⟨file, view.updates ++ [update], [], view.updates ++ [update], view.folded,
    view.logged ++ [update]⟩, ?_⟩, ?_⟩
  · refine ⟨hfile, ?_, ?_, hlen, fun _ => rfl, hview.limit_eq, ?_, hview.folded_holds, ?_,
      List.prefix_rfl, ?_⟩
    · rw [hcontent, List.append_nil]
    · intro u hu
      rcases List.mem_append.mp hu with hu | hu
      · exact hview.encodable u hu
      · rw [List.mem_singleton.mp hu]
        exact henc
    · rw [hview.acked_eq, List.append_assoc]
    · exact hlogged.append (List.Sublist.refl _)
    · rw [hkept]
  · refine ⟨(hsettled.modifyLog _ _).of_generation rfl, ?_, ?_, hfailed, hview.limit_eq⟩
    · refine ⟨file, view.updates, update, view.folded, view.logged, ?_, hfile, hcontent,
        hview.encodable, hview.logBytes_eq, ?_, hview.folded_holds, hlogged⟩
      · rw [hview.acked_eq, List.append_assoc]
      · rw [hkept, encodeSegment_snoc]
        exact List.prefix_append _ _
    · show p.logBytes < saturatingAdd p.logBytes (encodeRecord backend update).length
      have hpos : 0 < recordHeaderBytes := by decide
      rw [hlen, encodeSegment_snoc, List.length_append, ← hview.logBytes_eq, length_encodeRecord]
      omega

variable (backend contains) in
/-- What an append leaves: an acknowledged record, or the state it had. -/
structure AppendSpec (update : Bytes) (acked : List Bytes) (before : Nat)
    (result : Except StorageError Unit) (p' : DocumentPersistence) (d' : Disk) : Prop where
  settled : Settled p' d'
  ok : result = .ok () → Tracks backend contains p' d' (acked ++ [update]) ∧
    JustAppended backend contains p' d' (acked ++ [update]) before
  error : ∀ error, result = .error error → Tracks backend contains p' d' acked

theorem recordLen_ok {length recordLen : Nat}
    (h : DocumentPersistence.recordLen length = .ok recordLen) :
    recordLen = recordHeaderBytes + length := by
  unfold DocumentPersistence.recordLen at h
  split at h
  · cases h
  · exact (Except.ok.inj h).symm

theorem appendRecord_spec {faults : DocumentPersistence.AppendFaults}
    {result : Except StorageError Unit} (hsettled : Settled p d)
    (htracks : Tracks backend contains p d acked) (hfailed : p.appendFailed = false)
    (h : p.appendRecord backend update faults d = (result, p', d')) :
    AppendSpec backend contains update acked p.logBytes result p' d' := by
  unfold DocumentPersistence.appendRecord at h
  cases hlen : DocumentPersistence.recordLen update.length with
  | error error =>
      rw [hlen] at h
      cases h
      exact ⟨hsettled, (fun h => nomatch h), fun _ _ => htracks⟩
  | ok recordLen =>
      rw [hlen] at h
      dsimp only at h
      split at h
      · cases h
        exact ⟨hsettled, (fun h => nomatch h), fun _ _ => htracks⟩
      rename_i hexceeds
      have hfits : p.logBytes + (recordHeaderBytes + update.length) ≤ p.maxLogBytes := by
        rw [recordLen_ok hlen] at hexceeds
        simpa [DocumentPersistence.exceeds] using hexceeds
      cases hwrite : writeRecord p.generation (encodeRecord backend update) faults.write d with
      | mk ok d₁ =>
          rw [hwrite] at h
          rcases writeRecord_cases hwrite with ⟨rfl, hpiece⟩ | ⟨rfl, rfl⟩
          · dsimp only at h
            -- the state in memory counts as failed until the piece is cut off again
            have hwritten : Settled p d₁ ∧
                Tracks backend contains { p with appendFailed := true } d₁ acked := by
              rcases hpiece with rfl | ⟨piece, rfl⟩
              · exact ⟨hsettled, htracks.setFailed⟩
              · exact ⟨hsettled.modifyLog _ _, htracks.setFailed.write rfl piece⟩
            obtain ⟨hsettled₁, htracks₁⟩ := hwritten
            cases hdiscard : p.discardPartialRecord faults.discard d₁ with
            | mk ok d₂ =>
                rw [hdiscard] at h
                rcases resizeLog_cases hdiscard with ⟨rfl, rfl⟩ | ⟨_, -, ⟨rfl, -, rfl⟩ |
                    ⟨rfl, -, rfl⟩⟩
                · cases h
                  exact ⟨hsettled₁.of_generation rfl, (fun h => nomatch h), fun _ _ => htracks₁⟩
                · cases h
                  exact ⟨(hsettled₁.modifyLog _ _).of_generation rfl, (fun h => nomatch h),
                    fun _ _ => htracks₁.cut true (.inl rfl)⟩
                · cases h
                  refine ⟨hsettled₁.modifyLog _ _, (fun h => nomatch h), fun _ _ => ?_⟩
                  have hcut := htracks₁.cut false (.inr rfl)
                  rw [← hfailed] at hcut
                  exact hcut
          · cases h
            have happend := htracks.append hsettled hfailed hfits (saturatingAdd p.records 1)
              (saturatingAdd p.totalRecords 1)
            exact ⟨happend.2.settled, fun _ => happend, fun _ h => nomatch h⟩

theorem appendUpdate_spec {faults : DocumentPersistence.AppendFaults}
    {result : Except StorageError Unit} (hsettled : Settled p d)
    (htracks : Tracks backend contains p d acked)
    (h : p.appendUpdate backend update faults d = (result, p', d')) :
    AppendSpec backend contains update acked p.logBytes result p' d' := by
  unfold DocumentPersistence.appendUpdate at h
  cases hfailed : p.appendFailed with
  | false =>
      rw [hfailed, if_neg (by decide)] at h
      exact appendRecord_spec hsettled htracks hfailed h
  | true =>
      rw [hfailed, if_pos rfl] at h
      cases hdiscard : p.discardPartialRecord faults.recover d with
      | mk ok d₁ =>
          rw [hdiscard] at h
          rcases resizeLog_cases hdiscard with ⟨rfl, rfl⟩ | ⟨_, -, ⟨rfl, -, rfl⟩ | ⟨rfl, -, rfl⟩⟩
          · cases h
            exact ⟨hsettled, (fun h => nomatch h), fun _ _ => htracks⟩
          · cases h
            refine ⟨hsettled.modifyLog _ _, (fun h => nomatch h), fun _ _ => ?_⟩
            have hcut := htracks.cut true (.inl rfl)
            rw [← hfailed] at hcut
            exact hcut
          · have hcut := htracks.cut false (.inr rfl)
            have hsettled₁ : Settled { p with appendFailed := false }
                (d.modifyLog p.generation fun file => (file.resize p.logBytes).sync) :=
              (hsettled.modifyLog _ _).of_generation rfl
            have hspec := appendRecord_spec hsettled₁ hcut rfl h
            exact hspec

end Append

/-! ## Taking an append back -/

theorem discardLastRecord_spec {before : Nat} {faults : TruncateFaults}
    {result : Except StorageError Unit} (happended : JustAppended backend contains p d acked before)
    (hsheltered : faults.resize ≠ .failed → faults.resize = .synced ∧ faults.directorySynced = true)
    (h : p.discardLastRecord before faults d = (result, p', d')) :
    (∃ error, result = .error error ∧ p' = p ∧ d' = d) ∨
      (Settled p' d' ∧ Tracks backend contains p' d' acked.dropLast ∧ result = .ok ()) := by
  obtain ⟨file, updates, update, folded, logged, hacked, hfile, hcontent, henc, hbefore, hkept,
    hfolded, hlogged⟩ := happended.record
  unfold DocumentPersistence.discardLastRecord at h
  rw [if_neg (not_le.mpr happended.logBytes_lt)] at h
  cases htruncate : truncateLog p.generation before faults d with
  | mk ok d₁ =>
      rw [htruncate] at h
      rcases truncateLog_cases htruncate with ⟨rfl, rfl⟩ |
        ⟨_, _, -, -, -, hresize, hdirectory, -⟩ | ⟨_, -, rfl, rfl⟩
      · cases h
        exact .inl ⟨_, rfl, rfl, rfl⟩
      · -- a cut that is reported as an error
        obtain ⟨hsynced, hdir⟩ := hsheltered hresize
        rw [hdirectory hsynced] at hdir
        cases hdir
      · cases h
        right
        have hcut : (file.resize before).content = encodeSegment backend updates := by
          rw [hbefore]
          apply File.content_resize
          rw [hcontent, encodeSegment_snoc]
        refine ⟨((happended.settled.modifyLog _ _).syncDirectory).of_generation rfl, ?_, rfl⟩
        refine ⟨⟨(file.resize before).sync, updates, [], updates, folded, logged⟩, ?_⟩
        refine ⟨?_, ?_, henc, hbefore, fun _ => rfl, happended.limit_eq, ?_, ?_, hlogged,
          List.prefix_rfl, ?_⟩
        · show ((Disk.syncDirectory _).logSlot p.generation).now = _
          rw [Disk.logSlot_syncDirectory, Disk.logSlot_modifyLog, if_pos rfl]
          show (d.logSlot p.generation).now.map _ = _
          rw [hfile]
          rfl
        · rw [List.append_nil]
          exact hcut
        · rw [hacked, ← List.append_assoc, List.dropLast_concat]
        · exact hfolded.mono fun _ => Disk.mem_snapshot_images_of_syncDirectory _ _
        · rw [File.kept_sync, hcut]

/-! ## Compaction -/

theorem decodeSnapshot_encodeSnapshot {snapshot decoded : Bytes}
    (h : decodeSnapshot backend (encodeSnapshot backend snapshot) = .ok decoded) :
    decoded = snapshot := by
  have hheader : (snapshotMagic ++ LittleEndian.encode 8 snapshot.length ++
      (backend.checksum snapshot).1).length = snapshotHeaderBytes := by
    rw [List.length_append, List.length_append, LittleEndian.length_encode,
      (backend.checksum snapshot).2]
    rfl
  unfold decodeSnapshot at h
  split at h
  · cases h
  dsimp only at h
  split at h
  · cases h
  split at h
  · cases h
  split at h
  · cases h
  · rw [← Except.ok.inj h, encodeSnapshot, List.drop_left' hheader]

theorem atomicWrite_cases {outcome : AtomicWrite} {put : Disk → Disk} {ok : Bool}
    (h : atomicWrite outcome put d = (ok, d')) :
    (ok = false ∧ (d' = d ∨ d' = put d)) ∨ (ok = true ∧ d' = (put d).syncDirectory) := by
  cases outcome with
  | failed =>
      cases h
      exact .inl ⟨rfl, .inl rfl⟩
  | renamed =>
      cases h
      exact .inl ⟨rfl, .inr rfl⟩
  | synced =>
      cases h
      exact .inr ⟨rfl, rfl⟩

/-- A snapshot of everything may replace any other. -/
theorem SnapshotHolds.putSnapshot {g h : Nat} {snapshot : Bytes} {folded : List Bytes}
    (hholds : SnapshotHolds backend contains d h folded)
    (hfolded : ∀ u ∈ folded, contains snapshot u) :
    SnapshotHolds backend contains (d.putSnapshot g (encodeSnapshot backend snapshot)) h
      folded := by
  intro bytes hbytes decoded hdecode
  rw [Disk.snapshotSlot_putSnapshot] at hbytes
  split at hbytes
  · rename_i hg
    rw [Slot.images_put, List.mem_cons] at hbytes
    rcases hbytes with heq | hmem
    · rw [Option.some.inj heq] at hdecode
      rw [decodeSnapshot_encodeSnapshot hdecode]
      exact hfolded
    · exact hholds bytes (hg ▸ hmem) decoded hdecode
  · exact hholds bytes hbytes decoded hdecode

theorem Recoverable.putSnapshot (hrec : Recoverable backend contains d acked) {snapshot : Bytes}
    (hacked : ∀ u ∈ acked, contains snapshot u) (g : Nat) :
    Recoverable backend contains (d.putSnapshot g (encodeSnapshot backend snapshot)) acked := by
  intro image himage
  obtain ⟨manifest, hmanifest, folded, logged, heq, hfolded, hlogged⟩ := hrec image himage
  refine ⟨manifest, hmanifest, folded, logged, heq, hfolded.putSnapshot ?_, hlogged⟩
  exact fun u hu => hacked u (heq ▸ List.mem_append_left _ hu)

/-- Once the directory is synced, the new snapshot is the only one. -/
theorem snapshotHolds_synced {snapshot : Bytes} (hacked : ∀ u ∈ acked, contains snapshot u)
    (g : Nat) :
    SnapshotHolds backend contains
      (d.putSnapshot g (encodeSnapshot backend snapshot)).syncDirectory g acked := by
  intro bytes hbytes decoded hdecode
  rw [Disk.snapshotSlot_syncDirectory, Slot.images_sync, List.mem_singleton,
    Disk.snapshotSlot_putSnapshot, if_pos rfl] at hbytes
  rw [Option.some.inj hbytes] at hdecode
  rw [decodeSnapshot_encodeSnapshot hdecode]
  exact hacked

theorem FileHolds.nil_of_magic {file : File} (h : logMagic <+: file.kept) :
    FileHolds backend file [] :=
  ⟨[], by simp, List.Sublist.refl _, by simpa [encodeSegment] using h⟩

theorem FileHolds.magic {file : File} {logged : List Bytes} (h : FileHolds backend file logged) :
    logMagic <+: file.kept := by
  obtain ⟨updates, -, -, hpre⟩ := h
  exact (List.prefix_append _ _).trans hpre

/-- A fresh segment may replace any other, when the snapshot holds everything. -/
theorem Recoverable.putLog {g : Nat} (hrec : Recoverable backend contains d acked)
    (hsnapshot : SnapshotHolds backend contains d g acked) :
    Recoverable backend contains (d.putLog g logMagic) acked := by
  intro image himage
  obtain ⟨manifest, hmanifest, folded, logged, heq, hfolded, hlogged⟩ := hrec image himage
  refine ⟨manifest, hmanifest, ?_⟩
  by_cases hg : g = manifest.generation
  · refine ⟨acked, [], (List.append_nil _).symm, hg ▸ hsnapshot, ?_⟩
    intro file hfile
    apply FileHolds.nil_of_magic
    rw [Disk.logSlot_putLog, if_pos hg, Slot.images_put, List.mem_cons] at hfile
    rcases hfile with hnew | hold
    · rw [Option.some.inj hnew, File.kept_ofBytes]
    · exact (hlogged file (hg ▸ hold)).magic
  · refine ⟨folded, logged, heq, hfolded, ?_⟩
    intro file hfile
    rw [Disk.logSlot_putLog, if_neg hg] at hfile
    exact hlogged file hfile

/-- The new generation, once its files are on disk. -/
theorem generationHolds_fresh {g : Nat} (hsnapshot : SnapshotHolds backend contains d g acked) :
    GenerationHolds backend contains (d.putLog g logMagic).syncDirectory g acked := by
  refine ⟨acked, [], (List.append_nil _).symm, ?_, ?_⟩
  · exact hsnapshot.mono fun _ => Disk.mem_snapshot_images_of_syncDirectory _ _
  · intro file hfile
    apply FileHolds.nil_of_magic
    rw [Disk.logSlot_syncDirectory, Disk.logSlot_putLog, if_pos rfl, Slot.images_sync,
      List.mem_singleton] at hfile
    rw [Option.some.inj hfile, File.kept_ofBytes]

theorem Recoverable.putManifest {manifest : Manifest} (hrec : Recoverable backend contains d acked)
    (hholds : GenerationHolds backend contains d manifest.generation acked) :
    Recoverable backend contains (d.putManifest manifest) acked := by
  intro image himage
  rcases List.mem_cons.mp himage with rfl | hold
  · exact ⟨manifest, rfl, hholds⟩
  · exact hrec image hold

/-- The state a compaction leaves in memory. -/
theorem tracks_fresh {g : Nat} (hg : p'.generation = g) (hbytes : p'.logBytes = logMagic.length)
    (hlimit : p'.maxLogBytes = maxLogBytes)
    (hlog : (d.logSlot g).now = some (.ofBytes logMagic))
    (hsnapshot : SnapshotHolds backend contains d g acked) :
    Tracks backend contains p' d acked := by
  have hempty : encodeSegment backend [] = logMagic := by simp [encodeSegment]
  refine ⟨⟨.ofBytes logMagic, [], [], [], acked, []⟩, ⟨hg ▸ hlog, ?_, by simp, ?_, fun _ => rfl,
    hlimit, (List.append_nil _).symm, hg ▸ hsnapshot, List.Sublist.refl _, List.prefix_rfl, ?_⟩⟩
  · rw [hempty, List.append_nil]
    rfl
  · rw [hempty]
    exact hbytes
  · rw [hempty, File.kept_ofBytes]

theorem compact_spec {snapshot : Bytes} {faults : CompactFaults} {result : Except StorageError Unit}
    (hrec : Recoverable backend contains d acked) (htracks : Tracks backend contains p d acked)
    (hacked : ∀ u ∈ acked, contains snapshot u)
    (h : p.compact backend snapshot faults d = (result, p', d')) :
    Recoverable backend contains d' acked ∧ Tracks backend contains p' d' acked := by
  unfold DocumentPersistence.compact at h
  split at h
  · cases h
    exact ⟨hrec, htracks⟩
  split at h
  · cases h
    exact ⟨hrec, htracks⟩
  dsimp only at h
  have hne : p.generation + 1 ≠ p.generation := by omega
  -- the snapshot of the next generation
  cases hsnapshot : atomicWrite faults.snapshot
    (Disk.putSnapshot (p.generation + 1) (encodeSnapshot backend snapshot)) d with
  | mk ok d₁ =>
  rw [hsnapshot] at h
  have htracks₀ : Tracks backend contains p
      (d.putSnapshot (p.generation + 1) (encodeSnapshot backend snapshot)) acked := by
    apply htracks.of_slots
    · intro bytes hbytes
      rwa [Disk.snapshotSlot_putSnapshot, if_neg hne] at hbytes
    · rfl
  rcases atomicWrite_cases hsnapshot with ⟨rfl, rfl | rfl⟩ | ⟨rfl, hd₁⟩
  · cases h
    exact ⟨hrec, htracks⟩
  · cases h
    exact ⟨hrec.putSnapshot hacked _, htracks₀⟩
  have hrec₁ : Recoverable backend contains d₁ acked := by
    rw [hd₁]
    exact (hrec.putSnapshot hacked _).syncDirectory
  have htracks₁ : Tracks backend contains p d₁ acked := by
    rw [hd₁]
    exact htracks₀.syncDirectory
  have hholds₁ : SnapshotHolds backend contains d₁ (p.generation + 1) acked := by
    rw [hd₁]
    exact snapshotHolds_synced hacked _
  -- its segment
  dsimp only at h
  cases hlog : atomicWrite faults.log (Disk.putLog (p.generation + 1) logMagic) d₁ with
  | mk ok d₂ =>
  rw [hlog] at h
  have htracks₁' : Tracks backend contains p (d₁.putLog (p.generation + 1) logMagic) acked := by
    apply htracks₁.of_slots
    · exact fun _ hbytes => hbytes
    · rw [Disk.logSlot_putLog, if_neg hne]
  rcases atomicWrite_cases hlog with ⟨rfl, rfl | rfl⟩ | ⟨rfl, hd₂⟩
  · cases h
    exact ⟨hrec₁, htracks₁⟩
  · cases h
    exact ⟨hrec₁.putLog hholds₁, htracks₁'⟩
  have hrec₂ : Recoverable backend contains d₂ acked := by
    rw [hd₂]
    exact (hrec₁.putLog hholds₁).syncDirectory
  have hholds₂ : GenerationHolds backend contains d₂ (p.generation + 1) acked := by
    rw [hd₂]
    exact generationHolds_fresh hholds₁
  -- the manifest, which makes it the generation of the document
  dsimp only at h
  cases hmanifest : atomicWrite faults.manifest
    (Disk.putManifest (.new (p.generation + 1) p.totalRecords)) d₂ with
  | mk ok d₃ =>
  rw [hmanifest] at h
  have hrec₂' : Recoverable backend contains
      (d₂.putManifest (.new (p.generation + 1) p.totalRecords)) acked :=
    hrec₂.putManifest hholds₂
  have htracks₂ : Tracks backend contains p d₂ acked := by
    rw [hd₂]
    exact htracks₁'.syncDirectory
  rcases atomicWrite_cases hmanifest with ⟨rfl, rfl | rfl⟩ | ⟨rfl, hd₃⟩
  · cases h
    exact ⟨hrec₂, htracks₂⟩
  · cases h
    exact ⟨hrec₂', htracks₂.of_slots (fun _ hbytes => hbytes) rfl⟩
  · cases h
    refine ⟨(hd₃ ▸ hrec₂'.syncDirectory).removeOldGenerations _ _, ?_⟩
    apply Tracks.removeOldGenerations
    obtain ⟨view, hview⟩ := htracks
    have hlimit := hview.limit_eq
    refine tracks_fresh rfl rfl ?_ ?_ ?_
    · exact hlimit
    · rw [hd₃, Disk.logSlot_syncDirectory, Disk.logSlot_putManifest, hd₂,
        Disk.logSlot_syncDirectory, Disk.logSlot_putLog, if_pos rfl]
      rfl
    · have hholds₂' : SnapshotHolds backend contains d₂ (p.generation + 1) acked := by
        rw [hd₂]
        exact hholds₁.mono fun _ => Disk.mem_snapshot_images_of_syncDirectory _ _
      rw [hd₃]
      exact hholds₂'.mono fun _ => Disk.mem_snapshot_images_of_syncDirectory _ _

/-! ## Every run -/

theorem Inv.created {snapshot : Bytes} {loaded : Loaded}
    (h : createDocument backend snapshot = .ok (loaded, d)) :
    Inv backend contains ⟨some loaded.persistence, d, [], none⟩ := by
  unfold createDocument at h
  split at h
  · cases h
  cases h
  have hsnapshot : SnapshotHolds backend contains (freshDisk backend snapshot) 0 [] := by
    intro bytes _ _ _ u hu
    cases hu
  have htracks : Tracks backend contains freshPersistence (freshDisk backend snapshot) [] :=
    tracks_fresh rfl rfl rfl rfl hsnapshot
  refine ⟨?_, ?_, ?_⟩
  · apply Recoverable.of_settled _ htracks
    refine ⟨?_, rfl⟩
    intro image himage
    exact ⟨.new 0 0, List.mem_singleton.mp himage, rfl⟩
  · intro p hp
    cases hp
    exact htracks
  · intro _ _ _ h
    cases h

theorem Inv.manifest_ne_none {s : Store} (h : Inv backend contains s) :
    s.disk.manifest.now ≠ none := by
  obtain ⟨manifest, heq, -⟩ := h.recoverable _ (Slot.now_mem_images _)
  rw [heq]
  exact Option.some_ne_none _

theorem loadOrCreate_eq {faults : LoadFaults} (h : d.manifest.now ≠ none) :
    Storage.loadOrCreate backend emptyState faults d =
      loadExisting backend .recoverInterruptedAppend faults d := by
  unfold Storage.loadOrCreate
  cases hnow : d.manifest.now with
  | none => exact absurd hnow h
  | some _ => rfl

/-- A state that has just appended nothing. -/
theorem Inv.of_tracks (hrec : Recoverable backend contains d acked)
    (htracks : Tracks backend contains p d acked) :
    Inv backend contains ⟨some p, d, acked, none⟩ :=
  ⟨hrec, fun _ hp => Option.some.inj hp ▸ htracks, fun _ _ _ h => nomatch h⟩

theorem Inv.step {s : Store} {op : Op} (h : Inv backend contains s)
    (hpermitted : Permitted contains s op) (hsheltered : Sheltered s op) :
    Inv backend contains (s.step backend emptyState op) := by
  cases op with
  | appendUpdate update faults =>
      cases hp : s.persistence with
      | none => simpa [Store.step, hp] using h
      | some p =>
          have hsettled := hsheltered p hp
          simp only [Store.step, hp]
          cases happend : p.appendUpdate backend update faults s.disk with
          | mk result rest =>
              obtain ⟨p', d'⟩ := rest
              -- an append behind a failed one cuts its record off first
              have hspec := appendUpdate_spec hsettled (h.tracks p hp) happend
              cases result with
              | ok u =>
                  obtain ⟨htracks, happended⟩ := hspec.ok rfl
                  refine ⟨.of_settled hspec.settled htracks, ?_, ?_⟩
                  · exact fun _ hp' => Option.some.inj hp' ▸ htracks
                  · intro _ _ hp' hbefore
                    rw [← Option.some.inj hp', ← Option.some.inj hbefore]
                    exact happended
              | error error =>
                  have htracks := hspec.error error rfl
                  exact .of_tracks (.of_settled hspec.settled htracks) htracks
  | discardLastRecord faults =>
      cases hp : s.persistence with
      | none => simpa [Store.step, hp] using h
      | some p =>
          cases hbefore : s.appended with
          | none => simpa [Store.step, hp, hbefore] using h
          | some before =>
              have happended := h.appended p before hp hbefore
              simp only [Store.step, hp, hbefore]
              cases hdiscard : p.discardLastRecord before faults s.disk with
              | mk result rest =>
                  obtain ⟨p', d'⟩ := rest
                  rcases discardLastRecord_spec happended hsheltered hdiscard with
                    ⟨error, rfl, rfl, rfl⟩ | ⟨hsettled, htracks, rfl⟩
                  · exact ⟨h.recoverable, fun _ hp' => Option.some.inj hp' ▸ h.tracks p' hp,
                      fun _ _ hp' hb => by
                        rw [← Option.some.inj hp', ← Option.some.inj hb]
                        exact happended⟩
                  · exact .of_tracks (.of_settled hsettled htracks) htracks
  | compact snapshot faults =>
      cases hp : s.persistence with
      | none => simpa [Store.step, hp] using h
      | some p =>
          simp only [Store.step, hp]
          -- old or new generation, whichever the manifest names
          obtain ⟨hrec, htracks⟩ := compact_spec h.recoverable (h.tracks p hp) hpermitted
            (rfl : p.compact backend snapshot faults s.disk = (_, _, _))
          exact .of_tracks hrec htracks
  | reload faults =>
      cases hp : s.persistence with
      | none => simpa [Store.step, hp] using h
      | some p =>
          simp only [Store.step, hp, DocumentPersistence.reload]
          cases hload : loadExisting backend .recoverInterruptedAppend faults s.disk with
          | mk result d' =>
              obtain ⟨hrec, hok, herror⟩ := loadExisting_spec h.recoverable hload
              cases result with
              | ok loaded => exact .of_tracks hrec (hok loaded rfl).1
              | error error => exact .of_tracks hrec (herror error rfl p (h.tracks p hp))
  | crash image =>
      exact ⟨h.recoverable.crash hpermitted, (fun _ hp => nomatch hp), fun _ _ hp => nomatch hp⟩
  | loadOrCreate faults =>
      cases hp : s.persistence with
      | some p => simpa [Store.step, hp] using h
      | none =>
          simp only [Store.step, hp, loadOrCreate_eq h.manifest_ne_none]
          cases hload : loadExisting backend .recoverInterruptedAppend faults s.disk with
          | mk result d' =>
              obtain ⟨hrec, hok, -⟩ := loadExisting_spec h.recoverable hload
              cases result with
              | ok loaded => exact .of_tracks hrec (hok loaded rfl).1
              | error error =>
                  exact ⟨hrec, (fun _ hp => nomatch hp), fun _ _ hp => nomatch hp⟩

theorem Inv.of_reached {s : Store}
    (h : Reached backend emptyState contains Sheltered s) : Inv backend contains s := by
  obtain ⟨snapshot, loaded, d, hcreate, hrun⟩ := h
  induction hrun with
  | refl => exact .created hcreate
  | tail _ hstep ih =>
      obtain ⟨op, hpermitted, hsheltered, rfl⟩ := hstep
      exact ih.step hpermitted hsheltered

/-- In every run whose steps are sheltered, acknowledged updates survive. -/
theorem acked_updates_survive (backend : Backend) (emptyState : Bytes)
    (contains : Bytes → Bytes → Prop) (s : Store)
    (h : Reached backend emptyState contains Sheltered s) :
    SurvivesCrash backend emptyState contains s := by
  intro image faults loaded d hcrash hload
  have hinv := Inv.of_reached h
  have hrec := hinv.recoverable.crash hcrash
  have hnow : image.manifest.now ≠ none := by
    obtain ⟨manifest, heq, -⟩ := hrec _ (Slot.now_mem_images _)
    rw [heq]
    exact Option.some_ne_none _
  rw [loadOrCreate_eq hnow] at hload
  exact ((loadExisting_spec hrec hload).2.1 loaded rfl).2

/-- The update that inserts `a` into the text `t`, and the empty one. -/
def sampleUpdate : Bytes := [1, 1, 1, 0, 4, 1, 1, 116, 1, 97, 0]

def emptyUpdate : Bytes := [0, 0]

/-- SHA-256 of the two, and a Yjs that takes them. -/
def sampleBackend : Backend where
  checksum bytes :=
    if bytes = sampleUpdate then
      ⟨[54, 158, 156, 108, 209, 79, 218, 136, 25, 96, 47, 51, 152, 239, 236, 180, 24, 215, 154, 229,
        152, 154, 125, 121, 111, 122, 201, 191, 147, 247, 48, 218], rfl⟩
    else if bytes = emptyUpdate then
      ⟨[150, 162, 150, 210, 36, 242, 133, 198, 123, 238, 147, 195, 15, 138, 48, 145, 87, 240, 218,
        163, 93, 197, 184, 126, 65, 11, 120, 99, 10, 9, 207, 199], rfl⟩
    else ⟨List.replicate 32 0, rfl⟩
  validUpdate bytes := bytes = sampleUpdate ∨ bytes = emptyUpdate
  integrates _ _ := true

def allRemovals : Removals := ⟨fun _ => true, fun _ => true⟩

def sampleStore : Store := ⟨some freshPersistence, freshDisk sampleBackend emptyUpdate, [], none⟩

def sampleStep (s : Store) (op : Op) : Store := s.step sampleBackend emptyUpdate op

/-- A torn append, one that cuts it off and is acknowledged, and a compaction. -/
theorem acked_updates_survive_torn_append :
    let torn := Op.appendUpdate sampleUpdate ⟨.failed, .partly 5, .failed⟩
    let again := Op.appendUpdate sampleUpdate ⟨.synced, .synced, .failed⟩
    let compact := Op.compact sampleUpdate ⟨.synced, .synced, .synced, allRemovals⟩
    let s := sampleStep (sampleStep (sampleStep sampleStore torn) again) compact
    s.acked = [sampleUpdate] ∧ SurvivesCrash sampleBackend emptyUpdate Eq s := by
  intro torn again compact s
  have htorn : Sheltered sampleStore torn := by
    intro p hp
    obtain rfl := Option.some.inj hp
    exact ⟨fun image himage => ⟨_, List.mem_singleton.mp himage, rfl⟩, rfl⟩
  have hagain : Sheltered (sampleStep sampleStore torn) again := by
    intro p hp
    have hp' : (sampleStep sampleStore torn).persistence =
        some { freshPersistence with appendFailed := true } := rfl
    obtain rfl := Option.some.inj (hp'.symm.trans hp)
    exact ⟨fun image himage => ⟨_, List.mem_singleton.mp himage, rfl⟩, rfl⟩
  have hcompact : Permitted Eq (sampleStep (sampleStep sampleStore torn) again) compact := by
    intro u hu
    exact (List.mem_singleton.mp (hu : u ∈ [sampleUpdate])).symm
  refine ⟨rfl, acked_updates_survive _ _ _ _ ?_⟩
  refine ⟨emptyUpdate, ⟨⟨emptyUpdate, []⟩, freshPersistence⟩,
    freshDisk sampleBackend emptyUpdate, rfl, ?_⟩
  refine .tail (.tail (.tail .refl ⟨torn, trivial, htorn, rfl⟩) ⟨again, trivial, hagain, rfl⟩) ?_
  exact ⟨compact, hcompact, trivial, rfl⟩

/-- A crash of the process alone, which loses nothing that was written. -/
def flushed (d : Disk) : Disk :=
  { d.syncDirectory with logs := d.logs.map fun e => (e.1, ⟨e.2.now.map File.sync, []⟩) }

theorem crash_flushed (d : Disk) : Crash d (flushed d) := by
  have hrefl : ∀ {α : Type} (image : Option α), Option.Rel Eq image image := by
    intro α image
    cases image with
    | none => exact .none
    | some v => exact .some rfl
  refine ⟨⟨rfl, _, Slot.now_mem_images _, hrefl _⟩, ?_, ?_⟩
  · intro g
    rw [show (flushed d).snapshotSlot g = d.syncDirectory.snapshotSlot g from rfl,
      Disk.snapshotSlot_syncDirectory]
    exact ⟨rfl, _, Slot.now_mem_images _, hrefl _⟩
  · intro g
    have hslot : (flushed d).logSlot g = ⟨(d.logSlot g).now.map File.sync, []⟩ := by
      unfold Disk.logSlot flushed
      dsimp only
      rw [Assoc.get_mapValues fun slot : Slot File => (⟨slot.now.map File.sync, []⟩ : Slot File)]
      cases Assoc.get g d.logs <;> rfl
    rw [hslot]
    refine ⟨rfl, _, Slot.now_mem_images _, ?_⟩
    cases (d.logSlot g).now with
    | none => exact .none
    | some file => exact .some ⟨File.kept_isPrefix_content file, rfl⟩

def noFaults : LoadFaults where
  readManifest := true
  recoverManifest := ⟨true, fun _ => ⟨true, true, ⟨.synced, true⟩⟩, .synced⟩
  generation := ⟨true, true, ⟨.synced, true⟩⟩
  recoverGeneration := ⟨true, fun _ => ⟨true, true, ⟨.synced, true⟩⟩, .synced⟩
  recovered := ⟨true, true, ⟨.synced, true⟩⟩
  removals := allRemovals

/-- A compaction fails behind the rename of its manifest, and the next append goes
to the old generation: the process crashes, and its update is gone. -/
theorem not_acked_updates_survive_renamed_manifest :
    ¬∀ (backend : Backend) (emptyState : Bytes) (contains : Bytes → Bytes → Prop) (s : Store),
      Reached backend emptyState contains (fun _ _ => True) s →
      SurvivesCrash backend emptyState contains s := by
  intro h
  let compact := Op.compact emptyUpdate ⟨.synced, .synced, .renamed, allRemovals⟩
  let append := Op.appendUpdate sampleUpdate ⟨.failed, .synced, .failed⟩
  let s := sampleStep (sampleStep sampleStore compact) append
  have hreached : Reached sampleBackend emptyUpdate Eq (fun _ _ => True) s := by
    refine ⟨emptyUpdate, ⟨⟨emptyUpdate, []⟩, freshPersistence⟩,
      freshDisk sampleBackend emptyUpdate, rfl, ?_⟩
    have hcompact : Permitted Eq sampleStore compact := by
      intro u hu
      cases hu
    exact .tail (.tail .refl ⟨compact, hcompact, trivial, rfl⟩) ⟨append, trivial, trivial, rfl⟩
  -- the load finds generation 1, whose segment is empty
  have hnow : (flushed s.disk).manifest.now = some (.parsed (.new 1 0)) := rfl
  have hmanifest : readManifest noFaults.readManifest (flushed s.disk) = .ok (.new 1 0) := rfl
  have hsnapshot : loadSnapshot sampleBackend (.new 1 0) noFaults.generation (flushed s.disk) =
      .ok ⟨emptyUpdate, []⟩ := rfl
  have hlog : (flushed s.disk).read (.log 1) = some logMagic := rfl
  have hgeneration : loadGeneration sampleBackend .recoverInterruptedAppend (.new 1 0)
      noFaults.generation (flushed s.disk) =
      (.ok (loadedFrom (.new 1 0) ⟨⟨emptyUpdate, []⟩, logMagic.length, 0, false⟩),
        flushed s.disk) := by
    unfold loadGeneration replayFile
    rw [hsnapshot]
    simp only [noFaults, if_true, Manifest.new, hlog, replayLog_logMagic]
    rfl
  have hload : Storage.loadOrCreate sampleBackend emptyUpdate noFaults (flushed s.disk) =
      (.ok (loadedFrom (.new 1 0) ⟨⟨emptyUpdate, []⟩, logMagic.length, 0, false⟩),
        removeOldGenerations 1 allRemovals (flushed s.disk)) := by
    rw [loadOrCreate_eq (by rw [hnow]; exact Option.some_ne_none _)]
    unfold loadExisting findManifest loadManifest
    rw [hmanifest]
    dsimp only
    rw [hgeneration]
    rfl
  obtain ⟨folded, logged, hacked, hfolded, hlogged⟩ :=
    h sampleBackend emptyUpdate Eq s hreached _ _ _ _ (crash_flushed s.disk) hload
  have hnil : logged = [] := List.sublist_nil.mp hlogged
  rw [hnil, List.append_nil] at hacked
  have hmem : sampleUpdate ∈ folded := by
    rw [← hacked]
    exact List.mem_singleton_self _
  exact absurd (hfolded sampleUpdate hmem) (by decide)

end Realtime.Storage
