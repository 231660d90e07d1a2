import Realtime.Storage.Persistence

/-!
# Recovery

What a load finds after a crash. A generation holds the acknowledged updates when
each of them is in its snapshot or, as a record in the part of its segment that
is synced, in its log. A load in the mode the server uses keeps that, cuts no
such record, and returns a document built from all of them.
-/

namespace Realtime.Storage

open Lib Lib.Durable

/-! ## Slots of the directory -/

namespace Disk

variable (d : Disk) (g h : Nat)

theorem snapshotSlot_putSnapshot (bytes : Bytes) :
    (d.putSnapshot g bytes).snapshotSlot h =
      if g = h then (d.snapshotSlot g).put bytes else d.snapshotSlot h := by
  unfold snapshotSlot putSnapshot
  rw [Assoc.get_set]
  split <;> rfl

@[simp] theorem logSlot_putSnapshot (bytes : Bytes) :
    (d.putSnapshot g bytes).logSlot h = d.logSlot h := rfl

@[simp] theorem manifest_putSnapshot (bytes : Bytes) :
    (d.putSnapshot g bytes).manifest = d.manifest := rfl

theorem logSlot_putLog (bytes : Bytes) :
    (d.putLog g bytes).logSlot h =
      if g = h then (d.logSlot g).put (.ofBytes bytes) else d.logSlot h := by
  unfold logSlot putLog
  rw [Assoc.get_set]
  split <;> rfl

@[simp] theorem snapshotSlot_putLog (bytes : Bytes) :
    (d.putLog g bytes).snapshotSlot h = d.snapshotSlot h := rfl

@[simp] theorem manifest_putLog (bytes : Bytes) : (d.putLog g bytes).manifest = d.manifest := rfl

theorem logSlot_modifyLog (f : File → File) :
    (d.modifyLog g f).logSlot h = if g = h then (d.logSlot g).modify f else d.logSlot h := by
  unfold logSlot modifyLog
  rw [Assoc.get_set]
  split <;> rfl

@[simp] theorem snapshotSlot_modifyLog (f : File → File) :
    (d.modifyLog g f).snapshotSlot h = d.snapshotSlot h := rfl

@[simp] theorem manifest_modifyLog (f : File → File) :
    (d.modifyLog g f).manifest = d.manifest := rfl

@[simp] theorem snapshotSlot_putManifest (manifest : Manifest) :
    (d.putManifest manifest).snapshotSlot g = d.snapshotSlot g := rfl

@[simp] theorem logSlot_putManifest (manifest : Manifest) :
    (d.putManifest manifest).logSlot g = d.logSlot g := rfl

@[simp] theorem manifest_syncDirectory : d.syncDirectory.manifest = d.manifest.sync := rfl

@[simp] theorem snapshotSlot_syncDirectory :
    d.syncDirectory.snapshotSlot g = (d.snapshotSlot g).sync := by
  unfold snapshotSlot syncDirectory
  rw [Assoc.get_mapValues]
  cases Assoc.get g d.snapshots <;> rfl

@[simp] theorem logSlot_syncDirectory : d.syncDirectory.logSlot g = (d.logSlot g).sync := by
  unfold logSlot syncDirectory
  rw [Assoc.get_mapValues]
  cases Assoc.get g d.logs <;> rfl

/-- Syncing the directory leaves fewer images of a file. -/
theorem mem_snapshot_images_of_syncDirectory {bytes : Bytes}
    (hbytes : some bytes ∈ (d.syncDirectory.snapshotSlot g).images) :
    some bytes ∈ (d.snapshotSlot g).images := by
  rw [snapshotSlot_syncDirectory, Slot.images_sync, List.mem_singleton] at hbytes
  rw [hbytes]
  exact Slot.now_mem_images _

/-- A removal leaves a slot as it is, or removes the file of an old generation. -/
theorem snapshotSlot_removeOldGenerations (active : Nat) (removals : Removals) :
    (removeOldGenerations active removals d).snapshotSlot g = d.snapshotSlot g ∨
      g < active ∧
        (removeOldGenerations active removals d).snapshotSlot g = (d.snapshotSlot g).remove := by
  unfold snapshotSlot removeOldGenerations
  dsimp only
  rw [Assoc.get_mapEntries fun generation (slot : Slot Bytes) =>
    if generation < active ∧ removals.snapshots generation then slot.remove else slot]
  cases Assoc.get g d.snapshots with
  | none => exact .inl rfl
  | some slot =>
      by_cases h : g < active ∧ removals.snapshots g
      · exact .inr ⟨h.1, by simp [h]⟩
      · exact .inl (by simp [h])

theorem logSlot_removeOldGenerations (active : Nat) (removals : Removals) :
    (removeOldGenerations active removals d).logSlot g = d.logSlot g ∨
      g < active ∧ (removeOldGenerations active removals d).logSlot g = (d.logSlot g).remove := by
  unfold logSlot removeOldGenerations
  dsimp only
  rw [Assoc.get_mapEntries fun generation (slot : Slot File) =>
    if generation < active ∧ removals.logs generation then slot.remove else slot]
  cases Assoc.get g d.logs with
  | none => exact .inl rfl
  | some slot =>
      by_cases h : g < active ∧ removals.logs g
      · exact .inr ⟨h.1, by simp [h]⟩
      · exact .inl (by simp [h])

@[simp] theorem manifest_removeOldGenerations (active : Nat) (removals : Removals) :
    (removeOldGenerations active removals d).manifest = d.manifest := rfl

end Disk

/-! ## What a generation holds -/

variable (backend : Backend) (contains : Bytes → Bytes → Prop)

/-- The loaded document was built from all of these updates: the earlier ones are
in its snapshot, the later ones were applied to it in this order. -/
def HoldsAcked (doc : Doc) (acked : List Bytes) : Prop :=
  ∃ folded logged, acked = folded ++ logged ∧ (∀ u ∈ folded, contains doc.snapshot u) ∧
    logged.Sublist doc.updates

/-- Whatever a crash makes of the snapshot holds the updates. -/
def SnapshotHolds (d : Disk) (g : Nat) (folded : List Bytes) : Prop :=
  ∀ bytes, some bytes ∈ (d.snapshotSlot g).images → ∀ snapshot,
    decodeSnapshot backend bytes = .ok snapshot → ∀ u ∈ folded, contains snapshot u

/-- The file has the records of the updates where no crash reaches them. -/
def FileHolds (file : File) (logged : List Bytes) : Prop :=
  ∃ updates, (∀ u ∈ updates, Encodable u) ∧ logged.Sublist updates ∧
    encodeSegment backend updates <+: file.kept

def LogHolds (d : Disk) (g : Nat) (logged : List Bytes) : Prop :=
  ∀ file, some file ∈ (d.logSlot g).images → FileHolds backend file logged

def GenerationHolds (d : Disk) (g : Nat) (acked : List Bytes) : Prop :=
  ∃ folded logged, acked = folded ++ logged ∧ SnapshotHolds backend contains d g folded ∧
    LogHolds backend d g logged

/-- Every manifest a crash may leave names a generation that holds the updates. -/
def Recoverable (d : Disk) (acked : List Bytes) : Prop :=
  ∀ image ∈ d.manifest.images, ∃ manifest, image = some (.parsed manifest) ∧
    GenerationHolds backend contains d manifest.generation acked

/-- What a crash may leave of the directory. -/
structure Crash (d d' : Disk) : Prop where
  manifest : d.manifest.Survives Eq d'.manifest
  snapshots : ∀ g, (d.snapshotSlot g).Survives Eq (d'.snapshotSlot g)
  logs : ∀ g, (d.logSlot g).Survives File.Survives (d'.logSlot g)

variable {backend contains} {d d' : Disk} {g : Nat} {acked folded logged : List Bytes}

theorem FileHolds.mono {file file' : File} (h : FileHolds backend file logged)
    (hkept : file.kept <+: file'.kept) : FileHolds backend file' logged := by
  obtain ⟨updates, henc, hsub, hpre⟩ := h
  exact ⟨updates, henc, hsub, hpre.trans hkept⟩

/-- Fewer images, or images that keep as much, hold as much. -/
theorem LogHolds.mono (h : LogHolds backend d g logged)
    (himages : ∀ file', some file' ∈ (d'.logSlot g).images → ∃ file,
      some file ∈ (d.logSlot g).images ∧ file.kept <+: file'.kept) :
    LogHolds backend d' g logged := by
  intro file' hfile'
  obtain ⟨file, hfile, hkept⟩ := himages file' hfile'
  exact (h file hfile).mono hkept

theorem SnapshotHolds.mono (h : SnapshotHolds backend contains d g folded)
    (himages : ∀ bytes, some bytes ∈ (d'.snapshotSlot g).images →
      some bytes ∈ (d.snapshotSlot g).images) : SnapshotHolds backend contains d' g folded :=
  fun bytes hbytes => h bytes (himages bytes hbytes)

/-- A generation whose files are as they were. -/
theorem GenerationHolds.of_slots (h : GenerationHolds backend contains d g acked)
    (hsnapshot : ∀ bytes, some bytes ∈ (d'.snapshotSlot g).images →
      some bytes ∈ (d.snapshotSlot g).images)
    (hlog : ∀ file', some file' ∈ (d'.logSlot g).images → ∃ file,
      some file ∈ (d.logSlot g).images ∧ file.kept <+: file'.kept) :
    GenerationHolds backend contains d' g acked := by
  obtain ⟨folded, logged, hacked, hfolded, hlogged⟩ := h
  exact ⟨folded, logged, hacked, hfolded.mono hsnapshot, hlogged.mono hlog⟩

theorem GenerationHolds.syncDirectory (h : GenerationHolds backend contains d g acked) :
    GenerationHolds backend contains d.syncDirectory g acked := by
  apply h.of_slots
  · exact fun _ => d.mem_snapshot_images_of_syncDirectory g
  · intro file hfile
    rw [Disk.logSlot_syncDirectory, Slot.images_sync, List.mem_singleton] at hfile
    refine ⟨file, ?_, List.prefix_rfl⟩
    rw [hfile]
    exact Slot.now_mem_images _

theorem Recoverable.syncDirectory (h : Recoverable backend contains d acked) :
    Recoverable backend contains d.syncDirectory acked := by
  intro image himage
  rw [Disk.manifest_syncDirectory, Slot.images_sync, List.mem_singleton] at himage
  obtain ⟨manifest, hmanifest, hholds⟩ := h _ (Slot.now_mem_images d.manifest)
  exact ⟨manifest, himage.trans hmanifest, hholds.syncDirectory⟩

theorem GenerationHolds.removeOldGenerations (h : GenerationHolds backend contains d g acked)
    (active : Nat) (removals : Removals) :
    GenerationHolds backend contains (removeOldGenerations active removals d) g acked := by
  apply h.of_slots
  · intro bytes hbytes
    rcases d.snapshotSlot_removeOldGenerations g active removals with heq | ⟨-, heq⟩
    · rwa [heq] at hbytes
    · rw [heq, Slot.images_remove] at hbytes
      simpa using hbytes
  · intro file hfile
    refine ⟨file, ?_, List.prefix_rfl⟩
    rcases d.logSlot_removeOldGenerations g active removals with heq | ⟨-, heq⟩
    · rwa [heq] at hfile
    · rw [heq, Slot.images_remove] at hfile
      simpa using hfile

theorem Recoverable.removeOldGenerations (h : Recoverable backend contains d acked)
    (active : Nat) (removals : Removals) :
    Recoverable backend contains (removeOldGenerations active removals d) acked := by
  intro image himage
  obtain ⟨manifest, hmanifest, hholds⟩ := h image himage
  exact ⟨manifest, hmanifest, hholds.removeOldGenerations active removals⟩

/-- A crash leaves a recoverable directory recoverable. -/
theorem Recoverable.crash (h : Recoverable backend contains d acked) (hcrash : Crash d d') :
    Recoverable backend contains d' acked := by
  have hsome : none ∉ d.manifest.images := by
    intro hnone
    obtain ⟨manifest, heq, -⟩ := h none hnone
    cases heq
  intro image himage
  cases image with
  | none => exact absurd himage (hcrash.manifest.isSome hsome)
  | some file =>
      obtain ⟨_, hmem, rfl⟩ := hcrash.manifest.exists_image himage
      obtain ⟨manifest, heq, hholds⟩ := h _ hmem
      refine ⟨manifest, heq, hholds.of_slots ?_ ?_⟩
      · intro bytes hbytes
        obtain ⟨_, hmem, rfl⟩ := (hcrash.snapshots _).exists_image hbytes
        exact hmem
      · intro file hfile
        obtain ⟨file', hmem, hsurvives⟩ := (hcrash.logs _).exists_image hfile
        exact ⟨file', hmem, File.kept_of_survives hsurvives⟩

/-! ## Cutting a segment -/

theorem FileHolds.sync {file : File} (h : FileHolds backend file logged) :
    FileHolds backend file.sync logged := by
  apply h.mono
  rw [File.kept_sync]
  exact File.kept_isPrefix_content file

theorem FileHolds.resize {file : File} (h : FileHolds backend file logged) {length : Nat}
    (hlength : ∀ updates, (∀ u ∈ updates, Encodable u) →
      encodeSegment backend updates <+: file.content →
      (encodeSegment backend updates).length ≤ length) :
    FileHolds backend (file.resize length) logged := by
  obtain ⟨updates, henc, hsub, hpre⟩ := h
  have hle := hlength updates henc (hpre.trans (File.kept_isPrefix_content file))
  exact ⟨updates, henc, hsub, File.isPrefix_kept_resize hpre hle⟩

/-- A write that keeps what the segment holds. -/
theorem Recoverable.modifyLog (h : Recoverable backend contains d acked) {f : File → File}
    (hf : ∀ file, (d.logSlot g).now = some file → ∀ logged, FileHolds backend file logged →
      FileHolds backend (f file) logged) :
    Recoverable backend contains (d.modifyLog g f) acked := by
  intro image himage
  obtain ⟨manifest, hmanifest, folded, logged, hacked, hfolded, hlogged⟩ := h image himage
  refine ⟨manifest, hmanifest, folded, logged, hacked, hfolded, ?_⟩
  intro file' hfile'
  rw [Disk.logSlot_modifyLog] at hfile'
  split at hfile'
  · rename_i hg
    rw [Slot.images_modify, List.mem_cons, eq_comm, Option.map_eq_some_iff] at hfile'
    rcases hfile' with ⟨file, hfile, rfl⟩ | hlost
    · apply hf file hfile
      apply hlogged
      rw [← hg, ← hfile]
      exact Slot.now_mem_images _
    · apply hlogged
      rw [← hg]
      exact List.mem_cons_of_mem _ hlost
  · exact hlogged file' hfile'

/-- What `resizeLog` may do. -/
theorem resizeLog_cases {length : Nat} {outcome : Resize} {ok : Bool}
    (h : resizeLog g length outcome d = (ok, d')) :
    (ok = false ∧ d' = d) ∨
    (∃ file, (d.logSlot g).now = some file ∧
      ((ok = false ∧ outcome = .resized ∧ d' = d.modifyLog g (File.resize length)) ∨
      (ok = true ∧ outcome = .synced ∧
        d' = d.modifyLog g fun file => (file.resize length).sync))) := by
  unfold resizeLog at h
  split at h
  · cases h
    exact .inl ⟨rfl, rfl⟩
  · cases h
    exact .inl ⟨rfl, rfl⟩
  · rename_i file hfile
    cases h
    exact .inr ⟨file, hfile, .inl ⟨rfl, rfl, rfl⟩⟩
  · rename_i file hfile
    cases h
    exact .inr ⟨file, hfile, .inr ⟨rfl, rfl, rfl⟩⟩

/-- What `truncateLog` may do: nothing, a cut that is reported as an error, or a
cut that is known to be on disk. -/
theorem truncateLog_cases {length : Nat} {faults : TruncateFaults} {ok : Bool}
    (h : truncateLog g length faults d = (ok, d')) :
    (ok = false ∧ d' = d) ∨
    (∃ file f, (d.logSlot g).now = some file ∧ (f = File.resize length ∨
        f = fun file => (file.resize length).sync) ∧ ok = false ∧ faults.resize ≠ .failed ∧
        (faults.resize = .synced → faults.directorySynced = false) ∧ d' = d.modifyLog g f) ∨
    (∃ file, (d.logSlot g).now = some file ∧ ok = true ∧
      d' = (d.modifyLog g fun file => (file.resize length).sync).syncDirectory) := by
  unfold truncateLog at h
  cases hresize : resizeLog g length faults.resize d with
  | mk resized d₁ =>
      rw [hresize] at h
      rcases resizeLog_cases hresize with ⟨rfl, rfl⟩ | ⟨file, hfile, hcase⟩
      · cases h
        exact .inl ⟨rfl, rfl⟩
      · rcases hcase with ⟨rfl, houtcome, rfl⟩ | ⟨rfl, houtcome, rfl⟩
        · cases h
          refine .inr (.inl ⟨file, _, hfile, .inl rfl, rfl, ?_, ?_, rfl⟩)
          · simp [houtcome]
          · simp [houtcome]
        · dsimp only at h
          split at h
          · cases h
            exact .inr (.inr ⟨file, hfile, rfl, rfl⟩)
          · rename_i hsync
            cases h
            refine .inr (.inl ⟨file, _, hfile, .inr rfl, rfl, ?_, ?_, rfl⟩)
            · simp [houtcome]
            · exact fun _ => by simpa using hsync

/-! ## What a load does -/

theorem validate_ok {manifest : Manifest} {u : Unit} (h : manifest.validate = .ok u) :
    manifest.snapshot = .snapshot manifest.generation ∧
      manifest.updates = .log manifest.generation := by
  unfold Manifest.validate at h
  split at h
  · cases h
  split at h
  · cases h
  split at h
  · cases h
  · rename_i hnames
    rw [not_or, not_not, not_not] at hnames
    exact hnames

theorem readManifest_ok {readable : Bool} {manifest : Manifest}
    (h : readManifest readable d = .ok manifest) :
    d.manifest.now = some (.parsed manifest) ∧ ∃ u, manifest.validate = .ok u := by
  unfold readManifest at h
  cases readable with
  | false => cases h
  | true =>
      rw [if_pos rfl] at h
      split at h
      · cases h
      · cases h
      · rename_i found hfound
        cases hvalid : found.validate with
        | error corruption =>
            rw [hvalid] at h
            cases h
        | ok u =>
            rw [hvalid] at h
            obtain rfl : found = manifest := Except.ok.inj h
            exact ⟨hfound, u, hvalid⟩

theorem decodeDoc_ok {update : Bytes} {doc : Doc} (h : decodeDoc backend update = .ok doc) :
    doc = ⟨update, []⟩ := by
  unfold decodeDoc at h
  split at h
  · cases h
  split at h
  · cases h
  · exact (Except.ok.inj h).symm

theorem loadSnapshot_decodes {manifest : Manifest} {faults : GenerationFaults} {doc : Doc}
    (h : loadSnapshot backend manifest faults d = .ok doc) :
    ∃ bytes snapshot, d.read manifest.snapshot = some bytes ∧
      decodeSnapshot backend bytes = .ok snapshot ∧ decodeDoc backend snapshot = .ok doc := by
  unfold loadSnapshot at h
  cases hvalid : manifest.validate with
  | error corruption =>
      rw [hvalid] at h
      cases h
  | ok u =>
      rw [hvalid] at h
      cases hread : (if faults.readSnapshot then d.read manifest.snapshot else none) with
      | none =>
          simp only [hread] at h
          cases h
      | some bytes =>
          simp only [hread] at h
          have hbytes : d.read manifest.snapshot = some bytes := by
            split at hread
            · exact hread
            · cases hread
          cases hdecode : decodeSnapshot backend bytes with
          | error corruption =>
              rw [hdecode] at h
              cases h
          | ok snapshot =>
              rw [hdecode] at h
              have h' : (decodeDoc backend snapshot).mapError StorageError.corrupt = .ok doc := h
              refine ⟨bytes, snapshot, hbytes, hdecode, ?_⟩
              cases hdoc : decodeDoc backend snapshot with
              | error corruption =>
                  rw [hdoc] at h'
                  cases h'
              | ok doc' =>
                  rw [hdoc] at h'
                  exact congrArg Except.ok (Except.ok.inj h')

theorem loadSnapshot_ok {manifest : Manifest} {faults : GenerationFaults} {doc : Doc}
    (h : loadSnapshot backend manifest faults d = .ok doc) :
    ∃ bytes snapshot, d.read manifest.snapshot = some bytes ∧
      decodeSnapshot backend bytes = .ok snapshot ∧ doc = ⟨snapshot, []⟩ := by
  obtain ⟨bytes, snapshot, hread, hdecode, hdoc⟩ := loadSnapshot_decodes h
  exact ⟨bytes, snapshot, hread, hdecode, decodeDoc_ok hdoc⟩

variable (backend) in
/-- What a load has read before it writes. -/
structure Scan (d : Disk) (manifest : Manifest) (snapshot : Bytes) (file : File)
    (replay : Replay) : Prop where
  manifest_eq : d.manifest.now = some (.parsed manifest)
  snapshot_eq : ∃ bytes, (d.snapshotSlot manifest.generation).now = some bytes ∧
    decodeSnapshot backend bytes = .ok snapshot
  file_eq : (d.logSlot manifest.generation).now = some file
  replay_eq : replayLog backend .recoverInterruptedAppend ⟨snapshot, []⟩ file.content = .ok replay

/-- The document and the state in memory a load returns. -/
def loadedFrom (manifest : Manifest) (replay : Replay) : Loaded where
  doc := replay.doc
  persistence :=
    { generation := manifest.generation
      logBytes := replay.bytes
      records := replay.records
      totalRecords := saturatingAdd manifest.totalRecords replay.records
      recoveredTail := replay.repaired
      appendFailed := false
      maxLogBytes := maxLogBytes }

theorem loadGeneration_cases {manifest : Manifest} {faults : GenerationFaults}
    {result : Except StorageError Loaded}
    (hmanifest : d.manifest.now = some (.parsed manifest)) {u : Unit}
    (hvalid : manifest.validate = .ok u)
    (h : loadGeneration backend .recoverInterruptedAppend manifest faults d = (result, d')) :
    (∃ error, result = .error error ∧ d' = d) ∨
    ∃ snapshot file replay, Scan backend d manifest snapshot file replay ∧
      ((∃ error, result = .error error ∧
        truncateLog manifest.generation replay.bytes faults.truncate d = (false, d')) ∨
      (result = .ok (loadedFrom manifest replay) ∧ (replay.repaired = false ∧ d' = d ∨
        truncateLog manifest.generation replay.bytes faults.truncate d = (true, d')))) := by
  obtain ⟨hsnapshot, hupdates⟩ := validate_ok hvalid
  unfold loadGeneration at h
  cases hdoc : loadSnapshot backend manifest faults d with
  | error error =>
      rw [hdoc] at h
      cases h
      exact .inl ⟨error, rfl, rfl⟩
  | ok doc =>
      rw [hdoc] at h
      dsimp only at h
      obtain ⟨bytes, snapshot, hread, hdecode, rfl⟩ := loadSnapshot_ok hdoc
      rw [hsnapshot] at hread
      unfold replayFile at h
      rw [hupdates] at h
      cases hlog : (if faults.readLog then d.read (.log manifest.generation) else none) with
      | none =>
          rw [hlog] at h
          cases h
          exact .inl ⟨_, rfl, rfl⟩
      | some content =>
          rw [hlog] at h
          dsimp only at h
          have hcontent : d.read (.log manifest.generation) = some content := by
            split at hlog
            · exact hlog
            · cases hlog
          obtain ⟨file, hfile, rfl⟩ := Option.map_eq_some_iff.mp hcontent
          cases hreplay : replayLog backend .recoverInterruptedAppend
            ⟨snapshot, []⟩ file.content with
          | error corruption =>
              rw [hreplay] at h
              cases h
              exact .inl ⟨_, rfl, rfl⟩
          | ok replay =>
              rw [hreplay] at h
              dsimp only at h
              refine .inr ⟨snapshot, file, replay,
                ⟨hmanifest, ⟨bytes, hread, hdecode⟩, hfile, hreplay⟩, ?_⟩
              cases hrepaired : replay.repaired with
              | false =>
                  rw [hrepaired] at h
                  rw [if_neg (by decide)] at h
                  cases h
                  exact .inr ⟨by rw [loadedFrom, hrepaired], .inl ⟨rfl, rfl⟩⟩
              | true =>
                  rw [hrepaired, if_pos rfl] at h
                  cases htruncate : truncateLog manifest.generation replay.bytes faults.truncate d
                    with
                  | mk ok d₁ =>
                      rw [htruncate] at h
                      cases ok with
                      | false =>
                          cases h
                          exact .inl ⟨_, rfl, rfl⟩
                      | true =>
                          cases h
                          exact .inr ⟨by rw [loadedFrom, hrepaired], .inr rfl⟩

/-- A load of a document the server has written, in the mode it uses. -/
theorem loadExisting_cases {faults : LoadFaults} {result : Except StorageError Loaded}
    (h : loadExisting backend .recoverInterruptedAppend faults d = (result, d')) :
    (∃ error, result = .error error ∧ d' = d) ∨
    ∃ manifest snapshot file replay, Scan backend d manifest snapshot file replay ∧
      ((∃ error, result = .error error ∧
        truncateLog manifest.generation replay.bytes faults.generation.truncate d = (false, d')) ∨
      ∃ d₁, result = .ok (loadedFrom manifest replay) ∧
        d' = removeOldGenerations manifest.generation faults.removals d₁ ∧
        (replay.repaired = false ∧ d₁ = d ∨
          truncateLog manifest.generation replay.bytes faults.generation.truncate d =
            (true, d₁))) := by
  unfold loadExisting findManifest at h
  cases hmanifest : readManifest faults.readManifest d with
  | error error =>
      rw [hmanifest] at h
      cases h
      exact .inl ⟨error, rfl, rfl⟩
  | ok manifest =>
      rw [hmanifest] at h
      dsimp only at h
      obtain ⟨hnow, u, hvalid⟩ := readManifest_ok hmanifest
      unfold loadManifest at h
      cases hload : loadGeneration backend .recoverInterruptedAppend manifest faults.generation d
        with
      | mk loaded d₁ =>
          rw [hload] at h
          rcases loadGeneration_cases hnow hvalid hload with ⟨error, rfl, rfl⟩ |
            ⟨snapshot, file, replay, hscan, hcase⟩
          · cases h
            exact .inl ⟨error, rfl, rfl⟩
          · refine .inr ⟨manifest, snapshot, file, replay, hscan, ?_⟩
            rcases hcase with ⟨error, rfl, htruncate⟩ | ⟨rfl, hwritten⟩
            · cases h
              exact .inl ⟨error, rfl, htruncate⟩
            · cases h
              refine .inr ⟨d₁, ?_, rfl, hwritten⟩
              simp [loadedFrom]

/-! ## The state in memory -/

/-- How the segment of a generation backs the state in memory. -/
structure View where
  file : File
  /-- The records up to `log_bytes`. -/
  updates : List Bytes
  /-- What a failed append has left behind them. -/
  tail : Bytes
  /-- The first of the records, which are synced. -/
  synced : List Bytes
  /-- The acknowledged updates, in the snapshot and in the log. -/
  folded : List Bytes
  logged : List Bytes

variable (backend contains) in
structure View.Valid (view : View) (p : DocumentPersistence) (d : Disk) (acked : List Bytes) :
    Prop where
  file_eq : (d.logSlot p.generation).now = some view.file
  content_eq : view.file.content = encodeSegment backend view.updates ++ view.tail
  encodable : ∀ u ∈ view.updates, Encodable u
  logBytes_eq : p.logBytes = (encodeSegment backend view.updates).length
  tail_eq : p.appendFailed = false → view.tail = []
  limit_eq : p.maxLogBytes = maxLogBytes
  acked_eq : acked = view.folded ++ view.logged
  folded_holds : SnapshotHolds backend contains d p.generation view.folded
  logged_sublist : view.logged.Sublist view.synced
  synced_isPrefix : view.synced <+: view.updates
  kept : encodeSegment backend view.synced <+: view.file.kept

variable (backend contains) in
/-- The state in memory is backed by its generation on disk. -/
def Tracks (p : DocumentPersistence) (d : Disk) (acked : List Bytes) : Prop :=
  ∃ view : View, view.Valid backend contains p d acked

/-- No crash can bring back another manifest, or another segment. -/
structure Settled (p : DocumentPersistence) (d : Disk) : Prop where
  manifest : ∀ image ∈ d.manifest.images, ∃ manifest, image = some (.parsed manifest) ∧
    manifest.generation = p.generation
  log : (d.logSlot p.generation).lost = []

variable {p : DocumentPersistence}

theorem Recoverable.of_settled (hsettled : Settled p d) (h : Tracks backend contains p d acked) :
    Recoverable backend contains d acked := by
  obtain ⟨view, hview⟩ := h
  intro image himage
  obtain ⟨manifest, rfl, hg⟩ := hsettled.manifest image himage
  refine ⟨manifest, rfl, view.folded, view.logged, hview.acked_eq, hg ▸ hview.folded_holds, ?_⟩
  intro file hfile
  rw [hg, Slot.images, hsettled.log, List.mem_singleton, hview.file_eq, Option.some_inj] at hfile
  subst hfile
  refine ⟨view.synced, ?_, hview.logged_sublist, hview.kept⟩
  exact fun u hu => hview.encodable u (hview.synced_isPrefix.subset hu)

/-- A state that sees the same files. -/
theorem Tracks.of_slots (h : Tracks backend contains p d acked)
    (hsnapshot : ∀ bytes, some bytes ∈ (d'.snapshotSlot p.generation).images →
      some bytes ∈ (d.snapshotSlot p.generation).images)
    (hlog : (d'.logSlot p.generation).now = (d.logSlot p.generation).now) :
    Tracks backend contains p d' acked := by
  obtain ⟨view, hview⟩ := h
  exact ⟨view, { hview with
    file_eq := hlog.trans hview.file_eq
    folded_holds := hview.folded_holds.mono hsnapshot }⟩

theorem Tracks.syncDirectory (h : Tracks backend contains p d acked) :
    Tracks backend contains p d.syncDirectory acked := by
  apply h.of_slots
  · exact fun _ => d.mem_snapshot_images_of_syncDirectory p.generation
  · rw [Disk.logSlot_syncDirectory]
    rfl

theorem Tracks.removeOldGenerations (h : Tracks backend contains p d acked) (removals : Removals) :
    Tracks backend contains p (removeOldGenerations p.generation removals d) acked := by
  apply h.of_slots
  · intro bytes hbytes
    rcases d.snapshotSlot_removeOldGenerations p.generation p.generation removals with
      heq | ⟨hlt, -⟩
    · rwa [heq] at hbytes
    · exact absurd hlt (lt_irrefl _)
  · rcases d.logSlot_removeOldGenerations p.generation p.generation removals with heq | ⟨hlt, -⟩
    · rw [heq]
    · exact absurd hlt (lt_irrefl _)

section Load

variable {manifest : Manifest} {snapshot : Bytes} {file : File} {replay : Replay}

/-- What was replayed, and where the segment is cut. -/
theorem Scan.replayed (h : Scan backend d manifest snapshot file replay) :
    ∃ updates tail, (∀ u ∈ updates, Encodable u) ∧
      file.content = encodeSegment backend updates ++ tail ∧
      (replay.repaired = false → tail = []) ∧ replay.doc = ⟨snapshot, updates⟩ ∧
      replay.bytes = (encodeSegment backend updates).length := by
  obtain ⟨updates, tail, henc, hcontent, htail, hdoc, hbytes⟩ := replayLog_spec h.replay_eq
  exact ⟨updates, tail, henc, hcontent, htail, hdoc, hbytes⟩

/-- Records at the start of the segment are replayed. -/
theorem Scan.covers (h : Scan backend d manifest snapshot file replay) {updates : List Bytes}
    (henc : ∀ u ∈ updates, Encodable u) (hpre : encodeSegment backend updates <+: file.content) :
    updates <+: replay.doc.updates ∧ (encodeSegment backend updates).length ≤ replay.bytes := by
  obtain ⟨more, hmore⟩ := replayLog_encoded (by decide) henc hpre h.replay_eq
  obtain ⟨replayed, tail, -, -, -, hdoc, hbytes⟩ := h.replayed
  have heq : replay.doc.updates = updates ++ more := hmore
  refine ⟨⟨more, heq.symm⟩, ?_⟩
  rw [hdoc] at heq
  rw [hbytes, show replayed = updates ++ more from heq, encodeSegment_append, List.length_append]
  exact Nat.le_add_right _ _

/-- A cut at the end of the replayed records keeps what the segment holds. -/
theorem Scan.fileHolds_cut (h : Scan backend d manifest snapshot file replay) {f : File → File}
    (hf : f = File.resize replay.bytes ∨ f = fun file => (file.resize replay.bytes).sync)
    {logged : List Bytes} (hholds : FileHolds backend file logged) :
    FileHolds backend (f file) logged := by
  have hresize : FileHolds backend (file.resize replay.bytes) logged :=
    hholds.resize fun updates henc hpre => (h.covers henc hpre).2
  rcases hf with rfl | rfl
  · exact hresize
  · exact hresize.sync

theorem Scan.recoverable_cut (h : Scan backend d manifest snapshot file replay) {f : File → File}
    (hf : f = File.resize replay.bytes ∨ f = fun file => (file.resize replay.bytes).sync)
    (hrec : Recoverable backend contains d acked) :
    Recoverable backend contains (d.modifyLog manifest.generation f) acked := by
  apply hrec.modifyLog
  intro file' hfile' logged hholds
  rw [h.file_eq, Option.some_inj] at hfile'
  exact hfile' ▸ h.fileHolds_cut hf (hfile'.symm ▸ hholds)

/-- The cut leaves the segment at what was replayed. -/
theorem Scan.content_cut (h : Scan backend d manifest snapshot file replay) {f : File → File}
    (hf : f = File.resize replay.bytes ∨ f = fun file => (file.resize replay.bytes).sync) :
    (f file).content = encodeSegment backend replay.doc.updates := by
  obtain ⟨updates, tail, -, hcontent, -, hdoc, hbytes⟩ := h.replayed
  have hresize : (file.resize replay.bytes).content = encodeSegment backend updates := by
    rw [hbytes]
    exact File.content_resize hcontent
  rw [hdoc]
  rcases hf with rfl | rfl
  · exact hresize
  · exact hresize

theorem Scan.kept_cut (h : Scan backend d manifest snapshot file replay) {f : File → File}
    (hf : f = File.resize replay.bytes ∨ f = fun file => (file.resize replay.bytes).sync)
    {updates : List Bytes} (henc : ∀ u ∈ updates, Encodable u)
    (hkept : encodeSegment backend updates <+: file.kept) :
    encodeSegment backend updates <+: (f file).kept := by
  have hle := (h.covers henc (hkept.trans (File.kept_isPrefix_content file))).2
  have hresize := File.isPrefix_kept_resize hkept hle
  rcases hf with rfl | rfl
  · exact hresize
  · show _ <+: (file.resize replay.bytes).sync.kept
    rw [File.kept_sync]
    exact hresize.trans (File.kept_isPrefix_content _)

/-- A cut that is reported as an error does not touch the records in memory. -/
theorem Scan.tracks_cut (h : Scan backend d manifest snapshot file replay) {f : File → File}
    (hf : f = File.resize replay.bytes ∨ f = fun file => (file.resize replay.bytes).sync)
    (htracks : Tracks backend contains p d acked) :
    Tracks backend contains p (d.modifyLog manifest.generation f) acked := by
  by_cases hg : manifest.generation = p.generation
  · obtain ⟨view, hview⟩ := htracks
    have hfile : view.file = file := by
      have := h.file_eq
      rw [hg, hview.file_eq, Option.some_inj] at this
      exact this
    have hpre : encodeSegment backend view.updates <+: file.content := by
      rw [← hfile, hview.content_eq]
      exact List.prefix_append _ _
    obtain ⟨more, hmore⟩ := (h.covers hview.encodable hpre).1
    have hcontent : (f file).content =
        encodeSegment backend view.updates ++ encodeRecords backend more := by
      rw [h.content_cut hf, ← hmore, encodeSegment_append]
    refine ⟨{ view with file := f file, tail := encodeRecords backend more }, { hview with
      file_eq := ?_
      content_eq := hcontent
      tail_eq := ?_
      kept := ?_ }⟩
    · rw [Disk.logSlot_modifyLog, if_pos hg, hg]
      show (d.logSlot p.generation).now.map f = _
      rw [hview.file_eq, hfile]
      rfl
    · -- nothing was left to cut
      intro hfailed
      obtain ⟨updates, tail, -, hold, -, hdoc, -⟩ := h.replayed
      have hlen := congrArg List.length hold
      rw [← hfile, hview.content_eq, hview.tail_eq hfailed, List.append_nil, List.length_append,
        show updates = view.updates ++ more by rw [hmore, hdoc], encodeSegment_append,
        List.length_append] at hlen
      show encodeRecords backend more = []
      apply List.eq_nil_of_length_eq_zero
      omega
    · apply h.kept_cut hf
      · exact fun u hu => hview.encodable u (hview.synced_isPrefix.subset hu)
      · exact hfile ▸ hview.kept
  · apply htracks.of_slots
    · exact fun _ hbytes => hbytes
    · rw [Disk.logSlot_modifyLog, if_neg hg]

/-- The state a load returns is backed by the segment it has read and cut. -/
theorem Scan.tracks_loaded (h : Scan backend d manifest snapshot file replay)
    (hholds : GenerationHolds backend contains d manifest.generation acked) {file' : File}
    (hlog : (d'.logSlot manifest.generation).now = some file')
    (hsnapshot : ∀ bytes, some bytes ∈ (d'.snapshotSlot manifest.generation).images →
      some bytes ∈ (d.snapshotSlot manifest.generation).images)
    (hcontent : file'.content = encodeSegment backend replay.doc.updates)
    (hkept : ∀ updates, (∀ u ∈ updates, Encodable u) →
      encodeSegment backend updates <+: file.kept → encodeSegment backend updates <+: file'.kept) :
    Tracks backend contains (loadedFrom manifest replay).persistence d' acked := by
  obtain ⟨folded, logged, hacked, hfolded, hlogged⟩ := hholds
  have himage : some file ∈ (d.logSlot manifest.generation).images := by
    rw [← h.file_eq]
    exact Slot.now_mem_images _
  obtain ⟨synced, henc, hsub, hpre⟩ := hlogged file himage
  obtain ⟨updates, tail, hencAll, -, -, hdoc, hbytes⟩ := h.replayed
  have hupdates : replay.doc.updates = updates := by rw [hdoc]
  refine ⟨⟨file', replay.doc.updates, [], synced, folded, logged⟩, ⟨hlog, ?_, ?_, ?_,
    fun _ => rfl, rfl, hacked, hfolded.mono hsnapshot, hsub, ?_, hkept synced henc hpre⟩⟩
  · rw [hcontent, List.append_nil]
  · rw [hupdates]
    exact hencAll
  · rw [hupdates]
    exact hbytes
  · exact (h.covers henc (hpre.trans (File.kept_isPrefix_content file))).1

/-- The document a load returns has all acknowledged updates. -/
theorem Scan.holdsAcked (h : Scan backend d manifest snapshot file replay)
    (hholds : GenerationHolds backend contains d manifest.generation acked) :
    HoldsAcked contains replay.doc acked := by
  obtain ⟨folded, logged, hacked, hfolded, hlogged⟩ := hholds
  obtain ⟨bytes, hbytes, hdecode⟩ := h.snapshot_eq
  obtain ⟨updates, tail, -, -, -, hdoc, -⟩ := h.replayed
  have himage : some file ∈ (d.logSlot manifest.generation).images := by
    rw [← h.file_eq]
    exact Slot.now_mem_images _
  obtain ⟨synced, henc, hsub, hpre⟩ := hlogged file himage
  refine ⟨folded, logged, hacked, ?_, ?_⟩
  · have hsnapshot : some bytes ∈ (d.snapshotSlot manifest.generation).images := by
      rw [← hbytes]
      exact Slot.now_mem_images _
    rw [hdoc]
    exact hfolded bytes hsnapshot snapshot hdecode
  · exact hsub.trans (h.covers henc (hpre.trans (File.kept_isPrefix_content file))).1.sublist

end Load

/-- A load keeps the directory recoverable. One that succeeds returns all
acknowledged updates and a state backed by the directory; one that fails leaves a
state in memory as well backed as before. -/
theorem loadExisting_spec {faults : LoadFaults} {result : Except StorageError Loaded}
    (hrec : Recoverable backend contains d acked)
    (h : loadExisting backend .recoverInterruptedAppend faults d = (result, d')) :
    Recoverable backend contains d' acked ∧
      (∀ loaded, result = .ok loaded →
        Tracks backend contains loaded.persistence d' acked ∧
          HoldsAcked contains loaded.doc acked) ∧
      (∀ error, result = .error error → ∀ p, Tracks backend contains p d acked →
        Tracks backend contains p d' acked) := by
  rcases loadExisting_cases h with ⟨error, rfl, rfl⟩ |
    ⟨manifest, snapshot, file, replay, hscan, hcase⟩
  · exact ⟨hrec, (fun _ h => nomatch h), fun _ _ _ h => h⟩
  obtain ⟨manifest', heq, hholds⟩ := hrec _ (Slot.now_mem_images d.manifest)
  obtain rfl : manifest = manifest' := by
    rw [hscan.manifest_eq] at heq
    cases heq
    rfl
  rcases hcase with ⟨error, rfl, htruncate⟩ | ⟨d₁, rfl, rfl, hwritten⟩
  · rcases truncateLog_cases htruncate with ⟨-, rfl⟩ | ⟨_, f, -, hf, -, -, -, rfl⟩ | ⟨_, -, hok, -⟩
    · exact ⟨hrec, (fun _ h => nomatch h), fun _ _ _ h => h⟩
    · exact ⟨hscan.recoverable_cut hf hrec, (fun _ h => nomatch h),
        fun _ _ _ h => hscan.tracks_cut hf h⟩
    · cases hok
  · refine ⟨?_, ?_, fun _ h => nomatch h⟩
    · apply Recoverable.removeOldGenerations
      rcases hwritten with ⟨-, rfl⟩ | htruncate
      · exact hrec
      · rcases truncateLog_cases htruncate with ⟨hok, -⟩ | ⟨_, _, -, -, hok, -⟩ | ⟨_, -, -, rfl⟩
        · cases hok
        · cases hok
        · exact (hscan.recoverable_cut (.inr rfl) hrec).syncDirectory
    · intro loaded hloaded
      obtain rfl := Except.ok.inj hloaded
      refine ⟨?_, hscan.holdsAcked hholds⟩
      apply Tracks.removeOldGenerations
      rcases hwritten with ⟨hrepaired, rfl⟩ | htruncate
      · obtain ⟨updates, tail, -, hcontent, htail, hdoc, -⟩ := hscan.replayed
        apply hscan.tracks_loaded hholds hscan.file_eq (fun _ h => h)
        · rw [hcontent, htail hrepaired, List.append_nil, hdoc]
        · exact fun _ _ h => h
      · rcases truncateLog_cases htruncate with ⟨hok, -⟩ | ⟨_, _, -, -, hok, -⟩ | ⟨_, -, -, rfl⟩
        · cases hok
        · cases hok
        · let f : File → File := fun file => (file.resize replay.bytes).sync
          have hf : f = File.resize replay.bytes ∨
              f = fun file => (file.resize replay.bytes).sync := .inr rfl
          apply hscan.tracks_loaded hholds
          · rw [Disk.logSlot_syncDirectory, Disk.logSlot_modifyLog, if_pos rfl]
            show (d.logSlot manifest.generation).now.map _ = _
            rw [hscan.file_eq]
            rfl
          · exact fun _ => Disk.mem_snapshot_images_of_syncDirectory _ _
          · exact hscan.content_cut (f := f) hf
          · exact fun updates henc hkept => hscan.kept_cut (f := f) hf henc hkept

end Realtime.Storage
