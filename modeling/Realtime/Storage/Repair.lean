import Mathlib.Tactic
import Realtime.Storage.Replay

/-!
# What a repair finds

A damaged manifest is rebuilt by `recover_manifest` from the highest generation that can
be loaded. That is the committed one, or one that an interrupted compaction has left above
it and that no manifest has named. The latter has the acknowledged updates of the time it
was written, so a repair loses what is appended to the older generation after it.
-/

namespace Realtime.Storage

open Lib Lib.Durable

variable (backend : Backend) (contains : Bytes → Bytes → Prop)

/-! ## Generations a repair may find -/

/-- Snapshot and segment are there, or a crash may bring them back. -/
def Complete (d : Disk) (g : Nat) : Prop :=
  (∃ bytes, some bytes ∈ (d.snapshotSlot g).images) ∧ ∃ file, some file ∈ (d.logSlot g).images

/-- A repair can load the generation, whatever a crash leaves of it. -/
structure Loadable (d : Disk) (g : Nat) : Prop where
  snapshot : ∀ image ∈ (d.snapshotSlot g).images, ∃ bytes snapshot, image = some bytes ∧
    decodeSnapshot backend bytes = .ok snapshot ∧ decodeDoc backend snapshot = .ok ⟨snapshot, []⟩
  log : ∀ image ∈ (d.logSlot g).images, ∃ file, image = some file ∧ logMagic <+: file.kept ∧
    file.content.length ≤ maxLogBytes

/-- A generation that was written beside the one in use. -/
def Above (d : Disk) (g : Nat) (acked : List Bytes) : Prop :=
  Complete d g → SnapshotHolds backend contains d g acked

/-- What any snapshot that a crash may leave makes of these records. -/
def AcceptedAt (d : Disk) (g : Nat) (updates : List Bytes) : Prop :=
  ∀ bytes snapshot, some bytes ∈ (d.snapshotSlot g).images →
    decodeSnapshot backend bytes = .ok snapshot → AcceptsAll backend ⟨snapshot, []⟩ updates

/-- The generation in use. -/
def At (d : Disk) (g : Nat) (acked : List Bytes) : Prop :=
  ∃ folded logged, acked = folded ++ logged ∧ SnapshotHolds backend contains d g folded ∧
    ∀ file, some file ∈ (d.logSlot g).images → ∃ updates, (∀ u ∈ updates, Encodable u) ∧
      logged.Sublist updates ∧ encodeSegment backend updates <+: file.kept ∧
      AcceptedAt backend d g updates

/-- Every record of the segment is accepted. -/
def Sound (d : Disk) (g : Nat) : Prop :=
  ∀ file, (d.logSlot g).now = some file → ∀ updates, (∀ u ∈ updates, Encodable u) →
    encodeSegment backend updates <+: file.content → AcceptedAt backend d g updates

/-- A segment without records. -/
def Blank (d : Disk) (g : Nat) : Prop :=
  ∀ file, (d.logSlot g).now = some file → file.content = logMagic

variable {backend contains} {d d' : Disk} {g b : Nat} {acked updates more : List Bytes} {doc : Doc}

theorem AcceptsAll.of_append (h : AcceptsAll backend doc (updates ++ more)) :
    AcceptsAll backend doc updates := by
  induction updates generalizing doc with
  | nil => trivial
  | cons update updates ih => exact ⟨h.1, ih h.2⟩

theorem AcceptsAll.snoc {update : Bytes} (h : AcceptsAll backend doc updates)
    (hlast : Accepts backend (doc.extend updates) update) :
    AcceptsAll backend doc (updates ++ [update]) := by
  induction updates generalizing doc with
  | nil => exact ⟨by rwa [Doc.extend_nil] at hlast, trivial⟩
  | cons first updates ih =>
      refine ⟨h.1, ih h.2 ?_⟩
      rwa [Doc.extend_extend]

theorem AcceptedAt.of_prefix (h : AcceptedAt backend d g updates) (hpre : more <+: updates) :
    AcceptedAt backend d g more := by
  obtain ⟨rest, rfl⟩ := hpre
  exact fun bytes snapshot hbytes hdecode => (h bytes snapshot hbytes hdecode).of_append

/-- Records are told apart by their lengths. -/
theorem encodeRecords_isPrefix (henc : ∀ u ∈ updates, Encodable u) (hmore : ∀ u ∈ more, Encodable u)
    (h : encodeRecords backend updates <+: encodeRecords backend more) : updates <+: more := by
  induction updates generalizing more with
  | nil => exact List.nil_prefix
  | cons update updates ih =>
      have hpos : recordHeaderBytes = 40 := rfl
      cases more with
      | nil =>
          have hlen := h.length_le
          rw [encodeRecords_cons, List.length_append, length_encodeRecord, encodeRecords_nil,
            List.length_nil] at hlen
          omega
      | cons other more =>
          obtain ⟨rest, hrest⟩ := h
          rw [encodeRecords_cons, encodeRecords_cons, List.append_assoc] at hrest
          obtain ⟨hlength, -, hpayload⟩ := fields_encodeRecord backend update
            (encodeRecords backend updates ++ rest)
          obtain ⟨hlength', -, hpayload'⟩ := fields_encodeRecord backend other
            (encodeRecords backend more)
          rw [hrest] at hlength hpayload
          have hsame : update.length = other.length := by
            have heq := congrArg LittleEndian.decode (hlength.symm.trans hlength')
            rwa [LittleEndian.decode_encode (henc _ List.mem_cons_self),
              LittleEndian.decode_encode (hmore _ List.mem_cons_self)] at heq
          obtain ⟨rfl, htail⟩ := List.append_inj (hpayload.symm.trans hpayload') hsame
          have hrec := ih (fun u hu => henc u (List.mem_cons_of_mem _ hu))
            (fun u hu => hmore u (List.mem_cons_of_mem _ hu)) ⟨rest, htail⟩
          exact List.cons_prefix_cons.mpr ⟨rfl, hrec⟩

theorem encodeSegment_isPrefix (henc : ∀ u ∈ updates, Encodable u) (hmore : ∀ u ∈ more, Encodable u)
    (h : encodeSegment backend updates <+: encodeSegment backend more) : updates <+: more :=
  encodeRecords_isPrefix henc hmore ((List.prefix_append_right_inj _).mp h)

theorem logMagic_isPrefix (updates : List Bytes) : logMagic <+: encodeSegment backend updates :=
  List.prefix_append _ _

/-! ## Frames -/

/-- What a crash may leave of the generation's files, it could leave before. -/
structure Fewer (d d' : Disk) (g : Nat) : Prop where
  snapshot : ∀ bytes, some bytes ∈ (d'.snapshotSlot g).images →
    some bytes ∈ (d.snapshotSlot g).images
  log : ∀ file, some file ∈ (d'.logSlot g).images → some file ∈ (d.logSlot g).images

/-- The same, and no file goes missing. -/
structure Stays (d d' : Disk) (g : Nat) : Prop where
  snapshot : ∀ image ∈ (d'.snapshotSlot g).images, image ∈ (d.snapshotSlot g).images
  now : (d'.logSlot g).now = (d.logSlot g).now
  lost : ∀ image ∈ (d'.logSlot g).lost, image ∈ (d.logSlot g).lost

theorem Stays.log (h : Stays d d' g) :
    ∀ image ∈ (d'.logSlot g).images, image ∈ (d.logSlot g).images := by
  intro image hi
  rcases List.mem_cons.mp hi with rfl | hlost
  · exact h.now ▸ Slot.now_mem_images _
  · exact List.mem_cons_of_mem _ (h.lost image hlost)

theorem Stays.fewer (h : Stays d d' g) : Fewer d d' g :=
  ⟨fun _ => h.snapshot _, fun _ => h.log _⟩

theorem Stays.of_eq (hsnapshot : d'.snapshotSlot g = d.snapshotSlot g)
    (hlog : d'.logSlot g = d.logSlot g) : Stays d d' g :=
  ⟨fun _ h => hsnapshot ▸ h, congrArg Slot.now hlog, fun _ h => hlog ▸ h⟩

theorem Stays.trans {d'' : Disk} (h : Stays d d' g) (h' : Stays d' d'' g) : Stays d d'' g :=
  ⟨fun image hi => h.snapshot image (h'.snapshot image hi), h'.now.trans h.now,
    fun image hi => h.lost image (h'.lost image hi)⟩

theorem stays_syncDirectory (d : Disk) (g : Nat) : Stays d d.syncDirectory g := by
  refine ⟨?_, ?_, ?_⟩
  · rw [Disk.snapshotSlot_syncDirectory]
    exact (Slot.settles_sync _).images
  · rw [Disk.logSlot_syncDirectory]
    rfl
  · rw [Disk.logSlot_syncDirectory]
    exact nofun

theorem fewer_removeOldGenerations (active : Nat) (removals : Removals) (d : Disk) (g : Nat) :
    Fewer d (removeOldGenerations active removals d) g := by
  constructor
  · intro bytes hbytes
    rcases d.snapshotSlot_removeOldGenerations g active removals with heq | ⟨-, heq⟩
    · rwa [heq] at hbytes
    · rw [heq, Slot.images_remove] at hbytes
      simpa using hbytes
  · intro file hfile
    rcases d.logSlot_removeOldGenerations g active removals with heq | ⟨-, heq⟩
    · rwa [heq] at hfile
    · rw [heq, Slot.images_remove] at hfile
      simpa using hfile

theorem stays_removeOldGenerations {active : Nat} (removals : Removals) (d : Disk)
    (hle : active ≤ g) : Stays d (removeOldGenerations active removals d) g := by
  apply Stays.of_eq
  · exact (d.snapshotSlot_removeOldGenerations g active removals).resolve_right fun h => by omega
  · exact (d.logSlot_removeOldGenerations g active removals).resolve_right fun h => by omega

theorem AcceptedAt.fewer (h : AcceptedAt backend d g updates) (hfewer : Fewer d d' g) :
    AcceptedAt backend d' g updates :=
  fun bytes snapshot hbytes => h bytes snapshot (hfewer.snapshot _ hbytes)

theorem Loadable.stays (h : Loadable backend d g) (hstays : Stays d d' g) :
    Loadable backend d' g :=
  ⟨fun image hi => h.snapshot image (hstays.snapshot image hi),
    fun image hi => h.log image (hstays.log image hi)⟩

theorem Above.fewer (h : Above backend contains d g acked) (hfewer : Fewer d d' g) :
    Above backend contains d' g acked := by
  rintro ⟨⟨bytes, hbytes⟩, ⟨file, hfile⟩⟩
  exact (h ⟨⟨bytes, hfewer.snapshot _ hbytes⟩, ⟨file, hfewer.log _ hfile⟩⟩).mono
    fun bytes => hfewer.snapshot _

theorem At.fewer (h : At backend contains d g acked) (hfewer : Fewer d d' g) :
    At backend contains d' g acked := by
  obtain ⟨folded, logged, hacked, hfolded, hlogged⟩ := h
  refine ⟨folded, logged, hacked, hfolded.mono fun bytes => hfewer.snapshot _, ?_⟩
  intro file hfile
  obtain ⟨updates, henc, hsub, hpre, haccepted⟩ := hlogged file (hfewer.log _ hfile)
  exact ⟨updates, henc, hsub, hpre, haccepted.fewer hfewer⟩

theorem Sound.stays (h : Sound backend d g) (hstays : Stays d d' g) : Sound backend d' g :=
  fun file hfile updates henc hpre =>
    (h file (hstays.now ▸ hfile) updates henc hpre).fewer hstays.fewer

theorem Blank.stays (h : Blank d g) (hstays : Stays d d' g) : Blank d' g :=
  fun file hfile => h file (hstays.now ▸ hfile)

theorem Blank.sound (h : Blank d g) : Sound backend d g := by
  intro file hfile updates henc hpre
  rw [h file hfile] at hpre
  have hmagic : logMagic = encodeSegment backend [] := by
    rw [encodeSegment, encodeRecords_nil, List.append_nil]
  rw [hmagic] at hpre
  have hnil : updates <+: [] := encodeSegment_isPrefix henc (List.forall_mem_nil _) hpre
  rw [List.prefix_nil.mp hnil]
  exact fun _ _ _ _ => trivial

/-! ## Writing to a segment -/

/-- What a segment may become: no new records but those of `updates`. -/
structure FileStep (backend : Backend) (updates : List Bytes) (file file' : File) : Prop where
  magic : logMagic <+: file.kept → logMagic <+: file'.kept
  length : file.content.length ≤ maxLogBytes → file'.content.length ≤ maxLogBytes
  content : file'.content <+: file.content ∨ file'.content <+: encodeSegment backend updates

section FileStep

variable {file file' file'' : File}

theorem FileStep.refl (backend : Backend) (updates : List Bytes) (file : File) :
    FileStep backend updates file file :=
  ⟨id, id, .inl List.prefix_rfl⟩

theorem FileStep.trans (h : FileStep backend updates file file')
    (h' : FileStep backend updates file' file'') : FileStep backend updates file file'' where
  magic := h'.magic ∘ h.magic
  length := h'.length ∘ h.length
  content := by
    rcases h'.content with hpre | henc
    · exact h.content.imp hpre.trans hpre.trans
    · exact .inr henc

theorem FileStep.sync (h : FileStep backend updates file file') :
    FileStep backend updates file file'.sync where
  magic := fun hmagic => by
    rw [File.kept_sync]
    exact (h.magic hmagic).trans (File.kept_isPrefix_content _)
  length := h.length
  content := h.content

/-- A cut behind some records. -/
theorem FileStep.resize {us tail : List Bytes} {rest : Bytes}
    (hcontent : file.content = encodeSegment backend us ++ rest) :
    FileStep backend tail file (file.resize (encodeSegment backend us).length) := by
  have hnew := File.content_resize hcontent
  refine ⟨fun hmagic => ?_, fun _ => ?_, .inl ?_⟩
  · exact File.isPrefix_kept_resize hmagic (logMagic_isPrefix us).length_le
  · rw [hnew]
    have hle := congrArg List.length hcontent
    rw [List.length_append] at hle
    omega
  · rw [hnew, hcontent]
    exact List.prefix_append _ _

/-- A record or a part of it. -/
theorem FileStep.append {us : List Bytes} {update piece : Bytes}
    (hcontent : file.content = encodeSegment backend us)
    (hpiece : piece <+: encodeRecord backend update)
    (hfits : (encodeSegment backend (us ++ [update])).length ≤ maxLogBytes) :
    FileStep backend (us ++ [update]) file (file.append piece) := by
  have hpre : (file.append piece).content <+: encodeSegment backend (us ++ [update]) := by
    show file.content ++ piece <+: _
    rw [hcontent, encodeSegment_snoc]
    exact (List.prefix_append_right_inj _).mpr hpiece
  refine ⟨fun hmagic => ?_, fun _ => hpre.length_le.trans hfits, .inr hpre⟩
  exact hmagic.trans (File.kept_isPrefix_append piece file)

end FileStep

/-- The segment of one generation is written to. -/
structure Rewritten (backend : Backend) (d d' : Disk) (g : Nat) (updates : List Bytes) : Prop where
  manifest : ∀ image ∈ d'.manifest.images, image ∈ d.manifest.images
  manifest_now : d'.manifest.now = d.manifest.now
  snapshot : ∀ image ∈ (d'.snapshotSlot g).images, image ∈ (d.snapshotSlot g).images
  others : ∀ h, h ≠ g → Stays d d' h
  log : ∃ file file', (d.logSlot g).now = some file ∧ (d'.logSlot g).now = some file' ∧
    FileStep backend updates file file'
  lost : ∀ image ∈ (d'.logSlot g).lost, image ∈ (d.logSlot g).lost

theorem Rewritten.refl {file : File} (hfile : (d.logSlot g).now = some file) :
    Rewritten backend d d g updates :=
  ⟨fun _ h => h, rfl, fun _ h => h, fun _ _ => .of_eq rfl rfl,
    ⟨file, file, hfile, hfile, .refl ..⟩, fun _ h => h⟩

theorem Rewritten.trans {d'' : Disk} (h : Rewritten backend d d' g updates)
    (h' : Rewritten backend d' d'' g updates) : Rewritten backend d d'' g updates where
  manifest := fun image hi => h.manifest image (h'.manifest image hi)
  manifest_now := h'.manifest_now.trans h.manifest_now
  snapshot := fun image hi => h.snapshot image (h'.snapshot image hi)
  others := fun i hi => (h.others i hi).trans (h'.others i hi)
  log := by
    obtain ⟨file, file₁, hfile, hfile₁, hstep⟩ := h.log
    obtain ⟨file₁', file₂, hfile₁', hfile₂, hstep'⟩ := h'.log
    obtain rfl := Option.some.inj (hfile₁.symm.trans hfile₁')
    exact ⟨file, file₂, hfile, hfile₂, hstep.trans hstep'⟩
  lost := fun image hi => h.lost image (h'.lost image hi)

theorem rewritten_modifyLog {f : File → File} {file : File}
    (hfile : (d.logSlot g).now = some file) (hstep : FileStep backend updates file (f file)) :
    Rewritten backend d (d.modifyLog g f) g updates where
  manifest := fun _ h => h
  manifest_now := rfl
  snapshot := fun _ h => h
  others := fun h hne => .of_eq rfl (by rw [Disk.logSlot_modifyLog, if_neg (Ne.symm hne)])
  log := by
    refine ⟨file, f file, hfile, ?_, hstep⟩
    rw [Disk.logSlot_modifyLog, if_pos rfl]
    show (d.logSlot g).now.map f = _
    rw [hfile]
    rfl
  lost := by
    rw [Disk.logSlot_modifyLog, if_pos rfl]
    exact fun _ h => h

theorem Rewritten.syncDirectory (h : Rewritten backend d d' g updates) :
    Rewritten backend d d'.syncDirectory g updates where
  manifest := fun image hi => h.manifest image ((Slot.settles_sync _).images image hi)
  manifest_now := h.manifest_now
  snapshot := fun image hi => h.snapshot image ((stays_syncDirectory d' g).snapshot image hi)
  others := fun i hi => (h.others i hi).trans (stays_syncDirectory d' i)
  log := by
    obtain ⟨file, file', hfile, hfile', hstep⟩ := h.log
    exact ⟨file, file', hfile, (stays_syncDirectory d' g).now.trans hfile', hstep⟩
  lost := by
    rw [Disk.logSlot_syncDirectory]
    exact nofun

theorem Rewritten.loadable (h : Rewritten backend d d' g updates) (hload : Loadable backend d g) :
    Loadable backend d' g := by
  refine ⟨fun image hi => hload.snapshot image (h.snapshot image hi), fun image hi => ?_⟩
  rcases List.mem_cons.mp hi with rfl | hlost
  · obtain ⟨file, file', hfile, hfile', hstep⟩ := h.log
    obtain ⟨file₀, hfile₀, hmagic, hlength⟩ := hload.log _ (Slot.now_mem_images _)
    obtain rfl := Option.some.inj (hfile.symm.trans hfile₀)
    exact ⟨file', hfile', hstep.magic hmagic, hstep.length hlength⟩
  · exact hload.log image (List.mem_cons_of_mem _ (h.lost image hlost))

theorem Rewritten.sound (h : Rewritten backend d d' g updates) (hsound : Sound backend d g)
    (henc : ∀ u ∈ updates, Encodable u) (haccepted : AcceptedAt backend d g updates) :
    Sound backend d' g := by
  intro file' hfile' us hus hpre bytes snapshot hbytes hdecode
  have hbytes := h.snapshot _ hbytes
  obtain ⟨file, file₁, hfile, hfile₁, hstep⟩ := h.log
  obtain rfl := Option.some.inj (hfile₁.symm.trans hfile')
  rcases hstep.content with hold | hnew
  · exact hsound file hfile us hus (hpre.trans hold) bytes snapshot hbytes hdecode
  · have hstart := encodeSegment_isPrefix hus henc (hpre.trans hnew)
    exact haccepted.of_prefix hstart bytes snapshot hbytes hdecode

section Append

variable {p p' : DocumentPersistence} {update : Bytes} {result : Except StorageError Unit}

/-- A cut back to the records in memory. -/
theorem rewritten_discard {outcome : Resize} {ok : Bool} {file : File} {rest : Bytes}
    (hfile : (d.logSlot p.generation).now = some file)
    (hcontent : file.content = encodeSegment backend updates ++ rest)
    (hbytes : p.logBytes = (encodeSegment backend updates).length)
    (h : p.discardPartialRecord outcome d = (ok, d')) :
    Rewritten backend d d' p.generation more ∧
      (ok = true → ∃ file', (d'.logSlot p.generation).now = some file' ∧
        file'.content = encodeSegment backend updates) := by
  have hstep : FileStep backend more file (file.resize p.logBytes) :=
    hbytes ▸ FileStep.resize hcontent
  rcases resizeLog_cases h with ⟨rfl, rfl⟩ | ⟨_, -, ⟨rfl, -, rfl⟩ | ⟨rfl, -, rfl⟩⟩
  · exact ⟨.refl hfile, nofun⟩
  · exact ⟨rewritten_modifyLog hfile hstep, nofun⟩
  · refine ⟨rewritten_modifyLog hfile hstep.sync, fun _ => ⟨(file.resize p.logBytes).sync, ?_, ?_⟩⟩
    · rw [Disk.logSlot_modifyLog, if_pos rfl]
      show (d.logSlot p.generation).now.map _ = _
      rw [hfile]
      rfl
    · show (file.resize p.logBytes).content = _
      rw [hbytes]
      exact File.content_resize hcontent

theorem appendRecord_rewritten {faults : DocumentPersistence.AppendFaults} {file : File}
    (hfile : (d.logSlot p.generation).now = some file)
    (hcontent : file.content = encodeSegment backend updates)
    (hbytes : p.logBytes = (encodeSegment backend updates).length)
    (hlimit : p.maxLogBytes = maxLogBytes)
    (h : p.appendRecord backend update faults d = (result, p', d')) :
    p'.generation = p.generation ∧
      Rewritten backend d d' p.generation (updates ++ [update]) := by
  unfold DocumentPersistence.appendRecord at h
  cases hlen : DocumentPersistence.recordLen update.length with
  | error error =>
      rw [hlen] at h
      cases h
      exact ⟨rfl, .refl hfile⟩
  | ok recordLen =>
      rw [hlen] at h
      dsimp only at h
      split at h
      · cases h
        exact ⟨rfl, .refl hfile⟩
      rename_i hexceeds
      have hfits : (encodeSegment backend (updates ++ [update])).length ≤ maxLogBytes := by
        rw [encodeSegment_snoc, List.length_append, length_encodeRecord, ← hbytes,
          ← recordLen_ok hlen, ← hlimit]
        simpa [DocumentPersistence.exceeds] using hexceeds
      have hpiece : ∀ piece, piece <+: encodeRecord backend update →
          FileStep backend (updates ++ [update]) file (file.append piece) :=
        fun piece hpre => .append hcontent hpre hfits
      cases hwrite : writeRecord p.generation (encodeRecord backend update) faults.write d with
      | mk ok d₁ =>
          rw [hwrite] at h
          have hd₁ : (ok = false ∧ (d₁ = d ∨ ∃ piece, piece <+: encodeRecord backend update ∧
              d₁ = d.modifyLog p.generation (File.append piece))) ∨
                (ok = true ∧ d₁ = d.modifyLog p.generation fun file =>
                  (file.append (encodeRecord backend update)).sync) := by
            unfold writeRecord at hwrite
            split at hwrite <;> cases hwrite
            · exact .inl ⟨rfl, .inl rfl⟩
            · exact .inl ⟨rfl, .inl rfl⟩
            · exact .inl ⟨rfl, .inr ⟨_, List.take_prefix _ _, rfl⟩⟩
            · exact .inl ⟨rfl, .inr ⟨_, List.prefix_rfl, rfl⟩⟩
            · exact .inr ⟨rfl, rfl⟩
          rcases hd₁ with ⟨rfl, hd₁⟩ | ⟨rfl, rfl⟩
          · have hwritten : ∃ piece file₁, (d₁.logSlot p.generation).now = some file₁ ∧
                file₁.content = encodeSegment backend updates ++ piece ∧
                Rewritten backend d d₁ p.generation (updates ++ [update]) := by
              rcases hd₁ with rfl | ⟨piece, hpre, rfl⟩
              · exact ⟨[], file, hfile, by rw [hcontent, List.append_nil], .refl hfile⟩
              · refine ⟨piece, file.append piece, ?_, ?_,
                  rewritten_modifyLog hfile (hpiece piece hpre)⟩
                · rw [Disk.logSlot_modifyLog, if_pos rfl]
                  show (d.logSlot p.generation).now.map _ = _
                  rw [hfile]
                  rfl
                · show file.content ++ piece = _
                  rw [hcontent]
            obtain ⟨piece, file₁, hfile₁, hcontent₁, hrewritten⟩ := hwritten
            dsimp only at h
            cases hdiscard : p.discardPartialRecord faults.discard d₁ with
            | mk ok d₂ =>
                rw [hdiscard] at h
                have hcut : Rewritten backend d₁ d₂ p.generation (updates ++ [update]) :=
                  (rewritten_discard hfile₁ hcontent₁ hbytes hdiscard).1
                cases ok with
                | false =>
                    cases h
                    exact ⟨rfl, hrewritten.trans hcut⟩
                | true =>
                    cases h
                    exact ⟨rfl, hrewritten.trans hcut⟩
          · cases h
            exact ⟨rfl, rewritten_modifyLog hfile (hpiece _ List.prefix_rfl).sync⟩

/-- An append adds its record to those in memory, or a part of it. -/
theorem appendUpdate_rewritten {faults : DocumentPersistence.AppendFaults} {view : View}
    (hview : view.Valid backend contains p d acked)
    (h : p.appendUpdate backend update faults d = (result, p', d')) :
    p'.generation = p.generation ∧
      Rewritten backend d d' p.generation (view.updates ++ [update]) := by
  unfold DocumentPersistence.appendUpdate at h
  cases hfailed : p.appendFailed with
  | false =>
      rw [hfailed, if_neg Bool.false_ne_true] at h
      have hcontent := hview.content_eq
      rw [hview.tail_eq hfailed, List.append_nil] at hcontent
      exact appendRecord_rewritten hview.file_eq hcontent hview.logBytes_eq hview.limit_eq h
  | true =>
      rw [hfailed, if_pos rfl] at h
      cases hdiscard : p.discardPartialRecord faults.recover d with
      | mk ok d₁ =>
          rw [hdiscard] at h
          obtain ⟨hcut, hclean⟩ : Rewritten backend d d₁ p.generation (view.updates ++ [update]) ∧
              (ok = true → ∃ file', (d₁.logSlot p.generation).now = some file' ∧
                file'.content = encodeSegment backend view.updates) :=
            rewritten_discard hview.file_eq hview.content_eq hview.logBytes_eq hdiscard
          cases ok with
          | false =>
              cases h
              exact ⟨rfl, hcut⟩
          | true =>
              obtain ⟨file', hfile', hcontent'⟩ := hclean rfl
              obtain ⟨hgeneration, hrest⟩ := appendRecord_rewritten
                (p := { p with appendFailed := false }) hfile' hcontent' hview.logBytes_eq
                hview.limit_eq h
              exact ⟨hgeneration, hcut.trans hrest⟩

end Append

/-! ## The invariant -/

variable (backend contains) in
/-- No manifest names a generation below `b`, and from `b` on a repair finds everything. -/
structure Kept (d : Disk) (b : Nat) (acked : List Bytes) : Prop where
  manifests : ∀ image ∈ d.manifest.images, ∃ manifest, image = some (.parsed manifest) ∧
    b ≤ manifest.generation
  at_ : At backend contains d b acked
  above : ∀ g, b < g → Above backend contains d g acked

variable (backend) in
/-- The generation in memory, and the one on disk where a compaction has failed. -/
structure Running (d : Disk) (b g : Nat) : Prop where
  le : b ≤ g
  loadable : Loadable backend d g
  sound : Sound backend d g
  other : ∀ manifest, d.manifest.now = some (.parsed manifest) → manifest.generation = g ∨
    (Loadable backend d manifest.generation ∧ Blank d manifest.generation)

variable (backend) in
/-- After a crash, what a file shows is all that can come back. -/
structure Stopped (d : Disk) (b : Nat) : Prop where
  loadable : ∃ g, b ≤ g ∧ Loadable backend d g
  snapshots : ∀ g, ∀ image ∈ (d.snapshotSlot g).images, ∀ image' ∈ (d.snapshotSlot g).images,
    image = image'
  logs : ∀ g, (d.logSlot g).lost = []

variable (backend contains) in
structure RepairInv (s : Store) (b : Nat) : Prop where
  kept : Kept backend contains s.disk b s.acked
  running : ∀ p, s.persistence = some p → Running backend s.disk b p.generation
  stopped : s.persistence = none → Stopped backend s.disk b

variable {p p' : DocumentPersistence}

theorem Kept.of_fewer (h : Kept backend contains d b acked)
    (hmanifest : ∀ image ∈ d'.manifest.images, image ∈ d.manifest.images)
    (hfewer : ∀ g, Fewer d d' g) : Kept backend contains d' b acked :=
  ⟨fun image hi => h.manifests image (hmanifest image hi), h.at_.fewer (hfewer b),
    fun g hg => (h.above g hg).fewer (hfewer g)⟩

theorem Kept.syncDirectory (h : Kept backend contains d b acked) :
    Kept backend contains d.syncDirectory b acked :=
  h.of_fewer (Slot.settles_sync _).images fun g => (stays_syncDirectory d g).fewer

theorem Kept.removeOldGenerations (h : Kept backend contains d b acked) (active : Nat)
    (removals : Removals) :
    Kept backend contains (removeOldGenerations active removals d) b acked :=
  h.of_fewer (fun _ hi => hi) (fewer_removeOldGenerations active removals d)

theorem Running.of_stays (h : Running backend d b g) (hnow : d'.manifest.now = d.manifest.now)
    (hstays : ∀ g, Stays d d' g) : Running backend d' b g where
  le := h.le
  loadable := h.loadable.stays (hstays g)
  sound := h.sound.stays (hstays g)
  other := fun manifest hm => (h.other manifest (hnow ▸ hm)).imp id
    fun ⟨hload, hblank⟩ => ⟨hload.stays (hstays _), hblank.stays (hstays _)⟩

theorem Running.syncDirectory (h : Running backend d b g) : Running backend d.syncDirectory b g :=
  h.of_stays rfl (stays_syncDirectory d)

/-- What the records in memory hold, a repair finds. -/
theorem Tracks.at_ (h : Tracks backend contains p d acked) (hsound : Sound backend d p.generation)
    (hlost : (d.logSlot p.generation).lost = []) :
    At backend contains d p.generation acked := by
  obtain ⟨view, hview⟩ := h
  refine ⟨view.folded, view.logged, hview.acked_eq, hview.folded_holds, fun file hfile => ?_⟩
  rw [Slot.images, hlost, List.mem_singleton, hview.file_eq, Option.some_inj] at hfile
  subst hfile
  have henc : ∀ u ∈ view.synced, Encodable u :=
    fun u hu => hview.encodable u (hview.synced_isPrefix.subset hu)
  exact ⟨view.synced, henc, hview.logged_sublist, hview.kept, hsound _ hview.file_eq _ henc
    (hview.kept.trans (File.kept_isPrefix_content _))⟩

theorem Above.of_subset (h : Above backend contains d g acked)
    (hsub : more ⊆ acked) : Above backend contains d g more :=
  fun hcomplete bytes hbytes snapshot hdecode u hu =>
    h hcomplete bytes hbytes snapshot hdecode u (hsub hu)

variable (backend) in
/-- The records of the segment that the state in memory knows of. -/
def Records (p : DocumentPersistence) (d : Disk) (updates : List Bytes) : Prop :=
  (∀ u ∈ updates, Encodable u) ∧ ∃ file tail, (d.logSlot p.generation).now = some file ∧
    file.content = encodeSegment backend updates ++ tail ∧
    p.logBytes = (encodeSegment backend updates).length

theorem View.Valid.records {view : View} (h : view.Valid backend contains p d acked) :
    Records backend p d view.updates :=
  ⟨h.encodable, view.file, view.tail, h.file_eq, h.content_eq, h.logBytes_eq⟩

variable (backend) in
/-- The update integrates into the document that the generation's files make. -/
def Integrates (p : DocumentPersistence) (d : Disk) (update : Bytes) : Prop :=
  ∀ bytes snapshot updates, some bytes ∈ (d.snapshotSlot p.generation).images →
    decodeSnapshot backend bytes = .ok snapshot → Records backend p d updates →
      Accepts backend ⟨snapshot, updates⟩ update

/-- An append, where no other generation stands above. -/
theorem RepairInv.append {update : Bytes} {faults : DocumentPersistence.AppendFaults}
    {result : Except StorageError Unit} (hrunning : Running backend d b p.generation)
    (htracks : Tracks backend contains p d acked) (hsettled : Settled p d)
    (hnone : ∀ g, p.generation < g → ¬Complete d g) (hintegrates : Integrates backend p d update)
    (h : p.appendUpdate backend update faults d = (result, p', d')) (acked' : List Bytes)
    (htracks' : Tracks backend contains p' d' acked') :
    Kept backend contains d' p.generation acked' ∧
      Running backend d' p.generation p'.generation := by
  obtain ⟨view, hview⟩ := id htracks
  obtain ⟨hgeneration, hrewritten⟩ := appendUpdate_rewritten hview h
  obtain ⟨bytes, snapshot, hbytes, hdecode, -⟩ :=
    hrunning.loadable.snapshot _ (Slot.now_mem_images _)
  have henc : Encodable update := by
    have hnow : some bytes ∈ (d.snapshotSlot p.generation).images := hbytes ▸ Slot.now_mem_images _
    exact (hintegrates bytes snapshot _ hnow hdecode hview.records).encodable
  have haccepted : AcceptedAt backend d p.generation (view.updates ++ [update]) := by
    intro bytes snapshot hbytes hdecode
    have hold : AcceptsAll backend ⟨snapshot, []⟩ view.updates := by
      refine hrunning.sound _ hview.file_eq _ hview.encodable ?_ bytes snapshot hbytes hdecode
      rw [hview.content_eq]
      exact List.prefix_append _ _
    exact hold.snoc (hintegrates bytes snapshot _ hbytes hdecode hview.records)
  have hsound : Sound backend d' p.generation := by
    refine hrewritten.sound hrunning.sound ?_ haccepted
    intro u hu
    rcases List.mem_append.mp hu with hu | hu
    · exact hview.encodable u hu
    · rw [List.mem_singleton.mp hu]
      exact henc
  have hlost : (d'.logSlot p'.generation).lost = [] := by
    rw [hgeneration]
    refine List.eq_nil_iff_forall_not_mem.mpr fun image hi => ?_
    have hold := hrewritten.lost image hi
    rw [hsettled.log] at hold
    cases hold
  have hmanifests : ∀ image ∈ d'.manifest.images, ∃ manifest,
      image = some (.parsed manifest) ∧ manifest.generation = p.generation :=
    fun image hi => hsettled.manifest image (hrewritten.manifest image hi)
  refine ⟨⟨fun image hi => ?_, ?_, fun g hg hcomplete => ?_⟩, ?_⟩
  · obtain ⟨manifest, hm, hg⟩ := hmanifests image hi
    exact ⟨manifest, hm, hg.ge⟩
  · have hat := htracks'.at_ (hgeneration.symm ▸ hsound) hlost
    rwa [hgeneration] at hat
  · have hstays := hrewritten.others g hg.ne'
    obtain ⟨⟨bytes, hbytes⟩, ⟨file, hfile⟩⟩ := hcomplete
    exact absurd ⟨⟨bytes, hstays.snapshot _ hbytes⟩, ⟨file, hstays.log _ hfile⟩⟩ (hnone g hg)
  · rw [hgeneration]
    refine ⟨le_rfl, hrewritten.loadable hrunning.loadable, hsound, fun manifest hm => ?_⟩
    obtain ⟨manifest', hm', hg⟩ := hmanifests _ (Slot.now_mem_images _)
    rw [hm, Option.some_inj] at hm'
    obtain rfl := ManifestFile.parsed.inj hm'
    exact .inl hg

/-- The record just appended is taken back. -/
theorem RepairInv.discard {before : Nat} {faults : TruncateFaults}
    {result : Except StorageError Unit} (hkept : Kept backend contains d b acked)
    (hrunning : Running backend d b p.generation)
    (happended : JustAppended backend contains p d acked before)
    (hsheltered : faults.resize ≠ .failed → faults.resize = .synced ∧ faults.directorySynced = true)
    (h : p.discardLastRecord before faults d = (result, p', d')) (hok : result = .ok ()) :
    Kept backend contains d' p.generation acked.dropLast ∧
      Running backend d' p.generation p'.generation := by
  rcases discardLastRecord_spec happended hsheltered h with ⟨error, rfl, -⟩ |
    ⟨hsettled', htracks', -⟩
  · cases hok
  obtain ⟨file, updates, update, folded, logged, -, hfile, hcontent, -, hbefore, -⟩ :=
    happended.record
  have hd' : p'.generation = p.generation ∧ d' = (d.modifyLog p.generation fun file =>
      (file.resize before).sync).syncDirectory := by
    unfold DocumentPersistence.discardLastRecord at h
    rw [if_neg (not_le.mpr happended.logBytes_lt)] at h
    cases htruncate : truncateLog p.generation before faults d with
    | mk ok d₁ =>
        rw [htruncate] at h
        subst hok
        rcases truncateLog_cases htruncate with ⟨rfl, -⟩ | ⟨_, _, -, -, rfl, -⟩ | ⟨_, -, rfl, rfl⟩
        · cases h
        · cases h
        · cases h
          exact ⟨rfl, rfl⟩
  obtain ⟨hgeneration, rfl⟩ := hd'
  have hstep : FileStep backend [] file (file.resize before).sync := by
    rw [encodeSegment_snoc] at hcontent
    exact (hbefore ▸ FileStep.resize hcontent).sync
  have hrewritten := (rewritten_modifyLog (f := fun file => (file.resize before).sync)
    hfile hstep).syncDirectory
  have hsound := hrewritten.sound hrunning.sound nofun fun _ _ _ _ => trivial
  have hlost : ((Disk.syncDirectory (d.modifyLog p.generation fun file =>
      (file.resize before).sync)).logSlot p'.generation).lost = [] := by
    rw [Disk.logSlot_syncDirectory]
    rfl
  refine ⟨⟨fun image hi => ?_, ?_, fun g hg => ?_⟩, ?_⟩
  · obtain ⟨manifest, hm, hg⟩ := happended.settled.manifest image (hrewritten.manifest image hi)
    exact ⟨manifest, hm, hg.ge⟩
  · have hat := htracks'.at_ (hgeneration.symm ▸ hsound) hlost
    rwa [hgeneration] at hat
  · have habove := hkept.above g (lt_of_le_of_lt hrunning.le hg)
    exact (habove.of_subset (List.dropLast_sublist acked).subset).fewer
      (hrewritten.others g hg.ne').fewer
  · rw [hgeneration]
    refine ⟨le_rfl, hrewritten.loadable hrunning.loadable, hsound, fun manifest hm => ?_⟩
    obtain ⟨manifest', hm', hg⟩ := happended.settled.manifest _
      (hrewritten.manifest _ (Slot.now_mem_images _))
    rw [hm, Option.some_inj] at hm'
    obtain rfl := ManifestFile.parsed.inj hm'
    exact .inl hg

/-! ### Compaction -/

theorem decodeSnapshot_encodeSnapshot_eq {snapshot : Bytes}
    (hlength : snapshot.length ≤ maxSnapshotBytes) :
    decodeSnapshot backend (encodeSnapshot backend snapshot) = .ok snapshot := by
  have hdigest := (backend.checksum snapshot).2
  have hmagic : snapshotMagic.length = 8 := rfl
  have hfield := LittleEndian.length_encode 8 snapshot.length
  have hheader : snapshotHeaderBytes = 48 := rfl
  have hshape : encodeSnapshot backend snapshot = snapshotMagic ++
      (LittleEndian.encode 8 snapshot.length ++ ((backend.checksum snapshot).1 ++ snapshot)) := by
    rw [encodeSnapshot, List.append_assoc, List.append_assoc]
  have hbytes : (encodeSnapshot backend snapshot).length =
      snapshotHeaderBytes + snapshot.length := by
    rw [hshape, List.length_append, List.length_append, List.length_append, hdigest, hfield, hmagic]
    omega
  have hfits : snapshot.length < 256 ^ 8 := by
    have : maxSnapshotBytes < 256 ^ 8 := by decide
    omega
  have hlen : LittleEndian.decode (((encodeSnapshot backend snapshot).drop 8).take 8) =
      snapshot.length := by
    rw [hshape, List.drop_left' hmagic, List.take_left' hfield, LittleEndian.decode_encode hfits]
  have hsum : ((encodeSnapshot backend snapshot).drop 16).take 32 =
      (backend.checksum snapshot).1 := by
    have h16 : (16 : Nat) = 8 + 8 := rfl
    rw [hshape, h16, ← List.drop_drop, List.drop_left' hmagic, List.drop_left' hfield,
      List.take_left' hdigest]
  have hpayload : (encodeSnapshot backend snapshot).drop snapshotHeaderBytes = snapshot := by
    have h48 : snapshotHeaderBytes = 8 + (8 + 32) := rfl
    rw [hshape, h48, ← List.drop_drop, List.drop_left' hmagic, ← List.drop_drop,
      List.drop_left' hfield, List.drop_left' hdigest]
  have hstart : snapshotMagic.isPrefixOf (encodeSnapshot backend snapshot) = true := by
    rw [List.isPrefixOf_iff_prefix, hshape]
    exact List.prefix_append _ _
  unfold decodeSnapshot
  rw [if_neg (by rw [hstart, hbytes]; simp)]
  dsimp only
  rw [hlen, if_neg (not_lt.mpr hlength), if_neg (not_not.mpr hbytes), hsum, hpayload,
    if_neg (not_not.mpr rfl)]

section Compact

variable {snapshot : Bytes} {faults : CompactFaults} {result : Except StorageError Unit}

theorem Stays.putSnapshot {h : Nat} (hne : g ≠ h) (bytes : Bytes) :
    Stays d (d.putSnapshot g bytes) h :=
  .of_eq (by rw [Disk.snapshotSlot_putSnapshot, if_neg hne]) rfl

theorem Stays.putLog {h : Nat} (hne : g ≠ h) (bytes : Bytes) : Stays d (d.putLog g bytes) h :=
  .of_eq rfl (by rw [Disk.logSlot_putLog, if_neg hne])

theorem Loadable.putSnapshot {h : Nat} (hload : Loadable backend d h)
    (hlength : snapshot.length ≤ maxSnapshotBytes)
    (hdoc : decodeDoc backend snapshot = .ok ⟨snapshot, []⟩) :
    Loadable backend (d.putSnapshot g (encodeSnapshot backend snapshot)) h := by
  refine ⟨fun image hi => ?_, hload.log⟩
  rw [Disk.snapshotSlot_putSnapshot] at hi
  split at hi
  · rename_i hg
    rcases List.mem_cons.mp hi with rfl | hold
    · exact ⟨_, snapshot, rfl, decodeSnapshot_encodeSnapshot_eq hlength, hdoc⟩
    · exact hload.snapshot image (hg ▸ hold)
  · exact hload.snapshot image hi

theorem Loadable.putLog {h : Nat} (hload : Loadable backend d h) :
    Loadable backend (d.putLog g logMagic) h := by
  refine ⟨hload.snapshot, fun image hi => ?_⟩
  rw [Disk.logSlot_putLog] at hi
  split at hi
  · rename_i hg
    rcases List.mem_cons.mp hi with rfl | hold
    · exact ⟨.ofBytes logMagic, rfl, by rw [File.kept_ofBytes], by decide⟩
    · exact hload.log image (hg ▸ hold)
  · exact hload.log image hi

theorem Blank.putLog {h : Nat} (hblank : Blank d h) : Blank (d.putLog g logMagic) h := by
  intro file hfile
  rw [Disk.logSlot_putLog] at hfile
  split at hfile
  · rw [← Option.some.inj (hfile : some (File.ofBytes logMagic) = some file)]
    rfl
  · exact hblank file hfile

theorem Kept.putSnapshot (h : Kept backend contains d b acked) (hlt : b < g)
    (hacked : ∀ u ∈ acked, contains snapshot u) :
    Kept backend contains (d.putSnapshot g (encodeSnapshot backend snapshot)) b acked := by
  refine ⟨h.manifests, h.at_.fewer (Stays.putSnapshot hlt.ne' _).fewer, fun g' hg' => ?_⟩
  by_cases heq : g = g'
  · subst heq
    rintro ⟨-, ⟨file, hfile⟩⟩ bytes hbytes decoded hdecode
    rw [Disk.snapshotSlot_putSnapshot, if_pos rfl] at hbytes
    rcases List.mem_cons.mp hbytes with hnew | hold
    · rw [Option.some.inj hnew] at hdecode
      rw [decodeSnapshot_encodeSnapshot hdecode]
      exact hacked
    · exact h.above g hg' ⟨⟨bytes, hold⟩, ⟨file, hfile⟩⟩ bytes hold decoded hdecode
  · exact (h.above g' hg').fewer (Stays.putSnapshot heq _).fewer

theorem Kept.putLog (h : Kept backend contains d b acked) (hlt : b < g)
    (hholds : SnapshotHolds backend contains d g acked) :
    Kept backend contains (d.putLog g logMagic) b acked := by
  refine ⟨h.manifests, h.at_.fewer (Stays.putLog hlt.ne' _).fewer, fun g' hg' => ?_⟩
  by_cases heq : g = g'
  · subst heq
    exact fun _ => hholds
  · exact (h.above g' hg').fewer (Stays.putLog heq _).fewer

theorem Kept.putManifest (h : Kept backend contains d b acked) {manifest : Manifest}
    (hle : b ≤ manifest.generation) : Kept backend contains (d.putManifest manifest) b acked := by
  refine ⟨fun image hi => ?_, h.at_, h.above⟩
  rcases List.mem_cons.mp hi with rfl | hold
  · exact ⟨manifest, rfl, hle⟩
  · exact h.manifests image hold

theorem Running.putSnapshot (h : Running backend d b g)
    (hlength : snapshot.length ≤ maxSnapshotBytes)
    (hdoc : decodeDoc backend snapshot = .ok ⟨snapshot, []⟩) :
    Running backend (d.putSnapshot (g + 1) (encodeSnapshot backend snapshot)) b g where
  le := h.le
  loadable := h.loadable.putSnapshot hlength hdoc
  sound := h.sound.stays (Stays.putSnapshot (Nat.succ_ne_self g) _)
  other := fun manifest hm => (h.other manifest hm).imp id fun ⟨hload, hblank⟩ =>
    ⟨hload.putSnapshot hlength hdoc, hblank⟩

theorem Running.putLog (h : Running backend d b g) :
    Running backend (d.putLog (g + 1) logMagic) b g where
  le := h.le
  loadable := h.loadable.putLog
  sound := h.sound.stays (Stays.putLog (Nat.succ_ne_self g) _)
  other := fun manifest hm => (h.other manifest hm).imp id fun ⟨hload, hblank⟩ =>
    ⟨hload.putLog, hblank.putLog⟩

/-- The files of the next generation, once they are on disk. -/
theorem loadable_fresh (hlength : snapshot.length ≤ maxSnapshotBytes)
    (hdoc : decodeDoc backend snapshot = .ok ⟨snapshot, []⟩) :
    let d₁ := (d.putSnapshot g (encodeSnapshot backend snapshot)).syncDirectory
    let d₂ := (d₁.putLog g logMagic).syncDirectory
    Loadable backend d₂ g ∧ Blank d₂ g := by
  intro d₁ d₂
  have hsnapshot : (d₂.snapshotSlot g).images = [some (encodeSnapshot backend snapshot)] := by
    rw [Disk.snapshotSlot_syncDirectory, Disk.snapshotSlot_putLog, Disk.snapshotSlot_syncDirectory,
      Disk.snapshotSlot_putSnapshot, if_pos rfl]
    rfl
  have hlog : (d₂.logSlot g).images = [some (.ofBytes logMagic)] := by
    rw [Disk.logSlot_syncDirectory, Disk.logSlot_putLog, if_pos rfl]
    rfl
  refine ⟨⟨fun image hi => ?_, fun image hi => ?_⟩, fun file hfile => ?_⟩
  · rw [hsnapshot, List.mem_singleton] at hi
    exact ⟨_, snapshot, hi, decodeSnapshot_encodeSnapshot_eq hlength, hdoc⟩
  · rw [hlog, List.mem_singleton] at hi
    exact ⟨_, hi, by rw [File.kept_ofBytes], by decide⟩
  · have hmem : some file ∈ (d₂.logSlot g).images := hfile ▸ Slot.now_mem_images _
    rw [hlog, List.mem_singleton] at hmem
    rw [Option.some.inj hmem]
    rfl

theorem RepairInv.compact (hkept : Kept backend contains d b acked)
    (hrunning : Running backend d b p.generation) (hacked : ∀ u ∈ acked, contains snapshot u)
    (hdoc : decodeDoc backend snapshot = .ok ⟨snapshot, []⟩)
    (h : p.compact backend snapshot faults d = (result, p', d')) :
    Kept backend contains d' b acked ∧ Running backend d' b p'.generation := by
  unfold DocumentPersistence.compact at h
  split at h
  · cases h
    exact ⟨hkept, hrunning⟩
  rename_i hlarge
  have hlength := not_lt.mp hlarge
  split at h
  · cases h
    exact ⟨hkept, hrunning⟩
  dsimp only at h
  have hlt : b < p.generation + 1 := Nat.lt_succ_of_le hrunning.le
  -- the snapshot of the next generation
  cases hsnapshot : atomicWrite faults.snapshot
    (Disk.putSnapshot (p.generation + 1) (encodeSnapshot backend snapshot)) d with
  | mk ok d₁ =>
  rw [hsnapshot] at h
  have hkept₁ := hkept.putSnapshot hlt hacked
  have hrunning₁ := hrunning.putSnapshot hlength hdoc
  rcases atomicWrite_cases hsnapshot with ⟨rfl, rfl | rfl⟩ | ⟨rfl, hd₁⟩
  · cases h
    exact ⟨hkept, hrunning⟩
  · cases h
    exact ⟨hkept₁, hrunning₁⟩
  have hkept₁ : Kept backend contains d₁ b acked := hd₁ ▸ hkept₁.syncDirectory
  have hrunning₁ : Running backend d₁ b p.generation := hd₁ ▸ hrunning₁.syncDirectory
  have hholds : SnapshotHolds backend contains d₁ (p.generation + 1) acked := by
    rw [hd₁]
    exact snapshotHolds_synced hacked _
  -- its segment
  dsimp only at h
  cases hlog : atomicWrite faults.log (Disk.putLog (p.generation + 1) logMagic) d₁ with
  | mk ok d₂ =>
  rw [hlog] at h
  have hkept₂ := hkept₁.putLog hlt hholds
  have hrunning₂ := hrunning₁.putLog
  rcases atomicWrite_cases hlog with ⟨rfl, rfl | rfl⟩ | ⟨rfl, hd₂⟩
  · cases h
    exact ⟨hkept₁, hrunning₁⟩
  · cases h
    exact ⟨hkept₂, hrunning₂⟩
  have hkept₂ : Kept backend contains d₂ b acked := hd₂ ▸ hkept₂.syncDirectory
  have hrunning₂ : Running backend d₂ b p.generation := hd₂ ▸ hrunning₂.syncDirectory
  have hfresh : Loadable backend d₂ (p.generation + 1) ∧ Blank d₂ (p.generation + 1) := by
    rw [hd₂, hd₁]
    exact loadable_fresh hlength hdoc
  -- the manifest, which makes it the generation of the document
  dsimp only at h
  cases hmanifest : atomicWrite faults.manifest
    (Disk.putManifest (.new (p.generation + 1) p.totalRecords)) d₂ with
  | mk ok d₃ =>
  rw [hmanifest] at h
  have hkept₃ : Kept backend contains
      (d₂.putManifest (.new (p.generation + 1) p.totalRecords)) b acked :=
    hkept₂.putManifest (Nat.le_succ_of_le hrunning.le)
  have hput : ∀ g, Stays d₂ (d₂.putManifest (.new (p.generation + 1) p.totalRecords)) g :=
    fun g => .of_eq rfl rfl
  rcases atomicWrite_cases hmanifest with ⟨rfl, rfl | rfl⟩ | ⟨rfl, hd₃⟩
  · cases h
    exact ⟨hkept₂, hrunning₂⟩
  · cases h
    refine ⟨hkept₃, hrunning₂.le, hrunning₂.loadable.stays (hput _), hrunning₂.sound.stays (hput _),
      fun manifest hm => .inr ?_⟩
    obtain rfl := ManifestFile.parsed.inj (Option.some.inj hm)
    exact ⟨hfresh.1.stays (hput _), hfresh.2.stays (hput _)⟩
  · cases h
    refine ⟨(hd₃ ▸ hkept₃.syncDirectory).removeOldGenerations _ _, ?_⟩
    have hstays : Stays d₂ (removeOldGenerations (p.generation + 1) faults.removals d₃)
        (p.generation + 1) := by
      rw [hd₃]
      exact ((hput _).trans (stays_syncDirectory _ _)).trans
        (stays_removeOldGenerations _ _ le_rfl)
    refine ⟨hlt.le, hfresh.1.stays hstays, hfresh.2.sound.stays hstays, fun manifest hm => .inl ?_⟩
    rw [Disk.manifest_removeOldGenerations, hd₃] at hm
    obtain rfl := ManifestFile.parsed.inj (Option.some.inj hm)
    rfl

end Compact

/-! ### Loading -/

section Load

variable {manifest : Manifest} {snapshot : Bytes} {file : File} {replay : Replay}

/-- The cut of a load. -/
theorem Scan.rewritten (h : Scan backend d manifest snapshot file replay) {faults : TruncateFaults}
    {ok : Bool} (htruncate : truncateLog manifest.generation replay.bytes faults d = (ok, d')) :
    Rewritten backend d d' manifest.generation [] := by
  obtain ⟨updates, tail, -, hcontent, -, -, hbytes⟩ := h.replayed
  have hstep : FileStep backend [] file (file.resize replay.bytes) :=
    hbytes ▸ FileStep.resize hcontent
  rcases truncateLog_cases htruncate with ⟨-, rfl⟩ | ⟨_, f, -, hf, -, -, -, rfl⟩ | ⟨_, -, -, rfl⟩
  · exact .refl h.file_eq
  · rcases hf with rfl | rfl
    · exact rewritten_modifyLog h.file_eq hstep
    · exact rewritten_modifyLog (f := fun file => (file.resize replay.bytes).sync) h.file_eq
        hstep.sync
  · exact (rewritten_modifyLog (f := fun file => (file.resize replay.bytes).sync) h.file_eq
      hstep.sync).syncDirectory

/-- It keeps what the segment holds. -/
theorem Scan.at_cut (h : Scan backend d manifest snapshot file replay) {faults : TruncateFaults}
    {ok : Bool} (htruncate : truncateLog manifest.generation replay.bytes faults d = (ok, d'))
    (hg : manifest.generation = b) (hat : At backend contains d b acked) :
    At backend contains d' b acked := by
  subst hg
  have hcut : ∀ f : File → File, (f = File.resize replay.bytes ∨
      f = fun file => (file.resize replay.bytes).sync) →
      At backend contains (d.modifyLog manifest.generation f) manifest.generation acked := by
    intro f hf
    obtain ⟨folded, logged, hacked, hfolded, hlogged⟩ := hat
    refine ⟨folded, logged, hacked, hfolded, fun file' hfile' => ?_⟩
    rw [Disk.logSlot_modifyLog, if_pos rfl, Slot.images_modify, h.file_eq] at hfile'
    rcases List.mem_cons.mp hfile' with hnew | hlost
    · obtain rfl : file' = f file := Option.some.inj hnew
      obtain ⟨updates, henc, hsub, hpre, haccepted⟩ :=
        hlogged file (h.file_eq ▸ Slot.now_mem_images _)
      exact ⟨updates, henc, hsub, h.kept_cut hf henc hpre, haccepted⟩
    · exact hlogged file' (List.mem_cons_of_mem _ hlost)
  rcases truncateLog_cases htruncate with ⟨-, rfl⟩ | ⟨_, f, -, hf, -, -, -, rfl⟩ | ⟨_, -, -, rfl⟩
  · exact hat
  · exact hcut f hf
  · exact (hcut _ (.inr rfl)).fewer (stays_syncDirectory _ _).fewer

theorem Scan.kept (h : Scan backend d manifest snapshot file replay) {faults : TruncateFaults}
    {ok : Bool} (htruncate : truncateLog manifest.generation replay.bytes faults d = (ok, d'))
    (hkept : Kept backend contains d b acked) : Kept backend contains d' b acked := by
  have hrewritten := h.rewritten htruncate
  refine ⟨fun image hi => hkept.manifests image (hrewritten.manifest image hi), ?_, fun g hg => ?_⟩
  · by_cases heq : manifest.generation = b
    · exact h.at_cut htruncate heq hkept.at_
    · exact hkept.at_.fewer (hrewritten.others b (Ne.symm heq)).fewer
  · by_cases heq : g = manifest.generation
    · subst heq
      rintro ⟨⟨bytes, hbytes⟩, -⟩
      have hfile : some file ∈ (d.logSlot manifest.generation).images :=
        h.file_eq ▸ Slot.now_mem_images _
      exact (hkept.above _ hg ⟨⟨bytes, hrewritten.snapshot _ hbytes⟩, ⟨file, hfile⟩⟩).mono
        fun bytes => hrewritten.snapshot _
    · exact (hkept.above g hg).fewer (hrewritten.others g heq).fewer

theorem Rewritten.running (h : Rewritten backend d d' manifest.generation [])
    (hnow : d.manifest.now = some (.parsed manifest)) (hrunning : Running backend d b g) :
    Running backend d' b g := by
  have hload : ∀ g, Loadable backend d g → Loadable backend d' g := by
    intro g hload
    by_cases heq : g = manifest.generation
    · subst heq
      exact h.loadable hload
    · exact hload.stays (h.others g heq)
  refine ⟨hrunning.le, hload g hrunning.loadable, ?_, fun manifest' hm => ?_⟩
  · by_cases heq : g = manifest.generation
    · subst heq
      exact h.sound hrunning.sound nofun fun _ _ _ _ => trivial
    · exact hrunning.sound.stays (h.others g heq)
  · rw [h.manifest_now, hnow, Option.some_inj] at hm
    obtain rfl := ManifestFile.parsed.inj hm
    refine (hrunning.other manifest hnow).imp id fun ⟨hl, hblank⟩ => ⟨hload _ hl, ?_⟩
    intro file' hfile'
    obtain ⟨file, file₁, hfile, hfile₁, hstep⟩ := h.log
    obtain rfl := Option.some.inj (hfile₁.symm.trans hfile')
    obtain ⟨file₀, hfile₀, hmagic, -⟩ := hl.log _ (Slot.now_mem_images _)
    obtain rfl := Option.some.inj (hfile.symm.trans hfile₀)
    have hpre : file₁.content <+: logMagic := by
      rcases hstep.content with hold | hnew
      · rwa [hblank file hfile] at hold
      · rwa [encodeSegment, encodeRecords_nil, List.append_nil] at hnew
    have hmagic' := (hstep.magic hmagic).trans (File.kept_isPrefix_content file₁)
    exact hpre.eq_of_length (le_antisymm hpre.length_le hmagic'.length_le)

theorem Rewritten.stopped (h : Rewritten backend d d' g updates) (hstopped : Stopped backend d b) :
    Stopped backend d' b := by
  obtain ⟨g', hle, hload⟩ := hstopped.loadable
  refine ⟨⟨g', hle, ?_⟩, fun g' image hi image' hi' => ?_, fun g' => ?_⟩
  · by_cases heq : g' = g
    · subst heq
      exact h.loadable hload
    · exact hload.stays (h.others g' heq)
  · have hsub : ∀ image ∈ (d'.snapshotSlot g').images, image ∈ (d.snapshotSlot g').images := by
      by_cases heq : g' = g
      · subst heq
        exact h.snapshot
      · exact (h.others g' heq).snapshot
    exact hstopped.snapshots g' image (hsub image hi) image' (hsub image' hi')
  · refine List.eq_nil_iff_forall_not_mem.mpr fun image hi => ?_
    have hold : image ∈ (d.logSlot g').lost := by
      by_cases heq : g' = g
      · subst heq
        exact h.lost image hi
      · exact (h.others g' heq).lost image hi
    rw [hstopped.logs g'] at hold
    cases hold

/-- What a successful load has read, decodes. -/
theorem loadExisting_decodes {faults : LoadFaults} {loaded : Loaded}
    (h : loadExisting backend .recoverInterruptedAppend faults d = (.ok loaded, d')) :
    ∃ manifest bytes snapshot, d.manifest.now = some (.parsed manifest) ∧
      (d.snapshotSlot manifest.generation).now = some bytes ∧
      decodeSnapshot backend bytes = .ok snapshot ∧
      decodeDoc backend snapshot = .ok ⟨snapshot, []⟩ := by
  unfold loadExisting findManifest at h
  cases hmanifest : readManifest faults.readManifest d with
  | error error =>
      rw [hmanifest] at h
      cases h
  | ok manifest =>
      rw [hmanifest] at h
      obtain ⟨hnow, u, hvalid⟩ := readManifest_ok hmanifest
      unfold loadManifest loadGeneration at h
      dsimp only at h
      cases hdoc : loadSnapshot backend manifest faults.generation d with
      | error error =>
          rw [hdoc] at h
          cases h
      | ok doc =>
          obtain ⟨bytes, snapshot, hread, hdecode, hdecoded⟩ := loadSnapshot_decodes hdoc
          rw [(validate_ok hvalid).1] at hread
          exact ⟨manifest, bytes, snapshot, hnow, hread, hdecode,
            decodeDoc_ok hdecoded ▸ hdecoded⟩

/-- A load whose generation is as a running process needs it. -/
theorem Running.loaded (h : Scan backend d manifest snapshot file replay)
    (hkept : Kept backend contains d b acked) {d₁ : Disk} (removals : Removals)
    (hload : Loadable backend d₁ manifest.generation)
    (hsound : Sound backend d₁ manifest.generation)
    (hrewritten : Rewritten backend d d₁ manifest.generation []) :
    Running backend (removeOldGenerations manifest.generation removals d₁) b
      manifest.generation := by
  have hstays := stays_removeOldGenerations removals d₁ (le_refl manifest.generation)
  refine ⟨?_, hload.stays hstays, hsound.stays hstays, fun manifest' hm => ?_⟩
  · obtain ⟨manifest', heq, hle⟩ := hkept.manifests _ (Slot.now_mem_images _)
    rw [h.manifest_eq, Option.some_inj] at heq
    obtain rfl := ManifestFile.parsed.inj heq
    exact hle
  · rw [Disk.manifest_removeOldGenerations, hrewritten.manifest_now, h.manifest_eq,
      Option.some_inj] at hm
    obtain rfl := ManifestFile.parsed.inj hm
    exact .inl rfl

/-- After a crash, what was read is all there is. -/
theorem Stopped.loadable_manifest (hstopped : Stopped backend d b)
    (hrec : Recoverable backend contains d acked)
    (h : Scan backend d manifest snapshot file replay)
    (hdoc : decodeDoc backend snapshot = .ok ⟨snapshot, []⟩) :
    Loadable backend d manifest.generation := by
  obtain ⟨bytes, hbytes, hdecode⟩ := h.snapshot_eq
  constructor
  · intro image hi
    have heq := hstopped.snapshots _ image hi _ (Slot.now_mem_images _)
    exact ⟨bytes, snapshot, heq.trans hbytes, hdecode, hdoc⟩
  · intro image hi
    rw [Slot.images, hstopped.logs, List.mem_singleton, h.file_eq] at hi
    subst hi
    obtain ⟨manifest', hm, folded, logged, -, -, hlogged⟩ :=
      hrec _ (Slot.now_mem_images d.manifest)
    rw [h.manifest_eq, Option.some_inj] at hm
    obtain rfl := ManifestFile.parsed.inj hm
    have hmagic := (hlogged file (h.file_eq ▸ Slot.now_mem_images _)).magic
    exact ⟨file, rfl, hmagic, (replayLog_ok h.replay_eq).1⟩

/-- Every record of a segment that was replayed after a crash is accepted. -/
theorem Stopped.sound_manifest (hstopped : Stopped backend d b)
    (h : Scan backend d manifest snapshot file replay) {d₁ : Disk}
    (hd₁ : replay.repaired = false ∧ d₁ = d ∨ ∃ faults,
      truncateLog manifest.generation replay.bytes faults d = (true, d₁)) :
    Sound backend d₁ manifest.generation := by
  obtain ⟨bytes, hbytes, hdecode⟩ := h.snapshot_eq
  obtain ⟨-, updates, tail, haccepts, hcontent, htail, hreplay⟩ := replayLog_ok h.replay_eq
  have hupdates : replay.doc.updates = updates := by
    rw [hreplay]
    rfl
  have henc : ∀ u ∈ updates, Encodable u := by
    obtain ⟨us, -, hus, -, -, hdoc, -⟩ := h.replayed
    rw [← hupdates, hdoc]
    exact hus
  -- What the segment is now: the records that were replayed.
  have hnow : ∃ file₁, (d₁.logSlot manifest.generation).now = some file₁ ∧
      file₁.content = encodeSegment backend updates := by
    rcases hd₁ with ⟨hrepaired, rfl⟩ | ⟨faults, htruncate⟩
    · refine ⟨file, h.file_eq, ?_⟩
      rw [hcontent, htail hrepaired, List.append_nil]
    · rcases truncateLog_cases htruncate with ⟨hok, -⟩ | ⟨_, _, -, -, hok, -⟩ | ⟨_, -, -, rfl⟩
      · cases hok
      · cases hok
      · refine ⟨(file.resize replay.bytes).sync, ?_, ?_⟩
        · rw [Disk.logSlot_syncDirectory, Disk.logSlot_modifyLog, if_pos rfl]
          show (d.logSlot manifest.generation).now.map _ = _
          rw [h.file_eq]
          rfl
        · rw [← hupdates]
          exact h.content_cut (f := fun file => (file.resize replay.bytes).sync) (.inr rfl)
  have hsnapshots : ∀ image ∈ (d₁.snapshotSlot manifest.generation).images, image = some bytes := by
    intro image hi
    have hold : image ∈ (d.snapshotSlot manifest.generation).images := by
      rcases hd₁ with ⟨-, rfl⟩ | ⟨faults, htruncate⟩
      · exact hi
      · exact (h.rewritten htruncate).snapshot image hi
    exact (hstopped.snapshots _ image hold _ (Slot.now_mem_images _)).trans hbytes
  intro file₁ hfile₁ us hus hpre bytes' snapshot' hbytes' hdecode'
  obtain ⟨file₂, hfile₂, hcontent₂⟩ := hnow
  obtain rfl := Option.some.inj (hfile₁.symm.trans hfile₂)
  obtain rfl := Option.some.inj (hsnapshots _ hbytes')
  obtain rfl : snapshot = snapshot' := Except.ok.inj (hdecode.symm.trans hdecode')
  obtain ⟨rest, rfl⟩ := encodeSegment_isPrefix hus henc (hcontent₂ ▸ hpre)
  exact haccepts.of_append

theorem RepairInv.load {faults : LoadFaults} {result : Except StorageError Loaded}
    (hkept : Kept backend contains d b acked) (hrec : Recoverable backend contains d acked)
    (h : loadExisting backend .recoverInterruptedAppend faults d = (result, d')) :
    Kept backend contains d' b acked ∧
      (∀ loaded, result = .ok loaded → (∃ g, Running backend d b g) ∨ Stopped backend d b →
        Running backend d' b loaded.persistence.generation) ∧
      (∀ error, result = .error error → (∀ g, Running backend d b g → Running backend d' b g) ∧
        (Stopped backend d b → Stopped backend d' b)) := by
  rcases loadExisting_cases h with ⟨error, rfl, rfl⟩ |
    ⟨manifest, snapshot, file, replay, hscan, hcase⟩
  · exact ⟨hkept, nofun, fun _ _ => ⟨fun _ h => h, fun h => h⟩⟩
  rcases hcase with ⟨error, rfl, htruncate⟩ | ⟨d₁, rfl, rfl, hwritten⟩
  · have hrewritten := hscan.rewritten htruncate
    exact ⟨hscan.kept htruncate hkept, nofun, fun _ _ =>
      ⟨fun _ hr => hrewritten.running hscan.manifest_eq hr, hrewritten.stopped⟩⟩
  have hrewritten : Rewritten backend d d₁ manifest.generation [] := by
    rcases hwritten with ⟨-, rfl⟩ | htruncate
    · exact .refl hscan.file_eq
    · exact hscan.rewritten htruncate
  have hkept₁ : Kept backend contains d₁ b acked := by
    rcases hwritten with ⟨-, rfl⟩ | htruncate
    · exact hkept
    · exact hscan.kept htruncate hkept
  refine ⟨hkept₁.removeOldGenerations _ _, fun loaded hloaded hready => ?_, nofun⟩
  obtain rfl := Except.ok.inj hloaded
  show Running backend _ b manifest.generation
  rcases hready with ⟨g, hrunning⟩ | hstopped
  · have hready : Loadable backend d manifest.generation ∧ Sound backend d manifest.generation := by
      rcases hrunning.other manifest hscan.manifest_eq with rfl | ⟨hload, hblank⟩
      · exact ⟨hrunning.loadable, hrunning.sound⟩
      · exact ⟨hload, hblank.sound⟩
    exact .loaded hscan hkept _ (hrewritten.loadable hready.1)
      (hrewritten.sound hready.2 nofun fun _ _ _ _ => trivial) hrewritten
  · obtain ⟨manifest', bytes, snapshot', hnow, hbytes, hdecode, hdoc⟩ := loadExisting_decodes h
    rw [hscan.manifest_eq, Option.some_inj] at hnow
    obtain rfl := ManifestFile.parsed.inj hnow
    obtain ⟨bytes', hbytes', hdecode'⟩ := hscan.snapshot_eq
    obtain rfl := Option.some.inj (hbytes.symm.trans hbytes')
    obtain rfl : snapshot' = snapshot := Except.ok.inj (hdecode.symm.trans hdecode')
    have hload := hstopped.loadable_manifest hrec hscan hdoc
    refine .loaded hscan hkept _ (hrewritten.loadable hload) ?_ hrewritten
    exact hstopped.sound_manifest hscan (hwritten.imp id fun htruncate => ⟨_, htruncate⟩)

end Load

/-! ### Crashes -/

/-- A crash lengthens no segment. -/
def Shortens (d image : Disk) : Prop :=
  ∀ g file', (image.logSlot g).now = some file' → ∃ file, some file ∈ (d.logSlot g).images ∧
    file.Survives file' ∧ file'.content.length ≤ file.content.length

theorem Loadable.crash (h : Loadable backend d g) (hcrash : Crash d d') (hshort : Shortens d d') :
    Loadable backend d' g := by
  constructor
  · intro image hi
    exact h.snapshot image ((hcrash.snapshots g).mem_images image hi)
  · intro image hi
    obtain ⟨hlost, image₀, himage₀, hrel⟩ := hcrash.logs g
    rw [Slot.images, hlost, List.mem_singleton] at hi
    subst hi
    obtain ⟨file₀, rfl, -, -⟩ := h.log image₀ himage₀
    cases hnow : (d'.logSlot g).now with
    | none =>
        rw [hnow] at hrel
        cases hrel
    | some file' =>
        obtain ⟨file, hfile, hsurvives, hle⟩ := hshort g file' hnow
        obtain ⟨file₁, hfile₁, hmagic, hlength⟩ := h.log _ hfile
        obtain rfl := Option.some.inj hfile₁
        exact ⟨file', rfl, hmagic.trans (File.kept_of_survives hsurvives), hle.trans hlength⟩

theorem RepairInv.crash (hkept : Kept backend contains d b acked) (hcrash : Crash d d')
    (hshort : Shortens d d') (hload : ∃ g, b ≤ g ∧ Loadable backend d g) :
    Kept backend contains d' b acked ∧ Stopped backend d' b := by
  have hsnapshots : ∀ g, ∀ bytes, some bytes ∈ (d'.snapshotSlot g).images →
      some bytes ∈ (d.snapshotSlot g).images :=
    fun g bytes hb => (hcrash.snapshots g).mem_images _ hb
  refine ⟨⟨fun image hi => ?_, ?_, fun g hg hcomplete => ?_⟩, ?_, fun g => ?_, fun g => ?_⟩
  · exact hkept.manifests image (hcrash.manifest.mem_images image hi)
  · obtain ⟨folded, logged, hacked, hfolded, hlogged⟩ := hkept.at_
    refine ⟨folded, logged, hacked, hfolded.mono (hsnapshots b), fun file' hfile' => ?_⟩
    obtain ⟨file, hfile, hsurvives⟩ := (hcrash.logs b).exists_image hfile'
    obtain ⟨updates, henc, hsub, hpre, haccepted⟩ := hlogged file hfile
    exact ⟨updates, henc, hsub, hpre.trans (File.kept_of_survives hsurvives),
      fun bytes snapshot hb => haccepted bytes snapshot (hsnapshots b bytes hb)⟩
  · obtain ⟨⟨bytes, hbytes⟩, ⟨file', hfile'⟩⟩ := hcomplete
    obtain ⟨file, hfile, -⟩ := (hcrash.logs g).exists_image hfile'
    exact (hkept.above g hg ⟨⟨bytes, hsnapshots g bytes hbytes⟩, ⟨file, hfile⟩⟩).mono (hsnapshots g)
  · obtain ⟨g, hle, hg⟩ := hload
    exact ⟨g, hle, hg.crash hcrash hshort⟩
  · intro image hi image' hi'
    rw [Slot.images, (hcrash.snapshots g).1, List.mem_singleton] at hi hi'
    rw [hi, hi']
  · exact (hcrash.logs g).1

end Realtime.Storage
