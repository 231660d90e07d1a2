import Mathlib.Tactic
import Realtime.Storage.Repair

/-!
# A repair after any run

A damaged manifest is the one file a repair does not need. Where nothing has been appended
beside a complete generation of a higher number, the generation a repair finds holds all
acknowledged updates. A compaction whose manifest could not be written leaves such a
generation, and nothing removes it when the document is loaded again.
-/

namespace Realtime.Storage

open Lib Lib.Durable

/-! ## Runs -/

variable (backend : Backend) (emptyState : Bytes) (contains : Bytes → Bytes → Prop)

/-- What the document and the file system promise: an acknowledged update has been integrated,
a snapshot is one of the document, and a crash keeps what is synced and adds nothing. -/
def Promised (s : Store) : Op → Prop
  | .appendUpdate update _ => ∀ p, s.persistence = some p → Integrates backend p s.disk update
  | .compact snapshot _ =>
      (∀ u ∈ s.acked, contains snapshot u) ∧ decodeDoc backend snapshot = .ok ⟨snapshot, []⟩
  | .crash image => Crash s.disk image ∧ Shortens s.disk image
  | _ => True

/-- No append goes to a generation that has a complete one above it. -/
def Topmost (s : Store) : Op → Prop
  | .appendUpdate _ _ => ∀ p, s.persistence = some p → ∀ g, p.generation < g → ¬Complete s.disk g
  | _ => True

/-- The states reached from a created document. -/
def RunsTo (allowed : Store → Op → Prop) (s : Store) : Prop :=
  ∃ snapshot loaded d, decodeDoc backend snapshot = .ok ⟨snapshot, []⟩ ∧
    createDocument backend snapshot = .ok (loaded, d) ∧
    Relation.ReflTransGen
      (fun t t' => ∃ op, Promised backend contains t op ∧ allowed t op ∧
        t' = t.step backend emptyState op)
      ⟨some loaded.persistence, d, [], none⟩ s

/-- The directory with another manifest, which cannot be read. -/
structure Damaged (d d' : Disk) : Prop where
  snapshots : d'.snapshots = d.snapshots
  logs : d'.logs = d.logs
  unreadable : ∀ manifest, readManifest true d' ≠ .ok manifest

/-- A repair of the damaged directory loads all acknowledged updates. -/
def SurvivesDamage (s : Store) : Prop :=
  ∀ damaged loaded d, Damaged s.disk damaged →
    loadExisting backend .repair noFaults damaged = (.ok loaded, d) →
    HoldsAcked contains loaded.doc s.acked

variable {backend contains} {emptyState} {d d' : Disk} {acked : List Bytes} {b : Nat}

theorem Promised.permitted {s : Store} {op : Op} (h : Promised backend contains s op) :
    Permitted contains s op := by
  cases op with
  | compact snapshot faults => exact h.1
  | crash image => exact h.1
  | appendUpdate | discardLastRecord | reload | loadOrCreate => trivial

/-! ## The invariant, step by step -/

theorem RepairInv.created {snapshot : Bytes} {loaded : Loaded}
    (hdoc : decodeDoc backend snapshot = .ok ⟨snapshot, []⟩)
    (h : createDocument backend snapshot = .ok (loaded, d)) :
    RepairInv backend contains ⟨some loaded.persistence, d, [], none⟩ 0 := by
  unfold createDocument at h
  split at h
  · cases h
  rename_i hlarge
  cases h
  have hlength := not_lt.mp hlarge
  have hsnapshots : ∀ g, 0 < g → ((freshDisk backend snapshot).snapshotSlot g) = .empty := by
    intro g hg
    unfold Disk.snapshotSlot freshDisk
    rw [Assoc.get_cons, if_neg hg.ne]
    rfl
  have hload : Loadable backend (freshDisk backend snapshot) 0 := by
    constructor
    · intro image hi
      obtain rfl := List.mem_singleton.mp hi
      exact ⟨_, snapshot, rfl, decodeSnapshot_encodeSnapshot_eq hlength, hdoc⟩
    · intro image hi
      obtain rfl := List.mem_singleton.mp hi
      exact ⟨_, rfl, by rw [File.kept_ofBytes], by decide⟩
  have hblank : Blank (freshDisk backend snapshot) 0 := by
    intro file hfile
    obtain rfl := Option.some.inj hfile
    rfl
  refine ⟨⟨fun image hi => ?_, ⟨[], [], rfl, nofun, fun file hfile => ?_⟩,
    fun g hg hcomplete => ?_⟩, fun p hp => ?_, nofun⟩
  · exact ⟨.new 0 0, List.mem_singleton.mp hi, le_rfl⟩
  · obtain rfl := Option.some.inj (List.mem_singleton.mp hfile)
    refine ⟨[], nofun, List.Sublist.refl _, ?_, fun _ _ _ _ => trivial⟩
    rw [encodeSegment, encodeRecords_nil, List.append_nil, File.kept_ofBytes]
  · obtain ⟨⟨bytes, hbytes⟩, -⟩ := hcomplete
    rw [hsnapshots g hg] at hbytes
    cases List.mem_singleton.mp hbytes
  · obtain rfl := Option.some.inj hp
    refine ⟨le_rfl, hload, hblank.sound, fun manifest hm => .inl ?_⟩
    obtain rfl := ManifestFile.parsed.inj (Option.some.inj hm)
    rfl

theorem RepairInv.of_running {p : DocumentPersistence} {appended : Option Nat}
    (hkept : Kept backend contains d b acked) (hrunning : Running backend d b p.generation) :
    RepairInv backend contains ⟨some p, d, acked, appended⟩ b :=
  ⟨hkept, fun _ hp => Option.some.inj hp ▸ hrunning, nofun⟩

theorem RepairInv.step {s : Store} {op : Op} (h : RepairInv backend contains s b)
    (hinv : Inv backend contains s) (hpromised : Promised backend contains s op)
    (hsheltered : Sheltered s op) (htopmost : Topmost s op) :
    ∃ b', RepairInv backend contains (s.step backend emptyState op) b' := by
  have hnext : Inv backend contains (s.step backend emptyState op) :=
    hinv.step hpromised.permitted hsheltered
  cases op with
  | appendUpdate update faults =>
      cases hp : s.persistence with
      | none => exact ⟨b, by simpa [Store.step, hp] using h⟩
      | some p =>
          cases happend : p.appendUpdate backend update faults s.disk with
          | mk result rest =>
              obtain ⟨p', d'⟩ := rest
              simp only [Store.step, hp, happend] at hnext ⊢
              have hstep := RepairInv.append (h.running p hp) (hinv.tracks p hp) (hsheltered p hp)
                (htopmost p hp) (hpromised p hp) happend
              cases result with
              | ok u =>
                  obtain ⟨hkept, hrunning⟩ := hstep _ (hnext.tracks p' rfl)
                  exact ⟨_, .of_running hkept hrunning⟩
              | error error =>
                  obtain ⟨hkept, hrunning⟩ := hstep _ (hnext.tracks p' rfl)
                  exact ⟨_, .of_running hkept hrunning⟩
  | discardLastRecord faults =>
      cases hp : s.persistence with
      | none => exact ⟨b, by simpa [Store.step, hp] using h⟩
      | some p =>
          cases hbefore : s.appended with
          | none => exact ⟨b, by simpa [Store.step, hp, hbefore] using h⟩
          | some before =>
              have happended := hinv.appended p before hp hbefore
              cases hdiscard : p.discardLastRecord before faults s.disk with
              | mk result rest =>
                  obtain ⟨p', d'⟩ := rest
                  simp only [Store.step, hp, hbefore, hdiscard]
                  cases result with
                  | ok u =>
                      obtain ⟨hkept, hrunning⟩ := RepairInv.discard h.kept (h.running p hp)
                        happended hsheltered hdiscard rfl
                      exact ⟨_, .of_running hkept hrunning⟩
                  | error error =>
                      rcases discardLastRecord_spec happended hsheltered hdiscard with
                        ⟨_, -, rfl, rfl⟩ | ⟨-, -, hok⟩
                      · exact ⟨b, .of_running h.kept (h.running p' hp)⟩
                      · cases hok
  | compact snapshot faults =>
      cases hp : s.persistence with
      | none => exact ⟨b, by simpa [Store.step, hp] using h⟩
      | some p =>
          simp only [Store.step, hp]
          obtain ⟨hkept, hrunning⟩ := RepairInv.compact h.kept (h.running p hp) hpromised.1
            hpromised.2 (rfl : p.compact backend snapshot faults s.disk = (_, _, _))
          exact ⟨b, .of_running hkept hrunning⟩
  | reload faults =>
      cases hp : s.persistence with
      | none => exact ⟨b, by simpa [Store.step, hp] using h⟩
      | some p =>
          simp only [Store.step, hp, DocumentPersistence.reload]
          cases hload : loadExisting backend .recoverInterruptedAppend faults s.disk with
          | mk result d' =>
              obtain ⟨hkept, hok, herror⟩ := RepairInv.load h.kept hinv.recoverable hload
              cases result with
              | ok loaded =>
                  exact ⟨b, .of_running hkept (hok loaded rfl (.inl ⟨_, h.running p hp⟩))⟩
              | error error =>
                  exact ⟨b, .of_running hkept ((herror error rfl).1 _ (h.running p hp))⟩
  | crash image =>
      -- a generation that can be loaded, from the one in memory or from the last crash
      have hload : ∃ g, b ≤ g ∧ Loadable backend s.disk g := by
        cases hp : s.persistence with
        | none => exact (h.stopped hp).loadable
        | some p => exact ⟨p.generation, (h.running p hp).le, (h.running p hp).loadable⟩
      obtain ⟨hkept, hstopped⟩ := RepairInv.crash h.kept hpromised.1 hpromised.2 hload
      exact ⟨b, hkept, by rintro _ ⟨⟩, fun _ => hstopped⟩
  | loadOrCreate faults =>
      cases hp : s.persistence with
      | some p => exact ⟨b, by simpa [Store.step, hp] using h⟩
      | none =>
          simp only [Store.step, hp, loadOrCreate_eq hinv.manifest_ne_none]
          cases hload : loadExisting backend .recoverInterruptedAppend faults s.disk with
          | mk result d' =>
              obtain ⟨hkept, hok, herror⟩ := RepairInv.load h.kept hinv.recoverable hload
              cases result with
              | ok loaded =>
                  exact ⟨b, .of_running hkept (hok loaded rfl (.inr (h.stopped hp)))⟩
              | error error =>
                  exact ⟨b, hkept, by rintro _ ⟨⟩, fun _ => (herror error rfl).2 (h.stopped hp)⟩

theorem RepairInv.of_runsTo {s : Store} (h : RunsTo backend emptyState contains
    (fun t op => Sheltered t op ∧ Topmost t op) s) :
    Inv backend contains s ∧ ∃ b, RepairInv backend contains s b := by
  obtain ⟨snapshot, loaded, d, hdoc, hcreate, hrun⟩ := h
  induction hrun with
  | refl => exact ⟨.created hcreate, 0, .created hdoc hcreate⟩
  | tail _ hstep ih =>
      obtain ⟨op, hpromised, ⟨hsheltered, htopmost⟩, rfl⟩ := hstep
      obtain ⟨hinv, b, hrepair⟩ := ih
      exact ⟨hinv.step hpromised.permitted hsheltered,
        hrepair.step hinv hpromised hsheltered htopmost⟩

/-! ## What a repair loads -/

variable (backend) in
/-- A generation that a repair can load, and what it makes of it. -/
structure Found (d : Disk) (g : Nat) (snapshot : Bytes) (file : File) (replay : Replay) : Prop where
  snapshot_eq : ∃ bytes, (d.snapshotSlot g).now = some bytes ∧
    decodeSnapshot backend bytes = .ok snapshot
  doc_eq : decodeDoc backend snapshot = .ok ⟨snapshot, []⟩
  file_eq : (d.logSlot g).now = some file
  replay_eq : replayLog backend .repair ⟨snapshot, []⟩ file.content = .ok replay

/-- The directory once the segment is cut. -/
def mended (d : Disk) (g : Nat) (replay : Replay) : Disk :=
  if replay.repaired then
    (d.modifyLog g fun file => (file.resize replay.bytes).sync).syncDirectory
  else d

section Found

variable {g : Nat} {snapshot : Bytes} {file : File} {replay : Replay}

theorem Loadable.found (h : Loadable backend d g) :
    ∃ snapshot file replay, Found backend d g snapshot file replay := by
  obtain ⟨bytes, snapshot, hbytes, hdecode, hdoc⟩ := h.snapshot _ (Slot.now_mem_images _)
  obtain ⟨file, hfile, hmagic, hlength⟩ := h.log _ (Slot.now_mem_images _)
  obtain ⟨replay, hreplay⟩ : ∃ r, replayRecords backend .repair ⟨snapshot, []⟩
      (file.content.drop logMagic.length) logMagic.length 0 = .ok r := replayRecords_repair ..
  have hstart := hmagic.trans (File.kept_isPrefix_content file)
  exact ⟨snapshot, file, replay, ⟨bytes, hbytes, hdecode⟩, hdoc, hfile,
    (replayLog_eq (not_lt.mpr hlength) hstart).trans hreplay⟩

theorem Found.loadGeneration (h : Found backend d g snapshot file replay) (total : Nat) :
    loadGeneration backend .repair (.new g total) noFaults.generation d =
      (.ok (loadedFrom (.new g total) replay), mended d g replay) := by
  obtain ⟨bytes, hbytes, hdecode⟩ := h.snapshot_eq
  have hsnapshot : loadSnapshot backend (.new g total) noFaults.generation d =
      .ok ⟨snapshot, []⟩ := by
    have hread : d.read (.snapshot g) = some bytes := hbytes
    unfold loadSnapshot
    simp only [noFaults, Manifest.new, if_true, hread]
    have hvalid : (Manifest.new g total).validate = .ok () := by
      simp [Manifest.validate, Manifest.new]
    have hsuccess : (decodeDoc backend snapshot).mapError StorageError.corrupt =
        .ok ⟨snapshot, []⟩ := by
      rw [h.doc_eq]
      rfl
    rw [hdecode]
    show ((Manifest.new g total).validate.mapError StorageError.corrupt >>= fun _ =>
      (decodeDoc backend snapshot).mapError StorageError.corrupt) = _
    rw [hvalid, hsuccess]
    rfl
  have hread : d.read (.log g) = some file.content := by
    show (d.logSlot g).now.map File.content = _
    rw [h.file_eq]
    rfl
  have hreplay : replayFile backend .repair g (.log g) ⟨snapshot, []⟩ noFaults.generation d =
      (.ok replay, mended d g replay) := by
    unfold replayFile mended
    simp only [noFaults, if_true, hread, h.replay_eq]
    cases hrepaired : replay.repaired with
    | false => rfl
    | true =>
        have htruncate : truncateLog g replay.bytes ⟨.synced, true⟩ d =
            (true, (d.modifyLog g fun file =>
              (file.resize replay.bytes).sync).syncDirectory) := by
          unfold truncateLog resizeLog
          rw [h.file_eq]
          rfl
        simp only [if_true, htruncate]
  unfold Storage.loadGeneration
  rw [hsnapshot]
  dsimp only
  rw [show (Manifest.new g total).updates = .log g from rfl,
    show (Manifest.new g total).generation = g from rfl, hreplay]
  rfl

variable (backend) in
/-- What a repair cannot load, it leaves alone. -/
theorem loadGeneration_repair (d : Disk) (g total : Nat) :
    (∃ error, loadGeneration backend .repair (.new g total) noFaults.generation d =
      (.error error, d)) ∨
    ∃ snapshot file replay, Found backend d g snapshot file replay := by
  cases hdoc : loadSnapshot backend (.new g total) noFaults.generation d with
  | error error =>
      refine .inl ⟨error, ?_⟩
      rw [loadGeneration, hdoc]
  | ok doc =>
      obtain ⟨bytes, snapshot, hread, hdecode, hdecoded⟩ := loadSnapshot_decodes hdoc
      obtain rfl := decodeDoc_ok hdecoded
      cases hlog : (d.logSlot g).now with
      | none =>
          refine .inl ⟨.io, ?_⟩
          have hnone : d.read (.log g) = none := by
            show (d.logSlot g).now.map File.content = _
            rw [hlog]
            rfl
          rw [loadGeneration, hdoc]
          simp only [replayFile, Manifest.new, noFaults, if_true, hnone]
      | some file =>
          have hcontent : d.read (.log g) = some file.content := by
            show (d.logSlot g).now.map File.content = _
            rw [hlog]
            rfl
          cases hreplay : replayLog backend .repair ⟨snapshot, []⟩ file.content with
          | error corruption =>
              refine .inl ⟨.corrupt corruption, ?_⟩
              rw [loadGeneration, hdoc]
              simp only [replayFile, Manifest.new, noFaults, if_true, hcontent, hreplay]
          | ok replay =>
              exact .inr ⟨snapshot, file, replay, ⟨bytes, hread, hdecode⟩, hdecoded, hlog, hreplay⟩

/-- The segment that was cut is read again without one. -/
theorem Found.again (h : Found backend d g snapshot file replay) (manifest : Manifest) :
    ∃ file' replay', replay'.doc = replay.doc ∧
      Found backend ((mended d g replay).putManifest manifest).syncDirectory g snapshot file'
        replay' := by
  obtain ⟨hlength, updates, tail, hall, hcontent, htail, hreplay⟩ := replayLog_ok h.replay_eq
  have hsnapshot : ∃ bytes, ((((mended d g replay).putManifest manifest).syncDirectory).snapshotSlot
      g).now = some bytes ∧ decodeSnapshot backend bytes = .ok snapshot := by
    obtain ⟨bytes, hbytes, hdecode⟩ := h.snapshot_eq
    refine ⟨bytes, ?_, hdecode⟩
    rw [Disk.snapshotSlot_syncDirectory, Disk.snapshotSlot_putManifest]
    unfold mended
    split
    · rw [Disk.snapshotSlot_syncDirectory, Disk.snapshotSlot_modifyLog]
      exact hbytes
    · exact hbytes
  cases hrepaired : replay.repaired with
  | false =>
      refine ⟨file, replay, rfl, hsnapshot, h.doc_eq, ?_, h.replay_eq⟩
      rw [Disk.logSlot_syncDirectory, Disk.logSlot_putManifest, mended, hrepaired]
      exact h.file_eq
  | true =>
      have hbytes : replay.bytes = (encodeSegment backend updates).length := by rw [hreplay]
      have hfits : (encodeSegment backend updates).length ≤ maxLogBytes := by
        rw [hcontent, List.length_append] at hlength
        omega
      have hdoc : replay.doc = Doc.extend ⟨snapshot, []⟩ updates := by rw [hreplay]
      refine ⟨(file.resize replay.bytes).sync,
        ⟨Doc.extend ⟨snapshot, []⟩ updates, (encodeSegment backend updates).length, updates.length,
          false⟩, hdoc.symm, hsnapshot, h.doc_eq, ?_, ?_⟩
      · rw [Disk.logSlot_syncDirectory, Disk.logSlot_putManifest, mended, hrepaired, if_pos rfl,
          Disk.logSlot_syncDirectory, Disk.logSlot_modifyLog, if_pos rfl]
        show (d.logSlot g).now.map _ = _
        rw [h.file_eq]
        rfl
      · show replayLog backend .repair ⟨snapshot, []⟩ (file.resize replay.bytes).content = _
        rw [hbytes, File.content_resize hcontent, replayLog_segment .repair hall hfits]

/-- The search stops at the highest generation that can be loaded. -/
theorem tryGenerations_found {L : Nat} {generations : List Nat}
    (hfound : Found backend d L snapshot file replay) (hmem : L ∈ generations)
    (hsorted : generations.Pairwise (· ≥ ·)) :
    ∃ g snapshot file replay, L ≤ g ∧ Found backend d g snapshot file replay ∧
      tryGenerations backend noFaults.recoverManifest generations d =
        (.ok (.new g 0), ((mended d g replay).putManifest (.new g 0)).syncDirectory) := by
  induction generations with
  | nil => cases hmem
  | cons g older ih =>
      rw [List.pairwise_cons] at hsorted
      -- what cannot be loaded is not `L`
      have hskip : (∀ snapshot file replay, ¬Found backend d g snapshot file replay) →
          ∃ g snapshot file replay, L ≤ g ∧ Found backend d g snapshot file replay ∧
            tryGenerations backend noFaults.recoverManifest older d =
              (.ok (.new g 0), ((mended d g replay).putManifest (.new g 0)).syncDirectory) := by
        intro hnone
        rcases List.mem_cons.mp hmem with rfl | holder
        · exact absurd hfound (hnone _ _ _)
        · exact ih holder hsorted.2
      cases hlog : (d.logSlot g).now with
      | none =>
          rw [tryGenerations, hlog, Option.isNone_none, if_pos rfl]
          refine hskip fun _ _ _ h => ?_
          rw [h.file_eq] at hlog
          cases hlog
      | some file' =>
          rw [tryGenerations, hlog, Option.isNone_some, if_neg Bool.false_ne_true]
          rcases loadGeneration_repair backend d g 0 with
            ⟨error, herror⟩ | ⟨snapshot', file', replay', hg⟩
          · rw [show noFaults.recoverManifest.attempts g = noFaults.generation from rfl, herror]
            refine hskip fun _ _ _ h => ?_
            rw [h.loadGeneration 0] at herror
            cases herror
          · have hle : L ≤ g := by
              rcases List.mem_cons.mp hmem with rfl | holder
              · exact le_rfl
              · exact hsorted.1 L holder
            refine ⟨g, snapshot', file', replay', hle, hg, ?_⟩
            rw [show noFaults.recoverManifest.attempts g = noFaults.generation from rfl,
              hg.loadGeneration 0]
            rfl

/-- A repair of a directory without a manifest loads the highest generation that it can. -/
theorem loadExisting_repair {L : Nat} (hmanifest : ∀ manifest, readManifest true d ≠ .ok manifest)
    (hfound : Found backend d L snapshot file replay) :
    ∃ g snapshot file replay loaded d', L ≤ g ∧ Found backend d g snapshot file replay ∧
      loadExisting backend .repair noFaults d = (.ok loaded, d') ∧ loaded.doc = replay.doc := by
  have hmem : L ∈ ((Assoc.keys d.snapshots).filter fun g =>
      (d.snapshotSlot g).now.isSome).insertionSort (· ≥ ·) := by
    obtain ⟨bytes, hbytes, -⟩ := hfound.snapshot_eq
    rw [List.mem_insertionSort, List.mem_filter, hbytes]
    refine ⟨?_, rfl⟩
    rw [← Assoc.get_isSome_iff]
    cases hget : Assoc.get L d.snapshots with
    | some _ => rfl
    | none =>
        rw [Disk.snapshotSlot, hget] at hbytes
        cases hbytes
  obtain ⟨g, snapshot', file', replay', hle, hg, htry⟩ :=
    tryGenerations_found hfound hmem (List.pairwise_insertionSort (· ≥ ·) _)
  obtain ⟨file₁, replay₁, hdoc, hagain⟩ := hg.again (.new g 0)
  have hrecover : recoverManifest backend noFaults.recoverManifest d =
      (.ok (.new g 0), ((mended d g replay').putManifest (.new g 0)).syncDirectory) := htry
  cases hread : readManifest noFaults.readManifest d with
  | ok manifest => exact absurd hread (hmanifest manifest)
  | error error =>
      have hfind : findManifest backend .repair noFaults d =
          (.ok (.new g 0, true),
            ((mended d g replay').putManifest (.new g 0)).syncDirectory) := by
        unfold findManifest
        rw [hread]
        dsimp only
        rw [if_pos rfl, hrecover]
      unfold loadExisting loadManifest
      rw [hfind]
      dsimp only
      rw [hagain.loadGeneration 0]
      exact ⟨g, snapshot', file', replay', _, _, hle, hg, rfl, hdoc⟩

/-- Whatever a repair finds from `b` on holds what was acknowledged. -/
theorem Found.holdsAcked (h : Found backend d g snapshot file replay)
    (hat : At backend contains d b acked) (habove : ∀ g, b < g → Above backend contains d g acked)
    (hle : b ≤ g) : HoldsAcked contains replay.doc acked := by
  obtain ⟨bytes, hbytes, hdecode⟩ := h.snapshot_eq
  have hbytes : some bytes ∈ (d.snapshotSlot g).images := hbytes ▸ Slot.now_mem_images _
  have hfile : some file ∈ (d.logSlot g).images := h.file_eq ▸ Slot.now_mem_images _
  obtain ⟨hlength, updates, tail, -, hcontent, -, hreplay⟩ := replayLog_ok h.replay_eq
  have hdoc : replay.doc = ⟨snapshot, updates⟩ := by
    rw [hreplay]
    rfl
  rcases hle.eq_or_lt with rfl | hlt
  · obtain ⟨folded, logged, hacked, hfolded, hlogged⟩ := hat
    obtain ⟨synced, henc, hsub, hpre, haccepted⟩ := hlogged file hfile
    obtain ⟨rest, hrest⟩ := hpre.trans (File.kept_isPrefix_content file)
    have haccepts := haccepted bytes snapshot hbytes hdecode
    -- the records that are synced come first in the replay
    have hreplayed := h.replay_eq
    rw [← hrest] at hlength hreplayed
    rw [replayLog_accepted .repair haccepts hlength] at hreplayed
    obtain ⟨more, -, -, -, -, hmore⟩ := replayRecords_ok hreplayed
    have hupdates : updates = synced ++ more := by
      have heq : replay.doc = (Doc.extend ⟨snapshot, []⟩ synced).extend more := by rw [hmore]
      rw [hdoc, Doc.extend_extend] at heq
      exact congrArg Doc.updates heq
    refine ⟨folded, logged, hacked, ?_, ?_⟩
    · rw [hdoc]
      exact hfolded bytes hbytes snapshot hdecode
    · rw [hdoc, hupdates]
      exact hsub.trans (List.sublist_append_left synced more)
  · refine ⟨acked, [], (List.append_nil acked).symm, ?_, List.nil_sublist _⟩
    rw [hdoc]
    exact habove g hlt ⟨⟨bytes, hbytes⟩, ⟨file, hfile⟩⟩ bytes hbytes snapshot hdecode

end Found

theorem RepairInv.survivesDamage {s : Store} (h : RepairInv backend contains s b) :
    SurvivesDamage backend contains s := by
  intro damaged loaded d hdamaged hload
  have hstays : ∀ g, Stays s.disk damaged g := by
    intro g
    apply Stays.of_eq
    · rw [Disk.snapshotSlot, hdamaged.snapshots]
      rfl
    · rw [Disk.logSlot, hdamaged.logs]
      rfl
  obtain ⟨L, hL, hloadable⟩ : ∃ g, b ≤ g ∧ Loadable backend s.disk g := by
    cases hp : s.persistence with
    | none => exact (h.stopped hp).loadable
    | some p => exact ⟨p.generation, (h.running p hp).le, (h.running p hp).loadable⟩
  obtain ⟨snapshot, file, replay, hfound⟩ := (hloadable.stays (hstays L)).found
  obtain ⟨g, snapshot, file, replay, loaded', d', hle, hg, hrepair, hdoc⟩ :=
    loadExisting_repair hdamaged.unreadable hfound
  rw [hrepair] at hload
  obtain ⟨hok, -⟩ := Prod.mk.inj hload
  obtain rfl := Except.ok.inj hok
  rw [hdoc]
  exact hg.holdsAcked (h.kept.at_.fewer (hstays b).fewer)
    (fun g hb => (h.kept.above g hb).fewer (hstays g).fewer) (hL.trans hle)

/-- In every run whose appends go to the highest complete generation, a damaged manifest costs
no acknowledged update. -/
theorem acked_updates_survive_damage (backend : Backend) (emptyState : Bytes)
    (contains : Bytes → Bytes → Prop) (s : Store)
    (h : RunsTo backend emptyState contains (fun t op => Sheltered t op ∧ Topmost t op) s) :
    SurvivesDamage backend contains s := by
  obtain ⟨-, b, hrepair⟩ := RepairInv.of_runsTo h
  exact hrepair.survivesDamage

/-! ## Two runs -/

theorem sample_integrates (p : DocumentPersistence) (d : Disk) :
    Integrates sampleBackend p d sampleUpdate :=
  fun _ _ _ _ _ _ => ⟨by decide, rfl, rfl⟩

/-- A directory with the files of one generation. -/
theorem topmost_of_slots {p : DocumentPersistence}
    (hslots : ∀ g, p.generation < g → d.snapshotSlot g = .empty) :
    ∀ g, p.generation < g → ¬Complete d g := by
  rintro g hg ⟨⟨bytes, hbytes⟩, -⟩
  rw [hslots g hg] at hbytes
  cases List.mem_singleton.mp hbytes

/-- A torn append, one that cuts it off and is acknowledged, and a compaction. -/
theorem acked_updates_survive_damage_torn_append :
    let torn := Op.appendUpdate sampleUpdate ⟨.failed, .partly 5, .failed⟩
    let again := Op.appendUpdate sampleUpdate ⟨.synced, .synced, .failed⟩
    let compact := Op.compact sampleUpdate ⟨.synced, .synced, .synced, allRemovals⟩
    let s := sampleStep (sampleStep (sampleStep sampleStore torn) again) compact
    s.acked = [sampleUpdate] ∧ SurvivesDamage sampleBackend Eq s := by
  intro torn again compact s
  have hslots : ∀ g, 0 < g → Disk.snapshotSlot (sampleStep sampleStore torn).disk g = .empty := by
    intro g hg
    show (Assoc.get g _).getD Slot.empty = _
    rw [show (sampleStep sampleStore torn).disk.snapshots =
      (freshDisk sampleBackend emptyUpdate).snapshots from rfl, freshDisk, Assoc.get_cons,
      if_neg hg.ne]
    rfl
  have htorn : Sheltered sampleStore torn ∧ Topmost sampleStore torn := by
    refine ⟨fun p hp => ?_, fun p hp => ?_⟩
    · obtain rfl := Option.some.inj hp
      exact ⟨fun image himage => ⟨_, List.mem_singleton.mp himage, rfl⟩, rfl⟩
    · obtain rfl := Option.some.inj hp
      exact topmost_of_slots hslots
  have hagain : Sheltered (sampleStep sampleStore torn) again ∧
      Topmost (sampleStep sampleStore torn) again := by
    have hp' : (sampleStep sampleStore torn).persistence =
        some { freshPersistence with appendFailed := true } := rfl
    refine ⟨fun p hp => ?_, fun p hp => ?_⟩
    · obtain rfl := Option.some.inj (hp'.symm.trans hp)
      exact ⟨fun image himage => ⟨_, List.mem_singleton.mp himage, rfl⟩, rfl⟩
    · obtain rfl := Option.some.inj (hp'.symm.trans hp)
      exact topmost_of_slots hslots
  have hcompact : Promised sampleBackend Eq (sampleStep (sampleStep sampleStore torn) again)
      compact :=
    ⟨fun u hu => (List.mem_singleton.mp (hu : u ∈ [sampleUpdate])).symm, rfl⟩
  refine ⟨rfl, acked_updates_survive_damage _ emptyUpdate _ _ ?_⟩
  refine ⟨emptyUpdate, ⟨⟨emptyUpdate, []⟩, freshPersistence⟩,
    freshDisk sampleBackend emptyUpdate, rfl, rfl, ?_⟩
  have happends : ∀ t faults, Promised sampleBackend Eq t (.appendUpdate sampleUpdate faults) :=
    fun t faults p _ => sample_integrates p t.disk
  refine .tail (.tail (.tail .refl ⟨torn, happends _ _, htorn, rfl⟩)
    ⟨again, happends _ _, hagain, rfl⟩) ?_
  exact ⟨compact, hcompact, ⟨trivial, trivial⟩, rfl⟩

/-- A crash cuts a compaction short before it writes the manifest, and the next append goes to
the old generation: once the manifest is damaged, the repair loads the new one without it. -/
theorem not_acked_updates_survive_damage :
    ¬∀ (backend : Backend) (emptyState : Bytes) (contains : Bytes → Bytes → Prop) (s : Store),
      RunsTo backend emptyState contains (fun _ _ => True) s →
      SurvivesDamage backend contains s := by
  intro h
  let compact := Op.compact emptyUpdate ⟨.synced, .synced, .failed, allRemovals⟩
  let s₁ := sampleStep sampleStore compact
  let crash := Op.crash (flushed s₁.disk)
  let append := Op.appendUpdate sampleUpdate ⟨.failed, .synced, .failed⟩
  let s := sampleStep (sampleStep (sampleStep s₁ crash) (.loadOrCreate noFaults)) append
  have hcrash : Promised sampleBackend Eq s₁ crash := by
    refine ⟨crash_flushed _, fun g file' hfile' => ?_⟩
    have hlogs : (flushed s₁.disk).logSlot g = ⟨(s₁.disk.logSlot g).now.map File.sync, []⟩ := by
      unfold Disk.logSlot flushed
      dsimp only
      rw [Assoc.get_mapValues fun slot : Slot File => (⟨slot.now.map File.sync, []⟩ : Slot File)]
      cases Assoc.get g s₁.disk.logs <;> rfl
    rw [hlogs] at hfile'
    obtain ⟨file, hfile, rfl⟩ := Option.map_eq_some_iff.mp hfile'
    exact ⟨file, hfile ▸ Slot.now_mem_images _, ⟨File.kept_isPrefix_content file, rfl⟩, le_rfl⟩
  have hreached : RunsTo sampleBackend emptyUpdate Eq (fun _ _ => True) s := by
    refine ⟨emptyUpdate, ⟨⟨emptyUpdate, []⟩, freshPersistence⟩,
      freshDisk sampleBackend emptyUpdate, rfl, rfl, ?_⟩
    have hcompact : Promised sampleBackend Eq sampleStore compact :=
      ⟨List.forall_mem_nil _, rfl⟩
    have happend : Promised sampleBackend Eq
        (sampleStep (sampleStep s₁ crash) (.loadOrCreate noFaults)) append :=
      fun p _ => sample_integrates p _
    exact .tail (.tail (.tail (.tail .refl ⟨compact, hcompact, trivial, rfl⟩)
      ⟨crash, hcrash, trivial, rfl⟩) ⟨.loadOrCreate noFaults, trivial, trivial, rfl⟩)
      ⟨append, happend, trivial, rfl⟩
  -- the load comes back to generation 0
  have hload : sampleStep (sampleStep s₁ crash) (.loadOrCreate noFaults) =
      ⟨some (loadedFrom (.new 0 0) ⟨⟨emptyUpdate, []⟩, logMagic.length, 0, false⟩).persistence,
        removeOldGenerations 0 allRemovals (flushed s₁.disk), [], none⟩ := by
    have hmanifest : readManifest noFaults.readManifest (flushed s₁.disk) = .ok (.new 0 0) := rfl
    have hsnapshot : loadSnapshot sampleBackend (.new 0 0) noFaults.generation (flushed s₁.disk) =
        .ok ⟨emptyUpdate, []⟩ := rfl
    have hlog : (flushed s₁.disk).read (.log 0) = some logMagic := rfl
    have hgeneration : loadGeneration sampleBackend .recoverInterruptedAppend (.new 0 0)
        noFaults.generation (flushed s₁.disk) =
        (.ok (loadedFrom (.new 0 0) ⟨⟨emptyUpdate, []⟩, logMagic.length, 0, false⟩),
          flushed s₁.disk) := by
      unfold loadGeneration replayFile
      rw [hsnapshot]
      simp only [noFaults, if_true, Manifest.new, hlog, replayLog_logMagic]
      rfl
    have hexisting : loadExisting sampleBackend .recoverInterruptedAppend noFaults
        (flushed s₁.disk) =
        (.ok (loadedFrom (.new 0 0) ⟨⟨emptyUpdate, []⟩, logMagic.length, 0, false⟩),
          removeOldGenerations 0 allRemovals (flushed s₁.disk)) := by
      unfold loadExisting findManifest loadManifest
      rw [hmanifest]
      dsimp only
      rw [hgeneration]
      rfl
    show Store.step sampleBackend emptyUpdate ⟨none, flushed s₁.disk, [], none⟩ _ = _
    simp only [Store.step]
    rw [loadOrCreate_eq (show (flushed s₁.disk).manifest.now ≠ none from Option.some_ne_none _),
      hexisting]
  have hs : s.acked = [sampleUpdate] ∧
      (∀ g, 1 < g → s.disk.snapshotSlot g = .empty) ∧
      (s.disk.snapshotSlot 1).now = some (encodeSnapshot sampleBackend emptyUpdate) ∧
      (s.disk.logSlot 1).now = some (.ofBytes logMagic) := by
    have hstep : s = sampleStep _ append := rfl
    rw [hload] at hstep
    rw [hstep]
    refine ⟨rfl, fun g hg => ?_, rfl, rfl⟩
    show (Assoc.get g [(0, _), (1, _)]).getD Slot.empty = _
    rw [Assoc.get_cons, if_neg (by omega), Assoc.get_cons, if_neg (by omega)]
    rfl
  obtain ⟨hacked, habove, hsnapshot, hlog⟩ := hs
  -- generation 1 is what a repair finds
  let damaged : Disk := { s.disk with manifest := ⟨some .garbled, []⟩ }
  have hdamaged : Damaged s.disk damaged := ⟨rfl, rfl, by rintro _ ⟨⟩⟩
  have hdecode : decodeSnapshot sampleBackend (encodeSnapshot sampleBackend emptyUpdate) =
      .ok emptyUpdate := decodeSnapshot_encodeSnapshot_eq (by decide)
  have hfound : Found sampleBackend damaged 1 emptyUpdate (.ofBytes logMagic)
      ⟨⟨emptyUpdate, []⟩, logMagic.length, 0, false⟩ :=
    ⟨⟨_, hsnapshot, hdecode⟩, rfl, hlog, replayLog_logMagic _ _⟩
  obtain ⟨g, snapshot, file, replay, loaded, d', hle, hg, hrepair, hdoc⟩ :=
    loadExisting_repair hdamaged.unreadable hfound
  obtain rfl : g = 1 := by
    by_contra hne
    obtain ⟨bytes, hbytes, -⟩ := hg.snapshot_eq
    rw [show damaged.snapshotSlot g = s.disk.snapshotSlot g from rfl,
      habove g (by omega)] at hbytes
    cases hbytes
  have hreplay : replay.doc = ⟨emptyUpdate, []⟩ := by
    obtain ⟨bytes, hbytes, hdecode'⟩ := hg.snapshot_eq
    obtain rfl := Option.some.inj (hsnapshot.symm.trans hbytes)
    obtain rfl := Except.ok.inj (hdecode.symm.trans hdecode')
    obtain rfl := Option.some.inj (hlog.symm.trans hg.file_eq)
    obtain rfl := Except.ok.inj ((replayLog_logMagic _ _).symm.trans hg.replay_eq)
    rfl
  obtain ⟨folded, logged, heq, hfolded, hlogged⟩ :=
    h sampleBackend emptyUpdate Eq s hreached damaged loaded d' hdamaged hrepair
  rw [hdoc, hreplay] at hlogged hfolded
  have hnil : logged = [] := List.sublist_nil.mp hlogged
  rw [hacked, hnil, List.append_nil] at heq
  have hmem : sampleUpdate ∈ folded := heq ▸ List.mem_singleton_self _
  exact absurd (hfolded sampleUpdate hmem) (by decide)

end Realtime.Storage
