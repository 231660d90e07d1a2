import Realtime.Epoch.Activation

/-!
# A retried activation

An attempt that stops behind the rename of the replacement leaves it on disk, and
the next attempt loads it. As long as nothing is acknowledged in between, it still
has the values of the current epoch. An update that is acknowledged while the
replacement is there is not in it, and the activation drops it.
-/

namespace Realtime.Epoch

open Lib Lib.Durable

variable {yrs : Yrs}

section

variable (digest : String → String) (documentId : String)

/-- The directory of an epoch. -/
def Disk.epochSlot (d : Disk yrs) (epoch : UInt64) : Slot (Directory yrs) :=
  d.slot (physicalOf digest documentId epoch)

/-- The current epochs a crash can come back to; without a manifest it is zero. -/
def Disk.epochs (d : Disk yrs) : List UInt64 :=
  d.manifest.images.map fun m => (m.map fun m => m.current.epoch).getD 0

/-- No replacement of this epoch is on disk. -/
def NoReplacement (d : Disk yrs) (epoch : UInt64) : Prop :=
  ∀ next : UInt64, next.toNat = epoch.toNat + 1 →
    ∀ document, some (.committed document) ∉ (d.epochSlot digest documentId next).images

/-- A crash keeps what is synced. -/
def Crashes (d image : Disk yrs) : Prop :=
  d.manifest.Survives Eq image.manifest ∧
    ∀ physical, (d.slot physical).Survives Eq (image.slot physical)

def StoreOp.Permitted {Update : Type} (s : Store yrs) : StoreOp yrs Update → Prop
  | .crash image => Crashes s.disk image
  | _ => True

/-- No update is acknowledged while there is a replacement of the current epoch, be
it the one in memory or on disk, and no epoch is cleaned up that may be current
after a crash. -/
def StoreOp.Quiet {Update : Type} (s : Store yrs) : StoreOp yrs Update → Prop
  | .applyUpdate _ _ => ∀ m, s.runtime = some m →
      ∀ epoch ∈ m.current.epoch :: s.disk.epochs, NoReplacement digest documentId s.disk epoch
  | .cleanup _ _ => ∀ m, s.runtime = some m → ∀ epoch ∈ s.disk.epochs, epoch = m.current.epoch
  | _ => True

variable (measurements : Document yrs → UInt64 × UInt64)
  {Update : Type} (applyUpdate : Update → Document yrs → Option (Document yrs))

/-- The states reached from an empty root. -/
def Store.Reached (allowed : Store yrs → StoreOp yrs Update → Prop) (s : Store yrs) : Prop :=
  Relation.ReflTransGen
    (fun t t' => ∃ op : StoreOp yrs Update, op.Permitted t ∧ allowed t op ∧
      t' = t.step digest documentId measurements applyUpdate op)
    ⟨⟨.empty, []⟩, none, none⟩ s

/-! ## The invariant -/

/-- One directory is the replacement of another: whatever a crash leaves of them,
they have the same values. -/
def CopyOf (source copy : Slot (Directory yrs)) : Prop :=
  ∀ document, some (.committed document) ∈ copy.images →
    ∀ image ∈ source.images, ∃ original, image = some (.committed original) ∧
      SameRoots original.doc document.doc

/-- From this epoch on, each directory is a replacement of the one before. -/
def Copies (d : Disk yrs) (epoch : UInt64) : Prop :=
  ∀ a b : UInt64, epoch.toNat ≤ a.toNat → b.toNat = a.toNat + 1 →
    CopyOf (d.epochSlot digest documentId a) (d.epochSlot digest documentId b)

/-- What the manifest in memory says about the disk. -/
structure RuntimeInv (s : Store yrs) (m : EpochManifest) : Prop where
  manifest : Inv digest documentId m
  below : ∀ epoch ∈ s.disk.epochs, epoch.toNat ≤ m.current.epoch.toNat
  /-- An epoch that is only current in memory has been written. -/
  written : ∀ epoch ∈ s.disk.epochs, ∀ k : UInt64, epoch.toNat < k.toNat →
    k.toNat ≤ m.current.epoch.toNat →
    ∃ document, (s.disk.epochSlot digest documentId k).now = some (.committed document)
  live : ∀ k document, s.live = some (k, document) → k.toNat ≤ m.current.epoch.toNat ∧
    (k = m.current.epoch → ∃ stored,
      (s.disk.epochSlot digest documentId k).now = some (.committed stored) ∧
        SameRoots document.doc stored.doc)

structure StoreInv (s : Store yrs) : Prop where
  manifests : ∀ m, some m ∈ s.disk.manifest.images → Inv digest documentId m
  copies : ∀ epoch ∈ s.disk.epochs, Copies digest documentId s.disk epoch
  closed : s.runtime = none → s.live = none ∧
    ∀ a ∈ s.disk.epochs, ∀ b ∈ s.disk.epochs, a = b
  runtime : ∀ m, s.runtime = some m → RuntimeInv digest documentId s m

end

variable {digest : String → String} {documentId : String} {d d' : Disk yrs} {epoch k : UInt64}

theorem physicalOf_injective
    (hid : ∀ epoch, physicalDocumentId digest documentId epoch ≠ documentId)
    {a b : UInt64} (h : physicalOf digest documentId a = physicalOf digest documentId b) :
    a = b := by
  unfold physicalOf at h
  split at h
  · rename_i ha
    split at h
    · rename_i hb
      rw [ha, hb]
    · exact absurd h.symm (hid b)
  · split at h
    · exact absurd h (hid a)
    · exact physicalDocumentId_injective h

theorem CopyOf.mono {source copy source' copy' : Slot (Directory yrs)} (h : CopyOf source copy)
    (hsource : ∀ image ∈ source'.images, image ∈ source.images)
    (hcopy : ∀ image ∈ copy'.images, image ∈ copy.images) : CopyOf source' copy' :=
  fun document hdocument image himage =>
    h document (hcopy _ hdocument) image (hsource image himage)

theorem Copies.mono (h : Copies digest documentId d epoch)
    (hslots : ∀ k : UInt64, epoch.toNat ≤ k.toNat →
      ∀ image ∈ (d'.epochSlot digest documentId k).images,
        image ∈ (d.epochSlot digest documentId k).images) :
    Copies digest documentId d' epoch := by
  intro a b ha hb
  exact (h a b ha hb).mono (hslots a ha) (hslots b (by omega))

theorem Copies.later (h : Copies digest documentId d epoch) {later : UInt64}
    (hle : epoch.toNat ≤ later.toNat) : Copies digest documentId d later :=
  fun a b ha hb => h a b (by omega) hb

/-- Where an epoch's directory shows nothing, there is no replacement of it. -/
theorem Copies.noReplacement (h : Copies digest documentId d epoch)
    (hle : epoch.toNat ≤ k.toNat)
    (hnow : ∀ document, (d.epochSlot digest documentId k).now ≠ some (.committed document)) :
    NoReplacement digest documentId d k := by
  intro next hnext document hmem
  obtain ⟨original, hnow', -⟩ := h k next hle hnext document hmem _ (Slot.now_mem_images _)
  exact hnow original hnow'

variable (digest documentId) in
/-- Only the directory of one epoch is changed. -/
structure Frame (d d' : Disk yrs) (k : UInt64) : Prop where
  manifest : d.manifest.Settles d'.manifest
  slots : ∀ j, j ≠ k →
    (d.epochSlot digest documentId j).Settles (d'.epochSlot digest documentId j)

theorem Frame.refl (d : Disk yrs) (k : UInt64) : Frame digest documentId d d k :=
  ⟨.refl _, fun _ _ => .refl _⟩

theorem Frame.trans {d'' : Disk yrs} (h : Frame digest documentId d d' k)
    (h' : Frame digest documentId d' d'' k) : Frame digest documentId d d'' k :=
  ⟨h.manifest.trans h'.manifest, fun j hj => (h.slots j hj).trans (h'.slots j hj)⟩

theorem Frame.sync (d : Disk yrs) (k : UInt64) : Frame digest documentId d d.syncRoot k := by
  refine ⟨Slot.settles_sync _, fun j _ => ?_⟩
  rw [Disk.epochSlot, Disk.epochSlot, Disk.slot_syncRoot]
  exact Slot.settles_sync _

theorem Frame.epochs (h : Frame digest documentId d d' k) :
    ∀ epoch ∈ d'.epochs, epoch ∈ d.epochs := by
  intro epoch hepoch
  obtain ⟨m, hm, rfl⟩ := List.mem_map.mp hepoch
  exact List.mem_map_of_mem (h.manifest.images m hm)

/-! ## Directories -/

/-- A directory that shows no document is changed. -/
theorem Copies.change (h : Copies digest documentId d epoch) (hle : epoch.toNat ≤ k.toNat)
    (hnow : ∀ document, (d.epochSlot digest documentId k).now ≠ some (.committed document))
    (hslots : ∀ j, j ≠ k →
      (d.epochSlot digest documentId j).Settles (d'.epochSlot digest documentId j))
    (hcopy : ∀ a : UInt64, epoch.toNat ≤ a.toNat → k.toNat = a.toNat + 1 →
      CopyOf (d'.epochSlot digest documentId a) (d'.epochSlot digest documentId k)) :
    Copies digest documentId d' epoch := by
  intro a b ha hb
  by_cases hbk : b = k
  · subst hbk
    exact hcopy a ha hb
  · by_cases hak : a = k
    · subst hak
      -- there is no replacement of the directory, neither before nor after
      intro document hdocument
      exact absurd ((hslots b hbk).images _ hdocument) (h.noReplacement hle hnow b hb document)
    · exact (h a b ha hb).mono (hslots a hak).images (hslots b hbk).images

theorem Copies.sync (h : Copies digest documentId d epoch) :
    Copies digest documentId d.syncRoot epoch := by
  apply h.mono
  intro k _ image himage
  rw [Disk.epochSlot, Disk.slot_syncRoot] at himage
  exact (Slot.settles_sync _).images image himage

theorem now_syncRoot (d : Disk yrs) (k : UInt64) :
    (d.syncRoot.epochSlot digest documentId k).now = (d.epochSlot digest documentId k).now := by
  rw [Disk.epochSlot, Disk.slot_syncRoot]
  rfl

variable (digest documentId) in
/-- What an epoch's directory is before a document is written to it. -/
structure Source (d : Disk yrs) (epoch k : UInt64) (document : Document yrs) : Prop where
  le : epoch.toNat ≤ k.toNat
  copies : Copies digest documentId d epoch
  original : (∀ document, (d.epochSlot digest documentId k).now ≠ some (.committed document)) →
    ∀ a : UInt64, epoch.toNat ≤ a.toNat → k.toNat = a.toNat + 1 →
    ∃ original, (d.epochSlot digest documentId a).now = some (.committed original) ∧
      SameRoots original.doc document.doc

theorem Source.sync {document : Document yrs} (h : Source digest documentId d epoch k document) :
    Source digest documentId d.syncRoot epoch k document := by
  refine ⟨h.le, h.copies.sync, fun hnow a ha hk => ?_⟩
  rw [now_syncRoot] at hnow ⊢
  exact h.original hnow a ha hk

section Directories

variable (hid : ∀ epoch, physicalDocumentId digest documentId epoch ≠ documentId)
  {document : Document yrs} {result : Option (Document yrs)}
include hid

theorem epochSlot_put (directory : Directory yrs) (j : UInt64) :
    (d.put (physicalOf digest documentId k) directory).epochSlot digest documentId j =
      if k = j then (d.epochSlot digest documentId j).put directory
      else d.epochSlot digest documentId j := by
  rw [Disk.epochSlot, Disk.slot_put]
  by_cases h : k = j
  · rw [if_pos h, if_pos (congrArg _ h)]
    rfl
  · rw [if_neg h, if_neg fun heq => h (physicalOf_injective hid heq)]
    rfl

theorem epochSlot_remove (j : UInt64) :
    (d.remove (physicalOf digest documentId k)).epochSlot digest documentId j =
      if k = j then (d.epochSlot digest documentId j).remove
      else d.epochSlot digest documentId j := by
  rw [Disk.epochSlot, Disk.slot_remove]
  by_cases h : k = j
  · rw [if_pos h, if_pos (congrArg _ h)]
    rfl
  · rw [if_neg h, if_neg fun heq => h (physicalOf_injective hid heq)]
    rfl

theorem frame_put (directory : Directory yrs) :
    Frame digest documentId d (d.put (physicalOf digest documentId k) directory) k := by
  refine ⟨.refl _, fun j hj => ?_⟩
  rw [epochSlot_put hid, if_neg (Ne.symm hj)]
  exact .refl _

/-- The replacement is renamed into a root that is synced. -/
theorem Source.put (h : Source digest documentId d epoch k document)
    (hnow : ∀ document, (d.epochSlot digest documentId k).now ≠ some (.committed document)) :
    Copies digest documentId
      (d.syncRoot.put (physicalOf digest documentId k) (.committed document)) epoch := by
  refine h.copies.sync.change h.le ?_ (frame_put hid _).slots ?_
  · rw [now_syncRoot]
    exact hnow
  · intro a ha hk new hnew image himage
    obtain ⟨original, horiginal, hsame⟩ := h.original hnow a ha hk
    have hne : k ≠ a := by
      rintro rfl
      omega
    rw [epochSlot_put hid, if_neg hne, Disk.epochSlot, Disk.slot_syncRoot, Slot.images_sync,
      List.mem_singleton] at himage
    rw [epochSlot_put hid, if_pos rfl, Disk.epochSlot, Disk.slot_syncRoot, Slot.images_put,
      Slot.images_sync] at hnew
    rcases List.mem_cons.mp hnew with hnew | hnew
    · obtain rfl := Directory.committed.inj (Option.some.inj hnew)
      exact ⟨original, himage.trans horiginal, hsame⟩
    · exact absurd (List.mem_singleton.mp hnew).symm (hnow new)

theorem createDocument_spec {faults : CreateFaults}
    (hnow : ∀ document, (d.epochSlot digest documentId k).now ≠ some (.committed document))
    (h : createDocument (physicalOf digest documentId k) document faults d = (result, d')) :
    Frame digest documentId d d' k ∧
    (∀ epoch, Source digest documentId d epoch k document →
      Copies digest documentId d' epoch) ∧
    ∀ new, result = some new → new = document ∧
      (d'.epochSlot digest documentId k).now = some (.committed document) := by
  have hput : (Disk.epochSlot digest documentId
      (d.syncRoot.put (physicalOf digest documentId k) (.committed document)) k).now =
        some (.committed document) := by
    rw [epochSlot_put hid, if_pos rfl]
    rfl
  have hframe := (Frame.sync d k).trans (frame_put (d := d.syncRoot) hid (.committed document))
  unfold createDocument Disk.commit at h
  split at h
  · cases h
    exact ⟨.refl _ _, fun _ hsource => hsource.copies, fun _ hnew => nomatch hnew⟩
  · cases hrename : faults.rename with
    | failed =>
        rw [hrename] at h
        cases h
        exact ⟨.sync _ _, fun _ hsource => hsource.copies.sync, fun _ hnew => nomatch hnew⟩
    | unsynced =>
        rw [hrename] at h
        cases h
        exact ⟨hframe, fun _ hsource => hsource.put hid hnow, fun _ hnew => nomatch hnew⟩
    | synced =>
        rw [hrename] at h
        cases h
        refine ⟨hframe.trans (.sync _ _), fun _ hsource => (hsource.put hid hnow).sync, ?_⟩
        intro new hnew
        refine ⟨(Option.some.inj hnew).symm, ?_⟩
        rw [now_syncRoot]
        exact hput

/-- Debris is removed. -/
theorem Source.remove (h : Source digest documentId d epoch k document)
    (hnow : ∀ document, (d.epochSlot digest documentId k).now ≠ some (.committed document)) :
    Source digest documentId (d.remove (physicalOf digest documentId k)) epoch k document := by
  have hslots : ∀ j, j ≠ k → (d.epochSlot digest documentId j).Settles
      ((d.remove (physicalOf digest documentId k)).epochSlot digest documentId j) := by
    intro j hj
    rw [epochSlot_remove hid, if_neg (Ne.symm hj)]
    exact .refl _
  refine ⟨h.le, h.copies.change h.le hnow hslots ?_, ?_⟩
  · intro a ha hk new hnew
    have hne : a ≠ k := by
      rintro rfl
      omega
    rw [epochSlot_remove hid, if_pos rfl, Slot.images_remove] at hnew
    have hnew' := (List.mem_cons.mp hnew).resolve_left (Option.some_ne_none _)
    intro image himage
    exact h.copies a k ha hk new hnew' image ((hslots a hne).images image himage)
  · intro _ a ha hk
    have hne : a ≠ k := by
      rintro rfl
      omega
    rw [(hslots a hne).now]
    exact h.original hnow a ha hk

theorem frame_remove : Frame digest documentId d (d.remove (physicalOf digest documentId k)) k := by
  refine ⟨.refl _, fun j hj => ?_⟩
  rw [epochSlot_remove hid, if_neg (Ne.symm hj)]
  exact .refl _

/-- What is committed is loaded, and else the document is written. -/
theorem createOrLoadReplacement_spec {faults : LoadFaults}
    (h : createOrLoadReplacement (physicalOf digest documentId k) document faults d =
      (result, d')) :
    Frame digest documentId d d' k ∧
    (∀ epoch, Source digest documentId d epoch k document →
      Copies digest documentId d' epoch) ∧
    (∀ stored, (d.epochSlot digest documentId k).now = some (.committed stored) → d' = d) ∧
    ∀ new, result = some new → ∃ stored,
      (d'.epochSlot digest documentId k).now = some (.committed stored) ∧
        SameRoots new.doc stored.doc ∧
        ((d.epochSlot digest documentId k).now = some (.committed stored) ∨ new = document) := by
  unfold createOrLoadReplacement at h
  split at h
  · cases h
    exact ⟨.refl _ _, fun _ hsource => hsource.copies, fun _ _ => rfl, fun _ hnew => nomatch hnew⟩
  · rw [show d.slot (physicalOf digest documentId k) = d.epochSlot digest documentId k from rfl]
      at h
    cases hnow : (d.epochSlot digest documentId k).now with
    | none =>
        rw [hnow] at h
        have hne : ∀ document, (d.epochSlot digest documentId k).now ≠
            some (.committed document) := by simp [hnow]
        obtain ⟨hframe, hcopies, hnew⟩ := createDocument_spec hid hne h
        refine ⟨hframe, hcopies, (fun _ hstored => nomatch hstored), fun new hresult => ?_⟩
        obtain ⟨rfl, hnow'⟩ := hnew new hresult
        exact ⟨new, hnow', .refl _, .inr rfl⟩
    | some directory =>
        cases directory with
        | committed stored =>
            rw [hnow] at h
            cases h
            refine ⟨.refl _ _, fun _ hsource => hsource.copies, fun _ _ => rfl, fun new hnew => ?_⟩
            obtain rfl := Option.some.inj hnew
            exact ⟨stored, hnow, (sameRoots_reload stored.ok).symm, .inl rfl⟩
        | debris =>
            rw [hnow] at h
            have hne : ∀ document, (d.epochSlot digest documentId k).now ≠
                some (.committed document) := by simp [hnow]
            have hremoved := frame_remove (d := d) (k := k) hid
            unfold Disk.commit at h
            cases hdebris : faults.debris with
            | failed =>
                rw [hdebris] at h
                cases h
                exact ⟨.refl _ _, fun _ hsource => hsource.copies, fun _ _ => rfl,
                  fun _ hnew => nomatch hnew⟩
            | unsynced =>
                rw [hdebris] at h
                cases h
                exact ⟨hremoved, fun _ hsource => (hsource.remove hid hne).copies,
                  (fun _ hstored => nomatch hstored), fun _ hnew => nomatch hnew⟩
            | synced =>
                rw [hdebris] at h
                have hne' : ∀ document, (Disk.epochSlot digest documentId
                    (d.remove (physicalOf digest documentId k)).syncRoot k).now ≠
                      some (.committed document) := by
                  intro document
                  rw [now_syncRoot, epochSlot_remove hid, if_pos rfl]
                  exact fun hfalse => nomatch hfalse
                obtain ⟨hframe, hcopies, hnew⟩ := createDocument_spec hid hne' h
                refine ⟨(hremoved.trans (.sync _ _)).trans hframe,
                  fun epoch hsource => hcopies epoch (hsource.remove hid hne).sync,
                  (fun _ hstored => nomatch hstored), fun new hresult => ?_⟩
                obtain ⟨rfl, hnow'⟩ := hnew new hresult
                exact ⟨new, hnow', .refl _, .inr rfl⟩

end Directories

/-! ## The document of the current epoch -/

section Store

variable {s s' : Store yrs} {m m' : EpochManifest}
  (hid : ∀ epoch, physicalDocumentId digest documentId epoch ≠ documentId)

theorem Disk.epochs_ne_nil (d : Disk yrs) : ∃ epoch, epoch ∈ d.epochs :=
  ⟨_, List.mem_cons_self⟩

/-- An epoch that is written stays so. -/
theorem Frame.written (hframe : Frame digest documentId d d' k)
    (hkept : ∀ stored, (d.epochSlot digest documentId k).now = some (.committed stored) → d' = d)
    {j : UInt64} {document : Document yrs}
    (h : (d.epochSlot digest documentId j).now = some (.committed document)) :
    (d'.epochSlot digest documentId j).now = some (.committed document) := by
  by_cases hj : j = k
  · subst hj
    rw [hkept document h]
    exact h
  · rw [(hframe.slots j hj).now]
    exact h

/-- Below the epoch in memory, everything is written. -/
theorem RuntimeInv.source (h : RuntimeInv digest documentId s m)
    (hcopies : ∀ epoch ∈ s.disk.epochs, Copies digest documentId s.disk epoch)
    (hepoch : epoch ∈ s.disk.epochs) (document : Document yrs) :
    Source digest documentId s.disk epoch m.current.epoch document := by
  refine ⟨h.below epoch hepoch, hcopies epoch hepoch, fun hnow a ha hk => ?_⟩
  obtain ⟨stored, hstored⟩ := h.written epoch hepoch m.current.epoch (by omega) le_rfl
  exact absurd hstored (hnow stored)

/-- The current directory of a store is created. -/
theorem StoreInv.reframe (h : StoreInv digest documentId s) (hm : s.runtime = some m)
    (hframe : Frame digest documentId s.disk d k)
    (hcopies : ∀ epoch ∈ s.disk.epochs, Copies digest documentId d epoch)
    (hkept : ∀ stored, (s.disk.epochSlot digest documentId k).now = some (.committed stored) →
      d = s.disk) {live : Option (UInt64 × Document yrs)}
    (hlive : ∀ k document, live = some (k, document) → k.toNat ≤ m.current.epoch.toNat ∧
      (k = m.current.epoch → ∃ stored,
        (d.epochSlot digest documentId k).now = some (.committed stored) ∧
          SameRoots document.doc stored.doc)) :
    StoreInv digest documentId { s with disk := d, live := live } where
  manifests m hmem := h.manifests m (hframe.manifest.images _ hmem)
  copies epoch hepoch := hcopies epoch (hframe.epochs epoch hepoch)
  closed hnone := by
    rw [show s.runtime = none from hnone] at hm
    cases hm
  runtime m' hm' := by
    obtain rfl := Option.some.inj (hm.symm.trans hm')
    have hrun := h.runtime m hm
    refine ⟨hrun.manifest, fun epoch hepoch => hrun.below epoch (hframe.epochs epoch hepoch),
      fun epoch hepoch j hlt hle => ?_, hlive⟩
    obtain ⟨document, hdocument⟩ :=
      hrun.written epoch (hframe.epochs epoch hepoch) j hlt hle
    exact ⟨document, hframe.written hkept hdocument⟩

/-- The documents in memory are as stored. -/
theorem RuntimeInv.live_of_frame (h : RuntimeInv digest documentId s m)
    (hframe : Frame digest documentId s.disk d k)
    (hkept : ∀ stored, (s.disk.epochSlot digest documentId k).now = some (.committed stored) →
      d = s.disk) (j : UInt64) (document : Document yrs) (hlive : s.live = some (j, document)) :
    j.toNat ≤ m.current.epoch.toNat ∧ (j = m.current.epoch → ∃ stored,
      (d.epochSlot digest documentId j).now = some (.committed stored) ∧
        SameRoots document.doc stored.doc) := by
  obtain ⟨hle, hstored⟩ := h.live j document hlive
  refine ⟨hle, fun hj => ?_⟩
  obtain ⟨stored, hnow, hsame⟩ := hstored hj
  exact ⟨stored, hframe.written hkept hnow, hsame⟩

include hid in
/-- `get_or_load` returns what is stored for the current epoch. -/
theorem getOrLoad_spec (h : StoreInv digest documentId s) (hm : s.runtime = some m)
    {faults : LoadFaults} {result : Option (Document yrs)}
    (hload : getOrLoad m faults s = (result, s')) :
    StoreInv digest documentId s' ∧ s'.runtime = some m ∧
    Frame digest documentId s.disk s'.disk m.current.epoch ∧
    ∀ document, result = some document → s'.live = some (m.current.epoch, document) := by
  have hrun := h.runtime m hm
  unfold getOrLoad loadOrCreate at hload
  split at hload
  · rename_i k document hlive
    obtain ⟨hlive, hk⟩ := Option.filter_eq_some_iff.mp hlive
    cases hload
    refine ⟨h, hm, .refl _ _, fun _ hdocument => ?_⟩
    rw [hlive, ← Option.some.inj hdocument, show k = m.current.epoch from of_decide_eq_true hk]
  · rw [hrun.manifest.current] at hload
    cases hcreate : createOrLoadReplacement (physicalOf digest documentId m.current.epoch) .empty
        faults s.disk with
    | mk loaded d =>
        rw [hcreate] at hload
        obtain ⟨hframe, hcopies, hkept, hloaded⟩ := createOrLoadReplacement_spec hid hcreate
        have hcopies' : ∀ epoch ∈ s.disk.epochs, Copies digest documentId d epoch :=
          fun epoch hepoch => hcopies epoch (hrun.source h.copies hepoch _)
        cases loaded with
        | none =>
            cases hload
            exact ⟨h.reframe hm hframe hcopies' hkept (hrun.live_of_frame hframe hkept), hm, hframe,
              fun _ hnew => nomatch hnew⟩
        | some document =>
            cases hload
            obtain ⟨stored, hnow, hsame, -⟩ := hloaded document rfl
            refine ⟨h.reframe hm hframe hcopies' hkept ?_, hm, hframe, fun _ hnew => ?_⟩
            · intro j document' hlive
              obtain ⟨rfl, rfl⟩ := Prod.mk.inj (Option.some.inj hlive)
              exact ⟨le_rfl, fun _ => ⟨stored, hnow, hsame⟩⟩
            · rw [Option.some.inj hnew]

/-! ## The manifest -/

theorem writeManifest_spec (hm : Inv digest documentId m) {outcome : Commit}
    {result : Except EpochError Unit} (h : writeManifest digest m outcome d = (result, d')) :
    (∀ physical, (d.slot physical).Settles (d'.slot physical)) ∧
    (∀ image ∈ d'.manifest.images, image = some m ∨ image ∈ d.manifest.images) ∧
    (result = .ok () → d'.manifest.images = [some m]) := by
  have hsync : ∀ physical,
      (d.slot physical).Settles ((d.putManifest m).syncRoot.slot physical) := by
    intro physical
    rw [Disk.slot_syncRoot]
    exact Slot.settles_sync (d.slot physical)
  rw [writeManifest, hm.logical, validate_ok hm] at h
  unfold Disk.commit at h
  cases outcome with
  | failed =>
      cases h
      exact ⟨fun _ => .refl _, fun _ himage => .inr himage, fun hok => nomatch hok⟩
  | unsynced =>
      cases h
      exact ⟨fun _ => .refl _, fun _ himage => List.mem_cons.mp himage, fun hok => nomatch hok⟩
  | synced =>
      cases h
      exact ⟨hsync, fun _ himage => .inl (List.mem_singleton.mp himage), fun _ => rfl⟩

theorem mem_epochs_of_images (hnew : ∀ image ∈ d'.manifest.images,
      image = some m ∨ image ∈ d.manifest.images) (hepoch : epoch ∈ d'.epochs) :
    epoch = m.current.epoch ∨ epoch ∈ d.epochs := by
  obtain ⟨image, himage, rfl⟩ := List.mem_map.mp hepoch
  rcases hnew image himage with rfl | himage
  · exact .inl rfl
  · exact .inr (List.mem_map_of_mem himage)

theorem eq_of_mem_epochs (hnew : d.manifest.images = [some m]) (hepoch : epoch ∈ d.epochs) :
    epoch = m.current.epoch := by
  rw [Disk.epochs, hnew] at hepoch
  exact List.mem_singleton.mp hepoch

/-- The manifest in memory is saved, whatever happens to the write. -/
theorem StoreInv.save (h : StoreInv digest documentId s) (hm : s.runtime = some m)
    {outcome : Commit} {result : Except EpochError Unit}
    (hsave : writeManifest digest m outcome s.disk = (result, d)) :
    StoreInv digest documentId { s with disk := d } ∧
    (∀ epoch ∈ d.epochs, epoch = m.current.epoch ∨ epoch ∈ s.disk.epochs) ∧
    (result = .ok () → ∀ epoch ∈ d.epochs, epoch = m.current.epoch) := by
  have hrun := h.runtime m hm
  obtain ⟨hslots, himages, hok⟩ := writeManifest_spec hrun.manifest hsave
  have hepochs : ∀ epoch ∈ d.epochs, epoch = m.current.epoch ∨ epoch ∈ s.disk.epochs :=
    fun _ => mem_epochs_of_images himages
  refine ⟨⟨?_, ?_, ?_, ?_⟩, hepochs, fun hresult _ => eq_of_mem_epochs (hok hresult)⟩
  · intro m' hm'
    rcases himages _ hm' with heq | hmem
    · rw [Option.some.inj heq]
      exact hrun.manifest
    · exact h.manifests m' hmem
  · intro epoch hepoch
    have hcopies : Copies digest documentId s.disk epoch := by
      rcases hepochs epoch hepoch with rfl | hmem
      · obtain ⟨e, he⟩ := s.disk.epochs_ne_nil
        exact (h.copies e he).later (hrun.below e he)
      · exact h.copies epoch hmem
    exact hcopies.mono fun k _ => (hslots _).images
  · intro hnone
    rw [show s.runtime = none from hnone] at hm
    cases hm
  · intro m' hm'
    obtain rfl := Option.some.inj (hm.symm.trans hm')
    refine ⟨hrun.manifest, ?_, ?_, ?_⟩
    · intro epoch hepoch
      rcases hepochs epoch hepoch with rfl | hmem
      · exact le_rfl
      · exact hrun.below epoch hmem
    · intro epoch hepoch k hlt hle
      rcases hepochs epoch hepoch with rfl | hmem
      · omega
      · obtain ⟨document, hdocument⟩ := hrun.written epoch hmem k hlt hle
        exact ⟨document, (hslots _).now.trans hdocument⟩
    · intro k document hlive
      obtain ⟨hle, hstored⟩ := hrun.live k document hlive
      refine ⟨hle, fun hk => ?_⟩
      obtain ⟨stored, hnow, hsame⟩ := hstored hk
      exact ⟨stored, (hslots _).now.trans hnow, hsame⟩

/-- The manifest in memory changes, and its current epoch is kept. -/
theorem StoreInv.setRuntime (h : StoreInv digest documentId s) (hm : s.runtime = some m)
    (hm' : Inv digest documentId m') (hcurrent : m'.current.epoch = m.current.epoch) :
    StoreInv digest documentId { s with runtime := some m' } := by
  have hrun := h.runtime m hm
  refine ⟨h.manifests, h.copies, (fun hnone => nomatch hnone), fun m'' hm'' => ?_⟩
  obtain rfl := Option.some.inj hm''
  refine ⟨hm', ?_, ?_, ?_⟩
  · rw [hcurrent]
    exact hrun.below
  · rw [hcurrent]
    exact hrun.written
  · rw [hcurrent]
    exact hrun.live

/-- The manifest in memory is switched to an epoch that is written. -/
theorem StoreInv.switch (h : StoreInv digest documentId s) (hm : s.runtime = some m)
    (hm' : Inv digest documentId m') (hnext : m'.current.epoch.toNat = m.current.epoch.toNat + 1)
    (hwritten : ∃ document, (s.disk.epochSlot digest documentId m'.current.epoch).now =
      some (.committed document)) :
    StoreInv digest documentId { s with runtime := some m' } := by
  have hrun := h.runtime m hm
  refine ⟨h.manifests, h.copies, (fun hnone => nomatch hnone), fun m'' hm'' => ?_⟩
  obtain rfl := Option.some.inj hm''
  refine ⟨hm', fun e he => ?_, fun e he k hlt hle => ?_, fun k document hlive => ?_⟩
  · have := hrun.below e he
    omega
  · by_cases hk : k = m'.current.epoch
    · rw [hk]
      exact hwritten
    · have hne : k.toNat ≠ m'.current.epoch.toNat := fun heq => hk (UInt64.toNat_inj.mp heq)
      exact hrun.written e he k hlt (by omega)
  · have hle := (hrun.live k document hlive).1
    refine ⟨by omega, fun hk => ?_⟩
    rw [hk] at hle
    omega

include hid in
/-- Removing expired epochs leaves the current one and those after it. -/
theorem epochSlot_sweep (hm : Inv digest documentId m) {swept : Sweep}
    (hswept : ∀ path ∈ swept.attempted, ∃ r ∈ m.retired, path = directoryOf r.physicalDocumentId)
    (faults : ExpiryFaults) (hle : m.current.epoch.toNat ≤ k.toNat) :
    (d.sweep swept faults).epochSlot digest documentId k = d.epochSlot digest documentId k := by
  apply Disk.slot_sweep
  intro hattempted
  obtain ⟨r, hr, hpath⟩ := hswept _ hattempted
  rw [(hm.retired r hr).physical] at hpath
  have hepoch := physicalOf_injective hid (directoryOf_injective hpath)
  have hbelow := UInt64.lt_iff_toNat_lt.mp (hm.below r hr)
  rw [← hepoch] at hbelow
  omega

include hid in
/-- The directories of retired epochs are removed. -/
theorem StoreInv.sweep (h : StoreInv digest documentId s) (hm : s.runtime = some m)
    (hepochs : ∀ epoch ∈ s.disk.epochs, epoch = m.current.epoch) {swept : Sweep}
    (hretained : swept.retained.Sublist m.retired)
    (hswept : ∀ path ∈ swept.attempted, ∃ r ∈ m.retired, path = directoryOf r.physicalDocumentId)
    (faults : ExpiryFaults) :
    StoreInv digest documentId
      { s with
        disk := s.disk.sweep swept faults
        runtime := some { m with retired := swept.retained } } := by
  have hrun := h.runtime m hm
  refine ⟨h.manifests, fun epoch hepoch => ?_, (fun hnone => nomatch hnone), fun m₁ hm₁ => ?_⟩
  · refine (h.copies epoch hepoch).mono fun k hle image himage => ?_
    rw [hepochs epoch hepoch] at hle
    rwa [epochSlot_sweep hid hrun.manifest hswept faults hle] at himage
  · obtain rfl := Option.some.inj hm₁
    refine ⟨inv_retain hrun.manifest hretained, hrun.below, fun epoch hepoch k hlt hle => ?_,
      fun k document hlive => ?_⟩
    · rw [hepochs epoch hepoch] at hlt
      exact absurd hle (Nat.not_le_of_lt hlt)
    · obtain ⟨hle, hstored⟩ := hrun.live k document hlive
      refine ⟨hle, fun hk => ?_⟩
      rw [epochSlot_sweep hid hrun.manifest hswept faults (le_of_eq (congrArg _ hk.symm))]
      exact hstored hk

include hid in
theorem expireDirectories_spec (h : StoreInv digest documentId s) (hm : s.runtime = some m)
    (hepochs : ∀ epoch ∈ s.disk.epochs, epoch = m.current.epoch) {nowMs : UInt64}
    {faults : ExpiryFaults} {result : Except EpochError Unit}
    (hexpire : expireDirectories digest m nowMs faults s.disk = (result, m', d)) :
    m'.current = m.current ∧
    StoreInv digest documentId { s with disk := d, runtime := some m' } ∧
    ∀ epoch ∈ d.epochs, epoch = m.current.epoch := by
  have hman := removeExpired_manifest digest m nowMs s.disk.directories faults.fails
    (faults.save = .synced)
  obtain ⟨hretained, hattempted, -⟩ :=
    sweepExpired_spec nowMs faults.fails m.retired s.disk.directories
  unfold expireDirectories at hexpire
  generalize removeExpired digest m nowMs s.disk.directories faults.fails
    (faults.save = .synced) = removed at hman hexpire
  obtain ⟨_, m₁, swept⟩ := removed
  obtain ⟨rfl, rfl⟩ := Prod.mk.inj hman
  have hswept := h.sweep hid hm hepochs hretained hattempted faults
  dsimp only at hexpire
  split at hexpire
  · cases hexpire
    exact ⟨rfl, hswept, hepochs⟩
  · cases hexpire
    obtain ⟨hsaved, hmem, -⟩ := hswept.save rfl rfl
    refine ⟨rfl, hsaved, fun epoch hepoch => ?_⟩
    rcases hmem epoch hepoch with heq | hmem
    · exact heq
    · exact hepochs epoch hmem

/-! ## Steps -/

/-- The manifest is loaded. -/
theorem StoreInv.load (h : StoreInv digest documentId s) (hnone : s.runtime = none)
    (hm : Inv digest documentId m)
    (hepochs : ∀ epoch ∈ s.disk.epochs, epoch = m.current.epoch) :
    StoreInv digest documentId { s with runtime := some m } := by
  refine ⟨h.manifests, h.copies, (fun hfalse => nomatch hfalse), fun m' hm' => ?_⟩
  obtain rfl := Option.some.inj hm'
  refine ⟨hm, fun epoch hepoch => ?_, fun epoch hepoch k hlt hle => ?_, fun k document hlive => ?_⟩
  · rw [hepochs epoch hepoch]
  · rw [hepochs epoch hepoch] at hlt
    exact absurd hle (Nat.not_le_of_lt hlt)
  · rw [(h.closed hnone).1] at hlive
    cases hlive

/-- The manifest is not kept in memory. -/
theorem StoreInv.unload (h : StoreInv digest documentId ⟨d, some m, none⟩)
    (hepochs : ∀ epoch ∈ d.epochs, epoch = m.current.epoch) :
    StoreInv digest documentId ⟨d, none, none⟩ := by
  refine ⟨h.manifests, h.copies, fun _ => ⟨rfl, fun a ha b hb => ?_⟩,
    fun _ hfalse => nomatch hfalse⟩
  rw [hepochs a ha, hepochs b hb]

include hid in
theorem StoreInv.openRuntime (h : StoreInv digest documentId s) (nowMs : UInt64)
    (faults : OpenFaults) :
    StoreInv digest documentId (openRuntime digest documentId nowMs faults s) := by
  -- expired epochs are removed once a manifest is there
  have hexpire : ∀ (d : Disk yrs) (m : EpochManifest),
      StoreInv digest documentId ⟨d, some m, none⟩ →
      (∀ epoch ∈ d.epochs, epoch = m.current.epoch) → ∀ result m' d',
      expireDirectories digest m nowMs faults.expiry d = (result, m', d') →
      StoreInv digest documentId ⟨d', some m', none⟩ ∧
        StoreInv digest documentId ⟨d', none, none⟩ := by
    intro d m hinv hepochs result m' d' hresult
    obtain ⟨hcurrent, hinv', hepochs'⟩ := expireDirectories_spec hid hinv rfl hepochs hresult
    exact ⟨hinv', hinv'.unload (hcurrent ▸ hepochs')⟩
  obtain ⟨disk, runtime, live⟩ := s
  cases runtime with
  | some m => exact h
  | none =>
      obtain ⟨rfl, hequal⟩ := h.closed rfl
      unfold Epoch.openRuntime
      split
      · exact h
      · dsimp only
        cases hnow : disk.manifest.now with
        | some m =>
            have hmem : some m ∈ disk.manifest.images := hnow ▸ Slot.now_mem_images _
            have hm := h.manifests m hmem
            have hepochs : ∀ epoch ∈ disk.epochs, epoch = m.current.epoch := fun epoch hepoch =>
              hequal epoch hepoch _ (List.mem_map.mpr ⟨some m, hmem, rfl⟩)
            dsimp only
            rw [if_pos (validate_ok hm)]
            have hexpired := hexpire disk m (h.load rfl hm hepochs) hepochs
            dsimp only
            split
            · next hresult => exact (hexpired _ _ _ hresult).1
            · next hresult => exact (hexpired _ _ _ hresult).2
        | none =>
            have hmem : none ∈ disk.manifest.images := hnow ▸ Slot.now_mem_images _
            have hm : Inv digest documentId (.initial documentId nowMs) := inv_initial _ _
            have hepochs : ∀ epoch ∈ disk.epochs, epoch = 0 := fun epoch hepoch =>
              hequal epoch hepoch _ (List.mem_map.mpr ⟨none, hmem, rfl⟩)
            dsimp only
            cases hwrite : writeManifest digest (EpochManifest.initial documentId nowMs)
                faults.create disk with
            | mk result d =>
                obtain ⟨hsaved, hmem, -⟩ := (h.load rfl hm hepochs).save rfl hwrite
                have hepochs' : ∀ epoch ∈ d.epochs, epoch = 0 := by
                  intro epoch hepoch
                  rcases hmem epoch hepoch with heq | hold
                  · exact heq
                  · exact hepochs epoch hold
                cases result with
                | ok _ =>
                    have hexpired := hexpire d _ hsaved hepochs'
                    dsimp only
                    split
                    · next hresult => exact (hexpired _ _ _ hresult).1
                    · next hresult => exact (hexpired _ _ _ hresult).2
                | error _ => exact hsaved.unload hepochs'

include hid in
theorem StoreInv.beginEpochTransition (h : StoreInv digest documentId s) (nowMs : UInt64)
    (load : LoadFaults) (save : Commit) :
    StoreInv digest documentId (beginEpochTransition digest nowMs load save s) := by
  unfold Epoch.beginEpochTransition
  cases hm : s.runtime with
  | none => exact h
  | some m =>
      dsimp only
      cases hload : getOrLoad m load s with
      | mk result s₁ =>
          obtain ⟨h₁, hm₁, -, -⟩ := getOrLoad_spec hid h hm hload
          cases result with
          | none => exact h₁
          | some document =>
              dsimp only
              split
              · rename_i m' _ _ hbegin
                obtain ⟨hm', hcurrent, -⟩ := inv_begin (h₁.runtime m hm₁).manifest hbegin
                exact ((h₁.setRuntime hm₁ hm' (congrArg _ hcurrent)).save rfl rfl).1
              · exact h₁

/-- The manifest in memory is switched to a document that is stored. -/
theorem StoreInv.setLive (h : StoreInv digest documentId s) (hm : s.runtime = some m)
    {document stored : Document yrs}
    (hnow : (s.disk.epochSlot digest documentId m.current.epoch).now = some (.committed stored))
    (hsame : SameRoots document.doc stored.doc) :
    StoreInv digest documentId { s with live := some (m.current.epoch, document) } := by
  refine ⟨h.manifests, h.copies, fun hnone => ?_, fun m' hm' => ?_⟩
  · rw [show s.runtime = none from hnone] at hm
    cases hm
  · obtain rfl := Option.some.inj (hm.symm.trans hm')
    have hrun := h.runtime m hm
    refine ⟨hrun.manifest, hrun.below, hrun.written, fun k document' hlive => ?_⟩
    obtain ⟨rfl, rfl⟩ := Prod.mk.inj (Option.some.inj hlive)
    exact ⟨le_rfl, fun _ => ⟨stored, hnow, hsame⟩⟩

include hid in
theorem commitActivation_spec (h : StoreInv digest documentId s) (hm : s.runtime = some m)
    {pending : PendingEpoch} (hp : m.pending = some pending) {new stored : Document yrs}
    (hnow : (s.disk.epochSlot digest documentId pending.epoch).now = some (.committed stored))
    (hsame : SameRoots new.doc stored.doc) (measurements : Document yrs → UInt64 × UInt64)
    (nowMs recoveryWindowMs : UInt64) (faults : ActivateFaults) :
    StoreInv digest documentId
      (commitActivation digest measurements nowMs recoveryWindowMs faults m new s).2 := by
  have hrun := h.runtime m hm
  unfold commitActivation
  dsimp only
  cases hactivate : m.activate nowMs recoveryWindowMs (measurements new).1 (measurements new).2 with
  | error error => exact h
  | ok m' =>
      have hcurrent : m'.current.epoch = pending.epoch := by
        rw [EpochManifest.activate, hp] at hactivate
        rw [← Except.ok.inj hactivate]
      obtain ⟨hm', hnext, -⟩ := inv_activate hrun.manifest hactivate
      rw [← hcurrent] at hnow
      have hswitched := h.switch hm hm' hnext ⟨stored, hnow⟩
      dsimp only
      cases hwrite : writeManifest digest m' faults.save s.disk with
      | mk result d =>
          obtain ⟨hsaved, -, hok⟩ := hswitched.save rfl hwrite
          cases result with
          | error error => exact hsaved
          | ok _ =>
              have hnow' := ((writeManifest_spec hm' hwrite).1 _).now.trans hnow
              have hlive := hsaved.setLive rfl hnow' hsame
              dsimp only
              cases hexpire : expireDirectories digest m' nowMs faults.expiry d with
              | mk result rest =>
                  obtain ⟨m₁, d₁⟩ := rest
                  obtain ⟨hcurrent₁, hinv, -⟩ :=
                    expireDirectories_spec hid hlive rfl (hok rfl) hexpire
                  dsimp only
                  rw [hcurrent₁]
                  exact hinv

include hid in
/-- An activation keeps the values of the epoch it replaces. -/
theorem maybeActivateEpoch_spec (hlossless : yrs.Lossless) (h : StoreInv digest documentId s)
    {measurements : Document yrs → UInt64 × UInt64} {nowMs recoveryWindowMs : UInt64}
    {faults : ActivateFaults} {activation : Activation yrs}
    (hact : maybeActivateEpoch digest measurements nowMs recoveryWindowMs faults s =
      (activation, s')) :
    StoreInv digest documentId s' ∧
    ∀ old new, activation = .activated old new → SameRoots old.doc new.doc := by
  unfold maybeActivateEpoch at hact
  split at hact
  · cases hact
    exact ⟨h, fun _ _ hfalse => nomatch hfalse⟩
  · rename_i m hm
    split at hact
    · cases hact
      exact ⟨h, fun _ _ hfalse => nomatch hfalse⟩
    · rename_i pending hp
      split at hact
      · rename_i s₁ hload
        cases hact
        exact ⟨(getOrLoad_spec hid h hm hload).1, fun _ _ hfalse => nomatch hfalse⟩
      · rename_i old s₁ hload
        obtain ⟨h₁, hm₁, -, hlive⟩ := getOrLoad_spec hid h hm hload
        have hrun := h₁.runtime m hm₁
        obtain ⟨original, horiginal, hsame⟩ := (hrun.live _ _ (hlive old rfl)).2 rfl
        split at hact
        · cases hact
          exact ⟨h₁, fun _ _ hfalse => nomatch hfalse⟩
        · rename_i replacement hreplacement
          obtain ⟨hnext, hphysical⟩ := hrun.manifest.pending pending hp
          have hcopied := Document.sameRoots_logicalReplacement hlossless hreplacement
          rw [hphysical, show physicalDocumentId digest documentId pending.epoch =
            physicalOf digest documentId pending.epoch from
              (if_neg (pos_of_succ hnext)).symm] at hact
          have hsource : ∀ epoch ∈ s₁.disk.epochs,
              Source digest documentId s₁.disk epoch pending.epoch replacement := by
            intro epoch hepoch
            have hbelow := hrun.below epoch hepoch
            refine ⟨by omega, h₁.copies epoch hepoch, fun _ a ha hk => ?_⟩
            have ha' : a = m.current.epoch := UInt64.toNat_inj.mp (by omega)
            rw [ha']
            exact ⟨original, horiginal, hsame.symm.trans hcopied⟩
          cases hcreate : createOrLoadReplacement (physicalOf digest documentId pending.epoch)
              replacement faults.replacement s₁.disk with
          | mk loaded d =>
              rw [hcreate] at hact
              obtain ⟨hframe, hcopies, hkept, hloaded⟩ := createOrLoadReplacement_spec hid hcreate
              have h₂ : StoreInv digest documentId { s₁ with disk := d } :=
                h₁.reframe hm₁ hframe (fun epoch hepoch => hcopies epoch (hsource epoch hepoch))
                  hkept (hrun.live_of_frame hframe hkept)
              cases loaded with
              | none =>
                  cases hact
                  exact ⟨h₂, fun _ _ hfalse => nomatch hfalse⟩
              | some new =>
                  obtain ⟨stored, hnow, hnew, hbefore⟩ := hloaded new rfl
                  have hcommit := commitActivation_spec hid h₂ hm₁ hp hnow hnew measurements nowMs
                    recoveryWindowMs faults
                  -- a replacement that was there has the values of the current epoch
                  have hroots : SameRoots old.doc new.doc := by
                    rcases hbefore with hbefore | rfl
                    · obtain ⟨epoch, hepoch⟩ := s₁.disk.epochs_ne_nil
                      obtain ⟨original', horiginal', hsame'⟩ :=
                        h₁.copies epoch hepoch m.current.epoch pending.epoch
                          (hrun.below epoch hepoch) hnext stored
                          (hbefore ▸ Slot.now_mem_images _) _ (Slot.now_mem_images _)
                      rw [horiginal] at horiginal'
                      obtain rfl := Directory.committed.inj (Option.some.inj horiginal')
                      exact (hsame.trans hsame').trans hnew.symm
                    · exact hcopied
                  dsimp only at hact
                  split at hact
                  · rename_i s₂ hs₂
                    rw [hs₂] at hcommit
                    cases hact
                    refine ⟨hcommit, fun old' new' heq => ?_⟩
                    obtain ⟨rfl, rfl⟩ := Activation.activated.inj heq
                    exact hroots
                  · rename_i s₂ hs₂
                    rw [hs₂] at hcommit
                    cases hact
                    exact ⟨hcommit, fun _ _ hfalse => nomatch hfalse⟩

/-- Without replacements, the epoch in memory is the one on disk. -/
theorem RuntimeInv.epochs_eq (h : RuntimeInv digest documentId s m)
    (hnone : ∀ epoch ∈ s.disk.epochs, NoReplacement digest documentId s.disk epoch) :
    ∀ epoch ∈ s.disk.epochs, epoch = m.current.epoch := by
  intro epoch hepoch
  by_contra hne
  have hbelow := h.below epoch hepoch
  have hlt : epoch.toNat ≠ m.current.epoch.toNat := fun heq => hne (UInt64.toNat_inj.mp heq)
  have hbound := m.current.epoch.toNat_lt
  -- the next epoch would have been written
  have hnext : (UInt64.ofNat (epoch.toNat + 1)).toNat = epoch.toNat + 1 :=
    UInt64.toNat_ofNat_of_lt' (lt_of_le_of_lt (by omega) hbound)
  obtain ⟨document, hnow⟩ :=
    h.written epoch hepoch (UInt64.ofNat (epoch.toNat + 1)) (by omega) (by omega)
  exact hnone epoch hepoch _ hnext document (hnow ▸ Slot.now_mem_images _)

include hid in
/-- A document is stored in the directory of its epoch. -/
theorem epochSlot_modify (f : Directory yrs → Directory yrs) (j : UInt64) :
    (d.modify (physicalOf digest documentId k) f).epochSlot digest documentId j =
      if k = j then (d.epochSlot digest documentId j).modify f
      else d.epochSlot digest documentId j := by
  rw [Disk.epochSlot, Disk.slot_modify]
  by_cases h : k = j
  · rw [if_pos h, if_pos (congrArg _ h)]
    rfl
  · rw [if_neg h, if_neg fun heq => h (physicalOf_injective hid heq)]
    rfl

include hid in
theorem StoreInv.store (h : StoreInv digest documentId s) (hm : s.runtime = some m)
    (hepochs : ∀ epoch ∈ s.disk.epochs, epoch = m.current.epoch)
    (hnone : NoReplacement digest documentId s.disk m.current.epoch) {stored : Document yrs}
    (hnow : (s.disk.epochSlot digest documentId m.current.epoch).now = some (.committed stored))
    (document : Document yrs) :
    StoreInv digest documentId
      { s with
        disk := s.disk.modify (physicalOf digest documentId m.current.epoch) fun _ =>
          .committed document
        live := some (m.current.epoch, document) } := by
  have hrun := h.runtime m hm
  have hslot : ∀ j : UInt64, j.toNat ≠ m.current.epoch.toNat →
      (s.disk.modify (physicalOf digest documentId m.current.epoch) fun _ =>
        .committed document).epochSlot digest documentId j =
      s.disk.epochSlot digest documentId j := by
    intro j hj
    rw [epochSlot_modify hid, if_neg fun heq => hj (congrArg _ heq.symm)]
  refine ⟨h.manifests, fun epoch hepoch a b ha hb => ?_, fun hclosed => ?_, fun m' hm' => ?_⟩
  · rw [hepochs epoch hepoch] at ha
    dsimp only
    rw [hslot b (by omega)]
    by_cases hcurrent : a = m.current.epoch
    · intro new hnew
      exact absurd hnew (hnone b (hcurrent ▸ hb) new)
    · rw [hslot a fun heq => hcurrent (UInt64.toNat_inj.mp heq)]
      exact h.copies epoch hepoch a b ((hepochs epoch hepoch).symm ▸ ha) hb
  · rw [show s.runtime = none from hclosed] at hm
    cases hm
  · obtain rfl := Option.some.inj (hm.symm.trans hm')
    refine ⟨hrun.manifest, hrun.below, fun epoch hepoch k hlt hle => ?_, fun k live hlive => ?_⟩
    · rw [hepochs epoch hepoch] at hlt
      exact absurd hle (Nat.not_le_of_lt hlt)
    · obtain ⟨rfl, rfl⟩ := Prod.mk.inj (Option.some.inj hlive)
      refine ⟨le_rfl, fun _ => ⟨document, ?_, .refl _⟩⟩
      dsimp only
      rw [epochSlot_modify hid, if_pos rfl, Slot.modify, hnow]
      rfl

include hid in
/-- An update is acknowledged while no replacement is there. -/
theorem StoreInv.applyToCurrent {Update : Type}
    {applyUpdate : Update → Document yrs → Option (Document yrs)}
    (h : StoreInv digest documentId s) {update : Update} {faults : LoadFaults}
    (hquiet : StoreOp.Quiet digest documentId s (.applyUpdate update faults)) :
    StoreInv digest documentId (applyToCurrent applyUpdate update faults s) := by
  unfold Epoch.applyToCurrent
  split
  · exact h
  · rename_i m hm
    cases hload : getOrLoad m faults s with
    | mk result s₁ =>
        obtain ⟨h₁, hm₁, hframe, hlive⟩ := getOrLoad_spec hid h hm hload
        have hrun := h₁.runtime m hm₁
        have hnone := hquiet m hm
        cases result with
        | none => exact h₁
        | some document =>
            dsimp only
            split
            · exact h₁
            · rename_i document' hupdate
              obtain ⟨stored, hnow, -⟩ := (hrun.live _ _ (hlive document rfl)).2 rfl
              have hepochs := (h.runtime m hm).epochs_eq fun epoch hepoch =>
                hnone epoch (List.mem_cons_of_mem _ hepoch)
              have hnone₁ : NoReplacement digest documentId s₁.disk m.current.epoch := by
                intro next hnext new hnew
                have hne : next ≠ m.current.epoch := by
                  rintro rfl
                  omega
                exact hnone _ List.mem_cons_self next hnext new
                  ((hframe.slots next hne).images _ hnew)
              rw [hrun.manifest.current]
              exact h₁.store hid hm₁
                (fun epoch hepoch => hepochs epoch (hframe.epochs epoch hepoch))
                hnone₁ hnow document'

theorem StoreInv.crash (h : StoreInv digest documentId s) (hcrash : Crashes s.disk d) :
    StoreInv digest documentId ⟨d, none, none⟩ := by
  obtain ⟨hmanifest, hslots⟩ := hcrash
  have hepochs : ∀ epoch ∈ d.epochs, epoch ∈ s.disk.epochs := by
    intro epoch hepoch
    obtain ⟨image, himage, rfl⟩ := List.mem_map.mp hepoch
    exact List.mem_map_of_mem (hmanifest.mem_images image himage)
  refine ⟨fun m hm => h.manifests m (hmanifest.mem_images _ hm), fun epoch hepoch => ?_,
    fun _ => ⟨rfl, fun a ha b hb => ?_⟩, fun _ hfalse => nomatch hfalse⟩
  · exact (h.copies epoch (hepochs epoch hepoch)).mono fun k _ => (hslots _).mem_images
  · -- one manifest is left
    have hone : d.manifest.images = [d.manifest.now] := by
      rw [Slot.images, hmanifest.1]
    change a ∈ d.manifest.images.map _ at ha
    change b ∈ d.manifest.images.map _ at hb
    rw [hone] at ha hb
    rw [List.mem_singleton.mp ha, List.mem_singleton.mp hb]

end Store

/-! ## Runs -/

section Runs

variable {measurements : Document yrs → UInt64 × UInt64} {Update : Type}
  {applyUpdate : Update → Document yrs → Option (Document yrs)}

theorem StoreInv.initial :
    StoreInv digest documentId (⟨⟨.empty, []⟩, none, none⟩ : Store yrs) := by
  refine ⟨fun m hm => ?_, fun epoch _ a b _ _ document hdocument => ?_,
    fun _ => ⟨rfl, fun a ha b hb => ?_⟩, fun _ hfalse => nomatch hfalse⟩
  · exact nomatch List.mem_singleton.mp hm
  · exact nomatch List.mem_singleton.mp hdocument
  · rw [List.mem_singleton.mp ha, List.mem_singleton.mp hb]

theorem StoreInv.step (hid : ∀ epoch, physicalDocumentId digest documentId epoch ≠ documentId)
    (hlossless : yrs.Lossless) {s : Store yrs} (h : StoreInv digest documentId s)
    {op : StoreOp yrs Update} (hpermitted : op.Permitted s)
    (hquiet : op.Quiet digest documentId s) :
    StoreInv digest documentId (s.step digest documentId measurements applyUpdate op) := by
  cases op with
  | openRuntime nowMs faults => exact h.openRuntime hid nowMs faults
  | applyUpdate update faults => exact h.applyToCurrent hid hquiet
  | begin nowMs load save => exact h.beginEpochTransition hid nowMs load save
  | activate nowMs recoveryWindowMs faults =>
      exact (maybeActivateEpoch_spec hid hlossless h rfl).1
  | cleanup nowMs faults =>
      rw [Store.step, cleanupRetiredEpochs]
      cases hm : s.runtime with
      | none => exact h
      | some m => exact (expireDirectories_spec hid h hm (hquiet m hm) rfl).2.1
  | drop =>
      refine ⟨h.manifests, h.copies, fun hnone => ⟨rfl, (h.closed hnone).2⟩, fun m hm => ?_⟩
      have hrun := h.runtime m hm
      exact ⟨hrun.manifest, hrun.below, hrun.written, fun _ _ hlive => nomatch hlive⟩
  | crash image => exact h.crash hpermitted

theorem StoreInv.of_reached (hid : ∀ epoch, physicalDocumentId digest documentId epoch ≠ documentId)
    (hlossless : yrs.Lossless) {s : Store yrs}
    (h : s.Reached digest documentId measurements applyUpdate (StoreOp.Quiet digest documentId)) :
    StoreInv digest documentId s := by
  induction h with
  | refl => exact .initial
  | tail _ hstep ih =>
      obtain ⟨op, hpermitted, hquiet, rfl⟩ := hstep
      exact ih.step hid hlossless hpermitted hquiet

end Runs

/-- In every run in which no update is acknowledged beside a replacement, each
activation that succeeds keeps the values of the epoch it replaces. -/
theorem activation_keeps_roots (yrs : Yrs) (hlossless : yrs.Lossless) (digest : String → String)
    (documentId : String)
    (hid : ∀ epoch, physicalDocumentId digest documentId epoch ≠ documentId)
    (measurements : Document yrs → UInt64 × UInt64) (Update : Type)
    (applyUpdate : Update → Document yrs → Option (Document yrs)) (s : Store yrs)
    (h : s.Reached digest documentId measurements applyUpdate (StoreOp.Quiet digest documentId))
    (nowMs recoveryWindowMs : UInt64) (faults : ActivateFaults) (old new : Document yrs)
    (hact : (maybeActivateEpoch digest measurements nowMs recoveryWindowMs faults s).1 =
      .activated old new) :
    SameRoots old.doc new.doc :=
  (maybeActivateEpoch_spec hid hlossless (.of_reached hid hlossless h) rfl).2 old new hact

/-! ## Two runs -/

/-- Values are strings, and an update appends to `contents`. -/
def sampleYrs : Yrs := ⟨String, String, id, id, String.singleton⟩

def textDocument (text : String) : Document sampleYrs where
  doc := ⟨[("contents", ⟨.undefined, ⟨[.string text], []⟩⟩)]⟩
  ok := ⟨by simp [Assoc.Wf, Assoc.keys], by simp [Assoc.wf_nil], by simp⟩

def appendText (text : String) (document : Document sampleYrs) : Option (Document sampleYrs) :=
  some (textDocument ((document.doc.branch "contents").getString ++ text))

/-- SHA-256 of `vault__doc`. -/
def vaultDigest (_ : String) : String :=
  "203aab86611c3b07105dd7195b05d5dca64c360899050476262aba448ade5531"

theorem vaultDigest_ne (epoch : UInt64) :
    physicalDocumentId vaultDigest "vault__doc" epoch ≠ "vault__doc" := by
  intro h
  have hhead := congrArg (fun s => s.toList.head?) h
  simp [physicalDocumentId] at hhead

def noFaults : LoadFaults := ⟨true, .synced, ⟨true, .synced⟩⟩

def noExpiryFaults : ExpiryFaults := ⟨fun _ => false, fun _ => false, .synced⟩

def opened : StoreOp sampleYrs String := .openRuntime 0 ⟨true, .synced, noExpiryFaults⟩

def typed (text : String) : StoreOp sampleYrs String := .applyUpdate text noFaults

def proposed : StoreOp sampleYrs String := .begin 1 noFaults .synced

/-- The root cannot be synced once the replacement is renamed. -/
def stopped : StoreOp sampleYrs String :=
  .activate 2 10 ⟨noFaults, ⟨true, .synced, ⟨true, .unsynced⟩⟩, .synced, noExpiryFaults⟩

def sampleStep (s : Store sampleYrs) (op : StoreOp sampleYrs String) : Store sampleYrs :=
  s.step vaultDigest "vault__doc" (fun _ => (1, 1)) appendText op

def sampleRun (ops : List (StoreOp sampleYrs String)) : Store sampleYrs :=
  ops.foldl sampleStep ⟨⟨.empty, []⟩, none, none⟩

def retried (s : Store sampleYrs) : Activation sampleYrs :=
  (maybeActivateEpoch vaultDigest (fun _ => (1, 1)) 3 10
    ⟨noFaults, noFaults, .synced, noExpiryFaults⟩ s).1

/-- A crash that loses nothing. -/
theorem crashes_syncRoot (d : Disk yrs) : Crashes d d.syncRoot := by
  have hsurvives : ∀ {α : Type} (slot : Slot α), slot.Survives Eq slot.sync := by
    intro α slot
    refine ⟨rfl, slot.now, Slot.now_mem_images _, ?_⟩
    show Option.Rel Eq slot.now slot.now
    cases slot.now with
    | none => exact .none
    | some v => exact .some rfl
  refine ⟨hsurvives _, fun physical => ?_⟩
  rw [Disk.slot_syncRoot]
  exact hsurvives _

def crashed : StoreOp sampleYrs String :=
  .crash (sampleRun [opened, typed "a", proposed, stopped]).disk.syncRoot

/-- An attempt stops behind the rename, the process crashes, and the next one loads
what the first has written. -/
theorem activation_keeps_roots_crash :
    let s := sampleRun [opened, typed "a", proposed, stopped, crashed, opened]
    ∃ old new, retried s = .activated old new ∧ SameRoots old.doc new.doc ∧
      new.doc.rootValue "contents" = .text "a" := by
  intro s
  have htyped : StoreOp.Quiet vaultDigest "vault__doc" (sampleRun [opened]) (typed "a") := by
    intro m hm epoch _ next _ document hdocument
    exact nomatch List.mem_singleton.mp hdocument
  have hreached : s.Reached vaultDigest "vault__doc" (fun _ => (1, 1)) appendText
      (StoreOp.Quiet vaultDigest "vault__doc") := by
    refine .tail (.tail (.tail (.tail (.tail (.tail .refl ⟨opened, trivial, trivial, rfl⟩)
      ⟨typed "a", trivial, htyped, rfl⟩) ⟨proposed, trivial, trivial, rfl⟩)
      ⟨stopped, trivial, trivial, rfl⟩) ⟨crashed, ?_, trivial, rfl⟩)
      ⟨opened, trivial, trivial, rfl⟩
    exact crashes_syncRoot _
  obtain ⟨old, new, hact, hnew⟩ : ∃ old new, retried s = .activated old new ∧
      new.doc.rootValue "contents" = .text "a" := ⟨_, _, rfl, rfl⟩
  refine ⟨old, new, hact, ?_, hnew⟩
  exact activation_keeps_roots sampleYrs (fun _ => rfl) vaultDigest "vault__doc" vaultDigest_ne _ _
    _ s hreached 3 10 ⟨noFaults, noFaults, .synced, noExpiryFaults⟩ old new hact

/-- An update is acknowledged between two attempts, and the second one activates
the replacement of the first. -/
theorem not_activation_keeps_roots_update :
    ¬∀ (yrs : Yrs), yrs.Lossless → ∀ (digest : String → String) (documentId : String),
      (∀ epoch, physicalDocumentId digest documentId epoch ≠ documentId) →
      ∀ (measurements : Document yrs → UInt64 × UInt64) (Update : Type)
        (applyUpdate : Update → Document yrs → Option (Document yrs)) (s : Store yrs),
        s.Reached digest documentId measurements applyUpdate (fun _ _ => True) →
        ∀ (nowMs recoveryWindowMs : UInt64) (faults : ActivateFaults) (old new : Document yrs),
          (maybeActivateEpoch digest measurements nowMs recoveryWindowMs faults s).1 =
            .activated old new → SameRoots old.doc new.doc := by
  intro h
  let s := sampleRun [opened, typed "a", proposed, stopped, typed "b"]
  have hreached : s.Reached vaultDigest "vault__doc" (fun _ => (1, 1)) appendText
      (fun _ _ => True) := by
    exact .tail (.tail (.tail (.tail (.tail .refl ⟨opened, trivial, trivial, rfl⟩)
      ⟨typed "a", trivial, trivial, rfl⟩) ⟨proposed, trivial, trivial, rfl⟩)
      ⟨stopped, trivial, trivial, rfl⟩) ⟨typed "b", trivial, trivial, rfl⟩
  obtain ⟨old, new, hact, hold, hnew⟩ : ∃ old new, retried s = .activated old new ∧
      old.doc.rootValue "contents" = .text "ab" ∧ new.doc.rootValue "contents" = .text "a" :=
    ⟨_, _, rfl, rfl, rfl⟩
  have hsame := h sampleYrs (fun _ => rfl) vaultDigest "vault__doc" vaultDigest_ne _ _ _ s hreached
    3 10 ⟨noFaults, noFaults, .synced, noExpiryFaults⟩ old new hact "contents"
  rw [hold, hnew] at hsame
  exact absurd (RootView.text.inj hsame) (by decide)

end Realtime.Epoch
