import Mathlib.Tactic
import Realtime.Lib.Transition
import Realtime.Vault.RemoteDelete

/-!
# Trash entries of local deletes and renames

`applyLocalDeletion` and `handleLocalRename` of `src/VaultSync.ts`, with the index
transactions they make. A rename of a file whose entry is still to be published has a
second part that runs when its document is ready, after anything else may have
happened.

A delete records what it takes out of the index, and so does a rename of a note to a
Canvas or a Base. No other rename does, whatever it takes out.
-/

namespace Realtime.Vault.Trash

open Lib

abbrev Guid := RemoteDelete.Guid

abbrev StructuredMeta := RemoteDelete.StructuredMeta

/-- What `classify` gives. -/
inductive FileKind where
  | text
  | structured (kind : StructuredKind)
  | binary
  | ignore
  deriving DecidableEq

structure TrashEntry where
  path : Path
  kind : DocKind
  guid : Guid
  deriving DecidableEq

/-- A key of one of the two maps of the index. -/
inductive Place where
  | file (path : Path)
  | structured (path : Path)
  deriving DecidableEq

def Place.path : Place → Path
  | .file path | .structured path => path

/-! ## The index -/

structure Index where
  files : Path → Option Guid
  /-- A malformed entry is `some none`. -/
  structured : Path → Option (Option StructuredMeta)
  trash : List TrashEntry

namespace Index

def deleteFile (ix : Index) (path : Path) : Index :=
  { ix with files := Function.update ix.files path none }

def deleteStructured (ix : Index) (path : Path) : Index :=
  { ix with structured := Function.update ix.structured path none }

def setFile (ix : Index) (path : Path) (guid : Guid) : Index :=
  { ix with files := Function.update ix.files path (some guid) }

def setStructured (ix : Index) (path : Path) (m : StructuredMeta) : Index :=
  { ix with structured := Function.update ix.structured path (some (some m)) }

def recordTrashIn (ix : Index) (entry : TrashEntry) : Index :=
  { ix with trash := ix.trash ++ [entry] }

/-- `if (tracked) this.files.delete(path)` and its like -/
def deleteIf (ix : Index) (tracked : Bool) : Place → Index
  | .file path => if tracked then ix.deleteFile path else ix
  | .structured path => if tracked then ix.deleteStructured path else ix

/-- The index maps the guid from the path, as a file of that kind. -/
def Maps (ix : Index) (guid : Guid) (path : Path) : DocKind → Prop
  | .text => ix.files path = some guid
  | .structured kind => ix.structured path = some (some ⟨guid, kind⟩)

def guidAt (ix : Index) : Place → Option Guid
  | .file path => ix.files path
  | .structured path => (ix.structured path).join.map (·.guid)

end Index

/-- Every guid that the transaction leaves unmapped has a trash entry from it. -/
def Traced (before after : Index) : Prop :=
  ∀ guid, (∃ path kind, before.Maps guid path kind) →
    (∀ path kind, ¬after.Maps guid path kind) →
    ∃ added, after.trash = before.trash ++ added ∧
      ∃ path kind, before.Maps guid path kind ∧ ⟨path, kind, guid⟩ ∈ added

/-! ## The handlers -/

/-- A resident document: the object and its guid. -/
structure Resident where
  id : Nat
  guid : Guid
  deriving DecidableEq

/-- What the callback of `publishWhenReady` has captured. -/
structure Publish where
  kind : DocKind
  oldPath : Path
  newPath : Path
  newPathVersion : Nat
  doc : Nat
  wasTracked : Bool
  wasStructuredTracked : Bool
  finalGuid : Guid

/-- The index, the loaded documents, and the publishes that wait. -/
structure State where
  index : Index
  documents : Path → Option Resident
  structuredDocuments : Path → Option Resident
  /-- The documents that `destroy` was called on. -/
  isDestroyed : Nat → Bool
  /-- The number of documents made so far. -/
  made : Nat
  localFileExists : Path → Bool
  pathVersions : Path → Nat
  destroyed : Bool
  initialSynced : Bool
  /-- The callbacks that wait for their document. -/
  pending : List Publish

namespace State

def bumpPathVersion (s : State) (path : Path) : State :=
  { s with pathVersions := Function.update s.pathVersions path (s.pathVersions path + 1) }

def removeDocument (s : State) (path : Path) : State :=
  match s.documents path with
  | some doc =>
      { s with
        documents := Function.update s.documents path none
        isDestroyed := Function.update s.isDestroyed doc.id true }
  | none => s

def removeStructuredDocument (s : State) (path : Path) : State :=
  match s.structuredDocuments path with
  | some doc =>
      { s with
        structuredDocuments := Function.update s.structuredDocuments path none
        isDestroyed := Function.update s.isDestroyed doc.id true }
  | none => s

/-- Returns the document too. -/
def ensureDocument (s : State) (path : Path) (guid : Guid) : Resident × State :=
  match s.documents path with
  | some existing =>
      if existing.guid = guid then (existing, s)
      else
        let s := s.removeDocument path
        (⟨s.made, guid⟩, { s with
          documents := Function.update s.documents path (some ⟨s.made, guid⟩)
          made := s.made + 1 })
  | none =>
      (⟨s.made, guid⟩, { s with
        documents := Function.update s.documents path (some ⟨s.made, guid⟩)
        made := s.made + 1 })

def ensureStructuredDocument (s : State) (path : Path) (guid : Guid) : Resident × State :=
  match s.structuredDocuments path with
  | some existing =>
      if existing.guid = guid then (existing, s)
      else
        let s := s.removeStructuredDocument path
        (⟨s.made, guid⟩, { s with
          structuredDocuments := Function.update s.structuredDocuments path (some ⟨s.made, guid⟩)
          made := s.made + 1 })
  | none =>
      (⟨s.made, guid⟩, { s with
        structuredDocuments := Function.update s.structuredDocuments path (some ⟨s.made, guid⟩)
        made := s.made + 1 })

/-- `canPublishLocalPath`, for the document a callback has captured. -/
def canPublishLocalPath (s : State) (p : Publish) : Bool :=
  !s.isDestroyed p.doc && s.pathVersions p.newPath = p.newPathVersion &&
    s.localFileExists p.newPath &&
    match p.kind with
    | .text =>
        (s.documents p.newPath).map (·.id) = some p.doc && (s.index.files p.newPath).isNone
    | .structured _ =>
        (s.structuredDocuments p.newPath).map (·.id) = some p.doc &&
          (s.index.structured p.newPath).isNone

/-- The transaction of `publish` in `handleLocalRename`. -/
def publish (p : Publish) (ix : Index) : Index :=
  let ix := ix.deleteIf p.wasTracked (.file p.oldPath)
  let ix := ix.deleteIf p.wasStructuredTracked (.structured p.oldPath)
  match p.kind with
  | .text => ix.setFile p.newPath p.finalGuid
  | .structured kind => ix.setStructured p.newPath ⟨p.finalGuid, kind⟩

/-- The deletion of a file by the user, in the index. -/
def applyLocalDeletion (s : State) (path : Path) : State :=
  let s := s.bumpPathVersion path
  if (s.documents path).isSome || (s.index.files path).isSome then
    let s := s.removeDocument path
    match s.index.files path with
    | some guid =>
        { s with index := (s.index.recordTrashIn ⟨path, .text, guid⟩).deleteFile path }
    | none => s
  else if (s.structuredDocuments path).isSome || (s.index.structured path).isSome then
    let s := s.removeStructuredDocument path
    match s.index.structured path with
    | some (some m) =>
        { s with
          index := (s.index.recordTrashIn ⟨path, .structured m.kind, m.guid⟩).deleteStructured
            path }
    | _ => s
  else s

/-- `finalGuid` of a file that becomes a note. -/
def textGuid (s : State) (oldPath : Path) (fresh : Guid) : Guid :=
  ((s.index.files oldPath).or ((s.documents oldPath).map (·.guid))).getD fresh

/-- `finalGuid` of a file that becomes a Canvas or a Base. -/
def structuredGuid (s : State) (oldPath : Path) (fresh : Guid) : Guid :=
  (((s.index.structured oldPath).join.map (·.guid)).or
    ((s.structuredDocuments oldPath).map (·.guid))).getD fresh

/-- `handleLocalRename` up to where it waits for a document; `fresh` is what `newGuid`
returns, and `kind` the kind of the file under its new path. -/
def handleLocalRename (s : State) (oldPath newPath : Path) (kind : FileKind) (fresh : Guid) :
    State :=
  if s.destroyed || !s.initialSynced then s
  else
    let s' := (s.bumpPathVersion oldPath).bumpPathVersion newPath
    let newPathVersion := s'.pathVersions newPath
    let wasTracked := (s.index.files oldPath).isSome
    let wasStructuredTracked := (s.index.structured oldPath).isSome
    let s' := (s'.removeDocument oldPath).removeStructuredDocument oldPath
    match kind with
    | .text =>
        let finalGuid := s.textGuid oldPath fresh
        let (doc, s') := s'.ensureDocument newPath finalGuid
        let p : Publish := ⟨.text, oldPath, newPath, newPathVersion, doc.id, wasTracked,
          wasStructuredTracked, finalGuid⟩
        if wasTracked then { s' with index := publish p s'.index }
        else
          { s' with
            index := s'.index.deleteIf wasStructuredTracked (.structured oldPath)
            pending := s'.pending ++ [p] }
    | .structured structuredKind =>
        let finalGuid := s.structuredGuid oldPath fresh
        let (doc, s') := s'.ensureStructuredDocument newPath finalGuid
        let p : Publish := ⟨.structured structuredKind, oldPath, newPath, newPathVersion, doc.id,
          wasTracked, wasStructuredTracked, finalGuid⟩
        if wasStructuredTracked then { s' with index := publish p s'.index }
        else
          -- an empty guid is falsy, and is not recorded
          let ix := match s.index.files oldPath with
            | some guid =>
                (if guid = "" then s'.index
                  else s'.index.recordTrashIn ⟨oldPath, .text, guid⟩).deleteFile oldPath
            | none => s'.index
          { s' with index := ix, pending := s'.pending ++ [p] }
    | .binary | .ignore =>
        { s' with
          index := (s'.index.deleteIf wasTracked (.file oldPath)).deleteIf wasStructuredTracked
            (.structured oldPath) }

/-- The document of a callback is ready. -/
def ready (s : State) (p : Publish) : State :=
  if !s.destroyed && s.canPublishLocalPath p then { s with index := publish p s.index } else s

end State

inductive Event where
  | delete (path : Path)
  | rename (oldPath newPath : Path) (kind : FileKind) (fresh : Guid)
  | ready (i : Nat)
  /-- Anything else: creations, edits, what other devices do to the index. -/
  | other (next : State)

def step (s : State) : Event → Option State
  | .delete path => some (s.applyLocalDeletion path)
  | .rename oldPath newPath kind fresh => some (s.handleLocalRename oldPath newPath kind fresh)
  | .ready i => s.pending[i]?.map fun p => { s.ready p with pending := s.pending.eraseIdx i }
  | .other next => some { next with pending := s.pending }

/-- The event is a local delete or rename, or the second part of one. -/
def Event.isLocal : Event → Bool
  | .other _ => false
  | _ => true

/-! ## When no trace is missing -/

/-- A guid at one of the places is the one that moves, or is at another place as well. -/
def Index.Spares (ix : Index) (places : List Place) (moved : Option Guid) : Prop :=
  ∀ q ∈ places, ∀ guid, ix.guidAt q = some guid →
    moved = some guid ∨ ∃ q', q' ∉ places ∧ ix.guidAt q' = some guid

/-- The places that `publish` deletes. -/
def Publish.places (p : Publish) : List Place :=
  (if p.wasTracked then [.file p.oldPath] else []) ++
    if p.wasStructuredTracked then [.structured p.oldPath] else []

/-- The place that `publish` fills. -/
def Publish.target (p : Publish) : Place :=
  match p.kind with
  | .text => .file p.newPath
  | .structured _ => .structured p.newPath

/-- Nothing that is not recorded leaves the index: the places that the rename clears have
no guid but the one it moves, and so has the place it moves that guid to. -/
def cond (s : State) : Event → Prop
  | .delete _ | .other _ => True
  | .rename oldPath newPath kind fresh => s.destroyed = false → s.initialSynced = true →
      match kind with
      | .text =>
          match s.index.files oldPath with
          | some guid =>
              s.index.Spares [.file oldPath, .structured oldPath, .file newPath] (some guid)
          | none => s.index.Spares [.structured oldPath] none
      | .structured _ =>
          if (s.index.structured oldPath).isSome then
            s.index.Spares [.file oldPath, .structured oldPath, .structured newPath]
              (some (s.structuredGuid oldPath fresh))
          else s.index.files oldPath = some "" → s.index.Spares [.file oldPath] none
      | .binary | .ignore => s.index.Spares [.file oldPath, .structured oldPath] none
  | .ready i => ∀ p, s.pending[i]? = some p → s.destroyed = false →
      s.canPublishLocalPath p = true → s.index.Spares p.places (some p.finalGuid)

/-! ## The places of the index -/

namespace Index

variable {ix : Index} {guid : Guid}

theorem exists_maps_iff :
    (∃ path kind, ix.Maps guid path kind) ↔ ∃ q, ix.guidAt q = some guid := by
  constructor
  · rintro ⟨path, kind, h⟩
    cases kind with
    | text => exact ⟨.file path, h⟩
    | structured kind =>
        refine ⟨.structured path, ?_⟩
        rw [guidAt, show ix.structured path = some (some ⟨guid, kind⟩) from h]
        rfl
  · rintro ⟨q, h⟩
    cases q with
    | file path => exact ⟨path, .text, h⟩
    | structured path =>
        obtain ⟨m, hm, rfl⟩ := Option.map_eq_some_iff.mp h
        exact ⟨path, .structured m.kind, Option.join_eq_some_iff.mp hm⟩

@[simp] theorem guidAt_deleteFile (ix : Index) (path : Path) (q : Place) :
    (ix.deleteFile path).guidAt q = if q = .file path then none else ix.guidAt q := by
  cases q with
  | file p => simp [guidAt, deleteFile, Function.update_apply]
  | structured p => simp [guidAt, deleteFile]

@[simp] theorem guidAt_deleteStructured (ix : Index) (path : Path) (q : Place) :
    (ix.deleteStructured path).guidAt q = if q = .structured path then none else ix.guidAt q := by
  cases q with
  | file p => simp [guidAt, deleteStructured]
  | structured p =>
      by_cases hp : p = path <;> simp [guidAt, deleteStructured, hp]

@[simp] theorem guidAt_setFile (ix : Index) (path : Path) (guid : Guid) (q : Place) :
    (ix.setFile path guid).guidAt q = if q = .file path then some guid else ix.guidAt q := by
  cases q with
  | file p => simp [guidAt, setFile, Function.update_apply]
  | structured p => simp [guidAt, setFile]

@[simp] theorem guidAt_setStructured (ix : Index) (path : Path) (m : StructuredMeta) (q : Place) :
    (ix.setStructured path m).guidAt q =
      if q = .structured path then some m.guid else ix.guidAt q := by
  cases q with
  | file p => simp [guidAt, setStructured]
  | structured p =>
      by_cases hp : p = path <;> simp [guidAt, setStructured, hp]

@[simp] theorem guidAt_recordTrashIn (ix : Index) (entry : TrashEntry) (q : Place) :
    (ix.recordTrashIn entry).guidAt q = ix.guidAt q := by
  cases q <;> rfl

@[simp] theorem guidAt_deleteIf (ix : Index) (tracked : Bool) (place q : Place) :
    (ix.deleteIf tracked place).guidAt q =
      if tracked = true ∧ q = place then none else ix.guidAt q := by
  cases place <;> cases tracked <;> simp [deleteIf]

@[simp] theorem trash_deleteIf (ix : Index) (tracked : Bool) (place : Place) :
    (ix.deleteIf tracked place).trash = ix.trash := by
  cases place <;> cases tracked <;> rfl

end Index

/-! ## One transaction -/

theorem Traced.refl (ix : Index) : Traced ix ix := fun _ ⟨path, kind, h⟩ hnot =>
  absurd h (hnot path kind)

/-- Without a record nothing may be lost. -/
theorem traced_iff_of_trash_eq {before after : Index} (htrash : after.trash = before.trash) :
    Traced before after ↔
      ∀ guid, (∃ q, before.guidAt q = some guid) → ∃ q, after.guidAt q = some guid := by
  simp only [← Index.exists_maps_iff]
  constructor
  · intro h guid hbefore
    by_contra hafter
    obtain ⟨added, hadded, path, kind, -, hmem⟩ :=
      h guid hbefore fun path kind hmaps => hafter ⟨path, kind, hmaps⟩
    have hnil : added = [] := by simpa [htrash] using hadded
    rw [hnil] at hmem
    exact absurd hmem List.not_mem_nil
  · intro h guid hbefore hnot
    obtain ⟨path, kind, hmaps⟩ := h guid hbefore
    exact absurd hmaps (hnot path kind)

/-- A transaction that clears some places, moves at most one guid and records nothing. -/
theorem traced_iff_spares {before after : Index} {places : List Place} {moved : Option Guid}
    (htrash : after.trash = before.trash)
    (hafter : ∀ guid, (∃ q, after.guidAt q = some guid) ↔
      moved = some guid ∨ ∃ q, q ∉ places ∧ before.guidAt q = some guid) :
    Traced before after ↔ before.Spares places moved := by
  rw [traced_iff_of_trash_eq htrash]
  constructor
  · intro h q _ guid hguid
    exact (hafter guid).mp (h guid ⟨q, hguid⟩)
  · rintro h guid ⟨q, hguid⟩
    by_cases hq : q ∈ places
    · exact (hafter guid).mpr (h q hq guid hguid)
    · exact (hafter guid).mpr (.inr ⟨q, hq, hguid⟩)

/-- A transaction that clears one place and records what was there. -/
theorem traced_of_recorded {before after : Index} {place : Place} {kind : DocKind} {guid : Guid}
    (hplace : before.Maps guid place.path kind) (hguid : before.guidAt place = some guid)
    (htrash : after.trash = before.trash ++ [⟨place.path, kind, guid⟩])
    (hafter : ∀ q, q ≠ place → after.guidAt q = before.guidAt q) : Traced before after := by
  intro lost hbefore hnot
  obtain ⟨q, hq⟩ := Index.exists_maps_iff.mp hbefore
  by_cases hne : q = place
  · rw [hne, hguid, Option.some_inj] at hq
    subst hq
    exact ⟨_, htrash, place.path, kind, hplace, List.mem_singleton_self _⟩
  · obtain ⟨path, kind, hmaps⟩ := Index.exists_maps_iff.mpr ⟨q, (hafter q hne).trans hq⟩
    exact absurd hmaps (hnot path kind)

/-! ## One event -/

namespace State

variable {s : State}

@[simp] theorem index_bumpPathVersion (s : State) (path : Path) :
    (s.bumpPathVersion path).index = s.index := rfl

@[simp] theorem index_removeDocument (s : State) (path : Path) :
    (s.removeDocument path).index = s.index := by
  unfold removeDocument
  split <;> rfl

@[simp] theorem index_removeStructuredDocument (s : State) (path : Path) :
    (s.removeStructuredDocument path).index = s.index := by
  unfold removeStructuredDocument
  split <;> rfl

@[simp] theorem index_ensureDocument (s : State) (path : Path) (guid : Guid) :
    (s.ensureDocument path guid).2.index = s.index := by
  unfold ensureDocument
  split
  · split
    · rfl
    · exact index_removeDocument s path
  · rfl

@[simp] theorem index_ensureStructuredDocument (s : State) (path : Path) (guid : Guid) :
    (s.ensureStructuredDocument path guid).2.index = s.index := by
  unfold ensureStructuredDocument
  split
  · split
    · rfl
    · exact index_removeStructuredDocument s path
  · rfl

theorem traced_applyLocalDeletion (s : State) (path : Path) :
    Traced s.index (s.applyLocalDeletion path).index := by
  unfold applyLocalDeletion
  dsimp only
  split
  · simp only [index_removeDocument, index_bumpPathVersion]
    split
    · next guid hguid =>
      refine @traced_of_recorded _ _ (.file path) .text guid hguid hguid rfl fun q hq => ?_
      simp [hq]
    · simpa using Traced.refl s.index
  · split
    · simp only [index_removeStructuredDocument, index_bumpPathVersion]
      split
      · next m hm =>
        refine @traced_of_recorded _ _ (.structured path) (.structured m.kind) m.guid hm ?_ rfl
          fun q hq => ?_
        · rw [Index.guidAt, hm]
          rfl
        · simp [hq]
      · simpa using Traced.refl s.index
    · exact Traced.refl s.index

theorem guidAt_publish (p : Publish) (ix : Index) (q : Place) :
    (publish p ix).guidAt q =
      if q = p.target then some p.finalGuid else if q ∈ p.places then none else ix.guidAt q := by
  unfold publish Publish.target
  have hplaces : q ∈ p.places ↔ (p.wasTracked = true ∧ q = .file p.oldPath) ∨
      (p.wasStructuredTracked = true ∧ q = .structured p.oldPath) := by
    unfold Publish.places
    cases p.wasTracked <;> cases p.wasStructuredTracked <;> simp
  cases p.kind with
  | text =>
      simp only [Index.guidAt_setFile, Index.guidAt_deleteIf, hplaces]
      split
      · rfl
      · grind
  | structured kind =>
      simp only [Index.guidAt_setStructured, Index.guidAt_deleteIf, hplaces]
      split
      · rfl
      · grind

@[simp] theorem trash_publish (p : Publish) (ix : Index) : (publish p ix).trash = ix.trash := by
  unfold publish
  cases p.kind <;> simp [Index.setFile, Index.setStructured]

/-- `places` are those that `publish` clears or fills, up to empty ones. -/
theorem traced_publish_iff {p : Publish} {ix : Index} {places : List Place}
    (hcleared : ∀ q ∈ p.places, q ∈ places)
    (hplaces : ∀ q ∈ places, q ∉ p.places → q ≠ p.target → ix.guidAt q = none)
    (htarget : p.target ∉ places → ix.guidAt p.target = none) :
    Traced ix (publish p ix) ↔ ix.Spares places (some p.finalGuid) := by
  refine traced_iff_spares (trash_publish p ix) fun guid => ?_
  simp only [guidAt_publish, Option.some_inj]
  constructor
  · rintro ⟨q, hq⟩
    split at hq
    · exact .inl (Option.some_inj.mp hq)
    · next hne =>
      split at hq
      · cases hq
      · next hnot =>
        refine .inr ⟨q, fun hmem => ?_, hq⟩
        rw [hplaces q hmem hnot hne] at hq
        cases hq
  · rintro (rfl | ⟨q, hmem, hq⟩)
    · exact ⟨p.target, if_pos rfl⟩
    · refine ⟨q, ?_⟩
      rw [if_neg, if_neg fun h => hmem (hcleared q h), hq]
      rintro rfl
      rw [htarget hmem] at hq
      cases hq

theorem traced_ready_iff (s : State) (p : Publish) :
    Traced s.index (s.ready p).index ↔
      (s.destroyed = false → s.canPublishLocalPath p = true →
        s.index.Spares p.places (some p.finalGuid)) := by
  unfold ready
  split
  · next h =>
    simp only [Bool.and_eq_true, Bool.not_eq_true'] at h
    -- what may be published has no entry yet
    have htarget : s.index.guidAt p.target = none := by
      have hcan := h.2
      unfold canPublishLocalPath at hcan
      unfold Publish.target
      cases hkind : p.kind with
      | text =>
          simp only [hkind, Bool.and_eq_true, Option.isNone_iff_eq_none] at hcan
          exact hcan.2.2
      | structured kind =>
          simp only [hkind, Bool.and_eq_true, Option.isNone_iff_eq_none] at hcan
          dsimp only
          rw [Index.guidAt, hcan.2.2]
          rfl
    rw [traced_publish_iff (fun _ h => h) (fun q hq hnot => absurd hq hnot) fun _ => htarget]
    exact ⟨fun hs _ _ => hs, fun hs => hs h.1 h.2⟩
  · next h =>
    refine ⟨fun _ hdestroyed hcan => ?_, fun _ => Traced.refl _⟩
    exact absurd (by simp [hdestroyed, hcan]) h

theorem guidAt_file_eq_none {ix : Index} {path : Path} (h : (ix.files path).isSome = false) :
    ix.guidAt (.file path) = none := Option.isNone_iff_eq_none.mp (Option.isSome_eq_false_iff.mp h)

theorem guidAt_structured_eq_none {ix : Index} {path : Path}
    (h : (ix.structured path).isSome = false) : ix.guidAt (.structured path) = none := by
  rw [Index.guidAt, Option.isNone_iff_eq_none.mp (Option.isSome_eq_false_iff.mp h)]
  rfl

/-- A transaction that only clears places. -/
theorem traced_iff_of_cleared {before after : Index} {places : List Place}
    (htrash : after.trash = before.trash)
    (hcleared : ∀ q, after.guidAt q = if q ∈ places then none else before.guidAt q) :
    Traced before after ↔ before.Spares places none := by
  refine traced_iff_spares htrash fun guid => ?_
  simp only [hcleared, reduceCtorEq, false_or]
  refine exists_congr fun q => ?_
  by_cases hq : q ∈ places
  · simp [hq]
  · simp [hq]

/-- What `if (tracked) delete` does where `tracked` says whether something is there. -/
theorem guidAt_deleteIf_of {ix : Index} {tracked : Bool} {place : Place}
    (h : tracked = false → ix.guidAt place = none) (q : Place) :
    (ix.deleteIf tracked place).guidAt q = if q = place then none else ix.guidAt q := by
  rw [Index.guidAt_deleteIf]
  cases tracked with
  | true => simp
  | false =>
      rw [if_neg (by simp)]
      split
      · next hq => rw [hq, h rfl]
      · rfl

theorem traced_delete_structured_iff (ix : Index) (path : Path) :
    Traced ix (ix.deleteIf (ix.structured path).isSome (.structured path)) ↔
      ix.Spares [.structured path] none := by
  refine traced_iff_of_cleared (by simp) fun q => ?_
  rw [guidAt_deleteIf_of guidAt_structured_eq_none]
  simp only [List.mem_singleton]

theorem traced_delete_both_iff (ix : Index) (path : Path) :
    Traced ix ((ix.deleteIf (ix.files path).isSome (.file path)).deleteIf
        (ix.structured path).isSome (.structured path)) ↔
      ix.Spares [.file path, .structured path] none := by
  refine traced_iff_of_cleared (by simp) fun q => ?_
  rw [guidAt_deleteIf_of, guidAt_deleteIf_of guidAt_file_eq_none]
  · by_cases hq : q = .file path <;> by_cases hq' : q = .structured path <;> simp [hq, hq']
  · intro h
    rw [guidAt_deleteIf_of guidAt_file_eq_none, if_neg (by simp), guidAt_structured_eq_none h]

/-- `publish` where the locals are what the index says. -/
theorem traced_publish_now_iff {ix : Index} {p : Publish}
    (htracked : p.wasTracked = (ix.files p.oldPath).isSome)
    (hstructured : p.wasStructuredTracked = (ix.structured p.oldPath).isSome) :
    Traced ix (publish p ix) ↔
      ix.Spares [.file p.oldPath, .structured p.oldPath, p.target] (some p.finalGuid) := by
  refine traced_publish_iff (fun q hq => ?_) (fun q hq hnot hne => ?_) fun hnot => ?_
  · unfold Publish.places at hq
    simp only [List.mem_append, List.mem_ite_nil_right, List.mem_singleton] at hq
    rcases hq with ⟨-, rfl⟩ | ⟨-, rfl⟩ <;> simp
  · unfold Publish.places at hnot
    simp only [List.mem_append, List.mem_ite_nil_right, List.mem_singleton, not_or,
      not_and'] at hnot
    simp only [List.mem_cons, List.not_mem_nil, or_false] at hq
    rcases hq with rfl | rfl | rfl
    · exact guidAt_file_eq_none (htracked ▸ Bool.eq_false_iff.mpr (hnot.1 rfl))
    · exact guidAt_structured_eq_none (hstructured ▸ Bool.eq_false_iff.mpr (hnot.2 rfl))
    · exact absurd rfl hne
  · exact absurd (by simp) hnot

/-- A note that becomes a Canvas or a Base is recorded, unless its guid is empty. -/
theorem traced_recorded_note_iff {ix : Index} {path : Path} {guid : Guid}
    (hfile : ix.files path = some guid) :
    Traced ix ((if guid = "" then ix else ix.recordTrashIn ⟨path, .text, guid⟩).deleteFile path) ↔
      (some guid = some "" → ix.Spares [.file path] none) := by
  by_cases hempty : guid = ""
  · have hcleared := @traced_iff_of_cleared ix (ix.deleteFile path) [.file path] rfl
      fun q => by simp
    rw [if_pos hempty, hcleared, hempty]
    exact ⟨fun h _ => h, fun h => h rfl⟩
  · rw [if_neg hempty]
    refine iff_of_true ?_ fun h => absurd (Option.some_inj.mp h) hempty
    exact @traced_of_recorded _ _ (.file path) .text guid hfile hfile rfl fun q hq => by simp [hq]

theorem traced_handleLocalRename_iff (s : State) (oldPath newPath : Path) (kind : FileKind)
    (fresh : Guid) :
    Traced s.index (s.handleLocalRename oldPath newPath kind fresh).index ↔
      cond s (.rename oldPath newPath kind fresh) := by
  unfold handleLocalRename cond
  by_cases hidle : (s.destroyed || !s.initialSynced) = true
  · rw [if_pos hidle]
    refine iff_of_true (Traced.refl _) fun hdestroyed hsynced => ?_
    simp [hdestroyed, hsynced] at hidle
  rw [if_neg hidle]
  simp only [Bool.or_eq_true, Bool.not_eq_true', not_or, Bool.not_eq_true,
    Bool.not_eq_false] at hidle
  simp only [hidle, forall_const]
  cases kind with
  | text =>
      dsimp only
      cases hfile : s.index.files oldPath with
      | none =>
          simpa using traced_delete_structured_iff s.index oldPath
      | some guid =>
          have hguid : s.textGuid oldPath fresh = guid := by
            rw [textGuid, hfile]
            rfl
          simp only [Option.isSome_some, if_true, index_ensureDocument, hguid,
            index_removeStructuredDocument, index_removeDocument, index_bumpPathVersion]
          exact traced_publish_now_iff (by rw [hfile]; rfl) rfl
  | structured structuredKind =>
      dsimp only
      by_cases htracked : (s.index.structured oldPath).isSome = true
      · simp only [htracked, if_true, index_ensureStructuredDocument,
          index_removeStructuredDocument, index_removeDocument, index_bumpPathVersion]
        exact traced_publish_now_iff rfl htracked.symm
      · rw [if_neg htracked, if_neg htracked]
        cases hfile : s.index.files oldPath with
        | none =>
            refine iff_of_true ?_ fun h => by cases h
            simpa using Traced.refl s.index
        | some guid =>
            simpa using traced_recorded_note_iff hfile
  | binary => simpa using traced_delete_both_iff s.index oldPath
  | ignore => simpa using traced_delete_both_iff s.index oldPath

end State

/-! ## Runs -/

variable {s s' : State} {e : Event}

theorem traced_step_iff (h : step s e = some s') (hlocal : e.isLocal = true) :
    Traced s.index s'.index ↔ cond s e := by
  cases e with
  | delete path =>
      cases h
      exact iff_of_true (State.traced_applyLocalDeletion s path) trivial
  | rename oldPath newPath kind fresh =>
      cases h
      exact State.traced_handleLocalRename_iff s oldPath newPath kind fresh
  | ready i =>
      obtain ⟨p, hp, rfl⟩ := Option.map_eq_some_iff.mp h
      have hready := State.traced_ready_iff s p
      rw [show ({ s.ready p with pending := s.pending.eraseIdx i } : State).index =
        (s.ready p).index from rfl, hready]
      simp [cond, hp]
  | other next => cases hlocal

/-- The event, if it is a local delete or rename, leaves a trace of every guid it unmaps. -/
def LeavesTrace (s : State) (e : Event) : Prop :=
  e.isLocal = true → ∀ s', step s e = some s' → Traced s.index s'.index

theorem leavesTrace_iff (s : State) (e : Event) :
    LeavesTrace s e ↔ cond s e := by
  by_cases hlocal : e.isLocal = true
  · cases hstep : step s e with
    | some s' =>
        rw [← traced_step_iff hstep hlocal]
        refine ⟨fun h => h hlocal s' hstep, fun h _ t ht => ?_⟩
        rw [hstep, Option.some_inj] at ht
        exact ht ▸ h
    | none =>
        refine iff_of_true (fun _ t ht => by rw [hstep] at ht; cases ht) ?_
        cases e with
        | ready i =>
            intro p hp
            rw [step, hp] at hstep
            cases hstep
        | _ => cases hstep
  · cases e with
    | other next => exact iff_of_true (fun h => absurd h hlocal) trivial
    | _ => exact absurd rfl hlocal

/-- A note and a Canvas, both synced. -/
def synced : State where
  index :=
    { files := Function.update (fun _ => none) "note.md" (some "note")
      structured := Function.update (fun _ => none) "board.canvas" (some (some ⟨"board", .canvas⟩))
      trash := [] }
  documents := fun _ => none
  structuredDocuments := fun _ => none
  isDestroyed := fun _ => false
  made := 0
  localFileExists := fun path => path = "note.md"
  pathVersions := fun _ => 0
  destroyed := false
  initialSynced := true
  pending := []

/-- In every run each delete and each rename leaves its traces exactly when each meets the
condition. -/
theorem leavesTrace_run_iff (s : State) (events : List Event) :
    Meets LeavesTrace step s events ↔ Meets cond step s events :=
  meets_congr leavesTrace_iff s events

/-- The Canvas of a renamed file is gone without a trace. -/
theorem not_leavesTrace :
    ¬Meets LeavesTrace step synced [.rename "board.canvas" "board.md" .text "fresh"] := by
  intro h
  have hspares : synced.index.Spares [.structured "board.canvas"] none :=
    (leavesTrace_iff synced _).mp h.1 rfl rfl
  rcases hspares (.structured "board.canvas") (by simp) "board" rfl with h | ⟨q, hq, hguid⟩
  · cases h
  · cases q with
    | file path =>
        simp [Index.guidAt, synced, Function.update_apply] at hguid
    | structured path =>
        have hne : path ≠ "board.canvas" := by simpa using hq
        simp [Index.guidAt, synced, Function.update_of_ne hne] at hguid

end Realtime.Vault.Trash
