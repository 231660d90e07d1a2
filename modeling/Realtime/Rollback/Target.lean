import Mathlib.Tactic
import Realtime.Rollback.Outcome

/-!
# Reaching the target

When a rollback leaves the vault as the commit's tree says. It does if the index
has every path of the tree as the kind its extension says, and a few things about
the files hold; if one of them does not, some path ends up wrong.
-/

namespace Realtime.Rollback

open Lib

variable {V : Type} {f : Formats V}

/-! ## The target -/

/-- The kind of a structured file in the index. -/
def kindText : Kind → Option Str
  | .canvas => some canvasKind
  | .base => some baseKind
  | .markdown | .binary => none

/-- An attachment whose shim stands for a blob that is gone. -/
def Unrecoverable (s : Vault f) (path : Str) (bytes : Bytes) : Prop :=
  pathKind path = .binary ∧
    ∃ hash size, parseAttachmentShim bytes = some (hash, size) ∧ s.blobs hash = false

/-- The path is a note with the text. -/
def TextAt (s : Vault f) (path : Str) (bytes : Bytes) : Prop :=
  ∃ guid, s.index.view path = ⟨some guid, none, none⟩ ∧
    Str.fromUtf8 bytes = some (s.texts guid)

/-- The path is a structured file of the kind with the value. -/
def StructuredAt (s : Vault f) (path kind : Str) (bytes : Bytes) : Prop :=
  ∃ guid, s.index.view path = ⟨none, some (guid, kind), none⟩ ∧
    f.parse kind bytes = some (s.roots guid).1

/-- The path is an attachment with the blob. -/
def BinaryAt (s : Vault f) (path hash : Str) : Prop :=
  ∃ size, s.index.view path = ⟨none, none, some (hash, size)⟩ ∧ s.blobs hash = true

/-- The path is and holds what it was and held. -/
structure HoldsAs (s s' : Vault f) (path : Str) : Prop where
  view : s'.index.view path = s.index.view path
  text : ∀ guid, (s.index.view path).file = some guid → s'.texts guid = s.texts guid
  root : ∀ guid kind, (s.index.view path).structured = some (guid, kind) →
    s'.roots guid = s.roots guid
  blob : ∀ hash size, (s.index.view path).binary = some (hash, size) →
    s.blobs hash = true → s'.blobs hash = true

/-- A path of the tree after a rollback from `s` to `s'`. -/
def AtTarget (s s' : Vault f) (path : Str) (bytes : Bytes) : Prop :=
  match pathKind path with
  | .markdown => TextAt s' path bytes
  | .canvas => StructuredAt s' path canvasKind bytes
  | .base => StructuredAt s' path baseKind bytes
  | .binary =>
      match parseAttachmentShim bytes with
      | some (hash, _) => if s.blobs hash then BinaryAt s' path hash else HoldsAs s s' path
      | none => BinaryAt s' path (f.sha256Hex bytes)

/-- What a rollback from `s` to `s'` is for. -/
structure Reaches [DecidableEq V] (s : Vault f) (t : Tree) (s' : Vault f) : Prop where
  target : ∀ path bytes, (path, bytes) ∈ targets t.entries → AtTarget s s' path bytes
  gone : ∀ path, path ∉ Assoc.keys (targets t.entries) →
    s'.index.view path = ⟨none, none, none⟩ ∧
      (∀ guid, (s.index.view path).file = some guid → (path, guid) ∈ s'.index.trash) ∧
      (∀ guid kind, (s.index.view path).structured = some (guid, kind) →
        (path, guid) ∈ s'.index.trash) ∧
      ∀ hash size, (s.index.view path).binary = some (hash, size) →
        (path, hash) ∈ s'.index.trash
  kept : ∀ path ∈ Assoc.keys (targets t.entries),
    (∀ guid, (s.index.view path).file = some guid → (s'.index.view path).file = some guid) ∧
      ∀ entry, (s.index.view path).structured = some entry →
        (s'.index.view path).structured = some entry
  again : planRollback s' t.entries = some []

/-- The condition: each path of the tree that is in the index is there as the kind
its extension says (or is an unrecoverable attachment that already holds what would
be written), and the files can be held as they are. -/
structure Fits (s : Vault f) (t : Tree) : Prop where
  file : ∀ path bytes, (path, bytes) ∈ targets t.entries →
    ∀ guid, (s.index.view path).file = some guid → pathKind path = .markdown ∨
      (Unrecoverable s path bytes ∧ s.texts guid = Str.fromUtf8Lossy bytes)
  structured : ∀ path bytes, (path, bytes) ∈ targets t.entries →
    ∀ guid kind, (s.index.view path).structured = some (guid, kind) →
      kindText (pathKind path) = some kind ∨
        (Unrecoverable s path bytes ∧ f.parse kind bytes = some (s.roots guid).1)
  binary : ∀ path ∈ Assoc.keys (targets t.entries), (s.index.view path).binary.isSome →
    pathKind path = .binary
  /-- A note is UTF-8. -/
  utf8 : ∀ path bytes, (path, bytes) ∈ targets t.entries → pathKind path = .markdown →
    (Str.fromUtf8 bytes).isSome
  /-- A structured value can be read back. -/
  settled : ∀ path bytes kind value, (path, bytes) ∈ targets t.entries →
    kindText (pathKind path) = some kind → f.parse kind bytes = some value →
    f.settle value = value
  /-- Two paths with one document have the same file. -/
  texts : ∀ path bytes path' bytes' guid, (path, bytes) ∈ targets t.entries →
    (path', bytes') ∈ targets t.entries → (s.index.view path).file = some guid →
    (s.index.view path').file = some guid → Str.fromUtf8Lossy bytes = Str.fromUtf8Lossy bytes'
  roots : ∀ path bytes path' bytes' guid kind kind', (path, bytes) ∈ targets t.entries →
    (path', bytes') ∈ targets t.entries → (s.index.view path).structured = some (guid, kind) →
    (s.index.view path').structured = some (guid, kind') →
    f.parse kind bytes = f.parse kind' bytes'
  /-- The size in a shim fits the index. -/
  sizes : ∀ path bytes hash size, (path, bytes) ∈ targets t.entries →
    pathKind path = .binary → parseAttachmentShim bytes = some (hash, size) →
    s.blobs hash = true →
    size < 2 ^ 63 ∨ (s.index.view path).binary.map Prod.fst = some hash
  /-- No other file of the tree has the blob that an unrecoverable attachment lacks. -/
  revived : ∀ path bytes hash size path' bytes', (path, bytes) ∈ targets t.entries →
    (path', bytes') ∈ targets t.entries → pathKind path = .binary →
    (s.index.view path).file = none → (s.index.view path).structured = none →
    parseAttachmentShim bytes = some (hash, size) → s.blobs hash = false →
    pathKind path' = .binary → parseAttachmentShim bytes' = none →
    f.sha256Hex bytes' = hash →
    (s.index.view path).binary.map Prod.fst = some hash ∨ size = sentinel

/-- A new document has an id that no document of the index has. -/
structure Fresh (uuid : Str → Str) (s : Vault f) : Prop where
  injective : Function.Injective uuid
  file : ∀ path path' guid, (s.index.view path').file = some guid → uuid path ≠ guid
  structured : ∀ path path' guid kind, (s.index.view path').structured = some (guid, kind) →
    uuid path ≠ guid

/-! ## What an entry asks for -/

section Entry

variable [DecidableEq V] {s s' : Vault f} {path guid kind : Str} {bytes : Bytes}

theorem planEntry_file (hfile : (s.index.view path).file = some guid) :
    planEntry s path bytes = some (if s.texts guid = Str.fromUtf8Lossy bytes then none
      else some (.setText path (some guid) (Str.fromUtf8Lossy bytes))) := by
  have hfile : Assoc.get path s.index.files = some guid := hfile
  simp only [planEntry, classify, planMarkdown, hfile, Option.isSome_some, if_true]

theorem planEntry_structured (hfile : (s.index.view path).file = none)
    (hstructured : (s.index.view path).structured = some (guid, kind)) :
    planEntry s path bytes = (f.parse kind bytes).map fun value =>
      if (s.roots guid).1 = value then none
      else some (.setStructured path (some guid) kind value) := by
  have hfile : Assoc.get path s.index.files = none := hfile
  have hstructured : Assoc.get path s.index.structured = some (guid, kind) := hstructured
  simp only [planEntry, classify, planStructured, hfile, hstructured, Option.isSome_none,
    Bool.false_eq_true, if_false]
  cases f.parse kind bytes with
  | none => rfl
  | some value =>
      show (if _ then _ else _) = some (if _ then _ else _)
      split <;> rfl

theorem planEntry_binary (hfile : (s.index.view path).file = none)
    (hstructured : (s.index.view path).structured = none)
    (hbinary : (s.index.view path).binary.isSome ∨ pathKind path = .binary) :
    planEntry s path bytes = some (planBinary s path bytes) := by
  have hfile : Assoc.get path s.index.files = none := hfile
  have hstructured : Assoc.get path s.index.structured = none := hstructured
  have hclass : classify s.index path = .binary := by
    simp only [classify, hfile, hstructured, Option.isSome_none, Bool.false_eq_true, if_false]
    split
    · rfl
    · next hnone =>
      rcases hbinary with hbinary | hbinary
      · exact absurd hbinary hnone
      · rw [hbinary]
  simp only [planEntry, hclass]

theorem planEntry_new_markdown (hview : s.index.view path = ⟨none, none, none⟩)
    (hkind : pathKind path = .markdown) :
    planEntry s path bytes =
      some (some (.setText path none (Str.fromUtf8Lossy bytes))) := by
  obtain ⟨hfile, hstructured, hbinary⟩ := At.mk.inj hview
  simp [planEntry, classify, planMarkdown, hfile, hstructured, hbinary, hkind]

theorem planEntry_new_structured (hview : s.index.view path = ⟨none, none, none⟩)
    (hkind : kindText (pathKind path) = some kind) :
    planEntry s path bytes = (f.parse kind bytes).map fun value =>
      some (.setStructured path none kind value) := by
  obtain ⟨hfile, hstructured, hbinary⟩ := At.mk.inj hview
  have hclass : classify s.index path = .structured kind := by
    simp only [classify, hfile, hstructured, hbinary, Option.isSome_none, Bool.false_eq_true,
      if_false]
    cases hpath : pathKind path <;> rw [hpath] at hkind <;> cases hkind <;> rfl
  simp only [planEntry, planStructured, hclass, hstructured]
  cases f.parse kind bytes <;> rfl

/-- The four things the index can say of a path. -/
theorem Index.Ok.view_cases {ix : Index} (h : ix.Ok) (path : Str) :
    ix.view path = ⟨none, none, none⟩ ∨ (∃ guid, ix.view path = ⟨some guid, none, none⟩) ∨
      (∃ guid kind, ix.view path = ⟨none, some (guid, kind), none⟩) ∨
      ∃ hash size, ix.view path = ⟨none, none, some (hash, size)⟩ := by
  have hmem : ∀ {α : Type} {t : List (Str × α)}, path ∉ Assoc.keys t → Assoc.get path t = none :=
    Assoc.get_eq_none_iff.mpr
  have hsome : ∀ {α : Type} {t : List (Str × α)} {v : α}, Assoc.get path t = some v →
      path ∈ Assoc.keys t := fun h => Assoc.get_isSome_iff.mp (by rw [h]; rfl)
  cases hfile : Assoc.get path ix.files with
  | some guid =>
      refine .inr (.inl ⟨guid, ?_⟩)
      rw [Index.view, hfile, hmem (h.files_structured path (hsome hfile)),
        hmem (h.files_binaries path (hsome hfile))]
  | none =>
      cases hstructured : Assoc.get path ix.structured with
      | some entry =>
          refine .inr (.inr (.inl ⟨entry.1, entry.2, ?_⟩))
          rw [Index.view, hfile, hstructured,
            hmem (h.structured_binaries path (hsome hstructured))]
      | none =>
          cases hbinary : Assoc.get path ix.binaries with
          | some entry =>
              refine .inr (.inr (.inr ⟨entry.1, entry.2, ?_⟩))
              rw [Index.view, hfile, hstructured, hbinary]
          | none =>
              refine .inl ?_
              rw [Index.view, hfile, hstructured, hbinary]

/-! ## Where an operation comes from -/

theorem planEntry_setText {path' content : Str} {guid : Option Str}
    (h : planEntry s path bytes = some (some (.setText path' guid content))) :
    path' = path ∧ content = Str.fromUtf8Lossy bytes ∧ guid = (s.index.view path).file := by
  unfold planEntry at h
  split at h
  · unfold planMarkdown at h
    split at h
    · next g hg =>
      split at h <;> cases h
      exact ⟨rfl, rfl, hg.symm⟩
    · next hg =>
      cases h
      exact ⟨rfl, rfl, hg.symm⟩
  · unfold planStructured at h
    split at h
    · cases h
    · split at h
      · split at h <;> cases h
      · cases h
  · unfold planBinary at h
    split at h
    · split_ifs at h <;> cases h
    · split_ifs at h <;> cases h

theorem planEntry_setStructured {path' kind' : Str} {guid : Option Str} {value : V}
    (h : planEntry s path bytes = some (some (.setStructured path' guid kind' value))) :
    path' = path ∧ f.parse kind' bytes = some value ∧
      ((guid = none ∧ (s.index.view path).structured = none) ∨
        ∃ g, guid = some g ∧ (s.index.view path).structured = some (g, kind')) := by
  unfold planEntry at h
  split at h
  · unfold planMarkdown at h
    split at h
    · split at h <;> cases h
    · cases h
  · next k hclass =>
    unfold planStructured at h
    split at h
    · cases h
    · next v hv =>
      split at h
      · next g k' hg =>
        split at h <;> cases h
        refine ⟨rfl, hv, .inr ⟨g, rfl, ?_⟩⟩
        -- the kind is that of the entry
        simp only [classify, hg] at hclass
        split at hclass
        · cases hclass
        · cases hclass
          exact hg
      · next hg =>
        cases h
        exact ⟨rfl, hv, .inl ⟨rfl, hg⟩⟩
  · unfold planBinary at h
    split at h
    · split_ifs at h <;> cases h
    · split_ifs at h <;> cases h

/-- A blob is restored from a file that is no shim. -/
theorem planEntry_restores {op : PlannedOp V} {hash : Str}
    (h : planEntry s path bytes = some (some op)) (hrestores : op.restores = some hash) :
    parseAttachmentShim bytes = none ∧ f.sha256Hex bytes = hash ∧
      ((s.index.view path).binary.isSome ∨ pathKind path = .binary) := by
  unfold planEntry at h
  split at h
  · unfold planMarkdown at h
    split at h
    · split at h <;> cases h
      cases hrestores
    · cases h
      cases hrestores
  · unfold planStructured at h
    split at h
    · cases h
    · split at h
      · split at h <;> cases h
        cases hrestores
      · cases h
        cases hrestores
  · next hclass =>
    have hbinary : (s.index.view path).binary.isSome ∨ pathKind path = .binary := by
      unfold classify at hclass
      split at hclass
      · cases hclass
      · split at hclass
        · cases hclass
        · split at hclass
          · next hsome => exact .inl hsome
          · split at hclass
            · cases hclass
            · cases hclass
            · cases hclass
            · next hkind => exact .inr hkind
    unfold planBinary at h
    split at h
    · split_ifs at h <;> cases h <;> cases hrestores
    · next hshim =>
      split_ifs at h <;> cases h <;> cases hrestores
      exact ⟨hshim, rfl, hbinary⟩

end Entry

/-! ## Plan and outcome of one path -/

theorem Outcome.blob_of_blob {uuid : Str → Str} {s s' : Vault f} {planned : List (PlannedOp V)}
    {hash : Str} (hout : Outcome uuid s planned s') (h : s.blobs hash = true) :
    s'.blobs hash = true :=
  (hout.documents.blob hash).mpr (.inl h)

section Paths

variable [DecidableEq V] {uuid : Str → Str} {s s' : Vault f} {t : Tree}
  {planned : List (PlannedOp V)} {path guid kind hash : Str} {bytes : Bytes} {op : PlannedOp V}

theorem exists_planEntry (hplan : planRollback s t.entries = some planned)
    (hmem : (path, bytes) ∈ targets t.entries) : ∃ r, planEntry s path bytes = some r := by
  obtain ⟨ops, hops, _⟩ := Option.map_eq_some_iff.mp hplan
  exact (planEntries_spec hops).1 _ hmem

theorem mem_planned_of_entry (hplan : planRollback s t.entries = some planned)
    (hmem : (path, bytes) ∈ targets t.entries) (hop : planEntry s path bytes = some (some op))
    (hrec : op.isUnrecoverable = false) : op ∈ planned :=
  (mem_planned hplan).mpr (.inl ⟨_, hmem, hop, hrec⟩)

/-- The operation of a path of the tree is the one its entry asks for. -/
theorem entry_of_mem_planned (hplan : planRollback s t.entries = some planned)
    (hmem : (path, bytes) ∈ targets t.entries) (hop : op ∈ planned) (hpath : op.path = path) :
    planEntry s path bytes = some (some op) ∧ op.isUnrecoverable = false := by
  rcases (mem_planned hplan).mp hop with ⟨⟨path', bytes'⟩, hmem', hop', hrec⟩ | hremove
  · have heq : path' = path := (planEntry_path hop').symm.trans hpath
    subst heq
    have hget := Assoc.get_of_mem t.distinct_targets hmem
    rw [Assoc.get_of_mem t.distinct_targets hmem', Option.some_inj] at hget
    subst hget
    exact ⟨hop', hrec⟩
  · refine absurd ?_ (mem_planRemovals.mp hremove).1
    rw [hpath]
    exact List.mem_map_of_mem hmem

/-- Without an operation the entry of the path stays. -/
theorem Outcome.view_eq (hplan : planRollback s t.entries = some planned)
    (hout : Outcome uuid s planned s') (hmem : (path, bytes) ∈ targets t.entries)
    (hnone : ∀ op, planEntry s path bytes = some (some op) → op.isUnrecoverable = true) :
    s'.index.view path = s.index.view path := by
  refine hout.view_of_ne path fun op hop hpath => ?_
  obtain ⟨hentry, hrec⟩ := entry_of_mem_planned hplan hmem hop hpath
  rw [hnone op hentry] at hrec
  cases hrec

theorem Outcome.view_of_entry (hplan : planRollback s t.entries = some planned)
    (hout : Outcome uuid s planned s') (hmem : (path, bytes) ∈ targets t.entries)
    (hop : planEntry s path bytes = some (some op)) (hrec : op.isUnrecoverable = false) :
    s'.index.view path = op.effect uuid (s.index.view path) := by
  have hpath := planEntry_path hop
  have hview := hout.view_of_mem op (mem_planned_of_entry hplan hmem hop hrec)
  rw [hpath] at hview
  exact hview

theorem Outcome.view_file (hplan : planRollback s t.entries = some planned)
    (hout : Outcome uuid s planned s') (hmem : (path, bytes) ∈ targets t.entries)
    (hfile : (s.index.view path).file = some guid) :
    s'.index.view path = s.index.view path := by
  have hentry : planEntry s path bytes = _ := planEntry_file hfile
  by_cases htext : s.texts guid = Str.fromUtf8Lossy bytes
  · rw [if_pos htext] at hentry
    exact hout.view_eq hplan hmem fun op hop => by rw [hentry] at hop; cases hop
  · rw [if_neg htext] at hentry
    exact hout.view_of_entry hplan hmem hentry rfl

theorem Outcome.view_structured (hplan : planRollback s t.entries = some planned)
    (hout : Outcome uuid s planned s') (hmem : (path, bytes) ∈ targets t.entries)
    (hfile : (s.index.view path).file = none)
    (hstructured : (s.index.view path).structured = some (guid, kind)) :
    s'.index.view path = s.index.view path := by
  have hentry : planEntry s path bytes = _ := planEntry_structured hfile hstructured
  cases hparse : f.parse kind bytes with
  | none =>
      obtain ⟨r, hr⟩ := exists_planEntry hplan hmem
      rw [hentry, hparse] at hr
      cases hr
  | some value =>
      rw [hparse, Option.map_some] at hentry
      by_cases hroot : (s.roots guid).1 = value
      · rw [if_pos hroot] at hentry
        exact hout.view_eq hplan hmem fun op hop => by rw [hentry] at hop; cases hop
      · rw [if_neg hroot] at hentry
        exact hout.view_of_entry hplan hmem hentry rfl

/-! ## Documents -/

/-- The text of a note that has a document, if all its paths ask for the same. -/
theorem Outcome.text_file (hplan : planRollback s t.entries = some planned)
    (hout : Outcome uuid s planned s') (hfresh : Fresh uuid s)
    (hmem : (path, bytes) ∈ targets t.entries) (hfile : (s.index.view path).file = some guid)
    (hshared : ∀ path' bytes', (path', bytes') ∈ targets t.entries →
      (s.index.view path').file = some guid →
      Str.fromUtf8Lossy bytes' = Str.fromUtf8Lossy bytes) :
    s'.texts guid = Str.fromUtf8Lossy bytes := by
  rcases hout.documents.text guid with ⟨hsame, hnone⟩ | ⟨op, hop, hset⟩
  · by_contra htext
    rw [hsame] at htext
    have hentry : planEntry s path bytes = _ := planEntry_file hfile
    rw [if_neg htext] at hentry
    exact hnone _ (mem_planned_of_entry hplan hmem hentry rfl) _ rfl
  · cases op with
    | setText path' guid' content =>
        simp only [PlannedOp.textDocument, Option.some_inj, Prod.mk.injEq] at hset
        obtain ⟨hguid, hcontent⟩ := hset
        rcases (mem_planned hplan).mp hop with ⟨⟨q, c⟩, hq, hentry, _⟩ | hremove
        · obtain ⟨rfl, rfl, hview⟩ := planEntry_setText hentry
          rw [← hcontent]
          refine hshared _ _ hq ?_
          cases guid' with
          | none => exact absurd hguid (hfresh.file _ _ _ hfile)
          | some g =>
              rw [← hview]
              exact congrArg some hguid
        · rcases (mem_planRemovals.mp hremove).2 with ⟨h, _⟩ | ⟨h, _⟩ | ⟨h, _⟩ <;> cases h
    | _ => cases hset

/-- The value of a structured file that has a document. -/
theorem Outcome.root_structured {value : V} (hplan : planRollback s t.entries = some planned)
    (hout : Outcome uuid s planned s') (hfresh : Fresh uuid s)
    (hmem : (path, bytes) ∈ targets t.entries) (hfile : (s.index.view path).file = none)
    (hstructured : (s.index.view path).structured = some (guid, kind))
    (hparse : f.parse kind bytes = some value) (hsettled : f.settle value = value)
    (hshared : ∀ path' bytes' kind', (path', bytes') ∈ targets t.entries →
      (s.index.view path').structured = some (guid, kind') → f.parse kind' bytes' = some value) :
    (s'.roots guid).1 = value := by
  rcases hout.documents.root guid with ⟨hsame, hnone⟩ | ⟨op, hop, v, hset, hroot⟩
  · by_contra hne
    rw [hsame] at hne
    have hentry : planEntry s path bytes = _ := planEntry_structured hfile hstructured
    rw [hparse, Option.map_some, if_neg hne] at hentry
    exact hnone _ (mem_planned_of_entry hplan hmem hentry rfl) _ rfl
  · cases op with
    | setStructured path' guid' kind' value' =>
        simp only [PlannedOp.rootDocument, Option.some_inj, Prod.mk.injEq] at hset
        obtain ⟨hguid, rfl⟩ := hset
        rcases (mem_planned hplan).mp hop with ⟨⟨q, c⟩, hq, hentry, _⟩ | hremove
        · obtain ⟨rfl, hvalue, hdoc⟩ := planEntry_setStructured hentry
          rcases hdoc with ⟨rfl, _⟩ | ⟨g, rfl, hview⟩
          · exact absurd hguid (hfresh.structured _ _ _ _ hstructured)
          · have hguid : g = guid := hguid
            have hsame := hshared _ _ kind' hq (hguid ▸ hview)
            rw [hvalue, Option.some_inj] at hsame
            rw [hroot, hsame, hsettled]
        · rcases (mem_planRemovals.mp hremove).2 with ⟨h, _⟩ | ⟨h, _⟩ | ⟨h, _⟩ <;> cases h
    | _ => cases hset

/-- The text of a new note. -/
theorem Outcome.text_new {content : Str} (hok : s.index.Ok)
    (hplan : planRollback s t.entries = some planned) (hout : Outcome uuid s planned s')
    (hfresh : Fresh uuid s) (hop : .setText path none content ∈ planned) :
    s'.texts (uuid path) = content := by
  rcases hout.documents.text (uuid path) with ⟨_, hnone⟩ | ⟨op, hop', hset⟩
  · exact absurd rfl (hnone _ hop content)
  · cases op with
    | setText path' guid' content' =>
        simp only [PlannedOp.textDocument, Option.some_inj, Prod.mk.injEq] at hset
        obtain ⟨hguid, hcontent⟩ := hset
        rcases (mem_planned hplan).mp hop' with ⟨⟨q, c⟩, hq, hentry, _⟩ | hremove
        · obtain ⟨rfl, _, hview⟩ := planEntry_setText hentry
          cases guid' with
          | some g => exact absurd hguid.symm (hfresh.file path _ g hview.symm)
          | none =>
              -- the same path, hence the same operation
              have hpath := hfresh.injective hguid
              have heq := List.inj_on_of_nodup_map (planned_paths_nodup hok hplan) hop' hop hpath
              injection heq with _ _ heq
              rw [← hcontent, heq]
        · rcases (mem_planRemovals.mp hremove).2 with ⟨h, _⟩ | ⟨h, _⟩ | ⟨h, _⟩ <;> cases h
    | _ => cases hset

/-- The value of a new structured file. -/
theorem Outcome.root_new {value : V} (hok : s.index.Ok)
    (hplan : planRollback s t.entries = some planned) (hout : Outcome uuid s planned s')
    (hfresh : Fresh uuid s) (hop : .setStructured path none kind value ∈ planned) :
    (s'.roots (uuid path)).1 = f.settle value := by
  rcases hout.documents.root (uuid path) with ⟨_, hnone⟩ | ⟨op, hop', v, hset, hroot⟩
  · exact absurd rfl (hnone _ hop value)
  · cases op with
    | setStructured path' guid' kind' value' =>
        simp only [PlannedOp.rootDocument, Option.some_inj, Prod.mk.injEq] at hset
        obtain ⟨hguid, rfl⟩ := hset
        rcases (mem_planned hplan).mp hop' with ⟨⟨q, c⟩, hq, hentry, _⟩ | hremove
        · obtain ⟨rfl, _, hdoc⟩ := planEntry_setStructured hentry
          rcases hdoc with ⟨rfl, _⟩ | ⟨g, rfl, hview⟩
          · have hpath := hfresh.injective hguid
            have heq := List.inj_on_of_nodup_map (planned_paths_nodup hok hplan) hop' hop hpath
            injection heq with _ _ _ heq
            rw [hroot, heq]
          · exact absurd hguid.symm (hfresh.structured path _ g _ hview)
        · rcases (mem_planRemovals.mp hremove).2 with ⟨h, _⟩ | ⟨h, _⟩ | ⟨h, _⟩ <;> cases h
    | _ => cases hset

/-! ## Attachments -/

/-- A blob that was not there comes from a file of the tree. -/
theorem Outcome.blob_new (hplan : planRollback s t.entries = some planned)
    (hout : Outcome uuid s planned s') (hold : s.blobs hash = false)
    (hnew : s'.blobs hash = true) :
    ∃ path bytes, (path, bytes) ∈ targets t.entries ∧ parseAttachmentShim bytes = none ∧
      f.sha256Hex bytes = hash ∧
      ((s.index.view path).binary.isSome ∨ pathKind path = .binary) := by
  rcases (hout.documents.blob hash).mp hnew with h | ⟨op, hop, hrestores⟩
  · rw [hold] at h
    cases h
  · rcases (mem_planned hplan).mp hop with ⟨⟨q, c⟩, hq, hentry, _⟩ | hremove
    · exact ⟨q, c, hq, planEntry_restores hentry hrestores⟩
    · rcases (mem_planRemovals.mp hremove).2 with ⟨h, _⟩ | ⟨h, _⟩ | ⟨h, _⟩ <;>
        rw [h] at hrestores <;> cases hrestores

/-- A file that is no shim becomes the attachment. -/
theorem Outcome.binaryAt_raw (hplan : planRollback s t.entries = some planned)
    (hout : Outcome uuid s planned s') (hmem : (path, bytes) ∈ targets t.entries)
    (hfile : (s.index.view path).file = none)
    (hstructured : (s.index.view path).structured = none)
    (hbinary : (s.index.view path).binary.isSome ∨ pathKind path = .binary)
    (hshim : parseAttachmentShim bytes = none) : BinaryAt s' path (f.sha256Hex bytes) := by
  have hentry : planEntry s path bytes = _ := planEntry_binary hfile hstructured hbinary
  have hlength : bytes.length < 2 ^ 63 := t.short _ (List.mem_of_mem_filter hmem)
  have hrec : ∀ blob, (PlannedOp.setBinary path (f.sha256Hex bytes) bytes.length blob :
      PlannedOp V).isUnrecoverable = false := fun blob => by
    have hne : bytes.length ≠ sentinel := by
      unfold sentinel
      omega
    exact decide_eq_false hne
  have hset : ∀ blob, planEntry s path bytes =
      some (some (.setBinary path (f.sha256Hex bytes) bytes.length blob)) →
      s'.index.view path = ⟨none, none, some (f.sha256Hex bytes, bytes.length)⟩ := fun blob h => by
    rw [hout.view_of_entry hplan hmem h (hrec blob), PlannedOp.effect, if_pos hlength, hfile,
      hstructured]
  simp only [planBinary, hshim] at hentry
  split_ifs at hentry with hblob hsame
  · have hop := mem_planned_of_entry hplan hmem hentry (hrec _)
    exact ⟨_, hset _ hentry, (hout.documents.blob _).mpr (.inr ⟨_, hop, rfl⟩)⟩
  · obtain ⟨entry, hget, hhash⟩ := Option.map_eq_some_iff.mp hsame
    refine ⟨entry.2, ?_, hout.blob_of_blob (by simpa using hblob)⟩
    rw [hout.view_eq hplan hmem fun op hop => by rw [hentry] at hop; cases hop]
    rw [Index.view, hget, ← hhash]
    exact congrArg₂ (At.mk · · (some entry)) hfile hstructured
  · exact ⟨_, hset _ hentry, hout.blob_of_blob (by simpa using hblob)⟩

/-- What becomes of the entry of a shim whose blob is there. -/
theorem Outcome.view_shim {size : Nat} (hplan : planRollback s t.entries = some planned)
    (hout : Outcome uuid s planned s') (hmem : (path, bytes) ∈ targets t.entries)
    (hfile : (s.index.view path).file = none)
    (hstructured : (s.index.view path).structured = none)
    (hbinary : (s.index.view path).binary.isSome ∨ pathKind path = .binary)
    (hshim : parseAttachmentShim bytes = some (hash, size)) (hblob : s.blobs hash = true) :
    s'.index.view path =
      if (s.index.view path).binary.map Prod.fst = some hash ∨ size = sentinel then
        s.index.view path
      else ⟨none, none, if size < 2 ^ 63 then some (hash, size) else none⟩ := by
  have hentry : planEntry s path bytes = _ := planEntry_binary hfile hstructured hbinary
  simp only [planBinary, hshim, hblob, Bool.not_true, Bool.false_eq_true, if_false] at hentry
  have hentry : planEntry s path bytes =
      some (if (s.index.view path).binary.map Prod.fst = some hash then none
        else some (.setBinary path hash size none)) := hentry
  by_cases hsame : (s.index.view path).binary.map Prod.fst = some hash
  · rw [if_pos hsame] at hentry
    rw [if_pos (.inl hsame)]
    exact hout.view_eq hplan hmem fun op hop => by rw [hentry] at hop; cases hop
  · rw [if_neg hsame] at hentry
    by_cases hsize : size = sentinel
    · rw [if_pos (.inr hsize)]
      refine hout.view_eq hplan hmem fun op hop => ?_
      rw [hentry] at hop
      cases hop
      simpa [PlannedOp.isUnrecoverable] using hsize
    · rw [if_neg (not_or.mpr ⟨hsame, hsize⟩)]
      rw [hout.view_of_entry hplan hmem hentry (by simpa [PlannedOp.isUnrecoverable] using hsize),
        PlannedOp.effect, hfile, hstructured]

/-- A shim whose blob is gone leaves the entry. -/
theorem Outcome.view_unrecoverable {size : Nat}
    (hplan : planRollback s t.entries = some planned) (hout : Outcome uuid s planned s')
    (hmem : (path, bytes) ∈ targets t.entries) (hfile : (s.index.view path).file = none)
    (hstructured : (s.index.view path).structured = none)
    (hbinary : (s.index.view path).binary.isSome ∨ pathKind path = .binary)
    (hshim : parseAttachmentShim bytes = some (hash, size)) (hblob : s.blobs hash = false) :
    s'.index.view path = s.index.view path := by
  have hentry : planEntry s path bytes = _ := planEntry_binary hfile hstructured hbinary
  simp only [planBinary, hshim, hblob, Bool.not_false, if_true] at hentry
  refine hout.view_eq hplan hmem fun op hop => ?_
  rw [hentry] at hop
  cases hop
  rfl

/-! ## Paths that are not in the tree -/

theorem Outcome.gone (hok : s.index.Ok) (hplan : planRollback s t.entries = some planned)
    (hout : Outcome uuid s planned s') (hpath : path ∉ Assoc.keys (targets t.entries)) :
    s'.index.view path = ⟨none, none, none⟩ ∧
      (∀ guid, (s.index.view path).file = some guid → (path, guid) ∈ s'.index.trash) ∧
      (∀ guid kind, (s.index.view path).structured = some (guid, kind) →
        (path, guid) ∈ s'.index.trash) ∧
      ∀ hash size, (s.index.view path).binary = some (hash, size) →
        (path, hash) ∈ s'.index.trash := by
  have hin : ∀ {α : Type} {m : List (Str × α)} {v : α}, Assoc.get path m = some v →
      path ∈ Assoc.keys m := fun h => Assoc.get_isSome_iff.mp (by rw [h]; rfl)
  have hfile : ∀ guid, (s.index.view path).file = some guid → .removeFile path ∈ planned :=
    fun guid h => (mem_planned hplan).mpr (.inr (mem_planRemovals.mpr
      ⟨hpath, .inl ⟨rfl, hin h⟩⟩))
  have hstructured : ∀ e, (s.index.view path).structured = some e →
      .removeStructured path ∈ planned :=
    fun e h => (mem_planned hplan).mpr (.inr (mem_planRemovals.mpr
      ⟨hpath, .inr (.inl ⟨rfl, hin h⟩)⟩))
  have hbinary : ∀ e, (s.index.view path).binary = some e → .removeBinary path ∈ planned :=
    fun e h => (mem_planned hplan).mpr (.inr (mem_planRemovals.mpr
      ⟨hpath, .inr (.inr ⟨rfl, hin h⟩)⟩))
  refine ⟨?_, fun guid h => hout.trashFile path guid (hfile guid h) h,
    fun guid kind h => hout.trashStructured path guid kind (hstructured _ h) h,
    fun hash size h => hout.trashBinary path hash size (hbinary _ h) h⟩
  rcases hok.view_cases path with hview | ⟨guid, hview⟩ | ⟨guid, kind, hview⟩ | ⟨hash, size, hview⟩
  · -- nothing to remove, and nothing is created outside the tree
    rw [hout.view_of_ne path fun op hop heq => ?_, hview]
    rcases (mem_planned hplan).mp hop with ⟨⟨q, c⟩, hq, hentry, _⟩ | hremove
    · rw [planEntry_path hentry] at heq
      subst heq
      exact hpath (List.mem_map_of_mem hq)
    · have hkeys := (mem_planRemovals.mp hremove).2
      rw [heq] at hkeys
      obtain ⟨hf, hs, hb⟩ := At.mk.inj hview
      rcases hkeys with ⟨_, h⟩ | ⟨_, h⟩ | ⟨_, h⟩
      · exact Assoc.get_eq_none_iff.mp hf h
      · exact Assoc.get_eq_none_iff.mp hs h
      · exact Assoc.get_eq_none_iff.mp hb h
  · have hafter := hout.view_of_mem _ (hfile guid (by rw [hview]))
    simp only [PlannedOp.path, PlannedOp.effect, hview] at hafter
    exact hafter
  · have hafter := hout.view_of_mem _ (hstructured _ (by rw [hview]))
    simp only [PlannedOp.path, PlannedOp.effect, hview] at hafter
    exact hafter
  · have hafter := hout.view_of_mem _ (hbinary _ (by rw [hview]))
    simp only [PlannedOp.path, PlannedOp.effect, hview] at hafter
    exact hafter

/-! ## Planning again -/

/-- The entry asks for nothing that would be done. -/
def Quiet (s : Vault f) (path : Str) (bytes : Bytes) : Prop :=
  ∃ r, planEntry s path bytes = some r ∧ ∀ op, r = some op → op.isUnrecoverable = true

theorem planEntries_quiet {entries : List (Str × Bytes)}
    (h : ∀ entry ∈ entries, Quiet s entry.1 entry.2) :
    ∃ ops, planEntries s entries = some ops ∧ ∀ op ∈ ops, op.isUnrecoverable = true := by
  induction entries with
  | nil => exact ⟨[], rfl, by simp⟩
  | cons entry entries ih =>
      obtain ⟨path, bytes⟩ := entry
      obtain ⟨r, hr, hrec⟩ := h _ List.mem_cons_self
      obtain ⟨ops, hops, hall⟩ := ih fun e he => h e (List.mem_cons_of_mem _ he)
      have hr : planEntry s path bytes = some r := hr
      refine ⟨r.toList ++ ops, by rw [planEntries, hr, hops], fun op hop => ?_⟩
      rcases List.mem_append.mp hop with hop | hop
      · exact hrec op (Option.mem_toList.mp hop)
      · exact hall op hop

theorem planRollback_eq_nil
    (hquiet : ∀ path bytes, (path, bytes) ∈ targets t.entries → Quiet s path bytes)
    (hgone : ∀ path, path ∉ Assoc.keys (targets t.entries) →
      s.index.view path = ⟨none, none, none⟩) :
    planRollback s t.entries = some [] := by
  obtain ⟨ops, hops, hall⟩ := planEntries_quiet fun entry he => hquiet entry.1 entry.2 he
  have hfilter : ops.filter (fun op => !op.isUnrecoverable) = [] :=
    List.filter_eq_nil_iff.mpr fun op hop => by simp [hall op hop]
  have hremovals : planRemovals (V := V) s.index t.entries = [] := by
    refine List.eq_nil_iff_forall_not_mem.mpr fun op hop => ?_
    obtain ⟨hout, hin⟩ := mem_planRemovals.mp hop
    obtain ⟨hf, hs, hb⟩ := At.mk.inj (hgone _ hout)
    rcases hin with ⟨_, h⟩ | ⟨_, h⟩ | ⟨_, h⟩
    · exact Assoc.get_eq_none_iff.mp hf h
    · exact Assoc.get_eq_none_iff.mp hs h
    · exact Assoc.get_eq_none_iff.mp hb h
  rw [planRollback, hops, Option.map_some, hfilter, hremovals]
  rfl

theorem quiet_of_planRollback_eq_nil (h : planRollback s t.entries = some [])
    (hmem : (path, bytes) ∈ targets t.entries) : Quiet s path bytes := by
  obtain ⟨r, hr⟩ := exists_planEntry h hmem
  refine ⟨r, hr, fun op hop => ?_⟩
  by_contra hrec
  rw [hop] at hr
  exact absurd (mem_planned_of_entry h hmem hr (by simpa using hrec)) List.not_mem_nil

theorem TextAt.quiet (h : TextAt s path bytes) : Quiet s path bytes := by
  obtain ⟨guid, hview, htext⟩ := h
  have hfile : (s.index.view path).file = some guid := by rw [hview]
  refine ⟨_, planEntry_file hfile, fun op hop => ?_⟩
  rw [if_pos (Str.fromUtf8Lossy_of_fromUtf8 htext).symm] at hop
  cases hop

theorem StructuredAt.quiet (h : StructuredAt s path kind bytes) : Quiet s path bytes := by
  obtain ⟨guid, hview, hparse⟩ := h
  refine ⟨none, ?_, by simp⟩
  rw [planEntry_structured (by rw [hview]) (by rw [hview]), hparse, Option.map_some, if_pos rfl]

theorem BinaryAt.quiet (h : BinaryAt s path hash)
    (hbytes : (∃ size, parseAttachmentShim bytes = some (hash, size)) ∨
      (parseAttachmentShim bytes = none ∧ f.sha256Hex bytes = hash)) : Quiet s path bytes := by
  obtain ⟨size, hview, hblob⟩ := h
  have hsame : (Assoc.get path s.index.binaries).map Prod.fst = some hash := by
    have hbinary : (s.index.view path).binary = some (hash, size) := by rw [hview]
    exact congrArg (Option.map Prod.fst) hbinary
  refine ⟨none, ?_, by simp⟩
  rw [planEntry_binary (by rw [hview]) (by rw [hview]) (.inl (by rw [hview]; rfl))]
  rcases hbytes with ⟨n, hshim⟩ | ⟨hshim, hhash⟩
  · simp [planBinary, hshim, hblob, hsame]
  · simp [planBinary, hshim, hhash, hblob, hsame]

end Paths

/-! ## The condition is enough -/

section Enough

variable [DecidableEq V] {uuid : Str → Str} {s s' : Vault f} {t : Tree}
  {planned : List (PlannedOp V)} {path guid kind hash : Str} {bytes : Bytes}

theorem Fits.atTarget_file (hfits : Fits s t) (hplan : planRollback s t.entries = some planned)
    (hout : Outcome uuid s planned s') (hfresh : Fresh uuid s)
    (hmem : (path, bytes) ∈ targets t.entries)
    (hview : s.index.view path = ⟨some guid, none, none⟩) : AtTarget s s' path bytes := by
  have hfile : (s.index.view path).file = some guid := by rw [hview]
  have hafter := hout.view_file hplan hmem hfile
  have htext : s'.texts guid = Str.fromUtf8Lossy bytes :=
    hout.text_file hplan hfresh hmem hfile fun path' bytes' hmem' hfile' =>
      hfits.texts path' bytes' path bytes guid hmem' hmem hfile' hfile
  rcases hfits.file path bytes hmem guid hfile with hkind |
    ⟨⟨hkind, hash, size, hshim, hblob⟩, hold⟩
  · rw [AtTarget, hkind]
    obtain ⟨text, hutf8⟩ := Option.isSome_iff_exists.mp (hfits.utf8 path bytes hmem hkind)
    refine ⟨guid, hafter.trans hview, ?_⟩
    rw [hutf8, htext, Str.fromUtf8Lossy_of_fromUtf8 hutf8]
  · rw [AtTarget, hkind]
    simp only [hshim, hblob, Bool.false_eq_true, if_false]
    refine ⟨hafter, fun g hg => ?_, fun g k hg => ?_, fun h n hb => ?_⟩
    · rw [hfile, Option.some_inj] at hg
      rw [← hg, htext, hold]
    · rw [hview] at hg
      cases hg
    · rw [hview] at hb
      cases hb

theorem Fits.atTarget_structured (hfits : Fits s t)
    (hplan : planRollback s t.entries = some planned) (hout : Outcome uuid s planned s')
    (hfresh : Fresh uuid s) (hmem : (path, bytes) ∈ targets t.entries)
    (hview : s.index.view path = ⟨none, some (guid, kind), none⟩) :
    AtTarget s s' path bytes := by
  have hfile : (s.index.view path).file = none := by rw [hview]
  have hstructured : (s.index.view path).structured = some (guid, kind) := by rw [hview]
  have hafter := hout.view_structured hplan hmem hfile hstructured
  -- the file parses, or there would be no plan
  obtain ⟨value, hparse⟩ : ∃ value, f.parse kind bytes = some value := by
    obtain ⟨r, hr⟩ := exists_planEntry hplan hmem
    rw [planEntry_structured hfile hstructured] at hr
    obtain ⟨value, hvalue, _⟩ := Option.map_eq_some_iff.mp hr
    exact ⟨value, hvalue⟩
  have hroot : f.settle value = value → (s'.roots guid).1 = value := fun hsettled =>
    hout.root_structured hplan hfresh hmem hfile hstructured hparse hsettled
      fun path' bytes' kind' hmem' hstructured' => by
        rw [hfits.roots path' bytes' path bytes guid kind' kind hmem' hmem hstructured' hstructured]
        exact hparse
  rcases hfits.structured path bytes hmem guid kind hstructured with
    hkind | ⟨⟨hkind, hash, size, hshim, hblob⟩, hold⟩
  · have hat : StructuredAt s' path kind bytes := by
      refine ⟨guid, hafter.trans hview, ?_⟩
      rw [hroot (hfits.settled path bytes kind value hmem hkind hparse)]
      exact hparse
    unfold AtTarget
    cases hpath : pathKind path <;> rw [hpath] at hkind <;> cases hkind <;> exact hat
  · rw [AtTarget, hkind]
    simp only [hshim, hblob, Bool.false_eq_true, if_false]
    rw [hparse, Option.some_inj] at hold
    refine ⟨hafter, fun g hg => ?_, fun g k hg => ?_, fun h n hb => ?_⟩
    · rw [hfile] at hg
      cases hg
    · rw [hstructured, Option.some_inj, Prod.mk.injEq] at hg
      rw [← hg.1]
      exact Subtype.ext ((hroot (hold ▸ (s.roots guid).2)).trans hold)
    · rw [hview] at hb
      cases hb

theorem Fits.atTarget_binary (hfits : Fits s t) (hplan : planRollback s t.entries = some planned)
    (hout : Outcome uuid s planned s') (hmem : (path, bytes) ∈ targets t.entries)
    (hfile : (s.index.view path).file = none)
    (hstructured : (s.index.view path).structured = none) (hkind : pathKind path = .binary) :
    AtTarget s s' path bytes := by
  rw [AtTarget, hkind]
  cases hshim : parseAttachmentShim bytes with
  | none => exact hout.binaryAt_raw hplan hmem hfile hstructured (.inr hkind) hshim
  | some shim =>
      obtain ⟨hash, size⟩ := shim
      cases hblob : s.blobs hash with
      | true =>
          simp only [hblob, if_true]
          have hafter := hout.view_shim hplan hmem hfile hstructured (.inr hkind) hshim hblob
          by_cases hsame : (s.index.view path).binary.map Prod.fst = some hash
          · rw [if_pos (.inl hsame)] at hafter
            obtain ⟨entry, hentry, hhash⟩ := Option.map_eq_some_iff.mp hsame
            refine ⟨entry.2, ?_, hout.blob_of_blob hblob⟩
            rw [hafter, ← hhash]
            exact At.mk.injEq .. ▸ ⟨hfile, hstructured, hentry⟩
          · have hsize : size < 2 ^ 63 :=
              (hfits.sizes path bytes hash size hmem hkind hshim hblob).resolve_right hsame
            have hne : size ≠ sentinel := by
              unfold sentinel
              omega
            rw [if_neg (not_or.mpr ⟨hsame, hne⟩), if_pos hsize] at hafter
            exact ⟨size, hafter, hout.blob_of_blob hblob⟩
      | false =>
          simp only [hblob, Bool.false_eq_true, if_false]
          refine ⟨hout.view_unrecoverable hplan hmem hfile hstructured (.inr hkind) hshim hblob,
            fun g hg => ?_, fun g k hg => ?_, fun h n hb => hout.blob_of_blob⟩
          · rw [hfile] at hg
            cases hg
          · rw [hstructured] at hg
            cases hg

theorem Fits.structuredAt_new (hfits : Fits s t) (hok : s.index.Ok)
    (hplan : planRollback s t.entries = some planned) (hout : Outcome uuid s planned s')
    (hfresh : Fresh uuid s) (hmem : (path, bytes) ∈ targets t.entries)
    (hview : s.index.view path = ⟨none, none, none⟩)
    (hkind : kindText (pathKind path) = some kind) : StructuredAt s' path kind bytes := by
  have hentry : planEntry s path bytes = _ := planEntry_new_structured hview hkind
  obtain ⟨r, hr⟩ := exists_planEntry hplan hmem
  rw [hentry] at hr
  obtain ⟨value, hparse, _⟩ := Option.map_eq_some_iff.mp hr
  rw [hparse, Option.map_some] at hentry
  have hop := mem_planned_of_entry hplan hmem hentry rfl
  refine ⟨uuid path, ?_, ?_⟩
  · rw [hout.view_of_entry hplan hmem hentry rfl, PlannedOp.effect, hview]
  · rw [hparse, hout.root_new hok hplan hfresh hop,
      hfits.settled path bytes kind value hmem hkind hparse]

theorem Fits.atTarget (hfits : Fits s t) (hok : s.index.Ok)
    (hplan : planRollback s t.entries = some planned) (hout : Outcome uuid s planned s')
    (hfresh : Fresh uuid s) (hmem : (path, bytes) ∈ targets t.entries) :
    AtTarget s s' path bytes := by
  rcases hok.view_cases path with hview | ⟨guid, hview⟩ | ⟨guid, kind, hview⟩ | ⟨hash, size, hview⟩
  · cases hkind : pathKind path with
    | markdown =>
        have hentry : planEntry s path bytes = _ := planEntry_new_markdown hview hkind
        have hop := mem_planned_of_entry hplan hmem hentry rfl
        obtain ⟨text, hutf8⟩ := Option.isSome_iff_exists.mp (hfits.utf8 path bytes hmem hkind)
        rw [AtTarget, hkind]
        refine ⟨uuid path, ?_, ?_⟩
        · rw [hout.view_of_entry hplan hmem hentry rfl, PlannedOp.effect, hview]
        · rw [hutf8, hout.text_new hok hplan hfresh hop, Str.fromUtf8Lossy_of_fromUtf8 hutf8]
    | binary =>
        exact hfits.atTarget_binary hplan hout hmem (by rw [hview]) (by rw [hview]) hkind
    | canvas =>
        rw [AtTarget, hkind]
        exact hfits.structuredAt_new hok hplan hout hfresh hmem hview (by rw [hkind]; rfl)
    | base =>
        rw [AtTarget, hkind]
        exact hfits.structuredAt_new hok hplan hout hfresh hmem hview (by rw [hkind]; rfl)
  · exact hfits.atTarget_file hplan hout hfresh hmem hview
  · exact hfits.atTarget_structured hplan hout hfresh hmem hview
  · exact hfits.atTarget_binary hplan hout hmem (by rw [hview]) (by rw [hview])
      (hfits.binary path (List.mem_map_of_mem hmem) (by rw [hview]; rfl))

/-- The entry of a shim stays quiet, for a blob restored meanwhile is the entry's. -/
theorem Fits.quiet_missing {size : Nat} (hfits : Fits s t)
    (hplan : planRollback s t.entries = some planned) (hout : Outcome uuid s planned s')
    (hmem : (path, bytes) ∈ targets t.entries) (hkind : pathKind path = .binary)
    (hshim : parseAttachmentShim bytes = some (hash, size)) (hblob : s.blobs hash = false)
    (hview : s'.index.view path = s.index.view path) (hfile : (s.index.view path).file = none)
    (hstructured : (s.index.view path).structured = none) : Quiet s' path bytes := by
  refine ⟨_, planEntry_binary (by rw [hview]; exact hfile) (by rw [hview]; exact hstructured)
    (.inr hkind), fun op hop => ?_⟩
  simp only [planBinary, hshim] at hop
  split_ifs at hop with hgone hsame
  · cases hop
    rfl
  · cases hop
    have hnew : s'.blobs hash = true := by simpa using hgone
    obtain ⟨path', bytes', hmem', hshim', hhash, hbinary⟩ := hout.blob_new hplan hblob hnew
    have hkind' : pathKind path' = .binary := by
      rcases hbinary with hbinary | hkind'
      · exact hfits.binary path' (List.mem_map_of_mem hmem') hbinary
      · exact hkind'
    rcases hfits.revived path bytes hash size path' bytes' hmem hmem' hkind hfile hstructured hshim
      hblob hkind' hshim' hhash with hold | hsize
    · rw [← hview] at hold
      exact absurd hold hsame
    · exact decide_eq_true hsize

/-- An unrecoverable attachment asks for nothing the second time either. -/
theorem Fits.quiet_holdsAs {size : Nat} (hfits : Fits s t) (hok : s.index.Ok)
    (hplan : planRollback s t.entries = some planned) (hout : Outcome uuid s planned s')
    (hmem : (path, bytes) ∈ targets t.entries) (hkind : pathKind path = .binary)
    (hshim : parseAttachmentShim bytes = some (hash, size)) (hblob : s.blobs hash = false)
    (hholds : HoldsAs s s' path) : Quiet s' path bytes := by
  have hview := hholds.view
  rcases hok.view_cases path with hold | ⟨guid, hold⟩ | ⟨guid, kind, hold⟩ | ⟨h, n, hold⟩
  · exact hfits.quiet_missing hplan hout hmem hkind hshim hblob hview (by rw [hold]) (by rw [hold])
  · have hfile : (s.index.view path).file = some guid := by rw [hold]
    have hsame : s.texts guid = Str.fromUtf8Lossy bytes := by
      rcases hfits.file path bytes hmem guid hfile with hmarkdown | ⟨_, hsame⟩
      · rw [hkind] at hmarkdown
        cases hmarkdown
      · exact hsame
    refine ⟨none, ?_, by simp⟩
    rw [planEntry_file (by rw [hview]; exact hfile), hholds.text guid hfile, if_pos hsame]
  · have hstructured : (s.index.view path).structured = some (guid, kind) := by rw [hold]
    have hsame : f.parse kind bytes = some (s.roots guid).1 := by
      rcases hfits.structured path bytes hmem guid kind hstructured with htext | ⟨_, hsame⟩
      · rw [hkind] at htext
        cases htext
      · exact hsame
    refine ⟨none, ?_, by simp⟩
    rw [planEntry_structured (by rw [hview, hold]) (by rw [hview]; exact hstructured), hsame,
      Option.map_some, hholds.root guid kind hstructured, if_pos rfl]
  · exact hfits.quiet_missing hplan hout hmem hkind hshim hblob hview (by rw [hold]) (by rw [hold])

theorem Fits.quiet (hfits : Fits s t) (hok : s.index.Ok)
    (hplan : planRollback s t.entries = some planned) (hout : Outcome uuid s planned s')
    (hfresh : Fresh uuid s) (hmem : (path, bytes) ∈ targets t.entries) :
    Quiet s' path bytes := by
  have hat := hfits.atTarget hok hplan hout hfresh hmem
  unfold AtTarget at hat
  split at hat
  · exact TextAt.quiet hat
  · exact StructuredAt.quiet hat
  · exact StructuredAt.quiet hat
  · next hkind =>
    split at hat
    · next hash size hshim =>
      split at hat
      · exact BinaryAt.quiet hat (.inl ⟨size, hshim⟩)
      · next hblob =>
        exact hfits.quiet_holdsAs hok hplan hout hmem hkind hshim (by simpa using hblob) hat
    · next hshim => exact BinaryAt.quiet hat (.inr ⟨hshim, rfl⟩)

theorem Outcome.kept (hok : s.index.Ok) (hplan : planRollback s t.entries = some planned)
    (hout : Outcome uuid s planned s') (hpath : path ∈ Assoc.keys (targets t.entries)) :
    (∀ guid, (s.index.view path).file = some guid → (s'.index.view path).file = some guid) ∧
      ∀ entry, (s.index.view path).structured = some entry →
        (s'.index.view path).structured = some entry := by
  obtain ⟨⟨p, bytes⟩, hmem, rfl⟩ := List.mem_map.mp hpath
  refine ⟨fun guid hfile => ?_, fun entry hstructured => ?_⟩
  · rw [hout.view_file hplan hmem hfile]
    exact hfile
  · rcases hok.view_cases p with hold | ⟨guid, hold⟩ | ⟨guid, kind, hold⟩ | ⟨h, n, hold⟩ <;>
      rw [hold] at hstructured <;> cases hstructured
    rw [hout.view_structured hplan hmem (by rw [hold]) (by rw [hold]), hold]

theorem Fits.reaches (hfits : Fits s t) (hok : s.index.Ok)
    (hplan : planRollback s t.entries = some planned) (hout : Outcome uuid s planned s')
    (hfresh : Fresh uuid s) : Reaches s t s' where
  target := fun _ _ hmem => hfits.atTarget hok hplan hout hfresh hmem
  gone := fun _ hpath => hout.gone hok hplan hpath
  kept := fun _ hpath => hout.kept hok hplan hpath
  again := planRollback_eq_nil
    (fun _ _ hmem => hfits.quiet hok hplan hout hfresh hmem)
    fun _ hpath => (hout.gone hok hplan hpath).1

end Enough

/-! ## The condition is needed -/

section Needed

variable [DecidableEq V] {uuid : Str → Str} {s s' : Vault f} {t : Tree}
  {planned : List (PlannedOp V)} {path guid kind hash : Str} {bytes : Bytes}

theorem Quiet.text (h : Quiet s path bytes) (hfile : (s.index.view path).file = some guid) :
    s.texts guid = Str.fromUtf8Lossy bytes := by
  obtain ⟨r, hr, hrec⟩ := h
  rw [planEntry_file hfile, Option.some_inj] at hr
  by_contra hne
  rw [if_neg hne] at hr
  cases hrec _ hr.symm

theorem Quiet.root (h : Quiet s path bytes) (hfile : (s.index.view path).file = none)
    (hstructured : (s.index.view path).structured = some (guid, kind)) :
    f.parse kind bytes = some (s.roots guid).1 := by
  obtain ⟨r, hr, hrec⟩ := h
  rw [planEntry_structured hfile hstructured] at hr
  obtain ⟨value, hvalue, hr⟩ := Option.map_eq_some_iff.mp hr
  by_cases hroot : (s.roots guid).1 = value
  · rw [hvalue, hroot]
  · rw [if_neg hroot] at hr
    cases hrec _ hr.symm

/-- A path that is planned as an attachment stays out of the other maps. -/
theorem Outcome.view_binary (hplan : planRollback s t.entries = some planned)
    (hout : Outcome uuid s planned s') (hmem : (path, bytes) ∈ targets t.entries)
    (hfile : (s.index.view path).file = none)
    (hstructured : (s.index.view path).structured = none)
    (hbinary : (s.index.view path).binary.isSome ∨ pathKind path = .binary) :
    (s'.index.view path).file = none ∧ (s'.index.view path).structured = none := by
  cases hshim : parseAttachmentShim bytes with
  | none =>
      obtain ⟨_, hview, _⟩ := hout.binaryAt_raw hplan hmem hfile hstructured hbinary hshim
      rw [hview]
      exact ⟨rfl, rfl⟩
  | some shim =>
      cases hblob : s.blobs shim.1 with
      | true =>
          rw [hout.view_shim hplan hmem hfile hstructured hbinary hshim hblob]
          split
          · exact ⟨hfile, hstructured⟩
          · exact ⟨rfl, rfl⟩
      | false =>
          rw [hout.view_unrecoverable hplan hmem hfile hstructured hbinary hshim hblob]
          exact ⟨hfile, hstructured⟩

/-- A path that ends as an attachment was not in the other maps. -/
theorem BinaryAt.not_in_others (hat : BinaryAt s' path hash) (hok : s.index.Ok)
    (hplan : planRollback s t.entries = some planned) (hout : Outcome uuid s planned s')
    (hmem : (path, bytes) ∈ targets t.entries) :
    (s.index.view path).file = none ∧ (s.index.view path).structured = none := by
  obtain ⟨size, hview, _⟩ := hat
  rcases hok.view_cases path with hold | ⟨guid, hold⟩ | ⟨guid, kind, hold⟩ | ⟨h, n, hold⟩
  · rw [hold]
    exact ⟨rfl, rfl⟩
  · rw [hout.view_file hplan hmem (by rw [hold]), hold] at hview
    cases hview
  · rw [hout.view_structured hplan hmem (by rw [hold]) (by rw [hold]), hold] at hview
    cases hview
  · rw [hold]
    exact ⟨rfl, rfl⟩

section Fields

variable (h : Reaches s t s') (hplan : planRollback s t.entries = some planned)
  (hout : Outcome uuid s planned s')
include h hplan hout

theorem Reaches.fits_file (hmem : (path, bytes) ∈ targets t.entries)
    (hfile : (s.index.view path).file = some guid) :
    pathKind path = .markdown ∨
      (Unrecoverable s path bytes ∧ s.texts guid = Str.fromUtf8Lossy bytes) := by
  have hafter := hout.view_file hplan hmem hfile
  have hfile' : (s'.index.view path).file = some guid := by
    rw [hafter]
    exact hfile
  have hat := h.target path bytes hmem
  unfold AtTarget at hat
  split at hat
  · next hkind => exact .inl hkind
  · obtain ⟨_, hview, _⟩ := hat
    rw [hview] at hfile'
    cases hfile'
  · obtain ⟨_, hview, _⟩ := hat
    rw [hview] at hfile'
    cases hfile'
  · next hkind =>
    split at hat
    · next hash size hshim =>
      split at hat
      · obtain ⟨_, hview, _⟩ := hat
        rw [hview] at hfile'
        cases hfile'
      · next hblob =>
        -- what it holds is what the next plan would write
        have hquiet := quiet_of_planRollback_eq_nil h.again hmem
        refine .inr ⟨⟨hkind, hash, size, hshim, by simpa using hblob⟩, ?_⟩
        rw [← hat.text guid hfile]
        exact hquiet.text hfile'
    · obtain ⟨_, hview, _⟩ := hat
      rw [hview] at hfile'
      cases hfile'

theorem Reaches.fits_structured (hmem : (path, bytes) ∈ targets t.entries)
    (hfile : (s.index.view path).file = none)
    (hstructured : (s.index.view path).structured = some (guid, kind)) :
    kindText (pathKind path) = some kind ∨
      (Unrecoverable s path bytes ∧ f.parse kind bytes = some (s.roots guid).1) := by
  have hafter := hout.view_structured hplan hmem hfile hstructured
  have hfile' : (s'.index.view path).file = none := by
    rw [hafter]
    exact hfile
  have hstructured' : (s'.index.view path).structured = some (guid, kind) := by
    rw [hafter]
    exact hstructured
  have hat := h.target path bytes hmem
  unfold AtTarget at hat
  split at hat
  · obtain ⟨_, hview, _⟩ := hat
    rw [hview] at hstructured'
    cases hstructured'
  · next hkind =>
    obtain ⟨_, hview, _⟩ := hat
    rw [hview, Option.some_inj, Prod.mk.injEq] at hstructured'
    rw [hkind, ← hstructured'.2]
    exact .inl rfl
  · next hkind =>
    obtain ⟨_, hview, _⟩ := hat
    rw [hview, Option.some_inj, Prod.mk.injEq] at hstructured'
    rw [hkind, ← hstructured'.2]
    exact .inl rfl
  · next hkind =>
    split at hat
    · next hash size hshim =>
      split at hat
      · obtain ⟨_, hview, _⟩ := hat
        rw [hview] at hstructured'
        cases hstructured'
      · next hblob =>
        have hquiet := quiet_of_planRollback_eq_nil h.again hmem
        refine .inr ⟨⟨hkind, hash, size, hshim, by simpa using hblob⟩, ?_⟩
        rw [← hat.root guid kind hstructured]
        exact hquiet.root hfile' hstructured'
    · obtain ⟨_, hview, _⟩ := hat
      rw [hview] at hstructured'
      cases hstructured'

theorem Reaches.fits_binary (hok : s.index.Ok) (hmem : (path, bytes) ∈ targets t.entries)
    (hbinary : (s.index.view path).binary.isSome) : pathKind path = .binary := by
  -- the index has the path as an attachment only
  have hothers : (s.index.view path).file = none ∧ (s.index.view path).structured = none := by
    rcases hok.view_cases path with hold | ⟨guid, hold⟩ | ⟨guid, kind, hold⟩ | ⟨h, n, hold⟩ <;>
      rw [hold] at hbinary ⊢ <;> first | exact ⟨rfl, rfl⟩ | cases hbinary
  obtain ⟨hfile, hstructured⟩ :=
    hout.view_binary hplan hmem hothers.1 hothers.2 (.inl hbinary)
  have hat := h.target path bytes hmem
  unfold AtTarget at hat
  split at hat
  · obtain ⟨_, hview, _⟩ := hat
    rw [hview] at hfile
    cases hfile
  · obtain ⟨_, hview, _⟩ := hat
    rw [hview] at hstructured
    cases hstructured
  · obtain ⟨_, hview, _⟩ := hat
    rw [hview] at hstructured
    cases hstructured
  · next hkind => exact hkind

theorem Reaches.fits_sizes {size : Nat} (hok : s.index.Ok)
    (hmem : (path, bytes) ∈ targets t.entries)
    (hkind : pathKind path = .binary) (hshim : parseAttachmentShim bytes = some (hash, size))
    (hblob : s.blobs hash = true) :
    size < 2 ^ 63 ∨ (s.index.view path).binary.map Prod.fst = some hash := by
  have hat := h.target path bytes hmem
  simp only [AtTarget, hkind, hshim, hblob, if_true] at hat
  obtain ⟨hfile, hstructured⟩ := hat.not_in_others hok hplan hout hmem
  obtain ⟨n, hview, _⟩ := hat
  by_contra hneither
  obtain ⟨hsize, hsame⟩ := not_or.mp hneither
  rw [hout.view_shim hplan hmem hfile hstructured (.inr hkind) hshim hblob] at hview
  by_cases hsentinel : size = sentinel
  · rw [if_pos (.inr hsentinel)] at hview
    rw [hview] at hsame
    exact hsame rfl
  · rw [if_neg (not_or.mpr ⟨hsame, hsentinel⟩), if_neg hsize] at hview
    cases hview

theorem Reaches.fits_revived {size : Nat} {path' : Str} {bytes' : Bytes}
    (hmem : (path, bytes) ∈ targets t.entries) (hmem' : (path', bytes') ∈ targets t.entries)
    (hkind : pathKind path = .binary) (hfile : (s.index.view path).file = none)
    (hstructured : (s.index.view path).structured = none)
    (hshim : parseAttachmentShim bytes = some (hash, size)) (hblob : s.blobs hash = false)
    (hkind' : pathKind path' = .binary) (hshim' : parseAttachmentShim bytes' = none)
    (hhash : f.sha256Hex bytes' = hash) :
    (s.index.view path).binary.map Prod.fst = some hash ∨ size = sentinel := by
  have hat := h.target path' bytes' hmem'
  simp only [AtTarget, hkind', hshim', hhash] at hat
  obtain ⟨_, _, hrestored⟩ := hat
  have hafter := hout.view_unrecoverable hplan hmem hfile hstructured (.inr hkind) hshim hblob
  obtain ⟨r, hr, hrec⟩ := quiet_of_planRollback_eq_nil h.again hmem
  rw [planEntry_binary (by rw [hafter]; exact hfile) (by rw [hafter]; exact hstructured)
    (.inr hkind), Option.some_inj] at hr
  rw [← hafter]
  by_cases hsame : (s'.index.view path).binary.map Prod.fst = some hash
  · exact .inl hsame
  · have hsame : ¬(Assoc.get path s'.index.binaries).map Prod.fst = some hash := hsame
    simp only [planBinary, hshim, hrestored, Bool.not_true, Bool.false_eq_true, if_false,
      hsame] at hr
    exact .inr (of_decide_eq_true (hrec _ hr.symm))

theorem Reaches.fits (hok : s.index.Ok) : Fits s t where
  file := fun _ _ hmem _ hfile => h.fits_file hplan hout hmem hfile
  structured := fun path _ hmem guid kind hstructured => by
    refine h.fits_structured hplan hout hmem ?_ hstructured
    rcases hok.view_cases path with hold | ⟨_, hold⟩ | ⟨_, _, hold⟩ | ⟨_, _, hold⟩ <;>
      rw [hold] at hstructured ⊢
    cases hstructured
  binary := fun path hpath hbinary => by
    obtain ⟨⟨p, bytes⟩, hmem, rfl⟩ := List.mem_map.mp hpath
    exact h.fits_binary hplan hout hok hmem hbinary
  utf8 := fun path bytes hmem hkind => by
    have hat := h.target path bytes hmem
    simp only [AtTarget, hkind] at hat
    obtain ⟨_, _, htext⟩ := hat
    rw [htext]
    rfl
  settled := fun path bytes kind value hmem hkind hparse => by
    have hat := h.target path bytes hmem
    have hstructured : StructuredAt s' path kind bytes := by
      unfold AtTarget at hat
      cases hpath : pathKind path <;> rw [hpath] at hkind hat <;> cases hkind <;> exact hat
    obtain ⟨guid, _, hroot⟩ := hstructured
    rw [hparse, Option.some_inj] at hroot
    rw [hroot]
    exact (s'.roots guid).2
  texts := fun path bytes path' bytes' guid hmem hmem' hfile hfile' => by
    have hquiet := quiet_of_planRollback_eq_nil h.again hmem
    have hquiet' := quiet_of_planRollback_eq_nil h.again hmem'
    rw [← hquiet.text (by rw [hout.view_file hplan hmem hfile]; exact hfile),
      ← hquiet'.text (by rw [hout.view_file hplan hmem' hfile']; exact hfile')]
  roots := fun path bytes path' bytes' guid kind kind' hmem hmem' hstructured hstructured' => by
    have hnone : ∀ {p : Str} {g k : Str}, (s.index.view p).structured = some (g, k) →
        (s.index.view p).file = none := by
      intro p g k hp
      rcases hok.view_cases p with hold | ⟨_, hold⟩ | ⟨_, _, hold⟩ | ⟨_, _, hold⟩ <;>
        rw [hold] at hp ⊢
      cases hp
    have hroot : ∀ {p : Str} {b : Bytes} {k : Str}, (p, b) ∈ targets t.entries →
        (s.index.view p).structured = some (guid, k) →
        f.parse k b = some (s'.roots guid).1 := by
      intro p b k hp hk
      have hafter := hout.view_structured hplan hp (hnone hk) hk
      exact (quiet_of_planRollback_eq_nil h.again hp).root (by rw [hafter]; exact hnone hk)
        (by rw [hafter]; exact hk)
    rw [hroot hmem hstructured, hroot hmem' hstructured']
  sizes := fun _ _ _ _ hmem hkind hshim hblob => h.fits_sizes hplan hout hok hmem hkind hshim hblob
  revived := fun _ _ _ _ _ _ hmem hmem' hkind hfile hstructured hshim hblob hkind' hshim' hhash =>
    h.fits_revived hplan hout hmem hmem' hkind hfile hstructured hshim hblob hkind' hshim' hhash

end Fields

end Needed

/-- No structured file and no attachment is at hand. -/
def plainFormats : Formats Unit where
  sha256Hex := fun _ => []
  parse := fun _ _ => none
  settle := id
  settle_settle := fun _ => rfl

/-- A vault with one note of the text `x`. -/
def oneNote (path : Str) : Vault plainFormats where
  index := ⟨[(path, ['g'])], [], [], []⟩
  texts := fun _ => ['x']
  roots := fun _ => ⟨(), rfl⟩
  documents := [['g']]
  blobs := fun _ => false

theorem oneNote_ok (path : Str) : (oneNote path).index.Ok where
  files := by simp [oneNote, Assoc.Wf, Assoc.keys]
  structured := List.nodup_nil
  binaries := List.nodup_nil
  files_structured := fun _ _ => List.not_mem_nil
  files_binaries := fun _ _ => List.not_mem_nil
  structured_binaries := fun _ _ => List.not_mem_nil

theorem oneNote_fresh (path : Str) : Fresh (List.append ['u']) (oneNote path) where
  injective := List.append_right_injective ['u']
  file := by
    intro path₁ path₂ guid hfile heq
    have hguid : guid = ['g'] := by
      have hmem := Assoc.mem_of_get hfile
      simp only [oneNote, List.mem_singleton, Prod.mk.injEq] at hmem
      exact hmem.2
    rw [hguid] at heq
    cases heq
  structured := fun _ _ _ _ h => by cases h

/-- The tree has the text `y` at the path. -/
def oneFile (path : Str) : Tree where
  entries := [(path, [0x79])]
  distinct := by simp [Assoc.Wf, Assoc.keys]
  short := by simp

/-- The note after the rollback. -/
def oneNoteRolledBack (path : Str) : Vault plainFormats :=
  { oneNote path with texts := Function.update (oneNote path).texts ['g'] ['y'] }

theorem oneNote_executes :
    ExecuteRollback 10 (List.append ['u']) (oneNote "a.md".toList)
      (oneFile "a.md".toList).entries (oneNoteRolledBack "a.md".toList) :=
  ⟨_, _, rfl, .refl _, rfl⟩

theorem oneImage_executes :
    ExecuteRollback 10 (List.append ['u']) (oneNote "a.png".toList)
      (oneFile "a.png".toList).entries (oneNoteRolledBack "a.png".toList) :=
  ⟨_, _, rfl, .refl _, rfl⟩

theorem mem_targets_oneFile {path p : Str} {bytes : Bytes}
    (h : (p, bytes) ∈ targets (oneFile path).entries) : p = path ∧ bytes = [0x79] := by
  have hmem := List.mem_of_mem_filter h
  simp only [oneFile, List.mem_singleton, Prod.mk.injEq] at hmem
  exact hmem

theorem oneNote_fits : Fits (oneNote "a.md".toList) (oneFile "a.md".toList) := by
  have hkind : ∀ path bytes, (path, bytes) ∈ targets (oneFile "a.md".toList).entries →
      pathKind path = .markdown := by
    intro path bytes hmem
    rw [(mem_targets_oneFile hmem).1]
    rfl
  exact {
    file := fun path bytes hmem _ _ => .inl (hkind path bytes hmem)
    structured := fun _ _ _ _ _ h => by cases h
    binary := fun _ _ h => by cases h
    utf8 := fun path bytes hmem _ => by
      rw [(mem_targets_oneFile hmem).2]
      rfl
    settled := fun _ _ _ _ _ _ _ => rfl
    texts := fun _ _ _ _ _ hmem hmem' _ _ => by
      rw [(mem_targets_oneFile hmem).2, (mem_targets_oneFile hmem').2]
    roots := fun _ _ _ _ _ _ _ _ _ h => by cases h
    sizes := fun path bytes _ _ hmem hbinary => by
      rw [hkind path bytes hmem] at hbinary
      cases hbinary
    revived := fun path bytes _ _ _ _ hmem _ hbinary => by
      rw [hkind path bytes hmem] at hbinary
      cases hbinary }

end Realtime.Rollback
