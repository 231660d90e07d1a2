import Mathlib.Data.List.Nodup
import Mathlib.Tactic
import Realtime.Lib.Keyed
import Realtime.Rollback.Plan

/-!
# What a rollback leaves behind

Every path has at most one operation, so what the index says of a path afterwards
is what the path's operation makes of it. A document's text is the one it had or
one of those set.
-/

namespace Realtime.Rollback

open Lib

variable {V : Type} {f : Formats V}

/-- The maps of the index have distinct keys, and no path is in two of them. -/
structure Index.Ok (ix : Index) : Prop where
  files : Assoc.Wf ix.files
  structured : Assoc.Wf ix.structured
  binaries : Assoc.Wf ix.binaries
  files_structured : ∀ path ∈ Assoc.keys ix.files, path ∉ Assoc.keys ix.structured
  files_binaries : ∀ path ∈ Assoc.keys ix.files, path ∉ Assoc.keys ix.binaries
  structured_binaries : ∀ path ∈ Assoc.keys ix.structured, path ∉ Assoc.keys ix.binaries

/-- The files of a commit. -/
structure Tree where
  entries : List (Str × Bytes)
  distinct : Assoc.Wf entries
  /-- No byte string is longer. -/
  short : ∀ entry ∈ entries, entry.2.length < 2 ^ 63

theorem Tree.distinct_targets (t : Tree) : Assoc.Wf (targets t.entries) :=
  t.distinct.sublist (List.filter_sublist.map _)

/-! ## One operation for each path -/

theorem planEntries_paths [DecidableEq V] {s : Vault f} {entries : List (Str × Bytes)}
    {ops : List (PlannedOp V)} (h : planEntries s entries = some ops) :
    (ops.map PlannedOp.path).Sublist (Assoc.keys entries) := by
  induction entries generalizing ops with
  | nil =>
      cases h
      exact List.Sublist.slnil
  | cons entry entries ih =>
      obtain ⟨path, bytes⟩ := entry
      rw [planEntries] at h
      split at h
      · next op rest hop hrest =>
        cases h
        cases op with
        | none => exact (ih hrest).cons _
        | some op =>
            rw [Option.toList_some, List.cons_append, List.nil_append, List.map_cons,
              planEntry_path hop]
            exact (ih hrest).cons_cons _
      · cases h

theorem planRemovals_paths (ix : Index) (tree : List (Str × Bytes)) :
    (planRemovals (V := V) ix tree).map PlannedOp.path =
      (Assoc.keys ix.files).filter (fun path => path ∉ Assoc.keys (targets tree)) ++
        (Assoc.keys ix.structured).filter (fun path => path ∉ Assoc.keys (targets tree)) ++
        (Assoc.keys ix.binaries).filter fun path => path ∉ Assoc.keys (targets tree) := by
  simp only [planRemovals, List.map_append, List.map_map]
  congr 2
  · exact List.map_id _
  · exact List.map_id _
  · exact List.map_id _

theorem planned_paths_nodup [DecidableEq V] {s : Vault f} {t : Tree}
    {planned : List (PlannedOp V)} (hok : s.index.Ok)
    (h : planRollback s t.entries = some planned) : (planned.map PlannedOp.path).Nodup := by
  obtain ⟨ops, hops, rfl⟩ := Option.map_eq_some_iff.mp h
  rw [List.map_append]
  have hsub : ((ops.filter fun op => !op.isUnrecoverable).map PlannedOp.path).Sublist
      (Assoc.keys (targets t.entries)) :=
    (List.filter_sublist.map _).trans (planEntries_paths hops)
  refine List.Nodup.append (t.distinct_targets.sublist hsub) ?_ fun path hset hremove => ?_
  · rw [planRemovals_paths]
    refine List.Nodup.append (List.Nodup.append (hok.files.filter _) (hok.structured.filter _) ?_)
      (hok.binaries.filter _) fun path hleft hbinary => ?_
    · intro path hfile hstructured
      exact hok.files_structured path (List.mem_of_mem_filter hfile)
        (List.mem_of_mem_filter hstructured)
    · rcases List.mem_append.mp hleft with hfile | hstructured
      · exact hok.files_binaries path (List.mem_of_mem_filter hfile)
          (List.mem_of_mem_filter hbinary)
      · exact hok.structured_binaries path (List.mem_of_mem_filter hstructured)
          (List.mem_of_mem_filter hbinary)
  · obtain ⟨op, hop, rfl⟩ := List.mem_map.mp hremove
    exact (mem_planRemovals.mp hop).1 (hsub.subset hset)

/-! ## The index -/

/-- What the index says of one path. -/
structure At where
  file : Option Str
  structured : Option (Str × Str)
  binary : Option (Str × Nat)

def Index.view (ix : Index) (path : Str) : At :=
  ⟨Assoc.get path ix.files, Assoc.get path ix.structured, Assoc.get path ix.binaries⟩

/-- What an operation makes of the entry of its path. -/
def PlannedOp.effect (uuid : Str → Str) : PlannedOp V → At → At
  | .setText path none _, a => { a with file := some (uuid path) }
  | .setText _ (some _) _, a => a
  | .setStructured path none kind _, a => { a with structured := some (uuid path, kind) }
  | .setStructured _ (some _) _ _, a => a
  | .setBinary _ hash size _, a =>
      { a with binary := if size < 2 ^ 63 then some (hash, size) else none }
  | .removeFile _, a => { a with file := none }
  | .removeStructured _, a => { a with structured := none }
  | .removeBinary _, a => { a with binary := none }

/-- The batch part of one operation. -/
def applyPlanned (uuid : Str → Str) (before ix : Index) (op : PlannedOp V) : Index :=
  (op.indexOps uuid).foldl (applyIndexOp before) ix

section View

variable {uuid : Str → Str} {before ix : Index}

theorem view_applyPlanned_ne (ix : Index) (op : PlannedOp V) (path : Str) (h : op.path ≠ path) :
    (applyPlanned uuid before ix op).view path = ix.view path := by
  cases op with
  | setText p guid content =>
      cases guid with
      | none =>
          have h : p ≠ path := h
          simp [applyPlanned, PlannedOp.indexOps, applyIndexOp, Index.view, Assoc.get_set_ne h]
      | some guid => rfl
  | setStructured p guid kind value =>
      cases guid with
      | none =>
          have h : p ≠ path := h
          simp [applyPlanned, PlannedOp.indexOps, applyIndexOp, Index.view, Assoc.get_set_ne h]
      | some guid => rfl
  | setBinary p hash size blobBytes =>
      have h : p ≠ path := h
      simp only [applyPlanned, PlannedOp.indexOps, applyIndexOp, Index.view, List.foldl_cons,
        List.foldl_nil]
      split
      · rw [Assoc.get_set_ne h]
      · rw [Assoc.get_erase_ne h]
  | removeFile p =>
      have h : p ≠ path := h
      simp [applyPlanned, PlannedOp.indexOps, applyIndexOp, Index.view, Assoc.get_erase_ne h]
  | removeStructured p =>
      have h : p ≠ path := h
      simp [applyPlanned, PlannedOp.indexOps, applyIndexOp, Index.view, Assoc.get_erase_ne h]
  | removeBinary p =>
      have h : p ≠ path := h
      simp [applyPlanned, PlannedOp.indexOps, applyIndexOp, Index.view, Assoc.get_erase_ne h]

theorem view_applyPlanned_self (ix : Index) (op : PlannedOp V) :
    (applyPlanned uuid before ix op).view op.path = op.effect uuid (ix.view op.path) := by
  cases op with
  | setText p guid content =>
      cases guid with
      | none =>
          simp [applyPlanned, PlannedOp.indexOps, applyIndexOp, Index.view, PlannedOp.path,
            PlannedOp.effect]
      | some guid => rfl
  | setStructured p guid kind value =>
      cases guid with
      | none =>
          simp [applyPlanned, PlannedOp.indexOps, applyIndexOp, Index.view, PlannedOp.path,
            PlannedOp.effect]
      | some guid => rfl
  | setBinary p hash size blobBytes =>
      simp only [applyPlanned, PlannedOp.indexOps, applyIndexOp, Index.view, List.foldl_cons,
        List.foldl_nil, PlannedOp.path, PlannedOp.effect]
      split
      · rw [Assoc.get_set_self]
      · rw [Assoc.get_erase_self]
  | removeFile p =>
      simp [applyPlanned, PlannedOp.indexOps, applyIndexOp, Index.view, PlannedOp.path,
        PlannedOp.effect]
  | removeStructured p =>
      simp [applyPlanned, PlannedOp.indexOps, applyIndexOp, Index.view, PlannedOp.path,
        PlannedOp.effect]
  | removeBinary p =>
      simp [applyPlanned, PlannedOp.indexOps, applyIndexOp, Index.view, PlannedOp.path,
        PlannedOp.effect]

/-- The trash only grows. -/
theorem trash_applyPlanned (ix : Index) (op : PlannedOp V) :
    ix.trash ⊆ (applyPlanned uuid before ix op).trash := by
  cases op with
  | setText p guid content => cases guid <;> exact List.Subset.refl _
  | setStructured p guid kind value => cases guid <;> exact List.Subset.refl _
  | setBinary p hash size blobBytes => exact List.Subset.refl _
  | removeFile p | removeStructured p | removeBinary p =>
      simp only [applyPlanned, PlannedOp.indexOps, applyIndexOp, List.foldl_cons, List.foldl_nil]
      split
      · exact List.subset_cons_self _ _
      · exact List.Subset.refl _

end View

/-! ## Documents and blobs -/

section Documents

variable {maxDocuments : Nat} {uuid : Str → Str} {s s' : Vault f} {ops : List (PlannedOp V)}

theorem ensureDocument_eq {guid : Str} (h : ensureDocument maxDocuments s guid = some s') :
    s'.index = s.index ∧ s'.texts = s.texts ∧ s'.roots = s.roots ∧ s'.blobs = s.blobs := by
  unfold ensureDocument at h
  split_ifs at h <;> cases h <;> exact ⟨rfl, rfl, rfl, rfl⟩

/-- The document whose text is set. -/
def PlannedOp.textDocument (uuid : Str → Str) : PlannedOp V → Option (Str × Str)
  | .setText path guid content => some (guid.getD (uuid path), content)
  | _ => none

/-- The document whose value is set. -/
def PlannedOp.rootDocument (uuid : Str → Str) : PlannedOp V → Option (Str × V)
  | .setStructured path guid _ value => some (guid.getD (uuid path), value)
  | _ => none

def PlannedOp.restores : PlannedOp V → Option Str
  | .setBinary _ hash _ (some _) => some hash
  | _ => none

/-- What one operation does outside the index. -/
theorem executeOp_spec {op : PlannedOp V} (h : executeOp maxDocuments uuid s op = some s') :
    s'.index = s.index ∧
      (∀ guid, s'.texts guid = match op.textDocument uuid with
        | some (g, content) => if g = guid then content else s.texts guid
        | none => s.texts guid) ∧
      (∀ guid, (s'.roots guid).1 = match op.rootDocument uuid with
        | some (g, value) => if g = guid then f.settle value else (s.roots guid).1
        | none => (s.roots guid).1) ∧
      ∀ hash, s'.blobs hash = (s.blobs hash || op.restores = some hash) := by
  cases op with
  | setText path guid content =>
      obtain ⟨t, ht, rfl⟩ := Option.map_eq_some_iff.mp h
      obtain ⟨hindex, htexts, hroots, hblobs⟩ := ensureDocument_eq ht
      refine ⟨hindex, fun g => ?_, fun g => by simp [PlannedOp.rootDocument, hroots],
        fun hash => by simp [PlannedOp.restores, hblobs]⟩
      rw [PlannedOp.textDocument, htexts]
      by_cases hg : guid.getD (uuid path) = g
      · simp [hg]
      · simp [hg, Function.update_of_ne (Ne.symm hg)]
  | setStructured path guid kind value =>
      obtain ⟨t, ht, rfl⟩ := Option.map_eq_some_iff.mp h
      obtain ⟨hindex, htexts, hroots, hblobs⟩ := ensureDocument_eq ht
      refine ⟨hindex, fun g => by simp [PlannedOp.textDocument, htexts], fun g => ?_,
        fun hash => by simp [PlannedOp.restores, hblobs]⟩
      rw [PlannedOp.rootDocument, hroots]
      by_cases hg : guid.getD (uuid path) = g
      · simp [hg]
      · simp [hg, Function.update_of_ne (Ne.symm hg)]
  | setBinary path hash size blobBytes =>
      cases blobBytes with
      | none =>
          cases h
          exact ⟨rfl, fun _ => rfl, fun _ => rfl, fun h => by simp [PlannedOp.restores]⟩
      | some bytes =>
          simp only [executeOp] at h
          split_ifs at h
          cases h
          refine ⟨rfl, fun _ => rfl, fun _ => rfl, fun other => ?_⟩
          by_cases hh : hash = other
          · simp [PlannedOp.restores, hh]
          · simp [PlannedOp.restores, hh, Function.update_of_ne (Ne.symm hh)]
  | removeFile path =>
      cases h
      exact ⟨rfl, fun _ => rfl, fun _ => rfl, fun h => by simp [PlannedOp.restores]⟩
  | removeStructured path =>
      cases h
      exact ⟨rfl, fun _ => rfl, fun _ => rfl, fun h => by simp [PlannedOp.restores]⟩
  | removeBinary path =>
      cases h
      exact ⟨rfl, fun _ => rfl, fun _ => rfl, fun h => by simp [PlannedOp.restores]⟩

/-- What all of them do outside the index. -/
structure Documents (uuid : Str → Str) (s : Vault f) (ops : List (PlannedOp V)) (s' : Vault f) :
    Prop where
  text : ∀ guid, (s'.texts guid = s.texts guid ∧
      ∀ op ∈ ops, ∀ content, op.textDocument uuid ≠ some (guid, content)) ∨
    ∃ op ∈ ops, op.textDocument uuid = some (guid, s'.texts guid)
  root : ∀ guid, ((s'.roots guid).1 = (s.roots guid).1 ∧
      ∀ op ∈ ops, ∀ value, op.rootDocument uuid ≠ some (guid, value)) ∨
    ∃ op ∈ ops, ∃ value, op.rootDocument uuid = some (guid, value) ∧
      (s'.roots guid).1 = f.settle value
  blob : ∀ hash, s'.blobs hash = true ↔
    s.blobs hash = true ∨ ∃ op ∈ ops, op.restores = some hash

theorem foldlM_executeOp (h : ops.foldlM (executeOp maxDocuments uuid) s = some s') :
    s'.index = s.index ∧ Documents uuid s ops s' := by
  induction ops generalizing s with
  | nil =>
      cases h
      exact ⟨rfl, fun _ => .inl ⟨rfl, by simp⟩, fun _ => .inl ⟨rfl, by simp⟩, by simp⟩
  | cons op ops ih =>
      rw [List.foldlM_cons] at h
      obtain ⟨t, ht, hrest⟩ := Option.bind_eq_some_iff.mp h
      obtain ⟨hindex, htext, hroot, hblob⟩ := executeOp_spec ht
      obtain ⟨hindex', hdocuments⟩ := ih hrest
      refine ⟨hindex'.trans hindex, fun guid => ?_, fun guid => ?_, fun hash => ?_⟩
      · -- a later operation, this one, or none
        rcases hdocuments.text guid with ⟨hsame, hnone⟩ | ⟨x, hx, hset⟩
        · have hfirst := htext guid
          cases hdoc : op.textDocument uuid with
          | none =>
              simp only [hdoc] at hfirst
              refine .inl ⟨hsame.trans hfirst, fun x hx content heq => ?_⟩
              rcases List.mem_cons.mp hx with rfl | hx
              · rw [hdoc] at heq
                cases heq
              · exact hnone x hx content heq
          | some d =>
              obtain ⟨g, content⟩ := d
              simp only [hdoc] at hfirst
              by_cases hg : g = guid
              · rw [if_pos hg] at hfirst
                exact .inr ⟨op, List.mem_cons_self, by rw [hdoc, hsame, hfirst, hg]⟩
              · rw [if_neg hg] at hfirst
                refine .inl ⟨hsame.trans hfirst, fun x hx c heq => ?_⟩
                rcases List.mem_cons.mp hx with rfl | hx
                · rw [hdoc] at heq
                  exact hg (congrArg Prod.fst (Option.some.inj heq))
                · exact hnone x hx c heq
        · exact .inr ⟨x, List.mem_cons_of_mem _ hx, hset⟩
      · rcases hdocuments.root guid with ⟨hsame, hnone⟩ | ⟨x, hx, hset⟩
        · have hfirst := hroot guid
          cases hdoc : op.rootDocument uuid with
          | none =>
              simp only [hdoc] at hfirst
              refine .inl ⟨hsame.trans hfirst, fun x hx value heq => ?_⟩
              rcases List.mem_cons.mp hx with rfl | hx
              · rw [hdoc] at heq
                cases heq
              · exact hnone x hx value heq
          | some d =>
              obtain ⟨g, value⟩ := d
              simp only [hdoc] at hfirst
              by_cases hg : g = guid
              · rw [if_pos hg] at hfirst
                exact .inr ⟨op, List.mem_cons_self, value, by rw [hdoc, hg], hsame.trans hfirst⟩
              · rw [if_neg hg] at hfirst
                refine .inl ⟨hsame.trans hfirst, fun x hx c heq => ?_⟩
                rcases List.mem_cons.mp hx with rfl | hx
                · rw [hdoc] at heq
                  exact hg (congrArg Prod.fst (Option.some.inj heq))
                · exact hnone x hx c heq
        · exact .inr ⟨x, List.mem_cons_of_mem _ hx, hset⟩
      · rw [hdocuments.blob, hblob]
        simp only [Bool.or_eq_true, decide_eq_true_eq, List.mem_cons, exists_eq_or_imp, or_assoc]

end Documents

/-! ## The outcome -/

/-- The vault after the operations of a plan, in whatever order they ran. -/
structure Outcome (uuid : Str → Str) (s : Vault f) (planned : List (PlannedOp V))
    (s' : Vault f) : Prop where
  view_of_mem : ∀ op ∈ planned, s'.index.view op.path = op.effect uuid (s.index.view op.path)
  view_of_ne : ∀ path, (∀ op ∈ planned, op.path ≠ path) →
    s'.index.view path = s.index.view path
  trashFile : ∀ path guid, .removeFile path ∈ planned →
    Assoc.get path s.index.files = some guid → (path, guid) ∈ s'.index.trash
  trashStructured : ∀ path guid kind, .removeStructured path ∈ planned →
    Assoc.get path s.index.structured = some (guid, kind) → (path, guid) ∈ s'.index.trash
  trashBinary : ∀ path hash size, .removeBinary path ∈ planned →
    Assoc.get path s.index.binaries = some (hash, size) → (path, hash) ∈ s'.index.trash
  documents : Documents uuid s planned s'

theorem trash_foldl {uuid : Str → Str} {before : Index} {op : PlannedOp V} {entry : Str × Str}
    (hop : ∀ ix, entry ∈ (applyPlanned uuid before ix op).trash) (ops : List (PlannedOp V))
    (hmem : op ∈ ops) (ix : Index) :
    entry ∈ (ops.foldl (applyPlanned uuid before) ix).trash := by
  have hgrow : ∀ (ops : List (PlannedOp V)) (ix : Index), entry ∈ ix.trash →
      entry ∈ (ops.foldl (applyPlanned uuid before) ix).trash := by
    intro ops
    induction ops with
    | nil => exact fun _ h => h
    | cons x ops ih => exact fun ix h => ih _ (trash_applyPlanned ix x h)
  induction ops generalizing ix with
  | nil => cases hmem
  | cons x ops ih =>
      rcases List.mem_cons.mp hmem with rfl | hmem
      · exact hgrow ops _ (hop ix)
      · exact ih hmem _

theorem Documents.perm {uuid : Str → Str} {s s' : Vault f} {ops planned : List (PlannedOp V)}
    (h : Documents uuid s ops s') (hperm : ops.Perm planned) : Documents uuid s planned s' where
  text := fun guid => by simpa only [hperm.mem_iff] using h.text guid
  root := fun guid => by simpa only [hperm.mem_iff] using h.root guid
  blob := fun hash => by simpa only [hperm.mem_iff] using h.blob hash

theorem ExecuteRollback.outcome [DecidableEq V] {maxDocuments : Nat} {uuid : Str → Str}
    {s s' : Vault f} {t : Tree} (hok : s.index.Ok)
    (h : ExecuteRollback maxDocuments uuid s t.entries s') :
    ∃ planned, planRollback s t.entries = some planned ∧ Outcome uuid s planned s' := by
  obtain ⟨planned, ops, hplan, hperm, hexec⟩ := h
  obtain ⟨t', hfold, rfl⟩ := Option.map_eq_some_iff.mp hexec
  have hnodup : (ops.map PlannedOp.path).Nodup :=
    (hperm.map _).nodup_iff.mpr (planned_paths_nodup hok hplan)
  have hbatch : (ops.flatMap (PlannedOp.indexOps uuid)).foldl (applyIndexOp s.index) s.index =
      ops.foldl (applyPlanned uuid s.index) s.index := List.foldl_flatMap ..
  have hdocuments := (foldlM_executeOp hfold).2
  refine ⟨planned, hplan, ?_, ?_, ?_, ?_, ?_, ?_⟩
  · intro op hop
    show Index.view (List.foldl _ _ _) _ = _
    rw [hbatch]
    exact view_foldl_of_mem view_applyPlanned_ne view_applyPlanned_self hnodup
      (hperm.mem_iff.mpr hop) _
  · intro path hne
    show Index.view (List.foldl _ _ _) _ = _
    rw [hbatch]
    exact view_foldl_of_forall_ne view_applyPlanned_ne
      (fun op hop => hne op (hperm.mem_iff.mp hop)) _
  · intro path guid hop hget
    show _ ∈ Index.trash (List.foldl _ _ _)
    rw [hbatch]
    refine trash_foldl (fun ix => ?_) ops (hperm.mem_iff.mpr hop) _
    simp [applyPlanned, PlannedOp.indexOps, applyIndexOp, hget]
  · intro path guid kind hop hget
    show _ ∈ Index.trash (List.foldl _ _ _)
    rw [hbatch]
    refine trash_foldl (fun ix => ?_) ops (hperm.mem_iff.mpr hop) _
    simp [applyPlanned, PlannedOp.indexOps, applyIndexOp, hget]
  · intro path hash size hop hget
    show _ ∈ Index.trash (List.foldl _ _ _)
    rw [hbatch]
    refine trash_foldl (fun ix => ?_) ops (hperm.mem_iff.mpr hop) _
    simp [applyPlanned, PlannedOp.indexOps, applyIndexOp, hget]
  · exact ⟨(hdocuments.perm hperm).text, (hdocuments.perm hperm).root,
      (hdocuments.perm hperm).blob⟩

end Realtime.Rollback
