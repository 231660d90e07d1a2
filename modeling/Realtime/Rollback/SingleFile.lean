import Mathlib.Tactic
import Realtime.Access.Permissions
import Realtime.Rollback.Target

/-!
# Rollback of a single file

`plan_single_file_rollback` repeats for one path what `plan_rollback` does for all of
them. The two agree, except that the planner for one path takes the dump of a plugin
database for an attachment and the listing of a directory for a file, and that the
planner for all paths takes an attachment of the sentinel's size for a lost one.
-/

namespace Realtime.Rollback

open Lib
open Realtime.Access (AppError)

/-! ## The plan with its summary -/

inductive Action where
  | create
  | modify
  | delete
  | restoreBlob
  deriving DecidableEq

structure PlannedChange where
  path : Str
  kind : Str
  action : Action
  deriving DecidableEq

structure UnrecoverableBinary where
  path : Str
  hash : Str
  currentKept : Bool
  deriving DecidableEq

structure FilePlan (V : Type) where
  ops : List (PlannedOp V)
  changes : List PlannedChange
  unrecoverable : List UnrecoverableBinary

variable {V : Type}

def FilePlan.empty : FilePlan V := ⟨[], [], []⟩

/-- What a plan says about one path. -/
def FilePlan.at (plan : FilePlan V) (path : Str) : FilePlan V where
  ops := plan.ops.filter fun op => op.path = path
  changes := plan.changes.filter fun change => change.path = path
  unrecoverable := plan.unrecoverable.filter fun lost => lost.path = path

def markdownKind : Str := "markdown".toList

def binaryKind : Str := "binary".toList

def sqlKind : Str := "sql".toList

def Kind.text : Kind → Str
  | .markdown => markdownKind
  | .canvas => canvasKind
  | .base => baseKind
  | .binary => binaryKind

/-- `history::path_kind` -/
def pathKindText (path : Str) : Str := if isSqlDump path then sqlKind else (pathKind path).text

/-- The `PlannedChange` of an operation of `plan_rollback`. -/
def planChange (ix : Index) : PlannedOp V → PlannedChange
  | .setText path guid _ => ⟨path, markdownKind, if guid.isSome then .modify else .create⟩
  | .setStructured path guid kind _ =>
      ⟨path, if kind = canvasKind then canvasKind else baseKind,
        if guid.isSome then .modify else .create⟩
  | .setBinary path _ _ blobBytes =>
      ⟨path, binaryKind,
        if blobBytes.isSome then .restoreBlob
        else if (Assoc.get path ix.binaries).isSome then .modify else .create⟩
  | .removeFile path => ⟨path, markdownKind, .delete⟩
  | .removeStructured path => ⟨path, ((Assoc.get path ix.structured).map Prod.snd).getD [], .delete⟩
  | .removeBinary path => ⟨path, binaryKind, .delete⟩

/-- The entry of the summary for an operation with the sentinel's size. -/
def planUnrecoverable (ix : Index) : PlannedOp V → Option UnrecoverableBinary
  | .setBinary path hash size _ =>
      if size = sentinel then some ⟨path, hash, (Assoc.get path ix.binaries).isSome⟩ else none
  | _ => none

section Plan

variable [DecidableEq V] {f : Formats V}

/-- `plan_rollback`, up to the order and without the plugin databases. -/
def planFullRollback (s : Vault f) (tree : List (Str × Bytes)) : Option (FilePlan V) :=
  (planEntries s (targets tree)).map fun planned =>
    let ops := planned.filter (fun op => !op.isUnrecoverable) ++ planRemovals s.index tree
    ⟨ops, ops.map (planChange s.index), planned.filterMap (planUnrecoverable s.index)⟩

/-- A path below the directory. -/
def isBelow (directory path : Str) : Bool := (directory ++ ['/']).isPrefixOf path

/-- `git show {hash}:{path}`, which for a directory prints a listing. -/
def fileBytesAt (listing : Str → Bytes) (tree : List (Str × Bytes)) (path : Str) : Option Bytes :=
  match Assoc.get path tree with
  | some bytes => some bytes
  | none => if tree.any fun entry => isBelow path entry.1 then some (listing path) else none

/-- Hash, size and the bytes to put back into the blob store, and whether the attachment is
lost. -/
def attachment (s : Vault f) (bytes : Bytes) : Str × Nat × Option Bytes × Bool :=
  match parseAttachmentShim bytes with
  | some (hash, size) => (hash, size, none, !s.blobs hash)
  | none =>
      let hash := f.sha256Hex bytes
      (hash, bytes.length, if s.blobs hash then none else some bytes, false)

/-- The target has the path, and the vault has it not. -/
def planCreate (s : Vault f) (path targetPath : Str) (bytes : Bytes) :
    Except AppError (FilePlan V) :=
  let targetKind := pathKindText targetPath
  if targetKind = markdownKind then
    .ok ⟨[.setText path none (Str.fromUtf8Lossy bytes)], [⟨path, markdownKind, .create⟩], []⟩
  else if targetKind = canvasKind ∨ targetKind = baseKind then
    match f.parse targetKind bytes with
    | none => .error .internal
    | some value =>
        .ok ⟨[.setStructured path none targetKind value], [⟨path, targetKind, .create⟩], []⟩
  else
    match attachment s bytes with
    | (hash, size, blobBytes, blobMissing) =>
        if blobMissing then .ok ⟨[], [], [⟨path, hash, false⟩]⟩
        else
          .ok ⟨[.setBinary path hash size blobBytes],
            [⟨path, binaryKind, if blobBytes.isSome then .restoreBlob else .create⟩], []⟩

/-- `plan_single_file_rollback` after the commit is resolved. -/
def planSingleFileRollback (listing : Str → Bytes) (s : Vault f) (tree : List (Str × Bytes))
    (path targetPath : Str) : Except AppError (FilePlan V) :=
  match fileBytesAt listing tree targetPath with
  | some bytes =>
      match Assoc.get path s.index.files with
      | some guid =>
          if pathKindText targetPath ≠ markdownKind then .error .badRequest
          else if s.texts guid = Str.fromUtf8Lossy bytes then .ok .empty
          else
            .ok ⟨[.setText path (some guid) (Str.fromUtf8Lossy bytes)],
              [⟨path, markdownKind, .modify⟩], []⟩
      | none =>
          match Assoc.get path s.index.structured with
          | some (guid, kind) =>
              if pathKindText targetPath ≠ kind then .error .badRequest
              else
                match f.parse kind bytes with
                | none => .error .internal
                | some value =>
                    if (s.roots guid).1 = value then .ok .empty
                    else
                      .ok ⟨[.setStructured path (some guid) kind value], [⟨path, kind, .modify⟩],
                        []⟩
          | none =>
              match Assoc.get path s.index.binaries with
              | some (curHash, _) =>
                  match attachment s bytes with
                  | (hash, size, blobBytes, blobMissing) =>
                      if blobMissing then .ok ⟨[], [], [⟨path, hash, true⟩]⟩
                      else if curHash ≠ hash ∨ blobBytes.isSome then
                        .ok ⟨[.setBinary path hash size blobBytes],
                          [⟨path, binaryKind, if blobBytes.isSome then .restoreBlob else .modify⟩],
                          []⟩
                      else .ok .empty
              | none => planCreate s path targetPath bytes
  | none =>
      if (Assoc.get path s.index.files).isSome then
        .ok ⟨[.removeFile path], [⟨path, markdownKind, .delete⟩], []⟩
      else
        match Assoc.get path s.index.structured with
        | some (_, kind) => .ok ⟨[.removeStructured path], [⟨path, kind, .delete⟩], []⟩
        | none =>
            if (Assoc.get path s.index.binaries).isSome then
              .ok ⟨[.removeBinary path], [⟨path, binaryKind, .delete⟩], []⟩
            else .ok .empty

/-! ## When the planners agree -/

/-- The keys of the three maps are distinct, and a path is in at most one of them, under the
kind of its extension. -/
structure Index.Tidy (ix : Index) : Prop where
  files : Assoc.Wf ix.files
  structured : Assoc.Wf ix.structured
  binaries : Assoc.Wf ix.binaries
  files_kind : ∀ path ∈ Assoc.keys ix.files, pathKindText path = markdownKind
  structured_kind : ∀ path guid kind, Assoc.get path ix.structured = some (guid, kind) →
    pathKindText path = kind ∧ (kind = canvasKind ∨ kind = baseKind)
  binaries_kind : ∀ path ∈ Assoc.keys ix.binaries, pathKindText path = binaryKind

/-- The commit has the path as a directory. -/
def IsDirectory (tree : List (Str × Bytes)) (path : Str) : Prop :=
  path ∉ Assoc.keys tree ∧ ∃ entry ∈ tree, isBelow path entry.1 = true

/-- An attachment that can be restored has the sentinel for its size, and is not there. -/
def Oversized (s : Vault f) (path : Str) (bytes : Bytes) : Prop :=
  (attachment s bytes).2.1 = sentinel ∧ (attachment s bytes).2.2.2 = false ∧
    ((Assoc.get path s.index.binaries).map Prod.fst ≠ some (attachment s bytes).1 ∨
      (attachment s bytes).2.2.1.isSome = true)

/-- The path is no dump and no directory of the commit, and if it is an attachment there, its
size is not the sentinel. -/
structure Plain (s : Vault f) (tree : List (Str × Bytes)) (path : Str) : Prop where
  dump : ¬(isSqlDump path = true ∧ path ∈ Assoc.keys tree)
  directory : ¬IsDirectory tree path
  size : ∀ bytes, Assoc.get path tree = some bytes → classify s.index path = .binary →
    ¬Oversized s path bytes

end Plan

/-! ## One path of the full plan -/

section OnePath

variable [DecidableEq V] {f : Formats V} {s : Vault f} {tree : List (Str × Bytes)} {path : Str}

/-- What an entry of the tree adds to the plan. -/
def entryPlan (ix : Index) : Option (PlannedOp V) → FilePlan V
  | none => .empty
  | some op =>
      match planUnrecoverable ix op with
      | some lost => ⟨[], [], [lost]⟩
      | none => ⟨[op], [planChange ix op], []⟩

omit [DecidableEq V] in
theorem planUnrecoverable_isSome (ix : Index) (op : PlannedOp V) :
    (planUnrecoverable ix op).isSome = op.isUnrecoverable := by
  cases op with
  | setBinary path hash size blobBytes =>
      by_cases h : size = sentinel <;> simp [planUnrecoverable, PlannedOp.isUnrecoverable, h]
  | _ => rfl

omit [DecidableEq V] in
theorem planChange_path (ix : Index) (op : PlannedOp V) : (planChange ix op).path = op.path := by
  cases op <;> rfl

omit [DecidableEq V] in
theorem planUnrecoverable_path {ix : Index} {op : PlannedOp V} {lost : UnrecoverableBinary}
    (h : planUnrecoverable ix op = some lost) : lost.path = op.path := by
  cases op with
  | setBinary path hash size blobBytes =>
      simp only [planUnrecoverable] at h
      by_cases hsize : size = sentinel
      · rw [if_pos hsize, Option.some_inj] at h
        rw [← h]
        rfl
      · rw [if_neg hsize] at h
        cases h
  | _ => cases h

/-- The operations for a path are those of its entry. -/
theorem filter_planEntries {entries : List (Str × Bytes)} {planned : List (PlannedOp V)}
    (hwf : Assoc.Wf entries) (h : planEntries s entries = some planned) (path : Str) :
    planned.filter (fun op => op.path = path) =
      match Assoc.get path entries with
      | some bytes => ((planEntry s path bytes).join).toList
      | none => [] := by
  induction entries generalizing planned with
  | nil =>
      cases h
      rfl
  | cons entry entries ih =>
      obtain ⟨p, bytes⟩ := entry
      obtain ⟨hfresh, hrest⟩ := Assoc.wf_cons.mp hwf
      rw [planEntries] at h
      split at h
      · next op ops hop hops =>
        cases h
        rw [List.filter_append, ih hrest hops, Assoc.get_cons]
        by_cases hp : p = path
        · subst hp
          have hnone : Assoc.get p entries = none := Assoc.get_eq_none_iff.mpr hfresh
          simp only [hnone, if_true, List.append_nil, hop, Option.join_some]
          cases op with
          | none => rfl
          | some op => simp [planEntry_path hop]
        · have hnone : op.toList.filter (fun op => op.path = path) = [] := by
            cases op with
            | none => rfl
            | some op => simp [planEntry_path hop, hp]
          rw [hnone, List.nil_append, if_neg hp]
      · cases h

omit [DecidableEq V] in
theorem filter_removals {remove : Str → PlannedOp V} (hremove : ∀ p, (remove p).path = p)
    {keys : List Str} (hkeys : keys.Nodup) (paths : List Str) (path : Str) :
    ((keys.filter fun p => p ∉ paths).map remove).filter (fun op => op.path = path) =
      if path ∈ keys ∧ path ∉ paths then [remove path] else [] := by
  have hcomp : ((fun op : PlannedOp V => decide (op.path = path)) ∘ remove) =
      fun p => decide (p = path) := by
    funext p
    rw [Function.comp_apply, hremove]
  rw [List.filter_map, hcomp, List.filter_eq, (hkeys.filter _).count]
  simp only [List.mem_filter, decide_eq_true_eq]
  split <;> rfl

theorem Index.Tidy.disjoint {ix : Index} (hix : ix.Tidy) :
    (path ∈ Assoc.keys ix.files → path ∉ Assoc.keys ix.structured ∧
      path ∉ Assoc.keys ix.binaries) ∧
    (path ∈ Assoc.keys ix.structured → path ∉ Assoc.keys ix.binaries) := by
  have hstructured : path ∈ Assoc.keys ix.structured →
      pathKindText path = canvasKind ∨ pathKindText path = baseKind := by
    intro h
    obtain ⟨⟨guid, kind⟩, hget⟩ := Option.isSome_iff_exists.mp (Assoc.get_isSome_iff.mpr h)
    obtain ⟨hkind, h⟩ := hix.structured_kind path guid kind hget
    rwa [hkind]
  refine ⟨fun hfile => ⟨fun h => ?_, fun h => ?_⟩, fun h hbinary => ?_⟩
  · rcases hstructured h with h | h <;> rw [hix.files_kind path hfile] at h <;>
      exact absurd h (by decide)
  · have h := hix.binaries_kind path h
    rw [hix.files_kind path hfile] at h
    exact absurd h (by decide)
  · rcases hstructured h with h | h <;> rw [hix.binaries_kind path hbinary] at h <;>
      exact absurd h (by decide)

omit [DecidableEq V] in
/-- The removals of a path, which is in one map at most. -/
theorem filter_planRemovals (hix : s.index.Tidy) (tree : List (Str × Bytes)) (path : Str) :
    (planRemovals s.index tree : List (PlannedOp V)).filter (fun op => op.path = path) =
      if path ∈ Assoc.keys (targets tree) then []
      else if path ∈ Assoc.keys s.index.files then [.removeFile path]
      else if path ∈ Assoc.keys s.index.structured then [.removeStructured path]
      else if path ∈ Assoc.keys s.index.binaries then [.removeBinary path]
      else [] := by
  obtain ⟨hfiles, hstructured⟩ := @Index.Tidy.disjoint path _ hix
  rw [planRemovals, List.filter_append, List.filter_append,
    filter_removals (fun _ => rfl) hix.files, filter_removals (fun _ => rfl) hix.structured,
    filter_removals (fun _ => rfl) hix.binaries]
  by_cases htarget : path ∈ Assoc.keys (targets tree)
  · simp [htarget]
  · by_cases hf : path ∈ Assoc.keys s.index.files
    · simp [htarget, hf, hfiles hf]
    · by_cases hs : path ∈ Assoc.keys s.index.structured
      · simp [htarget, hf, hs, hstructured hs]
      · by_cases hb : path ∈ Assoc.keys s.index.binaries <;> simp [htarget, hf, hs, hb]

/-- What the full plan says about a path. -/
def pathPlan (s : Vault f) (tree : List (Str × Bytes)) (path : Str) : FilePlan V :=
  match Assoc.get path (targets tree) with
  | some bytes => entryPlan s.index (planEntry s path bytes).join
  | none =>
      if path ∈ Assoc.keys s.index.files then
        ⟨[.removeFile path], [planChange s.index (.removeFile path : PlannedOp V)], []⟩
      else if path ∈ Assoc.keys s.index.structured then
        ⟨[.removeStructured path], [planChange s.index (.removeStructured path : PlannedOp V)], []⟩
      else if path ∈ Assoc.keys s.index.binaries then
        ⟨[.removeBinary path], [planChange s.index (.removeBinary path : PlannedOp V)], []⟩
      else .empty

theorem wf_targets (hwf : Assoc.Wf tree) : Assoc.Wf (targets tree) :=
  (List.filter_sublist.map Prod.fst).nodup hwf

theorem get_targets (tree : List (Str × Bytes)) (path : Str) :
    Assoc.get path (targets tree) = if isSqlDump path then none else Assoc.get path tree := by
  induction tree with
  | nil => simp [targets]
  | cons entry tree ih =>
      unfold targets at ih ⊢
      by_cases hdump : isSqlDump entry.1 = true
      · rw [List.filter_cons_of_neg (by simpa using hdump), ih, Assoc.get_cons]
        by_cases hp : entry.1 = path
        · rw [← hp, if_pos hdump, if_pos hdump]
        · rw [if_neg hp]
      · rw [List.filter_cons_of_pos (by simpa using hdump), Assoc.get_cons, ih, Assoc.get_cons]
        by_cases hp : entry.1 = path
        · rw [if_pos hp, if_pos hp, if_neg (hp ▸ hdump)]
        · rw [if_neg hp, if_neg hp]

omit [DecidableEq V] in
/-- Operations, changes and losses for a path go together. -/
theorem at_of_filter {ix : Index} {planned removals : List (PlannedOp V)} {path : Str} :
    FilePlan.at
        ⟨planned.filter (fun op => !op.isUnrecoverable) ++ removals,
          (planned.filter (fun op => !op.isUnrecoverable) ++ removals).map (planChange ix),
          planned.filterMap (planUnrecoverable ix)⟩ path =
      ⟨(planned.filter fun op => op.path = path).filter (fun op => !op.isUnrecoverable) ++
          removals.filter (fun op => op.path = path),
        ((planned.filter fun op => op.path = path).filter (fun op => !op.isUnrecoverable) ++
          removals.filter (fun op => op.path = path)).map (planChange ix),
        (planned.filter fun op => op.path = path).filterMap (planUnrecoverable ix)⟩ := by
  unfold FilePlan.at
  have hchange : ((fun change : PlannedChange => decide (change.path = path)) ∘ planChange ix) =
      fun op : PlannedOp V => decide (op.path = path) := by
    funext op
    rw [Function.comp_apply, planChange_path]
  have hlost : ∀ planned : List (PlannedOp V),
      (planned.filterMap (planUnrecoverable ix)).filter (fun lost => lost.path = path) =
        (planned.filter fun op => op.path = path).filterMap (planUnrecoverable ix) := by
    intro planned
    induction planned with
    | nil => rfl
    | cons op planned ih =>
        cases hop : planUnrecoverable ix op with
        | none =>
            rw [List.filterMap_cons_none hop, ih, List.filter_cons]
            split
            · rw [List.filterMap_cons_none hop]
            · rfl
        | some lost =>
            rw [List.filterMap_cons_some hop, List.filter_cons, List.filter_cons,
              planUnrecoverable_path hop]
            split
            · rw [List.filterMap_cons_some hop, ih]
            · exact ih
  rw [FilePlan.mk.injEq]
  refine ⟨?_, ?_, hlost planned⟩
  · rw [List.filter_append, List.filter_comm]
  · rw [List.filter_map, hchange, List.filter_append, List.filter_comm]

theorem planFullRollback_at (hix : s.index.Tidy) (hwf : Assoc.Wf tree) {full : FilePlan V}
    (h : planFullRollback s tree = some full) (path : Str) :
    full.at path = pathPlan s tree path := by
  obtain ⟨planned, hplanned, rfl⟩ := Option.map_eq_some_iff.mp h
  have hentries := filter_planEntries (wf_targets hwf) hplanned path
  dsimp only
  rw [at_of_filter, hentries, filter_planRemovals hix, pathPlan]
  cases hget : Assoc.get path (targets tree) with
  | none =>
      have hkey : path ∉ Assoc.keys (targets tree) := Assoc.get_eq_none_iff.mp hget
      simp only [List.filter_nil, List.nil_append, if_neg hkey, List.filterMap_nil]
      split_ifs <;> rfl
  | some bytes =>
      have hkey : path ∈ Assoc.keys (targets tree) := Assoc.get_isSome_iff.mp (by simp [hget])
      simp only [if_pos hkey, List.append_nil]
      cases hop : (planEntry s path bytes).join with
      | none => rfl
      | some op =>
          rw [Option.toList_some]
          unfold entryPlan
          cases hlost : planUnrecoverable s.index op with
          | none =>
              have hrec : op.isUnrecoverable = false := by
                rw [← planUnrecoverable_isSome s.index, hlost]
                rfl
              simp [hrec, hlost]
          | some lost =>
              have hrec : op.isUnrecoverable = true := by
                rw [← planUnrecoverable_isSome s.index, hlost]
                rfl
              simp [hrec, hlost]

/-! ## An entry of the commit -/

omit [DecidableEq V] in
theorem planBinary_eq (s : Vault f) (path : Str) (bytes : Bytes) :
    planBinary s path bytes =
      if (attachment s bytes).2.2.2 = true then
        some (.setBinary path (attachment s bytes).1 sentinel none)
      else if (Assoc.get path s.index.binaries).map Prod.fst ≠ some (attachment s bytes).1 ∨
          (attachment s bytes).2.2.1.isSome = true then
        some (.setBinary path (attachment s bytes).1 (attachment s bytes).2.1
          (attachment s bytes).2.2.1)
      else none := by
  unfold planBinary attachment
  generalize (Assoc.get path s.index.binaries).map Prod.fst = cur
  cases parseAttachmentShim bytes with
  | some shim =>
      obtain ⟨hash, size⟩ := shim
      by_cases hblob : s.blobs hash = true <;> by_cases hcur : cur = some hash <;>
        simp [hblob, hcur]
  | none =>
      by_cases hblob : s.blobs (f.sha256Hex bytes) = true <;>
        by_cases hcur : cur = some (f.sha256Hex bytes) <;> simp [hblob, hcur]

/-- What the planner for one path does with an attachment. -/
def attachmentPlan (s : Vault f) (path : Str) (bytes : Bytes) : FilePlan V :=
  if (attachment s bytes).2.2.2 = true then
    ⟨[], [], [⟨path, (attachment s bytes).1, (Assoc.get path s.index.binaries).isSome⟩]⟩
  else if (Assoc.get path s.index.binaries).map Prod.fst ≠ some (attachment s bytes).1 ∨
      (attachment s bytes).2.2.1.isSome = true then
    ⟨[.setBinary path (attachment s bytes).1 (attachment s bytes).2.1 (attachment s bytes).2.2.1],
      [⟨path, binaryKind, if (attachment s bytes).2.2.1.isSome then .restoreBlob
        else if (Assoc.get path s.index.binaries).isSome then .modify else .create⟩], []⟩
  else .empty

omit [DecidableEq V] in
theorem attachmentPlan_eq_iff (s : Vault f) (path : Str) (bytes : Bytes) :
    attachmentPlan s path bytes = entryPlan s.index (planBinary s path bytes) ↔
      ¬Oversized s path bytes := by
  rw [planBinary_eq, Oversized, attachmentPlan]
  obtain ⟨hash, size, blobBytes, lost⟩ := attachment s bytes
  dsimp only
  cases lost with
  | true => simp [entryPlan, planUnrecoverable]
  | false =>
      by_cases hset : (Assoc.get path s.index.binaries).map Prod.fst ≠ some hash ∨
          blobBytes.isSome = true
      · simp only [Bool.false_eq_true, if_false, if_pos hset]
        by_cases hsize : size = sentinel
        · refine iff_of_false (fun h => ?_) fun h => h ⟨hsize, trivial, hset⟩
          rw [FilePlan.mk.injEq] at h
          simp [entryPlan, planUnrecoverable, hsize] at h
        · refine iff_of_true ?_ fun h => hsize h.1
          simp only [entryPlan, planUnrecoverable, if_neg hsize, planChange]
      · simp only [Bool.false_eq_true, if_false, if_neg hset]
        exact iff_of_true rfl fun h => hset h.2.2

theorem pathKindText_of_not_dump (h : isSqlDump path = false) :
    pathKindText path = (pathKind path).text := by
  rw [pathKindText, h]
  rfl

theorem planCreate_iff {bytes : Bytes} (hfile : Assoc.get path s.index.files = none)
    (hstructured : Assoc.get path s.index.structured = none)
    (hbinary : Assoc.get path s.index.binaries = none) (hdump : isSqlDump path = false)
    (hplanned : (planEntry s path bytes).isSome = true) :
    planCreate s path path bytes = .ok (entryPlan s.index (planEntry s path bytes).join) ↔
      (classify s.index path = .binary → ¬Oversized s path bytes) := by
  have hclass : classify s.index path = match pathKind path with
      | .markdown => .markdown
      | .canvas => .structured canvasKind
      | .base => .structured baseKind
      | .binary => .binary := by
    rw [classify, hfile, hstructured, hbinary]
    rfl
  have hstructuredKind : ∀ kind, kind = canvasKind ∨ kind = baseKind →
      pathKindText path = kind → classify s.index path = .structured kind →
      planCreate s path path bytes = .ok (entryPlan s.index (planEntry s path bytes).join) := by
    intro kind hcases hkind hclass
    have hne : kind ≠ markdownKind := by rcases hcases with rfl | rfl <;> decide
    unfold planCreate
    dsimp only
    rw [planEntry, hclass] at hplanned ⊢
    dsimp only at hplanned ⊢
    unfold planStructured at hplanned ⊢
    rw [hkind, if_neg hne, if_pos hcases]
    cases hparse : f.parse kind bytes with
    | none =>
        rw [hparse] at hplanned
        cases hplanned
    | some value =>
        dsimp only
        rw [hstructured]
        rcases hcases with rfl | rfl <;> rfl
  have hkind := pathKindText_of_not_dump hdump
  cases hpath : pathKind path with
  | markdown =>
      rw [hpath] at hclass hkind
      refine iff_of_true ?_ fun h => by rw [hclass] at h; cases h
      unfold planCreate
      dsimp only
      rw [planEntry, hclass, if_pos (show pathKindText path = markdownKind from hkind)]
      dsimp only
      rw [planMarkdown, hfile]
      rfl
  | canvas =>
      rw [hpath] at hclass hkind
      refine iff_of_true (hstructuredKind canvasKind (.inl rfl) hkind hclass) fun h => ?_
      rw [hclass] at h
      cases h
  | base =>
      rw [hpath] at hclass hkind
      refine iff_of_true (hstructuredKind baseKind (.inr rfl) hkind hclass) fun h => ?_
      rw [hclass] at h
      cases h
  | binary =>
      rw [hpath] at hclass hkind
      have hplan := attachmentPlan_eq_iff s path bytes
      rw [planEntry, hclass]
      dsimp only
      rw [Option.join_some, imp_iff_right rfl, ← hplan]
      unfold planCreate attachmentPlan
      dsimp only
      rw [hkind, if_neg (by decide), if_neg (by decide), hbinary]
      obtain ⟨hash, size, blobBytes, lost⟩ := attachment s bytes
      cases lost with
      | true => simp
      | false => simp

/-- The planners on a path that the commit has. -/
theorem planSingle_entry_iff (hix : s.index.Tidy) (listing : Str → Bytes) {bytes : Bytes}
    (hget : Assoc.get path tree = some bytes) (hdump : isSqlDump path = false)
    (hplanned : (planEntry s path bytes).isSome = true) :
    planSingleFileRollback listing s tree path path =
        .ok (entryPlan s.index (planEntry s path bytes).join) ↔
      (classify s.index path = .binary → ¬Oversized s path bytes) := by
  have hbytes : fileBytesAt listing tree path = some bytes := by rw [fileBytesAt, hget]
  unfold planSingleFileRollback
  rw [hbytes]
  dsimp only
  cases hfile : Assoc.get path s.index.files with
  | some guid =>
      have hkind := hix.files_kind path (Assoc.get_isSome_iff.mp (by simp [hfile]))
      have hclass : classify s.index path = .markdown := by rw [classify, hfile]; rfl
      refine iff_of_true ?_ fun h => by rw [hclass] at h; cases h
      rw [planEntry, hclass]
      dsimp only
      rw [if_neg (not_not.mpr hkind), planMarkdown, hfile]
      dsimp only
      by_cases htext : s.texts guid = Str.fromUtf8Lossy bytes
      · rw [if_pos htext, if_pos htext]
        rfl
      · rw [if_neg htext, if_neg htext]
        rfl
  | none =>
      cases hstructured : Assoc.get path s.index.structured with
      | some entry =>
          obtain ⟨guid, kind⟩ := entry
          obtain ⟨hkind, hcases⟩ := hix.structured_kind path guid kind hstructured
          have hclass : classify s.index path = .structured kind := by
            rw [classify, hfile, hstructured]
            rfl
          refine iff_of_true ?_ fun h => by rw [hclass] at h; cases h
          rw [planEntry, hclass] at hplanned ⊢
          dsimp only at hplanned ⊢
          rw [if_neg (not_not.mpr hkind)]
          unfold planStructured at hplanned ⊢
          cases hparse : f.parse kind bytes with
          | none =>
              rw [hparse] at hplanned
              cases hplanned
          | some value =>
              dsimp only
              rw [hstructured]
              dsimp only
              by_cases hvalue : (s.roots guid).1 = value
              · rw [if_pos hvalue, if_pos hvalue]
                rfl
              · rw [if_neg hvalue, if_neg hvalue]
                rcases hcases with rfl | rfl <;> rfl
      | none =>
          cases hbinary : Assoc.get path s.index.binaries with
          | some entry =>
              obtain ⟨curHash, curSize⟩ := entry
              have hclass : classify s.index path = .binary := by
                rw [classify, hfile, hstructured, hbinary]
                rfl
              have hplan := attachmentPlan_eq_iff s path bytes
              rw [planEntry, hclass]
              dsimp only
              rw [Option.join_some, ← hplan]
              unfold attachmentPlan
              rw [hbinary]
              obtain ⟨hash, size, blobBytes, lost⟩ := attachment s bytes
              cases lost with
              | true => simp
              | false =>
                  simp only [Bool.false_eq_true, if_false, Option.map_some, Option.isSome_some,
                    if_true, ne_eq, Option.some_inj, forall_const]
                  by_cases hset : ¬curHash = hash ∨ blobBytes.isSome = true
                  · rw [if_pos hset, if_pos hset, Except.ok.injEq]
                  · rw [if_neg hset, if_neg hset, Except.ok.injEq]
          | none => exact planCreate_iff hfile hstructured hbinary hdump hplanned

/-! ## A path that the commit has not -/

omit [DecidableEq V] in
theorem planCreate_ne_empty (s : Vault f) (path : Str) (bytes : Bytes) :
    planCreate s path path bytes ≠ .ok .empty := by
  unfold planCreate
  dsimp only
  split_ifs
  · simp [FilePlan.empty]
  · split <;> simp [FilePlan.empty]
  all_goals simp [FilePlan.empty]

/-- With content to restore nothing is removed, and what the vault has not is created. -/
theorem planSingle_of_bytes {listing : Str → Bytes} {bytes : Bytes} {plan : FilePlan V}
    (hbytes : fileBytesAt listing tree path = some bytes)
    (h : planSingleFileRollback listing s tree path path = .ok plan) :
    (∀ p, .removeFile p ∉ plan.ops ∧ .removeStructured p ∉ plan.ops ∧ .removeBinary p ∉ plan.ops) ∧
      (Assoc.get path s.index.files = none → Assoc.get path s.index.structured = none →
        Assoc.get path s.index.binaries = none → plan ≠ .empty) := by
  unfold planSingleFileRollback at h
  rw [hbytes] at h
  dsimp only at h
  cases hfile : Assoc.get path s.index.files with
  | some guid =>
      rw [hfile] at h
      dsimp only at h
      split_ifs at h
      · cases h
        exact ⟨fun p => by simp [FilePlan.empty], fun hnone => absurd hnone (Option.some_ne_none _)⟩
      · cases h
        exact ⟨fun p => by simp, fun hnone => absurd hnone (Option.some_ne_none _)⟩
  | none =>
      rw [hfile] at h
      dsimp only at h
      cases hstructured : Assoc.get path s.index.structured with
      | some entry =>
          rw [hstructured] at h
          dsimp only at h
          split_ifs at h
          split at h
          · cases h
          · split_ifs at h <;> cases h
            · exact ⟨fun p => by simp [FilePlan.empty],
                fun _ hnone => absurd hnone (Option.some_ne_none _)⟩
            · exact ⟨fun p => by simp, fun _ hnone => absurd hnone (Option.some_ne_none _)⟩
      | none =>
          rw [hstructured] at h
          dsimp only at h
          cases hbinary : Assoc.get path s.index.binaries with
          | some entry =>
              rw [hbinary] at h
              dsimp only at h
              split_ifs at h <;> cases h <;>
                exact ⟨fun p => by simp [FilePlan.empty],
                  fun _ _ hnone => absurd hnone (Option.some_ne_none _)⟩
          | none =>
              rw [hbinary] at h
              dsimp only at h
              refine ⟨fun p => ?_, fun _ _ _ hempty => ?_⟩
              · unfold planCreate at h
                dsimp only at h
                split_ifs at h
                · cases h
                  simp
                · split at h <;> cases h
                  simp
                all_goals
                  cases h
                  simp
              · rw [hempty] at h
                exact planCreate_ne_empty s path bytes h

/-- Content that is no file of the commit is not taken for absence. -/
theorem planSingle_ne_of_bytes {listing : Str → Bytes} {bytes : Bytes}
    (hbytes : fileBytesAt listing tree path = some bytes)
    (htarget : Assoc.get path (targets tree) = none) :
    planSingleFileRollback listing s tree path path ≠ .ok (pathPlan s tree path) := by
  intro h
  obtain ⟨hremoves, hcreates⟩ := planSingle_of_bytes hbytes h
  rw [pathPlan, htarget] at hremoves hcreates
  dsimp only at hremoves hcreates
  split_ifs at hremoves hcreates with hfile hstructured hbinary
  · exact (hremoves path).1 (List.mem_singleton_self _)
  · exact (hremoves path).2.1 (List.mem_singleton_self _)
  · exact (hremoves path).2.2 (List.mem_singleton_self _)
  · exact hcreates (Assoc.get_eq_none_iff.mpr hfile) (Assoc.get_eq_none_iff.mpr hstructured)
      (Assoc.get_eq_none_iff.mpr hbinary) rfl

/-- Where the commit has nothing, both remove what the vault has. -/
theorem planSingle_of_absent {listing : Str → Bytes} (hbytes : fileBytesAt listing tree path = none)
    (htarget : Assoc.get path (targets tree) = none) :
    planSingleFileRollback listing s tree path path = .ok (pathPlan s tree path) := by
  unfold planSingleFileRollback pathPlan
  rw [hbytes, htarget]
  dsimp only
  by_cases hfile : path ∈ Assoc.keys s.index.files
  · rw [if_pos (Assoc.get_isSome_iff.mpr hfile), if_pos hfile]
    rfl
  · rw [if_neg (mt Assoc.get_isSome_iff.mp hfile), if_neg hfile]
    cases hstructured : Assoc.get path s.index.structured with
    | some entry =>
        rw [if_pos (Assoc.get_isSome_iff.mp (by simp [hstructured]))]
        simp [planChange, hstructured]
    | none =>
        rw [if_neg (Assoc.get_eq_none_iff.mp hstructured)]
        dsimp only
        by_cases hbinary : path ∈ Assoc.keys s.index.binaries
        · rw [if_pos (Assoc.get_isSome_iff.mpr hbinary), if_pos hbinary]
          rfl
        · rw [if_neg (mt Assoc.get_isSome_iff.mp hbinary), if_neg hbinary]

theorem fileBytesAt_eq_none_iff (listing : Str → Bytes) (tree : List (Str × Bytes)) (path : Str) :
    fileBytesAt listing tree path = none ↔ path ∉ Assoc.keys tree ∧ ¬IsDirectory tree path := by
  unfold fileBytesAt IsDirectory
  cases hget : Assoc.get path tree with
  | some bytes =>
      refine iff_of_false (by simp) fun h => h.1 (Assoc.get_isSome_iff.mp (by simp [hget]))
  | none =>
      have hkey : path ∉ Assoc.keys tree := Assoc.get_eq_none_iff.mp hget
      by_cases hbelow : (tree.any fun entry => isBelow path entry.1) = true
      · refine iff_of_false (by simp [hbelow]) fun h => h.2 ⟨hkey, ?_⟩
        simpa using hbelow
      · refine iff_of_true (by simp [hbelow]) ⟨hkey, fun h => hbelow ?_⟩
        simpa using h.2

end OnePath

theorem oneNote_tidy : (oneNote "a.md".toList).index.Tidy where
  files := by simp [oneNote, Assoc.Wf, Assoc.keys]
  structured := List.nodup_nil
  binaries := List.nodup_nil
  files_kind := by
    simp only [oneNote, Assoc.keys_cons, Assoc.keys_nil, List.mem_singleton, forall_eq]
    decide
  structured_kind := nofun
  binaries_kind := nofun

/-- The hash of no bytes is known. -/
def emptyFormats : Formats Unit where
  __ := plainFormats
  sha256Hex := fun _ => "e3b0c44298fc1c149afbf4c8996fb92427ae41e4649b934ca495991b7852b855".toList

def emptyVault : Vault emptyFormats where
  index := ⟨[], [], [], []⟩
  texts := fun _ => []
  roots := fun _ => ⟨(), rfl⟩
  documents := []
  blobs := fun _ => false

def dumpPath : Str := ".sql/tasks/main.sql".toList

end Realtime.Rollback
