import Mathlib.Tactic
import Realtime.Git.WorkingTree
import Realtime.Rollback.SingleFile

/-!
# A refused rollback

The handler of a rollback, with all it checks. What it checks before it executes costs
nothing. Two of its refusals come later: the limit of documents is met while documents are
written, and the selected plugin databases are looked up when files and index are done.
-/

namespace Realtime.Rollback

open Lib
open Realtime.Access (AppError)

variable {V δ ρ : Type}

/-- The answers with a status between 400 and 499 that a rollback gives. -/
def isClientError : AppError → Bool
  | .badRequest | .notFound | .forbidden => true
  | .internal => false

/-- `sql_dump_parts`: plugin and name. -/
def sqlDumpParts (path : Str) : Option (Str × Str) :=
  match Str.stripPrefix ".sql/".toList path with
  | none => none
  | some rest =>
      match rest.dropWhile (· != '/') with
      | [] => none
      | _ :: file =>
          match Str.stripSuffix ".sql".toList file with
          | none => none
          | some name =>
              let plugin := rest.takeWhile (· != '/')
              if !plugin.isEmpty && !name.isEmpty && !name.contains '/' then some (plugin, name)
              else none

/-- What stands for the rest of the server: the vault's repository, the document store's
check of a guid, its limit and new ids, the plugin databases (their dumps, the check of a
dump, the rollback to one) and the search index. -/
structure Services (f : Formats V) (δ ρ : Type) where
  commit : Str → Except AppError (List (Str × Bytes))
  listing : Str → Bytes
  validDocument : Str → Bool
  maxDocuments : Nat
  uuid : Str → Str
  dump : δ → Option Str
  rollbackCheck : δ → Str → Bool
  rollbackToDump : δ → Str → δ
  reindexVault : Vault f → ρ

/-- The stores. A document keeps every update that it ever got, so there is no way back
to the state before one: `writes` counts what was written. -/
structure Server (f : Formats V) (δ ρ : Type) where
  vault : Vault f
  databases : Str × Str → δ
  searchRows : ρ
  writes : Nat

structure Request where
  isAdmin : Bool
  hash : Str
  path : Option Str
  targetPath : Option Str
  pluginDbs : List (Str × Str)

/-! ## Validation and planning -/

def validatedRelPath (path : Str) : Except AppError Str :=
  match Git.safeRelPath path with
  | some _ => .ok path
  | none => .error .badRequest

/-- `validate_rollback_query` -/
def validateRollbackQuery (r : Request) : Except AppError (Option (Str × Str)) :=
  match r.path with
  | none => if r.targetPath.isSome then .error .badRequest else .ok none
  | some path =>
      match validatedRelPath path with
      | .error e => .error e
      | .ok path =>
          match r.targetPath with
          | none => .ok (some (path, path))
          | some targetPath =>
              (validatedRelPath targetPath).map fun targetPath => some (path, targetPath)

section Plan

variable [DecidableEq V] {f : Formats V} (o : Services f δ ρ) (s : Server f δ ρ)

/-- Planning reads the document of the path, whose guid may be none. -/
def readsInvalid (path : Str) : Bool :=
  match Assoc.get path s.vault.index.files with
  | some guid => !o.validDocument guid
  | none =>
      match Assoc.get path s.vault.index.structured with
      | some (guid, _) => !o.validDocument guid
      | none => false

/-- The databases that can be rolled back, with their dumps. -/
def pluginTargets (tree : List (Str × Bytes)) : List ((Str × Str) × Str) :=
  tree.filterMap fun entry =>
    (sqlDumpParts entry.1).bind fun db =>
      let sql := Str.fromUtf8Lossy entry.2
      if o.dump (s.databases db) ≠ some sql ∧ o.rollbackCheck (s.databases db) sql = true then
        some (db, sql)
      else none

/-- The operations and the plugin databases of the plan. -/
def planRequest (hash : Str) (single : Option (Str × Str)) :
    Except AppError (List (PlannedOp V) × List ((Str × Str) × Str)) :=
  match o.commit hash with
  | .error e => .error e
  | .ok tree =>
      match single with
      | some (path, targetPath) =>
          if readsInvalid o s path && (fileBytesAt o.listing tree targetPath).isSome then
            .error .badRequest
          else
            (planSingleFileRollback o.listing s.vault tree path targetPath).map fun plan =>
              (plan.ops, [])
      | none =>
          if (targets tree).any fun entry => readsInvalid o s entry.1 then .error .badRequest
          else
            match planRollback s.vault tree with
            | none => .error .internal
            | some ops => .ok (ops, pluginTargets o s tree)

/-- What the handler has when it begins to execute. Planning reads the documents of the index
with `get_or_load`, and `create_manifest` makes one that is missing, empty; `documents` of the
vault has these from the start. -/
def prepare (r : Request) :
    Except AppError (List (PlannedOp V) × List ((Str × Str) × Str)) :=
  if !r.isAdmin then .error .forbidden
  else
    match validateRollbackQuery r with
    | .error e => .error e
    | .ok single =>
        if single.isSome && !r.pluginDbs.isEmpty then .error .badRequest
        else planRequest o s r.hash single

end Plan

/-! ## Execution -/

section Execute

variable [DecidableEq V] {f : Formats V} (o : Services f δ ρ)

/-- The document an operation writes. -/
def PlannedOp.document : PlannedOp V → Option Str
  | .setText path guid _ | .setStructured path guid _ _ => some (guid.getD (o.uuid path))
  | _ => none

/-- The operation writes nothing before the batch: the document is there and has the
content. -/
def PlannedOp.isIdle (s : Server f δ ρ) : PlannedOp V → Bool
  | .setText path guid content =>
      let doc := guid.getD (o.uuid path)
      doc ∈ s.vault.documents && s.vault.texts doc = content
  | .setStructured path guid _ value =>
      let doc := guid.getD (o.uuid path)
      doc ∈ s.vault.documents && (s.vault.roots doc).1 = f.settle value
  | .setBinary _ _ _ blobBytes => blobBytes.isNone
  | .removeFile _ | .removeStructured _ | .removeBinary _ => true

/-- Why an operation fails. -/
def PlannedOp.failure : PlannedOp V → AppError
  | .setBinary _ _ _ _ => .internal
  | _ => .badRequest

def runOp (s : Server f δ ρ) (op : PlannedOp V) : Except AppError Unit × Server f δ ρ :=
  match executeOp o.maxDocuments o.uuid s.vault op with
  | some vault =>
      (.ok (), { s with
        vault := vault
        writes := if op.isIdle o s then s.writes else s.writes + 1 })
  | none => (.error op.failure, s)

def runOps (s : Server f δ ρ) : List (PlannedOp V) → Except AppError Unit × Server f δ ρ
  | [] => (.ok (), s)
  | op :: ops =>
      match runOp o s op with
      | (.ok _, s') => runOps s' ops
      | (.error e, s') => (.error e, s')

/-- The operation of the batch writes to the index. -/
def IndexOp.writes (ix : Index) : IndexOp → Bool
  | .setFile _ _ | .setBinary _ _ _ | .setStructured _ _ _ => true
  | .removeFile path => (Assoc.get path ix.files).isSome
  | .removeBinary path => (Assoc.get path ix.binaries).isSome
  | .removeStructured path => (Assoc.get path ix.structured).isSome

/-- `index_apply_batch` -/
def applyBatch (s : Server f δ ρ) (batch : List IndexOp) : Server f δ ρ :=
  { s with
    vault := { s.vault with index := batch.foldl (applyIndexOp s.vault.index) s.vault.index }
    writes := if batch.any (IndexOp.writes s.vault.index) then s.writes + 1 else s.writes }

variable [DecidableEq δ] [DecidableEq ρ]

def reindex (s : Server f δ ρ) : Server f δ ρ :=
  let rows := o.reindexVault s.vault
  { s with searchRows := rows, writes := if rows = s.searchRows then s.writes else s.writes + 1 }

/-- The loop over the selected plugin databases. -/
def rollbackDbs (targets : List ((Str × Str) × Str)) (s : Server f δ ρ) :
    List (Str × Str) → Except AppError Unit × Server f δ ρ
  | [] => (.ok (), s)
  | db :: rest =>
      match targets.find? fun target => target.1 = db with
      | none => (.error .badRequest, s)
      | some (_, sql) =>
          let next := o.rollbackToDump (s.databases db) sql
          rollbackDbs targets
            { s with
              databases := Function.update s.databases db next
              writes := if next = s.databases db then s.writes else s.writes + 1 } rest

/-- `execute_rollback` after the planning, with the operations in the order in which their
planning finished. -/
def executeRollback (s : Server f δ ρ) (ops : List (PlannedOp V))
    (targets : List ((Str × Str) × Str)) (selected : List (Str × Str)) :
    Except AppError Unit × Server f δ ρ :=
  match runOps o s ops with
  | (.error e, s') => (.error e, s')
  | (.ok _, s') =>
      let s' := applyBatch s' (ops.flatMap (PlannedOp.indexOps o.uuid))
      let s' := if ops.isEmpty then s' else reindex o s'
      rollbackDbs o targets s' selected

/-- The answer to the request. -/
def rollback (s : Server f δ ρ) (r : Request) (ops : List (PlannedOp V)) :
    Except AppError Unit × Server f δ ρ :=
  match prepare o s r with
  | .error e => (.error e, s)
  | .ok (_, targets) => executeRollback o s ops targets r.pluginDbs

end Execute

/-! ## When a refusal comes in time -/

section Condition

variable [DecidableEq V] {f : Formats V} (o : Services f δ ρ) (s : Server f δ ρ)

/-- The documents that the operations create. -/
def newDocuments (ops : List (PlannedOp V)) : Finset Str :=
  (ops.filterMap (PlannedOp.document o)).toFinset \ s.vault.documents.toFinset

/-- The limit has room for them. -/
def HasRoom (ops : List (PlannedOp V)) : Prop :=
  newDocuments o s ops = ∅ ∨
    s.vault.documents.length + (newDocuments o s ops).card ≤ o.maxDocuments

/-- The limit has no room for the document of the operation. -/
def IsRefused (op : PlannedOp V) : Prop :=
  ∃ doc, op.document o = some doc ∧ doc ∉ s.vault.documents ∧
    o.maxDocuments ≤ s.vault.documents.length

/-- Files, index and search rows are as the operations would have them. -/
structure NothingToDo (ops : List (PlannedOp V)) : Prop where
  idle : ∀ op ∈ ops, op.isIdle o s = true
  batch : ∀ op ∈ ops.flatMap (PlannedOp.indexOps o.uuid), op.writes s.vault.index = false
  rows : ops = [] ∨ o.reindexVault s.vault = s.searchRows

/-- The databases selected before the first that cannot be rolled back are as their dumps
would have them. -/
def DatabasesDone (targets : List ((Str × Str) × Str)) : List (Str × Str) → Prop
  | [] => True
  | db :: rest =>
      match targets.find? fun target => target.1 = db with
      | none => True
      | some (_, sql) => o.rollbackToDump (s.databases db) sql = s.databases db ∧
          DatabasesDone targets rest

/-- The first operation that would write anything is the one the limit refuses. Or the limit
refuses none, and every selected database can be rolled back unless nothing is written before
the first that cannot. -/
def InTime (ops : List (PlannedOp V)) (targets : List ((Str × Str) × Str))
    (selected : List (Str × Str)) : Prop :=
  (∃ op, ops.find? (fun op => !op.isIdle o s) = some op ∧ IsRefused o s op) ∨
    (HasRoom o s ops ∧
      ((∀ db ∈ selected, db ∈ targets.map Prod.fst) ∨
        (NothingToDo o s ops ∧ DatabasesDone o s targets selected)))

end Condition

/-! ## One operation -/

section Run

variable [DecidableEq V] {f : Formats V} {o : Services f δ ρ} {s : Server f δ ρ}
  {op : PlannedOp V} {ops : List (PlannedOp V)}

/-- The bytes that are put back have the hash under which they are. -/
def HashesFit (op : PlannedOp V) : Prop :=
  ∀ path hash size bytes, op = .setBinary path hash size (some bytes) → f.sha256Hex bytes = hash

omit [DecidableEq V] in
theorem ensureDocument_of_mem {max : Nat} {v : Vault f} {doc : Str} (h : doc ∈ v.documents) :
    ensureDocument max v doc = some v := if_pos h

theorem runOp_of_idle (h : op.isIdle o s = true) : runOp o s op = (.ok (), s) := by
  have hexec : executeOp o.maxDocuments o.uuid s.vault op = some s.vault := by
    cases op with
    | setText path guid content =>
        simp only [PlannedOp.isIdle, Bool.and_eq_true, decide_eq_true_eq] at h
        rw [executeOp, ensureDocument_of_mem h.1, Option.map_some, ← h.2, Function.update_eq_self]
    | setStructured path guid kind value =>
        simp only [PlannedOp.isIdle, Bool.and_eq_true, decide_eq_true_eq] at h
        have hroot : (⟨f.settle value, f.settle_settle value⟩ : f.Root) =
            s.vault.roots (guid.getD (o.uuid path)) := Subtype.ext h.2.symm
        rw [executeOp, ensureDocument_of_mem h.1, Option.map_some, hroot,
          Function.update_eq_self]
    | setBinary path hash size blobBytes =>
        rw [Option.isNone_iff_eq_none.mp h]
        rfl
    | removeFile path => rfl
    | removeStructured path => rfl
    | removeBinary path => rfl
  rw [runOp, hexec]
  dsimp only
  rw [if_pos h]

theorem runOp_of_refused (h : IsRefused o s op) : runOp o s op = (.error .badRequest, s) := by
  obtain ⟨doc, hdoc, hnew, hfull⟩ := h
  have hensure : ensureDocument o.maxDocuments s.vault doc = none := by
    rw [ensureDocument, if_neg hnew, if_pos hfull]
  cases op with
  | setText path guid content =>
      obtain rfl := Option.some_inj.mp hdoc
      rw [runOp, executeOp, hensure]
      rfl
  | setStructured path guid kind value =>
      obtain rfl := Option.some_inj.mp hdoc
      rw [runOp, executeOp, hensure]
      rfl
  | _ => cases hdoc

/-- The documents after an operation. -/
def documentsAfter (o : Services f δ ρ) (s : Server f δ ρ) (op : PlannedOp V) : List Str :=
  match op.document o with
  | some doc => if doc ∈ s.vault.documents then s.vault.documents else doc :: s.vault.documents
  | none => s.vault.documents

/-- The rest of the state after an operation that is neither idle nor refused. -/
structure Wrote (s s' : Server f δ ρ) (documents : List Str) : Prop where
  writes : s'.writes = s.writes + 1
  documents : s'.vault.documents = documents
  index : s'.vault.index = s.vault.index
  databases : s'.databases = s.databases
  searchRows : s'.searchRows = s.searchRows

theorem runOp_of_writes (hhash : HashesFit (f := f) op) (hidle : op.isIdle o s = false)
    (hroom : ¬IsRefused o s op) :
    ∃ s', runOp o s op = (.ok (), s') ∧ Wrote s s' (documentsAfter o s op) := by
  have hensure : ∀ doc, op.document o = some doc → ∃ v,
      ensureDocument o.maxDocuments s.vault doc = some v ∧ v.index = s.vault.index ∧
        v.documents = documentsAfter o s op := by
    intro doc hdoc
    unfold documentsAfter
    rw [hdoc]
    dsimp only
    by_cases hmem : doc ∈ s.vault.documents
    · exact ⟨s.vault, ensureDocument_of_mem hmem, rfl, (if_pos hmem).symm⟩
    · refine ⟨{ s.vault with documents := doc :: s.vault.documents }, ?_, rfl, (if_neg hmem).symm⟩
      rw [ensureDocument, if_neg hmem, if_neg fun hfull => hroom ⟨doc, hdoc, hmem, hfull⟩]
  unfold runOp
  cases op with
  | setText path guid content =>
      obtain ⟨v, hv, hindex, hdocuments⟩ := hensure _ rfl
      rw [executeOp, hv, Option.map_some, hidle]
      exact ⟨_, rfl, rfl, hdocuments, hindex, rfl, rfl⟩
  | setStructured path guid kind value =>
      obtain ⟨v, hv, hindex, hdocuments⟩ := hensure _ rfl
      rw [executeOp, hv, Option.map_some, hidle]
      exact ⟨_, rfl, rfl, hdocuments, hindex, rfl, rfl⟩
  | setBinary path hash size blobBytes =>
      cases blobBytes with
      | none => cases hidle
      | some bytes =>
          have hfit := hhash path hash size bytes rfl
          rw [executeOp, if_neg (not_not.mpr hfit)]
          exact ⟨_, rfl, rfl, rfl, rfl, rfl, rfl⟩
  | _ => cases hidle

/-! ## All operations -/

omit [DecidableEq V] in
theorem hasRoom_cons_iff {s' : Server f δ ρ} (hroom : ¬IsRefused o s op)
    (hdocuments : s'.vault.documents = documentsAfter o s op) :
    HasRoom o s (op :: ops) ↔ HasRoom o s' ops := by
  unfold HasRoom newDocuments
  unfold documentsAfter at hdocuments
  cases hdoc : op.document o with
  | none =>
      rw [hdoc] at hdocuments
      rw [List.filterMap_cons_none hdoc, hdocuments]
  | some doc =>
      rw [hdoc] at hdocuments
      dsimp only at hdocuments
      rw [List.filterMap_cons_some hdoc, List.toFinset_cons]
      by_cases hmem : doc ∈ s.vault.documents
      · rw [if_pos hmem] at hdocuments
        rw [hdocuments, Finset.insert_sdiff_of_mem _ (List.mem_toFinset.mpr hmem)]
      · rw [if_neg hmem] at hdocuments
        have hlt : s.vault.documents.length < o.maxDocuments :=
          not_le.mp fun hfull => hroom ⟨doc, hdoc, hmem, hfull⟩
        rw [hdocuments, List.toFinset_cons, List.length_cons, Finset.sdiff_insert,
          Finset.insert_sdiff_of_notMem _ (by simpa using hmem)]
        generalize (List.filterMap (PlannedOp.document o) ops).toFinset \
          s.vault.documents.toFinset = new
        have hcard : (insert doc new).card = (new.erase doc).card + 1 := by
          have hinsert : insert doc (new.erase doc) = insert doc new := by
            ext x
            by_cases hx : x = doc <;> simp [hx]
          rw [← hinsert, Finset.card_insert_of_notMem (Finset.notMem_erase doc new)]
        rw [← Finset.card_eq_zero, ← Finset.card_eq_zero, hcard]
        omega

/-- What operations leave alone outside the documents and blobs. -/
structure Ran (s s' : Server f δ ρ) : Prop where
  writes : s.writes ≤ s'.writes
  index : s'.vault.index = s.vault.index
  databases : s'.databases = s.databases
  searchRows : s'.searchRows = s.searchRows

omit [DecidableEq V] in
theorem Wrote.ran {s' s'' : Server f δ ρ} {documents : List Str} (h : Wrote s s' documents)
    (hran : Ran s' s'') : Ran s s'' where
  writes := by
    have := hran.writes
    rw [h.writes] at this
    omega
  index := hran.index.trans h.index
  databases := hran.databases.trans h.databases
  searchRows := hran.searchRows.trans h.searchRows

theorem not_isRefused_of_idle (h : op.isIdle o s = true) : ¬IsRefused o s op := by
  rintro ⟨doc, hdoc, hnew, -⟩
  cases op with
  | setText path guid content =>
      simp only [PlannedOp.isIdle, Bool.and_eq_true, decide_eq_true_eq] at h
      obtain rfl := Option.some_inj.mp hdoc
      exact hnew h.1
  | setStructured path guid kind value =>
      simp only [PlannedOp.isIdle, Bool.and_eq_true, decide_eq_true_eq] at h
      obtain rfl := Option.some_inj.mp hdoc
      exact hnew h.1
  | _ => cases hdoc

theorem documentsAfter_of_idle (h : op.isIdle o s = true) :
    s.vault.documents = documentsAfter o s op := by
  unfold documentsAfter
  cases op with
  | setText path guid content =>
      simp only [PlannedOp.isIdle, Bool.and_eq_true, decide_eq_true_eq] at h
      exact (if_pos h.1).symm
  | setStructured path guid kind value =>
      simp only [PlannedOp.isIdle, Bool.and_eq_true, decide_eq_true_eq] at h
      exact (if_pos h.1).symm
  | _ => rfl

omit [DecidableEq V] in
theorem not_hasRoom_of_refused (h : IsRefused o s op) : ¬HasRoom o s (op :: ops) := by
  obtain ⟨doc, hdoc, hnew, hfull⟩ := h
  have hmem : doc ∈ newDocuments o s (op :: ops) := by
    unfold newDocuments
    rw [Finset.mem_sdiff, List.mem_toFinset, List.mem_toFinset, List.filterMap_cons_some hdoc]
    exact ⟨List.mem_cons_self, hnew⟩
  rintro (hempty | hroom)
  · rw [hempty] at hmem
    exact Finset.notMem_empty _ hmem
  · have := Finset.card_pos.mpr ⟨doc, hmem⟩
    omega

/-- With room for the documents every operation succeeds, and none writes only if all are
idle. -/
theorem runOps_of_hasRoom (hhash : ∀ op ∈ ops, HashesFit (f := f) op)
    (hroom : HasRoom o s ops) :
    ∃ s', runOps o s ops = (.ok (), s') ∧ Ran s s' ∧
      ((∀ op ∈ ops, op.isIdle o s = true) → s' = s) ∧
      ((∃ op ∈ ops, op.isIdle o s = false) → s.writes < s'.writes) := by
  induction ops generalizing s with
  | nil => exact ⟨s, rfl, ⟨le_rfl, rfl, rfl, rfl⟩, fun _ => rfl, by simp⟩
  | cons op ops ih =>
      have hhash' : ∀ op ∈ ops, HashesFit (f := f) op := fun x hx =>
        hhash x (List.mem_cons_of_mem _ hx)
      have hrefused : ¬IsRefused o s op := fun h => not_hasRoom_of_refused h hroom
      rw [runOps]
      cases hidle : op.isIdle o s with
      | true =>
          obtain ⟨s', hrun, hran, hall, hsome⟩ := ih hhash'
            ((hasRoom_cons_iff hrefused (documentsAfter_of_idle hidle)).mp hroom)
          rw [runOp_of_idle hidle]
          refine ⟨s', hrun, hran, fun h => hall fun x hx => h x (List.mem_cons_of_mem _ hx), ?_⟩
          rintro ⟨x, hx, hnot⟩
          rcases List.mem_cons.mp hx with rfl | hx
          · rw [hidle] at hnot
            cases hnot
          · exact hsome ⟨x, hx, hnot⟩
      | false =>
          obtain ⟨s₁, hop, hwrote⟩ := runOp_of_writes
            (hhash op List.mem_cons_self) hidle hrefused
          obtain ⟨s', hrun, hran, -, -⟩ := ih (s := s₁) hhash'
            ((hasRoom_cons_iff hrefused hwrote.documents).mp hroom)
          rw [hop]
          refine ⟨s', hrun, hwrote.ran hran, fun h => ?_, fun _ => ?_⟩
          · have := h op List.mem_cons_self
            rw [hidle] at this
            cases this
          · have := hran.writes
            rw [hwrote.writes] at this
            omega

/-- Without room the operations end with a refusal. They have changed nothing by then only
if the refused one is the first that would write. -/
theorem runOps_of_not_hasRoom (hhash : ∀ op ∈ ops, HashesFit (f := f) op)
    (hroom : ¬HasRoom o s ops) :
    ∃ s', runOps o s ops = (.error .badRequest, s') ∧ s.writes ≤ s'.writes ∧
      (s' = s ↔ ∃ op, ops.find? (fun op => !op.isIdle o s) = some op ∧ IsRefused o s op) := by
  induction ops generalizing s with
  | nil => exact (hroom (.inl (by simp [newDocuments]))).elim
  | cons op ops ih =>
      have hhash' : ∀ op ∈ ops, HashesFit (f := f) op := fun x hx =>
        hhash x (List.mem_cons_of_mem _ hx)
      rw [runOps]
      by_cases hrefused : IsRefused o s op
      · have hidle : op.isIdle o s = false := by
          cases hidle : op.isIdle o s with
          | false => rfl
          | true => exact (not_isRefused_of_idle hidle hrefused).elim
        rw [runOp_of_refused hrefused]
        refine ⟨s, rfl, le_rfl, iff_of_true rfl ⟨op, ?_, hrefused⟩⟩
        rw [List.find?_cons_of_pos (by simp [hidle])]
      cases hidle : op.isIdle o s with
      | true =>
          obtain ⟨s', hrun, hle, hiff⟩ := ih hhash' (fun h =>
            hroom ((hasRoom_cons_iff hrefused (documentsAfter_of_idle hidle)).mpr h))
          rw [runOp_of_idle hidle]
          refine ⟨s', hrun, hle, ?_⟩
          rw [List.find?_cons_of_neg (by simp [hidle])]
          exact hiff
      | false =>
          obtain ⟨s₁, hop, hwrote⟩ := runOp_of_writes
            (hhash op List.mem_cons_self) hidle hrefused
          obtain ⟨s', hrun, hle, -⟩ := ih (s := s₁) hhash' (fun h =>
            hroom ((hasRoom_cons_iff hrefused hwrote.documents).mpr h))
          rw [hwrote.writes] at hle
          rw [hop]
          refine ⟨s', hrun, by omega, iff_of_false (fun h => ?_) ?_⟩
          · rw [h] at hle
            omega
          · rw [List.find?_cons_of_pos (by simp [hidle])]
            rintro ⟨x, hx, hx'⟩
            obtain rfl := Option.some_inj.mp hx
            exact hrefused hx'

/-! ## Index, search rows and plugin databases -/

omit [DecidableEq V] in
theorem applyBatch_of_idle {batch : List IndexOp}
    (h : ∀ op ∈ batch, op.writes s.vault.index = false) : applyBatch s batch = s := by
  have hfold : batch.foldl (applyIndexOp s.vault.index) s.vault.index = s.vault.index := by
    induction batch with
    | nil => rfl
    | cons op batch ih =>
        have hop : applyIndexOp s.vault.index s.vault.index op = s.vault.index := by
          have hidle := h op List.mem_cons_self
          have hnone : ∀ {γ : Type} {path : Str} {m : List (Str × γ)},
              (Assoc.get path m).isSome = false →
                Assoc.erase path m = m ∧ Assoc.get path m = none := fun hget =>
            have hget := Option.isNone_iff_eq_none.mp (by simpa using hget)
            ⟨Assoc.erase_of_not_mem (Assoc.get_eq_none_iff.mp hget), hget⟩
          cases op with
          | removeFile path =>
              obtain ⟨herase, hget⟩ := hnone hidle
              simp only [applyIndexOp, herase, hget]
          | removeBinary path =>
              obtain ⟨herase, hget⟩ := hnone hidle
              simp only [applyIndexOp, herase, hget]
          | removeStructured path =>
              obtain ⟨herase, hget⟩ := hnone hidle
              simp only [applyIndexOp, herase, hget]
          | _ => cases hidle
        rw [List.foldl_cons, hop, ih fun x hx => h x (List.mem_cons_of_mem _ hx)]
  have hany : batch.any (IndexOp.writes s.vault.index) = false := by
    simpa using h
  rw [applyBatch, hfold, hany]
  rfl

omit [DecidableEq V] in
theorem applyBatch_writes (s : Server f δ ρ) (batch : List IndexOp) :
    s.writes ≤ (applyBatch s batch).writes ∧
      ((∃ op ∈ batch, op.writes s.vault.index = true) →
        s.writes < (applyBatch s batch).writes) := by
  unfold applyBatch
  dsimp only
  split_ifs with hany
  · exact ⟨by omega, fun _ => by omega⟩
  · exact ⟨le_rfl, fun h => (hany (by simpa using h)).elim⟩

end Run

section Databases

variable [DecidableEq δ] [DecidableEq ρ] {f : Formats V} {o : Services f δ ρ}
  {targets : List ((Str × Str) × Str)}

omit [DecidableEq δ] in
theorem reindex_of_same {s : Server f δ ρ} (h : o.reindexVault s.vault = s.searchRows) :
    reindex o s = s := by
  unfold reindex
  dsimp only
  rw [if_pos h, h]

omit [DecidableEq δ] in
theorem reindex_writes (s : Server f δ ρ) :
    s.writes ≤ (reindex o s).writes ∧
      (o.reindexVault s.vault ≠ s.searchRows → s.writes < (reindex o s).writes) := by
  unfold reindex
  dsimp only
  split_ifs with hrows
  · exact ⟨le_rfl, fun h => (h hrows).elim⟩
  · exact ⟨by omega, fun _ => by omega⟩

omit [DecidableEq ρ] in
/-- The loop is refused at the first selected database that cannot be rolled back. It has
changed nothing by then only if those before it needed no change. -/
theorem rollbackDbs_spec (s : Server f δ ρ) (selected : List (Str × Str)) :
    ((rollbackDbs o targets s selected).1 = .ok () ∨
        (rollbackDbs o targets s selected).1 = .error .badRequest) ∧
      ((rollbackDbs o targets s selected).1 = .ok () ↔
        ∀ db ∈ selected, db ∈ targets.map Prod.fst) ∧
      s.writes ≤ (rollbackDbs o targets s selected).2.writes ∧
      (DatabasesDone o s targets selected → (rollbackDbs o targets s selected).2 = s) ∧
      (¬DatabasesDone o s targets selected →
        s.writes < (rollbackDbs o targets s selected).2.writes) := by
  induction selected generalizing s with
  | nil => exact ⟨.inl rfl, by simp [rollbackDbs], le_rfl, fun _ => rfl, fun h => (h trivial).elim⟩
  | cons db rest ih =>
      unfold rollbackDbs DatabasesDone
      cases hfind : targets.find? fun target => target.1 = db with
      | none =>
          have hnot : db ∉ targets.map Prod.fst := by
            rintro hmem
            obtain ⟨target, htarget, rfl⟩ := List.mem_map.mp hmem
            have := List.find?_eq_none.mp hfind target htarget
            simp at this
          refine ⟨.inr rfl, iff_of_false nofun fun h => hnot (h db List.mem_cons_self), le_rfl,
            fun _ => rfl, fun h => (h trivial).elim⟩
      | some target =>
          obtain ⟨db', sql⟩ := target
          have hmem : db ∈ targets.map Prod.fst := by
            have hdb : db' = db := by simpa using List.find?_some hfind
            exact List.mem_map.mpr ⟨_, List.mem_of_find?_eq_some hfind, hdb⟩
          dsimp only
          set next := o.rollbackToDump (s.databases db) sql with hnext
          set s₁ : Server f δ ρ :=
            { s with
              databases := Function.update s.databases db next
              writes := if next = s.databases db then s.writes else s.writes + 1 } with hs₁
          obtain ⟨hanswer, hok, hle, hdone, hnot⟩ := ih s₁
          refine ⟨hanswer, hok.trans (by rw [List.forall_mem_cons, and_iff_right hmem]), ?_, ?_, ?_⟩
          · refine le_trans ?_ hle
            rw [hs₁]
            dsimp only
            split_ifs <;> omega
          · rintro ⟨hsame, hrest⟩
            have hs : s₁ = s := by
              rw [hs₁, hsame, Function.update_eq_self, if_pos rfl]
            rw [hs] at hdone ⊢
            exact hdone hrest
          · intro h
            by_cases hsame : next = s.databases db
            · have hs : s₁ = s := by
                rw [hs₁, hsame, Function.update_eq_self, if_pos rfl]
              rw [hs] at hnot ⊢
              exact hnot fun hrest => h ⟨hsame, hrest⟩
            · refine lt_of_lt_of_le ?_ hle
              rw [hs₁]
              dsimp only
              rw [if_neg hsame]
              omega

end Databases

/-! ## What is planned -/

section Planned

variable [DecidableEq V] {f : Formats V} {s : Vault f} {tree : List (Str × Bytes)}

omit [DecidableEq V] in
theorem hashesFit_attachment (path : Str) (bytes : Bytes) :
    HashesFit (f := f) (.setBinary path (attachment s bytes).1 (attachment s bytes).2.1
      (attachment s bytes).2.2.1) := by
  intro path' hash size blobBytes heq
  unfold attachment at heq
  cases hshim : parseAttachmentShim bytes with
  | some shim =>
      rw [hshim] at heq
      cases heq
  | none =>
      rw [hshim] at heq
      dsimp only at heq
      by_cases hblob : s.blobs (f.sha256Hex bytes) = true
      · rw [if_pos hblob] at heq
        cases heq
      · rw [if_neg hblob] at heq
        cases heq
        rfl

omit [DecidableEq V] in
theorem hashesFit_of_ne {op : PlannedOp V} (h : ∀ path hash size bytes,
    op ≠ .setBinary path hash size (some bytes)) : HashesFit (f := f) op :=
  fun path hash size bytes heq => (h path hash size bytes heq).elim

theorem hashesFit_planEntry {path : Str} {bytes : Bytes} {op : PlannedOp V}
    (h : planEntry s path bytes = some (some op)) : HashesFit (f := f) op := by
  unfold planEntry at h
  split at h
  · have hop := Option.some_inj.mp h
    unfold planMarkdown at hop
    split at hop
    · split_ifs at hop
      cases hop
      exact hashesFit_of_ne (by rintro _ _ _ _ ⟨⟩)
    · cases hop
      exact hashesFit_of_ne (by rintro _ _ _ _ ⟨⟩)
  · unfold planStructured at h
    split at h
    · cases h
    · split at h
      · split_ifs at h <;> cases h
        exact hashesFit_of_ne (by rintro _ _ _ _ ⟨⟩)
      · cases h
        exact hashesFit_of_ne (by rintro _ _ _ _ ⟨⟩)
  · have hop := Option.some_inj.mp h
    rw [planBinary_eq] at hop
    split_ifs at hop
    · cases hop
      exact hashesFit_of_ne (by rintro _ _ _ _ ⟨⟩)
    · cases hop
      exact hashesFit_attachment path bytes

theorem hashesFit_planRollback {planned : List (PlannedOp V)}
    (h : planRollback s tree = some planned) : ∀ op ∈ planned, HashesFit (f := f) op := by
  intro op hop
  rcases (mem_planned h).mp hop with ⟨entry, -, hentry, -⟩ | hop
  · exact hashesFit_planEntry hentry
  · refine hashesFit_of_ne fun path hash size bytes heq => ?_
    rw [heq] at hop
    simp [planRemovals] at hop

omit [DecidableEq V] in
theorem hashesFit_planCreate {path targetPath : Str} {bytes : Bytes} {plan : FilePlan V}
    (h : planCreate s path targetPath bytes = .ok plan) :
    ∀ op ∈ plan.ops, HashesFit (f := f) op := by
  unfold planCreate at h
  dsimp only at h
  split_ifs at h
  · cases h
    exact List.forall_mem_singleton.mpr (hashesFit_of_ne nofun)
  · split at h <;> cases h
    exact List.forall_mem_singleton.mpr (hashesFit_of_ne nofun)
  · cases h
    exact nofun
  all_goals
    cases h
    exact List.forall_mem_singleton.mpr (hashesFit_attachment path bytes)

theorem hashesFit_planSingle {listing : Str → Bytes} {path targetPath : Str} {plan : FilePlan V}
    (h : planSingleFileRollback listing s tree path targetPath = .ok plan) :
    ∀ op ∈ plan.ops, HashesFit (f := f) op := by
  have hone : ∀ {op : PlannedOp V}, (∀ path hash size bytes,
      op ≠ .setBinary path hash size (some bytes)) → ∀ x ∈ [op], HashesFit (f := f) x :=
    fun hne => List.forall_mem_singleton.mpr (hashesFit_of_ne hne)
  unfold planSingleFileRollback at h
  split at h
  · next bytes _ =>
    split at h
    · split_ifs at h <;> cases h
      · exact List.forall_mem_nil _
      · exact hone (by rintro _ _ _ _ ⟨⟩)
    · split at h
      · split_ifs at h
        split at h
        · cases h
        · split_ifs at h <;> cases h
          · exact List.forall_mem_nil _
          · exact hone (by rintro _ _ _ _ ⟨⟩)
      · split at h
        · dsimp only at h
          split_ifs at h <;> cases h
          · exact List.forall_mem_nil _
          · exact List.forall_mem_singleton.mpr (hashesFit_attachment path bytes)
          · exact List.forall_mem_singleton.mpr (hashesFit_attachment path bytes)
          · exact List.forall_mem_nil _
        · exact hashesFit_planCreate h
  · split at h
    · cases h
      exact hone (by rintro _ _ _ _ ⟨⟩)
    · split at h
      · cases h
        exact hone (by rintro _ _ _ _ ⟨⟩)
      · split_ifs at h <;> cases h
        · exact hone (by rintro _ _ _ _ ⟨⟩)
        · exact List.forall_mem_nil _

end Planned

section Answer

variable [DecidableEq V] [DecidableEq δ] [DecidableEq ρ] {f : Formats V} {o : Services f δ ρ}
  {s : Server f δ ρ} {ops : List (PlannedOp V)} {targets : List ((Str × Str) × Str)}

omit [DecidableEq δ] [DecidableEq ρ] in
theorem hashesFit_prepare {r : Request} {planned : List (PlannedOp V)}
    (h : prepare o s r = .ok (planned, targets)) : ∀ op ∈ planned, HashesFit (f := f) op := by
  unfold prepare at h
  split_ifs at h
  split at h
  · cases h
  · next single _ =>
    split_ifs at h
    unfold planRequest at h
    split at h
    · cases h
    · next tree _ =>
      cases single with
      | some paths =>
          obtain ⟨path, targetPath⟩ := paths
          dsimp only at h
          split_ifs at h
          cases hplan : planSingleFileRollback o.listing s.vault tree path targetPath with
          | error e =>
              rw [hplan] at h
              cases h
          | ok plan =>
              rw [hplan] at h
              cases h
              exact hashesFit_planSingle hplan
      | none =>
          dsimp only at h
          split_ifs at h
          split at h
          · cases h
          · next hplan =>
            cases h
            exact hashesFit_planRollback hplan

/-- What comes after the operations, if they succeed. -/
theorem executeRollback_of_hasRoom (hhash : ∀ op ∈ ops, HashesFit (f := f) op)
    (hroom : HasRoom o s ops) (selected : List (Str × Str)) :
    ((executeRollback o s ops targets selected).1 = .ok () ∨
        (executeRollback o s ops targets selected).1 = .error .badRequest) ∧
      ((executeRollback o s ops targets selected).1 = .ok () ↔
        ∀ db ∈ selected, db ∈ targets.map Prod.fst) ∧
      ((executeRollback o s ops targets selected).2 = s ↔
        NothingToDo o s ops ∧ DatabasesDone o s targets selected) := by
  obtain ⟨s₁, hrun, hran, hidle, hbusy⟩ := runOps_of_hasRoom hhash hroom
  unfold executeRollback
  rw [hrun]
  dsimp only
  set batch := ops.flatMap (PlannedOp.indexOps o.uuid) with hbatch
  set s₂ := applyBatch s₁ batch with hs₂
  obtain ⟨hle₂, hlt₂⟩ := applyBatch_writes s₁ batch
  rw [← hs₂] at hle₂ hlt₂
  set s₃ := if ops.isEmpty then s₂ else reindex o s₂ with hs₃
  have hle₃ : s₂.writes ≤ s₃.writes := by
    rw [hs₃]
    split_ifs
    · exact le_rfl
    · exact (reindex_writes s₂).1
  obtain ⟨hanswer, hok, hle₄, hdone, hnot⟩ := @rollbackDbs_spec _ _ _ _ _ o targets s₃
    selected
  refine ⟨hanswer, hok, fun hsame => ?_, fun ⟨hnothing, hdbs⟩ => ?_⟩
  · -- no step counted a write
    rw [hsame] at hle₄ hnot
    have hle₁ := hran.writes
    have hallIdle : ∀ op ∈ ops, op.isIdle o s = true := by
      by_contra h
      push Not at h
      obtain ⟨op, hop, hne⟩ := h
      have := hbusy ⟨op, hop, by simpa using hne⟩
      omega
    have h₁ : s₁ = s := hidle hallIdle
    rw [h₁] at hlt₂ hs₂ hle₂
    have hallBatch : ∀ op ∈ batch, op.writes s.vault.index = false := by
      by_contra h
      push Not at h
      obtain ⟨op, hop, hne⟩ := h
      have := hlt₂ ⟨op, hop, by simpa using hne⟩
      omega
    have h₂ : s₂ = s := hs₂.trans (applyBatch_of_idle hallBatch)
    rw [h₂] at hs₃ hle₃
    have hrows : ops = [] ∨ o.reindexVault s.vault = s.searchRows := by
      by_contra h
      push Not at h
      rw [if_neg (by simpa using h.1)] at hs₃
      have := (reindex_writes s).2 h.2
      rw [← hs₃] at this
      omega
    have h₃ : s₃ = s := by
      rw [hs₃]
      split_ifs with hempty
      · rfl
      · exact reindex_of_same (hrows.resolve_left (by simpa using hempty))
    refine ⟨⟨hallIdle, hallBatch, hrows⟩, ?_⟩
    by_contra h
    rw [h₃] at hnot
    have := hnot h
    omega
  · have h₁ : s₁ = s := hidle hnothing.idle
    have h₂ : s₂ = s := by
      rw [hs₂, h₁]
      exact applyBatch_of_idle hnothing.batch
    have h₃ : s₃ = s := by
      rw [hs₃, h₂]
      split_ifs with hempty
      · rfl
      · exact reindex_of_same (hnothing.rows.resolve_left (by simpa using hempty))
    rw [h₃] at hdone ⊢
    exact hdone hdbs

theorem executeRollback_refused_iff (hhash : ∀ op ∈ ops, HashesFit (f := f) op)
    (selected : List (Str × Str)) :
    (∀ e, (executeRollback o s ops targets selected).1 = .error e → isClientError e = true →
        (executeRollback o s ops targets selected).2 = s) ↔
      InTime o s ops targets selected := by
  by_cases hroom : HasRoom o s ops
  · obtain ⟨hanswer, hok, hsame⟩ := executeRollback_of_hasRoom hhash hroom selected
    have hnotFirst : ¬∃ op, ops.find? (fun op => !op.isIdle o s) = some op ∧ IsRefused o s op := by
      rintro ⟨op, hfind, doc, hdoc, hnew, hfull⟩
      have hmem : doc ∈ newDocuments o s ops := by
        unfold newDocuments
        rw [Finset.mem_sdiff, List.mem_toFinset, List.mem_toFinset, List.mem_filterMap]
        exact ⟨⟨op, List.mem_of_find?_eq_some hfind, hdoc⟩, hnew⟩
      rcases hroom with hempty | hroom
      · rw [hempty] at hmem
        exact Finset.notMem_empty _ hmem
      · have := Finset.card_pos.mpr ⟨doc, hmem⟩
        omega
    rw [InTime, or_iff_right hnotFirst, and_iff_right hroom, ← hok, ← hsame]
    constructor
    · intro h
      rcases hanswer with hfine | herror
      · exact .inl hfine
      · exact .inr (h _ herror rfl)
    · rintro (hfine | hs) e he hclient
      · rw [hfine] at he
        cases he
      · exact hs
  · obtain ⟨s', hrun, -, hiff⟩ := runOps_of_not_hasRoom hhash hroom
    unfold executeRollback
    rw [hrun, InTime, or_iff_left fun h => hroom h.1, ← hiff]
    exact ⟨fun h => h _ rfl rfl, fun h _ _ _ => h⟩

end Answer

/-- A server whose repository has the note with the given bytes and no plugin database. -/
def noteServices (bytes : Bytes) : Services plainFormats Unit Str where
  commit := fun _ => .ok [("a.md".toList, bytes)]
  listing := fun _ => []
  validDocument := fun _ => true
  maxDocuments := 10
  uuid := List.append ['u']
  dump := fun _ => none
  rollbackCheck := fun _ _ => true
  rollbackToDump := fun _ _ => ()
  reindexVault := fun v => v.texts ['g']

def noteServer : Server plainFormats Unit Str where
  vault := oneNote "a.md".toList
  databases := fun _ => ()
  searchRows := ['x']
  writes := 0

/-- The request selects a plugin database. -/
def selectDatabase : Request where
  isAdmin := true
  hash := "HEAD".toList
  path := none
  targetPath := none
  pluginDbs := [("tasks".toList, "main".toList)]

end Realtime.Rollback
