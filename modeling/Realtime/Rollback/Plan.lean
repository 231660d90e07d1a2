import Mathlib.Data.List.Perm.Basic
import Mathlib.Tactic
import Realtime.Lib.Assoc
import Realtime.Lib.Keyed
import Realtime.Lib.RustStr

/-!
# Planning and executing a vault rollback

A rollback compares the vault with the tree of a commit and applies the
difference: the documents are edited one by one, and everything about the index
goes into one batch.

`plan_rollback` takes a path of the tree for what the index now says it is, and
asks the extension only about paths the index does not have.
-/

namespace Realtime.Rollback

open Lib

/-- What stands for code outside: SHA-256 in hexadecimal, the value of a structured
file of a kind (serde, with `canvas_file_to_map` for a canvas), and the value that
is read back from a structured document after a value was set. -/
structure Formats (V : Type) where
  sha256Hex : Bytes → Str
  parse : Str → Bytes → Option V
  settle : V → V
  settle_settle : ∀ v, settle (settle v) = settle v

variable {V : Type}

/-- The value of a document: one that was read back. -/
abbrev Formats.Root (f : Formats V) : Type := { v : V // f.settle v = v }

/-- The entries of the index that decode, and the trash. -/
structure Index where
  files : List (Str × Str)
  /-- Path to guid and kind. -/
  structured : List (Str × Str × Str)
  /-- Path to hash and size. -/
  binaries : List (Str × Str × Nat)
  /-- Path to the guid or hash of what was removed. -/
  trash : List (Str × Str)

/-- The stores of a vault that a rollback reads and writes. -/
structure Vault (f : Formats V) where
  index : Index
  /-- The text of a document, by guid. -/
  texts : Str → Str
  /-- The value of a structured document, by guid. -/
  roots : Str → f.Root
  documents : List Str
  /-- The hashes in the blob store. -/
  blobs : Str → Bool

inductive Kind where
  | markdown
  | canvas
  | base
  | binary
  deriving DecidableEq

/-- The text of a structured kind in the index. -/
def canvasKind : Str := "canvas".toList

def baseKind : Str := "base".toList

/-- `sql_dump_parts(path).is_some()` -/
def isSqlDump (path : Str) : Bool :=
  match Str.stripPrefix ".sql/".toList path with
  | none => false
  | some rest =>
      let plugin := rest.takeWhile (· != '/')
      match rest.dropWhile (· != '/') with
      | [] => false
      | _ :: file =>
          match Str.stripSuffix ".sql".toList file with
          | none => false
          | some name => !plugin.isEmpty && !name.isEmpty && !name.contains '/'

/-- What follows the last dot, or everything. -/
def pathKind (path : Str) : Kind :=
  let ext := Str.lower (path.rtakeWhile (· != '.'))
  if ext = "md".toList then .markdown
  else if ext = canvasKind then .canvas
  else if ext = baseKind then .base
  else .binary

def attachmentShimVersion : Str := "https://realtime.md/attachment-shim/v1".toList

/-- The hash and size of a shim that stands for an attachment. -/
def parseAttachmentShim (bytes : Bytes) : Option (Str × Nat) :=
  match (Str.fromUtf8 bytes).map Str.lines with
  | none | some [] => none
  | some (first :: lines) =>
      if Str.stripPrefix "version ".toList first ≠ some attachmentShimVersion then none
      else
        let fields := lines.foldl (fun (fields : Option Str × Option Nat) line =>
          match Str.stripPrefix "oid sha256:".toList line with
          | some rest => (some (Str.trim rest), fields.2)
          | none =>
              match Str.stripPrefix "size ".toList line with
              | some rest => (fields.1, Str.parseU64 (Str.trim rest))
              | none => fields) (none, none)
        match fields with
        | (some hash, some size) => some (hash, size)
        | _ => none

/-- An operation of the plan; a document that is not there yet has no guid. -/
inductive PlannedOp (V : Type) where
  | setText (path : Str) (guid : Option Str) (content : Str)
  | setStructured (path : Str) (guid : Option Str) (kind : Str) (value : V)
  | setBinary (path hash : Str) (size : Nat) (blobBytes : Option Bytes)
  | removeFile (path : Str)
  | removeStructured (path : Str)
  | removeBinary (path : Str)

def PlannedOp.path : PlannedOp V → Str
  | .setText path _ _ | .setStructured path _ _ _ | .setBinary path _ _ _ | .removeFile path
  | .removeStructured path | .removeBinary path => path

/-- The sentinel size of an attachment that cannot be restored. -/
def sentinel : Nat := 2 ^ 64 - 1

inductive Classified where
  | markdown
  | structured (kind : Str)
  | binary

/-- By the index, else by the extension. -/
def classify (ix : Index) (path : Str) : Classified :=
  if (Assoc.get path ix.files).isSome then .markdown
  else
    match Assoc.get path ix.structured with
    | some (_, kind) => .structured kind
    | none =>
        if (Assoc.get path ix.binaries).isSome then .binary
        else
          match pathKind path with
          | .markdown => .markdown
          | .canvas => .structured canvasKind
          | .base => .structured baseKind
          | .binary => .binary

section Plan

variable [DecidableEq V] {f : Formats V}

/-- The text of the file against that of the document. -/
def planMarkdown (s : Vault f) (path : Str) (bytes : Bytes) : Option (PlannedOp V) :=
  match Assoc.get path s.index.files with
  | some guid =>
      if s.texts guid = Str.fromUtf8Lossy bytes then none
      else some (.setText path (some guid) (Str.fromUtf8Lossy bytes))
  | none => some (.setText path none (Str.fromUtf8Lossy bytes))

/-- The value of the file against that of the document; the outer `none` is a file
that does not parse. -/
def planStructured (s : Vault f) (path kind : Str) (bytes : Bytes) :
    Option (Option (PlannedOp V)) :=
  match f.parse kind bytes with
  | none => none
  | some value =>
      match Assoc.get path s.index.structured with
      | some (guid, _) =>
          if (s.roots guid).1 = value then some none
          else some (some (.setStructured path (some guid) kind value))
      | none => some (some (.setStructured path none kind value))

/-- The attachment a shim stands for, or the file itself, against the entry. -/
def planBinary (s : Vault f) (path : Str) (bytes : Bytes) : Option (PlannedOp V) :=
  match parseAttachmentShim bytes with
  | some (hash, size) =>
      if !s.blobs hash then some (.setBinary path hash sentinel none)
      else if (Assoc.get path s.index.binaries).map Prod.fst = some hash then none
      else some (.setBinary path hash size none)
  | none =>
      if !s.blobs (f.sha256Hex bytes) then
        some (.setBinary path (f.sha256Hex bytes) bytes.length (some bytes))
      else if (Assoc.get path s.index.binaries).map Prod.fst = some (f.sha256Hex bytes) then none
      else some (.setBinary path (f.sha256Hex bytes) bytes.length none)

/-- What an entry of the tree asks for. -/
def planEntry (s : Vault f) (path : Str) (bytes : Bytes) : Option (Option (PlannedOp V)) :=
  match classify s.index path with
  | .markdown => some (planMarkdown s path bytes)
  | .structured kind => planStructured s path kind bytes
  | .binary => some (planBinary s path bytes)

/-- An attachment that was filtered out because of its size. -/
def PlannedOp.isUnrecoverable : PlannedOp V → Bool
  | .setBinary _ _ size _ => size = sentinel
  | _ => false

/-- The entries of the tree that are not dumps of plugin databases. -/
def targets (tree : List (Str × Bytes)) : List (Str × Bytes) :=
  tree.filter fun entry => !isSqlDump entry.1

/-- Every path of the index that is not a target. -/
def planRemovals (ix : Index) (tree : List (Str × Bytes)) : List (PlannedOp V) :=
  let paths := Assoc.keys (targets tree)
  ((Assoc.keys ix.files).filter fun path => path ∉ paths).map .removeFile ++
    ((Assoc.keys ix.structured).filter fun path => path ∉ paths).map .removeStructured ++
    ((Assoc.keys ix.binaries).filter fun path => path ∉ paths).map .removeBinary

def planEntries (s : Vault f) : List (Str × Bytes) → Option (List (PlannedOp V))
  | [] => some []
  | (path, bytes) :: rest =>
      match planEntry s path bytes, planEntries s rest with
      | some op, some ops => some (op.toList ++ ops)
      | _, _ => none

/-- The operations of `plan_rollback`, up to their order; none if a file does not
parse. -/
def planRollback (s : Vault f) (tree : List (Str × Bytes)) : Option (List (PlannedOp V)) :=
  (planEntries s (targets tree)).map fun ops =>
    ops.filter (fun op => !op.isUnrecoverable) ++ planRemovals s.index tree

end Plan

/-! ## Execution -/

/-- A change of the index in the batch at the end. -/
inductive IndexOp where
  | setFile (path guid : Str)
  | removeFile (path : Str)
  | setBinary (path hash : Str) (size : Nat)
  | removeBinary (path : Str)
  | setStructured (path guid kind : Str)
  | removeStructured (path : Str)

/-- One operation of the batch. What goes to the trash is read from the index
`before` the batch. A size that is negative as an `i64` does not decode. -/
def applyIndexOp (before ix : Index) : IndexOp → Index
  | .setFile path guid => { ix with files := Assoc.set path guid ix.files }
  | .removeFile path =>
      { ix with
        files := Assoc.erase path ix.files
        trash := match Assoc.get path before.files with
          | some guid => (path, guid) :: ix.trash
          | none => ix.trash }
  | .setBinary path hash size =>
      { ix with
        binaries := if size < 2 ^ 63 then Assoc.set path (hash, size) ix.binaries
          else Assoc.erase path ix.binaries }
  | .removeBinary path =>
      { ix with
        binaries := Assoc.erase path ix.binaries
        trash := match Assoc.get path before.binaries with
          | some (hash, _) => (path, hash) :: ix.trash
          | none => ix.trash }
  | .setStructured path guid kind =>
      { ix with structured := Assoc.set path (guid, kind) ix.structured }
  | .removeStructured path =>
      { ix with
        structured := Assoc.erase path ix.structured
        trash := match Assoc.get path before.structured with
          | some (guid, _) => (path, guid) :: ix.trash
          | none => ix.trash }

section Execute

variable {f : Formats V} (maxDocuments : Nat) (uuid : Str → Str)

/-- `ensure_vault_document`; none over the limit. -/
def ensureDocument (s : Vault f) (guid : Str) : Option (Vault f) :=
  if guid ∈ s.documents then some s
  else if maxDocuments ≤ s.documents.length then none
  else some { s with documents := guid :: s.documents }

/-- The part of an operation outside the index. A new document is that of the path's
`uuid`. -/
def executeOp (s : Vault f) : PlannedOp V → Option (Vault f)
  | .setText path guid content =>
      (ensureDocument maxDocuments s (guid.getD (uuid path))).map fun s =>
        { s with texts := Function.update s.texts (guid.getD (uuid path)) content }
  | .setStructured path guid _ value =>
      (ensureDocument maxDocuments s (guid.getD (uuid path))).map fun s =>
        { s with
          roots := Function.update s.roots (guid.getD (uuid path))
            ⟨f.settle value, f.settle_settle value⟩ }
  | .setBinary _ hash _ blobBytes =>
      match blobBytes with
      | none => some s
      | some bytes =>
          if f.sha256Hex bytes ≠ hash then none
          else some { s with blobs := Function.update s.blobs hash true }
  | .removeFile _ | .removeStructured _ | .removeBinary _ => some s

/-- The part of an operation for the batch. -/
def PlannedOp.indexOps : PlannedOp V → List IndexOp
  | .setText path none _ => [.setFile path (uuid path)]
  | .setText _ (some _) _ => []
  | .setStructured path none kind _ => [.setStructured path (uuid path) kind]
  | .setStructured _ (some _) _ _ => []
  | .setBinary path hash size _ => [.setBinary path hash size]
  | .removeFile path => [.removeFile path]
  | .removeStructured path => [.removeStructured path]
  | .removeBinary path => [.removeBinary path]

def executeOps (s : Vault f) (ops : List (PlannedOp V)) : Option (Vault f) :=
  (ops.foldlM (executeOp maxDocuments uuid) s).map fun s' =>
    { s' with
      index := (ops.flatMap (PlannedOp.indexOps uuid)).foldl (applyIndexOp s.index) s.index }

/-- The operations are executed in the order in which their planning finished. -/
def ExecuteRollback [DecidableEq V] (s : Vault f) (tree : List (Str × Bytes)) (s' : Vault f) :
    Prop :=
  ∃ planned ops, planRollback s tree = some planned ∧ ops.Perm planned ∧
    executeOps maxDocuments uuid s ops = some s'

end Execute

/-! ## What is planned -/

theorem mem_planRemovals {ix : Index} {tree : List (Str × Bytes)} {op : PlannedOp V} :
    op ∈ planRemovals ix tree ↔
      op.path ∉ Assoc.keys (targets tree) ∧
        ((op = .removeFile op.path ∧ op.path ∈ Assoc.keys ix.files) ∨
          (op = .removeStructured op.path ∧ op.path ∈ Assoc.keys ix.structured) ∨
          (op = .removeBinary op.path ∧ op.path ∈ Assoc.keys ix.binaries)) := by
  simp only [planRemovals, List.mem_append, List.mem_map, List.mem_filter, decide_eq_true_eq]
  constructor
  · rintro ((⟨path, ⟨hin, hout⟩, rfl⟩ | ⟨path, ⟨hin, hout⟩, rfl⟩) | ⟨path, ⟨hin, hout⟩, rfl⟩)
    · exact ⟨hout, .inl ⟨rfl, hin⟩⟩
    · exact ⟨hout, .inr (.inl ⟨rfl, hin⟩)⟩
    · exact ⟨hout, .inr (.inr ⟨rfl, hin⟩)⟩
  · rintro ⟨hout, ⟨hop, hin⟩ | ⟨hop, hin⟩ | ⟨hop, hin⟩⟩
    · exact .inl (.inl ⟨_, ⟨hin, hout⟩, hop.symm⟩)
    · exact .inl (.inr ⟨_, ⟨hin, hout⟩, hop.symm⟩)
    · exact .inr ⟨_, ⟨hin, hout⟩, hop.symm⟩

section Planned

variable [DecidableEq V] {f : Formats V} {s : Vault f} {tree : List (Str × Bytes)}
  {planned : List (PlannedOp V)}

theorem planEntries_spec {entries : List (Str × Bytes)} {ops : List (PlannedOp V)}
    (h : planEntries s entries = some ops) :
    (∀ entry ∈ entries, ∃ op, planEntry s entry.1 entry.2 = some op) ∧
      ∀ op, op ∈ ops ↔ ∃ entry ∈ entries, planEntry s entry.1 entry.2 = some (some op) := by
  induction entries generalizing ops with
  | nil =>
      cases h
      simp
  | cons entry entries ih =>
      obtain ⟨path, bytes⟩ := entry
      rw [planEntries] at h
      split at h
      · next op rest hop hrest =>
        cases h
        obtain ⟨hall, hmem⟩ := ih hrest
        refine ⟨fun entry he => ?_, fun x => ?_⟩
        · rcases List.mem_cons.mp he with rfl | he
          · exact ⟨op, hop⟩
          · exact hall entry he
        · rw [List.mem_append, hmem, Option.mem_toList]
          constructor
          · rintro (rfl | ⟨entry, he, hx⟩)
            · exact ⟨_, List.mem_cons_self, hop⟩
            · exact ⟨entry, List.mem_cons_of_mem _ he, hx⟩
          · rintro ⟨entry, he, hx⟩
            rcases List.mem_cons.mp he with rfl | he
            · rw [hop] at hx
              exact .inl (Option.some.inj hx)
            · exact .inr ⟨entry, he, hx⟩
      · cases h

/-- An operation is for the path of its entry. -/
theorem planEntry_path {path : Str} {bytes : Bytes} {op : PlannedOp V}
    (h : planEntry s path bytes = some (some op)) : op.path = path := by
  unfold planEntry at h
  split at h
  · unfold planMarkdown at h
    split at h
    · split at h <;> cases h
      rfl
    · cases h
      rfl
  · unfold planStructured at h
    split at h
    · cases h
    · split at h
      · split at h <;> cases h
        rfl
      · cases h
        rfl
  · unfold planBinary at h
    split at h
    · split_ifs at h <;> cases h <;> rfl
    · split_ifs at h <;> cases h <;> rfl

theorem mem_planned (h : planRollback s tree = some planned) {op : PlannedOp V} :
    op ∈ planned ↔
      (∃ entry ∈ targets tree, planEntry s entry.1 entry.2 = some (some op) ∧
        op.isUnrecoverable = false) ∨
      op ∈ planRemovals s.index tree := by
  obtain ⟨ops, hops, rfl⟩ := Option.map_eq_some_iff.mp h
  rw [List.mem_append, List.mem_filter, (planEntries_spec hops).2]
  simp only [Bool.not_eq_true']
  constructor
  · rintro (⟨⟨entry, hentry, hop⟩, hrec⟩ | hop)
    · exact .inl ⟨entry, hentry, hop, hrec⟩
    · exact .inr hop
  · rintro (⟨entry, hentry, hop, hrec⟩ | hop)
    · exact .inl ⟨⟨entry, hentry, hop⟩, hrec⟩
    · exact .inr hop

end Planned

end Realtime.Rollback
