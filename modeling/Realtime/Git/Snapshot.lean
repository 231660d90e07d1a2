import Realtime.Git.CanvasFile
import Realtime.Git.Materialize
import Realtime.Rollback.Plan

/-!
# Snapshots

`commit_once` of `server/src/git.rs`: the entries that the index and the documents of a vault
make, and the run that writes them into the vault's repository. An entry that cannot be made,
because its path is unsafe, its document cannot be read or its hash is malformed, is skipped.
-/

namespace Realtime.Git

open Lib Structured.Server
open Rollback (Index canvasKind baseKind attachmentShimVersion)

/-! ## The service -/

/-- The guard of `repo_path` and `blob_fs_path`. -/
def guardVaultId (vaultId : Str) : Bool :=
  !(vaultId.isEmpty || vaultId.contains '/' || vaultId.contains '\\' ||
    decide (dotDot <:+: vaultId))

/-- The id of a vault, which the server has issued. -/
structure VaultId where
  id : Str
  guarded : guardVaultId id = true
  oneLine : '\n' ∉ id

structure Config where
  gitDataDir : PathBuf
  blobDir : PathBuf
  publicBaseUrl : Str
  gitInlineAttachmentMaxBytes : Nat
  oneLine : '\n' ∉ publicBaseUrl
  /-- Neither directory is in the other. -/
  apart : ¬resolve gitDataDir <+: resolve blobDir ∧ ¬resolve blobDir <+: resolve gitDataDir

/-- SHA-256 in hexadecimal, and the two libraries that write and read structured files. -/
structure Codecs where
  sha256Hex : Bytes → Str
  toStringPretty : Json → Str
  toYaml : Json → Option Str
  fromSlice : Bytes → Option Json
  fromYaml : Bytes → Option Json

def repoPath (cfg : Config) (vault : VaultId) : PathBuf := push cfg.gitDataDir vault.id

def validHash (hash : Str) : Bool :=
  hash.length = 64 && hash.all fun c => c.isDigit || ('a' ≤ c && c ≤ 'f')

def blobRoot (cfg : Config) (vault : VaultId) : PathBuf := push cfg.blobDir vault.id

def blobFsPath (cfg : Config) (vault : VaultId) (hash : Str) : Option PathBuf :=
  if validHash hash then some (push (blobRoot cfg vault) hash) else none

/-- The decimal digits. -/
def decimal (n : Nat) : Str := Nat.toDigits 10 n

/-- `trim_end_matches('/')` -/
def trimSlashes (url : Str) : Str := url.rdropWhile (· = '/')

def shimLine (parts : List Str) : Str := parts.flatten ++ ['\n']

def attachmentShim (cfg : Config) (vault : VaultId) (hash : Str) (size : Nat) : Str :=
  let base := trimSlashes cfg.publicBaseUrl
  shimLine ["version ".toList, attachmentShimVersion] ++
    shimLine ["oid sha256:".toList, hash] ++
    shimLine ["size ".toList, decimal size] ++
    shimLine ["vault ".toList, vault.id] ++
    if base.isEmpty then []
    else shimLine ["url ".toList, base, "/api/vaults/".toList, vault.id, "/blobs/".toList, hash]

/-! ## What a snapshot reads -/

/-- A plugin database with its dump. The ids are parts of the id of a document. -/
structure Dump where
  plugin : Str
  name : Str
  sql : Str
  named : plugin ≠ [] ∧ name ≠ [] ∧
    ∀ c ∈ plugin ++ name, c.isAlphanum ∨ c = '-' ∨ c = '_'

/-- A value of a structured document. -/
abbrev Root := { root : Json // Canonical root }

/-- The index and the documents of a vault. A document that cannot be read or decoded is
`none`. -/
structure VaultState where
  index : Index
  configFiles : List (Str × Str × Nat)
  text : Str → Option Str
  root : Str → Option Root
  dumps : List Dump

/-! ## The entries -/

def serializeStructuredForGit (codecs : Codecs) (kind : Str) (value : Json) : Option Str :=
  if kind = canvasKind then some (codecs.toStringPretty (canvasToFileJson value) ++ ['\n'])
  else if kind = baseKind then codecs.toYaml value
  else none

/-- A document of the `files` map. -/
def textEntry (s : VaultState) (entry : Str × Str) : Option (PathBuf × TreeContent) :=
  match safeRelPath entry.1 with
  | none => none
  | some rel => (s.text entry.2).map fun content => (rel, .text content)

/-- The JSON file of a canvas or base. -/
def structuredEntry (codecs : Codecs) (s : VaultState) (entry : Str × Str × Str) :
    Option (PathBuf × TreeContent) :=
  match safeRelPath entry.1 with
  | none => none
  | some rel =>
      match s.root entry.2.1 with
      | none => none
      | some root =>
          (serializeStructuredForGit codecs entry.2.2 root.1).map fun content =>
            (rel, .text content)

/-- An attachment or a settings file. A large one is its shim. -/
def blobEntry (cfg : Config) (vault : VaultId) (entry : Str × Str × Nat) :
    Option (PathBuf × TreeContent) :=
  match safeRelPath entry.1 with
  | none => none
  | some rel =>
      match blobFsPath cfg vault entry.2.1 with
      | none => none
      | some src =>
          let shim := attachmentShim cfg vault entry.2.1 entry.2.2
          if entry.2.2 ≤ cfg.gitInlineAttachmentMaxBytes then
            some (rel, .blobCopy src entry.2.1 shim)
          else some (rel, .text shim)

/-- The directory of the dumps. -/
def sqlDumpDir : Str := ".sql".toList

def Dump.path (dump : Dump) : PathBuf :=
  push (push [sqlDumpDir] dump.plugin) (dump.name ++ ".sql".toList)

def Dump.entry (dump : Dump) : PathBuf × TreeContent := (dump.path, .text dump.sql)

def snapshotEntries (cfg : Config) (codecs : Codecs) (vault : VaultId) (s : VaultState) :
    List (PathBuf × TreeContent) :=
  s.index.files.filterMap (textEntry s) ++
    s.index.structured.filterMap (structuredEntry codecs s) ++
    (s.index.binaries ++ s.configFiles).filterMap (blobEntry cfg vault) ++
    s.dumps.map Dump.entry

/-- The run of a snapshot, up to the commit. -/
def commitOnce (cfg : Config) (codecs : Codecs) (vault : VaultId) (s : VaultState)
    (tree : FileTree Str Bytes) : Disk × Bool :=
  materializeTree codecs.sha256Hex (repoPath cfg vault) ⟨tree, [], []⟩
    (snapshotEntries cfg codecs vault s)

/-! ## The paths of the entries -/

section Paths

variable {cfg : Config} {codecs : Codecs} {vault : VaultId} {s : VaultState} {rel : PathBuf}
  {content : TreeContent}

theorem textEntry_eq_some {entry : Str × Str} (h : textEntry s entry = some (rel, content)) :
    safeRelPath entry.1 = some rel ∧ ∃ text, s.text entry.2 = some text ∧ content = .text text := by
  unfold textEntry at h
  split at h
  · cases h
  · rename_i rel' hrel
    obtain ⟨text, htext, heq⟩ := Option.map_eq_some_iff.mp h
    cases heq
    exact ⟨hrel, text, htext, rfl⟩

theorem structuredEntry_eq_some {entry : Str × Str × Str}
    (h : structuredEntry codecs s entry = some (rel, content)) :
    safeRelPath entry.1 = some rel ∧ ∃ root text, s.root entry.2.1 = some root ∧
      serializeStructuredForGit codecs entry.2.2 root.1 = some text ∧ content = .text text := by
  unfold structuredEntry at h
  split at h
  · cases h
  · rename_i rel' hrel
    split at h
    · cases h
    · rename_i root hroot
      obtain ⟨text, htext, heq⟩ := Option.map_eq_some_iff.mp h
      cases heq
      exact ⟨hrel, root, text, hroot, htext, rfl⟩

theorem blobEntry_eq_some {entry : Str × Str × Nat}
    (h : blobEntry cfg vault entry = some (rel, content)) :
    safeRelPath entry.1 = some rel ∧ validHash entry.2.1 = true ∧
      content = if entry.2.2 ≤ cfg.gitInlineAttachmentMaxBytes then
          .blobCopy (push (blobRoot cfg vault) entry.2.1) entry.2.1
            (attachmentShim cfg vault entry.2.1 entry.2.2)
        else .text (attachmentShim cfg vault entry.2.1 entry.2.2) := by
  unfold blobEntry at h
  split at h
  · cases h
  · rename_i rel' hrel
    split at h
    · cases h
    · rename_i src hsrc
      unfold blobFsPath at hsrc
      split at hsrc
      · rename_i hvalid
        cases hsrc
        dsimp only at h
        refine ⟨?_, hvalid, ?_⟩
        · split at h <;> cases h <;> exact hrel
        · split at h <;> cases h <;> rename_i hsize
          · rw [if_pos hsize]
          · rw [if_neg hsize]
      · cases hsrc

theorem Dump.plain (dump : Dump) {s : Str} (hs : s = dump.plugin ∨ s = dump.name) :
    s ≠ [] ∧ ∀ c ∈ s, c ≠ '/' ∧ c ≠ '.' := by
  obtain ⟨hplugin, hname, hchars⟩ := dump.named
  have hplain (c : Char) (hc : c.isAlphanum ∨ c = '-' ∨ c = '_') : c ≠ '/' ∧ c ≠ '.' := by
    constructor
    · rintro rfl
      revert hc
      decide
    · rintro rfl
      revert hc
      decide
  rcases hs with rfl | rfl
  · exact ⟨hplugin, fun c hc => hplain c (hchars c (List.mem_append_left _ hc))⟩
  · exact ⟨hname, fun c hc => hplain c (hchars c (List.mem_append_right _ hc))⟩

theorem normal_of_plain {s : Str} (hne : s ≠ []) (hdot : ∀ c ∈ s, c ≠ '.') : Normal s := by
  have hhead : ∀ t : Str, s ≠ '.' :: t := by
    rintro t rfl
    exact hdot '.' List.mem_cons_self rfl
  exact ⟨hne, hhead [], hhead ['.']⟩

theorem Dump.path_eq (dump : Dump) :
    dump.path = [sqlDumpDir, dump.plugin, dump.name ++ ".sql".toList] ∧ Safe dump.path := by
  obtain ⟨hplugin, hpluginChars⟩ := dump.plain (.inl rfl)
  obtain ⟨hname, hnameChars⟩ := dump.plain (.inr rfl)
  have hnormal : Normal dump.plugin := normal_of_plain hplugin fun c hc => (hpluginChars c hc).2
  have hfile : Normal (dump.name ++ ".sql".toList) := by
    obtain ⟨c, rest, hcons⟩ := List.exists_cons_of_ne_nil hname
    have hc := (hnameChars c (hcons ▸ List.mem_cons_self)).2
    rw [hcons]
    refine ⟨nofun, ?_, ?_⟩
    · intro h
      exact hc (List.cons.inj h).1
    · intro h
      exact hc (List.cons.inj h).1
  have hpath : dump.path = [sqlDumpDir, dump.plugin, dump.name ++ ".sql".toList] := by
    rw [Dump.path, push_of_normal hnormal fun h => (hpluginChars _ h).1 rfl, push_of_normal hfile]
    · rfl
    · rw [List.mem_append]
      rintro (h | h)
      · exact (hnameChars _ h).1 rfl
      · revert h
        decide
  refine ⟨hpath, hpath ▸ nofun, ?_⟩
  rw [hpath]
  have hdir : Normal sqlDumpDir := by decide
  rw [List.forall_mem_cons, List.forall_mem_cons, List.forall_mem_singleton]
  exact ⟨hdir, hnormal, hfile⟩

/-- What a snapshot writes: documents, attachments and settings files, and dumps. -/
theorem mem_snapshotEntries {entry : PathBuf × TreeContent} :
    entry ∈ snapshotEntries cfg codecs vault s ↔
      (∃ e ∈ s.index.files, textEntry s e = some entry) ∨
      (∃ e ∈ s.index.structured, structuredEntry codecs s e = some entry) ∨
      (∃ e ∈ s.index.binaries ++ s.configFiles, blobEntry cfg vault e = some entry) ∨
      ∃ dump ∈ s.dumps, dump.entry = entry := by
  simp only [snapshotEntries, List.mem_append, List.mem_filterMap, List.mem_map, or_assoc]

theorem safe_of_mem (h : rel ∈ Assoc.keys (snapshotEntries cfg codecs vault s)) : Safe rel := by
  obtain ⟨⟨rel, content⟩, hentry, rfl⟩ := List.mem_map.mp h
  rcases mem_snapshotEntries.mp hentry with
    ⟨e, -, he⟩ | ⟨e, -, he⟩ | ⟨e, -, he⟩ | ⟨dump, -, he⟩
  · exact (safeRelPath_eq_some (textEntry_eq_some he).1).1
  · exact (safeRelPath_eq_some (structuredEntry_eq_some he).1).1
  · exact (safeRelPath_eq_some (blobEntry_eq_some he).1).1
  · cases he
    exact dump.path_eq.2

/-- Every blob that is copied is one of the vault. -/
theorem blobCopy_of_mem {src : PathBuf} {hash shim : Str}
    (h : (rel, .blobCopy src hash shim) ∈ snapshotEntries cfg codecs vault s) :
    src = push (blobRoot cfg vault) hash ∧ validHash hash = true := by
  rcases mem_snapshotEntries.mp h with ⟨e, -, he⟩ | ⟨e, -, he⟩ | ⟨e, -, he⟩ | ⟨dump, -, he⟩
  · obtain ⟨-, text, -, hcontent⟩ := textEntry_eq_some he
    cases hcontent
  · obtain ⟨-, root, text, -, -, hcontent⟩ := structuredEntry_eq_some he
    cases hcontent
  · obtain ⟨-, hvalid, hcontent⟩ := blobEntry_eq_some he
    split at hcontent
    · cases hcontent
      exact ⟨rfl, hvalid⟩
    · cases hcontent
  · cases he

/-- A hash is the name of a file. -/
theorem normal_of_validHash {hash : Str} (h : validHash hash = true) :
    Normal hash ∧ '/' ∉ hash := by
  rw [validHash, Bool.and_eq_true, decide_eq_true_eq, List.all_eq_true] at h
  obtain ⟨hlen, hchars⟩ := h
  refine ⟨normal_of_plain ?_ ?_, ?_⟩
  · rintro rfl
    cases hlen
  · rintro c hc rfl
    exact absurd (hchars '.' hc) (by decide)
  · intro hc
    exact absurd (hchars '/' hc) (by decide)

theorem resolve_blob {hash : Str} (h : validHash hash = true) :
    resolve (push (blobRoot cfg vault) hash) = resolve (blobRoot cfg vault) ++ [hash] := by
  obtain ⟨hnormal, hslash⟩ := normal_of_validHash h
  rw [push_of_normal hnormal hslash, resolve_append]
  intro comp hcomp
  rwa [List.mem_singleton.mp hcomp]

theorem prefix_push {p : PathBuf} {name : Str} (hslash : '/' ∉ name) (hup : name ≠ dotDot)
    (hne : name ≠ []) : resolve p <+: resolve (push p name) := by
  rw [push, List.splitOn_eq_singleton hslash, join, if_neg, resolve, resolve, List.foldl_append,
    List.foldl_cons, List.foldl_nil, enter]
  · by_cases hstay : name = [] ∨ name = dot
    · rw [if_pos hstay]
    · rw [if_neg hstay, if_neg hup]
      exact List.prefix_append _ _
  · intro h
    exact hne (Option.some.inj h)

theorem VaultId.prefix_push (vault : VaultId) (p : PathBuf) :
    resolve p <+: resolve (push p vault.id) := by
  have hguard := vault.guarded
  simp only [guardVaultId, Bool.not_eq_true', Bool.or_eq_false_iff,
    decide_eq_false_iff_not] at hguard
  obtain ⟨⟨⟨hempty, hslash⟩, -⟩, hup⟩ := hguard
  refine Git.prefix_push ?_ ?_ ?_
  · simpa using hslash
  · rintro heq
    exact hup (heq ▸ List.infix_rfl)
  · simpa using hempty

/-- The blobs are not in the repository. -/
theorem not_prefix_blob {hash : Str} (h : validHash hash = true) :
    ¬resolve (repoPath cfg vault) <+: resolve (push (blobRoot cfg vault) hash) := by
  intro hpre
  rw [resolve_blob h] at hpre
  have hrepo := (vault.prefix_push cfg.gitDataDir).trans hpre
  have hblob := (vault.prefix_push cfg.blobDir).trans (List.prefix_append _ [hash])
  rcases List.prefix_or_prefix_of_prefix hrepo hblob with h | h
  · exact cfg.apart.1 h
  · exact cfg.apart.2 h

end Paths

end Realtime.Git
