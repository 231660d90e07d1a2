import Realtime.Git.Confined

/-!
# Snapshots that record the vault

A snapshot writes over what earlier ones left, and prunes last. It records the vault exactly
where every entry can be made and nothing that is left stands in the way of one.
-/

namespace Realtime.Git

open Lib Structured.Server

def relOf (path : Str) : PathBuf := path.splitOn '/'

def VaultState.indexedPaths (s : VaultState) : List Str :=
  Assoc.keys s.index.files ++ Assoc.keys s.index.structured ++
    Assoc.keys (s.index.binaries ++ s.configFiles)

/-- The paths that the working tree is to have. -/
def VaultState.recordedPaths (s : VaultState) : List PathBuf :=
  s.indexedPaths.map relOf ++ s.dumps.map Dump.path

/-- Distinct safe paths outside `.git` and `.sql`, none a directory of another, and one dump
for each database. -/
structure VaultState.WellFormed (s : VaultState) : Prop where
  safe : ∀ path ∈ s.indexedPaths, safeRelPath path = some (relOf path)
  notGit : ∀ path ∈ s.indexedPaths, (relOf path).head? ≠ some gitDir
  notSql : ∀ path ∈ s.indexedPaths, (relOf path).head? ≠ some sqlDumpDir
  apart : s.indexedPaths.Pairwise fun p q => ¬relOf p <+: relOf q ∧ ¬relOf q <+: relOf p
  dumps : (s.dumps.map fun dump => (dump.plugin, dump.name)).Nodup

section Runs

variable (cfg : Config) (codecs : Codecs) (vault : VaultId)

/-- What may be found for an attachment: its bytes, or its shim if it is large or its blob is
missing. -/
def AttachmentBytes (tree : FileTree Str Bytes) (hash : Str) (size : Nat) (bytes : Bytes) : Prop :=
  if size ≤ cfg.gitInlineAttachmentMaxBytes then
    codecs.sha256Hex bytes = hash ∨
      tree.read (resolve (blobRoot cfg vault) ++ [hash]) = some bytes ∨
      (tree.read (resolve (blobRoot cfg vault) ++ [hash]) = none ∧
        bytes = Str.toUtf8 (attachmentShim cfg vault hash size))
  else bytes = Str.toUtf8 (attachmentShim cfg vault hash size)

/-- The run over `tree` succeeded. The files of the working tree are the indexed paths and the
dumps, each with its content, and no indexed path was removed. -/
structure Recorded (tree : FileTree Str Bytes) (s : VaultState) : Prop where
  done : (commitOnce cfg codecs vault s tree).2 = true
  files : ∀ rel : PathBuf, rel.head? ≠ some gitDir →
    ((commitOnce cfg codecs vault s tree).1.tree.isFile (resolve (repoPath cfg vault) ++ rel) =
      true ↔ rel ∈ s.recordedPaths)
  texts : ∀ e ∈ s.index.files, ∀ text, s.text e.2 = some text →
    (commitOnce cfg codecs vault s tree).1.tree.read
      (resolve (repoPath cfg vault) ++ relOf e.1) = some (Str.toUtf8 text)
  structured : ∀ e ∈ s.index.structured, ∀ root, s.root e.2.1 = some root →
    ∀ text, serializeStructuredForGit codecs e.2.2 root.1 = some text →
      (commitOnce cfg codecs vault s tree).1.tree.read
        (resolve (repoPath cfg vault) ++ relOf e.1) = some (Str.toUtf8 text)
  attachments : ∀ e ∈ s.index.binaries ++ s.configFiles, validHash e.2.1 = true →
    ∃ bytes, (commitOnce cfg codecs vault s tree).1.tree.read
        (resolve (repoPath cfg vault) ++ relOf e.1) = some bytes ∧
      AttachmentBytes cfg codecs vault tree e.2.1 e.2.2 bytes
  dumps : ∀ dump ∈ s.dumps, (commitOnce cfg codecs vault s tree).1.tree.read
    (resolve (repoPath cfg vault) ++ dump.path) = some (Str.toUtf8 dump.sql)
  kept : ∀ path ∈ s.indexedPaths,
    tree.isFile (resolve (repoPath cfg vault) ++ relOf path) = true →
      (commitOnce cfg codecs vault s tree).1.tree.isFile
        (resolve (repoPath cfg vault) ++ relOf path) = true

/-- Every entry can be made, and its place in the working tree is free. -/
structure Clear (tree : FileTree Str Bytes) (s : VaultState) : Prop where
  texts : ∀ e ∈ s.index.files, (s.text e.2).isSome
  structured : ∀ e ∈ s.index.structured, ∃ root, s.root e.2.1 = some root ∧
    (serializeStructuredForGit codecs e.2.2 root.1).isSome
  hashes : ∀ e ∈ s.index.binaries ++ s.configFiles, validHash e.2.1 = true
  free : ∀ rel ∈ s.recordedPaths, tree.Free (resolve (repoPath cfg vault) ++ rel)

/-- The snapshots since the repository was empty, each with the disk before it. In between
anything but the working tree may change. -/
inductive Snapshots : List (FileTree Str Bytes × VaultState) → FileTree Str Bytes → Prop
  | empty {tree} : IsRepo tree (repoPath cfg vault) →
      (∀ rel : PathBuf, rel ≠ [] → rel.head? ≠ some gitDir →
        tree.get (resolve (repoPath cfg vault) ++ rel) = none) → Snapshots [] tree
  | outside {runs tree tree'} : Snapshots runs tree → IsRepo tree' (repoPath cfg vault) →
      (∀ rel : PathBuf, rel ≠ [] → rel.head? ≠ some gitDir →
        tree'.get (resolve (repoPath cfg vault) ++ rel) =
          tree.get (resolve (repoPath cfg vault) ++ rel)) → Snapshots runs tree'
  | run {runs tree s} : Snapshots runs tree → s.WellFormed →
      Snapshots (runs ++ [(tree, s)]) (commitOnce cfg codecs vault s tree).1.tree

end Runs

/-! ## The entries of the index -/

section Members

variable {cfg : Config} {codecs : Codecs} {vault : VaultId} {s : VaultState}

/-- Every path of the index with its content, if it can be made. -/
def members (cfg : Config) (codecs : Codecs) (vault : VaultId) (s : VaultState) :
    List (Str × Option TreeContent) :=
  (s.index.files.map fun e => (e.1, (s.text e.2).map .text)) ++
    (s.index.structured.map fun e => (e.1, (s.root e.2.1).bind fun root =>
      (serializeStructuredForGit codecs e.2.2 root.1).map .text)) ++
    (s.index.binaries ++ s.configFiles).map fun e => (e.1,
      (blobFsPath cfg vault e.2.1).map fun src =>
        if e.2.2 ≤ cfg.gitInlineAttachmentMaxBytes then
          .blobCopy src e.2.1 (attachmentShim cfg vault e.2.1 e.2.2)
        else .text (attachmentShim cfg vault e.2.1 e.2.2))

def entryOf (member : Str × Option TreeContent) : Option (PathBuf × TreeContent) :=
  (safeRelPath member.1).bind fun rel => member.2.map fun content => (rel, content)

theorem keys_members (cfg : Config) (codecs : Codecs) (vault : VaultId) (s : VaultState) :
    Assoc.keys (members cfg codecs vault s) = s.indexedPaths := by
  simp [members, VaultState.indexedPaths, Assoc.keys, Function.comp_def]

theorem textEntry_eq (e : Str × Str) :
    textEntry s e = entryOf (e.1, (s.text e.2).map .text) := by
  unfold textEntry entryOf
  cases safeRelPath e.1 with
  | none => rfl
  | some rel => exact (Option.map_map _ _ _).symm

theorem structuredEntry_eq (e : Str × Str × Str) :
    structuredEntry codecs s e = entryOf (e.1, (s.root e.2.1).bind fun root =>
      (serializeStructuredForGit codecs e.2.2 root.1).map .text) := by
  unfold structuredEntry entryOf
  cases safeRelPath e.1 with
  | none => rfl
  | some rel =>
      cases s.root e.2.1 with
      | none => rfl
      | some root => exact (Option.map_map _ _ _).symm

theorem blobEntry_eq (e : Str × Str × Nat) :
    blobEntry cfg vault e = entryOf (e.1, (blobFsPath cfg vault e.2.1).map fun src =>
      if e.2.2 ≤ cfg.gitInlineAttachmentMaxBytes then
        .blobCopy src e.2.1 (attachmentShim cfg vault e.2.1 e.2.2)
      else .text (attachmentShim cfg vault e.2.1 e.2.2)) := by
  unfold blobEntry entryOf
  cases safeRelPath e.1 with
  | none => rfl
  | some rel =>
      cases blobFsPath cfg vault e.2.1 with
      | none => rfl
      | some src =>
          dsimp only [Option.bind_some, Option.map_some]
          split <;> rfl

theorem snapshotEntries_eq :
    snapshotEntries cfg codecs vault s =
      (members cfg codecs vault s).filterMap entryOf ++ s.dumps.map Dump.entry := by
  simp only [snapshotEntries, members, List.filterMap_append, List.filterMap_map]
  rw [show textEntry s = _ from funext textEntry_eq,
    show structuredEntry codecs s = _ from funext structuredEntry_eq,
    show blobEntry cfg vault = _ from funext blobEntry_eq]
  rfl

theorem entryOf_eq_some {m : Str × Option TreeContent} {entry : PathBuf × TreeContent}
    (h : entryOf m = some entry) : entry.1 = relOf m.1 ∧ m.2 = some entry.2 := by
  obtain ⟨rel, hrel, hentry⟩ := Option.bind_eq_some_iff.mp h
  obtain ⟨content, hcontent, rfl⟩ := Option.map_eq_some_iff.mp hentry
  exact ⟨(safeRelPath_eq_some hrel).2, hcontent⟩

theorem relOf_injective : Function.Injective relOf := by
  intro p q h
  calc p = ['/'].intercalate (relOf p) := (List.intercalate_splitOn '/').symm
    _ = ['/'].intercalate (relOf q) := by rw [h]
    _ = q := List.intercalate_splitOn '/'

theorem relOf_ne_nil (path : Str) : relOf path ≠ [] := List.splitOn_ne_nil _ _

theorem head_dump (dump : Dump) : dump.path.head? = some sqlDumpDir := by
  rw [dump.path_eq.1]
  rfl

theorem keys_snapshotEntries_subset {rel : PathBuf}
    (h : rel ∈ Assoc.keys (snapshotEntries cfg codecs vault s)) : rel ∈ s.recordedPaths := by
  obtain ⟨entry, hentry, rfl⟩ := List.mem_map.mp h
  rw [snapshotEntries_eq, List.mem_append, List.mem_filterMap] at hentry
  rw [VaultState.recordedPaths, List.mem_append]
  rcases hentry with ⟨m, hm, hentry⟩ | hdump
  · refine .inl (List.mem_map.mpr ⟨m.1, ?_, (entryOf_eq_some hentry).1.symm⟩)
    rw [← keys_members cfg codecs vault]
    exact List.mem_map_of_mem hm
  · obtain ⟨dump, hin, rfl⟩ := List.mem_map.mp hdump
    exact .inr (List.mem_map.mpr ⟨dump, hin, rfl⟩)

variable (hs : s.WellFormed)

include hs

theorem mem_snapshotEntries_of_member {path : Str} {content : TreeContent}
    (h : (path, some content) ∈ members cfg codecs vault s) :
    (relOf path, content) ∈ snapshotEntries cfg codecs vault s := by
  rw [snapshotEntries_eq, List.mem_append, List.mem_filterMap]
  refine .inl ⟨_, h, ?_⟩
  have hpath : path ∈ s.indexedPaths := by
    rw [← keys_members cfg codecs vault]
    exact List.mem_map_of_mem h
  rw [entryOf, hs.safe path hpath]
  rfl

/-- Every path is recorded exactly where every entry can be made. -/
theorem recorded_subset_iff :
    (∀ rel ∈ s.recordedPaths, rel ∈ Assoc.keys (snapshotEntries cfg codecs vault s)) ↔
      ∀ m ∈ members cfg codecs vault s, m.2.isSome := by
  have hkeys := keys_members cfg codecs vault s
  constructor
  · intro h m hm
    have hpath : m.1 ∈ s.indexedPaths := hkeys ▸ List.mem_map_of_mem hm
    obtain ⟨entry, hentry, hrel⟩ := List.mem_map.mp
      (h (relOf m.1) (List.mem_append_left _ (List.mem_map_of_mem hpath)))
    rw [snapshotEntries_eq, List.mem_append, List.mem_filterMap] at hentry
    rcases hentry with ⟨m', hm', hentry⟩ | hdump
    · obtain ⟨hrel', hcontent⟩ := entryOf_eq_some hentry
      have hsame : m'.1 = m.1 := relOf_injective (hrel'.symm.trans hrel)
      have hwf : Assoc.Wf (members cfg codecs vault s) := by
        rw [Assoc.Wf, hkeys]
        refine hs.apart.imp fun hapart heq => hapart.1 ?_
        rw [heq]
      have hget := Assoc.get_of_mem hwf hm
      rw [← hsame, Assoc.get_of_mem hwf hm', Option.some.injEq] at hget
      rw [← hget, hcontent]
      rfl
    · obtain ⟨dump, -, rfl⟩ := List.mem_map.mp hdump
      refine absurd ?_ (hs.notSql m.1 hpath)
      rw [← hrel]
      exact head_dump dump
  · intro h rel hrel
    rcases List.mem_append.mp hrel with hrel | hrel
    · obtain ⟨path, hpath, rfl⟩ := List.mem_map.mp hrel
      obtain ⟨m, hm, rfl⟩ := List.mem_map.mp (hkeys ▸ hpath)
      obtain ⟨content, hcontent⟩ := Option.isSome_iff_exists.mp (h m hm)
      exact List.mem_map_of_mem
        (mem_snapshotEntries_of_member hs (show (m.1, some content) ∈ _ from hcontent ▸ hm))
    · obtain ⟨dump, hdump, rfl⟩ := List.mem_map.mp hrel
      rw [snapshotEntries_eq, Assoc.keys_append]
      refine List.mem_append_right _ (List.mem_map.mpr ⟨dump.entry, ?_, rfl⟩)
      exact List.mem_map_of_mem hdump

theorem apart_keys :
    (Assoc.keys (snapshotEntries cfg codecs vault s)).Pairwise
      fun p q => ¬p <+: q ∧ ¬q <+: p := by
  have hkeys := keys_members cfg codecs vault s
  have hdump {dump : Dump} {rel : PathBuf} (hne : rel ≠ []) (hsql : rel.head? ≠ some sqlDumpDir) :
      ¬rel <+: dump.path ∧ ¬dump.path <+: rel := by
    have hhead : ∀ p : PathBuf, p ≠ [] → p <+: dump.path ∨ dump.path <+: p →
        p.head? = some sqlDumpDir := by
      rintro p hp hpre
      rw [← head_dump dump]
      rcases hpre with ⟨rest, hrest⟩ | ⟨rest, hrest⟩
      · rw [← hrest, List.head?_append_of_ne_nil _ hp]
      · rw [← hrest, List.head?_append_of_ne_nil _ dump.path_eq.2.ne_nil]
    exact ⟨fun h => hsql (hhead rel hne (.inl h)), fun h => hsql (hhead rel hne (.inr h))⟩
  rw [snapshotEntries_eq, Assoc.keys_append, List.pairwise_append]
  refine ⟨?_, ?_, ?_⟩
  · have hapart := hs.apart
    rw [← hkeys, Assoc.keys, List.pairwise_map] at hapart
    rw [Assoc.keys, List.pairwise_map, List.pairwise_filterMap]
    refine hapart.imp fun hm entry hentry entry' hentry' => ?_
    rw [(entryOf_eq_some hentry).1, (entryOf_eq_some hentry').1]
    exact hm
  · rw [Assoc.keys, List.pairwise_map, List.pairwise_map]
    refine (List.pairwise_map.mp hs.dumps).imp fun {dump dump'} hne => ?_
    -- paths of one length
    have hpath (hpre : dump.path <+: dump'.path ∨ dump'.path <+: dump.path) : False := by
      have heq : dump.path = dump'.path := by
        have hlen : dump.path.length = dump'.path.length := by
          rw [dump.path_eq.1, dump'.path_eq.1]
          rfl
        rcases hpre with hpre | hpre
        · exact hpre.eq_of_length hlen
        · exact (hpre.eq_of_length hlen.symm).symm
      rw [dump.path_eq.1, dump'.path_eq.1] at heq
      simp only [List.cons.injEq, true_and, and_true, List.append_cancel_right_eq] at heq
      exact hne (Prod.ext heq.1 heq.2)
    exact ⟨fun h => hpath (.inl h), fun h => hpath (.inr h)⟩
  · intro rel hrel rel' hrel'
    obtain ⟨entry, hentry, rfl⟩ := List.mem_map.mp hrel
    obtain ⟨m, hm, hentry⟩ := List.mem_filterMap.mp hentry
    obtain ⟨entry', hdumps, rfl⟩ := List.mem_map.mp hrel'
    obtain ⟨dump, -, rfl⟩ := List.mem_map.mp hdumps
    have hpath : m.1 ∈ s.indexedPaths := hkeys ▸ List.mem_map_of_mem hm
    rw [(entryOf_eq_some hentry).1]
    exact hdump (relOf_ne_nil _) (hs.notSql m.1 hpath)

end Members

/-! ## Which runs record the vault -/

section Recorded

variable {cfg : Config} {codecs : Codecs} {vault : VaultId} {s : VaultState}
  {tree : FileTree Str Bytes}

theorem members_isSome_iff :
    (∀ m ∈ members cfg codecs vault s, m.2.isSome) ↔
      (∀ e ∈ s.index.files, (s.text e.2).isSome) ∧
      (∀ e ∈ s.index.structured, ∃ root, s.root e.2.1 = some root ∧
        (serializeStructuredForGit codecs e.2.2 root.1).isSome) ∧
      ∀ e ∈ s.index.binaries ++ s.configFiles, validHash e.2.1 = true := by
  have hhash (hash : Str) : (blobFsPath cfg vault hash).isSome ↔ validHash hash = true := by
    unfold blobFsPath
    split <;> simp_all
  simp only [members, List.forall_mem_append, List.forall_mem_map, Option.isSome_map,
    Option.isSome_bind, Option.any_eq_true, hhash, and_assoc]

/-- What a run leaves for an attachment is its bytes or its shim. -/
theorem attachmentBytes_of_contentBytes {full : PathBuf} {hash : Str} {size : Nat}
    (hvalid : validHash hash = true) :
    AttachmentBytes cfg codecs vault tree hash size
      (contentBytes codecs.sha256Hex ⟨tree, [], []⟩ full
        (if size ≤ cfg.gitInlineAttachmentMaxBytes then
          .blobCopy (push (blobRoot cfg vault) hash) hash (attachmentShim cfg vault hash size)
        else .text (attachmentShim cfg vault hash size))) := by
  unfold AttachmentBytes
  split
  · rw [← resolve_blob hvalid]
    by_cases hsame : fileSha256 codecs.sha256Hex ⟨tree, [], []⟩ full = some hash
    · obtain ⟨bytes, hread, hhash⟩ := Option.map_eq_some_iff.mp hsame
      rw [contentBytes_of_same hsame, Option.some.injEq] at hread
      exact .inl (hread ▸ hhash)
    · rw [contentBytes_of_other hsame, Disk.read]
      cases hblob : tree.read (resolve (push (blobRoot cfg vault) hash)) with
      | none => exact .inr (.inr ⟨rfl, rfl⟩)
      | some bytes => exact .inr (.inl rfl)
  · rfl

/-- A run records the vault exactly where every entry can be made and its place is free. -/
theorem recorded_iff (hrepo : IsRepo tree (repoPath cfg vault)) (hs : s.WellFormed) :
    Recorded cfg codecs vault tree s ↔ Clear cfg codecs vault tree s := by
  have hsafe : ∀ r ∈ Assoc.keys (snapshotEntries cfg codecs vault s), Safe r :=
    fun r hr => safe_of_mem hr
  have hapart : (Assoc.keys (snapshotEntries cfg codecs vault s)).Pairwise _ := apart_keys hs
  have hgit : ∀ rel ∈ s.recordedPaths, rel.head? ≠ some gitDir := by
    intro rel hrel
    rcases List.mem_append.mp hrel with hrel | hrel
    · obtain ⟨path, hpath, rfl⟩ := List.mem_map.mp hrel
      exact hs.notGit path hpath
    · obtain ⟨dump, -, rfl⟩ := List.mem_map.mp hrel
      rw [head_dump]
      decide
  cases hrun : commitOnce cfg codecs vault s tree with
  | mk d' done =>
      constructor
      · intro h
        have hdone : done = true := by
          rw [← show (commitOnce cfg codecs vault s tree).2 = done from by rw [hrun]]
          exact h.done
        subst hdone
        -- a path that is in the tree was written, so it could be read and nothing stood in its way
        have hmade : ∀ rel ∈ s.recordedPaths,
            rel ∈ Assoc.keys (snapshotEntries cfg codecs vault s) := by
          intro rel hrel
          have hfile := (h.files rel (hgit rel hrel)).mpr hrel
          rw [hrun] at hfile
          exact (isFile_of_run hrepo hsafe hrun (hgit rel hrel)).mp hfile
        obtain ⟨htexts, hstructured, hhashes⟩ :=
          members_isSome_iff.mp ((recorded_subset_iff hs).mp hmade)
        obtain ⟨written, hwrite⟩ := (done_iff hrepo hsafe hrun).mp rfl
        exact ⟨htexts, hstructured, hhashes, fun rel hrel =>
          free_of_done hsafe hwrite rel (hmade rel hrel)⟩
      · intro h
        have hmade : ∀ rel ∈ s.recordedPaths,
            rel ∈ Assoc.keys (snapshotEntries cfg codecs vault s) :=
          (recorded_subset_iff hs).mpr
            (members_isSome_iff.mpr ⟨h.texts, h.structured, h.hashes⟩)
        -- and where all can be written the run does not stop
        have hwritten : ∃ written, writeEntries codecs.sha256Hex (repoPath cfg vault)
            ⟨tree, [], []⟩ (snapshotEntries cfg codecs vault s) = (written, true) :=
          done_of_free hsafe (hapart.imp .inr)
            fun rel hrel => h.free rel (keys_snapshotEntries_subset hrel)
        have hdone : done = true := (done_iff hrepo hsafe hrun).mpr hwritten
        subst hdone
        have hcontent : ∀ entry ∈ snapshotEntries cfg codecs vault s,
            d'.tree.read (resolve (repoPath cfg vault) ++ entry.1) =
              some (contentBytes codecs.sha256Hex ⟨tree, [], []⟩
                (join (repoPath cfg vault) entry.1) entry.2) := by
          rintro ⟨rel, content⟩ hentry
          have hsrc : ∀ src hash shim, content = .blobCopy src hash shim →
              ¬resolve (repoPath cfg vault) <+: resolve src := by
            rintro src hash shim rfl
            obtain ⟨rfl, hvalid⟩ := blobCopy_of_mem hentry
            exact not_prefix_blob hvalid
          have hnodup : (Assoc.keys (snapshotEntries cfg codecs vault s)).Nodup :=
            hapart.imp fun {p q} hpq (heq : p = q) => hpq.1 (heq ▸ List.prefix_rfl)
          obtain ⟨before, after, hentries⟩ := List.append_of_mem hentry
          rw [hentries, Assoc.keys_append, Assoc.keys_cons] at hnodup
          obtain ⟨-, hcons, hdisjoint⟩ := List.nodup_append.mp hnodup
          rw [commitOnce, hentries] at hrun
          rw [hentries] at hsafe
          exact content_of_run hrepo hsafe hsrc
            (fun hin => hdisjoint rel hin rel List.mem_cons_self rfl)
            (List.nodup_cons.mp hcons).1 hrun
        have hmember {path : Str} {content : TreeContent}
            (hm : (path, some content) ∈ members cfg codecs vault s) :
            d'.tree.read (resolve (repoPath cfg vault) ++ relOf path) =
              some (contentBytes codecs.sha256Hex ⟨tree, [], []⟩
                (join (repoPath cfg vault) (relOf path)) content) :=
          hcontent _ (mem_snapshotEntries_of_member hs hm)
        have hfile (rel : PathBuf) (hrel : rel.head? ≠ some gitDir) :
            d'.tree.isFile (resolve (repoPath cfg vault) ++ rel) = true ↔
              rel ∈ s.recordedPaths := by
          rw [isFile_of_run hrepo hsafe hrun hrel]
          exact ⟨keys_snapshotEntries_subset, hmade rel⟩
        constructor
        · rw [hrun]
        · rw [hrun]
          exact hfile
        · rw [hrun]
          intro e he text htext
          have hm : (e.1, some (.text text)) ∈ members cfg codecs vault s := by
            refine List.mem_append_left _ (List.mem_append_left _ (List.mem_map.mpr ⟨e, he, ?_⟩))
            rw [htext]
            rfl
          exact hmember hm
        · rw [hrun]
          intro e he root hroot text htext
          have hm : (e.1, some (.text text)) ∈ members cfg codecs vault s := by
            refine List.mem_append_left _ (List.mem_append_right _ (List.mem_map.mpr ⟨e, he, ?_⟩))
            rw [hroot, Option.bind_some, htext]
            rfl
          exact hmember hm
        · rw [hrun]
          intro e he hvalid
          refine ⟨_, hmember (List.mem_append_right _ (List.mem_map.mpr
            ⟨e, he, by rw [blobFsPath, if_pos hvalid]; rfl⟩)), ?_⟩
          exact attachmentBytes_of_contentBytes hvalid
        · rw [hrun]
          intro dump hdump
          have hentry : dump.entry ∈ snapshotEntries cfg codecs vault s := by
            rw [snapshotEntries_eq]
            exact List.mem_append_right _ (List.mem_map_of_mem hdump)
          exact hcontent _ hentry
        · rw [hrun]
          intro path hpath _
          refine (hfile _ (hs.notGit path hpath)).mpr ?_
          exact List.mem_append_left _ (List.mem_map_of_mem hpath)

theorem Snapshots.isRepo {runs : List (FileTree Str Bytes × VaultState)}
    (h : Snapshots cfg codecs vault runs tree) : IsRepo tree (repoPath cfg vault) := by
  induction h with
  | empty hrepo _ => exact hrepo
  | outside _ hrepo _ _ => exact hrepo
  | run _ _ ih => exact isRepo_of_run ih (fun r hr => safe_of_mem hr) rfl

/-- In every sequence of snapshots, after runs that failed and runs that did not, a run records
the vault exactly where every entry can be made and its place in the working tree is free. -/
theorem snapshots_recorded_iff {runs : List (FileTree Str Bytes × VaultState)}
    (h : Snapshots cfg codecs vault runs tree) :
    ∀ run ∈ runs, Recorded cfg codecs vault run.1 run.2 ↔ Clear cfg codecs vault run.1 run.2 := by
  induction h with
  | empty _ _ => simp
  | outside _ _ _ ih => exact ih
  | run hruns hs ih =>
      rw [List.forall_mem_append, List.forall_mem_singleton]
      exact ⟨ih, recorded_iff hruns.isRepo hs⟩

end Recorded

/-! ## A note that cannot be read once -/

/-- The vault has the note `a`, whose document reads as `content`. -/
def noteVault (content : Option Str) : VaultState where
  index :=
    { files := [("a".toList, "n".toList)]
      structured := []
      binaries := []
      trash := [] }
  configFiles := []
  text _ := content
  root _ := none
  dumps := []

theorem wellFormed_noteVault (content : Option Str) : (noteVault content).WellFormed where
  safe path hpath := by
    rw [List.mem_singleton.mp hpath]
    decide
  notGit path hpath := by
    rw [List.mem_singleton.mp hpath]
    decide
  notSql path hpath := by
    rw [List.mem_singleton.mp hpath]
    decide
  apart := List.pairwise_singleton _ _
  dumps := .nil

def noteRepo : FileTree Str Bytes := emptyRepo (repoPath localConfig someVault)

theorem snapshots_noteRepo : Snapshots localConfig plainCodecs someVault [] noteRepo := by
  refine .empty (isRepo_emptyRepo _) fun rel hne hgit => ?_
  rw [noteRepo, get_emptyRepo, if_neg]
  rw [List.prefix_append_right_inj]
  intro hpre
  rcases List.prefix_concat_iff.mp (show rel <+: [] ++ [gitDir] from hpre) with heq | hnil
  · exact hgit (heq ▸ rfl)
  · exact hne (List.prefix_nil.mp hnil)

theorem clear_noteVault (content : Str) :
    Clear localConfig plainCodecs someVault noteRepo (noteVault (some content)) where
  texts _ _ := rfl
  structured := nofun
  hashes := nofun
  free rel hrel := by
    rw [List.mem_singleton.mp hrel]
    refine free_emptyRepo ⟨nofun, ?_⟩ ?_
    all_goals decide

theorem recorded_note :
    Recorded localConfig plainCodecs someVault noteRepo (noteVault (some "text".toList)) :=
  (snapshots_recorded_iff (.run snapshots_noteRepo (wellFormed_noteVault _)) _
    (List.mem_singleton_self _)).mpr (clear_noteVault _)

/-- The disk after a snapshot that read the note. -/
def noteWritten : FileTree Str Bytes :=
  (commitOnce localConfig plainCodecs someVault (noteVault (some "text".toList)) noteRepo).1.tree

/-- The next snapshot cannot read it, and removes it. -/
theorem not_recorded_unreadable_note :
    Snapshots localConfig plainCodecs someVault
        [(noteRepo, noteVault (some "text".toList)), (noteWritten, noteVault none)]
        (commitOnce localConfig plainCodecs someVault (noteVault none) noteWritten).1.tree ∧
      ¬Recorded localConfig plainCodecs someVault noteWritten (noteVault none) := by
  have hruns : Snapshots localConfig plainCodecs someVault
      [(noteRepo, noteVault (some "text".toList))] noteWritten :=
    .run snapshots_noteRepo (wellFormed_noteVault _)
  refine ⟨.run hruns (wellFormed_noteVault _), fun h => ?_⟩
  have hpath : relOf "a".toList ∈ (noteVault none).recordedPaths := List.mem_singleton_self _
  have hfile := (h.files (relOf "a".toList) (by decide)).mpr hpath
  -- no entry is made of it
  cases hrun : commitOnce localConfig plainCodecs someVault (noteVault none) noteWritten with
  | mk d done =>
      have hdone := h.done
      rw [hrun] at hfile hdone
      obtain rfl : done = true := hdone
      have hrepo : IsRepo (Disk.mk noteWritten [] []).tree (repoPath localConfig someVault) :=
        hruns.isRepo
      have hin := (isFile_of_run hrepo (fun r hr => safe_of_mem hr) hrun
        (show (relOf "a".toList).head? ≠ some gitDir by decide)).mp hfile
      cases hin

end Realtime.Git
