import Realtime.Git.Snapshot

/-!
# Snapshots and the repository's own files

A snapshot keeps to the repository and to the blobs of the vault. Its safe paths may begin with
`.git`, and only the prune passes by that directory: a file of the index that lies in it is
written over what Git has there.
-/

namespace Realtime.Git

open Lib Structured.Server

/-- The run stayed in the working tree, and copied blobs of the vault. -/
structure Confined (cfg : Config) (vault : VaultId) (d : Disk) : Prop where
  touched : ∀ p ∈ d.touched, resolve (repoPath cfg vault) <+: p ∧
    p ≠ resolve (repoPath cfg vault) ∧ ¬resolve (repoPath cfg vault) ++ [gitDir] <+: p
  copied : ∀ p ∈ d.copied, resolve (blobRoot cfg vault) <+: p

/-- In an empty repository all of these are written. -/
structure Writable (rels : List PathBuf) : Prop where
  compatible : rels.Pairwise Compatible
  notGit : [gitDir] ∉ rels

def InsideGit (rel : PathBuf) : Prop := ∃ comp rest, rel = gitDir :: comp :: rest

/-- No entry that an empty repository lets the run get to is inside `.git`. -/
def AvoidsGit (rels : List PathBuf) : Prop :=
  ∀ before rel after, rels = before ++ rel :: after → Writable before → ¬InsideGit rel

section Empty

theorem normal_resolve (p : PathBuf) : ∀ comp ∈ resolve p, Normal comp := by
  induction p using List.reverseRecOn with
  | nil => simp [resolve]
  | append_singleton p comp ih =>
      rw [resolve, List.foldl_append, ← resolve, List.foldl_cons, List.foldl_nil, enter]
      split
      · exact ih
      · rename_i hname
        split
        · exact fun c hc => ih c (List.mem_of_mem_dropLast hc)
        · rename_i hup
          intro c hc
          rcases List.mem_append.mp hc with hc | hc
          · exact ih c hc
          · rw [List.mem_singleton.mp hc]
            exact ⟨fun h => hname (.inl h), fun h => hname (.inr h), hup⟩

/-- A repository without any file. -/
def emptyRepo (repo : PathBuf) : FileTree Str Bytes :=
  FileTree.addDirs [] (resolve repo ++ [gitDir]).inits

theorem get_emptyRepo (repo : PathBuf) (q : List Str) :
    (emptyRepo repo).get q = if q <+: resolve repo ++ [gitDir] then some .dir else none := by
  by_cases hq : q <+: resolve repo ++ [gitDir]
  · rw [if_pos hq]
    exact (FileTree.get_addDirs _ _).trans (if_pos ((List.mem_inits _ _).mpr hq))
  · rw [if_neg hq]
    exact (FileTree.get_addDirs _ _).trans (if_neg (mt (List.mem_inits _ _).mp hq))

theorem isRepo_emptyRepo (repo : PathBuf) : IsRepo (emptyRepo repo) repo where
  named p hp comp hcomp := by
    rw [get_emptyRepo] at hp
    split at hp
    · rename_i hpre
      rcases List.mem_append.mp (hpre.subset hcomp) with h | h
      · exact normal_resolve repo comp h
      · rw [List.mem_singleton.mp h]
        decide
    · exact absurd rfl hp
  dirs q hq := by
    rw [FileTree.isDir_iff, get_emptyRepo, if_pos hq]

theorem free_emptyRepo {repo rel : PathBuf} (hsafe : Safe rel) (hgit : rel ≠ [gitDir]) :
    (emptyRepo repo).Free (resolve repo ++ rel) where
  above q _ := by
    rw [FileTree.isFile, FileTree.read, get_emptyRepo]
    split_ifs <;> rfl
  here := by
    rw [FileTree.isDir, get_emptyRepo, if_neg]
    rw [List.prefix_append_right_inj]
    intro hpre
    rcases List.prefix_concat_iff.mp (show rel <+: [] ++ [gitDir] from hpre) with heq | hnil
    · exact hgit heq
    · exact hsafe.ne_nil (List.prefix_nil.mp hnil)

end Empty

section Runs

variable {cfg : Config} {codecs : Codecs} {vault : VaultId} {s : VaultState}

/-- The entries before one that is inside `.git` can be taken to be outside. -/
theorem exists_first {rels before after : List PathBuf} {rel : PathBuf}
    (hrels : rels = before ++ rel :: after) (hwritable : Writable before) (hgit : InsideGit rel) :
    ∃ before rel after, rels = before ++ rel :: after ∧ Writable before ∧ InsideGit rel ∧
      ∀ r ∈ before, ¬InsideGit r := by
  classical
  cases hfind : before.find? fun r => InsideGit r with
  | none =>
      refine ⟨before, rel, after, hrels, hwritable, hgit, fun r hr => ?_⟩
      exact of_decide_eq_true (by simpa using List.find?_eq_none.mp hfind r hr)
  | some first =>
      obtain ⟨hfirst, front, back, rfl, hfront⟩ := List.find?_eq_some_iff_append.mp hfind
      refine ⟨front, first, back ++ rel :: after, by simp [hrels], ?_, by simpa using hfirst,
        fun r hr => by simpa using hfront r hr⟩
      exact ⟨(List.pairwise_append.mp hwritable.compatible).1,
        fun h => hwritable.notGit (List.mem_append_left _ h)⟩

/-- In the empty repository the first entry inside `.git` is written. -/
theorem touched_of_insideGit {before after : List (PathBuf × TreeContent)} {rel : PathBuf}
    {content : TreeContent}
    (hentries : snapshotEntries cfg codecs vault s = before ++ (rel, content) :: after)
    (hwritable : Writable (Assoc.keys before)) (hgit : InsideGit rel)
    (houtside : ∀ r ∈ Assoc.keys before, ¬InsideGit r) :
    resolve (repoPath cfg vault) ++ rel ∈
      (commitOnce cfg codecs vault s (emptyRepo (repoPath cfg vault))).1.touched := by
  set repo := repoPath cfg vault with hrepoPath
  have hsafe : ∀ r ∈ Assoc.keys (snapshotEntries cfg codecs vault s), Safe r :=
    fun r hr => safe_of_mem hr
  have hkeys : Assoc.keys (snapshotEntries cfg codecs vault s) =
      Assoc.keys before ++ rel :: Assoc.keys after := by
    rw [hentries, Assoc.keys_append, Assoc.keys_cons]
  have hrel : Safe rel := hsafe rel (by rw [hkeys]; simp)
  have hbefore : ∀ r ∈ Assoc.keys before, Safe r := fun r hr => hsafe r (by rw [hkeys]; simp [hr])
  have hapart : ∀ r ∈ Assoc.keys before, Compatible r rel := by
    obtain ⟨comp, rest, rfl⟩ := hgit
    intro r hr
    refine .inr ⟨fun hpre => ?_, fun hpre => ?_⟩
    · -- above it there is only `.git`
      cases r with
      | nil => exact (hbefore [] hr).ne_nil rfl
      | cons c r =>
          obtain ⟨rfl, htail⟩ := List.cons_prefix_cons.mp hpre
          cases r with
          | nil => exact hwritable.notGit hr
          | cons c r => exact houtside _ hr ⟨c, r, rfl⟩
    · obtain ⟨below, rfl⟩ := hpre
      exact houtside _ hr ⟨comp, rest ++ below, rfl⟩
  have hcompatible : (Assoc.keys (before ++ [(rel, content)])).Pairwise Compatible := by
    rw [Assoc.keys_append]
    refine List.pairwise_append.mpr ⟨hwritable.compatible, List.pairwise_singleton _ _, ?_⟩
    intro r hr r' hr'
    rw [Assoc.keys_cons, Assoc.keys_nil, List.mem_singleton] at hr'
    exact hr' ▸ hapart r hr
  have hsafe' : ∀ r ∈ Assoc.keys (before ++ [(rel, content)]), Safe r := by
    rw [Assoc.keys_append]
    exact List.forall_mem_append.mpr ⟨hbefore, List.forall_mem_singleton.mpr hrel⟩
  have hfree : ∀ r ∈ Assoc.keys (before ++ [(rel, content)]),
      (emptyRepo repo).Free (resolve repo ++ r) := by
    intro r hr
    refine free_emptyRepo (hsafe' r hr) ?_
    rintro rfl
    rw [Assoc.keys_append, List.mem_append] at hr
    rcases hr with hr | hr
    · exact hwritable.notGit hr
    · obtain ⟨comp, rest, rfl⟩ := hgit
      cases List.mem_singleton.mp hr
  have hdone : ∃ d₂, writeEntries codecs.sha256Hex repo ⟨emptyRepo repo, [], []⟩
      (before ++ [(rel, content)]) = (d₂, true) := done_of_free hsafe' hcompatible hfree
  obtain ⟨d₂, hd₂⟩ := hdone
  have htouched : resolve repo ++ rel ∈ d₂.touched := by
    rw [writeEntries_append] at hd₂
    split at hd₂
    · rename_i d₁ hd₁
      obtain ⟨d₃, hd₃, hnil⟩ := writeEntries_cons_done hd₂
      cases hnil
      have hwrote := writeEntry_wrote hrel hd₃
      refine hwrote.made ?_
      -- nothing is there yet
      rcases (writeEntries_grown hbefore hd₁).get (resolve repo ++ rel) with heq | ⟨p, hp, hpre⟩
      · rw [FileTree.isFile, FileTree.read_congr heq, FileTree.read, get_emptyRepo]
        split_ifs <;> rfl
      · obtain ⟨r, hr, rfl⟩ := List.mem_map.mp hp
        rw [List.prefix_append_right_inj] at hpre
        rcases hapart r hr with rfl | ⟨-, hno⟩
        · exact absurd hgit (houtside r hr)
        · exact absurd hpre hno
    · cases hd₂
  cases hrun : writeEntries codecs.sha256Hex repo d₂ after with
  | mk written ok =>
      have hafter : ∀ r ∈ Assoc.keys after, Safe r := fun r hr => hsafe r (by rw [hkeys]; simp [hr])
      have hall : writeEntries codecs.sha256Hex repo ⟨emptyRepo repo, [], []⟩
          (snapshotEntries cfg codecs vault s) = (written, ok) := by
        rw [hentries, List.append_cons, writeEntries_append, hd₂]
        exact hrun
      exact kept_of_run (isRepo_emptyRepo repo) hsafe rfl hall
        ((writeEntries_grown hafter hrun).kept _ htouched)

/-- What a run touches inside `.git` is written for an entry there, after others were. -/
theorem insideGit_of_touched {tree : FileTree Str Bytes}
    (hrepo : IsRepo tree (repoPath cfg vault)) {p : List Str}
    (hp : p ∈ (commitOnce cfg codecs vault s tree).1.touched) :
    ∃ rel : PathBuf, rel ≠ [] ∧ p = resolve (repoPath cfg vault) ++ rel ∧
      (rel.head? = some gitDir → ∃ before r after,
        Assoc.keys (snapshotEntries cfg codecs vault s) = before ++ r :: after ∧
          Writable before ∧ InsideGit r) := by
  have hsafe : ∀ r ∈ Assoc.keys (snapshotEntries cfg codecs vault s), Safe r :=
    fun r hr => safe_of_mem hr
  rcases touched_of_run hrepo hsafe rfl hp with hnil | ⟨rel, hne, rfl, hrel⟩
  · cases hnil
  · refine ⟨rel, hne, rfl, fun hgit => ?_⟩
    rcases hrel with hout | ⟨before, r, content, after, d₁, hentries, hbefore, hnew, hpre⟩
    · exact absurd hgit hout
    · have hkeys := congrArg Assoc.keys hentries
      rw [Assoc.keys_append, Assoc.keys_cons] at hkeys
      have hsafe' : ∀ r ∈ Assoc.keys before, Safe r :=
        fun r hr => hsafe r (by rw [hkeys]; simp [hr])
      refine ⟨Assoc.keys before, r, Assoc.keys after, hkeys,
        ⟨compatible_of_done hsafe' hbefore, fun hin => ?_⟩, ?_⟩
      · have hno := (free_of_done hsafe' hbefore [gitDir] hin).here
        rw [hrepo.dirs _ List.prefix_rfl] at hno
        cases hno
      · -- the directory itself is there
        cases rel with
        | nil => exact absurd rfl hne
        | cons c rest =>
            obtain rfl : c = gitDir := Option.some.inj hgit
            cases rest with
            | nil =>
                rw [hrepo.dirs _ List.prefix_rfl] at hnew
                cases hnew
            | cons comp rest =>
                obtain ⟨below, rfl⟩ := hpre
                exact ⟨comp, rest ++ below, rfl⟩

end Runs

/-! ## A note over Git's configuration -/

def localConfig : Config where
  gitDataDir := ["".toList, "git".toList]
  blobDir := ["".toList, "blobs".toList]
  publicBaseUrl := []
  gitInlineAttachmentMaxBytes := 1024
  oneLine := by decide
  apart := by decide

def plainCodecs : Codecs where
  sha256Hex _ := []
  toStringPretty _ := []
  toYaml _ := none
  fromSlice _ := none
  fromYaml _ := none

def someVault : VaultId where
  id := "v".toList
  guarded := by decide
  oneLine := by decide

/-- A member has put a note at `.git/config`. -/
def configNote : VaultState where
  index :=
    { files := [(".git/config".toList, "n".toList)]
      structured := []
      binaries := []
      trash := [] }
  configFiles := []
  text _ := some "[core]".toList
  root _ := none
  dumps := []

end Realtime.Git
