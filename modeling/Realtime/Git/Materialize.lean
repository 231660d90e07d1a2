import Realtime.Git.WorkingTree

/-!
# A run over all entries

What `materialize_tree` leaves behind: it gets through exactly where every path is free and no
entry is in another's way, and then the files outside `.git` are the entries.
-/

namespace Realtime.Git

open Lib

/-! ## All entries -/

/-- The directories of a repository are there, and every name on the disk is one. -/
structure IsRepo (tree : FileTree Str Bytes) (repo : PathBuf) : Prop where
  named : ∀ p, tree.get p ≠ none → ∀ comp ∈ p, Normal comp
  dirs : ∀ q, q <+: resolve repo ++ [gitDir] → tree.isDir q = true

section Entries

variable {sha256Hex : Bytes → Str} {repo : PathBuf} {d d' : Disk} {done : Bool}
  {entries : List (PathBuf × TreeContent)}

/-- Where the files are put. -/
def destinations (repo : PathBuf) (entries : List (PathBuf × TreeContent)) : List (List Str) :=
  (Assoc.keys entries).map fun rel => resolve repo ++ rel

theorem writeEntries_grown (hsafe : ∀ rel ∈ Assoc.keys entries, Safe rel)
    (h : writeEntries sha256Hex repo d entries = (d', done)) :
    Grown (destinations repo entries) d d' := by
  induction entries generalizing d with
  | nil =>
      cases h
      exact .refl _ _
  | cons entry entries ih =>
      obtain ⟨rel, content⟩ := entry
      have hrel := hsafe rel List.mem_cons_self
      rw [writeEntries] at h
      split at h
      · rename_i d₁ heq
        exact (writeEntry_grown hrel heq).trans
          (ih (fun r hr => hsafe r (List.mem_cons_of_mem _ hr)) h)
      · rename_i d₁ heq
        cases h
        exact (writeEntry_grown hrel heq).mono (by simp [destinations])

theorem writeEntries_cons_done {rel : PathBuf} {content : TreeContent}
    (h : writeEntries sha256Hex repo d ((rel, content) :: entries) = (d', true)) :
    ∃ d₁, writeEntry sha256Hex repo d (rel, content) = (d₁, true) ∧
      writeEntries sha256Hex repo d₁ entries = (d', true) := by
  rw [writeEntries] at h
  split at h
  · exact ⟨_, ‹_›, h⟩
  · cases h

theorem free_of_done (hsafe : ∀ rel ∈ Assoc.keys entries, Safe rel)
    (h : writeEntries sha256Hex repo d entries = (d', true)) :
    ∀ rel ∈ Assoc.keys entries, d.tree.Free (resolve repo ++ rel) := by
  induction entries generalizing d with
  | nil => simp
  | cons entry entries ih =>
      obtain ⟨rel, content⟩ := entry
      obtain ⟨d₁, hfirst, hrest⟩ := writeEntries_cons_done h
      have hrel := hsafe rel List.mem_cons_self
      rw [Assoc.keys_cons, List.forall_mem_cons]
      refine ⟨(writeEntry_done_iff sha256Hex content hrel).mp (congrArg Prod.snd hfirst),
        fun r hr => ?_⟩
      exact (writeEntry_grown hrel hfirst).free
        (ih (fun r hr => hsafe r (List.mem_cons_of_mem _ hr)) hrest r hr)

/-- Every entry is a file in the end, with directories above it. -/
theorem files_of_done (hsafe : ∀ rel ∈ Assoc.keys entries, Safe rel)
    (h : writeEntries sha256Hex repo d entries = (d', true)) :
    ∀ rel ∈ Assoc.keys entries, d'.tree.isFile (resolve repo ++ rel) = true ∧
      ∀ q, q <+: (resolve repo ++ rel).dropLast → d'.tree.isDir q = true := by
  induction entries generalizing d with
  | nil => simp
  | cons entry entries ih =>
      obtain ⟨rel, content⟩ := entry
      have hrel := hsafe rel List.mem_cons_self
      have hsafe' := fun r hr => hsafe r (List.mem_cons_of_mem _ hr)
      obtain ⟨d₁, hfirst, hrest⟩ := writeEntries_cons_done h
      have hwrote := writeEntry_wrote hrel hfirst
      have hgrown := writeEntries_grown hsafe' hrest
      rw [Assoc.keys_cons, List.forall_mem_cons]
      refine ⟨⟨hgrown.files _ ?_, fun q hq => hgrown.dirs q ?_⟩, ih hsafe' hrest⟩
      · rw [FileTree.isFile_iff, hwrote.get, if_pos rfl]
        exact ⟨_, rfl⟩
      · have hne : resolve repo ++ rel ≠ q := by
          rintro rfl
          exact not_prefix_dropLast (root_append_ne_nil hrel _) hq
        rw [FileTree.isDir_iff, hwrote.get, if_neg hne, if_pos hq]

/-- A file that was put stays: no later one can be below it, or be a directory of it. -/
theorem apart_of_wrote {rel rel' : PathBuf} {bytes : Bytes} {d₁ : Disk}
    (hwrote : Wrote d (resolve repo ++ rel) bytes d₁)
    (hfree : d₁.tree.Free (resolve repo ++ rel')) (hne : rel ≠ rel') :
    ¬rel <+: rel' ∧ ¬rel' <+: rel := by
  have hroot {p q : PathBuf} (h : p <+: q) (hne : p ≠ q) :
      resolve repo ++ p <+: (resolve repo ++ q).dropLast := by
    refine prefix_dropLast_of_ne ((List.prefix_append_right_inj _).mpr h) fun heq => ?_
    exact hne (List.append_cancel_left heq)
  constructor
  · intro hpre
    have hno := hfree.above _ (hroot hpre hne)
    rw [FileTree.isFile, FileTree.read, hwrote.get, if_pos rfl] at hno
    cases hno
  · intro hpre
    have hno := hfree.here
    have hbelow := hroot hpre hne.symm
    rw [FileTree.isDir, hwrote.get, if_neg, if_pos hbelow] at hno
    · cases hno
    · intro heq
      exact hne (List.append_cancel_left heq)

/-- One path is the other, or neither is a directory of the other. -/
def Compatible (p q : PathBuf) : Prop := p = q ∨ ¬p <+: q ∧ ¬q <+: p

/-- A path apart from the one that was written stays free. -/
theorem Wrote.free {p q : List Str} {bytes : Bytes} (hwrote : Wrote d p bytes d')
    (hfree : d.tree.Free q) (hpq : ¬p <+: q) (hqp : ¬q <+: p) : d'.tree.Free q where
  above r hr := by
    have hp : p ≠ r := fun heq => hpq (heq ▸ hr.trans (List.dropLast_prefix q))
    rw [Bool.eq_false_iff]
    intro hfile
    rw [FileTree.isFile_iff, hwrote.get, if_neg hp] at hfile
    split at hfile
    · simp at hfile
    · exact absurd (FileTree.isFile_iff.mpr hfile) (by simp [hfree.above r hr])
  here := by
    have hp : p ≠ q := fun heq => hpq (heq ▸ List.prefix_rfl)
    have habove : ¬q <+: p.dropLast := fun h => hqp (h.trans (List.dropLast_prefix p))
    rw [FileTree.isDir_congr ((hwrote.get q).trans ((if_neg hp).trans (if_neg habove)))]
    exact hfree.here

/-- A file can be written again. -/
theorem Wrote.free_self {p : List Str} {bytes : Bytes} (hwrote : Wrote d p bytes d')
    (hne : p ≠ []) : d'.tree.Free p where
  above q hq := by
    have hp : p ≠ q := fun heq => not_prefix_dropLast hne (heq ▸ hq)
    rw [FileTree.isFile, FileTree.read, hwrote.get, if_neg hp, if_pos hq]
    rfl
  here := by
    rw [FileTree.isDir, hwrote.get, if_pos rfl]

theorem done_of_free (hsafe : ∀ rel ∈ Assoc.keys entries, Safe rel)
    (hcompatible : (Assoc.keys entries).Pairwise Compatible)
    (hfree : ∀ rel ∈ Assoc.keys entries, d.tree.Free (resolve repo ++ rel)) :
    ∃ d', writeEntries sha256Hex repo d entries = (d', true) := by
  induction entries generalizing d with
  | nil => exact ⟨d, rfl⟩
  | cons entry entries ih =>
      obtain ⟨rel, content⟩ := entry
      have hrel := hsafe rel List.mem_cons_self
      obtain ⟨hhead, hrest⟩ := List.pairwise_cons.mp hcompatible
      cases hfirst : writeEntry sha256Hex repo d (rel, content) with
      | mk d₁ done =>
          have hdone := (writeEntry_done_iff sha256Hex content hrel).mpr
            (hfree rel List.mem_cons_self)
          rw [hfirst] at hdone
          obtain rfl : done = true := hdone
          have hwrote := writeEntry_wrote hrel hfirst
          rw [writeEntries, hfirst]
          refine ih (fun r hr => hsafe r (List.mem_cons_of_mem _ hr)) hrest fun r hr => ?_
          rcases hhead r hr with rfl | ⟨hbelow, habove⟩
          · exact hwrote.free_self (root_append_ne_nil hrel _)
          · refine hwrote.free (hfree r (List.mem_cons_of_mem _ hr)) ?_ ?_
            · rwa [List.prefix_append_right_inj]
            · rwa [List.prefix_append_right_inj]

/-- Outside of the repository nothing changes. -/
theorem get_outside (hgrown : Grown (destinations repo entries) d d')
    (hroot : ∀ q, q <+: resolve repo → d.tree.isDir q = true) {q : List Str}
    (hq : ¬resolve repo <+: q) : d'.tree.get q = d.tree.get q := by
  rcases hgrown.get q with heq | ⟨p, hp, hpre⟩
  · exact heq
  · obtain ⟨rel, -, rfl⟩ := List.mem_map.mp hp
    rcases List.prefix_or_prefix_of_prefix hpre (List.prefix_append (resolve repo) rel) with h | h
    · rw [FileTree.isDir_iff.mp (hroot q h), FileTree.isDir_iff.mp (hgrown.dirs q (hroot q h))]
    · exact absurd h hq

theorem writeEntries_append (d : Disk) (before after : List (PathBuf × TreeContent)) :
    writeEntries sha256Hex repo d (before ++ after) =
      match writeEntries sha256Hex repo d before with
      | (d, true) => writeEntries sha256Hex repo d after
      | (d, false) => (d, false) := by
  induction before generalizing d with
  | nil => rfl
  | cons entry before ih =>
      rw [List.cons_append, writeEntries, writeEntries]
      cases hfirst : writeEntry sha256Hex repo d entry with
      | mk d₁ done =>
          cases done with
          | true => exact ih d₁
          | false => rfl

/-- A path that is free after others were written is above none of them. -/
theorem not_prefix_of_done (hsafe : ∀ r ∈ Assoc.keys entries, Safe r)
    (h : writeEntries sha256Hex repo d entries = (d', true)) {rel r : PathBuf}
    (hfree : d'.tree.Free (resolve repo ++ rel)) (hr : r ∈ Assoc.keys entries) (hne : rel ≠ r) :
    ¬rel <+: r := by
  intro hpre
  have hbelow : resolve repo ++ rel <+: (resolve repo ++ r).dropLast :=
    prefix_dropLast_of_ne ((List.prefix_append_right_inj _).mpr hpre)
      fun heq => hne (List.append_cancel_left heq)
  have hdir := (files_of_done hsafe h r hr).2 _ hbelow
  rw [hfree.here] at hdir
  cases hdir

/-- What is found in the end for an entry that no other entry has the path of. -/
theorem content_of_done {before after : List (PathBuf × TreeContent)} {rel : PathBuf}
    {content : TreeContent}
    (hsafe : ∀ r ∈ Assoc.keys (before ++ (rel, content) :: after), Safe r)
    (hroot : ∀ q, q <+: resolve repo → d.tree.isDir q = true)
    (hsrc : ∀ src hash shim, content = .blobCopy src hash shim → ¬resolve repo <+: resolve src)
    (hbefore : rel ∉ Assoc.keys before) (hafter : rel ∉ Assoc.keys after)
    (h : writeEntries sha256Hex repo d (before ++ (rel, content) :: after) = (d', true)) :
    d'.tree.get (resolve repo ++ rel) =
      some (.file (contentBytes sha256Hex d (join repo rel) content)) := by
  rw [Assoc.keys_append, Assoc.keys_cons, List.forall_mem_append, List.forall_mem_cons] at hsafe
  obtain ⟨hsafeBefore, hrel, hsafeAfter⟩ := hsafe
  rw [writeEntries_append] at h
  split at h
  · rename_i d₁ hd₁
    obtain ⟨d₂, hfirst, hrest⟩ := writeEntries_cons_done h
    have hwrote := writeEntry_wrote hrel hfirst
    have hgrown := writeEntries_grown hsafeBefore hd₁
    have hput := hwrote.get (resolve repo ++ rel)
    rw [if_pos rfl] at hput
    -- later entries leave it alone, earlier ones have
    have hlast : d'.tree.get (resolve repo ++ rel) = d₂.tree.get (resolve repo ++ rel) := by
      rcases (writeEntries_grown hsafeAfter hrest).get (resolve repo ++ rel) with
        heq | ⟨p, hp, hpre⟩
      · exact heq
      · obtain ⟨r, hr, rfl⟩ := List.mem_map.mp hp
        rw [List.prefix_append_right_inj] at hpre
        have hne : rel ≠ r := fun heq => hafter (heq ▸ hr)
        exact absurd hpre (apart_of_wrote hwrote (free_of_done hsafeAfter hrest r hr) hne).1
    have hhere : d₁.read (join repo rel) = d.read (join repo rel) := by
      rw [Disk.read, Disk.read, resolve_join hrel.normal]
      refine FileTree.read_congr ?_
      rcases hgrown.get (resolve repo ++ rel) with heq | ⟨p, hp, hpre⟩
      · exact heq
      · obtain ⟨r, hr, rfl⟩ := List.mem_map.mp hp
        rw [List.prefix_append_right_inj] at hpre
        exact absurd hpre (not_prefix_of_done hsafeBefore hd₁
          ((writeEntry_done_iff sha256Hex content hrel).mp (congrArg Prod.snd hfirst)) hr
          fun heq => hbefore (heq ▸ hr))
    rw [hlast, hput, contentBytes_congr hhere fun src hash shim hcontent => ?_]
    exact FileTree.read_congr (get_outside hgrown hroot (hsrc src hash shim hcontent))
  · cases h

/-- Two entries that were both written are the same path, or apart. -/
theorem compatible_of_done (hsafe : ∀ rel ∈ Assoc.keys entries, Safe rel)
    (h : writeEntries sha256Hex repo d entries = (d', true)) :
    (Assoc.keys entries).Pairwise Compatible := by
  induction entries generalizing d with
  | nil => exact .nil
  | cons entry entries ih =>
      obtain ⟨rel, content⟩ := entry
      have hsafe' := fun r hr => hsafe r (List.mem_cons_of_mem _ hr)
      obtain ⟨d₁, hfirst, hrest⟩ := writeEntries_cons_done h
      have hwrote := writeEntry_wrote (hsafe rel List.mem_cons_self) hfirst
      refine List.pairwise_cons.mpr ⟨fun r hr => ?_, ih hsafe' hrest⟩
      by_cases hne : rel = r
      · exact .inl hne
      · exact .inr (apart_of_wrote hwrote (free_of_done hsafe' hrest r hr) hne)

/-- What is touched is on the way to an entry that was reached. -/
theorem touched_reached (hsafe : ∀ rel ∈ Assoc.keys entries, Safe rel)
    (h : writeEntries sha256Hex repo d entries = (d', done)) {q : List Str}
    (hq : q ∈ d'.touched) :
    q ∈ d.touched ∨ ∃ before rel content after d₁, entries = before ++ (rel, content) :: after ∧
      writeEntries sha256Hex repo d before = (d₁, true) ∧ d.tree.isDir q = false ∧
        q <+: resolve repo ++ rel := by
  induction entries generalizing d with
  | nil =>
      cases h
      exact .inl hq
  | cons entry entries ih =>
      obtain ⟨rel, content⟩ := entry
      have hrel := hsafe rel List.mem_cons_self
      have hsafe' := fun r hr => hsafe r (List.mem_cons_of_mem _ hr)
      have hhead {d₁ : Disk} {done : Bool}
          (hfirst : writeEntry sha256Hex repo d (rel, content) = (d₁, done))
          (hq : q ∈ d₁.touched) :
          q ∈ d.touched ∨ d.tree.isDir q = false ∧ q <+: resolve repo ++ rel := by
        refine ((writeEntry_grown hrel hfirst).touched q hq).imp_right ?_
        rintro ⟨hnew, p, hp, hpre⟩
        exact ⟨hnew, List.mem_singleton.mp hp ▸ hpre⟩
      rw [writeEntries] at h
      split at h
      · rename_i d₁ hfirst
        rcases ih hsafe' h with hq | ⟨before, r, c, after, d₂, rfl, hbefore, hnew, hpre⟩
        · refine (hhead hfirst hq).imp_right ?_
          rintro ⟨hnew, hpre⟩
          exact ⟨[], rel, content, entries, d, rfl, rfl, hnew, hpre⟩
        · refine .inr ⟨(rel, content) :: before, r, c, after, d₂, rfl, ?_,
            (writeEntry_grown hrel hfirst).not_isDir hnew, hpre⟩
          rw [writeEntries, hfirst]
          exact hbefore
      · rename_i d₁ hfirst
        cases h
        refine (hhead hfirst hq).imp_right ?_
        rintro ⟨hnew, hpre⟩
        exact ⟨[], rel, content, entries, d, rfl, rfl, hnew, hpre⟩

theorem writeEntries_copied {q : List Str}
    (h : writeEntries sha256Hex repo d entries = (d', done)) (hq : q ∈ d'.copied) :
    q ∈ d.copied ∨ ∃ rel src hash shim, (rel, .blobCopy src hash shim) ∈ entries ∧
      q = resolve src := by
  induction entries generalizing d with
  | nil =>
      cases h
      exact .inl hq
  | cons entry entries ih =>
      obtain ⟨rel, content⟩ := entry
      have hhead {d₁ : Disk} {done : Bool}
          (hfirst : writeEntry sha256Hex repo d (rel, content) = (d₁, done)) (hq : q ∈ d₁.copied) :
          q ∈ d.copied ∨ ∃ r src hash shim,
            (r, .blobCopy src hash shim) ∈ (rel, content) :: entries ∧ q = resolve src := by
        rcases writeEntry_copied hfirst hq with hq | ⟨src, hash, shim, rfl, hq⟩
        · exact .inl hq
        · exact .inr ⟨rel, src, hash, shim, List.mem_cons_self, hq⟩
      rw [writeEntries] at h
      split at h
      · rename_i d₁ hfirst
        rcases ih h with hq | ⟨r, src, hash, shim, hr, hq⟩
        · exact hhead hfirst hq
        · exact .inr ⟨r, src, hash, shim, List.mem_cons_of_mem _ hr, hq⟩
      · rename_i d₁ hfirst
        cases h
        exact hhead hfirst hq

end Entries

/-! ## The whole run -/

section Materialized

variable {sha256Hex : Bytes → Str} {repo : PathBuf} {d d' : Disk} {done : Bool}
  {entries : List (PathBuf × TreeContent)}

theorem mem_collectFiles {root : List Str} {present : List PathBuf}
    (h : collectFiles d root = some present) {rel : PathBuf} :
    rel ∈ present ↔ d.tree.isFile (root ++ rel) = true ∧ skipped d.tree root rel = false := by
  unfold collectFiles at h
  split at h
  · obtain rfl := Option.some.inj h
    rw [List.mem_filterMap]
    constructor
    · rintro ⟨p, -, hp⟩
      split at hp
      · rename_i hcond
        obtain rfl := Option.some.inj hp
        simp only [Bool.and_eq_true, List.isPrefixOf_iff_prefix, Bool.not_eq_true'] at hcond
        obtain ⟨⟨hfile, hpre⟩, hskip⟩ := hcond
        rw [List.prefix_iff_eq_append.mp hpre]
        exact ⟨hfile, hskip⟩
      · cases hp
    · rintro ⟨hfile, hskip⟩
      obtain ⟨bytes, hget⟩ := FileTree.isFile_iff.mp hfile
      refine ⟨root ++ rel, Assoc.get_isSome_iff.mp (Option.isSome_iff_exists.mpr ⟨_, hget⟩), ?_⟩
      rw [List.drop_left, if_pos]
      simp [hfile, hskip]
  · cases h

/-- What removing some files leaves. -/
theorem removeFiles_spec (repo : PathBuf) {rels : List PathBuf}
    (hnormal : ∀ rel ∈ rels, ∀ comp ∈ rel, Normal comp) (d : Disk) :
    let d' := rels.foldl (fun d rel => d.removeFile (join repo rel)) d
    (∀ q, d'.tree.get q =
      if (∃ rel ∈ rels, q = resolve repo ++ rel) ∧ d.tree.isFile q = true then none
      else d.tree.get q) ∧
    (∀ q ∈ d'.touched, q ∈ d.touched ∨ ∃ rel ∈ rels, q = resolve repo ++ rel) ∧
    (∀ q ∈ d.touched, q ∈ d'.touched) ∧ d'.copied = d.copied := by
  induction rels generalizing d with
  | nil => simp
  | cons rel rels ih =>
      dsimp only
      rw [List.foldl_cons]
      have hres : resolve (join repo rel) = resolve repo ++ rel :=
        resolve_join (hnormal rel List.mem_cons_self)
      obtain ⟨hget, htouched, hkept, hcopied⟩ :=
        ih (fun r hr => hnormal r (List.mem_cons_of_mem _ hr)) (d.removeFile (join repo rel))
      by_cases hfile : d.tree.isFile (resolve repo ++ rel) = true
      · have hone : d.removeFile (join repo rel) =
            { d with
              tree := d.tree.remove (resolve repo ++ rel)
              touched := (resolve repo ++ rel) :: d.touched } := by
          rw [Disk.removeFile, hres, if_pos hfile]
        have hremoved (q : List Str) : (d.removeFile (join repo rel)).tree.get q =
            if resolve repo ++ rel = q then none else d.tree.get q := by
          rw [hone]
          exact FileTree.get_remove _ _ _
        refine ⟨fun q => ?_, fun q hq => ?_, fun q hq => hkept q ?_, hcopied.trans (by rw [hone])⟩
        · rw [hget, hremoved]
          by_cases hq : resolve repo ++ rel = q
          · rw [if_pos hq, ite_self, if_pos]
            exact ⟨⟨rel, List.mem_cons_self, hq.symm⟩, hq ▸ hfile⟩
          · have hsame : (d.removeFile (join repo rel)).tree.isFile q = d.tree.isFile q := by
              rw [FileTree.isFile, FileTree.isFile, FileTree.read_congr]
              rw [hremoved, if_neg hq]
            have hmem : (∃ r ∈ rel :: rels, q = resolve repo ++ r) ↔
                ∃ r ∈ rels, q = resolve repo ++ r := by
              rw [List.exists_mem_cons_iff]
              exact or_iff_right fun heq => hq heq.symm
            rw [if_neg hq, hsame]
            simp only [hmem]
        · rcases htouched q hq with hq | ⟨r, hr, hq⟩
          · rw [hone] at hq
            rcases List.mem_cons.mp hq with hq | hq
            · exact .inr ⟨rel, List.mem_cons_self, hq⟩
            · exact .inl hq
          · exact .inr ⟨r, List.mem_cons_of_mem _ hr, hq⟩
        · rw [hone]
          exact List.mem_cons_of_mem _ hq
      · have hone : d.removeFile (join repo rel) = d := by
          rw [Disk.removeFile, hres, if_neg hfile]
        rw [hone] at hget htouched hkept hcopied ⊢
        refine ⟨fun q => ?_, fun q hq => ?_, hkept, hcopied⟩
        · rw [hget]
          have hmem : ((∃ r ∈ rel :: rels, q = resolve repo ++ r) ∧ d.tree.isFile q = true) ↔
              (∃ r ∈ rels, q = resolve repo ++ r) ∧ d.tree.isFile q = true := by
            rw [List.exists_mem_cons_iff, or_and_right]
            exact or_iff_right fun h => hfile (h.1 ▸ h.2)
          simp only [hmem]
        · rcases htouched q hq with hq | ⟨r, hr, hq⟩
          · exact .inl hq
          · exact .inr ⟨r, List.mem_cons_of_mem _ hr, hq⟩

/-- A run ends with an entry that fails, or prunes what is there after all were written. -/
theorem materializeTree_cases (hrepo : IsRepo d.tree repo)
    (hsafe : ∀ rel ∈ Assoc.keys entries, Safe rel)
    (h : materializeTree sha256Hex repo d entries = (d', done)) :
    (writeEntries sha256Hex repo d entries = (d', false) ∧ done = false) ∨
      ∃ written present, writeEntries sha256Hex repo d entries = (written, true) ∧
        collectFiles written (resolve repo) = some present ∧
        d' = prune repo (Assoc.keys entries) written present ∧ done = true := by
  unfold materializeTree at h
  split at h
  · rename_i d₁ heq
    cases h
    exact .inl ⟨heq, rfl⟩
  · rename_i written heq
    have hroot : written.tree.isDir (resolve repo) = true :=
      (writeEntries_grown hsafe heq).dirs _ (hrepo.dirs _ (List.prefix_append _ _))
    split at h
    · rename_i hnone
      rw [collectFiles, if_pos hroot] at hnone
      cases hnone
    · rename_i present hpresent
      cases h
      exact .inr ⟨written, present, heq, hpresent, rfl, rfl⟩

theorem IsRepo.normal_root (hrepo : IsRepo d.tree repo) : ∀ comp ∈ resolve repo, Normal comp := by
  refine hrepo.named _ ?_
  rw [FileTree.isDir_iff.mp (hrepo.dirs _ (List.prefix_append _ _))]
  exact nofun

theorem IsRepo.grown (hrepo : IsRepo d.tree repo)
    (hsafe : ∀ rel ∈ Assoc.keys entries, Safe rel)
    (hgrown : Grown (destinations repo entries) d d') : IsRepo d'.tree repo where
  named q hq comp hcomp := by
    rcases hgrown.get q with heq | ⟨p, hp, hpre⟩
    · exact hrepo.named q (heq ▸ hq) comp hcomp
    · obtain ⟨rel, hrel, rfl⟩ := List.mem_map.mp hp
      rcases List.mem_append.mp (hpre.subset hcomp) with h | h
      · exact hrepo.normal_root comp h
      · exact (hsafe rel hrel).normal comp h
  dirs q hq := hgrown.dirs q (hrepo.dirs q hq)

/-- The directory `.git` is passed by. -/
theorem skipped_iff (hrepo : IsRepo d.tree repo) {rel : PathBuf} :
    skipped d.tree (resolve repo) rel = true ↔ rel.head? = some gitDir := by
  simp [skipped, hrepo.dirs _ List.prefix_rfl]

theorem normal_of_present (hrepo : IsRepo d.tree repo) {present : List PathBuf}
    (hpresent : collectFiles d (resolve repo) = some present) {rel : PathBuf}
    (hrel : rel ∈ present) : ∀ comp ∈ rel, Normal comp := by
  obtain ⟨bytes, hget⟩ := FileTree.isFile_iff.mp ((mem_collectFiles hpresent).mp hrel).1
  have hnamed := hrepo.named (resolve repo ++ rel) (by rw [hget]; exact nofun)
  exact fun comp hcomp => hnamed comp (List.mem_append_right _ hcomp)

/-- The files that are pruned: all outside `.git` that are not desired. -/
theorem prune_spec (desired : List PathBuf) (hrepo : IsRepo d.tree repo) {present : List PathBuf}
    (hpresent : collectFiles d (resolve repo) = some present) :
    (∀ rel : PathBuf, (prune repo desired d present).tree.get (resolve repo ++ rel) =
      if rel ∉ desired ∧ rel.head? ≠ some gitDir ∧ d.tree.isFile (resolve repo ++ rel) = true
      then none else d.tree.get (resolve repo ++ rel)) ∧
    (∀ q, ¬resolve repo <+: q → (prune repo desired d present).tree.get q = d.tree.get q) ∧
    (∀ q ∈ (prune repo desired d present).touched, q ∈ d.touched ∨
      ∃ rel : PathBuf, rel.head? ≠ some gitDir ∧ q = resolve repo ++ rel ∧
        d.tree.isFile q = true) ∧
    (∀ q ∈ d.touched, q ∈ (prune repo desired d present).touched) ∧
    (prune repo desired d present).copied = d.copied := by
  have hnormal : ∀ rel ∈ present.filter (· ∉ desired), ∀ comp ∈ rel, Normal comp :=
    fun rel hrel => normal_of_present hrepo hpresent (List.mem_filter.mp hrel).1
  obtain ⟨hget, htouched, hkept, hcopied⟩ := removeFiles_spec repo hnormal d
  have hmem {rel : PathBuf} : rel ∈ present.filter (· ∉ desired) ↔
      rel ∉ desired ∧ rel.head? ≠ some gitDir ∧ d.tree.isFile (resolve repo ++ rel) = true := by
    rw [List.mem_filter, mem_collectFiles hpresent, ← Bool.not_eq_true, skipped_iff hrepo,
      decide_eq_true_eq]
    tauto
  refine ⟨fun rel => (hget _).trans (if_congr ?_ rfl rfl), fun q hq => ?_, fun q hq => ?_, hkept,
    hcopied⟩
  · constructor
    · rintro ⟨⟨r, hr, heq⟩, -⟩
      rw [List.append_cancel_left heq]
      exact hmem.mp hr
    · exact fun h => ⟨⟨rel, hmem.mpr h, rfl⟩, h.2.2⟩
  · refine (hget q).trans (if_neg ?_)
    rintro ⟨⟨r, -, rfl⟩, -⟩
    exact hq (List.prefix_append _ _)
  · refine (htouched q hq).imp_right ?_
    rintro ⟨r, hr, rfl⟩
    obtain ⟨-, hgit, hfile⟩ := hmem.mp hr
    exact ⟨r, hgit, rfl, hfile⟩

theorem IsRepo.pruned (hrepo : IsRepo d.tree repo) {present desired : List PathBuf}
    (hpresent : collectFiles d (resolve repo) = some present) :
    IsRepo (prune repo desired d present).tree repo := by
  obtain ⟨hbelow, houtside, -⟩ := prune_spec desired hrepo hpresent
  have hsub : ∀ q entry, (prune repo desired d present).tree.get q = some entry →
      d.tree.get q = some entry := by
    intro q entry hq
    by_cases hpre : resolve repo <+: q
    · obtain ⟨rel, rfl⟩ := hpre
      rw [hbelow] at hq
      split at hq
      · cases hq
      · exact hq
    · exact houtside q hpre ▸ hq
  refine ⟨fun p hp => ?_, fun q hq => ?_⟩
  · obtain ⟨entry, hentry⟩ := Option.ne_none_iff_exists'.mp hp
    exact hrepo.named p (by rw [hsub p entry hentry]; exact Option.some_ne_none _)
  · have hdir := FileTree.isDir_iff.mp (hrepo.dirs q hq)
    rw [FileTree.isDir_iff]
    by_cases hpre : resolve repo <+: q
    · obtain ⟨rel, rfl⟩ := hpre
      rw [hbelow, if_neg, hdir]
      rintro ⟨-, -, hfile⟩
      rw [FileTree.isFile_iff, hdir] at hfile
      obtain ⟨_, hfile⟩ := hfile
      cases hfile
    · rw [houtside q hpre, hdir]

theorem isRepo_of_run (hrepo : IsRepo d.tree repo)
    (hsafe : ∀ rel ∈ Assoc.keys entries, Safe rel)
    (h : materializeTree sha256Hex repo d entries = (d', done)) : IsRepo d'.tree repo := by
  rcases materializeTree_cases hrepo hsafe h with
    ⟨hwrite, -⟩ | ⟨written, present, hwrite, hpresent, rfl, -⟩
  · exact hrepo.grown hsafe (writeEntries_grown hsafe hwrite)
  · exact (hrepo.grown hsafe (writeEntries_grown hsafe hwrite)).pruned hpresent

theorem done_iff (hrepo : IsRepo d.tree repo)
    (hsafe : ∀ rel ∈ Assoc.keys entries, Safe rel)
    (h : materializeTree sha256Hex repo d entries = (d', done)) :
    done = true ↔ ∃ written, writeEntries sha256Hex repo d entries = (written, true) := by
  rcases materializeTree_cases hrepo hsafe h with
    ⟨hwrite, rfl⟩ | ⟨written, present, hwrite, -, -, rfl⟩
  · refine iff_of_false nofun ?_
    rintro ⟨written, hdone⟩
    rw [hwrite] at hdone
    cases hdone
  · exact iff_of_true rfl ⟨written, hwrite⟩

/-- After a run the files outside `.git` are the entries. -/
theorem isFile_of_run (hrepo : IsRepo d.tree repo)
    (hsafe : ∀ rel ∈ Assoc.keys entries, Safe rel)
    (h : materializeTree sha256Hex repo d entries = (d', true)) {rel : PathBuf}
    (hgit : rel.head? ≠ some gitDir) :
    d'.tree.isFile (resolve repo ++ rel) = true ↔ rel ∈ Assoc.keys entries := by
  rcases materializeTree_cases hrepo hsafe h with
    ⟨-, hdone⟩ | ⟨written, present, hwrite, hpresent, rfl, -⟩
  · cases hdone
  · have hgrown := writeEntries_grown hsafe hwrite
    obtain ⟨hget, -⟩ :=
      prune_spec (Assoc.keys entries) (hrepo.grown hsafe hgrown) hpresent
    rw [FileTree.isFile_iff, hget]
    constructor
    · intro ⟨bytes, hfile⟩
      split at hfile
      · cases hfile
      · rename_i hpruned
        by_contra hnot
        exact hpruned ⟨hnot, hgit, FileTree.isFile_iff.mpr ⟨bytes, hfile⟩⟩
    · intro hrel
      rw [if_neg fun hpruned => hpruned.1 hrel, ← FileTree.isFile_iff]
      exact (files_of_done hsafe hwrite rel hrel).1

/-- What a run leaves for an entry that no other entry has the path of. -/
theorem content_of_run {before after : List (PathBuf × TreeContent)} {rel : PathBuf}
    {content : TreeContent} (hrepo : IsRepo d.tree repo)
    (hsafe : ∀ r ∈ Assoc.keys (before ++ (rel, content) :: after), Safe r)
    (hsrc : ∀ src hash shim, content = .blobCopy src hash shim → ¬resolve repo <+: resolve src)
    (hbefore : rel ∉ Assoc.keys before) (hafter : rel ∉ Assoc.keys after)
    (h : materializeTree sha256Hex repo d (before ++ (rel, content) :: after) = (d', true)) :
    d'.tree.read (resolve repo ++ rel) =
      some (contentBytes sha256Hex d (join repo rel) content) := by
  rcases materializeTree_cases hrepo hsafe h with
    ⟨-, hdone⟩ | ⟨written, present, hwrite, hpresent, rfl, -⟩
  · cases hdone
  · obtain ⟨hget, -⟩ := prune_spec (Assoc.keys (before ++ (rel, content) :: after))
      (hrepo.grown hsafe (writeEntries_grown hsafe hwrite)) hpresent
    have hput := content_of_done hsafe
      (fun q hq => hrepo.dirs q (hq.trans (List.prefix_append _ _))) hsrc hbefore hafter hwrite
    rw [FileTree.read_eq_some_iff, hget, if_neg fun hpruned => hpruned.1 (by simp), hput]

/-- Everything a run touches is below the root: outside `.git`, or on the way to an entry that
was reached. -/
theorem touched_of_run (hrepo : IsRepo d.tree repo)
    (hsafe : ∀ rel ∈ Assoc.keys entries, Safe rel)
    (h : materializeTree sha256Hex repo d entries = (d', done)) {q : List Str}
    (hq : q ∈ d'.touched) :
    q ∈ d.touched ∨ ∃ rel : PathBuf, rel ≠ [] ∧ q = resolve repo ++ rel ∧
      (rel.head? ≠ some gitDir ∨ ∃ before r content after d₁,
        entries = before ++ (r, content) :: after ∧
        writeEntries sha256Hex repo d before = (d₁, true) ∧ d.tree.isDir q = false ∧
          rel <+: r) := by
  have hwritten {written : Disk} {ok : Bool}
      (hwrite : writeEntries sha256Hex repo d entries = (written, ok))
      (hq : q ∈ written.touched) :
      q ∈ d.touched ∨ ∃ rel : PathBuf, rel ≠ [] ∧ q = resolve repo ++ rel ∧
        (rel.head? ≠ some gitDir ∨ ∃ before r content after d₁,
          entries = before ++ (r, content) :: after ∧
          writeEntries sha256Hex repo d before = (d₁, true) ∧ d.tree.isDir q = false ∧
            rel <+: r) := by
    refine (touched_reached hsafe hwrite hq).imp_right ?_
    rintro ⟨before, r, content, after, d₁, hentries, hbefore, hnew, hpre⟩
    have hroot : ¬q <+: resolve repo := by
      intro habove
      rw [hrepo.dirs q (habove.trans (List.prefix_append _ _))] at hnew
      exact absurd hnew (by decide)
    rcases List.prefix_or_prefix_of_prefix hpre (List.prefix_append (resolve repo) r) with
      habove | ⟨rel, rfl⟩
    · exact absurd habove hroot
    · refine ⟨rel, fun hnil => hroot ?_, rfl, .inr ⟨before, r, content, after, d₁, hentries,
        hbefore, hnew, (List.prefix_append_right_inj _).mp hpre⟩⟩
      rw [hnil, List.append_nil]
  rcases materializeTree_cases hrepo hsafe h with
    ⟨hwrite, -⟩ | ⟨written, present, hwrite, hpresent, rfl, -⟩
  · exact hwritten hwrite hq
  · have hrepo' := hrepo.grown hsafe (writeEntries_grown hsafe hwrite)
    obtain ⟨-, -, htouched, -⟩ := prune_spec (Assoc.keys entries) hrepo' hpresent
    rcases htouched q hq with hq | ⟨rel, hgit, rfl, hfile⟩
    · exact hwritten hwrite hq
    · refine .inr ⟨rel, ?_, rfl, .inl hgit⟩
      rintro rfl
      -- the root is a directory
      have hdir := FileTree.isDir_iff.mp (hrepo'.dirs _ (List.prefix_append (resolve repo) _))
      rw [List.append_nil, FileTree.isFile_iff, hdir] at hfile
      obtain ⟨_, hfile⟩ := hfile
      cases hfile

/-- What the entries touched, the whole run has touched. -/
theorem kept_of_run (hrepo : IsRepo d.tree repo)
    (hsafe : ∀ rel ∈ Assoc.keys entries, Safe rel)
    (h : materializeTree sha256Hex repo d entries = (d', done)) {written : Disk} {ok : Bool}
    (hwritten : writeEntries sha256Hex repo d entries = (written, ok)) {q : List Str}
    (hq : q ∈ written.touched) : q ∈ d'.touched := by
  rcases materializeTree_cases hrepo hsafe h with
    ⟨hwrite, -⟩ | ⟨written', present, hwrite, hpresent, rfl, -⟩
  · cases hwritten.symm.trans hwrite
    exact hq
  · cases hwritten.symm.trans hwrite
    obtain ⟨-, -, -, hkept, -⟩ := prune_spec (Assoc.keys entries)
      (hrepo.grown hsafe (writeEntries_grown hsafe hwrite)) hpresent
    exact hkept q hq

theorem copied_of_run (hrepo : IsRepo d.tree repo)
    (hsafe : ∀ rel ∈ Assoc.keys entries, Safe rel)
    (h : materializeTree sha256Hex repo d entries = (d', done)) {q : List Str}
    (hq : q ∈ d'.copied) :
    q ∈ d.copied ∨ ∃ rel src hash shim, (rel, .blobCopy src hash shim) ∈ entries ∧
      q = resolve src := by
  rcases materializeTree_cases hrepo hsafe h with
    ⟨hwrite, -⟩ | ⟨written, present, hwrite, hpresent, rfl, -⟩
  · exact writeEntries_copied hwrite hq
  · obtain ⟨-, -, -, -, hcopied⟩ := prune_spec (Assoc.keys entries)
      (hrepo.grown hsafe (writeEntries_grown hsafe hwrite)) hpresent
    exact writeEntries_copied hwrite (hcopied ▸ hq)

end Materialized

end Realtime.Git
