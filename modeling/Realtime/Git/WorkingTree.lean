import Mathlib.Tactic
import Realtime.Lib.Encoding
import Realtime.Lib.FileTree

/-!
# The working tree

`materialize_tree` of `server/src/git.rs` writes the files of a commit into a repository, one
after the other, and then removes every file that is not among them. The first call that fails
ends the run, and what was done stays.

The disk is one tree of directories and files, with the paths a run has touched.
-/

namespace Realtime.Git

open Lib

/-! ## Paths -/

/-- A path, split at its slashes. One that begins with the empty component is absolute. -/
abbrev PathBuf := List Str

def dot : Str := ".".toList

def dotDot : Str := "..".toList

/-- An absolute path replaces the one it is joined to. -/
def join (p q : PathBuf) : PathBuf := if q.head? = some [] then q else p ++ q

def push (p : PathBuf) (s : Str) : PathBuf := join p (s.splitOn '/')

/-- A component that names an entry of a directory. -/
def Normal (comp : Str) : Prop := comp ≠ [] ∧ comp ≠ dot ∧ comp ≠ dotDot

instance (comp : Str) : Decidable (Normal comp) := inferInstanceAs (Decidable (_ ∧ _ ∧ _))

/-- Where the system gets to from `here`. -/
def enter (here : List Str) (comp : Str) : List Str :=
  if comp = [] ∨ comp = dot then here
  else if comp = dotDot then here.dropLast
  else here ++ [comp]

def resolve (p : PathBuf) : List Str := p.foldl enter []

/-- The components of a relative path that leads nowhere else. -/
def safeRelPath (path : Str) : Option PathBuf :=
  if path = [] ∨ '\\' ∈ path then none
  else
    (path.splitOn '/').foldlM (fun rel comp =>
      if comp = [] ∨ comp = dot ∨ comp = dotDot then none else some (push rel comp)) []

/-! ## The disk -/

structure Disk where
  tree : FileTree Str Bytes
  /-- What was created, overwritten or removed. -/
  touched : List (List Str)
  /-- The files that were copied. -/
  copied : List (List Str)

namespace Disk

def read (d : Disk) (p : PathBuf) : Option Bytes := d.tree.read (resolve p)

def createDirAll (d : Disk) (p : PathBuf) : Option Disk :=
  (d.tree.createDirAll (resolve p)).map fun tree =>
    { d with tree := tree, touched := d.tree.missing (resolve p) ++ d.touched }

def write (d : Disk) (p : PathBuf) (content : Bytes) : Option Disk :=
  (d.tree.write (resolve p) content).map fun tree =>
    { d with tree := tree, touched := resolve p :: d.touched }

/-- `std::fs::copy` -/
def copy (d : Disk) (src p : PathBuf) : Option Disk :=
  match d.read src with
  | none => none
  | some content =>
      (d.write p content).map fun d => { d with copied := resolve src :: d.copied }

/-- `remove_file`, whose failure is ignored. -/
def removeFile (d : Disk) (p : PathBuf) : Disk :=
  if d.tree.isFile (resolve p) then
    { d with tree := d.tree.remove (resolve p), touched := resolve p :: d.touched }
  else d

end Disk

/-! ## Materializing -/

inductive TreeContent where
  | text (content : Str)
  | blobCopy (src : PathBuf) (hash shim : Str)

section Materialize

variable (sha256Hex : Bytes → Str)

def fileSha256 (d : Disk) (full : PathBuf) : Option Str := (d.read full).map sha256Hex

/-- An attachment that is there already is left alone. Where its blob cannot be copied, the
shim is written. -/
def writeContent (full : PathBuf) (d : Disk) : TreeContent → Option Disk
  | .text content => d.write full (Str.toUtf8 content)
  | .blobCopy src hash shim =>
      if fileSha256 sha256Hex d full = some hash then some d
      else
        match d.copy src full with
        | some d => some d
        | none => d.write full (Str.toUtf8 shim)

/-- The disk after an entry was written, or after it failed. -/
def writeEntry (repo : PathBuf) (d : Disk) (entry : PathBuf × TreeContent) : Disk × Bool :=
  let full := join repo entry.1
  match d.createDirAll full.dropLast with
  | none => (d, false)
  | some made =>
      match writeContent sha256Hex full made entry.2 with
      | none => (made, false)
      | some written => (written, true)

def writeEntries (repo : PathBuf) (d : Disk) : List (PathBuf × TreeContent) → Disk × Bool
  | [] => (d, true)
  | entry :: rest =>
      match writeEntry sha256Hex repo d entry with
      | (d, true) => writeEntries repo d rest
      | (d, false) => (d, false)

def gitDir : Str := ".git".toList

/-- The walk passes by the directory `.git` of the root. -/
def skipped (tree : FileTree Str Bytes) (root rel : List Str) : Bool :=
  rel.head? = some gitDir && tree.isDir (root ++ [gitDir])

/-- Every file below `root`, by its path from there. -/
def collectFiles (d : Disk) (root : List Str) : Option (List PathBuf) :=
  if d.tree.isDir root then
    some ((Assoc.keys d.tree).filterMap fun p =>
      if d.tree.isFile p && root.isPrefixOf p && !skipped d.tree root (p.drop root.length) then
        some (p.drop root.length)
      else none)
  else none

/-- Remove every file that is not `desired`. -/
def prune (repo : PathBuf) (desired : List PathBuf) (d : Disk) (present : List PathBuf) : Disk :=
  (present.filter (· ∉ desired)).foldl (fun d rel => d.removeFile (join repo rel)) d

/-- `materialize_tree`: the files are written, then every other one is removed. -/
def materializeTree (repo : PathBuf) (d : Disk) (entries : List (PathBuf × TreeContent)) :
    Disk × Bool :=
  match writeEntries sha256Hex repo d entries with
  | (d, false) => (d, false)
  | (d, true) =>
      match collectFiles d (resolve repo) with
      | none => (d, false)
      | some present => (prune repo (Assoc.keys entries) d present, true)

end Materialize

/-! ## Safe paths -/

structure Safe (rel : PathBuf) : Prop where
  ne_nil : rel ≠ []
  normal : ∀ comp ∈ rel, Normal comp

theorem enter_of_normal {here : List Str} {comp : Str} (h : Normal comp) :
    enter here comp = here ++ [comp] := by
  obtain ⟨hne, hdot, hdotDot⟩ := h
  simp [enter, hne, hdot, hdotDot]

theorem resolve_append {p q : PathBuf} (h : ∀ comp ∈ q, Normal comp) :
    resolve (p ++ q) = resolve p ++ q := by
  induction q using List.reverseRecOn with
  | nil => simp
  | append_singleton q comp ih =>
      have hq := ih fun c hc => h c (List.mem_append_left _ hc)
      rw [← List.append_assoc, resolve, List.foldl_append, ← resolve, hq, List.foldl_cons,
        List.foldl_nil, enter_of_normal (h comp (by simp)), List.append_assoc]

theorem join_of_normal {p q : PathBuf} (h : ∀ comp ∈ q, Normal comp) : join p q = p ++ q := by
  rw [join, if_neg]
  intro hhead
  exact (h [] (List.mem_of_head? hhead)).1 rfl

theorem resolve_join {p q : PathBuf} (h : ∀ comp ∈ q, Normal comp) :
    resolve (join p q) = resolve p ++ q := by
  rw [join_of_normal h, resolve_append h]

theorem Safe.resolve_parent {rel : PathBuf} (h : Safe rel) (repo : PathBuf) :
    resolve (join repo rel).dropLast = (resolve repo ++ rel).dropLast := by
  rw [join_of_normal h.normal, List.dropLast_append_of_ne_nil h.ne_nil,
    List.dropLast_append_of_ne_nil h.ne_nil, resolve_append]
  exact fun comp hcomp => h.normal comp (List.mem_of_mem_dropLast hcomp)

theorem push_of_normal {p : PathBuf} {comp : Str} (h : Normal comp) (hslash : '/' ∉ comp) :
    push p comp = p ++ [comp] := by
  rw [push, List.splitOn_eq_singleton hslash, join_of_normal]
  intro c hc
  rwa [List.mem_singleton.mp hc]

theorem safeRelPath_eq_some {path : Str} {rel : PathBuf} (h : safeRelPath path = some rel) :
    Safe rel ∧ rel = path.splitOn '/' := by
  have hfold : ∀ (comps : List Str) (base : PathBuf), (∀ comp ∈ comps, '/' ∉ comp) →
      comps.foldlM (fun rel comp =>
        if comp = [] ∨ comp = dot ∨ comp = dotDot then none else some (push rel comp)) base =
          some rel → (∀ comp ∈ comps, Normal comp) ∧ rel = base ++ comps := by
    intro comps
    induction comps with
    | nil =>
        intro base _ hbase
        rw [Option.some.inj hbase, List.append_nil]
        exact ⟨by simp, rfl⟩
    | cons comp comps ih =>
        intro base hslash hrel
        rw [List.foldlM_cons] at hrel
        split at hrel
        · cases hrel
        · rename_i hnormal
          have hcomp : Normal comp := by
            rw [not_or, not_or] at hnormal
            exact hnormal
          rw [push_of_normal hcomp (hslash comp List.mem_cons_self)] at hrel
          obtain ⟨hall, rfl⟩ := ih _ (fun c hc => hslash c (List.mem_cons_of_mem _ hc)) hrel
          exact ⟨List.forall_mem_cons.mpr ⟨hcomp, hall⟩, by simp⟩
  unfold safeRelPath at h
  split at h
  · cases h
  · obtain ⟨hall, rfl⟩ := hfold _ [] (fun comp hcomp => Str.not_mem_of_mem_splitOn hcomp) h
    exact ⟨⟨List.splitOn_ne_nil _ _, hall⟩, rfl⟩

/-! ## One entry -/

section Entry

variable {sha256Hex : Bytes → Str} {full : PathBuf} {content : TreeContent} {d d' : Disk}

/-- The bytes that are found where `content` was written: an attachment that was there, or
else its blob, or its shim. -/
def contentBytes (sha256Hex : Bytes → Str) (d : Disk) (full : PathBuf) : TreeContent → Bytes
  | .text content => Str.toUtf8 content
  | .blobCopy src hash shim =>
      match d.read full with
      | none => (d.read src).getD (Str.toUtf8 shim)
      | some bytes =>
          if sha256Hex bytes = hash then bytes else (d.read src).getD (Str.toUtf8 shim)

theorem contentBytes_of_same {src : PathBuf} {hash shim : Str}
    (h : fileSha256 sha256Hex d full = some hash) :
    d.read full = some (contentBytes sha256Hex d full (.blobCopy src hash shim)) := by
  obtain ⟨bytes, hread, hhash⟩ := Option.map_eq_some_iff.mp h
  rw [contentBytes, hread]
  dsimp only
  rw [if_pos hhash]

theorem contentBytes_of_other {src : PathBuf} {hash shim : Str}
    (h : fileSha256 sha256Hex d full ≠ some hash) :
    contentBytes sha256Hex d full (.blobCopy src hash shim) =
      (d.read src).getD (Str.toUtf8 shim) := by
  rw [contentBytes]
  split
  · rfl
  · rename_i bytes hread
    rw [if_neg fun hhash => h ?_]
    rw [fileSha256, hread, Option.map_some, hhash]

/-- An attachment's bytes depend on its file and its blob. -/
theorem contentBytes_congr {d₁ : Disk} (hfull : d₁.read full = d.read full)
    (hread : ∀ src hash shim, content = .blobCopy src hash shim → d₁.read src = d.read src) :
    contentBytes sha256Hex d₁ full content = contentBytes sha256Hex d full content := by
  cases content with
  | text content => rfl
  | blobCopy src hash shim =>
      rw [contentBytes, contentBytes, hfull, hread src hash shim rfl]

/-- The disk after a file was put at `p`: there is the file, the rest is as before. -/
structure Put (d : Disk) (p : List Str) (bytes : Bytes) (d' : Disk) : Prop where
  here : d.tree.isDir p = false
  get : ∀ q, d'.tree.get q = if p = q then some (.file bytes) else d.tree.get q
  touched : ∀ q ∈ d'.touched, q = p ∨ q ∈ d.touched
  kept : ∀ q ∈ d.touched, q ∈ d'.touched
  /-- Where there was no file, one was made. -/
  made : d.tree.isFile p = false → p ∈ d'.touched

theorem write_eq_some {bytes : Bytes} (h : d.write full bytes = some d') :
    Put d (resolve full) bytes d' ∧ d'.copied = d.copied := by
  obtain ⟨tree, htree, rfl⟩ := Option.map_eq_some_iff.mp h
  obtain ⟨⟨-, hdir, -⟩, -⟩ := FileTree.write_eq_some_iff.mp htree
  refine ⟨⟨hdir, fun q => FileTree.get_write htree q, fun q hq => List.mem_cons.mp hq,
    fun q hq => ?_, fun _ => List.mem_cons_self⟩, rfl⟩
  exact List.mem_cons_of_mem _ hq

theorem write_isSome_iff (hne : resolve full ≠ [])
    (hparent : d.tree.isDir (resolve full).dropLast = true) (bytes : Bytes) :
    (d.write full bytes).isSome ↔ d.tree.isDir (resolve full) = false := by
  rw [Disk.write, Option.isSome_map, FileTree.write]
  simp [hne, hparent]

theorem writeContent_eq_some (h : writeContent sha256Hex full d content = some d') :
    Put d (resolve full) (contentBytes sha256Hex d full content) d' ∧
      ∀ q ∈ d'.copied, q ∈ d.copied ∨
        ∃ src hash shim, content = .blobCopy src hash shim ∧ q = resolve src := by
  cases content with
  | text content =>
      obtain ⟨hput, hcopied⟩ := write_eq_some h
      exact ⟨hput, fun q hq => .inl (hcopied ▸ hq)⟩
  | blobCopy src hash shim =>
      rw [writeContent] at h
      split at h
      · rename_i hsame
        -- the file is there
        obtain rfl := Option.some.inj h
        have hread : d.tree.read (resolve full) =
            some (contentBytes sha256Hex d full (.blobCopy src hash shim)) :=
          contentBytes_of_same hsame
        have hget := FileTree.read_eq_some_iff.mp hread
        refine ⟨⟨?_, fun q => ?_, fun q hq => .inr hq, fun q hq => hq, ?_⟩, fun q hq => .inl hq⟩
        · rw [Bool.eq_false_iff]
          intro hdir
          rw [FileTree.isDir_iff, hget] at hdir
          cases hdir
        · split
          · rename_i heq
            rw [← heq, hget]
          · rfl
        · intro hnone
          rw [FileTree.isFile, hread] at hnone
          cases hnone
      · rename_i hother
        rw [contentBytes_of_other hother]
        split at h
        · rename_i d₁ hcopy
          obtain rfl := Option.some.inj h
          unfold Disk.copy at hcopy
          split at hcopy
          · cases hcopy
          · rename_i bytes hread
            obtain ⟨d₂, hwrite, rfl⟩ := Option.map_eq_some_iff.mp hcopy
            obtain ⟨hput, hcopied⟩ := write_eq_some hwrite
            rw [hread]
            refine ⟨⟨hput.here, hput.get, hput.touched, hput.kept, hput.made⟩, ?_⟩
            intro q hq
            rcases List.mem_cons.mp hq with rfl | hq
            · exact .inr ⟨src, hash, shim, rfl, rfl⟩
            · exact .inl (hcopied ▸ hq)
        · rename_i hcopy
          obtain ⟨hput, hcopied⟩ := write_eq_some h
          unfold Disk.copy at hcopy
          split at hcopy
          · rename_i hread
            rw [hread]
            exact ⟨hput, fun q hq => .inl (hcopied ▸ hq)⟩
          · rename_i bytes hread
            -- what refuses the copy refuses the shim
            rw [Option.map_eq_none_iff, Disk.write, Option.map_eq_none_iff] at hcopy
            obtain ⟨tree, htree, -⟩ := Option.map_eq_some_iff.mp h
            obtain ⟨hallowed, -⟩ := FileTree.write_eq_some_iff.mp htree
            rw [FileTree.write_eq_some_iff.mpr ⟨hallowed, rfl⟩] at hcopy
            cases hcopy

theorem writeContent_isSome_iff (hne : resolve full ≠ [])
    (hparent : d.tree.isDir (resolve full).dropLast = true) :
    (writeContent sha256Hex full d content).isSome ↔ d.tree.isDir (resolve full) = false := by
  cases content with
  | text content => exact write_isSome_iff hne hparent _
  | blobCopy src hash shim =>
      rw [writeContent]
      split
      · rename_i hsame
        refine iff_of_true rfl (Bool.eq_false_iff.mpr fun hdir => ?_)
        obtain ⟨bytes, hread, -⟩ := Option.map_eq_some_iff.mp hsame
        rw [FileTree.isDir_iff, FileTree.read_eq_some_iff.mp hread] at hdir
        cases hdir
      · split
        · rename_i d₁ hcopy
          refine iff_of_true rfl ?_
          unfold Disk.copy at hcopy
          split at hcopy
          · cases hcopy
          · obtain ⟨d₂, hwrite, -⟩ := Option.map_eq_some_iff.mp hcopy
            exact (write_isSome_iff hne hparent _).mp (Option.isSome_iff_exists.mpr ⟨d₂, hwrite⟩)
        · exact write_isSome_iff hne hparent _

end Entry

/-! ## What a run leaves alone -/

/-- From `d` to `d'` files and directories were made on the way to some of `paths`, and
nothing was removed. -/
structure Grown (paths : List (List Str)) (d d' : Disk) : Prop where
  get : ∀ q, d'.tree.get q = d.tree.get q ∨ ∃ p ∈ paths, q <+: p
  dirs : ∀ q, d.tree.isDir q = true → d'.tree.isDir q = true
  files : ∀ q, d.tree.isFile q = true → d'.tree.isFile q = true
  touched : ∀ q ∈ d'.touched, q ∈ d.touched ∨
    (d.tree.isDir q = false ∧ ∃ p ∈ paths, q <+: p)
  kept : ∀ q ∈ d.touched, q ∈ d'.touched

namespace Grown

variable {paths paths₁ paths₂ : List (List Str)} {d d₁ d₂ : Disk}

theorem refl (paths : List (List Str)) (d : Disk) : Grown paths d d where
  get _ := .inl rfl
  dirs _ h := h
  files _ h := h
  touched _ h := .inl h
  kept _ h := h

theorem not_isDir (h : Grown paths d d₁) {q : List Str} (hq : d₁.tree.isDir q = false) :
    d.tree.isDir q = false := by
  rw [Bool.eq_false_iff]
  intro hdir
  exact absurd (h.dirs q hdir) (by simp [hq])

theorem trans (h₁ : Grown paths₁ d d₁) (h₂ : Grown paths₂ d₁ d₂) :
    Grown (paths₁ ++ paths₂) d d₂ where
  get q := by
    rcases h₁.get q with heq₁ | ⟨p, hp, hpre⟩
    · rcases h₂.get q with heq₂ | ⟨p, hp, hpre⟩
      · exact .inl (heq₂.trans heq₁)
      · exact .inr ⟨p, List.mem_append_right _ hp, hpre⟩
    · exact .inr ⟨p, List.mem_append_left _ hp, hpre⟩
  dirs q h := h₂.dirs q (h₁.dirs q h)
  files q h := h₂.files q (h₁.files q h)
  touched q hq := by
    rcases h₂.touched q hq with hq | ⟨hnew, p, hp, hpre⟩
    · rcases h₁.touched q hq with hq | ⟨hnew, p, hp, hpre⟩
      · exact .inl hq
      · exact .inr ⟨hnew, p, List.mem_append_left _ hp, hpre⟩
    · exact .inr ⟨h₁.not_isDir hnew, p, List.mem_append_right _ hp, hpre⟩
  kept q h := h₂.kept q (h₁.kept q h)

theorem mono (h : Grown paths d d₁) (hsub : ∀ p ∈ paths, p ∈ paths₁) : Grown paths₁ d d₁ where
  get q := (h.get q).imp_right fun ⟨p, hp, hpre⟩ => ⟨p, hsub p hp, hpre⟩
  dirs := h.dirs
  files := h.files
  touched q hq := (h.touched q hq).imp_right fun ⟨hnew, p, hp, hpre⟩ =>
    ⟨hnew, p, hsub p hp, hpre⟩
  kept := h.kept

/-- What is free in the end was free in the beginning. -/
theorem free (h : Grown paths d d₁) {p : List Str} (hfree : d₁.tree.Free p) : d.tree.Free p where
  above q hq := by
    rw [Bool.eq_false_iff]
    intro hfile
    exact absurd (h.files q hfile) (by simp [hfree.above q hq])
  here := h.not_isDir hfree.here

end Grown

section Entry

variable {sha256Hex : Bytes → Str} {repo rel : PathBuf} {content : TreeContent}
  {d d' : Disk} {done : Bool}

theorem createDirAll_eq_some {p : PathBuf} (h : d.createDirAll p = some d') :
    d.tree.createDirAll (resolve p) = some d'.tree ∧
      d'.touched = d.tree.missing (resolve p) ++ d.touched ∧ d'.copied = d.copied := by
  obtain ⟨tree, htree, rfl⟩ := Option.map_eq_some_iff.mp h
  exact ⟨htree, rfl, rfl⟩

theorem grown_createDirAll {p : PathBuf} {below : List Str} (hbelow : resolve p <+: below)
    (h : d.createDirAll p = some d') : Grown [below] d d' := by
  obtain ⟨htree, htouched, -⟩ := createDirAll_eq_some h
  have hget := FileTree.get_createDirAll htree
  have hfree := FileTree.createDirAll_isSome_iff.mp (Option.isSome_iff_exists.mpr ⟨_, htree⟩)
  refine ⟨fun q => ?_, fun q hq => ?_, fun q hq => ?_, fun q hq => ?_, fun q hq => ?_⟩
  · by_cases hpre : q <+: resolve p
    · exact .inr ⟨_, List.mem_singleton_self _, hpre.trans hbelow⟩
    · rw [hget, if_neg hpre]
      exact .inl rfl
  · rw [FileTree.isDir_iff] at hq ⊢
    rw [hget, hq, ite_self]
  · have hno : ¬q <+: resolve p := fun hpre => by simp [hfree q hpre] at hq
    rw [FileTree.isFile_iff, hget, if_neg hno]
    exact FileTree.isFile_iff.mp hq
  · rw [htouched, List.mem_append] at hq
    refine hq.symm.imp_right fun hq => ?_
    rw [FileTree.missing, List.mem_filter, List.mem_inits, Option.isNone_iff_eq_none] at hq
    refine ⟨?_, _, List.mem_singleton_self _, hq.1.trans hbelow⟩
    rw [FileTree.isDir, hq.2]
  · rw [htouched]
    exact List.mem_append_right _ hq

theorem Put.grown {p : List Str} {bytes : Bytes} (h : Put d p bytes d') :
    Grown [p] d d' where
  get q := by
    by_cases hq : p = q
    · exact .inr ⟨p, List.mem_singleton_self p, hq ▸ List.prefix_rfl⟩
    · rw [h.get, if_neg hq]
      exact .inl rfl
  dirs q hq := by
    rw [FileTree.isDir_congr (h.get q |>.trans (if_neg ?_))]
    · exact hq
    · rintro rfl
      exact absurd hq (by simp [h.here])
  files q hq := by
    rw [FileTree.isFile_iff, h.get]
    split
    · exact ⟨bytes, rfl⟩
    · exact FileTree.isFile_iff.mp hq
  touched q hq := by
    rcases h.touched q hq with rfl | hq
    · exact .inr ⟨h.here, q, List.mem_singleton_self q, List.prefix_rfl⟩
    · exact .inl hq
  kept := h.kept

/-- The disk after an entry was written at `p`. -/
structure Wrote (d : Disk) (p : List Str) (bytes : Bytes) (d' : Disk) : Prop where
  get : ∀ q, d'.tree.get q =
    if p = q then some (.file bytes) else if q <+: p.dropLast then some .dir else d.tree.get q
  made : d.tree.isFile p = false → p ∈ d'.touched

/-- The disk after the directories for `full` were made, and what is written there. -/
theorem writeEntry_cases (sha256Hex : Bytes → Str) (repo : PathBuf) (d : Disk)
    (entry : PathBuf × TreeContent) :
    (d.createDirAll (join repo entry.1).dropLast = none ∧
      writeEntry sha256Hex repo d entry = (d, false)) ∨
    ∃ made, d.createDirAll (join repo entry.1).dropLast = some made ∧
      ((writeContent sha256Hex (join repo entry.1) made entry.2 = none ∧
          writeEntry sha256Hex repo d entry = (made, false)) ∨
        ∃ written, writeContent sha256Hex (join repo entry.1) made entry.2 = some written ∧
          writeEntry sha256Hex repo d entry = (written, true)) := by
  unfold writeEntry
  dsimp only
  cases hmade : d.createDirAll (join repo entry.1).dropLast with
  | none => exact .inl ⟨rfl, rfl⟩
  | some made =>
      refine .inr ⟨made, rfl, ?_⟩
      dsimp only
      cases hwritten : writeContent sha256Hex (join repo entry.1) made entry.2 with
      | none => exact .inl ⟨rfl, rfl⟩
      | some written => exact .inr ⟨written, rfl, rfl⟩

theorem root_append_ne_nil (hsafe : Safe rel) (root : List Str) : root ++ rel ≠ [] :=
  List.append_ne_nil_of_right_ne_nil root hsafe.ne_nil

/-- After the directories were made, the file can be put there unless a directory is. -/
theorem writeContent_made (sha256Hex : Bytes → Str) (content : TreeContent) (hsafe : Safe rel)
    {made : Disk} (hmade : d.createDirAll (join repo rel).dropLast = some made) :
    (writeContent sha256Hex (join repo rel) made content).isSome ↔
      d.tree.isDir (resolve repo ++ rel) = false := by
  obtain ⟨htree, -, -⟩ := createDirAll_eq_some hmade
  rw [hsafe.resolve_parent] at htree
  have hget := FileTree.get_createDirAll htree
  have hne := root_append_ne_nil hsafe (resolve repo)
  have hresolve := resolve_join (p := repo) hsafe.normal
  rw [writeContent_isSome_iff, hresolve, FileTree.isDir_congr]
  · rw [hget, if_neg (not_prefix_dropLast hne)]
  · rwa [hresolve]
  · rw [hresolve, FileTree.isDir_iff, hget, if_pos List.prefix_rfl]

theorem writeEntry_done_iff (sha256Hex : Bytes → Str) (content : TreeContent)
    (hsafe : Safe rel) :
    (writeEntry sha256Hex repo d (rel, content)).2 = true ↔
      d.tree.Free (resolve repo ++ rel) := by
  have habove : (d.createDirAll (join repo rel).dropLast).isSome ↔
      ∀ q, q <+: (resolve repo ++ rel).dropLast → d.tree.isFile q = false := by
    rw [Disk.createDirAll, Option.isSome_map, hsafe.resolve_parent]
    exact FileTree.createDirAll_isSome_iff
  rcases writeEntry_cases sha256Hex repo d (rel, content) with
    ⟨hnone, heq⟩ | ⟨made, hmade, ⟨hnone, heq⟩ | ⟨written, hwritten, heq⟩⟩
  · rw [heq]
    refine iff_of_false nofun fun hfree => ?_
    have hsome := habove.mpr hfree.above
    rw [hnone] at hsome
    cases hsome
  · rw [heq]
    refine iff_of_false nofun fun hfree => ?_
    have hsome := (writeContent_made sha256Hex content hsafe hmade).mpr hfree.here
    rw [hnone] at hsome
    cases hsome
  · rw [heq]
    refine iff_of_true rfl ⟨habove.mp (Option.isSome_iff_exists.mpr ⟨made, hmade⟩), ?_⟩
    exact (writeContent_made sha256Hex content hsafe hmade).mp
      (Option.isSome_iff_exists.mpr ⟨written, hwritten⟩)

theorem writeEntry_grown (hsafe : Safe rel)
    (h : writeEntry sha256Hex repo d (rel, content) = (d', done)) :
    Grown [resolve repo ++ rel] d d' := by
  have hparent : resolve (join repo rel).dropLast <+: resolve repo ++ rel := by
    rw [hsafe.resolve_parent]
    exact List.dropLast_prefix _
  rcases writeEntry_cases sha256Hex repo d (rel, content) with
    ⟨hnone, heq⟩ | ⟨made, hmade, ⟨hnone, heq⟩ | ⟨written, hwritten, heq⟩⟩
  · cases heq.symm.trans h
    exact .refl _ _
  · cases heq.symm.trans h
    exact grown_createDirAll hparent hmade
  · cases heq.symm.trans h
    obtain ⟨hput, -⟩ := writeContent_eq_some hwritten
    rw [resolve_join hsafe.normal] at hput
    exact ((grown_createDirAll hparent hmade).trans hput.grown).mono (by simp)

/-- Making directories changes no file. -/
theorem read_made {made : Disk} {p : PathBuf} (hmade : d.createDirAll p = some made)
    (src : PathBuf) : made.read src = d.read src := by
  obtain ⟨htree, -, -⟩ := createDirAll_eq_some hmade
  have hfree := FileTree.createDirAll_isSome_iff.mp (Option.isSome_iff_exists.mpr ⟨_, htree⟩)
  have hget := FileTree.get_createDirAll htree (resolve src)
  by_cases hpre : resolve src <+: resolve p
  · have hno := hfree _ hpre
    rw [FileTree.isFile, Option.isSome_eq_false_iff, Option.isNone_iff_eq_none] at hno
    rw [if_pos hpre] at hget
    rw [Disk.read, Disk.read, hno, FileTree.read, hget]
  · exact FileTree.read_congr (by rw [hget, if_neg hpre])

theorem writeEntry_wrote (hsafe : Safe rel)
    (h : writeEntry sha256Hex repo d (rel, content) = (d', true)) :
    Wrote d (resolve repo ++ rel) (contentBytes sha256Hex d (join repo rel) content) d' := by
  rcases writeEntry_cases sha256Hex repo d (rel, content) with
    ⟨hnone, heq⟩ | ⟨made, hmade, ⟨hnone, heq⟩ | ⟨written, hwritten, heq⟩⟩
  · rw [heq] at h
    cases h
  · rw [heq] at h
    cases h
  · rw [heq] at h
    cases h
    obtain ⟨hput, -⟩ := writeContent_eq_some hwritten
    obtain ⟨htree, -, -⟩ := createDirAll_eq_some hmade
    rw [hsafe.resolve_parent] at htree
    dsimp only at hput
    rw [resolve_join hsafe.normal, contentBytes_congr (read_made hmade _)
      fun src _ _ _ => read_made hmade src] at hput
    have hmadeGet := FileTree.get_createDirAll htree
    refine ⟨fun q => ?_, fun hno => hput.made ?_⟩
    · rw [hput.get, hmadeGet]
    · rw [← hno, FileTree.isFile, FileTree.isFile, FileTree.read_congr]
      rw [hmadeGet, if_neg (not_prefix_dropLast (root_append_ne_nil hsafe _))]

theorem writeEntry_copied {q : List Str}
    (h : writeEntry sha256Hex repo d (rel, content) = (d', done)) (hq : q ∈ d'.copied) :
    q ∈ d.copied ∨ ∃ src hash shim, content = .blobCopy src hash shim ∧ q = resolve src := by
  rcases writeEntry_cases sha256Hex repo d (rel, content) with
    ⟨hnone, heq⟩ | ⟨made, hmade, ⟨hnone, heq⟩ | ⟨written, hwritten, heq⟩⟩
  · cases heq.symm.trans h
    exact .inl hq
  · cases heq.symm.trans h
    obtain ⟨-, -, hcopied⟩ := createDirAll_eq_some hmade
    exact .inl (hcopied ▸ hq)
  · cases heq.symm.trans h
    obtain ⟨-, -, hcopied⟩ := createDirAll_eq_some hmade
    rw [← hcopied]
    exact (writeContent_eq_some hwritten).2 q hq

end Entry

end Realtime.Git
