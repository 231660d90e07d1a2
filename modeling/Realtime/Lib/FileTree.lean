import Mathlib.Tactic
import Realtime.Lib.Assoc

/-!
# Directories and files

A tree of directories and files as the table of its paths, with the calls that make
directories, write files and remove them. A call fails where the file system would refuse it:
below a file, or where a directory is to be written as a file.
-/

namespace Lib

theorem not_prefix_dropLast {α : Type*} {l : List α} (hne : l ≠ []) : ¬l <+: l.dropLast := by
  intro h
  have hle := h.length_le
  have hpos := List.length_pos_iff.mpr hne
  rw [List.length_dropLast] at hle
  omega

theorem prefix_dropLast_of_ne {α : Type*} {p q : List α} (h : p <+: q) (hne : p ≠ q) :
    p <+: q.dropLast := by
  obtain ⟨rest, rfl⟩ := h
  have hrest : rest ≠ [] := by
    rintro rfl
    exact hne (List.append_nil p).symm
  rw [List.dropLast_append_of_ne_nil hrest]
  exact List.prefix_append _ _

variable {N B : Type*} [DecidableEq N]

inductive Entry (B : Type*) where
  | dir
  | file (content : B)

/-- Paths are from the root on. -/
abbrev FileTree (N B : Type*) := List (List N × Entry B)

namespace FileTree

def get (t : FileTree N B) (p : List N) : Option (Entry B) := Assoc.get p t

def isDir (t : FileTree N B) (p : List N) : Bool :=
  match t.get p with
  | some .dir => true
  | _ => false

def read (t : FileTree N B) (p : List N) : Option B :=
  match t.get p with
  | some (.file content) => some content
  | _ => none

def isFile (t : FileTree N B) (p : List N) : Bool := (t.read p).isSome

/-- The directories that have to be made for `p`. -/
def missing (t : FileTree N B) (p : List N) : List (List N) :=
  p.inits.filter fun q => (t.get q).isNone

def addDirs (t : FileTree N B) (ps : List (List N)) : FileTree N B :=
  ps.foldl (fun t q => Assoc.set q .dir t) t

/-- `mkdir -p` -/
def createDirAll (t : FileTree N B) (p : List N) : Option (FileTree N B) :=
  if p.inits.any t.isFile then none else some (t.addDirs (t.missing p))

/-- Create or replace a file in a directory that exists. -/
def write (t : FileTree N B) (p : List N) (content : B) : Option (FileTree N B) :=
  if p = [] ∨ t.isDir p ∨ !t.isDir p.dropLast then none
  else some (Assoc.set p (.file content) t)

def remove (t : FileTree N B) (p : List N) : FileTree N B := Assoc.erase p t

/-- A file may be put at `p`: nothing on the way is a file, and `p` is no directory. -/
structure Free (t : FileTree N B) (p : List N) : Prop where
  above : ∀ q, q <+: p.dropLast → t.isFile q = false
  here : t.isDir p = false

variable {t t' : FileTree N B} {p q : List N} {content : B}

theorem read_eq_some_iff : t.read p = some content ↔ t.get p = some (.file content) := by
  unfold read
  split <;> simp_all

theorem isDir_iff : t.isDir p = true ↔ t.get p = some .dir := by
  unfold isDir
  split <;> simp_all

theorem isFile_iff : t.isFile p = true ↔ ∃ content, t.get p = some (.file content) := by
  rw [isFile, Option.isSome_iff_exists]
  simp only [read_eq_some_iff]

/-- Where neither table has a file, or both have the same. -/
theorem read_congr (h : t'.get p = t.get p) : t'.read p = t.read p := by
  unfold read
  rw [h]

theorem isDir_congr (h : t'.get p = t.get p) : t'.isDir p = t.isDir p := by
  unfold isDir
  rw [h]

theorem get_addDirs (ps : List (List N)) (t : FileTree N B) :
    (t.addDirs ps).get q = if q ∈ ps then some .dir else t.get q := by
  induction ps generalizing t with
  | nil => rfl
  | cons p ps ih =>
      rw [addDirs, List.foldl_cons, ← addDirs, ih]
      by_cases hq : q ∈ ps
      · rw [if_pos hq, if_pos (List.mem_cons_of_mem p hq)]
      · rw [if_neg hq, get, Assoc.get_set]
        by_cases hp : p = q
        · rw [if_pos hp, if_pos (hp ▸ List.mem_cons_self)]
        · rw [if_neg hp, if_neg]
          · rfl
          · exact fun hmem => (List.mem_cons.mp hmem).elim (fun heq => hp heq.symm) hq

theorem createDirAll_isSome_iff :
    (t.createDirAll p).isSome ↔ ∀ q, q <+: p → t.isFile q = false := by
  unfold createDirAll
  split
  · rename_i hany
    obtain ⟨q, hq, hfile⟩ := List.any_eq_true.mp hany
    refine iff_of_false nofun fun h => ?_
    rw [h q ((List.mem_inits _ _).mp hq)] at hfile
    cases hfile
  · rename_i hany
    refine iff_of_true rfl fun q hq => Bool.eq_false_of_not_eq_true fun hfile => hany ?_
    exact List.any_eq_true.mpr ⟨q, (List.mem_inits _ _).mpr hq, hfile⟩

theorem get_createDirAll (h : t.createDirAll p = some t') (q : List N) :
    t'.get q = if q <+: p then some .dir else t.get q := by
  have hfree := createDirAll_isSome_iff.mp (Option.isSome_iff_exists.mpr ⟨t', h⟩)
  unfold createDirAll at h
  split at h
  · cases h
  · obtain rfl := Option.some.inj h
    rw [get_addDirs]
    have hmem : q ∈ t.missing p ↔ q <+: p ∧ t.get q = none := by
      rw [missing, List.mem_filter, List.mem_inits, Option.isNone_iff_eq_none]
    by_cases hq : q <+: p
    · rw [if_pos hq]
      split
      · rfl
      · rename_i hnot
        have hno := hfree q hq
        -- it is there, and not a file
        cases hget : t.get q with
        | none => exact absurd (hmem.mpr ⟨hq, hget⟩) hnot
        | some entry =>
            cases entry with
            | dir => rfl
            | file content => rw [isFile_iff.mpr ⟨content, hget⟩] at hno; cases hno
    · rw [if_neg hq, if_neg fun hin => hq (hmem.mp hin).1]

theorem write_eq_some_iff :
    t.write p content = some t' ↔
      (p ≠ [] ∧ t.isDir p = false ∧ t.isDir p.dropLast = true) ∧
        t' = Assoc.set p (.file content) t := by
  unfold write
  split
  · rename_i hrefused
    refine iff_of_false nofun fun ⟨⟨hne, hdir, hparent⟩, _⟩ => ?_
    simp [hne, hdir, hparent] at hrefused
  · rename_i hallowed
    simp only [not_or, Bool.not_eq_true, Bool.not_eq_false'] at hallowed
    simp [hallowed, eq_comm]

theorem get_write (h : t.write p content = some t') (q : List N) :
    t'.get q = if p = q then some (.file content) else t.get q := by
  obtain ⟨-, rfl⟩ := write_eq_some_iff.mp h
  exact Assoc.get_set q p _ t

theorem get_remove (p q : List N) (t : FileTree N B) :
    (t.remove p).get q = if p = q then none else t.get q := Assoc.get_erase q p t

end FileTree

end Lib
