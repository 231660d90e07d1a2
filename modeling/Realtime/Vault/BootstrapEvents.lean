import Mathlib.Dynamics.PeriodicPts.Lemmas
import Mathlib.Logic.Relation
import Realtime.Lib.Assoc

/-!
# The bootstrap event log

`BootstrapEventLog` of `src/bootstrapEvents.ts`: vault events before the initial
sync are folded into one entry per current path, and `plan` lists steps with the
same effect.

`World` is the vault the events come from. An occupant has the path it had when
the window opened, and a file that is created where one was deleted takes over its
path.
-/

namespace Realtime.Vault

open Lib

abbrev Path := String

/-- A `TAbstractFile`, by its identity. -/
abbrev FileId := Nat

structure CapturedPath where
  origin : Option Path
  file : FileId
  modified : Bool
  deriving DecidableEq

/-- The path of a file is the one it has when the step is taken. -/
inductive ReplayStep where
  | delete (path : Path)
  | rename (origin : Path) (file : FileId)
  | create (file : FileId)
  | modify (file : FileId)
  deriving DecidableEq

structure BootstrapEventLog where
  current : List (Path × CapturedPath)
  movedFrom : List (Path × Path)
  deleted : List Path

/-- A rename of the plan. -/
structure Rename where
  origin : Path
  target : Path
  file : FileId
  deriving DecidableEq

namespace BootstrapEventLog

def empty : BootstrapEventLog := ⟨[], [], []⟩

def originOf (log : BootstrapEventLog) (path : Path) : Option Path :=
  match Assoc.get path log.current with
  | some entry => entry.origin
  | none => some path

def create (path : Path) (file : FileId) (log : BootstrapEventLog) : BootstrapEventLog :=
  let replaces : Bool := path ∈ log.deleted
  { log with
    deleted := log.deleted.filter (· ≠ path)
    current := Assoc.set path ⟨if replaces then some path else none, file, replaces⟩ log.current }

def modify (path : Path) (file : FileId) (log : BootstrapEventLog) : BootstrapEventLog :=
  match Assoc.get path log.current with
  | some entry =>
      { log with
        current := Assoc.set path { entry with modified := true, file := file } log.current }
  | none => { log with current := Assoc.set path ⟨some path, file, true⟩ log.current }

/-- A path that was there at the start stays as deleted, whatever it was renamed to. -/
def delete (path : Path) (log : BootstrapEventLog) : BootstrapEventLog :=
  let current := Assoc.erase path log.current
  match log.originOf path with
  | none => { log with current }
  | some origin =>
      { current
        movedFrom := Assoc.erase origin log.movedFrom
        deleted := if origin ∈ log.deleted then log.deleted else log.deleted ++ [origin] }

/-- The file keeps where it came from and whether it was modified. -/
def rename (oldPath newPath : Path) (file : FileId) (log : BootstrapEventLog) :
    BootstrapEventLog :=
  let modified := ((Assoc.get oldPath log.current).map CapturedPath.modified).getD false
  let current :=
    Assoc.set newPath ⟨log.originOf oldPath, file, modified⟩ (Assoc.erase oldPath log.current)
  match log.originOf oldPath with
  | none => { log with current }
  | some origin =>
      { log with
        current
        movedFrom :=
          if origin = newPath then Assoc.erase origin log.movedFrom
          else Assoc.set origin newPath log.movedFrom }

def removed (log : BootstrapEventLog) (path : Path) : Bool :=
  (Assoc.get path log.current).isNone &&
    (path ∈ log.deleted || (Assoc.get path log.movedFrom).isSome)

def pendingRenames (log : BootstrapEventLog) : List Rename :=
  log.current.filterMap fun e =>
    match e.2.origin with
    | some origin => if origin ≠ e.1 then some ⟨origin, e.1, e.2.file⟩ else none
    | none => none

/-- The renames onto a path that no other one has to leave first. -/
def ready (pending : List Rename) : List Rename :=
  pending.filter fun r => r.target ∉ pending.map Rename.origin

def blocked (pending : List Rename) : List Rename :=
  pending.filter fun r => r.target ∈ pending.map Rename.origin

theorem length_blocked_lt {pending : List Rename} (h : ready pending ≠ []) :
    (blocked pending).length < pending.length := by
  obtain ⟨r, hr⟩ := List.exists_mem_of_ne_nil _ h
  obtain ⟨hmem, htarget⟩ := List.mem_filter.mp hr
  refine List.length_filter_lt_length_iff_exists.mpr ⟨r, hmem, ?_⟩
  rw [Bool.not_eq_true, decide_eq_false_iff_not]
  exact of_decide_eq_true htarget

/-- The loop of `plan`: the renames in order, and those that only swap paths. -/
def renameRounds (pending : List Rename) : List Rename × List Rename :=
  if ready pending = [] then ([], pending)
  else
    let rest := renameRounds (blocked pending)
    (ready pending ++ rest.1, rest.2)
  termination_by pending.length
  decreasing_by exact length_blocked_lt (by assumption)

/-- The step for a file that is where it was, or for a new one. -/
def entryStep (e : Path × CapturedPath) : Option ReplayStep :=
  match e.2.origin with
  | none => some (.create e.2.file)
  | some origin => if origin = e.1 ∧ e.2.modified then some (.modify e.2.file) else none

def inPlaceSteps (log : BootstrapEventLog) : List ReplayStep := log.current.filterMap entryStep

def plan (log : BootstrapEventLog) : List ReplayStep :=
  let rounds := renameRounds log.pendingRenames
  log.deleted.map .delete ++ rounds.1.map (fun r => .rename r.origin r.file) ++
    log.inPlaceSteps ++ rounds.2.map (fun r => .modify r.file)

end BootstrapEventLog

/-! ## The vault -/

structure Occupant where
  file : FileId
  /-- The path whose file this is, or the one it has replaced. -/
  origin : Option Path
  deriving DecidableEq

abbrev World := List (Path × Occupant)

inductive VaultEvent where
  | create (path : Path) (file : FileId)
  | modify (path : Path) (file : FileId)
  | delete (path : Path)
  | rename (oldPath newPath : Path) (file : FileId)

def BootstrapEventLog.step (log : BootstrapEventLog) : VaultEvent → BootstrapEventLog
  | .create path file => log.create path file
  | .modify path file => log.modify path file
  | .delete path => log.delete path
  | .rename oldPath newPath file => log.rename oldPath newPath file

namespace World

/-- The vault when the window opens. -/
def opened (files : List (Path × FileId)) : World := files.map fun e => (e.1, ⟨e.2, some e.1⟩)

/-- A file in the vault is that of this path. -/
def Has (w : World) (origin : Path) : Prop := ∃ e ∈ w, e.2.origin = some origin

instance (w : World) (origin : Path) : Decidable (w.Has origin) :=
  inferInstanceAs (Decidable (∃ e ∈ w, e.2.origin = some origin))

variable (paths : List Path)

def step (w : World) : VaultEvent → World
  | .create path file =>
      Assoc.set path ⟨file, if path ∈ paths ∧ ¬w.Has path then some path else none⟩ w
  | .modify _ _ => w
  | .delete path => Assoc.erase path w
  | .rename oldPath newPath _ =>
      match Assoc.get oldPath w with
      | some occupant => Assoc.set newPath occupant (Assoc.erase oldPath w)
      | none => w

/-- What a vault can report. -/
def Reports (w : World) : VaultEvent → Prop
  | .create path file => Assoc.get path w = none ∧ ∀ e ∈ w, e.2.file ≠ file
  | .modify path file => ∃ occupant, Assoc.get path w = some occupant ∧ occupant.file = file
  | .delete path => (Assoc.get path w).isSome
  | .rename oldPath newPath file =>
      Assoc.get newPath w = none ∧
        ∃ occupant, Assoc.get oldPath w = some occupant ∧ occupant.file = file

def ReportsAll : World → List VaultEvent → Prop
  | _, [] => True
  | w, event :: events => w.Reports event ∧ ReportsAll (w.step paths event) events

def run (w : World) (events : List VaultEvent) : World := events.foldl (step paths) w

def pathOf (w : World) (file : FileId) : Option Path :=
  (w.find? fun e => e.2.file = file).map Prod.fst

end World

/-! ## Executing a plan -/

/-- One step on the files of the replica, or nothing if it cannot be taken. -/
def execStep (w : World) (files : List (Path × FileId)) : ReplayStep → Option (List (Path × FileId))
  | .delete path => (Assoc.get path files).map fun _ => Assoc.erase path files
  | .rename origin file => do
      let target ← w.pathOf file
      let moved ← Assoc.get origin files
      if (Assoc.get target files).isSome then none
      else some (Assoc.set target moved (Assoc.erase origin files))
  | .create file => do
      let target ← w.pathOf file
      if (Assoc.get target files).isSome then none else some (Assoc.set target file files)
  | .modify file => do
      let target ← w.pathOf file
      (Assoc.get target files).map fun _ => files

def exec (w : World) : List ReplayStep → List (Path × FileId) → Option (List (Path × FileId))
  | [], files => some files
  | step :: steps, files =>
      match execStep w files step with
      | none => none
      | some files => exec w steps files

theorem exec_append {w : World} {a b : List ReplayStep} {files files' : List (Path × FileId)}
    (h : exec w a files = some files') : exec w (a ++ b) files = exec w b files' := by
  induction a generalizing files with
  | nil =>
      cases h
      rfl
  | cons step a ih =>
      rw [List.cons_append, exec]
      rw [exec] at h
      split at h
      · cases h
      · exact ih h

end Realtime.Vault
