import Mathlib.Data.List.Nodup
import Mathlib.Logic.Function.Basic
import Mathlib.Tactic
import Realtime.Lib.Transition

/-!
# The background job queue

A job intent is one row: a desired revision, how far it has been completed or
given up, and the generation of the task that owns it. Writes advance the
revision; a task executes the newest one it finds and closes it with an SQL
update that names its generation.

`record_error` gives up the revision the row then has, not the one the failed
attempt was for. A write during the last attempt is closed with it.
-/

namespace Realtime.Jobs

open Lib

/-- The columns of `background_job_intents` that decide what runs. -/
structure Row where
  revision : Nat
  completedRevision : Nat
  /-- `terminal_revision`: how far the work was given up. -/
  terminalRevision : Nat
  generation : Nat
  /-- `active_generation`; 0 when no task owns the row. -/
  activeGeneration : Nat
  deriving DecidableEq

namespace Row

/-- The condition of `dispatch_pending` and `rotate_pending_generations`. -/
def Pending (r : Row) : Prop :=
  r.completedRevision < r.revision ∧ r.terminalRevision < r.revision

instance (r : Row) : Decidable r.Pending := inferInstanceAs (Decidable (_ ∧ _))

/-- The generation `dispatch_pending` pushes a task for. -/
def dispatchPending (r : Row) : Option Nat :=
  if r.Pending ∧ r.activeGeneration ≠ 0 then some r.activeGeneration else none

/-- The upsert of `enqueue`: a new row, or one revision more, and a new generation only where
no task owns the row. -/
def enqueue : Option Row → Row
  | none => ⟨1, 0, 0, 1, 1⟩
  | some r =>
      { r with
        revision := r.revision + 1
        generation := if r.activeGeneration = 0 then r.generation + 1 else r.generation
        activeGeneration :=
          if r.activeGeneration = 0 then r.generation + 1 else r.activeGeneration }

/-- The update of `retry`: a row that was given up gets a new generation. -/
def retry (r : Row) : Option Row :=
  if r.activeGeneration = 0 ∧ r.revision ≤ r.terminalRevision then
    some { r with
      terminalRevision := 0
      generation := r.generation + 1
      activeGeneration := r.generation + 1 }
  else none

/-- The update of `cancel`: the row counts as done, and its task no longer owns it. -/
def cancel (r : Row) : Row :=
  { r with completedRevision := r.revision, terminalRevision := 0, activeGeneration := 0 }

/-- The update of `rotate_pending_generations`, at the start of a process. -/
def rotate (r : Row) : Row :=
  if r.Pending then
    { r with generation := r.generation + 1, activeGeneration := r.generation + 1 }
  else r

/-- `none`: no row is affected. -/
def completeIntent (r : Row) (generation revision : Nat) : Option Row :=
  if r.activeGeneration = generation ∧ r.revision = revision then
    some { r with completedRevision := revision, activeGeneration := 0 }
  else none

/-- `record_error`, for the owner of the row; `terminal` on its last attempt. -/
def recordError (r : Row) (generation : Nat) (terminal : Bool) : Row :=
  if terminal ∧ r.activeGeneration = generation then
    { r with terminalRevision := r.revision, activeGeneration := 0 }
  else r

/-- The check `execute` makes on both loads. -/
def owned (r : Row) (generation : Nat) : Bool :=
  r.activeGeneration = generation ∧ r.completedRevision < r.revision

end Row

/-- An intent and what has happened to it: the generations given out, the
revisions that executions began with and ended with either way, and those
cancelled. -/
structure Job where
  row : Option Row
  issued : List Nat
  succeeded : List Nat
  failed : List Nat
  cancelled : List Nat

namespace Job

def empty : Job := ⟨none, [], [], [], []⟩

/-- Replace the row. The active generation is issued when it was not the active
one before. -/
def put (j : Job) (r : Row) : Job :=
  { j with
    row := some r
    issued :=
      if r.activeGeneration = 0 ∨ j.row.map Row.activeGeneration = some r.activeGeneration then
        j.issued
      else r.activeGeneration :: j.issued }

end Job

/-- Where `execute` is: before a load, at the lock, or with the payload. The
locks are numbered. -/
inductive Phase where
  | loading
  | wantLock
  | waiting (lock : Nat)
  | locked (lock : Nat)
  | executing (lock revision : Nat)
  | succeeded (lock revision : Nat)
  | failed (lock revision : Nat)
  | done
  deriving DecidableEq

namespace Phase

/-- The lock the task keeps alive. -/
def lock : Phase → Option Nat
  | .waiting l | .locked l | .executing l _ | .succeeded l _ | .failed l _ => some l
  | .loading | .wantLock | .done => none

/-- The lock the task has taken. -/
def held : Phase → Option Nat
  | .locked l | .executing l _ | .succeeded l _ | .failed l _ => some l
  | .loading | .wantLock | .waiting _ | .done => none

end Phase

variable {κ ν : Type}

/-- A run of `execute` for a task. -/
structure Exec (κ : Type) where
  key : κ
  generation : Nat
  terminalOnFailure : Bool
  phase : Phase

structure State (κ ν : Type) where
  jobs : κ → Job
  /-- The tasks pushed to the storage. -/
  tasks : List (κ × Nat)
  /-- The executions of this process. -/
  execs : List (Exec κ)
  /-- `execution_locks`; an entry may be dead. -/
  locks : ν → Option Nat
  nextLock : Nat

inductive Action (κ : Type) where
  | enqueue (key : κ)
  | retry (key : κ)
  | cancel (key : κ)
  /-- `dispatch_task` -/
  | dispatch (key : κ) (generation : Nat)
  /-- The process ends, and the next one rotates the generations. -/
  | restart
  | start (key : κ) (generation attempt : Nat)
  /-- The next thing an execution does. `flag` is whether its payload succeeds,
  or whether its time has come. -/
  | exec (index : Nat) (flag : Bool)
  /-- A query of an execution fails. -/
  | abort (index : Nat)

section Steps

variable [DecidableEq κ] [DecidableEq ν] (vault : κ → ν) (maxAttempts : Nat)

def State.setJob (s : State κ ν) (key : κ) (job : Job) : State κ ν :=
  { s with jobs := Function.update s.jobs key job }

def State.setExec (s : State κ ν) (index : Nat) (e : Exec κ) (phase : Phase) : State κ ν :=
  { s with execs := s.execs.set index { e with phase := phase } }

/-- The lock has a strong reference. -/
def State.alive (s : State κ ν) (lock : Nat) : Bool :=
  s.execs.any fun e => e.phase.lock == some lock

/-- `execution_lock` up to the wait: the lock of the key, or a new one. -/
def State.getLock (s : State κ ν) (index : Nat) (e : Exec κ) : State κ ν :=
  match s.locks (vault e.key) with
  | some lock =>
      if s.alive lock then s.setExec index e (.waiting lock)
      else
        { s.setExec index e (.waiting s.nextLock) with
          locks := Function.update s.locks (vault e.key) (some s.nextLock)
          nextLock := s.nextLock + 1 }
  | none =>
      { s.setExec index e (.waiting s.nextLock) with
        locks := Function.update s.locks (vault e.key) (some s.nextLock)
        nextLock := s.nextLock + 1 }

/-- The next thing an execution does, from its phase. -/
def State.execStep (s : State κ ν) (index : Nat) (e : Exec κ) (flag : Bool) :
    Option (State κ ν) :=
  let job := s.jobs e.key
  match e.phase with
  | .loading =>
      match job.row with
      | none => some (s.setExec index e .done)
      | some row =>
          some (s.setExec index e (if row.owned e.generation then .wantLock else .done))
  | .wantLock => some (s.getLock vault index e)
  | .waiting lock =>
      if s.execs.any fun e => e.phase.held == some lock then none
      else some (s.setExec index e (.locked lock))
  | .locked lock =>
      match job.row with
      | none => some (s.setExec index e .done)
      | some row =>
          if row.owned e.generation then
            some (s.setExec index e (if flag then .executing lock row.revision else .loading))
          else some (s.setExec index e .done)
  | .executing lock revision =>
      if flag then
        some ((s.setExec index e (.succeeded lock revision)).setJob e.key
          { job with succeeded := revision :: job.succeeded })
      else
        some ((s.setExec index e (.failed lock revision)).setJob e.key
          { job with failed := revision :: job.failed })
  | .succeeded _ revision =>
      match job.row with
      | none => some (s.setExec index e .loading)
      | some row =>
          match row.completeIntent e.generation revision with
          | some row => some ((s.setExec index e .done).setJob e.key (job.put row))
          | none => some (s.setExec index e .loading)
  | .failed _ _ =>
      match job.row with
      | none => some (s.setExec index e .done)
      | some row =>
          some ((s.setExec index e .done).setJob e.key
            (job.put (row.recordError e.generation e.terminalOnFailure)))
  | .done => none

/-- `none`: the action is not possible here. -/
def State.step (s : State κ ν) : Action κ → Option (State κ ν)
  | .enqueue key => some (s.setJob key ((s.jobs key).put (Row.enqueue (s.jobs key).row)))
  | .retry key =>
      match (s.jobs key).row with
      | none => none
      | some row => row.retry.map fun row => s.setJob key ((s.jobs key).put row)
  | .cancel key =>
      match (s.jobs key).row with
      | none => none
      | some row => some (s.setJob key
          { (s.jobs key).put row.cancel with
            cancelled := row.revision :: (s.jobs key).cancelled })
  | .dispatch key generation =>
      if generation ∈ (s.jobs key).issued then
        some { s with tasks := if (key, generation) ∈ s.tasks then s.tasks
          else (key, generation) :: s.tasks }
      else none
  | .restart =>
      some { s with
        jobs := fun key =>
          match (s.jobs key).row with
          | none => s.jobs key
          | some row => (s.jobs key).put row.rotate
        execs := []
        locks := fun _ => none }
  | .start key generation attempt =>
      if (key, generation) ∈ s.tasks then
        some { s with
          execs := s.execs ++ [⟨key, generation, maxAttempts ≤ attempt, .loading⟩] }
      else none
  | .exec index flag =>
      match s.execs[index]? with
      | none => none
      | some e => s.execStep vault index e flag
  | .abort index =>
      match s.execs[index]? with
      | none => none
      | some e => some (s.setExec index e .done)

/-- Nothing is queued and nothing runs. -/
def State.init : State κ ν := ⟨fun _ => .empty, [], [], fun _ => none, 0⟩

/-- No write has come since the attempt that is now recorded as the last one began. -/
def Undisturbed (s : State κ ν) : Action κ → Prop
  | .exec index _ =>
      ∀ e lock revision row, s.execs[index]? = some e → e.phase = .failed lock revision →
        (s.jobs e.key).row = some row → e.terminalOnFailure = true →
        row.activeGeneration = e.generation → row.revision = revision
  | _ => True

end Steps

/-! ## One intent -/

/-- What one step does to an intent. `calm`: no write came during a last attempt. -/
inductive Job.Change (calm : Prop) (j : Job) : Job → Prop
  | same : Change calm j j
  | enqueue : Change calm j (j.put (Row.enqueue j.row))
  | retry {r r' : Row} : j.row = some r → r.retry = some r' → Change calm j (j.put r')
  | cancel {r : Row} : j.row = some r →
      Change calm j { j.put r.cancel with cancelled := r.revision :: j.cancelled }
  | rotate {r : Row} : j.row = some r → Change calm j (j.put r.rotate)
  | ran (succeeded failed : List Nat) : j.succeeded ⊆ succeeded → j.failed ⊆ failed →
      Change calm j { j with succeeded := succeeded, failed := failed }
  | complete {r r' : Row} {generation revision : Nat} : j.row = some r →
      revision ∈ j.succeeded → r.completeIntent generation revision = some r' →
      Change calm j (j.put r')
  | recordError {r : Row} {generation revision : Nat} {terminal : Bool} : j.row = some r →
      revision ∈ j.failed →
      (calm → terminal = true → r.activeGeneration = generation → r.revision = revision) →
      Change calm j (j.put (r.recordError generation terminal))

/-- The columns fit together, and the generations given out are the row's or older. -/
structure Row.Inv (r : Row) (issued : List Nat) : Prop where
  positive : 0 < r.revision
  active_le : r.activeGeneration ≤ r.generation
  /-- a row that no task owns has nothing left to do -/
  closed : r.activeGeneration = 0 →
    r.revision ≤ r.completedRevision ∨ r.revision ≤ r.terminalRevision
  issued_le : ∀ g ∈ issued, g ≤ r.generation

/-- What the columns say was done was done. -/
structure Job.Inv (j : Job) : Prop where
  row : ∀ r, j.row = some r → r.Inv j.issued
  /-- generations are given out by a row only -/
  fresh : j.row = none → j.issued = []
  nodup : j.issued.Nodup
  /-- the completed revision itself was run, or it was cancelled -/
  completed : ∀ r, j.row = some r → r.completedRevision ≠ 0 →
    r.completedRevision ∈ j.succeeded ∨ r.completedRevision ∈ j.cancelled

/-- A revision given up is one an attempt began with and failed. -/
def Job.TerminalFailed (j : Job) : Prop :=
  ∀ r, j.row = some r → r.terminalRevision ≠ 0 → r.terminalRevision ∈ j.failed

namespace Job

@[simp] theorem put_row (j : Job) (r : Row) : (j.put r).row = some r := rfl
@[simp] theorem put_succeeded (j : Job) (r : Row) : (j.put r).succeeded = j.succeeded := rfl
@[simp] theorem put_failed (j : Job) (r : Row) : (j.put r).failed = j.failed := rfl
@[simp] theorem put_cancelled (j : Job) (r : Row) : (j.put r).cancelled = j.cancelled := rfl

theorem Inv.empty : Job.empty.Inv where
  row := fun _ h => by cases h
  fresh := fun _ => rfl
  nodup := List.nodup_nil
  completed := fun _ h => by cases h

/-- The row of an intent is replaced by one that keeps the generation or raises it
by one and makes that the active one. -/
theorem Inv.put {j : Job} {r r' : Row} (h : j.Inv) (hrow : j.row = some r)
    (hpos : 0 < r'.revision)
    (hclosed : r'.activeGeneration = 0 →
      r'.revision ≤ r'.completedRevision ∨ r'.revision ≤ r'.terminalRevision)
    (hgen : (r'.generation = r.generation ∧
        (r'.activeGeneration = 0 ∨ r'.activeGeneration = r.activeGeneration)) ∨
      (r'.generation = r.generation + 1 ∧ r'.activeGeneration = r.generation + 1))
    (hcompleted : r'.completedRevision ≠ 0 →
      r'.completedRevision ∈ j.succeeded ∨ r'.completedRevision ∈ j.cancelled) :
    (j.put r').Inv := by
  obtain ⟨_, hactive, _, hissued⟩ := h.row r hrow
  rcases hgen with ⟨hgen, hact⟩ | ⟨hgen, hact⟩
  · -- the generation stays: nothing is issued
    have hsame : (j.put r').issued = j.issued := by
      have : r'.activeGeneration = 0 ∨
          j.row.map Row.activeGeneration = some r'.activeGeneration := by
        rcases hact with h0 | hact
        · exact .inl h0
        · exact .inr (by rw [hrow, hact, Option.map_some])
      simp only [Job.put, if_pos this]
    refine ⟨fun q hq => ?_, fun hq => (by cases hq), hsame ▸ h.nodup, fun q hq => ?_⟩
    · obtain rfl : r' = q := by simpa using hq
      refine ⟨hpos, by omega, hclosed, fun g hg => ?_⟩
      rw [hgen]
      exact hissued g (hsame ▸ hg)
    · obtain rfl : r' = q := by simpa using hq
      exact hcompleted
  · -- a new generation, above those issued so far
    have hnew : (j.put r').issued = (r.generation + 1) :: j.issued := by
      have : ¬(r'.activeGeneration = 0 ∨
          j.row.map Row.activeGeneration = some r'.activeGeneration) := by
        rw [hrow, hact, Option.map_some, Option.some_inj]
        omega
      simp only [Job.put, if_neg this]
      rw [hact]
    have hnotMem : r.generation + 1 ∉ j.issued := fun hmem => by
      have := hissued _ hmem
      omega
    refine ⟨fun q hq => ?_, fun hq => (by cases hq),
      hnew ▸ List.nodup_cons.mpr ⟨hnotMem, h.nodup⟩, fun q hq => ?_⟩
    · obtain rfl : r' = q := by simpa using hq
      refine ⟨hpos, by omega, hclosed, fun g hg => ?_⟩
      rw [hnew, List.mem_cons] at hg
      rcases hg with rfl | hg
      · omega
      · have := hissued g hg
        omega
    · obtain rfl : r' = q := by simpa using hq
      exact hcompleted

variable {calm : Prop} {j j' : Job}

theorem Inv.enqueue (h : j.Inv) : (j.put (Row.enqueue j.row)).Inv := by
  cases hrow : j.row with
  | none =>
      -- the first write inserts the row with generation one
      have hissued : (j.put (Row.enqueue none)).issued = [1] := by
        simp [Job.put, Row.enqueue, hrow, h.fresh hrow]
      refine ⟨fun q hq => ?_, fun hq => (by cases hq), by simp [hissued], fun q hq hne => ?_⟩
      · obtain rfl : Row.enqueue none = q := by simpa using hq
        refine ⟨Nat.one_pos, le_rfl, fun h0 => ?_, fun g hg => ?_⟩
        · exact absurd h0 one_ne_zero
        · rw [hissued, List.mem_singleton] at hg
          exact hg.le
      · obtain rfl : Row.enqueue none = q := by simpa using hq
        exact absurd rfl hne
  | some r =>
      refine h.put hrow (Nat.succ_pos _) (fun h0 => ?_) ?_ (h.completed r hrow)
      · simp only [Row.enqueue] at h0
        split at h0 <;> omega
      · by_cases hactive : r.activeGeneration = 0
        · exact .inr (by simp [Row.enqueue, hactive])
        · exact .inl (by simp [Row.enqueue, hactive])

theorem Inv.retry {r r' : Row} (h : j.Inv) (hrow : j.row = some r) (hr : r.retry = some r') :
    (j.put r').Inv := by
  unfold Row.retry at hr
  split at hr
  · cases hr
    refine h.put hrow (h.row r hrow).positive (fun h0 => ?_) (.inr ⟨rfl, rfl⟩)
      (h.completed r hrow)
    exact absurd h0 (Nat.succ_ne_zero _)
  · cases hr

/-- A cancelled revision is first noted as such. -/
theorem Inv.cancel {r : Row} (h : j.Inv) (hrow : j.row = some r) :
    Job.Inv { j.put r.cancel with cancelled := r.revision :: j.cancelled } := by
  have hnoted : Job.Inv { j with cancelled := r.revision :: j.cancelled } :=
    ⟨h.row, h.fresh, h.nodup,
      fun q hq hne => (h.completed q hq hne).imp_right (List.mem_cons_of_mem _)⟩
  refine hnoted.put hrow (h.row r hrow).positive (fun _ => .inl le_rfl) (.inl ⟨rfl, .inl rfl⟩)
    (fun _ => .inr ?_)
  exact List.mem_cons_self

theorem Inv.rotate {r : Row} (h : j.Inv) (hrow : j.row = some r) : (j.put r.rotate).Inv := by
  have hr := h.row r hrow
  unfold Row.rotate
  split
  · refine h.put hrow hr.positive (fun h0 => ?_) (.inr ⟨rfl, rfl⟩) (h.completed r hrow)
    exact absurd h0 (Nat.succ_ne_zero _)
  · exact h.put hrow hr.positive hr.closed (.inl ⟨rfl, .inr rfl⟩) (h.completed r hrow)

theorem Inv.complete {r r' : Row} {generation revision : Nat} (h : j.Inv)
    (hrow : j.row = some r) (hdone : revision ∈ j.succeeded)
    (hr : r.completeIntent generation revision = some r') : (j.put r').Inv := by
  unfold Row.completeIntent at hr
  split at hr
  · next hguard =>
    cases hr
    exact h.put hrow (h.row r hrow).positive (fun _ => .inl hguard.2.le) (.inl ⟨rfl, .inl rfl⟩)
      (fun _ => .inl hdone)
  · cases hr

theorem Inv.recordError {r : Row} (generation : Nat) (terminal : Bool) (h : j.Inv)
    (hrow : j.row = some r) : (j.put (r.recordError generation terminal)).Inv := by
  have hr := h.row r hrow
  unfold Row.recordError
  split
  · exact h.put hrow hr.positive (fun _ => .inr le_rfl) (.inl ⟨rfl, .inl rfl⟩)
      (h.completed r hrow)
  · exact h.put hrow hr.positive hr.closed (.inl ⟨rfl, .inr rfl⟩) (h.completed r hrow)

theorem Change.inv (hc : Change calm j j') (h : j.Inv) : j'.Inv := by
  cases hc with
  | same => exact h
  | enqueue => exact h.enqueue
  | retry hrow hr => exact h.retry hrow hr
  | cancel hrow => exact h.cancel hrow
  | rotate hrow => exact h.rotate hrow
  | ran succeeded failed hs hf =>
      exact ⟨h.row, h.fresh, h.nodup, fun q hq hne => (h.completed q hq hne).imp_left (@hs _)⟩
  | complete hrow hdone hr => exact h.complete hrow hdone hr
  | recordError hrow hfailed hcalm => exact h.recordError _ _ hrow

/-- A row that keeps its terminal revision or clears it. -/
theorem TerminalFailed.put {r r' : Row} (h : j.TerminalFailed) (hrow : j.row = some r)
    (hr : r'.terminalRevision = r.terminalRevision ∨ r'.terminalRevision = 0) :
    (j.put r').TerminalFailed := by
  intro q hq hne
  obtain rfl : r' = q := by simpa using hq
  rcases hr with hr | hr
  · rw [hr] at hne ⊢
    exact h r hrow hne
  · exact absurd hr hne

theorem Change.terminalFailed (hcalm : calm) (hc : Change calm j j') (h : j.TerminalFailed) :
    j'.TerminalFailed := by
  cases hc with
  | same => exact h
  | enqueue =>
      cases hrow : j.row with
      | none =>
          intro q hq hne
          obtain rfl : Row.enqueue none = q := by simpa using hq
          exact absurd rfl hne
      | some r => exact h.put hrow (.inl rfl)
  | retry hrow hr =>
      unfold Row.retry at hr
      split at hr
      · cases hr
        exact h.put hrow (.inr rfl)
      · cases hr
  | cancel hrow => exact h.put hrow (.inr rfl)
  | @rotate r hrow =>
      refine h.put hrow (.inl ?_)
      unfold Row.rotate
      split <;> rfl
  | ran succeeded failed hs hf => exact fun q hq hne => hf (h q hq hne)
  | complete hrow hdone hr =>
      unfold Row.completeIntent at hr
      split at hr
      · cases hr
        exact h.put hrow (.inl rfl)
      · cases hr
  | @recordError r generation revision terminal hrow hfailed hsame =>
      unfold Row.recordError
      split
      · next hguard =>
        -- the revision given up is the one the attempt began with
        intro q hq hne
        cases hq
        show r.revision ∈ j.failed
        rw [hsame hcalm hguard.1 hguard.2]
        exact hfailed
      · exact h.put hrow (.inl rfl)

/-- The records of what ran only grow. -/
theorem Change.grows (hc : Change calm j j') :
    j.succeeded ⊆ j'.succeeded ∧ j.failed ⊆ j'.failed := by
  cases hc with
  | ran _ _ hs hf => exact ⟨hs, hf⟩
  | _ => exact ⟨List.Subset.refl _, List.Subset.refl _⟩

end Job

/-! ## The execution locks -/

section Locks

variable {vault : κ → ν} {s s' : State κ ν} {index : Nat} {e : Exec κ}

/-- Whoever waits for a lock or holds it got it from its vault's entry, and a lock
has one holder. -/
structure State.LockInv (vault : κ → ν) (s : State κ ν) : Prop where
  entry : ∀ e ∈ s.execs, ∀ lock, e.phase.lock = some lock → s.locks (vault e.key) = some lock
  holder : ∀ {i j : Nat} {e e' : Exec κ} {lock : Nat}, s.execs[i]? = some e →
    s.execs[j]? = some e' → e.phase.held = some lock → e'.phase.held = some lock → i = j

theorem State.LockInv.congr (h : s.LockInv vault) (hexecs : s'.execs = s.execs)
    (hlocks : s'.locks = s.locks) : s'.LockInv vault :=
  ⟨by rw [hexecs, hlocks]; exact h.entry, by rw [hexecs]; exact h.holder⟩

/-- One execution moves to a phase whose lock is its vault's, and which holds only
what it held before or nobody holds. -/
theorem State.LockInv.set {phase : Phase} (h : s.LockInv vault)
    (hexecs : s'.execs = s.execs.set index { e with phase := phase })
    (he : s.execs[index]? = some e)
    (hentry : ∀ x ∈ s.execs, ∀ lock, x.phase.lock = some lock →
      s'.locks (vault x.key) = some lock)
    (hlock : ∀ lock, phase.lock = some lock → s'.locks (vault e.key) = some lock)
    (hheld : ∀ lock, phase.held = some lock →
      e.phase.held = some lock ∨ ∀ x ∈ s.execs, x.phase.held ≠ some lock) :
    s'.LockInv vault := by
  -- the holder of the lock is the moving one, if that holds it now
  have hother : ∀ {j : Nat} {e' : Exec κ} {lock : Nat}, s.execs[j]? = some e' →
      phase.held = some lock → e'.phase.held = some lock → index = j := by
    intro j e' lock hj hp he'
    rcases hheld lock hp with hmine | hfree
    · exact h.holder he hj hmine he'
    · exact absurd he' (hfree e' (List.mem_of_getElem? hj))
  refine ⟨fun x hx lock hl => ?_, fun {i j a b lock} hi hj ha hb => ?_⟩
  · rw [hexecs] at hx
    rcases List.mem_or_eq_of_mem_set hx with hx | rfl
    · exact hentry x hx lock hl
    · exact hlock lock hl
  · rw [hexecs, List.getElem?_set] at hi hj
    split at hi <;> split at hj
    · omega
    · next hii hjj =>
      split at hi <;> cases hi
      exact hii ▸ hother hj ha hb
    · next hii hjj =>
      split at hj <;> cases hj
      exact (hjj ▸ hother hi hb ha).symm
    · exact h.holder hi hj ha hb

/-- A phase with the locks of the one before. -/
theorem State.LockInv.setExec {phase : Phase} (h : s.LockInv vault)
    (he : s.execs[index]? = some e) (hlock : phase.lock = e.phase.lock ∨ phase.lock = none)
    (hheld : phase.held = e.phase.held ∨ phase.held = none) :
    (s.setExec index e phase).LockInv vault := by
  refine h.set rfl he h.entry (fun lock hl => ?_) (fun lock hl => .inl ?_)
  · rcases hlock with heq | heq <;> rw [heq] at hl
    · exact h.entry e (List.mem_of_getElem? he) lock hl
    · cases hl
  · rcases hheld with heq | heq <;> rw [heq] at hl
    · exact hl
    · cases hl

theorem State.getLock_lockInv [DecidableEq ν] (h : s.LockInv vault)
    (he : s.execs[index]? = some e) : (s.getLock vault index e).LockInv vault := by
  unfold State.getLock
  -- a new entry takes nobody's lock away: the old one is dead or not there
  have hnew : (∀ x ∈ s.execs, vault x.key = vault e.key → x.phase.lock = none) →
      ({ s.setExec index e (.waiting s.nextLock) with
          locks := Function.update s.locks (vault e.key) (some s.nextLock)
          nextLock := s.nextLock + 1 } : State κ ν).LockInv vault := by
    intro hdead
    refine h.set rfl he (fun x hx lock hl => ?_) (fun lock hl => ?_) (fun lock hl => ?_)
    · rcases eq_or_ne (vault x.key) (vault e.key) with heq | hne
      · rw [hdead x hx heq] at hl
        cases hl
      · show Function.update s.locks _ _ _ = _
        rw [Function.update_of_ne hne]
        exact h.entry x hx lock hl
    · cases hl
      exact Function.update_self _ _ _
    · cases hl
  split
  · next lock hlock =>
    split
    · refine h.set rfl he h.entry (fun l hl => ?_) (fun l hl => ?_)
      · cases hl
        exact hlock
      · cases hl
    · next hdead =>
      refine hnew fun x hx heq => ?_
      by_contra hne
      obtain ⟨l, hl⟩ := Option.ne_none_iff_exists'.mp hne
      have hentry := h.entry x hx l hl
      rw [heq, hlock, Option.some_inj] at hentry
      refine hdead (List.any_eq_true.mpr ⟨x, hx, ?_⟩)
      rw [hl, hentry]
      exact beq_self_eq_true _
  · next hnone =>
    refine hnew fun x hx heq => ?_
    by_contra hne
    obtain ⟨l, hl⟩ := Option.ne_none_iff_exists'.mp hne
    have hentry := h.entry x hx l hl
    rw [heq, hnone] at hentry
    cases hentry

end Locks

/-! ## The steps of the queue -/

/-- An execution that has ended is in the intent's record. -/
def Phase.Backed (j : Job) : Phase → Prop
  | .succeeded _ revision => revision ∈ j.succeeded
  | .failed _ revision => revision ∈ j.failed
  | _ => True

theorem Phase.Backed.change {calm : Prop} {j j' : Job} (hc : j.Change calm j') {phase : Phase}
    (h : phase.Backed j) : phase.Backed j' := by
  cases phase with
  | succeeded _ _ => exact hc.grows.1 h
  | failed _ _ => exact hc.grows.2 h
  | _ => trivial

def State.Backed (s : State κ ν) : Prop := ∀ e ∈ s.execs, e.phase.Backed (s.jobs e.key)

section Guarantees

variable {vault : κ → ν} {s : State κ ν}

variable (vault) in
/-- What holds of the queue whatever happens. -/
structure State.Kept (s : State κ ν) : Prop where
  /-- what is pending has a generation, and a dispatch pushes a task for it -/
  offered : ∀ key row, (s.jobs key).row = some row → row.Pending →
    row.activeGeneration ≠ 0 ∧ row.dispatchPending = some row.activeGeneration
  /-- an execution that began with the completed revision succeeded, or it was cancelled -/
  completed : ∀ key row, (s.jobs key).row = some row → row.completedRevision ≠ 0 →
    row.completedRevision ∈ (s.jobs key).succeeded ∨
      row.completedRevision ∈ (s.jobs key).cancelled
  /-- no generation is given out twice -/
  fresh : ∀ key, (s.jobs key).issued.Nodup
  /-- two executions of one vault never have their payloads at the same time -/
  apart : ∀ {i j : Nat} {e e' : Exec κ} {lock lock' revision revision' : Nat},
    s.execs[i]? = some e → s.execs[j]? = some e' → vault e.key = vault e'.key →
    e.phase = .executing lock revision → e'.phase = .executing lock' revision' → i = j

/-- Only revisions that an attempt began with and failed are given up. -/
def State.GivenUpFailed (s : State κ ν) : Prop :=
  ∀ key row, (s.jobs key).row = some row → row.terminalRevision ≠ 0 →
    ∃ revision ∈ (s.jobs key).failed, row.terminalRevision ≤ revision

variable (vault) in
structure State.Inv (s : State κ ν) : Prop where
  backed : s.Backed
  jobs : ∀ key, (s.jobs key).Inv
  locks : s.LockInv vault

theorem State.inv_init : (State.init : State κ ν).Inv vault where
  backed := fun e he => absurd he List.not_mem_nil
  jobs := fun _ => Job.Inv.empty
  locks := ⟨fun e he => absurd he List.not_mem_nil, fun hi => by simp [State.init] at hi⟩

theorem State.Inv.kept (h : s.Inv vault) : s.Kept vault where
  offered := fun key row hrow hpending => by
    have hactive : row.activeGeneration ≠ 0 := fun h0 => by
      obtain ⟨hc, ht⟩ := hpending
      rcases ((h.jobs key).row row hrow).closed h0 with hle | hle <;> omega
    exact ⟨hactive, if_pos ⟨hpending, hactive⟩⟩
  completed := fun key => (h.jobs key).completed
  fresh := fun key => (h.jobs key).nodup
  apart := fun {i j e e' lock lock' revision revision'} hi hj hvault he he' => by
    -- both got the entry of their vault
    have hlock := h.locks.entry e (List.mem_of_getElem? hi) lock (by rw [he]; rfl)
    have hlock' := h.locks.entry e' (List.mem_of_getElem? hj) lock' (by rw [he']; rfl)
    rw [hvault, hlock', Option.some_inj] at hlock
    have hheld : e.phase.held = some lock := by rw [he]; rfl
    have hheld' : e'.phase.held = some lock := by rw [he', hlock]; rfl
    exact h.locks.holder hi hj hheld hheld'

end Guarantees

section Runs

variable [DecidableEq κ] [DecidableEq ν] {vault : κ → ν} {maxAttempts : Nat}
  {s s' : State κ ν} {index : Nat} {e : Exec κ} {flag : Bool}

/-- An execution changes its own phase and its own intent. -/
structure Moves (s : State κ ν) (index : Nat) (e : Exec κ) (calm : Prop) (s' : State κ ν) where
  phase : Phase
  job : Job
  execs : s'.execs = s.execs.set index { e with phase := phase }
  jobs : s'.jobs = Function.update s.jobs e.key job
  change : (s.jobs e.key).Change calm job
  backed : phase.Backed job

def Moves.setExec {calm : Prop} (phase : Phase) (hphase : ∀ j, phase.Backed j) :
    Moves s index e calm (s.setExec index e phase) :=
  ⟨phase, s.jobs e.key, rfl, (Function.update_eq_self _ _).symm, .same, hphase _⟩

theorem State.getLock_moves {calm : Prop} :
    Nonempty (Moves s index e calm (s.getLock vault index e)) := by
  unfold State.getLock
  split
  · split
    · exact ⟨.setExec _ fun _ => trivial⟩
    · exact ⟨_, _, rfl, (Function.update_eq_self _ _).symm, .same, trivial⟩
  · exact ⟨_, _, rfl, (Function.update_eq_self _ _).symm, .same, trivial⟩

theorem State.execStep_moves (he : s.execs[index]? = some e)
    (hb : e.phase.Backed (s.jobs e.key)) (h : s.execStep vault index e flag = some s') :
    Nonempty (Moves s index e (Undisturbed s (.exec index flag)) s') := by
  unfold State.execStep at h
  cases hphase : e.phase with
  | loading =>
      simp only [hphase] at h
      split at h <;> cases h
      · exact ⟨.setExec _ fun _ => trivial⟩
      · exact ⟨.setExec _ fun _ => by split <;> trivial⟩
  | wantLock =>
      simp only [hphase] at h
      cases h
      exact getLock_moves
  | waiting lock =>
      simp only [hphase] at h
      split at h
      · cases h
      · cases h
        exact ⟨.setExec _ fun _ => trivial⟩
  | locked lock =>
      simp only [hphase] at h
      split at h
      · cases h
        exact ⟨.setExec _ fun _ => trivial⟩
      · split at h <;> cases h
        · exact ⟨.setExec _ fun _ => by split <;> trivial⟩
        · exact ⟨.setExec _ fun _ => trivial⟩
  | executing lock revision =>
      -- the end of the payload goes into the record
      simp only [hphase] at h
      split at h <;> cases h
      · exact ⟨_, _, rfl, rfl, .ran _ _ (List.subset_cons_self _ _) (List.Subset.refl _),
          List.mem_cons_self⟩
      · exact ⟨_, _, rfl, rfl, .ran _ _ (List.Subset.refl _) (List.subset_cons_self _ _),
          List.mem_cons_self⟩
  | succeeded lock revision =>
      simp only [hphase] at h
      rw [hphase] at hb
      split at h
      · cases h
        exact ⟨.setExec _ fun _ => trivial⟩
      · next row hrow =>
        split at h <;> cases h
        · next row' hdone =>
          exact ⟨_, _, rfl, rfl, .complete hrow hb hdone, trivial⟩
        · exact ⟨.setExec _ fun _ => trivial⟩
  | failed lock revision =>
      simp only [hphase] at h
      rw [hphase] at hb
      split at h <;> cases h
      · exact ⟨.setExec _ fun _ => trivial⟩
      · next row hrow =>
        refine ⟨_, _, rfl, rfl, .recordError hrow hb fun hcalm hterminal hactive => ?_, trivial⟩
        exact hcalm e lock revision row he hphase hrow hterminal hactive
  | done =>
      simp only [hphase] at h
      cases h

/-- Every step changes each intent as `Change` allows. -/
theorem State.step_change {a : Action κ} (hb : s.Backed)
    (h : s.step vault maxAttempts a = some s') (key : κ) :
    (s.jobs key).Change (Undisturbed s a) (s'.jobs key) := by
  have hset : ∀ (k : κ) (job : Job), (s.jobs k).Change (Undisturbed s a) job →
      (s.jobs key).Change (Undisturbed s a) ((s.setJob k job).jobs key) := fun k job hc => by
    rcases eq_or_ne key k with rfl | hne
    · simpa only [State.setJob, Function.update_self] using hc
    · simpa only [State.setJob, Function.update_of_ne hne] using .same
  cases a with
  | enqueue k =>
      cases h
      exact hset _ _ .enqueue
  | retry k =>
      simp only [State.step] at h
      split at h
      · cases h
      · next row hrow =>
        obtain ⟨row', hretry, rfl⟩ := Option.map_eq_some_iff.mp h
        exact hset _ _ (.retry hrow hretry)
  | cancel k =>
      simp only [State.step] at h
      split at h
      · cases h
      · next row hrow =>
        cases h
        exact hset _ _ (.cancel hrow)
  | dispatch k generation =>
      simp only [State.step] at h
      split at h <;> cases h
      exact .same
  | restart =>
      cases h
      show (s.jobs key).Change _ (match (s.jobs key).row with | none => _ | some _ => _)
      split
      · exact .same
      · next row hrow => exact .rotate hrow
  | start k generation attempt =>
      simp only [State.step] at h
      split at h <;> cases h
      exact .same
  | exec i flag =>
      simp only [State.step] at h
      split at h
      · cases h
      · next e he =>
        obtain ⟨m⟩ := State.execStep_moves he (hb e (List.mem_of_getElem? he)) h
        rw [m.jobs]
        exact hset _ _ m.change
  | abort i =>
      simp only [State.step] at h
      split at h <;> cases h
      exact .same

theorem State.step_backed {a : Action κ} (hb : s.Backed)
    (h : s.step vault maxAttempts a = some s') : s'.Backed := by
  have hchange := State.step_change hb h
  -- the phases that are there already stay backed
  have hold : ∀ e ∈ s.execs, e.phase.Backed (s'.jobs e.key) :=
    fun e he => (hb e he).change (hchange e.key)
  have hset : ∀ (i : Nat) (e : Exec κ) (phase : Phase),
      s'.execs = s.execs.set i { e with phase := phase } →
      phase.Backed (s'.jobs e.key) → s'.Backed := by
    intro i e phase hexecs hphase x hx
    rw [hexecs] at hx
    rcases List.mem_or_eq_of_mem_set hx with hx | rfl
    · exact hold x hx
    · exact hphase
  cases a with
  | enqueue k =>
      cases h
      exact hold
  | retry k =>
      simp only [State.step] at h
      split at h
      · cases h
      · obtain ⟨row', hretry, rfl⟩ := Option.map_eq_some_iff.mp h
        exact hold
  | cancel k =>
      simp only [State.step] at h
      split at h <;> cases h
      exact hold
  | dispatch k generation =>
      simp only [State.step] at h
      split at h <;> cases h
      exact hold
  | restart =>
      cases h
      exact fun e he => absurd he List.not_mem_nil
  | start k generation attempt =>
      simp only [State.step] at h
      split at h <;> cases h
      intro x hx
      rcases List.mem_append.mp hx with hx | hx
      · exact hold x hx
      · rw [List.mem_singleton.mp hx]
        trivial
  | exec i flag =>
      simp only [State.step] at h
      split at h
      · cases h
      · next e he =>
        obtain ⟨m⟩ := State.execStep_moves he (hb e (List.mem_of_getElem? he)) h
        refine hset i e m.phase m.execs ?_
        rw [m.jobs, Function.update_self]
        exact m.backed
  | abort i =>
      simp only [State.step] at h
      split at h <;> cases h
      next e he => exact hset i e .done rfl trivial

theorem State.execStep_lockInv (h : s.LockInv vault) (he : s.execs[index]? = some e)
    (hstep : s.execStep vault index e flag = some s') : s'.LockInv vault := by
  unfold State.execStep at hstep
  cases hphase : e.phase with
  | loading =>
      simp only [hphase] at hstep
      split at hstep <;> cases hstep
      · exact h.setExec he (.inr rfl) (.inr rfl)
      · refine h.setExec he (.inr ?_) (.inr ?_) <;> split <;> rfl
  | wantLock =>
      simp only [hphase] at hstep
      cases hstep
      exact getLock_lockInv h he
  | waiting lock =>
      simp only [hphase] at hstep
      split at hstep
      · cases hstep
      · next hfree =>
        cases hstep
        refine h.set rfl he h.entry (fun l hl => ?_) (fun l hl => .inr fun x hx hheld => ?_)
        · cases hl
          exact h.entry e (List.mem_of_getElem? he) lock (by rw [hphase]; rfl)
        · cases hl
          refine hfree (List.any_eq_true.mpr ⟨x, hx, ?_⟩)
          rw [hheld]
          exact beq_self_eq_true _
  | locked lock =>
      simp only [hphase] at hstep
      split at hstep
      · cases hstep
        exact h.setExec he (.inr rfl) (.inr rfl)
      · split at hstep <;> cases hstep
        · cases flag
          · exact h.setExec he (.inr rfl) (.inr rfl)
          · exact h.setExec he (.inl (by rw [hphase]; rfl)) (.inl (by rw [hphase]; rfl))
        · exact h.setExec he (.inr rfl) (.inr rfl)
  | executing lock revision =>
      simp only [hphase] at hstep
      split at hstep <;> cases hstep
      · have hset : (s.setExec index e (.succeeded lock revision)).LockInv vault :=
          h.setExec he (.inl (by rw [hphase]; rfl)) (.inl (by rw [hphase]; rfl))
        exact hset.congr rfl rfl
      · have hset : (s.setExec index e (.failed lock revision)).LockInv vault :=
          h.setExec he (.inl (by rw [hphase]; rfl)) (.inl (by rw [hphase]; rfl))
        exact hset.congr rfl rfl
  | succeeded lock revision =>
      simp only [hphase] at hstep
      split at hstep
      · cases hstep
        exact h.setExec he (.inr rfl) (.inr rfl)
      · split at hstep <;> cases hstep
        · exact (h.setExec he (.inr rfl) (.inr rfl)).congr rfl rfl
        · exact h.setExec he (.inr rfl) (.inr rfl)
  | failed lock revision =>
      simp only [hphase] at hstep
      split at hstep <;> cases hstep
      · exact h.setExec he (.inr rfl) (.inr rfl)
      · exact (h.setExec he (.inr rfl) (.inr rfl)).congr rfl rfl
  | done =>
      simp only [hphase] at hstep
      cases hstep

theorem State.step_lockInv {a : Action κ} (h : s.LockInv vault)
    (hstep : s.step vault maxAttempts a = some s') : s'.LockInv vault := by
  cases a with
  | enqueue k =>
      cases hstep
      exact h.congr rfl rfl
  | retry k =>
      simp only [State.step] at hstep
      split at hstep
      · cases hstep
      · obtain ⟨row', hretry, rfl⟩ := Option.map_eq_some_iff.mp hstep
        exact h.congr rfl rfl
  | cancel k =>
      simp only [State.step] at hstep
      split at hstep <;> cases hstep
      exact h.congr rfl rfl
  | dispatch k generation =>
      simp only [State.step] at hstep
      split at hstep <;> cases hstep
      exact h.congr rfl rfl
  | restart =>
      cases hstep
      exact ⟨fun e he => absurd he List.not_mem_nil, fun hi => by simp at hi⟩
  | start k generation attempt =>
      simp only [State.step] at hstep
      split at hstep <;> cases hstep
      -- the new one has no lock
      refine ⟨fun x hx lock hl => ?_, fun {i j a b lock} hi hj ha hb => ?_⟩
      · rcases List.mem_append.mp hx with hx | hx
        · exact h.entry x hx lock hl
        · rw [List.mem_singleton.mp hx] at hl
          cases hl
      · have hold : ∀ {n : Nat} {x : Exec κ}, x.phase.held = some lock →
            (s.execs ++ [⟨k, generation, maxAttempts ≤ attempt, .loading⟩])[n]? = some x →
            s.execs[n]? = some x := by
          intro n x hheld hx
          rw [List.getElem?_append] at hx
          split at hx
          · exact hx
          · rw [List.mem_singleton.mp (List.mem_of_getElem? hx)] at hheld
            cases hheld
        exact h.holder (hold ha hi) (hold hb hj) ha hb
  | exec i flag =>
      simp only [State.step] at hstep
      split at hstep
      · cases hstep
      · next e he => exact State.execStep_lockInv h he hstep
  | abort i =>
      simp only [State.step] at hstep
      split at hstep <;> cases hstep
      next e he => exact h.setExec he (.inr rfl) (.inr rfl)

/-! ## Whole runs -/

theorem State.Inv.step {a : Action κ} (h : s.Inv vault)
    (hstep : s.step vault maxAttempts a = some s') : s'.Inv vault where
  backed := State.step_backed h.backed hstep
  jobs := fun key => (State.step_change h.backed hstep key).inv (h.jobs key)
  locks := State.step_lockInv h.locks hstep

/-- In every run what is pending is offered, what is completed has run or was cancelled, and
the executions of a vault are apart. -/
theorem State.kept_of_reach
    (h : Reach (· = State.init) (Takes (State.step vault maxAttempts)) s) : s.Kept vault := by
  have hinv : s.Inv vault :=
    h.invariant (fun _ hs => hs ▸ State.inv_init) fun _ _ _ hinv hstep => hinv.step hstep
  exact hinv.kept

/-- No work is lost or skipped in a run where no write comes between the start of
the last attempt and the recording of its failure. -/
theorem no_work_lost (s : State κ ν)
    (h : Reach (· = State.init) (Where Undisturbed (Takes (State.step vault maxAttempts))) s) :
    s.Kept vault ∧ s.GivenUpFailed := by
  have hinit : ∀ s : State κ ν, s = State.init →
      s.Inv vault ∧ ∀ key, (s.jobs key).TerminalFailed := by
    intro s hs
    subst hs
    exact ⟨State.inv_init, fun key row hrow => by cases hrow⟩
  have hstep : ∀ (s : State κ ν) (a : Action κ) (s' : State κ ν),
      (s.Inv vault ∧ ∀ key, (s.jobs key).TerminalFailed) →
      Where Undisturbed (Takes (State.step vault maxAttempts)) s a s' →
      s'.Inv vault ∧ ∀ key, (s'.jobs key).TerminalFailed := by
    intro s a s' hinv hstep
    obtain ⟨hcalm, hstep⟩ := hstep
    refine ⟨hinv.1.step hstep, fun key => ?_⟩
    exact (State.step_change hinv.1.backed hstep key).terminalFailed hcalm (hinv.2 key)
  have hinv := h.invariant hinit hstep
  exact ⟨hinv.1.kept, fun key row hrow hne => ⟨_, hinv.2 key row hrow hne, le_rfl⟩⟩

end Runs

/-! ## A write during the last attempt -/

/-- The task is pushed and taken up to the payload, `writes` come, and the payload
fails. -/
def lastAttempt (writes : List (Action Unit)) : List (Action Unit) :=
  [.enqueue (), .dispatch () 1, .start () 1 1, .exec 0 true, .exec 0 true, .exec 0 true,
    .exec 0 true] ++ writes ++ [.exec 0 false, .exec 0 false]

theorem undisturbed_of_phase {s : State κ ν} {index : Nat} {flag : Bool} {e : Exec κ}
    (he : s.execs[index]? = some e) (hphase : ∀ lock revision, e.phase ≠ .failed lock revision) :
    Undisturbed s (.exec index flag) := by
  intro e' lock revision row he' hfailed
  obtain rfl : e = e' := by simpa [he] using he'
  exact absurd hfailed (hphase lock revision)

theorem meets_lastAttempt :
    Meets Undisturbed (State.step (id : Unit → Unit) 1) State.init (lastAttempt []) := by
  refine .cons trivial rfl <| .cons trivial rfl <| .cons trivial rfl <|
    .cons (undisturbed_of_phase rfl nofun) rfl <| .cons (undisturbed_of_phase rfl nofun) rfl <|
    .cons (undisturbed_of_phase rfl nofun) rfl <| .cons (undisturbed_of_phase rfl nofun) rfl <|
    .cons (undisturbed_of_phase rfl nofun) rfl <| .cons ?_ rfl trivial
  intro e lock revision row he hphase hrow _ _
  cases he
  cases hphase
  cases hrow
  rfl

/-- The only revision is given up after the attempt for it. -/
theorem no_work_lost_failed_attempt :
    ∃ s : State Unit Unit, (s.jobs ()).row = some ⟨1, 0, 1, 1, 0⟩ ∧ (s.jobs ()).failed = [1] ∧
      s.Kept id ∧ s.GivenUpFailed := by
  have hstart : Reach (· = (State.init : State Unit Unit))
      (Where Undisturbed (Takes (State.step id 1))) State.init := .start rfl
  exact ⟨_, rfl, rfl, no_work_lost _ (hstart.run_where rfl meets_lastAttempt)⟩

/-- A second write comes while the payload of the first fails for the last time.
Both are given up, and nothing was tried for the second. -/
theorem not_no_work_lost :
    ¬∀ s : State Unit Unit, Reach (· = State.init) (Takes (State.step id 1)) s →
      s.GivenUpFailed := by
  intro h
  have hstart : Reach (· = (State.init : State Unit Unit)) (Takes (State.step id 1))
      State.init := .start rfl
  have hrun : ∃ s, (lastAttempt [.enqueue ()]).foldlM (State.step (id : Unit → Unit) 1)
      State.init = some s ∧ (s.jobs ()).row = some ⟨2, 0, 2, 1, 0⟩ ∧ (s.jobs ()).failed = [1] :=
    ⟨_, rfl, rfl, rfl⟩
  obtain ⟨s, hs, hrow, hfailed⟩ := hrun
  obtain ⟨revision, hmem, hle⟩ := h s (hstart.run hs) () _ hrow two_ne_zero
  rw [hfailed, List.mem_singleton] at hmem
  subst hmem
  exact absurd hle (by decide)

/-- In the run where a second write is given up too, nothing else goes wrong. -/
theorem kept_of_reach_second_write : ∃ s : State Unit Unit,
    (s.jobs ()).row = some ⟨2, 0, 2, 1, 0⟩ ∧ s.Kept id := by
  have hstart : Reach (· = (State.init : State Unit Unit)) (Takes (State.step id 1))
      State.init := .start rfl
  have hrun : (lastAttempt [.enqueue ()]).foldlM (State.step (id : Unit → Unit) 1)
      State.init = some _ := rfl
  exact ⟨_, rfl, State.kept_of_reach (hstart.run hrun)⟩

end Realtime.Jobs
