import Realtime.Lib.Interrupt
import Mathlib.Logic.Function.Basic

/-!
# Restoring a backup

A restore stages every component of the backup beside its destination, records a
journal, and swaps the components in one after another. A restore that finds a
journal first rolls the installation back, or finishes it where it was committed.
Every filesystem action may fail or be the last thing the process does.

No configured path is itself a symbolic link: a component has one place, and what is
moved away from there is no longer there. A rename of a `BLOB_DIR` that is a link
would move the link.
-/

namespace Realtime.Backup

open Lib.Interrupt

/-- The parts of the server state, each with a path of its own. -/
inductive Component
  | database | databaseWal | databaseShm | databaseJournal | crdt | blobs | git | pluginDbs
  deriving DecidableEq, Repr

/-- `live_targets`, in the order in which they are staged and installed. -/
def liveTargets : List Component :=
  [.database, .databaseWal, .databaseShm, .databaseJournal, .crdt, .blobs, .git, .pluginDbs]

/-- What the backup has a payload for; the database's side files are only removed. -/
def Component.staging : Component → Bool
  | .databaseWal | .databaseShm | .databaseJournal => false
  | _ => true

def Component.isFile : Component → Bool
  | .crdt | .blobs | .git | .pluginDbs => false
  | _ => true

inductive SiblingKind
  | restoreNew | restoreOld
  deriving DecidableEq, Repr

/-- A path the restore touches: a destination or a hidden name beside it. -/
inductive Loc (ι : Type)
  | target (component : Component)
  | sibling (component : Component) (kind : SiblingKind) (id : ι)
  deriving DecidableEq, Repr

/-- What is at a path. Of a tree that is being copied or removed, some part. -/
inductive Entry (β : Type)
  | whole (content : β)
  | part
  deriving DecidableEq, Repr

inductive RestorePhase
  | installing | committed
  deriving DecidableEq, Repr

/-- A component with the hidden names beside it. -/
structure SwapPlan (ι : Type) where
  component : Component
  target : Loc ι
  staged : Option (Loc ι)
  old : Loc ι
  hadOriginal : Bool
  deriving DecidableEq, Repr

structure RestoreJournal (ι : Type) where
  format : String
  version : Nat
  phase : RestorePhase
  swaps : List (SwapPlan ι)
  deriving DecidableEq, Repr

structure Disk (ι β : Type) where
  entries : Loc ι → Option (Entry β)
  journal : Option (RestoreJournal ι)

structure Archive (β : Type) where
  payload : Component → β
  /-- The archive and a live path contain one another. -/
  overlapsLive : Bool
  /-- `verify` accepts the archive against its manifest. -/
  verified : Bool

/-- The ways in which a restore ends without success. -/
inductive RestoreError
  /-- "restore replaces all configured server state; pass --force to continue" -/
  | forceRequired
  /-- "backup source {} overlaps live server path {}" -/
  | sourceOverlap
  | backupRejected
  | noJournal
  /-- "unsupported restore journal format" -/
  | journalFormat
  /-- "restore journal targets do not match configured server state" -/
  | journalTargets
  /-- "restore journal staging paths are outside their target directory" -/
  | stagingOutside
  | alreadyExists
  | notFound
  /-- "restore plan is missing component {component}" -/
  | missingComponent
  /-- "restore component {} has no staged payload" -/
  | noStagedPayload
  /-- "staged restore file failed verification: {path}" -/
  | stagedMismatch
  /-- "restore rollback path already exists: {}" -/
  | rollbackPathExists
  /-- "restore failed and prior state was restored" -/
  | priorRestored
  /-- "restore failed: {error}; automatic rollback also failed: {recovery_error}" -/
  | rollbackFailed
  deriving DecidableEq, Repr

inductive RestoreRecovery
  | rolledBack | committed
  deriving DecidableEq, Repr

variable {ι β δ : Type}

namespace Loc

/-- The directory a path is in, as the configuration places the components. -/
def parent (dir : Component → δ) : Loc ι → δ
  | target c => dir c
  | sibling c _ _ => dir c

end Loc

namespace Disk

def exists? (d : Disk ι β) (l : Loc ι) : Bool := (d.entries l).isSome

def withJournal (d : Disk ι β) (j : Option (RestoreJournal ι)) : Disk ι β :=
  { d with journal := j }

@[simp] theorem entries_withJournal (d : Disk ι β) (j : Option (RestoreJournal ι)) :
    (d.withJournal j).entries = d.entries := rfl

@[simp] theorem journal_withJournal (d : Disk ι β) (j : Option (RestoreJournal ι)) :
    (d.withJournal j).journal = j := rfl

variable [DecidableEq ι]

def put (d : Disk ι β) (l : Loc ι) (e : Option (Entry β)) : Disk ι β :=
  { d with entries := Function.update d.entries l e }

@[simp] theorem entries_put_self (d : Disk ι β) (l : Loc ι) (e : Option (Entry β)) :
    (d.put l e).entries l = e :=
  Function.update_self ..

theorem entries_put_of_ne (d : Disk ι β) {l l' : Loc ι} (h : l' ≠ l) (e : Option (Entry β)) :
    (d.put l e).entries l' = d.entries l' :=
  Function.update_of_ne h ..

@[simp] theorem journal_put (d : Disk ι β) (l : Loc ι) (e : Option (Entry β)) :
    (d.put l e).journal = d.journal := rfl

end Disk

variable [DecidableEq ι] [DecidableEq δ]

/-- A program over the disk. -/
abbrev Fs (ι β : Type) (α : Type) := Prog (Disk ι β) RestoreError α

section Actions

/-- An action that changes no path of the state: a check, a mode, a directory made or synced. -/
def settle : Fs ι β Unit := Prog.atomic id

def pathExists (l : Loc ι) : Fs ι β Bool := Prog.read (·.exists? l)

def when (c : Bool) (m : Fs ι β Unit) : Fs ι β Unit := if c then m else pure ()

def rename (src dst : Loc ι) : Fs ι β Unit := do
  match ← Prog.read (·.entries src) with
  | none => Prog.raise .notFound
  | some e => Prog.atomic fun d => (d.put src none).put dst (some e)

/-- `remove_path`. Of a directory, a part may be left. -/
def removePath (l : Loc ι) : Fs ι β Unit :=
  Prog.act (fun d => [d.put l (some .part)]) (·.put l none)

def removeIfExists (l : Loc ι) : Fs ι β Unit := do
  when (← pathExists l) (removePath l)

/-- `write_json_atomic`. It may fail behind the rename, where the directory is synced. -/
def writeJournal (journal : RestoreJournal ι) : Fs ι β Unit :=
  Prog.act (fun d => [d.withJournal (some journal)]) (·.withJournal (some journal))

def removeJournal : Fs ι β Unit := do
  Prog.atomic (·.withJournal none)
  settle

end Actions

section Stage

def stageRemovalComponent (c : Component) (id : ι) : Fs ι β (SwapPlan ι) := do
  let hadOriginal ← pathExists (.target c)
  pure ⟨c, .target c, none, .sibling c .restoreOld id, hadOriginal⟩

/-- `fs::copy` or `copy_directory_contents` into a staging path. -/
def copyTo (l : Loc ι) (content : β) : Fs ι β Unit :=
  Prog.act (fun d => [d.put l (some .part)]) (·.put l (some (.whole content)))

/-- `fs::create_dir`. -/
def createDir (l : Loc ι) : Fs ι β Unit := do
  if ← pathExists l then Prog.raise .alreadyExists
  else Prog.atomic (·.put l (some .part))

def stageFileComponent (c : Component) (content : β) (id : ι) : Fs ι β (SwapPlan ι) := do
  settle
  let staged := Loc.sibling c .restoreNew id
  copyTo staged content
  settle
  let hadOriginal ← pathExists (.target c)
  pure ⟨c, .target c, some staged, .sibling c .restoreOld id, hadOriginal⟩

def stageDirectoryComponent (c : Component) (content : β) (id : ι) : Fs ι β (SwapPlan ι) := do
  settle
  let staged := Loc.sibling c .restoreNew id
  createDir staged
  settle
  copyTo staged content
  settle
  let hadOriginal ← pathExists (.target c)
  pure ⟨c, .target c, some staged, .sibling c .restoreOld id, hadOriginal⟩

def stageComponent (source : Archive β) (id : ι) (c : Component) : Fs ι β (SwapPlan ι) :=
  if c.staging then
    if c.isFile then stageFileComponent c (source.payload c) id
    else stageDirectoryComponent c (source.payload c) id
  else stageRemovalComponent c id

def cleanupStagedSwap (swap : SwapPlan ι) : Fs ι β Unit :=
  match swap.staged with
  | none => pure ()
  | some staged => removeIfExists staged

def cleanupStagedSwaps (swaps : List (SwapPlan ι)) : Fs ι β Unit :=
  Prog.forEach cleanupStagedSwap swaps

/-- What was staged before an error is removed again; the component it came in is not. -/
def stageFrom (source : Archive β) (id : ι) :
    List (SwapPlan ι) → List Component → Fs ι β (List (SwapPlan ι))
  | swaps, [] => pure swaps
  | swaps, c :: cs => do
      let swap ← (stageComponent source id c).onError (cleanupStagedSwaps swaps)
      stageFrom source id (swaps ++ [swap]) cs

def stageRestore (source : Archive β) (id : ι) : Fs ι β (List (SwapPlan ι)) :=
  stageFrom source id [] liveTargets

end Stage

section Verify

def swapFor (swaps : List (SwapPlan ι)) (c : Component) : Fs ι β (SwapPlan ι) :=
  match swaps.find? (·.component = c) with
  | some swap => pure swap
  | none => Prog.raise .missingComponent

def stagedPath (swap : SwapPlan ι) : Fs ι β (Loc ι) :=
  match swap.staged with
  | some staged => pure staged
  | none => Prog.raise .noStagedPayload

variable [DecidableEq β]

/-- Lengths and digests of the staged files against the manifest, as equality of contents. -/
def verifyStagedComponent (swaps : List (SwapPlan ι)) (manifest : Component → β) (c : Component) :
    Fs ι β Unit := do
  let swap ← swapFor swaps c
  let staged ← stagedPath swap
  settle
  if (← Prog.read (·.entries staged)) = some (.whole (manifest c)) then pure ()
  else Prog.raise .stagedMismatch

def verifyStagedRestore (swaps : List (SwapPlan ι)) (manifest : Component → β) : Fs ι β Unit :=
  Prog.forEach (verifyStagedComponent swaps manifest) (liveTargets.filter Component.staging)

end Verify

section Recover

/-- `RESTORE_JOURNAL_FORMAT` and `RESTORE_JOURNAL_VERSION`. -/
def journalOf (phase : RestorePhase) (swaps : List (SwapPlan ι)) : RestoreJournal ι :=
  ⟨"realtime-restore-journal", 1, phase, swaps⟩

def finishSwap (swap : SwapPlan ι) : Fs ι β Unit := do
  removeIfExists swap.old
  cleanupStagedSwap swap
  settle

def finishCommittedRestore (journal : RestoreJournal ι) : Fs ι β Unit := do
  Prog.forEach finishSwap journal.swaps
  removeJournal

/-- A target without an original is the restored one where its staging path is gone. -/
def installedWithoutOriginal (swap : SwapPlan ι) (d : Disk ι β) : Bool :=
  !swap.hadOriginal && d.exists? swap.target && swap.staged.any fun staged => !d.exists? staged

def rollbackTarget (swap : SwapPlan ι) : Fs ι β Unit := do
  if ← pathExists swap.old then
    removeIfExists swap.target
    rename swap.old swap.target
  else when (← Prog.read (installedWithoutOriginal swap)) (removePath swap.target)

def rollbackSwap (swap : SwapPlan ι) : Fs ι β Unit := do
  rollbackTarget swap
  cleanupStagedSwap swap
  settle

def rollbackRestore (journal : RestoreJournal ι) : Fs ι β Unit := do
  Prog.forEach rollbackSwap journal.swaps.reverse
  removeJournal

def sameMembers (expected actual : List (Loc ι)) : Bool :=
  expected.all (· ∈ actual) && actual.all (· ∈ expected)

def stagingInside (dir : Component → δ) (swap : SwapPlan ι) : Bool :=
  swap.staged.all (fun staged => staged.parent dir = swap.target.parent dir) &&
    swap.old.parent dir = swap.target.parent dir

/-- `validate_restore_journal`: the journal is of this configuration. -/
def validateRestoreJournal (dir : Component → δ) (journal : RestoreJournal ι) : Fs ι β Unit :=
  let expected := liveTargets.map (Loc.target (ι := ι))
  if journal.format ≠ "realtime-restore-journal" ∨ journal.version ≠ 1 then
    Prog.raise .journalFormat
  else if !sameMembers expected (journal.swaps.map (·.target)) ∨
      journal.swaps.length ≠ expected.length then
    Prog.raise .journalTargets
  else if !journal.swaps.all (stagingInside dir) then Prog.raise .stagingOutside
  else pure ()

/-- `recover_restore`: what was not committed is rolled back, what was is cleaned up. -/
def recoverRestore (dir : Component → δ) : Fs ι β RestoreRecovery := do
  settle
  match ← Prog.read (·.journal) with
  | none => Prog.raise .noJournal
  | some journal =>
      validateRestoreJournal dir journal
      match journal.phase with
      | .installing =>
          rollbackRestore journal
          pure .rolledBack
      | .committed =>
          finishCommittedRestore journal
          pure .committed

end Recover

section Install

def installStaged (swap : SwapPlan ι) : Fs ι β Unit :=
  match swap.staged with
  | some staged => rename staged swap.target
  | none => pure ()

def installSwap (swap : SwapPlan ι) : Fs ι β Unit := do
  if ← pathExists swap.old then Prog.raise .rollbackPathExists
  else
    when swap.hadOriginal (rename swap.target swap.old)
    installStaged swap
    settle

def installSwaps (swaps : List (SwapPlan ι)) : Fs ι β Unit := do
  writeJournal (journalOf .installing swaps)
  Prog.forEach installSwap swaps
  writeJournal (journalOf .committed swaps)
  finishCommittedRestore (journalOf .committed swaps)

/-- What is left to do when the installation reported an error. -/
def recoverInstall (dir : Component → δ) (swaps : List (SwapPlan ι)) :
    Fs ι β RestoreRecovery := do
  if ← Prog.read (·.journal.isSome) then recoverRestore dir
  else
    cleanupStagedSwaps swaps
    pure .rolledBack

def reportRecovery : Except (Option RestoreError) RestoreRecovery → Fs ι β Unit
  | .ok .rolledBack => Prog.raise .priorRestored
  | .ok .committed => pure ()
  | .error _ => Prog.raise .rollbackFailed

def verify (source : Archive β) : Fs ι β Unit := do
  settle
  if source.verified then pure () else Prog.raise .backupRejected

/-- An interrupted restore is brought to an end before another begins. -/
def recoverFirst (dir : Component → δ) : Fs ι β Unit := do
  if ← Prog.read (·.journal.isSome) then
    let _ ← recoverRestore dir
    pure ()
  else pure ()

variable [DecidableEq β]

/-- A restore once no journal is left and the archive is accepted. -/
def restoreFrom (dir : Component → δ) (source : Archive β) (id : ι) : Fs ι β Unit := do
  let swaps ← stageRestore source id
  (verifyStagedRestore swaps source.payload).onError (cleanupStagedSwaps swaps)
  match ← (installSwaps swaps).attempt with
  | .ok _ => pure ()
  | .error _ =>
      let recovery ← (recoverInstall dir swaps).attempt
      reportRecovery recovery

/-- `restore`, over paths that are no links: a journal that is there comes first. -/
def restore (dir : Component → δ) (source : Archive β) (id : ι) (force : Bool) : Fs ι β Unit := do
  when (!force) (Prog.raise .forceRequired)
  recoverFirst dir
  when source.overlapsLive (Prog.raise .sourceOverlap)
  verify source
  restoreFrom dir source id

/-- A server starts only where no journal is left. -/
def ensureRestoreComplete (d : Disk ι β) : Bool := d.journal.isNone

end Install

end Realtime.Backup
