import Mathlib.Tactic
import Realtime.Lib.Transition

/-!
# Who writes where while the epoch changes

`DocumentStore` of `src/server/src/crdt.rs` for one document: server writes, client
updates, proposals, activations, connections and what they share. A step is what a task
does between two awaits; a section under the runtime lock is one step, and storage
calls succeed. A document is the list of the updates it contains, and a logical
replacement contains what its source does.

`documents` holds a weak reference, so an entry lives as long as some task holds the
`Arc` (`State.alive`).
-/

namespace Realtime.Epoch.Switch

open Lib

variable {υ : Type}

/-- A `PersistentDocument`. -/
structure Instance (υ : Type) where
  epoch : Nat
  contents : List υ

/-- `EpochConnectionState` -/
structure EpochConnection where
  epoch : Nat
  acknowledged : Bool
  deriving DecidableEq

inductive Status where
  | idle
  /-- In `apply_connection_update`, which is the given task. -/
  | busy (task : Nat)
  /-- The loop is left. -/
  | leaving
  deriving DecidableEq

/-- A `run_connection`, until it has called `connection_closed`. -/
structure Client where
  epoch : Nat
  document : Nat
  status : Status
  deriving DecidableEq

/-- What a task was called for. -/
inductive Op (υ : Type) where
  /-- `apply_update_for_epoch` -/
  | apply (expected : Option Nat) (update : υ)
  /-- `build` fails or returns no update, or returns one. -/
  | modify (build : List υ → Option υ)
  /-- `apply_connection_update` -/
  | update (connection : Nat) (update : υ)
  /-- `begin_epoch_transition_for` -/
  | begin (expected : Option Nat)
  /-- `maybe_activate_epoch`, and from where it has set `activating`. -/
  | activate
  | activating (current pending : Nat)
  /-- `connect_with_options` -/
  | connect (requested : Option Nat)

/-- Documents are named by their number. -/
inductive Point (υ : Type) where
  /-- Waits for the write gate. -/
  | gate
  | gated
  /-- `get_or_load` waits for the load lock. -/
  | waiting
  | reading
  | looking (epoch : Nat)
  | loading (epoch : Nat)
  | inserting (epoch document : Nat)
  /-- `get_or_load` returned. -/
  | loaded (epoch document : Nat)
  | writing (document : Nat) (update : υ)
  /-- `create_or_load_replacement`, with what the replacement was made of. -/
  | creating (document : Nat) (source : List υ)
  | committing (document : Nat) (source replacement : List υ)
  /-- The activation is committed and `documents` is not updated yet. -/
  | publishing (document epoch replacement : Nat)

/-- The task holds an `Arc` of the document. -/
def Point.holds (i : Nat) : Point υ → Bool
  | .inserting _ j | .loaded _ j | .writing j _ | .creating j _ | .committing j _ _ => i = j
  | .publishing j _ k => i = j || i = k
  | _ => false

structure Task (υ : Type) where
  op : Op υ
  point : Point υ

/-- The task has the write gate. -/
def Task.gated (task : Task υ) : Bool :=
  match task.op, task.point with
  | .connect _, _ => false
  | _, .gate => false
  | _, _ => true

/-- An update that was applied, with what held then. -/
structure Applied (υ : Type) where
  update : υ
  epoch : Nat
  /-- No connection: a server write. -/
  connection : Option Nat
  current : Nat
  pending : Option Nat
  acknowledged : Bool

structure Committed (υ : Type) where
  acked : List υ
  source : List υ

structure State (υ : Type) where
  /-- `runtime.manifest.current.epoch` -/
  current : Nat
  /-- `runtime.manifest.pending` -/
  pending : Option Nat
  connections : Nat → Option EpochConnection
  activating : Bool
  writeGate : Option Nat
  loadLock : Option Nat
  disk : Nat → Option (List υ)
  instances : Nat → Instance υ
  nextInstance : Nat
  /-- The entry of `documents`. -/
  live : Option (Nat × Nat)
  tasks : Nat → Option (Task υ)
  nextTask : Nat
  clients : Nat → Option Client
  nextConnection : Nat
  /-- What was recorded of the run: updates whose apply returned `Ok`, the connections
  that acknowledged an epoch, and the logs. -/
  acked : List υ
  acknowledged : Nat → Bool
  applied : List (Applied υ)
  commits : List (Committed υ)

namespace State

def setTask (s : State υ) (t : Nat) (task : Option (Task υ)) : State υ :=
  { s with tasks := Function.update s.tasks t task }

/-- The task goes on to another await. -/
def goto (s : State υ) (t : Nat) (op : Op υ) (point : Point υ) : State υ :=
  s.setTask t (some ⟨op, point⟩)

/-- `Weak::upgrade` succeeds. -/
def alive (s : State υ) (i : Nat) : Bool :=
  ((List.range s.nextTask).any fun t => (s.tasks t).any fun task => task.point.holds i) ||
    (List.range s.nextConnection).any fun c => (s.clients c).any fun client => client.document = i

def setStatus (s : State υ) (c : Nat) (status : Status) : State υ :=
  { s with
    clients := Function.update s.clients c
      ((s.clients c).map fun client => { client with status := status }) }

/-- The task ends, and what it has locked is free. -/
def finish (s : State υ) (t : Nat) (task : Task υ) : State υ :=
  let s' := { s.setTask t none with writeGate := if task.gated then none else s.writeGate }
  match task.op with
  | .update c _ => s'.setStatus c .idle
  | _ => s'

/-- `connection_can_write` -/
def connectionCanWrite (s : State υ) (c epoch : Nat) : Bool :=
  s.current = epoch && !(s.connections c).any (·.acknowledged)

/-- A connection of the current epoch has not acknowledged the pending one. -/
def waits (s : State υ) : Bool :=
  (List.range s.nextConnection).any fun c =>
    (s.connections c).any fun e => e.epoch = s.current && !e.acknowledged

/-- The runtime section of `begin_epoch_transition_for`. -/
def propose (s : State υ) : State υ :=
  { s with
    pending := some (s.pending.getD (s.current + 1))
    connections := fun c => (s.connections c).map fun e =>
      if e.epoch = s.current then { e with acknowledged := false } else e }

def register (s : State υ) (epoch document : Nat) : State υ :=
  { s with
    connections := Function.update s.connections s.nextConnection (some ⟨epoch, false⟩)
    clients := Function.update s.clients s.nextConnection (some ⟨epoch, document, .idle⟩)
    nextConnection := s.nextConnection + 1 }

/-- `document.apply_update`, which returns `Ok`. -/
def write (s : State υ) (i : Nat) (update : υ) (connection : Option Nat) : State υ :=
  let d := s.instances i
  { s with
    instances := Function.update s.instances i { d with contents := update :: d.contents }
    disk := Function.update s.disk d.epoch (some (update :: (s.disk d.epoch).getD []))
    acked := update :: s.acked
    applied := ⟨update, d.epoch, connection, s.current, s.pending,
      connection.any s.acknowledged⟩ :: s.applied }

/-- `load_or_create`, and the new document. -/
def load (s : State υ) (epoch : Nat) : State υ :=
  let contents := (s.disk epoch).getD []
  { s with
    disk := Function.update s.disk epoch (some contents)
    instances := Function.update s.instances s.nextInstance ⟨epoch, contents⟩
    nextInstance := s.nextInstance + 1 }

/-- The runtime section that commits an activation. -/
def commit (s : State υ) (pending : Nat) (source replacement : List υ) : State υ :=
  { s with
    current := pending
    pending := none
    connections := fun c => (s.connections c).filter fun e => e.epoch = pending
    activating := false
    instances := Function.update s.instances s.nextInstance ⟨pending, replacement⟩
    nextInstance := s.nextInstance + 1
    commits := ⟨s.acked, source⟩ :: s.commits }

/-- `get_or_load` returned the document `i` of `epoch`. -/
def continueLoaded (s : State υ) (t : Nat) (op : Op υ) (epoch i : Nat) : Option (State υ) :=
  let task : Task υ := ⟨op, .loaded epoch i⟩
  match op with
  | .apply expected update =>
      if expected.any (· ≠ epoch) then some (s.finish t task)
      else if s.pending.isSome then some (s.finish t task)
      else some (s.goto t op (.writing i update))
  | .modify build =>
      match build (s.instances i).contents with
      | none => some (s.finish t task)
      | some update =>
          if s.pending.isSome then some (s.finish t task)
          else some (s.goto t op (.writing i update))
  | .begin expected =>
      if expected.any (· ≠ epoch) || s.current ≠ epoch then some (s.finish t task)
      else some (s.propose.finish t task)
  | .activating _ _ => some (s.goto t op (.creating i (s.instances i).contents))
  | .connect requested =>
      if requested.any (· ≠ epoch) || s.activating || s.current ≠ epoch then
        some (s.finish t task)
      else some ((s.register epoch i).finish t task)
  | _ => none

/-- The next step of a task. -/
def advance (s : State υ) (t : Nat) (timedOut : Bool) (task : Task υ) : Option (State υ) :=
  match task.point with
  | .gate =>
      if s.writeGate.isSome then none
      else
        match task.op with
        | .update _ _ | .activate =>
            some ({ s with writeGate := some t }.goto t task.op .gated)
        | _ => some ({ s with writeGate := some t }.goto t task.op .waiting)
  | .gated =>
      match task.op with
      | .update c update =>
          match s.clients c with
          | some client =>
              if s.connectionCanWrite c client.epoch then
                some (s.goto t task.op (.writing client.document update))
              else some (s.finish t task)
          | none => none
      | .activate =>
          match s.pending with
          | none => some (s.finish t task)
          | some pending =>
              if s.activating || (s.waits && !timedOut) then some (s.finish t task)
              else some ({ s with activating := true }.goto t (.activating s.current pending)
                .waiting)
      | _ => none
  | .waiting =>
      if s.loadLock.isSome then none
      else some ({ s with loadLock := some t }.goto t task.op .reading)
  | .reading => some (s.goto t task.op (.looking s.current))
  | .looking epoch =>
      match s.live with
      | some (e, i) =>
          if e = epoch && s.alive i then
            some ({ s with loadLock := none }.goto t task.op (.loaded epoch i))
          else some (s.goto t task.op (.loading epoch))
      | none => some (s.goto t task.op (.loading epoch))
  | .loading epoch => some ((s.load epoch).goto t task.op (.inserting epoch s.nextInstance))
  | .inserting epoch i =>
      some ({ s with live := some (epoch, i), loadLock := none }.goto t task.op (.loaded epoch i))
  | .loaded epoch i => s.continueLoaded t task.op epoch i
  | .writing i update =>
      match task.op with
      | .update c _ => some ((s.write i update (some c)).finish t task)
      | _ => some ((s.write i update none).finish t task)
  | .creating i source =>
      match task.op with
      | .activating _ pending =>
          let replacement := (s.disk pending).getD source
          some ({ s with disk := Function.update s.disk pending (some replacement) }.goto t
            task.op (.committing i source replacement))
      | _ => none
  | .committing i source replacement =>
      match task.op with
      | .activating current pending =>
          if s.current ≠ current || s.pending ≠ some pending then
            some ({ s with activating := false }.finish t task)
          else
            some ((s.commit pending source replacement).goto t task.op
              (.publishing i pending s.nextInstance))
      | _ => none
  | .publishing _ epoch replacement =>
      some ({ s with live := some (epoch, replacement) }.finish t task)

end State

/-- What starts a task, moves one or ends a connection. -/
inductive Event (υ : Type) where
  | apply (expected : Option Nat) (update : υ)
  | modify (build : List υ → Option υ)
  | update (connection : Nat) (update : υ)
  | begin (expected : Option Nat)
  /-- After a proposal, an acknowledgement, a close or the acknowledgement timeout. -/
  | activate
  | connect (requested : Option Nat)
  /-- A task takes its next step; `timedOut` is the acknowledgement window. -/
  | advance (task : Nat) (timedOut : Bool)
  /-- `acknowledge_epoch`: the connection's loop ends whatever it returns. -/
  | acknowledge (connection epoch : Nat)
  /-- The loop of a connection ends for another reason. -/
  | leave (connection : Nat)
  | close (connection : Nat)

/-- A new task. -/
def State.spawn (s : State υ) (op : Op υ) (point : Point υ) : State υ :=
  { s.setTask s.nextTask (some ⟨op, point⟩) with nextTask := s.nextTask + 1 }

/-- `acknowledge_epoch` up to `maybe_activate_epoch`. -/
def State.acknowledge (s : State υ) (c epoch : Nat) : State υ :=
  match s.connections c with
  | some e =>
      if s.pending = some epoch ∧ e.epoch = s.current then
        { s with connections := Function.update s.connections c (some ⟨e.epoch, true⟩) }
      else s
  | none => s

/-- `none`: the event cannot happen here. -/
def step (s : State υ) : Event υ → Option (State υ)
  | .apply expected update => some (s.spawn (.apply expected update) .gate)
  | .modify build => some (s.spawn (.modify build) .gate)
  | .update c update =>
      if (s.clients c).any (·.status = .idle) then
        some ((s.setStatus c (.busy s.nextTask)).spawn (.update c update) .gate)
      else none
  | .begin expected => some (s.spawn (.begin expected) .gate)
  | .activate => some (s.spawn .activate .gate)
  | .connect requested => some (s.spawn (.connect requested) .waiting)
  | .advance t timedOut => (s.tasks t).bind (s.advance t timedOut)
  | .acknowledge c epoch =>
      if (s.clients c).any (·.status = .idle) then
        some { (s.acknowledge c epoch).setStatus c .leaving with
          acknowledged := Function.update s.acknowledged c true }
      else none
  | .leave c =>
      if (s.clients c).any (·.status = .idle) then some (s.setStatus c .leaving) else none
  | .close c =>
      if (s.clients c).any (·.status = .leaving) then
        some { s with
          connections := Function.update s.connections c none
          clients := Function.update s.clients c none }
      else none

end Realtime.Epoch.Switch
