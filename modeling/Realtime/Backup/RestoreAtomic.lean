import Realtime.Backup.Install

/-!
# A restore is all or nothing

Servers start and stop, and restores are run, fail and are killed, in any order. Seen
from the servers, the state is one that a restore replaces at once or not at all.
-/

namespace Realtime.Backup

open Lib.Interrupt

variable {ι β δ : Type} {v : Version β} {source : Archive β} {used used' : List ι} {id : ι}

section Restore

theorem Holds.mono {d : Disk ι β} (h : Holds v used d) (hsub : used ⊆ used') :
    Holds v used' d := by
  refine ⟨h.1.mono hsub, h.2.imp_right (Or.imp ?_ ?_)⟩
  · exact fun ⟨i, hi, h⟩ => ⟨i, hsub hi, h⟩
  · exact fun ⟨i, hi, h⟩ => ⟨i, hsub hi, h⟩

theorem Between.holds {d : Disk ι β} (h : Between v source used d) :
    Holds v used d ∨ Holds source.version used d := by
  obtain ⟨hunused, h | h | h | h⟩ := h
  · exact .inl ⟨hunused, .inl h⟩
  · exact .inl ⟨hunused, .inr (.inl h)⟩
  · exact .inr ⟨hunused, .inl h⟩
  · exact .inr ⟨hunused, .inr (.inr h)⟩

theorem when_raise {P C : Disk ι β → Prop} {E : Option RestoreError → Disk ι β → Prop} {c : Bool}
    {e : RestoreError} (h : ∀ d, P d → E (some e) d) :
    Triple P (when c (Prog.raise e)) (fun _ => P) E C := by
  cases c with
  | true => exact triple_raise e h
  | false => exact triple_pure () fun _ h => h

/-- The errors that report an installation. -/
def OfInstall (e : Option RestoreError) : Prop :=
  e = some .priorRestored ∨ e = some .rollbackFailed

variable [DecidableEq ι] [DecidableEq β] [DecidableEq δ]

theorem restoreFrom_triple (dir : Component → δ) (hid : id ∈ used) :
    Triple (fun d => Idle v used d ∧ ∀ c kind, d.entries (.sibling c kind id) = none)
      (restoreFrom dir source id)
      (fun _ d => Unused used d ∧ Clean source.version d)
      (fun e d => Idle v used d ∨ OfInstall e ∧ Between v source used d)
      (Between v source used) := by
  have hidle : ∀ d, Idle v used d → Between v source used d := fun d h => ⟨h.1, .inl h.2⟩
  refine Triple.bind (R := fun swaps d => swaps = plan v id ∧ Staging v source used id [] d)
    ((stageRestore_guards hid).triple (fun _ h => .inl h) hidle) fun swaps => Triple.of_forall ?_
  rintro d ⟨rfl, hd⟩
  refine Triple.bind (R := fun _ => Staging v source used id []) ?_ fun _ => ?_
  · have hverify : Guards (Idle v used) (· = d)
        (verifyStagedRestore (plan v id) source.payload : Fs ι β Unit)
        fun _ => Staging v source used id [] :=
      (verifyStagedRestore_guards.weaken fun _ h => h.idle).pre fun _ h => h ▸ hd
    exact (hverify.onError (cleanupStagedSwaps_guards hid _ _)).triple (fun _ h => .inl h) hidle
  refine Triple.bind (Triple.attempt (installSwaps_guards hid)) fun r => ?_
  cases r with
  | ok _ => exact triple_pure () fun _ h => h
  | error e =>
      refine Triple.bind (Triple.attempt ((recoverInstall_guards dir hid).pre fun _ h => h.2))
        fun r => ?_
      cases r with
      | ok r =>
          cases r with
          | rolledBack =>
              refine triple_raise _ fun d h => .inr ⟨.inl rfl, h.1, ?_⟩
              exact h.2.imp (fun h => h) fun h => .inr (.inl h)
          | committed => exact triple_pure () fun _ h => h
      | error e => exact triple_raise _ fun _ h => .inr ⟨.inr rfl, h.2⟩

theorem restore_triple (dir : Component → δ) (source : Archive β) (force : Bool)
    (hid : id ∉ used) :
    Triple (Holds v used) (restore dir source id force)
      (fun _ d => Unused (id :: used) d ∧ Clean source.version d)
      (fun e d => Holds v (id :: used) d ∨ OfInstall e ∧ Holds source.version (id :: used) d)
      (fun d => Holds v (id :: used) d ∨ Holds source.version (id :: used) d) := by
  have hholds : ∀ d, Holds v used d → Holds v (id :: used) d := fun d h =>
    h.mono (List.subset_cons_self _ _)
  have hidle : ∀ d, Idle v used d → Holds v (id :: used) d := fun d h =>
    hholds d ⟨h.1, .inl h.2⟩
  refine Triple.bind (when_raise fun d h => .inl (hholds d h)) fun _ => ?_
  refine Triple.bind (R := fun _ => Idle v used) ((recoverFirst_guards dir).triple
    (fun d h => .inl (hholds d h)) fun d h => .inl (hholds d h)) fun _ => ?_
  refine Triple.bind (when_raise fun d h => .inl (hidle d h)) fun _ => ?_
  refine Triple.bind (R := fun _ => Idle v used) ?_ fun _ => ?_
  · refine Triple.bind ((settle_guards (Idle v used)).triple
      (fun d h => .inl (hidle d h)) fun d h => .inl (hidle d h)) fun _ => ?_
    cases source.verified with
    | true => exact triple_pure () fun _ h => h
    | false => exact triple_raise _ fun d h => .inl (hidle d h)
  · refine (restoreFrom_triple dir List.mem_cons_self).mono
      (fun d h => ⟨⟨h.1.mono (List.subset_cons_self _ _), h.2⟩, fun c kind => h.1 c kind id hid⟩)
      (fun _ _ h => h) ?_ fun _ => Between.holds
    rintro e d (h | ⟨he, h⟩)
    · exact .inl ⟨h.1, .inl h.2⟩
    · exact (Between.holds h).imp_right fun h => ⟨he, h⟩

theorem restoreFrom_finishes (dir : Component → δ) (hid : id ∈ used) :
    Finishes (fun d => Idle v used d ∧ ∀ c kind, d.entries (.sibling c kind id) = none)
      (restoreFrom dir source id) (fun _ d => Unused used d ∧ Clean source.version d) := by
  refine Finishes.bind (Triple.finishes (stageRestore_guards hid) fun _ _ h => nomatch h.1)
    fun swaps d hd => ?_
  obtain ⟨rfl, hd⟩ := hd
  refine Finishes.bind (Finishes.onError (Triple.finishes verifyStagedRestore_guards
    fun _ _ h => nomatch h.1)) (fun _ => ?_) d hd
  refine Finishes.bind (Finishes.attempt (Triple.finishes (installSwaps_guards hid)
    fun _ _ h => nomatch h.1)) fun r d hd => ?_
  obtain ⟨_, rfl, hd⟩ := hd
  exact ⟨(), d, rfl, hd⟩

theorem restore_calm (dir : Component → δ) (hid : id ∉ used)
    (hlive : source.overlapsLive = false) (hverified : source.verified = true) :
    Finishes (Holds v used) (restore dir source id true)
      (fun _ d => Unused (id :: used) d ∧ Clean source.version d) := by
  unfold restore
  rw [hlive]
  refine Finishes.bind (R := fun _ => Holds v used) (fun d h => ⟨(), d, rfl, h⟩) fun _ => ?_
  refine Finishes.bind (Triple.finishes (recoverFirst_guards dir) fun _ _ h => nomatch h.1)
    fun _ => ?_
  refine Finishes.bind (R := fun _ => Idle v used) (fun d h => ⟨(), d, rfl, h⟩) fun _ => ?_
  refine Finishes.bind (R := fun _ => Idle v used) (fun d h => ⟨(), d, ?_, h⟩) fun _ => ?_
  · unfold verify
    rw [hverified]
    rfl
  · intro d h
    refine restoreFrom_finishes dir List.mem_cons_self d ⟨⟨h.1.mono ?_, h.2⟩, ?_⟩
    · exact List.subset_cons_self _ _
    · exact fun c kind => h.1 c kind id hid

end Restore

section System

inductive Event (ι β : Type)
  /-- A server starts and leaves another state when it ends. -/
  | serve (left : Version β)
  | restore (source : Archive β) (id : ι) (force : Bool) (sched : Schedule)

inductive Answer (β : Type)
  /-- A server starts on what is at the live paths. -/
  | served (seen : Component → Option (Entry β))
  | refused
  | restored
  | failed (e : Option RestoreError)
  | stopped

namespace Disk

/-- The disk of a server that no restore has touched. -/
def initial (v : Version β) : Disk ι β :=
  ⟨fun l => match l with
    | .target c => (v c).map .whole
    | .sibling _ _ _ => none, none⟩

def serve (d : Disk ι β) (left : Version β) : Disk ι β :=
  { d with entries := fun l => match l with
    | .target c => (left c).map .whole
    | .sibling c kind id => d.entries (.sibling c kind id) }

end Disk

theorem Holds.clean {used : List ι} {d : Disk ι β} (h : Holds v used d) (hd : d.journal = none) :
    Clean v d := by
  rcases h.2 with h | ⟨id, hid, h⟩ | ⟨id, hid, prior, h⟩
  · exact h
  · rw [h.journal] at hd
    nomatch hd
  · rw [h.journal] at hd
    nomatch hd

/-- The hidden names of each restore are its own. -/
def restoreIds : List (Event ι β) → List ι
  | [] => []
  | .serve _ :: events => restoreIds events
  | .restore _ id _ _ :: events => id :: restoreIds events

theorem restoreIds_cons (event : Event ι β) (events : List (Event ι β)) :
    restoreIds (event :: events) = restoreIds [event] ++ restoreIds events := by
  cases event <;> rfl

theorem holds_initial (v : Version β) : Holds v [] (Disk.initial v : Disk ι β) :=
  ⟨fun _ _ _ _ => rfl, .inl ⟨rfl, fun _ => rfl⟩⟩

def answerOf : Result (Disk ι β) RestoreError Unit → Answer β
  | .ok _ _ _ => .restored
  | .error e _ _ => .failed e
  | .stopped _ => .stopped

variable [DecidableEq ι] [DecidableEq β] [DecidableEq δ]

/-- What an event answers and leaves; the instance lock keeps events apart. -/
def step (dir : Component → δ) (d : Disk ι β) : Event ι β → Answer β × Disk ι β
  | .serve left =>
      if ensureRestoreComplete d then (.served fun c => d.entries (.target c), d.serve left)
      else (.refused, d)
  | .restore source id force sched =>
      let result := (restore dir source id force).run d sched
      (answerOf result, result.state)

def run (dir : Component → δ) : Disk ι β → List (Event ι β) → List (Answer β) × Disk ι β
  | d, [] => ([], d)
  | d, event :: events =>
      let (answer, d') := step dir d event
      let (answers, last) := run dir d' events
      (answer :: answers, last)

/-- A store whose state a restore replaces at once or not at all. -/
inductive Replaces : Version β → Event ι β → Answer β → Version β → Prop
  | served (v left : Version β) : Replaces v (.serve left) (.served fun c => (v c).map .whole) left
  | refused (v left : Version β) : Replaces v (.serve left) .refused v
  | restored (v : Version β) (source : Archive β) (id : ι) (force : Bool) (sched : Schedule) :
      Replaces v (.restore source id force sched) .restored source.version
  | failed {v v' : Version β} (source : Archive β) (id : ι) (force : Bool) (sched : Schedule)
      {e : Option RestoreError} : v' = v ∨ OfInstall e ∧ v' = source.version →
      Replaces v (.restore source id force sched) (.failed e) v'
  | stopped {v v' : Version β} (source : Archive β) (id : ι) (force : Bool) (sched : Schedule) :
      v' = v ∨ v' = source.version → Replaces v (.restore source id force sched) .stopped v'

inductive ReplacesAll : Version β → List (Event ι β) → List (Answer β) → Version β → Prop
  | done (v : Version β) : ReplacesAll v [] [] v
  | next {v v' v'' : Version β} {event : Event ι β} {events : List (Event ι β)}
      {answer : Answer β} {answers : List (Answer β)} : Replaces v event answer v' →
      ReplacesAll v' events answers v'' →
      ReplacesAll v (event :: events) (answer :: answers) v''

theorem step_replaces (dir : Component → δ) {d : Disk ι β} (h : Holds v used d)
    (event : Event ι β) (hids : ∀ id ∈ restoreIds [event], id ∉ used) :
    ∃ v', Replaces v event (step dir d event).1 v' ∧
      Holds v' (restoreIds [event] ++ used) (step dir d event).2 := by
  cases event with
  | serve left =>
      cases hd : d.journal with
      | none =>
          have hclean := h.clean hd
          have hstep : step dir d (.serve left) =
              (.served fun c => (v c).map .whole, d.serve left) := by
            rw [← funext hclean.shows]
            unfold step ensureRestoreComplete
            rw [hd]
            rfl
          rw [hstep]
          exact ⟨left, .served v left, h.1, .inl ⟨hd, fun c => rfl⟩⟩
      | some journal =>
          have hstep : step dir d (.serve left) = (.refused, d) := by
            unfold step ensureRestoreComplete
            rw [hd]
            rfl
          rw [hstep]
          exact ⟨v, .refused v left, h⟩
  | restore source id force sched =>
      have hrun := restore_triple dir source force (hids id (List.mem_singleton_self id)) d sched h
      show ∃ v', Replaces v _ (answerOf ((restore dir source id force).run d sched)) v' ∧
        Holds v' (id :: used) ((restore dir source id force).run d sched).state
      cases hr : (restore dir source id force).run d sched with
      | ok u d' rest =>
          rw [hr] at hrun
          exact ⟨source.version, .restored v source id force sched, hrun.1, .inl hrun.2⟩
      | error e d' rest =>
          rw [hr] at hrun
          rcases hrun with hrun | ⟨he, hrun⟩
          · exact ⟨v, .failed source id force sched (.inl rfl), hrun⟩
          · exact ⟨source.version, .failed source id force sched (.inr ⟨he, rfl⟩), hrun⟩
      | stopped d' =>
          rw [hr] at hrun
          rcases hrun with hrun | hrun
          · exact ⟨v, .stopped source id force sched (.inl rfl), hrun⟩
          · exact ⟨source.version, .stopped source id force sched (.inr rfl), hrun⟩

theorem run_replaces (dir : Component → δ) {d : Disk ι β} (h : Holds v used d)
    (events : List (Event ι β)) (hids : ∀ id ∈ restoreIds events, id ∉ used)
    (hnodup : (restoreIds events).Nodup) :
    ∃ v' used', ReplacesAll v events (run dir d events).1 v' ∧
      (∀ id ∈ used', id ∈ used ∨ id ∈ restoreIds events) ∧
      Holds v' used' (run dir d events).2 := by
  induction events generalizing v used d with
  | nil => exact ⟨v, used, .done v, fun _ h => .inl h, h⟩
  | cons event events ih =>
      rw [restoreIds_cons] at hids hnodup ⊢
      obtain ⟨v', hstep, h'⟩ := step_replaces dir h event
        fun id hid => hids id (List.mem_append_left _ hid)
      obtain ⟨-, hnext, hne⟩ := List.nodup_append.mp hnodup
      have hfresh : ∀ id ∈ restoreIds events, id ∉ restoreIds [event] ++ used := by
        intro id hid hmem
        rcases List.mem_append.mp hmem with hmem | hmem
        · exact hne id hmem id hid rfl
        · exact hids id (List.mem_append_right _ hid) hmem
      obtain ⟨v'', used', hrun, hused, h''⟩ := ih h' hfresh hnext
      refine ⟨v'', used', .next hstep hrun, fun id hid => ?_, h''⟩
      rcases hused id hid with hid | hid
      · exact (List.mem_append.mp hid).symm.imp_right (List.mem_append_left _)
      · exact .inr (List.mem_append_right _ hid)

/-- To the servers, restores that are run, fail or are stopped anywhere replace the state
at once or not at all, and no server starts on anything else. -/
theorem restore_atomic (dir : Component → δ) (v : Version β) (events : List (Event ι β))
    (hids : (restoreIds events).Nodup) :
    ∃ v', ReplacesAll v events (run dir (Disk.initial v) events).1 v' ∧
      (ensureRestoreComplete (run dir (Disk.initial v) events).2 → ∀ c,
        (run dir (Disk.initial v) events).2.entries (.target c) = (v' c).map .whole) := by
  obtain ⟨v', used, hrun, -, h⟩ := run_replaces dir (holds_initial v) events
    (fun _ _ => List.not_mem_nil) hids
  exact ⟨v', hrun, fun hd c => (h.clean (Option.isNone_iff_eq_none.mp hd)).shows c⟩

/-- A database that is restored while the other stores are empty. -/
def databaseOnly : Version Nat := fun c => if c = .database then some 0 else none

def archiveOfOne : Archive Nat := ⟨fun _ => 1, false, true⟩

/-- A restore killed between the renames of its first swap, and a server that is started then. -/
def killed : List (Event Nat Nat) :=
  [.restore archiveOfOne 0 true (List.replicate 31 none ++ [some (.stops 0)]),
    .serve databaseOnly]

theorem restore_atomic_killed :
    let dir := fun _ : Component => ()
    ∃ v', ReplacesAll databaseOnly killed (run dir (Disk.initial databaseOnly) killed).1 v' ∧
      (ensureRestoreComplete (run dir (Disk.initial databaseOnly) killed).2 → ∀ c,
        (run dir (Disk.initial databaseOnly) killed).2.entries (.target c) =
          (v' c).map .whole) :=
  restore_atomic (fun _ => ()) databaseOnly killed (by decide)

-- an error that reports the prior state, where only the sync behind the last removal failed
example :
    let sched : Schedule := List.replicate 55 none ++ [some (.fails 0)]
    let (answer, d) := step (fun _ => ()) (Disk.initial databaseOnly)
      (.restore archiveOfOne 0 true sched)
    answer = .failed (some .priorRestored) ∧ d.entries (.target .database) = some (.whole 1) :=
  ⟨rfl, rfl⟩

/-- Whatever restores have left behind, the next one that is left alone succeeds. -/
theorem restore_succeeds (dir : Component → δ) (v : Version β) (events : List (Event ι β))
    (source : Archive β) (id : ι) (hids : (restoreIds events ++ [id]).Nodup)
    (hlive : source.overlapsLive = false) (hverified : source.verified = true) :
    ∃ d, step dir (run dir (Disk.initial v) events).2 (.restore source id true []) =
        (.restored, d) ∧
      ensureRestoreComplete d ∧ ∀ c, d.entries (.target c) = (source.version c).map .whole := by
  obtain ⟨hevents, -, hne⟩ := List.nodup_append.mp hids
  obtain ⟨v', used, -, hused, h⟩ := run_replaces dir (holds_initial v) events
    (fun _ _ => List.not_mem_nil) hevents
  have hid : id ∉ used := by
    intro hmem
    rcases hused id hmem with hmem | hmem
    · exact List.not_mem_nil hmem
    · exact hne id hmem id (List.mem_singleton_self id) rfl
  obtain ⟨_, d, hrun, -, hclean⟩ := restore_calm dir hid hlive hverified _ h
  refine ⟨d, ?_, Option.isNone_iff_eq_none.mpr hclean.journal, hclean.shows⟩
  show (answerOf _, Result.state _) = _
  rw [hrun]
  rfl

theorem restore_succeeds_killed :
    ∃ d, step (fun _ => ()) (run (fun _ => ()) (Disk.initial databaseOnly) killed).2
          (.restore archiveOfOne 1 true []) = (.restored, d) ∧
      ensureRestoreComplete d ∧ ∀ c, d.entries (.target c) = (archiveOfOne.version c).map .whole :=
  restore_succeeds (fun _ => ()) databaseOnly killed archiveOfOne 1 (by decide) rfl rfl

end System

end Realtime.Backup
