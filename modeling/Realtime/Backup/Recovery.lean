import Realtime.Backup.Swaps

/-!
# What a recovery does

While a restore is under way the disk stands for one server state: the one before the
installation until it is committed, and from then on the restored one. A recovery
keeps that state wherever it is stopped, and makes it the state at the live paths.
-/

namespace Realtime.Backup

open Lib.Interrupt

variable {ι β δ : Type}

/-- The hidden names of restores other than the ones so far do not exist. -/
def Unused (used : List ι) (d : Disk ι β) : Prop :=
  ∀ c kind i, i ∉ used → d.entries (.sibling c kind i) = none

def plan (v : Version β) (id : ι) : List (SwapPlan ι) :=
  liveTargets.map (planSwap (fun c => (v c).isSome) id)

/-- No restore is under way, and the state is `v`. -/
structure Clean (v : Version β) (d : Disk ι β) : Prop where
  journal : d.journal = none
  shows : ∀ c, Shows v d c

/-- An installation that a recovery rolls back to `v`. -/
structure InstallingAs (v : Version β) (id : ι) (d : Disk ι β) : Prop where
  journal : d.journal = some (journalOf .installing (plan v id))
  rollable : ∀ c, Rollable v id d c

/-- An installation of `v` that a recovery finishes. -/
structure CommittedAs (v prior : Version β) (id : ι) (d : Disk ι β) : Prop where
  journal : d.journal = some (journalOf .committed (plan prior id))
  shows : ∀ c, Shows v d c

def Installing (v : Version β) (used : List ι) (d : Disk ι β) : Prop :=
  ∃ id ∈ used, InstallingAs v id d

def Committed (v : Version β) (used : List ι) (d : Disk ι β) : Prop :=
  ∃ id ∈ used, ∃ prior, CommittedAs v prior id d

/-- The state is `v`, once a restore under way is recovered from. -/
def Holds (v : Version β) (used : List ι) (d : Disk ι β) : Prop :=
  Unused used d ∧ (Clean v d ∨ Installing v used d ∨ Committed v used d)

theorem mem_liveTargets (c : Component) : c ∈ liveTargets := by cases c <;> decide

theorem nodup_liveTargets : liveTargets.Nodup := by decide

theorem Unused.mono {used used' : List ι} {d : Disk ι β} (h : Unused used d)
    (hsub : used ⊆ used') : Unused used' d :=
  fun c kind i hi => h c kind i fun hmem => hi (hsub hmem)

theorem Unused.frame {used : List ι} {id : ι} {c : Component} {d d' : Disk ι β}
    (h : Unused used d) (hid : id ∈ used) (hframe : Frame (swapPaths id c) d d') :
    Unused used d' := by
  intro c' kind i hi
  rw [hframe.entries]
  · exact h c' kind i hi
  · have hne : i ≠ id := by
      rintro rfl
      exact hi hid
    simp [swapPaths, hne]

section Recovery

theorem removeJournal_guards {I : Disk ι β → Prop} :
    Guards (fun d => (I d ∨ ∃ d', I d' ∧ d = d'.withJournal none)) I (removeJournal : Fs ι β Unit)
      fun _ d => ∃ d', I d' ∧ d = d'.withJournal none := by
  refine Triple.of_forall fun d hd => ?_
  refine Triple.bind (R := fun _ d => ∃ d', I d' ∧ d = d'.withJournal none) ?_ fun _ => ?_
  · exact guards_atomic (.inl hd) ⟨d, hd, rfl⟩
  · exact (settle_guards _).weaken fun _ h => .inr h

variable [DecidableEq ι] [DecidableEq δ] {v prior : Version β} {used : List ι} {id : ι}

/-- What a rollback has done, with the components it still has to look at. -/
structure RollingBack (v : Version β) (used : List ι) (id : ι) (cs : List Component)
    (d : Disk ι β) : Prop where
  unused : Unused used d
  installing : InstallingAs v id d
  shows : ∀ c ∉ cs, Shows v d c

omit [DecidableEq ι] in
theorem InstallingAs.swap {c : Component} {d d' : Disk ι β} (h : InstallingAs v id d)
    (hframe : Frame (swapPaths id c) d d') (hroll : Rollable v id d' c) :
    InstallingAs v id d' := by
  refine ⟨hframe.journal.trans h.journal, fun c' => ?_⟩
  by_cases hne : c' = c
  · exact hne ▸ hroll
  · exact hframe.rollable_of_ne hne (h.rollable c')

theorem rollbackSwap_rollingBack (hid : id ∈ used) (c : Component) (cs : List Component) :
    Guards (fun d => Unused used d ∧ (Clean v d ∨ Installing v used d))
      (RollingBack v used id (c :: cs))
      (rollbackSwap (planSwap (fun c => (v c).isSome) id c) : Fs ι β Unit)
      fun _ => RollingBack v used id cs := by
  refine Triple.of_forall fun d h => ?_
  refine (rollbackSwap_guards rfl (h.installing.rollable c)).mono ?_ ?_
  · rintro d' ⟨hframe, hroll⟩
    exact ⟨h.unused.frame hid hframe, .inr ⟨id, hid, h.installing.swap hframe hroll⟩⟩
  · rintro - d' ⟨hframe, hroll, hshows⟩
    refine ⟨h.unused.frame hid hframe, h.installing.swap hframe hroll, fun c' hc' => ?_⟩
    by_cases hne : c' = c
    · exact hne ▸ hshows
    · refine hframe.shows_of_ne hne (h.shows c' ?_)
      exact List.not_mem_cons_of_ne_of_not_mem hne hc'

theorem rollbackRestore_guards (hid : id ∈ used) :
    Guards (fun d => Unused used d ∧ (Clean v d ∨ Installing v used d))
      (fun d => Unused used d ∧ InstallingAs v id d)
      (rollbackRestore (journalOf .installing (plan v id)) : Fs ι β Unit)
      fun _ d => Unused used d ∧ Clean v d := by
  have hclean : ∀ d, (∃ d', RollingBack v used id [] d' ∧ d = d'.withJournal none) →
      Unused used d ∧ Clean v d := by
    rintro _ ⟨d', h, rfl⟩
    exact ⟨h.unused, rfl, fun c => h.shows c List.not_mem_nil⟩
  refine Triple.bind (R := fun _ => RollingBack v used id []) ?_ fun _ => ?_
  · show Guards _ _ (Prog.forEach rollbackSwap (plan v id).reverse) _
    rw [plan, ← List.map_reverse, forEach_map]
    refine (Triple.forEach (I := RollingBack v used id) fun c cs =>
      rollbackSwap_rollingBack hid c cs).pre fun d h => ?_
    refine ⟨h.1, h.2, fun c hc => ?_⟩
    exact absurd (List.mem_reverse.mpr (mem_liveTargets c)) hc
  · refine removeJournal_guards.mono ?_ fun _ => hclean
    rintro d (h | h)
    · exact ⟨h.unused, .inr ⟨id, hid, h.installing⟩⟩
    · exact ⟨(hclean d h).1, .inl (hclean d h).2⟩

/-- While a committed restore is finished, what it has installed stays. -/
structure Finishing (v prior : Version β) (used : List ι) (id : ι) (d : Disk ι β) : Prop where
  unused : Unused used d
  committed : CommittedAs v prior id d

theorem finishSwap_finishing (hid : id ∈ used) (c : Component) :
    Guards (Finishing v prior used id) (Finishing v prior used id)
      (finishSwap (planSwap (fun c => (prior c).isSome) id c) : Fs ι β Unit)
      fun _ => Finishing v prior used id := by
  refine Triple.of_forall fun d h => ?_
  have hkeeps : ∀ d', Frame (swapPaths id c) d d' ∧ Shows v d' c →
      Finishing v prior used id d' := by
    rintro d' ⟨hframe, hshows⟩
    refine ⟨h.unused.frame hid hframe, hframe.journal.trans h.committed.journal, fun c' => ?_⟩
    by_cases hne : c' = c
    · exact hne ▸ hshows
    · exact hframe.shows_of_ne hne (h.committed.shows c')
  exact (finishSwap_guards (h.committed.shows c)).mono hkeeps fun _ => hkeeps

theorem finishCommittedRestore_guards (hid : id ∈ used) :
    Guards (fun d => Unused used d ∧ (Clean v d ∨ Committed v used d))
      (Finishing v prior used id)
      (finishCommittedRestore (journalOf .committed (plan prior id)) : Fs ι β Unit)
      fun _ d => Unused used d ∧ Clean v d := by
  have hcommitted : ∀ d, Finishing v prior used id d →
      Unused used d ∧ (Clean v d ∨ Committed v used d) := fun d h =>
    ⟨h.unused, .inr ⟨id, hid, prior, h.committed⟩⟩
  have hclean : ∀ d, (∃ d', Finishing v prior used id d' ∧ d = d'.withJournal none) →
      Unused used d ∧ Clean v d := by
    rintro _ ⟨d', h, rfl⟩
    exact ⟨h.unused, rfl, h.committed.shows⟩
  refine Triple.bind (R := fun _ => Finishing v prior used id) ?_ fun _ => ?_
  · show Guards _ _ (Prog.forEach finishSwap (plan prior id)) _
    rw [plan, forEach_map]
    exact Guards.weaken (Triple.forEach (I := fun _ => Finishing v prior used id) fun c _ =>
      finishSwap_finishing hid c) hcommitted
  · refine removeJournal_guards.mono ?_ fun _ => hclean
    rintro d (h | h)
    · exact hcommitted d h
    · exact ⟨(hclean d h).1, .inl (hclean d h).2⟩

/-- The journals that a restore writes are accepted where the configuration is the same. -/
theorem validateRestoreJournal_plan (dir : Component → δ) (phase : RestorePhase)
    (v : Version β) (id : ι) :
    (validateRestoreJournal dir (journalOf phase (plan v id)) : Fs ι β Unit) = pure () := by
  have htargets : (plan v id).map (·.target) = liveTargets.map .target := by
    rw [plan, List.map_map]
    rfl
  have hinside : (plan v id).all (stagingInside dir) := by
    rw [plan, List.all_map, List.all_eq_true]
    intro c _
    show stagingInside dir (planSwap _ id c)
    unfold stagingInside planSwap
    by_cases hc : c.staging <;> simp [hc, Loc.parent]
  have hmembers : sameMembers (liveTargets.map (Loc.target (ι := ι)))
      ((plan v id).map (·.target)) := by
    rw [htargets, sameMembers, Bool.and_self, List.all_eq_true]
    intro l hl
    exact decide_eq_true hl
  have hlength : (plan v id).length = (liveTargets.map (Loc.target (ι := ι))).length := by
    rw [← htargets, List.length_map]
  unfold validateRestoreJournal journalOf
  simp [hmembers, hlength, hinside]

theorem recoverRestore_of_installing (dir : Component → δ) (hid : id ∈ used) :
    Guards (fun d => Unused used d ∧ (Clean v d ∨ Installing v used d))
      (fun d => Unused used d ∧ InstallingAs v id d)
      (recoverRestore dir : Fs ι β RestoreRecovery)
      fun r d => r = .rolledBack ∧ Unused used d ∧ Clean v d := by
  refine Triple.bind (R := fun _ d => Unused used d ∧ InstallingAs v id d) ?_ fun _ => ?_
  · exact (settle_guards _).weaken fun d h => ⟨h.1, .inr ⟨id, hid, h.2⟩⟩
  refine Triple.read_bind fun d hd => ?_
  rw [hd.2.journal]
  show Guards _ _ (validateRestoreJournal dir _ >>= fun _ => _) _
  rw [validateRestoreJournal_plan]
  refine Triple.bind (triple_pure (Q := fun _ => (· = d)) () fun _ h => h) fun _ => ?_
  refine Triple.bind (R := fun _ d => Unused used d ∧ Clean v d) ?_ fun _ => ?_
  · exact (rollbackRestore_guards hid).pre fun _ h => h ▸ hd
  · exact triple_pure _ fun _ h => ⟨rfl, h⟩

theorem recoverRestore_of_committed (dir : Component → δ) (hid : id ∈ used) :
    Guards (fun d => Unused used d ∧ (Clean v d ∨ Committed v used d))
      (Finishing v prior used id) (recoverRestore dir : Fs ι β RestoreRecovery)
      fun r d => r = .committed ∧ Unused used d ∧ Clean v d := by
  refine Triple.bind (R := fun _ => Finishing v prior used id) ?_ fun _ => ?_
  · exact (settle_guards _).weaken fun d h =>
      ⟨h.unused, .inr ⟨id, hid, prior, h.committed⟩⟩
  refine Triple.read_bind fun d hd => ?_
  rw [hd.committed.journal]
  show Guards _ _ (validateRestoreJournal dir _ >>= fun _ => _) _
  rw [validateRestoreJournal_plan]
  refine Triple.bind (triple_pure (Q := fun _ => (· = d)) () fun _ h => h) fun _ => ?_
  refine Triple.bind (R := fun _ d => Unused used d ∧ Clean v d) ?_ fun _ => ?_
  · exact (finishCommittedRestore_guards hid).pre fun _ h => h ▸ hd
  · exact triple_pure _ fun _ h => ⟨rfl, h⟩

/-- A restore that finds another unfinished leaves the state it stands for. -/
theorem recoverFirst_guards (dir : Component → δ) :
    Guards (Holds v used) (Holds v used) (recoverFirst dir : Fs ι β Unit)
      fun _ d => Unused used d ∧ Clean v d := by
  refine Triple.read_bind fun d ⟨hunused, hd⟩ => ?_
  rcases hd with hd | ⟨id, hid, hd⟩ | ⟨id, hid, prior, hd⟩
  · rw [hd.journal]
    exact triple_pure () fun _ h => h ▸ ⟨hunused, hd⟩
  · rw [hd.journal]
    have hinstalling : Unused used d ∧ InstallingAs v id d := ⟨hunused, hd⟩
    refine Triple.bind (((recoverRestore_of_installing dir hid).pre fun _ h =>
      h ▸ hinstalling).weaken ?_) fun r => ?_
    · exact fun d h => ⟨h.1, h.2.imp_right .inl⟩
    · exact triple_pure () fun _ h => h.2
  · rw [hd.journal]
    have hfinishing : Finishing v prior used id d := ⟨hunused, hd⟩
    refine Triple.bind (((recoverRestore_of_committed dir hid).pre fun _ h =>
      h ▸ hfinishing).weaken ?_) fun r => ?_
    · exact fun d h => ⟨h.1, h.2.imp_right .inr⟩
    · exact triple_pure () fun _ h => h.2

end Recovery

end Realtime.Backup
