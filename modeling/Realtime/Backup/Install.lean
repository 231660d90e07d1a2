import Realtime.Backup.Recovery

/-!
# Staging and installing

What is staged does not show at the live paths. An installation stands for the prior
state up to its second journal, and for the backup from there on.
-/

namespace Realtime.Backup

open Lib.Interrupt

variable {ι β δ : Type} {v : Version β} {source : Archive β} {used : List ι} {id : ι}

theorem find_plan (v : Version β) (id : ι) (c : Component) :
    (plan v id).find? (·.component = c) = some (planSwap (fun c => (v c).isSome) id c) := by
  cases c <;> rfl

section Stage

/-- No restore is under way, whatever is staged. -/
def Idle (v : Version β) (used : List ι) (d : Disk ι β) : Prop := Unused used d ∧ Clean v d

theorem Idle.frame_new {c : Component} {d d' : Disk ι β} (h : Idle v used d) (hid : id ∈ used)
    (hframe : Frame [.sibling c .restoreNew id] d d') : Idle v used d' := by
  have hsub : [Loc.sibling c .restoreNew id] ⊆ swapPaths id c := by
    intro l hl
    rw [List.mem_singleton.mp hl]
    exact sibling_mem_swapPaths _
  exact ⟨h.1.frame hid (hframe.mono hsub), hframe.journal.trans h.2.journal,
    fun c' => hframe.shows (by simp) (h.2.shows c')⟩

/-- What is staged, with the components still to come. -/
structure Staging (v : Version β) (source : Archive β) (used : List ι) (id : ι)
    (cs : List Component) (d : Disk ι β) : Prop where
  idle : Idle v used d
  old : ∀ c, d.entries (.sibling c .restoreOld id) = none
  coming : ∀ c ∈ cs, d.entries (.sibling c .restoreNew id) = none
  new : ∀ c ∉ cs, c.staging →
    d.entries (.sibling c .restoreNew id) = some (.whole (source.payload c))

theorem Staging.frame {c : Component} {cs : List Component} {d d' : Disk ι β}
    (h : Staging v source used id (c :: cs) d) (hid : id ∈ used) (hc : c ∉ cs)
    (hframe : Frame [.sibling c .restoreNew id] d d')
    (hnew : c.staging → d'.entries (.sibling c .restoreNew id) = some (.whole (source.payload c))) :
    Staging v source used id cs d' := by
  have hother : ∀ c' ≠ c, d'.entries (.sibling c' .restoreNew id) =
      d.entries (.sibling c' .restoreNew id) := fun c' hne => hframe.entries _ (by simp [hne])
  refine ⟨h.idle.frame_new hid hframe, fun c' => ?_, fun c' hc' => ?_, fun c' hc' hstaging => ?_⟩
  · rw [hframe.entries _ (by simp)]
    exact h.old c'
  · have hne : c' ≠ c := by
      rintro rfl
      exact hc hc'
    rw [hother c' hne]
    exact h.coming c' (List.mem_cons_of_mem _ hc')
  · by_cases hne : c' = c
    · subst hne
      exact hnew hstaging
    · rw [hother c' hne]
      exact h.new c' (List.not_mem_cons_of_ne_of_not_mem hne hc') hstaging

variable [DecidableEq ι]

theorem cleanupStagedSwaps_guards (hid : id ∈ used) (had : Component → Bool)
    (cs : List Component) :
    Guards (Idle v used) (Idle v used)
      (cleanupStagedSwaps (cs.map (planSwap had id)) : Fs ι β Unit) fun _ => Idle v used := by
  rw [cleanupStagedSwaps, forEach_map]
  refine Triple.forEach (I := fun _ => Idle v used) fun c _ => Triple.of_forall fun d hd => ?_
  exact (cleanupStagedSwap_guards had c id d).mono (fun _ => hd.frame_new hid)
    fun _ _ => hd.frame_new hid

theorem copyTo_guards {I Q : Disk ι β → Prop} {d : Disk ι β} {l : Loc ι} {content : β}
    (h : I d) (hpart : I (d.put l (some .part))) (hdone : Q (d.put l (some (.whole content)))) :
    Guards I (· = d) (copyTo l content : Fs ι β Unit) fun _ => Q :=
  guards_act_one h hpart hdone

theorem createDir_guards {I Q : Disk ι β → Prop} {d : Disk ι β} {l : Loc ι}
    (hl : d.entries l = none) (h : I d) (hdone : Q (d.put l (some .part))) :
    Guards I (· = d) (createDir l : Fs ι β Unit) fun _ => Q := by
  refine Triple.read_bind ?_
  rintro d rfl
  rw [if_neg (Bool.eq_false_iff.mp (exists_eq_false.mpr hl))]
  exact guards_atomic h hdone

/-- What staging a component leaves, and the swap it plans. -/
theorem stageComponent_guards (c : Component) {d : Disk ι β} (hshows : Shows v d c)
    (hnew : d.entries (.sibling c .restoreNew id) = none) :
    Guards (Frame [.sibling c .restoreNew id] d) (· = d) (stageComponent source id c)
      fun swap d' => swap = planSwap (fun c => (v c).isSome) id c ∧
        Frame [.sibling c .restoreNew id] d d' ∧
        (c.staging → d'.entries (.sibling c .restoreNew id) =
          some (.whole (source.payload c))) := by
  have hd := Frame.refl [Loc.sibling c .restoreNew id] d
  have hput : ∀ {d'} e, Frame [Loc.sibling c .restoreNew id] d d' →
      Frame [Loc.sibling c .restoreNew id] d (d'.put (.sibling c .restoreNew id) e) := fun e h =>
    h.put List.mem_cons_self e
  have hhad : ∀ d', Frame [Loc.sibling c .restoreNew id] d d' →
      d'.exists? (.target c) = (v c).isSome := by
    intro d' h
    rw [Disk.exists?, h.shows (by simp) hshows, Option.isSome_map]
  -- both kinds of staging end alike, once the payload is copied
  have hend : c.staging = true → Guards (Frame [Loc.sibling c .restoreNew id] d)
      (fun d' => Frame [Loc.sibling c .restoreNew id] d d' ∧
        d'.entries (.sibling c .restoreNew id) = some (.whole (source.payload c)))
      (do
        settle
        let hadOriginal ← pathExists (.target c)
        pure ⟨c, .target c, some (.sibling c .restoreNew id), .sibling c .restoreOld id,
          hadOriginal⟩ : Fs ι β (SwapPlan ι))
      fun swap d' => swap = planSwap (fun c => (v c).isSome) id c ∧
        Frame [.sibling c .restoreNew id] d d' ∧
        (c.staging → d'.entries (.sibling c .restoreNew id) =
          some (.whole (source.payload c))) := by
    intro hc
    refine Triple.bind ((settle_guards _).weaken fun _ h => h.1)
      fun _ => Triple.read_bind fun d' hd' => triple_pure _ ?_
    rintro d' rfl
    refine ⟨?_, hd'.1, fun _ => hd'.2⟩
    rw [planSwap, if_pos hc, hhad d' hd'.1]
  unfold stageComponent
  by_cases hc : c.staging
  · rw [if_pos hc]
    by_cases hfile : c.isFile
    · rw [if_pos hfile]
      refine Triple.bind ((settle_guards (· = d)).weaken fun _ h => h ▸ hd) fun _ => ?_
      refine Triple.bind (copyTo_guards hd (hput _ hd) ⟨hput _ hd, ?_⟩) fun _ => hend hc
      rw [Disk.entries_put_self]
    · rw [if_neg hfile]
      refine Triple.bind ((settle_guards (· = d)).weaken fun _ h => h ▸ hd) fun _ => ?_
      refine Triple.bind (createDir_guards hnew hd (hput _ hd)) fun _ => ?_
      refine Triple.bind (settle_guards (Frame [.sibling c .restoreNew id] d)) fun _ => ?_
      refine Triple.of_forall fun d' hd' => ?_
      refine Triple.bind (copyTo_guards hd' (hput _ hd') ⟨hput _ hd', ?_⟩) fun _ => hend hc
      rw [Disk.entries_put_self]
  · rw [if_neg hc]
    refine Triple.read_bind ?_
    rintro d rfl
    refine triple_pure _ ?_
    rintro d rfl
    refine ⟨?_, hd, fun hc' => absurd hc' hc⟩
    rw [planSwap, if_neg hc, hhad d hd]

theorem stageFrom_guards (hid : id ∈ used) (done cs : List Component) (hcs : cs.Nodup) :
    Guards (Idle v used) (Staging v source used id cs)
      (stageFrom source id (done.map (planSwap (fun c => (v c).isSome) id)) cs)
      fun swaps d => swaps = (done ++ cs).map (planSwap (fun c => (v c).isSome) id) ∧
        Staging v source used id [] d := by
  induction cs generalizing done with
  | nil =>
      rw [List.append_nil]
      exact triple_pure _ fun d h => ⟨rfl, h⟩
  | cons c cs ih =>
      obtain ⟨hc, hcs⟩ := List.nodup_cons.mp hcs
      refine Triple.bind (R := fun swap d => swap = planSwap (fun c => (v c).isSome) id c ∧
        Staging v source used id cs d) ?_ fun swap => ?_
      · refine Guards.onError ?_ (cleanupStagedSwaps_guards hid _ done)
        refine Triple.of_forall fun d hd => ?_
        exact (stageComponent_guards c (hd.idle.2.shows c)
          (hd.coming c List.mem_cons_self)).mono
          (fun _ h => hd.idle.frame_new hid h)
          fun _ _ h => ⟨h.1, hd.frame hid hc h.2.1 h.2.2⟩
      · refine Triple.of_forall ?_
        rintro d ⟨rfl, hd⟩
        have hnext := ih (done ++ [c]) hcs
        rw [List.append_assoc, List.map_append] at hnext
        exact hnext.pre fun _ h => h ▸ hd

/-- The whole backup is staged, and nothing has changed at the live paths. -/
theorem stageRestore_guards (hid : id ∈ used) :
    Guards (Idle v used)
      (fun d => Idle v used d ∧ ∀ c kind, d.entries (.sibling c kind id) = none)
      (stageRestore source id)
      fun swaps d => swaps = plan v id ∧ Staging v source used id [] d := by
  refine (stageFrom_guards hid [] liveTargets nodup_liveTargets).pre fun d hd => ?_
  exact ⟨hd.1, fun c => hd.2 c _, fun c _ => hd.2 c _,
    fun c hc => absurd (mem_liveTargets c) hc⟩

end Stage

section Verify

variable [DecidableEq β]

theorem verifyStagedComponent_guards {c : Component} (hc : c.staging) :
    Guards (Staging v source used id []) (Staging v source used id [])
      (verifyStagedComponent (plan v id) source.payload c : Fs ι β Unit)
      fun _ => Staging v source used id [] := by
  unfold verifyStagedComponent swapFor
  rw [find_plan]
  refine Triple.bind (triple_pure (Q := fun swap d =>
    swap = planSwap (fun c => (v c).isSome) id c ∧ Staging v source used id [] d) _
    fun _ h => ⟨rfl, h⟩) fun swap => Triple.of_forall ?_
  rintro d ⟨rfl, hd⟩
  unfold stagedPath planSwap
  simp only [hc, if_true]
  refine Triple.bind (triple_pure (Q := fun l d =>
    l = .sibling c .restoreNew id ∧ Staging v source used id [] d) _
    fun _ h => ⟨rfl, h ▸ hd⟩) fun l => Triple.of_forall ?_
  rintro d ⟨rfl, hd⟩
  refine Triple.bind ((settle_guards _).pre fun _ h => h ▸ hd) fun _ => ?_
  refine Triple.read_bind fun d hd => ?_
  rw [if_pos (hd.new c List.not_mem_nil hc)]
  exact triple_pure () fun _ h => h ▸ hd

theorem verifyStagedRestore_guards :
    Guards (Staging v source used id []) (Staging v source used id [])
      (verifyStagedRestore (plan v id) source.payload : Fs ι β Unit)
      fun _ => Staging v source used id [] := by
  have hloop := Triple.forEach (E := fun e d => e = none ∧ Staging v source used id [] d)
    (C := Staging v source used id [])
    (f := verifyStagedComponent (ι := ι) (plan v id) source.payload)
    (I := fun cs d => (∀ c ∈ cs, c.staging) ∧ Staging v source used id [] d)
    (l := liveTargets.filter Component.staging) fun c cs => Triple.of_forall fun d hd => ?_
  · refine Triple.mono hloop (fun d h => ⟨fun c hc => (List.mem_filter.mp hc).2, h⟩)
      (fun _ _ h => h.2) (fun _ _ h => h) fun _ h => h
  · have hone : Guards (Staging v source used id []) (· = d)
        (verifyStagedComponent (plan v id) source.payload c : Fs ι β Unit)
        fun _ => Staging v source used id [] :=
      (verifyStagedComponent_guards (hd.1 c List.mem_cons_self)).pre fun _ h => h ▸ hd.2
    refine hone.mono (fun _ h => h) fun _ d h => ⟨fun c' hc' => ?_, h⟩
    exact hd.1 c' (List.mem_cons_of_mem _ hc')

end Verify

section Install

/-- The installation of `source` over `v`, with the swaps still to come. -/
structure InstallingSwaps (v : Version β) (source : Archive β) (used : List ι) (id : ι)
    (cs : List Component) (d : Disk ι β) : Prop where
  unused : Unused used d
  nodup : cs.Nodup
  installing : InstallingAs v id d
  staged : ∀ c ∈ cs, Staged v source id d c
  shows : ∀ c ∉ cs, Shows source.version d c

/-- From the first journal of a restore of `source` over `v` to the removal of the last. -/
def Between (v : Version β) (source : Archive β) (used : List ι) (d : Disk ι β) : Prop :=
  Unused used d ∧ (Clean v d ∨ Installing v used d ∨ Clean source.version d ∨
    Committed source.version used d)

theorem writeJournal_guards {I Q : Disk ι β → Prop} {d : Disk ι β} {j : RestoreJournal ι}
    (h : I d) (hwritten : I (d.withJournal (some j))) (hdone : Q (d.withJournal (some j))) :
    Guards I (· = d) (writeJournal j : Fs ι β Unit) fun _ => Q :=
  guards_act_one h hwritten hdone

variable [DecidableEq ι]

theorem installSwap_installing (hid : id ∈ used) (c : Component) (cs : List Component) :
    Guards (Between v source used) (InstallingSwaps v source used id (c :: cs))
      (installSwap (planSwap (fun c => (v c).isSome) id c) : Fs ι β Unit)
      fun _ => InstallingSwaps v source used id cs := by
  refine Triple.of_forall fun d h => ?_
  obtain ⟨hc, hcs⟩ := List.nodup_cons.mp h.nodup
  refine (installSwap_guards rfl (h.staged c List.mem_cons_self)).mono ?_ ?_
  · rintro d' ⟨hframe, hroll⟩
    exact ⟨h.unused.frame hid hframe, .inr (.inl ⟨id, hid, h.installing.swap hframe hroll⟩)⟩
  · rintro - d' ⟨hframe, hroll, hshows⟩
    refine ⟨h.unused.frame hid hframe, hcs, h.installing.swap hframe hroll, fun c' hc' => ?_,
      fun c' hc' => ?_⟩
    · refine hframe.staged_of_ne ?_ (h.staged c' (List.mem_cons_of_mem _ hc'))
      rintro rfl
      exact hc hc'
    · by_cases hne : c' = c
      · exact hne ▸ hshows
      · exact hframe.shows_of_ne hne (h.shows c' (List.not_mem_cons_of_ne_of_not_mem hne hc'))

theorem installSwaps_guards (hid : id ∈ used) :
    Guards (Between v source used) (Staging v source used id [])
      (installSwaps (plan v id) : Fs ι β Unit)
      fun _ d => Unused used d ∧ Clean source.version d := by
  refine Triple.of_forall fun d hd => ?_
  have hstart : InstallingSwaps v source used id liveTargets
      (d.withJournal (some (journalOf .installing (plan v id)))) := by
    refine ⟨hd.idle.1, nodup_liveTargets, ⟨rfl, fun c => ?_⟩, fun c _ => ?_, fun c hc => ?_⟩
    · exact rollable_of_shows (hd.old c) (hd.idle.2.shows c)
    · exact ⟨hd.idle.2.shows c, hd.old c, hd.new c List.not_mem_nil⟩
    · exact absurd (mem_liveTargets c) hc
  refine Triple.bind (writeJournal_guards (Q := InstallingSwaps v source used id liveTargets)
    ⟨hd.idle.1, .inl hd.idle.2⟩ ⟨hd.idle.1, .inr (.inl ⟨id, hid, hstart.installing⟩)⟩ hstart)
    fun _ => ?_
  refine Triple.bind (R := fun _ => InstallingSwaps v source used id []) ?_ fun _ => ?_
  · rw [plan, forEach_map]
    exact Triple.forEach (I := InstallingSwaps v source used id) fun c cs =>
      installSwap_installing hid c cs
  refine Triple.of_forall fun d hd => ?_
  have hcommitted : Finishing source.version v used id
      (d.withJournal (some (journalOf .committed (plan v id)))) :=
    ⟨hd.unused, rfl, fun c => hd.shows c List.not_mem_nil⟩
  refine Triple.bind (writeJournal_guards (Q := Finishing source.version v used id)
    ⟨hd.unused, .inr (.inl ⟨id, hid, hd.installing⟩)⟩
    ⟨hd.unused, .inr (.inr (.inr ⟨id, hid, v, hcommitted.committed⟩))⟩ hcommitted) fun _ => ?_
  exact (finishCommittedRestore_guards hid).weaken fun _ h => ⟨h.1, .inr (.inr h.2)⟩

/-- What the recovery from a failed installation leaves, by what it reports. -/
def Recovered (v : Version β) (source : Archive β) (used : List ι) (r : RestoreRecovery)
    (d : Disk ι β) : Prop :=
  Unused used d ∧ match r with
  | .rolledBack => Clean v d ∨ Clean source.version d
  | .committed => Clean source.version d

/-- Without a journal only what is staged is left to remove. -/
theorem cleanupInstall_guards (hid : id ∈ used) {w : Version β}
    (hw : ∀ d : Disk ι β, Clean w d → Clean v d ∨ Clean source.version d) :
    Guards (Between v source used) (Idle w used) (do
      cleanupStagedSwaps (plan v id)
      pure .rolledBack : Fs ι β RestoreRecovery) (Recovered v source used) := by
  refine Triple.bind ((cleanupStagedSwaps_guards hid _ _).weaken ?_) fun _ =>
    triple_pure _ fun d' h => ⟨h.1, hw d' h.2⟩
  exact fun d' h => ⟨h.1, (hw d' h.2).imp (fun h => h) fun h => .inr (.inl h)⟩

theorem recoverInstall_guards [DecidableEq δ] (dir : Component → δ) (hid : id ∈ used) :
    Guards (Between v source used) (Between v source used)
      (recoverInstall dir (plan v id) : Fs ι β RestoreRecovery)
      (Recovered v source used) := by
  refine Triple.read_bind fun d ⟨hunused, hd⟩ => ?_
  rcases hd with hd | ⟨i, hi, hd⟩ | hd | ⟨i, hi, prior, hd⟩
  · rw [hd.journal]
    have hidle : Idle v used d := ⟨hunused, hd⟩
    exact (cleanupInstall_guards hid fun _ h => .inl h).pre fun _ h => h ▸ hidle
  · rw [hd.journal]
    have hinstalling : Unused used d ∧ InstallingAs v i d := ⟨hunused, hd⟩
    refine ((recoverRestore_of_installing dir hi).pre fun _ h => h ▸ hinstalling).mono ?_ ?_
    · exact fun d' h => ⟨h.1, h.2.imp_right .inl⟩
    · rintro _ d' ⟨rfl, h⟩
      exact ⟨h.1, .inl h.2⟩
  · rw [hd.journal]
    have hidle : Idle source.version used d := ⟨hunused, hd⟩
    exact (cleanupInstall_guards hid fun _ h => .inr h).pre fun _ h => h ▸ hidle
  · rw [hd.journal]
    have hfinishing : Finishing source.version prior used i d := ⟨hunused, hd⟩
    refine ((recoverRestore_of_committed dir hi).pre fun _ h => h ▸ hfinishing).mono ?_ ?_
    · exact fun d' h => ⟨h.1, .inr (.inr h.2)⟩
    · rintro _ d' ⟨rfl, h⟩
      exact h

end Install

end Realtime.Backup
