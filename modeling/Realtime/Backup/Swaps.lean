import Realtime.Backup.Restore

/-!
# What each swap leaves

The swaps of a restore concern one component each. For every action on a swap this
module says what it does to that component's paths, also where it fails or is stopped.
-/

namespace Realtime.Backup

open Lib.Interrupt

variable {ι β δ : Type}

/-- What the server state is: the content at each path, or nothing. -/
abbrev Version (β : Type) := Component → Option β

def Archive.version (source : Archive β) : Version β :=
  fun c => if c.staging then some (source.payload c) else none

/-- The two disks agree off `ls`. -/
structure Frame (ls : List (Loc ι)) (d d' : Disk ι β) : Prop where
  journal : d'.journal = d.journal
  entries : ∀ l, l ∉ ls → d'.entries l = d.entries l

namespace Frame

variable {ls ls' : List (Loc ι)} {d d' d'' : Disk ι β}

theorem refl (ls : List (Loc ι)) (d : Disk ι β) : Frame ls d d := ⟨rfl, fun _ _ => rfl⟩

theorem trans (h : Frame ls d d') (h' : Frame ls d' d'') : Frame ls d d'' :=
  ⟨h'.journal.trans h.journal, fun l hl => (h'.entries l hl).trans (h.entries l hl)⟩

theorem mono (h : Frame ls d d') (hls : ls ⊆ ls') : Frame ls' d d' :=
  ⟨h.journal, fun l hl => h.entries l fun hmem => hl (hls hmem)⟩

theorem put [DecidableEq ι] {l : Loc ι} (h : Frame ls d d') (hl : l ∈ ls)
    (e : Option (Entry β)) : Frame ls d (d'.put l e) := by
  refine ⟨h.journal, fun l' hl' => ?_⟩
  have hne : l' ≠ l := by
    rintro rfl
    exact hl' hl
  rw [Disk.entries_put_of_ne _ hne]
  exact h.entries l' hl'

end Frame

section Put

variable [DecidableEq ι] {c : Component} {id : ι}

@[simp] theorem target_put_sibling (d : Disk ι β) (c' : Component) (kind : SiblingKind)
    (e : Option (Entry β)) :
    (d.put (.sibling c kind id) e).entries (.target c') = d.entries (.target c') :=
  Disk.entries_put_of_ne d (by simp) e

@[simp] theorem sibling_put_target (d : Disk ι β) (c' : Component) (kind : SiblingKind)
    (e : Option (Entry β)) :
    (d.put (.target c') e).entries (.sibling c kind id) = d.entries (.sibling c kind id) :=
  Disk.entries_put_of_ne d (by simp) e

@[simp] theorem old_put_new (d : Disk ι β) (c' : Component) (e : Option (Entry β)) :
    (d.put (.sibling c' .restoreNew id) e).entries (.sibling c .restoreOld id) =
      d.entries (.sibling c .restoreOld id) :=
  Disk.entries_put_of_ne d (by simp) e

@[simp] theorem new_put_old (d : Disk ι β) (c' : Component) (e : Option (Entry β)) :
    (d.put (.sibling c' .restoreOld id) e).entries (.sibling c .restoreNew id) =
      d.entries (.sibling c .restoreNew id) :=
  Disk.entries_put_of_ne d (by simp) e

end Put

section Swap

variable {c : Component} {id : ι}

/-- The swap that is planned for a component. -/
def planSwap (had : Component → Bool) (id : ι) (c : Component) : SwapPlan ι :=
  ⟨c, .target c, if c.staging then some (.sibling c .restoreNew id) else none,
    .sibling c .restoreOld id, had c⟩

/-- The paths of a swap. -/
def swapPaths (id : ι) (c : Component) : List (Loc ι) :=
  [.target c, .sibling c .restoreNew id, .sibling c .restoreOld id]

theorem target_mem_swapPaths : (Loc.target c : Loc ι) ∈ swapPaths id c := List.mem_cons_self

theorem sibling_mem_swapPaths (kind : SiblingKind) : Loc.sibling c kind id ∈ swapPaths id c := by
  cases kind <;> simp [swapPaths]

/-- What is at the target is `v`'s content. -/
def Shows (v : Version β) (d : Disk ι β) (c : Component) : Prop :=
  d.entries (.target c) = (v c).map .whole

/-- The prior content can be brought back: it is set aside, or still at the target. -/
def Rollable (v : Version β) (id : ι) (d : Disk ι β) (c : Component) : Prop :=
  match d.entries (.sibling c .restoreOld id) with
  | some e => some e = (v c).map .whole
  | none => Shows v d c ∨
      v c = none ∧ c.staging ∧ d.entries (.sibling c .restoreNew id) = none

theorem rollable_of_old {v : Version β} {d : Disk ι β} {e : Entry β}
    (hold : d.entries (.sibling c .restoreOld id) = some e) (hv : some e = (v c).map .whole) :
    Rollable v id d c := by
  rw [Rollable, hold]
  exact hv

theorem rollable_of_shows {v : Version β} {d : Disk ι β}
    (hold : d.entries (.sibling c .restoreOld id) = none) (hshows : Shows v d c) :
    Rollable v id d c := by
  rw [Rollable, hold]
  exact .inl hshows

theorem rollable_of_installed {v : Version β} {d : Disk ι β}
    (hold : d.entries (.sibling c .restoreOld id) = none) (hv : v c = none) (hc : c.staging)
    (hnew : d.entries (.sibling c .restoreNew id) = none) : Rollable v id d c := by
  rw [Rollable, hold]
  exact .inr ⟨hv, hc, hnew⟩

theorem rollable_of_aside {v : Version β} {d : Disk ι β}
    (hold : d.entries (.sibling c .restoreOld id) = (v c).map .whole)
    (h : v c = none → Shows v d c ∨
      c.staging ∧ d.entries (.sibling c .restoreNew id) = none) : Rollable v id d c := by
  cases hv : v c with
  | some x =>
      rw [hv] at hold
      exact rollable_of_old hold (hv ▸ rfl)
  | none =>
      rw [hv] at hold
      rcases h hv with hshows | ⟨hc, hnew⟩
      · exact rollable_of_shows hold hshows
      · exact rollable_of_installed hold hv hc hnew

/-- What a staged swap finds: the prior content, its own payload and nothing set aside. -/
structure Staged (v : Version β) (source : Archive β) (id : ι) (d : Disk ι β) (c : Component) :
    Prop where
  shows : Shows v d c
  old : d.entries (.sibling c .restoreOld id) = none
  new : c.staging → d.entries (.sibling c .restoreNew id) = some (.whole (source.payload c))

/-- The prior content is set aside and nothing is at the target. -/
structure Aside (v : Version β) (source : Archive β) (id : ι) (d : Disk ι β) (c : Component) :
    Prop where
  target : d.entries (.target c) = none
  old : d.entries (.sibling c .restoreOld id) = (v c).map .whole
  new : c.staging → d.entries (.sibling c .restoreNew id) = some (.whole (source.payload c))

theorem Aside.rollable {v : Version β} {source : Archive β} {d : Disk ι β}
    (h : Aside v source id d c) : Rollable v id d c := by
  refine rollable_of_aside h.old fun hv => .inl ?_
  rw [Shows, hv]
  exact h.target

end Swap

section Others

variable {c c' : Component} {id : ι} {v : Version β} {d d' : Disk ι β}

/-- The swap of one component leaves the paths of every other. -/
theorem Frame.target_of_ne (h : Frame (swapPaths id c) d d') (hne : c' ≠ c) :
    d'.entries (.target c') = d.entries (.target c') :=
  h.entries _ (by simp [swapPaths, hne])

theorem Frame.sibling_of_ne (h : Frame (swapPaths id c) d d') (hne : c' ≠ c)
    (kind : SiblingKind) : d'.entries (.sibling c' kind id) = d.entries (.sibling c' kind id) :=
  h.entries _ (by simp [swapPaths, hne])

theorem Frame.shows_of_ne (h : Frame (swapPaths id c) d d') (hne : c' ≠ c)
    (hshows : Shows v d c') : Shows v d' c' :=
  (h.target_of_ne hne).trans hshows

theorem Frame.rollable_of_ne (h : Frame (swapPaths id c) d d') (hne : c' ≠ c)
    (hroll : Rollable v id d c') : Rollable v id d' c' := by
  unfold Rollable Shows at hroll ⊢
  rw [h.target_of_ne hne, h.sibling_of_ne hne, h.sibling_of_ne hne]
  exact hroll

theorem Frame.staged_of_ne {source : Archive β} (h : Frame (swapPaths id c) d d') (hne : c' ≠ c)
    (hstaged : Staged v source id d c') : Staged v source id d' c' :=
  ⟨h.shows_of_ne hne hstaged.shows, (h.sibling_of_ne hne _).trans hstaged.old,
    fun hc => (h.sibling_of_ne hne _).trans (hstaged.new hc)⟩

end Others

section Actions

theorem exists_eq_false {d : Disk ι β} {l : Loc ι} : d.exists? l = false ↔ d.entries l = none := by
  rw [Disk.exists?, Option.isSome_eq_false_iff, Option.isNone_iff_eq_none]

/-- Whatever holds still holds once a directory is synced. -/
theorem settle_guards (I : Disk ι β → Prop) : Guards I I (settle : Fs ι β Unit) fun _ => I :=
  Triple.of_forall fun _ h => guards_atomic h h

variable [DecidableEq ι] {I : Disk ι β → Prop} {Q : Disk ι β → Prop} {d : Disk ι β}

theorem removePath_guards {l : Loc ι} (h : I d) (hpart : I (d.put l (some .part)))
    (hdone : Q (d.put l none)) : Guards I (· = d) (removePath l : Fs ι β Unit) fun _ => Q :=
  guards_act_one h hpart hdone

theorem removeIfExists_guards {l : Loc ι} (h : I d) (hpart : I (d.put l (some .part)))
    (hdone : Q (d.put l none)) (hnone : d.entries l = none → Q d) :
    Guards I (· = d) (removeIfExists l : Fs ι β Unit) fun _ => Q := by
  refine Triple.read_bind ?_
  rintro d rfl
  cases hexists : d.exists? l with
  | true => exact removePath_guards h hpart hdone
  | false =>
      refine triple_pure () ?_
      rintro d rfl
      exact hnone (exists_eq_false.mp hexists)

theorem rename_guards {src dst : Loc ι} {e : Entry β} (he : d.entries src = some e) (h : I d)
    (hdone : Q ((d.put src none).put dst (some e))) :
    Guards I (· = d) (rename src dst : Fs ι β Unit) fun _ => Q := by
  refine Triple.read_bind ?_
  rintro d rfl
  rw [he]
  exact guards_atomic h hdone

end Actions

theorem installedWithoutOriginal_iff {had : Component → Bool} {id : ι} {c : Component}
    {d : Disk ι β} :
    installedWithoutOriginal (planSwap had id c) d ↔
      had c = false ∧ d.exists? (.target c) ∧ c.staging ∧
        d.entries (.sibling c .restoreNew id) = none := by
  unfold installedWithoutOriginal planSwap
  rw [Bool.and_eq_true, Bool.and_eq_true, Bool.not_eq_true', and_assoc]
  refine and_congr_right fun _ => and_congr_right fun _ => ?_
  by_cases hc : c.staging
  · simp only [hc, if_true, Option.any_some, Bool.not_eq_true', exists_eq_false, true_and]
  · simp [hc]

/-- A swap that cleans up keeps what is at its target. -/
theorem Frame.shows {ls : List (Loc ι)} {d d' : Disk ι β} {v : Version β} {c : Component}
    (h : Frame ls d d') (hls : Loc.target c ∉ ls) (hshows : Shows v d c) : Shows v d' c :=
  (h.entries _ hls).trans hshows

section OneSwap

variable [DecidableEq ι] {c : Component} {id : ι} {v : Version β} {had : Component → Bool}
variable {d : Disk ι β}

theorem cleanupStagedSwap_guards (had : Component → Bool) (c : Component) (id : ι)
    (d : Disk ι β) :
    Guards (Frame [.sibling c .restoreNew id] d) (· = d) (cleanupStagedSwap (planSwap had id c))
      fun _ => Frame [.sibling c .restoreNew id] d := by
  unfold cleanupStagedSwap planSwap
  have hframe := Frame.refl [Loc.sibling c .restoreNew id] d
  by_cases hc : c.staging
  · simp only [hc, if_true]
    exact removeIfExists_guards hframe (hframe.put (by simp) _) (hframe.put (by simp) _)
      fun _ => hframe
  · simp only [hc]
    refine triple_pure () ?_
    rintro d rfl
    exact hframe

/-- Clean up and sync, where `I` does not depend on the staging path. -/
theorem cleanupAndSettle_guards {I : Disk ι β → Prop}
    (hI : ∀ d', Frame [.sibling c .restoreNew id] d d' → I d') :
    Guards I (· = d) (do cleanupStagedSwap (planSwap had id c); settle) fun _ => I :=
  Triple.bind ((cleanupStagedSwap_guards had c id d).mono hI fun _ => hI)
    fun _ => settle_guards I

theorem finishSwap_guards (hshows : Shows v d c) :
    Guards (fun d' => Frame (swapPaths id c) d d' ∧ Shows v d' c) (· = d)
      (finishSwap (planSwap had id c))
      fun _ d' => Frame (swapPaths id c) d d' ∧ Shows v d' c := by
  have hkeeps : ∀ d₁ d₂ kind, Frame (swapPaths id c) d d₁ → Shows v d₁ c →
      Frame [Loc.sibling c kind id] d₁ d₂ → Frame (swapPaths id c) d d₂ ∧ Shows v d₂ c := by
    intro d₁ d₂ kind h₁ hshows h
    have hsub : [Loc.sibling c kind id] ⊆ swapPaths id c := by
      intro l hl
      rw [List.mem_singleton.mp hl]
      exact sibling_mem_swapPaths kind
    exact ⟨h₁.trans (h.mono hsub), h.shows (by simp) hshows⟩
  have hd := Frame.refl (swapPaths id c) d
  have hold := Frame.refl [Loc.sibling c .restoreOld id] d
  refine Triple.bind (R := fun _ d' => Frame (swapPaths id c) d d' ∧ Shows v d' c) ?_ fun _ => ?_
  · exact removeIfExists_guards ⟨hd, hshows⟩
      (hkeeps d _ .restoreOld hd hshows (hold.put List.mem_cons_self _))
      (hkeeps d _ .restoreOld hd hshows (hold.put List.mem_cons_self _)) fun _ => ⟨hd, hshows⟩
  refine Triple.of_forall fun d' hd' => ?_
  exact cleanupAndSettle_guards fun d'' h => hkeeps d' d'' _ hd'.1 hd'.2 h

theorem rollbackTarget_guards (hhad : had c = (v c).isSome) (h : Rollable v id d c) :
    Guards (fun d' => Frame (swapPaths id c) d d' ∧ Rollable v id d' c) (· = d)
      (rollbackTarget (planSwap had id c))
      fun _ d' => Frame (swapPaths id c) d d' ∧
        d'.entries (.sibling c .restoreOld id) = none ∧ Shows v d' c := by
  have hd := Frame.refl (swapPaths id c) d
  have hroll := h
  unfold Rollable at h
  refine Triple.read_bind ?_
  rintro d rfl
  show Guards _ _ (if (d.entries (.sibling c .restoreOld id)).isSome then _ else _) _
  cases hold : d.entries (.sibling c .restoreOld id) with
  | some e =>
      rw [hold] at h
      rw [Option.isSome_some, if_pos rfl]
      have hput : ∀ e', Frame (swapPaths id c) d (d.put (.target c) e') ∧
          (d.put (.target c) e').entries (.sibling c .restoreOld id) = some e := fun e' =>
        ⟨hd.put target_mem_swapPaths e', by rw [sibling_put_target, hold]⟩
      refine Triple.bind (R := fun _ d' => Frame (swapPaths id c) d d' ∧
        d'.entries (.sibling c .restoreOld id) = some e) ?_ fun _ => ?_
      · exact removeIfExists_guards ⟨hd, hroll⟩
          ⟨(hput _).1, rollable_of_old (hput _).2 h⟩ (hput _) fun _ => ⟨hd, hold⟩
      refine Triple.of_forall fun d' ⟨hd', hold'⟩ => ?_
      refine rename_guards hold' ⟨hd', rollable_of_old hold' h⟩ ⟨?_, ?_, ?_⟩
      · exact (hd'.put (sibling_mem_swapPaths _) _).put target_mem_swapPaths _
      · show ((d'.put (.sibling c .restoreOld id) none).put (.target c) (some e)).entries _ = none
        rw [sibling_put_target, Disk.entries_put_self]
      · exact (Disk.entries_put_self _ _ _).trans h
  | none =>
      rw [hold] at h
      rw [Option.isSome_none, if_neg (by simp)]
      refine Triple.read_bind ?_
      rintro d rfl
      cases hinst : installedWithoutOriginal (planSwap had id c) d with
      | true =>
          obtain ⟨hnot, -, hc, hnew⟩ := installedWithoutOriginal_iff.mp hinst
          have hv : v c = none := by
            rw [← Option.isNone_iff_eq_none, ← Option.isSome_eq_false_iff, ← hhad, hnot]
          have hput : ∀ e, Frame (swapPaths id c) d (d.put (.target c) e) ∧
              (d.put (.target c) e).entries (.sibling c .restoreOld id) = none ∧
              (d.put (.target c) e).entries (.sibling c .restoreNew id) = none := fun e =>
            ⟨hd.put target_mem_swapPaths e, by rw [sibling_put_target, hold],
              by rw [sibling_put_target, hnew]⟩
          refine removePath_guards ⟨hd, hroll⟩ ⟨(hput _).1, ?_⟩ ⟨(hput _).1, (hput _).2.1, ?_⟩
          · exact rollable_of_installed (hput _).2.1 hv hc (hput _).2.2
          · rw [Shows, hv]
            exact Disk.entries_put_self _ _ _
      | false =>
          refine triple_pure () ?_
          rintro d rfl
          refine ⟨hd, hold, ?_⟩
          rcases h with h | ⟨hv, hc, hnew⟩
          · exact h
          rw [Shows, hv]
          by_contra hne
          refine absurd (installedWithoutOriginal_iff.mpr ⟨?_, ?_, hc, hnew⟩)
            (Bool.eq_false_iff.mp hinst)
          · rw [hhad, hv, Option.isSome_none]
          · exact Option.isSome_iff_ne_none.mpr hne

theorem rollbackSwap_guards (hhad : had c = (v c).isSome) (h : Rollable v id d c) :
    Guards (fun d' => Frame (swapPaths id c) d d' ∧ Rollable v id d' c) (· = d)
      (rollbackSwap (planSwap had id c))
      fun _ d' => Frame (swapPaths id c) d d' ∧ Rollable v id d' c ∧ Shows v d' c := by
  refine Triple.bind (rollbackTarget_guards hhad h) fun _ => ?_
  refine Triple.of_forall fun d' ⟨hd', hold, hshows⟩ => ?_
  refine (cleanupAndSettle_guards (I := fun d'' => Frame (swapPaths id c) d d'' ∧
    Rollable v id d'' c ∧ Shows v d'' c) ?_).weaken
    fun _ h => ⟨h.1, h.2.1⟩
  intro d'' hframe
  have hshows' := hframe.shows (by simp) hshows
  refine ⟨hd'.trans (hframe.mono ?_), rollable_of_shows ?_ hshows', hshows'⟩
  · intro l hl
    rw [List.mem_singleton.mp hl]
    exact sibling_mem_swapPaths _
  · exact (hframe.entries _ (by simp)).trans hold

theorem setAside_guards {source : Archive β} (h : Staged v source id d c) :
    Guards (fun d' => Frame (swapPaths id c) d d' ∧ Rollable v id d' c) (· = d)
      (when (v c).isSome (rename (.target c) (.sibling c .restoreOld id)))
      fun _ d' => Frame (swapPaths id c) d d' ∧ Aside v source id d' c := by
  have hd := Frame.refl (swapPaths id c) d
  have hroll := rollable_of_shows h.old h.shows
  have hshows := h.shows
  unfold Shows at hshows
  cases hv : v c with
  | some x =>
      rw [hv] at hshows
      refine rename_guards hshows ⟨hd, hroll⟩ ⟨?_, ?_, ?_, fun hc => ?_⟩
      · exact (hd.put target_mem_swapPaths _).put (sibling_mem_swapPaths _) _
      · rw [target_put_sibling, Disk.entries_put_self]
      · rw [Disk.entries_put_self, hv]
        rfl
      · rw [new_put_old, sibling_put_target]
        exact h.new hc
  | none =>
      rw [hv] at hshows
      refine triple_pure () ?_
      rintro d rfl
      exact ⟨hd, hshows, by rw [hv]; exact h.old, h.new⟩

theorem installStaged_guards {source : Archive β} (h : Aside v source id d c) :
    Guards (fun d' => Frame (swapPaths id c) d d' ∧ Rollable v id d' c) (· = d)
      (installStaged (planSwap had id c))
      fun _ d' => Frame (swapPaths id c) d d' ∧ Rollable v id d' c ∧ Shows source.version d' c := by
  have hd := Frame.refl (swapPaths id c) d
  unfold installStaged planSwap
  by_cases hc : c.staging
  · simp only [hc, if_true]
    refine rename_guards (h.new hc) ⟨hd, h.rollable⟩ ⟨?_, ?_, ?_⟩
    · exact (hd.put (sibling_mem_swapPaths _) _).put target_mem_swapPaths _
    · refine rollable_of_aside ?_ fun _ => .inr ⟨hc, ?_⟩
      · rw [sibling_put_target, old_put_new]
        exact h.old
      · rw [sibling_put_target, Disk.entries_put_self]
    · rw [Shows, Disk.entries_put_self, Archive.version, if_pos hc]
      rfl
  · simp only [hc]
    refine triple_pure () ?_
    rintro d rfl
    refine ⟨hd, h.rollable, ?_⟩
    rw [Shows, Archive.version, if_neg hc]
    exact h.target

theorem installSwap_guards {source : Archive β} (hhad : had c = (v c).isSome)
    (h : Staged v source id d c) :
    Guards (fun d' => Frame (swapPaths id c) d d' ∧ Rollable v id d' c) (· = d)
      (installSwap (planSwap had id c))
      fun _ d' => Frame (swapPaths id c) d d' ∧ Rollable v id d' c ∧
        Shows source.version d' c := by
  refine Triple.read_bind ?_
  rintro d rfl
  show Guards _ _ (if d.exists? (.sibling c .restoreOld id) then _ else _) _
  rw [if_neg (Bool.eq_false_iff.mp (exists_eq_false.mpr h.old))]
  refine Triple.bind (R := fun _ d' => Frame (swapPaths id c) d d' ∧ Aside v source id d' c)
    ?_ fun _ => ?_
  · have haside := setAside_guards h
    rw [← hhad] at haside
    exact haside
  refine Triple.of_forall fun d' ⟨hd', haside⟩ => ?_
  refine Triple.bind (R := fun _ d'' => Frame (swapPaths id c) d d'' ∧ Rollable v id d'' c ∧
    Shows source.version d'' c) ?_ fun _ => ?_
  · exact (installStaged_guards haside).mono (fun _ h => ⟨hd'.trans h.1, h.2⟩)
      fun _ _ h => ⟨hd'.trans h.1, h.2⟩
  · exact (settle_guards _).weaken fun _ h => ⟨h.1, h.2.1⟩

end OneSwap

end Realtime.Backup
