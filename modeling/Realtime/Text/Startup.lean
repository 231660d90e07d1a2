import Realtime.Text.Contains
import Realtime.Text.MergedLines

/-!
# The startup reconcile of a text document

A `Document` loads its stored text, reads the file, and waits for the first
sync; until then a change of the file only replaces what will be merged. The
reconcile then measures the file and the remote text from the stored baseline,
and either settles on one text or asks the user.

An edit made to a file that lagged the stored document is measured from the
wrong text: the lines the file never had look deleted. The reconcile loses no
line when every line of the baseline was in the file the edit started from.
-/

namespace Realtime.TextMerge.Startup

open Lib.Utf16

variable {φ : Type*}

/-- What the document is created with and what its store has loaded. -/
structure Device (φ : Type*) where
  isCreator : Bool
  forceBootstrapConflict : Bool
  staleLocalFingerprint : Option φ
  retiredBaselineText : Option JsString
  loadedStoredState : Bool
  content : JsString
  epoch : Nat
  documentEpoch : Nat
  acknowledgedFingerprint : Option φ
  diskFingerprint : Option (Nat × φ)
  sha256Text : JsString → φ

namespace Device

/-- `baselineAtStartup`, as `afterPersistenceSynced` takes it. -/
def baselineAtStartup (device : Device φ) : JsString :=
  match device.loadedStoredState, device.retiredBaselineText with
  | false, some retired => retired
  | _, _ => device.content

def storedContentFingerprint (device : Device φ) (text : JsString) : Nat × φ :=
  (device.epoch, device.sha256Text text)

def storeContainsDiskContent [DecidableEq φ] (device : Device φ) (text : JsString) : Bool :=
  if device.loadedStoredState then
    device.diskFingerprint == some (device.storedContentFingerprint text)
  else device.acknowledgedFingerprint == some (device.sha256Text text)

def stale [DecidableEq φ] (device : Device φ) (disk : JsString) : Bool :=
  device.staleLocalFingerprint == some (device.sha256Text disk)

/-- The file holds no local edit. -/
def recognises [DecidableEq φ] (device : Device φ) (disk : JsString) : Bool :=
  device.stale disk || device.storeContainsDiskContent disk

end Device

/-- The fields the reconcile decides from. -/
structure State where
  diskAtStartup : Option JsString
  localChangedAtStartup : Bool
  startupDiskReadPending : Bool
  forceBootstrapConflict : Bool

namespace State

def init (device : Device φ) : State :=
  ⟨none, false, false, device.forceBootstrapConflict⟩

/-- `captureStartupDisk`, once the file is read. -/
def captureStartupDisk [DecidableEq φ] (device : Device φ) (s : State)
    (disk : Option JsString) : State where
  diskAtStartup := disk
  localChangedAtStartup :=
    match disk with
    | none => false
    | some text => !device.recognises text && text != device.baselineAtStartup
  startupDiskReadPending := false
  forceBootstrapConflict :=
    match disk with
    | none => s.forceBootstrapConflict
    | some text => s.forceBootstrapConflict && !device.stale text

def adoptStartupDisk (device : Device φ) (s : State) (disk : JsString) : State where
  diskAtStartup := some disk
  localChangedAtStartup := disk != device.baselineAtStartup
  startupDiskReadPending := false
  forceBootstrapConflict := s.forceBootstrapConflict

end State

/-- What happens before the reconcile decides. A read that failed is repeated by
`finishStartupReconcile`, as another `captured`. -/
inductive Event where
  | captured (disk : Option JsString)
  | readFailed
  | changed (disk : JsString)

def State.step [DecidableEq φ] (device : Device φ) (s : State) : Event → State
  | .captured disk => s.captureStartupDisk device disk
  | .readFailed => { s with startupDiskReadPending := true }
  | .changed disk => s.adoptStartupDisk device disk

def State.run [DecidableEq φ] (device : Device φ) (events : List Event) : State :=
  events.foldl (State.step device) (State.init device)

inductive Outcome where
  | settled (text : JsString)
  | ask (localDisk : JsString)
  | retry
  deriving DecidableEq

section Decision

variable (diffArrays : List JsString → List JsString → List ArrayChange) (device : Device φ)
  (s : State) (remote : JsString)

def State.creatorHasLocalAgainstEmptyRemote : Bool :=
  match s.diskAtStartup with
  | none => false
  | some localDisk => device.isCreator && !localDisk.isEmpty && remote.isEmpty

def State.isConflict : Bool :=
  match s.diskAtStartup with
  | none => false
  | some localDisk =>
      (s.localChangedAtStartup || s.forceBootstrapConflict) && remote != localDisk &&
        (remote != device.baselineAtStartup || s.forceBootstrapConflict) &&
        !s.creatorHasLocalAgainstEmptyRemote device remote

def State.sameDevicePrefixFastForward (localDisk : JsString) : Bool :=
  s.isConflict device remote && !s.forceBootstrapConflict && device.documentEpoch == 0 &&
    device.baselineAtStartup.isEmpty && localDisk.length > remote.length &&
    remote.isPrefixOf localDisk

/-- The merge of a conflict. -/
def State.conflictMerge (localDisk : JsString) : TextMergeResult :=
  let allowLocalSuperset := device.documentEpoch == 0
  let merge :=
    if s.forceBootstrapConflict then mergeWithoutBaseline localDisk remote allowLocalSuperset
    else mergeText diffArrays device.baselineAtStartup localDisk remote
  if merge = .conflict ∧ !s.forceBootstrapConflict ∧ device.baselineAtStartup.isEmpty then
    mergeWithoutBaseline localDisk remote allowLocalSuperset
  else merge

/-- The decision of `finishStartupReconcile`; `remote` is the shared text. -/
def State.finishStartupReconcile : Outcome :=
  if s.startupDiskReadPending then .retry
  else
    match s.diskAtStartup with
    | none => .settled remote
    | some localDisk =>
        if s.sameDevicePrefixFastForward device remote localDisk then .settled localDisk
        else if s.isConflict device remote then
          match s.conflictMerge diffArrays device remote localDisk with
          | .merged content => .settled content
          | .conflict => .ask localDisk
        else if s.localChangedAtStartup && (remote == device.baselineAtStartup ||
            s.creatorHasLocalAgainstEmptyRemote device remote) then .settled localDisk
        else .settled remote

end Decision

/-! ## What the reconcile may not lose -/

/-- The file content an edit of the user started from, and whether there may be
such an edit at all. -/
structure Source where
  startedFrom : JsString
  edited : Bool

/-- `closed` is what the file held before it was edited while the document was
not open. -/
def Source.step [DecidableEq φ] (device : Device φ) (closed : JsString) (source : Source) :
    Event → Source
  | .captured none => ⟨[], false⟩
  | .captured (some disk) =>
      if device.recognises disk then ⟨disk, false⟩ else ⟨closed, true⟩
  | .readFailed => source
  | .changed _ => { source with edited := true }

def Source.run [DecidableEq φ] (device : Device φ) (closed : JsString) (events : List Event) :
    Source :=
  events.foldl (Source.step device closed) ⟨closed, false⟩

/-- One side holds the other, line by line or from its start. -/
def Contains (outer inner : JsString) : Prop :=
  (contentLines inner).Sublist (contentLines outer) ∨ inner <+: outer

/-- The lines the user changed are in the result, and so are those of the shared
text that the file never had. -/
structure Keeps (startedFrom : JsString) (disk : Option JsString) (remote result : JsString) :
    Prop where
  changed : ∀ text ∈ disk, ∀ line ∈ lines text, line ∉ lines startedFrom → line ∈ lines result
  gained : ∀ line ∈ lines remote, line ∉ lines startedFrom →
    (∀ text ∈ disk, line ∉ lines text) → line ∈ lines result

def LosesNothing (startedFrom : JsString) (disk : Option JsString) (remote result : JsString) :
    Prop :=
  Keeps startedFrom disk remote result ∨
    ∃ text ∈ disk, (result = remote ∧ Contains remote text) ∨ (result = text ∧ Contains text remote)

/-- The file and the shared text are merged from the stored baseline. -/
def State.MergesBaseline (diffArrays : List JsString → List JsString → List ArrayChange)
    (device : Device φ) (s : State) (remote localDisk : JsString) : Prop :=
  s.isConflict device remote = true ∧ s.forceBootstrapConflict = false ∧
    s.sameDevicePrefixFastForward device remote localDisk = false ∧
    mergeText diffArrays device.baselineAtStartup localDisk remote ≠ .conflict

/-- Whichever text counts as the newer one holds the other. -/
def State.NewerContains (s : State) (remote localDisk : JsString) : Prop :=
  if s.localChangedAtStartup then Contains localDisk remote else Contains remote localDisk

/-- An edit is merged only from a baseline without lines that the file did not have
when the edit began. Where neither a merge nor the user decides, the baseline may have
lines that are in both texts as well, or the newer text holds the older one. -/
def Measured (diffArrays : List JsString → List JsString → List ArrayChange) (device : Device φ)
    (s : State) (source : Source) (remote : JsString) : Prop :=
  ∀ localDisk ∈ s.diskAtStartup, source.edited = true →
    (s.MergesBaseline diffArrays device remote localDisk →
      ∀ line ∈ lines device.baselineAtStartup, line ∈ lines source.startedFrom) ∧
    (s.isConflict device remote = false → s.NewerContains remote localDisk ∨
      ∀ line ∈ lines device.baselineAtStartup,
        line ∈ lines source.startedFrom ∨ (line ∈ lines localDisk ∧ line ∈ lines remote))

/-! ## The state before the reconcile -/

structure Tracks (device : Device φ) (s : State) (source : Source) : Prop where
  changed_ne : s.localChangedAtStartup = true →
    ∀ text ∈ s.diskAtStartup, text ≠ device.baselineAtStartup
  unchanged_eq : source.edited = true → s.localChangedAtStartup = false →
    ∀ text ∈ s.diskAtStartup, text = device.baselineAtStartup
  unedited : source.edited = false → s.localChangedAtStartup = false ∧
    ∀ text ∈ s.diskAtStartup, text = source.startedFrom

theorem Tracks.init (device : Device φ) (closed : JsString) :
    Tracks device (State.init device) ⟨closed, false⟩ :=
  ⟨by simp [State.init], by simp, by simp [State.init]⟩

theorem Tracks.step [DecidableEq φ] {device : Device φ} {s : State} {source : Source}
    (closed : JsString) (h : Tracks device s source) (event : Event) :
    Tracks device (s.step device event) (source.step device closed event) := by
  cases event with
  | captured disk =>
      cases disk with
      | none =>
          exact ⟨by simp [State.step, State.captureStartupDisk], by simp [Source.step],
            by simp [State.step, State.captureStartupDisk]⟩
      | some disk =>
          by_cases hrec : device.recognises disk = true
          · -- whatever the text, it is no edit
            refine ⟨?_, ?_, ?_⟩ <;>
              simp [State.step, Source.step, State.captureStartupDisk, hrec]
          · refine ⟨?_, ?_, ?_⟩ <;>
              simp [State.step, Source.step, State.captureStartupDisk, hrec]
  | readFailed => exact ⟨h.changed_ne, h.unchanged_eq, h.unedited⟩
  | changed disk =>
      refine ⟨?_, ?_, ?_⟩ <;> simp [State.step, Source.step, State.adoptStartupDisk]

theorem Tracks.run [DecidableEq φ] (device : Device φ) (closed : JsString) (events : List Event) :
    Tracks device (State.run device events) (Source.run device closed events) := by
  have hfold : ∀ (s : State) (source : Source), Tracks device s source →
      Tracks device (events.foldl (State.step device) s)
        (events.foldl (Source.step device closed) source) := by
    induction events with
    | nil => exact fun s source h => h
    | cons event events ih =>
        intro s source h
        exact ih _ _ (h.step closed event)
  exact hfold _ _ (Tracks.init device closed)

/-! ## What the reconcile settles on -/

theorem mergeWithoutBaseline_contains {localText remoteText content : JsString} {allow : Bool}
    (h : mergeWithoutBaseline localText remoteText allow = .merged content) :
    (content = remoteText ∧ Contains remoteText localText) ∨
      (content = localText ∧ Contains localText remoteText) := by
  rw [mergeWithoutBaseline] at h
  split at h
  · next heq =>
      obtain rfl := TextMergeResult.merged.inj h
      exact Or.inr ⟨rfl, Or.inr (heq ▸ List.prefix_refl _)⟩
  · split at h
    · next hcontains =>
        obtain rfl := TextMergeResult.merged.inj h
        exact Or.inl ⟨rfl, Or.inl (findLines_iff.mp hcontains)⟩
    · split at h
      · next hcontains =>
          obtain rfl := TextMergeResult.merged.inj h
          rw [Bool.and_eq_true] at hcontains
          exact Or.inr ⟨rfl, Or.inl (findLines_iff.mp hcontains.2)⟩
      · cases h

/-- The ways a present file and the shared text are settled. -/
inductive Settles (diffArrays : List JsString → List JsString → List ArrayChange)
    (device : Device φ) (s : State) (remote localDisk : JsString) : JsString → Prop where
  | contained {result : JsString} (conflict : s.isConflict device remote = true)
      (h : (result = remote ∧ Contains remote localDisk) ∨
        (result = localDisk ∧ Contains localDisk remote)) :
      Settles diffArrays device s remote localDisk result
  | merged {result : JsString} (merges : s.MergesBaseline diffArrays device remote localDisk)
      (changed : s.localChangedAtStartup = true) (differs : remote ≠ localDisk)
      (remoteChanged : remote ≠ device.baselineAtStartup)
      (merge : mergeText diffArrays device.baselineAtStartup localDisk remote = .merged result) :
      Settles diffArrays device s remote localDisk result
  | fastForward (conflict : s.isConflict device remote = false)
      (changed : s.localChangedAtStartup = true)
      (base : remote = device.baselineAtStartup ∨ remote = []) :
      Settles diffArrays device s remote localDisk localDisk
  | remoteStays (conflict : s.isConflict device remote = false)
      (unchanged : s.localChangedAtStartup = false ∨ remote ≠ device.baselineAtStartup ∧
        s.creatorHasLocalAgainstEmptyRemote device remote = false) :
      Settles diffArrays device s remote localDisk remote

section Settled

variable {diffArrays : List JsString → List JsString → List ArrayChange} {device : Device φ}
  {s : State} {remote result localDisk : JsString}

/-- Why there is no conflict. -/
theorem not_isConflict (hdisk : s.diskAtStartup = some localDisk)
    (h : s.isConflict device remote = false) :
    (s.localChangedAtStartup = false ∧ s.forceBootstrapConflict = false) ∨ remote = localDisk ∨
      (remote = device.baselineAtStartup ∧ s.forceBootstrapConflict = false) ∨
      s.creatorHasLocalAgainstEmptyRemote device remote = true := by
  simp only [State.isConflict, hdisk] at h
  by_cases hcreator : s.creatorHasLocalAgainstEmptyRemote device remote = true
  · exact Or.inr (Or.inr (Or.inr hcreator))
  · cases hl : s.localChangedAtStartup <;> cases hf : s.forceBootstrapConflict <;> grind

theorem isConflict_cases (hdisk : s.diskAtStartup = some localDisk)
    (h : s.isConflict device remote = true) :
    s.forceBootstrapConflict = true ∨
      (s.forceBootstrapConflict = false ∧ s.localChangedAtStartup = true ∧ remote ≠ localDisk ∧
        remote ≠ device.baselineAtStartup) := by
  simp only [State.isConflict, hdisk] at h
  cases hf : s.forceBootstrapConflict <;> simp_all

theorem conflictMerge_cases
    (h : s.conflictMerge diffArrays device remote localDisk = .merged result) :
    (∃ allow, mergeWithoutBaseline localDisk remote allow = .merged result) ∨
      (s.forceBootstrapConflict = false ∧
        mergeText diffArrays device.baselineAtStartup localDisk remote = .merged result) := by
  unfold State.conflictMerge at h
  cases hf : s.forceBootstrapConflict with
  | true =>
      refine Or.inl ⟨device.documentEpoch == 0, ?_⟩
      simpa [hf] using h
  | false =>
      simp only [hf, Bool.false_eq_true, if_false] at h
      split at h
      · exact Or.inl ⟨_, h⟩
      · exact Or.inr ⟨rfl, h⟩

theorem settles_of_settled (hdisk : s.diskAtStartup = some localDisk)
    (h : s.finishStartupReconcile diffArrays device remote = .settled result) :
    Settles diffArrays device s remote localDisk result := by
  simp only [State.finishStartupReconcile, hdisk] at h
  split at h
  · cases h
  · split at h
    · next hstarts =>
        obtain rfl := Outcome.settled.inj h
        simp only [State.sameDevicePrefixFastForward, Bool.and_eq_true] at hstarts
        exact .contained hstarts.1.1.1.1.1
          (Or.inr ⟨rfl, Or.inr (List.isPrefixOf_iff_prefix.mp hstarts.2)⟩)
    · next hstarts =>
      rw [Bool.not_eq_true] at hstarts
      split at h
      · next hconflict =>
          split at h
          · next content hmerge =>
              obtain rfl := Outcome.settled.inj h
              rcases conflictMerge_cases hmerge with ⟨allow, hmerge⟩ | ⟨hforce, hmerge⟩
              · exact .contained hconflict (mergeWithoutBaseline_contains hmerge)
              · obtain hf | ⟨-, hl, hrd, hrb⟩ := isConflict_cases hdisk hconflict
                · rw [hforce] at hf
                  cases hf
                · exact .merged ⟨hconflict, hforce, hstarts, by rw [hmerge]; rintro ⟨⟩⟩ hl hrd hrb
                    hmerge
          · cases h
      · next hconflict =>
          rw [Bool.not_eq_true] at hconflict
          split at h
          · next hlocal =>
              obtain rfl := Outcome.settled.inj h
              simp only [Bool.and_eq_true, Bool.or_eq_true, beq_iff_eq] at hlocal
              refine .fastForward hconflict hlocal.1 (hlocal.2.imp_right fun hcreator => ?_)
              simp only [State.creatorHasLocalAgainstEmptyRemote, hdisk, Bool.and_eq_true,
                List.isEmpty_iff] at hcreator
              exact hcreator.2
          · next hlocal =>
              obtain rfl := Outcome.settled.inj h
              refine .remoteStays hconflict ?_
              cases hl : s.localChangedAtStartup with
              | false => exact Or.inl rfl
              | true =>
                  right
                  simpa [hl] using hlocal

theorem Contains.refl (text : JsString) : Contains text text := Or.inl (List.Sublist.refl _)

theorem losesNothing_local_iff {startedFrom : JsString} :
    LosesNothing startedFrom (some localDisk) remote localDisk ↔ Contains localDisk remote ∨
      ∀ line ∈ lines remote, line ∈ lines startedFrom ∨ line ∈ lines localDisk := by
  constructor
  · rintro (hkeeps | ⟨text, ⟨⟩, ⟨rfl, hcontains⟩ | ⟨-, hcontains⟩⟩)
    · refine Or.inr fun line hline => or_iff_not_imp_right.mpr fun hfile => ?_
      by_contra hnot
      refine hfile (hkeeps.gained line hline hnot ?_)
      rintro text ⟨⟩
      exact hfile
    · exact Or.inl hcontains
    · exact Or.inl hcontains
  · rintro (hcontains | hlines)
    · exact Or.inr ⟨localDisk, rfl, Or.inr ⟨rfl, hcontains⟩⟩
    · refine Or.inl ⟨?_, fun line hline hnot _ => (hlines line hline).resolve_left hnot⟩
      rintro text ⟨⟩ line hline -
      exact hline

theorem losesNothing_remote_iff {startedFrom : JsString} :
    LosesNothing startedFrom (some localDisk) remote remote ↔ Contains remote localDisk ∨
      ∀ line ∈ lines localDisk, line ∈ lines startedFrom ∨ line ∈ lines remote := by
  constructor
  · rintro (hkeeps | ⟨text, ⟨⟩, ⟨-, hcontains⟩ | ⟨rfl, hcontains⟩⟩)
    · exact Or.inr fun line hline =>
        or_iff_not_imp_left.mpr (hkeeps.changed localDisk rfl line hline)
    · exact Or.inl hcontains
    · exact Or.inl hcontains
  · rintro (hcontains | hlines)
    · exact Or.inr ⟨localDisk, rfl, Or.inl ⟨rfl, hcontains⟩⟩
    · refine Or.inl ⟨?_, fun line hline _ _ => hline⟩
      rintro text ⟨⟩ line hline hnot
      exact (hlines line hline).resolve_left hnot

/-- Without a conflict one of the texts is given up, and what is lost is known. -/
theorem losesNothing_iff_of_not_isConflict {source : Source} (htracks : Tracks device s source)
    (hdisk : s.diskAtStartup = some localDisk) (hconflict : s.isConflict device remote = false)
    (h : Settles diffArrays device s remote localDisk result) :
    LosesNothing source.startedFrom s.diskAtStartup remote result ↔
      (source.edited = true → s.NewerContains remote localDisk ∨
        ∀ line ∈ lines device.baselineAtStartup,
          line ∈ lines source.startedFrom ∨ (line ∈ lines localDisk ∧ line ∈ lines remote)) := by
  rw [hdisk]
  cases h with
  | contained hc _ => exact absurd hc (by rw [hconflict]; exact Bool.false_ne_true)
  | merged hmerges _ _ _ _ =>
      exact absurd hmerges.1 (by rw [hconflict]; exact Bool.false_ne_true)
  | fastForward _ hchanged hbaseline =>
      have hedited : source.edited = true := by
        cases hedited : source.edited with
        | true => rfl
        | false => rw [(htracks.unedited hedited).1] at hchanged; cases hchanged
      rw [losesNothing_local_iff, State.NewerContains, if_pos hchanged, forall_prop_of_true hedited]
      rcases hbaseline with rfl | rfl
      · refine or_congr_right (forall₂_congr fun line hline => ?_)
        rw [and_iff_left hline]
      · exact iff_of_true (Or.inl (Or.inr List.nil_prefix)) (Or.inl (Or.inr List.nil_prefix))
  | remoteStays _ hunchanged =>
      cases hchanged : s.localChangedAtStartup with
      | true =>
          -- the shared text is the file already
          have heq : remote = localDisk := by
            rcases hunchanged with hl | ⟨hremote, hcreator⟩
            · rw [hchanged] at hl
              cases hl
            · rcases not_isConflict hdisk hconflict with ⟨hl, -⟩ | heq | ⟨heq, -⟩ | hc
              · rw [hchanged] at hl
                cases hl
              · exact heq
              · exact absurd heq hremote
              · rw [hcreator] at hc
                cases hc
          subst heq
          rw [losesNothing_remote_iff, State.NewerContains, if_pos hchanged]
          exact iff_of_true (Or.inl (Contains.refl _)) fun _ => Or.inl (Contains.refl _)
      | false =>
          rw [losesNothing_remote_iff, State.NewerContains, hchanged, if_neg Bool.false_ne_true]
          cases hedited : source.edited with
          | false =>
              refine iff_of_true (Or.inr fun line hline => Or.inl ?_)
                (fun h => absurd h Bool.false_ne_true)
              rwa [(htracks.unedited hedited).2 localDisk hdisk] at hline
          | true =>
              rw [forall_prop_of_true rfl, ← htracks.unchanged_eq hedited hchanged localDisk hdisk]
              refine or_congr_right (forall₂_congr fun line hline => ?_)
              rw [and_iff_right hline]

/-- Where the edit is measured from a text the file had, no line is lost. -/
theorem losesNothing_of_settles (hdiff : ∀ base next, LineDiff base next (diffArrays base next))
    {source : Source} (htracks : Tracks device s source) (hdisk : s.diskAtStartup = some localDisk)
    (hmeasured : Measured diffArrays device s source remote)
    (h : Settles diffArrays device s remote localDisk result) :
    LosesNothing source.startedFrom s.diskAtStartup remote result := by
  cases hconflict : s.isConflict device remote with
  | false =>
      exact (losesNothing_iff_of_not_isConflict htracks hdisk hconflict h).mpr fun hedited =>
        (hmeasured localDisk hdisk hedited).2 hconflict
  | true =>
      rw [hdisk]
      cases h with
      | contained _ h => exact Or.inr ⟨localDisk, rfl, h⟩
      | merged hmerges hchanged hdiffers hremote hmerge =>
          have hlocal : localDisk ≠ device.baselineAtStartup :=
            htracks.changed_ne hchanged localDisk hdisk
          have hedited : source.edited = true := by
            cases hedited : source.edited with
            | true => rfl
            | false => rw [(htracks.unedited hedited).1] at hchanged; cases hchanged
          have hbase := (hmeasured localDisk hdisk hedited).1 hmerges
          have hbrought : ∀ line, line ∈ lines localDisk ∨ line ∈ lines remote →
              line ∉ lines source.startedFrom → line ∈ lines result := by
            intro line hline hnot
            exact mem_lines_merge hdiff hmerge (fun hmem => hnot (hbase line hmem)) hline hlocal
              hremote hdiffers.symm
          refine Or.inl ⟨?_, fun line hline hnot _ => hbrought line (Or.inr hline) hnot⟩
          rintro text ⟨⟩ line hline hnot
          exact hbrought line (Or.inl hline) hnot
      | fastForward hc _ _ => rw [hconflict] at hc; cases hc
      | remoteStays hc _ => rw [hconflict] at hc; cases hc

/-- Where no merge from the baseline is made, nothing else keeps the lines. -/
theorem measured_of_losesNothing {source : Source} (htracks : Tracks device s source)
    (hunmerged : ∀ localDisk ∈ s.diskAtStartup,
      ¬s.MergesBaseline diffArrays device remote localDisk)
    (h : s.finishStartupReconcile diffArrays device remote = .settled result)
    (hloses : LosesNothing source.startedFrom s.diskAtStartup remote result) :
    Measured diffArrays device s source remote := by
  intro localDisk hdisk hedited
  refine ⟨fun hmerges => absurd hmerges (hunmerged localDisk hdisk), fun hconflict => ?_⟩
  exact (losesNothing_iff_of_not_isConflict htracks hdisk hconflict
    (settles_of_settled hdisk h)).mp hloses hedited

theorem losesNothing_of_settled (hdiff : ∀ base next, LineDiff base next (diffArrays base next))
    {source : Source} (htracks : Tracks device s source)
    (hmeasured : Measured diffArrays device s source remote)
    (h : s.finishStartupReconcile diffArrays device remote = .settled result) :
    LosesNothing source.startedFrom s.diskAtStartup remote result := by
  cases hdisk : s.diskAtStartup with
  | some localDisk =>
      rw [← hdisk]
      exact losesNothing_of_settles hdiff htracks hdisk hmeasured (settles_of_settled hdisk h)
  | none =>
      simp only [State.finishStartupReconcile, hdisk] at h
      split at h
      · cases h
      · obtain rfl := Outcome.settled.inj h
        exact Or.inl ⟨by simp, fun line hline _ _ => hline⟩

end Settled

/-! ## Asking the user -/

inductive Choice where
  | localVersion
  | remoteVersion
  deriving DecidableEq

/-- Where `resolveStartupConflict` waits, with the two versions it showed. -/
inductive Phase where
  | asking (shownLocal shownRemote : JsString)
  | reading (choice : Choice) (shownLocal shownRemote : JsString)
  | copying (choice : Choice) (shownLocal shownRemote : JsString)
  | rereading (choice : Choice) (shownLocal shownRemote : JsString)
  | kept (choice : Choice)
  | fileGone

structure Dialogue where
  content : JsString
  copies : List JsString
  phase : Phase

/-- What ends an await, or happens during one. -/
inductive Answer where
  | remoteUpdate (text : JsString)
  | chose (choice : Choice)
  | read (latestLocal : Option JsString)
  | copied
  | reread (localAfterCopy : Option JsString)
  /-- A read or the copy throws; the reconcile asks again later. -/
  | failed (localDisk : JsString)

def rejected (choice : Choice) (shownLocal shownRemote : JsString) : JsString :=
  match choice with
  | .localVersion => shownRemote
  | .remoteVersion => shownLocal

def Dialogue.step (d : Dialogue) : Answer → Option Dialogue
  | .remoteUpdate text => some { d with content := text }
  | .chose choice =>
      match d.phase with
      | .asking l r => some { d with phase := .reading choice l r }
      | _ => none
  | .read latestLocal =>
      match d.phase, latestLocal with
      | .reading _ _ _, none => some { d with phase := .fileGone }
      | .reading choice l r, some latest =>
          if latest ≠ l ∨ d.content ≠ r then some { d with phase := .asking latest d.content }
          else some { d with phase := .copying choice l r }
      | _, _ => none
  | .copied =>
      match d.phase with
      | .copying choice l r =>
          some { d with copies := rejected choice l r :: d.copies, phase := .rereading choice l r }
      | _ => none
  | .reread localAfterCopy =>
      match d.phase, localAfterCopy with
      | .rereading _ _ _, none => some { d with phase := .fileGone }
      | .rereading choice l r, some after =>
          if after ≠ l ∨ (choice = .localVersion ∧ d.content ≠ r) then
            some { d with phase := .asking after d.content }
          else
            some { d with
              content := if choice = .localVersion then l else d.content
              phase := .kept choice }
      | _, _ => none
  | .failed localDisk =>
      match d.phase with
      | .kept _ | .fileGone => none
      | _ => some { d with phase := .asking localDisk d.content }

def Dialogue.run (d : Dialogue) : List Answer → Option Dialogue
  | [] => some d
  | answer :: answers => (d.step answer).bind fun d => d.run answers

/-- Behind the copy, the rejected version is among the copies. -/
def Dialogue.Copied (d : Dialogue) : Prop :=
  ∀ choice l r, d.phase = .rereading choice l r → rejected choice l r ∈ d.copies

theorem Dialogue.Copied.step {d d' : Dialogue} {answer : Answer} (hcopied : d.Copied)
    (h : d.step answer = some d') : d'.Copied := by
  intro choice l r hphase
  cases answer with
  | remoteUpdate text =>
      obtain rfl := Option.some.inj h
      exact hcopied choice l r hphase
  | copied =>
      rw [Dialogue.step] at h
      split at h
      · obtain rfl := Option.some.inj h
        cases hphase
        exact List.mem_cons_self
      · cases h
  | chose | read | reread | failed =>
      -- none of these ends in the phase behind the copy
      simp only [Dialogue.step] at h
      (repeat' split at h) <;> first | cases h; cases hphase | cases h

theorem Dialogue.Copied.run {d d' : Dialogue} (hcopied : d.Copied) {answers : List Answer}
    (h : d.run answers = some d') : d'.Copied := by
  induction answers generalizing d with
  | nil => exact Option.some.inj h ▸ hcopied
  | cons answer answers ih =>
      obtain ⟨mid, hmid, hrest⟩ := Option.bind_eq_some_iff.mp h
      exact ih (hcopied.step hmid) hrest

/-- The version given up is on disk under another name before it is replaced:
the shared text when the local version is kept, else the file as last read. -/
structure Dialogue.Preserves (d : Dialogue) : Prop where
  local_kept : ∀ localAfterCopy d', d.step (.reread localAfterCopy) = some d' →
    d'.phase = .kept .localVersion → d.content ∈ d.copies
  remote_kept : ∀ localAfterCopy d', d.step (.reread localAfterCopy) = some d' →
    d'.phase = .kept .remoteVersion →
      d'.content = d.content ∧ ∀ text ∈ localAfterCopy, text ∈ d.copies
  replaced : ∀ answer d', d.step answer = some d' → (∀ text, answer ≠ .remoteUpdate text) →
    d'.content ≠ d.content →
      ∃ localAfterCopy, answer = .reread localAfterCopy ∧ d'.phase = .kept .localVersion

/-- The last read ends the dialogue only when nothing moved since the copy. -/
theorem Dialogue.reread_kept {d d' : Dialogue} {localAfterCopy : Option JsString} {choice : Choice}
    (h : d.step (.reread localAfterCopy) = some d') (hkept : d'.phase = .kept choice) :
    ∃ l r, d.phase = .rereading choice l r ∧ localAfterCopy = some l ∧
      (choice = .localVersion → d.content = r) ∧
      d'.content = if choice = .localVersion then l else d.content := by
  simp only [Dialogue.step] at h
  split at h
  · cases h
    cases hkept
  · next c l r after hphase =>
      split at h
      · cases h
        cases hkept
      · next hsame =>
          push Not at hsame
          cases h
          cases hkept
          exact ⟨l, r, hphase, by rw [hsame.1], hsame.2, rfl⟩
  · cases h

theorem Dialogue.Copied.preserves {d : Dialogue} (hcopied : d.Copied) : d.Preserves where
  local_kept := by
    intro localAfterCopy d' h hkept
    obtain ⟨l, r, hphase, -, hcontent, -⟩ := Dialogue.reread_kept h hkept
    rw [hcontent rfl]
    exact hcopied _ l r hphase
  remote_kept := by
    intro localAfterCopy d' h hkept
    obtain ⟨l, r, hphase, rfl, -, hcontent⟩ := Dialogue.reread_kept h hkept
    refine ⟨hcontent, ?_⟩
    intro text htext
    obtain rfl := Option.some.inj htext
    exact hcopied _ _ r hphase
  replaced := by
    intro answer d' h hown hne
    cases answer with
    | remoteUpdate text => exact absurd rfl (hown text)
    | reread localAfterCopy =>
        refine ⟨localAfterCopy, rfl, ?_⟩
        simp only [Dialogue.step] at h
        split at h
        · cases h
          exact absurd rfl hne
        · next choice l r after hphase =>
            split at h
            · cases h
              exact absurd rfl hne
            · cases h
              cases choice with
              | localVersion => rfl
              | remoteVersion => exact absurd rfl hne
        · cases h
    | chose | read | copied | failed =>
        simp only [Dialogue.step] at h
        (repeat' split at h) <;> first | cases h; exact absurd rfl hne | cases h

/-- The reconcile loses no line when the edit is measured from a text whose lines the file
had; where nothing is merged from the baseline, the condition is exact. A version the user
gives up is copied first. -/
theorem startup_loses_no_edit [DecidableEq φ]
    (diffArrays : List JsString → List JsString → List ArrayChange)
    (hdiff : ∀ base next, LineDiff base next (diffArrays base next)) (device : Device φ)
    (closed : JsString) (events : List Event) (remote : JsString) :
    let s := State.run device events
    let source := Source.run device closed events
    (Measured diffArrays device s source remote →
      ∀ result, s.finishStartupReconcile diffArrays device remote = .settled result →
        LosesNothing source.startedFrom s.diskAtStartup remote result) ∧
    ((∀ localDisk ∈ s.diskAtStartup, ¬s.MergesBaseline diffArrays device remote localDisk) →
      ∀ result, s.finishStartupReconcile diffArrays device remote = .settled result →
        LosesNothing source.startedFrom s.diskAtStartup remote result →
          Measured diffArrays device s source remote) ∧
    (∀ localDisk, s.finishStartupReconcile diffArrays device remote = .ask localDisk →
      ∀ copies answers d,
        Dialogue.run ⟨remote, copies, .asking localDisk remote⟩ answers = some d →
          d.Preserves) := by
  intro s source
  have htracks := Tracks.run device closed events
  refine ⟨?_, ?_, ?_⟩
  · intro hmeasured result h
    exact losesNothing_of_settled hdiff htracks hmeasured h
  · intro hunmerged result h hloses
    exact measured_of_losesNothing htracks hunmerged h hloses
  · intro localDisk _ copies answers d hrun
    have hstart : Dialogue.Copied ⟨remote, copies, .asking localDisk remote⟩ := by
      intro choice l r hphase
      cases hphase
    exact (hstart.run hrun).preserves

/-- A stored document with this text, whose recorded file is `diskText`. -/
def storedDevice (content diskText : JsString) : Device JsString where
  isCreator := false
  forceBootstrapConflict := false
  staleLocalFingerprint := none
  retiredBaselineText := none
  loadedStoredState := true
  content := content
  epoch := 0
  documentEpoch := 0
  acknowledgedFingerprint := none
  diskFingerprint := some (0, diskText)
  sha256Text := id

/-- `"a\nb\nc"` edited to `"A\nb\nc"` while closed, and to `"a\nb\nc\nd"` elsewhere. -/
theorem startup_loses_no_edit_both_edited :
    let device := storedDevice [97, 10, 98, 10, 99] [97, 10, 98, 10, 99]
    let events := [Event.captured (some [65, 10, 98, 10, 99])]
    (State.run device events).finishStartupReconcile sampleDiff device
        [97, 10, 98, 10, 99, 10, 100] = .settled [65, 10, 98, 10, 99, 10, 100] ∧
      LosesNothing [97, 10, 98, 10, 99] (some [65, 10, 98, 10, 99]) [97, 10, 98, 10, 99, 10, 100]
        [65, 10, 98, 10, 99, 10, 100] := by
  intro device events
  have hsettled : (State.run device events).finishStartupReconcile sampleDiff device
      [97, 10, 98, 10, 99, 10, 100] = .settled [65, 10, 98, 10, 99, 10, 100] := by decide +kernel
  have hmeasured : Measured sampleDiff device (State.run device events)
      (Source.run device [97, 10, 98, 10, 99] events) [97, 10, 98, 10, 99, 10, 100] :=
    fun _ _ _ => ⟨fun _ line hline => hline, fun _ => Or.inr fun line hline => Or.inl hline⟩
  exact ⟨hsettled, (startup_loses_no_edit sampleDiff lineDiff_sampleDiff device
    [97, 10, 98, 10, 99] events [97, 10, 98, 10, 99, 10, 100]).1 hmeasured _ hsettled⟩

/-- The stored document is `"a\nb\n"`; its file lags at `"a\n"`, which the device
recorded. An edit to `"a\nx\n"` before the first sync takes `"b\n"` from everyone. -/
theorem startup_loses_stored_line :
    ¬∀ (device : Device JsString) (closed : JsString) (events : List Event)
      (remote result : JsString),
      (State.run device events).finishStartupReconcile sampleDiff device remote = .settled result →
        LosesNothing (Source.run device closed events).startedFrom
          (State.run device events).diskAtStartup remote result := by
  intro h
  have hloses := h (storedDevice [97, 10, 98, 10] [97, 10]) [97, 10]
    [.captured (some [97, 10]), .changed [97, 10, 120, 10]] [97, 10, 98, 10] [97, 10, 120, 10]
    (by decide +kernel)
  rcases hloses with hkeeps | ⟨text, htext, ⟨hresult, -⟩ | ⟨-, hcontains⟩⟩
  · have hlost := hkeeps.gained [98, 10] (by decide) (by decide) (by
      rintro text ⟨⟩
      decide)
    revert hlost
    decide
  · cases hresult
  · cases htext
    rcases hcontains with hlines | hstarts
    · revert hlines
      decide
    · revert hstarts
      decide

end Realtime.TextMerge.Startup
