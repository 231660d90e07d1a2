import Realtime.Lib.Transition
import Realtime.Structured.Survival

/-!
# Merging the file into a structured document

`StructuredDocument` merges the file into the shared tree twice: once at startup
(`finishStartupReconcile`) and then for every disk edit (`foldDiskEdit`). Both
write a conflicting shared version to a recovery copy first, and both wait for
the copy while the document, the file and an open view go on changing.

The fold starts over until the version it overwrites is the one it preserved.
The startup merges again with the version it then finds, and applies the result
even where that version is in conflict too.
-/

namespace Realtime.Structured.DiskMerge

open Lib Lib.Js Lib.Utf16

mutual

def jsonContains (outer : Value) : Value → Bool
  | .arr inner =>
      jsonEqual outer (.arr inner) ||
        match outer with
        | .arr outer => containsItems inner outer
        | _ => false
  | .obj inherits inner =>
      jsonEqual outer (.obj inherits inner) || (isRecord outer && containsEntries outer inner)
  | inner => jsonEqual outer inner

/-- The loop over `outer`, with the elements of `inner` still to be found. -/
def containsItems : List Value → List Value → Bool
  | [], _ => true
  | _ :: _, [] => false
  | value :: inner, other :: outer =>
      if jsonEqual other value then containsItems inner outer
      else containsItems (value :: inner) outer

/-- `Object.keys(inner).every(…)` -/
def containsEntries (outer : Value) : List (JsString × Value) → Bool
  | [] => true
  | (key, value) :: inner =>
      outer.hasKey key && jsonContains (outer.read key) value && containsEntries outer inner

end

/-- What the document is created with. `parse` and `serialize` are its
subclass's; `parse` is `none` where it throws. -/
structure Config where
  parse : JsString → Option Value
  serialize : Value → JsString
  forceBootstrapConflict : Bool
  baselineTextAtStartup : JsString
  documentEpoch : Nat

namespace Config

variable (c : Config)

/-- `parse(text)` of a text the document has written itself, which parses. -/
def parseOwn (text : JsString) : Value := (c.parse text).getD .null

/-- The file-level shape of a value. -/
def shape (v : Value) : Value := c.parseOwn (c.serialize v)

def mergeWithoutSharedBaseline (disk remote : Value) : Option StructuredMergeResult :=
  let baselineEmpty := c.baselineTextAtStartup = c.serialize (c.parseOwn [])
  if !c.forceBootstrapConflict ∧ ¬baselineEmpty then none
  else if jsonContains (c.shape remote) (c.shape disk) then some ⟨remote, false⟩
  else if c.documentEpoch = 0 ∧ jsonContains (c.shape disk) (c.shape remote) then
    some ⟨disk, false⟩
  else none

def startupMerge (disk remote base : Value) : StructuredMergeResult :=
  match c.mergeWithoutSharedBaseline disk remote with
  | some merge => merge
  | none =>
      if c.forceBootstrapConflict then ⟨disk, c.serialize disk ≠ c.serialize remote⟩
      else mergeStructuredStartupResult base disk remote

end Config

/-- `startupLocal()` -/
structure Local where
  value : Value
  base : Value

/-- Where `finishStartupReconcile` waits: for the recovery copy of `remoteText`,
or for the file read behind it. -/
inductive Startup where
  | idle
  | copying (loc : Local) (disk remote : Value)
  | reading (loc : Local) (disk remote : Value)

/-- Where a `foldDiskEdit` waits: for the file, or for the copy of `sharedText`. -/
inductive FoldPhase where
  | reading
  | copying (sharedText : JsString)

structure Fold where
  disk : Value
  base : Option Value
  preserved : Option JsString
  phase : FoldPhase

/-- A structured document with its file, in one run of the plugin. -/
structure State where
  root : Node
  /-- The parsed file; `none` where it is missing or does not parse. -/
  file : Option Value
  /-- `liveStartupValue()` -/
  live : Option Value
  diskAtStartup : Option Value
  startupLocalBase : Value
  localChangedAtStartup : Bool
  startupReconciled : Bool
  preservedStartupRemote : Option JsString
  diskKnownText : Option JsString
  /-- The recovery copies written so far. -/
  copies : List JsString
  startup : Startup
  folds : List Fold

namespace State

/-- `this.value` -/
def value (s : State) : Value := toValue s.root

def startupLocal (c : Config) (s : State) : Option (Local × Bool) :=
  match s.diskAtStartup with
  | none => none
  | some disk =>
      match s.live with
      | none => some (⟨disk, s.startupLocalBase⟩, s.localChangedAtStartup)
      | some live =>
          if jsonEqual live disk then
            some (⟨disk, s.startupLocalBase⟩, s.localChangedAtStartup)
          else
            let base := if s.localChangedAtStartup then s.startupLocalBase else disk
            some (⟨live, base⟩, c.serialize live != c.serialize base)

def applyValue (s : State) (value : Value) : State :=
  { s with root := (reconcileInto {} s.root value).1 }

end State

/-- A call of `applyValue`: the three values that were merged, the merge, and the
file content the local edit started from. -/
structure Applied where
  base : Option Value
  loc : Value
  shared : Value
  merge : StructuredMergeResult
  startedFrom : Option JsString

/-- What happens next: something outside, or the end of an await. -/
inductive Action where
  | remoteUpdate (entries : List (JsString × Node))
  | diskEdit (file : Option Value)
  | liveEdit (live : Option Value)
  /-- A disk write has ended. -/
  | wrote (text : JsString)
  /-- `onDiskChanged` before the startup reconcile. -/
  | adopt
  /-- `onDiskChanged`, or a disk write that found an edit, starts a fold. -/
  | startFold (disk : Value)
  | resumeFold (index : Nat)
  | failFold (index : Nat)
  | beginStartup
  | resumeStartup
  | failStartup

section Steps

variable (c : Config)

/-- A file that changes before the merge of the startup is what the startup goes by. -/
def adopt (s : State) : Option State :=
  match s.startupReconciled, s.file with
  | false, some disk =>
      let base := match s.localChangedAtStartup, s.diskAtStartup with
        | false, some previous => previous
        | _, _ => s.startupLocalBase
      some { s with
        startupLocalBase := base
        diskAtStartup := some disk
        diskKnownText := some (c.serialize disk)
        localChangedAtStartup := c.serialize disk != c.serialize base }
  | _, _ => none

/-- Without a known file content the edit replaces the shared value. -/
def foldMerge (s : State) (fold : Fold) : StructuredMergeResult :=
  match fold.base with
  | none => ⟨fold.disk, false⟩
  | some base => mergeStructuredStartupResult base fold.disk (c.shape s.value)

/-- The loop body of `foldDiskEdit` once the file is read. `none`: the fold is
over. -/
def foldRead (s : State) (fold : Fold) : State × Option Fold × Option Applied :=
  match s.file with
  | none => (s, none, none)
  | some latest =>
      if c.serialize latest ≠ c.serialize fold.disk then (s, none, none)
      else
        let sharedText := c.serialize s.value
        let merge := foldMerge c s fold
        if merge.conflicted ∧ some sharedText ≠ s.diskKnownText ∧
            some sharedText ≠ fold.preserved then
          (s, some { fold with phase := .copying sharedText }, none)
        else
          ({ s.applyValue merge.value with diskKnownText := some (c.serialize fold.disk) }, none,
            some ⟨fold.base, fold.disk, c.shape s.value, merge, s.diskKnownText⟩)

def resumeFold (s : State) (fold : Fold) : State × Option Fold × Option Applied :=
  match fold.phase with
  | .reading => foldRead c s fold
  | .copying sharedText =>
      ({ s with copies := sharedText :: s.copies },
        some { fold with preserved := some sharedText, phase := .reading }, none)

/-- `finishStartupReconcile` up to its first await. -/
def beginStartup (s : State) : State × Option Applied :=
  match s.startupLocal c, s.diskAtStartup with
  | some (loc, changed), some disk =>
      if changed ∨ c.forceBootstrapConflict then
        let remote := s.value
        let merge := c.startupMerge loc.value remote loc.base
        if merge.conflicted then
          if some (c.serialize remote) ≠ s.preservedStartupRemote then
            ({ s with startup := .copying loc disk remote }, none)
          else ({ s with startup := .reading loc disk remote }, none)
        else
          ({ s.applyValue merge.value with startupReconciled := true },
            some ⟨some loc.base, loc.value, remote, merge, some (c.serialize loc.base)⟩)
      else ({ s with startupReconciled := true }, none)
  | _, _ => ({ s with startupReconciled := true }, none)

/-- What the startup merges in the end, with the shared value then found. -/
def finalRemote (s : State) (remote : Value) : Value :=
  if c.serialize s.value ≠ c.serialize remote then s.value else remote

/-- `finishStartupReconcile` behind the recovery copy and the file read. -/
def finishStartup (s : State) (loc : Local) (disk remote : Value) : State × Option Applied :=
  match s.file with
  | none => ({ s with diskAtStartup := none, startup := .idle }, none)
  | some latestDisk =>
      if c.serialize latestDisk ≠ c.serialize disk then
        ({ s with diskAtStartup := some latestDisk, startup := .idle }, none)
      else
        match s.startupLocal c with
        | none => ({ s with startup := .idle }, none)
        | some (latestLocal, _) =>
            if jsonEqual latestLocal.value loc.value then
              let shared := finalRemote c s remote
              let merge := c.startupMerge loc.value shared loc.base
              ({ s.applyValue merge.value with startupReconciled := true, startup := .idle },
                some ⟨some loc.base, loc.value, shared, merge, some (c.serialize loc.base)⟩)
            else ({ s with startup := .idle }, none)

def resumeStartup (s : State) : Option (State × Option Applied) :=
  match s.startup with
  | .idle => none
  | .copying loc disk remote =>
      some ({ s with
        copies := c.serialize remote :: s.copies
        preservedStartupRemote := some (c.serialize remote)
        startup := .reading loc disk remote }, none)
  | .reading loc disk remote => some (finishStartup c s loc disk remote)

/-- Put what a resumed fold has become back in its place. -/
def putFold (s : State) (index : Nat) (fold : Option Fold) : State :=
  match fold with
  | none => { s with folds := s.folds.eraseIdx index }
  | some fold => { s with folds := s.folds.set index fold }

/-- An event of the document; `none` where it cannot come. -/
def step (s : State) : Action → Option (State × Option Applied)
  | .remoteUpdate entries => some ({ s with root := .map entries }, none)
  | .diskEdit file => some ({ s with file := file }, none)
  | .liveEdit live => some ({ s with live := live }, none)
  | .wrote text => some ({ s with diskKnownText := some text }, none)
  | .adopt => (adopt c s).map fun s => (s, none)
  | .startFold disk =>
      if s.startupReconciled then
        some ({ s with folds :=
          s.folds ++ [⟨disk, s.diskKnownText.map c.parseOwn, none, .reading⟩] }, none)
      else none
  | .resumeFold index =>
      match s.folds[index]? with
      | none => none
      | some fold =>
          let (s, fold, applied) := resumeFold c s fold
          some (putFold s index fold, applied)
  | .failFold index => some (putFold s index none, none)
  | .beginStartup =>
      match s.startup, s.startupReconciled with
      | .idle, false => some (beginStartup c s)
      | _, _ => none
  | .resumeStartup => resumeStartup c s
  | .failStartup => some ({ s with startup := .idle }, none)

end Steps

/-! ## What an apply may overwrite -/

/-- The shared version a conflicting merge overwrites is in a recovery copy, or
is what the file held before the edit. -/
def Preserved (c : Config) (s : State) (applied : Applied) : Prop :=
  applied.merge.conflicted = true →
    c.serialize s.value ∈ s.copies ∨ some (c.serialize s.value) = applied.startedFrom

/-- The changes of the shared side are in the merged value, beside the
conflicts. Without a shared baseline, the local side holds the shared one, or
the two are in conflict as a whole. -/
def KeepsShared (c : Config) (applied : Applied) : Prop :=
  (∀ path, ConflictFree applied.base (some applied.loc) (some applied.shared) path →
    ¬SameShape (view (some applied.shared) path) (view applied.base path) →
      isRecord applied.merge.value = true ∧
        SameShape (view (some applied.merge.value) path) (view (some applied.shared) path)) ∨
  (applied.merge.value = applied.loc ∧
    jsonContains (c.shape applied.loc) (c.shape applied.shared) = true) ∨
  (c.forceBootstrapConflict = true ∧ applied.merge =
    ⟨applied.loc, c.serialize applied.loc ≠ c.serialize applied.shared⟩)

/-- The merge has seen the shared value as it is, and the tree afterwards holds
what the merge kept of it. -/
structure Survives (c : Config) (s s' : State) (applied : Applied) : Prop where
  current : c.serialize applied.shared = c.serialize s.value ∨ applied.shared = c.shape s.value
  keeps : KeepsShared c applied
  reads_back : isRecord applied.merge.value = true →
    SameJson (toValue s'.root) applied.merge.value

/-- The edit has a base, the values are plain JSON, no side deleted an inherited
key, and the merged value can be written. -/
structure Mergeable (s : State) (applied : Applied) : Prop where
  base : ∃ b, applied.base = some b ∧ Plain b
  loc : Plain applied.loc
  shared : Plain applied.shared
  shared_record : isRecord applied.shared = true
  inherited : KeepsInherited applied.base (some applied.loc) (some applied.shared)
  clean : Clean {} (some s.root) none applied.merge.value

/-- Behind its recovery copy the startup finds the version it preserved, or one
that is not in conflict. -/
def Steady (c : Config) (s : State) : Action → Prop
  | .resumeStartup => ∀ loc disk remote, s.startup = .reading loc disk remote →
      c.serialize s.value = c.serialize remote ∨
        (c.startupMerge loc.value s.value loc.base).conflicted = false
  | _ => True

def Initial (s : State) : Prop :=
  (∃ entries, s.root = .map entries) ∧ s.preservedStartupRemote = none ∧
    s.startup = .idle ∧ s.folds = []

def Steps (c : Config) (s : State) (a : Action) (s' : State) : Prop :=
  ∃ applied, step c s a = some (s', applied)

/-! ## The recovery copies -/

structure Inv (c : Config) (s : State) : Prop where
  root : ∃ entries, s.root = .map entries
  preserved : ∀ text, s.preservedStartupRemote = some text → text ∈ s.copies
  reading : ∀ loc disk remote, s.startup = .reading loc disk remote →
    c.serialize remote ∈ s.copies
  folds : ∀ fold ∈ s.folds, ∀ text, fold.preserved = some text → text ∈ s.copies

section Proofs

variable {c : Config} {s s' : State}

theorem Initial.inv (h : Initial s) : Inv c s := by
  obtain ⟨hroot, hpreserved, hstartup, hfolds⟩ := h
  exact ⟨hroot, by simp [hpreserved], by simp [hstartup], by simp [hfolds]⟩

theorem exists_map_reconcileInto (entries : List (JsString × Node)) (v : Value) :
    ∃ entries', (reconcileInto {} (.map entries) v).1 = .map entries' :=
  ⟨_, rfl⟩

theorem Inv.applyValue (h : Inv c s) (v : Value) : Inv c (s.applyValue v) := by
  refine ⟨?_, h.preserved, h.reading, h.folds⟩
  obtain ⟨entries, hroot⟩ := h.root
  show ∃ entries', (reconcileInto {} s.root v).1 = .map entries'
  rw [hroot]
  exact exists_map_reconcileInto entries v

theorem Inv.known (h : Inv c s) (text : Option JsString) :
    Inv c { s with diskKnownText := text } := ⟨h.root, h.preserved, h.reading, h.folds⟩

theorem Inv.idle (h : Inv c s) : Inv c { s with startup := .idle } :=
  ⟨h.root, h.preserved, by simp, h.folds⟩

theorem Inv.putFold (h : Inv c s) (index : Nat) {fold : Option Fold}
    (hfold : ∀ f ∈ fold, ∀ text, f.preserved = some text → text ∈ s.copies) :
    Inv c (putFold s index fold) := by
  cases fold with
  | none =>
      refine ⟨h.root, h.preserved, h.reading, ?_⟩
      intro f hf
      exact h.folds f (List.mem_of_mem_eraseIdx hf)
  | some fold =>
      refine ⟨h.root, h.preserved, h.reading, ?_⟩
      intro f hf
      rcases List.mem_or_eq_of_mem_set hf with hf | rfl
      · exact h.folds f hf
      · exact hfold f rfl

/-- A fold ends, waits for a copy, or applies over a version it may overwrite. -/
theorem foldRead_cases (s : State) (fold : Fold) :
    foldRead c s fold = (s, none, none) ∨
    foldRead c s fold = (s, some { fold with phase := .copying (c.serialize s.value) }, none) ∨
    (foldRead c s fold =
        ({ s.applyValue (foldMerge c s fold).value with
            diskKnownText := some (c.serialize fold.disk) }, none,
          some ⟨fold.base, fold.disk, c.shape s.value, foldMerge c s fold, s.diskKnownText⟩) ∧
      ((foldMerge c s fold).conflicted = true → some (c.serialize s.value) = s.diskKnownText ∨
        some (c.serialize s.value) = fold.preserved)) := by
  simp only [foldRead]
  split
  · exact .inl rfl
  · split
    · exact .inl rfl
    · split
      · exact .inr (.inl rfl)
      · next hcond =>
          refine .inr (.inr ⟨rfl, fun hconf => ?_⟩)
          by_contra hnot
          rw [not_or] at hnot
          exact hcond ⟨hconf, hnot⟩

theorem Inv.resumeFold (h : Inv c s) {fold : Fold} (hfold : fold ∈ s.folds) :
    Inv c (resumeFold c s fold).1 ∧
      ∀ f ∈ (resumeFold c s fold).2.1, ∀ text, f.preserved = some text →
        text ∈ (DiskMerge.resumeFold c s fold).1.copies := by
  unfold DiskMerge.resumeFold
  cases hphase : fold.phase with
  | copying sharedText =>
      refine ⟨⟨h.root, ?_, ?_, ?_⟩, ?_⟩
      · exact fun text ht => List.mem_cons_of_mem _ (h.preserved text ht)
      · exact fun loc disk remote hr => List.mem_cons_of_mem _ (h.reading loc disk remote hr)
      · exact fun f hf text ht => List.mem_cons_of_mem _ (h.folds f hf text ht)
      · rintro f ⟨⟩ text ⟨⟩
        exact List.mem_cons_self
  | reading =>
      rcases foldRead_cases (c := c) s fold with heq | heq | ⟨heq, -⟩
      · simp only [heq]
        exact ⟨h, nofun⟩
      · simp only [heq]
        refine ⟨h, ?_⟩
        rintro f ⟨⟩ text ht
        exact h.folds fold hfold text ht
      · simp only [heq]
        exact ⟨(h.applyValue _).known _, nofun⟩

/-- The startup's first part decides at once, or waits with a conflict. -/
theorem beginStartup_cases (s : State) :
    beginStartup c s = ({ s with startupReconciled := true }, none) ∨
    (∃ loc disk, beginStartup c s = ({ s with startup := .copying loc disk s.value }, none)) ∨
    (∃ loc disk, beginStartup c s = ({ s with startup := .reading loc disk s.value }, none) ∧
      s.preservedStartupRemote = some (c.serialize s.value)) ∨
    ∃ loc : Local, (c.startupMerge loc.value s.value loc.base).conflicted = false ∧
      beginStartup c s =
        ({ s.applyValue (c.startupMerge loc.value s.value loc.base).value with
            startupReconciled := true },
          some ⟨some loc.base, loc.value, s.value, c.startupMerge loc.value s.value loc.base,
            some (c.serialize loc.base)⟩) := by
  simp only [beginStartup]
  split
  · next loc changed disk _ _ =>
      split
      · split
        · split
          · exact .inr (.inl ⟨loc, disk, rfl⟩)
          · next hsame =>
              exact .inr (.inr (.inl ⟨loc, disk, rfl, (not_not.mp hsame).symm⟩))
        · next hconf => exact .inr (.inr (.inr ⟨loc, by simpa using hconf, rfl⟩))
      · exact .inl rfl
  · exact .inl rfl

/-- The startup's last part starts over, or applies the final merge. -/
theorem finishStartup_cases (s : State) (loc : Local) (disk remote : Value) :
    (∃ at_, finishStartup c s loc disk remote =
      ({ s with diskAtStartup := at_, startup := .idle }, none)) ∨
    finishStartup c s loc disk remote =
      ({ s.applyValue (c.startupMerge loc.value (finalRemote c s remote) loc.base).value with
          startupReconciled := true, startup := .idle },
        some ⟨some loc.base, loc.value, finalRemote c s remote,
          c.startupMerge loc.value (finalRemote c s remote) loc.base,
          some (c.serialize loc.base)⟩) := by
  simp only [finishStartup]
  split
  · exact .inl ⟨none, rfl⟩
  · next latestDisk _ =>
      split
      · exact .inl ⟨some latestDisk, rfl⟩
      · split
        · exact .inl ⟨s.diskAtStartup, rfl⟩
        · split
          · exact .inr rfl
          · exact .inl ⟨s.diskAtStartup, rfl⟩

theorem Inv.step (h : Inv c s) {a : Action} (hstep : Steps c s a s') : Inv c s' := by
  obtain ⟨applied, hstep⟩ := hstep
  cases a with
  | remoteUpdate entries =>
      cases hstep
      exact ⟨⟨entries, rfl⟩, h.preserved, h.reading, h.folds⟩
  | diskEdit | liveEdit | wrote =>
      cases hstep
      exact ⟨h.root, h.preserved, h.reading, h.folds⟩
  | adopt =>
      obtain ⟨mid, hmid, heq⟩ := Option.map_eq_some_iff.mp hstep
      cases heq
      unfold DiskMerge.adopt at hmid
      split at hmid
      · cases hmid
        exact ⟨h.root, h.preserved, h.reading, h.folds⟩
      · cases hmid
  | startFold disk =>
      simp only [DiskMerge.step] at hstep
      split at hstep
      · cases hstep
        refine ⟨h.root, h.preserved, h.reading, ?_⟩
        intro f hf text ht
        rcases List.mem_append.mp hf with hf | hf
        · exact h.folds f hf text ht
        · obtain rfl := List.mem_singleton.mp hf
          cases ht
      · cases hstep
  | resumeFold index =>
      simp only [DiskMerge.step] at hstep
      split at hstep
      · cases hstep
      · next fold hget =>
          cases hstep
          obtain ⟨hinv, hfold⟩ := h.resumeFold (List.mem_of_getElem? hget)
          exact hinv.putFold index hfold
  | failFold index =>
      cases hstep
      exact h.putFold index nofun
  | beginStartup =>
      simp only [DiskMerge.step] at hstep
      split at hstep
      · rcases beginStartup_cases (c := c) s with heq | ⟨loc, disk, heq⟩ | ⟨loc, disk, heq, hpres⟩ |
          ⟨loc, -, heq⟩
        · rw [heq] at hstep
          cases hstep
          exact ⟨h.root, h.preserved, h.reading, h.folds⟩
        · rw [heq] at hstep
          cases hstep
          exact ⟨h.root, h.preserved, nofun, h.folds⟩
        · rw [heq] at hstep
          cases hstep
          refine ⟨h.root, h.preserved, ?_, h.folds⟩
          rintro loc' disk' remote' ⟨⟩
          exact h.preserved _ hpres
        · rw [heq] at hstep
          cases hstep
          have hinv := h.applyValue (c.startupMerge loc.value s.value loc.base).value
          exact ⟨hinv.root, hinv.preserved, hinv.reading, hinv.folds⟩
      · cases hstep
  | resumeStartup =>
      simp only [DiskMerge.step, DiskMerge.resumeStartup] at hstep
      split at hstep
      · cases hstep
      · cases hstep
        refine ⟨h.root, ?_, ?_, ?_⟩
        · rintro text ⟨⟩
          exact List.mem_cons_self
        · rintro loc disk remote ⟨⟩
          exact List.mem_cons_self
        · exact fun f hf text ht => List.mem_cons_of_mem _ (h.folds f hf text ht)
      · next loc disk remote _ =>
          rcases finishStartup_cases (c := c) s loc disk remote with ⟨at_, heq⟩ | heq
          · rw [heq] at hstep
            cases hstep
            exact ⟨h.root, h.preserved, nofun, h.folds⟩
          · rw [heq] at hstep
            cases hstep
            have hinv := h.applyValue
              (c.startupMerge loc.value (finalRemote c s remote) loc.base).value
            exact ⟨hinv.root, hinv.preserved, nofun, hinv.folds⟩
  | failStartup =>
      cases hstep
      exact h.idle

/-! ## The three places that apply -/

inductive Applies (c : Config) (s : State) : Action → Applied → Prop
  | fold {index : Nat} {fold : Fold} (mem : fold ∈ s.folds)
      (mayOverwrite : (foldMerge c s fold).conflicted = true →
        some (c.serialize s.value) = s.diskKnownText ∨
          some (c.serialize s.value) = fold.preserved) :
      Applies c s (.resumeFold index)
        ⟨fold.base, fold.disk, c.shape s.value, foldMerge c s fold, s.diskKnownText⟩
  | begin {loc : Local}
      (settled : (c.startupMerge loc.value s.value loc.base).conflicted = false) :
      Applies c s .beginStartup
        ⟨some loc.base, loc.value, s.value, c.startupMerge loc.value s.value loc.base,
          some (c.serialize loc.base)⟩
  | finish {loc : Local} {disk remote : Value} (reading : s.startup = .reading loc disk remote) :
      Applies c s .resumeStartup
        ⟨some loc.base, loc.value, finalRemote c s remote,
          c.startupMerge loc.value (finalRemote c s remote) loc.base, some (c.serialize loc.base)⟩

theorem applies_of_step {a : Action} {applied : Applied}
    (hstep : step c s a = some (s', some applied)) :
    Applies c s a applied ∧ s'.root = (reconcileInto {} s.root applied.merge.value).1 := by
  cases a with
  | remoteUpdate | diskEdit | liveEdit | wrote | failFold | failStartup => cases hstep
  | adopt =>
      obtain ⟨mid, -, heq⟩ := Option.map_eq_some_iff.mp hstep
      cases heq
  | startFold disk =>
      simp only [DiskMerge.step] at hstep
      split at hstep <;> cases hstep
  | resumeFold index =>
      simp only [DiskMerge.step] at hstep
      split at hstep
      · cases hstep
      · next fold hget =>
          unfold DiskMerge.resumeFold at hstep
          cases hphase : fold.phase with
          | copying sharedText =>
              simp only [hphase] at hstep
              cases hstep
          | reading =>
              simp only [hphase] at hstep
              rcases foldRead_cases (c := c) s fold with heq | heq | ⟨heq, hover⟩
              · simp only [heq] at hstep
                cases hstep
              · simp only [heq] at hstep
                cases hstep
              · simp only [heq] at hstep
                cases hstep
                exact ⟨.fold (List.mem_of_getElem? hget) hover, rfl⟩
  | beginStartup =>
      simp only [DiskMerge.step] at hstep
      split at hstep
      · rcases beginStartup_cases (c := c) s with heq | ⟨loc, disk, heq⟩ | ⟨loc, disk, heq, -⟩ |
          ⟨loc, hconf, heq⟩ <;> rw [heq] at hstep <;> cases hstep
        exact ⟨.begin hconf, rfl⟩
      · cases hstep
  | resumeStartup =>
      simp only [DiskMerge.step, DiskMerge.resumeStartup] at hstep
      split at hstep
      · cases hstep
      · cases hstep
      · next loc disk remote hreading =>
          rcases finishStartup_cases (c := c) s loc disk remote with ⟨at_, heq⟩ | heq <;>
            rw [heq] at hstep <;> cases hstep
          exact ⟨.finish hreading, rfl⟩

theorem Inv.preserved_of_applies (h : Inv c s) {a : Action} {applied : Applied}
    (hsteady : Steady c s a) (happly : Applies c s a applied) : Preserved c s applied := by
  intro hconf
  cases happly with
  | @fold index fold hmem hover =>
      rcases hover hconf with hknown | hpreserved
      · exact .inr hknown
      · exact .inl (h.folds fold hmem _ hpreserved.symm)
  | begin hsettled =>
      rw [hsettled] at hconf
      cases hconf
  | @finish loc disk remote hreading =>
      left
      by_cases hsame : c.serialize s.value = c.serialize remote
      · rw [hsame]
        exact h.reading loc disk remote hreading
      · -- merged again: only without a conflict
        have hfinal : finalRemote c s remote = s.value := if_pos hsame
        rw [hfinal] at hconf
        rw [(hsteady loc disk remote hreading).resolve_left hsame] at hconf
        cases hconf

/-- The merge of the startup keeps the shared side. -/
theorem keepsShared_startupMerge {loc shared base : Value} {startedFrom : Option JsString}
    (hb : Plain base) (hl : Plain loc) (hr : Plain shared) (hrec : isRecord shared = true)
    (hkeep : KeepsInherited (some base) (some loc) (some shared)) :
    Tame (c.startupMerge loc shared base).value ∧
      KeepsShared c ⟨some base, loc, shared, c.startupMerge loc shared base, startedFrom⟩ := by
  unfold Config.startupMerge
  cases hnone : c.mergeWithoutSharedBaseline loc shared with
  | some merge =>
      simp only [Config.mergeWithoutSharedBaseline] at hnone
      split at hnone
      · cases hnone
      · split at hnone
        · cases hnone
          refine ⟨hr.tame, .inl fun path _ _ => ⟨hrec, ?_⟩⟩
          exact sameShape_refl ((tameOpt_some.mpr hr.tame).view path)
        · split at hnone
          · next hcontains =>
              cases hnone
              exact ⟨hl.tame, .inr (.inl ⟨rfl, hcontains.2⟩)⟩
          · cases hnone
  | none =>
      dsimp only
      split
      · next hforce => exact ⟨hl.tame, .inr (.inr ⟨hforce, rfl⟩)⟩
      · obtain ⟨htame, hkeeps⟩ := merge_keepsRemote (.json hb) hl hr hkeep
        refine ⟨htame, .inl fun path hfree hne => ⟨?_, hkeeps path hfree hne⟩⟩
        exact isRecord_merge_of_changed (.json hb) hl hr hrec hfree hne

theorem Inv.survives_of_applies (h : Inv c s) {a : Action} {applied : Applied}
    (happly : Applies c s a applied)
    (hroot : s'.root = (reconcileInto {} s.root applied.merge.value).1)
    (hmerge : Mergeable s applied) : Survives c s s' applied := by
  obtain ⟨⟨b, hbase, hb⟩, hl, hr, hrec, hkeep, hclean⟩ := hmerge
  have hkept : Tame applied.merge.value ∧ KeepsShared c applied := by
    cases happly with
    | @fold index fold hmem hover =>
        dsimp only at hbase hl hr hrec hkeep ⊢
        rw [hbase] at hkeep ⊢
        simp only [foldMerge, hbase]
        obtain ⟨htame, hkeeps⟩ := merge_keepsRemote (.json hb) hl hr hkeep
        refine ⟨htame, .inl fun path hfree hne => ⟨?_, hkeeps path hfree hne⟩⟩
        exact isRecord_merge_of_changed (.json hb) hl hr hrec hfree hne
    | begin hsettled =>
        cases hbase
        exact keepsShared_startupMerge hb hl hr hrec hkeep
    | finish hreading =>
        cases hbase
        exact keepsShared_startupMerge hb hl hr hrec hkeep
  refine ⟨?_, hkept.2, ?_⟩
  · cases happly with
    | fold => exact .inr rfl
    | begin => exact .inl rfl
    | @finish loc disk remote hreading =>
        left
        show c.serialize (finalRemote c s remote) = c.serialize s.value
        unfold finalRemote
        split
        · rfl
        · next hsame => exact (not_not.mp hsame).symm
  · intro hrecord
    obtain ⟨entries, hmap⟩ := h.root
    rw [hroot, hmap]
    rw [hmap] at hclean
    exact sameJson_reconcileInto hkept.1 hrecord hclean

end Proofs

/-- `{a: text}` -/
def recordOf (text : String) : Value := .obj true [(ascii "a", .str (ascii text))]

/-- The YAML of records with one string under `a`. -/
def yamlConfig : Config where
  parse
    | [] => some (.obj true [])
    | 97 :: 58 :: 32 :: rest => some (.obj true [(ascii "a", .str rest.dropLast)])
    | _ => none
  serialize
    | .obj _ [(key, .str text)] =>
        if key = ascii "a" then ascii "a: " ++ text ++ [newline] else ascii "{}" ++ [newline]
    | _ => ascii "{}" ++ [newline]
  forceBootstrapConflict := false
  baselineTextAtStartup := ascii "a: old" ++ [newline]
  documentEpoch := 0

/-- The stored value is `{a: old}`, the file `{a: mine}`, the shared value
`{a: shared}`. -/
def edited (shared : String) : State where
  root := .map [(ascii "a", .plain (.str (ascii shared)))]
  file := some (recordOf "mine")
  live := none
  diskAtStartup := some (recordOf "mine")
  startupLocalBase := recordOf "old"
  localChangedAtStartup := true
  startupReconciled := false
  preservedStartupRemote := none
  diskKnownText := some (ascii "a: mine" ++ [newline])
  copies := []
  startup := .idle
  folds := []

/-- Waiting for the recovery copy of `{a: theirs}`. -/
def waiting (shared : String) : State :=
  { edited shared with
    startup := .copying ⟨recordOf "mine", recordOf "old"⟩ (recordOf "mine") (recordOf "theirs") }

/-- Behind the recovery copy of `{a: theirs}`. -/
def copied (shared : String) : State :=
  { edited shared with
    copies := [ascii "a: theirs" ++ [newline]]
    preservedStartupRemote := some (ascii "a: theirs" ++ [newline])
    startup := .reading ⟨recordOf "mine", recordOf "old"⟩ (recordOf "mine") (recordOf "theirs") }

def overwritten (shared : String) : Applied :=
  ⟨some (recordOf "old"), recordOf "mine", recordOf shared,
    ⟨.obj false [(ascii "a", .str (ascii "mine"))], true⟩, some (ascii "a: old" ++ [newline])⟩

theorem initial_edited (shared : String) : Initial (edited shared) :=
  ⟨⟨_, rfl⟩, rfl, rfl, rfl⟩

theorem plain_recordOf (text : String) : Plain (recordOf text) := by
  have hkey : ascii "a" ≠ dunderProto := by decide
  exact .obj rfl (List.nodup_singleton _) (by simpa [Assoc.keys] using hkey)
    (by simpa using .str _)

/-- No record of the three has a key to inherit. -/
theorem keepsInherited_recordOf (base loc shared : String) :
    KeepsInherited (some (recordOf base)) (some (recordOf loc)) (some (recordOf shared)) := by
  intro path b l r hb hl _ hrec _ _ key hproto hmem
  cases path with
  | nil =>
      obtain rfl := Option.some.inj hb
      obtain rfl : key = ascii "a" := by simpa [recordOf, Value.ownKeys, Assoc.keys] using hmem
      exact absurd hproto (by decide)
  | cons k path =>
      -- below the record there is a string
      rw [view_cons] at hl
      by_cases hk : ascii "a" = k
      · subst hk
        cases path with
        | nil =>
            obtain rfl := Option.some.inj hl
            cases hrec
        | cons k path => cases hl
      · have hnone : child k (some (recordOf loc)) = none := by
          simp [child, recordOf, Value.own, Assoc.get_cons, hk]
        rw [hnone] at hl
        cases hl

end Realtime.Structured.DiskMerge
