import Realtime.Lib.Transition
import Realtime.Structured.DiskMerge
import Realtime.Text.Merge

/-!
# Write-through between a document and its file

A started document writes its shared content to the file behind a timer, one
write at a time, and folds a changed file into the shared content when the
file's modify event arrives or a write finds the change first. `Document` and
`StructuredDocument` do this in the same steps; a `Kind` says how each renders
its content, compares file contents and merges.

Only a change of the shared content sets the timer. A fold that leaves the
shared content as it is sets none, although the file may still differ from it.
-/

namespace Realtime.WriteThrough

open Lib Lib.Utf16

/-- A document over shared contents `σ`. -/
structure Kind (σ : Type) where
  render : σ → JsString
  /-- A file can be read as a document. -/
  reads : JsString → Bool
  /-- File contents are compared as the document would write them. -/
  norm : JsString → JsString
  /-- The fold of `disk` copies the shared version first; the arguments are the
  base of the fold, the content the file is now known to hold, and the version
  preserved last. -/
  holdBack : (base known : Option JsString) → (disk : JsString) → σ → Option JsString → Bool
  fold : (base : Option JsString) → (disk : JsString) → σ → σ

/-- Where a `foldDiskEdit` waits: for the file, with what it read, or for the
recovery copy. -/
inductive FoldPhase where
  | toRead
  | read (latest : JsString)
  | copying (shared : JsString)

structure Fold where
  disk : JsString
  base : Option JsString
  preserved : Option JsString
  phase : FoldPhase

/-- The disk write that is running, with the text it was started for. `recorded`
has noted the text and only finishes its bookkeeping. -/
inductive Writer where
  | idle
  | toRead (text : JsString)
  | read (text current : JsString)
  | folding (text : JsString) (fold : Fold)
  | modifying (text : JsString)
  | modified (text : JsString)
  | recorded (text : JsString)

namespace Writer

/-- `writingTextToDisk` -/
def writingTextToDisk : Writer → Option JsString
  | .idle => none
  | .toRead text | .read text _ | .folding text _ | .modifying text | .modified text
  | .recorded text => some text

/-- The text of a write that has yet to say what the file holds. -/
def busy : Writer → Option JsString
  | .idle | .recorded _ => none
  | .toRead text | .read text _ | .folding text _ | .modifying text | .modified text => some text

end Writer

/-- An `onDiskChanged` in progress. -/
inductive Handler where
  | toRead
  | read (disk : JsString)
  | folding (fold : Fold)

/-- The shared document, the file and what runs between them. -/
structure State (σ : Type) where
  shared : σ
  file : JsString
  /-- `diskKnownContent` -/
  known : Option JsString
  timer : Bool
  queued : Bool
  writer : Writer
  /-- Modify events not delivered yet. -/
  events : Nat
  handlers : List Handler

/-- What a fold has come to. -/
inductive FoldEnd where
  | on (fold : Fold)
  | gaveUp
  | applied

/-- What can happen between two awaits. -/
inductive Action (σ : Type) where
  /-- A change of the shared content; `scheduled` says that its observer ran. -/
  | remoteUpdate (shared : σ) (scheduled : Bool)
  | diskEdit (file : JsString)
  | deliver
  | timerFires
  /-- The queued write starts. -/
  | dequeue
  /-- An await of the running write ends; `flag` is whether an observer ran, or
  whether the write's own modify event is delivered. -/
  | writer (flag : Bool)
  | handler (index : Nat) (scheduled : Bool)

variable {σ : Type}

section Steps

variable (k : Kind σ)

/-- The observer of the shared content runs when the content changes. -/
def observe (s : State σ) (shared : σ) (scheduled : Bool) : Option (State σ) :=
  if k.render shared ≠ k.render s.shared ∧ scheduled = false then none
  else some { s with shared := shared, timer := s.timer || scheduled }

/-- The fold of a disk edit up to its next await. Where the file has changed since it was read, the
fold is given up; where the shared content is to be preserved first, it is copied. -/
def foldStep (s : State σ) (fold : Fold) (scheduled : Bool) : Option (State σ × FoldEnd) :=
  match fold.phase with
  | .toRead => some (s, .on { fold with phase := .read s.file })
  | .read latest =>
      if k.norm latest ≠ k.norm fold.disk then some (s, .gaveUp)
      else if k.holdBack fold.base s.known fold.disk s.shared fold.preserved then
        some (s, .on { fold with phase := .copying (k.render s.shared) })
      else
        (observe k s (k.fold fold.base fold.disk s.shared) scheduled).map fun s =>
          ({ s with known := some (k.norm fold.disk) }, .applied)
  | .copying shared =>
      some (s, .on { fold with preserved := some shared, phase := .toRead })

/-- `startDiskWrite` -/
def startWrite (s : State σ) : State σ :=
  { s with writer := .toRead (k.render s.shared) }

/-- `writeCurrentContent`, one await at a time. -/
def writerStep (s : State σ) (flag : Bool) : Option (State σ) :=
  match s.writer with
  | .idle => none
  | .toRead text => some { s with writer := .read text s.file }
  | .read text current =>
      if current = text then some { s with known := some text, writer := .recorded text }
      else if k.render s.shared ≠ text then some { s with writer := .idle }
      else if s.known ≠ none ∧ some (k.norm current) ≠ s.known then
        some { s with writer := .folding text ⟨current, s.known, none, .toRead⟩ }
      else some { s with writer := .modifying text }
  | .folding text fold =>
      (foldStep k s fold flag).map fun (s, result) =>
        match result with
        | .on fold => { s with writer := .folding text fold }
        | .gaveUp | .applied => { s with writer := .idle }
  | .modifying text =>
      some { s with
        file := text
        events := if flag then s.events + 1 else s.events
        writer := .modified text }
  | .modified text => some { s with known := some text, writer := .recorded text }
  | .recorded _ => some { s with writer := .idle }

/-- `onDiskChanged`, one await at a time; `none` in the result: it has returned. -/
def handlerStep (s : State σ) (handler : Handler) (scheduled : Bool) :
    Option (State σ × Option Handler) :=
  match handler with
  | .toRead => some (s, some (.read s.file))
  | .read disk =>
      if some (k.norm disk) = s.writer.writingTextToDisk then some (s, none)
      else if some (k.norm disk) = s.known then some (s, none)
      else if k.norm disk = k.render s.shared then
        some ({ s with known := some (k.norm disk) }, none)
      else some (s, some (.folding ⟨disk, s.known, none, .toRead⟩))
  | .folding fold =>
      (foldStep k s fold scheduled).map fun (s, result) =>
        match result with
        | .on fold => (s, some (.folding fold))
        | .gaveUp | .applied => (s, none)

def putHandler (s : State σ) (index : Nat) : Option Handler → State σ
  | none => { s with handlers := s.handlers.eraseIdx index }
  | some handler => { s with handlers := s.handlers.set index handler }

def step (s : State σ) : Action σ → Option (State σ)
  | .remoteUpdate shared scheduled => observe k s shared scheduled
  | .diskEdit file =>
      if k.reads file then some { s with file := file, events := s.events + 1 } else none
  | .deliver =>
      if 0 < s.events then
        some { s with events := s.events - 1, handlers := s.handlers ++ [.toRead] }
      else none
  | .timerFires =>
      if s.timer then
        let s := { s with timer := false }
        match s.queued, s.writer with
        | true, _ => some s
        | false, .idle => some (startWrite k s)
        | false, _ => some { s with queued := true }
      else none
  | .dequeue =>
      match s.queued, s.writer with
      | true, .idle => some (startWrite k { s with queued := false })
      | _, _ => none
  | .writer flag => writerStep k s flag
  | .handler index scheduled =>
      match s.handlers[index]? with
      | none => none
      | some handler =>
          (handlerStep k s handler scheduled).map fun (s, handler) => putHandler s index handler

end Steps

/-- Nothing is under way that could still change the file or the document. -/
structure AtRest (s : State σ) : Prop where
  timer : s.timer = false
  queued : s.queued = false
  writer : s.writer = .idle
  events : s.events = 0
  handlers : s.handlers = []

/-! ## When nothing is left undone -/

section Conditions

variable (k : Kind σ) (s : State σ)

def Fold.Applies (fold : Fold) : Prop :=
  ∃ latest, fold.phase = .read latest ∧ k.norm latest = k.norm fold.disk ∧
    k.holdBack fold.base s.known fold.disk s.shared fold.preserved = false

def Fold.GivesUp (fold : Fold) : Prop :=
  ∃ latest, fold.phase = .read latest ∧ k.norm latest ≠ k.norm fold.disk

/-- The fold changes the shared content, or leaves it as the file has it, or a
write is still to come. -/
def Reschedules (fold : Fold) (running : Prop) : Prop :=
  let next := k.fold fold.base fold.disk s.shared
  k.render next ≠ k.render s.shared ∨ k.render next = k.norm fold.disk ∨ s.timer = true ∨
    s.queued = true ∨ running

/-- The file still holds the text that is noted, or its change has an event. -/
def StillHolds (text : JsString) : Prop := k.norm s.file = text ∨ 0 < s.events

/-- No step leaves a difference behind without anyone to repair it: a fold that
changes nothing, a write that gives its fold up, a text noted for a file that
has changed since, a change taken for the echo of a write already noted. -/
def LeavesNothing : Action σ → Prop
  | .writer _ =>
      match s.writer with
      | .read text current => current = text → StillHolds k s text
      | .modified text => StillHolds k s text
      | .folding _ fold =>
          (fold.Applies k s → Reschedules k s fold False ∧ StillHolds k s (k.norm fold.disk)) ∧
          (fold.GivesUp k →
            s.known = some (k.render s.shared) ∨ s.timer = true ∨ s.queued = true)
      | _ => True
  | .handler index _ =>
      match s.handlers[index]? with
      | some (.read disk) =>
          (some (k.norm disk) = s.writer.writingTextToDisk → s.known = some (k.norm disk) ∨
            s.timer = true ∨ s.queued = true ∨ s.writer.busy ≠ none) ∧
          (some (k.norm disk) ≠ s.writer.writingTextToDisk → k.norm disk = k.render s.shared →
            StillHolds k s (k.norm disk))
      | some (.folding fold) => fold.Applies k s →
          Reschedules k s fold (s.writer.busy ≠ none) ∧ StillHolds k s (k.norm fold.disk)
      | _ => True
  | _ => True

/-- As the startup leaves it: the shared content is written or will be, and the
file is as known or its change has an event. -/
structure Started : Prop where
  reads : k.reads s.file = true
  shared : s.timer = true ∨ s.known = some (k.render s.shared)
  file : 0 < s.events ∨ s.known = some (k.norm s.file)
  queued : s.queued = false
  writer : s.writer = .idle
  handlers : s.handlers = []

def Steps (a : Action σ) (s' : State σ) : Prop := step k s a = some s'

end Conditions

/-! ## The invariant -/

section Invariant

variable (k : Kind σ)

/-- The fold is about the content the file has. -/
def Fold.Holds (fold : Fold) (file : JsString) : Prop :=
  k.norm fold.disk = k.norm file ∧
    ∀ latest, fold.phase = .read latest → k.norm latest = k.norm file

/-- The handler will see, or has seen, the content the file has. -/
def Handler.Holds (file : JsString) : Handler → Prop
  | .toRead => True
  | .read disk => k.norm disk = k.norm file
  | .folding fold => fold.Holds k file

def Watched (s : State σ) : Prop := ∃ h ∈ s.handlers, Handler.Holds k s.file h

/-- The running write will deal with the content the file has. -/
def Writer.Holds (file : JsString) : Writer → Prop
  | .toRead _ | .modifying _ => True
  | .read _ current => k.norm current = k.norm file
  | .folding _ fold => fold.Holds k file
  | .modified text => k.norm file = text
  | .idle | .recorded _ => False

/-- Whatever differs, something is on its way that looks again: an event, a timer, a queued or a
running write. -/
structure Inv (s : State σ) : Prop where
  writes : ∀ text, s.writer.busy = some text → k.norm text = text ∧
    (k.render s.shared = text ∨ s.timer = true ∨ s.queued = true)
  shared : s.timer = true ∨ s.queued = true ∨ s.writer.busy ≠ none ∨
    s.known = some (k.render s.shared)
  file : 0 < s.events ∨ Watched k s ∨ s.known = some (k.norm s.file) ∨ s.timer = true ∨
    s.queued = true ∨ s.writer.busy = some (k.norm s.file) ∨ s.writer.Holds k s.file

end Invariant

section Proofs

variable {k : Kind σ} {s s' : State σ}

theorem Started.inv (h : Started k s) : Inv k s := by
  refine ⟨?_, ?_, ?_⟩
  · intro text hbusy
    rw [h.writer] at hbusy
    cases hbusy
  · exact h.shared.imp_right fun hknown => .inr (.inr hknown)
  · exact h.file.imp_right fun hknown => .inr (.inl hknown)

theorem Inv.atRest (h : Inv k s) (hrest : AtRest s) : k.norm s.file = k.render s.shared := by
  have hbusy : s.writer.busy = none := by
    rw [hrest.writer]
    rfl
  have hknown : s.known = some (k.render s.shared) := by
    simpa [hrest.timer, hrest.queued, hbusy] using h.shared
  have hfile : s.known = some (k.norm s.file) := by
    simpa [hrest.timer, hrest.queued, hrest.events, Watched, hrest.handlers, hrest.writer,
      Writer.busy, Writer.Holds] using h.file
  rw [hknown] at hfile
  exact (Option.some.inj hfile).symm

/-- A handler that goes on with the same content is still watching. -/
theorem Watched.put_some {index : Nat} {handler next : Handler}
    (hget : s.handlers[index]? = some handler)
    (hholds : Handler.Holds k s.file handler → Handler.Holds k s.file next)
    (h : Watched k s) : Watched k (putHandler s index (some next)) := by
  obtain ⟨w, hw, hwholds⟩ := h
  obtain ⟨j, hj⟩ := List.getElem?_of_mem hw
  by_cases hji : index = j
  · subst hji
    rw [hget] at hj
    obtain rfl := Option.some.inj hj
    refine ⟨next, List.mem_of_getElem? (i := index) ?_, hholds hwholds⟩
    show (s.handlers.set index next)[index]? = some next
    rw [List.getElem?_set_self (List.getElem?_eq_some_iff.mp hget).1]
  · refine ⟨w, List.mem_of_getElem? (i := j) ?_, hwholds⟩
    show (s.handlers.set index next)[j]? = some w
    rw [List.getElem?_set_ne hji, hj]

/-- When a handler returns, it was the one watching or another still is. -/
theorem Watched.put_none {index : Nat} {handler : Handler}
    (hget : s.handlers[index]? = some handler) (h : Watched k s) :
    Handler.Holds k s.file handler ∨ Watched k (putHandler s index none) := by
  obtain ⟨w, hw, hwholds⟩ := h
  obtain ⟨j, hj⟩ := List.getElem?_of_mem hw
  by_cases hji : j = index
  · subst hji
    rw [hget] at hj
    obtain rfl := Option.some.inj hj
    exact .inl hwholds
  · exact .inr ⟨w, List.mem_eraseIdx_iff_getElem?.mpr ⟨j, hji, hj⟩, hwholds⟩

/-- The three ways a fold goes on. -/
inductive FoldGoes (k : Kind σ) (s : State σ) (fold : Fold) : State σ → FoldEnd → Prop
  | on {next : Fold} (holds : fold.Holds k s.file → next.Holds k s.file) :
      FoldGoes k s fold s (.on next)
  | gaveUp (h : fold.GivesUp k) : FoldGoes k s fold s .gaveUp
  | applied {scheduled : Bool} (h : fold.Applies k s)
      (observed : k.render (k.fold fold.base fold.disk s.shared) ≠ k.render s.shared →
        scheduled = true) :
      FoldGoes k s fold
        { s with
          shared := k.fold fold.base fold.disk s.shared
          timer := s.timer || scheduled
          known := some (k.norm fold.disk) } .applied

theorem foldGoes_of_foldStep {fold : Fold} {scheduled : Bool} {result : FoldEnd}
    (h : foldStep k s fold scheduled = some (s', result)) : FoldGoes k s fold s' result := by
  unfold foldStep at h
  cases hphase : fold.phase with
  | toRead =>
      simp only [hphase] at h
      cases h
      refine .on fun hholds => ⟨hholds.1, ?_⟩
      rintro latest ⟨⟩
      rfl
  | read latest =>
      simp only [hphase] at h
      split at h
      · next hne =>
          cases h
          exact .gaveUp ⟨latest, hphase, hne⟩
      · next heq =>
          split at h
          · cases h
            refine .on fun hholds => ⟨hholds.1, nofun⟩
          · next hback =>
              obtain ⟨mid, hmid, hs⟩ := Option.map_eq_some_iff.mp h
              cases hs
              unfold observe at hmid
              split at hmid
              · cases hmid
              · next hobs =>
                  cases hmid
                  refine .applied ⟨latest, hphase, not_not.mp heq, by simpa using hback⟩ ?_
                  intro hne
                  by_contra hs
                  exact hobs ⟨hne, by simpa using hs⟩
  | copying shared =>
      simp only [hphase] at h
      cases h
      exact .on fun hholds => ⟨hholds.1, nofun⟩

theorem not_holds_of_givesUp {fold : Fold} {file : JsString} (h : fold.GivesUp k) :
    ¬fold.Holds k file := by
  obtain ⟨latest, hphase, hne⟩ := h
  rintro ⟨hdisk, hlatest⟩
  exact hne ((hlatest latest hphase).trans hdisk.symm)

/-- A changed shared content has its timer set. -/
theorem Inv.observe (h : Inv k s) {shared : σ} {scheduled : Bool}
    (hs : observe k s shared scheduled = some s') : Inv k s' := by
  unfold WriteThrough.observe at hs
  split at hs
  · cases hs
  · next hobs =>
      cases hs
      have htimer : k.render shared = k.render s.shared ∨ (s.timer || scheduled) = true := by
        by_cases heq : k.render shared = k.render s.shared
        · exact .inl heq
        · right
          have : scheduled ≠ false := fun hf => hobs ⟨heq, hf⟩
          simp [this]
      have hor : s.timer = true → (s.timer || scheduled) = true := by
        intro ht
        simp [ht]
      refine ⟨?_, ?_, ?_⟩
      · intro text hbusy
        obtain ⟨hnorm, htext⟩ := h.writes text hbusy
        refine ⟨hnorm, ?_⟩
        rcases htimer with heq | ht
        · rcases htext with htext | ht | hq
          · exact .inl (heq.trans htext)
          · exact .inr (.inl (hor ht))
          · exact .inr (.inr hq)
        · exact .inr (.inl ht)
      · rcases htimer with heq | ht
        · rcases h.shared with ht | hq | hb | hk
          · exact .inl (hor ht)
          · exact .inr (.inl hq)
          · exact .inr (.inr (.inl hb))
          · exact .inr (.inr (.inr (by rw [heq]; exact hk)))
        · exact .inl ht
      · rcases h.file with he | hw | hk | ht | hq | hb
        · exact .inl he
        · exact .inr (.inl hw)
        · exact .inr (.inr (.inl hk))
        · exact .inr (.inr (.inr (.inl (hor ht))))
        · exact .inr (.inr (.inr (.inr (.inl hq))))
        · exact .inr (.inr (.inr (.inr (.inr hb))))

/-- A write that goes on with the same text and content. -/
theorem Inv.setWriter (h : Inv k s) {w : Writer} (hbusy : w.busy = s.writer.busy)
    (hholds : s.writer.Holds k s.file → w.Holds k s.file) : Inv k { s with writer := w } := by
  refine ⟨?_, ?_, ?_⟩
  · intro text hb
    exact h.writes text (hbusy ▸ hb)
  · exact h.shared.imp_right (.imp_right (.imp_left fun hb => hbusy.symm ▸ hb))
  · rcases h.file with he | hw | hk | ht | hq | hb | hh
    · exact .inl he
    · exact .inr (.inl hw)
    · exact .inr (.inr (.inl hk))
    · exact .inr (.inr (.inr (.inl ht)))
    · exact .inr (.inr (.inr (.inr (.inl hq))))
    · exact .inr (.inr (.inr (.inr (.inr (.inl (hbusy.trans hb))))))
    · exact .inr (.inr (.inr (.inr (.inr (.inr (hholds hh))))))

/-- A write is over once the shared content and the file are accounted for. -/
theorem inv_of_not_busy (hbusy : s.writer.busy = none)
    (hshared : s.timer = true ∨ s.queued = true ∨ s.known = some (k.render s.shared))
    (hfile : 0 < s.events ∨ Watched k s ∨ s.known = some (k.norm s.file) ∨ s.timer = true ∨
      s.queued = true) : Inv k s := by
  refine ⟨?_, ?_, ?_⟩
  · intro text hb
    rw [hbusy] at hb
    cases hb
  · exact hshared.imp_right (.imp_right .inr)
  · rcases hfile with he | hw | hk | ht | hq
    · exact .inl he
    · exact .inr (.inl hw)
    · exact .inr (.inr (.inl hk))
    · exact .inr (.inr (.inr (.inl ht)))
    · exact .inr (.inr (.inr (.inr (.inl hq))))

/-- Noting what the file holds, while it does. -/
theorem Inv.note (h : Inv k s) {text : JsString}
    (hshared : s.timer = true ∨ s.queued = true ∨ s.writer.busy ≠ none ∨
      text = k.render s.shared)
    (hfile : StillHolds k s text) : Inv k { s with known := some text } := by
  refine ⟨h.writes, ?_, ?_⟩
  · exact hshared.imp_right (.imp_right (.imp_right (congrArg some)))
  · rcases hfile with hfile | he
    · exact .inr (.inr (.inl (congrArg some hfile.symm)))
    · exact .inl he

/-- The write that ends by noting its text. -/
theorem Inv.recorded (h : Inv k s) {text : JsString} (hbusy : s.writer.busy = some text)
    (hfile : StillHolds k s text) :
    Inv k { s with known := some text, writer := .recorded text } := by
  refine inv_of_not_busy rfl ?_ ?_
  · rcases (h.writes text hbusy).2 with htext | ht | hq
    · exact .inr (.inr (congrArg some htext.symm))
    · exact .inl ht
    · exact .inr (.inl hq)
  · rcases hfile with hfile | he
    · exact .inr (.inr (.inl (congrArg some hfile.symm)))
    · exact .inl he

section Applied

variable {fold : Fold} {scheduled : Bool}

/-- The shared content after a fold. -/
theorem shared_of_applied {running : Prop} (hresched : Reschedules k s fold running)
    (hobs : k.render (k.fold fold.base fold.disk s.shared) ≠ k.render s.shared →
      scheduled = true) :
    (s.timer || scheduled) = true ∨ s.queued = true ∨ running ∨
      k.norm fold.disk = k.render (k.fold fold.base fold.disk s.shared) := by
  rcases hresched with hne | heq | ht | hq | hr
  · left
    rw [hobs hne, Bool.or_true]
  · exact .inr (.inr (.inr heq.symm))
  · left
    rw [ht, Bool.true_or]
  · exact .inr (.inl hq)
  · exact .inr (.inr (.inl hr))

theorem observe_of_applied
    (hobs : k.render (k.fold fold.base fold.disk s.shared) ≠ k.render s.shared →
      scheduled = true) :
    WriteThrough.observe k s (k.fold fold.base fold.disk s.shared) scheduled =
      some { s with
        shared := k.fold fold.base fold.disk s.shared
        timer := s.timer || scheduled } := by
  unfold WriteThrough.observe
  rw [if_neg]
  rintro ⟨hne, hs⟩
  rw [hobs hne] at hs
  cases hs

end Applied

theorem Inv.writerStep (h : Inv k s) {flag : Bool}
    (hleaves : LeavesNothing k s (.writer flag)) (hs : writerStep k s flag = some s') :
    Inv k s' := by
  unfold WriteThrough.writerStep at hs
  cases hw : s.writer with
  | idle =>
      simp only [hw] at hs
      cases hs
  | toRead text =>
      simp only [hw] at hs
      cases hs
      exact h.setWriter (by rw [hw]; rfl) fun _ => rfl
  | read text current =>
      have hbusy : s.writer.busy = some text := by
        rw [hw]
        rfl
      simp only [LeavesNothing, hw] at hleaves
      simp only [hw] at hs
      split at hs
      · next heq =>
          cases hs
          exact h.recorded hbusy (hleaves heq)
      · split at hs
        · -- the shared content moved on: its own change has set the timer
          next hne =>
          cases hs
          rcases (h.writes text hbusy).2.resolve_left hne with ht | hq
          · exact inv_of_not_busy rfl (.inl ht) (.inr (.inr (.inr (.inl ht))))
          · exact inv_of_not_busy rfl (.inr (.inl hq)) (.inr (.inr (.inr (.inr hq))))
        · split at hs
          · cases hs
            refine h.setWriter (by rw [hw]; rfl) fun hholds => ⟨?_, nofun⟩
            rw [hw] at hholds
            exact hholds
          · cases hs
            exact h.setWriter (by rw [hw]; rfl) fun _ => trivial
  | folding text fold =>
      have hbusy : s.writer.busy = some text := by
        rw [hw]
        rfl
      simp only [LeavesNothing, hw] at hleaves
      simp only [hw] at hs
      obtain ⟨⟨mid, result⟩, hfold, hmid⟩ := Option.map_eq_some_iff.mp hs
      cases foldGoes_of_foldStep hfold with
      | on hholds =>
          cases hmid
          refine h.setWriter (by rw [hw]; rfl) fun hold => ?_
          rw [hw] at hold
          exact hholds hold
      | gaveUp hgives =>
          cases hmid
          -- the file changed under the fold: whoever changed it is still to be heard of
          have hknown := hleaves.2 hgives
          refine inv_of_not_busy rfl ?_ ?_
          · rcases hknown with hk | ht | hq
            · exact .inr (.inr hk)
            · exact .inl ht
            · exact .inr (.inl hq)
          · rcases h.file with he | hwatch | hk | ht | hq | hb | hh
            · exact .inl he
            · exact .inr (.inl hwatch)
            · exact .inr (.inr (.inl hk))
            · exact .inr (.inr (.inr (.inl ht)))
            · exact .inr (.inr (.inr (.inr hq)))
            · -- the file has the text of this write, which is the shared content
              rw [hbusy] at hb
              obtain rfl := Option.some.inj hb
              rcases hknown with hk | ht | hq
              · rcases (h.writes _ hbusy).2 with htext | ht | hq
                · rw [htext] at hk
                  exact .inr (.inr (.inl hk))
                · exact .inr (.inr (.inr (.inl ht)))
                · exact .inr (.inr (.inr (.inr hq)))
              · exact .inr (.inr (.inr (.inl ht)))
              · exact .inr (.inr (.inr (.inr hq)))
            · rw [hw] at hh
              exact absurd hh (not_holds_of_givesUp hgives)
      | applied happlies hobs =>
          cases hmid
          obtain ⟨hresched, hstill⟩ := hleaves.1 happlies
          refine inv_of_not_busy rfl ?_ ?_
          · rcases shared_of_applied hresched hobs with ht | hq | hf | heq
            · exact .inl ht
            · exact .inr (.inl hq)
            · exact hf.elim
            · exact .inr (.inr (congrArg some heq))
          · rcases hstill with hfile | he
            · exact .inr (.inr (.inl (congrArg some hfile.symm)))
            · exact .inl he
  | modifying text =>
      have hbusy : s.writer.busy = some text := by
        rw [hw]
        rfl
      have hnorm := (h.writes text hbusy).1
      simp only [hw] at hs
      cases hs
      refine ⟨?_, ?_, ?_⟩
      · rintro t ⟨⟩
        exact h.writes text hbusy
      · exact .inr (.inr (.inl nofun))
      · exact .inr (.inr (.inr (.inr (.inr (.inl (congrArg some hnorm.symm))))))
  | modified text =>
      simp only [LeavesNothing, hw] at hleaves
      simp only [hw] at hs
      cases hs
      exact h.recorded (by rw [hw]; rfl) hleaves
  | recorded text =>
      simp only [hw] at hs
      cases hs
      refine h.setWriter (by rw [hw]; rfl) fun hold => ?_
      rw [hw] at hold
      exact hold

/-- The handlers are only needed for the file. -/
theorem Inv.put (h : Inv k s) {index : Nat} {next : Option Handler}
    (hwatch : Watched k s → 0 < s.events ∨ Watched k (putHandler s index next) ∨
      s.known = some (k.norm s.file) ∨ s.timer = true ∨ s.queued = true ∨
      s.writer.busy = some (k.norm s.file) ∨ s.writer.Holds k s.file) :
    Inv k (putHandler s index next) := by
  have hfile : 0 < s.events ∨ Watched k (putHandler s index next) ∨
      s.known = some (k.norm s.file) ∨ s.timer = true ∨ s.queued = true ∨
      s.writer.busy = some (k.norm s.file) ∨ s.writer.Holds k s.file := by
    rcases h.file with he | hw | hrest
    · exact .inl he
    · exact hwatch hw
    · exact .inr (.inr hrest)
  cases next with
  | none => exact ⟨h.writes, h.shared, hfile⟩
  | some next => exact ⟨h.writes, h.shared, hfile⟩

theorem Inv.handlerStep (h : Inv k s) {index : Nat} {handler : Handler} {scheduled : Bool}
    {next : Option Handler} (hget : s.handlers[index]? = some handler)
    (hleaves : LeavesNothing k s (.handler index scheduled))
    (hs : handlerStep k s handler scheduled = some (s', next)) :
    Inv k (putHandler s' index next) := by
  simp only [LeavesNothing, hget] at hleaves
  unfold WriteThrough.handlerStep at hs
  cases handler with
  | toRead =>
      cases hs
      exact h.put fun hw => .inr (.inl (hw.put_some hget fun _ => rfl))
  | read disk =>
      dsimp only at hs hleaves
      split at hs
      · next hwriting =>
          -- taken for the echo of the running write
          cases hs
          refine h.put fun hw => ?_
          rcases hw.put_none hget with hholds | hw
          · have hdisk : k.norm disk = k.norm s.file := hholds
            rcases hleaves.1 hwriting with hk | ht | hq | hb
            · rw [hdisk] at hk
              exact .inr (.inr (.inl hk))
            · exact .inr (.inr (.inr (.inl ht)))
            · exact .inr (.inr (.inr (.inr (.inl hq))))
            · refine .inr (.inr (.inr (.inr (.inr (.inl ?_)))))
              rw [← hdisk, hwriting]
              cases hwr : s.writer <;> rw [hwr] at hb <;> first | rfl | exact absurd rfl hb
          · exact .inr (.inl hw)
      · next hwriting =>
          split at hs
          · next hknown =>
              cases hs
              refine h.put fun hw => ?_
              rcases hw.put_none hget with hholds | hw
              · have hdisk : k.norm disk = k.norm s.file := hholds
                rw [hdisk] at hknown
                exact .inr (.inr (.inl hknown.symm))
              · exact .inr (.inl hw)
          · split at hs
            · next hshared =>
                cases hs
                have hnote := h.note (.inr (.inr (.inr hshared))) (hleaves.2 hwriting hshared)
                refine hnote.put fun hw => ?_
                rcases hw.put_none hget with hholds | hw
                · have hdisk : k.norm disk = k.norm s.file := hholds
                  exact .inr (.inr (.inl (congrArg some hdisk)))
                · exact .inr (.inl hw)
            · cases hs
              refine h.put fun hw => .inr (.inl (hw.put_some hget fun hholds => ⟨hholds, nofun⟩))
  | folding fold =>
      dsimp only at hs hleaves
      obtain ⟨⟨mid, result⟩, hfold, hmid⟩ := Option.map_eq_some_iff.mp hs
      cases foldGoes_of_foldStep hfold with
      | on hholds =>
          cases hmid
          exact h.put fun hw => .inr (.inl (hw.put_some hget hholds))
      | gaveUp hgives =>
          cases hmid
          refine h.put fun hw => .inr (.inl ?_)
          exact (hw.put_none hget).resolve_left (not_holds_of_givesUp hgives)
      | applied happlies hobs =>
          cases hmid
          obtain ⟨hresched, hstill⟩ := hleaves happlies
          have hnote := (h.observe (observe_of_applied hobs)).note
            (shared_of_applied hresched hobs) hstill
          refine hnote.put fun _ => ?_
          rcases hstill with hfile | he
          · exact .inr (.inr (.inl (congrArg some hfile.symm)))
          · exact .inl he

/-- A write that starts reads the file and writes the shared content. -/
theorem inv_startWrite (hround : ∀ v, k.norm (k.render v) = k.render v) (s : State σ) :
    Inv k (startWrite k s) := by
  refine ⟨?_, ?_, ?_⟩
  · rintro text ⟨⟩
    exact ⟨hround _, .inl rfl⟩
  · exact .inr (.inr (.inl nofun))
  · exact .inr (.inr (.inr (.inr (.inr (.inr trivial)))))

theorem inv_of_queued (h : Inv k s) (hq : s'.queued = true) (hwriter : s'.writer = s.writer) :
    Inv k s' := by
  refine ⟨?_, .inr (.inl hq), .inr (.inr (.inr (.inr (.inl hq))))⟩
  intro text hbusy
  rw [hwriter] at hbusy
  exact ⟨(h.writes text hbusy).1, .inr (.inr hq)⟩

theorem Inv.step (hround : ∀ v, k.norm (k.render v) = k.render v) (h : Inv k s) {a : Action σ}
    (hleaves : LeavesNothing k s a) (hs : step k s a = some s') : Inv k s' := by
  cases a with
  | remoteUpdate shared scheduled => exact h.observe hs
  | diskEdit file =>
      simp only [WriteThrough.step] at hs
      split at hs
      · cases hs
        exact ⟨h.writes, h.shared, .inl (Nat.succ_pos _)⟩
      · cases hs
  | deliver =>
      simp only [WriteThrough.step] at hs
      split at hs
      · cases hs
        refine ⟨h.writes, h.shared, .inr (.inl ⟨.toRead, ?_, trivial⟩)⟩
        exact List.mem_append_right _ List.mem_cons_self
      · cases hs
  | timerFires =>
      simp only [WriteThrough.step] at hs
      split at hs
      · split at hs
        · cases hs
          exact inv_of_queued h (by assumption) rfl
        · cases hs
          exact inv_startWrite hround _
        · cases hs
          exact inv_of_queued h rfl rfl
      · cases hs
  | dequeue =>
      simp only [WriteThrough.step] at hs
      split at hs
      · cases hs
        exact inv_startWrite hround _
      · cases hs
  | writer flag => exact h.writerStep hleaves hs
  | handler index scheduled =>
      simp only [WriteThrough.step] at hs
      split at hs
      · cases hs
      · next handler hget =>
          obtain ⟨⟨mid, next⟩, hmid, heq⟩ := Option.map_eq_some_iff.mp hs
          cases heq
          exact h.handlerStep hget hleaves hmid

/-- The file is as the shared content wherever a run comes to rest. -/
theorem agrees_at_rest (hround : ∀ v, k.norm (k.render v) = k.render v)
    (h : Reach (Started k) (Where (LeavesNothing k) (Steps k)) s) (hrest : AtRest s) :
    k.norm s.file = k.render s.shared := by
  have hinv : Inv k s :=
    h.invariant (fun _ h => h.inv) fun _ _ _ h hs => h.step hround hs.1 hs.2
  exact hinv.atRest hrest

end Proofs

/-! ## The two kinds of documents -/

open TextMerge in
/-- `Document` -/
def textKind (diffArrays : List JsString → List JsString → List ArrayChange) : Kind JsString where
  render := id
  reads _ := true
  norm := id
  holdBack base _ disk shared preserved :=
    match base with
    | none => false
    | some b => mergeText diffArrays b disk shared = .conflict ∧ some shared ≠ base ∧
        some shared ≠ preserved
  fold base disk shared :=
    match base with
    | none => disk
    | some b =>
        match mergeText diffArrays b disk shared with
        | .merged content => content
        | .conflict => disk

open Structured Structured.DiskMerge in
/-- `StructuredDocument` -/
def structuredKind (c : Config) : Kind Node where
  render root := c.serialize (toValue root)
  reads text := (c.parse text).isSome
  norm text := c.serialize (c.parseOwn text)
  holdBack base known disk root preserved :=
    let sharedText := c.serialize (toValue root)
    match base with
    | none => false
    | some b =>
        (mergeStructuredStartupResult (c.parseOwn b) (c.parseOwn disk)
          (c.parseOwn sharedText)).conflicted ∧
        some sharedText ≠ known ∧ some sharedText ≠ preserved
  fold base disk root :=
    let value := match base with
      | none => c.parseOwn disk
      | some b => (mergeStructuredStartupResult (c.parseOwn b) (c.parseOwn disk)
          (c.shape (toValue root))).value
    (reconcileInto {} root value).1

open TextMerge Structured Structured.DiskMerge in
/-- At rest the file of a started document holds its shared content, in every run
whose steps leave nothing undone. -/
theorem file_agrees_at_rest (diffArrays : List JsString → List JsString → List ArrayChange)
    (c : Config)
    (hround : ∀ root : Node, c.serialize (c.shape (toValue root)) = c.serialize (toValue root)) :
    (∀ s, Reach (Started (textKind diffArrays))
        (Where (LeavesNothing (textKind diffArrays)) (Steps (textKind diffArrays))) s →
      AtRest s → s.file = s.shared) ∧
    (∀ s, Reach (Started (structuredKind c))
        (Where (LeavesNothing (structuredKind c)) (Steps (structuredKind c))) s →
      AtRest s → c.serialize (c.parseOwn s.file) = c.serialize (toValue s.shared)) := by
  refine ⟨?_, ?_⟩
  · intro s hreach hrest
    exact agrees_at_rest (fun _ => rfl) hreach hrest
  · intro s hreach hrest
    exact agrees_at_rest hround hreach hrest

/-! ## One update, written through -/

section Written

variable (k : Kind σ)

/-- At rest with this content. -/
def settled (v : σ) : State σ :=
  ⟨v, k.render v, some (k.render v), false, false, .idle, 0, []⟩

theorem atRest_settled (v : σ) : AtRest (settled k v) := ⟨rfl, rfl, rfl, rfl, rfl⟩

variable {k}

/-- An update of the shared content reaches the file. -/
theorem reach_settled (hround : ∀ v, k.norm (k.render v) = k.render v) {v w : σ}
    (hreads : k.reads (k.render v) = true) (hne : k.render v ≠ k.render w) :
    Reach (Started k) (Where (LeavesNothing k) (Steps k)) (settled k w) := by
  have hstart : Reach (Started k) (Where (LeavesNothing k) (Steps k)) (settled k v) :=
    .start ⟨hreads, .inr rfl, .inr (congrArg some (hround v).symm), rfl, rfl, rfl⟩
  have hupdated : Reach (Started k) (Where (LeavesNothing k) (Steps k))
      ⟨w, k.render v, some (k.render v), true, false, .idle, 0, []⟩ := by
    refine .step (a := .remoteUpdate w true) hstart ⟨trivial, ?_⟩
    simp [Steps, step, observe, settled]
  have hfired : Reach (Started k) (Where (LeavesNothing k) (Steps k))
      ⟨w, k.render v, some (k.render v), false, false, .toRead (k.render w), 0, []⟩ :=
    .step (a := .timerFires) hupdated ⟨trivial, rfl⟩
  have hread : Reach (Started k) (Where (LeavesNothing k) (Steps k))
      ⟨w, k.render v, some (k.render v), false, false, .read (k.render w) (k.render v), 0, []⟩ :=
    .step (a := .writer false) hfired ⟨trivial, rfl⟩
  have hmodifying : Reach (Started k) (Where (LeavesNothing k) (Steps k))
      ⟨w, k.render v, some (k.render v), false, false, .modifying (k.render w), 0, []⟩ := by
    refine .step (a := .writer false) hread ⟨fun h => absurd h hne, ?_⟩
    simp [Steps, step, writerStep, hne, hround]
  have hmodified : Reach (Started k) (Where (LeavesNothing k) (Steps k))
      ⟨w, k.render w, some (k.render v), false, false, .modified (k.render w), 0, []⟩ :=
    .step (a := .writer false) hmodifying ⟨trivial, rfl⟩
  have hrecorded : Reach (Started k) (Where (LeavesNothing k) (Steps k))
      ⟨w, k.render w, some (k.render w), false, false, .recorded (k.render w), 0, []⟩ :=
    .step (a := .writer false) hmodified ⟨.inl (hround w), rfl⟩
  exact .step (a := .writer false) hrecorded ⟨trivial, rfl⟩

end Written

open Structured.DiskMerge in
theorem yamlConfig_round (v : Js.Value) :
    yamlConfig.serialize (yamlConfig.shape v) = yamlConfig.serialize v := by
  have hother : yamlConfig.serialize (yamlConfig.parseOwn (ascii "{}" ++ [newline])) =
      ascii "{}" ++ [newline] := rfl
  have hrecord : ∀ text, yamlConfig.serialize
      (yamlConfig.parseOwn (ascii "a: " ++ text ++ [newline])) =
        ascii "a: " ++ text ++ [newline] := by
    intro text
    show ascii "a: " ++ (text ++ [newline]).dropLast ++ [newline] = _
    rw [List.dropLast_concat]
  have hcases : (∃ text, yamlConfig.serialize v = ascii "a: " ++ text ++ [newline]) ∨
      yamlConfig.serialize v = ascii "{}" ++ [newline] := by
    simp only [yamlConfig]
    split
    · split
      · exact .inl ⟨_, rfl⟩
      · exact .inr rfl
    · exact .inr rfl
  rw [Config.shape]
  rcases hcases with ⟨text, htext⟩ | hempty
  · rw [htext, hrecord text]
  · rw [hempty, hother]

open TextMerge Structured Structured.DiskMerge in
/-- A note and a one-key file, each after one remote update. -/
theorem file_agrees_at_rest_one_update :
    (settled (textKind sampleDiff) [98, 10]).file = [98, 10] ∧
      yamlConfig.serialize (yamlConfig.parseOwn
          (settled (structuredKind yamlConfig) (edited "theirs").root).file) =
        yamlConfig.serialize (recordOf "theirs") := by
  have hagrees := file_agrees_at_rest sampleDiff yamlConfig fun root => yamlConfig_round _
  refine ⟨hagrees.1 _ ?_ (atRest_settled _ _), hagrees.2 _ ?_ (atRest_settled _ _)⟩
  · exact reach_settled (v := [97, 10]) (fun _ => rfl) rfl (by decide)
  · exact reach_settled (v := (edited "mine").root) (fun root => yamlConfig_round _) rfl
      (by decide)

/-! ## A fold that changes nothing -/

open TextMerge in
/-- What jsdiff reports between `"a\nb\nc\n"` and the two texts below; elsewhere
everything is removed and added. -/
def echoDiff (base next : List JsString) : List ArrayChange :=
  if base = [[97, 10], [98, 10], [99, 10]] ∧ next = [[65, 10], [98, 10], [99, 10]] then
    [⟨false, true, [[97, 10]]⟩, ⟨true, false, [[65, 10]]⟩, ⟨false, false, [[98, 10], [99, 10]]⟩]
  else if base = [[97, 10], [98, 10], [99, 10]] ∧ next = [[65, 10], [98, 10], [67, 10]] then
    [⟨false, true, [[97, 10]]⟩, ⟨true, false, [[65, 10]]⟩, ⟨false, false, [[98, 10]]⟩,
      ⟨false, true, [[99, 10]]⟩, ⟨true, false, [[67, 10]]⟩]
  else [⟨false, true, base⟩, ⟨true, false, next⟩]

open TextMerge in
theorem lineDiff_echoDiff (base next : List JsString) :
    LineDiff base next (echoDiff base next) := by
  unfold echoDiff
  split
  · next h =>
      obtain ⟨rfl, rfl⟩ := h
      exact ⟨rfl, rfl, by simp, by simp⟩
  · split
    · next h =>
        obtain ⟨rfl, rfl⟩ := h
        exact ⟨rfl, rfl, by simp, by simp⟩
    · exact ⟨by simp, by simp, by simp, by simp⟩

/-- The shared text is `"A\nb\nC\n"` and the file `"A\nb\nc\n"`, edited from
`"a\nb\nc\n"`. -/
def echoed (known : JsString) (writer : Writer) (events : Nat) (handlers : List Handler) :
    State JsString :=
  ⟨[65, 10, 98, 10, 67, 10], [65, 10, 98, 10, 99, 10], some known, false, false, writer, events,
    handlers⟩

open TextMerge in
/-- The remote text has `A` and `C`; the user types the same `A` into the file
before the timer fires. The write folds the file, which changes nothing, and the
file never gets its `C`. -/
theorem not_file_agrees_at_rest :
    ¬∀ (diffArrays : List JsString → List JsString → List ArrayChange),
      (∀ base next, LineDiff base next (diffArrays base next)) →
      ∀ s, Reach (Started (textKind diffArrays)) (Steps (textKind diffArrays)) s → AtRest s →
        s.file = s.shared := by
  intro h
  have hstart : Reach (Started (textKind echoDiff)) (Steps (textKind echoDiff))
      (settled (textKind echoDiff) [97, 10, 98, 10, 99, 10]) :=
    .start ⟨rfl, .inr rfl, .inr rfl, rfl, rfl, rfl⟩
  have hupdated : Reach (Started (textKind echoDiff)) (Steps (textKind echoDiff))
      ⟨[65, 10, 98, 10, 67, 10], [97, 10, 98, 10, 99, 10], some [97, 10, 98, 10, 99, 10], true,
        false, .idle, 0, []⟩ :=
    .step (a := .remoteUpdate [65, 10, 98, 10, 67, 10] true) hstart rfl
  have hedited : Reach (Started (textKind echoDiff)) (Steps (textKind echoDiff))
      { echoed [97, 10, 98, 10, 99, 10] .idle 1 [] with timer := true } :=
    .step (a := .diskEdit [65, 10, 98, 10, 99, 10]) hupdated rfl
  have hfired : Reach (Started (textKind echoDiff)) (Steps (textKind echoDiff))
      (echoed [97, 10, 98, 10, 99, 10] (.toRead [65, 10, 98, 10, 67, 10]) 1 []) :=
    .step (a := .timerFires) hedited rfl
  have hread : Reach (Started (textKind echoDiff)) (Steps (textKind echoDiff))
      (echoed [97, 10, 98, 10, 99, 10]
        (.read [65, 10, 98, 10, 67, 10] [65, 10, 98, 10, 99, 10]) 1 []) :=
    .step (a := .writer false) hfired rfl
  have hfolding : Reach (Started (textKind echoDiff)) (Steps (textKind echoDiff))
      (echoed [97, 10, 98, 10, 99, 10] (.folding [65, 10, 98, 10, 67, 10]
        ⟨[65, 10, 98, 10, 99, 10], some [97, 10, 98, 10, 99, 10], none, .toRead⟩) 1 []) :=
    .step (a := .writer false) hread rfl
  have hlatest : Reach (Started (textKind echoDiff)) (Steps (textKind echoDiff))
      (echoed [97, 10, 98, 10, 99, 10] (.folding [65, 10, 98, 10, 67, 10]
        ⟨[65, 10, 98, 10, 99, 10], some [97, 10, 98, 10, 99, 10], none,
          .read [65, 10, 98, 10, 99, 10]⟩) 1 []) :=
    .step (a := .writer false) hfolding rfl
  have hfolded : Reach (Started (textKind echoDiff)) (Steps (textKind echoDiff))
      (echoed [65, 10, 98, 10, 99, 10] .idle 1 []) :=
    .step (a := .writer false) hlatest rfl
  have hdelivered : Reach (Started (textKind echoDiff)) (Steps (textKind echoDiff))
      (echoed [65, 10, 98, 10, 99, 10] .idle 0 [.toRead]) :=
    .step (a := .deliver) hfolded rfl
  have hseen : Reach (Started (textKind echoDiff)) (Steps (textKind echoDiff))
      (echoed [65, 10, 98, 10, 99, 10] .idle 0 [.read [65, 10, 98, 10, 99, 10]]) :=
    .step (a := .handler 0 false) hdelivered rfl
  have hrest : Reach (Started (textKind echoDiff)) (Steps (textKind echoDiff))
      (echoed [65, 10, 98, 10, 99, 10] .idle 0 []) :=
    .step (a := .handler 0 false) hseen rfl
  have hlost := h echoDiff lineDiff_echoDiff _ hrest ⟨rfl, rfl, rfl, rfl, rfl⟩
  revert hlost
  decide

end Realtime.WriteThrough
