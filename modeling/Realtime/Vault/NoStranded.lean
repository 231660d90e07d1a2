import Realtime.Vault.DocQueue

/-!
# No queued document is stranded

The slots held are those of the started documents of the generation, and what is queued waits for
a slot that is held, for the catch-up of a resume, or for the initial sync.
-/

namespace Realtime.Vault.DocQueue

open Lib RemoteDelete
open RemoteDelete.State (truthy)

variable {cfg : Config} {s s' : VaultSync}

/-! ## Slots -/

/-- The document holds a slot. -/
def Started.holds (generation : Nat) (doc : Started) : Bool :=
  doc.generation = generation && doc.slot ≠ .freed

def VaultSync.held (s : VaultSync) : Nat := s.started.countP (·.holds s.docConnectionGeneration)

/-- The slots counted are those held, and no document is of a later generation. -/
structure Counted (cfg : Config) (s : VaultSync) : Prop where
  count : s.activeDocConnections = s.held
  bound : s.activeDocConnections ≤ concurrency cfg
  past : ∀ doc ∈ s.started, doc.generation ≤ s.docConnectionGeneration

/-- What is queued waits for something. -/
def Waits (s : VaultSync) : Prop :=
  s.destroyed = false → s.mobileSuspended = false → s.docQueue ≠ [] →
    0 < s.activeDocConnections ∨ s.mobileCatchUpPending = true ∨
      s.docConnectionGeneration ∈ s.resumes ∨
        s.initialSync = .running false ∨ s.initialSync = .retrying

/-- The same but for documents, queue, priorities and the remote deletes. -/
structure Steady (s s' : VaultSync) : Prop where
  destroyed : s'.destroyed = s.destroyed
  mobileSuspended : s'.mobileSuspended = s.mobileSuspended
  activeDocConnections : s'.activeDocConnections = s.activeDocConnections
  docConnectionGeneration : s'.docConnectionGeneration = s.docConnectionGeneration
  started : s'.started = s.started
  mobileCatchUpPending : s'.mobileCatchUpPending = s.mobileCatchUpPending
  resumes : s'.resumes = s.resumes
  initialSync : s'.initialSync = s.initialSync

theorem Steady.refl (s : VaultSync) : Steady s s := ⟨rfl, rfl, rfl, rfl, rfl, rfl, rfl, rfl⟩

theorem Steady.trans {s'' : VaultSync} (h : Steady s s') (h' : Steady s' s'') : Steady s s'' :=
  ⟨h'.destroyed.trans h.destroyed, h'.mobileSuspended.trans h.mobileSuspended,
    h'.activeDocConnections.trans h.activeDocConnections,
    h'.docConnectionGeneration.trans h.docConnectionGeneration, h'.started.trans h.started,
    h'.mobileCatchUpPending.trans h.mobileCatchUpPending, h'.resumes.trans h.resumes,
    h'.initialSync.trans h.initialSync⟩

theorem Steady.counted (h : Steady s s') (hs : Counted cfg s) : Counted cfg s' := by
  obtain ⟨count, bound, past⟩ := hs
  refine ⟨?_, ?_, ?_⟩
  · unfold VaultSync.held
    rw [h.activeDocConnections, h.docConnectionGeneration, h.started]
    exact count
  · rw [h.activeDocConnections]
    exact bound
  · rw [h.docConnectionGeneration, h.started]
    exact past

theorem Steady.waits (h : Steady s s') (hqueue : s'.docQueue = s.docQueue) (hs : Waits s) :
    Waits s' := by
  unfold Waits
  rw [h.destroyed, h.mobileSuspended, h.activeDocConnections, h.docConnectionGeneration,
    h.mobileCatchUpPending, h.resumes, h.initialSync, hqueue]
  exact hs

theorem steady_foldl {β : Type*} {f : VaultSync → β → VaultSync} (hf : ∀ s b, Steady s (f s b))
    (bs : List β) (s : VaultSync) : Steady s (bs.foldl f s) := by
  induction bs generalizing s with
  | nil => exact .refl s
  | cons b bs ih => exact (hf s b).trans (ih (f s b))

/-! ## The queue -/

theorem steady_removeOf (s : VaultSync) (path : Path) (kind : DocKind) :
    Steady s (s.removeOf path kind) := by
  cases kind <;> exact ⟨rfl, rfl, rfl, rfl, rfl, rfl, rfl, rfl⟩

theorem steady_putFront (s : VaultSync) (item : QueueItem) : Steady s (s.putFront item) :=
  ⟨rfl, rfl, rfl, rfl, rfl, rfl, rfl, rfl⟩

theorem steady_ensureStructuredDocument (s : VaultSync) (path : Path) (guid : Guid)
    (kind : StructuredKind) (retiredBaseline : Option String) :
    Steady s (s.ensureStructuredDocument path guid kind retiredBaseline) ∧
      (s.ensureStructuredDocument path guid kind retiredBaseline).docQueue = s.docQueue := by
  unfold VaultSync.ensureStructuredDocument
  split_ifs
  · exact ⟨.refl s, rfl⟩
  · exact ⟨⟨rfl, rfl, rfl, rfl, rfl, rfl, rfl, rfl⟩, rfl⟩

theorem steady_ensureItem (s : VaultSync) (item : QueueItem) :
    Steady s (s.ensureItem item) ∧ (s.ensureItem item).docQueue = s.docQueue := by
  unfold VaultSync.ensureItem
  cases item.kind with
  | text =>
      show Steady s (s.ensureDocument _ _ _) ∧ (s.ensureDocument _ _ _).docQueue = _
      unfold VaultSync.ensureDocument
      split_ifs
      · exact ⟨.refl s, rfl⟩
      · exact ⟨⟨rfl, rfl, rfl, rfl, rfl, rfl, rfl, rfl⟩, rfl⟩
  | structured kind => exact steady_ensureStructuredDocument s _ _ kind _

theorem steady_enqueueDoc (s : VaultSync) (item : QueueItem) (front : Bool) :
    Steady s (s.enqueueDoc item front) := by
  unfold VaultSync.enqueueDoc
  split_ifs
  · exact .refl s
  · exact .refl s
  · exact (steady_removeOf s item.path item.kind).trans (steady_putFront _ item)
  · exact (steady_removeOf s item.path item.kind).trans ⟨rfl, rfl, rfl, rfl, rfl, rfl, rfl, rfl⟩

theorem steady_enqueueReconnect (s : VaultSync) (item : QueueItem) (front : Bool) :
    Steady s (s.enqueueReconnect item front) := by
  have hput : ∀ item : QueueItem, Steady s (s.requeue item front) := by
    intro item
    unfold VaultSync.requeue
    split_ifs
    · exact steady_putFront s item
    · exact ⟨rfl, rfl, rfl, rfl, rfl, rfl, rfl, rfl⟩
  unfold VaultSync.enqueueReconnect
  split_ifs
  · exact .refl s
  · cases s.residentOf item.path item.kind with
    | none => exact steady_enqueueDoc s item front
    | some doc =>
        show Steady s (if _ then _ else if _ then _ else if _ then _ else _)
        split_ifs
        · exact steady_enqueueDoc s item front
        · exact hput item
        · exact .refl s
        · exact hput { item with reconnect := true }

theorem steady_enqueueKnownPath (s : VaultSync) (path : Path) (front reconnect : Bool) :
    Steady s (s.enqueueKnownPath path front reconnect) := by
  refine steady_foldl (fun s item => ?_) _ s
  unfold VaultSync.enqueue
  split_ifs
  · exact steady_enqueueReconnect s item front
  · exact steady_enqueueDoc s item front

/-! ## Pumping -/

theorem counted_start (item : QueueItem) (hs : Counted cfg s)
    (hfree : s.activeDocConnections < concurrency cfg) : Counted cfg (s.start item) := by
  have hsteady := (steady_ensureItem s item).1
  obtain ⟨count, bound, past⟩ := hsteady.counted hs
  unfold VaultSync.start
  refine ⟨?_, ?_, ?_⟩
  · show (s.ensureItem item).activeDocConnections + 1 =
      List.countP (Started.holds (s.ensureItem item).docConnectionGeneration)
        ((s.ensureItem item).started ++ [_])
    rw [List.countP_append, count, List.countP_singleton, if_pos (by simp [Started.holds])]
    rfl
  · show (s.ensureItem item).activeDocConnections + 1 ≤ concurrency cfg
    rw [hsteady.activeDocConnections]
    exact hfree
  · intro doc hdoc
    rcases List.mem_append.mp hdoc with hdoc | hdoc
    · exact past doc hdoc
    · rw [List.mem_singleton.mp hdoc]

theorem Counted.queue (hs : Counted cfg s) (queue : List (Path × QueueItem)) :
    Counted cfg { s with docQueue := queue } := ⟨hs.count, hs.bound, hs.past⟩

/-- The loop ends with an empty queue or with every slot held. -/
theorem pumpLoop_spec (queue : List (Path × QueueItem)) (hs : Counted cfg s) :
    Counted cfg (VaultSync.pumpLoop (concurrency cfg) queue s) ∧
      ((VaultSync.pumpLoop (concurrency cfg) queue s).docQueue = [] ∨
        (VaultSync.pumpLoop (concurrency cfg) queue s).activeDocConnections = concurrency cfg) := by
  induction queue generalizing s with
  | nil => exact ⟨hs.queue [], .inl rfl⟩
  | cons e queue ih =>
      rw [VaultSync.pumpLoop]
      split_ifs with hfree
      · exact ih (counted_start e.2 (hs.queue queue) hfree)
      · exact ⟨hs.queue _, .inr (Nat.le_antisymm hs.bound (not_lt.mp hfree))⟩

theorem concurrency_pos (cfg : Config) : 0 < concurrency cfg := by
  unfold concurrency
  split_ifs <;> decide

/-- Pumping leaves nothing to wait for, or holds a slot. -/
theorem pumpDocQueue_spec (hs : Counted cfg s) :
    Counted cfg (s.pumpDocQueue cfg) ∧ Waits (s.pumpDocQueue cfg) := by
  unfold VaultSync.pumpDocQueue
  split_ifs with hoff
  · refine ⟨hs, fun hdestroyed hsuspended => ?_⟩
    rw [hdestroyed, hsuspended] at hoff
    exact absurd hoff (by decide)
  · obtain ⟨hcounted, hend⟩ := pumpLoop_spec s.docQueue hs
    refine ⟨hcounted, fun _ _ hqueue => .inl ?_⟩
    rcases hend with hempty | hfull
    · exact absurd hempty hqueue
    · rw [hfull]
      exact concurrency_pos cfg

/-! ## What a step keeps -/

/-- The slots stay counted, and where what is queued waited it waits. -/
def Keeps (cfg : Config) (s s' : VaultSync) : Prop :=
  Counted cfg s → Counted cfg s' ∧ (Waits s → Waits s')

theorem Keeps.refl (cfg : Config) (s : VaultSync) : Keeps cfg s s := fun hs => ⟨hs, id⟩

theorem Keeps.trans {s'' : VaultSync} (h : Keeps cfg s s') (h' : Keeps cfg s' s'') :
    Keeps cfg s s'' := fun hs =>
  ⟨(h' (h hs).1).1, fun hwaits => (h' (h hs).1).2 ((h hs).2 hwaits)⟩

theorem Steady.keeps (h : Steady s s') (hqueue : s'.docQueue = s.docQueue) : Keeps cfg s s' :=
  fun hs => ⟨h.counted hs, h.waits hqueue⟩

theorem Steady.pumped (h : Steady s s') : Keeps cfg s (s'.pumpDocQueue cfg) := fun hs =>
  ⟨(pumpDocQueue_spec (h.counted hs)).1, fun _ => (pumpDocQueue_spec (h.counted hs)).2⟩

theorem keeps_foldl {β : Type*} {f : VaultSync → β → VaultSync}
    (hf : ∀ s b, Keeps cfg s (f s b)) (bs : List β) (s : VaultSync) :
    Keeps cfg s (bs.foldl f s) := by
  induction bs generalizing s with
  | nil => exact .refl cfg s
  | cons b bs ih => exact (hf s b).trans (ih (f s b))

theorem steady_queued (s : VaultSync) (priorities : List Path) : ∃ s', Steady s s' ∧
    s.queueMobileReconnects cfg priorities = s'.pumpDocQueue cfg := by
  unfold VaultSync.queueMobileReconnects
  refine ⟨_, ?_, rfl⟩
  refine (steady_foldl (fun s e => ?_) _ s).trans ((steady_foldl (fun s e => ?_) _ _).trans
    (steady_foldl (fun s path => steady_enqueueKnownPath s path true true) _ _))
  · show Steady s (if _ then _ else _)
    split_ifs
    · exact steady_enqueueReconnect s _ _
    · exact .refl s
  · cases (Assoc.get e.1 s.structured).join with
    | none => exact .refl s
    | some entry =>
        show Steady s (if _ then _ else _)
        split_ifs
        · exact steady_enqueueReconnect s _ _
        · exact .refl s

theorem steady_prioritizeGuid (s : VaultSync) (guid : Option Guid) :
    Steady s (s.prioritizeGuid guid) ∧ (s.prioritizeGuid guid).docQueue = s.docQueue := by
  cases guid with
  | none => exact ⟨.refl s, rfl⟩
  | some guid => exact ⟨⟨rfl, rfl, rfl, rfl, rfl, rfl, rfl, rfl⟩, rfl⟩

theorem keeps_prioritizeItem (s : VaultSync) (path : Option Path) (guid : Option Guid) :
    Keeps cfg s (s.prioritizeItem cfg path guid) := by
  obtain ⟨hsteady, hqueue⟩ := steady_prioritizeGuid s (truthy guid)
  unfold VaultSync.prioritizeItem
  cases truthy ((truthy path).or ((truthy guid).bind s.pathForGuid)) with
  | none => exact hsteady.keeps hqueue
  | some path => exact (hsteady.trans (steady_enqueueKnownPath _ _ _ _)).pumped

theorem keeps_rebuildDocumentForEpoch (s : VaultSync) (documentId : String) (rewound : Bool) :
    Keeps cfg s (s.rebuildDocumentForEpoch cfg documentId rewound) := by
  unfold VaultSync.rebuildDocumentForEpoch
  split_ifs
  · exact .refl cfg s
  · cases VaultSync.documentGuid cfg documentId with
    | none => exact .refl cfg s
    | some guid =>
        refine Steady.pumped ((steady_foldl (fun s e => ?_) _ s).trans
          (steady_foldl (fun s e => ?_) _ _))
        · split_ifs
          · exact (steady_removeOf s e.1 .text).trans (steady_enqueueDoc _ _ _)
          · exact .refl s
        · split_ifs
          · exact (steady_removeOf s e.1 (.structured e.2.1)).trans (steady_enqueueDoc _ _ _)
          · exact .refl s

theorem keeps_onDocumentInvalidated (s : VaultSync) (documentId : String) :
    Keeps cfg s (s.onDocumentInvalidated cfg documentId) := by
  unfold VaultSync.onDocumentInvalidated
  split_ifs
  · exact .refl cfg s
  · split
    · exact .refl cfg s
    · rename_i path _
      show Keeps cfg s (if _ then _ else if _ then _ else _)
      split_ifs
      · exact (steady_enqueueKnownPath s path true true).pumped
      · exact Steady.keeps ⟨rfl, rfl, rfl, rfl, rfl, rfl, rfl, rfl⟩ rfl
      · refine Steady.pumped (Steady.trans ?_ (steady_enqueueKnownPath _ path true true))
        exact ⟨rfl, rfl, rfl, rfl, rfl, rfl, rfl, rfl⟩

theorem keeps_reloadWindowOver (s : VaultSync) (path : Path) (documentId : String) :
    Keeps cfg s (s.reloadWindowOver cfg path documentId) := by
  have hsteady : Keeps cfg s { s with
      invalidationReloads := s.invalidationReloads.erase path
      invalidationReloadPending := s.invalidationReloadPending.erase path } :=
    Steady.keeps ⟨rfl, rfl, rfl, rfl, rfl, rfl, rfl, rfl⟩ rfl
  unfold VaultSync.reloadWindowOver
  show Keeps cfg s (if _ then _ else _)
  split_ifs
  · exact hsteady.trans (keeps_onDocumentInvalidated _ documentId)
  · exact hsteady

theorem keeps_handleRemoteDelete (s : VaultSync) (path : Path) (kind : DocKind)
    (deletedIdentity : Option Guid) :
    Keeps cfg s (s.handleRemoteDelete path kind deletedIdentity) := by
  unfold VaultSync.handleRemoteDelete
  split_ifs
  · exact .refl cfg s
  · exact Steady.keeps ⟨rfl, rfl, rfl, rfl, rfl, rfl, rfl, rfl⟩ rfl
  · exact Steady.keeps ⟨rfl, rfl, rfl, rfl, rfl, rfl, rfl, rfl⟩ rfl

theorem keeps_queueChanged (s : VaultSync) (item : QueueItem) :
    Keeps cfg s (s.queueChanged cfg item) := by
  unfold VaultSync.queueChanged
  split_ifs
  · exact .refl cfg s
  · exact (steady_enqueueDoc s item _).pumped

theorem keeps_onFilesChanged (s : VaultSync) (keys : List (Path × KeyChange Guid)) :
    Keeps cfg s (s.onFilesChanged cfg keys) := by
  unfold VaultSync.onFilesChanged
  split_ifs
  · exact .refl cfg s
  · refine keeps_foldl (fun s e => ?_) keys s
    obtain ⟨path, change⟩ := e
    cases change with
    | put =>
        rw [VaultSync.fileChanged]
        split
        · exact keeps_queueChanged s _
        · exact .refl cfg s
    | delete oldValue => exact keeps_handleRemoteDelete s path .text oldValue

theorem keeps_onStructuredChanged (s : VaultSync) (keys : List (Path × KeyChange StructuredMeta)) :
    Keeps cfg s (s.onStructuredChanged cfg keys) := by
  unfold VaultSync.onStructuredChanged
  split_ifs
  · exact .refl cfg s
  · refine keeps_foldl (fun s e => ?_) keys s
    obtain ⟨path, change⟩ := e
    cases change with
    | put =>
        rw [VaultSync.structuredChanged]
        split
        · exact keeps_queueChanged s _
        · exact .refl cfg s
    | delete oldValue => exact keeps_handleRemoteDelete s path _ _

theorem steady_endPass (s : VaultSync) (pass : DeletePass) :
    Steady s (s.endPass pass) ∧ (s.endPass pass).docQueue = s.docQueue := by
  unfold VaultSync.endPass
  split
  · exact ⟨⟨rfl, rfl, rfl, rfl, rfl, rfl, rfl, rfl⟩, rfl⟩
  · exact ⟨⟨rfl, rfl, rfl, rfl, rfl, rfl, rfl, rfl⟩, rfl⟩

theorem keeps_endPass (s : VaultSync) (pass : DeletePass) : Keeps cfg s (s.endPass pass) :=
  (steady_endPass s pass).1.keeps (steady_endPass s pass).2

theorem keeps_failPass (s : VaultSync) (pass : DeletePass) : Keeps cfg s (s.failPass pass) := by
  unfold VaultSync.failPass
  refine Keeps.trans ?_ (keeps_endPass _ pass)
  split_ifs
  · exact .refl cfg s
  · exact Steady.keeps ⟨rfl, rfl, rfl, rfl, rfl, rfl, rfl, rfl⟩ rfl

theorem keeps_setPoint (s : VaultSync) (pass : DeletePass) (point : DeletePoint) :
    Keeps cfg s (s.setPoint pass point) := Steady.keeps ⟨rfl, rfl, rfl, rfl, rfl, rfl, rfl, rfl⟩ rfl

theorem keeps_removeOf (s : VaultSync) (path : Path) (kind : DocKind) :
    Keeps cfg s (s.removeOf path kind) := by
  refine (steady_removeOf s path kind).keeps ?_
  cases kind <;> rfl

theorem keeps_removed (s : VaultSync) (path : Path) :
    Keeps cfg s ((s.removeDocument path).removeStructuredDocument path) :=
  Steady.keeps ⟨rfl, rfl, rfl, rfl, rfl, rfl, rfl, rfl⟩ rfl

/-- A remote delete finds a text back at its path, and no slot is held. -/
def VaultSync.Strands (s : VaultSync) : Event → Prop
  | .deleteContinues pass .ends =>
      pass.point = .deleting ∧ s.wasReintroduced pass.path pass.kind = true ∧
        (truthy (Assoc.get pass.path s.files)).isSome = true ∧ s.activeDocConnections = 0
  | _ => False

/-- The slots stay counted, and but for what strands a document, what is queued waits. -/
def KeepsUnless (cfg : Config) (stranded : Prop) (s s' : VaultSync) : Prop :=
  Counted cfg s → Counted cfg s' ∧ (¬ stranded → Waits s → Waits s')

theorem Keeps.unless {stranded : Prop} (h : Keeps cfg s s') : KeepsUnless cfg stranded s s' :=
  fun hs => ⟨(h hs).1, fun _ => (h hs).2⟩

theorem keeps_rematerialize {pass : DeletePass} (hpoint : pass.point = .deleting)
    (hback : s.wasReintroduced pass.path pass.kind = true) :
    KeepsUnless cfg (s.Strands (.deleteContinues pass .ends)) s
      (s.rematerializeReintroducedPath pass.path) := by
  unfold VaultSync.rematerializeReintroducedPath
  cases hfile : truthy (Assoc.get pass.path s.files) with
  | some guid =>
      have hsteady : Steady s ((s.removeDocument pass.path).enqueueDoc
          (VaultSync.textItem pass.path guid) false) :=
        (steady_removeOf s pass.path .text).trans (steady_enqueueDoc _ _ _)
      refine fun hs => ⟨hsteady.counted hs, fun hstrands _ _ _ _ => .inl ?_⟩
      -- a slot is held, and its document pumps the queue
      refine Nat.pos_of_ne_zero fun hzero => hstrands ⟨hpoint, hback, ?_, ?_⟩
      · rw [hfile]
        rfl
      · rw [← hsteady.activeDocConnections]
        exact hzero
  | none =>
      dsimp only
      cases (Assoc.get pass.path s.structured).join with
      | none => exact (Keeps.refl cfg s).unless
      | some entry =>
          have h := steady_ensureStructuredDocument (s.removeStructuredDocument pass.path)
            pass.path entry.guid entry.kind none
          exact ((keeps_removeOf s pass.path (.structured entry.kind)).trans
            (h.1.keeps h.2)).unless

theorem keeps_continueDelete {pass : DeletePass} {outcome : Outcome}
    (h : s.continueDelete cfg pass outcome = some s') :
    KeepsUnless cfg (s.Strands (.deleteContinues pass outcome)) s s' := by
  unfold VaultSync.continueDelete at h
  by_cases hmem : pass ∉ s.deletes
  · rw [if_pos hmem] at h
    exact absurd h.symm (Option.some_ne_none _)
  rw [if_neg hmem] at h
  split at h
  · obtain rfl := Option.some.inj h
    exact (keeps_failPass s pass).unless
  · obtain rfl := Option.some.inj h
    exact (keeps_endPass s pass).unless
  · rename_i target pending _
    split_ifs at h with hguard hpending
    · obtain rfl := Option.some.inj h
      exact ((keeps_removed s pass.path).trans
        ((keeps_removeOf _ target pass.kind).trans (keeps_setPoint _ pass _))).unless
    · obtain rfl := Option.some.inj h
      exact ((keeps_removed s pass.path).trans (keeps_setPoint _ pass _)).unless
  · split_ifs at h with hguard hpresent
    · obtain rfl := Option.some.inj h
      exact ((keeps_removed s pass.path).trans (keeps_setPoint _ pass _)).unless
    · obtain rfl := Option.some.inj h
      exact ((keeps_removed s pass.path).trans (keeps_endPass _ pass)).unless
  · split at h
    · exact absurd h.symm (Option.some_ne_none _)
    · split_ifs at h
      · obtain rfl := Option.some.inj h
        exact (keeps_endPass s pass).unless
      · obtain rfl := Option.some.inj h
        exact ((steady_enqueueDoc s _ true).pumped.trans (keeps_endPass _ pass)).unless
  · rename_i hpoint
    split_ifs at h with hguard
    · obtain rfl := Option.some.inj h
      exact (keeps_endPass s pass).unless
    · obtain rfl := Option.some.inj h
      have hback : s.wasReintroduced pass.path pass.kind = true := by
        rw [Bool.or_eq_true, not_or, Bool.not_eq_true'] at hguard
        simpa using hguard.2
      have hkeeps := @keeps_rematerialize cfg s pass hpoint hback
      refine fun hs => ⟨(keeps_endPass _ pass (hkeeps hs).1).1, fun hstrands hwaits => ?_⟩
      exact (keeps_endPass _ pass (hkeeps hs).1).2 ((hkeeps hs).2 hstrands hwaits)
  · exact absurd h.symm (Option.some_ne_none _)

/-! ## Suspend and resume -/

theorem keeps_suspendForBackground (s : VaultSync) :
    Keeps cfg s (s.suspendForBackground cfg) := by
  unfold VaultSync.suspendForBackground
  split_ifs
  · exact .refl cfg s
  · rintro ⟨-, -, past⟩
    refine ⟨⟨?_, Nat.zero_le _, fun doc hdoc => ?_⟩, fun _ _ hsuspended => ?_⟩
    · show 0 = s.started.countP (·.holds (s.docConnectionGeneration + 1))
      rw [eq_comm, List.countP_eq_zero]
      intro doc hdoc hholds
      have hgeneration : doc.generation = s.docConnectionGeneration + 1 := by
        exact of_decide_eq_true (Bool.and_eq_true _ _ ▸ hholds).1
      have := past doc hdoc
      omega
    · exact Nat.le_succ_of_le (past doc hdoc)
    · exact absurd hsuspended Bool.noConfusion

/-- A resume pumps, or leaves the catch-up to the index, unless it is not of this generation. -/
theorem resumed_spec (s : VaultSync) (generation : Nat) (priorities : List Path)
    (hs : Counted cfg s) :
    Counted cfg (s.resumed cfg generation priorities) ∧
      (Waits s ∨ generation = s.docConnectionGeneration →
        Waits (s.resumed cfg generation priorities)) := by
  have hsteady : Steady s { s with mobileResumeInProgress := false } :=
    ⟨rfl, rfl, rfl, rfl, rfl, rfl, rfl, rfl⟩
  unfold VaultSync.resumed
  show Counted cfg (if _ then _ else if _ then _ else _) ∧
    (_ → Waits (if _ then _ else if _ then _ else _))
  split_ifs with hoff hstatus
  · refine ⟨hsteady.counted hs, ?_⟩
    rintro (hwaits | hgeneration)
    · exact hsteady.waits rfl hwaits
    · intro hdestroyed hsuspended
      rw [hgeneration] at hoff
      replace hdestroyed : s.destroyed = false := hdestroyed
      replace hsuspended : s.mobileSuspended = false := hsuspended
      rw [hdestroyed, hsuspended] at hoff
      exact absurd hoff (by simp)
  · exact ⟨⟨hs.count, hs.bound, hs.past⟩, fun _ _ _ _ => .inr (.inl rfl)⟩
  · obtain ⟨s', hsteady', heq⟩ := @steady_queued cfg
      { s with mobileResumeInProgress := false, mobileCatchUpPending := false } priorities
    rw [heq]
    have hcounted := @Steady.counted cfg _ _ hsteady' ⟨hs.count, hs.bound, hs.past⟩
    exact ⟨(pumpDocQueue_spec hcounted).1, fun _ => (pumpDocQueue_spec hcounted).2⟩

theorem keeps_resumeFromBackground (s : VaultSync) (priorities : List Path) :
    Keeps cfg s (s.resumeFromBackground cfg priorities) := by
  unfold VaultSync.resumeFromBackground
  split_ifs
  · exact .refl cfg s
  · show Keeps cfg s (if _ then _ else _)
    split_ifs
    · refine fun hs => ⟨⟨hs.count, hs.bound, hs.past⟩, fun _ _ _ _ => .inr (.inr (.inl ?_))⟩
      exact List.mem_append_right _ (List.mem_singleton_self _)
    · intro hs
      have h := @resumed_spec cfg
        { s with mobileSuspended := false, mobileResumeInProgress := true }
        s.docConnectionGeneration priorities ⟨hs.count, hs.bound, hs.past⟩
      exact ⟨h.1, fun _ => h.2 (.inr rfl)⟩

theorem keeps_resumed {generation : Nat} (priorities : List Path) :
    Keeps cfg s ({ s with resumes := s.resumes.erase generation }.resumed cfg generation
      priorities) := by
  intro hs
  have h := @resumed_spec cfg { s with resumes := s.resumes.erase generation } generation
    priorities ⟨hs.count, hs.bound, hs.past⟩
  refine ⟨h.1, fun hwaits => h.2 ?_⟩
  by_cases hgeneration : generation = s.docConnectionGeneration
  · exact .inr hgeneration
  · refine .inl fun hdestroyed hsuspended hqueue => ?_
    rcases hwaits hdestroyed hsuspended hqueue with hheld | hpending | hresumes | hsync
    · exact .inl hheld
    · exact .inr (.inl hpending)
    · exact .inr (.inr (.inl ((List.mem_erase_of_ne (Ne.symm hgeneration)).mpr hresumes)))
    · exact .inr (.inr (.inr hsync))

theorem keeps_runInitialSync (s : VaultSync) : Keeps cfg s s.runInitialSync := by
  unfold VaultSync.runInitialSync
  split_ifs
  · exact .refl cfg s
  · split
    · exact fun hs => ⟨⟨hs.count, hs.bound, hs.past⟩, fun _ _ _ _ => .inr (.inr (.inr (.inl rfl)))⟩
    · exact fun hs => ⟨⟨hs.count, hs.bound, hs.past⟩, fun _ _ _ _ => .inr (.inr (.inr (.inl rfl)))⟩
    · exact .refl cfg s

theorem keeps_handleIndexStatus (s : VaultSync) (status : SyncStatus) (priorities : List Path) :
    Keeps cfg s (s.handleIndexStatus cfg status priorities) := by
  have hsteady : Keeps cfg s { s with indexStatus := status } :=
    Steady.keeps ⟨rfl, rfl, rfl, rfl, rfl, rfl, rfl, rfl⟩ rfl
  have hpending : Keeps cfg s { s with indexStatus := status, mobileCatchUpPending := true } :=
    fun hs => ⟨⟨hs.count, hs.bound, hs.past⟩, fun _ _ _ _ => .inr (.inl rfl)⟩
  unfold VaultSync.handleIndexStatus
  show Keeps cfg s (if s.mobileSuspended then _ else _)
  by_cases hsuspended : s.mobileSuspended = true
  · rw [if_pos hsuspended]
    exact hsteady
  · rw [if_neg hsuspended]
    cases status with
    | connected =>
        refine (hsteady.trans (keeps_runInitialSync _)).trans ?_
        show Keeps cfg _ (if _ then _ else _)
        split_ifs
        · intro hs
          obtain ⟨s', hsteady', heq⟩ := @steady_queued cfg
            { ({ s with indexStatus := SyncStatus.connected } : VaultSync).runInitialSync with
              mobileCatchUpPending := false } priorities
          rw [heq]
          have hcounted := @Steady.counted cfg _ _ hsteady' ⟨hs.count, hs.bound, hs.past⟩
          exact ⟨(pumpDocQueue_spec hcounted).1, fun _ => (pumpDocQueue_spec hcounted).2⟩
        · exact .refl cfg _
    | connecting => exact hsteady
    | handshaking => exact hsteady
    | error =>
        show Keeps cfg s (if _ then _ else _)
        split_ifs
        · exact hpending
        · exact hsteady
    | offline =>
        show Keeps cfg s (if _ then _ else _)
        split_ifs
        · exact hpending
        · exact hsteady

/-! ## Every step -/

theorem countP_modify {α : Type*} {p : α → Bool} {f : α → α} {l : List α} {i : Nat} {a : α}
    (h : l[i]? = some a) :
    (l.modify i f).countP p + (if p a then 1 else 0) =
      l.countP p + (if p (f a) then 1 else 0) := by
  induction l generalizing i with
  | nil => exact absurd h.symm (Option.some_ne_none a)
  | cons b l ih =>
      cases i with
      | zero =>
          obtain rfl := Option.some.inj h
          rw [List.modify_zero_cons, List.countP_cons, List.countP_cons]
          omega
      | succ i =>
          rw [List.modify_succ_cons, List.countP_cons, List.countP_cons]
          have := ih h
          omega

/-- Another slot state of one document: the held slots change by that document. -/
theorem held_setSlot {index : Nat} {doc : Started} (hdoc : s.started[index]? = some doc)
    (slot : Slot) :
    (s.setSlot index slot).held + (if doc.holds s.docConnectionGeneration then 1 else 0) =
      s.held + (if ({ doc with slot := slot } : Started).holds s.docConnectionGeneration
        then 1 else 0) := countP_modify hdoc

theorem map_modify {α β : Type*} {f : α → α} {g : α → β} (hf : ∀ a, g (f a) = g a) (l : List α)
    (i : Nat) : (l.modify i f).map g = l.map g := by
  induction l generalizing i with
  | nil => cases i <;> rfl
  | cons a l ih =>
      cases i with
      | zero => rw [List.modify_zero_cons, List.map_cons, List.map_cons, hf]
      | succ i => rw [List.modify_succ_cons, List.map_cons, List.map_cons, ih]

theorem past_setSlot (hs : Counted cfg s) (index : Nat) (slot : Slot) :
    ∀ doc ∈ (s.setSlot index slot).started, doc.generation ≤ s.docConnectionGeneration := by
  intro doc hdoc
  have hsame : (s.setSlot index slot).started.map (·.generation) = s.started.map (·.generation) :=
    @map_modify _ _ (fun doc : Started => { doc with slot := slot }) (fun doc => doc.generation)
      (fun _ => rfl) s.started index
  have hmem : doc.generation ∈ s.started.map (·.generation) := hsame ▸ List.mem_map_of_mem hdoc
  obtain ⟨doc', hdoc', heq⟩ := List.mem_map.mp hmem
  rw [← heq]
  exact hs.past doc' hdoc'

theorem keeps_slotFree {index : Nat} {doc : Started} (hdoc : s.started[index]? = some doc)
    (hslot : doc.slot = .resolved) : Keeps cfg s ((s.setSlot index .freed).slotFree cfg doc) := by
  intro hs
  have hheld := held_setSlot hdoc .freed
  have hfreed : ({ doc with slot := .freed } : Started).holds s.docConnectionGeneration = false :=
    Bool.and_false _
  rw [hfreed, if_neg Bool.false_ne_true] at hheld
  have hpast := past_setSlot hs index .freed
  unfold VaultSync.slotFree
  by_cases hgeneration : doc.generation = s.docConnectionGeneration
  · have hholds : doc.holds s.docConnectionGeneration = true := by
      unfold Started.holds
      rw [hgeneration, hslot]
      simp
    rw [hholds, if_pos rfl] at hheld
    have hcount := hs.count
    have hbound := hs.bound
    have hnot : ¬ doc.generation ≠ (s.setSlot index .freed).docConnectionGeneration :=
      not_not.mpr hgeneration
    rw [if_neg hnot]
    have hcounted : Counted cfg { s.setSlot index .freed with
        activeDocConnections := s.activeDocConnections - 1 } := by
      refine ⟨?_, ?_, hpast⟩
      · show s.activeDocConnections - 1 = (s.setSlot index .freed).held
        omega
      · show s.activeDocConnections - 1 ≤ concurrency cfg
        omega
    have hspec := @pumpDocQueue_spec cfg { s.setSlot index .freed with
      activeDocConnections := s.activeDocConnections - 1
      prioritizedPaths := s.prioritizedPaths.erase doc.item.path
      prioritizedGuids := s.prioritizedGuids.erase doc.item.guid
      highPriorityDrained := s.highPriorityDrained ||
        (s.prioritizedPaths.erase doc.item.path).isEmpty }
      ⟨hcounted.count, hcounted.bound, hcounted.past⟩
    exact ⟨hspec.1, fun _ => hspec.2⟩
  · have hholds : doc.holds s.docConnectionGeneration = false := by
      unfold Started.holds
      rw [decide_eq_false hgeneration, Bool.false_and]
    rw [hholds, if_neg Bool.false_ne_true] at hheld
    have hnot : doc.generation ≠ (s.setSlot index .freed).docConnectionGeneration := hgeneration
    rw [if_pos hnot]
    exact ⟨⟨hs.count.trans hheld.symm, hs.bound, hpast⟩, fun hwaits => hwaits⟩

theorem keeps_finish {index : Nat} {doc : Started} (hdoc : s.started[index]? = some doc)
    (hslot : doc.slot = .waiting) : Keeps cfg s (s.setSlot index .resolved) := by
  intro hs
  have hheld := held_setSlot hdoc .resolved
  have hsame : ({ doc with slot := .resolved } : Started).holds s.docConnectionGeneration =
      doc.holds s.docConnectionGeneration := by
    unfold Started.holds
    rw [hslot]
    rfl
  rw [hsame] at hheld
  exact ⟨⟨hs.count.trans (Nat.add_right_cancel hheld).symm, hs.bound, past_setSlot hs index _⟩,
    fun hwaits => hwaits⟩

theorem keeps_step {e : Event} (h : step cfg s e = some s') :
    KeepsUnless cfg (s.Strands e) s s' := by
  cases e with
  | filesChanged files keys =>
      obtain rfl := Option.some.inj h
      have hfiles : Keeps cfg s { s with files := files } :=
        Steady.keeps ⟨rfl, rfl, rfl, rfl, rfl, rfl, rfl, rfl⟩ rfl
      exact (hfiles.trans (keeps_onFilesChanged _ keys)).unless
  | structuredChanged structured keys =>
      obtain rfl := Option.some.inj h
      have hstructured : Keeps cfg s { s with structured := structured } :=
        Steady.keeps ⟨rfl, rfl, rfl, rfl, rfl, rfl, rfl, rfl⟩ rfl
      exact (hstructured.trans (keeps_onStructuredChanged _ keys)).unless
  | deleteContinues pass outcome => exact keeps_continueDelete h
  | deleteRetried path kind deletedIdentity =>
      obtain ⟨-, h⟩ := Option.ite_none_right_eq_some.mp h
      obtain rfl := Option.some.inj h
      refine Keeps.unless (Keeps.trans ?_ (keeps_handleRemoteDelete _ path kind deletedIdentity))
      exact Steady.keeps ⟨rfl, rfl, rfl, rfl, rfl, rfl, rfl, rfl⟩ rfl
  | epochRebuilt documentId rewound =>
      obtain rfl := Option.some.inj h
      exact (keeps_rebuildDocumentForEpoch s documentId rewound).unless
  | prioritized path guid =>
      obtain rfl := Option.some.inj h
      exact (keeps_prioritizeItem s path guid).unless
  | invalidated documentId =>
      obtain rfl := Option.some.inj h
      exact (keeps_onDocumentInvalidated s documentId).unless
  | reloadWindowOver path documentId =>
      obtain ⟨-, h⟩ := Option.ite_none_right_eq_some.mp h
      obtain rfl := Option.some.inj h
      refine Keeps.unless (Keeps.trans ?_ (keeps_reloadWindowOver _ path documentId))
      exact Steady.keeps ⟨rfl, rfl, rfl, rfl, rfl, rfl, rfl, rfl⟩ rfl
  | suspended =>
      obtain rfl := Option.some.inj h
      exact (keeps_suspendForBackground s).unless
  | resumes priorities =>
      obtain rfl := Option.some.inj h
      exact (keeps_resumeFromBackground s priorities).unless
  | resumed generation priorities =>
      obtain ⟨-, h⟩ := Option.ite_none_right_eq_some.mp h
      obtain rfl := Option.some.inj h
      exact (keeps_resumed priorities).unless
  | indexStatus status priorities =>
      obtain rfl := Option.some.inj h
      exact (keeps_handleIndexStatus s status priorities).unless
  | documentsReconnected =>
      obtain ⟨-, h⟩ := Option.ite_none_left_eq_some.mp h
      obtain rfl := Option.some.inj h
      exact (Steady.refl s).pumped.unless
  | finish index finish =>
      rw [step] at h
      cases hdoc : s.started[index]? with
      | none =>
          rw [hdoc] at h
          exact absurd h.symm (Option.some_ne_none _)
      | some doc =>
          rw [hdoc] at h
          replace h : (if doc.slot = .waiting && finish.finishes then
            some (s.setSlot index .resolved) else some s) = some s' := h
          split_ifs at h with hslot
          · obtain rfl := Option.some.inj h
            exact (keeps_finish hdoc (of_decide_eq_true (Bool.and_eq_true _ _ ▸ hslot).1)).unless
          · obtain rfl := Option.some.inj h
            exact (Keeps.refl cfg s).unless
  | slotFree index =>
      rw [step] at h
      cases hdoc : s.started[index]? with
      | none =>
          rw [hdoc] at h
          exact absurd h.symm (Option.some_ne_none _)
      | some doc =>
          rw [hdoc] at h
          obtain ⟨hslot, h⟩ := Option.ite_none_right_eq_some.mp h
          obtain rfl := Option.some.inj h
          exact (keeps_slotFree hdoc hslot).unless
  | initialSyncQueues item front =>
      rw [step] at h
      cases hsync : s.initialSync with
      | running pumped =>
          rw [hsync] at h
          obtain ⟨-, h⟩ := Option.ite_none_left_eq_some.mp h
          obtain rfl := Option.some.inj h
          -- the pass is running, and pumps at its end
          have hsteady := steady_enqueueDoc
            { s with bootstrapPrepared := true, initialSync := .running false } item front
          refine fun hs => ⟨hsteady.counted ⟨hs.count, hs.bound, hs.past⟩, fun _ _ _ _ _ => ?_⟩
          exact .inr (.inr (.inr (.inl hsteady.initialSync)))
      | _ =>
          rw [hsync] at h
          exact absurd h.symm (Option.some_ne_none _)
  | initialSyncPassed =>
      rw [step] at h
      cases hsync : s.initialSync with
      | running pumped =>
          rw [hsync] at h
          obtain rfl := Option.some.inj h
          intro hs
          have hspec := @pumpDocQueue_spec cfg
            { s with bootstrapPrepared := true, initialSync := .running true }
            ⟨hs.count, hs.bound, hs.past⟩
          exact ⟨⟨hspec.1.count, hspec.1.bound, hspec.1.past⟩, fun _ _ => hspec.2⟩
      | _ =>
          rw [hsync] at h
          exact absurd h.symm (Option.some_ne_none _)
  | initialSynced =>
      obtain ⟨hsync, h⟩ := Option.ite_none_right_eq_some.mp h
      obtain rfl := Option.some.inj h
      refine fun hs => ⟨⟨hs.count, hs.bound, hs.past⟩,
        fun _ hwaits hdestroyed hsuspended hqueue => ?_⟩
      rcases hwaits hdestroyed hsuspended hqueue with h | h | h | h | h
      · exact .inl h
      · exact .inr (.inl h)
      · exact .inr (.inr (.inl h))
      · exact absurd (hsync.symm.trans h) (by simp)
      · exact absurd (hsync.symm.trans h) (by simp)
  | initialSyncFailed =>
      rw [step] at h
      cases hsync : s.initialSync with
      | running pumped =>
          rw [hsync] at h
          obtain ⟨-, h⟩ := Option.ite_none_left_eq_some.mp h
          obtain rfl := Option.some.inj h
          exact fun hs => ⟨⟨hs.count, hs.bound, hs.past⟩,
            fun _ _ _ _ _ => .inr (.inr (.inr (.inr rfl)))⟩
      | _ =>
          rw [hsync] at h
          exact absurd h.symm (Option.some_ne_none _)
  | initialSyncRetried =>
      obtain ⟨-, h⟩ := Option.ite_none_right_eq_some.mp h
      obtain rfl := Option.some.inj h
      exact (keeps_runInitialSync s).unless
  | outside documents structuredDocuments removed localFiles =>
      obtain rfl := Option.some.inj h
      exact Keeps.unless (Steady.keeps ⟨rfl, rfl, rfl, rfl, rfl, rfl, rfl, rfl⟩ rfl)
  | destroyed =>
      obtain rfl := Option.some.inj h
      exact fun hs => ⟨⟨hs.count, hs.bound, hs.past⟩,
        fun _ _ hdestroyed => absurd hdestroyed Bool.noConfusion⟩

/-! ## Every run -/

theorem constructed_counted (hs : Constructed s) : Counted cfg s ∧ Waits s := by
  obtain ⟨mobileSuspended, files, structured, removed, localFiles, rfl⟩ := hs
  refine ⟨⟨rfl, Nat.zero_le _, fun doc hdoc => absurd hdoc List.not_mem_nil⟩, ?_⟩
  exact fun _ _ hqueue => absurd rfl hqueue

theorem reach_counted (h : Reach Constructed (Takes (step cfg)) s) : Counted cfg s := by
  refine h.invariant (fun s hs => (constructed_counted hs).1) fun s e s' hs hstep => ?_
  exact (keeps_step hstep hs).1

theorem reach_waits
    (h : Reach Constructed (Where (fun s e => ¬ s.Strands e) (Takes (step cfg))) s) :
    Counted cfg s ∧ Waits s := by
  refine h.invariant (fun s hs => constructed_counted hs) fun s e s' hs hstep => ?_
  obtain ⟨hcounted, hwaits⟩ := keeps_step hstep.2 hs.1
  exact ⟨hcounted, hwaits hstep.1 hs.2⟩

/-- No handler is between two of its awaits. -/
structure Idle (s : VaultSync) : Prop where
  deletes : s.deletes = []
  resumes : s.resumes = []
  initialSync : ∀ pumped, s.initialSync ≠ .running pumped

/-- The slots counted are those held, and a queued document waits for one. -/
structure Unstranded (cfg : Config) (s : VaultSync) : Prop where
  bound : s.activeDocConnections ≤ concurrency cfg
  count : s.activeDocConnections = s.held
  held : s.destroyed = false → s.mobileSuspended = false → Idle s → s.docQueue ≠ [] →
    0 < s.activeDocConnections

/-- In every run the slots counted are those held. Where no remote delete puts back a text while
no slot is held, what is queued waits for a slot that is, for the catch-up of a resume that did
not find the index connected, or for the retry of the initial sync. -/
theorem queued_waits (cfg : Config) :
    (∀ s, Reach Constructed (Takes (step cfg)) s →
        s.activeDocConnections ≤ concurrency cfg ∧ s.activeDocConnections = s.held) ∧
      ∀ s, Reach Constructed (Where (fun s e => ¬ s.Strands e) (Takes (step cfg))) s →
        s.destroyed = false → s.mobileSuspended = false → Idle s → s.docQueue ≠ [] →
          0 < s.activeDocConnections ∨ s.mobileCatchUpPending = true ∨
            s.initialSync = .retrying := by
  refine ⟨fun s h => ⟨(reach_counted h).bound, (reach_counted h).count⟩, ?_⟩
  intro s h hdestroyed hsuspended hidle hqueue
  rcases (reach_waits h).2 hdestroyed hsuspended hqueue with h | h | h | h | h
  · exact .inl h
  · exact .inr (.inl h)
  · rw [hidle.resumes] at h
    exact absurd h List.not_mem_nil
  · exact absurd h (hidle.initialSync false)
  · exact .inr (.inr h)

/-! ## Two runs -/

/-- A vault that was never synced. -/
def emptyVault : VaultSync where
  destroyed := false
  mobileSuspended := false
  docQueue := []
  activeDocConnections := 0
  docConnectionGeneration := 0
  started := []
  documents := []
  structuredDocuments := []
  files := []
  structured := []
  prioritizedPaths := []
  prioritizedGuids := []
  highPriorityDrained := false
  indexStatus := .offline
  mobileCatchUpPending := false
  mobileResumeInProgress := false
  resumes := []
  invalidationReloads := []
  invalidationReloadPending := []
  reloadTimers := []
  bootstrapPrepared := false
  initialSync := .notRun
  removed := []
  localFiles := []
  deletes := []
  remoteDeletePending := []
  deleteTimers := []

theorem constructed_emptyVault : Constructed emptyVault := ⟨false, [], [], [], [], rfl⟩

/-- The steps in turn. -/
def runSteps (cfg : Config) (events : List Event) (s : VaultSync) : Option VaultSync :=
  events.foldlM (step cfg) s

theorem reach_runSteps {cond : VaultSync → Event → Prop} {events : List Event}
    (h : Reach Constructed (Where cond (Takes (step cfg))) s)
    (hcond : ∀ e ∈ events, ∀ s, cond s e) (hrun : runSteps cfg events s = some s') :
    Reach Constructed (Where cond (Takes (step cfg))) s' := by
  induction events generalizing s with
  | nil =>
      obtain rfl := Option.some.inj hrun
      exact h
  | cons e events ih =>
      obtain ⟨t, hstep, hrun⟩ := Option.bind_eq_some_iff.mp hrun
      obtain ⟨he, hcond⟩ := List.forall_mem_cons.mp hcond
      exact ih (h.step (a := e) ⟨he s, hstep⟩) hcond hrun

def phone : Config := ⟨true, "v"⟩

def desktop : Config := ⟨false, "v"⟩

/-- The initial sync, then two notes that come from the server. -/
def twoNotes : List Event :=
  [.indexStatus .connected [], .initialSyncPassed, .initialSynced,
    .filesChanged [("a.md", "ga"), ("b.md", "gb")] [("a.md", .put), ("b.md", .put)]]

/-- The second note waits for the slot of the first. -/
theorem queued_waits_twoNotes : ∃ s,
    Reach Constructed (Where (fun s e => ¬ s.Strands e) (Takes (step phone))) s ∧
      s.docQueue.length = 1 ∧ s.activeDocConnections = s.held ∧
        (0 < s.activeDocConnections ∨ s.mobileCatchUpPending = true ∨
          s.initialSync = .retrying) := by
  have hcond : ∀ e ∈ twoNotes, ∀ s : VaultSync, ¬ s.Strands e := by
    intro e he s
    fin_cases he <;> exact id
  have hnotes := reach_runSteps (.start constructed_emptyVault) hcond
    (rfl : runSteps phone twoNotes _ = _)
  refine ⟨_, hnotes, rfl, ((queued_waits phone).1 _ hnotes.of_where).2, ?_⟩
  exact (queued_waits phone).2 _ hnotes rfl rfl ⟨rfl, rfl, fun _ h => nomatch h⟩
    (List.cons_ne_nil _ _)

/-- While the second note waits for the slot, the phone sleeps, and wakes without a server. -/
def sleeps : List Event :=
  twoNotes ++ [.suspended, .indexStatus .offline [], .resumes [], .resumed 1 []]

/-- A note is deleted and put back by the server while its file is being deleted, and its new
document fails before the file is gone. -/
def putBack : List Event :=
  [.indexStatus .connected [], .initialSyncPassed, .initialSynced,
    .filesChanged [("a.md", "ga")] [("a.md", .put)], .finish 0 .completion, .slotFree 0,
    .filesChanged [] [("a.md", .delete (some "ga"))],
    .deleteContinues ⟨"a.md", .text, some "ga", .reconciling⟩ (.deletes true),
    .filesChanged [("a.md", "ga")] [("a.md", .put)], .finish 1 (.status .error), .slotFree 1,
    .deleteContinues ⟨"a.md", .text, some "ga", .deleting⟩ .ends]

theorem not_unstranded :
    (∃ s, Reach Constructed (Takes (step phone)) s ∧ ¬ Unstranded phone s) ∧
      ∃ s, Reach Constructed (Takes (step desktop)) s ∧ ¬ Unstranded desktop s := by
  have hrun {cfg : Config} {events : List Event} {s : VaultSync}
      (h : runSteps cfg events emptyVault = some s) : Reach Constructed (Takes (step cfg)) s := by
    have hwhere : Reach Constructed (Where (fun _ _ => True) (Takes (step cfg))) s :=
      reach_runSteps (.start constructed_emptyVault) (fun _ _ _ => trivial) h
    exact hwhere.of_where
  constructor
  · refine ⟨_, hrun (rfl : runSteps phone sleeps _ = _), fun h => ?_⟩
    exact absurd (h.held rfl rfl ⟨rfl, rfl, fun _ h => nomatch h⟩ (List.cons_ne_nil _ _))
      (Nat.lt_irrefl 0)
  · refine ⟨_, hrun (rfl : runSteps desktop putBack _ = _), fun h => ?_⟩
    exact absurd (h.held rfl rfl ⟨rfl, rfl, fun _ h => nomatch h⟩ (List.cons_ne_nil _ _))
      (Nat.lt_irrefl 0)

end Realtime.Vault.DocQueue
