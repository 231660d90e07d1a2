import Mathlib.Tactic
import Realtime.Lib.Transition
import Realtime.Vault.RemoteDelete

/-!
# What a remote delete destroys

A version is preserved when the server acknowledged it for the deleted identity or it
was written to a conflict copy. What a pass has read of a path and let go is preserved,
at every point of every run (`Base`), so a delete destroys nothing as long as what
stands at the path is still what was read.
-/

namespace Realtime.Vault.RemoteDelete

open Lib

variable {τ φ : Type}

/-- The server acknowledged the content for the deleted identity, or it is in a conflict
copy. -/
def Preserved (s : State τ φ) (path : Path) (deletedIdentity : Option Guid) (content : τ) : Prop :=
  (∃ guid, deletedIdentity = some guid ∧ (guid, content) ∈ s.acked) ∨ (path, content) ∈ s.copies

/-- The store of a document of the deleted identity holds the content, and the content of
the document is preserved. -/
def Lags (s : State τ φ) (path : Path) (deletedIdentity : Option Guid) (content : τ) : Prop :=
  ∃ r : Resident τ, deletedIdentity = some r.guid ∧ (r.guid, r.epoch, content) ∈ s.stored ∧
    Preserved s path deletedIdentity r.content

/-- The call destroys no version that is not preserved, and no path that is in the index. -/
structure Harmless (s : State τ φ) (path : Path) (deletedIdentity : Option Guid)
    (call : Call τ) : Prop where
  residents : ∀ r ∈ call.residents, Preserved s path deletedIdentity r.content
  disk : Preserved s path deletedIdentity call.disk ∨ Lags s path deletedIdentity call.disk
  files : call.inFiles = false
  structured : call.inStructured = false

/-- What stands at the path is what was read of it, for the same identity, when the delete
was let go; and the index has no entry of another kind. -/
structure Untouched (s : State τ φ) (path : Path) (pass : Pass τ φ) (call : Call τ) : Prop where
  read : ∃ seen, s.seen path = some seen ∧ seen.deletedIdentity = pass.deletedIdentity ∧
    seen.disk = some call.disk ∧ ∀ r ∈ call.residents, seen.resident = some r
  files : pass.kind ≠ .text → call.inFiles = false
  structured : pass.kind = .text → call.inStructured = false

/-- The condition on a step: a delete it calls finds the path untouched. -/
def cond [DecidableEq φ] (sha256Text : τ → φ) (s : State τ φ) (e : Event τ) : Prop :=
  ∀ s', step sha256Text s e = some s' → ∀ path pass call, s'.passes path = some pass →
    s.passes path ≠ some pass → pass.point = .deleting call → Untouched s' path pass call

/-! ## The invariant -/

/-- What is recorded only grows. -/
structure Grows (s s' : State τ φ) : Prop where
  acked : ∀ e ∈ s.acked, e ∈ s'.acked
  stored : ∀ e ∈ s.stored, e ∈ s'.stored
  copies : ∀ e ∈ s.copies, e ∈ s'.copies

section Grows

variable {s s' s'' : State τ φ} {path : Path} {deletedIdentity : Option Guid} {content : τ}

theorem Grows.of_eq (ha : s'.acked = s.acked) (hs : s'.stored = s.stored)
    (hc : s'.copies = s.copies) : Grows s s' :=
  ⟨fun _ h => ha ▸ h, fun _ h => hs ▸ h, fun _ h => hc ▸ h⟩

theorem Grows.trans (h : Grows s s') (h' : Grows s' s'') : Grows s s'' :=
  ⟨fun _ he => h'.acked _ (h.acked _ he), fun _ he => h'.stored _ (h.stored _ he),
    fun _ he => h'.copies _ (h.copies _ he)⟩

theorem Preserved.mono (h : Preserved s path deletedIdentity content) (hg : Grows s s') :
    Preserved s' path deletedIdentity content := by
  rcases h with ⟨guid, hid, h⟩ | h
  · exact .inl ⟨guid, hid, hg.acked _ h⟩
  · exact .inr (hg.copies _ h)

theorem Lags.mono (h : Lags s path deletedIdentity content) (hg : Grows s s') :
    Lags s' path deletedIdentity content := by
  obtain ⟨r, hid, hr, h⟩ := h
  exact ⟨r, hid, hg.stored _ hr, h.mono hg⟩

theorem Harmless.mono {call : Call τ} (h : Harmless s path deletedIdentity call)
    (hg : Grows s s') : Harmless s' path deletedIdentity call :=
  ⟨fun r hr => (h.residents r hr).mono hg, h.disk.imp (·.mono hg) (·.mono hg), h.files,
    h.structured⟩

end Grows

/-- The fingerprint is that of a preserved version. -/
def Handled (sha256Text : τ → φ) (s : State τ φ) (path : Path) (deletedIdentity : Option Guid)
    (fingerprint : φ) : Prop :=
  ∃ content, sha256Text content = fingerprint ∧ Preserved s path deletedIdentity content

/-- The fingerprints the server acknowledged for an identity. -/
def Acked (sha256Text : τ → φ) (s : State τ φ) (guid : Guid) (fingerprint : φ) : Prop :=
  ∃ content, (guid, content) ∈ s.acked ∧ sha256Text content = fingerprint

/-- The fingerprints of what the local store of an identity is known to hold. -/
def Stored (sha256Text : τ → φ) (s : State τ φ) (guid : Guid) (fingerprint : Nat × φ) : Prop :=
  ∃ content, (guid, fingerprint.1, content) ∈ s.stored ∧ sha256Text content = fingerprint.2

/-- What holds of a pass at each of its awaits. -/
def PointOk (sha256Text : τ → φ) (s : State τ φ) (path : Path) (kind : DocKind)
    (deletedIdentity : Option Guid) : Point τ φ → Prop
  | .hashResident l _ | .hashPending l _ | .copied l _ =>
      ∀ f ∈ l.handled, Handled sha256Text s path deletedIdentity f
  | .readDisk l resident | .diskRead l resident _ | .hashDisk l resident _ =>
      (∀ f ∈ l.handled, Handled sha256Text s path deletedIdentity f) ∧
        ∀ r, resident = some r → Preserved s path deletedIdentity r.content
  | .hashStored l r _ expected =>
      (∀ f ∈ l.handled, Handled sha256Text s path deletedIdentity f) ∧
        Preserved s path deletedIdentity r.content ∧ deletedIdentity = some r.guid ∧
        ∀ f, expected = some f → Stored sha256Text s r.guid f
  -- the fingerprint of what is being copied is already in the set
  | .copying l pending =>
      ∀ f ∈ l.handled, f = sha256Text pending ∨ Handled sha256Text s path deletedIdentity f
  | .deleting call =>
      match kind with
      | .text => call.inFiles = false
      | .structured _ => call.inStructured = false
  | _ => True

/-- What a pass read and let go is preserved. -/
structure SeenOk (s : State τ φ) (path : Path) (seen : Seen τ) : Prop where
  resident : ∀ r, seen.resident = some r → Preserved s path seen.deletedIdentity r.content
  disk : ∀ d, seen.disk = some d →
    Preserved s path seen.deletedIdentity d ∨ Lags s path seen.deletedIdentity d

def PassOk (sha256Text : τ → φ) (s : State τ φ) (path : Path) (pass : Pass τ φ) : Prop :=
  PointOk sha256Text s path pass.kind pass.deletedIdentity pass.point

structure Base (sha256Text : τ → φ) (s : State τ φ) : Prop where
  records : ∀ path,
    LocalPathState.SoundAt (Acked sha256Text s) (Stored sha256Text s) (s.localSyncState path)
  passes : ∀ path pass, s.passes path = some pass → PassOk sha256Text s path pass
  seen : ∀ path seen, s.seen path = some seen → SeenOk s path seen

section Mono

variable {sha256Text : τ → φ} {s s' : State τ φ} {path : Path} {deletedIdentity : Option Guid}

theorem Handled.mono {f : φ} (h : Handled sha256Text s path deletedIdentity f) (hg : Grows s s') :
    Handled sha256Text s' path deletedIdentity f := by
  obtain ⟨content, hf, h⟩ := h
  exact ⟨content, hf, h.mono hg⟩

theorem Acked.mono {guid : Guid} {f : φ} (h : Acked sha256Text s guid f) (hg : Grows s s') :
    Acked sha256Text s' guid f := by
  obtain ⟨content, h, hf⟩ := h
  exact ⟨content, hg.acked _ h, hf⟩

theorem Stored.mono {guid : Guid} {f : Nat × φ} (h : Stored sha256Text s guid f)
    (hg : Grows s s') : Stored sha256Text s' guid f := by
  obtain ⟨content, h, hf⟩ := h
  exact ⟨content, hg.stored _ h, hf⟩

theorem PassOk.mono {pass : Pass τ φ} (h : PassOk sha256Text s path pass) (hg : Grows s s') :
    PassOk sha256Text s' path pass := by
  obtain ⟨kind, deletedIdentity, point⟩ := pass
  have hmono : ∀ {l : Preserving φ},
      (∀ f ∈ l.handled, Handled sha256Text s path deletedIdentity f) →
      ∀ f ∈ l.handled, Handled sha256Text s' path deletedIdentity f :=
    fun h f hf => (h f hf).mono hg
  cases point with
  | hashResident l r => exact hmono h
  | hashPending l pending => exact hmono h
  | copied l destination => exact hmono h
  | readDisk l resident => exact ⟨hmono h.1, fun r hr => (h.2 r hr).mono hg⟩
  | diskRead l resident disk => exact ⟨hmono h.1, fun r hr => (h.2 r hr).mono hg⟩
  | hashDisk l resident disk => exact ⟨hmono h.1, fun r hr => (h.2 r hr).mono hg⟩
  | hashStored l r disk expected =>
      exact ⟨hmono h.1, h.2.1.mono hg, h.2.2.1, fun f hf => (h.2.2.2 f hf).mono hg⟩
  | copying l pending => exact fun f hf => (h f hf).imp id (·.mono hg)
  | deleting call => exact h
  | parentFolder target pending => trivial
  | moving target => trivial
  | moved target => trivial
  | notRenamed => trivial
  | preserved paths => trivial
  | deleted => trivial
  | resolved => trivial

theorem SeenOk.mono {seen : Seen τ} (h : SeenOk s path seen) (hg : Grows s s') :
    SeenOk s' path seen :=
  ⟨fun r hr => (h.resident r hr).mono hg, fun d hd => (h.disk d hd).imp (·.mono hg) (·.mono hg)⟩

/-- The invariant after a step, from what the step puts in. -/
theorem Base.update (h : Base sha256Text s) (hg : Grows s s')
    (hrecords : ∀ q, s'.localSyncState q = s.localSyncState q ∨
      LocalPathState.SoundAt (Acked sha256Text s') (Stored sha256Text s') (s'.localSyncState q))
    (hpasses : ∀ q pass, s'.passes q = some pass →
      s.passes q = some pass ∨ PassOk sha256Text s' q pass)
    (hseen : ∀ q seen, s'.seen q = some seen → s.seen q = some seen ∨ SeenOk s' q seen) :
    Base sha256Text s' where
  records := fun q => by
    rcases hrecords q with heq | hq
    · rw [heq]
      exact (h.records q).mono (fun _ _ ha => ha.mono hg) (fun _ _ hs => hs.mono hg)
    · exact hq
  passes := fun q pass hq =>
    (hpasses q pass hq).elim (fun hold => (h.passes q pass hold).mono hg) id
  seen := fun q seen hq => (hseen q seen hq).elim (fun hold => (h.seen q seen hold).mono hg) id

end Mono

/-- What every piece of code keeps. -/
structure Follows (sha256Text : τ → φ) (s s' : State τ φ) : Prop where
  grows : Grows s s'
  base : Base sha256Text s'

section Follows

variable {sha256Text : τ → φ} {s s' s'' : State τ φ} {path : Path} {pass : Pass τ φ}
  {l : Preserving φ}

theorem Follows.trans (h : Follows sha256Text s s') (h' : Follows sha256Text s' s'') :
    Follows sha256Text s s'' :=
  ⟨h.grows.trans h'.grows, h'.base⟩

/-- Only fields change that the invariant does not look at, or records are dropped. -/
theorem Base.same (h : Base sha256Text s) (ha : s'.acked = s.acked) (hs : s'.stored = s.stored)
    (hc : s'.copies = s.copies)
    (hr : ∀ q, s'.localSyncState q = s.localSyncState q ∨ s'.localSyncState q = none)
    (hp : s'.passes = s.passes) (hn : s'.seen = s.seen) : Follows sha256Text s s' := by
  have hg : Grows s s' := .of_eq ha hs hc
  refine ⟨hg, h.update hg (fun q => ?_) (fun q pass hq => .inl (hp ▸ hq))
    (fun q seen hq => .inl (hn ▸ hq))⟩
  rcases hr q with hsame | hnone
  · exact .inl hsame
  · rw [hnone]
    exact .inr LocalPathState.soundAt_none

theorem Base.removeDocument (h : Base sha256Text s) (path : Path) :
    Follows sha256Text s (s.removeDocument path) :=
  h.same rfl rfl rfl (fun _ => .inl rfl) rfl rfl

theorem Base.removeStructuredDocument (h : Base sha256Text s) (path : Path) :
    Follows sha256Text s (s.removeStructuredDocument path) :=
  h.same rfl rfl rfl (fun _ => .inl rfl) rfl rfl

theorem Base.removeOf (h : Base sha256Text s) (path : Path) (kind : DocKind) :
    Follows sha256Text s (s.removeOf path kind) := by
  cases kind with
  | text => exact h.removeDocument path
  | structured kind => exact h.removeStructuredDocument path

theorem Base.suspend (h : Base sha256Text s) {point : Point τ φ}
    (hok : PointOk sha256Text s path pass.kind pass.deletedIdentity point) :
    Follows sha256Text s (s.suspend path pass point) := by
  have hg : Grows s (s.suspend path pass point) := .of_eq rfl rfl rfl
  refine ⟨hg, h.update hg (fun _ => .inl rfl) (fun q p hq => ?_) (fun _ _ hq => .inl hq)⟩
  have hq : Function.update s.passes path (some { pass with point := point }) q = some p := hq
  rw [Function.update_apply] at hq
  split at hq
  · rename_i heq
    obtain rfl := Option.some.inj hq
    subst heq
    exact .inr (PassOk.mono (s := s) hok hg)
  · exact .inl hq

theorem Base.setRecord (h : Base sha256Text s) {r : Option (LocalPathState Guid φ)}
    (hr : LocalPathState.SoundAt (Acked sha256Text s) (Stored sha256Text s) r) :
    Follows sha256Text s (s.setRecord path r) := by
  have hg : Grows s (s.setRecord path r) := .of_eq rfl rfl rfl
  refine ⟨hg, h.update hg (fun q => ?_) (fun _ _ hq => .inl hq) (fun _ _ hq => .inl hq)⟩
  by_cases hq : q = path
  · subst hq
    right
    show LocalPathState.SoundAt _ _ (Function.update s.localSyncState q r q)
    rw [Function.update_self]
    exact hr
  · left
    exact Function.update_of_ne hq _ _

theorem Base.moveRecord (h : Base sha256Text s) (path target : Path) (kind : DocKind) :
    Follows sha256Text s (s.moveRecord path target kind) :=
  have hdrop : Follows sha256Text s (s.setRecord path none) :=
    h.setRecord LocalPathState.soundAt_none
  hdrop.trans (hdrop.base.setRecord (LocalPathState.soundAt_some.mpr (h.records path).moved))

/-- A path is given up: its record and its mark go. -/
theorem Base.forget (h : Base sha256Text s) :
    Follows sha256Text s { s with
      localSyncState := Function.update s.localSyncState path none
      remoteDeletePreserved := Function.update s.remoteDeletePreserved path false } := by
  refine h.same rfl rfl rfl (fun q => ?_) rfl rfl
  show Function.update s.localSyncState path none q = _ ∨
    Function.update s.localSyncState path none q = none
  rw [Function.update_apply]
  split
  · exact .inr rfl
  · exact .inl rfl

/-- The server acknowledges content. -/
theorem Base.acknowledge (h : Base sha256Text s) (guid : Guid) (content : τ) :
    Follows sha256Text s { s with acked := (guid, content) :: s.acked } := by
  have hg : Grows s { s with acked := (guid, content) :: s.acked } :=
    ⟨fun _ he => List.mem_cons_of_mem _ he, fun _ he => he, fun _ he => he⟩
  exact ⟨hg, h.update hg (fun _ => .inl rfl) (fun _ _ hq => .inl hq) (fun _ _ hq => .inl hq)⟩

/-- A local store holds content durably. -/
theorem Base.store (h : Base sha256Text s) (guid : Guid) (epoch : Nat) (content : τ) :
    Follows sha256Text s { s with stored := (guid, epoch, content) :: s.stored } := by
  have hg : Grows s { s with stored := (guid, epoch, content) :: s.stored } :=
    ⟨fun _ he => he, fun _ he => List.mem_cons_of_mem _ he, fun _ he => he⟩
  exact ⟨hg, h.update hg (fun _ => .inl rfl) (fun _ _ hq => .inl hq) (fun _ _ hq => .inl hq)⟩

/-- A conflict copy is written. -/
theorem Base.copy (h : Base sha256Text s) (path : Path) (content : τ) :
    Follows sha256Text s { s with copies := (path, content) :: s.copies } := by
  have hg : Grows s { s with copies := (path, content) :: s.copies } :=
    ⟨fun _ he => he, fun _ he => he, fun _ he => List.mem_cons_of_mem _ he⟩
  exact ⟨hg, h.update hg (fun _ => .inl rfl) (fun _ _ hq => .inl hq) (fun _ _ hq => .inl hq)⟩

/-- The vault changes. -/
theorem Base.setVault (h : Base sha256Text s) {vault : Path → Option τ} :
    Follows sha256Text s { s with vault := vault } :=
  h.same rfl rfl rfl (fun _ => .inl rfl) rfl rfl

/-! ### `preserveUnacknowledgedVersions` -/

theorem Base.resolvePreserved (h : Base sha256Text s) {resident : Option (Resident τ)}
    {disk : Option τ}
    (hr : ∀ r, resident = some r → Preserved s path pass.deletedIdentity r.content)
    (hd : ∀ d, disk = some d → Preserved s path pass.deletedIdentity d ∨
      Lags s path pass.deletedIdentity d) :
    Follows sha256Text s (s.resolvePreserved path pass l resident disk) := by
  have hs : Follows sha256Text s (s.suspend path pass (.preserved (some l.preservedPaths))) :=
    h.suspend trivial
  have hg : Grows s (s.resolvePreserved path pass l resident disk) := .of_eq rfl rfl rfl
  refine ⟨hg, hs.base.update (.of_eq rfl rfl rfl) (fun _ => .inl rfl) (fun _ _ hq => .inl hq)
    (fun q seen hq => ?_)⟩
  have hq : Function.update s.seen path (some ⟨pass.deletedIdentity, resident, disk⟩) q =
    some seen := hq
  rw [Function.update_apply] at hq
  split at hq
  · rename_i heq
    obtain rfl := Option.some.inj hq
    subst heq
    exact .inr (SeenOk.mono (s := s) ⟨hr, hd⟩ hg)
  · exact .inl hq

theorem Base.diskRound (h : Base sha256Text s) {resident : Option (Resident τ)}
    (hl : ∀ f ∈ l.handled, Handled sha256Text s path pass.deletedIdentity f)
    (hr : ∀ r, resident = some r → Preserved s path pass.deletedIdentity r.content) :
    Follows sha256Text s (s.diskRound path pass l resident) := by
  unfold State.diskRound
  split
  · exact h.suspend ⟨hl, hr⟩
  · exact h.resolvePreserved hr nofun

theorem Base.round (h : Base sha256Text s)
    (hl : ∀ f ∈ l.handled, Handled sha256Text s path pass.deletedIdentity f) :
    Follows sha256Text s (s.round path pass l) := by
  unfold State.round
  split
  · exact h.suspend hl
  · exact h.diskRound hl nofun

theorem Base.preserveUnacknowledgedVersions (h : Base sha256Text s) :
    Follows sha256Text s (s.preserveUnacknowledgedVersions path pass) := by
  refine h.round fun f hf => ?_
  obtain ⟨guid, hguid, hf⟩ := Option.bind_eq_some_iff.mp (Option.mem_toList.mp hf)
  have hid : pass.deletedIdentity = some guid := (Option.filter_eq_some_iff.mp hguid).1
  obtain ⟨content, hmem, hsha⟩ := (h.records path).acknowledgedFingerprint hf
  exact ⟨content, hsha, .inl ⟨guid, hid, hmem⟩⟩

/-! ### `reconcileRemoteDelete` -/

theorem Base.deleteFile (h : Base sha256Text s) :
    Follows sha256Text s (s.deleteFile path pass) := by
  unfold State.deleteFile
  split
  · exact h.suspend trivial
  · rename_i haborted
    have hdocs := h.removeDocument path
    have hboth := hdocs.trans (hdocs.base.removeStructuredDocument path)
    cases hdisk : s.vault path with
    | none =>
        have hover : Follows sha256Text _ (((s.removeDocument path).removeStructuredDocument
          path).suspend path pass .resolved) := hboth.base.suspend trivial
        exact hboth.trans (hover.trans hover.base.forget)
    | some disk =>
        refine hboth.trans (hboth.base.suspend ?_)
        simp only [State.aborted, Bool.or_eq_true, not_or, Bool.not_eq_true] at haborted
        -- the code looked at the map of the pass's kind just now
        cases hkind : pass.kind with
        | text =>
            rw [hkind] at haborted
            exact haborted.2
        | structured kind =>
            rw [hkind] at haborted
            exact haborted.2

theorem Base.reconcileRemoteDelete (h : Base sha256Text s) {kind : DocKind}
    {deletedIdentity : Option Guid} :
    Follows sha256Text s (s.reconcileRemoteDelete path kind deletedIdentity) := by
  simp only [State.reconcileRemoteDelete]
  split
  · exact h.suspend trivial
  · split
    · split
      · split
        · exact h.suspend trivial
        · exact h.suspend trivial
      · exact h.preserveUnacknowledgedVersions
    · exact h.deleteFile

theorem Base.handleRemoteDelete (h : Base sha256Text s) {kind : DocKind}
    {deletedIdentity : Option Guid} :
    Follows sha256Text s (s.handleRemoteDelete path kind deletedIdentity) := by
  unfold State.handleRemoteDelete
  split
  · exact h.same rfl rfl rfl (fun _ => .inl rfl) rfl rfl
  · split
    · exact h.same rfl rfl rfl (fun _ => .inl rfl) rfl rfl
    · have hclear : Follows sha256Text s
          { s with remoteDeletePending := Function.update s.remoteDeletePending path none } :=
        h.same rfl rfl rfl (fun _ => .inl rfl) rfl rfl
      exact hclear.trans hclear.base.reconcileRemoteDelete

theorem Base.catchError (h : Base sha256Text s) :
    Follows sha256Text s (s.catchError path pass) := by
  have hs : Follows sha256Text s (s.suspend path pass .resolved) := h.suspend trivial
  unfold State.catchError
  split
  · exact hs
  · exact hs.trans (hs.base.same rfl rfl rfl (fun _ => .inl rfl) rfl rfl)

theorem Base.enqueueDoc (h : Base sha256Text s) {guid : Guid} {kind : DocKind} :
    Follows sha256Text s (s.enqueueDoc path guid kind) := by
  unfold State.enqueueDoc
  split
  · exact h.same rfl rfl rfl (fun _ => .inl rfl) rfl rfl
  · exact h.removeOf path kind

theorem Base.rematerializeReintroducedPath (h : Base sha256Text s) (path : Path) :
    Follows sha256Text s (s.rematerializeReintroducedPath path) := by
  unfold State.rematerializeReintroducedPath
  split
  · exact h.removeDocument path
  · split
    · exact h.removeStructuredDocument path
    · exact h.same rfl rfl rfl (fun _ => .inl rfl) rfl rfl

theorem Base.applyRemoteRename (h : Base sha256Text s) {target : Path} {pending : Bool} :
    Follows sha256Text s (s.applyRemoteRename path pass target pending) := by
  unfold State.applyRemoteRename
  split
  · exact h.suspend trivial
  · have hdocs := h.removeDocument path
    have hboth := hdocs.trans (hdocs.base.removeStructuredDocument path)
    cases pending with
    | true =>
        have hthree := hboth.trans (hboth.base.removeOf target pass.kind)
        have hmove := hthree.trans (hthree.base.moveRecord path target pass.kind)
        exact hmove.trans (hmove.base.suspend trivial)
    | false =>
        have hmove := hboth.trans (hboth.base.moveRecord path target pass.kind)
        exact hmove.trans (hmove.base.suspend trivial)

/-- A fingerprint in the set is that of a preserved version, and no other text has it. -/
theorem preserved_of_handled (hsha : Function.Injective sha256Text) {l : Preserving φ}
    {deletedIdentity : Option Guid} {content : τ}
    (hl : ∀ f ∈ l.handled, Handled sha256Text s path deletedIdentity f)
    (hmem : sha256Text content ∈ l.handled) : Preserved s path deletedIdentity content := by
  obtain ⟨c, hc, hpres⟩ := hl _ hmem
  exact hsha hc ▸ hpres

/-! ### The index -/

/-- The mark of a path is set or cleared. -/
theorem Base.setMark (h : Base sha256Text s) {marks : Path → Bool} :
    Follows sha256Text s { s with remoteDeletePreserved := marks } :=
  h.same rfl rfl rfl (fun _ => .inl rfl) rfl rfl

theorem Base.unchanged (h : Base sha256Text s) : Follows sha256Text s s :=
  h.same rfl rfl rfl (fun _ => .inl rfl) rfl rfl

theorem Base.onFilesChanged (h : Base sha256Text s) {before : List (Path × Guid)} :
    Follows sha256Text s (s.onFilesChanged before path) := by
  unfold State.onFilesChanged
  split
  · exact h.unchanged
  · split
    · split
      · exact h.unchanged
      · exact h.setMark.trans h.setMark.base.enqueueDoc
    · split
      · exact h.handleRemoteDelete
      · exact h.unchanged

theorem Base.onStructuredChanged (h : Base sha256Text s)
    {before : List (Path × Option StructuredMeta)} :
    Follows sha256Text s (s.onStructuredChanged before path) := by
  unfold State.onStructuredChanged
  split
  · exact h.unchanged
  · split
    · split
      · split
        · exact h.unchanged
        · exact h.setMark.trans h.setMark.base.enqueueDoc
      · exact h.unchanged
    · split
      · exact h.handleRemoteDelete
      · exact h.handleRemoteDelete
      · exact h.unchanged

/-- The observers run one path after the other. -/
theorem Base.foldl (h : Base sha256Text s) {f : State τ φ → Path → State τ φ}
    (hf : ∀ s path, Base sha256Text s → Follows sha256Text s (f s path)) (paths : List Path) :
    Follows sha256Text s (paths.foldl f s) := by
  induction paths generalizing s with
  | nil => exact h.unchanged
  | cons path paths ih => exact (hf s path h).trans (ih (hf s path h).base)

theorem Base.transact (h : Base sha256Text s) {files : List (Path × Option Guid)}
    {structured : List (Path × Option (Option StructuredMeta))} :
    Follows sha256Text s (s.transact files structured) := by
  have hindex : Follows sha256Text s { s with
      files := files.foldl State.change s.files
      structured := structured.foldl State.change s.structured } :=
    h.same rfl rfl rfl (fun _ => .inl rfl) rfl rfl
  have hfiles := hindex.trans (hindex.base.foldl (f := State.onFilesChanged s.files)
    (fun _ _ h => h.onFilesChanged) (files.map Prod.fst).eraseDups)
  exact hfiles.trans (hfiles.base.foldl (fun _ _ h => h.onStructuredChanged) _)

/-! ### File operations and failures -/

theorem Base.effect (h : Base sha256Text s) (hpass : s.passes path = some pass)
    {destination : Path} (heff : s.effect path pass destination = some s') :
    Follows sha256Text s s' := by
  have hok := h.passes path pass hpass
  obtain ⟨kind, deletedIdentity, point⟩ := pass
  cases point with
  | moving target =>
      simp only [State.effect] at heff
      split at heff
      · cases heff
        have hs : Follows sha256Text s
            (s.suspend path ⟨kind, deletedIdentity, .moving target⟩ (.moved target)) :=
          h.suspend trivial
        exact hs.trans hs.base.setVault
      · cases heff
  | readDisk l resident =>
      obtain ⟨disk, -, rfl⟩ := Option.map_eq_some_iff.mp heff
      exact h.suspend hok
  | copying l pending =>
      simp only [State.effect] at heff
      split at heff
      · cases heff
      · cases heff
        have hcopy := h.copy path pending
        have hl : ∀ f ∈ l.handled, Handled sha256Text
            { s with copies := (path, pending) :: s.copies } path deletedIdentity f := by
          intro f hf
          rcases hok f hf with rfl | hf
          · exact ⟨pending, rfl, .inr List.mem_cons_self⟩
          · exact hf.mono hcopy.grows
        have hs : Follows sha256Text _ (State.suspend { s with
            copies := (path, pending) :: s.copies } path
            ⟨kind, deletedIdentity, .copying l pending⟩ (.copied l destination)) :=
          hcopy.base.suspend hl
        exact hcopy.trans (hs.trans hs.base.setVault)
  | deleting call =>
      cases heff
      have hs : Follows sha256Text s
          (s.suspend path ⟨kind, deletedIdentity, .deleting call⟩ .deleted) := h.suspend trivial
      exact hs.trans hs.base.setVault
  | parentFolder target pending => cases heff
  | moved target => cases heff
  | notRenamed => cases heff
  | hashResident l resident => cases heff
  | diskRead l resident disk => cases heff
  | hashDisk l resident disk => cases heff
  | hashStored l resident disk expected => cases heff
  | hashPending l pending => cases heff
  | copied l destination => cases heff
  | preserved paths => cases heff
  | deleted => cases heff
  | resolved => cases heff

theorem Base.reject (h : Base sha256Text s) (hrej : s.reject path pass = some s') :
    Follows sha256Text s s' := by
  unfold State.reject at hrej
  split at hrej
  · rename_i target _
    cases hrej
    have hmove := h.moveRecord target path pass.kind
    exact hmove.trans hmove.base.catchError
  · split at hrej
    · cases hrej
      exact h.catchError
    · cases hrej

end Follows

section Step

variable [DecidableEq φ] {sha256Text : τ → φ} {s s' : State τ φ} {path : Path} {pass : Pass τ φ}

/-! ### Records -/

theorem Base.record (h : Base sha256Text s) {op : State.RecordOp τ} :
    Follows sha256Text s (s.record sha256Text path op) := by
  have hrec := h.records path
  cases op with
  | mark kind => exact h.setRecord (LocalPathState.soundAt_some.mpr hrec.mark)
  | beginCandidate kind identity candidate =>
      exact h.setRecord (LocalPathState.soundAt_some.mpr hrec.beginCandidate)
  | migrateLegacyIdentity kind identity => exact h.setRecord hrec.migrateLegacyIdentity
  | commit kind identity => exact h.setRecord (LocalPathState.soundAt_some.mpr hrec.commit)
  | markSynced kind identity content reconciled =>
      have hack := h.acknowledge identity content
      refine hack.trans (hack.base.setRecord (LocalPathState.soundAt_some.mpr ?_))
      exact (hack.base.records path).markSynced ⟨content, List.mem_cons_self, rfl⟩
  | markPublished kind identity content replaced =>
      have hack := h.acknowledge identity content
      refine hack.trans (hack.base.setRecord (LocalPathState.soundAt_some.mpr ?_))
      exact (hack.base.records path).markPublished ⟨content, List.mem_cons_self, rfl⟩
  | markDisk kind identity epoch content =>
      have hstore := h.store identity epoch content
      refine hstore.trans (hstore.base.setRecord ?_)
      exact (hstore.base.records path).markDisk ⟨content, List.mem_cons_self, rfl⟩
  | remove => exact h.setRecord LocalPathState.soundAt_none
  | move target kind => exact h.moveRecord path target kind
  | clear => exact h.same rfl rfl rfl (fun _ => .inr rfl) rfl rfl

/-! ### Awaits -/

theorem Base.resume (hsha : Function.Injective sha256Text) (h : Base sha256Text s)
    (hpass : s.passes path = some pass) (hres : s.resume sha256Text path pass = some s') :
    Follows sha256Text s s' := by
  have hok := h.passes path pass hpass
  obtain ⟨kind, deletedIdentity, point⟩ := pass
  cases point with
  | parentFolder target pending =>
      cases hres
      exact h.applyRemoteRename
  | moving target => cases hres
  | moved target =>
      have hs : Follows sha256Text s
          (s.suspend path ⟨kind, deletedIdentity, .moved target⟩ .resolved) := h.suspend trivial
      cases hres
      split
      · exact hs.trans hs.base.enqueueDoc
      · exact hs
  | notRenamed =>
      simp only [State.resume] at hres
      split at hres
      · cases hres
        exact h.deleteFile
      · cases hres
        exact h.preserveUnacknowledgedVersions
  | hashResident l resident =>
      simp only [State.resume] at hres
      split at hres
      · cases hres
        exact h.suspend trivial
      · split at hres
        · rename_i hmem
          cases hres
          refine h.diskRound hok fun r hr => ?_
          obtain rfl := Option.some.inj hr
          exact preserved_of_handled hsha hok hmem
        · cases hres
          exact h.suspend hok
  | readDisk l resident => cases hres
  | diskRead l resident disk =>
      simp only [State.resume] at hres
      split at hres
      · cases hres
        exact h.suspend trivial
      · cases hres
        exact h.suspend hok
  | hashDisk l resident disk =>
      simp only [State.resume] at hres
      split at hres
      · cases hres
        exact h.suspend trivial
      · split at hres
        · rename_i hmem
          cases hres
          refine h.resolvePreserved hok.2 fun d hd => .inl ?_
          obtain rfl := Option.some.inj hd
          exact preserved_of_handled hsha hok.1 hmem
        · split at hres
          · rename_i r
            split at hres
            · rename_i hguid
              cases hres
              exact h.suspend ⟨hok.1, hok.2 r rfl, hguid.symm, fun f hf =>
                (h.records path).diskFingerprintFor hf⟩
            · cases hres
              exact h.suspend hok.1
          · cases hres
            exact h.suspend hok.1
  | hashStored l resident disk expected =>
      obtain ⟨hl, hr, hguid, hstored⟩ := hok
      simp only [State.resume] at hres
      split at hres
      · cases hres
        exact h.suspend trivial
      · split at hres
        · rename_i hlag
          cases hres
          refine h.resolvePreserved (fun r heq => Option.some.inj heq ▸ hr) fun d hd => .inr ?_
          obtain rfl := Option.some.inj hd
          -- the recorded fingerprint is that of content the store held
          obtain ⟨content, hmem, hcontent⟩ := hstored _ hlag
          exact ⟨resident, hguid, hsha hcontent ▸ hmem, hr⟩
        · cases hres
          exact h.suspend hl
  | hashPending l pending =>
      cases hres
      refine h.suspend fun f hf => ?_
      rcases List.mem_cons.mp hf with rfl | hf
      · exact .inl rfl
      · exact .inr (hok f hf)
  | copying l pending => cases hres
  | copied l destination =>
      simp only [State.resume] at hres
      split at hres
      · cases hres
        exact h.suspend trivial
      · cases hres
        exact h.round hok
  | preserved paths =>
      cases paths with
      | none =>
          cases hres
          exact h.suspend trivial
      | some paths =>
          simp only [State.resume] at hres
          cases hres
          split
          · exact h.deleteFile
          · exact h.setMark.trans h.setMark.base.deleteFile
  | deleting call => cases hres
  | deleted =>
      have hs : Follows sha256Text s
          (s.suspend path ⟨kind, deletedIdentity, .deleted⟩ .resolved) := h.suspend trivial
      simp only [State.resume] at hres
      split at hres
      · cases hres
        exact hs
      · split at hres
        · cases hres
          have hre := h.rematerializeReintroducedPath path
          exact hre.trans (hre.base.suspend trivial)
        · cases hres
          exact hs.trans hs.base.forget
  | resolved =>
      simp only [State.resume] at hres
      split at hres
      · cases hres
        have hclear : Follows sha256Text s
            { s with remoteDeletePending := Function.update s.remoteDeletePending path none } :=
          h.same rfl rfl rfl (fun _ => .inl rfl) rfl rfl
        exact hclear.trans hclear.base.reconcileRemoteDelete
      · cases hres
        have hg : Grows s { s with passes := Function.update s.passes path none } :=
          .of_eq rfl rfl rfl
        refine ⟨hg, h.update hg (fun _ => .inl rfl) (fun q p hq => .inl ?_)
          (fun _ _ hq => .inl hq)⟩
        have hq : Function.update s.passes path none q = some p := hq
        rw [Function.update_apply] at hq
        split at hq
        · cases hq
        · exact hq

theorem Base.step (hsha : Function.Injective sha256Text) (h : Base sha256Text s) {e : Event τ}
    (hstep : step sha256Text s e = some s') : Follows sha256Text s s' := by
  cases e with
  | edit path content =>
      cases hstep
      exact h.setVault
  | document path resident =>
      cases hstep
      exact h.same rfl rfl rfl (fun _ => .inl rfl) rfl rfl
  | structuredDocument path resident =>
      cases hstep
      exact h.same rfl rfl rfl (fun _ => .inl rfl) rfl rfl
  | transact files structured =>
      cases hstep
      exact h.transact
  | record path op =>
      cases hstep
      exact h.record
  | prepare =>
      cases hstep
      exact h.same rfl rfl rfl (fun _ => .inl rfl) rfl rfl
  | removed path removed =>
      cases hstep
      exact h.same rfl rfl rfl (fun _ => .inl rfl) rfl rfl
  | startup path kind deletedIdentity =>
      cases hstep
      exact h.handleRemoteDelete
  | retry index =>
      simp only [RemoteDelete.step] at hstep
      split at hstep
      · cases hstep
        have htimer : Follows sha256Text s { s with retries := s.retries.eraseIdx index } :=
          h.same rfl rfl rfl (fun _ => .inl rfl) rfl rfl
        exact htimer.trans htimer.base.handleRemoteDelete
      · cases hstep
  | resume path =>
      obtain ⟨pass, hpass, hres⟩ := Option.bind_eq_some_iff.mp hstep
      exact h.resume hsha hpass hres
  | effect path destination =>
      obtain ⟨pass, hpass, heff⟩ := Option.bind_eq_some_iff.mp hstep
      exact h.effect hpass heff
  | reject path =>
      obtain ⟨pass, -, hrej⟩ := Option.bind_eq_some_iff.mp hstep
      exact h.reject hrej
  | destroy =>
      cases hstep
      exact h.same rfl rfl rfl (fun _ => .inl rfl) rfl rfl

end Step

/-! ## Runs -/

/-- `VaultSync` starts over a vault and an index of any kind. -/
structure Fresh (sha256Text : τ → φ) (s : State τ φ) : Prop where
  passes : ∀ path, s.passes path = none
  pending : ∀ path, s.remoteDeletePending path = none
  preserved : ∀ path, s.remoteDeletePreserved path = false
  retries : s.retries = []
  copies : s.copies = []
  seen : ∀ path, s.seen path = none
  records : ∀ path,
    LocalPathState.SoundAt (Acked sha256Text s) (Stored sha256Text s) (s.localSyncState path)

theorem Fresh.base {sha256Text : τ → φ} {s : State τ φ} (h : Fresh sha256Text s) :
    Base sha256Text s :=
  ⟨h.records, fun path _ hpass => absurd ((h.passes path).symm.trans hpass) nofun,
    fun path _ hseen => absurd ((h.seen path).symm.trans hseen) nofun⟩

/-- A call that finds the path untouched is harmless. -/
theorem Base.harmless {sha256Text : τ → φ} {s : State τ φ} (h : Base sha256Text s) {path : Path}
    {pass : Pass τ φ} {call : Call τ} (hpass : s.passes path = some pass)
    (hcall : pass.point = .deleting call) (hun : Untouched s path pass call) :
    Harmless s path pass.deletedIdentity call := by
  obtain ⟨⟨seen, hseen, hid, hdisk, hres⟩, hfiles, hstructured⟩ := hun
  have hok := h.seen path seen hseen
  have hpoint := h.passes path pass hpass
  unfold PassOk at hpoint
  rw [hcall] at hpoint
  rw [← hid]
  refine ⟨fun r hr => hok.resident r (hres r hr), hok.disk _ hdisk, ?_, ?_⟩
  · cases hkind : pass.kind with
    | text =>
        rw [hkind] at hpoint
        exact hpoint
    | structured kind => exact hfiles (by simp [hkind])
  · cases hkind : pass.kind with
    | text => exact hstructured hkind
    | structured kind =>
        rw [hkind] at hpoint
        exact hpoint

/-- Every call of `vault.delete` in a run whose calls find their paths untouched. -/
theorem remote_delete_harmless [DecidableEq φ] {sha256Text : τ → φ}
    (hsha : Function.Injective sha256Text) {s : State τ φ}
    (h : Reach (Fresh sha256Text) (Where (cond sha256Text) (Takes (step sha256Text))) s)
    {path : Path} {pass : Pass τ φ} {call : Call τ} (hpass : s.passes path = some pass)
    (hcall : pass.point = .deleting call) : Harmless s path pass.deletedIdentity call := by
  have hinit : ∀ s : State τ φ, Fresh sha256Text s → Base sha256Text s ∧
      ∀ path pass call, s.passes path = some pass → pass.point = .deleting call →
        Harmless s path pass.deletedIdentity call :=
    fun s hs => ⟨hs.base, fun path _ _ hpass _ =>
      absurd ((hs.passes path).symm.trans hpass) nofun⟩
  have hstep : ∀ (s : State τ φ) (e : Event τ) (s' : State τ φ), (Base sha256Text s ∧
      ∀ path pass call, s.passes path = some pass → pass.point = .deleting call →
        Harmless s path pass.deletedIdentity call) →
      Where (cond sha256Text) (Takes (step sha256Text)) s e s' → Base sha256Text s' ∧
      ∀ path pass call, s'.passes path = some pass → pass.point = .deleting call →
        Harmless s' path pass.deletedIdentity call := by
    rintro s e s' ⟨hbase, hold⟩ ⟨hcond, htakes⟩
    have hfollows := hbase.step hsha htakes
    refine ⟨hfollows.base, fun path pass call hpass hcall => ?_⟩
    by_cases hsame : s.passes path = some pass
    · exact (hold path pass call hsame hcall).mono hfollows.grows
    · -- the call is one of this step
      exact hfollows.base.harmless hpass hcall (hcond s' htakes path pass call hpass hsame hcall)
  exact (h.invariant hinit hstep).2 path pass call hpass hcall

/-! ## Two deletes of a note the server has -/

/-- A note that is in sync, in an index that has it. -/
def synced : State String String where
  files := [("note.md", "guid")]
  structured := []
  vault := Function.update (fun _ => none) "note.md" (some "old")
  documents := Function.update (fun _ => none) "note.md" (some ⟨"guid", 0, "old", true⟩)
  structuredDocuments := fun _ => none
  localSyncState := Function.update (fun _ => none) "note.md"
    (some { kind := .doc .text, identity := some (some "guid"), fingerprint := some "old" })
  bootstrapPrepared := true
  removed := fun _ => false
  destroyed := false
  passes := fun _ => none
  remoteDeletePending := fun _ => none
  remoteDeletePreserved := fun _ => false
  retries := []
  acked := [("guid", "old")]
  stored := []
  copies := []
  seen := fun _ => none

theorem fresh_synced : Fresh (id : String → String) synced where
  passes := fun _ => rfl
  pending := fun _ => rfl
  preserved := fun _ => rfl
  retries := rfl
  copies := rfl
  seen := fun _ => rfl
  records := by
    intro path
    show LocalPathState.SoundAt _ _ (Function.update (fun _ => none) "note.md" _ path)
    rw [Function.update_apply]
    split
    · refine LocalPathState.soundAt_some.mpr ⟨nofun, fun i f hi _ hf => ?_, nofun⟩
      cases hi
      cases hf
      exact ⟨"old", List.mem_singleton.mpr rfl, rfl⟩
    · exact LocalPathState.soundAt_none

/-- Another device deletes the note, and the pass runs up to the file on disk. -/
def deleteNote : List (Event String) :=
  [.transact [("note.md", none)] [], .resume "note.md", .resume "note.md"]

/-- The rest of the pass. -/
def deleteRead : List (Event String) :=
  [.effect "note.md" "", .resume "note.md", .resume "note.md", .resume "note.md"]

/-- The user types while the file is read. -/
def typed : Event String := .document "note.md" (some ⟨"guid", 0, "new", true⟩)

/-- A step that leaves one pass at a place that is no call, or at a call of an untouched path. -/
theorem cond_of_passes [DecidableEq φ] {sha256Text : τ → φ} {s s' : State τ φ} {e : Event τ}
    {path : Path} {pass : Pass τ φ} (hstep : step sha256Text s e = some s')
    (hp : s'.passes = Function.update s.passes path (some pass))
    (h : ∀ call, pass.point = .deleting call → Untouched s' path pass call) :
    cond sha256Text s e := by
  intro t ht q pass' call hq hne hcall
  rw [hstep] at ht
  cases ht
  rw [hp, Function.update_apply] at hq
  split at hq
  · rename_i heq
    subst heq
    cases hq
    exact h call hcall
  · exact absurd hq hne

theorem remote_delete_harmless_synced : ∃ (s : State String String) (pass : Pass String String)
    (call : Call String), s.passes "note.md" = some pass ∧ pass.point = .deleting call ∧
      Harmless s "note.md" pass.deletedIdentity call := by
  have hreach : ∀ s', (deleteNote ++ deleteRead).foldlM (step id) synced = some s' →
      Reach (Fresh id) (Where (cond id) (Takes (step (id : String → String)))) s' := by
    intro s' hrun
    refine (Reach.start fresh_synced).run_where hrun ?_
    refine .cons (cond_of_passes rfl rfl nofun) rfl ?_
    refine .cons (cond_of_passes rfl rfl nofun) rfl ?_
    refine .cons (cond_of_passes rfl rfl nofun) rfl ?_
    refine .cons (cond_of_passes rfl rfl nofun) rfl ?_
    refine .cons (cond_of_passes rfl rfl nofun) rfl ?_
    refine .cons (cond_of_passes rfl rfl nofun) rfl ?_
    refine .cons (cond_of_passes rfl rfl fun call hcall => ?_) rfl trivial
    cases hcall
    refine ⟨⟨_, rfl, rfl, rfl, fun r hr => ?_⟩, fun _ => rfl, fun _ => rfl⟩
    obtain rfl := List.mem_singleton.mp hr
    rfl
  have hpass : ∃ s' pass call, (deleteNote ++ deleteRead).foldlM (step id) synced = some s' ∧
      s'.passes "note.md" = some pass ∧ pass.point = .deleting call :=
    ⟨_, _, _, rfl, rfl, rfl⟩
  obtain ⟨s', pass, call, hrun, hpass, hcall⟩ := hpass
  exact ⟨s', pass, call, hpass, hcall,
    remote_delete_harmless Function.injective_id (hreach s' hrun) hpass hcall⟩

/-- What was typed is neither acknowledged nor in a conflict copy when the file is deleted. -/
theorem not_remote_delete_harmless : ¬ ∀ s : State String String,
    Reach (Fresh id) (Takes (step id)) s → ∀ path pass call, s.passes path = some pass →
      pass.point = .deleting call → Harmless s path pass.deletedIdentity call := by
  intro h
  have hrun : ∃ s' pass call, (deleteNote ++ typed :: deleteRead).foldlM (step id) synced =
      some s' ∧ s'.passes "note.md" = some pass ∧ pass.point = .deleting call ∧
      s'.acked = [("guid", "old")] ∧ s'.copies = [] ∧
      call.residents.map (·.content) = ["new"] := ⟨_, _, _, rfl, rfl, rfl, rfl, rfl, rfl⟩
  obtain ⟨s', pass, call, hrun, hpass, hcall, hacked, hcopies, hres⟩ := hrun
  have hharmless := h s' ((Reach.start fresh_synced).run hrun) "note.md" pass call hpass hcall
  obtain ⟨r, hr, hcontent⟩ := List.mem_map.mp (hres ▸ List.mem_singleton.mpr rfl)
  have hpres := hharmless.residents r hr
  rw [hcontent] at hpres
  rcases hpres with ⟨guid, -, hmem⟩ | hmem
  · rw [hacked, List.mem_singleton, Prod.mk.injEq] at hmem
    exact absurd hmem.2 (by decide)
  · rw [hcopies] at hmem
    exact absurd hmem List.not_mem_nil

end Realtime.Vault.RemoteDelete
