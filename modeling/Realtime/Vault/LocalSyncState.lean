import Mathlib.Tactic

/-!
# What a device remembers of a path

`LocalSyncState` of `src/localSyncState.ts`: for each path the server identity the
local file was last reconciled with and the fingerprints of content known to be safe.
A record may keep the fingerprint of an earlier identity, but only as a candidate, so
what `acknowledgedFingerprint` and `diskFingerprint` return is about the identity
asked for (`LocalPathState.Sound`).
-/

namespace Realtime.Vault

inductive StructuredKind where
  | canvas
  | base
  deriving DecidableEq

/-- `"text" | StructuredKind` -/
inductive DocKind where
  | text
  | structured (kind : StructuredKind)
  deriving DecidableEq

inductive MaterializedKind where
  | doc (kind : DocKind)
  | binary
  | config
  deriving DecidableEq

variable {ι φ : Type}

/-- An omitted field is `none`; for a field that may be `null`, `some none` is `null`. -/
structure LocalPathState (ι φ : Type) where
  kind : MaterializedKind
  identity : Option (Option ι) := none
  fingerprint : Option φ := none
  candidate : Bool := false
  candidateFingerprint : Option φ := none
  diskFingerprint : Option (Nat × φ) := none
  replacedIdentity : Option (Option ι) := none
  publishedFrom : Option (Option ι) := none
  deriving DecidableEq

namespace LocalPathState

section Operations

variable [DecidableEq ι] [DecidableEq φ]

/-- The operations take the record of the path, if it has one, to the new one. -/
def carriedDiskFingerprint (current : Option (LocalPathState ι φ)) (identity : Option ι) :
    Option (Nat × φ) :=
  match current with
  | some c => if c.identity = some identity then c.diskFingerprint else none
  | none => none

def carriedPublishedFrom (current : Option (LocalPathState ι φ)) (identity : Option ι) :
    Option (Option ι) :=
  match current with
  | some c => if c.identity = some identity then c.publishedFrom else none
  | none => none

def mark (kind : MaterializedKind) : Option (LocalPathState ι φ) → LocalPathState ι φ
  | some c => { c with kind := kind }
  | none => { kind := kind }

/-- `beginCandidate`: the content is to be looked at again; a state that says so already stays. -/
def beginCandidate (kind : MaterializedKind) (identity : Option ι)
    (candidateFingerprint : Option φ) (current : Option (LocalPathState ι φ)) :
    LocalPathState ι φ :=
  let pendingFingerprint := candidateFingerprint.or (current.bind (·.candidateFingerprint))
  let next : LocalPathState ι φ :=
    { kind := kind
      identity := some identity
      fingerprint := current.bind (·.fingerprint)
      candidate := true
      candidateFingerprint := pendingFingerprint
      diskFingerprint := carriedDiskFingerprint current identity }
  match current with
  | some c =>
      if c.kind = kind ∧ c.identity = some identity ∧ c.candidate = true ∧
          c.candidateFingerprint = pendingFingerprint then c
      else next
  | none => next

def migrateLegacyIdentity (kind : MaterializedKind) (identity : ι) :
    Option (LocalPathState ι φ) → Option (LocalPathState ι φ)
  | some c =>
      if c.identity.isSome then some c
      else some { c with kind := kind, identity := some (some identity), candidate := false }
  | none => none

/-- `commit`: a fingerprint of another identity is not kept. -/
def commit (kind : MaterializedKind) (identity : ι) (current : Option (LocalPathState ι φ)) :
    LocalPathState ι φ where
  kind := kind
  identity := some (some identity)
  fingerprint := current.bind fun c =>
    if c.identity = some (some identity) then c.fingerprint else none
  candidate := (current.map (·.candidate)).getD false
  candidateFingerprint := current.bind (·.candidateFingerprint)
  diskFingerprint := carriedDiskFingerprint current (some identity)

/-- `markSynced`: a candidate ends with a reconciliation or where its content is the synced one. -/
def markSynced (kind : MaterializedKind) (identity : ι) (fingerprint : φ) (reconciled : Bool)
    (current : Option (LocalPathState ι φ)) : LocalPathState ι φ :=
  let candidate := (current.map (·.candidate)).getD false && !reconciled &&
    decide (current.bind (·.candidateFingerprint) ≠ some fingerprint)
  { kind := kind
    identity := some (some identity)
    fingerprint := some fingerprint
    candidate := candidate
    candidateFingerprint := if candidate then current.bind (·.candidateFingerprint) else none
    diskFingerprint := carriedDiskFingerprint current (some identity)
    publishedFrom := carriedPublishedFrom current (some identity) }

/-- For a blob the identity is the fingerprint. -/
def markPublished (kind : MaterializedKind) (identity : ι) (fingerprint : φ)
    (replacedIdentity : Option ι) (current : Option (LocalPathState ι φ)) :
    LocalPathState ι φ where
  kind := kind
  identity := some (some identity)
  fingerprint := some fingerprint
  replacedIdentity := some replacedIdentity
  publishedFrom := some replacedIdentity
  diskFingerprint := carriedDiskFingerprint current (some identity)

def markDisk (kind : MaterializedKind) (identity : ι) (diskFingerprint : Nat × φ) :
    Option (LocalPathState ι φ) → Option (LocalPathState ι φ)
  | some c =>
      if c.identity ≠ some (some identity) ∨ c.diskFingerprint = some diskFingerprint then some c
      else some { c with kind := kind, diskFingerprint := some diskFingerprint }
  | none => none

/-- The record at the target of a move. -/
def moved (kind : MaterializedKind) : Option (LocalPathState ι φ) → LocalPathState ι φ
  | some c => { c with kind := kind }
  | none => { kind := kind, identity := some none, candidate := true }

/-- `LocalSyncState.diskFingerprint` -/
def diskFingerprintFor (identity : ι) (current : Option (LocalPathState ι φ)) :
    Option (Nat × φ) :=
  current.bind fun c => if c.identity = some (some identity) then c.diskFingerprint else none

def candidateIdentity (kind : MaterializedKind) (current : Option (LocalPathState ι φ)) :
    Option ι :=
  current.bind fun c => if c.kind = kind ∧ c.candidate = true then c.identity.join else none

def acknowledgedFingerprint (identity : ι) (current : Option (LocalPathState ι φ)) : Option φ :=
  current.bind fun c =>
    if c.identity ≠ some (some identity) ∨ c.candidate = true then none else c.fingerprint

end Operations

/-- `acked` holds of the fingerprints the server acknowledged for an identity, `stored` of
those its document's local store contained. -/
structure Sound (acked : ι → φ → Prop) (stored : ι → Nat × φ → Prop)
    (c : LocalPathState ι φ) : Prop where
  legacy : c.identity = none → c.fingerprint = none ∧ c.diskFingerprint = none
  acked : ∀ i f, c.identity = some (some i) → c.candidate = false → c.fingerprint = some f →
    acked i f
  stored : ∀ i f, c.identity = some (some i) → c.diskFingerprint = some f → stored i f

/-- A missing record is sound. -/
def SoundAt (acked : ι → φ → Prop) (stored : ι → Nat × φ → Prop)
    (current : Option (LocalPathState ι φ)) : Prop :=
  ∀ c, current = some c → c.Sound acked stored

section Sound

variable {acked acked' : ι → φ → Prop} {stored stored' : ι → Nat × φ → Prop}
  {c : LocalPathState ι φ} {current : Option (LocalPathState ι φ)} {kind : MaterializedKind}

theorem Sound.mono (h : c.Sound acked stored) (ha : ∀ i f, acked i f → acked' i f)
    (hs : ∀ i f, stored i f → stored' i f) : c.Sound acked' stored' :=
  ⟨h.legacy, fun i f hi hc hf => ha i f (h.acked i f hi hc hf),
    fun i f hi hf => hs i f (h.stored i f hi hf)⟩

theorem SoundAt.mono (h : SoundAt acked stored current) (ha : ∀ i f, acked i f → acked' i f)
    (hs : ∀ i f, stored i f → stored' i f) : SoundAt acked' stored' current :=
  fun c hc => (h c hc).mono ha hs

theorem soundAt_none : SoundAt acked stored none := nofun

theorem soundAt_some : SoundAt acked stored (some c) ↔ c.Sound acked stored :=
  ⟨fun h => h c rfl, fun h _ hc => Option.some.inj hc ▸ h⟩

theorem SoundAt.mark (h : SoundAt acked stored current) :
    (mark kind current).Sound acked stored := by
  cases current with
  | none => exact ⟨fun _ => ⟨rfl, rfl⟩, nofun, nofun⟩
  | some c =>
      have hc := h c rfl
      exact ⟨hc.legacy, hc.acked, hc.stored⟩

theorem SoundAt.moved (h : SoundAt acked stored current) :
    (moved kind current).Sound acked stored := by
  cases current with
  | none => exact ⟨nofun, nofun, nofun⟩
  | some c =>
      have hc := h c rfl
      exact ⟨hc.legacy, hc.acked, hc.stored⟩

theorem SoundAt.migrateLegacyIdentity (h : SoundAt acked stored current) {identity : ι} :
    SoundAt acked stored (migrateLegacyIdentity kind identity current) := by
  cases current with
  | none => exact soundAt_none
  | some c =>
      have hc := h c rfl
      simp only [LocalPathState.migrateLegacyIdentity]
      split
      · exact h
      · rename_i hid
        -- legacy state has no fingerprint that could pass for one of the new identity
        obtain ⟨hf, hd⟩ := hc.legacy (by simpa using hid)
        refine soundAt_some.mpr ⟨nofun, fun i f _ _ hf' => ?_, fun i f _ hd' => ?_⟩
        · exact absurd (hf.symm.trans hf') nofun
        · exact absurd (hd.symm.trans hd') nofun

variable [DecidableEq ι]

/-- A carried fingerprint is one of the same identity. -/
theorem SoundAt.carried (h : SoundAt acked stored current) {identity : Option ι} {i : ι}
    {f : Nat × φ} (hi : some identity = some (some i))
    (hf : carriedDiskFingerprint current identity = some f) : stored i f := by
  cases current with
  | none => cases hf
  | some c =>
      simp only [carriedDiskFingerprint] at hf
      split at hf
      · rename_i hid
        exact (h c rfl).stored i f (hid.trans hi) hf
      · cases hf

theorem SoundAt.markPublished (h : SoundAt acked stored current) {identity : ι} {fingerprint : φ}
    {replaced : Option ι} (hack : acked identity fingerprint) :
    (markPublished kind identity fingerprint replaced current).Sound acked stored := by
  refine ⟨nofun, fun i f hi _ hf => ?_, fun i f hi hf => h.carried hi hf⟩
  obtain rfl : identity = i := by simpa [LocalPathState.markPublished] using hi
  obtain rfl : fingerprint = f := by simpa [LocalPathState.markPublished] using hf
  exact hack

theorem SoundAt.commit (h : SoundAt acked stored current) {identity : ι} :
    (commit kind identity current).Sound acked stored := by
  refine ⟨nofun, fun i f hi hcand hf => ?_, fun i f hi hf => h.carried hi hf⟩
  cases current with
  | none => cases hf
  | some c =>
      simp only [LocalPathState.commit, Option.bind_some] at hf
      split at hf
      · rename_i hid
        exact (h c rfl).acked i f (hid.trans hi) hcand hf
      · cases hf

theorem SoundAt.acknowledgedFingerprint (h : SoundAt acked stored current) {identity : ι} {f : φ}
    (hf : acknowledgedFingerprint identity current = some f) : acked identity f := by
  cases current with
  | none => cases hf
  | some c =>
      simp only [LocalPathState.acknowledgedFingerprint, Option.bind_some] at hf
      split at hf
      · cases hf
      · rename_i hid
        simp only [not_or, Decidable.not_not, Bool.not_eq_true] at hid
        exact (h c rfl).acked identity f hid.1 hid.2 hf

theorem SoundAt.diskFingerprintFor (h : SoundAt acked stored current) {identity : ι}
    {f : Nat × φ} (hf : diskFingerprintFor identity current = some f) : stored identity f := by
  cases current with
  | none => cases hf
  | some c =>
      simp only [LocalPathState.diskFingerprintFor, Option.bind_some] at hf
      split at hf
      · rename_i hid
        exact (h c rfl).stored identity f hid hf
      · cases hf

variable [DecidableEq φ]

theorem SoundAt.beginCandidate (h : SoundAt acked stored current) {identity : Option ι}
    {candidateFingerprint : Option φ} :
    (beginCandidate kind identity candidateFingerprint current).Sound acked stored := by
  have hnext : ∀ pending fingerprint,
      ({ kind := kind
         identity := some identity
         fingerprint := fingerprint
         candidate := true
         candidateFingerprint := pending
         diskFingerprint := carriedDiskFingerprint current identity } :
        LocalPathState ι φ).Sound acked stored :=
    fun _ _ => ⟨nofun, nofun, fun i f hi hf => h.carried hi hf⟩
  cases current with
  | none => exact hnext _ _
  | some c =>
      simp only [LocalPathState.beginCandidate]
      split
      · exact h c rfl
      · exact hnext _ _

theorem SoundAt.markSynced (h : SoundAt acked stored current) {identity : ι} {fingerprint : φ}
    {reconciled : Bool} (hack : acked identity fingerprint) :
    (markSynced kind identity fingerprint reconciled current).Sound acked stored := by
  refine ⟨nofun, fun i f hi _ hf => ?_, fun i f hi hf => h.carried hi hf⟩
  obtain rfl : identity = i := by simpa [LocalPathState.markSynced] using hi
  obtain rfl : fingerprint = f := by simpa [LocalPathState.markSynced] using hf
  exact hack

theorem SoundAt.markDisk (h : SoundAt acked stored current) {identity : ι} {f : Nat × φ}
    (hstored : stored identity f) : SoundAt acked stored (markDisk kind identity f current) := by
  cases current with
  | none => exact soundAt_none
  | some c =>
      have hc := h c rfl
      simp only [LocalPathState.markDisk]
      split
      · exact h
      · rename_i hid
        rw [not_or, Decidable.not_not] at hid
        refine soundAt_some.mpr ⟨fun hnone => ?_, hc.acked, fun i f' hi hf => ?_⟩
        · exact absurd (hid.1.symm.trans hnone) nofun
        · obtain rfl : identity = i := by simpa using hid.1.symm.trans hi
          exact Option.some.inj hf ▸ hstored

end Sound

end LocalPathState

end Realtime.Vault
