import Mathlib

/-!
# The epoch manifest

`EpochManifest` and its operations (`server/src/crdt_epoch.rs`). A manifest
names the current physical document, at most one pending successor, and the
retired epochs that still have a directory on disk.

SHA-256 is a parameter: `digest` is the hexadecimal digest of a document id.
Directories and the failures of the file system are inputs of the operations
that touch them.
-/

namespace Realtime.Epoch

/-- `u64::saturating_add`. -/
def saturatingAdd (a b : UInt64) : UInt64 :=
  if a.toNat + b.toNat < 2 ^ 64 then a + b else UInt64.ofNat (2 ^ 64 - 1)

/-- `u64::checked_add`. -/
def checkedAdd (a b : UInt64) : Option UInt64 :=
  if a.toNat + b.toNat < 2 ^ 64 then some (a + b) else none

theorem toNat_add_of_lt {a b : UInt64} (h : a.toNat + b.toNat < 2 ^ 64) :
    (a + b).toNat = a.toNat + b.toNat := by
  rw [UInt64.toNat_add, Nat.mod_eq_of_lt h]

theorem le_saturatingAdd (a b : UInt64) : a ≤ saturatingAdd a b := by
  rw [UInt64.le_iff_toNat_le, saturatingAdd]
  split
  · rename_i h
    rw [toNat_add_of_lt h]
    omega
  · have := a.toNat_lt
    rw [UInt64.toNat_ofNat_of_lt' (by decide)]
    omega

theorem toNat_checkedAdd_one {a b : UInt64} (h : checkedAdd a 1 = some b) :
    b.toNat = a.toNat + 1 := by
  unfold checkedAdd at h
  split at h
  · rename_i hlt
    rw [← Option.some.inj h, toNat_add_of_lt hlt]
    rfl
  · cases h

theorem saturatingAdd_one {a b : UInt64} (h : b.toNat = a.toNat + 1) : saturatingAdd a 1 = b := by
  have hlt : a.toNat + (1 : UInt64).toNat < 2 ^ 64 := by
    have := b.toNat_lt
    rw [show (1 : UInt64).toNat = 1 from rfl]
    omega
  apply UInt64.toNat_inj.mp
  rw [saturatingAdd, if_pos hlt, toNat_add_of_lt hlt, h]
  rfl

/-! ## Data -/

structure EpochRecord where
  epoch : UInt64
  physicalDocumentId : String
  startedAtMs : UInt64
  baselineEncodedStateBytes : UInt64
  baselineDeleteSetBytes : UInt64
  deriving DecidableEq

structure PendingEpoch where
  epoch : UInt64
  physicalDocumentId : String
  proposedAtMs : UInt64
  deriving DecidableEq

structure RetiredEpoch where
  epoch : UInt64
  physicalDocumentId : String
  retiredAtMs : UInt64
  deleteAfterMs : UInt64
  deriving DecidableEq

structure EpochManifest where
  format : String
  version : Nat
  logicalDocumentId : String
  current : EpochRecord
  pending : Option PendingEpoch
  retired : List RetiredEpoch
  deriving DecidableEq

inductive EpochError where
  | io
  | invalidManifest (reason : String)
  | epochOverflow
  | noPendingEpoch
  | unsupportedRoot (name : String)
  deriving DecidableEq

def format : String := "realtime-crdt-epochs"

def formatVersion : Nat := 1

section

variable (digest : String → String)

/-- `epoch-{digest}-{epoch}`. -/
def physicalDocumentId (logicalDocumentId : String) (epoch : UInt64) : String :=
  "epoch-" ++ digest logicalDocumentId ++ "-" ++ toString epoch

theorem physicalDocumentId_injective {digest : String → String} {l : String} {a b : UInt64}
    (h : physicalDocumentId digest l a = physicalDocumentId digest l b) : a = b := by
  have hrepr : a.toNat.repr = b.toNat.repr := by
    have := congrArg String.toList h
    simp only [physicalDocumentId, String.toList_append, List.append_cancel_left_eq] at this
    exact String.toList_inj.mp this
  exact UInt64.toNat_inj.mp (Nat.repr_inj.mp hrepr)

/-! ## Operations -/

namespace EpochManifest

def initial (logicalDocumentId : String) (nowMs : UInt64) : EpochManifest where
  format := Epoch.format
  version := formatVersion
  logicalDocumentId := logicalDocumentId
  current := ⟨0, logicalDocumentId, nowMs, 0, 0⟩
  pending := none
  retired := []

/-- `begin`: the manifest after the call, and the pending epoch it returns. -/
def begin (m : EpochManifest) (nowMs : UInt64) : Except EpochError (EpochManifest × PendingEpoch) :=
  match m.pending with
  | some pending => .ok (m, pending)
  | none =>
      match checkedAdd m.current.epoch 1 with
      | none => .error .epochOverflow
      | some epoch =>
          let pending : PendingEpoch :=
            ⟨epoch, physicalDocumentId digest m.logicalDocumentId epoch, nowMs⟩
          .ok ({ m with pending := some pending }, pending)

def activate (m : EpochManifest) (nowMs recoveryWindowMs baselineEncodedStateBytes
    baselineDeleteSetBytes : UInt64) : Except EpochError EpochManifest :=
  match m.pending with
  | none => .error .noPendingEpoch
  | some pending =>
      .ok { m with
        pending := none
        retired := m.retired ++ [⟨m.current.epoch, m.current.physicalDocumentId, nowMs,
          saturatingAdd nowMs recoveryWindowMs⟩]
        current := ⟨pending.epoch, pending.physicalDocumentId, nowMs, baselineEncodedStateBytes,
          baselineDeleteSetBytes⟩ }

/-- The loop of `validate` over the retired epochs; `seen` holds those before. -/
def validateRetired (m : EpochManifest) (seen : List UInt64) :
    List RetiredEpoch → Except EpochError Unit
  | [] => .ok ()
  | retired :: rest =>
      let expectedPhysical :=
        if retired.epoch = 0 then m.logicalDocumentId
        else physicalDocumentId digest m.logicalDocumentId retired.epoch
      if retired.epoch ∈ seen ∨ retired.epoch ≥ m.current.epoch ∨
          retired.physicalDocumentId ≠ expectedPhysical ∨
          retired.deleteAfterMs < retired.retiredAtMs then
        .error (.invalidManifest "retired epoch identity, order, or retention is invalid")
      else validateRetired m (retired.epoch :: seen) rest

def validate (m : EpochManifest) (expectedDocumentId : String) : Except EpochError Unit :=
  if m.format ≠ Epoch.format ∨ m.version ≠ formatVersion ∨
      m.logicalDocumentId ≠ expectedDocumentId then
    .error (.invalidManifest ("manifest identity or format does not match " ++ expectedDocumentId))
  else if m.current.epoch = 0 ∧ m.current.physicalDocumentId ≠ m.logicalDocumentId then
    .error (.invalidManifest "epoch zero must use the legacy physical document id")
  else if m.current.epoch > 0 ∧ m.current.physicalDocumentId ≠
      physicalDocumentId digest m.logicalDocumentId m.current.epoch then
    .error (.invalidManifest "current physical document id does not match its epoch")
  else if m.pending.any fun pending => pending.epoch ≠ saturatingAdd m.current.epoch 1 ||
      pending.physicalDocumentId ≠
        physicalDocumentId digest m.logicalDocumentId pending.epoch then
    .error (.invalidManifest "pending epoch is not the current epoch successor")
  else validateRetired digest m [] m.retired

end EpochManifest

/-- The directory of a physical document. -/
def directoryOf (physicalDocumentId : String) : String := physicalDocumentId ++ ".crdt"

theorem directoryOf_injective {a b : String} (h : directoryOf a = directoryOf b) : a = b := by
  have := congrArg String.toList h
  simp only [directoryOf, String.toList_append, List.append_cancel_right_eq] at this
  exact String.toList_inj.mp this

/-- `save_manifest`: refuses an invalid manifest, else writes it; `written` says
whether the write went through. -/
def saveManifest (m : EpochManifest) (written : Bool) : Except EpochError Unit :=
  match m.validate digest m.logicalDocumentId with
  | .error e => .error e
  | .ok () => if written then .ok () else .error .io

/-- What the loop of `remove_expired` leaves behind. -/
structure Sweep where
  /-- Entries that stay in the manifest. -/
  retained : List RetiredEpoch
  /-- Directories present afterwards. -/
  directories : Finset String
  /-- Directories `remove_dir_all` was called on, in order. -/
  attempted : List String
  /-- The loop returned early because a removal failed. -/
  failed : Bool

/-- The loop of `remove_expired`. `fails` says on which directories
`remove_dir_all` fails; an absent directory counts as removed. -/
def sweepExpired (nowMs : UInt64) (fails : String → Bool) (directories : Finset String) :
    List RetiredEpoch → Sweep
  | [] => ⟨[], directories, [], false⟩
  | retired :: rest =>
      if retired.deleteAfterMs > nowMs then
        let tail := sweepExpired nowMs fails directories rest
        { tail with retained := retired :: tail.retained }
      else
        let path := directoryOf retired.physicalDocumentId
        if fails path then ⟨retired :: rest, directories, [path], true⟩
        else
          let tail := sweepExpired nowMs fails (directories.erase path) rest
          { tail with attempted := path :: tail.attempted }

/-- `remove_expired`: the result, the manifest and what happened on disk. -/
def removeExpired (m : EpochManifest) (nowMs : UInt64) (directories : Finset String)
    (fails : String → Bool) (written : Bool) : Except EpochError Unit × EpochManifest × Sweep :=
  let sweep := sweepExpired nowMs fails directories m.retired
  let m := { m with retired := sweep.retained }
  if sweep.failed then (.error .io, m, sweep) else (saveManifest digest m written, m, sweep)

/-! ## The manifest invariant -/

/-- The physical document of an epoch: epoch zero keeps the logical id. -/
def physicalOf (logicalDocumentId : String) (epoch : UInt64) : String :=
  if epoch = 0 then logicalDocumentId else physicalDocumentId digest logicalDocumentId epoch

/-- A retired entry is the record its epoch left behind. -/
structure RetiredOk (l : String) (r : RetiredEpoch) : Prop where
  physical : r.physicalDocumentId = physicalOf digest l r.epoch
  retention : r.retiredAtMs ≤ r.deleteAfterMs

/-- A manifest of the logical document `l`: the epochs are in order, and each has its own physical
document. -/
structure Inv (l : String) (m : EpochManifest) : Prop where
  format : m.format = Epoch.format
  version : m.version = formatVersion
  logical : m.logicalDocumentId = l
  current : m.current.physicalDocumentId = physicalOf digest l m.current.epoch
  pending : ∀ p, m.pending = some p → p.epoch.toNat = m.current.epoch.toNat + 1 ∧
    p.physicalDocumentId = physicalDocumentId digest l p.epoch
  increasing : m.retired.Pairwise fun a b => a.epoch < b.epoch
  below : ∀ r ∈ m.retired, r.epoch < m.current.epoch
  retired : ∀ r ∈ m.retired, RetiredOk digest l r

variable {digest} {l : String} {m : EpochManifest}

theorem inv_initial (l : String) (nowMs : UInt64) :
    Inv digest l (EpochManifest.initial l nowMs) where
  format := rfl
  version := rfl
  logical := rfl
  current := rfl
  pending := by simp [EpochManifest.initial]
  increasing := List.Pairwise.nil
  below := by simp [EpochManifest.initial]
  retired := by simp [EpochManifest.initial]

theorem pos_of_succ {a b : UInt64} (h : b.toNat = a.toNat + 1) : b ≠ 0 := by
  rintro rfl
  simp at h

/-- The retired loop accepts entries that are in order after those seen. -/
theorem validateRetired_ok (hinv : Inv digest l m) :
    ∀ (rest : List RetiredEpoch) (seen : List UInt64),
    (∀ r ∈ rest, r ∈ m.retired) → rest.Pairwise (fun a b => a.epoch < b.epoch) →
    (∀ e ∈ seen, ∀ r ∈ rest, e < r.epoch) → m.validateRetired digest seen rest = .ok () := by
  intro rest
  induction rest with
  | nil => intros; rfl
  | cons r rest ih =>
      intro seen hmem hpair hseen
      have hr := hmem r List.mem_cons_self
      have hok := hinv.retired r hr
      have hbelow := hinv.below r hr
      rw [EpochManifest.validateRetired, if_neg]
      · refine ih (r.epoch :: seen) (fun x hx => hmem x (List.mem_cons_of_mem _ hx)) hpair.tail ?_
        intro e he x hx
        rcases List.mem_cons.mp he with rfl | he
        · exact List.rel_of_pairwise_cons hpair hx
        · exact hseen e he x (List.mem_cons_of_mem _ hx)
      · rintro (hin | hge | hphys | hlate)
        · exact absurd (hseen r.epoch hin r List.mem_cons_self) (UInt64.lt_irrefl _)
        · exact absurd hbelow (UInt64.not_lt.mpr hge)
        · rw [hinv.logical] at hphys
          exact hphys hok.physical
        · exact absurd hok.retention (UInt64.not_le.mpr hlate)

/-- Every manifest in the invariant passes its own validation. -/
theorem validate_ok (hinv : Inv digest l m) : m.validate digest l = .ok () := by
  have hcur := hinv.current
  rw [EpochManifest.validate, if_neg, if_neg, if_neg, if_neg]
  · exact validateRetired_ok hinv m.retired [] (fun _ h => h) hinv.increasing (by simp)
  · cases hp : m.pending with
    | none => simp
    | some p =>
        obtain ⟨hsucc, hphys⟩ := hinv.pending p hp
        simp [hinv.logical, hphys, saturatingAdd_one hsucc]
  · rintro ⟨hpos, hne⟩
    rw [hinv.logical] at hne
    have hz : m.current.epoch ≠ 0 := by
      intro hz
      rw [hz] at hpos
      exact UInt64.lt_irrefl _ hpos
    rw [physicalOf, if_neg hz] at hcur
    exact hne hcur
  · rintro ⟨hz, hne⟩
    rw [hinv.logical] at hne
    rw [physicalOf, if_pos hz] at hcur
    exact hne hcur
  · rintro (h | h | h)
    · exact h hinv.format
    · exact h hinv.version
    · exact h hinv.logical

/-! ## Each operation keeps it -/

theorem inv_begin (hinv : Inv digest l m) {nowMs : UInt64} {m' : EpochManifest} {p : PendingEpoch}
    (h : m.begin digest nowMs = .ok (m', p)) :
    Inv digest l m' ∧ m'.current = m.current ∧ m'.retired = m.retired := by
  unfold EpochManifest.begin at h
  split at h
  · obtain ⟨rfl, -⟩ := Prod.mk.inj (Except.ok.inj h)
    exact ⟨hinv, rfl, rfl⟩
  · split at h
    · cases h
    · rename_i epoch hadd
      obtain ⟨rfl, -⟩ := Prod.mk.inj (Except.ok.inj h)
      refine ⟨{ hinv with pending := ?_ }, rfl, rfl⟩
      intro q hq
      obtain rfl := Option.some.inj hq
      exact ⟨toNat_checkedAdd_one hadd, by rw [hinv.logical]⟩

theorem inv_activate (hinv : Inv digest l m) {nowMs window b d : UInt64} {m' : EpochManifest}
    (h : m.activate nowMs window b d = .ok m') :
    Inv digest l m' ∧ m'.current.epoch.toNat = m.current.epoch.toNat + 1 ∧
      ∀ r ∈ m.retired, r ∈ m'.retired := by
  unfold EpochManifest.activate at h
  split at h
  · cases h
  · rename_i p hp
    obtain ⟨hsucc, hphys⟩ := hinv.pending p hp
    have hlt : m.current.epoch < p.epoch := UInt64.lt_iff_toNat_lt.mpr (by omega)
    obtain rfl := Except.ok.inj h
    refine ⟨{ hinv with
      current := ?_, pending := ?_, increasing := ?_, below := ?_, retired := ?_ }, hsucc, ?_⟩
    · change p.physicalDocumentId = physicalOf digest l p.epoch
      rw [physicalOf, if_neg (pos_of_succ hsucc), hphys]
    · intro q hq
      cases hq
    · refine List.pairwise_append.mpr ⟨hinv.increasing, List.pairwise_singleton _ _, ?_⟩
      intro r hr x hx
      obtain rfl := List.mem_singleton.mp hx
      exact hinv.below r hr
    · intro r hr
      rcases List.mem_append.mp hr with hr | hr
      · exact UInt64.lt_trans (hinv.below r hr) hlt
      · obtain rfl := List.mem_singleton.mp hr
        exact hlt
    · intro r hr
      rcases List.mem_append.mp hr with hr | hr
      · exact hinv.retired r hr
      · obtain rfl := List.mem_singleton.mp hr
        exact ⟨hinv.current, le_saturatingAdd _ _⟩
    · intro r hr
      exact List.mem_append_left _ hr

/-- What the sweep does to the list it is given: it keeps a sublist, touches
only directories of listed entries, and drops an entry only when it had expired
and its directory is gone. -/
theorem sweepExpired_spec (nowMs : UInt64) (fails : String → Bool) (entries : List RetiredEpoch) :
    ∀ directories : Finset String,
      (sweepExpired nowMs fails directories entries).retained.Sublist entries ∧
      (∀ path ∈ (sweepExpired nowMs fails directories entries).attempted,
        ∃ r ∈ entries, path = directoryOf r.physicalDocumentId) ∧
      (sweepExpired nowMs fails directories entries).directories ⊆ directories ∧
      ∀ r ∈ entries, r ∉ (sweepExpired nowMs fails directories entries).retained →
        r.deleteAfterMs ≤ nowMs ∧ directoryOf r.physicalDocumentId ∉
          (sweepExpired nowMs fails directories entries).directories := by
  induction entries with
  | nil => intro directories; simp [sweepExpired]
  | cons e rest ih =>
      intro directories
      rw [sweepExpired]
      split
      · obtain ⟨hsub, htouch, hdirs, hdrop⟩ := ih directories
        refine ⟨hsub.cons_cons e, ?_, hdirs, ?_⟩
        · intro path hpath
          obtain ⟨r, hr, heq⟩ := htouch path hpath
          exact ⟨r, List.mem_cons_of_mem _ hr, heq⟩
        · intro r hr hout
          simp only [List.mem_cons, not_or] at hr hout
          exact hdrop r (hr.resolve_left hout.1) hout.2
      · rename_i hexpired
        dsimp only
        split
        · refine ⟨List.Sublist.refl _, ?_, Finset.Subset.refl _, fun r hr hout => absurd hr hout⟩
          intro path hpath
          exact ⟨e, List.mem_cons_self, List.mem_singleton.mp hpath⟩
        · obtain ⟨hsub, htouch, hdirs, hdrop⟩ :=
            ih (directories.erase (directoryOf e.physicalDocumentId))
          refine ⟨hsub.cons e, ?_, hdirs.trans (Finset.erase_subset _ _), ?_⟩
          · intro path hpath
            rcases List.mem_cons.mp hpath with rfl | hpath
            · exact ⟨e, List.mem_cons_self, rfl⟩
            · obtain ⟨r, hr, heq⟩ := htouch path hpath
              exact ⟨r, List.mem_cons_of_mem _ hr, heq⟩
          · intro r hr hout
            rcases List.mem_cons.mp hr with rfl | hr
            · refine ⟨UInt64.not_lt.mp hexpired, fun hin => ?_⟩
              exact Finset.notMem_erase _ _ (hdirs hin)
            · exact hdrop r hr hout

theorem removeExpired_manifest (digest : String → String) (m : EpochManifest) (nowMs : UInt64)
    (directories : Finset String) (fails : String → Bool) (written : Bool) :
    (removeExpired digest m nowMs directories fails written).2 =
      ({ m with retired := (sweepExpired nowMs fails directories m.retired).retained },
        sweepExpired nowMs fails directories m.retired) := by
  unfold removeExpired
  dsimp only
  split <;> rfl

theorem inv_retain (hinv : Inv digest l m) {kept : List RetiredEpoch}
    (h : kept.Sublist m.retired) : Inv digest l { m with retired := kept } :=
  { hinv with
    increasing := hinv.increasing.sublist h
    below := fun r hr => hinv.below r (h.subset hr)
    retired := fun r hr => hinv.retired r (h.subset hr) }

/-- A retired entry's directory is neither the current nor the pending one,
unless a digest-based id equals the logical id. -/
theorem directory_retired_ne (hinv : Inv digest l m)
    (hid : ∀ epoch, physicalDocumentId digest l epoch ≠ l) {r : RetiredEpoch} (hr : r ∈ m.retired) :
    directoryOf r.physicalDocumentId ≠ directoryOf m.current.physicalDocumentId ∧
      ∀ p, m.pending = some p →
        directoryOf r.physicalDocumentId ≠ directoryOf p.physicalDocumentId := by
  have hne : ∀ e : UInt64, r.epoch < e →
      r.physicalDocumentId ≠ physicalDocumentId digest l e := by
    intro e hlt heq
    rw [(hinv.retired r hr).physical, physicalOf] at heq
    split at heq
    · exact hid e heq.symm
    · rw [physicalDocumentId_injective heq] at hlt
      exact UInt64.lt_irrefl _ hlt
  have hbelow := hinv.below r hr
  have hpos : m.current.epoch ≠ 0 := by
    intro hz
    rw [hz] at hbelow
    exact UInt64.not_lt_zero hbelow
  refine ⟨fun h => ?_, fun p hp h => ?_⟩
  · have hcur := hinv.current
    rw [physicalOf, if_neg hpos] at hcur
    exact hne _ hbelow (by rw [← hcur]; exact directoryOf_injective h)
  · obtain ⟨hsucc, hphys⟩ := hinv.pending p hp
    have hlt : m.current.epoch < p.epoch := UInt64.lt_iff_toNat_lt.mpr (by omega)
    exact hne _ (UInt64.lt_trans hbelow hlt) (by rw [← hphys]; exact directoryOf_injective h)

/-! ## Runs -/

/-- A call on the manifest, with what the file system does to it. -/
inductive Op where
  | begin (nowMs : UInt64)
  | activate (nowMs recoveryWindowMs baselineEncodedStateBytes baselineDeleteSetBytes : UInt64)
  | removeExpired (nowMs : UInt64) (directories : Finset String) (fails : String → Bool)
      (written : Bool)

/-- The manifest after a call; a failed `begin` or `activate` leaves it alone. -/
def stepOp (digest : String → String) (m : EpochManifest) : Op → EpochManifest
  | .begin nowMs =>
      match m.begin digest nowMs with
      | .ok (m', _) => m'
      | .error _ => m
  | .activate nowMs window b d =>
      match m.activate nowMs window b d with
      | .ok m' => m'
      | .error _ => m
  | .removeExpired nowMs directories fails written =>
      (removeExpired digest m nowMs directories fails written).2.1

def runOps (digest : String → String) (m : EpochManifest) (ops : List Op) : EpochManifest :=
  ops.foldl (stepOp digest) m

/-- What one call may do to the epochs: only a successful `activate` moves the
current one, and only `removeExpired` drops a retired one, when it had expired
and its directory is gone. -/
structure StepOk (digest : String → String) (m : EpochManifest) (op : Op) : Prop where
  monotone : m.current.epoch ≤ (stepOp digest m op).current.epoch
  activates : ∀ nowMs window b d, op = .activate nowMs window b d →
    ∀ m', m.activate nowMs window b d = .ok m' →
      (stepOp digest m op).current.epoch.toNat = m.current.epoch.toNat + 1
  otherwise : (∀ nowMs window b d m', op = .activate nowMs window b d →
      m.activate nowMs window b d ≠ .ok m') →
    (stepOp digest m op).current.epoch = m.current.epoch
  leaves : ∀ r ∈ m.retired, r ∉ (stepOp digest m op).retired →
    ∃ nowMs directories fails written, op = .removeExpired nowMs directories fails written ∧
      r.deleteAfterMs ≤ nowMs ∧ directoryOf r.physicalDocumentId ∉
        (removeExpired digest m nowMs directories fails written).2.2.directories

theorem inv_stepOp (hinv : Inv digest l m) (op : Op) : Inv digest l (stepOp digest m op) := by
  cases op with
  | begin nowMs =>
      cases h : m.begin digest nowMs with
      | error e => simpa [stepOp, h] using hinv
      | ok p => simpa [stepOp, h] using (inv_begin hinv h).1
  | activate nowMs window b d =>
      cases h : m.activate nowMs window b d with
      | error e => simpa [stepOp, h] using hinv
      | ok m' => simpa [stepOp, h] using (inv_activate hinv h).1
  | removeExpired nowMs directories fails written =>
      rw [stepOp, removeExpired_manifest]
      exact inv_retain hinv (sweepExpired_spec nowMs fails m.retired directories).1

theorem inv_runOps (hinv : Inv digest l m) (ops : List Op) :
    Inv digest l (runOps digest m ops) := by
  induction ops generalizing m with
  | nil => exact hinv
  | cons op ops ih => exact ih (inv_stepOp hinv op)

theorem stepOk_of_inv (hinv : Inv digest l m) (op : Op) : StepOk digest m op := by
  cases op with
  | begin nowMs =>
      cases h : m.begin digest nowMs with
      | error e =>
          exact ⟨by simp [stepOp, h], by simp, by simp [stepOp, h], fun r hr hout =>
            absurd hr (by simpa [stepOp, h] using hout)⟩
      | ok p =>
          obtain ⟨-, hcur, hret⟩ := inv_begin hinv h
          exact ⟨by simp [stepOp, h, hcur], by simp, by simp [stepOp, h, hcur], fun r hr hout =>
            absurd hr (by simpa [stepOp, h, hret] using hout)⟩
  | activate nowMs window b d =>
      cases h : m.activate nowMs window b d with
      | error e =>
          refine ⟨by simp [stepOp, h], ?_, by simp [stepOp, h], fun r hr hout =>
            absurd hr (by simpa [stepOp, h] using hout)⟩
          rintro _ _ _ _ ⟨⟩ m' hm'
          rw [h] at hm'
          cases hm'
      | ok m' =>
          obtain ⟨-, hsucc, hkeep⟩ := inv_activate hinv h
          refine ⟨?_, ?_, ?_, fun r hr hout => ?_⟩
          · rw [stepOp, h, UInt64.le_iff_toNat_le]
            change m.current.epoch.toNat ≤ m'.current.epoch.toNat
            omega
          · intros
            simpa [stepOp, h] using hsucc
          · intro hno
            exact absurd h (hno nowMs window b d m' rfl)
          · exact absurd (hkeep r hr) (by simpa [stepOp, h] using hout)
  | removeExpired nowMs directories fails written =>
      have hman := removeExpired_manifest digest m nowMs directories fails written
      have hspec := sweepExpired_spec nowMs fails m.retired directories
      refine ⟨?_, by simp, ?_, fun r hr hout => ?_⟩
      · rw [stepOp, hman]
        exact UInt64.le_refl _
      · intro _
        rw [stepOp, hman]
      · rw [stepOp, hman] at hout
        obtain ⟨hexpired, hgone⟩ := hspec.2.2.2 r hr hout
        exact ⟨nowMs, directories, fails, written, rfl, hexpired, by rw [hman]; exact hgone⟩

/-- **The epoch manifest state machine.** After every sequence of calls on an
initial manifest, with any times, windows and removal failures: the manifest
validates, its retired epochs increase strictly and lie below the current one;
the next call moves the current epoch by exactly one if it activates and leaves
it alone otherwise, and drops a retired epoch only by expiry with its directory
gone; and `removeExpired` never touches the current or the pending directory,
as long as no digest-based id equals the logical id. -/
theorem manifest_state_machine (digest : String → String) (l : String) (startMs : UInt64)
    (ops : List Op) (hid : ∀ epoch, physicalDocumentId digest l epoch ≠ l) :
    (runOps digest (.initial l startMs) ops).validate digest l = .ok () ∧
    (runOps digest (.initial l startMs) ops).retired.Pairwise (fun a b => a.epoch < b.epoch) ∧
    (∀ r ∈ (runOps digest (.initial l startMs) ops).retired,
      r.epoch < (runOps digest (.initial l startMs) ops).current.epoch) ∧
    (∀ op, StepOk digest (runOps digest (.initial l startMs) ops) op) ∧
    ∀ nowMs directories fails written,
      ∀ path ∈ (removeExpired digest (runOps digest (.initial l startMs) ops) nowMs directories
          fails written).2.2.attempted,
        path ≠ directoryOf
          (runOps digest (.initial l startMs) ops).current.physicalDocumentId ∧
        ∀ p, (runOps digest (.initial l startMs) ops).pending = some p →
          path ≠ directoryOf p.physicalDocumentId := by
  have hinv : Inv digest l (runOps digest (.initial l startMs) ops) :=
    inv_runOps (inv_initial l startMs) ops
  refine ⟨validate_ok hinv, hinv.increasing, hinv.below, stepOk_of_inv hinv, ?_⟩
  intro nowMs directories fails written path hpath
  rw [removeExpired_manifest] at hpath
  obtain ⟨r, hr, rfl⟩ := (sweepExpired_spec nowMs fails _ directories).2.1 path hpath
  exact directory_retired_ne hinv hid hr

/-- Two epochs of `vault__doc`, the first expired and swept. -/
theorem manifest_state_machine_vault_doc :
    (runOps (fun _ => "203aab86611c3b07105dd7195b05d5dca64c360899050476262aba448ade5531")
      (.initial "vault__doc" 0) [.begin 1, .activate 2 0 1 1, .begin 3, .activate 4 0 1 1,
        .removeExpired 5 {"vault__doc.crdt"} (fun _ => false) true]).validate
      (fun _ => "203aab86611c3b07105dd7195b05d5dca64c360899050476262aba448ade5531") "vault__doc" =
        .ok () := by
  refine (manifest_state_machine _ "vault__doc" 0 _ fun epoch h => ?_).1
  have hhead := congrArg (fun s => s.toList.head?) h
  simp [physicalDocumentId] at hhead

end

end Realtime.Epoch
