import Mathlib.Tactic
import Realtime.Vault.BinarySync

/-!
# A publish that the index has lost

Whoever published a version and still has its bytes on disk is asked before another version
that was not built on it replaces them: `publishedFrom` stays as long as disk and index agree.
`replacedIdentity` does not, so a version that is back in the index is published over only
where no reconcile has found the two in agreement.
-/

namespace Realtime.Vault.BinarySync

open Lib.Utf16

/-! ## What happens in between -/

inductive Event where
  | reconcile (c : Circumstances)
  /-- The app starts again, with the index as it was persisted. -/
  | restart (persisted : Option VersionedEntry)

def Device.apply (dev : Device) : Event → Device
  | .reconcile c => (dev.reconcileNow c).2
  | .restart persisted => dev.seedBaseline persisted

/-- A reconcile of that version finds it in the index. -/
def Event.Agrees (hash : Digest) : Event → Prop
  | .reconcile c => (c.disk = .present hash ∨ c.disk = .unreadable) ∧
      c.remote.map (·.hash) = some hash.hex
  | .restart _ => True

/-- The reconcile gets as far as the comparison. -/
def Circumstances.compares (c : Circumstances) : Bool :=
  !c.destroyed && c.tracked && !c.ignored && !c.movingAway && !c.paused && !c.destroyedSince &&
    !c.pausedSince

/-- The event has found disk and index in agreement. -/
def Event.settles : Event → Bool
  | .reconcile c => c.compares && c.disk ≠ .unreadable
  | .restart _ => false

/-! ## The record of a publish -/

/-- What a device with a `LocalSyncState` remembers of a version it has published. -/
structure Remembers (dev : Device) (hash : Digest) (replaced : Option JsString) (settled : Bool) :
    Prop where
  lastSyncedHash : dev.lastSyncedHash = some hash.hex
  record : ∃ r, dev.localSyncState = some (some r) ∧ r.kind = .binary ∧
    r.identity = some (some hash.hex) ∧ r.fingerprint = some hash.hex ∧ r.candidate = false ∧
    r.publishedFrom = some replaced ∧ r.replacedIdentity = if settled then none else some replaced

variable {dev : Device} {hash : Digest} {replaced : Option JsString} {settled : Bool}
  {c : Circumstances}

theorem Digest.hex_ne_nil (hash : Digest) : hash.hex ≠ [] := by
  intro hnil
  have hlen := hash.length_eq
  rw [hnil] at hlen
  cases hlen

@[simp] theorem truthy_hex (hash : Digest) : truthy (some hash.hex) = true := by
  simpa [truthy] using hash.hex_ne_nil

theorem remembers_publishMeta {entry : VersionedEntry} (hhash : entry.hash = hash.hex)
    (hlocal : dev.localSyncState.isSome) :
    Remembers (dev.publishMeta entry).2 hash entry.prev.join false := by
  obtain ⟨state, hstate⟩ := Option.isSome_iff_exists.mp hlocal
  refine ⟨?_, LocalPathState.markPublished .binary entry.hash entry.hash entry.prev.join state,
    ?_, rfl, ?_, ?_, rfl, rfl, rfl⟩
  · exact congrArg some hhash
  · show dev.localSyncState.map _ = _
    rw [hstate]
    rfl
  · exact congrArg (some ∘ some) hhash
  · exact congrArg some hhash

/-- Whether a reconcile returns early depends on its circumstances alone. -/
theorem reconcileNow_eq (dev : Device) (c : Circumstances) :
    (c.compares = true ∧ ∃ liveDelete initialPull, ∃ dev' : Device,
      dev'.localSyncState = dev.localSyncState ∧ dev'.lastSyncedHash = dev.lastSyncedHash ∧
      dev.reconcileNow c = dev'.compare c liveDelete initialPull) ∨
    (c.compares = false ∧ ∃ dev' : Device, dev'.localSyncState = dev.localSyncState ∧
      dev'.lastSyncedHash = dev.lastSyncedHash ∧
      (dev.reconcileNow c = (.nothing, dev') ∨ dev.reconcileNow c = (.deferred, dev'))) := by
  unfold Device.reconcileNow
  by_cases hskip : (c.destroyed || !c.tracked || c.ignored || c.movingAway) = true
  · rw [if_pos hskip]
    refine .inr ⟨?_, dev, rfl, rfl, .inl rfl⟩
    simp only [Bool.or_eq_true, Bool.not_eq_true'] at hskip
    rcases hskip with ((h | h) | h) | h <;> simp [Circumstances.compares, h]
  rw [if_neg hskip]
  simp only [Bool.or_eq_true, Bool.not_eq_true', not_or, Bool.not_eq_true, Bool.not_eq_false]
    at hskip
  obtain ⟨⟨⟨hdestroyed, htracked⟩, hignored⟩, hmoving⟩ := hskip
  dsimp only
  by_cases hpaused : c.paused = true
  · rw [if_pos hpaused]
    refine .inr ⟨by simp [Circumstances.compares, hpaused], _, ?_, ?_, .inr rfl⟩
    · rfl
    · rfl
  rw [if_neg hpaused]
  by_cases hdestroyedSince : c.destroyedSince = true
  · rw [if_pos hdestroyedSince]
    refine .inr ⟨by simp [Circumstances.compares, hdestroyedSince], _, ?_, ?_, .inl rfl⟩
    · rfl
    · rfl
  rw [if_neg hdestroyedSince]
  by_cases hpausedSince : c.pausedSince = true
  · rw [if_pos hpausedSince]
    refine .inr ⟨by simp [Circumstances.compares, hpausedSince], _, ?_, ?_, .inr rfl⟩
    · rfl
    · rfl
  rw [if_neg hpausedSince]
  refine .inl ⟨?_, _, _, _, ?_, ?_, rfl⟩
  · simp [Circumstances.compares, hdestroyed, htracked, hignored, hmoving, hpaused,
      hdestroyedSince, hpausedSince]
  · rfl
  · rfl

theorem beginCandidate_eq {r : LocalPathState JsString JsString}
    (h : dev.localSyncState = some (some r)) (localHash : Option JsString) :
    dev.beginCandidate localHash = dev := by
  unfold Device.beginCandidate
  rw [h]

/-- Disk and index agree on the version that was published. -/
theorem Remembers.reconcileNow (h : Remembers dev hash replaced settled)
    (hagrees : (Event.reconcile c).Agrees hash) :
    Remembers (dev.reconcileNow c).2 hash replaced (settled || (Event.reconcile c).settles) := by
  obtain ⟨r, hr, hkind, hidentity, hfingerprint, hcandidate, hfrom, hreplaced⟩ := h.record
  obtain ⟨hdisk, hremote⟩ := hagrees
  rcases reconcileNow_eq dev c with ⟨hcompares, liveDelete, initialPull, dev', hstate, hbase, heq⟩ |
    ⟨hcompares, dev', hstate, hbase, heq⟩
  · rw [heq]
    rcases hdisk with hdisk | hdisk
    · have hsettles : (settled || (Event.reconcile c).settles) = true := by
        simp [Event.settles, hcompares, hdisk]
      unfold Device.compare
      rw [hdisk]
      dsimp only
      rw [hremote, if_pos rfl, beginCandidate_eq (hstate.trans hr), hsettles]
      show Remembers (dev'.agree (some hash.hex)) hash replaced true
      rw [Device.agree]
      dsimp only
      rw [if_neg hash.hex_ne_nil]
      refine ⟨rfl, LocalPathState.markSynced .binary hash.hex hash.hex true (some r),
        ?_, rfl, rfl, rfl, ?_, ?_, rfl⟩
      · show dev'.localSyncState.map _ = _
        rw [hstate, hr]
        rfl
      · simp [LocalPathState.markSynced]
      · show LocalPathState.carriedPublishedFrom (some r) (some hash.hex) = _
        rw [LocalPathState.carriedPublishedFrom, if_pos hidentity, hfrom]
    · have hsettles : (settled || (Event.reconcile c).settles) = settled := by
        simp [Event.settles, hdisk]
      unfold Device.compare
      rw [hdisk, hsettles]
      exact ⟨hbase.trans h.lastSyncedHash, r, hstate.trans hr, hkind, hidentity, hfingerprint,
        hcandidate, hfrom, hreplaced⟩
  · have hsettles : (settled || (Event.reconcile c).settles) = settled := by
      simp [Event.settles, hcompares]
    rw [hsettles]
    have hsnd : (dev.reconcileNow c).2 = dev' := by rcases heq with heq | heq <;> rw [heq]
    rw [hsnd]
    exact ⟨hbase.trans h.lastSyncedHash, r, hstate.trans hr, hkind, hidentity, hfingerprint,
      hcandidate, hfrom, hreplaced⟩

/-- The record is persisted, so a restart finds the baseline again. -/
theorem Remembers.seedBaseline (h : Remembers dev hash replaced settled)
    (persisted : Option VersionedEntry) :
    Remembers (dev.seedBaseline persisted) hash replaced settled := by
  obtain ⟨r, hr, hkind, hidentity, hfingerprint, hcandidate, hfrom, hreplaced⟩ := h.record
  have hmigrate : ∀ identity : JsString,
      LocalPathState.migrateLegacyIdentity .binary identity (some r) = some r := by
    intro identity
    rw [LocalPathState.migrateLegacyIdentity, if_pos (by rw [hidentity]; rfl)]
  have hseeded : dev.seedBaseline persisted =
      { dev with
        lastSyncedHash := some hash.hex
        pendingDownload := false
        urgent := false
        liveDelete := false
        deferredInitialPull := false
        deferredReconcile := false } := by
    unfold Device.seedBaseline
    dsimp only
    rw [hr]
    dsimp only
    cases persisted with
    | none => simp [hkind, hcandidate, hidentity, hfingerprint, hash.hex_ne_nil]
    | some entry =>
        by_cases hentry : entry.hash = []
        · simp [hentry, hkind, hcandidate, hidentity, hfingerprint, hash.hex_ne_nil]
        · simp [hentry, hmigrate, hkind, hcandidate, hidentity, hfingerprint, hash.hex_ne_nil]
  rw [hseeded]
  exact ⟨rfl, r, hr, hkind, hidentity, hfingerprint, hcandidate, hfrom, hreplaced⟩

theorem Remembers.run (h : Remembers dev hash replaced settled) {events : List Event}
    (hagrees : ∀ e ∈ events, e.Agrees hash) :
    Remembers (events.foldl Device.apply dev) hash replaced
      (settled || events.any Event.settles) := by
  induction events generalizing dev settled with
  | nil => simpa using h
  | cons e events ih =>
      have hnext : Remembers (dev.apply e) hash replaced (settled || e.settles) := by
        cases e with
        | reconcile c => exact h.reconcileNow (hagrees _ List.mem_cons_self)
        | restart persisted =>
            rw [Event.settles, Bool.or_false]
            exact h.seedBaseline persisted
      rw [List.foldl_cons, List.any_cons, ← Bool.or_assoc]
      exact ih hnext fun e he => hagrees e (List.mem_cons_of_mem _ he)

theorem localSyncState_apply_none (hlocal : dev.localSyncState = none) (e : Event) :
    (dev.apply e).localSyncState = none := by
  cases e with
  | reconcile c =>
      rcases reconcileNow_eq dev c with ⟨-, liveDelete, initialPull, dev', hstate, -, heq⟩ |
        ⟨-, dev', hstate, -, heq⟩
      · rw [hlocal] at hstate
        rw [Device.apply, heq]
        unfold Device.compare
        have hbegin : ∀ localHash, dev'.beginCandidate localHash = dev' := by
          intro localHash
          unfold Device.beginCandidate
          rw [hstate]
        have hagree : ∀ remoteHash, (dev'.agree remoteHash).localSyncState = none := by
          intro remoteHash
          unfold Device.agree
          dsimp only
          split
          · split
            · exact hstate
            · rw [hstate]
              rfl
          · exact hstate
        split
        · exact hstate
        · dsimp only
          split
          · exact hagree none
          · exact hstate
        · dsimp only
          rw [hbegin]
          split
          · exact hagree _
          · exact hstate
      · rw [Device.apply]
        rcases heq with heq | heq <;> rw [heq] <;> exact hstate.trans hlocal
  | restart persisted =>
      rw [Device.apply]
      unfold Device.seedBaseline
      dsimp only
      rw [hlocal]
      dsimp only
      split
      · split
        · rfl
        · rfl
      · rfl

theorem localSyncState_run_none (hlocal : dev.localSyncState = none) (events : List Event) :
    (events.foldl Device.apply dev).localSyncState = none := by
  induction events generalizing dev with
  | nil => exact hlocal
  | cons e events ih => exact ih (localSyncState_apply_none hlocal e)

/-! ## What a reconcile decides -/

variable {remote : VersionedEntry}

/-- Of two versions on both sides, one is downloaded only where it is known to be the later one,
or where the device has not published the other. -/
theorem decide_ne_downloadToDisk (hprev : remote.prev.isSome)
    (hdescends : descendsFrom remote hash.hex = false)
    (hown : ∀ state, dev.localSyncState = some state → ∃ r, state = some r ∧
      r.identity = some (some hash.hex) ∧ r.publishedFrom.isSome)
    (liveDelete initialPull pendingLocalRemoval : Bool) (h : JsString)
    (expected : Option JsString) :
    dev.decide (some hash.hex) (some remote) liveDelete initialPull pendingLocalRemoval ≠
      .downloadToDisk h expected := by
  unfold Device.decide
  dsimp only
  rw [truthy_hex]
  cases truthy ((some remote).map (·.hash)) with
  | false =>
      dsimp only
      split
      · nofun
      · split <;> nofun
  | true =>
      dsimp only
      split
      · nofun
      split
      · show dev.onRemoteMoved hash.hex remote ≠ _
        unfold Device.onRemoteMoved
        dsimp only
        rw [hdescends, if_neg Bool.false_ne_true]
        split
        · nofun
        have hguard : (dev.localSyncState.isSome && !(dev.localSyncState.join.map fun s =>
            decide (s.identity = some (some hash.hex)) && s.publishedFrom.isSome).getD false) =
              false := by
          cases hstate : dev.localSyncState with
          | none => rfl
          | some state =>
              obtain ⟨r, rfl, hidentity, hfrom⟩ := hown state hstate
              simp [hidentity, hfrom]
        rw [hguard, if_neg Bool.false_ne_true,
          if_neg (by simpa [Option.isSome_iff_ne_none] using hprev)]
        nofun
      · nofun

/-- The index is back at the version that the publish has replaced. -/
theorem Remembers.decide {replaced : Digest}
    (h : Remembers dev hash (some replaced.hex) settled) (hne : replaced ≠ hash)
    (hremote : remote.hash = replaced.hex) (hprev : remote.prev.isSome)
    (hdescends : descendsFrom remote hash.hex = false)
    (liveDelete initialPull pendingLocalRemoval : Bool) :
    dev.decide (some hash.hex) (some remote) liveDelete initialPull pendingLocalRemoval =
      if settled then .resolveConflict
      else .queueLocalUpload (some replaced.hex) hash.hex := by
  obtain ⟨r, hr, -, hidentity, -, -, hfrom, hreplaced⟩ := h.record
  have hhex : hash.hex ≠ replaced.hex := by
    intro heq
    obtain ⟨hex, _⟩ := hash
    obtain ⟨hex', _⟩ := replaced
    subst heq
    exact hne rfl
  have htruthy : truthy ((some remote).map (·.hash)) = true := by
    rw [Option.map_some, hremote, truthy_hex]
  unfold Device.decide
  dsimp only
  rw [truthy_hex, htruthy, h.lastSyncedHash]
  dsimp only
  have hbase : some hash.hex ≠ (some remote).map (·.hash) := by
    rw [Option.map_some, hremote]
    exact fun heq => hhex (Option.some.inj heq)
  rw [if_neg hbase, if_pos rfl]
  show dev.onRemoteMoved hash.hex remote = _
  unfold Device.onRemoteMoved
  dsimp only
  rw [hdescends, if_neg Bool.false_ne_true, hr]
  dsimp only [Option.join_some, Option.bind_some]
  rw [hremote]
  cases settled with
  | false =>
      rw [if_neg Bool.false_ne_true] at hreplaced ⊢
      rw [if_pos hreplaced]
  | true =>
      have hdropped : r.replacedIdentity ≠ some (some replaced.hex) := by
        rw [hreplaced, if_pos rfl]
        nofun
      rw [if_neg hdropped, if_pos rfl]
      simp [hidentity, hfrom, Option.isNone_eq_false_iff.mpr hprev]

/-- A version was published, disk and index agreed on it as often as they were compared, and now
the index has another one, of which the disk knows nothing. -/
structure LostPublish (dev : Device) (hash : Digest) (entry : VersionedEntry)
    (events : List Event) (c : Circumstances) (remote : VersionedEntry) : Prop where
  published : entry.hash = hash.hex
  agrees : ∀ e ∈ events, e.Agrees hash
  disk : c.disk = .present hash
  index : c.remote = some remote
  lineage : remote.prev.isSome
  beside : descendsFrom remote hash.hex = false

/-- The device once it has published the version and those events have happened. -/
def Device.after (dev : Device) (entry : VersionedEntry) (events : List Event) : Device :=
  events.foldl Device.apply (dev.publishMeta entry).2

/-- A publish that was lost is never silently reverted. Where the index is back at the version it
has replaced, it is queued again, or the user is asked once disk and index have agreed on it. -/
theorem lost_publish_not_reverted (dev : Device) (hash : Digest) (entry : VersionedEntry)
    (events : List Event) (c : Circumstances) (remote : VersionedEntry)
    (h : LostPublish dev hash entry events c remote) :
    (∀ other expected,
      ((dev.after entry events).reconcileNow c).1 ≠ .downloadToDisk other expected) ∧
    ∀ replaced : Digest, entry.prev = some (some replaced.hex) → replaced ≠ hash →
      remote.hash = replaced.hex → dev.localSyncState.isSome → c.compares = true →
      ((dev.after entry events).reconcileNow c).1 =
        if events.any Event.settles then .resolveConflict
        else .queueLocalUpload (some replaced.hex) hash.hex := by
  have hremembers : ∀ hlocal : dev.localSyncState.isSome,
      Remembers (dev.after entry events) hash entry.prev.join (events.any Event.settles) := by
    intro hlocal
    have hrun := (remembers_publishMeta h.published hlocal).run h.agrees
    rwa [Bool.false_or] at hrun
  refine ⟨fun other expected => ?_, fun replaced hreplaced hne hremote hlocal hcompares => ?_⟩
  · rcases reconcileNow_eq (dev.after entry events) c with
      ⟨-, liveDelete, initialPull, dev', hstate, hbase, heq⟩ | ⟨-, dev', -, -, heq⟩
    · rw [heq]
      unfold Device.compare
      rw [h.disk, h.index]
      dsimp only
      have hown : ∀ state, (dev'.beginCandidate (some hash.hex)).localSyncState = some state →
          ∃ r, state = some r ∧ r.identity = some (some hash.hex) ∧ r.publishedFrom.isSome := by
        intro state hs
        cases hlocal : dev.localSyncState with
        | none =>
            have hpublished : (dev.publishMeta entry).2.localSyncState = none := by
              show dev.localSyncState.map _ = _
              rw [hlocal]
              rfl
            have hnone := localSyncState_run_none hpublished events
            rw [show dev'.beginCandidate (some hash.hex) = dev' by
              unfold Device.beginCandidate
              rw [hstate.trans hnone], hstate.trans hnone] at hs
            cases hs
        | some record =>
            obtain ⟨r, hr, -, hidentity, -, -, hfrom, -⟩ :=
              (hremembers (by rw [hlocal]; rfl)).record
            rw [beginCandidate_eq (hstate.trans hr), hstate.trans hr] at hs
            obtain rfl := Option.some.inj hs
            exact ⟨r, rfl, hidentity, by rw [hfrom]; rfl⟩
      split
      · nofun
      · exact decide_ne_downloadToDisk h.lineage h.beside hown _ _ _ _ _
    · rcases heq with heq | heq <;> rw [heq] <;> nofun
  · have hrecord := hremembers hlocal
    rw [hreplaced] at hrecord
    rcases reconcileNow_eq (dev.after entry events) c with
      ⟨-, liveDelete, initialPull, dev', hstate, hbase, heq⟩ | ⟨hskipped, -⟩
    · obtain ⟨r, hr, hrest⟩ := hrecord.record
      have hrecord' : Remembers dev' hash (some replaced.hex) (events.any Event.settles) :=
        ⟨hbase.trans hrecord.lastSyncedHash, r, hstate.trans hr, hrest⟩
      have hdiffer : (some remote).map (·.hash) ≠ some hash.hex := by
        rw [Option.map_some, hremote]
        intro hsame
        obtain ⟨hex, _⟩ := hash
        obtain ⟨hex', _⟩ := replaced
        obtain rfl := Option.some.inj hsame
        exact hne rfl
      rw [heq]
      unfold Device.compare
      rw [h.disk, h.index]
      dsimp only
      rw [beginCandidate_eq (hstate.trans hr), if_neg hdiffer]
      exact hrecord'.decide hne hremote h.lineage h.beside _ _ _
    · rw [hcompares] at hskipped
      cases hskipped

def olderDigest : Digest := ⟨List.replicate 64 48, rfl⟩

def newerDigest : Digest := ⟨List.replicate 64 49, rfl⟩

def freshDevice : Device := ⟨some none, none, false, false, false, false, false⟩

def olderEntry : VersionedEntry := BinarySync.Device.published olderDigest none

def newerEntry : VersionedEntry := BinarySync.Device.published newerDigest (some olderEntry)

def quiet (remote : VersionedEntry) : Circumstances where
  destroyed := false
  tracked := true
  ignored := false
  movingAway := false
  pullingMissingRemote := false
  paused := false
  disk := .present newerDigest
  destroyedSince := false
  pausedSince := false
  remote := some remote
  pendingLocalRemoval := false

theorem lostPublish_older (events : List Event) (hagrees : ∀ e ∈ events, e.Agrees newerDigest) :
    LostPublish freshDevice newerDigest newerEntry events (quiet olderEntry) olderEntry :=
  ⟨rfl, hagrees, rfl, rfl, rfl, by decide⟩

/-- The app quits behind the publish, and the index comes back without it. -/
theorem lost_publish_queued_again :
    ((freshDevice.after newerEntry [.restart none]).reconcileNow (quiet olderEntry)).1 =
      .queueLocalUpload (some olderDigest.hex) newerDigest.hex :=
  (lost_publish_not_reverted freshDevice newerDigest newerEntry [.restart none]
    (quiet olderEntry) olderEntry
    (lostPublish_older _ fun _ he => by rw [List.mem_singleton.mp he]; trivial)).2
    olderDigest rfl (by decide) rfl rfl rfl

/-- The reconcile that the publish itself sets off drops what would queue it again. -/
theorem not_lost_publish_queued_again :
    ¬∀ (dev : Device) (hash : Digest) (entry : VersionedEntry) (events : List Event)
      (c : Circumstances) (remote : VersionedEntry), LostPublish dev hash entry events c remote →
      (∀ other expected,
        ((dev.after entry events).reconcileNow c).1 ≠ .downloadToDisk other expected) ∧
      ∀ replaced : Digest, entry.prev = some (some replaced.hex) → replaced ≠ hash →
        remote.hash = replaced.hex → dev.localSyncState.isSome → c.compares = true →
        ((dev.after entry events).reconcileNow c).1 =
          .queueLocalUpload (some replaced.hex) hash.hex := by
  intro h
  let own : Event := .reconcile (quiet newerEntry)
  have hagrees : ∀ e ∈ [own], e.Agrees newerDigest := by
    intro e he
    obtain rfl := List.mem_singleton.mp he
    exact ⟨.inl rfl, rfl⟩
  have hqueued := (h freshDevice newerDigest newerEntry [own] (quiet olderEntry) olderEntry
    (lostPublish_older _ hagrees)).2 olderDigest rfl (by decide) rfl rfl rfl
  have hasked : ((freshDevice.after newerEntry [own]).reconcileNow (quiet olderEntry)).1 =
      .resolveConflict := by decide
  rw [hasked] at hqueued
  cases hqueued

end Realtime.Vault.BinarySync
