import Realtime.Lib.Assoc
import Realtime.Vault.LocalSyncState

/-!
# Where an acknowledgement comes from

All records of a device, under any sequence of the operations of `LocalSyncState`. A
record is followed from path to path; it ends when it is removed, when another one is
moved onto its path, or when the index epoch is rewound.

A fingerprint that is returned as acknowledged, or as the one of the file on disk, was
recorded for that record, and the record has had the same identity ever since
(`LocalSyncState.Since`). No other operation than the two that record an acknowledgement
ends a candidate.
-/

namespace Realtime.Vault

open Lib

variable {π ι : Type} [DecidableEq π]

/-- Identities and fingerprints are both strings: what is published is its own
identity. -/
structure LocalSyncState (π ι : Type) where
  paths : List (π × LocalPathState ι ι)
  indexEpoch : Option Nat

/-- The calls that change the state of a path. -/
inductive LocalSyncOp (π ι : Type) where
  | mark (path : π) (kind : MaterializedKind)
  | beginCandidate (path : π) (kind : MaterializedKind) (identity : Option ι)
      (candidateFingerprint : Option ι)
  | migrateLegacyIdentity (path : π) (kind : MaterializedKind) (identity : ι)
  | commit (path : π) (kind : MaterializedKind) (identity : ι)
  | markSynced (path : π) (kind : MaterializedKind) (identity fingerprint : ι)
      (reconciled : Bool)
  | markPublished (path : π) (kind : MaterializedKind) (identity : ι)
      (replacedIdentity : Option ι)
  | markDisk (path : π) (kind : MaterializedKind) (identity : ι) (diskFingerprint : Nat × ι)
  | remove (path : π)
  | move (source target : π) (kind : MaterializedKind)
  | adoptIndexEpoch (epoch : Nat)

namespace LocalSyncState

def get (s : LocalSyncState π ι) (path : π) : Option (LocalPathState ι ι) :=
  Assoc.get path s.paths

def set (s : LocalSyncState π ι) (path : π) (record : LocalPathState ι ι) : LocalSyncState π ι :=
  { s with paths := Assoc.set path record s.paths }

/-- `set`, where there is something to write. -/
def put (s : LocalSyncState π ι) (path : π) (record : Option (LocalPathState ι ι)) :
    LocalSyncState π ι :=
  match record with
  | some record => s.set path record
  | none => s

def remove (s : LocalSyncState π ι) (path : π) : LocalSyncState π ι :=
  { s with paths := Assoc.erase path s.paths }

section

variable {s : LocalSyncState π ι} {path q : π}

@[simp] theorem get_set (c : LocalPathState ι ι) :
    (s.set path c).get q = if path = q then some c else s.get q := Assoc.get_set q path c s.paths

@[simp] theorem get_remove : (s.remove path).get q = if path = q then none else s.get q :=
  Assoc.get_erase q path s.paths

theorem get_put (record : Option (LocalPathState ι ι)) (h : s.get path ≠ none → record ≠ none)
    (hnone : s.get path = none → record = none) :
    (s.put path record).get q = if path = q then record else s.get q := by
  cases record with
  | some c => exact get_set c
  | none =>
      rw [put]
      split
      · next heq =>
          rw [← heq]
          by_contra hsome
          exact h hsome rfl
      · rfl

end

variable [DecidableEq ι]

/-- The recorded epoch is higher. -/
def rewound (s : LocalSyncState π ι) (epoch : Nat) : Bool :=
  match s.indexEpoch with
  | some recorded => epoch < recorded
  | none => false

def step (s : LocalSyncState π ι) : LocalSyncOp π ι → LocalSyncState π ι
  | .mark path kind => s.set path (.mark kind (s.get path))
  | .beginCandidate path kind identity candidateFingerprint =>
      s.set path (.beginCandidate kind identity candidateFingerprint (s.get path))
  | .migrateLegacyIdentity path kind identity =>
      s.put path (LocalPathState.migrateLegacyIdentity kind identity (s.get path))
  | .commit path kind identity => s.set path (.commit kind identity (s.get path))
  | .markSynced path kind identity fingerprint reconciled =>
      s.set path (.markSynced kind identity fingerprint reconciled (s.get path))
  | .markPublished path kind identity replacedIdentity =>
      s.set path (.markPublished kind identity identity replacedIdentity (s.get path))
  | .markDisk path kind identity diskFingerprint =>
      s.put path (LocalPathState.markDisk kind identity diskFingerprint (s.get path))
  | .remove path => s.remove path
  | .move source target kind => (s.remove source).set target (.moved kind (s.get source))
  | .adoptIndexEpoch epoch =>
      { paths := if s.rewound epoch then [] else s.paths, indexEpoch := some epoch }

def run (s : LocalSyncState π ι) (ops : List (LocalSyncOp π ι)) : LocalSyncState π ι :=
  ops.foldl step s

def acknowledgedFingerprint (s : LocalSyncState π ι) (path : π) (identity : ι) : Option ι :=
  LocalPathState.acknowledgedFingerprint identity (s.get path)

def diskFingerprint (s : LocalSyncState π ι) (path : π) (identity : ι) : Option (Nat × ι) :=
  LocalPathState.diskFingerprintFor identity (s.get path)

/-- A state with nothing but records of before there were identities. -/
def Fresh (s : LocalSyncState π ι) : Prop :=
  ∀ path c, s.get path = some c → c = { kind := c.kind }

/-! ## Following a record -/

/-- Where the record of a path is after an operation, if it is still there. -/
def follow (s : LocalSyncState π ι) (path : π) : LocalSyncOp π ι → Option π
  | .remove removed => if removed = path then none else some path
  | .move source target _ =>
      if source = path then some target else if target = path then none else some path
  | .adoptIndexEpoch epoch => if s.rewound epoch then none else some path
  | _ => some path

/-- The record of `path` becomes that of `last` over the operations and has this
identity throughout. -/
inductive Keeps (identity : ι) : LocalSyncState π ι → π → List (LocalSyncOp π ι) → π → Prop
  | refl {s : LocalSyncState π ι} {path : π} {c : LocalPathState ι ι} :
      s.get path = some c → c.identity = some (some identity) → Keeps identity s path [] path
  | cons {s : LocalSyncState π ι} {path next last : π} {c : LocalPathState ι ι}
      {op : LocalSyncOp π ι} {ops : List (LocalSyncOp π ι)} :
      s.get path = some c → c.identity = some (some identity) → s.follow path op = some next →
        Keeps identity (s.step op) next ops last → Keeps identity s path (op :: ops) last

/-- Some operation of the run recorded it for a path, and its record has kept the
identity to the end of the run, where it is that of `path`. -/
def Since (s : LocalSyncState π ι) (ops : List (LocalSyncOp π ι)) (path : π) (identity : ι)
    (recorded : LocalSyncOp π ι → π → Prop) : Prop :=
  ∃ before op after start, ops = before ++ op :: after ∧ recorded op start ∧
    Keeps identity (s.run (before ++ [op])) start after path

/-- The operation records an acknowledged fingerprint of the path. -/
inductive Acknowledges (path : π) (identity fingerprint : ι) : LocalSyncOp π ι → Prop
  | synced (kind : MaterializedKind) (reconciled : Bool) :
      Acknowledges path identity fingerprint (.markSynced path kind identity fingerprint reconciled)
  | published (kind : MaterializedKind) (replacedIdentity : Option ι) :
      identity = fingerprint →
        Acknowledges path identity fingerprint (.markPublished path kind identity replacedIdentity)

/-- The operation records the file on disk of the path. -/
inductive Stores (path : π) (identity : ι) (fingerprint : Nat × ι) : LocalSyncOp π ι → Prop
  | disk (kind : MaterializedKind) :
      Stores path identity fingerprint (.markDisk path kind identity fingerprint)

def AcknowledgedSince (s : LocalSyncState π ι) (ops : List (LocalSyncOp π ι)) (path : π)
    (identity fingerprint : ι) : Prop :=
  s.Since ops path identity fun op start => Acknowledges start identity fingerprint op

def StoredSince (s : LocalSyncState π ι) (ops : List (LocalSyncOp π ι)) (path : π)
    (identity : ι) (fingerprint : Nat × ι) : Prop :=
  s.Since ops path identity fun op start => Stores start identity fingerprint op

/-! ## One step -/

/-- What an operation makes of the record that ends up at `q`: it is the one followed
there, changed by the operation, or a new one where there was none. -/
inductive Effect (s : LocalSyncState π ι) (op : LocalSyncOp π ι) (q : π) :
    Option (LocalPathState ι ι) → Prop
  | gone : Effect s op q none
  | same : s.follow q op = some q → Effect s op q (s.get q)
  | mark (kind : MaterializedKind) : op = .mark q kind →
      Effect s op q (some (.mark kind (s.get q)))
  | beginCandidate (kind : MaterializedKind) (identity : Option ι)
      (candidateFingerprint : Option ι) :
      op = .beginCandidate q kind identity candidateFingerprint →
      Effect s op q (some (.beginCandidate kind identity candidateFingerprint (s.get q)))
  | migrateLegacyIdentity (kind : MaterializedKind) (identity : ι) :
      op = .migrateLegacyIdentity q kind identity →
      Effect s op q (LocalPathState.migrateLegacyIdentity kind identity (s.get q))
  | commit (kind : MaterializedKind) (identity : ι) : op = .commit q kind identity →
      Effect s op q (some (.commit kind identity (s.get q)))
  | markSynced (kind : MaterializedKind) (identity fingerprint : ι) (reconciled : Bool) :
      op = .markSynced q kind identity fingerprint reconciled →
      Effect s op q (some (.markSynced kind identity fingerprint reconciled (s.get q)))
  | markPublished (kind : MaterializedKind) (identity : ι) (replacedIdentity : Option ι) :
      op = .markPublished q kind identity replacedIdentity →
      Effect s op q (some (.markPublished kind identity identity replacedIdentity (s.get q)))
  | markDisk (kind : MaterializedKind) (identity : ι) (diskFingerprint : Nat × ι) :
      op = .markDisk q kind identity diskFingerprint →
      Effect s op q (LocalPathState.markDisk kind identity diskFingerprint (s.get q))
  | moved (source : π) (kind : MaterializedKind) : op = .move source q kind →
      Effect s op q (some (.moved kind (s.get source)))

theorem effect_step (s : LocalSyncState π ι) (op : LocalSyncOp π ι) (q : π) :
    Effect s op q ((s.step op).get q) := by
  cases op with
  | mark path kind =>
      rw [step, get_set]
      split
      · next h => exact h ▸ .mark kind rfl
      · exact .same rfl
  | beginCandidate path kind identity fingerprint =>
      rw [step, get_set]
      split
      · next h => exact h ▸ .beginCandidate kind identity fingerprint rfl
      · exact .same rfl
  | migrateLegacyIdentity path kind identity =>
      rw [step, get_put]
      · split
        · next h => exact h ▸ .migrateLegacyIdentity kind identity rfl
        · exact .same rfl
      · cases s.get path with
        | none => exact fun h => absurd rfl h
        | some c =>
            simp only [LocalPathState.migrateLegacyIdentity]
            split <;> exact fun _ => Option.some_ne_none _
      · exact fun h => by rw [h]; rfl
  | commit path kind identity =>
      rw [step, get_set]
      split
      · next h => exact h ▸ .commit kind identity rfl
      · exact .same rfl
  | markSynced path kind identity fingerprint reconciled =>
      rw [step, get_set]
      split
      · next h => exact h ▸ .markSynced kind identity fingerprint reconciled rfl
      · exact .same rfl
  | markPublished path kind identity replaced =>
      rw [step, get_set]
      split
      · next h => exact h ▸ .markPublished kind identity replaced rfl
      · exact .same rfl
  | markDisk path kind identity fingerprint =>
      rw [step, get_put]
      · split
        · next h => exact h ▸ .markDisk kind identity fingerprint rfl
        · exact .same rfl
      · cases s.get path with
        | none => exact fun h => absurd rfl h
        | some c =>
            simp only [LocalPathState.markDisk]
            split <;> exact fun _ => Option.some_ne_none _
      · exact fun h => by rw [h]; rfl
  | remove path =>
      rw [step, get_remove]
      split
      · exact .gone
      · next h => exact .same (if_neg h)
  | move source target kind =>
      rw [step, get_set, get_remove]
      split
      · next h => exact h ▸ .moved source kind rfl
      · next h =>
          split
          · exact .gone
          · next h' => exact .same ((if_neg h').trans (if_neg h))
  | adoptIndexEpoch epoch =>
      show Effect s _ q (Assoc.get q (if s.rewound epoch then [] else s.paths))
      split
      · exact .gone
      · next h => exact .same (if_neg h)

/-! ## Acknowledgements over a run -/

section

variable {s : LocalSyncState π ι} {ops : List (LocalSyncOp π ι)} {op : LocalSyncOp π ι}
  {path q : π} {identity : ι} {c : LocalPathState ι ι}
  {recorded : LocalSyncOp π ι → π → Prop}

theorem run_append (s : LocalSyncState π ι) (ops ops' : List (LocalSyncOp π ι)) :
    s.run (ops ++ ops') = (s.run ops).run ops' := List.foldl_append

theorem Keeps.snoc (h : Keeps identity s path ops q) {next : π}
    (hfollow : (s.run ops).follow q op = some next)
    (hget : ((s.run ops).step op).get next = some c) (hid : c.identity = some (some identity)) :
    Keeps identity s path (ops ++ [op]) next := by
  induction h with
  | refl hstart hidstart => exact .cons hstart hidstart hfollow (.refl hget hid)
  | cons hstart hidstart hnext _ ih => exact .cons hstart hidstart hnext (ih hfollow hget)

/-- One more operation that the record outlives with its identity. -/
theorem Since.carry (h : s.Since ops path identity recorded)
    (hfollow : (s.run ops).follow path op = some q)
    (hget : (s.run (ops ++ [op])).get q = some c) (hid : c.identity = some (some identity)) :
    s.Since (ops ++ [op]) q identity recorded := by
  obtain ⟨before, first, after, start, rfl, hrecorded, hkeeps⟩ := h
  have hrun : s.run (before ++ first :: after) = (s.run (before ++ [first])).run after := by
    rw [← run_append, List.append_assoc]
    rfl
  rw [hrun] at hfollow
  rw [run_append, hrun] at hget
  refine ⟨before, first, after ++ [op], start, by simp, hrecorded, hkeeps.snoc hfollow hget hid⟩

/-- The operation itself recorded it. -/
theorem since_of_recorded (h : recorded op q) (hget : (s.run (ops ++ [op])).get q = some c)
    (hid : c.identity = some (some identity)) : s.Since (ops ++ [op]) q identity recorded :=
  ⟨ops, op, [], q, rfl, h, .refl hget hid⟩

/-- All that the records say was recorded for them. -/
def Genuine (s : LocalSyncState π ι) (ops : List (LocalSyncOp π ι)) : Prop :=
  ∀ q, LocalPathState.SoundAt (s.AcknowledgedSince ops q) (s.StoredSince ops q) ((s.run ops).get q)

/-- The record at `q` is the one that was at `path`, and holds nothing but what that one
held or what the operation recorded. -/
theorem genuine_of_effect (hget : (s.run (ops ++ [op])).get q = some c)
    (hfollow : (s.run ops).follow path op = some q)
    (h : c.Sound (fun i f => s.AcknowledgedSince ops path i f ∨ Acknowledges q i f op)
      (fun i f => s.StoredSince ops path i f ∨ Stores q i f op)) :
    c.Sound (s.AcknowledgedSince (ops ++ [op]) q) (s.StoredSince (ops ++ [op]) q) := by
  refine ⟨h.legacy, fun i f hid hcand hf => ?_, fun i f hid hf => ?_⟩
  · rcases h.acked i f hid hcand hf with hold | hnew
    · exact Since.carry hold hfollow hget hid
    · exact since_of_recorded hnew hget hid
  · rcases h.stored i f hid hf with hold | hnew
    · exact Since.carry hold hfollow hget hid
    · exact since_of_recorded hnew hget hid

theorem Genuine.step (h : s.Genuine ops) (op : LocalSyncOp π ι) : s.Genuine (ops ++ [op]) := by
  intro q
  have hold : ∀ path, LocalPathState.SoundAt
      (fun i f => s.AcknowledgedSince ops path i f ∨ Acknowledges q i f op)
      (fun i f => s.StoredSince ops path i f ∨ Stores q i f op) ((s.run ops).get path) :=
    fun path => (h path).mono (fun _ _ => Or.inl) fun _ _ => Or.inl
  have heffect := effect_step (s.run ops) op q
  have hget : (s.run (ops ++ [op])).get q = ((s.run ops).step op).get q := by
    rw [run_append]
    rfl
  rw [← hget] at heffect
  generalize (s.run (ops ++ [op])).get q = record at heffect hget ⊢
  have hsound : ∀ {path : π}, (s.run ops).follow path op = some q →
      LocalPathState.SoundAt (fun i f => s.AcknowledgedSince ops path i f ∨ Acknowledges q i f op)
        (fun i f => s.StoredSince ops path i f ∨ Stores q i f op) record →
      LocalPathState.SoundAt (s.AcknowledgedSince (ops ++ [op]) q)
        (s.StoredSince (ops ++ [op]) q) record := by
    intro path hfollow hrecord c hc
    refine genuine_of_effect ?_ hfollow (hrecord c hc)
    rw [run_append]
    exact hget.symm.trans hc
  cases heffect with
  | gone => exact LocalPathState.soundAt_none
  | same hfollow => exact hsound hfollow (hold q)
  | mark kind hop =>
      subst hop
      exact hsound rfl (LocalPathState.soundAt_some.mpr (hold q).mark)
  | beginCandidate kind identity fingerprint hop =>
      subst hop
      exact hsound rfl (LocalPathState.soundAt_some.mpr (hold q).beginCandidate)
  | migrateLegacyIdentity kind identity hop =>
      subst hop
      exact hsound rfl (hold q).migrateLegacyIdentity
  | commit kind identity hop =>
      subst hop
      exact hsound rfl (LocalPathState.soundAt_some.mpr (hold q).commit)
  | markSynced kind identity fingerprint reconciled hop =>
      subst hop
      exact hsound rfl (LocalPathState.soundAt_some.mpr
        ((hold q).markSynced (Or.inr (.synced kind reconciled))))
  | markPublished kind identity replaced hop =>
      subst hop
      exact hsound rfl (LocalPathState.soundAt_some.mpr
        ((hold q).markPublished (Or.inr (.published kind replaced rfl))))
  | markDisk kind identity fingerprint hop =>
      subst hop
      exact hsound rfl ((hold q).markDisk (Or.inr (.disk kind)))
  | moved source kind hop =>
      subst hop
      exact hsound (if_pos rfl) (LocalPathState.soundAt_some.mpr (hold source).moved)

theorem genuine_run (h : s.Fresh) (ops : List (LocalSyncOp π ι)) : s.Genuine ops := by
  induction ops using List.reverseRecOn with
  | nil =>
      intro q c hget
      rw [h q c hget]
      exact ⟨fun _ => ⟨rfl, rfl⟩, nofun, nofun⟩
  | append_singleton ops op ih => exact ih.step op

end

/-! ## Candidates over a run -/

/-- What ends the candidate that the record of `path` is. -/
inductive Ends (s : LocalSyncState π ι) (path : π) (c : LocalPathState ι ι) :
    LocalSyncOp π ι → Prop
  | reconciled (kind : MaterializedKind) (identity fingerprint : ι) :
      Ends s path c (.markSynced path kind identity fingerprint true)
  | matched (kind : MaterializedKind) (identity fingerprint : ι) (reconciled : Bool) :
      c.candidateFingerprint = some fingerprint →
        Ends s path c (.markSynced path kind identity fingerprint reconciled)
  | published (kind : MaterializedKind) (identity : ι) (replacedIdentity : Option ι) :
      Ends s path c (.markPublished path kind identity replacedIdentity)
  /-- The record is removed, or replaced by one that is moved there. -/
  | removed {op : LocalSyncOp π ι} : s.follow path op = none → Ends s path c op

/-- The record of `path` is a candidate, and stays one over the operations until one of
them ends it. -/
inductive CandidateUntil : LocalSyncState π ι → π → List (LocalSyncOp π ι) → Prop
  | done {s : LocalSyncState π ι} {path : π} {c : LocalPathState ι ι} :
      s.get path = some c → c.candidate = true → CandidateUntil s path []
  | ended {s : LocalSyncState π ι} {path : π} {c : LocalPathState ι ι} {op : LocalSyncOp π ι}
      {ops : List (LocalSyncOp π ι)} :
      s.get path = some c → c.candidate = true → Ends s path c op →
        CandidateUntil s path (op :: ops)
  | cons {s : LocalSyncState π ι} {path next : π} {c : LocalPathState ι ι}
      {op : LocalSyncOp π ι} {ops : List (LocalSyncOp π ι)} :
      s.get path = some c → c.candidate = true → s.follow path op = some next →
        CandidateUntil (s.step op) next ops → CandidateUntil s path (op :: ops)

/-- A record of before there were identities is no candidate. -/
def Identified (s : LocalSyncState π ι) : Prop :=
  ∀ path c, s.get path = some c → c.identity = none → c.candidate = false

omit [DecidableEq ι] in
theorem Fresh.identified {s : LocalSyncState π ι} (h : s.Fresh) : s.Identified := by
  intro path c hget _
  rw [h path c hget]

section

variable {s : LocalSyncState π ι} {path : π} {c : LocalPathState ι ι}

theorem Identified.step (h : s.Identified) (op : LocalSyncOp π ι) : (s.step op).Identified := by
  intro q c hget hid
  have heffect := effect_step s op q
  generalize (s.step op).get q = record at heffect hget
  cases heffect with
  | gone => cases hget
  | same => exact h q c hget hid
  | mark kind hop =>
      obtain rfl := Option.some.inj hget
      cases hq : s.get q with
      | none => rfl
      | some c =>
          rw [hq] at hid
          exact h q c hq hid
  | beginCandidate kind identity fingerprint hop =>
      obtain rfl := Option.some.inj hget
      cases hq : s.get q with
      | none =>
          rw [hq] at hid
          cases hid
      | some c =>
          rw [hq] at hid
          simp only [LocalPathState.beginCandidate] at hid ⊢
          split at hid
          · next hsame =>
              rw [if_pos hsame]
              exact h q c hq hid
          · cases hid
  | migrateLegacyIdentity kind identity hop =>
      cases hq : s.get q with
      | none =>
          rw [hq] at hget
          cases hget
      | some c =>
          rw [hq] at hget
          simp only [LocalPathState.migrateLegacyIdentity] at hget
          split at hget
          · obtain rfl := Option.some.inj hget
            exact h q _ hq hid
          · obtain rfl := Option.some.inj hget
            cases hid
  | commit kind identity hop =>
      obtain rfl := Option.some.inj hget
      cases hid
  | markSynced kind identity fingerprint reconciled hop =>
      obtain rfl := Option.some.inj hget
      cases hid
  | markPublished kind identity replaced hop =>
      obtain rfl := Option.some.inj hget
      cases hid
  | markDisk kind identity fingerprint hop =>
      cases hq : s.get q with
      | none =>
          rw [hq] at hget
          cases hget
      | some c =>
          rw [hq] at hget
          simp only [LocalPathState.markDisk] at hget
          split at hget
          · obtain rfl := Option.some.inj hget
            exact h q _ hq hid
          · obtain rfl := Option.some.inj hget
            exact h q c hq hid
  | moved source kind hop =>
      obtain rfl := Option.some.inj hget
      cases hq : s.get source with
      | none =>
          rw [hq] at hid
          cases hid
      | some c =>
          rw [hq] at hid
          exact h source c hq hid

theorem Identified.run (h : s.Identified) (ops : List (LocalSyncOp π ι)) :
    (s.run ops).Identified := by
  induction ops generalizing s with
  | nil => exact h
  | cons op ops ih => exact ih (h.step op)

omit [DecidableEq ι] in
theorem candidate_set {q : π} {r : LocalPathState ι ι} (hget : s.get path = some c)
    (hcand : c.candidate = true) (h : q = path → r.candidate = true) :
    ∃ c', (s.set q r).get path = some c' ∧ c'.candidate = true := by
  rw [get_set]
  split
  · next heq => exact ⟨r, rfl, h heq⟩
  · exact ⟨c, hget, hcand⟩

/-- The record of a candidate after `beginCandidate` is one still. -/
theorem candidate_beginCandidate (kind : MaterializedKind) (identity : Option ι)
    (fingerprint : Option ι) (current : Option (LocalPathState ι ι)) :
    (LocalPathState.beginCandidate kind identity fingerprint current).candidate = true := by
  cases current with
  | none => rfl
  | some c =>
      simp only [LocalPathState.beginCandidate]
      split
      · next h => exact h.2.2.1
      · rfl

/-- An operation ends a candidate, or leaves it a candidate where it puts it. -/
theorem candidate_step (hid : s.Identified) (hget : s.get path = some c)
    (hcand : c.candidate = true) (op : LocalSyncOp π ι) :
    Ends s path c op ∨ ∃ next c', s.follow path op = some next ∧
      (s.step op).get next = some c' ∧ c'.candidate = true := by
  cases op with
  | mark q kind =>
      have hmark : q = path → (LocalPathState.mark kind (s.get q)).candidate = true := by
        intro heq
        rw [heq, hget]
        exact hcand
      obtain ⟨c', hc'⟩ := candidate_set hget hcand hmark
      exact Or.inr ⟨path, c', rfl, hc'⟩
  | beginCandidate q kind identity fingerprint =>
      obtain ⟨c', hc'⟩ := candidate_set hget hcand fun (_ : q = path) =>
        candidate_beginCandidate kind identity fingerprint (s.get q)
      exact Or.inr ⟨path, c', rfl, hc'⟩
  | migrateLegacyIdentity q kind identity =>
      refine Or.inr ⟨path, c, rfl, ?_, hcand⟩
      show (s.put q (LocalPathState.migrateLegacyIdentity kind identity (s.get q))).get path = _
      -- a candidate has an identity, so the migration leaves its record alone
      have hsome : c.identity.isSome = true := by
        by_contra hnone
        rw [hid path c hget (by simpa using hnone)] at hcand
        cases hcand
      cases hq : s.get q with
      | none => exact hget
      | some c' =>
          by_cases hpath : q = path
          · obtain rfl : c' = c := Option.some.inj (hq.symm.trans (hpath ▸ hget))
            simp only [LocalPathState.migrateLegacyIdentity, hsome, if_true, put, get_set, hpath]
          · simp only [LocalPathState.migrateLegacyIdentity]
            split <;> simpa only [put, get_set, if_neg hpath] using hget
  | commit q kind identity =>
      have hcommit : q = path →
          (LocalPathState.commit kind identity (s.get q)).candidate = true := by
        intro heq
        rw [heq, hget]
        exact hcand
      obtain ⟨c', hc'⟩ := candidate_set hget hcand hcommit
      exact Or.inr ⟨path, c', rfl, hc'⟩
  | markSynced q kind identity fingerprint reconciled =>
      by_cases hq : q = path
      · subst hq
        cases reconciled with
        | true => exact Or.inl (.reconciled kind identity fingerprint)
        | false =>
            by_cases hf : c.candidateFingerprint = some fingerprint
            · exact Or.inl (.matched kind identity fingerprint false hf)
            · refine Or.inr ⟨q, _, rfl, (get_set _).trans (if_pos rfl), ?_⟩
              simp [LocalPathState.markSynced, hget, hcand, hf]
      · obtain ⟨c', hc'⟩ := candidate_set hget hcand
          (r := LocalPathState.markSynced kind identity fingerprint reconciled (s.get q))
          (fun heq => absurd heq hq)
        exact Or.inr ⟨path, c', rfl, hc'⟩
  | markPublished q kind identity replaced =>
      by_cases hq : q = path
      · exact Or.inl (hq ▸ .published kind identity replaced)
      · obtain ⟨c', hc'⟩ := candidate_set hget hcand
          (r := LocalPathState.markPublished kind identity identity replaced (s.get q))
          (fun heq => absurd heq hq)
        exact Or.inr ⟨path, c', rfl, hc'⟩
  | markDisk q kind identity fingerprint =>
      refine Or.inr ⟨path, ?_⟩
      show ∃ c', some path = some path ∧ (s.put q
        (LocalPathState.markDisk kind identity fingerprint (s.get q))).get path = some c' ∧ _
      cases hq : s.get q with
      | none => exact ⟨c, rfl, hget, hcand⟩
      | some c' =>
          -- whether it is written or not, the record keeps its candidate flag
          obtain ⟨r, hr, hrc⟩ : ∃ r, LocalPathState.markDisk kind identity fingerprint (some c') =
              some r ∧ r.candidate = c'.candidate := by
            simp only [LocalPathState.markDisk]
            split <;> exact ⟨_, rfl, rfl⟩
          have hkeep : q = path → r.candidate = true := by
            intro heq
            obtain rfl : c' = c := Option.some.inj (hq.symm.trans (heq ▸ hget))
            rw [hrc, hcand]
          rw [hr]
          obtain ⟨c'', hc''⟩ := candidate_set hget hcand hkeep
          exact ⟨c'', rfl, hc''⟩
  | remove q =>
      by_cases hq : q = path
      · exact Or.inl (.removed (if_pos hq))
      · exact Or.inr ⟨path, c, if_neg hq, get_remove.trans ((if_neg hq).trans hget), hcand⟩
  | move source target kind =>
      by_cases hsource : source = path
      · refine Or.inr ⟨target, _, if_pos hsource, (get_set _).trans (if_pos rfl), ?_⟩
        rw [hsource, hget]
        exact hcand
      · by_cases htarget : target = path
        · exact Or.inl (.removed ((if_neg hsource).trans (if_pos htarget)))
        · refine Or.inr ⟨path, c, (if_neg hsource).trans (if_neg htarget), ?_, hcand⟩
          rw [step, get_set, if_neg htarget, get_remove, if_neg hsource, hget]
  | adoptIndexEpoch epoch =>
      by_cases hrewound : s.rewound epoch = true
      · exact Or.inl (.removed (if_pos hrewound))
      · refine Or.inr ⟨path, c, if_neg hrewound, ?_, hcand⟩
        show Assoc.get path (if s.rewound epoch then [] else s.paths) = some c
        rw [if_neg hrewound]
        exact hget

theorem candidateUntil (hid : s.Identified) (hget : s.get path = some c)
    (hcand : c.candidate = true) (ops : List (LocalSyncOp π ι)) : s.CandidateUntil path ops := by
  induction ops generalizing s path c with
  | nil => exact .done hget hcand
  | cons op ops ih =>
      rcases candidate_step hid hget hcand op with hends | ⟨next, c', hfollow, hget', hcand'⟩
      · exact .ended hget hcand hends
      · exact .cons hget hcand hfollow (ih (hid.step op) hget' hcand')

end

/-- What is returned as acknowledged, and as the file on disk, was recorded for the record
of the path under the identity asked for; a candidate stays one until it is confirmed,
published or removed. -/
theorem acknowledgements_genuine (s : LocalSyncState π ι) (h : s.Fresh)
    (ops : List (LocalSyncOp π ι)) :
    (∀ path identity f, (s.run ops).acknowledgedFingerprint path identity = some f →
      s.AcknowledgedSince ops path identity f) ∧
    (∀ path identity d, (s.run ops).diskFingerprint path identity = some d →
      s.StoredSince ops path identity d) ∧
    ∀ path c later, (s.run ops).get path = some c → c.candidate = true →
      (s.run ops).CandidateUntil path later := by
  refine ⟨fun path identity f hf => ?_, fun path identity d hd => ?_,
    fun path c later hget hcand => ?_⟩
  · exact (genuine_run h ops path).acknowledgedFingerprint hf
  · exact (genuine_run h ops path).diskFingerprintFor hd
  · exact candidateUntil (h.identified.run ops) hget hcand later

/-- A record that is confirmed and then moved. -/
theorem acknowledgements_genuine_moved :
    let s : LocalSyncState Nat Nat := ⟨[(1, { kind := .doc .text })], none⟩
    let ops : List (LocalSyncOp Nat Nat) :=
      [.beginCandidate 1 (.doc .text) (some 7) (some 5),
        .markSynced 1 (.doc .text) 7 5 false, .move 1 2 (.doc .text)]
    (s.run ops).acknowledgedFingerprint 2 7 = some 5 ∧ s.AcknowledgedSince ops 2 7 5 := by
  intro s ops
  have hfresh : s.Fresh := by
    intro path c hget
    simp only [get, s, Assoc.get] at hget
    split at hget
    · obtain rfl := Option.some.inj hget
      rfl
    · cases hget
  have hacked : (s.run ops).acknowledgedFingerprint 2 7 = some 5 := by decide
  exact ⟨hacked, (acknowledgements_genuine s hfresh ops).1 2 7 5 hacked⟩

end LocalSyncState

end Realtime.Vault
