import Realtime.Cli.Sync
import Realtime.Lib.Keyed

/-!
# What a pull does to a path

Each path of the listing, and then each of the snapshot, is looked at once, and what is done
there depends on nothing but that path: its node in the folder, its entry, what is listed.
The one exception is the prototype of the snapshot, which an entry for `__proto__` becomes.
-/

namespace Realtime.Cli

open Lib Lib.Utf16 Lib.Json
open Lib.Js (dunderProto prototypeNames)

variable {ν η : Type} (S : Setup ν η)

/-! ## The three sides -/

section

variable (vault : Vault ν) (folder : Folder) (files : Files η) (p : JsString)

/-- The hash of what is listed at a path. -/
def remoteHash : Option η := (Assoc.get p (listRemote S vault)).map fun r => (fetchRemote S r).hash

def snapHash : Option η := (Assoc.get p files.own).map SyncFileState.hash

/-- Whether a file there would be of the scan. -/
def synced : Bool := !isExcluded p && !S.linked p && shouldSyncFile S p (kindForPath p)

/-- The hash of the file there, as far as the scan sees it. -/
def localHash : Option η :=
  match Assoc.get p folder with
  | some (.file bytes _) =>
      if synced S p then some (hashLocalContent S (kindForPath p) bytes) else none
  | _ => none

end

section

variable {vault : Vault ν} {folder : Folder} {files : Files η} {p : JsString} {r : Stored ν}

theorem listHash_eq {h : η} (hl : r.listHash S = some h) : (fetchRemote S r).hash = h := by
  cases r with
  | attachment bytes => exact Option.some.inj hl
  | note content => cases hl
  | canvas value => cases hl
  | base value => cases hl

theorem mem_listRemote : (p, r) ∈ listRemote S vault ↔
    (p, r) ∈ vault ∧ shouldSyncFile S p r.kind = true := by
  have hkind : r.kind = .attachment ∨ shouldSyncFile S p r.kind = true := by
    by_cases h : r.kind = .attachment
    · exact .inl h
    · rw [shouldSyncFile, if_pos h]
      exact .inr rfl
  simp only [listRemote, List.mem_append, List.mem_filter, decide_eq_true_eq, Bool.and_eq_true]
  constructor
  · rintro (((⟨h, hk⟩ | ⟨h, hk, hs⟩) | ⟨h, hk⟩) | ⟨h, hk⟩)
    · exact ⟨h, hkind.resolve_left (by simp [hk])⟩
    · exact ⟨h, hk ▸ hs⟩
    · exact ⟨h, hkind.resolve_left (by simp [hk])⟩
    · exact ⟨h, hkind.resolve_left (by simp [hk])⟩
  · rintro ⟨h, hs⟩
    cases hk : r.kind with
    | note => exact .inl (.inl (.inl ⟨h, rfl⟩))
    | attachment => exact .inl (.inl (.inr ⟨h, rfl, hk ▸ hs⟩))
    | canvas => exact .inl (.inr ⟨h, rfl⟩)
    | base => exact .inr ⟨h, rfl⟩

theorem wf_listRemote (h : Assoc.Wf vault) : Assoc.Wf (listRemote S vault) := by
  have hpart (P : JsString × Stored ν → Bool) : (Assoc.keys (vault.filter P)).Nodup :=
    h.sublist (List.filter_sublist.map Prod.fst)
  -- a path has one kind
  have hone {k k' : FileKind} {P Q : JsString × Stored ν → Bool}
      (hP : ∀ e, P e = true → e.2.kind = k) (hQ : ∀ e, Q e = true → e.2.kind = k')
      (hne : k ≠ k') :
      ∀ a ∈ Assoc.keys (vault.filter P), ∀ b ∈ Assoc.keys (vault.filter Q), a ≠ b := by
    rintro a ha b hb rfl
    obtain ⟨⟨p, r⟩, he, rfl⟩ := List.mem_map.mp ha
    obtain ⟨⟨p', r'⟩, he', heq⟩ := List.mem_map.mp hb
    obtain ⟨hmem, hp⟩ := List.mem_filter.mp he
    obtain ⟨hmem', hq⟩ := List.mem_filter.mp he'
    obtain rfl : p' = p := heq
    have hr := (Assoc.get_of_mem h hmem).symm.trans (Assoc.get_of_mem h hmem')
    obtain rfl := Option.some.inj hr
    exact hne ((hP _ hp).symm.trans (hQ _ hq))
  have hof (k : FileKind) : ∀ e : JsString × Stored ν, decide (e.2.kind = k) = true →
      e.2.kind = k := fun _ => of_decide_eq_true
  have hatt : ∀ e : JsString × Stored ν, (decide (e.2.kind = .attachment) &&
      shouldSyncFile S e.1 .attachment) = true → e.2.kind = .attachment := fun e he =>
    of_decide_eq_true (Bool.and_eq_true_iff.mp he).1
  rw [Assoc.Wf, listRemote]
  simp only [Assoc.keys_append, List.nodup_append, List.mem_append]
  refine ⟨⟨⟨hpart _, hpart _, hone (hof _) hatt (by decide)⟩, hpart _, ?_⟩, hpart _, ?_⟩
  · rintro a (ha | ha)
    · exact hone (hof _) (hof _) (by decide) a ha
    · exact hone hatt (hof _) (by decide) a ha
  · rintro a ((ha | ha) | ha)
    · exact hone (hof _) (hof _) (by decide) a ha
    · exact hone hatt (hof _) (by decide) a ha
    · exact hone (hof _) (hof _) (by decide) a ha

theorem get_listRemote (h : Assoc.Wf vault) : Assoc.get p (listRemote S vault) = some r ↔
    Assoc.get p vault = some r ∧ shouldSyncFile S p r.kind = true := by
  constructor
  · intro hget
    obtain ⟨hmem, hs⟩ := (mem_listRemote S).mp (Assoc.mem_of_get hget)
    exact ⟨Assoc.get_of_mem h hmem, hs⟩
  · rintro ⟨hget, hs⟩
    exact Assoc.get_of_mem (wf_listRemote S h) ((mem_listRemote S).mpr ⟨Assoc.mem_of_get hget, hs⟩)

theorem get_scanLocal (h : Assoc.Wf folder) (files : Files η) (p : JsString) :
    Assoc.get p (scanLocal S folder files) =
      (Assoc.get p folder).bind (scanNode S files p) :=
  Assoc.get_filterMapEntries h _ p

theorem wf_scanLocal (h : Assoc.Wf folder) (files : Files η) :
    Assoc.Wf (scanLocal S folder files) := Assoc.wf_filterMapEntries h _

end

/-! ## The snapshot as it is read -/

section

variable {files : Files η} {p q : JsString} {state : SyncFileState η}

theorem Snap.truthy_of_hash {snap : Snap η} {hash : η} (h : snap.hash = some hash) :
    snap.truthy = true := by
  cases snap with
  | absent => cases h
  | other => rfl
  | entry state => rfl

theorem lookup_of_get (h : Assoc.get p files.own = some state) :
    files.lookup p = .entry state := by
  rw [Files.lookup, h]

theorem lookup_hash (h : p = dunderProto → files.proto = none) :
    (files.lookup p).hash = snapHash files p := by
  rw [Files.lookup, snapHash]
  cases Assoc.get p files.own with
  | some state => rfl
  | none =>
      cases hproto : files.proto with
      | none =>
          dsimp only
          split
          · rfl
          · rfl
      | some state =>
          have hne : p ≠ dunderProto := fun he => by rw [h he] at hproto; cases hproto
          dsimp only
          rw [if_neg hne]
          split
          · rfl
          · rfl

/-- A name that something answers to without an entry. -/
def answers (proto : Option (SyncFileState η)) (p : JsString) : Prop :=
  p ∈ prototypeNames ∨ ∃ state, proto = some state ∧ state.hasField p = true

theorem lookup_truthy_iff (h : p = dunderProto → files.proto = none) :
    (files.lookup p).truthy = true ↔ snapHash files p ≠ none ∨ answers files.proto p := by
  rw [Files.lookup, snapHash, answers]
  cases Assoc.get p files.own with
  | some state => simp [Snap.truthy]
  | none =>
      cases hproto : files.proto with
      | none =>
          by_cases hname : p ∈ prototypeNames
          · simp [hname, Snap.truthy]
          · simp [hname, Snap.truthy]
      | some state =>
          have hne : p ≠ dunderProto := fun he => by rw [h he] at hproto; cases hproto
          by_cases hname : p ∈ prototypeNames
          · simp [hne, hname, Snap.truthy]
          · cases hfield : state.hasField p with
            | true => simp [hne, hfield, Snap.truthy]
            | false => simp [hne, hname, hfield, Snap.truthy]

theorem get_set_ne (h : q ≠ p) (files : Files η) (state : SyncFileState η) :
    Assoc.get p (files.set q state).own = Assoc.get p files.own := by
  rw [Files.set]
  split
  · rfl
  · exact Assoc.get_set_ne h _ _

theorem proto_set_ne (h : q ≠ dunderProto) (files : Files η) (state : SyncFileState η) :
    (files.set q state).proto = files.proto := by
  rw [Files.set, if_neg fun hall => h hall.1]

theorem wf_set (h : Assoc.Wf files.own) (p : JsString) (state : SyncFileState η) :
    Assoc.Wf (files.set p state).own := by
  rw [Files.set]
  split
  · exact h
  · exact Assoc.wf_set h

/-- An entry is kept, unless it is one for `__proto__` and the first. -/
theorem get_set_self (h : p = dunderProto → Assoc.get p files.own ≠ none)
    (state : SyncFileState η) :
    Assoc.get p (files.set p state).own = some state ∧ (files.set p state).proto = files.proto := by
  have hown : ¬(p = dunderProto ∧ p ∉ Assoc.keys files.own) := by
    rintro ⟨hp, hnew⟩
    exact h hp (Assoc.get_eq_none_iff.mpr hnew)
  rw [Files.set, if_neg hown]
  exact ⟨Assoc.get_set_self _ _ _, rfl⟩

theorem set_first (h : Assoc.get dunderProto files.own = none) (state : SyncFileState η) :
    files.set dunderProto state = { files with proto := some state } := by
  rw [Files.set, if_pos ⟨rfl, Assoc.get_eq_none_iff.mp h⟩]

end

/-! ## The scan -/

section

variable {folder : Folder} {files : Files η} {p : JsString} {bytes : Bytes} {mtimeMs : Nat}

theorem synced_iff : synced S p = true ↔
    isExcluded p = false ∧ S.linked p = false ∧ shouldSyncFile S p (kindForPath p) = true := by
  rw [synced, Bool.and_eq_true, Bool.and_eq_true, Bool.not_eq_true', Bool.not_eq_true', and_assoc]

theorem scanned_of (hfolder : Assoc.Wf folder)
    (hnode : Assoc.get p folder = some (.file bytes mtimeMs)) (hs : synced S p = true) :
    Assoc.get p (scanLocal S folder files) =
      some { kind := kindForPath p, size := bytes.length, mtimeMs,
             hash := scanHash S files p bytes mtimeMs } := by
  obtain ⟨hex, hlinked, hsync⟩ := (synced_iff S).mp hs
  rw [get_scanLocal S hfolder, hnode, Option.bind_some, scanNode, hex, hlinked,
    if_neg Bool.false_ne_true, if_neg Bool.false_ne_true, if_pos hsync]

theorem scanned_some (hfolder : Assoc.Wf folder) {l : LocalEntry η}
    (h : Assoc.get p (scanLocal S folder files) = some l) :
    ∃ bytes mtimeMs, Assoc.get p folder = some (.file bytes mtimeMs) ∧ synced S p = true ∧
      l = { kind := kindForPath p, size := bytes.length, mtimeMs,
            hash := scanHash S files p bytes mtimeMs } := by
  rw [get_scanLocal S hfolder] at h
  obtain ⟨node, hnode, hscan⟩ := Option.bind_eq_some_iff.mp h
  cases node with
  | link target => cases hscan
  | file bytes mtimeMs =>
      rw [scanNode] at hscan
      split at hscan
      · cases hscan
      next hex =>
      split at hscan
      · cases hscan
      next hlinked =>
      split at hscan
      · next hs =>
          refine ⟨bytes, mtimeMs, hnode, (synced_iff S).mpr ⟨?_, ?_, hs⟩,
            (Option.some.inj hscan).symm⟩
          · exact Bool.not_eq_true _ ▸ hex
          · exact Bool.not_eq_true _ ▸ hlinked
      · cases hscan

theorem scanned_none_iff (hfolder : Assoc.Wf folder) :
    Assoc.get p (scanLocal S folder files) = none ↔ localHash S folder p = none := by
  constructor
  · intro h
    rw [localHash]
    split
    · next bytes mtimeMs hnode =>
        split
        · next hs =>
            rw [scanned_of S hfolder hnode hs] at h
            cases h
        · rfl
    · rfl
  · intro h
    cases hl : Assoc.get p (scanLocal S folder files) with
    | none => rfl
    | some l =>
        obtain ⟨bytes, mtimeMs, hnode, hs, -⟩ := scanned_some S hfolder hl
        rw [localHash, hnode] at h
        dsimp only at h
        rw [if_pos hs] at h
        cases h

theorem localHash_of (hnode : Assoc.get p folder = some (.file bytes mtimeMs))
    (hs : synced S p = true) :
    localHash S folder p = some (hashLocalContent S (kindForPath p) bytes) := by
  rw [localHash, hnode]
  exact if_pos hs

/-- The scan has the hash of the file, unless an entry has its size and time. -/
theorem scanHash_cases (hproto : files.proto = none) (p : JsString) (bytes : Bytes)
    (mtimeMs : Nat) :
    scanHash S files p bytes mtimeMs = hashLocalContent S (kindForPath p) bytes ∨
      ∃ state, Assoc.get p files.own = some state ∧ state.size = bytes.length ∧
        state.mtimeMs = mtimeMs ∧ scanHash S files p bytes mtimeMs = state.hash := by
  rw [scanHash, Files.lookup]
  cases hget : Assoc.get p files.own with
  | none =>
      rw [hproto]
      by_cases hname : p ∈ prototypeNames
      · exact .inl (by simp only [if_pos hname])
      · exact .inl (by simp only [if_neg hname])
  | some state =>
      dsimp only
      by_cases h : state.size = bytes.length ∧ state.mtimeMs = mtimeMs
      · exact .inr ⟨state, rfl, h.1, h.2, if_pos h⟩
      · exact .inl (if_neg h)

theorem scanHash_of_new (hproto : files.proto = none) (hnew : snapHash files p = none) :
    scanHash S files p bytes mtimeMs = hashLocalContent S (kindForPath p) bytes := by
  rcases scanHash_cases S hproto p bytes mtimeMs with h | ⟨state, hget, -⟩
  · exact h
  · rw [snapHash, hget] at hnew
    cases hnew

end

/-! ## The sides of a path -/

section

variable (vault : Vault ν) (folder : Folder) (files : Files η) (p : JsString)

/-- The path changed on both sides since the snapshot, to different states. A symbolic link is
a state that no file of the vault has, and a file that the scan leaves out is none. -/
def BothChanged : Prop :=
  isExcluded p = false ∧ remoteHash S vault p ≠ snapHash files p ∧
    (localHash S folder p ≠ snapHash files p ∧ localHash S folder p ≠ remoteHash S vault p ∨
      remoteHash S vault p ≠ none ∧ ∃ target, Assoc.get p folder = some (.link target))

/-- The entry of a file has its size and time, and not its hash. -/
def Masked : Prop :=
  ∃ bytes mtimeMs state, Assoc.get p folder = some (.file bytes mtimeMs) ∧ synced S p = true ∧
    Assoc.get p files.own = some state ∧ state.size = bytes.length ∧ state.mtimeMs = mtimeMs ∧
    state.hash ≠ hashLocalContent S (kindForPath p) bytes

/-- A masked file of a path where the vault has neither what the entry nor what the file has. -/
def MaskedEdit : Prop :=
  Masked S folder files p ∧ remoteHash S vault p ≠ snapHash files p ∧
    remoteHash S vault p ≠ localHash S folder p

variable {vault folder files p}

theorem scan_facts (hfolder : Assoc.Wf folder) (hproto : files.proto = none) {l : LocalEntry η}
    (hl : Assoc.get p (scanLocal S folder files) = some l) :
    localHash S folder p ≠ none ∧ isExcluded p = false ∧
      (snapHash files p = some l.hash ∨ localHash S folder p = some l.hash) := by
  obtain ⟨bytes, mtimeMs, hnode, hs, rfl⟩ := scanned_some S hfolder hl
  rw [localHash_of S hnode hs]
  refine ⟨nofun, ((synced_iff S).mp hs).1, ?_⟩
  rcases scanHash_cases S hproto p bytes mtimeMs with h | ⟨state, hget, -, -, h⟩
  · exact .inr (congrArg some h.symm)
  · exact .inl (by rw [snapHash, hget, h]; rfl)

theorem masked_iff (hfolder : Assoc.Wf folder) (hproto : files.proto = none) :
    Masked S folder files p ↔ ∃ l, Assoc.get p (scanLocal S folder files) = some l ∧
      snapHash files p = some l.hash ∧ localHash S folder p ≠ some l.hash := by
  constructor
  · rintro ⟨bytes, mtimeMs, state, hnode, hs, hget, hsize, htime, hne⟩
    have hscan : scanHash S files p bytes mtimeMs = state.hash := by
      rw [scanHash, lookup_of_get hget]
      exact if_pos ⟨hsize, htime⟩
    refine ⟨_, scanned_of S hfolder hnode hs, ?_, ?_⟩
    · rw [snapHash, hget, hscan]
      rfl
    · rw [localHash_of S hnode hs, hscan]
      exact fun h => hne (Option.some.inj h).symm
  · rintro ⟨l, hl, hsnap, hlocal⟩
    obtain ⟨bytes, mtimeMs, hnode, hs, rfl⟩ := scanned_some S hfolder hl
    rw [localHash_of S hnode hs] at hlocal
    rcases scanHash_cases S hproto p bytes mtimeMs with h | ⟨state, hget, hsize, htime, h⟩
    · exact absurd (congrArg some h.symm) hlocal
    · exact ⟨bytes, mtimeMs, state, hnode, hs, hget, hsize, htime,
        fun he => hlocal (by rw [h, he])⟩

theorem remoteHash_of {r : Stored ν} (h : Assoc.get p (listRemote S vault) = some r) :
    remoteHash S vault p = some (fetchRemote S r).hash := by
  rw [remoteHash, h]
  rfl

end

/-! ## One path of the listing -/

section

variable [DecidableEq η]

/-- Whether the local side counts as changed. -/
def LocalChanged (snap : Snap η) (l : Option (LocalEntry η)) : Prop :=
  if snap.truthy = true then ∀ e, l = some e → snap.hash ≠ some e.hash else l.isSome = true

/-- What comes of one path of the listing, without `theirs`. -/
inductive Pulled (scanned : List (JsString × LocalEntry η)) (now : Nat) (p : JsString)
    (r : Stored ν) (st : PullState η) : Except (PullState η) (PullState η) → Prop
  | excluded : isExcluded p = true → Pulled scanned now p r st (.ok st)
  | same : isExcluded p = false → (st.files.lookup p).hash = some (fetchRemote S r).hash →
      Pulled scanned now p r st (.ok st)
  | adopted {l : LocalEntry η} {files : Files η} : isExcluded p = false →
      (st.files.lookup p).hash ≠ some (fetchRemote S r).hash →
      Assoc.get p scanned = some l → l.hash = (fetchRemote S r).hash →
      recordLocal st.folder p r.kind (fetchRemote S r).hash st.files = some files →
      Pulled scanned now p r st (.ok { st with files })
  | unreadable {l : LocalEntry η} : Assoc.get p scanned = some l →
      (Assoc.get p st.folder).bind Node.read = none → Pulled scanned now p r st (.error st)
  | conflict (reason : String) : isExcluded p = false →
      (st.files.lookup p).hash ≠ some (fetchRemote S r).hash →
      (∀ l, Assoc.get p scanned = some l → l.hash ≠ (fetchRemote S r).hash) →
      (LocalChanged (st.files.lookup p) (Assoc.get p scanned) ∨
        ∃ target, Assoc.get p st.folder = some (.link target)) →
      Pulled scanned now p r st (.ok { st with conflicts := st.conflicts ++ [(p, reason)] })
  | written (applied : List (String × JsString)) : isExcluded p = false →
      (st.files.lookup p).hash ≠ some (fetchRemote S r).hash →
      (∀ l, Assoc.get p scanned = some l → l.hash ≠ (fetchRemote S r).hash) →
      ¬LocalChanged (st.files.lookup p) (Assoc.get p scanned) →
      (∀ target, Assoc.get p st.folder ≠ some (.link target)) →
      Pulled scanned now p r st (.ok
        { folder := Assoc.set p (.file (fetchRemote S r).bytes now) st.folder
          files := st.files.set p
            { kind := r.kind, hash := (fetchRemote S r).hash
              size := (fetchRemote S r).bytes.length, mtimeMs := now }
          conflicts := st.conflicts
          applied })

omit [DecidableEq η] in
theorem recordLocal_of_read {folder : Folder} {p : JsString} {kind : FileKind} {hash : η}
    {files : Files η} {stat : Bytes × Nat} (h : (Assoc.get p folder).bind Node.read = some stat) :
    recordLocal folder p kind hash files =
      some (files.set p { kind, hash, size := stat.1.length, mtimeMs := stat.2 }) := by
  rw [recordLocal, h]
  rfl

omit [DecidableEq η] in
theorem recordLocal_some {folder : Folder} {p : JsString} {kind : FileKind} {hash : η}
    {files files' : Files η} (h : recordLocal folder p kind hash files = some files') :
    ∃ state, files' = files.set p state := by
  rw [recordLocal, Option.map_eq_some_iff] at h
  obtain ⟨stat, -, rfl⟩ := h
  exact ⟨_, rfl⟩

theorem localChanged_iff {snap : Snap η} {l : Option (LocalEntry η)} :
    (if snap.truthy then l.all fun l => snap.hash ≠ some l.hash else l.isSome) = true ↔
      LocalChanged snap l := by
  rw [LocalChanged]
  split
  · cases l with
    | none => simp
    | some e => simp
  · rfl

theorem pulled (scanned : List (JsString × LocalEntry η)) (now : Nat) (p : JsString)
    (r : Stored ν) (st : PullState η) :
    Pulled S scanned now p r st (pullRemote S false scanned now p r st) := by
  rw [pullRemote]
  cases hex : isExcluded p with
  | true => exact .excluded hex
  | false =>
      by_cases hsame : (st.files.lookup p).hash = some (fetchRemote S r).hash
      · -- the listing alone, or else the content, says that nothing is new
        have htruthy := Snap.truthy_of_hash hsame
        dsimp only
        split
        · next h => cases h
        · split
          · exact .same hex hsame
          · rw [if_pos (by simp [htruthy, hsame])]
            exact .same hex hsame
      · dsimp only
        rw [if_neg (by simp), if_neg, if_neg]
        · by_cases hl : ∃ l, Assoc.get p scanned = some l ∧ l.hash = (fetchRemote S r).hash
          · obtain ⟨l, hl, hhash⟩ := hl
            rw [if_pos (by simp [hl, hhash])]
            cases hread : (Assoc.get p st.folder).bind Node.read with
            | none =>
                rw [recordLocal, hread]
                exact .unreadable hl hread
            | some stat =>
                rw [recordLocal_of_read hread]
                exact .adopted hex hsame hl hhash (recordLocal_of_read hread)
          · have hother : ∀ l, Assoc.get p scanned = some l → l.hash ≠ (fetchRemote S r).hash :=
              fun l hget hhash => hl ⟨l, hget, hhash⟩
            have hnone : (Assoc.get p scanned).any
                (fun l => l.hash = (fetchRemote S r).hash) = false := by
              cases hget : Assoc.get p scanned with
              | none => rfl
              | some l => simpa using hother l hget
            rw [hnone, if_neg Bool.false_ne_true, Bool.not_false, Bool.and_true]
            by_cases hchanged : LocalChanged (st.files.lookup p) (Assoc.get p scanned)
            · rw [if_pos (localChanged_iff.mpr hchanged)]
              exact .conflict _ hex hsame hother (.inl hchanged)
            · rw [if_neg fun h => hchanged (localChanged_iff.mp h)]
              have hread : (Assoc.get p (Assoc.set p (.file (fetchRemote S r).bytes now)
                  st.folder)).bind Node.read = some ((fetchRemote S r).bytes, now) := by
                rw [Assoc.get_set_self]
                rfl
              rw [recordLocal_of_read hread]
              split
              · next target hlink => exact .conflict _ hex hsame hother (.inr ⟨target, hlink⟩)
              · next hlink => exact .written _ hex hsame hother hchanged hlink
        · simp [hsame]
        · intro h
          simp only [Bool.and_eq_true, decide_eq_true_eq] at h
          obtain ⟨⟨-, hsome⟩, heq⟩ := h
          obtain ⟨hash, hlist⟩ := Option.isSome_iff_exists.mp hsome
          exact hsame (by rw [← heq, hlist, listHash_eq S hlist])

/-! ## The whole listing -/

/-- What a state has at a path; the prototype of the snapshot goes with `__proto__`. -/
structure PathView (η : Type) where
  node : Option Node
  state : Option (SyncFileState η)
  proto : Option (SyncFileState η)
  reasons : List (JsString × String)

def PullState.view (st : PullState η) (p : JsString) : PathView η where
  node := Assoc.get p st.folder
  state := Assoc.get p st.files.own
  proto := if p = dunderProto then st.files.proto else none
  reasons := st.conflicts.filter fun c => c.1 = p

omit [DecidableEq η] in
theorem view_set_ne {p q : JsString} (h : q ≠ p) (st : PullState η) (state : SyncFileState η) :
    ({ st with files := st.files.set q state } : PullState η).view p = st.view p := by
  simp only [PullState.view, get_set_ne h, PathView.mk.injEq, true_and, and_true]
  split
  · next hp => rw [proto_set_ne fun he => h (he.trans hp.symm)]
  · rfl

theorem filter_append_ne {p q : JsString} (h : q ≠ p) (l : List (JsString × String))
    (reason : String) :
    (l ++ [(q, reason)]).filter (fun c => c.1 = p) = l.filter fun c => c.1 = p := by
  rw [List.filter_append, List.filter_cons_of_neg (by simpa using h), List.filter_nil,
    List.append_nil]

theorem pullRemote_frame (scanned : List (JsString × LocalEntry η)) (now : JsString → Nat)
    (st : PullState η) (e : JsString × Stored ν) (p : JsString) (h : e.1 ≠ p) :
    (ended (pullRemote S false scanned (now e.1) e.1 e.2 st)).view p = st.view p := by
  have hp := pulled S scanned (now e.1) e.1 e.2 st
  generalize pullRemote S false scanned (now e.1) e.1 e.2 st = run at hp ⊢
  cases hp with
  | excluded _ => rfl
  | same _ _ => rfl
  | adopted _ _ _ _ hrec =>
      obtain ⟨state, rfl⟩ := recordLocal_some hrec
      exact view_set_ne h st _
  | unreadable _ _ => rfl
  | conflict reason _ _ _ _ =>
      simp only [ended, PullState.view, filter_append_ne h]
  | written _ _ _ _ _ _ =>
      have hview := view_set_ne h st
        { kind := e.2.kind, hash := (fetchRemote S e.2).hash
          size := (fetchRemote S e.2).bytes.length, mtimeMs := now e.1 }
      simp only [PullState.view, PathView.mk.injEq] at hview
      simp only [ended, PullState.view, PathView.mk.injEq, Assoc.get_set_ne h]
      exact ⟨trivial, hview.2⟩

variable (now : JsString → Nat) {vault : Vault ν} {folder : Folder} {files : Files η}
  {st : PullState η} {p : JsString} {r : Stored ν}

/-- Nothing of the listing makes the pull throw. -/
theorem pullListed_ok (hvault : Assoc.Wf vault) (hfolder : Assoc.Wf folder) (files : Files η) :
    ∃ st, pullListed S false now vault folder files = .ok st := by
  refine @foldlM_ok _ _ _ _ Prod.fst PullState.view _
    (fun st e p h => pullRemote_frame S _ now st e p h) _ (wf_listRemote S hvault) _ ?_
  intro e _ st hview
  have hp := pulled S (scanLocal S folder files) (now e.1) e.1 e.2 st
  generalize pullRemote S false _ (now e.1) e.1 e.2 st = run at hp ⊢
  cases hp with
  | unreadable hl hread =>
      -- what the scan saw is there yet
      obtain ⟨bytes, mtimeMs, hnode, -⟩ := scanned_some S hfolder hl
      have hnow : Assoc.get e.1 st.folder = some (.file bytes mtimeMs) :=
        (congrArg PathView.node hview).trans hnode
      rw [hnow] at hread
      cases hread
  | excluded _ => exact ⟨_, rfl⟩
  | same _ _ => exact ⟨_, rfl⟩
  | adopted _ _ _ _ _ => exact ⟨_, rfl⟩
  | conflict _ _ _ _ _ => exact ⟨_, rfl⟩
  | written _ _ _ _ _ _ => exact ⟨_, rfl⟩

/-- The turn of a path, which finds there what was there at first and leaves what is there at
last. -/
theorem pullListed_at (hvault : Assoc.Wf vault) {listed pre post : Vault ν}
    (hlisted : listed.Sublist (listRemote S vault)) (hsplit : listed = pre ++ (p, r) :: post)
    (hrun : listed.foldlM (fun st e => pullRemote S false (scanLocal S folder files) (now e.1)
      e.1 e.2 st) { folder, files } = .ok st) :
    ∃ s1 s2, pre.foldlM (fun st e => pullRemote S false (scanLocal S folder files) (now e.1)
        e.1 e.2 st) { folder, files } = .ok s1 ∧
      s1.view p = ({ folder, files } : PullState η).view p ∧ st.view p = s2.view p ∧
      Pulled S (scanLocal S folder files) (now p) p r s1 (.ok s2) := by
  obtain ⟨s1, s2, hpre, hstep, hbefore, hafter⟩ :=
    @view_foldlM_of_ok _ _ _ _ Prod.fst PullState.view _
      (fun st e p h => pullRemote_frame S _ now st e p h) _
      ((wf_listRemote S hvault).sublist (hlisted.map Prod.fst)) _ _ _ hsplit _ _ hrun
  refine ⟨s1, s2, hpre, hbefore, hafter, ?_⟩
  have hp := pulled S (scanLocal S folder files) (now p) p r s1
  rwa [hstep] at hp

theorem pullListed_other {listed : Vault ν} (h : p ∉ Assoc.keys listed)
    (hrun : listed.foldlM (fun st e => pullRemote S false (scanLocal S folder files) (now e.1)
      e.1 e.2 st) { folder, files } = .ok st) :
    st.view p = ({ folder, files } : PullState η).view p := by
  have hview := @view_foldlM_of_forall_ne _ _ _ _ Prod.fst PullState.view _
    (fun st e p h => pullRemote_frame S (scanLocal S folder files) now st e p h) listed p
    (fun e he heq => h (heq ▸ List.mem_map_of_mem he)) { folder, files }
  rwa [hrun] at hview

/-! ## The prototype -/

variable (folder files) in
/-- The prototype that the snapshot has once a part of the listing was looked at: an entry for
a `__proto__` that was the same on both sides. -/
def protoAfter (listed : Vault ν) : Option (SyncFileState η) :=
  match Assoc.get dunderProto listed, Assoc.get dunderProto files.own,
    Assoc.get dunderProto folder with
  | some r, none, some (.file bytes mtimeMs) =>
      if localHash S folder dunderProto = some (fetchRemote S r).hash then
        some { kind := r.kind, hash := (fetchRemote S r).hash, size := bytes.length, mtimeMs }
      else none
  | _, _, _ => none

omit [DecidableEq η] in
theorem lookup_of_view {s1 : PullState η}
    (hview : s1.view p = ({ folder, files } : PullState η).view p) :
    snapHash s1.files p = snapHash files p :=
  congrArg (Option.map SyncFileState.hash) (congrArg PathView.state hview)

omit [DecidableEq η] in
theorem proto_of_view (hproto : files.proto = none) {s1 : PullState η}
    (hview : s1.view p = ({ folder, files } : PullState η).view p) :
    p = dunderProto → s1.files.proto = none := by
  intro hp
  have h := congrArg PathView.proto hview
  simp only [PullState.view, if_pos hp] at h
  exact h.trans hproto

theorem mem_prototypeNames : dunderProto ∈ prototypeNames := by
  simp [prototypeNames]

omit [DecidableEq η] in
theorem scanned_ne_iff (hfolder : Assoc.Wf folder) (hproto : files.proto = none)
    (hnew : snapHash files p = none) {hash : η} :
    (∀ l, Assoc.get p (scanLocal S folder files) = some l → l.hash ≠ hash) ↔
      localHash S folder p ≠ some hash := by
  constructor
  · intro h hlocal
    cases hl : Assoc.get p (scanLocal S folder files) with
    | none =>
        rw [(scanned_none_iff S hfolder).mp hl] at hlocal
        cases hlocal
    | some l =>
        obtain ⟨bytes, mtimeMs, hnode, hs, rfl⟩ := scanned_some S hfolder hl
        rw [localHash_of S hnode hs, ← scanHash_of_new S hproto hnew] at hlocal
        exact h _ hl (Option.some.inj hlocal)
  · rintro h l hl rfl
    obtain ⟨bytes, mtimeMs, hnode, hs, rfl⟩ := scanned_some S hfolder hl
    rw [localHash_of S hnode hs, scanHash_of_new S hproto hnew] at h
    exact h rfl

theorem proto_pullListed (hvault : Assoc.Wf vault) (hfolder : Assoc.Wf folder)
    (hproto : files.proto = none) {listed : Vault ν}
    (hlisted : listed.Sublist (listRemote S vault))
    (hrun : listed.foldlM (fun st e => pullRemote S false (scanLocal S folder files) (now e.1)
      e.1 e.2 st) { folder, files } = .ok st) :
    st.files.proto = protoAfter S folder files listed := by
  cases hr : Assoc.get dunderProto listed with
  | none =>
      have hview := pullListed_other S now (Assoc.get_eq_none_iff.mp hr) hrun
      rw [proto_of_view hproto hview rfl, protoAfter, hr]
  | some r =>
      obtain ⟨pre, post, hsplit⟩ := List.append_of_mem (Assoc.mem_of_get hr)
      obtain ⟨s1, s2, -, hbefore, hafter, hp⟩ := pullListed_at S now hvault hlisted hsplit hrun
      have hproto1 := proto_of_view hproto hbefore rfl
      have hlookup := lookup_hash (p := dunderProto) fun _ => hproto1
      rw [lookup_of_view hbefore] at hlookup
      have hend : st.files.proto = s2.files.proto := by
        have h := congrArg PathView.proto hafter
        simpa only [PullState.view, if_pos] using h
      have hown : Assoc.get dunderProto s1.files.own = Assoc.get dunderProto files.own :=
        congrArg PathView.state hbefore
      have hnode : Assoc.get dunderProto s1.folder = Assoc.get dunderProto folder :=
        congrArg PathView.node hbefore
      rw [hend, protoAfter, hr]
      cases hget : Assoc.get dunderProto files.own with
      | some state =>
          -- an entry of its own is what an assignment sets
          have hset (state' : SyncFileState η) :
              (s1.files.set dunderProto state').proto = none := by
            rw [(get_set_self (fun _ => by rw [hown, hget]; simp) state').2, hproto1]
          cases hp with
          | excluded _ => exact hproto1
          | same _ _ => exact hproto1
          | adopted _ _ _ _ hrec =>
              obtain ⟨state, rfl⟩ := recordLocal_some hrec
              exact hset _
          | conflict _ _ _ _ _ => exact hproto1
          | written _ _ _ _ _ _ => exact hset _
      | none =>
          have hnew : snapHash files dunderProto = none := by rw [snapHash, hget]; rfl
          rw [hnew] at hlookup
          have hother := @scanned_ne_iff _ _ S _ _ _ hfolder hproto hnew (fetchRemote S r).hash
          cases hp with
          | excluded hex => exact absurd hex (by decide)
          | same _ hsame =>
              rw [hlookup] at hsame
              cases hsame
          | adopted _ _ hl hhash hrec =>
              obtain ⟨bytes, mtimeMs, hfile, hs, rfl⟩ := scanned_some S hfolder hl
              rw [recordLocal_of_read (by rw [hnode, hfile]; rfl)] at hrec
              obtain rfl := Option.some.inj hrec
              rw [set_first (hown.trans hget), hfile]
              dsimp only at hhash ⊢
              rw [scanHash_of_new S hproto hnew] at hhash
              rw [if_pos (by rw [localHash_of S hfile hs, hhash])]
          | conflict _ _ _ hl _ =>
              show s1.files.proto = _
              rw [hproto1]
              cases Assoc.get dunderProto folder with
              | none => rfl
              | some node =>
                  cases node with
                  | link target => rfl
                  | file bytes mtimeMs => exact (if_neg (hother.mp hl)).symm
          | written _ _ _ _ hkept _ =>
              refine absurd ?_ hkept
              rw [LocalChanged, if_pos]
              · intro e _
                rw [hlookup]
                rintro ⟨⟩
              · exact (lookup_truthy_iff fun _ => hproto1).mpr (.inr (.inl mem_prototypeNames))

/-! ## A path of the listing -/

variable (vault folder files) in
/-- Whether a path that is listed is answered by the prototype when its turn comes. -/
def Inherited (p : JsString) : Prop :=
  ∃ pre r post, listRemote S vault = pre ++ (p, r) :: post ∧
    answers (protoAfter S folder files pre) p

variable (vault folder files) in
/-- What a pull leaves at a path that is listed, and when. -/
inductive ListedAt (p : JsString) (r : Stored ν) (after : PathView η) : Prop
  | kept : isExcluded p = true ∨ snapHash files p = some (fetchRemote S r).hash →
      after.node = Assoc.get p folder → after.state = Assoc.get p files.own →
      after.reasons = [] → ListedAt p r after
  | adopted {bytes : Bytes} {mtimeMs : Nat} : isExcluded p = false →
      snapHash files p ≠ some (fetchRemote S r).hash →
      Assoc.get p folder = some (.file bytes mtimeMs) → synced S p = true →
      scanHash S files p bytes mtimeMs = (fetchRemote S r).hash →
      after.node = Assoc.get p folder →
      after.state = (if p = dunderProto ∧ Assoc.get p files.own = none then none
        else some { kind := r.kind, hash := (fetchRemote S r).hash, size := bytes.length,
                    mtimeMs }) →
      after.reasons = [] → ListedAt p r after
  | conflict : isExcluded p = false → snapHash files p ≠ some (fetchRemote S r).hash →
      (∀ l, Assoc.get p (scanLocal S folder files) = some l → l.hash ≠ (fetchRemote S r).hash) →
      ((snapHash files p ≠ none ∨ Inherited S vault folder files p) ∧
          (∀ l, Assoc.get p (scanLocal S folder files) = some l →
            snapHash files p ≠ some l.hash) ∨
        (Assoc.get p (scanLocal S folder files)).isSome = true ∧ snapHash files p = none ∨
        ∃ target, Assoc.get p folder = some (.link target)) →
      after.node = Assoc.get p folder → after.state = Assoc.get p files.own →
      after.reasons ≠ [] → ListedAt p r after
  | written : isExcluded p = false → snapHash files p ≠ some (fetchRemote S r).hash →
      (∀ l, Assoc.get p (scanLocal S folder files) = some l → l.hash ≠ (fetchRemote S r).hash) →
      (snapHash files p ≠ none ∧ (∃ l, Assoc.get p (scanLocal S folder files) = some l ∧
          snapHash files p = some l.hash) ∨
        snapHash files p = none ∧ ¬Inherited S vault folder files p ∧
          Assoc.get p (scanLocal S folder files) = none) →
      (∀ target, Assoc.get p folder ≠ some (.link target)) →
      after.node = some (.file (fetchRemote S r).bytes (now p)) →
      after.state = some { kind := r.kind, hash := (fetchRemote S r).hash
                           size := (fetchRemote S r).bytes.length, mtimeMs := now p } →
      after.reasons = [] → ListedAt p r after

theorem inherited_iff (hvault : Assoc.Wf vault) {pre post : Vault ν}
    (hsplit : listRemote S vault = pre ++ (p, r) :: post) :
    Inherited S vault folder files p ↔ answers (protoAfter S folder files pre) p := by
  refine ⟨fun ⟨pre', r', post', hsplit', h⟩ => ?_, fun h => ⟨pre, r, post, hsplit, h⟩⟩
  -- the path is listed once
  have hwf := wf_listRemote S hvault
  rw [hsplit, Assoc.Wf, Assoc.keys_append, Assoc.keys_cons] at hwf
  obtain ⟨hfresh, -⟩ := List.nodup_cons.mp (List.nodup_middle.mp hwf)
  rw [List.mem_append, not_or] at hfresh
  have hnot {l : Vault ν} (hl : p ∉ Assoc.keys l) : (p, r') ∉ l := fun hmem =>
    hl (List.mem_map_of_mem (f := Prod.fst) hmem)
  rw [hsplit] at hsplit'
  obtain ⟨rfl, -, -⟩ :=
    (List.append_cons_inj_of_notMem (hnot hfresh.1) (hnot hfresh.2)).mp hsplit'
  exact h

theorem listedAt_of_run (hvault : Assoc.Wf vault) (hfolder : Assoc.Wf folder)
    (hproto : files.proto = none) (hr : Assoc.get p (listRemote S vault) = some r)
    (hrun : pullListed S false now vault folder files = .ok st) :
    ListedAt S now vault folder files p r (st.view p) := by
  obtain ⟨pre, post, hsplit⟩ := List.append_of_mem (Assoc.mem_of_get hr)
  obtain ⟨s1, s2, hpre, hbefore, hafter, hp⟩ :=
    pullListed_at S now hvault (List.Sublist.refl _) hsplit hrun
  have hsub : pre.Sublist (listRemote S vault) := by
    rw [hsplit]
    exact List.sublist_append_left _ _
  have hproto1 := proto_pullListed S now hvault hfolder hproto hsub hpre
  have hslot := proto_of_view hproto hbefore
  have hsnap : snapHash s1.files p = snapHash files p := lookup_of_view hbefore
  have hhash : (s1.files.lookup p).hash = snapHash files p := (lookup_hash hslot).trans hsnap
  have htruthy : (s1.files.lookup p).truthy = true ↔
      snapHash files p ≠ none ∨ Inherited S vault folder files p := by
    rw [lookup_truthy_iff hslot, hsnap, hproto1, inherited_iff S hvault hsplit]
  have hnode : Assoc.get p s1.folder = Assoc.get p folder := congrArg PathView.node hbefore
  have hstate : Assoc.get p s1.files.own = Assoc.get p files.own :=
    congrArg PathView.state hbefore
  have hreasons : s1.conflicts.filter (fun c => c.1 = p) = [] :=
    congrArg PathView.reasons hbefore
  have hchanged (hl : LocalChanged (s1.files.lookup p)
      (Assoc.get p (scanLocal S folder files))) :
      (snapHash files p ≠ none ∨ Inherited S vault folder files p) ∧
          (∀ l, Assoc.get p (scanLocal S folder files) = some l →
            snapHash files p ≠ some l.hash) ∨
        (Assoc.get p (scanLocal S folder files)).isSome = true ∧ snapHash files p = none := by
    rw [LocalChanged, hhash] at hl
    split at hl
    · next h => exact .inl ⟨htruthy.mp h, hl⟩
    · next h => exact .inr ⟨hl, not_not.mp fun hne => h (htruthy.mpr (.inl hne))⟩
  have hkept (hl : ¬LocalChanged (s1.files.lookup p)
      (Assoc.get p (scanLocal S folder files))) :
      snapHash files p ≠ none ∧ (∃ l, Assoc.get p (scanLocal S folder files) = some l ∧
          snapHash files p = some l.hash) ∨
        snapHash files p = none ∧ ¬Inherited S vault folder files p ∧
          Assoc.get p (scanLocal S folder files) = none := by
    rw [LocalChanged, hhash] at hl
    split at hl
    · push Not at hl
      obtain ⟨l, hl, heq⟩ := hl
      exact .inl ⟨by rw [heq]; simp, l, hl, heq⟩
    · next h =>
        rw [htruthy, not_or, not_not] at h
        exact .inr ⟨h.1, h.2, by simpa using hl⟩
  rw [hafter]
  cases hp with
  | excluded hex => exact .kept (.inl hex) hnode hstate hreasons
  | same hex hsame => exact .kept (.inr (hhash.symm.trans hsame)) hnode hstate hreasons
  | adopted hex hne hl heq hrec =>
      obtain ⟨bytes, mtimeMs, hfile, hs, rfl⟩ := scanned_some S hfolder hl
      rw [recordLocal_of_read (by rw [hnode, hfile]; rfl)] at hrec
      obtain rfl := Option.some.inj hrec
      refine .adopted hex (hhash ▸ hne) hfile hs heq hnode ?_ hreasons
      show Assoc.get p (s1.files.set p _).own = _
      split
      · next h =>
          obtain ⟨rfl, hnew⟩ := h
          rw [set_first (hstate.trans hnew)]
          exact hstate.trans hnew
      · next h => exact (get_set_self (fun hp hnew => h ⟨hp, hstate ▸ hnew⟩) _).1
  | conflict reason hex hne hl hwhy =>
      refine .conflict hex (hhash ▸ hne) hl ?_ hnode hstate ?_
      · rcases hwhy with hch | hlink
        · exact (hchanged hch).imp_right .inl
        · exact .inr (.inr (hnode ▸ hlink))
      · show (s1.conflicts ++ [(p, reason)]).filter (fun c => c.1 = p) ≠ []
        rw [List.filter_append, List.filter_cons_of_pos (by simp)]
        simp
  | written applied hex hne hl hkeep hlink =>
      refine .written hex (hhash ▸ hne) hl (hkept hkeep) (hnode ▸ hlink)
        (Assoc.get_set_self _ _ _) ?_ hreasons
      refine (get_set_self (fun hp hnew => ?_) _).1
      -- a new `__proto__` is answered by the prototype, and so is no path to write
      have hnew' : snapHash files p = none := by rw [← hsnap, snapHash, hnew]; rfl
      rcases hkept hkeep with ⟨h, -⟩ | ⟨-, h, -⟩
      · exact h hnew'
      · exact h ⟨pre, r, post, hsplit, .inl (hp ▸ mem_prototypeNames)⟩

/-! ## The whole pull -/

theorem wf_pullListed (hfolder : Assoc.Wf folder) (hfiles : Assoc.Wf files.own)
    (hrun : pullListed S false now vault folder files = .ok st) :
    Assoc.Wf st.folder ∧ Assoc.Wf st.files.own := by
  have hinv := @inv_foldlM _ _
    (fun st e => pullRemote S false (scanLocal S folder files) (now e.1) e.1 e.2 st)
    (fun st : PullState η => Assoc.Wf st.folder ∧ Assoc.Wf st.files.own) (fun s1 e h1 => ?_)
    { folder, files } ⟨hfolder, hfiles⟩ (listRemote S vault)
  · rw [pullListed] at hrun
    rwa [hrun] at hinv
  · have hp := pulled S (scanLocal S folder files) (now e.1) e.1 e.2 s1
    generalize pullRemote S false _ (now e.1) e.1 e.2 s1 = run at hp ⊢
    cases hp with
    | excluded _ => exact h1
    | same _ _ => exact h1
    | adopted _ _ _ _ hrec =>
        obtain ⟨state, rfl⟩ := recordLocal_some hrec
        exact ⟨h1.1, wf_set h1.2 _ _⟩
    | unreadable _ _ => exact h1
    | conflict _ _ _ _ _ => exact h1
    | written _ _ _ _ _ _ => exact ⟨Assoc.wf_set h1.1, wf_set h1.2 _ _⟩

/-- What the second loop leaves at a path that is not listed. -/
def deletedView (scanned : List (JsString × LocalEntry η)) (p : JsString) (view : PathView η) :
    PathView η :=
  match view.state with
  | none => view
  | some snap =>
      if (Assoc.get p scanned).any fun l => l.hash ≠ snap.hash then
        { view with reasons := view.reasons ++
          [(p, "deleted remotely but modified locally (use --theirs to delete)")] }
      else
        { view with
          node := if (Assoc.get p scanned).isSome then none else view.node
          state := none }

theorem pullDeleted_frame (scanned : List (JsString × LocalEntry η)) (listed : Vault ν)
    (st : PullState η) (q p : JsString) (h : q ≠ p) :
    (pullDeleted false scanned listed st q).view p = st.view p := by
  rw [pullDeleted]
  split
  · rfl
  · split
    · rfl
    · dsimp only
      split
      · simp only [PullState.view, filter_append_ne h]
      · simp only [PullState.view, Files.delete, Assoc.get_erase_ne h, PathView.mk.injEq,
          and_true]
        split
        · exact Assoc.get_erase_ne h _
        · rfl

theorem pullDeleted_own (scanned : List (JsString × LocalEntry η)) (listed : Vault ν)
    (st : PullState η) (p : JsString) : (pullDeleted false scanned listed st p).view p =
      if (Assoc.get p listed).isSome then st.view p else deletedView scanned p (st.view p) := by
  rw [pullDeleted]
  split
  · rfl
  · rw [deletedView]
    cases hstate : Assoc.get p st.files.own with
    | none => simp only [PullState.view, hstate]
    | some snap =>
        simp only [PullState.view, hstate, Bool.not_false, Bool.and_true]
        split
        · simp only [hstate, List.filter_append, PathView.mk.injEq, true_and]
          simp
        · simp only [Files.delete, Assoc.get_erase, if_true, PathView.mk.injEq, and_true]
          split
          · exact (Assoc.get_erase _ _ _).trans (if_pos rfl)
          · rfl

theorem pullListed_of_pullFiles (hrun : pullFiles S false now vault folder files = .ok st) :
    ∃ s1, pullListed S false now vault folder files = .ok s1 ∧ (Assoc.keys s1.files.own).foldl
      (pullDeleted false (scanLocal S folder files) (listRemote S vault)) s1 = st := by
  rw [pullFiles] at hrun
  cases hlist : pullListed S false now vault folder files with
  | error s1 =>
      rw [hlist] at hrun
      cases hrun
  | ok s1 =>
      rw [hlist] at hrun
      exact ⟨s1, rfl, Except.ok.inj hrun⟩

/-- What a pull leaves at each path. -/
theorem pullFiles_at (hvault : Assoc.Wf vault) (hfolder : Assoc.Wf folder)
    (hfiles : Assoc.Wf files.own) (hproto : files.proto = none)
    (hrun : pullFiles S false now vault folder files = .ok st) (p : JsString) :
    (∃ r, Assoc.get p (listRemote S vault) = some r ∧
        ListedAt S now vault folder files p r (st.view p)) ∨
      Assoc.get p (listRemote S vault) = none ∧
        st.view p = deletedView (scanLocal S folder files) p
          (({ folder, files } : PullState η).view p) := by
  obtain ⟨s1, hlist, rfl⟩ := pullListed_of_pullFiles S now hrun
  have hframe := pullDeleted_frame (scanLocal S folder files) (listRemote S vault)
  have hown := pullDeleted_own (scanLocal S folder files) (listRemote S vault)
  have hnodup : ((Assoc.keys s1.files.own).map id).Nodup := by
    rw [List.map_id]
    exact (wf_pullListed S now hfolder hfiles hlist).2
  -- the second loop, at a path that it comes to and at any other
  have hsecond : ((Assoc.keys s1.files.own).foldl
      (pullDeleted false (scanLocal S folder files) (listRemote S vault)) s1).view p =
        if (Assoc.get p (listRemote S vault)).isSome then s1.view p
        else deletedView (scanLocal S folder files) p (s1.view p) := by
    by_cases hmem : p ∈ Assoc.keys s1.files.own
    · exact @view_foldl_of_mem _ _ _ _ _ id PullState.view
        (fun p v => if (Assoc.get p (listRemote S vault)).isSome then v
          else deletedView (scanLocal S folder files) p v)
        hframe hown _ hnodup _ hmem s1
    · rw [@view_foldl_of_forall_ne _ _ _ _ _ id PullState.view hframe _ _
        (fun q hq (he : q = p) => hmem (he ▸ hq))]
      have hnone : (s1.view p).state = none := Assoc.get_eq_none_iff.mpr hmem
      split
      · rfl
      · rw [deletedView, hnone]
  rw [hsecond]
  cases hr : Assoc.get p (listRemote S vault) with
  | some r =>
      exact .inl ⟨r, rfl, listedAt_of_run S now hvault hfolder hproto hr hlist⟩
  | none =>
      refine .inr ⟨rfl, ?_⟩
      rw [pullListed_other S now (Assoc.get_eq_none_iff.mp hr) hlist]
      rfl

end

/-! ## What a pull owes to the local side -/

section

variable [DecidableEq η]

section

variable (vault : Vault ν) (folder : Folder) (files : Files η) (p : JsString)

/-- A path that is new remotely and has no file, where the prototype of the snapshot has
something. -/
def Phantom : Prop :=
  isExcluded p = false ∧ remoteHash S vault p ≠ none ∧ snapHash files p = none ∧
    localHash S folder p = none ∧ Inherited S vault folder files p ∧
    ∀ target, Assoc.get p folder ≠ some (.link target)

/-- A file that the scan leaves out (ignored as an attachment, or behind a linked directory), of
a path where the vault has something new. -/
def Overwritten : Prop :=
  ∃ bytes mtimeMs r, Assoc.get p folder = some (.file bytes mtimeMs) ∧ isExcluded p = false ∧
    synced S p = false ∧ snapHash files p = none ∧ ¬Inherited S vault folder files p ∧
    Assoc.get p (listRemote S vault) = some r ∧
    (fetchRemote S r).hash ≠ hashLocalContent S (kindForPath p) bytes ∧
    (fetchRemote S r).bytes ≠ bytes

end

variable {vault : Vault ν} {folder : Folder} {files : Files η} {p : JsString}
  (now : JsString → Nat) {st : PullState η}

/-- Where a pull reports a conflict as it should. -/
theorem conflict_iff (hvault : Assoc.Wf vault) (hfolder : Assoc.Wf folder)
    (hfiles : Assoc.Wf files.own) (hproto : files.proto = none)
    (hrun : pullFiles S false now vault folder files = .ok st) (p : JsString) :
    (p ∈ Assoc.keys st.conflicts ↔ BothChanged S vault folder files p) ↔
      ¬MaskedEdit S vault folder files p ∧ ¬Phantom S vault folder files p := by
  have hreasons : p ∈ Assoc.keys st.conflicts ↔ (st.view p).reasons ≠ [] := by
    simp only [PullState.view, ne_eq, List.filter_eq_nil_iff, decide_eq_true_eq, not_forall,
      not_not, exists_prop, Assoc.keys, List.mem_map]
  have hnone := @scanned_none_iff _ _ S folder files p hfolder
  have hsome := fun l => scan_facts S (l := l) (p := p) hfolder hproto
  rw [hreasons, MaskedEdit, masked_iff S hfolder hproto, BothChanged, Phantom]
  rcases pullFiles_at S now hvault hfolder hfiles hproto hrun p with ⟨r, hr, hat⟩ | ⟨hr, hview⟩
  · rw [remoteHash_of S hr]
    cases hl : Assoc.get p (scanLocal S folder files) with
    | none =>
        rw [hl] at hnone
        have hlocal := hnone.mp rfl
        cases hat with
        | kept hwhy _ _ hfree => grind
        | adopted _ _ hnode hs _ _ _ _ =>
            rw [scanned_of S hfolder hnode hs] at hl
            cases hl
        | conflict hex hne _ hwhy _ _ hreason => grind
        | written hex hne _ hwhy hlink _ _ hfree => grind
    | some l =>
        obtain ⟨hlocal, hex, hhash⟩ := hsome l hl
        cases hat with
        | kept hwhy _ _ hfree => grind
        | adopted _ hne hnode hs hscan _ _ hfree =>
            rw [scanned_of S hfolder hnode hs] at hl
            obtain rfl := Option.some.inj hl
            grind
        | conflict hex hne _ hwhy _ _ hreason =>
            obtain ⟨bytes, mtimeMs, hnode, -⟩ := scanned_some S hfolder hl
            grind
        | written hex hne _ hwhy hlink _ _ hfree => grind
  · have hremote : remoteHash S vault p = none := by rw [remoteHash, hr]; rfl
    rw [hremote, hview, deletedView]
    cases hl : Assoc.get p (scanLocal S folder files) with
    | none =>
        rw [hl] at hnone
        have hlocal := hnone.mp rfl
        cases hget : Assoc.get p files.own with
        | none => simp [PullState.view, hget, hlocal, snapHash]
        | some state => simp [PullState.view, hget, hlocal]
    | some l =>
        obtain ⟨hlocal, hex, hhash⟩ := hsome l hl
        cases hget : Assoc.get p files.own with
        | none => simp [PullState.view, hget, snapHash]
        | some state =>
            have hsnap : snapHash files p = some state.hash := by rw [snapHash, hget]; rfl
            by_cases hne : l.hash = state.hash
            · simp only [PullState.view, hget]
              grind
            · simp only [PullState.view, hget]
              grind

variable (vault folder files) in
/-- A file that is not as its entry says keeps its content, unless the vault has its hash. -/
def KeepsLocal (st : PullState η) (p : JsString) : Prop :=
  ∀ bytes mtimeMs, Assoc.get p folder = some (.file bytes mtimeMs) →
    snapHash files p ≠ some (hashLocalContent S (kindForPath p) bytes) →
    (∃ mtimeMs', Assoc.get p st.folder = some (.file bytes mtimeMs')) ∨
      remoteHash S vault p = some (hashLocalContent S (kindForPath p) bytes)

omit [DecidableEq η] in
theorem KeepsLocal.of_node (h : Assoc.get p st.folder = Assoc.get p folder) :
    KeepsLocal S vault folder files st p :=
  fun _ mtimeMs hnode _ => .inl ⟨mtimeMs, h.trans hnode⟩

/-- Where a pull keeps a file as it should, if no edit of it is masked. -/
theorem keepsLocal_iff (hvault : Assoc.Wf vault) (hfolder : Assoc.Wf folder)
    (hfiles : Assoc.Wf files.own) (hproto : files.proto = none)
    (hrun : pullFiles S false now vault folder files = .ok st) {p : JsString}
    (hedit : ¬MaskedEdit S vault folder files p) :
    KeepsLocal S vault folder files st p ↔ ¬Overwritten S vault folder files p := by
  -- a file that the scan took for its entry is that, or the vault has what it is
  have hentry {l : LocalEntry η} (hl : Assoc.get p (scanLocal S folder files) = some l)
      (hsnap : snapHash files p = some l.hash)
      (hremote : remoteHash S vault p ≠ snapHash files p) :
      KeepsLocal S vault folder files st p ∧ ¬Overwritten S vault folder files p := by
    obtain ⟨bytes, mtimeMs, hnode, hs, -⟩ := scanned_some S hfolder hl
    refine ⟨fun bytes' mtimeMs' hnode' hne => ?_, ?_⟩
    · obtain ⟨rfl, rfl⟩ := Node.file.inj (Option.some.inj (hnode.symm.trans hnode'))
      have hlocal := localHash_of S hnode hs
      have hmasked : Masked S folder files p :=
        (masked_iff S hfolder hproto).mpr ⟨l, hl, hsnap, by rw [hlocal, ← hsnap]; exact hne.symm⟩
      rw [← hlocal]
      by_contra hno
      rw [not_or] at hno
      exact hedit ⟨hmasked, hremote, hno.2⟩
    · rintro ⟨-, -, -, -, -, hs', -⟩
      rw [hs] at hs'
      cases hs'
  rcases pullFiles_at S now hvault hfolder hfiles hproto hrun p with ⟨r, hr, hat⟩ | ⟨hr, hview⟩
  · cases hat with
    | kept hwhy hnode _ _ =>
        refine iff_of_true (.of_node S hnode) ?_
        rintro ⟨-, -, -, -, hex, -, hsnap, -⟩
        rcases hwhy with h | h
        · rw [hex] at h
          cases h
        · rw [hsnap] at h
          cases h
    | adopted _ _ _ hs _ hnode _ _ =>
        refine iff_of_true (.of_node S hnode) ?_
        rintro ⟨-, -, -, -, -, hs', -⟩
        rw [hs] at hs'
        cases hs'
    | conflict _ _ _ hwhy hnode _ _ =>
        refine iff_of_true (.of_node S hnode) ?_
        rintro ⟨bytes, mtimeMs, r', hfile, -, hs, hsnap, hinh, -⟩
        have hscan : Assoc.get p (scanLocal S folder files) = none := by
          rw [scanned_none_iff S hfolder, localHash, hfile]
          exact if_neg (by simp [hs])
        rcases hwhy with ⟨h | h, -⟩ | ⟨h, -⟩ | ⟨target, h⟩
        · exact h hsnap
        · exact hinh h
        · rw [hscan] at h
          cases h
        · rw [hfile] at h
          cases h
    | written hex hne _ hwhy _ hnode _ _ =>
        rcases hwhy with ⟨-, l, hl, hsnap⟩ | ⟨hsnap, hinh, hscan⟩
        · have hremote : remoteHash S vault p ≠ snapHash files p := by
            rw [remoteHash_of S hr]
            exact hne.symm
          obtain ⟨hkeeps, hnot⟩ := hentry hl hsnap hremote
          exact iff_of_true hkeeps hnot
        · constructor
          · rintro hkeeps ⟨bytes, mtimeMs, r', hfile, -, -, -, -, hr', hhash, hbytes⟩
            obtain rfl := Option.some.inj (hr.symm.trans hr')
            rcases hkeeps bytes mtimeMs hfile (by rw [hsnap]; rintro ⟨⟩) with ⟨m, h⟩ | h
            · have h' := (hnode.symm.trans h :
                some (Node.file (fetchRemote S r).bytes (now p)) = some (.file bytes m))
              exact hbytes (Node.file.inj (Option.some.inj h')).1
            · rw [remoteHash_of S hr] at h
              exact hhash (Option.some.inj h)
          · intro hnot bytes mtimeMs hfile _
            have hs : synced S p = false := by
              rw [scanned_none_iff S hfolder, localHash, hfile] at hscan
              cases hs : synced S p with
              | false => rfl
              | true =>
                  rw [hs] at hscan
                  cases hscan
            by_cases hhash : (fetchRemote S r).hash = hashLocalContent S (kindForPath p) bytes
            · exact .inr (by rw [remoteHash_of S hr, hhash])
            · by_cases hbytes : (fetchRemote S r).bytes = bytes
              · exact .inl ⟨now p, by rw [← hbytes]; exact hnode⟩
              · exact absurd ⟨bytes, mtimeMs, r, hfile, hex, hs, hsnap, hinh, hr, hhash, hbytes⟩
                  hnot
  · have hnot : ¬Overwritten S vault folder files p := by
      rintro ⟨-, -, r, -, -, -, -, -, hr', -⟩
      rw [hr] at hr'
      cases hr'
    have hnode := congrArg PathView.node hview
    rw [deletedView] at hnode
    cases hget : Assoc.get p files.own with
    | none =>
        simp only [PullState.view, hget] at hnode
        exact iff_of_true (.of_node S hnode) hnot
    | some state =>
        simp only [PullState.view, hget] at hnode
        cases hl : Assoc.get p (scanLocal S folder files) with
        | none =>
            simp only [hl] at hnode
            exact iff_of_true (.of_node S hnode) hnot
        | some l =>
            by_cases hne : l.hash = state.hash
            · have hsnap : snapHash files p = some l.hash := by rw [snapHash, hget, hne]; rfl
              have hremote : remoteHash S vault p ≠ snapHash files p := by
                rw [hsnap, remoteHash, hr]
                rintro ⟨⟩
              exact iff_of_true (hentry hl hsnap hremote).1 hnot
            · simp only [hl, Option.any_some, decide_not, hne] at hnode
              exact iff_of_true (.of_node S hnode) hnot

end

/-! ## The pull of a folder -/

section

variable [DecidableEq η] (now : JsString → Nat) {vault : Vault ν} {folder : Folder}
  {files : Files η} (hvault : Assoc.Wf vault) (hfolder : Assoc.Wf folder)
  (hfiles : Assoc.Wf files.own) (hproto : files.proto = none)
include hvault hfolder hfiles hproto

omit [DecidableEq η] hvault hfolder hproto in
theorem wf_forget : Assoc.Wf (forgetIgnoredAttachments S files).own :=
  hfiles.sublist (List.filter_sublist.map Prod.fst)

omit hfiles hproto in
theorem pull_ok : ∃ st, pull S false now vault folder files = .ok st := by
  obtain ⟨s1, h⟩ := pullListed_ok S now hvault hfolder (forgetIgnoredAttachments S files)
  rw [pull, pullFiles, h]
  exact ⟨_, rfl⟩

/-- A pull goes through, and reports at each path what it should, unless an edit is masked or
the snapshot inherits something. -/
theorem pull_reports_iff : ∃ st, pull S false now vault folder files = .ok st ∧ ∀ p,
    (p ∈ Assoc.keys st.conflicts ↔
        BothChanged S vault folder (forgetIgnoredAttachments S files) p) ↔
      ¬MaskedEdit S vault folder (forgetIgnoredAttachments S files) p ∧
        ¬Phantom S vault folder (forgetIgnoredAttachments S files) p := by
  obtain ⟨st, hrun⟩ : ∃ st, pull S false now vault folder files = .ok st :=
    pull_ok S now hvault hfolder
  exact ⟨st, hrun, conflict_iff S now hvault hfolder (wf_forget S hfiles) hproto hrun⟩

/-- A pull keeps each file that is not of its entry, unless an edit is masked, or the scan has
left the file out. -/
theorem pull_keepsLocal_iff : ∃ st, pull S false now vault folder files = .ok st ∧ ∀ p,
    ¬MaskedEdit S vault folder (forgetIgnoredAttachments S files) p →
    (KeepsLocal S vault folder (forgetIgnoredAttachments S files) st p ↔
      ¬Overwritten S vault folder (forgetIgnoredAttachments S files) p) := by
  obtain ⟨st, hrun⟩ : ∃ st, pull S false now vault folder files = .ok st :=
    pull_ok S now hvault hfolder
  exact ⟨st, hrun, fun p hedit =>
    keepsLocal_iff S now hvault hfolder (wf_forget S hfiles) hproto hrun hedit⟩

end

/-- Numbers of which there is only `0`, and a digest that is the bytes. -/
def wholeDigest : Setup Unit Bytes where
  numbers :=
    { print := fun _ => some (ascii "0")
      read := fun _ => ()
      readNumeral_print := by
        rintro - s ⟨⟩
        decide
      print_read := by
        rintro - s ⟨⟩
        rfl }
  sha256 := id
  isMatch path glob := path = glob
  attachmentSync := none
  linked _ := false

/-! A note that both sides have written to. -/

def theirNote : Vault Unit := [(ascii "a.md", .note (ascii "theirs"))]

def ourNote : Folder := [(ascii "a.md", .file [111] 3)]

def oldNote : Files Bytes :=
  { own := [(ascii "a.md", { kind := .note, hash := [110], size := 1, mtimeMs := 2 })] }

theorem pull_reports_note : ∃ st,
    pull wholeDigest false (fun _ => 5) theirNote ourNote oldNote = .ok st ∧ ∀ p,
    (p ∈ Assoc.keys st.conflicts ↔ BothChanged wholeDigest theirNote ourNote
        (forgetIgnoredAttachments wholeDigest oldNote) p) ↔
      ¬MaskedEdit wholeDigest theirNote ourNote (forgetIgnoredAttachments wholeDigest oldNote) p ∧
        ¬Phantom wholeDigest theirNote ourNote (forgetIgnoredAttachments wholeDigest oldNote) p :=
  pull_reports_iff wholeDigest _ (List.nodup_singleton _) (List.nodup_singleton _)
    (List.nodup_singleton _) rfl

theorem pull_keepsLocal_note : ∃ st,
    pull wholeDigest false (fun _ => 5) theirNote ourNote oldNote = .ok st ∧ ∀ p,
    ¬MaskedEdit wholeDigest theirNote ourNote (forgetIgnoredAttachments wholeDigest oldNote) p →
    (KeepsLocal wholeDigest theirNote ourNote (forgetIgnoredAttachments wholeDigest oldNote) st p ↔
      ¬Overwritten wholeDigest theirNote ourNote
        (forgetIgnoredAttachments wholeDigest oldNote) p) :=
  pull_keepsLocal_iff wholeDigest _ (List.nodup_singleton _) (List.nodup_singleton _)
    (List.nodup_singleton _) rfl

end Realtime.Cli
