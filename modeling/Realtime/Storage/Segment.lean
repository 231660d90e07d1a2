import Mathlib.Data.List.Basic
import Realtime.Lib.LittleEndian

/-!
# Update segments

The append-only log of updates of one storage generation, as in
`server/src/crdt_storage.rs`: the encoding of a record, and `replay_log`, which
applies the records of a segment to a document and cuts an interrupted append
off its end.

SHA-256 and Yjs are outside the file and parameters here. A document is what has
been applied to it: the snapshot it was decoded from, and the updates since.
-/

namespace Realtime.Storage

open Lib

abbrev Bytes := List UInt8

def ascii (s : String) : Bytes := s.toList.map fun c => UInt8.ofNat c.toNat

def logMagic : Bytes := ascii "RTCRDL02"

def recordHeaderBytes : Nat := 8 + 32

def maxLogBytes : Nat := 512 * 1024 * 1024

def maxUpdateBytes : Nat := 64 * 1024 * 1024

structure Doc where
  snapshot : Bytes
  updates : List Bytes

def Doc.applied (doc : Doc) : List Bytes := doc.snapshot :: doc.updates

structure Backend where
  /-- `Sha256::digest`. -/
  checksum : Bytes → { digest : Bytes // digest.length = 32 }
  /-- Whether `safe_yrs::validate_update` accepts an update. -/
  validUpdate : Bytes → Bool
  /-- Whether `apply_update` gets through on a document with these updates. -/
  integrates : List Bytes → Bytes → Bool

/-- The reasons of `StorageError::Corrupt`. -/
inductive Corruption where
  | partialRecordStays
  | recordLengthOverflow
  | snapshotTooLarge
  | generationOverflow
  | invalidManifest
  | unknownFormat
  | unsupportedVersion
  | manifestNames
  | noRecoverableGeneration
  | segmentTooLarge
  | invalidSegmentHeader
  | truncatedHeader
  | truncatedPayload
  | updateTooLarge
  | checksumMismatch (record : Nat)
  | malformedUpdate (record : Nat)
  | notIntegrated (record : Nat)
  | invalidSnapshotHeader
  | snapshotLengthMismatch
  | snapshotChecksumMismatch
  | invalidSnapshot
  | snapshotNotIntegrated
  deriving DecidableEq

inductive RecoveryMode where
  | inspect
  | recoverInterruptedAppend
  | repair
  deriving DecidableEq

variable (backend : Backend)

def encodeRecord (update : Bytes) : Bytes :=
  LittleEndian.encode 8 update.length ++ (backend.checksum update).1 ++ update

/-- What the loop of `replay_log` makes of the bytes at a record's start. -/
inductive Reading where
  | next (update : Bytes)
  | cut
  | corrupt (corruption : Corruption)
  deriving DecidableEq

/-- `read_record`: a record, the end, a torn tail or damage. -/
def readRecord (mode : RecoveryMode) (doc : Doc) (rest : Bytes) (records : Nat) : Reading :=
  if rest.length < recordHeaderBytes then
    if mode = .inspect then .corrupt .truncatedHeader else .cut
  else
    let length := LittleEndian.decode (rest.take 8)
    let expected := (rest.drop 8).take 32
    let payload := rest.drop recordHeaderBytes
    if payload.length < length then
      if mode = .inspect then .corrupt .truncatedPayload else .cut
    else if maxUpdateBytes < length then
      if mode = .repair then .cut else .corrupt .updateTooLarge
    else
      let update := payload.take length
      if (backend.checksum update).1 ≠ expected then
        -- space a crash allocated before the append's data landed
        let zeroTail := rest.all (· == 0)
        if mode = .repair ∨ (mode = .recoverInterruptedAppend ∧ zeroTail) then .cut
        else .corrupt (.checksumMismatch records)
      else if !backend.validUpdate update then
        if mode = .repair then .cut else .corrupt (.malformedUpdate records)
      else if !backend.integrates doc.applied update then
        if mode = .repair then .cut else .corrupt (.notIntegrated records)
      else .next update

structure Replay where
  doc : Doc
  bytes : Nat
  records : Nat
  repaired : Bool

/-- The loop, with the bytes from `start` on. A cut is made at `bytes`. -/
def replayRecords (mode : RecoveryMode) (doc : Doc) (rest : Bytes) (start records : Nat) :
    Except Corruption Replay :=
  if _h : rest = [] then .ok ⟨doc, start, records, false⟩
  else
    match readRecord backend mode doc rest records with
    | .cut => .ok ⟨doc, start, records, true⟩
    | .corrupt corruption => .error corruption
    | .next update =>
        let length := recordHeaderBytes + update.length
        replayRecords mode { doc with updates := doc.updates ++ [update] } (rest.drop length)
          (start + length) (records + 1)
termination_by rest.length
decreasing_by
  have hlen := List.length_pos_of_ne_nil _h
  have : 0 < recordHeaderBytes + update.length := by
    have : 0 < recordHeaderBytes := by decide
    omega
  rw [List.length_drop]
  omega

def replayLog (mode : RecoveryMode) (doc : Doc) (bytes : Bytes) : Except Corruption Replay :=
  if maxLogBytes < bytes.length then .error .segmentTooLarge
  else if !logMagic.isPrefixOf bytes then .error .invalidSegmentHeader
  else replayRecords backend mode doc (bytes.drop logMagic.length) logMagic.length 0

/-! ## Records -/

/-- The records of some updates, one after the other. -/
def encodeRecords (updates : List Bytes) : Bytes := updates.flatMap (encodeRecord backend)

/-- A segment with the records of some updates. -/
def encodeSegment (updates : List Bytes) : Bytes := logMagic ++ encodeRecords backend updates

/-- An update whose length fits the record header. -/
def Encodable (update : Bytes) : Prop := update.length < 256 ^ 8

variable {backend}

@[simp] theorem encodeRecords_nil : encodeRecords backend [] = [] := rfl

@[simp] theorem encodeRecords_cons (update : Bytes) (updates : List Bytes) :
    encodeRecords backend (update :: updates) =
      encodeRecord backend update ++ encodeRecords backend updates := rfl

@[simp] theorem encodeRecords_append (updates more : List Bytes) :
    encodeRecords backend (updates ++ more) =
      encodeRecords backend updates ++ encodeRecords backend more :=
  List.flatMap_append

theorem encodeSegment_append (updates more : List Bytes) :
    encodeSegment backend (updates ++ more) =
      encodeSegment backend updates ++ encodeRecords backend more := by
  rw [encodeSegment, encodeSegment, encodeRecords_append, List.append_assoc]

theorem length_encodeRecord (update : Bytes) :
    (encodeRecord backend update).length = recordHeaderBytes + update.length := by
  simp only [encodeRecord, List.length_append, LittleEndian.length_encode,
    (backend.checksum update).2, recordHeaderBytes]

variable (backend) in
/-- The three fields at the start of a record. -/
theorem fields_encodeRecord (update tail : Bytes) :
    let rest := encodeRecord backend update ++ tail
    rest.take 8 = LittleEndian.encode 8 update.length ∧
      (rest.drop 8).take 32 = (backend.checksum update).1 ∧
      rest.drop recordHeaderBytes = update ++ tail := by
  have hhead := LittleEndian.length_encode 8 update.length
  have hdigest := (backend.checksum update).2
  refine ⟨?_, ?_, ?_⟩
  · rw [encodeRecord, List.append_assoc, List.append_assoc, List.take_left' hhead]
  · rw [encodeRecord, List.append_assoc, List.append_assoc, List.drop_left' hhead,
      List.take_left' hdigest]
  · rw [encodeRecord, List.append_assoc]
    apply List.drop_left'
    rw [List.length_append, hhead, hdigest]
    rfl

/-- An encoded record is read as it was written, or refused as a whole. -/
theorem readRecord_encodeRecord {mode : RecoveryMode} (hmode : mode ≠ .repair) (doc : Doc)
    {update : Bytes} (h : Encodable update) (tail : Bytes) (records : Nat) :
    readRecord backend mode doc (encodeRecord backend update ++ tail) records = .next update ∨
      ∃ corruption, readRecord backend mode doc (encodeRecord backend update ++ tail) records =
        .corrupt corruption := by
  obtain ⟨hlength, hexpected, hpayload⟩ := fields_encodeRecord backend update tail
  have hlong : ¬(encodeRecord backend update ++ tail).length < recordHeaderBytes := by
    rw [List.length_append, length_encodeRecord]
    omega
  have hfits : ¬(update ++ tail).length < update.length := by
    rw [List.length_append]
    omega
  unfold readRecord
  rw [if_neg hlong]
  dsimp only
  rw [hlength, hexpected, hpayload, LittleEndian.decode_encode h, if_neg hfits, List.take_left,
    if_neg hmode, if_neg hmode, if_neg hmode]
  by_cases hlarge : maxUpdateBytes < update.length
  · exact .inr ⟨_, if_pos hlarge⟩
  rw [if_neg hlarge, if_neg (not_not.mpr rfl)]
  cases backend.validUpdate update with
  | false => exact .inr ⟨_, rfl⟩
  | true =>
      cases backend.integrates doc.applied update with
      | false => exact .inr ⟨_, rfl⟩
      | true => exact .inl rfl

/-- What is read as a record is one. -/
theorem readRecord_eq_next {mode : RecoveryMode} {doc : Doc} {rest update : Bytes} {records : Nat}
    (h : readRecord backend mode doc rest records = .next update) :
    Encodable update ∧ ∃ tail, rest = encodeRecord backend update ++ tail := by
  unfold readRecord at h
  split at h
  · split at h <;> cases h
  rename_i hlong
  dsimp only at h
  split at h
  · split at h <;> cases h
  rename_i hfits
  split at h
  · split at h <;> cases h
  split at h
  · split at h <;> cases h
  rename_i hsum
  split at h
  · split at h <;> cases h
  split at h
  · split at h <;> cases h
  obtain rfl := Reading.next.inj h
  -- the record is its length, its checksum and the payload just read
  have hhead : (rest.take 8).length = 8 := by
    have : 8 ≤ recordHeaderBytes := by decide
    rw [List.length_take]
    omega
  have hlength : ((rest.drop recordHeaderBytes).take
      (LittleEndian.decode (rest.take 8))).length = LittleEndian.decode (rest.take 8) := by
    rw [List.length_take]
    omega
  refine ⟨?_, (rest.drop recordHeaderBytes).drop (LittleEndian.decode (rest.take 8)), ?_⟩
  · have := LittleEndian.decode_lt (rest.take 8)
    rw [Encodable, hlength]
    rwa [hhead] at this
  · have hencode := LittleEndian.encode_decode (rest.take 8)
    rw [hhead] at hencode
    rw [encodeRecord, hlength, hencode, not_not.mp hsum, List.append_assoc, List.take_append_drop,
      List.append_assoc]
    have hdrop : rest.drop recordHeaderBytes = (rest.drop 8).drop 32 := by
      rw [List.drop_drop]
      rfl
    rw [hdrop, List.take_append_drop, List.take_append_drop]

theorem replayRecords_nil (mode : RecoveryMode) (doc : Doc) (start records : Nat) :
    replayRecords backend mode doc [] start records = .ok ⟨doc, start, records, false⟩ := by
  rw [replayRecords, dif_pos rfl]

/-- The records at the start of a segment are applied, or the replay fails. -/
theorem replayRecords_encoded {mode : RecoveryMode} (hmode : mode ≠ .repair) {updates : List Bytes}
    (henc : ∀ update ∈ updates, Encodable update) {doc : Doc} {tail : Bytes} {start records : Nat}
    {r : Replay}
    (h : replayRecords backend mode doc (encodeRecords backend updates ++ tail) start records =
      .ok r) :
    ∃ start' records', replayRecords backend mode { doc with updates := doc.updates ++ updates }
      tail start' records' = .ok r := by
  induction updates generalizing doc start records with
  | nil =>
      rw [List.append_nil]
      exact ⟨start, records, h⟩
  | cons update updates ih =>
      rw [encodeRecords_cons, List.append_assoc] at h
      have hne : encodeRecord backend update ++ (encodeRecords backend updates ++ tail) ≠ [] := by
        intro hnil
        have := congrArg List.length hnil
        rw [List.length_append, length_encodeRecord, List.length_nil, recordHeaderBytes] at this
        omega
      rw [replayRecords, dif_neg hne] at h
      rcases readRecord_encodeRecord hmode doc (henc update List.mem_cons_self)
        (encodeRecords backend updates ++ tail) records with hread | ⟨corruption, hread⟩
      · rw [hread] at h
        dsimp only at h
        rw [List.drop_left' (length_encodeRecord update)] at h
        have hrest := ih (fun u hu => henc u (List.mem_cons_of_mem _ hu)) h
        rwa [List.append_assoc] at hrest
      · rw [hread] at h
        cases h

variable (backend) in
/-- What a replay has applied is what the segment holds, up to the cut. -/
structure ReplaySpec (doc : Doc) (rest : Bytes) (start records : Nat) (r : Replay)
    (updates : List Bytes) (tail : Bytes) : Prop where
  encodable : ∀ update ∈ updates, Encodable update
  rest_eq : rest = encodeRecords backend updates ++ tail
  tail_eq : r.repaired = false → tail = []
  snapshot_eq : r.doc.snapshot = doc.snapshot
  updates_eq : r.doc.updates = doc.updates ++ updates
  bytes_eq : r.bytes = start + (encodeRecords backend updates).length
  records_eq : r.records = records + updates.length

theorem replayRecords_spec {mode : RecoveryMode} {doc : Doc} {rest : Bytes} {start records : Nat}
    {r : Replay} (h : replayRecords backend mode doc rest start records = .ok r) :
    ∃ updates tail, ReplaySpec backend doc rest start records r updates tail := by
  fun_induction replayRecords backend mode doc rest start records with
  | case1 doc start records =>
      obtain rfl := Except.ok.inj h
      exact ⟨[], [], by simp, rfl, fun _ => rfl, rfl, by simp, rfl, rfl⟩
  | case2 doc rest start records _ hread =>
      obtain rfl := Except.ok.inj h
      exact ⟨[], rest, by simp, rfl, fun h => (Bool.noConfusion h), rfl, by simp, rfl, rfl⟩
  | case3 => cases h
  | case4 doc rest start records _ update hread length ih =>
      obtain ⟨henc, tail, rfl⟩ := readRecord_eq_next hread
      obtain ⟨updates, tail', hspec⟩ := ih h
      rw [List.drop_left' (length_encodeRecord update)] at hspec
      refine ⟨update :: updates, tail', ?_, ?_, hspec.tail_eq, hspec.snapshot_eq, ?_, ?_, ?_⟩
      · intro u hu
        rcases List.mem_cons.mp hu with rfl | hu
        · exact henc
        · exact hspec.encodable u hu
      · rw [encodeRecords_cons, List.append_assoc, ← hspec.rest_eq]
      · rw [hspec.updates_eq, List.append_assoc]
        rfl
      · rw [hspec.bytes_eq, encodeRecords_cons, List.length_append, length_encodeRecord]
        omega
      · rw [hspec.records_eq, List.length_cons]
        omega

/-! ## Segments -/

theorem length_encodeSegment (updates : List Bytes) :
    (encodeSegment backend updates).length =
      logMagic.length + (encodeRecords backend updates).length := List.length_append

/-- A successful replay of a segment. -/
theorem replayLog_spec {mode : RecoveryMode} {doc : Doc} {bytes : Bytes} {r : Replay}
    (h : replayLog backend mode doc bytes = .ok r) :
    ∃ updates tail, (∀ update ∈ updates, Encodable update) ∧
      bytes = encodeSegment backend updates ++ tail ∧ (r.repaired = false → tail = []) ∧
      r.doc = ⟨doc.snapshot, doc.updates ++ updates⟩ ∧
      r.bytes = (encodeSegment backend updates).length := by
  unfold replayLog at h
  split at h
  · cases h
  split at h
  · cases h
  rename_i hmagic
  obtain ⟨rest, rfl⟩ : logMagic <+: bytes := by
    rw [← List.isPrefixOf_iff_prefix]
    simpa using hmagic
  rw [List.drop_left] at h
  obtain ⟨updates, tail, hspec⟩ := replayRecords_spec h
  refine ⟨updates, tail, hspec.encodable, ?_, hspec.tail_eq, ?_, ?_⟩
  · rw [encodeSegment, List.append_assoc, ← hspec.rest_eq]
  · rw [← hspec.snapshot_eq, ← hspec.updates_eq]
  · rw [hspec.bytes_eq, length_encodeSegment]

/-- A fresh segment. -/
theorem replayLog_logMagic (mode : RecoveryMode) (doc : Doc) :
    replayLog backend mode doc logMagic = .ok ⟨doc, logMagic.length, 0, false⟩ := by
  unfold replayLog
  rw [if_neg (by decide), if_neg (by decide), List.drop_length, replayRecords_nil]

/-- No replay but a repair cuts a record of the segment. -/
theorem replayLog_encoded {mode : RecoveryMode} (hmode : mode ≠ .repair) {updates : List Bytes}
    (henc : ∀ update ∈ updates, Encodable update) {doc : Doc} {bytes : Bytes} {r : Replay}
    (hbytes : encodeSegment backend updates <+: bytes)
    (h : replayLog backend mode doc bytes = .ok r) :
    ∃ more, r.doc.updates = doc.updates ++ updates ++ more := by
  obtain ⟨tail, rfl⟩ := hbytes
  unfold replayLog at h
  split at h
  · cases h
  split at h
  · cases h
  rw [encodeSegment, List.append_assoc, List.drop_left] at h
  obtain ⟨start, records, hrest⟩ := replayRecords_encoded hmode henc h
  obtain ⟨more, tail', hspec⟩ := replayRecords_spec hrest
  exact ⟨more, hspec.updates_eq⟩

end Realtime.Storage
