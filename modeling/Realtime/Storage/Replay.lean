import Mathlib.Tactic
import Realtime.Storage.Durability

/-!
# What a replay makes of any segment

`replay_log` of `server/src/crdt_storage.rs` on every byte content. A record is read in
the same way in every mode (`readRecord_eq_next_iff`); what the modes differ in is where
they stop: `Inspect` refuses to, `RecoverInterruptedAppend` stops at what a torn append
leaves, and `Repair` at anything. What stays of the file is the records that were
applied.
-/

namespace Realtime.Storage

open Lib Lib.Durable

variable (backend : Backend)

/-- What `replay_log` returns, and what it leaves of the file. -/
def replaySegment (mode : RecoveryMode) (doc : Doc) (bytes : Bytes) :
    Except Corruption Replay × Bytes :=
  match replayLog backend mode doc bytes with
  | .ok replay => (.ok replay, if replay.repaired then bytes.take replay.bytes else bytes)
  | .error corruption => (.error corruption, bytes)

/-- The update is within the limit, decodes, and integrates. -/
structure Accepts (doc : Doc) (update : Bytes) : Prop where
  small : update.length ≤ maxUpdateBytes
  valid : backend.validUpdate update = true
  integrates : backend.integrates doc.applied update = true

def Doc.extend (doc : Doc) (updates : List Bytes) : Doc :=
  { doc with updates := doc.updates ++ updates }

/-- Each of the updates is accepted on top of the ones before it. -/
def AcceptsAll : Doc → List Bytes → Prop
  | _, [] => True
  | doc, update :: updates =>
      Accepts backend doc update ∧ AcceptsAll (doc.extend [update]) updates

variable {backend} {doc : Doc} {update : Bytes} {updates : List Bytes} {mode mode' : RecoveryMode}
  {rest : Bytes} {start records : Nat} {r : Replay}

@[simp] theorem Doc.extend_nil : doc.extend [] = doc := by
  simp [Doc.extend]

@[simp] theorem Doc.extend_extend (more : List Bytes) :
    (doc.extend updates).extend more = doc.extend (updates ++ more) := by
  simp [Doc.extend]

theorem Accepts.encodable (h : Accepts backend doc update) : Encodable update := by
  have hsmall := h.small
  have hmax : maxUpdateBytes < 256 ^ 8 := by decide
  exact lt_of_le_of_lt hsmall hmax

/-- A record is read in the same way in every mode. -/
theorem readRecord_eq_next_iff :
    readRecord backend mode doc rest records = .next update ↔
      Accepts backend doc update ∧ ∃ tail, rest = encodeRecord backend update ++ tail := by
  constructor
  · intro h
    obtain ⟨henc, tail, rfl⟩ := readRecord_eq_next h
    refine ⟨?_, tail, rfl⟩
    obtain ⟨hlength, hexpected, hpayload⟩ := fields_encodeRecord backend update tail
    unfold readRecord at h
    dsimp only at h
    rw [hlength, hexpected, hpayload, LittleEndian.decode_encode henc, List.take_left] at h
    split at h
    · split at h <;> cases h
    split at h
    · split at h <;> cases h
    split at h
    · split at h <;> cases h
    rename_i hsmall
    split at h
    · split at h <;> cases h
    split at h
    · split at h <;> cases h
    rename_i hvalid
    split at h
    · split at h <;> cases h
    rename_i hintegrates
    exact ⟨by omega, by simpa using hvalid, by simpa using hintegrates⟩
  · rintro ⟨haccepts, tail, rfl⟩
    obtain ⟨hlength, hexpected, hpayload⟩ := fields_encodeRecord backend update tail
    have hlong : ¬(encodeRecord backend update ++ tail).length < recordHeaderBytes := by
      rw [List.length_append, length_encodeRecord]
      omega
    have hfits : ¬(update ++ tail).length < update.length := by
      rw [List.length_append]
      omega
    unfold readRecord
    rw [if_neg hlong]
    dsimp only
    rw [hlength, hexpected, hpayload, LittleEndian.decode_encode haccepts.encodable, if_neg hfits,
      List.take_left, if_neg (not_lt.mpr haccepts.small), if_neg (not_not.mpr rfl),
      haccepts.valid, haccepts.integrates]
    rfl

theorem readRecord_inspect_ne_cut : readRecord backend .inspect doc rest records ≠ .cut := by
  intro h
  unfold readRecord at h
  dsimp only at h
  split at h
  · cases h
  split at h
  · cases h
  split at h
  · cases h
  split at h
  · split at h
    · rename_i hcut
      rcases hcut with hcut | ⟨hcut, -⟩ <;> cases hcut
    · cases h
  split at h
  · cases h
  split at h
  · cases h
  · cases h

/-- A repair cuts whatever it does not read. -/
theorem readRecord_repair_ne_corrupt (corruption : Corruption) :
    readRecord backend .repair doc rest records ≠ .corrupt corruption := by
  intro h
  unfold readRecord at h
  dsimp only at h
  split at h
  · cases h
  split at h
  · cases h
  split at h
  · cases h
  split at h
  · rw [if_pos (.inl rfl)] at h
    cases h
  split at h
  · cases h
  split at h
  · cases h
  · cases h

/-- What one mode applies, another that gets as far applies too. -/
theorem replayRecords_mode (h : replayRecords backend mode doc rest start records = .ok r)
    (hmode : r.repaired = false ∨ mode' = .repair) :
    replayRecords backend mode' doc rest start records = .ok r := by
  fun_induction replayRecords backend mode doc rest start records with
  | case1 doc start records =>
      obtain rfl := Except.ok.inj h
      exact replayRecords_nil mode' doc start records
  | case2 doc rest start records hne hread =>
      obtain rfl := Except.ok.inj h
      rcases hmode with hfalse | rfl
      · cases hfalse
      · rw [replayRecords, dif_neg hne]
        cases hrepair : readRecord backend .repair doc rest records with
        | next update =>
            rw [readRecord_eq_next_iff.mpr (readRecord_eq_next_iff.mp hrepair)] at hread
            cases hread
        | cut => rfl
        | corrupt corruption => exact absurd hrepair (readRecord_repair_ne_corrupt corruption)
  | case3 => cases h
  | case4 doc rest start records hne update hread length ih =>
      rw [replayRecords, dif_neg hne, readRecord_eq_next_iff.mpr (readRecord_eq_next_iff.mp hread)]
      exact ih h

theorem replayRecords_inspect (h : replayRecords backend .inspect doc rest start records = .ok r) :
    r.repaired = false := by
  fun_induction replayRecords backend .inspect doc rest start records with
  | case1 =>
      obtain rfl := Except.ok.inj h
      rfl
  | case2 _ _ _ _ _ hread => exact absurd hread readRecord_inspect_ne_cut
  | case3 => cases h
  | case4 _ _ _ _ _ _ _ _ ih => exact ih h

theorem replayRecords_repair (doc : Doc) (rest : Bytes) (start records : Nat) :
    ∃ r, replayRecords backend .repair doc rest start records = .ok r := by
  fun_induction replayRecords backend .repair doc rest start records with
  | case1 => exact ⟨_, rfl⟩
  | case2 => exact ⟨_, rfl⟩
  | case3 _ _ _ _ _ corruption hread => exact absurd hread (readRecord_repair_ne_corrupt corruption)
  | case4 _ _ _ _ _ _ _ _ ih => exact ih

/-- The records that are accepted are applied, in every mode. -/
theorem replayRecords_accepted (mode : RecoveryMode) (haccepts : AcceptsAll backend doc updates)
    (tail : Bytes) (start records : Nat) :
    replayRecords backend mode doc (encodeRecords backend updates ++ tail) start records =
      replayRecords backend mode (doc.extend updates) tail
        (start + (encodeRecords backend updates).length) (records + updates.length) := by
  induction updates generalizing doc start records with
  | nil => simp
  | cons update updates ih =>
      obtain ⟨hfirst, hrest⟩ := haccepts
      have hne : encodeRecords backend (update :: updates) ++ tail ≠ [] := by
        intro hnil
        have hlen := congrArg List.length hnil
        rw [encodeRecords_cons, List.append_assoc, List.length_append, length_encodeRecord,
          List.length_nil, recordHeaderBytes] at hlen
        omega
      have hread : readRecord backend mode doc (encodeRecords backend (update :: updates) ++ tail)
          records = .next update := by
        rw [readRecord_eq_next_iff]
        exact ⟨hfirst, _, by rw [encodeRecords_cons, List.append_assoc]⟩
      rw [replayRecords, dif_neg hne, hread]
      dsimp only
      rw [encodeRecords_cons, List.append_assoc, List.drop_left' (length_encodeRecord update)]
      show replayRecords backend mode (doc.extend [update]) _ _ _ = _
      have hrecords : records + 1 + updates.length = records + (update :: updates).length := by
        rw [List.length_cons]
        omega
      rw [ih hrest, Doc.extend_extend, List.singleton_append, hrecords, List.length_append,
        length_encodeRecord, Nat.add_assoc]

/-- What a replay has applied, every mode accepts. -/
theorem replayRecords_ok (h : replayRecords backend mode doc rest start records = .ok r) :
    ∃ updates tail, AcceptsAll backend doc updates ∧
      rest = encodeRecords backend updates ++ tail ∧ (r.repaired = false → tail = []) ∧
      r = ⟨doc.extend updates, start + (encodeRecords backend updates).length,
        records + updates.length, r.repaired⟩ := by
  fun_induction replayRecords backend mode doc rest start records with
  | case1 doc start records =>
      obtain rfl := Except.ok.inj h
      exact ⟨[], [], trivial, rfl, fun _ => rfl, by simp⟩
  | case2 doc rest start records =>
      obtain rfl := Except.ok.inj h
      exact ⟨[], rest, trivial, rfl, by rintro ⟨⟩, by simp⟩
  | case3 => cases h
  | case4 doc rest start records _ update hread length ih =>
      obtain ⟨haccepts, tail, rfl⟩ := readRecord_eq_next_iff.mp hread
      obtain ⟨updates, tail', hall, hrest, htail, hr⟩ := ih h
      rw [List.drop_left' (length_encodeRecord update)] at hrest
      refine ⟨update :: updates, tail', ⟨haccepts, hall⟩, ?_, htail, ?_⟩
      · rw [encodeRecords_cons, List.append_assoc, ← hrest]
      · have hrecords : records + 1 + updates.length = records + (update :: updates).length := by
          rw [List.length_cons]
          omega
        have hdoc : ({ doc with updates := doc.updates ++ [update] } : Doc).extend updates =
            doc.extend (update :: updates) := Doc.extend_extend updates
        rw [hr, hrecords, hdoc, encodeRecords_cons, List.length_append, length_encodeRecord]
        simp only [length, Nat.add_assoc]

/-! ## The modes -/

theorem replayLog_eq (hlarge : ¬maxLogBytes < rest.length) (hmagic : logMagic <+: rest) :
    replayLog backend mode doc rest =
      replayRecords backend mode doc (rest.drop logMagic.length) logMagic.length 0 := by
  rw [replayLog, if_neg hlarge, if_neg]
  simpa using List.isPrefixOf_iff_prefix.mpr hmagic

/-- A replay that succeeds: what it applies, and what stays of the file. -/
theorem replayLog_ok {bytes : Bytes} (h : replayLog backend mode doc bytes = .ok r) :
    bytes.length ≤ maxLogBytes ∧ ∃ updates tail, AcceptsAll backend doc updates ∧
      bytes = encodeSegment backend updates ++ tail ∧ (r.repaired = false → tail = []) ∧
      r = ⟨doc.extend updates, (encodeSegment backend updates).length, updates.length,
        r.repaired⟩ := by
  unfold replayLog at h
  split at h
  · cases h
  split at h
  · cases h
  rename_i hlarge hmagic
  obtain ⟨rest, rfl⟩ : logMagic <+: bytes := by
    rw [← List.isPrefixOf_iff_prefix]
    simpa using hmagic
  rw [List.drop_left] at h
  obtain ⟨updates, tail, hall, hrest, htail, hr⟩ := replayRecords_ok h
  refine ⟨not_lt.mp hlarge, updates, tail, hall, ?_, htail, ?_⟩
  · rw [encodeSegment, List.append_assoc, ← hrest]
  · rw [length_encodeSegment]
    rwa [Nat.zero_add] at hr

theorem replayLog_mode {bytes : Bytes} (h : replayLog backend mode doc bytes = .ok r)
    (hmode : r.repaired = false ∨ mode' = .repair) :
    replayLog backend mode' doc bytes = .ok r := by
  unfold replayLog at h
  split at h
  · cases h
  split at h
  · cases h
  rename_i hlarge hmagic
  rw [replayLog, if_neg hlarge, if_neg hmagic]
  exact replayRecords_mode h hmode

/-- A segment of accepted records is read as a whole. -/
theorem replayLog_accepted (mode : RecoveryMode) (haccepts : AcceptsAll backend doc updates)
    {tail : Bytes} (hlength : (encodeSegment backend updates ++ tail).length ≤ maxLogBytes) :
    replayLog backend mode doc (encodeSegment backend updates ++ tail) =
      replayRecords backend mode (doc.extend updates) tail
        (encodeSegment backend updates).length updates.length := by
  have hmagic : logMagic <+: encodeSegment backend updates ++ tail :=
    (List.prefix_append _ _).trans (List.prefix_append _ _)
  rw [replayLog_eq (not_lt.mpr hlength) hmagic, encodeSegment, List.append_assoc, List.drop_left,
    replayRecords_accepted mode haccepts, ← List.length_append, Nat.zero_add]

theorem replayLog_segment (mode : RecoveryMode) (haccepts : AcceptsAll backend doc updates)
    (hlength : (encodeSegment backend updates).length ≤ maxLogBytes) :
    replayLog backend mode doc (encodeSegment backend updates) =
      .ok ⟨doc.extend updates, (encodeSegment backend updates).length, updates.length, false⟩ := by
  have hempty : (encodeSegment backend updates ++ []).length ≤ maxLogBytes := by
    rwa [List.append_nil]
  have hwhole := replayLog_accepted mode haccepts hempty
  rwa [List.append_nil, replayRecords_nil] at hwhole

theorem replaySegment_ok {bytes file : Bytes}
    (h : replaySegment backend mode doc bytes = (.ok r, file)) :
    replayLog backend mode doc bytes = .ok r ∧
      file = if r.repaired then bytes.take r.bytes else bytes := by
  unfold replaySegment at h
  cases hlog : replayLog backend mode doc bytes with
  | error corruption =>
      rw [hlog] at h
      cases h
  | ok replay =>
      rw [hlog] at h
      cases h
      exact ⟨rfl, rfl⟩

theorem replaySegment_eq {bytes : Bytes} (h : replayLog backend mode doc bytes = .ok r) :
    replaySegment backend mode doc bytes =
      (.ok r, if r.repaired then bytes.take r.bytes else bytes) := by
  rw [replaySegment, h]

/-- What is left of the file is the records that were applied. -/
theorem replaySegment_file {bytes file : Bytes}
    (h : replaySegment backend mode doc bytes = (.ok r, file)) :
    file.length ≤ maxLogBytes ∧ ∃ updates, AcceptsAll backend doc updates ∧
      file = encodeSegment backend updates ∧
      r = ⟨doc.extend updates, file.length, updates.length, r.repaired⟩ := by
  obtain ⟨hlog, rfl⟩ := replaySegment_ok h
  obtain ⟨hlength, updates, tail, hall, rfl, htail, hr⟩ := replayLog_ok hlog
  have hfile : (if r.repaired then (encodeSegment backend updates ++ tail).take r.bytes
      else encodeSegment backend updates ++ tail) = encodeSegment backend updates := by
    cases hrepaired : r.repaired with
    | false =>
        rw [htail hrepaired, List.append_nil]
        rfl
    | true =>
        have hbytes : r.bytes = (encodeSegment backend updates).length := by rw [hr]
        rw [if_pos rfl, hbytes, List.take_left]
  rw [hfile]
  refine ⟨?_, updates, hall, rfl, hr⟩
  rw [List.length_append] at hlength
  omega

/-- `Inspect`, `RecoverInterruptedAppend` and `Repair` agree, on every segment. -/
theorem recovery_modes_agree (backend : Backend) (doc : Doc) (bytes : Bytes) :
    (∀ r file, replaySegment backend .inspect doc bytes = (.ok r, file) →
      file = bytes ∧ replaySegment backend .recoverInterruptedAppend doc bytes = (.ok r, bytes) ∧
        replaySegment backend .repair doc bytes = (.ok r, bytes)) ∧
    (∀ r file, replaySegment backend .recoverInterruptedAppend doc bytes = (.ok r, file) →
      replaySegment backend .repair doc bytes = (.ok r, file)) ∧
    (∀ corruption file, replaySegment backend .repair doc bytes = (.error corruption, file) →
      maxLogBytes < bytes.length ∨ ¬logMagic <+: bytes) ∧
    ∀ mode r file, replaySegment backend mode doc bytes = (.ok r, file) →
      replaySegment backend .inspect doc file =
        (.ok ⟨r.doc, file.length, r.records, false⟩, file) := by
  refine ⟨?_, ?_, ?_, ?_⟩
  · intro r file h
    obtain ⟨hlog, rfl⟩ := replaySegment_ok h
    have hrepaired : r.repaired = false := by
      unfold replayLog at hlog
      split at hlog
      · cases hlog
      split at hlog
      · cases hlog
      · exact replayRecords_inspect hlog
    have hall : ∀ mode, replaySegment backend mode doc bytes = (.ok r, bytes) := by
      intro mode
      rw [replaySegment_eq (replayLog_mode hlog (.inl hrepaired)), hrepaired]
      rfl
    refine ⟨?_, hall _, hall _⟩
    rw [hrepaired]
    rfl
  · intro r file h
    obtain ⟨hlog, rfl⟩ := replaySegment_ok h
    exact replaySegment_eq (replayLog_mode hlog (.inr rfl))
  · intro corruption file h
    by_contra hgood
    obtain ⟨hlarge, hmagic⟩ := not_or.mp hgood
    obtain ⟨r, hr⟩ : ∃ r, replayRecords backend .repair doc (bytes.drop logMagic.length)
        logMagic.length 0 = .ok r := replayRecords_repair ..
    rw [replaySegment_eq ((replayLog_eq hlarge (not_not.mp hmagic)).trans hr)] at h
    cases h
  · intro mode r file h
    obtain ⟨hlength, updates, hall, rfl, hr⟩ := replaySegment_file h
    rw [hr, replaySegment_eq (replayLog_segment .inspect hall hlength)]
    rfl

/-! ## Torn appends -/

variable (backend) in
/-- Calls of `append_update`, and the updates of those that returned `Ok`. -/
def appendAll (p : DocumentPersistence) (d : Disk) :
    List (Bytes × DocumentPersistence.AppendFaults) → List Bytes × DocumentPersistence × Disk
  | [] => ([], p, d)
  | (update, faults) :: calls =>
      match p.appendUpdate backend update faults d with
      | (.ok _, p, d) => ((appendAll p d calls).1.cons update, (appendAll p d calls).2)
      | (.error _, p, d) => appendAll p d calls

variable (backend) in
/-- The segment has the records of these updates, and behind them what a failed append has
left. -/
structure SegmentOf (p : DocumentPersistence) (d : Disk) (updates : List Bytes) : Prop where
  content : ∃ file piece, (d.logSlot p.generation).now = some file ∧
    file.content = encodeSegment backend updates ++ piece ∧ (p.appendFailed = false → piece = [])
  logBytes : p.logBytes = (encodeSegment backend updates).length
  limit : p.maxLogBytes = maxLogBytes
  fits : p.logBytes ≤ maxLogBytes

/-- A segment as `create_document` and `compact` leave it. -/
structure FreshSegment (p : DocumentPersistence) (d : Disk) : Prop where
  file : (d.logSlot p.generation).now = some (.ofBytes logMagic)
  logBytes : p.logBytes = logMagic.length
  appendFailed : p.appendFailed = false
  limit : p.maxLogBytes = maxLogBytes

section Append

variable {p p' : DocumentPersistence} {d d' : Disk}

theorem FreshSegment.segmentOf (h : FreshSegment p d) : SegmentOf backend p d [] where
  content := by
    refine ⟨_, [], h.file, ?_, fun _ => rfl⟩
    rw [List.append_nil, encodeSegment, encodeRecords_nil, List.append_nil]
    rfl
  logBytes := by
    rw [encodeSegment, encodeRecords_nil, List.append_nil]
    exact h.logBytes
  limit := h.limit
  fits := by
    rw [h.logBytes]
    decide

/-- Cutting off what a failed append has left. -/
theorem SegmentOf.discard (h : SegmentOf backend p d updates) {outcome : Resize} {ok : Bool}
    (hdiscard : p.discardPartialRecord outcome d = (ok, d')) :
    SegmentOf backend { p with appendFailed := p.appendFailed && !ok } d' updates ∧
      (ok = true → SegmentOf backend { p with appendFailed := false } d' updates) := by
  obtain ⟨file, piece, hfile, hcontent, hpiece⟩ := h.content
  have hcut : (file.resize p.logBytes).content = encodeSegment backend updates := by
    rw [h.logBytes]
    exact File.content_resize hcontent
  rcases resizeLog_cases hdiscard with ⟨rfl, rfl⟩ | ⟨_, -, ⟨rfl, -, rfl⟩ | ⟨rfl, -, rfl⟩⟩
  · rw [Bool.not_false, Bool.and_true]
    exact ⟨h, nofun⟩
  · refine ⟨⟨⟨file.resize p.logBytes, [], ?_, ?_, fun _ => rfl⟩, h.logBytes, h.limit, h.fits⟩,
      nofun⟩
    · rw [Disk.logSlot_modifyLog, if_pos rfl]
      show (d.logSlot p.generation).now.map _ = _
      rw [hfile]
      rfl
    · rw [List.append_nil]
      exact hcut
  · have hlog : ((d.modifyLog p.generation fun file =>
        (file.resize p.logBytes).sync).logSlot p.generation).now =
          some (file.resize p.logBytes).sync := by
      rw [Disk.logSlot_modifyLog, if_pos rfl]
      show (d.logSlot p.generation).now.map _ = _
      rw [hfile]
      rfl
    have hnew : ∀ failed, SegmentOf backend { p with appendFailed := failed }
        (d.modifyLog p.generation fun file => (file.resize p.logBytes).sync) updates :=
      fun failed => ⟨⟨_, [], hlog, by rw [List.append_nil]; exact hcut, fun _ => rfl⟩,
        h.logBytes, h.limit, h.fits⟩
    exact ⟨hnew _, fun _ => hnew false⟩

/-- What an append leaves of the segment. -/
theorem SegmentOf.append (h : SegmentOf backend p d updates)
    {faults : DocumentPersistence.AppendFaults} {result : Except StorageError Unit}
    (happend : p.appendUpdate backend update faults d = (result, p', d')) :
    p'.generation = p.generation ∧
      SegmentOf backend p' d' (if result.isOk then updates ++ [update] else updates) := by
  -- without a failed append before it, or once that is cut off
  have hrecord : ∀ p d, SegmentOf backend p d updates → p.appendFailed = false →
      p.appendRecord backend update faults d = (result, p', d') → p'.generation = p.generation ∧
        SegmentOf backend p' d' (if result.isOk then updates ++ [update] else updates) := by
    intro p d h hfailed happend
    unfold DocumentPersistence.appendRecord at happend
    cases hlen : DocumentPersistence.recordLen update.length with
    | error error =>
        rw [hlen] at happend
        cases happend
        exact ⟨rfl, h⟩
    | ok recordLen =>
        rw [hlen] at happend
        dsimp only at happend
        split at happend
        · cases happend
          exact ⟨rfl, h⟩
        rename_i hexceeds
        have hfits : p.logBytes + (encodeRecord backend update).length ≤ maxLogBytes := by
          rw [length_encodeRecord, ← recordLen_ok hlen, ← h.limit]
          simpa [DocumentPersistence.exceeds] using hexceeds
        obtain ⟨file, piece, hfile, hcontent, hpiece⟩ := h.content
        rw [hpiece hfailed, List.append_nil] at hcontent
        have hlog : ∀ f : File → File,
            ((d.modifyLog p.generation f).logSlot p.generation).now = some (f file) := by
          intro f
          rw [Disk.logSlot_modifyLog, if_pos rfl]
          show (d.logSlot p.generation).now.map f = _
          rw [hfile]
          rfl
        cases hwrite : writeRecord p.generation (encodeRecord backend update) faults.write d with
        | mk ok d₁ =>
            rw [hwrite] at happend
            rcases writeRecord_cases hwrite with ⟨rfl, hd₁⟩ | ⟨rfl, rfl⟩
            · have hwritten : SegmentOf backend { p with appendFailed := true } d₁ updates := by
                rcases hd₁ with rfl | ⟨piece, rfl⟩
                · exact ⟨⟨file, [], hfile, by rw [List.append_nil, hcontent], fun _ => rfl⟩,
                    h.logBytes, h.limit, h.fits⟩
                · refine ⟨⟨_, piece, hlog _, ?_, by rintro ⟨⟩⟩, h.logBytes, h.limit, h.fits⟩
                  show file.content ++ piece = _
                  rw [hcontent]
              dsimp only at happend
              cases hdiscard : p.discardPartialRecord faults.discard d₁ with
              | mk ok d₂ =>
                  rw [hdiscard] at happend
                  obtain ⟨hfail, hcut⟩ := hwritten.discard hdiscard
                  cases ok with
                  | false =>
                      cases happend
                      exact ⟨rfl, hfail⟩
                  | true =>
                      cases happend
                      have hend := hcut rfl
                      rw [← hfailed] at hend
                      exact ⟨rfl, hend⟩
            · cases happend
              have hlength : saturatingAdd p.logBytes (encodeRecord backend update).length =
                  p.logBytes + (encodeRecord backend update).length := saturatingAdd_eq hfits
              have hbytes : p.logBytes + (encodeRecord backend update).length =
                  (encodeSegment backend (updates ++ [update])).length := by
                rw [encodeSegment_snoc, List.length_append, h.logBytes]
              refine ⟨rfl, ⟨_, [], hlog _, ?_, fun _ => rfl⟩, ?_, h.limit, ?_⟩
              · show file.content ++ encodeRecord backend update =
                  encodeSegment backend (updates ++ [update]) ++ []
                rw [hcontent, encodeSegment_snoc, List.append_nil]
              · exact hlength.trans hbytes
              · exact hlength.trans_le hfits
  unfold DocumentPersistence.appendUpdate at happend
  cases hfailed : p.appendFailed with
  | false =>
      rw [hfailed, if_neg Bool.false_ne_true] at happend
      exact hrecord p d h hfailed happend
  | true =>
      rw [hfailed, if_pos rfl] at happend
      cases hdiscard : p.discardPartialRecord faults.recover d with
      | mk ok d₁ =>
          rw [hdiscard] at happend
          obtain ⟨hfail, hcut⟩ := h.discard hdiscard
          cases ok with
          | false =>
              cases happend
              have heq : { p with appendFailed := p.appendFailed && !false } = p := by
                rw [Bool.not_false, Bool.and_true]
              rw [heq] at hfail
              exact ⟨rfl, hfail⟩
          | true => exact hrecord { p with appendFailed := false } d₁ (hcut rfl) rfl happend

/-- A run of appends fills the segment with the updates it accepts. -/
theorem SegmentOf.appendAll (h : SegmentOf backend p d updates)
    (calls : List (Bytes × DocumentPersistence.AppendFaults)) :
    let run := Storage.appendAll backend p d calls
    run.2.1.generation = p.generation ∧ SegmentOf backend run.2.1 run.2.2 (updates ++ run.1) := by
  induction calls generalizing p d updates with
  | nil =>
      show p.generation = p.generation ∧ SegmentOf backend p d (updates ++ [])
      rw [List.append_nil]
      exact ⟨rfl, h⟩
  | cons call calls ih =>
      obtain ⟨update, faults⟩ := call
      cases happend : p.appendUpdate backend update faults d with
      | mk result rest =>
          obtain ⟨p₁, d₁⟩ := rest
          obtain ⟨hgeneration, hsegment⟩ := h.append happend
          obtain ⟨hrest, hall⟩ := ih hsegment
          simp only [Storage.appendAll, happend]
          cases result with
          | error error => exact ⟨hrest.trans hgeneration, hall⟩
          | ok u =>
              have hsnoc : updates ++ [update] ++ (Storage.appendAll backend p₁ d₁ calls).1 =
                  updates ++ (Storage.appendAll backend p₁ d₁ calls).1.cons update :=
                List.append_assoc ..
              exact ⟨hrest.trans hgeneration, hsnoc ▸ hall⟩

end Append

variable (backend) in
/-- What a crash leaves of one more append. -/
inductive TornAppend : Bytes → Prop
  | record {update tail : Bytes} : Encodable update → tail <+: encodeRecord backend update →
      tail ≠ encodeRecord backend update → TornAppend tail
  | zeros (n : Nat) : TornAppend (List.replicate n 0)

/-- Too few bytes for the record that they announce. -/
theorem readRecord_short (h : rest.length < recordHeaderBytes ∨
      (rest.drop recordHeaderBytes).length < LittleEndian.decode (rest.take 8)) :
    readRecord backend .recoverInterruptedAppend doc rest records = .cut := by
  unfold readRecord
  by_cases hheader : rest.length < recordHeaderBytes
  · rw [if_pos hheader, if_neg nofun]
  · rw [if_neg hheader]
    dsimp only
    rw [if_pos (h.resolve_left hheader), if_neg nofun]

theorem decode_zeros (n : Nat) : LittleEndian.decode (List.replicate n 0) = 0 := by
  induction n with
  | zero => rfl
  | succ n ih => rw [List.replicate_succ, LittleEndian.decode, ih]; rfl

/-- A torn append is cut off. -/
theorem readRecord_torn (hempty : (backend.checksum []).1 ≠ List.replicate 32 0) {tail : Bytes}
    (h : TornAppend backend tail) :
    readRecord backend .recoverInterruptedAppend doc tail records = .cut := by
  cases h with
  | @record update _ henc hpre hne =>
      obtain ⟨missing, hmissing⟩ := hpre
      apply readRecord_short
      by_cases hheader : tail.length < recordHeaderBytes
      · exact .inl hheader
      right
      have hpos : missing ≠ [] := by
        rintro rfl
        rw [List.append_nil] at hmissing
        exact hne hmissing
      have hlength := congrArg List.length hmissing
      rw [List.length_append, length_encodeRecord] at hlength
      have hmore := List.length_pos_of_ne_nil hpos
      have hfield : tail.take 8 = LittleEndian.encode 8 update.length := by
        obtain ⟨hfirst, -⟩ := fields_encodeRecord backend update []
        rw [List.append_nil, ← hmissing, List.take_append_of_le_length] at hfirst
        · exact hfirst
        · have height : 8 ≤ recordHeaderBytes := by decide
          omega
      rw [hfield, LittleEndian.decode_encode henc, List.length_drop]
      omega
  | zeros n =>
      by_cases hheader : n < recordHeaderBytes
      · exact readRecord_short (.inl (by rwa [List.length_replicate]))
      -- A record of no bytes, whose checksum would have to be zeros.
      unfold readRecord
      have height : 8 ≤ n := by
        have : 8 ≤ recordHeaderBytes := by decide
        omega
      have hdigest : ((List.replicate n (0 : UInt8)).drop 8).take 32 = List.replicate 32 0 := by
        rw [List.drop_replicate, List.take_replicate, min_eq_left]
        have : recordHeaderBytes = 40 := rfl
        omega
      rw [if_neg (by rwa [List.length_replicate])]
      dsimp only
      rw [List.take_replicate, decode_zeros, hdigest, if_neg (Nat.not_lt_zero _),
        if_neg (Nat.not_lt_zero _), List.take_zero, if_pos hempty, if_pos]
      exact .inr ⟨rfl, List.all_eq_true.mpr fun b hb => by
        rw [List.eq_of_mem_replicate hb]
        rfl⟩

/-- Behind the updates that were appended, a torn append is cut off exactly. -/
theorem interrupted_append_recovered (backend : Backend)
    (hempty : (backend.checksum []).1 ≠ List.replicate 32 0) (p : DocumentPersistence) (d : Disk)
    (hfresh : FreshSegment p d) (calls : List (Bytes × DocumentPersistence.AppendFaults))
    (doc : Doc) (haccepts : AcceptsAll backend doc (appendAll backend p d calls).1) (tail : Bytes)
    (htail : TornAppend backend tail)
    (hlength : (encodeSegment backend (appendAll backend p d calls).1 ++ tail).length ≤
      maxLogBytes) :
    let run := appendAll backend p d calls
    let accepted := run.1
    let segment := encodeSegment backend accepted
    (run.2.1.appendFailed = false → run.2.2.read (.log p.generation) = some segment) ∧
      replaySegment backend .recoverInterruptedAppend doc (segment ++ tail) =
        (.ok ⟨doc.extend accepted, segment.length, accepted.length, !tail.isEmpty⟩, segment) ∧
      replaySegment backend .recoverInterruptedAppend doc segment =
        (.ok ⟨doc.extend accepted, segment.length, accepted.length, false⟩, segment) := by
  intro run accepted segment
  refine ⟨?_, ?_, ?_⟩
  · intro hfailed
    have hnone : SegmentOf backend p d [] := hfresh.segmentOf
    obtain ⟨hgeneration, hsegment⟩ := hnone.appendAll calls
    obtain ⟨file, piece, hfile, hcontent, hpiece⟩ := hsegment.content
    rw [hpiece hfailed, List.append_nil, List.nil_append] at hcontent
    show (run.2.2.logSlot p.generation).now.map File.content = some segment
    rw [← hgeneration, hfile]
    exact congrArg some hcontent
  · have hlog := replayLog_accepted .recoverInterruptedAppend haccepts hlength
    cases tail with
    | nil =>
        rw [replayRecords_nil] at hlog
        rw [replaySegment_eq hlog]
        show (_, segment ++ []) = _
        rw [List.append_nil]
        rfl
    | cons byte tail =>
        rw [replayRecords, dif_neg (List.cons_ne_nil _ _), readRecord_torn hempty htail] at hlog
        rw [replaySegment_eq hlog]
        show (_, (segment ++ byte :: tail).take segment.length) = _
        rw [List.take_left]
        rfl
  · have hshort : segment.length ≤ maxLogBytes := by
      rw [List.length_append] at hlength
      exact (Nat.le_add_right _ _).trans hlength
    rw [replaySegment_eq (replayLog_segment .recoverInterruptedAppend haccepts hshort)]
    rfl

/-- A digest that is not zeros, and a Yjs that takes any update. -/
def tornBackend : Backend where
  checksum _ := ⟨List.replicate 32 1, rfl⟩
  validUpdate _ := true
  integrates _ _ := true

/-- Behind an update, a crash leaves zeros. -/
theorem interrupted_append_recovered_zeros :
    let calls := [(sampleUpdate, ⟨.failed, .synced, .failed⟩)]
    let run := appendAll tornBackend freshPersistence (freshDisk tornBackend emptyUpdate) calls
    run.1 = [sampleUpdate] ∧
      replaySegment tornBackend .recoverInterruptedAppend ⟨emptyUpdate, []⟩
        (encodeSegment tornBackend run.1 ++ List.replicate 50 0) =
          (.ok ⟨⟨emptyUpdate, run.1⟩, (encodeSegment tornBackend run.1).length, run.1.length, true⟩,
            encodeSegment tornBackend run.1) := by
  intro calls run
  have hfresh : FreshSegment freshPersistence (freshDisk tornBackend emptyUpdate) :=
    ⟨rfl, rfl, rfl, rfl⟩
  have haccepted : run.1 = [sampleUpdate] := by decide
  have haccepts : AcceptsAll tornBackend ⟨emptyUpdate, []⟩ run.1 := by
    rw [haccepted]
    exact ⟨⟨by decide, rfl, rfl⟩, trivial⟩
  have hlength : (encodeSegment tornBackend run.1 ++ List.replicate 50 0).length ≤ maxLogBytes := by
    rw [haccepted]
    decide
  have hrun := interrupted_append_recovered tornBackend (by decide) freshPersistence
    (freshDisk tornBackend emptyUpdate) hfresh calls ⟨emptyUpdate, []⟩ haccepts
    (List.replicate 50 0) (.zeros 50) hlength
  exact ⟨haccepted, hrun.2.1⟩

/-- Behind a segment, zeros up to more than a segment may have. -/
theorem not_interrupted_append_recovered :
    ¬∀ backend : Backend, (backend.checksum []).1 ≠ List.replicate 32 0 →
      ∀ (p : DocumentPersistence) (d : Disk), FreshSegment p d →
      ∀ (calls : List (Bytes × DocumentPersistence.AppendFaults)) (doc : Doc),
      AcceptsAll backend doc (appendAll backend p d calls).1 →
      ∀ tail, TornAppend backend tail →
      let segment := encodeSegment backend (appendAll backend p d calls).1
      replaySegment backend .recoverInterruptedAppend doc (segment ++ tail) =
        (.ok ⟨doc.extend (appendAll backend p d calls).1, segment.length,
          (appendAll backend p d calls).1.length, !tail.isEmpty⟩, segment) := by
  intro h
  have hfresh : FreshSegment freshPersistence (freshDisk tornBackend emptyUpdate) :=
    ⟨rfl, rfl, rfl, rfl⟩
  obtain ⟨n, hn⟩ : ∃ n, maxLogBytes = n := ⟨_, rfl⟩
  have hrun := h tornBackend (by decide) _ _ hfresh [] ⟨emptyUpdate, []⟩ trivial
    (List.replicate n 0) (.zeros n)
  have hlarge : maxLogBytes < (encodeSegment tornBackend [] ++ List.replicate n 0).length := by
    have hmagic : (encodeSegment tornBackend []).length = 8 := rfl
    rw [List.length_append, List.length_replicate, hmagic]
    omega
  have herror : (replaySegment tornBackend .recoverInterruptedAppend ⟨emptyUpdate, []⟩
      (encodeSegment tornBackend [] ++ List.replicate n 0)).1 = .error .segmentTooLarge := by
    rw [replaySegment, replayLog, if_pos hlarge]
  exact nomatch herror.symm.trans (congrArg Prod.fst hrun)

end Realtime.Storage
