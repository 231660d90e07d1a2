import Mathlib.Data.List.Sort
import Realtime.Lib.Assoc
import Realtime.Lib.RustStr

/-!
# The handshake fast path

A reconnecting client sends everything it has. `PersistentDocument::contains_update`
skips an update the document already holds: no block clock of it is new, and every range
it deletes is deleted in the document (`deletions_applied`), which takes a walk over the
document's ranges of that client in the order of their starts (`range_covered`).

yrs is a parameter. What is used of it is that a diff against a state vector leaves out
the blocks below it and no others, and keeps the delete set.
-/

namespace Realtime.Sync.FastPath

open Lib

abbrev Client := Nat

/-- `Range<u32>`: the clocks from `start` up to `stop`. -/
structure Range where
  start : Nat
  stop : Nat
  deriving DecidableEq

def Range.Mem (clock : Nat) (range : Range) : Prop := range.start ≤ clock ∧ clock < range.stop

/-- A hash map of clients to ranges of clocks. -/
structure DeleteSet where
  entries : List (Client × List Range)
  wf : Assoc.Wf entries

/-- A hash map of clients to clocks. -/
structure StateVector where
  entries : List (Client × Nat)
  wf : Assoc.Wf entries

namespace DeleteSet

def Deletes (d : DeleteSet) (client clock : Nat) : Prop :=
  ∃ ranges, (client, ranges) ∈ d.entries ∧ ∃ range ∈ ranges, range.Mem clock

def is_empty (d : DeleteSet) : Bool :=
  d.entries.all fun entry => entry.2.all fun range => range.stop ≤ range.start

end DeleteSet

/-- A client that is not in the map has clock 0. -/
def StateVector.get (v : StateVector) (client : Client) : Nat :=
  (Assoc.get client v.entries).getD 0

/-- The loop over `covered`, with `next` the first clock not found yet. -/
def covered_from (stop : Nat) : Nat → List Range → Bool
  | next, [] => stop ≤ next
  | next, candidate :: covered =>
      if candidate.stop ≤ next then covered_from stop next covered
      else if next < candidate.start then false
      else if stop ≤ candidate.stop then true
      else covered_from stop candidate.stop covered

def range_covered (range : Range) (covered : List Range) : Bool :=
  covered_from range.stop range.start covered

/-- `sort_by_key(|range| range.start)` -/
def sorted (ranges : List Range) : List Range :=
  ranges.mergeSort fun a b => a.start ≤ b.start

def applied_ranges (applied : DeleteSet) : List (Client × List Range) :=
  applied.entries.foldl (fun table entry => Assoc.set entry.1 (sorted entry.2) table) []

def deletions_applied (deletions applied : DeleteSet) (known : StateVector) : Bool :=
  deletions.entries.all fun (client, ranges) => ranges.all fun range =>
    decide (range.stop ≤ range.start) || (decide (range.stop ≤ known.get client) &&
      match Assoc.get client (applied_ranges applied) with
      | some covered => range_covered range covered
      | none => false)

/-- What the fast path calls of yrs; `none` is an error or a caught panic. -/
structure Yrs (Update : Type) where
  decode_update : Bytes → Option Update
  /-- Whether `apply_update` returns on an empty document. -/
  applies : Update → Bool
  state_vector : Update → StateVector
  encode_v1 : StateVector → Bytes
  diff_updates_v1 : Bytes → Bytes → Option Bytes
  decode_delete_set : Bytes → Option DeleteSet

/-- A document with what `state_vector` and `snapshot().delete_set` report of it. -/
structure Document where
  Has : Client → Nat → Prop
  Deleted : Client → Nat → Prop
  state_vector : StateVector
  delete_set : DeleteSet
  has_iff : ∀ client clock, Has client clock ↔ clock < state_vector.get client
  deleted_iff : ∀ client clock, Deleted client clock ↔ delete_set.Deletes client clock

section

variable {Update : Type} (yrs : Yrs Update)

def validate_update (bytes : Bytes) : Option Update :=
  match yrs.decode_update bytes with
  | none => none
  | some preflight => if yrs.applies preflight then yrs.decode_update bytes else none

/-- A first byte 0 says that the diff has blocks of no client; the delete set follows. -/
def update_contents (bytes : Bytes) : Option (StateVector × DeleteSet) := do
  let state_vector := yrs.state_vector (← validate_update yrs bytes)
  let diff ← yrs.diff_updates_v1 bytes (yrs.encode_v1 state_vector)
  match diff with
  | 0 :: delete_set => return (state_vector, ← yrs.decode_delete_set delete_set)
  | _ => none

/-- `document` is `none` where the lock is poisoned. -/
def contains_update (document : Option Document) (update : Bytes) : Bool :=
  match update_contents yrs update with
  | none => false
  | some (update_clocks, deletions) =>
      match document with
      | none => false
      | some document =>
          let known := document.state_vector
          if update_clocks.entries.any fun (client, clock) => known.get client < clock then false
          else deletions.is_empty || deletions_applied deletions document.delete_set known

/-- What is documented of a diff: it leaves out the blocks below the state vector, and
no others, and keeps the whole delete set. An encoded update begins with the number of
clients it has blocks of. -/
structure Yrs.Lawful (Blocks Deletes : Bytes → Client → Nat → Prop) : Prop where
  blocks : ∀ update vector rest,
    yrs.diff_updates_v1 update (yrs.encode_v1 vector) = some (0 :: rest) →
      ∀ client clock, Blocks update client clock → clock < vector.get client
  deletes : ∀ update vector rest delete_set,
    yrs.diff_updates_v1 update (yrs.encode_v1 vector) = some (0 :: rest) →
      yrs.decode_delete_set rest = some delete_set →
        ∀ client clock, Deletes update client clock → delete_set.Deletes client clock

end

/-! ## Coverage by ranges in the order of their starts -/

/-- A range that starts past `next` leaves `next` to none of the ranges behind it. -/
theorem covered_from_iff {stop next : Nat} {covered : List Range}
    (hsorted : covered.Pairwise fun a b => a.start ≤ b.start) (hnext : next < stop) :
    covered_from stop next covered = true ↔
      ∀ clock, next ≤ clock → clock < stop → ∃ range ∈ covered, range.Mem clock := by
  induction covered generalizing next with
  | nil =>
      rw [covered_from, decide_eq_true_iff]
      constructor
      · intro h
        omega
      · intro h
        obtain ⟨range, hmem, -⟩ := h next le_rfl hnext
        cases hmem
  | cons candidate covered ih =>
      obtain ⟨hfirst, hrest⟩ := List.pairwise_cons.mp hsorted
      rw [covered_from]
      by_cases hbehind : candidate.stop ≤ next
      · -- the range ends before the clocks that are left
        rw [if_pos hbehind, ih hrest hnext]
        refine forall_congr' fun clock => imp_congr_right fun hlo => imp_congr_right fun hhi => ?_
        constructor
        · rintro ⟨range, hmem, hin⟩
          exact ⟨range, List.mem_cons_of_mem _ hmem, hin⟩
        · rintro ⟨range, hmem, hin⟩
          rcases List.mem_cons.mp hmem with rfl | hmem
          · have := hin.2
            omega
          · exact ⟨range, hmem, hin⟩
      · rw [if_neg hbehind]
        by_cases hgap : next < candidate.start
        · rw [if_pos hgap]
          refine iff_of_false Bool.false_ne_true fun h => ?_
          obtain ⟨range, hmem, hin⟩ := h next le_rfl hnext
          have hstart : candidate.start ≤ range.start := by
            rcases List.mem_cons.mp hmem with rfl | hmem
            · exact le_rfl
            · exact hfirst range hmem
          have := hin.1
          omega
        · rw [if_neg hgap]
          have hcandidate : ∀ clock, next ≤ clock → clock < candidate.stop →
              candidate.Mem clock := by
            intro clock hlo hhi
            exact ⟨by omega, hhi⟩
          by_cases hdone : stop ≤ candidate.stop
          · rw [if_pos hdone]
            refine iff_of_true rfl fun clock hlo hhi => ?_
            exact ⟨candidate, List.mem_cons_self, hcandidate clock hlo (by omega)⟩
          · rw [if_neg hdone, ih hrest (by omega)]
            constructor
            · intro h clock hlo hhi
              by_cases hin : clock < candidate.stop
              · exact ⟨candidate, List.mem_cons_self, hcandidate clock hlo hin⟩
              · obtain ⟨range, hmem, hin⟩ := h clock (by omega) hhi
                exact ⟨range, List.mem_cons_of_mem _ hmem, hin⟩
            · intro h clock hlo hhi
              obtain ⟨range, hmem, hin⟩ := h clock (by omega) hhi
              rcases List.mem_cons.mp hmem with rfl | hmem
              · have := hin.2
                omega
              · exact ⟨range, hmem, hin⟩

theorem range_covered_iff {range : Range} {covered : List Range}
    (hsorted : covered.Pairwise fun a b => a.start ≤ b.start) (hrange : range.start < range.stop) :
    range_covered range covered = true ↔
      ∀ clock, range.Mem clock → ∃ candidate ∈ covered, candidate.Mem clock := by
  rw [range_covered, covered_from_iff hsorted hrange]
  exact forall_congr' fun clock => and_imp.symm

theorem pairwise_sorted (ranges : List Range) :
    (sorted ranges).Pairwise fun a b => a.start ≤ b.start := by
  have h : (ranges.mergeSort fun a b => decide (a.start ≤ b.start)).Pairwise
      fun a b => decide (a.start ≤ b.start) = true := List.pairwise_mergeSort
    (fun a b c hab hbc => by simp only [decide_eq_true_eq] at *; omega)
    (fun a b => by simp only [Bool.or_eq_true, decide_eq_true_eq]; omega) ranges
  exact h.imp fun hle => of_decide_eq_true hle

theorem mem_sorted {range : Range} {ranges : List Range} :
    range ∈ sorted ranges ↔ range ∈ ranges :=
  (List.mergeSort_perm _ _).mem_iff

/-! ## The delete set of a document -/

theorem get_applied_ranges (applied : DeleteSet) (client : Client) :
    Assoc.get client (applied_ranges applied) =
      (Assoc.get client applied.entries).map sorted := by
  rw [applied_ranges, Assoc.get_foldl_set sorted client applied.wf, Assoc.get_nil, Option.or_none]

theorem DeleteSet.deletes_iff_of_get {d : DeleteSet} {client clock : Nat} {ranges : List Range}
    (h : Assoc.get client d.entries = some ranges) :
    d.Deletes client clock ↔ ∃ range ∈ ranges, range.Mem clock := by
  constructor
  · rintro ⟨ranges', hmem, hin⟩
    obtain rfl := Option.some.inj (h.symm.trans (Assoc.get_of_mem d.wf hmem))
    exact hin
  · intro hin
    exact ⟨ranges, Assoc.mem_of_get h, hin⟩

/-- The ranges of one client cover a range exactly when the delete set deletes all of
it. -/
theorem covered_iff {applied : DeleteSet} {client : Client} {range : Range}
    (hrange : range.start < range.stop) :
    (match Assoc.get client (applied_ranges applied) with
      | some covered => range_covered range covered
      | none => false) = true ↔ ∀ clock, range.Mem clock → applied.Deletes client clock := by
  rw [get_applied_ranges]
  cases hget : Assoc.get client applied.entries with
  | none =>
      refine iff_of_false Bool.false_ne_true fun h => ?_
      obtain ⟨ranges, hmem, -⟩ := h range.start ⟨le_rfl, hrange⟩
      exact Assoc.get_eq_none_iff.mp hget (List.mem_map_of_mem (f := Prod.fst) hmem)
  | some ranges =>
      show range_covered range (sorted ranges) = true ↔ _
      rw [range_covered_iff (pairwise_sorted ranges) hrange]
      refine forall_congr' fun clock => imp_congr_right fun _ => ?_
      rw [DeleteSet.deletes_iff_of_get hget]
      simp only [mem_sorted]

theorem deletions_applied_iff {deletions applied : DeleteSet} {known : StateVector} :
    deletions_applied deletions applied known = true ↔
      ∀ client ranges, (client, ranges) ∈ deletions.entries → ∀ range ∈ ranges,
        range.start < range.stop →
          (∀ clock, range.Mem clock → applied.Deletes client clock) ∧
            range.stop ≤ known.get client := by
  rw [deletions_applied, List.all_eq_true]
  constructor
  · intro h client ranges hmem range hrange hlt
    have hone := List.all_eq_true.mp (h (client, ranges) hmem) range hrange
    rw [Bool.or_eq_true, decide_eq_true_iff, Bool.and_eq_true, decide_eq_true_iff] at hone
    rcases hone with hempty | ⟨hknown, hcovered⟩
    · omega
    · exact ⟨(covered_iff hlt).mp hcovered, hknown⟩
  · rintro h ⟨client, ranges⟩ hmem
    refine List.all_eq_true.mpr fun range hrange => ?_
    rw [Bool.or_eq_true, decide_eq_true_iff, Bool.and_eq_true, decide_eq_true_iff]
    by_cases hlt : range.start < range.stop
    · obtain ⟨hcovered, hknown⟩ := h client ranges hmem range hrange hlt
      exact Or.inr ⟨hknown, (covered_iff hlt).mpr hcovered⟩
    · exact Or.inl (by omega)

theorem DeleteSet.not_deletes_of_is_empty {d : DeleteSet} (h : d.is_empty = true)
    (client clock : Nat) : ¬d.Deletes client clock := by
  rintro ⟨ranges, hmem, range, hrange, hin⟩
  have hone := List.all_eq_true.mp (List.all_eq_true.mp h _ hmem) range hrange
  have hle : range.stop ≤ range.start := of_decide_eq_true hone
  have := hin.1
  have := hin.2
  omega

/-! ## What a skipped update carries -/

section

variable {Update : Type} {yrs : Yrs Update} {bytes : Bytes}

theorem update_contents_eq_some {vector : StateVector} {deletions : DeleteSet}
    (h : update_contents yrs bytes = some (vector, deletions)) :
    ∃ rest, yrs.diff_updates_v1 bytes (yrs.encode_v1 vector) = some (0 :: rest) ∧
      yrs.decode_delete_set rest = some deletions := by
  rw [update_contents] at h
  cases hvalid : validate_update yrs bytes with
  | none =>
      rw [hvalid] at h
      cases h
  | some update =>
      rw [hvalid] at h
      cases hdiff : yrs.diff_updates_v1 bytes (yrs.encode_v1 (yrs.state_vector update)) with
      | none => simp [hdiff] at h
      | some diff =>
          simp only [Option.bind_eq_bind, Option.bind_some, hdiff] at h
          split at h
          · next rest =>
              cases hdecode : yrs.decode_delete_set rest with
              | none => simp [hdecode] at h
              | some ds =>
                  simp only [hdecode, Option.bind_some, Option.pure_def, Option.some.injEq,
                    Prod.mk.injEq] at h
                  obtain ⟨rfl, rfl⟩ := h
                  exact ⟨rest, hdiff, hdecode⟩
          · cases h

theorem StateVector.get_le {vector known : StateVector}
    (h : vector.entries.any (fun (client, clock) => known.get client < clock) = false)
    (client : Client) : vector.get client ≤ known.get client := by
  rw [StateVector.get]
  cases hget : Assoc.get client vector.entries with
  | none => exact Nat.zero_le _
  | some clock =>
      have hnot := List.any_eq_false.mp h _ (Assoc.mem_of_get hget)
      simpa using hnot

theorem contains_update_eq_true {document : Document}
    (h : contains_update yrs (some document) bytes = true) :
    ∃ vector deletions, update_contents yrs bytes = some (vector, deletions) ∧
      (∀ client, vector.get client ≤ document.state_vector.get client) ∧
      ∀ client clock, deletions.Deletes client clock →
        document.delete_set.Deletes client clock ∧ clock < document.state_vector.get client := by
  rw [contains_update] at h
  cases hcontents : update_contents yrs bytes with
  | none =>
      rw [hcontents] at h
      cases h
  | some contents =>
      obtain ⟨vector, deletions⟩ := contents
      rw [hcontents] at h
      dsimp only at h
      split at h
      · cases h
      · next hclocks =>
          refine ⟨vector, deletions, rfl, StateVector.get_le (by simpa using hclocks), ?_⟩
          rintro client clock hdel
          rcases Bool.or_eq_true _ _ |>.mp h with hempty | happlied
          · exact absurd hdel (DeleteSet.not_deletes_of_is_empty hempty client clock)
          · obtain ⟨ranges, hmem, range, hrange, hin⟩ := hdel
            have hlt : range.start < range.stop := lt_of_le_of_lt hin.1 hin.2
            obtain ⟨hcovered, hknown⟩ :=
              deletions_applied_iff.mp happlied client ranges hmem range hrange hlt
            exact ⟨hcovered clock hin, lt_of_lt_of_le hin.2 hknown⟩

end

/-- Skipping an update that `contains_update` answers `true` for loses nothing, and the
two walks it rests on are exact. -/
theorem contains_update_sound {Update : Type} (yrs : Yrs Update)
    (Blocks Deletes : Bytes → Client → Nat → Prop) (hyrs : yrs.Lawful Blocks Deletes) :
    (∀ (deletions applied : DeleteSet) (known : StateVector),
      deletions_applied deletions applied known = true ↔
        ∀ client ranges, (client, ranges) ∈ deletions.entries → ∀ range ∈ ranges,
          range.start < range.stop →
            (∀ clock, range.Mem clock → applied.Deletes client clock) ∧
              range.stop ≤ known.get client) ∧
    (∀ (range : Range) (covered : List Range),
      covered.Pairwise (fun a b => a.start ≤ b.start) → range.start < range.stop →
        (range_covered range covered = true ↔
          ∀ clock, range.Mem clock → ∃ candidate ∈ covered, candidate.Mem clock)) ∧
    (∀ (document : Document) (update : Bytes),
      contains_update yrs (some document) update = true →
        (∀ client clock, Blocks update client clock → document.Has client clock) ∧
          ∀ client clock, Deletes update client clock →
            document.Has client clock ∧ document.Deleted client clock) := by
  refine ⟨fun _ _ _ => deletions_applied_iff, fun _ _ => range_covered_iff, ?_⟩
  intro document update h
  obtain ⟨vector, deletions, hcontents, hclocks, hdeletes⟩ := contains_update_eq_true h
  obtain ⟨rest, hdiff, hdecode⟩ := update_contents_eq_some hcontents
  refine ⟨?_, ?_⟩
  · intro client clock hblock
    have hbelow := hyrs.blocks update vector rest hdiff client clock hblock
    exact (document.has_iff client clock).mpr (lt_of_lt_of_le hbelow (hclocks client))
  · intro client clock hdel
    obtain ⟨hcovered, hknown⟩ := hdeletes client clock
      (hyrs.deletes update vector rest deletions hdiff hdecode client clock hdel)
    exact ⟨(document.has_iff client clock).mpr hknown,
      (document.deleted_iff client clock).mpr hcovered⟩

/-! An update of client 1 that inserts `ab` and deletes the `b` again. -/

def insertAb : Bytes := [1, 1, 1, 0, 4, 1, 1, 116, 2, 97, 98, 1, 1, 1, 1, 1]

def abVector : StateVector := ⟨[(1, 2)], List.nodup_singleton _⟩

def abDeletes : DeleteSet := ⟨[(1, [⟨1, 2⟩])], List.nodup_singleton _⟩

/-- yrs on this update and on its own state vector. -/
def abYrs : Yrs Unit where
  decode_update := fun bytes => if bytes = insertAb then some () else none
  applies := fun _ => true
  state_vector := fun _ => abVector
  encode_v1 := fun vector => if vector.entries = [(1, 2)] then [1, 1, 2] else []
  diff_updates_v1 := fun update vector =>
    if update = insertAb ∧ vector = [1, 1, 2] then some [0, 1, 1, 1, 1, 1] else none
  decode_delete_set := fun bytes => if bytes = [1, 1, 1, 1, 1] then some abDeletes else none

def abDocument : Document where
  Has := fun client clock => clock < abVector.get client
  Deleted := abDeletes.Deletes
  state_vector := abVector
  delete_set := abDeletes
  has_iff := fun _ _ => Iff.rfl
  deleted_iff := fun _ _ => Iff.rfl

theorem abYrs_diff {update : Bytes} {vector : StateVector} {rest : Bytes}
    (h : abYrs.diff_updates_v1 update (abYrs.encode_v1 vector) = some (0 :: rest)) :
    update = insertAb ∧ vector.entries = [(1, 2)] ∧ rest = [1, 1, 1, 1, 1] := by
  have hdiff : (if update = insertAb ∧ (if vector.entries = [(1, 2)] then [1, 1, 2] else []) =
      ([1, 1, 2] : Bytes) then some [0, 1, 1, 1, 1, 1] else none) = some (0 :: rest) := h
  by_cases hvector : vector.entries = [(1, 2)]
  · rw [if_pos hvector] at hdiff
    by_cases hupdate : update = insertAb
    · rw [if_pos ⟨hupdate, rfl⟩] at hdiff
      exact ⟨hupdate, hvector, (List.cons.inj (Option.some.inj hdiff)).2.symm⟩
    · rw [if_neg fun hboth => hupdate hboth.1] at hdiff
      cases hdiff
  · rw [if_neg hvector, if_neg fun hboth => by cases hboth.2] at hdiff
    cases hdiff

theorem contains_update_sound_ab :
    contains_update abYrs (some abDocument) insertAb = true ∧
      abDocument.Has 1 1 ∧ abDocument.Deleted 1 1 := by
  have hlawful : abYrs.Lawful
      (fun update client clock => update = insertAb ∧ client = 1 ∧ clock < 2)
      (fun update client clock => update = insertAb ∧ client = 1 ∧ clock = 1) := by
    refine ⟨?_, ?_⟩
    · rintro update vector rest h client clock ⟨-, rfl, hclock⟩
      obtain ⟨-, hvector, -⟩ := abYrs_diff h
      rw [StateVector.get, hvector]
      exact hclock
    · rintro update vector rest deletions h hdecode client clock ⟨-, rfl, rfl⟩
      obtain ⟨-, -, rfl⟩ := abYrs_diff h
      obtain rfl : abDeletes = deletions := Option.some.inj hdecode
      exact ⟨_, List.mem_singleton_self _, _, List.mem_singleton_self _, le_rfl,
        Nat.lt_succ_self 1⟩
  have hsound := contains_update_sound abYrs _ _ hlawful
  have happlied : deletions_applied abDeletes abDeletes abVector = true := by
    refine (hsound.1 abDeletes abDeletes abVector).mpr ?_
    intro client ranges hmem range hrange _
    refine ⟨fun clock hin => ⟨ranges, hmem, range, hrange, hin⟩, ?_⟩
    obtain ⟨rfl, rfl⟩ := Prod.mk.inj (List.mem_singleton.mp hmem)
    obtain rfl := List.mem_singleton.mp hrange
    exact le_rfl
  have hskip : contains_update abYrs (some abDocument) insertAb = true := by
    show (abDeletes.is_empty || deletions_applied abDeletes abDeletes abVector) = true
    rw [happlied, Bool.or_true]
  exact ⟨hskip, (hsound.2.2 abDocument insertAb hskip).2 1 1 ⟨rfl, rfl, rfl⟩⟩

end Realtime.Sync.FastPath
