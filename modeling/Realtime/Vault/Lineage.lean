import Realtime.Vault.BinarySync

/-!
# The lineage of a version

Versions that are published one after the other, as `src/lineage.ts` records them: each names
the one it replaces and the prefixes of the eight before it.
-/

namespace Realtime.Vault.BinarySync

open Lib.Utf16

/-- What a version is known by in a lineage. -/
def VersionedEntry.shortHash (entry : VersionedEntry) : JsString := entry.hash.take prefixLength

/-- `entry` is published in place of `replaced`; an empty lineage may be absent. -/
structure Follows (replaced : Option VersionedEntry) (entry : VersionedEntry) : Prop where
  hash : prefixLength ≤ entry.hash.length
  prev : entry.prev = some (replaced.map (·.hash))
  lineage : entry.lineage.getD [] = (lineageAfter replaced).map some

theorem follows_published (hash : Digest) (replaced : Option VersionedEntry) :
    Follows replaced (Device.published hash replaced) where
  hash := by
    rw [show (Device.published hash replaced).hash = hash.hex from rfl, hash.length_eq]
    decide
  prev := rfl
  lineage := by
    show (if lineageAfter replaced = [] then none
      else some ((lineageAfter replaced).map some)).getD [] = _
    split
    · next h => rw [h]; rfl
    · rfl

/-- The versions `v 0` to `v k`, each published in place of the one before it. -/
structure Chain (v : Nat → VersionedEntry) (k : Nat) : Prop where
  first : Follows none (v 0)
  next : ∀ i < k, Follows (some (v i)) (v (i + 1))

/-- The versions that are uploaded one after the other. -/
def uploadAll (hash : Nat → Digest) : Nat → VersionedEntry
  | 0 => Device.published (hash 0) none
  | k + 1 => Device.published (hash (k + 1)) (some (uploadAll hash k))

theorem chain_uploadAll (hash : Nat → Digest) (k : Nat) : Chain (uploadAll hash) k where
  first := follows_published _ _
  next _ _ := follows_published _ _

/-- No two versions of the chain have one prefix. -/
def DistinctPrefixes (v : Nat → VersionedEntry) (k : Nat) : Prop :=
  ∀ i ≤ k, ∀ j ≤ k, (v i).shortHash = (v j).shortHash → i = j

section Chain

variable {v : Nat → VersionedEntry} {k : Nat} (h : Chain v k)
include h

theorem Chain.hash_ne_nil {i : Nat} (hi : i ≤ k) : (v i).hash ≠ [] := by
  have hlength : prefixLength ≤ (v i).hash.length := by
    cases i with
    | zero => exact h.first.hash
    | succ i => exact (h.next i (by omega)).hash
  intro hnil
  rw [hnil] at hlength
  exact absurd hlength (by decide)

/-- The prefixes of the most recent ancestors, newest first. -/
theorem Chain.lineage_eq {j : Nat} (hj : j ≤ k) : (v j).lineage.getD [] =
    (List.range (min j lineageLength)).map fun d => some (v (j - 1 - d)).shortHash := by
  induction j with
  | zero => exact h.first.lineage
  | succ j ih =>
      have hprior : ((v j).lineage.getD []).filterMap id =
          (List.range (min j lineageLength)).map fun d => (v (j - 1 - d)).shortHash := by
        rw [ih (by omega), List.filterMap_map]
        exact congrFun List.filterMap_eq_map _
      rw [(h.next j (by omega)).lineage, lineageAfter, if_neg (h.hash_ne_nil (by omega)), hprior]
      -- the newest is added, and what is longer than the window is cut off
      have hcons : (v j).hash.take prefixLength ::
          (List.range (min j lineageLength)).map (fun d => (v (j - 1 - d)).shortHash) =
          (List.range (min j lineageLength + 1)).map fun d => (v (j - d)).shortHash := by
        rw [List.range_succ_eq_map, List.map_cons, List.map_map]
        refine congrArg₂ _ rfl (List.map_congr_left fun d _ => ?_)
        show _ = (v (j - (d + 1))).shortHash
        rw [Nat.sub_right_comm, Nat.sub_sub]
      have hwindow : min lineageLength (min j lineageLength + 1) = min (j + 1) lineageLength := by
        omega
      dsimp only
      rw [hcons, ← List.map_take, List.take_range, hwindow, List.map_map]
      rfl

/-- What a lineage answers: the version that was replaced, and what has one of the prefixes. -/
theorem Chain.descendsFrom_iff (hash : JsString) : descendsFrom (v k) hash = true ↔
    (∃ i < k, k - i ≤ lineageLength ∧ hash.take prefixLength = (v i).shortHash) := by
  unfold descendsFrom
  rw [Bool.or_eq_true, decide_eq_true_eq, List.contains_iff_mem, h.lineage_eq le_rfl, List.mem_map]
  constructor
  · rintro (hprev | ⟨d, hd, heq⟩)
    · cases k with
      | zero =>
          rw [h.first.prev] at hprev
          cases hprev
      | succ k =>
          rw [(h.next k (by omega)).prev] at hprev
          obtain rfl : (v k).hash = hash := by simpa using hprev
          refine ⟨k, by omega, ?_, rfl⟩
          rw [Nat.add_sub_cancel_left]
          decide
    · have hd := List.mem_range.mp hd
      exact ⟨k - 1 - d, by omega, by omega, (Option.some_inj.mp heq).symm⟩
  · rintro ⟨i, hi, hwindow, heq⟩
    refine .inr ⟨k - 1 - i, List.mem_range.mpr (by omega), ?_⟩
    rw [heq, show k - 1 - (k - 1 - i) = i by omega]

end Chain

/-- A lineage has the most recent ancestors, and they are the versions a version descends
from; another hash is taken for an ancestor just when it has the prefix of one of them. -/
theorem lineage_exact {v : Nat → VersionedEntry} {k : Nat} (h : Chain v k)
    (hdistinct : DistinctPrefixes v k) :
    (∀ j ≤ k, (v j).lineage.getD [] =
      (List.range (min j 8)).map fun d => some ((v (j - 1 - d)).hash.take 16)) ∧
    (∀ i ≤ k, descendsFrom (v k) (v i).hash = true ↔ 1 ≤ k - i ∧ k - i ≤ 8) ∧
    ∀ hash, descendsFrom (v k) hash = true ↔
      ∃ i < k, k - i ≤ 8 ∧ hash.take 16 = (v i).hash.take 16 := by
  refine ⟨fun j hj => h.lineage_eq hj, fun i hi => ?_, h.descendsFrom_iff⟩
  rw [h.descendsFrom_iff]
  constructor
  · rintro ⟨j, hj, hwindow, heq⟩
    obtain rfl := hdistinct i hi j (by omega) heq
    exact ⟨by omega, hwindow⟩
  · rintro ⟨hold, hwindow⟩
    exact ⟨i, by omega, hwindow, rfl⟩

/-- A digest of one character and zeros. -/
def digestOf (c : UInt16) : Digest := ⟨c :: List.replicate 63 48, rfl⟩

/-- The tenth version descends from eight of the nine before it. -/
theorem lineage_exact_ten :
    (∀ j ≤ 9, (uploadAll (fun i => digestOf i.toUInt16) j).lineage.getD [] =
      (List.range (min j 8)).map fun d =>
        some ((uploadAll (fun i => digestOf i.toUInt16) (j - 1 - d)).hash.take 16)) ∧
    (∀ i ≤ 9, descendsFrom (uploadAll (fun i => digestOf i.toUInt16) 9)
      (uploadAll (fun i => digestOf i.toUInt16) i).hash = true ↔ 1 ≤ 9 - i ∧ 9 - i ≤ 8) ∧
    ∀ hash, descendsFrom (uploadAll (fun i => digestOf i.toUInt16) 9) hash = true ↔
      ∃ i < 9, 9 - i ≤ 8 ∧
        hash.take 16 = (uploadAll (fun i => digestOf i.toUInt16) i).hash.take 16 :=
  lineage_exact (chain_uploadAll _ 9) (by unfold DistinctPrefixes; decide +kernel)

/-- A hash that is not on the chain but has the prefix of a version that is. -/
theorem not_descendsFrom_exact : ¬∀ (v : Nat → VersionedEntry) (k : Nat), Chain v k →
    DistinctPrefixes v k → ∀ hash, (∀ i ≤ k, hash ≠ (v i).hash) →
      descendsFrom (v k) hash = false := by
  intro hall
  have hfalse := hall (uploadAll fun i => digestOf i.toUInt16) 1 (chain_uploadAll _ 1)
    (by unfold DistinctPrefixes; decide +kernel)
    (0 :: List.replicate 62 48 ++ [49]) (by decide +kernel)
  exact absurd hfalse (by decide +kernel)

end Realtime.Vault.BinarySync
