import Mathlib.Tactic
import Realtime.Lib.Assoc

/-!
# Maps in the order of their keys

A finite map as the list of its entries in ascending order of the keys, so that equal maps are
equal lists.
-/

namespace Lib.OrderedMap

variable {κ α : Type*} [LinearOrder κ]

def Sorted (t : List (κ × α)) : Prop := (Assoc.keys t).Pairwise (· < ·)

variable {k : κ} {v : α} {t u : List (κ × α)}

theorem sorted_nil : Sorted ([] : List (κ × α)) := .nil

theorem sorted_cons {e : κ × α} : Sorted (e :: t) ↔ (∀ j ∈ Assoc.keys t, e.1 < j) ∧ Sorted t :=
  List.pairwise_cons

theorem Sorted.wf (h : Sorted t) : Assoc.Wf t := h.imp fun hlt => ne_of_lt hlt

variable [DecidableEq κ]

def insert (k : κ) (v : α) : List (κ × α) → List (κ × α)
  | [] => [(k, v)]
  | e :: t =>
      if k < e.1 then (k, v) :: e :: t
      else if k = e.1 then (k, v) :: t
      else e :: insert k v t

theorem get_insert (k j : κ) (v : α) (t : List (κ × α)) (h : Sorted t) :
    Assoc.get j (insert k v t) = if k = j then some v else Assoc.get j t := by
  induction t with
  | nil => rw [insert, Assoc.get_cons]
  | cons e t ih =>
      obtain ⟨hhead, htail⟩ := sorted_cons.mp h
      rw [insert]
      split
      · rw [Assoc.get_cons]
      · split
        · rename_i heq
          rw [Assoc.get_cons, Assoc.get_cons, ← heq]
          split <;> rfl
        · rename_i hne
          rw [Assoc.get_cons, Assoc.get_cons, ih htail]
          by_cases hj : e.1 = j
          · rw [if_pos hj, if_pos hj, if_neg fun hk => hne (hk.trans hj.symm)]
          · rw [if_neg hj, if_neg hj]

theorem mem_keys_insert {j : κ} : j ∈ Assoc.keys (insert k v t) ↔ j = k ∨ j ∈ Assoc.keys t := by
  induction t with
  | nil => simp [insert]
  | cons e t ih =>
      rw [insert]
      split
      · simp
      · split
        · rename_i heq
          simp [heq]
        · simp only [Assoc.keys_cons, List.mem_cons, ih]
          tauto

theorem sorted_insert (h : Sorted t) : Sorted (insert k v t) := by
  induction t with
  | nil => exact sorted_cons.mpr ⟨by simp, sorted_nil⟩
  | cons e t ih =>
      obtain ⟨hhead, htail⟩ := sorted_cons.mp h
      rw [insert]
      split
      · rename_i hlt
        refine sorted_cons.mpr ⟨fun j hj => ?_, h⟩
        rcases List.mem_cons.mp hj with rfl | hj
        · exact hlt
        · exact hlt.trans (hhead j hj)
      · split
        · rename_i heq
          exact sorted_cons.mpr ⟨fun j hj => heq ▸ hhead j hj, htail⟩
        · rename_i hnot hne
          refine sorted_cons.mpr ⟨fun j hj => ?_, ih htail⟩
          rcases mem_keys_insert.mp hj with rfl | hj
          · exact lt_of_le_of_ne (not_lt.mp hnot) (Ne.symm hne)
          · exact hhead j hj

/-- Equal maps are equal lists. -/
theorem Sorted.ext (ht : Sorted t) (hu : Sorted u) (h : ∀ k, Assoc.get k t = Assoc.get k u) :
    t = u := by
  have hpairwise {t : List (κ × α)} (ht : Sorted t) : t.Pairwise fun e f => e.1 < f.1 :=
    List.pairwise_map.mp ht
  have hperm : t.Perm u := by
    refine (List.perm_ext_iff_of_nodup ?_ ?_).mpr fun e => ?_
    · exact ht.wf.of_map
    · exact hu.wf.of_map
    · constructor
      · intro he
        exact Assoc.mem_of_get (h e.1 ▸ Assoc.get_of_mem ht.wf he)
      · intro he
        exact Assoc.mem_of_get (h e.1 ▸ Assoc.get_of_mem hu.wf he)
  refine hperm.eq_of_pairwise (fun e f _ _ hef hfe => ?_) (hpairwise ht) (hpairwise hu)
  exact absurd hfe (not_lt.mpr hef.le)

end Lib.OrderedMap
