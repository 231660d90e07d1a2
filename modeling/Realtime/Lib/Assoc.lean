import Mathlib.Data.List.Nodup
import Mathlib.Tactic

/-!
# Keyed tables as lists of entries

A table is a list of key/value entries read from the front. `set` keeps the
place of a key it overwrites and appends a new one, `erase` drops a key, and
the laws of `get` over the two say that nothing else changes. `Wf` asks for
distinct keys; both operations keep it.

The plain list, rather than a structure carrying `Wf`, is what lets a table sit
inside an inductive type.
-/

namespace Lib.Assoc

variable {κ α β : Type*}

/-- The keys of a table, in order. -/
def keys (t : List (κ × α)) : List κ := t.map Prod.fst

/-- Distinct keys. -/
def Wf (t : List (κ × α)) : Prop := (keys t).Nodup

@[simp] theorem keys_nil : keys ([] : List (κ × α)) = [] := rfl

@[simp] theorem keys_cons (e : κ × α) (t : List (κ × α)) : keys (e :: t) = e.1 :: keys t := rfl

@[simp] theorem keys_append (t u : List (κ × α)) : keys (t ++ u) = keys t ++ keys u :=
  List.map_append

theorem wf_nil : Wf ([] : List (κ × α)) := List.nodup_nil

theorem wf_cons {e : κ × α} {t : List (κ × α)} : Wf (e :: t) ↔ e.1 ∉ keys t ∧ Wf t :=
  List.nodup_cons

variable [DecidableEq κ]

/-- The value of `k`. -/
def get (k : κ) : List (κ × α) → Option α
  | [] => none
  | e :: t => if e.1 = k then some e.2 else get k t

/-- Drop `k`. -/
def erase (k : κ) (t : List (κ × α)) : List (κ × α) := t.filter fun e => e.1 ≠ k

/-- Give `k` the value `v`, in its old place if it had one. -/
def set (k : κ) (v : α) : List (κ × α) → List (κ × α)
  | [] => [(k, v)]
  | e :: t => if e.1 = k then (k, v) :: t else e :: set k v t

@[simp] theorem get_nil (k : κ) : get k ([] : List (κ × α)) = none := rfl

theorem get_cons (k : κ) (e : κ × α) (t : List (κ × α)) :
    get k (e :: t) = if e.1 = k then some e.2 else get k t := rfl

theorem get_eq_none_iff {k : κ} {t : List (κ × α)} : get k t = none ↔ k ∉ keys t := by
  induction t with
  | nil => simp
  | cons e t ih =>
      by_cases h : e.1 = k
      · simp [get_cons, h]
      · simp [get_cons, h, ih, Ne.symm h]

theorem get_isSome_iff {k : κ} {t : List (κ × α)} : (get k t).isSome ↔ k ∈ keys t := by
  rw [← not_iff_not, ← get_eq_none_iff]
  simp

theorem mem_of_get {k : κ} {v : α} {t : List (κ × α)} (h : get k t = some v) : (k, v) ∈ t := by
  induction t with
  | nil => simp at h
  | cons e t ih =>
      rw [get_cons] at h
      split at h
      · rename_i hk
        obtain rfl := Option.some.inj h
        rw [← hk]
        exact List.mem_cons_self
      · exact List.mem_cons_of_mem _ (ih h)

theorem get_of_mem {k : κ} {v : α} {t : List (κ × α)} (hwf : Wf t) (h : (k, v) ∈ t) :
    get k t = some v := by
  induction t with
  | nil => simp at h
  | cons e t ih =>
      obtain ⟨hfresh, hrest⟩ := wf_cons.mp hwf
      rcases List.mem_cons.mp h with rfl | hmem
      · simp [get_cons]
      · have hne : e.1 ≠ k := fun he => hfresh (he ▸ List.mem_map_of_mem (f := Prod.fst) hmem)
        rw [get_cons, if_neg hne]
        exact ih hrest hmem

/-! ## Laws of `set` -/

theorem get_set (j k : κ) (v : α) (t : List (κ × α)) :
    get j (set k v t) = if k = j then some v else get j t := by
  induction t with
  | nil => simp [set, get_cons]
  | cons e t ih =>
      by_cases hk : e.1 = k
      · by_cases hj : k = j
        · simp [set, get_cons, hk, hj]
        · simp [set, get_cons, hk, hj]
      · by_cases hj : e.1 = j
        · have hne : k ≠ j := fun he => hk (hj.trans he.symm)
          rw [set, if_neg hk, get_cons, if_pos hj, if_neg hne, get_cons, if_pos hj]
        · rw [set, if_neg hk, get_cons, if_neg hj, ih, get_cons, if_neg hj]

@[simp] theorem get_set_self (k : κ) (v : α) (t : List (κ × α)) : get k (set k v t) = some v := by
  simp [get_set]

theorem get_set_ne {j k : κ} (h : k ≠ j) (v : α) (t : List (κ × α)) :
    get j (set k v t) = get j t := by
  simp [get_set, h]

theorem set_eq_self {k : κ} {v : α} {t : List (κ × α)} (h : get k t = some v) : set k v t = t := by
  induction t with
  | nil => simp at h
  | cons e t ih =>
      rw [get_cons] at h
      by_cases hk : e.1 = k
      · rw [if_pos hk, Option.some_inj] at h
        rw [set, if_pos hk, ← hk, ← h]
      · rw [if_neg hk] at h
        rw [set, if_neg hk, ih h]

theorem mem_keys_set {j k : κ} {v : α} {t : List (κ × α)} :
    j ∈ keys (set k v t) ↔ j = k ∨ j ∈ keys t := by
  rw [← get_isSome_iff, get_set, ← get_isSome_iff]
  by_cases h : k = j
  · simp [h]
  · simp [h, Ne.symm h]

theorem keys_set_of_mem {k : κ} {v : α} {t : List (κ × α)} (h : k ∈ keys t) :
    keys (set k v t) = keys t := by
  induction t with
  | nil => simp at h
  | cons e t ih =>
      by_cases hk : e.1 = k
      · simp [set, hk]
      · have : k ∈ keys t := by simpa [Ne.symm hk] using h
        simp [set, hk, ih this]

theorem keys_set_of_not_mem {k : κ} {v : α} {t : List (κ × α)} (h : k ∉ keys t) :
    keys (set k v t) = keys t ++ [k] := by
  induction t with
  | nil => rfl
  | cons e t ih =>
      simp only [keys_cons, List.mem_cons, not_or] at h
      simp [set, Ne.symm h.1, ih h.2]

theorem set_of_not_mem {k : κ} (v : α) {t : List (κ × α)} (h : k ∉ keys t) :
    set k v t = t ++ [(k, v)] := by
  induction t with
  | nil => rfl
  | cons e t ih =>
      rw [keys_cons, List.mem_cons, not_or] at h
      rw [set, if_neg (Ne.symm h.1), ih h.2]
      rfl

theorem mem_set {k : κ} {v : α} {t : List (κ × α)} {e : κ × α} (h : e ∈ set k v t) :
    e = (k, v) ∨ e ∈ t := by
  induction t with
  | nil => exact .inl (List.mem_singleton.mp h)
  | cons f t ih =>
      rw [set] at h
      split at h
      · rcases List.mem_cons.mp h with rfl | h
        · exact .inl rfl
        · exact .inr (List.mem_cons_of_mem f h)
      · rcases List.mem_cons.mp h with rfl | h
        · exact .inr List.mem_cons_self
        · exact (ih h).imp_right (List.mem_cons_of_mem f)

theorem wf_set {k : κ} {v : α} {t : List (κ × α)} (h : Wf t) : Wf (set k v t) := by
  by_cases hk : k ∈ keys t
  · rw [Wf, keys_set_of_mem hk]
    exact h
  · rw [Wf, keys_set_of_not_mem hk]
    refine List.nodup_append.mpr ⟨h, List.nodup_singleton k, ?_⟩
    rintro j hj i hi rfl
    exact hk (List.mem_singleton.mp hi ▸ hj)

/-! ## Laws of `erase` -/

theorem get_erase (j k : κ) (t : List (κ × α)) :
    get j (erase k t) = if k = j then none else get j t := by
  induction t with
  | nil => simp [erase]
  | cons e t ih =>
      unfold erase at ih ⊢
      by_cases hk : e.1 = k
      · rw [List.filter_cons_of_neg (by simp [hk]), ih]
        by_cases hj : k = j
        · simp [hj]
        · simp [get_cons, hk, hj]
      · rw [List.filter_cons_of_pos (by simp [hk]), get_cons, ih, get_cons]
        by_cases hj : e.1 = j
        · have hne : k ≠ j := fun he => hk (hj.trans he.symm)
          simp [hj, hne]
        · simp [hj]

@[simp] theorem get_erase_self (k : κ) (t : List (κ × α)) : get k (erase k t) = none := by
  simp [get_erase]

theorem get_erase_ne {j k : κ} (h : k ≠ j) (t : List (κ × α)) :
    get j (erase k t) = get j t := by
  simp [get_erase, h]

theorem keys_erase (k : κ) (t : List (κ × α)) :
    keys (erase k t) = (keys t).filter fun j => j ≠ k := by
  rw [keys, erase, keys, List.filter_map]
  rfl

theorem mem_keys_erase {j k : κ} {t : List (κ × α)} :
    j ∈ keys (erase k t) ↔ j ≠ k ∧ j ∈ keys t := by
  rw [keys_erase, List.mem_filter]
  simp [and_comm]

theorem wf_erase {k : κ} {t : List (κ × α)} (h : Wf t) : Wf (erase k t) := by
  rw [Wf, keys_erase]
  exact h.filter _

theorem erase_of_not_mem {k : κ} {t : List (κ × α)} (h : k ∉ keys t) : erase k t = t := by
  rw [erase, List.filter_eq_self]
  rintro e he
  simp only [ne_eq, decide_eq_true_eq]
  rintro rfl
  exact h (List.mem_map_of_mem he)

/-! ## Totals -/

/-- The sum of a weight over the values. -/
def total (w : α → Nat) (t : List (κ × α)) : Nat := (t.map fun e => w e.2).sum

omit [DecidableEq κ] in
@[simp] theorem total_nil (w : α → Nat) : total w ([] : List (κ × α)) = 0 := rfl

omit [DecidableEq κ] in
theorem total_cons (w : α → Nat) (e : κ × α) (t : List (κ × α)) :
    total w (e :: t) = w e.2 + total w t := by
  simp [total]

/-- Dropping a key takes exactly its weight away. -/
theorem total_erase {w : α → Nat} {k : κ} {v : α} {t : List (κ × α)} (hwf : Wf t)
    (h : get k t = some v) : total w (erase k t) + w v = total w t := by
  induction t with
  | nil => simp at h
  | cons e t ih =>
      obtain ⟨hfresh, hrest⟩ := wf_cons.mp hwf
      rw [get_cons] at h
      by_cases hk : e.1 = k
      · rw [if_pos hk] at h
        obtain rfl := Option.some.inj h
        have herase : erase k (e :: t) = t := by
          have hnot : k ∉ keys t := hk ▸ hfresh
          have := erase_of_not_mem hnot
          unfold erase at this ⊢
          rw [List.filter_cons_of_neg (by simp [hk]), this]
        rw [herase, total_cons]
        omega
      · rw [if_neg hk] at h
        have herase : erase k (e :: t) = e :: erase k t := by
          unfold erase
          rw [List.filter_cons_of_pos (by simp [hk])]
        rw [herase, total_cons, total_cons]
        have := ih hrest h
        omega

/-- Setting a key trades its old weight, if any, for the new one. -/
theorem total_set (w : α → Nat) (k : κ) (v : α) (t : List (κ × α)) :
    total w (set k v t) + ((get k t).map w).getD 0 = total w t + w v := by
  induction t with
  | nil => simp [set, total_cons]
  | cons e t ih =>
      by_cases hk : e.1 = k
      · simp [set, get_cons, hk, total_cons]
        omega
      · simp only [set, get_cons, hk, if_false, total_cons]
        omega

theorem get_filter (p : κ → Bool) (k : κ) (t : List (κ × α)) :
    get k (t.filter fun e => p e.1) = if p k then get k t else none := by
  induction t with
  | nil => simp
  | cons e t ih =>
      by_cases hk : e.1 = k
      · subst hk
        cases hp : p e.1 with
        | true => simp [hp, get_cons]
        | false => simpa [hp] using ih
      · rw [List.filter_cons, get_cons, if_neg hk, ← ih]
        split
        · rw [get_cons, if_neg hk]
        · rfl

/-- Setting the entries of a table one by one. -/
theorem get_foldl_set (f : α → β) (k : κ) {t : List (κ × α)} (hwf : Wf t) (m : List (κ × β)) :
    get k (t.foldl (fun m e => set e.1 (f e.2) m) m) = ((get k t).map f).or (get k m) := by
  induction t generalizing m with
  | nil => simp
  | cons e t ih =>
      obtain ⟨hfresh, hwf⟩ := wf_cons.mp hwf
      rw [List.foldl_cons, ih hwf, get_set, get_cons]
      by_cases hk : e.1 = k
      · rw [if_pos hk, if_pos hk, get_eq_none_iff.mpr (hk ▸ hfresh)]
        rfl
      · rw [if_neg hk, if_neg hk]

theorem wf_foldl_set (f : α → β) (t : List (κ × α)) {m : List (κ × β)} (h : Wf m) :
    Wf (t.foldl (fun m e => set e.1 (f e.2) m) m) := by
  induction t generalizing m with
  | nil => exact h
  | cons e t ih => exact ih (wf_set h)

/-! ## Tables computed from a list of keys -/

theorem get_mapEntries {β : Type*} (f : κ → α → β) (k : κ) (t : List (κ × α)) :
    get k (t.map fun e => (e.1, f e.1 e.2)) = (get k t).map (f k) := by
  induction t with
  | nil => rfl
  | cons e t ih =>
      rw [List.map_cons, get_cons, get_cons, ih]
      split
      · rename_i hk
        rw [← hk]
        rfl
      · rfl

theorem get_mapValues {β : Type*} (f : α → β) (k : κ) (t : List (κ × α)) :
    get k (t.map fun e => (e.1, f e.2)) = (get k t).map f :=
  get_mapEntries (fun _ => f) k t

/-- Dropping entries by their value. -/
theorem get_filter_value {t : List (κ × α)} (hwf : Wf t) (p : α → Bool) (k : κ) :
    get k (t.filter fun e => p e.2) = (get k t).filter p := by
  induction t with
  | nil => rfl
  | cons e t ih =>
      obtain ⟨hfresh, hwf⟩ := wf_cons.mp hwf
      have hrest := ih hwf
      by_cases hk : e.1 = k
      · have hnone : get k t = none := get_eq_none_iff.mpr (hk ▸ hfresh)
        rw [hnone] at hrest
        rw [get_cons, if_pos hk, List.filter_cons]
        split
        · rename_i hp
          rw [get_cons, if_pos hk, Option.filter_some_pos hp]
        · rename_i hp
          rw [hrest, Option.filter_some_neg (by simpa using hp)]
          rfl
      · rw [get_cons, if_neg hk, ← hrest, List.filter_cons]
        split
        · rw [get_cons, if_neg hk]
        · rfl

omit [DecidableEq κ] in
theorem keys_filterMap_subset {ks : List κ} {f : κ → Option α} {k : κ}
    (h : k ∈ keys (ks.filterMap fun k => (f k).map fun v => (k, v))) : k ∈ ks := by
  obtain ⟨e, he, rfl⟩ := List.mem_map.mp h
  obtain ⟨j, hj, hf⟩ := List.mem_filterMap.mp he
  obtain ⟨v, -, rfl⟩ := Option.map_eq_some_iff.mp hf
  exact hj

theorem get_filterMap (ks : List κ) (f : κ → Option α) (k : κ) :
    get k (ks.filterMap fun k => (f k).map fun v => (k, v)) = if k ∈ ks then f k else none := by
  induction ks with
  | nil => simp
  | cons j ks ih =>
      by_cases hj : j = k
      · subst hj
        cases hf : f j with
        | none => simp [hf, ih]
        | some v => simp [hf, get_cons]
      · cases hf : f j with
        | none => simp [hf, ih, Ne.symm hj]
        | some v => simp [hf, get_cons, hj, ih, Ne.symm hj]

omit [DecidableEq κ] in
theorem wf_filterMap {ks : List κ} (h : ks.Nodup) (f : κ → Option α) :
    Wf (ks.filterMap fun k => (f k).map fun v => (k, v)) := by
  induction ks with
  | nil => exact wf_nil
  | cons j ks ih =>
      obtain ⟨hj, hks⟩ := List.nodup_cons.mp h
      cases hf : f j with
      | none => simpa [hf] using ih hks
      | some v =>
          simp only [List.filterMap_cons, hf, Option.map_some]
          exact wf_cons.mpr ⟨fun hmem => hj (keys_filterMap_subset hmem), ih hks⟩

/-- A table whose entries are looked at one by one, some of them dropped. -/
theorem get_filterMapEntries {t : List (κ × α)} (hwf : Wf t) (f : κ → α → Option β) (k : κ) :
    get k (t.filterMap fun e => (f e.1 e.2).map fun v => (e.1, v)) = (get k t).bind (f k) := by
  induction t with
  | nil => rfl
  | cons e t ih =>
      obtain ⟨hfresh, hrest⟩ := wf_cons.mp hwf
      rw [get_cons]
      by_cases hk : e.1 = k
      · subst hk
        rw [if_pos rfl, Option.bind_some]
        cases hf : f e.1 e.2 with
        | none =>
            rw [List.filterMap_cons_none (by rw [hf]; rfl), ih hrest,
              get_eq_none_iff.mpr hfresh, Option.bind_none]
        | some v =>
            rw [List.filterMap_cons_some (by rw [hf]; rfl), get_cons, if_pos rfl]
      · rw [if_neg hk]
        cases hf : f e.1 e.2 with
        | none => rw [List.filterMap_cons_none (by rw [hf]; rfl), ih hrest]
        | some v =>
            rw [List.filterMap_cons_some (by rw [hf]; rfl), get_cons, if_neg hk, ih hrest]

omit [DecidableEq κ] in
theorem wf_filterMapEntries {t : List (κ × α)} (hwf : Wf t) (f : κ → α → Option β) :
    Wf (t.filterMap fun e => (f e.1 e.2).map fun v => (e.1, v)) := by
  have hsub : (keys (t.filterMap fun e => (f e.1 e.2).map fun v => (e.1, v))).Sublist
      (keys t) := by
    clear hwf
    induction t with
    | nil => exact List.Sublist.refl _
    | cons e t ih =>
        cases hf : f e.1 e.2 with
        | none =>
            rw [List.filterMap_cons_none (by rw [hf]; rfl)]
            exact ih.cons e.1
        | some v =>
            rw [List.filterMap_cons_some (by rw [hf]; rfl)]
            exact ih.cons_cons e.1
  exact hwf.sublist hsub

omit [DecidableEq κ] in
theorem eraseDups_of_nodup [BEq κ] [LawfulBEq κ] {l : List κ} (h : l.Nodup) :
    l.eraseDups = l := by
  induction l with
  | nil => rfl
  | cons a l ih =>
      obtain ⟨hfresh, hrest⟩ := List.nodup_cons.mp h
      have hself : (l.filter fun b => !b == a) = l := by
        refine List.filter_eq_self.mpr fun b hb => ?_
        have hne : b ≠ a := fun he => hfresh (he ▸ hb)
        simp [hne]
      rw [List.eraseDups_cons, hself, ih hrest]

omit [DecidableEq κ] in
theorem eraseDups_sublist [BEq κ] [LawfulBEq κ] (l : List κ) : l.eraseDups.Sublist l := by
  induction hn : l.length using Nat.strong_induction_on generalizing l with
  | _ n ih =>
      cases l with
      | nil => exact List.Sublist.refl []
      | cons a l =>
          have hlen : (l.filter fun b => !b == a).length < n := by
            rw [← hn, List.length_cons]
            exact Nat.lt_succ_of_le (List.length_filter_le _ l)
          rw [List.eraseDups_cons]
          exact ((ih _ hlen _ rfl).trans List.filter_sublist).cons_cons a

omit [DecidableEq κ] in
theorem nodup_eraseDups [BEq κ] [LawfulBEq κ] (l : List κ) : l.eraseDups.Nodup := by
  induction hn : l.length using Nat.strong_induction_on generalizing l with
  | _ n ih =>
      cases l with
      | nil => exact List.nodup_nil
      | cons a l =>
          rw [List.eraseDups_cons, List.nodup_cons]
          refine ⟨by simp, ih _ ?_ _ rfl⟩
          have := List.length_filter_le (fun b => !b == a) l
          simp only [List.length_cons] at hn
          omega

end Lib.Assoc
