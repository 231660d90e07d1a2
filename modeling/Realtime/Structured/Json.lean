import Realtime.Lib.JsValue

/-!
# Deep equality of JSON values

`jsonEqual` of `src/structured/reconcile.ts`, and when it is an equivalence.

The comparison asks `key in right`, which is also true of the keys
`Object.prototype` has. The value read under such a key is a function, and no
JSON value equals it; only under `__proto__` is it an object, one that compares
equal to `{}`. On values that keep no `{}` under a key `__proto__` the answer is
therefore the one over own keys (`jsonEqual_obj_iff`), and an equivalence.
-/

namespace Realtime.Structured

open Lib Lib.Js Lib.Utf16

def isRecord (value : Value) : Bool := value.isObject

mutual

/-- Two references to one array or object are equal, as are its contents, so
`left === right` is asked of the other values only. -/
def jsonEqual : Value → Value → Bool
  | .arr left, right =>
      match right with
      | .arr right => left.length == right.length && jsonEqual.items left right
      | _ => false
  | .obj _ entries, right =>
      isRecord right && entries.length == right.ownKeys.length && jsonEqual.entries entries right
  | .inherited name, right =>
      Value.strictEq (.inherited name) right ||
        (isRecord (.inherited name) && isRecord right && right.ownKeys.length == 0)
  | left, right => Value.strictEq left right

/-- `left.every((value, index) => jsonEqual(value, right[index]))` -/
def jsonEqual.items : List Value → List Value → Bool
  | [], _ => true
  | _ :: _, [] => false
  | value :: left, other :: right => jsonEqual value other && jsonEqual.items left right

/-- `leftKeys.every((key) => key in right && jsonEqual(left[key], right[key]))` -/
def jsonEqual.entries : List (JsString × Value) → Value → Bool
  | [], _ => true
  | (key, value) :: left, right =>
      right.hasKey key && jsonEqual value (right.read key) && jsonEqual.entries left right

end

/-- Equal, or both absent. -/
def SameValue : Option Value → Option Value → Prop
  | none, none => True
  | some left, some right => jsonEqual left right = true
  | _, _ => False

/-- No object of the value has a key `__proto__`. -/
def Tame (v : Value) : Prop := Value.Built (fun _ => True) (· ≠ dunderProto) v

/-- `{}` -/
def isEmptyRecord : Value → Bool
  | .obj _ [] => true
  | _ => false

/-- No object of the value keeps `{}` under a key `__proto__`. -/
inductive Ordinary : Value → Prop
  | null : Ordinary .null
  | bool (b : Bool) : Ordinary (.bool b)
  | num (n : ℚ) : Ordinary (.num n)
  | str (s : JsString) : Ordinary (.str s)
  | arr {items : List Value} : (∀ v ∈ items, Ordinary v) → Ordinary (.arr items)
  | obj {i : Bool} {entries : List (JsString × Value)} : Assoc.Wf entries →
      (∀ e ∈ entries, Ordinary e.2) →
      (∀ e ∈ entries, e.1 = dunderProto → isEmptyRecord e.2 = false) → Ordinary (.obj i entries)

theorem jsonEqual_items_iff {left right : List Value} (hlen : left.length = right.length) :
    jsonEqual.items left right = true ↔
      ∀ i (hl : i < left.length) (hr : i < right.length), jsonEqual left[i] right[i] = true := by
  induction left generalizing right with
  | nil => simp [jsonEqual.items]
  | cons v left ih =>
      cases right with
      | nil => simp at hlen
      | cons w right =>
          rw [jsonEqual.items, Bool.and_eq_true, ih (by simpa using hlen)]
          constructor
          · rintro ⟨h0, h⟩ i hl hr
            cases i with
            | zero => exact h0
            | succ i => exact h i (by simpa using hl) (by simpa using hr)
          · intro h
            refine ⟨h 0 (by simp) (by simp), ?_⟩
            intro i hl hr
            exact h (i + 1) (by simpa using hl) (by simpa using hr)

theorem jsonEqual_entries_iff {left : List (JsString × Value)} {right : Value} :
    jsonEqual.entries left right = true ↔
      ∀ e ∈ left, right.hasKey e.1 = true ∧ jsonEqual e.2 (right.read e.1) = true := by
  induction left with
  | nil => simp [jsonEqual.entries]
  | cons e left ih =>
      obtain ⟨key, value⟩ := e
      rw [jsonEqual.entries, Bool.and_eq_true, Bool.and_eq_true, ih]
      simp

theorem Tame.ordinary {v : Value} (h : Tame v) : Ordinary v := by
  induction h with
  | null => exact .null
  | bool b => exact .bool b
  | num n => exact .num n
  | str s => exact .str s
  | arr _ ih => exact .arr ih
  | obj _ hwf hkeys _ ih =>
      refine .obj hwf ih fun e he hkey => ?_
      exact absurd hkey (hkeys e.1 (List.mem_map_of_mem (f := Prod.fst) he))

theorem Ordinary.obj_inv {i : Bool} {entries : List (JsString × Value)}
    (h : Ordinary (.obj i entries)) :
    Assoc.Wf entries ∧ (∀ e ∈ entries, Ordinary e.2) ∧
      ∀ e ∈ entries, e.1 = dunderProto → isEmptyRecord e.2 = false := by
  cases h with
  | obj hwf hvals hproto => exact ⟨hwf, hvals, hproto⟩

theorem Ordinary.entry {i : Bool} {entries : List (JsString × Value)}
    (h : Ordinary (.obj i entries))
    {e : JsString × Value} (he : e ∈ entries) : Ordinary e.2 :=
  h.obj_inv.2.1 e he

theorem Ordinary.item {items : List Value} (h : Ordinary (.arr items)) {v : Value}
    (hv : v ∈ items) :
    Ordinary v := by
  cases h with
  | arr hitems => exact hitems v hv

/-- No JSON value equals a function, and only `{}` equals the prototype. -/
theorem Ordinary.not_jsonEqual_inherited {v : Value} (hv : Ordinary v) {name : JsString}
    (hname : name = dunderProto → isEmptyRecord v = false) :
    jsonEqual v (.inherited name) = false := by
  cases hv with
  | obj hwf hvals hproto =>
      rename_i i entries
      by_cases h : name = dunderProto
      · cases entries with
        | nil => exact absurd (hname h) (by simp [isEmptyRecord])
        | cons e entries => simp [jsonEqual, Value.ownKeys]
      · simp [jsonEqual, isRecord, Value.isObject, h]
  | _ => simp [jsonEqual, Value.strictEq]

/-- Records are equal when they have the same own keys, with equal values. -/
theorem Ordinary.jsonEqual_obj_iff {i j : Bool} {left right : List (JsString × Value)}
    (hl : Ordinary (.obj i left)) (hr : Assoc.Wf right) :
    jsonEqual (.obj i left) (.obj j right) = true ↔
      ∀ key, SameValue (Assoc.get key left) (Assoc.get key right) := by
  obtain ⟨hwfl, hvalsl, hprotol⟩ := hl.obj_inv
  -- an entry of the left side finds its key among the own keys of the right one
  have hentry : jsonEqual.entries left (.obj j right) = true ↔
      ∀ e ∈ left, SameValue (some e.2) (Assoc.get e.1 right) := by
    rw [jsonEqual_entries_iff]
    apply forall₂_congr
    intro e he
    cases hget : Assoc.get e.1 right with
    | some v =>
        rw [Value.hasKey_of_own (v := .obj j right) hget,
          Value.read_of_own (v := .obj j right) hget]
        simp [SameValue]
    | none =>
        simp only [SameValue, iff_false, not_and]
        intro hhas
        have hinh : (Value.obj j right).read e.1 = .inherited e.1 := by
          have := Assoc.get_eq_none_iff.mp hget
          simp only [Value.hasKey, this, decide_false, Bool.false_or] at hhas
          simp [Value.read, hget, hhas]
        rw [hinh, (hvalsl e he).not_jsonEqual_inherited (hprotol e he)]
        simp
  simp only [jsonEqual, isRecord, Value.isObject, Bool.true_and, Bool.and_eq_true, beq_iff_eq,
    hentry, Value.ownKeys]
  have hlen : left.length = (Assoc.keys left).length := by simp [Assoc.keys]
  constructor
  · rintro ⟨hcount, hsame⟩ key
    cases hget : Assoc.get key left with
    | some v => exact hsame _ (Assoc.mem_of_get hget)
    | none =>
        -- equally many distinct keys, and all on the left are on the right
        have hsub : Assoc.keys left ⊆ Assoc.keys right := by
          intro k hk
          obtain ⟨e, he, rfl⟩ := List.mem_map.mp hk
          have := hsame e he
          by_contra hnot
          rw [Assoc.get_eq_none_iff.mpr hnot] at this
          exact this
        have hperm : (Assoc.keys left).Perm (Assoc.keys right) :=
          (hwfl.subperm hsub).perm_of_length_le (by omega)
        have hnone : Assoc.get key right = none := by
          rw [Assoc.get_eq_none_iff, ← hperm.mem_iff, ← Assoc.get_eq_none_iff]
          exact hget
        rw [hnone]
        trivial
  · intro hsame
    refine ⟨?_, ?_⟩
    · have hperm : (Assoc.keys left).Perm (Assoc.keys right) := by
        apply (List.perm_ext_iff_of_nodup hwfl hr).mpr
        intro k
        rw [← not_iff_not, ← Assoc.get_eq_none_iff, ← Assoc.get_eq_none_iff]
        have := hsame k
        cases hl : Assoc.get k left <;> cases hr : Assoc.get k right <;>
          simp [hl, hr, SameValue] at this ⊢
      rw [hlen, hperm.length_eq]
    · intro e he
      have hget : Assoc.get e.1 left = some e.2 := Assoc.get_of_mem hwfl he
      have := hsame e.1
      rwa [hget] at this

theorem jsonEqual_arr_iff {left right : List Value} :
    jsonEqual (.arr left) (.arr right) = true ↔ left.length = right.length ∧
      ∀ i (hl : i < left.length) (hr : i < right.length), jsonEqual left[i] right[i] = true := by
  rw [jsonEqual, Bool.and_eq_true, beq_iff_eq]
  exact and_congr_right jsonEqual_items_iff

/-! ## An equivalence on ordinary values -/

theorem Tame.own {v child : Value} {key : JsString} (h : Tame v) (hown : v.own key = some child) :
    key ≠ dunderProto ∧ Tame child :=
  Value.Built.own h hown

theorem Tame.eq_obj {v : Value} (h : Tame v) (hrec : isRecord v = true) :
    ∃ i entries, v = .obj i entries := by
  cases h with
  | obj => exact ⟨_, _, rfl⟩
  | _ => cases hrec

theorem own_of_not_isRecord {v : Value} (h : isRecord v = false) (key : JsString) :
    v.own key = none := by
  cases v <;> simp_all [isRecord, Value.isObject, Value.own]

theorem isRecord_eq_of_jsonEqual {left right : Value} (hl : Tame left) (hr : Tame right)
    (h : jsonEqual left right = true) : isRecord left = isRecord right := by
  cases hl <;> cases hr <;>
    simp_all [jsonEqual, Value.strictEq, isRecord, Value.isObject]

theorem Ordinary.jsonEqual_refl {v : Value} (hv : Ordinary v) : jsonEqual v v = true := by
  induction v using Value.ind with
  | undefined => cases hv
  | bigint n => cases hv
  | null => rfl
  | bool b => simp [jsonEqual, Value.strictEq]
  | num n => simp [jsonEqual, Value.strictEq]
  | str s => simp [jsonEqual, Value.strictEq]
  | inherited name => cases hv
  | arr items ih =>
      rw [jsonEqual_arr_iff]
      refine ⟨rfl, ?_⟩
      intro i hl hr
      exact ih _ (List.getElem_mem hl) (hv.item (List.getElem_mem hl))
  | obj i entries ih =>
      rw [hv.jsonEqual_obj_iff hv.obj_inv.1]
      intro key
      cases hget : Assoc.get key entries with
      | none => trivial
      | some v =>
          have hmem := Assoc.mem_of_get hget
          exact ih _ hmem (hv.entry hmem)

theorem Ordinary.jsonEqual_symm {left right : Value} (hl : Ordinary left) (hr : Ordinary right)
    (h : jsonEqual left right = true) : jsonEqual right left = true := by
  induction left using Value.ind generalizing right with
  | undefined => cases hl
  | bigint n => cases hl
  | inherited name => cases hl
  | null => cases hr <;> simp_all [jsonEqual, Value.strictEq]
  | bool b => cases hr <;> simp_all [jsonEqual, Value.strictEq]
  | num n => cases hr <;> simp_all [jsonEqual, Value.strictEq]
  | str s => cases hr <;> simp_all [jsonEqual, Value.strictEq]
  | arr items ih =>
      cases right with
      | arr items' =>
          rw [jsonEqual_arr_iff] at h ⊢
          refine ⟨h.1.symm, ?_⟩
          intro i hi' hi
          exact ih _ (List.getElem_mem hi) (hl.item (List.getElem_mem hi))
            (hr.item (List.getElem_mem hi')) (h.2 i hi hi')
      | _ => simp [jsonEqual] at h
  | obj i entries ih =>
      cases right with
      | obj j entries' =>
          rw [hl.jsonEqual_obj_iff hr.obj_inv.1] at h
          rw [hr.jsonEqual_obj_iff hl.obj_inv.1]
          intro key
          have := h key
          cases hget : Assoc.get key entries <;> cases hget' : Assoc.get key entries' <;>
            rw [hget, hget'] at this <;> try exact this
          exact ih _ (Assoc.mem_of_get hget) (hl.entry (Assoc.mem_of_get hget))
            (hr.entry (Assoc.mem_of_get hget')) this
      | inherited name => cases hr
      | _ => simp [jsonEqual, isRecord, Value.isObject] at h

theorem Ordinary.jsonEqual_trans {left mid right : Value} (hl : Ordinary left) (hm : Ordinary mid)
    (hr : Ordinary right) (h : jsonEqual left mid = true) (h' : jsonEqual mid right = true) :
    jsonEqual left right = true := by
  induction left using Value.ind generalizing mid right with
  | undefined => cases hl
  | bigint n => cases hl
  | inherited name => cases hl
  | null => cases hm <;> cases hr <;> simp_all [jsonEqual, Value.strictEq]
  | bool b => cases hm <;> cases hr <;> simp_all [jsonEqual, Value.strictEq]
  | num n => cases hm <;> cases hr <;> simp_all [jsonEqual, Value.strictEq]
  | str s => cases hm <;> cases hr <;> simp_all [jsonEqual, Value.strictEq]
  | arr items ih =>
      cases mid with
      | arr items' =>
          cases right with
          | arr items'' =>
              rw [jsonEqual_arr_iff] at h h' ⊢
              refine ⟨h.1.trans h'.1, ?_⟩
              intro i hi hi''
              have hi' : i < items'.length := h.1 ▸ hi
              exact ih _ (List.getElem_mem hi) (hl.item (List.getElem_mem hi))
                (hm.item (List.getElem_mem hi')) (hr.item (List.getElem_mem hi'')) (h.2 i hi hi')
                (h'.2 i hi' hi'')
          | _ => simp [jsonEqual] at h'
      | _ => simp [jsonEqual] at h
  | obj i entries ih =>
      cases mid with
      | obj j entries' =>
          cases right with
          | obj j' entries'' =>
              rw [hl.jsonEqual_obj_iff hm.obj_inv.1] at h
              rw [hm.jsonEqual_obj_iff hr.obj_inv.1] at h'
              rw [hl.jsonEqual_obj_iff hr.obj_inv.1]
              intro key
              have h := h key
              have h' := h' key
              cases hget : Assoc.get key entries <;> cases hget' : Assoc.get key entries' <;>
                cases hget'' : Assoc.get key entries'' <;>
                simp only [hget, hget', hget'', SameValue] at h h' ⊢
              exact ih _ (Assoc.mem_of_get hget) (hl.entry (Assoc.mem_of_get hget))
                (hm.entry (Assoc.mem_of_get hget')) (hr.entry (Assoc.mem_of_get hget'')) h h'
          | inherited name => cases hr
          | _ => simp [jsonEqual, isRecord, Value.isObject] at h'
      | inherited name => cases hm
      | _ => simp [jsonEqual, isRecord, Value.isObject] at h

/-! ## Tame values -/

theorem not_jsonEqual_inherited {v : Value} (hv : Tame v) {name : JsString}
    (hname : name ≠ dunderProto) : jsonEqual v (.inherited name) = false :=
  hv.ordinary.not_jsonEqual_inherited fun h => absurd h hname

theorem not_inherited_jsonEqual {v : Value} (hv : Tame v) {name : JsString}
    (hname : name ≠ dunderProto) : jsonEqual (.inherited name) v = false := by
  cases hv <;> simp [jsonEqual, Value.strictEq, isRecord, Value.isObject, hname]

theorem jsonEqual_obj_iff {i j : Bool} {left right : List (JsString × Value)}
    (hl : Tame (.obj i left)) (hr : Tame (.obj j right)) :
    jsonEqual (.obj i left) (.obj j right) = true ↔
      ∀ key, SameValue (Assoc.get key left) (Assoc.get key right) :=
  hl.ordinary.jsonEqual_obj_iff hr.obj_inv.2.1

theorem jsonEqual_refl {v : Value} (hv : Tame v) : jsonEqual v v = true :=
  hv.ordinary.jsonEqual_refl

end Realtime.Structured
