import Mathlib.Data.List.Forall2
import Realtime.Structured.DiskMerge

/-!
# Containment of JSON values

`jsonContains` of `src/structured/reconcile.ts` settles a startup without a shared
baseline: the side that contains the other is taken. Records contain by key, arrays by
a subsequence of equal elements.

The comparison is a partial order up to `jsonEqual` on the values whose `__proto__` keys
are harmless (`Containable`). Under such a key every object has `Object.prototype`, which
contains `{}` and `{"__proto__": null}` and nothing else: a record is then contained in
one that does not have the key.
-/

namespace Realtime.Structured.DiskMerge

open Lib Lib.Js Lib.Utf16

/-- `{}` or `{"__proto__": null}`, what `Object.prototype` contains. -/
def isHollow : Value → Bool
  | .obj _ [] => true
  | .obj _ [(key, .null)] => key = dunderProto
  | _ => false

/-- No record on the way to an array keeps a hollow value under a key `__proto__`, and
the elements of the arrays are ordinary. -/
inductive Containable : Value → Prop
  | null : Containable .null
  | bool (b : Bool) : Containable (.bool b)
  | num (n : ℚ) : Containable (.num n)
  | str (s : JsString) : Containable (.str s)
  | arr {items : List Value} : (∀ v ∈ items, Ordinary v) → Containable (.arr items)
  | obj {i : Bool} {entries : List (JsString × Value)} : Assoc.Wf entries →
      (∀ e ∈ entries, Containable e.2) →
      (∀ e ∈ entries, e.1 = dunderProto → isHollow e.2 = false) → Containable (.obj i entries)

theorem isEmptyRecord_of_not_isHollow {v : Value} (h : isHollow v = false) :
    isEmptyRecord v = false := by
  cases v with
  | obj i entries =>
      cases entries with
      | nil => cases h
      | cons e entries => rfl
  | _ => rfl

theorem Containable.ordinary {v : Value} (h : Containable v) : Ordinary v := by
  induction h with
  | null => exact .null
  | bool b => exact .bool b
  | num n => exact .num n
  | str s => exact .str s
  | arr hitems => exact .arr hitems
  | obj hwf _ hproto ih =>
      exact .obj hwf ih fun e he hkey => isEmptyRecord_of_not_isHollow (hproto e he hkey)

theorem Containable.obj_inv {i : Bool} {entries : List (JsString × Value)}
    (h : Containable (.obj i entries)) : Assoc.Wf entries ∧ (∀ e ∈ entries, Containable e.2) ∧
      ∀ e ∈ entries, e.1 = dunderProto → isHollow e.2 = false := by
  cases h with
  | obj hwf hvals hproto => exact ⟨hwf, hvals, hproto⟩

theorem Containable.items {items : List Value} (h : Containable (.arr items)) :
    ∀ v ∈ items, Ordinary v := by
  cases h with
  | arr hitems => exact hitems

/-! ## Arrays: a subsequence of equal elements -/

/-- The relation of an element with the one found for it. -/
def FoundAs (value other : Value) : Prop := jsonEqual other value = true

theorem sublistForall₂_of_cons {α β : Type*} {R : α → β → Prop} {a : α} {l : List α}
    {l' : List β} (h : List.SublistForall₂ R (a :: l) l') : List.SublistForall₂ R l l' := by
  induction l' with
  | nil => cases h
  | cons b l' ih =>
      cases h with
      | cons _ h => exact .cons_right h
      | cons_right h => exact .cons_right (ih h)

theorem sublistForall₂_trans {α : Type*} {R : α → α → Prop} {l₁ l₂ l₃ : List α}
    (htrans : ∀ a ∈ l₁, ∀ b ∈ l₂, ∀ c ∈ l₃, R a b → R b c → R a c)
    (h : List.SublistForall₂ R l₁ l₂) (h' : List.SublistForall₂ R l₂ l₃) :
    List.SublistForall₂ R l₁ l₃ := by
  induction h' generalizing l₁ with
  | nil =>
      cases h
      exact .nil
  | cons hbc _ ih =>
      cases h with
      | nil => exact .nil
      | cons hab h =>
          refine .cons (htrans _ List.mem_cons_self _ List.mem_cons_self _
            List.mem_cons_self hab hbc)
            (ih (fun a ha b hb c hc => ?_) h)
          exact htrans a (List.mem_cons_of_mem _ ha) b (List.mem_cons_of_mem _ hb) c
            (List.mem_cons_of_mem _ hc)
      | cons_right h =>
          refine .cons_right (ih (fun a ha b hb c hc => ?_) h)
          exact htrans a ha b (List.mem_cons_of_mem _ hb) c (List.mem_cons_of_mem _ hc)
  | cons_right _ ih =>
      exact .cons_right
        (ih (fun a ha b hb c hc => htrans a ha b hb c (List.mem_cons_of_mem _ hc)) h)

/-- Each of two lists is a subsequence of the other only where they are of one length. -/
theorem forall₂_of_sublistForall₂ {α : Type*} {R S : α → α → Prop} {l l' : List α}
    (h : List.SublistForall₂ R l l') (h' : List.SublistForall₂ S l' l) : List.Forall₂ R l l' := by
  obtain ⟨m, hm, hsub⟩ := List.sublistForall₂_iff.mp h
  obtain ⟨m', hm', hsub'⟩ := List.sublistForall₂_iff.mp h'
  have hlen := hsub.length_le
  have hlen' := hsub'.length_le
  rw [← hm.length_eq] at hlen
  rw [← hm'.length_eq] at hlen'
  rwa [hsub.eq_of_length (by rw [← hm.length_eq]; omega)] at hm

/-- Taking each element at its first occurrence misses no subsequence. -/
theorem containsItems_iff {inner outer : List Value} :
    containsItems inner outer = true ↔ List.SublistForall₂ FoundAs inner outer := by
  induction outer generalizing inner with
  | nil =>
      cases inner with
      | nil => exact iff_of_true rfl .nil
      | cons value inner => exact iff_of_false Bool.false_ne_true nofun
  | cons other outer ih =>
      cases inner with
      | nil => exact iff_of_true rfl .nil
      | cons value inner =>
          rw [containsItems]
          by_cases heq : jsonEqual other value = true
          · rw [if_pos heq, ih]
            constructor
            · exact fun h => .cons heq h
            · intro h
              cases h with
              | cons _ h => exact h
              | cons_right h => exact sublistForall₂_of_cons h
          · rw [if_neg heq, ih]
            constructor
            · exact fun h => .cons_right h
            · intro h
              cases h with
              | cons hfound _ => exact absurd hfound heq
              | cons_right h => exact h

theorem jsonEqual_arr_iff_forall₂ {left right : List Value} :
    jsonEqual (.arr left) (.arr right) = true ↔ List.Forall₂ FoundAs right left := by
  rw [jsonEqual_arr_iff, List.forall₂_iff_get]
  exact ⟨fun h => ⟨h.1.symm, fun i hi hi' => h.2 i hi' hi⟩,
    fun h => ⟨h.1.symm, fun i hi hi' => h.2 i hi' hi⟩⟩

theorem jsonContains_of_jsonEqual {outer inner : Value} (h : jsonEqual outer inner = true) :
    jsonContains outer inner = true := by
  cases inner <;> simp [jsonContains, h]

theorem jsonContains_arr_iff {outer inner : List Value} :
    jsonContains (.arr outer) (.arr inner) = true ↔
      List.SublistForall₂ FoundAs inner outer := by
  rw [jsonContains, Bool.or_eq_true, jsonEqual_arr_iff_forall₂, containsItems_iff]
  constructor
  · rintro (h | h)
    · exact List.sublistForall₂_iff.mpr ⟨outer, h, List.Sublist.refl _⟩
    · exact h
  · exact Or.inr

/-! ## Records: every key, with a contained value -/

theorem containsEntries_iff {outer : Value} {inner : List (JsString × Value)} :
    containsEntries outer inner = true ↔
      ∀ e ∈ inner, outer.hasKey e.1 = true ∧ jsonContains (outer.read e.1) e.2 = true := by
  induction inner with
  | nil => simp [containsEntries]
  | cons e inner ih =>
      obtain ⟨key, value⟩ := e
      rw [containsEntries, Bool.and_eq_true, Bool.and_eq_true, ih]
      simp

/-- A function contains no JSON value. -/
theorem not_jsonContains_function {v : Value} (hv : Ordinary v) {name : JsString}
    (hname : name ≠ dunderProto) : jsonContains (.inherited name) v = false := by
  cases hv <;> simp [jsonContains, jsonEqual, Value.strictEq, isRecord, Value.isObject, hname]

theorem jsonContains_null_iff {v : Value} (hv : Ordinary v) :
    jsonContains .null v = true ↔ v = .null := by
  cases hv <;> simp [jsonContains, jsonEqual, Value.strictEq, isRecord, Value.isObject]

/-- `Object.prototype` has a `__proto__`, which is `null`, and functions. -/
theorem jsonContains_prototype_iff {v : Value} (hv : Ordinary v) :
    jsonContains (.inherited dunderProto) v = true ↔ isHollow v = true := by
  cases hv with
  | obj hwf hvals hproto =>
      rename_i i entries
      have hmem : dunderProto ∈ prototypeNames := by simp [prototypeNames]
      have hentry : ∀ e ∈ entries, e.1 ≠ dunderProto →
          ¬((Value.inherited dunderProto).hasKey e.1 = true ∧
            jsonContains ((Value.inherited dunderProto).read e.1) e.2 = true) := by
        rintro e he hne ⟨hhas, hcontains⟩
        have hread : (Value.inherited dunderProto).read e.1 = .inherited e.1 := by
          simp only [Value.hasKey, decide_eq_true_eq] at hhas
          simp [Value.read, hne, hhas]
        rw [hread, not_jsonContains_function (hvals e he) hne] at hcontains
        cases hcontains
      have hnull : (Value.inherited dunderProto).read dunderProto = .null := by simp [Value.read]
      rw [jsonContains, Bool.or_eq_true, Bool.and_eq_true, containsEntries_iff]
      cases entries with
      | nil => simp [jsonEqual, Value.strictEq, isRecord, Value.isObject, Value.ownKeys, isHollow]
      | cons e entries =>
          obtain ⟨hfresh, -⟩ := Assoc.wf_cons.mp hwf
          have hnot : ¬jsonEqual (.inherited dunderProto) (.obj i (e :: entries)) = true := by
            simp [jsonEqual, Value.strictEq, Value.ownKeys]
          constructor
          · rintro (h | ⟨-, h⟩)
            · exact absurd h hnot
            · have hkey : e.1 = dunderProto := by
                by_contra hne
                exact hentry e List.mem_cons_self hne (h e List.mem_cons_self)
              have hvalue := (h e List.mem_cons_self).2
              rw [hkey, hnull, jsonContains_null_iff (hvals e List.mem_cons_self)] at hvalue
              cases entries with
              | nil =>
                  obtain ⟨key, value⟩ := e
                  obtain rfl : value = .null := hvalue
                  exact decide_eq_true hkey
              | cons e' entries =>
                  -- a second key is no `__proto__`, and its value is contained in a function
                  have hmem' : e' ∈ e :: e' :: entries :=
                    List.mem_cons_of_mem _ List.mem_cons_self
                  have hne : e'.1 ≠ dunderProto := by
                    rintro heq
                    refine hfresh ?_
                    rw [hkey, ← heq]
                    exact List.mem_cons_self
                  exact absurd (h e' hmem') (hentry e' hmem' hne)
          · intro h
            obtain ⟨key, value⟩ := e
            cases entries with
            | cons e' entries => simp [isHollow] at h
            | nil =>
                cases value with
                | null =>
                    have hkey : key = dunderProto := of_decide_eq_true h
                    refine Or.inr ⟨rfl, ?_⟩
                    intro e he
                    obtain rfl := List.mem_singleton.mp he
                    show (Value.inherited dunderProto).hasKey key = true ∧
                      jsonContains ((Value.inherited dunderProto).read key) .null = true
                    rw [hkey, hnull]
                    exact ⟨decide_eq_true hmem, rfl⟩
                | _ => simp [isHollow] at h
  | _ => simp [jsonContains, jsonEqual, Value.strictEq, isRecord, Value.isObject, isHollow]

theorem jsonContains_obj_iff {i j : Bool} {outer inner : List (JsString × Value)}
    (ho : Ordinary (.obj j outer)) (hi : Containable (.obj i inner)) :
    jsonContains (.obj j outer) (.obj i inner) = true ↔
      ∀ e ∈ inner, ∃ w, Assoc.get e.1 outer = some w ∧ jsonContains w e.2 = true := by
  obtain ⟨hwf, hvals, hproto⟩ := hi.obj_inv
  have hentry : ∀ e ∈ inner, (Value.obj j outer).hasKey e.1 = true ∧
      jsonContains ((Value.obj j outer).read e.1) e.2 = true ↔
      ∃ w, Assoc.get e.1 outer = some w ∧ jsonContains w e.2 = true := by
    intro e he
    cases hget : Assoc.get e.1 outer with
    | some w =>
        rw [Value.hasKey_of_own (v := .obj j outer) hget,
          Value.read_of_own (v := .obj j outer) hget]
        simp
    | none =>
        refine iff_of_false ?_ nofun
        rintro ⟨hhas, hcontains⟩
        have hread : (Value.obj j outer).read e.1 = .inherited e.1 := by
          have := Assoc.get_eq_none_iff.mp hget
          simp only [Value.hasKey, this, decide_false, Bool.false_or] at hhas
          simp [Value.read, hget, hhas]
        rw [hread] at hcontains
        by_cases hkey : e.1 = dunderProto
        · rw [hkey, jsonContains_prototype_iff (hvals e he).ordinary, hproto e he hkey] at hcontains
          cases hcontains
        · rw [not_jsonContains_function (hvals e he).ordinary hkey] at hcontains
          cases hcontains
  rw [jsonContains, Bool.or_eq_true, Bool.and_eq_true, containsEntries_iff]
  constructor
  · rintro (h | ⟨-, h⟩) e he
    · -- equal records have equal values under each key
      have hsame := (ho.jsonEqual_obj_iff hwf).mp h e.1
      rw [Assoc.get_of_mem hwf he] at hsame
      cases hget : Assoc.get e.1 outer with
      | none =>
          rw [hget] at hsame
          exact hsame.elim
      | some w =>
          rw [hget] at hsame
          exact ⟨w, rfl, jsonContains_of_jsonEqual hsame⟩
    · exact (hentry e he).mp (h e he)
  · intro h
    exact Or.inr ⟨rfl, fun e he => (hentry e he).mpr (h e he)⟩

/-- What contains a record is one. -/
theorem eq_obj_of_jsonContains {outer : Value} (ho : Ordinary outer) {i : Bool}
    {inner : List (JsString × Value)} (h : jsonContains outer (.obj i inner) = true) :
    ∃ j entries, outer = .obj j entries := by
  cases ho with
  | obj => exact ⟨_, _, rfl⟩
  | _ => simp [jsonContains, jsonEqual, Value.strictEq, isRecord, Value.isObject] at h

theorem eq_arr_of_jsonContains {outer : Value} (ho : Ordinary outer) {inner : List Value}
    (h : jsonContains outer (.arr inner) = true) : ∃ items, outer = .arr items := by
  cases ho with
  | arr => exact ⟨_, rfl⟩
  | _ => simp [jsonContains, jsonEqual, Value.strictEq, isRecord, Value.isObject] at h

/-- Only a value itself contains a value that is no container. -/
theorem eq_of_jsonContains {outer inner : Value} (ho : Ordinary outer) (hi : Ordinary inner)
    (harr : ∀ items, inner ≠ .arr items) (hobj : ∀ i entries, inner ≠ .obj i entries)
    (h : jsonContains outer inner = true) : outer = inner := by
  cases hi with
  | arr => exact absurd rfl (harr _)
  | obj => exact absurd rfl (hobj _ _)
  | _ =>
      cases ho <;>
        simp_all [jsonContains, jsonEqual, Value.strictEq, isRecord, Value.isObject]

/-! ## A partial order up to equality -/

theorem jsonContains_trans {a b c : Value} (ha : Containable a) (hb : Containable b)
    (hc : Containable c) (h : jsonContains a b = true) (h' : jsonContains b c = true) :
    jsonContains a c = true := by
  induction c using Value.ind generalizing a b with
  | arr items ih =>
      obtain ⟨items', rfl⟩ := eq_arr_of_jsonContains hb.ordinary h'
      obtain ⟨items'', rfl⟩ := eq_arr_of_jsonContains ha.ordinary h
      rw [jsonContains_arr_iff] at h h' ⊢
      refine sublistForall₂_trans (fun u hu v hv w hw huv hvw => ?_) h' h
      exact (ha.items w hw).jsonEqual_trans (hb.items v hv) (hc.items u hu) hvw huv
  | obj i entries ih =>
      obtain ⟨j, entries', rfl⟩ := eq_obj_of_jsonContains hb.ordinary h'
      obtain ⟨j', entries'', rfl⟩ := eq_obj_of_jsonContains ha.ordinary h
      rw [jsonContains_obj_iff ha.ordinary hb] at h
      rw [jsonContains_obj_iff hb.ordinary hc] at h'
      rw [jsonContains_obj_iff ha.ordinary hc]
      intro e he
      obtain ⟨w, hget, hw⟩ := h' e he
      obtain ⟨w', hget', hw'⟩ := h (e.1, w) (Assoc.mem_of_get hget)
      exact ⟨w', hget', ih e he (ha.obj_inv.2.1 _ (Assoc.mem_of_get hget'))
        (hb.obj_inv.2.1 _ (Assoc.mem_of_get hget)) (hc.obj_inv.2.1 e he) hw' hw⟩
  | _ => rwa [← eq_of_jsonContains hb.ordinary hc.ordinary nofun nofun h']

theorem jsonContains_antisymm {a b : Value} (ha : Containable a) (hb : Containable b)
    (h : jsonContains a b = true) (h' : jsonContains b a = true) : jsonEqual a b = true := by
  induction a using Value.ind generalizing b with
  | arr items ih =>
      obtain ⟨items', rfl⟩ := eq_arr_of_jsonContains hb.ordinary h'
      rw [jsonContains_arr_iff] at h h'
      exact jsonEqual_arr_iff_forall₂.mpr (forall₂_of_sublistForall₂ h h')
  | obj i entries ih =>
      obtain ⟨j, entries', rfl⟩ := eq_obj_of_jsonContains hb.ordinary h'
      rw [jsonContains_obj_iff ha.ordinary hb] at h
      rw [jsonContains_obj_iff hb.ordinary ha] at h'
      rw [ha.ordinary.jsonEqual_obj_iff hb.obj_inv.1]
      intro key
      cases hget : Assoc.get key entries with
      | some v =>
          obtain ⟨w, hw, hcontains⟩ := h' (key, v) (Assoc.mem_of_get hget)
          obtain ⟨v', hv', hcontains'⟩ := h (key, w) (Assoc.mem_of_get hw)
          obtain rfl := Option.some.inj (hget.symm.trans hv')
          rw [show Assoc.get key entries' = some w from hw]
          exact ih _ (Assoc.mem_of_get hget) (ha.obj_inv.2.1 _ (Assoc.mem_of_get hget))
            (hb.obj_inv.2.1 _ (Assoc.mem_of_get hw)) hcontains' hcontains
      | none =>
          cases hget' : Assoc.get key entries' with
          | none => trivial
          | some w =>
              obtain ⟨v, hv, -⟩ := h (key, w) (Assoc.mem_of_get hget')
              rw [show Assoc.get key entries = some v from hv] at hget
              cases hget
  | _ =>
      rw [eq_of_jsonContains hb.ordinary ha.ordinary nofun nofun h']
      exact ha.ordinary.jsonEqual_refl

/-- Deep equality is an equivalence, at these three values. -/
structure EqualLaws (a b c : Value) : Prop where
  refl : jsonEqual a a = true
  symm : jsonEqual a b = true → jsonEqual b a = true
  trans : jsonEqual a b = true → jsonEqual b c = true → jsonEqual a c = true

/-- Containment is a partial order up to deep equality, at these three values. -/
structure ContainsLaws (a b c : Value) : Prop extends EqualLaws a b c where
  contains_refl : jsonContains a a = true
  contains_trans : jsonContains a b = true → jsonContains b c = true → jsonContains a c = true
  contains_antisymm : jsonContains a b = true → jsonContains b a = true → jsonEqual a b = true
  congr_outer : jsonEqual a b = true → jsonContains a c = jsonContains b c
  congr_inner : jsonEqual a b = true → jsonContains c a = jsonContains c b

theorem equalLaws {a b c : Value} (ha : Ordinary a) (hb : Ordinary b) (hc : Ordinary c) :
    EqualLaws a b c where
  refl := ha.jsonEqual_refl
  symm := ha.jsonEqual_symm hb
  trans := ha.jsonEqual_trans hb hc

theorem containsLaws {a b c : Value} (ha : Containable a) (hb : Containable b)
    (hc : Containable c) : ContainsLaws a b c where
  toEqualLaws := equalLaws ha.ordinary hb.ordinary hc.ordinary
  contains_refl := jsonContains_of_jsonEqual ha.ordinary.jsonEqual_refl
  contains_trans := jsonContains_trans ha hb hc
  contains_antisymm := jsonContains_antisymm ha hb
  congr_outer := by
    intro h
    have hab := jsonContains_of_jsonEqual h
    have hba := jsonContains_of_jsonEqual (ha.ordinary.jsonEqual_symm hb.ordinary h)
    exact Bool.eq_iff_iff.mpr ⟨jsonContains_trans hb ha hc hba, jsonContains_trans ha hb hc hab⟩
  congr_inner := by
    intro h
    have hab := jsonContains_of_jsonEqual h
    have hba := jsonContains_of_jsonEqual (ha.ordinary.jsonEqual_symm hb.ordinary h)
    exact Bool.eq_iff_iff.mpr ⟨fun hc' => jsonContains_trans hc ha hb hc' hab,
      fun hc' => jsonContains_trans hc hb ha hc' hba⟩

/-! ## What goes wrong under `__proto__` -/

theorem exists_fresh (entries : List (JsString × Value)) :
    ∃ key, key ∉ Assoc.keys entries ∧ key ∉ prototypeNames := by
  obtain ⟨key, hkey⟩ :=
    Infinite.exists_notMem_finset (Assoc.keys entries ++ prototypeNames).toFinset
  rw [List.mem_toFinset, List.mem_append, not_or] at hkey
  exact ⟨key, hkey⟩

theorem isEmptyRecord_of_jsonEqual {v w : Value} (hv : v.IsJson) (h : jsonEqual v w = true)
    (hw : isEmptyRecord w = true) : isEmptyRecord v = true := by
  cases w with
  | obj j right =>
      cases right with
      | cons e right => cases hw
      | nil =>
          cases hv with
          | obj hi hwf hkeys hvals =>
              rename_i i left
              have hlen : left.length = 0 := by
                simp only [jsonEqual, Bool.and_eq_true, beq_iff_eq] at h
                exact h.1.2
              rw [List.eq_nil_of_length_eq_zero hlen]
              rfl
          | _ => simp [jsonEqual, Value.strictEq] at h
  | _ => cases hw

/-- An entry as an ordinary value has it: a fresh key in the place of a `__proto__` that
keeps `{}`. -/
def freshEntry (fresh : JsString) (f : JsString × Value → Value) (e : JsString × Value) :
    JsString × Value :=
  if e.1 = dunderProto ∧ isEmptyRecord e.2 = true then (fresh, .null) else (e.1, f e)

section

variable {entries : List (JsString × Value)} {fresh : JsString} {f : JsString × Value → Value}

theorem wf_map_freshEntry (hwf : Assoc.Wf entries) (hfresh : fresh ∉ Assoc.keys entries) :
    Assoc.Wf (entries.map (freshEntry fresh f)) := by
  have hne : ∀ e ∈ entries, fresh ≠ e.1 := by
    rintro e he rfl
    exact hfresh (List.mem_map_of_mem (f := Prod.fst) he)
  rw [Assoc.Wf, Assoc.keys, List.map_map, List.Nodup, List.pairwise_map]
  have hpair : entries.Pairwise fun e e' => e.1 ≠ e'.1 := List.pairwise_map.mp hwf
  refine hpair.imp_of_mem fun {e e'} he he' hkeys => ?_
  show (freshEntry fresh f e).1 ≠ (freshEntry fresh f e').1
  rw [freshEntry, freshEntry]
  split <;> split
  · next h h' => exact absurd (h.1.trans h'.1.symm) hkeys
  · exact hne e' he'
  · exact (hne e he).symm
  · exact hkeys

theorem get_freshEntry {e : JsString × Value} (hwf : Assoc.Wf (entries.map (freshEntry fresh f)))
    (he : e ∈ entries) (hkept : ¬(e.1 = dunderProto ∧ isEmptyRecord e.2 = true)) :
    Assoc.get e.1 (entries.map (freshEntry fresh f)) = some (f e) := by
  refine Assoc.get_of_mem hwf (List.mem_map.mpr ⟨e, he, ?_⟩)
  rw [freshEntry, if_neg hkept]

/-- The one entry under `__proto__` is the one that got the fresh key. -/
theorem get_dunderProto_freshEntry {e : JsString × Value} (hwf : Assoc.Wf entries)
    (he : e ∈ entries) (hkey : e.1 = dunderProto) (hempty : isEmptyRecord e.2 = true)
    (hfresh : fresh ≠ dunderProto) :
    Assoc.get dunderProto (entries.map (freshEntry fresh f)) = none := by
  rw [Assoc.get_eq_none_iff]
  intro hmem
  obtain ⟨e', he', hproto⟩ := List.mem_map.mp hmem
  obtain ⟨e'', he'', rfl⟩ := List.mem_map.mp he'
  rw [freshEntry] at hproto
  split at hproto
  · exact hfresh hproto
  · next hkept =>
      have hsame : some e''.2 = some e.2 := by
        rw [← Assoc.get_of_mem hwf he'', ← Assoc.get_of_mem hwf he, hproto, hkey]
      rw [Option.some.inj hsame] at hkept
      exact hkept ⟨hproto, hempty⟩

end

/-- Every JSON value equals an ordinary one, and unless it is ordinary itself, that one
does not equal it. -/
theorem exists_ordinary {a : Value} (ha : a.IsJson) : ∃ b : Value, b.IsJson ∧ Ordinary b ∧
    jsonEqual a b = true ∧ (jsonEqual b a = true → Ordinary a) := by
  induction a using Value.ind with
  | undefined => cases ha
  | bigint n => cases ha
  | inherited name => cases ha
  | null => exact ⟨_, ha, .null, rfl, fun _ => .null⟩
  | bool b => exact ⟨_, ha, .bool b, (Ordinary.bool b).jsonEqual_refl, fun _ => .bool b⟩
  | num n => exact ⟨_, ha, .num n, (Ordinary.num n).jsonEqual_refl, fun _ => .num n⟩
  | str s => exact ⟨_, ha, .str s, (Ordinary.str s).jsonEqual_refl, fun _ => .str s⟩
  | arr items ih =>
      have hitems : ∀ v ∈ items, v.IsJson := by
        cases ha with
        | arr hitems => exact hitems
      -- an ordinary value for each element
      have hchoose : ∀ v, ∃ b : Value, v ∈ items → b.IsJson ∧ Ordinary b ∧
          jsonEqual v b = true ∧ (jsonEqual b v = true → Ordinary v) := by
        intro v
        by_cases hv : v ∈ items
        · obtain ⟨b, hb⟩ := ih v hv (hitems v hv)
          exact ⟨b, fun _ => hb⟩
        · exact ⟨v, fun h => absurd h hv⟩
      choose f hf using hchoose
      refine ⟨.arr (items.map f), .arr ?_, .arr ?_, ?_, ?_⟩
      · intro b hb
        obtain ⟨v, hv, rfl⟩ := List.mem_map.mp hb
        exact (hf v hv).1
      · intro b hb
        obtain ⟨v, hv, rfl⟩ := List.mem_map.mp hb
        exact (hf v hv).2.1
      · refine jsonEqual_arr_iff.mpr ⟨(List.length_map _).symm, fun i hi hi' => ?_⟩
        rw [List.getElem_map]
        exact (hf _ (List.getElem_mem hi)).2.2.1
      · intro h
        refine .arr fun v hv => ?_
        obtain ⟨i, hi, rfl⟩ := List.mem_iff_getElem.mp hv
        have heq := (jsonEqual_arr_iff.mp h).2 i (by rwa [List.length_map]) hi
        rw [List.getElem_map] at heq
        exact (hf _ hv).2.2.2 heq
  | obj i entries ih =>
      obtain ⟨-, hwf, -, hvals⟩ := ha.obj_inv
      have hchoose : ∀ e, ∃ b : Value, e ∈ entries → b.IsJson ∧ Ordinary b ∧
          jsonEqual e.2 b = true ∧ (jsonEqual b e.2 = true → Ordinary e.2) := by
        intro e
        by_cases he : e ∈ entries
        · obtain ⟨b, hb⟩ := ih e he (hvals e he)
          exact ⟨b, fun _ => hb⟩
        · exact ⟨.null, fun h => absurd h he⟩
      choose f hf using hchoose
      obtain ⟨fresh, hfresh, hnew⟩ := exists_fresh entries
      have hproto : fresh ≠ dunderProto := by
        rintro rfl
        exact hnew (by simp [prototypeNames])
      have hwf' := wf_map_freshEntry (f := f) hwf hfresh
      -- an empty record under `__proto__` gives way to null under a fresh key
      refine ⟨.obj true (entries.map (freshEntry fresh f)), .obj rfl hwf' (fun _ _ => trivial) ?_,
        .obj hwf' ?_ ?_, ?_, ?_⟩
      · intro e' he'
        obtain ⟨e, he, rfl⟩ := List.mem_map.mp he'
        rw [freshEntry]
        split
        · exact .null
        · exact (hf e he).1
      · intro e' he'
        obtain ⟨e, he, rfl⟩ := List.mem_map.mp he'
        rw [freshEntry]
        split
        · exact .null
        · exact (hf e he).2.1
      · intro e' he' hkey
        obtain ⟨e, he, rfl⟩ := List.mem_map.mp he'
        rw [freshEntry] at hkey ⊢
        split at hkey
        · exact absurd hkey hproto
        · next hkept =>
            rw [if_neg hkept]
            by_contra hempty
            exact hkept ⟨hkey, isEmptyRecord_of_jsonEqual (hvals e he) (hf e he).2.2.1
              (by simpa using hempty)⟩
      · -- the prototype answers for the key that is gone
        rw [jsonEqual, Bool.and_eq_true, Bool.and_eq_true, jsonEqual_entries_iff]
        refine ⟨⟨rfl, by simp [Value.ownKeys, Assoc.keys]⟩, fun e he => ?_⟩
        by_cases hkept : e.1 = dunderProto ∧ isEmptyRecord e.2 = true
        · obtain ⟨hkey, hempty⟩ := hkept
          have hget := get_dunderProto_freshEntry (f := f) hwf he hkey hempty hproto
          have hmem : dunderProto ∈ prototypeNames := by simp [prototypeNames]
          rw [hkey, Value.hasKey_of_own_eq_none hget, Value.read_of_own_eq_none hget hmem]
          refine ⟨decide_eq_true hmem, ?_⟩
          cases hval : e.2 with
          | obj j inner =>
              rw [hval] at hempty
              cases inner with
              | nil => rfl
              | cons e' inner => cases hempty
          | _ =>
              rw [hval] at hempty
              cases hempty
        · have hget := get_freshEntry hwf' he hkept
          rw [Value.hasKey_of_own (v := .obj true _) hget,
            Value.read_of_own (v := .obj true _) hget]
          exact ⟨rfl, (hf e he).2.2.1⟩
      · intro h
        rw [jsonEqual, Bool.and_eq_true, jsonEqual_entries_iff] at h
        have hkept : ∀ e ∈ entries, ¬(e.1 = dunderProto ∧ isEmptyRecord e.2 = true) := by
          intro e he hbad
          have hhas := (h.2 (freshEntry fresh f e) (List.mem_map_of_mem he)).1
          rw [freshEntry, if_pos hbad] at hhas
          simp [Value.hasKey, hfresh, hnew] at hhas
        refine .obj hwf (fun e he => ?_) fun e he hkey => ?_
        · have heq := (h.2 (freshEntry fresh f e) (List.mem_map_of_mem he)).2
          rw [freshEntry, if_neg (hkept e he)] at heq
          rw [Value.read_of_own (v := .obj i entries) (Assoc.get_of_mem hwf he)] at heq
          exact (hf e he).2.2.2 heq
        · by_contra hempty
          exact hkept e he ⟨hkey, by simpa using hempty⟩

/-- An object with the one key `__proto__` that keeps `{}`. -/
def protoOfEmpty : JsonValue :=
  ⟨.obj true [(dunderProto, .obj true [])],
    .obj rfl (List.nodup_singleton _) (fun _ _ => trivial) fun e he => by
      obtain rfl := List.mem_singleton.mp he
      exact .obj rfl Assoc.wf_nil nofun nofun⟩

theorem json_empty : (Value.obj true []).IsJson :=
  .obj rfl Assoc.wf_nil (List.forall_mem_nil _) (List.forall_mem_nil _)

def emptyRecord : JsonValue := ⟨.obj true [], json_empty⟩

/-- `{}` and `{"__proto__": {}}` contain each other. -/
theorem not_containsLaws_protoOfEmpty (c : Value) :
    ¬ContainsLaws emptyRecord.1 protoOfEmpty.1 c := by
  intro h
  have hequal := h.contains_antisymm (by decide) (by decide)
  exact absurd hequal (by decide)

theorem not_containsLaws : ¬∀ a b c : JsonValue, ContainsLaws a.1 b.1 c.1 :=
  fun h => not_containsLaws_protoOfEmpty _ (h emptyRecord protoOfEmpty emptyRecord)

/-- The value uses these keys only. -/
def KeysIn (K : JsString → Prop) (v : JsonValue) : Prop := Value.Built (· = true) K v.1

theorem containable_of_tame {v : Value} (h : Tame v) : Containable v := by
  induction h with
  | null => exact .null
  | bool b => exact .bool b
  | num n => exact .num n
  | str s => exact .str s
  | arr hitems _ => exact .arr fun v hv => Tame.ordinary (hitems v hv)
  | obj _ hwf hkeys _ ih =>
      refine .obj hwf ih fun e he hkey => ?_
      exact absurd hkey (hkeys e.1 (List.mem_map_of_mem (f := Prod.fst) he))

/-- When deep equality is an equivalence and containment a partial order: equality on the
ordinary values and on no others, containment on the containable ones, and with keys of a
given set exactly where `__proto__` is not in the set. -/
theorem jsonContains_laws (a b c : JsonValue) (K : JsString → Prop) :
    ((∀ b c : JsonValue, Ordinary b.1 → Ordinary c.1 → EqualLaws a.1 b.1 c.1) ↔ Ordinary a.1) ∧
    (Containable a.1 → Containable b.1 → Containable c.1 → ContainsLaws a.1 b.1 c.1) ∧
    ((∀ a b c : JsonValue, KeysIn K a → KeysIn K b → KeysIn K c →
      ContainsLaws a.1 b.1 c.1) ↔ ¬K dunderProto) := by
  refine ⟨⟨fun h => ?_, fun ha b c hb hc => equalLaws ha hb hc⟩,
    fun ha hb hc => containsLaws ha hb hc,
    ⟨fun h hK => ?_, fun hK a b c ha hb hc => ?_⟩⟩
  · obtain ⟨b, hb, hordinary, hab, hba⟩ := exists_ordinary a.2
    exact hba ((h ⟨b, hb⟩ ⟨b, hb⟩ hordinary hordinary).symm hab)
  · refine not_containsLaws_protoOfEmpty _ (h emptyRecord protoOfEmpty emptyRecord ?_ ?_ ?_)
    · exact .obj rfl Assoc.wf_nil nofun nofun
    · refine .obj rfl (List.nodup_singleton _) (fun k hk => ?_) fun e he => ?_
      · rwa [List.mem_singleton.mp hk]
      · obtain rfl := List.mem_singleton.mp he
        exact .obj rfl Assoc.wf_nil nofun nofun
    · exact .obj rfl Assoc.wf_nil nofun nofun
  · have htame : ∀ v : JsonValue, KeysIn K v → Tame v.1 := fun v hv =>
      Value.Built.mono (fun _ _ => trivial)
        (fun k hk => fun (heq : k = dunderProto) => hK (heq ▸ hk)) hv
    exact containsLaws (containable_of_tame (htame a ha)) (containable_of_tame (htame b hb))
      (containable_of_tame (htame c hc))

/-- `{"meta": {"tags": […]}}` -/
def tagged (tags : List Value) : Value :=
  .obj true [(ascii "meta", .obj true [(ascii "tags", .arr tags)])]

theorem wf_singleton (e : JsString × Value) : Assoc.Wf [e] := List.nodup_singleton _

theorem json_tagged {tags : List Value} (h : ∀ tag ∈ tags, tag.IsJson) : (tagged tags).IsJson := by
  refine .obj rfl (wf_singleton _) (fun _ _ => trivial) fun e he => ?_
  obtain rfl := List.mem_singleton.mp he
  refine .obj rfl (wf_singleton _) (fun _ _ => trivial) fun e he => ?_
  obtain rfl := List.mem_singleton.mp he
  exact .arr h

theorem containable_tagged {tags : List Value} (h : ∀ tag ∈ tags, Ordinary tag) :
    Containable (tagged tags) := by
  refine .obj (wf_singleton _) (fun e he => ?_) fun e he hkey => ?_
  · obtain rfl := List.mem_singleton.mp he
    refine .obj (wf_singleton _) (fun e he => ?_) fun e he hkey => ?_
    · obtain rfl := List.mem_singleton.mp he
      exact .arr h
    · obtain rfl := List.mem_singleton.mp he
      rfl
  · obtain rfl := List.mem_singleton.mp he
    rfl

def someTags : List Value := [.num 1, .obj true [], .bool true]

theorem json_someTags : ∀ tag ∈ someTags, tag.IsJson := by
  rw [someTags]
  simp only [List.forall_mem_cons]
  exact ⟨.num 1, json_empty, .bool true, List.forall_mem_nil _⟩

theorem ordinary_someTags : ∀ tag ∈ someTags, Ordinary tag := by
  rw [someTags]
  simp only [List.forall_mem_cons]
  exact ⟨.num 1, .obj Assoc.wf_nil (List.forall_mem_nil _) (List.forall_mem_nil _), .bool true,
    List.forall_mem_nil _⟩

/-- Three tags, two of them, one of them: each record contains the next. -/
theorem jsonContains_laws_someTags :
    jsonContains (tagged someTags) (tagged (someTags.drop 2)) = true := by
  have hjson : ∀ n, (tagged (someTags.drop n)).IsJson := fun n =>
    json_tagged fun tag htag => json_someTags tag (List.mem_of_mem_drop htag)
  have hcontainable : ∀ n, Containable (tagged (someTags.drop n)) := fun n =>
    containable_tagged fun tag htag => ordinary_someTags tag (List.mem_of_mem_drop htag)
  have hlaws := (jsonContains_laws ⟨_, hjson 0⟩ ⟨_, hjson 1⟩ ⟨_, hjson 2⟩ fun _ => False).2.1
    (hcontainable 0) (hcontainable 1) (hcontainable 2)
  have hfirst : jsonContains (tagged someTags) (tagged (someTags.drop 1)) = true := by decide
  have hsecond : jsonContains (tagged (someTags.drop 1)) (tagged (someTags.drop 2)) = true := by
    decide
  exact hlaws.contains_trans hfirst hsecond

end Realtime.Structured.DiskMerge
