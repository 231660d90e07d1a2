import Realtime.Lib.JsValue
import Realtime.Lib.YText

/-!
# Shared types and their JSON value

The tree of Yjs types a structured document is kept in, the operations recorded
on it, and `toValue` of `src/structured/reconcile.ts`, which reads it back as
JSON.

A tree is compared with a JSON value up to the order of record keys, by
`SameJson`. It looks at own keys only: `out[key] = …` with the key `__proto__`
sets the prototype of `out` and no property, which is all `toValue` does with
such an entry.
-/

namespace Realtime.Structured

open Lib Lib.Js Lib.Utf16

inductive Node where
  | map (entries : List (JsString × Node))
  | array (items : List Node)
  | text (content : JsString)
  | plain (value : Value)

/-- A Yjs operation, on the type it is called on. -/
inductive YOp where
  | mapDelete (key : JsString)
  | mapSet (key : JsString)
  | arrayDelete (index length : Nat)
  | arrayInsert (index : Nat)
  | textDelete (index length : Nat)
  | textInsert (index : Nat) (content : JsString)
  deriving DecidableEq

mutual

def toValue : Node → Value
  | .map entries => .obj true (toValue.entries entries)
  | .array items => .arr (toValue.items items)
  | .text content => .str content
  | .plain .undefined => .null
  | .plain value => value

/-- The properties set on `out`. -/
def toValue.entries : List (JsString × Node) → List (JsString × Value)
  | [] => []
  | (key, child) :: rest =>
      if key = dunderProto then toValue.entries rest
      else (key, toValue child) :: toValue.entries rest

def toValue.items : List Node → List Value
  | [] => []
  | child :: rest => toValue child :: toValue.items rest

end

/-- Equal up to the order of record keys. -/
inductive SameJson : Value → Value → Prop
  | atom {v w : Value} : Value.strictEq v w = true → SameJson v w
  | arr {xs ys : List Value} : List.Forall₂ SameJson xs ys → SameJson (.arr xs) (.arr ys)
  | obj {i j : Bool} {es fs : List (JsString × Value)} :
      (∀ key, (Assoc.get key es).isSome = (Assoc.get key fs).isSome) →
      (∀ key v w, Assoc.get key es = some v → Assoc.get key fs = some w → SameJson v w) →
      SameJson (.obj i es) (.obj j fs)

theorem sameJson_obj_iff {i j : Bool} {es fs : List (JsString × Value)} :
    SameJson (.obj i es) (.obj j fs) ↔
      (∀ key, (Assoc.get key es).isSome = (Assoc.get key fs).isSome) ∧
      ∀ key v w, Assoc.get key es = some v → Assoc.get key fs = some w → SameJson v w := by
  constructor
  · intro h
    cases h with
    | atom h => cases h
    | obj h h' => exact ⟨h, h'⟩
  · rintro ⟨h, h'⟩
    exact .obj h h'

theorem sameJson_arr_iff {xs ys : List Value} :
    SameJson (.arr xs) (.arr ys) ↔ List.Forall₂ SameJson xs ys := by
  constructor
  · intro h
    cases h with
    | atom h => cases h
    | arr h => exact h
  · exact .arr

theorem sameJson_str_iff {s t : JsString} : SameJson (.str s) (.str t) ↔ s = t := by
  constructor
  · intro h
    cases h with
    | atom h => simpa [Value.strictEq] using h
  · rintro rfl
    exact .atom (by simp [Value.strictEq])

theorem get_toValue_entries (key : JsString) (entries : List (JsString × Node)) :
    Assoc.get key (toValue.entries entries) =
      if key = dunderProto then none else (Assoc.get key entries).map toValue := by
  induction entries with
  | nil => simp [toValue.entries]
  | cons e entries ih =>
      obtain ⟨k, child⟩ := e
      rw [toValue.entries]
      by_cases hk : k = dunderProto
      · rw [if_pos hk, ih, Assoc.get_cons]
        by_cases hkey : key = dunderProto
        · rw [if_pos hkey, if_pos hkey]
        · have hne : k ≠ key := fun h => hkey (h.symm.trans hk)
          rw [if_neg hkey, if_neg hkey, if_neg hne]
      · rw [if_neg hk, Assoc.get_cons, Assoc.get_cons, ih]
        by_cases hkey : k = key
        · rw [if_pos hkey, if_pos hkey, if_neg (hkey ▸ hk)]
          rfl
        · rw [if_neg hkey, if_neg hkey]

theorem toValue_items (items : List Node) : toValue.items items = items.map toValue := by
  induction items with
  | nil => rfl
  | cons child items ih => rw [toValue.items, ih, List.map_cons]

end Realtime.Structured
