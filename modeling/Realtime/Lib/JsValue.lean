import Mathlib.Data.Rat.Defs
import Realtime.Lib.Assoc
import Realtime.Lib.Utf16

/-!
# JavaScript values and property access

The values JSON-handling JavaScript code can get hold of: JSON values,
`undefined`, and the properties every plain object inherits from
`Object.prototype`. An object is its own properties and whether it has that
prototype (`JSON.parse` and `{}` give one that does, `Object.create(null)` one
that does not). `in` and a property read look at the own properties first and
at the prototype after them; `Object.keys` gives the own ones only.

Numbers are the finite ones, which is all JSON has; a `bigint` is no number, and no
JSON value. Object identity is not modelled. Integer-like keys keep their place among the
others, where an engine lists them first.
-/

namespace Lib.Js

open Lib.Utf16

inductive Value where
  | undefined
  | null
  | bool (b : Bool)
  | num (n : ℚ)
  | bigint (n : ℤ)
  | str (s : JsString)
  | arr (items : List Value)
  | obj (inherits : Bool) (entries : List (JsString × Value))
  /-- The property `name` of `Object.prototype`: the prototype itself under
  `__proto__`, a function under every other name. -/
  | inherited (name : JsString)

/-- `"__proto__"` -/
def dunderProto : JsString := ascii "__proto__"

/-- The property names of `Object.prototype`. -/
def prototypeNames : List JsString :=
  [ascii "constructor", ascii "__defineGetter__", ascii "__defineSetter__",
    ascii "hasOwnProperty", ascii "__lookupGetter__", ascii "__lookupSetter__",
    ascii "isPrototypeOf", ascii "propertyIsEnumerable", ascii "toString", ascii "valueOf",
    dunderProto, ascii "toLocaleString"]

namespace Value

/-- Induction with one hypothesis for all items or entries of a container. -/
@[elab_as_elim]
theorem ind {motive : Value → Prop} (undefined : motive .undefined) (null : motive .null)
    (bool : ∀ b, motive (.bool b)) (num : ∀ n, motive (.num n))
    (bigint : ∀ n, motive (.bigint n)) (str : ∀ s, motive (.str s))
    (arr : ∀ items, (∀ v ∈ items, motive v) → motive (.arr items))
    (obj : ∀ inherits entries, (∀ e ∈ entries, motive e.2) → motive (.obj inherits entries))
    (inherited : ∀ name, motive (.inherited name)) : ∀ v, motive v := by
  intro v
  refine @Value.rec motive (fun items => ∀ v ∈ items, motive v)
    (fun entries => ∀ e ∈ entries, motive e.2) (fun e => motive e.2) undefined null bool num
    bigint str arr obj inherited ?_ ?_ ?_ ?_ ?_ v
  · simp
  · intro head tail hhead htail v hv
    rcases List.mem_cons.mp hv with rfl | hv
    · exact hhead
    · exact htail v hv
  · simp
  · intro head tail hhead htail e he
    rcases List.mem_cons.mp he with rfl | he
    · exact hhead
    · exact htail e he
  · intro _ _ h
    exact h

/-- `===`, for values other than arrays and objects. -/
def strictEq : Value → Value → Bool
  | undefined, undefined => true
  | null, null => true
  | bool a, bool b => a == b
  | num a, num b => a == b
  | bigint a, bigint b => a == b
  | str a, str b => a == b
  | inherited a, inherited b => a == b
  | _, _ => false

/-- `typeof value === "object" && value !== null && !Array.isArray(value)` -/
def isObject : Value → Bool
  | obj _ _ => true
  | inherited name => name == dunderProto
  | _ => false

/-- `Object.keys`; what `Object.prototype` has is not enumerable. -/
def ownKeys : Value → List JsString
  | obj _ entries => Assoc.keys entries
  | _ => []

/-- `key in value` -/
def hasKey (key : JsString) : Value → Bool
  | obj inherits entries => key ∈ Assoc.keys entries || (inherits && key ∈ prototypeNames)
  | inherited _ => key ∈ prototypeNames
  | _ => false

/-- `value[key]` -/
def read (key : JsString) : Value → Value
  | obj inherits entries =>
      match Assoc.get key entries with
      | some v => v
      | none => if inherits && key ∈ prototypeNames then inherited key else undefined
  | inherited _ =>
      -- the prototype of `Object.prototype` is `null`
      if key == dunderProto then null
      else if key ∈ prototypeNames then inherited key else undefined
  | _ => undefined

/-- The own property `key`. -/
def own (key : JsString) : Value → Option Value
  | obj _ entries => Assoc.get key entries
  | _ => none

/-- The value a path of own properties leads to. -/
def lookup : Value → List JsString → Option Value
  | v, [] => some v
  | v, key :: path => (v.own key).bind fun child => child.lookup path

/-- A number that drops along every property read of an object. -/
def depth : Value → Nat
  | arr items => depthItems items + 1
  | obj _ entries => depthEntries entries + 3
  | inherited name => if name = dunderProto then 2 else 1
  | _ => 0
where
  depthItems : List Value → Nat
    | [] => 0
    | v :: items => max v.depth (depthItems items)
  depthEntries : List (JsString × Value) → Nat
    | [] => 0
    | (_, v) :: entries => max v.depth (depthEntries entries)

/-- A value built from JSON's constructors, distinct keys in each object, with
conditions on the prototypes and keys of its objects. -/
inductive Built (inherits : Bool → Prop) (key : JsString → Prop) : Value → Prop
  | null : Built inherits key .null
  | bool (b : Bool) : Built inherits key (.bool b)
  | num (n : ℚ) : Built inherits key (.num n)
  | str (s : JsString) : Built inherits key (.str s)
  | arr {items : List Value} : (∀ v ∈ items, Built inherits key v) →
      Built inherits key (.arr items)
  | obj {i : Bool} {entries : List (JsString × Value)} : inherits i → Assoc.Wf entries →
      (∀ k ∈ Assoc.keys entries, key k) → (∀ e ∈ entries, Built inherits key e.2) →
      Built inherits key (.obj i entries)

/-- What `JSON.parse` returns. -/
def IsJson (v : Value) : Prop := Built (· = true) (fun _ => True) v

end Value

/-- A JSON value as a JavaScript program holds it. -/
abbrev JsonValue := { v : Value // v.IsJson }

namespace Value

variable {inherits inherits' : Bool → Prop} {keyOk keyOk' : JsString → Prop}

theorem Built.mono (hi : ∀ i, inherits i → inherits' i) (hk : ∀ k, keyOk k → keyOk' k)
    {v : Value} (h : Built inherits keyOk v) : Built inherits' keyOk' v := by
  induction h with
  | null => exact .null
  | bool b => exact .bool b
  | num n => exact .num n
  | str s => exact .str s
  | arr _ ih => exact .arr ih
  | obj hinh hwf hkeys _ ih => exact .obj (hi _ hinh) hwf (fun k h => hk k (hkeys k h)) ih

theorem own_obj (key : JsString) (i : Bool) (entries : List (JsString × Value)) :
    own key (obj i entries) = Assoc.get key entries := rfl

theorem mem_ownKeys_iff {key : JsString} {v : Value} :
    key ∈ v.ownKeys ↔ ∃ child, v.own key = some child := by
  cases v
  case obj i entries =>
    rw [own_obj, ← Option.isSome_iff_exists, Assoc.get_isSome_iff]
    rfl
  all_goals simp [ownKeys, own]

theorem read_of_own {key : JsString} {v child : Value} (h : v.own key = some child) :
    v.read key = child := by
  cases v
  case obj i entries =>
    rw [own_obj] at h
    simp [read, h]
  all_goals simp [own] at h

theorem hasKey_of_own {key : JsString} {v child : Value} (h : v.own key = some child) :
    v.hasKey key = true := by
  have hmem := mem_ownKeys_iff.mpr ⟨child, h⟩
  cases v
  case obj i entries => simp [hasKey, show key ∈ Assoc.keys entries from hmem]
  all_goals simp [own] at h

/-- A plain object has, beside its own keys, those of `Object.prototype`. -/
theorem hasKey_of_own_eq_none {key : JsString} {entries : List (JsString × Value)}
    (h : own key (obj true entries) = none) :
    (obj true entries).hasKey key = decide (key ∈ prototypeNames) := by
  simp [hasKey, Assoc.get_eq_none_iff.mp h]

theorem read_of_own_eq_none {key : JsString} {entries : List (JsString × Value)}
    (h : own key (obj true entries) = none) (hkey : key ∈ prototypeNames) :
    (obj true entries).read key = inherited key := by
  rw [own_obj] at h
  simp [read, h, hkey]

@[simp] theorem lookup_nil (v : Value) : v.lookup [] = some v := rfl

theorem lookup_cons (v : Value) (key : JsString) (path : List JsString) :
    v.lookup (key :: path) = (v.own key).bind fun child => child.lookup path := rfl

theorem depth_le_depthEntries {key : JsString} {child : Value} {entries : List (JsString × Value)}
    (h : (key, child) ∈ entries) : child.depth ≤ depth.depthEntries entries := by
  induction entries with
  | nil => simp at h
  | cons e entries ih =>
      rw [depth.depthEntries]
      rcases List.mem_cons.mp h with rfl | h
      · exact le_max_left _ _
      · exact (ih h).trans (le_max_right _ _)

theorem depth_read_lt (key : JsString) {v : Value} (h : v.isObject = true) :
    (v.read key).depth < v.depth := by
  cases v
  case obj i entries =>
    rw [read, depth]
    cases hget : Assoc.get key entries with
    | some child =>
        have := depth_le_depthEntries (Assoc.mem_of_get hget)
        show child.depth < _
        omega
    | none =>
        dsimp only
        split
        · rw [depth]
          split <;> omega
        · simp [depth]
  case inherited name =>
    have hname : name = dunderProto := by simpa [isObject] using h
    rw [read, depth, if_pos hname]
    split
    · simp [depth]
    · rename_i hkey
      split
      · rw [depth, if_neg (by simpa using hkey)]
        omega
      · simp [depth]
  all_goals simp [isObject] at h

theorem depth_own_lt {key : JsString} {v child : Value} (h : v.own key = some child) :
    child.depth < v.depth := by
  have hobj : v.isObject = true := by
    cases v <;> simp_all [Value.own, isObject]
  have := depth_read_lt key hobj
  rwa [read_of_own h] at this

theorem Built.obj_inv {i : Bool} {entries : List (JsString × Value)}
    (h : Built inherits keyOk (.obj i entries)) :
    inherits i ∧ Assoc.Wf entries ∧ (∀ k ∈ Assoc.keys entries, keyOk k) ∧
      ∀ e ∈ entries, Built inherits keyOk e.2 := by
  cases h with
  | obj hi hwf hkeys hvals => exact ⟨hi, hwf, hkeys, hvals⟩

theorem Built.own {v child : Value} {key : JsString} (h : Built inherits keyOk v)
    (hown : v.own key = some child) : keyOk key ∧ Built inherits keyOk child := by
  cases h with
  | obj hi hwf hkeys hvals =>
      have hmem := Assoc.mem_of_get hown
      exact ⟨hkeys key (List.mem_map_of_mem (f := Prod.fst) hmem), hvals _ hmem⟩
  | _ => simp [Value.own] at hown

end Value

end Lib.Js
