import Mathlib.Tactic
import Realtime.Lib.Affixes
import Realtime.Lib.Encoding
import Realtime.Structured.Reconcile

/-!
# The server's reconcile

`reconcile_map` and the functions below it, from `server/src/ydoc.rs`: a JSON value is written
into the shared tree of a structured document, as `reconcileInto` writes it on the client. Both
work on one tree (`Node.view` is what the client holds of the server's), but the server has
strings in UTF-8 and tells a `BigInt` from a `Number`.
-/

namespace Realtime.Structured.Server

open Lib Lib.Js Lib.Utf16

/-! ## Values -/

/-- A `serde_json::Number`, by what `as_i64` makes of it. -/
inductive Number where
  | int (n : ℤ)
  | float (q : ℚ)
  deriving DecidableEq

inductive Json where
  | null
  | bool (b : Bool)
  | number (n : Number)
  | string (s : Str)
  | array (values : List Json)
  | object (entries : List (Str × Json))

/-- An `Any`. A buffer is the array that `any_to_json` makes of it. -/
inductive Any where
  | null
  | undefined
  | bool (b : Bool)
  | number (q : ℚ)
  | bigInt (n : ℤ)
  | string (s : Str)
  | array (values : List Json)
  | map (entries : List (Str × Json))

/-- A shared type, or a value. -/
inductive Node where
  | map (entries : List (Str × Node))
  | array (items : List Node)
  | text (content : Str)
  | any (value : Any)

inductive Op where
  | mapRemove (key : Str)
  | mapInsert (key : Str)
  | arrayRemoveRange (index length : Nat)
  | arrayInsert (index : Nat)
  | textRemoveRange (offset length : Nat)
  | textInsert (offset : Nat) (content : Str)
  deriving DecidableEq

def jsonToAny : Json → Any
  | .null => .null
  | .bool b => .bool b
  | .number (.int n) => .bigInt n
  | .number (.float q) => .number q
  | .string s => .string s
  | .array values => .array values
  | .object entries => .map entries

def anyToJson : Any → Json
  | .null => .null
  | .undefined => .null
  | .bool b => .bool b
  | .number q => .number (.float q)
  | .bigInt n => .number (.int n)
  | .string s => .string s
  | .array values => .array values
  | .map entries => .object entries

/-- `==`, where one side is neither an array nor an object. -/
def scalarEq : Json → Json → Bool
  | .null, .null => true
  | .bool a, .bool b => a == b
  | .number a, .number b => a == b
  | .string a, .string b => a == b
  | _, _ => false

/-! ## Texts -/

/-- In bytes, all three. -/
def commonAffixes (old new : Str) : Nat × Nat × Nat :=
  let start := commonPrefix old new
  let suffix := commonSuffix start old new
  (Str.byteLength (old.take start), Str.byteLength (old.take (old.length - suffix)),
    Str.byteLength (new.take (new.length - suffix)))

/-- `remove_range` of a text with byte offsets. -/
def removeRange (content : Str) (offset length : Nat) : Str :=
  Str.takeBytes offset content ++ Str.dropBytes (offset + length) content

def insertAt (content : Str) (offset : Nat) (piece : Str) : Str :=
  Str.takeBytes offset content ++ piece ++ Str.dropBytes offset content

def applyStringToYText (old next : Str) : Str × List Op :=
  if old = next then (old, [])
  else
    let (start, oldSuffix, newSuffix) := commonAffixes old next
    let deleteLen := oldSuffix - start
    let deleted := if 0 < deleteLen then removeRange old start deleteLen else old
    let deleteOps := if 0 < deleteLen then [Op.textRemoveRange start deleteLen] else []
    let insert := Str.dropBytes start (Str.takeBytes newSuffix next)
    if insert.isEmpty then (deleted, deleteOps)
    else (insertAt deleted start insert, deleteOps ++ [.textInsert start insert])

def textKeys : List Str :=
  ["text".toList, "label".toList, "filter".toList, "formula".toList, "query".toList,
    "name".toList, "description".toList]

/-- `should_use_text` of a string. -/
def shouldUseText (key : Option Str) (value : Str) : Bool :=
  (key.map fun key => decide (key ∈ textKeys)).getD false || 256 < Str.byteLength value

/-! ## Reconciling -/

/-- The entry of a map, or the item of an array, that a value is written to. -/
inductive Slot where
  | entry (key : Str)
  | item (index : Nat)

namespace Slot

def key : Slot → Option Str
  | entry key => some key
  | item _ => none

/-- Put a fresh value into the slot. -/
def replaceOps : Slot → Option Node → List Op
  | entry key, _ => [.mapInsert key]
  | item index, some _ => [.arrayRemoveRange index 1, .arrayInsert index]
  | item index, none => [.arrayInsert index]

end Slot

def dropKeys (value : List (Str × Json)) (entries : List (Str × Node)) : List (Str × Node) :=
  entries.filter fun e => e.1 ∈ Assoc.keys value

def dropOps (value : List (Str × Json)) (entries : List (Str × Node)) : List Op :=
  (entries.filter fun e => e.1 ∉ Assoc.keys value).map fun e => .mapRemove e.1

/-- The last branch, for a value that no shared type stands for. -/
def reconcileAny (slot : Slot) (current : Option Node) (next : Json) : Node × List Op :=
  let nextAny := jsonToAny next
  match current with
  | some (.any value) =>
      if scalarEq (anyToJson value) (anyToJson nextAny) then (.any value, [])
      else (.any nextAny, slot.replaceOps current)
  | _ => (.any nextAny, slot.replaceOps current)

mutual

/-- `reconcile_map_value` and `reconcile_array_value`: what the slot holds afterwards. -/
def reconcileValue (slot : Slot) (current : Option Node) : Json → Node × List Op
  | .array values =>
      match current with
      | some (.array items) =>
          let result := reconcileItems 0 items values
          (.array result.1, result.2)
      | _ =>
          let result := reconcileItems 0 [] values
          (.array result.1, slot.replaceOps current ++ result.2)
  | .object entries =>
      match current with
      | some (.map old) =>
          let result := reconcileEntries (dropKeys entries old) entries
          (.map result.1, dropOps entries old ++ result.2)
      | _ =>
          let result := reconcileEntries [] entries
          (.map result.1, slot.replaceOps current ++ result.2)
  | .string s =>
      if shouldUseText slot.key s then
        match current with
        | some (.text old) =>
            let result := applyStringToYText old s
            (.text result.1, result.2)
        | _ =>
            let result := applyStringToYText [] s
            (.text result.1, slot.replaceOps current ++ result.2)
      else reconcileAny slot current (.string s)
  | next => reconcileAny slot current next

/-- The second loop of `reconcile_map`. -/
def reconcileEntries :
    List (Str × Node) → List (Str × Json) → List (Str × Node) × List Op
  | map, [] => (map, [])
  | map, (key, next) :: rest =>
      let r := reconcileValue (.entry key) (Assoc.get key map) next
      let result := reconcileEntries (Assoc.set key r.1 map) rest
      (result.1, r.2 ++ result.2)

/-- `reconcile_array` from `index` on, with the items the array still has there. -/
def reconcileItems : Nat → List Node → List Json → List Node × List Op
  | index, array, [] =>
      ([], if array.isEmpty then [] else [.arrayRemoveRange index array.length])
  | index, array, next :: rest =>
      let r := reconcileValue (.item index) array.head? next
      let result := reconcileItems (index + 1) array.tail rest
      (r.1 :: result.1, r.2 ++ result.2)

end

def reconcileMap (old : List (Str × Node)) (entries : List (Str × Json)) :
    List (Str × Node) × List Op :=
  let result := reconcileEntries (dropKeys entries old) entries
  (result.1, dropOps entries old ++ result.2)

def reconcileArray (old : List Node) (values : List Json) : List Node × List Op :=
  reconcileItems 0 old values

/-! ## The client's side -/

variable (toDouble : ℤ → ℚ)

/-- The value as `JSON.parse` has it; `toDouble` is the number nearest to an integer. -/
def toJs : Json → Value
  | .null => .null
  | .bool b => .bool b
  | .number (.int n) => .num (toDouble n)
  | .number (.float q) => .num q
  | .string s => .str (Str.encodeUtf16 s)
  | .array values => .arr (toJs.items values)
  | .object entries => .obj true (toJs.entries entries)
where
  items : List Json → List Value
    | [] => []
    | value :: values => toJs value :: items values
  entries : List (Str × Json) → List (JsString × Value)
    | [] => []
    | (key, value) :: rest => (Str.encodeUtf16 key, toJs value) :: entries rest

/-- What Yjs decodes. -/
def Any.view : Any → Value
  | .null => .null
  | .undefined => .undefined
  | .bool b => .bool b
  | .number q => .num q
  | .bigInt n => .bigint n
  | .string s => .str (Str.encodeUtf16 s)
  | .array values => .arr (toJs.items toDouble values)
  | .map entries => .obj true (toJs.entries toDouble entries)

/-- The shared tree as the client holds it. -/
def Node.view : Node → Structured.Node
  | .map entries => .map (view.entries entries)
  | .array items => .array (view.items items)
  | .text content => .text (Str.encodeUtf16 content)
  | .any value => .plain (value.view toDouble)
where
  entries : List (Str × Node) → List (JsString × Structured.Node)
    | [] => []
    | (key, node) :: rest => (Str.encodeUtf16 key, view node) :: entries rest
  items : List Node → List Structured.Node
    | [] => []
    | node :: rest => view node :: items rest

end Realtime.Structured.Server
