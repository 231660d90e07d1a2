import Mathlib.Data.Char
import Mathlib.Data.List.Lex
import Realtime.Lib.OrderedMap
import Realtime.Structured.ServerReconcile

/-!
# The file of a canvas

`canvas_to_file_json` of `server/src/structured.rs` lists the nodes and edges of a canvas in
their order. An object is a `serde_json::Map`, which keeps its keys in order.
-/

namespace Realtime.Git

open Lib Structured.Server

abbrev JsonMap := List (Str × Json)

def asObject : Json → Option JsonMap
  | .object entries => some entries
  | _ => none

def asArray : Json → Option (List Json)
  | .array values => some values
  | _ => none

def asStr : Json → Option Str
  | .string s => some s
  | _ => none

def nodesKey : Str := "nodes".toList

def edgesKey : Str := "edges".toList

def nodeOrderKey : Str := "nodeOrder".toList

def edgeOrderKey : Str := "edgeOrder".toList

/-- One id of the order: the items that were placed, and the ids that were seen. -/
def placeItem (items : JsonMap) (placed : List Json × List Str) (id : Str) :
    List Json × List Str :=
  if id ∈ placed.2 then placed
  else
    match Assoc.get id items with
    | none => (placed.1, id :: placed.2)
    | some item => (placed.1 ++ [item], id :: placed.2)

/-- The items in their order, and those that it does not have behind them. -/
def orderedCanvasItems (items : Option JsonMap) (order : Option (List Json)) : List Json :=
  match items with
  | none => []
  | some items =>
      let placed := ((order.getD []).filterMap asStr).foldl (placeItem items) ([], [])
      placed.1 ++ (items.filter fun e => e.1 ∉ placed.2).map Prod.snd

def fileOf (nodes edges : List Json) : Json :=
  .object [(edgesKey, .array edges), (nodesKey, .array nodes)]

def canvasToFileJson (value : Json) : Json :=
  match asObject value with
  | none => fileOf [] []
  | some root =>
      let nodes := (Assoc.get nodesKey root).bind asObject
      let edges := (Assoc.get edgesKey root).bind asObject
      let nodeOrder := (Assoc.get nodeOrderKey root).bind asArray
      let edgeOrder := (Assoc.get edgeOrderKey root).bind asArray
      fileOf (orderedCanvasItems nodes nodeOrder) (orderedCanvasItems edges edgeOrder)

/-- Every object of the value is in the order of its keys. -/
inductive Canonical : Json → Prop
  | null : Canonical .null
  | bool (b : Bool) : Canonical (.bool b)
  | number (n : Number) : Canonical (.number n)
  | string (s : Str) : Canonical (.string s)
  | array {values : List Json} : (∀ v ∈ values, Canonical v) → Canonical (.array values)
  | object {entries : JsonMap} : OrderedMap.Sorted entries → (∀ e ∈ entries, Canonical e.2) →
      Canonical (.object entries)

end Realtime.Git
