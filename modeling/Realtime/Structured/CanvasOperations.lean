import Mathlib.Data.List.Sort
import Realtime.Structured.Json
import Realtime.Structured.Reconcile

/-!
# Canvas operations

`diffCanvas` and `applyCanvasOperations` of `src/structured/canvasOperations.ts`:
the difference of two canvases as a list of operations on nodes, edges and their
orders, and the effect of such a list on the shared root.

Nodes and edges go through the same functions. What is kept for one kind (the
items, the tombstones of deleted ids and the order array) is an `ItemState`; the
only step that reaches from one kind into the other is the deletion of the edges
connected to a deleted node.

`applyCanvasOperations` throws when an item is deleted whose order array holds a
shared type; nothing is said about what it has done by then.

`diffCanvas` can throw: `cloneJson` of a function, which is what a property read
gives for a key only `Object.prototype` has, is `JSON.parse(undefined)`.
-/

namespace Realtime.Structured

open Lib Lib.Js Lib.Utf16

structure StructuredCanvas where
  nodes : List (JsString × Value)
  edges : List (JsString × Value)
  nodeOrder : List JsString
  edgeOrder : List JsString

structure CanvasFieldPatch where
  set : List (JsString × Value)
  remove : List JsString

inductive ItemOperation where
  | create (item : List (JsString × Value))
  | patch (id : JsString) (patch : CanvasFieldPatch)
  | delete (id : JsString)
  | restore (item : List (JsString × Value))

inductive Kind where
  | node
  | edge

inductive CanvasOperation where
  | item (kind : Kind) (operation : ItemOperation)
  | order (kind : Kind) (order : List JsString)

def idKey : JsString := ascii "id"

/-- `keys.sort()`, by code units. -/
def sortKeys (keys : List JsString) : List JsString := keys.insertionSort (· ≤ ·)

/-! ## The difference of two canvases -/

mutual

def equalJson : Value → Value → Bool
  | .arr left, right =>
      match right with
      | .arr right => left.length == right.length && equalJson.items left right
      | _ => false
  | .obj _ entries, right =>
      isRecord right && sortKeys (Assoc.keys entries) == sortKeys right.ownKeys &&
        equalJson.entries entries right
  | .inherited name, right =>
      Value.strictEq (.inherited name) right ||
        (isRecord (.inherited name) && isRecord right && right.ownKeys.isEmpty)
  | left, right => Value.strictEq left right

def equalJson.items : List Value → List Value → Bool
  | [], _ => true
  | _ :: _, [] => false
  | value :: left, other :: right => equalJson value other && equalJson.items left right

def equalJson.entries : List (JsString × Value) → Value → Bool
  | [], _ => true
  | (key, value) :: left, right =>
      equalJson value (right.read key) && equalJson.entries left right

end

/-- `JSON.parse(JSON.stringify(value))`; `none` when it throws. -/
def cloneJson : Value → Option Value
  | .undefined => none
  | .inherited name => if name = dunderProto then some (.obj true []) else none
  | value => some value

def asRecord (value : Value) : Option Value := if isRecord value then some value else none

/-- `set[key] = value` on an object literal, whose `__proto__` is no property. -/
def assign (set : List (JsString × Value)) (key : JsString) (value : Value) :
    List (JsString × Value) :=
  if key = dunderProto then set else Assoc.set key value set

def diffField (previous next : Value) (patch : CanvasFieldPatch) (key : JsString) :
    Option CanvasFieldPatch :=
  if key = idKey then some patch
  else if !next.hasKey key then some { patch with remove := patch.remove ++ [key] }
  else if !previous.hasKey key || !equalJson (previous.read key) (next.read key) then
    (cloneJson (next.read key)).map fun value => { patch with set := assign patch.set key value }
  else some patch

def diffFields (previous next : Value) : Option CanvasFieldPatch :=
  let keys := (previous.ownKeys ++ next.ownKeys).eraseDups
  (sortKeys keys).foldlM (diffField previous next) ⟨[], []⟩

/-- The entries of a cloned record. -/
def entriesOf : Value → List (JsString × Value)
  | .obj _ entries => entries
  | _ => []

/-- The operation for one id of `next`, if it needs one. -/
def diffItem (previous next : Value) (id : JsString) : Option (Option ItemOperation) :=
  match asRecord (next.read id) with
  | none => some none
  | some nextItem =>
      match asRecord (previous.read id) with
      | none => (cloneJson nextItem).map fun item => some (.create (entriesOf item))
      | some previousItem =>
          (diffFields previousItem nextItem).map fun patch =>
            if patch.set.isEmpty && patch.remove.isEmpty then none else some (.patch id patch)

def diffItems (previous next : Value) : Option (List ItemOperation) :=
  let deletes := ((sortKeys previous.ownKeys).filter fun id => !next.hasKey id).map .delete
  ((sortKeys next.ownKeys).mapM (diffItem previous next)).map fun updates =>
    deletes ++ updates.reduceOption

def diffOrder (kind : Kind) (previous next : List JsString) : List CanvasOperation :=
  if equalJson (.arr (previous.map .str)) (.arr (next.map .str)) then [] else [.order kind next]

def diffCanvas (previous next : StructuredCanvas) : Option (List CanvasOperation) := do
  let nodes ← diffItems (.obj true previous.nodes) (.obj true next.nodes)
  let edges ← diffItems (.obj true previous.edges) (.obj true next.edges)
  return nodes.map (.item .node) ++ edges.map (.item .edge) ++
    diffOrder .node previous.nodeOrder next.nodeOrder ++
    diffOrder .edge previous.edgeOrder next.edgeOrder

/-! ## Applying operations to the shared root -/

/-- The shared types for one kind of item. -/
structure ItemState where
  items : List (JsString × Node)
  tombstones : List (JsString × Node)
  order : List Node

structure CanvasState where
  nodes : ItemState
  edges : ItemState

def CanvasState.kind (s : CanvasState) : Kind → ItemState
  | .node => s.nodes
  | .edge => s.edges

/-- The slots of the root map the canvas code uses. -/
structure CanvasRoot where
  nodes : Option Node
  edges : Option Node
  deletedNodeIds : Option Node
  deletedEdgeIds : Option Node
  nodeOrder : Option Node
  edgeOrder : Option Node

/-- An existing map, or a fresh one in its place. -/
def ensureMap (slot : Option Node) : List (JsString × Node) := (mapOf slot).getD []

def ensureArray (slot : Option Node) : List Node := (arrayOf slot).getD []

/-- `order.filter(candidate => typeof candidate === "string")` -/
def orderStrings (order : List Node) : List JsString :=
  order.filterMap fun
    | .plain (.str id) => some id
    | _ => none

/-- `order.toArray()`, for values that can be reconciled. A shared type cannot: where it is
to be written again Yjs throws `Unexpected content type`. -/
def plainValues (order : List Node) : Option (List Value) :=
  order.mapM fun
    | .plain value => some value
    | _ => none

def writeOrder (order : List Node) (ids : List JsString) : List Node :=
  (reconcileArray {} order (ids.map .str)).1

def writeField (fields : List (JsString × Node)) (key : JsString) (next : Value) :
    List (JsString × Node) :=
  Assoc.set key (reconcileValue {} (Assoc.get key fields) (some key) next).node fields

/-- The body of `patchItem`, on the fields of the item. -/
def patchFields (id : JsString) (patch : CanvasFieldPatch) (fields : List (JsString × Node)) :
    List (JsString × Node) :=
  let removed := (sortKeys patch.remove).foldl (fun fields key =>
    if key = idKey then fields else Assoc.erase key fields) fields
  let written := (sortKeys (Assoc.keys patch.set)).foldl (fun fields key =>
    if key = idKey then fields
    else writeField fields key ((Value.obj true patch.set).read key)) removed
  if sameSlot (Assoc.get idKey written) (.plain (.str id)) then written
  else Assoc.set idKey (.plain (.str id)) written

def patchItem (items : List (JsString × Node)) (id : JsString) (patch : CanvasFieldPatch) :
    List (JsString × Node) :=
  match mapOf (Assoc.get id items) with
  | none => items
  | some fields => Assoc.set id (.map (patchFields id patch fields)) items

/-- `typeof value.id === "string" ? value.id : null`, without the empty id. -/
def itemId (item : List (JsString × Value)) : Option JsString :=
  match (Value.obj true item).read idKey with
  | .str id => if id.isEmpty then none else some id
  | _ => none

/-- Put an item's fields into its map, which is created if need be. -/
def upsertItem (items : List (JsString × Node)) (id : JsString) (item : List (JsString × Value)) :
    List (JsString × Node) :=
  let existing := (mapOf (Assoc.get id items)).getD []
  patchItem (Assoc.set id (.map existing) items) id ⟨item, []⟩

def restoreItem (s : ItemState) (item : List (JsString × Value)) : ItemState :=
  match itemId item with
  | none => s
  | some id =>
      { s with
        tombstones := Assoc.erase id s.tombstones
        items := upsertItem s.items id item }

def createItem (s : ItemState) (item : List (JsString × Value)) (clientID : ℚ) : ItemState :=
  match itemId item with
  | none => s
  | some id =>
      match Assoc.get id s.tombstones with
      | none | some (.plain .undefined) => { s with items := upsertItem s.items id item }
      | some tombstonedBy =>
          if sameSlot (some tombstonedBy) (.plain (.num clientID)) then
            { s with
              tombstones := Assoc.erase id s.tombstones
              items := upsertItem s.items id item }
          else s

/-- `none` when it throws. -/
def deleteItem (s : ItemState) (id : JsString) (clientID : ℚ) : Option ItemState :=
  if id ∉ Assoc.keys s.items then some s
  else
    (plainValues s.order).map fun candidates =>
      { tombstones := Assoc.set id (.plain (.num clientID)) s.tombstones
        items := Assoc.erase id s.items
        order := (reconcileArray {} s.order
          (candidates.filter fun candidate => !candidate.strictEq (.str id))).1 }

/-- `edge.get("fromNode") === nodeId || edge.get("toNode") === nodeId` -/
def connected (nodeId : JsString) (edge : Node) : Bool :=
  match edge with
  | .map fields =>
      sameSlot (Assoc.get (ascii "fromNode") fields) (.plain (.str nodeId)) ||
        sameSlot (Assoc.get (ascii "toNode") fields) (.plain (.str nodeId))
  | _ => false

def deleteConnectedEdges (s : ItemState) (nodeId : JsString) (clientID : ℚ) : Option ItemState :=
  (s.items.filter fun e => connected nodeId e.2).foldlM
    (fun s e => deleteItem s e.1 clientID) s

def applyItemOperation (s : ItemState) (operation : ItemOperation) (clientID : ℚ) :
    Option ItemState :=
  match operation with
  | .create item => some (createItem s item clientID)
  | .patch id patch => some { s with items := patchItem s.items id patch }
  | .delete id => deleteItem s id clientID
  | .restore item => some (restoreItem s item)

/-- The ids of `order` that are live, each once, and after them the other live
ids. -/
def validOrder (order : List JsString) (items : List (JsString × Node)) : List JsString :=
  let result := order.foldl (fun result id =>
    if id ∈ Assoc.keys items ∧ id ∉ result then result ++ [id] else result) []
  result ++ (sortKeys (Assoc.keys items)).filter fun id => id ∉ result

def applyOrder (s : ItemState) (order : List JsString) : ItemState :=
  { s with order := writeOrder s.order (validOrder order s.items) }

/-- One round of the loop over the operations. -/
def applyOperation (clientID : ℚ) (s : CanvasState) (operation : CanvasOperation) :
    Option CanvasState :=
  match operation with
  | .item .node (.delete id) => do
      let nodes ← deleteItem s.nodes id clientID
      let edges ← deleteConnectedEdges s.edges id clientID
      return { nodes, edges }
  | .item .node operation => do
      let nodes ← applyItemOperation s.nodes operation clientID
      return { s with nodes }
  | .item .edge operation => do
      let edges ← applyItemOperation s.edges operation clientID
      return { s with edges }
  | .order .node order => some { s with nodes := applyOrder s.nodes order }
  | .order .edge order => some { s with edges := applyOrder s.edges order }

/-- The order array, and whether it had to be rewritten. -/
def canonicalizeOrder (order : List Node) (items : List (JsString × Node)) : List Node × Bool :=
  let next := validOrder (orderStrings order) items
  if order.length = next.length ∧ orderStrings order = next then (order, false)
  else (writeOrder order next, true)

/-- Nothing is done for a kind without a map of items or an order array. -/
def canonicalizeSlot (items order : Option Node) : Option Node × Bool :=
  match mapOf items, arrayOf order with
  | some items, some order =>
      let result := canonicalizeOrder order items
      (some (.array result.1), result.2)
  | _, _ => (order, false)

def canonicalizeCanvasOrders (root : CanvasRoot) : CanvasRoot × Bool :=
  let nodes := canonicalizeSlot root.nodes root.nodeOrder
  let edges := canonicalizeSlot root.edges root.edgeOrder
  ({ root with nodeOrder := nodes.1, edgeOrder := edges.1 }, nodes.2 || edges.2)

def loadRoot (root : CanvasRoot) : CanvasState where
  nodes := ⟨ensureMap root.nodes, ensureMap root.deletedNodeIds, ensureArray root.nodeOrder⟩
  edges := ⟨ensureMap root.edges, ensureMap root.deletedEdgeIds, ensureArray root.edgeOrder⟩

/-- The root that holds these shared types. -/
def storeRoot (s : CanvasState) : CanvasRoot where
  nodes := some (.map s.nodes.items)
  edges := some (.map s.edges.items)
  deletedNodeIds := some (.map s.nodes.tombstones)
  deletedEdgeIds := some (.map s.edges.tombstones)
  nodeOrder := some (.array s.nodes.order)
  edgeOrder := some (.array s.edges.order)

def applyCanvasOperations (root : CanvasRoot) (operations : List CanvasOperation) (clientID : ℚ) :
    Option CanvasRoot := do
  let s ← operations.foldlM (applyOperation clientID) (loadRoot root)
  return (canonicalizeCanvasOrders (storeRoot s)).1

end Realtime.Structured
