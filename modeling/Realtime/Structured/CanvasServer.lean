import Realtime.Structured.CanvasOperations

/-!
# Canvas operations on the server

`apply_canvas_operation_batch` of `server/src/structured.rs`, which applies the
operations of a request to the JSON value of a canvas, all of them or none.

An object is a `serde_json::Map`, whose keys are kept in the order of their UTF-8
bytes. Rust strings hold no unpaired surrogates; nothing below depends on that.
-/

namespace Realtime.Structured.Server

open Lib Lib.Js Lib.Utf16

inductive AppError where
  | badRequest (text : JsString)
  | conflict (text : JsString)
  | notFound
  deriving DecidableEq

/-- The entries of the root object for one kind of item. -/
structure JsonItems where
  items : Option Value
  tombstones : Option Value
  order : Option Value

structure JsonCanvas where
  nodes : JsonItems
  edges : JsonItems

/-- The code points of a string. Their order is that of the UTF-8 bytes. -/
def codePoints : JsString → List Nat
  | [] => []
  | [code] => [code.toNat]
  | high :: low :: rest =>
      if isHighSurrogate high && isLowSurrogate low then
        (0x10000 + (high.toNat - 0xd800) * 0x400 + (low.toNat - 0xdc00)) :: codePoints rest
      else high.toNat :: codePoints (low :: rest)

/-- The keys of an object, in the order the map iterates over them. -/
def mapKeys (object : List (JsString × Value)) : List JsString :=
  (Assoc.keys object).insertionSort fun left right => codePoints left ≤ codePoints right

/-- An existing object, or a fresh one in its place. -/
def ensureObject : Option Value → List (JsString × Value)
  | some (.obj _ entries) => entries
  | _ => []

def ensureArray : Option Value → List Value
  | some (.arr items) => items
  | _ => []

def asStr : Value → Option JsString
  | .str s => some s
  | _ => none

def ensureOrder (order : Option Value) (id : JsString) : Option Value :=
  let order := ensureArray order
  if order.any fun value => asStr value = some id then some (.arr order)
  else some (.arr (order ++ [.str id]))

def idRequired : AppError := .badRequest (ascii "Canvas item id is required")

def createCanvasItem (s : JsonItems) (item : List (JsString × Value)) (restore : Bool) :
    Except AppError JsonItems :=
  match ((Assoc.get idKey item).bind asStr).filter fun id => !id.isEmpty with
  | none => .error idRequired
  | some id =>
      let tombstones := ensureObject s.tombstones
      if id ∈ Assoc.keys tombstones ∧ restore = false then
        .error (.conflict (ascii "Canvas item is tombstoned"))
      else if id ∈ Assoc.keys (ensureObject s.items) then
        .error (.conflict (ascii "Canvas item exists"))
      else
        .ok
          { tombstones := some (.obj true (Assoc.erase id tombstones))
            items := some (.obj true (Assoc.set id (.obj true (Assoc.set idKey (.str id) item))
              (ensureObject s.items)))
            order := ensureOrder s.order id }

/-- The fields of an item after a patch. -/
def patchedFields (id : JsString) (patch : CanvasFieldPatch) (fields : List (JsString × Value)) :
    List (JsString × Value) :=
  let removed := patch.remove.foldl (fun fields key =>
    if key = idKey then fields else Assoc.erase key fields) fields
  let written := patch.set.foldl (fun fields entry =>
    if entry.1 = idKey then fields else Assoc.set entry.1 entry.2 fields) removed
  Assoc.set idKey (.str id) written

def applyCanvasPatch (s : JsonItems) (id : JsString) (patch : CanvasFieldPatch) :
    Except AppError JsonItems :=
  if id.isEmpty then .error idRequired
  else
    match Assoc.get id (ensureObject s.items) with
    | some (.obj inherits fields) =>
        .ok { s with items := some (.obj true
          (Assoc.set id (.obj inherits (patchedFields id patch fields)) (ensureObject s.items))) }
    | _ => .error .notFound

def tombstoneCanvasItem (s : JsonItems) (id : JsString) : JsonItems where
  items := some (.obj true (Assoc.erase id (ensureObject s.items)))
  tombstones := some (.obj true (Assoc.set id (.num (-1)) (ensureObject s.tombstones)))
  order :=
    match s.order with
    | some (.arr order) => some (.arr (order.filter fun value => asStr value ≠ some id))
    | order => order

/-- `edge.get("fromNode")` or `edge.get("toNode")` is the string `id`. -/
def connected (id : JsString) (edge : Value) : Bool :=
  match edge with
  | .obj _ fields =>
      (Assoc.get (ascii "fromNode") fields).bind asStr = some id ||
        (Assoc.get (ascii "toNode") fields).bind asStr = some id
  | _ => false

def connectedIds (edges : List (JsString × Value)) (id : JsString) : List JsString :=
  (mapKeys edges).filter fun edgeId =>
    match Assoc.get edgeId edges with
    | some edge => connected id edge
    | none => false

def deleteConnected (s : JsonItems) (id : JsString) : JsonItems :=
  (connectedIds (ensureObject s.items) id).foldl tombstoneCanvasItem s

/-- The ids given, which must all be live, each once. -/
def normalizeOrder (items : List (JsString × Value)) (normalized : List JsString)
    (id : JsString) : Except AppError (List JsString) :=
  if id ∉ Assoc.keys items then
    .error (.badRequest (ascii "unknown Canvas item id: " ++ id))
  else if id ∈ normalized then .ok normalized
  else .ok (normalized ++ [id])

def setCanvasOrder (s : JsonItems) (order : List JsString) : Except AppError JsonItems :=
  let items := ensureObject s.items
  (order.foldlM (normalizeOrder items) []).map fun normalized =>
    let rest := (mapKeys items).filter fun id => id ∉ normalized
    { s with
      items := some (.obj true items)
      order := some (.arr ((normalized ++ rest).map .str)) }

def applyItemOperation (s : JsonItems) (operation : ItemOperation) : Except AppError JsonItems :=
  match operation with
  | .create item => createCanvasItem s item false
  | .restore item => createCanvasItem s item true
  | .patch id patch => applyCanvasPatch s id patch
  | .delete id => .ok (tombstoneCanvasItem s id)

/-- One round of the loop over the operations. -/
def applyOperation (s : JsonCanvas) (operation : CanvasOperation) : Except AppError JsonCanvas :=
  match operation with
  | .item .node (.delete id) =>
      .ok { nodes := tombstoneCanvasItem s.nodes id, edges := deleteConnected s.edges id }
  | .item .node operation =>
      (applyItemOperation s.nodes operation).map fun nodes => { s with nodes }
  | .item .edge operation =>
      (applyItemOperation s.edges operation).map fun edges => { s with edges }
  | .order .node order => (setCanvasOrder s.nodes order).map fun nodes => { s with nodes }
  | .order .edge order => (setCanvasOrder s.edges order).map fun edges => { s with edges }

/-- One end of an edge must be a live node. -/
def validateEnd (nodes : List (JsString × Value)) (fields : List (JsString × Value))
    (key : JsString) : Except AppError Unit :=
  match (Assoc.get key fields).bind asStr with
  | none => .error (.badRequest (ascii "Canvas edge " ++ key ++ ascii " is required"))
  | some id =>
      if id ∈ Assoc.keys nodes then .ok ()
      else .error (.badRequest (ascii "Canvas edge references unknown node: " ++ id))

def validateEdge (nodes : List (JsString × Value)) (edge : Value) : Except AppError Unit :=
  match edge with
  | .obj _ fields => do
      validateEnd nodes fields (ascii "fromNode")
      validateEnd nodes fields (ascii "toNode")
  | _ => .error (.badRequest (ascii "Canvas edge must be an object"))

/-- The edges are looked at in the order of their ids. -/
def validateCanvasEdges (s : JsonCanvas) : Except AppError JsonCanvas := do
  let nodes := ensureObject s.nodes.items
  let edges := ensureObject s.edges.items
  ((mapKeys edges).filterMap fun id => Assoc.get id edges).forM (validateEdge nodes)
  return {
    nodes := { s.nodes with items := some (.obj true nodes) }
    edges := { s.edges with items := some (.obj true edges) } }

def applyCanvasOperationBatch (root : JsonCanvas) (operations : List CanvasOperation) :
    Except AppError JsonCanvas := do
  validateCanvasEdges (← operations.foldlM applyOperation root)

/-! ## What a batch keeps -/

/-- Distinct ids, none of them live and tombstoned. -/
structure Sound (s : JsonItems) : Prop where
  wf : Assoc.Wf (ensureObject s.items)
  apart : ∀ id ∈ Assoc.keys (ensureObject s.tombstones), id ∉ Assoc.keys (ensureObject s.items)

theorem createCanvasItem_eq_ok {s s' : JsonItems} {item : List (JsString × Value)}
    {restore : Bool} (h : createCanvasItem s item restore = .ok s') :
    ∃ id, Assoc.get idKey item = some (.str id) ∧ id.isEmpty = false ∧
      id ∉ Assoc.keys (ensureObject s.items) ∧
      s' =
        { tombstones := some (.obj true (Assoc.erase id (ensureObject s.tombstones)))
          items := some (.obj true (Assoc.set id (.obj true (Assoc.set idKey (.str id) item))
            (ensureObject s.items)))
          order := ensureOrder s.order id } := by
  unfold createCanvasItem at h
  split at h
  · cases h
  · rename_i id hid
    dsimp only at h
    split at h
    · cases h
    · split at h
      · cases h
      · rename_i hlive
        obtain ⟨hbind, hne⟩ := Option.filter_eq_some_iff.mp hid
        obtain ⟨v, hv, hstr⟩ := Option.bind_eq_some_iff.mp hbind
        have hv' : v = .str id := by
          cases v with
          | str s => rw [Option.some.inj hstr]
          | _ => cases hstr
        exact ⟨id, hv' ▸ hv, by simpa using hne, hlive, (Except.ok.inj h).symm⟩

theorem applyCanvasPatch_eq_ok {s s' : JsonItems} {id : JsString} {patch : CanvasFieldPatch}
    (h : applyCanvasPatch s id patch = .ok s') :
    ∃ inherits fields, Assoc.get id (ensureObject s.items) = some (.obj inherits fields) ∧
      s' = { s with items := some (.obj true
        (Assoc.set id (.obj inherits (patchedFields id patch fields))
          (ensureObject s.items))) } := by
  unfold applyCanvasPatch at h
  split at h
  · cases h
  · split at h
    · rename_i inherits fields hget
      exact ⟨inherits, fields, hget, (Except.ok.inj h).symm⟩
    · cases h

theorem Sound.create {s s' : JsonItems} (hs : Sound s) {item : List (JsString × Value)}
    {restore : Bool} (h : createCanvasItem s item restore = .ok s') : Sound s' := by
  obtain ⟨id, -, -, -, rfl⟩ := createCanvasItem_eq_ok h
  refine ⟨Assoc.wf_set hs.wf, ?_⟩
  intro j hj hlive
  obtain ⟨hne, hstone⟩ := Assoc.mem_keys_erase.mp hj
  rcases Assoc.mem_keys_set.mp hlive with rfl | hlive
  · exact hne rfl
  · exact hs.apart j hstone hlive

theorem Sound.patch {s s' : JsonItems} (hs : Sound s) {id : JsString} {patch : CanvasFieldPatch}
    (h : applyCanvasPatch s id patch = .ok s') : Sound s' := by
  obtain ⟨inherits, fields, hget, rfl⟩ := applyCanvasPatch_eq_ok h
  have hmem : id ∈ Assoc.keys (ensureObject s.items) := Assoc.get_isSome_iff.mp (by simp [hget])
  refine ⟨Assoc.wf_set hs.wf, ?_⟩
  intro j hj hlive
  rcases Assoc.mem_keys_set.mp hlive with rfl | hlive
  · exact hs.apart j hj hmem
  · exact hs.apart j hj hlive

theorem Sound.tombstone {s : JsonItems} (hs : Sound s) (id : JsString) :
    Sound (tombstoneCanvasItem s id) := by
  refine ⟨Assoc.wf_erase hs.wf, ?_⟩
  intro j hj hlive
  obtain ⟨hne, hlive⟩ := Assoc.mem_keys_erase.mp hlive
  rcases Assoc.mem_keys_set.mp hj with rfl | hstone
  · exact hne rfl
  · exact hs.apart j hstone hlive

theorem Sound.deleteConnected {s : JsonItems} (hs : Sound s) (id : JsString) :
    Sound (deleteConnected s id) :=
  List.foldlRecOn _ _ hs fun _ hs id _ => hs.tombstone id

theorem map_eq_ok {α β ε : Type} {x : Except ε α} {f : α → β} {b : β}
    (h : x.map f = .ok b) : ∃ a, x = .ok a ∧ f a = b := by
  cases x with
  | error e => cases h
  | ok a => exact ⟨a, rfl, Except.ok.inj h⟩

theorem setCanvasOrder_eq_ok {s s' : JsonItems} {order : List JsString}
    (h : setCanvasOrder s order = .ok s') :
    ∃ normalized, order.foldlM (normalizeOrder (ensureObject s.items)) [] = .ok normalized ∧
      s' =
        { s with
          items := some (.obj true (ensureObject s.items))
          order := some (.arr ((normalized ++ (mapKeys (ensureObject s.items)).filter
            fun id => id ∉ normalized).map .str)) } := by
  obtain ⟨normalized, hfold, heq⟩ := map_eq_ok h
  exact ⟨normalized, hfold, heq.symm⟩

def JsonCanvas.kind (s : JsonCanvas) : Kind → JsonItems
  | .node => s.nodes
  | .edge => s.edges

/-- What an operation on one kind of item does to both kinds. -/
theorem applyOperation_item {s s' : JsonCanvas} {own : Kind} {operation : ItemOperation}
    (h : applyOperation s (.item own operation) = .ok s') :
    applyItemOperation (s.kind own) operation = .ok (s'.kind own) ∧
      ∀ other, own ≠ other →
        ((∀ id, operation ≠ .delete id) ∨ own = .edge) ∧ s'.kind other = s.kind other ∨
          ∃ id, own = .node ∧ operation = .delete id ∧
            s'.kind other = deleteConnected (s.kind other) id := by
  cases own with
  | node =>
      cases operation with
      | delete id =>
          obtain rfl := Except.ok.inj h
          refine ⟨rfl, fun other hne => .inr ⟨id, rfl, rfl, ?_⟩⟩
          cases other with
          | node => exact absurd rfl hne
          | edge => rfl
      | _ =>
          obtain ⟨nodes, hnodes, rfl⟩ := map_eq_ok h
          refine ⟨hnodes, fun other hne => .inl ⟨.inl (fun _ h => nomatch h), ?_⟩⟩
          cases other with
          | node => exact absurd rfl hne
          | edge => rfl
  | edge =>
      obtain ⟨edges, hedges, rfl⟩ := map_eq_ok h
      refine ⟨hedges, fun other hne => .inl ⟨.inr rfl, ?_⟩⟩
      cases other with
      | node => rfl
      | edge => exact absurd rfl hne

theorem applyOperation_order {s s' : JsonCanvas} {own : Kind} {order : List JsString}
    (h : applyOperation s (.order own order) = .ok s') :
    setCanvasOrder (s.kind own) order = .ok (s'.kind own) ∧
      ∀ other, own ≠ other → s'.kind other = s.kind other := by
  cases own with
  | node =>
      obtain ⟨nodes, hnodes, rfl⟩ := map_eq_ok h
      refine ⟨hnodes, fun other hne => ?_⟩
      cases other with
      | node => exact absurd rfl hne
      | edge => rfl
  | edge =>
      obtain ⟨edges, hedges, rfl⟩ := map_eq_ok h
      refine ⟨hedges, fun other hne => ?_⟩
      cases other with
      | node => rfl
      | edge => exact absurd rfl hne

theorem Sound.applyOperation {s s' : JsonCanvas} {operation : CanvasOperation}
    (hs : ∀ kind, Sound (s.kind kind)) (h : Server.applyOperation s operation = .ok s')
    (kind : Kind) : Sound (s'.kind kind) := by
  cases operation with
  | item own operation =>
      obtain ⟨hown, hother⟩ := applyOperation_item h
      by_cases hkind : own = kind
      · subst hkind
        cases operation with
        | create item => exact (hs own).create hown
        | restore item => exact (hs own).create hown
        | patch id patch => exact (hs own).patch hown
        | delete id => exact Except.ok.inj hown ▸ (hs own).tombstone id
      · rcases hother kind hkind with ⟨-, heq⟩ | ⟨id, -, -, heq⟩
        · rw [heq]
          exact hs kind
        · rw [heq]
          exact (hs kind).deleteConnected id
  | order own order =>
      obtain ⟨hown, hother⟩ := applyOperation_order h
      by_cases hkind : own = kind
      · subst hkind
        obtain ⟨normalized, -, heq⟩ := setCanvasOrder_eq_ok hown
        rw [heq]
        exact ⟨(hs own).wf, (hs own).apart⟩
      · rw [hother kind hkind]
        exact hs kind

/-- Every edge joins two live nodes. -/
def Joined (s : JsonCanvas) : Prop :=
  ∀ id edge, Assoc.get id (ensureObject s.edges.items) = some edge →
    ∃ inherits fields, edge = .obj inherits fields ∧
      ∀ key ∈ [ascii "fromNode", ascii "toNode"], ∃ node ∈ Assoc.keys (ensureObject s.nodes.items),
        Assoc.get key fields = some (.str node)

theorem validateEnd_eq_ok {nodes fields : List (JsString × Value)} {key : JsString} {u : Unit}
    (h : validateEnd nodes fields key = .ok u) :
    ∃ node ∈ Assoc.keys nodes, Assoc.get key fields = some (.str node) := by
  unfold validateEnd at h
  split at h
  · cases h
  · rename_i id hid
    split at h
    · rename_i hmem
      obtain ⟨v, hv, hstr⟩ := Option.bind_eq_some_iff.mp hid
      cases v with
      | str s => exact ⟨id, hmem, Option.some.inj hstr ▸ hv⟩
      | _ => cases hstr
    · cases h

theorem validateEdge_eq_ok {nodes : List (JsString × Value)} {edge : Value} {u : Unit}
    (h : validateEdge nodes edge = .ok u) :
    ∃ inherits fields, edge = .obj inherits fields ∧
      ∀ key ∈ [ascii "fromNode", ascii "toNode"], ∃ node ∈ Assoc.keys nodes,
        Assoc.get key fields = some (.str node) := by
  cases edge with
  | obj inherits fields =>
      refine ⟨inherits, fields, rfl, ?_⟩
      cases hsource : validateEnd nodes fields (ascii "fromNode") with
      | error e => simp [validateEdge, hsource, bind, Except.bind] at h
      | ok _ =>
          simp only [validateEdge, hsource, bind, Except.bind] at h
          intro key hkey
          rcases List.mem_cons.mp hkey with rfl | hkey
          · exact validateEnd_eq_ok hsource
          · rw [List.mem_singleton.mp hkey]
            exact validateEnd_eq_ok h
  | _ => cases h

theorem mem_mapKeys {object : List (JsString × Value)} {key : JsString} :
    key ∈ mapKeys object ↔ key ∈ Assoc.keys object :=
  (List.perm_insertionSort _ _).mem_iff

theorem forM_eq_ok {α ε : Type} {f : α → Except ε Unit} {xs : List α} {u : Unit}
    (h : xs.forM f = .ok u) : ∀ x ∈ xs, f x = .ok () := by
  induction xs with
  | nil => simp
  | cons x xs ih =>
      cases hx : f x with
      | error e =>
          have hcons : (f x >>= fun _ => xs.forM f) = .ok u := h
          rw [hx] at hcons
          cases hcons
      | ok _ =>
          have hrest : xs.forM f = .ok u := by
            have hcons : (f x >>= fun _ => xs.forM f) = .ok u := h
            rwa [hx] at hcons
          intro y hy
          rcases List.mem_cons.mp hy with rfl | hy
          · exact hx
          · exact ih hrest y hy

/-- The check at the end of a batch. -/
theorem validateCanvasEdges_eq_ok {s s' : JsonCanvas} (h : validateCanvasEdges s = .ok s') :
    Joined s' ∧ ∀ kind, ensureObject (s'.kind kind).items = ensureObject (s.kind kind).items ∧
      (s'.kind kind).tombstones = (s.kind kind).tombstones ∧
      (s'.kind kind).order = (s.kind kind).order := by
  unfold validateCanvasEdges at h
  dsimp only at h
  generalize hvalid : ((mapKeys (ensureObject s.edges.items)).filterMap fun id =>
    Assoc.get id (ensureObject s.edges.items)).forM (validateEdge (ensureObject s.nodes.items)) =
    result at h
  cases result with
  | error e => cases h
  | ok _ =>
      obtain rfl := Except.ok.inj h
      refine ⟨?_, fun kind => by cases kind <;> exact ⟨rfl, rfl, rfl⟩⟩
      intro id edge hedge
      have hget : Assoc.get id (ensureObject s.edges.items) = some edge := hedge
      apply validateEdge_eq_ok (forM_eq_ok hvalid edge _)
      apply List.mem_filterMap.mpr
      exact ⟨id, mem_mapKeys.mpr (Assoc.get_isSome_iff.mp (by rw [hget]; rfl)), hget⟩

end Realtime.Structured.Server
