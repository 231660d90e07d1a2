import Mathlib.Data.List.ReduceOption
import Realtime.Lib.OptionFold
import Realtime.Structured.CanvasDiff

/-!
# Diff and apply of canvases

When applying `diffCanvas(prev, next)` to a root that holds `prev` leads to
`next`. The operations of one kind name distinct ids, so what an item becomes is
decided by the one operation on its id. Node deletions come first and take the
connected edges with them, also those the same diff rewires.
-/

namespace Realtime.Structured

open Lib Lib.Js Lib.Utf16

/-! ## The operations of one kind -/

/-- Distinct ids, and no tombstone of another client. -/
structure Sound (clientID : ℚ) (s : ItemState) : Prop where
  wf : Assoc.Wf s.items
  stones : ∀ id stone, Assoc.get id s.tombstones = some stone → stone = .plain (.num clientID)

variable {clientID : ℚ}

/-- `deleteItem` on an order array of strings. -/
def dropItem (s : ItemState) (id : JsString) (clientID : ℚ) : ItemState :=
  if id ∉ Assoc.keys s.items then s
  else
    { tombstones := Assoc.set id (.plain (.num clientID)) s.tombstones
      items := Assoc.erase id s.items
      order := writeOrder s.order ((orderStrings s.order).filter fun candidate => candidate ≠ id) }

def dropConnectedEdges (s : ItemState) (nodeId : JsString) (clientID : ℚ) : ItemState :=
  (s.items.filter fun e => connected nodeId e.2).foldl (fun s e => dropItem s e.1 clientID) s

/-- `applyItemOperation` on an order array of strings. -/
def stepItem (s : ItemState) (operation : ItemOperation) (clientID : ℚ) : ItemState :=
  match operation with
  | .delete id => dropItem s id clientID
  | operation => (applyItemOperation s operation clientID).getD s

theorem Sound.dropItem {s : ItemState} (h : Sound clientID s) (id : JsString) :
    Sound clientID (dropItem s id clientID) := by
  unfold Structured.dropItem
  split
  · exact h
  · refine ⟨Assoc.wf_erase h.wf, ?_⟩
    intro j stone hstone
    rw [Assoc.get_set] at hstone
    split at hstone
    · exact (Option.some.inj hstone).symm
    · exact h.stones j stone hstone

theorem get_dropItem (s : ItemState) (id j : JsString) :
    Assoc.get j (dropItem s id clientID).items =
      if id = j then none else Assoc.get j s.items := by
  unfold dropItem
  split
  · rename_i hnot
    split
    · rename_i hj
      rw [← hj]
      exact Assoc.get_eq_none_iff.mpr hnot
    · rfl
  · exact Assoc.get_erase _ _ _

theorem get_upsertItem (items : List (JsString × Node)) (id j : JsString)
    (item : List (JsString × Value)) :
    Assoc.get j (upsertItem items id item) =
      if id = j then
        some (.map (patchFields id ⟨item, []⟩ ((mapOf (Assoc.get id items)).getD [])))
      else Assoc.get j items := by
  unfold upsertItem patchItem
  dsimp only
  rw [Assoc.get_set_self, mapOf_map]
  dsimp only
  rw [Assoc.get_set, Assoc.get_set]
  split <;> rfl

theorem wf_patchItem {items : List (JsString × Node)} (h : Assoc.Wf items) (id : JsString)
    (patch : CanvasFieldPatch) : Assoc.Wf (patchItem items id patch) := by
  unfold patchItem
  split
  · exact h
  · exact Assoc.wf_set h

/-- A creation, when no other client has deleted the id. -/
theorem createItem_spec {s : ItemState} (h : Sound clientID s) {item : List (JsString × Value)}
    {id : JsString} (hid : Assoc.get idKey item = some (.str id)) :
    Sound clientID (createItem s item clientID) ∧
      (createItem s item clientID).order = s.order ∧
      ∀ j, Assoc.get j (createItem s item clientID).items =
        if id = j then slotAfter id (some (.create item)) (Assoc.get j s.items)
        else Assoc.get j s.items := by
  have hread : (Value.obj true item).read idKey = .str id :=
    Value.read_of_own (v := .obj true item) hid
  by_cases hempty : id.isEmpty = true
  · have hitem : itemId item = none := by rw [itemId, hread]; exact if_pos hempty
    unfold createItem
    rw [hitem]
    refine ⟨h, rfl, ?_⟩
    intro j
    simp [slotAfter, hempty]
  have hitem : itemId item = some id := by rw [itemId, hread]; exact if_neg hempty
  unfold createItem
  rw [hitem]
  dsimp only
  have hwf : Assoc.Wf (upsertItem s.items id item) := wf_patchItem (Assoc.wf_set h.wf) _ _
  have hitems : ∀ j, Assoc.get j (upsertItem s.items id item) =
      if id = j then slotAfter id (some (.create item)) (Assoc.get j s.items)
      else Assoc.get j s.items := by
    intro j
    rw [get_upsertItem]
    split
    · rename_i hj
      subst hj
      rw [slotAfter, if_neg hempty]
    · rfl
  cases hstone : Assoc.get id s.tombstones with
  | none => exact ⟨⟨hwf, h.stones⟩, rfl, hitems⟩
  | some stone =>
      obtain rfl := h.stones id stone hstone
      have hsame : sameSlot (some (.plain (.num clientID))) (.plain (.num clientID)) = true := by
        simp [sameSlot, Value.strictEq]
      dsimp only
      rw [if_pos hsame]
      refine ⟨⟨hwf, ?_⟩, rfl, hitems⟩
      intro j stone' hstone'
      rw [Assoc.get_erase] at hstone'
      split at hstone'
      · cases hstone'
      · exact h.stones j stone' hstone'

/-- The operation the diff makes for an id. -/
def OperationFor (id : JsString) : Option ItemOperation → Prop
  | none => True
  | some (.patch j _) => j = id
  | some (.create item) => Assoc.get idKey item = some (.str id)
  | _ => False

/-- One update touches the slot of its own id. -/
theorem stepItem_spec {s : ItemState} (h : Sound clientID s) {id : JsString}
    {operation : ItemOperation} (hop : OperationFor id (some operation)) :
    Sound clientID (stepItem s operation clientID) ∧
      (stepItem s operation clientID).order = s.order ∧
      ∀ j, Assoc.get j (stepItem s operation clientID).items =
        if id = j then slotAfter id (some operation) (Assoc.get j s.items)
        else Assoc.get j s.items := by
  cases operation with
  | create item => exact createItem_spec h hop
  | patch k patch =>
      obtain rfl : k = id := hop
      refine ⟨⟨wf_patchItem h.wf _ _, h.stones⟩, rfl, ?_⟩
      intro j
      show Assoc.get j (patchItem s.items k patch) = _
      unfold patchItem
      cases hslot : mapOf (Assoc.get k s.items) with
      | none =>
          dsimp only
          split
          · rename_i hj
            subst hj
            simp [slotAfter, hslot]
          · rfl
      | some fields =>
          dsimp only
          rw [Assoc.get_set]
          split
          · rename_i hj
            subst hj
            simp [slotAfter, hslot]
          · rfl
  | delete k => exact hop.elim
  | restore item => exact hop.elim

/-- The updates of distinct ids, one after the other. -/
theorem foldl_updates_spec {ids : List JsString} (hnodup : ids.Nodup)
    {f : JsString → Option ItemOperation} (hf : ∀ id ∈ ids, OperationFor id (f id))
    {s : ItemState} (h : Sound clientID s) :
    let s' := (ids.map f).reduceOption.foldl
      (fun s operation => stepItem s operation clientID) s
    Sound clientID s' ∧ s'.order = s.order ∧
      ∀ j, Assoc.get j s'.items =
        if j ∈ ids then slotAfter j (f j) (Assoc.get j s.items) else Assoc.get j s.items := by
  induction ids generalizing s with
  | nil => simp [h]
  | cons id ids ih =>
      obtain ⟨hfresh, hnodup⟩ := List.nodup_cons.mp hnodup
      have hfs : ∀ j ∈ ids, OperationFor j (f j) := fun j hj => hf j (List.mem_cons_of_mem _ hj)
      cases hop : f id with
      | none =>
          obtain ⟨hs, horder, hget⟩ := ih hnodup hfs h
          rw [List.map_cons, hop, List.reduceOption_cons_of_none]
          refine ⟨hs, horder, ?_⟩
          intro j
          rw [hget j]
          by_cases hj : j = id
          · subst hj
            simp [hfresh, hop, slotAfter]
          · simp [hj]
      | some operation =>
          have hone := hf id List.mem_cons_self
          rw [hop] at hone
          obtain ⟨hs1, horder1, hget1⟩ := stepItem_spec h hone
          obtain ⟨hs, horder, hget⟩ := ih hnodup hfs hs1
          rw [List.map_cons, hop, List.reduceOption_cons_of_some, List.foldl_cons]
          refine ⟨hs, horder.trans horder1, ?_⟩
          intro j
          rw [hget j, hget1 j]
          by_cases hj : j = id
          · subst hj
            simp [hfresh, hop]
          · simp [hj, Ne.symm hj]

/-- The deletions of a list of ids. -/
theorem foldl_deletes_spec (ids : List JsString) {s : ItemState} (h : Sound clientID s) :
    let s' := ids.foldl (fun s id => dropItem s id clientID) s
    Sound clientID s' ∧
      ∀ j, Assoc.get j s'.items = if j ∈ ids then none else Assoc.get j s.items := by
  induction ids generalizing s with
  | nil => simp [h]
  | cons id ids ih =>
      obtain ⟨hs, hget⟩ := ih (h.dropItem id)
      rw [List.foldl_cons]
      refine ⟨hs, ?_⟩
      intro j
      rw [hget j, get_dropItem]
      by_cases hj : j = id
      · simp [hj]
      · simp [hj, Ne.symm hj]

/-- Deleting a node's edges keeps the others as they are. -/
theorem dropConnectedEdges_spec {s : ItemState} (h : Sound clientID s) (nodeId : JsString) :
    Sound clientID (dropConnectedEdges s nodeId clientID) ∧
      ∀ j, Assoc.get j (dropConnectedEdges s nodeId clientID).items =
        (Assoc.get j s.items).filter fun edge => !connected nodeId edge := by
  have heq : dropConnectedEdges s nodeId clientID =
      (Assoc.keys (s.items.filter fun e => connected nodeId e.2)).foldl
        (fun s id => dropItem s id clientID) s := by
    rw [dropConnectedEdges, Assoc.keys, List.foldl_map]
  rw [heq]
  obtain ⟨hsound, hget⟩ := foldl_deletes_spec
    (Assoc.keys (s.items.filter fun e => connected nodeId e.2)) h
  refine ⟨hsound, ?_⟩
  intro j
  rw [hget j]
  cases hj : Assoc.get j s.items with
  | none => simp
  | some edge =>
      have hmem : j ∈ Assoc.keys (s.items.filter fun e => connected nodeId e.2) ↔
          connected nodeId edge = true := by
        simp only [Assoc.keys, List.mem_map, List.mem_filter]
        constructor
        · rintro ⟨⟨k, edge'⟩, ⟨hin, hconn⟩, rfl⟩
          have := Assoc.get_of_mem h.wf hin
          rw [hj, Option.some_inj] at this
          rw [this]
          exact hconn
        · intro hconn
          exact ⟨(j, edge), ⟨Assoc.mem_of_get hj, hconn⟩, rfl⟩
      by_cases hconn : connected nodeId edge = true
      · rw [if_pos (hmem.mpr hconn)]
        simp [Option.filter, hconn]
      · rw [if_neg (fun hin => hconn (hmem.mp hin))]
        simp [Option.filter, hconn]

/-- The edges that survive the deletion of some nodes. -/
def survives (nodeIds : List JsString) (edge : Node) : Bool :=
  nodeIds.all fun nodeId => !connected nodeId edge

theorem foldl_dropConnectedEdges_spec (nodeIds : List JsString) {s : ItemState}
    (h : Sound clientID s) :
    let s' := nodeIds.foldl (fun s nodeId => dropConnectedEdges s nodeId clientID) s
    Sound clientID s' ∧
      ∀ j, Assoc.get j s'.items = (Assoc.get j s.items).filter (survives nodeIds) := by
  induction nodeIds generalizing s with
  | nil =>
      refine ⟨h, fun j => ?_⟩
      cases hj : Assoc.get j s.items <;> simp [Option.filter, survives, hj]
  | cons nodeId nodeIds ih =>
      obtain ⟨hone, hgetOne⟩ := dropConnectedEdges_spec h nodeId
      obtain ⟨hsound, hget⟩ := ih hone
      refine ⟨hsound, fun j => ?_⟩
      rw [List.foldl_cons, hget j, hgetOne j]
      cases Assoc.get j s.items with
      | none => rfl
      | some edge =>
          by_cases hconn : connected nodeId edge = true <;>
            simp [Option.filter, survives, hconn]

/-- Nothing is done for nodes without edges. -/
theorem foldl_dropConnectedEdges_of_survives {nodeIds : List JsString} {s : ItemState}
    (h : ∀ e ∈ s.items, survives nodeIds e.2 = true) :
    nodeIds.foldl (fun s nodeId => dropConnectedEdges s nodeId clientID) s = s := by
  induction nodeIds with
  | nil => rfl
  | cons nodeId nodeIds ih =>
      have hnone : s.items.filter (fun e => connected nodeId e.2) = [] := by
        apply List.filter_eq_nil_iff.mpr
        intro e he
        have := h e he
        simp only [survives, List.all_cons, Bool.and_eq_true, Bool.not_eq_true'] at this
        simp [this.1]
      rw [List.foldl_cons, dropConnectedEdges, hnone]
      apply ih
      intro e he
      have := h e he
      simp only [survives, List.all_cons, Bool.and_eq_true] at this
      exact this.2

/-! ## The diff of one kind -/

theorem mapM_eq_some_iff {α β : Type*} {f : α → Option β} {xs : List α} {ys : List β} :
    xs.mapM f = some ys ↔ xs.map f = ys.map some := by
  induction xs generalizing ys with
  | nil => cases ys <;> simp
  | cons x xs ih =>
      rw [List.mapM_cons, Option.bind_eq_bind, Option.bind_eq_some_iff]
      simp only [Option.bind_eq_bind, Option.bind_eq_some_iff, ih, Option.pure_def,
        Option.some_inj, List.map_cons]
      constructor
      · rintro ⟨y, hy, ys', hys, rfl⟩
        rw [List.map_cons, hy, hys]
      · cases ys with
        | nil => simp
        | cons y ys =>
            intro h
            rw [List.map_cons, List.cons.injEq] at h
            exact ⟨y, h.1, ys, h.2, rfl⟩

/-- The ids the diff deletes. -/
def deletedIds (previous next : List (JsString × Value)) : List JsString :=
  (sortKeys (Assoc.keys previous)).filter fun id => !(Value.obj true next).hasKey id

/-- The update the diff makes for an id. -/
def updateOf (previous next : List (JsString × Value)) (id : JsString) : Option ItemOperation :=
  (diffItem (.obj true previous) (.obj true next) id).getD none

def updates (previous next : List (JsString × Value)) : List ItemOperation :=
  ((sortKeys (Assoc.keys next)).map (updateOf previous next)).reduceOption

theorem diffItems_eq_some_iff {previous next : List (JsString × Value)}
    {operations : List ItemOperation} :
    diffItems (.obj true previous) (.obj true next) = some operations ↔
      (∀ id ∈ Assoc.keys next, (diffItem (.obj true previous) (.obj true next) id).isSome) ∧
        operations = (deletedIds previous next).map .delete ++ updates previous next := by
  show Option.map _ ((sortKeys (Assoc.keys next)).mapM _) = _ ↔ _
  simp only [Option.map_eq_some_iff, mapM_eq_some_iff]
  constructor
  · rintro ⟨results, hresults, rfl⟩
    have hsome : ∀ id ∈ sortKeys (Assoc.keys next), ∃ r,
        diffItem (.obj true previous) (.obj true next) id = some r := by
      intro id hid
      have hmem := List.mem_map_of_mem
        (f := diffItem (.obj true previous) (.obj true next)) hid
      rw [hresults, List.mem_map] at hmem
      obtain ⟨r, -, hr⟩ := hmem
      exact ⟨r, hr.symm⟩
    refine ⟨fun id hid => Option.isSome_iff_exists.mpr (hsome id (mem_sortKeys.mpr hid)), ?_⟩
    have hmap : results = (sortKeys (Assoc.keys next)).map (updateOf previous next) := by
      apply List.map_injective_iff.mpr (Option.some_injective _)
      rw [← hresults, List.map_map]
      apply List.map_congr_left
      intro id hid
      obtain ⟨r, hr⟩ := hsome id hid
      simp [updateOf, hr]
    rw [hmap]
    rfl
  · rintro ⟨hsome, rfl⟩
    refine ⟨(sortKeys (Assoc.keys next)).map (updateOf previous next), ?_, rfl⟩
    rw [List.map_map]
    apply List.map_congr_left
    intro id hid
    obtain ⟨r, hr⟩ := Option.isSome_iff_exists.mp (hsome id (mem_sortKeys.mp hid))
    simp [updateOf, hr]

/-- The items of a canonical canvas: JSON records that carry their own id. -/
structure CanonicalItems (items : List (JsString × Value)) : Prop where
  json : Value.IsJson (.obj true items)
  records : ∀ id v, Assoc.get id items = some v →
    ∃ fields, v = .obj true fields ∧ Assoc.get idKey fields = some (.str id)

theorem CanonicalItems.get {items : List (JsString × Value)} (h : CanonicalItems items)
    {id : JsString} (hid : id ∈ Assoc.keys items) :
    ∃ fields, Assoc.get id items = some (.obj true fields) ∧
      Assoc.get idKey fields = some (.str id) ∧ Value.IsJson (.obj true fields) := by
  obtain ⟨v, hv⟩ := Option.isSome_iff_exists.mp (Assoc.get_isSome_iff.mpr hid)
  obtain ⟨fields, rfl, hfield⟩ := h.records id v hv
  exact ⟨fields, hv, hfield, h.json.obj_inv.2.2.2 _ (Assoc.mem_of_get hv)⟩

theorem operationFor_updateOf {next : List (JsString × Value)} (h : CanonicalItems next)
    (previous : List (JsString × Value)) {id : JsString} (hid : id ∈ Assoc.keys next) :
    OperationFor id (updateOf previous next id) := by
  obtain ⟨ns, hget, hfield, -⟩ := h.get hid
  have hnext : asRecord ((Value.obj true next).read id) = some (.obj true ns) := by
    rw [Value.read_of_own (v := .obj true next) hget]
    rfl
  unfold updateOf diffItem
  rw [hnext]
  cases asRecord ((Value.obj true previous).read id) with
  | none => exact hfield
  | some previousItem =>
      dsimp only
      cases diffFields previousItem (.obj true ns) with
      | none => trivial
      | some patch =>
          rw [Option.map_some, Option.getD_some]
          split
          · trivial
          · rfl

/-- The operations of one kind, on its own state. -/
def applyItems (clientID : ℚ) (previous next : List (JsString × Value)) (s : ItemState) :
    ItemState :=
  (updates previous next).foldl (fun s operation => stepItem s operation clientID)
    ((deletedIds previous next).foldl (fun s id => dropItem s id clientID) s)

theorem applyItems_spec (previous : List (JsString × Value)) {next : List (JsString × Value)}
    (hnext : CanonicalItems next) {s : ItemState} (h : Sound clientID s) :
    Sound clientID (applyItems clientID previous next s) ∧
      (deletedIds previous next = [] → (applyItems clientID previous next s).order = s.order) ∧
      ∀ j, Assoc.get j (applyItems clientID previous next s).items =
        let kept := if j ∈ deletedIds previous next then none else Assoc.get j s.items
        if j ∈ Assoc.keys next then slotAfter j (updateOf previous next j) kept else kept := by
  obtain ⟨hdel, hgetDel⟩ := foldl_deletes_spec (deletedIds previous next) h
  have hnodup : (sortKeys (Assoc.keys next)).Nodup :=
    (perm_sortKeys _).nodup_iff.mpr hnext.json.obj_inv.2.1
  obtain ⟨hsound, horder, hget⟩ := foldl_updates_spec hnodup
    (fun id hid => operationFor_updateOf hnext previous (mem_sortKeys.mp hid)) hdel
  refine ⟨hsound, ?_, ?_⟩
  · intro hnone
    rw [hnone] at horder
    rw [applyItems, hnone]
    exact horder
  · intro j
    have := hget j
    rw [hgetDel j] at this
    simp only [mem_sortKeys] at this
    exact this

/-- Reading a map back as a record, id by id. -/
theorem sameJson_map_iff {items : List (JsString × Node)} {inherits : Bool}
    {next : List (JsString × Value)} :
    SameJson (toValue (.map items)) (.obj inherits next) ↔
      dunderProto ∉ Assoc.keys next ∧
      (∀ id, id ≠ dunderProto → id ∉ Assoc.keys next → Assoc.get id items = none) ∧
      ∀ id v, Assoc.get id next = some v → Reads (Assoc.get id items) v := by
  rw [toValue, sameJson_obj_iff]
  simp only [get_toValue_entries]
  constructor
  · rintro ⟨hkeys, hvals⟩
    have hnot : dunderProto ∉ Assoc.keys next := by
      have := hkeys dunderProto
      rw [if_pos rfl] at this
      rw [← Assoc.get_isSome_iff, ← this]
      simp
    refine ⟨hnot, ?_, ?_⟩
    · intro id hne hid
      have := hkeys id
      rw [if_neg hne, Option.isSome_map, Assoc.get_eq_none_iff.mpr hid] at this
      simpa using this
    · intro id v hv
      have hne : id ≠ dunderProto := by
        rintro rfl
        exact hnot (Assoc.get_isSome_iff.mp (by simp [hv]))
      have := hkeys id
      rw [if_neg hne, Option.isSome_map, hv, Option.isSome_some, Option.isSome_iff_exists] at this
      obtain ⟨node, hnode⟩ := this
      refine ⟨node, hnode, hvals id _ v ?_ hv⟩
      rw [if_neg hne, hnode]
      rfl
  · rintro ⟨hnot, habsent, hreads⟩
    refine ⟨?_, ?_⟩
    · intro id
      cases hv : Assoc.get id next with
      | none =>
          by_cases hne : id = dunderProto
          · rw [if_pos hne]
          · rw [if_neg hne, habsent id hne (Assoc.get_eq_none_iff.mp hv)]
            rfl
      | some v =>
          have hne : id ≠ dunderProto := by
            rintro rfl
            exact hnot (Assoc.get_isSome_iff.mp (by simp [hv]))
          obtain ⟨node, hnode, -⟩ := hreads id v hv
          rw [if_neg hne, hnode]
          rfl
    · intro id w v hw hv
      obtain ⟨node, hnode, hsame⟩ := hreads id v hv
      split at hw
      · cases hw
      · rw [hnode] at hw
        exact Option.some.inj hw ▸ hsame

/-- The shared map for the items of a canvas. -/
structure Holds (items : List (JsString × Node)) (previous : List (JsString × Value)) : Prop where
  wf : Assoc.Wf items
  no_proto : dunderProto ∉ Assoc.keys items
  maps : ∀ id node, Assoc.get id items = some node → ∃ fields, node = .map fields
  same : SameJson (toValue (.map items)) (.obj true previous)

theorem Holds.get_eq_none {items : List (JsString × Node)} {previous : List (JsString × Value)}
    (h : Holds items previous) {id : JsString} (hid : id ∉ Assoc.keys previous) :
    Assoc.get id items = none := by
  by_cases hne : id = dunderProto
  · exact Assoc.get_eq_none_iff.mpr (hne ▸ h.no_proto)
  · exact (sameJson_map_iff.mp h.same).2.1 id hne hid

theorem Holds.fields {items : List (JsString × Node)} {previous : List (JsString × Value)}
    (h : Holds items previous) {id : JsString} {ps : List (JsString × Value)}
    (hps : Assoc.get id previous = some (.obj true ps)) :
    ∃ fields, Assoc.get id items = some (.map fields) ∧
      SameJson (toValue (.map fields)) (.obj true ps) := by
  obtain ⟨node, hnode, hsame⟩ := (sameJson_map_iff.mp h.same).2.2 id _ hps
  obtain ⟨fields, rfl⟩ := h.maps id node hnode
  exact ⟨fields, hnode, hsame⟩

/-- What the operations of one kind need to lead from `previous` to `next`, on the
items `start` that node deletions have left of `items`. -/
structure ItemsApply (items start : List (JsString × Node))
    (previous next : List (JsString × Value)) : Prop where
  no_proto : dunderProto ∉ Assoc.keys next
  deletions : ∀ id ∈ Assoc.keys previous, id ∉ Assoc.keys next → id ∈ prototypeNames →
    Assoc.get id start = none
  kept : ∀ id ∈ Assoc.keys previous, id ∈ Assoc.keys next → Assoc.get id start ≠ none
  creations : [] ∈ Assoc.keys next → [] ∈ Assoc.keys previous
  patches : ∀ id fields ps ns, Assoc.get id items = some (.map fields) →
    Assoc.get id previous = some (.obj true ps) → Assoc.get id next = some (.obj true ns) →
    FieldsApply fields ps ns
  creates : ∀ id ns, Assoc.get id previous = none → Assoc.get id next = some (.obj true ns) →
    FieldsApply [] [] ns

theorem mem_deletedIds {previous next : List (JsString × Value)} {id : JsString} :
    id ∈ deletedIds previous next ↔
      id ∈ Assoc.keys previous ∧ id ∉ Assoc.keys next ∧ id ∉ prototypeNames := by
  rw [deletedIds, List.mem_filter, mem_sortKeys]
  by_cases hid : id ∈ Assoc.keys next
  · obtain ⟨v, hv⟩ := Option.isSome_iff_exists.mp (Assoc.get_isSome_iff.mpr hid)
    simp [hid, Value.hasKey_of_own (v := .obj true next) hv]
  · rw [Value.hasKey_of_own_eq_none (Assoc.get_eq_none_iff.mpr hid)]
    simp [hid]

/-- The part of `ItemsApply` that is about one id of `next`. -/
structure ItemApplies (items start : List (JsString × Node)) (previous : List (JsString × Value))
    (id : JsString) (ns : List (JsString × Value)) : Prop where
  kept : id ∈ Assoc.keys previous → Assoc.get id start ≠ none
  creation : id = [] → id ∈ Assoc.keys previous
  patches : ∀ fields ps, Assoc.get id items = some (.map fields) →
    Assoc.get id previous = some (.obj true ps) → FieldsApply fields ps ns
  creates : Assoc.get id previous = none → FieldsApply [] [] ns

section OneKind

variable {items : List (JsString × Node)} {previous next : List (JsString × Value)}
  {s : ItemState} (hs : Sound clientID s)
  (hstart : ∀ id, Assoc.get id s.items = none ∨ Assoc.get id s.items = Assoc.get id items)
  (hholds : Holds items previous) (hprev : CanonicalItems previous) (hnext : CanonicalItems next)
include hstart hholds hprev hnext

/-- One id of the new canvas. -/
theorem reads_updateOf_iff {id : JsString} {ns : List (JsString × Value)}
    (hget : Assoc.get id next = some (.obj true ns)) (hne : id ≠ dunderProto) :
    ((diffItem (.obj true previous) (.obj true next) id).isSome ∧
      Reads (slotAfter id (updateOf previous next id) (Assoc.get id s.items)) (.obj true ns)) ↔
      ItemApplies items s.items previous id ns := by
  have hmem : id ∈ Assoc.keys next := Assoc.get_isSome_iff.mp (by simp [hget])
  obtain ⟨ns', hns, hfield, hjson⟩ := hnext.get hmem
  obtain rfl : ns = ns' := by simpa [hget] using hns
  have hsplit : ∀ slot,
      ((diffItem (.obj true previous) (.obj true next) id).isSome ∧
        Reads (slotAfter id (updateOf previous next id) slot) (.obj true ns)) ↔
      ∃ operation, diffItem (.obj true previous) (.obj true next) id = some operation ∧
        Reads (slotAfter id operation slot) (.obj true ns) := by
    intro slot
    unfold updateOf
    cases diffItem (.obj true previous) (.obj true next) id <;> simp
  rw [hsplit]
  by_cases hid : id ∈ Assoc.keys previous
  · obtain ⟨ps, hps, hfieldp, hjsonp⟩ := hprev.get hid
    obtain ⟨fields, hfields, hsame⟩ := hholds.fields hps
    rcases hstart id with hnone | hsome
    · -- the slot is gone, and a patch does not bring it back
      rw [hnone, diffItem_of_previous hget hps]
      refine iff_of_false ?_ fun h => h.kept hid hnone
      rintro ⟨operation, hop, hreads⟩
      obtain ⟨patch, -, rfl⟩ := Option.map_eq_some_iff.mp hop
      split at hreads
      · obtain ⟨node, hnode, -⟩ := hreads
        cases hnode
      · obtain ⟨node, hnode, -⟩ := hreads
        cases hnode
    · rw [hsome, hfields, reads_slotAfter_of_previous hget hjson hfield hjsonp hfieldp hps hsame]
      constructor
      · intro h
        refine ⟨by simp [hsome, hfields], fun _ => hid, ?_, by simp [hps]⟩
        intro fields' ps' hfields' hps'
        rw [hps, Option.some_inj] at hps'
        cases hps'
        rw [hfields, Option.some_inj] at hfields'
        cases hfields'
        exact h
      · exact fun h => h.patches fields ps hfields hps
  · have hprevNone : Assoc.get id previous = none := Assoc.get_eq_none_iff.mpr hid
    have hslot : Assoc.get id s.items = none := by
      rcases hstart id with hnone | hsome
      · exact hnone
      · rw [hsome, hholds.get_eq_none hid]
    rw [hslot, reads_slotAfter_of_created hget hjson hfield hne hprevNone]
    constructor
    · rintro ⟨hempty, hfields⟩
      exact ⟨fun h => absurd h hid, fun h => absurd h hempty, by simp [hprevNone],
        fun _ => hfields⟩
    · intro h
      exact ⟨fun hempty => hid (h.creation hempty), h.creates hprevNone⟩

include hs

/-- The operations of one kind lead to the new items exactly when `ItemsApply`
holds. -/
theorem sameJson_applyItems_iff :
    ((∀ id ∈ Assoc.keys next, (diffItem (.obj true previous) (.obj true next) id).isSome) ∧
      SameJson (toValue (.map (applyItems clientID previous next s).items)) (.obj true next)) ↔
      ItemsApply items s.items previous next := by
  obtain ⟨-, -, hget⟩ := applyItems_spec previous hnext hs
  -- an id of `next` is not deleted
  have hgetNext : ∀ id ∈ Assoc.keys next, Assoc.get id (applyItems clientID previous next s).items
      = slotAfter id (updateOf previous next id) (Assoc.get id s.items) := by
    intro id hid
    have hnot : id ∉ deletedIds previous next := fun h => (mem_deletedIds.mp h).2.1 hid
    rw [hget id, if_pos hid, if_neg hnot]
  have hgetOther : ∀ id, id ∉ Assoc.keys next →
      Assoc.get id (applyItems clientID previous next s).items =
        if id ∈ deletedIds previous next then none else Assoc.get id s.items := by
    intro id hid
    rw [hget id, if_neg hid]
  have hmem : ∀ {id v}, Assoc.get id next = some v → id ∈ Assoc.keys next :=
    fun h => Assoc.get_isSome_iff.mp (by simp [h])
  rw [sameJson_map_iff]
  constructor
  · rintro ⟨hsome, hproto, habsent, hreads⟩
    have hone : ∀ id ns, Assoc.get id next = some (.obj true ns) →
        ItemApplies items s.items previous id ns := by
      intro id ns hns
      have hne : id ≠ dunderProto := fun h => hproto (h ▸ hmem hns)
      apply (reads_updateOf_iff hstart hholds hprev hnext hns hne).mp
      refine ⟨hsome id (hmem hns), ?_⟩
      rw [← hgetNext id (hmem hns)]
      exact hreads id _ hns
    refine ⟨hproto, ?_, ?_, ?_, ?_, ?_⟩
    · intro id hid hnot hname
      have hne : id ≠ dunderProto := by
        rintro rfl
        exact (sameJson_map_iff.mp hholds.same).1 hid
      have := habsent id hne hnot
      rwa [hgetOther id hnot, if_neg fun h => (mem_deletedIds.mp h).2.2 hname] at this
    · intro id hid hidn
      obtain ⟨ns, hns, -⟩ := hnext.get hidn
      exact (hone id ns hns).kept hid
    · intro hidn
      obtain ⟨ns, hns, -⟩ := hnext.get hidn
      exact (hone [] ns hns).creation rfl
    · intro id fields ps ns hfields hps hns
      exact (hone id ns hns).patches fields ps hfields hps
    · intro id ns hps hns
      exact (hone id ns hns).creates hps
  · intro h
    have hone : ∀ id ns, Assoc.get id next = some (.obj true ns) →
        (diffItem (.obj true previous) (.obj true next) id).isSome ∧
          Reads (slotAfter id (updateOf previous next id) (Assoc.get id s.items))
            (.obj true ns) := by
      intro id ns hns
      have hne : id ≠ dunderProto := fun hid => h.no_proto (hid ▸ hmem hns)
      apply (reads_updateOf_iff hstart hholds hprev hnext hns hne).mpr
      refine ⟨fun hid => h.kept id hid (hmem hns), ?_, ?_, ?_⟩
      · rintro rfl
        exact h.creations (hmem hns)
      · exact fun fields ps hfields hps => h.patches id fields ps ns hfields hps hns
      · exact fun hps => h.creates id ns hps hns
    refine ⟨?_, h.no_proto, ?_, ?_⟩
    · intro id hid
      obtain ⟨ns, hns, -⟩ := hnext.get hid
      exact (hone id ns hns).1
    · intro id _ hnot
      rw [hgetOther id hnot]
      split
      · rfl
      · rename_i hkeep
        by_cases hid : id ∈ Assoc.keys previous
        · apply h.deletions id hid hnot
          by_contra hname
          exact hkeep (mem_deletedIds.mpr ⟨hid, hnot, hname⟩)
        · rcases hstart id with hnone | hsome
          · exact hnone
          · rw [hsome, hholds.get_eq_none hid]
    · intro id v hv
      obtain ⟨ns, hns, -⟩ := hnext.get (hmem hv)
      obtain rfl : v = .obj true ns := by simpa [hv] using hns
      rw [hgetNext id (hmem hv)]
      exact (hone id ns hns).2

end OneKind

/-! ## The orders -/

/-- An order array with the given ids. -/
def orderNodes (ids : List JsString) : List Node := ids.map fun id => .plain (.str id)

/-- A value that is no array and no record. -/
def Primitive : Value → Prop
  | .arr _ | .obj _ _ => False
  | _ => True

/-- Primitive values are plain in an array, whatever was there before. -/
theorem reconcileArray_primitive (old : List Node) {values : List Value}
    (h : ∀ v ∈ values, Primitive v) : (reconcileArray {} old values).1 = values.map .plain := by
  have hitems : ∀ index old, (reconcileItems {} index old values).1 = values.map .plain := by
    induction values with
    | nil => exact fun _ _ => rfl
    | cons v values ih =>
        intro index old
        have hv := h v List.mem_cons_self
        rw [reconcileItems]
        dsimp only
        rw [ih fun w hw => h w (List.mem_cons_of_mem _ hw)]
        cases v with
        | arr _ | obj _ _ => exact hv.elim
        | _ => rfl
  exact hitems 0 old

theorem writeOrder_eq (order : List Node) (ids : List JsString) :
    writeOrder order ids = orderNodes ids := by
  rw [writeOrder, reconcileArray_primitive, orderNodes, List.map_map]
  · rfl
  · intro v hv
    obtain ⟨id, -, rfl⟩ := List.mem_map.mp hv
    trivial

theorem orderStrings_orderNodes (ids : List JsString) : orderStrings (orderNodes ids) = ids := by
  induction ids with
  | nil => rfl
  | cons id ids ih =>
      rw [orderNodes, List.map_cons, orderStrings, List.filterMap_cons]
      exact congrArg (id :: ·) ih

theorem toValue_orderNodes (ids : List JsString) :
    toValue (.array (orderNodes ids)) = .arr (ids.map .str) := by
  rw [toValue, toValue_items, orderNodes, List.map_map]
  rfl

theorem validOrder_loop {items : List (JsString × Node)} {order : List JsString}
    (hlive : ∀ id ∈ order, id ∈ Assoc.keys items) {result : List JsString}
    (hnodup : (result ++ order).Nodup) :
    order.foldl (fun result id =>
      if id ∈ Assoc.keys items ∧ id ∉ result then result ++ [id] else result) result =
      result ++ order := by
  induction order generalizing result with
  | nil => simp
  | cons id order ih =>
      have hfresh : id ∉ result := by
        rw [List.nodup_append] at hnodup
        exact fun hid => hnodup.2.2 id hid id List.mem_cons_self rfl
      have hassoc : result ++ id :: order = result ++ [id] ++ order := by simp
      rw [List.foldl_cons, if_pos ⟨hlive id List.mem_cons_self, hfresh⟩, hassoc]
      apply ih fun j hj => hlive j (List.mem_cons_of_mem _ hj)
      rw [← hassoc]
      exact hnodup

/-- A permutation of the live ids is already canonical. -/
theorem validOrder_of_perm {items : List (JsString × Node)} {order : List JsString}
    (hwf : Assoc.Wf items) (hperm : order.Perm (Assoc.keys items)) :
    validOrder order items = order := by
  have hnodup : order.Nodup := hperm.nodup_iff.mpr hwf
  have hnil : ([] ++ order).Nodup := by simpa
  have hloop := validOrder_loop (fun id hid => hperm.mem_iff.mp hid) hnil
  have hrest : (sortKeys (Assoc.keys items)).filter (fun id => id ∉ order) = [] := by
    apply List.filter_eq_nil_iff.mpr
    intro id hid
    rw [mem_sortKeys, ← hperm.mem_iff] at hid
    simpa using hid
  unfold validOrder
  rw [hloop, List.nil_append]
  dsimp only
  rw [hrest, List.append_nil]

/-- One kind of item after `canonicalizeCanvasOrders`. -/
def ItemState.canonicalize (s : ItemState) : ItemState :=
  { s with order := (canonicalizeOrder s.order s.items).1 }

theorem canonicalize_of_perm {s : ItemState} {order : List JsString} (hwf : Assoc.Wf s.items)
    (horder : s.order = orderNodes order) (hperm : order.Perm (Assoc.keys s.items)) :
    s.canonicalize = s := by
  unfold ItemState.canonicalize canonicalizeOrder
  rw [horder, orderStrings_orderNodes, validOrder_of_perm hwf hperm]
  rw [if_pos ⟨by simp [orderNodes], rfl⟩, ← horder]

theorem equalJson_strs_iff {xs ys : List JsString} :
    equalJson (.arr (xs.map .str)) (.arr (ys.map .str)) = true ↔ xs = ys := by
  have hitems : ∀ {xs ys : List JsString}, xs.length = ys.length →
      (equalJson.items (xs.map .str) (ys.map .str) = true ↔ xs = ys) := by
    intro xs
    induction xs with
    | nil =>
        intro ys hlen
        obtain rfl : ys = [] := List.eq_nil_of_length_eq_zero hlen.symm
        simp [equalJson.items]
    | cons x xs ih =>
        intro ys hlen
        cases ys with
        | nil => cases hlen
        | cons y ys =>
            rw [List.length_cons, List.length_cons, Nat.add_right_cancel_iff] at hlen
            simp [equalJson.items, equalJson, Value.strictEq, ih hlen]
  rw [equalJson, List.length_map, List.length_map, Bool.and_eq_true, beq_iff_eq]
  constructor
  · exact fun h => (hitems h.1).mp h.2
  · rintro rfl
    exact ⟨rfl, (hitems rfl).mpr rfl⟩

/-! ## The whole diff -/

/-- The order array holds strings and nothing else. -/
def Strings (s : ItemState) : Prop := ∃ ids, s.order = orderNodes ids

theorem plainValues_orderNodes (ids : List JsString) :
    plainValues (orderNodes ids) = some (ids.map .str) := by
  rw [plainValues, mapM_eq_some_iff, orderNodes, List.map_map, List.map_map]
  rfl

/-- Deleting from an order of strings writes the other strings. -/
theorem deleteItem_of_strings (clientID : ℚ) {s : ItemState} (h : Strings s) (id : JsString) :
    deleteItem s id clientID = some (dropItem s id clientID) ∧
      Strings (dropItem s id clientID) := by
  obtain ⟨ids, hids⟩ := h
  unfold deleteItem dropItem
  split
  · exact ⟨rfl, ids, hids⟩
  · have hfilter : (ids.map Value.str).filter (fun v => !v.strictEq (.str id)) =
        (ids.filter fun candidate => candidate ≠ id).map .str := by
      rw [List.filter_map]
      congr 1
      apply List.filter_congr
      intro candidate _
      by_cases hid : candidate = id <;> simp [Value.strictEq, hid]
    rw [hids, plainValues_orderNodes, Option.map_some, hfilter, orderStrings_orderNodes]
    exact ⟨rfl, _, writeOrder_eq _ _⟩

theorem deleteConnectedEdges_of_strings (clientID : ℚ) {s : ItemState} (h : Strings s)
    (nodeId : JsString) :
    deleteConnectedEdges s nodeId clientID = some (dropConnectedEdges s nodeId clientID) ∧
      Strings (dropConnectedEdges s nodeId clientID) :=
  OptionFold.foldlM_eq_some_foldl (fun _ e _ hs => deleteItem_of_strings clientID hs e.1) h

theorem restoreItem_order (s : ItemState) (item : List (JsString × Value)) :
    (restoreItem s item).order = s.order := by
  unfold restoreItem
  split <;> rfl

theorem createItem_order (s : ItemState) (item : List (JsString × Value)) :
    (createItem s item clientID).order = s.order := by
  unfold createItem
  split
  · rfl
  · split
    · rfl
    · rfl
    · split <;> rfl

theorem applyItemOperation_of_strings (clientID : ℚ) {s : ItemState} (h : Strings s)
    (operation : ItemOperation) :
    applyItemOperation s operation clientID = some (stepItem s operation clientID) ∧
      Strings (stepItem s operation clientID) := by
  cases operation with
  | create item => exact ⟨rfl, h.imp fun ids hids => (createItem_order s item).trans hids⟩
  | patch id patch => exact ⟨rfl, h⟩
  | delete id => exact deleteItem_of_strings clientID h id
  | restore item => exact ⟨rfl, h.imp fun ids hids => (restoreItem_order s item).trans hids⟩

/-- `applyOperation` on order arrays of strings. -/
def step (clientID : ℚ) (s : CanvasState) (operation : CanvasOperation) : CanvasState :=
  match operation with
  | .item .node (.delete id) =>
      { nodes := dropItem s.nodes id clientID
        edges := dropConnectedEdges s.edges id clientID }
  | .item .node operation => { s with nodes := stepItem s.nodes operation clientID }
  | .item .edge operation => { s with edges := stepItem s.edges operation clientID }
  | .order .node order => { s with nodes := applyOrder s.nodes order }
  | .order .edge order => { s with edges := applyOrder s.edges order }

theorem applyOperation_of_strings (clientID : ℚ) {s : CanvasState}
    (h : Strings s.nodes ∧ Strings s.edges) (operation : CanvasOperation) :
    applyOperation clientID s operation = some (step clientID s operation) ∧
      Strings (step clientID s operation).nodes ∧ Strings (step clientID s operation).edges := by
  obtain ⟨hnodes, hedges⟩ := h
  cases operation with
  | item kind operation =>
      cases kind with
      | node =>
          obtain ⟨hone, hone'⟩ := applyItemOperation_of_strings clientID hnodes operation
          cases operation with
          | delete id =>
              obtain ⟨hdel, -⟩ := deleteItem_of_strings clientID hnodes id
              obtain ⟨hcut, hcut'⟩ := deleteConnectedEdges_of_strings clientID hedges id
              refine ⟨?_, hone', hcut'⟩
              simp only [applyOperation, hdel, hcut]
              rfl
          | _ =>
              refine ⟨?_, hone', hedges⟩
              simp only [applyOperation, hone]
              rfl
      | edge =>
          obtain ⟨hone, hone'⟩ := applyItemOperation_of_strings clientID hedges operation
          refine ⟨?_, hnodes, hone'⟩
          simp only [applyOperation, hone]
          rfl
  | order kind order =>
      cases kind with
      | node => exact ⟨rfl, ⟨_, writeOrder_eq _ _⟩, hedges⟩
      | edge => exact ⟨rfl, hnodes, ⟨_, writeOrder_eq _ _⟩⟩

theorem loadRoot_canonicalizeCanvasOrders (s : CanvasState) :
    loadRoot (canonicalizeCanvasOrders (storeRoot s)).1 =
      ⟨s.nodes.canonicalize, s.edges.canonicalize⟩ := rfl

/-- All operations succeed on order arrays of strings. -/
theorem applyCanvasOperations_of_strings (clientID : ℚ) {root : CanvasRoot}
    (hnodes : Strings (loadRoot root).nodes) (hedges : Strings (loadRoot root).edges)
    (operations : List CanvasOperation) :
    let s := operations.foldl (step clientID) (loadRoot root)
    applyCanvasOperations root operations clientID =
      some (canonicalizeCanvasOrders (storeRoot s)).1 := by
  have hfold : operations.foldlM (applyOperation clientID) (loadRoot root) =
      some (operations.foldl (step clientID) (loadRoot root)) :=
    (OptionFold.foldlM_eq_some_foldl (P := fun s => Strings s.nodes ∧ Strings s.edges)
      (fun _ operation _ hs => applyOperation_of_strings clientID hs operation)
      ⟨hnodes, hedges⟩).1
  rw [applyCanvasOperations, hfold]
  rfl

def reorder (previous next : List JsString) (s : ItemState) : ItemState :=
  if previous = next then s else applyOrder s next

theorem foldl_nodeDeletes (ids : List JsString) (s : CanvasState) :
    (ids.map fun id => CanvasOperation.item .node (.delete id)).foldl (step clientID) s =
      ⟨ids.foldl (fun s id => dropItem s id clientID) s.nodes,
        ids.foldl (fun s id => dropConnectedEdges s id clientID) s.edges⟩ := by
  induction ids generalizing s with
  | nil => rfl
  | cons id ids ih =>
      rw [List.map_cons, List.foldl_cons, ih]
      rfl

theorem foldl_nodeUpdates {operations : List ItemOperation}
    (h : ∀ operation ∈ operations, ∃ id, OperationFor id (some operation)) (s : CanvasState) :
    (operations.map (CanvasOperation.item .node)).foldl (step clientID) s =
      ⟨operations.foldl (fun s operation => stepItem s operation clientID) s.nodes,
        s.edges⟩ := by
  induction operations generalizing s with
  | nil => rfl
  | cons operation operations ih =>
      have hone : step clientID s (.item .node operation) =
          ⟨stepItem s.nodes operation clientID, s.edges⟩ := by
        obtain ⟨id, hop⟩ := h operation List.mem_cons_self
        cases operation with
        | delete id => exact hop.elim
        | _ => rfl
      rw [List.map_cons, List.foldl_cons, hone,
        ih fun op hop => h op (List.mem_cons_of_mem _ hop)]
      rfl

theorem foldl_edgeOperations (operations : List ItemOperation) (s : CanvasState) :
    (operations.map (CanvasOperation.item .edge)).foldl (step clientID) s =
      ⟨s.nodes,
        operations.foldl (fun s operation => stepItem s operation clientID) s.edges⟩ := by
  induction operations generalizing s with
  | nil => rfl
  | cons operation operations ih =>
      rw [List.map_cons, List.foldl_cons, ih]
      rfl

theorem foldl_diffOrder_node (previous next : List JsString) (s : CanvasState) :
    (diffOrder .node previous next).foldl (step clientID) s =
      ⟨reorder previous next s.nodes, s.edges⟩ := by
  unfold diffOrder reorder
  simp only [equalJson_strs_iff]
  split <;> rfl

theorem foldl_diffOrder_edge (previous next : List JsString) (s : CanvasState) :
    (diffOrder .edge previous next).foldl (step clientID) s =
      ⟨s.nodes, reorder previous next s.edges⟩ := by
  unfold diffOrder reorder
  simp only [equalJson_strs_iff]
  split <;> rfl

/-- What the deleted nodes of a diff leave of the edges. -/
def cascade (clientID : ℚ) (previous next : StructuredCanvas) (edges : ItemState) : ItemState :=
  (deletedIds previous.nodes next.nodes).foldl
    (fun s nodeId => dropConnectedEdges s nodeId clientID) edges

theorem diffCanvas_eq_some_iff {previous next : StructuredCanvas}
    {operations : List CanvasOperation} :
    diffCanvas previous next = some operations ↔
      ∃ nodes edges, diffItems (.obj true previous.nodes) (.obj true next.nodes) = some nodes ∧
        diffItems (.obj true previous.edges) (.obj true next.edges) = some edges ∧
        operations = nodes.map (.item .node) ++ edges.map (.item .edge) ++
          diffOrder .node previous.nodeOrder next.nodeOrder ++
          diffOrder .edge previous.edgeOrder next.edgeOrder := by
  unfold diffCanvas
  simp only [Option.bind_eq_bind, Option.bind_eq_some_iff, Option.pure_def, Option.some_inj]
  constructor
  · rintro ⟨nodes, hnodes, edges, hedges, rfl⟩
    exact ⟨nodes, edges, hnodes, hedges, rfl⟩
  · rintro ⟨nodes, edges, hnodes, hedges, rfl⟩
    exact ⟨nodes, hnodes, edges, hedges, rfl⟩

/-- The operations of a diff, kind by kind. -/
theorem foldl_step_diff {previous next : StructuredCanvas}
    (hnext : CanonicalItems next.nodes) {operations : List CanvasOperation}
    (h : diffCanvas previous next = some operations) (s : CanvasState) :
    operations.foldl (step clientID) s =
      ⟨reorder previous.nodeOrder next.nodeOrder
          (applyItems clientID previous.nodes next.nodes s.nodes),
        reorder previous.edgeOrder next.edgeOrder
          (applyItems clientID previous.edges next.edges
            (cascade clientID previous next s.edges))⟩ := by
  obtain ⟨nodes, edges, hnodes, hedges, rfl⟩ := diffCanvas_eq_some_iff.mp h
  obtain ⟨-, rfl⟩ := diffItems_eq_some_iff.mp hnodes
  obtain ⟨-, rfl⟩ := diffItems_eq_some_iff.mp hedges
  have hupdates : ∀ operation ∈ updates previous.nodes next.nodes,
      ∃ id, OperationFor id (some operation) := by
    intro operation hop
    rw [updates, List.reduceOption_mem_iff, List.mem_map] at hop
    obtain ⟨id, hid, hop⟩ := hop
    exact ⟨id, hop ▸ operationFor_updateOf hnext previous.nodes (mem_sortKeys.mp hid)⟩
  have hdeletes : ((deletedIds previous.nodes next.nodes).map ItemOperation.delete).map
      (CanvasOperation.item .node) =
      (deletedIds previous.nodes next.nodes).map fun id => .item .node (.delete id) := by
    rw [List.map_map]
    rfl
  have hedgeFold : ∀ s : ItemState,
      ((deletedIds previous.edges next.edges).map ItemOperation.delete ++
        updates previous.edges next.edges).foldl
        (fun s operation => stepItem s operation clientID) s =
        applyItems clientID previous.edges next.edges s := by
    intro s
    rw [List.foldl_append, List.foldl_map]
    rfl
  rw [List.map_append, List.foldl_append, List.foldl_append, List.foldl_append, List.foldl_append,
    hdeletes, foldl_nodeDeletes, foldl_nodeUpdates hupdates, foldl_edgeOperations, hedgeFold,
    foldl_diffOrder_node, foldl_diffOrder_edge]
  rfl

theorem reorder_items (previous next : List JsString) (s : ItemState) :
    (reorder previous next s).items = s.items := by
  unfold reorder
  split <;> rfl

/-- The order array, once the items are right. -/
theorem order_canonicalize_reorder {s : ItemState} {previousOrder nextOrder : List JsString}
    {next : List (JsString × Value)} (hwf : Assoc.Wf s.items)
    (hproto : dunderProto ∉ Assoc.keys s.items) (hwfNext : Assoc.Wf next)
    (hperm : nextOrder.Perm (Assoc.keys next))
    (hsame : SameJson (toValue (.map s.items)) (.obj true next))
    (horder : previousOrder = nextOrder → s.order = orderNodes previousOrder) :
    (reorder previousOrder nextOrder s).canonicalize.order = orderNodes nextOrder := by
  obtain ⟨hprotoNext, habsent, hreads⟩ := sameJson_map_iff.mp hsame
  have hkeys : ∀ id, id ∈ Assoc.keys s.items ↔ id ∈ Assoc.keys next := by
    intro id
    by_cases hne : id = dunderProto
    · rw [hne]
      exact iff_of_false hproto hprotoNext
    constructor
    · intro hid
      by_contra hnot
      exact Assoc.get_eq_none_iff.mp (habsent id hne hnot) hid
    · intro hid
      obtain ⟨v, hv⟩ := Option.isSome_iff_exists.mp (Assoc.get_isSome_iff.mpr hid)
      obtain ⟨node, hnode, -⟩ := hreads id v hv
      exact Assoc.get_isSome_iff.mp (by simp [hnode])
  have hpermItems : nextOrder.Perm (Assoc.keys s.items) :=
    hperm.trans ((List.perm_ext_iff_of_nodup hwfNext hwf).mpr fun id => (hkeys id).symm)
  have hreordered : (reorder previousOrder nextOrder s).order = orderNodes nextOrder := by
    unfold reorder
    split
    · rename_i heq
      rw [horder heq, heq]
    · show writeOrder s.order (validOrder nextOrder s.items) = _
      rw [writeOrder_eq, validOrder_of_perm hwf hpermItems]
  have hitems := reorder_items previousOrder nextOrder s
  rw [canonicalize_of_perm (hitems ▸ hwf) hreordered (hitems ▸ hpermItems), hreordered]

/-- A canvas as `parseCanvas` makes it. -/
structure Canonical (canvas : StructuredCanvas) : Prop where
  nodes : CanonicalItems canvas.nodes
  edges : CanonicalItems canvas.edges
  nodeOrder : canvas.nodeOrder.Perm (Assoc.keys canvas.nodes)
  edgeOrder : canvas.edgeOrder.Perm (Assoc.keys canvas.edges)
  joins : ∀ id fields, Assoc.get id canvas.edges = some (.obj true fields) →
    ∃ source target, source ∈ Assoc.keys canvas.nodes ∧ target ∈ Assoc.keys canvas.nodes ∧
      Assoc.get (ascii "fromNode") fields = some (.str source) ∧
      Assoc.get (ascii "toNode") fields = some (.str target)

/-- The shared types of one kind hold the items and the order of a canvas, and no
tombstone of another client. -/
structure HoldsKind (clientID : ℚ) (s : ItemState) (items : List (JsString × Value))
    (order : List JsString) : Prop where
  items : Holds s.items items
  order : s.order = orderNodes order
  stones : ∀ id stone, Assoc.get id s.tombstones = some stone → stone = .plain (.num clientID)

structure Represents (clientID : ℚ) (root : CanvasRoot) (canvas : StructuredCanvas) : Prop where
  nodes : HoldsKind clientID (loadRoot root).nodes canvas.nodes canvas.nodeOrder
  edges : HoldsKind clientID (loadRoot root).edges canvas.edges canvas.edgeOrder

/-- The shared types read back as a canvas. -/
structure ReadsAs (s : CanvasState) (canvas : StructuredCanvas) : Prop where
  nodes : SameJson (toValue (.map s.nodes.items)) (.obj true canvas.nodes)
  edges : SameJson (toValue (.map s.edges.items)) (.obj true canvas.edges)
  nodeOrder : SameJson (toValue (.array s.nodes.order)) (.arr (canvas.nodeOrder.map .str))
  edgeOrder : SameJson (toValue (.array s.edges.order)) (.arr (canvas.edgeOrder.map .str))

/-- The edges that join none of the nodes the diff deletes. -/
def survivingEdges (previous next : StructuredCanvas) (edges : List (JsString × Node)) :
    List (JsString × Node) :=
  edges.filter fun e => survives (deletedIds previous.nodes next.nodes) e.2

/-- What keeps a diff from reaching its target, kind by kind. -/
structure Applicable (root : CanvasRoot) (previous next : StructuredCanvas) : Prop where
  nodes : ItemsApply (loadRoot root).nodes.items (loadRoot root).nodes.items previous.nodes
    next.nodes
  edges : ItemsApply (loadRoot root).edges.items
    (survivingEdges previous next (loadRoot root).edges.items) previous.edges next.edges

theorem HoldsKind.sound {s : ItemState} {items : List (JsString × Value)} {order : List JsString}
    (h : HoldsKind clientID s items order) : Sound clientID s :=
  ⟨h.items.wf, h.stones⟩

theorem cascade_spec (previous next : StructuredCanvas) {edges : ItemState}
    (h : Sound clientID edges) :
    Sound clientID (cascade clientID previous next edges) ∧
      ∀ id, Assoc.get id (cascade clientID previous next edges).items =
        Assoc.get id (survivingEdges previous next edges.items) := by
  obtain ⟨hsound, hget⟩ :=
    foldl_dropConnectedEdges_spec (deletedIds previous.nodes next.nodes) h
  refine ⟨hsound, ?_⟩
  intro id
  rw [survivingEdges, Assoc.get_filter_value h.wf]
  exact hget id

theorem itemsApply_congr {items start start' : List (JsString × Node)}
    {previous next : List (JsString × Value)}
    (h : ∀ id, Assoc.get id start = Assoc.get id start') :
    ItemsApply items start previous next ↔ ItemsApply items start' previous next := by
  constructor
  · rintro ⟨h1, h2, h3, h4, h5, h6⟩
    simp only [h] at h2 h3
    exact ⟨h1, h2, h3, h4, h5, h6⟩
  · rintro ⟨h1, h2, h3, h4, h5, h6⟩
    simp only [← h] at h2 h3
    exact ⟨h1, h2, h3, h4, h5, h6⟩

/-- No deletion when the ids are the same. -/
theorem deletedIds_eq_nil {previous next : List (JsString × Value)}
    (h : ∀ id ∈ Assoc.keys previous, id ∈ Assoc.keys next) : deletedIds previous next = [] := by
  apply List.eq_nil_iff_forall_not_mem.mpr
  intro id hid
  obtain ⟨hprev, hnext, -⟩ := mem_deletedIds.mp hid
  exact hnext (h id hprev)

/-- The items never get a key `__proto__` but from the new canvas. -/
theorem proto_notMem_applyItems {previous next : List (JsString × Value)}
    (hnext : CanonicalItems next) {s : ItemState} (h : Sound clientID s)
    (hproto : dunderProto ∉ Assoc.keys next) (hnone : Assoc.get dunderProto s.items = none) :
    dunderProto ∉ Assoc.keys (applyItems clientID previous next s).items := by
  rw [← Assoc.get_eq_none_iff, (applyItems_spec previous hnext h).2.2, if_neg hproto]
  split
  · rfl
  · exact hnone

theorem readsAs_orderNodes (ids : List JsString) :
    SameJson (toValue (.array (orderNodes ids))) (.arr (ids.map .str)) := by
  rw [toValue_orderNodes, sameJson_arr_iff, List.forall₂_same]
  intro v hv
  obtain ⟨id, -, rfl⟩ := List.mem_map.mp hv
  exact sameJson_str_iff.mpr rfl

section Whole

variable {root : CanvasRoot} {previous next : StructuredCanvas} (hprev : Canonical previous)
  (hnext : Canonical next) (hroot : Represents clientID root previous)
include hprev hnext hroot

/-- The nodes the operations lead to. -/
theorem nodesReach_iff :
    ((∀ id ∈ Assoc.keys next.nodes,
        (diffItem (.obj true previous.nodes) (.obj true next.nodes) id).isSome) ∧
      SameJson (toValue (.map (applyItems clientID previous.nodes next.nodes
        (loadRoot root).nodes).items)) (.obj true next.nodes)) ↔
      ItemsApply (loadRoot root).nodes.items (loadRoot root).nodes.items previous.nodes
        next.nodes :=
  sameJson_applyItems_iff hroot.nodes.sound (fun _ => .inr rfl) hroot.nodes.items hprev.nodes
    hnext.nodes

/-- The edges, of which the node deletions have left some. -/
theorem edgesReach_iff :
    ((∀ id ∈ Assoc.keys next.edges,
        (diffItem (.obj true previous.edges) (.obj true next.edges) id).isSome) ∧
      SameJson (toValue (.map (applyItems clientID previous.edges next.edges
        (cascade clientID previous next (loadRoot root).edges)).items)) (.obj true next.edges)) ↔
      ItemsApply (loadRoot root).edges.items
        (survivingEdges previous next (loadRoot root).edges.items) previous.edges next.edges := by
  obtain ⟨hsound, hget⟩ := cascade_spec previous next hroot.edges.sound
  rw [← itemsApply_congr hget]
  apply sameJson_applyItems_iff hsound _ hroot.edges.items hprev.edges hnext.edges
  intro id
  rw [hget, survivingEdges, Assoc.get_filter_value hroot.edges.items.wf]
  cases Assoc.get id (loadRoot root).edges.items with
  | none => exact .inl rfl
  | some edge =>
      rw [Option.filter_some]
      split
      · exact .inr rfl
      · exact .inl rfl

theorem nodeOrder_reaches
    (happly : ItemsApply (loadRoot root).nodes.items (loadRoot root).nodes.items previous.nodes
      next.nodes) :
    (reorder previous.nodeOrder next.nodeOrder
      (applyItems clientID previous.nodes next.nodes (loadRoot root).nodes)).canonicalize.order =
      orderNodes next.nodeOrder := by
  have hsound := hroot.nodes.sound
  obtain ⟨hafter, horder, -⟩ := applyItems_spec previous.nodes hnext.nodes hsound
  have hproto : Assoc.get dunderProto (loadRoot root).nodes.items = none :=
    Assoc.get_eq_none_iff.mpr hroot.nodes.items.no_proto
  apply order_canonicalize_reorder hafter.wf
    (proto_notMem_applyItems hnext.nodes hsound happly.no_proto hproto)
    hnext.nodes.json.obj_inv.2.1 hnext.nodeOrder ((nodesReach_iff hprev hnext hroot).mpr happly).2
  intro heq
  rw [horder, hroot.nodes.order]
  apply deletedIds_eq_nil
  intro id hid
  exact hnext.nodeOrder.mem_iff.mp (heq ▸ hprev.nodeOrder.mem_iff.mpr hid)

/-- The order of the edges stays as it is when the ids do, for then no node
deletion has taken an edge either. -/
theorem edgeOrder_reaches
    (happly : ItemsApply (loadRoot root).edges.items
      (survivingEdges previous next (loadRoot root).edges.items) previous.edges next.edges) :
    (reorder previous.edgeOrder next.edgeOrder
      (applyItems clientID previous.edges next.edges
        (cascade clientID previous next (loadRoot root).edges))).canonicalize.order =
      orderNodes next.edgeOrder := by
  have hwf := hroot.edges.items.wf
  obtain ⟨hsound, hget⟩ := cascade_spec previous next hroot.edges.sound
  obtain ⟨hafter, horder, -⟩ := applyItems_spec previous.edges hnext.edges hsound
  have hproto : Assoc.get dunderProto
      (cascade clientID previous next (loadRoot root).edges).items = none := by
    rw [hget, survivingEdges, Assoc.get_filter_value hwf,
      Assoc.get_eq_none_iff.mpr hroot.edges.items.no_proto]
    rfl
  apply order_canonicalize_reorder hafter.wf
    (proto_notMem_applyItems hnext.edges hsound happly.no_proto hproto)
    hnext.edges.json.obj_inv.2.1 hnext.edgeOrder ((edgesReach_iff hprev hnext hroot).mpr happly).2
  intro heq
  have hkeys : ∀ id ∈ Assoc.keys previous.edges, id ∈ Assoc.keys next.edges := by
    intro id hid
    exact hnext.edgeOrder.mem_iff.mp (heq ▸ hprev.edgeOrder.mem_iff.mpr hid)
  have hsurvive : ∀ e ∈ (loadRoot root).edges.items,
      survives (deletedIds previous.nodes next.nodes) e.2 = true := by
    rintro ⟨id, edge⟩ he
    have hedge := Assoc.get_of_mem hwf he
    have hid : id ∈ Assoc.keys previous.edges := by
      by_contra hnot
      rw [hroot.edges.items.get_eq_none hnot] at hedge
      cases hedge
    have hkept := happly.kept id hid (hkeys id hid)
    rw [survivingEdges, Assoc.get_filter_value hwf, hedge] at hkept
    by_contra hno
    exact hkept (Option.filter_some_neg (by simpa using hno))
  rw [horder (deletedIds_eq_nil hkeys), cascade,
    foldl_dropConnectedEdges_of_survives hsurvive, hroot.edges.order]

end Whole

/-- A diff reaches its target exactly when it is applicable. -/
theorem diffReaches_iff (clientID : ℚ) (root : CanvasRoot) (previous next : StructuredCanvas)
    (hprev : Canonical previous) (hnext : Canonical next)
    (hroot : Represents clientID root previous) :
    (∃ operations root', diffCanvas previous next = some operations ∧
      applyCanvasOperations root operations clientID = some root' ∧
      ReadsAs (loadRoot root') next) ↔
      Applicable root previous next := by
  have hnodes := nodesReach_iff hprev hnext hroot
  have hedges := edgesReach_iff hprev hnext hroot
  have hreach := applyCanvasOperations_of_strings clientID
    ⟨_, hroot.nodes.order⟩ ⟨_, hroot.edges.order⟩
  constructor
  · rintro ⟨operations, root', hdiff, happly, hreads⟩
    obtain ⟨nodes, edges, hdiffNodes, hdiffEdges, -⟩ := diffCanvas_eq_some_iff.mp hdiff
    obtain rfl := Option.some.inj (happly.symm.trans (hreach operations))
    rw [loadRoot_canonicalizeCanvasOrders, foldl_step_diff hnext.nodes hdiff] at hreads
    refine ⟨hnodes.mp ⟨(diffItems_eq_some_iff.mp hdiffNodes).1, ?_⟩,
      hedges.mp ⟨(diffItems_eq_some_iff.mp hdiffEdges).1, ?_⟩⟩
    · have hread : SameJson (toValue (.map (reorder _ _ _).items)) _ := hreads.nodes
      rwa [reorder_items] at hread
    · have hread : SameJson (toValue (.map (reorder _ _ _).items)) _ := hreads.edges
      rwa [reorder_items] at hread
  · rintro ⟨happlyNodes, happlyEdges⟩
    obtain ⟨hsomeNodes, hsameNodes⟩ := hnodes.mpr happlyNodes
    obtain ⟨hsomeEdges, hsameEdges⟩ := hedges.mpr happlyEdges
    have hdiff := diffCanvas_eq_some_iff.mpr ⟨_, _, diffItems_eq_some_iff.mpr ⟨hsomeNodes, rfl⟩,
      diffItems_eq_some_iff.mpr ⟨hsomeEdges, rfl⟩, rfl⟩
    refine ⟨_, _, hdiff, hreach _, ?_⟩
    rw [loadRoot_canonicalizeCanvasOrders, foldl_step_diff hnext.nodes hdiff]
    refine ⟨?_, ?_, ?_, ?_⟩
    · show SameJson (toValue (.map (reorder _ _ _).items)) _
      rw [reorder_items]
      exact hsameNodes
    · show SameJson (toValue (.map (reorder _ _ _).items)) _
      rw [reorder_items]
      exact hsameEdges
    · rw [nodeOrder_reaches hprev hnext hroot happlyNodes]
      exact readsAs_orderNodes _
    · rw [edgeOrder_reaches hprev hnext hroot happlyEdges]
      exact readsAs_orderNodes _

/-! ## Canvases with string fields -/

/-- An item all of whose fields are strings, and the map that holds it. -/
def stringItem (fields : List (JsString × JsString)) : Value :=
  .obj true (fields.map fun field => (field.1, .str field.2))

def stringMap (fields : List (JsString × JsString)) : Node :=
  .map (fields.map fun field => (field.1, .plain (.str field.2)))

theorem isJson_stringItem {fields : List (JsString × JsString)} (h : (Assoc.keys fields).Nodup) :
    Value.IsJson (stringItem fields) := by
  refine .obj rfl ?_ (by simp) ?_
  · rw [Assoc.Wf, Assoc.keys, List.map_map]
    exact h
  · intro e he
    obtain ⟨field, -, rfl⟩ := List.mem_map.mp he
    exact .str _

theorem sameJson_stringMap {fields : List (JsString × JsString)}
    (h : dunderProto ∉ Assoc.keys fields) :
    SameJson (toValue (stringMap fields)) (stringItem fields) := by
  rw [stringMap, stringItem, sameJson_map_iff]
  simp only [Assoc.get_mapValues fun s => Node.plain (.str s), Assoc.get_mapValues Value.str]
  have hkeys : Assoc.keys (fields.map fun field => (field.1, Value.str field.2)) =
      Assoc.keys fields := by
    rw [Assoc.keys, List.map_map]
    rfl
  refine ⟨hkeys ▸ h, ?_, ?_⟩
  · intro id _ hid
    rw [Assoc.get_eq_none_iff.mpr (hkeys ▸ hid)]
    rfl
  · intro id v hv
    obtain ⟨s, hs, rfl⟩ := Option.map_eq_some_iff.mp hv
    exact ⟨.plain (.str s), by rw [hs]; rfl, sameJson_str_iff.mpr rfl⟩

section Strings

variable {items : List (JsString × List (JsString × JsString))}

theorem canonicalItems_strings (hnodup : (Assoc.keys items).Nodup)
    (hfields : ∀ e ∈ items, (Assoc.keys e.2).Nodup ∧ Assoc.get idKey e.2 = some e.1) :
    CanonicalItems (items.map fun e => (e.1, stringItem e.2)) := by
  refine ⟨.obj rfl ?_ (by simp) ?_, ?_⟩
  · rw [Assoc.Wf, Assoc.keys, List.map_map]
    exact hnodup
  · intro e he
    obtain ⟨item, hitem, rfl⟩ := List.mem_map.mp he
    exact isJson_stringItem (hfields item hitem).1
  · intro id v hv
    rw [Assoc.get_mapValues, Option.map_eq_some_iff] at hv
    obtain ⟨fields, hget, rfl⟩ := hv
    refine ⟨_, rfl, ?_⟩
    rw [Assoc.get_mapValues, (hfields _ (Assoc.mem_of_get hget)).2]
    rfl

theorem holds_strings (hnodup : (Assoc.keys items).Nodup)
    (hproto : dunderProto ∉ Assoc.keys items)
    (hfields : ∀ e ∈ items, dunderProto ∉ Assoc.keys e.2) :
    Holds (items.map fun e => (e.1, stringMap e.2)) (items.map fun e => (e.1, stringItem e.2)) := by
  have hkeys : ∀ {α : Type} (f : List (JsString × JsString) → α),
      Assoc.keys (items.map fun e => (e.1, f e.2)) = Assoc.keys items := by
    intro α f
    rw [Assoc.keys, List.map_map]
    rfl
  refine ⟨?_, ?_, ?_, ?_⟩
  · rw [Assoc.Wf, hkeys]
    exact hnodup
  · rw [hkeys]
    exact hproto
  · intro id node hnode
    rw [Assoc.get_mapValues, Option.map_eq_some_iff] at hnode
    obtain ⟨fields, -, rfl⟩ := hnode
    exact ⟨_, rfl⟩
  · rw [sameJson_map_iff, hkeys]
    refine ⟨hproto, ?_, ?_⟩
    · intro id _ hid
      rw [Assoc.get_eq_none_iff, hkeys]
      exact hid
    · intro id v hv
      rw [Assoc.get_mapValues, Option.map_eq_some_iff] at hv
      obtain ⟨fields, hget, rfl⟩ := hv
      refine ⟨stringMap fields, ?_, sameJson_stringMap (hfields _ (Assoc.mem_of_get hget))⟩
      rw [Assoc.get_mapValues, hget]
      rfl

end Strings

/-- A canvas of string fields. -/
def stringCanvas (nodes edges : List (JsString × List (JsString × JsString))) :
    StructuredCanvas where
  nodes := nodes.map fun e => (e.1, stringItem e.2)
  edges := edges.map fun e => (e.1, stringItem e.2)
  nodeOrder := Assoc.keys nodes
  edgeOrder := Assoc.keys edges

/-- A fresh root that holds it. -/
def stringRoot (nodes edges : List (JsString × List (JsString × JsString))) : CanvasRoot where
  nodes := some (.map (nodes.map fun e => (e.1, stringMap e.2)))
  edges := some (.map (edges.map fun e => (e.1, stringMap e.2)))
  deletedNodeIds := none
  deletedEdgeIds := none
  nodeOrder := some (.array (orderNodes (Assoc.keys nodes)))
  edgeOrder := some (.array (orderNodes (Assoc.keys edges)))

section Strings

variable {nodes edges : List (JsString × List (JsString × JsString))}

theorem canonical_stringCanvas (hnodes : (Assoc.keys nodes).Nodup)
    (hedges : (Assoc.keys edges).Nodup)
    (hnodeFields : ∀ e ∈ nodes, (Assoc.keys e.2).Nodup ∧ Assoc.get idKey e.2 = some e.1)
    (hedgeFields : ∀ e ∈ edges, (Assoc.keys e.2).Nodup ∧ Assoc.get idKey e.2 = some e.1)
    (hjoins : ∀ e ∈ edges, ∃ source ∈ Assoc.keys nodes, ∃ target ∈ Assoc.keys nodes,
      Assoc.get (ascii "fromNode") e.2 = some source ∧
        Assoc.get (ascii "toNode") e.2 = some target) :
    Canonical (stringCanvas nodes edges) := by
  have hkeys : ∀ items : List (JsString × List (JsString × JsString)),
      Assoc.keys (items.map fun e => (e.1, stringItem e.2)) = Assoc.keys items := by
    intro items
    rw [Assoc.keys, List.map_map]
    rfl
  refine ⟨canonicalItems_strings hnodes hnodeFields, canonicalItems_strings hedges hedgeFields,
    ?_, ?_, ?_⟩
  · exact .of_eq (hkeys nodes).symm
  · exact .of_eq (hkeys edges).symm
  · intro id fields hfields
    have hget : Assoc.get id (edges.map fun e => (e.1, stringItem e.2)) =
        some (.obj true fields) := hfields
    rw [Assoc.get_mapValues, Option.map_eq_some_iff] at hget
    obtain ⟨strings, hstrings, heq⟩ := hget
    obtain ⟨source, hsource, target, htarget, hfrom, hto⟩ :=
      hjoins _ (Assoc.mem_of_get hstrings)
    injection heq with _ hfields'
    refine ⟨source, target, (hkeys nodes) ▸ hsource, (hkeys nodes) ▸ htarget, ?_, ?_⟩
    · rw [← hfields', Assoc.get_mapValues, hfrom]
      rfl
    · rw [← hfields', Assoc.get_mapValues, hto]
      rfl

theorem represents_stringRoot (clientID : ℚ) (hnodes : (Assoc.keys nodes).Nodup)
    (hedges : (Assoc.keys edges).Nodup) (hnodeProto : dunderProto ∉ Assoc.keys nodes)
    (hedgeProto : dunderProto ∉ Assoc.keys edges)
    (hnodeFields : ∀ e ∈ nodes, dunderProto ∉ Assoc.keys e.2)
    (hedgeFields : ∀ e ∈ edges, dunderProto ∉ Assoc.keys e.2) :
    Represents clientID (stringRoot nodes edges) (stringCanvas nodes edges) := by
  refine ⟨⟨?_, rfl, ?_⟩, ⟨?_, rfl, ?_⟩⟩
  · exact holds_strings hnodes hnodeProto hnodeFields
  · intro id stone h
    cases h
  · exact holds_strings hedges hedgeProto hedgeFields
  · intro id stone h
    cases h

end Strings

/-- Node `a` is deleted and takes its edge to `b` with it, while the text of `b`
gets a surrogate pair. -/
theorem diffReaches_iff_deleted_endpoint :
    let a := (ascii "a", [(idKey, ascii "a")])
    let b := fun text => (ascii "b", [(idKey, ascii "b"), (ascii "text", text)])
    let e := (ascii "e", [(idKey, ascii "e"), (ascii "fromNode", ascii "a"),
      (ascii "toNode", ascii "b")])
    let next := stringCanvas [b [0xd83d, 0xde00]] []
    ∃ operations root', diffCanvas (stringCanvas [a, b (ascii "x")] [e]) next = some operations ∧
      applyCanvasOperations (stringRoot [a, b (ascii "x")] [e]) operations 7 = some root' ∧
      ReadsAs (loadRoot root') next := by
  intro a b e next
  have hprev : Canonical (stringCanvas [a, b (ascii "x")] [e]) :=
    canonical_stringCanvas (by decide) (by decide) (by decide) (by decide) (by decide)
  have hnext : Canonical next :=
    canonical_stringCanvas (by decide) (by decide) (by decide) (by decide) (by decide)
  have hroot : Represents 7 (stringRoot [a, b (ascii "x")] [e])
      (stringCanvas [a, b (ascii "x")] [e]) :=
    represents_stringRoot 7 (by decide) (by decide) (by decide) (by decide) (by decide) (by decide)
  apply (diffReaches_iff 7 _ _ _ hprev hnext hroot).mpr
  refine ⟨⟨by decide, by decide, by decide, by decide, ?_, ?_⟩,
    ⟨by decide, by decide, by decide, by decide, ?_, ?_⟩⟩
  · intro id fields ps ns hfields hps hns
    obtain rfl : id = ascii "b" := by
      have hid : id ∈ Assoc.keys next.nodes := Assoc.get_isSome_iff.mp (by simp [hns])
      simpa [next, b, stringCanvas] using hid
    obtain rfl := Node.map.inj (Option.some.inj hfields)
    obtain rfl := (Value.obj.inj (Option.some.inj hps)).2
    obtain rfl := (Value.obj.inj (Option.some.inj hns)).2
    refine ⟨by decide, by decide, ?_⟩
    intro key v hne hchanged
    have hmem := Assoc.mem_of_get (get_of_changedField hchanged)
    simp only [b, List.map_cons, List.map_nil, List.mem_cons, Prod.mk.injEq, hne, false_and,
      false_or, List.not_mem_nil, or_false] at hmem
    rw [hmem.1, hmem.2]
    exact fun _ => by decide
  · intro id ns hps hns
    have hid : id ∈ Assoc.keys next.nodes := Assoc.get_isSome_iff.mp (by simp [hns])
    have hin : ∀ id ∈ Assoc.keys next.nodes,
        id ∈ Assoc.keys (stringCanvas [a, b (ascii "x")] [e]).nodes := by decide
    exact absurd (hin id hid) (Assoc.get_eq_none_iff.mp hps)
  · intro id fields ps ns _ _ hns
    cases hns
  · intro id ns _ hns
    cases hns

/-- Node `a` is deleted, and its edge now starts from `c`. -/
theorem not_diffReaches_rewired_edge :
    ¬∀ (clientID : ℚ) (root : CanvasRoot) (previous next : StructuredCanvas),
      Canonical previous → Canonical next → Represents clientID root previous →
      ∃ operations root', diffCanvas previous next = some operations ∧
        applyCanvasOperations root operations clientID = some root' ∧
        ReadsAs (loadRoot root') next := by
  intro h
  let node := fun id => (ascii id, [(idKey, ascii id)])
  let edge := fun source => (ascii "e", [(idKey, ascii "e"), (ascii "fromNode", ascii source),
    (ascii "toNode", ascii "b")])
  let nodes := [node "a", node "b", node "c"]
  let next := stringCanvas [node "b", node "c"] [edge "c"]
  have hprev : Canonical (stringCanvas nodes [edge "a"]) :=
    canonical_stringCanvas (by decide) (by decide) (by decide) (by decide) (by decide)
  have hnext : Canonical next :=
    canonical_stringCanvas (by decide) (by decide) (by decide) (by decide) (by decide)
  have hroot : Represents 7 (stringRoot nodes [edge "a"]) (stringCanvas nodes [edge "a"]) :=
    represents_stringRoot 7 (by decide) (by decide) (by decide) (by decide) (by decide) (by decide)
  obtain ⟨operations, root', hdiff, happly, hreads⟩ := h 7 _ _ _ hprev hnext hroot
  have hgone : (diffCanvas (stringCanvas nodes [edge "a"]) next).map (fun operations =>
      (applyCanvasOperations (stringRoot nodes [edge "a"]) operations 7).map fun root =>
        (loadRoot root).edges.items.length) = some (some 0) := by decide
  rw [hdiff, Option.map_some, happly, Option.map_some, Option.some_inj, Option.some_inj] at hgone
  have hedges := hreads.edges
  rw [List.eq_nil_of_length_eq_zero hgone, sameJson_map_iff] at hedges
  obtain ⟨node, hnode, -⟩ := hedges.2.2 (ascii "e") _ rfl
  cases hnode

end Realtime.Structured
