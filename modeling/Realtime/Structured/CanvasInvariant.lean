import Mathlib.Logic.Relation
import Realtime.Structured.CanvasApply

/-!
# What canvas operations preserve

Whatever the root holds and whatever the operations are, `applyCanvasOperations`
leaves order arrays that list each live id once, items that carry their own id
wherever it wrote one, and no id brought back against another client's tombstone
except by a restore.

An operation is followed id by id. What the root keeps for one id is its `Slot`,
the item and the tombstone, and `SlotStep` lists everything an operation does to
it; the properties are kept by each of these steps.

A tombstone that is `undefined` is none, as `createItem` reads it.
-/

namespace Realtime.Structured

open Lib Lib.Js Lib.Utf16

/-! ## One id -/

/-- What is kept for one id. -/
structure Slot where
  item : Option Node
  stone : Option Node

def ItemState.slot (s : ItemState) (id : JsString) : Slot :=
  ⟨Assoc.get id s.items, Assoc.get id s.tombstones⟩

def Slot.Live (slot : Slot) : Prop := slot.item.isSome

/-- `tombstones.get(id) !== undefined` -/
def Slot.Tombstoned (slot : Slot) : Prop :=
  ∃ stone, slot.stone = some stone ∧ stone ≠ .plain .undefined

/-- Tombstoned by a client other than this one. -/
def Slot.Foreign (clientID : ℚ) (slot : Slot) : Prop :=
  slot.Tombstoned ∧ sameSlot slot.stone (.plain (.num clientID)) = false

/-- If there is an item, its `id` is the key it is kept under. -/
def Slot.Named (id : JsString) (slot : Slot) : Prop :=
  ∀ node, slot.item = some node →
    ∃ fields, node = .map fields ∧ Assoc.get idKey fields = some (.plain (.str id))

inductive SlotStep (clientID : ℚ) (restored : Prop) (id : JsString) : Slot → Slot → Prop
  | patch {item : Node} {stone : Option Node} {fields : List (JsString × Node)} :
      Assoc.get idKey fields = some (.plain (.str id)) →
      SlotStep clientID restored id ⟨some item, stone⟩ ⟨some (.map fields), stone⟩
  | create {item stone : Option Node} {fields : List (JsString × Node)} :
      ¬Slot.Tombstoned ⟨item, stone⟩ →
      Assoc.get idKey fields = some (.plain (.str id)) →
      SlotStep clientID restored id ⟨item, stone⟩ ⟨some (.map fields), stone⟩
  | revive {item stone : Option Node} {fields : List (JsString × Node)} :
      ¬Slot.Foreign clientID ⟨item, stone⟩ ∨ restored →
      Assoc.get idKey fields = some (.plain (.str id)) →
      SlotStep clientID restored id ⟨item, stone⟩ ⟨some (.map fields), none⟩
  | delete {item : Node} {stone : Option Node} :
      SlotStep clientID restored id ⟨some item, stone⟩ ⟨none, some (.plain (.num clientID))⟩

section Slot

variable {clientID : ℚ} {restored : Prop} {id : JsString} {slot slot' : Slot}

theorem SlotStep.apart (h : SlotStep clientID restored id slot slot')
    (hs : ¬(slot.Live ∧ slot.Tombstoned)) : ¬(slot'.Live ∧ slot'.Tombstoned) := by
  cases h with
  | patch _ => exact fun h => hs ⟨rfl, h.2⟩
  | create hstone _ => exact fun h => hstone h.2
  | revive _ _ => rintro ⟨-, stone, hstone, -⟩; cases hstone
  | delete => rintro ⟨hlive, -⟩; cases hlive

/-- Another client's tombstone keeps an id out until it is restored. -/
theorem SlotStep.foreign (h : SlotStep clientID restored id slot slot') (hnot : ¬restored)
    (hs : slot.item = none ∧ slot.Foreign clientID) :
    slot'.item = none ∧ slot'.Foreign clientID := by
  obtain ⟨hitem, hforeign⟩ := hs
  cases h with
  | patch _ => cases hitem
  | create hstone _ => exact absurd hforeign.1 hstone
  | revive hown _ =>
      rcases hown with hown | hres
      · exact absurd hforeign hown
      · exact absurd hres hnot
  | delete => cases hitem

theorem SlotStep.named (h : SlotStep clientID restored id slot slot') : slot'.Named id := by
  intro node hnode
  cases h with
  | patch hid | create _ hid | revive _ hid => exact ⟨_, (Option.some.inj hnode).symm, hid⟩
  | delete => cases hnode

/-- What an operation does to an id. -/
abbrev SlotSteps (clientID : ℚ) (restored : Prop) (id : JsString) : Slot → Slot → Prop :=
  Relation.ReflTransGen (SlotStep clientID restored id)

/-- What every step keeps. -/
theorem SlotSteps.keeps {P : Slot → Prop}
    (hstep : ∀ slot slot', SlotStep clientID restored id slot slot' → P slot → P slot')
    (h : SlotSteps clientID restored id slot slot') (hs : P slot) : P slot' := by
  induction h with
  | refl => exact hs
  | tail _ hlast ih => exact hstep _ _ hlast ih

end Slot

/-! ## One operation -/

section Operation

variable {clientID : ℚ} {restored : JsString → Prop}

/-- Every id of a kind is taken from one state to another by steps. -/
def Moves (clientID : ℚ) (restored : JsString → Prop) (s s' : ItemState) : Prop :=
  ∀ id, SlotSteps clientID (restored id) id (s.slot id) (s'.slot id)

theorem Moves.refl (s : ItemState) : Moves clientID restored s s := fun _ => .refl

theorem Moves.trans {s s' s'' : ItemState} (h : Moves clientID restored s s')
    (h' : Moves clientID restored s' s'') : Moves clientID restored s s'' :=
  fun id => (h id).trans (h' id)

/-- A step of one id that leaves the others as they are. -/
theorem moves_of_slot (id : JsString) {s s' : ItemState}
    (hid : SlotStep clientID (restored id) id (s.slot id) (s'.slot id))
    (hother : ∀ j, id ≠ j → s'.slot j = s.slot j) : Moves clientID restored s s' := by
  intro j
  by_cases hj : id = j
  · subst hj
    exact .single hid
  · rw [hother j hj]

theorem moves_deleteItem {s s' : ItemState} {id : JsString}
    (h : deleteItem s id clientID = some s') : Moves clientID restored s s' := by
  unfold deleteItem at h
  split at h
  · obtain rfl := Option.some.inj h
    exact .refl s
  · rename_i hlive
    obtain ⟨candidates, -, rfl⟩ := Option.map_eq_some_iff.mp h
    apply moves_of_slot id
    · obtain ⟨item, hitem⟩ :=
        Option.isSome_iff_exists.mp (Assoc.get_isSome_iff.mpr (not_not.mp hlive))
      rw [ItemState.slot, ItemState.slot, hitem, Assoc.get_erase_self, Assoc.get_set_self]
      exact .delete
    · intro j hj
      rw [ItemState.slot, ItemState.slot, Assoc.get_erase_ne hj, Assoc.get_set_ne hj]

/-- The slot an upserted item ends up in. -/
theorem upsertItem_self (items : List (JsString × Node)) (id : JsString)
    (item : List (JsString × Value)) :
    ∃ fields, Assoc.get id (upsertItem items id item) = some (.map fields) ∧
      Assoc.get idKey fields = some (.plain (.str id)) := by
  rw [get_upsertItem, if_pos rfl]
  exact ⟨_, rfl, get_id_patchFields _ _ _⟩

theorem upsertItem_ne {id j : JsString} (h : id ≠ j) (items : List (JsString × Node))
    (item : List (JsString × Value)) :
    Assoc.get j (upsertItem items id item) = Assoc.get j items := by
  rw [get_upsertItem, if_neg h]

/-- An upsert that leaves the tombstones alone. -/
theorem moves_upsertItem {s : ItemState} {id : JsString} (hstone : ¬(s.slot id).Tombstoned)
    (item : List (JsString × Value)) :
    Moves clientID restored s { s with items := upsertItem s.items id item } := by
  apply moves_of_slot id
  · obtain ⟨fields, hfields, hid⟩ := upsertItem_self s.items id item
    rw [ItemState.slot, ItemState.slot, hfields]
    exact .create hstone hid
  · intro j hj
    rw [ItemState.slot, ItemState.slot, upsertItem_ne hj]

/-- An upsert that removes the tombstone. -/
theorem moves_reviveItem {s : ItemState} {id : JsString}
    (hmay : ¬(s.slot id).Foreign clientID ∨ restored id) (item : List (JsString × Value)) :
    Moves clientID restored s
      { s with
        tombstones := Assoc.erase id s.tombstones
        items := upsertItem s.items id item } := by
  apply moves_of_slot id
  · obtain ⟨fields, hfields, hid⟩ := upsertItem_self s.items id item
    rw [ItemState.slot, ItemState.slot, hfields, Assoc.get_erase_self]
    exact .revive hmay hid
  · intro j hj
    rw [ItemState.slot, ItemState.slot, upsertItem_ne hj, Assoc.get_erase_ne hj]

theorem moves_restoreItem {s : ItemState} {item : List (JsString × Value)}
    (hres : ∀ id, itemId item = some id → restored id) :
    Moves clientID restored s (restoreItem s item) := by
  unfold restoreItem
  split
  · exact .refl s
  · rename_i id hid
    exact moves_reviveItem (.inr (hres id hid)) item

/-- What `createItem` does, by the tombstone of the id. -/
theorem createItem_cases (clientID : ℚ) (s : ItemState) {item : List (JsString × Value)}
    {id : JsString}
    (hid : itemId item = some id) :
    (¬(s.slot id).Tombstoned ∧
        createItem s item clientID = { s with items := upsertItem s.items id item }) ∨
      (¬(s.slot id).Foreign clientID ∧
        createItem s item clientID =
          { s with
            tombstones := Assoc.erase id s.tombstones
            items := upsertItem s.items id item }) ∨
      ((s.slot id).Foreign clientID ∧ createItem s item clientID = s) := by
  unfold createItem
  rw [hid]
  dsimp only
  split
  · rename_i hstone
    refine .inl ⟨?_, rfl⟩
    rintro ⟨stone, hsome, -⟩
    exact nomatch hstone.symm.trans hsome
  · rename_i hstone
    refine .inl ⟨?_, rfl⟩
    rintro ⟨stone, hsome, hne⟩
    exact hne (Option.some.inj (hsome.symm.trans hstone))
  · rename_i stone hne hstone
    have hslot : (s.slot id).stone = some stone := hstone
    split
    · rename_i hown
      refine .inr (.inl ⟨?_, rfl⟩)
      rintro ⟨-, hforeign⟩
      rw [hslot, hown] at hforeign
      cases hforeign
    · rename_i hother
      refine .inr (.inr ⟨⟨⟨stone, hslot, hne⟩, ?_⟩, rfl⟩)
      rw [hslot]
      exact Bool.eq_false_iff.mpr hother

theorem moves_createItem (s : ItemState) (item : List (JsString × Value)) :
    Moves clientID restored s (createItem s item clientID) := by
  cases hid : itemId item with
  | none =>
      rw [createItem, hid]
      exact .refl s
  | some id =>
      rcases createItem_cases clientID s hid with ⟨hstone, heq⟩ | ⟨hown, heq⟩ | ⟨-, heq⟩
      · rw [heq]
        exact moves_upsertItem hstone item
      · rw [heq]
        exact moves_reviveItem (.inl hown) item
      · rw [heq]
        exact .refl s

theorem moves_patchItem (s : ItemState) (id : JsString) (patch : CanvasFieldPatch) :
    Moves clientID restored s { s with items := patchItem s.items id patch } := by
  unfold patchItem
  split
  · exact .refl s
  · rename_i fields hfields
    apply moves_of_slot id
    · obtain ⟨item, hitem⟩ : ∃ item, Assoc.get id s.items = some item := by
        cases hget : Assoc.get id s.items with
        | none => rw [hget] at hfields; cases hfields
        | some item => exact ⟨item, rfl⟩
      rw [ItemState.slot, ItemState.slot, hitem, Assoc.get_set_self]
      exact .patch (get_id_patchFields _ _ _)
    · intro j hj
      rw [ItemState.slot, ItemState.slot, Assoc.get_set_ne hj]

/-- The operations of a kind, a restore being one that `restored` knows of. -/
theorem moves_applyItemOperation {s s' : ItemState} {operation : ItemOperation}
    (hres : ∀ item id, operation = .restore item → itemId item = some id → restored id)
    (h : applyItemOperation s operation clientID = some s') : Moves clientID restored s s' := by
  cases operation with
  | create item =>
      obtain rfl := Option.some.inj h
      exact moves_createItem s item
  | patch id patch =>
      obtain rfl := Option.some.inj h
      exact moves_patchItem s id patch
  | delete id => exact moves_deleteItem h
  | restore item =>
      obtain rfl := Option.some.inj h
      exact moves_restoreItem fun id hid => hres item id rfl hid

theorem moves_deleteConnectedEdges {s s' : ItemState} {nodeId : JsString}
    (h : deleteConnectedEdges s nodeId clientID = some s') : Moves clientID restored s s' :=
  OptionFold.foldlM_keeps (fun _ _ _ _ hmoves hone => hmoves.trans (moves_deleteItem hone))
    (Moves.refl s) h

end Operation

/-! ## Lists of operations -/

/-- There is an explicit restore of the id among the operations. -/
def Restores (operations : List CanvasOperation) (kind : Kind) (id : JsString) : Prop :=
  ∃ item, CanvasOperation.item kind (.restore item) ∈ operations ∧ itemId item = some id

/-- The item an operation writes, unless it deletes. -/
def Touches (clientID : ℚ) (s : ItemState) (operation : ItemOperation) (id : JsString) : Prop :=
  match operation with
  | .create item => itemId item = some id ∧ ¬(s.slot id).Foreign clientID
  | .patch patched _ => patched = id ∧ (mapOf (Assoc.get id s.items)).isSome
  | .delete _ => False
  | .restore item => itemId item = some id

section Operations

variable {clientID : ℚ} {operations : List CanvasOperation}

/-- What an operation on one kind of item does to both kinds: a node operation
reaches the edges by deletion only. -/
theorem applyOperation_item {s s' : CanvasState} {own : Kind} {operation : ItemOperation}
    (h : applyOperation clientID s (.item own operation) = some s') :
    applyItemOperation (s.kind own) operation clientID = some (s'.kind own) ∧
      ∀ other, own ≠ other → s'.kind other = s.kind other ∨
        ∃ id, deleteConnectedEdges (s.kind other) id clientID = some (s'.kind other) := by
  cases own with
  | node =>
      cases operation with
      | delete id =>
          simp only [applyOperation, Option.bind_eq_bind, Option.bind_eq_some_iff] at h
          obtain ⟨nodes, hnodes, edges, hedges, hs'⟩ := h
          obtain rfl := Option.some.inj hs'
          refine ⟨hnodes, fun other hne => ?_⟩
          cases other with
          | node => exact absurd rfl hne
          | edge => exact .inr ⟨id, hedges⟩
      | _ =>
          simp only [applyOperation, Option.bind_eq_bind, Option.bind_eq_some_iff] at h
          obtain ⟨nodes, hnodes, hs'⟩ := h
          obtain rfl := Option.some.inj hs'
          refine ⟨hnodes, fun other hne => ?_⟩
          cases other with
          | node => exact absurd rfl hne
          | edge => exact .inl rfl
  | edge =>
      simp only [applyOperation, Option.bind_eq_bind, Option.bind_eq_some_iff] at h
      obtain ⟨edges, hedges, hs'⟩ := h
      obtain rfl := Option.some.inj hs'
      refine ⟨hedges, fun other hne => ?_⟩
      cases other with
      | node => exact .inl rfl
      | edge => exact absurd rfl hne

/-- An order operation writes the order array of its kind. -/
theorem applyOperation_order {s s' : CanvasState} {kind : Kind} {order : List JsString}
    (h : applyOperation clientID s (.order kind order) = some s') (other : Kind) :
    (s'.kind other).items = (s.kind other).items ∧
      (s'.kind other).tombstones = (s.kind other).tombstones := by
  cases kind <;> obtain rfl := Option.some.inj h <;> cases other <;> exact ⟨rfl, rfl⟩

theorem moves_applyOperation {s s' : CanvasState} {operation : CanvasOperation}
    (hmem : operation ∈ operations) (h : applyOperation clientID s operation = some s')
    (kind : Kind) : Moves clientID (Restores operations kind) (s.kind kind) (s'.kind kind) := by
  cases operation with
  | item own operation =>
      by_cases hkind : own = kind
      · subst hkind
        apply moves_applyItemOperation _ (applyOperation_item h).1
        rintro item id rfl hid
        exact ⟨item, hmem, hid⟩
      · rcases (applyOperation_item h).2 kind hkind with heq | ⟨id, hcut⟩
        · rw [heq]
          exact .refl _
        · exact moves_deleteConnectedEdges hcut
  | order own order =>
      intro id
      obtain ⟨hitems, hstones⟩ := applyOperation_order h kind
      rw [ItemState.slot, ItemState.slot, hitems, hstones]

/-- A run of operations that are all in the list. -/
theorem moves_run {run : List CanvasOperation} {s s' : CanvasState}
    (hsub : ∀ operation ∈ run, operation ∈ operations)
    (h : run.foldlM (applyOperation clientID) s = some s') (kind : Kind) :
    Moves clientID (Restores operations kind) (s.kind kind) (s'.kind kind) :=
  OptionFold.foldlM_keeps
    (P := fun t => Moves clientID (Restores operations kind) (s.kind kind) (t.kind kind))
    (fun _ _ _ hop hmoves hone => hmoves.trans (moves_applyOperation (hsub _ hop) hone kind))
    (.refl _) h

/-- An operation leaves what it touches under its own id. -/
theorem named_of_touches {s s' : ItemState} {operation : ItemOperation} {id : JsString}
    (htouch : Touches clientID s operation id)
    (h : applyItemOperation s operation clientID = some s') : (s'.slot id).Named id := by
  have hupsert : ∀ (item : List (JsString × Value)) stone,
      Slot.Named id ⟨Assoc.get id (upsertItem s.items id item), stone⟩ := by
    intro item stone node hnode
    obtain ⟨fields, hfields, hid⟩ := upsertItem_self s.items id item
    exact ⟨fields, Option.some.inj (hnode.symm.trans hfields), hid⟩
  cases operation with
  | create item =>
      obtain rfl := Option.some.inj h
      obtain ⟨hid, hown⟩ := htouch
      rcases createItem_cases clientID s hid with ⟨-, heq⟩ | ⟨-, heq⟩ | ⟨hforeign, -⟩
      · rw [heq]
        exact hupsert item _
      · rw [heq]
        exact hupsert item _
      · exact absurd hforeign hown
  | patch patched patch =>
      obtain rfl := Option.some.inj h
      obtain ⟨rfl, hmap⟩ := htouch
      obtain ⟨fields, hfields⟩ := Option.isSome_iff_exists.mp hmap
      intro node hnode
      rw [ItemState.slot, patchItem, hfields] at hnode
      dsimp only at hnode
      rw [Assoc.get_set_self] at hnode
      exact ⟨_, (Option.some.inj hnode).symm, get_id_patchFields _ _ _⟩
  | delete _ => exact htouch.elim
  | restore item =>
      obtain rfl := Option.some.inj h
      have hid : itemId item = some id := htouch
      rw [restoreItem, hid]
      exact hupsert item _

end Operations

/-! ## The orders -/

section Orders

variable {items : List (JsString × Node)}

/-- The order array lists every live id once and nothing else. -/
def Ordered (s : ItemState) : Prop :=
  ∃ ids, s.order = orderNodes ids ∧ ids.Nodup ∧ ∀ id, id ∈ ids ↔ id ∈ Assoc.keys s.items

/-- The loop over the given order collects live ids, each once. -/
theorem validOrder_loop_sound (items : List (JsString × Node)) (order : List JsString)
    {result : List JsString}
    (hnodup : result.Nodup) (hlive : ∀ id ∈ result, id ∈ Assoc.keys items) :
    let loop := order.foldl (fun result id =>
      if id ∈ Assoc.keys items ∧ id ∉ result then result ++ [id] else result) result
    loop.Nodup ∧ ∀ id ∈ loop, id ∈ Assoc.keys items := by
  induction order generalizing result with
  | nil => exact ⟨hnodup, hlive⟩
  | cons id order ih =>
      rw [List.foldl_cons]
      split
      · rename_i hid
        apply ih
        · rw [List.nodup_append]
          refine ⟨hnodup, List.nodup_singleton id, ?_⟩
          rintro j hj k hk rfl
          exact hid.2 (List.mem_singleton.mp hk ▸ hj)
        · intro j hj
          rcases List.mem_append.mp hj with hj | hj
          · exact hlive j hj
          · exact List.mem_singleton.mp hj ▸ hid.1
      · exact ih hnodup hlive

theorem perm_validOrder (hwf : Assoc.Wf items) (order : List JsString) :
    (validOrder order items).Perm (Assoc.keys items) := by
  obtain ⟨hnodup, hlive⟩ := validOrder_loop_sound items order List.nodup_nil (by simp)
  have hkeys := perm_sortKeys (Assoc.keys items)
  unfold validOrder
  rw [List.perm_ext_iff_of_nodup _ hwf]
  · intro id
    rw [List.mem_append, List.mem_filter, mem_sortKeys]
    constructor
    · rintro (hid | ⟨hid, -⟩)
      · exact hlive id hid
      · exact hid
    · intro hid
      by_cases hin : id ∈ order.foldl (fun result id =>
          if id ∈ Assoc.keys items ∧ id ∉ result then result ++ [id] else result) []
      · exact .inl hin
      · exact .inr ⟨hid, by simpa using hin⟩
  · rw [List.nodup_append]
    refine ⟨hnodup, (hkeys.nodup_iff.mpr hwf).filter _, ?_⟩
    rintro j hj k hk rfl
    have := (List.mem_filter.mp hk).2
    simp [hj] at this

/-- An array of as many strings as entries is one of strings. -/
theorem eq_orderNodes {order : List Node} (h : order.length = (orderStrings order).length) :
    order = orderNodes (orderStrings order) := by
  induction order with
  | nil => rfl
  | cons entry order ih =>
      have hle : (orderStrings order).length ≤ order.length := List.length_filterMap_le _ _
      have hdrop : orderStrings (entry :: order) = orderStrings order ∨
          ∃ id, entry = .plain (.str id) := by
        cases entry with
        | plain value =>
            cases value with
            | str id => exact .inr ⟨id, rfl⟩
            | _ => exact .inl rfl
        | _ => exact .inl rfl
      rcases hdrop with hdrop | ⟨id, rfl⟩
      · rw [hdrop, List.length_cons] at h
        omega
      · have hcons : orderStrings (.plain (.str id) :: order) = id :: orderStrings order := rfl
        rw [hcons, List.length_cons, List.length_cons, Nat.add_right_cancel_iff] at h
        rw [hcons, orderNodes, List.map_cons]
        exact congrArg _ (ih h)

/-- Whether or not it rewrites the array, these are the ids in it. -/
theorem canonicalizeOrder_fst (order : List Node) (items : List (JsString × Node)) :
    (canonicalizeOrder order items).1 = orderNodes (validOrder (orderStrings order) items) := by
  unfold canonicalizeOrder
  dsimp only
  split
  · rename_i h
    obtain ⟨hlength, heq⟩ := h
    rw [← heq] at hlength
    exact (eq_orderNodes hlength).trans (congrArg _ heq)
  · exact writeOrder_eq _ _

theorem ordered_canonicalize {s : ItemState} (hwf : Assoc.Wf s.items) : Ordered s.canonicalize := by
  have hperm := perm_validOrder hwf (orderStrings s.order)
  exact ⟨_, canonicalizeOrder_fst _ _, hperm.nodup_iff.mpr hwf, fun id => hperm.mem_iff⟩

/-- A canonical order array is left as it is. -/
theorem canonicalizeOrder_again (hwf : Assoc.Wf items) (order : List Node) :
    canonicalizeOrder (canonicalizeOrder order items).1 items =
      ((canonicalizeOrder order items).1, false) := by
  have hperm := perm_validOrder hwf (orderStrings order)
  rw [canonicalizeOrder_fst]
  unfold canonicalizeOrder
  rw [orderStrings_orderNodes, validOrder_of_perm hwf hperm]
  exact if_pos ⟨by rw [orderNodes, List.length_map], rfl⟩

/-- The keys of a map are distinct. -/
def WfSlot (slot : Option Node) : Prop := ∀ items, mapOf slot = some items → Assoc.Wf items

theorem canonicalizeSlot_again {items order : Option Node} (hwf : WfSlot items) :
    canonicalizeSlot items (canonicalizeSlot items order).1 =
      ((canonicalizeSlot items order).1, false) := by
  cases hitems : mapOf items with
  | none => simp only [canonicalizeSlot, hitems]
  | some entries =>
      cases horder : arrayOf order with
      | none => simp only [canonicalizeSlot, hitems, horder]
      | some array =>
          simp only [canonicalizeSlot, hitems, horder, arrayOf_array,
            canonicalizeOrder_again (hwf entries hitems)]

end Orders

/-! ## The whole call -/

section Whole

variable {clientID : ℚ}

theorem wf_upsertItem {items : List (JsString × Node)} (h : Assoc.Wf items) (id : JsString)
    (item : List (JsString × Value)) : Assoc.Wf (upsertItem items id item) :=
  wf_patchItem (Assoc.wf_set h) _ _

theorem wf_deleteItem {s s' : ItemState} {id : JsString} (hwf : Assoc.Wf s.items)
    (h : deleteItem s id clientID = some s') : Assoc.Wf s'.items := by
  unfold deleteItem at h
  split at h
  · exact Option.some.inj h ▸ hwf
  · obtain ⟨candidates, -, rfl⟩ := Option.map_eq_some_iff.mp h
    exact Assoc.wf_erase hwf

theorem wf_applyItemOperation {s s' : ItemState} {operation : ItemOperation}
    (hwf : Assoc.Wf s.items) (h : applyItemOperation s operation clientID = some s') :
    Assoc.Wf s'.items := by
  cases operation with
  | create item =>
      obtain rfl := Option.some.inj h
      cases hid : itemId item with
      | none =>
          rw [createItem, hid]
          exact hwf
      | some id =>
          rcases createItem_cases clientID s hid with ⟨-, heq⟩ | ⟨-, heq⟩ | ⟨-, heq⟩ <;> rw [heq]
          · exact wf_upsertItem hwf id item
          · exact wf_upsertItem hwf id item
          · exact hwf
  | patch id patch =>
      obtain rfl := Option.some.inj h
      exact wf_patchItem hwf id patch
  | delete id => exact wf_deleteItem hwf h
  | restore item =>
      obtain rfl := Option.some.inj h
      unfold restoreItem
      split
      · exact hwf
      · exact wf_upsertItem hwf _ item

theorem wf_applyOperation {s s' : CanvasState} {operation : CanvasOperation}
    (hwf : ∀ kind, Assoc.Wf (s.kind kind).items)
    (h : applyOperation clientID s operation = some s') (kind : Kind) :
    Assoc.Wf (s'.kind kind).items := by
  cases operation with
  | item own operation =>
      obtain ⟨hown, hother⟩ := applyOperation_item h
      by_cases hkind : own = kind
      · subst hkind
        exact wf_applyItemOperation (hwf own) hown
      · rcases hother kind hkind with heq | ⟨id, hcut⟩
        · rw [heq]
          exact hwf kind
        · exact OptionFold.foldlM_keeps (P := fun t => Assoc.Wf t.items)
            (fun _ _ _ _ hwf hone => wf_deleteItem hwf hone) (hwf kind) hcut
  | order own order =>
      rw [(applyOperation_order h kind).1]
      exact hwf kind

/-- The keys of the maps a canvas root holds are distinct. -/
structure CanvasRoot.Wf (root : CanvasRoot) : Prop where
  nodes : WfSlot root.nodes
  edges : WfSlot root.edges

theorem CanvasRoot.Wf.kind {root : CanvasRoot} (h : root.Wf) (kind : Kind) :
    Assoc.Wf ((loadRoot root).kind kind).items := by
  have hslot : ∀ {slot : Option Node}, WfSlot slot → Assoc.Wf (ensureMap slot) := by
    intro slot hwf
    rw [ensureMap]
    cases hmap : mapOf slot with
    | none => exact Assoc.wf_nil
    | some items => exact hwf items hmap
  cases kind with
  | node => exact hslot h.nodes
  | edge => exact hslot h.edges

/-- What holds of the root after the operations. -/
structure Preserves (clientID : ℚ) (operations : List CanvasOperation) (root root' : CanvasRoot) :
    Prop where
  ordered : ∀ kind, Ordered ((loadRoot root').kind kind)
  /-- Wherever an operation wrote an item, it has its own id, if it is still there. -/
  touched : ∀ before kind operation after s id,
    operations = before ++ .item kind operation :: after →
    before.foldlM (applyOperation clientID) (loadRoot root) = some s →
    Touches clientID (s.kind kind) operation id → (((loadRoot root').kind kind).slot id).Named id
  apart : (∀ kind id, ¬((((loadRoot root).kind kind).slot id).Live ∧
      (((loadRoot root).kind kind).slot id).Tombstoned)) →
    ∀ kind id, ¬((((loadRoot root').kind kind).slot id).Live ∧
      (((loadRoot root').kind kind).slot id).Tombstoned)
  /-- Another client's tombstone holds against everything but a restore. -/
  foreign : ∀ kind id, ¬(((loadRoot root).kind kind).slot id).Live →
    (((loadRoot root).kind kind).slot id).Foreign clientID →
    (((loadRoot root').kind kind).slot id).Live → Restores operations kind id

/-- `canonicalizeCanvasOrders` rewrites order arrays only. -/
theorem kind_canonicalizeCanvasOrders (s : CanvasState) (kind : Kind) :
    (loadRoot (canonicalizeCanvasOrders (storeRoot s)).1).kind kind =
      (s.kind kind).canonicalize := by
  rw [loadRoot_canonicalizeCanvasOrders]
  cases kind <;> rfl

theorem preserves_of_run {root : CanvasRoot} {operations : List CanvasOperation} {s : CanvasState}
    (hwf : root.Wf) (h : operations.foldlM (applyOperation clientID) (loadRoot root) = some s) :
    Preserves clientID operations root (canonicalizeCanvasOrders (storeRoot s)).1 := by
  have hslot : ∀ kind id,
      ((loadRoot (canonicalizeCanvasOrders (storeRoot s)).1).kind kind).slot id =
        (s.kind kind).slot id := by
    intro kind id
    rw [kind_canonicalizeCanvasOrders]
    rfl
  have hmoves := fun kind => moves_run (fun _ hop => hop) h kind
  refine ⟨?_, ?_, ?_, ?_⟩
  · intro kind
    rw [kind_canonicalizeCanvasOrders]
    apply ordered_canonicalize
    exact OptionFold.foldlM_keeps (P := fun t => ∀ kind, Assoc.Wf (t.kind kind).items)
      (fun _ _ _ _ hwf hone => wf_applyOperation hwf hone) hwf.kind h kind
  · intro before kind operation after mid id heq hbefore htouch
    rw [hslot]
    rw [heq, List.foldlM_append, hbefore] at h
    obtain ⟨next, hnext, hafter⟩ := OptionFold.foldlM_cons_eq_some.mp h
    have hnamed := named_of_touches htouch (applyOperation_item hnext).1
    have hrest : SlotSteps clientID (Restores after kind id) id _ _ :=
      moves_run (fun _ hop => hop) hafter kind id
    exact SlotSteps.keeps (fun _ _ hstep _ => hstep.named) hrest hnamed
  · intro hapart kind id
    rw [hslot]
    exact SlotSteps.keeps (fun _ _ hstep => hstep.apart) (hmoves kind id) (hapart kind id)
  · intro kind id hdead hforeign hlive
    rw [hslot] at hlive
    by_contra hnot
    have hkept := SlotSteps.keeps (fun _ _ hstep => hstep.foreign hnot) (hmoves kind id)
      ⟨Option.not_isSome_iff_eq_none.mp hdead, hforeign⟩
    rw [Slot.Live, hkept.1] at hlive
    cases hlive

/-! ### Calls that return -/

/-- Every entry of an order array is a primitive value. -/
def PrimitiveOrder (order : List Node) : Prop :=
  ∃ values : List Value, order = values.map .plain ∧ ∀ v ∈ values, Primitive v

theorem plainValues_plain (values : List Value) :
    plainValues (values.map .plain) = some values := by
  rw [plainValues, mapM_eq_some_iff, List.map_map]
  rfl

theorem primitiveOrder_orderNodes (ids : List JsString) : PrimitiveOrder (orderNodes ids) := by
  refine ⟨ids.map .str, by rw [orderNodes, List.map_map]; rfl, ?_⟩
  intro v hv
  obtain ⟨id, -, rfl⟩ := List.mem_map.mp hv
  trivial

theorem deleteItem_returns (clientID : ℚ) {s : ItemState} (h : PrimitiveOrder s.order)
    (id : JsString) : ∃ s', deleteItem s id clientID = some s' ∧ PrimitiveOrder s'.order := by
  unfold deleteItem
  split
  · exact ⟨s, rfl, h⟩
  · obtain ⟨values, hvalues, hprim⟩ := h
    rw [hvalues, plainValues_plain, Option.map_some]
    refine ⟨_, rfl, _, reconcileArray_primitive _ ?_, ?_⟩ <;>
      exact fun v hv => hprim v (List.mem_of_mem_filter hv)

/-- Items of this kind are deleted by one of the operations. -/
def Deletes (operations : List CanvasOperation) : Kind → Prop
  | .node => ∃ id, CanvasOperation.item .node (.delete id) ∈ operations
  | .edge => ∃ kind id, CanvasOperation.item kind (.delete id) ∈ operations

theorem applyItemOperation_returns (clientID : ℚ) {s : ItemState} {deletes : Prop}
    (h : deletes → PrimitiveOrder s.order) (operation : ItemOperation)
    (hdel : ∀ id, operation = .delete id → deletes) :
    ∃ s', applyItemOperation s operation clientID = some s' ∧
      (deletes → PrimitiveOrder s'.order) := by
  cases operation with
  | create item => exact ⟨_, rfl, fun hd => createItem_order s item ▸ h hd⟩
  | patch id patch => exact ⟨_, rfl, h⟩
  | delete id =>
      obtain ⟨s', hs', hprim⟩ := deleteItem_returns clientID (h (hdel id rfl)) id
      exact ⟨s', hs', fun _ => hprim⟩
  | restore item => exact ⟨_, rfl, fun hd => restoreItem_order s item ▸ h hd⟩

/-- One operation of a list returns if the order arrays it may delete from hold
primitive values, and it keeps them so. -/
theorem applyOperation_returns (clientID : ℚ) {operations : List CanvasOperation}
    {s : CanvasState}
    (h : (Deletes operations .node → PrimitiveOrder s.nodes.order) ∧
      (Deletes operations .edge → PrimitiveOrder s.edges.order))
    {operation : CanvasOperation} (hmem : operation ∈ operations) :
    ∃ s', applyOperation clientID s operation = some s' ∧
      (Deletes operations .node → PrimitiveOrder s'.nodes.order) ∧
      (Deletes operations .edge → PrimitiveOrder s'.edges.order) := by
  obtain ⟨hnodes, hedges⟩ := h
  cases operation with
  | item own operation =>
      cases own with
      | node =>
          obtain ⟨nodes, hone, hnodes'⟩ := applyItemOperation_returns clientID hnodes operation
            (fun id heq => ⟨id, heq ▸ hmem⟩)
          cases operation with
          | delete id =>
              have hone' : deleteItem s.nodes id clientID = some nodes := hone
              obtain ⟨edges, hcut, hedges'⟩ : ∃ edges, deleteConnectedEdges s.edges id clientID =
                  some edges ∧ PrimitiveOrder edges.order :=
                OptionFold.foldlM_returns (fun _ e _ hs => deleteItem_returns clientID hs e.1)
                  (hedges ⟨.node, id, hmem⟩)
              refine ⟨⟨nodes, edges⟩, ?_, hnodes', fun _ => hedges'⟩
              simp only [applyOperation, hone', hcut]
              rfl
          | _ =>
              refine ⟨⟨nodes, s.edges⟩, ?_, hnodes', hedges⟩
              simp only [applyOperation, hone]
              rfl
      | edge =>
          obtain ⟨edges, hone, hedges'⟩ := applyItemOperation_returns clientID hedges operation
            (fun id heq => ⟨.edge, id, heq ▸ hmem⟩)
          refine ⟨⟨s.nodes, edges⟩, ?_, hnodes, hedges'⟩
          simp only [applyOperation, hone]
          rfl
  | order own order =>
      have hprim : ∀ order ids, PrimitiveOrder (writeOrder order ids) :=
        fun order ids => writeOrder_eq order ids ▸ primitiveOrder_orderNodes ids
      cases own with
      | node => exact ⟨_, rfl, fun _ => hprim _ _, hedges⟩
      | edge => exact ⟨_, rfl, hnodes, fun _ => hprim _ _⟩

end Whole

/-- Canvas operations preserve the invariant of the canvas whenever the call
returns, and it returns unless an item is deleted whose order array holds an
array, a record or a shared type. -/
theorem operations_preserve_canvas (clientID : ℚ) (root : CanvasRoot)
    (operations : List CanvasOperation) (hwf : root.Wf) :
    (∀ root', applyCanvasOperations root operations clientID = some root' →
      Preserves clientID operations root root') ∧
    ((∀ kind, Deletes operations kind → PrimitiveOrder ((loadRoot root).kind kind).order) →
      (applyCanvasOperations root operations clientID).isSome) ∧
    let root' := (canonicalizeCanvasOrders root).1
    canonicalizeCanvasOrders root' = (root', false) := by
  refine ⟨?_, ?_, ?_⟩
  · intro root' h
    obtain ⟨s, hrun, hroot'⟩ := Option.bind_eq_some_iff.mp h
    obtain rfl := Option.some.inj hroot'
    exact preserves_of_run hwf hrun
  · intro hprim
    obtain ⟨s, hrun, -⟩ := OptionFold.foldlM_returns
      (fun _ _ hmem hs => applyOperation_returns clientID hs hmem) ⟨hprim .node, hprim .edge⟩
    rw [applyCanvasOperations, hrun]
    rfl
  · unfold canonicalizeCanvasOrders
    simp only [canonicalizeSlot_again hwf.nodes, canonicalizeSlot_again hwf.edges, Bool.or_self]

/-- A root of nodes alone, with the client that deleted each tombstoned id. -/
def nodesRoot (nodes : List (JsString × List (JsString × JsString)))
    (tombstones : List (JsString × ℚ)) (order : List Node) : CanvasRoot where
  nodes := some (.map (nodes.map fun e => (e.1, stringMap e.2)))
  edges := none
  deletedNodeIds := some (.map (tombstones.map fun e => (e.1, .plain (.num e.2))))
  deletedEdgeIds := none
  nodeOrder := some (.array order)
  edgeOrder := none

theorem wf_nodesRoot {nodes : List (JsString × List (JsString × JsString))}
    (h : (Assoc.keys nodes).Nodup) (tombstones : List (JsString × ℚ)) (order : List Node) :
    (nodesRoot nodes tombstones order).Wf := by
  refine ⟨?_, fun items hitems => nomatch hitems⟩
  intro items hitems
  obtain rfl := Option.some.inj hitems
  rw [Assoc.Wf, Assoc.keys, List.map_map]
  exact h

/-- Node `a` is deleted and `c`, deleted by client 1, restored; the order array
lists `a` twice and a number. -/
theorem operations_preserve_canvas_restored :
    let root := nodesRoot [(ascii "a", []), (ascii "b", [])] [(ascii "c", 1)]
      [.plain (.str (ascii "a")), .plain (.num 5), .plain (.str (ascii "a"))]
    let operations : List CanvasOperation := [.item .node (.delete (ascii "a")),
      .item .node (.restore [(idKey, .str (ascii "c"))]), .item .node (.patch (ascii "b") ⟨[], []⟩)]
    ∃ root', applyCanvasOperations root operations 7 = some root' ∧
      Preserves 7 operations root root' := by
  intro root operations
  obtain ⟨hkeeps, hreturns, -⟩ := operations_preserve_canvas 7 root operations
    (wf_nodesRoot (by decide) _ _)
  have hprim : ∀ kind, Deletes operations kind →
      PrimitiveOrder ((loadRoot root).kind kind).order := by
    intro kind _
    cases kind with
    | node =>
        refine ⟨[.str (ascii "a"), .num 5, .str (ascii "a")], rfl, ?_⟩
        simp [Primitive]
    | edge => exact ⟨[], rfl, by simp⟩
  obtain ⟨root', hroot'⟩ := Option.isSome_iff_exists.mp (hreturns hprim)
  exact ⟨root', hroot', hkeeps root' hroot'⟩

/-- An id that is live under another client's tombstone stays so without any
operation; and a deletion does not return when its order array holds a map. -/
theorem not_operations_preserve_canvas :
    (¬∀ (clientID : ℚ) (root root' : CanvasRoot) (operations : List CanvasOperation) (kind : Kind)
        (id : JsString), root.Wf → applyCanvasOperations root operations clientID = some root' →
      (((loadRoot root).kind kind).slot id).Foreign clientID →
      (((loadRoot root').kind kind).slot id).Live → Restores operations kind id) ∧
    ∃ (clientID : ℚ) (root : CanvasRoot) (operations : List CanvasOperation), root.Wf ∧
      applyCanvasOperations root operations clientID = none := by
  constructor
  · intro h
    let root := nodesRoot [(ascii "a", [])] [(ascii "a", 1)] (orderNodes [ascii "a"])
    have hforeign : (((loadRoot root).kind .node).slot (ascii "a")).Foreign 7 :=
      ⟨⟨.plain (.num 1), rfl, by simp⟩, by decide⟩
    obtain ⟨item, hmem, -⟩ :=
      h 7 root _ [] .node (ascii "a") (wf_nodesRoot (by decide) _ _) rfl hforeign rfl
    exact nomatch hmem
  · refine ⟨7, nodesRoot [(ascii "a", [])] [] [.map []], [.item .node (.delete (ascii "a"))],
      wf_nodesRoot (by decide) _ _, ?_⟩
    decide

end Realtime.Structured
