import Realtime.Structured.CanvasOperations

/-!
# Reconciling a canvas with a snapshot

`reconcileCanvas` of `src/structured/canvas.ts`. A snapshot may be stale: an item it
lacks is deleted only where the snapshot's base has it, or, without a base, where this
client created it; an item it has is not written where another client has deleted it.
Every deletion leaves a tombstone with the id of the client that made it.

An entry of a shared map is a Yjs item, which names the client that set it. That is kept
for nodes and edges (`Slot`), where it is read.

`id in incoming`, `id in known` and `key in incoming` are also true of the names of
`Object.prototype`.
-/

namespace Realtime.Structured.CanvasReconcile

open Lib Lib.Js Lib.Utf16

/-- An entry of `nodes` or `edges`, with the client of its Yjs item. -/
structure Slot where
  origin : ℚ
  node : Node

/-- What a parsed canvas is: its records hold JSON under distinct ids. -/
structure Snapshot extends StructuredCanvas where
  nodes_json : Value.IsJson (.obj true nodes)
  edges_json : Value.IsJson (.obj true edges)

/-- The items of one kind and their tombstones. -/
structure Items where
  items : List (JsString × Slot)
  tombstones : List (JsString × Node)

/-- The root map: the entries of each shared type under its name, where there is one. -/
structure Root where
  nodes : Option (List (JsString × Slot))
  edges : Option (List (JsString × Slot))
  deletedNodeIds : Option (List (JsString × Node))
  deletedEdgeIds : Option (List (JsString × Node))
  nodeOrder : Option (List Node)
  edgeOrder : Option (List Node)

/-- A tombstone that is not `undefined`. -/
def stamp : Option Node → Option Node
  | some (.plain .undefined) => none
  | slot => slot

section

variable (clientID : ℚ)

/-- Whether the first loop goes on to delete a live item that the snapshot lacks. -/
def drops (known : Option (List (JsString × Value))) (id : JsString) (slot : Slot) : Bool :=
  match known with
  | some known => (Value.obj true known).hasKey id
  | none => slot.origin = clientID

/-- The body of the first loop. -/
def dropMissing (incoming : List (JsString × Value)) (known : Option (List (JsString × Value)))
    (s : Items) (id : JsString) : Items :=
  if (Value.obj true incoming).hasKey id then s
  else
    match Assoc.get id s.items with
    | none => s
    | some slot =>
        if drops clientID known id slot then
          { tombstones := Assoc.set id (.plain (.num clientID)) s.tombstones
            items := Assoc.erase id s.items }
        else s

/-- `reconcileItemFields(itemMap, incoming, {})` -/
def reconcileItemFields (itemMap : List (JsString × Node)) (inherits : Bool)
    (incoming : List (JsString × Value)) : List (JsString × Node) :=
  (reconcileMap {} itemMap inherits incoming).1

/-- Write an item into its map, which is created if need be. -/
def writeItem (s : Items) (id : JsString) (inherits : Bool) (incoming : List (JsString × Value)) :
    Items :=
  let slot := match Assoc.get id s.items with
    | some ⟨origin, .map fields⟩ => ⟨origin, .map (reconcileItemFields fields inherits incoming)⟩
    | _ => ⟨clientID, .map (reconcileItemFields [] inherits incoming)⟩
  { s with items := Assoc.set id slot s.items }

/-- The body of the second loop. -/
def writeEntry (s : Items) (entry : JsString × Value) : Items :=
  match entry.2 with
  | .obj inherits incoming =>
      match stamp (Assoc.get entry.1 s.tombstones) with
      | none => writeItem clientID s entry.1 inherits incoming
      | some tombstonedBy =>
          if sameSlot (some tombstonedBy) (.plain (.num clientID)) then
            writeItem clientID { s with tombstones := Assoc.erase entry.1 s.tombstones } entry.1
              inherits incoming
          else s
  | _ => s

def reconcileCanvasItems (s : Items) (incoming : List (JsString × Value))
    (known : Option (List (JsString × Value))) : Items :=
  let dropped := (Assoc.keys s.items).foldl (dropMissing clientID incoming known) s
  incoming.foldl (writeEntry clientID) dropped

end

def Root.kind (root : Root) : Kind → Items
  | .node => ⟨root.nodes.getD [], root.deletedNodeIds.getD []⟩
  | .edge => ⟨root.edges.getD [], root.deletedEdgeIds.getD []⟩

def Snapshot.kind (canvas : Snapshot) : Kind → List (JsString × Value)
  | .node => canvas.nodes
  | .edge => canvas.edges

/-- `reconcileCanvas`, over both kinds of items. -/
def reconcileCanvas (root : Root) (incoming : Snapshot) (clientID : ℚ) (base : Option Snapshot) :
    Root :=
  let nodes := reconcileCanvasItems clientID (root.kind .node) incoming.nodes
    (base.map fun base => base.nodes)
  let edges := reconcileCanvasItems clientID (root.kind .edge) incoming.edges
    (base.map fun base => base.edges)
  { nodes := some nodes.items
    deletedNodeIds := some nodes.tombstones
    edges := some edges.items
    deletedEdgeIds := some edges.tombstones
    nodeOrder := some (writeOrder (root.nodeOrder.getD []) incoming.nodeOrder)
    edgeOrder := some (writeOrder (root.edgeOrder.getD []) incoming.edgeOrder) }

/-! ## One id at a time -/

/-- What the shared map and the tombstones hold for one id. -/
structure Entry where
  item : Option Slot
  tombstone : Option Node

def Items.entry (s : Items) (id : JsString) : Entry :=
  ⟨Assoc.get id s.items, Assoc.get id s.tombstones⟩

section

variable (clientID : ℚ)

/-- Another client has deleted the id. -/
def Entry.Foreign (e : Entry) : Prop :=
  ∃ node, stamp e.tombstone = some node ∧
    sameSlot (some node) (.plain (.num clientID)) = false

def Entry.Live (e : Entry) : Prop := ∃ slot, e.item = some slot

/-- `dropMissing` at the id it is called for. -/
def Entry.dropMissing (incoming : List (JsString × Value))
    (known : Option (List (JsString × Value))) (id : JsString) (e : Entry) : Entry :=
  match e.item with
  | none => e
  | some slot =>
      if (Value.obj true incoming).hasKey id = false ∧ drops clientID known id slot = true then
        ⟨none, some (.plain (.num clientID))⟩
      else e

def Entry.write (inherits : Bool) (incoming : List (JsString × Value)) (e : Entry) : Entry where
  item :=
    match e.item with
    | some ⟨origin, .map fields⟩ =>
        some ⟨origin, .map (reconcileItemFields fields inherits incoming)⟩
    | _ => some ⟨clientID, .map (reconcileItemFields [] inherits incoming)⟩
  tombstone := e.tombstone

/-- `writeEntry` at the id it is called for. -/
def Entry.writeEntry (value : Value) (e : Entry) : Entry :=
  match value with
  | .obj inherits incoming =>
      match stamp e.tombstone with
      | none => e.write clientID inherits incoming
      | some tombstonedBy =>
          if sameSlot (some tombstonedBy) (.plain (.num clientID)) then
            Entry.write clientID inherits incoming ⟨e.item, none⟩
          else e
  | _ => e

variable {clientID} {incoming : List (JsString × Value)}
  {known : Option (List (JsString × Value))} {s : Items} {id : JsString}

theorem Entry.dropMissing_of_none {e : Entry} (h : e.item = none) :
    e.dropMissing clientID incoming known id = e := by
  rw [Entry.dropMissing, h]

theorem Entry.dropMissing_of_some {e : Entry} {slot : Slot} (h : e.item = some slot) :
    e.dropMissing clientID incoming known id =
      if (Value.obj true incoming).hasKey id = false ∧ drops clientID known id slot = true then
        ⟨none, some (.plain (.num clientID))⟩
      else e := by
  rw [Entry.dropMissing, h]

theorem entry_dropMissing (s : Items) (k id : JsString) :
    (dropMissing clientID incoming known s k).entry id =
      if k = id then (s.entry id).dropMissing clientID incoming known id else s.entry id := by
  rw [dropMissing]
  by_cases hk : k = id
  · subst hk
    rw [if_pos rfl]
    cases hget : Assoc.get k s.items with
    | none =>
        rw [Entry.dropMissing_of_none (show (s.entry k).item = none from hget)]
        split <;> rfl
    | some slot =>
        rw [Entry.dropMissing_of_some (show (s.entry k).item = some slot from hget)]
        dsimp only
        by_cases hhas : (Value.obj true incoming).hasKey k = true
        · rw [if_pos hhas, if_neg (by simp [hhas])]
        · rw [if_neg hhas]
          by_cases hdrops : drops clientID known k slot = true
          · rw [if_pos hdrops, if_pos ⟨by simpa using hhas, hdrops⟩]
            simp [Items.entry]
          · rw [if_neg hdrops, if_neg fun h => hdrops h.2]
  · rw [if_neg hk]
    split
    · rfl
    · cases Assoc.get k s.items with
      | none => rfl
      | some slot =>
          dsimp only
          split
          · simp [Items.entry, Assoc.get_erase_ne hk, Assoc.get_set_ne hk]
          · rfl

theorem Entry.dropMissing_dropMissing (e : Entry) :
    (e.dropMissing clientID incoming known id).dropMissing clientID incoming known id =
      e.dropMissing clientID incoming known id := by
  cases hitem : e.item with
  | none => simp [Entry.dropMissing, hitem]
  | some slot =>
      by_cases h : (Value.obj true incoming).hasKey id = false ∧
          drops clientID known id slot = true
      · simp [Entry.dropMissing, hitem, h]
      · simp only [Entry.dropMissing, hitem, if_neg h]

/-- The first loop, whatever keys it goes over. -/
theorem entry_foldl_dropMissing (ks : List JsString) (s : Items) (id : JsString) :
    (ks.foldl (dropMissing clientID incoming known) s).entry id =
      if id ∈ ks then (s.entry id).dropMissing clientID incoming known id else s.entry id := by
  induction ks generalizing s with
  | nil => rfl
  | cons k ks ih =>
      rw [List.foldl_cons, ih, entry_dropMissing]
      by_cases hk : k = id
      · rw [if_pos hk, if_pos (List.mem_cons.mpr (Or.inl hk.symm)), Entry.dropMissing_dropMissing,
          ite_self]
      · rw [if_neg hk]
        simp [Ne.symm hk]

theorem entry_dropped (s : Items) (id : JsString) :
    ((Assoc.keys s.items).foldl (dropMissing clientID incoming known) s).entry id =
      (s.entry id).dropMissing clientID incoming known id := by
  rw [entry_foldl_dropMissing]
  split
  · rfl
  · next hmem =>
      -- an id that is not live has nothing to drop
      have hnone : (s.entry id).item = none := Assoc.get_eq_none_iff.mpr hmem
      rw [Entry.dropMissing, hnone]

theorem entry_writeItem (s : Items) (k id : JsString) (inherits : Bool)
    (fields : List (JsString × Value)) :
    (writeItem clientID s k inherits fields).entry id =
      if k = id then (s.entry id).write clientID inherits fields else s.entry id := by
  rw [writeItem]
  by_cases hk : k = id
  · subst hk
    rw [if_pos rfl, Entry.write, Items.entry, Items.entry]
    dsimp only
    rw [Assoc.get_set_self]
    congr 1
    split <;> rfl
  · rw [if_neg hk, Items.entry, Items.entry]
    dsimp only
    rw [Assoc.get_set_ne hk]

theorem entry_writeEntry (s : Items) (e : JsString × Value) (id : JsString) :
    (writeEntry clientID s e).entry id =
      if e.1 = id then (s.entry id).writeEntry clientID e.2 else s.entry id := by
  obtain ⟨k, value⟩ := e
  rw [writeEntry]
  cases value with
  | obj inherits fields =>
      dsimp only
      by_cases hk : k = id
      · subst hk
        rw [if_pos rfl, Entry.writeEntry]
        rw [show (s.entry k).tombstone = Assoc.get k s.tombstones from rfl]
        cases stamp (Assoc.get k s.tombstones) with
        | none => exact (entry_writeItem s k k inherits fields).trans (if_pos rfl)
        | some tombstonedBy =>
            dsimp only
            split
            · rw [entry_writeItem, if_pos rfl, Items.entry]
              dsimp only
              rw [Assoc.get_erase_self]
              rfl
            · rfl
      · rw [if_neg hk]
        split
        · rw [entry_writeItem, if_neg hk]
        · split
          · rw [entry_writeItem, if_neg hk, Items.entry, Items.entry]
            dsimp only
            rw [Assoc.get_erase_ne hk]
          · rfl
  | _ => simp [Entry.writeEntry]

theorem entry_foldl_writeEntry (hwf : Assoc.Wf incoming) (s : Items) (id : JsString) :
    (incoming.foldl (writeEntry clientID) s).entry id =
      match Assoc.get id incoming with
      | none => s.entry id
      | some value => (s.entry id).writeEntry clientID value := by
  induction incoming generalizing s with
  | nil => rfl
  | cons e incoming ih =>
      obtain ⟨hfresh, hwf⟩ := Assoc.wf_cons.mp hwf
      rw [List.foldl_cons, ih hwf, entry_writeEntry, Assoc.get_cons]
      by_cases hk : e.1 = id
      · rw [if_pos hk, if_pos hk, Assoc.get_eq_none_iff.mpr (hk ▸ hfresh)]
      · rw [if_neg hk, if_neg hk]

/-- What becomes of an id: it is dropped where the snapshot lacks it, and written where
the snapshot has it. -/
theorem entry_reconcileCanvasItems (hwf : Assoc.Wf incoming) (s : Items) (id : JsString) :
    (reconcileCanvasItems clientID s incoming known).entry id =
      match Assoc.get id incoming with
      | none => (s.entry id).dropMissing clientID incoming known id
      | some value => (s.entry id).writeEntry clientID value := by
  rw [reconcileCanvasItems, entry_foldl_writeEntry hwf, entry_dropped]
  cases hget : Assoc.get id incoming with
  | none => rfl
  | some value =>
      -- an id of the snapshot is not dropped
      have hhas : (Value.obj true incoming).hasKey id = true :=
        Value.hasKey_of_own (v := .obj true incoming) hget
      have hkept : (s.entry id).dropMissing clientID incoming known id = s.entry id := by
        rw [Entry.dropMissing]
        split
        · rfl
        · rw [if_neg]
          simp [hhas]
      rw [hkept]

/-! ## Neither resurrected nor destroyed -/

variable (clientID incoming known id)

/-- What a reconcile may do with one id. -/
structure Respects (before after : Entry) : Prop where
  /-- An id that another client has deleted stays deleted. -/
  not_resurrected : before.Foreign clientID → ¬before.Live → ¬after.Live
  /-- With a base, the deletions are those the snapshot was made with. -/
  dropped_iff : ∀ base, known = some base → before.Live →
    (¬after.Live ↔ id ∈ Assoc.keys base ∧ id ∉ Assoc.keys incoming)
  stamped : before.Live → ¬after.Live → after.tombstone = some (.plain (.num clientID))
  /-- Without one, a client deletes its own items only. -/
  own : known = none → ∀ slot, before.item = some slot → ¬after.Live → slot.origin = clientID
  written : ∀ inherits fields, Assoc.get id incoming = some (.obj inherits fields) →
    ¬before.Foreign clientID →
      ∃ slot, after.item = some slot ∧ SameJson (toValue slot.node) (.obj inherits fields)

/-- What the two loops get right: an item that goes away is not one that every object
seems to have, and the fields of an item can be written over what its map holds. -/
structure Applies (before : Entry) : Prop where
  not_inherited : ∀ base, known = some base → before.Live → id ∈ Assoc.keys base →
    id ∉ Assoc.keys incoming → id ∉ prototypeNames
  clean : ∀ inherits fields, Assoc.get id incoming = some (.obj inherits fields) →
    ¬before.Foreign clientID →
      Clean {} (before.item.map Slot.node) none (.obj inherits fields)

variable {clientID incoming known id}

theorem not_hasKey_iff : (Value.obj true incoming).hasKey id = false ↔
    id ∉ Assoc.keys incoming ∧ id ∉ prototypeNames := by
  simp [Value.hasKey]

theorem Entry.write_item (clientID : ℚ) (e : Entry) (inherits : Bool)
    (fields : List (JsString × Value)) :
    ∃ origin, (e.write clientID inherits fields).item = some ⟨origin,
      .map (reconcileMap {} ((mapOf (e.item.map Slot.node)).getD []) inherits fields).1⟩ := by
  rw [Entry.write]
  cases hitem : e.item with
  | none => exact ⟨clientID, rfl⟩
  | some slot =>
      obtain ⟨origin, node⟩ := slot
      cases node with
      | map fields' => exact ⟨origin, rfl⟩
      | _ => exact ⟨clientID, rfl⟩

/-- A write is exact where the fields can be written. -/
theorem Entry.sameJson_write_iff (e : Entry) {inherits : Bool}
    {fields : List (JsString × Value)} (hjson : Value.IsJson (.obj inherits fields)) :
    (∃ slot, (e.write clientID inherits fields).item = some slot ∧
      SameJson (toValue slot.node) (.obj inherits fields)) ↔
      Clean {} (e.item.map Slot.node) none (.obj inherits fields) := by
  obtain ⟨-, hwf, -, hvals⟩ := hjson.obj_inv
  obtain ⟨origin, hitem⟩ := e.write_item clientID inherits fields
  have hwrites : SameJson (toValue (.map (reconcileMap {}
      ((mapOf (e.item.map Slot.node)).getD []) inherits fields).1)) (.obj inherits fields) ↔ _ :=
    sameJson_reconcileMap_iff hwf (fun f hf => writes {} (hvals f hf)) _
  rw [Clean, ← hwrites, hitem]
  constructor
  · rintro ⟨slot, hslot, hsame⟩
    obtain rfl := Option.some.inj hslot
    exact hsame
  · exact fun hsame => ⟨_, rfl, hsame⟩

theorem Entry.writeEntry_of_not_foreign {e : Entry} (h : ¬e.Foreign clientID) (inherits : Bool)
    (fields : List (JsString × Value)) :
    (e.writeEntry clientID (.obj inherits fields)).item =
        (e.write clientID inherits fields).item ∧
      stamp (e.writeEntry clientID (.obj inherits fields)).tombstone = none := by
  rw [Entry.writeEntry]
  cases hstamp : stamp e.tombstone with
  | none => exact ⟨rfl, hstamp⟩
  | some tombstonedBy =>
      have hown : sameSlot (some tombstonedBy) (.plain (.num clientID)) = true := by
        by_contra hother
        exact h ⟨tombstonedBy, hstamp, by simpa using hother⟩
      dsimp only
      rw [if_pos hown]
      exact ⟨rfl, rfl⟩

theorem Entry.writeEntry_of_foreign {e : Entry} (h : e.Foreign clientID) (value : Value) :
    e.writeEntry clientID value = e := by
  obtain ⟨node, hstamp, hother⟩ := h
  cases value with
  | obj inherits fields =>
      rw [Entry.writeEntry, hstamp]
      dsimp only
      rw [if_neg (by simp [hother])]
  | _ => rfl

theorem Entry.live_writeEntry {e : Entry} (h : e.Live) (value : Value) :
    (e.writeEntry clientID value).Live := by
  by_cases hforeign : e.Foreign clientID
  · rwa [Entry.writeEntry_of_foreign hforeign]
  · cases value with
    | obj inherits fields =>
        obtain ⟨origin, hitem⟩ := e.write_item clientID inherits fields
        exact ⟨_, (Entry.writeEntry_of_not_foreign hforeign inherits fields).1.trans hitem⟩
    | _ => exact h

theorem Entry.live_of_item {e : Entry} {slot : Slot} (h : e.item = some slot) : e.Live :=
  ⟨slot, h⟩

theorem respects_of_missing (before : Entry) (hmissing : id ∉ Assoc.keys incoming) :
    Respects clientID incoming known id before
        (before.dropMissing clientID incoming known id) ↔
      Applies clientID incoming known id before := by
  have hwritten : ∀ inherits fields,
      Assoc.get id incoming ≠ some (.obj inherits fields) := by
    intro inherits fields hget
    exact hmissing (Assoc.get_isSome_iff.mp (by simp [hget]))
  cases hitem : before.item with
  | none =>
      have hdead : ¬before.Live := by
        rintro ⟨slot, hslot⟩
        rw [hitem] at hslot
        cases hslot
      rw [Entry.dropMissing_of_none hitem]
      refine iff_of_true
        ⟨fun _ h => h, fun _ _ h => absurd h hdead, fun h => absurd h hdead, ?_, ?_⟩
        ⟨fun _ _ h => absurd h hdead, fun _ _ hget => absurd hget (hwritten _ _)⟩
      · intro _ slot hslot
        rw [hitem] at hslot
        cases hslot
      · exact fun _ _ hget => absurd hget (hwritten _ _)
  | some slot =>
      have hlive := Entry.live_of_item hitem
      have hafter : ¬(before.dropMissing clientID incoming known id).Live ↔
          (Value.obj true incoming).hasKey id = false ∧ drops clientID known id slot = true := by
        rw [Entry.dropMissing_of_some hitem]
        split
        · next h => exact iff_of_true (by rintro ⟨_, ⟨⟩⟩) h
        · next h => exact iff_of_false (fun hnot => hnot hlive) h
      constructor
      · intro h
        refine ⟨fun base hbase _ hmem _ => ?_, fun _ _ hget => absurd hget (hwritten _ _)⟩
        have hgone := (h.dropped_iff base hbase hlive).mpr ⟨hmem, hmissing⟩
        exact (not_hasKey_iff.mp (hafter.mp hgone).1).2
      · intro h
        refine ⟨fun _ hdead => absurd hlive hdead, fun base hbase _ => ?_, fun _ hgone => ?_,
          fun hknown slot' hslot hgone => ?_, fun _ _ hget => absurd hget (hwritten _ _)⟩
        · rw [hafter, not_hasKey_iff, hbase]
          constructor
          · rintro ⟨⟨-, hname⟩, hdrops⟩
            refine ⟨?_, hmissing⟩
            have hhas : (Value.obj true base).hasKey id = true := hdrops
            simpa [Value.hasKey, hname] using hhas
          · rintro ⟨hmem, -⟩
            refine ⟨⟨hmissing, h.not_inherited base hbase hlive hmem hmissing⟩, ?_⟩
            show (Value.obj true base).hasKey id = true
            simp [Value.hasKey, hmem]
        · rw [Entry.dropMissing_of_some hitem, if_pos (hafter.mp hgone)]
        · obtain rfl := Option.some.inj (hitem.symm.trans hslot)
          have hdrops := (hafter.mp hgone).2
          rw [hknown] at hdrops
          exact of_decide_eq_true hdrops

theorem respects_of_present (before : Entry) {value : Value} (hjson : value.IsJson)
    (hget : Assoc.get id incoming = some value) :
    Respects clientID incoming known id before (before.writeEntry clientID value) ↔
      Applies clientID incoming known id before := by
  have hmem : id ∈ Assoc.keys incoming := Assoc.get_isSome_iff.mp (by simp [hget])
  have hwritten : ∀ inherits fields, ¬before.Foreign clientID → value = .obj inherits fields →
      ((∃ slot, (before.writeEntry clientID value).item = some slot ∧
          SameJson (toValue slot.node) (.obj inherits fields)) ↔
        Clean {} (before.item.map Slot.node) none (.obj inherits fields)) := by
    rintro inherits fields hforeign rfl
    rw [(Entry.writeEntry_of_not_foreign hforeign inherits fields).1]
    exact before.sameJson_write_iff hjson
  constructor
  · intro h
    refine ⟨fun _ _ _ _ hnot => absurd hmem hnot, fun inherits fields hobj hforeign => ?_⟩
    exact (hwritten inherits fields hforeign (Option.some.inj (hget.symm.trans hobj))).mp
      (h.written inherits fields hobj hforeign)
  · intro h
    refine ⟨fun hforeign hdead => ?_, fun _ _ hlive => ?_, fun hlive hgone => ?_,
      fun _ slot hslot hgone => ?_, fun inherits fields hobj hforeign => ?_⟩
    · rwa [Entry.writeEntry_of_foreign hforeign]
    · exact iff_of_false (fun hgone => hgone (Entry.live_writeEntry hlive value))
        fun hdropped => hdropped.2 hmem
    · exact absurd (Entry.live_writeEntry hlive value) hgone
    · exact absurd (Entry.live_writeEntry (Entry.live_of_item hslot) value) hgone
    · exact (hwritten inherits fields hforeign (Option.some.inj (hget.symm.trans hobj))).mpr
        (h.clean inherits fields hobj hforeign)

theorem respects_reconcileCanvasItems_iff (hjson : Value.IsJson (.obj true incoming)) (s : Items)
    (id : JsString) :
    Respects clientID incoming known id (s.entry id)
        ((reconcileCanvasItems clientID s incoming known).entry id) ↔
      Applies clientID incoming known id (s.entry id) := by
  obtain ⟨-, hwf, -, hvals⟩ := hjson.obj_inv
  rw [entry_reconcileCanvasItems hwf]
  cases hget : Assoc.get id incoming with
  | none => exact respects_of_missing _ (Assoc.get_eq_none_iff.mp hget)
  | some value => exact respects_of_present _ (hvals _ (Assoc.mem_of_get hget)) hget

end

/-! ## The whole canvas -/

theorem reconcileCanvas_kind (root : Root) (incoming : Snapshot) (clientID : ℚ)
    (base : Option Snapshot) (kind : Kind) :
    (reconcileCanvas root incoming clientID base).kind kind =
      reconcileCanvasItems clientID (root.kind kind) (incoming.kind kind)
        (base.map fun base => base.kind kind) := by
  cases kind <;> rfl

theorem Snapshot.json (canvas : Snapshot) (kind : Kind) :
    Value.IsJson (.obj true (canvas.kind kind)) := by
  cases kind with
  | node => exact canvas.nodes_json
  | edge => exact canvas.edges_json

/-- What becomes of an id that a client deletes and then has in its snapshot again. -/
theorem entry_readded {root : Root} {deleting adding : Snapshot} {clientID : ℚ}
    {base base' : Option Snapshot} {kind : Kind} {id : JsString} {inherits : Bool}
    {fields : List (JsString × Value)} (hlive : ((root.kind kind).entry id).Live)
    (hgone : ¬(((reconcileCanvas root deleting clientID base).kind kind).entry id).Live)
    (hget : Assoc.get id (adding.kind kind) = some (.obj inherits fields)) :
    ((reconcileCanvas (reconcileCanvas root deleting clientID base) adding clientID base').kind
        kind).entry id =
      Entry.write clientID inherits fields ⟨none, none⟩ := by
  have hdeleting := (deleting.json kind).obj_inv.2.1
  have hadding := (adding.json kind).obj_inv.2.1
  rw [reconcileCanvas_kind, entry_reconcileCanvasItems hdeleting] at hgone
  have hentry : ((reconcileCanvas root deleting clientID base).kind kind).entry id =
      ⟨none, some (.plain (.num clientID))⟩ := by
    rw [reconcileCanvas_kind, entry_reconcileCanvasItems hdeleting]
    cases hmissing : Assoc.get id (deleting.kind kind) with
    | some value =>
        rw [hmissing] at hgone
        exact absurd (Entry.live_writeEntry hlive value) hgone
    | none =>
        obtain ⟨slot, hslot⟩ := hlive
        rw [hmissing] at hgone
        dsimp only at hgone ⊢
        rw [Entry.dropMissing_of_some hslot] at hgone ⊢
        split
        · rfl
        · next hkept =>
            rw [if_neg hkept] at hgone
            exact absurd ⟨slot, hslot⟩ hgone
  rw [reconcileCanvas_kind, entry_reconcileCanvasItems hadding, hget, hentry]
  show (if sameSlot (some (.plain (.num clientID))) (.plain (.num clientID)) = true then _
    else _) = _
  rw [if_pos (by simp [sameSlot, Value.strictEq])]

def oneNode (id : JsString) : Snapshot where
  nodes := [(id, .obj true [])]
  edges := []
  nodeOrder := [id]
  edgeOrder := []
  nodes_json := .obj rfl (List.nodup_singleton _) (fun _ _ => trivial) fun e he => by
    obtain rfl := List.mem_singleton.mp he
    exact .obj rfl Assoc.wf_nil nofun nofun
  edges_json := .obj rfl Assoc.wf_nil nofun nofun

def noNodes : Snapshot where
  nodes := []
  edges := []
  nodeOrder := []
  edgeOrder := []
  nodes_json := .obj rfl Assoc.wf_nil nofun nofun
  edges_json := .obj rfl Assoc.wf_nil nofun nofun

/-- The shared root after client 7 has put the node there. -/
def rootWith (id : JsString) : Root where
  nodes := some [(id, ⟨7, .map []⟩)]
  edges := none
  deletedNodeIds := none
  deletedEdgeIds := none
  nodeOrder := some [.plain (.str id)]
  edgeOrder := none

end Realtime.Structured.CanvasReconcile
