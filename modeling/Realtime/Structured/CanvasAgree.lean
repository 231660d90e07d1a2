import Realtime.Structured.CanvasInvariant
import Realtime.Structured.CanvasServer

/-!
# Server and client apply canvas operations alike

A batch the server accepts, applied to the JSON value of a canvas and by
`applyCanvasOperations` to a root that holds the same value. The two go through
the operations in step: what the server keeps for an id is what the client's slot
of that id reads as.

Three things tell them apart. The server replaces a field where the client
rewrites the shared type that holds it, which `Clean` is about; it compares the
ends of an edge as strings where the client does not find an id that is kept in a
text; and it orders the ids an explicit order leaves out by their UTF-8 bytes,
where the client goes by code units.
-/

namespace Realtime.Structured

open Lib Lib.Js Lib.Utf16

/-! ## One slot -/

/-- What the client keeps for an id reads as what the server keeps. -/
def SameSlots (slot : Option Node) (value : Option Value) : Prop :=
  (slot = none ∧ value = none) ∨
    ∃ fields v, slot = some (.map fields) ∧ value = some v ∧ SameJson (toValue (.map fields)) v

/-- A shared map holds the items of a canvas when all slots do. -/
theorem holds_iff {items : List (JsString × Node)} {values : List (JsString × Value)} :
    Holds items values ↔
      Assoc.Wf items ∧ Assoc.get dunderProto items = none ∧
        ∀ id, SameSlots (Assoc.get id items) (Assoc.get id values) := by
  constructor
  · intro h
    obtain ⟨hproto, habsent, hreads⟩ := sameJson_map_iff.mp h.same
    refine ⟨h.wf, Assoc.get_eq_none_iff.mpr h.no_proto, ?_⟩
    intro id
    cases hv : Assoc.get id values with
    | none => exact .inl ⟨h.get_eq_none (Assoc.get_eq_none_iff.mp hv), rfl⟩
    | some v =>
        obtain ⟨node, hnode, hsame⟩ := hreads id v hv
        obtain ⟨fields, rfl⟩ := h.maps id node hnode
        exact .inr ⟨fields, v, hnode, rfl, hsame⟩
  · rintro ⟨hwf, hproto, hslots⟩
    refine ⟨hwf, Assoc.get_eq_none_iff.mp hproto, ?_, sameJson_map_iff.mpr ⟨?_, ?_, ?_⟩⟩
    · intro id node hnode
      rcases hslots id with ⟨hnone, -⟩ | ⟨fields, v, hmap, -, -⟩
      · exact nomatch hnode.symm.trans hnone
      · exact ⟨fields, Option.some.inj (hnode.symm.trans hmap)⟩
    · rw [← Assoc.get_eq_none_iff]
      rcases hslots dunderProto with ⟨-, hnone⟩ | ⟨fields, v, hmap, -, -⟩
      · exact hnone
      · exact nomatch hproto.symm.trans hmap
    · intro id _ hid
      rcases hslots id with ⟨hnone, -⟩ | ⟨fields, v, -, hv, -⟩
      · exact hnone
      · exact nomatch (Assoc.get_eq_none_iff.mpr hid).symm.trans hv
    · intro id v hv
      rcases hslots id with ⟨-, hnone⟩ | ⟨fields, w, hmap, hw, hsame⟩
      · exact nomatch hv.symm.trans hnone
      · exact ⟨_, hmap, Option.some.inj (hw.symm.trans hv) ▸ hsame⟩

/-- Nothing keeps the client from writing the fields of a patch as they are. -/
def CleanPatch (patch : CanvasFieldPatch) (fields : List (JsString × Node)) : Prop :=
  ∀ key next, key ≠ idKey → Assoc.get key patch.set = some next →
    key ≠ dunderProto ∧
      Clean {} (if key ∈ patch.remove then none else Assoc.get key fields) (some key) next

theorem get_setLoop (entries : List (JsString × Value)) (hwf : Assoc.Wf entries)
    (fields : List (JsString × Value)) {key : JsString} (hkey : key ≠ idKey) :
    Assoc.get key (entries.foldl (fun fields entry =>
      if entry.1 = idKey then fields else Assoc.set entry.1 entry.2 fields) fields) =
      match Assoc.get key entries with
      | some v => some v
      | none => Assoc.get key fields := by
  induction entries generalizing fields with
  | nil => rfl
  | cons e entries ih =>
      obtain ⟨k, v⟩ := e
      obtain ⟨hfresh, hwf⟩ := Assoc.wf_cons.mp hwf
      rw [List.foldl_cons, ih hwf, Assoc.get_cons]
      by_cases hk : k = key
      · subst hk
        rw [Assoc.get_eq_none_iff.mpr hfresh, if_pos rfl, if_neg hkey]
        exact Assoc.get_set_self _ _ _
      · rw [if_neg hk]
        split
        · rfl
        · dsimp only
          split
          · rfl
          · exact Assoc.get_set_ne hk _ _

/-- The server's patch, field by field. -/
theorem get_patchedFields {patch : CanvasFieldPatch} (hwf : Assoc.Wf patch.set) (id : JsString)
    (fields : List (JsString × Value)) {key : JsString} (hkey : key ≠ idKey) :
    Assoc.get key (Server.patchedFields id patch fields) =
      match Assoc.get key patch.set with
      | some v => some v
      | none => if key ∈ patch.remove then none else Assoc.get key fields := by
  unfold Server.patchedFields
  dsimp only
  rw [Assoc.get_set_ne (Ne.symm hkey), get_setLoop _ hwf _ hkey, get_removeLoop _ _ hkey]

/-- Two records with the same fields. -/
theorem SameJson.congr_entries {v : Value} {i : Bool} {es fs : List (JsString × Value)}
    (hget : ∀ key, Assoc.get key fs = Assoc.get key es) (h : SameJson v (.obj i es)) :
    SameJson v (.obj i fs) := by
  cases h with
  | atom h => cases v <;> cases h
  | obj hsome hvalues =>
      refine .obj (fun key => ?_) (fun key v w hv hw => ?_)
      · rw [hsome key, hget]
      · exact hvalues key v w hv ((hget key).symm.trans hw)

/-- A clean patch leaves the same fields on both sides. -/
theorem sameJson_patched {patch : CanvasFieldPatch} (hjson : Value.IsJson (.obj true patch.set))
    (id : JsString) {fields : List (JsString × Node)} {inherits : Bool}
    {values : List (JsString × Value)} (hclean : CleanPatch patch fields)
    (h : SameJson (toValue (.map fields)) (.obj inherits values)) :
    SameJson (toValue (.map (patchFields id patch fields)))
      (.obj inherits (Server.patchedFields id patch values)) := by
  have hwf : Assoc.Wf patch.set := hjson.obj_inv.2.1
  obtain ⟨hproto, habsent, hreads⟩ := sameJson_map_iff.mp h
  have hidServer : Assoc.get idKey (Server.patchedFields id patch values) = some (.str id) :=
    Assoc.get_set_self _ _ _
  refine sameJson_map_iff.mpr ⟨?_, ?_, ?_⟩
  · rw [← Assoc.get_eq_none_iff, get_patchedFields hwf id values (by decide)]
    cases hset : Assoc.get dunderProto patch.set with
    | some next => exact absurd rfl (hclean dunderProto next (by decide) hset).1
    | none =>
        dsimp only
        rw [Assoc.get_eq_none_iff.mpr hproto]
        split <;> rfl
  · intro key hne hkey
    rw [← Assoc.get_eq_none_iff] at hkey
    by_cases hid : key = idKey
    · rw [hid, hidServer] at hkey
      cases hkey
    rw [get_patchedFields hwf id values hid] at hkey
    rw [get_patchFields hwf id fields hid]
    cases hset : Assoc.get key patch.set with
    | some next => rw [hset] at hkey; cases hkey
    | none =>
        rw [hset] at hkey
        dsimp only at hkey ⊢
        split
        · rfl
        · rename_i hkeep
          rw [if_neg hkeep] at hkey
          exact habsent key hne (Assoc.get_eq_none_iff.mp hkey)
  · intro key v hv
    by_cases hid : key = idKey
    · subst hid
      obtain rfl := Option.some.inj (hidServer.symm.trans hv)
      exact ⟨_, get_id_patchFields _ _ _, sameJson_str_iff.mpr rfl⟩
    rw [get_patchedFields hwf id values hid] at hv
    rw [get_patchFields hwf id fields hid]
    cases hset : Assoc.get key patch.set with
    | some next =>
        rw [hset] at hv
        obtain rfl := Option.some.inj hv
        have hnext : next.IsJson := hjson.obj_inv.2.2.2 _ (Assoc.mem_of_get hset)
        exact ⟨_, rfl, (writes {} hnext _ _).1.mpr (hclean key next hid hset).2⟩
    | none =>
        rw [hset] at hv
        dsimp only at hv ⊢
        split
        · rename_i hremove
          rw [if_pos hremove] at hv
          cases hv
        · rename_i hkeep
          rw [if_neg hkeep] at hv
          exact hreads key v hv

/-! ## One kind of item -/

/-- The client's shared types hold the items of the server's value, with no
tombstone of another client. -/
structure AgreesKind (clientID : ℚ) (s : Server.JsonItems) (c : ItemState) : Prop where
  holds : Holds c.items (Server.ensureObject s.items)
  stones : ∀ id stone, Assoc.get id c.tombstones = some stone → stone = .plain (.num clientID)
  strings : Strings c

section Kind

variable {clientID : ℚ} {s s' : Server.JsonItems} {c c' : ItemState}

theorem AgreesKind.sound (h : AgreesKind clientID s c) : Sound clientID c :=
  ⟨h.holds.wf, h.stones⟩

/-- Both sides have changed one slot, to the same. -/
theorem AgreesKind.update (h : AgreesKind clientID s c) {id : JsString} (hne : id ≠ dunderProto)
    (hsound : Sound clientID c') (hstrings : Strings c')
    (hslot : SameSlots (Assoc.get id c'.items) (Assoc.get id (Server.ensureObject s'.items)))
    (hclient : ∀ j, id ≠ j → Assoc.get j c'.items = Assoc.get j c.items)
    (hserver : ∀ j, id ≠ j → Assoc.get j (Server.ensureObject s'.items) =
      Assoc.get j (Server.ensureObject s.items)) : AgreesKind clientID s' c' := by
  obtain ⟨-, hproto, hslots⟩ := holds_iff.mp h.holds
  refine ⟨holds_iff.mpr ⟨hsound.wf, ?_, ?_⟩, hsound.stones, hstrings⟩
  · rw [hclient _ hne]
    exact hproto
  · intro j
    by_cases hj : id = j
    · exact hj ▸ hslot
    · rw [hclient j hj, hserver j hj]
      exact hslots j

/-- The new item of a creation or a restore. -/
theorem sameJson_created {item : List (JsString × Value)}
    (hjson : Value.IsJson (.obj true item)) (id : JsString) (hclean : CleanPatch ⟨item, []⟩ []) :
    SameJson (toValue (.map (patchFields id ⟨item, []⟩ [])))
      (.obj true (Assoc.set idKey (.str id) item)) := by
  have hempty : SameJson (toValue (.map [])) (.obj true []) := sameJson_map_iff.mpr (by simp)
  have hpatched : SameJson (toValue (.map (patchFields id ⟨item, []⟩ [])))
      (.obj true (Server.patchedFields id ⟨item, []⟩ [])) :=
    sameJson_patched hjson id hclean hempty
  apply hpatched.congr_entries
  intro key
  by_cases hkey : key = idKey
  · subst hkey
    rw [Assoc.get_set_self]
    exact (Assoc.get_set_self _ _ _).symm
  · have hwf : Assoc.Wf item := hjson.obj_inv.2.1
    rw [Assoc.get_set_ne (Ne.symm hkey), get_patchedFields hwf id [] hkey]
    cases Assoc.get key item <;> simp

/-- A creation or a restore, once the client has put the item where the server
has. -/
theorem AgreesKind.created (h : AgreesKind clientID s c) {item : List (JsString × Value)}
    {restore : Bool} (hserver : Server.createCanvasItem s item restore = .ok s')
    (hjson : Value.IsJson (.obj true item)) (hclean : CleanPatch ⟨item, []⟩ []) {id : JsString}
    (hid : Assoc.get idKey item = some (.str id)) (hne : id ≠ dunderProto)
    (hsound : Sound clientID c') (hstrings : Strings c')
    (hget : ∀ j, Assoc.get j c'.items =
      if id = j then
        some (.map (patchFields id ⟨item, []⟩ ((mapOf (Assoc.get id c.items)).getD [])))
      else Assoc.get j c.items) : AgreesKind clientID s' c' := by
  obtain ⟨id', hid', -, hfresh, rfl⟩ := Server.createCanvasItem_eq_ok hserver
  obtain rfl : id' = id := by simpa using hid'.symm.trans hid
  apply h.update hne hsound hstrings
  · refine .inr ⟨_, _, ?_, Assoc.get_set_self _ _ _, sameJson_created hjson id' hclean⟩
    rw [hget, if_pos rfl, h.holds.get_eq_none hfresh]
    rfl
  · intro j hj
    rw [hget, if_neg hj]
  · intro j hj
    exact Assoc.get_set_ne hj _ _

theorem itemId_eq_some {item : List (JsString × Value)} {id : JsString}
    (hid : Assoc.get idKey item = some (.str id)) (hne : id.isEmpty = false) :
    itemId item = some id := by
  have hread : (Value.obj true item).read idKey = .str id :=
    Value.read_of_own (v := .obj true item) hid
  rw [itemId, hread]
  exact if_neg (by simp [hne])

theorem AgreesKind.create (h : AgreesKind clientID s c) {item : List (JsString × Value)}
    (hserver : Server.createCanvasItem s item false = .ok s')
    (hjson : Value.IsJson (.obj true item)) (hclean : CleanPatch ⟨item, []⟩ [])
    (hproto : itemId item ≠ some dunderProto) :
    AgreesKind clientID s' (createItem c item clientID) := by
  obtain ⟨id, hid, hempty, -, -⟩ := Server.createCanvasItem_eq_ok hserver
  obtain ⟨hsound, horder, hget⟩ := createItem_spec h.sound hid
  have hne : id ≠ dunderProto := by
    rintro rfl
    exact hproto (itemId_eq_some hid hempty)
  apply h.created hserver hjson hclean hid hne hsound
  · obtain ⟨ids, hids⟩ := h.strings
    exact ⟨ids, horder.trans hids⟩
  · intro j
    rw [hget]
    split
    · rename_i hj
      subst hj
      simp [slotAfter, hempty]
    · rfl

theorem AgreesKind.restore (h : AgreesKind clientID s c) {item : List (JsString × Value)}
    (hserver : Server.createCanvasItem s item true = .ok s')
    (hjson : Value.IsJson (.obj true item)) (hclean : CleanPatch ⟨item, []⟩ [])
    (hproto : itemId item ≠ some dunderProto) :
    AgreesKind clientID s' (restoreItem c item) := by
  obtain ⟨id, hid, hempty, -, -⟩ := Server.createCanvasItem_eq_ok hserver
  have hitem := itemId_eq_some hid hempty
  have hne : id ≠ dunderProto := by
    rintro rfl
    exact hproto hitem
  unfold restoreItem
  rw [hitem]
  dsimp only
  apply h.created hserver hjson hclean hid hne
  · refine ⟨wf_patchItem (Assoc.wf_set h.holds.wf) _ _, ?_⟩
    intro j stone hstone
    dsimp only at hstone
    rw [Assoc.get_erase] at hstone
    split at hstone
    · cases hstone
    · exact h.stones j stone hstone
  · exact h.strings
  · exact fun j => get_upsertItem _ _ _ _

theorem AgreesKind.patch (h : AgreesKind clientID s c) {id : JsString} {patch : CanvasFieldPatch}
    (hserver : Server.applyCanvasPatch s id patch = .ok s')
    (hjson : Value.IsJson (.obj true patch.set))
    (hclean : ∀ fields, Assoc.get id c.items = some (.map fields) → CleanPatch patch fields) :
    AgreesKind clientID s' { c with items := patchItem c.items id patch } := by
  obtain ⟨inherits, values, hvalues, rfl⟩ := Server.applyCanvasPatch_eq_ok hserver
  obtain ⟨-, hproto, hslots⟩ := holds_iff.mp h.holds
  rcases hslots id with ⟨-, hnone⟩ | ⟨fields, v, hfields, hv, hsame⟩
  · exact nomatch hvalues.symm.trans hnone
  obtain rfl := Option.some.inj (hvalues.symm.trans hv)
  have hne : id ≠ dunderProto := by
    rintro rfl
    exact nomatch hproto.symm.trans hfields
  have hitems : patchItem c.items id patch =
      Assoc.set id (.map (patchFields id patch fields)) c.items := by
    rw [patchItem, hfields, mapOf_map]
  rw [hitems]
  have hsound : Sound clientID
      { c with items := Assoc.set id (.map (patchFields id patch fields)) c.items } :=
    ⟨Assoc.wf_set h.holds.wf, h.stones⟩
  apply h.update hne hsound h.strings
  · exact .inr ⟨_, _, Assoc.get_set_self _ _ _, Assoc.get_set_self _ _ _,
      sameJson_patched hjson id (hclean fields hfields) hsame⟩
  · exact fun j hj => Assoc.get_set_ne hj _ _
  · exact fun j hj => Assoc.get_set_ne hj _ _

theorem get_tombstoneCanvasItem (s : Server.JsonItems) (id j : JsString) :
    Assoc.get j (Server.ensureObject (Server.tombstoneCanvasItem s id).items) =
      if id = j then none else Assoc.get j (Server.ensureObject s.items) :=
  Assoc.get_erase _ _ _

theorem AgreesKind.delete (h : AgreesKind clientID s c) (id : JsString) :
    AgreesKind clientID (Server.tombstoneCanvasItem s id) (dropItem c id clientID) := by
  obtain ⟨-, hproto, hslots⟩ := holds_iff.mp h.holds
  have hsound := h.sound.dropItem id
  refine ⟨holds_iff.mpr ⟨hsound.wf, ?_, ?_⟩, hsound.stones,
    (deleteItem_of_strings clientID h.strings id).2⟩
  · rw [get_dropItem]
    split
    · rfl
    · exact hproto
  · intro j
    rw [get_dropItem, get_tombstoneCanvasItem]
    split
    · exact .inl ⟨rfl, rfl⟩
    · exact hslots j

/-- No edge keeps the id of the node in a text. -/
def EndsPlain (nodeId : JsString) (edges : List (JsString × Node)) : Prop :=
  ∀ id fields, Assoc.get id edges = some (.map fields) →
    ∀ key ∈ [ascii "fromNode", ascii "toNode"], Assoc.get key fields ≠ some (.text nodeId)

/-- A field that holds a string, for the client and for the server. -/
theorem field_eq_str_iff {fields : List (JsString × Node)} {inherits : Bool}
    {values : List (JsString × Value)} {nodeId key : JsString} (hkey : key ≠ dunderProto)
    (h : SameJson (toValue (.map fields)) (.obj inherits values))
    (hplain : Assoc.get key fields ≠ some (.text nodeId)) :
    sameSlot (Assoc.get key fields) (.plain (.str nodeId)) = true ↔
      (Assoc.get key values).bind Server.asStr = some nodeId := by
  obtain ⟨-, habsent, hreads⟩ := sameJson_map_iff.mp h
  rw [sameSlot_str_iff]
  constructor
  · intro hget
    cases hv : Assoc.get key values with
    | none => exact nomatch (habsent key hkey (Assoc.get_eq_none_iff.mp hv)).symm.trans hget
    | some v =>
        obtain ⟨node, hnode, hsame⟩ := hreads key v hv
        obtain rfl := Option.some.inj (hnode.symm.trans hget)
        cases hsame with
        | atom hstr => rw [← strictEq_eq hstr]; rfl
  · intro hv
    obtain ⟨v, hget, hstr⟩ := Option.bind_eq_some_iff.mp hv
    obtain ⟨node, hnode, hsame⟩ := hreads key v hget
    cases v with
    | str s =>
        obtain rfl := Option.some.inj hstr
        cases node with
        | plain w =>
            cases w with
            | str u => rw [hnode, sameJson_str_iff.mp hsame]
            | undefined | null | bool _ | num _ | bigint _ | arr _ | obj _ _ | inherited _ =>
                cases hsame with
                | atom h => cases h
        | text content => exact absurd (sameJson_str_iff.mp hsame ▸ hnode) hplain
        | map _ | array _ =>
            cases hsame with
            | atom h => cases h
    | _ => cases hstr

theorem connected_eq {fields : List (JsString × Node)} {v : Value} {nodeId : JsString}
    (h : SameJson (toValue (.map fields)) v)
    (hplain : ∀ key ∈ [ascii "fromNode", ascii "toNode"],
      Assoc.get key fields ≠ some (.text nodeId)) :
    connected nodeId (.map fields) = Server.connected nodeId v := by
  obtain ⟨inherits, values, rfl⟩ : ∃ inherits values, v = .obj inherits values := by
    cases h with
    | atom h => cases h
    | obj _ _ => exact ⟨_, _, rfl⟩
  have hsource := field_eq_str_iff (by decide) h (hplain (ascii "fromNode") (by simp))
  have htarget := field_eq_str_iff (by decide) h (hplain (ascii "toNode") (by simp))
  unfold connected Server.connected
  dsimp only
  rw [Bool.eq_iff_iff, Bool.or_eq_true, Bool.or_eq_true, hsource, htarget, decide_eq_true_iff,
    decide_eq_true_iff]

theorem get_foldl_tombstone (ids : List JsString) (s : Server.JsonItems) (j : JsString) :
    Assoc.get j (Server.ensureObject (ids.foldl Server.tombstoneCanvasItem s).items) =
      if j ∈ ids then none else Assoc.get j (Server.ensureObject s.items) := by
  induction ids generalizing s with
  | nil => simp
  | cons id ids ih =>
      rw [List.foldl_cons, ih, get_tombstoneCanvasItem]
      by_cases hj : j = id
      · simp [hj]
      · simp [hj, Ne.symm hj]

theorem mem_connectedIds {edges : List (JsString × Value)} {nodeId j : JsString} :
    j ∈ Server.connectedIds edges nodeId ↔
      ∃ edge, Assoc.get j edges = some edge ∧ Server.connected nodeId edge = true := by
  rw [Server.connectedIds, List.mem_filter, Server.mem_mapKeys, ← Assoc.get_isSome_iff]
  cases Assoc.get j edges <;> simp

/-- The edges of a deleted node. -/
theorem AgreesKind.deleteConnected (h : AgreesKind clientID s c) {nodeId : JsString}
    (hplain : EndsPlain nodeId c.items) :
    AgreesKind clientID (Server.deleteConnected s nodeId)
      (dropConnectedEdges c nodeId clientID) := by
  obtain ⟨-, hproto, hslots⟩ := holds_iff.mp h.holds
  obtain ⟨hsound, hget⟩ := dropConnectedEdges_spec h.sound nodeId
  refine ⟨holds_iff.mpr ⟨hsound.wf, ?_, ?_⟩, hsound.stones,
    (deleteConnectedEdges_of_strings clientID h.strings nodeId).2⟩
  · rw [hget, hproto]
    rfl
  · intro j
    rw [hget, Server.deleteConnected, get_foldl_tombstone]
    rcases hslots j with ⟨hnone, hnone'⟩ | ⟨fields, v, hfields, hv, hsame⟩
    · rw [hnone, hnone']
      exact .inl ⟨rfl, by split <;> rfl⟩
    · have hconn := connected_eq hsame (hplain j fields hfields)
      have hmem : j ∈ Server.connectedIds (Server.ensureObject s.items) nodeId ↔
          Server.connected nodeId v = true := by
        rw [mem_connectedIds, hv]
        simp
      rw [hfields, hv]
      by_cases hcut : Server.connected nodeId v = true
      · rw [if_pos (hmem.mpr hcut), Option.filter_some_neg (by simp [hconn, hcut])]
        exact .inl ⟨rfl, rfl⟩
      · rw [if_neg fun hj => hcut (hmem.mp hj), Option.filter_some_pos (by simp [hconn, hcut])]
        exact .inr ⟨fields, v, rfl, rfl, hsame⟩

end Kind

/-! ## Explicit orders -/

section Orders

variable {items : List (JsString × Node)} {values : List (JsString × Value)}

/-- The ids an order leaves out are sorted alike by code units and by code points. -/
def SortsAlike (items : List (JsString × Node)) (order : List JsString) : Prop :=
  ∀ a ∈ Assoc.keys items, ∀ b ∈ Assoc.keys items, a ∉ order → b ∉ order →
    (a ≤ b ↔ Server.codePoints a ≤ Server.codePoints b)

/-- The ids given to both, once they are known to be live. -/
theorem normalizeOrder_loop (hkeys : ∀ id, id ∈ Assoc.keys items ↔ id ∈ Assoc.keys values)
    {order start normalized : List JsString}
    (h : order.foldlM (Server.normalizeOrder values) start = .ok normalized) :
    order.foldl (fun result id =>
        if id ∈ Assoc.keys items ∧ id ∉ result then result ++ [id] else result) start =
      normalized ∧ ∀ id, id ∈ normalized ↔ id ∈ start ∨ id ∈ order := by
  induction order generalizing start with
  | nil =>
      obtain rfl : start = normalized := Except.ok.inj h
      simp
  | cons id order ih =>
      rw [List.foldlM_cons] at h
      unfold Server.normalizeOrder at h
      split at h
      · cases h
      · rename_i hlive
        have hmem := (hkeys id).mpr (not_not.mp hlive)
        rw [List.foldl_cons]
        split at h
        · rename_i hseen
          obtain ⟨hloop, hids⟩ := ih h
          rw [if_neg fun hnew => hnew.2 hseen]
          refine ⟨hloop, fun j => ?_⟩
          rw [hids j, List.mem_cons]
          constructor
          · rintro (hj | hj)
            · exact .inl hj
            · exact .inr (.inr hj)
          · rintro (hj | rfl | hj)
            · exact .inl hj
            · exact .inl hseen
            · exact .inr hj
        · rename_i hnew
          obtain ⟨hloop, hids⟩ := ih h
          rw [if_pos ⟨hmem, hnew⟩]
          refine ⟨hloop, fun j => ?_⟩
          rw [hids j, List.mem_append, List.mem_singleton, List.mem_cons, or_assoc]

/-- Lists sorted by relations that agree on their elements. -/
theorem filter_sort_eq (hwf : Assoc.Wf items) (hwf' : Assoc.Wf values)
    (hkeys : ∀ id, id ∈ Assoc.keys items ↔ id ∈ Assoc.keys values) {order : List JsString}
    (halike : SortsAlike items order) {p : JsString → Bool} (hp : ∀ id, p id = true → id ∉ order) :
    (sortKeys (Assoc.keys items)).filter p = (Server.mapKeys values).filter p := by
  have hperm : ((sortKeys (Assoc.keys items)).filter p).Perm
      ((Server.mapKeys values).filter p) := by
    apply List.Perm.filter
    refine (perm_sortKeys _).trans (.trans ?_ (List.perm_insertionSort _ _).symm)
    exact (List.perm_ext_iff_of_nodup hwf hwf').mpr hkeys
  have hunits : ((sortKeys (Assoc.keys items)).filter p).Pairwise (· ≤ ·) :=
    (List.pairwise_insertionSort (· ≤ ·) _).filter p
  have hpoints : ((Server.mapKeys values).filter p).Pairwise
      fun a b => Server.codePoints a ≤ Server.codePoints b := by
    have htotal : Std.Total fun a b : JsString => Server.codePoints a ≤ Server.codePoints b :=
      ⟨fun _ _ => le_total _ _⟩
    have htrans : IsTrans JsString fun a b => Server.codePoints a ≤ Server.codePoints b :=
      ⟨fun _ _ _ => le_trans⟩
    exact (List.pairwise_insertionSort _ _).filter p
  have hunits' : ((Server.mapKeys values).filter p).Pairwise (· ≤ ·) := by
    apply hpoints.imp_of_mem
    intro a b ha hb hab
    obtain ⟨ha, hpa⟩ := List.mem_filter.mp ha
    obtain ⟨hb, hpb⟩ := List.mem_filter.mp hb
    rw [Server.mem_mapKeys, ← hkeys] at ha hb
    exact (halike a ha b hb (hp a hpa) (hp b hpb)).mpr hab
  exact hperm.eq_of_pairwise (fun _ _ _ _ => List.le_antisymm) hunits hunits'

/-- The order both sides make of an explicit one. -/
theorem validOrder_eq (hwf : Assoc.Wf items) (hwf' : Assoc.Wf values)
    (hkeys : ∀ id, id ∈ Assoc.keys items ↔ id ∈ Assoc.keys values)
    {order normalized : List JsString} (halike : SortsAlike items order)
    (h : order.foldlM (Server.normalizeOrder values) [] = .ok normalized) :
    validOrder order items =
      normalized ++ (Server.mapKeys values).filter fun id => id ∉ normalized := by
  obtain ⟨hloop, hids⟩ := normalizeOrder_loop hkeys h
  unfold validOrder
  rw [hloop]
  dsimp only
  rw [filter_sort_eq hwf hwf' hkeys halike]
  intro id hid hin
  simp only [decide_eq_true_eq] at hid
  exact hid ((hids id).mpr (.inr hin))

end Orders

/-! ## Batches -/

/-- The items and patches of an operation are JSON. -/
def JsonOperation : CanvasOperation → Prop
  | .item _ (.create item) | .item _ (.restore item) => Value.IsJson (.obj true item)
  | .item _ (.patch _ patch) => Value.IsJson (.obj true patch.set)
  | _ => True

/-- The client, in this state, carries an operation out as the server does: what
it writes is clean, and it finds the edges of a node it deletes. -/
def Alike (c : CanvasState) : CanvasOperation → Prop
  | .item _ (.create item) | .item _ (.restore item) =>
      CleanPatch ⟨item, []⟩ [] ∧ itemId item ≠ some dunderProto
  | .item kind (.patch id patch) =>
      ∀ fields, Assoc.get id (c.kind kind).items = some (.map fields) → CleanPatch patch fields
  | .item .node (.delete id) => EndsPlain id c.edges.items
  | _ => True

/-- Every operation of a batch is carried out alike where its turn comes. -/
def AlikeRun (clientID : ℚ) : CanvasState → List CanvasOperation → Prop
  | _, [] => True
  | c, operation :: operations =>
      Alike c operation ∧
        ∀ c', applyOperation clientID c operation = some c' → AlikeRun clientID c' operations

/-- An operation that may change the items or the order of a kind. -/
def TouchesKind (operation : CanvasOperation) (kind : Kind) : Prop :=
  match operation with
  | .item own operation => own = kind ∨ ∃ id, operation = .delete id ∧ kind = .edge
  | .order own _ => own = kind

section Batch

variable {clientID : ℚ} {s s' : Server.JsonCanvas} {c c' : CanvasState} {kind : Kind}
  {operation : CanvasOperation}

/-- Both kinds of item agree. -/
def Agrees (clientID : ℚ) (s : Server.JsonCanvas) (c : CanvasState) : Prop :=
  ∀ kind, AgreesKind clientID (s.kind kind) (c.kind kind)

theorem Agrees.strings (h : Agrees clientID s c) : Strings c.nodes ∧ Strings c.edges :=
  ⟨(h .node).strings, (h .edge).strings⟩

/-- What `step` does to each kind. -/
theorem step_item (clientID : ℚ) (c : CanvasState) (own : Kind) (operation : ItemOperation) :
    (step clientID c (.item own operation)).kind own =
      stepItem (c.kind own) operation clientID := by
  cases own with
  | node => cases operation <;> rfl
  | edge => rfl

theorem step_of_not_touches (h : ¬TouchesKind operation kind) :
    (step clientID c operation).kind kind = c.kind kind := by
  cases operation with
  | item own operation =>
      cases own with
      | node =>
          cases kind with
          | node => exact absurd (.inl rfl) h
          | edge =>
              cases operation with
              | delete id => exact absurd (.inr ⟨id, rfl, rfl⟩) h
              | _ => rfl
      | edge =>
          cases kind with
          | node => rfl
          | edge => exact absurd (.inl rfl) h
  | order own order =>
      cases own <;> cases kind
      · exact absurd rfl h
      · rfl
      · rfl
      · exact absurd rfl h

theorem server_of_not_touches (hserver : Server.applyOperation s operation = .ok s')
    (h : ¬TouchesKind operation kind) : s'.kind kind = s.kind kind := by
  cases operation with
  | item own operation =>
      have hne : own ≠ kind := fun heq => h (.inl heq)
      rcases (Server.applyOperation_item hserver).2 kind hne with ⟨-, heq⟩ | ⟨id, rfl, rfl, -⟩
      · exact heq
      · cases kind with
        | node => exact absurd rfl hne
        | edge => exact absurd (.inr ⟨id, rfl, rfl⟩) h
  | order own order => exact (Server.applyOperation_order hserver).2 kind h

/-- One operation that the server accepts. -/
theorem Agrees.step (h : Agrees clientID s c)
    (hserver : Server.applyOperation s operation = .ok s') (hjson : JsonOperation operation)
    (halike : Alike c operation) : Agrees clientID s' (step clientID c operation) := by
  intro kind
  by_cases htouch : TouchesKind operation kind
  swap
  · rw [step_of_not_touches htouch, server_of_not_touches hserver htouch]
    exact h kind
  cases operation with
  | item own operation =>
      obtain ⟨hown, hother⟩ := Server.applyOperation_item hserver
      by_cases hkind : own = kind
      · subst hkind
        rw [step_item]
        cases operation with
        | create item => exact (h own).create hown hjson halike.1 halike.2
        | restore item => exact (h own).restore hown hjson halike.1 halike.2
        | patch id patch => exact (h own).patch hown hjson halike
        | delete id => exact Except.ok.inj hown ▸ (h own).delete id
      · rcases hother kind hkind with ⟨hno, -⟩ | ⟨id, rfl, rfl, heq⟩
        · rcases htouch with heq | ⟨id, hdel, hedge⟩
          · exact absurd heq hkind
          · rcases hno with hno | rfl
            · exact absurd hdel (hno id)
            · exact absurd hedge.symm hkind
        · cases kind with
          | node => exact absurd rfl hkind
          | edge =>
              rw [heq]
              exact (h .edge).deleteConnected halike
  | order own order =>
      obtain rfl : own = kind := htouch
      obtain ⟨normalized, -, heq⟩ :=
        Server.setCanvasOrder_eq_ok (Server.applyOperation_order hserver).1
      have hkind : (Structured.step clientID c (.order own order)).kind own =
          applyOrder (c.kind own) order := by cases own <;> rfl
      rw [hkind, heq]
      exact ⟨(h own).holds, (h own).stones, _, writeOrder_eq _ _⟩

/-- A whole run, on both sides. -/
theorem Agrees.run {operations : List CanvasOperation} (h : Agrees clientID s c)
    (hserver : operations.foldlM Server.applyOperation s = .ok s')
    (hjson : ∀ operation ∈ operations, JsonOperation operation)
    (halike : AlikeRun clientID c operations) :
    ∃ c', operations.foldlM (applyOperation clientID) c = some c' ∧ Agrees clientID s' c' := by
  induction operations generalizing s c with
  | nil =>
      obtain rfl : s = s' := Except.ok.inj hserver
      exact ⟨c, rfl, h⟩
  | cons operation operations ih =>
      rw [List.foldlM_cons] at hserver
      cases hone : Server.applyOperation s operation with
      | error e =>
          rw [hone] at hserver
          cases hserver
      | ok next =>
          rw [hone] at hserver
          obtain ⟨hclient, -⟩ := applyOperation_of_strings clientID h.strings operation
          have hnext := h.step hone (hjson _ List.mem_cons_self) halike.1
          obtain ⟨c', hrun, hagrees⟩ := ih hnext hserver
            (fun op hop => hjson op (List.mem_cons_of_mem _ hop)) (halike.2 _ hclient)
          exact ⟨c', OptionFold.foldlM_cons_eq_some.mpr ⟨_, hclient, hrun⟩, hagrees⟩

/-- Operations that do not touch a kind leave it as it is on both sides. -/
theorem kinds_of_not_touches {operations : List CanvasOperation} {kind : Kind}
    (h : ∀ operation ∈ operations, ¬TouchesKind operation kind)
    (hstrings : Strings c.nodes ∧ Strings c.edges)
    (hserver : operations.foldlM Server.applyOperation s = .ok s')
    (hclient : operations.foldlM (applyOperation clientID) c = some c') :
    s'.kind kind = s.kind kind ∧ c'.kind kind = c.kind kind := by
  induction operations generalizing s c with
  | nil =>
      obtain rfl : s = s' := Except.ok.inj hserver
      obtain rfl : c = c' := Option.some.inj hclient
      exact ⟨rfl, rfl⟩
  | cons operation operations ih =>
      rw [List.foldlM_cons] at hserver
      cases hone : Server.applyOperation s operation with
      | error e =>
          rw [hone] at hserver
          cases hserver
      | ok next =>
          rw [hone] at hserver
          obtain ⟨hstep, hstrings'⟩ := applyOperation_of_strings clientID hstrings operation
          obtain ⟨c₁, hc₁, hrest⟩ := OptionFold.foldlM_cons_eq_some.mp hclient
          obtain rfl := Option.some.inj (hstep.symm.trans hc₁)
          have hfree := h operation List.mem_cons_self
          obtain ⟨hs, hc⟩ := ih (fun op hop => h op (List.mem_cons_of_mem _ hop)) hstrings'
            hserver hrest
          exact ⟨hs.trans (server_of_not_touches hone hfree), hc.trans (step_of_not_touches hfree)⟩

theorem AgreesKind.keys {s : Server.JsonItems} {c : ItemState} (h : AgreesKind clientID s c)
    (id : JsString) :
    id ∈ Assoc.keys c.items ↔ id ∈ Assoc.keys (Server.ensureObject s.items) := by
  rw [← Assoc.get_isSome_iff, ← Assoc.get_isSome_iff]
  rcases (holds_iff.mp h.holds).2.2 id with ⟨hnone, hnone'⟩ | ⟨fields, v, hfields, hv, -⟩
  · rw [hnone, hnone']
    rfl
  · rw [hfields, hv]
    rfl

/-- An explicit order, made of the same ids on both sides. -/
theorem Agrees.order {kind : Kind} {order : List JsString} (h : Agrees clientID s c)
    (hwf : Assoc.Wf (Server.ensureObject (s.kind kind).items))
    (hserver : Server.applyOperation s (.order kind order) = .ok s')
    (halike : SortsAlike (c.kind kind).items order) :
    ∃ ids, (s'.kind kind).order = some (.arr (ids.map .str)) ∧
      ((Structured.step clientID c (.order kind order)).kind kind).order = orderNodes ids ∧
      ids.Perm (Assoc.keys ((Structured.step clientID c (.order kind order)).kind kind).items) := by
  obtain ⟨normalized, hloop, heq⟩ :=
    Server.setCanvasOrder_eq_ok (Server.applyOperation_order hserver).1
  have hkind : (Structured.step clientID c (.order kind order)).kind kind =
      applyOrder (c.kind kind) order := by cases kind <;> rfl
  refine ⟨validOrder order (c.kind kind).items, ?_, ?_, ?_⟩
  · rw [heq, validOrder_eq (h kind).holds.wf hwf (h kind).keys halike hloop]
  · rw [hkind]
    exact writeOrder_eq _ _
  · rw [hkind]
    exact perm_validOrder (h kind).holds.wf order

end Batch

/-- A canvas value without tombstones: the items of a kind are records that carry
their id, and the order is a list of strings. -/
structure CanvasValue (s : Server.JsonItems) : Prop where
  wf : Assoc.Wf (Server.ensureObject s.items)
  ids : ∀ id v, Assoc.get id (Server.ensureObject s.items) = some v →
    ∃ inherits fields, v = .obj inherits fields ∧ Assoc.get idKey fields = some (.str id)
  tombstones : Server.ensureObject s.tombstones = []

/-- The shared types that hold such a value. -/
structure HoldsValue (c : ItemState) (s : Server.JsonItems) : Prop where
  items : Holds c.items (Server.ensureObject s.items)
  order : ∃ ids, c.order = orderNodes ids ∧ Server.ensureArray s.order = ids.map .str
  tombstones : c.tombstones = []

/-- The client's root reads as the server's value: the same nodes and edges, and
the same order of a kind that the batch gave an explicit order last. -/
structure SameCanvas (clientID : ℚ) (root root' : CanvasRoot) (operations : List CanvasOperation)
    (value' : Server.JsonCanvas) : Prop where
  items : ∀ kind, SameJson (toValue (.map ((loadRoot root').kind kind).items))
    (.obj true (Server.ensureObject (value'.kind kind).items))
  order : ∀ before kind order after c, operations = before ++ .order kind order :: after →
    (∀ operation ∈ after, ¬TouchesKind operation kind) →
    before.foldlM (applyOperation clientID) (loadRoot root) = some c →
    SortsAlike (c.kind kind).items order →
    ∃ v, (value'.kind kind).order = some v ∧
      SameJson (toValue (.array ((loadRoot root').kind kind).order)) v

section Whole

variable {clientID : ℚ} {value value' : Server.JsonCanvas} {root : CanvasRoot}
  {operations : List CanvasOperation}

theorem agrees_initial (hroot : ∀ kind, HoldsValue ((loadRoot root).kind kind) (value.kind kind)) :
    Agrees clientID value (loadRoot root) := by
  intro kind
  obtain ⟨hitems, ⟨ids, hids, -⟩, hstones⟩ := hroot kind
  refine ⟨hitems, ?_, ids, hids⟩
  intro id stone hstone
  rw [hstones] at hstone
  cases hstone

theorem foldlM_sound {s s' : Server.JsonCanvas} (hs : ∀ kind, Server.Sound (s.kind kind))
    (h : operations.foldlM Server.applyOperation s = .ok s') (kind : Kind) :
    Server.Sound (s'.kind kind) := by
  induction operations generalizing s with
  | nil =>
      obtain rfl : s = s' := Except.ok.inj h
      exact hs kind
  | cons operation operations ih =>
      rw [List.foldlM_cons] at h
      cases hone : Server.applyOperation s operation with
      | error e =>
          rw [hone] at h
          cases h
      | ok next =>
          rw [hone] at h
          exact ih (Server.Sound.applyOperation hs hone) h

/-- The part of a run before one of its operations. -/
theorem foldlM_split {before after : List CanvasOperation} {operation : CanvasOperation}
    {s s' : Server.JsonCanvas}
    (h : (before ++ operation :: after).foldlM Server.applyOperation s = .ok s') :
    ∃ mid next, before.foldlM Server.applyOperation s = .ok mid ∧
      Server.applyOperation mid operation = .ok next ∧
      after.foldlM Server.applyOperation next = .ok s' := by
  rw [List.foldlM_append] at h
  cases hmid : before.foldlM Server.applyOperation s with
  | error e =>
      rw [hmid] at h
      cases h
  | ok mid =>
      rw [hmid] at h
      have hcons : (operation :: after).foldlM Server.applyOperation mid = .ok s' := h
      rw [List.foldlM_cons] at hcons
      cases hnext : Server.applyOperation mid operation with
      | error e =>
          rw [hnext] at hcons
          cases hcons
      | ok next =>
          rw [hnext] at hcons
          exact ⟨mid, next, rfl, hnext, hcons⟩

theorem AlikeRun.append {c : CanvasState} {before after : List CanvasOperation}
    (h : AlikeRun clientID c (before ++ after)) : AlikeRun clientID c before := by
  induction before generalizing c with
  | nil => trivial
  | cons operation before ih => exact ⟨h.1, fun c' hc' => ih (h.2 c' hc')⟩

theorem sameCanvas_of_run {s : Server.JsonCanvas} (hsound : ∀ kind, Server.Sound (value.kind kind))
    (hjson : ∀ operation ∈ operations, JsonOperation operation)
    (hagrees : Agrees clientID value (loadRoot root))
    (halike : AlikeRun clientID (loadRoot root) operations)
    (hrun : operations.foldlM Server.applyOperation value = .ok s)
    (hitems : ∀ kind, Server.ensureObject (value'.kind kind).items =
      Server.ensureObject (s.kind kind).items)
    (horders : ∀ kind, (value'.kind kind).order = (s.kind kind).order) :
    ∃ root', applyCanvasOperations root operations clientID = some root' ∧
      SameCanvas clientID root root' operations value' := by
  obtain ⟨c, hclient, hfinal⟩ := hagrees.run hrun hjson halike
  refine ⟨_, by rw [applyCanvasOperations, hclient]; rfl, ?_, ?_⟩
  · intro kind
    rw [kind_canonicalizeCanvasOrders, hitems]
    exact (hfinal kind).holds.same
  · rintro before kind order after mid rfl hafter hmid hsorts
    obtain ⟨s₁, s₂, hs₁, hs₂, hs⟩ := foldlM_split hrun
    -- The client before the order operation is the one that agrees with the server there.
    obtain ⟨c₁, hc₁, hagrees₁⟩ := hagrees.run hs₁
      (fun op hop => hjson op (List.mem_append_left _ hop)) halike.append
    obtain rfl := Option.some.inj (hmid.symm.trans hc₁)
    obtain ⟨ids, hserver, horder, hperm⟩ :=
      hagrees₁.order (foldlM_sound hsound hs₁ kind).wf hs₂ hsorts
    obtain ⟨hstep, hstrings⟩ := applyOperation_of_strings clientID hagrees₁.strings
      (.order kind order)
    have hrest : after.foldlM (applyOperation clientID) (step clientID mid (.order kind order)) =
        some c := by
      rw [List.foldlM_append, hmid] at hclient
      obtain ⟨next, hnext, hrest⟩ := OptionFold.foldlM_cons_eq_some.mp hclient
      exact Option.some.inj (hstep.symm.trans hnext) ▸ hrest
    obtain ⟨hkindS, hkindC⟩ := kinds_of_not_touches hafter hstrings hs hrest
    refine ⟨_, by rw [horders, hkindS, hserver], ?_⟩
    rw [← hkindC] at horder hperm
    have hwf := (hfinal kind).holds.wf
    rw [kind_canonicalizeCanvasOrders, canonicalize_of_perm hwf horder hperm, horder]
    exact readsAs_orderNodes ids

end Whole

/-- A batch the server accepts leaves a sound value of joined edges, and the
client does the same when it carries every operation out alike. -/
theorem batch_agrees (clientID : ℚ) (value value' : Server.JsonCanvas) (root : CanvasRoot)
    (operations : List CanvasOperation) (hvalue : ∀ kind, CanvasValue (value.kind kind))
    (hroot : ∀ kind, HoldsValue ((loadRoot root).kind kind) (value.kind kind))
    (hjson : ∀ operation ∈ operations, JsonOperation operation)
    (haccept : Server.applyCanvasOperationBatch value operations = .ok value') :
    (∀ kind id, id ∈ Assoc.keys (Server.ensureObject (value'.kind kind).tombstones) →
      id ∉ Assoc.keys (Server.ensureObject (value'.kind kind).items)) ∧
    Server.Joined value' ∧
    (AlikeRun clientID (loadRoot root) operations →
      ∃ root', applyCanvasOperations root operations clientID = some root' ∧
        SameCanvas clientID root root' operations value') := by
  unfold Server.applyCanvasOperationBatch at haccept
  cases hrun : operations.foldlM Server.applyOperation value with
  | error e =>
      rw [hrun] at haccept
      cases haccept
  | ok s =>
      rw [hrun] at haccept
      obtain ⟨hjoined, hkinds⟩ := Server.validateCanvasEdges_eq_ok haccept
      have hsound : ∀ kind, Server.Sound (value.kind kind) := by
        intro kind
        refine ⟨(hvalue kind).wf, ?_⟩
        rw [(hvalue kind).tombstones]
        exact fun id hid => nomatch hid
      refine ⟨?_, hjoined, fun halike => ?_⟩
      · intro kind id hstone
        rw [(hkinds kind).2.1] at hstone
        rw [(hkinds kind).1]
        exact (foldlM_sound hsound hrun kind).apart id hstone
      · exact sameCanvas_of_run hsound hjson (agrees_initial hroot) halike hrun
          (fun kind => (hkinds kind).1) (fun kind => (hkinds kind).2.2)

/-! ### Canvases with string fields -/

/-- The JSON value of a canvas of string fields. -/
def stringValue (nodes edges : List (JsString × List (JsString × JsString))) :
    Server.JsonCanvas where
  nodes := ⟨some (.obj true (nodes.map fun e => (e.1, stringItem e.2))), none,
    some (.arr ((Assoc.keys nodes).map .str))⟩
  edges := ⟨some (.obj true (edges.map fun e => (e.1, stringItem e.2))), none,
    some (.arr ((Assoc.keys edges).map .str))⟩

theorem canvasValue_strings {items : List (JsString × List (JsString × JsString))}
    {order : Option Value} (hnodup : (Assoc.keys items).Nodup)
    (hfields : ∀ e ∈ items, Assoc.get idKey e.2 = some e.1) :
    CanvasValue ⟨some (.obj true (items.map fun e => (e.1, stringItem e.2))), none, order⟩ := by
  refine ⟨?_, ?_, rfl⟩
  · show (List.map _ (items.map _)).Nodup
    rw [List.map_map]
    exact hnodup
  · intro id v hv
    have hget : Assoc.get id (items.map fun e => (e.1, stringItem e.2)) = some v := hv
    rw [Assoc.get_mapValues, Option.map_eq_some_iff] at hget
    obtain ⟨fields, hin, rfl⟩ := hget
    refine ⟨true, _, rfl, ?_⟩
    rw [Assoc.get_mapValues, hfields _ (Assoc.mem_of_get hin)]
    rfl

theorem endsPlain_strings (nodeId : JsString)
    (edges : List (JsString × List (JsString × JsString))) :
    EndsPlain nodeId (edges.map fun e => (e.1, stringMap e.2)) := by
  intro id fields hfields key _ htext
  rw [Assoc.get_mapValues, Option.map_eq_some_iff] at hfields
  obtain ⟨strings, -, heq⟩ := hfields
  obtain rfl := Node.map.inj heq
  rw [Assoc.get_mapValues fun s => Node.plain (.str s), Option.map_eq_some_iff] at htext
  obtain ⟨s, -, hs⟩ := htext
  cases hs

/-- Node `b` gets a text, node `a` is deleted with its edge, and `c` is created
and put first. -/
theorem batch_agrees_create_and_order :
    let nodes := [(ascii "a", [(idKey, ascii "a")]), (ascii "b", [(idKey, ascii "b")])]
    let edges := [(ascii "e", [(idKey, ascii "e"), (ascii "fromNode", ascii "a"),
      (ascii "toNode", ascii "b")])]
    let operations : List CanvasOperation :=
      [.item .node (.patch (ascii "b") ⟨[(ascii "text", .str (ascii "hi"))], []⟩),
        .item .node (.delete (ascii "a")), .item .node (.create [(idKey, .str (ascii "c"))]),
        .order .node [ascii "c"]]
    ∃ value' root', Server.applyCanvasOperationBatch (stringValue nodes edges) operations =
        .ok value' ∧ Server.Joined value' ∧
      applyCanvasOperations (stringRoot nodes edges) operations 7 = some root' ∧
      SameCanvas 7 (stringRoot nodes edges) root' operations value' := by
  intro nodes edges operations
  have hvalue : ∀ kind, CanvasValue ((stringValue nodes edges).kind kind) := by
    intro kind
    cases kind with
    | node => exact canvasValue_strings (by decide) (by decide)
    | edge => exact canvasValue_strings (by decide) (by decide)
  have hroot : ∀ kind, HoldsValue ((loadRoot (stringRoot nodes edges)).kind kind)
      ((stringValue nodes edges).kind kind) := by
    intro kind
    cases kind with
    | node => exact ⟨holds_strings (by decide) (by decide) (by decide), ⟨_, rfl, rfl⟩, rfl⟩
    | edge => exact ⟨holds_strings (by decide) (by decide) (by decide), ⟨_, rfl, rfl⟩, rfl⟩
  have hjson : ∀ operation ∈ operations, JsonOperation operation := by
    have hsingle : ∀ key s : JsString, Value.IsJson (.obj true [(key, .str s)]) := fun key s =>
      .obj rfl (List.nodup_singleton _) (by simp) (by simpa using .str _)
    intro operation hop
    simp only [operations, List.mem_cons, List.not_mem_nil, or_false] at hop
    rcases hop with rfl | rfl | rfl | rfl
    · exact hsingle _ _
    · trivial
    · exact hsingle _ _
    · trivial
  have halike : AlikeRun 7 (loadRoot (stringRoot nodes edges)) operations := by
    refine ⟨?_, fun c₁ hc₁ => ⟨?_, fun c₂ _ => ⟨?_, fun c₃ _ => ⟨trivial, fun _ _ => trivial⟩⟩⟩⟩
    · intro fields hfields key next _ hset
      obtain rfl := Node.map.inj (Option.some.inj hfields)
      obtain ⟨rfl, rfl⟩ : key = ascii "text" ∧ next = .str (ascii "hi") := by
        simpa using Assoc.mem_of_get hset
      exact ⟨by decide, fun _ => by decide⟩
    · obtain rfl := Option.some.inj hc₁
      exact endsPlain_strings _ edges
    · refine ⟨?_, by decide⟩
      intro key next hkey hset
      have hmem : (key, next) ∈ [(idKey, Value.str (ascii "c"))] := Assoc.mem_of_get hset
      simp only [List.mem_singleton, Prod.mk.injEq] at hmem
      exact absurd hmem.1 hkey
  cases haccept : Server.applyCanvasOperationBatch (stringValue nodes edges) operations with
  | error e =>
      have hok : (Server.applyCanvasOperationBatch (stringValue nodes edges) operations).isOk =
          true := by decide
      rw [haccept] at hok
      cases hok
  | ok value' =>
      obtain ⟨-, hjoined, hsame⟩ := batch_agrees 7 _ value' _ _ hvalue hroot hjson haccept
      obtain ⟨root', happly, hcanvas⟩ := hsame halike
      exact ⟨value', root', rfl, hjoined, happly, hcanvas⟩

/-- The text of a node goes from 😀 to 😁, which share their high surrogate. -/
theorem not_batch_agrees_shared_high_surrogate :
    ¬∀ (clientID : ℚ) (value value' : Server.JsonCanvas) (root : CanvasRoot)
        (operations : List CanvasOperation), (∀ kind, CanvasValue (value.kind kind)) →
      (∀ kind, HoldsValue ((loadRoot root).kind kind) (value.kind kind)) →
      (∀ operation ∈ operations, JsonOperation operation) →
      Server.applyCanvasOperationBatch value operations = .ok value' →
      ∃ root', applyCanvasOperations root operations clientID = some root' ∧
        ∀ kind, SameJson (toValue (.map ((loadRoot root').kind kind).items))
          (.obj true (Server.ensureObject (value'.kind kind).items)) := by
  intro h
  let value := stringValue [(ascii "a", [(idKey, ascii "a"), (ascii "text", [0xd83d, 0xde00])])] []
  let root : CanvasRoot :=
    { nodes := some (.map [(ascii "a", .map [(idKey, .plain (.str (ascii "a"))),
        (ascii "text", .text [0xd83d, 0xde00])])])
      edges := none
      deletedNodeIds := none
      deletedEdgeIds := none
      nodeOrder := some (.array (orderNodes [ascii "a"]))
      edgeOrder := none }
  let operations : List CanvasOperation :=
    [.item .node (.patch (ascii "a") ⟨[(ascii "text", .str [0xd83d, 0xde01])], []⟩)]
  have hvalue : ∀ kind, CanvasValue (value.kind kind) := by
    intro kind
    cases kind with
    | node => exact canvasValue_strings (by decide) (by decide)
    | edge => exact canvasValue_strings (by decide) (by decide)
  have hroot : ∀ kind, HoldsValue ((loadRoot root).kind kind) (value.kind kind) := by
    intro kind
    cases kind with
    | node =>
        refine ⟨holds_iff.mpr ⟨List.nodup_singleton _, rfl, fun id => ?_⟩, ⟨_, rfl, rfl⟩, rfl⟩
        by_cases hid : ascii "a" = id
        · subst hid
          have hsame : SameJson (toValue (stringMap [(idKey, ascii "a"),
              (ascii "text", [0xd83d, 0xde00])])) _ := sameJson_stringMap (by decide)
          exact .inr ⟨_, _, rfl, rfl, hsame⟩
        · refine .inl ⟨Assoc.get_eq_none_iff.mpr ?_, Assoc.get_eq_none_iff.mpr ?_⟩ <;>
            exact fun hmem => hid (List.mem_singleton.mp hmem).symm
    | edge =>
        exact ⟨holds_iff.mpr ⟨List.nodup_nil, rfl, fun _ => .inl ⟨rfl, rfl⟩⟩, ⟨[], rfl, rfl⟩, rfl⟩
  have hjson : ∀ operation ∈ operations, JsonOperation operation := by
    intro operation hop
    obtain rfl := List.mem_singleton.mp hop
    exact .obj rfl (List.nodup_singleton _) (by simp) (by simpa using .str _)
  obtain ⟨root', happly, hsame⟩ := h 7 value _ root operations hvalue hroot hjson rfl
  obtain rfl := Option.some.inj happly
  obtain ⟨node, hnode, hitem⟩ := (sameJson_map_iff.mp (hsame .node)).2.2 (ascii "a") _ rfl
  obtain rfl := Option.some.inj hnode
  obtain ⟨text, htext, hstr⟩ := (sameJson_map_iff.mp hitem).2.2 (ascii "text") _ rfl
  obtain rfl := Option.some.inj htext
  -- The client has deleted half of the pair and inserted the other half.
  have hclient : SameJson (.str [0xfffd, 0xde01]) (.str [0xd83d, 0xde01]) := hstr
  exact absurd (sameJson_str_iff.mp hclient) (by decide)

end Realtime.Structured
