import Realtime.Lib.JsValue
import Realtime.Lib.JsonText

/-!
# The text of a canvas

`parseCanvas`, `serializeCanvas` and `uniqueCanvasOrder` of `src/structured/canvas.ts`. Parsing
fills two records by assignment, `nodes[node.id] = node`, and an assignment to `__proto__`
sets the prototype of the record instead, unless the prototype it has keeps something
under that name. Nothing else distinguishes the record from a table: every other id is an
own property of it, whatever `Object.prototype` has under the name.

Numbers and numerals are those of `Lib.Json.Numbers`.
-/

namespace Realtime.Structured.CanvasText

open Lib Lib.Utf16 Lib.Json
open Lib.Js (dunderProto prototypeNames)

variable {ν : Type}

/-- `value[key]` of a parsed object, where it is an own property. -/
def field (key : JsString) : Value ν → Option (Value ν)
  | .obj entries => Assoc.get key entries
  | _ => none

def isObject : Value ν → Bool
  | .obj _ => true
  | _ => false

/-- A record filled by assignment; its prototype is `Object.prototype` unless one was set. -/
structure Record (ν : Type) where
  own : List (JsString × Value ν) := []
  proto : Option (Value ν) := none

namespace Record

/-- What the prototype that was set keeps under a key. -/
def protoField (r : Record ν) (key : JsString) : Option (Value ν) := r.proto.bind (field key)

/-- `key in r` -/
def has (r : Record ν) (key : JsString) : Bool :=
  key ∈ Assoc.keys r.own || (r.protoField key).isSome || key ∈ prototypeNames

/-- `r[key]`, where that is an object. `Object.prototype`, which a record has for its
`__proto__`, is one without own properties; under the other names it has functions. -/
def item (r : Record ν) (key : JsString) : Option (Value ν) :=
  match Assoc.get key r.own with
  | some v => if isObject v then some v else none
  | none =>
      match r.protoField key with
      | some v => if isObject v then some v else none
      | none => if key = dunderProto then some (r.proto.getD (.obj [])) else none

/-- `r[key] = value`, of an object. -/
def set (r : Record ν) (key : JsString) (value : Value ν) : Record ν :=
  if key = dunderProto ∧ key ∉ Assoc.keys r.own ∧ r.protoField key = none then
    { r with proto := some value }
  else { r with own := Assoc.set key value r.own }

end Record

structure StructuredCanvas (ν : Type) where
  nodes : Record ν := {}
  edges : Record ν := {}
  nodeOrder : List JsString := []
  edgeOrder : List JsString := []

/-- `item.id`, where it is a string; only an object has one. -/
def itemId (item : Value ν) : Option JsString :=
  match field (ascii "id") item with
  | some (.str id) => some id
  | _ => none

def collectItem (acc : Record ν × List JsString) (item : Value ν) : Record ν × List JsString :=
  match itemId item with
  | some id => (acc.1.set id item, acc.2 ++ [id])
  | none => acc

/-- One of the two loops of `parseCanvas`. -/
def collect (items : List (Value ν)) : Record ν × List JsString := items.foldl collectItem ({}, [])

/-- `Array.isArray(data[key]) ? data[key] : []` -/
def itemsOf (key : JsString) (data : Value ν) : List (Value ν) :=
  match field key data with
  | some (.arr items) => items
  | _ => []

/-- What `trim` removes. -/
def isBlank (c : UInt16) : Bool :=
  (9 ≤ c && c ≤ 13) || c = 0x20 || c = 0xa0 || c = 0x1680 || (0x2000 ≤ c && c ≤ 0x200a) ||
    c = 0x2028 || c = 0x2029 || c = 0x202f || c = 0x205f || c = 0x3000 || c = 0xfeff

/-- `text.trim() ? JSON.parse(text) : {}` -/
def parseData (N : Numbers ν) (text : JsString) : Option (Value ν) :=
  if text.all isBlank then some (.obj []) else parse N text

def canvasOf (data : Value ν) : StructuredCanvas ν where
  nodes := (collect (itemsOf (ascii "nodes") data)).1
  edges := (collect (itemsOf (ascii "edges") data)).1
  nodeOrder := (collect (itemsOf (ascii "nodes") data)).2
  edgeOrder := (collect (itemsOf (ascii "edges") data)).2

/-- `none`: it throws, as it does on `null`, which has no properties to read. -/
def parseCanvas (N : Numbers ν) (text : JsString) : Option (StructuredCanvas ν) :=
  match parseData N text with
  | none => none
  | some .null => none
  | some data => some (canvasOf data)

def uniqueCanvasOrder (order : List JsString) (items : Record ν) : List JsString :=
  ((order ++ Assoc.keys items.own).filter fun id => items.has id).eraseDups

/-- The ordered items with their ids. -/
def orderedItems (order : List JsString) (items : Record ν) : List (JsString × Value ν) :=
  (uniqueCanvasOrder order items).filterMap fun id => (items.item id).map fun v => (id, v)

/-- `{ nodes, edges }`, with an indentation of two and a last line end. -/
def fileText (N : Numbers ν) (nodes edges : List (Value ν)) : JsString :=
  print N (ascii "  ") (.obj [(ascii "nodes", .arr nodes), (ascii "edges", .arr edges)]) ++
    [newline]

/-- `serializeCanvas` of a canvas. -/
def StructuredCanvas.serialize (N : Numbers ν) (c : StructuredCanvas ν) : JsString :=
  fileText N ((orderedItems c.nodeOrder c.nodes).map Prod.snd)
    ((orderedItems c.edgeOrder c.edges).map Prod.snd)

/-- `isObject(root[key]) ? root[key] : {}` -/
def entriesOf (key : JsString) (root : Value ν) : List (JsString × Value ν) :=
  match field key root with
  | some (.obj entries) => entries
  | _ => []

/-- The strings of an order array, or all keys where there is none. -/
def orderOf (key : JsString) (root : Value ν) (items : List (JsString × Value ν)) :
    List JsString :=
  match field key root with
  | some (.arr order) =>
      order.filterMap fun
        | .str id => some id
        | _ => none
  | _ => Assoc.keys items

/-- What `serializeCanvas` reads of a JSON value. -/
def rootOf (root : Value ν) : StructuredCanvas ν where
  nodes := { own := entriesOf (ascii "nodes") root }
  edges := { own := entriesOf (ascii "edges") root }
  nodeOrder := orderOf (ascii "nodeOrder") root (entriesOf (ascii "nodes") root)
  edgeOrder := orderOf (ascii "edgeOrder") root (entriesOf (ascii "edges") root)

def serializeCanvas (N : Numbers ν) (root : Value ν) : JsString := (rootOf root).serialize N

/-! ## What is listed -/

/-- Each object entry is listed once, those that the order names first and in its order. A
dead id `__proto__` lists `Object.prototype`, which is written as `{}`. -/
structure Lists (entries : List (JsString × Value ν)) (order : List JsString)
    (listed : List (JsString × Value ν)) : Prop where
  once : (Assoc.keys listed).Nodup
  all : ∀ id v, (id, v) ∈ entries → isObject v = true → (id, v) ∈ listed
  first : ∃ rest, Assoc.keys listed =
    (order.filter fun id => id ∈ Assoc.keys listed).eraseDups ++ rest ∧ ∀ id ∈ rest, id ∉ order
  only : ∀ e ∈ listed, e ∈ entries ∨
    e = (dunderProto, .obj []) ∧ dunderProto ∈ order ∧ dunderProto ∉ Assoc.keys entries

theorem filter_eraseDups {α : Type*} [BEq α] [LawfulBEq α] (p : α → Bool) (l : List α) :
    l.eraseDups.filter p = (l.filter p).eraseDups := by
  induction hn : l.length using Nat.strong_induction_on generalizing l with
  | _ n ih =>
      cases l with
      | nil => rfl
      | cons a l =>
          have hlen : (l.filter fun b => !b == a).length < n := by
            rw [← hn, List.length_cons]
            exact Nat.lt_succ_of_le (List.length_filter_le _ l)
          rw [List.eraseDups_cons]
          cases ha : p a with
          | true =>
              rw [List.filter_cons_of_pos ha, List.filter_cons_of_pos ha, List.eraseDups_cons,
                ih _ hlen _ rfl, List.filter_filter, List.filter_filter]
              simp only [Bool.and_comm]
          | false =>
              rw [List.filter_cons_of_neg (by simp [ha]), List.filter_cons_of_neg (by simp [ha]),
                ih _ hlen _ rfl, List.filter_filter]
              -- what was erased as a duplicate does not pass the filter
              congr 1
              refine List.filter_congr fun b _ => ?_
              cases hb : b == a with
              | true => rw [eq_of_beq hb, ha]; rfl
              | false => simp

/-- What passes of two lists without duplicates: what passes of the first, then only what is
not in it. -/
theorem filter_eraseDups_append {α : Type*} [BEq α] [LawfulBEq α] (p q : α → Bool)
    (l m : List α) : ∃ rest, ((l ++ m).filter p).eraseDups.filter q =
      (l.filter fun a => q a && p a).eraseDups ++ rest ∧ ∀ a ∈ rest, a ∉ l := by
  rw [List.filter_append, List.eraseDups_append, List.filter_append, filter_eraseDups,
    List.filter_filter]
  refine ⟨_, rfl, fun a ha hl => ?_⟩
  obtain ⟨ha, -⟩ := List.mem_filter.mp ha
  obtain ⟨ha, hnot⟩ := List.mem_filter.mp (List.mem_eraseDups.mp ha)
  have hp : p a = true := (List.mem_filter.mp ha).2
  simp [hl, hp] at hnot

section

variable {order : List JsString} {items : Record ν}

theorem has_of_item {id : JsString} {v : Value ν} (h : items.item id = some v) :
    items.has id = true := by
  unfold Record.item at h
  unfold Record.has
  cases hget : Assoc.get id items.own with
  | some w =>
      have hmem : id ∈ Assoc.keys items.own := Assoc.get_isSome_iff.mp (by simp [hget])
      simp [hmem]
  | none =>
      cases hproto : items.protoField id with
      | some w => simp
      | none =>
          simp only [hget, hproto] at h
          split at h
          · next hname => simp [hname, prototypeNames]
          · cases h

theorem keys_orderedItems (order : List JsString) (items : Record ν) :
    Assoc.keys (orderedItems order items) =
      (uniqueCanvasOrder order items).filter fun id => (items.item id).isSome := by
  unfold orderedItems
  induction uniqueCanvasOrder order items with
  | nil => rfl
  | cons id ids ih =>
      cases hitem : items.item id with
      | none => simpa [hitem] using ih
      | some v => simpa [hitem] using ih

theorem mem_orderedItems {id : JsString} {v : Value ν} :
    (id, v) ∈ orderedItems order items ↔
      (id ∈ order ∨ id ∈ Assoc.keys items.own) ∧ items.item id = some v := by
  simp only [orderedItems, uniqueCanvasOrder, List.mem_filterMap, List.mem_eraseDups,
    List.mem_filter, List.mem_append]
  constructor
  · rintro ⟨id', ⟨hmem, -⟩, h⟩
    obtain ⟨w, hw, heq⟩ := Option.map_eq_some_iff.mp h
    cases heq
    exact ⟨hmem, hw⟩
  · rintro ⟨hmem, hitem⟩
    exact ⟨id, ⟨hmem, has_of_item hitem⟩, by rw [hitem]; rfl⟩

theorem nodup_keys_orderedItems (order : List JsString) (items : Record ν) :
    (Assoc.keys (orderedItems order items)).Nodup := by
  rw [keys_orderedItems]
  exact (Assoc.nodup_eraseDups _).filter _

end

theorem item_plain {entries : List (JsString × Value ν)} {id : JsString} {v : Value ν}
    (h : ({ own := entries } : Record ν).item id = some v) :
    (id, v) ∈ entries ∨ id = dunderProto ∧ v = .obj [] ∧ id ∉ Assoc.keys entries := by
  unfold Record.item at h
  cases hget : Assoc.get id entries with
  | some w =>
      simp only [hget] at h
      split at h
      · obtain rfl := Option.some.inj h
        exact .inl (Assoc.mem_of_get hget)
      · cases h
  | none =>
      simp only [hget, Record.protoField, Option.bind_none, Option.getD_none] at h
      split at h
      · next hname =>
          exact .inr ⟨hname, (Option.some.inj h).symm, Assoc.get_eq_none_iff.mp hget⟩
      · cases h

theorem lists_orderedItems {entries : List (JsString × Value ν)} (hwf : Assoc.Wf entries)
    (order : List JsString) : Lists entries order (orderedItems order { own := entries }) where
  once := nodup_keys_orderedItems _ _
  all id v hmem hv := by
    refine mem_orderedItems.mpr ⟨.inr (List.mem_map_of_mem (f := Prod.fst) hmem), ?_⟩
    simp only [Record.item, Assoc.get_of_mem hwf hmem, if_pos hv]
  first := by
    have hkeys := keys_orderedItems order ({ own := entries } : Record ν)
    obtain ⟨rest, heq, hrest⟩ := filter_eraseDups_append
      (fun id => ({ own := entries } : Record ν).has id)
      (fun id => (({ own := entries } : Record ν).item id).isSome) order (Assoc.keys entries)
    refine ⟨rest, (hkeys.trans heq).trans ?_, hrest⟩
    congr 2
    refine List.filter_congr fun id hid => ?_
    rw [Bool.eq_iff_iff, decide_eq_true_iff, hkeys, List.mem_filter, Bool.and_eq_true]
    refine ⟨fun h => ⟨?_, h.1⟩, fun h => ⟨h.2, ?_⟩⟩
    · simp only [uniqueCanvasOrder, List.mem_eraseDups, List.mem_filter, List.mem_append]
      exact ⟨.inl hid, h.2⟩
    · obtain ⟨v, hv⟩ := Option.isSome_iff_exists.mp h.2
      exact has_of_item hv
  only e he := by
    obtain ⟨id, v⟩ := e
    obtain ⟨hmem, hitem⟩ := mem_orderedItems.mp he
    rcases item_plain hitem with h | ⟨rfl, rfl, hnew⟩
    · exact .inl h
    · exact .inr ⟨rfl, hmem.resolve_right hnew, hnew⟩

/-! ## What was collected -/

/-- The items with an id. -/
def valid (items : List (Value ν)) : List (Value ν) := items.filter fun v => (itemId v).isSome

def ids (items : List (Value ν)) : List JsString := items.filterMap itemId

/-- The items with the given id. -/
def withId (id : JsString) (items : List (Value ν)) : List (Value ν) :=
  items.filter fun v => itemId v = some id

/-- What the collected items are written as. -/
def listed (items : List (Value ν)) : List (Value ν) :=
  (orderedItems (collect items).2 (collect items).1).map Prod.snd

section

variable {items : List (Value ν)} {id : JsString} {v : Value ν}

theorem collect_snoc (items : List (Value ν)) (v : Value ν) :
    collect (items ++ [v]) = collectItem (collect items) v := List.foldl_append

theorem order_collect (items : List (Value ν)) : (collect items).2 = ids items := by
  induction items using List.reverseRecOn with
  | nil => rfl
  | append_singleton items v ih =>
      rw [collect_snoc, collectItem, ids, List.filterMap_append]
      cases hid : itemId v with
      | none =>
          rw [List.filterMap_cons_none hid, List.filterMap_nil, List.append_nil]
          exact ih
      | some id =>
          rw [List.filterMap_cons_some hid, List.filterMap_nil]
          exact congrArg (· ++ [id]) ih

theorem isObject_of_itemId (h : itemId v = some id) : isObject v = true := by
  cases v with
  | obj entries => rfl
  | null => cases h
  | bool b => cases h
  | num n => cases h
  | str s => cases h
  | arr items => cases h

theorem mem_withId : v ∈ withId id items ↔ v ∈ items ∧ itemId v = some id := by
  rw [withId, List.mem_filter, decide_eq_true_iff]

theorem mem_ids : id ∈ ids items ↔ ∃ v, v ∈ withId id items := by
  rw [ids, List.mem_filterMap]
  exact exists_congr fun v => mem_withId.symm

theorem withId_snoc (id : JsString) (items : List (Value ν)) (v : Value ν) :
    withId id (items ++ [v]) = if itemId v = some id then withId id items ++ [v]
      else withId id items := by
  rw [withId, List.filter_append]
  split
  · next h => rw [List.filter_cons_of_pos (by simpa using h)]; rfl
  · next h => rw [List.filter_cons_of_neg (by simpa using h), List.filter_nil, List.append_nil]; rfl

theorem Record.get_set_own {r : Record ν} {key : JsString} (h : key ≠ id) :
    Assoc.get id (r.set key v).own = Assoc.get id r.own := by
  unfold Record.set
  split
  · rfl
  · exact Assoc.get_set_ne h v r.own

theorem Record.set_of_ne {r : Record ν} (h : id ≠ dunderProto) :
    r.set id v = { r with own := Assoc.set id v r.own } := by
  rw [Record.set, if_neg fun hall => h hall.1]

theorem get_collect (h : id ≠ dunderProto) (items : List (Value ν)) :
    Assoc.get id (collect items).1.own = (withId id items).getLast? := by
  induction items using List.reverseRecOn with
  | nil => rfl
  | append_singleton items v ih =>
      rw [collect_snoc, collectItem, withId_snoc]
      cases hid : itemId v with
      | none => rw [if_neg (by simp)]; exact ih
      | some key =>
          show Assoc.get id ((collect items).1.set key v).own = _
          by_cases hkey : key = id
          · rw [if_pos (by rw [hkey]), List.getLast?_concat, hkey, Record.set_of_ne h]
            exact Assoc.get_set_self id v _
          · rw [if_neg (by simpa using hkey), Record.get_set_own hkey, ih]

theorem mem_keys_collect (h : id ∈ Assoc.keys (collect items).1.own) : id ∈ ids items := by
  induction items using List.reverseRecOn with
  | nil => cases h
  | append_singleton items v ih =>
      rw [collect_snoc, collectItem] at h
      rw [ids, List.filterMap_append, List.mem_append]
      cases hid : itemId v with
      | none => rw [hid] at h; exact .inl (ih h)
      | some key =>
          rw [hid] at h
          rw [List.filterMap_cons_some hid]
          simp only [Record.set] at h
          split at h
          · exact .inl (ih h)
          · rcases Assoc.mem_keys_set.mp h with rfl | h
            · exact .inr List.mem_cons_self
            · exact .inl (ih h)

/-- An assignment to `__proto__` before the last one set a prototype with a field of that
name, and the later ones were kept as an own property. -/
def Overlaid (items : List (Value ν)) : Prop :=
  ∃ q ∈ (withId dunderProto items).dropLast, (field dunderProto q).isSome = true

/-- What one more assignment to `__proto__` does, by what the earlier ones left. -/
theorem set_dunderProto {r : Record ν} {ps : List (Value ν)}
    (h : ((∃ q ∈ ps.dropLast, (field dunderProto q).isSome = true) ∧
        Assoc.get dunderProto r.own = ps.getLast?) ∨
      ((¬∃ q ∈ ps.dropLast, (field dunderProto q).isSome = true) ∧
        Assoc.get dunderProto r.own = none ∧ r.proto = ps.getLast?)) (v : Value ν) :
    ((∃ q ∈ ps, (field dunderProto q).isSome = true) ∧
        Assoc.get dunderProto (r.set dunderProto v).own = some v) ∨
      ((¬∃ q ∈ ps, (field dunderProto q).isSome = true) ∧
        Assoc.get dunderProto (r.set dunderProto v).own = none ∧
          (r.set dunderProto v).proto = some v) := by
  rcases h with ⟨⟨q, hq, hfield⟩, hown⟩ | ⟨hplain, hown, hproto⟩
  · -- the own property is there
    have hps : ps ≠ [] := fun h => by rw [h] at hq; cases hq
    have hmem : dunderProto ∈ Assoc.keys r.own := by
      rw [← Assoc.get_isSome_iff, hown, List.getLast?_isSome]
      exact hps
    rw [Record.set, if_neg fun hall => hall.2.1 hmem]
    exact .inl ⟨⟨q, List.mem_of_mem_dropLast hq, hfield⟩, Assoc.get_set_self _ _ _⟩
  · have hnot : dunderProto ∉ Assoc.keys r.own := Assoc.get_eq_none_iff.mp hown
    have hfield : r.protoField dunderProto = ps.getLast?.bind (field dunderProto) := by
      rw [Record.protoField, hproto]
    cases hlast : r.protoField dunderProto with
    | some w =>
        rw [Record.set, if_neg fun hall => by rw [hlast] at hall; cases hall.2.2]
        obtain ⟨q, hq, hqw⟩ := Option.bind_eq_some_iff.mp (hfield.symm.trans hlast)
        exact .inl ⟨⟨q, List.mem_of_getLast? hq, by rw [hqw]; rfl⟩, Assoc.get_set_self _ _ _⟩
    | none =>
        rw [Record.set, if_pos ⟨rfl, hnot, hlast⟩]
        refine .inr ⟨fun ⟨q, hq, hqfield⟩ => ?_, hown, rfl⟩
        have hps : ps ≠ [] := fun h => by rw [h] at hq; cases hq
        rw [← List.dropLast_append_getLast hps, List.mem_append, List.mem_singleton] at hq
        rcases hq with hq | rfl
        · exact hplain ⟨q, hq, hqfield⟩
        · rw [hlast, List.getLast?_eq_getLast_of_ne_nil hps, Option.bind_some] at hfield
          rw [← hfield] at hqfield
          cases hqfield

/-- Where the items with the id `__proto__` went. -/
theorem slot_collect (items : List (Value ν)) :
    (Overlaid items ∧ Assoc.get dunderProto (collect items).1.own =
        (withId dunderProto items).getLast?) ∨
      (¬Overlaid items ∧ Assoc.get dunderProto (collect items).1.own = none ∧
        (collect items).1.proto = (withId dunderProto items).getLast?) := by
  induction items using List.reverseRecOn with
  | nil => exact .inr ⟨(fun ⟨q, hq, _⟩ => by cases hq), rfl, rfl⟩
  | append_singleton items v ih =>
      unfold Overlaid at ih ⊢
      rw [collect_snoc, collectItem, withId_snoc]
      cases hid : itemId v with
      | none => rw [if_neg (by simp)]; exact ih
      | some key =>
          by_cases hkey : key = dunderProto
          · subst hkey
            rw [if_pos rfl, List.dropLast_concat, List.getLast?_concat]
            exact set_dunderProto ih v
          · rw [if_neg (by simpa using hkey)]
            show _ ∧ Assoc.get dunderProto ((collect items).1.set key v).own = _ ∨ _ ∧
              Assoc.get dunderProto ((collect items).1.set key v).own = _ ∧
                ((collect items).1.set key v).proto = _
            rw [Record.get_set_own hkey, Record.set_of_ne hkey]
            exact ih

theorem getLast?_withId (h : id ∈ ids items) :
    ∃ v, (withId id items).getLast? = some v ∧ v ∈ items ∧ itemId v = some id := by
  obtain ⟨v, hv⟩ := mem_ids.mp h
  have hne : withId id items ≠ [] := List.ne_nil_of_mem hv
  exact ⟨_, List.getLast?_eq_getLast_of_ne_nil hne, mem_withId.mp (List.getLast_mem hne)⟩

theorem has_collect (h : id ∈ ids items) : (collect items).1.has id = true := by
  unfold Record.has
  by_cases hid : id = dunderProto
  · simp [hid, prototypeNames]
  · obtain ⟨v, hv, -⟩ := getLast?_withId h
    have hmem : id ∈ Assoc.keys (collect items).1.own := by
      rw [← Assoc.get_isSome_iff, get_collect hid, hv]
      rfl
    simp [hmem]

theorem listed_eq (items : List (Value ν)) :
    listed items = (ids items).eraseDups.filterMap (collect items).1.item := by
  have hunique : uniqueCanvasOrder (collect items).2 (collect items).1 = (ids items).eraseDups := by
    rw [uniqueCanvasOrder, order_collect, List.filter_eq_self.mpr, List.eraseDups_append]
    · have hnil : (Assoc.keys (collect items).1.own).removeAll (ids items) = [] := by
        refine List.filter_eq_nil_iff.mpr fun id hid => ?_
        simp [mem_keys_collect hid]
      rw [hnil, List.eraseDups_nil, List.append_nil]
    · intro id hid
      rcases List.mem_append.mp hid with hid | hid
      · exact has_collect hid
      · exact has_collect (mem_keys_collect hid)
  rw [listed, orderedItems, hunique, List.map_filterMap]
  refine List.filterMap_congr fun id _ => ?_
  cases (collect items).1.item id with
  | none => rfl
  | some v => rfl

theorem item_collect (hid : id ≠ dunderProto) (h : id ∈ ids items) :
    (collect items).1.item id = (withId id items).getLast? := by
  obtain ⟨v, hv, -, hitem⟩ := getLast?_withId h
  simp only [Record.item, get_collect hid, hv, if_pos (isObject_of_itemId hitem)]

/-- What is read under `__proto__` where an item was set as the prototype. -/
def slotOf (p : Value ν) : Option (Value ν) :=
  match field dunderProto p with
  | some w => if isObject w then some w else none
  | none => some p

theorem item_slot {p : Value ν} (h : (withId dunderProto items).getLast? = some p) :
    (Overlaid items ∧ (collect items).1.item dunderProto = some p) ∨
      (¬Overlaid items ∧ (collect items).1.item dunderProto = slotOf p) := by
  rcases slot_collect items with ⟨hover, hown⟩ | ⟨hplain, hown, hproto⟩
  · have hitem := (mem_withId.mp (List.mem_of_getLast? h)).2
    refine .inl ⟨hover, ?_⟩
    simp only [Record.item, hown, h, if_pos (isObject_of_itemId hitem)]
  · refine .inr ⟨hplain, ?_⟩
    rw [h] at hproto
    simp only [Record.item, hown, Record.protoField, hproto, Option.bind_some, slotOf]
    cases field dunderProto p with
    | some w => rfl
    | none => rfl

end

/-! ## What is listed as it was -/

/-- Every item has an id, no two have the same, and none with the id `__proto__` has a field
of that name. -/
structure Clean (items : List (Value ν)) : Prop where
  valid : ∀ v ∈ items, (itemId v).isSome = true
  nodup : (ids items).Nodup
  plain : ∀ v ∈ items, itemId v = some dunderProto → field dunderProto v = none

section

variable {items : List (Value ν)} {id : JsString} {v : Value ν}

theorem withId_of_nodup (hnodup : (ids items).Nodup) (hv : v ∈ items) (hid : itemId v = some id) :
    withId id items = [v] := by
  induction items with
  | nil => cases hv
  | cons u items ih =>
      have hnone {id : JsString} (h : id ∉ ids items) : withId id items = [] :=
        List.filter_eq_nil_iff.mpr fun w hw hwid =>
          h (mem_ids.mpr ⟨w, List.mem_filter.mpr ⟨hw, hwid⟩⟩)
      cases hu : itemId u with
      | none =>
          rw [ids, List.filterMap_cons_none hu] at hnodup
          rcases List.mem_cons.mp hv with rfl | hv
          · rw [hu] at hid
            cases hid
          · rw [withId, List.filter_cons_of_neg (by simp [hu])]
            exact ih hnodup hv
      | some key =>
          rw [ids, List.filterMap_cons_some hu] at hnodup
          obtain ⟨hfresh, hnodup⟩ := List.nodup_cons.mp hnodup
          rcases List.mem_cons.mp hv with rfl | hv
          · obtain rfl : key = id := Option.some.inj (hu.symm.trans hid)
            rw [withId, List.filter_cons_of_pos (by simp [hu])]
            exact congrArg (v :: ·) (hnone hfresh)
          · have hne : key ≠ id := fun he =>
              hfresh (he ▸ mem_ids.mpr ⟨v, mem_withId.mpr ⟨hv, hid⟩⟩)
            rw [withId, List.filter_cons_of_neg (by simpa [hu] using hne)]
            exact ih hnodup hv

/-- What a lone item is written as. -/
def shown (v : Value ν) : Option (Value ν) :=
  if itemId v = some dunderProto then slotOf v else some v

theorem listed_of_nodup (hnodup : (ids items).Nodup) :
    listed items = (valid items).filterMap shown := by
  rw [listed_eq, Assoc.eraseDups_of_nodup hnodup, ids, valid, List.filterMap_filterMap,
    List.filterMap_filter]
  refine List.filterMap_congr fun v hv => ?_
  cases hid : itemId v with
  | none => rfl
  | some id =>
      have hone := withId_of_nodup hnodup hv hid
      show (collect items).1.item id = shown v
      rw [shown, hid]
      by_cases hslot : id = dunderProto
      · subst hslot
        have hlast : (withId dunderProto items).getLast? = some v := by rw [hone]; rfl
        rw [if_pos rfl]
        rcases item_slot hlast with ⟨⟨q, hq, -⟩, -⟩ | ⟨-, hitem⟩
        · rw [hone] at hq
          cases hq
        · exact hitem
      · rw [if_neg (by simpa using hslot), item_collect hslot, hone]
        · rfl
        · exact mem_ids.mpr ⟨v, mem_withId.mpr ⟨hv, hid⟩⟩

theorem slotOf_of_plain (h : field dunderProto v = none) : slotOf v = some v := by
  rw [slotOf, h]

theorem Clean.listed (h : Clean items) : listed items = items := by
  have hvalid : CanvasText.valid items = items := List.filter_eq_self.mpr h.valid
  rw [listed_of_nodup h.nodup, hvalid, List.filterMap_congr (g := some), List.filterMap_some]
  intro v hv
  rw [shown]
  split
  · next hid => exact slotOf_of_plain (h.plain v hv hid)
  · rfl

theorem length_listed_le (items : List (Value ν)) :
    (CanvasText.listed items).length ≤ (ids items).eraseDups.length := by
  rw [listed_eq]
  exact List.length_filterMap_le _ _

theorem length_ids (items : List (Value ν)) : (ids items).length = (valid items).length := by
  induction items with
  | nil => rfl
  | cons v items ih =>
      unfold ids valid at ih ⊢
      cases hid : itemId v with
      | none => rw [List.filterMap_cons_none hid, List.filter_cons_of_neg (by simp [hid]), ih]
      | some id =>
          rw [List.filterMap_cons_some hid, List.filter_cons_of_pos (by simp [hid]),
            List.length_cons, List.length_cons, ih]

/-- Where as many are listed as there are, each was read as an item of its own. -/
theorem nodup_of_length (h : items.length ≤ (CanvasText.listed items).length) :
    valid items = items ∧ (ids items).Nodup := by
  have hlisted := length_listed_le items
  have herase := Assoc.eraseDups_sublist (ids items)
  have hvalid : (valid items).Sublist items := List.filter_sublist
  have hlen := length_ids items
  refine ⟨hvalid.eq_of_length_le ?_, ?_⟩
  · have := herase.length_le
    omega
  · have heq : (ids items).eraseDups = ids items := by
      refine herase.eq_of_length_le ?_
      have := hvalid.length_le
      omega
    rw [← heq]
    exact Assoc.nodup_eraseDups _

theorem eq_of_map_filterMap {α β γ : Type*} {f : α → Option β} {g : β → γ} {k : α → γ}
    {l : List α} (h : (l.filterMap f).map g = l.map k) : ∀ a ∈ l, (f a).map g = some (k a) := by
  induction l with
  | nil => nofun
  | cons a l ih =>
      cases ha : f a with
      | none =>
          -- what is left is too short
          rw [List.filterMap_cons_none ha] at h
          have hlen := congrArg List.length h
          have hle := List.length_filterMap_le f l
          simp only [List.length_map, List.length_cons] at hlen
          omega
      | some b =>
          rw [List.filterMap_cons_some ha, List.map_cons, List.map_cons, List.cons.injEq] at h
          intro c hc
          rcases List.mem_cons.mp hc with rfl | hc
          · rw [ha, Option.map_some, h.1]
          · exact ih h.2 c hc

end

/-! ## Reading back -/

section

variable {N : Numbers ν} {items : List (Value ν)} {v w : Value ν} {key : JsString}

theorem field_canon (key : JsString) (v : Value ν) :
    field key (canon N v) = (field key v).map (canon N) := by
  cases v with
  | obj entries =>
      show Assoc.get key (canonEntries N entries) = (Assoc.get key entries).map (canon N)
      rw [canonEntries_eq_map, Assoc.get_mapValues]
  | num n =>
      rw [canon]
      cases N.print n with
      | none => rfl
      | some s => rfl
  | null => rfl
  | bool b => rfl
  | str s => rfl
  | arr items => rfl

theorem canon_eq_str_iff {s : JsString} : canon N v = .str s ↔ v = .str s := by
  cases v with
  | num n =>
      rw [canon]
      cases N.print n with
      | none => exact ⟨nofun, nofun⟩
      | some s => exact ⟨nofun, nofun⟩
  | obj entries => exact ⟨nofun, nofun⟩
  | null => exact Iff.rfl
  | bool b => exact Iff.rfl
  | str s => exact Iff.rfl
  | arr items => exact ⟨nofun, nofun⟩

theorem itemId_canon (v : Value ν) : itemId (canon N v) = itemId v := by
  have hiff (id : JsString) (v : Value ν) :
      itemId v = some id ↔ field (ascii "id") v = some (.str id) := by
    rw [itemId]
    cases field (ascii "id") v with
    | none => exact ⟨nofun, nofun⟩
    | some w => cases w <;> simp
  refine Option.ext fun id => ?_
  rw [hiff, hiff, field_canon, Option.map_eq_some_iff]
  constructor
  · rintro ⟨w, hw, hid⟩
    rw [hw, canon_eq_str_iff.mp hid]
  · exact fun h => ⟨_, h, rfl⟩

theorem sizeOf_field_lt (h : field key v = some w) : sizeOf w < sizeOf v := by
  cases v with
  | obj entries =>
      have hmem := List.sizeOf_lt_of_mem (Assoc.mem_of_get h)
      simp only [Prod.mk.sizeOf_spec] at hmem
      simp only [Value.obj.sizeOf_spec]
      omega
  | null => cases h
  | bool b => cases h
  | num n => cases h
  | str s => cases h
  | arr items => cases h

/-- No value is read back as what it has inside. -/
theorem canon_field_ne (h : field key v = some w) : canon N w ≠ canon N v := by
  intro heq
  have hfield : field key (canon N v) = some (canon N v) := by
    rw [field_canon, h, Option.map_some, heq]
  exact lt_irrefl _ (sizeOf_field_lt hfield)

theorem plain_of_slotOf (h : (slotOf v).map (canon N) = some (canon N v)) :
    field dunderProto v = none := by
  cases hfield : field dunderProto v with
  | none => rfl
  | some w =>
      rw [slotOf, hfield] at h
      dsimp only at h
      split at h
      · exact absurd (Option.some.inj h) (canon_field_ne hfield)
      · cases h

/-- Items are written as they are only where they are clean. -/
theorem listed_eq_iff :
    (listed items).map (canon N) = items.map (canon N) ↔ Clean items := by
  refine ⟨fun h => ?_, fun h => by rw [h.listed]⟩
  have hlen := congrArg List.length h
  rw [List.length_map, List.length_map] at hlen
  obtain ⟨hvalid, hnodup⟩ := nodup_of_length hlen.ge
  rw [listed_of_nodup hnodup, hvalid] at h
  have hshown := eq_of_map_filterMap h
  refine ⟨List.filter_eq_self.mp hvalid, hnodup, fun v hv hid => ?_⟩
  have hv := hshown v hv
  rw [shown, if_pos hid] at hv
  exact plain_of_slotOf hv

theorem ids_map_canon (items : List (Value ν)) : ids (items.map (canon N)) = ids items := by
  rw [ids, List.filterMap_map]
  exact List.filterMap_congr fun v _ => itemId_canon v

theorem clean_map_canon_iff : Clean (items.map (canon N)) ↔ Clean items := by
  constructor
  · rintro ⟨hvalid, hnodup, hplain⟩
    refine ⟨fun v hv => ?_, ids_map_canon items ▸ hnodup, fun v hv hid => ?_⟩
    · have := hvalid _ (List.mem_map_of_mem hv)
      rwa [itemId_canon] at this
    · have := hplain _ (List.mem_map_of_mem hv) (by rw [itemId_canon, hid])
      rwa [field_canon, Option.map_eq_none_iff] at this
  · rintro ⟨hvalid, hnodup, hplain⟩
    refine ⟨fun w hw => ?_, (ids_map_canon items).symm ▸ hnodup, fun w hw hid => ?_⟩
    · obtain ⟨v, hv, rfl⟩ := List.mem_map.mp hw
      rw [itemId_canon]
      exact hvalid v hv
    · obtain ⟨v, hv, rfl⟩ := List.mem_map.mp hw
      rw [itemId_canon] at hid
      rw [field_canon, hplain v hv hid, Option.map_none]

end

/-! ## When what is written is written again -/

/-- Where the last item with the id `__proto__` has a field of that name, none before it has,
and an object in the field has an id of its own that no item has, or again `__proto__` and no
field of that name. -/
def Settled (items : List (Value ν)) : Prop :=
  ∀ p w, (withId dunderProto items).getLast? = some p → field dunderProto p = some w →
    (∀ q ∈ (withId dunderProto items).dropLast, field dunderProto q = none) ∧
      (isObject w = true → ∃ id, itemId w = some id ∧
        if id = dunderProto then field dunderProto w = none else id ∉ ids items)

section

variable {items : List (Value ν)} {v w : Value ν}

/-- Items read for distinct ids are clean where the one that need not have its id is. -/
theorem clean_filterMap_iff {names : List JsString} {read : JsString → Option (Value ν)}
    (hnodup : names.Nodup)
    (hread : ∀ id ∈ names, id ≠ dunderProto → ∃ v, read id = some v ∧ itemId v = some id) :
    Clean (names.filterMap read) ↔ ∀ w, dunderProto ∈ names → read dunderProto = some w →
      ∃ id, itemId w = some id ∧
        if id = dunderProto then field dunderProto w = none else id ∉ names := by
  have hids {l : List JsString} (hl : ∀ id ∈ l, id ∈ names ∧ id ≠ dunderProto) :
      ids (l.filterMap read) = l := by
    rw [ids, List.filterMap_filterMap, List.filterMap_congr (g := some), List.filterMap_some]
    intro id hid
    obtain ⟨v, hv, hitem⟩ := hread id (hl id hid).1 (hl id hid).2
    rw [hv, Option.bind_some, hitem]
  have hother {l : List JsString} (hl : ∀ id ∈ l, id ∈ names ∧ id ≠ dunderProto) :
      ∀ v ∈ l.filterMap read, ∃ id, id ≠ dunderProto ∧ itemId v = some id := by
    intro v hv
    obtain ⟨id, hid, hv⟩ := List.mem_filterMap.mp hv
    obtain ⟨u, hu, hitem⟩ := hread id (hl id hid).1 (hl id hid).2
    obtain rfl := Option.some.inj (hv.symm.trans hu)
    exact ⟨id, (hl id hid).2, hitem⟩
  -- the items other than the one in question are no obstacle
  have hclean {l : List JsString} (hl : ∀ id ∈ l, id ∈ names ∧ id ≠ dunderProto)
      (hl' : l.Nodup) : Clean (l.filterMap read) := by
    refine ⟨fun v hv => ?_, (hids hl).symm ▸ hl', fun v hv hid => ?_⟩
    · obtain ⟨id, -, hitem⟩ := hother hl v hv
      rw [hitem]
      rfl
    · obtain ⟨id, hne, hitem⟩ := hother hl v hv
      exact absurd (Option.some.inj (hitem.symm.trans hid)) hne
  by_cases hslot : dunderProto ∈ names
  · obtain ⟨l, r, rfl⟩ := List.append_of_mem hslot
    obtain ⟨hfresh, hlr⟩ := List.nodup_cons.mp (List.nodup_middle.mp hnodup)
    have hmem : ∀ id ∈ l ++ r, id ∈ l ++ dunderProto :: r ∧ id ≠ dunderProto := by
      intro id hid
      refine ⟨?_, fun he => hfresh (he ▸ hid)⟩
      rcases List.mem_append.mp hid with h | h
      · exact List.mem_append_left _ h
      · exact List.mem_append_right _ (List.mem_cons_of_mem _ h)
    have hothers := hclean hmem hlr
    have hidsl := hids fun id h => hmem id (List.mem_append_left r h)
    have hidsr := hids fun id h => hmem id (List.mem_append_right l h)
    rw [List.filterMap_append] at hothers
    rw [List.filterMap_append, List.filterMap_cons]
    cases hw : read dunderProto with
    | none => exact ⟨(fun _ w _ h => by cases h), fun _ => hothers⟩
    | some w =>
        constructor
        · rintro ⟨hvalid, hnodup', hplain⟩ w' - hw'
          obtain rfl := Option.some.inj hw'
          have hmemw : w ∈ l.filterMap read ++ w :: r.filterMap read := by simp
          obtain ⟨id, hid⟩ := Option.isSome_iff_exists.mp (hvalid w hmemw)
          refine ⟨id, hid, ?_⟩
          split
          · next hname => exact hplain w hmemw (by rw [hid, hname])
          · next hname =>
              rw [ids, List.filterMap_append, List.filterMap_cons_some hid] at hnodup'
              rw [ids] at hidsl hidsr
              rw [hidsl, hidsr, List.nodup_middle, List.nodup_cons] at hnodup'
              simpa [hname] using hnodup'.1
        · intro h
          obtain ⟨id, hid, hcond⟩ := h w hslot rfl
          refine ⟨fun v hv => ?_, ?_, fun v hv hv' => ?_⟩
          · rcases List.mem_cons.mp (List.perm_middle.mem_iff.mp hv) with rfl | hv
            · rw [hid]
              rfl
            · exact hothers.valid v hv
          · rw [ids] at hidsl hidsr
            rw [ids, List.filterMap_append, List.filterMap_cons_some hid, hidsl, hidsr,
              List.nodup_middle, List.nodup_cons]
            refine ⟨?_, hlr⟩
            split at hcond
            · next hname => exact hname ▸ hfresh
            · exact fun hin => hcond (hmem id hin).1
          · rcases List.mem_cons.mp (List.perm_middle.mem_iff.mp hv) with rfl | hv
            · rwa [if_pos (Option.some.inj (hid.symm.trans hv'))] at hcond
            · exact hothers.plain v hv hv'
  · exact ⟨fun _ w h => absurd h hslot,
      fun _ => hclean (fun id hid => ⟨hid, fun he => hslot (he ▸ hid)⟩) hnodup⟩

theorem clean_listed_iff (items : List (Value ν)) : Clean (listed items) ↔ Settled items := by
  rw [listed_eq, clean_filterMap_iff (Assoc.nodup_eraseDups _)]
  · simp only [List.mem_eraseDups]
    cases hp : (withId dunderProto items).getLast? with
    | none =>
        refine ⟨(fun _ p w h => by rw [hp] at h; cases h), fun _ w h => ?_⟩
        obtain ⟨v, hv, -⟩ := getLast?_withId h
        rw [hp] at hv
        cases hv
    | some p =>
        have hin := List.mem_of_getLast? hp
        have hid : itemId p = some dunderProto := (mem_withId.mp hin).2
        have hslot : dunderProto ∈ ids items := mem_ids.mpr ⟨p, hin⟩
        simp only [Settled, hp, hslot, true_implies, Option.some.injEq]
        rcases item_slot hp with ⟨⟨q, hq, hfield⟩, hitem⟩ | ⟨hplain, hitem⟩
        · -- the item itself is written, with its field
          rw [hitem]
          constructor
          · intro h p' w hp' hw
            subst hp'
            obtain ⟨id, hid', hcond⟩ := h p rfl
            obtain rfl := Option.some.inj (hid'.symm.trans hid)
            rw [if_pos rfl, hw] at hcond
            cases hcond
          · intro h w hw
            obtain rfl := Option.some.inj hw
            refine ⟨dunderProto, hid, ?_⟩
            rw [if_pos rfl]
            by_contra hne
            obtain ⟨w, hw⟩ := Option.ne_none_iff_exists'.mp hne
            rw [(h p w rfl hw).1 q hq] at hfield
            cases hfield
        · rw [hitem, slotOf]
          cases hw : field dunderProto p with
          | none =>
              refine ⟨fun _ p' w hp' hw' => ?_, fun _ w hw' => ?_⟩
              · rw [← hp', hw] at hw'
                cases hw'
              · obtain rfl := Option.some.inj hw'
                exact ⟨dunderProto, hid, by rw [if_pos rfl, hw]⟩
          | some w =>
              have hbefore : ∀ q ∈ (withId dunderProto items).dropLast,
                  field dunderProto q = none := by
                intro q hq
                by_contra hne
                exact hplain ⟨q, hq, Option.isSome_iff_ne_none.mpr hne⟩
              constructor
              · rintro h p' w' rfl hw'
                obtain rfl := Option.some.inj (hw.symm.trans hw')
                exact ⟨hbefore, fun hobj => h w (if_pos hobj)⟩
              · intro h w' hw'
                dsimp only at hw'
                split at hw'
                · next hobj =>
                    obtain rfl := Option.some.inj hw'
                    exact (h p w rfl hw).2 hobj
                · cases hw'
  · intro id hmem hid
    rw [List.mem_eraseDups] at hmem
    obtain ⟨v, hv, -, hitem⟩ := getLast?_withId hmem
    exact ⟨v, (item_collect hid hmem).trans hv, hitem⟩

end

/-! ## What comes back -/

/-- No item with the id `__proto__` has a field of that name. -/
def Plain (items : List (Value ν)) : Prop :=
  ∀ v ∈ items, itemId v = some dunderProto → field dunderProto v = none

section

variable {N : Numbers ν} {items items' : List (Value ν)} {v w : Value ν}

theorem collect_valid (items : List (Value ν)) : collect (valid items) = collect items := by
  induction items using List.reverseRecOn with
  | nil => rfl
  | append_singleton items v ih =>
      rw [valid, List.filter_append, collect_snoc]
      unfold valid at ih
      cases hid : itemId v with
      | none =>
          rw [List.filter_cons_of_neg (by simp [hid]), List.filter_nil, List.append_nil, ih,
            collectItem, hid]
      | some id =>
          rw [List.filter_cons_of_pos (by simp [hid]), List.filter_nil, collect_snoc, ih]

/-- What a record filled with distinct ids keeps for one. -/
def kept (r : Record ν) (id : JsString) : Option (Value ν) :=
  if id = dunderProto then r.proto else Assoc.get id r.own

theorem kept_collect (hnodup : (ids items).Nodup) :
    (ids items).filterMap (kept (collect items).1) = valid items := by
  rw [ids, valid, List.filterMap_filterMap, ← List.filterMap_eq_filter]
  refine List.filterMap_congr fun v hv => ?_
  cases hid : itemId v with
  | none => simp [Option.guard, hid]
  | some id =>
      have hone := withId_of_nodup hnodup hv hid
      rw [Option.bind_some, Option.guard, if_pos (by rw [hid]; rfl), kept]
      split
      · next hslot =>
          subst hslot
          rcases slot_collect items with ⟨⟨q, hq, -⟩, -⟩ | ⟨-, -, hproto⟩
          · rw [hone] at hq
            cases hq
          · rw [hproto, hone]
            rfl
      · next hslot =>
          rw [get_collect hslot, hone]
          rfl

/-- A canvas with distinct ids has the items it was made of. -/
theorem valid_of_collect (hnodup : (ids items).Nodup) (h : collect items' = collect items) :
    valid items' = valid items := by
  have hids : ids items' = ids items := by
    rw [← order_collect, ← order_collect, h]
  have hnodup' : (ids items').Nodup := hids.symm ▸ hnodup
  rw [← kept_collect hnodup, ← kept_collect hnodup', hids, h]

theorem wf_field {key : JsString} (hwf : Wf v) (h : field key v = some w) : Wf w := by
  cases hwf with
  | obj hkeys hvalues => exact hvalues _ (Assoc.mem_of_get h)
  | null => cases h
  | bool b => cases h
  | num n => cases h
  | str s => cases h
  | arr hitems => cases h

/-- What a slot is read back as is read back as it is. -/
theorem canon_of_slotOf (hwf : Wf v) (h : (slotOf v).map (canon N) = some w) :
    canon N w = w := by
  obtain ⟨u, hu, rfl⟩ := Option.map_eq_some_iff.mp h
  refine canon_canon ?_
  rw [slotOf] at hu
  cases hfield : field dunderProto v with
  | none =>
      rw [hfield] at hu
      exact Option.some.inj hu ▸ hwf
  | some t =>
      rw [hfield] at hu
      dsimp only at hu
      split at hu
      · exact Option.some.inj hu ▸ wf_field hwf hfield
      · cases hu

/-- Distinct items come back when the record shows each, and each is read back as it is. -/
theorem collect_listed_iff (hwf : ∀ v ∈ items, Wf v) (hnodup : (ids items).Nodup) :
    collect ((listed items).map (canon N)) = collect items ↔
      Plain items ∧ ∀ v ∈ items, (itemId v).isSome = true → canon N v = v := by
  rw [listed_of_nodup hnodup]
  constructor
  · intro h
    have hvalid := valid_of_collect hnodup h
    -- none was left out
    have hall : ((valid items).filterMap shown).map (canon N) = (valid items).map id := by
      have hsub : (valid (((valid items).filterMap shown).map (canon N))).Sublist _ :=
        List.filter_sublist
      have hlen := congrArg List.length hvalid
      have hle := List.length_filterMap_le shown (valid items)
      refine Eq.trans (hsub.eq_of_length_le ?_).symm (hvalid.trans (List.map_id _).symm)
      rw [List.length_map, hlen]
      exact hle
    have hshown := eq_of_map_filterMap hall
    have hplain : Plain items := by
      intro v hv hid
      have hmem : v ∈ valid items := List.mem_filter.mpr ⟨hv, by rw [hid]; rfl⟩
      have hread := hshown v hmem
      rw [shown, if_pos hid] at hread
      exact plain_of_slotOf (hread.trans (congrArg some (canon_of_slotOf (hwf v hv) hread).symm))
    refine ⟨hplain, fun v hv hid => ?_⟩
    have hread := hshown v (List.mem_filter.mpr ⟨hv, hid⟩)
    rw [shown] at hread
    split at hread
    · next hslot =>
        rw [slotOf_of_plain (hplain v hv hslot)] at hread
        exact Option.some.inj hread
    · exact Option.some.inj hread
  · rintro ⟨hplain, hcanon⟩
    have hsame : (valid items).filterMap shown = valid items := by
      rw [List.filterMap_congr (g := some), List.filterMap_some]
      intro v hv
      rw [shown]
      split
      · next hid => exact slotOf_of_plain (hplain v (List.mem_filter.mp hv).1 hid)
      · rfl
    have hcanon : (valid items).map (canon N) = valid items := by
      refine (List.map_congr_left fun v hv => ?_).trans (List.map_id _)
      exact hcanon v (List.mem_filter.mp hv).1 (List.mem_filter.mp hv).2
    rw [hsame, hcanon, collect_valid]

/-- The canvas of two arrays of items. -/
def gather (nodes edges : List (Value ν)) : StructuredCanvas ν where
  nodes := (collect nodes).1
  edges := (collect edges).1
  nodeOrder := (collect nodes).2
  edgeOrder := (collect edges).2

theorem canvasOf_eq (data : Value ν) :
    canvasOf data = gather (itemsOf (ascii "nodes") data) (itemsOf (ascii "edges") data) := rfl

theorem gather_eq_iff {nodes edges nodes' edges' : List (Value ν)} :
    gather nodes edges = gather nodes' edges' ↔
      collect nodes = collect nodes' ∧ collect edges = collect edges' := by
  simp only [gather, StructuredCanvas.mk.injEq, Prod.ext_iff]
  tauto

theorem serialize_gather (N : Numbers ν) (nodes edges : List (Value ν)) :
    (gather nodes edges).serialize N = fileText N (listed nodes) (listed edges) := rfl

theorem wf_fileText {nodes edges : List (Value ν)} (hnodes : ∀ v ∈ nodes, Wf v)
    (hedges : ∀ v ∈ edges, Wf v) :
    Wf (.obj [(ascii "nodes", .arr nodes), (ascii "edges", .arr edges)]) := by
  refine .obj ?_ fun e he => ?_
  · show [ascii "nodes", ascii "edges"].Nodup
    decide
  · rcases List.mem_cons.mp he with rfl | he
    · exact .arr hnodes
    · obtain rfl := List.mem_singleton.mp he
      exact .arr hedges

theorem parseCanvas_fileText {nodes edges : List (Value ν)} (hnodes : ∀ v ∈ nodes, Wf v)
    (hedges : ∀ v ∈ edges, Wf v) : parseCanvas N (fileText N nodes edges) =
      some (gather (nodes.map (canon N)) (edges.map (canon N))) := by
  have hgap : ∀ c ∈ ascii "  ", isSpace c = true := List.all_eq_true.mp rfl
  have hline : ∀ c ∈ [newline], isSpace c = true := List.all_eq_true.mp rfl
  have hread := parse_print (N := N) hgap (wf_fileText hnodes hedges) hline
  have hblank : (fileText N nodes edges).all isBlank = false := rfl
  have hdata : parseData N (fileText N nodes edges) =
      some (.obj [(ascii "nodes", .arr (nodes.map (canon N))),
        (ascii "edges", .arr (edges.map (canon N)))]) := by
    rw [parseData, hblank]
    refine (if_neg (by simp)).trans (hread.trans ?_)
    rw [canon, canonEntries_eq_map]
    simp only [List.map_cons, List.map_nil, canon, canonItems_eq_map]
  rw [parseCanvas, hdata]
  rfl

theorem wf_slotOf (hwf : Wf v) (h : slotOf v = some w) : Wf w := by
  rw [slotOf] at h
  cases hfield : field dunderProto v with
  | none =>
      rw [hfield] at h
      exact Option.some.inj h ▸ hwf
  | some u =>
      rw [hfield] at h
      dsimp only at h
      split at h
      · exact Option.some.inj h ▸ wf_field hwf hfield
      · cases h

theorem wf_listed (hwf : ∀ v ∈ items, Wf v) : ∀ v ∈ listed items, Wf v := by
  intro v hv
  rw [listed_eq, List.mem_filterMap] at hv
  obtain ⟨id, hid, hitem⟩ := hv
  obtain ⟨p, hp, hmem, -⟩ := getLast?_withId (List.mem_eraseDups.mp hid)
  by_cases hslot : id = dunderProto
  · subst hslot
    rcases item_slot hp with ⟨-, h⟩ | ⟨-, h⟩
    · exact Option.some.inj (h.symm.trans hitem) ▸ hwf p hmem
    · exact wf_slotOf (hwf p hmem) (h.symm.trans hitem)
  · rw [item_collect hslot (List.mem_eraseDups.mp hid), hp] at hitem
    exact Option.some.inj hitem ▸ hwf p hmem

theorem wf_itemsOf {data : Value ν} (hwf : Wf data) (key : JsString) :
    ∀ v ∈ itemsOf key data, Wf v := by
  intro v hv
  rw [itemsOf] at hv
  split at hv
  · next h =>
      cases wf_field hwf h with
      | arr hitems => exact hitems v hv
  · cases hv

theorem wf_parseData {text : JsString} {data : Value ν} (h : parseData N text = some data) :
    Wf data := by
  rw [parseData] at h
  split at h
  · obtain rfl := Option.some.inj h
    exact .obj Assoc.wf_nil nofun
  · exact parse_wf h

theorem fileText_eq_iff {nodes edges nodes' edges' : List (Value ν)} (hnodes : ∀ v ∈ nodes, Wf v)
    (hedges : ∀ v ∈ edges, Wf v) (hnodes' : ∀ v ∈ nodes', Wf v) (hedges' : ∀ v ∈ edges', Wf v) :
    fileText N nodes edges = fileText N nodes' edges' ↔
      nodes.map (canon N) = nodes'.map (canon N) ∧ edges.map (canon N) = edges'.map (canon N) := by
  have hcanon (nodes edges : List (Value ν)) :
      canon N (.obj [(ascii "nodes", .arr nodes), (ascii "edges", .arr edges)]) =
        .obj [(ascii "nodes", .arr (nodes.map (canon N))),
          (ascii "edges", .arr (edges.map (canon N)))] := by
    rw [canon, canonEntries_eq_map]
    simp only [List.map_cons, List.map_nil, canon, canonItems_eq_map]
  constructor
  · intro h
    have hgap : ∀ c ∈ ascii "  ", isSpace c = true := List.all_eq_true.mp rfl
    have heq := canon_eq_of_print_eq hgap (wf_fileText hnodes hedges)
      (wf_fileText hnodes' hedges') (List.append_cancel_right h)
    rw [hcanon, hcanon] at heq
    simpa using heq
  · rintro ⟨hn, he⟩
    unfold fileText
    rw [← print_canon, hcanon, hn, he, ← hcanon, print_canon]

theorem listed_again_iff (hwf : ∀ v ∈ items, Wf v) :
    (listed ((listed items).map (canon N))).map (canon N) = (listed items).map (canon N) ↔
      Settled items := by
  have hagain : ((listed items).map (canon N)).map (canon N) = (listed items).map (canon N) := by
    rw [List.map_map]
    exact List.map_congr_left fun v hv => canon_canon (wf_listed hwf v hv)
  rw [← clean_listed_iff, ← clean_map_canon_iff (N := N), ← listed_eq_iff (N := N), hagain]

end

/-! ## The theorem -/

/-- What the items of a text must keep to for a canvas of distinct ids to come back. -/
def Faithful (N : Numbers ν) (items : List (Value ν)) : Prop :=
  Plain items ∧ ∀ v ∈ items, (itemId v).isSome = true → Exact N v

theorem parseCanvas_serialize_iff (N : Numbers ν) {data : Value ν} (hwf : Wf data)
    (hnodes : (canvasOf data).nodeOrder.Nodup) (hedges : (canvasOf data).edgeOrder.Nodup) :
    parseCanvas N ((canvasOf data).serialize N) = some (canvasOf data) ↔
      Faithful N (itemsOf (ascii "nodes") data) ∧ Faithful N (itemsOf (ascii "edges") data) := by
  have hn := wf_itemsOf hwf (ascii "nodes")
  have he := wf_itemsOf hwf (ascii "edges")
  have hnodes : (ids (itemsOf (ascii "nodes") data)).Nodup := order_collect _ ▸ hnodes
  have hedges : (ids (itemsOf (ascii "edges") data)).Nodup := order_collect _ ▸ hedges
  have hiff := collect_listed_iff (N := N) hn hnodes
  have hiff' := collect_listed_iff (N := N) he hedges
  simp only [canon_eq_self_iff] at hiff hiff'
  rw [canvasOf_eq, serialize_gather, parseCanvas_fileText (wf_listed hn) (wf_listed he),
    Option.some.injEq, gather_eq_iff, hiff, hiff']
  rfl

theorem serialize_again_iff (N : Numbers ν) {data : Value ν} (hwf : Wf data) :
    (parseCanvas N ((canvasOf data).serialize N)).map (StructuredCanvas.serialize N) =
        some ((canvasOf data).serialize N) ↔
      Settled (itemsOf (ascii "nodes") data) ∧ Settled (itemsOf (ascii "edges") data) := by
  have hn := wf_itemsOf hwf (ascii "nodes")
  have he := wf_itemsOf hwf (ascii "edges")
  have hcanon {items : List (Value ν)} (h : ∀ v ∈ items, Wf v) :
      ∀ v ∈ (listed items).map (canon N), Wf v := by
    intro v hv
    obtain ⟨u, hu, rfl⟩ := List.mem_map.mp hv
    exact (wf_listed h u hu).canon
  rw [canvasOf_eq, serialize_gather, parseCanvas_fileText (wf_listed hn) (wf_listed he),
    Option.map_some, Option.some.injEq, serialize_gather,
    fileText_eq_iff (wf_listed (hcanon hn)) (wf_listed (hcanon he)) (wf_listed hn) (wf_listed he),
    listed_again_iff hn, listed_again_iff he]

/-- Every entry of a JSON value is written once, in the order given; a text comes back as
claimed exactly where no record it fills had its prototype taken for one of its items, and a
number that its numeral loses is in no item with an id. -/
theorem serializeCanvas_round_trips_iff (N : Numbers ν) (root : Value ν) (hroot : Wf root)
    (text : JsString) :
    ((∃ nodes edges,
        serializeCanvas N root = fileText N (nodes.map Prod.snd) (edges.map Prod.snd) ∧
        Lists (entriesOf (ascii "nodes") root)
          (orderOf (ascii "nodeOrder") root (entriesOf (ascii "nodes") root)) nodes ∧
        Lists (entriesOf (ascii "edges") root)
          (orderOf (ascii "edgeOrder") root (entriesOf (ascii "edges") root)) edges) ∧
      ∀ c, parseCanvas N text = some c →
        (c.nodeOrder.Nodup → c.edgeOrder.Nodup → parseCanvas N (c.serialize N) = some c) ∧
        (parseCanvas N (c.serialize N)).map (StructuredCanvas.serialize N) =
          some (c.serialize N)) ↔
    ∀ data, parseData N text = some data → data ≠ .null →
      ((ids (itemsOf (ascii "nodes") data)).Nodup → (ids (itemsOf (ascii "edges") data)).Nodup →
        Faithful N (itemsOf (ascii "nodes") data) ∧ Faithful N (itemsOf (ascii "edges") data)) ∧
      Settled (itemsOf (ascii "nodes") data) ∧ Settled (itemsOf (ascii "edges") data) := by
  have hentries (key : JsString) : Assoc.Wf (entriesOf key root) := by
    rw [entriesOf]
    split
    · next h =>
        cases wf_field hroot h with
        | obj hkeys _ => exact hkeys
    · exact Assoc.wf_nil
  have hlists : ∃ nodes edges,
      serializeCanvas N root = fileText N (nodes.map Prod.snd) (edges.map Prod.snd) ∧
      Lists (entriesOf (ascii "nodes") root)
        (orderOf (ascii "nodeOrder") root (entriesOf (ascii "nodes") root)) nodes ∧
      Lists (entriesOf (ascii "edges") root)
        (orderOf (ascii "edgeOrder") root (entriesOf (ascii "edges") root)) edges :=
    ⟨_, _, rfl, lists_orderedItems (hentries _) _, lists_orderedItems (hentries _) _⟩
  constructor
  · rintro ⟨-, h⟩ data hdata hnull
    have hwf := wf_parseData hdata
    have hparse : parseCanvas N text = some (canvasOf data) := by
      rw [parseCanvas, hdata]
      cases data with
      | null => exact absurd rfl hnull
      | bool b => rfl
      | num n => rfl
      | str s => rfl
      | arr items => rfl
      | obj entries => rfl
    obtain ⟨hback, hagain⟩ := h _ hparse
    refine ⟨fun hnodes hedges => ?_, (serialize_again_iff N hwf).mp hagain⟩
    rw [← order_collect] at hnodes hedges
    exact (parseCanvas_serialize_iff N hwf hnodes hedges).mp (hback hnodes hedges)
  · refine fun h => ⟨hlists, fun c hc => ?_⟩
    rw [parseCanvas] at hc
    split at hc
    · cases hc
    · cases hc
    · next data hnull hdata =>
        obtain rfl := Option.some.inj hc
        have hwf := wf_parseData hdata
        obtain ⟨hback, hagain⟩ := h data hdata hnull
        refine ⟨fun hnodes hedges => ?_, (serialize_again_iff N hwf).mpr hagain⟩
        refine (parseCanvas_serialize_iff N hwf hnodes hedges).mpr ?_
        exact hback (order_collect _ ▸ hnodes) (order_collect _ ▸ hedges)

theorem readNumeral_zero (_ : Unit) (s : JsString) (h : some (ascii "0") = some s) :
    readNumeral s = some (s, []) := by
  obtain rfl := Option.some.inj h
  decide

theorem print_zero (_ : Unit) (s : JsString) (h : some (ascii "0") = some s) :
    some (ascii "0") = some s := h

/-- Numbers of which there is only `0`. -/
def onlyZero : Numbers Unit where
  print _ := some (ascii "0")
  read _ := ()
  readNumeral_print := readNumeral_zero
  print_read := print_zero

/-- A file with one node. -/
def nodeData (node : Value Unit) : Value Unit := .obj [(ascii "nodes", .arr [node])]

theorem nodes_nodeData (node : Value Unit) :
    itemsOf (ascii "nodes") (nodeData node) = [node] := by
  rw [itemsOf, nodeData, field, Assoc.get_cons, if_pos rfl]

theorem edges_nodeData (node : Value Unit) : itemsOf (ascii "edges") (nodeData node) = [] := by
  have hne : ascii "nodes" ≠ ascii "edges" := by decide +kernel
  rw [itemsOf, nodeData, field, Assoc.get_cons, if_neg hne, Assoc.get_nil]

theorem parseData_nodeData {node : Value Unit} (hwf : Wf node) (hexact : Exact onlyZero node) :
    parseData onlyZero (print onlyZero [] (nodeData node)) = some (nodeData node) := by
  have hwf' : Wf (nodeData node) := by
    refine .obj (List.nodup_singleton _) fun e he => ?_
    obtain rfl := List.mem_singleton.mp he
    exact .arr fun v hv => List.mem_singleton.mp hv ▸ hwf
  have hexact' : Exact onlyZero (nodeData node) := by
    refine .obj fun e he => ?_
    obtain rfl := List.mem_singleton.mp he
    exact .arr fun v hv => List.mem_singleton.mp hv ▸ hexact
  have hread := @parse_print_eq _ onlyZero [] nofun _ hwf'
  have hblank : (print onlyZero [] (nodeData node)).all isBlank = false := rfl
  rw [parseData, hblank, hread, hexact'.canon]
  rfl

/-- A node with the id `a`. -/
def plainNode : Value Unit := .obj [(ascii "id", .str (ascii "a"))]

theorem serializeCanvas_round_trips_plainNode :
    ∃ c, parseCanvas onlyZero (print onlyZero [] (nodeData plainNode)) = some c ∧
      parseCanvas onlyZero (c.serialize onlyZero) = some c := by
  have hwf : Wf plainNode := by
    refine .obj (List.nodup_singleton _) fun e he => ?_
    obtain rfl := List.mem_singleton.mp he
    exact .str _
  have hexact : Exact onlyZero plainNode := by
    refine .obj fun e he => ?_
    obtain rfl := List.mem_singleton.mp he
    exact .str _
  have hid : itemId plainNode = some (ascii "a") := by
    rw [itemId, plainNode, field, Assoc.get_cons, if_pos rfl]
  have hne : ascii "a" ≠ dunderProto := by decide +kernel
  have hdata := parseData_nodeData hwf hexact
  have hparse : parseCanvas onlyZero (print onlyZero [] (nodeData plainNode)) =
      some (canvasOf (nodeData plainNode)) := by
    rw [parseCanvas, hdata]
    rfl
  have hsettled (items : List (Value Unit)) (h : withId dunderProto items = []) :
      Settled items := by
    intro p w hp
    rw [h] at hp
    cases hp
  have hback := (serializeCanvas_round_trips_iff onlyZero (nodeData plainNode)
    (wf_parseData hdata) (print onlyZero [] (nodeData plainNode))).mpr (by
      intro data hdata' hnull
      obtain rfl := Option.some.inj (hdata.symm.trans hdata')
      rw [nodes_nodeData, edges_nodeData]
      refine ⟨fun _ _ => ⟨⟨fun v hv hslot => ?_, fun v hv _ => ?_⟩, nofun, nofun⟩,
        hsettled _ ?_, hsettled _ rfl⟩
      · obtain rfl := List.mem_singleton.mp hv
        exact absurd (Option.some.inj (hid.symm.trans hslot)) hne
      · exact List.mem_singleton.mp hv ▸ hexact
      · rw [withId, List.filter_cons_of_neg (by simpa [hid] using hne)]
        rfl)
  refine ⟨_, hparse, (hback.2 _ hparse).1 ?_ ?_⟩
  · rw [canvasOf, nodes_nodeData, order_collect, ids, List.filterMap_cons_some hid]
    exact List.nodup_singleton _
  · rw [canvasOf, edges_nodeData]
    exact List.nodup_nil

/-- A node with the id `__proto__` and an empty field of that name. -/
def protoNode : Value Unit := .obj [(ascii "id", .str dunderProto), (dunderProto, .obj [])]

def protoText : JsString :=
  ascii "\x7b\"nodes\":[\x7b\"id\":\"__proto__\",\"__proto__\":\x7b\x7d\x7d]\x7d"

theorem parseData_protoText : parseData onlyZero protoText = some (nodeData protoNode) := by
  have htext : protoText = print onlyZero [] (nodeData protoNode) := by decide +kernel
  have hkeys : [ascii "id", dunderProto].Nodup := by decide +kernel
  rw [htext]
  refine parseData_nodeData (.obj hkeys fun e he => ?_) (.obj fun e he => ?_)
  · rcases List.mem_cons.mp he with rfl | he
    · exact .str _
    · obtain rfl := List.mem_singleton.mp he
      exact .obj Assoc.wf_nil nofun
  · rcases List.mem_cons.mp he with rfl | he
    · exact .str _
    · obtain rfl := List.mem_singleton.mp he
      exact .obj nofun

theorem itemId_protoNode : itemId protoNode = some dunderProto := by
  rw [itemId, protoNode, field, Assoc.get_cons, if_pos rfl]

theorem field_protoNode : field dunderProto protoNode = some (.obj []) := by
  have hne : ascii "id" ≠ dunderProto := by decide +kernel
  rw [protoNode, field, Assoc.get_cons, if_neg hne, Assoc.get_cons, if_pos rfl]

/-- The node is written as its field, and next not at all. -/
theorem not_round_trips : ∃ c, parseCanvas onlyZero protoText = some c ∧
    c.nodeOrder.Nodup ∧ c.edgeOrder.Nodup ∧
    parseCanvas onlyZero (c.serialize onlyZero) ≠ some c ∧
    (parseCanvas onlyZero (c.serialize onlyZero)).map (StructuredCanvas.serialize onlyZero) ≠
      some (c.serialize onlyZero) := by
  have hwf := wf_parseData parseData_protoText
  have hnodes : (canvasOf (nodeData protoNode)).nodeOrder.Nodup := by
    rw [canvasOf, nodes_nodeData, order_collect, ids, List.filterMap_cons_some itemId_protoNode]
    exact List.nodup_singleton _
  have hedges : (canvasOf (nodeData protoNode)).edgeOrder.Nodup := by
    rw [canvasOf, edges_nodeData]
    exact List.nodup_nil
  refine ⟨canvasOf (nodeData protoNode), ?_, hnodes, hedges, fun h => ?_, fun h => ?_⟩
  · rw [parseCanvas, parseData_protoText]
    rfl
  · have hplain := ((parseCanvas_serialize_iff onlyZero hwf hnodes hedges).mp h).1.1
    rw [nodes_nodeData] at hplain
    have hnone := hplain protoNode List.mem_cons_self itemId_protoNode
    rw [field_protoNode] at hnone
    cases hnone
  · -- the field is an object without an id
    have hsettled := ((serialize_again_iff onlyZero hwf).mp h).1
    rw [nodes_nodeData] at hsettled
    have hlast : (withId dunderProto [protoNode]).getLast? = some protoNode := by
      rw [withId, List.filter_cons_of_pos (by simp [itemId_protoNode])]
      rfl
    obtain ⟨id, hid, -⟩ := (hsettled protoNode (.obj []) hlast field_protoNode).2 rfl
    cases hid

end Realtime.Structured.CanvasText
