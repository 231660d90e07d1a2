import Mathlib.Tactic
import Realtime.Structured.ServerReconcile

/-!
# Two reconcilers on one tree

Where the server and the client store a value alike, what one has written the other leaves
alone. They part on long strings, which the server measures in bytes and the client in code
units and only under a key, and on integers, which the server stores as `BigInt`.
-/

namespace Realtime.Structured.Server

open Lib Lib.Js Lib.Utf16

/-! ## Values and positions -/

/-- Distinct keys in each object. -/
inductive Json.Wf : Json → Prop
  | null : Wf .null
  | bool (b : Bool) : Wf (.bool b)
  | number (n : Number) : Wf (.number n)
  | string (s : Str) : Wf (.string s)
  | array {values : List Json} : (∀ v ∈ values, Wf v) → Wf (.array values)
  | object {entries : List (Str × Json)} : Assoc.Wf entries → (∀ e ∈ entries, Wf e.2) →
      Wf (.object entries)

/-- A value that `serde_json` has parsed. -/
abbrev JsonValue := { v : Json // v.Wf }

/-- No value in the tree is `undefined`, which JSON does not have. -/
inductive Node.Defined : Node → Prop
  | map {entries : List (Str × Node)} : (∀ e ∈ entries, Defined e.2) → Defined (.map entries)
  | array {items : List Node} : (∀ n ∈ items, Defined n) → Defined (.array items)
  | text (content : Str) : Defined (.text content)
  | any {value : Any} : value ≠ .undefined → Defined (.any value)

/-- A position in a value, with what is there. -/
inductive Within : Slot → Json → Slot → Json → Prop
  | here (slot : Slot) (v : Json) : Within slot v slot v
  | item {slot slot' : Slot} {values : List Json} {v w : Json} (index : Nat) : v ∈ values →
      Within (.item index) v slot' w → Within slot (.array values) slot' w
  | entry {slot slot' : Slot} {entries : List (Str × Json)} {key : Str} {v w : Json} :
      (key, v) ∈ entries → Within (.entry key) v slot' w →
      Within slot (.object entries) slot' w

mutual

/-- The tree, read as JSON, is the value. -/
def Reads : Json → Node → Prop
  | v, .any value => anyToJson value = v
  | .string s, .text content => content = s
  | .array values, .array items => ReadsItems values items
  | .object entries, .map map =>
      (∀ key ∈ Assoc.keys map, key ∈ Assoc.keys entries) ∧ ReadsEntries entries map
  | _, _ => False

def ReadsItems : List Json → List Node → Prop
  | [], items => items = []
  | v :: values, items => ∃ node rest, items = node :: rest ∧ Reads v node ∧
      ReadsItems values rest

def ReadsEntries : List (Str × Json) → List (Str × Node) → Prop
  | [], _ => True
  | (key, v) :: rest, map =>
      (∃ node, Assoc.get key map = some node ∧ Reads v node) ∧ ReadsEntries rest map

end

inductive Kind where
  | text
  | array
  | map
  | plain
  deriving DecidableEq

def kindOf : Structured.Node → Kind
  | .map _ => .map
  | .array _ => .array
  | .text _ => .text
  | .plain _ => .plain

/-! ## What the two are asked -/

variable (toDouble : ℤ → ℚ)

def Slot.jsKey (slot : Slot) : Option JsString := slot.key.map Str.encodeUtf16

/-- What the client makes of the value in a slot. -/
def clientValue (slot : Slot) (current : Option Structured.Node) (v : Json) : Reconciled :=
  Structured.reconcileValue {} current slot.jsKey (toJs toDouble v)

/-- The operations of `reconcileMap` or `reconcileArray` for that slot. -/
def clientOps (slot : Slot) (current : Option Structured.Node) (v : Json) : List YOp :=
  match slot with
  | .entry key => entryOps (Str.encodeUtf16 key) current (clientValue toDouble slot current v)
  | .item index => itemOps index current (clientValue toDouble slot current v)

/-- The two store the value alike, at every position in it, and once one has written the value
the other leaves it alone. -/
structure Agree (slot : Slot) (v : Json) : Prop where
  kinds : ∀ slot' w, Within slot v slot' w → ∀ current current',
    kindOf ((reconcileValue slot' current w).1.view toDouble) =
      kindOf (clientValue toDouble slot' current' w).node
  server_first : ∀ current, (∀ node, current = some node → node.Defined) →
    clientOps toDouble slot (some ((reconcileValue slot current v).1.view toDouble)) v = []
  client_first : ∀ current node, node.view toDouble = (clientValue toDouble slot current v).node →
    Reads v node → (reconcileValue slot (some node) v).2 = []

/-- A string is as long for the one as for the other. -/
def Measured (key : Option Str) (s : Str) : Prop :=
  256 < Str.byteLength s → ∃ k, key = some k ∧
    (k ∈ textKeys ∨ k ≠ [] ∧ 256 < (Str.encodeUtf16 s).length)

/-- No string is long for one side only, and no number is an integer. -/
def Common (slot : Slot) (v : Json) : Prop :=
  ∀ slot' w, Within slot v slot' w →
    (∀ s, w = .string s → Measured slot'.key s) ∧ ∀ n, w ≠ .number (.int n)

variable {toDouble} {slot slot' : Slot} {v w : Json} {s : Str}

/-! ## Which strings are texts -/

theorem defaultTextKeys_eq : defaultTextKeys = textKeys.map Str.encodeUtf16 := by decide

theorem shouldUseText_client (key : Option Str) (s : Str) :
    Structured.shouldUseText (key.map Str.encodeUtf16) (Str.encodeUtf16 s) {} = true ↔
      ∃ k, key = some k ∧ k ≠ [] ∧ (k ∈ textKeys ∨ 256 < (Str.encodeUtf16 s).length) := by
  cases key with
  | none => simp [Structured.shouldUseText]
  | some k =>
      have hmem : Str.encodeUtf16 k ∈ defaultTextKeys ↔ k ∈ textKeys := by
        rw [defaultTextKeys_eq, List.mem_map]
        simp
      simp [Structured.shouldUseText, hmem]

theorem shouldUseText_server (key : Option Str) (s : Str) :
    shouldUseText key s = true ↔ (∃ k, key = some k ∧ k ∈ textKeys) ∨ 256 < Str.byteLength s := by
  cases key with
  | none => simp [shouldUseText]
  | some k => simp [shouldUseText]

theorem nil_not_mem_textKeys : [] ∉ textKeys := by decide

theorem measured_iff (key : Option Str) (s : Str) :
    Measured key s ↔
      shouldUseText key s =
        Structured.shouldUseText (key.map Str.encodeUtf16) (Str.encodeUtf16 s) {} := by
  rw [Bool.eq_iff_iff, shouldUseText_server, shouldUseText_client]
  have hle := Str.length_encodeUtf16_le s
  constructor
  · intro h
    constructor
    · rintro (⟨k, rfl, hk⟩ | hlong)
      · exact ⟨k, rfl, fun hnil => nil_not_mem_textKeys (hnil ▸ hk), .inl hk⟩
      · obtain ⟨k, rfl, hk | ⟨hne, hlen⟩⟩ := h hlong
        · exact ⟨k, rfl, fun hnil => nil_not_mem_textKeys (hnil ▸ hk), .inl hk⟩
        · exact ⟨k, rfl, hne, .inr hlen⟩
    · rintro ⟨k, rfl, -, hk | hlen⟩
      · exact .inl ⟨k, rfl, hk⟩
      · exact .inr (by omega)
  · intro h hlong
    obtain ⟨k, rfl, hne, hk⟩ := h.mp (.inr hlong)
    exact ⟨k, rfl, hk.imp id fun hlen => ⟨hne, hlen⟩⟩

/-! ## Kinds -/

/-- How the server stores a value. -/
def serverKind (key : Option Str) : Json → Kind
  | .array _ => .array
  | .object _ => .map
  | .string s => if shouldUseText key s then .text else .plain
  | _ => .plain

theorem kindOf_view_reconcileAny (slot : Slot) (current : Option Node) (next : Json) :
    kindOf ((reconcileAny slot current next).1.view toDouble) = .plain := by
  unfold reconcileAny
  dsimp only
  split
  · split
    · rfl
    · rfl
  · rfl

theorem kindOf_server (slot : Slot) (current : Option Node) (v : Json) :
    kindOf ((reconcileValue slot current v).1.view toDouble) = serverKind slot.key v := by
  cases v with
  | array values =>
      rw [reconcileValue.eq_def]
      dsimp only
      split <;> rfl
  | object entries =>
      rw [reconcileValue.eq_def]
      dsimp only
      split <;> rfl
  | string s =>
      rw [reconcileValue.eq_def, serverKind]
      dsimp only
      split
      · split <;> rfl
      · exact kindOf_view_reconcileAny ..
  | null | bool _ | number _ =>
      rw [reconcileValue.eq_def]
      exact kindOf_view_reconcileAny ..

theorem kindOf_client (slot : Slot) (current : Option Structured.Node) (v : Json) :
    kindOf (clientValue toDouble slot current v).node =
      match v with
      | .string s =>
          if Structured.shouldUseText slot.jsKey (Str.encodeUtf16 s) {} then .text else .plain
      | v => serverKind slot.key v := by
  unfold clientValue
  cases v with
  | array values => rfl
  | object entries => rfl
  | string s =>
      rw [toJs, Structured.reconcileValue.eq_def]
      dsimp only
      split
      · rfl
      · rfl
  | number n => cases n <;> rfl
  | null => rfl
  | bool _ => rfl

/-! ## What the server stores -/

mutual

/-- The tree that stands for the value. -/
def Holds : Option Str → Json → Node → Prop
  | _, .array values, node => ∃ items, node = .array items ∧ HoldsItems values items
  | _, .object entries, node => ∃ map, node = .map map ∧
      (∀ key ∈ Assoc.keys map, key ∈ Assoc.keys entries) ∧ HoldsEntries entries map
  | key, .string s, node => node = if shouldUseText key s then .text s else .any (.string s)
  | _, next, node => node = .any (jsonToAny next)

def HoldsItems : List Json → List Node → Prop
  | [], items => items = []
  | v :: values, items => ∃ node rest, items = node :: rest ∧ Holds none v node ∧
      HoldsItems values rest

def HoldsEntries : List (Str × Json) → List (Str × Node) → Prop
  | [], _ => True
  | (key, v) :: rest, map =>
      (∃ node, Assoc.get key map = some node ∧ Holds (some key) v node) ∧ HoldsEntries rest map

end

theorem holdsEntries_iff {entries : List (Str × Json)} {map : List (Str × Node)} :
    HoldsEntries entries map ↔ ∀ e ∈ entries, ∃ node, Assoc.get e.1 map = some node ∧
      Holds (some e.1) e.2 node := by
  induction entries with
  | nil => simp [HoldsEntries]
  | cons e entries ih => simp [HoldsEntries, ih]

theorem applyStringToYText_self (s : Str) : applyStringToYText s s = (s, []) := if_pos rfl

/-- Prefix and suffix do not overlap, so a rewrite is exact. -/
theorem applyStringToYText_eq (old next : Str) : (applyStringToYText old next).1 = next := by
  by_cases h : old = next
  · rw [h, applyStringToYText_self]
  · obtain ⟨head, middle, middle', tail, hold, hnext, hstart, hend⟩ := exists_affixes old next
    have haffixes : commonAffixes old next = (Str.byteLength head,
        Str.byteLength head + Str.byteLength middle,
        Str.byteLength head + Str.byteLength middle') := by
      unfold commonAffixes
      dsimp only
      rw [← hend, ← hstart, hold, hnext, take_length_sub, take_length_sub, List.take_left,
        Str.byteLength_append, Str.byteLength_append]
    have hinsert : Str.dropBytes (Str.byteLength head)
        (Str.takeBytes (Str.byteLength head + Str.byteLength middle') next) = middle' := by
      rw [hnext, ← List.append_assoc, ← Str.byteLength_append, Str.takeBytes_append,
        Str.dropBytes_append]
    have hdeleted : (if 0 < Str.byteLength middle then
        removeRange old (Str.byteLength head) (Str.byteLength middle) else old) = head ++ tail := by
      split
      · rw [removeRange, hold, Str.takeBytes_append, ← List.append_assoc,
          ← Str.byteLength_append, Str.dropBytes_append]
      · rename_i hzero
        rw [hold, Str.eq_nil_of_byteLength (Nat.eq_zero_of_not_pos hzero), List.nil_append]
    rw [applyStringToYText, if_neg h, haffixes]
    dsimp only
    rw [Nat.add_sub_cancel_left, hinsert, hdeleted]
    split
    · rename_i hempty
      rw [hnext, List.isEmpty_iff.mp hempty, List.nil_append]
    · dsimp only
      rw [insertAt, Str.takeBytes_append, Str.dropBytes_append, hnext, List.append_assoc]

theorem anyToJson_jsonToAny (v : Json) : anyToJson (jsonToAny v) = v := by
  cases v with
  | number n => cases n <;> rfl
  | null | bool _ | string _ | array _ | object _ => rfl

/-- A value that the server leaves is the one it would put there. -/
theorem eq_jsonToAny {value : Any} (hdefined : value ≠ .undefined)
    (h : scalarEq (anyToJson value) w = true) : value = jsonToAny w := by
  cases value with
  | undefined => exact absurd rfl hdefined
  | null | bool _ | number _ | bigInt _ | string _ | array _ | map _ =>
      cases w with
      | number n => cases n <;> simp_all [anyToJson, scalarEq, jsonToAny]
      | null | bool _ | string _ | array _ | object _ =>
          simp_all [anyToJson, scalarEq, jsonToAny]

theorem reconcileAny_fst {current : Option Node}
    (hdefined : ∀ node, current = some node → node.Defined) (next : Json) :
    (reconcileAny slot current next).1 = .any (jsonToAny next) := by
  unfold reconcileAny
  dsimp only
  split
  · rename_i value
    split
    · rename_i heq
      rw [anyToJson_jsonToAny] at heq
      cases hdefined _ rfl with
      | any hne => rw [eq_jsonToAny hne heq]
    · rfl
  · rfl

/-- What the entry loop leaves under each key. -/
theorem get_reconcileEntries {entries : List (Str × Json)} (hwf : Assoc.Wf entries)
    (map : List (Str × Node)) (key : Str) :
    Assoc.get key (reconcileEntries map entries).1 =
      match Assoc.get key entries with
      | some next => some (reconcileValue (.entry key) (Assoc.get key map) next).1
      | none => Assoc.get key map := by
  induction entries generalizing map with
  | nil => rfl
  | cons e entries ih =>
      obtain ⟨k, next⟩ := e
      obtain ⟨hfresh, hwf⟩ := Assoc.wf_cons.mp hwf
      rw [reconcileEntries, ih hwf, Assoc.get_cons]
      by_cases hk : k = key
      · subst hk
        rw [Assoc.get_eq_none_iff.mpr hfresh, if_pos rfl]
        simp
      · rw [if_neg hk, Assoc.get_set_ne hk]

/-- The map after both loops. -/
theorem holds_reconcileMap {entries : List (Str × Json)} (hwf : Assoc.Wf entries)
    (hentries : ∀ e ∈ entries, ∀ slot current,
      (∀ node, current = some node → node.Defined) →
        Holds slot.key e.2 (reconcileValue slot current e.2).1)
    {old : List (Str × Node)} (hold : ∀ e ∈ old, e.2.Defined)
    (hkeys : ∀ key ∈ Assoc.keys old, key ∈ Assoc.keys entries) :
    Holds slot.key (.object entries) (.map (reconcileEntries old entries).1) := by
  refine ⟨_, rfl, fun key hkey => ?_, holdsEntries_iff.mpr fun e he => ?_⟩
  · rw [← Assoc.get_isSome_iff, get_reconcileEntries hwf] at hkey
    cases hget : Assoc.get key entries with
    | some next => exact Assoc.get_isSome_iff.mp (by rw [hget]; rfl)
    | none =>
        rw [hget] at hkey
        exact hkeys key (Assoc.get_isSome_iff.mp hkey)
  · obtain ⟨key, next⟩ := e
    have hget : Assoc.get key entries = some next := Assoc.get_of_mem hwf he
    refine ⟨_, ?_, hentries _ he (.entry key) (Assoc.get key old) fun node hnode => ?_⟩
    · rw [get_reconcileEntries hwf, hget]
    · exact hold _ (Assoc.mem_of_get hnode)

theorem holdsItems_reconcileItems {values : List Json}
    (hvalues : ∀ v ∈ values, ∀ slot current,
      (∀ node, current = some node → node.Defined) →
        Holds slot.key v (reconcileValue slot current v).1)
    {index : Nat} {old : List Node} (hold : ∀ n ∈ old, n.Defined) :
    HoldsItems values (reconcileItems index old values).1 := by
  induction values generalizing index old with
  | nil => rfl
  | cons v values ih =>
      rw [reconcileItems]
      refine ⟨_, _, rfl, ?_, ?_⟩
      · refine hvalues v List.mem_cons_self (.item index) old.head? fun node hnode => ?_
        exact hold node (List.mem_of_mem_head? hnode)
      · exact ih (fun v hv => hvalues v (List.mem_cons_of_mem _ hv))
          fun n hn => hold n (List.mem_of_mem_tail hn)

/-- Whatever the slot has held, it holds the value afterwards. -/
theorem holds_reconcileValue (hwf : v.Wf) (slot : Slot) (current : Option Node)
    (hdefined : ∀ node, current = some node → node.Defined) :
    Holds slot.key v (reconcileValue slot current v).1 := by
  induction hwf generalizing slot current with
  | null =>
      rw [reconcileValue.eq_def]
      exact reconcileAny_fst hdefined _
  | bool b =>
      rw [reconcileValue.eq_def]
      exact reconcileAny_fst hdefined _
  | number n =>
      rw [reconcileValue.eq_def]
      exact reconcileAny_fst hdefined _
  | string s =>
      rw [reconcileValue.eq_def, Holds]
      dsimp only
      split
      · split
        · rw [applyStringToYText_eq]
        · rw [applyStringToYText_eq]
      · exact reconcileAny_fst hdefined _
  | array _ ih =>
      rw [reconcileValue.eq_def]
      dsimp only
      split
      · refine ⟨_, rfl, holdsItems_reconcileItems ih fun n hn => ?_⟩
        cases hdefined _ rfl with
        | array hitems => exact hitems n hn
      · exact ⟨_, rfl, holdsItems_reconcileItems ih nofun⟩
  | object hentries _ ih =>
      rw [reconcileValue.eq_def]
      dsimp only
      split
      · refine holds_reconcileMap hentries ih (fun e he => ?_) fun key hkey => ?_
        · cases hdefined _ rfl with
          | map hold => exact hold e (List.mem_of_mem_filter he)
        · obtain ⟨e, he, rfl⟩ := List.mem_map.mp hkey
          simpa using List.of_mem_filter he
      · exact holds_reconcileMap hentries ih nofun nofun

/-! ## Writing what is there -/

theorem scalarEq_self (h : (∀ values, v ≠ .array values) ∧ ∀ entries, v ≠ .object entries) :
    scalarEq v v = true := by
  cases v with
  | array values => exact absurd rfl (h.1 values)
  | object entries => exact absurd rfl (h.2 entries)
  | null | bool _ | number _ | string _ => simp [scalarEq]

theorem reconcileAny_of_holds
    (h : (∀ values, v ≠ .array values) ∧ ∀ entries, v ≠ .object entries) :
    reconcileAny slot (some (.any (jsonToAny v))) v = (.any (jsonToAny v), []) := by
  unfold reconcileAny
  dsimp only
  rw [if_pos]
  rw [anyToJson_jsonToAny]
  exact scalarEq_self h

theorem reconcileItems_of_holds {values : List Json}
    (hvalues : ∀ v ∈ values, ∀ (slot : Slot) node, Holds slot.key v node →
      reconcileValue slot (some node) v = (node, []))
    {index : Nat} {items : List Node} (h : HoldsItems values items) :
    reconcileItems index items values = (items, []) := by
  induction values generalizing index items with
  | nil =>
      rw [HoldsItems] at h
      rw [h]
      rfl
  | cons v values ih =>
      obtain ⟨node, rest, rfl, hhead, htail⟩ := h
      have hnode := hvalues v List.mem_cons_self (.item index) node hhead
      have hrest : reconcileItems (index + 1) rest values = (rest, []) :=
        ih (fun v hv => hvalues v (List.mem_cons_of_mem _ hv)) htail
      rw [reconcileItems, List.head?_cons, hnode, List.tail_cons, hrest]
      rfl

theorem reconcileEntries_of_holds {entries : List (Str × Json)}
    (hentries : ∀ e ∈ entries, ∀ (slot : Slot) node, Holds slot.key e.2 node →
      reconcileValue slot (some node) e.2 = (node, []))
    {map : List (Str × Node)} (h : HoldsEntries entries map) :
    reconcileEntries map entries = (map, []) := by
  induction entries with
  | nil => rfl
  | cons e entries ih =>
      obtain ⟨key, next⟩ := e
      obtain ⟨⟨node, hget, hhead⟩, htail⟩ := h
      have hnode := hentries _ List.mem_cons_self (.entry key) node hhead
      have hrest := ih (fun e he => hentries e (List.mem_cons_of_mem _ he)) htail
      rw [reconcileEntries, hget, hnode, Assoc.set_eq_self hget, hrest]
      rfl

theorem dropKeys_of_subset {entries : List (Str × Json)} {map : List (Str × Node)}
    (h : ∀ key ∈ Assoc.keys map, key ∈ Assoc.keys entries) :
    dropKeys entries map = map ∧ dropOps entries map = [] := by
  have hkeys : ∀ e ∈ map, e.1 ∈ Assoc.keys entries := fun e he =>
    h _ (List.mem_map_of_mem he)
  constructor
  · exact List.filter_eq_self.mpr fun e he => decide_eq_true (hkeys e he)
  · rw [dropOps, List.filter_eq_nil_iff.mpr, List.map_nil]
    intro e he
    simpa using hkeys e he

/-- The server leaves a tree that holds the value. -/
theorem reconcileValue_of_holds (hwf : v.Wf) (slot : Slot) (node : Node)
    (h : Holds slot.key v node) : reconcileValue slot (some node) v = (node, []) := by
  induction hwf generalizing slot node with
  | null =>
      rw [Holds.eq_def] at h
      rw [h, reconcileValue.eq_def]
      exact reconcileAny_of_holds ⟨nofun, nofun⟩
  | bool b =>
      rw [Holds.eq_def] at h
      rw [h, reconcileValue.eq_def]
      exact reconcileAny_of_holds ⟨nofun, nofun⟩
  | number n =>
      rw [Holds.eq_def] at h
      rw [h, reconcileValue.eq_def]
      exact reconcileAny_of_holds ⟨nofun, nofun⟩
  | string s =>
      rw [Holds] at h
      rw [h, reconcileValue.eq_def]
      dsimp only
      by_cases htext : shouldUseText slot.key s = true
      · rw [if_pos htext, if_pos htext]
        dsimp only
        rw [applyStringToYText_self]
      · rw [if_neg htext, if_neg htext]
        exact reconcileAny_of_holds (v := .string s) ⟨nofun, nofun⟩
  | array _ ih =>
      obtain ⟨items, rfl, hitems⟩ := h
      rw [reconcileValue.eq_def]
      dsimp only
      rw [reconcileItems_of_holds ih hitems]
  | object _ _ ih =>
      obtain ⟨map, rfl, hkeys, hmap⟩ := h
      rw [reconcileValue.eq_def]
      dsimp only
      rw [(dropKeys_of_subset hkeys).1, (dropKeys_of_subset hkeys).2,
        reconcileEntries_of_holds ih hmap]
      rfl

/-! ## The tree on the client -/

theorem view_entries (map : List (Str × Node)) :
    Node.view.entries toDouble map =
      map.map fun e => (Str.encodeUtf16 e.1, e.2.view toDouble) := by
  induction map with
  | nil => rfl
  | cons e map ih =>
      obtain ⟨key, node⟩ := e
      rw [Node.view.entries, ih]
      rfl

theorem toJs_entries (entries : List (Str × Json)) :
    toJs.entries toDouble entries =
      entries.map fun e => (Str.encodeUtf16 e.1, toJs toDouble e.2) := by
  induction entries with
  | nil => rfl
  | cons e entries ih =>
      obtain ⟨key, v⟩ := e
      rw [toJs.entries, ih]
      rfl

/-- Keys differ in code units where they differ in characters. -/
theorem get_encoded {α β : Type*} (f : α → β) (key : Str) (t : List (Str × α)) :
    Assoc.get (Str.encodeUtf16 key) (t.map fun e => (Str.encodeUtf16 e.1, f e.2)) =
      (Assoc.get key t).map f := by
  induction t with
  | nil => rfl
  | cons e t ih =>
      rw [List.map_cons, Assoc.get_cons, Assoc.get_cons, ih]
      dsimp only
      by_cases hkey : e.1 = key
      · rw [if_pos hkey, if_pos (congrArg _ hkey)]
        rfl
      · rw [if_neg hkey, if_neg (mt Str.encodeUtf16_inj.mp hkey)]

theorem get_view_entries (key : Str) (map : List (Str × Node)) :
    Assoc.get (Str.encodeUtf16 key) (Node.view.entries toDouble map) =
      (Assoc.get key map).map fun node => node.view toDouble := by
  rw [view_entries]
  exact get_encoded ..

theorem keys_encoded {α β : Type*} (f : α → β) (t : List (Str × α)) :
    Assoc.keys (t.map fun e => (Str.encodeUtf16 e.1, f e.2)) =
      (Assoc.keys t).map Str.encodeUtf16 := by
  simp [Assoc.keys, List.map_map, Function.comp_def]

theorem wf_toJs_entries {entries : List (Str × Json)} (h : Assoc.Wf entries) :
    Assoc.Wf (toJs.entries toDouble entries) := by
  unfold Assoc.Wf
  rw [toJs_entries, keys_encoded]
  exact List.Nodup.map Str.encodeUtf16_injective h

theorem hasKey_of_mem_keys {entries : List (Str × Json)} {key : Str}
    (h : key ∈ Assoc.keys entries) (inherits : Bool) :
    (Value.obj inherits (toJs.entries toDouble entries)).hasKey (Str.encodeUtf16 key) = true := by
  obtain ⟨next, hget⟩ := Option.isSome_iff_exists.mp (Assoc.get_isSome_iff.mpr h)
  have hown : Assoc.get (Str.encodeUtf16 key) (toJs.entries toDouble entries) =
      some (toJs toDouble next) := by
    rw [toJs_entries, get_encoded, hget]
    rfl
  exact Value.hasKey_of_own (v := .obj inherits _) hown

/-! ## The client leaves what the server has written -/

theorem Common.item {values : List Json} (h : Common slot (.array values)) (hv : v ∈ values)
    (index : Nat) : Common (.item index) v :=
  fun slot' w hwithin => h slot' w (.item index hv hwithin)

theorem Common.entry {entries : List (Str × Json)} {key : Str}
    (h : Common slot (.object entries)) (hv : (key, v) ∈ entries) : Common (.entry key) v :=
  fun slot' w hwithin => h slot' w (.entry hv hwithin)

theorem settled_atom {key : Option JsString} {value : Value}
    (hvalue : Structured.reconcileValue {} (some (.plain value)) key value =
      ⟨.plain value, false, []⟩) (hrefl : Value.strictEq value value = true) :
    Settled {} key value (.plain value) := ⟨hvalue, hrefl⟩

theorem settled_items {values : List Json} {items : List Node}
    (hvalues : ∀ v ∈ values, ∀ node, Holds none v node →
      Settled {} none (toJs toDouble v) (node.view toDouble))
    (h : HoldsItems values items) :
    List.Forall₂ (fun node next => Settled {} none next node) (Node.view.items toDouble items)
      (toJs.items toDouble values) := by
  induction values generalizing items with
  | nil =>
      rw [HoldsItems] at h
      rw [h]
      exact .nil
  | cons v values ih =>
      obtain ⟨node, rest, rfl, hhead, htail⟩ := h
      exact .cons (hvalues v List.mem_cons_self node hhead)
        (ih (fun v hv => hvalues v (List.mem_cons_of_mem _ hv)) htail)

theorem settled_of_holds (hwf : v.Wf) (slot : Slot) (node : Node) (hcommon : Common slot v)
    (h : Holds slot.key v node) :
    Settled {} slot.jsKey (toJs toDouble v) (node.view toDouble) := by
  induction hwf generalizing slot node with
  | null =>
      rw [Holds.eq_def] at h
      rw [h]
      exact settled_atom rfl rfl
  | bool b =>
      rw [Holds.eq_def] at h
      rw [h]
      exact settled_atom rfl (beq_self_eq_true b)
  | number n =>
      rw [Holds.eq_def] at h
      rw [h]
      cases n with
      | int n => exact absurd rfl ((hcommon slot _ (.here ..)).2 n)
      | float q => exact settled_atom rfl (beq_self_eq_true q)
  | string s =>
      rw [Holds] at h
      rw [h]
      have hmeasured := (measured_iff slot.key s).mp ((hcommon slot _ (.here ..)).1 s rfl)
      show Settled {} (slot.key.map Str.encodeUtf16) (.str (Str.encodeUtf16 s)) _
      rw [Settled, Structured.reconcileValue, ← hmeasured]
      by_cases htext : shouldUseText slot.key s = true
      · rw [if_pos htext, if_pos htext]
        simp [Node.view, Structured.applyStringToYText_self, sameSlot]
      · rw [if_neg htext, if_neg htext]
        simp [Node.view, Any.view, sameSlot, Value.strictEq]
  | @array values _ ih =>
      obtain ⟨items, rfl, hitems⟩ := h
      have hsettled : List.Forall₂ (fun node next => Settled {} none next node)
          (Node.view.items toDouble items) (toJs.items toDouble values) :=
        settled_items (fun v hv node hnode => ih v hv (.item 0) node (hcommon.item hv 0) hnode)
          hitems
      rw [toJs, Node.view, Settled, Structured.reconcileValue]
      simp [reconcileItems_of_settled {} hsettled 0, sameSlot]
  | @object entries hentries _ ih =>
      obtain ⟨map, rfl, hkeys, hmap⟩ := h
      have hall := holdsEntries_iff.mp hmap
      have hhas : ∀ e ∈ Node.view.entries toDouble map,
          (Value.obj true (toJs.entries toDouble entries)).hasKey e.1 = true := by
        rw [view_entries]
        intro e he
        obtain ⟨e', he', rfl⟩ := List.mem_map.mp he
        exact hasKey_of_mem_keys (hkeys _ (List.mem_map_of_mem he')) true
      have hdrop : Structured.dropKeys (.obj true (toJs.entries toDouble entries))
          (Node.view.entries toDouble map) = Node.view.entries toDouble map :=
        List.filter_eq_self.mpr hhas
      have hops : Structured.dropOps (.obj true (toJs.entries toDouble entries))
          (Node.view.entries toDouble map) = [] := by
        rw [Structured.dropOps, List.filter_eq_nil_iff.mpr, List.map_nil]
        intro e he
        simp [hhas e he]
      have hsettled : Structured.reconcileEntries {} (Node.view.entries toDouble map)
          (toJs.entries toDouble entries) = (Node.view.entries toDouble map, []) := by
        apply reconcileEntries_of_settled
        rw [toJs_entries]
        intro e he
        obtain ⟨e', he', rfl⟩ := List.mem_map.mp he
        obtain ⟨node, hget, hnode⟩ := hall e' he'
        refine ⟨node.view toDouble, ?_, ?_⟩
        · rw [get_view_entries, hget]
          rfl
        · exact ih e' he' (.entry e'.1) node (hcommon.entry he') hnode
      rw [toJs, Node.view, Settled, Structured.reconcileValue]
      simp [hdrop, hops, hsettled, sameSlot]

/-- A value that stays in its slot costs what is done inside it. -/
theorem clientOps_kept {current : Option Structured.Node}
    (hattached : (clientValue toDouble slot current v).attached = false)
    (hsame : sameSlot current (clientValue toDouble slot current v).node = true) :
    clientOps toDouble slot current v = (clientValue toDouble slot current v).ops := by
  cases slot with
  | entry key =>
      rw [clientOps, entryOps, hattached, hsame]
      rfl
  | item index =>
      rw [clientOps, itemOps, hattached, hsame]
      rfl

theorem clientOps_of_settled {node : Structured.Node}
    (h : Settled {} slot.jsKey (toJs toDouble v) node) :
    clientOps toDouble slot (some node) v = [] := by
  have hvalue : clientValue toDouble slot (some node) v = ⟨node, false, []⟩ := h.1
  rw [clientOps_kept] <;> rw [hvalue]
  exact h.2

/-! ## The client rewrites integers -/

/-- An item is left alone or rewritten wherever it is. -/
theorem clientOps_item_eq_nil {current : Option Structured.Node} {index : Nat}
    (h : clientOps toDouble (.item index) current v = []) (index' : Nat) :
    clientOps toDouble (.item index') current v = [] := by
  have hnil : ∀ i, replaceOps i current ≠ [] := by
    intro i
    unfold replaceOps
    split <;> nofun
  have hvalue : clientValue toDouble (.item index') current v =
      clientValue toDouble (.item index) current v := rfl
  rw [clientOps, itemOps] at h ⊢
  rw [hvalue]
  split
  · rename_i hattached
    rw [if_pos hattached, List.append_eq_nil_iff] at h
    exact absurd h.1 (hnil index)
  · rename_i hattached
    rw [if_neg hattached] at h
    split
    · rename_i hsame
      rwa [if_pos hsame] at h
    · rename_i hsame
      rw [if_neg hsame, List.append_eq_nil_iff] at h
      exact absurd h.2 (hnil index)

theorem clientOps_items {values : List Json} {items : List Node} (h : HoldsItems values items)
    {index : Nat}
    (hops : (Structured.reconcileItems {} index (Node.view.items toDouble items)
      (toJs.items toDouble values)).2 = []) :
    ∀ v ∈ values, ∃ node, Holds none v node ∧
      ∀ index', clientOps toDouble (.item index') (some (node.view toDouble)) v = [] := by
  induction values generalizing items index with
  | nil => nofun
  | cons v values ih =>
      obtain ⟨node, rest, rfl, hhead, htail⟩ := h
      obtain ⟨hnode, hrest⟩ := List.append_eq_nil_iff.mp hops
      intro w hw
      rcases List.mem_cons.mp hw with rfl | hw
      · exact ⟨node, hhead, clientOps_item_eq_nil hnode⟩
      · exact ih htail hrest w hw

theorem clientOps_entries {entries : List (Str × Json)} (hwf : Assoc.Wf entries)
    {map : List (JsString × Structured.Node)}
    (hops : (Structured.reconcileEntries {} map (toJs.entries toDouble entries)).2 = []) :
    ∀ e ∈ entries,
      clientOps toDouble (.entry e.1) (Assoc.get (Str.encodeUtf16 e.1) map) e.2 = [] := by
  induction entries generalizing map with
  | nil => nofun
  | cons e entries ih =>
      obtain ⟨key, next⟩ := e
      obtain ⟨hfresh, hwf⟩ := Assoc.wf_cons.mp hwf
      obtain ⟨hnode, hrest⟩ := List.append_eq_nil_iff.mp hops
      intro e he
      rcases List.mem_cons.mp he with rfl | he
      · exact hnode
      · have hmem : e.1 ∈ Assoc.keys entries := List.mem_map_of_mem he
        have hne : Str.encodeUtf16 key ≠ Str.encodeUtf16 e.1 := by
          intro hkey
          rw [Str.encodeUtf16_inj] at hkey
          exact hfresh (hkey ▸ hmem)
        have hlater := ih hwf hrest e he
        rwa [Assoc.get_set_ne hne] at hlater

/-- Where the client leaves what the server has written, there was no integer to write. -/
theorem no_integer (hwf : v.Wf) (slot : Slot) (node : Node) (h : Holds slot.key v node)
    (hops : clientOps toDouble slot (some (node.view toDouble)) v = [])
    (hin : Within slot v slot' w)
    (n : ℤ) : w ≠ .number (.int n) := by
  induction hwf generalizing slot node with
  | null =>
      cases hin
      exact nofun
  | bool b =>
      cases hin
      exact nofun
  | string s =>
      cases hin
      exact nofun
  | number n' =>
      cases hin
      rintro ⟨rfl⟩
      -- `strictEq` of a `bigint` and a number
      rw [Holds.eq_def] at h
      rw [h] at hops
      cases slot' with
      | entry key => cases hops
      | item index => cases hops
  | @array values _ ih =>
      cases hin with
      | here => exact nofun
      | item index hv hwithin =>
          obtain ⟨items, rfl, hitems⟩ := h
          rw [clientOps_kept rfl rfl] at hops
          obtain ⟨node, hnode, hops⟩ := clientOps_items hitems hops _ hv
          exact ih _ hv (.item index) node hnode (hops index) hwithin
  | @object entries hentries _ ih =>
      cases hin with
      | here => exact nofun
      | entry hv hwithin =>
          obtain ⟨map, rfl, -, hmap⟩ := h
          obtain ⟨node, hget, hnode⟩ := holdsEntries_iff.mp hmap _ hv
          rw [clientOps_kept rfl rfl] at hops
          obtain ⟨-, hops⟩ := List.append_eq_nil_iff.mp hops
          have hops := clientOps_entries hentries hops _ hv
          rw [get_dropKeys, if_pos (hasKey_of_mem_keys (List.mem_map_of_mem hv) true)] at hops
          rw [Node.view, mapOf_map, Option.getD_some, get_view_entries, hget] at hops
          exact ih _ hv (.entry _) node hnode hops hwithin

/-! ## The server leaves what the client has written -/

theorem holdsItems_of_reads {values : List Json}
    (hvalues : ∀ v ∈ values, ∀ current node,
      node.view toDouble = (Structured.reconcileValue {} current none (toJs toDouble v)).node →
      Reads v node → Holds none v node)
    {index : Nat} {old : List Structured.Node} {items : List Node}
    (hview : Node.view.items toDouble items =
      (Structured.reconcileItems {} index old (toJs.items toDouble values)).1)
    (hreads : ReadsItems values items) : HoldsItems values items := by
  induction values generalizing index old items with
  | nil => exact hreads
  | cons v values ih =>
      obtain ⟨node, rest, rfl, hhead, htail⟩ := hreads
      obtain ⟨hnode, hrest⟩ := List.cons.inj hview
      exact ⟨node, rest, rfl, hvalues v List.mem_cons_self _ node hnode hhead,
        ih (fun v hv => hvalues v (List.mem_cons_of_mem _ hv)) hrest htail⟩

theorem readsEntries_iff {entries : List (Str × Json)} {map : List (Str × Node)} :
    ReadsEntries entries map ↔ ∀ e ∈ entries, ∃ node, Assoc.get e.1 map = some node ∧
      Reads e.2 node := by
  induction entries with
  | nil => simp [ReadsEntries]
  | cons e entries ih => simp [ReadsEntries, ih]

theorem view_eq_plain {node : Node} {value : Value} (h : node.view toDouble = .plain value) :
    ∃ a : Any, node = .any a ∧ a.view toDouble = value := by
  cases node with
  | any a => exact ⟨a, rfl, Structured.Node.plain.inj h⟩
  | map _ | array _ | text _ => cases h

theorem view_eq_text {node : Node} {content : JsString} (h : node.view toDouble = .text content) :
    ∃ s, node = .text s := by
  cases node with
  | text s => exact ⟨s, rfl⟩
  | map _ | array _ | any _ => cases h

theorem view_eq_array {node : Node} {items : List Structured.Node}
    (h : node.view toDouble = .array items) :
    ∃ items', node = .array items' ∧ Node.view.items toDouble items' = items := by
  cases node with
  | array items' => exact ⟨items', rfl, Structured.Node.array.inj h⟩
  | map _ | text _ | any _ => cases h

theorem view_eq_map {node : Node} {entries : List (JsString × Structured.Node)}
    (h : node.view toDouble = .map entries) :
    ∃ map, node = .map map ∧ Node.view.entries toDouble map = entries := by
  cases node with
  | map map => exact ⟨map, rfl, Structured.Node.map.inj h⟩
  | array _ | text _ | any _ => cases h

theorem jsonToAny_anyToJson {a : Any} (h : a ≠ .undefined) : jsonToAny (anyToJson a) = a := by
  cases a with
  | undefined => exact absurd rfl h
  | null | bool _ | number _ | bigInt _ | string _ | array _ | map _ => rfl

/-- A plain value that reads as `v` is the one the server would put there. -/
theorem eq_any_of_reads {node : Node}
    (hview : node.view toDouble = .plain (toJs toDouble v)) (hreads : Reads v node) :
    node = .any (jsonToAny v) := by
  obtain ⟨a, rfl, hvalue⟩ := view_eq_plain hview
  have hjson : anyToJson a = v := by
    cases v <;> exact hreads
  have hdefined : a ≠ .undefined := by
    rintro rfl
    rw [← hjson] at hvalue
    cases hvalue
  rw [← hjson, jsonToAny_anyToJson hdefined]

/-- What the client stores and the server reads as the value is stored as the server would. -/
theorem holds_of_reads (hwf : v.Wf) (slot : Slot) (hcommon : Common slot v)
    (current : Option Structured.Node) (node : Node)
    (hview : node.view toDouble = (clientValue toDouble slot current v).node)
    (hreads : Reads v node) : Holds slot.key v node := by
  induction hwf generalizing slot current node with
  | null =>
      rw [Holds.eq_def]
      exact eq_any_of_reads hview hreads
  | bool b =>
      rw [Holds.eq_def]
      exact eq_any_of_reads hview hreads
  | number n =>
      rw [Holds.eq_def]
      cases n with
      | int n => exact absurd rfl ((hcommon slot _ (.here ..)).2 n)
      | float q => exact eq_any_of_reads hview hreads
  | string s =>
      have hmeasured := (measured_iff slot.key s).mp ((hcommon slot _ (.here ..)).1 s rfl)
      rw [clientValue, toJs, Structured.reconcileValue, Slot.jsKey, ← hmeasured] at hview
      rw [Holds]
      by_cases htext : shouldUseText slot.key s = true
      · rw [if_pos htext] at hview ⊢
        obtain ⟨content, rfl⟩ := view_eq_text hview
        rw [Reads] at hreads
        rw [hreads]
      · rw [if_neg htext] at hview ⊢
        exact eq_any_of_reads hview hreads
  | array _ ih =>
      obtain ⟨items, rfl, hitems⟩ := view_eq_array hview
      refine ⟨items, rfl, holdsItems_of_reads (fun v hv current node hnode hread => ?_) hitems
        hreads⟩
      exact ih v hv (.item 0) (hcommon.item hv 0) current node hnode hread
  | object hentries _ ih =>
      obtain ⟨map, rfl, hmap⟩ := view_eq_map hview
      rw [Reads] at hreads
      refine ⟨map, rfl, hreads.1, holdsEntries_iff.mpr fun e he => ?_⟩
      obtain ⟨node, hget, hread⟩ := readsEntries_iff.mp hreads.2 e he
      have hnode : Assoc.get (Str.encodeUtf16 e.1) (Node.view.entries toDouble map) = _ :=
        get_view_entries e.1 map
      rw [hmap, Structured.get_reconcileEntries {} (wf_toJs_entries hentries), toJs_entries,
        get_encoded, hget, Assoc.get_of_mem hentries he] at hnode
      exact ⟨node, hget, ih e he (.entry e.1) (hcommon.entry he) _ node
        (Option.some.inj hnode).symm hread⟩

/-! ## Where the two agree -/

/-- The kinds agree exactly where each string is measured alike. -/
theorem kinds_iff :
    (∀ slot' w, Within slot v slot' w → ∀ current current',
      kindOf ((reconcileValue slot' current w).1.view toDouble) =
        kindOf (clientValue toDouble slot' current' w).node) ↔
      ∀ slot' s, Within slot v slot' (.string s) → Measured slot'.key s := by
  simp only [kindOf_server, kindOf_client]
  constructor
  · intro h slot' s hin
    have hkind := h slot' _ hin none none
    dsimp only [serverKind] at hkind
    rw [measured_iff]
    change shouldUseText slot'.key s =
      Structured.shouldUseText slot'.jsKey (Str.encodeUtf16 s) {}
    split at hkind
    · rename_i hserver
      split at hkind
      · rename_i hclient
        rw [hserver, hclient]
      · cases hkind
    · rename_i hserver
      split at hkind
      · cases hkind
      · rename_i hclient
        rw [Bool.eq_false_of_not_eq_true hserver, Bool.eq_false_of_not_eq_true hclient]
  · intro h slot' w hin current current'
    cases w with
    | string s =>
        have hmeasured := (measured_iff _ _).mp (h slot' s hin)
        dsimp only [serverKind, Slot.jsKey]
        rw [hmeasured]
        rfl
    | null | bool _ | number _ | array _ | object _ => rfl

/-- Server and client store a value alike, and leave what the other has written, exactly where
no string is long for one of them only and no number is an integer. -/
theorem agree_iff_common (toDouble : ℤ → ℚ) (slot : Slot) (v : JsonValue) :
    Agree toDouble slot v.1 ↔ Common slot v.1 := by
  obtain ⟨v, hwf⟩ := v
  constructor
  · rintro ⟨hkinds, hserver, -⟩
    have hmeasured := kinds_iff.mp hkinds
    have hholds := holds_reconcileValue hwf slot none nofun
    intro slot' w hin
    refine ⟨fun s hs => ?_, no_integer hwf slot _ hholds (hserver none nofun) hin⟩
    subst hs
    exact hmeasured slot' s hin
  · intro hcommon
    refine ⟨kinds_iff.mpr fun slot' s hin => (hcommon slot' _ hin).1 s rfl, ?_, ?_⟩
    · intro current hdefined
      exact clientOps_of_settled (settled_of_holds hwf slot _ hcommon
        (holds_reconcileValue hwf slot current hdefined))
    · intro current node hview hreads
      have hholds := holds_of_reads hwf slot hcommon current node hview hreads
      rw [reconcileValue_of_holds hwf slot node hholds]

/-- An array with a string of 257 letters: the server makes a shared text of it, the client
replaces that by a plain string. -/
theorem not_agree_long_item :
    ¬∀ (toDouble : ℤ → ℚ) (slot : Slot) (v : JsonValue), Agree toDouble slot v.1 := by
  intro h
  have hkind := (h (fun n => n) (.item 0) ⟨.string (List.replicate 257 'a'), .string _⟩).kinds _ _
    (.here ..) none none
  rw [kindOf_server, kindOf_client] at hkind
  have hlong : shouldUseText none (List.replicate 257 'a') = true := by
    rw [shouldUseText_server]
    right
    rw [Str.byteLength, List.map_replicate, List.sum_replicate]
    decide
  dsimp only [serverKind, Slot.key, Slot.jsKey] at hkind
  rw [if_pos hlong] at hkind
  cases hkind

end Realtime.Structured.Server
