import Realtime.Lib.Affixes
import Realtime.Structured.Tree

/-!
# Reconciling a shared tree with a JSON value

`reconcileInto` of `src/structured/reconcile.ts` and the functions below it. A
value is written into the existing tree in place: shared types of the right kind
are kept and descended into, others are replaced by fresh ones, and texts are
rewritten between their common start and end.

The functions return the new contents together with the Yjs operations made, in
order. References are compared by what they refer to: a slot holds the shared
type it held before unless `attach` put a fresh one there.
-/

namespace Realtime.Structured

open Lib Lib.Js Lib.Utf16

structure ReconcileOptions where
  textKeys : Option (List JsString) := none

def defaultTextKeys : List JsString :=
  [ascii "text", ascii "label", ascii "filter", ascii "formula", ascii "query", ascii "name",
    ascii "description"]

/-- `!!key && (keys.has(key) || value.length > 256)` for a string value. -/
def shouldUseText (key : Option JsString) (value : JsString) (options : ReconcileOptions) : Bool :=
  let keys := options.textKeys.getD defaultTextKeys
  match key with
  | none => false
  | some key => !key.isEmpty && (key ∈ keys || 256 < value.length)

/-- How far two strings agree from their start. -/
def commonLength : JsString → JsString → Nat
  | c :: old, d :: next => if c = d then commonLength old next + 1 else 0
  | _, _ => 0

/-- The suffix loop, which stops at the common start. -/
def commonEnd (old next : JsString) (start : Nat) : Nat :=
  commonLength (old.drop start).reverse (next.drop start).reverse

def applyStringToYText (old next : JsString) : JsString × List YOp :=
  if old = next then (old, [])
  else
    let start := commonLength old next
    let oldSuffix := old.length - commonEnd old next start
    let nextSuffix := next.length - commonEnd old next start
    let deleteLen := oldSuffix - start
    let deleted := if 0 < deleteLen then YText.delete old start deleteLen else old
    let insert := (next.take nextSuffix).drop start
    let deleteOps := if 0 < deleteLen then [YOp.textDelete start deleteLen] else []
    if insert.isEmpty then (deleted, deleteOps)
    else (YText.insert deleted start insert, deleteOps ++ [.textInsert start insert])

/-- What `reconcileValue` returns: the contents of the slot's new value, whether
it was attached as a fresh type, and the operations made inside it. -/
structure Reconciled where
  node : Node
  attached : Bool
  ops : List YOp

/-- `slot.get() === reconciled`, for a value that was not attached. -/
def sameSlot (current : Option Node) : Node → Bool
  | .plain next =>
      match current with
      | some (.plain value) => Value.strictEq value next
      | _ => false
  | _ => true

/-- The operations that put a value into a map entry. -/
def entryOps (key : JsString) (current : Option Node) (r : Reconciled) : List YOp :=
  if r.attached then .mapSet key :: r.ops
  else if sameSlot current r.node then r.ops
  else r.ops ++ [.mapSet key]

/-- Replace the item at `index`, if there is one. -/
def replaceOps (index : Nat) (current : Option Node) : List YOp :=
  if current.isSome then [.arrayDelete index 1, .arrayInsert index] else [.arrayInsert index]

def itemOps (index : Nat) (current : Option Node) (r : Reconciled) : List YOp :=
  if r.attached then replaceOps index current ++ r.ops
  else if sameSlot current r.node then r.ops
  else r.ops ++ replaceOps index current

def mapOf : Option Node → Option (List (JsString × Node))
  | some (.map entries) => some entries
  | _ => none

def arrayOf : Option Node → Option (List Node)
  | some (.array items) => some items
  | _ => none

def textOf : Option Node → Option JsString
  | some (.text content) => some content
  | _ => none

@[simp] theorem mapOf_map (entries : List (JsString × Node)) :
    mapOf (some (.map entries)) = some entries := rfl

@[simp] theorem arrayOf_array (items : List Node) : arrayOf (some (.array items)) = some items :=
  rfl

@[simp] theorem textOf_text (content : JsString) : textOf (some (.text content)) = some content :=
  rfl

/-- The first loop of `reconcileMap`: delete the keys that are not in `value`. -/
def dropKeys (value : Value) (entries : List (JsString × Node)) : List (JsString × Node) :=
  entries.filter fun e => value.hasKey e.1

def dropOps (value : Value) (entries : List (JsString × Node)) : List YOp :=
  (entries.filter fun e => !value.hasKey e.1).map fun e => .mapDelete e.1

mutual

/-- `reconcileValue`: containers and texts in place where there is one, else new. -/
def reconcileValue (options : ReconcileOptions) (current : Option Node) (key : Option JsString) :
    Value → Reconciled
  | .arr items =>
      let result := reconcileItems options 0 ((arrayOf current).getD []) items
      ⟨.array result.1, (arrayOf current).isNone, result.2⟩
  | .obj inherits entries =>
      let old := (mapOf current).getD []
      let value := Value.obj inherits entries
      let result := reconcileEntries options (dropKeys value old) entries
      ⟨.map result.1, (mapOf current).isNone, dropOps value old ++ result.2⟩
  | .str next =>
      if shouldUseText key next options then
        let result := applyStringToYText ((textOf current).getD []) next
        ⟨.text result.1, (textOf current).isNone, result.2⟩
      else ⟨.plain (.str next), false, []⟩
  | next => ⟨.plain next, false, []⟩

/-- The second loop of `reconcileMap`, over the entries of the value. -/
def reconcileEntries (options : ReconcileOptions) :
    List (JsString × Node) → List (JsString × Value) → List (JsString × Node) × List YOp
  | map, [] => (map, [])
  | map, (key, next) :: rest =>
      let current := Assoc.get key map
      let r := reconcileValue options current (some key) next
      let result := reconcileEntries options (Assoc.set key r.node map) rest
      (result.1, entryOps key current r ++ result.2)

/-- `reconcileArray` from `index` on, with the items the array still has there. -/
def reconcileItems (options : ReconcileOptions) :
    Nat → List Node → List Value → List Node × List YOp
  | index, array, [] =>
      ([], if array.isEmpty then [] else [.arrayDelete index array.length])
  | index, array, next :: rest =>
      let current := array.head?
      let r := reconcileValue options current none next
      let result := reconcileItems options (index + 1) array.tail rest
      (r.node :: result.1, itemOps index current r ++ result.2)

end

def reconcileMap (options : ReconcileOptions) (old : List (JsString × Node)) (inherits : Bool)
    (entries : List (JsString × Value)) : List (JsString × Node) × List YOp :=
  let value := Value.obj inherits entries
  let result := reconcileEntries options (dropKeys value old) entries
  (result.1, dropOps value old ++ result.2)

def reconcileArray (options : ReconcileOptions) (old : List Node) (items : List Value) :
    List Node × List YOp :=
  reconcileItems options 0 old items

/-- A value of the wrong kind counts as an empty one; a parent that is neither a
map nor an array is left alone. -/
def reconcileInto (options : ReconcileOptions) (parent : Node) (value : Value) :
    Node × List YOp :=
  match parent with
  | .map old =>
      let result := match value with
        | .obj inherits entries => reconcileMap options old inherits entries
        | _ => reconcileMap options old true []
      (.map result.1, result.2)
  | .array old =>
      let result := match value with
        | .arr items => reconcileArray options old items
        | _ => reconcileArray options old []
      (.array result.1, result.2)
  | parent => (parent, [])

/-! ## Rewriting a text -/

theorem commonLength_eq (old next : JsString) : commonLength old next = commonPrefix old next := by
  induction old generalizing next with
  | nil => rfl
  | cons c old ih =>
      cases next with
      | nil => rfl
      | cons d next => rw [commonLength, commonPrefix, ih]

theorem commonEnd_eq (old next : JsString) (start : Nat) :
    commonEnd old next start = commonSuffix start old next := commonLength_eq _ _

/-- The parts of a rewrite: what is kept before and behind it, and what it
replaces by what. -/
structure Affixes where
  head : JsString
  old : JsString
  next : JsString
  tail : JsString

def affixes (old next : JsString) : Affixes :=
  let start := commonLength old next
  let oldSuffix := old.length - commonEnd old next start
  let nextSuffix := next.length - commonEnd old next start
  ⟨old.take start, (old.take oldSuffix).drop start, (next.take nextSuffix).drop start,
    old.drop oldSuffix⟩

theorem exists_affixes_eq (old next : JsString) :
    ∃ head middle middle' tail, old = head ++ (middle ++ tail) ∧
      next = head ++ (middle' ++ tail) ∧ affixes old next = ⟨head, middle, middle', tail⟩ := by
  obtain ⟨head, middle, middle', tail, hold, hnext, hstart, hend⟩ := exists_affixes old next
  refine ⟨head, middle, middle', tail, hold, hnext, ?_⟩
  unfold affixes
  dsimp only
  rw [commonEnd_eq, commonLength_eq, ← hend, ← hstart, hold, hnext, take_length_sub,
    take_length_sub, drop_length_sub, List.take_left, List.drop_left, List.drop_left]

theorem affixes_old (old next : JsString) :
    (affixes old next).head ++ (affixes old next).old ++ (affixes old next).tail = old := by
  obtain ⟨_, _, _, _, hold, -, heq⟩ := exists_affixes_eq old next
  rw [heq, List.append_assoc]
  exact hold.symm

theorem affixes_next (old next : JsString) :
    (affixes old next).head ++ ((affixes old next).next ++ (affixes old next).tail) = next := by
  obtain ⟨_, _, _, _, -, hnext, heq⟩ := exists_affixes_eq old next
  rw [heq]
  exact hnext.symm

/-- The rewrite of `old` into `next` has a boundary inside a surrogate pair. -/
def DividesPair (old next : JsString) : Prop :=
  let parts := affixes old next
  YText.DividesMiddle parts.head parts.old parts.next parts.tail

instance (old next : JsString) : Decidable (DividesPair old next) :=
  inferInstanceAs (Decidable (YText.DividesMiddle _ _ _ _))

theorem applyStringToYText_self (s : JsString) : applyStringToYText s s = (s, []) := if_pos rfl

theorem not_dividesPair_self (s : JsString) : ¬DividesPair s s := by
  have hend : commonEnd s s s.length = 0 := by simp [commonEnd, commonLength]
  simp [DividesPair, affixes, commonLength_eq, commonPrefix_self, hend, YText.DividesMiddle]

theorem applyStringToYText_eq_rewriteMiddle {old next : JsString} (h : old ≠ next) :
    (applyStringToYText old next).1 =
      YText.rewriteMiddle (affixes old next).head (affixes old next).old (affixes old next).next
        (affixes old next).tail := by
  have hold := affixes_old old next
  have hhead : (affixes old next).head.length = commonLength old next := by
    simp [affixes, commonLength_eq, commonPrefix_le_left]
  have hlen : (affixes old next).old.length =
      old.length - commonEnd old next (commonLength old next) - commonLength old next := by
    simp [affixes]
  unfold YText.rewriteMiddle YText.deleteMiddle
  rw [hold, hhead, hlen, applyStringToYText, if_neg h]
  dsimp only
  split <;> simp_all [affixes]

/-- A rewrite gives the new text unless it divides a surrogate pair. -/
theorem applyStringToYText_eq_iff (old next : JsString) :
    (applyStringToYText old next).1 = next ↔ ¬DividesPair old next := by
  by_cases h : old = next
  · subst h
    simp [applyStringToYText_self, not_dividesPair_self]
  · rw [applyStringToYText_eq_rewriteMiddle h]
    nth_rewrite 5 [← affixes_next old next]
    exact YText.rewriteMiddle_eq_iff _ _ _ _

/-! ## What stands in the way of a value -/

/-- A key of the map that the value does not have, but inherits. -/
def Leftover (value : Value) (old : List (JsString × Node)) : Prop :=
  ∃ key ∈ Assoc.keys old, value.hasKey key = true ∧ key ∉ value.ownKeys ∧ key ≠ dunderProto

mutual

/-- Nothing in the slot or in the value keeps the value from being written:
no text rewrite divides a surrogate pair, no map keeps an inherited key, and no
record has a key `__proto__`. -/
def Clean (options : ReconcileOptions) (current : Option Node) (key : Option JsString) :
    Value → Prop
  | .arr items => CleanItems options ((arrayOf current).getD []) items
  | .obj inherits entries =>
      ¬Leftover (.obj inherits entries) ((mapOf current).getD []) ∧
        dunderProto ∉ Assoc.keys entries ∧
        CleanEntries options ((mapOf current).getD []) entries
  | .str next =>
      shouldUseText key next options = true → ¬DividesPair ((textOf current).getD []) next
  | _ => True

def CleanEntries (options : ReconcileOptions) (old : List (JsString × Node)) :
    List (JsString × Value) → Prop
  | [] => True
  | (key, next) :: rest =>
      Clean options (Assoc.get key old) (some key) next ∧ CleanEntries options old rest

def CleanItems (options : ReconcileOptions) : List Node → List Value → Prop
  | _, [] => True
  | array, next :: rest =>
      Clean options array.head? none next ∧ CleanItems options array.tail rest

end

theorem cleanEntries_iff {options : ReconcileOptions} {old : List (JsString × Node)}
    {entries : List (JsString × Value)} :
    CleanEntries options old entries ↔
      ∀ e ∈ entries, Clean options (Assoc.get e.1 old) (some e.1) e.2 := by
  induction entries with
  | nil => simp [CleanEntries]
  | cons e entries ih => simp [CleanEntries, ih]

/-! ## The two loops -/

/-- What the entry loop leaves under each key. -/
theorem get_reconcileEntries (options : ReconcileOptions) {entries : List (JsString × Value)}
    (hwf : Assoc.Wf entries) (map : List (JsString × Node)) (key : JsString) :
    Assoc.get key (reconcileEntries options map entries).1 =
      match Assoc.get key entries with
      | some next => some (reconcileValue options (Assoc.get key map) (some key) next).node
      | none => Assoc.get key map := by
  induction entries generalizing map with
  | nil => rfl
  | cons e entries ih =>
      obtain ⟨k, next⟩ := e
      obtain ⟨hfresh, hwf⟩ := Assoc.wf_cons.mp hwf
      rw [reconcileEntries, ih hwf, Assoc.get_cons]
      by_cases hk : k = key
      · subst hk
        rw [Assoc.get_eq_none_iff.mpr hfresh, if_pos rfl]
        simp
      · rw [if_neg hk, Assoc.get_set_ne hk]

/-- The slot already holds what the value is written as. -/
def Settled (options : ReconcileOptions) (key : Option JsString) (next : Value) (node : Node) :
    Prop :=
  reconcileValue options (some node) key next = ⟨node, false, []⟩ ∧
    sameSlot (some node) node = true

theorem reconcileEntries_of_settled (options : ReconcileOptions)
    {entries : List (JsString × Value)} {map : List (JsString × Node)}
    (h : ∀ e ∈ entries, ∃ node, Assoc.get e.1 map = some node ∧
      Settled options (some e.1) e.2 node) :
    reconcileEntries options map entries = (map, []) := by
  induction entries with
  | nil => rfl
  | cons e entries ih =>
      obtain ⟨k, next⟩ := e
      obtain ⟨node, hget, hvalue, hslot⟩ := h _ List.mem_cons_self
      have hrest := ih fun e he => h e (List.mem_cons_of_mem _ he)
      dsimp only at hget hvalue
      rw [reconcileEntries]
      simp only [hget, hvalue, Assoc.set_eq_self hget, hrest, entryOps, hslot, Bool.false_eq_true,
        if_false, if_true, List.append_nil]

theorem reconcileItems_of_settled (options : ReconcileOptions) {items : List Value}
    {array : List Node} (h : List.Forall₂ (fun node next => Settled options none next node) array
      items) (index : Nat) :
    reconcileItems options index array items = (array, []) := by
  induction h generalizing index with
  | nil => rfl
  | cons hhead _ ih =>
      obtain ⟨hvalue, hslot⟩ := hhead
      rw [reconcileItems]
      simp only [List.head?_cons, List.tail_cons, hvalue, ih, itemOps, hslot, Bool.false_eq_true,
        if_false, if_true, List.append_nil]

/-! ## Writing a value -/

/-- A value is written exactly when it is clean, and then it stays. -/
def Writes (options : ReconcileOptions) (next : Value) : Prop :=
  ∀ current key,
    (SameJson (toValue (reconcileValue options current key next).node) next ↔
      Clean options current key next) ∧
    (Clean options current key next →
      Settled options key next (reconcileValue options current key next).node)

theorem get_dropKeys (value : Value) (old : List (JsString × Node)) (key : JsString) :
    Assoc.get key (dropKeys value old) = if value.hasKey key then Assoc.get key old else none :=
  Assoc.get_filter (fun k => value.hasKey k) key old

section Map

variable {options : ReconcileOptions} {inherits : Bool} {entries : List (JsString × Value)}
  (hwf : Assoc.Wf entries) (hentries : ∀ e ∈ entries, Writes options e.2)
  (old : List (JsString × Node))
include hwf

/-- The map after both loops. -/
theorem get_reconcileMap (key : JsString) :
    Assoc.get key (reconcileMap options old inherits entries).1 =
      match Assoc.get key entries with
      | some next => some (reconcileValue options (Assoc.get key old) (some key) next).node
      | none => if (Value.obj inherits entries).hasKey key then Assoc.get key old else none := by
  rw [reconcileMap]
  dsimp only
  rw [get_reconcileEntries options hwf, get_dropKeys]
  cases hget : Assoc.get key entries with
  | none => rfl
  | some next =>
      rw [if_pos (Value.hasKey_of_own (v := .obj inherits entries) hget)]

include hentries

theorem sameJson_reconcileMap_iff :
    SameJson (toValue (.map (reconcileMap options old inherits entries).1))
        (.obj inherits entries) ↔
      ¬Leftover (.obj inherits entries) old ∧ dunderProto ∉ Assoc.keys entries ∧
        CleanEntries options old entries := by
  rw [toValue, sameJson_obj_iff, cleanEntries_iff]
  simp only [get_toValue_entries, get_reconcileMap hwf]
  constructor
  · rintro ⟨hkeys, hvalues⟩
    refine ⟨?_, ?_, ?_⟩
    · rintro ⟨key, hmem, hhas, hnot, hproto⟩
      have := hkeys key
      rw [if_neg hproto, Assoc.get_eq_none_iff.mpr hnot] at this
      dsimp only at this
      rw [if_pos hhas, Option.isSome_map, Assoc.get_isSome_iff.mpr hmem] at this
      cases this
    · intro hmem
      have := hkeys dunderProto
      rw [if_pos rfl, Assoc.get_isSome_iff.mpr hmem] at this
      cases this
    · rintro ⟨key, next⟩ he
      have hget : Assoc.get key entries = some next := Assoc.get_of_mem hwf he
      have hne : key ≠ dunderProto := by
        intro hkey
        have := hkeys key
        rw [if_pos hkey, hget] at this
        cases this
      apply (hentries _ he _ _).1.mp
      apply hvalues key _ _ _ hget
      rw [if_neg hne, hget]
      rfl
  · rintro ⟨hleft, hproto, hclean⟩
    refine ⟨?_, ?_⟩
    · intro key
      cases hget : Assoc.get key entries with
      | some next =>
          have hne : key ≠ dunderProto := by
            rintro rfl
            exact hproto (Assoc.get_isSome_iff.mp (by simp [hget]))
          simp [hne]
      | none =>
          by_cases hne : key = dunderProto
          · simp [hne]
          · rw [if_neg hne]
            dsimp only
            split
            · rename_i hhas
              rw [Option.isSome_map]
              simp only [Option.isSome_none, Option.isSome_eq_false_iff,
                Option.isNone_iff_eq_none, Assoc.get_eq_none_iff]
              exact fun hmem => hleft ⟨key, hmem, hhas, Assoc.get_eq_none_iff.mp hget, hne⟩
            · rfl
    · intro key v next hv hget
      rw [hget] at hv
      split at hv
      · cases hv
      · obtain rfl := Option.some.inj hv
        have hmem := Assoc.mem_of_get hget
        exact (hentries _ hmem _ _).1.mpr (hclean _ hmem)

variable (inherits) in
theorem reconcileMap_of_clean (hclean : CleanEntries options old entries) :
    let map := (reconcileMap options old inherits entries).1
    reconcileMap options map inherits entries = (map, []) := by
  intro map
  rw [cleanEntries_iff] at hclean
  have hhas : ∀ e ∈ map, (Value.obj inherits entries).hasKey e.1 = true := by
    intro e he
    have hsome : (Assoc.get e.1 map).isSome :=
      Assoc.get_isSome_iff.mpr (List.mem_map_of_mem (f := Prod.fst) he)
    rw [get_reconcileMap hwf] at hsome
    cases hget : Assoc.get e.1 entries with
    | some next => exact Value.hasKey_of_own (v := .obj inherits entries) hget
    | none =>
        by_contra hnot
        simp [hget, hnot] at hsome
  have hkeep : dropKeys (.obj inherits entries) map = map := List.filter_eq_self.mpr hhas
  have hdrop : dropOps (.obj inherits entries) map = [] := by
    have : map.filter (fun e => !(Value.obj inherits entries).hasKey e.1) = [] := by
      apply List.filter_eq_nil_iff.mpr
      intro e he
      simp [hhas e he]
    rw [dropOps, this, List.map_nil]
  have hsettled : reconcileEntries options map entries = (map, []) := by
    apply reconcileEntries_of_settled
    rintro ⟨key, next⟩ he
    have hget : Assoc.get key entries = some next := Assoc.get_of_mem hwf he
    refine ⟨_, ?_, (hentries _ he _ _).2 (hclean _ he)⟩
    show Assoc.get key (reconcileMap options old inherits entries).1 = _
    rw [get_reconcileMap hwf, hget]
  rw [reconcileMap, hkeep, hsettled, hdrop]
  rfl

end Map

section Array

variable {options : ReconcileOptions} {items : List Value}
  (hitems : ∀ v ∈ items, Writes options v)
include hitems

theorem sameJson_reconcileItems_iff (index : Nat) (old : List Node) :
    List.Forall₂ SameJson (toValue.items (reconcileItems options index old items).1) items ↔
      CleanItems options old items := by
  induction items generalizing index old with
  | nil => simp [reconcileItems, toValue.items, CleanItems]
  | cons next items ih =>
      rw [reconcileItems]
      dsimp only
      rw [toValue.items, List.forall₂_cons, CleanItems,
        ih (fun v hv => hitems v (List.mem_cons_of_mem _ hv)),
        (hitems next List.mem_cons_self _ _).1]

theorem settled_reconcileItems (index : Nat) {old : List Node}
    (hclean : CleanItems options old items) :
    List.Forall₂ (fun node next => Settled options none next node)
      (reconcileItems options index old items).1 items := by
  induction items generalizing index old with
  | nil => exact .nil
  | cons next items ih =>
      obtain ⟨hhead, htail⟩ := hclean
      exact .cons ((hitems next List.mem_cons_self _ _).2 hhead)
        (ih (fun v hv => hitems v (List.mem_cons_of_mem _ hv)) (index + 1) htail)

end Array

theorem writes_atom (options : ReconcileOptions) {v : Value}
    (hnode : ∀ current key, reconcileValue options current key v = ⟨.plain v, false, []⟩)
    (hclean : ∀ current key, Clean options current key v) (hvalue : toValue (.plain v) = v)
    (hrefl : Value.strictEq v v = true) : Writes options v := by
  intro current key
  rw [hnode, hvalue]
  exact ⟨iff_of_true (.atom hrefl) (hclean _ _), fun _ => ⟨hnode _ _, hrefl⟩⟩

/-- Every JSON value is written, or stopped by what `Clean` names; a record may
also lack a prototype. -/
theorem writes (options : ReconcileOptions) {inherits : Bool → Prop} {keyOk : JsString → Prop}
    {next : Value} (h : Value.Built inherits keyOk next) : Writes options next := by
  induction h with
  | null => exact writes_atom options (fun _ _ => rfl) (fun _ _ => trivial) rfl rfl
  | bool b =>
      exact writes_atom options (fun _ _ => rfl) (fun _ _ => trivial) rfl
        (by simp [Value.strictEq])
  | num n =>
      exact writes_atom options (fun _ _ => rfl) (fun _ _ => trivial) rfl
        (by simp [Value.strictEq])
  | str s =>
      intro current key
      rw [reconcileValue]
      by_cases htext : shouldUseText key s options = true
      · rw [if_pos htext, Clean]
        dsimp only
        rw [toValue, sameJson_str_iff, applyStringToYText_eq_iff]
        simp only [htext, true_imp_iff, true_and]
        intro hclean
        rw [← applyStringToYText_eq_iff] at hclean
        rw [hclean, Settled, reconcileValue, if_pos htext]
        simp [applyStringToYText_self, sameSlot]
      · rw [if_neg htext, Clean]
        refine ⟨iff_of_true (sameJson_str_iff.mpr rfl) (fun h => absurd h htext), fun _ => ?_⟩
        rw [Settled, reconcileValue, if_neg htext]
        exact ⟨rfl, by simp [sameSlot, Value.strictEq]⟩
  | @arr items _ ih =>
      intro current key
      rw [reconcileValue, Clean]
      dsimp only
      rw [toValue, sameJson_arr_iff]
      refine ⟨sameJson_reconcileItems_iff ih 0 _, fun hclean => ?_⟩
      have hsettled := reconcileItems_of_settled options (settled_reconcileItems ih 0 hclean) 0
      rw [Settled, reconcileValue]
      simp [hsettled, sameSlot]
  | @obj i entries _ hwf _ _ ih =>
      intro current key
      have hnode : ∀ current, reconcileValue options current key (.obj i entries) =
          ⟨.map (reconcileMap options ((mapOf current).getD []) i entries).1,
            (mapOf current).isNone,
            (reconcileMap options ((mapOf current).getD []) i entries).2⟩ := fun _ => rfl
      rw [hnode, Clean]
      refine ⟨sameJson_reconcileMap_iff hwf ih _, fun hclean => ?_⟩
      have hagain := reconcileMap_of_clean i hwf ih _ hclean.2.2
      dsimp only at hagain
      rw [Settled, hnode]
      simp [hagain, sameSlot]

/-! ## Reconcile is exact -/

/-- A record for a map, an array for an array. -/
def MatchingKind : Node → Value → Prop
  | .map _, .obj _ _ => True
  | .array _, .arr _ => True
  | _, _ => False

/-- The tree reads back as the value, and writing the value again does nothing. -/
structure ReconcileExact (options : ReconcileOptions) (parent : Node) (value : Value) : Prop where
  reads_back : SameJson (toValue (reconcileInto options parent value).1) value
  settled : (reconcileInto options (reconcileInto options parent value).1 value).2 = []

/-- Reconciling a root is writing the value into a slot that holds it. -/
theorem reconcileInto_eq {options : ReconcileOptions} {parent : Node} {value : Value}
    (hkind : MatchingKind parent value) :
    reconcileInto options parent value =
      ((reconcileValue options (some parent) none value).node,
        (reconcileValue options (some parent) none value).ops) := by
  match parent, value, hkind with
  | .map _, .obj _ _, _ => rfl
  | .array _, .arr _, _ => rfl

theorem matchingKind_reconciled {options : ReconcileOptions} {parent : Node} {value : Value}
    (hkind : MatchingKind parent value) :
    MatchingKind (reconcileValue options (some parent) none value).node value := by
  match parent, value, hkind with
  | .map _, .obj _ _, _ => trivial
  | .array _, .arr _, _ => trivial

/-- Reconcile is exact unless it divides a surrogate pair, keeps an inherited key
of the map, or is given a key `__proto__`. -/
theorem reconcileExact_iff (options : ReconcileOptions) (parent : Node) (value : JsonValue)
    (hkind : MatchingKind parent value.1) :
    ReconcileExact options parent value.1 ↔ Clean options (some parent) none value.1 := by
  obtain ⟨hwrites, hsettles⟩ := writes options value.2 (some parent) none
  constructor
  · rintro ⟨hback, -⟩
    rw [reconcileInto_eq hkind] at hback
    exact hwrites.mp hback
  · intro hclean
    refine ⟨?_, ?_⟩
    · rw [reconcileInto_eq hkind]
      exact hwrites.mpr hclean
    · rw [reconcileInto_eq hkind, reconcileInto_eq (matchingKind_reconciled hkind)]
      dsimp only
      rw [(hsettles hclean).1]

/-- `{"name": "😀a"}`, rewritten to `{"name": "😀b"}`. -/
theorem reconcileExact_iff_behind_pair :
    ReconcileExact {} (.map [(ascii "name", .text [0xd83d, 0xde00, 97])])
      (.obj true [(ascii "name", .str [0xd83d, 0xde00, 98])]) := by
  have hjson : Value.IsJson (.obj true [(ascii "name", .str [0xd83d, 0xde00, 98])]) :=
    .obj rfl (List.nodup_singleton _) (by simp) (by simpa using .str _)
  apply (reconcileExact_iff {} (.map [(ascii "name", .text [0xd83d, 0xde00, 97])])
    ⟨_, hjson⟩ trivial).mpr
  refine ⟨?_, by decide, ?_, trivial⟩
  · rintro ⟨key, hmem, -, hnot, -⟩
    exact hnot hmem
  · exact fun _ => by decide

/-- `{"name": "😀"}`, rewritten to `{"name": "😁"}`: the two share their high
surrogate. -/
theorem not_reconcileExact_shared_high_surrogate :
    ¬∀ (options : ReconcileOptions) (parent : Node) (value : JsonValue),
      MatchingKind parent value.1 → ReconcileExact options parent value.1 := by
  intro h
  let value : Value := .obj true [(ascii "name", .str [0xd83d, 0xde01])]
  let parent : Node := .map [(ascii "name", .text [0xd83d, 0xde00])]
  have hjson : value.IsJson :=
    .obj rfl (List.nodup_singleton _) (by simp) (by simpa using .str _)
  have hexact := h {} parent ⟨value, hjson⟩ trivial
  have hresult : toValue (reconcileInto {} parent value).1 =
      .obj true [(ascii "name", .str [0xfffd, 0xde01])] := rfl
  have hback := hexact.reads_back
  rw [hresult, sameJson_obj_iff] at hback
  have hname := hback.2 (ascii "name") _ _ rfl rfl
  rw [sameJson_str_iff] at hname
  exact absurd hname (by decide)

end Realtime.Structured
