import Realtime.Structured.CanvasOperations

/-!
# The diff of one canvas item

What `diffFields` puts into a patch, when it throws, and when `patchItem` brings
the fields of an item from their old values to the new ones. What a field becomes
is decided by whether the diff sets, removes or skips it.
-/

namespace Realtime.Structured

open Lib Lib.Js Lib.Utf16

/-! ## Equality of JSON values -/

theorem strictEq_eq {v w : Value} (h : Value.strictEq v w = true) : v = w := by
  cases v <;> cases w <;> simp_all [Value.strictEq]

theorem forall₂_comp {α β γ : Type*} {R : α → β → Prop} {S : β → γ → Prop} {T : α → γ → Prop}
    {xs : List α} {ys : List β} {zs : List γ} (h : List.Forall₂ R xs ys)
    (h' : List.Forall₂ S ys zs) (hcomp : ∀ x ∈ xs, ∀ y z, R x y → S y z → T x z) :
    List.Forall₂ T xs zs := by
  induction h generalizing zs with
  | nil =>
      cases h'
      exact .nil
  | cons hxy _ ih =>
      cases h' with
      | cons hyz htail =>
          exact .cons (hcomp _ List.mem_cons_self _ _ hxy hyz)
            (ih htail fun x hx => hcomp x (List.mem_cons_of_mem _ hx))

theorem SameJson.trans {u v w : Value} (h : SameJson u v) (h' : SameJson v w) : SameJson u w := by
  induction u using Value.ind generalizing v w with
  | arr xs ih =>
      cases h with
      | atom h => cases h
      | arr h =>
          cases h' with
          | atom h' => cases h'
          | arr h' => exact .arr (forall₂_comp h h' fun x hx y z => ih x hx)
  | obj i es ih =>
      cases h with
      | atom h => cases h
      | obj hkeys hvals =>
          cases h' with
          | atom h' => cases h'
          | @obj _ _ fs gs hkeys' hvals' =>
              refine .obj (fun key => (hkeys key).trans (hkeys' key)) ?_
              intro key x z hx hz
              have hy := hkeys' key
              rw [hz, Option.isSome_some, Option.isSome_iff_exists] at hy
              obtain ⟨y, hy⟩ := hy
              exact ih _ (Assoc.mem_of_get hx) (hvals key x y hx hy) (hvals' key y z hy hz)
  | _ =>
      cases h with
      | atom h =>
          obtain rfl := strictEq_eq h
          exact h'

theorem perm_sortKeys (keys : List JsString) : (sortKeys keys).Perm keys :=
  List.perm_insertionSort _ _

theorem mem_sortKeys {keys : List JsString} {key : JsString} : key ∈ sortKeys keys ↔ key ∈ keys :=
  (perm_sortKeys keys).mem_iff

theorem forall₂_of_equalJson_items {xs ys : List Value} (hlen : xs.length = ys.length)
    (h : equalJson.items xs ys = true) : List.Forall₂ (fun x y => equalJson x y = true) xs ys := by
  induction xs generalizing ys with
  | nil =>
      obtain rfl : ys = [] := List.eq_nil_of_length_eq_zero hlen.symm
      exact .nil
  | cons x xs ih =>
      cases ys with
      | nil => cases hlen
      | cons y ys =>
          rw [equalJson.items, Bool.and_eq_true] at h
          exact .cons h.1 (ih (by simpa using hlen) h.2)

theorem equalJson_entries_iff {es : List (JsString × Value)} {right : Value} :
    equalJson.entries es right = true ↔ ∀ e ∈ es, equalJson e.2 (right.read e.1) = true := by
  induction es with
  | nil => simp [equalJson.entries]
  | cons e es ih => simp [equalJson.entries, ih]

/-- What `equalJson` calls equal is equal. -/
theorem sameJson_of_equalJson {v w : Value} (hv : v.IsJson) (hw : w.IsJson)
    (h : equalJson v w = true) : SameJson v w := by
  induction v using Value.ind generalizing w with
  | arr xs ih =>
      cases hw with
      | @arr ys hys =>
          rw [equalJson, Bool.and_eq_true, beq_iff_eq] at h
          have hxs : ∀ x ∈ xs, x.IsJson := by
            cases hv with
            | arr hxs => exact hxs
          have hsame : List.Forall₂ (fun x y : Value => x = y ∧ y ∈ ys) ys ys := by
            rw [List.forall₂_same]
            exact fun y hy => ⟨rfl, hy⟩
          refine .arr (forall₂_comp (forall₂_of_equalJson_items h.1 h.2) hsame ?_)
          rintro x hx y _ hxy ⟨rfl, hy⟩
          exact ih x hx (hxs x hx) (hys y hy) hxy
      | _ => simp [equalJson] at h
  | obj i es ih =>
      cases hw with
      | @obj j fs _ _ _ hfs =>
          obtain ⟨-, -, -, hes⟩ := hv.obj_inv
          simp only [equalJson, Bool.and_eq_true, beq_iff_eq] at h
          obtain ⟨⟨-, hkeys⟩, hentries⟩ := h
          refine .obj ?_ ?_
          · intro key
            rw [Bool.eq_iff_iff, Assoc.get_isSome_iff, Assoc.get_isSome_iff, ← mem_sortKeys, hkeys,
              mem_sortKeys]
            rfl
          · intro key x y hx hy
            have hmem := Assoc.mem_of_get hx
            have heq := equalJson_entries_iff.mp hentries _ hmem
            rw [Value.read_of_own (v := .obj j fs) hy] at heq
            exact ih _ hmem (hes _ hmem) (hfs _ (Assoc.mem_of_get hy)) heq
      | _ => simp [equalJson, isRecord, Value.isObject] at h
  | inherited name => cases hv
  | _ => exact .atom h

/-! ## The patch of one item -/

/-- The value the diff sets a field to, if it does. -/
def changedField (ps ns : List (JsString × Value)) (key : JsString) : Option Value :=
  match Assoc.get key ns with
  | none => none
  | some v =>
      match Assoc.get key ps with
      | some u => if equalJson u v then none else some v
      | none => some v

theorem get_of_changedField {ps ns : List (JsString × Value)} {key : JsString} {v : Value}
    (h : changedField ps ns key = some v) : Assoc.get key ns = some v := by
  unfold changedField at h
  split at h
  · cases h
  · rename_i w hw
    split at h
    · split at h
      · cases h
      · rw [hw, h]
    · rw [hw, h]

/-- A patch that leads from the fields `ps` to `ns`. The `id` is written by
`patchItem` itself, and a field `__proto__` is out of reach. -/
structure PatchFor (ps ns : List (JsString × Value)) (patch : CanvasFieldPatch) : Prop where
  wf : Assoc.Wf patch.set
  set_eq : ∀ key, key ≠ idKey → key ≠ dunderProto →
    Assoc.get key patch.set = changedField ps ns key
  remove_iff : ∀ key, key ≠ idKey →
    (key ∈ patch.remove ↔ key ∈ Assoc.keys ps ∧ key ∉ Assoc.keys ns)

theorem get_removeLoop {α : Type*} (keys : List JsString) (fields : List (JsString × α))
    {key : JsString} (hkey : key ≠ idKey) :
    Assoc.get key (keys.foldl (fun fields k =>
      if k = idKey then fields else Assoc.erase k fields) fields) =
      if key ∈ keys then none else Assoc.get key fields := by
  induction keys generalizing fields with
  | nil => simp
  | cons k keys ih =>
      rw [List.foldl_cons, ih]
      by_cases hk : k = idKey
      · have hne : key ≠ k := fun h => hkey (h.trans hk)
        simp [hk, hkey]
      · rw [if_neg hk, Assoc.get_erase]
        by_cases hkk : k = key
        · simp [hkk]
        · simp [hkk, Ne.symm hkk]

theorem get_writeLoop (value : Value) {keys : List JsString} (hnodup : keys.Nodup)
    (fields : List (JsString × Node)) {key : JsString} (hkey : key ≠ idKey) :
    Assoc.get key (keys.foldl (fun fields k =>
      if k = idKey then fields else writeField fields k (value.read k)) fields) =
      if key ∈ keys then
        some (reconcileValue {} (Assoc.get key fields) (some key) (value.read key)).node
      else Assoc.get key fields := by
  induction keys generalizing fields with
  | nil => simp
  | cons k keys ih =>
      obtain ⟨hfresh, hnodup⟩ := List.nodup_cons.mp hnodup
      rw [List.foldl_cons, ih hnodup]
      by_cases hk : k = idKey
      · have hne : key ≠ k := fun h => hkey (h.trans hk)
        simp [hk, hkey]
      · rw [if_neg hk, writeField, Assoc.get_set]
        by_cases hkk : k = key
        · subst hkk
          simp [hfresh]
        · simp [hkk, Ne.symm hkk]

/-- What a patch leaves in a field. -/
theorem get_patchFields {patch : CanvasFieldPatch} (hwf : Assoc.Wf patch.set) (id : JsString)
    (fields : List (JsString × Node)) {key : JsString} (hkey : key ≠ idKey) :
    Assoc.get key (patchFields id patch fields) =
      let current := if key ∈ patch.remove then none else Assoc.get key fields
      match Assoc.get key patch.set with
      | some next => some (reconcileValue {} current (some key) next).node
      | none => current := by
  have hnodup : (sortKeys (Assoc.keys patch.set)).Nodup := (perm_sortKeys _).nodup_iff.mpr hwf
  have hid : ∀ written : List (JsString × Node),
      Assoc.get key (if sameSlot (Assoc.get idKey written) (.plain (.str id)) then written
        else Assoc.set idKey (.plain (.str id)) written) = Assoc.get key written := by
    intro written
    split
    · rfl
    · exact Assoc.get_set_ne (Ne.symm hkey) _ _
  rw [patchFields]
  dsimp only
  rw [hid, get_writeLoop _ hnodup _ hkey, get_removeLoop _ _ hkey]
  simp only [mem_sortKeys]
  cases hget : Assoc.get key patch.set with
  | none => rw [if_neg (Assoc.get_eq_none_iff.mp hget)]
  | some next =>
      have hmem : key ∈ Assoc.keys patch.set := Assoc.get_isSome_iff.mp (by simp [hget])
      rw [if_pos hmem, Value.read_of_own (v := .obj true patch.set) hget]

theorem sameSlot_str_iff {current : Option Node} {s : JsString} :
    sameSlot current (.plain (.str s)) = true ↔ current = some (.plain (.str s)) := by
  constructor
  · intro h
    match current, h with
    | some (.plain v), h => rw [strictEq_eq h]
  · rintro rfl
    simp [sameSlot, Value.strictEq]

theorem get_id_patchFields (id : JsString) (patch : CanvasFieldPatch)
    (fields : List (JsString × Node)) :
    Assoc.get idKey (patchFields id patch fields) = some (.plain (.str id)) := by
  rw [patchFields]
  split
  · rename_i hsame
    exact sameSlot_str_iff.mp hsame
  · exact Assoc.get_set_self _ _ _

section Item

variable {id : JsString} {ps ns : List (JsString × Value)} {patch : CanvasFieldPatch}
  {fields : List (JsString × Node)}

/-- The fields read back as `ns` exactly when each changed one can be written. -/
theorem sameJson_patchFields_iff (hps : Value.IsJson (.obj true ps))
    (hns : Value.IsJson (.obj true ns)) (hid : Assoc.get idKey ns = some (.str id))
    (hfields : SameJson (toValue (.map fields)) (.obj true ps)) (hpatch : PatchFor ps ns patch) :
    SameJson (toValue (.map (patchFields id patch fields))) (.obj true ns) ↔
      dunderProto ∉ Assoc.keys ns ∧ ∀ key v, key ≠ idKey → changedField ps ns key = some v →
        Clean {} (Assoc.get key fields) (some key) v := by
  have hproto : idKey ≠ dunderProto := by decide
  rw [toValue, sameJson_obj_iff] at hfields ⊢
  simp only [get_toValue_entries] at hfields ⊢
  obtain ⟨hkeys, hvals⟩ := hfields
  -- the slot a written field starts from is the old one, for the diff removes no such field
  have hslot : ∀ key v, key ≠ idKey → key ≠ dunderProto → changedField ps ns key = some v →
      Assoc.get key (patchFields id patch fields) =
        some (reconcileValue {} (Assoc.get key fields) (some key) v).node := by
    intro key v hne hnp hchanged
    have hown : Assoc.get key ns ≠ none := by
      intro hnone
      simp [changedField, hnone] at hchanged
    have hkeep : key ∉ patch.remove := by
      rw [hpatch.remove_iff key hne, ← Assoc.get_eq_none_iff]
      exact fun h => hown h.2
    rw [get_patchFields hpatch.wf id fields hne, hpatch.set_eq key hne hnp, hchanged, if_neg hkeep]
  constructor
  · rintro ⟨hkeys', hvals'⟩
    have hnot : dunderProto ∉ Assoc.keys ns := by
      have := hkeys' dunderProto
      rw [if_pos rfl] at this
      rw [← Assoc.get_isSome_iff, ← this]
      simp
    refine ⟨hnot, ?_⟩
    intro key v hne hchanged
    have hget := get_of_changedField hchanged
    have hnp : key ≠ dunderProto := by
      rintro rfl
      exact hnot (Assoc.get_isSome_iff.mp (by simp [hget]))
    have hjson : v.IsJson := hns.obj_inv.2.2.2 _ (Assoc.mem_of_get hget)
    apply (writes {} hjson _ _).1.mp
    apply hvals' key _ v _ hget
    rw [if_neg hnp, hslot key v hne hnp hchanged]
    rfl
  · rintro ⟨hnot, hclean⟩
    -- field by field: either absent on both sides, or equal
    suffices hall : ∀ key,
        (Assoc.get key ns = none ∧ (if key = dunderProto then none else
          (Assoc.get key (patchFields id patch fields)).map toValue) = none) ∨
        ∃ v w, Assoc.get key ns = some v ∧ (if key = dunderProto then none else
          (Assoc.get key (patchFields id patch fields)).map toValue) = some w ∧ SameJson w v by
      refine ⟨?_, ?_⟩
      · intro key
        rcases hall key with ⟨hn, hl⟩ | ⟨v, w, hn, hl, -⟩
        · rw [hn, hl]
        · rw [hn, hl]
          rfl
      · intro key w' v' hw' hv'
        rcases hall key with ⟨hn, -⟩ | ⟨v, w, hn, hl, hsame⟩
        · rw [hn] at hv'
          cases hv'
        · rw [hl, Option.some_inj] at hw'
          rw [hn, Option.some_inj] at hv'
          exact hw' ▸ hv' ▸ hsame
    intro key
    by_cases hnp : key = dunderProto
    · rw [if_pos hnp]
      exact .inl ⟨Assoc.get_eq_none_iff.mpr (hnp ▸ hnot), rfl⟩
    rw [if_neg hnp]
    by_cases hne : key = idKey
    · subst hne
      exact .inr ⟨_, _, hid, by rw [get_id_patchFields]; rfl, sameJson_str_iff.mpr rfl⟩
    have hold : (Assoc.get key fields).isSome = (Assoc.get key ps).isSome := by
      have := hkeys key
      rwa [if_neg hnp, Option.isSome_map] at this
    cases hn : Assoc.get key ns with
    | none =>
        refine .inl ⟨rfl, ?_⟩
        have hunset : Assoc.get key patch.set = none := by
          rw [hpatch.set_eq key hne hnp, changedField, hn]
        rw [get_patchFields hpatch.wf id fields hne, hunset]
        dsimp only
        split
        · rfl
        · rename_i hkeep
          rw [hpatch.remove_iff key hne, not_and_not_right] at hkeep
          have : Assoc.get key ps = none := by
            rw [Assoc.get_eq_none_iff]
            exact fun hmem => Assoc.get_eq_none_iff.mp hn (hkeep hmem)
          rw [this, Option.isSome_none, Option.isSome_eq_false_iff,
            Option.isNone_iff_eq_none] at hold
          rw [hold]
          rfl
    | some v =>
        right
        have hjson : v.IsJson := hns.obj_inv.2.2.2 _ (Assoc.mem_of_get hn)
        cases hchanged : changedField ps ns key with
        | some v' =>
            obtain rfl : v = v' := by
              have := get_of_changedField hchanged
              rwa [hn, Option.some_inj] at this
            refine ⟨v, _, rfl, by rw [hslot key v hne hnp hchanged]; rfl, ?_⟩
            exact (writes {} hjson _ _).1.mpr (hclean key v hne hchanged)
        | none =>
            obtain ⟨u, hu, hequal⟩ : ∃ u, Assoc.get key ps = some u ∧ equalJson u v = true := by
              simp only [changedField, hn] at hchanged
              split at hchanged
              · rename_i u hu
                split at hchanged
                · exact ⟨u, hu, ‹_›⟩
                · cases hchanged
              · cases hchanged
            obtain ⟨node, hnode⟩ : ∃ node, Assoc.get key fields = some node := by
              rw [hu] at hold
              exact Option.isSome_iff_exists.mp hold
            have hkeep : key ∉ patch.remove := by
              rw [hpatch.remove_iff key hne, ← Assoc.get_eq_none_iff, hn]
              simp
            refine ⟨v, toValue node, rfl, ?_, ?_⟩
            · rw [get_patchFields hpatch.wf id fields hne, hpatch.set_eq key hne hnp, hchanged,
                if_neg hkeep, hnode]
              rfl
            · have hju : u.IsJson := hps.obj_inv.2.2.2 _ (Assoc.mem_of_get hu)
              have hcur : SameJson (toValue node) u := by
                apply hvals key _ u _ hu
                rw [if_neg hnp, hnode]
                rfl
              exact hcur.trans (sameJson_of_equalJson hju hjson hequal)

end Item

/-! ## The diff of the fields -/

/-- The loop removes the field. -/
def Removes (next : Value) (key : JsString) : Prop := key ≠ idKey ∧ next.hasKey key = false

/-- The loop sets the field, to what `cloneJson` makes of it. -/
def Sets (previous next : Value) (key : JsString) : Prop :=
  key ≠ idKey ∧ next.hasKey key = true ∧
    (previous.hasKey key = false ∨ equalJson (previous.read key) (next.read key) = false)

theorem Removes.not_sets {previous next : Value} {key : JsString} (h : Removes next key) :
    ¬Sets previous next key := by
  intro hs
  have := hs.2.1
  rw [h.2] at this
  cases this

theorem diffField_cases (previous next : Value) (patch : CanvasFieldPatch) (key : JsString) :
    (Removes next key ∧ diffField previous next patch key =
      some { patch with remove := patch.remove ++ [key] }) ∨
    (Sets previous next key ∧ diffField previous next patch key =
      (cloneJson (next.read key)).map fun value =>
        { patch with set := assign patch.set key value }) ∨
    (¬Removes next key ∧ ¬Sets previous next key ∧
      diffField previous next patch key = some patch) := by
  unfold diffField Removes Sets
  by_cases hid : key = idKey
  · exact .inr (.inr (by simp [hid]))
  rw [if_neg hid]
  cases hn : next.hasKey key with
  | false => exact .inl (by simp [hid])
  | true =>
      cases hp : previous.hasKey key with
      | false => exact .inr (.inl (by simp [hid]))
      | true =>
          cases he : equalJson (previous.read key) (next.read key) with
          | false => exact .inr (.inl (by simp [hid]))
          | true => exact .inr (.inr (by simp))

theorem get_assign {set : List (JsString × Value)} {key k : JsString} (hk : k ≠ dunderProto)
    (value : Value) :
    Assoc.get k (assign set key value) = if key = k then some value else Assoc.get k set := by
  unfold assign
  split
  · rename_i hkey
    rw [if_neg]
    exact fun h => hk (h.symm.trans hkey)
  · exact Assoc.get_set _ _ _ _

theorem wf_assign {set : List (JsString × Value)} (h : Assoc.Wf set) (key : JsString)
    (value : Value) : Assoc.Wf (assign set key value) := by
  unfold assign
  split
  · exact h
  · exact Assoc.wf_set h

section Loop

variable {previous next : Value} {start patch : CanvasFieldPatch} {key k : JsString}

/-- One turn of the loop. -/
theorem diffField_spec (h : diffField previous next start key = some patch) :
    (Assoc.Wf start.set → Assoc.Wf patch.set) ∧
    (k ≠ dunderProto → key = k → Sets previous next k →
      Assoc.get k patch.set = cloneJson (next.read k)) ∧
    (k ≠ dunderProto → ¬(key = k ∧ Sets previous next k) →
      Assoc.get k patch.set = Assoc.get k start.set) ∧
    (k ∈ patch.remove ↔ k ∈ start.remove ∨ (key = k ∧ Removes next k)) := by
  rcases diffField_cases previous next start key with ⟨hact, heq⟩ | ⟨hact, heq⟩ | ⟨hnr, hns, heq⟩
  · obtain rfl := Option.some.inj (heq.symm.trans h)
    refine ⟨id, fun _ hk hs => ?_, fun _ _ => rfl, ?_⟩
    · exact absurd (hk ▸ hs) hact.not_sets
    · simp only [List.mem_append, List.mem_singleton]
      constructor
      · rintro (h | rfl)
        · exact .inl h
        · exact .inr ⟨rfl, hact⟩
      · rintro (h | ⟨rfl, -⟩)
        · exact .inl h
        · exact .inr rfl
  · obtain ⟨value, hclone, rfl⟩ := Option.map_eq_some_iff.mp (heq.symm.trans h)
    refine ⟨fun hwf => wf_assign hwf key value, fun hk hkey _ => ?_, fun hk hno => ?_, ?_⟩
    · rw [get_assign hk, if_pos hkey, ← hkey, hclone]
    · rw [get_assign hk, if_neg fun hkey => hno ⟨hkey, hkey ▸ hact⟩]
    · constructor
      · exact .inl
      · rintro (h | ⟨rfl, hr⟩)
        · exact h
        · exact absurd hact hr.not_sets
  · obtain rfl := Option.some.inj (heq.symm.trans h)
    refine ⟨id, fun _ hk hs => absurd (hk ▸ hs) hns, fun _ _ => rfl, ?_⟩
    constructor
    · exact .inl
    · rintro (h | ⟨rfl, hr⟩)
      · exact h
      · exact absurd hr hnr

variable {keys : List JsString}

theorem wf_diffFields_loop (hwf : Assoc.Wf start.set)
    (h : keys.foldlM (diffField previous next) start = some patch) : Assoc.Wf patch.set := by
  induction keys generalizing start with
  | nil =>
      obtain rfl : start = patch := by simpa using h
      exact hwf
  | cons key keys ih =>
      rw [List.foldlM_cons, Option.bind_eq_bind, Option.bind_eq_some_iff] at h
      obtain ⟨mid, hmid, hrest⟩ := h
      exact ih ((diffField_spec (k := key) hmid).1 hwf) hrest

theorem get_diffFields_loop_of_not_sets (hk : k ≠ dunderProto)
    (hno : ¬(k ∈ keys ∧ Sets previous next k))
    (h : keys.foldlM (diffField previous next) start = some patch) :
    Assoc.get k patch.set = Assoc.get k start.set := by
  induction keys generalizing start with
  | nil =>
      obtain rfl : start = patch := by simpa using h
      rfl
  | cons key keys ih =>
      rw [List.foldlM_cons, Option.bind_eq_bind, Option.bind_eq_some_iff] at h
      obtain ⟨mid, hmid, hrest⟩ := h
      rw [ih (fun h => hno ⟨List.mem_cons_of_mem _ h.1, h.2⟩) hrest]
      apply (diffField_spec hmid).2.2.1 hk
      rintro ⟨rfl, hs⟩
      exact hno ⟨List.mem_cons_self, hs⟩

theorem get_diffFields_loop_of_sets (hk : k ≠ dunderProto) (hmem : k ∈ keys)
    (hs : Sets previous next k) (h : keys.foldlM (diffField previous next) start = some patch) :
    Assoc.get k patch.set = cloneJson (next.read k) := by
  induction keys generalizing start with
  | nil => cases hmem
  | cons key keys ih =>
      rw [List.foldlM_cons, Option.bind_eq_bind, Option.bind_eq_some_iff] at h
      obtain ⟨mid, hmid, hrest⟩ := h
      by_cases hlater : k ∈ keys
      · exact ih hlater hrest
      · have hkey : key = k := ((List.mem_cons.mp hmem).resolve_right hlater).symm
        rw [get_diffFields_loop_of_not_sets hk (fun h => hlater h.1) hrest]
        exact (diffField_spec hmid).2.1 hk hkey hs

theorem mem_remove_diffFields_loop
    (h : keys.foldlM (diffField previous next) start = some patch) :
    k ∈ patch.remove ↔ k ∈ start.remove ∨ (k ∈ keys ∧ Removes next k) := by
  induction keys generalizing start with
  | nil =>
      obtain rfl : start = patch := by simpa using h
      simp
  | cons key keys ih =>
      rw [List.foldlM_cons, Option.bind_eq_bind, Option.bind_eq_some_iff] at h
      obtain ⟨mid, hmid, hrest⟩ := h
      rw [ih hrest, (diffField_spec hmid).2.2.2, List.mem_cons, eq_comm (a := key)]
      tauto

/-- The loop throws at a field that cannot be cloned. -/
theorem diffFields_loop_eq_none_iff :
    keys.foldlM (diffField previous next) start = none ↔
      ∃ key ∈ keys, Sets previous next key ∧ cloneJson (next.read key) = none := by
  induction keys generalizing start with
  | nil => simp
  | cons key keys ih =>
      rw [List.foldlM_cons, Option.bind_eq_bind, Option.bind_eq_none_iff]
      simp only [ih, List.exists_mem_cons_iff]
      rcases diffField_cases previous next start key with ⟨hact, heq⟩ | ⟨hact, heq⟩ |
        ⟨-, hns, heq⟩
      · rw [heq]
        simp [hact.not_sets]
      · rw [heq]
        cases hclone : cloneJson (next.read key) with
        | none => simp [hact]
        | some value => simp
      · rw [heq]
        simp [hns]

end Loop

theorem not_equalJson_inherited {v : Value} (hv : v.IsJson) {name : JsString}
    (hname : name ≠ dunderProto) : equalJson v (.inherited name) = false := by
  cases hv <;> simp [equalJson, Value.strictEq, isRecord, Value.isObject, hname]

theorem not_inherited_equalJson {v : Value} (hv : v.IsJson) {name : JsString}
    (hname : name ≠ dunderProto) : equalJson (.inherited name) v = false := by
  cases hv <;> simp [equalJson, Value.strictEq, isRecord, Value.isObject, hname]

theorem cloneJson_of_isJson {v : Value} (hv : v.IsJson) : cloneJson v = some v := by
  cases hv <;> rfl

section Fields

variable {ps ns : List (JsString × Value)} (hps : Value.IsJson (.obj true ps))
  (hns : Value.IsJson (.obj true ns)) (hproto : dunderProto ∉ Assoc.keys ps)

/-- The keys the loop goes through. -/
theorem mem_diffFields_keys {key : JsString} :
    key ∈ sortKeys ((Value.obj true ps).ownKeys ++ (Value.obj true ns).ownKeys).eraseDups ↔
      key ∈ Assoc.keys ps ∨ key ∈ Assoc.keys ns := by
  rw [mem_sortKeys, List.mem_eraseDups, List.mem_append]
  rfl

include hps hns hproto

theorem diffFields_eq_none_iff :
    diffFields (.obj true ps) (.obj true ns) = none ↔
      ∃ key ∈ Assoc.keys ps, key ∉ Assoc.keys ns ∧ key ∈ prototypeNames := by
  rw [diffFields, diffFields_loop_eq_none_iff]
  constructor
  · rintro ⟨key, hmem, hsets, hclone⟩
    have hnot : key ∉ Assoc.keys ns := by
      intro hown
      obtain ⟨v, hv⟩ := Option.isSome_iff_exists.mp (Assoc.get_isSome_iff.mpr hown)
      rw [Value.read_of_own (v := .obj true ns) hv,
        cloneJson_of_isJson (hns.obj_inv.2.2.2 _ (Assoc.mem_of_get hv))] at hclone
      cases hclone
    refine ⟨key, (mem_diffFields_keys.mp hmem).resolve_right hnot, hnot, ?_⟩
    have hhas := hsets.2.1
    rw [Value.hasKey_of_own_eq_none (Assoc.get_eq_none_iff.mpr hnot)] at hhas
    exact of_decide_eq_true hhas
  · rintro ⟨key, hmem, hnot, hinherited⟩
    have hne : key ≠ dunderProto := fun h => hproto (h ▸ hmem)
    have hnone : Value.own key (.obj true ns) = none := Assoc.get_eq_none_iff.mpr hnot
    have hread := Value.read_of_own_eq_none hnone hinherited
    obtain ⟨u, hu⟩ := Option.isSome_iff_exists.mp (Assoc.get_isSome_iff.mpr hmem)
    refine ⟨key, mem_diffFields_keys.mpr (.inl hmem), ⟨?_, ?_, .inr ?_⟩, ?_⟩
    · rintro rfl
      exact absurd hinherited (by decide)
    · rw [Value.hasKey_of_own_eq_none hnone]
      exact decide_eq_true hinherited
    · rw [hread, Value.read_of_own (v := .obj true ps) hu]
      exact not_equalJson_inherited (hps.obj_inv.2.2.2 _ (Assoc.mem_of_get hu)) hne
    · rw [hread, cloneJson, if_neg hne]

/-- A diff that does not throw is a patch from `ps` to `ns`. -/
theorem patchFor_diffFields {patch : CanvasFieldPatch}
    (h : diffFields (.obj true ps) (.obj true ns) = some patch) : PatchFor ps ns patch := by
  have hkept : ∀ key ∈ Assoc.keys ps, key ∉ Assoc.keys ns → key ∉ prototypeNames := by
    intro key hmem hnot hinherited
    rw [(diffFields_eq_none_iff hps hns hproto).mpr ⟨key, hmem, hnot, hinherited⟩] at h
    cases h
  rw [diffFields] at h
  refine ⟨wf_diffFields_loop Assoc.wf_nil h, ?_, ?_⟩
  · intro key hid hne
    unfold changedField
    cases hn : Assoc.get key ns with
    | none =>
        -- a key of `ps` alone is removed, not set
        apply get_diffFields_loop_of_not_sets hne _ h
        rintro ⟨hmem, hsets⟩
        have hnot := Assoc.get_eq_none_iff.mp hn
        have hhas := hsets.2.1
        rw [Value.hasKey_of_own_eq_none hn] at hhas
        exact hkept key ((mem_diffFields_keys.mp hmem).resolve_right hnot) hnot
          (of_decide_eq_true hhas)
    | some v =>
        have hown : key ∈ Assoc.keys ns := Assoc.get_isSome_iff.mp (by simp [hn])
        have hmem : key ∈ sortKeys ((Value.obj true ps).ownKeys ++
            (Value.obj true ns).ownKeys).eraseDups := mem_diffFields_keys.mpr (.inr hown)
        have hjson : v.IsJson := hns.obj_inv.2.2.2 _ (Assoc.mem_of_get hn)
        have hread : (Value.obj true ns).read key = v := Value.read_of_own (v := .obj true ns) hn
        have hhas : (Value.obj true ns).hasKey key = true :=
          Value.hasKey_of_own (v := .obj true ns) hn
        have hset : Sets (.obj true ps) (.obj true ns) key →
            Assoc.get key patch.set = some v := by
          intro hsets
          rw [get_diffFields_loop_of_sets hne hmem hsets h, hread, cloneJson_of_isJson hjson]
        cases hp : Assoc.get key ps with
        | none =>
            have hown : Value.own key (.obj true ps) = none := hp
            apply hset
            refine ⟨hid, hhas, ?_⟩
            by_cases hinherited : key ∈ prototypeNames
            · right
              rw [Value.read_of_own_eq_none hown hinherited, hread]
              exact not_inherited_equalJson hjson hne
            · left
              rw [Value.hasKey_of_own_eq_none hown]
              exact decide_eq_false hinherited
        | some u =>
            have hreadp : (Value.obj true ps).read key = u :=
              Value.read_of_own (v := .obj true ps) hp
            dsimp only
            split
            · rename_i hequal
              apply get_diffFields_loop_of_not_sets hne _ h
              rintro ⟨-, -, -, hno | hno⟩
              · rw [Value.hasKey_of_own (v := .obj true ps) hp] at hno
                cases hno
              · rw [hreadp, hread, hequal] at hno
                cases hno
            · rename_i hequal
              apply hset
              refine ⟨hid, hhas, .inr ?_⟩
              rw [hreadp, hread]
              simpa using hequal
  · intro key hid
    rw [mem_remove_diffFields_loop h, mem_diffFields_keys]
    simp only [List.not_mem_nil, false_or]
    constructor
    · rintro ⟨hmem, -, hhas⟩
      have hnot : key ∉ Assoc.keys ns := by
        intro hown
        obtain ⟨v, hv⟩ := Option.isSome_iff_exists.mp (Assoc.get_isSome_iff.mpr hown)
        rw [Value.hasKey_of_own (v := .obj true ns) hv] at hhas
        cases hhas
      exact ⟨hmem.resolve_right hnot, hnot⟩
    · rintro ⟨hmem, hnot⟩
      have hown : Value.own key (.obj true ns) = none := Assoc.get_eq_none_iff.mpr hnot
      refine ⟨.inl hmem, hid, ?_⟩
      rw [Value.hasKey_of_own_eq_none hown]
      exact decide_eq_false (hkept key hmem hnot)

end Fields

/-! ## One item -/

/-- The fields of an item can be brought from `ps` to `ns`. -/
structure FieldsApply (fields : List (JsString × Node)) (ps ns : List (JsString × Value)) :
    Prop where
  removals : ∀ key ∈ Assoc.keys ps, key ∉ Assoc.keys ns → key ∉ prototypeNames
  no_proto : dunderProto ∉ Assoc.keys ns
  changes : ∀ key v, key ≠ idKey → changedField ps ns key = some v →
    Clean {} (Assoc.get key fields) (some key) v

/-- The slot holds a value that reads back as `v`. -/
def Reads (slot : Option Node) (v : Value) : Prop :=
  ∃ node, slot = some node ∧ SameJson (toValue node) v

/-- What the operation on an id makes of its slot. -/
def slotAfter (id : JsString) (operation : Option ItemOperation) (slot : Option Node) :
    Option Node :=
  match operation with
  | some (.patch _ patch) =>
      match mapOf slot with
      | none => slot
      | some fields => some (.map (patchFields id patch fields))
  | some (.create item) =>
      if id.isEmpty then slot
      else some (.map (patchFields id ⟨item, []⟩ ((mapOf slot).getD [])))
  | _ => slot

/-- An empty patch changes nothing that is read. -/
theorem sameJson_emptyPatch_iff {id : JsString} {ps ns : List (JsString × Value)}
    {patch : CanvasFieldPatch} {fields : List (JsString × Node)} (hset : patch.set = [])
    (hremove : patch.remove = []) (hidp : Assoc.get idKey ps = some (.str id))
    (hfields : SameJson (toValue (.map fields)) (.obj true ps)) :
    SameJson (toValue (.map (patchFields id patch fields))) (.obj true ns) ↔
      SameJson (toValue (.map fields)) (.obj true ns) := by
  have hget : ∀ key, Assoc.get key (toValue.entries (patchFields id patch fields)) =
      Assoc.get key (toValue.entries fields) := by
    intro key
    rw [get_toValue_entries, get_toValue_entries]
    by_cases hproto : key = dunderProto
    · rw [if_pos hproto, if_pos hproto]
    rw [if_neg hproto, if_neg hproto]
    by_cases hkey : key = idKey
    · rw [toValue, sameJson_obj_iff] at hfields
      have hsome := hfields.1 key
      have hsame := hfields.2 key
      rw [get_toValue_entries, if_neg hproto, hkey] at hsome hsame
      rw [hidp, Option.isSome_some, Option.isSome_iff_exists] at hsome
      obtain ⟨v, hv⟩ := hsome
      have := hsame v _ hv hidp
      rw [hkey, get_id_patchFields, hv]
      cases this with
      | atom h => rw [strictEq_eq h]; rfl
    · have hwf : Assoc.Wf patch.set := by
        rw [hset]
        exact Assoc.wf_nil
      rw [get_patchFields hwf id fields hkey, hset, hremove]
      simp
  rw [toValue, toValue, sameJson_obj_iff, sameJson_obj_iff]
  simp only [hget]

section Slot

variable {previous next : List (JsString × Value)} {id : JsString} {ns : List (JsString × Value)}
  (hget : Assoc.get id next = some (.obj true ns)) (hns : Value.IsJson (.obj true ns))
  (hid : Assoc.get idKey ns = some (.str id))
include hget

theorem diffItem_of_previous {ps : List (JsString × Value)}
    (hprev : Assoc.get id previous = some (.obj true ps)) :
    diffItem (.obj true previous) (.obj true next) id =
      (diffFields (.obj true ps) (.obj true ns)).map fun patch =>
        if patch.set.isEmpty && patch.remove.isEmpty then none else some (.patch id patch) := by
  unfold diffItem
  rw [Value.read_of_own (v := .obj true next) hget,
    Value.read_of_own (v := .obj true previous) hprev]
  rfl

theorem diffItem_of_created (hne : id ≠ dunderProto) (hprev : Assoc.get id previous = none) :
    diffItem (.obj true previous) (.obj true next) id = some (some (.create ns)) := by
  have hrecord : asRecord ((Value.obj true previous).read id) = none := by
    by_cases hinherited : id ∈ prototypeNames
    · have hown : Value.own id (.obj true previous) = none := hprev
      rw [Value.read_of_own_eq_none hown hinherited]
      simp [asRecord, isRecord, Value.isObject, hne]
    · simp [asRecord, isRecord, Value.isObject, Value.read, hprev, hinherited]
  unfold diffItem
  rw [Value.read_of_own (v := .obj true next) hget, hrecord]
  rfl

include hns hid

/-- An item both canvases have. -/
theorem reads_slotAfter_of_previous {ps : List (JsString × Value)}
    (hps : Value.IsJson (.obj true ps)) (hidp : Assoc.get idKey ps = some (.str id))
    (hprev : Assoc.get id previous = some (.obj true ps)) {fields : List (JsString × Node)}
    (hfields : SameJson (toValue (.map fields)) (.obj true ps)) :
    (∃ operation, diffItem (.obj true previous) (.obj true next) id = some operation ∧
      Reads (slotAfter id operation (some (.map fields))) (.obj true ns)) ↔
      FieldsApply fields ps ns := by
  have hproto : dunderProto ∉ Assoc.keys ps := by
    rw [toValue, sameJson_obj_iff] at hfields
    have := hfields.1 dunderProto
    rw [get_toValue_entries, if_pos rfl] at this
    rw [← Assoc.get_isSome_iff, ← this]
    simp
  rw [diffItem_of_previous hget hprev]
  cases hdiff : diffFields (.obj true ps) (.obj true ns) with
  | none =>
      obtain ⟨key, hmem, hnot, hinherited⟩ := (diffFields_eq_none_iff hps hns hproto).mp hdiff
      constructor
      · rintro ⟨operation, h, -⟩
        cases h
      · intro h
        exact absurd hinherited (h.removals key hmem hnot)
  | some patch =>
      have hpatch := patchFor_diffFields hps hns hproto hdiff
      have hremovals : ∀ key ∈ Assoc.keys ps, key ∉ Assoc.keys ns → key ∉ prototypeNames := by
        intro key hmem hnot hinherited
        have := (diffFields_eq_none_iff hps hns hproto).mpr ⟨key, hmem, hnot, hinherited⟩
        rw [hdiff] at this
        cases this
      have hiff := sameJson_patchFields_iff hps hns hid hfields hpatch
      have hreads : ∀ node, Reads (some node) (.obj true ns) ↔
          SameJson (toValue node) (.obj true ns) := by
        intro node
        simp [Reads]
      simp only [Option.map_some, Option.some.injEq, exists_eq_left']
      split
      · -- nothing to patch: applying the empty patch would not change what is read
        rename_i hempty
        rw [Bool.and_eq_true, List.isEmpty_iff, List.isEmpty_iff] at hempty
        show Reads (some (.map fields)) _ ↔ _
        rw [hreads, ← sameJson_emptyPatch_iff hempty.1 hempty.2 hidp hfields, hiff]
        exact ⟨fun h => ⟨hremovals, h.1, h.2⟩, fun h => ⟨h.no_proto, h.changes⟩⟩
      · show Reads (some (.map (patchFields id patch fields))) _ ↔ _
        rw [hreads, hiff]
        exact ⟨fun h => ⟨hremovals, h.1, h.2⟩, fun h => ⟨h.no_proto, h.changes⟩⟩

/-- An item only the new canvas has. -/
theorem reads_slotAfter_of_created (hne : id ≠ dunderProto)
    (hprev : Assoc.get id previous = none) :
    (∃ operation, diffItem (.obj true previous) (.obj true next) id = some operation ∧
      Reads (slotAfter id operation none) (.obj true ns)) ↔
      id ≠ [] ∧ FieldsApply [] [] ns := by
  have hpatch : PatchFor [] ns ⟨ns, []⟩ := by
    refine ⟨hns.obj_inv.2.1, ?_, ?_⟩
    · intro key _ _
      unfold changedField
      cases Assoc.get key ns <;> rfl
    · simp
  have hfields : SameJson (toValue (.map [])) (.obj true []) :=
    .obj (fun _ => rfl) (fun _ _ _ h => by cases h)
  have hps : Value.IsJson (.obj true []) := .obj rfl Assoc.wf_nil (by simp) (by simp)
  have hiff := sameJson_patchFields_iff hps hns hid hfields hpatch
  rw [diffItem_of_created hget hne hprev]
  simp only [Option.some.injEq, exists_eq_left', slotAfter]
  by_cases hempty : id = []
  · simp [hempty, Reads]
  · rw [if_neg (by simpa using hempty)]
    have hmapOf : (mapOf none).getD [] = ([] : List (JsString × Node)) := rfl
    simp only [Reads, Option.some.injEq, exists_eq_left', hmapOf, hiff, hempty, ne_eq,
      not_false_eq_true, true_and]
    exact ⟨fun h => ⟨by simp, h.1, h.2⟩, fun h => ⟨h.no_proto, h.changes⟩⟩

end Slot

end Realtime.Structured
