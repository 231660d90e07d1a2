import Realtime.Structured.Reconcile
import Realtime.Structured.StartupMerge

/-!
# What a structured merge keeps beside its conflicts

A merge that reports a conflict still keeps every change of the shared side at
a path the conflict does not cover, and applying the merged value to the shared
tree keeps it too.
-/

namespace Realtime.Structured

open Lib Lib.Js Lib.Utf16

/-- Both sides changed the baseline here, differently, and not to two records. -/
def ConflictAt (base loc remote : Option Value) : Prop :=
  Unsettled base loc remote ∧ ¬(IsRecord loc ∧ IsRecord remote)

/-- No conflict at the path or above it. -/
def ConflictFree (base loc remote : Option Value) (path : List JsString) : Prop :=
  ∀ p, p <+: path → ¬ConflictAt (view base p) (view loc p) (view remote p)

/-- The shared side's change at every path free of conflict is in `v`. -/
def KeepsRemote (base loc remote v : Option Value) : Prop :=
  ∀ path, ConflictFree base loc remote path →
    ¬SameShape (view remote path) (view base path) → SameShape (view v path) (view remote path)

theorem ConflictFree.root {base loc remote : Option Value} {path : List JsString}
    (h : ConflictFree base loc remote path) : ¬ConflictAt base loc remote := by
  have hroot := h [] List.nil_prefix
  rwa [view_nil, view_nil, view_nil] at hroot

theorem ConflictFree.child {base loc remote : Option Value} {key : JsString}
    {path : List JsString} (h : ConflictFree base loc remote (key :: path)) :
    ConflictFree (child key base) (child key loc) (child key remote) path := by
  intro p hp
  have hcons := h (key :: p) ((List.prefix_cons_inj key).mpr hp)
  rwa [view_cons, view_cons, view_cons] at hcons

section Keeps

variable {base loc remote v : Option Value}

theorem keepsRemote_self (hr : TameOpt remote) : KeepsRemote base loc remote remote :=
  fun path _ _ => sameShape_refl (hr.view path)

theorem keepsRemote_of_unchanged (hb : TameOpt base) (hr : TameOpt remote)
    (h : SameValue remote base) : KeepsRemote base loc remote v :=
  fun path _ hne => absurd ((h.view hr hb path).sameShape (hr.view path) (hb.view path)) hne

theorem keepsRemote_of_same (hl : TameOpt loc) (hr : TameOpt remote) (h : SameValue loc remote) :
    KeepsRemote base loc remote loc :=
  fun path _ _ => (h.view hl hr path).sameShape (hl.view path) (hr.view path)

theorem keepsRemote_of_conflict (h : ConflictAt base loc remote) : KeepsRemote base loc remote v :=
  fun _ hfree _ => absurd h hfree.root

/-- Between records it is enough to keep the changes under each key. -/
theorem keepsRemote_of_children {r w : Value} (hr : isRecord r = true) (hw : isRecord w = true)
    (h : ∀ key, KeepsRemote (child key base) (child key loc) (child key (some r))
      (child key (some w))) :
    KeepsRemote base loc (some r) (some w) := by
  intro path hfree hne
  cases path with
  | nil => exact .inl ⟨hw, hr⟩
  | cons key path =>
      rw [view_cons, view_cons] at hne ⊢
      exact h key path hfree.child hne

/-- Two records merged without a baseline are merged from an empty record. -/
theorem KeepsRemote.of_empty {l r w : Value} (hl : isRecord l = true) (hr : isRecord r = true)
    (hw : isRecord w = true)
    (h : KeepsRemote (some (.obj true [])) (some l) (some r) (some w)) :
    KeepsRemote none (some l) (some r) (some w) := by
  apply keepsRemote_of_children hr hw
  intro key path hfree hne
  have hempty : ∀ p, view (some (.obj true [])) (key :: p) = view (child key none) p := by
    intro p
    rw [view_cons]
    rfl
  have hpath := h (key :: path)
  rw [hempty, view_cons, view_cons] at hpath
  refine hpath ?_ hne
  intro p hp
  cases p with
  | nil =>
      rintro ⟨-, hrec⟩
      exact hrec ⟨isRecord_some.mpr hl, isRecord_some.mpr hr⟩
  | cons k p =>
      obtain ⟨rfl, htail⟩ := List.cons_prefix_cons.mp hp
      rw [hempty, view_cons, view_cons]
      exact hfree p htail

end Keeps

/-- Two records are merged to a record. -/
theorem isRecord_merge {b l r : Value} {ob : Option Value} (hb : Baseline b ob) (hl : Plain l)
    (hr : Plain r) (hrecl : isRecord l = true) (hrecr : isRecord r = true) :
    isRecord (mergeStructuredStartupResult b l r).value = true := by
  rcases merge_cases hb hl hr with ⟨-, heq⟩ | ⟨-, heq⟩ | ⟨-, heq⟩ | ⟨-, hrec, -⟩ | ⟨-, -, -, heq⟩
  · rw [heq]
    exact hrecr
  · rw [heq]
    exact hrecl
  · rw [heq]
    exact hrecl
  · exact absurd ⟨isRecord_some.mpr hrecl, isRecord_some.mpr hrecr⟩ hrec
  · rw [heq]
    rfl

section Key

variable {es le re : List (JsString × Value)} (hb : Plain (.obj true es))
  (hl : Plain (.obj true le)) (hr : Plain (.obj true re))
include hb hl hr

/-- The loop keeps the shared side's changes under each key, conflict or not. -/
theorem mergeKey_keepsRemote {key : JsString} (hkey : key ≠ dunderProto)
    (hkeep : KeepsInherited (Assoc.get key es) (Assoc.get key le) (Assoc.get key re))
    (hdel : key ∈ prototypeNames → key ∈ Assoc.keys es →
      key ∈ Assoc.keys le ∧ key ∈ Assoc.keys re)
    (hmem : key ∈ mergeKeys (.obj true es) (.obj true le) (.obj true re))
    (ih : ∀ {b l r : Value} {ob : Option Value}, Baseline b ob → Plain l → Plain r →
      KeepsInherited ob (some l) (some r) → l.depth < (Value.obj true le).depth →
      Tame (mergeStructuredStartupResult b l r).value ∧
        KeepsRemote ob (some l) (some r) (some (mergeStructuredStartupResult b l r).value)) :
    let v := (mergeKey mergeStructuredStartupResult (.obj true es) (.obj true le)
      (.obj true re) key).1
    TameOpt v ∧ KeepsRemote (Assoc.get key es) (Assoc.get key le) (Assoc.get key re) v := by
  have htb : TameOpt (Assoc.get key es) := (tameOpt_some.mpr hb.tame).child key
  have htl : TameOpt (Assoc.get key le) := (tameOpt_some.mpr hl.tame).child key
  have htr : TameOpt (Assoc.get key re) := (tameOpt_some.mpr hr.tame).child key
  have hpb : ∀ v, Assoc.get key es = some v → Plain v := fun v h => (hb.own h).2
  have hpl : ∀ v, Assoc.get key le = some v → Plain v := fun v h => (hl.own h).2
  have hpr : ∀ v, Assoc.get key re = some v → Plain v := fun v h => (hr.own h).2
  have hdepth : ∀ v, Assoc.get key le = some v → v.depth < (Value.obj true le).depth :=
    fun v h => Value.depth_own_lt (v := .obj true le) h
  have hnone : TameOpt none := by simp [TameOpt]
  rw [mem_mergeKeys] at hmem
  simp only [Value.ownKeys, ← Assoc.get_isSome_iff] at hmem hdel
  by_cases hproto : key ∈ prototypeNames
  · rw [mergeKey_of_mem_prototypeNames hproto]
    specialize hdel hproto
    cases hgb : Assoc.get key es with
    | none =>
        cases hgl : Assoc.get key le with
        | none =>
            cases hgr : Assoc.get key re with
            | none => simp [hgb, hgl, hgr] at hmem
            | some r =>
                rw [hgr] at htr
                simp only [inheritedOr, Option.getD_none, Option.getD_some,
                  merge_inherited_inherited_right]
                exact ⟨htr, keepsRemote_self htr⟩
        | some l =>
            rw [hgl] at htl
            cases hgr : Assoc.get key re with
            | none =>
                simp only [inheritedOr, Option.getD_none, Option.getD_some,
                  merge_inherited_left_inherited hkey (hpl l hgl)]
                exact ⟨htl, keepsRemote_of_unchanged hnone hnone trivial⟩
            | some r =>
                rw [hgb, hgl, hgr] at hkeep
                obtain ⟨htame, hset⟩ := ih (.inherited hkey) (hpl l hgl) (hpr r hgr) hkeep
                  (hdepth l hgl)
                exact ⟨tameOpt_some.mpr htame, hset⟩
    | some b =>
        obtain ⟨hl', hr'⟩ := hdel (by simp [hgb])
        obtain ⟨l, hgl⟩ := Option.isSome_iff_exists.mp hl'
        obtain ⟨r, hgr⟩ := Option.isSome_iff_exists.mp hr'
        rw [hgb, hgl, hgr] at hkeep
        rw [hgl, hgr]
        obtain ⟨htame, hset⟩ := ih (.json (hpb b hgb)) (hpl l hgl) (hpr r hgr) hkeep (hdepth l hgl)
        exact ⟨tameOpt_some.mpr htame, hset⟩
  · rw [mergeKey_of_not_mem_prototypeNames hproto]
    cases hgb : Assoc.get key es <;> cases hgl : Assoc.get key le <;>
      cases hgr : Assoc.get key re <;> rw [hgb] at htb <;> rw [hgl] at htl <;> rw [hgr] at htr <;>
      rw [hgb, hgl, hgr] at hkeep <;> simp only [mergeOwn]
    case none.none.none => exact ⟨htr, keepsRemote_self htr⟩
    case none.none.some => exact ⟨htr, keepsRemote_self htr⟩
    case none.some.none => exact ⟨htl, keepsRemote_of_unchanged htb htr trivial⟩
    case some.none.none => exact ⟨htl, keepsRemote_self htr⟩
    case some.none.some b r =>
      -- deleted locally: a changed value is kept, an unchanged one goes
      split
      · exact ⟨htr, keepsRemote_self htr⟩
      · next hrb =>
          have hsame : jsonEqual r b = true := by simpa using hrb
          exact ⟨htl, keepsRemote_of_unchanged htb htr hsame⟩
    case some.some.none b l =>
      split
      · next hlb =>
          refine ⟨htl, keepsRemote_of_conflict ⟨?_, by simp [not_isRecord_none]⟩⟩
          simpa [Unsettled, SameValue] using hlb
      · exact ⟨htr, keepsRemote_self htr⟩
    case none.some.some l r =>
      by_cases hrec : isRecord l = true ∧ isRecord r = true
      · rw [if_pos (by simp [hrec])]
        obtain ⟨htame, hset⟩ := ih (.json plain_empty) (hpl l hgl) (hpr r hgr)
          (keepsInherited_empty _ _) (hdepth l hgl)
        refine ⟨tameOpt_some.mpr htame, hset.of_empty hrec.1 hrec.2 ?_⟩
        exact isRecord_merge (.json plain_empty) (hpl l hgl) (hpr r hgr) hrec.1 hrec.2
      · rw [if_neg (by simpa using hrec)]
        refine ⟨htl, ?_⟩
        by_cases hlr : jsonEqual l r = true
        · exact keepsRemote_of_same htl htr hlr
        · refine keepsRemote_of_conflict ⟨?_, by simpa [isRecord_some] using hrec⟩
          simpa [Unsettled, SameValue] using hlr
    case some.some.some b l r =>
      obtain ⟨htame, hset⟩ := ih (.json (hpb b hgb)) (hpl l hgl) (hpr r hgr) hkeep (hdepth l hgl)
      exact ⟨tameOpt_some.mpr htame, hset⟩

end Key

/-- The baseline's keys are deleted by neither side, where they are inherited. -/
theorem KeepsInherited.not_deleted {b : Value} {ob : Option Value} (hb : Baseline b ob)
    {es le re : List (JsString × Value)} (hes : recordOrEmpty b = .obj true es)
    (hkeep : KeepsInherited ob (some (.obj true le)) (some (.obj true re)))
    (hun : Unsettled ob (some (.obj true le)) (some (.obj true re))) {key : JsString}
    (hproto : key ∈ prototypeNames) (hown : key ∈ Assoc.keys es) :
    key ∈ Assoc.keys le ∧ key ∈ Assoc.keys re := by
  cases hb with
  | json hpb =>
      cases hrecb : isRecord b with
      | true =>
          have : b = .obj true es := by rw [← hes, recordOrEmpty, if_pos hrecb]
          subst this
          exact hkeep [] _ _ _ rfl rfl rfl rfl rfl hun key hproto hown
      | false =>
          rw [recordOrEmpty, if_neg (by simp [hrecb])] at hes
          cases hes
          simp at hown
  | @inherited name hname =>
      have hrec : isRecord (.inherited name) = false := by
        simpa [isRecord, Value.isObject] using hname
      rw [recordOrEmpty, if_neg (by simp [hrec])] at hes
      cases hes
      simp at hown

/-- A merge keeps what the shared side changed beside the conflicts. -/
theorem merge_keepsRemote {b l r : Value} {ob : Option Value} (hb : Baseline b ob) (hl : Plain l)
    (hr : Plain r) (hkeep : KeepsInherited ob (some l) (some r)) :
    Tame (mergeStructuredStartupResult b l r).value ∧
      KeepsRemote ob (some l) (some r) (some (mergeStructuredStartupResult b l r).value) := by
  induction hn : l.depth using Nat.strong_induction_on generalizing b l r ob with
  | _ n ih =>
      have htl := tameOpt_some.mpr hl.tame
      have htr := tameOpt_some.mpr hr.tame
      rcases merge_cases hb hl hr with ⟨-, heq⟩ | ⟨h, heq⟩ | ⟨h, heq⟩ | ⟨hun, hrec, heq⟩ |
        ⟨hun, hrecl, hrecr, heq⟩
      · rw [heq]
        exact ⟨hr.tame, keepsRemote_self htr⟩
      · rw [heq]
        exact ⟨hl.tame, keepsRemote_of_unchanged hb.tame htr h⟩
      · rw [heq]
        exact ⟨hl.tame, keepsRemote_of_same htl htr h⟩
      · rw [heq]
        exact ⟨hl.tame, keepsRemote_of_conflict ⟨hun, hrec⟩⟩
      · obtain ⟨es, hes, hplain, hchild⟩ := hb.recordOrEmpty_eq
        obtain ⟨le, rfl⟩ := hl.eq_obj hrecl
        obtain ⟨re, rfl⟩ := hr.eq_obj hrecr
        rw [heq, hes]
        have hkeys : ∀ key ∈ mergeKeys (.obj true es) (.obj true le) (.obj true re),
            let v := (mergeKey mergeStructuredStartupResult (.obj true es) (.obj true le)
              (.obj true re) key).1
            TameOpt v ∧
              KeepsRemote (Assoc.get key es) (Assoc.get key le) (Assoc.get key re) v := by
          intro key hmem
          have hkeepKey := hkeep.child key
          rw [hchild key] at hkeepKey
          exact mergeKey_keepsRemote hplain hl hr
            (ne_dunderProto_of_mem_mergeKeys hplain hl hr hmem) hkeepKey
            (hkeep.not_deleted hb hes hun) hmem
            fun hb hl hr hk hlt => ih _ (hn ▸ hlt) hb hl hr hk rfl
        refine ⟨?_, ?_⟩
        · refine .obj trivial (Assoc.wf_filterMap (nodup_mergeKeys _ _ _) _) ?_ ?_
          · intro key hkey
            exact ne_dunderProto_of_mem_mergeKeys hplain hl hr (Assoc.keys_filterMap_subset hkey)
          · rintro ⟨key, v⟩ he
            obtain ⟨j, hj, hv⟩ := List.mem_filterMap.mp he
            obtain ⟨w, hw, heq⟩ := Option.map_eq_some_iff.mp hv
            obtain ⟨rfl, rfl⟩ := Prod.mk.inj heq
            exact (hkeys j hj).1 w hw
        · apply keepsRemote_of_children hrecr rfl
          intro key
          rw [hchild key]
          show KeepsRemote (Assoc.get key es) (Assoc.get key le) (Assoc.get key re)
            (Assoc.get key _)
          rw [Assoc.get_filterMap]
          split
          · exact (hkeys key ‹_›).2
          · rename_i hnot
            simp only [mem_mergeKeys, not_or, Value.ownKeys, ← Assoc.get_eq_none_iff] at hnot
            rw [hnot.1, hnot.2.1, hnot.2.2]
            exact keepsRemote_self (by simp [TameOpt])

/-- Where the shared record has a change to keep, the merge is a record. -/
theorem isRecord_merge_of_changed {b l r : Value} {ob : Option Value} (hb : Baseline b ob)
    (hl : Plain l) (hr : Plain r) (hrec : isRecord r = true) {path : List JsString}
    (hfree : ConflictFree ob (some l) (some r) path)
    (hne : ¬SameShape (view (some r) path) (view ob path)) :
    isRecord (mergeStructuredStartupResult b l r).value = true := by
  have htr := tameOpt_some.mpr hr.tame
  rcases merge_cases hb hl hr with ⟨-, heq⟩ | ⟨h, -⟩ | ⟨h, heq⟩ | ⟨hun, hnot, -⟩ | ⟨-, -, -, heq⟩
  · rw [heq]
    exact hrec
  · exact absurd ((h.view htr hb.tame path).sameShape (htr.view path) (hb.tame.view path)) hne
  · rw [heq]
    exact (isRecord_eq_of_jsonEqual hl.tame hr.tame h).trans hrec
  · exact absurd ⟨hun, hnot⟩ hfree.root
  · rw [heq]
    rfl

/-- Applied to the shared tree, a clean record reads back. -/
theorem sameJson_reconcileInto {options : ReconcileOptions} {entries : List (JsString × Node)}
    {v : Value} (hv : Tame v) (hrec : isRecord v = true)
    (hclean : Clean options (some (.map entries)) none v) :
    SameJson (toValue (reconcileInto options (.map entries) v).1) v := by
  obtain ⟨i, fields, rfl⟩ := hv.eq_obj hrec
  have hkind : MatchingKind (.map entries) (.obj i fields) := trivial
  rw [reconcileInto_eq hkind]
  exact (writes options hv (some (.map entries)) none).1.mpr hclean

end Realtime.Structured
