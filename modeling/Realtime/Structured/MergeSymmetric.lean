import Realtime.Structured.StartupMerge

/-!
# When the three-way merge is symmetric and lossless

The merge goes down from three values to what its loop sees under a key, as long as both sides
are records that differ from the baseline and from each other. Two things go wrong on the way.
A key of `Object.prototype` that a side deleted is still there for the loop. And a comparison
may err: beside an own key `__proto__`, `jsonEqual` may take different values for equal.

Where no comparison errs, the merge is symmetric and lossless exactly when it meets a conflict or
no deleted key of `Object.prototype`.
-/

namespace Realtime.Structured

open Lib Lib.Js Lib.Utf16

/-! ## Values with the same content -/

/-- A step into a value. -/
inductive Access
  | key (key : JsString)
  | item (i : Nat)

/-- What a value is apart from what it contains. -/
inductive Form
  | undefined
  | null
  | bool (b : Bool)
  | num (n : ℚ)
  | bigint (n : ℤ)
  | str (s : JsString)
  | arr (length : Nat)
  | record
  | inherited (name : JsString)

def form : Value → Form
  | .undefined => .undefined
  | .null => .null
  | .bool b => .bool b
  | .num n => .num n
  | .bigint n => .bigint n
  | .str s => .str s
  | .arr items => .arr items.length
  | .obj _ _ => .record
  | .inherited name => if name = dunderProto then .record else .inherited name

def access : Access → Value → Option Value
  | .key key, v => v.own key
  | .item i, .arr items => items[i]?
  | .item _, _ => none

/-- The form of what each way into a value leads to. -/
def content : Option Value → List Access → Option Form
  | v, [] => v.map form
  | v, a :: path => content (v.bind (access a)) path

/-- Both absent, or of the same content, whatever the order of the keys. -/
def Same (v w : Option Value) : Prop := content v = content w

/-- What a path shows: nothing, a record, or the content of anything else. -/
def shape (v : Option Value) : Option (Option (List Access → Option Form)) :=
  v.map fun w => if isRecord w then none else some (content (some w))

/-- Both absent, both records, or the same value that is none. -/
def Agree (v w : Option Value) : Prop := shape v = shape w

/-- A JSON value, with or without prototypes. -/
def Whole (v : Value) : Prop := Value.Built (fun _ => True) (fun _ => True) v

theorem isRecord_iff_form {v : Value} : isRecord v = true ↔ form v = .record := by
  cases v with
  | inherited name => simp [isRecord, Value.isObject, form]
  | _ => simp [isRecord, Value.isObject, form]

section Same

variable {v w : Option Value}

theorem Same.symm (h : Same v w) : Same w v := Eq.symm h

theorem Same.access (h : Same v w) (a : Access) :
    Same (v.bind (access a)) (w.bind (access a)) :=
  funext fun path => congrFun h (a :: path)

theorem Same.child (h : Same v w) (key : JsString) : Same (child key v) (child key w) :=
  h.access (.key key)

theorem Same.map_form (h : Same v w) : v.map form = w.map form := congrFun h []

theorem Same.eq_none_iff (h : Same v w) : v = none ↔ w = none := by
  rw [← Option.map_eq_none_iff (f := form), h.map_form, Option.map_eq_none_iff]

theorem Same.agree (h : Same v w) : Agree v w := by
  cases v with
  | none =>
      rw [h.eq_none_iff.mp rfl]
      rfl
  | some v =>
      cases w with
      | none => exact absurd (h.eq_none_iff.mpr rfl) (Option.some_ne_none v)
      | some w =>
          have hform : form v = form w := Option.some.inj h.map_form
          have hrec : isRecord v = isRecord w := by
            rw [Bool.eq_iff_iff, isRecord_iff_form, isRecord_iff_form, hform]
          rw [Agree, shape, shape, Option.map_some, Option.map_some, hrec, h]

theorem Same.agree_view (h : Same v w) (path : List JsString) :
    Agree (view v path) (view w path) := by
  induction path generalizing v w with
  | nil => simpa only [view_nil] using h.agree
  | cons key path ih =>
      rw [view_cons, view_cons]
      exact ih (h.child key)

theorem Agree.same_or_records (h : Agree v w) :
    Same v w ∨ ∃ a b, v = some a ∧ w = some b ∧ isRecord a = true ∧ isRecord b = true := by
  cases v with
  | none =>
      cases w with
      | none => exact .inl rfl
      | some w => cases h
  | some v =>
      cases w with
      | none => cases h
      | some w =>
          rw [Agree, shape, shape, Option.map_some, Option.map_some, Option.some_inj] at h
          split at h <;> split at h
          · next hv hw => exact .inr ⟨v, w, rfl, rfl, hv, hw⟩
          · cases h
          · cases h
          · exact .inl (Option.some.inj h)

/-- Values that agree at every path are the same. -/
theorem same_of_agree (h : ∀ path, Agree (view v path) (view w path)) : Same v w := by
  funext ways
  induction ways generalizing v w with
  | nil =>
      have hroot := h []
      rw [view_nil, view_nil] at hroot
      rcases hroot.same_or_records with hsame | ⟨a, b, rfl, rfl, ha, hb⟩
      · exact congrFun hsame []
      · simp only [content, Option.map_some, isRecord_iff_form.mp ha, isRecord_iff_form.mp hb]
  | cons step ways ih =>
      have hroot := h []
      rw [view_nil, view_nil] at hroot
      rcases hroot.same_or_records with hsame | ⟨a, b, rfl, rfl, ha, hb⟩
      · exact congrFun hsame (step :: ways)
      · cases step with
        | key key =>
            refine ih fun path => ?_
            have hpath := h (key :: path)
            rwa [view_cons, view_cons] at hpath
        | item i =>
            -- a record has no items
            have hitem {u : Value} (hu : isRecord u = true) : access (.item i) u = none := by
              cases u with
              | arr items => cases hu
              | _ => rfl
            simp only [content, Option.bind_some, hitem ha, hitem hb]

end Same

theorem Whole.own {v w : Value} {key : JsString} (h : Whole v) (hown : v.own key = some w) :
    Whole w :=
  (Value.Built.own h hown).2

/-- The comparison finds the same content equal. -/
theorem jsonEqual_of_same {v w : Value} (hv : Whole v) (hw : Whole w)
    (h : Same (some v) (some w)) : jsonEqual v w = true := by
  induction v using Value.ind generalizing w with
  | undefined => cases hv
  | bigint n => cases hv
  | inherited name => cases hv
  | null =>
      have hform := Option.some.inj h.map_form
      cases hw <;> simp_all [form, jsonEqual, Value.strictEq]
  | bool b =>
      have hform := Option.some.inj h.map_form
      cases hw <;> simp_all [form, jsonEqual, Value.strictEq]
  | num n =>
      have hform := Option.some.inj h.map_form
      cases hw <;> simp_all [form, jsonEqual, Value.strictEq]
  | str s =>
      have hform := Option.some.inj h.map_form
      cases hw <;> simp_all [form, jsonEqual, Value.strictEq]
  | arr items ih =>
      have hform := Option.some.inj h.map_form
      cases hw with
      | @arr items' hitems' =>
          have hlen : items.length = items'.length := Form.arr.inj hform
          rw [jsonEqual_arr_iff]
          refine ⟨hlen, fun i hi hi' => ih _ (List.getElem_mem hi) ?_ ?_ ?_⟩
          · cases hv with
            | arr hitems => exact hitems _ (List.getElem_mem hi)
          · exact hitems' _ (List.getElem_mem hi')
          · have hitem := h.access (.item i)
            simpa only [Option.bind_some, access, List.getElem?_eq_getElem hi,
              List.getElem?_eq_getElem hi'] using hitem
      | _ => cases hform
  | obj i entries ih =>
      have hform := Option.some.inj h.map_form
      cases hw with
      | @obj j entries' hj hwf' hkeys' hvals' =>
          obtain ⟨-, hwf, -, hvals⟩ := hv.obj_inv
          have hchild (key : JsString) : Same (Assoc.get key entries) (Assoc.get key entries') :=
            h.child key
          have hperm : (Assoc.keys entries).Perm (Assoc.keys entries') := by
            apply (List.perm_ext_iff_of_nodup hwf hwf').mpr
            intro key
            rw [← not_iff_not, ← Assoc.get_eq_none_iff, ← Assoc.get_eq_none_iff]
            exact (hchild key).eq_none_iff
          rw [jsonEqual, Bool.and_eq_true, Bool.and_eq_true, beq_iff_eq, jsonEqual_entries_iff]
          refine ⟨⟨rfl, ?_⟩, fun e he => ?_⟩
          · rw [Value.ownKeys, ← hperm.length_eq, Assoc.keys, List.length_map]
          · have hget : Assoc.get e.1 entries = some e.2 := Assoc.get_of_mem hwf he
            have hsame := hchild e.1
            rw [hget] at hsame
            obtain ⟨u, hu⟩ : ∃ u, Assoc.get e.1 entries' = some u := by
              rw [← Option.ne_none_iff_exists']
              exact fun hno => absurd (hsame.eq_none_iff.mpr hno) (Option.some_ne_none _)
            rw [hu] at hsame
            rw [Value.hasKey_of_own (v := .obj j entries') hu,
              Value.read_of_own (v := .obj j entries') hu]
            exact ⟨rfl, ih e he (hvals e he) (hvals' _ (Assoc.mem_of_get hu)) hsame⟩
      | _ => cases hform

/-! ## The way down -/

/-- What the loop sees under a key: an own value, or an inherited one. -/
def sees (key : JsString) (v : Value) : Option Value :=
  if v.hasKey key then some (v.read key) else none

theorem mergeKey_eq (base loc remote : Value) (key : JsString) :
    mergeKey mergeStructuredStartupResult base loc remote key =
      mergeOwn (sees key base) (sees key loc) (sees key remote) := by
  simp only [mergeKey, sees]
  cases base.hasKey key <;> cases loc.hasKey key <;> cases remote.hasKey key <;>
    simp [mergeOwn]

/-- What the merge sees of the three values at one place. -/
structure Sides where
  base : Option Value
  loc : Option Value
  remote : Option Value

namespace Sides

/-- The baseline of the comparisons: two added records are merged from `{}`. -/
def baseline (s : Sides) : Option Value :=
  match s.base, s.loc, s.remote with
  | none, some l, some r => if isRecord l && isRecord r then some (.obj true []) else none
  | base, _, _ => base

/-- Each side differs from the baseline and from the other. -/
def Unsettled (s : Sides) : Prop := Structured.Unsettled s.baseline s.loc s.remote

def Records (s : Sides) : Prop := IsRecord s.loc ∧ IsRecord s.remote

/-- The record whose keys are the baseline's. -/
def record (s : Sides) : Value := recordOrEmpty (s.base.getD (.obj true []))

def under (s : Sides) (key : JsString) : Sides where
  base := sees key s.record
  loc := s.loc.bind (sees key)
  remote := s.remote.bind (sees key)

/-- The keys of the loop. -/
def keys (s : Sides) : List JsString :=
  mergeKeys s.record (s.loc.getD .undefined) (s.remote.getD .undefined)

/-- The merge of what is seen: the value, and whether there is a conflict. -/
def merge (s : Sides) : Option Value × Bool := mergeOwn s.base s.loc s.remote

def swap (s : Sides) : Sides := ⟨s.base, s.remote, s.loc⟩

/-- Some place that the merge goes down to has the property. -/
inductive Reaches (P : Sides → Prop) : Sides → Prop
  | here {s : Sides} : P s → Reaches P s
  | under {s : Sides} {key : JsString} : s.Unsettled → s.Records → key ∈ s.keys →
      Reaches P (s.under key) → Reaches P s

/-- Both sides changed the baseline, differently, and not to two records. -/
def Conflicts : Sides → Prop := Reaches fun t => t.Unsettled ∧ ¬t.Records

theorem own_record (s : Sides) (key : JsString) : s.record.own key = child key s.base := by
  rw [record, recordOrEmpty]
  split
  · next h =>
      cases hb : s.base with
      | none => rfl
      | some b => rfl
  · next h =>
      cases hb : s.base with
      | none => rfl
      | some b =>
          rw [hb, Option.getD_some, Bool.not_eq_true] at h
          exact (own_of_not_isRecord h key).symm

theorem mem_keys {s : Sides} {key : JsString} : key ∈ s.keys ↔
    child key s.base ≠ none ∨ child key s.loc ≠ none ∨ child key s.remote ≠ none := by
  have hside (v : Option Value) : (v.getD .undefined).own key = child key v := by
    cases v <;> rfl
  simp only [keys, mem_mergeKeys, Value.mem_ownKeys_iff, ← Option.ne_none_iff_exists', own_record,
    hside]

/-- How the merge of what is seen comes out. -/
inductive Merged (s : Sides) : Prop
  | loc_unchanged : SameValue s.loc s.baseline → s.merge = (s.remote, false) → Merged s
  | remote_unchanged : SameValue s.remote s.baseline → s.merge = (s.loc, false) → Merged s
  | both_same : ¬SameValue s.loc s.baseline → ¬SameValue s.remote s.baseline →
      SameValue s.loc s.remote → s.merge = (s.loc, false) → Merged s
  | conflict : s.Unsettled → ¬s.Records → s.merge.2 = true → Merged s
  | records : s.Unsettled → s.Records → s.merge =
      (some (.obj false (s.keys.filterMap fun key => (s.under key).merge.1.map (key, ·))),
        s.keys.any fun key => (s.under key).merge.2) → Merged s

/-- Two values, merged from the baseline that the recursion is given. -/
theorem merged_values {base l r : Value} {b : Option Value}
    (hbase : (Sides.mk b (some l) (some r)).baseline = some base)
    (hrecord : (Sides.mk b (some l) (some r)).record = recordOrEmpty base)
    (hmerge : (Sides.mk b (some l) (some r)).merge =
      (some (mergeStructuredStartupResult base l r).value,
        (mergeStructuredStartupResult base l r).conflicted)) :
    (Sides.mk b (some l) (some r)).Merged := by
  have hun (h : jsonEqual l base = false ∧ jsonEqual r base = false ∧ jsonEqual l r = false) :
      (Sides.mk b (some l) (some r)).Unsettled := by
    rw [Unsettled, hbase]
    simp only [← Bool.not_eq_true] at h
    exact h
  rcases mergeStructuredStartupResult_cases base l r with
    ⟨h, heq⟩ | ⟨h, heq⟩ | ⟨hne, h, heq⟩ | ⟨hne, hrec, heq⟩ | ⟨hne, hrec, heq⟩ <;>
    rw [heq] at hmerge
  · exact .loc_unchanged (by rw [hbase]; exact h) hmerge
  · exact .remote_unchanged (by rw [hbase]; exact h) hmerge
  · refine .both_same ?_ ?_ h hmerge
    · rw [hbase]
      exact Bool.not_eq_true _ ▸ hne.1
    · rw [hbase]
      exact Bool.not_eq_true _ ▸ hne.2
  · refine .conflict (hun hne) ?_ (by rw [hmerge])
    rwa [Records, isRecord_some, isRecord_some]
  · refine .records (hun hne) ⟨isRecord_some.mpr hrec.1, isRecord_some.mpr hrec.2⟩ ?_
    rw [hmerge]
    simp only [mergeKey_eq, keys, merge, under, hrecord, Option.bind_some, Option.getD_some]

theorem merged (s : Sides) : s.Merged := by
  obtain ⟨base, loc, remote⟩ := s
  cases loc with
  | none =>
      cases base with
      | none => exact .loc_unchanged trivial rfl
      | some b =>
          cases remote with
          | none => exact .both_same id id trivial rfl
          | some r =>
              cases hrb : jsonEqual r b with
              | true => exact .remote_unchanged hrb (by simp [merge, mergeOwn, hrb])
              | false =>
                  exact .conflict ⟨id, Bool.not_eq_true _ ▸ hrb, id⟩
                    (fun h => not_isRecord_none h.1) (by simp [merge, mergeOwn, hrb])
  | some l =>
      cases remote with
      | none =>
          cases base with
          | none => exact .remote_unchanged trivial rfl
          | some b =>
              cases hlb : jsonEqual l b with
              | true => exact .loc_unchanged hlb (by simp [merge, mergeOwn, hlb])
              | false =>
                  exact .conflict ⟨Bool.not_eq_true _ ▸ hlb, id, id⟩
                    (fun h => not_isRecord_none h.2) (by simp [merge, mergeOwn, hlb])
      | some r =>
          cases base with
          | some b => exact merged_values rfl rfl rfl
          | none =>
              by_cases hrec : isRecord l = true ∧ isRecord r = true
              · -- both sides added a record
                refine @merged_values (.obj true []) l r none ?_ rfl ?_
                · simp [baseline, hrec]
                · simp [merge, mergeOwn, hrec]
              · have hbase : (Sides.mk none (some l) (some r)).baseline = none := by
                  simpa [baseline] using hrec
                have hmerge : (Sides.mk none (some l) (some r)).merge =
                    (some l, !jsonEqual l r) := by
                  simp [merge, mergeOwn, hrec]
                cases hlr : jsonEqual l r with
                | true =>
                    exact .both_same (by rw [hbase]; exact id) (by rw [hbase]; exact id) hlr
                      (by rw [hmerge, hlr]; rfl)
                | false =>
                    refine .conflict ?_ (by rwa [Records, isRecord_some, isRecord_some])
                      (by rw [hmerge, hlr]; rfl)
                    rw [Unsettled, hbase]
                    exact ⟨id, id, Bool.not_eq_true _ ▸ hlr⟩

variable {P : Sides → Prop} {s : Sides}

theorem Reaches.unsettled (h : Reaches P s) (hP : ∀ t, P t → t.Unsettled) : s.Unsettled := by
  cases h with
  | here h => exact hP _ h
  | under hun _ _ _ => exact hun

theorem depth_under (h : s.Records) (key : JsString) :
    (s.under key).loc.elim 0 Value.depth < s.loc.elim 0 Value.depth := by
  obtain ⟨l, hl, hlrec⟩ := h.1
  have hlt := Value.depth_read_lt key hlrec
  show (s.loc.bind (sees key)).elim 0 Value.depth < _
  rw [hl, Option.bind_some, Option.elim_some, sees]
  split
  · exact hlt
  · exact Nat.zero_lt_of_lt hlt

/-- The flag is raised exactly for the conflicts that the merge goes down to. -/
theorem flagged_iff (s : Sides) : s.merge.2 = true ↔ s.Conflicts := by
  induction hn : s.loc.elim 0 Value.depth using Nat.strong_induction_on generalizing s with
  | _ n ih =>
      have hsettled (h : s.merge.2 = false) (hnot : ¬s.Unsettled) :
          s.merge.2 = true ↔ s.Conflicts :=
        iff_of_false (by simp [h]) fun hc => hnot (hc.unsettled fun _ h => h.1)
      cases s.merged with
      | loc_unchanged h heq => exact hsettled (by rw [heq]) fun hun => hun.1 h
      | remote_unchanged h heq => exact hsettled (by rw [heq]) fun hun => hun.2.1 h
      | both_same _ _ h heq => exact hsettled (by rw [heq]) fun hun => hun.2.2 h
      | conflict hun hrec heq => exact iff_of_true heq (.here ⟨hun, hrec⟩)
      | records hun hrec heq =>
          have hunder (key : JsString) :
              (s.under key).merge.2 = true ↔ (s.under key).Conflicts :=
            ih _ (hn ▸ depth_under hrec key) _ rfl
          rw [heq, List.any_eq_true]
          constructor
          · rintro ⟨key, hmem, hflag⟩
            exact .under hun hrec hmem ((hunder key).mp hflag)
          · rintro (⟨-, hnot⟩ | ⟨-, -, hmem, h⟩)
            · exact absurd hrec hnot
            · exact ⟨_, hmem, (hunder _).mpr h⟩

end Sides

/-! ## What goes wrong -/

/-- The value itself, and nothing for what is only inherited. -/
def ownOf : Option Value → Option Value
  | some (.inherited _) => none
  | v => v

theorem child_ownOf (key : JsString) (v : Option Value) : child key (ownOf v) = child key v := by
  cases v with
  | none => rfl
  | some v => cases v <;> rfl

namespace Sides

/-- A comparison takes different values for equal, or the loop takes `Object.prototype` for a
baseline that has `null` under `__proto__`. -/
def Misjudged (s : Sides) : Prop :=
  (SameValue s.loc s.baseline ∧ ¬Same (ownOf s.loc) (ownOf s.baseline)) ∨
  (SameValue s.remote s.baseline ∧ ¬Same (ownOf s.remote) (ownOf s.baseline)) ∨
  ((¬SameValue s.loc s.baseline ∧ ¬SameValue s.remote s.baseline) ∧
    ((SameValue s.loc s.remote ∨ SameValue s.remote s.loc) ∧
        ¬Same (ownOf s.loc) (ownOf s.remote) ∨
      s.Records ∧ s.base = some (.inherited dunderProto) ∧
        (child dunderProto s.loc ≠ none ∨ child dunderProto s.remote ≠ none)))

/-- Two changed records meet, and one has deleted a key that `Object.prototype` has. -/
def DeletesInherited (s : Sides) : Prop :=
  s.Unsettled ∧ s.Records ∧ ∃ key ∈ prototypeNames,
    child key s.base ≠ none ∧ (child key s.loc = none ∨ child key s.remote = none)

def Misjudges : Sides → Prop := Reaches Misjudged

def Deletes : Sides → Prop := Reaches DeletesInherited

end Sides

/-! ## The sides exchanged -/

/-- Nothing, a value, or what `Object.prototype` has. -/
def Visible (v : Option Value) : Prop := ∀ w, v = some w → Whole w ∨ ∃ name, w = .inherited name

theorem Whole.ownOf {v : Value} (h : Whole v) : ownOf (some v) = some v := by
  cases h <;> rfl

theorem Visible.sees {v : Option Value} (h : Visible v) (key : JsString) :
    Visible (v.bind (sees key)) := by
  intro w hw
  obtain ⟨u, rfl, hu⟩ := Option.bind_eq_some_iff.mp hw
  rw [Structured.sees] at hu
  split at hu
  · next hhas =>
      obtain rfl := Option.some.inj hu
      rcases h u rfl with hwhole | ⟨name, rfl⟩
      · cases hown : u.own key with
        | some c =>
            rw [Value.read_of_own hown]
            exact .inl (hwhole.own hown)
        | none =>
            cases hwhole with
            | @obj i entries =>
                rw [Value.own_obj] at hown
                have hnot : key ∉ Assoc.keys entries := Assoc.get_eq_none_iff.mp hown
                simp only [Value.hasKey, hnot, decide_false, Bool.false_or] at hhas
                exact .inr ⟨key, by simp [Value.read, hown, hhas]⟩
            | _ => cases hhas
      · by_cases hkey : key = dunderProto
        · exact .inl (by simpa [Value.read, hkey] using .null)
        · have hmem : key ∈ prototypeNames := by simpa [Value.hasKey] using hhas
          exact .inr ⟨key, by simp [Value.read, hkey, hmem]⟩
  · cases hu

/-- Among values of the same content the comparison has no order. -/
theorem sameValue_symm {v w : Option Value} (hv : Visible v) (hw : Visible w)
    (h : SameValue v w) (hsame : Same (ownOf v) (ownOf w)) : SameValue w v := by
  cases v with
  | none => cases w <;> exact h
  | some v =>
      cases w with
      | none => exact h
      | some w =>
          rcases hv v rfl with hv | ⟨name, rfl⟩ <;> rcases hw w rfl with hw | ⟨name', rfl⟩
          · rw [hv.ownOf, hw.ownOf] at hsame
            exact jsonEqual_of_same hw hv hsame.symm
          · rw [hv.ownOf] at hsame
            exact absurd (hsame.eq_none_iff.mpr rfl) (Option.some_ne_none _)
          · rw [hw.ownOf] at hsame
            exact absurd (hsame.eq_none_iff.mp rfl) (Option.some_ne_none _)
          · simp only [SameValue, jsonEqual, Value.strictEq, isRecord, Value.isObject,
              Value.ownKeys, Bool.or_eq_true, Bool.and_eq_true, beq_iff_eq] at h ⊢
            grind

namespace Sides

@[simp] theorem swap_swap (s : Sides) : s.swap.swap = s := rfl

theorem baseline_swap (s : Sides) : s.swap.baseline = s.baseline := by
  obtain ⟨base, loc, remote⟩ := s
  cases base <;> cases loc <;> cases remote <;> simp [swap, baseline, and_comm]

theorem records_swap {s : Sides} : s.swap.Records ↔ s.Records := and_comm

theorem mem_keys_swap {s : Sides} {key : JsString} : key ∈ s.swap.keys ↔ key ∈ s.keys := by
  rw [mem_keys, mem_keys, or_comm (a := child key s.loc ≠ none)]
  rfl

section Swap

variable {s : Sides} (hl : Visible s.loc) (hr : Visible s.remote)
include hl hr

theorem unsettled_of_swap (hm : ¬s.Misjudged) (h : s.swap.Unsettled) : s.Unsettled := by
  rw [Unsettled, baseline_swap] at h
  refine ⟨h.2.1, h.1, fun hlr => h.2.2 (sameValue_symm hl hr hlr ?_)⟩
  by_contra hne
  exact hm (.inr (.inr ⟨⟨h.2.1, h.1⟩, .inl ⟨.inl hlr, hne⟩⟩))

omit hl hr in
theorem misjudged_of_swap (h : s.swap.Misjudged) : s.Misjudged := by
  rw [Misjudged, baseline_swap] at h
  rcases h with h | h | ⟨hne, ⟨hsame, hdiffer⟩ | ⟨hrec, hbase, hown⟩⟩
  · exact .inr (.inl h)
  · exact .inl h
  · exact .inr (.inr ⟨hne.symm, .inl ⟨hsame.symm, fun h => hdiffer h.symm⟩⟩)
  · exact .inr (.inr ⟨hne.symm, .inr ⟨records_swap.mp hrec, hbase, hown.symm⟩⟩)

/-- Where no comparison errs, the merge of the sides exchanged goes down to the same places. -/
theorem Reaches.of_swap {P Q : Sides → Prop} (hm : ¬s.Misjudges)
    (hPQ : ∀ t : Sides, Visible t.loc → Visible t.remote → ¬t.Misjudged → P t.swap → Q t)
    (h : Reaches P s.swap) : Reaches Q s := by
  generalize hu : s.swap = u at h
  induction h generalizing s with
  | here h =>
      subst hu
      exact .here (hPQ s hl hr (fun h => hm (.here h)) h)
  | @under _ key hun hrec hmem _ ih =>
      subst hu
      have hun' := unsettled_of_swap hl hr (fun h => hm (.here h)) hun
      have hrec' := records_swap.mp hrec
      have hmem' := mem_keys_swap.mp hmem
      exact .under hun' hrec' hmem'
        (ih (hl.sees key) (hr.sees key) (fun h => hm (.under hun' hrec' hmem' h)) rfl)

theorem not_misjudges_swap (hm : ¬s.Misjudges) : ¬s.swap.Misjudges := fun h =>
  hm (h.of_swap hl hr hm fun _ _ _ _ => misjudged_of_swap)

theorem conflicts_of_swap (hm : ¬s.Misjudges) (h : s.swap.Conflicts) : s.Conflicts :=
  h.of_swap hl hr hm fun _ hl hr hm h =>
    ⟨unsettled_of_swap hl hr hm h.1, fun hrec => h.2 (records_swap.mpr hrec)⟩

theorem deletes_of_swap (hm : ¬s.Misjudges) (h : s.swap.Deletes) : s.Deletes := by
  refine h.of_swap hl hr hm ?_
  rintro t hl hr hm ⟨hun, hrec, key, hkey, hbase, hgone⟩
  exact ⟨unsettled_of_swap hl hr hm hun, records_swap.mp hrec, key, hkey, hbase, hgone.symm⟩

end Swap

end Sides

/-! ## The merged value -/

/-- At every path `v` is what the side that changed the baseline has there, and the baseline
where no side changed it. -/
structure Settles (base loc remote v : Option Value) : Prop where
  local_changes : ∀ path, ¬Agree (view loc path) (view base path) →
    Agree (view v path) (view loc path)
  remote_changes : ∀ path, ¬Agree (view remote path) (view base path) →
    Agree (view v path) (view remote path)
  unchanged : ∀ path, Agree (view loc path) (view base path) →
    Agree (view remote path) (view base path) → Agree (view v path) (view base path)

theorem agree_records {v w : Value} (hv : isRecord v = true) (hw : isRecord w = true) :
    Agree (some v) (some w) := by
  rw [Agree, shape, shape, Option.map_some, Option.map_some, if_pos hv, if_pos hw]

section Settles

variable {base loc remote v : Option Value}

theorem settles_of_local_unchanged (h : Same loc base) : Settles base loc remote remote where
  local_changes path hne := absurd (h.agree_view path) hne
  remote_changes _ _ := rfl
  unchanged _ _ h := h

theorem settles_of_remote_unchanged (h : Same remote base) : Settles base loc remote loc where
  local_changes _ _ := rfl
  remote_changes path hne := absurd (h.agree_view path) hne
  unchanged _ h _ := h

theorem settles_of_both_same (h : Same loc remote) : Settles base loc remote loc where
  local_changes _ _ := rfl
  remote_changes path _ := h.agree_view path
  unchanged _ h _ := h

/-- Between records it is enough to settle each key. -/
theorem settles_of_children {l r w : Value} (hl : isRecord l = true) (hr : isRecord r = true)
    (hw : isRecord w = true)
    (h : ∀ key, Settles (child key base) (child key (some l)) (child key (some r))
      (child key (some w))) :
    Settles base (some l) (some r) (some w) := by
  refine ⟨fun path => ?_, fun path => ?_, fun path => ?_⟩ <;> cases path with
  | nil => ?_
  | cons key path => ?_
  · exact fun _ => agree_records hw hl
  · simpa only [view_cons] using (h key).local_changes path
  · exact fun _ => agree_records hw hr
  · simpa only [view_cons] using (h key).remote_changes path
  · simp only [view_nil]
    exact fun hlb _ => (agree_records hw hl).trans hlb
  · simpa only [view_cons] using (h key).unchanged path

/-- Between records, an empty baseline is no baseline. -/
theorem Settles.of_empty {l r w : Value} (hl : isRecord l = true) (hr : isRecord r = true)
    (hw : isRecord w = true)
    (h : Settles (some (.obj true [])) (some l) (some r) (some w)) :
    Settles none (some l) (some r) (some w) := by
  apply settles_of_children hl hr hw
  intro key
  have hnone (path : List JsString) : view (child key none) path =
      view (some (.obj true [])) (key :: path) := by
    rw [view_cons]
    rfl
  refine ⟨fun path => ?_, fun path => ?_, fun path => ?_⟩ <;>
    rw [hnone] <;> simp only [← view_cons]
  · exact h.local_changes (key :: path)
  · exact h.remote_changes (key :: path)
  · exact h.unchanged (key :: path)

/-- What settles the same changes is the same. -/
theorem Settles.same {w : Option Value} (h : Settles base loc remote v)
    (h' : Settles base remote loc w) : Same v w := by
  refine same_of_agree fun path => ?_
  by_cases hl : Agree (view loc path) (view base path)
  · by_cases hr : Agree (view remote path) (view base path)
    · exact (h.unchanged path hl hr).trans (h'.unchanged path hr hl).symm
    · exact (h.remote_changes path hr).trans (h'.local_changes path hr).symm
  · exact (h.local_changes path hl).trans (h'.remote_changes path hl).symm

end Settles

/-! ### Where the loop sees what there is -/

/-- What a plain object without the key has under it. -/
def absent (key : JsString) : Option Value :=
  if key ∈ prototypeNames then some (.inherited key) else none

/-- A JSON value, or what stands for none. -/
def Kin (gone v : Option Value) : Prop := v = gone ∨ ∃ w, v = some w ∧ w.IsJson

theorem sees_obj (key : JsString) (entries : List (JsString × Value)) :
    sees key (.obj true entries) = (Assoc.get key entries).or (absent key) := by
  rw [sees, absent]
  cases hget : Assoc.get key entries with
  | some v =>
      rw [Value.hasKey_of_own (v := .obj true entries) hget,
        Value.read_of_own (v := .obj true entries) hget, if_pos rfl, Option.some_or]
  | none =>
      rw [Value.hasKey_of_own_eq_none hget, Option.none_or]
      by_cases hkey : key ∈ prototypeNames
      · rw [if_pos hkey, if_pos (decide_eq_true hkey), Value.read_of_own_eq_none hget hkey]
      · rw [if_neg hkey, if_neg (by simpa using hkey)]

theorem eq_obj_of_isJson {v : Value} (h : v.IsJson) (hrec : isRecord v = true) :
    ∃ entries, v = .obj true entries := by
  cases h with
  | @obj i entries hi _ _ _ => exact ⟨entries, by rw [hi]⟩
  | _ => cases hrec

theorem ownOf_absent (key : JsString) : ownOf (absent key) = none := by
  rw [absent]
  split <;> rfl

theorem whole_of_isJson {v : Value} (h : v.IsJson) : Whole v :=
  h.mono (fun _ _ => trivial) fun _ h => h

theorem ownOf_child_or {v : Value} (h : v.IsJson) (key : JsString) :
    ownOf ((v.own key).or (absent key)) = v.own key := by
  cases hown : v.own key with
  | none => rw [Option.none_or, ownOf_absent]
  | some c => rw [Option.some_or, ((whole_of_isJson h).own hown).ownOf]

section Kin

variable {gone v : Option Value} (hgone : gone = none ∨ ∃ name, gone = some (.inherited name))
  (h : Kin gone v)
include hgone h

theorem Kin.under (key : JsString) : Kin (absent key) ((child key v).or (absent key)) := by
  rcases h with rfl | ⟨w, rfl, hw⟩
  · refine .inl ?_
    rcases hgone with rfl | ⟨name, rfl⟩ <;> rfl
  · cases hown : w.own key with
    | none => exact .inl (by rw [child, Option.bind_some, hown, Option.none_or])
    | some c =>
        exact .inr ⟨c, by rw [child, Option.bind_some, hown, Option.some_or],
          (Value.Built.own hw hown).2⟩

theorem Kin.ownOf_under (key : JsString) :
    ownOf ((child key v).or (absent key)) = child key v := by
  rcases h with rfl | ⟨w, rfl, hw⟩
  · rcases hgone with rfl | ⟨name, rfl⟩ <;> exact ownOf_absent key
  · exact ownOf_child_or hw key

theorem Kin.ownOf_eq_none_iff : ownOf v = none ↔ v = gone := by
  rcases h with rfl | ⟨w, rfl, hw⟩
  · rcases hgone with rfl | ⟨name, rfl⟩ <;> simp [ownOf]
  · rw [(whole_of_isJson hw).ownOf]
    refine iff_of_false (Option.some_ne_none w) ?_
    rcases hgone with rfl | ⟨name, rfl⟩
    · exact Option.some_ne_none w
    · rintro heq
      cases heq
      cases hw

/-- What is not merely inherited is all there. -/
theorem Kin.own (hne : gone ≠ none → v ≠ gone) : ownOf v = v ∧ ∀ w, v = some w → Whole w := by
  rcases h with rfl | ⟨w, rfl, hw⟩
  · rcases hgone with rfl | ⟨name, rfl⟩
    · exact ⟨rfl, fun w heq => absurd heq.symm (Option.some_ne_none w)⟩
    · exact absurd rfl (hne (Option.some_ne_none _))
  · refine ⟨(whole_of_isJson hw).ownOf, ?_⟩
    rintro w' heq
    obtain rfl := Option.some.inj heq
    exact whole_of_isJson hw

end Kin

namespace Sides

/-- The sides of a place where nothing inherited has come back: what is not there is all the
same for the three, and where that is an inherited value no side has deleted the baseline. -/
structure Proper (gone : Option Value) (s : Sides) : Prop where
  stands : gone = none ∨ ∃ name, gone = some (.inherited name)
  base : Kin gone s.base
  loc : Kin gone s.loc
  remote : Kin gone s.remote
  kept : gone ≠ none → s.base = gone ∧ (s.loc ≠ gone ∨ s.remote ≠ gone) ∨
    s.loc ≠ gone ∧ s.remote ≠ gone

theorem loc_under {s : Sides} {le : List (JsString × Value)} (h : s.loc = some (.obj true le))
    (key : JsString) : (s.under key).loc = (child key s.loc).or (absent key) := by
  show s.loc.bind (sees key) = _
  rw [h, Option.bind_some, sees_obj]
  rfl

theorem remote_under {s : Sides} {re : List (JsString × Value)}
    (h : s.remote = some (.obj true re)) (key : JsString) :
    (s.under key).remote = (child key s.remote).or (absent key) := by
  show s.remote.bind (sees key) = _
  rw [h, Option.bind_some, sees_obj]
  rfl

theorem baseline_of_base {s : Sides} {b : Value} (h : s.base = some b) : s.baseline = some b := by
  obtain ⟨base, loc, remote⟩ := s
  obtain rfl : base = some b := h
  rfl

section Proper

variable {gone : Option Value} {s : Sides} {key : JsString} (hs : s.Proper gone)
  (hun : s.Unsettled) (hrec : s.Records)
include hs hun hrec

/-- What is merged key by key is there on both sides. -/
theorem Proper.records : ∃ le re, s.loc = some (.obj true le) ∧ s.remote = some (.obj true re) ∧
    (Value.obj true le).IsJson ∧ (Value.obj true re).IsJson := by
  obtain ⟨l, hl, hlrec⟩ := hrec.1
  obtain ⟨r, hr, hrrec⟩ := hrec.2
  -- `Object.prototype` on a side is that of the baseline, and settled
  have hsettled {v : Option Value} {w : Value} (hv : v = some w) (hgone : v = gone)
      (hbase : s.base = gone) : SameValue v s.baseline := by
    rcases hs.stands with h | ⟨name, h⟩
    · rw [h, hv] at hgone
      cases hgone
    · rw [baseline_of_base (hbase.trans h), hgone, h]
      simp [SameValue, jsonEqual, Value.strictEq]
  have hkept (hv : s.loc = gone ∨ s.remote = gone) : s.base = gone := by
    have hne : gone ≠ none := by
      rintro rfl
      rcases hv with h | h
      · rw [hl] at h
        cases h
      · rw [hr] at h
        cases h
    rcases hs.kept hne with h | h
    · exact h.1
    · exact absurd hv (not_or.mpr h)
  rcases hs.loc with h | ⟨l', hl', hljson⟩
  · exact absurd (hsettled hl h (hkept (.inl h))) hun.1
  rcases hs.remote with h | ⟨r', hr', hrjson⟩
  · exact absurd (hsettled hr h (hkept (.inr h))) hun.2.1
  obtain rfl := Option.some.inj (hl.symm.trans hl')
  obtain rfl := Option.some.inj (hr.symm.trans hr')
  obtain ⟨le, rfl⟩ := eq_obj_of_isJson hljson hlrec
  obtain ⟨re, rfl⟩ := eq_obj_of_isJson hrjson hrrec
  exact ⟨le, re, hl, hr, hljson, hrjson⟩

/-- The loop sees the baseline's own value, or none. -/
theorem Proper.base_under (hm : ¬s.Misjudged) (hmem : key ∈ s.keys) :
    (s.under key).base = (child key s.base).or (absent key) := by
  have hnone (h : s.record = .obj true []) :
      (s.under key).base = (child key s.base).or (absent key) := by
    show sees key s.record = _
    rw [h, sees_obj, ← own_record, h, Value.own_obj]
  rcases hs.base with h | ⟨b, h, hjson⟩
  · rcases hs.stands with hgone | ⟨name, hgone⟩
    · exact hnone (by rw [record, h, hgone]; rfl)
    · by_cases hname : name = dunderProto
      · -- of `Object.prototype` the loop reads no `__proto__`
        subst hname
        have hbase : s.base = some (.inherited dunderProto) := h.trans hgone
        have hrecord : s.record = .inherited dunderProto := by rw [record, hbase]; rfl
        have hkey : key ≠ dunderProto := by
          rintro rfl
          rw [mem_keys, hbase] at hmem
          exact hm (.inr (.inr ⟨⟨hun.1, hun.2.1⟩, .inr ⟨hrec, hbase,
            hmem.resolve_left fun hne => hne rfl⟩⟩))
        show sees key s.record = _
        rw [hrecord, hbase, sees, absent]
        by_cases hproto : key ∈ prototypeNames <;>
          simp [Value.hasKey, Value.read, hkey, hproto, child, Value.own]
      · refine hnone ?_
        rw [record, h, hgone]
        simp [recordOrEmpty, isRecord, Value.isObject, hname]
  · cases hrecb : isRecord b with
    | true =>
        obtain ⟨es, rfl⟩ := eq_obj_of_isJson hjson hrecb
        show sees key s.record = _
        rw [record, h, Option.getD_some, recordOrEmpty, if_pos hrecb, sees_obj]
        rfl
    | false =>
        refine hnone ?_
        rw [record, h, Option.getD_some, recordOrEmpty, if_neg (by simp [hrecb])]

/-- Where no key of `Object.prototype` is deleted, the place under a key is proper too. -/
theorem Proper.under (hm : ¬s.Misjudged) (hd : ¬s.DeletesInherited) (hmem : key ∈ s.keys) :
    (s.under key).Proper (absent key) := by
  have hbase := hs.base_under hun hrec hm hmem
  obtain ⟨le, re, hl, hr, hljson, hrjson⟩ := hs.records hun hrec
  have hthere {v : Value} (hv : v.IsJson) (hown : v.own key ≠ none) :
      (v.own key).or (absent key) ≠ absent key := by
    intro h
    have hnone := congrArg ownOf h
    rw [ownOf_child_or hv, ownOf_absent] at hnone
    exact hown hnone
  refine ⟨?_, hbase ▸ hs.base.under hs.stands key, ?_, ?_, fun hgone => ?_⟩
  · rw [absent]
    split
    · exact .inr ⟨key, rfl⟩
    · exact .inl rfl
  · rw [loc_under hl]
    exact hs.loc.under hs.stands key
  · rw [remote_under hr]
    exact hs.remote.under hs.stands key
  have hproto : key ∈ prototypeNames := by
    by_contra hnot
    exact hgone (if_neg hnot)
  rw [hbase, loc_under hl, remote_under hr, hl, hr]
  by_cases hown : child key s.base = none
  · -- an added key
    rw [mem_keys, hl, hr] at hmem
    refine .inl ⟨by rw [hown, Option.none_or], ?_⟩
    exact (hmem.resolve_left (not_not.mpr hown)).imp (hthere hljson) (hthere hrjson)
  · refine .inr ⟨hthere hljson fun h => ?_, hthere hrjson fun h => ?_⟩
    · exact hd ⟨hun, hrec, key, hproto, hown, .inl (by rw [hl]; exact h)⟩
    · exact hd ⟨hun, hrec, key, hproto, hown, .inr (by rw [hr]; exact h)⟩

end Proper

end Sides

namespace Sides

theorem baseline_cases (s : Sides) : s.baseline = s.base ∨ s.base = none ∧
    s.baseline = some (.obj true []) ∧ s.Records := by
  obtain ⟨base, loc, remote⟩ := s
  cases base with
  | some b => exact .inl rfl
  | none =>
      cases loc with
      | none => exact .inl rfl
      | some l =>
          cases remote with
          | none => exact .inl rfl
          | some r =>
              by_cases hrec : isRecord l = true ∧ isRecord r = true
              · refine .inr ⟨rfl, by simp [baseline, hrec], ?_⟩
                exact ⟨isRecord_some.mpr hrec.1, isRecord_some.mpr hrec.2⟩
              · exact .inl (by simpa [baseline] using hrec)

/-- Under a key of the loop is what the loop made of it. -/
theorem child_merge {s : Sides} (h : s.merge =
      (some (.obj false (s.keys.filterMap fun key => (s.under key).merge.1.map (key, ·))),
        s.keys.any fun key => (s.under key).merge.2)) (key : JsString) :
    (key ∈ s.keys → child key s.merge.1 = (s.under key).merge.1) ∧
      (key ∉ s.keys → child key s.merge.1 = none) := by
  have hget := Assoc.get_filterMap s.keys (fun key => (s.under key).merge.1) key
  rw [h]
  exact ⟨fun hmem => hget.trans (if_pos hmem), fun hnot => hget.trans (if_neg hnot)⟩

/-- What the loop makes is whole where everything under its keys is. -/
theorem whole_merge {s : Sides} (h : s.merge =
      (some (.obj false (s.keys.filterMap fun key => (s.under key).merge.1.map (key, ·))),
        s.keys.any fun key => (s.under key).merge.2))
    (hkeys : ∀ key ∈ s.keys, ∀ v, (s.under key).merge.1 = some v → Whole v) :
    ∀ v, s.merge.1 = some v → Whole v := by
  rw [h]
  rintro v hv
  obtain rfl := Option.some.inj hv
  refine .obj trivial (Assoc.wf_filterMap (nodup_mergeKeys _ _ _) _) (fun _ _ => trivial) ?_
  rintro ⟨key, w⟩ he
  obtain ⟨k, hmem, hw⟩ := List.mem_filterMap.mp he
  obtain ⟨w', hw', heq⟩ := Option.map_eq_some_iff.mp hw
  obtain ⟨rfl, rfl⟩ := Prod.mk.inj heq
  exact hkeys k hmem w' hw'

section Settle

variable {gone : Option Value} {s : Sides} (hs : s.Proper gone)
include hs

theorem Proper.settles_base {v : Option Value} (hv : v = s.loc ∨ v = s.remote)
    (h : Settles (ownOf s.baseline) (ownOf s.loc) (ownOf s.remote) v) :
    Settles (ownOf s.base) (ownOf s.loc) (ownOf s.remote) v := by
  rcases s.baseline_cases with heq | ⟨hnone, heq, ⟨l, hl, hlrec⟩, ⟨r, hr, hrrec⟩⟩
  · rwa [heq] at h
  · have hgone : gone = none := by
      rcases hs.base with hb | ⟨b, hb, -⟩
      · exact hb.symm.trans hnone
      · rw [hnone] at hb
        cases hb
    have hown {u : Option Value} (hu : Kin gone u) : ownOf u = u :=
      (hu.own hs.stands fun hne => absurd hgone hne).1
    rw [heq, hown hs.loc, hown hs.remote, hl, hr] at h
    rw [hnone, hown hs.loc, hown hs.remote, hl, hr]
    rcases hv with rfl | rfl
    · rw [hl] at h ⊢
      exact h.of_empty hlrec hrrec hlrec
    · rw [hr] at h ⊢
      exact h.of_empty hlrec hrrec hrrec

/-- A side that is as the baseline leaves what the other side has. -/
theorem Proper.ne_gone {u v : Option Value} (hu : Kin gone u)
    (hkept : gone ≠ none → s.base = gone ∧ (u ≠ gone ∨ v ≠ gone) ∨ u ≠ gone ∧ v ≠ gone)
    (hsame : Same (ownOf u) (ownOf s.baseline)) (hne : gone ≠ none) : v ≠ gone := by
  rcases hkept hne with ⟨hbase, hown | hown⟩ | ⟨-, hv⟩
  · -- the baseline has nothing here, and so has that side
    obtain ⟨name, hname⟩ := hs.stands.resolve_left hne
    rw [baseline_of_base (hbase.trans hname)] at hsame
    exact absurd ((hu.ownOf_eq_none_iff hs.stands).mp (hsame.eq_none_iff.mpr rfl)) hown
  · exact hown
  · exact hv

/-- Sides that are the same are there, where the key is one that `Object.prototype` has. -/
theorem Proper.loc_ne_gone (hsame : Same (ownOf s.loc) (ownOf s.remote)) (hne : gone ≠ none) :
    s.loc ≠ gone := by
  have hiff : s.loc = gone ↔ s.remote = gone := by
    rw [← hs.loc.ownOf_eq_none_iff hs.stands, ← hs.remote.ownOf_eq_none_iff hs.stands]
    exact hsame.eq_none_iff
  rcases hs.kept hne with ⟨-, hown | hown⟩ | ⟨hown, -⟩
  · exact hown
  · exact fun h => hown (hiff.mp h)
  · exact hown

/-- Without a conflict and a deleted key of `Object.prototype`, the merged value has the changes
of both sides. -/
theorem Proper.settles (hm : ¬s.Misjudges) (hc : ¬s.Conflicts) (hd : ¬s.Deletes) :
    Settles (ownOf s.base) (ownOf s.loc) (ownOf s.remote) s.merge.1 ∧
      ∀ v, s.merge.1 = some v → Whole v := by
  induction hn : s.loc.elim 0 Value.depth using Nat.strong_induction_on generalizing s gone with
  | _ n ih =>
      have hroot : ¬s.Misjudged := fun h => hm (.here h)
      cases s.merged with
      | loc_unchanged h heq =>
          -- only the other side changed: its value is taken as it is
          have hsame : Same (ownOf s.loc) (ownOf s.baseline) := by
            by_contra hne
            exact hroot (.inl ⟨h, hne⟩)
          obtain ⟨hown, hwhole⟩ := hs.remote.own hs.stands (hs.ne_gone hs.loc hs.kept hsame)
          rw [heq]
          refine ⟨hs.settles_base (.inr rfl) ?_, hwhole⟩
          rw [hown]
          exact settles_of_local_unchanged hsame
      | remote_unchanged h heq =>
          have hsame : Same (ownOf s.remote) (ownOf s.baseline) := by
            by_contra hne
            exact hroot (.inr (.inl ⟨h, hne⟩))
          obtain ⟨hown, hwhole⟩ := hs.loc.own hs.stands (hs.ne_gone hs.remote
            (fun hne => (hs.kept hne).imp (And.imp_right Or.symm) And.symm) hsame)
          rw [heq]
          refine ⟨hs.settles_base (.inl rfl) ?_, hwhole⟩
          rw [hown]
          exact settles_of_remote_unchanged hsame
      | both_same hlb hrb h heq =>
          have hsame : Same (ownOf s.loc) (ownOf s.remote) := by
            by_contra hne
            exact hroot (.inr (.inr ⟨⟨hlb, hrb⟩, .inl ⟨.inl h, hne⟩⟩))
          obtain ⟨hown, hwhole⟩ := hs.loc.own hs.stands (hs.loc_ne_gone hsame)
          rw [heq]
          refine ⟨?_, hwhole⟩
          rw [hown] at hsame ⊢
          exact settles_of_both_same hsame
      | conflict hun hrec heq => exact absurd (.here ⟨hun, hrec⟩) hc
      | records hun hrec heq =>
          -- the merge goes down: what settles under each key settles the records
          obtain ⟨le, re, hl, hr, hljson, hrjson⟩ := hs.records hun hrec
          have hkey (key : JsString) (hmem : key ∈ s.keys) :
              Settles (child key s.base) (child key s.loc) (child key s.remote)
                  (s.under key).merge.1 ∧ ∀ v, (s.under key).merge.1 = some v → Whole v := by
            have hbase := hs.base_under hun hrec hroot hmem
            have hset := ih _ ?_ (hs.under hun hrec hroot (fun h => hd (.here h)) hmem)
              (fun h => hm (.under hun hrec hmem h)) (fun h => hc (.under hun hrec hmem h))
              (fun h => hd (.under hun hrec hmem h)) rfl
            · rwa [hbase, loc_under hl, remote_under hr, hs.base.ownOf_under hs.stands,
                hs.loc.ownOf_under hs.stands, hs.remote.ownOf_under hs.stands] at hset
            · exact hn ▸ depth_under hrec key
          refine ⟨?_, whole_merge heq fun key hmem => (hkey key hmem).2⟩
          have hvalue := child_merge heq
          rw [heq] at hvalue ⊢
          rw [hl, hr]
          refine settles_of_children rfl rfl rfl fun key => ?_
          by_cases hmem : key ∈ s.keys
          · have hset := (hkey key hmem).1
            rw [hl, hr] at hset
            rwa [(hvalue key).1 hmem, child_ownOf]
          · -- none of the three has the key, and it is not in the result
            rw [(hvalue key).2 hmem]
            rw [mem_keys, hl, hr] at hmem
            simp only [ne_eq, not_or, not_not] at hmem
            rw [child_ownOf, hmem.1, hmem.2.1, hmem.2.2]
            exact settles_of_both_same rfl

end Settle

end Sides

/-! ## Values without an own `__proto__` -/

/-- On such values the comparison is right. -/
theorem same_of_jsonEqual {v w : Value} (hv : Tame v) (hw : Tame w) (h : jsonEqual v w = true) :
    Same (some v) (some w) := by
  funext path
  induction path generalizing v w with
  | nil =>
      show some (form v) = some (form w)
      cases hv <;> cases hw <;>
        simp_all [jsonEqual, Value.strictEq, form, isRecord, Value.isObject]
  | cons step path ih =>
      show content (access step v) path = content (access step w) path
      cases step with
      | key key =>
          have hchild : SameValue (v.own key) (w.own key) :=
            SameValue.child (v := some v) (w := some w) (tameOpt_some.mpr hv)
              (tameOpt_some.mpr hw) h key
          rw [access, access]
          cases hvk : v.own key with
          | none =>
              cases hwk : w.own key with
              | none => rfl
              | some d =>
                  rw [hvk, hwk] at hchild
                  exact hchild.elim
          | some c =>
              cases hwk : w.own key with
              | none =>
                  rw [hvk, hwk] at hchild
                  exact hchild.elim
              | some d =>
                  rw [hvk, hwk] at hchild
                  exact ih (hv.own hvk).2 (hw.own hwk).2 hchild
      | item i =>
          cases hv with
          | @arr items hitems =>
              cases hw with
              | @arr items' hitems' =>
                  obtain ⟨hlen, hsame⟩ := jsonEqual_arr_iff.mp h
                  rw [access, access]
                  by_cases hi : i < items.length
                  · have hi' : i < items'.length := hlen ▸ hi
                    rw [List.getElem?_eq_getElem hi, List.getElem?_eq_getElem hi']
                    exact ih (hitems _ (List.getElem_mem hi)) (hitems' _ (List.getElem_mem hi'))
                      (hsame i hi hi')
                  · rw [List.getElem?_eq_none (by omega), List.getElem?_eq_none (by omega)]
              | _ => simp [jsonEqual] at h
          | _ =>
              cases hw with
              | arr hitems' => simp [jsonEqual, Value.strictEq, isRecord, Value.isObject] at h
              | _ => rfl

/-- Nothing, such a value, or a function of `Object.prototype`. -/
def Mild (v : Option Value) : Prop :=
  ∀ w, v = some w → Plain w ∨ ∃ name, name ≠ dunderProto ∧ w = .inherited name

theorem Mild.same {v w : Option Value} (hv : Mild v) (hw : Mild w) (h : SameValue v w) :
    Same (ownOf v) (ownOf w) := by
  cases v with
  | none =>
      cases w with
      | none => rfl
      | some w => exact h.elim
  | some v =>
      cases w with
      | none => exact h.elim
      | some w =>
          rcases hv v rfl with hv | ⟨name, hname, rfl⟩ <;>
            rcases hw w rfl with hw | ⟨name', hname', rfl⟩
          · rw [Whole.ownOf (hv.mono (fun _ _ => trivial) fun _ _ => trivial),
              Whole.ownOf (hw.mono (fun _ _ => trivial) fun _ _ => trivial)]
            exact same_of_jsonEqual hv.tame hw.tame h
          · exact absurd h (by simp [SameValue, not_jsonEqual_inherited hv.tame hname'])
          · exact absurd h (by simp [SameValue, not_inherited_jsonEqual hw.tame hname])
          · rfl

theorem Mild.sees {v : Option Value} (h : Mild v) {key : JsString} (hkey : key ≠ dunderProto) :
    Mild (v.bind (sees key)) := by
  intro w hw
  obtain ⟨u, rfl, hu⟩ := Option.bind_eq_some_iff.mp hw
  rcases h u rfl with hplain | ⟨name, -, rfl⟩
  · cases hrec : isRecord u with
    | true =>
        obtain ⟨entries, rfl⟩ := hplain.eq_obj hrec
        rw [sees_obj] at hu
        cases hget : Assoc.get key entries with
        | some c =>
            rw [hget, Option.some_or, Option.some_inj] at hu
            exact .inl (hu ▸ (hplain.own hget).2)
        | none =>
            rw [hget, Option.none_or, absent] at hu
            split at hu
            · exact .inr ⟨key, hkey, (Option.some.inj hu).symm⟩
            · cases hu
    | false =>
        have hno : u.hasKey key = false := by
          cases hplain with
          | obj => cases hrec
          | _ => rfl
        rw [Structured.sees, hno, if_neg Bool.false_ne_true] at hu
        cases hu
  · rw [Structured.sees] at hu
    split at hu
    · next hhas =>
        have hmem : key ∈ prototypeNames := by simpa [Value.hasKey] using hhas
        refine .inr ⟨key, hkey, ?_⟩
        simpa [Value.read, hkey, hmem] using (Option.some.inj hu).symm
    · cases hu

theorem Mild.ne_dunderProto {v : Option Value} (h : Mild v) {key : JsString}
    (hown : child key v ≠ none) : key ≠ dunderProto := by
  obtain ⟨c, hc⟩ := Option.ne_none_iff_exists'.mp hown
  obtain ⟨w, rfl, hw⟩ := Option.bind_eq_some_iff.mp hc
  rcases h w rfl with hplain | ⟨name, -, rfl⟩
  · exact (hplain.own hw).1
  · cases hw

/-- Without an own `__proto__` no comparison errs. -/
theorem not_misjudges_of_mild {s : Sides} (hb : Mild s.base) (hl : Mild s.loc)
    (hr : Mild s.remote) : ¬s.Misjudges := by
  intro h
  induction h with
  | @here s h =>
      have hbase : Mild s.baseline := by
        rcases s.baseline_cases with heq | ⟨-, heq, -⟩
        · rwa [heq]
        · rw [heq]
          rintro w ⟨⟩
          exact .inl plain_empty
      rcases h with ⟨heq, hne⟩ | ⟨heq, hne⟩ | ⟨-, ⟨heq | heq, hne⟩ | ⟨-, hproto, -⟩⟩
      · exact hne (hl.same hbase heq)
      · exact hne (hr.same hbase heq)
      · exact hne (hl.same hr heq)
      · exact hne (hr.same hl heq).symm
      · rcases hb _ hproto with hplain | ⟨name, hname, heq⟩
        · cases hplain
        · exact hname (Value.inherited.inj heq).symm
  | @under s key _ _ hmem _ ih =>
      have hkey : key ≠ dunderProto := by
        rcases Sides.mem_keys.mp hmem with h | h | h
        · exact hb.ne_dunderProto h
        · exact hl.ne_dunderProto h
        · exact hr.ne_dunderProto h
      have hrecord : Mild (some s.record) := by
        rintro w ⟨⟩
        rw [Sides.record, recordOrEmpty]
        split
        · cases hbase : s.base with
          | none => exact .inl plain_empty
          | some b => exact hb b hbase
        · exact .inl plain_empty
      exact ih (hrecord.sees hkey) (hl.sees hkey) (hr.sees hkey)

/-! ## A deleted key of `Object.prototype` -/

namespace Sides

section Deleted

variable {gone : Option Value} {s : Sides} (hs : s.Proper gone)
include hs

/-- The key that a side deleted is in the merged value. -/
theorem Proper.child_merge_of_deleted {key : JsString} (hun : s.Unsettled) (hrec : s.Records)
    (hproto : key ∈ prototypeNames) (hbase : child key s.base ≠ none) :
    child key s.merge.1 ≠ none := by
  have hmem : key ∈ s.keys := mem_keys.mpr (.inl hbase)
  obtain ⟨le, re, hl, hr, -, -⟩ := hs.records hun hrec
  cases s.merged with
  | loc_unchanged h _ => exact absurd h hun.1
  | remote_unchanged h _ => exact absurd h hun.2.1
  | both_same _ _ h _ => exact absurd h hun.2.2
  | conflict _ hno _ => exact absurd hrec hno
  | records _ _ heq =>
      have hseen (v : Option Value) : ∃ w, v.or (absent key) = some w := by
        rw [absent, if_pos hproto]
        cases v with
        | none => exact ⟨_, rfl⟩
        | some v => exact ⟨v, rfl⟩
      obtain ⟨b, hb⟩ : ∃ b, (s.under key).base = some b := by
        obtain ⟨b, hb⟩ := Option.ne_none_iff_exists'.mp hbase
        rw [← own_record] at hb
        exact ⟨b, by
          rw [Sides.under, sees, Value.hasKey_of_own hb, Value.read_of_own hb, if_pos rfl]⟩
      obtain ⟨l, hl'⟩ := hseen (child key s.loc)
      obtain ⟨r, hr'⟩ := hseen (child key s.remote)
      rw [← loc_under hl] at hl'
      rw [← remote_under hr] at hr'
      rw [(child_merge heq key).1 hmem, merge, hb, hl', hr']
      exact Option.some_ne_none _

/-- Where a key of `Object.prototype` is deleted, the deletion is not in the merged value. -/
theorem Proper.loses_deletion (hm : ¬s.Misjudges) (hc : ¬s.Conflicts) (hd : s.Deletes) :
    ∃ path, view (ownOf s.base) path ≠ none ∧
      (view (ownOf s.loc) path = none ∨ view (ownOf s.remote) path = none) ∧
      view s.merge.1 path ≠ none := by
  have hhere {gone : Option Value} {t : Sides} (ht : t.Proper gone) (h : t.DeletesInherited) :
      ∃ path, view (ownOf t.base) path ≠ none ∧
        (view (ownOf t.loc) path = none ∨ view (ownOf t.remote) path = none) ∧
        view t.merge.1 path ≠ none := by
    obtain ⟨hun, hrec, key, hproto, hbase, hgone⟩ := h
    refine ⟨[key], ?_⟩
    simp only [view_cons, view_nil, child_ownOf]
    exact ⟨hbase, hgone, ht.child_merge_of_deleted hun hrec hproto hbase⟩
  induction hd generalizing gone with
  | here h => exact hhere hs h
  | @under s key hun hrec hmem _ ih =>
      by_cases hroot : s.DeletesInherited
      · exact hhere hs hroot
      have hm' : ¬s.Misjudged := fun h => hm (.here h)
      obtain ⟨le, re, hl, hr, -, -⟩ := hs.records hun hrec
      obtain ⟨path, hbase, hgone, hvalue⟩ := ih (hs.under hun hrec hm' hroot hmem)
        (fun h => hm (.under hun hrec hmem h)) fun h => hc (.under hun hrec hmem h)
      rw [hs.base_under hun hrec hm' hmem, hs.base.ownOf_under hs.stands] at hbase
      rw [loc_under hl, remote_under hr, hs.loc.ownOf_under hs.stands,
        hs.remote.ownOf_under hs.stands] at hgone
      refine ⟨key :: path, ?_⟩
      simp only [view_cons, child_ownOf]
      refine ⟨hbase, hgone, ?_⟩
      cases s.merged with
      | loc_unchanged h _ => exact absurd h hun.1
      | remote_unchanged h _ => exact absurd h hun.2.1
      | both_same _ _ h _ => exact absurd h hun.2.2
      | conflict _ hno _ => exact absurd hrec hno
      | records _ _ heq => rwa [(child_merge heq key).1 hmem]

end Deleted

end Sides

/-- A baseline without keys has none to delete. -/
theorem not_deletes_of_bare {s : Sides} (h : ∀ key, child key s.base = none) : ¬s.Deletes := by
  intro hd
  induction hd with
  | here hd =>
      obtain ⟨-, -, key, -, hbase, -⟩ := hd
      exact hbase (h key)
  | @under s key _ _ _ _ ih =>
      refine ih fun key' => ?_
      have hown : s.record.own key = none := (s.own_record key).trans (h key)
      show child key' (sees key s.record) = none
      rw [sees]
      split
      · show (s.record.read key).own key' = none
        cases hrecord : s.record with
        | obj i entries =>
            rw [hrecord, Value.own_obj] at hown
            rw [Value.read, hown]
            dsimp only
            split <;> rfl
        | inherited name =>
            rw [Value.read]
            split
            · rfl
            · split <;> rfl
        | _ => rfl
      · rfl

/-! ## Symmetry and losslessness -/

/-- The merge treats the two sides alike and, unless it reports a conflict, has
at every path the change either side made there. -/
structure SymmetricLossless (baseline loc remote : Value) : Prop where
  flags : (mergeStructuredStartupResult baseline loc remote).conflicted =
    (mergeStructuredStartupResult baseline remote loc).conflicted
  values : (mergeStructuredStartupResult baseline loc remote).conflicted = false →
    jsonEqual (mergeStructuredStartupResult baseline loc remote).value
      (mergeStructuredStartupResult baseline remote loc).value = true
  keeps_local : (mergeStructuredStartupResult baseline loc remote).conflicted = false →
    ∀ path, ¬Agree (loc.lookup path) (baseline.lookup path) →
      Agree ((mergeStructuredStartupResult baseline loc remote).value.lookup path)
        (loc.lookup path)
  keeps_remote : (mergeStructuredStartupResult baseline loc remote).conflicted = false →
    ∀ path, ¬Agree (remote.lookup path) (baseline.lookup path) →
      Agree ((mergeStructuredStartupResult baseline loc remote).value.lookup path)
        (remote.lookup path)

/-- What a call of the merge is given. -/
def sides (baseline loc remote : Value) : Sides := ⟨some baseline, some loc, some remote⟩

section

variable {b l r : Value} (hb : b.IsJson) (hl : l.IsJson) (hr : r.IsJson)

theorem conflicted_iff : (mergeStructuredStartupResult b l r).conflicted = true ↔
    (sides b l r).Conflicts :=
  (sides b l r).flagged_iff

include hb hl hr

theorem proper_sides : (sides b l r).Proper none where
  stands := .inl rfl
  base := .inr ⟨b, rfl, hb⟩
  loc := .inr ⟨l, rfl, hl⟩
  remote := .inr ⟨r, rfl, hr⟩
  kept h := absurd rfl h

/-- Without a conflict and a deleted key of `Object.prototype` the merge is as it should be. -/
theorem symmetricLossless_of_not_deletes (hm : ¬(sides b l r).Misjudges)
    (hc : ¬(sides b l r).Conflicts) (hd : ¬(sides b l r).Deletes) : SymmetricLossless b l r := by
  have hvl : Visible (sides b l r).loc := by
    rintro w ⟨⟩
    exact .inl (whole_of_isJson hl)
  have hvr : Visible (sides b l r).remote := by
    rintro w ⟨⟩
    exact .inl (whole_of_isJson hr)
  have hm' : ¬(sides b r l).Misjudges := Sides.not_misjudges_swap hvl hvr hm
  have hc' : ¬(sides b r l).Conflicts := fun h => hc (Sides.conflicts_of_swap hvl hvr hm h)
  have hd' : ¬(sides b r l).Deletes := fun h => hd (Sides.deletes_of_swap hvl hvr hm h)
  have hflag := Bool.eq_false_iff.mpr (mt conflicted_iff.mp hc)
  have hflag' := Bool.eq_false_iff.mpr (mt conflicted_iff.mp hc')
  obtain ⟨hset, hwhole⟩ := (proper_sides hb hl hr).settles hm hc hd
  obtain ⟨hset', hwhole'⟩ := (proper_sides hb hr hl).settles hm' hc' hd'
  have hown {v : Value} (hv : v.IsJson) : ownOf (some v) = some v := (whole_of_isJson hv).ownOf
  simp only [sides, hown hb, hown hl, hown hr] at hset hset'
  exact ⟨hflag.trans hflag'.symm,
    fun _ => jsonEqual_of_same (hwhole _ rfl) (hwhole' _ rfl) (hset.same hset'),
    fun _ => hset.local_changes, fun _ => hset.remote_changes⟩

theorem not_deletes_of_symmetricLossless (hm : ¬(sides b l r).Misjudges)
    (hc : ¬(sides b l r).Conflicts) (h : SymmetricLossless b l r) : ¬(sides b l r).Deletes := by
  intro hd
  have hflag := Bool.eq_false_iff.mpr (mt conflicted_iff.mp hc)
  have hown {v : Value} (hv : v.IsJson) : ownOf (some v) = some v := (whole_of_isJson hv).ownOf
  obtain ⟨path, hbase, hgone, hvalue⟩ := (proper_sides hb hl hr).loses_deletion hm hc hd
  simp only [sides, hown hb, hown hl, hown hr] at hbase hgone
  -- nothing agrees with nothing only
  have hagree {v w : Option Value} (hv : v ≠ none) (hw : w = none) : ¬Agree w v := by
    rintro h
    rw [hw] at h
    exact hv (Option.map_eq_none_iff.mp h.symm)
  rcases hgone with hno | hno
  · exact hagree hvalue hno (h.keeps_local hflag path (hagree hbase hno)).symm
  · exact hagree hvalue hno (h.keeps_remote hflag path (hagree hbase hno)).symm

end

/-- The merge is symmetric and lossless exactly when both orders of the sides conflict, or neither
does and no deleted key of `Object.prototype` is met. Where neither conflicts, no comparison may
err. -/
theorem symmetricLossless_iff (baseline loc remote : JsonValue)
    (h : (sides baseline.1 loc.1 remote.1).Conflicts ∨
      (sides baseline.1 remote.1 loc.1).Conflicts ∨
      ¬(sides baseline.1 loc.1 remote.1).Misjudges) :
    SymmetricLossless baseline.1 loc.1 remote.1 ↔
      ((sides baseline.1 loc.1 remote.1).Conflicts ∧ (sides baseline.1 remote.1 loc.1).Conflicts) ∨
      (¬(sides baseline.1 loc.1 remote.1).Conflicts ∧
        ¬(sides baseline.1 remote.1 loc.1).Conflicts ∧
        ¬(sides baseline.1 loc.1 remote.1).Deletes) := by
  have hb := baseline.2
  have hl := loc.2
  have hr := remote.2
  by_cases hc : (sides baseline.1 loc.1 remote.1).Conflicts
  · have hflag := conflicted_iff.mpr hc
    constructor
    · intro hlossless
      exact .inl ⟨hc, conflicted_iff.mp (hlossless.flags.symm.trans hflag)⟩
    · rintro (⟨-, hc'⟩ | ⟨hno, -⟩)
      · have hquiet {p : Prop} (hno : (mergeStructuredStartupResult baseline.1 loc.1
            remote.1).conflicted = false) : p := by
          rw [hflag] at hno
          cases hno
        exact ⟨hflag.trans (conflicted_iff.mpr hc').symm, hquiet, hquiet, hquiet⟩
      · exact absurd hc hno
  · by_cases hc' : (sides baseline.1 remote.1 loc.1).Conflicts
    · refine iff_of_false (fun hlossless => hc ?_) ?_
      · exact conflicted_iff.mp (hlossless.flags.trans (conflicted_iff.mpr hc'))
      · rintro (⟨h, -⟩ | ⟨-, h, -⟩)
        · exact hc h
        · exact h hc'
    · have hm : ¬(sides baseline.1 loc.1 remote.1).Misjudges :=
        (h.resolve_left hc).resolve_left hc'
      constructor
      · intro hlossless
        exact .inr ⟨hc, hc', not_deletes_of_symmetricLossless hb hl hr hm hc hlossless⟩
      · rintro (⟨h, -⟩ | ⟨-, -, hd⟩)
        · exact absurd h hc
        · exact symmetricLossless_of_not_deletes hb hl hr hm hc hd

/-- `{}` merged with `{"constructor": true}` and `{"a": true}`. -/
theorem symmetricLossless_iff_added_constructor :
    SymmetricLossless (.obj true []) (.obj true [(ascii "constructor", .bool true)])
      (.obj true [(ascii "a", .bool true)]) := by
  have hplain (key : JsString) (hkey : key ≠ dunderProto) :
      Plain (.obj true [(key, .bool true)]) :=
    .obj rfl (by simp [Assoc.Wf]) (by simpa using hkey) (by simpa using .bool true)
  have hjson {v : Value} (h : Plain v) : v.IsJson := h.mono (fun _ h => h) fun _ _ => trivial
  have hmild {v : Value} (h : Plain v) : Mild (some v) := by
    rintro w ⟨⟩
    exact .inl h
  have hl := hplain (ascii "constructor") (by decide)
  have hr := hplain (ascii "a") (by decide)
  refine (symmetricLossless_iff ⟨_, hjson plain_empty⟩ ⟨_, hjson hl⟩ ⟨_, hjson hr⟩
    (.inr (.inr (not_misjudges_of_mild (hmild plain_empty) (hmild hl) (hmild hr))))).mpr
    (.inr ⟨?_, ?_, not_deletes_of_bare fun _ => rfl⟩)
  · exact fun h => Bool.false_ne_true (conflicted_iff.mpr h)
  · exact fun h => Bool.false_ne_true (conflicted_iff.mpr h)

/-- `{"constructor": true, "a": true}`, with `constructor` deleted locally and
`a` changed remotely: the deletion is lost, without a conflict. -/
theorem not_symmetricLossless_deleted_constructor :
    ¬∀ baseline loc remote : JsonValue, SymmetricLossless baseline.1 loc.1 remote.1 := by
  intro h
  let baseline : Value := .obj true [(ascii "constructor", .bool true), (ascii "a", .bool true)]
  let loc : Value := .obj true [(ascii "a", .bool true)]
  let remote : Value := .obj true [(ascii "constructor", .bool true), (ascii "a", .bool false)]
  have hobj : ∀ a : Bool, Value.IsJson
      (.obj true [(ascii "constructor", .bool true), (ascii "a", .bool a)]) := by
    intro a
    have hkeys : [ascii "constructor", ascii "a"].Nodup := by decide
    refine .obj rfl hkeys (by simp) ?_
    rintro e he
    fin_cases he <;> exact .bool _
  have hloc : loc.IsJson := .obj rfl (List.nodup_singleton _) (by simp) (by simpa using .bool true)
  have hlossless := h ⟨baseline, hobj true⟩ ⟨loc, hloc⟩ ⟨remote, hobj false⟩
  have hflag : (mergeStructuredStartupResult baseline loc remote).conflicted = false := rfl
  have hvalue : (mergeStructuredStartupResult baseline loc remote).value.lookup
      [ascii "constructor"] = some (.inherited (ascii "constructor")) := rfl
  have hkept := hlossless.keeps_local hflag [ascii "constructor"]
  have hgone : loc.lookup [ascii "constructor"] = none := rfl
  have hbase : baseline.lookup [ascii "constructor"] = some (.bool true) := rfl
  have hnone {v : Value} : ¬Agree none (some v) := by
    rintro ⟨⟩
  rw [hvalue, hgone, hbase] at hkept
  exact hnone (hkept hnone).symm

end Realtime.Structured
