import Realtime.Structured.Json

/-!
# Three-way merge of structured documents

`mergeStructuredStartupResult` of `src/structured/reconcile.ts`: apply the local
changes made from a baseline and retain the remote ones.

The loop asks `key in local` and the like, which is also true of the keys
`Object.prototype` has. A key of that kind which a side deleted is therefore
still there for the merge, with an inherited function as its value, and the
function ends up in the result.
-/

namespace Realtime.Structured

open Lib Lib.Js Lib.Utf16

structure StructuredMergeResult where
  value : Value
  conflicted : Bool

/-- One turn of the loop over the keys: what `merged[key]` is set to, if
anything, and whether the key is in conflict. -/
def mergeKey (recurse : Value → Value → Value → StructuredMergeResult)
    (base loc remote : Value) (key : JsString) : Option Value × Bool :=
  let baseHas := base.hasKey key
  let localHas := loc.hasKey key
  let remoteHas := remote.hasKey key
  if !localHas then
    if !baseHas then
      (if remoteHas then some (remote.read key) else none, false)
    else if !remoteHas then (none, false)
    -- deleted locally: keep a concurrent remote edit
    else if !jsonEqual (remote.read key) (base.read key) then (some (remote.read key), true)
    else (none, false)
  else if !remoteHas then
    if !baseHas || !jsonEqual (loc.read key) (base.read key) then
      (some (loc.read key), baseHas)
    else (none, false)
  else if !baseHas then
    if isRecord (loc.read key) && isRecord (remote.read key) then
      let child := recurse (.obj true []) (loc.read key) (remote.read key)
      (some child.value, child.conflicted)
    else (some (loc.read key), !jsonEqual (loc.read key) (remote.read key))
  else
    let child := recurse (base.read key) (loc.read key) (remote.read key)
    (some child.value, child.conflicted)

/-- `isRecord(baseline) ? baseline : {}` -/
def recordOrEmpty (baseline : Value) : Value :=
  if isRecord baseline then baseline else .obj true []

/-- The keys of the three records, each once. -/
def mergeKeys (base loc remote : Value) : List JsString :=
  (base.ownKeys ++ loc.ownKeys ++ remote.ownKeys).eraseDups

/-- The body of the merge. `merged` has no prototype. -/
def mergeStep (recurse : Value → Value → Value → StructuredMergeResult)
    (baseline loc remote : Value) : StructuredMergeResult :=
  if jsonEqual loc baseline then ⟨remote, false⟩
  else if jsonEqual remote baseline || jsonEqual loc remote then ⟨loc, false⟩
  else if !isRecord loc || !isRecord remote then ⟨loc, true⟩
  else
    let base := recordOrEmpty baseline
    let keys := mergeKeys base loc remote
    let merged := keys.filterMap fun key =>
      (mergeKey recurse base loc remote key).1.map fun value => (key, value)
    ⟨.obj false merged, keys.any fun key => (mergeKey recurse base loc remote key).2⟩

/-- The merge with a bound on the recursion. -/
def mergeFuel : Nat → Value → Value → Value → StructuredMergeResult
  | 0, _, loc, _ => ⟨loc, true⟩
  | fuel + 1, baseline, loc, remote => mergeStep (mergeFuel fuel) baseline loc remote

/-- Every recursive call reads a property of `local`, so its depth is a bound
that is never reached (`mergeStructuredStartupResult_eq`). -/
def mergeStructuredStartupResult (baseline loc remote : Value) : StructuredMergeResult :=
  mergeFuel (loc.depth + 1) baseline loc remote

theorem mergeStep_congr {f g : Value → Value → Value → StructuredMergeResult}
    {baseline loc remote : Value}
    (h : isRecord loc = true → ∀ key b r, f b (loc.read key) r = g b (loc.read key) r) :
    mergeStep f baseline loc remote = mergeStep g baseline loc remote := by
  unfold mergeStep
  by_cases hrec : isRecord loc = true
  · have hkey : ∀ key, mergeKey f (recordOrEmpty baseline) loc remote key =
        mergeKey g (recordOrEmpty baseline) loc remote key := by
      intro key
      simp only [mergeKey, h hrec key]
    simp only [hkey]
  · simp [hrec]

theorem mergeFuel_eq {n m : Nat} {baseline loc remote : Value} (hn : loc.depth < n)
    (hm : loc.depth < m) : mergeFuel n baseline loc remote = mergeFuel m baseline loc remote := by
  induction n generalizing m baseline loc remote with
  | zero => omega
  | succ n ih =>
      cases m with
      | zero => omega
      | succ m =>
          apply mergeStep_congr
          intro hrec key b r
          have hlt := Value.depth_read_lt key hrec
          exact ih (by omega) (by omega)

/-- The merge satisfies its own recursion. -/
theorem mergeStructuredStartupResult_eq (baseline loc remote : Value) :
    mergeStructuredStartupResult baseline loc remote =
      mergeStep mergeStructuredStartupResult baseline loc remote := by
  apply mergeStep_congr
  intro hrec key b r
  exact mergeFuel_eq (Value.depth_read_lt key hrec) (Nat.lt_succ_self _)

/-- How a merge comes out: a side that equals the baseline gives way to the other, equal sides
are either of them, two records are merged key by key, and all else is a conflict. -/
theorem mergeStructuredStartupResult_cases (b l r : Value) :
    (jsonEqual l b = true ∧ mergeStructuredStartupResult b l r = ⟨r, false⟩) ∨
    (jsonEqual r b = true ∧ mergeStructuredStartupResult b l r = ⟨l, false⟩) ∨
    ((jsonEqual l b = false ∧ jsonEqual r b = false) ∧ jsonEqual l r = true ∧
      mergeStructuredStartupResult b l r = ⟨l, false⟩) ∨
    ((jsonEqual l b = false ∧ jsonEqual r b = false ∧ jsonEqual l r = false) ∧
      ¬(isRecord l = true ∧ isRecord r = true) ∧
      mergeStructuredStartupResult b l r = ⟨l, true⟩) ∨
    ((jsonEqual l b = false ∧ jsonEqual r b = false ∧ jsonEqual l r = false) ∧
      (isRecord l = true ∧ isRecord r = true) ∧
      mergeStructuredStartupResult b l r =
        let key := mergeKey mergeStructuredStartupResult (recordOrEmpty b) l r
        let keys := mergeKeys (recordOrEmpty b) l r
        ⟨.obj false (keys.filterMap fun k => (key k).1.map fun v => (k, v)),
          keys.any fun k => (key k).2⟩) := by
  rw [mergeStructuredStartupResult_eq, mergeStep]
  cases hlb : jsonEqual l b with
  | true => exact .inl ⟨rfl, if_pos rfl⟩
  | false =>
  rw [if_neg Bool.false_ne_true]
  cases hrb : jsonEqual r b with
  | true => exact .inr (.inl ⟨rfl, if_pos rfl⟩)
  | false =>
  cases hlr : jsonEqual l r with
  | true => exact .inr (.inr (.inl ⟨⟨rfl, rfl⟩, rfl, if_pos rfl⟩))
  | false =>
  rw [Bool.or_self, if_neg Bool.false_ne_true]
  by_cases hrec : isRecord l = true ∧ isRecord r = true
  · refine .inr (.inr (.inr (.inr ⟨⟨rfl, rfl, rfl⟩, hrec, ?_⟩)))
    rw [if_neg (by simp [hrec.1, hrec.2])]
  · refine .inr (.inr (.inr (.inl ⟨⟨rfl, rfl, rfl⟩, hrec, if_pos ?_⟩)))
    rw [not_and_or] at hrec
    simpa using hrec

/-! ## Paths and changes -/

/-- The value at a path below a possibly absent value. -/
def view (v : Option Value) (path : List JsString) : Option Value :=
  v.bind fun v => v.lookup path

/-- Both absent, both records, or equal values that are not records. -/
def SameShape : Option Value → Option Value → Prop
  | none, none => True
  | some left, some right =>
      (isRecord left = true ∧ isRecord right = true) ∨
      (isRecord left = false ∧ isRecord right = false ∧ jsonEqual left right = true)
  | _, _ => False

def IsRecord (v : Option Value) : Prop := ∃ r, v = some r ∧ isRecord r = true

/-- The two sides hold different values where the baseline holds a third. -/
def Unsettled (base loc remote : Option Value) : Prop :=
  ¬SameValue loc base ∧ ¬SameValue remote base ∧ ¬SameValue loc remote

/-- Where two changed records meet, neither side has deleted a key that
`Object.prototype` has. -/
def KeepsInherited (base loc remote : Option Value) : Prop :=
  ∀ path b l r, view base path = some b → view loc path = some l → view remote path = some r →
    isRecord l = true → isRecord r = true → Unsettled (some b) (some l) (some r) →
    ∀ key ∈ prototypeNames, key ∈ b.ownKeys → key ∈ l.ownKeys ∧ key ∈ r.ownKeys

/-- The property `key` of a possibly absent value. -/
def child (key : JsString) (v : Option Value) : Option Value := v.bind fun v => v.own key

@[simp] theorem view_nil (v : Option Value) : view v [] = v := by
  cases v <;> rfl

theorem view_cons (v : Option Value) (key : JsString) (path : List JsString) :
    view v (key :: path) = view (child key v) path := by
  cases v with
  | none => rfl
  | some v => simp [view, child, Value.lookup_cons]

theorem KeepsInherited.child {base loc remote : Option Value}
    (h : KeepsInherited base loc remote) (key : JsString) :
    KeepsInherited (child key base) (child key loc) (child key remote) := by
  intro path b l r hb hl hr
  rw [← view_cons] at hb hl hr
  exact h (key :: path) b l r hb hl hr

/-- An empty baseline has no key to delete. -/
theorem keepsInherited_empty (loc remote : Option Value) :
    KeepsInherited (some (.obj true [])) loc remote := by
  intro path b l r hb _ _ _ _ _ key _ hmem
  cases path with
  | nil =>
      obtain rfl := Option.some.inj hb
      simp [Value.ownKeys] at hmem
  | cons k path => simp [view, Value.lookup_cons, Value.own] at hb

/-! ## Equality of possibly absent values -/

/-- Absent, or a JSON value without a `__proto__` key. -/
def TameOpt (v : Option Value) : Prop := ∀ w, v = some w → Tame w

theorem tameOpt_some {v : Value} : TameOpt (some v) ↔ Tame v := by
  simp [TameOpt]

theorem TameOpt.child {v : Option Value} (h : TameOpt v) (key : JsString) :
    TameOpt (child key v) := by
  intro w hw
  obtain ⟨u, rfl, hu⟩ := Option.bind_eq_some_iff.mp hw
  exact ((h u rfl).own hu).2

theorem TameOpt.view {v : Option Value} (h : TameOpt v) (path : List JsString) :
    TameOpt (view v path) := by
  induction path generalizing v with
  | nil => simpa using h
  | cons key path ih =>
      rw [view_cons]
      exact ih (h.child key)

theorem sameValue_refl {v : Option Value} (hv : TameOpt v) : SameValue v v := by
  cases v with
  | none => trivial
  | some v => exact jsonEqual_refl (hv v rfl)

theorem SameValue.child {v w : Option Value} (hv : TameOpt v) (hw : TameOpt w)
    (h : SameValue v w) (key : JsString) : SameValue (child key v) (child key w) := by
  cases v with
  | none =>
      cases w with
      | none => trivial
      | some w => exact h.elim
  | some v =>
      cases w with
      | none => exact h.elim
      | some w =>
          have hrec := isRecord_eq_of_jsonEqual (hv v rfl) (hw w rfl) h
          show SameValue (v.own key) (w.own key)
          cases hv' : isRecord v with
          | false =>
              rw [own_of_not_isRecord hv', own_of_not_isRecord (hrec ▸ hv')]
              trivial
          | true =>
              obtain ⟨i, left, rfl⟩ := (hv v rfl).eq_obj hv'
              obtain ⟨j, right, rfl⟩ := (hw w rfl).eq_obj (hrec ▸ hv')
              exact (jsonEqual_obj_iff (hv _ rfl) (hw _ rfl)).mp h key

theorem SameValue.view {v w : Option Value} (hv : TameOpt v) (hw : TameOpt w)
    (h : SameValue v w) (path : List JsString) : SameValue (view v path) (view w path) := by
  induction path generalizing v w with
  | nil => simpa using h
  | cons key path ih =>
      rw [view_cons, view_cons]
      exact ih (hv.child key) (hw.child key) (h.child hv hw key)

theorem SameValue.sameShape {v w : Option Value} (hv : TameOpt v) (hw : TameOpt w)
    (h : SameValue v w) : SameShape v w := by
  cases v with
  | none =>
      cases w with
      | none => trivial
      | some w => exact h.elim
  | some v =>
      cases w with
      | none => exact h.elim
      | some w =>
          have hrec := isRecord_eq_of_jsonEqual (hv v rfl) (hw w rfl) h
          cases hv' : isRecord v with
          | true => exact .inl ⟨hv', hrec ▸ hv'⟩
          | false => exact .inr ⟨hv', hrec ▸ hv', h⟩

theorem sameShape_refl {v : Option Value} (hv : TameOpt v) : SameShape v v :=
  (sameValue_refl hv).sameShape hv hv

theorem isRecord_some {v : Value} : IsRecord (some v) ↔ isRecord v = true := by
  simp [IsRecord]

theorem not_isRecord_none : ¬IsRecord none := by
  rintro ⟨v, h, -⟩
  cases h

/-! ## The operands of the recursion -/

/-- What `JSON.parse` returns, without a `__proto__` key. -/
def Plain (v : Value) : Prop := Value.Built (· = true) (· ≠ dunderProto) v

theorem Plain.tame {v : Value} (h : Plain v) : Tame v := h.mono (fun _ _ => trivial) fun _ h => h

theorem Plain.eq_obj {v : Value} (h : Plain v) (hrec : isRecord v = true) :
    ∃ entries, v = .obj true entries := by
  obtain ⟨i, entries, rfl⟩ := h.tame.eq_obj hrec
  obtain rfl : i = true := h.obj_inv.1
  exact ⟨entries, rfl⟩

theorem Plain.own {v child : Value} {key : JsString} (h : Plain v) (hown : v.own key = some child) :
    key ≠ dunderProto ∧ Plain child :=
  Value.Built.own h hown

theorem plain_empty : Plain (.obj true []) := .obj rfl Assoc.wf_nil (by simp) (by simp)

/-- The baseline of a call: a JSON value, or what `base[key]` gives for an
inherited key, which stands for no value. -/
inductive Baseline : Value → Option Value → Prop
  | json {v : Value} : Plain v → Baseline v (some v)
  | inherited {name : JsString} : name ≠ dunderProto → Baseline (.inherited name) none

namespace Baseline

variable {b : Value} {ob : Option Value}

theorem tame (h : Baseline b ob) : TameOpt ob := by
  cases h with
  | json h => exact tameOpt_some.mpr h.tame
  | inherited => simp [TameOpt]

theorem jsonEqual_iff (h : Baseline b ob) {v : Value} (hv : Plain v) :
    jsonEqual v b = true ↔ SameValue (some v) ob := by
  cases h with
  | json _ => rfl
  | inherited hname => simp [SameValue, not_jsonEqual_inherited hv.tame hname]

/-- The record the loop reads the baseline's keys from. -/
theorem recordOrEmpty_eq (h : Baseline b ob) :
    ∃ entries, recordOrEmpty b = .obj true entries ∧ Plain (.obj true entries) ∧
      ∀ key, child key ob = (Value.obj true entries).own key := by
  unfold recordOrEmpty
  cases h with
  | json h =>
      cases hrec : isRecord b with
      | true =>
          obtain ⟨entries, rfl⟩ := h.eq_obj hrec
          exact ⟨entries, rfl, h, fun _ => rfl⟩
      | false => exact ⟨[], rfl, plain_empty, fun key => own_of_not_isRecord hrec key⟩
  | inherited hname =>
      have hrec : ∀ name, name ≠ dunderProto → isRecord (.inherited name) = false := by
        intro name h
        simpa [isRecord, Value.isObject] using h
      rw [hrec _ hname]
      exact ⟨[], rfl, plain_empty, fun _ => rfl⟩

end Baseline

/-- How the merge of two JSON values comes out. -/
theorem merge_cases {b l r : Value} {ob : Option Value} (hb : Baseline b ob) (hl : Plain l)
    (hr : Plain r) :
    (SameValue (some l) ob ∧ mergeStructuredStartupResult b l r = ⟨r, false⟩) ∨
    (SameValue (some r) ob ∧ mergeStructuredStartupResult b l r = ⟨l, false⟩) ∨
    (SameValue (some l) (some r) ∧ mergeStructuredStartupResult b l r = ⟨l, false⟩) ∨
    (Unsettled ob (some l) (some r) ∧ ¬(IsRecord (some l) ∧ IsRecord (some r)) ∧
      mergeStructuredStartupResult b l r = ⟨l, true⟩) ∨
    (Unsettled ob (some l) (some r) ∧ isRecord l = true ∧ isRecord r = true ∧
      mergeStructuredStartupResult b l r =
        let key := mergeKey mergeStructuredStartupResult (recordOrEmpty b) l r
        let keys := mergeKeys (recordOrEmpty b) l r
        ⟨.obj false (keys.filterMap fun k => (key k).1.map fun v => (k, v)),
          keys.any fun k => (key k).2⟩) := by
  have hun (h : jsonEqual l b = false ∧ jsonEqual r b = false ∧ jsonEqual l r = false) :
      Unsettled ob (some l) (some r) := by
    simp only [← Bool.not_eq_true, hb.jsonEqual_iff hl, hb.jsonEqual_iff hr] at h
    exact h
  rcases mergeStructuredStartupResult_cases b l r with
    ⟨h, heq⟩ | ⟨h, heq⟩ | ⟨-, h, heq⟩ | ⟨h, hrec, heq⟩ | ⟨h, hrec, heq⟩
  · exact .inl ⟨(hb.jsonEqual_iff hl).mp h, heq⟩
  · exact .inr (.inl ⟨(hb.jsonEqual_iff hr).mp h, heq⟩)
  · exact .inr (.inr (.inl ⟨h, heq⟩))
  · exact .inr (.inr (.inr (.inl ⟨hun h, by rwa [isRecord_some, isRecord_some], heq⟩)))
  · exact .inr (.inr (.inr (.inr ⟨hun h, hrec.1, hrec.2, heq⟩)))

/-! ## One key -/

/-- What the loop should do with a key, by whether each side has it. -/
def mergeOwn : Option Value → Option Value → Option Value → Option Value × Bool
  | none, none, remote => (remote, false)
  | some _, none, none => (none, false)
  | some b, none, some r => if !jsonEqual r b then (some r, true) else (none, false)
  | none, some l, none => (some l, false)
  | some b, some l, none => if !jsonEqual l b then (some l, true) else (none, false)
  | none, some l, some r =>
      if isRecord l && isRecord r then
        let result := mergeStructuredStartupResult (.obj true []) l r
        (some result.value, result.conflicted)
      else (some l, !jsonEqual l r)
  | some b, some l, some r =>
      let result := mergeStructuredStartupResult b l r
      (some result.value, result.conflicted)

/-- The value a plain object gives for an `Object.prototype` key. -/
def inheritedOr (key : JsString) (v : Option Value) : Value := v.getD (.inherited key)

section Key

variable {es le re : List (JsString × Value)} {key : JsString}

theorem mergeKey_of_not_mem_prototypeNames (hkey : key ∉ prototypeNames) :
    mergeKey mergeStructuredStartupResult (.obj true es) (.obj true le) (.obj true re) key =
      mergeOwn (Assoc.get key es) (Assoc.get key le) (Assoc.get key re) := by
  have hhas : ∀ t : List (JsString × Value),
      (Value.obj true t).hasKey key = (Assoc.get key t).isSome := by
    intro t
    rw [Bool.eq_iff_iff, Assoc.get_isSome_iff]
    simp [Value.hasKey, hkey]
  have hread : ∀ t : List (JsString × Value),
      (Value.obj true t).read key = (Assoc.get key t).getD .undefined := by
    intro t
    cases hget : Assoc.get key t <;> simp [Value.read, hget, hkey]
  simp only [mergeKey, hhas, hread]
  cases Assoc.get key es <;> cases Assoc.get key le <;> cases Assoc.get key re <;>
    simp [mergeOwn]

theorem mergeKey_of_mem_prototypeNames (hkey : key ∈ prototypeNames) :
    mergeKey mergeStructuredStartupResult (.obj true es) (.obj true le) (.obj true re) key =
      let result := mergeStructuredStartupResult (inheritedOr key (Assoc.get key es))
        (inheritedOr key (Assoc.get key le)) (inheritedOr key (Assoc.get key re))
      (some result.value, result.conflicted) := by
  have hhas : ∀ t : List (JsString × Value), (Value.obj true t).hasKey key = true := by
    intro t
    simp [Value.hasKey, hkey]
  have hread : ∀ t : List (JsString × Value),
      (Value.obj true t).read key = inheritedOr key (Assoc.get key t) := by
    intro t
    cases hget : Assoc.get key t with
    | some v => exact Value.read_of_own (v := .obj true t) hget
    | none => exact Value.read_of_own_eq_none hget hkey
  simp [mergeKey, hhas, hread]

end Key

/-! ## Merges with an inherited function -/

section Inherited

variable {name : JsString} (hname : name ≠ dunderProto) {b l r : Value}
include hname

omit hname in
theorem merge_inherited_inherited_right (r : Value) :
    mergeStructuredStartupResult (.inherited name) (.inherited name) r = ⟨r, false⟩ := by
  rw [mergeStructuredStartupResult_eq, mergeStep, if_pos]
  simp [jsonEqual, Value.strictEq]

theorem merge_inherited_left_inherited (hl : Plain l) :
    mergeStructuredStartupResult (.inherited name) l (.inherited name) = ⟨l, false⟩ := by
  rw [mergeStructuredStartupResult_eq, mergeStep,
    if_neg (by simp [not_jsonEqual_inherited hl.tame hname]), if_pos]
  simp [jsonEqual, Value.strictEq]

end Inherited

/-! ## The keys of the loop -/

/-- The keys of the loop are those some record has. -/
theorem mem_mergeKeys {base loc remote : Value} {key : JsString} :
    key ∈ mergeKeys base loc remote ↔
      key ∈ base.ownKeys ∨ key ∈ loc.ownKeys ∨ key ∈ remote.ownKeys := by
  simp [mergeKeys, List.mem_eraseDups]

theorem nodup_mergeKeys (base loc remote : Value) : (mergeKeys base loc remote).Nodup :=
  Assoc.nodup_eraseDups _

section Keys

variable {es le re : List (JsString × Value)} (hb : Plain (.obj true es))
  (hl : Plain (.obj true le)) (hr : Plain (.obj true re))
include hb hl hr

theorem ne_dunderProto_of_mem_mergeKeys {key : JsString}
    (h : key ∈ mergeKeys (.obj true es) (.obj true le) (.obj true re)) : key ≠ dunderProto := by
  rcases mem_mergeKeys.mp h with h | h | h
  · exact hb.obj_inv.2.2.1 key h
  · exact hl.obj_inv.2.2.1 key h
  · exact hr.obj_inv.2.2.1 key h

end Keys

end Realtime.Structured
