import Mathlib.Data.List.Sort
import Mathlib.Data.List.TakeWhile
import Realtime.Lib.Splice
import Realtime.Lib.Utf16

/-!
# Three-way text merge

The line-oriented diff3 of `src/textMerge.ts`. `edits` turns jsdiff's list of
changes into replacements of base line ranges, one script per side; `mergeText`
puts the two scripts together, or reports a conflict when an edit of one side
overlaps a different edit of the other.

`diffArrays` belongs to the `diff` package and is a parameter. What is used of
it is `LineDiff`: its changes partition the two inputs, and a kept run is never
empty.
-/

namespace Realtime.TextMerge

open Lib.Splice Lib.Utf16

/-- One change reported by `diffArrays`. -/
structure ArrayChange where
  added : Bool
  removed : Bool
  value : List JsString

abbrev TextEdit := Edit JsString

inductive TextMergeResult where
  | merged (content : JsString)
  | conflict
  deriving DecidableEq

/-- The matches of `/[^\n]*\n|[^\n]+$/g`: maximal runs that end with their
newline, and an unterminated last one. -/
def lines : JsString → List JsString
  | [] => []
  | c :: cs =>
      if c = newline then [c] :: lines cs
      else
        match lines cs with
        | [] => [[c]]
        | line :: rest => (c :: line) :: rest

/-- The local variables of `edits`. -/
structure Scan where
  result : List TextEdit
  baseOffset : Nat
  pending : Option TextEdit

namespace Scan

def init : Scan := ⟨[], 0, none⟩

def flush (s : Scan) : Scan :=
  match s.pending with
  | none => s
  | some edit => { s with result := s.result ++ [edit], pending := none }

/-- The body of the loop over the changes. -/
def step (s : Scan) (change : ArrayChange) : Scan :=
  if !change.added && !change.removed then
    { s.flush with baseOffset := s.baseOffset + change.value.length }
  else
    let pending := s.pending.getD ⟨s.baseOffset, s.baseOffset, []⟩
    if change.removed then
      let baseOffset := s.baseOffset + change.value.length
      { s with baseOffset, pending := some { pending with stop := baseOffset } }
    else
      { s with pending := some { pending with
          replacement := pending.replacement ++ change.value } }

end Scan

def edits (diffArrays : List JsString → List JsString → List ArrayChange)
    (base next : List JsString) : List TextEdit :=
  ((diffArrays base next).foldl Scan.step Scan.init).flush.result

def sameEdit (left right : TextEdit) : Bool :=
  left.start == right.start && left.stop == right.stop &&
    left.replacement.length == right.replacement.length &&
    left.replacement.zipIdx.all fun (line, index) => right.replacement[index]? == some line

/-- `overlaps`; an insertion at the edge of a change overlaps it, changes side by side do not. -/
def overlaps (left right : TextEdit) : Bool :=
  let leftInsertion := left.start == left.stop
  let rightInsertion := right.start == right.stop
  if leftInsertion && rightInsertion then left.start == right.start
  else if leftInsertion then left.start ≥ right.start && left.start ≤ right.stop
  else if rightInsertion then right.start ≥ left.start && right.start ≤ left.stop
  else left.start < right.stop && right.start < left.stop

/-- The inner loop: note the remote edits equal to `localEdit`, stop at one that
overlaps it. -/
def scanRemote (localEdit : TextEdit) :
    List (TextEdit × Nat) → List Nat → Option (List Nat)
  | [], duplicateRemote => some duplicateRemote
  | (remoteEdit, index) :: rest, duplicateRemote =>
      if sameEdit localEdit remoteEdit then scanRemote localEdit rest (index :: duplicateRemote)
      else if overlaps localEdit remoteEdit then none
      else scanRemote localEdit rest duplicateRemote

/-- Both loops: the indices of the remote edits that repeat a local one, or
`none` for a conflict. -/
def findDuplicates (localEdits remoteEdits : List TextEdit) : Option (List Nat) :=
  localEdits.foldlM (fun duplicateRemote localEdit =>
    scanRemote localEdit remoteEdits.zipIdx duplicateRemote) []

/-- `left.start - right.start || left.end - right.end`, as an order. -/
def EditOrder (left right : TextEdit) : Prop :=
  left.start < right.start ∨ (left.start = right.start ∧ left.stop ≤ right.stop)

instance : DecidableRel EditOrder := fun _ _ => inferInstanceAs (Decidable (_ ∨ _))

/-- `remote.filter((_edit, index) => !duplicateRemote.has(index))` -/
def freshRemote (remoteEdits : List TextEdit) (duplicateRemote : List Nat) : List TextEdit :=
  (remoteEdits.zipIdx.filter fun (_, index) => index ∉ duplicateRemote).map Prod.fst

def combine (localEdits remoteEdits : List TextEdit) (duplicateRemote : List Nat) :
    List TextEdit :=
  (localEdits ++ freshRemote remoteEdits duplicateRemote).insertionSort EditOrder

/-- The output loop: copy up to each edit, then its replacement. -/
def applyCombined (base : List JsString) (combined : List TextEdit) : List JsString :=
  let (output, offset) := combined.foldl (fun (output, offset) edit =>
    (output ++ (slice base offset edit.start ++ edit.replacement), edit.stop)) ([], 0)
  output ++ base.drop offset

/-- `mergeText`: duplicates first, then any overlap is a conflict. -/
def mergeText (diffArrays : List JsString → List JsString → List ArrayChange)
    (baseText localText remoteText : JsString) : TextMergeResult :=
  if localText = remoteText then .merged localText
  else if localText = baseText then .merged remoteText
  else if remoteText = baseText then .merged localText
  else
    let base := lines baseText
    let localEdits := edits diffArrays base (lines localText)
    let remoteEdits := edits diffArrays base (lines remoteText)
    match findDuplicates localEdits remoteEdits with
    | none => .conflict
    | some duplicateRemote =>
        .merged (applyCombined base (combine localEdits remoteEdits duplicateRemote)).flatten

/-! Texts with no shared history -/

/-- The code units `trim` removes. -/
def isWhiteSpace (c : UInt16) : Bool :=
  (9 ≤ c && c ≤ 13) || c == 32 || c == 0xa0 || c == 0x1680 || (0x2000 ≤ c && c ≤ 0x200a) ||
    c == 0x2028 || c == 0x2029 || c == 0x202f || c == 0x205f || c == 0x3000 || c == 0xfeff

/-- `line.replace(/\r?\n$/, "")` -/
def stripNewline (line : JsString) : JsString :=
  if line.getLast? = some newline then
    if line.dropLast.getLast? = some 13 then line.dropLast.dropLast else line.dropLast
  else line

def contentLines (text : JsString) : List JsString :=
  ((lines text).map stripNewline).filter fun line => !line.all isWhiteSpace

/-- The loop of `containsLines`, with the needles still to be found. -/
def findLines : List JsString → List JsString → Bool
  | [], _ => true
  | _ :: _, [] => false
  | needle :: needles, line :: rest =>
      if line = needle then findLines needles rest else findLines (needle :: needles) rest

def containsLines (outer inner : JsString) : Bool :=
  findLines (contentLines inner) (contentLines outer)

def mergeWithoutBaseline (localText remoteText : JsString) (allowLocalSuperset : Bool) :
    TextMergeResult :=
  if localText = remoteText then .merged localText
  else if containsLines remoteText localText then .merged remoteText
  else if allowLocalSuperset && containsLines localText remoteText then .merged localText
  else .conflict

/-! ## Lines and changes -/

theorem flatten_lines (text : JsString) : (lines text).flatten = text := by
  induction text with
  | nil => rfl
  | cons c cs ih =>
      rw [lines]
      split
      · simp [ih]
      · cases hrest : lines cs with
        | nil => simpa [hrest] using ih
        | cons line rest => simpa [hrest] using ih

/-- What the merge relies on in a diff of `base` and `next`. -/
structure LineDiff (base next : List JsString) (changes : List ArrayChange) : Prop where
  spells_base : (changes.filter fun c => !c.added).flatMap ArrayChange.value = base
  spells_next : (changes.filter fun c => !c.removed).flatMap ArrayChange.value = next
  exclusive : ∀ c ∈ changes, ¬(c.added = true ∧ c.removed = true)
  kept_ne_nil : ∀ c ∈ changes, c.added = false → c.removed = false → c.value ≠ []

/-- The loop of `edits` after the changes that spell `base` and `next`. -/
def ScanInv (s : Scan) (base next : List JsString) : Prop :=
  s.baseOffset = base.length ∧
  match s.pending with
  | none => Script base next s.result ∧ ∀ e ∈ s.result, e.stop < base.length
  | some edit => ∃ before covered before',
      Script before before' s.result ∧ (∀ e ∈ s.result, e.stop < before.length) ∧
      base = before ++ covered ∧ next = before' ++ edit.replacement ∧
      edit.start = before.length ∧ edit.stop = base.length

theorem scanInv_init : ScanInv Scan.init [] [] := ⟨rfl, Script.empty, by simp [Scan.init]⟩

theorem ScanInv.flush {s : Scan} {base next : List JsString} (h : ScanInv s base next) :
    Script base next s.flush.result ∧ s.flush.pending = none ∧
      s.flush.baseOffset = base.length := by
  obtain ⟨hoff, h⟩ := h
  unfold Scan.flush
  cases hp : s.pending with
  | none =>
      rw [hp] at h
      exact ⟨h.1, hp, hoff⟩
  | some edit =>
      rw [hp] at h
      obtain ⟨before, covered, before', hscript, hclosed, rfl, rfl, hstart, hstop⟩ := h
      have hedit : edit = ⟨before.length, (before ++ covered).length, edit.replacement⟩ := by
        rw [← hstart, ← hstop]
      refine ⟨?_, rfl, hoff⟩
      show Script _ _ (s.result ++ [edit])
      rw [hedit]
      exact hscript.snoc hclosed covered edit.replacement

theorem scanInv_pending {s : Scan} {base next : List JsString} (h : ScanInv s base next) :
    let edit := s.pending.getD ⟨s.baseOffset, s.baseOffset, []⟩
    ∃ before covered before', Script before before' s.result ∧
      (∀ e ∈ s.result, e.stop < before.length) ∧
      base = before ++ covered ∧ next = before' ++ edit.replacement ∧
      edit.start = before.length ∧ edit.stop = base.length := by
  obtain ⟨hoff, h⟩ := h
  cases hp : s.pending with
  | none =>
      rw [hp] at h
      exact ⟨base, [], next, h.1, h.2, by simp, by simp, hoff, hoff⟩
  | some edit =>
      rw [hp] at h
      exact h

/-- One change moves both spelled texts on. -/
theorem ScanInv.step {s : Scan} {base next : List JsString} (h : ScanInv s base next)
    {c : ArrayChange} (hexcl : ¬(c.added = true ∧ c.removed = true))
    (hkept : c.added = false → c.removed = false → c.value ≠ []) :
    ScanInv (s.step c) (base ++ if c.added then [] else c.value)
      (next ++ if c.removed then [] else c.value) := by
  obtain ⟨before, covered, before', hscript, hclosed, hbase, hnext, hstart, hstop⟩ :=
    scanInv_pending h
  unfold Scan.step
  cases hadd : c.added <;> cases hrem : c.removed
  · -- a kept run closes the pending edit, and keeps the next one apart from it
    obtain ⟨hflush, hnone, -⟩ := h.flush
    have hpos : 0 < c.value.length := List.length_pos_of_ne_nil (hkept hadd hrem)
    refine ⟨by simp [h.1], ?_⟩
    simp only [Bool.not_false, Bool.and_self, if_true, hnone, Bool.false_eq_true, if_false]
    refine ⟨hflush.kept c.value, ?_⟩
    intro e he
    have := (hflush.valid e he).2
    rw [List.length_append]
    omega
  · refine ⟨by simp [h.1], before, covered ++ c.value, before', hscript, hclosed, ?_, ?_, ?_, ?_⟩
    · simp [hbase]
    · simpa using hnext
    · exact hstart
    · simp [h.1]
  · refine ⟨by simp [h.1], before, covered, before', hscript, hclosed, ?_, ?_, ?_, ?_⟩
    · simp [hbase]
    · simp [hnext]
    · exact hstart
    · simpa using hstop
  · exact absurd ⟨hadd, hrem⟩ hexcl

theorem ScanInv.foldl {changes : List ArrayChange}
    (hexcl : ∀ c ∈ changes, ¬(c.added = true ∧ c.removed = true))
    (hkept : ∀ c ∈ changes, c.added = false → c.removed = false → c.value ≠ [])
    {s : Scan} {base next : List JsString} (h : ScanInv s base next) :
    ScanInv (changes.foldl Scan.step s)
      (base ++ (changes.filter fun c => !c.added).flatMap ArrayChange.value)
      (next ++ (changes.filter fun c => !c.removed).flatMap ArrayChange.value) := by
  induction changes generalizing s base next with
  | nil => simpa using h
  | cons c changes ih =>
      have hstep := h.step (hexcl c List.mem_cons_self) (hkept c List.mem_cons_self)
      have hrest := ih (fun d hd => hexcl d (List.mem_cons_of_mem _ hd))
        (fun d hd => hkept d (List.mem_cons_of_mem _ hd)) hstep
      have hcons : ∀ p : ArrayChange → Bool,
          ((c :: changes).filter fun d => !p d).flatMap ArrayChange.value =
            (if p c then [] else c.value) ++
              (changes.filter fun d => !p d).flatMap ArrayChange.value := by
        intro p
        cases hp : p c <;> simp [hp]
      rw [hcons ArrayChange.added, hcons ArrayChange.removed, ← List.append_assoc,
        ← List.append_assoc]
      exact hrest

/-- The edits of a correct diff are a script from one text's lines to the other's. -/
theorem script_edits {diffArrays : List JsString → List JsString → List ArrayChange}
    {base next : List JsString} (h : LineDiff base next (diffArrays base next)) :
    Script base next (edits diffArrays base next) := by
  have hfold := scanInv_init.foldl h.exclusive h.kept_ne_nil
  rw [h.spells_base, h.spells_next, List.nil_append, List.nil_append] at hfold
  exact hfold.flush.1

/-! ## Comparing the two scripts -/

theorem sameEdit_iff {left right : TextEdit} : sameEdit left right = true ↔ left = right := by
  have hall : left.replacement.length = right.replacement.length →
      ((left.replacement.zipIdx.all fun (line, index) =>
        right.replacement[index]? == some line) = true ↔
      left.replacement = right.replacement) := by
    intro hlen
    rw [List.all_eq_true]
    constructor
    · intro h
      apply List.ext_getElem? fun i => ?_
      rcases lt_or_ge i left.replacement.length with hi | hi
      · have hmem := List.mk_mem_zipIdx_iff_getElem?.mpr (List.getElem?_eq_getElem hi)
        rw [beq_iff_eq.mp (h _ hmem), List.getElem?_eq_getElem hi]
      · rw [List.getElem?_eq_none hi, List.getElem?_eq_none (hlen ▸ hi)]
    · rintro h ⟨line, index⟩ hmem
      rw [← h, beq_iff_eq]
      exact List.mk_mem_zipIdx_iff_getElem?.mp hmem
  obtain ⟨ls, le, lr⟩ := left
  obtain ⟨rs, re, rr⟩ := right
  simp only [sameEdit, Bool.and_eq_true, beq_iff_eq, Edit.mk.injEq]
  constructor
  · rintro ⟨⟨⟨rfl, rfl⟩, hlen⟩, h⟩
    exact ⟨rfl, rfl, (hall hlen).mp h⟩
  · rintro ⟨rfl, rfl, rfl⟩
    exact ⟨⟨⟨rfl, rfl⟩, rfl⟩, (hall rfl).mpr rfl⟩

theorem overlaps_iff {left right : TextEdit} (hl : left.start ≤ left.stop)
    (hr : right.start ≤ right.stop) : overlaps left right = true ↔ left.Touches right := by
  have hshare : (∃ i, (left.start ≤ i ∧ i < left.stop) ∧ right.start ≤ i ∧ i < right.stop) ↔
      left.start < left.stop ∧ right.start < right.stop ∧
        left.start < right.stop ∧ right.start < left.stop := by
    constructor
    · rintro ⟨i, ⟨h1, h2⟩, h3, h4⟩
      omega
    · rintro ⟨h1, h2, h3, h4⟩
      exact ⟨max left.start right.start, by omega, by omega⟩
  unfold overlaps Edit.Touches Edit.Insertion
  rw [hshare]
  by_cases hli : left.start = left.stop <;> by_cases hri : right.start = right.stop <;>
    simp only [hli, hri]
  all_goals grind

/-- Of two edits that do not touch, one is before the other. -/
theorem before_of_not_overlaps {e f : TextEdit} (he : e.start ≤ e.stop) (hf : f.start ≤ f.stop)
    (h : ¬overlaps e f = true) : e.Before f ∨ f.Before e := by
  rw [overlaps_iff he hf] at h
  unfold Edit.Touches Edit.Insertion at h
  push Not at h
  obtain ⟨h1, h2, h3, h4⟩ := h
  have h1 := h1 (max e.start f.start)
  unfold Edit.Before
  omega

/-- An edit of the other side that differs from `localEdit` and overlaps it. -/
def Clash (localEdit remoteEdit : TextEdit) : Prop :=
  localEdit ≠ remoteEdit ∧ overlaps localEdit remoteEdit = true

theorem scanRemote_eq_none_iff {localEdit : TextEdit} {remote : List (TextEdit × Nat)}
    {duplicateRemote : List Nat} :
    scanRemote localEdit remote duplicateRemote = none ↔ ∃ p ∈ remote, Clash localEdit p.1 := by
  induction remote generalizing duplicateRemote with
  | nil => simp [scanRemote]
  | cons p rest ih =>
      obtain ⟨remoteEdit, index⟩ := p
      rw [scanRemote]
      by_cases hsame : localEdit = remoteEdit
      · rw [if_pos (sameEdit_iff.mpr hsame), ih]
        simp [Clash, hsame]
      · rw [if_neg (fun h => hsame (sameEdit_iff.mp h))]
        by_cases hover : overlaps localEdit remoteEdit = true
        · simp [Clash, hsame, hover]
        · rw [if_neg hover, ih]
          simp [Clash, hover]

theorem mem_scanRemote {localEdit : TextEdit} {remote : List (TextEdit × Nat)}
    {duplicateRemote found : List Nat}
    (h : scanRemote localEdit remote duplicateRemote = some found) (i : Nat) :
    i ∈ found ↔ i ∈ duplicateRemote ∨ (localEdit, i) ∈ remote := by
  induction remote generalizing duplicateRemote with
  | nil =>
      rw [scanRemote, Option.some_inj] at h
      simp [h]
  | cons p rest ih =>
      obtain ⟨remoteEdit, index⟩ := p
      rw [scanRemote] at h
      by_cases hsame : localEdit = remoteEdit
      · rw [if_pos (sameEdit_iff.mpr hsame)] at h
        rw [ih h]
        simp only [List.mem_cons, Prod.mk.injEq, hsame, true_and]
        tauto
      · rw [if_neg (fun h => hsame (sameEdit_iff.mp h))] at h
        split at h
        · cases h
        · rw [ih h]
          simp [hsame]

/-- The two loops, from any duplicates already found. -/
theorem foldlM_scanRemote_eq_none_iff {remote : List (TextEdit × Nat)}
    {localEdits : List TextEdit} {duplicateRemote : List Nat} :
    localEdits.foldlM (fun found localEdit => scanRemote localEdit remote found)
        duplicateRemote = none ↔
      ∃ l ∈ localEdits, ∃ p ∈ remote, Clash l p.1 := by
  induction localEdits generalizing duplicateRemote with
  | nil => simp
  | cons localEdit rest ih =>
      rw [List.foldlM_cons, Option.bind_eq_bind, Option.bind_eq_none_iff]
      constructor
      · intro h
        cases hscan : scanRemote localEdit remote duplicateRemote with
        | none => exact ⟨localEdit, List.mem_cons_self, scanRemote_eq_none_iff.mp hscan⟩
        | some found =>
            obtain ⟨l, hl, hclash⟩ := ih.mp (h found hscan)
            exact ⟨l, List.mem_cons_of_mem _ hl, hclash⟩
      · rintro ⟨l, hl, hclash⟩ found hscan
        rcases List.mem_cons.mp hl with rfl | hl
        · rw [scanRemote_eq_none_iff.mpr hclash] at hscan
          cases hscan
        · exact ih.mpr ⟨l, hl, hclash⟩

theorem mem_foldlM_scanRemote {remote : List (TextEdit × Nat)} {localEdits : List TextEdit}
    {duplicateRemote found : List Nat}
    (h : localEdits.foldlM (fun found localEdit => scanRemote localEdit remote found)
      duplicateRemote = some found) (i : Nat) :
    i ∈ found ↔ i ∈ duplicateRemote ∨ ∃ l ∈ localEdits, (l, i) ∈ remote := by
  induction localEdits generalizing duplicateRemote with
  | nil =>
      obtain rfl : duplicateRemote = found := by simpa using h
      simp
  | cons localEdit rest ih =>
      rw [List.foldlM_cons, Option.bind_eq_bind, Option.bind_eq_some_iff] at h
      obtain ⟨mid, hscan, hrest⟩ := h
      rw [ih hrest, mem_scanRemote hscan]
      simp [or_assoc]

theorem findDuplicates_eq_none_iff {localEdits remoteEdits : List TextEdit} :
    findDuplicates localEdits remoteEdits = none ↔
      ∃ l ∈ localEdits, ∃ r ∈ remoteEdits, Clash l r := by
  have hmem : ∀ l, (∃ p ∈ remoteEdits.zipIdx, Clash l p.1) ↔ ∃ r ∈ remoteEdits, Clash l r := by
    intro l
    constructor
    · rintro ⟨p, hp, h⟩
      exact ⟨p.1, List.fst_mem_of_mem_zipIdx hp, h⟩
    · rintro ⟨r, hr, h⟩
      obtain ⟨i, hi⟩ := List.getElem?_of_mem hr
      exact ⟨(r, i), List.mk_mem_zipIdx_iff_getElem?.mpr hi, h⟩
  rw [findDuplicates, foldlM_scanRemote_eq_none_iff]
  simp only [hmem]

theorem mem_findDuplicates {localEdits remoteEdits : List TextEdit} {found : List Nat}
    (h : findDuplicates localEdits remoteEdits = some found) (i : Nat) :
    i ∈ found ↔ ∃ l ∈ localEdits, remoteEdits[i]? = some l := by
  rw [mem_foldlM_scanRemote h]
  simp [List.mk_mem_zipIdx_iff_getElem?]

/-! ## The combined script -/

instance : Std.Total EditOrder := ⟨fun e f => by unfold EditOrder; omega⟩

instance : IsTrans TextEdit EditOrder := ⟨fun e f g => by unfold EditOrder; omega⟩

theorem pairwise_start_insertionSort (es : List TextEdit) :
    (es.insertionSort EditOrder).Pairwise fun e f => e.start ≤ f.start := by
  refine (List.pairwise_insertionSort EditOrder es).imp ?_
  intro e f h
  unfold EditOrder at h
  omega

theorem freshRemote_sublist (remoteEdits : List TextEdit) (duplicateRemote : List Nat) :
    (freshRemote remoteEdits duplicateRemote).Sublist remoteEdits := by
  have h := (List.filter_sublist (p := fun (p : TextEdit × Nat) => decide (p.2 ∉ duplicateRemote))
    (l := remoteEdits.zipIdx)).map Prod.fst
  rwa [List.zipIdx_map_fst] at h

theorem mem_freshRemote {localEdits remoteEdits : List TextEdit} {found : List Nat}
    (h : findDuplicates localEdits remoteEdits = some found) {e : TextEdit} :
    e ∈ freshRemote remoteEdits found ↔ e ∈ remoteEdits ∧ e ∉ localEdits := by
  simp only [freshRemote, List.mem_map, List.mem_filter, decide_eq_true_eq, Prod.exists,
    exists_and_right, exists_eq_right, List.mk_mem_zipIdx_iff_getElem?, mem_findDuplicates h]
  constructor
  · rintro ⟨i, hi, hdup⟩
    exact ⟨List.mem_of_getElem? hi, fun hl => hdup ⟨e, hl, hi⟩⟩
  · rintro ⟨hr, hl⟩
    obtain ⟨i, hi⟩ := List.getElem?_of_mem hr
    refine ⟨i, hi, ?_⟩
    rintro ⟨l, hmem, hget⟩
    rw [hi, Option.some_inj] at hget
    exact hl (hget ▸ hmem)

theorem mem_combine {localEdits remoteEdits : List TextEdit} {found : List Nat}
    (h : findDuplicates localEdits remoteEdits = some found) {e : TextEdit} :
    e ∈ combine localEdits remoteEdits found ↔ e ∈ localEdits ∨ e ∈ remoteEdits := by
  have hfresh := mem_freshRemote h (e := e)
  have hcombine : e ∈ combine localEdits remoteEdits found ↔
      e ∈ localEdits ∨ e ∈ freshRemote remoteEdits found := by
    rw [combine, List.mem_insertionSort, List.mem_append]
  rw [hcombine, hfresh]
  tauto

/-- Without a clash the two scripts interleave: sorting orders their ranges. -/
theorem pairwise_before_combine {base localNext remoteNext : List JsString}
    {localEdits remoteEdits : List TextEdit} {found : List Nat}
    (hlocal : Script base localNext localEdits) (hremote : Script base remoteNext remoteEdits)
    (h : findDuplicates localEdits remoteEdits = some found) :
    (combine localEdits remoteEdits found).Pairwise Edit.Before := by
  have hclash : ∀ l ∈ localEdits, ∀ r ∈ remoteEdits, ¬Clash l r := by
    intro l hl r hr hlr
    have hnone := findDuplicates_eq_none_iff.mpr ⟨l, hl, r, hr, hlr⟩
    rw [h] at hnone
    cases hnone
  -- in any order, two edits are apart one way or the other
  have happart : (localEdits ++ freshRemote remoteEdits found).Pairwise
      fun e f => e.Before f ∨ f.Before e := by
    apply List.pairwise_append.mpr
    refine ⟨hlocal.before.imp Or.inl,
      (hremote.before.sublist (freshRemote_sublist _ _)).imp Or.inl, ?_⟩
    intro l hl r hr
    obtain ⟨hr, hfresh⟩ := (mem_freshRemote h).mp hr
    have hne : l ≠ r := fun he => hfresh (he ▸ hl)
    apply before_of_not_overlaps (hlocal.valid l hl).1 (hremote.valid r hr).1
    exact fun hover => hclash l hl r hr ⟨hne, hover⟩
  have hperm : (combine localEdits remoteEdits found).Perm
      (localEdits ++ freshRemote remoteEdits found) := List.perm_insertionSort _ _
  have hsym : ∀ {e f : TextEdit}, e.Before f ∨ f.Before e → f.Before e ∨ e.Before f := Or.symm
  have hpairs := (hperm.pairwise_iff hsym).mpr happart
  refine (hpairs.and (pairwise_start_insertionSort _)).imp ?_
  rintro e f ⟨hef | hfe, hle⟩
  · exact hef
  · exact absurd hfe.2 (not_lt.mpr hle)

theorem applyCombined_eq_splice (base : List JsString) (combined : List TextEdit) :
    applyCombined base combined = splice base (fun _ => true) 0 combined := by
  have hfold : ∀ (output : List JsString) (offset : Nat),
      (let r := combined.foldl (fun (output, offset) edit =>
        (output ++ (slice base offset edit.start ++ edit.replacement), edit.stop)) (output, offset)
      r.1 ++ base.drop r.2) = output ++ splice base (fun _ => true) offset combined := by
    induction combined with
    | nil =>
        intro output offset
        rfl
    | cons edit rest ih =>
        intro output offset
        rw [List.foldl_cons, ih]
        simp [splice, List.append_assoc]
  exact hfold [] 0

/-! ## The merge keeps both sides -/

/-- `script` holds the edits of both sides, each once and in its own base range,
and undoing the edits of one side gives the other side's text. -/
structure Merges (base : List JsString) (localEdits remoteEdits script : List TextEdit)
    (localText remoteText content : JsString) : Prop where
  ordered : script.Pairwise Edit.Before
  valid : ∀ e ∈ script, e.start ≤ e.stop ∧ e.stop ≤ base.length
  mem_iff : ∀ e, e ∈ script ↔ e ∈ localEdits ∨ e ∈ remoteEdits
  content_eq : content = (splice base (fun _ => true) 0 script).flatten
  local_eq : localText = (splice base (fun e => e ∈ localEdits) 0 script).flatten
  remote_eq : remoteText = (splice base (fun e => e ∈ remoteEdits) 0 script).flatten

/-- Undoing, in an ordered script, all edits outside `es` leaves `es`. -/
theorem text_of_undo {base next : List JsString} {es script : List TextEdit} {text : JsString}
    (hscript : Script base next es) (hnext : next.flatten = text)
    (hord : script.Pairwise Edit.Before)
    (hvalid : ∀ e ∈ script, e.start ≤ e.stop ∧ e.stop ≤ base.length)
    (hsub : ∀ e ∈ es, e ∈ script) :
    text = (splice base (fun e => e ∈ es) 0 script).flatten := by
  have hfits : Fits base.length 0 script :=
    fits_of_pairwise_before hord hvalid (Nat.zero_le _) fun _ _ => Nat.zero_le _
  have hfilter : script.filter (fun e => e ∈ es) = es := by
    apply eq_of_before_of_mem_iff (hord.filter _) hscript.before
    intro e
    simp only [List.mem_filter, decide_eq_true_eq, and_iff_right_iff_imp]
    exact hsub e
  rw [splice_filter base _ hfits, hfilter, hscript.spells, hnext]

theorem merges_combine {base : List JsString} {localText remoteText : JsString}
    {localEdits remoteEdits : List TextEdit} {found : List Nat}
    (hlocal : Script base (lines localText) localEdits)
    (hremote : Script base (lines remoteText) remoteEdits)
    (h : findDuplicates localEdits remoteEdits = some found) :
    Merges base localEdits remoteEdits (combine localEdits remoteEdits found) localText remoteText
      (applyCombined base (combine localEdits remoteEdits found)).flatten := by
  have hord := pairwise_before_combine hlocal hremote h
  have hvalid : ∀ e ∈ combine localEdits remoteEdits found,
      e.start ≤ e.stop ∧ e.stop ≤ base.length := by
    intro e he
    rcases (mem_combine h).mp he with he | he
    · exact hlocal.valid e he
    · exact hremote.valid e he
  refine ⟨hord, hvalid, fun e => mem_combine h, ?_, ?_, ?_⟩
  · rw [applyCombined_eq_splice]
  · apply text_of_undo hlocal (flatten_lines localText) hord hvalid
    exact fun e he => (mem_combine h).mpr (Or.inl he)
  · apply text_of_undo hremote (flatten_lines remoteText) hord hvalid
    exact fun e he => (mem_combine h).mpr (Or.inr he)

/-- On the diff path a merge is the base with the edits of both sides, and the
merge is refused exactly when two different edits touch. -/
theorem mergeText_keeps_both_sides
    (diffArrays : List JsString → List JsString → List ArrayChange)
    (hdiff : ∀ base next, LineDiff base next (diffArrays base next))
    (baseText localText remoteText : JsString) (hlr : localText ≠ remoteText)
    (hlb : localText ≠ baseText) (hrb : remoteText ≠ baseText) :
    let base := lines baseText
    let localEdits := edits diffArrays base (lines localText)
    let remoteEdits := edits diffArrays base (lines remoteText)
    (∀ content, mergeText diffArrays baseText localText remoteText = .merged content →
      ∃ script, Merges base localEdits remoteEdits script localText remoteText content) ∧
    (mergeText diffArrays baseText localText remoteText = .conflict ↔
      ∃ l ∈ localEdits, ∃ r ∈ remoteEdits, l ≠ r ∧ l.Touches r) := by
  intro base localEdits remoteEdits
  have hlocal : Script base (lines localText) localEdits := script_edits (hdiff _ _)
  have hremote : Script base (lines remoteText) remoteEdits := script_edits (hdiff _ _)
  have htouch : (∃ l ∈ localEdits, ∃ r ∈ remoteEdits, l ≠ r ∧ l.Touches r) ↔
      findDuplicates localEdits remoteEdits = none := by
    rw [findDuplicates_eq_none_iff]
    constructor
    · rintro ⟨l, hl, r, hr, hne, h⟩
      exact ⟨l, hl, r, hr, hne, (overlaps_iff (hlocal.valid l hl).1 (hremote.valid r hr).1).mpr h⟩
    · rintro ⟨l, hl, r, hr, hne, h⟩
      exact ⟨l, hl, r, hr, hne, (overlaps_iff (hlocal.valid l hl).1 (hremote.valid r hr).1).mp h⟩
  have hpath : mergeText diffArrays baseText localText remoteText =
      match findDuplicates localEdits remoteEdits with
      | none => .conflict
      | some found => .merged
          (applyCombined base (combine localEdits remoteEdits found)).flatten := by
    rw [mergeText, if_neg hlr, if_neg hlb, if_neg hrb]
  rw [hpath, htouch]
  cases hfound : findDuplicates localEdits remoteEdits with
  | none => simp
  | some found =>
      refine ⟨?_, by simp⟩
      rintro content hcontent
      obtain rfl := TextMergeResult.merged.inj hcontent
      exact ⟨_, merges_combine hlocal hremote hfound⟩

/-- The changes jsdiff reports for the texts of the merge below; elsewhere
everything is removed and added. -/
def sampleDiff (base next : List JsString) : List ArrayChange :=
  if base = [[97, 10], [98, 10], [99]] ∧ next = [[65, 10], [98, 10], [99]] then
    [⟨false, true, [[97, 10]]⟩, ⟨true, false, [[65, 10]]⟩, ⟨false, false, [[98, 10], [99]]⟩]
  else if base = [[97, 10], [98, 10], [99]] ∧ next = [[97, 10], [98, 10], [99, 10], [100]] then
    [⟨false, false, [[97, 10], [98, 10]]⟩, ⟨false, true, [[99]]⟩,
      ⟨true, false, [[99, 10], [100]]⟩]
  else [⟨false, true, base⟩, ⟨true, false, next⟩]

theorem lineDiff_sampleDiff (base next : List JsString) :
    LineDiff base next (sampleDiff base next) := by
  unfold sampleDiff
  split
  · rename_i h
    obtain ⟨rfl, rfl⟩ := h
    exact ⟨rfl, rfl, by simp, by simp⟩
  · split
    · rename_i h
      obtain ⟨rfl, rfl⟩ := h
      exact ⟨rfl, rfl, by simp, by simp⟩
    · exact ⟨by simp, by simp, by simp, by simp⟩

/-- `"a\nb\nc"` merged with `"A\nb\nc"` and `"a\nb\nc\nd"`. -/
theorem mergeText_keeps_both_sides_first_and_last :
    mergeText sampleDiff [97, 10, 98, 10, 99] [65, 10, 98, 10, 99]
        [97, 10, 98, 10, 99, 10, 100] = .merged [65, 10, 98, 10, 99, 10, 100] ∧
      ∃ script, Merges [[97, 10], [98, 10], [99]] [⟨0, 1, [[65, 10]]⟩] [⟨2, 3, [[99, 10], [100]]⟩]
        script [65, 10, 98, 10, 99] [97, 10, 98, 10, 99, 10, 100]
          [65, 10, 98, 10, 99, 10, 100] := by
  have hmerged : mergeText sampleDiff [97, 10, 98, 10, 99] [65, 10, 98, 10, 99]
      [97, 10, 98, 10, 99, 10, 100] = .merged [65, 10, 98, 10, 99, 10, 100] := by decide +kernel
  exact ⟨hmerged, (mergeText_keeps_both_sides sampleDiff lineDiff_sampleDiff
    [97, 10, 98, 10, 99] [65, 10, 98, 10, 99] [97, 10, 98, 10, 99, 10, 100]
    (by decide) (by decide) (by decide)).1 _ hmerged⟩

end Realtime.TextMerge
