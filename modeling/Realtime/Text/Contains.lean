import Realtime.Lib.RustStr
import Realtime.Text.Merge

/-!
# The side that holds every line of the other

Two texts with no shared history are merged only where one of them already has
every non-blank line of the other, in order. The lines of a text are what stands
between its newlines, less a carriage return before one (`nonBlankLines`); the
splitter of `src/textMerge.ts` finds them with a pattern that keeps the newlines,
and the loop of `containsLines` matches greedily.
-/

namespace Realtime.TextMerge

open Lib.Utf16

/-! ## The lines of a text -/

/-- A line in front of a newline, without a carriage return at its end. -/
def withoutReturn (line : JsString) : JsString :=
  if line.getLast? = some 13 then line.dropLast else line

/-- The lines of a text without their terminators `\n` and `\r\n`. The last one
has no terminator. -/
def bareLines (text : JsString) : List JsString :=
  (text.splitOn newline).dropLast.map withoutReturn ++ (text.splitOn newline).getLast?.toList

/-- Some code unit of the line is not white space. -/
def NonBlank (line : JsString) : Prop := ∃ c ∈ line, isWhiteSpace c = false

instance (line : JsString) : Decidable (NonBlank line) :=
  inferInstanceAs (Decidable (∃ c ∈ line, _))

def nonBlankLines (text : JsString) : List JsString := (bareLines text).filter NonBlank

theorem not_nonBlank_nil : ¬NonBlank [] := by
  rintro ⟨c, hc, -⟩
  cases hc

theorem nonBlank_iff {line : JsString} : NonBlank line ↔ (!line.all isWhiteSpace) = true := by
  simp [NonBlank]

theorem stripNewline_terminated (line : JsString) :
    stripNewline (line ++ [newline]) = withoutReturn line := by
  rw [stripNewline, if_pos List.getLast?_concat, List.dropLast_concat]
  rfl

theorem stripNewline_unterminated {line : JsString} (h : newline ∉ line) :
    stripNewline line = line := by
  rw [stripNewline, if_neg]
  intro hlast
  exact h (List.mem_of_getLast? hlast)

/-- The pattern finds the pieces between the newlines, each with its newline, and a
last piece that is not empty. -/
theorem lines_eq_splitOn (text : JsString) : ∃ before last,
    text.splitOn newline = before ++ [last] ∧
      lines text = before.map (· ++ [newline]) ++ if last = [] then [] else [last] := by
  induction text with
  | nil => exact ⟨[], [], rfl, rfl⟩
  | cons c cs ih =>
      obtain ⟨before, last, hsplit, hlines⟩ := ih
      rw [List.splitOn_cons_eq_if_modifyHead, lines]
      by_cases hc : c = newline
      · refine ⟨[] :: before, last, ?_, ?_⟩
        · rw [if_pos (beq_iff_eq.mpr hc), hsplit, List.cons_append]
        · rw [if_pos hc, hlines, hc]
          rfl
      · rw [if_neg (by simpa using hc), if_neg hc, hsplit, hlines]
        cases before with
        | nil =>
            -- the first piece is the last one
            refine ⟨[], c :: last, rfl, ?_⟩
            by_cases hlast : last = []
            · rw [if_pos hlast, if_neg (List.cons_ne_nil _ _), hlast]
              rfl
            · rw [if_neg hlast, if_neg (List.cons_ne_nil _ _)]
              rfl
        | cons piece before => exact ⟨(c :: piece) :: before, last, rfl, rfl⟩

theorem contentLines_eq (text : JsString) : contentLines text = nonBlankLines text := by
  obtain ⟨before, last, hsplit, hlines⟩ := lines_eq_splitOn text
  have hfilter : ∀ ls : List JsString,
      ls.filter (fun line => !line.all isWhiteSpace) = ls.filter NonBlank := by
    intro ls
    refine List.filter_congr fun line _ => ?_
    rw [Bool.eq_iff_iff, ← nonBlank_iff, decide_eq_true_iff]
  have hlast : newline ∉ last :=
    Lib.Str.not_mem_of_mem_splitOn (hsplit ▸ List.mem_append_right _ List.mem_cons_self)
  have hmap : (before.map (· ++ [newline])).map stripNewline = before.map withoutReturn := by
    rw [List.map_map]
    exact List.map_congr_left fun line _ => stripNewline_terminated line
  rw [contentLines, hfilter, nonBlankLines, bareLines, hsplit, hlines, List.dropLast_concat,
    List.getLast?_concat, List.map_append, List.filter_append, List.filter_append, hmap]
  by_cases hnil : last = []
  · -- an empty last piece is no match of the pattern, and no line of content
    rw [if_pos hnil, hnil]
    simp [not_nonBlank_nil]
  · rw [if_neg hnil]
    simp [stripNewline_unterminated hlast]

/-! ## Greedy matching -/

/-- Matching each needle at its first occurrence behind the one before it misses
none. -/
theorem findLines_iff {needles hay : List JsString} :
    findLines needles hay = true ↔ needles.Sublist hay := by
  induction hay generalizing needles with
  | nil => cases needles <;> simp [findLines]
  | cons line rest ih =>
      cases needles with
      | nil => simp [findLines]
      | cons needle needles =>
          rw [findLines]
          by_cases heq : line = needle
          · rw [if_pos heq, ih, heq, List.cons_sublist_cons]
          · rw [if_neg heq, ih]
            constructor
            · exact fun h => h.cons line
            · intro h
              cases h with
              | cons _ h => exact h
              | cons_cons => exact absurd rfl heq

theorem containsLines_iff {outer inner : JsString} :
    containsLines outer inner = true ↔ (nonBlankLines inner).Sublist (nonBlankLines outer) := by
  rw [containsLines, findLines_iff, contentLines_eq, contentLines_eq]

/-! ## The merge -/

variable {localText remoteText content : JsString} {allow : Bool}

theorem mergeWithoutBaseline_eq_merged
    (h : mergeWithoutBaseline localText remoteText allow = .merged content) :
    (nonBlankLines localText).Sublist (nonBlankLines content) ∧
      (nonBlankLines remoteText).Sublist (nonBlankLines content) := by
  rw [mergeWithoutBaseline] at h
  split at h
  · next heq =>
      obtain rfl := TextMergeResult.merged.inj h
      exact ⟨List.Sublist.refl _, heq ▸ List.Sublist.refl _⟩
  · split at h
    · next hin =>
        obtain rfl := TextMergeResult.merged.inj h
        exact ⟨containsLines_iff.mp hin, List.Sublist.refl _⟩
    · split at h
      · next hin =>
          obtain rfl := TextMergeResult.merged.inj h
          rw [Bool.and_eq_true] at hin
          exact ⟨List.Sublist.refl _, containsLines_iff.mp hin.2⟩
      · cases h

theorem mergeWithoutBaseline_eq_conflict_iff :
    mergeWithoutBaseline localText remoteText allow = .conflict ↔
      localText ≠ remoteText ∧ ¬(nonBlankLines localText).Sublist (nonBlankLines remoteText) ∧
        (¬(nonBlankLines remoteText).Sublist (nonBlankLines localText) ∨ allow = false) := by
  rw [← containsLines_iff, ← containsLines_iff, mergeWithoutBaseline]
  constructor
  · intro h
    split at h
    · cases h
    · next hne =>
        split at h
        · cases h
        · next hin =>
            split at h
            · cases h
            · next hsuper =>
                refine ⟨hne, hin, ?_⟩
                cases allow
                · exact Or.inr rfl
                · exact Or.inl (by simpa using hsuper)
  · rintro ⟨hne, hin, hsuper⟩
    rw [if_neg hne, if_neg hin, if_neg]
    rw [Bool.and_eq_true]
    rintro ⟨hallow, hcontains⟩
    rcases hsuper with hnot | hoff
    · exact hnot hcontains
    · rw [hoff] at hallow
      cases hallow

/-- A merge without a baseline drops no line of either side, and refuses exactly
where it would have to. -/
theorem mergeWithoutBaseline_keeps_lines :
    (∀ outer inner : JsString, containsLines outer inner = true ↔
      (nonBlankLines inner).Sublist (nonBlankLines outer)) ∧
    (∀ (localText remoteText : JsString) (allowLocalSuperset : Bool) (content : JsString),
      mergeWithoutBaseline localText remoteText allowLocalSuperset = .merged content →
        (nonBlankLines localText).Sublist (nonBlankLines content) ∧
          (nonBlankLines remoteText).Sublist (nonBlankLines content)) ∧
    (∀ (localText remoteText : JsString) (allowLocalSuperset : Bool),
      mergeWithoutBaseline localText remoteText allowLocalSuperset = .conflict ↔
        localText ≠ remoteText ∧ ¬(nonBlankLines localText).Sublist (nonBlankLines remoteText) ∧
          (¬(nonBlankLines remoteText).Sublist (nonBlankLines localText) ∨
            allowLocalSuperset = false)) :=
  ⟨fun _ _ => containsLines_iff, fun _ _ _ _ => mergeWithoutBaseline_eq_merged,
    fun _ _ _ => mergeWithoutBaseline_eq_conflict_iff⟩

/-- The lines `a` and `b` inside `a`, a blank line and `b` ended by `\r\n`. -/
theorem mergeWithoutBaseline_keeps_lines_two :
    (nonBlankLines (ascii "a\nb")).Sublist (nonBlankLines (ascii "a\n \nb\x0d\nc")) :=
  (mergeWithoutBaseline_keeps_lines.2.1 (ascii "a\nb") (ascii "a\n \nb\x0d\nc") true
    (ascii "a\n \nb\x0d\nc") (by decide)).1

end Realtime.TextMerge
