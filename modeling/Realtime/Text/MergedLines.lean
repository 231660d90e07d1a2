import Realtime.Text.Merge

/-!
# The lines of a merged text

A merged text falls into lines the way it was put together: every edit replaces
whole lines, and only the last line of a text may lack its newline. A line that
either side brings into a merge is therefore a line of the merge.
-/

namespace Realtime.TextMerge

open Lib.Splice Lib.Utf16

/-! ## Lines put together -/

/-- One match of the pattern of `lines`. -/
def IsLine (p : JsString) : Prop := p ≠ [] ∧ newline ∉ p.dropLast

def Terminated (p : JsString) : Prop := p.getLast? = some newline

/-- Lines of which only the last may lack its newline. -/
structure Lined (ps : List JsString) : Prop where
  line : ∀ p ∈ ps, IsLine p
  terminated : ∀ p ∈ ps.dropLast, Terminated p

theorem lines_append {p : JsString} (hline : IsLine p) (hterm : Terminated p) (t : JsString) :
    lines (p ++ t) = p :: lines t := by
  induction p with
  | nil => exact absurd rfl hline.1
  | cons c p ih =>
      rw [List.cons_append, lines]
      cases p with
      | nil =>
          have hc : c = newline := by simpa [Terminated] using hterm
          rw [if_pos hc, List.nil_append]
      | cons d p =>
          have hne : c ≠ newline := by
            rintro rfl
            exact hline.2 (by simp)
          have hrest : IsLine (d :: p) := by
            refine ⟨List.cons_ne_nil _ _, fun hmem => hline.2 ?_⟩
            rw [List.dropLast_cons_of_ne_nil (List.cons_ne_nil _ _)]
            exact List.mem_cons_of_mem _ hmem
          rw [if_neg hne, ih hrest (by simpa [Terminated] using hterm)]

theorem lines_line {p : JsString} (hline : IsLine p) : lines p = [p] := by
  by_cases hterm : Terminated p
  · have h := lines_append hline hterm []
    rwa [List.append_nil] at h
  · -- no newline at all
    have hnone : newline ∉ p := by
      intro hmem
      rw [← List.dropLast_concat_getLast hline.1] at hmem
      rcases List.mem_append.mp hmem with hmem | hmem
      · exact hline.2 hmem
      · refine hterm ?_
        rw [Terminated, List.getLast?_eq_some_getLast hline.1, ← List.mem_singleton.mp hmem]
    have hall : ∀ q : JsString, q ≠ [] → newline ∉ q → lines q = [q] := by
      intro q
      induction q with
      | nil => exact fun hne => absurd rfl hne
      | cons c q ih =>
          intro _ hnot
          have hc : c ≠ newline := fun h => hnot (h ▸ List.mem_cons_self)
          rw [lines, if_neg hc]
          by_cases hq : q = []
          · subst hq
            rfl
          · rw [ih hq fun hmem => hnot (List.mem_cons_of_mem _ hmem)]
    exact hall p hline.1 hnone

theorem Lined.tail {p : JsString} {ps : List JsString} (h : Lined (p :: ps)) : Lined ps := by
  refine ⟨fun q hq => h.line q (List.mem_cons_of_mem _ hq), ?_⟩
  intro q hq
  cases ps with
  | nil => simp at hq
  | cons r ps =>
      refine h.terminated q ?_
      rw [List.dropLast_cons_of_ne_nil (List.cons_ne_nil _ _)]
      exact List.mem_cons_of_mem _ hq

/-- Lines put together fall apart into the same lines. -/
theorem lines_flatten {ps : List JsString} (h : Lined ps) : lines ps.flatten = ps := by
  induction ps with
  | nil => rfl
  | cons p ps ih =>
      have hp := h.line p List.mem_cons_self
      cases ps with
      | nil => rw [List.flatten_cons, List.flatten_nil, List.append_nil, lines_line hp]
      | cons q ps =>
          have hterm : Terminated p := h.terminated p (by simp)
          rw [List.flatten_cons, lines_append hp hterm, ih h.tail]

theorem Lined.cons {p : JsString} {ps : List JsString} (hp : IsLine p) (hterm : Terminated p)
    (h : Lined ps) : Lined (p :: ps) := by
  refine ⟨?_, ?_⟩
  · intro q hq
    rcases List.mem_cons.mp hq with rfl | hq
    · exact hp
    · exact h.line q hq
  · intro q hq
    cases ps with
    | nil => simp at hq
    | cons r ps =>
        rw [List.dropLast_cons_of_ne_nil (List.cons_ne_nil _ _)] at hq
        rcases List.mem_cons.mp hq with rfl | hq
        · exact hterm
        · exact h.terminated q hq

theorem lined_singleton {p : JsString} (hp : IsLine p) : Lined [p] :=
  ⟨fun q hq => by rwa [List.mem_singleton.mp hq], by simp⟩

theorem lined_nil : Lined [] := ⟨by simp, by simp⟩

theorem lined_lines (text : JsString) : Lined (lines text) := by
  induction text with
  | nil => exact lined_nil
  | cons c cs ih =>
      rw [lines]
      split
      · next hc =>
          refine Lined.cons ⟨by simp, by simp⟩ ?_ ih
          simp [Terminated, hc]
      · next hc =>
          cases hrest : lines cs with
          | nil => exact lined_singleton ⟨by simp, by simp⟩
          | cons line rest =>
              rw [hrest] at ih
              have hline := ih.line line List.mem_cons_self
              have hgrown : IsLine (c :: line) := by
                refine ⟨List.cons_ne_nil _ _, ?_⟩
                rw [List.dropLast_cons_of_ne_nil hline.1]
                intro hmem
                rcases List.mem_cons.mp hmem with heq | hmem
                · exact hc heq.symm
                · exact hline.2 hmem
              cases rest with
              | nil => exact lined_singleton hgrown
              | cons next rest =>
                  have hterm : Terminated line := ih.terminated line (by simp)
                  refine Lined.cons hgrown ?_ ih.tail
                  rw [Terminated, List.getLast?_cons, hterm]
                  rfl

theorem Lined.append {ps qs : List JsString} (hline : ∀ p ∈ ps, IsLine p)
    (hterm : ∀ p ∈ ps, Terminated p) (h : Lined qs) : Lined (ps ++ qs) := by
  induction ps with
  | nil => exact h
  | cons p ps ih =>
      exact Lined.cons (hline p List.mem_cons_self) (hterm p List.mem_cons_self)
        (ih (fun q hq => hline q (List.mem_cons_of_mem _ hq))
          fun q hq => hterm q (List.mem_cons_of_mem _ hq))

theorem Lined.of_append_right {ps qs : List JsString} (h : Lined (ps ++ qs)) : Lined qs := by
  induction ps with
  | nil => exact h
  | cons p ps ih => exact ih h.tail

theorem Lined.of_append_left {ps qs : List JsString} (h : Lined (ps ++ qs)) : Lined ps := by
  refine ⟨fun p hp => h.line p (List.mem_append_left _ hp), ?_⟩
  intro p hp
  refine h.terminated p ?_
  cases qs with
  | nil => rwa [List.append_nil]
  | cons q qs =>
      rw [List.dropLast_append_of_ne_nil (List.cons_ne_nil _ _)]
      exact List.mem_append_left _ (List.dropLast_subset _ hp)

/-- Whatever has something behind it ends its line. -/
theorem Lined.terminated_of_append {ps qs : List JsString} (h : Lined (ps ++ qs)) (hne : qs ≠ []) :
    ∀ p ∈ ps, Terminated p := by
  intro p hp
  refine h.terminated p ?_
  rw [List.dropLast_append_of_ne_nil hne]
  exact List.mem_append_left _ hp

theorem slice_subset {α : Type*} (l : List α) (a b : Nat) : ∀ x ∈ slice l a b, x ∈ l :=
  fun _ hx => List.mem_of_mem_take (List.mem_of_mem_drop hx)

/-- Lines of the base in front of its last one. -/
theorem Lined.terminated_slice {base : List JsString} (h : Lined base) {a b : Nat}
    (hb : b < base.length) : ∀ p ∈ slice base a b, Terminated p := by
  intro p hp
  have hmem : p ∈ base.take b := List.mem_of_mem_drop hp
  have hsplit : Lined (base.take b ++ base.drop b) := by rwa [List.take_append_drop]
  refine hsplit.terminated_of_append ?_ p hmem
  rw [Ne, List.drop_eq_nil_iff]
  omega

theorem Lined.drop {base : List JsString} (h : Lined base) (offset : Nat) :
    Lined (base.drop offset) := by
  have hsplit : Lined (base.take offset ++ base.drop offset) := by rwa [List.take_append_drop]
  exact hsplit.of_append_right

/-- An edit inside the base brings whole lines; the last one may bring an
unterminated line, and only behind terminated ones. -/
structure LineEdit (base : List JsString) (e : TextEdit) : Prop where
  lined : Lined e.replacement
  inner : e.stop < base.length → ∀ p ∈ e.replacement, Terminated p
  behind : e.start = base.length → e.replacement ≠ [] → ∀ p ∈ base, Terminated p

theorem lined_splice {base : List JsString} {script : List TextEdit} {offset : Nat}
    (hbase : Lined base) (hfits : Fits base.length offset script)
    (hedits : ∀ e ∈ script, LineEdit base e)
    (hends : script.Pairwise fun e _ => e.stop < base.length) :
    Lined (splice base (fun _ => true) offset script) := by
  induction script generalizing offset with
  | nil =>
      rw [splice]
      exact hbase.drop offset
  | cons e script ih =>
      obtain ⟨hle, hstop, hfits'⟩ := hfits
      obtain ⟨hfirst, hends'⟩ := List.pairwise_cons.mp hends
      have hedit := hedits e List.mem_cons_self
      have hsliceLine : ∀ p ∈ slice base offset e.start, IsLine p :=
        fun p hp => hbase.line p (slice_subset _ _ _ p hp)
      rw [splice, if_pos rfl]
      by_cases hinner : e.stop < base.length
      · refine Lined.append hsliceLine (hbase.terminated_slice (by omega)) ?_
        exact Lined.append hedit.lined.line (hedit.inner hinner)
          (ih hfits' (fun f hf => hedits f (List.mem_cons_of_mem _ hf)) hends')
      · -- the last edit: nothing of the base is left behind it
        have hnil : script = [] := by
          cases script with
          | nil => rfl
          | cons f script => exact absurd (hfirst f List.mem_cons_self) hinner
        have hend : splice base (fun _ => true) e.stop script = [] := by
          rw [hnil, splice, List.drop_eq_nil_iff]
          omega
        rw [hend, List.append_nil]
        by_cases hstart : e.start < base.length
        · exact Lined.append hsliceLine (hbase.terminated_slice hstart) hedit.lined
        · by_cases hempty : e.replacement = []
          · rw [hempty, List.append_nil]
            have hrest : slice base offset e.start = base.drop offset := by
              rw [slice, List.take_of_length_le (by omega)]
            rw [hrest]
            exact hbase.drop offset
          · have hfull : e.start = base.length := by
              have := hfits'.le
              omega
            exact Lined.append hsliceLine
              (fun p hp => hedit.behind hfull hempty p (slice_subset _ _ _ p hp)) hedit.lined

/-! ## The edits of one side -/

/-- Where an edit of a script stands in the result: behind the gap it ends. -/
theorem splice_split (base : List JsString) (before : List TextEdit) (e : TextEdit)
    (behind : List TextEdit) (offset : Nat) :
    ∃ front a, splice base (fun _ => true) offset (before ++ e :: behind) =
        front ++ (slice base a e.start ++
          (e.replacement ++ splice base (fun _ => true) e.stop behind)) ∧
      (a = offset ∨ ∃ f ∈ before, a = f.stop) := by
  induction before generalizing offset with
  | nil => exact ⟨[], offset, by simp [splice], Or.inl rfl⟩
  | cons f before ih =>
      obtain ⟨front, a, heq, ha⟩ := ih f.stop
      refine ⟨slice base offset f.start ++ (f.replacement ++ front), a, ?_, ?_⟩
      · rw [List.cons_append, splice, if_pos rfl, heq]
        simp only [List.append_assoc]
      · right
        rcases ha with rfl | ⟨g, hg, rfl⟩
        · exact ⟨f, List.mem_cons_self, rfl⟩
        · exact ⟨g, List.mem_cons_of_mem _ hg, rfl⟩

theorem slice_ne_nil {α : Type*} {l : List α} {a b : Nat} (hab : a < b) (hb : b ≤ l.length) :
    slice l a b ≠ [] := by
  apply List.ne_nil_of_length_pos
  rw [slice, List.length_drop, List.length_take]
  omega

/-- A script between the lines of two texts replaces lines by lines. -/
theorem lineEdit_of_script {base next : List JsString} {es : List TextEdit} (hbase : Lined base)
    (hnext : Lined next) (h : Script base next es) {e : TextEdit} (he : e ∈ es) :
    LineEdit base e := by
  obtain ⟨before, behind, rfl⟩ := List.append_of_mem he
  obtain ⟨front, a, heq, ha⟩ := splice_split base before e behind 0
  rw [h.spells] at heq
  rw [heq] at hnext
  obtain ⟨-, hrest, hapart⟩ := List.pairwise_append.mp h.apart
  obtain ⟨hafter, -⟩ := List.pairwise_cons.mp hrest
  have htail := hnext.of_append_right.of_append_right
  refine ⟨htail.of_append_left, ?_, ?_⟩
  · intro hinner
    refine htail.terminated_of_append ?_
    -- a line of the base follows: the next edit does not start at this one's end
    cases behind with
    | nil =>
        rw [splice, Ne, List.drop_eq_nil_iff]
        omega
    | cons f behind =>
        have hf := h.valid f (by simp)
        rw [splice]
        intro hnil
        exact slice_ne_nil (hafter f List.mem_cons_self) (hf.1.trans hf.2)
          (List.append_eq_nil_iff.mp hnil).1
  · intro hstart hne p hp
    -- and a line of the base precedes, the last one when the edit is at its end
    have ha' : a < base.length := by
      rcases ha with rfl | ⟨f, hf, rfl⟩
      · exact List.length_pos_of_mem hp
      · have := hapart f hf e List.mem_cons_self
        omega
    rw [← List.take_append_drop a base] at hp
    rcases List.mem_append.mp hp with hp | hp
    · refine hbase.terminated_slice (a := 0) ha' p ?_
      simpa [slice] using hp
    · have hgap : p ∈ slice base a e.start := by
        rw [slice, List.take_of_length_le (by omega)]
        exact hp
      refine hnext.of_append_right.terminated_of_append ?_ p hgap
      exact fun hnil => hne (List.append_eq_nil_iff.mp hnil).1

/-- Every line of a script's result that is not a line of the base was put there
by an edit. -/
theorem mem_splice {base : List JsString} {es : List TextEdit} {offset : Nat} {p : JsString}
    (h : p ∈ splice base (fun _ => true) offset es) : p ∈ base ∨ ∃ e ∈ es, p ∈ e.replacement := by
  induction es generalizing offset with
  | nil => exact Or.inl (List.mem_of_mem_drop h)
  | cons e es ih =>
      rw [splice, if_pos rfl, List.mem_append, List.mem_append] at h
      rcases h with h | h | h
      · exact Or.inl (slice_subset _ _ _ p h)
      · exact Or.inr ⟨e, List.mem_cons_self, h⟩
      · rcases ih h with h | ⟨f, hf, h⟩
        · exact Or.inl h
        · exact Or.inr ⟨f, List.mem_cons_of_mem _ hf, h⟩

theorem mem_splice_of_mem {base : List JsString} {es : List TextEdit} {e : TextEdit} (he : e ∈ es)
    {offset : Nat} {p : JsString} (hp : p ∈ e.replacement) :
    p ∈ splice base (fun _ => true) offset es := by
  obtain ⟨before, behind, rfl⟩ := List.append_of_mem he
  obtain ⟨front, a, heq, -⟩ := splice_split base before e behind offset
  rw [heq]
  simp [hp]

/-! ## The merge keeps the lines of both sides -/

/-- Behind an edit of the combined script that another one follows there is still
a line of the base. -/
theorem combine_stop_lt {base localNext remoteNext : List JsString}
    {localEdits remoteEdits : List TextEdit} {found : List Nat}
    (hlocal : Script base localNext localEdits) (hremote : Script base remoteNext remoteEdits)
    (h : findDuplicates localEdits remoteEdits = some found) :
    (combine localEdits remoteEdits found).Pairwise fun e _ => e.stop < base.length := by
  have hclash : ∀ l ∈ localEdits, ∀ r ∈ remoteEdits, ¬Clash l r := by
    intro l hl r hr hlr
    have hnone := findDuplicates_eq_none_iff.mpr ⟨l, hl, r, hr, hlr⟩
    rw [h] at hnone
    cases hnone
  refine (pairwise_before_combine hlocal hremote h).imp_of_mem ?_
  intro e f he hf hbefore
  have hvalid : ∀ g ∈ combine localEdits remoteEdits found,
      g.start ≤ g.stop ∧ g.stop ≤ base.length := by
    intro g hg
    rcases (mem_combine h).mp hg with hg | hg
    · exact hlocal.valid g hg
    · exact hremote.valid g hg
  obtain ⟨he1, he2⟩ := hvalid e he
  obtain ⟨hf1, hf2⟩ := hvalid f hf
  -- otherwise the later edit inserts at the end of the earlier one
  by_contra hnot
  have hend : e.stop = base.length ∧ f.start = e.stop ∧ f.stop = e.stop := by
    have := hbefore.1
    omega
  have hover : overlaps e f = true ∧ overlaps f e = true := by
    have := hbefore.2
    rw [overlaps_iff he1 hf1, overlaps_iff hf1 he1]
    unfold Edit.Touches Edit.Insertion
    omega
  have hne : e ≠ f := fun heq => lt_irrefl _ (heq ▸ hbefore.2)
  rcases (mem_combine h).mp he with hel | her <;> rcases (mem_combine h).mp hf with hfl | hfr
  · have := hlocal.stop_lt_start hel hfl hbefore.2
    omega
  · exact hclash e hel f hfr ⟨hne, hover.1⟩
  · exact hclash f hfl e her ⟨hne.symm, hover.2⟩
  · have := hremote.stop_lt_start her hfr hbefore.2
    omega

/-- A line that either side brings into the merge is a line of the merge. -/
theorem mem_lines_merge {diffArrays : List JsString → List JsString → List ArrayChange}
    (hdiff : ∀ base next, LineDiff base next (diffArrays base next))
    {baseText localText remoteText content : JsString}
    (hmerge : mergeText diffArrays baseText localText remoteText = .merged content)
    {line : JsString} (hbase : line ∉ lines baseText)
    (hline : line ∈ lines localText ∨ line ∈ lines remoteText)
    (hlb : localText ≠ baseText) (hrb : remoteText ≠ baseText) (hlr : localText ≠ remoteText) :
    line ∈ lines content := by
  have hlocal : Script (lines baseText) (lines localText)
      (edits diffArrays (lines baseText) (lines localText)) := script_edits (hdiff _ _)
  have hremote : Script (lines baseText) (lines remoteText)
      (edits diffArrays (lines baseText) (lines remoteText)) := script_edits (hdiff _ _)
  rw [mergeText, if_neg hlr, if_neg hlb, if_neg hrb] at hmerge
  cases hfound : findDuplicates (edits diffArrays (lines baseText) (lines localText))
      (edits diffArrays (lines baseText) (lines remoteText)) with
  | none =>
      simp only [hfound] at hmerge
      cases hmerge
  | some found =>
      simp only [hfound] at hmerge
      obtain rfl := TextMergeResult.merged.inj hmerge
      have hmerges := merges_combine hlocal hremote hfound
      have hfits := fits_of_pairwise_before hmerges.ordered hmerges.valid (Nat.zero_le _)
        fun _ _ => Nat.zero_le _
      have hedits : ∀ e ∈ combine (edits diffArrays (lines baseText) (lines localText))
          (edits diffArrays (lines baseText) (lines remoteText)) found,
          LineEdit (lines baseText) e := by
        intro e he
        rcases (hmerges.mem_iff e).mp he with he | he
        · exact lineEdit_of_script (lined_lines _) (lined_lines _) hlocal he
        · exact lineEdit_of_script (lined_lines _) (lined_lines _) hremote he
      have hlined := lined_splice (lined_lines _) hfits hedits
        (combine_stop_lt hlocal hremote hfound)
      rw [applyCombined_eq_splice, lines_flatten hlined]
      have hbrought : ∃ e, (e ∈ edits diffArrays (lines baseText) (lines localText) ∨
          e ∈ edits diffArrays (lines baseText) (lines remoteText)) ∧ line ∈ e.replacement := by
        rcases hline with hline | hline
        · rw [← hlocal.spells] at hline
          obtain ⟨e, he, hmem⟩ := (mem_splice hline).resolve_left hbase
          exact ⟨e, Or.inl he, hmem⟩
        · rw [← hremote.spells] at hline
          obtain ⟨e, he, hmem⟩ := (mem_splice hline).resolve_left hbase
          exact ⟨e, Or.inr he, hmem⟩
      obtain ⟨e, he, hmem⟩ := hbrought
      exact mem_splice_of_mem ((hmerges.mem_iff e).mpr he) hmem

end Realtime.TextMerge
