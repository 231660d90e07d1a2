import Realtime.Notes.Frontmatter

/-!
# What an edit of a note keeps

A patch of the frontmatter shall keep the body and the keys it does not name, and refuse a block
that is not a mapping; a new body shall keep the block. `patchKeeps_iff` and `bodyKeeps_iff` say
for which notes the code does so: those whose block is found where a reader sees it.
-/

namespace Realtime.Notes

open Lib Lib.Str

/-! ## Notes read in one way -/

/-- The line behind the first dashes is not of dashes, and the next line that begins with dashes
goes no further. -/
def Plain (content : Str) : Prop :=
  ∀ l ls, content.splitOn '\n' = dashes :: l :: ls →
    l ≠ dashes ∧ ∀ p, firstMark ls = some p → p.2.1 = []

/-- The text of the block the code reads, and the body it takes. -/
def taken (content : Str) : Str × Str := (foundBlock content).getD ([], content)

theorem behindMark_nil (post : List Str) : behindMark ([], post) = joinLines post := by
  unfold behindMark
  show [] ++ (if post = [] then [] else if ([] : Str) = [] then joinLines post else _) = _
  rw [if_pos (rfl : ([] : Str) = [])]
  split_ifs with h
  · rw [h]
    rfl
  · rfl

theorem Plain.found {content : Str} (h : Plain content) :
    foundBlock content = noteBlock content := by
  by_cases hlines : ∃ l ls, content.splitOn '\n' = dashes :: l :: ls
  · obtain ⟨l, ls, hsplit⟩ := hlines
    obtain ⟨hl, hmark⟩ := h l ls hsplit
    rw [foundBlock_lines hsplit]
    unfold noteBlock noteLines
    rw [hsplit]
    show _ = Option.map _ (if dashes = dashes then splitDashes (l :: ls) else _)
    rw [if_pos rfl, splitDashes, if_neg hl, splitDashes_eq]
    cases hfirst : firstMark ls with
    | none => rfl
    | some p =>
        obtain ⟨pre, tail, post⟩ := p
        have htail : tail = [] := hmark _ hfirst
        subst htail
        rw [Option.map_some, Option.bind_some, if_pos rfl, behindMark_nil]
        rfl
  · have hno := no_block fun l ls heq => hlines ⟨l, ls, heq⟩
    unfold noteBlock
    rw [hno.1, hno.2]
    rfl

theorem Plain.taken {content : Str} (h : Plain content) : (taken content).2 = bodyOf content := by
  unfold Notes.taken bodyOf
  rw [h.found]
  cases noteBlock content <;> rfl

theorem length_joinLines_cons (l : Str) (ls : List Str) :
    l.length + (joinLines ls).length ≤ (joinLines (l :: ls)).length := by
  rw [joinLines_cons]
  split_ifs with h
  · rw [h]
    exact Nat.le_of_eq (by rw [List.append_nil]; rfl)
  · rw [List.length_append, List.length_cons]
    omega

theorem length_joinLines_append (pre post : List Str) :
    (joinLines post).length ≤ (joinLines (pre ++ post)).length := by
  induction pre with
  | nil => exact le_rfl
  | cons l pre ih =>
      have := length_joinLines_cons l (pre ++ post)
      rw [List.cons_append]
      omega

theorem length_joinLines_middle (pre : List Str) (l : Str) (post : List Str) :
    (joinLines pre).length + l.length ≤ (joinLines (pre ++ l :: post)).length := by
  induction pre with
  | nil =>
      have hl := length_joinLines_cons l post
      have hnil : (joinLines []).length = 0 := rfl
      rw [List.nil_append]
      omega
  | cons l' pre ih =>
      have hne : pre ++ l :: post ≠ [] := by simp
      rw [List.cons_append, joinLines_cons l' (pre ++ l :: post), if_neg hne, joinLines_cons l',
        List.length_append, List.length_append, List.length_cons]
      split_ifs
      · rw [List.length_nil]
        have hl := length_joinLines_append pre (l :: post)
        have := length_joinLines_cons l post
        omega
      · rw [List.length_cons]
        omega

theorem length_behindMark (tail : Str) (post : List Str) :
    (behindMark (tail, post)).length ≤ (joinLines ((dashes ++ tail) :: post)).length - 3 ∧
      (joinLines ((dashes ++ tail) :: post)).length ≤ (behindMark (tail, post)).length + 4 := by
  have hthree : dashes.length = 3 := rfl
  unfold behindMark
  rw [joinLines_cons]
  show (tail ++ _).length ≤ _ ∧
    _ ≤ (tail ++ if post = [] then _ else if tail = [] then _ else _).length + 4
  split_ifs <;> simp only [List.length_append, List.length_cons, List.length_nil] <;> omega

theorem length_withBlock (text body : Str) :
    (withBlock text body).length = text.length + body.length + 9 := by
  unfold withBlock
  simp only [List.length_append]
  have : "---\n".toList.length = 4 := rfl
  have : "\n---\n".toList.length = 5 := rfl
  omega

theorem noteBlock_withBlock_ne (text body : Str) : noteBlock (withBlock text body) ≠ none := by
  unfold noteBlock noteLines
  rw [splitOn_withBlock]
  show Option.map _ (if dashes = dashes then _ else _) ≠ none
  rw [if_pos rfl, Ne, Option.map_eq_none_iff]
  induction text.splitOn '\n' with
  | nil => exact Option.some_ne_none _
  | cons l ls ih =>
      rw [List.cons_append, splitDashes]
      split_ifs
      · exact not_false
      · rw [Option.map_eq_none_iff]
        exact ih

theorem dashes_prefix_withBlock (text body : Str) : dashes <+: withBlock text body := by
  unfold withBlock
  rw [List.append_assoc, List.append_assoc]
  exact List.IsPrefix.trans (by decide) (List.prefix_append "---\n".toList _)

theorem differ_of_longer {rest body : Str} (h : body.length < rest.length) :
    rest ≠ body ∧ ∀ text, withBlock text rest ≠ body := by
  refine ⟨fun heq => by rw [heq] at h; omega, fun text heq => ?_⟩
  have hlength := congrArg List.length heq
  rw [length_withBlock] at hlength
  omega

/-- Elsewhere the code takes another body than a reader does, and the body a reader has is not a
block in front of what the code took. -/
theorem taken_of_not_plain {content : Str} (h : ¬ Plain content) :
    (taken content).2 ≠ bodyOf content ∧
      ∀ text, withBlock text (taken content).2 ≠ bodyOf content := by
  unfold Plain at h
  push Not at h
  obtain ⟨l, ls, hsplit, h⟩ := h
  have hcontent : joinLines (dashes :: l :: ls) = content := hsplit ▸ joinLines_splitOn content
  have hlonger := length_joinLines_cons dashes (l :: ls)
  have hls := length_joinLines_cons l ls
  have hthree : dashes.length = 3 := rfl
  rw [hcontent] at hlonger
  have hnote : noteLines content = splitDashes (l :: ls) := by
    unfold noteLines
    rw [hsplit]
    exact if_pos rfl
  by_cases hl : l = dashes
  · have hbody : bodyOf content = joinLines ls := by
      unfold bodyOf noteBlock
      rw [hnote, splitDashes, if_pos hl]
      rfl
    rw [hbody]
    cases hfirst : firstMark ls with
    | none =>
        have htaken : (taken content).2 = content := by
          unfold taken
          rw [foundBlock_lines hsplit, hfirst]
          rfl
        rw [htaken]
        exact differ_of_longer (by omega)
    | some p =>
        obtain ⟨pre, tail, post⟩ := p
        obtain ⟨rfl, hpre⟩ := firstMark_spec hfirst
        have htaken : (taken content).2 = behindMark (tail, post) := by
          unfold taken
          rw [foundBlock_lines hsplit, hfirst]
          rfl
        rw [htaken]
        have hmark := length_behindMark tail post
        have happend := length_joinLines_append pre ((dashes ++ tail) :: post)
        have hpos := length_joinLines_cons (dashes ++ tail) post
        rw [List.length_append] at hpos
        refine ⟨fun heq => ?_, fun text heq => ?_⟩
        · rw [heq] at hmark
          omega
        -- a block begins with dashes, so nothing stands before the marked line
        · cases pre with
          | nil =>
              have hlength := congrArg List.length heq
              rw [length_withBlock, List.nil_append] at hlength
              omega
          | cons l' pre =>
              refine hpre l' List.mem_cons_self ?_
              rw [List.cons_append] at heq
              have hfront := dashes_prefix_withBlock text (behindMark (tail, post))
              rw [heq] at hfront
              exact (prefix_joinLines (by decide)).mp hfront
  · obtain ⟨⟨pre, tail, post⟩, hfirst, htail⟩ := h hl
    obtain ⟨rfl, -⟩ := firstMark_spec hfirst
    replace htail : tail ≠ [] := htail
    have htaken : (taken content).2 = behindMark (tail, post) := by
      unfold taken
      rw [foundBlock_lines hsplit, hfirst]
      rfl
    have hmark := length_behindMark tail post
    have happend := length_joinLines_append pre ((dashes ++ tail) :: post)
    have hpos := length_joinLines_cons (dashes ++ tail) post
    rw [List.length_append] at hpos
    have hsplitDashes := splitDashes_eq (pre ++ (dashes ++ tail) :: post)
    rw [hfirst, Option.bind_some, if_neg htail] at hsplitDashes
    rw [htaken]
    cases hpost : splitDashes post with
    | none =>
        have hblock : noteBlock content = none := by
          unfold noteBlock
          rw [hnote, splitDashes, if_neg hl, hsplitDashes, hpost]
          rfl
        have hbody : bodyOf content = content := by
          unfold bodyOf
          rw [hblock]
          rfl
        rw [hbody]
        refine ⟨fun heq => ?_, fun text heq => ?_⟩
        · rw [heq] at hmark
          omega
        · exact noteBlock_withBlock_ne _ _ (heq ▸ hblock)
    | some q =>
        obtain ⟨pre', post'⟩ := q
        obtain ⟨rfl, -⟩ := splitDashes_spec hpost
        have hbody : bodyOf content = joinLines post' := by
          unfold bodyOf noteBlock
          rw [hnote, splitDashes, if_neg hl, hsplitDashes, hpost]
          rfl
        rw [hbody]
        refine differ_of_longer ?_
        have hpost' := length_joinLines_append pre' (dashes :: post')
        have hdashes := length_joinLines_cons dashes post'
        omega

theorem plain_iff {content : Str} : Plain content ↔ (taken content).2 = bodyOf content :=
  ⟨Plain.taken, fun h => by_contra fun hno => (taken_of_not_plain hno).1 h⟩

/-! ## A new body -/

/-- The code keeps what stands before the body it takes. -/
theorem replaceBody_taken (content body : Str) :
    ∃ front, content = front ++ (taken content).2 ∧ replaceBody content body = front ++ body := by
  unfold taken foundBlock replaceBody
  cases frontmatterBounds content with
  | none => exact ⟨[], rfl, rfl⟩
  | some p => exact ⟨content.take p.2, (List.take_append_drop _ _).symm, rfl⟩

/-- A new body shall come in place of the old one, and the block read as before. -/
def BodyKeeps (content body : Str) : Prop :=
  ∀ text old, noteBlock content = some (text, old) →
    (∃ front, content = front ++ old ∧ replaceBody content body = front ++ body) ∧
      (noteBlock (replaceBody content body)).map Prod.fst = some text

/-- The last line of the block is ended, or a body that does not go on in it comes behind. -/
def BodyFits (content body : Str) : Prop :=
  ∀ p, noteLines content = some p →
    Plain content ∧ (p.2 ≠ [] ∨ body = [] ∨ body.head? = some '\n')

/-- The lines of a note with a block. -/
theorem noteLines_eq_some_iff {content : Str} {pre post : List Str} :
    noteLines content = some (pre, post) ↔
      content.splitOn '\n' = dashes :: (pre ++ dashes :: post) ∧ ∀ l ∈ pre, l ≠ dashes := by
  unfold noteLines
  cases hsplit : content.splitOn '\n' with
  | nil => exact absurd hsplit (List.splitOn_ne_nil _ _)
  | cons l ls =>
      show (if l = dashes then splitDashes ls else none) = _ ↔ _
      rw [List.cons.injEq]
      split_ifs with hl
      · rw [and_iff_right hl]
        exact ⟨splitDashes_spec, fun h => h.1 ▸ splitDashes_append _ h.2⟩
      · exact iff_of_false (by simp) fun h => hl h.1.1

/-- The first line through the last line of the block. -/
def blockLines (pre : List Str) : Str := joinLines (dashes :: (pre ++ [dashes]))

/-- A text behind a line without an end goes on in it. -/
theorem joinLines_concat (ls : List Str) (l s : Str) (rest : List Str) :
    joinLines (ls ++ [l]) ++ joinLines (s :: rest) = joinLines (ls ++ (l ++ s) :: rest) := by
  induction ls with
  | nil =>
      rw [List.nil_append, List.nil_append, joinLines_cons l, if_pos rfl, List.append_nil,
        joinLines_cons s, joinLines_cons (l ++ s), List.append_assoc]
  | cons l' ls ih =>
      rw [List.cons_append, List.cons_append, joinLines_cons l', joinLines_cons l',
        if_neg (by simp), if_neg (by simp), List.append_assoc, List.cons_append, ih]

theorem noteLines_ended {pre : List Str} (body : Str) (hpre : ∀ l ∈ pre, '\n' ∉ l ∧ l ≠ dashes) :
    noteLines (blockLines pre ++ '\n' :: body) = some (pre, body.splitOn '\n') := by
  have hjoin : blockLines pre ++ '\n' :: body =
      joinLines (dashes :: (pre ++ dashes :: body.splitOn '\n')) := by
    have happend := @joinLines_append (dashes :: (pre ++ [dashes])) (body.splitOn '\n')
      (List.cons_ne_nil _ _) (List.splitOn_ne_nil _ _)
    rw [joinLines_splitOn, List.cons_append, List.append_assoc, List.singleton_append] at happend
    exact happend.symm
  rw [hjoin]
  refine noteLines_eq_some_iff.mpr ⟨?_, fun l hl => (hpre l hl).2⟩
  exact splitOn_joinLines (List.forall_mem_cons.mpr ⟨by decide, List.forall_mem_append.mpr
    ⟨fun l hl => (hpre l hl).1, List.forall_mem_cons.mpr
      ⟨by decide, fun l hl => not_mem_of_mem_splitOn hl⟩⟩⟩) (List.cons_ne_nil _ _)

/-- A body that goes on in the last line of the block takes it away. -/
theorem noteBlock_glued {pre : List Str} {c : Char} {body : Str}
    (hpre : ∀ l ∈ pre, '\n' ∉ l ∧ l ≠ dashes) (hc : c ≠ '\n') :
    (noteBlock (blockLines pre ++ c :: body)).map Prod.fst ≠ some (joinLines pre) := by
  obtain ⟨l, ls, hsplit⟩ := List.exists_cons_of_ne_nil (List.splitOn_ne_nil '\n' (c :: body))
  have hl : l ≠ [] := by
    rintro rfl
    have hjoin := joinLines_splitOn (c :: body)
    rw [hsplit, joinLines_cons, List.nil_append] at hjoin
    split_ifs at hjoin
    exact hc (List.cons.inj hjoin).1.symm
  have hlines : (blockLines pre ++ c :: body).splitOn '\n' =
      dashes :: (pre ++ (dashes ++ l) :: ls) := by
    have hbody : ∀ l' ∈ l :: ls, '\n' ∉ l' :=
      fun l' hl' => not_mem_of_mem_splitOn (hsplit ▸ hl')
    rw [← joinLines_splitOn (c :: body), hsplit]
    show (joinLines (dashes :: pre ++ [dashes]) ++ _).splitOn '\n' = _
    rw [joinLines_concat]
    refine splitOn_joinLines (List.forall_mem_cons.mpr ⟨by decide, List.forall_mem_append.mpr
      ⟨fun l' hl' => (hpre l' hl').1, List.forall_mem_cons.mpr ⟨?_, fun l' hl' => ?_⟩⟩⟩)
      (List.cons_ne_nil _ _)
    · rw [List.mem_append, not_or]
      exact ⟨by decide, hbody l List.mem_cons_self⟩
    · exact hbody l' (List.mem_cons_of_mem _ hl')
  intro heq
  obtain ⟨⟨text, old⟩, hblock, rfl⟩ := Option.map_eq_some_iff.mp heq
  obtain ⟨⟨pre', post⟩, hnote, hjoin⟩ := Option.map_eq_some_iff.mp hblock
  obtain ⟨hlines', -⟩ := noteLines_eq_some_iff.mp hnote
  have hne : dashes ++ l ≠ dashes := fun h => hl (List.append_right_eq_self.mp h)
  have hparts : pre ++ (dashes ++ l) :: ls = pre' ++ dashes :: post :=
    (List.cons.inj (hlines.symm.trans hlines')).2
  -- the line without its end is no line of dashes, so the block reaches beyond it
  rcases List.append_eq_append_iff.mp hparts with ⟨more, hpre', hmore⟩ | ⟨more, rfl, hmore⟩
  · cases more with
    | nil => exact hne (List.cons.inj hmore).1
    | cons l' more =>
        obtain ⟨rfl, -⟩ := List.cons.inj hmore
        have hlength := length_joinLines_middle pre (dashes ++ l) more
        rw [← hpre', (Prod.mk.inj hjoin).1, List.length_append] at hlength
        have hthree : dashes.length = 3 := rfl
        omega
  · cases more with
    | nil => exact hne (List.cons.inj hmore).1.symm
    | cons l' more =>
        obtain ⟨rfl, -⟩ := List.cons.inj hmore
        exact (hpre dashes (by simp)).2 rfl

theorem bodyKeeps_iff (content body : Str) : BodyKeeps content body ↔ BodyFits content body := by
  obtain ⟨front', hcontent', hreplace⟩ := replaceBody_taken content body
  constructor
  · rintro h ⟨pre, post⟩ hnote
    have hblock : noteBlock content = some (joinLines pre, joinLines post) := by
      unfold noteBlock
      rw [hnote]
      rfl
    have hbody : bodyOf content = joinLines post := by
      unfold bodyOf
      rw [hblock]
      rfl
    obtain ⟨⟨front, hcontent, hfront⟩, hkept⟩ := h _ _ hblock
    have heq : front' = front := List.append_cancel_right (hreplace.symm.trans hfront)
    subst heq
    refine ⟨plain_iff.mpr ?_, ?_⟩
    · rw [hbody]
      exact List.append_cancel_left (hcontent'.symm.trans hcontent)
    · by_contra hno
      push Not at hno
      obtain ⟨rfl, hne, hhead⟩ := hno
      obtain ⟨hlines, hpre⟩ := noteLines_eq_some_iff.mp hnote
      have hjoin : front' = blockLines pre := by
        rw [← joinLines_splitOn content, hlines] at hcontent
        exact (hcontent.trans (List.append_nil _)).symm
      cases body with
      | nil => exact hne rfl
      | cons c body =>
          rw [hfront, hjoin] at hkept
          refine noteBlock_glued (fun l hl => ⟨?_, hpre l hl⟩) (fun hc => hhead (hc ▸ rfl)) hkept
          exact not_mem_of_mem_splitOn (l := content) (hlines ▸ by simp [hl])
  · intro h text old hblock
    obtain ⟨⟨pre, post⟩, hnote, heq⟩ := Option.map_eq_some_iff.mp hblock
    obtain ⟨rfl, rfl⟩ := Prod.mk.inj heq
    obtain ⟨hplain, hfits⟩ := h _ hnote
    have hbody : bodyOf content = joinLines post := by
      unfold bodyOf
      rw [hblock]
      rfl
    rw [hplain.taken, hbody] at hcontent'
    refine ⟨⟨front', hcontent', hreplace⟩, ?_⟩
    obtain ⟨hlines, hpre⟩ := noteLines_eq_some_iff.mp hnote
    have hpre' : ∀ l ∈ pre, '\n' ∉ l ∧ l ≠ dashes := fun l hl =>
      ⟨not_mem_of_mem_splitOn (l := content) (hlines ▸ by simp [hl]), hpre l hl⟩
    have hjoin := joinLines_splitOn content
    rw [hlines] at hjoin
    rw [hreplace]
    by_cases hpost : post = []
    · subst hpost
      have hfront : front' = blockLines pre :=
        ((List.append_nil _).symm.trans (hcontent'.symm.trans hjoin.symm))
      rcases hfits with hno | rfl | hhead
      · exact absurd rfl hno
      · rw [List.append_nil, hfront]
        show (noteBlock (joinLines _)).map _ = _
        rw [hjoin, hblock]
        rfl
      · obtain ⟨body, rfl⟩ := List.head?_eq_some_iff.mp hhead
        rw [hfront]
        unfold noteBlock
        rw [noteLines_ended body hpre']
        rfl
    · have hfront : front' = blockLines pre ++ ['\n'] := by
        have happend := @joinLines_append (dashes :: (pre ++ [dashes])) post
          (List.cons_ne_nil _ _) hpost
        rw [List.cons_append, List.append_assoc, List.singleton_append, hjoin, hcontent'] at happend
        refine List.append_cancel_right (happend.trans ?_)
        rw [List.append_assoc]
        rfl
      rw [hfront, List.append_assoc, List.singleton_append]
      unfold noteBlock
      rw [noteLines_ended body hpre']
      rfl

/-! ## A patch -/

section Patch

variable {V : Type*} {y : SerdeYaml V}

theorem JsonMap.ext_get {map map' : JsonMap V} (h : ∀ key, map.get key = map'.get key) :
    map = map' := by
  obtain ⟨entries, sorted⟩ := map
  obtain ⟨entries', sorted'⟩ := map'
  obtain rfl : entries = entries' := sorted.ext sorted' h
  rfl

/-- The keys of the old mapping, without those taken out and with those set. -/
theorem get_patched (map : JsonMap V) (patch : PatchFrontmatterBody V) (key : Str) :
    (patched map patch).get key =
      (patch.set.get key).or (if key ∈ patch.unset then none else map.get key) := by
  have hinsert : ∀ (entries : List (Str × V)) (map : JsonMap V), OrderedMap.Sorted entries →
      (entries.foldl JsonMap.insert map).get key = (Assoc.get key entries).or (map.get key) := by
    intro entries
    induction entries with
    | nil => exact fun _ _ => rfl
    | cons e entries ih =>
        intro map hsorted
        obtain ⟨hhead, htail⟩ := OrderedMap.sorted_cons.mp hsorted
        rw [List.foldl_cons, ih _ htail, Assoc.get_cons]
        show (Assoc.get key entries).or (Assoc.get key (OrderedMap.insert _ _ _)) = _
        rw [OrderedMap.get_insert _ _ _ _ map.sorted]
        split_ifs with hkey
        · have hnone : Assoc.get key entries = none :=
            Assoc.get_eq_none_iff.mpr fun hmem => lt_irrefl _ (hkey ▸ hhead key hmem)
          rw [hnone]
          rfl
        · rfl
  have hremove : ∀ (unset : List Str) (map : JsonMap V),
      (unset.foldl JsonMap.remove map).get key = if key ∈ unset then none else map.get key := by
    intro unset
    induction unset with
    | nil => exact fun map => (if_neg List.not_mem_nil).symm
    | cons k unset ih =>
        intro map
        rw [List.foldl_cons, ih]
        show (if key ∈ unset then none else Assoc.get key (Assoc.erase k map.entries)) = _
        rw [Assoc.get_erase]
        by_cases hunset : key ∈ unset
        · rw [if_pos hunset, if_pos (List.mem_cons_of_mem _ hunset)]
        · rw [if_neg hunset]
          by_cases hk : k = key
          · rw [if_pos hk, if_pos (hk ▸ List.mem_cons_self)]
          · rw [if_neg hk, if_neg (by simp [hunset, Ne.symm hk])]
            rfl
  unfold patched
  rw [hinsert _ _ patch.set.sorted, hremove]
  rfl

variable (y)

/-- The mapping a reader has in a note: none where the block is not a mapping. -/
def oldMapping (content : Str) : Option (JsonMap V) :=
  match noteBlock content with
  | none => some .empty
  | some (text, _) =>
      match y.fromStr text with
      | .mapping map => some map
      | _ => if trim text = [] then some .empty else none

/-- What a patch shall leave: the body, and the old mapping without the keys taken out and with
those set. -/
def PatchKeeps (content : Str) (patch : PatchFrontmatterBody V) : Prop :=
  match oldMapping y content with
  | none => patchFrontmatterContent y content patch = none
  | some map =>
      ∃ result map', patchFrontmatterContent y content patch = some result ∧
        (result = bodyOf content ∨ (noteBlock result).map Prod.snd = some (bodyOf content)) ∧
        parseFrontmatterValue y result = some map' ∧
        ∀ key, map'.get key =
          (patch.set.get key).or (if key ∈ patch.unset then none else map.get key)

/-- The mapping the code patches. -/
def takenMapping (content : Str) : JsonMap V :=
  match y.fromStr (taken content).1 with
  | .mapping map => map
  | _ => .empty

/-- A text at whose front no key would be read. -/
def ReadsEmpty (content : Str) : Prop :=
  ∀ p, foundBlock content = some p →
    match y.fromStr p.1 with
    | .invalid => False
    | .other => True
    | .mapping map => map.entries = []

/-- The block is a mapping, and either it is written again and its text reads as what was written,
or it is emptied and no key is read in the body, or the code takes another block, empties it and
leaves a note with the body and the keys wanted. -/
def PatchFits (content : Str) (patch : PatchFrontmatterBody V) : Prop :=
  ∃ map, oldMapping y content = some map ∧
    (Plain content ∧ (patched map patch).entries ≠ [] ∧
        y.fromStr (trimEnd (y.toString (patched map patch))) = .mapping (patched map patch) ∨
      Plain content ∧ (patched map patch).entries = [] ∧ ReadsEmpty y (bodyOf content) ∨
      ¬ Plain content ∧ (patched (takenMapping y content) patch).entries = [] ∧
        (noteBlock (taken content).2).map Prod.snd = some (bodyOf content) ∧
        parseFrontmatterValue y (taken content).2 = some (patched map patch))

variable {y}

theorem patchFrontmatterContent_eq (content : Str) (patch : PatchFrontmatterBody V) :
    patchFrontmatterContent y content patch =
      if (patched (takenMapping y content) patch).entries = [] then some (taken content).2
      else some (withBlock (trimEnd (y.toString (patched (takenMapping y content) patch)))
        (taken content).2) := by
  unfold patchFrontmatterContent takenMapping taken foundBlock
  cases frontmatterBounds content with
  | none => rfl
  | some p => rfl

theorem parseFrontmatterValue_found (content : Str) :
    parseFrontmatterValue y content =
      match foundBlock content with
      | none => some .empty
      | some p =>
          match y.fromStr p.1 with
          | .invalid => none
          | .other => some .empty
          | .mapping map => some map := by
  unfold parseFrontmatterValue foundBlock
  cases frontmatterBounds content <;> rfl

theorem JsonMap.entries_eq_nil {map : JsonMap V} : map.entries = [] ↔ map = .empty :=
  ⟨fun h => JsonMap.ext_get fun key => congrArg (Assoc.get key) h, fun h => h ▸ rfl⟩

theorem readsEmpty_iff {content : Str} :
    ReadsEmpty y content ↔ parseFrontmatterValue y content = some .empty := by
  rw [parseFrontmatterValue_found]
  unfold ReadsEmpty
  cases hfound : foundBlock content with
  | none => exact iff_of_true (fun p hp => absurd hp.symm (Option.some_ne_none p)) rfl
  | some p =>
      show (∀ q, some p = some q → _) ↔ _
      simp only [Option.some.injEq, forall_eq']
      cases y.fromStr p.1 with
      | invalid => exact iff_of_false not_false (by simp)
      | other => exact iff_of_true trivial rfl
      | mapping map => exact JsonMap.entries_eq_nil.trans Option.some_inj.symm

/-- A line of the front of a text is the front of a line. -/
theorem line_prefix {front l : Str} (back : Str) (h : l ∈ front.splitOn '\n') :
    ∃ l' ∈ (front ++ back).splitOn '\n', l <+: l' := by
  obtain ⟨s, rest, hback⟩ := List.exists_cons_of_ne_nil (List.splitOn_ne_nil '\n' back)
  obtain ⟨ls, last, hfront⟩ : ∃ ls last, front.splitOn '\n' = ls ++ [last] :=
    ⟨_, _, (List.dropLast_append_getLast (List.splitOn_ne_nil '\n' front)).symm⟩
  have hline : ∀ l ∈ front.splitOn '\n', '\n' ∉ l := fun _ hl => not_mem_of_mem_splitOn hl
  have hline' : ∀ l ∈ back.splitOn '\n', '\n' ∉ l := fun _ hl => not_mem_of_mem_splitOn hl
  rw [hfront] at hline h
  rw [hback] at hline'
  have hsplit : (front ++ back).splitOn '\n' = ls ++ (last ++ s) :: rest := by
    rw [← joinLines_splitOn front, ← joinLines_splitOn back, hfront, hback, joinLines_concat]
    refine splitOn_joinLines (List.forall_mem_append.mpr ⟨fun l hl => ?_,
      List.forall_mem_cons.mpr ⟨?_, fun l hl => ?_⟩⟩) (by simp)
    · exact hline l (List.mem_append_left _ hl)
    · rw [List.mem_append, not_or]
      exact ⟨hline last (by simp), hline' s List.mem_cons_self⟩
    · exact hline' l (List.mem_cons_of_mem _ hl)
  rw [hsplit]
  rcases List.mem_append.mp h with hl | hl
  · exact ⟨l, List.mem_append_left _ hl, List.prefix_rfl⟩
  · rw [List.mem_singleton.mp hl]
    exact ⟨last ++ s, by simp, List.prefix_append _ _⟩

theorem Plain.takenMapping {content : Str} {map : JsonMap V} (h : Plain content)
    (hempty : ∀ map, y.fromStr [] ≠ .mapping map) (hold : oldMapping y content = some map) :
    takenMapping y content = map := by
  unfold Notes.takenMapping Notes.taken
  unfold oldMapping at hold
  rw [h.found]
  cases hblock : noteBlock content with
  | none =>
      rw [hblock] at hold
      show (match y.fromStr [] with | .mapping map => map | _ => .empty) = map
      cases hempty' : y.fromStr [] with
      | mapping map => exact absurd hempty' (hempty map)
      | _ => exact Option.some.inj hold
  | some p =>
      rw [hblock] at hold
      show (match y.fromStr p.1 with | .mapping map => map | _ => .empty) = map
      replace hold : (match y.fromStr p.1 with
        | .mapping map => some map
        | _ => if trim p.1 = [] then some .empty else none) = some map := hold
      cases hyaml : y.fromStr p.1 with
      | mapping map' =>
          rw [hyaml] at hold
          exact Option.some.inj hold
      | _ =>
          rw [hyaml] at hold
          exact Option.some.inj (Option.ite_none_right_eq_some.mp hold).2

/-- What is asked of the one result. -/
theorem patchKeeps_result {content result : Str} {patch : PatchFrontmatterBody V}
    {map : JsonMap V} (hold : oldMapping y content = some map)
    (hresult : patchFrontmatterContent y content patch = some result) :
    PatchKeeps y content patch ↔
      (result = bodyOf content ∨ (noteBlock result).map Prod.snd = some (bodyOf content)) ∧
        parseFrontmatterValue y result = some (patched map patch) := by
  unfold PatchKeeps
  rw [hold, hresult]
  constructor
  · rintro ⟨result', map', heq, hbody, hparse, hget⟩
    cases heq
    have hmap : map' = patched map patch :=
      JsonMap.ext_get fun key => (hget key).trans (get_patched map patch key).symm
    exact ⟨hbody, hmap ▸ hparse⟩
  · rintro ⟨hbody, hparse⟩
    exact ⟨result, _, rfl, hbody, hparse, get_patched map patch⟩

theorem patchKeeps_iff (hdashes : ∀ map, ∀ l ∈ (y.toString map).splitOn '\n', ¬ dashes <+: l)
    (hempty : ∀ map, y.fromStr [] ≠ .mapping map) (content : Str)
    (patch : PatchFrontmatterBody V) :
    PatchKeeps y content patch ↔ PatchFits y content patch := by
  have heq := patchFrontmatterContent_eq (y := y) content patch
  cases hold : oldMapping y content with
  | none =>
      unfold PatchKeeps PatchFits
      rw [hold, heq]
      refine iff_of_false ?_ fun ⟨map, h, _⟩ => Option.some_ne_none _ h.symm
      show ¬ (if _ then _ else _) = none
      split_ifs <;> exact not_false
  | some map =>
      have htrim : ∀ map, ∀ l ∈ (trimEnd (y.toString map)).splitOn '\n', ¬ dashes <+: l := by
        intro map l hl hmark
        obtain ⟨back, hback⟩ := List.rdropWhile_prefix isWhitespace (y.toString map)
        obtain ⟨l', hl', hfront⟩ := line_prefix back hl
        replace hl' : l' ∈ (y.toString map).splitOn '\n' := hback ▸ hl'
        exact hdashes map l' hl' (hmark.trans hfront)
      unfold PatchFits
      rw [hold]
      simp only [Option.some.injEq, exists_eq_left']
      -- the block that is read and the block that is replaced are one, or they differ
      by_cases hplain : Plain content
      · rw [hplain.takenMapping hempty hold, hplain.taken] at heq
        by_cases hnil : (patched map patch).entries = []
        · rw [if_pos hnil] at heq
          rw [patchKeeps_result hold heq, and_iff_right (.inl rfl)]
          constructor
          · intro hparse
            refine .inr (.inl ⟨hplain, hnil, readsEmpty_iff.mpr ?_⟩)
            rwa [JsonMap.entries_eq_nil.mp hnil] at hparse
          · rintro (⟨-, hne, -⟩ | ⟨-, -, hreads⟩ | ⟨hno, -⟩)
            · exact absurd hnil hne
            · rw [JsonMap.entries_eq_nil.mp hnil]
              exact readsEmpty_iff.mp hreads
            · exact absurd hplain hno
        · rw [if_neg hnil] at heq
          obtain ⟨hfound, hnote⟩ := withBlock_read (bodyOf content) (htrim (patched map patch))
          have hparse : parseFrontmatterValue y
              (withBlock (trimEnd (y.toString (patched map patch))) (bodyOf content)) =
                some (patched map patch) ↔
                y.fromStr (trimEnd (y.toString (patched map patch))) =
                  .mapping (patched map patch) := by
            rw [parseFrontmatterValue_found, hfound]
            show (match y.fromStr _ with
              | .invalid => none
              | .other => some JsonMap.empty
              | .mapping map => some map) = _ ↔ _
            cases y.fromStr (trimEnd (y.toString (patched map patch))) with
            | invalid => simp
            | other =>
                refine iff_of_false (fun h => hnil ?_) (by simp)
                exact JsonMap.entries_eq_nil.mpr (Option.some.inj h).symm
            | mapping map' => simp
          rw [patchKeeps_result hold heq, and_iff_right (.inr (hnote ▸ rfl)), hparse]
          constructor
          · exact fun h => .inl ⟨hplain, hnil, h⟩
          · rintro (⟨-, -, h⟩ | ⟨-, hnil', -⟩ | ⟨hno, -⟩)
            · exact h
            · exact absurd hnil' hnil
            · exact absurd hplain hno
      · obtain ⟨hrest, hblock⟩ := taken_of_not_plain hplain
        by_cases hnil : (patched (takenMapping y content) patch).entries = []
        · rw [if_pos hnil] at heq
          rw [patchKeeps_result hold heq, or_iff_right hrest]
          constructor
          · exact fun h => .inr (.inr ⟨hplain, hnil, h⟩)
          · rintro (⟨h, -⟩ | ⟨h, -⟩ | ⟨-, -, h⟩)
            · exact absurd h hplain
            · exact absurd h hplain
            · exact h
        · rw [if_neg hnil] at heq
          have hnote := (withBlock_read (taken content).2
            (htrim (patched (takenMapping y content) patch))).2
          rw [patchKeeps_result hold heq]
          -- what the new block is put in front of is not the body that is read
          refine iff_of_false ?_ ?_
          · rintro ⟨h | h, -⟩
            · exact hblock _ h
            · rw [hnote] at h
              exact hrest (Option.some.inj h)
          · rintro (⟨h, -⟩ | ⟨h, -⟩ | ⟨-, hnil', -⟩)
            · exact hplain h
            · exact hplain h
            · exact hnil hnil'

/-- The edits of a note keep what they shall just when they fit it. -/
theorem edits_keep_iff (hdashes : ∀ map, ∀ l ∈ (y.toString map).splitOn '\n', ¬ dashes <+: l)
    (hempty : ∀ map, y.fromStr [] ≠ .mapping map) (content body : Str)
    (patch : PatchFrontmatterBody V) :
    PatchKeeps y content patch ∧ BodyKeeps content body ↔
      PatchFits y content patch ∧ BodyFits content body :=
  and_congr (patchKeeps_iff hdashes hempty content patch) (bodyKeeps_iff content body)

end Patch

/-! ## One note -/

def oneKey : JsonMap Nat := JsonMap.empty.insert ("a".toList, 1)

def twoKeys : JsonMap Nat := oneKey.insert ("b".toList, 2)

/-- `serde_yaml` on the texts of one note. -/
def noteYaml : SerdeYaml Nat where
  fromStr text :=
    if text = "a: 1".toList then .mapping oneKey
    else if text = "a: 1\nb: 2".toList then .mapping twoKeys
    else .other
  toString map := if map.entries = twoKeys.entries then "a: 1\nb: 2\n".toList else "a: 1\n".toList

def setB : PatchFrontmatterBody Nat := ⟨JsonMap.empty.insert ("b".toList, 2), []⟩

theorem edits_keep_note :
    PatchKeeps noteYaml "---\na: 1\n---\ntext".toList setB ∧
      BodyKeeps "---\na: 1\n---\ntext".toList "new".toList := by
  have hdashes : ∀ map, ∀ l ∈ (noteYaml.toString map).splitOn '\n', ¬ dashes <+: l := by
    intro map
    show ∀ l ∈ (if map.entries = twoKeys.entries then _ else _ : Str).splitOn '\n', _
    split_ifs <;> decide
  have hempty : ∀ map, noteYaml.fromStr [] ≠ .mapping map := fun map h => by cases h
  have hsplit : "---\na: 1\n---\ntext".toList.splitOn '\n' =
      [dashes, "a: 1".toList, dashes, "text".toList] := by decide +kernel
  have hplain : Plain "---\na: 1\n---\ntext".toList := by
    intro l ls h
    rw [hsplit] at h
    cases h
    refine ⟨by decide, fun p hp => ?_⟩
    cases hp
    rfl
  have hlines : noteLines "---\na: 1\n---\ntext".toList =
      some (["a: 1".toList], ["text".toList]) := by decide +kernel
  have hblock : noteBlock "---\na: 1\n---\ntext".toList =
      some ("a: 1".toList, "text".toList) := by decide +kernel
  have hold : oldMapping noteYaml "---\na: 1\n---\ntext".toList = some oneKey := by
    unfold oldMapping
    rw [hblock]
    rfl
  have hpatched : patched oneKey setB = twoKeys := rfl
  refine (edits_keep_iff hdashes hempty _ _ _).mpr ⟨⟨oneKey, hold, .inl ⟨hplain, ?_, ?_⟩⟩, ?_⟩
  · exact List.cons_ne_nil _ _
  · rw [hpatched]
    have htext : trimEnd (noteYaml.toString twoKeys) = "a: 1\nb: 2".toList := by decide +kernel
    rw [htext]
    rfl
  · intro p hp
    rw [hlines] at hp
    cases hp
    exact ⟨hplain, .inl (List.cons_ne_nil _ _)⟩

/-- A list between the dashes is thrown away. -/
theorem not_edits_keep_list :
    ¬ (PatchKeeps noteYaml "---\n[1]\n---\ntext".toList setB ∧
      BodyKeeps "---\n[1]\n---\ntext".toList "new".toList) := by
  rintro ⟨h, -⟩
  have hblock : noteBlock "---\n[1]\n---\ntext".toList =
      some ("[1]".toList, "text".toList) := by decide +kernel
  have hold : oldMapping noteYaml "---\n[1]\n---\ntext".toList = none := by
    unfold oldMapping
    rw [hblock]
    rfl
  unfold PatchKeeps at h
  rw [hold] at h
  replace h : patchFrontmatterContent noteYaml "---\n[1]\n---\ntext".toList setB = none := h
  have hne := patchFrontmatterContent_eq (y := noteYaml) "---\n[1]\n---\ntext".toList setB
  rw [h] at hne
  split_ifs at hne

end Realtime.Notes
