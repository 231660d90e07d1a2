import Mathlib.Data.Char
import Mathlib.Data.List.Lex
import Realtime.Lib.OrderedMap
import Realtime.Lib.RustStr

/-!
# The frontmatter of a note

`parse_frontmatter_value`, `patch_frontmatter_content`, `frontmatter_bounds` and the edit of
`replace_body_inner` of `server/src/notes.rs`. The block ends at the first line end with three
dashes behind it; what the lines of a note say is beside it as `noteBlock`. `serde_yaml` is a
parameter, and places in a text are counted in characters.
-/

namespace Realtime.Notes

open Lib Lib.Str

/-! ## Mappings -/

/-- `serde_json::Map` -/
structure JsonMap (V : Type*) where
  entries : List (Str × V)
  sorted : OrderedMap.Sorted entries

namespace JsonMap

variable {V : Type*}

def empty : JsonMap V := ⟨[], OrderedMap.sorted_nil⟩

def get (map : JsonMap V) (key : Str) : Option V := Assoc.get key map.entries

def insert (map : JsonMap V) (e : Str × V) : JsonMap V :=
  ⟨OrderedMap.insert e.1 e.2 map.entries, OrderedMap.sorted_insert map.sorted⟩

def remove (map : JsonMap V) (key : Str) : JsonMap V :=
  ⟨Assoc.erase key map.entries, by
    unfold OrderedMap.Sorted
    rw [Assoc.keys_erase]
    exact List.Pairwise.filter _ map.sorted⟩

end JsonMap

structure PatchFrontmatterBody (V : Type*) where
  set : JsonMap V
  unset : List Str

/-- What `from_str` makes of a text. -/
inductive Yaml (V : Type*) where
  | invalid
  | other
  | mapping (map : JsonMap V)

structure SerdeYaml (V : Type*) where
  fromStr : Str → Yaml V
  toString : JsonMap V → Str

/-! ## The source -/

/-- `find` -/
def find (needle : Str) : Str → Option Nat
  | [] => if needle = [] then some 0 else none
  | c :: s => if needle.isPrefixOf (c :: s) then some 0 else (find needle s).map (· + 1)

/-- `frontmatter_bounds`: the text of the block and where the body starts. -/
def frontmatterBounds (content : Str) : Option (Str × Nat) :=
  (stripPrefix "---\n".toList content).bind fun rest =>
    (find "\n---".toList rest).map fun stop =>
      let afterMarker := 4 + stop + 4
      (rest.take stop,
        if (content.drop afterMarker).head? = some '\n' then afterMarker + 1 else afterMarker)

section Source

variable {V : Type*} (y : SerdeYaml V)

/-- `parse_frontmatter_value`; none is a bad request. -/
def parseFrontmatterValue (content : Str) : Option (JsonMap V) :=
  match frontmatterBounds content with
  | none => some .empty
  | some (yaml, _) =>
      match y.fromStr yaml with
      | .invalid => none
      | .other => some .empty
      | .mapping map => some map

/-- The keys that are taken out and those that are set. -/
def patched (map : JsonMap V) (patch : PatchFrontmatterBody V) : JsonMap V :=
  patch.set.entries.foldl .insert (patch.unset.foldl .remove map)

def trimEnd (s : Str) : Str := s.rdropWhile isWhitespace

/-- `patch_frontmatter_content` -/
def patchFrontmatterContent (content : Str) (patch : PatchFrontmatterBody V) : Option Str :=
  let (existing, bodyStart) := (frontmatterBounds content).getD ([], 0)
  let map := match y.fromStr existing with
    | .mapping map => map
    | _ => .empty
  let map := patched map patch
  let body := content.drop bodyStart
  if map.entries = [] then some body
  else some ("---\n".toList ++ trimEnd (y.toString map) ++ "\n---\n".toList ++ body)

end Source

/-- The edit of `replace_body_inner`. -/
def replaceBody (content body : Str) : Str :=
  match frontmatterBounds content with
  | some (_, bodyStart) => content.take bodyStart ++ body
  | none => body

/-! ## The block of a note, by its lines -/

def joinLines (lines : List Str) : Str := List.intercalate ['\n'] lines

/-- Three dashes. -/
def dashes : Str := "---".toList

/-- The lines before and behind the first one of three dashes. -/
def splitDashes : List Str → Option (List Str × List Str)
  | [] => none
  | l :: ls => if l = dashes then some ([], ls) else (splitDashes ls).map fun p => (l :: p.1, p.2)

/-- The lines of the block and those behind it. -/
def noteLines (content : Str) : Option (List Str × List Str) :=
  match content.splitOn '\n' with
  | [] => none
  | l :: ls => if l = dashes then splitDashes ls else none

/-- The text of the block and the body behind it. -/
def noteBlock (content : Str) : Option (Str × Str) :=
  (noteLines content).map fun p => (joinLines p.1, joinLines p.2)

def bodyOf (content : Str) : Str := ((noteBlock content).map Prod.snd).getD content

/-! ## Lines -/

theorem joinLines_splitOn (s : Str) : joinLines (s.splitOn '\n') = s := List.intercalate_splitOn _

theorem joinLines_cons (l : Str) (ls : List Str) :
    joinLines (l :: ls) = l ++ if ls = [] then [] else '\n' :: joinLines ls := by
  unfold joinLines
  cases ls with
  | nil => rw [List.intercalate_singleton, if_pos rfl, List.append_nil]
  | cons l' ls =>
      rw [List.intercalate_cons_cons, if_neg (List.cons_ne_nil _ _), List.append_assoc]
      rfl

theorem joinLines_append {ls ls' : List Str} (h : ls ≠ []) (h' : ls' ≠ []) :
    joinLines (ls ++ ls') = joinLines ls ++ '\n' :: joinLines ls' := by
  induction ls with
  | nil => exact absurd rfl h
  | cons l ls ih =>
      cases ls with
      | nil => rw [List.singleton_append, joinLines_cons, if_neg h', joinLines_cons l, if_pos rfl,
          List.append_nil]
      | cons l' ls =>
          rw [List.cons_append, joinLines_cons, joinLines_cons l,
            if_neg (List.cons_ne_nil _ _), ih (List.cons_ne_nil _ _), if_neg, List.append_assoc]
          · rfl
          · exact List.append_ne_nil_of_left_ne_nil (List.cons_ne_nil _ _) _

/-- The first line that begins with three dashes: the lines before it, what is behind the dashes
in it, and the lines behind it. -/
def firstMark : List Str → Option (List Str × Str × List Str)
  | [] => none
  | l :: ls =>
      if dashes <+: l then some ([], l.drop 3, ls)
      else (firstMark ls).map fun p => (l :: p.1, p.2)

/-- What is found behind a text without a line end. -/
theorem find_append {marker t : Str} {l : Str} (hl : '\n' ∉ l) :
    find ('\n' :: marker) (l ++ t) = (find ('\n' :: marker) t).map (l.length + ·) := by
  induction l with
  | nil => simp
  | cons c l ih =>
      have hc : ('\n' :: marker).isPrefixOf (c :: (l ++ t)) = false := by
        rw [List.isPrefixOf_cons_cons, beq_eq_false_iff_ne.mpr (List.ne_of_not_mem_cons hl),
          Bool.false_and]
      rw [List.cons_append, find, hc, if_neg Bool.false_ne_true,
        ih (List.not_mem_of_not_mem_cons hl), Option.map_map]
      congr 1
      funext n
      show l.length + n + 1 = (c :: l).length + n
      rw [List.length_cons]
      omega

/-- A mark without a line end begins a text just when it begins its first line. -/
theorem prefix_joinLines {mark l : Str} {ls : List Str} (hmark : '\n' ∉ mark) :
    mark <+: joinLines (l :: ls) ↔ mark <+: l := by
  rw [joinLines_cons]
  constructor
  · intro h
    induction mark generalizing l with
    | nil => exact List.nil_prefix
    | cons c mark ih =>
        cases l with
        | nil =>
            split at h
            · exact h
            · exact absurd (List.cons_prefix_cons.mp h).1 (List.ne_of_not_mem_cons hmark).symm
        | cons d l =>
            rw [List.cons_append, List.cons_prefix_cons] at h
            exact List.cons_prefix_cons.mpr
              ⟨h.1, ih (List.not_mem_of_not_mem_cons hmark) h.2⟩
  · exact fun h => h.trans (List.prefix_append _ _)

/-- A line end and dashes are found where the first such line is. -/
theorem find_joinLines {l : Str} {ls : List Str} (hl : '\n' ∉ l) (hls : ∀ l ∈ ls, '\n' ∉ l) :
    find "\n---".toList (joinLines (l :: ls)) =
      (firstMark ls).map fun p => (joinLines (l :: p.1)).length := by
  show find ('\n' :: dashes) _ = _
  rw [joinLines_cons, find_append hl]
  induction ls generalizing l with
  | nil => rfl
  | cons l' ls ih =>
      obtain ⟨hl', hls⟩ := List.forall_mem_cons.mp hls
      rw [if_neg (List.cons_ne_nil _ _), find, firstMark]
      have hstarts : ('\n' :: dashes).isPrefixOf ('\n' :: joinLines (l' :: ls)) = true ↔
          dashes <+: l' := by
        rw [List.isPrefixOf_iff_prefix, List.cons_prefix_cons, and_iff_right rfl,
          prefix_joinLines (by decide)]
      by_cases hmark : dashes <+: l'
      · rw [if_pos (hstarts.mpr hmark), if_pos hmark, Option.map_some, Option.map_some,
          joinLines_cons, if_pos rfl, List.append_nil, Nat.add_zero]
      · rw [if_neg (fun h => hmark (hstarts.mp h)), if_neg hmark, joinLines_cons, find_append hl',
          ih hl' hls, Option.map_map, Option.map_map, Option.map_map]
        congr 1
        funext p
        show l.length + ((joinLines (l' :: p.1)).length + 1) = (joinLines (l :: l' :: p.1)).length
        rw [joinLines_cons l, if_neg (List.cons_ne_nil _ _), List.length_append, List.length_cons]

/-! ## The two readings of a note -/

theorem firstMark_append {pre post : List Str} (tail : Str) (hpre : ∀ l ∈ pre, ¬ dashes <+: l) :
    firstMark (pre ++ (dashes ++ tail) :: post) = some (pre, tail, post) := by
  induction pre with
  | nil => exact if_pos (List.prefix_append _ _)
  | cons l pre ih =>
      obtain ⟨hl, hpre⟩ := List.forall_mem_cons.mp hpre
      rw [List.cons_append, firstMark, if_neg hl, ih hpre, Option.map_some]

theorem firstMark_spec {ls pre post : List Str} {tail : Str}
    (h : firstMark ls = some (pre, tail, post)) :
    ls = pre ++ (dashes ++ tail) :: post ∧ ∀ l ∈ pre, ¬ dashes <+: l := by
  induction ls generalizing pre with
  | nil => exact absurd h.symm (Option.some_ne_none _)
  | cons l ls ih =>
      rw [firstMark] at h
      split_ifs at h with hl
      · obtain ⟨rfl, rfl, rfl⟩ := Prod.mk.injEq _ _ _ _ ▸ Option.some.inj h
        refine ⟨?_, fun _ h => absurd h List.not_mem_nil⟩
        obtain ⟨tail, rfl⟩ := hl
        rfl
      · obtain ⟨⟨pre', rest⟩, hfirst, heq⟩ := Option.map_eq_some_iff.mp h
        cases heq
        obtain ⟨rfl, hpre⟩ := ih hfirst
        exact ⟨rfl, List.forall_mem_cons.mpr ⟨hl, hpre⟩⟩

/-- The lines are cut where a marked line has nothing behind its dashes, else further on. -/
theorem splitDashes_eq (ls : List Str) :
    splitDashes ls = (firstMark ls).bind fun p =>
      if p.2.1 = [] then some (p.1, p.2.2)
      else (splitDashes p.2.2).map fun q => (p.1 ++ (dashes ++ p.2.1) :: q.1, q.2) := by
  induction ls with
  | nil => rfl
  | cons l ls ih =>
      rw [splitDashes, firstMark]
      by_cases hmark : dashes <+: l
      · obtain ⟨tail, rfl⟩ := hmark
        rw [if_pos (List.prefix_append _ _)]
        by_cases htail : tail = []
        · subst htail
          rfl
        · have hne : dashes ++ tail ≠ dashes := fun h => htail (List.append_right_eq_self.mp h)
          rw [if_neg hne]
          show _ = if tail = [] then _ else _
          rw [if_neg htail]
          rfl
      · have hne : l ≠ dashes := fun h => hmark (h ▸ List.prefix_rfl)
        rw [if_neg hne, if_neg hmark, ih, Option.map_bind, Option.bind_map]
        congr 1
        funext p
        show Option.map _ (if p.2.1 = [] then _ else _) = if p.2.1 = [] then _ else _
        split_ifs
        · rfl
        · rw [Option.map_map]
          rfl

/-- What is behind the dashes of a marked line: a line end right behind them is passed over. -/
def behindMark (mark : Str × List Str) : Str :=
  mark.1 ++ if mark.2 = [] then [] else
    if mark.1 = [] then joinLines mark.2 else '\n' :: joinLines mark.2

/-- The block the source finds and what it takes for the body. -/
def foundBlock (content : Str) : Option (Str × Str) :=
  (frontmatterBounds content).map fun p => (p.1, content.drop p.2)

theorem foundBlock_lines {content l : Str} {ls : List Str}
    (h : content.splitOn '\n' = dashes :: l :: ls) :
    foundBlock content = (firstMark ls).map fun p => (joinLines (l :: p.1), behindMark p.2) := by
  have hline : ∀ l' ∈ dashes :: l :: ls, '\n' ∉ l' :=
    fun l' hl' => not_mem_of_mem_splitOn (h ▸ hl')
  have hcontent : content = "---\n".toList ++ joinLines (l :: ls) := by
    rw [← joinLines_splitOn content, h, joinLines_cons, if_neg (List.cons_ne_nil _ _)]
    rfl
  unfold foundBlock frontmatterBounds
  rw [hcontent, stripPrefix_append, Option.bind_some,
    find_joinLines (hline l (by simp)) fun l' hl' => hline l' (by simp [hl']), Option.map_map,
    Option.map_map]
  refine Option.map_congr fun p hp => ?_
  obtain ⟨pre, tail, post⟩ := p
  obtain ⟨rfl, -⟩ := firstMark_spec hp
  have htail : '\n' ∉ tail := fun hmem =>
    hline (dashes ++ tail) (by simp) (List.mem_append_right _ hmem)
  have hjoin : joinLines (l :: (pre ++ (dashes ++ tail) :: post)) =
      joinLines (l :: pre) ++ ('\n' :: dashes) ++
        (tail ++ if post = [] then [] else '\n' :: joinLines post) := by
    rw [← List.cons_append, joinLines_append (List.cons_ne_nil _ _) (List.cons_ne_nil _ _),
      joinLines_cons (dashes ++ tail)]
    simp only [List.append_assoc, List.cons_append]
  have hdrop : ∀ n, ("---\n".toList ++ joinLines (l :: (pre ++ (dashes ++ tail) :: post))).drop
      (4 + (joinLines (l :: pre)).length + 4 + n) =
        (tail ++ if post = [] then [] else '\n' :: joinLines post).drop n := by
    intro n
    rw [hjoin, ← List.append_assoc, ← List.drop_drop, List.drop_left']
    simp only [List.length_append, List.length_cons]
    rfl
  have hhead : (tail ++ if post = [] then [] else '\n' :: joinLines post).head? = some '\n' ↔
      tail = [] ∧ post ≠ [] := by
    cases tail with
    | nil => cases post <;> simp
    | cons c tail => simpa using List.ne_of_not_mem_cons htail |>.symm
  have htake : (joinLines (l :: (pre ++ (dashes ++ tail) :: post))).take
      (joinLines (l :: pre)).length = joinLines (l :: pre) := by
    rw [hjoin, List.append_assoc, List.take_left]
  refine Prod.ext htake ?_
  show List.drop (if (List.drop _ _).head? = some '\n' then _ else _) _ = behindMark (tail, post)
  rw [← Nat.add_zero (4 + _ + 4), hdrop 0, List.drop_zero, Nat.add_zero]
  unfold behindMark
  by_cases htail' : tail = [] ∧ post ≠ []
  · obtain ⟨rfl, hpost⟩ := htail'
    rw [if_pos (hhead.mpr ⟨rfl, hpost⟩), hdrop 1, if_neg hpost, if_neg hpost, if_pos rfl]
    rfl
  · rw [if_neg (fun h => htail' (hhead.mp h)), ← Nat.add_zero (4 + _ + 4), hdrop 0, List.drop_zero]
    by_cases hpost : post = []
    · rw [if_pos hpost, if_pos hpost]
    · rw [if_neg hpost, if_neg hpost, if_neg (fun h => htail' ⟨h, hpost⟩)]

/-- Without two lines, or with another first line than dashes, neither reading has a block. -/
theorem no_block {content : Str} (h : ∀ l ls, content.splitOn '\n' ≠ dashes :: l :: ls) :
    foundBlock content = none ∧ noteLines content = none := by
  constructor
  · unfold foundBlock frontmatterBounds
    cases hstrip : stripPrefix "---\n".toList content with
    | none => rfl
    | some rest =>
        exfalso
        have hcontent : content = dashes ++ '\n' :: rest := by
          rw [stripPrefix] at hstrip
          split_ifs at hstrip with hfront
          obtain ⟨tail, rfl⟩ := List.isPrefixOf_iff_prefix.mp hfront
          rw [List.drop_left] at hstrip
          rw [Option.some.inj hstrip]
          rfl
        obtain ⟨l, ls, hrest⟩ := List.exists_cons_of_ne_nil (List.splitOn_ne_nil '\n' rest)
        refine h l ls ?_
        rw [hcontent, List.splitOn_append_cons_self_of_not_mem (by decide), hrest]
  · unfold noteLines
    split
    · rfl
    · rename_i l ls hls
      split_ifs with hl
      · subst hl
        cases ls with
        | nil => rfl
        | cons l' ls => exact absurd hls (h l' ls)
      · rfl

/-- The block in front of the body. -/
def withBlock (text body : Str) : Str := "---\n".toList ++ text ++ "\n---\n".toList ++ body

theorem splitDashes_append {pre : List Str} (post : List Str) (h : ∀ l ∈ pre, l ≠ dashes) :
    splitDashes (pre ++ dashes :: post) = some (pre, post) := by
  induction pre with
  | nil => exact if_pos rfl
  | cons l pre ih =>
      obtain ⟨hl, hpre⟩ := List.forall_mem_cons.mp h
      rw [List.cons_append, splitDashes, if_neg hl, ih hpre, Option.map_some]

theorem splitDashes_spec {ls pre post : List Str} (h : splitDashes ls = some (pre, post)) :
    ls = pre ++ dashes :: post ∧ ∀ l ∈ pre, l ≠ dashes := by
  induction ls generalizing pre with
  | nil => exact absurd h.symm (Option.some_ne_none _)
  | cons l ls ih =>
      rw [splitDashes] at h
      split_ifs at h with hl
      · obtain ⟨rfl, rfl⟩ := Prod.mk.injEq _ _ _ _ ▸ Option.some.inj h
        exact ⟨congrArg (· :: _) hl, fun _ h => absurd h List.not_mem_nil⟩
      · obtain ⟨⟨pre', post'⟩, hsplit, heq⟩ := Option.map_eq_some_iff.mp h
        cases heq
        obtain ⟨rfl, hpre⟩ := ih hsplit
        exact ⟨rfl, List.forall_mem_cons.mpr ⟨hl, hpre⟩⟩

theorem splitOn_joinLines {ls : List Str} (h : ∀ l ∈ ls, '\n' ∉ l) (hne : ls ≠ []) :
    (joinLines ls).splitOn '\n' = ls := List.splitOn_intercalate _ h hne

theorem splitOn_withBlock (text body : Str) :
    (withBlock text body).splitOn '\n' =
      dashes :: (text.splitOn '\n' ++ dashes :: body.splitOn '\n') := by
  have hjoin : withBlock text body =
      joinLines (dashes :: (text.splitOn '\n' ++ dashes :: body.splitOn '\n')) := by
    rw [joinLines_cons, if_neg (by simp), joinLines_append (List.splitOn_ne_nil _ _) (by simp),
      joinLines_cons dashes, if_neg (List.splitOn_ne_nil _ _), joinLines_splitOn,
      joinLines_splitOn]
    unfold withBlock
    simp only [List.append_assoc]
    rfl
  rw [hjoin]
  refine splitOn_joinLines (fun l hl => ?_) (List.cons_ne_nil _ _)
  rcases List.mem_cons.mp hl with rfl | hl
  · decide
  · rcases List.mem_append.mp hl with hl | hl
    · exact not_mem_of_mem_splitOn hl
    · rcases List.mem_cons.mp hl with rfl | hl
      · decide
      · exact not_mem_of_mem_splitOn hl

/-- Both readings give back a block without dashes at the front of its lines. -/
theorem withBlock_read {text : Str} (body : Str)
    (h : ∀ l ∈ text.splitOn '\n', ¬ dashes <+: l) :
    foundBlock (withBlock text body) = some (text, body) ∧
      noteBlock (withBlock text body) = some (text, body) := by
  have hsplit := splitOn_withBlock text body
  obtain ⟨l, ls, hlines⟩ := List.exists_cons_of_ne_nil (List.splitOn_ne_nil '\n' text)
  have htext : joinLines (l :: ls) = text := hlines ▸ joinLines_splitOn text
  rw [hlines, List.cons_append] at hsplit
  rw [hlines] at h
  constructor
  · have hmark := @firstMark_append ls (body.splitOn '\n') [] (List.forall_mem_cons.mp h).2
    rw [foundBlock_lines hsplit]
    rw [List.append_nil] at hmark
    rw [hmark, Option.map_some, htext]
    unfold behindMark
    rw [if_neg (List.splitOn_ne_nil _ _), if_pos rfl, joinLines_splitOn]
    rfl
  · unfold noteBlock noteLines
    rw [hsplit, ← List.cons_append]
    show Option.map _ (if dashes = dashes then _ else _) = _
    rw [if_pos rfl, splitDashes_append _ fun l hl heq => h l hl (heq ▸ List.prefix_rfl),
      Option.map_some, htext, joinLines_splitOn]

end Realtime.Notes
