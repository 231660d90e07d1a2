import Realtime.Lib.Affixes
import Realtime.Lib.YItems

/-!
# Rewriting a shared text

`applyTextToYText` of `src/diff.ts`: one deletion and one insertion between the common
start and the common end of the old and the new text, both moved off surrogate pairs.

Neither boundary it uses divides a pair of the old text (`not_divides_start`,
`not_divides_end`). A cut behind a lone high surrogate is not avoided: Yjs then replaces
that unit and the one behind it, and the text does not read the new one.
-/

namespace Realtime.Text

open Lib Lib.Utf16 Lib.YText

/-- The operations of a `Y.Text`. -/
inductive TextOp where
  | delete (index length : Nat)
  | insert (index : Nat) (content : JsString)
  deriving DecidableEq

def TextOp.apply (items : YItems.Items) : TextOp → YItems.Items
  | .delete index length => YItems.delete items index length
  | .insert index content => YItems.insert items index content

/-- The changed region `[start, endOld)` of the old text and `[start, endNew)` of the new
one. -/
structure Region where
  start : Nat
  endOld : Nat
  endNew : Nat

/-- The prefix loop, and the step back from a pair it ended in. -/
def regionStart (oldText newText : JsString) : Nat :=
  let start := commonPrefix oldText newText
  if 0 < start ∧ (oldText[start - 1]?).any isHighSurrogate then start - 1 else start

/-- The suffix loop, which stops at `start`, and the step over a low surrogate it ended
in front of. -/
def changedRegion (oldText newText : JsString) : Region :=
  let start := regionStart oldText newText
  let endOld := oldText.length - commonSuffix start oldText newText
  let endNew := newText.length - commonSuffix start oldText newText
  if endOld < oldText.length ∧ (oldText[endOld]?).any isLowSurrogate then
    ⟨start, endOld + 1, endNew + 1⟩
  else ⟨start, endOld, endNew⟩

/-- The new contents, with the operations made. -/
def applyTextToYText (ytext : YItems.Items) (newText : JsString) :
    YItems.Items × List TextOp :=
  let oldText := YItems.text ytext
  if oldText = newText then (ytext, [])
  else
    let region := changedRegion oldText newText
    let deleteCount := region.endOld - region.start
    let insert := (newText.take region.endNew).drop region.start
    let ops := (if 0 < deleteCount then [.delete region.start deleteCount] else []) ++
      if 0 < insert.length then [.insert region.start insert] else []
    (ops.foldl TextOp.apply ytext, ops)

/-! ## The changed region -/

section

variable (oldText newText : JsString)

theorem regionStart_le : regionStart oldText newText ≤ commonPrefix oldText newText := by
  rw [regionStart]
  split <;> omega

theorem take_regionStart :
    oldText.take (regionStart oldText newText) = newText.take (regionStart oldText newText) := by
  have h := congrArg (List.take (regionStart oldText newText)) (take_commonPrefix oldText newText)
  rwa [List.take_take, List.take_take, min_eq_left (regionStart_le oldText newText)] at h

theorem regionStart_le_length : regionStart oldText newText ≤ oldText.length ∧
    regionStart oldText newText ≤ newText.length := by
  have h := regionStart_le oldText newText
  have hold := commonPrefix_le_left oldText newText
  have hnew := commonPrefix_le_left newText oldText
  rw [commonPrefix_comm] at hnew
  omega

/-- What the suffix loop leaves behind the region is the same in both texts. -/
theorem drop_commonSuffix {start : Nat} (hold : start ≤ oldText.length)
    (hnew : start ≤ newText.length) :
    oldText.drop (oldText.length - commonSuffix start oldText newText) =
      newText.drop (newText.length - commonSuffix start oldText newText) := by
  have hle := commonSuffix_le_left start oldText newText
  have hle' := commonSuffix_le_left start newText oldText
  rw [commonSuffix_comm] at hle'
  have h := drop_commonPrefix_reverse (oldText.drop start) (newText.drop start)
  rw [← commonSuffix, List.drop_drop, List.drop_drop, List.length_drop, List.length_drop] at h
  rwa [show start + (oldText.length - start - commonSuffix start oldText newText) =
      oldText.length - commonSuffix start oldText newText by omega,
    show start + (newText.length - start - commonSuffix start oldText newText) =
      newText.length - commonSuffix start oldText newText by omega] at h

/-- The region lies in both texts, and they agree before and behind it. -/
theorem changedRegion_spec :
    let region := changedRegion oldText newText
    region.start = regionStart oldText newText ∧
      region.start ≤ region.endOld ∧ region.endOld ≤ oldText.length ∧
      region.start ≤ region.endNew ∧ region.endNew ≤ newText.length ∧
      oldText.drop region.endOld = newText.drop region.endNew := by
  obtain ⟨hold, hnew⟩ := regionStart_le_length oldText newText
  have hdrop := drop_commonSuffix oldText newText hold hnew
  have hle := commonSuffix_le_left (regionStart oldText newText) oldText newText
  have hle' := commonSuffix_le_left (regionStart oldText newText) newText oldText
  rw [commonSuffix_comm] at hle'
  have hlen := congrArg List.length hdrop
  rw [List.length_drop, List.length_drop] at hlen
  rw [changedRegion]
  dsimp only
  split
  · next hlow =>
      -- the unit in front of which the loop ended is part of the common end
      dsimp only
      refine ⟨rfl, by omega, by omega, by omega, by omega, ?_⟩
      rw [← List.drop_drop, ← List.drop_drop, hdrop]
  · dsimp only
    exact ⟨rfl, by omega, by omega, by omega, by omega, hdrop⟩

/-- A surrogate is not both. -/
theorem not_isLow_of_isHigh {c : UInt16} (h : isHighSurrogate c = true) :
    isLowSurrogate c = false := by
  simp only [isHighSurrogate, isLowSurrogate, Bool.and_eq_true, decide_eq_true_eq,
    Bool.and_eq_false_iff, decide_eq_false_iff_not, UInt16.le_iff_toNat_le] at *
  have hhigh := h.2
  have h1 : (0xdbff : UInt16).toNat = 56319 := rfl
  have h2 : (0xdc00 : UInt16).toNat = 56320 := rfl
  omega

theorem getLast?_take {s : JsString} {count : Nat} (hpos : 0 < count) (hle : count ≤ s.length) :
    (s.take count).getLast? = s[count - 1]? := by
  rw [List.getLast?_eq_getElem?, List.length_take, min_eq_left hle, List.getElem?_take,
    if_pos (by omega)]

theorem not_divides_start :
    ¬Divides (oldText.take (regionStart oldText newText))
      (oldText.drop (regionStart oldText newText)) := by
  rintro ⟨high, low, hl, hr, hhigh, hlow⟩
  have hle := (regionStart_le_length oldText newText).1
  have hpos : 0 < regionStart oldText newText := by
    rcases Nat.eq_zero_or_pos (regionStart oldText newText) with hzero | hpos
    · rw [hzero] at hl
      cases hl
    · exact hpos
  rw [getLast?_take hpos hle] at hl
  rw [List.head?_drop] at hr
  unfold regionStart at hl hr hpos
  dsimp only at hl hr hpos
  by_cases hback : 0 < commonPrefix oldText newText ∧
      (oldText[commonPrefix oldText newText - 1]?).any isHighSurrogate
  · -- the unit behind the boundary is the high surrogate stepped back over
    rw [if_pos hback] at hr
    have hany := hback.2
    rw [hr] at hany
    have := not_isLow_of_isHigh (c := low) hany
    rw [hlow] at this
    cases this
  · rw [if_neg hback] at hl hpos
    refine hback ⟨hpos, ?_⟩
    rw [hl]
    exact hhigh

theorem not_divides_end :
    ¬Divides (oldText.take (changedRegion oldText newText).endOld)
      (oldText.drop (changedRegion oldText newText).endOld) := by
  rintro ⟨high, low, hl, hr, hhigh, hlow⟩
  rw [List.head?_drop] at hr
  have hlt : (changedRegion oldText newText).endOld < oldText.length :=
    (List.getElem?_eq_some_iff.mp hr).1
  unfold changedRegion at hl hr hlt
  dsimp only at hl hr hlt
  by_cases hover : oldText.length - commonSuffix (regionStart oldText newText) oldText newText <
      oldText.length ∧
      (oldText[oldText.length -
        commonSuffix (regionStart oldText newText) oldText newText]?).any isLowSurrogate
  · -- the unit in front of the boundary is the low surrogate stepped over
    rw [if_pos hover] at hl hlt
    rw [getLast?_take (Nat.succ_pos _) hlt.le, Nat.succ_sub_one] at hl
    have hany := hover.2
    rw [hl] at hany
    have := not_isLow_of_isHigh hhigh
    rw [show isLowSurrogate high = true from hany] at this
    cases this
  · rw [if_neg hover] at hr hlt
    refine hover ⟨hlt, ?_⟩
    rw [hr]
    exact hlow

end

/-! ## The rewrite -/

/-- An operation inside a text, at boundaries that divide no pair of it. -/
def TextOp.Safe (oldText : JsString) : TextOp → Prop
  | .delete index length => index + length ≤ oldText.length ∧
      ¬Divides (oldText.take index) (oldText.drop index) ∧
      ¬Divides (oldText.take (index + length)) (oldText.drop (index + length))
  | .insert index _ => index ≤ oldText.length ∧
      ¬Divides (oldText.take index) (oldText.drop index)

theorem newText_eq (oldText newText : JsString) :
    newText = oldText.take (regionStart oldText newText) ++
      ((newText.take (changedRegion oldText newText).endNew).drop
        (changedRegion oldText newText).start ++
        oldText.drop (changedRegion oldText newText).endOld) := by
  obtain ⟨hstart, -, -, hle, -, hdrop⟩ := changedRegion_spec oldText newText
  rw [hdrop, take_regionStart, ← hstart]
  exact (take_append_middle_append_drop newText hle).symm

/-- Whether the operation, made at once, puts a replacement where a unit of the text
stays. The end of a deletion may leave the unit behind it as it is. -/
def TextOp.substitutes (items : YItems.Items) : TextOp → Bool
  | .delete index length =>
      YItems.splits index items ||
        (YItems.splits length (YItems.findPosition index items).2 &&
          (YItems.text items)[index + length]? != some replacement)
  | .insert index _ => YItems.splits index items

/-- Every high surrogate is the first half of a pair. -/
def NoLoneHigh (s : JsString) : Prop :=
  ∀ i c, s[i]? = some c → isHighSurrogate c = true → (s[i + 1]?).any isLowSurrogate = true

/-- A text without lone high surrogates has none in front of a boundary that divides no
pair. -/
theorem NoLoneHigh.not_endsHigh {s : JsString} (h : NoLoneHigh s) {count : Nat}
    (hlt : count < s.length) (hnot : ¬Divides (s.take count) (s.drop count)) :
    YItems.endsHigh (s.take count) = false := by
  rw [← Bool.not_eq_true]
  intro hends
  have hpos : 0 < count := by
    rcases Nat.eq_zero_or_pos count with rfl | hpos
    · cases hends
    · exact hpos
  rw [YItems.endsHigh, getLast?_take hpos hlt.le, Option.any_eq_true] at hends
  obtain ⟨high, hget, hhigh⟩ := hends
  have hnext := h _ high hget hhigh
  rw [Nat.sub_add_cancel hpos, Option.any_eq_true] at hnext
  obtain ⟨low, hlow, hislow⟩ := hnext
  exact hnot ⟨high, low, (getLast?_take hpos hlt.le).trans hget,
    (List.head?_drop ..).trans hlow, hhigh, hislow⟩

section Rewrite

variable {ytext : YItems.Items} {region : Region} {insert : JsString}

/-- The operations for a region. -/
def regionOps (region : Region) (insert : JsString) : List TextOp :=
  (if 0 < region.endOld - region.start then
    [.delete region.start (region.endOld - region.start)] else []) ++
  if 0 < insert.length then [.insert region.start insert] else []

/-- Whether one of the boundaries splits an item: the start, and the end of what is deleted. -/
def Region.splitsStart (region : Region) (ytext : YItems.Items) : Bool :=
  YItems.splits region.start ytext

def Region.splitsEnd (region : Region) (ytext : YItems.Items) : Bool :=
  YItems.splits (region.endOld - region.start) (YItems.findPosition region.start ytext).2

theorem of_splitsStart (h : region.splitsStart ytext = true) :
    YItems.endsHigh ((YItems.text ytext).take region.start) = true ∧
      (YItems.text ytext).drop region.start ≠ [] :=
  ⟨(YItems.of_splits h).1, YItems.drop_ne_nil_of_splits h⟩

theorem text_right : YItems.text (YItems.findPosition region.start ytext).2 =
    YItems.mendRight (region.splitsStart ytext) ((YItems.text ytext).drop region.start) :=
  (YItems.findPosition_spec region.start ytext).2.1

/-- An insertion where something was deleted falls between two items. -/
theorem apply_delete (hlt : region.start < region.endOld)
    (hlen : region.endOld ≤ (YItems.text ytext).length) :
    YItems.text ((regionOps region insert).foldl TextOp.apply ytext) =
        YItems.mendLeft (region.splitsStart ytext) ((YItems.text ytext).take region.start) ++
          (insert ++ YItems.mendRight (region.splitsEnd ytext)
            ((YItems.text ytext).drop region.endOld)) ∧
      (region.splitsStart ytext = false → region.splitsEnd ytext = false →
        ∃ before inserted after, YItems.stored ytext = before ++ after ∧
          YItems.stored ((regionOps region insert).foldl TextOp.apply ytext) =
            before ++ (inserted ++ after)) := by
  have hdel : 0 < region.endOld - region.start := Nat.sub_pos_of_lt hlt
  obtain ⟨htext, hstored⟩ := @YItems.delete_spec ytext region.start _ hdel
  rw [Nat.add_sub_cancel' hlt.le] at htext
  obtain ⟨hleft, -, -⟩ := YItems.findPosition_spec region.start ytext
  have hbetween := YItems.findPosition_append
    (YItems.deleteText (region.endOld - region.start) (YItems.findPosition region.start ytext).2)
    (YItems.length_findPosition (hlt.le.trans hlen))
  by_cases hins : 0 < insert.length
  · have hops : (regionOps region insert).foldl TextOp.apply ytext = YItems.insert
        (YItems.delete ytext region.start (region.endOld - region.start)) region.start insert := by
      rw [regionOps, if_pos hdel, if_pos hins]
      rfl
    rw [hops]
    refine ⟨?_, fun hstart hend => ?_⟩
    · exact YItems.insert_spec (hbetween.1.trans hleft) (hbetween.2.1.trans htext) insert
    · obtain ⟨before, after, hparts, hafter⟩ :=
        YItems.stored_insert (hbetween.2.2.trans (hstored hstart hend)) insert
      exact ⟨before, insert, after, hparts.symm, hafter⟩
  · have hnil : insert = [] := List.eq_nil_of_length_eq_zero (Nat.eq_zero_of_not_pos hins)
    have hops : (regionOps region insert).foldl TextOp.apply ytext =
        YItems.delete ytext region.start (region.endOld - region.start) := by
      rw [regionOps, if_pos hdel, if_neg hins]
      rfl
    rw [hops, YItems.delete, YItems.text_append, YItems.stored_append, hleft, htext, hnil]
    refine ⟨rfl, fun hstart hend => ⟨YItems.stored ytext, [], [], ?_, ?_⟩⟩
    · exact (List.append_nil _).symm
    · exact (hstored hstart hend).trans (List.append_nil _).symm

/-- An insertion where nothing is deleted splits what it falls into. -/
theorem apply_insert (heq : region.endOld = region.start) (hins : 0 < insert.length) :
    YItems.text ((regionOps region insert).foldl TextOp.apply ytext) =
        YItems.mendLeft (region.splitsStart ytext) ((YItems.text ytext).take region.start) ++
          (insert ++ YItems.mendRight (region.splitsStart ytext)
            ((YItems.text ytext).drop region.start)) ∧
      (region.splitsStart ytext = false →
        ∃ before inserted after, YItems.stored ytext = before ++ after ∧
          YItems.stored ((regionOps region insert).foldl TextOp.apply ytext) =
            before ++ (inserted ++ after)) := by
  have hops : (regionOps region insert).foldl TextOp.apply ytext =
      YItems.insert ytext region.start insert := by
    rw [regionOps, heq, Nat.sub_self, if_neg (Nat.lt_irrefl 0), if_pos hins]
    rfl
  obtain ⟨hleft, hright, hstored⟩ := YItems.findPosition_spec region.start ytext
  rw [hops]
  refine ⟨YItems.insert_spec hleft hright insert, fun hstart => ?_⟩
  obtain ⟨before, after, hparts, hafter⟩ := YItems.stored_insert (hstored hstart) insert
  exact ⟨before, insert, after, hparts.symm, hafter⟩

/-- The operations for a region read as they should exactly where none puts a replacement. -/
theorem text_regionOps_iff (hle : region.start ≤ region.endOld)
    (hlen : region.endOld ≤ (YItems.text ytext).length)
    (hsome : region.endOld = region.start → 0 < insert.length) :
    YItems.text ((regionOps region insert).foldl TextOp.apply ytext) =
        (YItems.text ytext).take region.start ++
          (insert ++ (YItems.text ytext).drop region.endOld) ↔
      ∀ op ∈ regionOps region insert, op.substitutes ytext = false := by
  rcases hle.lt_or_eq with hlt | heq
  · have hnext : region.splitsEnd ytext = true →
        (YItems.text ytext).drop region.endOld ≠ [] := by
      intro hsplit
      have hinside := (YItems.of_splits hsplit).2
      rw [text_right, YItems.length_mendRight fun h => (of_splitsStart h).2,
        List.length_drop] at hinside
      exact YItems.drop_ne_nil (by omega)
    rw [(apply_delete hlt hlen).1,
      YItems.mend_eq_iff insert (fun hsplit => (of_splitsStart hsplit).1) hnext,
      List.head?_drop]
    have hdel : 0 < region.endOld - region.start := Nat.sub_pos_of_lt hlt
    have hdelete : (TextOp.delete region.start (region.endOld - region.start)).substitutes ytext =
        false ↔ region.splitsStart ytext = false ∧ (region.splitsEnd ytext = true →
          (YItems.text ytext)[region.endOld]? = some replacement) := by
      rw [TextOp.substitutes, Nat.add_sub_cancel' hlt.le, Bool.or_eq_false_iff,
        Bool.and_eq_false_imp, bne_eq_false_iff_eq]
      rfl
    rw [regionOps, if_pos hdel]
    constructor
    · rintro h op hop
      rcases List.mem_append.mp hop with hop | hop
      · obtain rfl := List.mem_singleton.mp hop
        exact hdelete.mpr h
      · split at hop
        · obtain rfl := List.mem_singleton.mp hop
          exact h.1
        · cases hop
    · intro h
      exact hdelete.mp (h _ (List.mem_append_left _ List.mem_cons_self))
  · have hins := hsome heq.symm
    rw [(apply_insert heq.symm hins).1, ← heq,
      YItems.mend_eq_iff insert (fun hsplit => (of_splitsStart hsplit).1)
        (fun hsplit => (of_splitsStart hsplit).2),
      regionOps, ← heq, Nat.sub_self, if_neg (Nat.lt_irrefl 0), if_pos hins, List.nil_append]
    constructor
    · rintro ⟨hstart, -⟩ op hop
      obtain rfl := List.mem_singleton.mp hop
      exact hstart
    · intro h
      have hstart : region.splitsStart ytext = false := h _ List.mem_cons_self
      exact ⟨hstart, fun hsplit => absurd hsplit (by rw [hstart]; exact Bool.false_ne_true)⟩

/-- Without a lone high surrogate, no boundary that divides no pair splits an item. -/
theorem not_splits_of_noLoneHigh (h : NoLoneHigh (YItems.text ytext))
    (hle : region.start ≤ region.endOld)
    (hstart : ¬Divides ((YItems.text ytext).take region.start)
      ((YItems.text ytext).drop region.start))
    (hend : ¬Divides ((YItems.text ytext).take region.endOld)
      ((YItems.text ytext).drop region.endOld)) :
    region.splitsStart ytext = false ∧ region.splitsEnd ytext = false := by
  have hbefore : region.splitsStart ytext = false := by
    rw [← Bool.not_eq_true]
    intro hsplit
    obtain ⟨hends, hlt⟩ := YItems.of_splits hsplit
    rw [h.not_endsHigh hlt hstart] at hends
    cases hends
  refine ⟨hbefore, ?_⟩
  rw [← Bool.not_eq_true]
  intro hsplit
  obtain ⟨hends, hlt⟩ := YItems.of_splits hsplit
  have hright : YItems.text (YItems.findPosition region.start ytext).2 =
      (YItems.text ytext).drop region.start := by
    rw [text_right, hbefore, YItems.mendRight_false]
  rw [hright] at hends hlt
  rw [List.length_drop] at hlt
  have htake : (YItems.text ytext).take region.start ++
      ((YItems.text ytext).drop region.start).take (region.endOld - region.start) =
        (YItems.text ytext).take region.endOld := by
    rw [← List.take_add, Nat.add_sub_cancel' hle]
  rw [← YItems.endsHigh_append _ (YItems.ne_nil_of_endsHigh hends), htake,
    h.not_endsHigh (by omega) hend] at hends
  cases hends

end Rewrite

/-- The operations of the rewrite, where there is something to do. -/
theorem applyTextToYText_of_ne {ytext : YItems.Items} {newText : JsString}
    (hne : YItems.text ytext ≠ newText) :
    ∃ region insert, (applyTextToYText ytext newText).2 = regionOps region insert ∧
      (applyTextToYText ytext newText).1 = (regionOps region insert).foldl TextOp.apply ytext ∧
      region.start ≤ region.endOld ∧ region.endOld ≤ (YItems.text ytext).length ∧
      (region.endOld = region.start → 0 < insert.length) ∧
      newText = (YItems.text ytext).take region.start ++
        (insert ++ (YItems.text ytext).drop region.endOld) ∧
      ¬Divides ((YItems.text ytext).take region.start) ((YItems.text ytext).drop region.start) ∧
      ¬Divides ((YItems.text ytext).take region.endOld)
        ((YItems.text ytext).drop region.endOld) := by
  obtain ⟨hstart, hle, hlen, -, -, -⟩ := changedRegion_spec (YItems.text ytext) newText
  have hbefore := not_divides_start (YItems.text ytext) newText
  have hnew := newText_eq (YItems.text ytext) newText
  rw [← hstart] at hbefore hnew
  refine ⟨changedRegion (YItems.text ytext) newText, (newText.take (changedRegion
    (YItems.text ytext) newText).endNew).drop (changedRegion (YItems.text ytext) newText).start,
    ?_, ?_, hle, hlen, ?_, hnew, hbefore, not_divides_end _ _⟩
  · rw [applyTextToYText]
    dsimp only
    rw [if_neg hne]
    rfl
  · rw [applyTextToYText]
    dsimp only
    rw [if_neg hne]
    rfl
  · intro heq
    by_contra hins
    -- nothing deleted and nothing inserted leaves the text
    rw [List.eq_nil_of_length_eq_zero (Nat.eq_zero_of_not_pos hins), heq, List.nil_append,
      List.take_append_drop] at hnew
    exact hne hnew.symm

theorem regionOps_shape (region : Region) (insert : JsString) :
    ∃ deletes inserts, regionOps region insert = deletes ++ inserts ∧
      deletes.length ≤ 1 ∧ inserts.length ≤ 1 ∧
      (∀ op ∈ deletes, ∃ index length, op = .delete index length) ∧
      (∀ op ∈ inserts, ∃ index content, op = .insert index content) := by
  refine ⟨_, _, rfl, ?_, ?_, ?_, ?_⟩
  · split
    · exact le_rfl
    · exact Nat.zero_le 1
  · split
    · exact le_rfl
    · exact Nat.zero_le 1
  · intro op hop
    split at hop
    · exact ⟨_, _, List.mem_singleton.mp hop⟩
    · cases hop
  · intro op hop
    split at hop
    · exact ⟨_, _, List.mem_singleton.mp hop⟩
    · cases hop

/-- The rewrite, for every old text in whatever items and every new text: at most one
deletion and one insertion, none at a boundary inside a pair. The text reads the new one
exactly where no operation puts a replacement; without a lone high surrogate in the old
text it always does, and every stored unit stays what it was. -/
theorem applyTextToYText_exact (ytext : YItems.Items) (newText : JsString) :
    (∃ deletes inserts, (applyTextToYText ytext newText).2 = deletes ++ inserts ∧
      deletes.length ≤ 1 ∧ inserts.length ≤ 1 ∧
      (∀ op ∈ deletes, ∃ index length, op = .delete index length) ∧
      (∀ op ∈ inserts, ∃ index content, op = .insert index content)) ∧
    (∀ op ∈ (applyTextToYText ytext newText).2, op.Safe (YItems.text ytext)) ∧
    (YItems.text (applyTextToYText ytext newText).1 = newText ↔
      ∀ op ∈ (applyTextToYText ytext newText).2, op.substitutes ytext = false) ∧
    (NoLoneHigh (YItems.text ytext) →
      YItems.text (applyTextToYText ytext newText).1 = newText ∧
      ∃ before inserted after, YItems.stored ytext = before ++ after ∧
        YItems.stored (applyTextToYText ytext newText).1 = before ++ (inserted ++ after)) := by
  by_cases hsame : YItems.text ytext = newText
  · have hnothing : applyTextToYText ytext newText = (ytext, []) := if_pos hsame
    rw [hnothing]
    refine ⟨⟨[], [], rfl, Nat.zero_le _, Nat.zero_le _, List.forall_mem_nil _,
      List.forall_mem_nil _⟩, List.forall_mem_nil _,
      iff_of_true hsame (List.forall_mem_nil _), fun _ => ⟨hsame, YItems.stored ytext, [], [],
        (List.append_nil _).symm, (List.append_nil _).symm⟩⟩
  · obtain ⟨region, insert, hops, hitems, hle, hlen, hsome, hnew, hstart, hend⟩ :=
      applyTextToYText_of_ne hsame
    have hreads := text_regionOps_iff hle hlen hsome
    rw [← hnew] at hreads
    rw [hops, hitems]
    refine ⟨regionOps_shape region insert, ?_, hreads, fun hlone => ?_⟩
    · intro op hop
      rw [regionOps] at hop
      rcases List.mem_append.mp hop with hop | hop
      · split at hop
        · obtain rfl := List.mem_singleton.mp hop
          rw [TextOp.Safe, Nat.add_sub_cancel' hle]
          exact ⟨hlen, hstart, hend⟩
        · cases hop
      · split at hop
        · obtain rfl := List.mem_singleton.mp hop
          exact ⟨hle.trans hlen, hstart⟩
        · cases hop
    · obtain ⟨hbefore, hbehind⟩ := not_splits_of_noLoneHigh hlone hle hstart hend
      rcases hle.lt_or_eq with hlt | heq
      · obtain ⟨htext, hstored⟩ := @apply_delete ytext region insert hlt hlen
        rw [hbefore, hbehind, YItems.mendLeft_false, YItems.mendRight_false, ← hnew] at htext
        exact ⟨htext, hstored hbefore hbehind⟩
      · obtain ⟨htext, hstored⟩ := @apply_insert ytext region _ heq.symm (hsome heq.symm)
        rw [hbefore, YItems.mendLeft_false, YItems.mendRight_false, heq] at htext
        rw [heq] at hnew
        exact ⟨htext.trans hnew.symm, hstored hbefore⟩

/-- With a lone high surrogate in front of the end of the deletion, the text does not read
the new one: `"a\uD83Db"` rewritten to `"xb"` reads `"x\uFFFD"`. -/
theorem not_applyTextToYText_lone_high :
    ¬∀ (ytext : YItems.Items) (newText : JsString),
      YItems.text (applyTextToYText ytext newText).1 = newText := by
  intro h
  have hreads := h [⟨[97, 0xd83d, 98], false⟩] [120, 98]
  have hreplaced : YItems.text (applyTextToYText [⟨[97, 0xd83d, 98], false⟩] [120, 98]).1 =
      [120, replacement] := by decide
  rw [hreplaced] at hreads
  revert hreads
  decide

end Realtime.Text
