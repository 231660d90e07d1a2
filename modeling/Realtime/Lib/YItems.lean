import Realtime.Lib.YText

/-!
# Shared text as its items

A `Y.Text` holds its contents in items, each inserted at once, and a deleted item stays
in the sequence. An operation at an offset walks to the item the offset falls into and
cuts it in two there. An item is not cut behind a high surrogate: that unit and the one
behind it become U+FFFD, whether the two are a pair or not. An offset between two items
cuts nothing.

Where no cut `splits`, `delete` and `insert` are those of plain strings.
-/

namespace Lib.YItems

open Lib.Utf16 Lib.YText

/-- An item with its contents. A deleted one counts for nothing. -/
structure Item where
  content : JsString
  deleted : Bool
  deriving DecidableEq

abbrev Items := List Item

def Item.visible (item : Item) : JsString := if item.deleted then [] else item.content

/-- `ytext.toString()` -/
def text (items : Items) : JsString := items.flatMap Item.visible

/-- All contents, of the deleted items too. -/
def stored (items : Items) : JsString := items.flatMap Item.content

/-- The contents before a cut end in the first half of a pair, or in a lone one. -/
def endsHigh (left : JsString) : Bool := left.getLast?.any isHighSurrogate

/-- What stays before a cut. -/
def mendLeft (split : Bool) (left : JsString) : JsString :=
  if split then left.dropLast ++ [replacement] else left

/-- What stays behind a cut. -/
def mendRight (split : Bool) (right : JsString) : JsString :=
  if split then replacement :: right.tail else right

/-- The item on either side of a cut: `ContentString.splice`, which looks at the unit
before the cut only. -/
def Item.cut (item : Item) (offset : Nat) : Item × Item :=
  let left := item.content.take offset
  let right := item.content.drop offset
  ({ item with content := mendLeft (endsHigh left) left },
    { item with content := mendRight (endsHigh left) right })

/-- The items before and behind an offset of the text. -/
def findPosition : Nat → Items → Items × Items
  | _, [] => ([], [])
  | count, item :: items =>
      if count = 0 then ([], item :: items)
      else if count < item.visible.length then
        ([(item.cut count).1], (item.cut count).2 :: items)
      else
        let rest := findPosition (count - item.visible.length) items
        (item :: rest.1, rest.2)

/-- Mark the first `count` units of the text as deleted. -/
def deleteText : Nat → Items → Items
  | _, [] => []
  | count, item :: items =>
      if count = 0 then item :: items
      else if count < item.visible.length then
        { (item.cut count).1 with deleted := true } :: (item.cut count).2 :: items
      else { item with deleted := true } :: deleteText (count - item.visible.length) items

/-- `ytext.delete(index, length)` -/
def delete (items : Items) (index length : Nat) : Items :=
  (findPosition index items).1 ++ deleteText length (findPosition index items).2

/-- `ytext.insert(index, content)` -/
def insert (items : Items) (index : Nat) (content : JsString) : Items :=
  (findPosition index items).1 ++ ⟨content, false⟩ :: (findPosition index items).2

/-- Whether the walk to an offset cuts an item behind a high surrogate. -/
def splits : Nat → Items → Bool
  | _, [] => false
  | count, item :: items =>
      if count = 0 then false
      else if count < item.visible.length then endsHigh (item.content.take count)
      else splits (count - item.visible.length) items

@[simp] theorem text_nil : text [] = [] := rfl

@[simp] theorem text_cons (item : Item) (items : Items) :
    text (item :: items) = item.visible ++ text items := rfl

@[simp] theorem text_append (items items' : Items) :
    text (items ++ items') = text items ++ text items' := List.flatMap_append

@[simp] theorem stored_nil : stored [] = [] := rfl

@[simp] theorem stored_cons (item : Item) (items : Items) :
    stored (item :: items) = item.content ++ stored items := rfl

@[simp] theorem stored_append (items items' : Items) :
    stored (items ++ items') = stored items ++ stored items' := List.flatMap_append

/-! ## Cuts -/

@[simp] theorem mendLeft_false (left : JsString) : mendLeft false left = left := rfl

@[simp] theorem mendRight_false (right : JsString) : mendRight false right = right := rfl

theorem ne_nil_of_endsHigh {left : JsString} (h : endsHigh left = true) : left ≠ [] := by
  rintro rfl
  cases h

theorem endsHigh_append {left : JsString} (before : JsString) (h : left ≠ []) :
    endsHigh (before ++ left) = endsHigh left := by
  rw [endsHigh, endsHigh, List.getLast?_append, List.getLast?_eq_some_getLast h, Option.some_or]

theorem mendLeft_append {split : Bool} {left : JsString} (before : JsString)
    (h : split = true → left ≠ []) :
    mendLeft split (before ++ left) = before ++ mendLeft split left := by
  cases split with
  | false => rfl
  | true =>
      show (before ++ left).dropLast ++ _ = before ++ (left.dropLast ++ _)
      rw [List.dropLast_append_of_ne_nil (h rfl), List.append_assoc]

theorem mendRight_append {split : Bool} {right : JsString} (after : JsString)
    (h : split = true → right ≠ []) :
    mendRight split (right ++ after) = mendRight split right ++ after := by
  cases split with
  | false => rfl
  | true =>
      show replacement :: (right ++ after).tail = replacement :: (right.tail ++ after)
      rw [List.tail_append_of_ne_nil (h rfl)]

theorem length_mendLeft {split : Bool} {left : JsString} (h : split = true → left ≠ []) :
    (mendLeft split left).length = left.length := by
  cases split with
  | false => rfl
  | true =>
      have hpos := List.length_pos_of_ne_nil (h rfl)
      simp only [mendLeft, if_pos, List.length_append, List.length_dropLast,
        List.length_singleton]
      omega

theorem length_mendRight {split : Bool} {right : JsString} (h : split = true → right ≠ []) :
    (mendRight split right).length = right.length := by
  cases split with
  | false => rfl
  | true =>
      have hpos := List.length_pos_of_ne_nil (h rfl)
      simp only [mendRight, if_pos, List.length_cons, List.length_tail]
      omega

/-- A unit before a cut that is replaced is one that is seen to be. -/
theorem mendLeft_eq_iff {split : Bool} {left : JsString} (h : split = true → endsHigh left = true) :
    mendLeft split left = left ↔ split = false := by
  cases split with
  | false => exact iff_of_true rfl rfl
  | true =>
      refine iff_of_false (fun heq => ?_) (by simp)
      have hlast := congrArg endsHigh heq
      rw [h rfl, mendLeft, if_pos rfl, endsHigh, List.getLast?_concat] at hlast
      exact absurd hlast (by decide)

theorem mendRight_eq_iff {split : Bool} {right : JsString} (h : split = true → right ≠ []) :
    mendRight split right = right ↔ (split = true → right.head? = some replacement) := by
  cases split with
  | false => simp
  | true =>
      obtain ⟨c, right, rfl⟩ := List.exists_cons_of_ne_nil (h rfl)
      simp [mendRight, eq_comm]

/-- A text whose middle is rewritten shows both cuts, except for a replacement that was
there before. -/
theorem mend_eq_iff {split split' : Bool} {left right : JsString} (middle : JsString)
    (hleft : split = true → endsHigh left = true) (hright : split' = true → right ≠ []) :
    mendLeft split left ++ (middle ++ mendRight split' right) = left ++ (middle ++ right) ↔
      split = false ∧ (split' = true → right.head? = some replacement) := by
  rw [← mendLeft_eq_iff hleft, ← mendRight_eq_iff hright]
  constructor
  · intro h
    obtain ⟨hl, h⟩ :=
      List.append_inj h (length_mendLeft fun hsplit => ne_nil_of_endsHigh (hleft hsplit))
    exact ⟨hl, List.append_cancel_left h⟩
  · rintro ⟨hl, hr⟩
    rw [hl, hr]

/-- A cut of an item inside the text. -/
theorem Item.cut_eq {item : Item} {count : Nat} (hlt : count < item.visible.length) :
    item.visible = item.content ∧ item.deleted = false := by
  have hlive : item.deleted = false := by
    by_contra hdel
    rw [Item.visible, if_pos (by simpa using hdel)] at hlt
    exact Nat.not_lt_zero _ hlt
  exact ⟨by simp [Item.visible, hlive], hlive⟩

theorem drop_ne_nil {s : JsString} {count : Nat} (h : count < s.length) : s.drop count ≠ [] :=
  fun hnil => Nat.not_le_of_lt h (List.drop_eq_nil_iff.mp hnil)

/-- A walk that splits an item ends inside the text, behind a high surrogate. -/
theorem of_splits {count : Nat} {items : Items} (h : splits count items = true) :
    endsHigh ((text items).take count) = true ∧ count < (text items).length := by
  induction items generalizing count with
  | nil => cases h
  | cons item items ih =>
      rw [splits] at h
      by_cases hzero : count = 0
      · rw [if_pos hzero] at h
        cases h
      · rw [if_neg hzero] at h
        rw [text_cons, List.length_append]
        by_cases hlt : count < item.visible.length
        · rw [if_pos hlt] at h
          refine ⟨?_, by omega⟩
          rwa [List.take_append_of_le_length hlt.le, (Item.cut_eq hlt).1]
        · rw [if_neg hlt] at h
          obtain ⟨hends, hinside⟩ := ih h
          refine ⟨?_, by omega⟩
          rwa [List.take_append, List.take_of_length_le (Nat.le_of_not_lt hlt),
            endsHigh_append _ (ne_nil_of_endsHigh hends)]

theorem drop_ne_nil_of_splits {count : Nat} {items : Items} (h : splits count items = true) :
    (text items).drop count ≠ [] :=
  drop_ne_nil (of_splits h).2

theorem findPosition_zero (items : Items) : findPosition 0 items = ([], items) := by
  cases items <;> simp [findPosition]

theorem splits_zero (items : Items) : splits 0 items = false := by
  cases items <;> simp [splits]

/-- The walk takes the text apart at the offset. Where it splits no item, it changes no
contents. -/
theorem findPosition_spec (count : Nat) (items : Items) :
    text (findPosition count items).1 = mendLeft (splits count items) ((text items).take count) ∧
      text (findPosition count items).2 =
        mendRight (splits count items) ((text items).drop count) ∧
      (splits count items = false →
        stored (findPosition count items).1 ++ stored (findPosition count items).2 =
          stored items) := by
  induction items generalizing count with
  | nil => simp [findPosition, splits]
  | cons item items ih =>
      by_cases hzero : count = 0
      · rw [hzero, findPosition_zero, splits_zero]
        simp
      · rw [findPosition, splits, if_neg hzero, if_neg hzero, text_cons]
        by_cases hlt : count < item.visible.length
        · obtain ⟨hvisible, hlive⟩ := Item.cut_eq hlt
          rw [if_pos hlt, if_pos hlt]
          rw [hvisible] at hlt ⊢
          rw [List.take_append_of_le_length hlt.le, List.drop_append_of_le_length hlt.le,
            mendRight_append _ fun _ => drop_ne_nil hlt]
          refine ⟨?_, ?_, fun hkeeps => ?_⟩
          · simp [Item.visible, Item.cut, hlive]
          · simp [Item.visible, Item.cut, hlive]
          · rw [stored_cons, stored_cons, stored_cons, stored_nil, List.append_nil, Item.cut]
            dsimp only
            rw [hkeeps, mendLeft_false, mendRight_false, ← List.append_assoc,
              List.take_append_drop]
        · have hge := Nat.le_of_not_lt hlt
          obtain ⟨hleft, hright, hstored⟩ := ih (count - item.visible.length)
          rw [if_neg hlt, if_neg hlt, List.take_append, List.drop_append,
            List.take_of_length_le hge, List.drop_of_length_le hge]
          refine ⟨?_, ?_, fun hkeeps => ?_⟩
          · rw [text_cons, hleft,
              mendLeft_append _ fun hsplit => ne_nil_of_endsHigh (of_splits hsplit).1]
          · rw [hright, List.nil_append]
          · rw [stored_cons, stored_cons, List.append_assoc, hstored hkeeps]

theorem length_findPosition {count : Nat} {items : Items} (hle : count ≤ (text items).length) :
    (text (findPosition count items).1).length = count := by
  rw [(findPosition_spec count items).1,
    length_mendLeft fun hsplit => ne_nil_of_endsHigh (of_splits hsplit).1, List.length_take,
    min_eq_left hle]

/-- An offset between two items cuts none. -/
theorem findPosition_append {count : Nat} {before : Items} (items : Items)
    (h : (text before).length = count) :
    text (findPosition count (before ++ items)).1 = text before ∧
      text (findPosition count (before ++ items)).2 = text items ∧
      stored (findPosition count (before ++ items)).1 ++
        stored (findPosition count (before ++ items)).2 = stored before ++ stored items := by
  induction before generalizing count with
  | nil =>
      obtain rfl : 0 = count := h
      rw [List.nil_append, findPosition_zero]
      simp
  | cons item before ih =>
      rw [text_cons, List.length_append] at h
      by_cases hzero : count = 0
      · -- nothing of the text is before the offset
        have hitem : item.visible = [] := List.eq_nil_of_length_eq_zero (by omega)
        have hbefore : text before = [] := List.eq_nil_of_length_eq_zero (by omega)
        rw [hzero, findPosition_zero]
        simp [hitem, hbefore]
      · rw [List.cons_append, findPosition, if_neg hzero,
          if_neg (show ¬count < item.visible.length by omega)]
        obtain ⟨hleft, hright, hstored⟩ := ih
          (show (text before).length = count - item.visible.length by omega)
        refine ⟨?_, hright, ?_⟩
        · rw [text_cons, text_cons, hleft]
        · rw [stored_cons, stored_cons, List.append_assoc, hstored, List.append_assoc]

theorem deleteText_zero (items : Items) : deleteText 0 items = items := by
  cases items <;> simp [deleteText]

theorem deleteText_spec (count : Nat) (items : Items) :
    text (deleteText count items) = mendRight (splits count items) ((text items).drop count) ∧
      (splits count items = false → stored (deleteText count items) = stored items) := by
  induction items generalizing count with
  | nil => simp [deleteText, splits]
  | cons item items ih =>
      by_cases hzero : count = 0
      · rw [hzero, deleteText_zero, splits_zero]
        simp
      · rw [deleteText, splits, if_neg hzero, if_neg hzero, text_cons]
        by_cases hlt : count < item.visible.length
        · obtain ⟨hvisible, hlive⟩ := Item.cut_eq hlt
          rw [if_pos hlt, if_pos hlt]
          rw [hvisible] at hlt ⊢
          rw [List.drop_append_of_le_length hlt.le, mendRight_append _ fun _ => drop_ne_nil hlt]
          refine ⟨?_, fun hkeeps => ?_⟩
          · simp [Item.visible, Item.cut, hlive]
          · rw [stored_cons, stored_cons, stored_cons, Item.cut]
            dsimp only
            rw [hkeeps, mendLeft_false, mendRight_false, ← List.append_assoc,
              List.take_append_drop]
        · have hge := Nat.le_of_not_lt hlt
          obtain ⟨htext, hstored⟩ := ih (count - item.visible.length)
          rw [if_neg hlt, if_neg hlt, List.drop_append, List.drop_of_length_le hge,
            List.nil_append]
          refine ⟨?_, fun hkeeps => ?_⟩
          · rw [text_cons, htext]
            rfl
          · rw [stored_cons, stored_cons, hstored hkeeps]

/-! ## A rewrite of the middle -/

variable {items : Items} {start count : Nat}

/-- What a deletion deletes is not seen any more, and neither is what the walk to it put
in the place of its first unit. -/
theorem delete_spec (hcount : 0 < count) :
    let right := (findPosition start items).2
    text (deleteText count right) =
        mendRight (splits count right) ((text items).drop (start + count)) ∧
      (splits start items = false → splits count right = false →
        stored (findPosition start items).1 ++ stored (deleteText count right) =
          stored items) := by
  intro right
  obtain ⟨-, hright, hfound⟩ := findPosition_spec start items
  obtain ⟨htext, hstored⟩ := deleteText_spec count right
  refine ⟨?_, fun hstart hstop => ?_⟩
  · have hdrop : (text right).drop count = (text items).drop (start + count) := by
      rw [hright, ← List.drop_drop]
      cases splits start items with
      | false => rfl
      | true =>
          obtain ⟨count, rfl⟩ := Nat.exists_eq_add_of_le' hcount
          rw [mendRight, if_pos rfl, List.drop_succ_cons, ← List.drop_one, List.drop_drop,
            Nat.add_comm 1]
    rw [htext, hdrop]
  · rw [hstored hstop, hfound hstart]

/-- The text and the contents that an insertion leaves, from those its walk finds. -/
theorem insert_spec {left right : JsString}
    (hleft : text (findPosition start items).1 = left)
    (hright : text (findPosition start items).2 = right) (content : JsString) :
    text (insert items start content) = left ++ (content ++ right) := by
  rw [insert, text_append, text_cons, hleft, hright]
  rfl

theorem stored_insert {whole : JsString} (h : stored (findPosition start items).1 ++
      stored (findPosition start items).2 = whole) (content : JsString) :
    ∃ before after, before ++ after = whole ∧
      stored (insert items start content) = before ++ (content ++ after) := by
  refine ⟨_, _, h, ?_⟩
  rw [insert, stored_append, stored_cons]

end Lib.YItems
