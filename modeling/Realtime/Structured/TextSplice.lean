import Realtime.Structured.ReconcilersAgree

/-!
# The splice of a server text

`common_affixes` and `apply_string_to_ytext` of `server/src/ydoc.rs` as they run over byte
offsets: slices of a string panic inside a character (`none`), and the offsets of a text are
`u32`. `Server.commonAffixes` is what the two scans arrive at.
-/

namespace Realtime.Structured.TextSplice

open Lib Lib.Str Server

/-! ## Slices -/

/-- `&s[..offset]` -/
def sliceTo (s : Str) (offset : Nat) : Option Str :=
  if byteLength (takeBytes offset s) = offset then some (takeBytes offset s) else none

/-- `&s[offset..]` -/
def sliceFrom (s : Str) (offset : Nat) : Option Str :=
  (sliceTo s offset).map fun _ => dropBytes offset s

/-- `&s[start..stop]` -/
def slice (s : Str) (start stop : Nat) : Option Str :=
  (sliceTo s stop).bind fun front => sliceFrom front start

theorem sliceTo_append (s t : Str) : sliceTo (s ++ t) (byteLength s) = some s := by
  rw [sliceTo, takeBytes_append, if_pos rfl]

theorem sliceFrom_append (s t : Str) : sliceFrom (s ++ t) (byteLength s) = some t := by
  rw [sliceFrom, sliceTo_append, Option.map_some, dropBytes_append]

theorem slice_append (s t u : Str) :
    slice (s ++ (t ++ u)) (byteLength s) (byteLength s + byteLength t) = some t := by
  rw [slice, ← List.append_assoc, ← byteLength_append, sliceTo_append, Option.bind_some,
    sliceFrom_append]

/-! ## The scans -/

/-- `char_indices`, from an offset on -/
def charIndices (offset : Nat) : Str → List (Nat × Char)
  | [] => []
  | c :: s => (offset, c) :: charIndices (offset + c.utf8Size) s

/-- The scan from the front, with its assertion. -/
def scanPrefix (start : Nat) : List ((Nat × Char) × (Nat × Char)) → Option Nat
  | [] => some start
  | ((oldIdx, oldCh), (newIdx, newCh)) :: rest =>
      if oldCh ≠ newCh then some start
      else if oldIdx + oldCh.utf8Size = newIdx + newCh.utf8Size then
        scanPrefix (oldIdx + oldCh.utf8Size) rest
      else none

/-- `s[..offset].chars().next_back()` -/
def charBefore (s : Str) (offset : Nat) : Option Char :=
  (sliceTo s offset).bind fun front => front.getLast?

/-- The scan from the end, down to what the other has found. -/
def scanSuffix (start : Nat) (old new : Str) (oldSuffix newSuffix : Nat) : Option (Nat × Nat) :=
  if start < oldSuffix ∧ start < newSuffix then
    match charBefore old oldSuffix, charBefore new newSuffix with
    | some oldCh, some newCh =>
        if oldCh ≠ newCh then some (oldSuffix, newSuffix)
        else scanSuffix start old new (oldSuffix - oldCh.utf8Size) (newSuffix - newCh.utf8Size)
    | _, _ => none
  else some (oldSuffix, newSuffix)
termination_by oldSuffix
decreasing_by
  have hpos := oldCh.utf8Size_pos
  omega

/-- `common_affixes` -/
def commonAffixes (old new : Str) : Option (Nat × Nat × Nat) :=
  (scanPrefix 0 ((charIndices 0 old).zip (charIndices 0 new))).bind fun start =>
    (scanSuffix start old new (byteLength old) (byteLength new)).map fun stop =>
      (start, stop.1, stop.2)

/-! ## The splice -/

/-- A `yrs` text: its length is a `u32`. -/
structure YText where
  content : Str
  fits : byteLength content < 2 ^ 32

def removeRange (content : Str) (index len : Nat) : Option Str :=
  (sliceTo content index).bind fun front => (sliceFrom content (index + len)).map (front ++ ·)

def insertAt (content : Str) (index : Nat) (chunk : Str) : Option Str :=
  (sliceTo content index).bind fun front =>
    (sliceFrom content index).map fun back => front ++ (chunk ++ back)

/-- The first half of the splice, which is left out where there is nothing to remove. -/
def removeMiddle (content : Str) (index deleteLen : Nat) : Option (Str × List Op) :=
  if 0 < deleteLen then
    (removeRange content index deleteLen).map fun content =>
      (content, [.textRemoveRange index deleteLen])
  else some (content, [])

/-- `apply_string_to_ytext`: the text it leaves and the operations on it. -/
def applyStringToYtext (ytext : YText) (next : Str) : Option (Str × List Op) :=
  let old := ytext.content
  if old = next then some (old, [])
  else do
    let (start, oldSuffix, newSuffix) ← commonAffixes old next
    let deleteLen := (oldSuffix - start) % 2 ^ 32
    let (content, ops) ← removeMiddle old (start % 2 ^ 32) deleteLen
    let insert ← slice next start newSuffix
    if insert = [] then some (content, ops)
    else (insertAt content (start % 2 ^ 32) insert).map fun content =>
      (content, ops ++ [.textInsert (start % 2 ^ 32) insert])

/-- One contiguous edit: what is removed, and what is put in its place. -/
def edit (start deleteLen : Nat) (insert : Str) : List Op :=
  (if deleteLen = 0 then [] else [.textRemoveRange start deleteLen]) ++
    if insert = [] then [] else [.textInsert start insert]

/-! ## What the scans find -/

/-- Where the two strings differ, on the boundaries of their characters. -/
structure Affixes (old new : Str) (start oldSuffix newSuffix : Nat) : Prop where
  le_old : start ≤ oldSuffix ∧ oldSuffix ≤ byteLength old
  le_new : start ≤ newSuffix ∧ newSuffix ≤ byteLength new
  front : ∃ front, slice old 0 start = some front ∧ slice new 0 start = some front
  back : ∃ back, slice old oldSuffix (byteLength old) = some back ∧
    slice new newSuffix (byteLength new) = some back
  middle : ∃ middle middle', slice old start oldSuffix = some middle ∧
    slice new start newSuffix = some middle' ∧
    (∀ c ∈ middle.head?, c ∉ middle'.head?) ∧ ∀ c ∈ middle.getLast?, c ∉ middle'.getLast?

/-- The strings differ behind what the first scan has found. -/
theorem scanPrefix_eq (old new : Str) (offset : Nat) :
    scanPrefix offset ((charIndices offset old).zip (charIndices offset new)) =
      some (offset + byteLength (old.take (commonPrefix old new))) := by
  induction old generalizing new offset with
  | nil => rfl
  | cons c old ih =>
      cases new with
      | nil => rfl
      | cons d new =>
          rw [charIndices, charIndices, List.zip_cons_cons, scanPrefix, commonPrefix]
          by_cases hcd : c = d
          · obtain rfl := hcd
            rw [if_neg (not_not.mpr rfl), if_pos rfl, if_pos rfl, ih, List.take_succ_cons,
              byteLength_cons, Nat.add_assoc]
          · rw [if_pos hcd, if_neg hcd]
            rfl

theorem charBefore_append (s : Str) (c : Char) (t : Str) :
    charBefore (s ++ (c :: t)) (byteLength s + c.utf8Size) = some c := by
  have hlength : byteLength s + c.utf8Size = byteLength (s ++ [c]) := by
    rw [byteLength_append, byteLength_cons, byteLength_nil, Nat.add_zero]
  rw [charBefore, hlength, List.append_cons, sliceTo_append, Option.bind_some, List.getLast?_concat]

/-- Of what is behind `head`, read from the end, the second scan takes what the strings share. -/
theorem scanSuffix_eq (head a b tail : Str) :
    scanSuffix (byteLength head) (head ++ (a.reverse ++ tail)) (head ++ (b.reverse ++ tail))
        (byteLength (head ++ a.reverse)) (byteLength (head ++ b.reverse)) =
      some (byteLength (head ++ (a.drop (commonPrefix a b)).reverse),
        byteLength (head ++ (b.drop (commonPrefix a b)).reverse)) := by
  induction a generalizing b tail with
  | nil =>
      rw [scanSuffix, if_neg]
      · rfl
      · simp
  | cons c a ih =>
      cases b with
      | nil =>
          rw [scanSuffix, if_neg]
          · rfl
          · simp
      | cons d b =>
          have hlength (c : Char) (a : Str) : byteLength (head ++ (c :: a).reverse) =
              byteLength (head ++ a.reverse) + c.utf8Size := by
            rw [List.reverse_cons, ← List.append_assoc, byteLength_append (head ++ a.reverse)]
            rfl
          have hassoc (c : Char) (a : Str) : head ++ ((c :: a).reverse ++ tail) =
              head ++ a.reverse ++ (c :: tail) := by
            rw [List.reverse_cons]
            simp only [List.append_assoc]
            rfl
          have hstart (a : Str) : byteLength head ≤ byteLength (head ++ a.reverse) := by
            rw [byteLength_append]
            exact Nat.le_add_right _ _
          have hc := c.utf8Size_pos
          have hd := d.utf8Size_pos
          have ha := hstart a
          have hb := hstart b
          rw [scanSuffix, hlength, hlength, if_pos ⟨by omega, by omega⟩, hassoc, hassoc,
            charBefore_append, charBefore_append, commonPrefix]
          dsimp only
          by_cases hcd : c = d
          · obtain rfl := hcd
            rw [if_neg (not_not.mpr rfl), if_pos rfl, Nat.add_sub_cancel, Nat.add_sub_cancel,
              List.append_assoc, List.append_assoc, ih, List.drop_succ_cons, List.drop_succ_cons]
          · rw [if_pos hcd, if_neg hcd, ← hlength, ← hlength]
            rfl

/-- Two strings by what they share, and the offsets that the scans give for them. -/
structure Parts (old new head middle middle' tail : Str) : Prop where
  oldEq : old = head ++ (middle ++ tail)
  newEq : new = head ++ (middle' ++ tail)
  first : ∀ c ∈ middle.head?, c ∉ middle'.head?
  last : ∀ c ∈ middle.getLast?, c ∉ middle'.getLast?
  affixes : commonAffixes old new = some (byteLength head, byteLength head + byteLength middle,
    byteLength head + byteLength middle')

/-- The strings differ behind the start they share. -/
theorem head_drop_commonPrefix {α : Type*} [DecidableEq α] (a b : List α) :
    ∀ c ∈ (a.drop (commonPrefix a b)).head?, c ∉ (b.drop (commonPrefix a b)).head? := by
  induction a generalizing b with
  | nil => exact nofun
  | cons x a ih =>
      cases b with
      | nil => exact fun _ _ => nofun
      | cons y b =>
          rw [commonPrefix]
          by_cases hxy : x = y
          · rw [if_pos hxy, List.drop_succ_cons, List.drop_succ_cons]
            exact ih b
          · rw [if_neg hxy]
            intro c hc hc'
            exact hxy ((Option.some_inj.mp hc).trans (Option.some_inj.mp hc').symm)

/-- The offsets, where what is behind the shared start is read from the end. -/
theorem commonAffixes_scans (old new : Str) :
    let start := commonPrefix old new
    let a := (old.drop start).reverse
    let b := (new.drop start).reverse
    commonAffixes old new = some (byteLength (old.take start),
      byteLength (old.take start ++ (a.drop (commonPrefix a b)).reverse),
      byteLength (old.take start ++ (b.drop (commonPrefix a b)).reverse)) := by
  intro start a b
  have hold : old.take start ++ a.reverse = old := by
    rw [List.reverse_reverse, List.take_append_drop]
  have hnew : old.take start ++ b.reverse = new := by
    rw [List.reverse_reverse, take_commonPrefix, List.take_append_drop]
  have hscan := scanSuffix_eq (old.take start) a b []
  rw [List.append_nil, List.append_nil, hold, hnew] at hscan
  rw [commonAffixes, scanPrefix_eq, Nat.zero_add, Option.bind_some, hscan]
  rfl

/-- The two models of `common_affixes` agree: the scans here, and what the strings share, by
which the reconciliation has it. -/
theorem commonAffixes_eq (old new : Str) :
    commonAffixes old new = some (Server.commonAffixes old new) := by
  have htake (l : Str) {start count : Nat} (hcount : count ≤ l.length - start)
      (hstart : start ≤ l.length) : l.take start ++ ((l.drop start).reverse.drop count).reverse =
        l.take (l.length - count) := by
    rw [List.drop_reverse, List.reverse_reverse, List.length_drop, ← List.take_add]
    congr 1
    omega
  have hstart := commonPrefix_le_left old new
  have hstart' := commonPrefix_le_left new old
  rw [commonPrefix_comm] at hstart'
  have hend := commonSuffix_le_left (commonPrefix old new) old new
  have hend' := commonSuffix_le_left (commonPrefix old new) new old
  rw [commonSuffix_comm] at hend'
  have hnew := htake new hend' hstart'
  rw [← take_commonPrefix] at hnew
  rw [commonAffixes_scans, Server.commonAffixes]
  rw [← htake old hend hstart, ← hnew]
  rfl

theorem exists_parts (old new : Str) :
    ∃ head middle middle' tail, Parts old new head middle middle' tail := by
  have haffixes := commonAffixes_scans old new
  have hfirst := head_drop_commonPrefix old new
  have hold := List.take_append_drop (commonPrefix old new) old
  have hnew := List.take_append_drop (commonPrefix old new) new
  rw [← take_commonPrefix] at hnew
  dsimp only at haffixes
  generalize old.take (commonPrefix old new) = head at haffixes hold hnew
  generalize old.drop (commonPrefix old new) = a at haffixes hold hfirst
  generalize new.drop (commonPrefix old new) = b at haffixes hnew hfirst
  have hsplit (a b : Str) : a = (a.reverse.drop (commonPrefix a.reverse b.reverse)).reverse ++
      (a.reverse.take (commonPrefix a.reverse b.reverse)).reverse := by
    rw [← List.reverse_append, List.take_append_drop, List.reverse_reverse]
  refine ⟨head, (a.reverse.drop (commonPrefix a.reverse b.reverse)).reverse,
    (b.reverse.drop (commonPrefix a.reverse b.reverse)).reverse,
    (a.reverse.take (commonPrefix a.reverse b.reverse)).reverse, ?_, ?_, ?_, ?_, ?_⟩
  · rw [← hsplit, hold]
  · rw [take_commonPrefix, commonPrefix_comm, ← hsplit, hnew]
  · intro c hc hc'
    refine hfirst c ?_ ?_
    · rw [hsplit a b]
      exact List.mem_head?_append_of_mem_head? hc
    · rw [hsplit b a, commonPrefix_comm b.reverse]
      exact List.mem_head?_append_of_mem_head? hc'
  · rw [List.getLast?_reverse, List.getLast?_reverse]
    exact head_drop_commonPrefix _ _
  · rw [haffixes, byteLength_append, byteLength_append]

theorem Parts.spec {old new head middle middle' tail : Str}
    (h : Parts old new head middle middle' tail) : Affixes old new (byteLength head)
      (byteLength head + byteLength middle) (byteLength head + byteLength middle') := by
  have hslice (middle : Str) : slice (head ++ (middle ++ tail)) 0 (byteLength head) = some head ∧
      slice (head ++ (middle ++ tail)) (byteLength head + byteLength middle)
        (byteLength (head ++ (middle ++ tail))) = some tail ∧
      slice (head ++ (middle ++ tail)) (byteLength head) (byteLength head + byteLength middle) =
        some middle ∧
      byteLength head + byteLength middle ≤ byteLength (head ++ (middle ++ tail)) := by
    refine ⟨?_, ?_, slice_append head middle tail, ?_⟩
    · have hfront := slice_append [] head (middle ++ tail)
      rwa [byteLength_nil, Nat.zero_add] at hfront
    · have hback := slice_append (head ++ middle) tail []
      rwa [List.append_nil, ← byteLength_append (head ++ middle), byteLength_append head middle,
        List.append_assoc] at hback
    · rw [byteLength_append, byteLength_append]
      omega
  obtain ⟨hfront, hback, hmiddle, hle⟩ := hslice middle
  obtain ⟨hfront', hback', hmiddle', hle'⟩ := hslice middle'
  rw [← h.oldEq] at hfront hback hmiddle hle
  rw [← h.newEq] at hfront' hback' hmiddle' hle'
  exact ⟨⟨Nat.le_add_right _ _, hle⟩, ⟨Nat.le_add_right _ _, hle'⟩, ⟨head, hfront, hfront'⟩,
    ⟨tail, hback, hback'⟩, ⟨middle, middle', hmiddle, hmiddle', h.first, h.last⟩⟩

/-- The offsets do not leave a `u32`, and what is removed and inserted makes the text the next
one. -/
theorem Parts.apply {ytext : YText} {next head middle middle' tail : Str}
    (h : Parts ytext.content next head middle middle' tail) :
    applyStringToYtext ytext next =
      some (next, edit (byteLength head) (byteLength middle) middle') := by
  have hfits := ytext.fits
  rw [h.oldEq, byteLength_append, byteLength_append] at hfits
  have hstart : byteLength head % 2 ^ 32 = byteLength head := Nat.mod_eq_of_lt (by omega)
  have hdelete : (byteLength head + byteLength middle - byteLength head) % 2 ^ 32 =
      byteLength middle := by
    rw [Nat.add_sub_cancel_left]
    exact Nat.mod_eq_of_lt (by omega)
  have hinsert : slice next (byteLength head) (byteLength head + byteLength middle') =
      some middle' := by
    rw [h.newEq]
    exact slice_append head middle' tail
  by_cases hsame : ytext.content = next
  · -- the whole text is shared
    have hboth : middle = middle' := by
      have heq := h.oldEq.symm.trans (hsame.trans h.newEq)
      exact List.append_cancel_right (List.append_cancel_left heq)
    obtain rfl : middle = [] := by
      cases middle with
      | nil => rfl
      | cons c middle => exact absurd (hboth ▸ rfl) (h.first c rfl)
    rw [applyStringToYtext, if_pos hsame, ← hboth, hsame]
    rfl
  · have hdeleted : removeMiddle ytext.content (byteLength head) (byteLength middle) =
        some (head ++ tail, if byteLength middle = 0 then []
          else [Op.textRemoveRange (byteLength head) (byteLength middle)]) := by
      unfold removeMiddle
      by_cases hempty : byteLength middle = 0
      · rw [if_neg (by omega), if_pos hempty, h.oldEq, eq_nil_of_byteLength hempty,
          List.nil_append]
      · have hback := sliceFrom_append (head ++ middle) tail
        rw [List.append_assoc, byteLength_append] at hback
        rw [if_pos (by omega), if_neg hempty, h.oldEq, removeRange, sliceTo_append,
          Option.bind_some, hback]
        rfl
    unfold applyStringToYtext
    dsimp only
    rw [if_neg hsame, h.affixes]
    dsimp only [Option.bind_eq_bind, Option.bind_some]
    rw [hdelete, hstart, hdeleted, Option.bind_some, hinsert, Option.bind_some]
    by_cases hempty : middle' = []
    · rw [if_pos hempty, h.newEq, edit, if_pos hempty, List.append_nil, hempty, List.nil_append]
    · rw [if_neg hempty, insertAt, sliceTo_append, Option.bind_some, sliceFrom_append, edit,
        if_neg hempty, h.newEq]
      rfl

/-- The offsets of a splice are exact and on characters, and the splice makes any text the next
one in one edit. -/
theorem splice_exact :
    (∀ old new : Str, ∃ start oldSuffix newSuffix,
      commonAffixes old new = some (start, oldSuffix, newSuffix) ∧
        Server.commonAffixes old new = (start, oldSuffix, newSuffix) ∧
        Affixes old new start oldSuffix newSuffix) ∧
    ∀ (ytext : YText) (next : Str), ∃ start oldSuffix newSuffix insert,
      commonAffixes ytext.content next = some (start, oldSuffix, newSuffix) ∧
        slice next start newSuffix = some insert ∧
        applyStringToYtext ytext next = some (next, edit start (oldSuffix - start) insert) := by
  refine ⟨fun old new => ?_, fun ytext next => ?_⟩
  · obtain ⟨head, middle, middle', tail, hparts⟩ := exists_parts old new
    have hserver := (commonAffixes_eq old new).symm.trans hparts.affixes
    exact ⟨_, _, _, hparts.affixes, Option.some.inj hserver, hparts.spec⟩
  · obtain ⟨head, middle, middle', tail, hparts⟩ := exists_parts ytext.content next
    refine ⟨byteLength head, byteLength head + byteLength middle,
      byteLength head + byteLength middle', middle', hparts.affixes, ?_, ?_⟩
    · rw [hparts.newEq]
      exact slice_append head middle' tail
    · rw [Nat.add_sub_cancel_left]
      exact hparts.apply

end Realtime.Structured.TextSplice
