import Mathlib

/-!
# Rust strings

A string as the list of its characters, with the functions of `str` that are used
on ids, paths and the texts of small files, and the reading of bytes as UTF-8.
-/

namespace Lib

abbrev Str := List Char

abbrev Bytes := List UInt8

instance : LawfulBEq Str := inferInstance

namespace Str

/-- `len`, in bytes. -/
def byteLength (s : Str) : Nat := (s.map Char.utf8Size).sum

/-- `strip_prefix` -/
def stripPrefix (front s : Str) : Option Str :=
  if front.isPrefixOf s then some (s.drop front.length) else none

/-- `strip_suffix` -/
def stripSuffix (back s : Str) : Option Str :=
  if back.isSuffixOf s then some (s.take (s.length - back.length)) else none

/-- `char::is_whitespace` -/
def isWhitespace (c : Char) : Bool :=
  (0x9 ≤ c.val ∧ c.val ≤ 0xD) || c.val = 0x20 || c.val = 0x85 || c.val = 0xA0 ||
    c.val = 0x1680 || (0x2000 ≤ c.val ∧ c.val ≤ 0x200A) || c.val = 0x2028 || c.val = 0x2029 ||
    c.val = 0x202F || c.val = 0x205F || c.val = 0x3000

def trim (s : Str) : Str := (s.dropWhile isWhitespace).rdropWhile isWhitespace

/-- `to_ascii_lowercase` -/
def lower (s : Str) : Str := s.map Char.toLower

/-- `lines`: without the line ends, and without the empty line after the last. -/
def lines (s : Str) : List Str :=
  let parts := s.splitOn '\n'
  let parts := if parts.getLast? = some [] then parts.dropLast else parts
  parts.map fun line => if line.getLast? = some '\r' then line.dropLast else line

/-- `parse::<u64>` -/
def parseU64 (s : Str) : Option Nat :=
  let digits := match s with
    | '+' :: rest => rest
    | _ => s
  if digits = [] ∨ !digits.all Char.isDigit then none
  else
    let n := digits.foldl (fun n c => n * 10 + (c.toNat - 48)) 0
    if n < 2 ^ 64 then some n else none

/-- No part has the separator. -/
theorem not_mem_of_mem_splitOn {α : Type*} [BEq α] [LawfulBEq α] {x : α} {l part : List α}
    (h : part ∈ l.splitOn x) : x ∉ part := by
  induction l generalizing part with
  | nil =>
      rw [List.splitOn_nil, List.mem_singleton] at h
      rw [h]
      exact List.not_mem_nil
  | cons a l ih =>
      rw [List.splitOn_cons_eq_if_modifyHead] at h
      split at h
      · rcases List.mem_cons.mp h with rfl | h
        · exact List.not_mem_nil
        · exact ih h
      · rename_i ha
        cases hl : l.splitOn x with
        | nil => exact absurd hl (List.splitOn_ne_nil _ _)
        | cons head rest =>
            rw [hl] at h ih
            rcases List.mem_cons.mp h with rfl | h
            · intro hmem
              rcases List.mem_cons.mp hmem with rfl | hmem
              · exact ha (beq_self_eq_true _)
              · exact ih List.mem_cons_self hmem
            · exact ih (List.mem_cons_of_mem _ h)
theorem stripPrefix_append (front s : Str) : stripPrefix front (front ++ s) = some s := by
  rw [stripPrefix, if_pos (List.isPrefixOf_iff_prefix.mpr (List.prefix_append _ _)),
    List.drop_left]

theorem dropWhile_of_head {s : Str} (h : ∀ c ∈ s.head?, isWhitespace c = false) :
    s.dropWhile isWhitespace = s := by
  cases s with
  | nil => rfl
  | cons c s =>
      refine List.dropWhile_cons_of_neg ?_
      rw [h c rfl]
      exact Bool.false_ne_true

theorem head_trim (s : Str) : ∀ c ∈ (trim s).head?, isWhitespace c = false := by
  intro c hc
  obtain ⟨back, hback⟩ := List.rdropWhile_prefix isWhitespace (s.dropWhile isWhitespace)
  have hhead := List.head?_dropWhile_not isWhitespace s
  have hc : (List.rdropWhile isWhitespace (s.dropWhile isWhitespace)).head? = some c := hc
  rw [← hback, List.head?_append, hc] at hhead
  exact hhead

theorem last_trim (s : Str) : ∀ c ∈ (trim s).getLast?, isWhitespace c = false := by
  intro c hc
  obtain ⟨hne, rfl⟩ := List.mem_getLast?_eq_getLast hc
  exact Bool.eq_false_iff.mpr (List.rdropWhile_last_not _ _ hne)

theorem trim_trim (s : Str) : trim (trim s) = trim s := by
  show ((trim s).dropWhile isWhitespace).rdropWhile isWhitespace = trim s
  rw [dropWhile_of_head (head_trim s)]
  exact List.rdropWhile_idempotent _ _

theorem mem_of_mem_trim {s : Str} {c : Char} (h : c ∈ trim s) : c ∈ s :=
  (List.dropWhile_suffix _).subset ((List.rdropWhile_prefix _ _).subset h)

theorem not_mem_lines {s line : Str} (h : line ∈ lines s) : '\n' ∉ line := by
  unfold lines at h
  obtain ⟨part, hpart, rfl⟩ := List.mem_map.mp h
  have hmem : part ∈ s.splitOn '\n' := by
    split at hpart
    · exact (List.dropLast_sublist _).subset hpart
    · exact hpart
  have hno := not_mem_of_mem_splitOn hmem
  split
  · exact fun hc => hno ((List.dropLast_sublist _).subset hc)
  · exact hno

/-- The last line, if it is ended and has no carriage return at its end. -/
theorem lines_append {front line : Str} (hfront : front = [] ∨ front.getLast? = some '\n')
    (hline : '\n' ∉ line) (hreturn : line.getLast? ≠ some '\r') :
    ∃ before, lines (front ++ (line ++ ['\n'])) = before ++ [line] := by
  have hend : (line ++ ['\n']).splitOn '\n' = [line, []] :=
    (List.splitOn_append_cons_self_of_not_mem hline []).trans rfl
  have hparts : ∃ before, (front ++ (line ++ ['\n'])).splitOn '\n' = before ++ [line] ++ [[]] := by
    rcases hfront with rfl | hlast
    · exact ⟨[], hend⟩
    · obtain ⟨front, rfl⟩ := List.getLast?_eq_some_iff.mp hlast
      refine ⟨front.splitOn '\n', ?_⟩
      rw [List.append_assoc, List.singleton_append, List.splitOn_append_cons_self, hend,
        List.append_assoc]
      rfl
  obtain ⟨before, hparts⟩ := hparts
  unfold lines
  dsimp only
  rw [hparts, List.getLast?_concat, if_pos rfl, List.dropLast_concat, List.map_append,
    List.map_singleton, if_neg hreturn]
  exact ⟨_, rfl⟩

/-! ## UTF-8 -/

def isContinuation (b : UInt8) : Bool := 0x80 ≤ b ∧ b ≤ 0xBF

/-- The second bytes that may follow the first one of three or four. -/
def secondByte (first second : UInt8) : Bool :=
  if first = 0xE0 then 0xA0 ≤ second ∧ second ≤ 0xBF
  else if first = 0xED then 0x80 ≤ second ∧ second ≤ 0x9F
  else if first = 0xF0 then 0x90 ≤ second ∧ second ≤ 0xBF
  else if first = 0xF4 then 0x80 ≤ second ∧ second ≤ 0x8F
  else isContinuation second

/-- The low six bits. -/
def low (b : UInt8) : Nat := b.toNat % 64

/-- The characters of a byte string; `none` stands for a maximal part that begins
no character. -/
def utf8Chunks : Bytes → List (Option Char)
  | [] => []
  | b0 :: rest =>
      if b0 < 0x80 then some (Char.ofNat b0.toNat) :: utf8Chunks rest
      else if b0 < 0xC2 ∨ 0xF4 < b0 then none :: utf8Chunks rest
      else
        match rest with
        | [] => [none]
        | b1 :: rest1 =>
            if b0 < 0xE0 then
              if isContinuation b1 then
                some (Char.ofNat (b0.toNat % 32 * 64 + low b1)) :: utf8Chunks rest1
              else none :: utf8Chunks (b1 :: rest1)
            else if !secondByte b0 b1 then none :: utf8Chunks (b1 :: rest1)
            else
              match rest1 with
              | [] => [none]
              | b2 :: rest2 =>
                  if !isContinuation b2 then none :: utf8Chunks (b2 :: rest2)
                  else if b0 < 0xF0 then
                    some (Char.ofNat (b0.toNat % 16 * 4096 + low b1 * 64 + low b2)) ::
                      utf8Chunks rest2
                  else
                    match rest2 with
                    | [] => [none]
                    | b3 :: rest3 =>
                        if !isContinuation b3 then none :: utf8Chunks (b3 :: rest3)
                        else
                          some (Char.ofNat (b0.toNat % 8 * 262144 + low b1 * 4096 +
                            low b2 * 64 + low b3)) :: utf8Chunks rest3

/-- `from_utf8_lossy` -/
def fromUtf8Lossy (bytes : Bytes) : Str :=
  (utf8Chunks bytes).map fun c => c.getD (Char.ofNat 0xFFFD)

/-- `from_utf8` -/
def fromUtf8 (bytes : Bytes) : Option Str :=
  if (utf8Chunks bytes).all Option.isSome then some (fromUtf8Lossy bytes) else none

theorem fromUtf8Lossy_of_fromUtf8 {bytes : Bytes} {s : Str} (h : fromUtf8 bytes = some s) :
    fromUtf8Lossy bytes = s := by
  unfold fromUtf8 at h
  split at h
  · exact Option.some.inj h
  · cases h

end Str

end Lib
