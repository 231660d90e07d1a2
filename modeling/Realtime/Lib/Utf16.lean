/-!
# Strings of UTF-16 code units

A JavaScript string is a sequence of 16-bit code units, with no promise that the
surrogates in it come in pairs.
-/

namespace Lib.Utf16

/-- A string as its code units. -/
abbrev JsString := List UInt16

instance : LawfulBEq JsString := inferInstance

/-- `"\n"` -/
def newline : UInt16 := 10

/-- U+FFFD -/
def replacement : UInt16 := 0xfffd

def isHighSurrogate (code : UInt16) : Bool := 0xd800 ≤ code && code ≤ 0xdbff

def isLowSurrogate (code : UInt16) : Bool := 0xdc00 ≤ code && code ≤ 0xdfff

/-- A string literal of ASCII characters. -/
def ascii (s : String) : JsString := s.toList.map fun c => c.toNat.toUInt16

/-- Each half of a surrogate pair stands beside the other. -/
inductive Paired : JsString → Prop
  | nil : Paired []
  | unit {c : UInt16} {rest : JsString} : isHighSurrogate c = false → isLowSurrogate c = false →
      Paired rest → Paired (c :: rest)
  | pair {c d : UInt16} {rest : JsString} : isHighSurrogate c = true → isLowSurrogate d = true →
      Paired rest → Paired (c :: d :: rest)

theorem Paired.append {s t : JsString} (hs : Paired s) (ht : Paired t) : Paired (s ++ t) := by
  induction hs with
  | nil => exact ht
  | unit hhigh hlow _ ih => exact .unit hhigh hlow ih
  | pair hhigh hlow _ ih => exact .pair hhigh hlow ih

theorem paired_of_lt {s : JsString} (h : ∀ c ∈ s, c < 0xd800) : Paired s := by
  induction s with
  | nil => exact .nil
  | cons c s ih =>
      obtain ⟨hc, hs⟩ := List.forall_mem_cons.mp h
      have hlt : c.toNat < 0xd800 := hc
      refine .unit ?_ ?_ (ih hs)
      · simp only [isHighSurrogate, UInt16.le_iff_toNat_le, UInt16.reduceToNat,
          Bool.and_eq_false_iff, decide_eq_false_iff_not]
        omega
      · simp only [isLowSurrogate, UInt16.le_iff_toNat_le, UInt16.reduceToNat,
          Bool.and_eq_false_iff, decide_eq_false_iff_not]
        omega

theorem paired_of_all {s : JsString} (h : s.all (fun c => c < 0xd800) = true) : Paired s :=
  paired_of_lt fun c hc => of_decide_eq_true (List.all_eq_true.mp h c hc)

end Lib.Utf16
