import Mathlib.Tactic
import Realtime.Access.Tokens

/-!
# Document ids of plugin databases

The id of a plugin database's document is `{vault}__plugindb__{plugin}__{name}`, and
`parse_doc_id` splits it at the separator. Neither part has the separator in it, but a
plugin id may end with the separator's character: then the split is one character too
early, and the id is that of another database as well.
-/

namespace Realtime.PluginDb

open Lib Lib.Utf16 Realtime.Access

/-! ## Ids -/

def plugindb : Str := ['p', 'l', 'u', 'g', 'i', 'n', 'd', 'b']

/-- `PluginDbService::doc_id`, and the template in `SyncedPluginDatabase`. -/
def docId (vault plugin name : Str) : Str :=
  vault ++ separator ++ (plugindb ++ separator ++ (plugin ++ separator ++ name))

def parseDocId (id : Str) : Option (Str × Str × Str) :=
  match splitSeparator id with
  | [vault, tag, plugin, name] =>
      if tag = plugindb ∧ !vault.isEmpty ∧ !plugin.isEmpty ∧ !name.isEmpty then
        some (vault, plugin, name)
      else none
  | _ => none

/-- `b.is_ascii_alphanumeric() || matches!(b, b'-' | b'_')` -/
def idChar (c : Char) : Bool := c.isAlphanum || c = '-' || c = '_'

def validId (s : Str) : Bool :=
  !s.isEmpty && Str.byteLength s ≤ 80 && !decide (separator <:+: s) && s.all idChar

/-- `[A-Za-z0-9_-]` -/
def idUnit (u : UInt16) : Bool :=
  (65 ≤ u && u ≤ 90) || (97 ≤ u && u ≤ 122) || (48 ≤ u && u ≤ 57) || u = 95 || u = 45

/-- `ID_RE.test(id) && !id.includes("__")` -/
def isValidId (id : JsString) : Bool :=
  (1 ≤ id.length && id.length ≤ 80 && id.all idUnit) && !decide (ascii "__" <:+: id)

/-- The document is that of one database: its id is parsed as that database, no other
database has it, and the access that is checked is the access to it. -/
structure Unambiguous (vault plugin name : Str) : Prop where
  parsed : parseDocId (docId vault plugin name) = some (vault, plugin, name)
  alone : ∀ plugin' name', validId plugin' = true → validId name' = true →
    docId vault plugin' name' = docId vault plugin name → plugin' = plugin ∧ name' = name
  checked : ∀ (υ : Type) [DecidableEq υ] (v : Vault υ) (s : Server υ) (user : υ)
    (claimedPath : Option Str) (now : Int), v.id = vault →
    (authorizeDocWithClaim v s user (docId vault plugin name) claimedPath now).1 =
      authorized (authorizePath v user (pseudoPath plugin name)) (pseudoPath plugin name) false

/-! ## Splitting at the separator -/

theorem splitSeparator_of_not_infix {s : Str} (h : ¬separator <:+: s) : splitSeparator s = [s] := by
  induction s using splitSeparator.induct with
  | case1 => rfl
  | case2 c => rfl
  | case3 c d rest hsep ih => exact absurd ⟨[], rest, by simp [separator, hsep]⟩ h
  | case4 c d rest hne hnil ih =>
      rw [ih fun hi => h (hi.trans (List.suffix_cons c _).isInfix)] at hnil
      cases hnil
  | case5 c d rest hne part parts heq ih =>
      rw [splitSeparator, if_neg hne, ih fun hi => h (hi.trans (List.suffix_cons c _).isInfix)]

/-- A part that does not end with the separator's character ends where it should. -/
theorem splitSeparator_append {s : Str} (h : ¬separator <:+: s) (hend : s.getLast? ≠ some '_')
    (t : Str) : splitSeparator (s ++ separator ++ t) = s :: splitSeparator t := by
  induction s with
  | nil => rw [List.nil_append, separator, List.cons_append, List.cons_append, List.nil_append,
      splitSeparator, if_pos ⟨rfl, rfl⟩]
  | cons c s ih =>
      have hs : ¬separator <:+: s := fun hi => h (hi.trans (List.suffix_cons c s).isInfix)
      cases s with
      | nil =>
          have hc : c ≠ '_' := by simpa using hend
          have htail := ih hs (by simp)
          rw [List.nil_append, separator, List.cons_append] at htail
          rw [separator, List.cons_append, List.cons_append, List.nil_append, List.cons_append,
            splitSeparator, if_neg fun hsep => hc hsep.1, htail]
      | cons d s =>
          have hne : ¬(c = '_' ∧ d = '_') := by
            rintro ⟨rfl, rfl⟩
            exact h ⟨[], s, rfl⟩
          have htail := ih hs (by simpa using hend)
          rw [List.cons_append, List.cons_append] at htail
          rw [List.cons_append, List.cons_append, List.cons_append, List.cons_append,
            splitSeparator, if_neg hne, htail]

/-! ## Valid ids -/

/-- The codes of the characters of an id. -/
def IdCode (n : Nat) : Prop :=
  (65 ≤ n ∧ n ≤ 90) ∨ (97 ≤ n ∧ n ≤ 122) ∨ (48 ≤ n ∧ n ≤ 57) ∨ n = 95 ∨ n = 45

theorem idChar_iff {c : Char} : idChar c = true ↔ IdCode c.toNat := by
  have hval : ∀ d : Char, c = d ↔ c.toNat = d.toNat := fun d => Char.toNat_inj.symm
  unfold idChar IdCode
  simp only [Bool.or_eq_true, decide_eq_true_eq, Char.isAlphanum, Char.isAlpha, Char.isUpper,
    Char.isLower, Char.isDigit, Bool.and_eq_true, hval, ge_iff_le, UInt32.le_iff_toNat_le]
  show (((65 ≤ c.toNat ∧ c.toNat ≤ 90 ∨ 97 ≤ c.toNat ∧ c.toNat ≤ 122) ∨
    48 ≤ c.toNat ∧ c.toNat ≤ 57) ∨ c.toNat = 45) ∨ c.toNat = 95 ↔ _
  omega

theorem idUnit_iff {u : UInt16} : idUnit u = true ↔ IdCode u.toNat := by
  unfold idUnit IdCode
  simp only [Bool.or_eq_true, Bool.and_eq_true, decide_eq_true_eq, UInt16.le_iff_toNat_le,
    ← UInt16.toNat_inj]
  show ((((65 ≤ u.toNat ∧ u.toNat ≤ 90) ∨ 97 ≤ u.toNat ∧ u.toNat ≤ 122) ∨
    48 ≤ u.toNat ∧ u.toNat ≤ 57) ∨ u.toNat = 95) ∨ u.toNat = 45 ↔ _
  omega

theorem utf8Size_of_idChar {c : Char} (h : idChar c = true) : c.utf8Size = 1 := by
  refine Char.utf8Size_eq_one_iff.mpr ?_
  have hcode := idChar_iff.mp h
  unfold IdCode at hcode
  show c.val.toNat ≤ 127
  have : c.toNat = c.val.toNat := rfl
  omega

theorem byteLength_of_idChar {s : Str} (h : s.all idChar = true) :
    Str.byteLength s = s.length := by
  induction s with
  | nil => rfl
  | cons c s ih =>
      rw [List.all_cons, Bool.and_eq_true] at h
      rw [Str.byteLength_cons, utf8Size_of_idChar h.1, ih h.2, List.length_cons, Nat.add_comm]

theorem validId_iff {s : Str} : validId s = true ↔
    s ≠ [] ∧ s.length ≤ 80 ∧ ¬separator <:+: s ∧ s.all idChar = true := by
  unfold validId
  simp only [Bool.and_eq_true, Bool.not_eq_true', decide_eq_true_eq, decide_eq_false_iff_not,
    List.isEmpty_eq_false_iff, and_assoc]
  constructor
  · rintro ⟨hne, hlen, hsep, hall⟩
    exact ⟨hne, byteLength_of_idChar hall ▸ hlen, hsep, hall⟩
  · rintro ⟨hne, hlen, hsep, hall⟩
    exact ⟨hne, (byteLength_of_idChar hall).symm ▸ hlen, hsep, hall⟩

/-- Of an id that ends with the separator's character, the rest does not. -/
theorem getLast?_ne_of_append {s : Str} (h : ¬separator <:+: s ++ ['_']) :
    s.getLast? ≠ some '_' := by
  intro hend
  obtain ⟨t, rfl⟩ := List.getLast?_eq_some_iff.mp hend
  exact h ⟨t, [], by simp [separator]⟩

section Split

variable {vault plugin name : Str} (hvault : ¬separator <:+: vault)
  (hvaultEnd : vault.getLast? ≠ some '_')

include hvault hvaultEnd

theorem splitSeparator_docId (rest : Str) :
    splitSeparator (vault ++ separator ++ (plugindb ++ separator ++ rest)) =
      vault :: plugindb :: splitSeparator rest := by
  rw [splitSeparator_append hvault hvaultEnd, splitSeparator_append (by decide) (by decide)]

theorem parseDocId_docId (hplugin : validId plugin = true) (hname : validId name = true)
    (hne : vault ≠ []) (hend : plugin.getLast? ≠ some '_') :
    parseDocId (docId vault plugin name) = some (vault, plugin, name) := by
  obtain ⟨hpluginNe, -, hpluginSep, -⟩ := validId_iff.mp hplugin
  obtain ⟨hnameNe, -, hnameSep, -⟩ := validId_iff.mp hname
  unfold parseDocId docId
  rw [splitSeparator_docId hvault hvaultEnd, splitSeparator_append hpluginSep hend,
    splitSeparator_of_not_infix hnameSep]
  simp [hne, hpluginNe, hnameNe]

/-- A plugin id that ends with the separator's character loses it. -/
theorem parseDocId_docId_ne (hplugin : validId plugin = true) (hend : plugin.getLast? = some '_') :
    parseDocId (docId vault plugin name) ≠ some (vault, plugin, name) := by
  obtain ⟨-, -, hpluginSep, -⟩ := validId_iff.mp hplugin
  obtain ⟨front, rfl⟩ := List.getLast?_eq_some_iff.mp hend
  have hfrontSep : ¬separator <:+: front := fun hi =>
    hpluginSep (hi.trans (List.prefix_append front _).isInfix)
  have hshift : front ++ ['_'] ++ separator ++ name = front ++ separator ++ ('_' :: name) := by
    simp [separator]
  unfold parseDocId docId
  rw [splitSeparator_docId hvault hvaultEnd, hshift,
    splitSeparator_append hfrontSep (getLast?_ne_of_append hpluginSep)]
  split
  · next heq =>
    obtain ⟨-, -, hfront, -⟩ : _ ∧ _ ∧ front = _ ∧ _ := by simpa using heq
    split
    · simp [← hfront]
    · simp
  · simp

end Split

/-- No other database has the document, unless the separator's character moves over. -/
theorem eq_of_docId_eq {vault plugin name plugin' name' : Str} (hplugin : validId plugin = true)
    (hname : validId name = true) (hplugin' : validId plugin' = true)
    (hname' : validId name' = true) (hend : plugin.getLast? ≠ some '_')
    (hstart : name.head? = some '_' → name = ['_'] ∨ plugin.length = 80)
    (h : docId vault plugin' name' = docId vault plugin name) :
    plugin' = plugin ∧ name' = name := by
  obtain ⟨-, -, hpluginSep, -⟩ := validId_iff.mp hplugin
  obtain ⟨-, -, hnameSep, -⟩ := validId_iff.mp hname
  obtain ⟨-, hlen', hpluginSep', -⟩ := validId_iff.mp hplugin'
  obtain ⟨hnameNe', -, hnameSep', -⟩ := validId_iff.mp hname'
  unfold docId at h
  have hrest := List.append_cancel_left (List.append_cancel_left h)
  have hsplit := congrArg splitSeparator hrest
  rw [splitSeparator_append hpluginSep hend, splitSeparator_of_not_infix hnameSep] at hsplit
  by_cases hend' : plugin'.getLast? = some '_'
  · obtain ⟨front, rfl⟩ := List.getLast?_eq_some_iff.mp hend'
    have hfrontSep : ¬separator <:+: front := fun hi =>
      hpluginSep' (hi.trans (List.prefix_append front _).isInfix)
    have hshift : front ++ ['_'] ++ separator ++ name' = front ++ separator ++ ('_' :: name') := by
      simp [separator]
    rw [hshift, splitSeparator_append hfrontSep (getLast?_ne_of_append hpluginSep')] at hsplit
    obtain ⟨rfl, -⟩ := List.cons.inj hsplit
    rw [hshift] at hrest
    have hname : '_' :: name' = name := List.append_cancel_left hrest
    rcases hstart (by rw [← hname]; rfl) with hone | hlen
    · rw [hone] at hname
      exact absurd (List.cons.inj hname).2 hnameNe'
    · rw [List.length_append, hlen] at hlen'
      simp at hlen'
  · rw [splitSeparator_append hpluginSep' hend', splitSeparator_of_not_infix hnameSep'] at hsplit
    obtain ⟨rfl, htail⟩ := List.cons.inj hsplit
    exact ⟨rfl, (List.cons.inj htail).1⟩

/-- The name of a database that begins with the separator's character can lose it to the
plugin id. -/
theorem exists_docId_eq {vault plugin name : Str} (hplugin : validId plugin = true)
    (hname : validId name = true) (hend : plugin.getLast? ≠ some '_')
    (hstart : name.head? = some '_') (hone : name ≠ ['_']) (hlen : plugin.length ≠ 80) :
    ∃ plugin' name', validId plugin' = true ∧ validId name' = true ∧
      docId vault plugin' name' = docId vault plugin name ∧ plugin' ≠ plugin := by
  obtain ⟨hpluginNe, hpluginLen, hpluginSep, hpluginAll⟩ := validId_iff.mp hplugin
  obtain ⟨-, hnameLen, hnameSep, hnameAll⟩ := validId_iff.mp hname
  obtain ⟨name', rfl⟩ : ∃ name', name = '_' :: name' := by
    cases name with
    | nil => cases hstart
    | cons c name' =>
        rw [List.head?_cons, Option.some_inj] at hstart
        exact ⟨name', hstart ▸ rfl⟩
  refine ⟨plugin ++ ['_'], name', validId_iff.mpr ⟨by simp, ?_, fun hi => ?_, ?_⟩,
    validId_iff.mpr ⟨?_, ?_, fun hi => ?_, ?_⟩, ?_, by simp⟩
  · rw [List.length_append, List.length_singleton]
    omega
  · -- the separator would lie in the plugin id or take its last character
    obtain ⟨front, back, hsep⟩ := hi
    rcases List.eq_nil_or_concat back with rfl | ⟨back, c, rfl⟩
    · refine hend (List.getLast?_eq_some_iff.mpr ⟨front, ?_⟩)
      have hcancel : (front ++ ['_']) ++ ['_'] = plugin ++ ['_'] := by
        simpa [separator] using hsep
      exact (List.append_cancel_right hcancel).symm
    · refine hpluginSep ⟨front, back, ?_⟩
      have hcancel : (front ++ separator ++ back) ++ [c] = plugin ++ ['_'] := by simpa using hsep
      exact (List.append_inj' hcancel rfl).1
  · rw [List.all_append, hpluginAll]
    rfl
  · rintro rfl
    exact hone rfl
  · rw [List.length_cons] at hnameLen
    omega
  · exact hnameSep (hi.trans (List.suffix_cons '_' name').isInfix)
  · rw [List.all_cons, Bool.and_eq_true] at hnameAll
    exact hnameAll.2
  · simp [docId, separator]

/-- The access that is checked for the document's id. -/
theorem authorize_docId {vault plugin name : Str} (hplugin : validId plugin = true)
    (hname : validId name = true) (hend : plugin.getLast? ≠ some '_') (υ : Type) [DecidableEq υ]
    (v : Vault υ) (s : Server υ) (user : υ) (claimedPath : Option Str) (now : Int)
    (hv : v.id = vault) :
    (authorizeDocWithClaim v s user (docId vault plugin name) claimedPath now).1 =
      authorized (authorizePath v user (pseudoPath plugin name))
        (pseudoPath plugin name) false := by
  subst hv
  obtain ⟨hpluginNe, -, hpluginSep, -⟩ := validId_iff.mp hplugin
  obtain ⟨hnameNe, -, hnameSep, -⟩ := validId_iff.mp hname
  have hne : docId v.id plugin name ≠ v.id := by
    intro h
    have hlen := congrArg List.length h
    simp [docId, separator] at hlen
  unfold authorizeDocWithClaim
  rw [if_neg hne, docId, Str.stripPrefix_append]
  dsimp only
  rw [show "plugindb".toList = plugindb from by decide, Str.stripPrefix_append]
  dsimp only
  unfold authorizePluginDb
  rw [splitSeparator_append hpluginSep hend, splitSeparator_of_not_infix hnameSep]
  simp [hpluginNe, hnameNe]

/-! ## The two checks of an id -/

theorem units_of_idChar {c : Char} (h : idChar c = true) :
    Str.units c = [UInt16.ofNat c.toNat] := by
  have hcode := idChar_iff.mp h
  unfold IdCode at hcode
  rw [Str.units, if_pos (by omega)]

/-- Of the units of a character, all are in ids exactly if the character is. -/
theorem all_units (c : Char) : (Str.units c).all idUnit = idChar c := by
  have hlt := Str.toNat_lt c
  rw [Bool.eq_iff_iff, idChar_iff]
  unfold Str.units
  split
  · next h =>
    rw [List.all_cons, List.all_nil, Bool.and_true, idUnit_iff, UInt16.toNat_ofNat_of_lt' h]
  · next h =>
    refine iff_of_false (fun hall => ?_) fun hcode => ?_
    · have hhigh : 0xd800 + (c.toNat - 0x10000) / 1024 < 2 ^ 16 := by omega
      rw [List.all_cons, Bool.and_eq_true, idUnit_iff, UInt16.toNat_ofNat_of_lt' hhigh] at hall
      have hcode := hall.1
      unfold IdCode at hcode
      omega
    · unfold IdCode at hcode
      omega

theorem all_encodeUtf16 (s : Str) : (Str.encodeUtf16 s).all idUnit = s.all idChar := by
  induction s with
  | nil => rfl
  | cons c s ih => rw [Str.encodeUtf16_cons, List.all_append, all_units, ih, List.all_cons]

/-- The characters of an id are one code unit each. -/
theorem encodeUtf16_of_all {s : Str} (h : s.all idChar = true) :
    Str.encodeUtf16 s = s.map fun c => UInt16.ofNat c.toNat := by
  induction s with
  | nil => rfl
  | cons c s ih =>
      rw [List.all_cons, Bool.and_eq_true] at h
      rw [Str.encodeUtf16_cons, units_of_idChar h.1, ih h.2]
      rfl

theorem infix_map_iff {s : Str} (h : s.all idChar = true) :
    ascii "__" <:+: (s.map fun c => UInt16.ofNat c.toNat) ↔ separator <:+: s := by
  constructor
  · rintro ⟨front, back, heq⟩
    obtain ⟨l, r, rfl, hl, -⟩ := List.map_eq_append_iff.mp heq.symm
    obtain ⟨t, sep, rfl, -, hsep⟩ := List.map_eq_append_iff.mp hl
    refine ⟨t, r, ?_⟩
    have hunder : ∀ c ∈ sep, UInt16.ofNat c.toNat = 95 → c = '_' := by
      intro c hc hu
      have hcode := idChar_iff.mp (List.all_eq_true.mp h c (by simp [hc]))
      unfold IdCode at hcode
      have hlt : c.toNat < 2 ^ 16 := by omega
      have hnat := congrArg UInt16.toNat hu
      rw [UInt16.toNat_ofNat_of_lt' hlt] at hnat
      exact Char.toNat_inj.mp hnat
    have hlen := congrArg List.length hsep
    obtain ⟨c, d, rfl⟩ : ∃ c d, sep = [c, d] := List.length_eq_two.mp (by simpa [ascii] using hlen)
    obtain ⟨hc, hd⟩ := List.cons.inj hsep
    rw [hunder c (by simp) hc, hunder d (by simp) (List.cons.inj hd).1]
    rfl
  · rintro ⟨front, back, rfl⟩
    refine ⟨front.map fun c => UInt16.ofNat c.toNat, back.map fun c => UInt16.ofNat c.toNat, ?_⟩
    rw [List.map_append, List.map_append]
    rfl

/-- Client and server accept the same ids. -/
theorem isValidId_encodeUtf16 (s : Str) : isValidId (Str.encodeUtf16 s) = validId s := by
  by_cases hall : s.all idChar = true
  · have hlen : (Str.encodeUtf16 s).length = s.length := by
      rw [encodeUtf16_of_all hall, List.length_map]
    have hinfix : ascii "__" <:+: Str.encodeUtf16 s ↔ separator <:+: s := by
      rw [encodeUtf16_of_all hall, infix_map_iff hall]
    have hpos : 1 ≤ s.length ↔ s ≠ [] := List.length_pos_iff
    rw [Bool.eq_iff_iff, validId_iff, isValidId, all_encodeUtf16, hlen]
    simp only [Bool.and_eq_true, decide_eq_true_eq, Bool.not_eq_true', decide_eq_false_iff_not,
      hinfix, hpos, hall]
    tauto
  · have hclient : isValidId (Str.encodeUtf16 s) = false := by
      rw [isValidId, all_encodeUtf16, Bool.eq_false_iff.mpr hall]
      simp
    have hserver : validId s = false := by
      rw [validId, Bool.eq_false_iff.mpr hall, Bool.and_false]
    rw [hclient, hserver]

/-- The client accepts no string that is not Unicode. -/
theorem exists_of_isValidId {id : JsString} (h : isValidId id = true) :
    ∃ s, id = Str.encodeUtf16 s := by
  have hall : ∀ u ∈ id, idUnit u = true := by
    simp only [isValidId, Bool.and_eq_true, List.all_eq_true] at h
    exact h.1.2
  clear h
  induction id with
  | nil => exact ⟨[], rfl⟩
  | cons u id ih =>
      obtain ⟨hu, hid⟩ := List.forall_mem_cons.mp hall
      obtain ⟨s, rfl⟩ := ih hid
      have hcode := idUnit_iff.mp hu
      unfold IdCode at hcode
      have hvalid : u.toNat.isValidChar := .inl (by omega)
      have hnat : (Char.ofNat u.toNat).toNat = u.toNat := by
        rw [Char.ofNat, dif_pos hvalid]
        rfl
      refine ⟨Char.ofNat u.toNat :: s, ?_⟩
      rw [Str.encodeUtf16_cons, Str.units, hnat, if_pos (by omega)]
      simp

/-- The document of a database is its own unless the separator's character is at the end of
the plugin id, or can move there from the beginning of the name. -/
theorem unambiguous_iff {vault plugin name : Str} (hvault : ¬separator <:+: vault)
    (hvaultEnd : vault.getLast? ≠ some '_') (hplugin : validId plugin = true)
    (hname : validId name = true) :
    (Unambiguous vault plugin name ∧ (∀ s, isValidId (Str.encodeUtf16 s) = validId s) ∧
        ∀ id, isValidId id = true → ∃ s, id = Str.encodeUtf16 s) ↔
      vault ≠ [] ∧ plugin.getLast? ≠ some '_' ∧
        (name.head? = some '_' → name = ['_'] ∨ plugin.length = 80) := by
  constructor
  · rintro ⟨h, -⟩
    refine ⟨?_, fun hend => ?_, fun hstart => ?_⟩
    · rintro rfl
      have hparsed := h.parsed
      unfold parseDocId at hparsed
      split at hparsed
      · split at hparsed
        · next hnonempty =>
          rw [Option.some_inj, Prod.mk.injEq] at hparsed
          rw [hparsed.1] at hnonempty
          exact absurd hnonempty.2.1 (by decide)
        · cases hparsed
      · cases hparsed
    · exact parseDocId_docId_ne hvault hvaultEnd hplugin hend h.parsed
    · by_contra hnot
      rw [not_or] at hnot
      by_cases hend : plugin.getLast? = some '_'
      · exact parseDocId_docId_ne hvault hvaultEnd hplugin hend h.parsed
      · obtain ⟨plugin', name', hplugin', hname', heq, hne⟩ :=
          @exists_docId_eq vault plugin name hplugin hname hend hstart hnot.1 hnot.2
        exact hne (h.alone plugin' name' hplugin' hname' heq).1
  · rintro ⟨hne, hend, hstart⟩
    refine ⟨⟨parseDocId_docId hvault hvaultEnd hplugin hname hne hend, ?_, ?_⟩,
      isValidId_encodeUtf16, fun id => exists_of_isValidId⟩
    · intro plugin' name' hplugin' hname'
      exact eq_of_docId_eq hplugin hname hplugin' hname' hend hstart
    · intro υ _ v s user claimedPath now hv
      exact authorize_docId hplugin hname hend υ v s user claimedPath now hv

/-- An underscore within the plugin id and within the name does no harm. -/
theorem unambiguous_iff_underscore :
    Unambiguous ['v'] "task_list".toList "main_db".toList :=
  ((unambiguous_iff (by decide) (by decide) (by decide) (by decide)).mpr
    ⟨by decide, by decide, by decide⟩).1

/-- The plugin `a_` with its database `b` has the document of `a` with `_b`. -/
theorem not_unambiguous_underscore :
    validId ['a', '_'] = true ∧ validId ['b'] = true ∧
      parseDocId (docId ['v'] ['a', '_'] ['b']) = some (['v'], ['a'], ['_', 'b']) ∧
      ¬Unambiguous ['v'] ['a', '_'] ['b'] := by
  refine ⟨by decide, by decide, by decide, fun h => ?_⟩
  have hparsed := h.parsed
  revert hparsed
  decide

end Realtime.PluginDb
