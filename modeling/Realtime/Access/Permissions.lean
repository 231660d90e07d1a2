import Mathlib.Data.List.Infix
import Mathlib.Tactic
import Realtime.Lib.Encoding

/-!
# Path permissions

A table of rules gives each member a level on every path: the rule with the
longest matching prefix wins, one for the member over one for everyone, the first
of equals. The vault as a whole has a level only if all its paths have the same.
-/

namespace Realtime.Access

open Lib

inductive AppError where
  | forbidden
  | notFound
  | badRequest
  | internal
  deriving DecidableEq

inductive Level where
  | full
  | readOnly
  deriving DecidableEq

/-- Full access includes read-only access. -/
def Level.le (l m : Level) : Prop := l = m ∨ l = .readOnly

instance : LE Level := ⟨Level.le⟩

theorem Level.le_refl (l : Level) : l ≤ l := .inl rfl

theorem Level.readOnly_le (l : Level) : .readOnly ≤ l := .inr rfl

/-- The text of the column `level`; `other` is any text without a meaning. -/
inductive Rule where
  | full
  | readOnly
  | deny
  | other
  deriving DecidableEq

variable {υ : Type}

/-- A row of `permissions`; no principal means everyone. -/
structure Permission (υ : Type) where
  principalUserId : Option υ
  pathPrefix : Str
  level : Rule

namespace Permission

def specificity (r : Permission υ) : Nat :=
  Str.byteLength r.pathPrefix * 2 + if r.principalUserId.isSome then 1 else 0

variable [DecidableEq υ]

def applies (user : υ) (r : Permission υ) : Bool :=
  match r.principalUserId with
  | none => true
  | some id => id = user

def covers (user : υ) (path : Str) (r : Permission υ) : Bool :=
  r.applies user && r.pathPrefix.isPrefixOf path

end Permission

/-- One round of the loop over the rules: a later one must be more specific. -/
def moreSpecific (best : Option (Permission υ)) (r : Permission υ) : Option (Permission υ) :=
  if best.all fun b => b.specificity < r.specificity then some r else best

section Resolve

variable [DecidableEq υ]

/-- The rule that decides on the path. -/
def bestRule (rows : List (Permission υ)) (user : υ) (path : Str) : Option (Permission υ) :=
  rows.foldl (fun best r => if r.covers user path then moreSpecific best r else best) none

/-- `resolve_path_level`: the most specific rule decides, and without one everything is allowed. -/
def resolvePathLevel (rows : List (Permission υ)) (user : υ) (path : Str) :
    Except AppError Level :=
  match (bestRule rows user path).map Permission.level with
  | none | some .full => .ok .full
  | some .readOnly => .ok .readOnly
  | some .deny => .error .forbidden
  | some .other => .error .internal

/-- The loop of `authorize_uniform_vault`. -/
def checkUniform (rows : List (Permission υ)) (user : υ) (root : Level) :
    List (Permission υ) → Except AppError Level
  | [] => .ok root
  | row :: rest =>
      if !row.applies user || row.pathPrefix.isEmpty then checkUniform rows user root rest
      else
        match resolvePathLevel rows user row.pathPrefix with
        | .ok level =>
            if level = root then checkUniform rows user root rest else .error .forbidden
        | .error error => .error error

def authorizeUniformVault (rows : List (Permission υ)) (user : υ) : Except AppError Level :=
  match resolvePathLevel rows user [] with
  | .ok root => checkUniform rows user root rows
  | .error error => .error error

end Resolve

/-! ## The deciding rule -/

section Loop

variable {rows : List (Permission υ)} {b : Permission υ}

/-- `b` is the first of the most specific ones. -/
def First (rows : List (Permission υ)) (b : Permission υ) : Prop :=
  ∃ before after, rows = before ++ b :: after ∧ (∀ r ∈ before, r.specificity < b.specificity) ∧
    ∀ r ∈ after, r.specificity ≤ b.specificity

theorem First.le (h : First rows b) {r : Permission υ} (hr : r ∈ rows) :
    r.specificity ≤ b.specificity := by
  obtain ⟨before, after, rfl, hbefore, hafter⟩ := h
  rcases List.mem_append.mp hr with hr | hr
  · exact (hbefore r hr).le
  · rcases List.mem_cons.mp hr with rfl | hr
    · exact le_rfl
    · exact hafter r hr

theorem foldl_moreSpecific_cases (rows : List (Permission υ)) :
    (rows = [] ∧ rows.foldl moreSpecific none = none) ∨
      ∃ b, rows.foldl moreSpecific none = some b ∧ First rows b := by
  induction rows using List.reverseRecOn with
  | nil => exact .inl ⟨rfl, rfl⟩
  | append_singleton rows r ih =>
      refine .inr ?_
      rw [List.foldl_append, List.foldl_cons, List.foldl_nil]
      rcases ih with ⟨rfl, hnone⟩ | ⟨b, hb, hfirst⟩
      · exact ⟨r, rfl, [], [], rfl, by simp, by simp⟩
      · rw [hb, moreSpecific, Option.all_some]
        split
        · next hlt =>
          refine ⟨r, rfl, rows, [], rfl, fun x hx => ?_, by simp⟩
          exact (hfirst.le hx).trans_lt (of_decide_eq_true hlt)
        · next hlt =>
          obtain ⟨before, after, rfl, hbefore, hafter⟩ := hfirst
          refine ⟨b, rfl, before, after ++ [r], by simp, hbefore, fun x hx => ?_⟩
          rcases List.mem_append.mp hx with hx | hx
          · exact hafter x hx
          · rw [List.mem_singleton.mp hx]
            exact not_lt.mp fun h => hlt (decide_eq_true h)

theorem foldl_moreSpecific_keep (after : List (Permission υ))
    (h : ∀ r ∈ after, r.specificity ≤ b.specificity) :
    after.foldl moreSpecific (some b) = some b := by
  induction after with
  | nil => rfl
  | cons r after ih =>
      have hr : ¬b.specificity < r.specificity := not_lt.mpr (h r List.mem_cons_self)
      rw [List.foldl_cons, moreSpecific, Option.all_some, if_neg (by simpa using hr)]
      exact ih fun x hx => h x (List.mem_cons_of_mem _ hx)

theorem First.foldl_eq (h : First rows b) : rows.foldl moreSpecific none = some b := by
  obtain ⟨before, after, rfl, hbefore, hafter⟩ := h
  rw [List.foldl_append, List.foldl_cons]
  -- whatever the rules before `b` give, `b` replaces
  have htake : moreSpecific (before.foldl moreSpecific none) b = some b := by
    rcases foldl_moreSpecific_cases before with ⟨_, hnone⟩ | ⟨c, hc, hfirst⟩
    · rw [hnone]
      rfl
    · obtain ⟨front, back, rfl, _, _⟩ := hfirst
      rw [hc, moreSpecific, Option.all_some, if_pos (decide_eq_true (hbefore c (by simp)))]
  rw [htake]
  exact foldl_moreSpecific_keep after hafter

theorem First.filter (h : First rows b) {keep : Permission υ → Bool} (hb : keep b = true) :
    First (rows.filter keep) b := by
  obtain ⟨before, after, rfl, hbefore, hafter⟩ := h
  refine ⟨before.filter keep, after.filter keep, ?_, fun r hr => ?_, fun r hr => ?_⟩
  · rw [List.filter_append, List.filter_cons_of_pos hb]
  · exact hbefore r (List.mem_of_mem_filter hr)
  · exact hafter r (List.mem_of_mem_filter hr)

end Loop

variable [DecidableEq υ] {rows : List (Permission υ)} {user : υ} {path : Str} {b : Permission υ}

theorem bestRule_eq (rows : List (Permission υ)) (user : υ) (path : Str) :
    bestRule rows user path = (rows.filter (Permission.covers user path)).foldl moreSpecific none :=
  (List.foldl_filter ..).symm

theorem bestRule_spec (h : bestRule rows user path = some b) :
    First (rows.filter (Permission.covers user path)) b := by
  rw [bestRule_eq] at h
  rcases foldl_moreSpecific_cases (rows.filter (Permission.covers user path)) with
    ⟨_, hnone⟩ | ⟨c, hc, hfirst⟩
  · rw [hnone] at h
    cases h
  · rw [hc, Option.some_inj] at h
    exact h ▸ hfirst

theorem bestRule_covers (h : bestRule rows user path = some b) :
    b ∈ rows ∧ b.covers user path = true := by
  obtain ⟨before, after, heq, _, _⟩ := bestRule_spec h
  have hmem : b ∈ rows.filter (Permission.covers user path) := by
    rw [heq]
    simp
  exact List.mem_filter.mp hmem

/-- The rule that decides on a path decides on its own prefix too, for what covers
the prefix covers the path. -/
theorem bestRule_pathPrefix (h : bestRule rows user path = some b) :
    bestRule rows user b.pathPrefix = some b := by
  obtain ⟨_, hcovers⟩ := bestRule_covers h
  simp only [Permission.covers, Bool.and_eq_true, List.isPrefixOf_iff_prefix] at hcovers
  have hsub : rows.filter (Permission.covers user b.pathPrefix) =
      (rows.filter (Permission.covers user path)).filter
        (Permission.covers user b.pathPrefix) := by
    rw [List.filter_filter]
    refine List.filter_congr fun r _ => ?_
    rw [eq_comm, Bool.and_eq_left_iff_imp]
    intro hr
    simp only [Permission.covers, Bool.and_eq_true, List.isPrefixOf_iff_prefix] at hr ⊢
    exact ⟨hr.1, hr.2.trans hcovers.2⟩
  rw [bestRule_eq, hsub]
  refine ((bestRule_spec h).filter ?_).foldl_eq
  simp only [Permission.covers, Bool.and_eq_true, List.isPrefixOf_iff_prefix]
  exact ⟨hcovers.1, List.prefix_rfl⟩

theorem bestRule_eq_some_iff :
    bestRule rows user path = some b ↔ First (rows.filter (Permission.covers user path)) b := by
  refine ⟨bestRule_spec, fun h => ?_⟩
  rw [bestRule_eq]
  exact h.foldl_eq

theorem bestRule_eq_none_iff :
    bestRule rows user path = none ↔ ∀ r ∈ rows, ¬r.covers user path = true := by
  rw [bestRule_eq, ← List.filter_eq_nil_iff]
  rcases foldl_moreSpecific_cases (rows.filter (Permission.covers user path)) with
    ⟨hempty, hnone⟩ | ⟨b, hb, before, after, hrows, -, -⟩
  · exact ⟨fun _ => hempty, fun _ => hnone⟩
  · rw [hb, hrows]
    simp

/-! ## The order of the rules -/

/-- The longer prefix comes before the shorter, and of equally long ones the rule
for one member before the one for everyone. -/
def Permission.rank (r : Permission υ) : Nat ×ₗ Bool :=
  toLex (r.pathPrefix.length, r.principalUserId.isSome)

/-- What the level of the deciding rule gives. -/
def Rule.resolved : Rule → Except AppError Level
  | .full => .ok .full
  | .readOnly => .ok .readOnly
  | .deny => .error .forbidden
  | .other => .error .internal

/-- Of the rules that apply to the path, `b` is the first of the greatest. -/
def Decides (rows : List (Permission υ)) (user : υ) (path : Str) (b : Permission υ) : Prop :=
  ∃ before after, rows.filter (Permission.covers user path) = before ++ b :: after ∧
    (∀ r ∈ before, r.rank < b.rank) ∧ ∀ r ∈ after, r.rank ≤ b.rank

/-- Of two prefixes of one path, the one with more characters has more bytes. -/
theorem byteLength_lt_iff {p q : Str} (hp : p <+: path) (hq : q <+: path) :
    Str.byteLength p < Str.byteLength q ↔ p.length < q.length := by
  have hle {p q : Str} (h : p <+: q) : Str.byteLength p ≤ Str.byteLength q ∧
      (p.length < q.length → Str.byteLength p < Str.byteLength q) := by
    obtain ⟨t, rfl⟩ := h
    rw [Str.byteLength_append, List.length_append]
    refine ⟨Nat.le_add_right _ _, fun hlt => ?_⟩
    have hpos : Str.byteLength t ≠ 0 := fun h => by
      rw [Str.eq_nil_of_byteLength h] at hlt
      exact Nat.lt_irrefl _ hlt
    omega
  rcases List.prefix_or_prefix_of_prefix hp hq with h | h
  · refine ⟨fun hlt => ?_, (hle h).2⟩
    by_contra hge
    rw [h.eq_of_length_le (not_lt.mp hge)] at hlt
    exact Nat.lt_irrefl _ hlt
  · have h1 := (hle h).1
    have h2 := h.length_le
    omega

theorem specificity_lt_iff {r : Permission υ} (hr : r.covers user path = true)
    (hb : b.covers user path = true) : r.specificity < b.specificity ↔ r.rank < b.rank := by
  simp only [Permission.covers, Bool.and_eq_true, List.isPrefixOf_iff_prefix] at hr hb
  have hlt := byteLength_lt_iff hr.2 hb.2
  have hgt := byteLength_lt_iff hb.2 hr.2
  have hrank : r.rank < b.rank ↔ r.pathPrefix.length < b.pathPrefix.length ∨
      r.pathPrefix.length = b.pathPrefix.length ∧
        r.principalUserId.isSome < b.principalUserId.isSome := Prod.Lex.toLex_lt_toLex
  rw [hrank, Permission.specificity, Permission.specificity]
  cases r.principalUserId <;> cases b.principalUserId <;> simp [Bool.lt_iff] <;> omega

theorem first_iff_decides :
    First (rows.filter (Permission.covers user path)) b ↔ Decides rows user path b := by
  have hcovers : ∀ r ∈ rows.filter (Permission.covers user path), r.covers user path = true :=
    fun r hr => (List.mem_filter.mp hr).2
  constructor
  · rintro ⟨before, after, hrows, hbefore, hafter⟩
    rw [hrows] at hcovers
    refine ⟨before, after, hrows, fun r hr => ?_, fun r hr => ?_⟩
    · exact (specificity_lt_iff (hcovers r (by simp [hr])) (hcovers b (by simp))).mp (hbefore r hr)
    · exact not_lt.mp fun h => not_lt.mpr (hafter r hr)
        ((specificity_lt_iff (hcovers b (by simp)) (hcovers r (by simp [hr]))).mpr h)
  · rintro ⟨before, after, hrows, hbefore, hafter⟩
    rw [hrows] at hcovers
    refine ⟨before, after, hrows, fun r hr => ?_, fun r hr => ?_⟩
    · exact (specificity_lt_iff (hcovers r (by simp [hr])) (hcovers b (by simp))).mpr
        (hbefore r hr)
    · exact not_lt.mp fun h => not_lt.mpr (hafter r hr)
        ((specificity_lt_iff (hcovers b (by simp)) (hcovers r (by simp [hr]))).mp h)

/-- Every path either is under no rule, or is decided by the first of the greatest. -/
theorem resolvePathLevel_cases (rows : List (Permission υ)) (user : υ) (path : Str) :
    ((∀ r ∈ rows, ¬r.covers user path = true) ∧
        resolvePathLevel rows user path = .ok .full) ∨
      ∃ b, Decides rows user path b ∧ resolvePathLevel rows user path = b.level.resolved := by
  cases hbest : bestRule rows user path with
  | none =>
      refine .inl ⟨bestRule_eq_none_iff.mp hbest, ?_⟩
      rw [resolvePathLevel, hbest, Option.map_none]
  | some b =>
      refine .inr ⟨b, first_iff_decides.mp (bestRule_eq_some_iff.mp hbest), ?_⟩
      rw [resolvePathLevel, hbest, Option.map_some]
      cases b.level <;> rfl

/-! ## The vault as a whole -/

theorem checkUniform_spec {root level : Level} {rest : List (Permission υ)}
    (h : checkUniform rows user root rest = .ok level) :
    level = root ∧ ∀ row ∈ rest, row.applies user = true → row.pathPrefix ≠ [] →
      resolvePathLevel rows user row.pathPrefix = .ok root := by
  induction rest with
  | nil =>
      cases h
      exact ⟨rfl, by simp⟩
  | cons row rest ih =>
      rw [checkUniform] at h
      split at h
      · next hskip =>
        obtain ⟨hlevel, hrest⟩ := ih h
        refine ⟨hlevel, fun r hr happlies hne => ?_⟩
        rcases List.mem_cons.mp hr with rfl | hr
        · simp [happlies, hne] at hskip
        · exact hrest r hr happlies hne
      · split at h
        · next l hl =>
          split at h
          · next heq =>
            subst heq
            obtain ⟨hlevel, hrest⟩ := ih h
            refine ⟨hlevel, fun r hr happlies hne => ?_⟩
            rcases List.mem_cons.mp hr with rfl | hr
            · exact hl
            · exact hrest r hr happlies hne
          · cases h
        · cases h

theorem checkUniform_eq_ok {root : Level} {rest : List (Permission υ)}
    (h : ∀ row ∈ rest, resolvePathLevel rows user row.pathPrefix = .ok root) :
    checkUniform rows user root rest = .ok root := by
  induction rest with
  | nil => rfl
  | cons row rest ih =>
      obtain ⟨hrow, hrest⟩ := List.forall_mem_cons.mp h
      rw [checkUniform]
      split
      · exact ih hrest
      · rw [hrow]
        dsimp only
        rw [if_pos rfl]
        exact ih hrest

/-- A member with a level on the whole vault has that level on every path. -/
theorem resolvePathLevel_of_uniform {level : Level}
    (h : authorizeUniformVault rows user = .ok level) (path : Str) :
    resolvePathLevel rows user path = .ok level := by
  unfold authorizeUniformVault at h
  split at h
  · next root hroot =>
    obtain ⟨rfl, hprefixes⟩ := checkUniform_spec h
    have hsame : ∀ q, bestRule rows user path = bestRule rows user q →
        resolvePathLevel rows user path = resolvePathLevel rows user q := by
      intro q hq
      rw [resolvePathLevel, hq, resolvePathLevel]
    cases hbest : bestRule rows user path with
    | none =>
        -- no rule covers the path, so none covers the root
        have hnone : bestRule rows user [] = none := by
          by_contra hne
          obtain ⟨b, hb⟩ := Option.ne_none_iff_exists'.mp hne
          obtain ⟨hmem, hcovers⟩ := bestRule_covers hb
          rw [bestRule_eq] at hbest
          rcases foldl_moreSpecific_cases (rows.filter (Permission.covers user path)) with
            ⟨hempty, _⟩ | ⟨c, hc, _⟩
          · simp only [Permission.covers, Bool.and_eq_true, List.isPrefixOf_iff_prefix,
              List.prefix_nil] at hcovers
            refine List.filter_eq_nil_iff.mp hempty b hmem ?_
            simp [Permission.covers, hcovers.1, hcovers.2]
          · rw [hbest] at hc
            cases hc
        rw [hsame [] (hbest.trans hnone.symm)]
        exact hroot
    | some b =>
        obtain ⟨hmem, hcovers⟩ := bestRule_covers hbest
        rw [hsame b.pathPrefix (hbest.trans (bestRule_pathPrefix hbest).symm)]
        rcases eq_or_ne b.pathPrefix [] with hempty | hne
        · rw [hempty]
          exact hroot
        · simp only [Permission.covers, Bool.and_eq_true] at hcovers
          exact hprefixes b hmem hcovers.1 hne
  · cases h

/-- The check of the configured prefixes stands for all paths, and what it checks at
each is the greatest rule there. -/
theorem authorizeUniformVault_exact (rows : List (Permission υ)) (user : υ) :
    (∀ level, authorizeUniformVault rows user = .ok level ↔
      ∀ path, resolvePathLevel rows user path = .ok level) ∧
    ∀ path, ((∀ r ∈ rows, ¬r.covers user path = true) ∧
        resolvePathLevel rows user path = .ok .full) ∨
      ∃ b, Decides rows user path b ∧ resolvePathLevel rows user path = b.level.resolved := by
  refine ⟨fun level => ⟨resolvePathLevel_of_uniform, fun h => ?_⟩,
    resolvePathLevel_cases rows user⟩
  rw [authorizeUniformVault, h []]
  exact checkUniform_eq_ok fun row _ => h row.pathPrefix

end Realtime.Access
