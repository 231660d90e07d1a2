import Realtime.Epoch.Manifest
import Realtime.Lib.Assoc

/-!
# The replacement document

`replacement_doc` of `server/src/crdt_epoch.rs`: the roots of a document are read
by type and written to a document without history. A document that is stored and
loaded again has lost the types of its roots, and the empty ones.

`Yrs` is what the code uses of the CRDT library.
-/

namespace Realtime.Epoch

open Lib

structure Yrs where
  Out : Type
  In : Type
  asPrelim : Out → In
  /-- The value read where one has been inserted. -/
  integrate : In → Out
  /-- A character of a text that is read as an array. -/
  ofChar : Char → Out

/-- `as_prelim` copies a value. -/
def Yrs.Lossless (yrs : Yrs) : Prop := ∀ v, yrs.integrate (yrs.asPrelim v) = v

inductive RootType where
  | text
  | array
  | map
  deriving DecidableEq

/-- `Out` of a root: `YText`, `YArray` or `YMap`, `UndefinedRef`, or another one. -/
inductive RootKind where
  | typed (type : RootType)
  | undefined
  | other
  deriving DecidableEq

section

variable (yrs : Yrs)

inductive Content where
  | string (s : String)
  | value (v : yrs.Out)

structure Branch where
  sequence : List (Content yrs)
  entries : List (String × yrs.Out)

structure Root where
  kind : RootKind
  branch : Branch yrs

/-- A document and its `root_refs`. -/
structure Doc where
  roots : List (String × Root yrs)

inductive RootValue where
  | text (value : String)
  | array (values : List yrs.In)
  | map (values : List (String × yrs.In))

end

variable {yrs : Yrs}

namespace Branch

def empty : Branch yrs := ⟨[], []⟩

def getString (b : Branch yrs) : String :=
  String.join (b.sequence.filterMap fun
    | .string s => some s
    | .value _ => none)

def iter (b : Branch yrs) : List yrs.Out :=
  b.sequence.flatMap fun
    | .string s => s.toList.map yrs.ofChar
    | .value v => [v]

/-- `text.insert` at the front. -/
def insertText (value : String) (b : Branch yrs) : Branch yrs :=
  if value = "" then b else { b with sequence := .string value :: b.sequence }

def pushBack (b : Branch yrs) (v : yrs.In) : Branch yrs :=
  { b with sequence := b.sequence ++ [.value (yrs.integrate v)] }

def insert (b : Branch yrs) (entry : String × yrs.In) : Branch yrs :=
  { b with entries := Assoc.set entry.1 (yrs.integrate entry.2) b.entries }

/-- A branch read as a root of this type. The order of a map does not matter. -/
def copyAs (b : Branch yrs) : RootType → RootValue yrs
  | .text => .text b.getString
  | .array => .array (b.iter.map yrs.asPrelim)
  | .map => .map (b.entries.foldl (fun m e => Assoc.set e.1 (yrs.asPrelim e.2) m) [])

end Branch

def RootValue.type : RootValue yrs → RootType
  | .text _ => .text
  | .array _ => .array
  | .map _ => .map

def RootValue.insertInto (b : Branch yrs) : RootValue yrs → Branch yrs
  | .text value => b.insertText value
  | .array values => values.foldl Branch.pushBack b
  | .map values => values.foldl Branch.insert b

/-! ## `replacement_doc` -/

def mapRoots : List String :=
  ["files", "structured", "trash", "root", "meta", "cursors", "cursorsAt", "binaries",
    "configFiles", "values"]

/-- The type of a root that nothing has typed. -/
def rootType (name : String) : Option RootType :=
  if name = "contents" then some .text
  else if name = "batches" then some .array
  else if name ∈ mapRoots then some .map
  else none

/-- `copy_root`; a root of another type than text, array and map is refused. -/
def copyRoot (name : String) (root : Root yrs) : Except EpochError (RootValue yrs) :=
  let type :=
    match root.kind with
    | .typed type => some type
    | .undefined => rootType name
    | .other => none
  match type with
  | some type => .ok (root.branch.copyAs type)
  | none => .error (.unsupportedRoot name)

def copyRoots : List (String × Root yrs) → Except EpochError (List (String × RootValue yrs))
  | [] => .ok []
  | (name, root) :: rest =>
      match copyRoot name root with
      | .error error => .error error
      | .ok value =>
          match copyRoots rest with
          | .error error => .error error
          | .ok values => .ok ((name, value) :: values)

namespace Doc

/-- `Doc::new`. -/
def empty : Doc yrs := ⟨[]⟩

/-- The branch of a root, which is empty until something is written to it. -/
def branch (doc : Doc yrs) (name : String) : Branch yrs :=
  ((Assoc.get name doc.roots).map Root.branch).getD .empty

/-- `get_or_insert_text`, `_array` or `_map`, and the insertion of the value. -/
def insertRoot (doc : Doc yrs) (root : String × RootValue yrs) : Doc yrs :=
  ⟨Assoc.set root.1 ⟨.typed root.2.type, root.2.insertInto (doc.branch root.1)⟩ doc.roots⟩

end Doc

def replacementDoc (source : Doc yrs) : Except EpochError (Doc yrs) :=
  (copyRoots source.roots).map fun roots => roots.foldl Doc.insertRoot .empty

/-- A document after its state was encoded and decoded. -/
def Doc.reload (doc : Doc yrs) : Doc yrs where
  roots :=
    (doc.roots.filter fun e =>
      !e.2.branch.sequence.isEmpty || !e.2.branch.entries.isEmpty).map fun e =>
        (e.1, ⟨.undefined, e.2.branch⟩)

/-! ## Logical values -/

/-- What a root holds: the program reads it by the type its name has. -/
inductive RootView (yrs : Yrs) where
  | text (value : String)
  | array (values : List yrs.Out)
  | map (entry : String → Option yrs.Out)
  | unsupported (branch : Branch yrs)

def Branch.view (b : Branch yrs) : Option RootType → RootView yrs
  | some .text => .text b.getString
  | some .array => .array b.iter
  | some .map => .map fun key => Assoc.get key b.entries
  | none => .unsupported b

def Doc.rootValue (doc : Doc yrs) (name : String) : RootView yrs :=
  (doc.branch name).view (rootType name)

/-- The logical root values of two documents are the same. -/
def SameRoots (a b : Doc yrs) : Prop := ∀ name, a.rootValue name = b.rootValue name

theorem SameRoots.refl (doc : Doc yrs) : SameRoots doc doc := fun _ => rfl

theorem SameRoots.symm {a b : Doc yrs} (h : SameRoots a b) : SameRoots b a :=
  fun name => (h name).symm

theorem SameRoots.trans {a b c : Doc yrs} (h : SameRoots a b) (h' : SameRoots b c) :
    SameRoots a c :=
  fun name => (h name).trans (h' name)

/-- Names and keys are distinct, and a root is typed only as its name has it. -/
structure Doc.Ok (doc : Doc yrs) : Prop where
  names : Assoc.Wf doc.roots
  keys : ∀ e ∈ doc.roots, Assoc.Wf e.2.branch.entries
  typed : ∀ e ∈ doc.roots,
    e.2.kind = .undefined ∨ ∃ type, rootType e.1 = some type ∧ e.2.kind = .typed type

/-! ## What a replacement holds -/

/-- The root that is written for a value. -/
def RootValue.fresh (value : RootValue yrs) : Root yrs :=
  ⟨.typed value.type, value.insertInto .empty⟩

theorem type_copyAs (b : Branch yrs) (type : RootType) : (b.copyAs type).type = type := by
  cases type <;> rfl

theorem sequence_foldl_pushBack (values : List yrs.In) (b : Branch yrs) :
    (values.foldl Branch.pushBack b).sequence =
      b.sequence ++ values.map fun v => .value (yrs.integrate v) := by
  induction values generalizing b with
  | nil => simp
  | cons v values ih => simp [ih, Branch.pushBack]

theorem entries_foldl_insert (values : List (String × yrs.In)) (b : Branch yrs) :
    (values.foldl Branch.insert b).entries =
      values.foldl (fun m e => Assoc.set e.1 (yrs.integrate e.2) m) b.entries := by
  induction values generalizing b with
  | nil => rfl
  | cons e values ih => exact ih _

theorem entries_foldl_pushBack (values : List yrs.In) (b : Branch yrs) :
    (values.foldl Branch.pushBack b).entries = b.entries := by
  induction values generalizing b with
  | nil => rfl
  | cons v values ih => exact ih _

theorem iter_of_values {b : Branch yrs} {values : List yrs.Out}
    (h : b.sequence = values.map .value) : b.iter = values := by
  rw [Branch.iter, h, List.flatMap_map]
  exact List.flatMap_singleton' values

/-- A copied root reads as the one it was copied from. -/
theorem view_fresh_copyAs (hlossless : yrs.Lossless) {b : Branch yrs} (hkeys : Assoc.Wf b.entries)
    (type : RootType) :
    (b.copyAs type).fresh.branch.view (some type) = b.view (some type) := by
  cases type with
  | text =>
      show RootView.text ((Branch.empty.insertText b.getString).getString) = .text b.getString
      unfold Branch.insertText
      split
      · rename_i hempty
        rw [hempty]
        rfl
      · simp [Branch.getString, Branch.empty]
  | array =>
      show RootView.array ((b.iter.map yrs.asPrelim).foldl Branch.pushBack .empty).iter = _
      have hsequence : ((b.iter.map yrs.asPrelim).foldl Branch.pushBack .empty).sequence =
          b.iter.map .value := by
        rw [sequence_foldl_pushBack, List.map_map]
        exact List.map_congr_left fun v _ => congrArg Content.value (hlossless v)
      rw [iter_of_values hsequence]
      rfl
  | map =>
      show RootView.map (fun key => Assoc.get key (_ : Branch yrs).entries) = _
      congr 1
      funext key
      rw [RootValue.fresh]
      show Assoc.get key ((_ : List (String × yrs.In)).foldl Branch.insert Branch.empty).entries = _
      rw [entries_foldl_insert, Assoc.get_foldl_set _ _ (Assoc.wf_foldl_set _ _ Assoc.wf_nil),
        Assoc.get_foldl_set _ _ hkeys]
      cases Assoc.get key b.entries with
      | none => rfl
      | some v => simp [hlossless v]

theorem wf_entries_fresh (value : RootValue yrs) : Assoc.Wf value.fresh.branch.entries := by
  cases value with
  | text value =>
      show Assoc.Wf (Branch.empty.insertText value).entries
      unfold Branch.insertText
      split
      · exact Assoc.wf_nil
      · exact Assoc.wf_nil
  | array values =>
      show Assoc.Wf (values.foldl Branch.pushBack Branch.empty).entries
      rw [entries_foldl_pushBack]
      exact Assoc.wf_nil
  | map values =>
      show Assoc.Wf (values.foldl Branch.insert Branch.empty).entries
      rw [entries_foldl_insert]
      exact Assoc.wf_foldl_set _ _ Assoc.wf_nil

theorem copyRoots_cons {name : String} {root : Root yrs} {rest : List (String × Root yrs)}
    {values : List (String × RootValue yrs)} (h : copyRoots ((name, root) :: rest) = .ok values) :
    ∃ value values', copyRoot name root = .ok value ∧ copyRoots rest = .ok values' ∧
      values = (name, value) :: values' := by
  rw [copyRoots] at h
  split at h
  · cases h
  · rename_i value hvalue
    split at h
    · cases h
    · rename_i values' hvalues
      exact ⟨value, values', hvalue, hvalues, (Except.ok.inj h).symm⟩

theorem keys_copyRoots {roots : List (String × Root yrs)} {values : List (String × RootValue yrs)}
    (h : copyRoots roots = .ok values) : Assoc.keys values = Assoc.keys roots := by
  induction roots generalizing values with
  | nil =>
      rw [← Except.ok.inj h]
      rfl
  | cons e rest ih =>
      obtain ⟨value, values', -, hvalues, rfl⟩ := copyRoots_cons h
      rw [Assoc.keys_cons, Assoc.keys_cons, ih hvalues]

theorem get_copyRoots {roots : List (String × Root yrs)} {values : List (String × RootValue yrs)}
    (h : copyRoots roots = .ok values) (name : String) :
    Option.Rel (fun root value => copyRoot name root = .ok value) (Assoc.get name roots)
      (Assoc.get name values) := by
  induction roots generalizing values with
  | nil =>
      rw [← Except.ok.inj h]
      exact .none
  | cons e rest ih =>
      obtain ⟨value, values', hvalue, hvalues, rfl⟩ := copyRoots_cons h
      rw [Assoc.get_cons, Assoc.get_cons]
      by_cases hname : e.1 = name
      · rw [if_pos hname, if_pos hname]
        exact .some (hname ▸ hvalue)
      · rw [if_neg hname, if_neg hname]
        exact ih hvalues

/-- Roots with new names are written from scratch. -/
theorem get_foldl_insertRoot (name : String) {values : List (String × RootValue yrs)}
    (hwf : Assoc.Wf values) {doc : Doc yrs}
    (hnew : ∀ n ∈ Assoc.keys values, n ∉ Assoc.keys doc.roots) :
    Assoc.get name (values.foldl Doc.insertRoot doc).roots =
      ((Assoc.get name values).map RootValue.fresh).or (Assoc.get name doc.roots) := by
  induction values generalizing doc with
  | nil => simp
  | cons e values ih =>
      obtain ⟨hfresh, hwf⟩ := Assoc.wf_cons.mp hwf
      have hempty : doc.branch e.1 = .empty := by
        rw [Doc.branch, Assoc.get_eq_none_iff.mpr (hnew e.1 List.mem_cons_self)]
        rfl
      have hnew' : ∀ n ∈ Assoc.keys values, n ∉ Assoc.keys (doc.insertRoot e).roots := by
        intro n hn hmem
        rcases Assoc.mem_keys_set.mp hmem with rfl | hmem
        · exact hfresh hn
        · exact hnew n (List.mem_cons_of_mem _ hn) hmem
      rw [List.foldl_cons, ih hwf hnew', Assoc.get_cons]
      show ((Assoc.get name values).map _).or (Assoc.get name (Assoc.set e.1 _ doc.roots)) = _
      rw [hempty, Assoc.get_set]
      by_cases hname : e.1 = name
      · rw [if_pos hname, if_pos hname, Assoc.get_eq_none_iff.mpr (hname ▸ hfresh)]
        rfl
      · rw [if_neg hname, if_neg hname]

theorem wf_foldl_insertRoot (values : List (String × RootValue yrs)) {doc : Doc yrs}
    (h : Assoc.Wf doc.roots) : Assoc.Wf (values.foldl Doc.insertRoot doc).roots := by
  induction values generalizing doc with
  | nil => exact h
  | cons e values ih => exact ih (Assoc.wf_set h)

/-- A root of a document is copied by the type its name has. -/
theorem copyRoot_of_ok {doc : Doc yrs} (hok : doc.Ok) {name : String} {root : Root yrs}
    (hroot : Assoc.get name doc.roots = some root) {value : RootValue yrs}
    (h : copyRoot name root = .ok value) :
    ∃ type, rootType name = some type ∧ value = root.branch.copyAs type := by
  rw [copyRoot] at h
  rcases hok.typed _ (Assoc.mem_of_get hroot) with hkind | ⟨type, htype, hkind⟩
  · dsimp only at hkind
    rw [hkind] at h
    dsimp only at h
    split at h
    · rename_i type htype
      exact ⟨type, htype, (Except.ok.inj h).symm⟩
    · cases h
  · dsimp only at hkind
    rw [hkind] at h
    exact ⟨type, htype, (Except.ok.inj h).symm⟩

/-- Where a replacement has a root, and what is in it. -/
theorem get_replacementDoc {source replacement : Doc yrs} (hok : source.Ok)
    (h : replacementDoc source = .ok replacement) (name : String) :
    (Assoc.get name source.roots = none ∧ Assoc.get name replacement.roots = none) ∨
    ∃ root type, Assoc.get name source.roots = some root ∧ rootType name = some type ∧
      Assoc.get name replacement.roots = some (root.branch.copyAs type).fresh := by
  unfold replacementDoc at h
  cases hcopy : copyRoots source.roots with
  | error error =>
      rw [hcopy] at h
      cases h
  | ok values =>
      rw [hcopy] at h
      obtain rfl := Except.ok.inj h
      have hkeys := keys_copyRoots hcopy
      have hwf : Assoc.Wf values := by
        rw [Assoc.Wf, hkeys]
        exact hok.names
      rw [get_foldl_insertRoot name hwf fun _ _ => List.not_mem_nil]
      have hrel := get_copyRoots hcopy name
      cases hroot : Assoc.get name source.roots with
      | none =>
          rw [hroot] at hrel
          cases hvalue : Assoc.get name values with
          | none => exact .inl ⟨rfl, rfl⟩
          | some value =>
              rw [hvalue] at hrel
              cases hrel
      | some root =>
          rw [hroot] at hrel
          cases hvalue : Assoc.get name values with
          | none =>
              rw [hvalue] at hrel
              cases hrel
          | some value =>
              rw [hvalue] at hrel
              cases hrel with
              | some hcopied =>
                  obtain ⟨type, htype, rfl⟩ := copyRoot_of_ok hok hroot hcopied
                  exact .inr ⟨root, type, rfl, htype, rfl⟩

/-- **The replacement has the values of its source.** -/
theorem sameRoots_replacementDoc (hlossless : yrs.Lossless) {source replacement : Doc yrs}
    (hok : source.Ok) (h : replacementDoc source = .ok replacement) :
    SameRoots source replacement := by
  intro name
  unfold Doc.rootValue Doc.branch
  rcases get_replacementDoc hok h name with ⟨hnone, hnone'⟩ | ⟨root, type, hroot, htype, hroot'⟩
  · rw [hnone, hnone']
  · rw [hroot, hroot', htype]
    exact (view_fresh_copyAs hlossless (hok.keys _ (Assoc.mem_of_get hroot)) type).symm

theorem ok_replacementDoc {source replacement : Doc yrs} (hok : source.Ok)
    (h : replacementDoc source = .ok replacement) : replacement.Ok := by
  have hwf : Assoc.Wf replacement.roots := by
    unfold replacementDoc at h
    cases hcopy : copyRoots source.roots with
    | error error =>
        rw [hcopy] at h
        cases h
    | ok values =>
        rw [hcopy] at h
        obtain rfl := Except.ok.inj h
        exact wf_foldl_insertRoot values Assoc.wf_nil
  have hroot : ∀ e ∈ replacement.roots, ∃ (b : Branch yrs) (type : RootType),
      rootType e.1 = some type ∧ e.2 = (b.copyAs type).fresh := by
    intro e he
    have hget := Assoc.get_of_mem hwf he
    rcases get_replacementDoc hok h e.1 with ⟨-, hnone⟩ | ⟨root, type, -, htype, hroot⟩
    · rw [hnone] at hget
      cases hget
    · rw [hroot] at hget
      exact ⟨root.branch, type, htype, (Option.some.inj hget).symm⟩
  refine ⟨hwf, fun e he => ?_, fun e he => ?_⟩
  · obtain ⟨b, type, -, heq⟩ := hroot e he
    rw [heq]
    exact wf_entries_fresh _
  · obtain ⟨b, type, htype, heq⟩ := hroot e he
    refine .inr ⟨type, htype, ?_⟩
    rw [heq, RootValue.fresh, type_copyAs]

/-! ## Loading -/

theorem sameRoots_reload {doc : Doc yrs} (hok : doc.Ok) : SameRoots doc doc.reload := by
  intro name
  have hget : Assoc.get name doc.reload.roots = ((Assoc.get name doc.roots).filter fun root =>
      !root.branch.sequence.isEmpty || !root.branch.entries.isEmpty).map fun root =>
        ⟨.undefined, root.branch⟩ := by
    rw [← Assoc.get_filter_value hok.names]
    exact Assoc.get_mapValues (fun root : Root yrs => (⟨.undefined, root.branch⟩ : Root yrs)) _ _
  have hbranch : doc.reload.branch name = doc.branch name := by
    rw [Doc.branch, Doc.branch, hget]
    cases Assoc.get name doc.roots with
    | none => rfl
    | some root =>
        obtain ⟨kind, sequence, entries⟩ := root
        -- a root that is dropped was empty
        cases sequence with
        | cons c sequence => rfl
        | nil =>
            cases entries with
            | cons e entries => rfl
            | nil => rfl
  rw [Doc.rootValue, Doc.rootValue, hbranch]

theorem ok_reload {doc : Doc yrs} (hok : doc.Ok) : doc.reload.Ok := by
  have hmem : ∀ e ∈ doc.reload.roots, ∃ root, (e.1, root) ∈ doc.roots ∧
      e.2 = ⟨.undefined, root.branch⟩ := by
    intro e he
    obtain ⟨e', he', rfl⟩ := List.mem_map.mp he
    exact ⟨e'.2, (List.mem_filter.mp he').1, rfl⟩
  refine ⟨?_, fun e he => ?_, fun e he => ?_⟩
  · have hkeys : Assoc.keys doc.reload.roots = Assoc.keys (doc.roots.filter fun e =>
        !e.2.branch.sequence.isEmpty || !e.2.branch.entries.isEmpty) := by
      unfold Assoc.keys Doc.reload
      rw [List.map_map]
      rfl
    rw [Assoc.Wf, hkeys]
    exact hok.names.sublist (List.filter_sublist.map Prod.fst)
  · obtain ⟨root, hroot, heq⟩ := hmem e he
    rw [heq]
    exact hok.keys _ hroot
  · obtain ⟨root, -, heq⟩ := hmem e he
    rw [heq]
    exact .inl rfl

/-! ## Documents -/

/-- A document as the server keeps it. -/
structure Document (yrs : Yrs) where
  doc : Doc yrs
  ok : doc.Ok

namespace Document

def empty : Document yrs := ⟨.empty, Assoc.wf_nil, by simp [Doc.empty], by simp [Doc.empty]⟩

def reload (d : Document yrs) : Document yrs := ⟨d.doc.reload, ok_reload d.ok⟩

/-- `logical_replacement`. -/
def logicalReplacement (d : Document yrs) : Except EpochError (Document yrs) :=
  match h : replacementDoc d.doc with
  | .error error => .error error
  | .ok doc => .ok ⟨doc, ok_replacementDoc d.ok h⟩

theorem sameRoots_logicalReplacement (hlossless : yrs.Lossless) {d d' : Document yrs}
    (h : d.logicalReplacement = .ok d') : SameRoots d.doc d'.doc := by
  unfold logicalReplacement at h
  split at h
  · cases h
  · rename_i doc hdoc
    obtain rfl := Except.ok.inj h
    exact sameRoots_replacementDoc hlossless d.ok hdoc

end Document

end Realtime.Epoch
