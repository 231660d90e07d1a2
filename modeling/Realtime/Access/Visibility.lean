import Mathlib.Data.List.DropRight
import Mathlib.Tactic
import Realtime.Access.Tokens

/-!
# What a member sees of the vault

The reading requests of the HTTP interface. Reading one note asks for the level
on its path. Listing, searching, tags and backlinks ask for membership only, and
their results are made of every note's rows.
-/

namespace Realtime.Access

open Lib

/-- A row of `note_search`; tags and links are stored as JSON text. -/
structure SearchRow where
  guid : Str
  path : Str
  title : Str
  tags : Str
  links : Str
  deriving DecidableEq

/-- A row of `note_fts`. -/
structure FtsRow where
  guid : Str
  path : Str
  title : Str
  tags : Str
  body : Str
  deriving DecidableEq

/-- What the reading requests look at. -/
structure Notes (υ : Type) where
  /-- The index's `files`, path to guid. -/
  files : List (Str × Str)
  server : Server υ
  /-- The index on `vault_files`. -/
  unique : Assoc.Wf server.vaultFiles
  /-- The text of a document, by guid; none if it cannot be read. -/
  contents : Str → Option Str
  noteSearch : List SearchRow
  noteFts : List FtsRow

structure NoteSummary where
  path : Str
  guid : Str
  permalink : Str
  deriving DecidableEq

structure NoteResponse where
  path : Str
  guid : Str
  content : Str
  permalink : Str
  deriving DecidableEq

structure SearchHit where
  path : Str
  guid : Str
  title : Str
  permalink : Str
  snippet : Str
  deriving DecidableEq

structure TagCount where
  tag : Str
  count : Nat
  deriving DecidableEq

/-- What comes from outside: the base URL, serde's reading of a list of strings,
and SQLite's full-text query (the matching rows with their snippets, by rank). -/
structure Backend where
  publicBaseUrl : Str
  fromJson : Str → Option (List Str)
  ftsMatch : List FtsRow → Str → Nat → List (FtsRow × Str)

namespace Backend

def permalinkForGuid (b : Backend) (guid : Str) : Str :=
  b.publicBaseUrl.rdropWhile (· == '/') ++ "/n/".toList ++ guid

end Backend

/-- The reversed text without the `.md`s it starts with. -/
def dropMd : Str → Str
  | 'd' :: 'm' :: '.' :: rest => dropMd rest
  | s => s

/-- `trim_end_matches(".md")` -/
def trimMd (s : Str) : Str := (dropMd s.reverse).reverse

def normalizeKey (value : Str) : Str := Str.lower (trimMd (Str.trim value))

/-- What follows the last `/`, without `.md`. -/
def stem (path : Str) : Str := trimMd (path.rtakeWhile (· != '/'))

def targetKeys (path : Str) : List Str := [normalizeKey path, normalizeKey (stem path)]

/-- `lower(value) LIKE '%query%'`, the query taken literally. -/
def like (query value : Str) : Bool := decide (Str.lower query <:+: Str.lower value)

section Requests

variable {υ : Type} [DecidableEq υ] (v : Vault υ) (b : Backend) (n : Notes υ)

def listNotesInner (user : υ) : Except AppError (List NoteSummary) :=
  if !v.member user then .error .forbidden
  else
    .ok ((n.files.mergeSort fun x y => x.1 ≤ y.1).map fun entry =>
      ⟨entry.1, entry.2, b.permalinkForGuid entry.2⟩)

/-- `validate_vault_file_path` and the extension. -/
def validateNotePath (path : Str) : Bool :=
  !path.isEmpty && !path.contains '\\' && (path.splitOn '/').all (fun part =>
    part ≠ [] ∧ part ≠ ['.'] ∧ part ≠ ['.', '.']) && ".md".toList.isSuffixOf path

/-- The first row with the path. -/
def fileByPath (path : Str) : Option (Str × Str) :=
  n.server.vaultFiles.find? fun row => row.2 = path

/-- `require_note_access`, over the row that has the path. -/
def requireNoteAccess (user : υ) (path : Str) (write : Bool) (now : Int) :
    Except AppError (Str × Str) :=
  if !v.member user then .error .forbidden
  else if !validateNotePath path then .error .badRequest
  else
    match fileByPath n path with
    | none => .error .notFound
    | some file =>
        match (authorizeDocWithClaim v n.server user (v.docId file.1) none now).1 with
        | .error error => .error error
        | .ok authorization =>
            if write ∧ authorization.level = .readOnly then .error .forbidden else .ok file

def readNoteInner (user : υ) (path : Str) (now : Int) : Except AppError NoteResponse :=
  match requireNoteAccess v n user path false now with
  | .error error => .error error
  | .ok file =>
      match n.contents file.1 with
      | none => .error .internal
      | some content => .ok ⟨file.2, file.1, content, b.permalinkForGuid file.1⟩

def searchNotesInner (user : υ) (query : Str) (limit : Option Nat) :
    Except AppError (List SearchHit) :=
  if !v.member user then .error .forbidden
  else
    let limit := min (limit.getD 20) 100
    if (Str.trim query).isEmpty then .ok []
    else if 3 ≤ query.length then
      .ok ((b.ftsMatch n.noteFts query limit).map fun hit =>
        ⟨hit.1.path, hit.1.guid, hit.1.title, b.permalinkForGuid hit.1.guid, hit.2⟩)
    else
      .ok (((n.noteSearch.filter fun row =>
          like query row.path || like query row.title || like query row.tags).take limit).map
        fun row => ⟨row.path, row.guid, row.title, b.permalinkForGuid row.guid, []⟩)

def countTag (counts : List (Str × Nat)) (tag : Str) : List (Str × Nat) :=
  Assoc.set tag ((Assoc.get tag counts).getD 0 + 1) counts

def listTagsInner (user : υ) : Except AppError (List TagCount) :=
  if !v.member user then .error .forbidden
  else
    let counts := (n.noteSearch.flatMap fun row => (b.fromJson row.tags).getD []).foldl countTag []
    .ok ((counts.mergeSort fun x y => x.1 ≤ y.1).map fun entry => ⟨entry.1, entry.2⟩)

def listBacklinksInner (user : υ) (path : Str) : Except AppError (List SearchHit) :=
  if !v.member user then .error .forbidden
  else
    let rows := n.noteSearch.filter fun row =>
      row.path ≠ path && ((b.fromJson row.links).getD []).any fun link => link ∈ targetKeys path
    .ok ((rows.map fun row =>
      (⟨row.path, row.guid, row.title, b.permalinkForGuid row.guid, []⟩ : SearchHit)).mergeSort
        fun x y => x.path ≤ y.path)

end Requests

/-! ## Two states that differ in what is denied -/

section Views

variable {υ : Type} [DecidableEq υ] {v : Vault υ} {b : Backend} {user : υ} {n m : Notes υ}

def Denied (v : Vault υ) (user : υ) (path : Str) : Prop :=
  resolvePathLevel v.permissions user path = .error .forbidden

instance (path : Str) : Decidable (Denied v user path) :=
  inferInstanceAs (Decidable (_ = _))

/-- The path has the document, in the index or in the mirror. -/
def Notes.At (n : Notes υ) (path guid : Str) : Prop :=
  (path, guid) ∈ n.files ∨ (guid, path) ∈ n.server.vaultFiles

/-- The document of a denied note, and of no other. -/
def Hidden (v : Vault υ) (user : υ) (n m : Notes υ) (guid : Str) : Prop :=
  (∃ path, Denied v user path ∧ (n.At path guid ∨ m.At path guid)) ∧
    ∀ path, ¬Denied v user path → ¬n.At path guid ∧ ¬m.At path guid

/-- The states agree on everything but the notes at denied paths. -/
structure Agree (v : Vault υ) (user : υ) (n m : Notes υ) : Prop where
  files : n.files.filter (fun entry => ¬Denied v user entry.1) =
    m.files.filter fun entry => ¬Denied v user entry.1
  vaultFiles : n.server.vaultFiles.filter (fun row => ¬Denied v user row.2) =
    m.server.vaultFiles.filter fun row => ¬Denied v user row.2
  pending : n.server.pendingDocumentCreations = m.server.pendingDocumentCreations
  documents : ∀ id, (id ∈ n.server.documents ↔ id ∈ m.server.documents) ∨
    ∃ guid, id = v.docId guid ∧ Hidden v user n m guid
  contents : ∀ guid, ¬Hidden v user n m guid → n.contents guid = m.contents guid
  noteSearch : n.noteSearch.filter (fun row => ¬Denied v user row.path) =
    m.noteSearch.filter fun row => ¬Denied v user row.path
  noteFts : n.noteFts.filter (fun row => ¬Denied v user row.path) =
    m.noteFts.filter fun row => ¬Denied v user row.path

/-- The member gets the same from both states. -/
structure SameView (v : Vault υ) (b : Backend) (user : υ) (n m : Notes υ) : Prop where
  list : listNotesInner v b n user = listNotesInner v b m user
  read : ∀ path now, ¬Denied v user path →
    readNoteInner v b n user path now = readNoteInner v b m user path now
  search : ∀ query limit,
    searchNotesInner v b n user query limit = searchNotesInner v b m user query limit
  tags : listTagsInner v b n user = listTagsInner v b m user
  backlinks : ∀ path, ¬Denied v user path →
    listBacklinksInner v b n user path = listBacklinksInner v b m user path

/-- A document with a row: what is decided depends on the row's path alone. -/
theorem authorizeDocWithClaim_congr {s t : Server υ} {guid path : Str} {now : Int}
    (hs : Assoc.get guid s.vaultFiles = some path) (ht : Assoc.get guid t.vaultFiles = some path) :
    (authorizeDocWithClaim v s user (v.docId guid) none now).1 =
      (authorizeDocWithClaim v t user (v.docId guid) none now).1 := by
  have hsuffix : Str.stripPrefix (v.id ++ separator) (v.docId guid) = some guid :=
    Str.stripPrefix_append _ _
  simp only [authorizeDocWithClaim, if_neg (docId_ne v guid), hsuffix]
  split
  · rfl
  · split
    · rfl
    · simp only [hs, ht]

/-- A row found by an allowed path is found in both states. -/
theorem Agree.fileByPath_eq (h : Agree v user n m) {path : Str} (hpath : ¬Denied v user path) :
    fileByPath n path = fileByPath m path := by
  have hfind : ∀ rows : List (Str × Str), rows.find? (fun row => row.2 = path) =
      (rows.filter fun row => ¬Denied v user row.2).find? fun row => row.2 = path := by
    intro rows
    rw [List.find?_filter]
    congr 1
    funext row
    by_cases hrow : row.2 = path
    · simp [hrow, hpath]
    · simp [hrow]
  rw [fileByPath, hfind, h.vaultFiles, ← hfind, fileByPath]

/-- Reading a note never depends on a denied one. -/
theorem Agree.readNote_eq (h : Agree v user n m) {path : Str} {now : Int}
    (hpath : ¬Denied v user path) :
    readNoteInner v b n user path now = readNoteInner v b m user path now := by
  have hfile := h.fileByPath_eq hpath
  simp only [readNoteInner, requireNoteAccess]
  rw [← hfile]
  split_ifs
  · rfl
  · rfl
  · cases hrow : fileByPath n path with
    | none => rfl
    | some file =>
        obtain ⟨guid, p⟩ := file
        have hp : p = path := of_decide_eq_true (List.find?_some (p := fun row : Str × Str =>
          row.2 = path) hrow)
        subst hp
        have hn : (guid, p) ∈ n.server.vaultFiles := List.mem_of_find?_eq_some hrow
        have hm : (guid, p) ∈ m.server.vaultFiles := List.mem_of_find?_eq_some (hfile ▸ hrow)
        have hcontents : n.contents guid = m.contents guid :=
          h.contents guid fun hidden => (hidden.2 p hpath).1 (.inr hn)
        simp only
        rw [authorizeDocWithClaim_congr (Assoc.get_of_mem n.unique hn)
          (Assoc.get_of_mem m.unique hm)]
        cases (authorizeDocWithClaim v m.server user (v.docId guid) none now).1 with
        | error error => rfl
        | ok authorization => simp only [false_and, if_false, hcontents]

theorem filter_allowed {α : Type} (rows : List α) (path : α → Str)
    (h : ∀ path, ¬Denied v user path) :
    rows.filter (fun row => ¬Denied v user (path row)) = rows :=
  List.filter_eq_self.mpr fun row _ => decide_eq_true (h (path row))

/-- Where nothing is denied the states have the same notes. -/
theorem Agree.sameView (h : Agree v user n m) (hallowed : ∀ path, ¬Denied v user path) :
    SameView v b user n m := by
  have hfiles := h.files
  rw [filter_allowed _ _ hallowed, filter_allowed _ _ hallowed] at hfiles
  have hsearch := h.noteSearch
  rw [filter_allowed _ _ hallowed, filter_allowed _ _ hallowed] at hsearch
  have hfts := h.noteFts
  rw [filter_allowed _ _ hallowed, filter_allowed _ _ hallowed] at hfts
  refine ⟨?_, fun path now hpath => h.readNote_eq hpath, fun query limit => ?_, ?_,
    fun path _ => ?_⟩
  · rw [listNotesInner, hfiles, listNotesInner]
  · rw [searchNotesInner, hsearch, hfts, searchNotesInner]
  · rw [listTagsInner, hsearch, listTagsInner]
  · rw [listBacklinksInner, hsearch, listBacklinksInner]

/-- A vault with the given files in its index and nothing else. -/
def Notes.onlyFiles (files : List (Str × Str)) : Notes υ where
  files := files
  server := ⟨[], [], []⟩
  unique := Assoc.wf_nil
  contents := fun _ => none
  noteSearch := []
  noteFts := []

/-- A member's view is free of denied notes just when no path is denied: the listing
has them all. -/
theorem view_free_of_denied_iff (v : Vault υ) (b : Backend) (user : υ)
    (hmember : v.member user = true) :
    (∀ n m : Notes υ, Agree v user n m → SameView v b user n m) ↔
      ∀ path, ¬Denied v user path := by
  refine ⟨fun h path hdenied => ?_, fun hallowed n m hagree => hagree.sameView hallowed⟩
  -- one note, at the denied path, or none
  have hagree : Agree v user (Notes.onlyFiles [(path, [])] : Notes υ) (Notes.onlyFiles []) :=
    { files := by simp [Notes.onlyFiles, hdenied]
      vaultFiles := rfl
      pending := rfl
      documents := fun id => .inl Iff.rfl
      contents := fun guid _ => rfl
      noteSearch := rfl
      noteFts := rfl }
  have hlist := (h _ _ hagree).list
  simp [listNotesInner, hmember, Notes.onlyFiles] at hlist

end Views

/-! ## What leaks -/

/-- `["work"]` and `["a"]` are read as JSON. -/
def planBackend : Backend where
  publicBaseUrl := "https://notes".toList
  fromJson := fun s =>
    if s = "[\"work\"]".toList then some ["work".toList]
    else if s = "[\"a\"]".toList then some ["a".toList]
    else if s = "[]".toList then some []
    else none
  ftsMatch := fun rows query limit =>
    ((rows.filter fun row => decide (query <:+: Str.lower row.body)).take limit).map
      fun row => (row, row.body)

/-- No rule of `boards` is about user 0. -/
theorem not_denied_boards (path : Str) : ¬Denied boards 0 path := by
  have hnone : bestRule boards.permissions 0 path = none := by
    refine bestRule_eq_none_iff.mpr fun r hr => ?_
    have happlies : r.applies 0 = false := by
      revert r
      decide
    rw [Permission.covers, happlies, Bool.false_and]
    exact Bool.false_ne_true
  rw [Denied, resolvePathLevel, hnone]
  rintro ⟨⟩

/-- In one vault the view of user 0 is free of denied notes, that of user 1 is not. -/
theorem view_free_of_denied_iff_boards :
    (∀ n m : Notes Nat, Agree boards 0 n m → SameView boards planBackend 0 n m) ∧
      ¬∀ n m : Notes Nat, Agree boards 1 n m → SameView boards planBackend 1 n m := by
  refine ⟨(view_free_of_denied_iff boards planBackend 0 rfl).mpr not_denied_boards, fun h => ?_⟩
  have hallowed := (view_free_of_denied_iff boards planBackend 1 rfl).mp h
  exact hallowed "private/plan.md".toList (by decide)

/-- The vault has `a.md` and, if `withPlan`, the note `private/plan.md`, which links
to `a.md` and has the tag `work`. -/
def planNotes (withPlan : Bool) : Notes Nat where
  files := if withPlan then [("a.md".toList, ['a']), ("private/plan.md".toList, ['p'])]
    else [("a.md".toList, ['a'])]
  server := ⟨if withPlan then [(['a'], "a.md".toList), (['p'], "private/plan.md".toList)]
    else [(['a'], "a.md".toList)], ["v__a".toList], []⟩
  unique := by cases withPlan <;> simp [Assoc.Wf]
  contents := fun guid => if guid = ['a'] then some "text".toList else none
  noteSearch :=
    ⟨['a'], "a.md".toList, "a".toList, "[]".toList, "[]".toList⟩ ::
      if withPlan then
        [⟨['p'], "private/plan.md".toList, "plan".toList, "[\"work\"]".toList,
          "[\"a\"]".toList⟩]
      else []
  noteFts := []

theorem agree_planNotes : Agree boards 1 (planNotes true) (planNotes false) where
  files := by decide
  vaultFiles := by decide
  pending := rfl
  documents := fun _ => .inl Iff.rfl
  contents := fun _ _ => rfl
  noteSearch := by decide
  noteFts := rfl

/-- User 1 is denied `private/`, and learns of the plan from the listing, from a
search for `pl`, from the tags and from the links to `a.md`. -/
theorem not_view_free_of_denied :
    Agree boards 1 (planNotes true) (planNotes false) ∧
      listNotesInner boards planBackend (planNotes true) 1 ≠
        listNotesInner boards planBackend (planNotes false) 1 ∧
      searchNotesInner boards planBackend (planNotes true) 1 "pl".toList none ≠
        searchNotesInner boards planBackend (planNotes false) 1 "pl".toList none ∧
      listTagsInner boards planBackend (planNotes true) 1 ≠
        listTagsInner boards planBackend (planNotes false) 1 ∧
      listBacklinksInner boards planBackend (planNotes true) 1 "a.md".toList ≠
        listBacklinksInner boards planBackend (planNotes false) 1 "a.md".toList := by
  -- the results differ in length
  refine ⟨agree_planNotes, fun h => ?_, by decide, fun h => ?_, fun h => ?_⟩
  · have hlength := congrArg List.length (Except.ok.inj h)
    rw [List.length_map, List.length_map, List.length_mergeSort, List.length_mergeSort] at hlength
    revert hlength
    decide
  · have hlength := congrArg List.length (Except.ok.inj h)
    rw [List.length_map, List.length_map, List.length_mergeSort, List.length_mergeSort] at hlength
    revert hlength
    decide
  · have hlength := congrArg List.length (Except.ok.inj h)
    rw [List.length_mergeSort, List.length_mergeSort, List.length_map, List.length_map] at hlength
    revert hlength
    decide

end Realtime.Access
