import Realtime.Lib.Assoc
import Realtime.Lib.Coverage
import Mathlib.Data.List.Sort

/-!
# The batch log of a plugin database

Every replica of a plugin database is a cr-sqlite database with a site id of
its own; what a site commits travels in batches through a shared log. Site ids
are the hex strings the log is keyed by (rows carry the same id in base64).
-/

namespace Realtime.PluginDb

open Lib

abbrev Site := String

/-- `SYNC_FORMAT` of the clients, `PLUGIN_DB_SYNC` of the server. -/
def syncFormat : String := "crsqlite-1"

/-- A row of `crsql_changes`, with its value as JSON text. -/
structure ChangeRow where
  table : String
  pk : String
  cid : String
  val : String
  colVersion : Int
  dbVersion : Int
  siteId : Site
  cl : Int
  seq : Int
  deriving DecidableEq, Repr

structure Batch where
  id : String
  siteId : Site
  fromDbVersion : Int
  toDbVersion : Int
  schemaVersion : Int
  changes : List ChangeRow
  format : String
  deriving DecidableEq, Repr

/-- Origin site to the highest version known of it. -/
abbrev Cursor := List (Site × Int)

/-- `cursor[site] ?? 0`, `cursor.get(site).copied().unwrap_or(0)`. -/
def Cursor.at (c : Cursor) (site : Site) : Int := (Assoc.get site c).getD 0

@[simp] theorem Cursor.at_nil (site : Site) : Cursor.at [] site = 0 := rfl

theorem Cursor.at_set (c : Cursor) (site s : Site) (v : Int) :
    Cursor.at (Assoc.set site v c) s = if s = site then v else c.at s := by
  by_cases h : s = site
  · subst h
    simp [Cursor.at]
  · rw [Cursor.at, Assoc.get_set_ne (Ne.symm h), if_neg h, Cursor.at]

/-! ## A cr-sqlite database

What the two programs rely on of the extension: one version counter for each
database, that a local commit advances by one and a merge may advance by any
amount, and a table of changes in which the rows of a commit carry its version.
Rows disappear when a later change wins their cell. -/

structure Db where
  siteId : Site
  dbVersion : Int
  changes : List ChangeRow
  deriving DecidableEq

/-- A local transaction that wrote something. -/
structure Db.Commits (d d' : Db) : Prop where
  siteId : d'.siteId = d.siteId
  dbVersion : d'.dbVersion = d.dbVersion + 1
  changes : ∀ r ∈ d'.changes,
    r ∈ d.changes ∨ (r.siteId = d.siteId ∧ r.dbVersion = d'.dbVersion)

/-- A transaction that inserted `rows` into `crsql_changes`. -/
structure Db.Merges (d : Db) (rows : List ChangeRow) (d' : Db) : Prop where
  siteId : d'.siteId = d.siteId
  dbVersion : d.dbVersion ≤ d'.dbVersion
  changes : ∀ r ∈ d'.changes, r ∈ d.changes ∨ r ∈ rows

/-- `ORDER BY db_version, seq`. -/
def changeOrder (r r' : ChangeRow) : Bool :=
  r.dbVersion < r'.dbVersion || (r.dbVersion == r'.dbVersion && r.seq ≤ r'.seq)

/-- `readChangesForSite` of a client and `collect_own_changes` of the server:
the rows of `site` past `since`. -/
def readChangesForSite (d : Db) (site : Site) (since : Int) : List ChangeRow :=
  (d.changes.filter fun r => r.siteId == site && decide (since < r.dbVersion)).mergeSort changeOrder

theorem mem_readChangesForSite {d : Db} {site : Site} {since : Int} {r : ChangeRow} :
    r ∈ readChangesForSite d site since ↔
      r ∈ d.changes ∧ r.siteId = site ∧ since < r.dbVersion := by
  simp [readChangesForSite]

theorem pairwise_readChangesForSite (d : Db) (site : Site) (since : Int) :
    (readChangesForSite d site since).Pairwise fun r r' => r.dbVersion ≤ r'.dbVersion := by
  have h : ((d.changes.filter fun r => r.siteId == site && decide (since < r.dbVersion)).mergeSort
      changeOrder).Pairwise fun r r' => changeOrder r r' := by
    apply List.pairwise_mergeSort
    · intro a b c hab hbc
      simp [changeOrder] at hab hbc ⊢
      omega
    · intro a b
      simp [changeOrder]
      omega
  refine h.imp ?_
  intro r r' hle
  simp [changeOrder] at hle
  omega

end Realtime.PluginDb
