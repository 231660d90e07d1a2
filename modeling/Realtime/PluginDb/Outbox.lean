import Realtime.Lib.Transition
import Realtime.PluginDb.Replica

/-!
# The publication outbox of the server

`execute_sql` and `rollback_to_dump` commit a change of the replica together
with a row of `publish_outbox`, a table in a second file attached to the
replica; the row is published into the log of the document behind the commit.
These operations, `flush_pending` and `purge` hold the write lock of the
database, so one of them runs at a time (`task`), from await to await, and ends
early on an error or a restart (`abort`). The passes that refresh the replica
and the devices go on without the lock.

`history` is the list of the effects so far.
-/

namespace Realtime.PluginDb.Outbox

open Lib

/-- A row of `publish_outbox`. -/
structure PendingPublish where
  sequence : Nat
  batchId : String
  rows : List ChangeRow
  siteHex : Site
  post : Int
  deriving DecidableEq

/-- What `decode_doc` finds in the document. -/
structure DocView where
  batches : List Batch
  schema : List String
  schemaVersion : Int
  deletedAt : Bool
  deriving DecidableEq

/-- `DocView::default()`. -/
def DocView.default : DocView := ⟨[], [], 0, false⟩

def DocView.ids (view : DocView) : List String := view.batches.map (·.id)

/-- The batch of `publish_own_batch`: its format and, where the document has no
schema version, its version are those of the last batch. -/
def ownBatch (view : DocView) (publish : PendingPublish) : Batch where
  id := publish.batchId
  siteId := publish.siteHex
  fromDbVersion := (publish.rows.map (·.dbVersion)).min?.getD publish.post - 1
  toDbVersion := publish.post
  schemaVersion :=
    if view.schemaVersion ≠ 0 then view.schemaVersion
    else (view.batches.getLast?.map (·.schemaVersion)).getD 1
  changes := publish.rows
  format := ((view.batches.getLast?.map (·.format)).filter (· ≠ "")).getD syncFormat

/-- The cursor past the batch's own site. -/
def advanceOwn (publish : PendingPublish) (cursor : Cursor) : Cursor :=
  Assoc.set publish.siteHex (max ((Assoc.get publish.siteHex cursor).getD 0) publish.post) cursor

/-- The row after `store_cursor` found `existing`; `none` where the insert
fails on a row that has appeared since. -/
def storeCursor (row existing : Option Cursor) (cursor : Cursor) : Option (Option Cursor) :=
  match existing with
  | some stored =>
      some (if (mergeCursor stored cursor).2 then some (mergeCursor stored cursor).1 else row)
  | none => if row.isSome then none else some (some cursor)

/-- A transaction over the replica and the attached outbox: what it works on. -/
structure Tx where
  db : Db
  outbox : List PendingPublish
  sequence : Nat
  deriving DecidableEq

/-- `insert_pending_publish`. -/
def insertPendingPublish (tx : Tx) (batchId : String) (rows : List ChangeRow) :
    PendingPublish × Tx :=
  let publish : PendingPublish :=
    { sequence := tx.sequence + 1, batchId, rows, siteHex := tx.db.siteId, post := tx.db.dbVersion }
  (publish, { tx with outbox := tx.outbox ++ [publish], sequence := tx.sequence + 1 })

/-- `load_pending_publishes`, in the order of the sequence. -/
def loadPendingPublishes (outbox : List PendingPublish) : List PendingPublish :=
  outbox.mergeSort fun p q => p.sequence ≤ q.sequence

/-- `delete_pending_publish`. -/
def deletePendingPublish (publish : PendingPublish) (outbox : List PendingPublish) :
    List PendingPublish :=
  outbox.filter fun p => !(p.sequence == publish.sequence && p.batchId == publish.batchId)

/-- What comes behind the flush. -/
inductive Next where
  | done
  | execute
  | rollback
  deriving DecidableEq

/-- Where the operation that holds the lock stands. -/
inductive Task where
  | idle
  | locked (next : Next)
  | flushing (todo : List PendingPublish) (next : Next)
  | publishing (view : DocView) (publish : PendingPublish) (todo : List PendingPublish)
      (next : Next)
  | appended (publish : PendingPublish) (todo : List PendingPublish) (next : Next)
  | acknowledged (publish : PendingPublish) (todo : List PendingPublish) (next : Next)
  | refreshing (view : DocView)
  | refreshed (cursor : Cursor)
  | ready
  | transaction (tx : Tx)
  | committing (tx : Tx) (publish : Option PendingPublish)
  | purging
  | removed
  | trimming (view : DocView)
  deriving DecidableEq

/-- What happens to a batch, and the purge of the database. -/
inductive Event where
  | commit (batchId : String)
  | append (batchId : String)
  | store (batchId : String)
  | delete (batchId : String)
  | purge
  deriving DecidableEq

/-- One plugin database: the two files of the replica, the document, the stored
row, and the ids that were handed out. -/
structure Server where
  replica : Option Db
  outbox : List PendingPublish
  sequence : Nat
  doc : DocView
  row : Option Cursor
  task : Task
  issued : List String
  history : List Event
  deriving DecidableEq

/-- One action of the server, up to its next await, or of a peer. -/
inductive Act where
  | lock (next : Next)
  | load
  | proceed
  | read
  | readFails
  | append (behind : Nat)
  | acknowledge (loaded existing : Option Cursor)
  | delete
  | refresh (loaded : Option Cursor) (db : Db)
  | storeRefreshed (existing : Option Cursor)
  | begin
  | execute (db : Db) (batchId : String)
  | commit
  | lockPurge
  | remove
  | readForTrim
  | trim
  | skipTrim
  | abort
  | peer (batch : Batch) (behind : Nat)
  | describe (schema : List String) (schemaVersion : Int) (deletedAt : Bool)
  | replicate (rows : List ChangeRow) (db : Db)
  | store (existing : Option Cursor) (cursor : Cursor)
  | compact (ids : List String)

/-- A batch of the array is put behind the first `behind` ones. -/
def DocView.insert (doc : DocView) (batch : Batch) (behind : Nat) : DocView :=
  { doc with batches := doc.batches.take behind ++ batch :: doc.batches.drop behind }

/-- The batches with these ids are taken out. -/
def DocView.drop (doc : DocView) (ids : List String) : DocView :=
  { doc with batches := doc.batches.filter fun b => b.id ∉ ids }

instance (d : Db) (rows : List ChangeRow) (d' : Db) : Decidable (Db.Merges d rows d') :=
  decidable_of_iff (d'.siteId = d.siteId ∧ d.dbVersion ≤ d'.dbVersion ∧
      ∀ r ∈ d'.changes, r ∈ d.changes ∨ r ∈ rows)
    ⟨fun ⟨hs, hv, hc⟩ => ⟨hs, hv, hc⟩, fun h => ⟨h.siteId, h.dbVersion, h.changes⟩⟩

instance (d d' : Db) : Decidable (Db.Commits d d') :=
  decidable_of_iff (d'.siteId = d.siteId ∧ d'.dbVersion = d.dbVersion + 1 ∧
      ∀ r ∈ d'.changes, r ∈ d.changes ∨ (r.siteId = d.siteId ∧ r.dbVersion = d'.dbVersion))
    ⟨fun ⟨hs, hv, hc⟩ => ⟨hs, hv, hc⟩, fun h => ⟨h.siteId, h.dbVersion, h.changes⟩⟩

/-- `open_replica` and the inserts of `apply_to_replica`: a missing file is
created with a site id of its own. -/
def Refreshes (replica : Option Db) (rows : List ChangeRow) (db : Db) : Prop :=
  Db.Merges (replica.getD ⟨db.siteId, 0, []⟩) rows db

instance (replica : Option Db) (rows : List ChangeRow) (db : Db) :
    Decidable (Refreshes replica rows db) :=
  inferInstanceAs (Decidable (Db.Merges _ _ _))

/-- SQLite has the replica locked for a transaction. -/
def Task.isWriting : Task → Bool
  | .transaction _ => true
  | .committing _ _ => true
  | _ => false

namespace Server

/-- One step of the operation that holds the lock, or of what goes on without it. -/
def step (σ : Server) (a : Act) : Option Server :=
  match a with
  -- `write_lock`, and `flush_pending_locked`
  | .lock next =>
      match σ.task with
      | .idle => some { σ with task := .locked next }
      | _ => none
  | .load =>
      match σ.task with
      | .locked next =>
          let todo := if σ.replica.isSome then loadPendingPublishes σ.outbox else []
          some { σ with task := .flushing todo next }
      | _ => none
  | .proceed =>
      match σ.task with
      | .flushing [] .done => some { σ with task := .idle }
      | .flushing [] .rollback => some { σ with task := .ready }
      | .flushing [] .execute =>
          if σ.doc.deletedAt ∨ (σ.doc.schema = [] ∧ σ.doc.batches = [] ∧ σ.replica = none) then
            none
          else some { σ with task := .refreshing σ.doc }
      | _ => none
  -- `publish_own_batch`
  | .read =>
      match σ.task with
      | .flushing (publish :: todo) next =>
          some { σ with task := .publishing σ.doc publish todo next }
      | _ => none
  | .readFails =>
      match σ.task with
      | .flushing (publish :: todo) next =>
          some { σ with task := .publishing .default publish todo next }
      | _ => none
  | .append behind =>
      match σ.task with
      | .publishing view publish todo next =>
          if publish.batchId ∈ view.ids then
            some { σ with task := .appended publish todo next }
          else
            some { σ with
              doc := σ.doc.insert (ownBatch view publish) behind
              task := .appended publish todo next
              history := σ.history ++ [.append publish.batchId] }
      | _ => none
  | .acknowledge loaded existing =>
      match σ.task with
      | .appended publish todo next =>
          (storeCursor σ.row existing (advanceOwn publish (loaded.getD []))).map fun row =>
            { σ with
              row
              task := .acknowledged publish todo next
              history := σ.history ++ [.store publish.batchId] }
      | _ => none
  -- `delete_pending_publish`
  | .delete =>
      match σ.task with
      | .acknowledged publish todo next =>
          some { σ with
            outbox := deletePendingPublish publish σ.outbox
            task := .flushing todo next
            history := σ.history ++ [.delete publish.batchId] }
      | _ => none
  -- the refresh of `execute_sql`
  | .refresh loaded db =>
      match σ.task with
      | .refreshing view =>
          let applied := applyToReplica view.batches (loaded.getD [])
          if Refreshes σ.replica applied.1 db then
            some { σ with replica := some db, task := .refreshed applied.2 }
          else none
      | _ => none
  | .storeRefreshed existing =>
      match σ.task with
      | .refreshed cursor =>
          (storeCursor σ.row existing cursor).map fun row => { σ with row, task := .ready }
      | _ => none
  -- `execute_against_replica` and `apply_dump_rollback`
  | .begin =>
      match σ.task with
      | .ready =>
          σ.replica.map fun db => { σ with task := .transaction ⟨db, σ.outbox, σ.sequence⟩ }
      | _ => none
  | .execute db batchId =>
      match σ.task with
      | .transaction tx =>
          if Db.Commits tx.db db ∨ db = tx.db then
            let rows := readChangesForSite db db.siteId tx.db.dbVersion
            if rows = [] then some { σ with task := .committing { tx with db } none }
            else if batchId ∈ σ.issued then none
            else
              let inserted := insertPendingPublish { tx with db } batchId rows
              some { σ with
                task := .committing inserted.2 (some inserted.1)
                issued := batchId :: σ.issued }
          else none
      | _ => none
  | .commit =>
      match σ.task with
      | .committing tx none =>
          some { σ with
            replica := some tx.db, outbox := tx.outbox, sequence := tx.sequence, task := .idle }
      | .committing tx (some publish) =>
          some { σ with
            replica := some tx.db
            outbox := tx.outbox
            sequence := tx.sequence
            task := .flushing [publish] .done
            history := σ.history ++ [.commit publish.batchId] }
      | _ => none
  -- `purge`
  | .lockPurge =>
      match σ.task with
      | .idle => some { σ with task := .purging }
      | _ => none
  | .remove =>
      match σ.task with
      | .purging => some { σ with replica := none, task := .removed }
      | _ => none
  | .readForTrim =>
      match σ.task with
      | .removed => some { σ with task := .trimming σ.doc }
      | _ => none
  | .trim =>
      match σ.task with
      | .trimming view =>
          some { σ with
            doc := { σ.doc.drop view.ids with deletedAt := true }
            task := .idle
            history := σ.history ++ [.purge] }
      | _ => none
  | .skipTrim =>
      match σ.task with
      | .removed => some { σ with task := .idle, history := σ.history ++ [.purge] }
      | .trimming _ => some { σ with task := .idle, history := σ.history ++ [.purge] }
      | _ => none
  -- an error, or a restart
  | .abort => some { σ with task := .idle }
  -- a device publishes, publishes its schema, or deletes and makes the database again
  | .peer batch behind =>
      if batch.id ∈ σ.issued then none
      else some { σ with doc := σ.doc.insert batch behind, issued := batch.id :: σ.issued }
  | .describe schema schemaVersion deletedAt =>
      some { σ with doc := { σ.doc with schema, schemaVersion, deletedAt } }
  -- passes without the lock
  | .replicate rows db =>
      if σ.task.isWriting = false ∧ Refreshes σ.replica rows db then
        some { σ with replica := some db }
      else none
  | .store existing cursor =>
      (storeCursor σ.row existing cursor).map fun row => { σ with row }
  | .compact ids => some { σ with doc := σ.doc.drop ids }

/-- A new server. -/
def init : Server := ⟨none, [], 0, .default, none, .idle, [], []⟩

def Initial (σ : Server) : Prop := σ = init

end Server

end Realtime.PluginDb.Outbox
