import Realtime.PluginDb.Outbox

/-!
# Server-authored batches are published in order and once

The flush in front of every write leaves the outbox empty, so there is never
more than one row in it, the one of the last commit. Two things break the
promises: a purge leaves the second file with its rows behind, and where the
document cannot be read `publish_own_batch` takes the log for empty.
-/

namespace Realtime.PluginDb.Outbox

open Lib

/-- The effect may come behind those of the past. -/
def Allowed (past : List Event) : Event → Prop
  | .commit i => .commit i ∉ past
  | .append i =>
      .commit i ∈ past ∧ (∀ j, Precedes past (.commit j) (.commit i) → .append j ∈ past) ∧
        ¬Precedes past (.commit i) .purge
  | .delete i => .append i ∈ past ∧ .store i ∈ past
  | _ => True

namespace Server

/-- What is promised of a state and of the effects that led to it. -/
structure Sound (σ : Server) : Prop where
  once : ∀ i, .commit i ∈ σ.history → σ.doc.ids.count i ≤ 1
  lawful : Lawful Allowed σ.history
  committed : ∀ p ∈ σ.outbox, .commit p.batchId ∈ σ.history
  failed : ∀ db batchId σ₁ σ₂ σ₃, σ.step .begin = some σ₁ →
    (σ₂ = σ₁ ∨ σ₁.step (.execute db batchId) = some σ₂) → σ₂.step .abort = some σ₃ →
    σ₃.replica = σ.replica ∧ σ₃.outbox = σ.outbox

/-- What a step must find. -/
def Clean (σ : Server) : Act → Prop
  | .remove => σ.outbox = []
  | .readFails => ∀ publish todo next, σ.task = .flushing (publish :: todo) next →
      publish.batchId ∉ σ.doc.ids
  | _ => True

end Server

/-! ## The invariant -/

/-- What the operation with the lock has seen. -/
def Task.Holds (σ : Server) : Task → Prop
  | .flushing todo _ => σ.outbox = todo
  | .publishing view publish todo _ =>
      σ.outbox = publish :: todo ∧
        (publish.batchId ∉ view.ids → publish.batchId ∉ σ.doc.ids) ∧
        (publish.batchId ∈ view.ids → .append publish.batchId ∈ σ.history)
  | .appended publish todo _ =>
      σ.outbox = publish :: todo ∧ .append publish.batchId ∈ σ.history
  | .acknowledged publish todo _ =>
      σ.outbox = publish :: todo ∧ .append publish.batchId ∈ σ.history ∧
        .store publish.batchId ∈ σ.history
  | .refreshing _ | .refreshed _ | .ready | .removed | .trimming _ => σ.outbox = []
  | .transaction tx => σ.outbox = [] ∧ tx.outbox = []
  | .committing tx publish =>
      σ.outbox = [] ∧ tx.outbox = publish.toList ∧
        ∀ p ∈ publish, p.batchId ∈ σ.issued ∧ p.batchId ∉ σ.doc.ids ∧
          .commit p.batchId ∉ σ.history
  | _ => True

/-- A committed batch is in the log once, or it waits in the outbox as the only one. -/
structure Inv (σ : Server) : Prop where
  lawful : Lawful Allowed σ.history
  issued : ∀ i, .commit i ∈ σ.history → i ∈ σ.issued
  ids : ∀ i ∈ σ.doc.ids, i ∈ σ.issued
  once : ∀ i, .commit i ∈ σ.history → σ.doc.ids.count i ≤ 1
  logged : ∀ i, .commit i ∈ σ.history → i ∈ σ.doc.ids → .append i ∈ σ.history
  single : σ.outbox.length ≤ 1
  committed : ∀ p ∈ σ.outbox, .commit p.batchId ∈ σ.history
  pending : ∀ i, .commit i ∈ σ.history → .append i ∈ σ.history ∨ ∃ p ∈ σ.outbox, p.batchId = i
  unpurged : ∀ p ∈ σ.outbox, ¬Precedes σ.history (.commit p.batchId) .purge
  replica : σ.replica = none → σ.outbox = []
  task : σ.task.Holds σ

variable {σ σ' : Server}

theorem Inv.init : Inv Server.init where
  lawful := lawful_nil Allowed
  issued _ h := absurd h List.not_mem_nil
  ids _ h := absurd h List.not_mem_nil
  once _ h := absurd h List.not_mem_nil
  logged _ h := absurd h List.not_mem_nil
  single := Nat.zero_le 1
  committed _ h := absurd h List.not_mem_nil
  pending _ h := absurd h List.not_mem_nil
  unpurged _ h := absurd h List.not_mem_nil
  replica _ := rfl
  task := trivial

theorem Inv.commit_once (h : Inv σ) (i : String) :
    ¬Precedes σ.history (.commit i) (.commit i) := by
  rintro ⟨past, later, hsplit, hmem⟩
  exact h.lawful past _ later hsplit hmem

/-- Another task, where it holds what it is to hold. -/
theorem Inv.withTask (h : Inv σ) {task : Task} (htask : task.Holds { σ with task }) :
    Inv { σ with task } :=
  { h with task := htask }

theorem Inv.holds (h : Inv σ) {task : Task} (htask : σ.task = task) : task.Holds σ :=
  htask ▸ h.task

theorem Task.Holds.doc {task : Task} {doc : DocView} {issued : List String} (h : task.Holds σ)
    (hcommitted : ∀ p ∈ σ.outbox, p.batchId ∈ σ.issued) (hissued : σ.issued ⊆ issued)
    (hkeep : ∀ i ∈ σ.issued, i ∈ doc.ids → i ∈ σ.doc.ids) :
    task.Holds { σ with doc, issued } := by
  cases task with
  | publishing view publish todo next =>
      obtain ⟨hout, hunseen, hseen⟩ := h
      refine ⟨hout, fun hview hdoc => hunseen hview (hkeep _ ?_ hdoc), hseen⟩
      exact hcommitted publish (hout ▸ List.mem_cons_self)
  | committing tx publish =>
      obtain ⟨hout, htx, hfresh⟩ := h
      refine ⟨hout, htx, fun p hp => ?_⟩
      obtain ⟨hmem, hdoc, hcommit⟩ := hfresh p hp
      exact ⟨hissued hmem, fun hin => hdoc (hkeep _ hmem hin), hcommit⟩
  | _ => exact h

/-- The document changes where no id of the server is put in. -/
theorem Inv.doc (h : Inv σ) {doc : DocView} {issued : List String} (hissued : σ.issued ⊆ issued)
    (hids : ∀ i ∈ doc.ids, i ∈ issued)
    (hcount : ∀ i ∈ σ.issued, doc.ids.count i ≤ σ.doc.ids.count i) :
    Inv { σ with doc, issued } := by
  have hkeep : ∀ i ∈ σ.issued, i ∈ doc.ids → i ∈ σ.doc.ids := by
    intro i hi hin
    have hpos : 0 < doc.ids.count i := List.count_pos_iff.mpr hin
    exact List.count_pos_iff.mp (hpos.trans_le (hcount i hi))
  exact
    { h with
      issued := fun i hi => hissued (h.issued i hi)
      ids := hids
      once := fun i hi => (hcount i (h.issued i hi)).trans (h.once i hi)
      logged := fun i hi hin => h.logged i hi (hkeep i (h.issued i hi) hin)
      task := h.task.doc (fun p hp => h.issued _ (h.committed p hp)) hissued hkeep }

theorem ids_insert (doc : DocView) (batch : Batch) (behind : Nat) :
    (doc.insert batch behind).ids.Perm (batch.id :: doc.ids) := by
  have hperm : (doc.insert batch behind).batches.Perm (batch :: doc.batches) := by
    show (doc.batches.take behind ++ batch :: doc.batches.drop behind).Perm _
    refine List.perm_middle.trans ?_
    rw [List.take_append_drop]
  exact hperm.map _

theorem ids_drop_sublist (doc : DocView) (ids : List String) :
    (doc.drop ids).ids.Sublist doc.ids :=
  List.filter_sublist.map _

theorem Inv.peer (h : Inv σ) {batch : Batch} (hfresh : batch.id ∉ σ.issued) (behind : Nat) :
    Inv { σ with doc := σ.doc.insert batch behind, issued := batch.id :: σ.issued } := by
  refine h.doc (List.subset_cons_self _ _) (fun i hi => ?_) fun i hi => ?_
  · rcases List.mem_cons.mp ((ids_insert σ.doc batch behind).mem_iff.mp hi) with rfl | hi
    · exact List.mem_cons_self
    · exact List.mem_cons_of_mem _ (h.ids i hi)
  · have hne : batch.id ≠ i := fun heq => hfresh (heq ▸ hi)
    rw [(ids_insert σ.doc batch behind).count_eq, List.count_cons_of_ne hne]

theorem Inv.drop (h : Inv σ) (ids : List String) : Inv { σ with doc := σ.doc.drop ids } :=
  h.doc (List.Subset.refl _) (fun i hi => h.ids i ((ids_drop_sublist σ.doc ids).subset hi))
    fun i _ => (ids_drop_sublist σ.doc ids).count_le i

/-! ## The effects -/

/-- An effect other than a commit that is allowed adds nothing to what is pending. -/
theorem Inv.effect (h : Inv σ) {e : Event} (hok : Allowed σ.history e) (hne : ∀ i, e ≠ .commit i)
    (hpurge : e = .purge → σ.outbox = []) {task : Task}
    (htask : task.Holds { σ with task, history := σ.history ++ [e] }) :
    Inv { σ with task, history := σ.history ++ [e] } := by
  have hcommit {i : String} (hi : Event.commit i ∈ σ.history ++ [e]) : .commit i ∈ σ.history := by
    rcases List.mem_append.mp hi with hi | hi
    · exact hi
    · exact absurd (List.mem_singleton.mp hi).symm (hne i)
  exact
    { h with
      lawful := h.lawful.concat hok
      issued := fun i hi => h.issued i (hcommit hi)
      once := fun i hi => h.once i (hcommit hi)
      logged := fun i hi hin => List.mem_append_left _ (h.logged i (hcommit hi) hin)
      committed := fun p hp => List.mem_append_left _ (h.committed p hp)
      pending := fun i hi => (h.pending i (hcommit hi)).imp_left (List.mem_append_left _)
      unpurged := by
        intro p hp hprec
        rcases precedes_concat hprec with hprec | ⟨heq, -⟩
        · exact h.unpurged p hp hprec
        · have hnone := hpurge heq.symm
          exact List.not_mem_nil (hnone ▸ hp)
      task := htask }

theorem Inv.outbox_eq (h : Inv σ) {p : PendingPublish} {todo : List PendingPublish}
    (hout : σ.outbox = p :: todo) : todo = [] := by
  have hlength := h.single
  rw [hout, List.length_cons] at hlength
  exact List.eq_nil_of_length_eq_zero (by omega)

/-- The only row may be published: what was committed before it has been. -/
theorem Inv.allowed_append (h : Inv σ) {p : PendingPublish} (hout : σ.outbox = [p]) :
    Allowed σ.history (.append p.batchId) := by
  have hp : p ∈ σ.outbox := hout ▸ List.mem_cons_self
  refine ⟨h.committed p hp, fun j hprec => ?_, h.unpurged p hp⟩
  rcases h.pending j hprec.mem with happended | ⟨q, hq, rfl⟩
  · exact happended
  · obtain rfl : q = p := List.mem_singleton.mp (hout ▸ hq)
    exact absurd hprec (h.commit_once _)

theorem Inv.append (h : Inv σ) {view : DocView} {p : PendingPublish} {todo : List PendingPublish}
    {next : Next} (htask : σ.task = .publishing view p todo next) (hview : p.batchId ∉ view.ids)
    (behind : Nat) :
    Inv { σ with
      doc := σ.doc.insert (ownBatch view p) behind
      task := .appended p todo next
      history := σ.history ++ [.append p.batchId] } := by
  obtain ⟨hout, hunseen, -⟩ := h.holds htask
  have hdoc := hunseen hview
  have hids : (σ.doc.insert (ownBatch view p) behind).ids.Perm (p.batchId :: σ.doc.ids) :=
    ids_insert σ.doc (ownBatch view p) behind
  have hsingle := h.outbox_eq hout
  subst hsingle
  have heffect : Inv { σ with
      task := .appended p [] next
      history := σ.history ++ [.append p.batchId] } :=
    h.effect (h.allowed_append hout) (fun i => nofun) nofun
      ⟨hout, List.mem_append_right _ List.mem_cons_self⟩
  have hcommit := h.committed p (hout ▸ List.mem_cons_self)
  refine
    { heffect with
      ids := fun i hi => ?_
      once := fun i hi => ?_
      logged := fun i hi hin => ?_ }
  · rcases List.mem_cons.mp (hids.mem_iff.mp hi) with rfl | hi
    · exact h.issued _ hcommit
    · exact h.ids i hi
  · rw [hids.count_eq]
    by_cases heq : p.batchId = i
    · subst heq
      rw [List.count_cons_self, List.count_eq_zero_of_not_mem hdoc]
    · rw [List.count_cons_of_ne heq]
      exact heffect.once i hi
  · rcases List.mem_cons.mp (hids.mem_iff.mp hin) with rfl | hin
    · exact List.mem_append_right _ List.mem_cons_self
    · exact heffect.logged i hi hin

theorem Inv.delete (h : Inv σ) {p : PendingPublish} {todo : List PendingPublish} {next : Next}
    (htask : σ.task = .acknowledged p todo next) :
    Inv { σ with
      outbox := deletePendingPublish p σ.outbox
      task := .flushing todo next
      history := σ.history ++ [.delete p.batchId] } := by
  obtain ⟨hout, happended, hstored⟩ := h.holds htask
  have hsingle := h.outbox_eq hout
  subst hsingle
  have hnone : deletePendingPublish p σ.outbox = [] := by
    rw [hout]
    simp [deletePendingPublish]
  have heffect : Inv { σ with task := .idle, history := σ.history ++ [.delete p.batchId] } :=
    h.effect (e := .delete p.batchId)
      (show Allowed σ.history (.delete p.batchId) from ⟨happended, hstored⟩) (fun i => nofun)
      nofun trivial
  rw [hnone]
  refine
    { heffect with
      single := Nat.zero_le 1
      committed := nofun
      pending := fun i hi => ?_
      unpurged := nofun
      replica := fun _ => rfl
      task := rfl }
  rcases heffect.pending i hi with hi | ⟨q, hq, rfl⟩
  · exact .inl hi
  · obtain rfl : q = p := List.mem_singleton.mp (hout ▸ hq)
    exact .inl (List.mem_append_left _ happended)

theorem Inv.commit (h : Inv σ) {tx : Tx} {p : PendingPublish}
    (htask : σ.task = .committing tx (some p)) :
    Inv { σ with
      replica := some tx.db
      outbox := tx.outbox
      sequence := tx.sequence
      task := .flushing [p] .done
      history := σ.history ++ [.commit p.batchId] } := by
  obtain ⟨hout, htx, hfresh⟩ := h.holds htask
  obtain ⟨hissued, hdoc, hcommit⟩ := hfresh p rfl
  have hcases {i : String} (hi : Event.commit i ∈ σ.history ++ [.commit p.batchId]) :
      .commit i ∈ σ.history ∨ i = p.batchId := by
    rcases List.mem_append.mp hi with hi | hi
    · exact .inl hi
    · exact .inr (Event.commit.inj (List.mem_singleton.mp hi))
  rw [htx]
  exact
    { lawful := h.lawful.concat hcommit
      issued := fun i hi => (hcases hi).elim (h.issued i) fun heq => heq ▸ hissued
      ids := h.ids
      once := by
        intro i hi
        rcases hcases hi with hi | rfl
        · exact h.once i hi
        · exact (List.count_eq_zero_of_not_mem hdoc).trans_le (Nat.zero_le 1)
      logged := by
        intro i hi hin
        rcases hcases hi with hi | rfl
        · exact List.mem_append_left _ (h.logged i hi hin)
        · exact absurd hin hdoc
      single := le_rfl
      committed := by
        intro q hq
        obtain rfl := List.mem_singleton.mp hq
        exact List.mem_append_right _ List.mem_cons_self
      pending := by
        intro i hi
        rcases hcases hi with hi | rfl
        · rcases h.pending i hi with hi | ⟨q, hq, -⟩
          · exact .inl (List.mem_append_left _ hi)
          · exact absurd (hout ▸ hq) List.not_mem_nil
        · exact .inr ⟨p, List.mem_cons_self, rfl⟩
      unpurged := by
        intro q hq hprec
        obtain rfl := List.mem_singleton.mp hq
        rcases precedes_concat hprec with hprec | ⟨heq, -⟩
        · exact hcommit hprec.mem
        · cases heq
      replica := nofun
      task := rfl }

/-! ## Every step -/

theorem Inv.execute (h : Inv σ) {tx : Tx} (htask : σ.task = .transaction tx) {db : Db}
    {batchId : String} (hfresh : batchId ∉ σ.issued) (rows : List ChangeRow) :
    Inv { σ with
      task := .committing (insertPendingPublish { tx with db } batchId rows).2
        (some (insertPendingPublish { tx with db } batchId rows).1)
      issued := batchId :: σ.issued } := by
  obtain ⟨hout, htx⟩ := h.holds htask
  have hissued : Inv { σ with issued := batchId :: σ.issued } :=
    h.doc (List.subset_cons_self _ _) (fun i hi => List.mem_cons_of_mem _ (h.ids i hi))
      fun i _ => le_rfl
  refine hissued.withTask ⟨hout, ?_, fun p hp => ?_⟩
  · show tx.outbox ++ [_] = _
    rw [htx]
    rfl
  · obtain rfl := Option.some_inj.mp hp
    exact ⟨List.mem_cons_self, fun hin => hfresh (h.ids _ hin), fun hin => hfresh (h.issued _ hin)⟩

theorem loadPendingPublishes_of_single {outbox : List PendingPublish} (h : outbox.length ≤ 1) :
    loadPendingPublishes outbox = outbox := by
  match outbox, h with
  | [], _ => exact List.mergeSort_nil
  | [p], _ => exact List.mergeSort_singleton p

theorem inv_step {a : Act} (h : Inv σ) (hclean : σ.Clean a) (hstep : σ.step a = some σ') :
    Inv σ' := by
  cases a with
  | lock next =>
      rw [Server.step] at hstep
      split at hstep
      · cases hstep
        exact h.withTask trivial
      · cases hstep
  | load =>
      rw [Server.step] at hstep
      split at hstep
      · next htask =>
          cases hstep
          refine h.withTask ?_
          by_cases hreplica : σ.replica.isSome
          · rw [if_pos hreplica, loadPendingPublishes_of_single h.single]
            exact rfl
          · rw [if_neg hreplica]
            exact h.replica (Option.not_isSome_iff_eq_none.mp hreplica)
      · cases hstep
  | proceed =>
      rw [Server.step] at hstep
      split at hstep
      · next htask =>
          cases hstep
          exact h.withTask trivial
      · next htask =>
          cases hstep
          exact h.withTask (h.holds htask)
      · next htask =>
          split at hstep
          · cases hstep
          · cases hstep
            exact h.withTask (h.holds htask)
      · cases hstep
  | read =>
      rw [Server.step] at hstep
      split at hstep
      · next htask =>
          cases hstep
          refine h.withTask ⟨h.holds htask, id, fun hin => ?_⟩
          have hout : σ.outbox = _ := h.holds htask
          -- a waiting batch that is in the document was appended, by a pass that ended early
          exact h.logged _ (h.committed _ (hout ▸ List.mem_cons_self)) hin
      · cases hstep
  | readFails =>
      rw [Server.step] at hstep
      split at hstep
      · next publish todo next htask =>
          cases hstep
          -- the pass goes on as if nothing had been appended: `Clean` says that is so
          exact h.withTask ⟨h.holds htask, fun _ => hclean _ _ _ htask, nofun⟩
      · cases hstep
  | append behind =>
      rw [Server.step] at hstep
      split at hstep
      · next view publish todo next htask =>
          split at hstep
          · next hseen =>
              cases hstep
              obtain ⟨hout, -, happended⟩ := h.holds htask
              exact h.withTask ⟨hout, happended hseen⟩
          · next hunseen =>
              cases hstep
              exact h.append htask hunseen behind
      · cases hstep
  | acknowledge loaded existing =>
      rw [Server.step] at hstep
      split at hstep
      · next publish todo next htask =>
          obtain ⟨row, -, rfl⟩ := Option.map_eq_some_iff.mp hstep
          obtain ⟨hout, happended⟩ := h.holds htask
          -- the cursor is stored behind the append
          have heffect : Inv { σ with
              task := .acknowledged publish todo next
              history := σ.history ++ [.store publish.batchId] } :=
            h.effect (e := .store publish.batchId) trivial (fun i => nofun) nofun
              ⟨hout, List.mem_append_left _ happended, List.mem_append_right _ List.mem_cons_self⟩
          exact { heffect with task := heffect.task }
      · cases hstep
  | delete =>
      rw [Server.step] at hstep
      split at hstep
      · next htask =>
          cases hstep
          exact h.delete htask
      · cases hstep
  | refresh loaded db =>
      rw [Server.step] at hstep
      split at hstep
      · next view htask =>
          dsimp only at hstep
          split at hstep
          · cases hstep
            have hout : σ.outbox = [] := h.holds htask
            exact { h with replica := nofun, task := hout }
          · cases hstep
      · cases hstep
  | storeRefreshed existing =>
      rw [Server.step] at hstep
      split at hstep
      · next cursor htask =>
          obtain ⟨row, -, rfl⟩ := Option.map_eq_some_iff.mp hstep
          have hout : σ.outbox = [] := h.holds htask
          exact { h with task := hout }
      · cases hstep
  | begin =>
      rw [Server.step] at hstep
      split at hstep
      · next htask =>
          obtain ⟨db, -, rfl⟩ := Option.map_eq_some_iff.mp hstep
          have hout : σ.outbox = [] := h.holds htask
          exact h.withTask ⟨hout, hout⟩
      · cases hstep
  | execute db batchId =>
      rw [Server.step] at hstep
      split at hstep
      · next tx htask =>
          dsimp only at hstep
          split at hstep
          · split at hstep
            · cases hstep
              obtain ⟨hout, htx⟩ := h.holds htask
              exact h.withTask ⟨hout, htx, nofun⟩
            · split at hstep
              · cases hstep
              · next hfresh =>
                  cases hstep
                  exact h.execute htask hfresh _
          · cases hstep
      · cases hstep
  | commit =>
      rw [Server.step] at hstep
      split at hstep
      · next tx htask =>
          cases hstep
          obtain ⟨hout, htx, -⟩ := h.holds htask
          -- without rows to publish the outbox stays empty
          have hsame : tx.outbox = σ.outbox := htx.trans hout.symm
          rw [hsame]
          exact { h with replica := nofun, task := trivial }
      · next tx publish htask =>
          cases hstep
          exact h.commit htask
      · cases hstep
  | lockPurge =>
      rw [Server.step] at hstep
      split at hstep
      · cases hstep
        exact h.withTask trivial
      · cases hstep
  | remove =>
      rw [Server.step] at hstep
      split at hstep
      · cases hstep
        -- the outbox file survives the purge: by `Clean` there is nothing in it
        exact { h with replica := fun _ => hclean, task := hclean }
      · cases hstep
  | readForTrim =>
      rw [Server.step] at hstep
      split at hstep
      · next htask =>
          cases hstep
          have hout : σ.outbox = [] := h.holds htask
          exact h.withTask hout
      · cases hstep
  | trim =>
      rw [Server.step] at hstep
      split at hstep
      · next view htask =>
          cases hstep
          -- batches that came after the read stay
          have hsub := ids_drop_sublist σ.doc view.ids
          have hdrop : Inv { σ with doc := { σ.doc.drop view.ids with deletedAt := true } } :=
            h.doc (List.Subset.refl _) (fun i hi => h.ids i (hsub.subset hi))
              fun i _ => hsub.count_le i
          exact hdrop.effect (e := .purge) trivial (fun i => nofun) (fun _ => h.holds htask) trivial
      · cases hstep
  | skipTrim =>
      rw [Server.step] at hstep
      split at hstep
      · next htask =>
          cases hstep
          exact h.effect (e := .purge) trivial (fun i => nofun) (fun _ => h.holds htask) trivial
      · next htask =>
          cases hstep
          exact h.effect (e := .purge) trivial (fun i => nofun) (fun _ => h.holds htask) trivial
      · cases hstep
  | abort =>
      rw [Server.step] at hstep
      cases hstep
      exact h.withTask trivial
  | peer batch behind =>
      rw [Server.step] at hstep
      split at hstep
      · cases hstep
      · next hfresh =>
          cases hstep
          exact h.peer hfresh behind
  | describe schema schemaVersion deletedAt =>
      rw [Server.step] at hstep
      cases hstep
      exact h.doc (List.Subset.refl _) h.ids fun i _ => le_rfl
  | replicate rows db =>
      rw [Server.step] at hstep
      split at hstep
      · cases hstep
        exact { h with replica := nofun, task := h.task }
      · cases hstep
  | store existing cursor =>
      rw [Server.step] at hstep
      obtain ⟨row, -, rfl⟩ := Option.map_eq_some_iff.mp hstep
      exact { h with task := h.task }
  | compact ids =>
      rw [Server.step] at hstep
      cases hstep
      exact h.drop ids

namespace Server

/-- A transaction that does not commit leaves the replica and the outbox as they were. -/
theorem failed_frame {db : Db} {batchId : String} {σ₁ σ₂ σ₃ : Server}
    (hbegin : σ.step .begin = some σ₁)
    (hexecute : σ₂ = σ₁ ∨ σ₁.step (.execute db batchId) = some σ₂)
    (habort : σ₂.step .abort = some σ₃) : σ₃.replica = σ.replica ∧ σ₃.outbox = σ.outbox := by
  have hframe₁ : σ₁.replica = σ.replica ∧ σ₁.outbox = σ.outbox := by
    rw [step] at hbegin
    split at hbegin
    · obtain ⟨tx, -, rfl⟩ := Option.map_eq_some_iff.mp hbegin
      exact ⟨rfl, rfl⟩
    · cases hbegin
  have hframe₂ : σ₂.replica = σ₁.replica ∧ σ₂.outbox = σ₁.outbox := by
    rcases hexecute with rfl | hexecute
    · exact ⟨rfl, rfl⟩
    · rw [step] at hexecute
      split at hexecute
      · dsimp only at hexecute
        split at hexecute
        · split at hexecute
          · cases hexecute
            exact ⟨rfl, rfl⟩
          · split at hexecute
            · cases hexecute
            · cases hexecute
              exact ⟨rfl, rfl⟩
        · cases hexecute
      · cases hexecute
  have hframe₃ : σ₃ = { σ₂ with task := .idle } := (Option.some_inj.mp habort).symm
  rw [hframe₃]
  exact ⟨hframe₂.1.trans hframe₁.1, hframe₂.2.trans hframe₁.2⟩

end Server

theorem Inv.sound (h : Inv σ) : σ.Sound where
  once := h.once
  lawful := h.lawful
  committed := h.committed
  failed _ _ _ _ _ hbegin hexecute habort := Server.failed_frame hbegin hexecute habort

/-- In every run whose purges find the outbox empty, and in which the document
is read wherever the batch to publish is in it, what is promised holds. -/
theorem published_in_order
    (h : Lib.Reach Server.Initial (Where Server.Clean (Takes Server.step)) σ) : σ.Sound := by
  have hinit : ∀ s, Server.Initial s → Inv s := by
    rintro s rfl
    exact Inv.init
  have hstep : ∀ s a s', Inv s → Where Server.Clean (Takes Server.step) s a s' → Inv s' :=
    fun s a s' hinv hstep => inv_step hinv hstep.1 hstep.2
  exact (h.invariant hinit hstep).sound

/-! ## A write of one row -/

/-- The replica after the schema of a device. -/
def described : Db := ⟨"server", 0, []⟩

/-- The replica after `INSERT INTO tasks VALUES (1, 'a')`. -/
def written : Db :=
  ⟨"server", 1, [⟨"tasks", "AQkB", "title", "\"a\"", 1, 1, "server", 1, 0⟩]⟩

/-- `execute_sql` up to where it has read the document to publish its batch. -/
def writes : List Act :=
  [.describe ["CREATE TABLE tasks (id PRIMARY KEY NOT NULL, title)"] 1 false, .lock .execute,
    .load, .proceed, .refresh none described, .storeRefreshed none, .begin, .execute written "b",
    .commit, .read]

/-- The append fails and `flush_pending` makes up for it. -/
def retried : List Act :=
  [.abort, .lock .done, .load, .read, .append 0, .acknowledge none (some []), .delete, .proceed,
    .lockPurge]

theorem published_in_order_retried :
    ∃ σ, Lib.Reach Server.Initial (Where Server.Clean (Takes Server.step)) σ ∧
      σ.history = [.commit "b", .append "b", .store "b", .delete "b", .purge] ∧ σ.Sound := by
  have hfirst : ((writes ++ retried).foldlM Server.step Server.init).map
      (fun σ => (σ.outbox, σ.task, σ.history)) =
      some ([], .purging, [.commit "b", .append "b", .store "b", .delete "b"]) := by
    decide +kernel
  obtain ⟨σ, hrun, hσ⟩ := Option.map_eq_some_iff.mp hfirst
  obtain ⟨hout, htask, hhistory⟩ : σ.outbox = [] ∧ σ.task = .purging ∧
      σ.history = [.commit "b", .append "b", .store "b", .delete "b"] := by
    simpa only [Prod.mk.injEq] using hσ
  have hclean : ∀ a ∈ writes ++ retried, ∀ s : Server, s.Clean a := by
    simp [writes, retried, Server.Clean]
  have hreach : Lib.Reach Server.Initial (Where Server.Clean (Takes Server.step)) σ :=
    Lib.Reach.run_where (.start rfl) hrun (meets_of_forall hclean _)
  have hremove : σ.step .remove = some { σ with replica := none, task := .removed } := by
    rw [Server.step, htask]
  have hwhere : Where Server.Clean (Takes Server.step) σ .remove
      { σ with replica := none, task := .removed } := ⟨hout, hremove⟩
  have hskip : Where Server.Clean (Takes Server.step) { σ with replica := none, task := .removed }
      .skipTrim
      { σ with replica := none, task := .idle, history := σ.history ++ [.purge] } :=
    ⟨trivial, rfl⟩
  have hpurged := (hreach.step hwhere).step hskip
  refine ⟨_, hpurged, ?_, published_in_order hpurged⟩
  show σ.history ++ [.purge] = _
  rw [hhistory]
  rfl

/-- The append fails and the database is purged; once a replica is there again,
`flush_pending` publishes the batch. -/
def resurrected : List Act :=
  [.abort, .lockPurge, .remove, .readForTrim, .trim, .replicate [] described, .lock .done, .load,
    .read, .append 0]

/-- The cursor is not stored and the document not read: the batch is appended twice. -/
def doubled : List Act :=
  [.append 0, .abort, .lock .done, .load, .readFails, .append 0]

theorem not_published_in_order :
    (∃ σ, Lib.Reach Server.Initial (Takes Server.step) σ ∧ ¬Lawful Allowed σ.history) ∧
      ∃ σ, Lib.Reach Server.Initial (Takes Server.step) σ ∧
        ∃ i, .commit i ∈ σ.history ∧ ¬σ.doc.ids.count i ≤ 1 := by
  constructor
  · have hrun : ((writes ++ resurrected).foldlM Server.step Server.init).map (·.history) =
        some [.commit "b", .purge, .append "b"] := by
      decide +kernel
    obtain ⟨σ, hrun, hhistory⟩ := Option.map_eq_some_iff.mp hrun
    refine ⟨σ, Lib.Reach.run (.start rfl) hrun, fun hlaw => ?_⟩
    obtain ⟨-, -, hpurged⟩ := hlaw [.commit "b", .purge] (.append "b") [] hhistory
    exact hpurged ⟨[.commit "b"], [], rfl, List.mem_cons_self⟩
  · have hrun : ((writes ++ doubled).foldlM Server.step Server.init).map
        (fun σ => (σ.doc.ids, σ.history)) =
        some (["b", "b"], [.commit "b", .append "b", .append "b"]) := by
      decide +kernel
    obtain ⟨σ, hrun, hσ⟩ := Option.map_eq_some_iff.mp hrun
    obtain ⟨hids, hhistory⟩ := Prod.mk.inj hσ
    refine ⟨σ, Lib.Reach.run (.start rfl) hrun, "b", hhistory ▸ List.mem_cons_self, ?_⟩
    rw [hids]
    decide

end Realtime.PluginDb.Outbox
