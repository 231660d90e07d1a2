import Realtime.Vault.BootstrapEvents

/-!
# The plan of the bootstrap log

The log follows the vault through every sequence of events, and its plan can be
executed from the files the window opened with: deletes first, then renames onto
paths that are free by then, then the rest. Renames that wait for each other in a
circle become edits in place.
-/

namespace Realtime.Vault

open Lib

/-! ## The log follows the vault -/

/-- The file of `origin` is now at `path`. -/
def World.At (w : World) (origin path : Path) : Prop :=
  ∃ a, Assoc.get path w = some a ∧ a.origin = some origin

/-- What the log says about the vault. -/
structure Tracks (paths : List Path) (log : BootstrapEventLog) (w : World) : Prop where
  wf : Assoc.Wf w
  files : ∀ p q a b, Assoc.get p w = some a → Assoc.get q w = some b → a.file = b.file → p = q
  origins : ∀ o p q, w.At o p → w.At o q → p = q
  known : ∀ o p, w.At o p → o ∈ paths
  currentWf : Assoc.Wf log.current
  entry : ∀ p e, Assoc.get p log.current = some e →
    ∃ a, Assoc.get p w = some a ∧ e.origin = a.origin ∧ e.file = a.file
  untouched : ∀ p a, Assoc.get p log.current = none → Assoc.get p w = some a →
    a.origin = some p
  deletedNodup : log.deleted.Nodup
  deleted : ∀ o, o ∈ log.deleted ↔ o ∈ paths ∧ ∀ p, ¬w.At o p
  moved : ∀ o, (Assoc.get o log.movedFrom).isSome ↔ ∃ p, p ≠ o ∧ w.At o p

variable {paths : List Path} {log : BootstrapEventLog} {w : World}

theorem World.has_iff (hwf : Assoc.Wf w) (o : Path) : w.Has o ↔ ∃ p, w.At o p := by
  constructor
  · rintro ⟨e, he, horigin⟩
    exact ⟨e.1, e.2, Assoc.get_of_mem hwf he, horigin⟩
  · rintro ⟨p, a, ha, horigin⟩
    exact ⟨(p, a), Assoc.mem_of_get ha, horigin⟩

theorem World.at_set {path : Path} {a : Occupant} (hfree : Assoc.get path w = none) (o p : Path) :
    World.At (Assoc.set path a w) o p ↔ w.At o p ∨ (path = p ∧ a.origin = some o) := by
  unfold World.At
  rw [Assoc.get_set]
  by_cases hp : path = p
  · subst hp
    simp [hfree]
  · simp [hp]

theorem World.at_erase (path o p : Path) :
    World.At (Assoc.erase path w) o p ↔ path ≠ p ∧ w.At o p := by
  unfold World.At
  rw [Assoc.get_erase]
  by_cases hp : path = p
  · simp [hp]
  · simp [hp]

theorem World.At.unique {o o' p : Path} (h : w.At o p) (h' : w.At o' p) : o = o' := by
  obtain ⟨a, ha, horigin⟩ := h
  obtain ⟨a', ha', horigin'⟩ := h'
  obtain rfl := Option.some.inj (ha.symm.trans ha')
  exact Option.some.inj (horigin.symm.trans horigin')

/-- The log knows where the file of an occupied path comes from. -/
theorem Tracks.originOf (h : Tracks paths log w) {path : Path} {a : Occupant}
    (ha : Assoc.get path w = some a) : log.originOf path = a.origin := by
  rw [BootstrapEventLog.originOf]
  split
  · rename_i e he
    obtain ⟨a', ha', horigin, -⟩ := h.entry path e he
    rw [ha] at ha'
    rw [horigin, Option.some.inj ha']
  · rename_i hnone
    exact (h.untouched path a hnone ha).symm

/-- Nothing is captured at a free path. -/
theorem Tracks.get_current (h : Tracks paths log w) {path : Path}
    (hfree : Assoc.get path w = none) : Assoc.get path log.current = none := by
  cases he : Assoc.get path log.current with
  | none => rfl
  | some e =>
      obtain ⟨a, ha, -⟩ := h.entry path e he
      rw [hfree] at ha
      cases ha

theorem Tracks.create (h : Tracks paths log w) {path : Path} {file : FileId}
    (hreports : w.Reports (.create path file)) :
    Tracks paths (log.create path file) (w.step paths (.create path file)) := by
  obtain ⟨hfree, hfresh⟩ := hreports
  have hfresh' : ∀ p a, Assoc.get p w = some a → a.file ≠ file :=
    fun p a ha => hfresh (p, a) (Assoc.mem_of_get ha)
  have hreplaces : (path ∈ paths ∧ ¬w.Has path) ↔ path ∈ log.deleted := by
    rw [h.deleted, World.has_iff h.wf, not_exists]
  rw [World.step, BootstrapEventLog.create]
  simp only [hreplaces]
  have hat := World.at_set (w := w) (a := ⟨file, if path ∈ log.deleted then some path else none⟩)
    hfree
  refine
    { wf := Assoc.wf_set h.wf
      files := ?_
      origins := ?_
      known := ?_
      currentWf := Assoc.wf_set h.currentWf
      entry := ?_
      untouched := ?_
      deletedNodup := h.deletedNodup.filter _
      deleted := ?_
      moved := ?_ }
  · grind [Assoc.get_set, h.files]
  · intro o p q
    rw [hat, hat]
    grind [h.origins, h.deleted]
  · intro o p
    rw [hat]
    grind [h.known, h.deleted]
  · intro p e he
    rw [Assoc.get_set] at he ⊢
    split at he
    · rename_i hp
      obtain rfl := Option.some.inj he
      rw [if_pos hp]
      exact ⟨_, rfl, by simp, rfl⟩
    · rename_i hp
      rw [if_neg hp]
      exact h.entry p e he
  · grind [Assoc.get_set, h.untouched]
  · intro o
    simp only [hat]
    grind [h.deleted]
  · intro o
    simp only [hat]
    grind [h.moved]

theorem Tracks.modify (h : Tracks paths log w) {path : Path} {file : FileId}
    (hreports : w.Reports (.modify path file)) :
    Tracks paths (log.modify path file) (w.step paths (.modify path file)) := by
  obtain ⟨a, ha, rfl⟩ := hreports
  rw [World.step, BootstrapEventLog.modify]
  split
  · rename_i e he
    obtain ⟨a', ha', horigin, -⟩ := h.entry path e he
    obtain rfl := Option.some.inj (ha.symm.trans ha')
    refine { h with currentWf := Assoc.wf_set h.currentWf, entry := ?_, untouched := ?_ }
    · intro p e' he'
      rw [Assoc.get_set] at he'
      split at he'
      · rename_i hp
        obtain rfl := Option.some.inj he'
        exact ⟨a, hp ▸ ha, horigin, rfl⟩
      · exact h.entry p e' he'
    · grind [Assoc.get_set, h.untouched]
  · rename_i hnone
    refine { h with currentWf := Assoc.wf_set h.currentWf, entry := ?_, untouched := ?_ }
    · intro p e' he'
      rw [Assoc.get_set] at he'
      split at he'
      · rename_i hp
        obtain rfl := Option.some.inj he'
        exact ⟨a, hp ▸ ha, (h.untouched path a hnone ha).symm, rfl⟩
      · exact h.entry p e' he'
    · grind [Assoc.get_set, h.untouched]

theorem Tracks.delete (h : Tracks paths log w) {path : Path}
    (hreports : w.Reports (.delete path)) :
    Tracks paths (log.delete path) (w.step paths (.delete path)) := by
  obtain ⟨a, ha⟩ := Option.isSome_iff_exists.mp hreports
  have hat := World.at_erase (w := w) path
  have hentry : ∀ p e, Assoc.get p (Assoc.erase path log.current) = some e →
      ∃ a, Assoc.get p (Assoc.erase path w) = some a ∧ e.origin = a.origin ∧ e.file = a.file := by
    intro p e he
    rw [Assoc.get_erase] at he ⊢
    split at he
    · cases he
    · rename_i hp
      rw [if_neg hp]
      exact h.entry p e he
  rw [World.step, BootstrapEventLog.delete, h.originOf ha]
  cases horigin : a.origin with
  | none =>
      have hnone : ∀ o, ¬w.At o path := by
        rintro o ⟨a', ha', ho⟩
        obtain rfl := Option.some.inj (ha.symm.trans ha')
        rw [horigin] at ho
        cases ho
      refine
        { wf := Assoc.wf_erase h.wf
          files := ?_
          origins := ?_
          known := ?_
          currentWf := Assoc.wf_erase h.currentWf
          entry := hentry
          untouched := ?_
          deletedNodup := h.deletedNodup
          deleted := ?_
          moved := ?_ }
      · grind [Assoc.get_erase, h.files]
      · grind [h.origins]
      · grind [h.known]
      · grind [Assoc.get_erase, h.untouched]
      · intro o
        simp only [hat]
        grind [h.deleted]
      · intro o
        simp only [hat]
        grind [h.moved]
  | some origin =>
      have hpath : w.At origin path := ⟨a, ha, horigin⟩
      refine
        { wf := Assoc.wf_erase h.wf
          files := ?_
          origins := ?_
          known := ?_
          currentWf := Assoc.wf_erase h.currentWf
          entry := hentry
          untouched := ?_
          deletedNodup := ?_
          deleted := ?_
          moved := ?_ }
      · grind [Assoc.get_erase, h.files]
      · grind [h.origins]
      · grind [h.known]
      · grind [Assoc.get_erase, h.untouched]
      · dsimp only
        split
        · exact h.deletedNodup
        · rename_i hnot
          exact List.nodup_append.mpr ⟨h.deletedNodup, List.nodup_singleton _, by grind⟩
      · intro o
        simp only [hat]
        grind [h.deleted, h.origins, h.known, hpath.unique]
      · intro o
        simp only [hat, Assoc.get_erase]
        grind [h.moved, h.origins, hpath.unique]

theorem Tracks.rename (h : Tracks paths log w) {oldPath newPath : Path} {file : FileId}
    (hreports : w.Reports (.rename oldPath newPath file)) :
    Tracks paths (log.rename oldPath newPath file)
      (w.step paths (.rename oldPath newPath file)) := by
  obtain ⟨hfree, a, ha, rfl⟩ := hreports
  have hne : oldPath ≠ newPath := by
    rintro rfl
    rw [hfree] at ha
    cases ha
  have hfree' : Assoc.get newPath (Assoc.erase oldPath w) = none := by
    rw [Assoc.get_erase_ne hne]
    exact hfree
  -- where the origins are after the rename
  have hat : ∀ o p, World.At (Assoc.set newPath a (Assoc.erase oldPath w)) o p ↔
      (oldPath ≠ p ∧ w.At o p) ∨ (newPath = p ∧ a.origin = some o) := by
    intro o p
    rw [World.at_set hfree', World.at_erase]
  have hold : ∀ o, w.At o oldPath ↔ a.origin = some o := by
    intro o
    simp [World.At, ha]
  have hnew : ∀ o, ¬w.At o newPath := by
    intro o
    simp [World.At, hfree]
  have hentry : ∀ modified p e, Assoc.get p (Assoc.set newPath ⟨a.origin, a.file, modified⟩
      (Assoc.erase oldPath log.current)) = some e →
      ∃ b, Assoc.get p (Assoc.set newPath a (Assoc.erase oldPath w)) = some b ∧
        e.origin = b.origin ∧ e.file = b.file := by
    intro modified p e he
    rw [Assoc.get_set, Assoc.get_erase] at he ⊢
    split at he
    · rename_i hp
      obtain rfl := Option.some.inj he
      rw [if_pos hp]
      exact ⟨a, rfl, rfl, rfl⟩
    · rename_i hp
      rw [if_neg hp]
      split at he
      · cases he
      · rename_i hp'
        rw [if_neg hp']
        exact h.entry p e he
  rw [World.step, ha, BootstrapEventLog.rename, h.originOf ha]
  dsimp only
  -- only `movedFrom` depends on where the file came from
  have hcommon : ∀ movedFrom modified, (∀ o, (Assoc.get o movedFrom).isSome ↔
      ∃ p, p ≠ o ∧ World.At (Assoc.set newPath a (Assoc.erase oldPath w)) o p) →
      Tracks paths ⟨Assoc.set newPath ⟨a.origin, a.file, modified⟩
        (Assoc.erase oldPath log.current), movedFrom, log.deleted⟩
        (Assoc.set newPath a (Assoc.erase oldPath w)) := by
    intro movedFrom modified hmoved
    refine
      { wf := Assoc.wf_set (Assoc.wf_erase h.wf)
        files := ?_
        origins := ?_
        known := ?_
        currentWf := Assoc.wf_set (Assoc.wf_erase h.currentWf)
        entry := hentry modified
        untouched := ?_
        deletedNodup := h.deletedNodup
        deleted := ?_
        moved := hmoved }
    · grind [Assoc.get_set, Assoc.get_erase, h.files]
    · grind [h.origins]
    · grind [h.known]
    · grind [Assoc.get_set, Assoc.get_erase, h.untouched]
    · intro o
      simp only [hat]
      grind [h.deleted]
  split
  · rename_i horigin
    refine hcommon _ _ fun o => ?_
    simp only [hat]
    grind [h.moved]
  · rename_i origin horigin
    refine hcommon _ _ fun o => ?_
    have hat' : ∀ p, World.At (Assoc.set newPath a (Assoc.erase oldPath w)) o p ↔
        if o = origin then p = newPath else w.At o p := by
      intro p
      rw [hat]
      split
      · grind [h.origins]
      · grind
    simp only [hat']
    by_cases ho : o = origin
    · subst ho
      -- a file that is back where it came from has not moved
      by_cases hback : o = newPath
      · simp [hback]
      · simp [hback, Ne.symm hback]
    · simp only [if_neg ho]
      rw [← h.moved]
      split
      · rw [Assoc.get_erase_ne (Ne.symm ho)]
      · rw [Assoc.get_set_ne (Ne.symm ho)]

theorem Tracks.step (h : Tracks paths log w) {event : VaultEvent} (hreports : w.Reports event) :
    Tracks paths (log.step event) (w.step paths event) := by
  cases event with
  | create path file => exact h.create hreports
  | modify path file => exact h.modify hreports
  | delete path => exact h.delete hreports
  | rename oldPath newPath file => exact h.rename hreports

theorem Tracks.run (h : Tracks paths log w) {events : List VaultEvent}
    (hreports : w.ReportsAll paths events) :
    Tracks paths (events.foldl BootstrapEventLog.step log) (w.run paths events) := by
  induction events generalizing log w with
  | nil => exact h
  | cons event events ih => exact ih (h.step hreports.1) hreports.2

theorem World.get_opened (files : List (Path × FileId)) (path : Path) :
    Assoc.get path (World.opened files) =
      (Assoc.get path files).map fun file => ⟨file, some path⟩ :=
  Assoc.get_mapEntries (fun path file => (⟨file, some path⟩ : Occupant)) path files

theorem Tracks.opened {files : List (Path × FileId)} (hwf : Assoc.Wf files)
    (hfiles : (files.map Prod.snd).Nodup) :
    Tracks (Assoc.keys files) .empty (World.opened files) := by
  have hat : ∀ o p, (World.opened files).At o p ↔ o = p ∧ (Assoc.get p files).isSome := by
    intro o p
    rw [World.At, World.get_opened]
    cases Assoc.get p files with
    | none => simp
    | some file => simp [eq_comm]
  refine
    { wf := ?_
      files := ?_
      origins := ?_
      known := ?_
      currentWf := Assoc.wf_nil
      entry := fun p e he => nomatch he
      untouched := ?_
      deletedNodup := List.nodup_nil
      deleted := ?_
      moved := ?_ }
  · have hkeys : Assoc.keys (World.opened files) = Assoc.keys files := by
      unfold Assoc.keys World.opened
      rw [List.map_map]
      rfl
    rw [Assoc.Wf, hkeys]
    exact hwf
  · intro p q a b ha hb hfile
    rw [World.get_opened] at ha hb
    obtain ⟨f, hf, rfl⟩ := Option.map_eq_some_iff.mp ha
    obtain ⟨g, hg, rfl⟩ := Option.map_eq_some_iff.mp hb
    have heq := List.inj_on_of_nodup_map hfiles (Assoc.mem_of_get hf) (Assoc.mem_of_get hg) hfile
    exact (Prod.mk.inj heq).1
  · grind
  · intro o p hop
    rw [hat] at hop
    exact Assoc.get_isSome_iff.mp (hop.1 ▸ hop.2)
  · intro p a _ ha
    rw [World.get_opened] at ha
    obtain ⟨f, -, rfl⟩ := Option.map_eq_some_iff.mp ha
    rfl
  · intro o
    simp only [hat]
    grind [BootstrapEventLog.empty, Assoc.get_isSome_iff]
  · intro o
    simp only [hat]
    grind [BootstrapEventLog.empty, Assoc.get_nil]

/-! ## Renames -/

/-- A file has moved from one path to another. -/
def World.Moves (w : World) (o p : Path) : Prop := o ≠ p ∧ w.At o p

/-- The files of these paths have moved in a circle. -/
def World.OnCycle (w : World) (o : Path) : Prop := Relation.TransGen w.Moves o o

theorem World.pathOf_eq (hwf : Assoc.Wf w)
    (hfiles : ∀ p q a b, Assoc.get p w = some a → Assoc.get q w = some b → a.file = b.file → p = q)
    {p : Path} {a : Occupant} (ha : Assoc.get p w = some a) : w.pathOf a.file = some p := by
  rw [World.pathOf]
  cases hfind : w.find? fun e => e.2.file = a.file with
  | none =>
      have := List.find?_eq_none.mp hfind (p, a) (Assoc.mem_of_get ha)
      simp at this
  | some e =>
      have hmem := Assoc.get_of_mem hwf (List.mem_of_find?_eq_some hfind)
      have hfile : e.2.file = a.file := by simpa using List.find?_some hfind
      rw [Option.map_some, hfiles _ _ _ _ hmem ha hfile]

/-- What the renames of a plan are. -/
structure Routes (w : World) (renames : List Rename) : Prop where
  nodup : renames.Nodup
  moves : ∀ r ∈ renames, w.Moves r.origin r.target
  file : ∀ r ∈ renames, ∃ a, Assoc.get r.target w = some a ∧ a.file = r.file
  all : ∀ o p, w.Moves o p → ∃ r ∈ renames, r.origin = o ∧ r.target = p
  pathOf : ∀ r ∈ renames, w.pathOf r.file = some r.target
  originInj : ∀ r ∈ renames, ∀ r' ∈ renames, r.origin = r'.origin → r = r'
  targetInj : ∀ r ∈ renames, ∀ r' ∈ renames, r.target = r'.target → r = r'

theorem mem_pendingRenames (hwf : Assoc.Wf log.current) {r : Rename} :
    r ∈ log.pendingRenames ↔ ∃ e, Assoc.get r.target log.current = some e ∧
      e.origin = some r.origin ∧ r.origin ≠ r.target ∧ e.file = r.file := by
  rw [BootstrapEventLog.pendingRenames, List.mem_filterMap]
  constructor
  · rintro ⟨⟨path, e⟩, he, hr⟩
    split at hr
    · rename_i origin horigin
      split at hr
      · rename_i hne
        obtain rfl := Option.some.inj hr
        exact ⟨e, Assoc.get_of_mem hwf he, horigin, hne, rfl⟩
      · cases hr
    · cases hr
  · rintro ⟨e, he, horigin, hne, hfile⟩
    refine ⟨(r.target, e), Assoc.mem_of_get he, ?_⟩
    simp [horigin, hne, hfile]

theorem nodup_pendingRenames (hwf : Assoc.Wf log.current) : log.pendingRenames.Nodup := by
  have hsublist : (log.pendingRenames.map Rename.target).Sublist (Assoc.keys log.current) := by
    unfold BootstrapEventLog.pendingRenames
    induction log.current with
    | nil => exact .slnil
    | cons e rest ih =>
        rw [List.filterMap_cons]
        split
        · exact ih.cons _
        · rename_i r hr
          have htarget : r.target = e.1 := by
            split at hr
            · split at hr
              · rw [← Option.some.inj hr]
              · cases hr
            · cases hr
          rw [List.map_cons, htarget]
          exact ih.cons_cons _
  exact List.Nodup.of_map _ (hwf.sublist hsublist)

theorem Tracks.routes (h : Tracks paths log w) : Routes w log.pendingRenames := by
  have hmem := @mem_pendingRenames log h.currentWf
  have hocc : ∀ r ∈ log.pendingRenames, ∃ a, Assoc.get r.target w = some a ∧
      a.origin = some r.origin ∧ r.origin ≠ r.target ∧ a.file = r.file := by
    intro r hr
    obtain ⟨e, he, horigin, hne, hfile⟩ := hmem.mp hr
    obtain ⟨a, ha, horigin', hfile'⟩ := h.entry _ e he
    exact ⟨a, ha, horigin' ▸ horigin, hne, hfile' ▸ hfile⟩
  have htarget : ∀ r ∈ log.pendingRenames, ∀ r' ∈ log.pendingRenames, r.target = r'.target →
      r = r' := by
    intro r hr r' hr' heq
    obtain ⟨e, he, horigin, -, hfile⟩ := hmem.mp hr
    obtain ⟨e', he', horigin', -, hfile'⟩ := hmem.mp hr'
    rw [heq, he'] at he
    obtain rfl := Option.some.inj he
    obtain ⟨o, t, f⟩ := r
    obtain ⟨o', t', f'⟩ := r'
    simp_all
  refine
    { nodup := nodup_pendingRenames h.currentWf
      moves := ?_
      file := ?_
      all := ?_
      pathOf := ?_
      originInj := ?_
      targetInj := htarget }
  · intro r hr
    obtain ⟨a, ha, horigin, hne, -⟩ := hocc r hr
    exact ⟨hne, a, ha, horigin⟩
  · intro r hr
    obtain ⟨a, ha, -, -, hfile⟩ := hocc r hr
    exact ⟨a, ha, hfile⟩
  · rintro o p ⟨hne, a, ha, horigin⟩
    cases he : Assoc.get p log.current with
    | none =>
        have := h.untouched p a he ha
        exact absurd (Option.some.inj (horigin.symm.trans this)) hne
    | some e =>
        obtain ⟨a', ha', horigin', hfile⟩ := h.entry p e he
        obtain rfl := Option.some.inj (ha.symm.trans ha')
        exact ⟨⟨o, p, e.file⟩, hmem.mpr ⟨e, he, horigin' ▸ horigin, hne, rfl⟩, rfl, rfl⟩
  · intro r hr
    obtain ⟨a, ha, -, -, hfile⟩ := hocc r hr
    rw [← hfile]
    exact World.pathOf_eq h.wf h.files ha
  · intro r hr r' hr' heq
    obtain ⟨a, ha, horigin, -⟩ := hocc r hr
    obtain ⟨a', ha', horigin', -⟩ := hocc r' hr'
    exact htarget r hr r' hr' (h.origins _ _ _ ⟨a, ha, horigin⟩ ⟨a', ha', heq ▸ horigin'⟩)

/-! ## Executing the renames -/

section Renames

variable {renames : List Rename} {files : List (Path × FileId)}

/-- The file that is at a path once everything has moved. -/
def carried (w : World) (files : List (Path × FileId)) (path : Path) : Option FileId :=
  match Assoc.get path w with
  | some ⟨_, some origin⟩ => Assoc.get origin files
  | _ => none

theorem carried_of_at {o p : Path} (h : w.At o p) : carried w files p = Assoc.get o files := by
  obtain ⟨⟨file, origin⟩, ha, horigin⟩ := h
  dsimp only at horigin
  rw [carried, ha, horigin]

theorem carried_of_not_at {p : Path} (h : ∀ o, ¬w.At o p) : carried w files p = none := by
  rw [carried]
  split
  · rename_i file origin ha
    exact absurd ⟨_, ha, rfl⟩ (h origin)
  · rfl

/-- The files while some of the renames are still to come. -/
structure Midway (w : World) (files : List (Path × FileId)) (renames : List Rename)
    (pending : Set Rename) (now : List (Path × FileId)) : Prop where
  subset : ∀ r ∈ pending, r ∈ renames
  /-- No file has moved to a path that another one has yet to leave. -/
  closed : ∀ r ∈ pending, ∀ r' ∈ renames, r'.target = r.origin → r' ∈ pending
  waiting : ∀ r ∈ pending, Assoc.get r.origin now = Assoc.get r.origin files
  vacant : ∀ r ∈ pending, (∀ r' ∈ pending, r'.origin ≠ r.target) → Assoc.get r.target now = none
  done : ∀ path, (∀ r ∈ pending, r.origin ≠ path ∧ r.target ≠ path) →
    Assoc.get path now = carried w files path

/-- A rename onto a path that nothing has to leave. -/
theorem Midway.rename (hroutes : Routes w renames)
    (hknown : ∀ o p, w.At o p → (Assoc.get o files).isSome)
    (horigins : ∀ o p q, w.At o p → w.At o q → p = q) {pending : Set Rename}
    {now : List (Path × FileId)} (h : Midway w files renames pending now) {r : Rename}
    (hr : r ∈ pending) (hready : ∀ r' ∈ pending, r'.origin ≠ r.target) :
    ∃ now', execStep w now (.rename r.origin r.file) = some now' ∧
      Midway w files renames (pending \ {r}) now' := by
  have hmem := h.subset r hr
  obtain ⟨hne, hat⟩ := hroutes.moves r hmem
  obtain ⟨file, hfile⟩ := Option.isSome_iff_exists.mp (hknown _ _ hat)
  have hsource : Assoc.get r.origin now = some file := (h.waiting r hr).trans hfile
  have hfree := h.vacant r hr hready
  have hget : ∀ path, Assoc.get path (Assoc.set r.target file (Assoc.erase r.origin now)) =
      if r.target = path then some file
      else if r.origin = path then none else Assoc.get path now := by
    intro path
    rw [Assoc.get_set, Assoc.get_erase]
  refine ⟨Assoc.set r.target file (Assoc.erase r.origin now), ?_, ?_⟩
  · simp [execStep, hroutes.pathOf r hmem, hsource, hfree]
  · refine ⟨fun r' hr' => h.subset r' hr'.1, ?_, ?_, ?_, ?_⟩
    · intro r₁ hr₁ r' hr' htarget
      refine ⟨h.closed r₁ hr₁.1 r' hr' htarget, ?_⟩
      rintro rfl
      exact hready r₁ hr₁.1 htarget.symm
    · intro r₁ hr₁
      have hother : r.origin ≠ r₁.origin := fun heq =>
        hr₁.2 (hroutes.originInj r₁ (h.subset _ hr₁.1) r hmem heq.symm)
      rw [hget, if_neg (hready r₁ hr₁.1).symm, if_neg hother]
      exact h.waiting r₁ hr₁.1
    · intro r₁ hr₁ hready₁
      have hother : r.target ≠ r₁.target := fun heq =>
        hr₁.2 (hroutes.targetInj r₁ (h.subset _ hr₁.1) r hmem heq.symm)
      rw [hget, if_neg hother]
      split
      · rfl
      · rename_i horigin
        refine h.vacant r₁ hr₁.1 fun r' hr' heq => ?_
        by_cases hrr : r' = r
        · exact horigin (hrr ▸ heq)
        · exact hready₁ r' ⟨hr', hrr⟩ heq
    · intro path hpath
      rw [hget]
      by_cases htarget : r.target = path
      · rw [if_pos htarget, ← htarget, carried_of_at hat, hfile]
      · rw [if_neg htarget]
        by_cases horigin : r.origin = path
        · -- whatever is to come here would still be pending
          rw [if_pos horigin, carried_of_not_at]
          intro o ho
          by_cases hself : o = path
          · subst hself
            rw [← horigin] at ho
            exact hne (horigins _ _ _ ho hat)
          · obtain ⟨r', hr', -, htarget'⟩ := hroutes.all o path ⟨hself, ho⟩
            have hpending := h.closed r hr r' hr' (htarget'.trans horigin.symm)
            refine (hpath r' ⟨hpending, ?_⟩).2 htarget'
            rintro rfl
            exact htarget htarget'
        · rw [if_neg horigin]
          refine h.done path fun r' hr' => ?_
          by_cases hrr : r' = r
          · exact ⟨hrr ▸ horigin, hrr ▸ htarget⟩
          · exact hpath r' ⟨hr', hrr⟩

/-- One round of the loop. -/
theorem Midway.round (hroutes : Routes w renames)
    (hknown : ∀ o p, w.At o p → (Assoc.get o files).isSome)
    (horigins : ∀ o p q, w.At o p → w.At o q → p = q) {list : List Rename} (hnodup : list.Nodup)
    {pending : Set Rename} {now : List (Path × FileId)}
    (h : Midway w files renames pending now)
    (hready : ∀ r ∈ list, r ∈ pending ∧ ∀ r' ∈ pending, r'.origin ≠ r.target) :
    ∃ now', exec w (list.map fun r => .rename r.origin r.file) now = some now' ∧
      Midway w files renames (pending \ {r | r ∈ list}) now' := by
  induction list generalizing pending now with
  | nil => exact ⟨now, rfl, by simpa using h⟩
  | cons r list ih =>
      obtain ⟨hfresh, hnodup⟩ := List.nodup_cons.mp hnodup
      obtain ⟨hr, hfree⟩ := hready r List.mem_cons_self
      obtain ⟨now₁, hstep, h₁⟩ := h.rename hroutes hknown horigins hr hfree
      have hready₁ : ∀ r' ∈ list, r' ∈ pending \ {r} ∧
          ∀ r'' ∈ pending \ {r}, r''.origin ≠ r'.target := by
        intro r' hr'
        obtain ⟨hpending, hfree'⟩ := hready r' (List.mem_cons_of_mem _ hr')
        refine ⟨⟨hpending, ?_⟩, fun r'' hr'' => hfree' r'' hr''.1⟩
        rintro rfl
        exact hfresh hr'
      obtain ⟨now', hexec, h'⟩ := ih hnodup h₁ hready₁
      refine ⟨now', ?_, ?_⟩
      · rw [List.map_cons, exec, hstep]
        exact hexec
      · have hset : pending \ {r' | r' ∈ r :: list} = (pending \ {r}) \ {r' | r' ∈ list} := by
          ext r'
          simp [not_or, and_assoc]
        rw [hset]
        exact h'

/-- What the loop leaves, and what it has done to the others. -/
theorem Midway.rounds (hroutes : Routes w renames)
    (hknown : ∀ o p, w.At o p → (Assoc.get o files).isSome)
    (horigins : ∀ o p q, w.At o p → w.At o q → p = q) {pending : List Rename}
    (hnodup : pending.Nodup) {now : List (Path × FileId)}
    (h : Midway w files renames {r | r ∈ pending} now) :
    ∃ now', exec w ((BootstrapEventLog.renameRounds pending).1.map fun r =>
        .rename r.origin r.file) now = some now' ∧
      Midway w files renames {r | r ∈ (BootstrapEventLog.renameRounds pending).2} now' := by
  induction pending using BootstrapEventLog.renameRounds.induct generalizing now with
  | case1 pending hnone =>
      rw [BootstrapEventLog.renameRounds, if_pos hnone]
      exact ⟨now, rfl, h⟩
  | case2 pending hsome ih =>
      rw [BootstrapEventLog.renameRounds, if_neg hsome]
      have hready : ∀ r ∈ BootstrapEventLog.ready pending, r ∈ {r | r ∈ pending} ∧
          ∀ r' ∈ {r | r ∈ pending}, r'.origin ≠ r.target := by
        intro r hr
        obtain ⟨hmem, htarget⟩ := List.mem_filter.mp hr
        refine ⟨hmem, fun r' hr' heq => ?_⟩
        exact of_decide_eq_true htarget (heq ▸ List.mem_map_of_mem hr')
      have hready_nodup : (BootstrapEventLog.ready pending).Nodup :=
        hnodup.sublist List.filter_sublist
      obtain ⟨now₁, hexec₁, h₁⟩ := h.round hroutes hknown horigins hready_nodup hready
      have hset : {r | r ∈ pending} \ {r | r ∈ BootstrapEventLog.ready pending} =
          {r | r ∈ BootstrapEventLog.blocked pending} := by
        ext r
        simp only [BootstrapEventLog.ready, BootstrapEventLog.blocked, List.mem_filter,
          Set.mem_sdiff, Set.mem_ofPred_eq, decide_eq_true_eq]
        tauto
      rw [hset] at h₁
      obtain ⟨now', hexec, h'⟩ := ih (hnodup.sublist List.filter_sublist) h₁
      refine ⟨now', ?_, h'⟩
      rw [List.map_append, exec_append hexec₁]
      exact hexec

theorem mem_renameRounds {pending : List Rename} {r : Rename} (hr : r ∈ pending) :
    r ∈ (BootstrapEventLog.renameRounds pending).1 ∨
      r ∈ (BootstrapEventLog.renameRounds pending).2 := by
  induction pending using BootstrapEventLog.renameRounds.induct with
  | case1 pending hnone =>
      rw [BootstrapEventLog.renameRounds, if_pos hnone]
      exact .inr hr
  | case2 pending hsome ih =>
      rw [BootstrapEventLog.renameRounds, if_neg hsome]
      by_cases htarget : r.target ∈ pending.map Rename.origin
      · rcases ih (List.mem_filter.mpr ⟨hr, by simpa using htarget⟩) with h | h
        · exact .inl (List.mem_append_right _ h)
        · exact .inr h
      · exact .inl (List.mem_append_left _ (List.mem_filter.mpr ⟨hr, by simpa using htarget⟩))

/-- The renames that are left wait for each other. -/
theorem target_mem_swapped (pending : List Rename) :
    ∀ r ∈ (BootstrapEventLog.renameRounds pending).2, ∃ r' ∈
      (BootstrapEventLog.renameRounds pending).2, r'.origin = r.target := by
  induction pending using BootstrapEventLog.renameRounds.induct with
  | case1 pending hnone =>
      rw [BootstrapEventLog.renameRounds, if_pos hnone]
      intro r hr
      by_contra hfree
      have hready : r ∈ BootstrapEventLog.ready pending := by
        refine List.mem_filter.mpr ⟨hr, ?_⟩
        simpa using hfree
      rw [hnone] at hready
      cases hready
  | case2 pending hsome ih =>
      rw [BootstrapEventLog.renameRounds, if_neg hsome]
      exact ih

theorem swapped_subset (pending : List Rename) :
    ∀ r ∈ (BootstrapEventLog.renameRounds pending).2, r ∈ pending := by
  induction pending using BootstrapEventLog.renameRounds.induct with
  | case1 pending hnone =>
      rw [BootstrapEventLog.renameRounds, if_pos hnone]
      exact fun _ h => h
  | case2 pending hsome ih =>
      rw [BootstrapEventLog.renameRounds, if_neg hsome]
      exact fun r hr => (List.mem_filter.mp (ih r hr)).1

/-- What is left is on circles: following a target to the rename that leaves it
permutes the rest. -/
theorem onCycle_of_swapped (hroutes : Routes w renames) {r : Rename}
    (hr : r ∈ (BootstrapEventLog.renameRounds renames).2) : w.OnCycle r.origin := by
  let Left := { r // r ∈ (BootstrapEventLog.renameRounds renames).2 }
  have hmem : ∀ x : Left, x.1 ∈ renames := fun x => swapped_subset renames x.1 x.2
  choose next hnext horigin using fun x : Left => target_mem_swapped renames x.1 x.2
  let follow : Left → Left := fun x => ⟨next x, hnext x⟩
  have hinj : Function.Injective follow := by
    intro x y hxy
    apply Subtype.ext
    apply hroutes.targetInj _ (hmem x) _ (hmem y)
    rw [← horigin x, ← horigin y, show next x = next y from congrArg Subtype.val hxy]
  have hfinite : Finite Left :=
    (List.finite_toSet (BootstrapEventLog.renameRounds renames).2).to_subtype
  have hreach : ∀ n (x : Left),
      Relation.TransGen w.Moves x.1.origin (follow^[n + 1] x).1.origin := by
    intro n
    induction n with
    | zero =>
        intro x
        refine .single ?_
        show w.Moves x.1.origin (next x).origin
        rw [horigin x]
        exact hroutes.moves _ (hmem x)
    | succ n ih =>
        intro x
        rw [Function.iterate_succ_apply']
        refine (ih x).tail ?_
        show w.Moves _ (next _).origin
        rw [horigin]
        exact hroutes.moves _ (hmem _)
  obtain ⟨n, hpos, hperiod⟩ := hinj.mem_periodicPts (⟨r, hr⟩ : Left)
  obtain ⟨k, rfl⟩ := Nat.exists_eq_succ_of_ne_zero (Nat.pos_iff_ne_zero.mp hpos)
  have := hreach k ⟨r, hr⟩
  rwa [show follow^[k + 1] ⟨r, hr⟩ = ⟨r, hr⟩ from hperiod] at this

/-- A file that moves onto a circle is on it. -/
theorem World.OnCycle.next (horigins : ∀ o p q, w.At o p → w.At o q → p = q) {o p : Path}
    (h : w.OnCycle o) (hmove : w.Moves o p) : w.OnCycle p ∧ ∃ q, w.Moves p q := by
  obtain ⟨p', hp', hback⟩ := Relation.TransGen.head'_iff.mp h
  obtain rfl := horigins _ _ _ hmove.2 hp'.2
  refine ⟨Relation.TransGen.trans_right hback (.single hmove), ?_⟩
  rcases Relation.ReflTransGen.cases_head hback with heq | ⟨q, hq, -⟩
  · exact absurd heq.symm hmove.1
  · exact ⟨q, hq⟩

theorem swapped_of_onCycle (hroutes : Routes w renames)
    (horigins : ∀ o p q, w.At o p → w.At o q → p = q) {r : Rename} (hr : r ∈ renames)
    (hcycle : w.OnCycle r.origin) : r ∈ (BootstrapEventLog.renameRounds renames).2 := by
  -- the renames of a circle stay until the loop ends
  have hstay : ∀ pending : List Rename, (∀ r ∈ pending, r ∈ renames) →
      (∀ r ∈ renames, w.OnCycle r.origin → r ∈ pending) →
      ∀ r ∈ renames, w.OnCycle r.origin → r ∈ (BootstrapEventLog.renameRounds pending).2 := by
    intro pending
    induction pending using BootstrapEventLog.renameRounds.induct with
    | case1 pending hnone =>
        intro _ hall
        rw [BootstrapEventLog.renameRounds, if_pos hnone]
        exact hall
    | case2 pending hsome ih =>
        intro hsubset hall
        rw [BootstrapEventLog.renameRounds, if_neg hsome]
        refine ih (fun r hr => hsubset r (List.mem_filter.mp hr).1) fun r hr hcycle => ?_
        obtain ⟨hnext, q, hq⟩ := hcycle.next horigins (hroutes.moves r hr)
        obtain ⟨r', hr', horigin, -⟩ := hroutes.all _ _ hq
        have hpending := hall r' hr' (horigin.symm ▸ hnext)
        refine List.mem_filter.mpr ⟨hall r hr hcycle, ?_⟩
        simpa [← horigin] using ⟨r', hpending, rfl⟩
  exact hstay renames (fun _ h => h) (fun _ h _ => h) r hr hcycle

end Renames

/-! ## The other steps -/

theorem exec_deletes {deleted : List Path} (hnodup : deleted.Nodup) {files : List (Path × FileId)}
    (hpresent : ∀ path ∈ deleted, (Assoc.get path files).isSome) :
    ∃ now, exec w (deleted.map .delete) files = some now ∧
      ∀ path, Assoc.get path now = if path ∈ deleted then none else Assoc.get path files := by
  induction deleted generalizing files with
  | nil => exact ⟨files, rfl, by simp⟩
  | cons path deleted ih =>
      obtain ⟨hfresh, hnodup⟩ := List.nodup_cons.mp hnodup
      obtain ⟨file, hfile⟩ := Option.isSome_iff_exists.mp (hpresent path List.mem_cons_self)
      have hpresent' : ∀ p ∈ deleted, (Assoc.get p (Assoc.erase path files)).isSome := by
        intro p hp
        rw [Assoc.get_erase_ne]
        · exact hpresent p (List.mem_cons_of_mem _ hp)
        · rintro rfl
          exact hfresh hp
      obtain ⟨now, hexec, hnow⟩ := ih hnodup hpresent'
      refine ⟨now, ?_, fun p => ?_⟩
      · rw [List.map_cons, exec, execStep, hfile]
        exact hexec
      · rw [hnow, Assoc.get_erase]
        grind

/-- A new file is created where nothing is. -/
theorem execStep_create {e : Path × CapturedPath} (hpath : w.pathOf e.2.file = some e.1)
    {files : List (Path × FileId)} (hfree : Assoc.get e.1 files = none) :
    execStep w files (.create e.2.file) = some (Assoc.set e.1 e.2.file files) := by
  simp [execStep, hpath, hfree]

theorem execStep_modify {path : Path} {file : FileId} (hpath : w.pathOf file = some path)
    {files : List (Path × FileId)} (hthere : (Assoc.get path files).isSome) :
    execStep w files (.modify file) = some files := by
  obtain ⟨f, hf⟩ := Option.isSome_iff_exists.mp hthere
  simp [execStep, hpath, hf]

/-- What is at a path once the new files are there. -/
def withNew (entries : List (Path × CapturedPath)) (files : List (Path × FileId)) (path : Path) :
    Option FileId :=
  match Assoc.get path entries with
  | some ⟨none, file, _⟩ => some file
  | _ => Assoc.get path files

theorem exec_inPlaceSteps {entries : List (Path × CapturedPath)} (hwf : Assoc.Wf entries)
    (hpath : ∀ e ∈ entries, w.pathOf e.2.file = some e.1) {files : List (Path × FileId)}
    (hfree : ∀ e ∈ entries, e.2.origin = none → Assoc.get e.1 files = none)
    (hthere : ∀ e ∈ entries, e.2.origin = some e.1 → (Assoc.get e.1 files).isSome) :
    ∃ now, exec w (entries.filterMap BootstrapEventLog.entryStep) files = some now ∧
      ∀ path, Assoc.get path now = withNew entries files path := by
  induction entries generalizing files with
  | nil => exact ⟨files, rfl, fun _ => rfl⟩
  | cons e entries ih =>
      obtain ⟨hfresh, hwf'⟩ := Assoc.wf_cons.mp hwf
      have hother : ∀ e' ∈ entries, e.1 ≠ e'.1 := fun e' he' heq =>
        hfresh (heq ▸ List.mem_map_of_mem he')
      have htarget := hpath e List.mem_cons_self
      have hpath' : ∀ e' ∈ entries, w.pathOf e'.2.file = some e'.1 :=
        fun e' he' => hpath e' (List.mem_cons_of_mem _ he')
      have hnone : Assoc.get e.1 entries = none := Assoc.get_eq_none_iff.mpr hfresh
      cases horigin : e.2.origin with
      | none =>
          have hempty := hfree e List.mem_cons_self horigin
          have hget : ∀ e' ∈ entries, Assoc.get e'.1 (Assoc.set e.1 e.2.file files) =
              Assoc.get e'.1 files := fun e' he' => Assoc.get_set_ne (hother e' he') _ _
          obtain ⟨now, hexec, hnow⟩ := @ih hwf' hpath' (Assoc.set e.1 e.2.file files)
            (fun e' he' h => (hget e' he').trans (hfree e' (List.mem_cons_of_mem _ he') h))
            (fun e' he' h => hget e' he' ▸ hthere e' (List.mem_cons_of_mem _ he') h)
          refine ⟨now, ?_, fun p => ?_⟩
          · rw [List.filterMap_cons, BootstrapEventLog.entryStep, horigin]
            dsimp only
            rw [exec, execStep_create htarget hempty]
            exact hexec
          · rw [hnow, withNew, withNew, Assoc.get_cons]
            by_cases hp : e.1 = p
            · obtain ⟨path, origin, file, modified⟩ := e
              dsimp only at hp horigin
              subst hp horigin
              rw [if_pos rfl, hnone, Assoc.get_set_self]
            · rw [if_neg hp, Assoc.get_set_ne hp]
      | some o =>
          obtain ⟨now, hexec, hnow⟩ := @ih hwf' hpath' files
            (fun e' he' => hfree e' (List.mem_cons_of_mem _ he'))
            (fun e' he' => hthere e' (List.mem_cons_of_mem _ he'))
          refine ⟨now, ?_, fun p => ?_⟩
          · rw [List.filterMap_cons, BootstrapEventLog.entryStep, horigin]
            dsimp only
            split
            · exact hexec
            · rename_i step hstep
              split at hstep
              · rename_i hmodified
                obtain rfl := Option.some.inj hstep
                have hthere' := hthere e List.mem_cons_self (hmodified.1 ▸ horigin)
                rw [exec, execStep_modify htarget hthere']
                exact hexec
              · cases hstep
          · rw [hnow, withNew, withNew, Assoc.get_cons]
            by_cases hp : e.1 = p
            · obtain ⟨path, origin, file, modified⟩ := e
              dsimp only at hp horigin
              subst hp horigin
              rw [if_pos rfl, hnone]
            · rw [if_neg hp]

theorem exec_modifies {list : List Rename} (hpath : ∀ r ∈ list, w.pathOf r.file = some r.target)
    {files : List (Path × FileId)} (hthere : ∀ r ∈ list, (Assoc.get r.target files).isSome) :
    exec w (list.map fun r => .modify r.file) files = some files := by
  induction list with
  | nil => rfl
  | cons r list ih =>
      rw [List.map_cons, exec, execStep_modify (hpath r List.mem_cons_self)
        (hthere r List.mem_cons_self)]
      exact ih (fun r' hr' => hpath r' (List.mem_cons_of_mem _ hr'))
        fun r' hr' => hthere r' (List.mem_cons_of_mem _ hr')

/-! ## The plan -/

/-- What the plan of a log does to the files the window opened with. -/
structure Reproduces (files : List (Path × FileId)) (log : BootstrapEventLog) (w : World) :
    Prop where
  /-- Every step can be taken, the paths are those of the vault, and a file that is
  on no circle is at its path. -/
  executes : ∃ now, exec w log.plan files = some now ∧
    (∀ path, (Assoc.get path now).isSome ↔ (Assoc.get path w).isSome) ∧
    ∀ o p, w.At o p → ¬w.OnCycle o → Assoc.get p now = Assoc.get o files
  renamed : ∀ o p a, Assoc.get p w = some a → a.origin = some o → o ≠ p → ¬w.OnCycle o →
    .rename o a.file ∈ log.plan
  swapped : ∀ o p a, Assoc.get p w = some a → a.origin = some o → w.OnCycle o →
    .modify a.file ∈ log.plan
  removed : ∀ path, log.removed path ↔ path ∈ Assoc.keys files ∧
    ((∀ p, ¬w.At path p) ∨ ∃ p, p ≠ path ∧ w.At path p) ∧ Assoc.get path w = none

/-- The renames start when the deleted files are gone. -/
theorem Tracks.midway {files : List (Path × FileId)} (h : Tracks (Assoc.keys files) log w)
    {now : List (Path × FileId)} (hnow : ∀ path, Assoc.get path now =
      if path ∈ log.deleted then none else Assoc.get path files) :
    Midway w files log.pendingRenames {r | r ∈ log.pendingRenames} now := by
  have hroutes := h.routes
  have hkept : ∀ o p, w.At o p → o ∉ log.deleted := fun o p hat hdeleted =>
    ((h.deleted o).mp hdeleted).2 p hat
  -- a path that still has its file has not been left
  have hstays : ∀ path, path ∉ log.deleted → (Assoc.get path files).isSome → ∃ p, w.At path p := by
    intro path hdeleted hsome
    by_contra hnone
    exact hdeleted ((h.deleted path).mpr ⟨Assoc.get_isSome_iff.mp hsome, not_exists.mp hnone⟩)
  refine ⟨fun _ hr => hr, fun _ _ r' hr' _ => hr', ?_, ?_, ?_⟩
  · intro r hr
    rw [hnow, if_neg (hkept _ _ (hroutes.moves r hr).2)]
  · intro r hr hfree
    rw [hnow]
    split
    · rfl
    · rename_i hdeleted
      by_contra hsome
      obtain ⟨p, hp⟩ := hstays _ hdeleted (Option.isSome_iff_ne_none.mpr hsome)
      have hne : r.target ≠ p := by
        rintro rfl
        exact (hroutes.moves r hr).1 ((hroutes.moves r hr).2.unique hp)
      obtain ⟨r', hr', horigin, -⟩ := hroutes.all _ _ ⟨hne, hp⟩
      exact hfree r' hr' horigin
  · intro path hpath
    rw [hnow]
    by_cases hself : w.At path path
    · rw [if_neg (hkept _ _ hself), carried_of_at hself]
    · have hnot : ∀ o, ¬w.At o path := by
        intro o ho
        by_cases heq : o = path
        · exact hself (heq ▸ ho)
        · obtain ⟨r, hr, -, htarget⟩ := hroutes.all o path ⟨heq, ho⟩
          exact (hpath r hr).2 htarget
      rw [carried_of_not_at hnot]
      split
      · rfl
      · rename_i hdeleted
        by_contra hsome
        obtain ⟨p, hp⟩ := hstays path hdeleted (Option.isSome_iff_ne_none.mpr hsome)
        by_cases heq : path = p
        · exact hself (heq.symm ▸ hp)
        · obtain ⟨r, hr, horigin, -⟩ := hroutes.all path p ⟨heq, hp⟩
          exact (hpath r hr).1 horigin

/-- A file that is where it was is on no circle. -/
theorem Tracks.moves_of_onCycle (h : Tracks paths log w) {o p : Path} (hat : w.At o p)
    (hcycle : w.OnCycle o) : w.Moves o p := by
  obtain ⟨q, hq, -⟩ := Relation.TransGen.head'_iff.mp hcycle
  rw [h.origins _ _ _ hat hq.2]
  exact hq

section Plan

variable {files now : List (Path × FileId)} {renames swapped : List Rename}

/-- A path that is left on a circle is reached on it. -/
theorem Midway.target_of_origin (hroutes : Routes w renames)
    (hcycle : ∀ r ∈ swapped, w.OnCycle r.origin)
    (h : Midway w files renames {r | r ∈ swapped} now) {r : Rename} (hr : r ∈ swapped) :
    ∃ r' ∈ swapped, r'.target = r.origin := by
  obtain ⟨q, -, hq⟩ := Relation.TransGen.tail'_iff.mp (hcycle r hr)
  obtain ⟨r', hr', -, htarget⟩ := hroutes.all _ _ hq
  exact ⟨r', h.closed r hr r' hr' htarget, htarget⟩

/-- Off the circles, everything is where it belongs. -/
theorem Midway.carried (hroutes : Routes w renames) (hcycle : ∀ r ∈ swapped, w.OnCycle r.origin)
    (h : Midway w files renames {r | r ∈ swapped} now) {path : Path}
    (hpath : ∀ o, w.At o path → ¬w.OnCycle o) :
    Assoc.get path now = carried w files path := by
  have htarget : ∀ r ∈ swapped, r.target ≠ path := by
    rintro r hr rfl
    exact hpath _ (hroutes.moves r (h.subset r hr)).2 (hcycle r hr)
  refine h.done path fun r hr => ⟨?_, htarget r hr⟩
  rintro rfl
  obtain ⟨r', hr', heq⟩ := h.target_of_origin hroutes hcycle hr
  exact htarget r' hr' heq

end Plan

/-- The files when all renames are done. -/
structure Moved (files : List (Path × FileId)) (log : BootstrapEventLog) (w : World)
    (now : List (Path × FileId)) : Prop where
  cycle : ∀ o p, w.At o p → w.OnCycle o → (Assoc.get p now).isSome
  other : ∀ path, (∀ o, w.At o path → ¬w.OnCycle o) → Assoc.get path now = carried w files path

theorem Tracks.moved_files {files : List (Path × FileId)} (h : Tracks (Assoc.keys files) log w) :
    ∃ now, exec w (log.deleted.map .delete ++
        (BootstrapEventLog.renameRounds log.pendingRenames).1.map fun r =>
          .rename r.origin r.file) files = some now ∧ Moved files log w now := by
  have hroutes := h.routes
  have hknown : ∀ o p, w.At o p → (Assoc.get o files).isSome :=
    fun o p hat => Assoc.get_isSome_iff.mpr (h.known o p hat)
  have hdeleted : ∀ path ∈ log.deleted, (Assoc.get path files).isSome :=
    fun path hpath => Assoc.get_isSome_iff.mpr ((h.deleted path).mp hpath).1
  obtain ⟨now₀, hexec₀, hnow₀⟩ := exec_deletes (w := w) h.deletedNodup hdeleted
  obtain ⟨now, hexec, hmid⟩ := (h.midway hnow₀).rounds hroutes hknown h.origins hroutes.nodup
  have hcycle : ∀ r ∈ (BootstrapEventLog.renameRounds log.pendingRenames).2,
      w.OnCycle r.origin := fun r hr => onCycle_of_swapped hroutes hr
  refine ⟨now, (exec_append hexec₀).trans hexec, fun o p hat hon => ?_,
    fun path hpath => hmid.carried hroutes hcycle hpath⟩
  -- the file on a circle is still where it was
  obtain ⟨r, hr, horigin, htarget⟩ := hroutes.all o p (h.moves_of_onCycle hat hon)
  have hswapped := swapped_of_onCycle hroutes h.origins hr (horigin.symm ▸ hon)
  obtain ⟨r', hr', horigin'⟩ := target_mem_swapped _ r hswapped
  rw [← htarget, ← horigin', hmid.waiting r' hr']
  exact hknown _ _ (hroutes.moves r' (hmid.subset r' hr')).2

theorem Moved.isSome {files now : List (Path × FileId)} (h : Moved files log w now)
    (hknown : ∀ o p, w.At o p → (Assoc.get o files).isSome)
    {o p : Path} (hat : w.At o p) : (Assoc.get p now).isSome := by
  by_cases hon : w.OnCycle o
  · exact h.cycle o p hat hon
  · rw [h.other p fun o' hat' => hat.unique hat' ▸ hon, carried_of_at hat]
    exact hknown o p hat

/-- What is created beside the files that have moved. -/
theorem Tracks.get_withNew (h : Tracks paths log w) (now : List (Path × FileId)) {o p : Path}
    (hat : w.At o p) : withNew log.current now p = Assoc.get p now := by
  rw [withNew]
  split
  · rename_i file modified he
    obtain ⟨a, ha, horigin, -⟩ := h.entry p _ he
    obtain ⟨a', ha', horigin'⟩ := hat
    obtain rfl := Option.some.inj (ha.symm.trans ha')
    rw [← horigin] at horigin'
    cases horigin'
  · rfl

theorem Tracks.executes {files : List (Path × FileId)} (h : Tracks (Assoc.keys files) log w) :
    ∃ now, exec w log.plan files = some now ∧
      (∀ path, (Assoc.get path now).isSome ↔ (Assoc.get path w).isSome) ∧
      ∀ o p, w.At o p → ¬w.OnCycle o → Assoc.get p now = Assoc.get o files := by
  have hroutes := h.routes
  have hknown : ∀ o p, w.At o p → (Assoc.get o files).isSome :=
    fun o p hat => Assoc.get_isSome_iff.mpr (h.known o p hat)
  obtain ⟨now₁, hexec₁, hmoved⟩ := h.moved_files
  have hentry : ∀ e ∈ log.current, ∃ a, Assoc.get e.1 w = some a ∧ e.2.origin = a.origin ∧
      e.2.file = a.file := fun e he => h.entry e.1 e.2 (Assoc.get_of_mem h.currentWf he)
  have hpath : ∀ e ∈ log.current, w.pathOf e.2.file = some e.1 := by
    intro e he
    obtain ⟨a, ha, -, hfile⟩ := hentry e he
    rw [hfile]
    exact World.pathOf_eq h.wf h.files ha
  -- nothing is carried to the path of a new file
  have hfree : ∀ e ∈ log.current, e.2.origin = none → Assoc.get e.1 now₁ = none := by
    intro e he hnone
    obtain ⟨a, ha, horigin, -⟩ := hentry e he
    have hnot : ∀ o, ¬w.At o e.1 := by
      rintro o ⟨a', ha', horigin'⟩
      obtain rfl := Option.some.inj (ha.symm.trans ha')
      rw [← horigin, hnone] at horigin'
      cases horigin'
    rw [hmoved.other e.1 fun o hat => absurd hat (hnot o), carried_of_not_at hnot]
  have hthere : ∀ e ∈ log.current, e.2.origin = some e.1 → (Assoc.get e.1 now₁).isSome := by
    intro e he hself
    obtain ⟨a, ha, horigin, -⟩ := hentry e he
    exact hmoved.isSome hknown ⟨a, ha, horigin ▸ hself⟩
  obtain ⟨now, hexec, hnow⟩ := exec_inPlaceSteps h.currentWf hpath hfree hthere
  have hat_now : ∀ o p, w.At o p → Assoc.get p now = Assoc.get p now₁ := fun o p hat =>
    (hnow p).trans (h.get_withNew now₁ hat)
  refine ⟨now, ?_, fun path => ?_, fun o p hat hon => ?_⟩
  · rw [BootstrapEventLog.plan, List.append_assoc, exec_append hexec₁,
      BootstrapEventLog.inPlaceSteps, exec_append hexec]
    have hsub := fun r hr => swapped_subset log.pendingRenames r hr
    refine exec_modifies (fun r hr => hroutes.pathOf r (hsub r hr)) fun r hr => ?_
    have hat := (hroutes.moves r (hsub r hr)).2
    rw [hat_now _ _ hat]
    exact hmoved.isSome hknown hat
  · cases ha : Assoc.get path w with
    | none =>
        have hnot : ∀ o, ¬w.At o path := by
          rintro o ⟨a, ha', -⟩
          rw [ha] at ha'
          cases ha'
        rw [hnow, withNew, h.get_current ha]
        show (Assoc.get path now₁).isSome ↔ _
        rw [hmoved.other path fun o hat => absurd hat (hnot o), carried_of_not_at hnot]
        rfl
    | some a =>
        refine iff_of_true ?_ rfl
        cases horigin : a.origin with
        | some o =>
            have hat : w.At o path := ⟨a, ha, horigin⟩
            rw [hat_now o path hat]
            exact hmoved.isSome hknown hat
        | none =>
            cases he : Assoc.get path log.current with
            | none =>
                rw [h.untouched path a he ha] at horigin
                cases horigin
            | some e =>
                obtain ⟨a', ha', horigin', -⟩ := h.entry path e he
                obtain rfl := Option.some.inj (ha.symm.trans ha')
                obtain ⟨origin, file, modified⟩ := e
                dsimp only at horigin'
                rw [hnow, withNew, he, horigin', horigin]
                rfl
  · rw [hat_now o p hat, hmoved.other p fun o' hat' => hat.unique hat' ▸ hon, carried_of_at hat]

theorem Tracks.removed_iff (h : Tracks paths log w) (path : Path) :
    log.removed path ↔ path ∈ paths ∧
      ((∀ p, ¬w.At path p) ∨ ∃ p, p ≠ path ∧ w.At path p) ∧ Assoc.get path w = none := by
  rw [BootstrapEventLog.removed, Bool.and_eq_true, Bool.or_eq_true, decide_eq_true_eq, h.deleted,
    h.moved, Option.isNone_iff_eq_none]
  constructor
  · rintro ⟨hnone, hgone⟩
    have hfree : Assoc.get path w = none := by
      cases ha : Assoc.get path w with
      | none => rfl
      | some a =>
          have hself : w.At path path := ⟨a, ha, h.untouched path a hnone ha⟩
          rcases hgone with ⟨-, hnot⟩ | ⟨p, hne, hat⟩
          · exact absurd hself (hnot path)
          · exact absurd (h.origins _ _ _ hat hself) hne
    rcases hgone with ⟨hmem, hnot⟩ | ⟨p, hne, hat⟩
    · exact ⟨hmem, .inl hnot, hfree⟩
    · exact ⟨h.known _ _ hat, .inr ⟨p, hne, hat⟩, hfree⟩
  · rintro ⟨hmem, hgone, hfree⟩
    refine ⟨h.get_current hfree, ?_⟩
    rcases hgone with hnot | hmoved
    · exact .inl ⟨hmem, hnot⟩
    · exact .inr hmoved

theorem Tracks.reproduces {files : List (Path × FileId)} (h : Tracks (Assoc.keys files) log w) :
    Reproduces files log w := by
  have hroutes := h.routes
  have hrename : ∀ o p a, Assoc.get p w = some a → a.origin = some o → o ≠ p →
      ∃ r ∈ log.pendingRenames, r.origin = o ∧ r.file = a.file := by
    intro o p a ha horigin hne
    obtain ⟨r, hr, hro, hrp⟩ := hroutes.all o p ⟨hne, a, ha, horigin⟩
    obtain ⟨a', ha', hfile⟩ := hroutes.file r hr
    rw [hrp, ha] at ha'
    exact ⟨r, hr, hro, by rw [← hfile, Option.some.inj ha']⟩
  refine ⟨h.executes, ?_, ?_, h.removed_iff⟩
  · intro o p a ha horigin hne hon
    obtain ⟨r, hr, hro, hfile⟩ := hrename o p a ha horigin hne
    have hmoved := (mem_renameRounds hr).resolve_right fun hswapped =>
      hon (hro ▸ onCycle_of_swapped hroutes hswapped)
    rw [← hro, ← hfile]
    simp only [BootstrapEventLog.plan, List.mem_append]
    exact .inl (.inl (.inr (List.mem_map.mpr ⟨r, hmoved, rfl⟩)))
  · intro o p a ha horigin hon
    have hne := (h.moves_of_onCycle ⟨a, ha, horigin⟩ hon).1
    obtain ⟨r, hr, hro, hfile⟩ := hrename o p a ha horigin hne
    have hswapped := swapped_of_onCycle hroutes h.origins hr (hro.symm ▸ hon)
    rw [← hfile]
    simp only [BootstrapEventLog.plan, List.mem_append]
    exact .inr (List.mem_map.mpr ⟨r, hswapped, rfl⟩)

/-- After every sequence of events that a vault can report, the plan of the log
reproduces it. -/
theorem plan_reproduces_events (files : List (Path × FileId)) (hwf : Assoc.Wf files)
    (hfiles : (files.map Prod.snd).Nodup) (events : List VaultEvent)
    (hreports : (World.opened files).ReportsAll (Assoc.keys files) events) :
    Reproduces files (events.foldl BootstrapEventLog.step .empty)
      ((World.opened files).run (Assoc.keys files) events) :=
  ((Tracks.opened hwf hfiles).run hreports).reproduces

/-- Two files swap paths, and a third one makes room for a new one. -/
def swapEvents : List VaultEvent :=
  [.rename "a" "t" 1, .rename "b" "a" 2, .rename "t" "b" 1, .rename "c" "d" 3, .create "c" 4]

theorem plan_reproduces_events_swap :
    Reproduces [("a", 1), ("b", 2), ("c", 3)] (swapEvents.foldl BootstrapEventLog.step .empty)
      [("a", ⟨2, some "b"⟩), ("b", ⟨1, some "a"⟩), ("d", ⟨3, some "c"⟩), ("c", ⟨4, none⟩)] := by
  have hreports : (World.opened [("a", 1), ("b", 2), ("c", 3)]).ReportsAll ["a", "b", "c"]
      swapEvents := by
    simp [World.ReportsAll, World.Reports, swapEvents, World.step, World.opened, Assoc.get,
      Assoc.set, Assoc.erase]
  exact plan_reproduces_events [("a", 1), ("b", 2), ("c", 3)] (by simp [Assoc.Wf, Assoc.keys])
    (by decide) swapEvents hreports

/-- The file of `a` is deleted, and the one that replaces it swaps paths with `b`. -/
def replacedEvents : List VaultEvent :=
  [.delete "a", .create "a" 3, .rename "a" "t" 3, .rename "b" "a" 2, .rename "t" "b" 3]

/-- By their identities alone, a file that is on no circle of original files is not
always renamed: one that was created in the place of another counts as that. -/
theorem not_plan_renames_replaced :
    ¬∀ (files : List (Path × FileId)), Assoc.Wf files → (files.map Prod.snd).Nodup →
      ∀ events, (World.opened files).ReportsAll (Assoc.keys files) events →
      let w := (World.opened files).run (Assoc.keys files) events
      let moves := fun o p => o ≠ p ∧
        ∃ a, Assoc.get p w = some a ∧ Assoc.get o files = some a.file
      ∀ o p a, Assoc.get p w = some a → Assoc.get o files = some a.file → o ≠ p →
        ¬Relation.TransGen moves o o →
        .rename o a.file ∈ (events.foldl BootstrapEventLog.step .empty).plan := by
  intro h
  have hreports : (World.opened [("a", 1), ("b", 2)]).ReportsAll ["a", "b"] replacedEvents := by
    simp [World.ReportsAll, World.Reports, replacedEvents, World.step, World.opened, Assoc.get,
      Assoc.set, Assoc.erase, World.Has]
  have hw : (World.opened [("a", 1), ("b", 2)]).run ["a", "b"] replacedEvents =
      [("a", ⟨2, some "b"⟩), ("b", ⟨3, some "a"⟩)] := by decide
  have hplan : (replacedEvents.foldl BootstrapEventLog.step .empty).plan =
      [.modify 2, .modify 3] := by
    have hpending : (replacedEvents.foldl BootstrapEventLog.step .empty).pendingRenames =
        [⟨"b", "a", 2⟩, ⟨"a", "b", 3⟩] := by decide
    rw [BootstrapEventLog.plan, hpending, BootstrapEventLog.renameRounds, if_pos (by decide)]
    decide
  have hrename := h [("a", 1), ("b", 2)] (by simp [Assoc.Wf, Assoc.keys]) (by decide)
    replacedEvents hreports "b" "a" ⟨2, some "b"⟩
  rw [hplan] at hrename
  dsimp only at hrename
  rw [show Assoc.keys [("a", 1), ("b", 2)] = ["a", "b"] from rfl, hw] at hrename
  refine absurd (hrename rfl rfl (by decide) ?_) (by decide)
  -- the file of `a` is gone, so nothing leaves the place of `b`
  intro hcycle
  obtain ⟨p, ⟨hne, a, ha, hfile⟩, hback⟩ := Relation.TransGen.head'_iff.mp hcycle
  have hp : p = "a" := by
    by_contra hpa
    rw [Assoc.get_cons, if_neg (Ne.symm hpa), Assoc.get_cons, if_neg hne] at ha
    cases ha
  rw [hp] at hback
  rcases Relation.ReflTransGen.cases_head hback with heq | ⟨q, ⟨hq, b, hb, hfile'⟩, -⟩
  · exact absurd heq (by decide)
  · have hgone : b.file = 1 := (Option.some.inj hfile').symm
    rw [Assoc.get_cons, if_neg hq, Assoc.get_cons] at hb
    split at hb
    · rw [← Option.some.inj hb] at hgone
      cases hgone
    · cases hb

end Realtime.Vault
