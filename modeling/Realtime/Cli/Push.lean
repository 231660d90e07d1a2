import Realtime.Cli.Pull

/-!
# What a push does to a path

Each file of the scan, and then each path of the snapshot, is looked at once, as in a pull. A
push may also throw, when the vault does not take what it is sent, and then ends there with
what it has done.
-/

namespace Realtime.Cli

open Lib Lib.Utf16 Lib.Json
open Lib.Js (dunderProto prototypeNames)

variable {ν η : Type} (S : Setup ν η)

/-! ## One file of the scan -/

/-- What a replace must find, after what was listed. -/
def preconditionFor : Option (Stored ν) → RemotePrecondition ν η
  | some r =>
      { contentHash := some (fetchRemote S r).hash
        value := if (r.listHash S).isSome then none else (fetchRemote S r).value }
  | none => { absent := true }

/-- What the vault answers to a file, where no one else writes to it. -/
def answerTo (V : VaultHandle ν η) (p : JsString) (kind : FileKind) (bytes : Bytes)
    (listed current : Option (Stored ν)) : Answer (Stored ν) :=
  uploadLocal S V kind p bytes listed.isSome (preconditionFor S listed) current

theorem listHash_getD (r : Stored ν) :
    (r.listHash S).getD (fetchRemote S r).hash = (fetchRemote S r).hash := by
  cases h : r.listHash S with
  | none => rfl
  | some hash => exact (listHash_eq S h).symm

variable [DecidableEq η]

/-- What comes of one file of the scan, without `force`. -/
inductive Pushed (V : VaultHandle ν η) (folder : Folder) (listed : Vault ν) (p : JsString)
    (l : LocalEntry η) (st : PushState ν η) : Except (PushState ν η) (PushState ν η) → Prop
  | unchanged : (st.files.lookup p).hash = some l.hash → Pushed V folder listed p l st (.ok st)
  | unreadable : (Assoc.get p folder).bind Node.read = none →
      Pushed V folder listed p l st (.error st)
  | same {r : Stored ν} {files : Files η} : (st.files.lookup p).hash ≠ some l.hash →
      Assoc.get p listed = some r → (fetchRemote S r).hash = l.hash →
      recordLocal folder p l.kind l.hash st.files = some files →
      Pushed V folder listed p l st (.ok { st with files })
  | conflict (reason : String) :
      Pushed V folder listed p l st (.ok { st with conflicts := st.conflicts ++ [(p, reason)] })
  | failed : Pushed V folder listed p l st (.error st)
  | stored {bytes : Bytes} {mtimeMs : Nat} {content : Stored ν}
      (applied : List (String × JsString)) : (st.files.lookup p).hash ≠ some l.hash →
      ((∃ r, Assoc.get p listed = some r ∧
          (st.files.lookup p).hash = some (fetchRemote S r).hash) ∨
        Assoc.get p listed = none ∧ (st.files.lookup p).truthy = false) →
      (Assoc.get p folder).bind Node.read = some (bytes, mtimeMs) →
      answerTo S V p l.kind bytes (Assoc.get p listed) (Assoc.get p st.vault) = .stored content →
      Pushed V folder listed p l st (.ok
        { vault := Assoc.set p content st.vault
          files := st.files.set p
            { kind := l.kind, hash := l.hash, size := bytes.length, mtimeMs }
          conflicts := st.conflicts
          applied })

omit [DecidableEq η] in
theorem pushed_upload {V : VaultHandle ν η} {folder : Folder} {listed : Vault ν} {p : JsString}
    {l : LocalEntry η} {st : PushState ν η} {bytes : Bytes} {mtimeMs : Nat}
    (hne : (st.files.lookup p).hash ≠ some l.hash)
    (hwhy : (∃ r, Assoc.get p listed = some r ∧
        (st.files.lookup p).hash = some (fetchRemote S r).hash) ∨
      Assoc.get p listed = none ∧ (st.files.lookup p).truthy = false)
    (hread : (Assoc.get p folder).bind Node.read = some (bytes, mtimeMs)) :
    Pushed S V folder listed p l st (finishPush false folder p l (Assoc.get p listed).isSome
      (answerTo S V p l.kind bytes (Assoc.get p listed) (Assoc.get p st.vault)) st) := by
  cases hanswer : answerTo S V p l.kind bytes (Assoc.get p listed) (Assoc.get p st.vault) with
  | failed => exact .failed
  | conflict => exact .conflict _
  | stored content =>
      simp only [finishPush, recordLocal_of_read hread]
      exact .stored _ hne hwhy hread hanswer

theorem pushed (V : VaultHandle ν η) (folder : Folder) (listed : Vault ν) (p : JsString)
    (l : LocalEntry η) (st : PushState ν η) :
    Pushed S V folder listed p l st (pushLocal S V false folder listed p l st) := by
  rw [pushLocal, beginPush]
  by_cases hsame : (st.files.lookup p).hash = some l.hash
  · have htruthy := Snap.truthy_of_hash hsame
    simp only [hsame, htruthy, Bool.not_true, ne_eq, not_true_eq_false, decide_false,
      Bool.or_false, Bool.not_false, if_true]
    exact .unchanged hsame
  · simp only [ne_eq, hsame, not_false_eq_true, decide_true, Bool.or_true, Bool.not_true,
      Bool.false_eq_true, if_false]
    cases hr : Assoc.get p listed with
    | some r =>
        simp only [listHash_getD]
        by_cases hhash : (fetchRemote S r).hash = l.hash
        · rw [if_pos hhash]
          cases hread : (Assoc.get p folder).bind Node.read with
          | none =>
              rw [recordLocal, hread]
              exact .unreadable hread
          | some stat =>
              rw [recordLocal_of_read hread]
              exact .same hsame hr hhash (recordLocal_of_read hread)
        · rw [if_neg hhash]
          by_cases hsnap : (st.files.lookup p).hash = some (fetchRemote S r).hash
          · have htruthy := Snap.truthy_of_hash hsnap
            rw [if_neg (by simp [htruthy, hsnap])]
            cases hread : (Assoc.get p folder).bind Node.read with
            | none => exact .unreadable hread
            | some stat =>
                have hup := pushed_upload S (V := V) hsame (.inl ⟨r, hr, hsnap⟩) hread
                rw [hr] at hup
                exact hup
          · rw [if_pos (by simp [hsnap])]
            exact .conflict _
    | none =>
        cases htruthy : (st.files.lookup p).truthy with
        | true => exact .conflict _
        | false =>
            cases hread : (Assoc.get p folder).bind Node.read with
            | none => exact .unreadable hread
            | some stat =>
                have hup := pushed_upload S (V := V) hsame (.inr ⟨hr, htruthy⟩) hread
                rw [hr] at hup
                exact hup

/-! ## The two loops -/

/-- What a state has at a path; the prototype of the snapshot goes with `__proto__`. -/
structure PushView (ν η : Type) where
  stored : Option (Stored ν)
  state : Option (SyncFileState η)
  proto : Option (SyncFileState η)
  reasons : List (JsString × String)

def PushState.view (st : PushState ν η) (p : JsString) : PushView ν η where
  stored := Assoc.get p st.vault
  state := Assoc.get p st.files.own
  proto := if p = dunderProto then st.files.proto else none
  reasons := st.conflicts.filter fun c => c.1 = p

section

variable {V : VaultHandle ν η} {vault listed : Vault ν} {folder : Folder} {files : Files η}
  {st : PushState ν η} {p : JsString}

omit [DecidableEq η] in
theorem PushState.view_set_ne {q : JsString} (h : q ≠ p) (st : PushState ν η)
    (state : SyncFileState η) :
    ({ st with files := st.files.set q state } : PushState ν η).view p = st.view p := by
  simp only [PushState.view, get_set_ne h, PushView.mk.injEq, true_and, and_true]
  split
  · next hp => rw [proto_set_ne fun he => h (he.trans hp.symm)]
  · rfl

theorem pushLocal_frame (st : PushState ν η) (e : JsString × LocalEntry η) (p : JsString)
    (h : e.1 ≠ p) :
    (ended (pushLocal S V false folder listed e.1 e.2 st)).view p = st.view p := by
  have hp := pushed S V folder listed e.1 e.2 st
  generalize pushLocal S V false folder listed e.1 e.2 st = run at hp ⊢
  cases hp with
  | unchanged _ => rfl
  | unreadable _ => rfl
  | failed => rfl
  | same _ _ _ hrec =>
      obtain ⟨state, rfl⟩ := recordLocal_some hrec
      exact st.view_set_ne h _
  | conflict reason => simp only [ended, PushState.view, filter_append_ne h]
  | @stored bytes mtimeMs content _ _ _ _ _ =>
      have hview := st.view_set_ne h
        { kind := e.2.kind, hash := e.2.hash, size := bytes.length, mtimeMs }
      simp only [PushState.view, PushView.mk.injEq] at hview
      simp only [ended, PushState.view, PushView.mk.injEq, Assoc.get_set_ne h]
      exact ⟨trivial, hview.2⟩

/-- What comes of one path of the snapshot, without `force`. -/
inductive PushDeleted (V : VaultHandle ν η) (scanned : List (JsString × LocalEntry η))
    (listed : Vault ν) (p : JsString) (st : PushState ν η) :
    Except (PushState ν η) (PushState ν η) → Prop
  | here : (Assoc.get p scanned).isSome = true ∨ Assoc.get p st.files.own = none →
      PushDeleted V scanned listed p st (.ok st)
  | gone {snap : SyncFileState η} : Assoc.get p scanned = none →
      Assoc.get p st.files.own = some snap → Assoc.get p listed = none →
      PushDeleted V scanned listed p st (.ok { st with files := st.files.delete p })
  | conflict (reason : String) : Assoc.get p scanned = none →
      PushDeleted V scanned listed p st
        (.ok { st with conflicts := st.conflicts ++ [(p, reason)] })
  | failed : PushDeleted V scanned listed p st (.error st)
  | deleted {snap : SyncFileState η} {r : Stored ν} (applied : List (String × JsString)) :
      Assoc.get p scanned = none → Assoc.get p st.files.own = some snap →
      Assoc.get p listed = some r → (fetchRemote S r).hash = snap.hash →
      PushDeleted V scanned listed p st (.ok
        { vault := Assoc.erase p st.vault
          files := st.files.delete p
          conflicts := st.conflicts
          applied })

theorem pushDeleted_cases (V : VaultHandle ν η) (scanned : List (JsString × LocalEntry η))
    (listed : Vault ν) (st : PushState ν η) (p : JsString) :
    PushDeleted S V scanned listed p st (pushDeleted S V false scanned listed st p) := by
  rw [pushDeleted]
  cases hl : Assoc.get p scanned with
  | some l => exact .here (.inl (by rw [hl]; rfl))
  | none =>
      rw [if_neg (by simp)]
      cases hsnap : Assoc.get p st.files.own with
      | none => exact .here (.inr hsnap)
      | some snap =>
          cases hr : Assoc.get p listed with
          | none => exact .gone hl hsnap hr
          | some r =>
              simp only [listHash_getD]
              by_cases hhash : (fetchRemote S r).hash = snap.hash
              · rw [if_neg (by simp [hhash])]
                split
                · exact .deleted _ hl hsnap hr hhash
                · exact .failed
              · rw [if_pos (by simp [hhash])]
                exact .conflict _ hl

theorem pushDeleted_frame (scanned : List (JsString × LocalEntry η)) (st : PushState ν η)
    (q p : JsString) (h : q ≠ p) :
    (ended (pushDeleted S V false scanned listed st q)).view p = st.view p := by
  have hp := pushDeleted_cases S V scanned listed st q
  generalize pushDeleted S V false scanned listed st q = run at hp ⊢
  cases hp with
  | here _ => rfl
  | failed => rfl
  | gone _ _ _ => simp only [ended, PushState.view, Files.delete, Assoc.get_erase_ne h]
  | conflict reason _ => simp only [ended, PushState.view, filter_append_ne h]
  | deleted _ _ _ _ _ => simp only [ended, PushState.view, Files.delete, Assoc.get_erase_ne h]

/-! ## The whole push -/

omit [DecidableEq η] in
theorem lookup_of_pushView (hproto : files.proto = none) {s1 : PushState ν η}
    (hview : s1.view p = ({ vault, files } : PushState ν η).view p) :
    (s1.files.lookup p).hash = snapHash files p := by
  have hslot : p = dunderProto → s1.files.proto = none := by
    intro hp
    have h := congrArg PushView.proto hview
    simp only [PushState.view, if_pos hp] at h
    exact h.trans hproto
  rw [lookup_hash hslot]
  exact congrArg (Option.map SyncFileState.hash) (congrArg PushView.state hview)

variable (V vault folder files) in
/-- The first loop of a push. -/
def pushScanned : Except (PushState ν η) (PushState ν η) :=
  (scanLocal S folder files).foldlM
    (fun st e => pushLocal S V false folder (listRemote S vault) e.1 e.2 st) { vault, files }

variable (V vault folder files) in
/-- The second loop, from what the first has left. -/
def pushRest (s1 : PushState ν η) : Except (PushState ν η) (PushState ν η) :=
  (Assoc.keys s1.files.own).foldlM
    (pushDeleted S V false (scanLocal S folder files) (listRemote S vault)) s1

theorem pushFiles_of_error {s1 : PushState ν η}
    (h : pushScanned S V vault folder files = .error s1) :
    pushFiles S V false vault folder files = .error s1 := by
  show pushScanned S V vault folder files >>= _ = _
  rw [h]
  rfl

theorem pushFiles_of_ok {s1 : PushState ν η} (h : pushScanned S V vault folder files = .ok s1) :
    pushFiles S V false vault folder files = pushRest S V vault folder files s1 := by
  show pushScanned S V vault folder files >>= _ = _
  rw [h]
  rfl

variable (V vault folder files) in
/-- What the first loop leaves at a path: what one step makes of what there was, or nothing new. -/
theorem pushScanned_at (hfolder : Assoc.Wf folder) (p : JsString) :
    (∃ l s1 run, Assoc.get p (scanLocal S folder files) = some l ∧
        s1.view p = ({ vault, files } : PushState ν η).view p ∧
        Pushed S V folder (listRemote S vault) p l s1 run ∧
        (ended (pushScanned S V vault folder files)).view p = (ended run).view p) ∨
      (ended (pushScanned S V vault folder files)).view p =
        ({ vault, files } : PushState ν η).view p := by
  have hframe := fun st (e : JsString × LocalEntry η) p h =>
    @pushLocal_frame _ _ S _ V (listRemote S vault) folder st e p h
  cases hl : Assoc.get p (scanLocal S folder files) with
  | none =>
      refine .inr (@view_foldlM_of_forall_ne _ _ _ _ Prod.fst PushState.view _ hframe _ p
        (fun e he heq => ?_) _)
      exact Assoc.get_eq_none_iff.mp hl (heq ▸ List.mem_map_of_mem he)
  | some l =>
      obtain ⟨pre, post, hsplit⟩ := List.append_of_mem (Assoc.mem_of_get hl)
      rcases @view_foldlM _ _ _ _ Prod.fst PushState.view _ hframe _
        (wf_scanLocal S hfolder files) _ _ _ hsplit { vault, files } with
        ⟨s1, -, hview, hended⟩ | ⟨-, hended⟩
      · exact .inl ⟨l, s1, _, rfl, hview, pushed S V folder _ p l s1, hended⟩
      · exact .inr hended

/-- What each step of the first loop keeps is kept by the loop. -/
theorem inv_pushScanned {P : PushState ν η → Prop} (hstart : P { vault, files })
    (hpushed : ∀ s1 (e : JsString × LocalEntry η) run, P s1 →
      Pushed S V folder (listRemote S vault) e.1 e.2 s1 run → P (ended run)) :
    P (ended (pushScanned S V vault folder files)) :=
  inv_foldlM (fun s1 e h => hpushed s1 e _ h (pushed S V folder (listRemote S vault) e.1 e.2 s1))
    hstart (scanLocal S folder files)

/-- What the first loop leaves, and each step of the second keeps, is left by a push. -/
theorem inv_pushFiles {P : PushState ν η → Prop}
    (hfirst : P (ended (pushScanned S V vault folder files)))
    (hdeleted : ∀ s1 q, P s1 → P (ended
      (pushDeleted S V false (scanLocal S folder files) (listRemote S vault) s1 q))) :
    P (ended (pushFiles S V false vault folder files)) := by
  cases hrun : pushScanned S V vault folder files with
  | error s1 =>
      rw [pushFiles_of_error S hrun]
      rwa [hrun] at hfirst
  | ok s1 =>
      rw [pushFiles_of_ok S hrun]
      rw [hrun] at hfirst
      exact inv_foldlM hdeleted hfirst (Assoc.keys s1.files.own)

theorem wf_pushScanned (hfiles : Assoc.Wf files.own) :
    Assoc.Wf (ended (pushScanned S V vault folder files)).files.own := by
  refine inv_pushScanned S (P := fun s1 => Assoc.Wf s1.files.own) hfiles fun s1 e run h1 hp => ?_
  cases hp with
  | unchanged _ => exact h1
  | unreadable _ => exact h1
  | same _ _ _ hrec =>
      obtain ⟨state, rfl⟩ := recordLocal_some hrec
      exact wf_set h1 _ _
  | conflict _ => exact h1
  | failed => exact h1
  | stored _ _ _ _ _ => exact wf_set h1 _ _

/-- What the second loop leaves at a path: what its one step makes of what the first has left. -/
theorem pushRest_at {s1 : PushState ν η} (hwf : Assoc.Wf s1.files.own)
    (hrun : pushRest S V vault folder files s1 = .ok st) (p : JsString) :
    (Assoc.get p s1.files.own = none ∧ st.view p = s1.view p) ∨
      ∃ s2 s3, s2.view p = s1.view p ∧
        PushDeleted S V (scanLocal S folder files) (listRemote S vault) p s2 (.ok s3) ∧
        st.view p = s3.view p := by
  have hframe := fun (st : PushState ν η) q p h =>
    @pushDeleted_frame _ _ S _ V (listRemote S vault) (scanLocal S folder files) st q p h
  cases hget : Assoc.get p s1.files.own with
  | none =>
      have hnot : p ∉ Assoc.keys s1.files.own := Assoc.get_eq_none_iff.mp hget
      have hview := @view_foldlM_of_forall_ne _ _ _ _ id PushState.view _ hframe
        (Assoc.keys s1.files.own) p (fun q hq (he : q = p) => hnot (he ▸ hq)) s1
      rw [pushRest] at hrun
      rw [hrun] at hview
      exact .inl ⟨rfl, hview⟩
  | some state =>
      have hmem : p ∈ Assoc.keys s1.files.own :=
        List.mem_map_of_mem (f := Prod.fst) (Assoc.mem_of_get hget)
      obtain ⟨pre, post, hsplit⟩ := List.append_of_mem hmem
      have hnodup : ((Assoc.keys s1.files.own).map id).Nodup := by
        rw [List.map_id]
        exact hwf
      obtain ⟨s2, s3, -, hstep, hbefore, hafter⟩ :=
        @view_foldlM_of_ok _ _ _ _ id PushState.view _ hframe _ hnodup _ _ _ hsplit _ _ hrun
      have hp := pushDeleted_cases S V (scanLocal S folder files) (listRemote S vault) s2 p
      rw [show pushDeleted S V false (scanLocal S folder files) (listRemote S vault) s2 p = .ok s3
        from hstep] at hp
      exact .inr ⟨s2, s3, hbefore, hp, hafter⟩

/-- What a push that goes through leaves at each path. -/
theorem pushFiles_at (hfolder : Assoc.Wf folder) (hfiles : Assoc.Wf files.own)
    (hrun : pushFiles S V false vault folder files = .ok st) (p : JsString) :
    (∃ l s1 s2, Assoc.get p (scanLocal S folder files) = some l ∧
        s1.view p = ({ vault, files } : PushState ν η).view p ∧
        Pushed S V folder (listRemote S vault) p l s1 (.ok s2) ∧ st.view p = s2.view p) ∨
      Assoc.get p (scanLocal S folder files) = none ∧
        ((Assoc.get p files.own = none ∧ st.view p = ({ vault, files } : PushState ν η).view p) ∨
          ∃ s1 s2, s1.view p = ({ vault, files } : PushState ν η).view p ∧
            PushDeleted S V (scanLocal S folder files) (listRemote S vault) p s1 (.ok s2) ∧
            st.view p = s2.view p) := by
  have hframe := fun st (e : JsString × LocalEntry η) p h =>
    @pushLocal_frame _ _ S _ V (listRemote S vault) folder st e p h
  have hwf := @wf_pushScanned _ _ S _ V vault folder _ hfiles
  cases hfirst : pushScanned S V vault folder files with
  | error s1 =>
      rw [pushFiles_of_error S hfirst] at hrun
      cases hrun
  | ok s1 =>
      rw [pushFiles_of_ok S hfirst] at hrun
      rw [hfirst] at hwf
      have hrest := pushRest_at S hwf hrun p
      cases hl : Assoc.get p (scanLocal S folder files) with
      | none =>
          have hview := @view_foldlM_of_forall_ne _ _ _ _ Prod.fst PushState.view _ hframe
            (scanLocal S folder files) p
            (fun e he heq => Assoc.get_eq_none_iff.mp hl (heq ▸ List.mem_map_of_mem he))
            { vault, files }
          rw [pushScanned] at hfirst
          rw [hfirst] at hview
          refine .inr ⟨rfl, ?_⟩
          rcases hrest with ⟨hnone, hend⟩ | ⟨s2, s3, hbefore, hp, hend⟩
          · exact .inl ⟨(congrArg PushView.state hview).symm.trans hnone, hend.trans hview⟩
          · exact .inr ⟨s2, s3, hbefore.trans hview, hp, hend⟩
      | some l =>
          obtain ⟨pre, post, hsplit⟩ := List.append_of_mem (Assoc.mem_of_get hl)
          obtain ⟨s2, s3, -, hstep, hbefore, hafter⟩ :=
            @view_foldlM_of_ok _ _ _ _ Prod.fst PushState.view _ hframe _
              (wf_scanLocal S hfolder files) _ _ _ hsplit _ _ hfirst
          have hp := pushed S V folder (listRemote S vault) p l s2
          rw [show pushLocal S V false folder (listRemote S vault) p l s2 = .ok s3 from hstep] at hp
          refine .inl ⟨l, s2, s3, rfl, hbefore, hp, Eq.trans ?_ hafter⟩
          -- a path of the scan is passed over by the second loop
          rcases hrest with ⟨-, hend⟩ | ⟨s4, s5, heq, hdel, hend⟩
          · exact hend
          · refine (hend.trans ?_).trans heq
            cases hdel with
            | here _ => rfl
            | gone hnone _ _ =>
                rw [hl] at hnone
                cases hnone
            | conflict _ hnone =>
                rw [hl] at hnone
                cases hnone
            | deleted _ hnone _ _ _ =>
                rw [hl] at hnone
                cases hnone

/-! ## What a push owes to the remote side -/

/-- A file of the listing that the snapshot has not as it is. -/
def KeepsRemote (vault : Vault ν) (files : Files η) (st : PushState ν η) (p : JsString) : Prop :=
  ∀ r, Assoc.get p (listRemote S vault) = some r → snapHash files p ≠ some (fetchRemote S r).hash →
    Assoc.get p st.vault = some r

theorem keepsRemote (V : VaultHandle ν η) (hvault : Assoc.Wf vault) (hfolder : Assoc.Wf folder)
    (hproto : files.proto = none) (p : JsString) :
    KeepsRemote S vault files (ended (pushFiles S V false vault folder files)) p := by
  intro r hr hne
  have hstored : Assoc.get p vault = some r := ((get_listRemote S hvault).mp hr).1
  -- the second loop deletes what the snapshot has, of a path that was not scanned
  let Kept (st : PushState ν η) : Prop := Assoc.get p st.vault = some r ∧
    ((Assoc.get p (scanLocal S folder files)).isSome = true ∨
      Assoc.get p st.files.own = Assoc.get p files.own)
  have hfirst : Kept (ended (pushScanned S V vault folder files)) := by
    rcases pushScanned_at S V vault folder files hfolder p with
      ⟨l, s1, run, hl, hview, hrun, hended⟩ | hended
    · have hlookup := lookup_of_pushView hproto hview
      have hbefore : Assoc.get p s1.vault = some r :=
        (congrArg PushView.stored hview).trans hstored
      refine ⟨(congrArg PushView.stored hended).trans ?_, .inl (by rw [hl]; rfl)⟩
      cases hrun with
      | unchanged _ => exact hbefore
      | unreadable _ => exact hbefore
      | same _ _ _ _ => exact hbefore
      | conflict _ => exact hbefore
      | failed => exact hbefore
      | stored _ _ hwhy _ _ =>
          rw [hlookup] at hwhy
          rcases hwhy with ⟨r', hr', hhash⟩ | ⟨hnone, -⟩
          · obtain rfl := Option.some.inj (hr.symm.trans hr')
            exact absurd hhash hne
          · rw [hr] at hnone
            cases hnone
    · exact ⟨(congrArg PushView.stored hended).trans hstored,
        .inr (congrArg PushView.state hended)⟩
  refine (inv_pushFiles S (P := Kept) hfirst fun st q hst => ?_).1
  by_cases hq : q = p
  · subst hq
    have hp := pushDeleted_cases S V (scanLocal S folder files) (listRemote S vault) st q
    generalize pushDeleted S V false _ (listRemote S vault) st q = run at hp ⊢
    cases hp with
    | here _ => exact hst
    | failed => exact hst
    | conflict _ _ => exact hst
    | gone _ _ hnone =>
        rw [hr] at hnone
        cases hnone
    | deleted _ hscan hsnap hlisted hhash =>
        obtain rfl := Option.some.inj (hr.symm.trans hlisted)
        rcases hst.2 with h | h
        · rw [hscan] at h
          cases h
        · exact absurd (by rw [snapHash, ← h, hsnap, hhash]; rfl) hne
  · have hview := @pushDeleted_frame _ _ S _ V (listRemote S vault)
      (scanLocal S folder files) st q p hq
    exact ⟨(congrArg PushView.stored hview).trans hst.1,
      hst.2.imp_right fun h => (congrArg PushView.state hview).trans h⟩

/-- Whatever the vault answers, and also where it throws, a push leaves each file of the listing
that the snapshot has not as it is, where no one else writes to the vault since the listing. -/
theorem push_keepsRemote (V : VaultHandle ν η) (hvault : Assoc.Wf vault)
    (hfolder : Assoc.Wf folder) (hproto : files.proto = none) (p : JsString) :
    KeepsRemote S vault (forgetIgnoredAttachments S files)
      (ended (push S V false vault folder files)) p :=
  keepsRemote S V hvault hfolder
    (show (forgetIgnoredAttachments S files).proto = none from hproto) p

end

/-- A vault that takes whatever it is sent. -/
def takesAll : VaultHandle Unit Bytes where
  createNote _ content _ := .stored content
  replaceNote _ content _ _ := .stored content
  createStructured _ _ value _ := .stored value
  replaceStructured _ _ value _ _ := .stored value
  uploadAttachment _ bytes _ _ _ := .stored bytes
  delete _ _ _ := true

theorem push_keepsRemote_note : KeepsRemote wholeDigest theirNote
    (forgetIgnoredAttachments wholeDigest oldNote)
    (ended (push wholeDigest takesAll false theirNote ourNote oldNote)) (ascii "a.md") :=
  push_keepsRemote wholeDigest takesAll
    (show Assoc.Wf theirNote from List.nodup_singleton _)
    (show Assoc.Wf ourNote from List.nodup_singleton _) rfl _

end Realtime.Cli
