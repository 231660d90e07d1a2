import Realtime.Cli.Push

/-!
# A pull and then a push

After a pull without conflicts, the snapshot is what is listed. A push from there that has no
conflicts either has sent every file that is not of the snapshot, and deleted every path of
the snapshot that has no file.
-/

namespace Realtime.Cli

open Lib Lib.Utf16 Lib.Json
open Lib.Js (dunderProto prototypeNames)

variable {ν η : Type} (S : Setup ν η)

/-! ## What a pull writes has the hash that it records -/

/-- No name comes twice in the value that is stored. -/
def Stored.Wf : Stored ν → Prop
  | .canvas value | .base value => Json.Wf value
  | _ => True

theorem toText_toBytes {t : JsString} (h : Paired t) : toText (toBytes t) = t := by
  rw [toText, toBytes, Str.fromUtf8Lossy_toUtf8]
  exact Str.encodeUtf16_fromUtf16Lossy h

theorem normalizeStructured_print {value : Value ν} (h : Json.Wf value) :
    normalizeStructured S (toText (toBytes (print S.numbers [9] value ++ [newline]))) =
      print S.numbers [] value := by
  have htab : Paired [9] := paired_of_all (by decide)
  have hend : Paired [newline] := paired_of_all (by decide)
  have hspace : ∀ c ∈ ([9] : JsString), isSpace c = true := by simp [isSpace]
  have htrail : ∀ c ∈ [newline], isSpace c = true := by simp [isSpace, newline]
  rw [toText_toBytes ((paired_print htab value).append hend), normalizeStructured,
    parse_print hspace h htrail]
  exact print_canon [] value

theorem hashLocalContent_fetchRemote {r : Stored ν} (h : r.Wf) :
    hashLocalContent S r.kind (fetchRemote S r).bytes = (fetchRemote S r).hash := by
  cases r with
  | note content => rfl
  | attachment bytes => rfl
  | canvas value => exact congrArg (hashText S) (normalizeStructured_print S h)
  | base value => exact congrArg (hashText S) (normalizeStructured_print S h)

/-! ## Where a sync ends -/

section

variable (vault : Vault ν) (folder : Folder) (files : Files η) (p : JsString)

/-- No side has anything at the path, or each has what the others have, as far as the scan sees
the folder. -/
def Alike : Prop :=
  snapHash files p = none ∧ localHash S folder p = none ∧ remoteHash S vault p = none ∨
    ∃ bytes mtimeMs r, Assoc.get p folder = some (.file bytes mtimeMs) ∧ synced S p = true ∧
      Assoc.get p (listRemote S vault) = some r ∧ snapHash files p = some (fetchRemote S r).hash ∧
      (hashLocalContent S (kindForPath p) bytes = (fetchRemote S r).hash ∨
        hashLocalContent S r.kind bytes = (fetchRemote S r).hash)

/-- No side has anything at the path, or each has what the others have. -/
def Converged : Prop :=
  (snapHash files p = none ∧ (∀ bytes mtimeMs, Assoc.get p folder ≠ some (.file bytes mtimeMs)) ∧
      remoteHash S vault p = none) ∨
    ∃ bytes mtimeMs r, Assoc.get p folder = some (.file bytes mtimeMs) ∧
      Assoc.get p (listRemote S vault) = some r ∧ snapHash files p = some (fetchRemote S r).hash ∧
      (hashLocalContent S (kindForPath p) bytes = (fetchRemote S r).hash ∨
        hashLocalContent S r.kind bytes = (fetchRemote S r).hash)

/-- A file that the scan does not see: it is ignored as an attachment, or behind a linked
directory. -/
def LeftOut : Prop :=
  ∃ bytes mtimeMs, Assoc.get p folder = some (.file bytes mtimeMs) ∧ synced S p = false

/-- What was sent of a file that only the local side has changed is stored with its hash. -/
def SentWhole (V : VaultHandle ν η) : Prop :=
  ∀ bytes mtimeMs content, Assoc.get p folder = some (.file bytes mtimeMs) → synced S p = true →
    snapHash files p = remoteHash S vault p →
    snapHash files p ≠ some (scanHash S files p bytes mtimeMs) →
    answerTo S V p (kindForPath p) bytes (Assoc.get p (listRemote S vault))
      (Assoc.get p vault) = .stored content →
    (fetchRemote S content).hash = hashLocalContent S (kindForPath p) bytes

/-- A file that is masked by the entry of what is listed is that as the kind of the listing. -/
def MaskedSame : Prop :=
  ∀ bytes mtimeMs r, Masked S folder files p → Assoc.get p folder = some (.file bytes mtimeMs) →
    Assoc.get p (listRemote S vault) = some r →
    snapHash files p = some (fetchRemote S r).hash →
    hashLocalContent S r.kind bytes = (fetchRemote S r).hash

end

variable [DecidableEq η]

section

variable {V : VaultHandle ν η} {vault : Vault ν} {folder : Folder} {files : Files η} {p : JsString}

theorem wf_vault_of_push {st : PushState ν η} (hvault : Assoc.Wf vault)
    (hrun : pushFiles S V false vault folder files = .ok st) : Assoc.Wf st.vault := by
  have hended : Assoc.Wf (ended (pushFiles S V false vault folder files)).vault := by
    refine inv_pushFiles S (P := fun s1 => Assoc.Wf s1.vault)
      (inv_pushScanned S (P := fun s1 => Assoc.Wf s1.vault) hvault fun s1 e run h1 hp => ?_)
      fun s1 q h1 => ?_
    · cases hp with
      | unchanged _ => exact h1
      | unreadable _ => exact h1
      | same _ _ _ _ => exact h1
      | conflict _ => exact h1
      | failed => exact h1
      | stored _ _ _ _ _ => exact Assoc.wf_set h1
    · have hp := pushDeleted_cases S V (scanLocal S folder files) (listRemote S vault) s1 q
      generalize pushDeleted S V false _ (listRemote S vault) s1 q = run at hp ⊢
      cases hp with
      | here _ => exact h1
      | gone _ _ _ => exact h1
      | conflict _ => exact h1
      | failed => exact h1
      | deleted _ _ _ _ _ => exact Assoc.wf_erase h1
  rwa [hrun] at hended

omit [DecidableEq η] in
theorem get_listRemote_eq (h : Assoc.Wf vault) (p : JsString) : Assoc.get p (listRemote S vault) =
    (Assoc.get p vault).filter fun r => shouldSyncFile S p r.kind := by
  ext r
  rw [get_listRemote S h, Option.filter_eq_some_iff]

omit [DecidableEq η] in
theorem remoteHash_eq_none_iff :
    remoteHash S vault p = none ↔ Assoc.get p (listRemote S vault) = none := Option.map_eq_none_iff

omit [DecidableEq η] in
theorem snapHash_eq_none_iff : snapHash files p = none ↔ Assoc.get p files.own = none :=
  Option.map_eq_none_iff

omit [DecidableEq η] in
theorem scanned_of_file {bytes : Bytes} {mtimeMs : Nat} (hfolder : Assoc.Wf folder)
    {l : LocalEntry η} (hl : Assoc.get p (scanLocal S folder files) = some l)
    (hnode : Assoc.get p folder = some (.file bytes mtimeMs)) :
    l.kind = kindForPath p ∧ l.hash = scanHash S files p bytes mtimeMs ∧ synced S p = true := by
  obtain ⟨bytes', mtimeMs', hnode', hs, rfl⟩ := scanned_some S hfolder hl
  obtain ⟨rfl, rfl⟩ := Node.file.inj (Option.some.inj (hnode.symm.trans hnode'))
  exact ⟨rfl, rfl, hs⟩

omit [DecidableEq η] in
theorem answerTo_kind {kind : FileKind} {bytes : Bytes} {listed current : Option (Stored ν)}
    {content : Stored ν} (h : answerTo S V p kind bytes listed current = .stored content) :
    content.kind = kind := by
  have hmap {α : Type} {f : α → Stored ν} {answer : Answer α} (h : answer.map f = .stored content)
      (hf : ∀ a, (f a).kind = kind) : content.kind = kind := by
    cases answer with
    | conflict => cases h
    | failed => cases h
    | stored a =>
        obtain rfl := Answer.stored.inj h
        exact hf a
  rw [answerTo, uploadLocal.eq_def] at h
  cases kind with
  | note => exact hmap h fun _ => rfl
  | attachment => exact hmap h fun _ => rfl
  | canvas =>
      dsimp only at h
      split at h
      · cases h
      · exact hmap h fun _ => rfl
  | base =>
      dsimp only at h
      split at h
      · cases h
      · exact hmap h fun _ => rfl

/-! ### A path that was scanned -/

section

variable {vault' : Vault ν} {files' : Files η} {bytes : Bytes} {mtimeMs : Nat} {r : Stored ν}
  (hfile : Assoc.get p folder = some (.file bytes mtimeMs)) (hs : synced S p = true)
  (hproto : files.proto = none)
include hfile hs hproto

omit [DecidableEq η] in
/-- A file whose hash is that of its entry, and of what is listed. -/
theorem alike_iff_of_unchanged (hr : Assoc.get p (listRemote S vault) = some r)
    (hsnap : snapHash files p = some (fetchRemote S r).hash)
    (hscan : scanHash S files p bytes mtimeMs = (fetchRemote S r).hash)
    (hr' : Assoc.get p (listRemote S vault') = some r)
    (hsnap' : snapHash files' p = some (fetchRemote S r).hash) :
    Alike S vault' folder files' p ↔
      SentWhole S vault folder files p V ∧ MaskedSame S vault folder files p := by
  have hsent : SentWhole S vault folder files p V := by
    intro b m content hb _ _ hne
    obtain ⟨rfl, rfl⟩ := Node.file.inj (Option.some.inj (hfile.symm.trans hb))
    exact absurd (by rw [hsnap, hscan]) hne
  rw [and_iff_right hsent]
  constructor
  · rintro (⟨hno, -⟩ | ⟨b', m', r', hb', -, hlist, -, hagree⟩)
      b'' m'' r'' ⟨b, m, state, hb, -, hget, -, -, hne⟩ hb'' hlist'' -
    · rw [hsnap'] at hno
      cases hno
    · obtain rfl := Option.some.inj (hr'.symm.trans hlist)
      obtain rfl := Option.some.inj (hr.symm.trans hlist'')
      obtain ⟨rfl, rfl⟩ := Node.file.inj (Option.some.inj (hb.symm.trans hb'))
      obtain ⟨rfl, rfl⟩ := Node.file.inj (Option.some.inj (hb.symm.trans hb''))
      rw [snapHash, hget] at hsnap
      exact hagree.resolve_left fun h => hne ((Option.some.inj hsnap).trans h.symm)
  · intro hmasked
    refine .inr ⟨bytes, mtimeMs, r, hfile, hs, hr', hsnap', ?_⟩
    rcases scanHash_cases S hproto p bytes mtimeMs with h | ⟨state, hget, hsize, htime, h⟩
    · exact .inl (h.symm.trans hscan)
    · by_cases hreal : state.hash = hashLocalContent S (kindForPath p) bytes
      · exact .inl (by rw [← hreal, ← h, hscan])
      · exact .inr (hmasked bytes mtimeMs r
          ⟨bytes, mtimeMs, state, hfile, hs, hget, hsize, htime, hreal⟩ hfile hr hsnap)

omit [DecidableEq η] in
/-- A file that was sent, as the vault has it then. -/
theorem alike_iff_of_stored {content : Stored ν}
    (hsnap : snapHash files p = remoteHash S vault p)
    (hne : snapHash files p ≠ some (scanHash S files p bytes mtimeMs))
    (hanswer : answerTo S V p (kindForPath p) bytes (Assoc.get p (listRemote S vault))
      (Assoc.get p vault) = .stored content)
    (hr' : Assoc.get p (listRemote S vault') = some content)
    (hsnap' : snapHash files' p = some (scanHash S files p bytes mtimeMs)) :
    Alike S vault' folder files' p ↔
      SentWhole S vault folder files p V ∧ MaskedSame S vault folder files p := by
  -- the hash of the scan is that of the file
  have hunmasked (state : SyncFileState η) (hget : Assoc.get p files.own = some state) :
      scanHash S files p bytes mtimeMs ≠ state.hash := fun h => by
    rw [snapHash, hget, h] at hne
    exact hne rfl
  have hreal : scanHash S files p bytes mtimeMs = hashLocalContent S (kindForPath p) bytes := by
    rcases scanHash_cases S hproto p bytes mtimeMs with h | ⟨state, hget, -, -, h⟩
    · exact h
    · exact absurd h (hunmasked state hget)
  have hmasked : MaskedSame S vault folder files p := by
    rintro b m r ⟨b', m', state, hb, -, hget, hsize, htime, -⟩
    obtain ⟨rfl, rfl⟩ := Node.file.inj (Option.some.inj (hfile.symm.trans hb))
    refine absurd ?_ (hunmasked state hget)
    rw [scanHash, lookup_of_get hget]
    exact if_pos ⟨hsize, htime⟩
  rw [and_iff_left hmasked]
  constructor
  · rintro (⟨hno, -⟩ | ⟨b, m, r, hb, -, hlist, hcontent, -⟩) b' m' content' hb' - - - hanswer'
    · rw [hsnap'] at hno
      cases hno
    · obtain ⟨rfl, rfl⟩ := Node.file.inj (Option.some.inj (hfile.symm.trans hb'))
      obtain rfl := Answer.stored.inj (hanswer'.symm.trans hanswer)
      obtain rfl := Option.some.inj (hr'.symm.trans hlist)
      rw [← hreal]
      exact Option.some.inj (hcontent.symm.trans hsnap')
  · intro hsent
    have hsame := hsent bytes mtimeMs content hfile hs hsnap hne hanswer
    exact .inr ⟨bytes, mtimeMs, content, hfile, hs, hr',
      by rw [hsnap', hreal, hsame], .inl hsame.symm⟩

end

omit [DecidableEq η] in
/-- A path that was not scanned, and of which neither the vault nor the snapshot has anything
then. -/
theorem alike_iff_of_gone {vault' : Vault ν} {files' : Files η} (hfolder : Assoc.Wf folder)
    (hl : Assoc.get p (scanLocal S folder files) = none) (hr' : remoteHash S vault' p = none)
    (hsnap' : snapHash files' p = none) :
    Alike S vault' folder files' p ↔
      SentWhole S vault folder files p V ∧ MaskedSame S vault folder files p := by
  have hnot {bytes : Bytes} {mtimeMs : Nat}
      (hnode : Assoc.get p folder = some (.file bytes mtimeMs)) (hs : synced S p = true) :
      False := by
    rw [scanned_of S hfolder hnode hs] at hl
    cases hl
  refine iff_of_true (.inl ⟨hsnap', (scanned_none_iff S hfolder).mp hl, hr'⟩) ⟨?_, ?_⟩
  · exact fun bytes mtimeMs content hnode hs => (hnot hnode hs).elim
  · rintro bytes mtimeMs r ⟨bytes', mtimeMs', -, hnode', hs, -⟩
    exact (hnot hnode' hs).elim

/-- A push from a snapshot that has what is listed. -/
theorem alike_iff_of_push {st : PushState ν η} (hvault : Assoc.Wf vault)
    (hfolder : Assoc.Wf folder) (hfiles : Assoc.Wf files.own) (hproto : files.proto = none)
    (hrun : pushFiles S V false vault folder files = .ok st) (hfree : st.conflicts = [])
    (hsnap : snapHash files p = remoteHash S vault p) :
    Alike S st.vault folder st.files p ↔
      SentWhole S vault folder files p V ∧ MaskedSame S vault folder files p := by
  have hafter := get_listRemote_eq S (wf_vault_of_push S hvault hrun) p
  have hbefore := get_listRemote_eq S hvault p
  have hreasons : (st.view p).reasons = [] := by rw [PushState.view, hfree]; rfl
  have hsame (h : (st.view p).stored = Assoc.get p vault) :
      Assoc.get p (listRemote S st.vault) = Assoc.get p (listRemote S vault) := by
    rw [hafter, hbefore]
    exact congrArg (Option.filter _) h
  rcases pushFiles_at S hfolder hfiles hrun p with
    ⟨l, s1, s2, hl, hview, hp, hend⟩ | ⟨hl, ⟨hown, hend⟩ | ⟨s1, s2, hview, hp, hend⟩⟩
  · obtain ⟨bytes, mtimeMs, hnode, hs, -⟩ := scanned_some S hfolder hl
    obtain ⟨hkind, hhash, -⟩ := scanned_of_file S hfolder hl hnode
    have hlookup := lookup_of_pushView hproto hview
    have hstored1 : Assoc.get p s1.vault = Assoc.get p vault := congrArg PushView.stored hview
    cases hp with
    | unchanged hscan =>
        rw [hlookup] at hscan
        obtain ⟨r, hr, hrhash⟩ := Option.map_eq_some_iff.mp (hsnap.symm.trans hscan)
        rw [← hrhash] at hscan
        refine alike_iff_of_unchanged S hnode hs hproto hr hscan (hhash.symm.trans hrhash.symm)
          ((hsame (congrArg PushView.stored (hend.trans hview))).trans hr) ?_
        rw [← hscan]
        exact congrArg (Option.map SyncFileState.hash)
          (congrArg PushView.state (hend.trans hview))
    | same hne hr hr' hrec =>
        rw [hlookup, hsnap, remoteHash_of S hr, hr'] at hne
        exact absurd rfl hne
    | conflict reason =>
        rw [hend, PushState.view] at hreasons
        simp at hreasons
    | @stored bytes' mtimeMs' content applied hne hwhy hread hanswer =>
        have hread' : (Assoc.get p folder).bind Node.read = some (bytes, mtimeMs) := by
          rw [hnode]
          rfl
        obtain ⟨rfl, rfl⟩ := Prod.mk.inj (Option.some.inj (hread.symm.trans hread'))
        rw [hkind, hstored1] at hanswer
        -- the first entry for `__proto__` is answered to before, and is not sent
        have hslot : p = dunderProto → Assoc.get p s1.files.own ≠ none := by
          rintro rfl hno
          have hnone : snapHash files dunderProto = none :=
            snapHash_eq_none_iff.mpr ((congrArg PushView.state hview).symm.trans hno)
          rw [hlookup, hnone] at hwhy
          rcases hwhy with ⟨r, -, h⟩ | ⟨-, h⟩
          · cases h
          · have hproto1 : dunderProto = dunderProto → s1.files.proto = none := fun _ => by
              have h := congrArg PushView.proto hview
              simpa [PushState.view, hproto] using h
            rw [(lookup_truthy_iff hproto1).mpr (.inr (.inl mem_prototypeNames))] at h
            cases h
        refine alike_iff_of_stored S hnode hs hproto hsnap (hhash ▸ hlookup ▸ hne) hanswer ?_ ?_
        · rw [hafter, show Assoc.get p st.vault = some content from
            (congrArg PushView.stored hend).trans (Assoc.get_set_self _ _ _), Option.filter_some,
            answerTo_kind S hanswer, if_pos]
          exact ((synced_iff S).mp hs).2.2
        · rw [snapHash, show Assoc.get p st.files.own = _ from
            (congrArg PushView.state hend).trans (get_set_self hslot _).1, ← hhash]
          rfl
  · have hnone : remoteHash S vault p = none := hsnap.symm.trans (snapHash_eq_none_iff.mpr hown)
    refine alike_iff_of_gone S hfolder hl ?_
      (snapHash_eq_none_iff.mpr ((congrArg PushView.state hend).trans hown))
    rw [remoteHash_eq_none_iff, hsame (congrArg PushView.stored hend), ← remoteHash_eq_none_iff,
      hnone]
  · have hstored1 : (s1.view p).stored = Assoc.get p vault := congrArg PushView.stored hview
    cases hp with
    | here h =>
        have hown := h.resolve_left (by simp [hl])
        have hown' : Assoc.get p files.own = none :=
          (congrArg PushView.state hview).symm.trans hown
        have hnone : remoteHash S vault p = none :=
          hsnap.symm.trans (snapHash_eq_none_iff.mpr hown')
        refine alike_iff_of_gone S hfolder hl ?_
          (snapHash_eq_none_iff.mpr ((congrArg PushView.state hend).trans hown))
        rw [remoteHash_eq_none_iff, hsame ((congrArg PushView.stored hend).trans hstored1),
          ← remoteHash_eq_none_iff, hnone]
    | gone _ hstate hr =>
        refine alike_iff_of_gone S hfolder hl ?_
          (snapHash_eq_none_iff.mpr
            ((congrArg PushView.state hend).trans (Assoc.get_erase_self _ _)))
        rw [remoteHash_eq_none_iff, hsame ((congrArg PushView.stored hend).trans hstored1), hr]
    | conflict reason _ =>
        rw [hend, PushState.view] at hreasons
        simp at hreasons
    | deleted _ _ hstate hr hhash =>
        refine alike_iff_of_gone S hfolder hl ?_
          (snapHash_eq_none_iff.mpr
            ((congrArg PushView.state hend).trans (Assoc.get_erase_self _ _)))
        rw [remoteHash_eq_none_iff, hafter, show Assoc.get p st.vault = none from
          (congrArg PushView.stored hend).trans (Assoc.get_erase_self _ _)]
        rfl

/-- What the scan does not see has no entry after a push. -/
theorem snapHash_of_leftOut {st : PushState ν η} (hfolder : Assoc.Wf folder)
    (hfiles : Assoc.Wf files.own) (hrun : pushFiles S V false vault folder files = .ok st)
    (hfree : st.conflicts = []) (hout : LeftOut S folder p) : snapHash st.files p = none := by
  obtain ⟨bytes, mtimeMs, hnode, hs⟩ := hout
  have hscan : Assoc.get p (scanLocal S folder files) = none := by
    rw [scanned_none_iff S hfolder, localHash, hnode]
    exact if_neg (by simp [hs])
  have hreasons : (st.view p).reasons = [] := by rw [PushState.view, hfree]; rfl
  rw [snapHash_eq_none_iff]
  rcases pushFiles_at S hfolder hfiles hrun p with
    ⟨l, -, -, hl, -⟩ | ⟨-, ⟨hown, hend⟩ | ⟨s1, s2, hview, hp, hend⟩⟩
  · rw [hscan] at hl
    cases hl
  · exact (congrArg PushView.state hend).trans hown
  · refine (congrArg PushView.state hend).trans ?_
    cases hp with
    | here h => exact h.resolve_left (by simp [hscan])
    | gone _ _ _ => exact Assoc.get_erase_self _ _
    | deleted _ _ _ _ _ => exact Assoc.get_erase_self _ _
    | conflict reason _ =>
        rw [hend, PushState.view] at hreasons
        simp at hreasons

omit [DecidableEq η] in
/-- Where the scan sees what there is, it sees whether the sides are alike. -/
theorem converged_iff_alike (hout : ¬LeftOut S folder p) :
    Converged S vault folder files p ↔ Alike S vault folder files p := by
  have hseen {bytes : Bytes} {mtimeMs : Nat}
      (hnode : Assoc.get p folder = some (.file bytes mtimeMs)) : synced S p = true := by
    by_contra hs
    exact hout ⟨bytes, mtimeMs, hnode, by simpa using hs⟩
  rw [Converged, Alike]
  refine or_congr (and_congr_right fun _ => and_congr_left fun _ => ?_) ?_
  · constructor
    · intro h
      rw [localHash]
      split
      · next hnode => exact absurd hnode (h _ _)
      · rfl
    · intro h bytes mtimeMs hnode
      rw [localHash_of S hnode (hseen hnode)] at h
      cases h
  · constructor
    · rintro ⟨bytes, mtimeMs, r, hnode, h⟩
      exact ⟨bytes, mtimeMs, r, hnode, hseen hnode, h⟩
    · rintro ⟨bytes, mtimeMs, r, hnode, -, h⟩
      exact ⟨bytes, mtimeMs, r, hnode, h⟩

end

/-! ## What a pull leaves for the push -/

section

variable {vault : Vault ν} {folder : Folder} {files : Files η} {p : JsString}
  {now : JsString → Nat} {st : PullState η}

theorem wf_pullFiles (hfolder : Assoc.Wf folder) (hfiles : Assoc.Wf files.own)
    (hrun : pullFiles S false now vault folder files = .ok st) :
    Assoc.Wf st.folder ∧ Assoc.Wf st.files.own := by
  obtain ⟨s1, hlist, rfl⟩ := pullListed_of_pullFiles S now hrun
  refine List.foldlRecOn (motive := fun s2 : PullState η => Assoc.Wf s2.folder ∧
    Assoc.Wf s2.files.own) _ _ (wf_pullListed S now hfolder hfiles hlist) ?_
  rintro s2 ⟨h1, h2⟩ q -
  rw [pullDeleted]
  split
  · exact ⟨h1, h2⟩
  · split
    · exact ⟨h1, h2⟩
    · dsimp only
      split
      · exact ⟨h1, h2⟩
      · refine ⟨?_, Assoc.wf_erase h2⟩
        dsimp only
        split
        · exact Assoc.wf_erase h1
        · exact h1

theorem deletedView_state {scanned : List (JsString × LocalEntry η)} {view : PathView η}
    {state : SyncFileState η} (h : (deletedView scanned p view).state = some state) :
    view.state = some state := by
  rw [deletedView] at h
  split at h
  · exact h
  · split at h
    · exact h
    · cases h

/-- What is left without a conflict: no entry, and then no file either. -/
theorem deletedView_free {scanned : List (JsString × LocalEntry η)} {view : PathView η}
    (h : (deletedView scanned p view).reasons = []) :
    (deletedView scanned p view).state = none ∧
      (view.state = none ∧ deletedView scanned p view = view ∨
        view.state ≠ none ∧ (deletedView scanned p view).node =
          if (Assoc.get p scanned).isSome then none else view.node) := by
  rw [deletedView] at h ⊢
  cases hget : view.state with
  | none => exact ⟨hget, .inl ⟨rfl, rfl⟩⟩
  | some snap =>
      rw [hget] at h
      dsimp only at h ⊢
      split at h
      · simp at h
      · next hany =>
          rw [if_neg hany]
          exact ⟨rfl, .inr ⟨Option.some_ne_none _, rfl⟩⟩

/-- No entry of a snapshot after a pull is one that is to be forgotten. -/
theorem forget_reread (hvault : Assoc.Wf vault) (hfolder : Assoc.Wf folder)
    (hfiles : Assoc.Wf files.own) (hproto : files.proto = none)
    (hrun : pull S false now vault folder files = .ok st) :
    forgetIgnoredAttachments S st.files.reread = st.files.reread := by
  rw [pull] at hrun
  have hwf := wf_forget S hfiles
  have hkinds : ∀ e ∈ (forgetIgnoredAttachments S files).own,
      shouldSyncFile S e.1 e.2.kind = true := fun e he => (List.mem_filter.mp he).2
  have hown : (st.files.own.filter fun e => shouldSyncFile S e.1 e.2.kind) = st.files.own := by
    rw [List.filter_eq_self]
    rintro ⟨p, state⟩ he
    have hget := Assoc.get_of_mem (wf_pullFiles S hfolder hwf hrun).2 he
    have hkept (h : (st.view p).state = Assoc.get p (forgetIgnoredAttachments S files).own) :
        shouldSyncFile S p state.kind = true :=
      hkinds (p, state) (Assoc.mem_of_get (h.symm.trans hget))
    rcases pullFiles_at S now hvault hfolder hwf hproto hrun p with
      ⟨r, hr, hat⟩ | ⟨-, hview⟩
    · have hs := ((mem_listRemote S).mp (Assoc.mem_of_get hr)).2
      cases hat with
      | kept _ _ hstate _ => exact hkept hstate
      | conflict _ _ _ _ _ hstate _ => exact hkept hstate
      | adopted _ _ _ _ _ _ hstate _ =>
          rw [show (st.view p).state = some state from hget] at hstate
          split at hstate
          · cases hstate
          · obtain rfl := Option.some.inj hstate
            exact hs
      | written _ _ _ _ _ _ hstate _ =>
          rw [show (st.view p).state = some state from hget] at hstate
          obtain rfl := Option.some.inj hstate
          exact hs
    · have hsome : (st.view p).state = some state := hget
      rw [hview] at hsome
      exact hkinds (p, state) (Assoc.mem_of_get (deletedView_state hsome))
  rw [forgetIgnoredAttachments, Files.reread, hown]

variable (vault files p) in
/-- A `__proto__` that the vault has and the snapshot has not. -/
def Unrecorded : Prop :=
  p = dunderProto ∧ snapHash files p = none ∧ remoteHash S vault p ≠ none

/-- Where a pull without conflicts leaves the snapshot. -/
theorem snapHash_of_pull (hvault : Assoc.Wf vault) (hfolder : Assoc.Wf folder)
    (hfiles : Assoc.Wf files.own) (hproto : files.proto = none)
    (hrun : pullFiles S false now vault folder files = .ok st) (hfree : st.conflicts = [])
    (hrec : ¬Unrecorded S vault files p) :
    snapHash st.files.reread p = remoteHash S vault p ∨
      isExcluded p = true ∧ Assoc.get p (listRemote S vault) ≠ none := by
  have hreasons : (st.view p).reasons = [] := by rw [PullState.view, hfree]; rfl
  have hrecorded {state : SyncFileState η} (hstate : (st.view p).state = some state) :
      snapHash st.files.reread p = some state.hash := congrArg (Option.map _) hstate
  rcases pullFiles_at S now hvault hfolder hfiles hproto hrun p with ⟨r, hr, hat⟩ | ⟨hr, hview⟩
  · have hremote := remoteHash_of S hr
    rw [hremote, hr]
    cases hat with
    | kept hwhy _ hstate _ =>
        rcases hwhy with hex | hsnap
        · exact .inr ⟨hex, Option.some_ne_none _⟩
        · exact .inl ((congrArg (Option.map _) hstate).trans hsnap)
    | conflict _ _ _ _ _ _ hno => exact absurd hreasons hno
    | adopted _ _ _ _ _ _ hstate _ =>
        rw [if_neg] at hstate
        · exact .inl (hrecorded hstate)
        · rintro ⟨hp, hnew⟩
          exact hrec ⟨hp, snapHash_eq_none_iff.mpr hnew, by rw [hremote]; simp⟩
    | written _ _ _ _ _ _ hstate _ => exact .inl (hrecorded hstate)
  · have hnone : (st.view p).state = none := by
      rw [hview] at hreasons ⊢
      exact (deletedView_free hreasons).1
    exact .inl ((snapHash_eq_none_iff.mpr hnone).trans ((remoteHash_eq_none_iff S).mpr hr).symm)

variable (vault folder files p st) in
/-- What a pull without conflicts leaves at a path: what was there, of a path that had not
changed remotely; or what is listed, recorded; or nothing. -/
inductive LeftAt : Prop
  | same : snapHash files p = remoteHash S vault p →
      Assoc.get p st.folder = Assoc.get p folder →
      Assoc.get p st.files.own = Assoc.get p files.own → LeftAt
  | recorded {bytes : Bytes} {mtimeMs : Nat} {r : Stored ν} {state : SyncFileState η} :
      snapHash files p ≠ remoteHash S vault p →
      Assoc.get p st.folder = some (.file bytes mtimeMs) →
      Assoc.get p st.files.own = some state → state.size = bytes.length →
      state.mtimeMs = mtimeMs → Assoc.get p (listRemote S vault) = some r →
      state.hash = (fetchRemote S r).hash →
      (hashLocalContent S (kindForPath p) bytes = state.hash ∨
        hashLocalContent S r.kind bytes = state.hash) → LeftAt
  | gone : snapHash files p ≠ none → remoteHash S vault p = none →
      localHash S st.folder p = none → Assoc.get p st.files.own = none → LeftAt

theorem leftAt_of_pull (hvault : Assoc.Wf vault) (hstored : ∀ e ∈ vault, e.2.Wf)
    (hfolder : Assoc.Wf folder) (hfiles : Assoc.Wf files.own) (hproto : files.proto = none)
    (hrun : pullFiles S false now vault folder files = .ok st) (hfree : st.conflicts = [])
    (hex : isExcluded p = false) (hrec : ¬Unrecorded S vault files p) :
    LeftAt S vault folder files p st := by
  have hreasons : (st.view p).reasons = [] := by rw [PullState.view, hfree]; rfl
  rcases pullFiles_at S now hvault hfolder hfiles hproto hrun p with ⟨r, hr, hat⟩ | ⟨hr, hview⟩
  · have hwf : r.Wf := hstored _ ((mem_listRemote S).mp (Assoc.mem_of_get hr)).1
    have hremote := remoteHash_of S hr
    cases hat with
    | kept hwhy hnode hstate _ =>
        exact .same (by rw [hremote]; exact hwhy.resolve_left (by simp [hex])) hnode hstate
    | conflict _ _ _ _ _ _ hno => exact absurd hreasons hno
    | @adopted bytes mtimeMs _ hne hfile hs hscan hnode hstate _ =>
        rw [if_neg] at hstate
        · refine .recorded (by rw [hremote]; exact hne) (Eq.trans hnode hfile) hstate rfl rfl hr
            rfl (.inl ?_)
          rcases scanHash_cases S hproto p bytes mtimeMs with h | ⟨state, hget, -, -, h⟩
          · exact h.symm.trans hscan
          · rw [snapHash, hget] at hne
            exact absurd (congrArg some (h.symm.trans hscan)) hne
        · rintro ⟨hp, hnew⟩
          exact hrec ⟨hp, snapHash_eq_none_iff.mpr hnew, by rw [hremote]; simp⟩
    | written _ hne _ _ _ hnode hstate _ =>
        exact .recorded (by rw [hremote]; exact hne) hnode hstate rfl rfl hr rfl
          (.inr (hashLocalContent_fetchRemote S hwf))
  · have hremote := (remoteHash_eq_none_iff S).mpr hr
    rw [hview] at hreasons
    obtain ⟨hstate, ⟨hnone, hsame⟩ | ⟨hsome, hnode⟩⟩ := deletedView_free hreasons
    · rw [← hview] at hsame
      exact .same (by rw [hremote]; exact snapHash_eq_none_iff.mpr hnone)
        (congrArg PathView.node hsame) (congrArg PathView.state hsame)
    · rw [← hview] at hstate hnode
      refine .gone (fun h => hsome (snapHash_eq_none_iff.mp h)) hremote ?_ hstate
      have hnode : Assoc.get p st.folder = _ := hnode
      cases hl : Assoc.get p (scanLocal S folder files) with
      | some l =>
          rw [localHash, hnode, hl]
          rfl
      | none =>
          rw [← (scanned_none_iff S hfolder).mp hl, localHash, localHash, hnode, hl]
          rfl

section

variable (hat : LeftAt S vault folder files p st)
include hat

omit [DecidableEq η] in
/-- No more is to be sent than before, and no less. -/
theorem LeftAt.sentWhole_iff (V : VaultHandle ν η) (hproto : files.proto = none) :
    SentWhole S vault st.folder st.files.reread p V ↔ SentWhole S vault folder files p V := by
  cases hat with
  | same hsnap hnode hstate =>
      have hlookup : st.files.reread.lookup p = files.lookup p := by
        rw [Files.lookup, Files.lookup, Files.reread, hstate, hproto]
      have hscan (bytes : Bytes) (mtimeMs : Nat) :
          scanHash S st.files.reread p bytes mtimeMs = scanHash S files p bytes mtimeMs := by
        rw [scanHash, scanHash, hlookup]
      have hsnap' : snapHash st.files.reread p = snapHash files p := by
        rw [snapHash, snapHash, Files.reread, hstate]
      simp only [SentWhole, hnode, hscan, hsnap']
  | @recorded bytes mtimeMs r state hne hnode hstate hsize htime _ _ _ =>
      refine iff_of_true ?_ fun _ _ _ _ _ hsnap => absurd hsnap hne
      intro bytes' mtimeMs' content hnode' _ _ hscan
      obtain ⟨rfl, rfl⟩ := Node.file.inj (Option.some.inj (hnode.symm.trans hnode'))
      have hget : Assoc.get p st.files.reread.own = some state := hstate
      rw [scanHash, lookup_of_get hget, snapHash, hget] at hscan
      exact absurd (congrArg some (if_pos ⟨hsize, htime⟩).symm) hscan
  | gone hne hremote hlocal _ =>
      refine iff_of_true ?_ fun _ _ _ _ _ hsnap => absurd (hsnap.trans hremote) hne
      intro bytes mtimeMs content hnode hs
      rw [localHash_of S hnode hs] at hlocal
      cases hlocal

omit [DecidableEq η] in
theorem LeftAt.maskedSame_iff :
    MaskedSame S vault st.folder st.files.reread p ↔ MaskedSame S vault folder files p := by
  cases hat with
  | same hsnap hnode hstate =>
      have hown : Assoc.get p st.files.reread.own = Assoc.get p files.own := hstate
      simp only [MaskedSame, Masked, snapHash, hnode, hown]
  | @recorded bytes mtimeMs r state hne hnode hstate hsize htime hr hhash hagree =>
      refine iff_of_true ?_ ?_
      · rintro bytes' mtimeMs' r' ⟨b, m, state', hb, -, hget, -, -, hmasked⟩ hnode' hr' -
        obtain ⟨rfl, rfl⟩ := Node.file.inj (Option.some.inj (hnode.symm.trans hb))
        obtain ⟨rfl, rfl⟩ := Node.file.inj (Option.some.inj (hnode.symm.trans hnode'))
        obtain rfl := Option.some.inj (hr.symm.trans hr')
        obtain rfl := Option.some.inj (hstate.symm.trans hget)
        rw [← hhash]
        exact hagree.resolve_left hmasked.symm
      · intro _ _ r' _ _ hr' hsnap
        exact absurd (by rw [hsnap, remoteHash_of S hr']) hne
  | gone hne hremote _ hstate =>
      refine iff_of_true ?_ ?_
      · rintro - - - ⟨-, -, state, -, -, hget, -⟩
        have hnone : Assoc.get p st.files.reread.own = none := hstate
        rw [hnone] at hget
        cases hget
      · intro _ _ r' _ _ hr' _
        rw [remoteHash_of S hr'] at hremote
        cases hremote

end

/-- A `__proto__` that is new on both sides, and the same, has no entry yet. -/
theorem unrecorded_of_pull (hvault : Assoc.Wf vault) (hfolder : Assoc.Wf folder)
    (hfiles : Assoc.Wf files.own) (hproto : files.proto = none)
    (hrun : pullFiles S false now vault folder files = .ok st) (hfree : st.conflicts = [])
    (hrec : Unrecorded S vault files p) :
    localHash S st.folder p = remoteHash S vault p ∧ Assoc.get p st.files.own = none := by
  obtain ⟨hp, hsnap, hremote⟩ := hrec
  have hreasons : (st.view p).reasons = [] := by rw [PullState.view, hfree]; rfl
  have hown := snapHash_eq_none_iff.mp hsnap
  rcases pullFiles_at S now hvault hfolder hfiles hproto hrun p with ⟨r, hr, hat⟩ | ⟨hr, -⟩
  · cases hat with
    | kept hwhy _ _ _ =>
        rcases hwhy with h | h
        · rw [hp] at h
          exact absurd h (by decide)
        · rw [hsnap] at h
          cases h
    | conflict _ _ _ _ _ _ hno => exact absurd hreasons hno
    | adopted _ _ hfile hs hscan hnode hstate _ =>
        rw [if_pos ⟨hp, hown⟩] at hstate
        refine ⟨?_, hstate⟩
        rw [localHash_of S (Eq.trans hnode hfile) hs, remoteHash_of S hr, ← hscan,
          scanHash_of_new S hproto hsnap]
    | written _ _ _ hwhy _ _ _ _ =>
        rcases hwhy with ⟨h, -⟩ | ⟨-, hinh, -⟩
        · exact absurd hsnap h
        · obtain ⟨pre, post, hsplit⟩ := List.append_of_mem (Assoc.mem_of_get hr)
          exact absurd ⟨pre, r, post, hsplit, .inl (hp ▸ mem_prototypeNames)⟩ hinh
  · exact absurd ((remoteHash_eq_none_iff S).mpr hr) hremote

end

section

variable {V : VaultHandle ν η} {vault : Vault ν} {folder : Folder} {files : Files η} {p : JsString}

/-- Nor has it one after a push. -/
theorem not_alike_of_unrecorded {st : PushState ν η} (hfolder : Assoc.Wf folder)
    (hfiles : Assoc.Wf files.own) (hproto : files.proto = none)
    (hrun : pushFiles S V false vault folder files = .ok st) (hfree : st.conflicts = [])
    (hrec : Unrecorded S vault files p) (hlocal : localHash S folder p ≠ none) :
    ¬Alike S st.vault folder st.files p := by
  obtain ⟨rfl, hsnap, hremote⟩ := hrec
  have hown := snapHash_eq_none_iff.mp hsnap
  have hreasons : (st.view dunderProto).reasons = [] := by rw [PushState.view, hfree]; rfl
  have hnone : snapHash st.files dunderProto = none → ¬Alike S st.vault folder st.files
      dunderProto := by
    rintro hst (⟨-, h, -⟩ | ⟨_, _, _, _, _, _, h, -⟩)
    · exact hlocal h
    · rw [hst] at h
      cases h
  refine hnone (snapHash_eq_none_iff.mpr ?_)
  rcases pushFiles_at S hfolder hfiles hrun dunderProto with
    ⟨l, s1, s2, hl, hview, hp, hend⟩ | ⟨hl, -⟩
  · have hlookup := lookup_of_pushView hproto hview
    have hown1 : Assoc.get dunderProto s1.files.own = none :=
      (congrArg PushView.state hview).trans hown
    refine (congrArg PushView.state hend).trans ?_
    cases hp with
    | unchanged hsame =>
        rw [hlookup, hsnap] at hsame
        cases hsame
    | same _ _ _ hrecord =>
        obtain ⟨state, rfl⟩ := recordLocal_some hrecord
        show Assoc.get dunderProto (s1.files.set dunderProto _).own = none
        rw [set_first hown1]
        exact hown1
    | conflict reason =>
        rw [hend, PushState.view] at hreasons
        simp at hreasons
    | stored _ _ hwhy _ _ =>
        rcases hwhy with ⟨r, -, h⟩ | ⟨h, -⟩
        · rw [hlookup, hsnap] at h
          cases h
        · exact absurd ((remoteHash_eq_none_iff S).mpr h) hremote
  · exact absurd ((scanned_none_iff S hfolder).mp hl) hlocal

end

/-! ## A pull again -/

section

variable {vault : Vault ν} {folder : Folder} {files : Files η} {p : JsString}
  {now : JsString → Nat} {st : PullState η} (hvault : Assoc.Wf vault) (hfolder : Assoc.Wf folder)
  (hfiles : Assoc.Wf files.own) (hproto : files.proto = none)
  (hrun : pullFiles S false now vault folder files = .ok st)
include hvault hfolder hfiles hproto hrun

/-- A path where the snapshot has what is listed, or that is passed over. -/
theorem pullFiles_keeps (hsame : snapHash files p = remoteHash S vault p ∨
      isExcluded p = true ∧ Assoc.get p (listRemote S vault) ≠ none) :
    (st.view p).node = Assoc.get p folder ∧ (st.view p).state = Assoc.get p files.own ∧
      (st.view p).reasons = [] := by
  rcases pullFiles_at S now hvault hfolder hfiles hproto hrun p with ⟨r, hr, hat⟩ | ⟨hr, hview⟩
  · have hboth (hex : isExcluded p = false) (hne : snapHash files p ≠ some (fetchRemote S r).hash) :
        False := by
      rcases hsame with h | ⟨h, -⟩
      · exact hne (h.trans (remoteHash_of S hr))
      · exact Bool.false_ne_true (hex.symm.trans h)
    cases hat with
    | kept _ hnode hstate hreasons => exact ⟨hnode, hstate, hreasons⟩
    | conflict hex hne _ _ _ _ _ => exact (hboth hex hne).elim
    | adopted hex hne _ _ _ _ _ _ => exact (hboth hex hne).elim
    | written hex hne _ _ _ _ _ _ => exact (hboth hex hne).elim
  · have hnone : Assoc.get p files.own = none := by
      rcases hsame with h | ⟨-, h⟩
      · exact snapHash_eq_none_iff.mp (h.trans ((remoteHash_eq_none_iff S).mpr hr))
      · exact absurd hr h
    rw [hview, deletedView]
    simp only [PullState.view, hnone]
    exact ⟨trivial, trivial, rfl⟩

/-- A `__proto__` that is the same on both sides, and has no entry. -/
theorem pullFiles_keeps_unrecorded (hrec : Unrecorded S vault files p)
    (hlocal : localHash S folder p = remoteHash S vault p) :
    (st.view p).node = Assoc.get p folder ∧ (st.view p).state = Assoc.get p files.own ∧
      (st.view p).reasons = [] := by
  obtain ⟨hp, hsnap, hremote⟩ := hrec
  have hown := snapHash_eq_none_iff.mp hsnap
  rcases pullFiles_at S now hvault hfolder hfiles hproto hrun p with ⟨r, hr, hat⟩ | ⟨hr, -⟩
  · rw [remoteHash_of S hr] at hlocal
    have hscanned := @scanned_ne_iff _ _ S _ _ p hfolder hproto hsnap (fetchRemote S r).hash
    cases hat with
    | kept _ hnode hstate hreasons => exact ⟨hnode, hstate, hreasons⟩
    | conflict _ _ hno _ _ _ _ => exact absurd hlocal (hscanned.mp hno)
    | adopted _ _ _ _ _ hnode hstate hreasons =>
        rw [if_pos ⟨hp, hown⟩] at hstate
        exact ⟨hnode, hstate.trans hown.symm, hreasons⟩
    | written _ _ hno _ _ _ _ _ => exact absurd hlocal (hscanned.mp hno)
  · exact absurd ((remoteHash_eq_none_iff S).mpr hr) hremote

end

/-- A pull again, at any time after one without conflicts, has none and leaves every file and
entry as it is. -/
theorem pull_again (now now' : JsString → Nat) {vault : Vault ν} {folder : Folder}
    {files : Files η} {st : PullState η} (hvault : Assoc.Wf vault) (hfolder : Assoc.Wf folder)
    (hfiles : Assoc.Wf files.own) (hproto : files.proto = none)
    (hpull : pull S false now vault folder files = .ok st) (hpulled : st.conflicts = []) :
    ∃ st', pull S false now' vault st.folder st.files.reread = .ok st' ∧ st'.conflicts = [] ∧
      ∀ p, Assoc.get p st'.folder = Assoc.get p st.folder ∧
        Assoc.get p st'.files.own = Assoc.get p st.files.own := by
  have hwf := wf_forget S hfiles
  obtain ⟨hfolder', hwf'⟩ : Assoc.Wf st.folder ∧ Assoc.Wf st.files.reread.own :=
    wf_pullFiles S hfolder hwf hpull
  obtain ⟨st', hrun⟩ : ∃ st', pull S false now' vault st.folder st.files.reread = .ok st' :=
    pull_ok S now' hvault hfolder'
  have hkept (p : JsString) : (st'.view p).node = Assoc.get p st.folder ∧
      (st'.view p).state = Assoc.get p st.files.own ∧ (st'.view p).reasons = [] := by
    have hrun' := hrun
    rw [pull, forget_reread S hvault hfolder hfiles hproto hpull] at hrun'
    by_cases hrec : Unrecorded S vault (forgetIgnoredAttachments S files) p
    · obtain ⟨hlocal, hown⟩ := unrecorded_of_pull S hvault hfolder hwf hproto hpull hpulled hrec
      exact @pullFiles_keeps_unrecorded _ _ S _ vault st.folder st.files.reread p now' st' hvault
        hfolder' hwf' rfl hrun' ⟨hrec.1, snapHash_eq_none_iff.mpr hown, hrec.2.2⟩ hlocal
    · exact @pullFiles_keeps _ _ S _ vault st.folder st.files.reread p now' st' hvault hfolder'
        hwf' rfl hrun' (snapHash_of_pull S hvault hfolder hwf hproto hpull hpulled hrec)
  refine ⟨st', hrun, ?_, fun p => ⟨(hkept p).1, (hkept p).2.1⟩⟩
  cases hconflicts : st'.conflicts with
  | nil => rfl
  | cons c rest =>
      have hno := (hkept c.1).2.2
      rw [PullState.view, hconflicts] at hno
      simp at hno

/-- A note that a pull writes to an empty folder. -/
def pulledNote : PullState Bytes where
  folder := [(ascii "a.md", .file (toBytes (ascii "theirs")) 5)]
  files.own := [(ascii "a.md",
    { kind := .note, hash := toBytes (ascii "theirs"), size := 6, mtimeMs := 5 })]
  applied := [("create", ascii "a.md")]

theorem pull_again_note : ∃ st', pull wholeDigest false (fun _ => 7) theirNote pulledNote.folder
      pulledNote.files.reread = .ok st' ∧ st'.conflicts = [] ∧
    ∀ p, Assoc.get p st'.folder = Assoc.get p pulledNote.folder ∧
      Assoc.get p st'.files.own = Assoc.get p pulledNote.files.own :=
  @pull_again _ _ wholeDigest _ (fun _ => 5) (fun _ => 7) theirNote [] {} pulledNote
    (show Assoc.Wf theirNote from List.nodup_singleton _) Assoc.wf_nil Assoc.wf_nil rfl rfl rfl

/-! ## The two together -/

/-- Where a pull and then a push, both without conflicts, leave the three sides the same. -/
theorem sync_converges (V : VaultHandle ν η) (now : JsString → Nat) {vault : Vault ν}
    {folder : Folder} {files : Files η} {st : PullState η} {st' : PushState ν η}
    (hvault : Assoc.Wf vault) (hstored : ∀ e ∈ vault, e.2.Wf) (hfolder : Assoc.Wf folder)
    (hfiles : Assoc.Wf files.own) (hproto : files.proto = none)
    (hpull : pull S false now vault folder files = .ok st) (hpulled : st.conflicts = [])
    (hpush : push S V false vault st.folder st.files.reread = .ok st')
    (hpushed : st'.conflicts = []) (p : JsString) (hex : isExcluded p = false) :
    Converged S st'.vault st.folder st'.files p ↔
      SentWhole S vault folder (forgetIgnoredAttachments S files) p V ∧
        MaskedSame S vault folder (forgetIgnoredAttachments S files) p ∧
        ¬Unrecorded S vault (forgetIgnoredAttachments S files) p ∧
        ¬LeftOut S st.folder p := by
  have hwf := wf_forget S hfiles
  rw [push, forget_reread S hvault hfolder hfiles hproto hpull] at hpush
  obtain ⟨hfolder', hwf'⟩ := wf_pullFiles S hfolder hwf hpull
  by_cases hout : LeftOut S st.folder p
  · -- a file without an entry
    have hsnap : snapHash st'.files p = none :=
      @snapHash_of_leftOut _ _ S _ V vault st.folder st.files.reread p st' hfolder' hwf' hpush
        hpushed hout
    obtain ⟨bytes, mtimeMs, hnode, -⟩ := id hout
    refine iff_of_false ?_ fun h => h.2.2.2 hout
    rintro (⟨-, hno, -⟩ | ⟨_, _, _, _, _, h, -⟩)
    · exact hno _ _ hnode
    · rw [hsnap] at h
      cases h
  rw [converged_iff_alike S hout, and_iff_left hout]
  by_cases hrec : Unrecorded S vault (forgetIgnoredAttachments S files) p
  · obtain ⟨hlocal, hown⟩ := unrecorded_of_pull S hvault hfolder hwf hproto hpull hpulled hrec
    have hrec' : Unrecorded S vault st.files.reread p :=
      ⟨hrec.1, snapHash_eq_none_iff.mpr hown, hrec.2.2⟩
    exact iff_of_false
      (@not_alike_of_unrecorded _ _ S _ V vault st.folder st.files.reread p st' hfolder' hwf'
        rfl hpush hpushed hrec' (hlocal ▸ hrec.2.2))
      fun h => h.2.2 hrec
  · have hat := leftAt_of_pull S hvault hstored hfolder hwf hproto hpull hpulled hex hrec
    have hsnap := (snapHash_of_pull S hvault hfolder hwf hproto hpull hpulled hrec).resolve_right
      fun h => Bool.false_ne_true (hex.symm.trans h.1)
    rw [@alike_iff_of_push _ _ S _ V vault st.folder st.files.reread p st' hvault hfolder' hwf'
      rfl hpush hpushed hsnap, hat.sentWhole_iff S V hproto, hat.maskedSame_iff S,
      and_iff_left hrec]

theorem sync_converges_note :
    Converged wholeDigest theirNote pulledNote.folder pulledNote.files (ascii "a.md") ↔
      SentWhole wholeDigest theirNote [] (forgetIgnoredAttachments wholeDigest {}) (ascii "a.md")
          takesAll ∧
        MaskedSame wholeDigest theirNote [] (forgetIgnoredAttachments wholeDigest {})
          (ascii "a.md") ∧
        ¬Unrecorded wholeDigest theirNote (forgetIgnoredAttachments wholeDigest {})
          (ascii "a.md") ∧
        ¬LeftOut wholeDigest pulledNote.folder (ascii "a.md") :=
  @sync_converges _ _ wholeDigest _ takesAll (fun _ => 5) theirNote [] {} pulledNote
    { vault := theirNote, files := pulledNote.files }
    (show Assoc.Wf theirNote from List.nodup_singleton _)
    (fun e he => by obtain rfl := List.mem_singleton.mp he; trivial)
    Assoc.wf_nil Assoc.wf_nil rfl rfl rfl rfl rfl (ascii "a.md") rfl

end Realtime.Cli
