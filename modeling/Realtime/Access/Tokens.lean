import Mathlib.Data.List.Infix
import Mathlib.Tactic
import Realtime.Access.Permissions
import Realtime.Lib.Assoc
import Realtime.Lib.Transition

/-!
# Document tokens

The vault's index says at which path a document is. Tokens are not decided from
it: `vault_files` mirrors the index as a table from document to path, and the path
found there decides. Documents that are not in the table have fallbacks of their
own.

`reconcile_vault_files` prunes the mirror by the index's `files` alone, so a
listing takes the `structured` documents out of it, and `upsert_file` lets whoever
may write a path put any document there that is not in the table.
-/

namespace Realtime.Access

open Lib

/-! ## Document ids -/

def separator : Str := ['_', '_']

/-- `str::split("__")` -/
def splitSeparator : Str → List Str
  | [] => [[]]
  | [c] => [[c]]
  | c :: d :: rest =>
      if c = '_' ∧ d = '_' then [] :: splitSeparator rest
      else
        match splitSeparator (d :: rest) with
        | [] => [[c]]
        | part :: parts => (c :: part) :: parts

def safeDocId (id : Str) : Bool :=
  !id.isEmpty && id.all fun c => c.isAlphanum || c == '-' || c == '_'

def validateDocumentId (id : Str) : Bool := safeDocId id && Str.byteLength id ≤ 255

/-- `plugindb::parse_doc_id`, without the parts. -/
def isPluginDb (id : Str) : Bool :=
  match splitSeparator id with
  | [vault, tag, plugin, name] =>
      tag = "plugindb".toList && !vault.isEmpty && !plugin.isEmpty && !name.isEmpty
  | _ => false

/-- `content_document_vault(id).is_some()` -/
def isContentDocument (id : Str) : Bool :=
  match splitSeparator id with
  | vault :: part :: parts =>
      !vault.isEmpty && !(part.isEmpty && parts.isEmpty) && !isPluginDb id
  | _ => false

def pseudoPath (plugin name : Str) : Str :=
  ".realtime/plugin-dbs/".toList ++ plugin ++ "/".toList ++ name

/-! ## The server -/

variable {υ : Type}

/-- What stays fixed: the members, the table of permissions and the index. -/
structure Vault (υ : Type) where
  id : Str
  member : υ → Bool
  permissions : List (Permission υ)
  /-- The index's `files`, path to guid. -/
  files : List (Str × Str)
  /-- The index's `structured`, path to guid. -/
  structured : List (Str × Str)
  maxDocuments : Nat

namespace Vault

def docId (v : Vault υ) (guid : Str) : Str := v.id ++ separator ++ guid

/-- The index maps the path to the document. -/
def Indexed (v : Vault υ) (path guid : Str) : Prop :=
  (path, guid) ∈ v.files ∨ (path, guid) ∈ v.structured

end Vault

structure PendingDocumentCreation (υ : Type) where
  userId : υ
  path : Str
  expiresAtMs : Int

structure Server (υ : Type) where
  /-- `vault_files`, guid to path. -/
  vaultFiles : List (Str × Str)
  /-- The documents of the vault that exist. -/
  documents : List Str
  pendingDocumentCreations : List (Str × PendingDocumentCreation υ)

/-- What `doc_token` asks for; `other` is any unknown text. -/
inductive RequestedLevel where
  | full
  | readOnly
  | other
  deriving DecidableEq

structure DocTokenBody where
  docId : Str
  path : Option Str
  authorization : Option RequestedLevel

structure DocumentAuthorization where
  level : Level
  path : Str
  requiresCreationReservation : Bool

/-! ## The mirror -/

/-- `upsert_vault_file` -/
def upsertVaultFile (rows : List (Str × Str)) (path guid : Str) : List (Str × Str) :=
  Assoc.set guid path rows

/-- The rows to delete, by guid, and the entries to upsert. -/
def planReconcile (index rows : List (Str × Str)) : List Str × List (Str × Str) :=
  ((rows.filter fun row => row.1 ∉ index.map Prod.snd).map Prod.fst,
    index.filter fun entry => Assoc.get entry.2 rows ≠ some entry.1)

def reconcileVaultFiles (v : Vault υ) (rows : List (Str × Str)) : List (Str × Str) :=
  let plan := planReconcile v.files rows
  plan.2.foldl (fun rows entry => upsertVaultFile rows entry.1 entry.2)
    (plan.1.foldl (fun rows guid => Assoc.erase guid rows) rows)

/-! ## Authorization -/

section Requests

variable [DecidableEq υ] (v : Vault υ)

/-- `retain` on the reservations. -/
def Server.prune (s : Server υ) (now : Int) : Server υ :=
  { s with
    pendingDocumentCreations :=
      s.pendingDocumentCreations.filter fun entry => now < entry.2.expiresAtMs }

def authorizePath (user : υ) (path : Str) : Except AppError Level :=
  resolvePathLevel v.permissions user path

def authorized (level : Except AppError Level) (path : Str) (reservation : Bool) :
    Except AppError DocumentAuthorization :=
  level.map fun level => ⟨level, path, reservation⟩

/-- A plugin database is at its pseudo path. -/
def authorizePluginDb (user : υ) (id : Str) : Except AppError DocumentAuthorization :=
  match splitSeparator id with
  | [plugin, name] =>
      if plugin.isEmpty || name.isEmpty then .error .forbidden
      else authorized (authorizePath v user (pseudoPath plugin name)) (pseudoPath plugin name) false
  | _ => .error .forbidden

/-- A document that exists and is in nobody's row: its creator's, for a while, then
everybody's with one level on the vault. -/
def authorizeUnregistered (s : Server υ) (user : υ) (docId : Str) (claimedPath : Option Str) :
    Except AppError DocumentAuthorization :=
  match Assoc.get docId s.pendingDocumentCreations with
  | some reservation =>
      let claimedPathMatches : Bool :=
        match claimedPath with
        | some path =>
            if reservation.path.isEmpty then !path.isEmpty
            else !path.isEmpty && path == reservation.path
        | none => true
      if reservation.userId = user ∧ claimedPathMatches = true then
        let path :=
          match claimedPath with
          | some path => if reservation.path.isEmpty then path else reservation.path
          | none => reservation.path
        authorized (authorizePath v user path) path true
      else .error .forbidden
  | none => authorized (authorizeUniformVault v.permissions user) [] false

/-- `authorize_doc_with_claim`. The row of the mirror decides; without one the claimed path may. -/
def authorizeDocWithClaim (s : Server υ) (user : υ) (docId : Str) (claimedPath : Option Str)
    (now : Int) : Except AppError DocumentAuthorization × Server υ :=
  if docId = v.id then
    (authorized (authorizeUniformVault v.permissions user) [] false, s)
  else
    match Str.stripPrefix (v.id ++ separator) docId with
    | none => (.error .forbidden, s)
    | some suffix =>
        match Str.stripPrefix ("plugindb".toList ++ separator) suffix with
        | some pluginDb => (authorizePluginDb v user pluginDb, s)
        | none =>
            if suffix.isEmpty || decide (separator <:+: suffix) then (.error .forbidden, s)
            else
              match Assoc.get suffix s.vaultFiles with
              | some path => (authorized (authorizePath v user path) path false, s)
              | none =>
                  if !validateDocumentId docId then (.error .badRequest, s)
                  else if docId ∈ s.documents then
                    (authorizeUnregistered v (s.prune now) user docId claimedPath, s.prune now)
                  else
                    match claimedPath.filter fun path => !path.isEmpty with
                    | some path => (authorized (authorizePath v user path) path true, s)
                    | none => (authorized (authorizeUniformVault v.permissions user) [] true, s)

/-! ## Requests -/

def maxPendingPerUser : Nat := 4096

def creationTtlMs : Int := 5 * 60 * 1000

/-- `reserve_document_creation`; a reservation without a path takes the first one claimed. -/
def reserveDocumentCreation (s : Server υ) (docId : Str) (user : υ) (path : Str) (now : Int) :
    Bool × Server υ :=
  let s := s.prune now
  match Assoc.get docId s.pendingDocumentCreations with
  | some existing =>
      if existing.userId ≠ user then (false, s)
      else if existing.path.isEmpty && !path.isEmpty then
        (true, { s with
          pendingDocumentCreations :=
            Assoc.set docId { existing with path := path, expiresAtMs := now + creationTtlMs }
              s.pendingDocumentCreations })
      else (path.isEmpty || existing.path == path, s)
  | none =>
      if maxPendingPerUser ≤
          (s.pendingDocumentCreations.filter fun entry => entry.2.userId = user).length then
        (false, s)
      else
        (true, { s with
          pendingDocumentCreations :=
            Assoc.set docId ⟨user, path, now + creationTtlMs⟩ s.pendingDocumentCreations })

/-- `ensure_vault_document`, with the quota of the vault. -/
def ensureVaultDocument (s : Server υ) (docId : Str) : Except AppError (Server υ) :=
  if !validateDocumentId docId then .error .badRequest
  else if docId ∈ s.documents then .ok s
  else if docId ≠ v.id ∧ !isPluginDb docId ∧
      v.maxDocuments ≤ (s.documents.filter isContentDocument).length then
    .error .badRequest
  else .ok { s with documents := docId :: s.documents }

def grantedLevel (level : Level) : Option RequestedLevel → Except AppError Level
  | none | some .full => .ok level
  | some .readOnly => .ok .readOnly
  | some .other => .error .badRequest

/-- The level of the token, or why there is none. -/
def docToken (s : Server υ) (user : υ) (body : DocTokenBody) (now : Int) :
    Except AppError Level × Server υ :=
  if !v.member user then (.error .forbidden, s)
  else if !safeDocId body.docId then (.error .badRequest, s)
  else if body.docId ≠ v.id ∧ !(v.id ++ separator).isPrefixOf body.docId then
    (.error .forbidden, s)
  else
    match authorizeDocWithClaim v s user body.docId body.path now with
    | (.error error, s) => (.error error, s)
    | (.ok authorization, s) =>
        match
          if authorization.requiresCreationReservation then
            reserveDocumentCreation s body.docId user authorization.path now
          else (true, s)
        with
        | (false, s) => (.error .badRequest, s)
        | (true, s) =>
            match grantedLevel authorization.level body.authorization with
            | .error error => (.error error, s)
            | .ok level =>
                match ensureVaultDocument v s body.docId with
                | .error error => (.error error, s)
                | .ok s => (.ok level, s)

def hasFull (user : υ) (path : Str) : Bool :=
  match authorizePath v user path with
  | .ok .full => true
  | _ => false

/-- The effect of `upsert_file`; a refused one has none. -/
def upsertFile (s : Server υ) (user : υ) (guid path : Str) : Server υ :=
  if !v.member user || path.isEmpty then s
  else if !((Assoc.get guid s.vaultFiles).all fun existing => hasFull v user existing) then s
  else if !hasFull v user path then s
  else if guid.isEmpty || decide (separator <:+: guid) || !safeDocId guid then s
  else if (Assoc.get guid s.vaultFiles).isNone ∧ v.maxDocuments ≤ s.vaultFiles.length then s
  else
    { s with
      vaultFiles := upsertVaultFile s.vaultFiles path guid
      pendingDocumentCreations := Assoc.erase (v.docId guid) s.pendingDocumentCreations }

/-- `list_notes`, and what `create_note` and `move_note` do before they look. -/
def listNotes (s : Server υ) (user : υ) : Server υ :=
  if !v.member user then s
  else { s with vaultFiles := reconcileVaultFiles v s.vaultFiles }

inductive Request (υ : Type) where
  | listNotes (user : υ)
  | upsertFile (user : υ) (guid path : Str)
  | docToken (user : υ) (body : DocTokenBody) (now : Int)

def Server.step (s : Server υ) : Request υ → Option (Server υ)
  | .listNotes user => some (Access.listNotes v s user)
  | .upsertFile user guid path => some (Access.upsertFile v s user guid path)
  | .docToken user body now => some (Access.docToken v s user body now).2

end Requests

/-! ## The mirror of the indexed documents -/

/-- Every indexed document has its row. -/
def Mirrored (v : Vault υ) (s : Server υ) : Prop :=
  ∀ path guid, v.Indexed path guid → Assoc.get guid s.vaultFiles = some path

/-- A listing comes only when the documents of `structured` are in `files` as well,
and nobody registers an indexed document under another path. -/
def Faithful (v : Vault υ) (_ : Server υ) : Request υ → Prop
  | .listNotes _ => ∀ path guid, (path, guid) ∈ v.structured → guid ∈ v.files.map Prod.snd
  | .upsertFile _ guid path => ∀ p, v.Indexed p guid → path = p
  | .docToken _ _ _ => True

theorem get_foldl_erase {guid : Str} (guids : List Str) (rows : List (Str × Str))
    (h : guid ∉ guids) :
    Assoc.get guid (guids.foldl (fun rows guid => Assoc.erase guid rows) rows) =
      Assoc.get guid rows := by
  induction guids generalizing rows with
  | nil => rfl
  | cons g guids ih =>
      rw [List.mem_cons, not_or] at h
      rw [List.foldl_cons, ih _ h.2, Assoc.get_erase_ne (Ne.symm h.1)]

theorem get_foldl_upsert {guid : Str} (entries rows : List (Str × Str))
    (h : ∀ entry ∈ entries, entry.2 ≠ guid) :
    Assoc.get guid (entries.foldl (fun rows entry => upsertVaultFile rows entry.1 entry.2) rows) =
      Assoc.get guid rows := by
  induction entries generalizing rows with
  | nil => rfl
  | cons entry entries ih =>
      rw [List.foldl_cons, ih _ fun e he => h e (List.mem_cons_of_mem _ he), upsertVaultFile,
        Assoc.get_set_ne (h entry List.mem_cons_self)]

variable {v : Vault υ} {s s' : Server υ}

/-- The row of a document of `files` is neither pruned nor replaced if it is right. -/
theorem get_reconcileVaultFiles {rows : List (Str × Str)} {guid : Str}
    (hlive : guid ∈ v.files.map Prod.snd)
    (hright : ∀ path, (path, guid) ∈ v.files → Assoc.get guid rows = some path) :
    Assoc.get guid (reconcileVaultFiles v rows) = Assoc.get guid rows := by
  simp only [reconcileVaultFiles, planReconcile]
  rw [get_foldl_upsert, get_foldl_erase]
  · intro hmem
    obtain ⟨row, hrow, rfl⟩ := List.mem_map.mp hmem
    exact of_decide_eq_true (List.mem_filter.mp hrow).2 hlive
  · intro entry hentry hguid
    obtain ⟨hmem, hstale⟩ := List.mem_filter.mp hentry
    subst hguid
    exact of_decide_eq_true hstale (hright entry.1 hmem)

theorem Mirrored.listNotes {user : υ} (h : Mirrored v s)
    (hfaithful : Faithful v s (.listNotes user)) : Mirrored v (listNotes v s user) := by
  unfold Access.listNotes
  split
  · exact h
  · intro path guid hindexed
    have hlive : guid ∈ v.files.map Prod.snd := by
      rcases hindexed with hfile | hstructured
      · exact List.mem_map_of_mem hfile
      · exact hfaithful path guid hstructured
    show Assoc.get guid (reconcileVaultFiles v s.vaultFiles) = some path
    rw [get_reconcileVaultFiles hlive fun p hp => h p guid (.inl hp)]
    exact h path guid hindexed

theorem docId_ne (v : Vault υ) (guid : Str) : v.docId guid ≠ v.id := by
  intro h
  have hlength := congrArg List.length h
  simp only [Vault.docId, separator, List.length_append, List.length_cons,
    List.length_nil] at hlength
  omega

section Runs

variable [DecidableEq υ]

theorem Mirrored.upsertFile {user : υ} {guid path : Str} (h : Mirrored v s)
    (hfaithful : Faithful v s (.upsertFile user guid path)) :
    Mirrored v (upsertFile v s user guid path) := by
  unfold Access.upsertFile
  split_ifs
  iterate 5 exact h
  intro p g hindexed
  show Assoc.get g (Assoc.set guid path s.vaultFiles) = some p
  rcases eq_or_ne guid g with rfl | hne
  · rw [Assoc.get_set_self, hfaithful p hindexed]
  · rw [Assoc.get_set_ne hne]
    exact h p g hindexed

/-! ## Tokens for indexed documents -/

/-- The row decides, whatever the request claims. -/
theorem authorizeDocWithClaim_of_row {user : υ} {guid path : Str} {claimedPath : Option Str}
    {now : Int} (hplain : ¬("plugindb".toList ++ separator) <+: guid)
    (hrow : Assoc.get guid s.vaultFiles = some path) :
    authorizeDocWithClaim v s user (v.docId guid) claimedPath now =
      (if guid.isEmpty || decide (separator <:+: guid) then .error .forbidden
        else authorized (authorizePath v user path) path false, s) := by
  have hsuffix : Str.stripPrefix (v.id ++ separator) (v.docId guid) = some guid :=
    Str.stripPrefix_append _ _
  have hplugin : Str.stripPrefix ("plugindb".toList ++ separator) guid = none :=
    if_neg fun h => hplain (List.isPrefixOf_iff_prefix.mp h)
  rw [authorizeDocWithClaim, if_neg (docId_ne v guid), hsuffix]
  simp only [hplugin, hrow]
  split <;> rfl

/-- What a token for a document with a row depends on. -/
theorem docToken_of_row {user : υ} {guid path : Str} {body : DocTokenBody} {now : Int}
    {level : Level} (hplain : ¬("plugindb".toList ++ separator) <+: guid)
    (hrow : Assoc.get guid s.vaultFiles = some path) (hid : body.docId = v.docId guid) :
    (docToken v s user body now).1 = .ok level ↔
      v.member user = true ∧ safeDocId body.docId = true ∧
        ¬(guid.isEmpty || decide (separator <:+: guid)) = true ∧
        (∃ pathLevel, authorizePath v user path = .ok pathLevel ∧
          grantedLevel pathLevel body.authorization = .ok level) ∧
        ∃ s', ensureVaultDocument v s body.docId = .ok s' := by
  have hscope : (v.id ++ separator).isPrefixOf body.docId = true := by
    rw [hid]
    exact List.isPrefixOf_iff_prefix.mpr (List.prefix_append _ _)
  unfold docToken
  by_cases hmember : v.member user = true
  · by_cases hsafe : safeDocId body.docId = true
    · rw [if_neg (by simp [hmember]), if_neg (by simp [hsafe]), if_neg (by simp [hscope])]
      rw [hid, authorizeDocWithClaim_of_row hplain hrow, ← hid]
      by_cases hguid : (guid.isEmpty || decide (separator <:+: guid)) = true
      · simp [hguid]
      · rw [if_neg hguid]
        cases hlevel : authorizePath v user path with
        | error error => simp [authorized, Except.map]
        | ok pathLevel =>
            simp only [authorized, Except.map]
            cases hgranted : grantedLevel pathLevel body.authorization with
            | error error => simp [hgranted]
            | ok granted =>
                cases hensure : ensureVaultDocument v s body.docId with
                | error error => simp [hgranted, hensure]
                | ok s' => simp [hmember, hsafe, hguid, hgranted, hensure]
    · simp [hmember, hsafe]
  · simp [hmember]

theorem grantedLevel_le {pathLevel level : Level} {requested : Option RequestedLevel}
    (h : grantedLevel pathLevel requested = .ok level) : level ≤ pathLevel := by
  cases requested with
  | none =>
      cases h
      exact Level.le_refl _
  | some requested =>
      cases requested with
      | full =>
          cases h
          exact Level.le_refl _
      | readOnly =>
          cases h
          exact Level.readOnly_le _
      | other => cases h

theorem authorizeDocWithClaim_vaultFiles (v : Vault υ) (s : Server υ) (user : υ) (docId : Str)
    (claimedPath : Option Str) (now : Int) :
    (authorizeDocWithClaim v s user docId claimedPath now).2.vaultFiles = s.vaultFiles := by
  -- only the reservations are touched, on the branch of an unregistered document
  unfold authorizeDocWithClaim
  repeat' split
  all_goals rfl

theorem reserveDocumentCreation_vaultFiles (s : Server υ) (docId : Str) (user : υ) (path : Str)
    (now : Int) :
    (reserveDocumentCreation s docId user path now).2.vaultFiles = s.vaultFiles := by
  simp only [reserveDocumentCreation]
  split
  · split_ifs <;> rfl
  · split_ifs <;> rfl

theorem docToken_vaultFiles (v : Vault υ) (s : Server υ) (user : υ) (body : DocTokenBody)
    (now : Int) : (docToken v s user body now).2.vaultFiles = s.vaultFiles := by
  have hauthorize := authorizeDocWithClaim_vaultFiles v s user body.docId body.path now
  unfold docToken
  split_ifs
  iterate 3 rfl
  split
  · next error s₁ heq =>
    rw [heq] at hauthorize
    exact hauthorize
  · next authorization s₁ heq =>
    rw [heq] at hauthorize
    have hreserve : ∀ (reserved : Bool × Server υ),
        (if authorization.requiresCreationReservation then
          reserveDocumentCreation s₁ body.docId user authorization.path now
        else (true, s₁)) = reserved → reserved.2.vaultFiles = s.vaultFiles := by
      intro reserved hreserved
      rw [← hreserved, ← hauthorize]
      split_ifs
      · exact reserveDocumentCreation_vaultFiles ..
      · rfl
    split
    · next s₂ heq₂ => exact hreserve _ heq₂
    · next s₂ heq₂ =>
      have hrows := hreserve _ heq₂
      split
      · exact hrows
      · split
        · exact hrows
        · next s₃ heq₃ =>
          unfold ensureVaultDocument at heq₃
          split_ifs at heq₃ <;> cases heq₃ <;> exact hrows

theorem Mirrored.step {request : Request υ} (h : Mirrored v s)
    (hfaithful : Faithful v s request) (hstep : s.step v request = some s') :
    Mirrored v s' := by
  cases request with
  | listNotes user =>
      cases hstep
      exact h.listNotes hfaithful
  | upsertFile user guid path =>
      cases hstep
      exact h.upsertFile hfaithful
  | docToken user body now =>
      cases hstep
      intro path guid hindexed
      rw [docToken_vaultFiles]
      exact h path guid hindexed

/-- No token for an indexed document is above what its path allows. -/
def Bounded (v : Vault υ) (s : Server υ) : Prop :=
  ∀ (user : υ) (body : DocTokenBody) (now : Int) (path guid : Str) (level : Level),
    v.Indexed path guid → body.docId = v.docId guid →
    (docToken v s user body now).1 = .ok level →
    ∃ allowed, resolvePathLevel v.permissions user path = .ok allowed ∧ level ≤ allowed

/-- What is granted for an indexed document before a listing is granted after it. -/
def NotRefused (v : Vault υ) (s s' : Server υ) : Prop :=
  ∀ (user : υ) (body : DocTokenBody) (now : Int) (path guid : Str) (level : Level),
    v.Indexed path guid → body.docId = v.docId guid →
    (docToken v s user body now).1 = .ok level → (docToken v s' user body now).1 = .ok level

theorem Mirrored.bounded (h : Mirrored v s)
    (hplain : ∀ path guid, v.Indexed path guid → ¬("plugindb".toList ++ separator) <+: guid) :
    Bounded v s := by
  intro user body now path guid level hindexed hid htoken
  rw [docToken_of_row (hplain path guid hindexed) (h path guid hindexed) hid] at htoken
  obtain ⟨_, _, _, ⟨allowed, hallowed, hgranted⟩, _⟩ := htoken
  exact ⟨allowed, hallowed, grantedLevel_le hgranted⟩

theorem Mirrored.notRefused (h : Mirrored v s) (h' : Mirrored v s')
    (hplain : ∀ path guid, v.Indexed path guid → ¬("plugindb".toList ++ separator) <+: guid)
    (hdocuments : s'.documents = s.documents) : NotRefused v s s' := by
  intro user body now path guid level hindexed hid htoken
  rw [docToken_of_row (hplain path guid hindexed) (h path guid hindexed) hid] at htoken
  rw [docToken_of_row (hplain path guid hindexed) (h' path guid hindexed) hid]
  obtain ⟨hmember, hsafe, hguid, hlevel, _, hensure⟩ := htoken
  refine ⟨hmember, hsafe, hguid, hlevel, ?_⟩
  -- the quota looks at the documents only
  unfold ensureVaultDocument at hensure ⊢
  rw [hdocuments]
  split_ifs at hensure ⊢
  · exact ⟨_, rfl⟩
  · exact ⟨_, rfl⟩

/-- Access follows the indexed path in every run in which the mirror is not made to
differ from the index: no token is above what the path allows, and no listing takes
one away. -/
theorem access_follows_index (v : Vault υ)
    (hplain : ∀ path guid, v.Indexed path guid → ¬("plugindb".toList ++ separator) <+: guid)
    (s : Server υ) (h : Reach (Mirrored v) (Where (Faithful v) (Takes (Server.step v))) s) :
    Bounded v s ∧ ∀ other, Faithful v s (.listNotes other) →
      NotRefused v s (listNotes v s other) := by
  have hmirrored : Mirrored v s :=
    h.invariant (fun _ hs => hs) fun _ _ _ hs hstep => hs.step hstep.1 hstep.2
  refine ⟨hmirrored.bounded hplain, fun other hfaithful => ?_⟩
  refine hmirrored.notRefused (hmirrored.listNotes hfaithful) hplain ?_
  unfold Access.listNotes
  split <;> rfl

end Runs

/-! ## A listing and a registration -/

/-- The canvas `private/c` has the document `c`. User 1 is denied `private/`,
user 2 may not see `hr/`, and user 0 everything. -/
def boards : Vault Nat where
  id := "v".toList
  member := fun _ => true
  permissions := [⟨some 1, "private/".toList, .deny⟩, ⟨some 2, "hr/".toList, .deny⟩]
  files := [("a.md".toList, "a".toList)]
  structured := [("private/c".toList, "c".toList)]
  maxDocuments := 10

def boardsServer : Server Nat :=
  ⟨[("a".toList, "a.md".toList), ("c".toList, "private/c".toList)],
    ["v__c".toList, "v__a".toList], []⟩

def boardToken : DocTokenBody := ⟨"v__c".toList, none, none⟩

theorem mirrored_boardsServer : Mirrored boards boardsServer := by
  intro path guid hindexed
  rcases hindexed with hfile | hstructured
  · cases List.mem_singleton.mp hfile
    rfl
  · cases List.mem_singleton.mp hstructured
    rfl

/-- `boards` with the canvas among the files of the index as well. -/
def filedBoards : Vault Nat := { boards with files := boards.files ++ boards.structured }

theorem indexed_filedBoards {path guid : Str} (h : filedBoards.Indexed path guid) :
    boards.Indexed path guid := by
  rcases h with hfile | hstructured
  · exact List.mem_append.mp hfile
  · exact .inr hstructured

theorem plain_boards (path guid : Str) (h : boards.Indexed path guid) :
    ¬("plugindb".toList ++ separator) <+: guid := by
  rcases h with hfile | hstructured
  · cases List.mem_singleton.mp hfile
    decide
  · cases List.mem_singleton.mp hstructured
    decide

/-- A listing, a registration of the canvas at its own path, and a token for it. -/
def boardRequests : List (Request Nat) :=
  [.listNotes 2, .upsertFile 0 "c".toList "private/c".toList, .docToken 2 boardToken 7]

theorem faithful_listNotes_filedBoards (s : Server Nat) (user : Nat) :
    Faithful filedBoards s (.listNotes user) := by
  intro path guid hstructured
  cases List.mem_singleton.mp hstructured
  decide

theorem meets_boardRequests :
    Meets (Faithful filedBoards) (Server.step filedBoards) boardsServer boardRequests := by
  refine .cons (faithful_listNotes_filedBoards _ 2) rfl (.cons ?_ rfl (.cons trivial rfl trivial))
  intro p hindexed
  have hrow := mirrored_boardsServer p _ (indexed_filedBoards hindexed)
  exact Option.some.inj hrow

/-- After the run user 2 has the canvas in full, as the path allows, and keeps it
over another listing. -/
theorem access_follows_index_boards :
    ∃ s, boardRequests.foldlM (Server.step filedBoards) boardsServer = some s ∧
      (∃ allowed, resolvePathLevel boards.permissions 2 "private/c".toList = .ok allowed ∧
        Level.full ≤ allowed) ∧
      (docToken filedBoards (listNotes filedBoards s 0) 2 boardToken 9).1 = .ok .full := by
  have hstart : Reach (Mirrored filedBoards)
      (Where (Faithful filedBoards) (Takes (Server.step filedBoards))) boardsServer :=
    .start fun path guid h => mirrored_boardsServer path guid (indexed_filedBoards h)
  have hindexed : filedBoards.Indexed "private/c".toList "c".toList := .inr List.mem_cons_self
  refine ⟨_, rfl, ?_⟩
  have hreach := hstart.run_where rfl meets_boardRequests
  obtain ⟨hbounded, hkept⟩ := access_follows_index filedBoards
    (fun path guid h => plain_boards path guid (indexed_filedBoards h)) _ hreach
  exact ⟨hbounded 2 boardToken 9 _ _ .full hindexed rfl rfl,
    hkept 0 (faithful_listNotes_filedBoards _ 0) 2 boardToken 9 _ _ .full hindexed rfl rfl⟩

/-- After user 0 has listed the notes, user 2 is refused the canvas although its
path is allowed, and user 1, who is denied the path, registers the canvas under
another one and gets full access. -/
theorem not_access_follows_index :
    (¬∀ (v : Vault Nat) (s : Server Nat), Reach (Mirrored v) (Takes (Server.step v)) s →
      ∀ other, NotRefused v s (listNotes v s other)) ∧
    ¬∀ (v : Vault Nat) (s : Server Nat), Reach (Mirrored v) (Takes (Server.step v)) s →
      Bounded v s := by
  have hstart : Reach (Mirrored boards) (Takes (Server.step boards)) boardsServer :=
    .start mirrored_boardsServer
  refine ⟨fun h => ?_, fun h => ?_⟩
  · have hrefused := h boards boardsServer hstart 0 2 boardToken 0 "private/c".toList "c".toList
      .full (.inr List.mem_cons_self) rfl rfl
    revert hrefused
    decide
  · have hlisted : Reach (Mirrored boards) (Takes (Server.step boards))
        (listNotes boards boardsServer 0) := .step (a := .listNotes 0) hstart rfl
    have hmoved : Reach (Mirrored boards) (Takes (Server.step boards))
        (upsertFile boards (listNotes boards boardsServer 0) 1 "c".toList "mine".toList) :=
      .step (a := .upsertFile 1 "c".toList "mine".toList) hlisted rfl
    obtain ⟨allowed, hallowed, _⟩ := h boards _ hmoved 1 boardToken 0 "private/c".toList
      "c".toList .full (.inr List.mem_cons_self) rfl rfl
    cases hallowed

end Realtime.Access
