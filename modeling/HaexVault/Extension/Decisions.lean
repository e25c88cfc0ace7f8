import HaexVault.Extension.PermissionManager
import HaexVault.Extension.PermissionPrompt
/-!
# Saving the decision on a prompt (`saveDecision`, `permissions/commands.rs`)

The prompts that the checks ask for (`answer_prompt`), and what the two commands store for a
decision: an entry for the session (`saveDecision_session`), or the status of the first stored row
with the resource type and the target, else a new row (`saveDecision_remember`).
-/

namespace HaexVault.Extension.PermissionManager

/-! ## Saving a decision -/

inductive DecisionError where
  | validation (reason : String)
  | invalidActionString (input resourceType : String)
  | database (reason : String)
  deriving DecidableEq

def decisionStr : PermissionDecision → String
  | .granted => "granted"
  | .denied => "denied"
  | .ask => "ask"

/-- `PermissionStatus::as_str`. -/
def statusStr : PermissionStatus → String
  | .ask => "ask"
  | .granted => "granted"
  | .denied => "denied"

/-- The resource in the error of each `from_str`. -/
def resourceName : ResourceType → String
  | .db => "database"
  | .fs => "filesystem"
  | r => r.asStr

def Action.promptText : Action → String
  | .web _ => "request"
  | a => a.asStr

/-- The prompt of a check for this action on this target. -/
def Action.prompt (a : Action) (extensionId extensionName target : String) : PermissionPromptData :=
  ⟨extensionId, extensionName, a.resourceType, a.promptText, target⟩

def promptFields (data : PermissionPromptData) : String × String × String × String × String :=
  (data.extensionId, data.extensionName, data.resourceType.asStr, data.action, data.target)

/-- The target in the prompt for a request: what the session is asked under, the mail host, or everything. -/
def Request.promptTarget (r : Request) : String :=
  match r with
  | .mail _ host => host
  | r => r.sessionTarget.getD "*"

namespace Permissions

variable (x : Externals) (s : Permissions) (extensionId : String) in
/-- What the check of the request answers; a silent read has no other answer than yes and no. -/
def answer : Request → Except ExtensionError Unit
  | .database a table => checkDatabasePermission s.appState extensionId (.database a) table
  | .web url => s.checkWebPermission x extensionId url
  | .filesystem a path => s.checkFilesystemPermission extensionId a path
  | .readSilently _ => .ok ()
  | .shell command args => s.checkShellPermission x extensionId command args
  | .fileSync a target => s.checkFilesyncPermission extensionId a target
  | .spaces a => s.checkSpacesPermission extensionId a
  | .passwords a _ => (s.checkPasswordsPermission extensionId a).map fun _ => ()
  | .mail a host => s.checkMailPermission extensionId a host

end Permissions

/-- The target that `saveDecision` stores: for files the directory and all its children. -/
def savedTarget (data : PermissionPromptData) : String :=
  if data.resourceType = .fs ∧ data.target ≠ "*" ∧ endsWith data.target.toList ['/', '*'] = false then
    if endsWith data.target.toList ['/'] then data.target ++ "*" else data.target ++ "/*"
  else data.target

/-- How `resolve_permission_prompt` reads an action; most resources have a default. -/
def rememberedAction (resourceType : ResourceType) (action : String) : Except DecisionError Action :=
  match resourceType with
  | .db => .ok (.database ((DbAction.fromStr action).getD .read))
  | .web => .ok (.web .all)
  | .fs => .ok (.filesystem ((Access.fromStr action).getD .read))
  | .shell => .ok .shell
  | .filesync => .ok (.fileSync ((Access.fromStr action).getD .read))
  | .spaces => .ok (.spaces ((Access.fromStr action).getD .read))
  | .identities => .ok .identities
  | .passwords => match Access.fromStr action with
    | some a => .ok (.passwords a)
    | none => .error (.validation ("Invalid passwords action: " ++ action))
  | .mail => match MailAction.fromStr action with
    | some a => .ok (.mail a)
    | none => .error (.validation ("Invalid mail action: " ++ action ++ " (expected 'fetch' or 'send')"))

/-- The row that `save_permissions` inserts. Whatever constraints it stores, their text is read back as those of a database. -/
def ExtensionPermission.toRow (p : ExtensionPermission) : StoredPermission where
  extensionId := p.extensionId
  resourceType := some p.resourceType.asStr
  action := some p.action.asStr
  target := some p.target
  status := some (statusStr p.status)
  id := p.id
  constraints := p.constraints.map fun _ => .database

def StoredPermission.withStatus (id : String) (status : PermissionStatus) (row : StoredPermission) : StoredPermission :=
  if row.id = id then { row with status := some (statusStr status) } else row

namespace Permissions

variable (s : Permissions)

def removePermission (extensionId : String) (resourceType : ResourceType) (target : String) : Permissions :=
  { s with session := s.session.filter fun p => sessionKey p ≠ (extensionId, resourceType, target) }

def setPermission (p : ExtensionPermission) : Permissions :=
  { s with session := (s.session.filter fun q => sessionKey q ≠ sessionKey p) ++ [p] }

theorem withStatus_id (id : String) (status : PermissionStatus) (row : StoredPermission) :
    (row.withStatus id status).id = row.id := by
  unfold StoredPermission.withStatus
  split <;> rfl

def updatePermissionStatus (id : String) (status : PermissionStatus) : Permissions where
  extensions := s.extensions
  rows := s.rows.map (StoredPermission.withStatus id status)
  ids := by
    rw [List.map_map, show (·.id) ∘ StoredPermission.withStatus id status = (·.id) from
      funext fun row => withStatus_id id status row]
    exact s.ids
  session := s.session

/-- `save_permissions` for one permission; `pos` is where the queries will return the new row. -/
def savePermission (p : ExtensionPermission) (pos : Nat) : Except DecisionError Permissions :=
  if h : p.id ∈ s.rows.map (·.id) then .error (.database "UNIQUE constraint failed: haex_extension_permissions.id")
  else .ok
    { extensions := s.extensions
      rows := s.rows.take pos ++ p.toRow :: s.rows.drop pos
      ids := by
        have hperm : (s.rows.take pos ++ p.toRow :: s.rows.drop pos).Perm (p.toRow :: s.rows) := by
          have hmiddle : (s.rows.take pos ++ p.toRow :: s.rows.drop pos).Perm
              (p.toRow :: (s.rows.take pos ++ s.rows.drop pos)) := List.perm_middle
          rwa [List.take_append_drop] at hmiddle
        refine (hperm.map _).nodup_iff.2 (List.nodup_cons.2 ⟨h, s.ids⟩)
      session := s.session }

def grantSessionPermission (extensionId resourceType action target decision uuid : String) :
    Except DecisionError Permissions :=
  match ResourceType.fromStr resourceType with
  | none => .error (.validation ("Unknown resource type: " ++ resourceType))
  | some rt =>
    match PermissionStatus.fromStr decision with
    | none => .error (.validation ("Unknown permission status: " ++ decision))
    | some status =>
      match Action.fromStr rt action with
      | none => .error (.invalidActionString action (resourceName rt))
      | some a => .ok (s.setPermission ⟨"session-" ++ uuid, extensionId, rt, a, target, none, status⟩)

/-- The first stored permission with the resource type and the target; for mail also with the action. -/
def existingRow (extensionId : String) (a : Action) (target : String) : Option StoredPermission :=
  s.rows.find? fun row => row.extensionId = extensionId && (row.read.resourceType = a.resourceType &&
    row.read.target = target && (a.resourceType ≠ .mail || row.read.action = a))

def resolvePermissionPrompt (extensionId resourceType action target decision uuid : String) (pos : Nat) :
    Except DecisionError Permissions :=
  if decision = "ask" then .ok s
  else
    let status := if decision = "granted" then some PermissionStatus.granted else
      if decision = "denied" then some .denied else none
    match status with
    | none => .error (.validation ("Invalid decision: " ++ decision ++ ". Expected 'granted', 'denied', or 'ask'"))
    | some status =>
      match ResourceType.fromStr resourceType with
      | none => .error (.validation ("Invalid resource type: " ++ resourceType))
      | some rt =>
        match rememberedAction rt action with
        | .error e => .error e
        | .ok a =>
          let existing := (s.getPermissions extensionId).find? fun p =>
            p.resourceType = rt && p.target = target && (rt ≠ .mail || p.action = a)
          match existing with
          | some p => .ok (s.updatePermissionStatus p.id status)
          | none => s.savePermission ⟨uuid, extensionId, rt, a, target, none, status⟩ pos

/-- `saveDecision`: a command that fails is only logged. -/
def saveDecision (data : PermissionPromptData) (decision : PermissionDecision) (remember : Bool) (uuid : String) (pos : Nat) :
    Permissions :=
  let saved :=
    if remember then
      s.resolvePermissionPrompt data.extensionId data.resourceType.asStr data.action (savedTarget data) (decisionStr decision)
        uuid pos
    else
      s.grantSessionPermission data.extensionId data.resourceType.asStr data.action (savedTarget data) (decisionStr decision) uuid
  match saved with
  | .ok s' => s'
  | .error _ => s

end Permissions

/-! ## What is saved -/

theorem fromStr_asStr (r : ResourceType) : ResourceType.fromStr r.asStr = some r := by
  cases r <;> rfl

theorem fromStr_statusStr (status : PermissionStatus) : PermissionStatus.fromStr (statusStr status) = some status := by
  cases status <;> rfl

/-- The action that is stored for a prompt. -/
def Action.stored : Action → Action
  | .web _ => .web .all
  | a => a

theorem Action.stored_resourceType (a : Action) : a.stored.resourceType = a.resourceType := by
  cases a <;> rfl

theorem rememberedAction_prompt (a : Action) : rememberedAction a.resourceType a.promptText = .ok a.stored := by
  rcases a with a | a | a | _ | a | a | _ | a | a <;> first | (cases a <;> rfl) | rfl

theorem toRow_read (p : ExtensionPermission) (h : p.action.resourceType = p.resourceType) :
    p.toRow.read = { p with constraints := p.constraints.map fun _ => .database } := by
  obtain ⟨id, extensionId, resourceType, action, target, constraints, status⟩ := p
  dsimp only at h
  subst h
  simp only [StoredPermission.read, StoredPermission.readAs, ExtensionPermission.toRow, Option.bind_some, fromStr_asStr,
    fromStr_statusStr, Option.getD_some, Action.fromStr_asStr]

theorem withStatus_read (id : String) (status : PermissionStatus) (row : StoredPermission) :
    (row.withStatus id status).read = if row.id = id then { row.read with status } else row.read := by
  unfold StoredPermission.withStatus
  split
  · simp only [StoredPermission.read, StoredPermission.readAs, Option.bind_some, fromStr_statusStr, Option.getD_some]
  · rfl

namespace Permissions

variable {x : Externals} {s : Permissions} {e name target uuid : String} {a : Action} {pos : Nat} {r : Request}

/-! ### The prompts of the checks -/

theorem settle_error {matching : Option ExtensionPermission} {passes : ExtensionPermission → Bool}
    {session : Option PermissionStatus} {violation denied prompt error : ExtensionError}
    (h : settle matching passes session violation denied prompt = .error error) :
    error = violation ∨ error = denied ∨ error = prompt := by
  unfold settle at h
  repeat' split at h
  all_goals cases h
  all_goals simp

/-- Every prompt a check asks for is the prompt of the request's action. -/
theorem answer_prompt {id extensionName resourceType action target : String}
    (h : s.answer x e r = .error (.permissionPromptRequired id extensionName resourceType action target)) :
    ∃ m, s.extensions e = some m ∧ (id, extensionName, resourceType, action, target) =
      promptFields (r.action.prompt e m.name r.promptTarget) := by
  cases hm : s.extensions e with
  | none =>
    cases r <;> simp_all [answer, checkDatabasePermission, appState, checkWebPermission, checkFilesystemPermission,
      checkShellPermission, checkFilesyncPermission, checkSpacesPermission, checkPasswordsPermission, checkMailPermission,
      withExtension, Except.map]
  | some m =>
    refine ⟨m, rfl, ?_⟩
    cases r with
    | filesystem b path =>
      simp only [answer, checkFilesystemPermission, withExtension, hm] at h
      rcases settle_error h with h | h | h <;> cases h
      rfl
    | shell command args =>
      simp only [answer, checkShellPermission, withExtension, hm] at h
      rcases settle_error h with h | h | h <;> cases h
      rfl
    | fileSync b target =>
      simp only [answer, checkFilesyncPermission, withExtension, hm] at h
      rcases settle_error h with h | h | h <;> cases h
      rfl
    | spaces b =>
      simp only [answer, checkSpacesPermission, withExtension, hm] at h
      rcases settle_error h with h | h | h <;> cases h
      rfl
    | web url =>
      simp only [answer, checkWebPermission, withExtension, hm] at h
      repeat' split at h
      · cases h
      · cases h
      · rcases settle_error h with h | h | h <;> cases h
        rfl
    | readSilently => cases h
    | passwords b tag =>
      simp only [answer, checkPasswordsPermission, withExtension, hm] at h
      repeat' split at h
      all_goals cases h
      all_goals rfl
    | mail b host =>
      simp only [answer, checkMailPermission, withExtension, hm] at h
      repeat' split at h
      all_goals cases h
      all_goals rfl
    | database b table =>
      simp only [answer, checkDatabasePermission, show s.appState.extensions e = some m from hm] at h
      repeat' split at h
      all_goals cases h
      all_goals rfl

/-! ### The commands -/

theorem saveDecision_session :
    s.saveDecision (a.prompt e name target) .granted false uuid pos = match a with
      | .web _ => s
      | a => s.setPermission
        ⟨"session-" ++ uuid, e, a.resourceType, a, savedTarget (a.prompt e name target), none, .granted⟩ := by
  have hstatus : PermissionStatus.fromStr (decisionStr .granted) = some .granted := rfl
  simp only [saveDecision, Bool.false_eq_true, if_false, grantSessionPermission, Action.prompt, fromStr_asStr, hstatus]
  by_cases hweb : ∃ b, a = .web b
  · obtain ⟨b, rfl⟩ := hweb
    have hrequest : Action.fromStr (Action.web b).resourceType (Action.web b).promptText = none := by
      cases b <;> rfl
    simp only [hrequest]
  · have htext : a.promptText = a.asStr := by
      cases a with
      | web b => exact absurd ⟨b, rfl⟩ hweb
      | _ => rfl
    rw [htext, Action.fromStr_asStr]
    cases a with
    | web b => exact absurd ⟨b, rfl⟩ hweb
    | _ => rfl

theorem saveDecision_remember :
    s.saveDecision (a.prompt e name target) .granted true uuid pos =
      match s.existingRow e a (savedTarget (a.prompt e name target)) with
      | some row => s.updatePermissionStatus row.id .granted
      | none =>
        match s.savePermission
          ⟨uuid, e, a.resourceType, a.stored, savedTarget (a.prompt e name target), none, .granted⟩ pos with
        | .ok s' => s'
        | .error _ => s := by
  simp only [saveDecision, if_true, resolvePermissionPrompt, Action.prompt, fromStr_asStr,
    rememberedAction_prompt, show decisionStr .granted = "granted" from rfl]
  have hfind : ((s.getPermissions e).find? fun p => p.resourceType = a.resourceType &&
      p.target = savedTarget (a.prompt e name target) && (a.resourceType ≠ .mail || p.action = a.stored)) =
      (s.existingRow e a (savedTarget (a.prompt e name target))).map StoredPermission.read := by
    rw [find_getPermissions, existingRow]
    congr 2
    cases a <;> rfl
  simp only [Action.prompt] at hfind ⊢
  rw [hfind]
  cases s.existingRow e a (savedTarget ⟨e, name, a.resourceType, a.promptText, target⟩) with
  | none => rfl
  | some row => rfl

end Permissions

end HaexVault.Extension.PermissionManager
