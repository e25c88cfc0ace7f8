import Mathlib.Data.List.Infix
import HaexVault.Extension.Permissions
/-!
# The permission checks (`extension/permissions/manager.rs`, `session.rs`)

Most checks follow the first stored permission that fits the request; without one they ask the
session, which is keyed by extension, resource type and target and not by the action. The checks for
passwords and for mail look at all stored permissions that fit, and a denial among them wins.
-/

namespace HaexVault.Extension.PermissionManager

/-! ## Actions -/

/-- `FsAction`, `FileSyncAction`, `SpaceAction` and `PasswordsAction` have the same two cases. -/
inductive Access where
  | read | readWrite
  deriving DecidableEq

inductive WebAction where
  | get | post | put | patch | delete | all
  deriving DecidableEq

inductive MailAction where
  | fetch | send
  deriving DecidableEq

inductive Action where
  | database (action : DbAction)
  | filesystem (action : Access)
  | web (action : WebAction)
  | shell
  | fileSync (action : Access)
  | spaces (action : Access)
  | identities
  | passwords (action : Access)
  | mail (action : MailAction)
  deriving DecidableEq

def Access.asStr : Access → String
  | .read => "read"
  | .readWrite => "readWrite"

def Access.fromStr (s : String) : Option Access :=
  let s := String.ofList (lower s)
  if s = "read" then some .read
  else if s = "readwrite" ∨ s = "read_write" then some .readWrite
  else none

def WebAction.asStr : WebAction → String
  | .get => "GET"
  | .post => "POST"
  | .put => "PUT"
  | .patch => "PATCH"
  | .delete => "DELETE"
  | .all => "*"

def WebAction.deserialize (s : String) : Option WebAction :=
  [.get, .post, .put, .patch, .delete, .all].find? fun a => a.asStr = s

def MailAction.asStr : MailAction → String
  | .fetch => "fetch"
  | .send => "send"

def MailAction.fromStr (s : String) : Option MailAction :=
  let s := String.ofList (lower s)
  if s = "fetch" then some .fetch else if s = "send" then some .send else none

def Action.asStr : Action → String
  | .database a => a.asStr
  | .filesystem a | .fileSync a | .spaces a | .passwords a => a.asStr
  | .web a => a.asStr
  | .shell => "execute"
  | .identities => "read"
  | .mail a => a.asStr

def Action.fromStr (resourceType : ResourceType) (s : String) : Option Action :=
  match resourceType with
  | .db => (DbAction.fromStr s).map .database
  | .fs => (Access.fromStr s).map .filesystem
  | .web => (WebAction.deserialize s).map .web
  | .shell => if String.ofList (lower s) = "execute" then some .shell else none
  | .filesync => (Access.fromStr s).map .fileSync
  | .spaces => (Access.fromStr s).map .spaces
  | .identities => if String.ofList (lower s) = "read" then some .identities else none
  | .passwords => (Access.fromStr s).map .passwords
  | .mail => (MailAction.fromStr s).map .mail

def Action.resourceType : Action → ResourceType
  | .database _ => .db
  | .filesystem _ => .fs
  | .web _ => .web
  | .shell => .shell
  | .fileSync _ => .filesync
  | .spaces _ => .spaces
  | .identities => .identities
  | .passwords _ => .passwords
  | .mail _ => .mail

theorem Action.fromStr_asStr (a : Action) : Action.fromStr a.resourceType a.asStr = some a := by
  rcases a with a | a | a | _ | a | a | _ | a | a <;> first | (cases a <;> decide +kernel) | decide +kernel

/-! ## Targets -/

inductive FileSyncTarget where
  | all | spaces | backends | rules
  deriving DecidableEq

def FileSyncTarget.asStr : FileSyncTarget → String
  | .all => "*"
  | .spaces => "spaces"
  | .backends => "backends"
  | .rules => "rules"

def FileSyncTarget.fromStr (s : String) : Option FileSyncTarget :=
  [.all, .spaces, .backends, .rules].find? fun t => t.asStr = s

/-- `FileSyncTarget::matches`. -/
def FileSyncTarget.covers (t required : FileSyncTarget) : Bool := t = .all || t = required

def endsWith (s p : List Char) : Bool := p.isSuffixOf s

def containsStr (s p : List Char) : Bool := decide (p <:+: s)

def findStr (p : List Char) : List Char → Option Nat
  | [] => if p = [] then some 0 else none
  | c :: s => if p.isPrefixOf (c :: s) then some 0 else (findStr p s).map (· + 1)

def replacePercent (a b c : Char) : List Char → List Char
  | x :: y :: z :: s =>
    if x = '%' ∧ y = a ∧ z = b then c :: replacePercent a b c s else x :: replacePercent a b c (y :: z :: s)
  | s => s

/-- One round of `url_decode_path`. -/
def urlDecodeOnce (s : List Char) : List Char :=
  [('2', '5', '%'), ('2', 'e', '.'), ('2', 'E', '.'), ('2', 'f', '/'), ('2', 'F', '/'), ('5', 'c', '\\'), ('5', 'C', '\\'),
    ('0', '0', '\x00')].foldl (fun s r => replacePercent r.1 r.2.1 r.2.2 s) s

def urlDecodePath : Nat → List Char → List Char
  | 0, s => s
  | rounds + 1, s => if urlDecodeOnce s = s then s else urlDecodePath rounds (urlDecodeOnce s)

def dotDot : List Char := ['.', '.']

/-- One component in the loop of `normalize_path`. -/
def pushComponent (isAbsolute : Bool) (components : List (List Char)) (c : List Char) : List (List Char) :=
  if c = [] ∨ c = ['.'] then components
  else if c = dotDot then
    if components ≠ [] ∧ components.getLast? ≠ some dotDot then components.dropLast
    else if isAbsolute then components else components ++ [c]
  else components ++ [c]

def normalizePath (path : List Char) : List Char :=
  let path := path.map fun c => if c = '\\' then '/' else c
  if path = [] then []
  else
    let isAbsolute := path.head? = some '/'
    let normalized := List.intercalate ['/'] ((path.splitOn '/').foldl (pushComponent isAbsolute) [])
    if isAbsolute then '/' :: normalized else normalized

def hasTraversal (path : List Char) : Bool :=
  containsStr path "../".toList || containsStr path "..\\".toList || endsWith path dotDot || path.contains '\x00'

def stripDirectoryWildcard (pattern : List Char) : Option (List Char) :=
  if endsWith pattern ['/', '*'] then some pattern.dropLast.dropLast else none

def matchesPathPattern (pattern path : String) : Bool :=
  let pattern := pattern.toList
  let path := path.toList
  if path.contains '\x00' then false
  else if path = [] ∧ pattern ≠ [] then false
  else
    let decoded := urlDecodePath 5 path
    let normalized := normalizePath decoded
    if pattern = ['*'] then true
    else match stripDirectoryWildcard pattern with
      | some dir =>
        let dir := normalizePath dir
        normalized = dir || (if endsWith dir ['/'] then dir else dir ++ ['/']).isPrefixOf normalized
      | none =>
        if ['*', '.'].isPrefixOf pattern then
          endsWith normalized pattern.tail && !hasTraversal normalized &&
            !(containsStr decoded dotDot || containsStr decoded ['.', '/'] || containsStr decoded ['.', '\\'])
        else match pattern.splitOn '*' with
          | [pre, suf] => (normalizePath pre).isPrefixOf normalized && endsWith normalized suf && !hasTraversal normalized
          | _ => normalized = normalizePath pattern

structure Url where
  scheme : String
  host : Option String
  port : Option Nat
  path : String
  deriving DecidableEq

structure Externals where
  /-- `url::Url::parse`. -/
  parseUrl : String → Except String Url
  /-- The debug form of an argument list. -/
  debug : List String → String

def normalizeUrlPath (path : List Char) : List Char :=
  let push (components : List (List Char)) (c : List Char) : List (List Char) :=
    if c = [] ∨ c = ['.'] then (if components = [] then [[]] else components)
    else if c = dotDot then (if components.length > 1 then components.dropLast else components)
    else components ++ [c]
  let components := (path.splitOn '/').foldl push []
  if components = [] then ['/'] else List.intercalate ['/'] components

variable (x : Externals)

/-- `matches_url_pattern`, where the pattern names subdomains by a wildcard. -/
def matchesSubdomainPattern (pattern : List Char) (url : Url) : Bool :=
  let protocol := pattern.take ((findStr "://".toList pattern).getD 0)
  if protocol ≠ [] ∧ protocol ≠ url.scheme.toList then false
  else
    let domainStart := match findStr "://*.".toList pattern with
      | some i => i + 5
      | none => 2
    let rest := pattern.drop domainStart
    let domain := rest.takeWhile (· ≠ '/')
    let path := rest.dropWhile (· ≠ '/')
    match url.host with
    | none => false
    | some host =>
      if !endsWith host.toList ('.' :: domain) then false
      else if containsStr pattern ['/', '*'] then true
      else if path = [] then true
      else url.path.toList = path

def matchesUrlPattern (pattern url : String) : Bool :=
  match x.parseUrl url with
  | .error _ => false
  | .ok u =>
    if containsStr pattern.toList "://*.".toList || ['*', '.'].isPrefixOf pattern.toList then
      matchesSubdomainPattern pattern.toList u
    else match x.parseUrl pattern with
      | .error _ => false
      | .ok p =>
        if p.scheme ≠ u.scheme then false
        else if p.host ≠ u.host then false
        else if p.port ≠ u.port then false
        else
          let wildcard := if containsStr pattern.toList ['/', '*'] then findStr ['/', '*'] p.path.toList else none
          match wildcard with
          | some pos =>
            let pre := p.path.toList.take (pos + 1)
            let path := normalizeUrlPath u.path.toList
            pre.isPrefixOf path || path = pre.dropLast
          | none => p.path = u.path

/-- `url_matches` of `check_web_permission`. -/
def urlMatches (target url domain : String) : Bool :=
  if target = "*" then true
  else if containsStr target.toList "://".toList then matchesUrlPattern x target url
  else target = domain || endsWith domain.toList ('.' :: target.toList)

/-- `host_matches` of `check_mail_permission`. -/
def hostMatches (target host : String) : Bool :=
  let target := lower target
  let host := lower host
  target = ['*'] || target = host || endsWith host ('.' :: target)

/-! ## What is stored -/

inductive PermissionConstraints where
  | database
  | filesystem (allowedExtensions : Option (List String))
  | web
  | shell (allowedSubcommands forbiddenArgs allowedFlags : Option (List String))
  deriving DecidableEq

structure ExtensionPermission where
  id : String
  extensionId : String
  resourceType : ResourceType
  action : Action
  target : String
  constraints : Option PermissionConstraints
  status : PermissionStatus
  deriving DecidableEq

/-- A row of `haex_extension_permissions` with its id and with its constraints as `serde` reads them. -/
structure StoredPermission extends PermissionRow where
  id : String
  constraints : Option PermissionConstraints
  deriving DecidableEq

/-- How a row is read; the two defaults are for a type and an action that cannot be read. -/
def StoredPermission.readAs (resourceType : ResourceType) (action : Action) (row : StoredPermission) : ExtensionPermission :=
  let resourceType := (row.resourceType.bind ResourceType.fromStr).getD resourceType
  { id := row.id
    extensionId := row.extensionId
    resourceType
    action := (row.action.bind (Action.fromStr resourceType)).getD action
    target := row.target.getD ""
    constraints := row.constraints
    status := (row.status.bind PermissionStatus.fromStr).getD .denied }

/-- How `get_permissions` reads a row. -/
abbrev StoredPermission.read (row : StoredPermission) : ExtensionPermission := row.readAs .db (.database .read)

structure Permissions where
  extensions : String → Option Manifest
  /-- The rows, in the order the queries return them. -/
  rows : List StoredPermission
  ids : (rows.map (·.id)).Nodup
  /-- `SessionPermissionStore`, the entries in some order. -/
  session : List ExtensionPermission

namespace Permissions

variable (s : Permissions) (extensionId : String)

def getPermissions : List ExtensionPermission :=
  (s.rows.filter fun row => row.extensionId = extensionId).map StoredPermission.read

def sessionKey (p : ExtensionPermission) : String × ResourceType × String := (p.extensionId, p.resourceType, p.target)

def getPermission (resourceType : ResourceType) (target : String) : Option PermissionStatus :=
  (s.session.find? fun p => sessionKey p = (extensionId, resourceType, target)).map (·.status)

/-- What `check_database_permission` reads. -/
def appState : AppState where
  extensions := s.extensions
  permissions := s.rows.map (·.toPermissionRow)
  sessionPermissions := s.getPermission

/-! ## The checks -/

/-- What the checks do with the first permission that fits, and without one. -/
def settle (matching : Option ExtensionPermission) (passes : ExtensionPermission → Bool) (session : Option PermissionStatus)
    (violation denied prompt : ExtensionError) : Except ExtensionError Unit :=
  match matching with
  | some perm =>
    if !passes perm then .error violation
    else match perm.status with
      | .granted => .ok ()
      | .denied => .error denied
      | .ask => .error prompt
  | none =>
    match session with
    | some .granted => .ok ()
    | some .denied => .error denied
    | _ => .error prompt

def withExtension {α : Type} (k : Manifest → Except ExtensionError α) : Except ExtensionError α :=
  match s.extensions extensionId with
  | none => .error (.validation ("Extension not found: " ++ extensionId))
  | some m => k m

def checkWebPermission (url : String) : Except ExtensionError Unit :=
  s.withExtension extensionId fun m =>
    let permissions := (s.rows.filter fun row => row.extensionId = extensionId ∧ row.resourceType = some "web").map
      (StoredPermission.readAs .web (.web .get))
    match x.parseUrl url with
    | .error e => .error (.validation ("Invalid URL: " ++ e))
    | .ok u =>
      match u.host with
      | none => .error (.validation "URL does not contain a valid host")
      | some domain =>
        let denied := .permissionDenied extensionId "web request" url
        settle (permissions.find? fun perm => urlMatches x perm.target url domain) (fun _ => true)
          (s.getPermission extensionId .web url) denied denied
          (.permissionPromptRequired extensionId m.name "web" "request" url)

def fileExtension (path : String) : Option String :=
  match ((path.toList.splitOn '/').filter fun c => c ≠ [] ∧ c ≠ ['.']).getLast? with
  | none => none
  | some name =>
    let suffix := (name.reverse.takeWhile (· ≠ '.')).reverse
    let stem := name.take (name.length - suffix.length - 1)
    if name = dotDot ∨ '.' ∉ name ∨ stem = [] then none else some (String.ofList suffix)

/-- `passes_constraints` of the file checks. -/
def passesFile (path : String) (perm : ExtensionPermission) : Bool :=
  match perm.constraints with
  | some (.filesystem (some allowed)) =>
    match fileExtension path with
    | some ext => allowed.contains ("." ++ ext)
    | none => false
  | _ => true

def debugFile : Action → String
  | .filesystem .read => "Filesystem(Read)"
  | .filesystem .readWrite => "Filesystem(ReadWrite)"
  | a => a.asStr

/-- `check_filesystem_permission`, for the actions on files. -/
def checkFilesystemPermission (action : Access) (path : String) : Except ExtensionError Unit :=
  s.withExtension extensionId fun m =>
    let resource := "filesystem path '" ++ path ++ "'"
    settle
      ((s.getPermissions extensionId).find? fun perm =>
        perm.resourceType = .fs && perm.action = .filesystem action && matchesPathPattern perm.target path)
      (passesFile path) (s.getPermission extensionId .fs path)
      (.permissionDenied extensionId (debugFile (.filesystem action)) (resource ++ " (constraint violation)"))
      (.permissionDenied extensionId action.asStr resource)
      (.permissionPromptRequired extensionId m.name "fs" action.asStr path)

/-- `matches_fs_action_for_read`. -/
def allowsFileRead (permissionAction : Action) : Bool :=
  permissionAction = .filesystem .read || permissionAction = .filesystem .readWrite

def canReadPathSilently (permissions : List ExtensionPermission) (path : String) (sessionGranted sessionDenied : Bool) : Bool :=
  if sessionDenied then false
  else match permissions.find? fun perm =>
      perm.resourceType = .fs && allowsFileRead perm.action && matchesPathPattern perm.target path with
    | some perm =>
      if !passesFile path perm then false
      else match perm.status with
        | .granted => true
        | .denied => false
        | .ask => sessionGranted
    | none => sessionGranted

def isFsReadAllowedSilently (path : String) : Bool :=
  match s.extensions extensionId with
  | none => false
  | some _ =>
    canReadPathSilently (s.getPermissions extensionId) path
      (s.getPermission extensionId .fs path = some .granted) (s.getPermission extensionId .fs path = some .denied)

/-- `passes_constraints` of the shell check. -/
def passesShell (args : List String) (perm : ExtensionPermission) : Bool :=
  match perm.constraints with
  | some (.shell allowedSubcommands forbiddenArgs allowedFlags) =>
    (allowedSubcommands.all fun allowed => args.head?.all fun sub => allowed.contains sub || allowed.contains "*") &&
    (forbiddenArgs.all fun forbidden => !args.any forbidden.contains) &&
    (allowedFlags.all fun allowed =>
      (args.filter (startsWith · "-")).all fun flag => allowed.contains flag || allowed.contains "*")
  | _ => true

def checkShellPermission (command : String) (args : List String) : Except ExtensionError Unit :=
  s.withExtension extensionId fun m =>
    let resource := "shell command '" ++ command ++ "' with args " ++ x.debug args
    settle
      ((s.getPermissions extensionId).find? fun perm =>
        perm.resourceType = .shell && (perm.target = command || perm.target = "*"))
      (passesShell args) (s.getPermission extensionId .shell command)
      (.permissionDenied extensionId "execute" (resource ++ " (constraint violation)"))
      (.permissionDenied extensionId "execute" resource)
      (.permissionPromptRequired extensionId m.name "shell" "execute" command)

/-- The `action_allows` of the checks for files in the cloud, spaces and passwords, where `wrap` makes the action. -/
def actionAllows (wrap : Access → Action) (permAction : Action) (required : Access) : Bool :=
  permAction = wrap required || (permAction = wrap .readWrite && required = .read)

def checkFilesyncPermission (action : Access) (target : FileSyncTarget) : Except ExtensionError Unit :=
  s.withExtension extensionId fun m =>
    let denied := .permissionDenied extensionId action.asStr ("filesync:" ++ target.asStr)
    settle
      ((s.getPermissions extensionId).find? fun perm =>
        perm.resourceType = .filesync && actionAllows .fileSync perm.action action &&
          (FileSyncTarget.fromStr perm.target).any (·.covers target))
      (fun _ => true) (s.getPermission extensionId .filesync target.asStr) denied denied
      (.permissionPromptRequired extensionId m.name "filesync" action.asStr target.asStr)

def checkSpacesPermission (action : Access) : Except ExtensionError Unit :=
  s.withExtension extensionId fun m =>
    let denied := .permissionDenied extensionId action.asStr "spaces:*"
    settle
      ((s.getPermissions extensionId).find? fun perm =>
        perm.resourceType = .spaces && actionAllows .spaces perm.action action)
      (fun _ => true) (s.getPermission extensionId .spaces "*") denied denied
      (.permissionPromptRequired extensionId m.name "spaces" action.asStr "*")

inductive PasswordsScope where
  | all
  | tags (tags : List String)
  deriving DecidableEq

def checkPasswordsPermission (action : Access) : Except ExtensionError PasswordsScope :=
  s.withExtension extensionId fun m =>
    let prompt := .error (.permissionPromptRequired extensionId m.name "passwords" action.asStr "*")
    let matching := (s.getPermissions extensionId).filter fun p =>
      p.resourceType = .passwords && actionAllows .passwords p.action action
    if matching = [] then prompt
    else if matching.any (·.status = .denied) then .error (.permissionDenied extensionId action.asStr "passwords:*")
    else
      let granted := matching.filter (·.status = .granted)
      if granted = [] then prompt
      else if granted.any (·.target = "*") then .ok .all
      else .ok (.tags (granted.map (·.target)))

def sessionStatus (matching : List ExtensionPermission) : Option PermissionStatus :=
  if matching.any (·.status = .denied) then some .denied
  else if matching.any (·.status = .granted) then some .granted
  else matching.head?.map (·.status)

def checkMailPermission (action : MailAction) (host : String) : Except ExtensionError Unit :=
  s.withExtension extensionId fun m =>
    let fits (p : ExtensionPermission) : Bool := p.resourceType = .mail && p.action = .mail action && hostMatches p.target host
    let matching := (s.getPermissions extensionId).filter fits
    let session := sessionStatus ((s.session.filter fun p => p.extensionId = extensionId).filter fits)
    let denied := .error (.permissionDenied extensionId action.asStr host)
    let undecided := match session with
      | some .granted => .ok ()
      | some .denied => denied
      | _ => .error (.permissionPromptRequired extensionId m.name "mail" action.asStr host)
    if matching = [] then undecided
    else if matching.any (·.status = .denied) then denied
    else if matching.any (·.status = .granted) then .ok ()
    else undecided

end Permissions

/-! ## Requests -/

/-- A request that a check decides; for passwords, to reach the entries under a tag. -/
inductive Request where
  | database (action : DbAction) (table : String)
  | web (url : String)
  | filesystem (action : Access) (path : String)
  | readSilently (path : String)
  | shell (command : String) (args : List String)
  | fileSync (action : Access) (target : FileSyncTarget)
  | spaces (action : Access)
  | passwords (action : Access) (tag : String)
  | mail (action : MailAction) (host : String)
  deriving DecidableEq

/-- What the request does. -/
def Request.action : Request → Action
  | .database a _ => .database a
  | .web _ => .web .all
  | .filesystem a _ => .filesystem a
  | .readSilently _ => .filesystem .read
  | .shell _ _ => .shell
  | .fileSync a _ => .fileSync a
  | .spaces a => .spaces a
  | .passwords a _ => .passwords a
  | .mail a _ => .mail a

/-- The text under which the session is asked; the checks of passwords and mail do not ask that way. -/
def Request.sessionTarget : Request → Option String
  | .database _ table => some table
  | .web url => some url
  | .filesystem _ path | .readSilently path => some path
  | .shell command _ => some command
  | .fileSync _ target => some target.asStr
  | .spaces _ => some "*"
  | .passwords _ _ | .mail _ _ => none

/-- The target of a permission covers the request. -/
def Request.matchesTarget (target : String) : Request → Bool
  | .database _ table => matchesTablePattern target table
  | .web url => match x.parseUrl url with
    | .ok u => u.host.any (urlMatches x target url)
    | .error _ => false
  | .filesystem _ path | .readSilently path => matchesPathPattern target path
  | .shell command _ => target = command || target = "*"
  | .fileSync _ required => (FileSyncTarget.fromStr target).any (·.covers required)
  | .spaces _ => true
  | .passwords _ tag => target = "*" || target = tag
  | .mail _ host => hostMatches target host

/-- The action of a stored permission covers the request; the checks of web and shell do not look at it. -/
def Request.allowedBy (permAction : Action) : Request → Bool
  | .database a _ => permAction = .database a || (permAction = .database .readWrite && a = .read)
  | .web _ | .shell _ _ => true
  | .filesystem a _ => permAction = .filesystem a
  | .readSilently _ => Permissions.allowsFileRead permAction
  | .fileSync a _ => Permissions.actionAllows .fileSync permAction a
  | .spaces a => Permissions.actionAllows .spaces permAction a
  | .passwords a _ => Permissions.actionAllows .passwords permAction a
  | .mail a _ => permAction = .mail a

def Request.passes (perm : ExtensionPermission) : Request → Bool
  | .filesystem _ path | .readSilently path => Permissions.passesFile path perm
  | .shell _ args => Permissions.passesShell args perm
  | _ => true

/-- A stored permission fits the request. -/
def Request.fits (r : Request) (perm : ExtensionPermission) : Bool :=
  perm.resourceType = r.action.resourceType && r.allowedBy perm.action && r.matchesTarget x perm.target

/-- The requests that the first fitting row or the session decides, and the session is asked only without such a row. -/
def Request.Settled : Request → Prop
  | .readSilently _ | .passwords _ _ | .mail _ _ => False
  | _ => True

def Request.Valid : Request → Prop
  | .web url => ∃ u, x.parseUrl url = .ok u ∧ u.host.isSome
  | _ => True

def Request.own (m : Manifest) : Request → Bool
  | .database _ table => isAutoAllowedTable m table
  | _ => false

namespace Permissions

variable (s : Permissions) (extensionId : String)

/-- The check lets the request through. -/
def accepts : Request → Bool
  | .database a table => checkDatabasePermission s.appState extensionId (.database a) table = .ok ()
  | .web url => s.checkWebPermission x extensionId url = .ok ()
  | .filesystem a path => s.checkFilesystemPermission extensionId a path = .ok ()
  | .readSilently path => s.isFsReadAllowedSilently extensionId path
  | .shell command args => s.checkShellPermission x extensionId command args = .ok ()
  | .fileSync a target => s.checkFilesyncPermission extensionId a target = .ok ()
  | .spaces a => s.checkSpacesPermission extensionId a = .ok ()
  | .passwords a tag => match s.checkPasswordsPermission extensionId a with
    | .ok .all => true
    | .ok (.tags tags) => tags.contains tag
    | .error _ => false
  | .mail a host => s.checkMailPermission extensionId a host = .ok ()

def firstRow (r : Request) : Option StoredPermission :=
  s.rows.find? fun row => row.extensionId = extensionId && r.fits x row.read

/-! ## What the checks let through -/

variable {x s extensionId}

def settles (passes : StoredPermission → Bool) (session : Option PermissionStatus) : Option StoredPermission → Prop
  | some row => passes row = true ∧ row.read.status = .granted
  | none => session = some .granted

theorem settle_ok {matching : Option ExtensionPermission} {passes : ExtensionPermission → Bool}
    {session : Option PermissionStatus} {violation denied prompt : ExtensionError} :
    settle matching passes session violation denied prompt = .ok () ↔
      match matching with
      | some perm => passes perm = true ∧ perm.status = .granted
      | none => session = some .granted := by
  cases matching with
  | none =>
    simp only [settle]
    split <;> simp_all
  | some perm =>
    cases hpass : passes perm with
    | false => simp [settle, hpass]
    | true => cases hstatus : perm.status <;> simp [settle, hpass, hstatus]

theorem find_getPermissions (p : ExtensionPermission → Bool) :
    (s.getPermissions extensionId).find? p =
      (s.rows.find? fun row => row.extensionId = extensionId && p row.read).map StoredPermission.read := by
  simp only [getPermissions, List.find?_map, List.find?_filter, Function.comp_def, Bool.decide_and, Bool.decide_eq_true]

theorem settle_firstRow {p : ExtensionPermission → Bool} {r : Request} (hp : ∀ perm, p perm = r.fits x perm)
    {session : Option PermissionStatus} {violation denied prompt : ExtensionError} :
    settle ((s.getPermissions extensionId).find? p) r.passes session violation denied prompt = .ok () ↔
      settles (fun row => r.passes row.read) session (s.firstRow x extensionId r) := by
  obtain rfl : p = r.fits x := funext hp
  rw [settle_ok, find_getPermissions, firstRow]
  cases s.rows.find? fun row => row.extensionId = extensionId && r.fits x row.read <;> rfl

theorem read_database (row : StoredPermission) (a : DbAction) :
    (row.toPermissionRow.read.resourceType = .db && matchesAction row.toPermissionRow.read.action a) =
      (row.read.resourceType = .db &&
        (row.read.action = .database a || (row.read.action = .database .readWrite && a = .read))) := by
  simp only [PermissionRow.read, StoredPermission.read, StoredPermission.readAs]
  by_cases hdb : (row.resourceType.bind ResourceType.fromStr).getD .db = .db
  · cases htext : row.action.bind DbAction.fromStr with
    | none =>
      have hold : row.action.bind (Extension.Action.fromStr .db) = none := by
        rw [Option.bind_eq_none_iff] at htext ⊢
        intro text h
        simp [Extension.Action.fromStr, htext text h]
      have hnew : row.action.bind (Action.fromStr .db) = none := by
        rw [Option.bind_eq_none_iff] at htext ⊢
        intro text h
        simp [Action.fromStr, htext text h]
      cases a <;> simp [hdb, hold, hnew, matchesAction]
    | some b =>
      obtain ⟨text, h, hb⟩ := Option.bind_eq_some_iff.1 htext
      cases a <;> simp [hdb, h, hb, Extension.Action.fromStr, Action.fromStr, matchesAction]
  · simp [hdb]

theorem fits_database (row : StoredPermission) (a : DbAction) (table : String) :
    (row.toPermissionRow.read.resourceType = .db && matchesTablePattern row.toPermissionRow.read.target table &&
      matchesAction row.toPermissionRow.read.action a) = (Request.database a table).fits x row.read := by
  rw [Bool.and_right_comm, read_database]
  rfl

theorem matchingPermission_appState (a : DbAction) (table : String) :
    matchingPermission (HaexVault.Extension.getPermissions s.appState extensionId) a table =
      (s.firstRow x extensionId (.database a table)).map (·.toPermissionRow.read) := by
  simp only [matchingPermission, HaexVault.Extension.getPermissions, appState, List.filter_map, List.map_map, List.find?_map,
    List.find?_filter, Function.comp_def, Bool.decide_and, Bool.decide_eq_true, fits_database (x := x)]
  rfl

theorem resourceType_web (row : StoredPermission) : row.read.resourceType = .web ↔ row.resourceType = some "web" := by
  cases h : row.resourceType with
  | none => simp [StoredPermission.read, StoredPermission.readAs, h]
  | some text =>
    simp only [StoredPermission.read, StoredPermission.readAs, h, Option.bind_some, Option.some.injEq]
    constructor
    · intro hweb
      unfold ResourceType.fromStr at hweb
      split_ifs at hweb
      all_goals first
        | assumption
        | cases hweb
    · rintro rfl
      rfl

theorem find_webPermissions {url domain : String} {u : Url} (hparse : x.parseUrl url = .ok u) (hhost : u.host = some domain) :
    (((s.rows.filter fun row => row.extensionId = extensionId ∧ row.resourceType = some "web").map
      (StoredPermission.readAs .web (.web .get))).find? fun perm => urlMatches x perm.target url domain) =
      (s.firstRow x extensionId (.web url)).map (StoredPermission.readAs .web (.web .get)) := by
  simp only [List.find?_map, List.find?_filter, Function.comp_def, Bool.decide_and, Bool.decide_eq_true, firstRow,
    Request.fits, Request.allowedBy, Request.matchesTarget, hparse, hhost, Option.any_some, Bool.and_true]
  congr 2
  funext row
  rw [Bool.and_assoc]
  congr 2
  exact decide_eq_decide.2 (resourceType_web row).symm

theorem accepts_settled {r : Request} (hr : r.Settled) :
    s.accepts x extensionId r = true ↔ ∃ m, s.extensions extensionId = some m ∧ r.Valid x ∧ (r.own m = true ∨
      ∃ target, r.sessionTarget = some target ∧ settles (fun row => r.passes row.read)
        (s.getPermission extensionId r.action.resourceType target) (s.firstRow x extensionId r)) := by
  cases hm : s.extensions extensionId with
  | none =>
    simp only [reduceCtorEq, false_and, exists_false, iff_false]
    cases r <;> simp_all [accepts, checkDatabasePermission, appState, checkWebPermission, checkFilesystemPermission,
      checkShellPermission, checkFilesyncPermission, checkSpacesPermission, withExtension, Request.Settled]
  | some m =>
    simp only [Option.some.injEq, exists_eq_left']
    cases r with
    | readSilently => exact hr.elim
    | passwords => exact hr.elim
    | mail => exact hr.elim
    | filesystem a path =>
      simp only [accepts, checkFilesystemPermission, withExtension, hm, decide_eq_true_eq, Request.own, Bool.false_eq_true,
        false_or, Request.sessionTarget, Option.some.injEq, exists_eq_left', Request.Valid, true_and]
      exact settle_firstRow (r := .filesystem a path) fun _ => rfl
    | shell command args =>
      simp only [accepts, checkShellPermission, withExtension, hm, decide_eq_true_eq, Request.own, Bool.false_eq_true,
        false_or, Request.sessionTarget, Option.some.injEq, exists_eq_left', Request.Valid, true_and]
      refine settle_firstRow (x := x) (r := .shell command args) fun perm => ?_
      simp only [Request.fits, Request.allowedBy, Request.matchesTarget, Bool.and_true]
      rfl
    | fileSync a target =>
      simp only [accepts, checkFilesyncPermission, withExtension, hm, decide_eq_true_eq, Request.own, Bool.false_eq_true,
        false_or, Request.sessionTarget, Option.some.injEq, exists_eq_left', Request.Valid, true_and]
      exact settle_firstRow (r := .fileSync a target) fun _ => rfl
    | spaces a =>
      simp only [accepts, checkSpacesPermission, withExtension, hm, decide_eq_true_eq, Request.own, Bool.false_eq_true,
        false_or, Request.sessionTarget, Option.some.injEq, exists_eq_left', Request.Valid, true_and]
      refine settle_firstRow (x := x) (r := .spaces a) fun perm => ?_
      simp only [Request.fits, Request.allowedBy, Request.matchesTarget, Bool.and_true]
      rfl
    | database a table =>
      simp only [accepts, checkDatabasePermission, Request.own, Request.sessionTarget, Option.some.injEq,
        exists_eq_left', Request.Valid, true_and]
      cases hown : isAutoAllowedTable m table with
      | true => simp [appState, hm, hown]
      | false =>
        simp only [show s.appState.extensions extensionId = some m from hm, hown, Bool.false_eq_true, if_false, false_or,
          matchingPermission_appState (x := x)]
        cases s.firstRow x extensionId (.database a table) with
        | none =>
          simp only [Option.map_none, settles]
          rw [decide_eq_true_iff]
          change (match s.getPermission extensionId .db table with
            | some .granted => _ | some .denied => _ | _ => _) = _ ↔ s.getPermission extensionId .db table = _
          rcases s.getPermission extensionId .db table with _ | _ | _ | _ <;> simp
        | some row =>
          simp only [Option.map_some, settles, Request.passes, true_and]
          rw [decide_eq_true_iff]
          change (match row.read.status with | .granted => _ | .denied => _ | .ask => _) = _ ↔ _
          cases row.read.status <;> simp
    | web url =>
      simp only [accepts, checkWebPermission, withExtension, hm, decide_eq_true_eq, Request.own, Bool.false_eq_true,
        false_or, Request.sessionTarget, Option.some.injEq, exists_eq_left', Request.Valid]
      cases hparse : x.parseUrl url with
      | error => simp
      | ok u =>
        cases hhost : u.host with
        | none => simp [hhost]
        | some domain =>
          simp only [Except.ok.injEq, exists_eq_left', hhost, Option.isSome_some, true_and, settle_ok,
            find_webPermissions hparse hhost]
          cases s.firstRow x extensionId (.web url) with
          | none => rfl
          | some row => simp only [Option.map_some, settles, Request.passes, true_and]; rfl

theorem accepts_readSilently {path : String} :
    s.accepts x extensionId (.readSilently path) = true ↔ (∃ m, s.extensions extensionId = some m) ∧
      s.getPermission extensionId .fs path ≠ some .denied ∧
        match s.firstRow x extensionId (.readSilently path) with
        | some row => passesFile path row.read = true ∧ (row.read.status = .granted ∨
            row.read.status = .ask ∧ s.getPermission extensionId .fs path = some .granted)
        | none => s.getPermission extensionId .fs path = some .granted := by
  have hfind : (s.getPermissions extensionId).find? (fun perm => perm.resourceType = .fs && allowsFileRead perm.action &&
      matchesPathPattern perm.target path) = (s.firstRow x extensionId (.readSilently path)).map StoredPermission.read :=
    find_getPermissions _
  cases hm : s.extensions extensionId with
  | none => simp [accepts, isFsReadAllowedSilently, hm]
  | some m =>
    simp only [accepts, isFsReadAllowedSilently, hm, canReadPathSilently, hfind, Option.some.injEq, exists_eq', true_and]
    cases s.firstRow x extensionId (.readSilently path) with
    | none => by_cases hdenied : s.getPermission extensionId .fs path = some .denied <;> simp [hdenied]
    | some row =>
      cases hpass : passesFile path row.read <;> cases hstatus : row.read.status <;>
        by_cases hdenied : s.getPermission extensionId .fs path = some .denied <;> simp [hpass, hstatus, hdenied]

variable (s extensionId) in
def passwordRows (action : Access) : List StoredPermission :=
  s.rows.filter fun row => row.extensionId = extensionId && (row.read.resourceType = .passwords &&
    actionAllows .passwords row.read.action action)

variable (s extensionId) in
def mailRows (action : MailAction) (host : String) : List StoredPermission :=
  s.rows.filter fun row => row.extensionId = extensionId && (row.read.resourceType = .mail && row.read.action = .mail action &&
    hostMatches row.read.target host)

variable (s extensionId) in
def mailSession (action : MailAction) (host : String) : List ExtensionPermission :=
  s.session.filter fun p => p.extensionId = extensionId && (p.resourceType = .mail && p.action = .mail action &&
    hostMatches p.target host)

theorem filter_getPermissions (p : ExtensionPermission → Bool) :
    (s.getPermissions extensionId).filter p =
      (s.rows.filter fun row => row.extensionId = extensionId && p row.read).map StoredPermission.read := by
  simp only [getPermissions, List.filter_map, List.filter_filter, Function.comp_def]
  congr 2
  funext row
  exact Bool.and_comm _ _

theorem filter_mailRows (action : MailAction) (host : String) : (s.getPermissions extensionId).filter (fun p =>
    p.resourceType = .mail && p.action = .mail action && hostMatches p.target host) =
      (s.mailRows extensionId action host).map StoredPermission.read :=
  filter_getPermissions _

theorem filter_mailSession (action : MailAction) (host : String) : (s.session.filter fun p => p.extensionId = extensionId).filter
    (fun p => p.resourceType = .mail && p.action = .mail action && hostMatches p.target host) =
      s.mailSession extensionId action host := by
  rw [List.filter_filter, mailSession]
  congr 1
  funext p
  exact Bool.and_comm _ _

theorem checkPasswordsPermission_ok {action : Access} {scope : PasswordsScope} :
    s.checkPasswordsPermission extensionId action = .ok scope ↔ (∃ m, s.extensions extensionId = some m) ∧
      (∀ row ∈ s.passwordRows extensionId action, row.read.status ≠ .denied) ∧
        ∃ granted, ((s.passwordRows extensionId action).map StoredPermission.read).filter (·.status = .granted) = granted ∧
          granted ≠ [] ∧ scope = if granted.any (·.target = "*") then .all else .tags (granted.map (·.target)) := by
  have hfilter : (s.getPermissions extensionId).filter
      (fun p => p.resourceType = .passwords && actionAllows .passwords p.action action) =
        (s.passwordRows extensionId action).map StoredPermission.read := filter_getPermissions _
  cases hm : s.extensions extensionId with
  | none => simp [checkPasswordsPermission, withExtension, hm]
  | some m =>
    simp only [checkPasswordsPermission, withExtension, hm, hfilter, Option.some.injEq, exists_eq', true_and]
    generalize s.passwordRows extensionId action = rows
    split_ifs with hnil hdenied hgranted hall
    · simp [List.map_eq_nil_iff.1 hnil]
    · simp only [List.any_map, List.any_eq_true, Function.comp_apply, decide_eq_true_eq] at hdenied
      obtain ⟨row, hrow, hstatus⟩ := hdenied
      simp only [false_iff, not_and]
      exact fun hno => absurd hstatus (hno row hrow)
    · simp [hgranted]
    all_goals
      have hno : ∀ row ∈ rows, row.read.status ≠ .denied := by simpa using hdenied
      rw [and_iff_right hno]
      simp only [exists_eq_left', ne_eq, hgranted, not_false_eq_true, true_and, Except.ok.injEq, hall, if_true]
      exact eq_comm

theorem accepts_passwords {action : Access} {tag : String} :
    s.accepts x extensionId (.passwords action tag) = true ↔ (∃ m, s.extensions extensionId = some m) ∧
      (∀ row ∈ s.passwordRows extensionId action, row.read.status ≠ .denied) ∧
        ∃ row ∈ s.passwordRows extensionId action,
          row.read.status = .granted ∧ (row.read.target = "*" ∨ row.read.target = tag) := by
  have haccepts : s.accepts x extensionId (.passwords action tag) = true ↔
      ∃ scope, s.checkPasswordsPermission extensionId action = .ok scope ∧ (scope = .all ∨ ∃ tags, scope = .tags tags ∧ tag ∈ tags) := by
    simp only [accepts]
    rcases s.checkPasswordsPermission extensionId action with e | _ | tags <;> simp
  simp only [haccepts, checkPasswordsPermission_ok]
  constructor
  · rintro ⟨_, ⟨hm, hno, _, rfl, -, rfl⟩, hscope⟩
    refine ⟨hm, hno, ?_⟩
    split_ifs at hscope with hany
    · obtain ⟨_, hp, hstar⟩ := List.any_eq_true.1 hany
      obtain ⟨hp, hstatus⟩ := List.mem_filter.1 hp
      obtain ⟨row, hrow, rfl⟩ := List.mem_map.1 hp
      exact ⟨row, hrow, of_decide_eq_true hstatus, .inl (of_decide_eq_true hstar)⟩
    · simp only [PasswordsScope.tags.injEq, exists_eq_left', false_or, List.mem_map, List.mem_filter, decide_eq_true_eq] at hscope
      obtain ⟨_, ⟨⟨row, hrow, rfl⟩, hstatus⟩, htarget⟩ := hscope
      exact ⟨row, hrow, hstatus, .inr htarget⟩
  · rintro ⟨hm, hno, row, hrow, hstatus, htarget⟩
    have hmem : row.read ∈ ((s.passwordRows extensionId action).map StoredPermission.read).filter (·.status = .granted) :=
      List.mem_filter.2 ⟨List.mem_map_of_mem hrow, decide_eq_true hstatus⟩
    refine ⟨_, ⟨hm, hno, _, rfl, List.ne_nil_of_mem hmem, rfl⟩, ?_⟩
    split_ifs with hany
    · exact .inl rfl
    · rcases htarget with hstar | htarget
      · exact absurd (List.any_eq_true.2 ⟨_, hmem, decide_eq_true hstar⟩) hany
      · exact .inr ⟨_, rfl, List.mem_map.2 ⟨_, hmem, htarget⟩⟩

theorem sessionStatus_granted {l : List ExtensionPermission} :
    sessionStatus l = some .granted ↔ (∀ p ∈ l, p.status ≠ .denied) ∧ ∃ p ∈ l, p.status = .granted := by
  unfold sessionStatus
  by_cases hdenied : l.any (·.status = .denied) = true
  · rw [if_pos hdenied]
    simp only [List.any_eq_true, decide_eq_true_eq] at hdenied
    obtain ⟨p, hp, hstatus⟩ := hdenied
    simp only [Option.some.injEq, reduceCtorEq, false_iff, not_and]
    exact fun hno => absurd hstatus (hno p hp)
  rw [if_neg hdenied]
  have hno : ∀ p ∈ l, p.status ≠ .denied := by simpa using hdenied
  by_cases hgranted : l.any (·.status = .granted) = true
  · rw [if_pos hgranted, and_iff_right hno]
    simpa using hgranted
  rw [if_neg hgranted]
  have hnone : ∀ p ∈ l, p.status ≠ .granted := by simpa using hgranted
  constructor
  · intro h
    obtain ⟨p, hp, hstatus⟩ := Option.map_eq_some_iff.1 h
    exact absurd hstatus (hnone p (List.mem_of_mem_head? hp))
  · rintro ⟨-, p, hp, hstatus⟩
    exact absurd hstatus (hnone p hp)

theorem accepts_mail {action : MailAction} {host : String} :
    s.accepts x extensionId (.mail action host) = true ↔ (∃ m, s.extensions extensionId = some m) ∧
      (∀ row ∈ s.mailRows extensionId action host, row.read.status ≠ .denied) ∧
        ((∃ row ∈ s.mailRows extensionId action host, row.read.status = .granted) ∨
          (∀ p ∈ s.mailSession extensionId action host, p.status ≠ .denied) ∧
            ∃ p ∈ s.mailSession extensionId action host, p.status = .granted) := by
  cases hm : s.extensions extensionId with
  | none => simp [accepts, checkMailPermission, withExtension, hm]
  | some m =>
    simp only [accepts, checkMailPermission, withExtension, hm, filter_mailRows, filter_mailSession, Option.some.injEq,
      exists_eq', true_and, ← sessionStatus_granted]
    generalize s.mailRows extensionId action host = rows
    rw [decide_eq_true_iff]
    by_cases hnil : rows.map StoredPermission.read = []
    · obtain rfl := List.map_eq_nil_iff.1 hnil
      rcases sessionStatus (s.mailSession extensionId action host) with _ | _ | _ | _ <;> simp
    rw [if_neg hnil]
    by_cases hdenied : ∃ row ∈ rows, row.read.status = .denied
    · have hany : (rows.map StoredPermission.read).any (·.status = .denied) = true := by simpa using hdenied
      rw [if_pos hany]
      obtain ⟨row, hrow, hstatus⟩ := hdenied
      simp only [reduceCtorEq, false_iff, not_and]
      exact fun hno => absurd hstatus (hno row hrow)
    have hany : ¬ (rows.map StoredPermission.read).any (·.status = .denied) = true := by simpa using hdenied
    have hno : ∀ row ∈ rows, row.read.status ≠ .denied := fun row hrow h => hdenied ⟨row, hrow, h⟩
    rw [if_neg hany, and_iff_right hno]
    by_cases hgranted : ∃ row ∈ rows, row.read.status = .granted
    · have hany : (rows.map StoredPermission.read).any (·.status = .granted) = true := by simpa using hgranted
      simp only [hany, if_true, hgranted, true_or]
    · have hany : ¬ (rows.map StoredPermission.read).any (·.status = .granted) = true := by simpa using hgranted
      simp only [if_neg hany, hgranted, false_or]
      rcases sessionStatus (s.mailSession extensionId action host) with _ | _ | _ | _ <;> simp

end Permissions

end HaexVault.Extension.PermissionManager
