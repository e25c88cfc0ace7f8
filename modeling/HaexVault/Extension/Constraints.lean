import HaexVault.Extension.Decisions
import HaexVault.Space.Ucan
/-!
# Stored constraints (`extension/permissions/types.rs`)

The constraints of a permission are stored as the JSON text of an untagged union. `serde` reads it
with the first alternative that fits, and every object fits those of a database (`ofJson_toJson`).
`restored_iff` says which permissions come back as they were saved.
-/

namespace HaexVault.Extension.PermissionManager.Types

open HaexVault.Space (Json)

/-! ## The constraints -/

structure DbConstraints where
  whereClause : Option String := none
  columns : Option (List String) := none
  limit : Option UInt32 := none
  deriving DecidableEq

structure FsConstraints where
  maxFileSize : Option UInt64 := none
  allowedExtensions : Option (List String) := none
  recursive : Option Bool := none
  deriving DecidableEq

structure RateLimit where
  requests : UInt32
  perMinutes : UInt32
  deriving DecidableEq

structure WebConstraints where
  methods : Option (List String) := none
  rateLimit : Option RateLimit := none
  deriving DecidableEq

structure ShellConstraints where
  allowedSubcommands : Option (List String) := none
  allowedFlags : Option (List String) := none
  forbiddenArgs : Option (List String) := none
  deriving DecidableEq

inductive PermissionConstraints where
  | database (c : DbConstraints)
  | filesystem (c : FsConstraints)
  | web (c : WebConstraints)
  | shell (c : ShellConstraints)
  deriving DecidableEq

/-! ## Writing them -/

def entry {α : Type} (name : String) (write : α → Json) (v : Option α) : List (String × Json) :=
  (v.map fun v => (name, write v)).toList

def ofStrings (l : List String) : Json := .array (l.map .string)
def ofU32 (n : UInt32) : Json := .number (.posInt n.toUInt64)
def ofU64 (n : UInt64) : Json := .number (.posInt n)

def DbConstraints.toJson (c : DbConstraints) : Json :=
  .object (entry "where_clause" .string c.whereClause ++ entry "columns" ofStrings c.columns ++ entry "limit" ofU32 c.limit)

def FsConstraints.toJson (c : FsConstraints) : Json :=
  .object (entry "max_file_size" ofU64 c.maxFileSize ++ entry "allowed_extensions" ofStrings c.allowedExtensions ++
    entry "recursive" .bool c.recursive)

def RateLimit.toJson (c : RateLimit) : Json := .object [("requests", ofU32 c.requests), ("per_minutes", ofU32 c.perMinutes)]

def WebConstraints.toJson (c : WebConstraints) : Json :=
  .object (entry "methods" ofStrings c.methods ++ entry "rate_limit" RateLimit.toJson c.rateLimit)

def ShellConstraints.toJson (c : ShellConstraints) : Json :=
  .object (entry "allowed_subcommands" ofStrings c.allowedSubcommands ++ entry "allowed_flags" ofStrings c.allowedFlags ++
    entry "forbidden_args" ofStrings c.forbiddenArgs)

/-- The union is untagged: only the struct is written. -/
def PermissionConstraints.toJson : PermissionConstraints → Json
  | .database c => c.toJson
  | .filesystem c => c.toJson
  | .web c => c.toJson
  | .shell c => c.toJson

/-! ## Reading them -/

def toStrings : Json → Option (List String)
  | .array items => items.mapM Json.asStr
  | _ => none

def toU64 : Json → Option UInt64
  | .number (.posInt n) => some n
  | _ => none

def toU32 (j : Json) : Option UInt32 := ((toU64 j).filter fun n => n.toNat < 2 ^ 32).map (·.toUInt32)

def toBool : Json → Option Bool
  | .bool b => some b
  | _ => none

def nullable {α : Type} (read : Json → Option α) : Json → Option (Option α)
  | .null => some none
  | j => (read j).map some

def optField {α : Type} (read : Json → Option α) (entries : List (String × Json)) (name : String) : Option (Option α) :=
  match entries.filter fun e => e.1 = name with
  | [] => some none
  | [e] => nullable read e.2
  | _ => none

/-- A field that must be there. -/
def field {α : Type} (read : Json → Option α) (entries : List (String × Json)) (name : String) : Option α :=
  match entries.filter fun e => e.1 = name with
  | [e] => read e.2
  | _ => none

-- A derived reader takes the fields of an object by name and those of an array by position.

def DbConstraints.ofJson : Json → Option DbConstraints
  | .object o => do
    return ⟨← optField Json.asStr o "where_clause", ← optField toStrings o "columns", ← optField toU32 o "limit"⟩
  | .array [a, b, c] => do return ⟨← nullable Json.asStr a, ← nullable toStrings b, ← nullable toU32 c⟩
  | _ => none

def FsConstraints.ofJson : Json → Option FsConstraints
  | .object o => do
    return ⟨← optField toU64 o "max_file_size", ← optField toStrings o "allowed_extensions", ← optField toBool o "recursive"⟩
  | .array [a, b, c] => do return ⟨← nullable toU64 a, ← nullable toStrings b, ← nullable toBool c⟩
  | _ => none

def RateLimit.ofJson : Json → Option RateLimit
  | .object o => do return ⟨← field toU32 o "requests", ← field toU32 o "per_minutes"⟩
  | .array [a, b] => do return ⟨← toU32 a, ← toU32 b⟩
  | _ => none

def WebConstraints.ofJson : Json → Option WebConstraints
  | .object o => do return ⟨← optField toStrings o "methods", ← optField RateLimit.ofJson o "rate_limit"⟩
  | .array [a, b] => do return ⟨← nullable toStrings a, ← nullable RateLimit.ofJson b⟩
  | _ => none

def ShellConstraints.ofJson : Json → Option ShellConstraints
  | .object o => do
    return ⟨← optField toStrings o "allowed_subcommands", ← optField toStrings o "allowed_flags",
      ← optField toStrings o "forbidden_args"⟩
  | .array [a, b, c] => do return ⟨← nullable toStrings a, ← nullable toStrings b, ← nullable toStrings c⟩
  | _ => none

/-- The first alternative that can be read. -/
def PermissionConstraints.ofJson (j : Json) : Option PermissionConstraints :=
  (DbConstraints.ofJson j).map .database <|> (FsConstraints.ofJson j).map .filesystem <|>
    (WebConstraints.ofJson j).map .web <|> (ShellConstraints.ofJson j).map .shell

/-! ## The rows -/

structure ExtensionPermission where
  id : String
  extensionId : String
  resourceType : ResourceType
  action : Action
  target : String
  constraints : Option PermissionConstraints
  status : PermissionStatus
  deriving DecidableEq

structure HaexExtensionPermissions where
  id : String
  extensionId : String
  resourceType : Option String
  action : Option String
  target : Option String
  constraints : Option String
  status : String
  createdAt : Option String
  updatedAt : Option String

/-- `serde_json::to_string` and `from_str`, between a value and its text. -/
structure SerdeJson where
  toString : Json → String
  fromStr : String → Option Json

variable (json : SerdeJson)

def ExtensionPermission.toDb (perm : ExtensionPermission) : HaexExtensionPermissions where
  id := perm.id
  extensionId := perm.extensionId
  resourceType := some perm.resourceType.asStr
  action := some perm.action.asStr
  target := some perm.target
  constraints := perm.constraints.map fun c => json.toString c.toJson
  status := statusStr perm.status
  createdAt := none
  updatedAt := none

/-- `From<HaexExtensionPermissions> for ExtensionPermission`, and how `get_permissions` reads a row. -/
def HaexExtensionPermissions.toPermission (dbPerm : HaexExtensionPermissions) : ExtensionPermission :=
  let resourceType := (dbPerm.resourceType.bind ResourceType.fromStr).getD .db
  { id := dbPerm.id
    extensionId := dbPerm.extensionId
    resourceType
    action := (dbPerm.action.bind (Action.fromStr resourceType)).getD (.database .read)
    target := dbPerm.target.getD ""
    constraints := (dbPerm.constraints.bind json.fromStr).bind PermissionConstraints.ofJson
    status := (PermissionStatus.fromStr dbPerm.status).getD .denied }

/-! ## What is read back -/

section
variable {α : Type} {read : Json → Option α} {write : α → Json}

theorem filter_entry (name name' : String) (v : Option α) :
    (entry name write v).filter (fun e => e.1 = name') = if name = name' then entry name write v else [] := by
  cases v with
  | none => split <;> rfl
  | some v => by_cases h : name = name' <;> simp [entry, h]

theorem optField_of_filter {o : List (String × Json)} {name : String} {v : Option α}
    (ho : (o.filter fun e => e.1 = name) = entry name write v) (hread : ∀ v, nullable read (write v) = some (some v)) :
    optField read o name = some v := by
  unfold optField
  rw [ho]
  cases v with
  | none => rfl
  | some v => exact hread v

theorem optField_missing {o : List (String × Json)} {name : String} (ho : (o.filter fun e => e.1 = name) = []) :
    optField read o name = some none := by
  unfold optField
  rw [ho]

end

theorem toStrings_ofStrings (l : List String) : nullable toStrings (ofStrings l) = some (some l) := by
  have hitems : (l.map Json.string).mapM Json.asStr = some l := by
    induction l with
    | nil => rfl
    | cons s l ih => rw [List.map_cons, List.mapM_cons, ih]; rfl
  change (toStrings (ofStrings l)).map some = some (some l)
  rw [ofStrings, toStrings, hitems]
  rfl

theorem toU32_ofU32 (n : UInt32) : nullable toU32 (ofU32 n) = some (some n) := by
  have hlt : n.toUInt64.toNat < 2 ^ 32 := n.toNat_lt
  change (((some n.toUInt64).filter fun m => m.toNat < 2 ^ 32).map (·.toUInt32)).map some = some (some n)
  rw [Option.filter_some, if_pos (by simpa using hlt)]
  simp

theorem nullable_string (s : String) : nullable Json.asStr (.string s) = some (some s) := rfl

/-- Constraints of a database are read back. -/
theorem DbConstraints.ofJson_toJson (c : DbConstraints) : DbConstraints.ofJson c.toJson = some c := by
  let o := entry "where_clause" .string c.whereClause ++ entry "columns" ofStrings c.columns ++ entry "limit" ofU32 c.limit
  have hwhere : optField Json.asStr o "where_clause" = some c.whereClause :=
    optField_of_filter (by simp [o, filter_entry]) nullable_string
  have hcolumns : optField toStrings o "columns" = some c.columns :=
    optField_of_filter (by simp [o, filter_entry]) toStrings_ofStrings
  have hlimit : optField toU32 o "limit" = some c.limit := optField_of_filter (by simp [o, filter_entry]) toU32_ofU32
  rw [DbConstraints.toJson, DbConstraints.ofJson, hwhere, hcolumns, hlimit]
  rfl

theorem DbConstraints.ofJson_other {o : List (String × Json)} (hwhere : (o.filter fun e => e.1 = "where_clause") = [])
    (hcolumns : (o.filter fun e => e.1 = "columns") = []) (hlimit : (o.filter fun e => e.1 = "limit") = []) :
    DbConstraints.ofJson (.object o) = some {} := by
  rw [DbConstraints.ofJson, optField_missing hwhere, optField_missing hcolumns, optField_missing hlimit]
  rfl

def PermissionConstraints.asDb : PermissionConstraints → DbConstraints
  | .database c => c
  | _ => {}

/-- All constraints are read as constraints of a database. -/
theorem PermissionConstraints.ofJson_toJson (c : PermissionConstraints) :
    PermissionConstraints.ofJson c.toJson = some (.database c.asDb) := by
  have hdb : DbConstraints.ofJson c.toJson = some c.asDb := by
    cases c with
    | database c => exact c.ofJson_toJson
    | filesystem c => exact DbConstraints.ofJson_other (by simp [filter_entry]) (by simp [filter_entry]) (by simp [filter_entry])
    | web c => exact DbConstraints.ofJson_other (by simp [filter_entry]) (by simp [filter_entry]) (by simp [filter_entry])
    | shell c => exact DbConstraints.ofJson_other (by simp [filter_entry]) (by simp [filter_entry]) (by simp [filter_entry])
  rw [PermissionConstraints.ofJson, hdb]
  rfl

variable {json} {p : ExtensionPermission}

theorem toPermission_toDb (hp : p.action.resourceType = p.resourceType)
    (hjson : ∀ c, p.constraints = some c → json.fromStr (json.toString c.toJson) = some c.toJson) :
    (p.toDb json).toPermission json = { p with constraints := p.constraints.map fun c => .database c.asDb } := by
  obtain ⟨id, extensionId, resourceType, action, target, constraints, status⟩ := p
  dsimp only at hp hjson
  subst hp
  have hconstraints : ((constraints.map fun c => json.toString c.toJson).bind json.fromStr).bind PermissionConstraints.ofJson =
      constraints.map fun c => .database c.asDb := by
    cases constraints with
    | none => rfl
    | some c => simp [hjson c rfl, c.ofJson_toJson]
  simp only [HaexExtensionPermissions.toPermission, ExtensionPermission.toDb, Option.bind_some, fromStr_asStr,
    fromStr_statusStr, Option.getD_some, Action.fromStr_asStr, hconstraints]

/-- A permission comes back as it was saved, exactly if it had no constraints or those of a database. -/
theorem restored_iff (json : SerdeJson) (p : ExtensionPermission) (hp : p.action.resourceType = p.resourceType)
    (hjson : ∀ c, p.constraints = some c → json.fromStr (json.toString c.toJson) = some c.toJson) :
    (p.toDb json).toPermission json = p ↔ ∀ c, p.constraints = some c → ∃ d, c = .database d := by
  rw [toPermission_toDb hp hjson]
  obtain ⟨id, extensionId, resourceType, action, target, constraints, status⟩ := p
  cases constraints with
  | none => simp
  | some c => cases c <;> simp [PermissionConstraints.asDb]

/-! ### A permission for a directory, as a sample -/

/-- The JSON texts of two constraints. -/
def sampleJson : SerdeJson where
  toString
    | .object [("limit", _)] => "\x7b\"limit\":5\x7d"
    | .object [("allowed_extensions", _)] => "\x7b\"allowed_extensions\":[\".txt\"]\x7d"
    | _ => ""
  fromStr s :=
    if s = "\x7b\"limit\":5\x7d" then some (.object [("limit", .number (.posInt 5))])
    else if s = "\x7b\"allowed_extensions\":[\".txt\"]\x7d" then
      some (.object [("allowed_extensions", .array [.string ".txt"])])
    else none

def limitedRead : ExtensionPermission :=
  ⟨"p", "x", .db, .database .read, "t", some (.database { limit := some 5 }), .granted⟩

theorem limited_read_restored : (limitedRead.toDb sampleJson).toPermission sampleJson = limitedRead :=
  (restored_iff sampleJson limitedRead rfl (by rintro _ ⟨⟩; rfl)).2 (by rintro _ ⟨⟩; exact ⟨_, rfl⟩)

def textFiles : ExtensionPermission :=
  ⟨"p", "x", .fs, .filesystem .read, "/a/*", some (.filesystem { allowedExtensions := some [".txt"] }), .granted⟩

/-- The restriction to text files is not read back, although its JSON is. -/
theorem text_files_forgotten :
    sampleJson.fromStr (sampleJson.toString (FsConstraints.toJson { allowedExtensions := some [".txt"] })) =
      some (FsConstraints.toJson { allowedExtensions := some [".txt"] }) ∧
    ((textFiles.toDb sampleJson).toPermission sampleJson).constraints = some (.database {}) ∧
    (textFiles.toDb sampleJson).toPermission sampleJson ≠ textFiles := by
  refine ⟨rfl, by decide +kernel, by decide +kernel⟩

/-! ## What the checks see -/

def PermissionConstraints.view : PermissionConstraints → PermissionManager.PermissionConstraints
  | .database _ => .database
  | .filesystem c => .filesystem c.allowedExtensions
  | .web _ => .web
  | .shell c => .shell c.allowedSubcommands c.forbiddenArgs c.allowedFlags

def ExtensionPermission.view (perm : ExtensionPermission) : PermissionManager.ExtensionPermission where
  id := perm.id
  extensionId := perm.extensionId
  resourceType := perm.resourceType
  action := perm.action
  target := perm.target
  constraints := perm.constraints.map (·.view)
  status := perm.status

variable (hp : p.action.resourceType = p.resourceType)
  (hjson : ∀ c, p.constraints = some c → json.fromStr (json.toString c.toJson) = some c.toJson)
include hp hjson

/-- A restored permission does not look at the name of a file. -/
theorem restored_passesFile (path : String) : Permissions.passesFile path ((p.toDb json).toPermission json).view = true := by
  rw [toPermission_toDb hp hjson]
  obtain ⟨id, extensionId, resourceType, action, target, constraints, status⟩ := p
  cases constraints <;> rfl

/-- Nor at the arguments of a command. -/
theorem restored_passesShell (args : List String) :
    Permissions.passesShell args ((p.toDb json).toPermission json).view = true := by
  rw [toPermission_toDb hp hjson]
  obtain ⟨id, extensionId, resourceType, action, target, constraints, status⟩ := p
  cases constraints <;> rfl

end HaexVault.Extension.PermissionManager.Types
