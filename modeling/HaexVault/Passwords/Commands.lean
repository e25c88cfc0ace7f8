import HaexVault.Lib.Fallible
import HaexVault.Extension.PermissionManager
/-!
# The password commands of extensions (`passwords/commands.rs`)

The scope that the permission check yields is a set of tag names or everything; the reading commands
put it into their SQL, the writing ones ask the reading query first. Every statement is a transaction
of its own, so a command that fails keeps what its earlier statements wrote.
-/

namespace HaexVault.Passwords

open Lib Lib.Fallible Extension Extension.PermissionManager Extension.PermissionManager.Permissions

/-! ## The tables -/

/-- The columns of an item that a command writes; `autofill_aliases` is its JSON text. -/
structure ItemFields where
  title : Option String := none
  username : Option String := none
  password : Option String := none
  note : Option String := none
  icon : Option String := none
  color : Option String := none
  url : Option String := none
  otpSecret : Option String := none
  otpDigits : Option Int := none
  otpPeriod : Option Int := none
  otpAlgorithm : Option String := none
  autofillAliases : Option String := none
  expiresAt : Option String := none
  deriving DecidableEq

/-- A row of `haex_passwords_item_details`. -/
structure Item where
  id : String
  fields : ItemFields
  createdAt : Option String
  updatedAt : Option String
  deriving DecidableEq

/-- A row of `haex_passwords_tags`. -/
structure Tag where
  id : String
  name : String
  deriving DecidableEq

/-- A row of `haex_passwords_item_tags`. -/
structure ItemTag where
  id : String
  itemId : String
  tagId : String
  deriving DecidableEq

/-- A row of `haex_passwords_item_key_values`. -/
structure KeyValue where
  id : String
  itemId : String
  key : Option String
  value : Option String
  deriving DecidableEq

structure Tables where
  items : List Item := []
  tags : List Tag := []
  links : List ItemTag := []
  keyValues : List KeyValue := []
  deriving DecidableEq

inductive PasswordError where
  | permission (e : ExtensionError)
  | validation (reason : String)
  | securityViolation (reason : String)
  | database (reason : String)
  deriving DecidableEq

abbrev Db (α : Type) := Fallible PasswordError Tables α

structure PasswordInput where
  fields : ItemFields
  tags : List String
  keyValues : List (Option String × Option String)
  deriving DecidableEq

structure PasswordItemSummary where
  id : String
  title : Option String
  username : Option String
  url : Option String
  icon : Option String
  color : Option String
  tags : List String
  createdAt : Option String
  updatedAt : Option String
  deriving DecidableEq

structure PasswordItemFull where
  id : String
  fields : ItemFields
  tags : List String
  keyValues : List (String × Option String × Option String)
  createdAt : Option String
  updatedAt : Option String
  deriving DecidableEq

/-- What `Uuid::new_v4` gives in one call: for the item, and for the tag, the link and the key-value row at an index. -/
structure Uuids where
  item : String
  tag : Nat → String
  link : Nat → String
  keyValue : Nat → String

/-! ## The queries -/

def nonEmpty (s : Option String) : Option String := if s = some "" then none else s

def Tables.inScope (db : Tables) (allowed : List String) (itemId : String) : Bool :=
  db.links.any fun l => l.itemId = itemId && db.tags.any fun t => t.id = l.tagId && allowed.contains t.name

def Tables.admits (db : Tables) : PasswordsScope → String → Bool
  | .all, _ => true
  | .tags allowed, itemId => db.inScope allowed itemId

def Tables.tagNames (db : Tables) (itemId : String) : List String :=
  (db.links.filter fun l => l.itemId = itemId).flatMap fun l => (db.tags.filter fun t => t.id = l.tagId).map (·.name)

/-- The query of `build_read_item_query`. -/
def Tables.selectItem (db : Tables) (scope : PasswordsScope) (itemId : String) : List Item :=
  db.items.filter fun i => i.id = itemId && db.admits scope itemId

/-- A row of `build_list_query`: the names come as one text, joined by commas. -/
def Tables.summary (db : Tables) (i : Item) : PasswordItemSummary :=
  let tagNames := String.intercalate "," (db.tagNames i.id).dedup
  { id := i.id
    title := nonEmpty i.fields.title
    username := nonEmpty i.fields.username
    url := nonEmpty i.fields.url
    icon := nonEmpty i.fields.icon
    color := nonEmpty i.fields.color
    tags := if tagNames = "" then [] else tagNames.splitOn ","
    createdAt := nonEmpty i.createdAt
    updatedAt := nonEmpty i.updatedAt }

def extensionPasswordList (scope : PasswordsScope) : Db (List PasswordItemSummary) := do
  let db ← get
  return (db.items.filter fun i => db.admits scope i.id).map db.summary

/-- `get_string` on the columns of a full item. -/
def ItemFields.nonEmpty (f : ItemFields) : ItemFields where
  title := Passwords.nonEmpty f.title
  username := Passwords.nonEmpty f.username
  password := Passwords.nonEmpty f.password
  note := Passwords.nonEmpty f.note
  icon := Passwords.nonEmpty f.icon
  color := Passwords.nonEmpty f.color
  url := Passwords.nonEmpty f.url
  otpSecret := Passwords.nonEmpty f.otpSecret
  otpDigits := f.otpDigits
  otpPeriod := f.otpPeriod
  otpAlgorithm := Passwords.nonEmpty f.otpAlgorithm
  autofillAliases := Passwords.nonEmpty f.autofillAliases
  expiresAt := Passwords.nonEmpty f.expiresAt

def notFound (itemId : String) : PasswordError := .validation ("Password item " ++ itemId ++ " not found")

/-- `read_item_key_values`. -/
def Tables.itemKeyValues (db : Tables) (itemId : String) : List (String × Option String × Option String) :=
  (db.keyValues.filter fun kv => kv.itemId = itemId).map fun kv => (kv.id, Passwords.nonEmpty kv.key, Passwords.nonEmpty kv.value)

def extensionPasswordRead (scope : PasswordsScope) (itemId : String) : Db PasswordItemFull := do
  let db ← get
  match db.selectItem scope itemId with
  | [] => throw (notFound itemId)
  | i :: _ =>
    return ⟨i.id, i.fields.nonEmpty, db.tagNames itemId, db.itemKeyValues itemId, nonEmpty i.createdAt, nonEmpty i.updatedAt⟩

/-! ## The statements that write -/

/-- `insert_item_row`; `now` is `CURRENT_TIMESTAMP`, the default of both times. -/
def insertItemRow (itemId : String) (input : PasswordInput) (now : String) : Db Unit := do
  let db ← get
  if db.items.any (·.id = itemId) then throw (.database "UNIQUE constraint failed: haex_passwords_item_details.id")
  else modify fun db => { db with items := db.items ++ [⟨itemId, input.fields, some now, some now⟩] }

def updateItemRow (itemId : String) (input : PasswordInput) (now : String) : Db Unit :=
  modify fun db => { db with
    items := db.items.map fun i => if i.id = itemId then { i with fields := input.fields, updatedAt := some now } else i }

def upsertTag (newId name : String) : Db String := do
  modify fun db =>
    if db.tags.any fun t => t.id = newId || t.name = name then db else { db with tags := db.tags ++ [⟨newId, name⟩] }
  let db ← get
  match db.tags.find? fun t => t.name = name with
  | some t => return t.id
  | none => throw (.database ("tag '" ++ name ++ "' not found after upsert"))

def linkTag (linkId itemId tagId : String) : Db Unit := do
  let db ← get
  if db.links.any fun l => l.id = linkId || (l.itemId = itemId && l.tagId = tagId) then return
  else if db.items.any (·.id = itemId) && db.tags.any (·.id = tagId) then
    modify fun db => { db with links := db.links ++ [⟨linkId, itemId, tagId⟩] }
  else throw (.database "FOREIGN KEY constraint failed")

def upsertAndLinkTags (u : Uuids) (itemId : String) : Nat → List String → Db Unit
  | _, [] => pure ()
  | n, name :: names => do
    let tagId ← upsertTag (u.tag n) name
    linkTag (u.link n) itemId tagId
    upsertAndLinkTags u itemId (n + 1) names

def deleteItemTagLinks (itemId : String) : Db Unit :=
  modify fun db => { db with links := db.links.filter (¬ ·.itemId = itemId) }

/-- One round of `insert_key_values`. -/
def insertKeyValue (newId itemId : String) (kv : Option String × Option String) : Db Unit := do
  let db ← get
  if db.keyValues.any (·.id = newId) then throw (.database "UNIQUE constraint failed: haex_passwords_item_key_values.id")
  else if db.items.any (·.id = itemId) then
    modify fun db => { db with keyValues := db.keyValues ++ [⟨newId, itemId, kv.1, kv.2⟩] }
  else throw (.database "FOREIGN KEY constraint failed")

def insertKeyValues (u : Uuids) (itemId : String) : Nat → List (Option String × Option String) → Db Unit
  | _, [] => pure ()
  | n, kv :: kvs => do
    insertKeyValue (u.keyValue n) itemId kv
    insertKeyValues u itemId (n + 1) kvs

def deleteKeyValues (itemId : String) : Db Unit :=
  modify fun db => { db with keyValues := db.keyValues.filter (¬ ·.itemId = itemId) }

/-- `DELETE FROM haex_passwords_item_details`, and what the foreign keys delete with the item. -/
def deleteItem (itemId : String) : Db Unit :=
  modify fun db => { db with
    items := db.items.filter (¬ ·.id = itemId)
    links := db.links.filter (¬ ·.itemId = itemId)
    keyValues := db.keyValues.filter (¬ ·.itemId = itemId) }

/-! ## The commands that write -/

variable (x : Externals)

def validateTagsInScope (tags : List String) (scope : PasswordsScope) : Db Unit :=
  if tags = [] then throw (.validation "At least one tag is required for a password entry")
  else match scope with
    | .all => pure ()
    | .tags allowed =>
      if tags.any allowed.contains then pure ()
      else throw (.securityViolation ("At least one submitted tag must be within the extension's scope (allowed tags: " ++
        x.debug allowed ++ ")"))

def ensureItemInScope (itemId : String) (scope : PasswordsScope) : Db Unit := do
  let db ← get
  if (db.selectItem scope itemId).isEmpty then throw (notFound itemId) else pure ()

def extensionPasswordCreate (scope : PasswordsScope) (input : PasswordInput) (u : Uuids) (now : String) : Db String := do
  validateTagsInScope x input.tags scope
  insertItemRow u.item input now
  upsertAndLinkTags u u.item 0 input.tags
  insertKeyValues u u.item 0 input.keyValues
  return u.item

def extensionPasswordUpdate (scope : PasswordsScope) (itemId : String) (input : PasswordInput) (u : Uuids) (now : String) :
    Db Unit := do
  ensureItemInScope itemId scope
  validateTagsInScope x input.tags scope
  updateItemRow itemId input now
  deleteItemTagLinks itemId
  upsertAndLinkTags u itemId 0 input.tags
  deleteKeyValues itemId
  insertKeyValues u itemId 0 input.keyValues

def extensionPasswordDelete (scope : PasswordsScope) (itemId : String) : Db Unit := do
  ensureItemInScope itemId scope
  deleteItem itemId

/-! ## Calls -/

inductive Call where
  | list
  | read (itemId : String)
  | create (input : PasswordInput) (u : Uuids) (now : String)
  | update (itemId : String) (input : PasswordInput) (u : Uuids) (now : String)
  | delete (itemId : String)

inductive Answer where
  | listed (items : List PasswordItemSummary)
  | full (item : PasswordItemFull)
  | created (itemId : String)
  | done
  deriving DecidableEq

def Call.access : Call → Access
  | .list | .read _ => .read
  | .create .. | .update .. | .delete _ => .readWrite

/-- The command under a scope. -/
def Call.within (scope : PasswordsScope) : Call → Db Answer
  | .list => do return .listed (← extensionPasswordList scope)
  | .read itemId => do return .full (← extensionPasswordRead scope itemId)
  | .create input u now => do return .created (← extensionPasswordCreate x scope input u now)
  | .update itemId input u now => do
    extensionPasswordUpdate x scope itemId input u now
    return .done
  | .delete itemId => do
    extensionPasswordDelete scope itemId
    return .done

def Call.perform (p : Permissions) (extensionId : String) (call : Call) : Db Answer :=
  match p.checkPasswordsPermission extensionId call.access with
  | .error e => throw (.permission e)
  | .ok scope => call.within x scope

end HaexVault.Passwords
