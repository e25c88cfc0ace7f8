import HaexVault.Passwords.Commands
/-!
# The history of items (`handleCreateItemAsync`, `handleUpdateItemAsync`)

The browser extension creates and updates items through the core handlers. Each handler
writes the row and then stores a snapshot that it computes from the request by other
expressions; `snapshots_faithful_iff` says for which requests the snapshot is the item as
it is stored.
-/

namespace HaexVault.ExternalBridge.ItemHistory

open Lib Lib.Fallible Passwords

/-! ## Requests -/

inductive Field (α : Type) where
  | absent
  | null
  | value (a : α)
  deriving DecidableEq

namespace Field
variable {α : Type}

def orNull : Field α → Option α
  | .value a => some a
  | _ => none

def textOrNull (f : Field String) : Option String := nonEmpty f.orNull

def orOld (f : Field α) (old : Option α) : Option α := f.orNull <|> old

def ifDefined (f : Field α) (column : Option α) : Option (Option α) :=
  match f with
  | .absent => none
  | _ => some column

end Field

structure CreateItemPayload where
  url : Field String := .absent
  title : Field String := .absent
  username : Field String := .absent
  password : Field String := .absent
  groupId : Field String := .absent
  otpSecret : Field String := .absent
  otpDigits : Field Int := .absent
  otpPeriod : Field Int := .absent
  otpAlgorithm : Field String := .absent
  iconBase64 : Field String := .absent

structure UpdateItemPayload where
  id : Field String
  url : Field String := .absent
  title : Field String := .absent
  username : Field String := .absent
  password : Field String := .absent
  otpSecret : Field String := .absent
  otpDigits : Field Int := .absent
  otpPeriod : Field Int := .absent
  otpAlgorithm : Field String := .absent
  iconBase64 : Field String := .absent

/-! ## The tables -/

/-- A row of `haex_passwords_item_binaries`. -/
structure ItemBinary where
  id : String
  itemId : String
  binaryHash : String
  fileName : String
  deriving DecidableEq

structure SnapshotData where
  title : Option String
  username : Option String
  password : Option String
  url : Option String
  note : Option String
  otpSecret : Option String
  otpDigits : Option Int
  otpPeriod : Option Int
  otpAlgorithm : Option String
  icon : Option String
  keyValues : List (Option String × Option String) := []
  attachments : List (String × String) := []
  deriving DecidableEq

/-- A row of `haex_passwords_item_snapshots`. -/
structure ItemSnapshot where
  id : String
  itemId : String
  snapshotData : SnapshotData
  createdAt : String
  modifiedAt : String
  deriving DecidableEq

structure Vault where
  items : List Item
  keyValues : List KeyValue
  itemBinaries : List ItemBinary
  groups : List String
  groupItems : List (String × Option String)
  snapshots : List ItemSnapshot
  keyValues_owned : ∀ kv ∈ keyValues, kv.itemId ∈ items.map (·.id)
  itemBinaries_owned : ∀ b ∈ itemBinaries, b.itemId ∈ items.map (·.id)

abbrev Db (α : Type) := Fallible String Vault α

structure Externals where
  /-- `new URL(…).hostname`; none if the constructor throws. -/
  hostname : String → Option String
  /-- The hash that `addBinaryAsync` returns for an icon; none if decoding or storing it throws. -/
  addIcon : String → Option String

/-! ## Statements -/

def insertItem (item : Item) : Db Unit := do
  let db ← get
  if item.id ∈ db.items.map (·.id) then throw "UNIQUE constraint failed: haex_passwords_item_details.id"
  else set { db with
    items := db.items ++ [item]
    keyValues_owned := fun kv h => by
      rw [List.map_append]
      exact List.mem_append_left _ (db.keyValues_owned kv h)
    itemBinaries_owned := fun b h => by
      rw [List.map_append]
      exact List.mem_append_left _ (db.itemBinaries_owned b h) : Vault }

theorem map_id_update (l : List Item) (id : String) (f : ItemFields → ItemFields) :
    (l.map fun i => if i.id = id then { i with fields := f i.fields } else i).map (·.id) = l.map (·.id) := by
  rw [List.map_map]
  refine List.map_congr_left fun i _ => ?_
  simp only [Function.comp]
  split <;> rfl

def updateItem (id : String) (f : ItemFields → ItemFields) : Db Unit :=
  modify fun db => { db with
    items := db.items.map fun i => if i.id = id then { i with fields := f i.fields } else i
    keyValues_owned := fun kv h => by
      rw [map_id_update]
      exact db.keyValues_owned kv h
    itemBinaries_owned := fun b h => by
      rw [map_id_update]
      exact db.itemBinaries_owned b h }

def insertGroupItem (itemId : String) (groupId : Option String) : Db Unit := do
  let db ← get
  if groupId.all (db.groups.contains ·) then modify fun db => { db with groupItems := db.groupItems ++ [(itemId, groupId)] }
  else throw "FOREIGN KEY constraint failed"

def insertSnapshot (snapshot : ItemSnapshot) : Db Unit :=
  modify fun db => { db with snapshots := db.snapshots ++ [snapshot] }

/-! ## The handlers -/

variable (x : Externals)

def entryTitle (p : CreateItemPayload) : Option String :=
  match p.title.textOrNull with
  | some title => some title
  | none => p.url.textOrNull.map fun url => (x.hostname url).getD url

/-- The icon of a request: set where the field is there, and kept where storing the picture fails. -/
def iconColumn : Field String → Option (Option String)
  | .absent => none
  | .null | .value "" => some none
  | .value icon => (x.addIcon icon).map fun hash => some ("binary:" ++ hash)

/-- `handleCreateItemAsync`. -/
def handleCreateItem (p : CreateItemPayload) (itemId snapshotId now : String) : Db (String × String) :=
  match entryTitle x p with
  | none => throw "Missing required field: url or title"
  | some title => do
    let icon := (iconColumn x p.iconBase64).getD none
    insertItem
      { id := itemId
        fields :=
          { title := nonEmpty (some title)
            username := p.username.textOrNull
            password := p.password.textOrNull
            url := p.url.textOrNull
            note := none
            otpSecret := p.otpSecret.textOrNull
            otpDigits := p.otpDigits.orNull
            otpPeriod := p.otpPeriod.orNull
            otpAlgorithm := p.otpAlgorithm.textOrNull
            icon
            color := none }
        createdAt := some now
        updatedAt := some now }
    insertGroupItem itemId p.groupId.textOrNull
    insertSnapshot
      { id := snapshotId
        itemId
        snapshotData :=
          { title := some title
            username := p.username.textOrNull
            password := p.password.textOrNull
            url := p.url.textOrNull
            note := none
            otpSecret := p.otpSecret.textOrNull
            otpDigits := p.otpDigits.orNull
            otpPeriod := p.otpPeriod.orNull
            otpAlgorithm := p.otpAlgorithm.textOrNull
            icon }
        createdAt := now
        modifiedAt := now }
    return (itemId, title)

structure UpdateFields where
  title : Option (Option String)
  username : Option (Option String)
  password : Option (Option String)
  url : Option (Option String)
  otpSecret : Option (Option String)
  otpDigits : Option (Option Int)
  otpPeriod : Option (Option Int)
  otpAlgorithm : Option (Option String)
  icon : Option (Option String)
  deriving DecidableEq

def UpdateItemPayload.updateFields (p : UpdateItemPayload) : UpdateFields where
  title := p.title.ifDefined p.title.textOrNull
  username := p.username.ifDefined p.username.textOrNull
  password := p.password.ifDefined p.password.textOrNull
  url := p.url.ifDefined p.url.textOrNull
  otpSecret := p.otpSecret.ifDefined p.otpSecret.textOrNull
  otpDigits := p.otpDigits.ifDefined p.otpDigits.orNull
  otpPeriod := p.otpPeriod.ifDefined p.otpPeriod.orNull
  otpAlgorithm := p.otpAlgorithm.ifDefined p.otpAlgorithm.textOrNull
  icon := iconColumn x p.iconBase64

def UpdateFields.applyTo (u : UpdateFields) (f : ItemFields) : ItemFields :=
  { f with
    title := u.title.getD f.title
    username := u.username.getD f.username
    password := u.password.getD f.password
    url := u.url.getD f.url
    otpSecret := u.otpSecret.getD f.otpSecret
    otpDigits := u.otpDigits.getD f.otpDigits
    otpPeriod := u.otpPeriod.getD f.otpPeriod
    otpAlgorithm := u.otpAlgorithm.getD f.otpAlgorithm
    icon := u.icon.getD f.icon }

/-- The snapshot that `handleUpdateItemAsync` computes. -/
def updateSnapshot (p : UpdateItemPayload) (existing : ItemFields) : SnapshotData where
  title := p.title.orOld existing.title
  username := p.username.orOld existing.username
  password := p.password.orOld existing.password
  url := p.url.orOld existing.url
  note := existing.note
  otpSecret := p.otpSecret.orOld existing.otpSecret
  otpDigits := p.otpDigits.orOld existing.otpDigits
  otpPeriod := p.otpPeriod.orOld existing.otpPeriod
  otpAlgorithm := p.otpAlgorithm.orOld existing.otpAlgorithm
  icon := (iconColumn x p.iconBase64).getD existing.icon

def nothingSet : UpdateFields := ⟨none, none, none, none, none, none, none, none, none⟩

/-- `handleUpdateItemAsync`. -/
def handleUpdateItem (p : UpdateItemPayload) (snapshotId now : String) : Db String :=
  match p.id.textOrNull with
  | none => throw "Missing required field: id"
  | some id => do
    let db ← get
    match db.items.find? (·.id = id) with
    | none => throw "Entry not found"
    | some existing =>
      if p.updateFields x = nothingSet then throw "No values to set"
      else do
        updateItem id (p.updateFields x).applyTo
        insertSnapshot
          { id := snapshotId
            itemId := id
            snapshotData := updateSnapshot x p existing.fields
            createdAt := now
            modifiedAt := now }
        return id

/-! ## Faithful snapshots -/

/-- The item that the snapshot tells of: what the snapshot has no place for is null. -/
def SnapshotData.fields (s : SnapshotData) : ItemFields where
  title := s.title
  username := s.username
  password := s.password
  note := s.note
  icon := s.icon
  color := none
  url := s.url
  otpSecret := s.otpSecret
  otpDigits := s.otpDigits
  otpPeriod := s.otpPeriod
  otpAlgorithm := s.otpAlgorithm
  autofillAliases := none
  expiresAt := none

def Vault.keyValuesOf (db : Vault) (itemId : String) : List (Option String × Option String) :=
  (db.keyValues.filter (·.itemId = itemId)).map fun kv => (kv.key, kv.value)

def Vault.attachmentsOf (db : Vault) (itemId : String) : List (String × String) :=
  (db.itemBinaries.filter (·.itemId = itemId)).map fun b => (b.fileName, b.binaryHash)

structure Describes (db : Vault) (itemId : String) (s : SnapshotData) : Prop where
  fields : (db.items.find? (·.id = itemId)).map (·.fields) = some s.fields
  keyValues : s.keyValues = db.keyValuesOf itemId
  attachments : s.attachments = db.attachmentsOf itemId

def RecordsFaithfully (db db' : Vault) : Prop :=
  ∃ s, db'.snapshots = db.snapshots ++ [s] ∧ Describes db' s.itemId s.snapshotData

/-- Row and snapshot agree on a text field: it is not emptied, and null where there is nothing. -/
def Field.AgreesText (f : Field String) (old : Option String) : Prop := f ≠ .value "" ∧ (f = .null → old = none)

def Field.AgreesNumber (f : Field Int) (old : Option Int) : Prop := f = .null → old = none

/-- A request whose snapshot can be faithful: row and snapshot agree on each field, and the item has nothing that a
snapshot leaves out. -/
structure UpdateItemPayload.Recordable (p : UpdateItemPayload) (db : Vault) (existing : Item) : Prop where
  title : p.title.AgreesText existing.fields.title
  username : p.username.AgreesText existing.fields.username
  password : p.password.AgreesText existing.fields.password
  url : p.url.AgreesText existing.fields.url
  otpSecret : p.otpSecret.AgreesText existing.fields.otpSecret
  otpDigits : p.otpDigits.AgreesNumber existing.fields.otpDigits
  otpPeriod : p.otpPeriod.AgreesNumber existing.fields.otpPeriod
  otpAlgorithm : p.otpAlgorithm.AgreesText existing.fields.otpAlgorithm
  color : existing.fields.color = none
  autofillAliases : existing.fields.autofillAliases = none
  expiresAt : existing.fields.expiresAt = none
  keyValues : db.keyValuesOf existing.id = []
  attachments : db.attachmentsOf existing.id = []

/-! ## Row and snapshot -/

variable {x} {db db' : Vault} {id : String}

theorem agreesText_iff {f : Field String} {old : Option String} :
    f.orOld old = (f.ifDefined f.textOrNull).getD old ↔ f.AgreesText old := by
  cases f with
  | absent => simp [Field.orOld, Field.orNull, Field.ifDefined, Field.AgreesText]
  | null => cases old <;> simp [Field.orOld, Field.orNull, Field.ifDefined, Field.AgreesText, Field.textOrNull, nonEmpty]
  | value s =>
    by_cases hs : s = "" <;>
      simp [Field.orOld, Field.orNull, Field.ifDefined, Field.AgreesText, Field.textOrNull, nonEmpty, hs]

theorem agreesNumber_iff {f : Field Int} {old : Option Int} :
    f.orOld old = (f.ifDefined f.orNull).getD old ↔ f.AgreesNumber old := by
  cases f with
  | absent | value n => simp [Field.orOld, Field.orNull, Field.ifDefined, Field.AgreesNumber]
  | null => cases old <;> simp [Field.orOld, Field.orNull, Field.ifDefined, Field.AgreesNumber]

theorem updateSnapshot_fields (p : UpdateItemPayload) (f : ItemFields) :
    (updateSnapshot x p f).fields = (p.updateFields x).applyTo f ↔
      p.title.AgreesText f.title ∧ p.username.AgreesText f.username ∧ p.password.AgreesText f.password ∧
        p.url.AgreesText f.url ∧ p.otpSecret.AgreesText f.otpSecret ∧ p.otpDigits.AgreesNumber f.otpDigits ∧
        p.otpPeriod.AgreesNumber f.otpPeriod ∧ p.otpAlgorithm.AgreesText f.otpAlgorithm ∧ f.color = none ∧
        f.autofillAliases = none ∧ f.expiresAt = none := by
  simp only [SnapshotData.fields, updateSnapshot, UpdateFields.applyTo, UpdateItemPayload.updateFields, ItemFields.mk.injEq,
    agreesText_iff, agreesNumber_iff, true_and, eq_comm (a := none)]
  tauto

theorem find_updateItem (id : String) (l : List Item) (f : ItemFields → ItemFields) :
    (l.map fun i => if i.id = id then { i with fields := f i.fields } else i).find? (·.id = id) =
      (l.find? (·.id = id)).map fun i => { i with fields := f i.fields } := by
  induction l with
  | nil => rfl
  | cons i l ih =>
    by_cases hi : i.id = id
    · simp [hi]
    · simp only [List.map_cons, if_neg hi, List.find?_cons, decide_eq_false hi, ih]

theorem update_ok {p : UpdateItemPayload} {snapshotId now r : String}
    (h : exec (handleUpdateItem x p snapshotId now) db = (.ok r, db')) :
    ∃ existing, p.id.textOrNull = some existing.id ∧ db.items.find? (·.id = existing.id) = some existing ∧
      db'.items.find? (·.id = existing.id) = some { existing with fields := (p.updateFields x).applyTo existing.fields } ∧
      db'.keyValues = db.keyValues ∧ db'.itemBinaries = db.itemBinaries ∧
      db'.snapshots = db.snapshots ++ [⟨snapshotId, existing.id, updateSnapshot x p existing.fields, now, now⟩] := by
  unfold handleUpdateItem at h
  split at h
  · cases h
  · rename_i id hid
    rw [exec_get_bind] at h
    split at h
    · cases h
    · rename_i existing hfind
      obtain rfl : existing.id = id := by simpa using List.find?_some hfind
      split at h
      · cases h
      · cases h
        refine ⟨existing, hid, hfind, ?_, rfl, rfl, rfl⟩
        have hmap := find_updateItem existing.id db.items (p.updateFields x).applyTo
        rw [hfind] at hmap
        exact hmap

theorem create_ok {p : CreateItemPayload} {itemId snapshotId now : String} {r : String × String}
    (h : exec (handleCreateItem x p itemId snapshotId now) db = (.ok r, db')) :
    ∃ title s, entryTitle x p = some title ∧ db'.snapshots = db.snapshots ++ [s] ∧ s.itemId = itemId ∧
      db'.items.find? (·.id = itemId) =
        some ⟨itemId, { s.snapshotData.fields with title := nonEmpty (some title) }, some now, some now⟩ ∧
      s.snapshotData.title = some title ∧ s.snapshotData.keyValues = db'.keyValuesOf itemId ∧
      s.snapshotData.attachments = db'.attachmentsOf itemId := by
  unfold handleCreateItem at h
  split at h
  · cases h
  · rename_i title htitle
    obtain ⟨⟨⟩, db₁, hinsert, h⟩ := exec_bind_eq_ok h
    obtain ⟨⟨⟩, db₂, hgroup, h⟩ := exec_bind_eq_ok h
    unfold insertItem at hinsert
    rw [exec_get_bind] at hinsert
    split at hinsert
    · cases hinsert
    rename_i hnew
    unfold insertGroupItem at hgroup
    rw [exec_get_bind] at hgroup
    split at hgroup
    swap
    · cases hgroup
    cases hinsert
    cases hgroup
    cases h
    have hkv : db.keyValuesOf itemId = [] := by
      rw [Vault.keyValuesOf, List.filter_eq_nil_iff.2, List.map_nil]
      intro kv hkv hid
      exact hnew (of_decide_eq_true hid ▸ db.keyValues_owned kv hkv)
    have hatt : db.attachmentsOf itemId = [] := by
      rw [Vault.attachmentsOf, List.filter_eq_nil_iff.2, List.map_nil]
      intro b hb hid
      exact hnew (of_decide_eq_true hid ▸ db.itemBinaries_owned b hb)
    refine ⟨title, _, htitle, rfl, rfl, ?_, rfl, hkv.symm, hatt.symm⟩
    have hnone : db.items.find? (·.id = itemId) = none := by
      refine List.find?_eq_none.2 fun i hi hid => hnew (List.mem_map.2 ⟨i, hi, ?_⟩)
      exact of_decide_eq_true hid
    dsimp only
    rw [List.find?_append, hnone]
    simp [SnapshotData.fields]

/-- An update leaves a faithful snapshot exactly if the request is recordable; a create does, unless the title it finds is
empty. -/
theorem snapshots_faithful_iff (x : Externals) (db db' : Vault) (snapshotId now : String) :
    (∀ p r, exec (handleUpdateItem x p snapshotId now) db = (.ok r, db') →
      (RecordsFaithfully db db' ↔ ∃ existing, p.id.textOrNull = some existing.id ∧
        db.items.find? (·.id = existing.id) = some existing ∧ p.Recordable db existing)) ∧
    ∀ p itemId r, exec (handleCreateItem x p itemId snapshotId now) db = (.ok r, db') →
      (RecordsFaithfully db db' ↔ entryTitle x p ≠ some "") := by
  constructor
  · intro p r h
    obtain ⟨existing, hid, hfind, hfind', hkv, hatt, hsnap⟩ := update_ok h
    constructor
    · rintro ⟨s, hs, hdesc⟩
      obtain rfl := List.singleton_inj.1 (List.append_cancel_left (hsnap.symm.trans hs))
      have hfields := hdesc.fields
      dsimp only at hfields
      rw [hfind'] at hfields
      obtain ⟨h1, h2, h3, h4, h5, h6, h7, h8, h9, h10, h11⟩ := (updateSnapshot_fields p _).1 (Option.some.inj hfields).symm
      refine ⟨existing, hid, hfind, h1, h2, h3, h4, h5, h6, h7, h8, h9, h10, h11, ?_, ?_⟩
      · rw [Vault.keyValuesOf, ← hkv]
        exact hdesc.keyValues.symm
      · rw [Vault.attachmentsOf, ← hatt]
        exact hdesc.attachments.symm
    · rintro ⟨existing', hid', hfind₂, hrec⟩
      have hsame : existing'.id = existing.id := Option.some.inj (hid'.symm.trans hid)
      rw [hsame, hfind] at hfind₂
      obtain rfl := Option.some.inj hfind₂
      refine ⟨_, hsnap, ?_, ?_, ?_⟩
      · dsimp only
        rw [hfind', Option.map_some, (updateSnapshot_fields p _).2 ⟨hrec.title, hrec.username, hrec.password, hrec.url,
          hrec.otpSecret, hrec.otpDigits, hrec.otpPeriod, hrec.otpAlgorithm, hrec.color, hrec.autofillAliases, hrec.expiresAt⟩]
      · dsimp only
        rw [Vault.keyValuesOf, hkv]
        exact hrec.keyValues.symm
      · dsimp only
        rw [Vault.attachmentsOf, hatt]
        exact hrec.attachments.symm
  · intro p itemId r h
    obtain ⟨title, s, htitle, hsnap, rfl, hfind, hstitle, hkv, hatt⟩ := create_ok h
    have hempty : nonEmpty (some title) = some title ↔ title ≠ "" := by
      by_cases ht : title = "" <;> simp [nonEmpty, ht]
    rw [htitle, ne_eq, Option.some.injEq, ← ne_eq, ← hempty]
    constructor
    · rintro ⟨s', hs', hdesc⟩
      obtain rfl := List.singleton_inj.1 (List.append_cancel_left (hsnap.symm.trans hs'))
      have hfields := hdesc.fields
      rw [hfind] at hfields
      have htitles := congrArg ItemFields.title (Option.some.inj hfields)
      exact htitles.trans hstitle
    · intro hsame
      refine ⟨s, hsnap, ?_, hkv, hatt⟩
      rw [hfind, hsame, ← hstitle]
      rfl

/-! ## An item and two requests -/

def offline : Externals := ⟨fun _ => none, fun _ => none⟩

def bankVault : Vault where
  items := [⟨"i", { title := some "bank", password := some "old" }, none, none⟩]
  keyValues := []
  itemBinaries := []
  groups := []
  groupItems := []
  snapshots := []
  keyValues_owned := List.forall_mem_nil _
  itemBinaries_owned := List.forall_mem_nil _

def newPassword : UpdateItemPayload := { id := .value "i", password := .value "new" }

def noPassword : UpdateItemPayload := { id := .value "i", password := .null }

theorem snapshots_faithful_newPassword :
    RecordsFaithfully bankVault (exec (handleUpdateItem offline newPassword "s" "t") bankVault).2 ∧
      RecordsFaithfully bankVault (exec (handleCreateItem offline { title := .value "mail" } "j" "s" "t") bankVault).2 := by
  refine ⟨((snapshots_faithful_iff offline bankVault _ "s" "t").1 newPassword "i" rfl).2
      ⟨⟨"i", { title := some "bank", password := some "old" }, none, none⟩, rfl, rfl, ?_⟩,
    ((snapshots_faithful_iff offline bankVault _ "s" "t").2 { title := .value "mail" } "j" ("j", "mail") rfl).2 (by decide)⟩
  exact
    { title := ⟨by decide, by decide⟩
      username := ⟨by decide, by decide⟩
      password := ⟨by decide, by decide⟩
      url := ⟨by decide, by decide⟩
      otpSecret := ⟨by decide, by decide⟩
      otpDigits := fun _ => rfl
      otpPeriod := fun _ => rfl
      otpAlgorithm := ⟨by decide, by decide⟩
      color := rfl
      autofillAliases := rfl
      expiresAt := rfl
      keyValues := rfl
      attachments := rfl }

/-- After the password is cleared, the snapshot still tells the old one. -/
theorem snapshot_of_cleared_password :
    ∃ db', exec (handleUpdateItem offline noPassword "s" "t") bankVault = (.ok "i", db') ∧ ¬RecordsFaithfully bankVault db' := by
  refine ⟨_, rfl, ?_⟩
  rintro ⟨s, hs, hdesc⟩
  obtain rfl := List.singleton_inj.1 (List.append_cancel_left hs)
  exact absurd (congrArg (Option.map ItemFields.password) hdesc.fields) (by decide)

end HaexVault.ExternalBridge.ItemHistory
