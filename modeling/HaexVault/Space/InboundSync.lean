import HaexVault.Space.Ucan
import HaexVault.Space.Vault
/-!
# Inbound pushes (`space_delivery/local/inbound_sync`)

The checks of `authorizeInboundSyncPush` read a row by all the keys of its `row_pks` and take the
last declared owner; the writer addresses it by the schema's primary key and takes the newest value.
`ReadAlike` says that both readings agree on a batch, `TextColumns` what a TEXT column keeps.
-/

namespace HaexVault.Space

open HaexVault.Crdt HaexVault.Lib HaexVault.Lib.Steps

structure LocalColumnChange where
  tableName : String
  rowPks : String
  columnName : String
  hlcTimestamp : String
  value : JsonValue
  deviceId : String
  deriving DecidableEq

namespace LocalColumnChange

def row (c : LocalColumnChange) : String × String := (c.tableName, c.rowPks)

/-- `local_to_remote_change`. -/
def toRemote (c : LocalColumnChange) : RemoteColumnChange :=
  ⟨c.tableName, c.rowPks, c.columnName, c.hlcTimestamp, c.value⟩

end LocalColumnChange

structure PushHashing where
  attribution : HashOrder ((String × String) × List LocalColumnChange)
  scope : HashOrder ((String × String) × List LocalColumnChange)

inductive PushRejection where
  | capability (e : UcanVerifyError)
  | notMember
  | tableNotAllowed (table : String)
  | foreignSpaceId (table : String) (value : JsonValue) (spaceId : String)
  | lookup (table rowPks reason : String)
  | crossSpace (table rowPks real spaceId : String)
  | undeclaredSpace (table rowPks : String)
  | nonStringSpace (table rowPks : String)
  deriving DecidableEq

/-! ## The checks -/

def requiredCapabilityFor (changes : List LocalColumnChange) : CapabilityLevel :=
  if changes.all fun c => isMembershipSystemTable c.tableName then .read else .write

/-- The whitelist and the `space_id` column, for one change. -/
def validateChange (spaceId : String) (c : LocalColumnChange) : Except PushRejection Unit :=
  if !isSpaceScopedTable c.tableName then .error (.tableNotAllowed c.tableName)
  else if c.columnName = "space_id" ∧ c.value ≠ .string spaceId then
    .error (.foreignSpaceId c.tableName c.value spaceId)
  else .ok ()

def newestStamp (changes : List LocalColumnChange) : String × String :=
  changes.tail.foldl (fun stamp c => if hlcIsNewer c.hlcTimestamp stamp.1 then (c.hlcTimestamp, c.deviceId) else stamp)
    ((changes.head?.map fun c => (c.hlcTimestamp, c.deviceId)).getD ("", ""))

/-- The one `authored_by_did` change the leader adds to a row. -/
def attribution (audience : String) (group : (String × String) × List LocalColumnChange) : LocalColumnChange where
  tableName := group.1.1
  rowPks := group.1.2
  columnName := "authored_by_did"
  hlcTimestamp := (newestStamp group.2).1
  value := .string audience
  deviceId := (newestStamp group.2).2

def validateAndAttribute (hash : PushHashing) (spaceId audience : String) (changes : List LocalColumnChange) :
    Except PushRejection (List LocalColumnChange) := do
  changes.forM (validateChange spaceId)
  let stripped := changes.filter fun c => c.columnName ≠ "authored_by_did"
  .ok (stripped ++ (hash.attribution.iter (hashGroups (·.row) stripped)).map (attribution audience))

/-- The parameter `read_existing_column` binds for a key value. -/
def boundValue : JsonValue → SqlValue
  | .string s => .text s
  | .number (.posInt n) => if n.toNat < 2 ^ 63 then .integer n.toNat else .real (u64AsF64 n.toNat)
  | .number (.negInt i) => .integer i.toInt
  | .number (.float bits) => .real bits
  | .null => .null
  | .bool b => .text (if b then "true" else "false")
  | .composite text => .text text

def selectedBy (pks : RowPks) (r : Row) : Bool := pks.all fun p => boundValue p.2 ≠ .null && r p.1 = boundValue p.2

def isFinite (bits : UInt64) : Bool := (bits >>> 52) &&& 0x7ff ≠ 0x7ff

/-- A stored value as `read_existing_column` hands it out. A clock map never stands in the columns it is used for. -/
def storedJson : SqlValue → JsonValue
  | .null => .null
  | .integer i => if 0 ≤ i then .number (.posInt (UInt64.ofNat i.toNat)) else .number (.negInt (Int64.ofInt i))
  | .real bits => if isFinite bits then .number (.float bits) else .null
  | .text s => .string s
  | .blob _ => .null
  | .hlcs _ => .composite ""

/-- The identifiers `read_existing_column` lets into its SQL. -/
def safe (s : String) : Bool := s.toList.all fun c => c.isLower || c.isDigit || c = '_'

def readExistingColumn (env : Env) (db : Database) (table rowPks column : String) : Except String (Option JsonValue) :=
  match env.fromStr rowPks with
  | none => .error "malformed row_pks JSON"
  | some pks =>
    if pks = [] then .error ("empty row_pks JSON for table " ++ table)
    else if !(safe table && safe column && pks.all fun p => safe p.1) then
      .error ("identifier contains unsafe characters: table=" ++ table ++ " column=" ++ column)
    else match db.tables table with
    | none => .error ("no such table: " ++ table)
    | some t =>
      if column ∈ t.columnNames ∧ ∀ p ∈ pks, p.1 ∈ t.columnNames then
        .ok ((t.rows.find? (selectedBy pks)).map fun r => storedJson (r column))
      else .error "no such column"

/-- The check of one row in `enforce_row_space_scope`. -/
def rowSpaceScope (env : Env) (db : Database) (spaceId : String) (group : (String × String) × List LocalColumnChange) :
    Except PushRejection Unit :=
  match readExistingColumn env db group.1.1 group.1.2 "space_id" with
  | .error e => .error (.lookup group.1.1 group.1.2 e)
  | .ok (some (.string real)) =>
    if real = spaceId then .ok () else .error (.crossSpace group.1.1 group.1.2 real spaceId)
  | .ok none | .ok (some .null) =>
    if group.2.any fun c => c.columnName = "space_id" then .ok () else .error (.undeclaredSpace group.1.1 group.1.2)
  | .ok (some _) => .error (.nonStringSpace group.1.1 group.1.2)

def enforceRowSpaceScope (env : Env) (hash : PushHashing) (db : Database) (spaceId : String)
    (changes : List LocalColumnChange) : Except PushRejection Unit :=
  (hash.scope.iter (hashGroups (·.row) changes)).forM (rowSpaceScope env db spaceId)

def ownerColumnFor (table : String) : Option String :=
  if table = "haex_space_members" then some "identity_id"
  else if table = "haex_space_devices" then some "endpoint_id"
  else if table = "haex_device_mls_enrollments" then some "device_id"
  else none

/-- What the owner column of the caller's rows holds: the identity of the DID, or the endpoint. -/
def callerOwner (v : Vault) (endpointId did table : String) : Option String :=
  if table = "haex_space_members" then v.identities.resolve did else some endpointId

def declaredValue (changes : List LocalColumnChange) (row : String × String) (column : String) : Option JsonValue :=
  ((changes.filter fun c => c.row = row && c.columnName = column).getLast?).map (·.value)

/-- The owner `filter_ownership_violations` settles on, from the stored and the declared one. -/
def settledOwner : Option JsonValue → Option JsonValue → Option String
  | some (.string existing), some (.string declared) => if existing = declared then some existing else none
  | some (.string existing), none => some existing
  | none, some (.string declared) => some declared
  | some .null, some (.string declared) => some declared
  | _, _ => none

/-- Whether a row passes `filter_ownership_violations`. -/
def ownsRow (env : Env) (v : Vault) (endpointId did : String) (changes : List LocalColumnChange) (row : String × String) :
    Bool :=
  match ownerColumnFor row.1 with
  | none => true
  | some column =>
    match readExistingColumn env v.space.db row.1 row.2 column with
    | .error _ => false
    | .ok existing =>
      match settledOwner existing (declaredValue changes row column) with
      | none => false
      | some owner => callerOwner v endpointId did row.1 = some owner

def filterOwnershipViolations (env : Env) (v : Vault) (endpointId did : String) (changes : List LocalColumnChange) :
    List LocalColumnChange := changes.filter fun c => ownsRow env v endpointId did changes c.row

/-- `authorize_inbound_sync_push`. -/
def authorizeInboundSyncPush (env : Env) (hash : PushHashing) (v : Vault) (spaceId endpointId : String)
    (validated : ValidatedUcan) (raw : List LocalColumnChange) : Except PushRejection (List LocalColumnChange) :=
  if raw = [] then .ok []
  else do
    (requireCapability validated spaceId (requiredCapabilityFor raw)).mapError .capability
    ensure (v.isActiveSpaceMember spaceId validated.audience) .notMember
    let attributed ← validateAndAttribute hash spaceId validated.audience raw
    enforceRowSpaceScope env hash v.space.db spaceId attributed
    .ok (filterOwnershipViolations env v endpointId validated.audience attributed)

theorem ownerColumn_ne {table column : String} (h : ownerColumnFor table = some column) :
    column ≠ "id" ∧ column ≠ hlcTimestampColumn ∧ column ≠ columnHlcsColumn ∧ column ≠ "authored_by_did" := by
  unfold ownerColumnFor at h
  split_ifs at h <;> cases h <;> decide

theorem ownerColumn_required {table column : String} {t₀ t : Table} (h : (table, t₀) ∈ spaceSchema)
    (ht : t = { t₀ with rows := t.rows }) (hc : ownerColumnFor table = some column) :
    Required t column := by
  have hreq : Required t₀ column := by
    simp only [spaceSchema, List.mem_cons, Prod.mk.injEq, List.not_mem_nil, or_false] at h
    rcases h with ⟨rfl, rfl⟩ | ⟨rfl, rfl⟩ | ⟨rfl, rfl⟩ | ⟨rfl, rfl⟩ | ⟨rfl, rfl⟩
    · cases hc; exact ⟨⟨notNull "endpoint_id", by simp [spaceDevicesTable, spaceTable], rfl, rfl⟩, rfl⟩
    · cases hc; exact ⟨⟨notNull "identity_id", by simp [spaceMembersTable, spaceTable], rfl, rfl⟩, rfl⟩
    · cases hc
    · cases hc
    · cases hc; exact ⟨⟨notNull "device_id", by simp [deviceMlsEnrollmentsTable, spaceTable], rfl, rfl⟩, rfl⟩
  exact ht ▸ ⟨hreq.notNull, hreq.dflt⟩

/-! ## What was accepted -/

def InScope (v : Vault) (spaceId endpointId did table : String) (r : Row) : Prop :=
  r "space_id" = .text spaceId ∧
    ∀ column, ownerColumnFor table = some column →
      ∃ owner, callerOwner v endpointId did table = some owner ∧ r column = .text owner

/-- The checks and the writer read a batch alike: they find the same row for every `row_pks`,
the batch gives a row's owner column one value at most, and what the checks read as absent of a
row that it names is null. -/
structure ReadAlike (checks writer : Env) (db : Database) (changes : List LocalColumnChange) : Prop where
  rows : ∀ c ∈ changes, ∀ t, db.tables c.tableName = some t → ∀ named pks, checks.fromStr c.rowPks = some named →
    writer.fromStr c.rowPks = some pks → t.rows.find? (selectedBy named) = t.find (pkKey t pks)
  owners : ∀ c ∈ changes, ∀ c' ∈ changes, c.row = c'.row → ownerColumnFor c.tableName = some c.columnName →
    c'.columnName = c.columnName → c'.value = c.value
  nulls : ∀ c ∈ changes, ∀ t, db.tables c.tableName = some t → ∀ named r, checks.fromStr c.rowPks = some named →
    t.rows.find? (selectedBy named) = some r → ∀ column, column = "space_id" ∨ ownerColumnFor c.tableName = some column →
    storedJson (r column) = .null → r column = .null

theorem ReadAlike.mono {checks writer : Env} {db : Database} {changes fewer : List LocalColumnChange}
    (h : ReadAlike checks writer db changes) (hsub : fewer ⊆ changes) : ReadAlike checks writer db fewer where
  rows c hc := h.rows c (hsub hc)
  owners c hc c' hc' := h.owners c (hsub hc) c' (hsub hc')
  nulls c hc := h.nulls c (hsub hc)

/-! ## TEXT columns -/

/-- The INTEGER columns of these tables. All others are TEXT columns. -/
def integerColumns : List String := ["leader_priority", "epoch"]

/-- What SQLite makes of a number in a TEXT column, stored or compared with. -/
structure TextColumns where
  env : Env
  numberText : JsonNumber → String

namespace TextColumns
variable (w : TextColumns)

/-- A value in a TEXT column. -/
def stored : JsonValue → JsonValue
  | .number n => .string (w.numberText n)
  | .bool b => .string (if b then "1" else "0")
  | value => value

/-- The same for what `read_existing_column` binds, which is a text already where a value is a boolean. -/
def bound : JsonValue → JsonValue
  | .number n => .string (w.numberText n)
  | value => value

def keys (f : JsonValue → JsonValue) : Env :=
  { w.env with fromStr := fun s => (w.env.fromStr s).map (·.map fun p => (p.1, if p.1 ∈ integerColumns then p.2 else f p.2)) }

/-- The keys of a row as the checks compare them. -/
def checks : Env := w.keys w.bound

/-- The keys of a row as the writer compares and stores them. -/
def writer : Env := w.keys w.stored

/-- A change with the value that its column stores. -/
def store (c : LocalColumnChange) : LocalColumnChange :=
  { c with value := if c.columnName ∈ integerColumns then c.value else w.stored c.value }

theorem store_string {c : LocalColumnChange} {s : String} (h : c.value = .string s) : w.store c = c := by
  rcases c with ⟨table, rowPks, column, hlc, value, device⟩
  obtain rfl : value = .string s := h
  simp [store, stored]

end TextColumns

section Accepted
variable {env writer : Env} {hash : PushHashing} {v : Vault} {spaceId endpointId : String} {validated : ValidatedUcan}
  {raw changes : List LocalColumnChange}

variable {c : LocalColumnChange}

@[simp] theorem validateChange_ok {u : Unit} :
    validateChange spaceId c = .ok u ↔
      c.tableName ∈ spaceScopedCrdtTables ∧ (c.columnName = "space_id" → c.value = .string spaceId) := by
  unfold validateChange
  by_cases h : isSpaceScopedTable c.tableName
  · by_cases h' : c.columnName = "space_id" ∧ c.value ≠ .string spaceId
    · simp [h, h']
    · have : c.tableName ∈ spaceScopedCrdtTables := by simpa [isSpaceScopedTable] using h
      simp only [h, Bool.not_true, Bool.false_eq_true, if_false, h', this, true_and, true_iff]
      exact fun hc => by simpa [hc] using h'
  · have : c.tableName ∉ spaceScopedCrdtTables := by simpa [isSpaceScopedTable] using h
    simp [h, this]

variable {attributed : List LocalColumnChange}

theorem mem_attributed {audience : String}
    (h : validateAndAttribute hash spaceId audience raw = .ok attributed) (hc : c ∈ attributed) :
    (∀ c ∈ raw, validateChange spaceId c = .ok ()) ∧
      (c ∈ raw ∨ c.columnName = "authored_by_did" ∧ ∃ c' ∈ raw, c'.row = c.row) := by
  obtain ⟨_, hv, h⟩ := bind_eq_ok.1 h
  cases h
  refine ⟨forM_eq_ok.1 hv, ?_⟩
  rcases List.mem_append.1 hc with hc | hc
  · exact .inl (List.mem_filter.1 hc).1
  · obtain ⟨g, hg, rfl⟩ := List.mem_map.1 hc
    have hg := (hash.attribution.perm _).mem_iff.1 hg
    obtain ⟨k, hk, rfl⟩ := List.mem_map.1 hg
    obtain ⟨c', hc', rfl⟩ := List.mem_map.1 (List.mem_dedup.1 hk)
    exact .inr ⟨rfl, c', (List.mem_filter.1 hc').1, rfl⟩

theorem authorize_inv (hne : raw ≠ []) (h : authorizeInboundSyncPush env hash v spaceId endpointId validated raw = .ok changes) :
    validated.Grants spaceId (requiredCapabilityFor raw) ∧ v.isActiveSpaceMember spaceId validated.audience = true ∧
      ∃ attributed, validateAndAttribute hash spaceId validated.audience raw = .ok attributed ∧
        enforceRowSpaceScope env hash v.space.db spaceId attributed = .ok () ∧
        changes = filterOwnershipViolations env v endpointId validated.audience attributed := by
  unfold authorizeInboundSyncPush at h
  rw [if_neg hne] at h
  obtain ⟨_, hcap, h⟩ := bind_eq_ok.1 h
  obtain ⟨_, hmem, h⟩ := bind_eq_ok.1 h
  obtain ⟨attributed, hattr, h⟩ := bind_eq_ok.1 h
  obtain ⟨_, hscope, h⟩ := bind_eq_ok.1 h
  cases h
  exact ⟨requireCapability_ok.1 (mapError_eq_ok.1 hcap), ensure_ok.1 hmem, attributed, hattr, hscope, rfl⟩

/-- What is applied of a push has been attributed, and every row is in scope. -/
theorem mem_authorize (h : authorizeInboundSyncPush env hash v spaceId endpointId validated raw = .ok changes) (hc : c ∈ changes) :
    ∃ attributed, validateAndAttribute hash spaceId validated.audience raw = .ok attributed ∧
      enforceRowSpaceScope env hash v.space.db spaceId attributed = .ok () ∧
      changes = filterOwnershipViolations env v endpointId validated.audience attributed := by
  have hne : raw ≠ [] := by
    rintro rfl
    cases h
    cases hc
  exact (authorize_inv hne h).2.2

theorem authorize_new (hcap : validated.Grants spaceId (requiredCapabilityFor raw))
    (hmember : v.isActiveSpaceMember spaceId validated.audience = true)
    (hvalid : ∀ c ∈ raw, validateChange spaceId c = .ok ())
    (hnew : ∀ c ∈ raw, readExistingColumn env v.space.db c.tableName c.rowPks "space_id" = .ok none)
    (hdeclared : ∀ c ∈ raw, ∃ c' ∈ raw, c'.row = c.row ∧ c'.columnName = "space_id") :
    ∃ changes, authorizeInboundSyncPush env hash v spaceId endpointId validated raw = .ok changes := by
  by_cases hne : raw = []
  · exact ⟨[], by rw [authorizeInboundSyncPush, if_pos hne]⟩
  obtain ⟨attributed, hattr⟩ : ∃ attributed, validateAndAttribute hash spaceId validated.audience raw = .ok attributed :=
    ⟨_, bind_eq_ok.2 ⟨(), forM_eq_ok.2 hvalid, rfl⟩⟩
  have hscope : enforceRowSpaceScope env hash v.space.db spaceId attributed = .ok () := by
    refine forM_eq_ok.2 fun g hg => ?_
    obtain ⟨k, hk, rfl⟩ := List.mem_map.1 ((hash.scope.perm _).mem_iff.1 hg)
    obtain ⟨c, hc, rfl⟩ := List.mem_map.1 (List.mem_dedup.1 hk)
    obtain ⟨c₀, hc₀, hrow⟩ : ∃ c₀ ∈ raw, c₀.row = c.row := by
      rcases (mem_attributed hattr hc).2 with hc | ⟨-, h⟩
      · exact ⟨c, hc, rfl⟩
      · exact h
    obtain ⟨c', hc', hrow', hcol⟩ := hdeclared c₀ hc₀
    have hread : readExistingColumn env v.space.db c.row.1 c.row.2 "space_id" = .ok none := hrow ▸ hnew c₀ hc₀
    have hkept : c' ∈ attributed := by
      obtain ⟨-, -, h⟩ := bind_eq_ok.1 hattr
      cases h
      exact List.mem_append_left _ (List.mem_filter.2 ⟨hc', by simp [hcol]⟩)
    have hany : (attributed.filter fun x => x.row = c.row).any (·.columnName = "space_id") = true :=
      List.any_eq_true.2 ⟨c', List.mem_filter.2 ⟨hkept, by simp [hrow', hrow]⟩, by simp [hcol]⟩
    simp only [rowSpaceScope, hread, hany, if_true]
  refine ⟨filterOwnershipViolations env v endpointId validated.audience attributed, ?_⟩
  rw [authorizeInboundSyncPush, if_neg hne]
  refine bind_eq_ok.2 ⟨(), mapError_eq_ok.2 (requireCapability_ok.2 hcap), bind_eq_ok.2 ⟨(), ensure_ok.2 hmember, ?_⟩⟩
  exact bind_eq_ok.2 ⟨attributed, hattr, bind_eq_ok.2 ⟨(), hscope, rfl⟩⟩

theorem readExistingColumn_new {db : Database} (hschema : SpaceSchema db) {table rowPks x : String}
    (htable : table ∈ spaceScopedCrdtTables) (hpks : env.fromStr rowPks = some [("id", .string x)])
    (hnew : ∀ r ∈ tableRows db table, r "id" ≠ .text x) :
    readExistingColumn env db table rowPks "space_id" = .ok none := by
  have hsafe : ∀ name ∈ spaceScopedCrdtTables, safe name = true := by decide +kernel
  obtain ⟨p, hp, rfl⟩ := List.mem_map.1 (spaceSchema_names.symm ▸ htable)
  obtain ⟨rows, ht, -⟩ := hschema p hp
  have hshape : SpaceShape { p.2 with rows } := (spaceShape hp).withRows rows
  have hnone : rows.find? (selectedBy [("id", .string x)]) = none := by
    refine List.find?_eq_none.2 fun r hr => ?_
    have hr' : r "id" ≠ .text x := hnew r (by simpa [tableRows, ht] using hr)
    simp [selectedBy, boundValue, hr']
  have hcolumns : "space_id" ∈ ({ p.2 with rows } : Table).columnNames ∧
      ∀ q ∈ [("id", JsonValue.string x)], q.1 ∈ ({ p.2 with rows } : Table).columnNames := by
    refine ⟨hshape.spaceColumn, fun q hq => ?_⟩
    rw [List.mem_singleton.1 hq]
    exact hshape.idColumn
  have hnames : (safe p.1 && safe "space_id" && [("id", JsonValue.string x)].all fun q => safe q.1) = true := by
    rw [hsafe p.1 htable]
    simp [safe]
  simp only [readExistingColumn, hpks, hnames, ht, if_pos hcolumns, hnone, Option.map_none, List.cons_ne_nil, if_false,
    Bool.not_true, Bool.false_eq_true]

theorem rowSpaceScope_of_mem (h : enforceRowSpaceScope env hash v.space.db spaceId attributed = .ok ()) (hc : c ∈ attributed) :
    rowSpaceScope env v.space.db spaceId (c.row, attributed.filter fun c' => c'.row = c.row) = .ok () := by
  refine forM_eq_ok.1 h _ ((hash.scope.perm _).mem_iff.2 ?_)
  exact List.mem_map.2 ⟨c.row, List.mem_dedup.2 (List.mem_map.2 ⟨c, hc, rfl⟩), rfl⟩

theorem storedJson_eq_string {x : SqlValue} {s : String} (h : storedJson x = .string s) : x = .text s := by
  unfold storedJson at h
  split at h
  · cases h
  · split at h <;> cases h
  · split at h <;> cases h
  · cases h; rfl
  · cases h
  · cases h

theorem readExistingColumn_ok {db : Database} {table rowPks column : String} {existing : Option JsonValue}
    (h : readExistingColumn env db table rowPks column = .ok existing) :
    ∃ pks t, env.fromStr rowPks = some pks ∧ db.tables table = some t ∧
      existing = (t.rows.find? (selectedBy pks)).map fun r => storedJson (r column) := by
  unfold readExistingColumn at h
  split at h
  · cases h
  · rename_i pks hpks
    split at h
    · cases h
    · split at h
      · cases h
      · split at h
        · cases h
        · rename_i t ht
          split at h
          · cases h; exact ⟨pks, t, hpks, ht, rfl⟩
          · cases h

theorem rowSpaceScope_ok {db : Database} {group : (String × String) × List LocalColumnChange}
    (h : rowSpaceScope env db spaceId group = .ok ()) :
    ∃ existing, readExistingColumn env db group.1.1 group.1.2 "space_id" = .ok existing ∧
      (existing = some (.string spaceId) ∨ existing = none ∨ existing = some .null) := by
  unfold rowSpaceScope at h
  split at h
  · cases h
  · rename_i real he
    split at h
    · rename_i hr; exact ⟨_, he, .inl (by rw [hr])⟩
    · cases h
  · exact ⟨_, ‹_›, .inr (.inl rfl)⟩
  · exact ⟨_, ‹_›, .inr (.inr rfl)⟩
  · cases h

theorem settledOwner_stored {j : JsonValue} {declared : Option JsonValue} {owner : String}
    (h : settledOwner (some j) declared = some owner) : j = .string owner ∨ j = .null := by
  unfold settledOwner at h
  split at h
  · split at h
    · exact .inl (by simp_all)
    · cases h
  all_goals simp_all

theorem settledOwner_declared {existing : Option JsonValue} {j : JsonValue} {owner : String}
    (h : settledOwner existing (some j) = some owner) : j = .string owner := by
  unfold settledOwner at h
  split at h
  · split at h
    · simp_all
    · cases h
  all_goals simp_all

/-- A row of the batch that is stored lies in scope: the checks read the very row the writer addresses. -/
theorem stored_inScope {t : Table} {pks : RowPks} {r : Row}
    (halike : ReadAlike env writer v.space.db raw) (hc : ∃ c' ∈ raw, c'.row = c.row)
    (hname : c.tableName ∈ spaceScopedCrdtTables)
    (hscope : rowSpaceScope env v.space.db spaceId (c.row, attributed.filter fun c' => c'.row = c.row) = .ok ())
    (howns : ownsRow env v endpointId validated.audience attributed c.row = true)
    (ht : v.space.db.tables c.tableName = some t) (hpks : writer.fromStr c.rowPks = some pks) (hr : r ∈ t.rows)
    (hkey : t.rowKey r = pkKey t pks) : InScope v spaceId endpointId validated.audience c.tableName r := by
  obtain ⟨c', hc', hrow⟩ := hc
  have htable : c'.tableName = c.tableName := congrArg Prod.fst hrow
  have hcpks : c'.rowPks = c.rowPks := congrArg Prod.snd hrow
  obtain ⟨t₀, ht₀, hteq, hshape, hholds⟩ := v.space.schema.table ht hname
  obtain ⟨existing, he, hex⟩ := rowSpaceScope_ok hscope
  obtain ⟨named, t', hnamed, ht', -⟩ := readExistingColumn_ok he
  obtain rfl := Option.some.inj (ht.symm.trans ht')
  have hfind : t.rows.find? (selectedBy named) = some r := by
    rw [halike.rows c' hc' t (htable ▸ ht) named pks (hcpks ▸ hnamed) (hcpks ▸ hpks), ← hkey]
    exact Keyed.get_of_mem hholds.keys hr
  -- the value the checks read in a column is the stored one, and a required column is not null
  have hread : ∀ column existing, readExistingColumn env v.space.db c.tableName c.rowPks column = .ok existing →
      existing = some (storedJson (r column)) := by
    intro column existing he
    obtain ⟨named', t', hnamed', ht', rfl⟩ := readExistingColumn_ok he
    obtain rfl := Option.some.inj (hnamed.symm.trans hnamed')
    obtain rfl := Option.some.inj (ht.symm.trans ht')
    rw [hfind, Option.map_some]
  have hstored : ∀ column, Required t column → column = "space_id" ∨ ownerColumnFor c.tableName = some column →
      storedJson (r column) ≠ .null := by
    intro column hreq hcol hnull
    obtain ⟨col, hm, rfl, hn⟩ := hreq.notNull
    exact hholds.notNull r hr col hm hn
      (halike.nulls c' hc' t (htable ▸ ht) named r (hcpks ▸ hnamed) hfind _ (htable ▸ hcol) hnull)
  refine ⟨?_, fun column hcol => ?_⟩
  · rw [hread _ _ he] at hex
    rcases hex with hex | hex | hex
    · exact storedJson_eq_string (Option.some.inj hex)
    · cases hex
    · exact absurd (Option.some.inj hex) (hstored _ hshape.space (.inl rfl))
  · have hown := howns
    simp only [ownsRow, show c.row.1 = c.tableName from rfl, show c.row.2 = c.rowPks from rfl, hcol] at hown
    split at hown
    · cases hown
    · rename_i existing he
      split at hown
      · cases hown
      · rename_i owner howner
        rw [hread _ _ he] at howner
        refine ⟨owner, by simpa using hown, ?_⟩
        rcases settledOwner_stored howner with hj | hj
        · exact storedJson_eq_string hj
        · exact absurd hj (hstored _ (ownerColumn_required ht₀ hteq hcol) (.inr hcol))

theorem owner_of_ownsRow {row : String × String} {did column : String}
    (hcol : ownerColumnFor row.1 = some column) (howns : ownsRow env v endpointId did attributed row = true) :
    ∃ owner, callerOwner v endpointId did row.1 = some owner := by
  simp only [ownsRow, hcol] at howns
  split at howns
  · cases howns
  · split at howns
    · cases howns
    · rename_i owner _
      exact ⟨owner, by simpa using howns⟩

theorem declared_owner (halike : ReadAlike env writer v.space.db raw)
    (hraw : ∀ c' ∈ attributed, c'.row = c.row → c'.columnName = c.columnName → c' ∈ raw)
    (hc : c ∈ attributed) (hcol : ownerColumnFor c.tableName = some c.columnName)
    (howns : ownsRow env v endpointId validated.audience attributed c.row = true) :
    ∃ owner, callerOwner v endpointId validated.audience c.tableName = some owner ∧ c.value = .string owner := by
  have hdecl : declaredValue attributed c.row c.columnName = some c.value := by
    unfold declaredValue
    have hmem : c ∈ attributed.filter fun c' => c'.row = c.row && c'.columnName = c.columnName :=
      List.mem_filter.2 ⟨hc, by simp⟩
    obtain ⟨last, hlast⟩ := Option.isSome_iff_exists.1 (List.getLast?_isSome.2 (List.ne_nil_of_mem hmem))
    have hl := List.mem_filter.1 (List.mem_of_getLast? hlast)
    simp only [Bool.and_eq_true, decide_eq_true_eq] at hl
    rw [hlast, Option.map_some, halike.owners c (hraw c hc rfl rfl) last (hraw last hl.1 hl.2.1 hl.2.2) hl.2.1.symm hcol hl.2.2]
  simp only [ownsRow, show c.row.1 = c.tableName from rfl, hcol] at howns
  split at howns
  · cases howns
  · rw [hdecl] at howns
    split at howns
    · cases howns
    · rename_i owner howner
      exact ⟨owner, by simpa using howns, settledOwner_declared howner⟩

end Accepted

/-! ## What the writer does with it -/

def Fixed (cells : List (String × SqlValue)) (r : Row) : Prop := ∀ p ∈ cells, r p.1 = p.2

theorem changed_uniform {t : Table} {stored : ColumnHlcs} {cs : List RemoteColumnChange} {c : String} {x : SqlValue}
    (hc : DataName t c) (h : ∀ ch ∈ cs, ch.columnName = c → jsonToRusqliteValue ch.decryptedValue = x) :
    Uniform ((collectChanges t.columnNames stored cs).changed ++ (collectChanges t.columnNames stored cs).metadata) c x := by
  intro p hp he
  rcases List.mem_append.1 hp with hp | hp
  · obtain ⟨u, hu, rfl⟩ := List.mem_map.1 hp
    obtain ⟨ch, hch, rfl, -⟩ := collect_known stored cs u hu
    exact h ch hch he
  · simp only [RowAcc.metadata, List.mem_cons, List.not_mem_nil, or_false] at hp
    rcases hp with rfl | rfl
    · exact absurd he.symm hc.hlcs
    · exact absurd he.symm hc.hlc

theorem wrote_differsIn {t t' : Table} {k : List SqlValue} {m : RowPks} {stored : ColumnHlcs} {cs : List RemoteColumnChange}
    {cells : List (String × SqlValue)} (hw : Wrote t k m (collectChanges t.columnNames stored cs) t')
    (hcells : ∀ p ∈ cells, Required t p.1 ∧ DataName t p.1 ∧
      ∀ ch ∈ cs, ch.columnName = p.1 → jsonToRusqliteValue ch.decryptedValue = p.2)
    (hold : ∀ r ∈ t.rows, t.rowKey r = k → Fixed cells r) : Keyed.DiffersIn (Fixed cells) t.rows t'.rows := by
  cases hw with
  | nothing => exact .refl _
  | conflict => exact .refl _
  | update _ _ h =>
    rw [Table.update_eq h]
    refine .modify fun r hr hk => ⟨hold r hr hk, fun p hp => ?_⟩
    obtain ⟨-, hd, hv⟩ := hcells p hp
    exact assign_uniform (changed_uniform hd hv) (hold r hr hk p hp)
  | insert _ _ h =>
    rw [Table.insert_eq h]
    refine .append fun p hp => ?_
    obtain ⟨hreq, hd, hv⟩ := hcells p hp
    have hne := insert_required h hreq
    rw [fresh_apply hd.pk] at hne ⊢
    rcases lookup_uniform (@changed_uniform _ stored _ _ _ hd hv) with hl | hl
    · rw [hl] at hne; exact absurd hreq.dflt hne
    · rw [hl]; rfl

/-- What the checks establish of a change, for the writer. -/
structure Checked (env : Env) (v : Vault) (spaceId endpointId did : String) (c : LocalColumnChange) : Prop where
  table : c.tableName ∈ spaceScopedCrdtTables
  space : c.columnName = "space_id" → c.value = .string spaceId
  owner : ∀ column, ownerColumnFor c.tableName = some column →
    ∃ owner, callerOwner v endpointId did c.tableName = some owner ∧ (c.columnName = column → c.value = .string owner)
  stored : ∀ t pks r, v.space.db.tables c.tableName = some t → env.fromStr c.rowPks = some pks → r ∈ t.rows →
    t.rowKey r = pkKey t pks → InScope v spaceId endpointId did c.tableName r

def changesOf (table : String) (changes : List LocalColumnChange) : List LocalColumnChange :=
  changes.filter fun c => c.tableName = table

theorem mem_changesOf {table : String} {changes : List LocalColumnChange} {c : LocalColumnChange} :
    c ∈ changesOf table changes ↔ c ∈ changes ∧ c.tableName = table := by
  simp [changesOf]

theorem table_of_authorize {env : Env} {hash : PushHashing} {v : Vault} {spaceId endpointId : String}
    {validated : ValidatedUcan} {raw changes : List LocalColumnChange}
    (h : authorizeInboundSyncPush env hash v spaceId endpointId validated raw = .ok changes) :
    ∀ c ∈ changes, c.tableName ∈ spaceScopedCrdtTables := by
  intro c hc
  obtain ⟨attributed, hattr, -, rfl⟩ := mem_authorize h hc
  obtain ⟨hvalid, hfrom⟩ := mem_attributed hattr (List.mem_filter.1 hc).1
  rcases hfrom with hc | ⟨-, c', hc', he⟩
  · exact (validateChange_ok.1 (hvalid c hc)).1
  · rw [← show c'.tableName = c.tableName from congrArg Prod.fst he]
    exact (validateChange_ok.1 (hvalid c' hc')).1

theorem checked_of_authorize {env writer : Env} {hash : PushHashing} {v : Vault} {spaceId endpointId table : String}
    {validated : ValidatedUcan} {raw changes : List LocalColumnChange}
    (halike : ReadAlike env writer v.space.db (changesOf table raw))
    (h : authorizeInboundSyncPush env hash v spaceId endpointId validated raw = .ok changes) :
    ∀ c ∈ changes, c.tableName = table → Checked writer v spaceId endpointId validated.audience c := by
  intro c hc htable
  have hscoped := table_of_authorize h c hc
  obtain ⟨attributed, hattr, hscope, rfl⟩ := mem_authorize h hc
  obtain ⟨hc, howns⟩ := List.mem_filter.1 hc
  have hrow := rowSpaceScope_of_mem hscope hc
  obtain ⟨hvalid, hfrom⟩ := mem_attributed hattr hc
  have hsame : ∀ c' : LocalColumnChange, c'.row = c.row → c'.tableName = table :=
    fun c' he => (congrArg Prod.fst he).trans htable
  have hraw : ∃ c' ∈ changesOf table raw, c'.row = c.row := by
    rcases hfrom with h | ⟨-, c', h, he⟩
    · exact ⟨c, mem_changesOf.2 ⟨h, htable⟩, rfl⟩
    · exact ⟨c', mem_changesOf.2 ⟨h, hsame c' he⟩, he⟩
  refine ⟨hscoped, fun hs => ?_, fun column hcol => ?_, fun t pks r ht hpks hr hk => ?_⟩
  · rcases hfrom with h | ⟨h, -⟩
    · exact (validateChange_ok.1 (hvalid c h)).2 hs
    · rw [hs] at h; exact absurd h (by decide)
  · by_cases hcc : c.columnName = column
    · subst hcc
      have hmem : ∀ c' ∈ attributed, c'.row = c.row → c'.columnName = c.columnName → c' ∈ changesOf table raw := by
        intro c' hc' he hn
        rcases (mem_attributed hattr hc').2 with h | ⟨h, -⟩
        · exact mem_changesOf.2 ⟨h, hsame c' he⟩
        · exact absurd (hn ▸ h) (ownerColumn_ne hcol).2.2.2
      obtain ⟨owner, ho, hval⟩ := declared_owner halike hmem hc hcol howns
      exact ⟨owner, ho, fun _ => hval⟩
    · obtain ⟨owner, ho⟩ := owner_of_ownsRow hcol howns
      exact ⟨owner, ho, fun h => absurd h hcc⟩
  · exact stored_inScope halike hraw hscoped hrow howns ht hpks hr hk

def ConfinedIn (v : Vault) (spaceId endpointId did table : String) (db : Database) : Prop :=
  Keyed.DiffersIn (InScope v spaceId endpointId did table) (tableRows v.space.db table) (tableRows db table)

theorem inScope_cells {v : Vault} {spaceId endpointId did : String} {c : LocalColumnChange} {env : Env}
    (hc : Checked env v spaceId endpointId did c) :
    ∃ cells : List (String × SqlValue),
      (∀ r, Fixed cells r ↔ InScope v spaceId endpointId did c.tableName r) ∧
      (∀ p ∈ cells, p = ("space_id", .text spaceId) ∨ ∃ owner, ownerColumnFor c.tableName = some p.1 ∧
        callerOwner v endpointId did c.tableName = some owner ∧ p.2 = .text owner) := by
  cases hcol : ownerColumnFor c.tableName with
  | none =>
    refine ⟨[("space_id", .text spaceId)], fun r => ?_, fun p hp => .inl (List.mem_singleton.1 hp)⟩
    simp [Fixed, InScope, hcol]
  | some column =>
    obtain ⟨owner, ho, -⟩ := hc.owner column hcol
    refine ⟨[("space_id", .text spaceId), (column, .text owner)], fun r => ?_, fun p hp => ?_⟩
    · simp [Fixed, InScope, hcol, ho]
    · simp only [List.mem_cons, List.not_mem_nil, or_false] at hp
      rcases hp with rfl | rfl
      · exact .inl rfl
      · exact .inr ⟨owner, rfl, ho, rfl⟩

section Group
variable {env : Env} {v : Vault} {spaceId endpointId did : String} {group : (String × String) × List RemoteColumnChange}
  {c : LocalColumnChange} {p : String × Table} {rows : List Row}

def CheckedRow (env : Env) (v : Vault) (spaceId endpointId did : String)
    (group : (String × String) × List RemoteColumnChange) : Prop :=
  group.2 ≠ [] ∧ ∀ ch ∈ group.2, ∃ c, Checked env v spaceId endpointId did c ∧ ch = c.toRemote ∧ c.row = group.1

theorem scope_cell (hg : CheckedRow env v spaceId endpointId did group) (hp : p ∈ spaceSchema) (hpn : p.1 = group.1.1)
    {q : String × SqlValue} (hq : q = ("space_id", .text spaceId) ∨ ∃ owner, ownerColumnFor group.1.1 = some q.1 ∧
      callerOwner v endpointId did group.1.1 = some owner ∧ q.2 = .text owner) :
    Required { p.2 with rows } q.1 ∧ DataName { p.2 with rows } q.1 ∧
      ∀ ch ∈ group.2, ch.columnName = q.1 → jsonToRusqliteValue ch.decryptedValue = q.2 := by
  have hshape : SpaceShape { p.2 with rows } := (@spaceShape p.1 _ hp).withRows rows
  rcases hq with rfl | ⟨owner, hcol, ho, hval⟩
  · refine ⟨hshape.space, hshape.spaceData, fun ch hch he => ?_⟩
    obtain ⟨c, hc, rfl, -⟩ := hg.2 ch hch
    show jsonToRusqliteValue c.value = .text spaceId
    rw [hc.space he]
    rfl
  · have hnames := ownerColumn_ne hcol
    refine ⟨@ownerColumn_required _ _ p.2 _ hp rfl (hpn ▸ hcol),
      ⟨by rw [hshape.pk]; simpa using hnames.1, hnames.2.1, hnames.2.2.1⟩, fun ch hch he => ?_⟩
    obtain ⟨c, hc, rfl, hrow⟩ := hg.2 ch hch
    have hname : c.tableName = group.1.1 := congrArg Prod.fst hrow
    obtain ⟨owner', ho', hval'⟩ := hc.owner q.1 (hname ▸ hcol)
    obtain rfl : owner' = owner := by
      rw [hname, ho] at ho'
      exact (Option.some.inj ho').symm
    show jsonToRusqliteValue c.value = q.2
    rw [hval' he, hval]
    rfl

theorem applyRow_confinedIn {db db' : Database} (hschema : SpaceSchema db)
    (hconf : ConfinedIn v spaceId endpointId did group.1.1 db) (hg : CheckedRow env v spaceId endpointId did group)
    (h : applyRow env db group = .ok db') : ConfinedIn v spaceId endpointId did group.1.1 db' := by
  obtain ⟨ch, hch⟩ := List.exists_mem_of_ne_nil _ hg.1
  obtain ⟨c, hc, -, hrow⟩ := hg.2 ch hch
  have hname : c.tableName = group.1.1 := congrArg Prod.fst hrow
  obtain ⟨p, hp, hpn⟩ := List.mem_map.1 (spaceSchema_names.symm ▸ (hname ▸ hc.table : group.1.1 ∈ spaceScopedCrdtTables))
  obtain ⟨rows, ht, -⟩ := hschema p hp
  obtain ⟨rows₀, ht₀, -⟩ := v.space.schema p hp
  rw [hpn] at ht ht₀
  obtain ⟨m, stored, t₁, hm, -, -, htables, -, hw⟩ := applyRow_inv ht ((@spaceShape p.1 _ hp).withRows rows).hlcs h
  obtain ⟨cells, hfix, hcells⟩ := inScope_cells hc
  rw [hname] at hfix hcells
  -- the rows under the key are in scope before, and what is written keeps them there
  have hdiff : Keyed.DiffersIn (Fixed cells) rows t₁.rows := by
    refine wrote_differsIn hw (fun q hq => scope_cell hg hp hpn (hcells q hq)) fun r hr hk => (hfix r).2 ?_
    have hmem : r ∈ tableRows db group.1.1 := by rw [tableRows, ht]; exact hr
    rcases hconf.added r hmem with hr₀ | hr₀
    · rw [tableRows, ht₀] at hr₀
      have hpks : env.fromStr c.rowPks = some m := by rw [← hm, show c.rowPks = group.1.2 from congrArg Prod.snd hrow]
      exact hname ▸ hc.stored _ m r (hname.symm ▸ ht₀) hpks hr₀ hk
    · exact hr₀
  have hrows : tableRows db group.1.1 = rows := by rw [tableRows, ht]; rfl
  have hrows' : tableRows db' group.1.1 = t₁.rows := by rw [tableRows, htables, Function.update_self]; rfl
  refine hconf.trans ?_
  rw [hrows, hrows']
  exact hdiff.mono fun r => (hfix r).1

theorem applyRows_confinedIn {table : String} {groups : List ((String × String) × List RemoteColumnChange)}
    {db db' : Database} (hschema : SpaceSchema db) (hconf : ConfinedIn v spaceId endpointId did table db)
    (hg : ∀ g ∈ groups, g.1.1 = table → CheckedRow env v spaceId endpointId did g)
    (h : applyRows env db groups = .ok db') : ConfinedIn v spaceId endpointId did table db' := by
  induction groups generalizing db with
  | nil => cases h; exact hconf
  | cons g groups ih =>
    obtain ⟨db₁, h₁, h₂⟩ := bind_eq_ok.1 h
    refine ih (hschema.applyRow h₁) ?_ (fun g' hg' => hg g' (List.mem_cons_of_mem _ hg')) h₂
    by_cases hn : table = g.1.1
    · subst hn
      exact applyRow_confinedIn hschema hconf (hg g List.mem_cons_self rfl) h₁
    · obtain ⟨t', htables⟩ := applyRow_other h₁
      have hsame : tableRows db₁ table = tableRows db table := by simp [tableRows, htables, Function.update_of_ne hn]
      rw [ConfinedIn, hsame]
      exact hconf

end Group

section Batch
variable {env : Env} {hash : Hashing} {v : Vault} {spaceId endpointId did : String} {changes : List LocalColumnChange}
  {db' : Database}

theorem applyRows_of_apply (hscoped : ∀ c ∈ changes, c.tableName ∈ spaceScopedCrdtTables)
    (h : applyRemoteChangesToDb env hash v.space.db (changes.map (·.toRemote)) none = .ok db') :
    ∃ db₁, applyRows env { v.space.db with triggersEnabled := some "0" } (batchGroups hash (changes.map (·.toRemote))) =
        .ok db₁ ∧ db'.tables = db₁.tables := by
  obtain ⟨db₁, db₂, h₁, h₂, rfl⟩ := apply_rows h
  have hdel : ∀ ch ∈ orderedChanges hash (changes.map (·.toRemote)), ch.tableName ≠ deletedRowsTable := by
    intro ch hch he
    obtain ⟨c, hc, rfl⟩ := List.mem_map.1 (mem_orderedChanges.1 hch)
    have ht : deletedRowsTable ∈ spaceScopedCrdtTables := he ▸ hscoped c hc
    revert ht
    decide
  rw [inboundDeleteLogIds_nil hdel, List.perm_nil.1 (hash.ids.perm [])] at h₂
  cases h₂
  exact ⟨db₁, h₁, rfl⟩

theorem group_changes {g : (String × String) × List RemoteColumnChange}
    (hg : g ∈ batchGroups hash (changes.map (·.toRemote))) :
    g.2 ≠ [] ∧ ∀ ch ∈ g.2, ∃ c ∈ changes, ch = c.toRemote ∧ c.row = g.1 := by
  constructor
  · obtain ⟨ch, hch, he⟩ := batchGroup_ne_nil hg
    exact List.ne_nil_of_mem ((mem_batchGroup hg).2 ⟨hch, he⟩)
  · intro ch hch
    obtain ⟨hch, he⟩ := (mem_batchGroup hg).1 hch
    obtain ⟨c, hcm, rfl⟩ := List.mem_map.1 hch
    exact ⟨c, hcm, rfl, he⟩

theorem apply_confinedIn {table : String} (hscoped : ∀ c ∈ changes, c.tableName ∈ spaceScopedCrdtTables)
    (hc : ∀ c ∈ changes, c.tableName = table → Checked env v spaceId endpointId did c)
    (h : applyRemoteChangesToDb env hash v.space.db (changes.map (·.toRemote)) none = .ok db') :
    ConfinedIn v spaceId endpointId did table db' := by
  obtain ⟨db₁, h₁, htables⟩ := applyRows_of_apply hscoped h
  have hstart : ConfinedIn v spaceId endpointId did table { v.space.db with triggersEnabled := some "0" } := .refl _
  have hschema : SpaceSchema { v.space.db with triggersEnabled := some "0" } := v.space.schema
  have hconf : ConfinedIn v spaceId endpointId did table db₁ := by
    refine applyRows_confinedIn hschema hstart (fun g hg hn => ?_) h₁
    obtain ⟨hne, hch⟩ := group_changes hg
    refine ⟨hne, fun ch hm => ?_⟩
    obtain ⟨c, hcm, rfl, he⟩ := hch ch hm
    exact ⟨c, hc c hcm ((congrArg Prod.fst he).trans hn), rfl, he⟩
  have hsame : tableRows db' table = tableRows db₁ table := by simp [tableRows, htables]
  rwa [ConfinedIn, hsame]

theorem isActiveSpaceMember_of_confinedIn {space : SpaceDb}
    (h : ConfinedIn v spaceId endpointId did "haex_space_members" space.db) {s d : String} (hd : d ≠ did) :
    ({ v with space } : Vault).isActiveSpaceMember s d = v.isActiveSpaceMember s d := by
  rw [Bool.eq_iff_iff, Vault.isActiveSpaceMember_iff, Vault.isActiveSpaceMember_iff]
  -- a row of the DID's identity is none of the caller's
  have hforeign : ∀ {id : String} {m : Row}, v.identities.resolve d = some id → m "identity_id" = .text id →
      ¬ InScope v spaceId endpointId did "haex_space_members" m := by
    rintro id m hid hmi ⟨-, howner⟩
    obtain ⟨owner, ho, hmo⟩ := howner "identity_id" rfl
    obtain rfl : id = owner := by simpa using hmi.symm.trans hmo
    exact hd (Identities.resolve_inj hid ho)
  constructor
  · rintro ⟨id, hid, m, hm, hmi, hms⟩
    exact ⟨id, hid, m, (h.mem_iff (hforeign hid hmi)).1 hm, hmi, hms⟩
  · rintro ⟨id, hid, m, hm, hmi, hms⟩
    exact ⟨id, hid, m, (h.mem_iff (hforeign hid hmi)).2 hm, hmi, hms⟩

end Batch

theorem Checked.store {env : Env} {v : Vault} {spaceId endpointId did : String} {c : LocalColumnChange}
    (h : Checked env v spaceId endpointId did c) (w : TextColumns) : Checked env v spaceId endpointId did (w.store c) where
  table := h.table
  space he := by rw [w.store_string (h.space he), h.space he]
  owner column hcol := by
    obtain ⟨owner, ho, hval⟩ := h.owner column hcol
    exact ⟨owner, ho, fun he => by rw [w.store_string (hval he), hval he]⟩
  stored := h.stored

def pushEnv : Env where
  fromStr := fun s =>
    if s = "\x7b\"id\":\"e2\"\x7d" then some [("id", .string "e2")]
    else if s = "\x7b\"id\":\"e1\",\"device_id\":\"ep-mallory\"\x7d" then
      some [("id", .string "e1"), ("device_id", .string "ep-mallory")]
    else none
  isAlphanumeric := Char.isAlphanum

def pushInOrder : PushHashing := ⟨⟨id, fun _ => .refl _⟩, ⟨id, fun _ => .refl _⟩⟩

def enrollment (id device : String) : Row :=
  storedRow [("id", .text id), ("space_id", .text "s"), ("device_id", .text device), ("key_package", .text "kp"),
    ("status", .text "pending")]

def meshRows (name : String) : List Row :=
  if name = "haex_space_members" then [memberRow "m1" "s" "i-bob", memberRow "m2" "s" "i-mallory"]
  else if name = "haex_device_mls_enrollments" then [enrollment "e1" "ep-bob"]
  else []

theorem meshRows_holds : ∀ p ∈ spaceSchema, Holds { p.2 with rows := meshRows p.1 } := by
  intro p hp
  simp only [spaceSchema, List.mem_cons, List.not_mem_nil, or_false] at hp
  rcases hp with rfl | rfl | rfl | rfl | rfl
  · exact holds_empty _
  · exact ⟨by decide, by decide⟩
  · exact holds_empty _
  · exact holds_empty _
  · exact ⟨by decide, by decide⟩

def meshVault : Vault where
  space := ⟨spaceTablesOf meshRows, spaceSchema_tablesOf meshRows_holds⟩
  identities := ⟨[⟨"i-bob", "did:key:bob", none⟩, ⟨"i-mallory", "did:key:mallory", none⟩], by decide, by decide⟩

def malloryUcan : ValidatedUcan := ⟨"did:key:admin", "did:key:mallory", [("s", .read)], 100⟩

def enrollmentChange (rowPks column value : String) : LocalColumnChange :=
  ⟨"haex_device_mls_enrollments", rowPks, column, "1/a", .string value, "d"⟩

def ownEnrollment : List LocalColumnChange :=
  [enrollmentChange "\x7b\"id\":\"e2\"\x7d" "space_id" "s", enrollmentChange "\x7b\"id\":\"e2\"\x7d" "device_id" "ep-mallory",
    enrollmentChange "\x7b\"id\":\"e2\"\x7d" "key_package" "kp2"]

def pushTexts : TextColumns := ⟨pushEnv, fun _ => ""⟩

def attributed (changes : List LocalColumnChange) (rowPks : String) : List LocalColumnChange :=
  changes ++ [enrollmentChange rowPks "authored_by_did" "did:key:mallory"]

end HaexVault.Space
