import HaexVault.Space.InboundSync
/-!
# Scanning the tables of a space (`crdt/scanner.rs`)

A scan emits one change for every data column of the rows of one space. With a cursor it selects the
rows whose `haex_hlc` is above it as a text and, of these, the columns whose HLC is newer. A push
takes only those this node wrote. `Emits` says what a scan emits (`scan_ok`).
-/

namespace HaexVault.Space

open HaexVault.Crdt HaexVault.Lib HaexVault.Lib.Steps

/-- What a scan takes from outside: `serde_json::to_string` of a row's keys, base64, and the order in which SQLite
returns rows. -/
structure Scanner where
  toJson : RowPks → String
  encode : List UInt8 → String
  order : HashOrder Row

structure ScanArgs where
  spaceId : String
  afterHlc : Option String
  deviceId : String
  originNode : Option Nat

def excludedSyncColumns : List String :=
  ["last_push_hlc_timestamp", "last_pull_server_timestamp", "updated_at", "created_at"]

/-- The data columns of `partition_columns`; the other part is `pkNames`. -/
def dataColumns (t : Table) : List String :=
  (t.columns.filter fun c => !c.isPk && c.name ≠ hlcTimestampColumn && c.name ≠ columnHlcsColumn &&
    c.name ∉ excludedSyncColumns).map (·.name)

def hlcIsFromNode (hlc : String) (node : Nat) : Bool :=
  ((splitOnce '/' hlc.toList).bind fun p => parseHlcNodeHex p.2) = some node

def hlcToUse (r : Row) (column : String) : Option String := (rowClock r column).or (asText (r hlcTimestampColumn))

section
variable (x : Scanner)

/-- `convert_value_ref_to_json`. A clock map never stands in the columns it is used for. -/
def convertValueRefToJson : SqlValue → JsonValue
  | .null => .null
  | .integer i => if 0 ≤ i then .number (.posInt (UInt64.ofNat i.toNat)) else .number (.negInt (Int64.ofInt i))
  | .real bits => if isFinite bits then .number (.float bits) else .number (.posInt 0)
  | .text s => .string s
  | .blob bytes => .string (x.encode bytes)
  | .hlcs _ => .composite ""

/-- The `row_pks` of a scanned row. -/
def pkJson (t : Table) (r : Row) : String := x.toJson (t.pkNames.map fun c => (c, convertValueRefToJson x (r c)))

def columnChange (t : Table) (tableName deviceId : String) (r : Row) (column hlc : String) : LocalColumnChange where
  tableName
  rowPks := pkJson x t r
  columnName := column
  hlcTimestamp := hlc
  value := convertValueRefToJson x (r column)
  deviceId

def ScanArgs.passes (a : ScanArgs) (hlc : String) : Bool :=
  (a.afterHlc.all fun h => hlcIsNewer hlc h) && a.originNode.all fun n => hlcIsFromNode hlc n

/-- The `WHERE` clause: SQLite compares the texts. -/
def ScanArgs.selects (a : ScanArgs) (r : Row) : Bool :=
  (a.afterHlc.all fun h => (asText (r hlcTimestampColumn)).any fun h' => h < h') && r "space_id" = .text a.spaceId

def rowChanges (t : Table) (tableName : String) (a : ScanArgs) (r : Row) : List LocalColumnChange :=
  (dataColumns t).filterMap fun column =>
    ((hlcToUse r column).filter a.passes).map fun hlc => columnChange x t tableName a.deviceId r column hlc

/-- `scan_table_for_local_changes_scoped`, with the space filter every caller gives it. -/
def scanTableForLocalChangesScoped (db : Database) (tableName : String) (a : ScanArgs) :
    Except DatabaseError (List LocalColumnChange) :=
  match db.tables tableName with
  | none => .ok []
  | some t =>
    if t.pkNames = [] then .error (.execution tableName ("Table '" ++ tableName ++ "' has no primary key"))
    else if "space_id" ∉ t.columnNames then .ok []
    else .ok ((x.order.iter (t.rows.filter a.selects)).flatMap (rowChanges x t tableName a))

def scanTables (db : Database) (a : ScanArgs) : List String → Except DatabaseError (List LocalColumnChange)
  | [] => .ok []
  | table :: tables => do
    let changes ← scanTableForLocalChangesScoped x db table a
    let rest ← scanTables db a tables
    .ok (changes ++ rest)

/-- `scan_space_scoped_tables_for_local_changes`. `sort_by` is stable, and so is the insertion sort. -/
def scanSpaceScopedTablesForLocalChanges (db : Database) (a : ScanArgs) : Except DatabaseError (List LocalColumnChange) := do
  let allChanges ← scanTables x db a spaceScopedCrdtTables
  .ok (allChanges.insertionSort fun c c' => compareHlcStrings c.hlcTimestamp c'.hlcTimestamp ≠ .gt)

def scanMembershipTablesForLocalChanges (db : Database) (a : ScanArgs) : Except DatabaseError (List LocalColumnChange) := do
  let changes ← scanSpaceScopedTablesForLocalChanges x db a
  .ok (changes.filter fun c => c.tableName ∈ membershipSystemTables)

end

/-! ## What a scan emits -/

/-- A selected row of a whitelisted table has the change. -/
def Emits (x : Scanner) (db : Database) (a : ScanArgs) (c : LocalColumnChange) : Prop :=
  ∃ table ∈ spaceScopedCrdtTables, ∃ t, db.tables table = some t ∧
    ∃ r ∈ t.rows, a.selects r = true ∧ c ∈ rowChanges x t table a r

section
variable {x : Scanner} {db : Database} {a : ScanArgs} {c : LocalColumnChange}

theorem mem_rowChanges {t : Table} {table : String} {r : Row} :
    c ∈ rowChanges x t table a r ↔ ∃ column ∈ dataColumns t, ∃ hlc, hlcToUse r column = some hlc ∧ a.passes hlc = true ∧
      c = columnChange x t table a.deviceId r column hlc := by
  simp only [rowChanges, List.mem_filterMap, Option.map_eq_some_iff, Option.filter_eq_some_iff]
  constructor
  · rintro ⟨column, hcol, hlc, ⟨hh, hp⟩, rfl⟩
    exact ⟨column, hcol, hlc, hh, hp, rfl⟩
  · rintro ⟨column, hcol, hlc, hh, hp, rfl⟩
    exact ⟨column, hcol, hlc, ⟨hh, hp⟩, rfl⟩

theorem dataColumns_data {name : String} {t₀ t : Table} (h : (name, t₀) ∈ spaceSchema) (ht : t = { t₀ with rows := t.rows })
    {column : String} (hc : column ∈ dataColumns t) : column ∈ t.columnNames ∧ DataName t column := by
  have hall : ∀ p ∈ spaceSchema, ∀ column ∈ dataColumns p.2, column ∈ p.2.columnNames ∧ column ∉ p.2.pkNames ∧
      column ≠ hlcTimestampColumn ∧ column ≠ columnHlcsColumn := by decide +kernel
  have hdata : dataColumns t = dataColumns t₀ := by rw [ht]; rfl
  obtain ⟨hmem, hpk, hhlc, hhlcs⟩ := hall _ h column (hdata ▸ hc)
  rw [ht]
  exact ⟨hmem, hpk, hhlc, hhlcs⟩

theorem scanTable_ok (hschema : SpaceSchema db) {table : String} (htable : table ∈ spaceScopedCrdtTables) :
    ∃ t, db.tables table = some t ∧ scanTableForLocalChangesScoped x db table a =
      .ok ((x.order.iter (t.rows.filter a.selects)).flatMap (rowChanges x t table a)) := by
  obtain ⟨p, hp, rfl⟩ := List.mem_map.1 (spaceSchema_names.symm ▸ htable)
  obtain ⟨rows, ht, -⟩ := hschema p hp
  have hshape : SpaceShape { p.2 with rows } := (@spaceShape p.1 _ hp).withRows rows
  refine ⟨_, ht, ?_⟩
  simp only [scanTableForLocalChangesScoped, ht]
  rw [if_neg (by rw [hshape.pk]; simp), if_neg (not_not.2 hshape.spaceColumn)]

theorem scanTables_ok (hschema : SpaceSchema db) {tables : List String} (htables : tables ⊆ spaceScopedCrdtTables) :
    ∃ changes, scanTables x db a tables = .ok changes ∧ ∀ c, c ∈ changes ↔
      ∃ table ∈ tables, ∃ t, db.tables table = some t ∧ ∃ r ∈ t.rows, a.selects r = true ∧ c ∈ rowChanges x t table a r := by
  induction tables with
  | nil => exact ⟨[], rfl, fun c => by simp⟩
  | cons table tables ih =>
    obtain ⟨rest, hrest, hmem⟩ := ih (List.subset_of_cons_subset htables)
    obtain ⟨t, ht, hscan⟩ := @scanTable_ok x db a hschema table (htables List.mem_cons_self)
    refine ⟨_, bind_eq_ok.2 ⟨_, hscan, bind_eq_ok.2 ⟨rest, hrest, rfl⟩⟩, fun c => ?_⟩
    simp only [List.mem_append, List.mem_flatMap, (x.order.perm _).mem_iff, List.mem_filter, hmem, List.exists_mem_cons_iff]
    refine or_congr_left ⟨?_, ?_⟩
    · rintro ⟨r, ⟨hr, hsel⟩, hc⟩
      exact ⟨t, ht, r, hr, hsel, hc⟩
    · rintro ⟨t', ht', r, hr, hsel, hc⟩
      obtain rfl := Option.some.inj (ht.symm.trans ht')
      exact ⟨r, ⟨hr, hsel⟩, hc⟩

/-- A scan of a database with the tables of shared spaces succeeds. -/
theorem scan_ok (x : Scanner) (hschema : SpaceSchema db) (a : ScanArgs) :
    ∃ changes, scanSpaceScopedTablesForLocalChanges x db a = .ok changes ∧ ∀ c, c ∈ changes ↔ Emits x db a c := by
  obtain ⟨changes, hscan, hmem⟩ := @scanTables_ok x db a hschema _ (List.Subset.refl spaceScopedCrdtTables)
  exact ⟨_, bind_eq_ok.2 ⟨changes, hscan, rfl⟩, fun c => by rw [List.mem_insertionSort, hmem]; rfl⟩

theorem mem_scan (hschema : SpaceSchema db) {changes : List LocalColumnChange}
    (h : scanSpaceScopedTablesForLocalChanges x db a = .ok changes) : c ∈ changes ↔ Emits x db a c := by
  obtain ⟨changes', h', hmem⟩ := scan_ok x hschema a
  rw [h] at h'
  cases h'
  exact hmem c

theorem scan_sorted {changes : List LocalColumnChange} (h : scanSpaceScopedTablesForLocalChanges x db a = .ok changes) :
    changes.Pairwise fun c c' => hlcKey c.hlcTimestamp ≤ hlcKey c'.hlcTimestamp := by
  obtain ⟨all, -, h⟩ := bind_eq_ok.1 h
  cases h
  let le : LocalColumnChange → LocalColumnChange → Prop := fun c c' => compareHlcStrings c.hlcTimestamp c'.hlcTimestamp ≠ .gt
  have htot : Std.Total le := ⟨fun c c' => by
    simp only [le, compare_ne_gt_iff]; exact le_total _ _⟩
  have htr : IsTrans _ le := ⟨fun c c' c'' => by
    simp only [le, compare_ne_gt_iff]; exact le_trans⟩
  have hs : (all.insertionSort le).Pairwise le := List.pairwise_insertionSort le all
  exact hs.imp fun h => compare_ne_gt_iff.1 h

end

/-- `serde_json` on a key of one text column, and rows in the order they are stored. -/
def pkScanner : Scanner where
  toJson
    | [(c, .string s)] => "\x7b\"" ++ c ++ "\":\"" ++ s ++ "\"\x7d"
    | _ => ""
  encode _ := ""
  order := ⟨id, fun _ => .refl _⟩

end HaexVault.Space
