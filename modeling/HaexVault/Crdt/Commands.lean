import Mathlib.Data.List.Sort
import Mathlib.Data.List.Dedup
import HaexVault.Crdt.Hlc
import HaexVault.Crdt.Sql
/-!
# Applying remote changes (`crdt/commands.rs`)

`applyRemoteChangesToDb` as the source computes it; an `.error` is the rolled-back transaction.
Code outside the repository comes in through `Env` (`serde_json` on a row's primary keys,
Unicode's alphanumeric characters) and `Hashing` (the order in which a `HashMap` or `HashSet`
hands out its entries, any permutation).
-/

namespace HaexVault.Crdt

open HaexVault.Lib

structure RemoteColumnChange where
  tableName : String
  rowPks : String
  columnName : String
  hlcTimestamp : String
  decryptedValue : JsonValue
  deriving DecidableEq

abbrev RowPks := List (String × JsonValue)

structure Env where
  /-- `serde_json::from_str` of a JSON object. -/
  fromStr : String → Option RowPks
  /-- `char::is_alphanumeric`. -/
  isAlphanumeric : Char → Bool

structure HashOrder (α : Type) where
  iter : List α → List α
  perm : ∀ l, (iter l).Perm l

structure Hashing where
  groups : HashOrder (String × List RemoteColumnChange)
  rows : HashOrder ((String × String) × List RemoteColumnChange)
  ids : HashOrder String

inductive DatabaseError where
  | validation (reason : String)
  | serialization (reason : String)
  | execution (table reason : String)
  | sqlite (reason : String)
  | mutexPoisoned
  | connection (reason : String)
  deriving DecidableEq

structure ConflictEntry where
  tableName : String
  localRowId : List (String × SqlValue)
  remoteRowId : List (String × SqlValue)
  remoteRowData : List (String × SqlValue)
  remoteTimestamp : String
  conflictKey : String

structure Database where
  tables : String → Option Table
  /-- `haex_crdt_pending_columns_no_sync`. -/
  pendingColumns : List (String × String) := []
  /-- `haex_crdt_conflicts_no_sync`, the table the migrations create for conflict entries. -/
  conflicts : List ConflictEntry := []
  /-- The `triggers_enabled` entry of the CRDT configs. -/
  triggersEnabled : Option String := some "1"
  /-- `last_push_hlc_timestamp` of each row of `haex_sync_backends`, by its id. -/
  lastPushHlcTimestamp : String → Option (Option String) := fun _ => none

def Database.setTable (db : Database) (name : String) (t : Table) : Database :=
  { db with tables := Function.update db.tables name (some t) }

def isSafeIdentifier (env : Env) (name : String) : Bool :=
  name ≠ "" && name.toList.all fun c => env.isAlphanumeric c || c = '_' || c = '-'

/-! ## Grouping -/

/-- The entries of a `HashMap` filled by `entry(key x).or_default().push(x)`. -/
def hashGroups {α κ : Type} [DecidableEq κ] (key : α → κ) (l : List α) : List (κ × List α) :=
  (l.map key).dedup.map fun k => (k, l.filter fun x => key x = k)

/-- `group_by_transaction_hlc`. `sort_by` is stable, and so is the insertion sort. -/
def groupByTransactionHlc (hash : Hashing) (changes : List RemoteColumnChange) :
    List (String × List RemoteColumnChange) :=
  (hash.groups.iter (hashGroups (·.hlcTimestamp) changes)).insertionSort
    fun a b => compareHlcStrings a.1 b.1 ≠ .gt

def orderedChanges (hash : Hashing) (changes : List RemoteColumnChange) : List RemoteColumnChange :=
  (groupByTransactionHlc hash changes).flatMap (·.2)

/-- The comparator of `group_row_changes_in_hlc_order`; a missing minimum goes last. -/
def rowGroupLe (a b : (String × String) × List RemoteColumnChange) : Bool :=
  match hlcMin (a.2.map (·.hlcTimestamp)), hlcMin (b.2.map (·.hlcTimestamp)) with
  | some am, some bm => compareHlcStrings am bm ≠ .gt
  | some _, none => true
  | none, some _ => false
  | none, none => true

def groupRowChangesInHlcOrder (hash : Hashing) (changes : List RemoteColumnChange) :
    List ((String × String) × List RemoteColumnChange) :=
  (hash.rows.iter (hashGroups (fun c => (c.tableName, c.rowPks)) changes)).insertionSort
    fun a b => rowGroupLe a b = true

/-! ## One row -/

structure RowAcc where
  columnHlcs : ColumnHlcs
  columnsToUpdate : List (String × JsonValue × String)
  maxHlcForRow : String
  pending : List String

/-- One turn of `for change in &row_change_list`. -/
def stepChange (existingColumns : List String) (acc : RowAcc) (c : RemoteColumnChange) : RowAcc :=
  if c.columnName ∉ existingColumns then
    -- A column the local schema lacks: remember it, and its HLC as seen.
    { acc with
      pending := acc.pending ++ [c.columnName]
      columnHlcs := acc.columnHlcs.insert c.columnName c.hlcTimestamp }
  else if hlcIsNewer c.hlcTimestamp ((acc.columnHlcs.lookup c.columnName).getD "") then
    { acc with
      columnHlcs := acc.columnHlcs.insert c.columnName c.hlcTimestamp
      columnsToUpdate := acc.columnsToUpdate ++ [(c.columnName, c.decryptedValue, c.hlcTimestamp)]
      maxHlcForRow := if hlcIsNewer c.hlcTimestamp acc.maxHlcForRow then c.hlcTimestamp else acc.maxHlcForRow }
  else acc

/-- The whole loop, from the clocks of the stored row. `max_hlc_for_row` starts
at the first change's HLC. -/
def collectChanges (existingColumns : List String) (stored : ColumnHlcs) (changes : List RemoteColumnChange) : RowAcc :=
  changes.foldl (stepChange existingColumns) ⟨stored, [], (changes.head?.map (·.hlcTimestamp)).getD "", []⟩

/-- The primary key a `row_pks` names: `build_pk_where_clause` compares a missing
or null value with `IS NULL`, any other with `=`. -/
def pkKey (t : Table) (rowPks : RowPks) : List SqlValue :=
  t.pkNames.map fun c => ((rowPks.lookup c).map jsonToRusqliteValue).getD .null

def RowAcc.changed (acc : RowAcc) : List (String × SqlValue) :=
  acc.columnsToUpdate.map fun u => (u.1, jsonToRusqliteValue u.2.1)

def RowAcc.metadata (acc : RowAcc) : List (String × SqlValue) :=
  [(columnHlcsColumn, .hlcs acc.columnHlcs), (hlcTimestampColumn, .text acc.maxHlcForRow)]

/-- The column list of the generated `INSERT`. The key values are zipped with
the key columns after the missing ones have been dropped. -/
def insertPairs (t : Table) (rowPks : RowPks) (acc : RowAcc) : List (String × SqlValue) :=
  t.pkNames.zip ((t.pkNames.filterMap fun c => rowPks.lookup c).map jsonToRusqliteValue) ++
    acc.changed ++ acc.metadata

def ensureCrdtColumns (t : Table) : Table :=
  let t₁ := if hlcTimestampColumn ∈ t.columnNames then t else t.addColumn ⟨hlcTimestampColumn, false, false, .null⟩
  if columnHlcsColumn ∈ t.columnNames then t₁ else t₁.addColumn ⟨columnHlcsColumn, false, true, .hlcs ∅⟩

/-- `ensure_crdt_columns_and_triggers`; `false` when the triggers cannot be set
up for want of a primary key. The added columns stay either way. -/
def ensureCrdtColumnsAndTriggers (t : Table) : Table × Bool :=
  let t₁ := ensureCrdtColumns t
  if t.hasTriggers then (t₁, true)
  else if t.pkNames = [] then (t₁, false)
  else ({ t₁ with hasTriggers := true }, true)

def createConflictEntry (tableName : String) (t : Table) (columns : List String)
    (pairs : List (String × SqlValue)) (remoteTimestamp : String) : ConflictEntry where
  tableName
  localRowId := match t.rows with
    | [] => []
    | r :: _ => t.pkNames.filterMap fun c => match r c with
      | .text s => some (c, .text s)
      | _ => none
  -- The serialised map keeps the last value of a column named twice.
  remoteRowId := t.pkNames.filterMap fun c => (pairs.reverse.lookup c).map fun v => (c, v)
  remoteRowData := pairs
  remoteTimestamp
  conflictKey := ", ".intercalate (columns.map fun c => tableName ++ "." ++ c)

/-- The `INSERT` of `create_conflict_entry`. The table it names is not the one the
migrations create, so it fails. -/
def insertConflict (_ : Database) (_ : ConflictEntry) : Except DatabaseError Database :=
  .error (.sqlite "no such table: haex_crdt_conflicts")

def addPending (db : Database) (tableName : String) (columns : List String) : Database :=
  { db with
    pendingColumns := columns.foldl
      (fun l c => if (tableName, c) ∈ l then l else l ++ [(tableName, c)]) db.pendingColumns }

def notNullReason (changes : List RemoteColumnChange) : String :=
  "NOT NULL constraint failed. Received columns: [" ++
    ", ".intercalate (changes.map fun c => "\"" ++ c.columnName ++ "\"") ++
    "]. This indicates incomplete sync data - the server may not have all columns for this row."

/-- The generated `UPDATE` or `INSERT` of a row with changed columns. -/
def writeRow (db : Database) (name : String) (t : Table) (k : List SqlValue) (rowPks : RowPks)
    (rowExists : Bool) (acc : RowAcc) (changes : List RemoteColumnChange) : Except DatabaseError Database :=
  if rowExists then
    match t.update k (acc.changed ++ acc.metadata) with
    | .ok t' => .ok (db.setTable name t')
    | .error _ => .error (.sqlite "constraint failed")
  else
    match t.insert (insertPairs t rowPks acc) with
    | .ok t' => .ok (db.setTable name t')
    | .error (.notNull _) => .error (.execution name (notNullReason changes))
    -- a duplicate is to become a conflict entry, whose error is only logged, and the batch goes on
    | .error (.unique columns) =>
      let entry := createConflictEntry name t columns (insertPairs t rowPks acc) acc.maxHlcForRow
      match insertConflict db entry with
      | .ok db' => .ok db'
      | .error _ => .ok db
    | .error .check => .error (.sqlite "CHECK constraint failed")

def currentHlcs (r : Option Row) : Except DatabaseError ColumnHlcs :=
  match r with
  | none => .ok ∅
  | some r => match r columnHlcsColumn with
    | .hlcs m => .ok m
    -- a text that is no object of HLCs counts as an empty map
    | .text _ => .ok ∅
    | _ => .error (.sqlite "Invalid column type")

/-- One turn of the apply loop: all changes of one row. -/
def applyRow (env : Env) (db : Database) (group : (String × String) × List RemoteColumnChange) :
    Except DatabaseError Database := do
  let name := group.1.1
  match db.tables name with
  -- the extension that owns the table may not be installed here
  | none => .ok db
  | some t₀ =>
    let (t, upgraded) :=
      if columnHlcsColumn ∈ t₀.columnNames then (t₀, true) else ensureCrdtColumnsAndTriggers t₀
    let db := db.setTable name t
    if !upgraded then .ok db
    else match env.fromStr group.1.2 with
    | none => .error (.serialization "Failed to parse row PKs")
    | some rowPks =>
      if t₀.pkNames = [] then .error (.sqlite "incomplete input")
      else
        let k := pkKey t₀ rowPks
        let stored ← currentHlcs (t.find k)
        let acc := collectChanges t₀.columnNames stored group.2
        let db := addPending db name acc.pending
        -- the clocks gathered for unknown columns go too when nothing is written
        if acc.columnsToUpdate = [] then .ok db
        else writeRow db name t k rowPks (t.find k).isSome acc group.2

/-! ## Deletes -/

def shouldPropagateDelete (deleteLogHlc : String) (targetRowHlc : Option String) : Bool :=
  match targetRowHlc with
  | none => true
  | some target => compareHlcStrings target deleteLogHlc ≠ .gt

def buildPkWhereFromMap (env : Env) (rowPks : RowPks) : Option (List (String × SqlValue)) :=
  if rowPks = [] ∨ rowPks.any (fun p => !isSafeIdentifier env p.1) then none
  else some (rowPks.map fun p => (p.1, jsonToRusqliteValue p.2))

def whereMatches (cond : List (String × SqlValue)) (r : Row) : Bool := cond.all fun p => r p.1 = p.2

def asText : SqlValue → Option String
  | .text s => some s
  | _ => none

/-- The delete of one log entry, already read. -/
def propagateDelete (env : Env) (db : Database) (targetTable rowPksJson deleteHlc : String) : Database :=
  if !isSafeIdentifier env targetTable then db
  else match (env.fromStr rowPksJson).bind (buildPkWhereFromMap env), db.tables targetTable with
  | some cond, some t =>
    -- Naming a column the table lacks is an SQL error, which is only logged.
    if cond.any (fun p => p.1 ∉ t.columnNames) then db
    else
      let targetRowHlc :=
        if hlcTimestampColumn ∈ t.columnNames then
          (t.rows.find? (whereMatches cond)).bind fun r => asText (r hlcTimestampColumn)
        else none
      if shouldPropagateDelete deleteHlc targetRowHlc then db.setTable targetTable (t.delete (whereMatches cond))
      else db
  | _, _ => db

/-- One turn of `propagate_deleted_rows_to_target_tables`. -/
def propagateDeletedRow (env : Env) (db : Database) (id : String) : Except DatabaseError Database :=
  match db.tables deletedRowsTable with
  | none => .error (.sqlite "no such table: haex_deleted_rows")
  | some log => match log.rows.find? fun r => r "id" = .text id with
    | none => .ok db
    | some r => match asText (r "table_name"), asText (r "row_pks"), asText (r hlcTimestampColumn) with
      | some targetTable, some rowPksJson, some deleteHlc =>
        .ok (propagateDelete env db targetTable rowPksJson deleteHlc)
      | _, _, _ => .error (.sqlite "Invalid column type")

def deleteLogId (env : Env) (c : RemoteColumnChange) : Option String :=
  if c.tableName = deletedRowsTable then
    match (env.fromStr c.rowPks).bind (·.lookup "id") with
    | some (.string id) => some id
    | _ => none
  else none

/-- The `HashSet` of delete-log ids a batch carries. -/
def inboundDeleteLogIds (env : Env) (changes : List RemoteColumnChange) : List String :=
  (changes.filterMap (deleteLogId env)).dedup

/-! ## The whole batch -/

def validateChanges (env : Env) (changes : List RemoteColumnChange) : Except DatabaseError Unit :=
  changes.forM fun c =>
    if !isSafeIdentifier env c.tableName then
      .error (.validation ("Invalid table name '" ++ c.tableName ++ "' in remote change"))
    else if !isSafeIdentifier env c.columnName then
      .error (.validation ("Invalid column name '" ++ c.columnName ++ "' in table '" ++ c.tableName ++ "'"))
    else .ok ()

def applyRows (env : Env) (db : Database) (groups : List ((String × String) × List RemoteColumnChange)) :
    Except DatabaseError Database := groups.foldlM (applyRow env) db

def setPushCursor (db : Database) (backendInfo : Option (String × String)) : Database :=
  match backendInfo with
  | none => db
  | some (backendId, maxHlc) =>
    match db.lastPushHlcTimestamp backendId with
    | none => db
    | some _ => { db with lastPushHlcTimestamp := Function.update db.lastPushHlcTimestamp backendId (some (some maxHlc)) }

/-- The transaction of `apply_remote_changes_to_db`. -/
def applyRemoteChangesToDb (env : Env) (hash : Hashing) (db : Database) (changes : List RemoteColumnChange)
    (backendInfo : Option (String × String)) : Except DatabaseError Database := do
  let changes := orderedChanges hash changes
  validateChanges env changes
  -- with the triggers off, nothing that was pulled is marked dirty again
  let db := { db with triggersEnabled := some "0" }
  let db ← applyRows env db (groupRowChangesInHlcOrder hash changes)
  -- only the log entries of this batch are carried out
  let db ← (hash.ids.iter (inboundDeleteLogIds env changes)).foldlM (propagateDeletedRow env) db
  let db := setPushCursor db backendInfo
  .ok { db with triggersEnabled := some "1" }

def advanceHlc (hash : Hashing) (changes : List RemoteColumnChange) (backendInfo : Option (String × String)) : String :=
  match backendInfo with
  | some (_, hlc) => if hlc ≠ "" then hlc
    else (hlcMax ((orderedChanges hash changes).map (·.hlcTimestamp))).getD ""
  | none => (hlcMax ((orderedChanges hash changes).map (·.hlcTimestamp))).getD ""

end HaexVault.Crdt
