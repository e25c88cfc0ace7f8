import Mathlib.Algebra.Group.Int.Defs
import Mathlib.Data.List.Sort
import HaexVault.Crdt.Trigger
import HaexVault.Lib.Runs
import HaexVault.Lib.Steps
/-!
# Opening a vault (`database/mod.rs`, `database/init.rs`, `database/migrations.rs`)

The schema of a vault, its triggers and the rows that steer both. `create` runs the migrations and
then sets the triggers up; `open` sets the triggers up first, unless the stored version says that
this was done. A session is a sequence of transactions and may end after any of them.
-/

namespace HaexVault.Schema

open HaexVault.Crdt (hlcTimestampColumn columnHlcsColumn deletedRowsTable untrackedNames parseDigits Row ColumnHlcs
  insertedHlcs updatedHlcs)
open HaexVault.Lib.Runs HaexVault.Lib.Steps

/-! ## Tables and triggers -/

structure ColumnInfo where
  name : String
  isPk : Bool := false
  deriving DecidableEq

/-- A table of `sqlite_master`. `rows` are the two text columns of the bookkeeping tables:
key and value of a config, name of a migration. -/
structure TableInfo where
  name : String
  columns : List ColumnInfo
  rows : List (String × String) := []
  deriving DecidableEq

inductive TriggerKind where
  | insert | update | delete
  deriving DecidableEq

/-- A trigger: its name in the schema, the table it is on, the table name in its body, the
columns it stamps and the key it finds the row by. -/
structure Trigger where
  name : String
  table : String
  kind : TriggerKind
  marks : String
  colsToTrack : List String
  pks : List String
  deriving DecidableEq

structure Vault where
  tables : List TableInfo := []
  triggers : List Trigger := []

def configsTable : String := "haex_crdt_configs_no_sync"
def migrationsTable : String := "haex_crdt_migrations_no_sync"

inductive SetupError where
  | sqlite (reason : String)
  | hlcColumnMissing (tableName columnName : String)
  | primaryKeyMissing (tableName : String)
  deriving DecidableEq

namespace TableInfo

def columnNames (t : TableInfo) : List String := t.columns.map (·.name)

/-- The table syncs: it has a `haex_hlc` column. -/
def synced (t : TableInfo) : Bool := hlcTimestampColumn ∈ t.columnNames

def pks (t : TableInfo) : List String := (t.columns.filter (·.isPk)).map (·.name)

def colsToTrack (t : TableInfo) : List String :=
  (t.columns.filter fun c => !c.isPk && c.name ∉ untrackedNames).map (·.name)

end TableInfo

namespace Vault

def table (v : Vault) (name : String) : Option TableInfo := v.tables.find? fun t => t.name = name

def trigger (v : Vault) (name : String) : Option Trigger := v.triggers.find? fun g => g.name = name

def withRows (v : Vault) (name : String) (f : List (String × String) → List (String × String)) : Vault :=
  { v with tables := v.tables.map fun t => if t.name = name then { t with rows := f t.rows } else t }

/-- A value of `haex_crdt_configs`. -/
def config (v : Vault) (key : String) : Option String := (v.table configsTable).bind fun t => t.rows.lookup key

def setConfig (v : Vault) (key value : String) : Except SetupError Vault :=
  if (v.table configsTable).isSome then .ok (v.withRows configsTable fun rows => (key, value) :: rows.filter fun r => r.1 ≠ key)
  else .error (.sqlite ("no such table: " ++ configsTable))

end Vault

def TriggerKind.suffix : TriggerKind → String
  | .insert => "_insert"
  | .update => "_update"
  | .delete => "_delete"

/-- `INSERT_TRIGGER_TPL`, `UPDATE_TRIGGER_TPL` and `DELETE_TRIGGER_TPL`. -/
def triggerName (kind : TriggerKind) (table : String) : String := "z_dirty_" ++ table ++ kind.suffix

/-- `generate_insert_trigger_sql`, `generate_update_trigger_sql` and `generate_delete_trigger_sql`. -/
def generateTrigger (kind : TriggerKind) (t : TableInfo) : Trigger where
  name := triggerName kind t.name
  table := t.name
  kind := kind
  marks := t.name
  colsToTrack := if kind = .delete then [] else t.colsToTrack
  pks := t.pks

def triggerKinds (table : String) : List TriggerKind :=
  if table = deletedRowsTable then [.insert, .update] else [.insert, .update, .delete]

def isSafeIdentifier (name : String) : Bool :=
  name ≠ "" && name.toList.all fun c => c.isAlphanum || c = '_' || c = '-'

def createTrigger (v : Vault) (g : Trigger) : Vault :=
  if (v.trigger g.name).isSome then v else { v with triggers := v.triggers ++ [g] }

def dropTriggersForTable (v : Vault) (table : String) : Vault :=
  { v with triggers := v.triggers.filter fun g => ¬ g.name ∈ [TriggerKind.insert, .update, .delete].map fun k => triggerName k table }

def setupTriggersForTable (v : Vault) (name : String) (recreate : Bool) : Except SetupError Vault :=
  if !isSafeIdentifier name then .error (.sqlite ("Invalid or unsafe table name provided: " ++ name))
  else match v.table name with
    | none => .ok v
    | some t =>
      if t.columns = [] then .ok v
      else if !t.synced then .error (.hlcColumnMissing name hlcTimestampColumn)
      else if t.pks = [] then .error (.primaryKeyMissing name)
      else
        let v := if recreate then dropTriggersForTable v name else v
        .ok ((triggerKinds name).foldl (fun v k => createTrigger v (generateTrigger k t)) v)

/-! ## `ensure_triggers_initialized` -/

def triggerVersion : Int := 5

def parseVersion (s : String) : Int :=
  let n := match s.toList with
    | '-' :: ds => (parseDigits 10 ds).map fun n => -(n : Int)
    | '+' :: ds => (parseDigits 10 ds).map fun n => (n : Int)
    | ds => (parseDigits 10 ds).map fun n => (n : Int)
  (n.filter fun n => -(2 : Int) ^ 31 ≤ n ∧ n < 2 ^ 31).getD 1

def discoverCrdtTables (v : Vault) : List String :=
  ((v.tables.filter TableInfo.synced).map (·.name)).insertionSort fun a b => ¬ b < a

def Vault.upToDate (v : Vault) : Bool := ((v.config "trigger_version").map parseVersion).any fun n => triggerVersion ≤ n

def ensureTriggersInitialized (v : Vault) : Except SetupError Vault :=
  if v.upToDate then .ok v
  else do
    let needsUpdate := (v.config "trigger_version").isSome || (v.config "triggers_initialized").isSome
    let v' ← v.setConfig "triggers_enabled" "1"
    let v' ← (discoverCrdtTables v).foldlM (fun v name => setupTriggersForTable v name needsUpdate) v'
    v'.setConfig "trigger_version" (toString triggerVersion)

/-! ## Migrations -/

/-- A statement of a migration. A `CREATE TABLE` that `sqlparser` cannot read is run as it is. -/
inductive DdlStatement where
  | createTable (name : String) (columns : List ColumnInfo) (ifNotExists readable : Bool)
  | addColumn (table : String) (column : ColumnInfo)
  | dropTable (name : String)
  | renameTable (name newName : String)
  /-- `INSERT INTO into SELECT … FROM source`. -/
  | copyRows (into source : String)
  /-- Indexes, pragmas and triggers of other names. -/
  | other

structure Migration where
  name : String
  statements : List DdlStatement

/-- `str::ends_with` of the lower-case name. -/
def endsNoSync (name : String) : Bool := "_no_sync".toList.isSuffixOf (name.toList.map Char.toLower)

/-- `transform_ddl_statement` of a `CREATE TABLE`: the two CRDT columns stand last. -/
def transformColumns (name : String) (columns : List ColumnInfo) (readable : Bool) : List ColumnInfo :=
  if readable && !endsNoSync name then
    columns.filter (fun c => c.name ≠ hlcTimestampColumn ∧ c.name ≠ columnHlcsColumn) ++
      [⟨hlcTimestampColumn, false⟩, ⟨columnHlcsColumn, false⟩]
  else columns

/-- What SQLite does for a statement. Dropping a table drops its triggers; renaming it takes
them along, under their old names and with the old name in their bodies. -/
def applyStatement (v : Vault) : DdlStatement → Except SetupError Vault
  | .createTable name columns ifNotExists readable =>
    if (v.table name).isSome then
      if ifNotExists then .ok v else .error (.sqlite ("table " ++ name ++ " already exists"))
    else .ok { v with tables := v.tables ++ [⟨name, transformColumns name columns readable, []⟩] }
  | .addColumn table column =>
    match v.table table with
    | none => .error (.sqlite ("no such table: " ++ table))
    | some t =>
      if column.name ∈ t.columnNames || column.isPk then .error (.sqlite ("duplicate column name: " ++ column.name))
      else .ok { v with tables := v.tables.map fun t => if t.name = table then { t with columns := t.columns ++ [column] } else t }
  | .dropTable name =>
    if (v.table name).isNone then .error (.sqlite ("no such table: " ++ name))
    else .ok ⟨v.tables.filter fun t => t.name ≠ name, v.triggers.filter fun g => g.table ≠ name⟩
  | .renameTable name newName =>
    if (v.table name).isNone then .error (.sqlite ("no such table: " ++ name))
    else if (v.table newName).isSome then .error (.sqlite ("there is already another table or index with this name: " ++ newName))
    else .ok ⟨v.tables.map fun t => if t.name = name then { t with name := newName } else t,
      v.triggers.map fun g => if g.table = name then { g with table := newName } else g⟩
  | .copyRows into source =>
    match v.table into, v.table source with
    | some _, some s => .ok (v.withRows into fun rows => rows ++ s.rows)
    | _, _ => .error (.sqlite "no such table")
  | .other => .ok v

/-- `apply_single_migration`, one transaction: the statements, then the record of it. -/
def applySingleMigration (v : Vault) (m : Migration) : Except SetupError Vault := do
  let v ← m.statements.foldlM applyStatement v
  ensure (v.table migrationsTable).isSome (.sqlite ("no such table: " ++ migrationsTable))
  .ok (v.withRows migrationsTable fun rows => rows ++ [(m.name, "")])

/-- `get_unapplied_migrations_internal`. -/
def unappliedMigrations (v : Vault) (journal : List Migration) : List Migration :=
  journal.filter fun m => m.name ∉ ((v.table migrationsTable).map fun t => t.rows.map Prod.fst).getD []

/-! ## Sessions -/

/-- The transactions of a session one after the other, for as long as the process lives and
none fails: what is on disk then, and whether all were made. -/
def session : List (Vault → Except SetupError Vault) → Nat → Vault → Vault × Bool
  | [], _, v => (v, true)
  | _ :: _, 0, v => (v, false)
  | tx :: txs, n + 1, v =>
    match tx v with
    | .error _ => (v, false)
    | .ok v' => session txs n v'

def applyCoreMigrations (v : Vault) (journal : List Migration) : List (Vault → Except SetupError Vault) :=
  (unappliedMigrations v journal).map fun m v => applySingleMigration v m

/-- The flag `initialize_session_post_migration` sets once the triggers stand. -/
def markInitialized (v : Vault) : Except SetupError Vault := v.setConfig "triggers_initialized" "1"

def createEncryptedDatabase (journal : List Migration) (lives : Nat) : Vault × Bool :=
  session (applyCoreMigrations {} journal ++ [ensureTriggersInitialized, markInitialized]) lives {}

/-- `open_encrypted_database`: `initialize_session`, then the migrations. -/
def openEncryptedDatabase (v : Vault) (journal : List Migration) (lives : Nat) : Vault × Bool :=
  match session [ensureTriggersInitialized] lives v with
  | (v, false) => (v, false)
  | (v, true) => session (applyCoreMigrations v journal) (lives - 1) v

inductive Event where
  | create (journal : List Migration) (lives : Nat)
  | open_ (journal : List Migration) (lives : Nat)

def step : Option Vault → Event → Option Vault
  | none, .create journal lives => some (createEncryptedDatabase journal lives).1
  | some v, .create _ _ => some v
  | none, .open_ _ _ => none
  | some v, .open_ journal lives => some (openEncryptedDatabase v journal lives).1

end HaexVault.Schema
