import Mathlib.Data.List.Find
import Mathlib.Data.List.Forall2
import HaexVault.Crdt.Sql
import HaexVault.Extension.Permissions
import HaexVault.Lib.Keyed
import HaexVault.Lib.Steps
/-!
# Migrations that rebuild a table (`database/migrations.rs`, `crdt/transformer/mod.rs`)

Drizzle changes a table by copying it: create `__new_t`, copy the listed columns, drop `t`, rename.
Foreign keys stay on inside a transaction, so `DROP TABLE` acts on every row that references `t`; and
`__new_t` gets clock columns that the copy does not fill (`rebuild_preserves_iff`).
-/

namespace HaexVault.Schema.TableRebuild

open HaexVault.Crdt (SqlValue Row hlcTimestampColumn columnHlcsColumn deletedRowsTable)
open HaexVault.Extension (trimMatches)
open HaexVault.Lib HaexVault.Lib.Steps

/-! ## The names of synced tables -/

inductive ObjectNamePart where
  | identifier (value : String)
  | function (name : String)
  deriving DecidableEq

abbrev ObjectName := List ObjectNamePart

def foldCase (s : String) : List Char := s.toList.map Char.toLower

def normalizeTableName (name : ObjectName) : List Char :=
  let tableName :=
    match name.getLast? with
    | some (.identifier value) => value
    | some (.function name) => name
    | none => ""
  trimMatches '"' (trimMatches '`' (foldCase tableName))

/-- `is_crdt_sync_table`. No character outside ASCII has a letter of the suffix as its lower case. -/
def isCrdtSyncTable (name : ObjectName) : Bool := !"_no_sync".toList.isSuffixOf (normalizeTableName name)

/-! ## The database -/

structure ColumnDef where
  name : String
  dataType : String
  dflt : SqlValue := .null

inductive ForeignKeyAction where
  | noAction
  | restrict
  | cascade
  | setNull
  | setDefault
  deriving DecidableEq

structure ForeignKey where
  columns : List String
  parent : String
  parentColumns : List String
  onDelete : ForeignKeyAction

structure Table where
  name : String
  columns : List ColumnDef
  foreignKeys : List ForeignKey := []
  /-- It has the delete trigger of `setup_triggers_for_table`. -/
  deleteTrigger : Bool := false
  rows : List Row := []

structure Database where
  tables : List Table
  foreignKeysOn : Bool
  inTransaction : Bool := false
  /-- The config `triggers_enabled`. -/
  triggersEnabled : Bool := true

def dirtyTablesTable : String := "haex_crdt_dirty_tables_no_sync"
def migrationsTable : String := "haex_crdt_migrations_no_sync"

def clockColumns : List String := [hlcTimestampColumn, columnHlcsColumn]

def ForeignKey.References (fk : ForeignKey) (child parent : Row) : Prop :=
  fk.columns ≠ [] ∧ (∀ c ∈ fk.columns, child c ≠ .null) ∧ fk.columns.map child = fk.parentColumns.map parent

instance (fk : ForeignKey) (child parent : Row) : Decidable (fk.References child parent) :=
  inferInstanceAs (Decidable (_ ∧ _ ∧ _))

namespace Database

variable (db : Database)

def table (name : String) : Option Table := Keyed.get Table.name db.tables name

def rows (name : String) : List Row := ((db.table name).map Table.rows).getD []

def modifyTable (name : String) (f : Table → Table) : Database := { db with tables := Keyed.modify Table.name db.tables name f }

end Database

/-! ## What SQLite does -/

/-- What comes from outside: the values SQLite stores in a column of a type, the constraints it checks, the rows that the
delete trigger and the migration runner write with their uuids and times. -/
structure Sqlite where
  affinity : String → SqlValue → SqlValue
  affinity_null : ∀ dataType, affinity dataType .null = .null
  affinity_idem : ∀ dataType v, affinity dataType (affinity dataType v) = affinity dataType v
  /-- A statement may lead from one to the other: no other constraint is violated, no name is taken. -/
  admits : Database → Database → Bool
  deletedRow : String → Row → Row
  /-- `INSERT OR REPLACE INTO haex_crdt_dirty_tables_no_sync`. -/
  markDirty : List Row → List Row
  migrationRow : Row

namespace Sqlite

variable (sq : Sqlite)

def store (columns : List ColumnDef) (c : String) (v : SqlValue) : SqlValue :=
  sq.affinity (((Keyed.get ColumnDef.name columns c).map ColumnDef.dataType).getD "") v

def columnDefault (columns : List ColumnDef) (c : String) : SqlValue :=
  sq.store columns c (((Keyed.get ColumnDef.name columns c).map ColumnDef.dflt).getD .null)

/-- `INSERT INTO new(listed) SELECT listed FROM source`, on one row. A quoted name of no column is a text. -/
def copy (columns : List ColumnDef) (listed : List String) (source : List ColumnDef) (r : Row) : Row := fun c =>
  if c ∈ listed then sq.store columns c (if (Keyed.get ColumnDef.name source c).isSome then r c else .text c)
  else sq.columnDefault columns c

end Sqlite

/-- References to the table follow its name. -/
def Table.rename (name newName : String) (t : Table) : Table :=
  let renamed (s : String) : String := if s = name then newName else s
  { t with
    name := renamed t.name
    foreignKeys := t.foreignKeys.map fun fk => { fk with parent := renamed fk.parent } }

namespace Database

variable (db : Database)

/-- The row goes with the rows of the dropped table: it is one of them, or a key with `CASCADE` references one that goes. -/
def deleted (dropped : String) : Nat → String → Row → Bool
  | 0, name, _ => name = dropped
  | n + 1, name, r => name = dropped || db.tables.any fun t => t.name = name && t.foreignKeys.any fun fk =>
      fk.onDelete = .cascade && (db.rows fk.parent).any fun p => deleted dropped n fk.parent p && fk.References r p

def goes (dropped : String) : String → Row → Bool := db.deleted dropped (db.tables.flatMap Table.rows).length

def loses (dropped : String) (fk : ForeignKey) (r : Row) : Bool :=
  (db.rows fk.parent).any fun p => db.goes dropped fk.parent p && fk.References r p

def release (sq : Sqlite) (dropped : String) (t : Table) (r : Row) : Row := fun c =>
  if t.foreignKeys.any fun fk => fk.onDelete = .setNull && c ∈ fk.columns && db.loses dropped fk r then .null
  else if t.foreignKeys.any fun fk => fk.onDelete = .setDefault && c ∈ fk.columns && db.loses dropped fk r then
    sq.columnDefault t.columns c
  else r c

def survivors (sq : Sqlite) (dropped : String) (t : Table) : List Row :=
  (t.rows.filter fun r => !db.goes dropped t.name r).map (db.release sq dropped t)

def kept (dropped : String) : List Table := db.tables.filter fun t => t.name ≠ dropped

def deleteLog (sq : Sqlite) (dropped : String) : List Row :=
  (db.kept dropped).flatMap fun t =>
    if t.deleteTrigger && db.triggersEnabled then (t.rows.filter (db.goes dropped t.name)).map (sq.deletedRow t.name) else []

def afterDeletes (sq : Sqlite) (dropped : String) (t : Table) : Table :=
  let rows := db.survivors sq dropped t
  if (db.deleteLog sq dropped).isEmpty then { t with rows }
  else if t.name = deletedRowsTable then { t with rows := rows ++ db.deleteLog sq dropped }
  else if t.name = dirtyTablesTable then { t with rows := sq.markDirty rows }
  else { t with rows }

def violates (sq : Sqlite) (dropped : String) : Bool :=
  (db.kept dropped).any fun t => (db.survivors sq dropped t).any fun r => t.foreignKeys.any fun fk => db.loses dropped fk r

def dropTable (sq : Sqlite) (name : String) : Except Unit Database :=
  if (db.table name).isNone then .error ()
  else if db.foreignKeysOn then
    if db.violates sq name then .error () else .ok { db with tables := (db.kept name).map (db.afterDeletes sq name) }
  else .ok { db with tables := db.kept name }

def renameTable (name newName : String) : Except Unit Database :=
  if (db.table name).isNone || (db.table newName).isSome then .error ()
  else .ok { db with tables := db.tables.map (Table.rename name newName) }

end Database

inductive Statement where
  | pragmaForeignKeys (on : Bool)
  | createTable (name : String) (columns : List ColumnDef) (foreignKeys : List ForeignKey)
  | insertSelect (into : String) (listed : List String) (source : String)
  | dropTable (name : String)
  | renameTable (name newName : String)
  | createIndex (name : String) (table : String)

def addToTableDefinition (columns : List ColumnDef) : List ColumnDef :=
  (columns.filter fun c => c.name ≠ hlcTimestampColumn ∧ c.name ≠ columnHlcsColumn) ++
    [{ name := hlcTimestampColumn, dataType := "STRING" }, { name := columnHlcsColumn, dataType := "STRING" }]

def createdColumns (name : String) (columns : List ColumnDef) : List ColumnDef :=
  if isCrdtSyncTable [.identifier name] then addToTableDefinition columns else columns

def transformDdlStatement : Statement → Statement
  | .createTable name columns foreignKeys => .createTable name (createdColumns name columns) foreignKeys
  | s => s

def execute (sq : Sqlite) (db : Database) : Statement → Except Unit Database
  | .pragmaForeignKeys on => .ok (if db.inTransaction then db else { db with foreignKeysOn := on })
  | .createTable name columns foreignKeys =>
    if (db.table name).isSome then .error ()
    else .ok { db with tables := db.tables ++ [{ name, columns, foreignKeys }] }
  | .insertSelect into listed source =>
    match db.table into, db.table source with
    | some t, some from' =>
      let copies := from'.rows.map (sq.copy t.columns listed from'.columns)
      .ok (db.modifyTable into fun t' => { t' with rows := t'.rows ++ copies })
    | _, _ => .error ()
  | .dropTable name => db.dropTable sq name
  | .renameTable name newName => db.renameTable name newName
  | .createIndex _ table => if (db.table table).isNone then .error () else .ok db

def executeChecked (sq : Sqlite) (db : Database) (s : Statement) : Except Unit Database := do
  let db' ← execute sq db s
  if sq.admits db db' then pure db' else throw ()

/-! ## The runner -/

/-- `apply_single_migration`; an error leaves the database as it was. -/
def applySingleMigration (sq : Sqlite) (db : Database) (statements : List Statement) : Except Unit Database := do
  let tx ← statements.foldlM (fun db s => executeChecked sq db (transformDdlStatement s)) { db with inTransaction := true }
  if (tx.table migrationsTable).isNone then throw ()
  let recorded := tx.modifyTable migrationsTable fun t => { t with rows := t.rows ++ [sq.migrationRow] }
  if sq.admits tx recorded then pure { recorded with inTransaction := false } else throw ()

/-- A migration in Drizzle's rebuild form: the definition that the table gets and the columns that are copied. -/
structure Rebuild where
  table : String
  columns : List ColumnDef
  foreignKeys : List ForeignKey
  listed : List String
  indexes : List String

namespace Rebuild

variable (m : Rebuild)

def newName : String := "__new_" ++ m.table

def statements : List Statement :=
  [.pragmaForeignKeys false, .createTable m.newName m.columns m.foreignKeys, .insertSelect m.newName m.listed m.table,
    .dropTable m.table, .renameTable m.newName m.table, .pragmaForeignKeys true] ++ m.indexes.map (.createIndex · m.table)

def newColumns : List ColumnDef := createdColumns m.newName m.columns

def Kept (c : String) : Prop := c ∈ m.listed ∨ c ∈ clockColumns

structure Form (db : Database) : Prop where
  listed : ∀ t, db.table m.table = some t → ∀ c ∈ m.listed, (Keyed.get ColumnDef.name t.columns c).isSome
  keys : ∀ fk ∈ m.foreignKeys, ∀ c ∈ fk.columns, c ∉ clockColumns

/-- A row of the table as it is copied. -/
def copy (sq : Sqlite) (r : Row) : Row := fun c =>
  if c ∈ m.listed then sq.store m.newColumns c (r c) else sq.columnDefault m.newColumns c

end Rebuild

/-! ## What is promised -/

def Sqlite.recordOf (sq : Sqlite) (name : String) : List Row := if name = migrationsTable then [sq.migrationRow] else []

/-- The table has its rows with their listed and clock columns, and all other tables are as they were; the runner's own
record is apart. -/
structure Preserved (sq : Sqlite) (m : Rebuild) (db db' : Database) : Prop where
  table : ∃ rows, db'.rows m.table = rows ++ sq.recordOf m.table ∧
    List.Forall₂ (fun r r' => ∀ c, m.Kept c → r' c = r c) (db.rows m.table) rows
  others : ∀ name, name ≠ m.table → db'.rows name = db.rows name ++ sq.recordOf name

def ForeignKey.Spares (fk : ForeignKey) (sq : Sqlite) (columns : List ColumnDef) (kept : String → Prop) (r : Row) : Prop :=
  match fk.onDelete with
  | .cascade => False
  | .setNull => ∀ c ∈ fk.columns, ¬ kept c
  | .setDefault => ∀ c ∈ fk.columns, kept c → sq.columnDefault columns c = r c
  | .noAction | .restrict => True

/-- Nothing is lost: every listed value can be stored in its new column, a clock that is not listed has the value of a new
row, and where a row of another table or a copy references a row of the table, the action of the key spares it. -/
structure Lossless (sq : Sqlite) (m : Rebuild) (db : Database) : Prop where
  listed : ∀ r ∈ db.rows m.table, ∀ c ∈ m.listed, sq.store m.newColumns c (r c) = r c
  clocks : ∀ r ∈ db.rows m.table, ∀ c ∈ clockColumns, c ∉ m.listed → sq.columnDefault m.newColumns c = r c
  others : ∀ t ∈ db.tables, t.name ≠ m.table → ∀ fk ∈ t.foreignKeys, fk.parent = m.table →
    ∀ r ∈ t.rows, ∀ p ∈ db.rows m.table, fk.References r p → fk.Spares sq t.columns (fun _ => True) r
  copies : ∀ fk ∈ m.foreignKeys, fk.parent = m.table → ∀ r ∈ db.rows m.table, ∀ p ∈ db.rows m.table,
    fk.References (m.copy sq r) p → fk.Spares sq m.newColumns m.Kept (m.copy sq r)

/-- Tables have different names, and the delete log and the list of dirty tables have no delete trigger. -/
structure Database.WellFormed (db : Database) : Prop where
  names : (db.tables.map Table.name).Nodup
  unlogged : ∀ t ∈ db.tables, t.deleteTrigger = true → t.name ≠ deletedRowsTable ∧ t.name ≠ dirtyTablesTable


/-! ## The run of a rebuild -/

variable {sq : Sqlite} {m : Rebuild} {db db' : Database}

theorem newName_ne (m : Rebuild) : m.newName ≠ m.table := by
  intro h
  have hlength := congrArg String.length h
  rw [Rebuild.newName, String.length_append] at hlength
  exact absurd hlength (Nat.ne_of_gt (Nat.lt_add_of_pos_left (by decide)))

def Rebuild.emptyTable (m : Rebuild) : Table := { name := m.newName, columns := m.newColumns, foreignKeys := m.foreignKeys }

def Rebuild.newTable (m : Rebuild) (sq : Sqlite) (db : Database) : Table :=
  { m.emptyTable with rows := (db.rows m.table).map (m.copy sq) }

def Rebuild.copied (m : Rebuild) (sq : Sqlite) (db : Database) : Database := { db with tables := db.tables ++ [m.newTable sq db] }

theorem table_append_self {t : Table} (hnone : db.table t.name = none) :
    ({ db with tables := db.tables ++ [t] } : Database).table t.name = some t := by
  have hget := Keyed.get_append db.tables t t.name hnone
  rw [if_pos rfl] at hget
  exact hget

theorem executeChecked_ok {s : Statement} (h : executeChecked sq db s = .ok db') : execute sq db s = .ok db' := by
  obtain ⟨next, hnext, hrest⟩ := bind_eq_ok.1 h
  split at hrest
  · obtain rfl := Except.ok.inj hrest
    exact hnext
  · cases hrest

theorem foldlM_indexes {table : String} {names : List String}
    (h : (names.map (Statement.createIndex · table)).foldlM (fun db s => executeChecked sq db (transformDdlStatement s)) db =
      .ok db') : db' = db := by
  induction names generalizing db with
  | nil => exact (Except.ok.inj h).symm
  | cons name names ih =>
    obtain ⟨next, hnext, hrest⟩ := bind_eq_ok.1 h
    have hstep : execute sq db (.createIndex name table) = .ok next := executeChecked_ok hnext
    rw [execute] at hstep
    split at hstep
    · cases hstep
    · obtain rfl := Except.ok.inj hstep
      exact ih hrest

theorem modifyTable_append {name : String} {t : Table} (hnone : db.table name = none) (hname : t.name = name)
    (f : Table → Table) :
    ({ db with tables := db.tables ++ [t] } : Database).modifyTable name f = { db with tables := db.tables ++ [f t] } := by
  have hsame : db.tables.map (fun u => if u.name = name then f u else u) = db.tables :=
    (List.map_congr_left fun u hu => if_neg (Keyed.get_eq_none.1 hnone u hu)).trans (List.map_id _)
  rw [Database.modifyTable, Keyed.modify, List.map_append, hsame]
  simp [hname]

theorem table_append {t : Table} {name : String} (h : name ≠ t.name) :
    ({ db with tables := db.tables ++ [t] } : Database).table name = db.table name := by
  unfold Database.table Keyed.get
  rw [List.find?_append, List.find?_singleton, if_neg (by simpa using Ne.symm h)]
  cases db.tables.find? fun u => u.name = name <;> rfl

theorem dropTable_inTransaction {name : String} (h : db.dropTable sq name = .ok db') : db'.inTransaction = db.inTransaction := by
  unfold Database.dropTable at h
  split at h
  · cases h
  · split at h
    · split at h
      · cases h
      · obtain rfl := Except.ok.inj h
        rfl
    · obtain rfl := Except.ok.inj h
      rfl

theorem renameTable_ok {name newName : String} (h : db.renameTable name newName = .ok db') :
    (db.table newName).isSome = false ∧ db' = { db with tables := db.tables.map (Table.rename name newName) } := by
  unfold Database.renameTable at h
  split at h
  · cases h
  · rename_i hnone
    rw [Bool.or_eq_true, not_or] at hnone
    exact ⟨Bool.of_not_eq_true hnone.2, (Except.ok.inj h).symm⟩

theorem insert_ok (hform : m.Form db) (hnone : db.table m.emptyTable.name = none)
    (h : execute sq { db with tables := db.tables ++ [m.emptyTable] } (.insertSelect m.emptyTable.name m.listed m.table) =
      .ok db') : db' = m.copied sq db := by
  have hne : m.table ≠ m.emptyTable.name := (newName_ne m).symm
  cases hold : db.table m.table with
  | none =>
    rw [execute, table_append_self hnone, table_append hne, hold] at h
    cases h
  | some source =>
    rw [execute, table_append_self hnone, table_append hne, hold] at h
    have h := Except.ok.inj h
    rw [← h]
    have hrows : db.rows m.table = source.rows := by rw [Database.rows, hold]; rfl
    have hcopy : ∀ r, sq.copy m.emptyTable.columns m.listed source.columns r = m.copy sq r := by
      intro r
      funext c
      have hcolumns : m.emptyTable.columns = m.newColumns := by rw [Rebuild.emptyTable]
      unfold Sqlite.copy Rebuild.copy
      rw [hcolumns]
      by_cases hc : c ∈ m.listed
      · simp only [if_pos hc, if_pos (hform.listed source hold c hc)]
      · simp only [if_neg hc]
    rw [modifyTable_append hnone rfl, Rebuild.copied, Rebuild.newTable, hrows, ← List.map_congr_left fun r _ => hcopy r]
    simp only [Rebuild.emptyTable, List.nil_append]

theorem statements_ok (hform : m.Form db) (hin : db.inTransaction = true)
    (h : m.statements.foldlM (fun db s => executeChecked sq db (transformDdlStatement s)) db = .ok db') :
    db.table m.newName = none ∧
      ∃ dropped, (m.copied sq db).dropTable sq m.table = .ok dropped ∧ dropped.renameTable m.newName m.table = .ok db' := by
  simp only [Rebuild.statements, List.cons_append, List.nil_append, List.foldlM_cons] at h
  obtain ⟨d₁, h₁, h⟩ := bind_eq_ok.1 h
  obtain ⟨d₂, h₂, h⟩ := bind_eq_ok.1 h
  obtain ⟨d₃, h₃, h⟩ := bind_eq_ok.1 h
  obtain ⟨d₄, h₄, h⟩ := bind_eq_ok.1 h
  obtain ⟨d₅, h₅, h⟩ := bind_eq_ok.1 h
  obtain ⟨d₆, h₆, h⟩ := bind_eq_ok.1 h
  -- the pragmas are without effect in the transaction
  have hpragma : execute sq db (.pragmaForeignKeys false) = .ok d₁ := executeChecked_ok h₁
  rw [execute, if_pos hin] at hpragma
  obtain rfl := Except.ok.inj hpragma
  have hcreate : execute sq db (.createTable m.newName m.newColumns m.foreignKeys) = .ok d₂ := executeChecked_ok h₂
  rw [execute] at hcreate
  split at hcreate
  · cases hcreate
  · rename_i hsome
    have hnone : db.table m.newName = none := Option.not_isSome_iff_eq_none.1 hsome
    obtain rfl := Except.ok.inj hcreate
    obtain rfl := insert_ok hform hnone (executeChecked_ok h₃)
    have hdrop : (m.copied sq db).dropTable sq m.table = .ok d₄ := executeChecked_ok h₄
    have hrename : d₄.renameTable m.newName m.table = .ok d₅ := executeChecked_ok h₅
    have hstill : d₅.inTransaction = true := by
      rw [(renameTable_ok hrename).2]
      exact (dropTable_inTransaction hdrop).trans hin
    have hpragma : execute sq d₅ (.pragmaForeignKeys true) = .ok d₆ := executeChecked_ok h₆
    rw [execute, if_pos hstill] at hpragma
    obtain rfl := Except.ok.inj hpragma
    obtain rfl := foldlM_indexes h
    exact ⟨hnone, d₄, hdrop, hrename⟩

/-! ## Rows after a drop and a rename -/

theorem mem_rows {name : String} {r : Row} : r ∈ db.rows name ↔ ∃ t, db.table name = some t ∧ r ∈ t.rows := by
  unfold Database.rows
  cases db.table name with
  | none => simp
  | some t => simp

theorem rows_of_mem (hnames : (db.tables.map Table.name).Nodup) {t : Table} (ht : t ∈ db.tables) : db.rows t.name = t.rows := by
  have htable : db.table t.name = some t := Keyed.get_of_mem hnames ht
  rw [Database.rows, htable]
  rfl

theorem rename_rows {name newName : String} (hne : name ≠ newName) (h : db.renameTable name newName = .ok db') :
    db'.rows newName = db.rows name ∧ db'.rows name = [] ∧
      ∀ other, other ≠ name → other ≠ newName → db'.rows other = db.rows other := by
  obtain ⟨hnone, rfl⟩ := renameTable_ok h
  have hfree : ∀ t ∈ db.tables, t.name ≠ newName :=
    Keyed.get_eq_none.1 (Option.not_isSome_iff_eq_none.1 (Bool.eq_false_iff.1 hnone))
  have hfind : ∀ (p : Table → Bool) (u : String), (∀ t ∈ db.tables, decide ((t.rename name newName).name = u) = p t) →
      Database.rows { db with tables := db.tables.map (Table.rename name newName) } u =
        ((db.tables.find? p).map Table.rows).getD [] := by
    intro p u hp
    unfold Database.rows Database.table Keyed.get
    rw [List.find?_map, Option.map_map]
    exact congrArg (fun o : Option Table => (o.map Table.rows).getD []) (List.find?_congr hp)
  refine ⟨hfind (fun t => t.name = name) newName fun t ht => ?_, ?_, fun other hother hother' =>
    hfind (fun t => t.name = other) other fun t _ => ?_⟩
  · by_cases hn : t.name = name
    · simp [Table.rename, hn]
    · simp [Table.rename, hn, hfree t ht]
  · rw [hfind (fun _ => false) name fun t _ => ?_, List.find?_eq_none.2 fun _ _ => Bool.false_ne_true]
    · rfl
    · by_cases hn : t.name = name
      · simp [Table.rename, hn, hne.symm]
      · simp [Table.rename, hn]
  · by_cases hn : t.name = name
    · simp [Table.rename, hn, hother.symm, hother'.symm]
    · simp [Table.rename, hn]

theorem afterDeletes_name (dropped : String) (t : Table) : (db.afterDeletes sq dropped t).name = t.name := by
  unfold Database.afterDeletes
  dsimp only
  split
  · rfl
  · split
    · rfl
    · split <;> rfl

theorem dropTable_rows {name : String} (hon : db.foreignKeysOn = true) (h : db.dropTable sq name = .ok db') {u : String}
    (hu : u ≠ name) : db'.rows u = ((db.table u).map fun t => (db.afterDeletes sq name t).rows).getD [] := by
  unfold Database.dropTable at h
  rw [hon] at h
  split at h
  · cases h
  · rw [if_pos rfl] at h
    split at h
    · cases h
    · obtain rfl := Except.ok.inj h
      unfold Database.rows Database.table Keyed.get Database.kept
      rw [List.find?_map, List.find?_filter, Option.map_map]
      congr 2
      refine List.find?_congr fun t _ => ?_
      rw [Function.comp, afterDeletes_name]
      by_cases ht : t.name = u
      · simp [ht, hu]
      · simp [ht]

theorem modifyTable_rows {name : String} {rows : List Row} (hsome : (db.table name).isSome = true) (u : String) :
    (db.modifyTable name fun t => { t with rows := t.rows ++ rows }).rows u = db.rows u ++ if u = name then rows else [] := by
  unfold Database.rows Database.table Database.modifyTable
  have hget := Keyed.get_modify db.tables name u (fun t => { t with rows := t.rows ++ rows })
    (fun (t : Table) (ht : t.name = name) => ht)
  rw [hget]
  by_cases hu : u = name
  · subst hu
    obtain ⟨t, ht⟩ := Option.isSome_iff_exists.1 hsome
    have ht : Keyed.get Table.name db.tables u = some t := ht
    simp [ht]
  · simp [hu]

def Rebuild.atDrop (m : Rebuild) (sq : Sqlite) (db : Database) : Database := m.copied sq { db with inTransaction := true }

theorem applySingleMigration_rows (hon : db.foreignKeysOn = true) (hform : m.Form db)
    (h : applySingleMigration sq db m.statements = .ok db') : db.table m.newName = none ∧
      db'.rows m.table = ((m.atDrop sq db).afterDeletes sq m.table (m.newTable sq db)).rows ++ sq.recordOf m.table ∧
      ∀ u, u ≠ m.table →
        db'.rows u = ((db.table u).map fun t => ((m.atDrop sq db).afterDeletes sq m.table t).rows).getD [] ++ sq.recordOf u := by
  obtain ⟨tx, htx, hrest⟩ := bind_eq_ok.1 h
  have hform' : m.Form { db with inTransaction := true } := ⟨hform.listed, hform.keys⟩
  have hon' : (m.atDrop sq db).foreignKeysOn = true := hon
  obtain ⟨hnone, dropped, hdrop, hrename⟩ := statements_ok hform' rfl htx
  obtain ⟨hnew, hgone, hothers⟩ := rename_rows (newName_ne m) hrename
  have hdropped : ∀ {u}, u ≠ m.table → dropped.rows u =
      (((m.atDrop sq db).table u).map fun t => ((m.atDrop sq db).afterDeletes sq m.table t).rows).getD [] :=
    fun hu => dropTable_rows hon' hdrop hu
  have hrows : ∀ u, db'.rows u = tx.rows u ++ sq.recordOf u := by
    intro u
    split at hrest
    · cases hrest
    · rename_i hsome
      dsimp only at hrest
      split at hrest
      · obtain rfl := Except.ok.inj hrest
        exact modifyTable_rows (Bool.of_not_eq_false fun hf => hsome (by simpa using hf)) u
      · cases hrest
  refine ⟨hnone, ?_, fun u hu => ?_⟩
  · have htable : (m.atDrop sq db).table m.newName = some (m.newTable sq db) := table_append_self hnone
    rw [hrows, hnew, hdropped (newName_ne m), htable]
    rfl
  · rw [hrows]
    congr 1
    by_cases hun : u = m.newName
    · subst hun
      rw [hgone, show db.table m.newName = none from hnone]
      rfl
    · have htable : (m.atDrop sq db).table u = db.table u := table_append hun
      rw [hothers u hun hu, hdropped hu, htable]

/-! ## What a drop does to the other tables -/

def Database.Quiet (db : Database) (dropped : String) : Prop :=
  ∀ t ∈ db.tables, t.name ≠ dropped → ∀ r ∈ t.rows, db.goes dropped t.name r = false

variable {dropped : String}

theorem goes_dropped (db : Database) (dropped : String) (r : Row) : db.goes dropped dropped r = true := by
  unfold Database.goes
  cases (db.tables.flatMap Table.rows).length with
  | zero => exact decide_eq_true rfl
  | succ n =>
    rw [Database.deleted, decide_eq_true rfl, Bool.true_or]

theorem goes_of_cascade {t : Table} (ht : t ∈ db.tables) {fk : ForeignKey} (hfk : fk ∈ t.foreignKeys)
    (hcascade : fk.onDelete = .cascade) (hparent : fk.parent = dropped) {r p : Row} (hp : p ∈ db.rows dropped)
    (hrefs : fk.References r p) : db.goes dropped t.name r = true := by
  have hgoes := goes_dropped db dropped p
  unfold Database.goes at hgoes ⊢
  cases hcount : (db.tables.flatMap Table.rows).length with
  | zero =>
    obtain ⟨u, hu, hpu⟩ := mem_rows.1 hp
    have hmem : p ∈ db.tables.flatMap Table.rows := List.mem_flatMap.2 ⟨u, Keyed.get_mem hu, hpu⟩
    rw [List.eq_nil_of_length_eq_zero hcount] at hmem
    cases hmem
  | succ n =>
    have hstart : ∀ n, db.deleted dropped n dropped p = true := fun n => by cases n <;> simp [Database.deleted]
    rw [Database.deleted, Bool.or_eq_true]
    refine .inr (List.any_eq_true.2 ⟨t, ht, ?_⟩)
    rw [Bool.and_eq_true]
    refine ⟨decide_eq_true rfl, List.any_eq_true.2 ⟨fk, hfk, ?_⟩⟩
    rw [Bool.and_eq_true, hparent]
    refine ⟨decide_eq_true hcascade, List.any_eq_true.2 ⟨p, hp, ?_⟩⟩
    rw [hstart n, decide_eq_true hrefs]
    rfl

theorem quiet_of_no_cascade (hnames : (db.tables.map Table.name).Nodup)
    (h : ∀ t ∈ db.tables, t.name ≠ dropped → ∀ fk ∈ t.foreignKeys, fk.onDelete = .cascade → fk.parent = dropped →
      ∀ r ∈ t.rows, ∀ p ∈ db.rows dropped, ¬ fk.References r p) : db.Quiet dropped := by
  have hstays : ∀ n, ∀ t ∈ db.tables, t.name ≠ dropped → ∀ r ∈ t.rows, db.deleted dropped n t.name r = false := by
    intro n
    induction n with
    | zero => exact fun t _ hne _ _ => decide_eq_false hne
    | succ n ih =>
      intro t ht hne r hr
      rw [Database.deleted, decide_eq_false hne, Bool.false_or, ← Bool.not_eq_true]
      intro hany
      obtain ⟨u, hu, hrest⟩ := List.any_eq_true.1 hany
      rw [Bool.and_eq_true] at hrest
      obtain rfl := List.inj_on_of_nodup_map hnames hu ht (of_decide_eq_true hrest.1)
      obtain ⟨fk, hfk, hrest⟩ := List.any_eq_true.1 hrest.2
      rw [Bool.and_eq_true] at hrest
      obtain ⟨p, hp, hlost⟩ := List.any_eq_true.1 hrest.2
      rw [Bool.and_eq_true] at hlost
      have hrefs : fk.References r p := of_decide_eq_true hlost.2
      by_cases hparent : fk.parent = dropped
      · exact h u hu hne fk hfk (of_decide_eq_true hrest.1) hparent r hr p (hparent ▸ hp) hrefs
      · obtain ⟨v, hv, hpv⟩ := mem_rows.1 hp
        have hvname : v.name = fk.parent := Keyed.get_key hv
        have hstay := ih v (Keyed.get_mem hv) (hvname ▸ hparent) p hpv
        rw [hvname, hlost.1] at hstay
        cases hstay
  exact fun t ht hne r hr => hstays _ t ht hne r hr

theorem Database.Quiet.loses_iff (hq : db.Quiet dropped) {fk : ForeignKey} {r : Row} :
    db.loses dropped fk r = true ↔ fk.parent = dropped ∧ ∃ p ∈ db.rows dropped, fk.References r p := by
  unfold Database.loses
  rw [List.any_eq_true]
  constructor
  · rintro ⟨p, hp, hlost⟩
    rw [Bool.and_eq_true] at hlost
    have hrefs : fk.References r p := of_decide_eq_true hlost.2
    by_cases hparent : fk.parent = dropped
    · exact ⟨hparent, p, hparent ▸ hp, hrefs⟩
    · obtain ⟨t, ht, hpt⟩ := mem_rows.1 hp
      have hname : t.name = fk.parent := Keyed.get_key ht
      have hstay := hq t (Keyed.get_mem ht) (hname ▸ hparent) p hpt
      rw [hname, hlost.1] at hstay
      cases hstay
  · rintro ⟨rfl, p, hp, hrefs⟩
    exact ⟨p, hp, by rw [goes_dropped, decide_eq_true hrefs]; rfl⟩

/-- A row keeps its columns exactly where the keys that lose a row spare them. -/
theorem Database.Quiet.release_iff (hq : db.Quiet dropped) {t : Table} (ht : t ∈ db.tables) (hne : t.name ≠ dropped) {r : Row}
    (hr : r ∈ t.rows) (kept : String → Prop) : (∀ c, kept c → db.release sq dropped t r c = r c) ↔
      ∀ fk ∈ t.foreignKeys, fk.parent = dropped → ∀ p ∈ db.rows dropped, fk.References r p → fk.Spares sq t.columns kept r := by
  constructor
  · intro hkeep fk hfk hparent p hp hrefs
    have hlost : db.loses dropped fk r = true := hq.loses_iff.2 ⟨hparent, p, hp, hrefs⟩
    unfold ForeignKey.Spares
    cases haction : fk.onDelete with
    | noAction => trivial
    | restrict => trivial
    | cascade =>
      have hstay := hq t ht hne r hr
      rw [goes_of_cascade ht hfk haction hparent hp hrefs] at hstay
      cases hstay
    | setNull =>
      intro c hc hkept
      have hnull : (t.foreignKeys.any fun fk => fk.onDelete = .setNull && c ∈ fk.columns && db.loses dropped fk r) = true :=
        List.any_eq_true.2 ⟨fk, hfk, by simp [haction, hc, hlost]⟩
      have hvalue := hkeep c hkept
      rw [Database.release, if_pos hnull] at hvalue
      exact hrefs.2.1 c hc hvalue.symm
    | setDefault =>
      intro c hc hkept
      have hdefault : (t.foreignKeys.any fun fk => fk.onDelete = .setDefault && c ∈ fk.columns && db.loses dropped fk r) = true :=
        List.any_eq_true.2 ⟨fk, hfk, by simp [haction, hc, hlost]⟩
      have hvalue := hkeep c hkept
      rw [Database.release, if_pos hdefault] at hvalue
      split at hvalue
      · exact absurd hvalue.symm (hrefs.2.1 c hc)
      · exact hvalue
  · intro hspares c hkept
    have hspare : ∀ {fk}, fk ∈ t.foreignKeys → db.loses dropped fk r = true → fk.Spares sq t.columns kept r := by
      intro fk hfk hlost
      obtain ⟨hparent, p, hp, hrefs⟩ := hq.loses_iff.1 hlost
      exact hspares fk hfk hparent p hp hrefs
    unfold Database.release
    split
    · rename_i hnull
      obtain ⟨fk, hfk, hacts⟩ := List.any_eq_true.1 hnull
      simp only [Bool.and_eq_true, decide_eq_true_eq] at hacts
      have hfree := hspare hfk hacts.2
      unfold ForeignKey.Spares at hfree
      rw [hacts.1.1] at hfree
      exact absurd hkept (hfree c hacts.1.2)
    · split
      · rename_i hdefault
        obtain ⟨fk, hfk, hacts⟩ := List.any_eq_true.1 hdefault
        simp only [Bool.and_eq_true, decide_eq_true_eq] at hacts
        have hfree := hspare hfk hacts.2
        unfold ForeignKey.Spares at hfree
        rw [hacts.1.1] at hfree
        exact hfree c hacts.1.2 hkept
      · rfl

theorem mem_kept {t : Table} : t ∈ db.kept dropped ↔ t ∈ db.tables ∧ t.name ≠ dropped := by
  rw [Database.kept, List.mem_filter, decide_eq_true_iff]

theorem Database.Quiet.survivors (hq : db.Quiet dropped) {t : Table} (ht : t ∈ db.tables) (hne : t.name ≠ dropped) :
    db.survivors sq dropped t = t.rows.map (db.release sq dropped t) := by
  rw [Database.survivors, List.filter_eq_self.2 fun r hr => by rw [hq t ht hne r hr]; rfl]

theorem Database.Quiet.deleteLog (hq : db.Quiet dropped) : db.deleteLog sq dropped = [] := by
  rw [Database.deleteLog, List.flatMap_eq_nil_iff]
  intro t ht
  obtain ⟨hmem, hne⟩ := mem_kept.1 ht
  split
  · rw [List.map_eq_nil_iff, List.filter_eq_nil_iff]
    exact fun r hr hgoes => by rw [hq t hmem hne r hr] at hgoes; cases hgoes
  · rfl

theorem afterDeletes_of_log_nil (hlog : db.deleteLog sq dropped = []) (t : Table) :
    (db.afterDeletes sq dropped t).rows = db.survivors sq dropped t := by
  rw [Database.afterDeletes, hlog]
  rfl

theorem quiet_of_length
    (hunlogged : ∀ t ∈ db.tables, t.deleteTrigger = true → t.name ≠ deletedRowsTable ∧ t.name ≠ dirtyTablesTable)
    (h : ∀ t ∈ db.tables, t.name ≠ dropped → (db.afterDeletes sq dropped t).rows.length = t.rows.length) : db.Quiet dropped := by
  have hstays : ∀ t ∈ db.tables, t.name ≠ dropped → (db.afterDeletes sq dropped t).rows = db.survivors sq dropped t →
      ∀ r ∈ t.rows, db.goes dropped t.name r = false := by
    intro t ht hne hrows r hr
    have hlength := h t ht hne
    rw [hrows, Database.survivors, List.length_map, List.length_filter_eq_length_iff] at hlength
    simpa using hlength r hr
  -- what is logged comes from a table whose rows are fewer then
  have hlog : db.deleteLog sq dropped = [] := by
    rw [Database.deleteLog, List.flatMap_eq_nil_iff]
    intro t ht
    obtain ⟨hmem, hne⟩ := mem_kept.1 ht
    split
    · rename_i hlogged
      rw [Bool.and_eq_true] at hlogged
      obtain ⟨hlog, hdirty⟩ := hunlogged t hmem hlogged.1
      have hrows : (db.afterDeletes sq dropped t).rows = db.survivors sq dropped t := by
        unfold Database.afterDeletes
        dsimp only
        rw [if_neg hlog, if_neg hdirty]
        split <;> rfl
      rw [List.map_eq_nil_iff, List.filter_eq_nil_iff]
      exact fun r hr hgoes => by rw [hstays t hmem hne hrows r hr] at hgoes; cases hgoes
    · rfl
  exact fun t ht hne => hstays t ht hne (afterDeletes_of_log_nil hlog t)

/-! ## The rows of a rebuild -/

theorem newTable_columns (m : Rebuild) (sq : Sqlite) (db : Database) : (m.newTable sq db).columns = m.newColumns := by
  simp only [Rebuild.newTable, Rebuild.emptyTable]

theorem newTable_rows (m : Rebuild) (sq : Sqlite) (db : Database) :
    (m.newTable sq db).rows = (db.rows m.table).map (m.copy sq) := by
  simp only [Rebuild.newTable]

theorem copy_kept {r : Row} (hlisted : ∀ c ∈ m.listed, sq.store m.newColumns c (r c) = r c)
    (hclocks : ∀ c ∈ clockColumns, c ∉ m.listed → sq.columnDefault m.newColumns c = r c) {c : String} (hc : m.Kept c) :
    m.copy sq r c = r c := by
  unfold Rebuild.copy
  split
  · rename_i hl
    exact hlisted c hl
  · rename_i hl
    exact hclocks c (hc.resolve_left hl) hl

theorem copy_of_release (hform : m.Form db) {r : Row} {c : String} (hc : m.Kept c)
    (h : (m.atDrop sq db).release sq m.table (m.newTable sq db) (m.copy sq r) c = r c) : m.copy sq r c = r c := by
  unfold Database.release at h
  split at h
  · rename_i hnull
    obtain ⟨fk, hfk, hacts⟩ := List.any_eq_true.1 hnull
    simp only [Bool.and_eq_true, decide_eq_true_eq] at hacts
    obtain ⟨p, -, hlost⟩ := List.any_eq_true.1 hacts.2
    rw [Bool.and_eq_true] at hlost
    have hrefs : fk.References (m.copy sq r) p := of_decide_eq_true hlost.2
    have hlisted : c ∈ m.listed := hc.resolve_right (hform.keys fk hfk c hacts.1.2)
    refine absurd ?_ (hrefs.2.1 c hacts.1.2)
    rw [Rebuild.copy, if_pos hlisted, ← h]
    exact sq.affinity_null _
  · split at h
    · rw [newTable_columns] at h
      unfold Rebuild.copy
      split
      · rw [← h]
        exact sq.affinity_idem _ _
      · exact h
    · exact h

/-- A rebuild that succeeds on a connection that enforces foreign keys leaves the rows of the table and of all others as
they were exactly where nothing is lost on the way. -/
theorem rebuild_preserves_iff (hdb : db.WellFormed) (hon : db.foreignKeysOn = true) (hform : m.Form db)
    (hok : applySingleMigration sq db m.statements = .ok db') : Preserved sq m db db' ↔ Lossless sq m db := by
  obtain ⟨hnone, htable, hothers⟩ := applySingleMigration_rows hon hform hok
  have htables : (m.atDrop sq db).tables = db.tables ++ [m.newTable sq db] := rfl
  have hfree : ∀ t ∈ db.tables, t.name ≠ m.newName := Keyed.get_eq_none.1 hnone
  have hnames : ((m.atDrop sq db).tables.map Table.name).Nodup := by
    rw [htables, List.map_append, List.nodup_append]
    refine ⟨hdb.names, List.nodup_singleton _, fun a ha b hb => ?_⟩
    obtain ⟨t, ht, rfl⟩ := List.mem_map.1 ha
    obtain rfl := List.mem_singleton.1 hb
    exact hfree t ht
  have hrows : (m.atDrop sq db).rows m.table = db.rows m.table :=
    congrArg (fun o : Option Table => (o.map Table.rows).getD []) (table_append (newName_ne m).symm)
  have hcases : ∀ t ∈ (m.atDrop sq db).tables, t ∈ db.tables ∨ t = m.newTable sq db := fun t ht => by
    rwa [htables, List.mem_append, List.mem_singleton] at ht
  have hold : ∀ {t}, t ∈ db.tables → t ∈ (m.atDrop sq db).tables := fun ht => List.mem_append_left _ ht
  have hnew : m.newTable sq db ∈ (m.atDrop sq db).tables := List.mem_append_right _ (List.mem_singleton_self _)
  constructor
  · rintro ⟨⟨rows, hcopies, hsame⟩, hunchanged⟩
    have hcopies := List.append_cancel_right (htable.symm.trans hcopies)
    have hkept : ∀ t ∈ db.tables, t.name ≠ m.table → ((m.atDrop sq db).afterDeletes sq m.table t).rows = t.rows := by
      intro t ht hne
      have hget : db.table t.name = some t := Keyed.get_of_mem hdb.names ht
      have hafter := (hothers t.name hne).symm.trans (hunchanged t.name hne)
      rw [hget, rows_of_mem hdb.names ht] at hafter
      exact List.append_cancel_right hafter
    have hlength : ∀ t ∈ (m.atDrop sq db).tables, t.name ≠ m.table →
        ((m.atDrop sq db).afterDeletes sq m.table t).rows.length = t.rows.length := by
      intro t ht hne
      rcases hcases t ht with ht | rfl
      · rw [hkept t ht hne]
      · rw [hcopies, ← hsame.length_eq, newTable_rows, List.length_map]
    have hquiet : (m.atDrop sq db).Quiet m.table := by
      refine quiet_of_length (fun t ht htrigger => ?_) hlength
      rcases hcases t ht with ht | rfl
      · exact hdb.unlogged t ht htrigger
      · cases htrigger
    have hreleased : ∀ t ∈ (m.atDrop sq db).tables, t.name ≠ m.table →
        ((m.atDrop sq db).afterDeletes sq m.table t).rows = t.rows.map ((m.atDrop sq db).release sq m.table t) :=
      fun t ht hne => (afterDeletes_of_log_nil hquiet.deleteLog t).trans (hquiet.survivors ht hne)
    have hvalues : ∀ r ∈ db.rows m.table, ∀ c, m.Kept c →
        (m.atDrop sq db).release sq m.table (m.newTable sq db) (m.copy sq r) c = r c := by
      rw [← hcopies, hreleased _ hnew (newName_ne m), newTable_rows, List.map_map, List.forall₂_map_right_iff,
        List.forall₂_same] at hsame
      exact hsame
    have hcopy : ∀ r ∈ db.rows m.table, ∀ c, m.Kept c → m.copy sq r c = r c :=
      fun r hr c hc => copy_of_release hform hc (hvalues r hr c hc)
    refine ⟨fun r hr c hc => ?_, fun r hr c hc hl => ?_, fun t ht hne fk hfk hparent r hr p hp hrefs => ?_,
      fun fk hfk hparent r hr p hp hrefs => ?_⟩
    · have hvalue := hcopy r hr c (.inl hc)
      rw [Rebuild.copy, if_pos hc] at hvalue
      exact hvalue
    · have hvalue := hcopy r hr c (.inr hc)
      rw [Rebuild.copy, if_neg hl] at hvalue
      exact hvalue
    · refine (hquiet.release_iff (hold ht) hne hr _).1 (fun c _ => ?_) fk hfk hparent p (hrows ▸ hp) hrefs
      have hmap := (hreleased t (hold ht) hne).symm.trans (hkept t ht hne)
      exact congrFun (List.map_inj_left.1 (hmap.trans (List.map_id _).symm) r hr) c
    · have hmem : m.copy sq r ∈ (m.newTable sq db).rows := by
        rw [newTable_rows]
        exact List.mem_map_of_mem hr
      have hspares := (hquiet.release_iff hnew (newName_ne m) hmem m.Kept).1
        (fun c hc => (hvalues r hr c hc).trans (hcopy r hr c hc).symm) fk hfk hparent p (hrows ▸ hp) hrefs
      rwa [newTable_columns] at hspares
  · intro h
    have hquiet : (m.atDrop sq db).Quiet m.table := by
      refine quiet_of_no_cascade hnames fun t ht hne fk hfk hcascade hparent r hr p hp hrefs => ?_
      rw [hrows] at hp
      rcases hcases t ht with ht | rfl
      · have hspares := h.others t ht hne fk hfk hparent r hr p hp hrefs
        rw [ForeignKey.Spares, hcascade] at hspares
        exact hspares
      · rw [newTable_rows] at hr
        obtain ⟨old, hold, rfl⟩ := List.mem_map.1 hr
        have hspares := h.copies fk hfk hparent old hold p hp hrefs
        rw [ForeignKey.Spares, hcascade] at hspares
        exact hspares
    have hreleased : ∀ t ∈ (m.atDrop sq db).tables, t.name ≠ m.table →
        ((m.atDrop sq db).afterDeletes sq m.table t).rows = t.rows.map ((m.atDrop sq db).release sq m.table t) :=
      fun t ht hne => (afterDeletes_of_log_nil hquiet.deleteLog t).trans (hquiet.survivors ht hne)
    refine ⟨⟨_, htable, ?_⟩, fun u hu => ?_⟩
    · rw [hreleased _ hnew (newName_ne m), newTable_rows, List.map_map, List.forall₂_map_right_iff, List.forall₂_same]
      intro r hr c hc
      have hmem : m.copy sq r ∈ (m.newTable sq db).rows := by
        rw [newTable_rows]
        exact List.mem_map_of_mem hr
      have hspares : ∀ fk ∈ m.foreignKeys, fk.parent = m.table → ∀ p ∈ (m.atDrop sq db).rows m.table,
          fk.References (m.copy sq r) p → fk.Spares sq (m.newTable sq db).columns m.Kept (m.copy sq r) := by
        rw [newTable_columns, hrows]
        exact fun fk hfk hparent p hp hrefs => h.copies fk hfk hparent r hr p hp hrefs
      have hstays := (hquiet.release_iff hnew (newName_ne m) hmem m.Kept).2 hspares c hc
      exact hstays.trans (copy_kept (h.listed r hr) (h.clocks r hr) hc)
    · rw [hothers u hu]
      congr 1
      unfold Database.rows
      cases hget : db.table u with
      | none => rfl
      | some t =>
        have ht : t ∈ db.tables := Keyed.get_mem hget
        have hname : t.name = u := Keyed.get_key hget
        have hne : t.name ≠ m.table := hname ▸ hu
        refine (hreleased t (hold ht) hne).trans ((List.map_congr_left fun r hr => funext fun c => ?_).trans (List.map_id _))
        exact (hquiet.release_iff (hold ht) hne hr fun _ => True).2 (fun fk hfk hparent p hp hrefs =>
          h.others t ht hne fk hfk hparent r hr p (hrows ▸ hp) hrefs) c trivial

/-! ## Two rebuilds -/

def textRow (values : List (String × String)) : Row := fun c => ((values.lookup c).map SqlValue.text).getD .null

def plainSqlite : Sqlite where
  affinity _ v := v
  affinity_null _ := rfl
  affinity_idem _ _ := rfl
  admits _ _ := true
  deletedRow table _ := textRow [("table_name", table)]
  markDirty rows := rows
  migrationRow := textRow [("migration_name", "0001_late_spyke")]

def textColumns (names : List String) : List ColumnDef := names.map fun name => { name, dataType := "text" }

def spaceKey : ForeignKey := ⟨["space_id"], "haex_spaces", ["id"], .cascade⟩
def devicesKey : ForeignKey := ⟨["device_id"], "haex_devices", ["id"], .cascade⟩
def identitiesKey (onDelete : ForeignKeyAction) : ForeignKey := ⟨["identity_id"], "haex_identities", ["id"], onDelete⟩

def spaceDeviceColumns : List ColumnDef :=
  textColumns ["id", "space_id", "identity_id", "device_id", "endpoint_id", "name", "platform", "avatar", "avatar_options",
    "relay_url"] ++ [{ name := "leader_priority", dataType := "integer", dflt := .integer 10 }] ++
  textColumns ["authored_by_did", "created_at"]

/-- A device in a space, after `0002_mushy_donald_blake`. -/
def vault : Database where
  tables :=
    [{ name := "haex_identities", columns := textColumns (["id", "did", "name", "source"] ++ clockColumns)
       deleteTrigger := true
       rows := [textRow [("id", "i"), ("did", "did:key:a"), ("name", "Ada"), ("source", "own"), ("haex_hlc", "5/a")]] },
      { name := "haex_spaces"
        columns := textColumns (["id", "type", "status", "name", "owner_identity_id"] ++ clockColumns)
        foreignKeys := [⟨["owner_identity_id"], "haex_identities", ["id"], .noAction⟩], deleteTrigger := true
        rows := [textRow [("id", "s"), ("type", "online"), ("status", "active"), ("name", "home"),
          ("owner_identity_id", "i"), ("haex_hlc", "5/a")]] },
      { name := "haex_devices"
        columns := textColumns (["id", "owner_did", "endpoint_id", "name", "platform"] ++ clockColumns)
        foreignKeys := [⟨["owner_did"], "haex_identities", ["did"], .noAction⟩], deleteTrigger := true
        rows := [textRow [("id", "d"), ("owner_did", "did:key:a"), ("endpoint_id", "e"), ("name", "desk"),
          ("platform", "linux"), ("haex_hlc", "6/a")]] },
      { name := "haex_space_devices", columns := spaceDeviceColumns ++ textColumns clockColumns
        foreignKeys := [spaceKey, identitiesKey .noAction, devicesKey], deleteTrigger := true
        rows := [textRow [("id", "x"), ("space_id", "s"), ("identity_id", "i"), ("device_id", "d"), ("endpoint_id", "e"),
          ("name", "desk"), ("platform", "linux"), ("haex_hlc", "7/a")]] },
      { name := "haex_logs_no_sync", columns := textColumns ["id", "message"]
        rows := [textRow [("id", "l"), ("message", "up")]] },
      { name := deletedRowsTable, columns := textColumns (["id", "table_name", "row_pks"] ++ clockColumns) },
      { name := dirtyTablesTable, columns := textColumns ["table_name", "last_modified"] },
      { name := migrationsTable, columns := textColumns ["id", "migration_name"] }]
  foreignKeysOn := true

def logsRebuild : Rebuild where
  table := "haex_logs_no_sync"
  columns := textColumns ["id", "message", "level"]
  foreignKeys := []
  listed := ["id", "message"]
  indexes := []

/-- `0003_redundant_vulture.sql`. -/
def spaceDevicesRebuild : Rebuild where
  table := "haex_space_devices"
  columns := spaceDeviceColumns
  foreignKeys := [spaceKey, identitiesKey .cascade, devicesKey]
  listed := spaceDeviceColumns.map ColumnDef.name
  indexes := ["haex_space_devices_space_device_unique", "haex_space_devices_space_endpoint_unique"]

theorem vault_wellFormed : vault.WellFormed := ⟨by decide, by decide⟩

theorem rebuild_preserves_logs :
    ∃ db', applySingleMigration plainSqlite vault logsRebuild.statements = .ok db' ∧
      Preserved plainSqlite logsRebuild vault db' := by
  have hform : logsRebuild.Form vault := ⟨by decide, by decide⟩
  have hfree : ∀ t ∈ vault.tables, ∀ fk ∈ t.foreignKeys, fk.parent ≠ logsRebuild.table := by decide
  have hlossless : Lossless plainSqlite logsRebuild vault :=
    ⟨fun _ _ _ _ => rfl, by decide, fun t ht _ fk hfk hparent => absurd hparent (hfree t ht fk hfk), fun _ hfk => by cases hfk⟩
  have hruns : (applySingleMigration plainSqlite vault logsRebuild.statements).toBool = true := by decide
  cases hok : applySingleMigration plainSqlite vault logsRebuild.statements with
  | error e =>
    rw [hok] at hruns
    cases hruns
  | ok db' => exact ⟨db', rfl, (rebuild_preserves_iff vault_wellFormed rfl hform hok).2 hlossless⟩

theorem space_devices_rebuild_clears_clocks :
    vault.WellFormed ∧ vault.foreignKeysOn = true ∧ spaceDevicesRebuild.Form vault ∧
      ∃ db', applySingleMigration plainSqlite vault spaceDevicesRebuild.statements = .ok db' ∧
        ¬ Preserved plainSqlite spaceDevicesRebuild vault db' := by
  refine ⟨vault_wellFormed, rfl, ⟨by decide, by decide⟩, ?_⟩
  have hruns : (applySingleMigration plainSqlite vault spaceDevicesRebuild.statements).toOption.map
      (fun db' => (db'.rows "haex_space_devices").map fun r => r "haex_hlc") = some [.null] := by decide
  cases hok : applySingleMigration plainSqlite vault spaceDevicesRebuild.statements with
  | error e =>
    rw [hok] at hruns
    cases hruns
  | ok db' =>
    rw [hok] at hruns
    refine ⟨db', rfl, fun hpreserved => ?_⟩
    obtain ⟨rows, hrows, hsame⟩ := hpreserved.table
    have hclocks : (db'.rows spaceDevicesRebuild.table).map (fun r => r "haex_hlc") = [.null] := Option.some.inj hruns
    have hold : vault.rows spaceDevicesRebuild.table = [_] := rfl
    rw [hrows] at hclocks
    rw [hold] at hsame
    cases hsame with
    | cons hrow hrest =>
      cases hrest
      have hkept := hrow "haex_hlc" (.inr (by decide))
      exact absurd (hkept.symm.trans (List.cons.inj hclocks).1) (by decide)

end HaexVault.Schema.TableRebuild
