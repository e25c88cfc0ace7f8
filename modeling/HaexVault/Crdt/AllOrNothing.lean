import Mathlib.Data.List.Infix
import HaexVault.Crdt.Clock
import HaexVault.Lib.Connection
/-!
# A remote batch on a connection (`crdt/commands.rs`, `crdt/cleanup.rs`)

`apply_remote_changes_to_db` statement by statement, on a connection on which any statement may
fail (`remote_apply_all_or_nothing`). Without faults the statements do what
`applyRemoteChangesToDb` computes (`applied_as_computed`).
-/

namespace HaexVault.Crdt

open HaexVault.Lib HaexVault.Lib.Fallible HaexVault.Lib.Connection

abbrev Tx (α : Type) := Fallible DatabaseError (Connection Database) α

section
variable (faults : Nat → Option (Fault DatabaseError)) (env : Env)

/-! ## One row -/

def alterTable (name : String) (f : Table → Table) : Tx Unit :=
  execute faults fun db => match db.tables name with
    | none => .error (.sqlite "no such table")
    | some t => .ok (db.setTable name (f t))

/-- `ensure_crdt_columns`, one `ALTER TABLE` a column. -/
def ensureCrdtColumnsTx (name : String) : Tx Unit := do
  match ← query faults fun db => .ok (db.tables name) with
  | none => pure ()
  | some t =>
    (if hlcTimestampColumn ∈ t.columnNames then pure ()
      else alterTable faults name fun t => t.addColumn ⟨hlcTimestampColumn, false, false, .null⟩)
    (if columnHlcsColumn ∈ t.columnNames then pure ()
      else alterTable faults name fun t => t.addColumn ⟨columnHlcsColumn, false, true, .hlcs ∅⟩)

/-- `setup_triggers_for_table`. The insert trigger is the one that is looked for later. -/
def setupTriggersForTable (name : String) : Tx Unit := do
  match ← query faults fun db => .ok (db.tables name) with
  | none => pure ()
  | some t =>
    if hlcTimestampColumn ∉ t.columnNames then throw (.execution name "HLC column missing")
    else if t.pkNames = [] then throw (.execution name "primary key missing")
    else
      alterTable faults name fun t => { t with hasTriggers := true }
      execute faults .ok
      (if name = deletedRowsTable then pure () else execute faults .ok)

/-- `ensure_crdt_columns_and_triggers`. A failing look at `sqlite_master` counts as no trigger. -/
def ensureCrdtColumnsAndTriggersTx (name : String) : Tx Unit := do
  ensureCrdtColumnsTx faults name
  let hasTrigger ← tryCatch (query faults fun db => .ok ((db.tables name).any (·.hasTriggers))) fun _ => pure false
  if hasTrigger then pure () else setupTriggersForTable faults name

/-- The table has its CRDT columns, from the start or now. An error skips the row; what was
altered until then stays. -/
def upgradedTx (name : String) (t : Table) : Tx Bool :=
  if columnHlcsColumn ∈ t.columnNames then pure true
  else tryCatch (do
    ensureCrdtColumnsAndTriggersTx faults name
    pure true) fun _ => pure false

def selectHlcs (name : String) (t₀ : Table) (k : List SqlValue) (db : Database) : Except DatabaseError (Option ColumnHlcs) :=
  match db.tables name with
  | none => .error (.sqlite "no such table")
  | some t =>
    if t₀.pkNames = [] then .error (.sqlite "incomplete input")
    else match t.find k with
      | none => .ok none
      | some r => (currentHlcs (some r)).map some

/-- The error text says so. -/
def DatabaseError.isUniqueViolation : DatabaseError → Bool
  | .sqlite reason => reason.toList.tails.any fun rest => "UNIQUE constraint failed".toList.isPrefixOf rest
  | _ => false

/-- The `UPDATE` or `INSERT` of `writeRow`, with the error of an `INSERT` that is a duplicate. -/
def writeStatement (name : String) (t₀ : Table) (rowPks : RowPks) (rowExists : Bool) (acc : RowAcc)
    (changes : List RemoteColumnChange) (db : Database) : Except DatabaseError Database :=
  match db.tables name with
  | none => .error (.sqlite "no such table")
  | some t =>
    if rowExists then writeRow db name t (pkKey t₀ rowPks) rowPks true acc changes
    else match t.insert (insertPairs t rowPks acc) with
    | .error (.unique columns) =>
      .error (.sqlite ("UNIQUE constraint failed: " ++ ", ".intercalate (columns.map fun c => name ++ "." ++ c)))
    | _ => writeRow db name t (pkKey t₀ rowPks) rowPks false acc changes

/-- The statements of `create_conflict_entry`, whose errors are only logged: a look at some row, and the `INSERT` into a
table that does not exist. -/
def createConflictEntryTx : Tx Unit :=
  tryCatch (do
    tryCatch (query faults fun _ => .ok ()) fun _ => pure ()
    execute faults fun _ => .error (.sqlite "no such table: haex_crdt_conflicts")) fun _ => pure ()

/-- The changes of one row whose key is parsed. -/
def changeRowTx (name : String) (t₀ : Table) (rowPks : RowPks) (changes : List RemoteColumnChange) : Tx Unit := do
  let stored ← query faults (selectHlcs name t₀ (pkKey t₀ rowPks))
  let acc := collectChanges t₀.columnNames (stored.getD ∅) changes
  acc.pending.forM fun c => execute faults fun db => .ok (addPending db name [c])
  if acc.columnsToUpdate = [] then pure ()
  else tryCatch (execute faults (writeStatement name t₀ rowPks stored.isSome acc changes)) fun e =>
    if !stored.isSome && e.isUniqueViolation then createConflictEntryTx faults else throw e

/-- One turn of the apply loop. -/
def applyRowTx (group : (String × String) × List RemoteColumnChange) : Tx Unit := do
  match ← query faults fun db => .ok (db.tables group.1.1) with
  | none => pure ()
  | some t₀ =>
    let upgraded ← upgradedTx faults group.1.1 t₀
    if !upgraded then pure ()
    else match env.fromStr group.1.2 with
      | none => throw (.serialization "Failed to parse row PKs")
      | some rowPks => changeRowTx faults group.1.1 t₀ rowPks group.2

/-! ## Deletes -/

/-- The log entry with this id: target table, `row_pks` and HLC. -/
def selectLogEntry (id : String) (db : Database) : Except DatabaseError (Option (String × String × String)) :=
  match db.tables deletedRowsTable with
  | none => .error (.sqlite "no such table: haex_deleted_rows")
  | some log => match log.rows.find? fun r => r "id" = .text id with
    | none => .ok none
    | some r => match asText (r "table_name"), asText (r "row_pks"), asText (r hlcTimestampColumn) with
      | some targetTable, some rowPksJson, some deleteHlc => .ok (some (targetTable, rowPksJson, deleteHlc))
      | _, _, _ => .error (.sqlite "Invalid column type")

def whereTable (name : String) (cond : List (String × SqlValue)) (db : Database) : Except DatabaseError Table :=
  match db.tables name with
  | none => .error (.sqlite "no such table")
  | some t => if cond.any (fun p => p.1 ∉ t.columnNames) then .error (.sqlite "no such column") else .ok t

def selectTargetHlc (name : String) (cond : List (String × SqlValue)) (db : Database) :
    Except DatabaseError (Option String) := do
  let t ← whereTable name cond db
  if hlcTimestampColumn ∈ t.columnNames then
    match t.rows.find? (whereMatches cond) with
    | none => .ok none
    | some r => .ok (asText (r hlcTimestampColumn))
  else .error (.sqlite "no such column: haex_hlc")

def deleteWhere (name : String) (cond : List (String × SqlValue)) (db : Database) : Except DatabaseError Database := do
  let t ← whereTable name cond db
  .ok (db.setTable name (t.delete (whereMatches cond)))

/-- One turn of `propagate_deleted_rows_to_target_tables`. Errors of the last two statements
are only logged. -/
def propagateDeletedRowTx (id : String) : Tx Unit := do
  match ← query faults (selectLogEntry id) with
  | none => pure ()
  | some (targetTable, rowPksJson, deleteHlc) =>
    if !isSafeIdentifier env targetTable then pure ()
    else match (env.fromStr rowPksJson).bind (buildPkWhereFromMap env) with
      | none => pure ()
      | some cond =>
        let targetRowHlc ← tryCatch (query faults (selectTargetHlc targetTable cond)) fun _ => pure none
        if shouldPropagateDelete deleteHlc targetRowHlc then
          tryCatch (execute faults (deleteWhere targetTable cond)) fun _ => pure ()
        else pure ()

/-! ## The call -/

def setTriggersEnabled (value : String) (db : Database) : Database := { db with triggersEnabled := some value }

/-- The transaction of an ordered batch. -/
def batchTx (hash : Hashing) (changes : List RemoteColumnChange) (backendInfo : Option (String × String)) : Tx Unit := do
  execute faults fun db => .ok (setTriggersEnabled "0" db)
  (groupRowChangesInHlcOrder hash changes).forM (applyRowTx faults env)
  (hash.ids.iter (inboundDeleteLogIds env changes)).forM (propagateDeletedRowTx faults env)
  (match backendInfo with
    | none => pure ()
    | some _ => execute faults fun db => .ok (setPushCursor db backendInfo))
  execute faults fun db => .ok (setTriggersEnabled "1" db)

def nestedTransaction : DatabaseError := .sqlite "cannot start a transaction within a transaction"

def noTransaction : DatabaseError := .sqlite "cannot commit - no transaction is active"

structure ConnectedDevice (u : Uhlc) where
  poisoned : Bool := false
  /-- `None` while no vault is open. -/
  connection : Option (Connection Database)
  hlc : Option u.Clock

/-- `apply_remote_changes_to_db`. `hlcService` says whether the caller passes the service. -/
def ConnectedDevice.applyRemoteChangesToDb {u : Uhlc} (now : Nat) (hash : Hashing) (changes : List RemoteColumnChange)
    (backendInfo : Option (String × String)) (hlcService : Bool) (dev : ConnectedDevice u) :
    Except DatabaseError Unit × ConnectedDevice u :=
  match validateChanges env (orderedChanges hash changes) with
  | .error e => (.error e, dev)
  | .ok _ =>
    if dev.poisoned then (.error .mutexPoisoned, dev)
    else match dev.connection with
    | none => (.error (.connection "Connection to vault failed"), dev)
    | some c =>
      match exec (withForeignKeysOff (transaction faults nestedTransaction noTransaction
        (batchTx faults env hash (orderedChanges hash changes) backendInfo))) c with
      | (.error e, c') => (.error e, { dev with connection := some c' })
      | (.ok _, c') =>
        (.ok (), { dev with
          connection := some c'
          hlc := if hlcService then advancePastRemote u now dev.hlc (advanceHlc hash changes backendInfo) else dev.hlc })

end

/-! ## No statement ends the transaction -/

section
variable {faults : Nat → Option (Fault DatabaseError)} {env : Env}

theorem pure_inside {α : Type} (a : α) : Keeps Inside (pure a : Tx α) := Keeps.pure a

theorem alterTable_inside (name : String) (f : Table → Table) : Keeps Inside (alterTable faults name f) := execute_inside _

theorem ensureCrdtColumnsTx_inside (name : String) : Keeps Inside (ensureCrdtColumnsTx faults name) := by
  refine (query_inside _).bind fun t => ?_
  rcases t with _ | t
  · exact pure_inside _
  · refine Keeps.bind ?_ fun _ => ?_
    · split
      · exact pure_inside _
      · exact alterTable_inside name _
    · split
      · exact pure_inside _
      · exact alterTable_inside name _

theorem setupTriggersForTable_inside (name : String) : Keeps Inside (setupTriggersForTable faults name) := by
  refine (query_inside _).bind fun t => ?_
  rcases t with _ | t
  · exact pure_inside _
  · dsimp only
    split
    · exact Keeps.throw _
    · split
      · exact Keeps.throw _
      · refine (alterTable_inside name _).bind fun _ => (execute_inside _).bind fun _ => ?_
        split
        · exact pure_inside _
        · exact execute_inside _

theorem upgradedTx_inside (name : String) (t : Table) : Keeps Inside (upgradedTx faults name t) := by
  unfold upgradedTx
  split
  · exact pure_inside _
  · refine Keeps.tryCatch (Keeps.bind ?_ fun _ => pure_inside _) fun _ => pure_inside _
    refine (ensureCrdtColumnsTx_inside name).bind fun _ => ?_
    refine ((query_inside _).tryCatch fun _ => pure_inside _).bind fun hasTrigger => ?_
    split
    · exact pure_inside _
    · exact setupTriggersForTable_inside name

theorem createConflictEntryTx_inside : Keeps Inside (createConflictEntryTx faults) :=
  Keeps.tryCatch (((query_inside _).tryCatch fun _ => pure_inside _).bind fun _ => execute_inside _) fun _ => pure_inside _

theorem changeRowTx_inside (name : String) (t₀ : Table) (rowPks : RowPks) (changes : List RemoteColumnChange) :
    Keeps Inside (changeRowTx faults name t₀ rowPks changes) := by
  refine (query_inside _).bind fun stored => ?_
  refine (Keeps.forM (fun _ => execute_inside _) _).bind fun _ => ?_
  split
  · exact pure_inside _
  · refine (execute_inside _).tryCatch fun e => ?_
    split
    · exact createConflictEntryTx_inside
    · exact Keeps.throw _

theorem applyRowTx_inside (group : (String × String) × List RemoteColumnChange) :
    Keeps Inside (applyRowTx faults env group) := by
  refine (query_inside _).bind fun t => ?_
  rcases t with _ | t
  · exact pure_inside _
  · refine (upgradedTx_inside _ t).bind fun upgraded => ?_
    split
    · exact pure_inside _
    · split
      · exact Keeps.throw _
      · exact changeRowTx_inside _ t _ _

theorem propagateDeletedRowTx_inside (id : String) : Keeps Inside (propagateDeletedRowTx faults env id) := by
  refine (query_inside _).bind fun entry => ?_
  rcases entry with _ | ⟨targetTable, rowPksJson, deleteHlc⟩
  · exact pure_inside _
  · dsimp only
    split
    · exact pure_inside _
    · split
      · exact pure_inside _
      · refine ((query_inside _).tryCatch fun _ => pure_inside _).bind fun targetRowHlc => ?_
        split
        · exact (execute_inside _).tryCatch fun _ => pure_inside _
        · exact pure_inside _

theorem batchTx_inside (hash : Hashing) (changes : List RemoteColumnChange) (info : Option (String × String)) :
    Keeps Inside (batchTx faults env hash changes info) := by
  refine (execute_inside _).bind fun _ => ?_
  refine (Keeps.forM applyRowTx_inside _).bind fun _ => (Keeps.forM propagateDeletedRowTx_inside _).bind fun _ => ?_
  refine Keeps.bind ?_ fun _ => execute_inside _
  rcases info with _ | _
  · exact pure_inside _
  · exact execute_inside _

theorem batchTx_triggersEnabled {hash : Hashing} {changes : List RemoteColumnChange} {info : Option (String × String)}
    {c c' : Connection Database} (h : exec (batchTx faults env hash changes info) c = (.ok (), c')) :
    c'.state.triggersEnabled = some "1" := by
  obtain ⟨_, _, -, h⟩ := exec_bind_eq_ok h
  obtain ⟨_, _, -, h⟩ := exec_bind_eq_ok h
  obtain ⟨_, _, -, h⟩ := exec_bind_eq_ok h
  obtain ⟨_, c₁, -, h⟩ := exec_bind_eq_ok h
  rw [execute, statement, exec_run] at h
  rcases hfault : faults c₁.ran.length with _ | e
  · rw [hfault] at h
    cases h
    rfl
  · rw [hfault] at h
    cases h

/-! ## Without faults -/

theorem setTable_self {db : Database} {name : String} {t : Table} (h : db.tables name = some t) : db.setTable name t = db := by
  unfold Database.setTable
  rw [← h, Function.update_eq_self]

theorem setTable_setTable (db : Database) (name : String) (t t' : Table) :
    (db.setTable name t).setTable name t' = db.setTable name t' := by
  simp [Database.setTable]

theorem setTable_tables (db : Database) (name : String) (t : Table) : (db.setTable name t).tables name = some t := by
  simp [Database.setTable]

section
variable {c : Connection Database} {name : String} {t : Table}

theorem exec_alterTable (c : Connection Database) (h : c.state.tables name = some t) (f : Table → Table) :
    exec (alterTable noFaults name f) c =
      (.ok (), { c with state := c.state.setTable name (f t), ran := c.saved.isSome :: c.ran }) := by
  rw [alterTable, exec_execute, h]
  rfl

theorem exec_ensureCrdtColumnsTx (h : c.state.tables name = some t) : ∃ n,
    exec (ensureCrdtColumnsTx noFaults name) c =
      (.ok (), { c with state := c.state.setTable name (ensureCrdtColumns t), ran := n }) := by
  unfold ensureCrdtColumnsTx
  rw [exec_bind, exec_query, h]
  dsimp only
  unfold ensureCrdtColumns
  by_cases h₁ : hlcTimestampColumn ∈ t.columnNames
  · by_cases h₂ : columnHlcsColumn ∈ t.columnNames
    · simp only [h₁, h₂, if_true, setTable_self h]
      exact ⟨_, rfl⟩
    · simp only [h₁, h₂, if_true, if_false]
      rw [exec_bind_ok (exec_pure _ _), exec_alterTable { c with ran := c.saved.isSome :: c.ran } h]
      exact ⟨_, rfl⟩
  · rw [if_neg h₁, exec_bind_ok (exec_alterTable { c with ran := c.saved.isSome :: c.ran } h _)]
    by_cases h₂ : columnHlcsColumn ∈ t.columnNames
    · simp only [h₁, h₂, if_true, if_false]
      exact ⟨_, rfl⟩
    · simp only [h₁, h₂, if_false]
      rw [exec_alterTable _ (setTable_tables _ _ _), setTable_setTable]
      exact ⟨_, rfl⟩

theorem exec_setupTriggersForTable (h : c.state.tables name = some t) (hhlc : hlcTimestampColumn ∈ t.columnNames) : ∃ n,
    if t.pkNames = [] then ∃ e, exec (setupTriggersForTable noFaults name) c = (.error e, { c with ran := n })
    else exec (setupTriggersForTable noFaults name) c =
      (.ok (), { c with state := c.state.setTable name { t with hasTriggers := true }, ran := n }) := by
  unfold setupTriggersForTable
  rw [exec_bind, exec_query, h]
  dsimp only
  rw [if_neg (not_not.2 hhlc)]
  by_cases hpk : t.pkNames = []
  · simp only [hpk, if_true]
    exact ⟨_, _, rfl⟩
  · simp only [hpk, if_false]
    rw [exec_bind_ok (exec_alterTable { c with ran := c.saved.isSome :: c.ran } h _), exec_bind_ok (exec_execute _ _)]
    split
    · exact ⟨_, rfl⟩
    · rw [exec_execute]
      exact ⟨_, rfl⟩

theorem ensureCrdtColumns_kept (t : Table) : (ensureCrdtColumns t).pkNames = t.pkNames ∧
    (ensureCrdtColumns t).hasTriggers = t.hasTriggers ∧ hlcTimestampColumn ∈ (ensureCrdtColumns t).columnNames := by
  unfold ensureCrdtColumns
  by_cases h₁ : hlcTimestampColumn ∈ t.columnNames
  · by_cases h₂ : columnHlcsColumn ∈ t.columnNames
    · simp only [h₁, h₂, if_true, and_self]
    · simp only [h₁, h₂, if_true, if_false]
      refine ⟨Table.pkNames_addColumn t rfl, rfl, ?_⟩
      rw [Table.columnNames_addColumn]
      exact List.mem_append_left _ h₁
  · by_cases h₂ : columnHlcsColumn ∈ t.columnNames
    · simp only [h₁, h₂, if_true, if_false]
      refine ⟨Table.pkNames_addColumn t rfl, rfl, ?_⟩
      rw [Table.columnNames_addColumn]
      exact List.mem_append_right _ (List.mem_singleton_self _)
    · simp only [h₁, h₂, if_false]
      refine ⟨(Table.pkNames_addColumn _ rfl).trans (Table.pkNames_addColumn t rfl), rfl, ?_⟩
      rw [Table.columnNames_addColumn, Table.columnNames_addColumn]
      exact List.mem_append_left _ (List.mem_append_right _ (List.mem_singleton_self _))

def upgraded (t : Table) : Table × Bool :=
  if columnHlcsColumn ∈ t.columnNames then (t, true) else ensureCrdtColumnsAndTriggers t

theorem exec_upgradedTx (c : Connection Database) (h : c.state.tables name = some t) : ∃ n,
    exec (upgradedTx noFaults name t) c =
      (.ok (upgraded t).2, { c with state := c.state.setTable name (upgraded t).1, ran := n }) := by
  unfold upgradedTx upgraded
  split
  · rw [setTable_self h]
    exact ⟨c.ran, rfl⟩
  · obtain ⟨n, hn⟩ := exec_ensureCrdtColumnsTx h
    obtain ⟨hpk, htrig, hhlc⟩ := ensureCrdtColumns_kept t
    have hlook : ∀ c' : Connection Database, c'.state.tables name = some (ensureCrdtColumns t) →
        exec (tryCatch (query noFaults fun db => .ok ((db.tables name).any (·.hasTriggers)))
          fun _ => pure false : Tx Bool) c' = (.ok t.hasTriggers, { c' with ran := c'.saved.isSome :: c'.ran }) := by
      intro c' h'
      rw [exec_tryCatch, exec_query, h', ← htrig]
      rfl
    rw [exec_tryCatch, exec_bind]
    unfold ensureCrdtColumnsAndTriggersTx ensureCrdtColumnsAndTriggers
    rw [exec_bind_ok hn, exec_bind_ok (hlook _ (setTable_tables _ _ _))]
    cases hhas : t.hasTriggers with
    | true => exact ⟨c.saved.isSome :: n, rfl⟩
    | false =>
      simp only [Bool.false_eq_true, if_false]
      obtain ⟨n', hn'⟩ := exec_setupTriggersForTable
        (c := { c with state := c.state.setTable name (ensureCrdtColumns t), ran := c.saved.isSome :: n }) (setTable_tables _ _ _) hhlc
      rw [hpk] at hn'
      by_cases hnone : t.pkNames = []
      · rw [if_pos hnone] at hn'
        obtain ⟨e, he⟩ := hn'
        rw [he, if_pos hnone]
        exact ⟨n', rfl⟩
      · rw [if_neg hnone] at hn'
        rw [hn', if_neg hnone, setTable_setTable]
        exact ⟨n', rfl⟩

theorem addPending_does (name : String) (columns : List String) :
    Does (columns.forM fun c => execute noFaults fun db => .ok (addPending db name [c]) : Tx Unit)
      fun db => .ok (addPending db name columns) := by
  have hfold : ∀ db, columns.foldlM (fun db c => (.ok (addPending db name [c]) : Except DatabaseError Database)) db =
      .ok (addPending db name columns) := by
    induction columns with
    | nil => exact fun _ => rfl
    | cons c columns ih => exact fun db => ih (addPending db name [c])
  have hdoes := Does.forM
    (fun c => Does.execute fun db => (.ok (addPending db name [c]) : Except DatabaseError Database)) columns
  simpa only [hfold] using hdoes

/-- What `changeRowTx` does to the database. -/
def changeRow (name : String) (t₀ : Table) (rowPks : RowPks) (changes : List RemoteColumnChange) (db : Database) :
    Except DatabaseError Database :=
  selectHlcs name t₀ (pkKey t₀ rowPks) db >>= fun stored =>
    let acc := collectChanges t₀.columnNames (stored.getD ∅) changes
    if acc.columnsToUpdate = [] then .ok (addPending db name acc.pending)
    else match db.tables name with
      | none => .error (.sqlite "no such table")
      | some t => writeRow (addPending db name acc.pending) name t (pkKey t₀ rowPks) rowPks stored.isSome acc changes

theorem createConflictEntryTx_does : Does (createConflictEntryTx noFaults) Except.ok := by
  intro c
  unfold createConflictEntryTx
  rw [exec_tryCatch, exec_bind, exec_tryCatch, exec_query]
  dsimp only
  rw [exec_execute]
  exact ⟨_, rfl⟩

def handledError (rowExists : Bool) (e : DatabaseError) : Database → Except DatabaseError Database :=
  if !rowExists && e.isUniqueViolation then .ok else fun _ => .error e

theorem isUniqueViolation_unique (columns : String) :
    (DatabaseError.sqlite ("UNIQUE constraint failed: " ++ columns)).isUniqueViolation = true := by
  refine List.any_eq_true.2 ⟨_, (List.mem_tails _ _).2 (List.suffix_refl _), List.isPrefixOf_iff_prefix.2 ?_⟩
  rw [String.toList_append]
  exact ⟨": ".toList ++ columns.toList, by simp⟩

theorem isUniqueViolation_noTable : (DatabaseError.sqlite "no such table").isUniqueViolation = false := by decide

theorem isUniqueViolation_check : (DatabaseError.sqlite "CHECK constraint failed").isUniqueViolation = false := by decide

/-- The write with its error handled is the write that is not told of duplicates. -/
theorem writeStatement_handled (name : String) (t₀ : Table) (rowPks : RowPks) (rowExists : Bool) (acc : RowAcc)
    (changes : List RemoteColumnChange) (db : Database) :
    ((writeStatement name t₀ rowPks rowExists acc changes db).tryCatch fun e => handledError rowExists e db) =
      match db.tables name with
      | none => .error (.sqlite "no such table")
      | some t => writeRow db name t (pkKey t₀ rowPks) rowPks rowExists acc changes := by
  unfold writeStatement
  rcases db.tables name with _ | t
  · simp only [Except.tryCatch, handledError, isUniqueViolation_noTable, Bool.and_false, Bool.false_eq_true, if_false]
  · dsimp only
    cases rowExists with
    | true =>
      simp only [if_true, handledError, Bool.not_true, Bool.false_and, Bool.false_eq_true, if_false]
      rcases writeRow db name t (pkKey t₀ rowPks) rowPks true acc changes with e | db' <;> rfl
    | false =>
      simp only [Bool.false_eq_true, if_false, writeRow]
      rcases t.insert (insertPairs t rowPks acc) with (column | _ | columns) | t'
      · rfl
      · simp only [Except.tryCatch, handledError, isUniqueViolation_check, Bool.and_false, Bool.false_eq_true, if_false]
      · simp only [Except.tryCatch, handledError, isUniqueViolation_unique, insertConflict]
        rfl
      · rfl

theorem changeRowTx_does (name : String) (t₀ : Table) (rowPks : RowPks) (changes : List RemoteColumnChange) :
    Does (changeRowTx noFaults name t₀ rowPks changes) (changeRow name t₀ rowPks changes) := by
  refine Does.query_bind fun stored => ?_
  dsimp only
  generalize collectChanges t₀.columnNames (stored.getD ∅) changes = acc
  have hpending := addPending_does name acc.pending
  split
  · exact hpending.bind Does.pure
  · have hhandle : ∀ e : DatabaseError, Does (if !stored.isSome && e.isUniqueViolation then createConflictEntryTx noFaults else throw e)
        (handledError stored.isSome e) := by
      intro e
      unfold handledError
      split
      · exact createConflictEntryTx_does
      · exact Does.throw e
    have hwrite := @Does.execute_catch _ _ (writeStatement name t₀ rowPks stored.isSome acc changes) _ _ hhandle
    simp only [writeStatement_handled] at hwrite
    -- a pending column leaves the tables
    exact hpending.bind hwrite

theorem applyRow_eq {env : Env} {db : Database} {group : (String × String) × List RemoteColumnChange} {t₀ : Table}
    (ht : db.tables group.1.1 = some t₀) :
    applyRow env db group =
      if !(upgraded t₀).2 then .ok (db.setTable group.1.1 (upgraded t₀).1)
      else match env.fromStr group.1.2 with
      | none => .error (.serialization "Failed to parse row PKs")
      | some rowPks => changeRow group.1.1 t₀ rowPks group.2 (db.setTable group.1.1 (upgraded t₀).1) := by
  unfold applyRow
  dsimp only
  rw [ht]
  unfold upgraded
  dsimp only
  generalize (if columnHlcsColumn ∈ t₀.columnNames then (t₀, true) else ensureCrdtColumnsAndTriggers t₀) = u
  rcases hu : u.2 with _ | _
  · rfl
  · rcases env.fromStr group.1.2 with _ | rowPks
    · rfl
    · dsimp only
      unfold changeRow selectHlcs
      rw [setTable_tables]
      by_cases hpk : t₀.pkNames = []
      · simp only [hpk, if_true]
        rfl
      · simp only [hpk, if_false]
        rcases u.1.find (pkKey t₀ rowPks) with _ | r
        · rfl
        · dsimp only
          rcases currentHlcs (some r) with e | stored
          · rfl
          · rfl

theorem applyRowTx_does (env : Env) (group : (String × String) × List RemoteColumnChange) :
    Does (applyRowTx noFaults env group) fun db => applyRow env db group := by
  intro c
  dsimp only
  unfold applyRowTx
  rw [exec_bind, exec_query]
  dsimp only
  rcases ht : c.state.tables group.1.1 with _ | t₀
  · have happly : applyRow env c.state group = .ok c.state := by
      unfold applyRow
      dsimp only
      rw [ht]
    rw [happly]
    exact ⟨_, rfl⟩
  · obtain ⟨n, hn⟩ := exec_upgradedTx { c with ran := c.saved.isSome :: c.ran } ht
    dsimp only
    rw [exec_bind_ok hn, applyRow_eq ht]
    rcases (upgraded t₀).2 with _ | _
    · exact ⟨n, rfl⟩
    · rcases env.fromStr group.1.2 with _ | rowPks
      · rfl
      · exact changeRowTx_does group.1.1 t₀ rowPks group.2
          { c with state := c.state.setTable group.1.1 (upgraded t₀).1, ran := n }

theorem exec_selectTargetHlc (targetTable : String) (cond : List (String × SqlValue)) (c : Connection Database) :
    exec (tryCatch (query noFaults (selectTargetHlc targetTable cond)) fun _ => pure none : Tx (Option String)) c =
      (.ok (selectTargetHlc targetTable cond c.state).toOption.join, { c with ran := c.saved.isSome :: c.ran }) := by
  rw [exec_tryCatch, exec_query]
  rcases selectTargetHlc targetTable cond c.state with e | hlc
  · rfl
  · rfl

theorem exec_deleteWhere (targetTable : String) (cond : List (String × SqlValue)) (c : Connection Database) :
    exec (tryCatch (execute noFaults (deleteWhere targetTable cond)) fun _ => pure () : Tx Unit) c =
      (.ok (), { c with state := (deleteWhere targetTable cond c.state).toOption.getD c.state, ran := c.saved.isSome :: c.ran }) := by
  rw [exec_tryCatch, exec_execute]
  rcases deleteWhere targetTable cond c.state with e | db
  · rfl
  · rfl

theorem propagateDelete_eq {env : Env} {db : Database} {targetTable rowPksJson deleteHlc : String}
    {cond : List (String × SqlValue)} (hsafe : isSafeIdentifier env targetTable = true)
    (hcond : (env.fromStr rowPksJson).bind (buildPkWhereFromMap env) = some cond) :
    propagateDelete env db targetTable rowPksJson deleteHlc =
      if shouldPropagateDelete deleteHlc (selectTargetHlc targetTable cond db).toOption.join then
        (deleteWhere targetTable cond db).toOption.getD db
      else db := by
  unfold propagateDelete selectTargetHlc deleteWhere whereTable
  rw [hsafe, hcond]
  rcases db.tables targetTable with _ | t
  · simp only [Bool.not_true, Bool.false_eq_true, if_false]
    split
    · rfl
    · rfl
  · by_cases hcols : cond.any fun p => p.1 ∉ t.columnNames
    · simp only [hcols, Bool.not_true, Bool.false_eq_true, if_false, if_true]
      split
      · rfl
      · rfl
    · simp only [hcols, Bool.not_true, Bool.false_eq_true, if_false]
      by_cases hhlc : hlcTimestampColumn ∈ t.columnNames
      · rcases hfind : t.rows.find? (whereMatches cond) with _ | r
        · simp [hhlc, hfind, bind, Except.bind, Except.toOption]
        · simp [hhlc, hfind, bind, Except.bind, Except.toOption]
      · simp [hhlc, bind, Except.bind, Except.toOption]

def carryOut (env : Env) (entry : Option (String × String × String)) (db : Database) : Except DatabaseError Database :=
  match entry with
  | none => .ok db
  | some (targetTable, rowPksJson, deleteHlc) => .ok (propagateDelete env db targetTable rowPksJson deleteHlc)

theorem propagateDeletedRow_eq (env : Env) (db : Database) (id : String) :
    propagateDeletedRow env db id = selectLogEntry id db >>= fun entry => carryOut env entry db := by
  unfold propagateDeletedRow selectLogEntry carryOut
  rcases db.tables deletedRowsTable with _ | log
  · rfl
  · dsimp only
    generalize (log.rows.find? fun r => decide (r "id" = .text id)) = found
    rcases found with _ | r
    · rfl
    · dsimp only
      rcases asText (r "table_name") with _ | targetTable
      · rfl
      · rcases asText (r "row_pks") with _ | rowPksJson
        · rfl
        · rcases asText (r hlcTimestampColumn) with _ | deleteHlc
          · rfl
          · rfl

theorem propagateDeletedRowTx_does (env : Env) (id : String) :
    Does (propagateDeletedRowTx noFaults env id) fun db => propagateDeletedRow env db id := by
  simp only [propagateDeletedRow_eq]
  refine Does.query_bind fun entry => ?_
  rcases entry with _ | ⟨targetTable, rowPksJson, deleteHlc⟩
  · exact Does.pure
  · intro c
    dsimp only [carryOut]
    rcases hsafe : isSafeIdentifier env targetTable with _ | _
    · have hskip : propagateDelete env c.state targetTable rowPksJson deleteHlc = c.state := by
        unfold propagateDelete
        rw [hsafe]
        rfl
      rw [hskip]
      exact ⟨c.ran, rfl⟩
    · rcases hcond : (env.fromStr rowPksJson).bind (buildPkWhereFromMap env) with _ | cond
      · have hskip : propagateDelete env c.state targetTable rowPksJson deleteHlc = c.state := by
          unfold propagateDelete
          rw [hsafe, hcond]
          rfl
        rw [hskip]
        exact ⟨c.ran, rfl⟩
      · rw [propagateDelete_eq hsafe hcond]
        simp only [Bool.not_true, Bool.false_eq_true, if_false]
        rw [exec_bind_ok (exec_selectTargetHlc _ _ _)]
        split
        · rw [exec_deleteWhere]
          exact ⟨_, rfl⟩
        · exact ⟨_, rfl⟩

theorem batchTx_does (env : Env) (hash : Hashing) (changes : List RemoteColumnChange) (info : Option (String × String))
    (h : validateChanges env (orderedChanges hash changes) = .ok ()) :
    Does (batchTx noFaults env hash (orderedChanges hash changes) info) fun db =>
      applyRemoteChangesToDb env hash db changes info := by
  have hcursor : Does (match info with
      | none => pure ()
      | some _ => execute noFaults fun db => .ok (setPushCursor db info) : Tx Unit) fun db => .ok (setPushCursor db info) := by
    rcases info with _ | _
    · exact Does.pure
    · exact Does.execute _
  have hall := (Does.execute fun db => (.ok (setTriggersEnabled "0" db) : Except DatabaseError Database)).bind
    ((Does.forM (applyRowTx_does env) (groupRowChangesInHlcOrder hash (orderedChanges hash changes))).bind
    ((Does.forM (propagateDeletedRowTx_does env) (hash.ids.iter (inboundDeleteLogIds env (orderedChanges hash changes)))).bind
    (hcursor.bind (Does.execute fun db => .ok (setTriggersEnabled "1" db)))))
  intro c
  have hc := hall c
  unfold applyRemoteChangesToDb
  dsimp only
  rw [h]
  exact hc

/-- Without faults the call ends in the database that `applyRemoteChangesToDb` computes, or with its error. -/
theorem applied_as_computed {u : Uhlc} (env : Env) (now : Nat) (hash : Hashing) (changes : List RemoteColumnChange)
    (info : Option (String × String)) (hlcService : Bool) {dev : ConnectedDevice u} {c : Connection Database}
    (hconn : dev.connection = some c) (hidle : c.saved = none) (hhealthy : dev.poisoned = false) :
    let after := dev.applyRemoteChangesToDb noFaults env now hash changes info hlcService
    match applyRemoteChangesToDb env hash c.state changes info with
    | .ok db => after.1 = .ok () ∧ after.2.connection.map (·.state) = some db
    | .error e => after.1 = .error e := by
  unfold ConnectedDevice.applyRemoteChangesToDb
  rcases hvalid : validateChanges env (orderedChanges hash changes) with e | _
  · have hrefused : applyRemoteChangesToDb env hash c.state changes info = .error e := by
      unfold applyRemoteChangesToDb
      dsimp only
      rw [hvalid]
      rfl
    rw [hrefused]
  · obtain ⟨hstate, hsaved, -⟩ := setForeignKeys_same false c
    have hrun := (batchTx_does env hash changes info hvalid).transaction nestedTransaction noTransaction (hsaved.trans hidle)
    rw [hstate] at hrun
    dsimp only
    rw [hhealthy, hconn]
    dsimp only
    rw [exec_withForeignKeysOff]
    rcases happly : applyRemoteChangesToDb env hash c.state changes info with e | db
    · rw [happly] at hrun
      rcases hexec : exec (transaction noFaults nestedTransaction noTransaction
        (batchTx noFaults env hash (orderedChanges hash changes) info)) (setForeignKeys false c) with ⟨r, c'⟩
      rw [hexec] at hrun
      obtain rfl : r = .error e := hrun
      rfl
    · rw [happly] at hrun
      obtain ⟨n, hn⟩ := hrun
      rw [hn]
      refine ⟨rfl, ?_⟩
      show some (setForeignKeys true _).state = some db
      rw [(setForeignKeys_same true _).1]

end

def notesConnection : Connection Database := { state := notesDb (emptyTable ["id"] ["title"]) }

def openVault : ConnectedDevice Uhlc.oneSecond := ⟨false, some notesConnection, none⟩

theorem applied_as_computed_note :
    let after := openVault.applyRemoteChangesToDb noFaults notesEnv 0 inOrder [noteChange "title" "64/b" "z"] none true
    ∃ db, applyRemoteChangesToDb notesEnv inOrder notesConnection.state [noteChange "title" "64/b" "z"] none = .ok db ∧
      after.1 = .ok () ∧ after.2.connection.map (·.state) = some db := by
  have happly : (applyRemoteChangesToDb notesEnv inOrder notesConnection.state
    [noteChange "title" "64/b" "z"] none).toOption.isSome = true := rfl
  have hconn : openVault.connection = some notesConnection := rfl
  obtain ⟨db, hdb⟩ := exists_ok happly
  have h := applied_as_computed notesEnv 0 inOrder [noteChange "title" "64/b" "z"] none true hconn rfl rfl
  rw [hdb] at h
  exact ⟨db, hdb, h⟩

/-! ## All or nothing -/

/-- The database, with what an open transaction would go back to, and the clock are the same. -/
structure ConnectedDevice.Untouched {u : Uhlc} (dev dev' : ConnectedDevice u) : Prop where
  hlc : dev'.hlc = dev.hlc
  database : dev'.connection.map (fun c => (c.state, c.saved)) = dev.connection.map fun c => (c.state, c.saved)

def ConnectedDevice.starts {u : Uhlc} (env : Env) (hash : Hashing) (changes : List RemoteColumnChange)
    (dev : ConnectedDevice u) (c : Connection Database) : Bool :=
  (validateChanges env (orderedChanges hash changes)).toOption.isSome && !dev.poisoned && c.saved.isNone

/-- How many statements of its connection have run with no transaction open. -/
def ConnectedDevice.loose {u : Uhlc} (dev : ConnectedDevice u) : Nat := (dev.connection.map Connection.loose).getD 0

variable (faults env) in
theorem exec_batch (hash : Hashing) (changes : List RemoteColumnChange) (info : Option (String × String))
    (c : Connection Database) :
    let after := exec (withForeignKeysOff (transaction faults nestedTransaction noTransaction
      (batchTx faults env hash changes info))) c
    (∀ e, after.1 = .error e → after.2.loose = c.loose → after.2.state = c.state ∧ after.2.saved = c.saved) ∧
    (after.1 = .ok () → c.saved = none ∧ after.2.state.triggersEnabled = some "1") ∧
    after.2.foreignKeys = (c.saved.isNone || c.foreignKeys) := by
  have hbody : Keeps Inside (batchTx faults env hash changes info) := batchTx_inside hash changes info
  obtain ⟨hstate, hsaved, hran⟩ := setForeignKeys_same false c
  dsimp only
  refine ⟨fun e h hloose => ?_, fun h => ?_, withForeignKeysOff_foreignKeys (transaction_closes hbody) c⟩
  all_goals
    rw [exec_withForeignKeysOff] at *
    have hcloses := (@transaction_closes _ _ _ faults nestedTransaction noTransaction _ hbody (setForeignKeys false c)).1
    rcases hrun : exec (transaction faults nestedTransaction noTransaction (batchTx faults env hash changes info))
      (setForeignKeys false c) with ⟨r, c₁⟩
    rw [hrun] at h hcloses
    obtain ⟨hstate₁, hsaved₁, hran₁⟩ := setForeignKeys_same true c₁
    dsimp only at h hcloses ⊢
    subst h
    rw [hstate₁]
  · rw [hrun] at hloose
    rw [hsaved₁]
    have hsame : c₁.loose = (setForeignKeys false c).loose := hran₁.symm.trans (hloose.trans hran.symm)
    exact ⟨(transaction_error hbody hrun hsame).trans hstate, hcloses.trans hsaved⟩
  · obtain ⟨hidle, c₂, hc₂, rfl⟩ := transaction_ok hrun
    have htriggers := batchTx_triggersEnabled hc₂
    exact ⟨hsaved.symm.trans hidle, htriggers⟩

/-- An error leaves the clock as it was, and the database too, unless statements have run after a failure that ended the
transaction; success leaves the triggers and the foreign keys on. Foreign keys are on after every call that came as far
as its transaction, and as they were after one that did not. -/
theorem remote_apply_all_or_nothing {u : Uhlc} (faults : Nat → Option (Fault DatabaseError)) (env : Env) (now : Nat)
    (hash : Hashing) (changes : List RemoteColumnChange) (info : Option (String × String)) (hlcService : Bool)
    (dev : ConnectedDevice u) :
    let after := dev.applyRemoteChangesToDb faults env now hash changes info hlcService
    (∀ e, after.1 = .error e → after.2.hlc = dev.hlc ∧ (after.2.loose = dev.loose → dev.Untouched after.2)) ∧
    (after.1 = .ok () →
      ∃ c', after.2.connection = some c' ∧ c'.state.triggersEnabled = some "1" ∧ c'.foreignKeys = true) ∧
    ∀ c, dev.connection = some c →
      ∃ c', after.2.connection = some c' ∧ c'.foreignKeys = (dev.starts env hash changes c || c.foreignKeys) := by
  unfold ConnectedDevice.applyRemoteChangesToDb ConnectedDevice.starts
  rcases validateChanges env (orderedChanges hash changes) with e | _
  · exact ⟨fun _ _ => ⟨rfl, fun _ => ⟨rfl, rfl⟩⟩, nofun, fun c hc => ⟨c, hc, rfl⟩⟩
  · rcases hpoisoned : dev.poisoned with _ | _
    · simp only [Bool.false_eq_true, if_false]
      rcases hconn : dev.connection with _ | c
      · exact ⟨fun _ _ => ⟨rfl, fun _ => ⟨rfl, by rw [hconn]⟩⟩, nofun, nofun⟩
      · obtain ⟨herror, hok, hfk⟩ := exec_batch faults env hash (orderedChanges hash changes) info c
        dsimp only
        rcases hrun : exec (withForeignKeysOff (transaction faults nestedTransaction noTransaction
          (batchTx faults env hash (orderedChanges hash changes) info))) c with ⟨e | _, c'⟩
        · rw [hrun] at herror hfk
          refine ⟨fun _ _ => ⟨rfl, fun hloose => ⟨rfl, ?_⟩⟩, nofun, ?_⟩
          · simp only [ConnectedDevice.loose, hconn, Option.map_some, Option.getD_some] at hloose
            obtain ⟨hstate, hsaved⟩ := herror e rfl hloose
            rw [hconn]
            exact congrArg some (Prod.ext hstate hsaved)
          · rintro _ ⟨rfl⟩
            exact ⟨c', rfl, hfk⟩
        · rw [hrun] at hok hfk
          obtain ⟨hidle, htriggers⟩ := hok rfl
          refine ⟨nofun, fun _ => ⟨c', rfl, htriggers, ?_⟩, ?_⟩
          · rw [hfk, hidle]
            rfl
          · rintro _ ⟨rfl⟩
            exact ⟨c', rfl, hfk⟩
    · exact ⟨fun _ _ => ⟨rfl, fun _ => ⟨rfl, rfl⟩⟩, nofun, fun c hc => ⟨c, hc, rfl⟩⟩

/-- A vault on which something has left the foreign keys off, and a change of a table whose name
is refused: the error comes before they would be switched, so they stay off. -/
theorem refused_batch_leaves_foreign_keys_off :
    let dev : ConnectedDevice Uhlc.oneSecond :=
      ⟨false, some { state := notesDb (emptyTable ["id"] ["title"]), foreignKeys := false }, none⟩
    let change : RemoteColumnChange := ⟨"no such name", "", "title", "64/b", .null⟩
    let after := dev.applyRemoteChangesToDb noFaults notesEnv 0 inOrder [change] none true
    after.1 = .error (.validation "Invalid table name 'no such name' in remote change") ∧
      after.2.connection.map (·.foreignKeys) = some false := by
  decide

end

end HaexVault.Crdt
