import HaexVault.Lib.Runs
import HaexVault.Space.InboundSync
/-!
# What a list of changes writes

Applying a list goes row by row, and then through the entries of the delete log it carries. A turn
touches nothing outside a space exactly when the list says so itself (`turn_iff`), and such turns
leave the rows of every other space, and every other table (`apply_confined`).
-/

namespace HaexVault.Space

open HaexVault.Crdt HaexVault.Lib HaexVault.Lib.Lww HaexVault.Lib.Runs HaexVault.Lib.Steps

/-! ## The turns of an application -/

inductive StreamTurn where
  | row (group : (String × String) × List RemoteColumnChange)
  | deleteLog (id : String)
  deriving DecidableEq

/-- The turns of `apply_remote_changes_to_db`. -/
def streamTurns (env : Env) (hash : Hashing) (changes : List RemoteColumnChange) : List StreamTurn :=
  (batchGroups hash changes).map .row ++
    (hash.ids.iter (inboundDeleteLogIds env (orderedChanges hash changes))).map .deleteLog

def streamTurn (env : Env) (db : Except DatabaseError Database) : StreamTurn → Except DatabaseError Database
  | .row group => db >>= fun db => applyRow env db group
  | .deleteLog id => db >>= fun db => propagateDeletedRow env db id

def streamStart (db : Database) : Except DatabaseError Database := .ok { db with triggersEnabled := some "0" }

section Turns
variable {env : Env} {hash : Hashing} {db db' : Database} {changes : List RemoteColumnChange}

theorem run_rows (groups : List ((String × String) × List RemoteColumnChange)) (db : Except DatabaseError Database) :
    run (streamTurn env) db (groups.map .row) = db >>= fun db => applyRows env db groups := by
  induction groups generalizing db with
  | nil => cases db <;> rfl
  | cons g groups ih =>
    rw [List.map_cons, run_cons, ih]
    cases db <;> rfl

theorem run_deletes (ids : List String) (db : Except DatabaseError Database) :
    run (streamTurn env) db (ids.map .deleteLog) = db >>= fun db => ids.foldlM (propagateDeletedRow env) db := by
  induction ids generalizing db with
  | nil => cases db <;> rfl
  | cons id ids ih =>
    rw [List.map_cons, run_cons, ih]
    cases db <;> rfl

theorem apply_turns {info : Option (String × String)} (h : applyRemoteChangesToDb env hash db changes info = .ok db') :
    ∃ db₁, run (streamTurn env) (streamStart db) (streamTurns env hash changes) = .ok db₁ ∧ db'.tables = db₁.tables := by
  obtain ⟨db₁, db₂, h₁, h₂, rfl⟩ := apply_rows h
  refine ⟨db₂, ?_, setPushCursor_tables db₂ info⟩
  rw [streamTurns, run_append, run_rows, run_deletes]
  exact bind_eq_ok.2 ⟨db₁, bind_eq_ok.2 ⟨_, rfl, h₁⟩, h₂⟩

theorem run_error (e : DatabaseError) (ts : List StreamTurn) : run (streamTurn env) (.error e) ts = .error e := by
  induction ts with
  | nil => rfl
  | cons t ts ih => cases t <;> exact ih

theorem each_ok {s : Except DatabaseError Database} {ts : List StreamTurn} (h : run (streamTurn env) s ts = .ok db') :
    Guarded (streamTurn env) (fun s t => ∃ db', streamTurn env s t = .ok db') s ts := by
  induction ts generalizing s with
  | nil => trivial
  | cons t ts ih =>
    rw [run_cons] at h
    refine ⟨?_, ih h⟩
    cases hs : streamTurn env s t with
    | error e =>
      rw [hs, run_error] at h
      cases h
    | ok db₁ => exact ⟨db₁, hs⟩

end Turns

/-! ## The scope -/

abbrev StreamScope := List (String × String)

def OfSpace (scope : StreamScope) (spaceId name : String) (r : Row) : Prop :=
  ∃ column, scope.lookup name = some column ∧ r column = .text spaceId

def StreamConfined (scope : StreamScope) (spaceId : String) (db db' : Database) : Prop :=
  ∀ name, Keyed.DiffersIn (OfSpace scope spaceId name) (tableRows db name) (tableRows db' name)

/-- The same for one turn: a table outside the scope is what it was, its columns too. -/
def Untouched (scope : StreamScope) (spaceId : String) (db db' : Database) : Prop :=
  ∀ name, match scope.lookup name with
    | none => db'.tables name = db.tables name
    | some column => Keyed.DiffersIn (fun r => r column = .text spaceId) (tableRows db name) (tableRows db' name)

structure ScopedTable (column : String) (t : Table) : Prop extends Holds t where
  pk : t.pkNames = ["id"]
  key : KeyRequired t
  hlcs : columnHlcsColumn ∈ t.columnNames
  mem : column ∈ t.columnNames
  metadata : column ≠ hlcTimestampColumn ∧ column ≠ columnHlcsColumn

def ScopedTables (scope : StreamScope) (db : Database) : Prop :=
  ∀ name column t, scope.lookup name = some column → db.tables name = some t → ScopedTable column t

/-! ## Lists that SQLite reads as they stand

SQLite takes names that differ in the case of letters for one, a quoted name without a column
for a text, and converts what it compares to the type of the column. The turns above compare
names and values as they stand. -/

/-- SQLite compares texts with texts as they are, whatever the type of the column. -/
def plainValue : SqlValue → Bool
  | .null | .text _ => true
  | _ => false

def foldName (name : String) : List Char := name.toList.map Char.toLower

def PlainName (db : Database) (name : String) : Prop :=
  ∀ name', (db.tables name').isSome → foldName name' = foldName name → name' = name

def PlainIn (t : Table) (c : String) (x : SqlValue) : Prop := plainValue x = true ∧ ∀ r ∈ t.rows, plainValue (r c) = true

section
variable (env : Env) (scope : StreamScope)

structure PlainRow (db : Database) (group : (String × String) × List RemoteColumnChange) : Prop where
  name : PlainName db group.1.1
  keys : ∀ t pks, db.tables group.1.1 = some t → env.fromStr group.1.2 = some pks →
    ∀ c ∈ t.pkNames, PlainIn t c (((pks.lookup c).map jsonToRusqliteValue).getD .null)
  space : ∀ ch ∈ group.2, scope.lookup group.1.1 = some ch.columnName → plainValue (jsonToRusqliteValue ch.decryptedValue) = true

/-- The entry names its table as it is spelled, and with texts only columns that the table has. -/
def PlainDelete (db : Database) (id : String) : Prop :=
  ∀ log r targetTable rowPksJson, db.tables deletedRowsTable = some log → log.rows.find? (fun r => r "id" = .text id) = some r →
    asText (r "table_name") = some targetTable → asText (r "row_pks") = some rowPksJson →
    PlainName db targetTable ∧ ∀ t cond, db.tables targetTable = some t →
      (env.fromStr rowPksJson).bind (buildPkWhereFromMap env) = some cond → ∀ p ∈ cond, p.1 ∈ t.columnNames ∧ PlainIn t p.1 p.2

def PlainTurn (s : Except DatabaseError Database) : StreamTurn → Prop
  | .row group => ∀ db, s = .ok db → PlainRow env scope db group
  | .deleteLog id => ∀ db, s = .ok db → PlainDelete env db id

/-- SQLite reads every turn of the list as it stands. -/
def PlainList (hash : Hashing) (db : Database) (changes : List RemoteColumnChange) : Prop :=
  Guarded (streamTurn env) (PlainTurn env scope) (streamStart db) (streamTurns env hash changes)

end

/-! ## What a list says of its rows -/

/-- Nothing is written: no change is newer than the row's clocks, or the row is new and breaks a `UNIQUE` constraint. -/
def Unwritten (t : Table) (pks : RowPks) (stored : ColumnHlcs) (cs : List RemoteColumnChange) : Prop :=
  (∀ ch ∈ cs, ch.columnName ∈ t.columnNames → hlcKey ch.hlcTimestamp ≤ clockKey (stored.lookup ch.columnName)) ∨
    t.find (pkKey t pks) = none ∧ ∃ cols, t.insert (insertPairs t pks (collectChanges t.columnNames stored cs)) = .error (.unique cols)

/-- What the list says of a column: for a row that is there the newest change, for a new one its `row_pks` or the first. -/
def declared (t : Table) (pks : RowPks) (old : Option Row) (stored : ColumnHlcs) (cs : List RemoteColumnChange) (c : String) :
    SqlValue :=
  let offered := keptValue old ((accepted clockKey (stored.lookup c, .null) (writesTo c cs)).map (·.2))
  let named := if old = none ∧ c ∈ t.pkNames then (pks.lookup c).map jsonToRusqliteValue else none
  (named.or offered).getD (t.cellOf old c).2

section
variable (env : Env) (scope : StreamScope) (spaceId : String)

/-- The changes of a row that write something are for the space: the row is stored there or new, and stays there. -/
def RowMeets (db : Database) (group : (String × String) × List RemoteColumnChange) : Prop :=
  ∀ t, db.tables group.1.1 = some t → match scope.lookup group.1.1 with
    | none => columnHlcsColumn ∈ t.columnNames ∧ ∀ pks stored, env.fromStr group.1.2 = some pks →
        currentHlcs (t.find (pkKey t pks)) = .ok stored → Unwritten t pks stored group.2
    | some column => ∀ pks stored, env.fromStr group.1.2 = some pks → currentHlcs (t.find (pkKey t pks)) = .ok stored →
        Unwritten t pks stored group.2 ∨ (∀ r, t.find (pkKey t pks) = some r → r column = .text spaceId) ∧
          declared t pks (t.find (pkKey t pks)) stored group.2 column = .text spaceId

/-- What an entry of the delete log, read, takes from its table. -/
structure Deletes (db : Database) (targetTable rowPksJson deleteHlc : String) (cond : List (String × SqlValue)) (t : Table) :
    Prop where
  safe : isSafeIdentifier env targetTable = true
  parsed : (env.fromStr rowPksJson).bind (buildPkWhereFromMap env) = some cond
  table : db.tables targetTable = some t
  columns : ∀ p ∈ cond, p.1 ∈ t.columnNames
  older : shouldPropagateDelete deleteHlc (if hlcTimestampColumn ∈ t.columnNames then
    (t.rows.find? (whereMatches cond)).bind fun r => asText (r hlcTimestampColumn) else none) = true

/-- The entry deletes only rows of the space. -/
def DeleteMeets (db : Database) (id : String) : Prop :=
  ∀ log r targetTable rowPksJson deleteHlc cond t, db.tables deletedRowsTable = some log →
    log.rows.find? (fun r => r "id" = .text id) = some r → asText (r "table_name") = some targetTable →
    asText (r "row_pks") = some rowPksJson → asText (r hlcTimestampColumn) = some deleteHlc →
    Deletes env db targetTable rowPksJson deleteHlc cond t →
    ∀ row ∈ t.rows, whereMatches cond row = true → OfSpace scope spaceId targetTable row

def TurnMeets (s : Except DatabaseError Database) : StreamTurn → Prop
  | .row group => ∀ db, s = .ok db → RowMeets env scope spaceId db group
  | .deleteLog id => ∀ db, s = .ok db → DeleteMeets env scope spaceId db id

def TurnConfined (s : Except DatabaseError Database) (t : StreamTurn) : Prop :=
  ∀ db db', s = .ok db → streamTurn env s t = .ok db' → Untouched scope spaceId db db'

end

/-! ## One row -/

section Row
variable {t t' : Table} {m : RowPks} {stored : ColumnHlcs} {cs : List RemoteColumnChange} {column spaceId : String}

theorem clocks_move (hne : (collectChanges t.columnNames stored cs).columnsToUpdate ≠ []) :
    (collectChanges t.columnNames stored cs).columnHlcs ≠ stored := by
  intro he
  obtain ⟨ch, hch, hx, hlt⟩ : ∃ ch ∈ cs, ch.columnName ∈ t.columnNames ∧
      clockKey (stored.lookup ch.columnName) < hlcKey ch.hlcTimestamp := by
    by_contra hno
    exact hne ((columnsToUpdate_eq_nil t stored cs).2 fun ch hch hx => not_lt.1 fun hlt => hno ⟨ch, hch, hx, hlt⟩)
  have hlook := collect_lookup SqlValue.null stored (knownIn_of_mem hx cs)
  rw [he] at hlook
  rcases foldl_write_cases clockKey (writesTo ch.columnName cs) (stored.lookup ch.columnName, SqlValue.null) with
    ⟨-, hle⟩ | ⟨w, -, hw, hlt', -⟩
  · exact absurd (hle (ch.hlcTimestamp, _) (mem_writesTo.2 ⟨ch, hch, rfl, rfl, rfl⟩)) (not_le.2 hlt)
  · rw [hw] at hlook
    rw [hlook] at hlt'
    exact lt_irrefl _ hlt'

theorem update_moves {r : Row} (hst : currentHlcs (some r) = .ok stored)
    (hne : (collectChanges t.columnNames stored cs).columnsToUpdate ≠ []) :
    assign r ((collectChanges t.columnNames stored cs).changed ++ (collectChanges t.columnNames stored cs).metadata) ≠ r := by
  have hmoved := clocks_move hne
  generalize collectChanges t.columnNames stored cs = acc at hmoved
  intro he
  have hcell : r columnHlcsColumn = .hlcs acc.columnHlcs := by
    rw [← he, assign_append, assign_metadata, Function.update_of_ne (by decide), Function.update_self]
  simp only [currentHlcs, hcell, Except.ok.injEq] at hst
  exact hmoved hst

theorem wrote_cases (h : Wrote t (pkKey t m) m (collectChanges t.columnNames stored cs) t') :
    Unwritten t m stored cs ∧ t' = t ∨ ¬ Unwritten t m stored cs ∧
      (collectChanges t.columnNames stored cs).columnsToUpdate ≠ [] ∧
      ((∃ r, t.find (pkKey t m) = some r ∧ t.update (pkKey t m) ((collectChanges t.columnNames stored cs).changed ++
          (collectChanges t.columnNames stored cs).metadata) = .ok t') ∨
        t.find (pkKey t m) = none ∧ t.insert (insertPairs t m (collectChanges t.columnNames stored cs)) = .ok t') := by
  have hidle := columnsToUpdate_eq_nil t stored cs
  cases h with
  | nothing hnil => exact .inl ⟨.inl (hidle.1 hnil), rfl⟩
  | conflict hne hnone hin => exact .inl ⟨.inr ⟨hnone, _, hin⟩, rfl⟩
  | update hne hrow hup =>
    obtain ⟨r, hr⟩ := Option.isSome_iff_exists.1 hrow
    refine .inr ⟨?_, hne, .inl ⟨r, hr, hup⟩⟩
    rintro (hall | ⟨hnone, -⟩)
    · exact hne (hidle.2 hall)
    · rw [hr] at hnone
      cases hnone
  | insert hne hnone hin =>
    refine .inr ⟨?_, hne, .inr ⟨hnone, hin⟩⟩
    rintro (hall | ⟨-, cols, herr⟩)
    · exact hne (hidle.2 hall)
    · rw [hin] at herr
      cases herr

theorem wrote_same_iff (h : Wrote t (pkKey t m) m (collectChanges t.columnNames stored cs) t')
    (hst : currentHlcs (t.find (pkKey t m)) = .ok stored) : t' = t ↔ Unwritten t m stored cs := by
  rcases wrote_cases h with ⟨hnothing, he⟩ | ⟨hwrites, hne, hw⟩
  · exact ⟨fun _ => hnothing, fun _ => he⟩
  refine ⟨fun he => ?_, fun hnothing => absurd hnothing hwrites⟩
  rcases hw with ⟨r, hr, hup⟩ | ⟨-, hin⟩
  · have hrows : t.rows = Keyed.modify t.rowKey t.rows (pkKey t m) _ :=
      (congrArg Table.rows he).symm.trans (congrArg Table.rows (Table.update_eq hup))
    have hfix := List.map_inj_left.1 ((List.map_id _).trans hrows) r (Keyed.get_mem hr)
    rw [if_pos (Keyed.get_key hr)] at hfix
    exact absurd hfix.symm (update_moves (hr ▸ hst) hne)
  · have hrows := congrArg (fun t => t.rows.length) (he.symm.trans (Table.insert_eq hin))
    simp at hrows

theorem updated_declared (ht : ScopedTable column t) (r : Row) :
    assign r ((collectChanges t.columnNames stored cs).changed ++ (collectChanges t.columnNames stored cs).metadata) column =
      declared t m (some r) stored cs column := by
  have hchanged := collect_changed SqlValue.null stored (knownIn_of_mem ht.mem cs)
  generalize collectChanges t.columnNames stored cs = acc at hchanged
  rw [assign_append, assign_metadata, Function.update_of_ne ht.metadata.1, Function.update_of_ne ht.metadata.2, assign_eq_last,
    hchanged]
  simp [declared, keptValue, Table.cellOf, List.getLast?_map, Function.comp_def]

theorem inserted_declared (ht : ScopedTable column t) :
    t.freshRow (insertPairs t m (collectChanges t.columnNames stored cs)) column = declared t m none stored cs column := by
  have hchanged := collect_changed SqlValue.null stored (knownIn_of_mem ht.mem cs)
  generalize collectChanges t.columnNames stored cs = acc at hchanged
  have hmeta : acc.metadata.lookup column = none := by
    rw [List.lookup_eq_none_iff]
    intro p hp
    simp only [RowAcc.metadata, List.mem_cons, List.not_mem_nil, or_false] at hp
    rcases hp with rfl | rfl
    · simpa using ht.metadata.2
    · simpa using ht.metadata.1
  have hkey : (t.pkNames.zip ((t.pkNames.filterMap fun c => m.lookup c).map jsonToRusqliteValue)).lookup column =
      if column ∈ t.pkNames then (m.lookup column).map jsonToRusqliteValue else none := by
    rw [ht.pk]
    by_cases hc : column = "id"
    · subst hc
      cases hid : m.lookup "id" <;> simp [hid]
    · have hne : (column == "id") = false := by simpa using hc
      cases hid : m.lookup "id" <;> simp [hid, hc, hne, List.lookup_cons]
  have hoffered : acc.changed.lookup column =
      keptValue none ((accepted clockKey (stored.lookup column, .null) (writesTo column cs)).map (·.2)) := by
    rw [lookup_eq_head, hchanged]
    simp [keptValue, List.head?_map, Function.comp_def]
  simp only [Table.freshRow, insertPairs, List.append_assoc, List.lookup_append, hkey, hoffered, hmeta, declared, Table.cellOf,
    true_and, Option.or_none]

/-- In the scope: a turn changes only rows of the space exactly when the list says so of the row it names. -/
theorem wrote_differs_iff (ht : ScopedTable column t) (h : Wrote t (pkKey t m) m (collectChanges t.columnNames stored cs) t')
    (hst : currentHlcs (t.find (pkKey t m)) = .ok stored) :
    Keyed.DiffersIn (fun r => r column = .text spaceId) t.rows t'.rows ↔
      Unwritten t m stored cs ∨ (∀ r, t.find (pkKey t m) = some r → r column = .text spaceId) ∧
        declared t m (t.find (pkKey t m)) stored cs column = .text spaceId := by
  rcases wrote_cases h with ⟨hnothing, rfl⟩ | ⟨hwrites, hne, hw⟩
  · exact ⟨fun _ => .inl hnothing, fun _ => .refl _⟩
  rw [or_iff_right hwrites]
  rcases hw with ⟨r, hr, hup⟩ | ⟨hnone, hin⟩
  · have hmoved := update_moves (hr ▸ hst) hne
    have hval := @updated_declared t m stored cs column ht r
    rw [hr]
    generalize (collectChanges t.columnNames stored cs).changed ++ (collectChanges t.columnNames stored cs).metadata = sets
      at hup hmoved hval
    have hmem : r ∈ t.rows := Keyed.get_mem hr
    have hkey : t.rowKey r = pkKey t m := Keyed.get_key hr
    have honly : ∀ o ∈ t.rows, t.rowKey o = pkKey t m → o = r := fun o ho hk =>
      Option.some.inj ((hk ▸ Keyed.get_of_mem ht.keys ho : Keyed.get t.rowKey t.rows (pkKey t m) = some o).symm.trans hr)
    rw [Table.update_eq hup]
    constructor
    · intro hdiff
      refine ⟨fun r' hr' => Option.some.inj hr' ▸ (hdiff.removed r hmem).resolve_left fun hm => ?_, hval ▸ ?_⟩
      · obtain ⟨o, ho, he⟩ := List.mem_map.1 hm
        split at he
        · rename_i hk
          rw [honly o ho hk] at he
          exact hmoved he
        · rename_i hk
          exact hk (he ▸ hkey)
      · have hnew : assign r sets ∈ Keyed.modify t.rowKey t.rows (pkKey t m) fun o => assign o sets :=
          List.mem_map.2 ⟨r, hmem, if_pos hkey⟩
        refine (hdiff.added _ hnew).resolve_left fun hold => ?_
        by_cases hk : t.rowKey (assign r sets) = pkKey t m
        · exact hmoved (honly _ hold hk)
        · have hother : assign r sets ∈ t.rows.filter fun o => t.rowKey o ≠ pkKey t m :=
            List.mem_filter.2 ⟨hold, by simpa using hk⟩
          exact rowKey_ne_of_violation ht.key (update_violation hup hmem hkey) hother rfl
    · rintro ⟨hbefore, hafter⟩
      refine .modify fun o ho hk => ?_
      rw [honly o ho hk]
      exact ⟨hbefore r rfl, hval.trans hafter⟩
  · have hval := @inserted_declared t m stored cs column ht
    rw [hnone, Table.insert_eq hin]
    constructor
    · intro hdiff
      refine ⟨fun r hr => (by cases hr), hval ▸ ?_⟩
      refine (hdiff.added _ (List.mem_append_right _ (List.mem_singleton_self _))).resolve_left fun hold => ?_
      exact rowKey_ne_of_violation ht.key (insert_violation hin) hold rfl
    · rintro ⟨-, hafter⟩
      exact .append (hval.trans hafter)

end Row

section Turn
variable {env : Env} {scope : StreamScope} {spaceId : String} {db db' : Database}

theorem tableRows_eq {name : String} {t : Table} (ht : db.tables name = some t) : tableRows db name = t.rows := by
  simp [tableRows, ht]

theorem untouched_iff {name : String} {t : Option Table} (h : db'.tables = Function.update db.tables name t) :
    Untouched scope spaceId db db' ↔ match scope.lookup name with
      | none => t = db.tables name
      | some column => Keyed.DiffersIn (fun r => r column = .text spaceId) (tableRows db name) ((t.map (·.rows)).getD []) := by
  have hrows : tableRows db' name = (t.map (·.rows)).getD [] := by rw [tableRows, h, Function.update_self]
  have hother : ∀ n, n ≠ name → db'.tables n = db.tables n := fun n hn => by rw [h, Function.update_of_ne hn]
  constructor
  · intro hall
    have hname := hall name
    split at hname
    · rename_i hl
      rw [h, Function.update_self] at hname
      simpa only [hl] using hname
    · rename_i column hl
      rw [hrows] at hname
      simpa only [hl] using hname
  · intro hname n
    by_cases hn : n = name
    · subst hn
      split at hname
      · exact (congrFun h n).trans ((Function.update_self ..).trans hname)
      · exact hrows ▸ hname
    · split
      · exact hother n hn
      · rw [tableRows, tableRows, hother n hn]
        exact .refl _

theorem hlcs_mem_ensureCrdtColumns (t : Table) : columnHlcsColumn ∈ (ensureCrdtColumns t).columnNames := by
  unfold ensureCrdtColumns
  dsimp only
  split
  · rename_i hc
    split
    · exact hc
    · rw [Table.columnNames_addColumn]
      exact List.mem_append_left _ hc
  · rw [Table.columnNames_addColumn]
    exact List.mem_append_right _ (List.mem_singleton_self _)

theorem ensureCrdtColumnsAndTriggers_columns (t : Table) :
    (ensureCrdtColumnsAndTriggers t).1.columns = (ensureCrdtColumns t).columns := by
  unfold ensureCrdtColumnsAndTriggers
  dsimp only
  split
  · rfl
  · split <;> rfl

theorem applyRow_upgrades {group : (String × String) × List RemoteColumnChange} {t : Table} (ht : db.tables group.1.1 = some t)
    (hc : columnHlcsColumn ∉ t.columnNames) (h : applyRow env db group = .ok db') :
    ∃ t', db'.tables group.1.1 = some t' ∧ columnHlcsColumn ∈ t'.columnNames := by
  have hmem : columnHlcsColumn ∈ (ensureCrdtColumnsAndTriggers t).1.columnNames := by
    rw [Table.columnNames, ensureCrdtColumnsAndTriggers_columns]
    exact hlcs_mem_ensureCrdtColumns t
  unfold applyRow at h
  simp only [ht, hc, if_false] at h
  generalize ensureCrdtColumnsAndTriggers t = upgraded at h hmem
  split at h
  · cases h
    exact ⟨upgraded.1, by simp [Database.setTable], hmem⟩
  · split at h
    · cases h
    · split at h
      · cases h
      · obtain ⟨stored, -, h⟩ := bind_eq_ok.1 h
        split at h
        · cases h
          exact ⟨upgraded.1, by simp [addPending, Database.setTable], hmem⟩
        · unfold writeRow at h
          split at h
          · split at h
            · rename_i t' hup
              cases h
              refine ⟨t', by simp [addPending, Database.setTable], ?_⟩
              rw [Table.update_eq hup]
              exact hmem
            · cases h
          · split at h
            · rename_i t' hin
              cases h
              refine ⟨t', by simp [addPending, Database.setTable], ?_⟩
              rw [Table.insert_eq hin]
              exact hmem
            · cases h
            · cases h
              exact ⟨upgraded.1, by simp [addPending, Database.setTable], hmem⟩
            · cases h

theorem applyRow_iff (hs : ScopedTables scope db) {group : (String × String) × List RemoteColumnChange}
    (h : applyRow env db group = .ok db') : RowMeets env scope spaceId db group ↔ Untouched scope spaceId db db' := by
  cases ht : db.tables group.1.1 with
  | none =>
    have he : db' = db := by
      simp only [applyRow, ht] at h
      cases h
      rfl
    subst he
    refine ⟨fun _ name => ?_, fun _ t ht' => by rw [ht] at ht'; cases ht'⟩
    split
    · rfl
    · exact .refl _
  | some t =>
    have hmeets : RowMeets env scope spaceId db group ↔ match scope.lookup group.1.1 with
        | none => columnHlcsColumn ∈ t.columnNames ∧ ∀ pks stored, env.fromStr group.1.2 = some pks →
            currentHlcs (t.find (pkKey t pks)) = .ok stored → Unwritten t pks stored group.2
        | some column => ∀ pks stored, env.fromStr group.1.2 = some pks → currentHlcs (t.find (pkKey t pks)) = .ok stored →
            Unwritten t pks stored group.2 ∨ (∀ r, t.find (pkKey t pks) = some r → r column = .text spaceId) ∧
              declared t pks (t.find (pkKey t pks)) stored group.2 column = .text spaceId :=
      ⟨fun hm => hm t ht, fun hm t' ht' => Option.some.inj (ht.symm.trans ht') ▸ hm⟩
    rw [hmeets]
    by_cases hc : columnHlcsColumn ∈ t.columnNames
    · obtain ⟨m, stored, t₁, hm, hst, -, htables, -, hw⟩ := applyRow_inv ht hc h
      rw [untouched_iff htables]
      cases hl : scope.lookup group.1.1 with
      | none =>
        simp only [ht, Option.some_inj, wrote_same_iff hw hst]
        refine ⟨fun hall => hall.2 m stored hm hst, fun hall => ⟨hc, fun pks stored' hpks hst' => ?_⟩⟩
        obtain rfl := Option.some.inj (hm.symm.trans hpks)
        obtain rfl := Except.ok.inj (hst.symm.trans hst')
        exact hall
      | some column =>
        simp only [tableRows_eq ht, Option.map_some, Option.getD_some,
          @wrote_differs_iff _ _ _ _ _ _ spaceId (hs _ column t hl ht) hw hst]
        refine ⟨fun hall => hall m stored hm hst, fun hall pks stored' hpks hst' => ?_⟩
        obtain rfl := Option.some.inj (hm.symm.trans hpks)
        obtain rfl := Except.ok.inj (hst.symm.trans hst')
        exact hall
    · obtain ⟨t', ht', hc'⟩ := applyRow_upgrades ht hc h
      cases hl : scope.lookup group.1.1 with
      | none =>
        refine ⟨fun hall => absurd hall.1 hc, fun hall => ?_⟩
        have hsame := hall group.1.1
        simp only [hl] at hsame
        obtain rfl := Option.some.inj (ht.symm.trans (hsame.symm.trans ht'))
        exact absurd hc' hc
      | some column => exact absurd (hs _ column t hl ht).hlcs hc

theorem propagateDelete_cases (env : Env) (db : Database) (targetTable rowPksJson deleteHlc : String) :
    (∀ cond t, ¬ Deletes env db targetTable rowPksJson deleteHlc cond t) ∧
        propagateDelete env db targetTable rowPksJson deleteHlc = db ∨
      ∃ cond t, Deletes env db targetTable rowPksJson deleteHlc cond t ∧
        propagateDelete env db targetTable rowPksJson deleteHlc = db.setTable targetTable (t.delete (whereMatches cond)) := by
  unfold propagateDelete
  split
  · rename_i hunsafe
    refine .inl ⟨fun cond t hd => ?_, rfl⟩
    rw [hd.safe] at hunsafe
    cases hunsafe
  rename_i hsafe
  split
  · rename_i cond t hparsed ht
    dsimp only
    split
    · rename_i hunknown
      refine .inl ⟨fun cond' t' hd => ?_, rfl⟩
      obtain rfl := Option.some.inj (hparsed.symm.trans hd.parsed)
      obtain rfl := Option.some.inj (ht.symm.trans hd.table)
      obtain ⟨p, hp, hn⟩ := List.any_eq_true.1 hunknown
      exact of_decide_eq_true hn (hd.columns p hp)
    · rename_i hknown
      by_cases holder : shouldPropagateDelete deleteHlc (if hlcTimestampColumn ∈ t.columnNames then
          (t.rows.find? (whereMatches cond)).bind fun r => asText (r hlcTimestampColumn) else none) = true
      · refine .inr ⟨cond, t, ⟨by simpa using hsafe, hparsed, ht, fun p hp => ?_, holder⟩, if_pos holder⟩
        by_contra hn
        exact hknown (List.any_eq_true.2 ⟨p, hp, decide_eq_true hn⟩)
      · refine .inl ⟨fun cond' t' hd => ?_, if_neg holder⟩
        obtain rfl := Option.some.inj (hparsed.symm.trans hd.parsed)
        obtain rfl := Option.some.inj (ht.symm.trans hd.table)
        exact holder hd.older
  · rename_i hnot
    exact .inl ⟨fun cond t hd => hnot cond t hd.parsed hd.table, rfl⟩

theorem delete_iff {targetTable : String} {t : Table} (ht : db.tables targetTable = some t) (p : Row → Bool) :
    (∀ row ∈ t.rows, p row = true → OfSpace scope spaceId targetTable row) ↔
      Untouched scope spaceId db (db.setTable targetTable (t.delete p)) := by
  rw [@untouched_iff _ _ db (db.setTable targetTable (t.delete p)) targetTable (some (t.delete p)) rfl]
  cases hl : scope.lookup targetTable with
  | none =>
    simp only [ht, Option.some_inj]
    constructor
    · intro hall
      have hkeep : t.rows.filter (fun r => !p r) = t.rows := by
        refine List.filter_eq_self.2 fun r hr => ?_
        cases hp : p r with
        | false => rfl
        | true =>
          obtain ⟨column, hc, -⟩ := hall r hr hp
          rw [hl] at hc
          cases hc
      rw [Table.delete, hkeep]
    · intro hsame row hrow hp
      have hkeep := List.filter_eq_self.1 (congrArg Table.rows hsame) row hrow
      rw [hp] at hkeep
      cases hkeep
  | some column =>
    simp only [tableRows_eq ht, Option.map_some, Option.getD_some]
    constructor
    · intro hall
      refine ⟨fun r hr => .inl (List.mem_of_mem_filter hr), fun r hr => ?_⟩
      cases hp : p r with
      | false => exact .inl (List.mem_filter.2 ⟨hr, by simp [hp]⟩)
      | true =>
        obtain ⟨column', hc, hr'⟩ := hall r hr hp
        rw [hl, Option.some_inj] at hc
        exact .inr (hc ▸ hr')
    · intro hdiff row hrow hp
      refine ⟨column, hl, (hdiff.removed row hrow).resolve_left fun hkept => ?_⟩
      have hnot := (List.mem_filter.1 hkept).2
      rw [hp] at hnot
      cases hnot

theorem Untouched.refl (scope : StreamScope) (spaceId : String) (db : Database) : Untouched scope spaceId db db := by
  intro name
  split
  · rfl
  · exact .refl _

theorem propagateDeletedRow_iff {id : String} (h : propagateDeletedRow env db id = .ok db') :
    DeleteMeets env scope spaceId db id ↔ Untouched scope spaceId db db' := by
  unfold propagateDeletedRow at h
  split at h
  · cases h
  rename_i log hlog
  split at h
  · rename_i hnone
    cases h
    refine ⟨fun _ => .refl _ _ _, fun _ log' r _ _ _ _ _ hlog' hr => ?_⟩
    obtain rfl := Option.some.inj (hlog.symm.trans hlog')
    rw [hnone] at hr
    cases hr
  rename_i r hr
  split at h
  · rename_i targetTable rowPksJson deleteHlc htarget hpks hhlc
    cases h
    -- the entry is read the same way wherever it is read
    have hmeets : DeleteMeets env scope spaceId db id ↔ ∀ cond t, Deletes env db targetTable rowPksJson deleteHlc cond t →
        ∀ row ∈ t.rows, whereMatches cond row = true → OfSpace scope spaceId targetTable row := by
      refine ⟨fun hm cond t => hm log r _ _ _ cond t hlog hr htarget hpks hhlc, fun hm => ?_⟩
      intro log' r' targetTable' rowPksJson' deleteHlc' cond t hlog' hr' htarget' hpks' hhlc'
      obtain rfl := Option.some.inj (hlog.symm.trans hlog')
      obtain rfl := Option.some.inj (hr.symm.trans hr')
      obtain rfl := Option.some.inj (htarget.symm.trans htarget')
      obtain rfl := Option.some.inj (hpks.symm.trans hpks')
      obtain rfl := Option.some.inj (hhlc.symm.trans hhlc')
      exact hm cond t
    rw [hmeets]
    rcases propagateDelete_cases env db targetTable rowPksJson deleteHlc with ⟨hnot, he⟩ | ⟨cond, t, hd, he⟩
    · rw [he]
      exact ⟨fun _ => .refl _ _ _, fun _ cond t hd => absurd hd (hnot cond t)⟩
    · rw [he, ← delete_iff hd.table]
      refine ⟨fun hm => hm cond t hd, fun hm cond' t' hd' => ?_⟩
      obtain rfl := Option.some.inj (hd.parsed.symm.trans hd'.parsed)
      obtain rfl := Option.some.inj (hd.table.symm.trans hd'.table)
      exact hm
  · cases h

/-! ## Every turn -/

theorem ScopedTable.withRows {column : String} {t t' : Table} (h : ScopedTable column t) (hrows : t' = { t with rows := t'.rows })
    (hholds : Holds t') : ScopedTable column t' := by
  rw [hrows] at hholds ⊢
  exact ⟨hholds, h.pk, ⟨h.key.ne_nil, h.key.notNull⟩, h.hlcs, h.mem, h.metadata⟩

theorem ScopedTables.applyRow (hs : ScopedTables scope db) {group : (String × String) × List RemoteColumnChange}
    (h : Crdt.applyRow env db group = .ok db') : ScopedTables scope db' := by
  intro name column t' hl ht'
  obtain ⟨x, htables⟩ := applyRow_other h
  by_cases hn : name = group.1.1
  · subst hn
    cases ht : db.tables group.1.1 with
    | none =>
      have he : db' = db := by
        simp only [Crdt.applyRow, ht] at h
        cases h
        rfl
      rw [he, ht] at ht'
      cases ht'
    | some t =>
      have hscoped := hs _ column t hl ht
      obtain ⟨m, stored, t₁, -, -, -, htables', -, hw⟩ := applyRow_inv ht hscoped.hlcs h
      rw [htables', Function.update_self, Option.some_inj] at ht'
      subst ht'
      exact hscoped.withRows hw.rows (hscoped.toHolds.wrote hscoped.key hw)
  · rw [htables, Function.update_of_ne hn] at ht'
    exact hs name column t' hl ht'

theorem ScopedTables.propagateDeletedRow (hs : ScopedTables scope db) {id : String}
    (h : Crdt.propagateDeletedRow env db id = .ok db') : ScopedTables scope db' := by
  unfold Crdt.propagateDeletedRow at h
  split at h
  · cases h
  split at h
  · cases h
    exact hs
  split at h
  · rename_i targetTable rowPksJson deleteHlc _ _ _
    cases h
    rcases propagateDelete_cases env db targetTable rowPksJson deleteHlc with ⟨-, he⟩ | ⟨cond, t, hd, he⟩
    · rw [he]
      exact hs
    · rw [he]
      intro name column t' hl ht'
      by_cases hn : name = targetTable
      · subst hn
        simp only [Database.setTable, Function.update_self, Option.some_inj] at ht'
        subst ht'
        have hscoped := hs _ column t hl hd.table
        exact hscoped.withRows rfl (hscoped.toHolds.delete _)
      · simp only [Database.setTable, Function.update_of_ne hn] at ht'
        exact hs name column t' hl ht'
  · cases h

/-- A turn that goes through touches nothing outside the space exactly when the list says so. -/
theorem turn_iff {s : Except DatabaseError Database} {t : StreamTurn} (hs : ∀ db, s = .ok db → ScopedTables scope db)
    (hok : ∃ db', streamTurn env s t = .ok db') : TurnMeets env scope spaceId s t ↔ TurnConfined env scope spaceId s t := by
  obtain ⟨db', hok⟩ := hok
  cases s with
  | error e => cases t <;> cases hok
  | ok db =>
    have hconf : TurnConfined env scope spaceId (.ok db) t ↔ Untouched scope spaceId db db' := by
      refine ⟨fun h => h db db' rfl hok, ?_⟩
      rintro h _ _ ⟨⟩ hok'
      exact Except.ok.inj (hok.symm.trans hok') ▸ h
    rw [hconf]
    cases t with
    | row group =>
      rw [← applyRow_iff (hs db rfl) hok]
      refine ⟨fun h => h db rfl, ?_⟩
      rintro h _ ⟨⟩
      exact h
    | deleteLog id =>
      rw [← propagateDeletedRow_iff hok]
      refine ⟨fun h => h db rfl, ?_⟩
      rintro h _ ⟨⟩
      exact h

theorem turn_scoped (s : Except DatabaseError Database) (t : StreamTurn) (hs : ∀ db, s = .ok db → ScopedTables scope db) :
    ∀ db', streamTurn env s t = .ok db' → ScopedTables scope db' := by
  intro db' h
  cases t with
  | row group =>
    obtain ⟨db, rfl, h⟩ := bind_eq_ok.1 h
    exact (hs db rfl).applyRow h
  | deleteLog id =>
    obtain ⟨db, rfl, h⟩ := bind_eq_ok.1 h
    exact (hs db rfl).propagateDeletedRow h

theorem Untouched.confined (h : Untouched scope spaceId db db') : StreamConfined scope spaceId db db' := by
  intro name
  have hname := h name
  split at hname
  · rw [tableRows, tableRows, hname]
    exact .refl _
  · rename_i column hl
    exact hname.mono fun r hr => ⟨column, hl, hr⟩

theorem confined_run {ts : List StreamTurn} (h : Guarded (streamTurn env) (TurnConfined env scope spaceId) (.ok db) ts)
    (hrun : run (streamTurn env) (.ok db) ts = .ok db') : StreamConfined scope spaceId db db' := by
  induction ts generalizing db with
  | nil =>
    cases hrun
    exact fun name => .refl _
  | cons t ts ih =>
    obtain ⟨hturn, hrest⟩ := h
    cases hs : streamTurn env (.ok db) t with
    | error e =>
      rw [run_cons, hs, run_error] at hrun
      cases hrun
    | ok db₁ =>
      rw [run_cons, hs] at hrun
      rw [hs] at hrest
      exact fun name => ((hturn db db₁ rfl hs).confined name).trans (ih hrest hrun name)

end Turn

/-! ## A whole list -/

section List
variable {env : Env} {hash : Hashing} {scope : StreamScope} {spaceId : String} {db db' : Database}
  {changes : List RemoteColumnChange} {info : Option (String × String)}

def ListMeets (env : Env) (hash : Hashing) (scope : StreamScope) (spaceId : String) (db : Database)
    (changes : List RemoteColumnChange) : Prop :=
  Guarded (streamTurn env) (TurnMeets env scope spaceId) (streamStart db) (streamTurns env hash changes)

def ListConfined (env : Env) (hash : Hashing) (scope : StreamScope) (spaceId : String) (db : Database)
    (changes : List RemoteColumnChange) : Prop :=
  Guarded (streamTurn env) (TurnConfined env scope spaceId) (streamStart db) (streamTurns env hash changes)

theorem list_iff (hs : ScopedTables scope db) (h : applyRemoteChangesToDb env hash db changes info = .ok db') :
    ListMeets env hash scope spaceId db changes ↔ ListConfined env hash scope spaceId db changes := by
  obtain ⟨db₁, hrun, -⟩ := apply_turns h
  refine ((each_ok hrun).each (I := fun s => ∀ db, s = .ok db → ScopedTables scope db) (fun s t hs _ => turn_scoped s t hs)
    (fun s t hs hok => turn_iff hs hok) ?_).congr
  rintro _ ⟨⟩
  exact hs

theorem apply_confined (h : applyRemoteChangesToDb env hash db changes info = .ok db')
    (hconf : ListConfined env hash scope spaceId db changes) : StreamConfined scope spaceId db db' := by
  obtain ⟨db₁, hrun, htables⟩ := apply_turns h
  intro name
  have hname := confined_run hconf hrun name
  have hrows : tableRows db' name = tableRows db₁ name := by rw [tableRows, tableRows, htables]
  rw [hrows]
  exact hname

theorem ScopedTables.apply (hs : ScopedTables scope db) (h : applyRemoteChangesToDb env hash db changes info = .ok db') :
    ScopedTables scope db' := by
  obtain ⟨db₁, hrun, htables⟩ := apply_turns h
  have hrun' : ∀ db₂, run (streamTurn env) (streamStart db) (streamTurns env hash changes) = .ok db₂ → ScopedTables scope db₂ := by
    refine (guarded_true _ _).inv (I := fun s => ∀ db, s = .ok db → ScopedTables scope db) (fun s t hs _ => turn_scoped s t hs) ?_
    rintro _ ⟨⟩
    exact hs
  intro name column t hl ht
  exact hrun' db₁ hrun name column t hl (htables ▸ ht)

end List

end HaexVault.Space
