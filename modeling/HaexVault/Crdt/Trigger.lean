import HaexVault.Crdt.Commands
/-!
# Local writes and their triggers (`crdt/trigger.rs`, `crdt/transformer`)

The transformer adds `haex_hlc` with the transaction's HLC to every local
`INSERT` and `UPDATE`. The triggers then keep `haex_column_hlcs`: an inserted row
gets the HLC for every tracked column, an updated one for those that changed.
-/

namespace HaexVault.Crdt

def untrackedNames : List String :=
  [hlcTimestampColumn, columnHlcsColumn, "last_push_hlc_timestamp", "last_pull_server_timestamp", "updated_at",
    "created_at"]

def Table.colsToTrack (t : Table) : List String :=
  (t.columns.filter fun c => !c.isPk && c.name ∉ untrackedNames).map (·.name)

/-- The `WHEN` condition of the triggers. `haex_hlc` is never null here, and a
missing config row compares as null. -/
def Database.triggersFire (db : Database) (t : Table) : Bool := t.hasTriggers && db.triggersEnabled = some "1"

def Table.keyed (t : Table) (r : Row) : Bool := t.pkNames.all fun c => r c ≠ .null

/-- `json_object` with the HLC for every tracked column. -/
def insertedHlcs (cols : List String) (hlc : String) : ColumnHlcs := cols.foldl (fun m c => m.insert c hlc) ∅

/-- `generate_insert_trigger_sql`: the row after the insert trigger. -/
def insertTrigger (t : Table) (hlc : String) (r : Row) : Row :=
  if t.keyed r then Function.update r columnHlcsColumn (.hlcs (insertedHlcs t.colsToTrack hlc)) else r

/-- The `json_set` of every tracked column that changed. -/
def updatedHlcs (cols : List String) (hlc : String) (old new : Row) (m : ColumnHlcs) : ColumnHlcs :=
  cols.foldl (fun m c => if new c = old c then m else m.insert c hlc) m

/-- `generate_update_trigger_sql`: the row after the update trigger. `none` is
`json_set` on a text that is no JSON. -/
def updateTrigger (t : Table) (hlc : String) (old new : Row) : Option Row :=
  if t.keyed new then
    match new columnHlcsColumn with
    | .hlcs m => some (Function.update new columnHlcsColumn (.hlcs (updatedHlcs t.colsToTrack hlc old new m)))
    | .null => some new
    | _ => if t.colsToTrack.all fun c => new c = old c then some new else none
  else some new

/-- `transform_insert`: the HLC replaces a given one. -/
def stampInsert (pairs : List (String × SqlValue)) (hlc : String) : List (String × SqlValue) :=
  (pairs.filter fun p => p.1 ≠ hlcTimestampColumn) ++ [(hlcTimestampColumn, .text hlc)]

/-- A local `INSERT` of one row, stamped and with its trigger. -/
def localInsert (db : Database) (name : String) (pairs : List (String × SqlValue)) (hlc : String) :
    Except DatabaseError Database :=
  match db.tables name with
  | none => .error (.sqlite "no such table")
  | some t =>
    let r := t.freshRow (stampInsert pairs hlc)
    match t.violation t.rows r with
    | some _ => .error (.sqlite "constraint failed")
    | none =>
      let r := if db.triggersFire t then insertTrigger t hlc r else r
      .ok (db.setTable name { t with rows := t.rows ++ [r] })

def stampUpdate (sets : Row → List (String × SqlValue)) (hlc : String) (r : Row) : Row :=
  assign r (sets r ++ [(hlcTimestampColumn, .text hlc)])

/-- The rows of a local `UPDATE`, one after the other: `done` are those already
visited. -/
def updateRows (t : Table) (fires : Bool) (hlc : String) (p : Row → Bool) (sets : Row → List (String × SqlValue)) :
    List Row → List Row → Except DatabaseError (List Row)
  | done, [] => .ok done
  | done, r :: rest =>
    if p r then
      let new := stampUpdate sets hlc r
      match t.violation (done ++ rest) new with
      | some _ => .error (.sqlite "constraint failed")
      | none =>
        match (if fires then updateTrigger t hlc r new else some new) with
        | some r' => updateRows t fires hlc p sets (done ++ [r']) rest
        | none => .error (.sqlite "malformed JSON")
    else updateRows t fires hlc p sets (done ++ [r]) rest

def localUpdate (db : Database) (name : String) (p : Row → Bool) (sets : Row → List (String × SqlValue)) (hlc : String) :
    Except DatabaseError Database :=
  match db.tables name with
  | none => .error (.sqlite "no such table")
  | some t => (updateRows t (db.triggersFire t) hlc p sets [] t.rows).map fun rows =>
      db.setTable name { t with rows := rows }

/-- `generate_delete_trigger_sql`: the row the trigger logs before a row is deleted. -/
def logDelete (jsonObject : List (String × SqlValue) → String) (uuid : Row → String) (name : String) (t : Table)
    (hlc : String) (db : Database) (r : Row) : Except DatabaseError Database :=
  match db.tables deletedRowsTable with
  | none => .error (.sqlite "no such table")
  | some log =>
    match log.insert [("id", .text (uuid r)), ("table_name", .text name),
      ("row_pks", .text (jsonObject (t.pkNames.map fun c => (c, r c)))), (hlcTimestampColumn, .text hlc),
      (columnHlcsColumn, .hlcs ∅)] with
    | .ok log' => .ok (db.setTable deletedRowsTable log')
    | .error _ => .error (.sqlite "constraint failed")

/-- A local `DELETE … WHERE p` with its trigger. -/
def localDelete (jsonObject : List (String × SqlValue) → String) (uuid : Row → String) (db : Database) (name : String)
    (p : Row → Bool) (hlc : String) : Except DatabaseError Database :=
  match db.tables name with
  | none => .error (.sqlite "no such table")
  | some t => do
    let db ← if db.triggersFire t then (t.rows.filter p).foldlM (logDelete jsonObject uuid name t hlc) db else .ok db
    match db.tables name with
    | none => .ok db
    | some t => .ok (db.setTable name (t.delete p))

/-! ## What the triggers record -/

theorem foldl_insert_lookup (p : String → Bool) (cols : List String) (hlc : String) (m : ColumnHlcs) (c : String) :
    (cols.foldl (fun m c => if p c then m else m.insert c hlc) m).lookup c =
      if c ∈ cols ∧ p c = false then some hlc else m.lookup c := by
  induction cols generalizing m with
  | nil => simp
  | cons d cols ih =>
    rw [List.foldl_cons, ih]
    by_cases hcd : c = d
    · subst hcd
      by_cases hp : p c
      · simp [hp]
      · simp [hp]
    · by_cases hp : p d
      · simp [hp, hcd]
      · simp [hp, hcd, AList.lookup_insert_ne hcd]

theorem insertedHlcs_lookup (cols : List String) (hlc c : String) :
    (insertedHlcs cols hlc).lookup c = if c ∈ cols then some hlc else none := by
  simpa [insertedHlcs] using foldl_insert_lookup (fun _ => false) cols hlc ∅ c

theorem updatedHlcs_lookup (cols : List String) (hlc : String) (old new : Row) (m : ColumnHlcs) (c : String) :
    (updatedHlcs cols hlc old new m).lookup c = if c ∈ cols ∧ new c ≠ old c then some hlc else m.lookup c := by
  simpa [updatedHlcs] using foldl_insert_lookup (fun c => new c = old c) cols hlc m c

end HaexVault.Crdt
