import Mathlib.Data.List.Lex
import HaexVault.Crdt.Batch
import HaexVault.Crdt.Trigger
/-!
# Scanning tables for changes to push (`stores/sync/tableScanner.ts`, `utils/hlc.ts`)

The sync orchestrator has its own HLC comparator: the time is a `BigInt`, whose constructor throws on
a text it cannot read. A scan selects the rows whose `haex_hlc` is above the push cursor as a text and
emits a change for every column whose HLC the comparator finds newer.
-/

namespace HaexVault.Sync

open HaexVault.Crdt (Database Table Row SqlValue ColumnHlcs HashOrder parseDigits splitOnce asText hlcTimestampColumn
  columnHlcsColumn)
open HaexVault.Lib.Steps

/-! ## HLC texts -/

/-- The white space and line ends `BigInt` trims. -/
def isStrWhiteSpace (c : Char) : Bool :=
  c.toNat ∈ [0x9, 0xA, 0xB, 0xC, 0xD, 0x20, 0xA0, 0x1680, 0x2028, 0x2029, 0x202F, 0x205F, 0x3000, 0xFEFF] ||
    (0x2000 ≤ c.toNat && c.toNat ≤ 0x200A)

/-- `BigInt(s)`; `none` is the `SyntaxError`. -/
def bigInt (s : List Char) : Option Int :=
  match ((s.dropWhile isStrWhiteSpace).reverse.dropWhile isStrWhiteSpace).reverse with
  | [] => some 0
  | '+' :: ds => (parseDigits 10 ds).map Int.ofNat
  | '-' :: ds => (parseDigits 10 ds).map fun n => -Int.ofNat n
  | '0' :: 'x' :: ds | '0' :: 'X' :: ds => (parseDigits 16 ds).map Int.ofNat
  | '0' :: 'o' :: ds | '0' :: 'O' :: ds => (parseDigits 8 ds).map Int.ofNat
  | '0' :: 'b' :: ds | '0' :: 'B' :: ds => (parseDigits 2 ds).map Int.ofNat
  | ds => (parseDigits 10 ds).map Int.ofNat

def codeUnits (s : List Char) : List Nat :=
  s.flatMap fun c =>
    if c.toNat < 0x10000 then [c.toNat]
    else [0xD800 + (c.toNat - 0x10000) / 0x400, 0xDC00 + (c.toNat - 0x10000) % 0x400]

/-- The inner `parse` of `compareHlc`. -/
def parse (s : String) : Option (Int × List Nat) :=
  match splitOnce '/' s.toList with
  | none => (bigInt s.toList).map fun time => (time, [])
  | some (time, node) => (bigInt time).map fun time => (time, codeUnits node)

/-- `compareHlc`; `none` is the error `BigInt` throws. -/
def compareHlc (a b : String) : Option Ordering := do
  let (aTime, aNode) ← parse a
  let (bTime, bNode) ← parse b
  if aTime ≠ bTime then some (if bTime < aTime then .gt else .lt)
  else if aNode < bNode then some .lt
  else if bNode < aNode then some .gt
  else some .eq

def hlcIsNewer (a b : String) : Option Bool := (compareHlc a b).map (· == .gt)

def hlcRank (s : String) : Option (ℤ ×ₗ List ℕ) := (parse s).map toLex

def Newer (a b : String) : Prop := hlcIsNewer a b = some true

instance (a b : String) : Decidable (Newer a b) := inferInstanceAs (Decidable (_ = _))

theorem newer_iff {a b : String} : Newer a b ↔ ∃ x y, hlcRank a = some x ∧ hlcRank b = some y ∧ y < x := by
  unfold Newer hlcIsNewer compareHlc hlcRank
  rcases ha : parse a with _ | ⟨aTime, aNode⟩
  · simp
  rcases hb : parse b with _ | ⟨bTime, bNode⟩
  · simp
  simp only [Option.bind_eq_bind, Option.bind_some, Option.map_some, Option.some.injEq]
  rw [show (∃ x y, toLex (aTime, aNode) = x ∧ toLex (bTime, bNode) = y ∧ y < x) ↔
    toLex (bTime, bNode) < toLex (aTime, aNode) from ⟨fun ⟨_, _, hx, hy, h⟩ => hx ▸ hy ▸ h, fun h => ⟨_, _, rfl, rfl, h⟩⟩]
  rw [Prod.Lex.toLex_lt_toLex]
  rcases lt_trichotomy aTime bTime with h | h | h
  · simp [h.ne, h.not_gt, h.ne']
  · subst h
    rcases lt_trichotomy aNode bNode with h' | h' | h'
    · simp [h', h'.not_gt]
    · simp [h']
    · simp [h', h'.not_gt]
  · simp [h, h.ne']

theorem hlcIsNewer_isSome {a b : String} : (hlcIsNewer a b).isSome ↔ (hlcRank a).isSome ∧ (hlcRank b).isSome := by
  unfold hlcIsNewer compareHlc hlcRank
  rcases parse a with _ | ⟨aTime, aNode⟩
  · simp
  rcases parse b with _ | ⟨bTime, bNode⟩
  · simp
  simp only [Option.bind_eq_bind, Option.bind_some, Option.map_some, Option.isSome_some, and_self, iff_true]
  split_ifs <;> rfl

theorem Newer.trans {a b c : String} (h : Newer a b) (h' : Newer b c) : Newer a c := by
  obtain ⟨x, y, hx, hy, hyx⟩ := newer_iff.1 h
  obtain ⟨y', z, hy', hz, hzy⟩ := newer_iff.1 h'
  obtain rfl := Option.some.inj (hy.symm.trans hy')
  exact newer_iff.2 ⟨x, z, hx, hz, hzy.trans hyx⟩

theorem Newer.irrefl (a : String) : ¬ Newer a a := by
  intro h
  obtain ⟨x, y, hx, hy, hyx⟩ := newer_iff.1 h
  obtain rfl := Option.some.inj (hx.symm.trans hy)
  exact lt_irrefl _ hyx

theorem Newer.of_not_newer {a b c : String} (h : Newer a b) (hc : (hlcRank c).isSome) (h' : ¬ Newer c b) : Newer a c := by
  obtain ⟨x, y, hx, hy, hyx⟩ := newer_iff.1 h
  obtain ⟨z, hz⟩ := Option.isSome_iff_exists.1 hc
  refine newer_iff.2 ⟨x, z, hx, hz, lt_of_le_of_lt (not_lt.1 fun hlt => ?_) hyx⟩
  exact h' (newer_iff.2 ⟨z, y, hz, hy, hlt⟩)

def maxHlc (start : String) (hs : List String) : Option String :=
  hs.foldlM (fun max h => (hlcIsNewer h max).map fun newer => if newer then h else max) start

theorem maxHlc_spec {hs : List String} {start m : String} (hstart : (hlcRank start).isSome) (h : maxHlc start hs = some m) :
    (hlcRank m).isSome ∧ m ∈ start :: hs ∧ ∀ x ∈ start :: hs, (hlcRank x).isSome ∧ ¬ Newer x m := by
  induction hs generalizing start with
  | nil =>
    obtain rfl := Option.some.inj h
    refine ⟨hstart, List.mem_singleton_self _, fun x hx => ?_⟩
    rw [List.mem_singleton.1 hx]
    exact ⟨hstart, Newer.irrefl _⟩
  | cons a hs ih =>
    rw [maxHlc, List.foldlM_cons] at h
    obtain ⟨next, hnext, h⟩ := Option.bind_eq_some_iff.1 h
    obtain ⟨b, hb, rfl⟩ := Option.map_eq_some_iff.1 hnext
    have ha : (hlcRank a).isSome := (hlcIsNewer_isSome.1 (Option.isSome_iff_exists.2 ⟨b, hb⟩)).1
    rcases b with _ | _
    · -- `a` is not newer than the running maximum, which stays
      obtain ⟨hm, hmem, hall⟩ := ih hstart h
      refine ⟨hm, ?_, fun x hx => ?_⟩
      · rcases List.mem_cons.1 hmem with e | hmem
        · exact e ▸ List.mem_cons_self
        · exact List.mem_cons_of_mem _ (List.mem_cons_of_mem _ hmem)
      rcases List.mem_cons.1 hx with rfl | hx
      · exact hall _ List.mem_cons_self
      rcases List.mem_cons.1 hx with rfl | hx
      · have hold : ¬ Newer x start := by rw [Newer, hb]; simp
        exact ⟨ha, fun hn => hold (hn.of_not_newer hstart (hall _ List.mem_cons_self).2)⟩
      · exact hall x (List.mem_cons_of_mem _ hx)
    · obtain ⟨hm, hmem, hall⟩ := ih ha h
      refine ⟨hm, List.mem_cons_of_mem _ hmem, fun x hx => ?_⟩
      rcases List.mem_cons.1 hx with rfl | hx
      · have hnew : Newer a x := hb
        exact ⟨hstart, fun hn => (hall a List.mem_cons_self).2 (hnew.trans hn)⟩
      · exact hall x hx

theorem maxHlc_isSome {hs : List String} {start : String} (hstart : (hlcRank start).isSome)
    (h : ∀ x ∈ hs, (hlcRank x).isSome) : (maxHlc start hs).isSome := by
  induction hs generalizing start with
  | nil => rfl
  | cons a hs ih =>
    have ha := h a List.mem_cons_self
    obtain ⟨b, hb⟩ := Option.isSome_iff_exists.1 (hlcIsNewer_isSome.2 ⟨ha, hstart⟩)
    have hs' : ∀ x ∈ hs, (hlcRank x).isSome := fun x hx => h x (List.mem_cons_of_mem _ hx)
    rw [maxHlc, List.foldlM_cons, hb]
    rcases b with _ | _
    · exact ih hstart hs'
    · exact ih ha hs'

/-! ## The push cursor -/

/-- The scanner's test of a column HLC against `lastPushHlcTimestamp`: no cursor,
or an empty one, lets everything through. -/
def passesCursor (lastPushHlcTimestamp : Option String) (h : String) : Option Bool :=
  match lastPushHlcTimestamp with
  | none => some true
  | some c => if c = "" then some true else hlcIsNewer h c

def Unpushed (lastPushHlcTimestamp : Option String) (h : String) : Prop := passesCursor lastPushHlcTimestamp h = some true

instance (c : Option String) (h : String) : Decidable (Unpushed c h) := inferInstanceAs (Decidable (_ = _))

theorem unpushed_some {c h : String} (hc : c ≠ "") : Unpushed (some c) h ↔ Newer h c := by
  simp [Unpushed, passesCursor, hc, Newer]

theorem Newer.unpushed {c h : String} (hn : Newer h c) : Unpushed (some c) h := by
  by_cases hc : c = ""
  · simp [Unpushed, passesCursor, hc]
  · exact (unpushed_some hc).2 hn

/-! ## Changes -/

/-- Which cell a change is of, and its HLC. The primary keys are kept as the object
that `JSON.stringify` serialises. -/
structure CellChange where
  tableName : String
  rowPks : List (String × SqlValue)
  columnName : String
  hlcTimestamp : String
  deriving DecidableEq

structure ColumnChange extends CellChange where
  encryptedValue : String
  nonce : String
  deviceId : String
  epoch : Option Nat
  deriving DecidableEq

structure ScanContext where
  deviceId : String
  epoch : Option Nat
  /-- `encryptCrdtData` under the backend's key. -/
  encryptCrdtData : SqlValue → String × String
  /-- `JSON.parse` of a `haex_column_hlcs` text that is no object of HLC texts. -/
  parseJson : String → Option ColumnHlcs
  /-- SQLite's `json_object`. -/
  jsonObject : List (String × SqlValue) → String
  /-- The order in which a `SELECT` returns its rows. -/
  order : HashOrder Row

inductive ScanError where
  | noPrimaryKey (tableName : String)
  | json
  | hlc
  | sql
  deriving DecidableEq

def extractPrimaryKeys (t : Table) (r : Row) : List (String × SqlValue) := t.pkNames.map fun c => (c, r c)

/-- The data columns of `getTableColumnsAsync`: the ones the triggers track. -/
def dataColumns (t : Table) : List String := t.colsToTrack

def collect {α β : Type} (f : α → Except ScanError (List β)) : List α → Except ScanError (List β)
  | [] => .ok []
  | a :: l => do
    let bs ← f a
    let rest ← collect f l
    .ok (bs ++ rest)

theorem mem_collect {α β : Type} {f : α → Except ScanError (List β)} {l : List α} {out : List β}
    (h : collect f l = .ok out) {b : β} (hb : b ∈ out) : ∃ a ∈ l, ∃ bs, f a = .ok bs ∧ b ∈ bs := by
  induction l generalizing out with
  | nil =>
    cases h
    cases hb
  | cons a l ih =>
    obtain ⟨bs, hbs, h⟩ := bind_eq_ok.1 h
    obtain ⟨rest, hrest, h⟩ := bind_eq_ok.1 h
    cases h
    rcases List.mem_append.1 hb with hb | hb
    · exact ⟨a, List.mem_cons_self, bs, hbs, hb⟩
    · obtain ⟨a', ha', bs', hbs', hb'⟩ := ih hrest hb
      exact ⟨a', List.mem_cons_of_mem _ ha', bs', hbs', hb'⟩

def rowColumnHlcs (parseJson : String → Option ColumnHlcs) (r : Row) : Except ScanError ColumnHlcs :=
  match r columnHlcsColumn with
  | .hlcs m => .ok m
  | .text s => match parseJson s with
    | some m => .ok m
    | none => .error .json
  | _ => .ok ∅

def hlcToUse (columnHlcs : ColumnHlcs) (r : Row) (column : String) : String :=
  let rowHlc := (asText (r hlcTimestampColumn)).getD ""
  match columnHlcs.lookup column with
  | some h => if h = "" then rowHlc else h
  | none => rowHlc

section
variable (ctx : ScanContext)

def columnChange (t : Table) (tableName : String) (columnHlcs : ColumnHlcs) (r : Row) (column : String) : ColumnChange where
  tableName
  rowPks := extractPrimaryKeys t r
  columnName := column
  hlcTimestamp := hlcToUse columnHlcs r column
  encryptedValue := (ctx.encryptCrdtData (r column)).1
  nonce := (ctx.encryptCrdtData (r column)).2
  deviceId := ctx.deviceId
  epoch := ctx.epoch

/-- The inner loop of `processRowsToChangesAsync`: the changes of one row. -/
def rowChanges (t : Table) (tableName : String) (lastPushHlcTimestamp : Option String) (r : Row) :
    Except ScanError (List ColumnChange) := do
  let columnHlcs ← rowColumnHlcs ctx.parseJson r
  collect (fun column =>
    let h := hlcToUse columnHlcs r column
    -- a column that never got an HLC does not travel
    if h = "" then .ok []
    else match passesCursor lastPushHlcTimestamp h with
      | none => .error .hlc
      | some false => .ok []
      | some true => .ok [columnChange ctx t tableName columnHlcs r column]) (dataColumns t)

def aboveCursor (lastPushHlcTimestamp : Option String) (r : Row) : Bool :=
  match lastPushHlcTimestamp with
  | none => true
  | some c => c = "" || (asText (r hlcTimestampColumn)).any fun h => c < h

/-- The common end of the three scans: the selected rows above the cursor, row by row. -/
def scanRows (t : Table) (tableName : String) (lastPushHlcTimestamp : Option String) (selected : List Row) :
    Except ScanError (List ColumnChange) :=
  if t.pkNames = [] then .error (.noPrimaryKey tableName)
  else collect (rowChanges ctx t tableName lastPushHlcTimestamp)
    (ctx.order.iter (selected.filter (aboveCursor lastPushHlcTimestamp)))

/-- `scanTableForChangesAsync`. -/
def scanTableForChanges (db : Database) (tableName : String) (lastPushHlcTimestamp : Option String) :
    Except ScanError (List ColumnChange) :=
  match db.tables tableName with
  | none => .error (.noPrimaryKey tableName)
  | some t => scanRows ctx t tableName lastPushHlcTimestamp t.rows

def spaceColumnRows (t : Table) (spaceId spaceColumn : String) : List Row :=
  t.rows.filter fun r => r spaceColumn = .text spaceId

/-- `scanTableForSpaceColumnChangesAsync`. -/
def scanTableForSpaceColumnChanges (db : Database) (tableName spaceId spaceColumn : String)
    (lastPushHlcTimestamp : Option String) : Except ScanError (List ColumnChange) :=
  match db.tables tableName with
  | none => .error (.noPrimaryKey tableName)
  | some t => scanRows ctx t tableName lastPushHlcTimestamp (spaceColumnRows t spaceId spaceColumn)

/-- The rows of `haex_shared_space_sync` for a table and a space. -/
def assignments (sync : Table) (tableName spaceId : String) : List Row :=
  sync.rows.filter fun a => a "table_name" = .text tableName && a "space_id" = .text spaceId

def assignedRows (t sync : Table) (tableName spaceId : String) : List Row :=
  t.rows.flatMap fun r => ((assignments sync tableName spaceId).filter fun a =>
    a "row_pks" = .text (ctx.jsonObject (extractPrimaryKeys t r))).map fun _ => r

/-- `scanTableForSpaceChangesAsync`. -/
def scanTableForSpaceChanges (db : Database) (tableName spaceId : String) (lastPushHlcTimestamp : Option String) :
    Except ScanError (List ColumnChange) :=
  match db.tables "haex_shared_space_sync" with
  | none => .error .sql
  | some sync =>
    -- without an assignment the table's schema is not even read
    if assignments sync tableName spaceId = [] then .ok []
    else match db.tables tableName with
      | none => .error (.noPrimaryKey tableName)
      | some t => scanRows ctx t tableName lastPushHlcTimestamp (assignedRows ctx t sync tableName spaceId)

end

/-! ## The changes a table holds -/

/-- The changes a row holds, whatever the cursor: none if its column HLCs cannot be read. -/
def rowCells (parseJson : String → Option ColumnHlcs) (t : Table) (tableName : String) (r : Row) : List CellChange :=
  match rowColumnHlcs parseJson r with
  | .error _ => []
  | .ok m => ((dataColumns t).filter fun column => hlcToUse m r column ≠ "").map fun column =>
      ⟨tableName, extractPrimaryKeys t r, column, hlcToUse m r column⟩

def tableCells (parseJson : String → Option ColumnHlcs) (db : Database) (tableName : String) : List CellChange :=
  match db.tables tableName with
  | none => []
  | some t => t.rows.flatMap (rowCells parseJson t tableName)

/-! ## The dirty-tables tracker -/

structure DirtyTable where
  tableName : String
  lastModified : String
  deriving DecidableEq

def markDirty (dirty : List DirtyTable) (tableName now : String) : List DirtyTable :=
  dirty.filter (fun d => d.tableName ≠ tableName) ++ [⟨tableName, now⟩]

def getDirtyTables (dirty : List DirtyTable) : List DirtyTable :=
  dirty.insertionSort fun a b => a.lastModified ≤ b.lastModified

/-- `clear_dirty_table` with a `before_timestamp`. -/
def clearDirtyTable (dirty : List DirtyTable) (tableName beforeTimestamp : String) : List DirtyTable :=
  dirty.filter fun d => !(d.tableName = tableName && d.lastModified ≤ beforeTimestamp)

/-! ## What a scan emits -/

section
variable {ctx : ScanContext} {t : Table} {tableName : String} {cursor : Option String} {c : ColumnChange}

theorem rowChanges_mem {r : Row} {cs : List ColumnChange} (h : rowChanges ctx t tableName cursor r = .ok cs) (hc : c ∈ cs) :
    c.hlcTimestamp ≠ "" ∧ Unpushed cursor c.hlcTimestamp ∧ c.tableName = tableName := by
  obtain ⟨m, -, h⟩ := bind_eq_ok.1 h
  obtain ⟨column, -, bs, hbs, hb⟩ := mem_collect h hc
  dsimp only at hbs
  split at hbs
  · cases hbs
    cases hb
  · rename_i hne
    split at hbs
    · cases hbs
    · cases hbs
      cases hb
    · rename_i hpass
      cases hbs
      obtain rfl := List.mem_singleton.1 hb
      exact ⟨hne, hpass, rfl⟩

theorem scanRows_mem {selected : List Row} {cs : List ColumnChange} (h : scanRows ctx t tableName cursor selected = .ok cs)
    (hc : c ∈ cs) : c.hlcTimestamp ≠ "" ∧ Unpushed cursor c.hlcTimestamp ∧ c.tableName = tableName := by
  unfold scanRows at h
  split at h
  · cases h
  · obtain ⟨r, -, bs, hbs, hb⟩ := mem_collect h hc
    exact rowChanges_mem hbs hb

theorem scanTableForChanges_mem {db : Database} {cs : List ColumnChange}
    (h : scanTableForChanges ctx db tableName cursor = .ok cs) (hc : c ∈ cs) :
    c.hlcTimestamp ≠ "" ∧ Unpushed cursor c.hlcTimestamp ∧ c.tableName = tableName := by
  unfold scanTableForChanges at h
  split at h
  · cases h
  · exact scanRows_mem h hc

theorem scanTableForSpaceColumnChanges_mem {db : Database} {spaceId column : String} {cs : List ColumnChange}
    (h : scanTableForSpaceColumnChanges ctx db tableName spaceId column cursor = .ok cs) (hc : c ∈ cs) :
    c.hlcTimestamp ≠ "" ∧ Unpushed cursor c.hlcTimestamp ∧ c.tableName = tableName := by
  unfold scanTableForSpaceColumnChanges at h
  split at h
  · cases h
  · exact scanRows_mem h hc

theorem scanTableForSpaceChanges_mem {db : Database} {spaceId : String} {cs : List ColumnChange}
    (h : scanTableForSpaceChanges ctx db tableName spaceId cursor = .ok cs) (hc : c ∈ cs) :
    c.hlcTimestamp ≠ "" ∧ Unpushed cursor c.hlcTimestamp ∧ c.tableName = tableName := by
  unfold scanTableForSpaceChanges at h
  split at h
  · cases h
  · split at h
    · cases h
      cases hc
    · split at h
      · cases h
      · exact scanRows_mem h hc

/-! ## What a scan does not miss -/

/-- A scan gets through the row: its column HLCs can be read and compared with the cursor. -/
def RowReadable (parseJson : String → Option ColumnHlcs) (t : Table) (lastPushHlcTimestamp : Option String) (r : Row) :
    Prop :=
  ∃ m, rowColumnHlcs parseJson r = .ok m ∧ ∀ column ∈ dataColumns t, hlcToUse m r column ≠ "" →
    (passesCursor lastPushHlcTimestamp (hlcToUse m r column)).isSome

theorem collect_ok {α β : Type} {f : α → Except ScanError (List β)} {l : List α} (h : ∀ a ∈ l, ∃ bs, f a = .ok bs) :
    ∃ out, collect f l = .ok out ∧ ∀ a ∈ l, ∀ bs, f a = .ok bs → ∀ b ∈ bs, b ∈ out := by
  induction l with
  | nil => exact ⟨[], rfl, by simp⟩
  | cons a l ih =>
    obtain ⟨bs, hbs⟩ := h a List.mem_cons_self
    obtain ⟨rest, hrest, hmem⟩ := ih fun x hx => h x (List.mem_cons_of_mem _ hx)
    refine ⟨bs ++ rest, bind_eq_ok.2 ⟨bs, hbs, bind_eq_ok.2 ⟨rest, hrest, rfl⟩⟩, fun x hx cs hcs b hb => ?_⟩
    rcases List.mem_cons.1 hx with rfl | hx
    · rw [hbs] at hcs
      cases hcs
      exact List.mem_append_left _ hb
    · exact List.mem_append_right _ (hmem x hx cs hcs b hb)

theorem rowChanges_complete {r : Row} (h : RowReadable ctx.parseJson t cursor r) :
    ∃ cs, rowChanges ctx t tableName cursor r = .ok cs ∧ ∀ c ∈ rowCells ctx.parseJson t tableName r,
      Unpushed cursor c.hlcTimestamp → c ∈ cs.map ColumnChange.toCellChange := by
  obtain ⟨m, hm, hread⟩ := h
  have hcolumns : ∀ column ∈ dataColumns t, ∃ cs, (if hlcToUse m r column = "" then .ok []
      else match passesCursor cursor (hlcToUse m r column) with
        | none => .error .hlc
        | some false => .ok []
        | some true => .ok [columnChange ctx t tableName m r column] : Except ScanError (List ColumnChange)) = .ok cs := by
    intro column hcolumn
    by_cases hempty : hlcToUse m r column = ""
    · exact ⟨[], by rw [if_pos hempty]⟩
    · obtain ⟨pass, hpass⟩ := Option.isSome_iff_exists.1 (hread column hcolumn hempty)
      rw [if_neg hempty, hpass]
      rcases pass with _ | _
      · exact ⟨[], rfl⟩
      · exact ⟨_, rfl⟩
  obtain ⟨out, hout, hmem⟩ := collect_ok hcolumns
  refine ⟨out, bind_eq_ok.2 ⟨m, hm, hout⟩, fun c hc hun => ?_⟩
  unfold rowCells at hc
  rw [hm] at hc
  obtain ⟨column, hcolumn, rfl⟩ := List.mem_map.1 hc
  obtain ⟨hdata, hne⟩ := List.mem_filter.1 hcolumn
  -- the column is one that the loop emits
  have hpass : passesCursor cursor (hlcToUse m r column) = some true := hun
  refine List.mem_map.2 ⟨columnChange ctx t tableName m r column, hmem column hdata _ ?_ _ (List.mem_singleton.2 rfl), rfl⟩
  rw [if_neg (by simpa using hne), hpass]

theorem scanRows_complete {selected : List Row} (hpk : t.pkNames ≠ [])
    (h : ∀ r ∈ selected, aboveCursor cursor r = true → RowReadable ctx.parseJson t cursor r) :
    ∃ cs, scanRows ctx t tableName cursor selected = .ok cs ∧ ∀ r ∈ selected, aboveCursor cursor r = true →
      ∀ c ∈ rowCells ctx.parseJson t tableName r, Unpushed cursor c.hlcTimestamp → c ∈ cs.map ColumnChange.toCellChange := by
  have hperm := ctx.order.perm (selected.filter (aboveCursor cursor))
  have hrows : ∀ r ∈ ctx.order.iter (selected.filter (aboveCursor cursor)),
      ∃ cs, rowChanges ctx t tableName cursor r = .ok cs := by
    intro r hr
    obtain ⟨hr, habove⟩ := List.mem_filter.1 (hperm.mem_iff.1 hr)
    obtain ⟨cs, hcs, -⟩ := @rowChanges_complete ctx t tableName cursor r (h r hr habove)
    exact ⟨cs, hcs⟩
  obtain ⟨out, hout, hmem⟩ := collect_ok hrows
  refine ⟨out, by rw [scanRows, if_neg hpk]; exact hout, fun r hr habove c hc hun => ?_⟩
  obtain ⟨cs, hcs, hall⟩ := @rowChanges_complete ctx t tableName cursor r (h r hr habove)
  obtain ⟨x, hx, rfl⟩ := List.mem_map.1 (hall c hc hun)
  exact List.mem_map.2 ⟨x, hmem r (hperm.mem_iff.2 (List.mem_filter.2 ⟨hr, habove⟩)) cs hcs x hx, rfl⟩

end

end HaexVault.Sync
