import Mathlib.Algebra.Group.Nat.Defs
import Mathlib.Data.List.AList
import Mathlib.Data.List.Induction
import Mathlib.Logic.Function.Basic
import HaexVault.Lib.Keyed
/-!
# The database the sync code runs on

Values, rows and tables, and what SQLite's `INSERT`, `UPDATE` and `DELETE` do to
them, as far as the CRDT code uses them. SQLite's rule for a column named twice
is part of the meaning of a statement: the last assignment of an `UPDATE` wins,
the first occurrence in an `INSERT` column list wins.
-/

namespace HaexVault.Crdt

open HaexVault.Lib

/-- The JSON object of a `haex_column_hlcs` cell: column name to HLC text. -/
abbrev ColumnHlcs := AList fun _ : String => String

/-- `rusqlite::types::Value`. A text that is a JSON object of HLC texts, as the
sync code and the triggers write it, is kept as that object (`hlcs`). -/
inductive SqlValue where
  | null
  | integer (i : Int)
  | real (bits : UInt64)
  | text (s : String)
  | blob (bytes : List UInt8)
  | hlcs (m : ColumnHlcs)
  deriving DecidableEq

inductive JsonNumber where
  | posInt (n : UInt64)
  | negInt (i : Int64)
  | float (bits : UInt64)
  deriving DecidableEq

inductive JsonValue where
  | null
  | bool (b : Bool)
  | number (n : JsonNumber)
  | string (s : String)
  | composite (text : String)
  deriving DecidableEq

/-- The bits of `n as f64` for `2 ^ 63 ≤ n < 2 ^ 64`: the top 53 bits of `n`,
rounded to nearest, ties to even. A carry runs into the exponent. -/
def u64AsF64 (n : Nat) : UInt64 :=
  let q := n / 2048
  let r := n % 2048
  let q' := if r > 1024 ∨ (r = 1024 ∧ q % 2 = 1) then q + 1 else q
  UInt64.ofNat (1086 * 2 ^ 52 + (q' - 2 ^ 52))

def jsonToRusqliteValue : JsonValue → SqlValue
  | .null => .null
  | .bool b => .integer (if b then 1 else 0)
  | .number (.posInt n) => if n.toNat < 2 ^ 63 then .integer n.toNat else .real (u64AsF64 n.toNat)
  | .number (.negInt i) => .integer i.toInt
  | .number (.float bits) => .real bits
  | .string s => .text s
  | .composite text => .text text

/-! ## Tables -/

def hlcTimestampColumn : String := "haex_hlc"
def columnHlcsColumn : String := "haex_column_hlcs"
def deletedRowsTable : String := "haex_deleted_rows"

/-- A column of a table: `ColumnInfo` and its constraints. -/
structure Column where
  name : String
  isPk : Bool := false
  notNull : Bool := false
  dflt : SqlValue := .null

abbrev Row := String → SqlValue

structure Table where
  columns : List Column
  /-- `UNIQUE` constraints beyond the primary key. -/
  uniques : List (List String) := []
  check : Row → Bool := fun _ => true
  hasTriggers : Bool := true
  rows : List Row := []

namespace Table

def columnNames (t : Table) : List String := t.columns.map (·.name)

def pkNames (t : Table) : List String := (t.columns.filter (·.isPk)).map (·.name)

def rowKey (t : Table) (r : Row) : List SqlValue := t.pkNames.map r

def find (t : Table) (k : List SqlValue) : Option Row := Keyed.get t.rowKey t.rows k

def dflt (t : Table) (c : String) : SqlValue :=
  ((t.columns.find? fun col => col.name = c).map (·.dflt)).getD .null

end Table

inductive Violation where
  | notNull (column : String)
  | check
  | unique (columns : List String)
  deriving DecidableEq

def collides (columns : List String) (a b : Row) : Bool :=
  columns ≠ [] && columns.all fun c => a c ≠ .null && a c = b c

def Table.violation (t : Table) (others : List Row) (r : Row) : Option Violation :=
  match t.columns.find? fun c => c.notNull && r c.name = .null with
  | some c => some (.notNull c.name)
  | none =>
    if t.check r then
      ((t.pkNames :: t.uniques).find? fun cols => others.any (collides cols r)).map .unique
    else some .check

def Table.freshRow (t : Table) (pairs : List (String × SqlValue)) : Row :=
  fun c => (pairs.lookup c).getD (t.dflt c)

def Table.insert (t : Table) (pairs : List (String × SqlValue)) : Except Violation Table :=
  let r := t.freshRow pairs
  match t.violation t.rows r with
  | some v => .error v
  | none => .ok { t with rows := t.rows ++ [r] }

/-- The row after the assignments of an `UPDATE`. -/
def assign (r : Row) (sets : List (String × SqlValue)) : Row :=
  sets.foldl (fun r p => Function.update r p.1 p.2) r

def Table.update (t : Table) (k : List SqlValue) (sets : List (String × SqlValue)) : Except Violation Table :=
  let others := t.rows.filter fun r => t.rowKey r ≠ k
  match (t.rows.filter fun r => t.rowKey r = k).findSome? fun r => t.violation others (assign r sets) with
  | some v => .error v
  | none => .ok { t with rows := Keyed.modify t.rowKey t.rows k fun r => assign r sets }

def Table.delete (t : Table) (p : Row → Bool) : Table := { t with rows := t.rows.filter fun r => !p r }

def Table.addColumn (t : Table) (c : Column) : Table :=
  { t with columns := t.columns ++ [c], rows := t.rows.map fun r => Function.update r c.name c.dflt }

/-! ## Assignments -/

theorem assign_of_not_mem {sets : List (String × SqlValue)} {c : String} (r : Row)
    (h : ∀ p ∈ sets, p.1 ≠ c) : assign r sets c = r c := by
  induction sets generalizing r with
  | nil => rfl
  | cons p sets ih =>
    have hp : c ≠ p.1 := Ne.symm (h p (by simp))
    calc assign r (p :: sets) c = assign (Function.update r p.1 p.2) sets c := rfl
      _ = Function.update r p.1 p.2 c := ih _ fun q hq => h q (by simp [hq])
      _ = r c := Function.update_of_ne hp _ _

theorem assign_append (r : Row) (s₁ s₂ : List (String × SqlValue)) :
    assign r (s₁ ++ s₂) = assign (assign r s₁) s₂ := by simp [assign, List.foldl_append]

theorem assign_eq_last (r : Row) (sets : List (String × SqlValue)) (c : String) :
    assign r sets c = (((sets.filter fun p => p.1 = c).getLast?).map (·.2)).getD (r c) := by
  induction sets using List.reverseRecOn with
  | nil => rfl
  | append_singleton sets p ih =>
    rw [assign_append]
    by_cases hp : p.1 = c
    · simp [assign, hp]
    · have hp' : c ≠ p.1 := fun e => hp e.symm
      simp only [assign, List.foldl_cons, List.foldl_nil, Function.update_of_ne hp'] at ih ⊢
      simp [ih, List.filter_append, hp]

theorem lookup_eq_head (pairs : List (String × SqlValue)) (c : String) :
    pairs.lookup c = ((pairs.filter fun p => p.1 = c).head?).map (·.2) := by
  induction pairs with
  | nil => rfl
  | cons p pairs ih =>
    rw [List.lookup_cons]
    by_cases hp : p.1 = c
    · simp [hp]
    · have hp' : (c == p.1) = false := by simpa using fun e : c = p.1 => hp e.symm
      simp [hp, hp', ih]

def Uniform (pairs : List (String × SqlValue)) (c : String) (x : SqlValue) : Prop := ∀ p ∈ pairs, p.1 = c → p.2 = x

theorem assign_uniform {sets : List (String × SqlValue)} {c : String} {x : SqlValue} (h : Uniform sets c x) {r : Row}
    (hr : r c = x) : assign r sets c = x := by
  induction sets generalizing r with
  | nil => exact hr
  | cons p sets ih =>
    refine ih (fun q hq => h q (List.mem_cons_of_mem _ hq)) ?_
    show Function.update r p.1 p.2 c = x
    by_cases hp : p.1 = c
    · rw [← hp, Function.update_self]
      exact h p List.mem_cons_self hp
    · rw [Function.update_of_ne (Ne.symm hp), hr]

theorem lookup_uniform {pairs : List (String × SqlValue)} {c : String} {x : SqlValue} (h : Uniform pairs c x) :
    pairs.lookup c = none ∨ pairs.lookup c = some x := by
  rw [lookup_eq_head]
  cases hd : (pairs.filter fun p => p.1 = c).head? with
  | none => exact .inl rfl
  | some p =>
    have hp := List.mem_filter.1 (List.mem_of_head? hd)
    exact .inr (congrArg some (h p hp.1 (by simpa using hp.2)))

/-! ## Reading rows back -/

theorem Table.rowKey_assign (t : Table) (r : Row) (sets : List (String × SqlValue))
    (h : ∀ p ∈ sets, p.1 ∉ t.pkNames) : t.rowKey (assign r sets) = t.rowKey r := by
  refine List.map_congr_left fun c hc => assign_of_not_mem r fun p hp e => ?_
  exact h p hp (e ▸ hc)

theorem Table.update_eq {t t' : Table} {k : List SqlValue} {sets : List (String × SqlValue)}
    (h : t.update k sets = .ok t') :
    t' = { t with rows := Keyed.modify t.rowKey t.rows k fun r => assign r sets } := by
  unfold Table.update at h
  dsimp only at h
  split at h
  · cases h
  · cases h; rfl

theorem Table.insert_eq {t t' : Table} {pairs : List (String × SqlValue)} (h : t.insert pairs = .ok t') :
    t' = { t with rows := t.rows ++ [t.freshRow pairs] } := by
  unfold Table.insert at h
  dsimp only at h
  split at h
  · cases h
  · cases h; rfl

theorem Table.find_update {t t' : Table} {k : List SqlValue} {sets : List (String × SqlValue)}
    (hpk : ∀ p ∈ sets, p.1 ∉ t.pkNames) (h : t.update k sets = .ok t') (k' : List SqlValue) :
    t'.find k' = if k' = k then (t.find k).map fun r => assign r sets else t.find k' := by
  obtain rfl := Table.update_eq h
  exact Keyed.get_modify t.rows k k' _ fun r hr => (t.rowKey_assign r sets hpk).trans hr

theorem Table.find_insert {t t' : Table} {pairs : List (String × SqlValue)}
    (hnew : t.find (t.rowKey (t.freshRow pairs)) = none) (h : t.insert pairs = .ok t') (k' : List SqlValue) :
    t'.find k' = if k' = t.rowKey (t.freshRow pairs) then some (t.freshRow pairs) else t.find k' := by
  obtain rfl := Table.insert_eq h
  exact Keyed.get_append t.rows _ k' hnew

/-! ## Adding a column -/

theorem Table.pkNames_addColumn (t : Table) {c : Column} (hc : c.isPk = false) : (t.addColumn c).pkNames = t.pkNames := by
  simp [Table.addColumn, Table.pkNames, List.filter_append, hc]

theorem Table.columnNames_addColumn (t : Table) (c : Column) : (t.addColumn c).columnNames = t.columnNames ++ [c.name] := by
  simp [Table.addColumn, Table.columnNames]

theorem Table.find_addColumn (t : Table) {c : Column} (hc : c.isPk = false) (hn : c.name ∉ t.pkNames) (k : List SqlValue) :
    (t.addColumn c).find k = (t.find k).map fun r => Function.update r c.name c.dflt := by
  have hkey : ∀ r : Row, (t.addColumn c).rowKey (Function.update r c.name c.dflt) = t.rowKey r := by
    intro r
    rw [Table.rowKey, t.pkNames_addColumn hc]
    refine List.map_congr_left fun x hx => ?_
    have hx : x ≠ c.name := fun e => hn (e ▸ hx)
    exact Function.update_of_ne hx _ _
  simp only [Table.find, Keyed.get]
  show (t.rows.map fun r => Function.update r c.name c.dflt).find? _ = _
  rw [List.find?_map]
  congr 2
  funext r
  simp only [Function.comp, hkey]

end HaexVault.Crdt
