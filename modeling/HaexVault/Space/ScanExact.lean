import HaexVault.Space.Scanner
import Mathlib.Data.List.Flatten
/-!
# What a scan of one table leaves out

A scan selects rows in SQL, where `haex_hlc` is compared with the cursor as a text, and columns in
Rust, where HLCs are compared as numbers. `Due` says what a scan ought to emit; a row whose time has
one digit more than the cursor's is left out (`scan_exact_iff`).
-/

namespace HaexVault.Space

open HaexVault.Crdt HaexVault.Lib

/-- The arguments of `scan_table_for_local_changes_scoped`. -/
structure ScanQuery where
  afterHlc : Option String
  deviceId : String
  spaceIdFilter : Option String
  originNodeFilter : Option Nat

namespace ScanQuery

variable (q : ScanQuery)

def args : ScanArgs := ⟨q.spaceIdFilter.getD "", q.afterHlc, q.deviceId, q.originNodeFilter⟩

def aboveCursor (r : Row) : Bool := q.afterHlc.all fun h => (asText (r hlcTimestampColumn)).any fun h' => h < h'

def inSpace (r : Row) : Bool := q.spaceIdFilter.all fun id => r "space_id" = .text id

end ScanQuery

section
variable (x : Scanner)

/-- `scan_table_for_local_changes_scoped`, with any filters. -/
def scanTableScoped (db : Database) (tableName : String) (q : ScanQuery) : Except DatabaseError (List LocalColumnChange) :=
  match db.tables tableName with
  | none => .ok []
  | some t =>
    if t.pkNames = [] then .error (.execution tableName ("Table '" ++ tableName ++ "' has no primary key"))
    else if q.spaceIdFilter.isSome ∧ "space_id" ∉ t.columnNames then .ok []
    else .ok ((x.order.iter (t.rows.filter fun r => q.aboveCursor r && q.inSpace r)).flatMap (rowChanges x t tableName q.args))

end

/-! ## What is due -/

/-- The row matches the space filter; one without `space_id` matches none. -/
def PassesFilter (t : Table) (q : ScanQuery) (r : Row) : Prop :=
  q.inSpace r = true ∧ (q.spaceIdFilter.isSome → "space_id" ∈ t.columnNames)

instance (t : Table) (q : ScanQuery) (r : Row) : Decidable (PassesFilter t q r) := inferInstanceAs (Decidable (_ ∧ _))

/-- The column of the row has this effective HLC, newer than the cursor and of the origin asked for. -/
def Due (q : ScanQuery) (r : Row) (column hlc : String) : Prop :=
  hlcToUse r column = some hlc ∧ (∀ h, q.afterHlc = some h → hlcKey h < hlcKey hlc) ∧
    ∀ n, q.originNodeFilter = some n → hlcIsFromNode hlc n = true

def dueChanges (x : Scanner) (t : Table) (tableName : String) (q : ScanQuery) : List LocalColumnChange :=
  (t.rows.filter fun r => PassesFilter t q r).flatMap (rowChanges x t tableName q.args)

variable {x : Scanner} {db : Database} {t : Table} {tableName : String} {q : ScanQuery}

theorem passes_iff {hlc : String} : q.args.passes hlc = true ↔
    (∀ h, q.afterHlc = some h → hlcKey h < hlcKey hlc) ∧ ∀ n, q.originNodeFilter = some n → hlcIsFromNode hlc n = true := by
  simp only [ScanArgs.passes, ScanQuery.args, Bool.and_eq_true, Option.all_eq_true, hlcIsNewer_iff]

theorem mem_rowChanges_due {r : Row} {c : LocalColumnChange} : c ∈ rowChanges x t tableName q.args r ↔
    ∃ column ∈ dataColumns t, ∃ hlc, Due q r column hlc ∧ c = columnChange x t tableName q.deviceId r column hlc := by
  rw [mem_rowChanges]
  simp only [passes_iff, Due, and_assoc]
  rfl

theorem rowChanges_ne_nil {r : Row} :
    rowChanges x t tableName q.args r ≠ [] ↔ ∃ column ∈ dataColumns t, ∃ hlc, Due q r column hlc := by
  constructor
  · intro hne
    obtain ⟨c, hc⟩ := List.exists_mem_of_ne_nil _ hne
    obtain ⟨column, hcol, hlc, hdue, -⟩ := mem_rowChanges_due.1 hc
    exact ⟨column, hcol, hlc, hdue⟩
  · rintro ⟨column, hcol, hlc, hdue⟩
    exact List.ne_nil_of_mem (mem_rowChanges_due.2 ⟨column, hcol, hlc, hdue, rfl⟩)

/-! ## What the scan emits of it -/

theorem scanTableScoped_ok (ht : db.tables tableName = some t) (hpk : t.pkNames ≠ []) :
    scanTableScoped x db tableName q = .ok ((x.order.iter (t.rows.filter fun r => q.aboveCursor r && PassesFilter t q r)).flatMap
      (rowChanges x t tableName q.args)) := by
  simp only [scanTableScoped, ht, if_neg hpk]
  by_cases hspace : q.spaceIdFilter.isSome ∧ "space_id" ∉ t.columnNames
  · have hnone : (t.rows.filter fun r => q.aboveCursor r && PassesFilter t q r) = [] := by
      rw [List.filter_eq_nil_iff]
      intro r _
      simp [PassesFilter, hspace]
    rw [if_pos hspace, hnone, List.eq_nil_of_length_eq_zero (x.order.perm []).length_eq]
    rfl
  · have hmatches : ∀ r, decide (PassesFilter t q r) = q.inSpace r := fun r => by
      rw [Bool.eq_iff_iff, decide_eq_true_eq, PassesFilter, and_iff_left]
      exact fun hsome => not_not.1 fun hno => hspace ⟨hsome, hno⟩
    simp only [if_neg hspace, hmatches]

theorem flatMap_filter_perm_iff {α β : Type} {l : List α} {p : α → Bool} {f : α → List β} :
    ((l.filter p).flatMap f).Perm (l.flatMap f) ↔ ∀ a ∈ l, f a ≠ [] → p a = true := by
  constructor
  · intro h a ha hne
    by_contra hp
    have hlen := h.length_eq
    obtain ⟨before, after, rfl⟩ := List.append_of_mem ha
    have hshort : ∀ l : List α, ((l.filter p).flatMap f).length ≤ (l.flatMap f).length := fun l =>
      (List.filter_sublist.flatMap f).length_le
    have hbefore := hshort before
    have hafter := hshort after
    have hpos := List.length_pos_of_ne_nil hne
    simp only [List.filter_append, List.filter_cons_of_neg hp, List.flatMap_append, List.flatMap_cons,
      List.length_append] at hlen
    omega
  · intro h
    refine .of_eq ?_
    induction l with
    | nil => rfl
    | cons a l ih =>
      have ih := ih fun b hb => h b (List.mem_cons_of_mem _ hb)
      by_cases hp : p a = true
      · rw [List.filter_cons_of_pos hp, List.flatMap_cons, List.flatMap_cons, ih]
      · have hnil : f a = [] := not_not.1 fun hne => hp (h a List.mem_cons_self hne)
        rw [List.filter_cons_of_neg hp, List.flatMap_cons, hnil, List.nil_append, ih]

/-- A scan emits what is due, once each, exactly if each row of the space with a change that is due is above the cursor as a
text. -/
theorem scan_exact_iff (x : Scanner) (db : Database) (tableName : String) (t : Table) (q : ScanQuery)
    (ht : db.tables tableName = some t) (hpk : t.pkNames ≠ []) :
    (∃ changes, scanTableScoped x db tableName q = .ok changes ∧ changes.Perm (dueChanges x t tableName q)) ↔
      ∀ r ∈ t.rows, PassesFilter t q r → (∃ column ∈ dataColumns t, ∃ hlc, Due q r column hlc) → q.aboveCursor r = true := by
  have hperm : (∃ changes, scanTableScoped x db tableName q = .ok changes ∧ changes.Perm (dueChanges x t tableName q)) ↔
      (((t.rows.filter fun r => PassesFilter t q r).filter q.aboveCursor).flatMap (rowChanges x t tableName q.args)).Perm
        (dueChanges x t tableName q) := by
    have horder := (x.order.perm (t.rows.filter fun r => q.aboveCursor r && PassesFilter t q r)).flatMap_right
      (rowChanges x t tableName q.args)
    rw [scanTableScoped_ok ht hpk, List.filter_filter]
    simp only [Except.ok.injEq, exists_eq_left']
    exact ⟨horder.symm.trans, horder.trans⟩
  rw [hperm, dueChanges, flatMap_filter_perm_iff]
  simp only [List.mem_filter, decide_eq_true_eq, and_imp, rowChanges_ne_nil]

/-! ### One row with one column, as a sample -/

def stampedTable (hlc : String) : Table where
  columns := [{ name := "id", isPk := true }, { name := "name" }, { name := hlcTimestampColumn }, { name := columnHlcsColumn }]
  rows := [fun c => if c = "id" then .text "r" else if c = "name" then .text "n" else if c = hlcTimestampColumn then .text hlc
    else if c = columnHlcsColumn then .hlcs (AList.insert "name" hlc ∅) else .null]

def stampedDb (hlc : String) : Database where
  tables name := if name = "notes" then some (stampedTable hlc) else none

def since (hlc : String) : ScanQuery := ⟨some hlc, "d", none, none⟩

theorem stamped_row_scanned : ∃ changes, scanTableScoped pkScanner (stampedDb "8/1") "notes" (since "7/1") = .ok changes ∧
    changes.Perm (dueChanges pkScanner (stampedTable "8/1") "notes" (since "7/1")) :=
  (scan_exact_iff pkScanner (stampedDb "8/1") "notes" (stampedTable "8/1") (since "7/1") rfl (by decide)).2 fun r hr _ _ => by
    obtain rfl := List.mem_singleton.1 hr
    decide +kernel

theorem stamped_row_newest (hlc : String) : ∀ r ∈ (stampedTable hlc).rows, ∃ h, asText (r hlcTimestampColumn) = some h ∧
    ∀ column h', rowClock r column = some h' → hlcKey h' ≤ hlcKey h := by
  intro r hr
  obtain rfl := List.mem_singleton.1 hr
  refine ⟨hlc, rfl, fun column h' hclock => ?_⟩
  change (AList.insert "name" hlc (∅ : ColumnHlcs)).lookup column = some h' at hclock
  by_cases hname : column = "name"
  · rw [hname, AList.lookup_insert] at hclock
    cases hclock
    exact le_rfl
  · rw [AList.lookup_insert_ne hname, AList.lookup_empty] at hclock
    cases hclock

/-- The row is newer than the cursor, and none of it is emitted. -/
theorem scan_skips_longer_time :
    (∀ r ∈ (stampedTable "10000000000000000000/1").rows, ∃ h, asText (r hlcTimestampColumn) = some h ∧
      ∀ column h', rowClock r column = some h' → hlcKey h' ≤ hlcKey h) ∧
    scanTableScoped pkScanner (stampedDb "10000000000000000000/1") "notes" (since "9999999999999999999/1") = .ok [] ∧
    dueChanges pkScanner (stampedTable "10000000000000000000/1") "notes" (since "9999999999999999999/1") =
      [⟨"notes", "\x7b\"id\":\"r\"\x7d", "name", "10000000000000000000/1", .string "n", "d"⟩] := by
  refine ⟨stamped_row_newest _, ?_, by decide +kernel⟩
  rw [scanTableScoped_ok (t := stampedTable "10000000000000000000/1") rfl (by decide)]
  have hnone : ((stampedTable "10000000000000000000/1").rows.filter fun r => (since "9999999999999999999/1").aboveCursor r &&
      PassesFilter (stampedTable "10000000000000000000/1") (since "9999999999999999999/1") r) = [] := by
    rw [List.filter_eq_nil_iff]
    intro r hr
    obtain rfl := List.mem_singleton.1 hr
    decide +kernel
  rw [hnone]
  rfl

end HaexVault.Space
