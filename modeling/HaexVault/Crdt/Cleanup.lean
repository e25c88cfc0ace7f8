import Mathlib.Data.List.TakeWhile
import HaexVault.Crdt.Clock
/-!
# Cleaning up the delete log (`crdt/cleanup.rs`)

`cleanupDeletedRows` removes the entries of `haex_deleted_rows` that are older than a number of
days. HLC times count in `2 ^ -32` seconds, but the retention is taken off the current one in
nanoseconds (`retention_honoured_iff`).
-/

namespace HaexVault.Crdt

/-! ## SQLite's reading of an HLC -/

def i64Max : Int := 9223372036854775807
def i64Min : Int := -9223372036854775808

def isSqliteSpace (c : Char) : Bool := c = ' ' || (9 ≤ c.toNat && c.toNat ≤ 13)

def leadingNumber (ds : List Char) : Nat := (parseDigits 10 (ds.takeWhile Char.isDigit)).getD 0

def castInteger (s : List Char) : Int :=
  match s.dropWhile isSqliteSpace with
  | '-' :: ds => max i64Min (-(leadingNumber ds : Int))
  | '+' :: ds => min i64Max (leadingNumber ds)
  | ds => min i64Max (leadingNumber ds)

/-- What stands in the `haex_hlc` of an entry, as a text. Numbers and JSON objects have no number before a slash. -/
def hlcChars : SqlValue → Option (List Char)
  | .null => none
  | .text s => some s.toList
  | .blob bytes => some (bytes.map fun b => Char.ofNat b.toNat)
  | .integer _ | .real _ | .hlcs _ => some []

/-- `CAST(substr(haex_hlc, 1, instr(haex_hlc, '/') - 1) AS INTEGER)`; nothing stands before a slash that is not there. -/
def castTime (s : List Char) : Int := castInteger (((splitOnce '/' s).map (·.1)).getD [])

/-! ## The cleanup -/

structure CleanupResult where
  tombstonesDeleted : Nat
  appliedDeleted : Nat
  totalDeleted : Nat

inductive CleanupError where
  | invalidQuery
  | noSuchTable

def u64Max : Nat := 18446744073709551615

def nsPerDay : Nat := 86400000000000

def computeCutoffHlcNum (currentHlcNum : UInt64) (retentionDays : UInt32) : Option Int :=
  let retentionNs := min (nsPerDay * retentionDays.toNat) u64Max
  -- `saturating_sub`
  let cutoff := currentHlcNum.toNat - retentionNs
  if (cutoff : Int) ≤ i64Max then some cutoff else none

def deleteEntries (db : Database) (p : Row → Bool) : Except CleanupError (CleanupResult × Database) :=
  match db.tables deletedRowsTable with
  | none => .error .noSuchTable
  | some t =>
    let deleted := (t.rows.filter p).length
    .ok (⟨deleted, 1, deleted⟩, db.setTable deletedRowsTable { t with rows := t.rows.filter fun r => !p r })

def olderThan (cutoff : Int) (r : Row) : Bool := (hlcChars (r hlcTimestampColumn)).any fun s => castTime s < cutoff

def cleanupBefore (db : Database) (current : Timestamp) (retentionDays : UInt32) : Except CleanupError (CleanupResult × Database) :=
  match computeCutoffHlcNum (UInt64.ofNat current.time) retentionDays with
  | none => .ok (⟨0, 0, 0⟩, db)
  | some cutoff => deleteEntries db (olderThan cutoff)

/-- `cleanup_deleted_rows`; `currentHlc` is the persisted `hlc_timestamp`. -/
def cleanupDeletedRows (u : Uhlc) (db : Database) (currentHlc : Option String) (retentionDays : UInt32) :
    Except CleanupError (CleanupResult × Database) :=
  if retentionDays = 0 then deleteEntries db fun _ => true
  else match currentHlc with
    | none => .ok (⟨0, 0, 0⟩, db)
    | some s => match u.fromStr s with
      | none => .error .invalidQuery
      | some current => cleanupBefore db current retentionDays

/-! ## What retention means -/

def ntpPerDay : Nat := 371085174374400

def entryTimestamp (u : Uhlc) (r : Row) : Option Timestamp := (hlcChars (r hlcTimestampColumn)).bind fun s => u.fromStr (String.ofList s)

/-- Only entries more than `retentionDays` days before the current HLC are removed, and the cutoff is what it should be
of the current HLC less the retention: neither wrapped around nor negative. -/
def HonoursRetention (u : Uhlc) (db : Database) (current : Timestamp) (retentionDays : UInt32) : Prop :=
  (∀ out db', cleanupDeletedRows u db (some (u.toText current)) retentionDays = .ok (out, db') →
    ∀ t t', db.tables deletedRowsTable = some t → db'.tables deletedRowsTable = some t' → ∀ r ∈ t.rows, r ∉ t'.rows →
      ∃ e, entryTimestamp u r = some e ∧ e.time + ntpPerDay * retentionDays.toNat < current.time) ∧
  ∀ cutoff, computeCutoffHlcNum (UInt64.ofNat current.time) retentionDays = some cutoff →
    cutoff = max 0 ((current.time : Int) - nsPerDay * retentionDays.toNat) ∧ 0 ≤ cutoff

/-- The cleanup takes the entry though it is not older: its HLC is past the cutoff in nanoseconds and not past the one in
days, or it is no HLC and begins with a number past the cutoff. -/
def TakenEarly (u : Uhlc) (current : Timestamp) (retentionDays : UInt32) (r : Row) : Prop :=
  ∃ s, hlcChars (r hlcTimestampColumn) = some s ∧ match u.fromStr (String.ofList s) with
    | some e => e.time + nsPerDay * retentionDays.toNat < current.time ∧ current.time ≤ e.time + ntpPerDay * retentionDays.toNat
    | none => castTime s < (current.time - nsPerDay * retentionDays.toNat : Nat)

/-! ## SQLite reads an HLC as the crate does -/

theorem isDigit_of_digitVal {c : Char} {d : Nat} (h : digitVal 10 c = some d) : c.isDigit = true := by
  unfold digitVal at h
  split_ifs at h with hdigit hlower hupper
  · simpa [Char.isDigit, Char.le_def] using hdigit
  · simp at h
    omega
  · simp at h
    omega
  · simp at h

theorem isDigit_of_parseDigits {l : List Char} {n : Nat} (h : parseDigits 10 l = some n) : ∀ c ∈ l, c.isDigit = true := by
  have hfold : ∀ (l : List Char) (acc n : Nat),
      l.foldlM (fun n d => (digitVal 10 d).map (n * 10 + ·)) acc = some n → ∀ c ∈ l, c.isDigit = true := by
    intro l
    induction l with
    | nil => intro _ _ _ c hc; cases hc
    | cons d l ih =>
      intro acc n h c hc
      rw [List.foldlM_cons, Option.bind_eq_bind, Option.bind_eq_some_iff] at h
      obtain ⟨acc', hd, h⟩ := h
      obtain ⟨v, hv, -⟩ := Option.map_eq_some_iff.1 hd
      rcases List.mem_cons.1 hc with rfl | hc
      · exact isDigit_of_digitVal hv
      · exact ih acc' n h c hc
  rcases l with _ | ⟨c, l⟩
  · cases h
  · exact hfold _ _ _ h

theorem leadingNumber_eq {ds : List Char} {n : Nat} (h : parseDigits 10 ds = some n) : leadingNumber ds = n := by
  rw [leadingNumber, List.takeWhile_eq_self_iff.2 (isDigit_of_parseDigits h), h]
  rfl

theorem castInteger_of_fromStrRadix {l : List Char} {n : Nat} (h : fromStrRadix 10 64 l = some n) :
    castInteger l = min i64Max n := by
  obtain ⟨hparse, -⟩ := Option.filter_eq_some_iff.1 h
  rcases l with _ | ⟨c, l⟩
  · cases hparse
  by_cases hplus : c = '+'
  · subst hplus
    show min i64Max (leadingNumber l : Int) = _
    rw [leadingNumber_eq (show parseDigits 10 l = some n from hparse)]
  · have hbody : parseDigits 10 (c :: l) = some n := by
      split at hparse
      · next heq => exact absurd (List.cons.inj heq).1 hplus
      · exact hparse
    have hc : c.isDigit = true := isDigit_of_parseDigits hbody c List.mem_cons_self
    have hblank : ¬ isSqliteSpace c = true := by
      intro hblank
      simp only [isSqliteSpace, Bool.or_eq_true, Bool.and_eq_true, decide_eq_true_eq] at hblank
      have hcode : 48 ≤ c.toNat := by
        simp only [Char.isDigit, Bool.and_eq_true, decide_eq_true_eq] at hc
        exact hc.1
      rcases hblank with rfl | hblank
      · revert hcode
        decide
      · omega
    rw [castInteger, List.dropWhile_cons_of_neg hblank]
    split
    · next heq => exact absurd hc (by rw [(List.cons.inj heq).1]; decide)
    · next heq => exact absurd (List.cons.inj heq).1 hplus
    · rw [leadingNumber_eq hbody]

theorem castTime_of_read {s : List Char} {e : Timestamp} (h : Timestamp.read (String.ofList s) = some e) :
    castTime s = min i64Max e.time := by
  unfold Timestamp.read at h
  rw [String.toList_ofList] at h
  rcases hsplit : splitOnce '/' s with _ | ⟨time, id⟩
  · simp [hsplit] at h
  · simp only [hsplit] at h
    split at h
    · next t i ht hi =>
      split at h
      · cases h
        rw [castTime, hsplit]
        exact castInteger_of_fromStrRadix ht
      · cases h
    · cases h

/-! ## The cutoff -/

section
variable {u : Uhlc} {db : Database} {current : Timestamp} {retentionDays : UInt32}

theorem computeCutoff_eq :
    computeCutoffHlcNum (UInt64.ofNat current.time) retentionDays =
      if ((current.time - nsPerDay * retentionDays.toNat : Nat) : Int) ≤ i64Max then
        some ((current.time - nsPerDay * retentionDays.toNat : Nat) : Int) else none := by
  have htime : (UInt64.ofNat current.time).toNat = current.time := by
    simpa using Nat.mod_eq_of_lt current.time_lt
  have hlt := current.time_lt
  -- a retention that saturates takes the cutoff to zero either way
  have hcut : current.time - min (nsPerDay * retentionDays.toNat) u64Max = current.time - nsPerDay * retentionDays.toNat := by
    unfold u64Max
    omega
  simp only [computeCutoffHlcNum, htime, hcut]

theorem computeCutoff_bounds {cutoff : Int}
    (h : computeCutoffHlcNum (UInt64.ofNat current.time) retentionDays = some cutoff) :
    cutoff = max 0 ((current.time : Int) - nsPerDay * retentionDays.toNat) ∧ 0 ≤ cutoff := by
  rw [computeCutoff_eq] at h
  split_ifs at h
  cases h
  omega

theorem olderThan_iff {r : Row} (hread : ∀ s ts, u.fromStr s = some ts → Timestamp.read s = some ts)
    (hcut : ((current.time - nsPerDay * retentionDays.toNat : Nat) : Int) ≤ i64Max) :
    (olderThan ((current.time - nsPerDay * retentionDays.toNat : Nat) : Int) r = true →
      ∃ e, entryTimestamp u r = some e ∧ e.time + ntpPerDay * retentionDays.toNat < current.time) ↔
        ¬ TakenEarly u current retentionDays r := by
  unfold olderThan entryTimestamp TakenEarly
  cases hs : hlcChars (r hlcTimestampColumn) with
  | none => simp
  | some s =>
    cases he : u.fromStr (String.ofList s) with
    | none => simp [he]
    | some e =>
      have hcast := castTime_of_read (hread _ _ he)
      simp only [Option.any_some, decide_eq_true_eq, Option.bind_some, he, Option.some.injEq, exists_eq_left', hcast]
      omega

theorem mem_cleaned {cutoff : Int} {out : CleanupResult} {db' : Database} {t t' : Table} {r : Row}
    (h : deleteEntries db (olderThan cutoff) = .ok (out, db')) (ht : db.tables deletedRowsTable = some t)
    (ht' : db'.tables deletedRowsTable = some t') : r ∈ t'.rows ↔ r ∈ t.rows ∧ olderThan cutoff r = false := by
  simp only [deleteEntries, ht, Except.ok.injEq, Prod.mk.injEq] at h
  obtain ⟨-, rfl⟩ := h
  obtain rfl : { t with rows := t.rows.filter fun r => !olderThan cutoff r } = t' := by
    simpa [Database.setTable] using ht'
  simp [List.mem_filter]

theorem exists_cleaned {t : Table} (p : Row → Bool) (ht : db.tables deletedRowsTable = some t) :
    ∃ out db' t', deleteEntries db p = .ok (out, db') ∧ db'.tables deletedRowsTable = some t' := by
  simp only [deleteEntries, ht]
  exact ⟨_, _, { t with rows := t.rows.filter fun r => !p r }, rfl, by simp [Database.setTable]⟩

theorem removes_iff {cut : Int} (hdays : retentionDays ≠ 0)
    (hcutoff : computeCutoffHlcNum (UInt64.ofNat current.time) retentionDays = some cut) (P : Row → Prop) :
    (∀ out db', cleanupDeletedRows u db (some (u.toText current)) retentionDays = .ok (out, db') →
      ∀ t t', db.tables deletedRowsTable = some t → db'.tables deletedRowsTable = some t' → ∀ r ∈ t.rows, r ∉ t'.rows → P r) ↔
    ∀ t, db.tables deletedRowsTable = some t → ∀ r ∈ t.rows, olderThan cut r = true → P r := by
  have hcleanup : cleanupDeletedRows u db (some (u.toText current)) retentionDays = deleteEntries db (olderThan cut) := by
    simp only [cleanupDeletedRows, if_neg hdays, u.fromStr_toText, cleanupBefore, hcutoff]
  rw [hcleanup]
  constructor
  · intro h t ht r hr hold
    obtain ⟨out, db', t', hout, ht'⟩ := exists_cleaned (olderThan cut) ht
    refine h out db' hout t t' ht ht' r hr fun hr' => ?_
    rw [((mem_cleaned hout ht ht').1 hr').2] at hold
    cases hold
  · intro h out db' hout t t' ht ht' r hr hgone
    refine h t ht r hr ?_
    by_contra hold
    exact hgone ((mem_cleaned hout ht ht').2 ⟨hr, by simpa using hold⟩)

/-- For a retention of at least a day, exactly the logs without an entry that is taken early are cleaned up as they should
be, and all logs while the cutoff is past what SQLite can hold. `from_str` takes a decimal time and a hexadecimal id only. -/
theorem retention_honoured_iff (hread : ∀ s ts, u.fromStr s = some ts → Timestamp.read s = some ts)
    (hdays : retentionDays ≠ 0) : HonoursRetention u db current retentionDays ↔
      i64Max < (current.time - nsPerDay * retentionDays.toNat : Nat) ∨
        ∀ t, db.tables deletedRowsTable = some t → ∀ r ∈ t.rows, ¬ TakenEarly u current retentionDays r := by
  have hbounds : ∀ cutoff, computeCutoffHlcNum (UInt64.ofNat current.time) retentionDays = some cutoff →
      cutoff = max 0 ((current.time : Int) - nsPerDay * retentionDays.toNat) ∧ 0 ≤ cutoff := fun _ h => computeCutoff_bounds h
  rw [HonoursRetention, and_iff_left hbounds]
  have hcutoff : computeCutoffHlcNum (UInt64.ofNat current.time) retentionDays = _ := computeCutoff_eq
  by_cases hcut : ((current.time - nsPerDay * retentionDays.toNat : Nat) : Int) ≤ i64Max
  · rw [if_pos hcut] at hcutoff
    rw [removes_iff hdays hcutoff, or_iff_right (not_lt.2 hcut)]
    exact forall₂_congr fun _ _ => forall₂_congr fun _ _ => olderThan_iff hread hcut
  · rw [if_neg hcut] at hcutoff
    refine iff_of_true ?_ (.inl (not_le.1 hcut))
    intro out db' hout t t' ht ht' r hr hgone
    simp only [cleanupDeletedRows, if_neg hdays, u.fromStr_toText, cleanupBefore, hcutoff] at hout
    cases hout
    obtain rfl : t = t' := Option.some.inj (ht.symm.trans ht')
    exact absurd hr hgone

end

/-! ## Half a day -/

def afternoon : Timestamp := ⟨7516192768000000000, by decide, nodeA⟩

def night : Timestamp := ⟨7516007225412812800, by decide, nodeA⟩

def logEntry (hlc : String) : Row := fun c => if c = hlcTimestampColumn then .text hlc else .text "a"

def oneEntry (hlc : String) : Table := { emptyTable ["id"] ["table_name", "row_pks"] with rows := [logEntry hlc] }

def deleteLog (hlc : String) : Database where
  tables := fun name => if name = deletedRowsTable then some (oneEntry hlc) else none

theorem hlcChars_logEntry (hlc : String) : hlcChars (logEntry hlc hlcTimestampColumn) = some hlc.toList := by
  rw [logEntry, if_pos rfl]
  rfl

theorem tables_deleteLog (hlc : String) : (deleteLog hlc).tables deletedRowsTable = some (oneEntry hlc) := by
  simp only [deleteLog, if_true]

/-- An entry with the current HLC is kept. -/
theorem retention_honoured_afternoon : HonoursRetention Uhlc.oneSecond (deleteLog afternoon.text) afternoon 1 := by
  refine (retention_honoured_iff (fun _ _ => id) (by decide)).2 (.inr fun t ht r hr htaken => ?_)
  obtain rfl := Option.some.inj ((tables_deleteLog _).symm.trans ht)
  obtain rfl := List.mem_singleton.1 hr
  obtain ⟨s, hs, htaken⟩ := htaken
  obtain rfl := Option.some.inj ((hlcChars_logEntry _).symm.trans hs)
  rw [String.ofList_toList, show Uhlc.oneSecond.fromStr afternoon.text = some afternoon from afternoon.read_text] at htaken
  exact absurd htaken.1 (by decide)

/-- A retention of one day removes an entry that is half a day old. -/
theorem retention_not_honoured :
    ¬ ∀ (u : Uhlc) (db : Database) (current : Timestamp) (retentionDays : UInt32),
      (∀ s ts, u.fromStr s = some ts → Timestamp.read s = some ts) → retentionDays ≠ 0 → HonoursRetention u db current retentionDays := by
  intro h
  have hremoved := (@removes_iff Uhlc.oneSecond _ _ _ 7516106368000000000 (by decide) (by decide) _).1
    (h Uhlc.oneSecond (deleteLog night.text) afternoon 1 (fun _ _ => id) (by decide)).1
  have hread : Timestamp.read (String.ofList night.text.toList) = some night := by
    rw [String.ofList_toList, night.read_text]
  have hold : olderThan 7516106368000000000 (logEntry night.text) = true := by
    rw [olderThan, hlcChars_logEntry, Option.any_some, castTime_of_read hread]
    decide
  obtain ⟨e, he, hlt⟩ := hremoved _ (tables_deleteLog _) _ (List.mem_singleton_self _) hold
  rw [entryTimestamp, hlcChars_logEntry, Option.bind_some] at he
  obtain rfl : night = e := Option.some.inj (hread.symm.trans he)
  exact absurd hlt (by decide)

end HaexVault.Crdt
