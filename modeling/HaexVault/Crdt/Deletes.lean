import HaexVault.Crdt.RowClock
/-!
# Deletes against updates of one row

A delete travels as a row of `haex_deleted_rows`, and is carried out once, by the batch that brings
it. Nothing looks at the log when a later batch inserts. `receive_keeps` says when a batch leaves the
row as the received changes and deletes demand.
-/

namespace HaexVault.Crdt

open HaexVault.Lib HaexVault.Lib.Runs HaexVault.Lib.Steps

/-- A row of `haex_deleted_rows` as it travels. -/
structure DeleteEntry where
  id : String
  /-- The `row_pks` text of the log row itself. -/
  logPks : String
  tableName : String
  rowPks : String
  hlc : String
  deriving DecidableEq

/-- The column changes of a log row, both under its HLC. -/
def DeleteEntry.changes (e : DeleteEntry) : List RemoteColumnChange :=
  [⟨deletedRowsTable, e.logPks, "table_name", e.hlc, .string e.tableName⟩,
    ⟨deletedRowsTable, e.logPks, "row_pks", e.hlc, .string e.rowPks⟩]

structure RowBatch where
  hash : Hashing
  changes : List RemoteColumnChange
  updates : List RemoteColumnChange
  deletes : List DeleteEntry
  backendInfo : Option (String × String) := none

structure Replica where
  db : Database
  updates : List RemoteColumnChange := []
  deletes : List DeleteEntry := []

/-- Apply one batch; a batch that fails is rolled back and counts as not received. -/
def receive (env : Env) (rep : Replica) (b : RowBatch) : Replica :=
  match applyRemoteChangesToDb env b.hash rep.db b.changes b.backendInfo with
  | .ok db => ⟨db, rep.updates ++ b.updates, rep.deletes ++ b.deletes⟩
  | .error _ => rep

structure DeleteSchema (name : String) (t log : Table) : Prop where
  target : PlainTable t
  targetHlc : hlcTimestampColumn ∈ t.columnNames
  logPlain : PlainTable log
  logPk : log.pkNames = ["id"]
  logTable : "table_name" ∈ log.columnNames
  logRow : "row_pks" ∈ log.columnNames
  other : name ≠ deletedRowsTable

section
variable (env : Env) (name : String) (k : List SqlValue) (t : Table)

structure UpdateFor (ch : RemoteColumnChange) : Prop where
  row : OnRow env t name k ch
  addresses : Addresses env t ch.rowPks
  data : DataName t ch.columnName
  known : ch.columnName ∈ t.columnNames
  newer : hlcIsNewer ch.hlcTimestamp "" = true

structure EntryFor (e : DeleteEntry) : Prop where
  table : e.tableName = name
  log : ∃ m, env.fromStr e.logPks = some m ∧ m.lookup "id" = some (.string e.id)
  safe : isSafeIdentifier env name = true
  row : ∃ cond, (env.fromStr e.rowPks).bind (buildPkWhereFromMap env) = some cond ∧
    (∀ p ∈ cond, p.1 ∈ t.columnNames) ∧ ∀ r, whereMatches cond r = true ↔ t.rowKey r = k
  newer : hlcIsNewer e.hlc "" = true

/-- A batch is made of changes of row `k`, under one `row_pks` text, and of log
entries for it; entries are told apart by their id. -/
structure BatchFor (rep : Replica) (b : RowBatch) : Prop where
  mem : ∀ ch, ch ∈ b.changes ↔ ch ∈ b.updates ∨ ∃ e ∈ b.deletes, ch ∈ e.changes
  updates : ∀ ch ∈ b.updates, UpdateFor env name k t ch
  oneText : ∀ a ∈ b.updates, ∀ b' ∈ b.updates, a.rowPks = b'.rowPks
  deletes : ∀ e ∈ b.deletes, EntryFor env name k t e
  ids : ∀ e ∈ b.deletes, ∀ e' ∈ rep.deletes ++ b.deletes, e.id = e'.id → e = e'

/-- When a batch leaves the row as it should be. Absent row: the batch's newest
change is newer than every delete received before, or not newer than one the
batch brings. Present row: if a change applies, one that applies is not older than
the row's `haex_hlc`. -/
def BatchMeets (rep : Replica) (b : RowBatch) : Prop :=
  ∀ t', rep.db.tables name = some t' → match t'.find k with
    | none => b.updates ≠ [] →
        (∀ d ∈ rep.deletes, ∃ u ∈ b.updates, hlcIsNewer u.hlcTimestamp d.hlc = true) ∨
        ∃ d ∈ b.deletes, ∀ u ∈ b.updates, hlcIsNewer u.hlcTimestamp d.hlc = false
    | some r => ∀ h, r hlcTimestampColumn = .text h →
        (∃ u ∈ b.updates, Applies t.columnNames (rowClock r) u) →
        ∃ u ∈ b.updates, Applies t.columnNames (rowClock r) u ∧ hlcIsNewer h u.hlcTimestamp = false

end

/-! ## The row through the updates of a batch -/

section Step
variable {env : Env} {t : Table} {g : (String × String) × List RemoteColumnChange}

theorem collect_max_mem (ex : List String) (stored : ColumnHlcs) {cs : List RemoteColumnChange} (hne : cs ≠ []) :
    ∃ u ∈ cs, u.hlcTimestamp = (collectChanges ex stored cs).maxHlcForRow := by
  rcases (collect_gathered ex stored cs).max with he | ⟨u, hu, he⟩
  · obtain ⟨first, rest, rfl⟩ := List.exists_cons_of_ne_nil hne
    exact ⟨first, by simp, he.symm⟩
  · obtain ⟨ch, hch, rfl, -⟩ := collect_known stored cs u hu
    exact ⟨ch, hch, he⟩

/-- A row in step that a group of known changes updates, or a fresh one it
inserts, is in step, and its clock is not older than the changes or the old row. -/
theorem stepRow_clocked (hc : CrdtTable t) {r : Option Row} (hr : Readable r) (hclk : ∀ r', r = some r' → RowClocked r')
    (hd : ∀ ch ∈ g.2, DataName t ch.columnName ∧ ch.columnName ∈ t.columnNames)
    (hs : g.2.Pairwise fun a b => hlcKey a.hlcTimestamp ≤ hlcKey b.hlcTimestamp) (hm : RemoteMeets t r g.2)
    {r' : Row} (h : stepRow env t r g = some r') :
    RowClocked r' ∧ ∃ h', r' hlcTimestampColumn = .text h' ∧ (∀ u ∈ g.2, hlcKey u.hlcTimestamp ≤ hlcKey h') ∧
      (∀ r₀ h₀, r = some r₀ → r₀ hlcTimestampColumn = .text h₀ → hlcKey h₀ ≤ hlcKey h') ∧
      ((∃ u ∈ g.2, hlcKey u.hlcTimestamp = hlcKey h') ∨ r = some r') := by
  obtain ⟨stored, hst⟩ := hr
  have hlook := currentHlcs_lookup hst t
  rw [stepRow_eq hst] at h
  have hdata : ∀ ch ∈ g.2, DataName t ch.columnName := fun ch hch => (hd ch hch).1
  by_cases hnil : (collectChanges t.columnNames stored g.2).columnsToUpdate = []
  · -- Nothing applies, so no change is newer than its column's clock.
    simp only [rowOutcome, hnil, if_true] at h
    obtain ⟨m, h', hmap, hh', hnew⟩ := hclk r' h
    refine ⟨⟨m, h', hmap, hh', hnew⟩, h', hh', fun u hu => ?_, fun r₀ h₀ he hh₀ => ?_, .inr h⟩
    · have hle := (columnsToUpdate_eq_nil t stored g.2).1 hnil u hu (hd u hu).2
      rw [hlook, h] at hle
      have hclock : (t.cellOf (some r') u.columnName).1 = m.lookup u.columnName := by
        simp [Table.cellOf, rowClock, hmap]
      rw [hclock] at hle
      exact hle.trans (hnew.clock_le _)
    · rw [h, Option.some_inj] at he
      subst he
      rw [hh'] at hh₀
      cases hh₀
      exact le_rfl
  · obtain ⟨hnew, hold⟩ := collect_clocked hst hclk hm hs hnil
    obtain ⟨hmap, hhlc⟩ := outcome_metadata hc hdata hnil h
    refine ⟨⟨_, _, hmap, hhlc, hnew⟩, _, hhlc, fun u hu => ?_, hold, .inl ?_⟩
    · by_cases ha : Applies t.columnNames stored.lookup u
      · exact applies_le_max hu ha
      · have hle : hlcKey u.hlcTimestamp ≤ clockKey (stored.lookup u.columnName) := by
          by_contra hlt
          exact ha ⟨(hd u hu).2, hlcIsNewer_iff.2 (not_le.1 hlt)⟩
        refine hle.trans ?_
        cases r with
        | none =>
          cases hst
          exact hlcKey_empty_le _
        | some r₀ =>
          obtain ⟨m, h₀, hm₀, hh₀, hnew₀⟩ := hclk r₀ rfl
          simp only [currentHlcs, hm₀] at hst
          cases hst
          exact (hnew₀.clock_le _).trans (hold r₀ h₀ rfl hh₀)
    · have hne : g.2 ≠ [] := by
        intro he
        rw [he] at hnil
        exact hnil rfl
      obtain ⟨u, hu, he⟩ := collect_max_mem t.columnNames stored hne
      exact ⟨u, hu, by rw [he]⟩

end Step

/-! ## The log -/

def InLog (log : Table) (e : DeleteEntry) : Prop :=
  ∃ r, log.find [.text e.id] = some r ∧ r "table_name" = .text e.tableName ∧ r "row_pks" = .text e.rowPks ∧
    r hlcTimestampColumn = .text e.hlc ∧ rowClock r "table_name" = some e.hlc ∧ rowClock r "row_pks" = some e.hlc

section Log
variable {env : Env} {name : String} {k : List SqlValue} {t log log' : Table} {hash : Hashing}
  {changes : List RemoteColumnChange} {e : DeleteEntry}

theorem mem_entryChanges {ch : RemoteColumnChange} (h : ch ∈ e.changes) :
    ch.tableName = deletedRowsTable ∧ ch.rowPks = e.logPks ∧ ch.hlcTimestamp = e.hlc ∧
      (ch.columnName = "table_name" ∧ ch.decryptedValue = .string e.tableName ∨
        ch.columnName = "row_pks" ∧ ch.decryptedValue = .string e.rowPks) := by
  simp only [DeleteEntry.changes, List.mem_cons, List.not_mem_nil, or_false] at h
  rcases h with rfl | rfl
  · exact ⟨rfl, rfl, rfl, .inl ⟨rfl, rfl⟩⟩
  · exact ⟨rfl, rfl, rfl, .inr ⟨rfl, rfl⟩⟩

theorem logData {c : String} (hpk : log.pkNames = ["id"]) (hc : c = "table_name" ∨ c = "row_pks") : DataName log c := by
  rcases hc with rfl | rfl <;> exact ⟨by rw [hpk]; decide, by decide, by decide⟩

theorem keyOf_logPks (hpk : log.pkNames = ["id"]) (he : EntryFor env name k t e) :
    keyOf env log e.logPks = [.text e.id] ∧ Addresses env log e.logPks := by
  obtain ⟨m, hm, hid⟩ := he.log
  refine ⟨by simp [keyOf, pkKey, hm, hpk, hid, jsonToRusqliteValue], m, hm, fun c hc => ?_⟩
  rw [hpk, List.mem_singleton] at hc
  rw [hc, hid]
  rfl

theorem entry_cell (hs : CrdtTable log) (hpk : log.pkNames = ["id"]) {g : (String × String) × List RemoteColumnChange}
    (hg : ∀ ch, ch ∈ g.2 ↔ ch ∈ e.changes) {c v : String} (hc : c = "table_name" ∨ c = "row_pks")
    (hx : c ∈ log.columnNames) (hv : ∀ ch ∈ e.changes, ch.columnName = c → ch.decryptedValue = .string v)
    (hmem : ∃ ch ∈ e.changes, ch.columnName = c) (hnew : hlcKey "" < hlcKey e.hlc) :
    log.cellOf (stepRow env log none g) c = (some e.hlc, .text v) := by
  have hw : ∀ w ∈ writesTo c g.2, w = (e.hlc, .text v) := by
    intro w hw
    obtain ⟨ch, hch, hcc, h1, h2⟩ := mem_writesTo.1 hw
    rw [hg] at hch
    refine Prod.ext (h1.symm.trans (mem_entryChanges hch).2.2.1) ?_
    rw [← h2, hv ch hch hcc]
    rfl
  have hne : (e.hlc, SqlValue.text v) ∈ writesTo c g.2 := by
    obtain ⟨ch, hch, hcc⟩ := hmem
    refine mem_writesTo.2 ⟨ch, (hg ch).2 hch, hcc, (mem_entryChanges hch).2.2.1, ?_⟩
    rw [hv ch hch hcc]
    rfl
  have hdata : ∀ ch ∈ g.2, DataName log ch.columnName := by
    intro ch hch
    obtain ⟨-, -, -, hor⟩ := mem_entryChanges ((hg ch).1 hch)
    exact logData hpk (hor.imp And.left And.left)
  rw [stepRow_cell hs hdata ⟨∅, rfl⟩ (knownIn_of_mem hx _) (logData hpk hc) fun _ => ?_]
  · rcases Lww.foldl_write_cases clockKey (writesTo c g.2) (log.cellOf none c) with ⟨-, hle⟩ | ⟨w, hm, he, -, -⟩
    · exact absurd (hle _ hne) (not_le.2 hnew)
    · rw [he, hw w hm]
  · rw [FirstIsLast, List.head?_map, List.getLast?_map,
      Lww.accepted_head?_eq_getLast? clockKey fun w h w' h' => (hw w h).trans (hw w' h').symm]

/-- A fresh entry is in the log after its batch, and an entry that was there stays. -/
theorem stepRow_inLog (hs : DeleteSchema name t log) {g : (String × String) × List RemoteColumnChange}
    (hg : ∀ ch, ch ∈ g.2 ↔ ch ∈ e.changes) (hnew : hlcKey "" < hlcKey e.hlc)
    (hold : log.find [.text e.id] = none ∨ InLog log e)
    (hfind : log'.find [.text e.id] = stepRow env log (log.find [.text e.id]) g) : InLog log' e := by
  have hg₁ : g.2 ≠ [] := List.ne_nil_of_mem ((hg _).2 (List.mem_cons_self))
  rcases hold with hnone | ⟨r, hr, htab, hrow, hhlc, hc₁, hc₂⟩
  · rw [hnone] at hfind
    have hsome : (stepRow env log none g).isSome := by
      rw [stepRow_isSome ⟨∅, rfl⟩]
      exact .inr ⟨⟨deletedRowsTable, e.logPks, "table_name", e.hlc, .string e.tableName⟩,
        (hg _).2 (by simp [DeleteEntry.changes]), hs.logTable, hnew⟩
    obtain ⟨r, hr⟩ := Option.isSome_iff_exists.1 hsome
    have h₁ : log.cellOf (stepRow env log none g) "table_name" = (some e.hlc, .text e.tableName) :=
      entry_cell hs.logPlain.toCrdtTable hs.logPk hg (.inl rfl) hs.logTable (by simp [DeleteEntry.changes])
        (by simp [DeleteEntry.changes]) hnew
    have h₂ : log.cellOf (stepRow env log none g) "row_pks" = (some e.hlc, .text e.rowPks) :=
      entry_cell hs.logPlain.toCrdtTable hs.logPk hg (.inr rfl) hs.logRow (by simp [DeleteEntry.changes])
        (by simp [DeleteEntry.changes]) hnew
    rw [hr] at h₁ h₂ hfind
    refine ⟨r, hfind, congrArg Prod.snd h₁, congrArg Prod.snd h₂, ?_, congrArg Prod.fst h₁, congrArg Prod.fst h₂⟩
    have hdata : ∀ ch ∈ g.2, DataName log ch.columnName := by
      intro ch hch
      obtain ⟨-, -, -, hor⟩ := mem_entryChanges ((hg ch).1 hch)
      exact logData hs.logPk (hor.imp And.left And.left)
    have hst : currentHlcs none = .ok ∅ := rfl
    rw [stepRow_eq hst] at hr
    have hne : (collectChanges log.columnNames ∅ g.2).columnsToUpdate ≠ [] := by
      intro hnil
      simp [rowOutcome, hnil] at hr
    rw [(outcome_metadata hs.logPlain.toCrdtTable hdata hne hr).2]
    obtain ⟨u, hu, hue⟩ := collect_max_mem log.columnNames ∅ hg₁
    rw [← hue, (mem_entryChanges ((hg u).1 hu)).2.2.1]
  · -- Delivered again: neither change is newer than its clock.
    have hclock : ∀ ch ∈ g.2, rowClock r ch.columnName = some e.hlc := by
      intro ch hch
      obtain ⟨-, -, -, ⟨hcc, -⟩ | ⟨hcc, -⟩⟩ := mem_entryChanges ((hg ch).1 hch) <;> rw [hcc] <;> assumption
    obtain ⟨m, hm⟩ : ∃ m, r columnHlcsColumn = .hlcs m := by
      unfold rowClock at hc₁
      split at hc₁
      · rename_i m hm; exact ⟨m, hm⟩
      · cases hc₁
    have hst : currentHlcs (some r) = .ok m := by simp only [currentHlcs, hm]
    have hnil : (collectChanges log.columnNames m g.2).columnsToUpdate = [] := by
      rw [columnsToUpdate_eq_nil]
      intro ch hch _
      have hl : m.lookup ch.columnName = some e.hlc := by simpa [rowClock, hm] using hclock ch hch
      rw [hl, (mem_entryChanges ((hg ch).1 hch)).2.2.1]
      exact le_rfl
    refine ⟨r, ?_, htab, hrow, hhlc, hc₁, hc₂⟩
    rw [hfind, hr, stepRow_eq hst]
    simp [rowOutcome, hnil]

end Log

/-! ## Carrying out the deletes of a batch -/

def Survives (e : DeleteEntry) (r : Row) : Prop :=
  ∃ h, r hlcTimestampColumn = .text h ∧ hlcIsNewer h e.hlc = true

section Propagate
variable {env : Env} {name : String} {k : List SqlValue} {t log : Table} {e : DeleteEntry} {db : Database}
  {rows : List Row}

theorem find_log_id (hpk : log.pkNames = ["id"]) (rows : List Row) (id : String) :
    (rows.find? fun r => r "id" = .text id) = Table.find { log with rows := rows } [.text id] := by
  have hpk' : Table.pkNames { log with rows := rows } = ["id"] := hpk
  simp only [Table.find, Keyed.get, Table.rowKey, hpk', List.map_cons, List.map_nil, List.cons.injEq, and_true]

theorem shouldPropagateDelete_iff {r : Row} :
    shouldPropagateDelete e.hlc (asText (r hlcTimestampColumn)) = true ↔ ¬ Survives e r := by
  unfold Survives
  cases hr : r hlcTimestampColumn with
  | text h =>
    simp only [asText, shouldPropagateDelete, decide_eq_true_eq, SqlValue.text.injEq, exists_eq_left', hlcIsNewer_iff,
      not_lt]
    exact compare_ne_gt_iff
  | _ => simp [asText, shouldPropagateDelete]

/-- One entry takes the row unless it is strictly newer. -/
theorem propagateDelete_spec (hcol : hlcTimestampColumn ∈ t.columnNames) (he : EntryFor env name k t e)
    (ht : db.tables name = some { t with rows := rows }) :
    (∀ n, n ≠ name → (propagateDelete env db name e.rowPks e.hlc).tables n = db.tables n) ∧
    ∃ rows', (propagateDelete env db name e.rowPks e.hlc).tables name = some { t with rows := rows' } ∧
      ((∀ r, Table.find { t with rows := rows } k = some r → Survives e r) →
        Table.find { t with rows := rows' } k = Table.find { t with rows := rows } k) ∧
      (∀ r, Table.find { t with rows := rows } k = some r → ¬ Survives e r → Table.find { t with rows := rows' } k = none) := by
  obtain ⟨cond, hcond, hcols, hwhere⟩ := he.row
  have hany : (cond.any fun p => decide (p.1 ∉ Table.columnNames { t with rows := rows })) = false := by
    rw [List.any_eq_false]
    intro p hp hn
    exact (of_decide_eq_true hn) (hcols p hp)
  have hmem : hlcTimestampColumn ∈ Table.columnNames { t with rows := rows } := hcol
  have hfind : rows.find? (whereMatches cond) = Table.find { t with rows := rows } k := by
    rw [Table.find, Keyed.get]
    congr 1
    funext r
    rw [Bool.eq_iff_iff, hwhere r, decide_eq_true_eq]
    rfl
  have hgone : Table.find { t with rows := rows.filter fun r => !whereMatches cond r } k = none := by
    rw [Table.find, Keyed.get_eq_none]
    intro r hr hk
    have := (List.mem_filter.1 hr).2
    rw [(hwhere r).2 hk] at this
    cases this
  have heq : propagateDelete env db name e.rowPks e.hlc =
      if shouldPropagateDelete e.hlc ((Table.find { t with rows := rows } k).bind fun r => asText (r hlcTimestampColumn))
      then db.setTable name (Table.delete { t with rows := rows } (whereMatches cond)) else db := by
    simp only [propagateDelete, he.safe, Bool.not_true, Bool.false_eq_true, if_false, hcond, ht, hany, hmem, if_true, hfind]
  rw [heq]
  cases hr : Table.find { t with rows := rows } k with
  | none =>
    have : shouldPropagateDelete e.hlc
        ((none : Option Row).bind fun r => asText (r hlcTimestampColumn)) = true := rfl
    rw [if_pos this]
    refine ⟨fun n hn => by simp [Database.setTable, hn], _, by simp [Database.setTable, Table.delete], fun _ => hgone, ?_⟩
    intro r hr'
    cases hr'
  | some r =>
    by_cases hsv : Survives e r
    · have : ¬ shouldPropagateDelete e.hlc ((some r).bind fun r => asText (r hlcTimestampColumn)) = true :=
        fun h => shouldPropagateDelete_iff.1 h hsv
      rw [if_neg this]
      refine ⟨fun _ _ => rfl, rows, ht, fun _ => hr, ?_⟩
      intro r' hr' hn
      cases hr'
      exact absurd hsv hn
    · have : shouldPropagateDelete e.hlc ((some r).bind fun r => asText (r hlcTimestampColumn)) = true :=
        shouldPropagateDelete_iff.2 hsv
      rw [if_pos this]
      refine ⟨fun n hn => by simp [Database.setTable, hn], _, by simp [Database.setTable, Table.delete], ?_, fun _ _ _ => hgone⟩
      intro h
      exact absurd (h r rfl) hsv

/-- The deletes of a batch, in whatever order: the row stays iff it is strictly
newer than all of them. -/
theorem foldlM_propagate (hs : DeleteSchema name t log) {ids : List String} {D : List DeleteEntry} {lrows : List Row}
    {db' : Database} (ht : db.tables name = some { t with rows := rows })
    (hlog : db.tables deletedRowsTable = some { log with rows := lrows })
    (hids : ∀ id ∈ ids, ∃ e ∈ D, e.id = id ∧ EntryFor env name k t e ∧ InLog { log with rows := lrows } e)
    (h : ids.foldlM (propagateDeletedRow env) db = .ok db') :
    db'.tables deletedRowsTable = some { log with rows := lrows } ∧
    ∃ rows', db'.tables name = some { t with rows := rows' } ∧
      ((∀ r, Table.find { t with rows := rows } k = some r → ∀ e ∈ D, e.id ∈ ids → Survives e r) →
        Table.find { t with rows := rows' } k = Table.find { t with rows := rows } k) ∧
      (∀ r, Table.find { t with rows := rows } k = some r →
        (∃ id ∈ ids, ∀ e ∈ D, e.id = id → ¬ Survives e r) → Table.find { t with rows := rows' } k = none) := by
  induction ids generalizing db rows with
  | nil =>
    cases h
    exact ⟨hlog, rows, ht, fun _ => rfl, fun r _ ⟨id, hid, _⟩ => by cases hid⟩
  | cons id ids ih =>
    rw [List.foldlM_cons] at h
    obtain ⟨db₁, h₁, h₂⟩ := bind_eq_ok.1 h
    obtain ⟨e, heD, hid, he, r₀, hr₀, htab, hrow, hhlc, -, -⟩ := hids id (by simp)
    have hstep : propagateDeletedRow env db id = .ok (propagateDelete env db name e.rowPks e.hlc) := by
      have hlogfind : (lrows.find? fun r => r "id" = .text id) = Table.find { log with rows := lrows } [.text id] :=
        find_log_id hs.logPk lrows id
      rw [hid] at hr₀
      rw [hr₀] at hlogfind
      simp only [propagateDeletedRow, hlog, hlogfind, htab, hrow, hhlc, asText, he.table]
    rw [hstep] at h₁
    cases h₁
    obtain ⟨hother, rows₁, ht₁, hkeep, hgone⟩ := propagateDelete_spec hs.targetHlc he ht
    have hlog₁ : (propagateDelete env db name e.rowPks e.hlc).tables deletedRowsTable = some { log with rows := lrows } := by
      rw [hother _ hs.other.symm, hlog]
    obtain ⟨hlog', rows', ht', hkeep', hgone'⟩ := ih ht₁ hlog₁ (fun i hi => hids i (by simp [hi])) h₂
    refine ⟨hlog', rows', ht', fun hall => ?_, fun r hr hex => ?_⟩
    · have hsame := hkeep fun r hr => hall r hr e heD (by simp [hid])
      rw [hkeep' fun r hr e' he' hi => hall r (hsame ▸ hr) e' he' (by simp [hi]), hsame]
    · by_cases hsv : Survives e r
      · have hsame := hkeep fun r' hr' => by rw [hr, Option.some_inj] at hr'; exact hr' ▸ hsv
        obtain ⟨i, hi, hns⟩ := hex
        refine hgone' r (hsame ▸ hr) ⟨i, ?_, hns⟩
        rcases List.mem_cons.1 hi with rfl | hi
        · exact absurd hsv (hns e heD hid)
        · exact hi
      · have hnone := hgone r hr hsv
        have hvac : ∀ r', Table.find { t with rows := rows₁ } k = some r' → ∀ e ∈ D, e.id ∈ ids → Survives e r' := by
          intro r' hr'
          rw [hnone] at hr'
          cases hr'
        rw [hkeep' hvac, hnone]

end Propagate

/-! ## Runs -/

/-- The row is as the received updates and deletes demand: absent if every update
has a delete that is not older, else there, with the newest update as its clock
and every delete older than that. -/
def RowSettled (updates : List RemoteColumnChange) (deletes : List DeleteEntry) : Option Row → Prop
  | none => ∀ u ∈ updates, ∃ d ∈ deletes, hlcKey u.hlcTimestamp ≤ hlcKey d.hlc
  | some r => RowClocked r ∧ ∃ h, r hlcTimestampColumn = .text h ∧ (∃ u ∈ updates, hlcKey u.hlcTimestamp = hlcKey h) ∧
      (∀ u ∈ updates, hlcKey u.hlcTimestamp ≤ hlcKey h) ∧ ∀ d ∈ deletes, hlcKey d.hlc < hlcKey h

structure LogSettled (deletes : List DeleteEntry) (log : Table) : Prop where
  entries : ∀ e ∈ deletes, InLog log e
  ids : ∀ id, (log.find [.text id]).isSome → ∃ e ∈ deletes, e.id = id

structure ReplicaSettled (name : String) (k : List SqlValue) (t log : Table) (rep : Replica) : Prop where
  target : ∃ rows, rep.db.tables name = some { t with rows := rows } ∧
    RowSettled rep.updates rep.deletes (Table.find { t with rows := rows } k)
  log : ∃ lrows, rep.db.tables deletedRowsTable = some { log with rows := lrows } ∧
    LogSettled rep.deletes { log with rows := lrows }

theorem rowSettled_isSome {updates : List RemoteColumnChange} {deletes : List DeleteEntry} {r : Option Row}
    (h : RowSettled updates deletes r) :
    r.isSome ↔ ∃ u ∈ updates, ∀ d ∈ deletes, hlcIsNewer u.hlcTimestamp d.hlc = true := by
  simp only [hlcIsNewer_iff]
  cases r with
  | none =>
    refine iff_of_false (by simp) ?_
    rintro ⟨u, hu, hall⟩
    obtain ⟨d, hd, hle⟩ := h u hu
    exact absurd (hall d hd) (not_lt.2 hle)
  | some r =>
    obtain ⟨-, h', -, ⟨u, hu, he⟩, -, hd⟩ := h
    refine iff_of_true rfl ⟨u, hu, fun d hd' => ?_⟩
    rw [he]
    exact hd d hd'

section Receive
variable {env : Env} {name : String} {k : List SqlValue} {t log : Table} {rep : Replica} {b : RowBatch}

/-- The row after the updates of a batch. -/
theorem updates_settled (hs : DeleteSchema name t log) (hb : BatchFor env name k t rep b)
    {rows rows₁ : List Row} (hrow : RowSettled rep.updates rep.deletes (Table.find { t with rows := rows } k))
    (hbat : Batched env name (batchGroups b.hash b.changes) { t with rows := rows } { t with rows := rows₁ })
    (hmeets : ∀ r h, Table.find { t with rows := rows } k = some r → r hlcTimestampColumn = .text h →
      (∃ u ∈ b.updates, Applies t.columnNames (rowClock r) u) →
      ∃ u ∈ b.updates, Applies t.columnNames (rowClock r) u ∧ hlcIsNewer h u.hlcTimestamp = false) :
    (Table.find { t with rows := rows₁ } k = Table.find { t with rows := rows } k ∧ b.updates = []) ∨
    ∃ r₁ h₁, Table.find { t with rows := rows₁ } k = some r₁ ∧ RowClocked r₁ ∧ r₁ hlcTimestampColumn = .text h₁ ∧
      (∀ u ∈ b.updates, hlcKey u.hlcTimestamp ≤ hlcKey h₁) ∧
      (∀ r₀ h₀, Table.find { t with rows := rows } k = some r₀ → r₀ hlcTimestampColumn = .text h₀ →
        hlcKey h₀ ≤ hlcKey h₁) ∧
      ((∃ u ∈ b.updates, hlcKey u.hlcTimestamp = hlcKey h₁) ∨ Table.find { t with rows := rows } k = some r₁) := by
  have hon : ∀ ch ∈ b.changes, OnRow env { t with rows := rows } name k ch ↔ ch ∈ b.updates := by
    intro ch hch
    constructor
    · intro h
      rcases (hb.mem ch).1 hch with hu | ⟨e, -, he⟩
      · exact hu
      · exact absurd (h.1.symm.trans (mem_entryChanges he).1) hs.other
    · intro hu
      exact (hb.updates ch hu).row
  have hmem : ∀ ch, ch ∈ b.updates → ch ∈ b.changes := fun ch hu => (hb.mem ch).2 (.inl hu)
  rcases batched_single hbat (k := k) (fun x hx y hy hxr hyr =>
    hb.oneText x ((hon x hx).1 hxr) y ((hon y hy).1 hyr)) with ⟨hno, hsame⟩ | ⟨g, hg, hgm, hne, hread, hstep⟩
  · refine .inl ⟨hsame, ?_⟩
    by_contra hne
    obtain ⟨u, hu⟩ := List.exists_mem_of_ne_nil _ hne
    exact hno ⟨u, hmem u hu, (hon u (hmem u hu)).2 hu⟩
  · right
    have hgu : ∀ ch, ch ∈ g.2 ↔ ch ∈ b.updates := fun ch =>
      ⟨fun h => (hon ch ((hgm ch).1 h).1).1 ((hgm ch).1 h).2, fun h => (hgm ch).2 ⟨hmem ch h, (hon ch (hmem ch h)).2 h⟩⟩
    have hd : ∀ ch ∈ g.2, DataName t ch.columnName ∧ ch.columnName ∈ t.columnNames := fun ch hch =>
      ⟨(hb.updates ch ((hgu ch).1 hch)).data, (hb.updates ch ((hgu ch).1 hch)).known⟩
    have hsome : (Table.find { t with rows := rows₁ } k).isSome := by
      rw [hstep, stepRow_isSome hread]
      obtain ⟨u, hu⟩ := List.exists_mem_of_ne_nil _ hne
      exact .inr ⟨u, hu, (hd u hu).2, hlcIsNewer_iff.1 (hb.updates u ((hgu u).1 hu)).newer⟩
    obtain ⟨r₁, hr₁⟩ := Option.isSome_iff_exists.1 hsome
    have hclk : ∀ r', Table.find { t with rows := rows } k = some r' → RowClocked r' := by
      intro r' hr'
      rw [hr'] at hrow
      exact hrow.1
    have hrm : RemoteMeets t (Table.find { t with rows := rows } k) g.2 := by
      intro hex
      refine ⟨fun r' h hr' hh => ?_, fun u hu hx => absurd (hd u hu).2 hx⟩
      rw [hr'] at hex ⊢
      obtain ⟨u, hu, ha⟩ := hex
      obtain ⟨v, hv, hav, hle⟩ := hmeets r' h hr' hh ⟨u, (hgu u).1 hu, ha⟩
      exact ⟨v, (hgu v).2 hv, hav, hle⟩
    rw [hr₁] at hstep
    obtain ⟨hc, h₁, hh₁, hmax, hold, hatt⟩ := stepRow_clocked (t := { t with rows := rows })
      ⟨hs.target.hlcs_mem, hs.target.pk_hlcs, hs.target.pk_hlc⟩ hread hclk
      (fun ch hch => ⟨⟨(hd ch hch).1.pk, (hd ch hch).1.hlc, (hd ch hch).1.hlcs⟩, (hd ch hch).2⟩)
      (batchGroup_sorted hg) hrm hstep.symm
    refine ⟨r₁, h₁, hr₁, hc, hh₁, fun u hu => hmax u ((hgu u).2 hu), hold, ?_⟩
    rcases hatt with ⟨u, hu, he⟩ | he
    · exact .inl ⟨u, (hgu u).1 hu, he⟩
    · exact .inr he

theorem keyOf_entry (hs : DeleteSchema name t log) (hb : BatchFor env name k t rep b) {lrows : List Row} {e : DeleteEntry}
    (he : e ∈ b.deletes) : keyOf env { log with rows := lrows } e.logPks = [.text e.id] :=
  (@keyOf_logPks env name k t { log with rows := lrows } e hs.logPk (hb.deletes e he)).1

theorem entry_of_onRow (hs : DeleteSchema name t log) (hb : BatchFor env name k t rep b) {lrows : List Row} {id : String}
    {ch : RemoteColumnChange} (hch : ch ∈ b.changes)
    (hrow : OnRow env { log with rows := lrows } deletedRowsTable [.text id] ch) :
    ∃ e ∈ b.deletes, e.id = id ∧ ch ∈ e.changes := by
  rcases (hb.mem ch).1 hch with hu | ⟨e, he, hce⟩
  · exact absurd ((hb.updates ch hu).row.1.symm.trans hrow.1) hs.other
  · refine ⟨e, he, ?_, hce⟩
    have hkey := hrow.2
    rw [(mem_entryChanges hce).2.1, keyOf_entry hs hb he] at hkey
    simpa using hkey

/-- A batch leaves a log row as it was, or holds the entry with its id. -/
theorem logRow_cases (hs : DeleteSchema name t log) (hb : BatchFor env name k t rep b) {lrows lrows₁ : List Row}
    (hlog : LogSettled rep.deletes { log with rows := lrows })
    (hbat : Batched env deletedRowsTable (batchGroups b.hash b.changes) { log with rows := lrows }
      { log with rows := lrows₁ }) (id : String) :
    (Table.find { log with rows := lrows₁ } [.text id] = Table.find { log with rows := lrows } [.text id] ∧
      ¬ ∃ e ∈ b.deletes, e.id = id) ∨ ∃ e ∈ b.deletes, e.id = id ∧ InLog { log with rows := lrows₁ } e := by
  have hone : ∀ x ∈ b.changes, ∀ y ∈ b.changes, OnRow env { log with rows := lrows } deletedRowsTable [.text id] x →
      OnRow env { log with rows := lrows } deletedRowsTable [.text id] y → x.rowPks = y.rowPks := by
    intro x hx y hy hxr hyr
    obtain ⟨e, he, hid, hce⟩ := entry_of_onRow hs hb hx hxr
    obtain ⟨e', he', hid', hce'⟩ := entry_of_onRow hs hb hy hyr
    obtain rfl := hb.ids e he e' (List.mem_append_right _ he') (hid.trans hid'.symm)
    rw [(mem_entryChanges hce).2.1, (mem_entryChanges hce').2.1]
  rcases batched_single hbat hone with ⟨hno, hsame⟩ | ⟨g, hg, hgm, hne, -, hstep⟩
  · refine .inl ⟨hsame, ?_⟩
    rintro ⟨e, he, rfl⟩
    refine hno ⟨⟨deletedRowsTable, e.logPks, "table_name", e.hlc, .string e.tableName⟩, (hb.mem _).2 (.inr ⟨e, he, ?_⟩),
      rfl, keyOf_entry hs hb he⟩
    simp [DeleteEntry.changes]
  · obtain ⟨ch, hch⟩ := List.exists_mem_of_ne_nil _ hne
    obtain ⟨hcm, hrow⟩ := (hgm ch).1 hch
    obtain ⟨e, he, rfl, -⟩ := entry_of_onRow hs hb hcm hrow
    -- the group of the log row is the entry, whole
    have hge : ∀ ch, ch ∈ g.2 ↔ ch ∈ e.changes := by
      intro ch
      rw [hgm]
      constructor
      · rintro ⟨hcm, hrow⟩
        obtain ⟨e', he', hid', hce'⟩ := entry_of_onRow hs hb hcm hrow
        rwa [← hb.ids e' he' e (List.mem_append_right _ he) hid']
      · intro hce
        refine ⟨(hb.mem ch).2 (.inr ⟨e, he, hce⟩), (mem_entryChanges hce).1, ?_⟩
        rw [(mem_entryChanges hce).2.1, keyOf_entry hs hb he]
    have hold : Table.find { log with rows := lrows } [.text e.id] = none ∨ InLog { log with rows := lrows } e := by
      cases hf : Table.find { log with rows := lrows } [.text e.id] with
      | none => exact .inl rfl
      | some r =>
        obtain ⟨e', he', hid'⟩ := hlog.ids e.id (by rw [hf]; rfl)
        rw [hb.ids e he e' (List.mem_append_left _ he') hid'.symm]
        exact .inr (hlog.entries e' he')
    have hs' : DeleteSchema name t { log with rows := lrows } :=
      ⟨hs.target, hs.targetHlc, ⟨⟨hs.logPlain.hlcs_mem, hs.logPlain.pk_hlcs, hs.logPlain.pk_hlc⟩, hs.logPlain.uniques⟩,
        hs.logPk, hs.logTable, hs.logRow, hs.other⟩
    exact .inr ⟨e, he, rfl, stepRow_inLog hs' hge (hlcIsNewer_iff.1 (hb.deletes e he).newer) hold hstep⟩

theorem log_settled (hs : DeleteSchema name t log) (hb : BatchFor env name k t rep b) {lrows lrows₁ : List Row}
    (hlog : LogSettled rep.deletes { log with rows := lrows })
    (hbat : Batched env deletedRowsTable (batchGroups b.hash b.changes) { log with rows := lrows }
      { log with rows := lrows₁ }) : LogSettled (rep.deletes ++ b.deletes) { log with rows := lrows₁ } := by
  refine ⟨fun e he => ?_, fun id hid => ?_⟩
  · rcases logRow_cases hs hb hlog hbat e.id with ⟨hsame, hno⟩ | ⟨e', he', hid', hin⟩
    · rcases List.mem_append.1 he with he | he
      · obtain ⟨r, hr, hrest⟩ := hlog.entries e he
        exact ⟨r, hsame.trans hr, hrest⟩
      · exact absurd ⟨e, he, rfl⟩ hno
    · rwa [hb.ids e' he' e he hid'] at hin
  · rcases logRow_cases hs hb hlog hbat id with ⟨hsame, -⟩ | ⟨e, he, hid', -⟩
    · rw [hsame] at hid
      obtain ⟨e, he, hid'⟩ := hlog.ids id hid
      exact ⟨e, List.mem_append_left _ he, hid'⟩
    · exact ⟨e, List.mem_append_right _ he, hid'⟩

theorem mem_batchIds (hs : DeleteSchema name t log) (hb : BatchFor env name k t rep b) {id : String} :
    id ∈ b.hash.ids.iter (inboundDeleteLogIds env (orderedChanges b.hash b.changes)) ↔ ∃ e ∈ b.deletes, e.id = id := by
  rw [(b.hash.ids.perm _).mem_iff, inboundDeleteLogIds, List.mem_dedup, List.mem_filterMap]
  have hentry : ∀ e ∈ b.deletes, ∀ ch ∈ e.changes, deleteLogId env ch = some e.id := by
    intro e he ch hch
    obtain ⟨m, hm, hid⟩ := (hb.deletes e he).log
    obtain ⟨htab, hpks, -⟩ := mem_entryChanges hch
    simp [deleteLogId, htab, hpks, hm, hid]
  constructor
  · rintro ⟨ch, hch, hid⟩
    rcases (hb.mem ch).1 (mem_orderedChanges.1 hch) with hu | ⟨e, he, hce⟩
    · have hne : ch.tableName ≠ deletedRowsTable := fun h => hs.other ((hb.updates ch hu).row.1.symm.trans h)
      simp [deleteLogId, hne] at hid
    · rw [hentry e he ch hce, Option.some_inj] at hid
      exact ⟨e, he, hid⟩
  · rintro ⟨e, he, rfl⟩
    obtain ⟨ch, hch⟩ : ∃ ch, ch ∈ e.changes := ⟨_, List.mem_cons_self⟩
    exact ⟨ch, mem_orderedChanges.2 ((hb.mem ch).2 (.inr ⟨e, he, hch⟩)), hentry e he ch hch⟩

/-- A row with the batch's changes in and its deletes still to come. Its clock bounds the
batch, and what was received before if the row was there. -/
structure Updated (rep : Replica) (b : RowBatch) (old : Option Row) (r : Row) (h : String) : Prop where
  clocked : RowClocked r
  clock : r hlcTimestampColumn = .text h
  batch : ∀ u ∈ b.updates, hlcKey u.hlcTimestamp ≤ hlcKey h
  before : ∀ r₀, old = some r₀ → (∀ u ∈ rep.updates, hlcKey u.hlcTimestamp ≤ hlcKey h) ∧
    ∀ d ∈ rep.deletes, hlcKey d.hlc < hlcKey h
  attained : (∃ u ∈ b.updates, hlcKey u.hlcTimestamp = hlcKey h) ∨
    old = some r ∧ ∃ u ∈ rep.updates, hlcKey u.hlcTimestamp = hlcKey h

theorem updated_of_settled {old : Option Row} {r₁ : Row} (hold : RowSettled rep.updates rep.deletes old)
    (hnew : (some r₁ = old ∧ b.updates = []) ∨
      ∃ r h₁, some r₁ = some r ∧ RowClocked r ∧ r hlcTimestampColumn = .text h₁ ∧
        (∀ u ∈ b.updates, hlcKey u.hlcTimestamp ≤ hlcKey h₁) ∧
        (∀ r₀ h₀, old = some r₀ → r₀ hlcTimestampColumn = .text h₀ → hlcKey h₀ ≤ hlcKey h₁) ∧
        ((∃ u ∈ b.updates, hlcKey u.hlcTimestamp = hlcKey h₁) ∨ old = some r)) :
    ∃ h₁, Updated rep b old r₁ h₁ := by
  rcases hnew with ⟨he, hnil⟩ | ⟨r, h₁, hr, hclk, hh₁, hbatch, holder, hatt⟩
  · rw [← he] at hold
    obtain ⟨hclk, h₁, hh₁, hatt, hmax, hdel⟩ := hold
    exact ⟨h₁, hclk, hh₁, by simp [hnil], fun r₀ _ => ⟨hmax, hdel⟩, .inr ⟨he.symm, hatt⟩⟩
  · obtain rfl := Option.some_inj.1 hr
    refine ⟨h₁, hclk, hh₁, hbatch, fun r₀ hr₀ => ?_, ?_⟩
    · rw [hr₀] at hold
      obtain ⟨-, h₀, hh₀, -, hmax, hdel⟩ := hold
      have hle := holder r₀ h₀ hr₀ hh₀
      exact ⟨fun u hu => (hmax u hu).trans hle, fun d hd => (hdel d hd).trans_le hle⟩
    · rcases hatt with hu | he
      · exact .inl hu
      · rw [he] at hold
        obtain ⟨-, h₀, hh₀, ⟨u, hu, hue⟩, -, -⟩ := hold
        rw [hh₁] at hh₀
        cases hh₀
        exact .inr ⟨he, u, hu, hue⟩

namespace Updated

variable {old : Option Row} {r : Row} {h : String}

theorem survives_iff (hu : Updated rep b old r h) (e : DeleteEntry) : Survives e r ↔ hlcKey e.hlc < hlcKey h := by
  simp [Survives, hu.clock, hlcIsNewer_iff]

theorem above_received (hu : Updated rep b old r h) (hold : RowSettled rep.updates rep.deletes old)
    (hmeets : old = none → b.updates ≠ [] →
      (∀ d ∈ rep.deletes, ∃ u ∈ b.updates, hlcIsNewer u.hlcTimestamp d.hlc = true) ∨
      ∃ d ∈ b.deletes, ∀ u ∈ b.updates, hlcIsNewer u.hlcTimestamp d.hlc = false)
    (hall : ∀ e ∈ b.deletes, Survives e r) :
    (∀ u ∈ rep.updates, hlcKey u.hlcTimestamp ≤ hlcKey h) ∧ ∀ d ∈ rep.deletes, hlcKey d.hlc < hlcKey h := by
  cases ho : old with
  | some r₀ => exact hu.before r₀ ho
  | none =>
    -- the batch brought the row, so one of its changes has the row's clock
    obtain ⟨u₁, hu₁, hue₁⟩ : ∃ u ∈ b.updates, hlcKey u.hlcTimestamp = hlcKey h := by
      rcases hu.attained with hatt | ⟨hr, -⟩
      · exact hatt
      · rw [ho] at hr; cases hr
    have hdel : ∀ d ∈ rep.deletes, hlcKey d.hlc < hlcKey h := by
      rcases hmeets ho (List.ne_nil_of_mem hu₁) with hm | ⟨d, hd, hm⟩
      · intro d hd
        obtain ⟨u, hub, hlt⟩ := hm d hd
        exact (hlcIsNewer_iff.1 hlt).trans_le (hu.batch u hub)
      · have hle := newer_eq_false.1 (hm u₁ hu₁)
        rw [hue₁] at hle
        exact absurd ((hu.survives_iff d).1 (hall d hd)) (not_lt.2 hle)
    refine ⟨fun u hur => ?_, hdel⟩
    rw [ho] at hold
    obtain ⟨d, hd, hle⟩ := hold u hur
    exact hle.trans (hdel d hd).le

theorem kept (hu : Updated rep b old r h) (hall : ∀ e ∈ b.deletes, Survives e r)
    (hreceived : (∀ u ∈ rep.updates, hlcKey u.hlcTimestamp ≤ hlcKey h) ∧ ∀ d ∈ rep.deletes, hlcKey d.hlc < hlcKey h) :
    RowSettled (rep.updates ++ b.updates) (rep.deletes ++ b.deletes) (some r) := by
  refine ⟨hu.clocked, h, hu.clock, ?_, fun u hm => ?_, fun d hm => ?_⟩
  · rcases hu.attained with ⟨u, hm, he⟩ | ⟨-, u, hm, he⟩
    · exact ⟨u, List.mem_append_right _ hm, he⟩
    · exact ⟨u, List.mem_append_left _ hm, he⟩
  · exact (List.mem_append.1 hm).elim (hreceived.1 u) (hu.batch u)
  · exact (List.mem_append.1 hm).elim (hreceived.2 d) fun hd => (hu.survives_iff d).1 (hall d hd)

/-- A delete of the batch takes the row. -/
theorem deleted (hu : Updated rep b old r h) (hold : RowSettled rep.updates rep.deletes old) {d : DeleteEntry}
    (hd : d ∈ b.deletes) (hns : ¬ Survives d r) :
    RowSettled (rep.updates ++ b.updates) (rep.deletes ++ b.deletes) none := by
  have hle : hlcKey h ≤ hlcKey d.hlc := not_lt.1 fun hlt => hns ((hu.survives_iff d).2 hlt)
  intro u hm
  rcases List.mem_append.1 hm with hm | hm
  · cases ho : old with
    | some r₀ => exact ⟨d, List.mem_append_right _ hd, ((hu.before r₀ ho).1 u hm).trans hle⟩
    | none =>
      rw [ho] at hold
      obtain ⟨d', hd', hle'⟩ := hold u hm
      exact ⟨d', List.mem_append_left _ hd', hle'⟩
  · exact ⟨d, List.mem_append_right _ hd, (hu.batch u hm).trans hle⟩

end Updated

theorem deletes_settled {old new final : Option Row}
    (hold : RowSettled rep.updates rep.deletes old)
    (hmeets : old = none → b.updates ≠ [] →
      (∀ d ∈ rep.deletes, ∃ u ∈ b.updates, hlcIsNewer u.hlcTimestamp d.hlc = true) ∨
      ∃ d ∈ b.deletes, ∀ u ∈ b.updates, hlcIsNewer u.hlcTimestamp d.hlc = false)
    (hnew : (new = old ∧ b.updates = []) ∨
      ∃ r₁ h₁, new = some r₁ ∧ RowClocked r₁ ∧ r₁ hlcTimestampColumn = .text h₁ ∧
        (∀ u ∈ b.updates, hlcKey u.hlcTimestamp ≤ hlcKey h₁) ∧
        (∀ r₀ h₀, old = some r₀ → r₀ hlcTimestampColumn = .text h₀ → hlcKey h₀ ≤ hlcKey h₁) ∧
        ((∃ u ∈ b.updates, hlcKey u.hlcTimestamp = hlcKey h₁) ∨ old = some r₁))
    (hkeep : (∀ r, new = some r → ∀ e ∈ b.deletes, Survives e r) → final = new)
    (hgone : ∀ r, new = some r → (∃ e ∈ b.deletes, ¬ Survives e r) → final = none) :
    RowSettled (rep.updates ++ b.updates) (rep.deletes ++ b.deletes) final := by
  cases new with
  | none =>
    have hfinal : final = none := hkeep fun r hr => by cases hr
    obtain ⟨rfl, hnil⟩ : none = old ∧ b.updates = [] := by
      rcases hnew with he | ⟨r₁, h₁, hr, -⟩
      · exact he
      · cases hr
    rw [hfinal, hnil, List.append_nil]
    intro u hu
    obtain ⟨d, hd, hle⟩ := hold u hu
    exact ⟨d, List.mem_append_left _ hd, hle⟩
  | some r₁ =>
    obtain ⟨h₁, hu⟩ := updated_of_settled hold hnew
    by_cases hall : ∀ e ∈ b.deletes, Survives e r₁
    · have hfinal : final = some r₁ := hkeep fun r hr => Option.some_inj.1 hr ▸ hall
      rw [hfinal]
      exact hu.kept hall (hu.above_received hold hmeets hall)
    · push Not at hall
      obtain ⟨d, hd, hns⟩ := hall
      rw [hgone r₁ rfl ⟨d, hd, hns⟩]
      exact hu.deleted hold hd hns

/-- A batch that meets its condition leaves the replica settled. -/
theorem receive_keeps (hs : DeleteSchema name t log) (hI : ReplicaSettled name k t log rep)
    (hb : BatchFor env name k t rep b) (hm : BatchMeets name k t rep b) :
    ReplicaSettled name k t log (receive env rep b) := by
  unfold receive
  cases h : applyRemoteChangesToDb env b.hash rep.db b.changes b.backendInfo with
  | error e => exact hI
  | ok db' =>
    obtain ⟨rows, ht, hrow⟩ := hI.target
    obtain ⟨lrows, hlog, hlset⟩ := hI.log
    obtain ⟨db₁, db₂, h₁, h₂, rfl⟩ := apply_rows h
    have hreg : ∀ ch ∈ b.changes, Regular env { rep.db with triggersEnabled := some "0" } ch := by
      intro ch hch t' ht'
      rcases (hb.mem ch).1 hch with hu | ⟨e, he, hce⟩
      · have hup := hb.updates ch hu
        rw [hup.row.1] at ht'
        obtain rfl : _ = t' := Option.some_inj.1 (ht.symm.trans ht')
        exact ⟨⟨⟨hs.target.hlcs_mem, hs.target.pk_hlcs, hs.target.pk_hlc⟩, hs.target.uniques⟩, hup.addresses,
          ⟨hup.data.pk, hup.data.hlc, hup.data.hlcs⟩⟩
      · obtain ⟨htab, hpks, -, hor⟩ := mem_entryChanges hce
        rw [htab] at ht'
        obtain rfl : _ = t' := Option.some_inj.1 (hlog.symm.trans ht')
        have hpk : Table.pkNames { log with rows := lrows } = ["id"] := hs.logPk
        refine ⟨⟨⟨hs.logPlain.hlcs_mem, hs.logPlain.pk_hlcs, hs.logPlain.pk_hlc⟩, hs.logPlain.uniques⟩, ?_, ?_⟩
        · rw [hpks]; exact (keyOf_logPks hpk (hb.deletes e he)).2
        · exact logData hpk (hor.imp And.left And.left)
    have hgroups : ∀ g ∈ batchGroups b.hash b.changes, RegularGroup env { rep.db with triggersEnabled := some "0" } g :=
      fun g hg => regularGroup_of_batch hreg hg
    obtain ⟨t₁, ht₁, hbat⟩ := (applyRows_ok hgroups h₁ name).2 _ ht
    obtain ⟨rows₁, rfl⟩ : ∃ rows₁, t₁ = { t with rows := rows₁ } := ⟨t₁.rows, hbat.schema⟩
    obtain ⟨log₁, hlog₁, hlbat⟩ := (applyRows_ok hgroups h₁ deletedRowsTable).2 _ hlog
    obtain ⟨lrows₁, rfl⟩ : ∃ lrows₁, log₁ = { log with rows := lrows₁ } := ⟨log₁.rows, hlbat.schema⟩
    have hlset₁ := log_settled hs hb hlset hlbat
    obtain ⟨hlog', rows', ht', hkeep, hgone⟩ := foldlM_propagate (D := b.deletes) hs ht₁ hlog₁ (fun id hid => by
      obtain ⟨e, he, hid'⟩ := (mem_batchIds hs hb).1 hid
      exact ⟨e, he, hid', hb.deletes e he, hlset₁.entries e (List.mem_append_right _ he)⟩) h₂
    refine ⟨⟨rows', by rw [setPushCursor_tables]; exact ht', ?_⟩, lrows₁, by rw [setPushCursor_tables]; exact hlog', hlset₁⟩
    have hm' := hm _ ht
    refine deletes_settled hrow (fun ho => ?_) (updates_settled hs hb hrow hbat fun r h hr hh => ?_)
      (fun hall => hkeep fun r hr e he _ => hall r hr e he) (fun r hr ⟨e, he, hns⟩ => ?_)
    · rw [ho] at hm'; exact hm'
    · rw [hr] at hm'; exact hm' h hh
    · refine hgone r hr ⟨e.id, (mem_batchIds hs hb).2 ⟨e, he, rfl⟩, fun e' he' hid => ?_⟩
      rwa [hb.ids e' he' e (List.mem_append_right _ he) hid]

end Receive

/-- From an empty start, in every run of batches that meet their condition, the
row exists iff some received change is strictly newer than every received delete. -/
theorem delete_update_settled {env : Env} {name : String} {k : List SqlValue} {t log : Table} {db : Database}
    {bs : List RowBatch} (hs : DeleteSchema name t log) (ht : db.tables name = some t) (hk : t.find k = none)
    (hlog : db.tables deletedRowsTable = some log) (hempty : log.rows = [])
    (h : Guarded (receive env) (fun rep b => BatchFor env name k t rep b ∧ BatchMeets name k t rep b) ⟨db, [], []⟩ bs) :
    ∃ t', (run (receive env) ⟨db, [], []⟩ bs).db.tables name = some t' ∧
      ((t'.find k).isSome ↔ ∃ u ∈ (run (receive env) ⟨db, [], []⟩ bs).updates,
        ∀ d ∈ (run (receive env) ⟨db, [], []⟩ bs).deletes, hlcIsNewer u.hlcTimestamp d.hlc = true) := by
  have h0 : ReplicaSettled name k t log ⟨db, [], []⟩ := by
    refine ⟨⟨t.rows, ht, ?_⟩, log.rows, hlog, by simp, fun id hid => ?_⟩
    · rw [hk]; simp [RowSettled]
    · simp [Table.find, Keyed.get, hempty] at hid
  obtain ⟨rows, htab, hrow⟩ := (h.inv (fun rep b hI hg => receive_keeps hs hI hg.1 hg.2) h0).target
  exact ⟨_, htab, rowSettled_isSome hrow⟩

def notesLogDb : Database where
  tables := fun name =>
    if name = "notes" then some (emptyTable ["id"] ["title", "body"])
    else if name = deletedRowsTable then some (emptyTable ["id"] ["table_name", "row_pks"])
    else none

def noteDelete (hlc : String) : DeleteEntry :=
  ⟨"d", "\x7b\"id\":\"d\"\x7d", "notes", "\x7b\"id\":\"a\"\x7d", hlc⟩

def updateBatch (ch : RemoteColumnChange) : RowBatch := ⟨inOrder, [ch], [ch], [], none⟩

def deleteBatch (e : DeleteEntry) : RowBatch := ⟨inOrder, e.changes, [], [e], none⟩

theorem delete_update_settled_notes :
    ∃ t', (run (receive notesEnv) ⟨notesLogDb, [], []⟩
        [updateBatch (noteChange "title" "3/b" "x"), deleteBatch (noteDelete "5/b")]).db.tables "notes" = some t' ∧
      ((t'.find [.text "a"]).isSome ↔
        ∃ u ∈ (run (receive notesEnv) ⟨notesLogDb, [], []⟩
          [updateBatch (noteChange "title" "3/b" "x"), deleteBatch (noteDelete "5/b")]).updates,
        ∀ d ∈ (run (receive notesEnv) ⟨notesLogDb, [], []⟩
          [updateBatch (noteChange "title" "3/b" "x"), deleteBatch (noteDelete "5/b")]).deletes,
          hlcIsNewer u.hlcTimestamp d.hlc = true) := by
  have hdel : (receive notesEnv ⟨notesLogDb, [], []⟩ (updateBatch (noteChange "title" "3/b" "x"))).deletes = [] := by
    unfold receive
    split <;> rfl
  have hup : UpdateFor notesEnv "notes" [.text "a"] (emptyTable ["id"] ["title", "body"])
      (noteChange "title" "3/b" "x") :=
    ⟨⟨rfl, by decide⟩, ⟨[("id", .string "a")], rfl, by decide⟩, (notes_data (.inl rfl)).1, (notes_data (.inl rfl)).2,
      by decide⟩
  have hent : EntryFor notesEnv "notes" [.text "a"] (emptyTable ["id"] ["title", "body"]) (noteDelete "5/b") := by
    refine ⟨rfl, ⟨[("id", .string "d")], rfl, by decide⟩, by decide, ⟨[("id", .text "a")], by decide, by decide, ?_⟩,
      by decide⟩
    intro r
    have hpk : (emptyTable ["id"] ["title", "body"]).pkNames = ["id"] := by decide
    simp [whereMatches, Table.rowKey, hpk]
  have hguard : Guarded (receive notesEnv) (fun rep b => BatchFor notesEnv "notes" [.text "a"]
      (emptyTable ["id"] ["title", "body"]) rep b ∧ BatchMeets "notes" [.text "a"] (emptyTable ["id"] ["title", "body"]) rep b)
      ⟨notesLogDb, [], []⟩ [updateBatch (noteChange "title" "3/b" "x"), deleteBatch (noteDelete "5/b")] := by
    refine ⟨⟨⟨?_, ?_, ?_, ?_, ?_⟩, ?_⟩, ⟨⟨?_, ?_, ?_, ?_, ?_⟩, ?_⟩, trivial⟩
    · intro ch; simp [updateBatch]
    · intro ch hch; rw [List.mem_singleton.1 hch]; exact hup
    · intro a ha b hb; rw [List.mem_singleton.1 ha, List.mem_singleton.1 hb]
    · intro e he; cases he
    · intro e he; cases he
    · intro t' ht'
      obtain rfl : emptyTable ["id"] ["title", "body"] = t' := Option.some_inj.1 ht'
      exact fun _ => .inl fun d hd => by cases hd
    · intro ch; simp [deleteBatch]
    · intro ch hch; cases hch
    · intro a ha; cases ha
    · intro e he; rw [List.mem_singleton.1 he]; exact hent
    · intro e he e' he' _
      rw [hdel, List.nil_append] at he'
      rw [List.mem_singleton.1 he, List.mem_singleton.1 he']
    · intro t' ht'
      split
      · exact fun h => absurd rfl h
      · rintro h hh ⟨u, hu, -⟩
        cases hu
  have hschema : DeleteSchema "notes" (emptyTable ["id"] ["title", "body"]) (emptyTable ["id"] ["table_name", "row_pks"]) :=
    ⟨⟨⟨by decide, by decide, by decide⟩, rfl⟩, by decide, ⟨⟨by decide, by decide, by decide⟩, rfl⟩, by decide, by decide,
      by decide, by decide⟩
  exact delete_update_settled hschema rfl rfl rfl rfl hguard

/-- A change that is older than a stored delete brings the row back; received the
other way round, the row is gone. -/
theorem older_change_revives_row :
    ((run (receive notesEnv) ⟨notesLogDb, [], []⟩
      [deleteBatch (noteDelete "5/b"), updateBatch (noteChange "title" "3/b" "x")]).db.tables "notes").map
        (fun t => (t.find [.text "a"]).isSome) = some true ∧
    ((run (receive notesEnv) ⟨notesLogDb, [], []⟩
      [updateBatch (noteChange "title" "3/b" "x"), deleteBatch (noteDelete "5/b")]).db.tables "notes").map
        (fun t => (t.find [.text "a"]).isSome) = some false ∧
    (run (receive notesEnv) ⟨notesLogDb, [], []⟩
      [deleteBatch (noteDelete "5/b"), updateBatch (noteChange "title" "3/b" "x")]).updates =
        [noteChange "title" "3/b" "x"] ∧
    (run (receive notesEnv) ⟨notesLogDb, [], []⟩
      [deleteBatch (noteDelete "5/b"), updateBatch (noteChange "title" "3/b" "x")]).deletes = [noteDelete "5/b"] ∧
    hlcIsNewer "3/b" "5/b" = false := by
  refine ⟨?_, ?_, ?_, ?_, ?_⟩ <;> decide

end HaexVault.Crdt
