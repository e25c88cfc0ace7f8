import HaexVault.Crdt.RowClock
import HaexVault.Crdt.Convergence
/-!
# Columns an old schema lacks

A change of a column the schema lacks is skipped, but its HLC goes into the row's `haex_column_hlcs`
whenever the same group writes the row. `pending_column_recovered` says which histories end with the
newest value.
-/

namespace HaexVault.Crdt

open HaexVault.Lib HaexVault.Lib.Lww HaexVault.Lib.Runs

structure Device where
  db : Database
  received : List RemoteColumnChange := []

/-- A pull, or a re-pull of one column: one call of the apply command. A call that
fails is rolled back. -/
def pull (env : Env) (dev : Device) (d : Delivery) : Device :=
  match applyRemoteChangesToDb env d.hash dev.db d.changes d.backendInfo with
  | .ok db => ⟨db, dev.received ++ d.changes⟩
  | .error _ => dev

def migrate (db : Database) (name : String) (column : Column) : Database :=
  match db.tables name with
  | some t => db.setTable name (t.addColumn column)
  | none => db

def rowChanges (env : Env) (t : Table) (name : String) (k : List SqlValue) (changes : List RemoteColumnChange) :
    List RemoteColumnChange := changes.filter fun ch => ch.tableName = name ∧ keyOf env t ch.rowPks = k

section
variable (env : Env) (name : String) (k : List SqlValue) (t : Table) (z : String) (newest : String)

/-- Before the migration: changes are of data columns, none of the delete log, and
a batch with a change of `z` as new as `newest` has no change of the row that applies. -/
structure SkipMeets (dev : Device) (d : Delivery) : Prop where
  regular : ∀ ch ∈ d.changes, Regular env dev.db ch
  notLog : ∀ ch ∈ d.changes, ch.tableName ≠ deletedRowsTable
  quiet : ∀ t', dev.db.tables name = some t' →
    (∃ zc ∈ rowChanges env t name k d.changes, zc.columnName = z ∧ hlcIsNewer newest zc.hlcTimestamp = false) →
    ∀ ch ∈ rowChanges env t name k d.changes, ¬ Applies t.columnNames (fun c => (t'.cell k c).1) ch

structure RepullMeets (dev : Device) (d : Delivery) : Prop where
  regular : ∀ ch ∈ d.changes, Regular env dev.db ch
  notLog : ∀ ch ∈ d.changes, ch.tableName ≠ deletedRowsTable
  single : ∀ t', dev.db.tables name = some t' → t'.find k = none →
    ∀ a ∈ rowChanges env t name k d.changes, ∀ b ∈ rowChanges env t name k d.changes,
      a.columnName = z → b.columnName = z → a = b

end

/-! ## Before the migration -/

section Skip
variable {env : Env} {name : String} {k : List SqlValue} {t : Table} {z newest : String}

theorem foldl_stepRow_quiet {gs : List ((String × String) × List RemoteColumnChange)} {r : Option Row} (hr : Readable r)
    (hq : ∀ g ∈ gs, ∀ ch ∈ g.2, ¬ Applies t.columnNames (fun c => (t.cellOf r c).1) ch) :
    gs.foldl (stepRow env t) r = r := by
  induction gs with
  | nil => rfl
  | cons g gs ih =>
    obtain ⟨stored, hst⟩ := hr
    have hnil : (collectChanges t.columnNames stored g.2).columnsToUpdate = [] := by
      rw [columnsToUpdate_eq_nil]
      intro ch hch hx
      by_contra hlt
      have hl : (t.cellOf r ch.columnName).1 = stored.lookup ch.columnName := (currentHlcs_lookup hst t _).symm
      refine hq g (by simp) ch hch ⟨hx, hlcIsNewer_iff.2 ?_⟩
      show clockKey (t.cellOf r ch.columnName).1 < _
      rw [hl]
      exact not_le.1 hlt
    have hsame : stepRow env t r g = r := by
      rw [stepRow_eq hst]
      simp [rowOutcome, hnil]
    rw [List.foldl_cons, hsame]
    exact ih fun g' hg' => hq g' (by simp [hg'])

theorem stepRow_clock_unknown (hc : CrdtTable t) {r : Option Row} {g : (String × String) × List RemoteColumnChange}
    (hd : ∀ ch ∈ g.2, DataName t ch.columnName) (hr : Readable r) (c : String) :
    (t.cellOf (stepRow env t r g) c).1 = (t.cellOf r c).1 ∨
      ∃ ch ∈ g.2, ch.columnName = c ∧ (t.cellOf (stepRow env t r g) c).1 = some ch.hlcTimestamp := by
  obtain ⟨stored, hst⟩ := hr
  rw [stepRow_eq hst]
  by_cases hnil : (collectChanges t.columnNames stored g.2).columnsToUpdate = []
  · simp [rowOutcome, hnil]
  · obtain ⟨r', hr'⟩ : ∃ r', rowOutcome t ((env.fromStr g.1.2).getD []) r
        (collectChanges t.columnNames stored g.2) = some r' := by simp [rowOutcome, hnil]
    have hclock : (t.cellOf (some r') c).1 = (collectChanges t.columnNames stored g.2).columnHlcs.lookup c := by
      simp [Table.cellOf, rowClock, (outcome_metadata hc hd hnil hr').1]
    rw [hr', hclock]
    rcases (collect_gathered t.columnNames stored g.2).clocks c with he | ⟨ch, hch, hcc, he, -⟩
    · exact .inl (he.trans (currentHlcs_lookup hst t c))
    · exact .inr ⟨ch, hch, hcc, he⟩

theorem foldl_stepRow_clock_lt (hc : CrdtTable t) {gs : List ((String × String) × List RemoteColumnChange)}
    (hd : ∀ g ∈ gs, ∀ ch ∈ g.2, DataName t ch.columnName)
    (hlt : ∀ g ∈ gs, ∀ ch ∈ g.2, ch.columnName = z → hlcKey ch.hlcTimestamp < hlcKey newest) {r : Option Row}
    (hr : Readable r) (h0 : clockKey (t.cellOf r z).1 < hlcKey newest) :
    clockKey (t.cellOf (gs.foldl (stepRow env t) r) z).1 < hlcKey newest := by
  induction gs generalizing r with
  | nil => exact h0
  | cons g gs ih =>
    refine ih (fun g' hg' => hd g' (by simp [hg'])) (fun g' hg' => hlt g' (by simp [hg']))
      (stepRow_readable hc (hd g (by simp)) hr) ?_
    have hstep : (t.cellOf (stepRow env t r g) z).1 = (t.cellOf r z).1 ∨
        ∃ ch ∈ g.2, ch.columnName = z ∧ (t.cellOf (stepRow env t r g) z).1 = some ch.hlcTimestamp :=
      stepRow_clock_unknown hc (hd g (by simp)) hr z
    rcases hstep with he | ⟨ch, hch, hcc, he⟩
    · rw [he]; exact h0
    · rw [he]; exact hlt g (by simp) ch hch hcc

/-- The recorded HLC of column `z` in row `k` is older than the newest change of it. -/
def SkipInv (name : String) (k : List SqlValue) (t : Table) (z newest : String) (dev : Device) : Prop :=
  ∃ rows, dev.db.tables name = some { t with rows := rows } ∧
    clockKey (Table.cell { t with rows := rows } k z).1 < hlcKey newest

theorem pull_skip {dev : Device} {d : Delivery} (hI : SkipInv name k t z newest dev)
    (hm : SkipMeets env name k t z newest dev d) : SkipInv name k t z newest (pull env dev d) := by
  obtain ⟨rows, ht, hlt⟩ := hI
  unfold pull
  cases h : applyRemoteChangesToDb env d.hash dev.db d.changes d.backendInfo with
  | error e => exact ⟨rows, ht, hlt⟩
  | ok db' =>
    obtain ⟨t', ht', hb⟩ := (apply_ok hm.regular hm.notLog h name).2 _ ht
    obtain ⟨rows', rfl⟩ : ∃ rows', t' = { t with rows := rows' } := ⟨t'.rows, hb.schema⟩
    refine ⟨rows', ht', ?_⟩
    show clockKey (Table.cellOf { t with rows := rows } (Table.find { t with rows := rows' } k) z).1 < _
    rw [hb.find k]
    have hreg : ∀ ch ∈ d.changes, ch.tableName = name →
        CrdtTable { t with rows := rows } ∧ DataName { t with rows := rows } ch.columnName :=
      fun ch hch hn => (hm.regular ch hch).data ht hn
    have hmem : ∀ g ∈ groupsOf env { t with rows := rows } name k (batchGroups d.hash d.changes), ∀ ch ∈ g.2,
        ch ∈ rowChanges env t name k d.changes := by
      intro g hg ch hch
      obtain ⟨hgb, hn, hk⟩ := mem_groupsOf.1 hg
      obtain ⟨hcm, he⟩ := (mem_batchGroup hgb).1 hch
      rw [← he] at hn hk
      exact List.mem_filter.2 ⟨hcm, decide_eq_true ⟨hn, hk⟩⟩
    by_cases hne : groupsOf env { t with rows := rows } name k (batchGroups d.hash d.changes) = []
    · rw [hne]; exact hlt
    have hread := hb.readable k hne
    by_cases hz : ∃ zc ∈ rowChanges env t name k d.changes, zc.columnName = z ∧ hlcIsNewer newest zc.hlcTimestamp = false
    · -- The newest change of `z` came along, so nothing in the batch applies to the row.
      rw [foldl_stepRow_quiet (t := { t with rows := rows }) hread fun g hg ch hch => hm.quiet _ ht hz ch (hmem g hg ch hch)]
      exact hlt
    · push Not at hz
      refine foldl_stepRow_clock_lt (groupsOf_crdt hreg hne) (groupsOf_data hreg) (fun g hg ch hch hcc => ?_) hread hlt
      have := hz ch (hmem g hg ch hch) hcc
      rw [ne_eq, Bool.not_eq_false] at this
      exact hlcIsNewer_iff.1 this

end Skip

/-! ## The migration -/

theorem migrate_cell {t : Table} {c : Column} (hc : c.isPk = false) (hn : DataName t c.name) (k : List SqlValue) :
    ((t.addColumn c).cell k c.name).1 = (t.cell k c.name).1 := by
  have hne : columnHlcsColumn ≠ c.name := fun e => hn.hlcs e.symm
  simp only [Table.cell, t.find_addColumn hc hn.pk]
  cases t.find k with
  | none => rfl
  | some r => simp [Table.cellOf, rowClock, Function.update_of_ne hne]

/-! ## After the migration -/

section Repull
variable {env : Env} {name : String} {k : List SqlValue} {t : Table} {z : String}

def RepullInv (env : Env) (name : String) (k : List SqlValue) (t : Table) (z : String)
    (c₀ : Option String × SqlValue) (dev : Device) : Prop :=
  ∃ rows, dev.db.tables name = some { t with rows := rows } ∧
    ∃ ws : List (String × SqlValue), (∀ w, w ∈ ws ↔ Offers env t name k z {ch | ch ∈ dev.received} w) ∧
      Table.cell { t with rows := rows } k z = ws.foldl (write clockKey) c₀

theorem pull_repull {c₀ : Option String × SqlValue} {dev : Device} {d : Delivery} (hz : z ∈ t.columnNames)
    (hd : DataName t z) (hI : RepullInv env name k t z c₀ dev) (hm : RepullMeets env name k t z dev d) :
    RepullInv env name k t z c₀ (pull env dev d) := by
  obtain ⟨rows, ht, ws, hw, hcell⟩ := hI
  unfold pull
  cases h : applyRemoteChangesToDb env d.hash dev.db d.changes d.backendInfo with
  | error e => exact ⟨rows, ht, ws, hw, hcell⟩
  | ok db' =>
    obtain ⟨t', ht', hb⟩ := (apply_ok hm.regular hm.notLog h name).2 _ ht
    obtain ⟨rows', rfl⟩ : ∃ rows', t' = { t with rows := rows' } := ⟨t'.rows, hb.schema⟩
    have hreg : ∀ ch ∈ d.changes, ch.tableName = name →
        CrdtTable { t with rows := rows } ∧ DataName { t with rows := rows } ch.columnName :=
      fun ch hch hn => (hm.regular ch hch).data ht hn
    have hbat := batched_cell (k := k) hreg hb (knownIn_of_mem hz _) ⟨hd.pk, hd.hlc, hd.hlcs⟩ fun hnone g hg => by
      obtain ⟨hgb, hn, hk⟩ := mem_groupsOf.1 hg
      have hsame : ∀ w ∈ writesTo z g.2, ∀ w' ∈ writesTo z g.2, w = w' := by
        intro w hw w' hw'
        obtain ⟨a, ha, hac, ha₁, ha₂⟩ := mem_writesTo.1 hw
        obtain ⟨b, hb, hbc, hb₁, hb₂⟩ := mem_writesTo.1 hw'
        have hrow : ∀ ch ∈ g.2, ch ∈ rowChanges env t name k d.changes := by
          intro ch hch
          obtain ⟨hcm, he⟩ := (mem_batchGroup hgb).1 hch
          rw [← he] at hn hk
          exact List.mem_filter.2 ⟨hcm, decide_eq_true ⟨hn, hk⟩⟩
        obtain rfl := hm.single _ ht hnone a (hrow a ha) b (hrow b hb) hac hbc
        exact Prod.ext (ha₁.symm.trans hb₁) (ha₂.symm.trans hb₂)
      unfold FirstIsLast
      rw [List.head?_map, List.getLast?_map, accepted_head?_eq_getLast? clockKey hsame]
    refine ⟨rows', ht', ws ++ _, fun w => ?_, by rw [hbat, hcell, List.foldl_append]⟩
    rw [List.mem_append, hw, mem_batchWrites]
    have hunion : {ch | ch ∈ dev.received ++ d.changes} = {ch | ch ∈ dev.received} ∪ {ch | ch ∈ d.changes} := by
      ext ch; simp
    show _ ↔ Offers env t name k z {ch | ch ∈ dev.received ++ d.changes} w
    rw [hunion, Offers.union]
    rfl

end Repull

/-- If every batch before the migration and after it meets its condition, and the
changes received since the migration include the newest one of the cell, the cell
holds that change's value. -/
theorem pending_column_recovered {env : Env} {name : String} {k : List SqlValue} {db : Database} {t : Table}
    {column : Column} {ds ds' : List Delivery} {n : RemoteColumnChange}
    (ht : db.tables name = some t) (hpk : column.isPk = false) (hd : DataName t column.name)
    (hstart : (t.cell k column.name).1 = none) (hpos : hlcIsNewer n.hlcTimestamp "" = true)
    (hskip : Guarded (pull env) (SkipMeets env name k t column.name n.hlcTimestamp) ⟨db, []⟩ ds)
    (hrepull : Guarded (pull env) (RepullMeets env name k (t.addColumn column) column.name)
      ⟨migrate (run (pull env) ⟨db, []⟩ ds).db name column, []⟩ ds')
    (hn : n ∈ (run (pull env) ⟨migrate (run (pull env) ⟨db, []⟩ ds).db name column, []⟩ ds').received)
    (hcell : Names env t name k column.name n)
    (hnewest : ∀ ch ∈ (run (pull env) ⟨migrate (run (pull env) ⟨db, []⟩ ds).db name column, []⟩ ds').received,
      Names env t name k column.name ch → hlcIsNewer ch.hlcTimestamp n.hlcTimestamp = false ∧
        (compareHlcStrings ch.hlcTimestamp n.hlcTimestamp = .eq → ch.decryptedValue = n.decryptedValue)) :
    ∃ t', (run (pull env) ⟨migrate (run (pull env) ⟨db, []⟩ ds).db name column, []⟩ ds').db.tables name = some t' ∧
      (t'.cell k column.name).2 = jsonToRusqliteValue n.decryptedValue ∧
      compareHlcStrings ((t'.cell k column.name).1.getD "") n.hlcTimestamp = .eq := by
  have h0 : SkipInv name k t column.name n.hlcTimestamp ⟨db, []⟩ :=
    ⟨t.rows, ht, by show clockKey (t.cell k column.name).1 < _; rw [hstart]; exact hlcIsNewer_iff.1 hpos⟩
  -- before the migration: the clock of the missing column stays below the newest change
  obtain ⟨rows, ht₁, hlt⟩ := hskip.inv (fun dev d hI hm => pull_skip hI hm) h0
  generalize run (pull env) ⟨db, []⟩ ds = dev₁ at ht₁ hrepull hn hnewest ⊢
  have hmig : (migrate dev₁.db name column).tables name = some (Table.addColumn { t with rows := rows } column) := by
    simp [migrate, ht₁, Database.setTable]
  have hd₁ : DataName { t with rows := rows } column.name := ⟨hd.pk, hd.hlc, hd.hlcs⟩
  have hd₂ : DataName (t.addColumn column) column.name := by
    refine ⟨?_, hd.hlc, hd.hlcs⟩
    rw [t.pkNames_addColumn hpk]
    exact hd.pk
  have hz : column.name ∈ (t.addColumn column).columnNames := by
    rw [t.columnNames_addColumn]
    simp
  have hlt₂ : clockKey ((Table.addColumn { t with rows := rows } column).cell k column.name).1 < hlcKey n.hlcTimestamp := by
    rw [migrate_cell hpk hd₁]
    exact hlt
  -- after it: the cell is its register over what was pulled again
  have h1 : RepullInv env name k (t.addColumn column) column.name
      ((Table.addColumn { t with rows := rows } column).cell k column.name) ⟨migrate dev₁.db name column, []⟩ :=
    ⟨_, hmig, [], by simp [Offers], rfl⟩
  obtain ⟨rows', ht', ws, hw, hcellws⟩ := hrepull.inv (fun dev d hI hm => pull_repull hz hd₂ hI hm) h1
  have hnames : ∀ ch, Names env (t.addColumn column) name k column.name ch ↔ Names env t name k column.name ch := by
    intro ch
    simp only [Names, OnRow, keyOf, pkKey, t.pkNames_addColumn hpk]
  refine ⟨_, ht', ?_⟩
  rw [hcellws]
  have hwn : (n.hlcTimestamp, jsonToRusqliteValue n.decryptedValue) ∈ ws :=
    (hw _).2 ⟨n, hn, (hnames n).2 hcell, rfl⟩
  rcases foldl_write_cases clockKey ws ((Table.addColumn { t with rows := rows } column).cell k column.name) with
    ⟨-, hle⟩ | ⟨w, hwm, he, -, hle⟩
  · exact absurd (hle _ hwn) (not_le.2 hlt₂)
  · obtain ⟨ch, hch, hchn, rfl⟩ := (hw w).1 hwm
    obtain ⟨hnot, hval⟩ := hnewest ch hch ((hnames ch).1 hchn)
    have hkey : hlcKey ch.hlcTimestamp = hlcKey n.hlcTimestamp := le_antisymm (newer_eq_false.1 hnot) (hle _ hwn)
    rw [he]
    exact ⟨by rw [hval (compare_eq_eq.2 hkey)], compare_eq_eq.2 hkey⟩

/-! ## A note without a body -/

def bodyColumn : Column := ⟨"body", false, false, .null⟩

def afterMigration (batches batches' : List (List RemoteColumnChange)) : Device :=
  run (pull notesEnv) ⟨migrate (run (pull notesEnv) ⟨notesDb (emptyTable ["id"] ["title"]), []⟩ (calls batches)).db
    "notes" bodyColumn, []⟩ (calls batches')

theorem pending_column_recovered_notes :
    ∃ t', (afterMigration [[noteChange "body" "2/b" "y"]] [[noteChange "body" "2/b" "y"]]).db.tables "notes" = some t' ∧
      (t'.cell [.text "a"] "body").2 = .text "y" ∧
      compareHlcStrings ((t'.cell [.text "a"] "body").1.getD "") "2/b" = .eq := by
  have hreg : ∀ {db : Database} (names : List String), "haex_column_hlcs" ∈ names →
      ((db.tables "notes").map fun t => (t.columnNames, t.pkNames, t.uniques)) = some (names, ["id"], []) →
      Regular notesEnv db (noteChange "body" "2/b" "y") := by
    intro db names hnames h t ht
    have ht' : db.tables "notes" = some t := ht
    rw [ht', Option.map_some, Option.some_inj, Prod.mk.injEq, Prod.mk.injEq] at h
    obtain ⟨hcol, hpk, hu⟩ := h
    refine ⟨⟨⟨by rw [hcol]; exact hnames, by rw [hpk]; decide, by rw [hpk]; decide⟩, hu⟩,
      ⟨[("id", .string "a")], rfl, by rw [hpk]; decide⟩, by rw [hpk]; decide, by decide, by decide⟩
  have hskip : Guarded (pull notesEnv) (SkipMeets notesEnv "notes" [.text "a"] (emptyTable ["id"] ["title"]) "body" "2/b")
      ⟨notesDb (emptyTable ["id"] ["title"]), []⟩ (calls [[noteChange "body" "2/b" "y"]]) := by
    refine ⟨⟨?_, ?_, ?_⟩, trivial⟩
    · intro ch hch
      rw [List.mem_singleton.1 hch]
      exact hreg ["id", "title", "haex_hlc", "haex_column_hlcs"] (by decide) (by decide)
    · intro ch hch
      rw [List.mem_singleton.1 hch]
      decide
    · intro t' _ _ ch hch ha
      have hmem : ch ∈ [noteChange "body" "2/b" "y"] := (List.mem_filter.1 hch).1
      rw [List.mem_singleton.1 hmem] at ha
      exact absurd ha.1 (by decide)
  have hrepull : Guarded (pull notesEnv)
      (RepullMeets notesEnv "notes" [.text "a"] ((emptyTable ["id"] ["title"]).addColumn bodyColumn) "body")
      ⟨migrate (run (pull notesEnv) ⟨notesDb (emptyTable ["id"] ["title"]), []⟩
        (calls [[noteChange "body" "2/b" "y"]])).db "notes" bodyColumn, []⟩ (calls [[noteChange "body" "2/b" "y"]]) := by
    refine ⟨⟨?_, ?_, ?_⟩, trivial⟩
    · intro ch hch
      rw [List.mem_singleton.1 hch]
      exact hreg ["id", "title", "haex_hlc", "haex_column_hlcs", "body"] (by decide) (by decide)
    · intro ch hch
      rw [List.mem_singleton.1 hch]
      decide
    · intro t' _ _ a ha b hb _ _
      have ha' : a ∈ [noteChange "body" "2/b" "y"] := (List.mem_filter.1 ha).1
      have hb' : b ∈ [noteChange "body" "2/b" "y"] := (List.mem_filter.1 hb).1
      rw [List.mem_singleton.1 ha', List.mem_singleton.1 hb']
  have hrec : (afterMigration [[noteChange "body" "2/b" "y"]] [[noteChange "body" "2/b" "y"]]).received =
      [noteChange "body" "2/b" "y"] := by decide
  have hpk : bodyColumn.isPk = false := rfl
  exact pending_column_recovered (n := noteChange "body" "2/b" "y") rfl hpk
    ⟨by decide, by decide, by decide⟩ rfl (by decide) hskip hrepull
    (by show _ ∈ (afterMigration _ _).received; rw [hrec]; simp)
    ⟨⟨rfl, by decide⟩, rfl⟩
    (fun ch hch _ => by
      change ch ∈ (afterMigration _ _).received at hch
      rw [hrec, List.mem_singleton] at hch
      subst hch
      exact ⟨by decide, fun _ => rfl⟩)

/-- With a change of a known column in the same batch, the re-pull is refused and
the cell stays empty. -/
theorem pending_column_lost :
    ((afterMigration [[noteChange "title" "2/b" "x", noteChange "body" "2/b" "y"]]
      [[noteChange "body" "2/b" "y"]]).db.tables "notes").map (fun t => t.cell [.text "a"] "body") =
      some (some "2/b", .null) := by
  decide

end HaexVault.Crdt
