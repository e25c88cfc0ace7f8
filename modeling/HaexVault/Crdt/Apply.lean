import HaexVault.Crdt.Commands
import HaexVault.Lib.Lww
import HaexVault.Lib.Steps
/-!
# What applying one row's changes does

The loop over a row's changes is a last-writer-wins register per column: the changes gathered for
a column are the writes its register accepts (`collect_lookup`, `collect_changed`). `applyRow_ok`
says what a successful turn does to the row it names; all else stays as it was.
-/

namespace HaexVault.Crdt

open HaexVault.Lib HaexVault.Lib.Lww HaexVault.Lib.Steps

/-! ## The loop over a row's changes -/

def writesTo (c : String) (changes : List RemoteColumnChange) : List (String × SqlValue) :=
  (changes.filter fun ch => ch.columnName = c).map fun ch => (ch.hlcTimestamp, jsonToRusqliteValue ch.decryptedValue)

theorem writesTo_cons (c : String) (ch : RemoteColumnChange) (changes : List RemoteColumnChange) :
    writesTo c (ch :: changes) =
      if ch.columnName = c then (ch.hlcTimestamp, jsonToRusqliteValue ch.decryptedValue) :: writesTo c changes
      else writesTo c changes := by
  by_cases h : ch.columnName = c <;> simp [writesTo, h]

theorem mem_writesTo {c : String} {changes : List RemoteColumnChange} {w : String × SqlValue} :
    w ∈ writesTo c changes ↔ ∃ ch ∈ changes, ch.columnName = c ∧ ch.hlcTimestamp = w.1 ∧
      jsonToRusqliteValue ch.decryptedValue = w.2 := by
  simp only [writesTo, List.mem_map, List.mem_filter, decide_eq_true_eq]
  constructor
  · rintro ⟨ch, ⟨hm, hc⟩, rfl⟩; exact ⟨ch, hm, hc, rfl, rfl⟩
  · rintro ⟨ch, hm, hc, h1, h2⟩; exact ⟨ch, ⟨hm, hc⟩, Prod.ext h1 h2⟩

variable {ex : List String} {c : String}

theorem newer_iff (m : ColumnHlcs) (h col : String) :
    hlcIsNewer h ((m.lookup col).getD "") = true ↔ clockKey (m.lookup col) < clockKey (some h) := hlcIsNewer_iff

def KnownIn (ex : List String) (c : String) (changes : List RemoteColumnChange) : Prop :=
  ∀ ch ∈ changes, ch.columnName = c → c ∈ ex

theorem KnownIn.tail {ch : RemoteColumnChange} {changes : List RemoteColumnChange}
    (h : KnownIn ex c (ch :: changes)) : KnownIn ex c changes := fun ch' hch' => h ch' (by simp [hch'])

theorem knownIn_of_mem (hc : c ∈ ex) (changes : List RemoteColumnChange) : KnownIn ex c changes := fun _ _ _ => hc

theorem foldl_stepChange_lookup (v : SqlValue) (changes : List RemoteColumnChange) (hc : KnownIn ex c changes)
    (acc : RowAcc) :
    (changes.foldl (stepChange ex) acc).columnHlcs.lookup c =
      ((writesTo c changes).foldl (write clockKey) (acc.columnHlcs.lookup c, v)).1 := by
  induction changes generalizing acc v with
  | nil => rfl
  | cons ch changes ih =>
    rw [List.foldl_cons, writesTo_cons]
    by_cases hch : ch.columnName = c
    · have hx : ch.columnName ∈ ex := hch ▸ hc ch (by simp) hch
      subst hch
      simp only [if_true, List.foldl_cons, write, ← newer_iff]
      split
      · rename_i hn
        rw [ih (jsonToRusqliteValue ch.decryptedValue) hc.tail]
        simp only [stepChange, hx, not_true_eq_false, if_false, hn, if_true, AList.lookup_insert]
      · rename_i hn
        rw [ih v hc.tail]
        simp only [stepChange, hx, not_true_eq_false, if_false, hn]
        rfl
    · have hne : c ≠ ch.columnName := fun e => hch e.symm
      rw [if_neg hch, ih v hc.tail]
      congr 2
      unfold stepChange
      split
      · simp [AList.lookup_insert_ne hne]
      · split
        · simp [AList.lookup_insert_ne hne]
        · rfl

theorem foldl_stepChange_changed (v : SqlValue) (changes : List RemoteColumnChange) (hc : KnownIn ex c changes)
    (acc : RowAcc) :
    ((changes.foldl (stepChange ex) acc).changed.filter fun p => p.1 = c) =
      (acc.changed.filter fun p => p.1 = c) ++
        (accepted clockKey (acc.columnHlcs.lookup c, v) (writesTo c changes)).map fun w => (c, w.2) := by
  induction changes generalizing acc v with
  | nil => simp [writesTo, accepted]
  | cons ch changes ih =>
    rw [List.foldl_cons, writesTo_cons]
    by_cases hch : ch.columnName = c
    · have hx : ch.columnName ∈ ex := hch ▸ hc ch (by simp) hch
      subst hch
      simp only [if_true, accepted, ← newer_iff]
      split
      · rename_i hn
        rw [ih (jsonToRusqliteValue ch.decryptedValue) hc.tail]
        simp [stepChange, hx, hn, RowAcc.changed]
      · rename_i hn
        rw [ih v hc.tail]
        simp [stepChange, hx, hn]
    · have hne : c ≠ ch.columnName := fun e => hch e.symm
      rw [if_neg hch, ih v hc.tail]
      unfold stepChange
      split
      · simp [AList.lookup_insert_ne hne, RowAcc.changed]
      · split
        · simp [AList.lookup_insert_ne hne, RowAcc.changed, hch]
        · rfl

theorem collect_lookup (v : SqlValue) (stored : ColumnHlcs) {changes : List RemoteColumnChange}
    (hc : KnownIn ex c changes) :
    (collectChanges ex stored changes).columnHlcs.lookup c =
      ((writesTo c changes).foldl (write clockKey) (stored.lookup c, v)).1 :=
  foldl_stepChange_lookup v changes hc _

theorem collect_changed (v : SqlValue) (stored : ColumnHlcs) {changes : List RemoteColumnChange}
    (hc : KnownIn ex c changes) :
    ((collectChanges ex stored changes).changed.filter fun p => p.1 = c) =
      (accepted clockKey (stored.lookup c, v) (writesTo c changes)).map fun w => (c, w.2) :=
  foldl_stepChange_changed v changes hc _

theorem foldl_stepChange_known (changes : List RemoteColumnChange) (acc : RowAcc) :
    ∀ u ∈ (changes.foldl (stepChange ex) acc).columnsToUpdate, u ∈ acc.columnsToUpdate ∨
      ∃ ch ∈ changes, u = (ch.columnName, ch.decryptedValue, ch.hlcTimestamp) ∧ ch.columnName ∈ ex := by
  induction changes generalizing acc with
  | nil => intro u hu; exact .inl hu
  | cons ch changes ih =>
    intro u hu
    rw [List.foldl_cons] at hu
    rcases ih _ u hu with h | ⟨ch', hm, he, hx⟩
    · unfold stepChange at h
      split at h
      · exact .inl h
      · rename_i hx
        split at h
        · rcases List.mem_append.1 h with h | h
          · exact .inl h
          · exact .inr ⟨ch, by simp, List.mem_singleton.1 h, not_not.1 hx⟩
        · exact .inl h
    · exact .inr ⟨ch', by simp [hm], he, hx⟩

theorem collect_known (stored : ColumnHlcs) (changes : List RemoteColumnChange) :
    ∀ u ∈ (collectChanges ex stored changes).columnsToUpdate,
      ∃ ch ∈ changes, u = (ch.columnName, ch.decryptedValue, ch.hlcTimestamp) ∧ ch.columnName ∈ ex := by
  intro u hu
  rcases foldl_stepChange_known changes _ u hu with h | h
  · cases h
  · exact h

/-! ## Cells -/

def rowClock (r : Row) (c : String) : Option String :=
  match r columnHlcsColumn with
  | .hlcs m => m.lookup c
  | _ => none

/-- A cell as a register: its clock and its value. The cells of a row that is
not there have no clock and read the default an `INSERT` would give them. -/
def Table.cellOf (t : Table) (r : Option Row) (c : String) : Option String × SqlValue :=
  match r with
  | some r => (rowClock r c, r c)
  | none => (none, t.dflt c)

def Table.cell (t : Table) (k : List SqlValue) (c : String) : Option String × SqlValue := t.cellOf (t.find k) c

structure CrdtTable (t : Table) : Prop where
  hlcs_mem : columnHlcsColumn ∈ t.columnNames
  pk_hlcs : columnHlcsColumn ∉ t.pkNames
  pk_hlc : hlcTimestampColumn ∉ t.pkNames

structure DataName (t : Table) (c : String) : Prop where
  pk : c ∉ t.pkNames
  hlc : c ≠ hlcTimestampColumn
  hlcs : c ≠ columnHlcsColumn

/-- `row_pks` is a JSON object with a value for every key column. -/
def Addresses (env : Env) (t : Table) (pks : String) : Prop :=
  ∃ m, env.fromStr pks = some m ∧ ∀ c ∈ t.pkNames, (m.lookup c).isSome

/-- The row a `row_pks` text names. -/
def keyOf (env : Env) (t : Table) (pks : String) : List SqlValue := pkKey t ((env.fromStr pks).getD [])

theorem currentHlcs_lookup {r : Option Row} {stored : ColumnHlcs} (h : currentHlcs r = .ok stored) (t : Table)
    (c : String) : stored.lookup c = (t.cellOf r c).1 := by
  cases r with
  | none => cases h; rfl
  | some r =>
    simp only [currentHlcs] at h
    simp only [Table.cellOf, rowClock]
    split at h <;> first | cases h; rename_i e; simp [e] | cases h

/-! ## The statement for one row -/

def rowOutcome (t : Table) (rowPks : RowPks) (old : Option Row) (acc : RowAcc) : Option Row :=
  if acc.columnsToUpdate = [] then old
  else some (match old with
    | some r => assign r (acc.changed ++ acc.metadata)
    | none => t.freshRow (insertPairs t rowPks acc))

theorem lookup_zip_map (names : List String) (f : String → SqlValue) {c : String} (hc : c ∈ names) :
    (names.zip (names.map f)).lookup c = some (f c) := by
  induction names with
  | nil => cases hc
  | cons n ns ih =>
    simp only [List.map_cons, List.zip_cons_cons, List.lookup_cons]
    by_cases hn : c = n
    · simp [hn]
    · have : (c == n) = false := by simpa using hn
      rw [this]
      exact ih (by simpa [hn] using hc)

theorem lookup_zip_none (names : List String) (vs : List SqlValue) {c : String} (hc : c ∉ names) :
    (names.zip vs).lookup c = none := by
  rw [List.lookup_eq_none_iff]
  rintro ⟨n, v⟩ hm
  have : c ≠ n := fun e => hc (e ▸ (List.of_mem_zip hm).1)
  simpa using this

theorem filterMap_lookup (names : List String) (m : RowPks) (h : ∀ c ∈ names, (m.lookup c).isSome) :
    (names.filterMap fun c => m.lookup c).map jsonToRusqliteValue =
      names.map fun c => ((m.lookup c).map jsonToRusqliteValue).getD .null := by
  induction names with
  | nil => rfl
  | cons n ns ih =>
    obtain ⟨v, hv⟩ := Option.isSome_iff_exists.1 (h n (by simp))
    simp [hv, ih fun c hc => h c (by simp [hc])]

theorem rowKey_fresh {t : Table} {m : RowPks} (acc : RowAcc) (h : ∀ c ∈ t.pkNames, (m.lookup c).isSome) :
    t.rowKey (t.freshRow (insertPairs t m acc)) = pkKey t m := by
  refine List.map_congr_left fun c hc => ?_
  simp only [Table.freshRow, insertPairs, filterMap_lookup _ _ h, List.append_assoc]
  rw [List.lookup_append, lookup_zip_map _ _ hc]
  rfl

theorem fresh_apply {t : Table} {m : RowPks} {acc : RowAcc} {c : String} (hc : c ∉ t.pkNames) :
    t.freshRow (insertPairs t m acc) c = ((acc.changed ++ acc.metadata).lookup c).getD (t.dflt c) := by
  simp only [Table.freshRow, insertPairs, List.append_assoc]
  rw [List.lookup_append, lookup_zip_none _ _ hc]
  rfl

theorem insert_no_conflict {t : Table} {pairs : List (String × SqlValue)} {cols : List String} (hu : t.uniques = [])
    (hnew : t.find (t.rowKey (t.freshRow pairs)) = none) : t.insert pairs ≠ .error (.unique cols) := by
  intro h
  unfold Table.insert at h
  dsimp only at h
  split at h
  · rename_i v hv
    injection h with hv'
    subst hv'
    unfold Table.violation at hv
    split at hv
    · cases hv
    · split at hv
      · rw [hu, Option.map_eq_some_iff] at hv
        obtain ⟨cs, hcs, -⟩ := hv
        have hmem := List.mem_singleton.1 (List.mem_of_find?_eq_some hcs)
        subst hmem
        have hany := List.find?_some hcs
        obtain ⟨o, ho, hcol⟩ := List.any_eq_true.1 hany
        simp only [collides, Bool.and_eq_true, List.all_eq_true, decide_eq_true_eq] at hcol
        refine Keyed.get_eq_none.1 hnew o ho ?_
        exact List.map_congr_left fun c hc => (hcol.2 c hc).2.symm
      · cases hv
  · cases h

/-- What a turn of the apply loop writes for the row with key `k`. -/
inductive Wrote (t : Table) (k : List SqlValue) (m : RowPks) (acc : RowAcc) : Table → Prop
  | nothing : acc.columnsToUpdate = [] → Wrote t k m acc t
  | update {t' : Table} : acc.columnsToUpdate ≠ [] → (t.find k).isSome →
      t.update k (acc.changed ++ acc.metadata) = .ok t' → Wrote t k m acc t'
  | insert {t' : Table} : acc.columnsToUpdate ≠ [] → t.find k = none →
      t.insert (insertPairs t m acc) = .ok t' → Wrote t k m acc t'
  | conflict {cols : List String} : acc.columnsToUpdate ≠ [] → t.find k = none →
      t.insert (insertPairs t m acc) = .error (.unique cols) → Wrote t k m acc t

/-- A successful turn of the apply loop on a table that has the CRDT columns. -/
theorem applyRow_inv {env : Env} {db db' : Database} {name pks : String} {cs : List RemoteColumnChange} {t : Table}
    (ht : db.tables name = some t) (hc : columnHlcsColumn ∈ t.columnNames)
    (h : applyRow env db ((name, pks), cs) = .ok db') :
    ∃ m stored t', env.fromStr pks = some m ∧ currentHlcs (t.find (pkKey t m)) = .ok stored ∧ t.pkNames ≠ [] ∧
      db'.tables = Function.update db.tables name (some t') ∧ db'.triggersEnabled = db.triggersEnabled ∧
      Wrote t (pkKey t m) m (collectChanges t.columnNames stored cs) t' := by
  have hself : Function.update db.tables name (some t) = db.tables := by rw [← ht, Function.update_eq_self]
  cases hm : env.fromStr pks with
  | none =>
    simp only [applyRow, ht, hc, if_true, Bool.not_true, Bool.false_eq_true, if_false, hm] at h
    cases h
  | some m =>
  simp only [applyRow, ht, hc, if_true, Bool.not_true, Bool.false_eq_true, if_false, hm] at h
  by_cases hpk : t.pkNames = []
  · rw [if_pos hpk] at h; cases h
  rw [if_neg hpk] at h
  cases hs : currentHlcs (t.find (pkKey t m)) with
  | error e => rw [hs] at h; cases h
  | ok stored =>
  rw [hs] at h
  replace h : (if (collectChanges t.columnNames stored cs).columnsToUpdate = [] then
      Except.ok (addPending (db.setTable name t) name (collectChanges t.columnNames stored cs).pending)
    else writeRow (addPending (db.setTable name t) name (collectChanges t.columnNames stored cs).pending) name t
      (pkKey t m) m (t.find (pkKey t m)).isSome (collectChanges t.columnNames stored cs) cs) = .ok db' := h
  generalize hacc : collectChanges t.columnNames stored cs = acc at h
  by_cases hnil : acc.columnsToUpdate = []
  · rw [if_pos hnil] at h
    cases h
    exact ⟨m, stored, t, rfl, hs, hpk, by simp [addPending, Database.setTable], rfl, hacc ▸ .nothing hnil⟩
  rw [if_neg hnil] at h
  by_cases hrow : (t.find (pkKey t m)).isSome
  · simp only [writeRow, hrow, if_true] at h
    split at h
    · rename_i t' hup
      cases h
      exact ⟨m, stored, t', rfl, hs, hpk, by simp [addPending, Database.setTable, hself], rfl, hacc ▸ .update hnil hrow hup⟩
    · cases h
  · have hnone : t.find (pkKey t m) = none := by simpa using hrow
    simp only [writeRow, hrow, Bool.false_eq_true, if_false] at h
    split at h
    · rename_i t' hin
      cases h
      exact ⟨m, stored, t', rfl, hs, hpk, by simp [addPending, Database.setTable, hself], rfl, hacc ▸ .insert hnil hnone hin⟩
    · cases h
    · rename_i cols hin
      cases h
      exact ⟨m, stored, t, rfl, hs, hpk, by simp [addPending, Database.setTable], rfl, hacc ▸ .conflict hnil hnone hin⟩
    · cases h

theorem Wrote.rows {t t' : Table} {k : List SqlValue} {m : RowPks} {acc : RowAcc} (h : Wrote t k m acc t') :
    t' = { t with rows := t'.rows } := by
  cases h with
  | nothing => rfl
  | conflict => rfl
  | update _ _ h => rw [Table.update_eq h]
  | insert _ _ h => rw [Table.insert_eq h]

theorem writeRow_other {db db' : Database} {name : String} {t : Table} {k : List SqlValue} {m : RowPks} {rowExists : Bool}
    {acc : RowAcc} {cs : List RemoteColumnChange} (h : writeRow db name t k m rowExists acc cs = .ok db') :
    ∃ t', db'.tables = Function.update db.tables name t' := by
  unfold writeRow at h
  split at h
  · split at h
    · cases h; exact ⟨_, rfl⟩
    · cases h
  · split at h
    · cases h; exact ⟨_, rfl⟩
    · cases h
    · cases h; exact ⟨db.tables name, (Function.update_eq_self _ _).symm⟩
    · cases h

theorem applyRow_other {env : Env} {db db' : Database} {group : (String × String) × List RemoteColumnChange}
    (h : applyRow env db group = .ok db') : ∃ t', db'.tables = Function.update db.tables group.1.1 t' := by
  unfold applyRow at h
  dsimp only at h
  split at h
  · cases h; exact ⟨db.tables group.1.1, (Function.update_eq_self _ _).symm⟩
  · rename_i t₀ _
    generalize (if columnHlcsColumn ∈ t₀.columnNames then (t₀, true) else ensureCrdtColumnsAndTriggers t₀) = upgraded at h
    split at h
    · cases h; exact ⟨_, rfl⟩
    · split at h
      · cases h
      · split at h
        · cases h
        · obtain ⟨stored, -, h⟩ := bind_eq_ok.1 h
          split at h
          · cases h; exact ⟨_, rfl⟩
          · obtain ⟨t', ht'⟩ := writeRow_other h
            exact ⟨t', by rw [ht']; simp [addPending, Database.setTable]⟩

theorem collect_sets {t : Table} (hc : CrdtTable t) {cs : List RemoteColumnChange}
    (hd : ∀ ch ∈ cs, DataName t ch.columnName) (stored : ColumnHlcs) :
    ∀ p ∈ (collectChanges t.columnNames stored cs).changed ++ (collectChanges t.columnNames stored cs).metadata,
      p.1 ∉ t.pkNames := by
  intro p hp
  rcases List.mem_append.1 hp with hp | hp
  · obtain ⟨u, hu, rfl⟩ := List.mem_map.1 hp
    obtain ⟨ch, hch, rfl, -⟩ := collect_known stored cs u hu
    exact (hd ch hch).pk
  · simp only [RowAcc.metadata, List.mem_cons, List.not_mem_nil, or_false] at hp
    rcases hp with rfl | rfl
    · exact hc.pk_hlcs
    · exact hc.pk_hlc

theorem Wrote.find {t t' : Table} {m : RowPks} {stored : ColumnHlcs} {cs : List RemoteColumnChange} (hc : CrdtTable t)
    (hd : ∀ ch ∈ cs, DataName t ch.columnName) (hall : ∀ c ∈ t.pkNames, (m.lookup c).isSome)
    (h : Wrote t (pkKey t m) m (collectChanges t.columnNames stored cs) t') :
    t' = { t with rows := t'.rows } ∧
    ((∀ k, t'.find k = if k = pkKey t m then
        rowOutcome t m (t.find k) (collectChanges t.columnNames stored cs) else t.find k) ∨
      t' = t ∧ t.uniques ≠ []) := by
  have hsets := collect_sets hc hd stored
  have hkey := rowKey_fresh (collectChanges t.columnNames stored cs) hall
  generalize collectChanges t.columnNames stored cs = acc at h hsets hkey
  cases h with
  | nothing hnil => exact ⟨rfl, .inl fun k => by simp [rowOutcome, hnil]⟩
  | update hne hrow hup =>
    refine ⟨by rw [Table.update_eq hup], .inl fun k => ?_⟩
    obtain ⟨r, hr⟩ := Option.isSome_iff_exists.1 hrow
    rw [Table.find_update hsets hup]
    by_cases hk : k = pkKey t m
    · subst hk; simp [hr, rowOutcome, hne]
    · simp [hk]
  | insert hne hrow hin =>
    refine ⟨by rw [Table.insert_eq hin], .inl fun k => ?_⟩
    rw [Table.find_insert (by rw [hkey]; exact hrow) hin, hkey]
    by_cases hk : k = pkKey t m
    · subst hk; simp [hrow, rowOutcome, hne]
    · simp [hk]
  | conflict hne hrow hin =>
    refine ⟨rfl, .inr ⟨rfl, fun hu => ?_⟩⟩
    exact insert_no_conflict hu (by rw [hkey]; exact hrow) hin

/-- A successful turn of the apply loop on a table without further `UNIQUE`
constraints: the named row becomes its outcome, and nothing else changes. -/
theorem applyRow_ok {env : Env} {db db' : Database} {name pks : String} {cs : List RemoteColumnChange} {t : Table}
    (ht : db.tables name = some t) (hc : CrdtTable t) (hu : t.uniques = [])
    (hd : ∀ ch ∈ cs, DataName t ch.columnName) (ha : Addresses env t pks)
    (h : applyRow env db ((name, pks), cs) = .ok db') :
    ∃ m stored t', env.fromStr pks = some m ∧ currentHlcs (t.find (keyOf env t pks)) = .ok stored ∧
      db'.tables = Function.update db.tables name (some t') ∧ t' = { t with rows := t'.rows } ∧
      ∀ k, t'.find k = if k = keyOf env t pks then
        rowOutcome t m (t.find k) (collectChanges t.columnNames stored cs) else t.find k := by
  obtain ⟨m, stored, t', hm, hs, -, hdb, -, hw⟩ := applyRow_inv ht hc.hlcs_mem h
  obtain ⟨m', hm', hall⟩ := ha
  rw [hm, Option.some_inj] at hm'
  subst hm'
  have hk : keyOf env t pks = pkKey t m := by simp [keyOf, hm]
  obtain ⟨hrows, hf | ⟨-, hne⟩⟩ := hw.find hc hd hall
  · exact ⟨m, stored, t', hm, by rw [hk]; exact hs, hdb, hrows, by rw [hk]; exact hf⟩
  · exact absurd hu hne

/-! ## The cells of the outcome -/

section Outcome
variable {t : Table} {m : RowPks} {old : Option Row} {stored : ColumnHlcs} {cs : List RemoteColumnChange}

theorem assign_metadata (r : Row) (acc : RowAcc) :
    assign r acc.metadata = Function.update (Function.update r columnHlcsColumn (.hlcs acc.columnHlcs))
      hlcTimestampColumn (.text acc.maxHlcForRow) := rfl

theorem changed_names (hd : ∀ ch ∈ cs, DataName t ch.columnName) (stored : ColumnHlcs) :
    ∀ p ∈ (collectChanges t.columnNames stored cs).changed, DataName t p.1 := by
  intro p hp
  obtain ⟨u, hu, rfl⟩ := List.mem_map.1 hp
  obtain ⟨ch, hch, rfl, -⟩ := collect_known stored cs u hu
  exact hd ch hch

theorem outcome_metadata (hc : CrdtTable t) (hd : ∀ ch ∈ cs, DataName t ch.columnName)
    {r : Row} (hne : (collectChanges t.columnNames stored cs).columnsToUpdate ≠ [])
    (h : rowOutcome t m old (collectChanges t.columnNames stored cs) = some r) :
    r columnHlcsColumn = .hlcs (collectChanges t.columnNames stored cs).columnHlcs ∧
      r hlcTimestampColumn = .text (collectChanges t.columnNames stored cs).maxHlcForRow := by
  have hnames := changed_names hd stored
  generalize collectChanges t.columnNames stored cs = acc at *
  unfold rowOutcome at h
  rw [if_neg hne, Option.some_inj] at h
  subst h
  cases old with
  | some r =>
    simp only [assign_append, assign_metadata]
    refine ⟨?_, Function.update_self _ _ _⟩
    rw [Function.update_of_ne (by decide), Function.update_self]
  | none =>
    have hskip : ∀ x, (∀ p ∈ acc.changed, p.1 ≠ x) → acc.changed.lookup x = none := by
      intro x hx
      rw [List.lookup_eq_none_iff]
      intro p hp
      simpa using Ne.symm (hx p hp)
    simp only [fresh_apply hc.pk_hlcs, fresh_apply hc.pk_hlc, List.lookup_append]
    rw [hskip _ fun p hp => (hnames p hp).hlcs, hskip _ fun p hp => (hnames p hp).hlc]
    constructor <;> rfl

/-- Which of several values for one column a statement keeps: `UPDATE` the last,
`INSERT` the first. -/
def keptValue (old : Option Row) (vs : List SqlValue) : Option SqlValue :=
  match old with
  | some _ => vs.getLast?
  | none => vs.head?

theorem outcome_value {c : String} (hc : DataName t c) {r : Row}
    {acc : RowAcc} (hne : acc.columnsToUpdate ≠ []) (h : rowOutcome t m old acc = some r) :
    r c = (keptValue old ((acc.changed.filter fun p => p.1 = c).map (·.2))).getD (t.cellOf old c).2 := by
  unfold rowOutcome at h
  rw [if_neg hne, Option.some_inj] at h
  subst h
  cases old with
  | some r =>
    simp only [assign_append, assign_metadata, Table.cellOf, keptValue, List.getLast?_map]
    rw [Function.update_of_ne hc.hlc, Function.update_of_ne hc.hlcs, assign_eq_last]
  | none =>
    simp only [fresh_apply hc.pk, List.lookup_append, Table.cellOf, keptValue, List.head?_map]
    have : acc.metadata.lookup c = none := by
      rw [List.lookup_eq_none_iff]
      intro p hp
      simp only [RowAcc.metadata, List.mem_cons, List.not_mem_nil, or_false] at hp
      rcases hp with rfl | rfl
      · simpa using hc.hlcs
      · simpa using hc.hlc
    rw [this, lookup_eq_head]
    simp

theorem accepted_nil_of_none (hcol : (collectChanges t.columnNames stored cs).columnsToUpdate = [])
    {c : String} (hc : KnownIn t.columnNames c cs) (v : SqlValue) :
    accepted clockKey (stored.lookup c, v) (writesTo c cs) = [] := by
  have := collect_changed v stored hc
  simpa [RowAcc.changed, hcol] using this.symm

theorem columnsToUpdate_eq_nil (t : Table) (stored : ColumnHlcs) (cs : List RemoteColumnChange) :
    (collectChanges t.columnNames stored cs).columnsToUpdate = [] ↔
      ∀ ch ∈ cs, ch.columnName ∈ t.columnNames → hlcKey ch.hlcTimestamp ≤ clockKey (stored.lookup ch.columnName) := by
  constructor
  · intro h ch hch hx
    have := (accepted_eq_nil clockKey _ _).1 (accepted_nil_of_none h (knownIn_of_mem hx cs) .null)
    exact this (ch.hlcTimestamp, _) (mem_writesTo.2 ⟨ch, hch, rfl, rfl, rfl⟩)
  · intro h
    by_contra hne
    obtain ⟨u, hu⟩ := List.exists_mem_of_ne_nil _ hne
    obtain ⟨ch, hch, rfl, hx⟩ := collect_known stored cs u hu
    have hnil : accepted clockKey (stored.lookup ch.columnName, SqlValue.null) (writesTo ch.columnName cs) = [] := by
      rw [accepted_eq_nil]
      intro w hw
      obtain ⟨ch', hch', hcol, hh, -⟩ := mem_writesTo.1 hw
      have := h ch' hch' (hcol ▸ hx)
      rwa [hcol, hh] at this
    have hfil := collect_changed SqlValue.null stored (knownIn_of_mem hx cs)
    rw [hnil, List.map_nil, List.filter_eq_nil_iff] at hfil
    exact hfil _ (List.mem_map.2 ⟨_, hu, rfl⟩) (by simp)

theorem outcome_isSome (hst : ∀ c, stored.lookup c = (t.cellOf old c).1) :
    (rowOutcome t m old (collectChanges t.columnNames stored cs)).isSome ↔
      old.isSome ∨ ∃ ch ∈ cs, ch.columnName ∈ t.columnNames ∧ hlcKey "" < hlcKey ch.hlcTimestamp := by
  have hnil := columnsToUpdate_eq_nil t stored cs
  unfold rowOutcome
  cases old with
  | some r => split <;> simp
  | none =>
    simp only [hst, Table.cellOf, clockKey_none] at hnil
    split
    · rename_i h
      have := hnil.1 h
      simp only [Option.isSome_none, Bool.false_eq_true, false_or, false_iff, not_exists, not_and, not_lt]
      exact this
    · rename_i h
      rw [hnil] at h
      push Not at h
      simpa using h

theorem outcome_clock (hc : CrdtTable t) (hd : ∀ ch ∈ cs, DataName t ch.columnName)
    (hst : ∀ c, stored.lookup c = (t.cellOf old c).1) {c : String} (hx : KnownIn t.columnNames c cs) :
    (t.cellOf (rowOutcome t m old (collectChanges t.columnNames stored cs)) c).1 =
      ((writesTo c cs).foldl (write clockKey) (t.cellOf old c)).1 := by
  have hcell : (stored.lookup c, (t.cellOf old c).2) = t.cellOf old c := by rw [hst]
  by_cases hnil : (collectChanges t.columnNames stored cs).columnsToUpdate = []
  · have hacc := accepted_nil_of_none hnil hx (t.cellOf old c).2
    rw [hcell] at hacc
    have hsame : rowOutcome t m old (collectChanges t.columnNames stored cs) = old := by simp [rowOutcome, hnil]
    rw [foldl_write_eq_last, hacc, hsame]
    rfl
  · obtain ⟨r, hr⟩ : ∃ r, rowOutcome t m old (collectChanges t.columnNames stored cs) = some r := by
      simp [rowOutcome, hnil]
    have hlook := collect_lookup (t.cellOf old c).2 stored hx
    rw [hcell] at hlook
    rw [hr]
    simp only [Table.cellOf, rowClock, (outcome_metadata hc hd hnil hr).1]
    exact hlook

theorem outcome_kept (hst : ∀ c, stored.lookup c = (t.cellOf old c).1) {c : String}
    (hx : KnownIn t.columnNames c cs) (hcd : DataName t c) :
    (t.cellOf (rowOutcome t m old (collectChanges t.columnNames stored cs)) c).2 =
      (keptValue old ((accepted clockKey (t.cellOf old c) (writesTo c cs)).map (·.2))).getD (t.cellOf old c).2 := by
  have hcell : (stored.lookup c, (t.cellOf old c).2) = t.cellOf old c := by rw [hst]
  by_cases hnil : (collectChanges t.columnNames stored cs).columnsToUpdate = []
  · have hacc := accepted_nil_of_none hnil hx (t.cellOf old c).2
    rw [hcell] at hacc
    have hsame : rowOutcome t m old (collectChanges t.columnNames stored cs) = old := by simp [rowOutcome, hnil]
    rw [hacc, hsame]
    cases old <;> rfl
  · obtain ⟨r, hr⟩ : ∃ r, rowOutcome t m old (collectChanges t.columnNames stored cs) = some r := by
      simp [rowOutcome, hnil]
    have hchg := collect_changed (t.cellOf old c).2 stored hx
    rw [hcell] at hchg
    have hval := outcome_value hcd hnil hr
    rw [hchg, List.map_map] at hval
    rw [hr]
    exact hval

theorem outcome_cell_present (hc : CrdtTable t) (hd : ∀ ch ∈ cs, DataName t ch.columnName)
    (hst : ∀ c, stored.lookup c = (t.cellOf old c).1) {c : String} (hx : KnownIn t.columnNames c cs)
    (hcd : DataName t c) (hp : old.isSome) :
    t.cellOf (rowOutcome t m old (collectChanges t.columnNames stored cs)) c =
      (writesTo c cs).foldl (write clockKey) (t.cellOf old c) := by
  obtain ⟨r, rfl⟩ := Option.isSome_iff_exists.1 hp
  refine Prod.ext (outcome_clock hc hd hst hx) ?_
  rw [outcome_kept hst hx hcd, foldl_write_eq_last]
  simp only [keptValue, List.getLast?_map]
  cases (accepted clockKey (t.cellOf (some r) c) (writesTo c cs)).getLast? <;> rfl

def FirstIsLast (ws : List (String × SqlValue)) : Prop :=
  ((accepted clockKey (none, SqlValue.null) ws).map (·.2)).head? =
    ((accepted clockKey (none, SqlValue.null) ws).map (·.2)).getLast?

theorem outcome_cell_of_firstIsLast (hc : CrdtTable t) (hd : ∀ ch ∈ cs, DataName t ch.columnName)
    (hst : ∀ c, stored.lookup c = (t.cellOf old c).1) {c : String} (hx : KnownIn t.columnNames c cs)
    (hcd : DataName t c) (hf : old = none → FirstIsLast (writesTo c cs)) :
    t.cellOf (rowOutcome t m old (collectChanges t.columnNames stored cs)) c =
      (writesTo c cs).foldl (write clockKey) (t.cellOf old c) := by
  cases old with
  | some r => exact outcome_cell_present hc hd hst hx hcd rfl
  | none =>
    refine Prod.ext (outcome_clock hc hd hst hx) ?_
    have hf := hf rfl
    unfold FirstIsLast at hf
    rw [accepted_value clockKey none SqlValue.null (t.dflt c)] at hf
    rw [outcome_kept hst hx hcd, foldl_write_eq_last]
    simp only [keptValue, Table.cellOf, hf, List.getLast?_map]
    cases (accepted clockKey (none, t.dflt c) (writesTo c cs)).getLast? <;> rfl

end Outcome

end HaexVault.Crdt
