import HaexVault.Crdt.Apply
import HaexVault.Lib.Steps
/-!
# What applying a batch does

A batch is sorted, cut into rows and applied row by row. `applyRows_ok` follows
one row through the whole batch: it is a fold of `stepRow` over the groups that
name it, and rows and tables without a group stay. `apply_ok` is the same for a
whole successful call without delete-log entries.
-/

namespace HaexVault.Crdt

open HaexVault.Lib HaexVault.Lib.Lww HaexVault.Lib.Steps

/-! ## Grouping loses and adds nothing -/

theorem mem_hashGroups {α κ : Type} [DecidableEq κ] {key : α → κ} {l : List α} {g : κ × List α} :
    g ∈ hashGroups key l ↔ g.1 ∈ l.map key ∧ g.2 = l.filter fun x => key x = g.1 := by
  simp only [hashGroups, List.mem_map, List.mem_dedup]
  constructor
  · rintro ⟨k, hk, rfl⟩; exact ⟨hk, rfl⟩
  · rintro ⟨hk, hg⟩; exact ⟨g.1, hk, by rw [← hg]⟩

theorem mem_groupByTransactionHlc {hash : Hashing} {changes : List RemoteColumnChange}
    {g : String × List RemoteColumnChange} :
    g ∈ groupByTransactionHlc hash changes ↔ g ∈ hashGroups (·.hlcTimestamp) changes := by
  simp only [groupByTransactionHlc, List.mem_insertionSort]
  exact (hash.groups.perm _).mem_iff

variable {ch : RemoteColumnChange}

theorem mem_orderedChanges {hash : Hashing} {changes : List RemoteColumnChange} :
    ch ∈ orderedChanges hash changes ↔ ch ∈ changes := by
  simp only [orderedChanges, List.mem_flatMap, mem_groupByTransactionHlc, mem_hashGroups]
  constructor
  · rintro ⟨g, ⟨-, hg⟩, hch⟩
    rw [hg] at hch
    exact (List.mem_filter.1 hch).1
  · intro hch
    refine ⟨(ch.hlcTimestamp, changes.filter fun x => x.hlcTimestamp = ch.hlcTimestamp), ⟨?_, rfl⟩, ?_⟩
    · exact List.mem_map.2 ⟨ch, hch, rfl⟩
    · exact List.mem_filter.2 ⟨hch, by simp⟩

theorem orderedChanges_sorted (hash : Hashing) (changes : List RemoteColumnChange) :
    (orderedChanges hash changes).Pairwise fun a b => hlcKey a.hlcTimestamp ≤ hlcKey b.hlcTimestamp := by
  have hkey : ∀ g ∈ groupByTransactionHlc hash changes, ∀ ch ∈ g.2, ch.hlcTimestamp = g.1 := by
    intro g hg ch hch
    rw [mem_groupByTransactionHlc, mem_hashGroups] at hg
    rw [hg.2] at hch
    simpa using (List.mem_filter.1 hch).2
  rw [orderedChanges, List.pairwise_flatMap]
  constructor
  · intro g hg
    exact List.pairwise_of_forall_mem_list fun a ha b hb => by rw [hkey g hg a ha, hkey g hg b hb]
  · let le : String × List RemoteColumnChange → String × List RemoteColumnChange → Prop :=
      fun a b => compareHlcStrings a.1 b.1 ≠ .gt
    have htot : Std.Total le := ⟨fun a b => by
      simp only [le, compare_ne_gt_iff]; exact le_total _ _⟩
    have htr : IsTrans _ le := ⟨fun a b c => by
      simp only [le, compare_ne_gt_iff]; exact le_trans⟩
    have hs : (groupByTransactionHlc hash changes).Pairwise le := List.pairwise_insertionSort le _
    refine hs.imp_of_mem fun {a b} ha hb hab x hx y hy => ?_
    rw [hkey a ha x hx, hkey b hb y hy]
    exact compare_ne_gt_iff.1 hab

variable {g : (String × String) × List RemoteColumnChange}

theorem mem_groupRowChanges {hash : Hashing} {changes : List RemoteColumnChange} :
    g ∈ groupRowChangesInHlcOrder hash changes ↔ g.1 ∈ changes.map (fun c => (c.tableName, c.rowPks)) ∧
      g.2 = changes.filter fun c => (c.tableName, c.rowPks) = g.1 := by
  simp only [groupRowChangesInHlcOrder, List.mem_insertionSort]
  exact (hash.rows.perm _).mem_iff.trans mem_hashGroups

def batchGroups (hash : Hashing) (changes : List RemoteColumnChange) :
    List ((String × String) × List RemoteColumnChange) :=
  groupRowChangesInHlcOrder hash (orderedChanges hash changes)

theorem mem_batchGroup {hash : Hashing} {changes : List RemoteColumnChange} (hg : g ∈ batchGroups hash changes) :
    ch ∈ g.2 ↔ ch ∈ changes ∧ (ch.tableName, ch.rowPks) = g.1 := by
  rw [batchGroups, mem_groupRowChanges] at hg
  rw [hg.2, List.mem_filter, mem_orderedChanges, decide_eq_true_eq]

theorem batchGroup_ne_nil {hash : Hashing} {changes : List RemoteColumnChange} (hg : g ∈ batchGroups hash changes) :
    ∃ ch ∈ changes, (ch.tableName, ch.rowPks) = g.1 := by
  rw [batchGroups, mem_groupRowChanges] at hg
  obtain ⟨ch, hch, he⟩ := List.mem_map.1 hg.1
  exact ⟨ch, mem_orderedChanges.1 hch, he⟩

theorem exists_batchGroup (hash : Hashing) {changes : List RemoteColumnChange}
    (hch : ch ∈ changes) : ∃ g ∈ batchGroups hash changes, g.1 = (ch.tableName, ch.rowPks) ∧ ch ∈ g.2 := by
  have hm : ch ∈ orderedChanges hash changes := mem_orderedChanges.2 hch
  refine ⟨((ch.tableName, ch.rowPks), (orderedChanges hash changes).filter
    fun c => (c.tableName, c.rowPks) = (ch.tableName, ch.rowPks)), ?_, rfl, List.mem_filter.2 ⟨hm, by simp⟩⟩
  rw [batchGroups, mem_groupRowChanges]
  exact ⟨List.mem_map.2 ⟨ch, hm, rfl⟩, rfl⟩

theorem batchGroup_sorted {hash : Hashing} {changes : List RemoteColumnChange} (hg : g ∈ batchGroups hash changes) :
    g.2.Pairwise fun a b => hlcKey a.hlcTimestamp ≤ hlcKey b.hlcTimestamp := by
  rw [batchGroups, mem_groupRowChanges] at hg
  rw [hg.2]
  exact (orderedChanges_sorted hash changes).filter _

theorem batchGroups_nodup (hash : Hashing) (changes : List RemoteColumnChange) :
    (batchGroups hash changes).Pairwise fun g g' => g.1 ≠ g'.1 := by
  have hkeys : ((hashGroups (fun c => (c.tableName, c.rowPks)) (orderedChanges hash changes)).map (·.1)).Nodup := by
    rw [hashGroups, List.map_map]
    show (List.map id _).Nodup
    rw [List.map_id]
    exact List.nodup_dedup _
  have hperm : (batchGroups hash changes).Perm
      (hashGroups (fun c => (c.tableName, c.rowPks)) (orderedChanges hash changes)) :=
    (List.perm_insertionSort _ _).trans (hash.rows.perm _)
  have hnodup : ((batchGroups hash changes).map (·.1)).Nodup := (hperm.map _).nodup_iff.2 hkeys
  exact List.pairwise_map.1 hnodup

/-! ## Regular changes -/

structure PlainTable (t : Table) : Prop extends CrdtTable t where
  uniques : t.uniques = []

/-- A group of changes on data columns of one row of a plain table, or of a
table that does not exist here. -/
def RegularGroup (env : Env) (db : Database) (g : (String × String) × List RemoteColumnChange) : Prop :=
  ∀ t, db.tables g.1.1 = some t →
    PlainTable t ∧ Addresses env t g.1.2 ∧ ∀ ch ∈ g.2, DataName t ch.columnName

/-- The same for one change. -/
def Regular (env : Env) (db : Database) (ch : RemoteColumnChange) : Prop :=
  ∀ t, db.tables ch.tableName = some t →
    PlainTable t ∧ Addresses env t ch.rowPks ∧ DataName t ch.columnName

theorem Regular.data {env : Env} {db : Database} {name : String} {t : Table}
    (h : Regular env db ch) (ht : db.tables name = some t) (hn : ch.tableName = name) :
    CrdtTable t ∧ DataName t ch.columnName := by
  obtain ⟨hp, -, hd⟩ := h t (hn ▸ ht)
  exact ⟨hp.toCrdtTable, hd⟩

theorem regularGroup_of_batch {env : Env} {db : Database} {hash : Hashing} {changes : List RemoteColumnChange}
    (hreg : ∀ ch ∈ changes, Regular env db ch) (hg : g ∈ batchGroups hash changes) : RegularGroup env db g := by
  intro t ht
  obtain ⟨ch, hch, he⟩ := batchGroup_ne_nil hg
  rw [← he] at ht ⊢
  obtain ⟨hp, ha, -⟩ := hreg ch hch t ht
  refine ⟨hp, ha, fun ch' hch' => ?_⟩
  obtain ⟨hm, he'⟩ := (mem_batchGroup hg).1 hch'
  rw [← he] at he'
  have hname : ch'.tableName = ch.tableName := congrArg Prod.fst he'
  exact (hreg ch' hm t (hname ▸ ht)).2.2

/-! ## One row through a batch -/

/-- What a group does to the row it names. -/
def stepRow (env : Env) (t : Table) (r : Option Row) (g : (String × String) × List RemoteColumnChange) : Option Row :=
  match currentHlcs r with
  | .ok stored => rowOutcome t ((env.fromStr g.1.2).getD []) r (collectChanges t.columnNames stored g.2)
  | .error _ => r

def groupsOf (env : Env) (t : Table) (name : String) (k : List SqlValue)
    (groups : List ((String × String) × List RemoteColumnChange)) : List ((String × String) × List RemoteColumnChange) :=
  groups.filter fun g => g.1.1 = name ∧ keyOf env t g.1.2 = k

def Readable (r : Option Row) : Prop := ∃ stored, currentHlcs r = .ok stored

structure Batched (env : Env) (name : String) (groups : List ((String × String) × List RemoteColumnChange))
    (t t' : Table) : Prop where
  schema : t' = { t with rows := t'.rows }
  find : ∀ k, t'.find k = (groupsOf env t name k groups).foldl (stepRow env t) (t.find k)
  readable : ∀ k, groupsOf env t name k groups ≠ [] → Readable (t.find k)

theorem batched_nil (env : Env) (name : String) (t : Table) : Batched env name [] t t :=
  ⟨rfl, fun _ => rfl, fun _ h => absurd rfl h⟩

variable {groups : List ((String × String) × List RemoteColumnChange)}

theorem batched_other {env : Env} {name : String} {t t' : Table} (hne : g.1.1 ≠ name)
    (h : Batched env name groups t t') : Batched env name (g :: groups) t t' := by
  have he : ∀ k, groupsOf env t name k (g :: groups) = groupsOf env t name k groups := fun k => by
    simp [groupsOf, hne]
  exact ⟨h.schema, fun k => by rw [he]; exact h.find k, fun k hk => h.readable k (by rwa [he] at hk)⟩

theorem batched_cons {env : Env} {name : String} {t t₁ t' : Table} (hg : g.1.1 = name)
    (hs : t₁ = { t with rows := t₁.rows }) (hr : Readable (t.find (keyOf env t g.1.2)))
    (hf : ∀ k, t₁.find k = if k = keyOf env t g.1.2 then stepRow env t (t.find k) g else t.find k)
    (h : Batched env name groups t₁ t') : Batched env name (g :: groups) t t' := by
  obtain ⟨rows, rfl⟩ : ∃ rows, t₁ = { t with rows := rows } := ⟨t₁.rows, hs⟩
  refine ⟨h.schema, fun k => ?_, fun k hk => ?_⟩
  · have hfind := h.find k
    rw [hf k] at hfind
    by_cases hk : k = keyOf env t g.1.2
    · simp only [groupsOf, List.filter_cons, hg, hk, and_self, decide_true, if_true, List.foldl_cons]
      rw [if_pos hk, hk] at hfind
      exact hfind
    · have hk' : ¬ keyOf env t g.1.2 = k := fun e => hk e.symm
      rw [if_neg hk] at hfind
      simp only [groupsOf, List.filter_cons, hg, hk', and_false, decide_false, Bool.false_eq_true, if_false]
      exact hfind
  · by_cases hkk : k = keyOf env t g.1.2
    · rw [hkk]; exact hr
    · have hk' : ¬ keyOf env t g.1.2 = k := fun e => hkk e.symm
      have hne : groupsOf env t name k groups ≠ [] := by simpa [groupsOf, hk'] using hk
      have := h.readable k hne
      rwa [hf k, if_neg hkk] at this

theorem regularGroup_schema {env : Env} {db db₁ : Database} {name : String} {t t₁ : Table}
    (ht : db.tables name = some t) (hdb : db₁.tables = Function.update db.tables name (some t₁))
    (hs : t₁ = { t with rows := t₁.rows })
    (h : RegularGroup env db g) : RegularGroup env db₁ g := by
  intro t₂ ht₂
  rw [hdb] at ht₂
  by_cases hn : g.1.1 = name
  · rw [hn, Function.update_self, Option.some_inj] at ht₂
    subst ht₂
    obtain ⟨hp, ha, hd⟩ := h t (hn ▸ ht)
    rw [hs]
    exact ⟨⟨⟨hp.hlcs_mem, hp.pk_hlcs, hp.pk_hlc⟩, hp.uniques⟩, ha, fun ch hch => ⟨(hd ch hch).pk, (hd ch hch).hlc, (hd ch hch).hlcs⟩⟩
  · rw [Function.update_of_ne hn] at ht₂
    exact h t₂ ht₂

theorem applyRows_ok {env : Env} {db db' : Database}
    (hreg : ∀ g ∈ groups, RegularGroup env db g) (h : applyRows env db groups = .ok db') (name : String) :
    (db.tables name = none → db'.tables name = none) ∧
    ∀ t, db.tables name = some t → ∃ t', db'.tables name = some t' ∧ Batched env name groups t t' := by
  induction groups generalizing db with
  | nil =>
    cases h
    exact ⟨id, fun t ht => ⟨t, ht, batched_nil env name t⟩⟩
  | cons g groups ih =>
    simp only [applyRows, List.foldlM_cons] at h ih
    obtain ⟨db₁, h₁, h₂⟩ := bind_eq_ok.1 h
    cases hg : db.tables g.1.1 with
    | none =>
      -- The group names a table that is not here and is skipped.
      have : db₁ = db := by
        simp only [applyRow, hg] at h₁
        cases h₁; rfl
      subst this
      obtain ⟨hn, ht⟩ := ih (fun g' hg' => hreg g' (by simp [hg'])) h₂
      refine ⟨hn, fun t h' => ?_⟩
      obtain ⟨t', ht', hb⟩ := ht t h'
      have hne : g.1.1 ≠ name := fun e => by rw [← e, hg] at h'; cases h'
      exact ⟨t', ht', batched_other hne hb⟩
    | some tg =>
      obtain ⟨hp, ha, hd⟩ := hreg g (by simp) tg hg
      obtain ⟨m, stored, t₁, hm, hst, hdb, hs, hf⟩ := applyRow_ok hg hp.toCrdtTable hp.uniques hd ha h₁
      have hreg₁ : ∀ g' ∈ groups, RegularGroup env db₁ g' := fun g' hg' =>
        regularGroup_schema hg hdb hs (hreg g' (by simp [hg']))
      obtain ⟨hn, ht⟩ := ih hreg₁ h₂
      have hstep : ∀ k, t₁.find k = if k = keyOf env tg g.1.2 then stepRow env tg (tg.find k) g else tg.find k := by
        intro k
        rw [hf k]
        by_cases hk : k = keyOf env tg g.1.2
        · subst hk; simp [stepRow, hst, hm]
        · simp [hk]
      by_cases hname : g.1.1 = name
      · subst hname
        refine ⟨fun h' => absurd (hg.symm.trans h') (by simp), fun t h' => ?_⟩
        rw [hg, Option.some_inj] at h'
        subst h'
        obtain ⟨t', ht', hb⟩ := ht t₁ (by rw [hdb, Function.update_self])
        exact ⟨t', ht', batched_cons rfl hs ⟨stored, hst⟩ hstep hb⟩
      · have he : db₁.tables name = db.tables name := by
          rw [hdb, Function.update_of_ne (fun e => hname e.symm)]
        rw [he] at hn ht
        refine ⟨hn, fun t h' => ?_⟩
        obtain ⟨t', ht', hb⟩ := ht t h'
        exact ⟨t', ht', batched_other hname hb⟩

theorem setPushCursor_tables (db : Database) (info : Option (String × String)) :
    (setPushCursor db info).tables = db.tables := by
  unfold setPushCursor
  split
  · rfl
  · split <;> rfl

theorem inboundDeleteLogIds_nil {env : Env} {changes : List RemoteColumnChange}
    (h : ∀ ch ∈ changes, ch.tableName ≠ deletedRowsTable) : inboundDeleteLogIds env changes = [] := by
  have : changes.filterMap (deleteLogId env) = [] := by
    rw [List.filterMap_eq_nil_iff]
    intro ch hch
    simp [deleteLogId, h ch hch]
  rw [inboundDeleteLogIds, this]
  rfl

theorem apply_rows {env : Env} {hash : Hashing} {db db' : Database} {changes : List RemoteColumnChange}
    {info : Option (String × String)} (h : applyRemoteChangesToDb env hash db changes info = .ok db') :
    ∃ db₁ db₂, applyRows env { db with triggersEnabled := some "0" } (batchGroups hash changes) = .ok db₁ ∧
      (hash.ids.iter (inboundDeleteLogIds env (orderedChanges hash changes))).foldlM (propagateDeletedRow env) db₁ =
        .ok db₂ ∧ db' = { setPushCursor db₂ info with triggersEnabled := some "1" } := by
  unfold applyRemoteChangesToDb at h
  obtain ⟨_, -, h⟩ := bind_eq_ok.1 h
  obtain ⟨db₁, h₁, h⟩ := bind_eq_ok.1 h
  obtain ⟨db₂, h₂, h⟩ := bind_eq_ok.1 h
  cases h
  exact ⟨db₁, db₂, h₁, h₂, rfl⟩

/-- A successful call on regular changes without delete-log entries. -/
theorem apply_ok {env : Env} {hash : Hashing} {db db' : Database} {changes : List RemoteColumnChange}
    {info : Option (String × String)} (hreg : ∀ ch ∈ changes, Regular env db ch)
    (hdel : ∀ ch ∈ changes, ch.tableName ≠ deletedRowsTable)
    (h : applyRemoteChangesToDb env hash db changes info = .ok db') (name : String) :
    (db.tables name = none → db'.tables name = none) ∧
    ∀ t, db.tables name = some t → ∃ t', db'.tables name = some t' ∧ Batched env name (batchGroups hash changes) t t' := by
  obtain ⟨db₁, db₂, h₁, h₂, rfl⟩ := apply_rows h
  rw [inboundDeleteLogIds_nil (fun ch hch => hdel ch (mem_orderedChanges.1 hch)),
    List.perm_nil.1 (hash.ids.perm [])] at h₂
  cases h₂
  have hgroups : ∀ g ∈ batchGroups hash changes, RegularGroup env { db with triggersEnabled := some "0" } g :=
    fun g hg => regularGroup_of_batch hreg hg
  simpa only [setPushCursor_tables] using applyRows_ok hgroups h₁ name

/-! ## A row's cells through a batch -/

section Rows
variable {env : Env} {t : Table} {c : String}

variable {r : Option Row}

theorem stepRow_eq {stored : ColumnHlcs} (h : currentHlcs r = .ok stored) (g : (String × String) × List RemoteColumnChange) :
    stepRow env t r g =
      rowOutcome t ((env.fromStr g.1.2).getD []) r (collectChanges t.columnNames stored g.2) := by
  simp [stepRow, h]

theorem stepRow_readable (hc : CrdtTable t)
    (hd : ∀ ch ∈ g.2, DataName t ch.columnName) (hr : Readable r) : Readable (stepRow env t r g) := by
  obtain ⟨stored, hst⟩ := hr
  rw [stepRow_eq hst]
  by_cases hnil : (collectChanges t.columnNames stored g.2).columnsToUpdate = []
  · simp only [rowOutcome, hnil, if_true]
    exact ⟨stored, hst⟩
  · obtain ⟨r', hr'⟩ : ∃ r', rowOutcome t ((env.fromStr g.1.2).getD []) r
        (collectChanges t.columnNames stored g.2) = some r' := by simp [rowOutcome, hnil]
    rw [hr']
    exact ⟨(collectChanges t.columnNames stored g.2).columnHlcs,
      by simp only [currentHlcs, (outcome_metadata hc hd hnil hr').1]⟩

theorem stepRow_isSome (hr : Readable r) (g : (String × String) × List RemoteColumnChange) :
    (stepRow env t r g).isSome ↔
      r.isSome ∨ ∃ ch ∈ g.2, ch.columnName ∈ t.columnNames ∧ hlcKey "" < hlcKey ch.hlcTimestamp := by
  obtain ⟨stored, hst⟩ := hr
  rw [stepRow_eq hst]
  exact outcome_isSome (currentHlcs_lookup hst t)

theorem stepRow_clock (hc : CrdtTable t)
    (hd : ∀ ch ∈ g.2, DataName t ch.columnName) (hr : Readable r) (hx : KnownIn t.columnNames c g.2) :
    (t.cellOf (stepRow env t r g) c).1 = ((writesTo c g.2).foldl (write clockKey) (t.cellOf r c)).1 := by
  obtain ⟨stored, hst⟩ := hr
  rw [stepRow_eq hst]
  exact outcome_clock hc hd (currentHlcs_lookup hst t) hx

theorem stepRow_cell (hc : CrdtTable t)
    (hd : ∀ ch ∈ g.2, DataName t ch.columnName) (hr : Readable r) (hx : KnownIn t.columnNames c g.2)
    (hcd : DataName t c) (hf : r = none → FirstIsLast (writesTo c g.2)) :
    t.cellOf (stepRow env t r g) c = (writesTo c g.2).foldl (write clockKey) (t.cellOf r c) := by
  obtain ⟨stored, hst⟩ := hr
  rw [stepRow_eq hst]
  exact outcome_cell_of_firstIsLast hc hd (currentHlcs_lookup hst t) hx hcd hf

variable {gs : List ((String × String) × List RemoteColumnChange)}

theorem foldl_stepRow_isSome (hc : CrdtTable t) (hd : ∀ g ∈ gs, ∀ ch ∈ g.2, DataName t ch.columnName) (hr : Readable r) :
    (gs.foldl (stepRow env t) r).isSome ↔
      r.isSome ∨ ∃ g ∈ gs, ∃ ch ∈ g.2, ch.columnName ∈ t.columnNames ∧ hlcKey "" < hlcKey ch.hlcTimestamp := by
  induction gs generalizing r with
  | nil => simp
  | cons g gs ih =>
    have hd₁ : ∀ ch ∈ g.2, DataName t ch.columnName := hd g (by simp)
    rw [List.foldl_cons, ih (fun g' hg' => hd g' (by simp [hg'])) (stepRow_readable hc hd₁ hr), stepRow_isSome hr]
    simp only [List.mem_cons, exists_eq_or_imp, or_assoc]

theorem foldl_stepRow_clock (hc : CrdtTable t) (hd : ∀ g ∈ gs, ∀ ch ∈ g.2, DataName t ch.columnName)
    (hr : Readable r) (hx : ∀ g ∈ gs, KnownIn t.columnNames c g.2) :
    (t.cellOf (gs.foldl (stepRow env t) r) c).1 =
      ((gs.flatMap fun g => writesTo c g.2).foldl (write clockKey) (t.cellOf r c)).1 := by
  induction gs generalizing r with
  | nil => rfl
  | cons g gs ih =>
    have hd₁ : ∀ ch ∈ g.2, DataName t ch.columnName := hd g (by simp)
    rw [List.foldl_cons, ih (fun g' hg' => hd g' (by simp [hg'])) (stepRow_readable hc hd₁ hr)
      (fun g' hg' => hx g' (by simp [hg'])), List.flatMap_cons, List.foldl_append]
    exact foldl_write_fst clockKey (stepRow_clock hc hd₁ hr (hx g (by simp))) _

theorem foldl_stepRow_cell (hc : CrdtTable t) (hd : ∀ g ∈ gs, ∀ ch ∈ g.2, DataName t ch.columnName)
    (hr : Readable r) (hx : ∀ g ∈ gs, KnownIn t.columnNames c g.2) (hcd : DataName t c)
    (hf : r = none → ∀ g ∈ gs, FirstIsLast (writesTo c g.2)) :
    t.cellOf (gs.foldl (stepRow env t) r) c =
      (gs.flatMap fun g => writesTo c g.2).foldl (write clockKey) (t.cellOf r c) := by
  induction gs generalizing r with
  | nil => rfl
  | cons g gs ih =>
    have hd₁ : ∀ ch ∈ g.2, DataName t ch.columnName := hd g (by simp)
    have hrest : stepRow env t r g = none → ∀ g' ∈ gs, FirstIsLast (writesTo c g'.2) := by
      intro hnone g' hg'
      have hrn : r = none := by
        by_contra hne
        have hsome : (stepRow env t r g).isSome := (stepRow_isSome hr g).2 (.inl (Option.isSome_iff_ne_none.2 hne))
        rw [hnone] at hsome
        cases hsome
      exact hf hrn g' (by simp [hg'])
    rw [List.foldl_cons, ih (fun g' hg' => hd g' (by simp [hg'])) (stepRow_readable hc hd₁ hr)
      (fun g' hg' => hx g' (by simp [hg'])) hrest, List.flatMap_cons, List.foldl_append,
      stepRow_cell hc hd₁ hr (hx g (by simp)) hcd fun h => hf h g (by simp)]

end Rows

/-! ## A batch, cell by cell -/

def OnRow (env : Env) (t : Table) (name : String) (k : List SqlValue) (ch : RemoteColumnChange) : Prop :=
  ch.tableName = name ∧ keyOf env t ch.rowPks = k

def Names (env : Env) (t : Table) (name : String) (k : List SqlValue) (c : String) (ch : RemoteColumnChange) : Prop :=
  OnRow env t name k ch ∧ ch.columnName = c

section Batch
variable {env : Env} {hash : Hashing} {changes : List RemoteColumnChange} {t t' : Table} {name c : String}
  {k : List SqlValue}

theorem mem_groupsOf :
    g ∈ groupsOf env t name k (batchGroups hash changes) ↔
      g ∈ batchGroups hash changes ∧ g.1.1 = name ∧ keyOf env t g.1.2 = k := by
  simp [groupsOf]

theorem exists_mem_groupsOf (hash : Hashing) {p : RemoteColumnChange → Prop} :
    (∃ g ∈ groupsOf env t name k (batchGroups hash changes), ∃ ch ∈ g.2, p ch) ↔
      ∃ ch ∈ changes, OnRow env t name k ch ∧ p ch := by
  constructor
  · rintro ⟨g, hg, ch, hch, hp⟩
    obtain ⟨hm, hn, hk⟩ := mem_groupsOf.1 hg
    obtain ⟨hc, he⟩ := (mem_batchGroup hm).1 hch
    rw [← he] at hn hk
    exact ⟨ch, hc, ⟨hn, hk⟩, hp⟩
  · rintro ⟨ch, hch, ⟨hn, hk⟩, hp⟩
    obtain ⟨g, hg, he, hm⟩ := exists_batchGroup hash hch
    exact ⟨g, mem_groupsOf.2 ⟨hg, by rw [he]; exact hn, by rw [he]; exact hk⟩, ch, hm, hp⟩

/-- A row that a batch names by one `row_pks` text only has at most one group. -/
theorem batched_single (hb : Batched env name (batchGroups hash changes) t t')
    (hone : ∀ a ∈ changes, ∀ b ∈ changes, OnRow env t name k a → OnRow env t name k b → a.rowPks = b.rowPks) :
    ((¬ ∃ ch ∈ changes, OnRow env t name k ch) ∧ t'.find k = t.find k) ∨
    ∃ g, g ∈ batchGroups hash changes ∧ (∀ ch, ch ∈ g.2 ↔ ch ∈ changes ∧ OnRow env t name k ch) ∧ g.2 ≠ [] ∧
      Readable (t.find k) ∧ t'.find k = stepRow env t (t.find k) g := by
  have hall : ∀ g ∈ groupsOf env t name k (batchGroups hash changes),
      ∀ g' ∈ groupsOf env t name k (batchGroups hash changes), g.1 = g'.1 := by
    intro g hg g' hg'
    obtain ⟨hm, hn, hk⟩ := mem_groupsOf.1 hg
    obtain ⟨hm', hn', hk'⟩ := mem_groupsOf.1 hg'
    obtain ⟨a, ha, hae⟩ := batchGroup_ne_nil hm
    obtain ⟨b, hb, hbe⟩ := batchGroup_ne_nil hm'
    refine Prod.ext (hn.trans hn'.symm) ?_
    rw [← hae] at hn hk ⊢
    rw [← hbe] at hn' hk' ⊢
    exact hone a ha b hb ⟨hn, hk⟩ ⟨hn', hk'⟩
  have hfind := hb.find k
  cases hgs : groupsOf env t name k (batchGroups hash changes) with
  | nil =>
    rw [hgs] at hfind
    refine .inl ⟨?_, hfind⟩
    rintro ⟨ch, hch, hrow⟩
    obtain ⟨g, hg, -⟩ := (exists_mem_groupsOf hash (p := fun _ => True)).2 ⟨ch, hch, hrow, trivial⟩
    rw [hgs] at hg
    cases hg
  | cons g gs =>
    have hnil : gs = [] := by
      cases gs with
      | nil => rfl
      | cons g' gs =>
        have hp := (batchGroups_nodup hash changes).filter fun g => g.1.1 = name ∧ keyOf env t g.1.2 = k
        change (groupsOf env t name k (batchGroups hash changes)).Pairwise _ at hp
        rw [hgs] at hp
        exact absurd (hall g (by rw [hgs]; simp) g' (by rw [hgs]; simp)) ((List.pairwise_cons.1 hp).1 g' (by simp))
    subst hnil
    rw [hgs] at hfind
    obtain ⟨hm, hn, hk⟩ := mem_groupsOf.1 (by rw [hgs]; simp : g ∈ groupsOf env t name k (batchGroups hash changes))
    refine .inr ⟨g, hm, fun ch => ⟨fun hch => ?_, fun ⟨hch, hrow⟩ => ?_⟩, ?_, hb.readable k (by rw [hgs]; simp), hfind⟩
    · obtain ⟨hc, he⟩ := (mem_batchGroup hm).1 hch
      rw [← he] at hn hk
      exact ⟨hc, hn, hk⟩
    · obtain ⟨g', hg', ch', hch', rfl⟩ := (exists_mem_groupsOf hash (p := fun x => x = ch)).2 ⟨ch, hch, hrow, rfl⟩
      rw [hgs, List.mem_singleton] at hg'
      rwa [hg'] at hch'
    · obtain ⟨ch, hch, he⟩ := batchGroup_ne_nil hm
      exact List.ne_nil_of_mem ((mem_batchGroup hm).2 ⟨hch, he⟩)

def Offers (env : Env) (t : Table) (name : String) (k : List SqlValue) (c : String) (S : Set RemoteColumnChange)
    (w : String × SqlValue) : Prop :=
  ∃ ch ∈ S, Names env t name k c ch ∧ (ch.hlcTimestamp, jsonToRusqliteValue ch.decryptedValue) = w

theorem mem_batchWrites {w : String × SqlValue} :
    (w ∈ (groupsOf env t name k (batchGroups hash changes)).flatMap fun g => writesTo c g.2) ↔
      Offers env t name k c {ch | ch ∈ changes} w := by
  simp only [List.mem_flatMap, mem_writesTo, Offers, Set.mem_ofPred_eq]
  rw [exists_mem_groupsOf]
  constructor
  · rintro ⟨ch, hch, hrow, hc, h1, h2⟩; exact ⟨ch, hch, ⟨hrow, hc⟩, Prod.ext h1 h2⟩
  · rintro ⟨ch, hch, ⟨hrow, hc⟩, rfl⟩; exact ⟨ch, hch, hrow, hc, rfl, rfl⟩

theorem groupsOf_data (hreg : ∀ ch ∈ changes, ch.tableName = name → CrdtTable t ∧ DataName t ch.columnName) :
    ∀ g ∈ groupsOf env t name k (batchGroups hash changes), ∀ ch ∈ g.2, DataName t ch.columnName := by
  intro g hg ch hch
  obtain ⟨hm, hn, -⟩ := mem_groupsOf.1 hg
  obtain ⟨hc, he⟩ := (mem_batchGroup hm).1 hch
  exact (hreg ch hc (by rw [← hn, ← he])).2

theorem groupsOf_crdt (hreg : ∀ ch ∈ changes, ch.tableName = name → CrdtTable t ∧ DataName t ch.columnName)
    (hne : groupsOf env t name k (batchGroups hash changes) ≠ []) : CrdtTable t := by
  obtain ⟨g, hg⟩ := List.exists_mem_of_ne_nil _ hne
  obtain ⟨hm, hn, -⟩ := mem_groupsOf.1 hg
  obtain ⟨ch, hch, he⟩ := batchGroup_ne_nil hm
  exact (hreg ch hch (by rw [← hn, ← he])).1

theorem groupsOf_known (hx : KnownIn t.columnNames c (changes.filter fun ch => ch.tableName = name)) :
    ∀ g ∈ groupsOf env t name k (batchGroups hash changes), KnownIn t.columnNames c g.2 := by
  intro g hg ch hch hc
  obtain ⟨hm, hn, -⟩ := mem_groupsOf.1 hg
  obtain ⟨hcm, he⟩ := (mem_batchGroup hm).1 hch
  exact hx ch (List.mem_filter.2 ⟨hcm, by simp [← hn, ← he]⟩) hc

theorem batched_isSome (hreg : ∀ ch ∈ changes, ch.tableName = name → CrdtTable t ∧ DataName t ch.columnName)
    (hb : Batched env name (batchGroups hash changes) t t') :
    (t'.find k).isSome ↔ (t.find k).isSome ∨
      ∃ ch ∈ changes, OnRow env t name k ch ∧ ch.columnName ∈ t.columnNames ∧ hlcKey "" < hlcKey ch.hlcTimestamp := by
  rw [hb.find k, ← exists_mem_groupsOf hash]
  by_cases hg : groupsOf env t name k (batchGroups hash changes) = []
  · simp [hg]
  · exact foldl_stepRow_isSome (groupsOf_crdt hreg hg) (groupsOf_data hreg) (hb.readable k hg)

theorem batched_cell (hreg : ∀ ch ∈ changes, ch.tableName = name → CrdtTable t ∧ DataName t ch.columnName)
    (hb : Batched env name (batchGroups hash changes) t t')
    (hx : KnownIn t.columnNames c (changes.filter fun ch => ch.tableName = name)) (hcd : DataName t c)
    (hf : t.find k = none → ∀ g ∈ groupsOf env t name k (batchGroups hash changes), FirstIsLast (writesTo c g.2)) :
    t'.cell k c = ((groupsOf env t name k (batchGroups hash changes)).flatMap fun g => writesTo c g.2).foldl
      (write clockKey) (t.cell k c) := by
  have hdflt : t'.cell k c = t.cellOf (t'.find k) c := by rw [Table.cell, hb.schema]; rfl
  rw [hdflt, hb.find k]
  by_cases hg : groupsOf env t name k (batchGroups hash changes) = []
  · rw [hg]; rfl
  · exact foldl_stepRow_cell (groupsOf_crdt hreg hg) (groupsOf_data hreg) (hb.readable k hg) (groupsOf_known hx) hcd hf

theorem batched_clock (hreg : ∀ ch ∈ changes, ch.tableName = name → CrdtTable t ∧ DataName t ch.columnName)
    (hb : Batched env name (batchGroups hash changes) t t')
    (hx : KnownIn t.columnNames c (changes.filter fun ch => ch.tableName = name)) :
    (t'.cell k c).1 = (((groupsOf env t name k (batchGroups hash changes)).flatMap fun g => writesTo c g.2).foldl
      (write clockKey) (t.cell k c)).1 := by
  have hdflt : t'.cell k c = t.cellOf (t'.find k) c := by rw [Table.cell, hb.schema]; rfl
  rw [hdflt, hb.find k]
  by_cases hg : groupsOf env t name k (batchGroups hash changes) = []
  · rw [hg]; rfl
  · exact foldl_stepRow_clock (groupsOf_crdt hreg hg) (groupsOf_data hreg) (hb.readable k hg) (groupsOf_known hx)

end Batch

/-! ## A table of notes -/

def notesEnv : Env where
  fromStr := fun s =>
    if s = "\x7b\"id\":\"a\"\x7d" then some [("id", .string "a")]
    else if s = "\x7b\"id\":\"d\"\x7d" then some [("id", .string "d")]
    else if s = "\x7b\"tag\":\"x\"\x7d" then some [("tag", .string "x")]
    else none
  isAlphanumeric := Char.isAlphanum

def inOrder : Hashing := ⟨⟨id, fun _ => .refl _⟩, ⟨id, fun _ => .refl _⟩, ⟨id, fun _ => .refl _⟩⟩

def emptyTable (pks data : List String) : Table where
  columns := (pks.map fun c => ⟨c, true, false, .null⟩) ++ (data.map fun c => ⟨c, false, false, .null⟩) ++
    [⟨hlcTimestampColumn, false, false, .null⟩, ⟨columnHlcsColumn, false, true, .hlcs ∅⟩]

def notesDb (t : Table) : Database where
  tables := fun name => if name = "notes" then some t else none

def noteChange (column hlc value : String) : RemoteColumnChange :=
  ⟨"notes", "\x7b\"id\":\"a\"\x7d", column, hlc, .string value⟩

theorem exists_ok {ε α : Type} {r : Except ε α} (h : r.toOption.isSome = true) : ∃ a, r = .ok a := by
  cases r with
  | error e => cases h
  | ok a => exact ⟨a, rfl⟩

theorem notes_data {c : String} (hc : c = "title" ∨ c = "body") :
    DataName (emptyTable ["id"] ["title", "body"]) c ∧ c ∈ (emptyTable ["id"] ["title", "body"]).columnNames := by
  rcases hc with rfl | rfl <;> exact ⟨⟨by decide, by decide, by decide⟩, by decide⟩

end HaexVault.Crdt
