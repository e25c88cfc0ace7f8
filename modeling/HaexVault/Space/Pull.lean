import HaexVault.Crdt.RowClock
import HaexVault.Space.Scanner
import HaexVault.Space.Sessions
/-!
# Pulling from the leader (`space_delivery/local/sync_loop`)

A peer asks the leader for what its scan finds above `last_pull_timestamp`, applies it, and moves
the cursor to the newest HLC it got. The cursor is a time of writing, but what it is compared with
arrives in the order of the pushes (`late_push_missed`, `pull_complete`).
-/

namespace HaexVault.Space

open HaexVault.Crdt HaexVault.Lib HaexVault.Lib.Steps HaexVault.Lib.Runs

/-! ## What a batch writes -/

section Written
variable {ex : List String} {t t' : Table} {m : RowPks} {k : List SqlValue} {stored : ColumnHlcs}
  {cs : List RemoteColumnChange}

theorem foldl_stepChange_newer {acc₀ : RowAcc} (hacc : acc₀.columnsToUpdate = []) (cs : List RemoteColumnChange) :
    (∀ c ∈ ex, clockKey (acc₀.columnHlcs.lookup c) ≤ clockKey ((cs.foldl (stepChange ex) acc₀).columnHlcs.lookup c)) ∧
      ∀ u ∈ (cs.foldl (stepChange ex) acc₀).columnsToUpdate, clockKey (acc₀.columnHlcs.lookup u.1) < hlcKey u.2.2 := by
  induction cs using List.reverseRecOn with
  | nil => exact ⟨fun _ _ => le_rfl, by simp [hacc]⟩
  | append_singleton cs ch ih =>
    obtain ⟨hle, hnew⟩ := ih
    rw [List.foldl_append]
    generalize cs.foldl (stepChange ex) acc₀ = acc at hle hnew
    simp only [List.foldl_cons, List.foldl_nil, stepChange]
    split
    · rename_i hx
      refine ⟨fun c hc => ?_, hnew⟩
      have hne : c ≠ ch.columnName := fun e => hx (e ▸ hc)
      rw [AList.lookup_insert_ne hne]
      exact hle c hc
    · rename_i hx
      split
      · rename_i hn
        have hlt := (newer_iff _ _ _).1 hn
        have hbefore := hle ch.columnName (not_not.1 hx)
        refine ⟨fun c hc => ?_, fun u hu => ?_⟩
        · by_cases he : c = ch.columnName
          · subst he
            rw [AList.lookup_insert]
            exact hbefore.trans hlt.le
          · rw [AList.lookup_insert_ne he]
            exact hle c hc
        · rcases List.mem_append.1 hu with hu | hu
          · exact hnew u hu
          · rw [List.mem_singleton.1 hu]
            exact hbefore.trans_lt hlt
      · exact ⟨hle, hnew⟩

theorem collect_newer (ex : List String) (stored : ColumnHlcs) (cs : List RemoteColumnChange) :
    (∀ c ∈ ex, clockKey (stored.lookup c) ≤ clockKey ((collectChanges ex stored cs).columnHlcs.lookup c)) ∧
      ∀ u ∈ (collectChanges ex stored cs).columnsToUpdate, clockKey (stored.lookup u.1) < hlcKey u.2.2 := by
  have h := @foldl_stepChange_newer ex ⟨stored, [], (cs.head?.map fun c => c.hlcTimestamp).getD "", []⟩ rfl cs
  exact h

theorem collect_column (ex : List String) (stored : ColumnHlcs) (cs : List RemoteColumnChange) {c : String} (hc : c ∈ ex) :
    ((collectChanges ex stored cs).columnHlcs.lookup c = stored.lookup c ∧
        ∀ u ∈ (collectChanges ex stored cs).columnsToUpdate, u.1 ≠ c) ∨
      ∃ u ∈ (collectChanges ex stored cs).columnsToUpdate, (collectChanges ex stored cs).columnHlcs.lookup c = some u.2.2 := by
  have hg := collect_gathered ex stored cs
  rcases hg.clocks c with hsame | ⟨ch, -, -, hl, hx | ⟨u, hu, he⟩⟩
  · refine .inl ⟨hsame, ?_⟩
    rintro u hu rfl
    obtain ⟨-, h, hl, hle⟩ := hg.recorded u hu
    have hlt := (collect_newer ex stored cs).2 u hu
    rw [show stored.lookup u.1 = some h from hsame.symm.trans hl, clockKey_some] at hlt
    exact absurd hle (not_le.2 hlt)
  · exact absurd hc hx
  · exact .inr ⟨u, hu, he ▸ hl⟩

theorem wrote_added {acc : RowAcc} (ht : Holds t) (h : Wrote t k m acc t') {r' : Row} (hr' : r' ∈ t'.rows) :
    r' ∈ t.rows ∨ acc.columnsToUpdate ≠ [] ∧ rowOutcome t m (t.find k) acc = some r' := by
  cases h with
  | nothing | conflict => exact .inl hr'
  | update hne hfound hup =>
    rw [Table.update_eq hup] at hr'
    obtain ⟨r, hr, rfl⟩ := List.mem_map.1 hr'
    by_cases hk : t.rowKey r = k
    · have hfind : t.find k = some r := by rw [← hk]; exact Keyed.get_of_mem ht.keys hr
      exact .inr ⟨hne, by simp [rowOutcome, hne, hfind, hk]⟩
    · simp only [hk, if_false]
      exact .inl hr
  | insert hne hnone hin =>
    rw [Table.insert_eq hin] at hr'
    rcases List.mem_append.1 hr' with hr | hr
    · exact .inl hr
    · exact .inr ⟨hne, by simp [rowOutcome, hne, hnone, List.mem_singleton.1 hr]⟩

def clockAt (r : Option Row) (c : String) : Option String := r.bind fun r => rowClock r c

theorem clockAt_eq (t : Table) (r : Option Row) (c : String) : clockAt r c = (t.cellOf r c).1 := by
  cases r <;> rfl

theorem wrote_clock_le (hc : CrdtTable t) (hd : ∀ ch ∈ cs, DataName t ch.columnName)
    (hst : currentHlcs (t.find k) = .ok stored) (h : Wrote t k m (collectChanges t.columnNames stored cs) t') {c : String}
    (hx : c ∈ t.columnNames) (k' : List SqlValue) :
    clockKey (clockAt (t.find k') c) ≤ clockKey (clockAt (t'.find k') c) := by
  have hsets := collect_sets hc hd stored
  have hout : ∀ {old r}, (collectChanges t.columnNames stored cs).columnsToUpdate ≠ [] →
      rowOutcome t m old (collectChanges t.columnNames stored cs) = some r →
      r columnHlcsColumn = .hlcs (collectChanges t.columnNames stored cs).columnHlcs ∧
        r hlcTimestampColumn = .text (collectChanges t.columnNames stored cs).maxHlcForRow :=
    fun hne => outcome_metadata hc hd hne
  have hle := (collect_newer t.columnNames stored cs).1 c hx
  have hlook := currentHlcs_lookup hst t c
  generalize collectChanges t.columnNames stored cs = acc at h hsets hout hle
  cases h with
  | nothing | conflict => exact le_rfl
  | update hne hfound hup =>
    rw [Table.find_update hsets hup]
    by_cases hk : k' = k
    · subst hk
      obtain ⟨r, hr⟩ := Option.isSome_iff_exists.1 hfound
      have hclock : rowClock (assign r (acc.changed ++ acc.metadata)) c = acc.columnHlcs.lookup c := by
        have hrow : rowOutcome t m (some r) acc = some (assign r (acc.changed ++ acc.metadata)) := by simp [rowOutcome, hne]
        rw [rowClock, (hout hne hrow).1]
      rw [if_pos rfl, clockAt_eq t, ← hlook, hr]
      show _ ≤ clockKey (rowClock (assign r (acc.changed ++ acc.metadata)) c)
      rw [hclock]
      exact hle
    · rw [if_neg hk]
  | insert hne hnone hin =>
    rw [Table.insert_eq hin]
    cases hf : t.find k' with
    | none => exact hlcKey_empty_le _
    | some r =>
      have hkept : ({ t with rows := t.rows ++ [t.freshRow (insertPairs t m acc)] } : Table).find k' = some r :=
        Keyed.get_append_of_some hf _
      rw [hkept]

end Written

/-! ## Pushes in order -/

def namedRow (env : Env) (db : Database) (c : LocalColumnChange) : Option Row :=
  match db.tables c.tableName, env.fromStr c.rowPks with
  | some t, some pks => t.find (pkKey t pks)
  | _, _ => none

/-- The writer takes the change: its column is known, and it is newer than the clock of its cell. -/
def Taken (env : Env) (db : Database) (c : LocalColumnChange) : Prop :=
  ∃ t, db.tables c.tableName = some t ∧ c.columnName ∈ t.columnNames ∧
    hlcIsNewer c.hlcTimestamp ((clockAt (namedRow env db c) c.columnName).getD "") = true

/-- A change arrives in order for a peer with this cursor: it is on a data column, the row it names is stored in
the push's space or not at all, and if the writer takes it, it is newer than the cursor. That holds of the texts
where it holds of the HLCs. -/
structure InOrder (env : Env) (db : Database) (spaceId : String) (cursor : Option String) (c : LocalColumnChange) : Prop where
  column : c.columnName ≠ "id" ∧ c.columnName ≠ hlcTimestampColumn ∧ c.columnName ≠ columnHlcsColumn
  row : ∀ r, namedRow env db c = some r → r "space_id" = .text spaceId
  newer : ∀ h, cursor = some h → Taken env db c → hlcIsNewer c.hlcTimestamp h = true
  text : ∀ h, cursor = some h → hlcIsNewer c.hlcTimestamp h = true → h < c.hlcTimestamp

/-- A change for a table and in a space that `validateChange` lets through. -/
structure Validated (spaceId : String) (c : LocalColumnChange) : Prop where
  table : c.tableName ∈ spaceScopedCrdtTables
  space : c.columnName = "space_id" → c.value = .string spaceId

theorem validated_of_authorize {env : Env} {hash : PushHashing} {v : Vault} {spaceId endpointId : String}
    {validated : ValidatedUcan} {raw changes : List LocalColumnChange}
    (h : authorizeInboundSyncPush env hash v spaceId endpointId validated raw = .ok changes) :
    ∀ c ∈ changes, Validated spaceId c := by
  intro c hc
  refine ⟨table_of_authorize h c hc, fun hs => ?_⟩
  obtain ⟨attributed, hattr, -, rfl⟩ := mem_authorize h hc
  obtain ⟨hvalid, hc | ⟨hauthor, -⟩⟩ := mem_attributed hattr (List.mem_filter.1 hc).1
  · exact (validateChange_ok.1 (hvalid c hc)).2 hs
  · rw [hs] at hauthor
    exact absurd hauthor (by decide)

section Turn
variable {env : Env} {db db' : Database} {spaceId : String} {cursor : Option String}
  {g : (String × String) × List RemoteColumnChange} {t t' : Table} {m : RowPks} {stored : ColumnHlcs} {c : LocalColumnChange}

def InOrderRow (env : Env) (db : Database) (spaceId : String) (cursor : Option String)
    (g : (String × String) × List RemoteColumnChange) : Prop :=
  g.2 ≠ [] ∧ ∀ ch ∈ g.2, ∃ c, Validated spaceId c ∧ InOrder env db spaceId cursor c ∧ ch = c.toRemote ∧ c.row = g.1

/-- A turn of the apply loop on a row whose changes are in order. -/
structure Turn (env : Env) (db db' : Database) (spaceId : String) (g : (String × String) × List RemoteColumnChange)
    (t t' : Table) (m : RowPks) (stored : ColumnHlcs) : Prop where
  before : db.tables g.1.1 = some t
  after : db'.tables = Function.update db.tables g.1.1 (some t')
  crdt : CrdtTable t
  holds : Holds t
  schema : ∃ t₀, (g.1.1, t₀) ∈ spaceSchema ∧ t = { t₀ with rows := t.rows }
  rows : t' = { t with rows := t'.rows }
  pks : env.fromStr g.1.2 = some m
  clocks : currentHlcs (t.find (pkKey t m)) = .ok stored
  data : ∀ ch ∈ g.2, DataName t ch.columnName
  wrote : Wrote t (pkKey t m) m (collectChanges t.columnNames stored g.2) t'
  differs : Keyed.DiffersIn (fun r => r "space_id" = .text spaceId) t.rows t'.rows

theorem namedRow_eq (ht : db.tables c.tableName = some t) (hm : env.fromStr c.rowPks = some m) :
    namedRow env db c = t.find (pkKey t m) := by
  simp only [namedRow, ht, hm]

theorem namedRow_some {r : Row} (h : namedRow env db c = some r) :
    ∃ t m, db.tables c.tableName = some t ∧ env.fromStr c.rowPks = some m ∧ t.find (pkKey t m) = some r := by
  unfold namedRow at h
  split at h
  · rename_i t m ht hm
    exact ⟨t, m, ht, hm, h⟩
  · cases h

theorem InOrderRow.row (hg : InOrderRow env db spaceId cursor g) (ht : db.tables g.1.1 = some t)
    (hm : env.fromStr g.1.2 = some m) {r : Row} (hr : r ∈ t.rows) (hholds : Holds t) (hk : t.rowKey r = pkKey t m) :
    r "space_id" = .text spaceId := by
  obtain ⟨ch, hch⟩ := List.exists_mem_of_ne_nil _ hg.1
  obtain ⟨c, -, hc, -, hrow⟩ := hg.2 ch hch
  refine hc.row r ?_
  rw [namedRow_eq (show db.tables c.tableName = some t by rw [← ht, ← hrow]; rfl)
    (show env.fromStr c.rowPks = some m by rw [← hm, ← hrow]; rfl), ← hk]
  exact Keyed.get_of_mem hholds.keys hr

theorem applyRow_turn (hschema : SpaceSchema db) (hg : InOrderRow env db spaceId cursor g)
    (h : applyRow env db g = .ok db') : ∃ t t' m stored, Turn env db db' spaceId g t t' m stored := by
  obtain ⟨ch, hch⟩ := List.exists_mem_of_ne_nil _ hg.1
  obtain ⟨c, hvalid, -, -, hrow⟩ := hg.2 ch hch
  have hname : c.tableName = g.1.1 := congrArg Prod.fst hrow
  obtain ⟨p, hp, hpn⟩ := List.mem_map.1 (spaceSchema_names.symm ▸ (hname ▸ hvalid.table : g.1.1 ∈ spaceScopedCrdtTables))
  obtain ⟨rows, ht, hholds⟩ := hschema p hp
  rw [hpn] at ht
  have hshape : SpaceShape { p.2 with rows } := (@spaceShape p.1 _ hp).withRows rows
  obtain ⟨m, stored, t₁, hm, hst, -, htables, -, hw⟩ := applyRow_inv ht hshape.hlcs h
  have hdata : ∀ ch ∈ g.2, DataName { p.2 with rows } ch.columnName := by
    intro ch hch
    obtain ⟨c, -, hc, rfl, -⟩ := hg.2 ch hch
    exact ⟨by rw [hshape.pk, List.mem_singleton]; exact hc.column.1, hc.column.2.1, hc.column.2.2⟩
  have hdiff : Keyed.DiffersIn (Fixed [("space_id", .text spaceId)]) rows t₁.rows := by
    refine wrote_differsIn hw (fun q hq => ?_) fun r hr hk q hq => ?_
    · rw [List.mem_singleton.1 hq]
      refine ⟨hshape.space, hshape.spaceData, fun ch hch he => ?_⟩
      obtain ⟨c, hc, -, rfl, -⟩ := hg.2 ch hch
      show jsonToRusqliteValue c.value = .text spaceId
      rw [hc.space he]
      rfl
    · rw [List.mem_singleton.1 hq]
      exact hg.row ht hm hr hholds hk
  have hcrdt : CrdtTable { p.2 with rows } := ⟨hshape.hlcs, by rw [hshape.pk]; decide, by rw [hshape.pk]; decide⟩
  exact ⟨_, t₁, m, stored, ht, htables, hcrdt, hholds, ⟨p.2, hpn ▸ hp, rfl⟩, hw.rows, hm, hst, hdata, hw,
    hdiff.mono fun r hr => hr _ (List.mem_singleton_self _)⟩

theorem Turn.inOrder (h : Turn env db db' spaceId g t t' m stored) (hc : InOrder env db spaceId cursor c) :
    InOrder env db' spaceId cursor c := by
  by_cases hname : c.tableName = g.1.1
  · have ht : db.tables c.tableName = some t := by rw [hname, h.before]
    have ht' : db'.tables c.tableName = some t' := by rw [hname, h.after, Function.update_self]
    have hkey : ∀ k, pkKey t' k = pkKey t k := by rw [h.rows]; exact fun _ => rfl
    have hnames : t'.columnNames = t.columnNames := by rw [h.rows]; rfl
    refine { hc with row := fun r hr => ?_, newer := fun h₀ hcur htaken => hc.newer h₀ hcur ?_ }
    · obtain ⟨t₁, pks, ht₁, hpks, hfind⟩ := namedRow_some hr
      obtain rfl := Option.some.inj (ht'.symm.trans ht₁)
      rcases h.differs.added r (Keyed.get_mem hfind) with hold | hnew
      · refine hc.row r ?_
        have hk : t.rowKey r = pkKey t pks := by rw [← hkey, ← Keyed.get_key hfind, h.rows]; rfl
        rw [namedRow_eq ht hpks, ← hk]
        exact Keyed.get_of_mem h.holds.keys hold
      · exact hnew
    · obtain ⟨t₁, ht₁, hx, hn⟩ := htaken
      obtain rfl := Option.some.inj (ht'.symm.trans ht₁)
      refine ⟨t, ht, hnames ▸ hx, hlcIsNewer_iff.2 (lt_of_le_of_lt ?_ (hlcIsNewer_iff.1 hn))⟩
      cases hpks : env.fromStr c.rowPks with
      | none => simp only [namedRow, ht, ht', hpks]; exact le_rfl
      | some pks =>
        rw [namedRow_eq ht hpks, namedRow_eq ht' hpks, hkey]
        exact wrote_clock_le h.crdt h.data h.clocks h.wrote (hnames ▸ hx) _
  · have htable : db'.tables c.tableName = db.tables c.tableName := by rw [h.after, Function.update_of_ne hname]
    have hrow : namedRow env db' c = namedRow env db c := by simp only [namedRow, htable]
    exact ⟨hc.column, fun r hr => hc.row r (hrow ▸ hr), fun h₀ hcur htaken => hc.newer h₀ hcur
      (by simpa only [Taken, htable, hrow] using htaken), hc.text⟩

/-- Every change of the space stored here was received, or a scan after the cursor still emits it. -/
def Caught (x : Scanner) (db : Database) (a : ScanArgs) (received : List LocalColumnChange) : Prop :=
  ∀ table ∈ spaceScopedCrdtTables, ∀ t, db.tables table = some t → ∀ r ∈ t.rows, r "space_id" = .text a.spaceId →
    ∀ column ∈ dataColumns t, ∀ hlc, hlcToUse r column = some hlc →
      columnChange x t table a.deviceId r column hlc ∈ received ∨ a.selects r = true ∧ a.passes hlc = true

theorem pkJson_congr (x : Scanner) {r r' : Row} (h : t.rowKey r = t.rowKey r') : pkJson x t r = pkJson x t r' := by
  unfold pkJson
  refine congrArg x.toJson (List.map_congr_left fun c hc => ?_)
  rw [List.map_inj_left.1 h c hc]

theorem Turn.taken_newer (h : Turn env db db' spaceId g t t' m stored) (hg : InOrderRow env db spaceId cursor g) {h₀ : String}
    (hcur : cursor = some h₀) : ∀ u ∈ (collectChanges t.columnNames stored g.2).columnsToUpdate,
      hlcIsNewer u.2.2 h₀ = true := by
  intro u hu
  have hlt := (collect_newer t.columnNames stored g.2).2 u hu
  obtain ⟨ch, hch, rfl, hx⟩ := collect_known stored g.2 u hu
  obtain ⟨c, -, hc, rfl, hrow⟩ := hg.2 ch hch
  have ht : db.tables c.tableName = some t := by rw [← h.before, ← hrow]; rfl
  have hm : env.fromStr c.rowPks = some m := by rw [← h.pks, ← hrow]; rfl
  refine hc.newer h₀ hcur ⟨t, ht, hx, hlcIsNewer_iff.2 ?_⟩
  rw [namedRow_eq ht hm]
  show clockKey (clockAt (t.find (pkKey t m)) c.columnName) < hlcKey c.hlcTimestamp
  rw [clockAt_eq t, ← currentHlcs_lookup h.clocks t]
  exact hlt

theorem Turn.max_newer (h : Turn env db db' spaceId g t t' m stored) (hg : InOrderRow env db spaceId cursor g) {h₀ : String}
    (hcur : cursor = some h₀) (hne : (collectChanges t.columnNames stored g.2).columnsToUpdate ≠ []) :
    hlcIsNewer (collectChanges t.columnNames stored g.2).maxHlcForRow h₀ = true ∧
      h₀ < (collectChanges t.columnNames stored g.2).maxHlcForRow := by
  have hgather := collect_gathered t.columnNames stored g.2
  obtain ⟨u, hu⟩ := List.exists_mem_of_ne_nil _ hne
  have hnewer : hlcIsNewer (collectChanges t.columnNames stored g.2).maxHlcForRow h₀ = true :=
    hlcIsNewer_iff.2 ((hlcIsNewer_iff.1 (h.taken_newer hg hcur u hu)).trans_le (hgather.bound u hu))
  refine ⟨hnewer, ?_⟩
  obtain ⟨ch, hch, hmax⟩ : ∃ ch ∈ g.2, ch.hlcTimestamp = (collectChanges t.columnNames stored g.2).maxHlcForRow := by
    rcases hgather.max with hfirst | ⟨u, hu, he⟩
    · obtain ⟨ch, rest, hcs⟩ := List.exists_cons_of_ne_nil hg.1
      exact ⟨ch, by simp [hcs], by rw [hfirst, hcs]; rfl⟩
    · obtain ⟨ch, hch, rfl, -⟩ := collect_known stored g.2 u hu
      exact ⟨ch, hch, he⟩
  obtain ⟨c, -, hc, rfl, -⟩ := hg.2 ch hch
  rw [← hmax] at hnewer ⊢
  exact hc.text h₀ hcur hnewer

theorem assign_unwritten {acc : RowAcc} {column : String} (r : Row) (hdata : DataName t column)
    (h : ∀ u ∈ acc.columnsToUpdate, u.1 ≠ column) : assign r (acc.changed ++ acc.metadata) column = r column := by
  refine assign_of_not_mem r fun p hp => ?_
  rcases List.mem_append.1 hp with hp | hp
  · obtain ⟨u, hu, rfl⟩ := List.mem_map.1 hp
    exact h u hu
  · simp only [RowAcc.metadata, List.mem_cons, List.not_mem_nil, or_false] at hp
    rcases hp with rfl | rfl
    · exact hdata.hlcs.symm
    · exact hdata.hlc.symm

/-- A turn on changes in order leaves nothing behind that was not received. -/
theorem Turn.caught {x : Scanner} {a : ScanArgs} {received : List LocalColumnChange}
    (h : Turn env db db' spaceId g t t' m stored)
    (hg : InOrderRow env db spaceId (if spaceId = a.spaceId then a.afterHlc else none) g) (horigin : a.originNode = none)
    (hcaught : Caught x db a received) : Caught x db' a received := by
  intro table htable t₁ ht₁ r' hr' hspace column hcolumn hlc hhlc
  by_cases hname : table = g.1.1
  swap
  · rw [h.after, Function.update_of_ne hname] at ht₁
    exact hcaught table htable t₁ ht₁ r' hr' hspace column hcolumn hlc hhlc
  subst hname
  obtain rfl : t₁ = t' := by
    rw [h.after, Function.update_self] at ht₁
    exact (Option.some.inj ht₁).symm
  have hchange : ∀ r, columnChange x t₁ g.1.1 a.deviceId r column hlc = columnChange x t g.1.1 a.deviceId r column hlc := by
    intro r; rw [h.rows]; rfl
  have hcolumns : dataColumns t₁ = dataColumns t := by rw [h.rows]; rfl
  rw [hchange]
  rw [hcolumns] at hcolumn
  by_cases hold : r' ∈ t.rows
  · exact hcaught g.1.1 htable t h.before r' hold hspace column hcolumn hlc hhlc
  -- the row was written, so it lies in the space of the push, and its clocks are those the loop left
  obtain rfl : spaceId = a.spaceId := by
    have hs := (h.differs.added r' hr').resolve_left hold
    simpa using hs.symm.trans hspace
  rw [if_pos rfl] at hg
  obtain ⟨t₀, ht₀, hteq⟩ := h.schema
  obtain ⟨hx, hdata⟩ := dataColumns_data ht₀ hteq hcolumn
  obtain ⟨hne, hout⟩ := (wrote_added h.holds h.wrote hr').resolve_left hold
  obtain ⟨hclocks, hrowHlc⟩ := outcome_metadata h.crdt h.data hne hout
  have hselects : a.selects r' = true := by
    simp only [ScanArgs.selects, hspace, decide_true, Bool.and_true, hrowHlc, asText, Option.any_some]
    cases hcur : a.afterHlc with
    | none => rfl
    | some h₀ => simpa using (h.max_newer hg hcur hne).2
  have hpasses : (∀ h₀, a.afterHlc = some h₀ → hlcIsNewer hlc h₀ = true) → a.passes hlc = true := by
    intro hnew
    simp only [ScanArgs.passes, horigin, Option.all_none, Bool.and_true]
    cases hcur : a.afterHlc with
    | none => rfl
    | some h₀ => exact hnew h₀ hcur
  have hlook : hlcToUse r' column = ((collectChanges t.columnNames stored g.2).columnHlcs.lookup column).or
      (some (collectChanges t.columnNames stored g.2).maxHlcForRow) := by
    simp only [hlcToUse, rowClock, hclocks, hrowHlc, asText]
  rw [hlook] at hhlc
  rcases collect_column t.columnNames stored g.2 hx with ⟨hsame, hunwritten⟩ | ⟨u, hu, hu'⟩
  · cases hst : stored.lookup column with
    | none =>
      rw [hsame, hst] at hhlc
      obtain rfl := Option.some.inj hhlc
      exact .inr ⟨hselects, hpasses fun h₀ hcur => (h.max_newer hg hcur hne).1⟩
    | some old =>
      -- the cell was there before, with this clock and this value
      rw [hsame, hst] at hhlc
      obtain rfl : old = hlc := Option.some.inj hhlc
      rw [currentHlcs_lookup h.clocks t] at hst
      cases hfind : t.find (pkKey t m) with
      | none => rw [hfind] at hst; cases hst
      | some r =>
        rw [hfind] at hst hout
        rw [rowOutcome, if_neg hne, Option.some_inj] at hout
        have hval : r' column = r column := by
          rw [← hout]
          exact assign_unwritten r hdata hunwritten
        have hkey : t.rowKey r' = t.rowKey r := by
          rw [← hout]
          exact t.rowKey_assign r _ (collect_sets h.crdt h.data stored)
        have hrow := hg.row h.before h.pks (Keyed.get_mem hfind) h.holds (Keyed.get_key hfind)
        have hsame : columnChange x t g.1.1 a.deviceId r' column old = columnChange x t g.1.1 a.deviceId r column old := by
          simp only [columnChange, pkJson_congr x hkey, hval]
        rw [hsame]
        have huse : hlcToUse r column = some old := by rw [hlcToUse, show rowClock r column = some old from hst]; rfl
        rcases hcaught g.1.1 htable t h.before r (Keyed.get_mem hfind) hrow column hcolumn old huse with hrec | ⟨-, hp⟩
        · exact .inl hrec
        · exact .inr ⟨hselects, hp⟩
  · rw [hu'] at hhlc
    obtain rfl := Option.some.inj hhlc
    exact .inr ⟨hselects, hpasses fun h₀ hcur => h.taken_newer hg hcur u hu⟩

end Turn

theorem applyRows_caught {env : Env} {spaceId : String} {x : Scanner} {a : ScanArgs} {received : List LocalColumnChange}
    (horigin : a.originNode = none) {groups : List ((String × String) × List RemoteColumnChange)} {db db' : Database}
    (hschema : SpaceSchema db)
    (hg : ∀ g ∈ groups, InOrderRow env db spaceId (if spaceId = a.spaceId then a.afterHlc else none) g)
    (hcaught : Caught x db a received) (h : applyRows env db groups = .ok db') : Caught x db' a received := by
  induction groups generalizing db with
  | nil => cases h; exact hcaught
  | cons g groups ih =>
    obtain ⟨db₁, h₁, h₂⟩ := bind_eq_ok.1 h
    have hfirst := hg g List.mem_cons_self
    obtain ⟨t, t', m, stored, hturn⟩ := applyRow_turn hschema hfirst h₁
    refine ih (hschema.applyRow h₁) (fun g' hg' => ?_) (hturn.caught hfirst horigin hcaught) h₂
    obtain ⟨hne, hall⟩ := hg g' (List.mem_cons_of_mem _ hg')
    refine ⟨hne, fun ch hch => ?_⟩
    obtain ⟨c, hvalid, hc, he, hrow⟩ := hall ch hch
    exact ⟨c, hvalid, hturn.inOrder hc, he, hrow⟩

/-! ## One peer and its leader -/

structure PullState where
  leader : Vault
  peer : Database
  lastPullTimestamp : Option String := none
  received : List LocalColumnChange := []

/-- A pull takes effect when the leader scans; one that fails or gets no answer changes nothing. -/
inductive PullEvent where
  | push (w : World) (endpointId : String) (validated : ValidatedUcan) (spaceId : String) (raw : List LocalColumnChange)
  | pull (hash : Hashing)
  /-- Whatever else writes to the peer's database. -/
  | edit (peer : Database)
  | restart

/-- The scan that answers a `SyncPull`. -/
def pullArgs (spaceId : String) (afterTimestamp : Option String) : ScanArgs := ⟨spaceId, afterTimestamp, "leader", none⟩

section System
variable (env : Env) (x : Scanner) (spaceId : String)

/-- The pull phase of `run_sync_cycle`; `none` is the error that ends the cycle. -/
def pullPhase (hash : Hashing) (s : PullState) : Option PullState :=
  match scanSpaceScopedTablesForLocalChanges x s.leader.space.db (pullArgs spaceId s.lastPullTimestamp) with
  | .error _ => none
  | .ok changes =>
    if changes = [] then some s
    else match applyRemoteChangesToDb env hash s.peer (changes.map (·.toRemote)) none with
    | .error _ => none
    | .ok peer =>
      let maxPulledHlc := (hlcMax (changes.map (·.hlcTimestamp))).getD ""
      some { s with
        peer
        lastPullTimestamp := if maxPulledHlc = "" then s.lastPullTimestamp else some maxPulledHlc
        received := s.received ++ changes }

def PullState.step (s : PullState) : PullEvent → PullState
  | .push w endpointId validated sp raw => { s with leader := (syncPush w s.leader endpointId validated sp (.ok raw)).2 }
  | .pull hash => (pullPhase env x spaceId hash s).getD s
  | .edit peer => { s with peer }
  | .restart => { s with lastPullTimestamp := none }

/-- What an accepted push brings is in order: for a peer at its cursor, if it is for the peer's space. -/
def PushesInOrder (s : PullState) : PullEvent → Prop
  | .push w endpointId validated sp raw =>
    ∀ changes, authorizeInboundSyncPush w.env w.pushHash s.leader sp endpointId validated raw = .ok changes →
      ∀ c ∈ changes, InOrder w.env s.leader.space.db sp (if sp = spaceId then s.lastPullTimestamp else none) c
  | _ => True

def AllReceived (s : PullState) : Prop :=
  ∃ changes, scanSpaceScopedTablesForLocalChanges x s.leader.space.db (pullArgs spaceId none) = .ok changes ∧
    changes ⊆ s.received

def PullState.Caught (s : PullState) : Prop :=
  Space.Caught x s.leader.space.db (pullArgs spaceId s.lastPullTimestamp) s.received

end System

section Pulls
variable {env : Env} {x : Scanner} {spaceId : String} {s : PullState}

theorem caught_uncursored (received : List LocalColumnChange) (db : Database) :
    Caught x db (pullArgs spaceId none) received := by
  intro table _ t _ r _ hspace column _ hlc _
  exact .inr ⟨by simp [ScanArgs.selects, pullArgs, hspace], by simp [ScanArgs.passes, pullArgs]⟩

theorem push_caught {w : World} {endpointId sp : String} {validated : ValidatedUcan} {raw : List LocalColumnChange}
    (hpush : PushesInOrder spaceId s (.push w endpointId validated sp raw)) (h : s.Caught x spaceId) :
    (s.step env x spaceId (.push w endpointId validated sp raw)).Caught x spaceId := by
  cases hauth : authorizeInboundSyncPush w.env w.pushHash s.leader sp endpointId validated raw with
  | error e => simpa only [PullState.step, syncPush, hauth] using h
  | ok changes =>
    by_cases hnil : changes = []
    · simpa only [PullState.step, syncPush, hauth, hnil, if_true] using h
    cases hlock : w.hlcLock with
    | error e => simpa only [PullState.step, syncPush, hauth, hnil, if_false, hlock] using h
    | ok u =>
      cases happly : s.leader.space.apply w.env w.hash (changes.map (·.toRemote)) with
      | error e => simpa only [PullState.step, syncPush, hauth, hnil, if_false, hlock, happly] using h
      | ok space =>
        have hleader : (s.step env x spaceId (.push w endpointId validated sp raw)).leader = { s.leader with space } := by
          simp only [PullState.step, syncPush, hauth, hnil, if_false, hlock, happly]
          split
          · split <;> rfl
          · rfl
        have hvalid := validated_of_authorize hauth
        obtain ⟨db₁, h₁, htables⟩ := applyRows_of_apply (fun c hc => (hvalid c hc).table) (SpaceDb.apply_ok happly)
        have hstart : SpaceSchema { s.leader.space.db with triggersEnabled := some "0" } := s.leader.space.schema
        have hrows : ∀ g ∈ batchGroups w.hash (changes.map (·.toRemote)),
            InOrderRow w.env { s.leader.space.db with triggersEnabled := some "0" } sp
              (if sp = spaceId then s.lastPullTimestamp else none) g := by
          intro g hg
          obtain ⟨hne, hch⟩ := group_changes hg
          refine ⟨hne, fun ch hm => ?_⟩
          obtain ⟨c, hcm, rfl, he⟩ := hch ch hm
          have hc := hpush changes hauth c hcm
          exact ⟨c, hvalid c hcm, ⟨hc.column, hc.row, hc.newer, hc.text⟩, rfl, he⟩
        have hcaught : Caught x db₁ (pullArgs spaceId s.lastPullTimestamp) s.received :=
          applyRows_caught rfl hstart hrows h h₁
        show Caught x (s.step env x spaceId (.push w endpointId validated sp raw)).leader.space.db
          (pullArgs spaceId s.lastPullTimestamp) s.received
        rw [hleader]
        intro table htable t ht
        exact hcaught table htable t (htables ▸ ht)

theorem pullPhase_received {hash : Hashing} {s' : PullState} (h : s.Caught x spaceId)
    (hpull : pullPhase env x spaceId hash s = some s') : s'.leader = s.leader ∧ ∀ c,
      Emits x s.leader.space.db (pullArgs spaceId none) c → c ∈ s'.received := by
  obtain ⟨changes, hscan, hmem⟩ := scan_ok x s.leader.space.schema (pullArgs spaceId s.lastPullTimestamp)
  have hall : ∀ c, Emits x s.leader.space.db (pullArgs spaceId none) c → c ∈ s.received ∨ c ∈ changes := by
    rintro c ⟨table, htable, t, ht, r, hr, hsel, hc⟩
    obtain ⟨column, hcolumn, hlc, hhlc, -, rfl⟩ := mem_rowChanges.1 hc
    have hspace : r "space_id" = .text spaceId := by
      simp only [ScanArgs.selects, Bool.and_eq_true] at hsel
      exact of_decide_eq_true hsel.2
    rcases h table htable t ht r hr hspace column hcolumn hlc hhlc with hrec | ⟨hsel', hpass⟩
    · exact .inl hrec
    · exact .inr ((hmem _).2 ⟨table, htable, t, ht, r, hr, hsel', mem_rowChanges.2 ⟨column, hcolumn, hlc, hhlc, hpass, rfl⟩⟩)
  simp only [pullPhase, hscan] at hpull
  split at hpull
  · rename_i hnil
    obtain rfl := Option.some.inj hpull
    refine ⟨rfl, fun c hc => (hall c hc).resolve_right ?_⟩
    rw [hnil]
    exact List.not_mem_nil
  · split at hpull
    · cases hpull
    · obtain rfl := Option.some.inj hpull
      exact ⟨rfl, fun c hc => List.mem_append.2 (hall c hc)⟩

theorem step_caught (s : PullState) (e : PullEvent) (h : s.Caught x spaceId) (he : PushesInOrder spaceId s e) :
    (s.step env x spaceId e).Caught x spaceId := by
  cases e with
  | push w endpointId validated sp raw => exact push_caught he h
  | edit peer => exact h
  | restart => exact caught_uncursored _ _
  | pull hash =>
    cases hpull : pullPhase env x spaceId hash s with
    | none => simpa only [PullState.step, hpull, Option.getD_none] using h
    | some s' =>
      obtain ⟨hleader, hrec⟩ := pullPhase_received h hpull
      simp only [PullState.step, hpull, Option.getD_some]
      intro table htable t ht r hr hspace column hcolumn hlc hhlc
      rw [hleader] at ht
      refine .inl (hrec _ ⟨table, htable, t, ht, r, hr, ?_, mem_rowChanges.2 ⟨column, hcolumn, hlc, hhlc, rfl, rfl⟩⟩)
      have hspace : r "space_id" = .text spaceId := hspace
      simp [ScanArgs.selects, pullArgs, hspace]

/-- When every accepted push of a run was in order, the next completed pull has the peer up to date. -/
theorem pull_complete {s₀ : PullState} {events : List PullEvent} {hash : Hashing} (h0 : s₀.lastPullTimestamp = none)
    (hrun : Guarded (PullState.step env x spaceId) (PushesInOrder spaceId) s₀ events)
    (hpull : pullPhase env x spaceId hash (run (PullState.step env x spaceId) s₀ events) = some s) :
    AllReceived x spaceId s := by
  have hstart : s₀.Caught x spaceId := by
    unfold PullState.Caught
    rw [h0]
    exact caught_uncursored _ _
  have hcaught := hrun.inv step_caught hstart
  obtain ⟨hleader, hrec⟩ := pullPhase_received hcaught hpull
  obtain ⟨changes, hscan, hmem⟩ := scan_ok x s.leader.space.schema (pullArgs spaceId none)
  refine ⟨changes, hscan, fun c hc => hrec c ?_⟩
  rw [← hleader]
  exact (hmem c).1 hc

end Pulls

/-! ## A late push -/

def meshPull : PullState where
  leader := meshVault
  peer := meshVault.space.db

def enrolls (hlc : String) : PullEvent :=
  .push sampleWorld "ep-mallory" malloryUcan "s" (ownEnrollment.map fun c => { c with hlcTimestamp := hlc })

def welcomes (hlc : String) : PullEvent :=
  .push sampleWorld "ep-mallory" malloryUcan "s"
    [⟨"haex_device_mls_enrollments", "\x7b\"id\":\"e2\"\x7d", "welcome", hlc, .string "w", "d"⟩]

def scannedWelcome (hlc : String) : LocalColumnChange :=
  ⟨"haex_device_mls_enrollments", "\x7b\"id\":\"e2\"\x7d", "welcome", hlc, .string "w", "leader"⟩

/-- A change on a data column, of a row in the space, newer than the cursor, is in order. -/
def newerThan (env : Env) (db : Database) (spaceId : String) (cursor : Option String) (c : LocalColumnChange) : Bool :=
  c.columnName ∉ ["id", hlcTimestampColumn, columnHlcsColumn] &&
    ((namedRow env db c).all fun r => r "space_id" = .text spaceId) &&
    cursor.all fun h => hlcIsNewer c.hlcTimestamp h && h < c.hlcTimestamp

theorem inOrder_of_newerThan {env : Env} {db : Database} {spaceId : String} {cursor : Option String} {c : LocalColumnChange}
    (h : newerThan env db spaceId cursor c = true) : InOrder env db spaceId cursor c := by
  simp only [newerThan, Bool.and_eq_true, decide_eq_true_eq, List.mem_cons, List.not_mem_nil, or_false, not_or] at h
  obtain ⟨⟨hcolumn, hrow⟩, hnew⟩ := h
  refine ⟨hcolumn, fun r hr => ?_, fun h₀ hcur _ => ?_, fun h₀ hcur _ => ?_⟩
  · rw [hr] at hrow
    simpa using hrow
  · rw [hcur] at hnew
    simp only [Option.all_some, Bool.and_eq_true] at hnew
    exact hnew.1
  · rw [hcur] at hnew
    simp only [Option.all_some, Bool.and_eq_true, decide_eq_true_eq] at hnew
    exact hnew.2

/-- The welcome comes after the enrollment was pulled: both are at the peer after the next pull. -/
theorem pull_complete_enrollment :
    ∃ s, pullPhase pushEnv pkScanner "s" inOrder
        (run (PullState.step pushEnv pkScanner "s") meshPull [enrolls "1/a", .pull inOrder, welcomes "2/a"]) = some s ∧
      AllReceived pkScanner "s" s := by
  have hpushed : ∀ (s : PullState) (raw : List LocalColumnChange),
      ((authorizeInboundSyncPush pushEnv pushInOrder s.leader "s" "ep-mallory" malloryUcan raw).toOption.all fun cs =>
        cs.all (newerThan pushEnv s.leader.space.db "s" s.lastPullTimestamp)) = true →
      PushesInOrder "s" s (.push sampleWorld "ep-mallory" malloryUcan "s" raw) := by
    intro s raw hall changes hauth c hc
    rw [show authorizeInboundSyncPush pushEnv pushInOrder s.leader "s" "ep-mallory" malloryUcan raw = .ok changes from hauth] at hall
    rw [if_pos rfl]
    exact inOrder_of_newerThan (List.all_eq_true.1 hall c hc)
  have hguard : Guarded (PullState.step pushEnv pkScanner "s") (PushesInOrder "s") meshPull
      [enrolls "1/a", .pull inOrder, welcomes "2/a"] :=
    ⟨hpushed _ _ (by decide +kernel), trivial, hpushed _ _ (by decide +kernel), trivial⟩
  obtain ⟨s, hs⟩ := Option.isSome_iff_exists.1 (show (pullPhase pushEnv pkScanner "s" inOrder
    (run (PullState.step pushEnv pkScanner "s") meshPull [enrolls "1/a", .pull inOrder, welcomes "2/a"])).isSome = true by
      decide +kernel)
  exact ⟨s, hs, pull_complete rfl hguard hs⟩

/-- The peer has pulled up to `2/a` when the welcome of `1/a` arrives: it is stored at the leader and never pulled. -/
theorem late_push_missed :
    ¬ ∀ (env : Env) (x : Scanner) (spaceId : String) (s₀ s : PullState) (events : List PullEvent) (hash : Hashing),
      s₀.lastPullTimestamp = none → pullPhase env x spaceId hash (run (PullState.step env x spaceId) s₀ events) = some s →
      AllReceived x spaceId s := by
  intro hall
  have hmiss : (pullPhase pushEnv pkScanner "s" inOrder
      (run (PullState.step pushEnv pkScanner "s") meshPull [enrolls "2/a", .pull inOrder, welcomes "1/a"])).any (fun s =>
        (scanSpaceScopedTablesForLocalChanges pkScanner s.leader.space.db (pullArgs "s" none)).toOption.any fun cs =>
          scannedWelcome "1/a" ∈ cs && scannedWelcome "1/a" ∉ s.received) = true := by decide +kernel
  obtain ⟨s, hs, hmiss⟩ := (Option.any_eq_true _ _).1 hmiss
  obtain ⟨changes, hscan, hsub⟩ := hall pushEnv pkScanner "s" meshPull s _ inOrder rfl hs
  rw [hscan] at hmiss
  have hmiss : (scannedWelcome "1/a" ∈ changes && scannedWelcome "1/a" ∉ s.received) = true := hmiss
  simp only [Bool.and_eq_true, decide_eq_true_eq] at hmiss
  exact hmiss.2 (hsub hmiss.1)

end HaexVault.Space
