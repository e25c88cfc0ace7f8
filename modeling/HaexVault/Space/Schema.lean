import HaexVault.Crdt.Batch
/-!
# The tables of shared spaces (`crdt/scanner.rs`, `database/migrations`)

The tables a space push may write, with the columns the migrations give them, and
what SQLite holds of their rows: no null in a `NOT NULL` column, one row per key.
Every write of the sync code keeps that (`SpaceSchema.apply`).
-/

namespace HaexVault.Space

open HaexVault.Crdt HaexVault.Lib

/-! ## What SQLite holds of a table -/

structure Holds (t : Table) : Prop where
  notNull : ∀ r ∈ t.rows, ∀ col ∈ t.columns, col.notNull = true → r col.name ≠ .null
  keys : (t.rows.map t.rowKey).Nodup

structure Required (t : Table) (c : String) : Prop where
  notNull : ∃ col ∈ t.columns, col.name = c ∧ col.notNull = true
  dflt : t.dflt c = .null

structure KeyRequired (t : Table) : Prop where
  ne_nil : t.pkNames ≠ []
  notNull : ∀ c ∈ t.pkNames, ∃ col ∈ t.columns, col.name = c ∧ col.notNull = true

variable {t : Table}

theorem notNull_of_violation {others : List Row} {r : Row} (h : t.violation others r = none) :
    ∀ col ∈ t.columns, col.notNull = true → r col.name ≠ .null := by
  intro col hcol hn hnull
  unfold Table.violation at h
  split at h
  · cases h
  · rename_i hf
    have := List.find?_eq_none.1 hf col hcol
    simp [hn, hnull] at this

theorem collides_of_violation {others : List Row} {r : Row} (h : t.violation others r = none) :
    ∀ o ∈ others, collides t.pkNames r o = false := by
  intro o ho
  unfold Table.violation at h
  split at h
  · cases h
  · split at h
    · have hf := List.find?_eq_none.1 (Option.map_eq_none_iff.1 h) t.pkNames (by simp)
      simp only [List.any_eq_true, not_exists, not_and, Bool.not_eq_true] at hf
      exact hf o ho
    · cases h

theorem rowKey_ne_of_violation (hk : KeyRequired t) {others : List Row} {r : Row}
    (h : t.violation others r = none) {o : Row} (ho : o ∈ others) : t.rowKey r ≠ t.rowKey o := by
  intro he
  have hc := collides_of_violation h o ho
  have hall : collides t.pkNames r o = true := by
    simp only [collides, Bool.and_eq_true, decide_eq_true_eq, List.all_eq_true]
    refine ⟨hk.ne_nil, fun c hc => ⟨?_, List.map_inj_left.1 he c hc⟩⟩
    obtain ⟨col, hcol, rfl, hn⟩ := hk.notNull c hc
    exact notNull_of_violation h col hcol hn
  rw [hall] at hc
  cases hc

variable {pairs : List (String × SqlValue)}

theorem insert_violation {t t' : Table} (h : t.insert pairs = .ok t') : t.violation t.rows (t.freshRow pairs) = none := by
  unfold Table.insert at h
  dsimp only at h
  split at h
  · cases h
  · assumption

theorem insert_required {t t' : Table} (h : t.insert pairs = .ok t') {c : String}
    (hc : Required t c) : t.freshRow pairs c ≠ .null := by
  obtain ⟨col, hcol, rfl, hn⟩ := hc.notNull
  exact notNull_of_violation (insert_violation h) col hcol hn

theorem Holds.append (ht : Holds t) (hk : KeyRequired t) {r r' : Row} (h : t.violation t.rows r = none)
    (hkey : t.rowKey r' = t.rowKey r) (hnull : ∀ c, r c ≠ .null → r' c ≠ .null) :
    Holds { t with rows := t.rows ++ [r'] } where
  notNull o ho col hcol hn := by
    rcases List.mem_append.1 ho with ho | ho
    · exact ht.notNull o ho col hcol hn
    · rw [List.mem_singleton.1 ho]
      exact hnull _ (notNull_of_violation h col hcol hn)
  keys := by
    show ((t.rows ++ [r']).map t.rowKey).Nodup
    rw [List.map_append, List.map_singleton, List.nodup_append]
    refine ⟨ht.keys, List.nodup_singleton _, ?_⟩
    rintro _ ha _ hb rfl
    obtain ⟨o, ho, he⟩ := List.mem_map.1 ha
    exact rowKey_ne_of_violation hk h ho (by rw [he, List.mem_singleton.1 hb, hkey])

theorem Holds.insert {t t' : Table} (ht : Holds t) (hk : KeyRequired t) (h : t.insert pairs = .ok t') : Holds t' := by
  have hv := insert_violation h
  obtain rfl := Table.insert_eq h
  exact ht.append hk hv rfl fun _ h => h

theorem update_violation {t t' : Table} {k : List SqlValue} {sets : List (String × SqlValue)}
    (h : t.update k sets = .ok t') {r : Row} (hr : r ∈ t.rows) (hk : t.rowKey r = k) :
    t.violation (t.rows.filter fun r => t.rowKey r ≠ k) (assign r sets) = none := by
  unfold Table.update at h
  dsimp only at h
  split at h
  · cases h
  · rename_i hf
    exact List.findSome?_eq_none_iff.1 hf r (List.mem_filter.2 ⟨hr, by simpa using hk⟩)

theorem Holds.update {t t' : Table} (ht : Holds t) (hk : KeyRequired t) {k : List SqlValue}
    {sets : List (String × SqlValue)} (h : t.update k sets = .ok t') : Holds t' := by
  have hv : ∀ r ∈ t.rows, t.rowKey r = k → _ := fun r hr => update_violation h hr
  obtain rfl := Table.update_eq h
  have hother : ∀ r ∈ t.rows, t.rowKey r = k → ∀ o ∈ t.rows, t.rowKey o ≠ k → t.rowKey (assign r sets) ≠ t.rowKey o :=
    fun r hr hrk o ho hok => rowKey_ne_of_violation hk (hv r hr hrk) (List.mem_filter.2 ⟨ho, by simpa using hok⟩)
  refine ⟨fun r hr => ?_, ?_⟩
  · obtain ⟨o, ho, rfl⟩ := List.mem_map.1 hr
    by_cases hok : t.rowKey o = k
    · simp only [hok, if_true]
      exact notNull_of_violation (hv o ho hok)
    · simp only [hok, if_false]
      exact ht.notNull o ho
  · show ((Keyed.modify t.rowKey t.rows k fun r => assign r sets).map t.rowKey).Nodup
    rw [Keyed.modify, List.map_map]
    refine List.Nodup.map_on (fun a ha b hb he => ?_) (List.Nodup.of_map _ ht.keys)
    by_cases hak : t.rowKey a = k <;> by_cases hbk : t.rowKey b = k <;>
      simp only [Function.comp, hak, hbk, if_true, if_false] at he
    · exact List.inj_on_of_nodup_map ht.keys ha hb (hak.trans hbk.symm)
    · exact absurd he (hother a ha hak b hb hbk)
    · exact absurd he.symm (hother b hb hbk a ha hak)
    · exact List.inj_on_of_nodup_map ht.keys ha hb he

/-! ## The tables of shared spaces -/

def spaceScopedCrdtTables : List String :=
  ["haex_space_devices", "haex_space_members", "haex_peer_shares", "haex_mls_sync_keys", "haex_device_mls_enrollments"]

def membershipSystemTables : List String :=
  ["haex_space_devices", "haex_space_members", "haex_mls_sync_keys", "haex_device_mls_enrollments"]

def isSpaceScopedTable (name : String) : Bool := name ∈ spaceScopedCrdtTables
def isMembershipSystemTable (name : String) : Bool := name ∈ membershipSystemTables

/-- `id text PRIMARY KEY NOT NULL, space_id text NOT NULL`, the table's own columns, and the CRDT columns.
The default `CURRENT_TIMESTAMP` of a time stands as null: nothing here reads it. -/
def spaceTable (own : List Column) (uniques : List (List String)) : Table where
  columns := [⟨"id", true, true, .null⟩, ⟨"space_id", false, true, .null⟩] ++ own ++
    [⟨hlcTimestampColumn, false, false, .null⟩, ⟨columnHlcsColumn, false, true, .hlcs ∅⟩]
  uniques

def nullable (name : String) : Column := { name }
def notNull (name : String) : Column := { name, notNull := true }

def spaceMembersTable : Table :=
  spaceTable [notNull "identity_id", { name := "role", notNull := true, dflt := .text "read" }, nullable "authored_by_did",
    nullable "joined_at"] [["space_id", "identity_id"]]

def spaceDevicesTable : Table :=
  spaceTable [nullable "identity_id", notNull "device_id", notNull "endpoint_id", notNull "name",
    notNull "platform", nullable "avatar", nullable "avatar_options", nullable "relay_url",
    { name := "leader_priority", dflt := .integer 10 }, nullable "authored_by_did", nullable "created_at"]
    [["space_id", "device_id"], ["space_id", "endpoint_id"]]

def deviceMlsEnrollmentsTable : Table :=
  spaceTable [notNull "device_id", notNull "key_package", nullable "welcome",
    { name := "status", notNull := true, dflt := .text "pending" }, nullable "authored_by_did"] []

def mlsSyncKeysTable : Table :=
  spaceTable [notNull "epoch", notNull "key_data", nullable "authored_by_did"] []

def peerSharesTable : Table :=
  spaceTable [notNull "device_id", notNull "endpoint_id", notNull "name", notNull "local_path",
    nullable "authored_by_did", nullable "created_at"] []

def spaceSchema : List (String × Table) :=
  [("haex_space_devices", spaceDevicesTable), ("haex_space_members", spaceMembersTable),
    ("haex_peer_shares", peerSharesTable), ("haex_mls_sync_keys", mlsSyncKeysTable),
    ("haex_device_mls_enrollments", deviceMlsEnrollmentsTable)]

theorem spaceSchema_names : spaceSchema.map (·.1) = spaceScopedCrdtTables := rfl

structure SpaceShape (t : Table) : Prop where
  pk : t.pkNames = ["id"]
  key : KeyRequired t
  hlcs : columnHlcsColumn ∈ t.columnNames
  space : Required t "space_id"
  spaceColumn : "space_id" ∈ t.columnNames

theorem SpaceShape.spaceData (h : SpaceShape t) : DataName t "space_id" :=
  ⟨by rw [h.pk]; decide, by decide, by decide⟩

theorem SpaceShape.idColumn (h : SpaceShape t) : "id" ∈ t.columnNames := by
  have hpk : "id" ∈ t.pkNames := by simp [h.pk]
  obtain ⟨col, hcol, hname⟩ := List.mem_map.1 hpk
  exact List.mem_map.2 ⟨col, (List.mem_filter.1 hcol).1, hname⟩

theorem spaceShape_of_own (own : List Column) (uniques : List (List String)) (h : ∀ c ∈ own, c.isPk = false) :
    SpaceShape (spaceTable own uniques) := by
  have hpk : (spaceTable own uniques).pkNames = ["id"] := by
    have hown : own.filter (·.isPk) = [] := List.filter_eq_nil_iff.2 fun c hc => by simp [h c hc]
    simp [spaceTable, Table.pkNames, List.filter_append, hown]
  refine ⟨hpk, ⟨by simp [hpk], fun c hc => ?_⟩, by simp [spaceTable, Table.columnNames], ⟨?_, rfl⟩,
    by simp [spaceTable, Table.columnNames]⟩
  · rw [hpk, List.mem_singleton] at hc
    exact ⟨⟨"id", true, true, .null⟩, by simp [spaceTable], hc.symm, rfl⟩
  · exact ⟨⟨"space_id", false, true, .null⟩, by simp [spaceTable], rfl, rfl⟩

theorem spaceShape {name : String} {t : Table} (h : (name, t) ∈ spaceSchema) : SpaceShape t := by
  simp only [spaceSchema, List.mem_cons, Prod.mk.injEq, List.not_mem_nil, or_false] at h
  rcases h with ⟨-, rfl⟩ | ⟨-, rfl⟩ | ⟨-, rfl⟩ | ⟨-, rfl⟩ | ⟨-, rfl⟩ <;> exact spaceShape_of_own _ _ (by decide)

/-! ## Every write keeps the schema -/

/-- The tables of the schema are there, and SQLite's constraints hold of their rows. -/
def SpaceSchema (db : Database) : Prop :=
  ∀ p ∈ spaceSchema, ∃ rows, db.tables p.1 = some { p.2 with rows } ∧ Holds { p.2 with rows }

theorem SpaceShape.withRows (h : SpaceShape t) (rows : List Row) : SpaceShape { t with rows } :=
  ⟨h.pk, ⟨h.key.ne_nil, h.key.notNull⟩, h.hlcs, ⟨h.space.notNull, h.space.dflt⟩, h.spaceColumn⟩

/-- A table of the schema, as the database has it. -/
theorem SpaceSchema.table {db : Database} (h : SpaceSchema db) {name : String} (ht : db.tables name = some t)
    (hname : name ∈ spaceScopedCrdtTables) :
    ∃ t₀, (name, t₀) ∈ spaceSchema ∧ t = { t₀ with rows := t.rows } ∧ SpaceShape t ∧ Holds t := by
  rw [← spaceSchema_names, List.mem_map] at hname
  obtain ⟨⟨name, t₀⟩, hp, rfl⟩ := hname
  obtain ⟨rows, hrows, hholds⟩ := h _ hp
  obtain rfl := Option.some.inj (ht.symm.trans hrows)
  exact ⟨t₀, hp, rfl, (spaceShape hp).withRows rows, hholds⟩

variable {db db' : Database}

theorem SpaceSchema.update (h : SpaceSchema db) {name : String} {t' : Option Table}
    (htables : db'.tables = Function.update db.tables name t')
    (ht' : ∀ t, db.tables name = some t → name ∈ spaceScopedCrdtTables →
      ∃ rows, t' = some { t with rows } ∧ Holds { t with rows }) : SpaceSchema db' := by
  intro p hp
  obtain ⟨rows, hrows, hholds⟩ := h p hp
  by_cases hname : p.1 = name
  · subst hname
    have hmem : p.1 ∈ spaceScopedCrdtTables := spaceSchema_names ▸ List.mem_map.2 ⟨p, hp, rfl⟩
    obtain ⟨rows', hr, hh⟩ := ht' _ hrows hmem
    exact ⟨rows', by rw [htables, Function.update_self, hr], hh⟩
  · exact ⟨rows, by rw [htables, Function.update_of_ne hname, hrows], hholds⟩

theorem Holds.delete (ht : Holds t) (p : Row → Bool) : Holds (t.delete p) where
  notNull r hr := ht.notNull r (List.mem_filter.1 hr).1
  keys := ht.keys.sublist (List.Sublist.map _ List.filter_sublist)

theorem SpaceSchema.delete {db : Database} (h : SpaceSchema db) {name : String}
    (ht : db.tables name = some t) (p : Row → Bool) : SpaceSchema (db.setTable name (t.delete p)) := by
  refine h.update rfl fun t₁ ht₁ hname => ?_
  obtain rfl := Option.some.inj (ht.symm.trans ht₁)
  obtain ⟨-, -, -, -, hholds⟩ := h.table ht hname
  exact ⟨_, rfl, hholds.delete p⟩

theorem Holds.wrote {t t' : Table} {k : List SqlValue} {m : RowPks} {acc : RowAcc} (ht : Holds t) (hk : KeyRequired t)
    (h : Wrote t k m acc t') : Holds t' := by
  cases h with
  | nothing | conflict => exact ht
  | update _ _ h => exact ht.update hk h
  | insert _ _ h => exact ht.insert hk h

theorem SpaceSchema.applyRow {env : Env} {group : (String × String) × List RemoteColumnChange}
    (h : SpaceSchema db) (happly : Crdt.applyRow env db group = .ok db') : SpaceSchema db' := by
  obtain ⟨t', htables⟩ := applyRow_other happly
  refine h.update htables fun t ht hname => ?_
  obtain ⟨-, -, -, hshape, hholds⟩ := h.table ht hname
  obtain ⟨m, stored, t₁, -, -, -, htables', -, hw⟩ := applyRow_inv ht hshape.hlcs happly
  have he : t' = some t₁ := by
    have := congrFun (htables.symm.trans htables') group.1.1
    simpa using this
  exact ⟨t₁.rows, he.trans (congrArg some hw.rows), hw.rows ▸ hholds.wrote hshape.key hw⟩

theorem SpaceSchema.applyRows {env : Env} {groups : List ((String × String) × List RemoteColumnChange)}
    (h : SpaceSchema db) (happly : Crdt.applyRows env db groups = .ok db') : SpaceSchema db' := by
  induction groups generalizing db with
  | nil => cases happly; exact h
  | cons g groups ih =>
    obtain ⟨db₁, h₁, h₂⟩ := Steps.bind_eq_ok.1 happly
    exact ih (h.applyRow h₁) h₂

theorem SpaceSchema.propagateDelete {env : Env} {db : Database} (h : SpaceSchema db) (table pks hlc : String) :
    SpaceSchema (Crdt.propagateDelete env db table pks hlc) := by
  unfold Crdt.propagateDelete
  split
  · exact h
  · split
    · split
      · exact h
      · rename_i ht _
        dsimp only
        split_ifs
        all_goals first | exact h.delete ht _ | exact h
    · exact h

theorem SpaceSchema.propagateDeletedRow {env : Env} (h : SpaceSchema db) {id : String}
    (hd : Crdt.propagateDeletedRow env db id = .ok db') : SpaceSchema db' := by
  unfold Crdt.propagateDeletedRow at hd
  split at hd
  · cases hd
  · split at hd
    · cases hd; exact h
    · split at hd
      · cases hd; exact h.propagateDelete _ _ _
      · cases hd

theorem SpaceSchema.propagateDeletedRows {env : Env} {ids : List String} (h : SpaceSchema db)
    (hd : ids.foldlM (Crdt.propagateDeletedRow env) db = .ok db') : SpaceSchema db' := by
  induction ids generalizing db with
  | nil => cases hd; exact h
  | cons id ids ih =>
    obtain ⟨db₁, h₁, h₂⟩ := Steps.bind_eq_ok.1 hd
    exact ih (h.propagateDeletedRow h₁) h₂

/-- Applying a batch keeps the schema, whatever the batch holds. -/
theorem SpaceSchema.apply {env : Env} {hash : Hashing} {changes : List RemoteColumnChange}
    {info : Option (String × String)} (h : SpaceSchema db)
    (happly : applyRemoteChangesToDb env hash db changes info = .ok db') : SpaceSchema db' := by
  obtain ⟨db₁, db₂, h₁, h₂, rfl⟩ := apply_rows happly
  have hoff : SpaceSchema { db with triggersEnabled := some "0" } := h
  have hdel : SpaceSchema db₂ := (hoff.applyRows h₁).propagateDeletedRows h₂
  intro p hp
  obtain ⟨rows, hr, hh⟩ := hdel p hp
  exact ⟨rows, (congrFun (setPushCursor_tables db₂ info) p.1).trans hr, hh⟩

end HaexVault.Space
