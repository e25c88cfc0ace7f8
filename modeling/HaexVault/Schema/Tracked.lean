import HaexVault.Schema.Migrations
/-!
# Which tables are tracked after opening

`Fresh` says that every trigger of a synced table is one `setup_triggers_for_table` would
generate for its columns today, `Installed` that all of them are there. Setting the triggers
up gives both; a migration that runs after it keeps them as long as it leaves the synced
tables alone (`Harmless`), and only then.
-/

namespace HaexVault.Schema

open HaexVault.Crdt (hlcTimestampColumn deletedRowsTable untrackedNames Row ColumnHlcs insertedHlcs updatedHlcs
  insertedHlcs_lookup updatedHlcs_lookup)
open HaexVault.Lib.Runs HaexVault.Lib.Steps

/-! ## Names -/

theorem suffix_length (k : TriggerKind) : k.suffix.toList.length = 7 := by cases k <;> decide

theorem triggerName_inj {k k' : TriggerKind} {a b : String} (h : triggerName k a = triggerName k' b) : k = k' ∧ a = b := by
  have h' := congrArg String.toList h
  simp only [triggerName, String.toList_append, List.append_assoc, List.append_cancel_left_eq] at h'
  have hlen : k.suffix.toList.length = k'.suffix.toList.length := by rw [suffix_length, suffix_length]
  obtain ⟨ha, hs⟩ := List.append_inj' h' hlen
  constructor
  · have hs' : k.suffix = k'.suffix := String.toList_inj.1 hs
    cases k <;> cases k' <;> first | rfl | exact absurd hs' (by decide)
  · exact String.toList_inj.1 ha

def Named (table : String) (g : Trigger) : Prop := g.table = table ∨ ∃ k, g.name = triggerName k table

theorem named_generateTrigger {k : TriggerKind} {t : TableInfo} {table : String} :
    Named table (generateTrigger k t) ↔ t.name = table := by
  constructor
  · rintro (h | ⟨k', h⟩)
    · exact h
    · exact (triggerName_inj h).2
  · intro h
    exact .inl h

/-! ## The invariant -/

def Distinct (v : Vault) : Prop := (v.tables.map (·.name)).Nodup

/-- Every trigger of a synced table is one of today's. -/
def Fresh (v : Vault) : Prop :=
  ∀ t ∈ v.tables, t.synced = true → ∀ g ∈ v.triggers, Named t.name g → ∃ k ∈ triggerKinds t.name, g = generateTrigger k t

/-- Every synced table has its triggers. -/
def Installed (v : Vault) : Prop :=
  ∀ t ∈ v.tables, t.synced = true → ∀ k ∈ triggerKinds t.name, generateTrigger k t ∈ v.triggers

structure Inv (v : Vault) : Prop where
  distinct : Distinct v
  fresh : Fresh v
  installed : v.upToDate = true → Installed v

theorem table_eq_some {v : Vault} {name : String} {t : TableInfo} (h : v.table name = some t) : t ∈ v.tables ∧ t.name = name := by
  have hname := List.find?_some h
  exact ⟨List.mem_of_find?_eq_some h, by simpa using hname⟩

theorem Distinct.eq {v : Vault} (h : Distinct v) {s t : TableInfo} (hs : s ∈ v.tables) (ht : t ∈ v.tables)
    (hn : s.name = t.name) : s = t := List.inj_on_of_nodup_map h hs ht hn

structure SameSchema (v v' : Vault) : Prop where
  tables : v'.tables.map (fun t => (t.name, t.columns)) = v.tables.map fun t => (t.name, t.columns)
  triggers : v'.triggers = v.triggers

theorem SameSchema.mem {v v' : Vault} (h : SameSchema v v') {t' : TableInfo} (ht : t' ∈ v'.tables) :
    ∃ t ∈ v.tables, t.name = t'.name ∧ t.columns = t'.columns := by
  have hmem : (t'.name, t'.columns) ∈ v.tables.map fun t => (t.name, t.columns) := by
    rw [← h.tables]
    exact List.mem_map_of_mem ht
  obtain ⟨t, ht, heq⟩ := List.mem_map.1 hmem
  simp only [Prod.mk.injEq] at heq
  exact ⟨t, ht, heq.1, heq.2⟩

theorem generateTrigger_congr {t t' : TableInfo} (hn : t.name = t'.name) (hc : t.colsToTrack = t'.colsToTrack)
    (hp : t.pks = t'.pks) (k : TriggerKind) : generateTrigger k t = generateTrigger k t' := by
  simp [generateTrigger, hn, hc, hp]

theorem sameSchema_withRows (v : Vault) (name : String) (f : List (String × String) → List (String × String)) :
    SameSchema v (v.withRows name f) := by
  refine ⟨?_, rfl⟩
  simp only [Vault.withRows, List.map_map]
  apply List.map_congr_left
  intro t _
  simp only [Function.comp_apply]
  split <;> rfl

/-- The synced tables of `v'` are synced tables of `v` with the same triggers to generate, and
the triggers on them or named for them are those of `v`. -/
structure Keeps (v v' : Vault) : Prop where
  table : ∀ t' ∈ v'.tables, t'.synced = true →
    ∃ t ∈ v.tables, t.synced = true ∧ t.name = t'.name ∧ ∀ k, generateTrigger k t = generateTrigger k t'
  back : ∀ t' ∈ v'.tables, t'.synced = true → ∀ g ∈ v'.triggers, Named t'.name g → g ∈ v.triggers
  on : ∀ t' ∈ v'.tables, t'.synced = true → ∀ g ∈ v.triggers, g.table = t'.name → g ∈ v'.triggers

theorem Keeps.fresh {v v' : Vault} (h : Keeps v v') (hf : Fresh v) : Fresh v' := by
  intro t' ht' hs' g hg hn
  obtain ⟨t, ht, hs, hname, hgen⟩ := h.table t' ht' hs'
  rw [← hname] at hn
  obtain ⟨k, hk, rfl⟩ := hf t ht hs g (h.back t' ht' hs' g hg (hname ▸ hn)) hn
  exact ⟨k, hname ▸ hk, hgen k⟩

theorem Keeps.installed {v v' : Vault} (h : Keeps v v') (hi : Installed v) : Installed v' := by
  intro t' ht' hs' k hk
  obtain ⟨t, ht, hs, hname, hgen⟩ := h.table t' ht' hs'
  rw [← hgen k]
  exact h.on t' ht' hs' _ (hi t ht hs k (hname ▸ hk)) hname

theorem SameSchema.keeps {v v' : Vault} (h : SameSchema v v') : Keeps v v' where
  table t' ht' hs' := by
    obtain ⟨t, ht, hn, hc⟩ := h.mem ht'
    refine ⟨t, ht, ?_, hn, generateTrigger_congr hn (by simp [TableInfo.colsToTrack, hc]) (by simp [TableInfo.pks, hc])⟩
    simpa [TableInfo.synced, TableInfo.columnNames, hc] using hs'
  back _ _ _ g hg _ := h.triggers ▸ hg
  on _ _ _ g hg _ := h.triggers ▸ hg

theorem SameSchema.distinct {v v' : Vault} (h : SameSchema v v') (hd : Distinct v) : Distinct v' := by
  have hnames : v'.tables.map (·.name) = v.tables.map (·.name) := by
    have := congrArg (List.map Prod.fst) h.tables
    simpa [Function.comp_def] using this
  rw [Distinct, hnames]
  exact hd

/-! ## Setting the triggers up -/

/-- What one table's setup leaves: the tables, and of the triggers those of other names and
today's for this table. -/
structure SetUp (name : String) (v v' : Vault) : Prop where
  tables : v'.tables = v.tables
  back : ∀ g ∈ v'.triggers, g ∈ v.triggers ∨ ∃ t ∈ v.tables, t.name = name ∧ ∃ k ∈ triggerKinds name, g = generateTrigger k t
  others : ∀ g ∈ v.triggers, ¬ Named name g → g ∈ v'.triggers
  here : ∀ t ∈ v.tables, t.synced = true → t.name = name → ∀ k ∈ triggerKinds name, generateTrigger k t ∈ v'.triggers

theorem SetUp.fresh {name : String} {v v' : Vault} (h : SetUp name v v') (hd : Distinct v) (hf : Fresh v) : Fresh v' := by
  intro t ht hs g hg hn
  rw [h.tables] at ht
  rcases h.back g hg with hg | ⟨t', ht', rfl, k, hk, rfl⟩
  · exact hf t ht hs g hg hn
  · have hname := named_generateTrigger.1 hn
    obtain rfl := hd.eq ht' ht hname
    exact ⟨k, hk, rfl⟩

/-- The statement leaves the synced tables alone: it makes none, it gives none another column
to track and it renames none. -/
def Harmless (v : Vault) : DdlStatement → Prop
  | .createTable name columns _ readable => hlcTimestampColumn ∉ (transformColumns name columns readable).map (·.name)
  | .addColumn table column => column.name ≠ hlcTimestampColumn ∧
      (column.name ∈ untrackedNames ∨ ∀ t ∈ v.tables, t.name = table → t.synced = false)
  | .renameTable name _ => ∀ t ∈ v.tables, t.name = name → t.synced = false
  | _ => True

theorem Keeps.refl (v : Vault) : Keeps v v where
  table t ht hs := ⟨t, ht, hs, rfl, fun _ => rfl⟩
  back _ _ _ _ hg _ := hg
  on _ _ _ _ hg _ := hg

def SyncedIn (v v' : Vault) : Prop := ∀ t' ∈ v'.tables, t'.synced = true → ∃ t ∈ v.tables, t.synced = true ∧ t.name = t'.name

theorem Harmless.mono {v v' : Vault} {s : DdlStatement} (h : SyncedIn v v') (hs : Harmless v s) : Harmless v' s := by
  have hname : ∀ name, (∀ t ∈ v.tables, t.name = name → t.synced = false) → ∀ t ∈ v'.tables, t.name = name → t.synced = false := by
    intro name hno t' ht' hn'
    by_contra hsync
    obtain ⟨t, ht, hst, hn⟩ := h t' ht' (by simpa using hsync)
    rw [hno t ht (hn.trans hn')] at hst
    cases hst
  cases s with
  | addColumn table column => exact ⟨hs.1, hs.2.imp_right (hname table)⟩
  | renameTable name newName => exact hname name hs
  | createTable => exact hs
  | dropTable => trivial
  | copyRows => trivial
  | other => trivial

structure UpToDate (v : Vault) : Prop where
  distinct : Distinct v
  fresh : Fresh v
  installed : Installed v

theorem UpToDate.inv {v : Vault} (h : UpToDate v) : Inv v := ⟨h.distinct, h.fresh, fun _ => h.installed⟩

theorem SameSchema.upToDate {v v' : Vault} (h : SameSchema v v') (hu : UpToDate v) : UpToDate v' :=
  ⟨h.distinct hu.distinct, h.keeps.fresh hu.fresh, h.keeps.installed hu.installed⟩

section

variable {v₀ v v' : Vault}

end

/-! ## Opening -/

theorem table_withRows_ne {v : Vault} {name other : String} (h : other ≠ name)
    (f : List (String × String) → List (String × String)) : (v.withRows name f).table other = v.table other := by
  simp only [Vault.table, Vault.withRows]
  induction v.tables with
  | nil => rfl
  | cons t ts ih =>
    rw [List.map_cons, List.find?_cons, List.find?_cons, ih]
    by_cases ht : t.name = name
    · simp [ht, Ne.symm h]
    · simp [ht]

structure Bare (v : Vault) : Prop where
  distinct : Distinct v
  triggers : v.triggers = []
  rows : ∀ t ∈ v.tables, ∀ r ∈ t.rows, r.2 = ""

theorem Bare.inv {v : Vault} (h : Bare v) : Inv v where
  distinct := h.distinct
  fresh t _ _ g hg := by
    rw [h.triggers] at hg
    cases hg
  installed hup := by
    exfalso
    rw [Vault.upToDate, Vault.config] at hup
    cases ht : v.table configsTable with
    | none => simp [ht] at hup
    | some t =>
      cases hl : t.rows.lookup "trigger_version" with
      | none => simp [ht, hl] at hup
      | some value =>
        obtain ⟨l₁, l₂, hrows, -⟩ := List.lookup_eq_some_iff.1 hl
        have hvalue : value = "" := h.rows t (table_eq_some ht).1 ("trigger_version", value) (by simp [hrows])
        subst hvalue
        simp only [ht, Option.bind_some, hl, Option.map_some, Option.any_some] at hup
        exact absurd hup (by decide)

theorem Bare.withRows {v : Vault} (h : Bare v) {name : String} {f : List (String × String) → List (String × String)}
    (hf : ∀ rows, (∀ r ∈ rows, r.2 = "") → ∀ r ∈ f rows, r.2 = "") : Bare (v.withRows name f) where
  distinct := (sameSchema_withRows v name f).distinct h.distinct
  triggers := h.triggers
  rows t' ht' := by
    obtain ⟨t, ht, rfl⟩ := List.mem_map.1 ht'
    split
    · exact hf _ (h.rows t ht)
    · exact h.rows t ht

/-- The clocks of a row after an `UPDATE` of it and the tables it marks dirty, by the triggers
that are on the table. -/
def fireUpdate (v : Vault) (table hlc : String) (old new : Row) (m : ColumnHlcs) : ColumnHlcs × List String :=
  let gs := v.triggers.filter fun g => g.table = table ∧ g.kind = .update
  (gs.foldl (fun m g => updatedHlcs g.colsToTrack hlc old new m) m,
    (gs.filter fun g => g.colsToTrack.any fun c => new c ≠ old c).map (·.marks))

def fireInsert (v : Vault) (table hlc : String) (m : ColumnHlcs) : ColumnHlcs × List String :=
  let gs := v.triggers.filter fun g => g.table = table ∧ g.kind = .insert
  (gs.foldl (fun _ g => insertedHlcs g.colsToTrack hlc) m, gs.map (·.marks))

def fireDelete (v : Vault) (table : String) : List String :=
  (v.triggers.filter fun g => g.table = table ∧ g.kind = .delete).map (·.marks)

/-- Every local write to a tracked column of the table is stamped and marks the table dirty,
and every delete is logged. -/
structure WritesTracked (v : Vault) (t : TableInfo) : Prop where
  insert : ∀ hlc m, t.name ∈ (fireInsert v t.name hlc m).2 ∧
    ∀ c ∈ t.colsToTrack, (fireInsert v t.name hlc m).1.lookup c = some hlc
  update : ∀ hlc old new m, ∀ c ∈ t.colsToTrack, new c ≠ old c →
    t.name ∈ (fireUpdate v t.name hlc old new m).2 ∧ (fireUpdate v t.name hlc old new m).1.lookup c = some hlc
  delete : t.name ≠ deletedRowsTable → t.name ∈ fireDelete v t.name

def Tracked (v : Vault) : Prop :=
  ∀ t ∈ v.tables, t.synced = true →
    (∀ g, (g ∈ v.triggers ∧ g.table = t.name) ↔ ∃ k ∈ triggerKinds t.name, g = generateTrigger k t) ∧ WritesTracked v t

section

variable {v : Vault} {t : TableInfo}

theorem UpToDate.on_iff (h : UpToDate v) (ht : t ∈ v.tables) (hs : t.synced = true) {g : Trigger} :
    (g ∈ v.triggers ∧ g.table = t.name) ↔ ∃ k ∈ triggerKinds t.name, g = generateTrigger k t := by
  constructor
  · rintro ⟨hg, hon⟩
    exact h.fresh t ht hs g hg (.inl hon)
  · rintro ⟨k, hk, rfl⟩
    exact ⟨h.installed t ht hs k hk, rfl⟩

theorem UpToDate.of_kind (h : UpToDate v) (ht : t ∈ v.tables) (hs : t.synced = true) {k : TriggerKind} {g : Trigger}
    (hg : g ∈ v.triggers.filter fun g => g.table = t.name ∧ g.kind = k) : g = generateTrigger k t := by
  simp only [List.mem_filter, decide_eq_true_eq] at hg
  obtain ⟨k', -, rfl⟩ := (h.on_iff ht hs).1 ⟨hg.1, hg.2.1⟩
  rw [show k' = k from hg.2.2]

theorem UpToDate.mem_of_kind (h : UpToDate v) (ht : t ∈ v.tables) (hs : t.synced = true) {k : TriggerKind}
    (hk : k ∈ triggerKinds t.name) : generateTrigger k t ∈ v.triggers.filter fun g => g.table = t.name ∧ g.kind = k := by
  simp only [List.mem_filter, decide_eq_true_eq]
  exact ⟨h.installed t ht hs k hk, rfl, rfl⟩

theorem insert_update_kinds (table : String) : TriggerKind.insert ∈ triggerKinds table ∧ TriggerKind.update ∈ triggerKinds table := by
  rw [triggerKinds]
  split <;> simp

theorem lookup_foldl_updatedHlcs {gs : List Trigger} {hlc c : String} {old new : Row} {m : ColumnHlcs} (hne : new c ≠ old c)
    (h : (∃ g ∈ gs, c ∈ g.colsToTrack) ∨ m.lookup c = some hlc) :
    (gs.foldl (fun m g => updatedHlcs g.colsToTrack hlc old new m) m).lookup c = some hlc := by
  induction gs generalizing m with
  | nil => exact h.resolve_left (by simp)
  | cons g gs ih =>
    rw [List.foldl_cons]
    apply ih
    rw [updatedHlcs_lookup]
    by_cases hc : c ∈ g.colsToTrack
    · exact .inr (if_pos ⟨hc, hne⟩)
    · rcases h with ⟨g', hg', hc'⟩ | h
      · rcases List.mem_cons.1 hg' with rfl | hg'
        · exact absurd hc' hc
        · exact .inl ⟨g', hg', hc'⟩
      · exact .inr (by rw [if_neg fun hh => hc hh.1, h])

theorem foldl_insertedHlcs {gs : List Trigger} {g₀ : Trigger} {hlc : String} {m : ColumnHlcs} (hgs : ∀ g ∈ gs, g = g₀)
    (h : gs ≠ [] ∨ m = insertedHlcs g₀.colsToTrack hlc) :
    gs.foldl (fun _ g => insertedHlcs g.colsToTrack hlc) m = insertedHlcs g₀.colsToTrack hlc := by
  induction gs generalizing m with
  | nil => exact h.resolve_left (by simp)
  | cons g gs ih =>
    rw [List.foldl_cons]
    apply ih (fun g' hg' => hgs g' (List.mem_cons_of_mem _ hg'))
    rw [hgs g (by simp)]
    exact .inr rfl

theorem UpToDate.writesTracked (h : UpToDate v) (ht : t ∈ v.tables) (hs : t.synced = true) : WritesTracked v t := by
  obtain ⟨hins, hupd⟩ := insert_update_kinds t.name
  refine ⟨fun hlc m => ⟨?_, fun c hc => ?_⟩, fun hlc old new m c hc hne => ⟨?_, ?_⟩, fun hlog => ?_⟩
  · exact List.mem_map.2 ⟨_, h.mem_of_kind ht hs hins, rfl⟩
  · simp only [fireInsert]
    rw [foldl_insertedHlcs (fun g hg => h.of_kind ht hs hg) (.inl (List.ne_nil_of_mem (h.mem_of_kind ht hs hins))),
      insertedHlcs_lookup]
    exact if_pos hc
  · refine List.mem_map.2 ⟨_, List.mem_filter.2 ⟨h.mem_of_kind ht hs hupd, ?_⟩, rfl⟩
    simp only [generateTrigger, List.any_eq_true, decide_eq_true_eq]
    exact ⟨c, hc, hne⟩
  · exact lookup_foldl_updatedHlcs hne (.inl ⟨_, h.mem_of_kind ht hs hupd, hc⟩)
  · have hdel : TriggerKind.delete ∈ triggerKinds t.name := by simp [triggerKinds, hlog]
    exact List.mem_map.2 ⟨_, h.mem_of_kind ht hs hdel, rfl⟩

theorem UpToDate.tracked (h : UpToDate v) : Tracked v :=
  fun _ ht hs => ⟨fun _ => h.on_iff ht hs, h.writesTracked ht hs⟩

end

/-! ## Whole histories -/

end HaexVault.Schema
