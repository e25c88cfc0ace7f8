import HaexVault.Schema.Tracked
/-!
# Core and extension migrations (`database/migrations.rs`, `extension/database/commands.rs`)

The entries of the bundled journal and the migrations of the extensions are recorded in one table,
and which entries are still to be applied is read from their names alone
(`core_migrations_once_in_order`, `applies_all_iff`).
-/

namespace HaexVault.Schema.CoreMigrations

open HaexVault.Lib.Runs HaexVault.Lib.Steps

/-! ## The journal -/

structure JournalEntry where
  idx : Nat
  migration : Migration

abbrev JournalEntry.tag (e : JournalEntry) : String := e.migration.name

structure Journal where
  entries : List JournalEntry
  tags_nodup : (entries.map (·.tag)).Nodup

/-- `load_bundled_migrations`: sorted by `idx`. -/
def Journal.load (J : Journal) : List JournalEntry := J.entries.insertionSort fun a b => a.idx ≤ b.idx

/-- The journal of a later version of the application goes on where that of an earlier one ends. -/
def Journal.Extends (J' J : Journal) : Prop := J.load <+: J'.load

/-! ## The database -/

abbrev ExtensionId := { id : String // id ≠ "" }

structure ExtensionMigration where
  extensionId : ExtensionId
  name : String
  sql : String

/-- A vault with what its extensions have registered, and the entries of the journal whose statements have been committed. -/
structure Site where
  vault : Vault := {}
  /-- `haex_extension_migrations_no_sync`. -/
  registered : List ExtensionMigration := []
  committed : List JournalEntry := []

def extensionMigrationsTable : String := "haex_extension_migrations_no_sync"

/-- The rows of the table of applied migrations: name, and the extension or nothing. -/
def recorded (v : Vault) : List (String × String) := ((v.table migrationsTable).map (·.rows)).getD []

abbrev Action := Site → Site × Bool

/-- The actions of a call one after the other; after `lives` of them the next one fails from outside. -/
def runActions : List Action → Nat → Site → Site × Bool
  | [], _, s => (s, true)
  | _ :: _, 0, s => (s, false)
  | a :: as, lives + 1, s =>
    match a s with
    | (s', false) => (s', false)
    | (s', true) => runActions as lives s'

/-! ## Core migrations -/

/-- `apply_single_migration`; a transaction that fails leaves nothing. -/
def commitEntry (e : JournalEntry) : Action := fun s =>
  match applySingleMigration s.vault e.migration with
  | .error _ => (s, false)
  | .ok v => ({ s with vault := v, committed := s.committed ++ [e] }, true)

/-- `get_unapplied_migrations_internal`. -/
def unapplied (J : Journal) (s : Site) : List JournalEntry :=
  J.load.filter fun e => e.tag ∉ ((s.vault.table migrationsTable).map fun t => t.rows.map Prod.fst).getD []

def applyCoreMigrations (J : Journal) (lives : Nat) (s : Site) : Site × Bool :=
  match lives with
  | 0 => (s, false)
  | lives + 1 => runActions ((unapplied J s).map commitEntry) lives s

/-! ## Migrations of extensions -/

abbrev Exec := ExtensionId → String → Vault → Vault × Bool

def register (m : ExtensionMigration) : Action := fun s =>
  if (s.vault.table extensionMigrationsTable).isNone then (s, false)
  else if s.registered.any fun m' => m'.extensionId = m.extensionId ∧ m'.name = m.name then (s, true)
  else ({ s with registered := s.registered ++ [m] }, true)

/-- `execute_migration_statements`. -/
def executeMigration (exec : Exec) (m : ExtensionMigration) : Action := fun s =>
  ({ s with vault := (exec m.extensionId m.sql s.vault).1 }, (exec m.extensionId m.sql s.vault).2)

def recordMigration (m : ExtensionMigration) : Action := fun s =>
  if (s.vault.table migrationsTable).isNone then (s, false)
  else ({ s with vault := s.vault.withRows migrationsTable fun rows =>
      if rows.contains (m.name, m.extensionId.1) then rows else rows ++ [(m.name, m.extensionId.1)] }, true)

/-- The registered migrations of the extensions that are not recorded as applied, in their order. -/
def pending (extensions : List ExtensionId) (s : Site) : List ExtensionMigration :=
  (s.registered.filter fun m =>
    m.extensionId ∈ extensions ∧ !(recorded s.vault).contains (m.name, m.extensionId.1)).insertionSort fun m m' =>
    m.extensionId.1 < m'.extensionId.1 ∨ m.extensionId = m'.extensionId ∧ ¬m'.name < m.name

/-- `apply_synced_extension_migrations`, for the extensions that are there. -/
def applySynced (extensions : List ExtensionId) (exec : Exec) (lives : Nat) (s : Site) : Site × Bool :=
  runActions ((pending extensions s).flatMap fun m => [executeMigration exec m, recordMigration m]) lives s

/-- `extension_database_register_migrations`. -/
def registerMigrations (extensionId : ExtensionId) (migrations : List (String × String)) (exec : Exec) (lives : Nat) (s : Site) :
    Site × Bool :=
  match runActions (migrations.map fun m => register ⟨extensionId, m.1, m.2⟩) lives s with
  | (s, false) => (s, false)
  | (s, true) => applySynced [extensionId] exec (lives - migrations.length) s

/-! ## Runs -/

inductive Event where
  | core (J : Journal) (lives : Nat)
  | registerMigrations (extensionId : ExtensionId) (migrations : List (String × String)) (exec : Exec) (lives : Nat)
  /-- A migration that was registered on another device arrives. -/
  | arrive (m : ExtensionMigration)
  | applySynced (extensions : List ExtensionId) (exec : Exec) (lives : Nat)

def step (s : Site) : Event → Site
  | .core J lives => (applyCoreMigrations J lives s).1
  | .registerMigrations extensionId migrations exec lives => (registerMigrations extensionId migrations exec lives s).1
  | .arrive m => (register m s).1
  | .applySynced extensions exec lives => (applySynced extensions exec lives s).1

/-- An event commits entries once and in their order; a call that succeeds has committed all of its journal, and one that fails
has done nothing besides the entries it has committed. -/
structure OnceInOrder (s : Site) (ev : Event) : Prop where
  once : ((step s ev).committed.map (·.tag)).Nodup
  ordered : ((step s ev).committed.map (·.idx)).Pairwise (· ≤ ·)
  complete : ∀ J lives, ev = .core J lives → (applyCoreMigrations J lives s).2 = true → ∀ e ∈ J.entries, e ∈ (step s ev).committed
  undisturbed : ∀ J lives, ev = .core J lives → ∃ done, (step s ev).committed = s.committed ++ done ∧
    (done.map (·.migration)).foldlM applySingleMigration s.vault = .ok (step s ev).vault

def KeepsRecord (m : Migration) : Prop :=
  ∀ v v', m.statements.foldlM applyStatement v = .ok v' → recorded v' = recorded v

/-- No extension has recorded a migration under the tag of an entry that is still to be committed. -/
def Untaken (J : Journal) (s : Site) : Prop :=
  ∀ e ∈ J.entries, e ∉ s.committed → ∀ extensionId : ExtensionId, (e.tag, extensionId.1) ∉ recorded s.vault

def Undisturbed (s : Site) : Event → Prop
  | .core J _ => Untaken J s ∧ ∀ e ∈ J.entries, KeepsRecord e.migration
  | .registerMigrations _ _ exec _ | .applySynced _ exec _ =>
    ∀ extensionId sql v, recorded (exec extensionId sql v).1 = recorded v
  | .arrive _ => True

/-! ## The record -/

section
variable {v v' : Vault} {s : Site} {J full : Journal} {e : JournalEntry} {m : Migration} {lives : Nat}

theorem table_withRows (v : Vault) (name : String) (f : List (String × String) → List (String × String)) :
    (v.withRows name f).table name = (v.table name).map fun t => { t with rows := f t.rows } := by
  simp only [Vault.table, Vault.withRows]
  induction v.tables with
  | nil => rfl
  | cons t ts ih =>
    rw [List.map_cons, List.find?_cons, List.find?_cons, ih]
    by_cases ht : t.name = name
    · simp [ht]
    · simp [ht]

theorem recorded_withRows (h : (v.table migrationsTable).isSome) (f : List (String × String) → List (String × String)) :
    recorded (v.withRows migrationsTable f) = f (recorded v) := by
  obtain ⟨t, ht⟩ := Option.isSome_iff_exists.1 h
  rw [recorded, recorded, table_withRows, ht]
  rfl

theorem recorded_applySingleMigration (hkeep : KeepsRecord m) (h : applySingleMigration v m = .ok v') :
    recorded v' = recorded v ++ [(m.name, "")] := by
  unfold applySingleMigration at h
  obtain ⟨v₁, hv₁, h⟩ := bind_eq_ok.1 h
  obtain ⟨_, hthere, h⟩ := bind_eq_ok.1 h
  cases h
  rw [recorded_withRows (ensure_ok.1 hthere), hkeep v v₁ hv₁]

def Spares : DdlStatement → Prop
  | .dropTable name | .copyRows name _ => name ≠ migrationsTable
  | .renameTable name newName => name ≠ migrationsTable ∧ newName ≠ migrationsTable
  | .createTable _ _ _ _ | .addColumn _ _ | .other => True

theorem recorded_map {g : TableInfo → TableInfo} (hname : ∀ t, (g t).name = migrationsTable ↔ t.name = migrationsTable)
    (hrows : ∀ t, t.name = migrationsTable → (g t).rows = t.rows) (triggers : List Trigger) :
    recorded ⟨v.tables.map g, triggers⟩ = recorded v := by
  simp only [recorded, Vault.table]
  induction v.tables with
  | nil => rfl
  | cons t ts ih =>
    rw [List.map_cons, List.find?_cons, List.find?_cons]
    by_cases ht : t.name = migrationsTable
    · simp [(hname t).2 ht, ht, hrows t ht]
    · simpa [mt (hname t).1 ht, ht] using ih

theorem recorded_applyStatement {st : DdlStatement} (hst : Spares st) (h : applyStatement v st = .ok v') :
    recorded v' = recorded v := by
  cases st with
  | createTable name columns ifNotExists readable =>
    simp only [applyStatement] at h
    split at h
    · split at h
      · cases h
        rfl
      · cases h
    · cases h
      simp only [recorded, Vault.table, List.find?_append, List.find?_singleton]
      cases v.tables.find? fun t => t.name = migrationsTable with
      | some t => rfl
      | none => by_cases hname : name = migrationsTable <;> simp [hname]
  | addColumn table column =>
    simp only [applyStatement] at h
    split at h
    · cases h
    · split at h
      · cases h
      · cases h
        exact recorded_map (fun t => by split <;> rfl) (fun t _ => by split <;> rfl) v.triggers
  | dropTable name =>
    simp only [applyStatement] at h
    split at h
    · cases h
    · cases h
      simp only [recorded, Vault.table, List.find?_filter]
      congr 3
      funext t
      by_cases ht : t.name = migrationsTable
      · simp [ht, Ne.symm hst]
      · simp [ht]
  | renameTable name newName =>
    simp only [applyStatement] at h
    split at h
    · cases h
    · split at h
      · cases h
      · cases h
        refine recorded_map (fun t => ?_) (fun t _ => by split <;> rfl) _
        split
        · next ht => exact iff_of_false hst.2 (ht ▸ hst.1)
        · exact Iff.rfl
  | copyRows into source =>
    simp only [applyStatement] at h
    split at h
    · cases h
      rw [recorded, recorded, table_withRows_ne (Ne.symm hst)]
    · cases h
  | other =>
    cases h
    rfl

theorem keepsRecord_of_spares (h : ∀ st ∈ m.statements, Spares st) : KeepsRecord m := by
  intro v v' hv
  refine foldlM_inv (I := fun w => recorded w = recorded v) (fun st hst w w' hw h' => ?_) hv rfl
  exact (recorded_applyStatement (h st hst) h').trans hw

theorem mem_load : e ∈ J.load ↔ e ∈ J.entries := List.mem_insertionSort _

theorem load_nodup (J : Journal) : (J.load.map (·.tag)).Nodup :=
  (((List.perm_insertionSort _ J.entries).map _).nodup_iff).2 J.tags_nodup

instance : Std.Total fun a b : JournalEntry => a.idx ≤ b.idx := ⟨fun a b => Nat.le_total a.idx b.idx⟩

instance : IsTrans JournalEntry fun a b => a.idx ≤ b.idx := ⟨fun _ _ _ => Nat.le_trans⟩

theorem load_ordered (J : Journal) : (J.load.map (·.idx)).Pairwise (· ≤ ·) :=
  List.pairwise_map.2 (List.pairwise_insertionSort (fun a b : JournalEntry => a.idx ≤ b.idx) J.entries)

theorem unapplied_eq (J : Journal) (s : Site) :
    unapplied J s = J.load.filter fun e => e.tag ∉ (recorded s.vault).map Prod.fst := by
  unfold unapplied recorded
  cases s.vault.table migrationsTable <;> rfl

/-! ## The actions of a call -/

theorem runActions_inv {I : Site → Prop} {as : List Action} (h : ∀ a ∈ as, ∀ s, I s → I (a s).1) {lives : Nat} {s : Site}
    (hs : I s) : I (runActions as lives s).1 := by
  induction as generalizing lives s with
  | nil => exact hs
  | cons a as ih =>
    cases lives with
    | zero => exact hs
    | succ lives =>
      have hnext := h a List.mem_cons_self s hs
      rw [runActions]
      cases ha : a s with
      | mk s' ok =>
        rw [ha] at hnext
        cases ok with
        | false => exact hnext
        | true => exact ih (fun a' ha' => h a' (List.mem_cons_of_mem a ha')) hnext

theorem runActions_commit {es : List JournalEntry} (hkeep : ∀ e ∈ es, KeepsRecord e.migration) (lives : Nat) (s : Site) :
    ∃ done rest, es = done ++ rest ∧ (runActions (es.map commitEntry) lives s).1.committed = s.committed ++ done ∧
      (done.map (·.migration)).foldlM applySingleMigration s.vault = .ok (runActions (es.map commitEntry) lives s).1.vault ∧
      recorded (runActions (es.map commitEntry) lives s).1.vault = recorded s.vault ++ done.map (fun e => (e.tag, "")) ∧
      ((runActions (es.map commitEntry) lives s).2 = true → rest = []) := by
  induction es generalizing lives s with
  | nil => exact ⟨[], [], rfl, (List.append_nil _).symm, rfl, (List.append_nil _).symm, fun _ => rfl⟩
  | cons e es ih =>
    have hstopped : ∃ done rest, e :: es = done ++ rest ∧ s.committed = s.committed ++ done ∧
        (done.map (·.migration)).foldlM applySingleMigration s.vault = .ok s.vault ∧
        recorded s.vault = recorded s.vault ++ done.map (fun e => (e.tag, "")) ∧ (false = true → rest = []) :=
      ⟨[], e :: es, rfl, (List.append_nil _).symm, rfl, (List.append_nil _).symm, fun h => by cases h⟩
    cases lives with
    | zero => exact hstopped
    | succ lives =>
      rw [List.map_cons, runActions, commitEntry]
      cases happly : applySingleMigration s.vault e.migration with
      | error err => exact hstopped
      | ok v =>
        obtain ⟨done, rest, hes, hcommitted, hvault, hrecorded, hall⟩ :=
          ih (fun e' he' => hkeep e' (List.mem_cons_of_mem e he')) lives { s with vault := v, committed := s.committed ++ [e] }
        have hrow := recorded_applySingleMigration (hkeep e List.mem_cons_self) happly
        refine ⟨e :: done, rest, by rw [hes]; rfl, ?_, ?_, ?_, hall⟩
        · rw [hcommitted, List.append_assoc]
          rfl
        · rw [List.map_cons, List.foldlM_cons, happly]
          exact hvault
        · rw [hrecorded, hrow, List.append_assoc]
          rfl

/-! ## The invariant -/

/-- What has been committed is the beginning of the journal, and is what the core has recorded. -/
structure Inv (full : Journal) (s : Site) : Prop where
  begins : s.committed <+: full.load
  record : ((recorded s.vault).filter fun r => r.2 = "").map Prod.fst = s.committed.map (·.tag)

theorem Inv.start (full : Journal) : Inv full {} := ⟨List.nil_prefix, rfl⟩

theorem Inv.once (h : Inv full s) : (s.committed.map (·.tag)).Nodup := (load_nodup full).sublist (h.begins.map _).sublist

theorem Inv.ordered (h : Inv full s) : (s.committed.map (·.idx)).Pairwise (· ≤ ·) :=
  (load_ordered full).sublist (h.begins.map _).sublist

theorem Inv.mem_tags (h : Inv full s) (he : e ∈ full.load) : e.tag ∈ s.committed.map (·.tag) ↔ e ∈ s.committed := by
  constructor
  · intro htag
    obtain ⟨e', he', hsame⟩ := List.mem_map.1 htag
    rwa [← List.inj_on_of_nodup_map (load_nodup full) (h.begins.subset he') he hsame]
  · exact List.mem_map_of_mem

theorem Inv.recorded_iff (h : Inv full s) : (e.tag, "") ∈ recorded s.vault ↔ e.tag ∈ s.committed.map (·.tag) := by
  rw [← h.record]
  simp

theorem Inv.unapplied_eq (h : Inv full s) (hversion : full.Extends J) (hfree : Untaken J s) :
    unapplied J s = J.load.filter fun e => e.tag ∉ s.committed.map (·.tag) := by
  rw [CoreMigrations.unapplied_eq]
  refine List.filter_congr fun e he => decide_eq_decide.2 (not_congr ?_)
  rw [← h.recorded_iff]
  constructor
  · intro htag
    obtain ⟨⟨name, owner⟩, hrow, rfl⟩ := List.mem_map.1 htag
    by_cases howner : owner = ""
    · rwa [← howner]
    · by_contra hnot
      refine hfree e (mem_load.1 he) (fun hdone => hnot ?_) ⟨owner, howner⟩ hrow
      exact h.recorded_iff.2 ((h.mem_tags (hversion.subset he)).2 hdone)
  · exact fun hrow => List.mem_map_of_mem (f := Prod.fst) hrow

theorem Inv.append_unapplied (h : Inv full s) (hversion : full.Extends J) (hfree : Untaken J s) :
    unapplied J s = [] ∨ s.committed ++ unapplied J s = J.load := by
  rw [h.unapplied_eq hversion hfree]
  rcases List.prefix_or_prefix_of_prefix h.begins hversion with ⟨rest, hrest⟩ | hdone
  · refine .inr ?_
    have hnodup := load_nodup J
    rw [← hrest, List.map_append, List.nodup_append] at hnodup
    have hold : s.committed.filter (fun e => e.tag ∉ s.committed.map (·.tag)) = [] :=
      List.filter_eq_nil_iff.2 fun e he => by simpa using ⟨e, he, rfl⟩
    have hnew : rest.filter (fun e => e.tag ∉ s.committed.map (·.tag)) = rest :=
      List.filter_eq_self.2 fun e he => decide_eq_true fun hc => hnodup.2.2 _ hc _ (List.mem_map_of_mem he) rfl
    rw [← hrest, List.filter_append, hold, hnew, List.nil_append]
  · exact .inl (List.filter_eq_nil_iff.2 fun e he => by simpa using ⟨e, hdone.subset he, rfl⟩)

/-- A call of the core commits entries of its journal in their order, the rest of them if it succeeds. -/
theorem Inv.core (h : Inv full s) (hversion : full.Extends J) (hfree : Untaken J s)
    (hkeep : ∀ e ∈ J.entries, KeepsRecord e.migration) (lives : Nat) :
    Inv full (applyCoreMigrations J lives s).1 ∧
      ((applyCoreMigrations J lives s).2 = true → ∀ e ∈ J.entries, e ∈ (applyCoreMigrations J lives s).1.committed) ∧
      ∃ done, (applyCoreMigrations J lives s).1.committed = s.committed ++ done ∧
        (done.map (·.migration)).foldlM applySingleMigration s.vault = .ok (applyCoreMigrations J lives s).1.vault := by
  cases lives with
  | zero => exact ⟨h, (fun hok => by cases hok), [], (List.append_nil _).symm, rfl⟩
  | succ lives =>
    have hin : ∀ e ∈ unapplied J s, e ∈ J.entries := fun e he => mem_load.1 (List.mem_filter.1 he).1
    obtain ⟨done, rest, hes, hcommitted, hvault, hrecorded, hall⟩ :=
      runActions_commit (fun e he => hkeep e (hin e he)) lives s
    rw [applyCoreMigrations]
    refine ⟨⟨?_, ?_⟩, fun hok e he => ?_, done, hcommitted, hvault⟩
    · rw [hcommitted]
      rcases h.append_unapplied hversion hfree with hnil | hload
      · rw [hnil] at hes
        obtain ⟨rfl, -⟩ := List.append_eq_nil_iff.1 hes.symm
        rw [List.append_nil]
        exact h.begins
      · rw [hes, ← List.append_assoc] at hload
        exact (List.prefix_append _ rest).trans (hload ▸ hversion)
    · rw [hrecorded, hcommitted, List.filter_append, List.map_append, List.map_append, h.record]
      congr 1
      simp [List.filter_map, Function.comp_def]
    · have hdone : unapplied J s = done := by rw [hes, hall hok, List.append_nil]
      rw [hcommitted, ← hdone, h.unapplied_eq hversion hfree]
      by_cases hc : e ∈ s.committed
      · exact List.mem_append_left _ hc
      · have htag := mt (h.mem_tags (hversion.subset (mem_load.2 he))).1 hc
        exact List.mem_append_right _ (List.mem_filter.2 ⟨mem_load.2 he, decide_eq_true htag⟩)

theorem Inv.applies_all (h : Inv full s) (hversion : full.Extends J) (hkeep : ∀ e ∈ J.entries, KeepsRecord e.migration)
    (hok : (applyCoreMigrations J lives s).2 = true) :
    (∀ e ∈ J.entries, e ∈ (applyCoreMigrations J lives s).1.committed) ↔ Untaken J s := by
  constructor
  · intro hall e he hnot extensionId hrow
    cases lives with
    | zero => cases hok
    | succ lives =>
      have hkeep' : ∀ e ∈ unapplied J s, KeepsRecord e.migration := fun e he => hkeep e (mem_load.1 (List.mem_filter.1 he).1)
      obtain ⟨done, rest, hes, hcommitted, -⟩ := runActions_commit hkeep' lives s
      have hdone := hall e he
      rw [applyCoreMigrations, hcommitted] at hdone
      have hpending : e ∈ unapplied J s := hes ▸ List.mem_append_left rest ((List.mem_append.1 hdone).resolve_left hnot)
      rw [CoreMigrations.unapplied_eq] at hpending
      exact of_decide_eq_true (List.mem_filter.1 hpending).2 (List.mem_map_of_mem (f := Prod.fst) hrow)
  · exact fun hfree => (h.core hversion hfree hkeep lives).2.1 hok

theorem Inv.of_record (h : Inv full s) {s' : Site} (hcommitted : s'.committed = s.committed)
    (hrecord : (recorded s'.vault).filter (fun r => r.2 = "") = (recorded s.vault).filter fun r => r.2 = "") : Inv full s' :=
  ⟨hcommitted ▸ h.begins, by rw [hrecord, hcommitted, h.record]⟩

theorem Inv.register (h : Inv full s) (m : ExtensionMigration) : Inv full (CoreMigrations.register m s).1 := by
  unfold CoreMigrations.register
  split
  · exact h
  · split
    · exact h
    · exact h.of_record rfl rfl

theorem Inv.recordMigration (h : Inv full s) (m : ExtensionMigration) : Inv full (CoreMigrations.recordMigration m s).1 := by
  unfold CoreMigrations.recordMigration
  split
  · exact h
  · rename_i hthere
    refine h.of_record rfl ?_
    have hsome : (s.vault.table migrationsTable).isSome := Option.isSome_iff_ne_none.2 (by simpa using hthere)
    dsimp only
    rw [recorded_withRows hsome]
    split
    · rfl
    · rw [List.filter_append, List.filter_singleton, decide_eq_false m.extensionId.2]
      exact List.append_nil _

theorem Inv.applySynced (h : Inv full s) (extensions : List ExtensionId) {exec : Exec}
    (hexec : ∀ extensionId sql v, recorded (exec extensionId sql v).1 = recorded v) (lives : Nat) :
    Inv full (CoreMigrations.applySynced extensions exec lives s).1 := by
  refine runActions_inv (I := Inv full) (fun a ha s hs => ?_) h
  obtain ⟨m, -, ha⟩ := List.mem_flatMap.1 ha
  rcases List.mem_cons.1 ha with rfl | ha
  · exact hs.of_record rfl (by rw [executeMigration, hexec])
  · obtain rfl := List.mem_singleton.1 ha
    exact hs.recordMigration m

theorem Inv.registerMigrations (h : Inv full s) (extensionId : ExtensionId) (migrations : List (String × String)) {exec : Exec}
    (hexec : ∀ extensionId sql v, recorded (exec extensionId sql v).1 = recorded v) (lives : Nat) :
    Inv full (CoreMigrations.registerMigrations extensionId migrations exec lives s).1 := by
  have hstored : Inv full (runActions (migrations.map fun m => CoreMigrations.register ⟨extensionId, m.1, m.2⟩) lives s).1 := by
    refine runActions_inv (I := Inv full) (fun a ha s hs => ?_) h
    obtain ⟨m, -, rfl⟩ := List.mem_map.1 ha
    exact hs.register _
  unfold CoreMigrations.registerMigrations
  generalize runActions _ lives s = r at hstored
  obtain ⟨s', ok⟩ := r
  cases ok with
  | false => exact hstored
  | true => exact hstored.applySynced _ hexec _

/-! ## Runs -/

theorem Inv.step {ev : Event} (h : Inv full s) (hversion : ∀ J lives, ev = .core J lives → full.Extends J)
    (hev : Undisturbed s ev) : Inv full (CoreMigrations.step s ev) := by
  cases ev with
  | core J lives => exact (h.core (hversion J lives rfl) hev.1 hev.2 lives).1
  | registerMigrations extensionId migrations exec lives => exact h.registerMigrations extensionId migrations hev lives
  | arrive m => exact h.register m
  | applySynced extensions exec lives => exact h.applySynced extensions hev lives

theorem Inv.onceInOrder {ev : Event} (h : Inv full s) (hversion : ∀ J lives, ev = .core J lives → full.Extends J)
    (hev : Undisturbed s ev) : OnceInOrder s ev where
  once := (h.step hversion hev).once
  ordered := (h.step hversion hev).ordered
  complete := by
    rintro J lives rfl
    exact (h.core (hversion J lives rfl) hev.1 hev.2 lives).2.1
  undisturbed := by
    rintro J lives rfl
    exact (h.core (hversion J lives rfl) hev.1 hev.2 lives).2.2

/-- Whatever extensions register and synchronise, and wherever calls fail, the core's migrations are committed once and in the
order of the journal, as long as no tag of an entry to come is taken and no statement writes the record. -/
theorem core_migrations_once_in_order (full : Journal) (es : List Event)
    (hversions : ∀ J lives, Event.core J lives ∈ es → full.Extends J) (h : Guarded step Undisturbed {} es) :
    Guarded step OnceInOrder {} es := by
  have hversion : Guarded step (fun _ ev => ∀ J lives, ev = .core J lives → full.Extends J) {} es :=
    guarded_of_forall fun _ ev hev J lives hcore => hversions J lives (hcore ▸ hev)
  exact (hversion.and h).each (I := Inv full) (fun _ _ hs hG => hs.step hG.1 hG.2) (fun _ _ hs hG => hs.onceInOrder hG.1 hG.2)
    (.start full)

/-- After a run in which no call of the core met a taken tag, a call that succeeds has committed its whole journal exactly where
no tag to come is taken. -/
theorem applies_all_iff {es : List Event} (hversions : ∀ J lives, Event.core J lives ∈ es → full.Extends J)
    (h : Guarded step Undisturbed {} es) (hversion : full.Extends J) (hkeep : ∀ e ∈ J.entries, KeepsRecord e.migration)
    (hok : (applyCoreMigrations J lives (run step {} es)).2 = true) :
    (∀ e ∈ J.entries, e ∈ (applyCoreMigrations J lives (run step {} es)).1.committed) ↔ Untaken J (run step {} es) := by
  have hversion' : Guarded step (fun _ ev => ∀ J lives, ev = .core J lives → full.Extends J) {} es :=
    guarded_of_forall fun _ ev hev J lives hcore => hversions J lives (hcore ▸ hev)
  have hinv : Inv full (run step {} es) :=
    (hversion'.and h).inv (fun _ _ hs hG => hs.step hG.1 hG.2) (.start full)
  exact hinv.applies_all hversion hkeep hok

end

/-! ## A tag that is taken -/

def firstEntry : JournalEntry :=
  ⟨0, "0000_slippery_black_tom", [.createTable extensionMigrationsTable [⟨"id", true⟩, ⟨"migration_name", false⟩] false true,
    .createTable migrationsTable [⟨"id", true⟩, ⟨"migration_name", false⟩] false true]⟩

def nextEntry : JournalEntry := ⟨8, "0008_next", [.createTable "haex_next" [⟨"id", true⟩] false true]⟩

def firstJournal : Journal := ⟨[firstEntry], by decide⟩

def nextJournal : Journal := ⟨[firstEntry, nextEntry], by decide⟩

theorem keepsRecord_firstEntry : KeepsRecord firstEntry.migration := by
  refine keepsRecord_of_spares fun st hst => ?_
  rcases List.mem_cons.1 hst with rfl | hst
  · trivial
  · cases List.mem_singleton.1 hst
    trivial

theorem keepsRecord_nextEntry : KeepsRecord nextEntry.migration := by
  refine keepsRecord_of_spares fun st hst => ?_
  cases List.mem_singleton.1 hst
  trivial

theorem keepsRecord_nextJournal : ∀ e ∈ nextJournal.entries, KeepsRecord e.migration := by
  intro e he
  rcases List.mem_cons.1 he with rfl | he
  · exact keepsRecord_firstEntry
  · exact List.mem_singleton.1 he ▸ keepsRecord_nextEntry

theorem undisturbed_first : Undisturbed {} (.core firstJournal 5) := by
  refine ⟨fun e _ _ extensionId hrow => ?_, fun e he => ?_⟩
  · cases hrow
  · obtain rfl := List.mem_singleton.1 he
    exact keepsRecord_firstEntry

theorem core_migrations_once_in_order_update :
    (∀ J lives, Event.core J lives ∈ [Event.core firstJournal 5, .core nextJournal 5] → nextJournal.Extends J) ∧
      Guarded step OnceInOrder {} [.core firstJournal 5, .core nextJournal 5] := by
  have hversions : ∀ J lives, Event.core J lives ∈ [Event.core firstJournal 5, .core nextJournal 5] → nextJournal.Extends J := by
    intro J lives hJ
    rcases List.mem_cons.1 hJ with hJ | hJ
    · cases hJ
      exact ⟨[nextEntry], rfl⟩
    · cases List.mem_singleton.1 hJ
      exact List.prefix_refl _
  refine ⟨hversions, core_migrations_once_in_order nextJournal _ hversions
    ⟨undisturbed_first, ⟨fun e he hnot extensionId hrow => ?_, keepsRecord_nextJournal⟩, trivial⟩⟩
  have hrecorded : recorded (step {} (.core firstJournal 5)).vault = [("0000_slippery_black_tom", "")] := rfl
  rw [hrecorded] at hrow
  exact extensionId.2 (congrArg Prod.snd (List.mem_singleton.1 hrow))

/-- An extension takes the tag of the entry that a later version brings. -/
def takenTag : List Event :=
  [.core firstJournal 5, .registerMigrations ⟨"x", by decide⟩ [("0008_next", "")] (fun _ _ v => (v, true)) 5]

theorem applies_all_iff_taken :
    (∀ e ∈ nextJournal.entries, e ∈ (applyCoreMigrations nextJournal 5 (run step {} takenTag)).1.committed) ↔
      Untaken nextJournal (run step {} takenTag) := by
  refine applies_all_iff (fun J lives hJ => (?_ : nextJournal.Extends J)) ⟨undisturbed_first, fun _ _ _ => rfl, trivial⟩
    (List.prefix_refl _) keepsRecord_nextJournal rfl
  rcases List.mem_cons.1 hJ with hJ | hJ
  · cases hJ
    exact ⟨[nextEntry], rfl⟩
  · cases List.mem_singleton.1 hJ

/-- An extension has registered a migration under the tag of an entry of a later version, and that entry is passed over. -/
theorem taken_tag_skipped :
    ¬Guarded step OnceInOrder {} [.core firstJournal 5,
      .registerMigrations ⟨"x", by decide⟩ [("0008_next", "")] (fun _ _ v => (v, true)) 5, .core nextJournal 5] := by
  rintro ⟨-, -, h, -⟩
  have hdone := h.complete nextJournal 5 rfl rfl nextEntry (List.mem_cons_of_mem _ List.mem_cons_self)
  have htag := List.mem_map_of_mem (f := fun e : JournalEntry => e.tag) hdone
  exact absurd htag (by decide)

end HaexVault.Schema.CoreMigrations
