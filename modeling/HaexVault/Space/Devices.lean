import HaexVault.Space.Schema
/-!
# `haex_devices` (`database/migrations`)

The vault's table of devices, its own and the stubs of those of other members: the id is the
primary key, and no two devices share an endpoint. `INSERT OR IGNORE` passes a row over that
breaks a constraint, and an `UPDATE` that does fails. Both keep the constraints, which every
value of `Devices` carries.
-/

namespace HaexVault.Space

open HaexVault.Crdt HaexVault.Lib

/-! ## Tables whose rows break no `UNIQUE` constraint -/

theorem collides_comm (columns : List String) (a b : Row) : collides columns a b = collides columns b a := by
  rw [Bool.eq_iff_iff]
  simp only [collides, Bool.and_eq_true, decide_eq_true_eq, List.all_eq_true]
  constructor
  · rintro ⟨hne, h⟩
    exact ⟨hne, fun c hc => ⟨(h c hc).2 ▸ (h c hc).1, (h c hc).2.symm⟩⟩
  · rintro ⟨hne, h⟩
    exact ⟨hne, fun c hc => ⟨(h c hc).2 ▸ (h c hc).1, (h c hc).2.symm⟩⟩

theorem collides_singleton {c : String} {a b : Row} : collides [c] a b = true ↔ a c ≠ .null ∧ a c = b c := by
  simp [collides]

theorem violation_eq_none {t : Table} {others : List Row} {r : Row} :
    t.violation others r = none ↔
      (∀ col ∈ t.columns, col.notNull = true → r col.name ≠ .null) ∧ t.check r = true ∧
        ∀ cols ∈ t.pkNames :: t.uniques, ∀ o ∈ others, collides cols r o = false := by
  unfold Table.violation
  constructor
  · intro h
    split at h
    · cases h
    · rename_i hnull
      split at h
      · rename_i hcheck
        refine ⟨fun col hcol hn he => ?_, hcheck, fun cols hcols o ho => ?_⟩
        · have hfound := List.find?_eq_none.1 hnull col hcol
          simp [hn, he] at hfound
        · have hnone := List.find?_eq_none.1 (Option.map_eq_none_iff.1 h) cols hcols
          rw [List.any_eq_true] at hnone
          exact Bool.eq_false_iff.2 fun hc => hnone ⟨o, ho, hc⟩
      · cases h
  · rintro ⟨hnull, hcheck, hunique⟩
    have hfirst : (t.columns.find? fun c => c.notNull && r c.name = .null) = none := by
      refine List.find?_eq_none.2 fun col hcol hc => ?_
      rw [Bool.and_eq_true, decide_eq_true_eq] at hc
      exact hnull col hcol hc.1 hc.2
    rw [hfirst]
    dsimp only
    rw [if_pos hcheck, Option.map_eq_none_iff]
    refine List.find?_eq_none.2 fun cols hcols hany => ?_
    obtain ⟨o, ho, hc⟩ := List.any_eq_true.1 hany
    rw [hunique cols hcols o ho] at hc
    cases hc

def Unique (t : Table) : Prop := t.rows.Pairwise fun a b => ∀ cols ∈ t.pkNames :: t.uniques, collides cols a b = false

instance (t : Table) : Decidable (Unique t) := inferInstanceAs (Decidable (List.Pairwise _ _))

theorem Unique.insert {t t' : Table} (ht : Unique t) {pairs : List (String × SqlValue)} (h : t.insert pairs = .ok t') :
    Unique t' := by
  obtain ⟨-, -, hfits⟩ := violation_eq_none.1 (insert_violation h)
  obtain rfl := Table.insert_eq h
  refine List.pairwise_append.2 ⟨ht, List.pairwise_singleton _ _, fun a ha b hb cols hcols => ?_⟩
  rw [List.mem_singleton.1 hb, collides_comm]
  exact hfits cols hcols a ha

theorem Unique.update {t t' : Table} (ht : Unique t) (hkeys : (t.rows.map t.rowKey).Nodup) {k : List SqlValue}
    {sets : List (String × SqlValue)} (h : t.update k sets = .ok t') : Unique t' := by
  have hfits : ∀ r ∈ t.rows, t.rowKey r = k → ∀ o ∈ t.rows, t.rowKey o ≠ k → ∀ cols ∈ t.pkNames :: t.uniques,
      collides cols (assign r sets) o = false := by
    intro r hr hk o ho hok cols hcols
    obtain ⟨-, -, hfits⟩ := violation_eq_none.1 (update_violation h hr hk)
    exact hfits cols hcols o (List.mem_filter.2 ⟨ho, by simpa using hok⟩)
  obtain rfl := Table.update_eq h
  have hdistinct : t.rows.Pairwise fun a b => t.rowKey a ≠ t.rowKey b := List.pairwise_map.1 hkeys
  refine List.pairwise_map.2 (List.Pairwise.imp_of_mem ?_ (List.Pairwise.and ht hdistinct))
  rintro a b ha hb ⟨hab, hne⟩ cols hcols
  by_cases hak : t.rowKey a = k
  · have hbk : t.rowKey b ≠ k := fun hbk => hne (hak.trans hbk.symm)
    simp only [hak, hbk, if_true, if_false]
    exact hfits a ha hak b hb hbk cols hcols
  · by_cases hbk : t.rowKey b = k
    · simp only [hak, hbk, if_true, if_false]
      rw [collides_comm]
      exact hfits b hb hbk a ha hak cols hcols
    · simp only [hak, hbk, if_false]
      exact hab cols hcols

theorem Unique.apart {t : Table} (ht : Unique t) {a b : Row} (ha : a ∈ t.rows) (hb : b ∈ t.rows) (hne : a ≠ b) {cols : List String}
    (hcols : cols ∈ t.pkNames :: t.uniques) : collides cols a b = false := by
  have hsymm : Std.Symm fun a b : Row => ∀ cols ∈ t.pkNames :: t.uniques, collides cols a b = false :=
    ⟨fun a b h cols hcols => (collides_comm cols b a).trans (h cols hcols)⟩
  exact List.Pairwise.forall ht ha hb hne cols hcols

theorem update_ok_iff {t : Table} {k : List SqlValue} {sets : List (String × SqlValue)} :
    (∃ t', t.update k sets = .ok t') ↔ ∀ r ∈ t.rows, t.rowKey r = k →
      t.violation (t.rows.filter fun r => t.rowKey r ≠ k) (assign r sets) = none := by
  constructor
  · rintro ⟨t', h⟩ r hr hk
    exact update_violation h hr hk
  · intro h
    unfold Table.update
    dsimp only
    rw [List.findSome?_eq_none_iff.2]
    · exact ⟨_, rfl⟩
    · intro r hr
      obtain ⟨hr, hk⟩ := List.mem_filter.1 hr
      exact h r hr (by simpa using hk)

/-! ## The devices -/

/-- `haex_devices`. The default of `created_at` stands as null. -/
def haexDevicesTable : Table where
  columns := [⟨"id", true, true, .null⟩, notNull "owner_did", nullable "device_id", notNull "endpoint_id",
    nullable "secret_key", notNull "name", notNull "platform", nullable "avatar", nullable "avatar_options",
    nullable "created_at", ⟨hlcTimestampColumn, false, false, .null⟩, ⟨columnHlcsColumn, false, true, .hlcs ∅⟩]
  uniques := [["device_id"], ["endpoint_id"]]

structure Devices where
  rows : List Row
  holds : Holds { haexDevicesTable with rows }
  unique : Unique { haexDevicesTable with rows }

namespace Devices

def table (t : Devices) : Table := { haexDevicesTable with rows := t.rows }

@[simp] theorem pkNames_table (t : Devices) : t.table.pkNames = ["id"] := rfl
@[simp] theorem rowKey_table (t : Devices) (d : Row) : t.table.rowKey d = [d "id"] := rfl

/-- The columns a device is told apart by. -/
theorem constraints_table (t : Devices) : t.table.pkNames :: t.table.uniques = [["id"], ["device_id"], ["endpoint_id"]] := rfl

theorem keyRequired (t : Devices) : KeyRequired t.table where
  ne_nil := by simp
  notNull c hc := by
    rw [pkNames_table, List.mem_singleton] at hc
    exact ⟨⟨"id", true, true, .null⟩, List.mem_cons_self, hc.symm, rfl⟩

theorem insert_rows {t : Devices} {t' : Table} {pairs : List (String × SqlValue)} (h : t.table.insert pairs = .ok t') :
    t' = { haexDevicesTable with rows := t'.rows } := by
  rw [Table.insert_eq h]
  rfl

theorem update_rows {t : Devices} {t' : Table} {k : List SqlValue} {sets : List (String × SqlValue)}
    (h : t.table.update k sets = .ok t') : t' = { haexDevicesTable with rows := t'.rows } := by
  rw [Table.update_eq h]
  rfl

def insertOrIgnore (t : Devices) (pairs : List (String × SqlValue)) : Devices :=
  match h : t.table.insert pairs with
  | .ok t' => ⟨t'.rows, insert_rows h ▸ t.holds.insert t.keyRequired h, insert_rows h ▸ t.unique.insert h⟩
  | .error _ => t

def find (t : Devices) (id : SqlValue) : Option Row := t.table.find [id]

def update (t : Devices) (id : SqlValue) (sets : List (String × SqlValue)) : Except Violation Devices :=
  match h : t.table.update [id] sets with
  | .ok t' =>
    .ok ⟨t'.rows, update_rows h ▸ t.holds.update t.keyRequired h, update_rows h ▸ t.unique.update t.holds.keys h⟩
  | .error v => .error v

variable {t : Devices}

theorem mem_find {id : SqlValue} {d : Row} (h : t.find id = some d) : d ∈ t.rows ∧ d "id" = id := by
  have hkey : t.table.rowKey d = [id] := Keyed.get_key h
  exact ⟨Keyed.get_mem h, by simpa using hkey⟩

theorem find_of_mem {d : Row} (h : d ∈ t.rows) : t.find (d "id") = some d := Keyed.get_of_mem t.holds.keys h

theorem find_eq_none {id : SqlValue} : t.find id = none ↔ ∀ d ∈ t.rows, d "id" ≠ id :=
  Keyed.get_eq_none.trans (forall₂_congr fun d _ => not_congr (by simp))

def requiredColumns : List String := ["id", "owner_did", "endpoint_id", "name", "platform"]

theorem notNull_of_required {r : Row} (hcells : ∀ c ∈ requiredColumns, r c ≠ .null) (hhlcs : r columnHlcsColumn ≠ .null) :
    ∀ col ∈ t.table.columns, col.notNull = true → r col.name ≠ .null := by
  intro col hcol hn
  simp only [table, haexDevicesTable, List.mem_cons, List.not_mem_nil, or_false] at hcol
  rcases hcol with rfl | rfl | rfl | rfl | rfl | rfl | rfl | rfl | rfl | rfl | rfl | rfl
  all_goals first | exact hcells _ (by decide) | exact hhlcs | cases hn

theorem insert_fits {pairs : List (String × SqlValue)}
    (hcells : ∀ c ∈ requiredColumns, ∃ x, pairs.lookup c = some x ∧ x ≠ .null)
    (hdevice : pairs.lookup "device_id" = none) (hhlcs : pairs.lookup columnHlcsColumn = none) :
    t.table.violation t.rows (t.table.freshRow pairs) = none ↔
      (∀ d ∈ t.rows, d "id" ≠ t.table.freshRow pairs "id") ∧ ∀ d ∈ t.rows, d "endpoint_id" ≠ t.table.freshRow pairs "endpoint_id" := by
  have hgiven : ∀ c ∈ requiredColumns, t.table.freshRow pairs c ≠ .null := by
    intro c hc
    obtain ⟨x, hx, hne⟩ := hcells c hc
    simpa [Table.freshRow, hx] using hne
  have hnull : t.table.freshRow pairs "device_id" = .null := by simp [Table.freshRow, hdevice]; rfl
  have hclocks : t.table.freshRow pairs columnHlcsColumn = .hlcs ∅ := by simp [Table.freshRow, hhlcs]; rfl
  rw [violation_eq_none]
  constructor
  · rintro ⟨-, -, hfits⟩
    refine ⟨fun d hd he => ?_, fun d hd he => ?_⟩
    · have hc := hfits ["id"] (by simp) d hd
      rw [collides_singleton.2 ⟨hgiven "id" (by decide), he.symm⟩] at hc
      cases hc
    · have hc := hfits ["endpoint_id"] (by simp [table, haexDevicesTable]) d hd
      rw [collides_singleton.2 ⟨hgiven "endpoint_id" (by decide), he.symm⟩] at hc
      cases hc
  · rintro ⟨hid, hendpoint⟩
    refine ⟨notNull_of_required hgiven (by simp [hclocks]), rfl, fun cols hcols d hd => Bool.eq_false_iff.2 fun hc => ?_⟩
    simp only [constraints_table, List.mem_cons, List.not_mem_nil, or_false] at hcols
    rcases hcols with rfl | rfl | rfl
    · exact hid d hd (collides_singleton.1 hc).2.symm
    · exact (collides_singleton.1 hc).1 hnull
    · exact hendpoint d hd (collides_singleton.1 hc).2.symm

theorem rows_insertOrIgnore (pairs : List (String × SqlValue)) :
    (t.insertOrIgnore pairs).rows =
      if t.table.violation t.rows (t.table.freshRow pairs) = none then t.rows ++ [t.table.freshRow pairs] else t.rows := by
  unfold insertOrIgnore
  split
  · rename_i t' ht'
    exact (congrArg Table.rows (Table.insert_eq ht')).trans (if_pos (insert_violation ht')).symm
  · rename_i v hv
    rw [if_neg]
    intro hnone
    unfold Table.insert at hv
    dsimp only at hv
    rw [show t.table.violation t.table.rows (t.table.freshRow pairs) = none from hnone] at hv
    cases hv

theorem mem_insertOrIgnore {pairs : List (String × SqlValue)} {d : Row} (h : d ∈ t.rows) : d ∈ (t.insertOrIgnore pairs).rows := by
  rw [rows_insertOrIgnore]
  split
  · exact List.mem_append_left _ h
  · exact h

theorem exists_insertOrIgnore (t : Devices) (pairs : List (String × SqlValue))
    (hcells : ∀ c ∈ requiredColumns, ∃ x, pairs.lookup c = some x ∧ x ≠ .null)
    (hdevice : pairs.lookup "device_id" = none) (hhlcs : pairs.lookup columnHlcsColumn = none) {id endpoint : SqlValue}
    (hid : pairs.lookup "id" = some id) (hendpoint : pairs.lookup "endpoint_id" = some endpoint) :
    (∃ d ∈ (t.insertOrIgnore pairs).rows, d "id" = id) ↔
      (∃ d ∈ t.rows, d "id" = id) ∨ ∀ d ∈ t.rows, d "endpoint_id" ≠ endpoint := by
  have hfits := insert_fits (t := t) hcells hdevice hhlcs
  have hfreshId : t.table.freshRow pairs "id" = id := by simp [Table.freshRow, hid]
  have hfreshEndpoint : t.table.freshRow pairs "endpoint_id" = endpoint := by simp [Table.freshRow, hendpoint]
  rw [hfreshId, hfreshEndpoint] at hfits
  by_cases hthere : ∃ d ∈ t.rows, d "id" = id
  · obtain ⟨d, hd, he⟩ := hthere
    exact iff_of_true ⟨d, mem_insertOrIgnore hd, he⟩ (.inl ⟨d, hd, he⟩)
  · have hnew : ∀ d ∈ t.rows, d "id" ≠ id := fun d hd he => hthere ⟨d, hd, he⟩
    rw [or_iff_right hthere, rows_insertOrIgnore]
    by_cases hfree : ∀ d ∈ t.rows, d "endpoint_id" ≠ endpoint
    · rw [if_pos (hfits.2 ⟨hnew, hfree⟩)]
      exact iff_of_true ⟨_, List.mem_append_right _ (List.mem_singleton.2 rfl), hfreshId⟩ hfree
    · rw [if_neg fun h => hfree (hfits.1 h).2]
      exact iff_of_false hthere hfree

theorem update_eq {t' : Devices} {id : SqlValue} {sets : List (String × SqlValue)} (h : t.update id sets = .ok t') :
    t'.rows = Keyed.modify t.table.rowKey t.rows [id] fun d => assign d sets := by
  unfold update at h
  split at h
  · rename_i t₁ ht₁
    cases h
    exact congrArg Table.rows (Table.update_eq ht₁)
  · cases h

theorem update_ok {id : SqlValue} {sets : List (String × SqlValue)} :
    (∃ t', t.update id sets = .ok t') ↔ ∃ t', t.table.update [id] sets = .ok t' := by
  unfold update
  constructor
  · rintro ⟨t', h⟩
    split at h
    · rename_i t₁ ht₁
      exact ⟨t₁, ht₁⟩
    · cases h
  · rintro ⟨t₁, ht₁⟩
    split
    · exact ⟨_, rfl⟩
    · rename_i v hv
      rw [ht₁] at hv
      cases hv

theorem update_fits {d : Row} {sets : List (String × SqlValue)} (hd : d ∈ t.rows)
    (hkept : ∀ p ∈ sets, p.1 ≠ "id" ∧ p.1 ≠ "device_id" ∧ p.1 ≠ columnHlcsColumn)
    (hnull : ∀ c ∈ requiredColumns, assign d sets c ≠ .null) :
    (∃ t', t.update (d "id") sets = .ok t') ↔
      ∀ o ∈ t.rows, o "id" ≠ d "id" → o "endpoint_id" ≠ assign d sets "endpoint_id" := by
  have hid : assign d sets "id" = d "id" := assign_of_not_mem d fun p hp => (hkept p hp).1
  have hown : assign d sets "device_id" = d "device_id" := assign_of_not_mem d fun p hp => (hkept p hp).2.1
  have hhlcs : assign d sets columnHlcsColumn ≠ .null := by
    rw [assign_of_not_mem d fun p hp => (hkept p hp).2.2]
    exact t.holds.notNull d hd ⟨columnHlcsColumn, false, true, .hlcs ∅⟩ (by simp [haexDevicesTable]) rfl
  have hothers : ∀ o, o ∈ t.table.rows.filter (fun r => t.table.rowKey r ≠ [d "id"]) ↔ o ∈ t.rows ∧ o "id" ≠ d "id" := by
    intro o
    rw [List.mem_filter, rowKey_table]
    simp [table]
  rw [update_ok, update_ok_iff]
  constructor
  · intro hfits o ho hne he
    obtain ⟨-, -, hnone⟩ := violation_eq_none.1 (hfits d hd rfl)
    have hc := hnone ["endpoint_id"] (by simp [table, haexDevicesTable]) o ((hothers o).2 ⟨ho, hne⟩)
    rw [collides_singleton.2 ⟨hnull "endpoint_id" (by decide), he.symm⟩] at hc
    cases hc
  · intro hfree r hr hk
    obtain rfl : r = d := by
      have hrd : r "id" = d "id" := by simpa using hk
      exact Option.some.inj ((find_of_mem hr).symm.trans (hrd ▸ find_of_mem hd))
    refine violation_eq_none.2 ⟨notNull_of_required hnull hhlcs, rfl, fun cols hcols o ho => Bool.eq_false_iff.2 fun hc => ?_⟩
    obtain ⟨ho, hne⟩ := (hothers o).1 ho
    simp only [constraints_table, List.mem_cons, List.not_mem_nil, or_false] at hcols
    rcases hcols with rfl | rfl | rfl
    · exact hne ((collides_singleton.1 hc).2.symm.trans hid)
    · -- the own device ids differ already
      have hrow := collides_singleton.1 hc
      rw [hown] at hrow
      have hapart : collides ["device_id"] r o = false :=
        t.unique.apart hr ho (fun he => hne (he ▸ rfl)) (by simp [haexDevicesTable])
      rw [collides_singleton.2 hrow] at hapart
      cases hapart
    · exact hfree o ho hne (collides_singleton.1 hc).2.symm

end Devices

end HaexVault.Space
