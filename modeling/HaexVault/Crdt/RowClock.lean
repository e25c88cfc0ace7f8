import HaexVault.Crdt.Batch
import HaexVault.Crdt.Trigger
import HaexVault.Lib.Runs
/-!
# The row clock

`haex_hlc` is meant to be the newest HLC of the row's `haex_column_hlcs`. Four
writers keep the pair: the insert trigger, the update trigger, and the `INSERT`
and `UPDATE` of the apply loop. The last one writes the newest HLC of the batch,
not of the row, so the pair stays in step only under the conditions of `Meets`.
-/

namespace HaexVault.Crdt

open HaexVault.Lib HaexVault.Lib.Lww HaexVault.Lib.Runs HaexVault.Lib.Steps

structure IsNewest (h : String) (m : ColumnHlcs) : Prop where
  attained : ∃ c h', m.lookup c = some h' ∧ compareHlcStrings h' h = .eq
  bound : ∀ c h', m.lookup c = some h' → hlcIsNewer h' h = false

/-- The row's `haex_hlc` is the newest of its column HLCs. -/
def RowClocked (r : Row) : Prop :=
  ∃ m h, r columnHlcsColumn = .hlcs m ∧ r hlcTimestampColumn = .text h ∧ IsNewest h m

theorem newer_eq_false {a b : String} : hlcIsNewer a b = false ↔ hlcKey a ≤ hlcKey b := by
  rw [← Bool.not_eq_true, hlcIsNewer_iff, not_lt]

theorem compare_eq_eq {a b : String} : compareHlcStrings a b = .eq ↔ hlcKey a = hlcKey b := by
  rw [compareHlcStrings_eq, compare_eq_iff_eq]

theorem IsNewest.clock_le {h : String} {m : ColumnHlcs} (hn : IsNewest h m) (c : String) :
    clockKey (m.lookup c) ≤ hlcKey h := by
  cases hl : m.lookup c with
  | none => exact hlcKey_empty_le h
  | some h' => exact newer_eq_false.1 (hn.bound c h' hl)

/-! ## What the loop over a row's changes leaves -/

def Applies (ex : List String) (clock : String → Option String) (ch : RemoteColumnChange) : Prop :=
  ch.columnName ∈ ex ∧ hlcIsNewer ch.hlcTimestamp ((clock ch.columnName).getD "") = true

/-- The clocks and the maximum the loop has gathered from `acc₀` over `cs`. -/
structure Gathered (ex : List String) (acc₀ : RowAcc) (cs : List RemoteColumnChange) (acc : RowAcc) : Prop where
  bound : ∀ u ∈ acc.columnsToUpdate, hlcKey u.2.2 ≤ hlcKey acc.maxHlcForRow
  max : acc.maxHlcForRow = acc₀.maxHlcForRow ∨ ∃ u ∈ acc.columnsToUpdate, u.2.2 = acc.maxHlcForRow
  recorded : ∀ u ∈ acc.columnsToUpdate, u.1 ∈ ex ∧ ∃ h, acc.columnHlcs.lookup u.1 = some h ∧ hlcKey u.2.2 ≤ hlcKey h
  clocks : ∀ c, acc.columnHlcs.lookup c = acc₀.columnHlcs.lookup c ∨
    ∃ ch ∈ cs, ch.columnName = c ∧ acc.columnHlcs.lookup c = some ch.hlcTimestamp ∧
      (c ∉ ex ∨ ∃ u ∈ acc.columnsToUpdate, u.2.2 = ch.hlcTimestamp)

section Loop
variable {ex : List String} {acc₀ : RowAcc}

theorem gathered_step {cs : List RemoteColumnChange} {acc : RowAcc} (h : Gathered ex acc₀ cs acc)
    (ch : RemoteColumnChange) : Gathered ex acc₀ (cs ++ [ch]) (stepChange ex acc ch) := by
  unfold stepChange
  split
  · rename_i hx
    -- an unknown column only moves its own clock
    refine ⟨h.bound, h.max, fun u hu => ?_, fun c => ?_⟩
    · obtain ⟨hux, h', hl, hle⟩ := h.recorded u hu
      have hne : u.1 ≠ ch.columnName := fun e => hx (e ▸ hux)
      exact ⟨hux, h', by simpa [AList.lookup_insert_ne hne] using hl, hle⟩
    · by_cases hc : c = ch.columnName
      · subst hc
        exact .inr ⟨ch, by simp, rfl, AList.lookup_insert _, .inl hx⟩
      · rw [AList.lookup_insert_ne hc]
        rcases h.clocks c with he | ⟨ch', hm, hcc, hl, hor⟩
        · exact .inl he
        · exact .inr ⟨ch', by simp [hm], hcc, hl, hor⟩
  · rename_i hx
    split
    · rename_i hn
      have hx := not_not.1 hx
      -- the running maximum grows over the change
      have hmax : hlcKey acc.maxHlcForRow ≤ hlcKey
            (if hlcIsNewer ch.hlcTimestamp acc.maxHlcForRow = true then ch.hlcTimestamp else acc.maxHlcForRow) ∧
          hlcKey ch.hlcTimestamp ≤ hlcKey
            (if hlcIsNewer ch.hlcTimestamp acc.maxHlcForRow = true then ch.hlcTimestamp else acc.maxHlcForRow) := by
        split
        · rename_i hm; exact ⟨(hlcIsNewer_iff.1 hm).le, le_rfl⟩
        · rename_i hm; exact ⟨le_rfl, newer_eq_false.1 (by simpa using hm)⟩
      refine ⟨fun u hu => ?_, ?_, fun u hu => ?_, fun c => ?_⟩
      · rcases List.mem_append.1 hu with hu | hu
        · exact (h.bound u hu).trans hmax.1
        · rw [List.mem_singleton.1 hu]; exact hmax.2
      · show (if _ then _ else _) = _ ∨ _
        split
        · exact .inr ⟨_, List.mem_append_right _ (List.mem_singleton.2 rfl), rfl⟩
        · rcases h.max with he | ⟨u, hu, he⟩
          · exact .inl he
          · exact .inr ⟨u, List.mem_append_left _ hu, he⟩
      · rcases List.mem_append.1 hu with hu | hu
        · obtain ⟨hux, h', hl, hle⟩ := h.recorded u hu
          refine ⟨hux, ?_⟩
          by_cases hc : u.1 = ch.columnName
          · refine ⟨ch.hlcTimestamp, by rw [hc]; exact AList.lookup_insert _, hle.trans ?_⟩
            rw [newer_iff, ← hc, hl] at hn
            exact hn.le
          · exact ⟨h', by simpa [AList.lookup_insert_ne hc] using hl, hle⟩
        · rw [List.mem_singleton.1 hu]
          exact ⟨hx, ch.hlcTimestamp, AList.lookup_insert _, le_rfl⟩
      · by_cases hc : c = ch.columnName
        · subst hc
          exact .inr ⟨ch, by simp, rfl, AList.lookup_insert _, .inr ⟨_, List.mem_append_right _ (List.mem_singleton.2 rfl), rfl⟩⟩
        · rw [AList.lookup_insert_ne hc]
          rcases h.clocks c with he | ⟨ch', hm, hcc, hl, hor⟩
          · exact .inl he
          · refine .inr ⟨ch', by simp [hm], hcc, hl, hor.imp_right ?_⟩
            rintro ⟨u, hu, he⟩
            exact ⟨u, List.mem_append_left _ hu, he⟩
    · refine ⟨h.bound, h.max, h.recorded, fun c => ?_⟩
      rcases h.clocks c with he | ⟨ch', hm, hcc, hl, hor⟩
      · exact .inl he
      · exact .inr ⟨ch', by simp [hm], hcc, hl, hor⟩

theorem foldl_gathered (hacc : acc₀.columnsToUpdate = []) (cs : List RemoteColumnChange) :
    Gathered ex acc₀ cs (cs.foldl (stepChange ex) acc₀) := by
  induction cs using List.reverseRecOn with
  | nil => exact ⟨by simp [hacc], .inl rfl, by simp [hacc], fun c => .inl rfl⟩
  | append_singleton cs ch ih =>
    rw [List.foldl_append]
    exact gathered_step ih ch

end Loop

section Collect
variable {ex : List String} {stored : ColumnHlcs} {cs : List RemoteColumnChange}

theorem collect_gathered (ex : List String) (stored : ColumnHlcs) (cs : List RemoteColumnChange) :
    Gathered ex ⟨stored, [], (cs.head?.map (·.hlcTimestamp)).getD "", []⟩ cs (collectChanges ex stored cs) :=
  foldl_gathered rfl cs

theorem applies_le_max {ch : RemoteColumnChange} (hch : ch ∈ cs) (ha : Applies ex stored.lookup ch) :
    hlcKey ch.hlcTimestamp ≤ hlcKey (collectChanges ex stored cs).maxHlcForRow := by
  have hg := collect_gathered ex stored cs
  have hx := knownIn_of_mem ha.1 cs
  have hlt : clockKey (stored.lookup ch.columnName) < clockKey (some ch.hlcTimestamp) := (newer_iff _ _ _).1 ha.2
  have hlook := collect_lookup SqlValue.null stored hx
  have hw : (ch.hlcTimestamp, jsonToRusqliteValue ch.decryptedValue) ∈ writesTo ch.columnName cs :=
    mem_writesTo.2 ⟨ch, hch, rfl, rfl, rfl⟩
  rcases foldl_write_cases clockKey (writesTo ch.columnName cs) (stored.lookup ch.columnName, SqlValue.null) with
    ⟨-, hle⟩ | ⟨w, -, he, hgt, hle⟩
  · exact absurd (hle _ hw) (not_le.2 hlt)
  · rw [he] at hlook
    rcases hg.clocks ch.columnName with hs | ⟨ch', -, -, hl, hor⟩
    · -- The clock moved, so it is not the stored one any more.
      have hs' : (collectChanges ex stored cs).columnHlcs.lookup ch.columnName = stored.lookup ch.columnName := hs
      rw [hlook] at hs'
      have : clockKey (stored.lookup ch.columnName) < clockKey (some w.1) := hgt
      rw [← hs'] at this
      exact absurd this (lt_irrefl _)
    · rw [hlook] at hl
      have hwe : w.1 = ch'.hlcTimestamp := Option.some_inj.1 hl
      rcases hor with hx' | ⟨u, hu, hue⟩
      · exact absurd ha.1 hx'
      · have := hg.bound u hu
        rw [hue, ← hwe] at this
        exact (hle _ hw).trans this

theorem collect_isNewest (hs : cs.Pairwise fun a b => hlcKey a.hlcTimestamp ≤ hlcKey b.hlcTimestamp)
    (hne : (collectChanges ex stored cs).columnsToUpdate ≠ [])
    (hold : ∀ c h, stored.lookup c = some h → ∃ ch ∈ cs, Applies ex stored.lookup ch ∧ hlcKey h ≤ hlcKey ch.hlcTimestamp)
    (hunk : ∀ u ∈ cs, u.columnName ∉ ex →
      ∃ ch ∈ cs, Applies ex stored.lookup ch ∧ hlcKey u.hlcTimestamp ≤ hlcKey ch.hlcTimestamp) :
    IsNewest (collectChanges ex stored cs).maxHlcForRow (collectChanges ex stored cs).columnHlcs := by
  have hg := collect_gathered ex stored cs
  have hbound : ∀ c h, (collectChanges ex stored cs).columnHlcs.lookup c = some h →
      hlcKey h ≤ hlcKey (collectChanges ex stored cs).maxHlcForRow := by
    intro c h hl
    rcases hg.clocks c with he | ⟨ch, hch, hcc, he, hor⟩
    · obtain ⟨ch, hch, ha, hle⟩ := hold c h (by rw [← hl]; exact he.symm)
      exact hle.trans (applies_le_max hch ha)
    · rw [hl, Option.some_inj] at he
      subst he
      rcases hor with hx | ⟨u, hu, hue⟩
      · obtain ⟨ch', hch', ha, hle⟩ := hunk ch hch (hcc ▸ hx)
        exact hle.trans (applies_le_max hch' ha)
      · rw [← hue]; exact hg.bound u hu
  -- Some gathered change carries the maximum: the loop starts at its oldest HLC.
  have hmax : ∃ u ∈ (collectChanges ex stored cs).columnsToUpdate,
      hlcKey (collectChanges ex stored cs).maxHlcForRow ≤ hlcKey u.2.2 := by
    rcases hg.max with he | ⟨u, hu, he⟩
    · obtain ⟨u, hu⟩ := List.exists_mem_of_ne_nil _ hne
      refine ⟨u, hu, ?_⟩
      obtain ⟨ch, hch, rfl, -⟩ := collect_known stored cs u hu
      cases cs with
      | nil => cases hch
      | cons first rest =>
        rw [he]
        rcases List.mem_cons.1 hch with rfl | hch
        · exact le_rfl
        · exact (List.pairwise_cons.1 hs).1 ch hch
    · exact ⟨u, hu, by rw [he]⟩
  refine ⟨?_, fun c h hl => newer_eq_false.2 (hbound c h hl)⟩
  obtain ⟨u, hu, hle⟩ := hmax
  obtain ⟨-, h, hl, hge⟩ := hg.recorded u hu
  exact ⟨u.1, h, hl, compare_eq_eq.2 (le_antisymm (hbound _ h hl) (hle.trans hge))⟩

end Collect

/-! ## One row of a remote batch -/

/-- The condition on a row and the changes a batch has for it: if one of them
applies, then one that applies is not older than the row's `haex_hlc`, and no
change of an unknown column is newer than all that apply. -/
def RemoteMeets (t : Table) (r : Option Row) (cs : List RemoteColumnChange) : Prop :=
  (∃ ch ∈ cs, Applies t.columnNames (fun c => (t.cellOf r c).1) ch) →
    (∀ r' h, r = some r' → r' hlcTimestampColumn = .text h →
      ∃ ch ∈ cs, Applies t.columnNames (fun c => (t.cellOf r c).1) ch ∧ hlcIsNewer h ch.hlcTimestamp = false) ∧
    ∀ u ∈ cs, u.columnName ∉ t.columnNames →
      ∃ ch ∈ cs, Applies t.columnNames (fun c => (t.cellOf r c).1) ch ∧
        hlcIsNewer u.hlcTimestamp ch.hlcTimestamp = false

def KeysNodup (t : Table) : Prop := (t.rows.map t.rowKey).Nodup

variable {t : Table}

theorem find_of_mem (hk : KeysNodup t) {r : Row} (hr : r ∈ t.rows) : t.find (t.rowKey r) = some r := by
  cases hf : t.find (t.rowKey r) with
  | none => exact absurd rfl (Keyed.get_eq_none.1 hf r hr)
  | some r' =>
    have := List.inj_on_of_nodup_map hk (Keyed.get_mem hf) hr (Keyed.get_key hf)
    rw [this]

structure ClockedTable (t : Table) : Prop where
  keys : KeysNodup t
  rows : ∀ r ∈ t.rows, RowClocked r

theorem collect_clocked {r : Option Row} {stored : ColumnHlcs} {cs : List RemoteColumnChange}
    (hst : currentHlcs r = .ok stored) (hr : ∀ r', r = some r' → RowClocked r') (hm : RemoteMeets t r cs)
    (hs : cs.Pairwise fun a b => hlcKey a.hlcTimestamp ≤ hlcKey b.hlcTimestamp)
    (hne : (collectChanges t.columnNames stored cs).columnsToUpdate ≠ []) :
    IsNewest (collectChanges t.columnNames stored cs).maxHlcForRow (collectChanges t.columnNames stored cs).columnHlcs ∧
      ∀ r' h, r = some r' → r' hlcTimestampColumn = .text h →
        hlcKey h ≤ hlcKey (collectChanges t.columnNames stored cs).maxHlcForRow := by
  have hlook : stored.lookup = fun c => (t.cellOf r c).1 := funext fun c => currentHlcs_lookup hst t c
  have hex : ∃ ch ∈ cs, Applies t.columnNames (fun c => (t.cellOf r c).1) ch := by
    have := mt (columnsToUpdate_eq_nil t stored cs).2 hne
    push Not at this
    obtain ⟨ch, hch, hx, hlt⟩ := this
    exact ⟨ch, hch, hx, by rw [← hlook]; exact hlcIsNewer_iff.2 hlt⟩
  obtain ⟨hrow, hunk⟩ := hm hex
  rw [← hlook] at hrow hunk
  refine ⟨collect_isNewest hs hne (fun c h hl => ?_) (fun u hu hx => ?_), fun r' h he hh => ?_⟩
  · cases r with
    | none => cases hst; cases hl
    | some r' =>
      obtain ⟨m, h', hm', hh', hnew⟩ := hr r' rfl
      simp only [currentHlcs, hm'] at hst
      cases hst
      obtain ⟨ch, hch, ha, hle⟩ := hrow r' h' rfl hh'
      exact ⟨ch, hch, ha, (newer_eq_false.1 (hnew.bound c h hl)).trans (newer_eq_false.1 hle)⟩
  · obtain ⟨ch, hch, ha, hle⟩ := hunk u hu hx
    exact ⟨ch, hch, ha, newer_eq_false.1 hle⟩
  · obtain ⟨ch, hch, ha, hle⟩ := hrow r' h he hh
    exact (newer_eq_false.1 hle).trans (applies_le_max hch ha)

/-- Every row is still there, and its `haex_hlc` is not older. -/
def Raised (t t' : Table) : Prop :=
  ∀ k r h, t.find k = some r → r hlcTimestampColumn = .text h →
    ∃ r' h', t'.find k = some r' ∧ r' hlcTimestampColumn = .text h' ∧ hlcKey h ≤ hlcKey h'

theorem Raised.refl (t : Table) : Raised t t := fun _ r h hr hh => ⟨r, h, hr, hh, le_rfl⟩

theorem Raised.trans {t t₁ t' : Table} (h₁ : Raised t t₁) (h₂ : Raised t₁ t') : Raised t t' := by
  intro k r h hr hh
  obtain ⟨r₁, h', hr₁, hh₁, hle₁⟩ := h₁ k r h hr hh
  obtain ⟨r', h'', hr', hh', hle'⟩ := h₂ k r₁ h' hr₁ hh₁
  exact ⟨r', h'', hr', hh', hle₁.trans hle'⟩

/-- What one turn of the apply loop writes keeps the row clocks in step. -/
theorem Wrote.clocked {t t' : Table} {m : RowPks} {stored : ColumnHlcs} {cs : List RemoteColumnChange} (hc : CrdtTable t)
    (hd : ∀ ch ∈ cs, DataName t ch.columnName) (hall : ∀ c ∈ t.pkNames, (m.lookup c).isSome) (hct : ClockedTable t)
    (hst : currentHlcs (t.find (pkKey t m)) = .ok stored) (hm : RemoteMeets t (t.find (pkKey t m)) cs)
    (hs : cs.Pairwise fun a b => hlcKey a.hlcTimestamp ≤ hlcKey b.hlcTimestamp)
    (h : Wrote t (pkKey t m) m (collectChanges t.columnNames stored cs) t') :
    ClockedTable t' ∧ Raised t t' ∧ ∀ k, k ≠ pkKey t m → t'.find k = t.find k := by
  have hrow : ∀ r', t.find (pkKey t m) = some r' → RowClocked r' := fun r' hr' => hct.rows r' (Keyed.get_mem hr')
  have hstep := collect_clocked hst hrow hm hs
  have hfind := (h.find hc hd hall).2
  have hsets := collect_sets hc hd stored
  have hkey := rowKey_fresh (collectChanges t.columnNames stored cs) hall
  have hout : ∀ {old r}, (collectChanges t.columnNames stored cs).columnsToUpdate ≠ [] →
      rowOutcome t m old (collectChanges t.columnNames stored cs) = some r →
      r columnHlcsColumn = .hlcs (collectChanges t.columnNames stored cs).columnHlcs ∧
        r hlcTimestampColumn = .text (collectChanges t.columnNames stored cs).maxHlcForRow :=
    fun hne => outcome_metadata hc hd hne
  generalize collectChanges t.columnNames stored cs = acc at h hstep hfind hsets hkey hout
  have hother : ∀ k, k ≠ pkKey t m → t'.find k = t.find k := by
    intro k hk
    rcases hfind with hf | ⟨rfl, -⟩
    · rw [hf k, if_neg hk]
    · rfl
  -- Whatever is written for the row, its clock is the batch's maximum.
  have hraised : acc.columnsToUpdate ≠ [] → Raised t t' := by
    intro hne k r h₁ hr hh
    by_cases hk : k = pkKey t m
    · rcases hfind with hf | ⟨rfl, -⟩
      · have ho : rowOutcome t m (some r) acc = some (assign r (acc.changed ++ acc.metadata)) := by
          simp [rowOutcome, hne]
        refine ⟨_, _, by rw [hf k, if_pos hk, hr, ho], (hout hne ho).2, ?_⟩
        exact (hstep hne).2 r h₁ (hk ▸ hr) hh
      · exact Raised.refl _ k r h₁ hr hh
    · exact ⟨r, h₁, by rw [hother k hk, hr], hh, le_rfl⟩
  cases h with
  | nothing hnil | conflict hne _ _ => exact ⟨hct, Raised.refl t, hother⟩
  | update hne hsome hup =>
    refine ⟨?_, hraised hne, hother⟩
    obtain rfl := Table.update_eq hup
    refine ⟨?_, fun r hr => ?_⟩
    · have := Keyed.map_key_modify t.rows (pkKey t m) (fun r => assign r (acc.changed ++ acc.metadata))
        (fun r hr => (t.rowKey_assign r _ hsets).trans hr)
      show ((Keyed.modify t.rowKey t.rows (pkKey t m) _).map t.rowKey).Nodup
      rw [this]
      exact hct.keys
    · obtain ⟨r₀, hr₀, rfl⟩ := List.mem_map.1 hr
      split
      · have ho : rowOutcome t m (some r₀) acc = some (assign r₀ (acc.changed ++ acc.metadata)) := by
          simp [rowOutcome, hne]
        exact ⟨_, _, (hout hne ho).1, (hout hne ho).2, (hstep hne).1⟩
      · exact hct.rows r₀ hr₀
  | insert hne hnone hin =>
    refine ⟨?_, hraised hne, hother⟩
    obtain rfl := Table.insert_eq hin
    refine ⟨?_, fun r hr => ?_⟩
    · show ((t.rows ++ [t.freshRow (insertPairs t m acc)]).map t.rowKey).Nodup
      rw [List.map_append, List.map_cons, List.map_nil, hkey, List.nodup_append]
      refine ⟨hct.keys, List.nodup_singleton _, fun a ha b hb hab => ?_⟩
      obtain ⟨r, hr, rfl⟩ := List.mem_map.1 ha
      rw [List.mem_singleton.1 hb] at hab
      exact Keyed.get_eq_none.1 hnone r hr hab
    · rcases List.mem_append.1 hr with hr | hr
      · exact hct.rows r hr
      · rw [List.mem_singleton.1 hr]
        have ho : rowOutcome t m none acc = some (t.freshRow (insertPairs t m acc)) := by simp [rowOutcome, hne]
        exact ⟨_, _, (hout hne ho).1, (hout hne ho).2, (hstep hne).1⟩

/-! ## A remote batch -/

variable {db db' : Database}

theorem writeRow_frame {name : String} {k : List SqlValue} {rowPks : RowPks}
    {ex : Bool} {acc : RowAcc} {cs : List RemoteColumnChange} (h : writeRow db name t k rowPks ex acc cs = .ok db') :
    (∀ n, n ≠ name → db'.tables n = db.tables n) ∧ db'.triggersEnabled = db.triggersEnabled ∧
      db'.lastPushHlcTimestamp = db.lastPushHlcTimestamp := by
  unfold writeRow at h
  split at h
  · split at h
    · cases h
      exact ⟨fun n hn => by simp [Database.setTable, hn], rfl, rfl⟩
    · cases h
  · split at h
    · cases h
      exact ⟨fun n hn => by simp [Database.setTable, hn], rfl, rfl⟩
    · cases h
    · cases h; exact ⟨fun _ _ => rfl, rfl, rfl⟩
    · cases h

variable {env : Env}

theorem applyRow_frame {g : (String × String) × List RemoteColumnChange} (h : applyRow env db g = .ok db') :
    (∀ n, n ≠ g.1.1 → db'.tables n = db.tables n) ∧ db'.triggersEnabled = db.triggersEnabled ∧
      db'.lastPushHlcTimestamp = db.lastPushHlcTimestamp := by
  unfold applyRow at h
  dsimp only at h
  split at h
  · cases h; exact ⟨fun _ _ => rfl, rfl, rfl⟩
  · rename_i t₀ _
    generalize (if columnHlcsColumn ∈ t₀.columnNames then (t₀, true) else ensureCrdtColumnsAndTriggers t₀) = u at h
    obtain ⟨t, upgraded⟩ := u
    have hset : ∀ n, n ≠ g.1.1 → (db.setTable g.1.1 t).tables n = db.tables n := fun n hn => by
      simp [Database.setTable, hn]
    dsimp only at h
    split at h
    · cases h; exact ⟨hset, rfl, rfl⟩
    · split at h
      · cases h
      · split at h
        · cases h
        · obtain ⟨stored, -, h⟩ := bind_eq_ok.1 h
          split at h
          · cases h; exact ⟨hset, rfl, rfl⟩
          · obtain ⟨htab, htr, hcur⟩ := writeRow_frame h
            exact ⟨fun n hn => (htab n hn).trans (hset n hn), htr, hcur⟩

structure Pruned (db db' : Database) : Prop where
  enabled : db'.triggersEnabled = db.triggersEnabled
  cursor : db'.lastPushHlcTimestamp = db.lastPushHlcTimestamp
  rows : ∀ name t, db.tables name = some t →
    ∃ rows, db'.tables name = some { t with rows := rows } ∧ rows.Sublist t.rows

theorem Pruned.refl (db : Database) : Pruned db db := ⟨rfl, rfl, fun _ t ht => ⟨t.rows, ht, List.Sublist.refl _⟩⟩

theorem Pruned.trans {db db₁ db' : Database} (h₁ : Pruned db db₁) (h₂ : Pruned db₁ db') : Pruned db db' := by
  refine ⟨h₂.enabled.trans h₁.enabled, h₂.cursor.trans h₁.cursor, fun name t ht => ?_⟩
  obtain ⟨rows₁, ht₁, hs₁⟩ := h₁.rows name t ht
  obtain ⟨rows, ht', hs'⟩ := h₂.rows name _ ht₁
  exact ⟨rows, ht', hs'.trans hs₁⟩

theorem propagateDelete_pruned (env : Env) (db : Database) (target pks hlc : String) :
    Pruned db (propagateDelete env db target pks hlc) := by
  unfold propagateDelete
  split
  · exact Pruned.refl db
  · split
    · rename_i cond t _ htarget
      dsimp only
      split
      · exact Pruned.refl db
      · generalize shouldPropagateDelete hlc _ = b
        cases b with
        | false => exact Pruned.refl db
        | true =>
          refine ⟨rfl, rfl, fun name t' ht' => ?_⟩
          by_cases hn : name = target
          · subst hn
            rw [htarget, Option.some_inj] at ht'
            subst ht'
            exact ⟨t.rows.filter fun r => !whereMatches cond r, by simp [Database.setTable, Table.delete],
              List.filter_sublist⟩
          · exact ⟨t'.rows, by simp [Database.setTable, hn, ht'], List.Sublist.refl _⟩
    · exact Pruned.refl db

theorem propagateDeletedRow_pruned {id : String} (h : propagateDeletedRow env db id = .ok db') : Pruned db db' := by
  unfold propagateDeletedRow at h
  split at h
  · cases h
  · split at h
    · cases h; exact Pruned.refl db
    · split at h
      · cases h; exact propagateDelete_pruned env _ _ _ _
      · cases h

theorem foldlM_pruned {ids : List String} (h : ids.foldlM (propagateDeletedRow env) db = .ok db') : Pruned db db' := by
  induction ids generalizing db with
  | nil => cases h; exact Pruned.refl _
  | cons id ids ih =>
    rw [List.foldlM_cons] at h
    obtain ⟨db₁, h₁, h₂⟩ := bind_eq_ok.1 h
    exact (propagateDeletedRow_pruned h₁).trans (ih h₂)

theorem applyRows_cursor {groups : List ((String × String) × List RemoteColumnChange)}
    (h : applyRows env db groups = .ok db') : db'.lastPushHlcTimestamp = db.lastPushHlcTimestamp := by
  induction groups generalizing db with
  | nil =>
    cases h
    rfl
  | cons g groups ih =>
    unfold applyRows at h
    rw [List.foldlM_cons] at h
    obtain ⟨db₁, h₁, h⟩ := bind_eq_ok.1 h
    exact (ih h).trans (applyRow_frame h₁).2.2

variable {changes : List RemoteColumnChange}

theorem apply_cursor {hash : Hashing}
    {info : Option (String × String)} (h : applyRemoteChangesToDb env hash db changes info = .ok db') :
    db'.lastPushHlcTimestamp = (setPushCursor db info).lastPushHlcTimestamp := by
  obtain ⟨db₁, db₂, h₁, h₂, rfl⟩ := apply_rows h
  have hcur₁ := applyRows_cursor h₁
  have hcur : db₂.lastPushHlcTimestamp = db.lastPushHlcTimestamp := (foldlM_pruned h₂).cursor.trans hcur₁
  show (setPushCursor db₂ info).lastPushHlcTimestamp = _
  unfold setPushCursor
  rcases info with _ | ⟨id, max⟩
  · exact hcur
  · dsimp only
    rw [hcur]
    split
    · exact hcur
    · rfl

theorem ClockedTable.sublist {rows : List Row} (h : ClockedTable t) (hs : rows.Sublist t.rows) :
    ClockedTable { t with rows := rows } :=
  ⟨h.keys.sublist (hs.map t.rowKey), fun r hr => h.rows r (hs.subset hr)⟩

structure SyncedTable (t : Table) : Prop extends CrdtTable t where
  names : t.columnNames.Nodup
  key : t.pkNames ≠ []
  triggers : t.hasTriggers = true

theorem SyncedTable.withRows (h : SyncedTable t) (rows : List Row) : SyncedTable { t with rows := rows } :=
  ⟨⟨h.hlcs_mem, h.pk_hlcs, h.pk_hlc⟩, h.names, h.key, h.triggers⟩

theorem SyncedTable.tracked (h : SyncedTable t) {c : String} (hc : c ∈ t.colsToTrack) : DataName t c := by
  obtain ⟨col, hcol, rfl⟩ := List.mem_map.1 hc
  obtain ⟨hmem, hcond⟩ := List.mem_filter.1 hcol
  simp only [Bool.and_eq_true, Bool.not_eq_true', decide_eq_true_eq] at hcond
  obtain ⟨hpk, hun⟩ := hcond
  refine ⟨fun hk => ?_, fun e => hun ?_, fun e => hun ?_⟩
  · obtain ⟨col', hcol', he⟩ := List.mem_map.1 hk
    obtain ⟨hmem', hpk'⟩ := List.mem_filter.1 hcol'
    rw [List.inj_on_of_nodup_map h.names hmem' hmem he, hpk] at hpk'
    cases hpk'
  · rw [e]; simp [untrackedNames]
  · rw [e]; simp [untrackedNames]

/-- The condition on a row and a local update of it: some column ends with the
statement's HLC, and no column keeps a newer one. -/
structure UpdateMeets (t : Table) (sets : Row → List (String × SqlValue)) (hlc : String) (r : Row) : Prop where
  keyed : t.keyed r = true
  stamped : (∃ c ∈ t.colsToTrack, stampUpdate sets hlc r c ≠ r c) ∨
    ∃ c h, rowClock r c = some h ∧ compareHlcStrings h hlc = .eq
  covered : ∀ c h, rowClock r c = some h → hlcIsNewer h hlc = true →
    c ∈ t.colsToTrack ∧ stampUpdate sets hlc r c ≠ r c

variable {sets : Row → List (String × SqlValue)}

inductive Event where
  | insert (table : String) (pairs : List (String × SqlValue)) (hlc : String)
  | update (table : String) (p : Row → Bool) (sets : Row → List (String × SqlValue)) (hlc : String)
  | remote (hash : Hashing) (changes : List RemoteColumnChange) (backendInfo : Option (String × String))

def exec (env : Env) (db : Database) (e : Event) : Database :=
  (match e with
    | .insert table pairs hlc => localInsert db table pairs hlc
    | .update table p sets hlc => localUpdate db table p sets hlc
    | .remote hash changes info => applyRemoteChangesToDb env hash db changes info).toOption.getD db

/-- Updates are of tracked columns; remote changes are of data columns, and their
`row_pks` names the whole key. -/
def WellFormed (env : Env) (name : String) (db : Database) : Event → Prop
  | .insert _ _ _ => True
  | .update table _ sets _ => table = name → ∀ t, db.tables name = some t → ∀ r, ∀ q ∈ sets r, q.1 ∈ t.colsToTrack
  | .remote _ changes _ => ∀ t, db.tables name = some t → ∀ ch ∈ changes, ch.tableName = name →
      Addresses env t ch.rowPks ∧ DataName t ch.columnName

/-- When an event keeps the row clocks of table `name` in step. -/
def Meets (env : Env) (name : String) (db : Database) : Event → Prop
  | .insert table pairs hlc => table = name → ∀ t, db.tables name = some t →
      t.colsToTrack ≠ [] ∧ t.keyed (t.freshRow (stampInsert pairs hlc)) = true
  | .update table p sets hlc => table = name → ∀ t, db.tables name = some t → ∀ r ∈ t.rows, p r = true →
      UpdateMeets t sets hlc r
  | .remote _ changes _ => ∀ t, db.tables name = some t →
      (∀ a ∈ changes, ∀ b ∈ changes, a.tableName = name → b.tableName = name →
        keyOf env t a.rowPks = keyOf env t b.rowPks → a.rowPks = b.rowPks) ∧
      ∀ a ∈ changes, a.tableName = name → RemoteMeets t (t.find (keyOf env t a.rowPks))
        (changes.filter fun ch => ch.tableName = name ∧ ch.rowPks = a.rowPks)

theorem RemoteMeets.congr {r : Option Row} {cs cs' : List RemoteColumnChange} (hm : ∀ ch, ch ∈ cs ↔ ch ∈ cs')
    (h : RemoteMeets t r cs) : RemoteMeets t r cs' := by
  simpa only [RemoteMeets, hm] using h

end HaexVault.Crdt
