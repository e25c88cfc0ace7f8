import HaexVault.Crdt.Convergence
/-!
# One batch against one call per change

A row's changes become one generated statement. Where that is an `INSERT` that repeats a column,
SQLite keeps the first occurrence, the oldest change, while the column's clock is the newest
(`batch_transparent_iff`).
-/

namespace HaexVault.Crdt

open HaexVault.Lib HaexVault.Lib.Lww

/-- The group has a change newer than no clock at all, so it inserts its row. -/
def inserts (g : (String × String) × List RemoteColumnChange) : Bool :=
  g.2.any fun ch => hlcIsNewer ch.hlcTimestamp ""

theorem inserts_iff {g : (String × String) × List RemoteColumnChange} :
    inserts g = true ↔ ∃ ch ∈ g.2, hlcKey "" < hlcKey ch.hlcTimestamp := by
  simp [inserts, List.any_eq_true, hlcIsNewer_iff]

/-! ## The cells of a row a batch inserts -/

section Insert
variable {env : Env} {t : Table} {c : String} {pre post : List ((String × String) × List RemoteColumnChange)}
  {g : (String × String) × List RemoteColumnChange}

theorem foldl_stepRow_none (hc : CrdtTable t) (hd : ∀ g' ∈ pre, ∀ ch ∈ g'.2, DataName t ch.columnName)
    (hpre : ∀ g' ∈ pre, inserts g' = false) : pre.foldl (stepRow env t) none = none := by
  rw [← Option.not_isSome_iff_eq_none, foldl_stepRow_isSome hc hd ⟨∅, rfl⟩]
  rintro (h | ⟨g', hg', ch, hch, -, hnew⟩)
  · cases h
  · have := hpre g' hg'
    rw [inserts_iff.2 ⟨ch, hch, hnew⟩] at this
    cases this

theorem foldl_write_none (hpre : ∀ g' ∈ pre, inserts g' = false) (v : SqlValue) :
    (pre.flatMap fun g' => writesTo c g'.2).foldl (write clockKey) (none, v) = (none, v) := by
  rw [foldl_write_eq_last, (accepted_eq_nil clockKey _ _).2 ?_]
  · rfl
  · intro w hw
    obtain ⟨g', hg', hw⟩ := List.mem_flatMap.1 hw
    obtain ⟨ch, hch, -, hh, -⟩ := mem_writesTo.1 hw
    by_contra hlt
    have := hpre g' hg'
    rw [inserts_iff.2 ⟨ch, hch, by rw [hh]; exact not_le.1 hlt⟩] at this
    cases this

/-- A cell of a row that group `g` inserts agrees with its register iff the first
accepted write of `g` carries the value of the last, or a later group overwrites it. -/
theorem inserted_cell_iff (hc : CrdtTable t)
    (hd : ∀ g' ∈ pre ++ g :: post, ∀ ch ∈ g'.2, DataName t ch.columnName ∧ ch.columnName ∈ t.columnNames)
    (hcd : DataName t c) (hpre : ∀ g' ∈ pre, inserts g' = false) (hg : inserts g = true) :
    t.cellOf ((pre ++ g :: post).foldl (stepRow env t) none) c =
        ((pre ++ g :: post).flatMap fun g' => writesTo c g'.2).foldl (write clockKey) (none, t.dflt c) ↔
      FirstIsLast (writesTo c g.2) ∨
      accepted clockKey ((writesTo c g.2).foldl (write clockKey) (none, t.dflt c))
        (post.flatMap fun g' => writesTo c g'.2) ≠ [] := by
  have hk : ∀ g' ∈ pre ++ g :: post, KnownIn t.columnNames c g'.2 := fun g' hg' ch hch e => e ▸ (hd g' hg' ch hch).2
  have hdg : ∀ ch ∈ g.2, DataName t ch.columnName := fun ch hch => (hd g (by simp) ch hch).1
  have hr₀ : Readable none := ⟨∅, rfl⟩
  have hr : Readable (stepRow env t none g) := stepRow_readable hc hdg hr₀
  have hsome : (stepRow env t none g).isSome := by
    rw [stepRow_isSome hr₀]
    obtain ⟨ch, hch, hnew⟩ := inserts_iff.1 hg
    exact .inr ⟨ch, hch, (hd g (by simp) ch hch).2, hnew⟩
  -- The batch: nothing, then the `INSERT`, then `UPDATE`s.
  rw [List.foldl_append, foldl_stepRow_none hc (fun g' hg' ch hch => (hd g' (by simp [hg']) ch hch).1) hpre,
    List.foldl_cons, foldl_stepRow_cell hc (fun g' hg' ch hch => (hd g' (by simp [hg']) ch hch).1) hr
      (fun g' hg' => hk g' (by simp [hg'])) hcd (fun h => by rw [h] at hsome; cases hsome)]
  rw [List.flatMap_append, List.foldl_append, foldl_write_none hpre, List.flatMap_cons, List.foldl_append]
  obtain ⟨stored, hst⟩ := hr₀
  have hst' := currentHlcs_lookup hst t
  have hcell : t.cellOf (stepRow env t none g) c = (((writesTo c g.2).foldl (write clockKey) (none, t.dflt c)).1,
      ((accepted clockKey (none, t.dflt c) (writesTo c g.2)).map (·.2)).head?.getD (t.dflt c)) := by
    rw [stepRow_eq hst]
    exact Prod.ext (outcome_clock hc hdg hst' (hk g (by simp))) (outcome_kept hst' (hk g (by simp)) hcd)
  have hval : ((writesTo c g.2).foldl (write clockKey) (none, t.dflt c)).2 =
      ((accepted clockKey (none, t.dflt c) (writesTo c g.2)).map (·.2)).getLast?.getD (t.dflt c) := by
    rw [foldl_write_eq_last, List.getLast?_map]
    cases (accepted clockKey (none, t.dflt c) (writesTo c g.2)).getLast? <;> rfl
  generalize (writesTo c g.2).foldl (write clockKey) (none, t.dflt c) = reg at hcell hval ⊢
  obtain ⟨o, v⟩ := reg
  rw [hcell, foldl_write_eq_iff, accepted_value clockKey o _ v]
  obtain rfl : v = _ := hval
  rw [FirstIsLast, accepted_value clockKey none SqlValue.null (t.dflt c)]
  cases accepted clockKey (none, t.dflt c) (writesTo c g.2) with
  | nil => simp
  | cons w l => simp [List.getLast?_cons]

theorem writesTo_sorted {cs : List RemoteColumnChange}
    (h : cs.Pairwise fun a b => hlcKey a.hlcTimestamp ≤ hlcKey b.hlcTimestamp) :
    (writesTo c cs).Pairwise fun a b => clockKey (some a.1) ≤ clockKey (some b.1) := by
  rw [writesTo, List.pairwise_map]
  exact h.filter _

end Insert

/-! ## The whole batch -/

/-- The `INSERT` of row `k` keeps the newest value of each cell: where the newest
change of a cell is in the inserting group, the oldest one there carries its value. -/
def KeepsNewest (env : Env) (hash : Hashing) (changes : List RemoteColumnChange) (t : Table) (name : String)
    (k : List SqlValue) : Prop :=
  ∀ g, (groupsOf env t name k (batchGroups hash changes)).find? inserts = some g →
    ∀ a ∈ g.2, ∀ b ∈ g.2, b.columnName = a.columnName → hlcIsNewer a.hlcTimestamp "" = true →
      (∀ ch ∈ g.2, ch.columnName = a.columnName → hlcIsNewer ch.hlcTimestamp "" = true →
        hlcIsNewer a.hlcTimestamp ch.hlcTimestamp = false) →
      (∀ ch ∈ changes, Names env t name k a.columnName ch → hlcIsNewer ch.hlcTimestamp b.hlcTimestamp = false) →
      jsonToRusqliteValue a.decryptedValue = jsonToRusqliteValue b.decryptedValue

structure SameContents (t t₁ t₂ : Table) : Prop where
  rows : ∀ k, (t₁.find k).isSome ↔ (t₂.find k).isSome
  values : ∀ k c, DataName t c → (t₁.cell k c).2 = (t₂.cell k c).2
  clocks : ∀ k c, (t₁.cell k c).1 = (t₂.cell k c).1

section Whole
variable {env : Env} {hash : Hashing} {db : Database} {changes : List RemoteColumnChange} {name c : String} {t : Table}
  {k : List SqlValue} {pre post : List ((String × String) × List RemoteColumnChange)}
  {g : (String × String) × List RemoteColumnChange}

def DifferentHlcs (env : Env) (db : Database) (changes : List RemoteColumnChange) : Prop :=
  ∀ a ∈ changes, ∀ b ∈ changes, SameCell env db a b →
    compareHlcStrings a.hlcTimestamp b.hlcTimestamp = .eq → a = b

theorem DifferentHlcs.eq_of_key (h : DifferentHlcs env db changes) (ht : db.tables name = some t)
    {w w' : String × SqlValue} (hw : Offers env t name k c {ch | ch ∈ changes} w)
    (hw' : Offers env t name k c {ch | ch ∈ changes} w') (hkey : clockKey (some w.1) = clockKey (some w'.1)) :
    w = w' := by
  obtain ⟨a, ha, b, hb, hab, heq, rfl, rfl⟩ := sameCell_of_offers ht hw hw' hkey
  rw [h a ha b hb hab heq]

theorem offers_of_group (hg : g ∈ groupsOf env t name k (batchGroups hash changes)) {w : String × SqlValue}
    (hw : w ∈ writesTo c g.2) : Offers env t name k c {ch | ch ∈ changes} w :=
  mem_batchWrites.1 (List.mem_flatMap.2 ⟨g, hg, hw⟩)

/-- The first and the last accepted write of a group are those of its oldest and
newest change. -/
theorem accepted_ends (hd : DifferentHlcs env db changes) (ht : db.tables name = some t)
    (hg : g ∈ groupsOf env t name k (batchGroups hash changes)) {a b : RemoteColumnChange} (ha : a ∈ g.2) (hb : b ∈ g.2)
    (hac : a.columnName = c) (hbc : b.columnName = c) (hpos : hlcKey "" < hlcKey a.hlcTimestamp)
    (hmin : ∀ ch ∈ g.2, ch.columnName = c → hlcKey "" < hlcKey ch.hlcTimestamp →
      hlcKey a.hlcTimestamp ≤ hlcKey ch.hlcTimestamp)
    (hmax : ∀ ch ∈ g.2, ch.columnName = c → hlcKey ch.hlcTimestamp ≤ hlcKey b.hlcTimestamp) (v : SqlValue) :
    (accepted clockKey (none, v) (writesTo c g.2)).head? = some (a.hlcTimestamp, jsonToRusqliteValue a.decryptedValue) ∧
    (accepted clockKey (none, v) (writesTo c g.2)).getLast? =
      some (b.hlcTimestamp, jsonToRusqliteValue b.decryptedValue) := by
  have hsort : (writesTo c g.2).Pairwise fun a b => clockKey (some a.1) ≤ clockKey (some b.1) :=
    writesTo_sorted (batchGroup_sorted (mem_groupsOf.1 hg).1)
  have hsub := accepted_subset clockKey (writesTo c g.2) (none, v)
  have hnew := accepted_newer clockKey (writesTo c g.2) (none, v)
  have hwa : (a.hlcTimestamp, jsonToRusqliteValue a.decryptedValue) ∈ writesTo c g.2 :=
    mem_writesTo.2 ⟨a, ha, hac, rfl, rfl⟩
  have hwb : (b.hlcTimestamp, jsonToRusqliteValue b.decryptedValue) ∈ writesTo c g.2 :=
    mem_writesTo.2 ⟨b, hb, hbc, rfl, rfl⟩
  cases hacc : accepted clockKey (none, v) (writesTo c g.2) with
  | nil => exact absurd ((accepted_eq_nil clockKey _ _).1 hacc _ hwa) (not_le.2 hpos)
  | cons w l =>
    have hhead : (accepted clockKey (none, v) (writesTo c g.2)).head? = some w := by rw [hacc]; rfl
    have hlast : (accepted clockKey (none, v) (writesTo c g.2)).getLast? =
        some ((w :: l).getLast (List.cons_ne_nil w l)) := by rw [hacc, List.getLast?_eq_some_getLast]
    have hw : w ∈ writesTo c g.2 := hsub (by rw [hacc]; simp)
    have hu : (w :: l).getLast (List.cons_ne_nil w l) ∈ writesTo c g.2 :=
      hsub (by rw [hacc]; exact List.getLast_mem _)
    rw [← hacc, hhead, hlast]
    constructor
    · refine congrArg some (hd.eq_of_key ht (offers_of_group hg hw) (offers_of_group hg hwa) ?_)
      obtain ⟨ch, hch, hcc, hh, -⟩ := mem_writesTo.1 hw
      refine le_antisymm (accepted_head?_min clockKey hsort hhead _ hwa hpos) ?_
      rw [← hh]
      exact hmin ch hch hcc (by rw [hh]; exact hnew w (by rw [hacc]; simp))
    · refine congrArg some (hd.eq_of_key ht (offers_of_group hg hu) (offers_of_group hg hwb) ?_)
      obtain ⟨ch, hch, hcc, hh, -⟩ := mem_writesTo.1 hu
      refine le_antisymm ?_ (accepted_getLast?_max clockKey hlast _ hwb)
      rw [← hh]
      exact hmax ch hch hcc

theorem newest_of_rest (hgs : groupsOf env t name k (batchGroups hash changes) = pre ++ g :: post)
    (hpre : ∀ g' ∈ pre, inserts g' = false) {o wa wb : String × SqlValue} (hpos : clockKey none < clockKey (some wa.1))
    (hmax : ∀ w ∈ writesTo c g.2, clockKey (some w.1) ≤ clockKey (some wb.1)) (hwa : wa ∈ writesTo c g.2)
    (hpost : ∀ w ∈ post.flatMap fun g' => writesTo c g'.2, clockKey (some w.1) ≤ clockKey (some wb.1))
    (ho : Offers env t name k c {ch | ch ∈ changes} o) : clockKey (some o.1) ≤ clockKey (some wb.1) := by
  have hw : o ∈ (groupsOf env t name k (batchGroups hash changes)).flatMap fun g => writesTo c g.2 :=
    mem_batchWrites.2 ho
  obtain ⟨g', hg', hw⟩ := List.mem_flatMap.1 hw
  rw [hgs, List.mem_append, List.mem_cons] at hg'
  rcases hg' with hg' | rfl | hg'
  · obtain ⟨ch, hch, -, hh, -⟩ := mem_writesTo.1 hw
    have hle : clockKey (some o.1) ≤ clockKey none := by
      by_contra hlt
      have := hpre g' hg'
      rw [inserts_iff.2 ⟨ch, hch, by rw [hh]; exact not_le.1 hlt⟩] at this
      cases this
    exact hle.trans (hpos.le.trans (hmax wa hwa))
  · exact hmax o hw
  · exact hpost o (List.mem_flatMap.2 ⟨g', hg', hw⟩)

theorem find_inserts (hgs : groupsOf env t name k (batchGroups hash changes) = pre ++ g :: post)
    (hpre : ∀ g' ∈ pre, inserts g' = false) (hg : inserts g = true) :
    (groupsOf env t name k (batchGroups hash changes)).find? inserts = some g := by
  rw [List.find?_eq_some_iff_append]
  exact ⟨hg, pre, post, hgs, fun g' hg' => by simp [hpre g' hg']⟩

theorem group_onRow (hmem : g ∈ groupsOf env t name k (batchGroups hash changes)) {ch : RemoteColumnChange}
    (hch : ch ∈ g.2) : ch ∈ changes ∧ OnRow env t name k ch := by
  obtain ⟨hbatch, hname, hkey⟩ := mem_groupsOf.1 hmem
  obtain ⟨hm, he⟩ := (mem_batchGroup hbatch).1 hch
  exact ⟨hm, by rw [← hname, ← he], by rw [← hkey, ← he]⟩

/-- If nothing behind the inserting group is newer, the condition makes the oldest and
the newest value it offers to the column the same. -/
theorem KeepsNewest.firstIsLast (h : KeepsNewest env hash changes t name k)
    (hgs : groupsOf env t name k (batchGroups hash changes) = pre ++ g :: post)
    (hpre : ∀ g' ∈ pre, inserts g' = false) (hg : inserts g = true)
    (hpost : accepted clockKey ((writesTo c g.2).foldl (write clockKey) (none, t.dflt c))
      (post.flatMap fun g' => writesTo c g'.2) = []) : FirstIsLast (writesTo c g.2) := by
  have hfind := find_inserts hgs hpre hg
  have hbatch : g ∈ batchGroups hash changes := (mem_groupsOf.1 (by rw [hgs]; simp)).1
  simp only [KeepsNewest, ← Bool.not_eq_true, hlcIsNewer_iff, not_lt] at h
  rw [accepted_eq_nil, foldl_write_eq_last, accepted_value clockKey none _ SqlValue.null] at hpost
  cases hh : (accepted clockKey (none, SqlValue.null) (writesTo c g.2)).head? with
  | none => rw [FirstIsLast, List.head?_eq_none_iff.1 hh]; rfl
  | some wa =>
  cases hl : (accepted clockKey (none, SqlValue.null) (writesTo c g.2)).getLast? with
  | none => rw [List.getLast?_eq_none_iff.1 hl] at hh; cases hh
  | some wb =>
  rw [hl] at hpost
  have hsub := accepted_subset clockKey (writesTo c g.2) (none, SqlValue.null)
  obtain ⟨a, ha, hac, ha₁, ha₂⟩ := mem_writesTo.1 (hsub (List.mem_of_head? hh))
  obtain ⟨b, hb, hbc, hb₁, hb₂⟩ := mem_writesTo.1 (hsub (List.mem_of_getLast? hl))
  have hapos := accepted_newer clockKey (writesTo c g.2) (none, SqlValue.null) wa (List.mem_of_head? hh)
  have hmax := accepted_getLast?_max clockKey hl
  have hsort : (writesTo c g.2).Pairwise fun a b => clockKey (some a.1) ≤ clockKey (some b.1) :=
    writesTo_sorted (batchGroup_sorted hbatch)
  have hmin : ∀ ch ∈ g.2, ch.columnName = a.columnName → hlcKey "" < hlcKey ch.hlcTimestamp →
      hlcKey a.hlcTimestamp ≤ hlcKey ch.hlcTimestamp := by
    intro ch hch hcc hnew
    have hw : (ch.hlcTimestamp, jsonToRusqliteValue ch.decryptedValue) ∈ writesTo c g.2 :=
      mem_writesTo.2 ⟨ch, hch, hcc.trans hac, rfl, rfl⟩
    rw [ha₁]
    exact accepted_head?_min clockKey hsort hh _ hw hnew
  have hnewest : ∀ ch ∈ changes, Names env t name k a.columnName ch →
      hlcKey ch.hlcTimestamp ≤ hlcKey b.hlcTimestamp := by
    intro ch hch hn
    rw [hac] at hn
    rw [hb₁]
    exact newest_of_rest (o := (ch.hlcTimestamp, jsonToRusqliteValue ch.decryptedValue)) hgs hpre hapos hmax
      (hsub (List.mem_of_head? hh)) hpost ⟨ch, hch, hn, rfl⟩
  have hval := h g hfind a ha b hb (hbc.trans hac.symm) (by rw [ha₁]; exact hapos) hmin hnewest
  rw [FirstIsLast, List.head?_map, List.getLast?_map, hh, hl]
  exact congrArg some (ha₂.symm.trans (hval.trans hb₂))

theorem keepsNewest_iff (hd : DifferentHlcs env db changes) (ht : db.tables name = some t)
    (hdata : ∀ ch ∈ changes, ch.tableName = name → DataName t ch.columnName)
    (hgs : groupsOf env t name k (batchGroups hash changes) = pre ++ g :: post)
    (hpre : ∀ g' ∈ pre, inserts g' = false) (hg : inserts g = true) :
    KeepsNewest env hash changes t name k ↔
      ∀ c, DataName t c → FirstIsLast (writesTo c g.2) ∨
        accepted clockKey ((writesTo c g.2).foldl (write clockKey) (none, t.dflt c))
          (post.flatMap fun g' => writesTo c g'.2) ≠ [] := by
  have hmem : g ∈ groupsOf env t name k (batchGroups hash changes) := by rw [hgs]; simp
  constructor
  · intro h c _
    by_cases hpost : accepted clockKey ((writesTo c g.2).foldl (write clockKey) (none, t.dflt c))
        (post.flatMap fun g' => writesTo c g'.2) = []
    · exact .inl (h.firstIsLast hgs hpre hg hpost)
    · exact .inr hpost
  · simp only [KeepsNewest, ← Bool.not_eq_true, hlcIsNewer_iff, not_lt]
    intro h g' hg' a ha b hb hbc hapos hmin hmax
    obtain rfl : g = g' := by
      rw [find_inserts hgs hpre hg] at hg'
      exact Option.some_inj.1 hg'
    obtain ⟨hach, harow⟩ := group_onRow hmem ha
    have hends := accepted_ends hd ht hmem ha hb rfl hbc hapos hmin
      (fun ch hch hcc => hmax ch (group_onRow hmem hch).1 ⟨(group_onRow hmem hch).2, hcc⟩)
    rcases h a.columnName (hdata a hach harow.1) with hfil | hpost
    · rw [FirstIsLast, List.head?_map, List.getLast?_map, (hends .null).1, (hends .null).2] at hfil
      simpa using hfil
    · -- A later group would hold a change newer than the newest one.
      refine absurd ((accepted_eq_nil clockKey _ _).2 ?_) hpost
      intro w hw
      obtain ⟨g', hg', hw⟩ := List.mem_flatMap.1 hw
      obtain ⟨ch, hch, hn, rfl⟩ := offers_of_group (by rw [hgs]; simp [hg']) hw
      rw [foldl_write_eq_last, (hends _).2]
      exact hmax ch hch hn

theorem foldl_batchWrites (hd : DifferentHlcs env db changes) (ht : db.tables name = some t)
    {ws : List (String × SqlValue)} (hw : ∀ w, w ∈ ws ↔ Offers env t name k c {ch | ch ∈ changes} w)
    (r : Option String × SqlValue) :
    ((groupsOf env t name k (batchGroups hash changes)).flatMap fun g => writesTo c g.2).foldl (write clockKey) r =
      ws.foldl (write clockKey) r := by
  have hmem : ∀ w, w ∈ ((groupsOf env t name k (batchGroups hash changes)).flatMap fun g => writesTo c g.2) ↔ w ∈ ws :=
    fun w => mem_batchWrites.trans (hw w).symm
  have heq : ∀ w ∈ ((groupsOf env t name k (batchGroups hash changes)).flatMap fun g => writesTo c g.2),
      ∀ w' ∈ ((groupsOf env t name k (batchGroups hash changes)).flatMap fun g => writesTo c g.2),
        clockKey (some w.1) = clockKey (some w'.1) → w = w' :=
    fun w h w' h' hkey => hd.eq_of_key ht (mem_batchWrites.1 h) (mem_batchWrites.1 h') hkey
  refine Prod.ext ?_ ?_
  · exact foldl_write_congr_stamp clockKey r hmem fun w h w' h' hkey => by rw [heq w h w' h' hkey]
  · exact foldl_write_congr clockKey r hmem fun w h w' h' hkey => by rw [heq w h w' h' hkey]

theorem batched_absent_iff (hS : ∀ ch ∈ changes, Mergeable env db ch) (hd : DifferentHlcs env db changes)
    (ht : db.tables name = some t) {t' : Table} (hb : Batched env name (batchGroups hash changes) t t')
    (hk : t.find k = none) :
    (∀ c, DataName t c → t'.cell k c =
      ((groupsOf env t name k (batchGroups hash changes)).flatMap fun g => writesTo c g.2).foldl
        (write clockKey) (t.cell k c)) ↔ KeepsNewest env hash changes t name k := by
  have hcell : ∀ c, t'.cell k c = t.cellOf (t'.find k) c := fun c => by rw [Table.cell, hb.schema]; rfl
  have hnone : ∀ c, t.cell k c = (none, t.dflt c) := fun c => by rw [Table.cell, hk]; rfl
  have hdata : ∀ ch ∈ changes, ch.tableName = name → DataName t ch.columnName ∧ ch.columnName ∈ t.columnNames :=
    fun ch hch hn => ⟨((hS ch hch).regular.data ht hn).2, (hS ch hch).known t (hn ▸ ht)⟩
  have hreg := mergeable_data hS ht
  simp only [hcell, hnone, hb.find k, hk]
  cases hf : (groupsOf env t name k (batchGroups hash changes)).find? inserts with
  | none =>
    have hpre : ∀ g ∈ groupsOf env t name k (batchGroups hash changes), inserts g = false := by
      simpa [List.find?_eq_none] using hf
    refine iff_of_true (fun c hc => ?_) (fun g hg => by rw [hf] at hg; cases hg)
    rw [foldl_write_none hpre]
    by_cases hne : groupsOf env t name k (batchGroups hash changes) = []
    · rw [hne]; rfl
    · rw [foldl_stepRow_none (groupsOf_crdt hreg hne) (groupsOf_data hreg) hpre]; rfl
  | some g =>
    obtain ⟨hg, pre, post, hgs, hpre⟩ := List.find?_eq_some_iff_append.1 hf
    have hpre : ∀ g' ∈ pre, inserts g' = false := fun g' hg' => by simpa using hpre g' hg'
    have hne : groupsOf env t name k (batchGroups hash changes) ≠ [] := by rw [hgs]; simp
    have hall : ∀ g' ∈ pre ++ g :: post, ∀ ch ∈ g'.2, DataName t ch.columnName ∧ ch.columnName ∈ t.columnNames := by
      intro g' hg' ch hch
      obtain ⟨hm, hn, -⟩ := mem_groupsOf.1 (hgs ▸ hg')
      obtain ⟨hm, he⟩ := (mem_batchGroup hm).1 hch
      exact hdata ch hm (by rw [← hn, ← he])
    rw [keepsNewest_iff hd ht (fun ch hch hn => (hdata ch hch hn).1) hgs hpre hg, hgs]
    exact forall₂_congr fun c hc => inserted_cell_iff (groupsOf_crdt hreg hne) hall hc hpre hg

end Whole

/-- One call for the whole batch against one call per change, in any order, the
ascending one included. -/
theorem batch_transparent_iff {env : Env} {hash hash' : Hashing} {db db₁ db₂ : Database}
    {changes singles : List RemoteColumnChange} {info info' : Option (String × String)}
    (hS : ∀ ch ∈ changes, Mergeable env db ch) (hd : DifferentHlcs env db changes) (hperm : singles.Perm changes)
    (h₁ : applyRemoteChangesToDb env hash db changes info = .ok db₁)
    (h₂ : deliver env db (singles.map fun ch => ⟨hash', [ch], info'⟩) = .ok db₂)
    {name : String} {t : Table} (ht : db.tables name = some t) :
    ∃ t₁ t₂, db₁.tables name = some t₁ ∧ db₂.tables name = some t₂ ∧
      (SameContents t t₁ t₂ ↔ ∀ k, t.find k = none → KeepsNewest env hash changes t name k) := by
  have hreg := mergeable_data hS ht
  have hx := mergeable_known hS ht
  obtain ⟨t₁, ht₁, hb⟩ := mergeable_batched hS h₁ ht
  have hrec : received (singles.map fun ch => ⟨hash', [ch], info'⟩) = {ch | ch ∈ changes} := by
    ext ch
    simp [received, hperm.mem_iff]
  obtain ⟨t₂, ht₂, hm⟩ := deliver_merged (by rw [hrec]; exact hS)
    (fun d hd a ha b hb _ => by
      obtain ⟨ch, -, rfl⟩ := List.mem_map.1 hd
      rw [List.mem_singleton.1 ha, List.mem_singleton.1 hb]) h₂ ht
  rw [hrec] at hm
  have hcell : ∀ k c, DataName t c → t₂.cell k c =
      ((groupsOf env t name k (batchGroups hash changes)).flatMap fun g => writesTo c g.2).foldl
        (write clockKey) (t.cell k c) := by
    intro k c hc
    obtain ⟨ws, hw, -, he⟩ := hm.cells k c
    rw [he hc, foldl_batchWrites hd ht hw]
  have hclock : ∀ k c, (t₁.cell k c).1 = (t₂.cell k c).1 := by
    intro k c
    obtain ⟨ws, hw, he, -⟩ := hm.cells k c
    rw [he, batched_clock hreg hb (hx c), foldl_batchWrites hd ht hw]
  refine ⟨t₁, t₂, ht₁, ht₂, fun h k hk => ?_, fun h => ⟨fun k => ?_, fun k c hc => ?_, hclock⟩⟩
  · rw [← batched_absent_iff hS hd ht hb hk]
    intro c hc
    rw [← hcell k c hc]
    exact Prod.ext (hclock k c) (h.values k c hc)
  · rw [mergeable_rows hS ht hb, hm.rows k]
    rfl
  · rw [hcell k c hc]
    by_cases hk : t.find k = none
    · rw [(batched_absent_iff hS hd ht hb hk).2 (h k hk) c hc]
    · rw [batched_cell hreg hb (hx c) hc fun h => absurd h hk]

theorem batch_transparent_iff_notes :
    ∃ db₁ db₂, applyRemoteChangesToDb notesEnv inOrder (notesDb (emptyTable ["id"] ["title", "body"]))
        [noteChange "title" "1/a" "x", noteChange "body" "2/a" "y"] none = .ok db₁ ∧
      deliver notesEnv (notesDb (emptyTable ["id"] ["title", "body"]))
        ([noteChange "title" "1/a" "x", noteChange "body" "2/a" "y"].map fun ch => ⟨inOrder, [ch], none⟩) = .ok db₂ ∧
      ∃ t₁ t₂, db₁.tables "notes" = some t₁ ∧ db₂.tables "notes" = some t₂ ∧
        SameContents (emptyTable ["id"] ["title", "body"]) t₁ t₂ := by
  obtain ⟨db₁, h₁⟩ : ∃ db, applyRemoteChangesToDb notesEnv inOrder (notesDb (emptyTable ["id"] ["title", "body"]))
      [noteChange "title" "1/a" "x", noteChange "body" "2/a" "y"] none = .ok db := exists_ok (by decide)
  obtain ⟨db₂, h₂⟩ : ∃ db, deliver notesEnv (notesDb (emptyTable ["id"] ["title", "body"]))
      ([noteChange "title" "1/a" "x", noteChange "body" "2/a" "y"].map fun ch => ⟨inOrder, [ch], none⟩) = .ok db :=
    exists_ok (by decide)
  have hcol : ∀ a ∈ [noteChange "title" "1/a" "x", noteChange "body" "2/a" "y"],
      ∀ b ∈ [noteChange "title" "1/a" "x", noteChange "body" "2/a" "y"], b.columnName = a.columnName → a = b := by
    decide
  obtain ⟨t₁, t₂, ht₁, ht₂, hiff⟩ := batch_transparent_iff
    (fun ch hch => by
      rcases List.mem_cons.1 hch with rfl | hch
      · exact noteChange_mergeable _ _ (.inl rfl)
      · rw [List.mem_singleton.1 hch]; exact noteChange_mergeable _ _ (.inr rfl))
    (fun a ha b hb hab _ => hcol a ha b hb hab.choose_spec.2.2) (List.Perm.refl _) h₁ h₂
    (show (notesDb (emptyTable ["id"] ["title", "body"])).tables "notes" = some _ from rfl)
  refine ⟨db₁, db₂, h₁, h₂, t₁, t₂, ht₁, ht₂, hiff.2 fun k _ g hg a ha b hb hab _ _ _ => ?_⟩
  have hm := (mem_groupsOf.1 (List.mem_of_find?_eq_some hg)).1
  rw [hcol a ((mem_batchGroup hm).1 ha).1 b ((mem_batchGroup hm).1 hb).1 hab]

/-- Two changes of one cell of a row that is not there yet: the batch keeps the
older value under the newer clock. -/
theorem batch_keeps_oldest :
    ((notesAfter (notesDb (emptyTable ["id"] ["title"])) [[noteChange "title" "1/a" "x", noteChange "title" "2/a" "y"]]).map
      fun t => t.cell [.text "a"] "title") = some (some "2/a", .text "x") ∧
    ((notesAfter (notesDb (emptyTable ["id"] ["title"])) [[noteChange "title" "1/a" "x"], [noteChange "title" "2/a" "y"]]).map
      fun t => t.cell [.text "a"] "title") = some (some "2/a", .text "y") := by
  constructor <;> decide

end HaexVault.Crdt
