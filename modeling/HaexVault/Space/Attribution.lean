import HaexVault.Space.InboundSync
/-!
# Attribution (`space_delivery/local/inbound_sync/validate.rs`)

A push that passes `validateAndAttribute` loses the `authored_by_did` changes its sender put in,
and gets one for each row that is left: the audience of the sender's UCAN, at the newest HLC of
the row (`attribution_exact`).
-/

namespace HaexVault.Space

open HaexVault.Crdt HaexVault.Lib.Steps

def LocalColumnChange.Foreign (spaceId : String) (c : LocalColumnChange) : Prop :=
  isSpaceScopedTable c.tableName = false ∨ c.columnName = "space_id" ∧ c.value ≠ .string spaceId

/-- One change for each row of `stripped`: the audience as the author, at the newest HLC of the row. -/
structure Attributes (audience : String) (stripped added : List LocalColumnChange) : Prop where
  rows : ∀ row, row ∈ added.map (·.row) ↔ ∃ c ∈ stripped, c.row = row
  once : (added.map (·.row)).Nodup
  author : ∀ a ∈ added, a.columnName = "authored_by_did" ∧ a.value = .string audience
  newest : ∀ a ∈ added, (∃ c ∈ stripped, c.row = a.row ∧ c.hlcTimestamp = a.hlcTimestamp ∧ c.deviceId = a.deviceId) ∧
    ∀ c ∈ stripped, c.row = a.row → hlcIsNewer c.hlcTimestamp a.hlcTimestamp = false

/-! ## The newest stamp -/

def takeNewer (stamp : String × String) (c : LocalColumnChange) : String × String :=
  if hlcIsNewer c.hlcTimestamp stamp.1 then (c.hlcTimestamp, c.deviceId) else stamp

theorem foldl_takeNewer (cs : List LocalColumnChange) (stamp : String × String) :
    (cs.foldl takeNewer stamp = stamp ∨ ∃ c ∈ cs, (c.hlcTimestamp, c.deviceId) = cs.foldl takeNewer stamp) ∧
      hlcKey stamp.1 ≤ hlcKey (cs.foldl takeNewer stamp).1 ∧
      ∀ c ∈ cs, hlcKey c.hlcTimestamp ≤ hlcKey (cs.foldl takeNewer stamp).1 := by
  induction cs generalizing stamp with
  | nil => exact ⟨.inl rfl, le_rfl, nofun⟩
  | cons c cs ih =>
    obtain ⟨hfrom, hstart, hall⟩ := ih (takeNewer stamp c)
    rw [List.foldl_cons]
    have hstep : (takeNewer stamp c = stamp ∨ (c.hlcTimestamp, c.deviceId) = takeNewer stamp c) ∧
        hlcKey stamp.1 ≤ hlcKey (takeNewer stamp c).1 ∧ hlcKey c.hlcTimestamp ≤ hlcKey (takeNewer stamp c).1 := by
      unfold takeNewer
      split_ifs with hnew
      · exact ⟨.inr rfl, (hlcIsNewer_iff.1 hnew).le, le_rfl⟩
      · exact ⟨.inl rfl, le_rfl, not_lt.1 fun hlt => hnew (hlcIsNewer_iff.2 hlt)⟩
    refine ⟨?_, hstep.2.1.trans hstart, fun d hd => ?_⟩
    · rcases hfrom with hfrom | ⟨d, hd, hfrom⟩
      · rw [hfrom]
        exact hstep.1.imp_right fun h => ⟨c, List.mem_cons_self, h⟩
      · exact .inr ⟨d, List.mem_cons_of_mem _ hd, hfrom⟩
    · rcases List.mem_cons.1 hd with rfl | hd
      · exact hstep.2.2.trans hstart
      · exact hall d hd

theorem newestStamp_spec {cs : List LocalColumnChange} (hne : cs ≠ []) :
    (∃ c ∈ cs, (c.hlcTimestamp, c.deviceId) = newestStamp cs) ∧
      ∀ c ∈ cs, hlcIsNewer c.hlcTimestamp (newestStamp cs).1 = false := by
  obtain ⟨c, cs, rfl⟩ := List.exists_cons_of_ne_nil hne
  obtain ⟨hfrom, hstart, hall⟩ := foldl_takeNewer cs (c.hlcTimestamp, c.deviceId)
  change _ ∨ ∃ d ∈ cs, _ = newestStamp (c :: cs) at hfrom
  change _ ≤ hlcKey (newestStamp (c :: cs)).1 at hstart
  change ∀ d ∈ cs, _ ≤ hlcKey (newestStamp (c :: cs)).1 at hall
  constructor
  · rcases hfrom with hfrom | ⟨d, hd, hfrom⟩
    · exact ⟨c, List.mem_cons_self, hfrom.symm⟩
    · exact ⟨d, List.mem_cons_of_mem _ hd, hfrom⟩
  · intro d hd
    rw [Bool.eq_false_iff, ne_eq, hlcIsNewer_iff, not_lt]
    rcases List.mem_cons.1 hd with rfl | hd
    · exact hstart
    · exact hall d hd

/-! ## The groups -/

variable {audience : String} {stripped : List LocalColumnChange}

theorem attributes_groups (order : HashOrder ((String × String) × List LocalColumnChange)) :
    Attributes audience stripped ((order.iter (hashGroups (·.row) stripped)).map (attribution audience)) := by
  have hperm := order.perm (hashGroups (·.row) stripped)
  have hrows : ((order.iter (hashGroups (·.row) stripped)).map (attribution audience)).map (·.row) =
      (order.iter (hashGroups (·.row) stripped)).map (·.1) := by
    rw [List.map_map]
    rfl
  have hkeys : (hashGroups (·.row) stripped).map (·.1) = (stripped.map (·.row)).dedup := by
    rw [hashGroups, List.map_map]
    exact List.map_id _
  refine ⟨fun row => ?_, ?_, ?_, ?_⟩
  · rw [hrows, (hperm.map (·.1)).mem_iff, hkeys, List.mem_dedup, List.mem_map]
  · rw [hrows, (hperm.map (·.1)).nodup_iff, hkeys]
    exact List.nodup_dedup _
  · intro a ha
    obtain ⟨g, -, rfl⟩ := List.mem_map.1 ha
    exact ⟨rfl, rfl⟩
  · intro a ha
    obtain ⟨g, hg, rfl⟩ := List.mem_map.1 ha
    obtain ⟨hkey, hgroup⟩ := mem_hashGroups.1 (hperm.mem_iff.1 hg)
    have hin : ∀ {c}, c ∈ g.2 ↔ c ∈ stripped ∧ c.row = g.1 := by
      intro c
      rw [hgroup, List.mem_filter, decide_eq_true_eq]
    have hne : g.2 ≠ [] := by
      obtain ⟨c, hc, hrow⟩ := List.mem_map.1 hkey
      exact List.ne_nil_of_mem (hin.2 ⟨hc, hrow⟩)
    obtain ⟨⟨c, hc, hstamp⟩, hall⟩ := newestStamp_spec hne
    have hrow : (attribution audience g).row = g.1 := rfl
    rw [hrow]
    exact ⟨⟨c, (hin.1 hc).1, (hin.1 hc).2, congrArg Prod.fst hstamp, congrArg Prod.snd hstamp⟩,
      fun d hd hdrow => hall d (hin.2 ⟨hd, hdrow⟩)⟩

theorem validateChange_eq_ok {spaceId : String} {c : LocalColumnChange} :
    validateChange spaceId c = .ok () ↔ ¬ c.Foreign spaceId := by
  rw [validateChange_ok, LocalColumnChange.Foreign, not_or, not_and, not_not, isSpaceScopedTable, decide_eq_false_iff_not, not_not]

theorem validateAndAttribute_eq_ok {hash : PushHashing} {spaceId : String} {changes : List LocalColumnChange} :
    (∃ out, validateAndAttribute hash spaceId audience changes = .ok out) ↔ ∀ c ∈ changes, ¬ c.Foreign spaceId := by
  unfold validateAndAttribute
  simp only [bind_eq_ok, forM_eq_ok, validateChange_eq_ok]
  exact ⟨fun ⟨_, _, hall, _⟩ => hall, fun hall => ⟨_, (), hall, rfl⟩⟩

/-- A batch is rejected exactly for a foreign table or space; else its own `authored_by_did` changes are gone, the others
stand in their order, and one attribution follows for each row that is left. -/
theorem attribution_exact (hash : PushHashing) (spaceId audience : String) (changes : List LocalColumnChange) :
    ((∃ e, validateAndAttribute hash spaceId audience changes = .error e) ↔ ∃ c ∈ changes, c.Foreign spaceId) ∧
      ∀ out, validateAndAttribute hash spaceId audience changes = .ok out →
        ∃ added, out = (changes.filter fun c => c.columnName ≠ "authored_by_did") ++ added ∧
          Attributes audience (changes.filter fun c => c.columnName ≠ "authored_by_did") added := by
  constructor
  · cases hv : validateAndAttribute hash spaceId audience changes with
    | ok out =>
      have hall := validateAndAttribute_eq_ok.1 ⟨out, hv⟩
      exact iff_of_false nofun fun ⟨c, hc, hforeign⟩ => hall c hc hforeign
    | error e =>
      refine iff_of_true ⟨e, rfl⟩ ?_
      by_contra hnone
      obtain ⟨out, hout⟩ := validateAndAttribute_eq_ok.2 fun c hc hforeign => hnone ⟨c, hc, hforeign⟩
      cases hv.symm.trans hout
  · intro out h
    obtain ⟨_, -, h⟩ := bind_eq_ok.1 h
    cases h
    exact ⟨_, rfl, attributes_groups hash.attribution⟩

end HaexVault.Space
