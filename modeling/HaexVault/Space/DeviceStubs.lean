import Mathlib.Algebra.Order.BigOperators.Group.List
import Mathlib.Algebra.Order.Ring.Nat
import HaexVault.Crdt.AllOrNothing
import HaexVault.Lib.Runs
import HaexVault.Space.Devices
import HaexVault.Space.InboundSync
/-!
# Stubs of foreign devices (`database/migrations`, `crdt/commands.rs`)

The triggers of `haex_space_devices` see to the rows that a row refers to: an `INSERT` adds a missing
author and a stub of a missing device, an `UPDATE` copies into the stub. The stub is found by the
device id, which the pushing member chooses (`stubs_follow_owner_iff`).
-/

namespace HaexVault.Space

open HaexVault.Crdt HaexVault.Lib HaexVault.Lib.Steps HaexVault.Lib.Runs

/-! ## The triggers -/

def spaceDevicesName : String := "haex_space_devices"
def peerSharesName : String := "haex_peer_shares"

/-- What `gen_uuid()` draws: an id that no identity has yet. -/
structure Uuids where
  genUuid : Identities → String
  fresh : ∀ t, genUuid t ∉ t.rows.map (·.id)

structure Refs where
  identities : Identities
  devices : Devices

def ensureRefs (uuids : Uuids) (refs : Refs) (authoredByDid : SqlValue) (stub : List (String × SqlValue)) : Refs :=
  if authoredByDid = .null then refs
  else
    { identities := match asText authoredByDid with
        | some did => refs.identities.insertOrIgnore ⟨uuids.genUuid refs.identities, did, none⟩
        | none => refs.identities
      devices := refs.devices.insertOrIgnore stub }

/-- `haex_space_devices_ensure_refs`. -/
def spaceDevicesEnsureRefs (uuids : Uuids) (refs : Refs) (new : Row) : Refs :=
  ensureRefs uuids refs (new "authored_by_did")
    [("id", new "device_id"), ("owner_did", new "authored_by_did"), ("endpoint_id", new "endpoint_id"), ("name", new "name"),
      ("platform", new "platform"), ("avatar", new "avatar"), ("avatar_options", new "avatar_options")]

/-- `haex_peer_shares_ensure_refs`. -/
def peerSharesEnsureRefs (uuids : Uuids) (refs : Refs) (new : Row) : Refs :=
  ensureRefs uuids refs (new "authored_by_did")
    [("id", new "device_id"), ("owner_did", new "authored_by_did"), ("endpoint_id", new "endpoint_id"),
      ("name", new "authored_by_did"), ("platform", .text "unknown")]

/-- The columns of a stub that follow the row of `haex_space_devices`. -/
def mirroredColumns : List String := ["endpoint_id", "name", "platform", "avatar", "avatar_options"]

def mirrored (new : Row) : List (String × SqlValue) := mirroredColumns.map fun c => (c, new c)

/-- `haex_space_devices_propagate_meta`. -/
def propagateMeta (refs : Refs) (new : Row) : Except Violation Refs :=
  match refs.devices.find (new "device_id") with
  | none => .ok refs
  | some d =>
    if d "secret_key" = .null then
      (refs.devices.update (new "device_id") (mirrored new)).map fun devices => { refs with devices }
    else .ok refs

inductive RowWrite where
  | insert (table : String) (new : Row)
  | update (table : String) (new : Row)

def RowWrite.new : RowWrite → Row
  | .insert _ new => new
  | .update _ new => new

def RowWrite.table : RowWrite → String
  | .insert table _ => table
  | .update table _ => table

def fire (uuids : Uuids) (refs : Refs) : RowWrite → Except Violation Refs
  | .insert table new =>
    .ok (if table = spaceDevicesName then spaceDevicesEnsureRefs uuids refs new
      else if table = peerSharesName then peerSharesEnsureRefs uuids refs new
      else refs)
  | .update table new => if table = spaceDevicesName then propagateMeta refs new else .ok refs

/-! ## The apply loop with its triggers -/

section
variable (env : Env)

/-- The `INSERT` or `UPDATE` of a turn of the apply loop, if it comes to one that goes through. -/
def rowWritten (db : Database) (group : (String × String) × List RemoteColumnChange) : Option RowWrite :=
  match db.tables group.1.1, env.fromStr group.1.2 with
  | some t₀, some rowPks =>
    let t := (upgraded t₀).1
    if !(upgraded t₀).2 then none
    else match t.find (pkKey t₀ rowPks) with
    | none =>
      let acc := collectChanges t₀.columnNames ∅ group.2
      if acc.columnsToUpdate = [] then none
      else match t.insert (insertPairs t rowPks acc) with
      | .ok _ => some (.insert group.1.1 (t.freshRow (insertPairs t rowPks acc)))
      | .error _ => none
    | some r => match currentHlcs (some r) with
      | .error _ => none
      | .ok stored =>
        let acc := collectChanges t₀.columnNames stored group.2
        if acc.columnsToUpdate = [] then none
        else match t.update (pkKey t₀ rowPks) (acc.changed ++ acc.metadata) with
        | .ok _ => some (.update group.1.1 (assign r (acc.changed ++ acc.metadata)))
        | .error _ => none
  | _, _ => none

/-- One turn of the apply loop. A trigger that fails fails its statement, and the batch. -/
def applyRowFiring (uuids : Uuids) (s : Database × Refs) (group : (String × String) × List RemoteColumnChange) :
    Except DatabaseError (Database × Refs) :=
  match applyRow env s.1 group with
  | .error e => .error e
  | .ok db => match rowWritten env s.1 group with
    | none => .ok (db, s.2)
    | some w => match fire uuids s.2 w with
      | .error _ => .error (.sqlite "constraint failed")
      | .ok refs => .ok (db, refs)

/-- `apply_remote_changes_to_db` without a backend, with the triggers. -/
def applyFiring (hash : Hashing) (uuids : Uuids) (db : Database) (refs : Refs) (changes : List RemoteColumnChange) :
    Except DatabaseError (Database × Refs) := do
  let changes := orderedChanges hash changes
  validateChanges env changes
  let (db, refs) ← (groupRowChangesInHlcOrder hash changes).foldlM (applyRowFiring env uuids)
    ({ db with triggersEnabled := some "0" }, refs)
  -- a push carries no log entries, so the devices are not deleted from here
  let db ← (hash.ids.iter (inboundDeleteLogIds env changes)).foldlM (propagateDeletedRow env) db
  .ok ({ db with triggersEnabled := some "1" }, refs)

/-- The rows the apply loop inserts and updates, in order, up to the first that fails. -/
def writes : Database → List ((String × String) × List RemoteColumnChange) → List RowWrite
  | _, [] => []
  | db, g :: gs => match applyRow env db g with
    | .ok db' => (rowWritten env db g).toList ++ writes db' gs
    | .error _ => []

def batchWrites (hash : Hashing) (db : Database) (changes : List RemoteColumnChange) : List RowWrite :=
  match validateChanges env (orderedChanges hash changes) with
  | .ok _ => writes env { db with triggersEnabled := some "0" } (batchGroups hash changes)
  | .error _ => []

end

section
variable {env : Env} {hash : Hashing} {uuids : Uuids} {db db' : Database} {refs refs' : Refs}

theorem applyRowFiring_ok {g : (String × String) × List RemoteColumnChange} :
    applyRowFiring env uuids (db, refs) g = .ok (db', refs') ↔
      applyRow env db g = .ok db' ∧ (rowWritten env db g).toList.foldlM (fire uuids) refs = .ok refs' := by
  unfold applyRowFiring
  rcases applyRow env db g with e | db₁
  · simp
  · rcases rowWritten env db g with _ | w
    · simp [pure, Except.pure]
    · simp only [Option.toList_some, List.foldlM_cons, List.foldlM_nil]
      rcases fire uuids refs w with v | refs₁
      · simp [bind, Except.bind]
      · simp [bind, Except.bind, pure, Except.pure]

theorem applyRowsFiring_ok {gs : List ((String × String) × List RemoteColumnChange)} :
    gs.foldlM (applyRowFiring env uuids) (db, refs) = .ok (db', refs') ↔
      applyRows env db gs = .ok db' ∧ (writes env db gs).foldlM (fire uuids) refs = .ok refs' := by
  induction gs generalizing db refs with
  | nil => simp [applyRows, writes, pure, Except.pure]
  | cons g gs ih =>
    rw [List.foldlM_cons, bind_eq_ok, applyRows, List.foldlM_cons, bind_eq_ok]
    unfold writes
    constructor
    · rintro ⟨⟨db₁, refs₁⟩, hturn, hrest⟩
      obtain ⟨hrow, hfire⟩ := applyRowFiring_ok.1 hturn
      obtain ⟨hrows, hfires⟩ := ih.1 hrest
      refine ⟨⟨db₁, hrow, hrows⟩, ?_⟩
      rw [hrow]
      dsimp only
      rw [List.foldlM_append, bind_eq_ok]
      exact ⟨refs₁, hfire, hfires⟩
    · rintro ⟨⟨db₁, hrow, hrows⟩, hfires⟩
      rw [hrow] at hfires
      dsimp only at hfires
      rw [List.foldlM_append, bind_eq_ok] at hfires
      obtain ⟨refs₁, hfire, hfires⟩ := hfires
      exact ⟨(db₁, refs₁), applyRowFiring_ok.2 ⟨hrow, hfire⟩, ih.2 ⟨hrows, hfires⟩⟩

theorem applyFiring_ok {changes : List RemoteColumnChange} :
    applyFiring env hash uuids db refs changes = .ok (db', refs') ↔
      applyRemoteChangesToDb env hash db changes none = .ok db' ∧
        (batchWrites env hash db changes).foldlM (fire uuids) refs = .ok refs' := by
  constructor
  · intro h
    obtain ⟨u, hvalid, h⟩ := bind_eq_ok.1 h
    obtain ⟨⟨db₁, refs₁⟩, hrows, h⟩ := bind_eq_ok.1 h
    obtain ⟨db₂, hdeletes, h⟩ := bind_eq_ok.1 h
    cases h
    obtain ⟨happly, hfires⟩ := applyRowsFiring_ok.1 hrows
    refine ⟨bind_eq_ok.2 ⟨u, hvalid, bind_eq_ok.2 ⟨db₁, happly, bind_eq_ok.2 ⟨db₂, hdeletes, rfl⟩⟩⟩, ?_⟩
    unfold batchWrites
    rw [hvalid]
    exact hfires
  · rintro ⟨h, hfires⟩
    obtain ⟨u, hvalid, h⟩ := bind_eq_ok.1 h
    obtain ⟨db₁, happly, h⟩ := bind_eq_ok.1 h
    obtain ⟨db₂, hdeletes, h⟩ := bind_eq_ok.1 h
    cases h
    unfold batchWrites at hfires
    rw [hvalid] at hfires
    have hrows := applyRowsFiring_ok.2 ⟨happly, hfires⟩
    exact bind_eq_ok.2 ⟨u, hvalid, bind_eq_ok.2 ⟨(db₁, refs'), hrows, bind_eq_ok.2 ⟨db₂, hdeletes, rfl⟩⟩⟩

end

/-! ## The vault and its pushes -/

structure DeviceVault extends Vault where
  devices : Devices

structure Push where
  spaceId : String
  endpointId : String
  validated : ValidatedUcan
  changes : List LocalColumnChange
  pushHash : PushHashing
  hash : Hashing
  uuids : Uuids

namespace Push

def authorize (w : TextColumns) (v : DeviceVault) (p : Push) : Except PushRejection (List LocalColumnChange) :=
  authorizeInboundSyncPush w.checks p.pushHash v.toVault p.spaceId p.endpointId p.validated p.changes

/-- The rows that accepted changes insert and update. -/
def rows (w : TextColumns) (v : DeviceVault) (p : Push) (accepted : List LocalColumnChange) : List RowWrite :=
  batchWrites w.writer p.hash v.space.db ((accepted.map w.store).map (·.toRemote))

end Push

namespace DeviceVault

def refs (v : DeviceVault) : Refs := ⟨v.identities, v.devices⟩

/-- The accepted changes of a push, applied. -/
def apply (w : TextColumns) (v : DeviceVault) (p : Push) (accepted : List LocalColumnChange) :
    Except DatabaseError DeviceVault :=
  match h : applyFiring w.writer p.hash p.uuids v.space.db v.refs ((accepted.map w.store).map (·.toRemote)) with
  | .error e => .error e
  | .ok (db, refs) =>
    .ok
      { v with
        space := ⟨db, v.space.schema.apply (applyFiring_ok.1 h).1⟩
        identities := refs.identities
        devices := refs.devices }

def receive (w : TextColumns) (v : DeviceVault) (p : Push) : DeviceVault :=
  match p.authorize w v with
  | .error _ => v
  | .ok accepted => match v.apply w p accepted with
    | .error _ => v
    | .ok v' => v'

theorem apply_ok {w : TextColumns} {v : DeviceVault} {p : Push} {accepted : List LocalColumnChange} :
    (∃ v', v.apply w p accepted = .ok v') ↔
      ∃ s, applyFiring w.writer p.hash p.uuids v.space.db v.refs ((accepted.map w.store).map (·.toRemote)) = .ok s := by
  unfold apply
  constructor
  · rintro ⟨v', h⟩
    split at h
    · cases h
    · exact ⟨_, by assumption⟩
  · rintro ⟨s, hs⟩
    split
    · rename_i e he
      rw [hs] at he
      cases he
    · exact ⟨_, rfl⟩

end DeviceVault

/-! ## What is claimed of a row -/

def fired (uuids : Uuids) (refs : Refs) (w : RowWrite) : Refs :=
  match fire uuids refs w with
  | .ok refs' => refs'
  | .error _ => refs

structure HasRefs (refs : Refs) (new : Row) : Prop where
  author : ∃ i ∈ refs.identities.rows, SqlValue.text i.did = new "authored_by_did"
  device : ∃ d ∈ refs.devices.rows, d "id" = new "device_id"

/-- Every device is kept, and changed at most in its mirrored columns, and there only by its owner, as long as it is a stub. -/
def ChangedByOwner (devices devices' : Devices) (author : SqlValue) : Prop :=
  ∀ d ∈ devices.rows, ∃ d' ∈ devices'.rows, (∀ c ∉ mirroredColumns, d' c = d c) ∧
    ((∀ c ∈ mirroredColumns, d' c = d c) ∨ d "owner_did" = author ∧ d "secret_key" = .null)

/-- What is claimed of a row that is inserted or updated: its triggers do not fail, the rows that an inserted one refers to are
there then, and no device is changed but by its owner. -/
def StubFollows (uuids : Uuids) (refs : Refs) (w : RowWrite) : Prop :=
  ∃ refs', fire uuids refs w = .ok refs' ∧
    (∀ new, w = .insert spaceDevicesName new → new "authored_by_did" ≠ .null → HasRefs refs' new) ∧
    ChangedByOwner refs.devices refs'.devices (w.new "authored_by_did")

/-- The row takes no id and no endpoint of a device that is not its own: a new row of an unknown device has an endpoint that
no device has, and an update of a row whose device is a stub keeps clear of the endpoints of the others and comes from the
owner of the stub, or leaves it as it is. -/
def TakesNothing (devices : Devices) : RowWrite → Prop
  | .insert table new => table = spaceDevicesName → new "authored_by_did" ≠ .null →
      (∃ d ∈ devices.rows, d "id" = new "device_id") ∨ ∀ d ∈ devices.rows, d "endpoint_id" ≠ new "endpoint_id"
  | .update table new => table = spaceDevicesName → ∀ d ∈ devices.rows, d "id" = new "device_id" → d "secret_key" = .null →
      (∀ o ∈ devices.rows, o "id" ≠ new "device_id" → o "endpoint_id" ≠ new "endpoint_id") ∧
        (d "owner_did" = new "authored_by_did" ∨ ∀ c ∈ mirroredColumns, d c = new c)

/-- What the constraints of `haex_space_devices` and the attribution of a push make sure of. -/
def WellFormed : RowWrite → Prop
  | .insert table new => table = spaceDevicesName →
      (∀ c ∈ ["device_id", "endpoint_id", "name", "platform"], new c ≠ .null) ∧
        (new "authored_by_did" = .null ∨ ∃ did, new "authored_by_did" = .text did)
  | .update table new => table = spaceDevicesName → ∀ c ∈ ["device_id", "endpoint_id", "name", "platform"], new c ≠ .null

section
variable {uuids : Uuids} {refs refs' : Refs} {new : Row}

/-! ## The triggers keep what is claimed -/

theorem exists_insertOrIgnore_did (uuids : Uuids) (t : Identities) (did : String) :
    ∃ i ∈ (t.insertOrIgnore ⟨uuids.genUuid t, did, none⟩).rows, i.did = did := by
  unfold Identities.insertOrIgnore
  split
  · rename_i hthere
    rcases hthere with hid | hdid
    · exact absurd hid (uuids.fresh t)
    · exact List.mem_map.1 hdid
  · exact ⟨_, List.mem_append_right _ (List.mem_singleton.2 rfl), rfl⟩

theorem ensureRefs_changedByOwner (refs : Refs) (author : SqlValue) (stub : List (String × SqlValue)) (a : SqlValue) :
    ChangedByOwner refs.devices (ensureRefs uuids refs author stub).devices a := by
  intro d hd
  unfold ensureRefs
  split
  · exact ⟨d, hd, fun _ _ => rfl, .inl fun _ _ => rfl⟩
  · exact ⟨d, Devices.mem_insertOrIgnore hd, fun _ _ => rfl, .inl fun _ _ => rfl⟩

theorem ChangedByOwner.refl (devices : Devices) (a : SqlValue) : ChangedByOwner devices devices a :=
  fun d hd => ⟨d, hd, fun _ _ => rfl, .inl fun _ _ => rfl⟩

theorem hasRefs_iff (hcells : ∀ c ∈ ["device_id", "endpoint_id", "name", "platform"], new c ≠ .null) {did : String}
    (hauthor : new "authored_by_did" = .text did) :
    HasRefs (spaceDevicesEnsureRefs uuids refs new) new ↔
      (∃ d ∈ refs.devices.rows, d "id" = new "device_id") ∨ ∀ d ∈ refs.devices.rows, d "endpoint_id" ≠ new "endpoint_id" := by
  have hne : new "authored_by_did" ≠ .null := by simp [hauthor]
  have hidentities : (spaceDevicesEnsureRefs uuids refs new).identities =
      refs.identities.insertOrIgnore ⟨uuids.genUuid refs.identities, did, none⟩ := by
    unfold spaceDevicesEnsureRefs ensureRefs
    rw [if_neg hne, hauthor]
    rfl
  have hdevices := refs.devices.exists_insertOrIgnore
    [("id", new "device_id"), ("owner_did", new "authored_by_did"), ("endpoint_id", new "endpoint_id"), ("name", new "name"),
      ("platform", new "platform"), ("avatar", new "avatar"), ("avatar_options", new "avatar_options")] ?_ rfl rfl rfl rfl
  · constructor
    · intro h
      have hd := h.device
      unfold spaceDevicesEnsureRefs ensureRefs at hd
      rw [if_neg hne] at hd
      exact hdevices.1 hd
    · intro h
      refine ⟨?_, ?_⟩
      · obtain ⟨i, hi, he⟩ := exists_insertOrIgnore_did uuids refs.identities did
        exact ⟨i, hidentities ▸ hi, by rw [he, hauthor]⟩
      · unfold spaceDevicesEnsureRefs ensureRefs
        rw [if_neg hne]
        exact hdevices.2 h
  · intro c hc
    simp only [Devices.requiredColumns, List.mem_cons, List.not_mem_nil, or_false] at hc
    rcases hc with rfl | rfl | rfl | rfl | rfl
    · exact ⟨_, rfl, hcells _ (by simp)⟩
    · exact ⟨_, rfl, hne⟩
    · exact ⟨_, rfl, hcells _ (by simp)⟩
    · exact ⟨_, rfl, hcells _ (by simp)⟩
    · exact ⟨_, rfl, hcells _ (by simp)⟩

theorem stubFollows_insert (h : WellFormed (.insert spaceDevicesName new)) :
    StubFollows uuids refs (.insert spaceDevicesName new) ↔ TakesNothing refs.devices (.insert spaceDevicesName new) := by
  obtain ⟨hcells, hauthor⟩ := h rfl
  have hkept : ChangedByOwner refs.devices (spaceDevicesEnsureRefs uuids refs new).devices (new "authored_by_did") :=
    ensureRefs_changedByOwner refs _ _ _
  constructor
  · rintro ⟨refs', hfire, hrefs, -⟩ - hne
    cases hfire
    obtain ⟨did, hdid⟩ := hauthor.resolve_left hne
    exact (hasRefs_iff hcells hdid).1 (hrefs new rfl hne)
  · intro h
    refine ⟨_, rfl, fun new' he hne => ?_, hkept⟩
    cases he
    obtain ⟨did, hdid⟩ := hauthor.resolve_left hne
    exact (hasRefs_iff hcells hdid).2 (h rfl hne)

/-! ## Updates -/

theorem assign_mirrored (d new : Row) {c : String} (hc : c ∈ mirroredColumns) : assign d (mirrored new) c = new c := by
  simp only [mirroredColumns, List.mem_cons, List.not_mem_nil, or_false] at hc
  rcases hc with rfl | rfl | rfl | rfl | rfl <;> simp [assign, mirrored, mirroredColumns, Function.update]

theorem assign_not_mirrored (d new : Row) {c : String} (hc : c ∉ mirroredColumns) : assign d (mirrored new) c = d c := by
  refine assign_of_not_mem d fun p hp he => hc ?_
  obtain ⟨c', hc', rfl⟩ := List.mem_map.1 hp
  exact he ▸ hc'

theorem update_mirrored_ok {d : Row} (hd : d ∈ refs.devices.rows)
    (hcells : ∀ c ∈ ["device_id", "endpoint_id", "name", "platform"], new c ≠ .null) :
    (∃ t', refs.devices.update (d "id") (mirrored new) = .ok t') ↔
      ∀ o ∈ refs.devices.rows, o "id" ≠ d "id" → o "endpoint_id" ≠ new "endpoint_id" := by
  rw [Devices.update_fits hd, assign_mirrored d new (by decide)]
  · intro p hp
    obtain ⟨c, hc, rfl⟩ := List.mem_map.1 hp
    refine ⟨?_, ?_, ?_⟩
    all_goals
      rintro (rfl : c = _)
      revert hc
      decide
  · intro c hc
    have hstored : ∀ c : String, (⟨c, c = "id", true, .null⟩ : Column) ∈ refs.devices.table.columns → d c ≠ .null :=
      fun c hcol => refs.devices.holds.notNull d hd _ hcol rfl
    simp only [Devices.requiredColumns, List.mem_cons, List.not_mem_nil, or_false] at hc
    rcases hc with rfl | rfl | rfl | rfl | rfl
    · rw [assign_not_mirrored d new (by decide)]
      exact hstored "id" (by simp [Devices.table, haexDevicesTable])
    · rw [assign_not_mirrored d new (by decide)]
      exact hstored "owner_did" (by simp [Devices.table, haexDevicesTable, notNull])
    · rw [assign_mirrored d new (by decide)]
      exact hcells _ (by simp)
    · rw [assign_mirrored d new (by decide)]
      exact hcells _ (by simp)
    · rw [assign_mirrored d new (by decide)]
      exact hcells _ (by simp)

theorem mem_update_mirrored {t t' : Devices} {d : Row} (hd : d ∈ t.rows) (h : t.update (d "id") (mirrored new) = .ok t') :
    assign d (mirrored new) ∈ t'.rows ∧ ∀ o ∈ t.rows, o ≠ d → o ∈ t'.rows := by
  rw [Devices.update_eq h]
  refine ⟨List.mem_map.2 ⟨d, hd, if_pos rfl⟩, fun o ho hne => List.mem_map.2 ⟨o, ho, if_neg fun hk => hne ?_⟩⟩
  have hid : o "id" = d "id" := by simpa using hk
  exact Option.some.inj ((Devices.find_of_mem ho).symm.trans (hid ▸ Devices.find_of_mem hd))

theorem changedByOwner_update {t t' : Devices} {d : Row} (hd : d ∈ t.rows) (h : t.update (d "id") (mirrored new) = .ok t')
    (hstub : d "secret_key" = .null) {a : SqlValue} :
    ChangedByOwner t t' a ↔ d "owner_did" = a ∨ ∀ c ∈ mirroredColumns, d c = new c := by
  obtain ⟨hchanged, hothers⟩ := mem_update_mirrored hd h
  constructor
  · intro hkept
    obtain ⟨d', hd', hcells, hsame | ⟨howner, -⟩⟩ := hkept d hd
    · -- the device with the id of the stub is the stub with the row's cells
      have hid : d' "id" = assign d (mirrored new) "id" := by
        rw [hcells "id" (by decide), assign_not_mirrored d new (by decide)]
      obtain rfl : d' = assign d (mirrored new) :=
        Option.some.inj ((Devices.find_of_mem hd').symm.trans (hid ▸ Devices.find_of_mem hchanged))
      exact .inr fun c hc => (hsame c hc).symm.trans (assign_mirrored d new hc)
    · exact .inl howner
  · intro hallowed o ho
    by_cases hod : o = d
    · subst hod
      refine ⟨_, hchanged, fun c hc => assign_not_mirrored o new hc, ?_⟩
      rcases hallowed with howner | hsame
      · exact .inr ⟨howner, hstub⟩
      · exact .inl fun c hc => (assign_mirrored o new hc).trans (hsame c hc).symm
    · exact ⟨o, hothers o ho hod, fun _ _ => rfl, .inl fun _ _ => rfl⟩

theorem stubFollows_update (h : WellFormed (.update spaceDevicesName new)) :
    StubFollows uuids refs (.update spaceDevicesName new) ↔ TakesNothing refs.devices (.update spaceDevicesName new) := by
  have hcells := h rfl
  have hfire : fire uuids refs (.update spaceDevicesName new) = propagateMeta refs new := by simp [fire]
  have hdefault : fire uuids refs (.update spaceDevicesName new) = .ok refs →
      StubFollows uuids refs (.update spaceDevicesName new) := fun hf =>
    ⟨refs, hf, nofun, ChangedByOwner.refl _ _⟩
  unfold propagateMeta at hfire
  rcases hfind : refs.devices.find (new "device_id") with _ | d
  · rw [hfind] at hfire
    refine iff_of_true (hdefault hfire) fun _ d hd hid => ?_
    exact absurd hid (Devices.find_eq_none.1 hfind d hd)
  · rw [hfind] at hfire
    dsimp only at hfire
    obtain ⟨hd, hid⟩ := Devices.mem_find hfind
    have honly : ∀ o ∈ refs.devices.rows, o "id" = new "device_id" → o = d := fun o ho he =>
      Option.some.inj ((Devices.find_of_mem ho).symm.trans (he ▸ hfind))
    by_cases hstub : d "secret_key" = .null
    · rw [if_pos hstub, ← hid] at hfire
      constructor
      · rintro ⟨refs', hf, -, hkept⟩ - o ho he -
        obtain rfl := honly o ho he
        rw [hfire, map_eq_ok] at hf
        obtain ⟨t', ht', rfl⟩ := hf
        exact ⟨hid ▸ (update_mirrored_ok hd hcells).1 ⟨t', ht'⟩, (changedByOwner_update hd ht' hstub).1 hkept⟩
      · intro hfree
        obtain ⟨hfree, hallowed⟩ := hfree rfl d hd hid hstub
        obtain ⟨t', ht'⟩ := (update_mirrored_ok hd hcells).2 (hid ▸ hfree)
        exact ⟨{ refs with devices := t' }, hfire.trans (map_eq_ok.2 ⟨t', ht', rfl⟩), nofun,
          (changedByOwner_update hd ht' hstub).2 hallowed⟩
    · rw [if_neg hstub] at hfire
      refine iff_of_true (hdefault hfire) fun _ o ho he hnull => ?_
      exact absurd (honly o ho he ▸ hnull) hstub

theorem stubFollows_iff {w : RowWrite} (h : WellFormed w) : StubFollows uuids refs w ↔ TakesNothing refs.devices w := by
  cases w with
  | insert table new =>
    by_cases ht : table = spaceDevicesName
    · subst ht
      exact stubFollows_insert h
    · refine iff_of_true ⟨_, rfl, fun new' he => ?_, ?_⟩ fun h => absurd h ht
      · cases he
        exact absurd rfl ht
      · rw [if_neg ht]
        split
        · exact ensureRefs_changedByOwner refs _ _ _
        · exact ChangedByOwner.refl _ _
  | update table new =>
    by_cases ht : table = spaceDevicesName
    · subst ht
      exact stubFollows_update h
    · exact iff_of_true ⟨refs, if_neg ht, nofun, ChangedByOwner.refl _ _⟩ fun h => absurd h ht

end

/-! ## The rows of a push are well formed -/

section
variable {env : Env} {db : Database} {g : (String × String) × List RemoteColumnChange} {w : RowWrite}

theorem rowWritten_table (h : rowWritten env db g = some w) : w.table = g.1.1 := by
  unfold rowWritten at h
  dsimp only at h
  split at h
  · split at h
    · cases h
    · split at h
      · split at h
        · cases h
        · split at h
          · cases h
            rfl
          · cases h
      · split at h
        · cases h
        · split at h
          · cases h
          · split at h
            · cases h
              rfl
            · cases h
  · cases h

theorem rowWritten_inv {t : Table} (ht : db.tables g.1.1 = some t) (hc : columnHlcsColumn ∈ t.columnNames)
    (h : rowWritten env db g = some w) :
    (∃ rowPks t', w = .insert g.1.1 (t.freshRow (insertPairs t rowPks (collectChanges t.columnNames ∅ g.2))) ∧
      t.insert (insertPairs t rowPks (collectChanges t.columnNames ∅ g.2)) = .ok t') ∨
    ∃ k r sets t', w = .update g.1.1 (assign r sets) ∧ r ∈ t.rows ∧ t.rowKey r = k ∧ t.update k sets = .ok t' := by
  have hup : upgraded t = (t, true) := if_pos hc
  unfold rowWritten at h
  rw [ht] at h
  rcases hparse : env.fromStr g.1.2 with _ | rowPks
  · rw [hparse] at h
    cases h
  · rw [hparse] at h
    simp only [hup, Bool.not_true, Bool.false_eq_true, if_false] at h
    rcases hfind : t.find (pkKey t rowPks) with _ | r
    · rw [hfind] at h
      dsimp only at h
      split at h
      · cases h
      · split at h
        · rename_i t' hinsert
          cases h
          exact .inl ⟨rowPks, t', rfl, hinsert⟩
        · cases h
    · rw [hfind] at h
      dsimp only at h
      split at h
      · cases h
      · split at h
        · cases h
        · split at h
          · rename_i t' hupdate
            cases h
            exact .inr ⟨_, r, _, t', rfl, Keyed.get_mem hfind, Keyed.get_key hfind, hupdate⟩
          · cases h

theorem author_fresh {t : Table} (hd : DataName t "authored_by_did") (hdflt : t.dflt "authored_by_did" = .null) (rowPks : RowPks)
    {cs : List RemoteColumnChange} (hauthor : ∀ ch ∈ cs, ch.columnName = "authored_by_did" → ∃ did, ch.decryptedValue = .string did) :
    t.freshRow (insertPairs t rowPks (collectChanges t.columnNames ∅ cs)) "authored_by_did" = .null ∨
      ∃ did, t.freshRow (insertPairs t rowPks (collectChanges t.columnNames ∅ cs)) "authored_by_did" = .text did := by
  rw [fresh_apply hd.pk]
  rcases hlookup : ((collectChanges t.columnNames ∅ cs).changed ++ (collectChanges t.columnNames ∅ cs).metadata).lookup
    "authored_by_did" with _ | x
  · exact .inl hdflt
  · obtain ⟨before, after, hsplit, -⟩ := List.lookup_eq_some_iff.1 hlookup
    have hmem : ("authored_by_did", x) ∈ (collectChanges t.columnNames ∅ cs).changed ++
        (collectChanges t.columnNames ∅ cs).metadata := hsplit ▸ List.mem_append_right _ List.mem_cons_self
    right
    rcases List.mem_append.1 hmem with hmem | hmem
    · obtain ⟨u, hu, he⟩ := List.mem_map.1 hmem
      obtain ⟨hname, rfl⟩ := Prod.mk.inj he
      obtain ⟨ch, hch, rfl, -⟩ := collect_known ∅ cs u hu
      obtain ⟨did, hdid⟩ := hauthor ch hch hname
      dsimp only
      rw [hdid]
      exact ⟨did, rfl⟩
    · simp only [RowAcc.metadata, List.mem_cons, Prod.mk.injEq, List.not_mem_nil, or_false] at hmem
      rcases hmem with ⟨he, -⟩ | ⟨he, -⟩
      · exact absurd he hd.hlcs
      · exact absurd he hd.hlc

theorem rowWritten_wellFormed (hschema : SpaceSchema db)
    (hauthor : ∀ ch ∈ g.2, ch.columnName = "authored_by_did" → ∃ did, ch.decryptedValue = .string did)
    (h : rowWritten env db g = some w) : WellFormed w := by
  obtain ⟨rows, hrows, -⟩ := hschema (spaceDevicesName, spaceDevicesTable) (by simp [spaceSchema, spaceDevicesName])
  have htable := rowWritten_table h
  have hinv : g.1.1 = spaceDevicesName → _ := fun hg =>
    rowWritten_inv (show db.tables g.1.1 = some { spaceDevicesTable with rows } from hg ▸ hrows)
      (by simp [Table.columnNames, spaceDevicesTable, spaceTable]) h
  have hcolumns : ∀ c ∈ ["device_id", "endpoint_id", "name", "platform"], notNull c ∈ spaceDevicesTable.columns := by
    intro c hc
    simp only [List.mem_cons, List.not_mem_nil, or_false] at hc
    rcases hc with rfl | rfl | rfl | rfl <;> simp [spaceDevicesTable, spaceTable]
  have hdata : DataName { spaceDevicesTable with rows } "authored_by_did" :=
    ⟨by rw [show ({ spaceDevicesTable with rows } : Table).pkNames = ["id"] from rfl]; decide, by decide, by decide⟩
  cases w with
  | insert table new =>
    rintro rfl
    rcases hinv htable.symm with ⟨rowPks, t', he, hinsert⟩ | ⟨_, _, _, _, he, -⟩
    · obtain ⟨-, rfl⟩ := RowWrite.insert.inj he
      refine ⟨fun c hc => ?_, author_fresh hdata rfl rowPks hauthor⟩
      exact notNull_of_violation (insert_violation hinsert) (notNull c) (hcolumns c hc) rfl
    · cases he
  | update table new =>
    rintro rfl c hc
    rcases hinv htable.symm with ⟨_, _, he, -⟩ | ⟨k, r, sets, t', he, hr, hk, hupdate⟩
    · cases he
    · obtain ⟨-, rfl⟩ := RowWrite.update.inj he
      exact notNull_of_violation (update_violation hupdate hr hk) (notNull c) (hcolumns c hc) rfl

theorem writes_wellFormed {gs : List ((String × String) × List RemoteColumnChange)} (hschema : SpaceSchema db)
    (hauthor : ∀ g ∈ gs, ∀ ch ∈ g.2, ch.columnName = "authored_by_did" → ∃ did, ch.decryptedValue = .string did) :
    ∀ w ∈ writes env db gs, WellFormed w := by
  induction gs generalizing db with
  | nil => exact fun _ hw => (List.not_mem_nil hw).elim
  | cons g gs ih =>
    intro w hw
    unfold writes at hw
    rcases happly : applyRow env db g with e | db'
    · rw [happly] at hw
      exact (List.not_mem_nil hw).elim
    · rw [happly] at hw
      rcases List.mem_append.1 hw with hw | hw
      · exact rowWritten_wellFormed hschema (hauthor g List.mem_cons_self) (Option.mem_toList.1 hw)
      · exact ih (hschema.applyRow happly) (fun g' hg' => hauthor g' (List.mem_cons_of_mem g hg')) w hw

theorem author_of_authorize {texts : TextColumns} {v : DeviceVault} {p : Push} {accepted : List LocalColumnChange}
    (h : p.authorize texts v = .ok accepted) {c : LocalColumnChange} (hc : c ∈ accepted) (hname : c.columnName = "authored_by_did") :
    c.value = .string p.validated.audience := by
  obtain ⟨attributed, hattr, -, rfl⟩ := mem_authorize h hc
  obtain ⟨_, -, hattr⟩ := bind_eq_ok.1 hattr
  cases hattr
  rcases List.mem_append.1 (List.mem_filter.1 hc).1 with hc | hc
  · have hother := (List.mem_filter.1 hc).2
    simp [hname] at hother
  · obtain ⟨group, -, rfl⟩ := List.mem_map.1 hc
    rfl

theorem rows_wellFormed {texts : TextColumns} {v : DeviceVault} {p : Push} {accepted : List LocalColumnChange}
    (h : p.authorize texts v = .ok accepted) : ∀ w ∈ p.rows texts v accepted, WellFormed w := by
  intro w hw
  unfold Push.rows batchWrites at hw
  split at hw
  · have hschema : SpaceSchema { v.space.db with triggersEnabled := some "0" } := v.space.schema
    refine writes_wellFormed hschema ?_ w hw
    intro g hg ch hch hname
    obtain ⟨_, hc, rfl, -⟩ := (group_changes hg).2 ch hch
    obtain ⟨c, hmem, rfl⟩ := List.mem_map.1 hc
    have hauthor := author_of_authorize h hmem hname
    exact ⟨_, (congrArg LocalColumnChange.value (texts.store_string hauthor)).trans hauthor⟩
  · exact (List.not_mem_nil hw).elim

end

/-! ## Runs of pushes -/

/-- What is claimed of a push: every row that it inserts or updates does as claimed, and their triggers do not fail a batch
that goes through without them. -/
structure StubsFollow (texts : TextColumns) (v : DeviceVault) (p : Push) : Prop where
  rows : ∀ accepted, p.authorize texts v = .ok accepted →
    Guarded (fired p.uuids) (StubFollows p.uuids) v.refs (p.rows texts v accepted)
  batch : ∀ accepted db', p.authorize texts v = .ok accepted →
    applyRemoteChangesToDb texts.writer p.hash v.space.db ((accepted.map texts.store).map (·.toRemote)) none = .ok db' →
    ∃ v', v.apply texts p accepted = .ok v'

def NothingTaken (texts : TextColumns) (v : DeviceVault) (p : Push) : Prop :=
  ∀ accepted, p.authorize texts v = .ok accepted →
    Guarded (fired p.uuids) (fun refs w => TakesNothing refs.devices w) v.refs (p.rows texts v accepted)

theorem fired_of_fire {uuids : Uuids} {refs refs' : Refs} {w : RowWrite} (h : fire uuids refs w = .ok refs') :
    fired uuids refs w = refs' := by
  unfold fired
  rw [h]

theorem stubsFollow_iff {texts : TextColumns} {v : DeviceVault} {p : Push} :
    StubsFollow texts v p ↔ NothingTaken texts v p := by
  have hrows : ∀ accepted, p.authorize texts v = .ok accepted →
      (Guarded (fired p.uuids) (StubFollows p.uuids) v.refs (p.rows texts v accepted) ↔
        Guarded (fired p.uuids) (fun refs w => TakesNothing refs.devices w) v.refs (p.rows texts v accepted)) :=
    fun accepted h => Guarded.congr (guarded_of_forall fun refs w hw => stubFollows_iff (rows_wellFormed h w hw))
  constructor
  · exact fun h accepted haccepted => (hrows accepted haccepted).1 (h.rows accepted haccepted)
  · intro h
    refine ⟨fun accepted haccepted => (hrows accepted haccepted).2 (h accepted haccepted), fun accepted db' haccepted happly => ?_⟩
    have hfollow := (hrows accepted haccepted).2 (h accepted haccepted)
    have hfires : Guarded (fired p.uuids) (fun refs w => ∃ refs', fire p.uuids refs w = .ok refs') v.refs
        (p.rows texts v accepted) := by
      refine Guarded.each (I := fun _ => True) (fun _ _ _ _ => trivial) ?_ hfollow trivial
      rintro refs w - ⟨refs', hfire, -⟩
      exact ⟨refs', hfire⟩
    have hall := Guarded.foldlM (fun _ _ _ => fired_of_fire) hfires
    exact DeviceVault.apply_ok.2 ⟨_, applyFiring_ok.2 ⟨happly, hall⟩⟩

/-- In a run of pushes, every row has its references and only owners change their stubs exactly if no row takes anything of
another device on its turn. -/
theorem stubs_follow_owner_iff (texts : TextColumns) (v : DeviceVault) (pushes : List Push) :
    Guarded (DeviceVault.receive texts) (StubsFollow texts) v pushes ↔
      Guarded (DeviceVault.receive texts) (NothingTaken texts) v pushes :=
  Guarded.congr (guarded_of_forall fun _ _ _ => stubsFollow_iff)

/-! ## Mallory and the stub of Bob's device -/

instance (devices : Devices) : ∀ w, Decidable (TakesNothing devices w)
  | .insert table new => inferInstanceAs (Decidable (table = spaceDevicesName → new "authored_by_did" ≠ .null →
      (∃ d ∈ devices.rows, d "id" = new "device_id") ∨ ∀ d ∈ devices.rows, d "endpoint_id" ≠ new "endpoint_id"))
  | .update table new => inferInstanceAs (Decidable (table = spaceDevicesName → ∀ d ∈ devices.rows, d "id" = new "device_id" →
      d "secret_key" = .null → (∀ o ∈ devices.rows, o "id" ≠ new "device_id" → o "endpoint_id" ≠ new "endpoint_id") ∧
        (d "owner_did" = new "authored_by_did" ∨ ∀ c ∈ mirroredColumns, d c = new c)))

def longUuids : Uuids where
  genUuid t := String.ofList (List.replicate ((t.rows.map (·.id.length)).sum + 1) 'u')
  fresh t h := by
    obtain ⟨i, hi, he⟩ := List.mem_map.1 h
    have hle : i.id.length ≤ (t.rows.map (·.id.length)).sum := 
      List.single_le_sum (fun _ _ => Nat.zero_le _) _ (List.mem_map.2 ⟨i, hi, rfl⟩)
    rw [he, String.length_ofList, List.length_replicate] at hle
    omega

/-- A stub. -/
def stub (id owner endpoint : String) : Row :=
  storedRow [("id", .text id), ("owner_did", .text owner), ("endpoint_id", .text endpoint), ("name", .text "n"),
    ("platform", .text "p")]

def bobStub : Row := stub "dev-bob" "did:key:bob" "ep-bob"
def malloryStub : Row := stub "dev-mallory" "did:key:mallory" "ep-mallory"

def bobVault : DeviceVault :=
  { meshVault with devices := ⟨[bobStub], ⟨by decide, by decide⟩, by decide⟩ }

def bothVault : DeviceVault :=
  { meshVault with devices := ⟨[bobStub, malloryStub], ⟨by decide, by decide⟩, by decide⟩ }

def malloryPush (changes : List LocalColumnChange) : Push :=
  ⟨"s", "ep-mallory", malloryUcan, changes, pushInOrder, inOrder, longUuids⟩

def deviceChange (hlc column value : String) : LocalColumnChange :=
  ⟨spaceDevicesName, "\x7b\"id\":\"e2\"\x7d", column, hlc, .string value, "d"⟩

def announceDevice (deviceId : String) : List LocalColumnChange :=
  [deviceChange "1/a" "space_id" "s", deviceChange "1/a" "device_id" deviceId, deviceChange "1/a" "endpoint_id" "ep-mallory",
    deviceChange "1/a" "name" "m", deviceChange "1/a" "platform" "p"]

def rename : List LocalColumnChange := [deviceChange "2/a" "name" "mine"]

def byMallory (changes : List LocalColumnChange) (hlc : String) : List LocalColumnChange :=
  changes ++ [deviceChange hlc "authored_by_did" "did:key:mallory"]

theorem stubsFollow_taken {texts : TextColumns} {v : DeviceVault} {p : Push} {accepted : List LocalColumnChange}
    (haccepted : p.authorize texts v = .ok accepted)
    (htaken : ¬ Guarded (fired p.uuids) (fun refs w => TakesNothing refs.devices w) v.refs (p.rows texts v accepted)) :
    ¬ StubsFollow texts v p := fun h => htaken (stubsFollow_iff.1 h accepted haccepted)

/-- Mallory announces Bob's device as their own and renames it: the stub of Bob's device gets Mallory's endpoint and the name.
Where a device of Mallory's is known, the same run fails with its endpoint, and a further device of Mallory's gets no stub. -/
theorem stubs_do_not_follow :
    ¬ Guarded (DeviceVault.receive pushTexts) (StubsFollow pushTexts) bobVault [malloryPush (announceDevice "dev-bob"), malloryPush rename] ∧
    ¬ Guarded (DeviceVault.receive pushTexts) (StubsFollow pushTexts) bothVault [malloryPush (announceDevice "dev-bob"), malloryPush rename] ∧
    ¬ Guarded (DeviceVault.receive pushTexts) (StubsFollow pushTexts) bothVault [malloryPush (announceDevice "dev-new")] := by
  have hrename : ∀ v ∈ [bobVault, bothVault], (malloryPush rename).authorize pushTexts
      (v.receive pushTexts (malloryPush (announceDevice "dev-bob"))) = .ok (byMallory rename "2/a") := by decide +kernel
  have hnew : (malloryPush (announceDevice "dev-new")).authorize pushTexts bothVault = .ok (byMallory (announceDevice "dev-new") "1/a") := by
    decide +kernel
  have htaken : ∀ v ∈ [bobVault, bothVault], ¬ Guarded (fired longUuids) (fun refs w => TakesNothing refs.devices w)
      (v.receive pushTexts (malloryPush (announceDevice "dev-bob"))).refs
      ((malloryPush rename).rows pushTexts (v.receive pushTexts (malloryPush (announceDevice "dev-bob"))) (byMallory rename "2/a")) := by
    decide +kernel
  have hignored : ¬ Guarded (fired longUuids) (fun refs w => TakesNothing refs.devices w) bothVault.refs
      ((malloryPush (announceDevice "dev-new")).rows pushTexts bothVault (byMallory (announceDevice "dev-new") "1/a")) := by
    decide +kernel
  refine ⟨fun h => ?_, fun h => ?_, fun h => ?_⟩
  · exact stubsFollow_taken (hrename bobVault (by simp)) (htaken bobVault (by simp)) h.2.1
  · exact stubsFollow_taken (hrename bothVault (by simp)) (htaken bothVault (by simp)) h.2.1
  · exact stubsFollow_taken hnew hignored h.1

end HaexVault.Space
