import HaexVault.Crdt.Trigger
import HaexVault.Space.Schema
/-!
# The vault a leader serves from

The tables of shared spaces with what SQLite holds of them (`SpaceDb`), the
identities, the UCAN tokens and the invite tokens. A DID is an active member of a
space when `haex_space_members` has a row for its identity
(`isActiveSpaceMember_iff`); claims add members, removals take them out.
-/

namespace HaexVault.Space

open HaexVault.Crdt HaexVault.Lib

/-! ## The space tables -/

def tableRows (db : Database) (name : String) : List Row := ((db.tables name).map (·.rows)).getD []

/-- A database with the tables of shared spaces. -/
structure SpaceDb where
  db : Database
  schema : SpaceSchema db

namespace SpaceDb

def rows (s : SpaceDb) (name : String) : List Row := tableRows s.db name

/-- `apply_remote_changes_to_db` without a backend. -/
def apply (env : Env) (hash : Hashing) (s : SpaceDb) (changes : List RemoteColumnChange) : Except DatabaseError SpaceDb :=
  match h : applyRemoteChangesToDb env hash s.db changes none with
  | .ok db => .ok ⟨db, s.schema.apply h⟩
  | .error e => .error e

theorem apply_ok {env : Env} {hash : Hashing} {s s' : SpaceDb} {changes : List RemoteColumnChange}
    (h : s.apply env hash changes = .ok s') : applyRemoteChangesToDb env hash s.db changes none = .ok s'.db := by
  unfold apply at h
  split at h
  · cases h; assumption
  · cases h

def delete (s : SpaceDb) (name : String) (p : Row → Bool) : SpaceDb :=
  match h : s.db.tables name with
  | none => s
  | some t => ⟨s.db.setTable name (t.delete p), s.schema.delete h p⟩

theorem rows_delete (s : SpaceDb) (name : String) (p : Row → Bool) :
    (s.delete name p).rows name = (s.rows name).filter fun r => !p r := by
  unfold delete rows tableRows
  split
  · simp [*]
  · rename_i t h
    simp [h, Database.setTable, Table.delete]

end SpaceDb

def localInsertOrIgnore (db : Database) (name : String) (pairs : List (String × SqlValue)) (hlc : String) : Database :=
  match localInsert db name pairs hlc with
  | .ok db' => db'
  | .error _ => db

theorem localInsert_inv {db db' : Database} {name : String} {pairs : List (String × SqlValue)} {hlc : String}
    (h : localInsert db name pairs hlc = .ok db') :
    ∃ t r, db.tables name = some t ∧ t.violation t.rows (t.freshRow (stampInsert pairs hlc)) = none ∧
      (r = t.freshRow (stampInsert pairs hlc) ∨ r = insertTrigger t hlc (t.freshRow (stampInsert pairs hlc))) ∧
      db' = db.setTable name { t with rows := t.rows ++ [r] } := by
  unfold localInsert at h
  split at h
  · cases h
  · rename_i t ht
    dsimp only at h
    split at h
    · cases h
    · rename_i hv
      cases h
      by_cases hf : db.triggersFire t
      · exact ⟨t, _, ht, hv, .inr rfl, by simp [hf]⟩
      · exact ⟨t, _, ht, hv, .inl rfl, by simp [hf]⟩

theorem insertTrigger_of_ne (t : Table) (hlc : String) (r : Row) {c : String} (hc : c ≠ columnHlcsColumn) :
    insertTrigger t hlc r c = r c := by
  unfold insertTrigger
  split
  · exact Function.update_of_ne hc _ _
  · rfl

theorem insertTrigger_ne_null (t : Table) (hlc : String) (r : Row) {c : String} (hc : r c ≠ .null) :
    insertTrigger t hlc r c ≠ .null := by
  by_cases h : c = columnHlcsColumn
  · subst h
    unfold insertTrigger
    split
    · simp
    · exact hc
  · rwa [insertTrigger_of_ne t hlc r h]

theorem stampInsert_lookup {pairs : List (String × SqlValue)} {c : String} {v : SqlValue} (hlc : String)
    (hc : c ≠ hlcTimestampColumn) (h : pairs.lookup c = some v) : (stampInsert pairs hlc).lookup c = some v := by
  have hkept : (pairs.filter fun p => p.1 ≠ hlcTimestampColumn).lookup c = some v := by
    rw [lookup_eq_head] at h ⊢
    rw [List.filter_filter]
    convert h using 4
    funext p
    by_cases hpc : p.1 = c
    · simp [hpc, hc]
    · simp [hpc]
  rw [stampInsert, List.lookup_append, hkept]
  rfl

theorem rows_localInsertOrIgnore (db : Database) (name : String) (pairs : List (String × SqlValue)) (hlc : String) :
    tableRows (localInsertOrIgnore db name pairs hlc) name = tableRows db name ∨
      ∃ r, tableRows (localInsertOrIgnore db name pairs hlc) name = tableRows db name ++ [r] ∧
        ∀ c v, c ≠ hlcTimestampColumn → c ≠ columnHlcsColumn → pairs.lookup c = some v → r c = v := by
  unfold localInsertOrIgnore
  split
  · rename_i db' h
    obtain ⟨t, r, ht, -, hr, rfl⟩ := localInsert_inv h
    refine .inr ⟨r, by simp [tableRows, ht, Database.setTable], fun c v h₁ h₂ hp => ?_⟩
    have hfresh : t.freshRow (stampInsert pairs hlc) c = v := by simp [Table.freshRow, stampInsert_lookup hlc h₁ hp]
    rcases hr with rfl | rfl
    · exact hfresh
    · rw [insertTrigger_of_ne t hlc _ h₂, hfresh]
  · exact .inl rfl

theorem SpaceSchema.localInsert {db db' : Database} (h : SpaceSchema db) {name : String}
    {pairs : List (String × SqlValue)} {hlc : String} (hi : Crdt.localInsert db name pairs hlc = .ok db') :
    SpaceSchema db' := by
  obtain ⟨t, r, ht, hv, hr, rfl⟩ := localInsert_inv hi
  refine h.update rfl fun t₁ ht₁ hname => ?_
  obtain rfl := Option.some.inj (ht.symm.trans ht₁)
  obtain ⟨-, -, -, hshape, hholds⟩ := h.table ht hname
  refine ⟨_, rfl, hholds.append hshape.key hv ?_ ?_⟩
  · rcases hr with rfl | rfl
    · rfl
    · simp only [Table.rowKey, hshape.pk, List.map_cons, List.map_nil]
      rw [insertTrigger_of_ne t hlc _ (by decide)]
  · rcases hr with rfl | rfl
    · exact fun _ h => h
    · exact fun c hc => insertTrigger_ne_null t hlc _ hc

namespace SpaceDb

def insertOrIgnore (s : SpaceDb) (name : String) (pairs : List (String × SqlValue)) (hlc : String) : SpaceDb where
  db := localInsertOrIgnore s.db name pairs hlc
  schema := by
    unfold localInsertOrIgnore
    split
    · exact s.schema.localInsert ‹_›
    · exact s.schema

end SpaceDb

/-! ## Identities -/

/-- A row of `haex_identities`. -/
structure Identity where
  id : String
  did : String
  privateKey : Option String := none
  deriving DecidableEq

/-- `haex_identities`: the id is the primary key, the DID is unique. -/
structure Identities where
  rows : List Identity
  ids : (rows.map (·.id)).Nodup
  dids : (rows.map (·.did)).Nodup

namespace Identities

def resolve (t : Identities) (did : String) : Option String := (Keyed.get (·.did) t.rows did).map (·.id)

/-- `INSERT OR IGNORE`. -/
def insertOrIgnore (t : Identities) (i : Identity) : Identities :=
  if h : i.id ∈ t.rows.map (·.id) ∨ i.did ∈ t.rows.map (·.did) then t
  else
    { rows := t.rows ++ [i]
      ids := by
        rw [List.map_append, List.map_singleton, List.nodup_append]
        refine ⟨t.ids, List.nodup_singleton _, ?_⟩
        rintro _ ha _ hb rfl
        exact h (.inl (List.mem_singleton.1 hb ▸ ha))
      dids := by
        rw [List.map_append, List.map_singleton, List.nodup_append]
        refine ⟨t.dids, List.nodup_singleton _, ?_⟩
        rintro _ ha _ hb rfl
        exact h (.inr (List.mem_singleton.1 hb ▸ ha)) }

theorem resolve_eq_some {t : Identities} {did id : String} :
    t.resolve did = some id ↔ ∃ i ∈ t.rows, i.did = did ∧ i.id = id := by
  simp only [resolve, Option.map_eq_some_iff]
  constructor
  · rintro ⟨i, hi, rfl⟩
    exact ⟨i, Keyed.get_mem hi, Keyed.get_key hi, rfl⟩
  · rintro ⟨i, hi, rfl, rfl⟩
    exact ⟨i, Keyed.get_of_mem t.dids hi, rfl⟩

theorem resolve_inj {t : Identities} {did did' id : String} (h : t.resolve did = some id) (h' : t.resolve did' = some id) :
    did = did' := by
  obtain ⟨i, hi, rfl, rfl⟩ := resolve_eq_some.1 h
  obtain ⟨j, hj, rfl, he⟩ := resolve_eq_some.1 h'
  rw [List.inj_on_of_nodup_map t.ids hi hj he.symm]

theorem resolve_insertOrIgnore {t : Identities} {i : Identity} {did : String} (h : did ≠ i.did) :
    (t.insertOrIgnore i).resolve did = t.resolve did := by
  unfold insertOrIgnore
  split
  · rfl
  · have hni : ¬ i.did = did := fun e => h e.symm
    simp only [resolve, Keyed.get, List.find?_append]
    simp [hni]

end Identities

/-! ## The vault -/

/-- A row of `haex_ucan_tokens`. -/
structure UcanRow where
  spaceId : String
  issuerDid : String
  audienceDid : String
  capability : String
  token : String
  issuedAt : Nat
  expiresAt : Nat
  deriving DecidableEq

/-- A row of `haex_invite_tokens`: `capabilities` as the JSON list it reads as, the times in seconds; a text that
cannot be read is `none`. -/
structure InviteRow where
  id : String
  spaceId : String
  targetDid : Option String
  capabilities : Option (List String)
  preCreatedUcan : Option String
  maxUses : Nat
  currentUses : Nat
  expiresAt : Option Nat
  deriving DecidableEq

/-- `haex_invite_tokens`: the id is the primary key. -/
structure InviteTable where
  rows : List InviteRow
  ids : (rows.map (·.id)).Nodup

namespace InviteTable

def empty : InviteTable := ⟨[], List.nodup_nil⟩

def get (t : InviteTable) (id : String) : Option InviteRow := Keyed.get (·.id) t.rows id

def setUses (t : InviteTable) (id : String) (currentUses : Nat) : InviteTable where
  rows := Keyed.modify (·.id) t.rows id fun row => { row with currentUses }
  ids := by
    rw [Keyed.map_key_modify]
    · exact t.ids
    · exact fun _ h => h

def insertOrReplace (t : InviteTable) (row : InviteRow) : InviteTable where
  rows := t.rows.filter (fun r => r.id ≠ row.id) ++ [row]
  ids := by
    rw [List.map_append, List.map_singleton, List.nodup_append]
    refine ⟨t.ids.sublist (List.filter_sublist.map _), List.nodup_singleton _, ?_⟩
    intro _ ha _ hb
    obtain ⟨r, hr, rfl⟩ := List.mem_map.1 ha
    rw [List.mem_singleton.1 hb]
    simpa using (List.mem_filter.1 hr).2

theorem get_setUses (t : InviteTable) (id id' : String) (currentUses : Nat) :
    (t.setUses id currentUses).get id' =
      if id' = id then (t.get id).map fun row => { row with currentUses } else t.get id' :=
  Keyed.get_modify _ _ _ _ fun _ h => h

theorem get_insertOrReplace (t : InviteTable) (row : InviteRow) (id : String) :
    (t.insertOrReplace row).get id = if id = row.id then some row else t.get id := by
  have hnone : Keyed.get (·.id) (t.rows.filter fun r => r.id ≠ row.id) row.id = none :=
    Keyed.get_eq_none.2 fun r hr => by simpa using (List.mem_filter.1 hr).2
  rw [get, insertOrReplace, Keyed.get_append _ _ _ hnone]
  split
  · rfl
  · rename_i hne
    rw [get, Keyed.get, Keyed.get, List.find?_filter]
    congr 1
    funext r
    by_cases hr : r.id = id
    · simp [hr, hne]
    · simp [hr]

end InviteTable

structure Vault where
  space : SpaceDb
  identities : Identities
  ucanTokens : List UcanRow := []
  inviteTokens : InviteTable := .empty

namespace Vault

def memberRows (v : Vault) : List Row := v.space.rows "haex_space_members"

/-- `is_active_space_member`. -/
def isActiveSpaceMember (v : Vault) (spaceId did : String) : Bool :=
  v.memberRows.any fun m => v.identities.rows.any fun i =>
    m "identity_id" = .text i.id && m "space_id" = .text spaceId && i.did = did

theorem isActiveSpaceMember_iff {v : Vault} {spaceId did : String} :
    v.isActiveSpaceMember spaceId did = true ↔
      ∃ id, v.identities.resolve did = some id ∧
        ∃ m ∈ v.memberRows, m "identity_id" = .text id ∧ m "space_id" = .text spaceId := by
  simp only [isActiveSpaceMember, List.any_eq_true, Bool.and_eq_true, decide_eq_true_eq]
  constructor
  · rintro ⟨m, hm, i, hi, ⟨hid, hs⟩, hd⟩
    exact ⟨i.id, Identities.resolve_eq_some.2 ⟨i, hi, hd, rfl⟩, m, hm, hid, hs⟩
  · rintro ⟨_, hr, m, hm, hid, hs⟩
    obtain ⟨i, hi, hd, rfl⟩ := Identities.resolve_eq_some.1 hr
    exact ⟨m, hm, i, hi, ⟨hid, hs⟩, hd⟩

theorem isActiveSpaceMember_congr {v v' : Vault} (hspace : v'.space = v.space) (hids : v'.identities = v.identities)
    (spaceId did : String) : v'.isActiveSpaceMember spaceId did = v.isActiveSpaceMember spaceId did := by
  simp only [isActiveSpaceMember, memberRows, hspace, hids]

/-- Step 12 of a claim: the identity, and the membership that refers to it. -/
def persistMember (v : Vault) (spaceId did capability identityUuid memberUuid now hlc : String) : Vault :=
  let identities := v.identities.insertOrIgnore ⟨identityUuid, did, none⟩
  match identities.resolve did with
  | none => { v with identities }
  | some id =>
    { v with
      identities
      space := v.space.insertOrIgnore "haex_space_members"
        [("id", .text memberUuid), ("space_id", .text spaceId), ("identity_id", .text id), ("role", .text capability),
          ("joined_at", .text now)] hlc }

/-- `deleteUcansForMembersAsync`. -/
def deleteUcansForMember (v : Vault) (spaceId did : String) : Vault :=
  { v with ucanTokens := v.ucanTokens.filter fun u => !(u.spaceId = spaceId && u.audienceDid = did) }

def deleteMember (v : Vault) (spaceId did : String) : Vault :=
  match v.identities.resolve did with
  | none => v
  | some id =>
    { v with
      space := v.space.delete "haex_space_members" (fun m => m "space_id" = .text spaceId && m "identity_id" = .text id) }

/-- `removeSpaceMember` (with the UCAN tokens), and the leave of a member as it reaches the
leader's own tables (`removeSelfFromSpace`, which may keep them). -/
def removeMember (v : Vault) (spaceId did : String) (deleteUcans : Bool) : Vault :=
  (if deleteUcans then v.deleteUcansForMember spaceId did else v).deleteMember spaceId did

section Claims
variable {v : Vault} {spaceId did capability uuid₁ uuid₂ now hlc : String}

theorem persistMember_identities :
    (v.persistMember spaceId did capability uuid₁ uuid₂ now hlc).identities = v.identities.insertOrIgnore ⟨uuid₁, did, none⟩ := by
  unfold persistMember
  dsimp only
  split <;> rfl

theorem persistMember_inviteTokens :
    (v.persistMember spaceId did capability uuid₁ uuid₂ now hlc).inviteTokens = v.inviteTokens := by
  unfold persistMember
  dsimp only
  split <;> rfl

theorem persistMember_rows (m : Row)
    (hm : m ∈ (v.persistMember spaceId did capability uuid₁ uuid₂ now hlc).memberRows) :
    m ∈ v.memberRows ∨ ∃ id, (v.identities.insertOrIgnore ⟨uuid₁, did, none⟩).resolve did = some id ∧
      m "identity_id" = .text id ∧ m "space_id" = .text spaceId := by
  unfold persistMember at hm
  dsimp only at hm
  split at hm
  · exact .inl hm
  · rename_i id hid
    rcases rows_localInsertOrIgnore v.space.db "haex_space_members" _ hlc with h | ⟨r, h, hr⟩
    · exact .inl ((congrArg (m ∈ ·) h).mp hm)
    · rcases List.mem_append.1 ((congrArg (m ∈ ·) h).mp hm) with hm | hm
      · exact .inl hm
      · obtain rfl := List.mem_singleton.1 hm
        exact .inr ⟨id, hid, hr _ _ (by decide) (by decide) rfl, hr _ _ (by decide) (by decide) rfl⟩

theorem mem_persistMember_rows {m : Row} (hm : m ∈ v.memberRows) :
    m ∈ (v.persistMember spaceId did capability uuid₁ uuid₂ now hlc).memberRows := by
  unfold persistMember
  dsimp only
  split
  · exact hm
  · rcases rows_localInsertOrIgnore v.space.db "haex_space_members" _ hlc with h | ⟨r, h, -⟩
    · exact (congrArg (m ∈ ·) h).mpr hm
    · exact (congrArg (m ∈ ·) h).mpr (List.mem_append_left _ hm)

theorem isActiveSpaceMember_persistMember {s d : String} (h : d ≠ did) :
    (v.persistMember spaceId did capability uuid₁ uuid₂ now hlc).isActiveSpaceMember s d = v.isActiveSpaceMember s d := by
  rw [Bool.eq_iff_iff, isActiveSpaceMember_iff, isActiveSpaceMember_iff, persistMember_identities,
    Identities.resolve_insertOrIgnore h]
  constructor
  · rintro ⟨id, hid, m, hm, hmi, hms⟩
    rcases persistMember_rows m hm with hm | ⟨id', hid', hmi', -⟩
    · exact ⟨id, hid, m, hm, hmi, hms⟩
    · obtain rfl : id = id' := by simpa using hmi.symm.trans hmi'
      rw [← Identities.resolve_insertOrIgnore (i := ⟨uuid₁, did, none⟩) h] at hid
      exact absurd (Identities.resolve_inj hid hid') h
  · rintro ⟨id, hid, m, hm, hmi, hms⟩
    exact ⟨id, hid, m, mem_persistMember_rows hm, hmi, hms⟩

theorem of_isActiveSpaceMember_identity {s d : String} (hfresh : ∀ m ∈ v.memberRows, m "identity_id" ≠ .text uuid₁)
    (h : ({ v with identities := v.identities.insertOrIgnore ⟨uuid₁, did, none⟩ } : Vault).isActiveSpaceMember s d = true) :
    v.isActiveSpaceMember s d = true := by
  obtain ⟨id, hid, m, hm, hmi, hms⟩ := isActiveSpaceMember_iff.1 h
  refine isActiveSpaceMember_iff.2 ⟨id, ?_, m, hm, hmi, hms⟩
  obtain ⟨i, hi, rfl, rfl⟩ := Identities.resolve_eq_some.1 hid
  refine Identities.resolve_eq_some.2 ⟨i, ?_, rfl, rfl⟩
  simp only [Identities.insertOrIgnore] at hi
  split at hi
  · exact hi
  · rcases List.mem_append.1 hi with hi | hi
    · exact hi
    · rw [List.mem_singleton.1 hi] at hmi
      exact absurd hmi (hfresh m hm)

theorem of_isActiveSpaceMember_persistMember {s d : String} (hfresh : ∀ m ∈ v.memberRows, m "identity_id" ≠ .text uuid₁)
    (h : (v.persistMember spaceId did capability uuid₁ uuid₂ now hlc).isActiveSpaceMember s d = true) :
    v.isActiveSpaceMember s d = true ∨ s = spaceId ∧ d = did := by
  obtain ⟨id, hid, m, hm, hmi, hms⟩ := isActiveSpaceMember_iff.1 h
  rw [persistMember_identities] at hid
  rcases persistMember_rows m hm with hm | ⟨id', hid', hmi', hms'⟩
  · exact .inl (of_isActiveSpaceMember_identity hfresh (isActiveSpaceMember_iff.2 ⟨id, hid, m, hm, hmi, hms⟩))
  · obtain rfl : id = id' := by simpa using hmi.symm.trans hmi'
    exact .inr ⟨by simpa using hms.symm.trans hms', Identities.resolve_inj hid hid'⟩

end Claims

section Removals
variable {v : Vault} {spaceId did : String} {deleteUcans : Bool}

theorem memberRows_deleteMember {m : Row} (hm : m ∈ (v.deleteMember spaceId did).memberRows) : m ∈ v.memberRows := by
  unfold deleteMember at hm
  split at hm
  · exact hm
  · rw [memberRows, SpaceDb.rows_delete] at hm
    exact (List.mem_filter.1 hm).1

theorem deleteMember_identities : (v.deleteMember spaceId did).identities = v.identities := by
  unfold deleteMember
  split <;> rfl

theorem removeMember_inviteTokens : (v.removeMember spaceId did deleteUcans).inviteTokens = v.inviteTokens := by
  unfold removeMember deleteMember
  split <;> cases deleteUcans <;> rfl

theorem of_isActiveSpaceMember_removeMember {s d : String}
    (h : (v.removeMember spaceId did deleteUcans).isActiveSpaceMember s d = true) : v.isActiveSpaceMember s d = true := by
  unfold removeMember at h
  rw [isActiveSpaceMember_iff, deleteMember_identities] at h
  obtain ⟨id, hid, m, hm, hmi, hms⟩ := h
  have hm := memberRows_deleteMember hm
  cases deleteUcans
  · exact isActiveSpaceMember_iff.2 ⟨id, hid, m, hm, hmi, hms⟩
  · exact isActiveSpaceMember_iff.2 ⟨id, hid, m, hm, hmi, hms⟩

theorem isActiveSpaceMember_deleteMember_self : (v.deleteMember spaceId did).isActiveSpaceMember spaceId did = false := by
  rw [Bool.eq_false_iff]
  intro h
  rw [isActiveSpaceMember_iff, deleteMember_identities] at h
  obtain ⟨id, hid, m, hm, hmi, hms⟩ := h
  simp only [deleteMember, hid] at hm
  rw [memberRows, SpaceDb.rows_delete] at hm
  simp [hmi, hms] at hm

theorem isActiveSpaceMember_removeMember_self :
    (v.removeMember spaceId did deleteUcans).isActiveSpaceMember spaceId did = false :=
  isActiveSpaceMember_deleteMember_self

end Removals

end Vault

/-! ## Vaults from their rows -/

def storedRow (cells : List (String × SqlValue)) : Row :=
  fun c => ((cells ++ [(columnHlcsColumn, SqlValue.hlcs ∅)]).lookup c).getD .null

def memberRow (id spaceId identityId : String) : Row :=
  storedRow [("id", .text id), ("space_id", .text spaceId), ("identity_id", .text identityId), ("role", .text "read")]

def spaceTablesOf (rows : String → List Row) : Database where
  tables := fun name => (spaceSchema.lookup name).map fun t => { t with rows := rows name }

theorem spaceSchema_tablesOf {rows : String → List Row} (h : ∀ p ∈ spaceSchema, Holds { p.2 with rows := rows p.1 }) :
    SpaceSchema (spaceTablesOf rows) := by
  intro p hp
  refine ⟨rows p.1, ?_, h p hp⟩
  have hl : spaceSchema.lookup p.1 = some p.2 := by
    simp only [spaceSchema, List.mem_cons, List.not_mem_nil, or_false] at hp
    rcases hp with rfl | rfl | rfl | rfl | rfl <;> rfl
  simp [spaceTablesOf, hl]

theorem holds_empty (t : Table) : Holds { t with rows := [] } := ⟨by simp, by simp⟩

end HaexVault.Space
