import Mathlib.Data.List.Dedup
import HaexVault.Mls.Commits
/-!
# Removed members (`stores/spaces/members.ts`, `reconcileMls.ts`)

`removeSpaceMember` deletes the rows of a DID and removes its first leaf from the group;
`reconcileSpace` removes the first leaf of every DID that left `haex_space_members` since the
last pass. What is left of a DID in the group is the tail of its leaves (`removeMember_leavesOf`,
`removed_member_is_out`).
-/

namespace HaexVault.Mls

open HaexVault.Lib.Runs

/-! ## Tables -/

structure Identity where
  id : String
  did : String
  deriving DecidableEq

/-- `haex_identities`, with its primary key and the unique index on the DIDs. -/
structure Identities where
  rows : List Identity
  ids : (rows.map (·.id)).Nodup
  dids : (rows.map (·.did)).Nodup

/-- A row of `haex_space_members`. -/
structure MemberRow where
  spaceId : String
  identityId : String
  deriving DecidableEq

/-- A row of `haex_ucan_tokens`, or of `haex_space_devices`: the space, and the audience or the author. -/
structure DidRow where
  spaceId : String
  did : String
  deriving DecidableEq

def credential (did : String) : List UInt8 := did.toUTF8.data.toList

structure Device where
  group : Option Group
  members : List MemberRow
  ucans : List DidRow
  devices : List DidRow
  /-- The entry of `memberSnapshots`, a set. -/
  snapshot : Option { dids : List String // dids.Nodup } := none
  leader : Bool := false

/-- Whether one step goes through. -/
abbrev Step := Except String Unit

/-- How the calls of one `removeSpaceMember` end. -/
structure RemovalRun where
  selectMembership : Step := .ok ()
  deleteDevices : Step := .ok ()
  reloadShares : Step := .ok ()
  find : Step := .ok ()
  remove : RemoveRun := {}
  deleteUcans : Step := .ok ()
  deleteMembers : Step := .ok ()
  exportEpochKey : Step := .ok ()

/-- How the calls of one `rekeyMlsForRemovedMemberAsync` end. -/
structure RekeyRun where
  find : Step := .ok ()
  remove : RemoveRun := {}
  exportEpochKey : Step := .ok ()

structure PassRun where
  fetch : Step := .ok ()
  /-- `local_delivery_elect`; an election that fails counts as lost. -/
  elect : Step := .ok ()
  rekey : String → RekeyRun := fun _ => {}

section Space
variable (identities : Identities) (spaceId : String)

def membership (s : Device) (did : String) : Option String :=
  (identities.rows.find? fun i => i.did = did ∧ ⟨spaceId, i.id⟩ ∈ s.members).map (·.id)

/-- `fetchMemberDidsAsync`: a set. -/
def fetchMemberDids (s : Device) : { dids : List String // dids.Nodup } :=
  ⟨(identities.rows.filter fun i => ⟨spaceId, i.id⟩ ∈ s.members).map (·.did),
    identities.dids.sublist (List.filter_sublist.map _)⟩

/-- `deleteUcansForMembersAsync` for one DID. -/
def deleteUcans (s : Device) (did : String) : Device :=
  { s with ucans := s.ucans.filter fun r => ¬ (r.spaceId = spaceId ∧ r.did = did) }

def deleteDevices (s : Device) (did : String) : Device :=
  { s with devices := s.devices.filter fun r => ¬ (r.spaceId = spaceId ∧ r.did = did) }

def deleteMembers (s : Device) (identityId : Option String) : Device :=
  match identityId with
  | none => s
  | some id => { s with members := s.members.filter fun r => ¬ (r.spaceId = spaceId ∧ r.identityId = id) }

/-- The index that `mls_find_member_index` finds; a lookup that fails counts as none. -/
def memberIndex (s : Device) (find : Step) (did : String) : Option Nat :=
  match findMemberIndexByDid spaceId find s.group (credential did) with
  | .ok found => found
  | .error _ => none

/-- `mls_remove_member`; what becomes of the commit is not looked at here. -/
def mlsRemove (s : Device) (run : RemoveRun) (index : Nat) : Except String Unit × Device :=
  ((removeMember run spaceId index s.group).1.map fun _ => (),
    { s with group := (removeMember run spaceId index s.group).2 })

def deleteRows (s : Device) (run : RemovalRun) (did : String) (identityId : Option String) : Except String Unit × Device :=
  match run.deleteUcans with
  | .error e => (.error e, s)
  | .ok _ => match run.deleteMembers with
    | .error e => (.error e, deleteUcans spaceId s did)
    | .ok _ => (.ok (), deleteMembers spaceId (deleteUcans spaceId s did) identityId)

/-- The MLS part and the rows, once the device rows are gone. -/
def removeFromGroup (s : Device) (run : RemovalRun) (did : String) (identityId : Option String) :
    Except String Unit × Device :=
  match memberIndex spaceId s run.find did with
  | none => deleteRows spaceId s run did identityId
  | some index => match mlsRemove spaceId s run.remove index with
    | (.error e, s) => (.error e, s)
    | (.ok _, s) => match deleteRows spaceId s run did identityId with
      | (.error e, s) => (.error e, s)
      | (.ok _, s) => (run.exportEpochKey, s)

def removeSpaceMember (s : Device) (run : RemovalRun) (memberDid : String) : Except String Unit × Device :=
  match run.selectMembership with
  | .error e => (.error e, s)
  | .ok _ => match run.deleteDevices with
    | .error e => (.error e, s)
    | .ok _ => match run.reloadShares with
      | .error e => (.error e, deleteDevices spaceId s memberDid)
      | .ok _ =>
        removeFromGroup spaceId (deleteDevices spaceId s memberDid) run memberDid (membership identities spaceId s memberDid)

/-- `rekeyMlsForRemovedMemberAsync`. -/
def rekeyMlsForRemovedMember (s : Device) (run : RekeyRun) (removedDid : String) : Except String Unit × Device :=
  match findMemberIndexByDid spaceId run.find s.group (credential removedDid) with
  | .error e => (.error e, s)
  | .ok none => (.ok (), s)
  | .ok (some index) => match mlsRemove spaceId s run.remove index with
    | (.error e, s) => (.error e, s)
    | (.ok _, s) => (run.exportEpochKey, s)

def rekeyAll (rekey : String → RekeyRun) : List String → Device → List String × Device
  | [], s => ([], s)
  | did :: dids, s => match rekeyMlsForRemovedMember spaceId s (rekey did) did with
    | (.ok _, s) => rekeyAll rekey dids s
    | (.error _, s) => (did :: (rekeyAll rekey dids s).1, (rekeyAll rekey dids s).2)

def disappeared (s : Device) (previous : List String) : List String :=
  previous.filter fun did => did ∉ (fetchMemberDids identities spaceId s).1

inductive PassEnd where
  | threw
  /-- The first pass, or one without a removal. -/
  | unchanged
  | notLeader
  | rekeyed (failed : List String)
  deriving DecidableEq

/-- `reconcileSpaceAsync`. -/
def reconcileSpace (s : Device) (run : PassRun) : PassEnd × Device :=
  let current := fetchMemberDids identities spaceId s
  match run.fetch, s.snapshot with
  | .error _, _ => (.threw, s)
  | .ok _, none => (.unchanged, { s with snapshot := some current })
  | .ok _, some previous =>
    let removed := disappeared identities spaceId s previous.1
    if removed = [] then (.unchanged, { s with snapshot := some current })
    else if s.leader = true ∧ run.elect = .ok () then
      let (failed, s) := rekeyAll spaceId run.rekey removed s
      -- a failed rekey keeps its DID, so that the next pass tries again
      (.rekeyed failed, { s with snapshot := some ⟨(current.1 ++ failed).dedup, List.nodup_dedup _⟩ })
    else (.notLeader, s)

inductive DeviceEvent where
  | memberRemoved (run : RemovalRun) (memberDid : String)
  /-- Deletions of `haex_space_members` rows arrive by sync. -/
  | membersDeleted (rows : List MemberRow)
  | leaderChanged (leader : Bool)
  /-- The vault is closed and opened: the snapshots are gone. -/
  | restarted
  | reconciled (run : PassRun)

def Device.step (s : Device) : DeviceEvent → Device
  | .memberRemoved run memberDid => (removeSpaceMember identities spaceId s run memberDid).2
  | .membersDeleted rows => { s with members := s.members.filter (· ∉ rows) }
  | .leaderChanged leader => { s with leader }
  | .restarted => { s with snapshot := none }
  | .reconciled run => (reconcileSpace identities spaceId s run).2

/-! ## What a removal is for -/

/-- The leaves that carry the DID. -/
def leavesOf (s : Device) (did : String) : List Member :=
  ((s.group.map (·.members)).getD []).filter fun m => m.credential = credential did

def Out (s : Device) : Prop := ∀ did, did ∉ (fetchMemberDids identities spaceId s).1 → leavesOf s did = []

structure NoRows (s : Device) (did : String) : Prop where
  members : did ∉ (fetchMemberDids identities spaceId s).1
  ucans : ⟨spaceId, did⟩ ∉ s.ucans
  devices : ⟨spaceId, did⟩ ∉ s.devices

/-- A removal that returns on the leader, and a pass of the leader in which no rekey fails, leave nobody behind. -/
def DeviceEvent.LeavesNoOne (s : Device) : DeviceEvent → Prop
  | .memberRemoved run did => s.leader = true → (removeSpaceMember identities spaceId s run did).1 = .ok () →
      Out identities spaceId (removeSpaceMember identities spaceId s run did).2 ∧
        NoRows identities spaceId (removeSpaceMember identities spaceId s run did).2 did
  | .reconciled run => s.leader = true → (reconcileSpace identities spaceId s run).1 ∈ [.unchanged, .notLeader, .rekeyed []] →
      Out identities spaceId (reconcileSpace identities spaceId s run).2
  | _ => True

/-- What a removal or a pass finds before it: a removal, at most one leaf of the DID (none where the lookup fails) and no
other leaf without a row; a pass, for every leaf without a row a DID that the snapshot names, that has one leaf, and an
election that goes through. -/
def DeviceEvent.FindsAll (s : Device) : DeviceEvent → Prop
  | .memberRemoved run did => s.leader = true → (removeSpaceMember identities spaceId s run did).1 = .ok () →
      (leavesOf s did).length ≤ (if run.find = .ok () then 1 else 0) ∧
        ∀ did' ≠ did, did' ∉ (fetchMemberDids identities spaceId s).1 → leavesOf s did' = []
  | .reconciled run => s.leader = true → (reconcileSpace identities spaceId s run).1 ∈ [.unchanged, .notLeader, .rekeyed []] →
      ∀ did, did ∉ (fetchMemberDids identities spaceId s).1 → leavesOf s did ≠ [] →
        (∃ previous, s.snapshot = some previous ∧ did ∈ previous.1) ∧ (leavesOf s did).length ≤ 1 ∧ run.elect = .ok ()
  | _ => True

end Space

/-! ## Leaves -/

theorem credential_injective {a b : String} (h : credential a = credential b) : a = b :=
  String.toByteArray_inj.1 (ByteArray.ext (Array.toList_inj.1 h))

def Device.Distinct (s : Device) : Prop := ∀ g, s.group = some g → (g.members.map (·.index)).Nodup

theorem filter_first {members : List Member} {c c' : List UInt8} {m : Member} (hdistinct : (members.map (·.index)).Nodup)
    (hfind : members.find? (fun m => m.credential = c) = some m) :
    (members.filter fun x => x.index ≠ m.index).filter (fun x => x.credential = c') =
      if c' = c then (members.filter fun x => x.credential = c').tail else members.filter fun x => x.credential = c' := by
  obtain ⟨hm, before, after, rfl, hbefore⟩ := List.find?_eq_some_iff_append.1 hfind
  have hm : m.credential = c := by simpa using hm
  -- no other leaf has the index
  have hkeep : (before ++ m :: after).filter (fun x => x.index ≠ m.index) = before ++ after := by
    rw [List.map_append, List.map_cons, List.nodup_append] at hdistinct
    obtain ⟨-, hafter, hapart⟩ := hdistinct
    have hne : ∀ x ∈ before, x.index ≠ m.index := fun x hx => hapart _ (List.mem_map_of_mem hx) _ List.mem_cons_self
    have hne' : ∀ x ∈ after, x.index ≠ m.index := fun x hx h =>
      (List.nodup_cons.1 hafter).1 (h ▸ List.mem_map_of_mem hx)
    rw [List.filter_append, List.filter_cons_of_neg (by simp), List.filter_eq_self.2 fun x hx => by simpa using hne x hx,
      List.filter_eq_self.2 fun x hx => by simpa using hne' x hx]
  rw [hkeep]
  split
  · next heq =>
    subst heq
    have hnone : before.filter (fun x => x.credential = c') = [] :=
      List.filter_eq_nil_iff.2 fun x hx => by simpa using hbefore x hx
    rw [List.filter_append, List.filter_append, hnone, List.filter_cons_of_pos (by simpa using hm), List.nil_append,
      List.nil_append, List.tail_cons]
  · next hne =>
    rw [List.filter_append, List.filter_append, List.filter_cons_of_neg]
    simp only [decide_eq_true_eq, hm]
    exact fun h => hne h.symm

section Space
variable {identities : Identities} {spaceId : String} {s : Device} {did did' : String}

theorem leavesOf_some {g : Group} (h : s.group = some g) :
    leavesOf s did = g.members.filter fun m => m.credential = credential did := by
  simp [leavesOf, h]

theorem leavesOf_none (h : s.group = none) : leavesOf s did = [] := by
  simp [leavesOf, h]

theorem findMemberIndexByDid_ok {find : Step} {found : Option Nat}
    (h : findMemberIndexByDid spaceId find s.group (credential did) = .ok found) :
    find = .ok () ∧ ∃ g, s.group = some g ∧
      found = (g.members.find? fun m => m.credential = credential did).map (·.index) := by
  unfold findMemberIndexByDid at h
  cases find with
  | error e => cases h
  | ok _ =>
    cases hg : s.group with
    | none => rw [hg] at h; cases h
    | some g =>
      rw [hg] at h
      cases h
      exact ⟨rfl, g, rfl, rfl⟩

theorem mlsRemove_ok {run : RemoveRun} {index : Nat} {s' : Device} {u : Unit} (h : mlsRemove spaceId s run index = (.ok u, s')) :
    ∃ g, s.group = some g ∧ s' = { s with group := some (g.withoutLeaf index) } := by
  obtain ⟨hok, rfl⟩ := Prod.mk.inj h
  unfold removeMember at hok ⊢
  cases hload : loadGroup spaceId run.signer run.load s.group with
  | error e => rw [hload] at hok; cases hok
  | ok g =>
    rw [hload] at hok
    cases hrem : run.removeMembers with
    | error e => rw [hrem] at hok; cases hok
    | ok _ =>
      rw [hrem] at hok
      cases hmerge : run.merge with
      | error e => rw [hmerge] at hok; cases hok
      | ok _ => exact ⟨g, loadGroup_ok hload, rfl⟩

/-- A removal of the first leaf leaves the tail of the leaves of its DID, and the others. -/
theorem removeMember_leavesOf {g : Group} {m : Member} (hdistinct : s.Distinct) (hg : s.group = some g)
    (hfind : g.members.find? (fun m => m.credential = credential did) = some m) :
    leavesOf { s with group := some (g.withoutLeaf m.index) } did' =
      if did' = did then (leavesOf s did').tail else leavesOf s did' := by
  rw [leavesOf_some rfl, leavesOf_some hg, Group.withoutLeaf_members, filter_first (hdistinct g hg) hfind]
  by_cases h : did' = did
  · rw [if_pos h, if_pos (by rw [h])]
  · rw [if_neg h, if_neg fun hc => h (credential_injective hc)]

/-! ## Steps keep the leaves apart -/

inductive Trimmed (s : Device) : Device → Prop
  | same : Trimmed s s
  | leaf (g : Group) (index : Nat) : s.group = some g → Trimmed s { s with group := some (g.withoutLeaf index) }

theorem Trimmed.distinct {s' : Device} (h : Trimmed s s') (hs : s.Distinct) : s'.Distinct := by
  cases h with
  | same => exact hs
  | leaf g index hg =>
    rintro _ ⟨⟩
    exact (hs g hg).sublist (List.filter_sublist.map _)

theorem Trimmed.members {s' : Device} (h : Trimmed s s') : s'.members = s.members := by
  cases h <;> rfl

theorem mlsRemove_trimmed (run : RemoveRun) (index : Nat) : Trimmed s (mlsRemove spaceId s run index).2 := by
  unfold mlsRemove removeMember
  cases hload : loadGroup spaceId run.signer run.load s.group with
  | error e => exact .same
  | ok g =>
    cases hrem : run.removeMembers with
    | error e => exact .same
    | ok _ =>
      cases hmerge : run.merge with
      | error e => exact .same
      | ok _ => exact .leaf g index (loadGroup_ok hload)

theorem rekey_trimmed (run : RekeyRun) : Trimmed s (rekeyMlsForRemovedMember spaceId s run did).2 := by
  unfold rekeyMlsForRemovedMember
  split
  · exact .same
  · exact .same
  · next index _ =>
    have h : Trimmed s (mlsRemove spaceId s run.remove index).2 := mlsRemove_trimmed run.remove index
    split
    · next heq => rw [heq] at h; exact h
    · next heq => rw [heq] at h; exact h

theorem rekeyAll_cons (rekey : String → RekeyRun) (dids : List String) :
    (rekeyAll spaceId rekey (did :: dids) s).2 =
      (rekeyAll spaceId rekey dids (rekeyMlsForRemovedMember spaceId s (rekey did) did).2).2 := by
  rw [rekeyAll]
  split
  · next heq => rw [heq]
  · next heq => rw [heq]

theorem rekeyAll_distinct (rekey : String → RekeyRun) {dids : List String} (hs : s.Distinct) :
    (rekeyAll spaceId rekey dids s).2.Distinct := by
  induction dids generalizing s with
  | nil => exact hs
  | cons did dids ih =>
    rw [rekeyAll_cons]
    exact ih ((rekey_trimmed _).distinct hs)

theorem rekeyAll_members (rekey : String → RekeyRun) {dids : List String} :
    (rekeyAll spaceId rekey dids s).2.members = s.members := by
  induction dids generalizing s with
  | nil => rfl
  | cons did dids ih => rw [rekeyAll_cons, ih, (rekey_trimmed _).members]

/-! ## A pass -/

theorem rekey_leavesOf {run : RekeyRun} (hs : s.Distinct) (h : (rekeyMlsForRemovedMember spaceId s run did).1 = .ok ()) :
    leavesOf (rekeyMlsForRemovedMember spaceId s run did).2 did' =
      if did' = did then (leavesOf s did').tail else leavesOf s did' := by
  unfold rekeyMlsForRemovedMember at h ⊢
  cases hfind : findMemberIndexByDid spaceId run.find s.group (credential did) with
  | error e => rw [hfind] at h; cases h
  | ok found =>
    obtain ⟨-, g, hg, hfound⟩ := findMemberIndexByDid_ok hfind
    rw [hfind] at h
    cases hfirst : g.members.find? fun m => m.credential = credential did with
    | none =>
      rw [hfirst] at hfound
      subst hfound
      have hnone : leavesOf s did = [] := by
        rw [leavesOf_some hg, List.filter_eq_nil_iff]
        exact List.find?_eq_none.1 hfirst
      show leavesOf s did' = _
      split
      · next heq => rw [heq, hnone, List.tail_nil]
      · rfl
    | some m =>
      rw [hfirst] at hfound
      subst hfound
      dsimp only [Option.map_some] at h ⊢
      rcases hrem : mlsRemove spaceId s run.remove m.index with ⟨e | u, s'⟩
      · rw [hrem] at h
        cases h
      · obtain ⟨g', hg', rfl⟩ := mlsRemove_ok hrem
        cases hg.symm.trans hg'
        exact removeMember_leavesOf hs hg hfirst

theorem rekeyAll_leavesOf {rekey : String → RekeyRun} {dids : List String} (hs : s.Distinct) (hdids : dids.Nodup)
    (h : (rekeyAll spaceId rekey dids s).1 = []) :
    leavesOf (rekeyAll spaceId rekey dids s).2 did = if did ∈ dids then (leavesOf s did).tail else leavesOf s did := by
  induction dids generalizing s with
  | nil => rw [if_neg List.not_mem_nil]; rfl
  | cons first dids ih =>
    obtain ⟨hfirst, hdids⟩ := List.nodup_cons.1 hdids
    rw [rekeyAll_cons]
    rw [rekeyAll] at h
    split at h
    · next u s' heq =>
      have hok : (rekeyMlsForRemovedMember spaceId s (rekey first) first).1 = .ok () := by rw [heq]
      rw [ih ((rekey_trimmed _).distinct hs) hdids (by rw [heq]; exact h), rekey_leavesOf hs hok]
      by_cases hdid : did = first
      · subst hdid
        rw [if_neg hfirst, if_pos rfl, if_pos List.mem_cons_self]
      · rw [if_neg hdid]
        simp only [List.mem_cons, hdid, false_or]
    · next heq => cases h

theorem fetchMemberDids_congr {s' : Device} (h : s'.members = s.members) :
    fetchMemberDids identities spaceId s' = fetchMemberDids identities spaceId s := by
  simp only [fetchMemberDids, h]

theorem out_congr {s' : Device} (hg : s'.group = s.group) (hm : s'.members = s.members) :
    Out identities spaceId s' ↔ Out identities spaceId s := by
  have hleaves : ∀ did, leavesOf s' did = leavesOf s did := fun did => by simp only [leavesOf, hg]
  simp only [Out, fetchMemberDids_congr hm, hleaves]

theorem mem_disappeared {previous : List String} :
    did ∈ disappeared identities spaceId s previous ↔
      did ∈ previous ∧ did ∉ (fetchMemberDids identities spaceId s).1 := by
  simp [disappeared]

theorem tail_eq_nil {α : Type} {l : List α} : l.tail = [] ↔ l.length ≤ 1 := by
  rw [← List.length_eq_zero_iff, List.length_tail]
  omega

theorem rekeyed_out {previous : { dids : List String // dids.Nodup }} {run : PassRun} (hs : s.Distinct)
    (hfailed : (rekeyAll spaceId run.rekey (disappeared identities spaceId s previous.1) s).1 = []) :
    Out identities spaceId (rekeyAll spaceId run.rekey (disappeared identities spaceId s previous.1) s).2 ↔
      ∀ did, did ∉ (fetchMemberDids identities spaceId s).1 → leavesOf s did ≠ [] →
        did ∈ previous.1 ∧ (leavesOf s did).length ≤ 1 := by
  have hnodup : (disappeared identities spaceId s previous.1).Nodup := previous.2.filter _
  simp only [Out, fetchMemberDids_congr (rekeyAll_members run.rekey), rekeyAll_leavesOf hs hnodup hfailed,
    mem_disappeared]
  refine forall_congr' fun did => forall_congr' fun hrow => ?_
  by_cases hprev : did ∈ previous.1
  · rw [if_pos ⟨hprev, hrow⟩, tail_eq_nil]
    constructor
    · exact fun h _ => ⟨hprev, h⟩
    · intro h
      by_cases hne : leavesOf s did = []
      · rw [hne]
        exact Nat.zero_le 1
      · exact (h hne).2
  · rw [if_neg fun h => hprev h.1]
    constructor
    · exact fun h hne => (hne h).elim
    · intro h
      by_contra hne
      exact hprev (h hne).1

theorem pass_iff (hs : s.Distinct) (run : PassRun) :
    DeviceEvent.LeavesNoOne identities spaceId s (.reconciled run) ↔
      DeviceEvent.FindsAll identities spaceId s (.reconciled run) := by
  simp only [DeviceEvent.LeavesNoOne, DeviceEvent.FindsAll]
  refine forall_congr' fun hleader => ?_
  unfold reconcileSpace
  cases hfetch : run.fetch with
  | error e => simp
  | ok _ =>
    cases hsnap : s.snapshot with
    | none =>
      have hsame : Out identities spaceId { s with snapshot := some (fetchMemberDids identities spaceId s) } ↔
          Out identities spaceId s := out_congr rfl rfl
      dsimp only
      rw [hsame]
      simp [Out]
    | some previous =>
      dsimp only
      by_cases hremoved : disappeared identities spaceId s previous.1 = []
      · -- no DID of the snapshot has lost its rows
        have hrows : ∀ did ∈ previous.1, did ∈ (fetchMemberDids identities spaceId s).1 := by
          intro did hdid
          by_contra hrow
          exact List.eq_nil_iff_forall_not_mem.1 hremoved did (mem_disappeared.2 ⟨hdid, hrow⟩)
        rw [if_pos hremoved, out_congr rfl rfl]
        simp only [List.mem_cons, true_or, true_implies, Out]
        refine forall_congr' fun did => forall_congr' fun hrow => ?_
        constructor
        · exact fun h hne => (hne h).elim
        · intro h
          by_contra hne
          obtain ⟨⟨previous', hprev, hdid⟩, -⟩ := h hne
          cases hprev
          exact hrow (hrows did hdid)
      · rw [if_neg hremoved]
        by_cases helect : run.elect = .ok ()
        · rw [if_pos ⟨hleader, helect⟩]
          rcases hall : rekeyAll spaceId run.rekey (disappeared identities spaceId s previous.1) s with ⟨failed, s'⟩
          have hout := @rekeyed_out identities spaceId s previous run hs
          rw [hall] at hout
          cases failed with
          | cons did failed => simp
          | nil =>
            simp only [List.mem_cons, true_or, or_true, true_implies]
            refine Iff.trans (b := Out identities spaceId s') (out_congr rfl rfl) ?_
            rw [hout rfl]
            simp [helect]
        · rw [if_neg fun h => helect h.2]
          simp only [List.mem_cons, true_or, or_true, true_implies, Out]
          refine forall_congr' fun did => forall_congr' fun hrow => ?_
          constructor
          · exact fun h hne => (hne h).elim
          · intro h
            by_contra hne
            exact helect (h hne).2.2

/-! ## A removal -/

theorem mem_fetchMemberDids : did ∈ (fetchMemberDids identities spaceId s).1 ↔
    ∃ i ∈ identities.rows, ⟨spaceId, i.id⟩ ∈ s.members ∧ i.did = did := by
  simp [fetchMemberDids, and_assoc]

theorem membership_eq_none (h : membership identities spaceId s did = none) :
    did ∉ (fetchMemberDids identities spaceId s).1 := by
  rw [membership, Option.map_eq_none_iff, List.find?_eq_none] at h
  rw [mem_fetchMemberDids]
  rintro ⟨i, hi, hrow, rfl⟩
  exact h i hi (by simpa using hrow)

theorem membership_eq_some {id : String} (h : membership identities spaceId s did = some id) :
    ∃ i ∈ identities.rows, i.id = id ∧ i.did = did := by
  obtain ⟨i, hi, rfl⟩ := Option.map_eq_some_iff.1 h
  have hdid : i.did = did ∧ (⟨spaceId, i.id⟩ : MemberRow) ∈ s.members := by simpa using List.find?_some hi
  exact ⟨i, List.mem_of_find?_eq_some hi, rfl, hdid.1⟩

theorem mem_fetch_deleteMembers {s' : Device} (hm : s'.members = s.members) :
    did' ∈ (fetchMemberDids identities spaceId (deleteMembers spaceId s' (membership identities spaceId s did))).1 ↔
      did' ∈ (fetchMemberDids identities spaceId s).1 ∧ did' ≠ did := by
  cases hmem : membership identities spaceId s did with
  | none =>
    rw [show deleteMembers spaceId s' none = s' from rfl, fetchMemberDids_congr hm]
    refine (and_iff_left_of_imp fun h => ?_).symm
    rintro rfl
    exact membership_eq_none hmem h
  | some id =>
    obtain ⟨i₀, hi₀, rfl, rfl⟩ := membership_eq_some hmem
    simp only [mem_fetchMemberDids, deleteMembers, hm, List.mem_filter, decide_eq_true_eq, true_and]
    constructor
    · rintro ⟨i, hi, ⟨hrow, hid⟩, rfl⟩
      exact ⟨⟨i, hi, hrow, rfl⟩, fun h => hid (by rw [List.inj_on_of_nodup_map identities.dids hi hi₀ h])⟩
    · rintro ⟨⟨i, hi, hrow, rfl⟩, hne⟩
      exact ⟨i, hi, ⟨hrow, fun h => hne (by rw [List.inj_on_of_nodup_map identities.ids hi hi₀ h])⟩, rfl⟩

theorem deleteRows_ok {run : RemovalRun} {identityId : Option String}
    (h : (deleteRows spaceId s run did identityId).1 = .ok ()) :
    (deleteRows spaceId s run did identityId).2 = deleteMembers spaceId (deleteUcans spaceId s did) identityId := by
  unfold deleteRows at h ⊢
  cases hu : run.deleteUcans with
  | error e => rw [hu] at h; cases h
  | ok _ =>
    cases hd : run.deleteMembers with
    | error e => rw [hu, hd] at h; cases h
    | ok _ => rfl

structure Unleafed (s : Device) (find : Step) (did : String) (s' : Device) : Prop where
  members : s'.members = s.members
  ucans : s'.ucans = s.ucans
  devices : s'.devices = s.devices
  own : leavesOf s' did = [] ↔ (leavesOf s did).length ≤ if find = .ok () then 1 else 0
  others : ∀ did' ≠ did, leavesOf s' did' = leavesOf s did'

theorem removeFromGroup_ok {run : RemovalRun} {identityId : Option String} (hs : s.Distinct)
    (h : (removeFromGroup spaceId s run did identityId).1 = .ok ()) :
    ∃ s', (removeFromGroup spaceId s run did identityId).2 = deleteMembers spaceId (deleteUcans spaceId s' did) identityId ∧
      Unleafed s run.find did s' := by
  unfold removeFromGroup memberIndex at h ⊢
  cases hfind : findMemberIndexByDid spaceId run.find s.group (credential did) with
  | error e =>
    rw [hfind] at h
    refine ⟨s, deleteRows_ok h, rfl, rfl, rfl, ?_, fun _ _ => rfl⟩
    cases hg : s.group with
    | none => simp [leavesOf_none hg]
    | some g =>
      -- a lookup in a group that is there fails only by itself
      have hne : run.find ≠ .ok () := by
        intro hok
        rw [hok, hg] at hfind
        cases hfind
      rw [if_neg hne, Nat.le_zero, List.length_eq_zero_iff]
  | ok found =>
    obtain ⟨hok, g, hg, hfound⟩ := findMemberIndexByDid_ok hfind
    rw [hfind] at h
    cases hfirst : g.members.find? fun m => m.credential = credential did with
    | none =>
      rw [hfirst] at hfound
      subst hfound
      have hnone : leavesOf s did = [] := by
        rw [leavesOf_some hg, List.filter_eq_nil_iff]
        exact List.find?_eq_none.1 hfirst
      exact ⟨s, deleteRows_ok h, rfl, rfl, rfl, by simp [hnone], fun _ _ => rfl⟩
    | some m =>
      rw [hfirst] at hfound
      subst hfound
      dsimp only [Option.map_some] at h ⊢
      rcases hrem : mlsRemove spaceId s run.remove m.index with ⟨e | u, s'⟩
      · rw [hrem] at h
        cases h
      · rw [hrem] at h
        dsimp only at h ⊢
        have hrows : (deleteRows spaceId s' run did identityId).1 = .ok () := by
          rcases hdel : deleteRows spaceId s' run did identityId with ⟨e | u, s''⟩
          · rw [hdel] at h
            cases h
          · rfl
        refine ⟨s', ?_, ?_⟩
        · rw [← deleteRows_ok hrows]
          rcases hdel : deleteRows spaceId s' run did identityId with ⟨e | u, s''⟩
          · rfl
          · rfl
        · obtain ⟨g', hg', rfl⟩ := mlsRemove_ok hrem
          cases hg.symm.trans hg'
          have hleaves : ∀ did', leavesOf { s with group := some (g.withoutLeaf m.index) } did' =
              if did' = did then (leavesOf s did').tail else leavesOf s did' :=
            fun _ => removeMember_leavesOf hs hg hfirst
          refine ⟨rfl, rfl, rfl, ?_, fun did' hne => ?_⟩
          · rw [hleaves, if_pos rfl, if_pos hok, tail_eq_nil]
          · rw [hleaves, if_neg hne]

theorem removeSpaceMember_ok {run : RemovalRun} (hs : s.Distinct)
    (h : (removeSpaceMember identities spaceId s run did).1 = .ok ()) :
    ∃ s', (removeSpaceMember identities spaceId s run did).2 =
        deleteMembers spaceId (deleteUcans spaceId s' did) (membership identities spaceId s did) ∧
      Unleafed (deleteDevices spaceId s did) run.find did s' := by
  unfold removeSpaceMember at h ⊢
  cases hm : run.selectMembership with
  | error e => rw [hm] at h; cases h
  | ok _ =>
    cases hd : run.deleteDevices with
    | error e => rw [hm, hd] at h; cases h
    | ok _ =>
      cases hr : run.reloadShares with
      | error e => rw [hm, hd, hr] at h; cases h
      | ok _ =>
        rw [hm, hd, hr] at h
        exact removeFromGroup_ok hs h

theorem deleteMembers_frame (identityId : Option String) : (deleteMembers spaceId s identityId).group = s.group ∧
    (deleteMembers spaceId s identityId).ucans = s.ucans ∧ (deleteMembers spaceId s identityId).devices = s.devices := by
  cases identityId <;> exact ⟨rfl, rfl, rfl⟩

theorem removal_iff (hs : s.Distinct) (run : RemovalRun) (did : String) :
    DeviceEvent.LeavesNoOne identities spaceId s (.memberRemoved run did) ↔
      DeviceEvent.FindsAll identities spaceId s (.memberRemoved run did) := by
  simp only [DeviceEvent.LeavesNoOne, DeviceEvent.FindsAll]
  refine forall_congr' fun _ => forall_congr' fun hok => ?_
  obtain ⟨s', heq, hgone⟩ := removeSpaceMember_ok hs hok
  rw [heq]
  obtain ⟨hgroup, hucans, hdevices⟩ := @deleteMembers_frame spaceId (deleteUcans spaceId s' did)
    (membership identities spaceId s did)
  have hfetch : ∀ did', did' ∈ (fetchMemberDids identities spaceId (deleteMembers spaceId (deleteUcans spaceId s' did)
      (membership identities spaceId s did))).1 ↔ did' ∈ (fetchMemberDids identities spaceId s).1 ∧ did' ≠ did :=
    fun _ => mem_fetch_deleteMembers hgone.members
  have hleaves : ∀ did', leavesOf (deleteMembers spaceId (deleteUcans spaceId s' did)
      (membership identities spaceId s did)) did' = leavesOf s' did' := by
    intro did'
    simp only [leavesOf, hgroup]
    rfl
  have hrows : NoRows identities spaceId (deleteMembers spaceId (deleteUcans spaceId s' did)
      (membership identities spaceId s did)) did := by
    refine ⟨fun h => ((hfetch did).1 h).2 rfl, ?_, ?_⟩
    · rw [hucans]
      simp [deleteUcans]
    · rw [hdevices]
      show _ ∉ s'.devices
      rw [hgone.devices]
      simp [deleteDevices]
  rw [and_iff_left hrows]
  constructor
  · intro hout
    have hclear : ∀ did', ¬ (did' ∈ (fetchMemberDids identities spaceId s).1 ∧ did' ≠ did) → leavesOf s' did' = [] := by
      intro did' h
      rw [← hleaves]
      exact hout did' fun hc => h ((hfetch did').1 hc)
    refine ⟨hgone.own.1 (hclear did fun h => h.2 rfl), fun did' hne hrow => ?_⟩
    have hother : leavesOf s' did' = leavesOf s did' := hgone.others did' hne
    rw [← hother]
    exact hclear did' fun h => hrow h.1
  · rintro ⟨hown, hothers⟩ did' hrow
    rw [hfetch] at hrow
    rw [hleaves]
    by_cases hdid : did' = did
    · rw [hdid]
      exact hgone.own.2 hown
    · have hother : leavesOf s' did' = leavesOf s did' := hgone.others did' hdid
      rw [hother]
      exact hothers did' hdid fun h => hrow ⟨h, hdid⟩

/-! ## Every run -/

theorem deleteRows_group (run : RemovalRun) (identityId : Option String) :
    (deleteRows spaceId s run did identityId).2.group = s.group := by
  unfold deleteRows
  split
  · rfl
  · split
    · rfl
    · exact (deleteMembers_frame identityId).1

theorem removeFromGroup_distinct (hs : s.Distinct) (run : RemovalRun) (identityId : Option String) :
    (removeFromGroup spaceId s run did identityId).2.Distinct := by
  have hrows : ∀ {s : Device}, s.Distinct → (deleteRows spaceId s run did identityId).2.Distinct := by
    intro s hs g hg
    rw [deleteRows_group] at hg
    exact hs g hg
  unfold removeFromGroup
  split
  · exact hrows hs
  · next index _ =>
    have hd : (mlsRemove spaceId s run.remove index).2.Distinct := (mlsRemove_trimmed run.remove index).distinct hs
    split
    · next heq => rw [heq] at hd; exact hd
    · next s' heq =>
      rw [heq] at hd
      have hd' := hrows hd
      split
      · next heq => rw [heq] at hd'; exact hd'
      · next heq => rw [heq] at hd'; exact hd'

theorem Device.Distinct.step (hs : s.Distinct) (e : DeviceEvent) : (s.step identities spaceId e).Distinct := by
  cases e with
  | memberRemoved run did =>
    simp only [Device.step, removeSpaceMember]
    split
    · exact hs
    · split
      · exact hs
      · split
        · exact hs
        · have hs' : (deleteDevices spaceId s did).Distinct := hs
          exact removeFromGroup_distinct hs' run _
  | membersDeleted rows => exact hs
  | leaderChanged leader => exact hs
  | restarted => exact hs
  | reconciled run =>
    simp only [Device.step, reconcileSpace]
    split
    · exact hs
    · exact hs
    · split
      · exact hs
      · split
        · next previous _ _ _ =>
          exact (rekeyAll_distinct run.rekey hs : (rekeyAll spaceId run.rekey _ s).2.Distinct)
        · exact hs

end Space

/-- In every run, nobody is left behind by a removal or a pass exactly when each of them finds all there is to remove. -/
theorem removed_member_is_out (identities : Identities) (spaceId : String) (s : Device) (hs : s.Distinct)
    (es : List DeviceEvent) :
    Guarded (Device.step identities spaceId) (DeviceEvent.LeavesNoOne identities spaceId) s es ↔
      Guarded (Device.step identities spaceId) (DeviceEvent.FindsAll identities spaceId) s es := by
  refine Guarded.congr (Guarded.each (I := Device.Distinct) (G := fun _ _ => True) (fun s e hs _ => hs.step e) ?_
    (guarded_true s es) hs)
  intro s e hs _
  cases e with
  | memberRemoved run did => exact removal_iff hs run did
  | membersDeleted rows => exact Iff.rfl
  | leaderChanged leader => exact Iff.rfl
  | restarted => exact Iff.rfl
  | reconciled run => exact pass_iff hs run

def ownerAndCarol : Identities where
  rows := [⟨"i0", "did:o"⟩, ⟨"i1", "did:c"⟩]
  ids := by decide
  dids := by decide

def carolOn (leaves : List Nat) : Device where
  group := some ⟨3, 0, ⟨0, [10], credential "did:o"⟩ :: leaves.map fun i => ⟨i, [11], credential "did:c"⟩⟩
  members := [⟨"s", "i0"⟩, ⟨"s", "i1"⟩]
  ucans := [⟨"s", "did:c"⟩]
  devices := [⟨"s", "did:c"⟩]
  leader := true

theorem removed_member_is_out_sample :
    (carolOn [1]).Distinct ∧ Guarded (Device.step ownerAndCarol "s") (DeviceEvent.LeavesNoOne ownerAndCarol "s") (carolOn [1])
      [.memberRemoved {} "did:c"] := by
  have hdistinct : (carolOn [1]).Distinct := by
    rintro _ ⟨⟩
    decide
  refine ⟨hdistinct, (removed_member_is_out ownerAndCarol "s" (carolOn [1]) hdistinct _).2 ⟨fun _ _ => ?_, trivial⟩⟩
  refine ⟨by decide +kernel, fun did hne hrow => List.filter_eq_nil_iff.2 fun m hm => ?_⟩
  rw [decide_eq_true_eq]
  intro hc
  have hm : m = ⟨0, [10], credential "did:o"⟩ ∨ m = ⟨1, [11], credential "did:c"⟩ := by simpa [carolOn] using hm
  rcases hm with rfl | rfl
  · rw [← credential_injective hc] at hrow
    exact absurd (by decide +kernel) hrow
  · exact hne (credential_injective hc).symm

/-- A DID with two leaves keeps one of them when it is removed, and one whose deletion arrives before a restart is never
looked for again. -/
theorem carol_stays_in :
    ¬ Guarded (Device.step ownerAndCarol "s") (DeviceEvent.LeavesNoOne ownerAndCarol "s") (carolOn [1, 2])
      [.memberRemoved {} "did:c"] ∧
    ¬ Guarded (Device.step ownerAndCarol "s") (DeviceEvent.LeavesNoOne ownerAndCarol "s") (carolOn [1])
      [.membersDeleted [⟨"s", "i1"⟩], .restarted, .reconciled {}] := by
  constructor
  · rintro ⟨h, -⟩
    have hout := (h rfl (by decide +kernel)).1 "did:c" (by decide +kernel)
    exact absurd hout (by decide +kernel)
  · rintro ⟨-, -, h, -⟩
    have hout := h rfl (by decide +kernel) "did:c" (by decide +kernel)
    exact absurd hout (by decide +kernel)

end HaexVault.Mls
