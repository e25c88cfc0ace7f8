import Mathlib.Algebra.Group.Nat.Defs
import Mathlib.Logic.Function.Basic
import Mathlib.Tactic.MkIffOfInductiveProp
/-!
# Joining an MLS group (`mls/manager.rs`)

`processWelcome` and `joinByExternalCommit` over a store that a library call may change also when it
fails. OpenMLS is a parameter: `Documented` says what a call that succeeds does to the store. A join
that fails late has already changed it (`failed_join_changes_nothing`).
-/

namespace HaexVault.Mls

/-! ## The store and the library -/

structure Store (Group KeyPackage Identity : Type) where
  /-- The group states, by group id. -/
  groups : List UInt8 → Option Group
  /-- The key packages that wait for a Welcome, by reference. -/
  keyPackages : List UInt8 → Option KeyPackage
  /-- The signature keys, the own identity key and the own DID. -/
  identity : Identity

inductive MlsMessageBodyIn (Welcome GroupInfo : Type) where
  | welcome (w : Welcome)
  | groupInfo (gi : GroupInfo)
  | other

/-- The types and calls of OpenMLS and of its storage that the joins use. -/
structure OpenMls where
  Group : Type
  KeyPackage : Type
  Identity : Type
  Signer : Type
  Welcome : Type
  StagedWelcome : Type
  GroupInfo : Type
  /-- An external commit, with its group, at each stage of its builder. -/
  GroupBuilder : Type
  PskBuilder : Type
  CommitBuilder : Type
  Commit : Type
  loadOwnIdentityKey : Identity → Except String (Option (List UInt8))
  readKeyPair : Identity → List UInt8 → Option Signer
  toPublicVec : Signer → List UInt8
  loadOwnDid : Identity → Except String (Option String)
  /-- `MlsMessageIn::tls_deserialize_exact_bytes` and `extract`. -/
  deserialize : List UInt8 → Except String (MlsMessageBodyIn Welcome GroupInfo)
  groupIdOf : Group → List UInt8
  epoch : Group → Nat
  memberCount : Group → Nat
  load : Store Group KeyPackage Identity → List UInt8 → Except String (Option Group)
  delete : Store Group KeyPackage Identity → Group → Except String Unit × Store Group KeyPackage Identity
  newFromWelcome : Store Group KeyPackage Identity → Welcome → Except String StagedWelcome × Store Group KeyPackage Identity
  intoGroup : Store Group KeyPackage Identity → StagedWelcome → Except String Group × Store Group KeyPackage Identity
  /-- `build_group`, given the credential and its signature key. -/
  buildGroup : Store Group KeyPackage Identity → GroupInfo → List UInt8 × List UInt8 → Except String GroupBuilder
  loadPsks : Store Group KeyPackage Identity → GroupBuilder → Except String PskBuilder
  build : PskBuilder → Signer → Except String CommitBuilder
  finalize : Store Group KeyPackage Identity → CommitBuilder →
    Except String (Group × Commit) × Store Group KeyPackage Identity
  mergePendingCommit : Store Group KeyPackage Identity → Group → Except String Group × Store Group KeyPackage Identity
  exportSecret : Group → String → Nat → Except String (List UInt8)
  serializeCommit : Commit → Except String (List UInt8)

namespace OpenMls

variable (lib : OpenMls)

abbrev Vault : Type := Store lib.Group lib.KeyPackage lib.Identity

variable {lib}

def putGroup (st : lib.Vault) (id : List UInt8) (group : Option lib.Group) : lib.Vault :=
  { st with groups := Function.update st.groups id group }

@[simp] theorem putGroup_groups (st : lib.Vault) (id : List UInt8) (group : Option lib.Group) :
    (putGroup st id group).groups = Function.update st.groups id group := rfl
@[simp] theorem putGroup_keyPackages (st : lib.Vault) (id : List UInt8) (group : Option lib.Group) :
    (putGroup st id group).keyPackages = st.keyPackages := rfl
@[simp] theorem putGroup_identity (st : lib.Vault) (id : List UInt8) (group : Option lib.Group) :
    (putGroup st id group).identity = st.identity := rfl

variable (lib)

/-- What the calls do to the store when they succeed; nothing is said of a `delete`, `into_group`, `finalize` or merge
that fails half way. -/
structure Documented : Prop where
  load : ∀ (st : lib.Vault) id group, lib.load st id = .ok group → st.groups id = group
  delete : ∀ (st : lib.Vault) id group, lib.load st id = .ok (some group) → (lib.delete st group).1 = .ok () →
    (lib.delete st group).2 = putGroup st id none
  /-- Staging reads the key package the Welcome names and consumes it. -/
  newFromWelcome : ∀ (st : lib.Vault) w, ∃ ref, ∀ r ≠ ref, (lib.newFromWelcome st w).2.keyPackages r = st.keyPackages r
  newFromWelcome_groups : ∀ (st : lib.Vault) w, (lib.newFromWelcome st w).2.groups = st.groups
  newFromWelcome_identity : ∀ (st : lib.Vault) w, (lib.newFromWelcome st w).2.identity = st.identity
  intoGroup : ∀ (st : lib.Vault) staged group, (lib.intoGroup st staged).1 = .ok group →
    (lib.intoGroup st staged).2 = putGroup st (lib.groupIdOf group) (some group)
  finalize : ∀ (st : lib.Vault) builder group commit, (lib.finalize st builder).1 = .ok (group, commit) →
    (lib.finalize st builder).2 = putGroup st (lib.groupIdOf group) (some group)
  mergePendingCommit : ∀ (st : lib.Vault) group merged, (lib.mergePendingCommit st group).1 = .ok merged →
    (lib.mergePendingCommit st group).2 = putGroup st (lib.groupIdOf group) (some merged)

end OpenMls

/-! ## The joins -/

inductive JoinError where
  /-- A step that failed, and the error it was given. -/
  | failed (step cause : String)
  | unexpected (message : String)
  /-- "Group ID mismatch", with the id that the message holds. -/
  | groupIdMismatch (expected : String) (contained : List UInt8)

structure MlsGroupInfo where
  groupId : String
  epoch : Nat
  memberCount : Nat

structure MlsEpochKey where
  epoch : Nat
  key : List UInt8

def groupId (spaceId : String) : List UInt8 := spaceId.toUTF8.data.toList

section Joins
variable (lib : OpenMls)

def getSigner (st : lib.Vault) : Except JoinError lib.Signer :=
  match lib.loadOwnIdentityKey st.identity with
  | .error e => .error (.failed "Failed to read identity" e)
  | .ok none => .error (.unexpected "No identity found. Call mls_init_identity first.")
  | .ok (some key) => match lib.readKeyPair st.identity key with
    | none => .error (.unexpected "Signature key pair not found in storage")
    | some signer => .ok signer

def getCredentialWithKey (st : lib.Vault) (signer : lib.Signer) : List UInt8 × List UInt8 :=
  let did := match lib.loadOwnDid st.identity with
    | .ok (some did) => did.toUTF8.data.toList
    | _ => []
  (did, lib.toPublicVec signer)

/-- The stale group of the space is deleted before the Welcome is looked at. -/
def deleteStaleGroup (st : lib.Vault) (spaceId : String) : Except JoinError Unit × lib.Vault :=
  match lib.load st (groupId spaceId) with
  | .ok (some oldGroup) => match lib.delete st oldGroup with
    | (.error e, st) => (.error (.failed "Failed to delete stale group before re-join" e), st)
    | (.ok _, st) => (.ok (), st)
  | .ok none => (.ok (), st)
  | .error e => (.error (.failed ("Failed to load existing MLS group for space " ++ spaceId) e), st)

/-- `StagedWelcome::new_from_welcome` and `into_group`. -/
def joinFromWelcome (st : lib.Vault) (welcome : lib.Welcome) : Except JoinError lib.Group × lib.Vault :=
  match lib.newFromWelcome st welcome with
  | (.error e, st) => (.error (.failed "Failed to stage welcome" e), st)
  | (.ok staged, st) => match lib.intoGroup st staged with
    | (.error e, st) => (.error (.failed "Failed to join group from welcome" e), st)
    | (.ok group, st) => (.ok group, st)

def processWelcome (st : lib.Vault) (spaceId : String) (welcomeBytes : List UInt8) :
    Except JoinError MlsGroupInfo × lib.Vault :=
  match lib.deserialize welcomeBytes with
  | .error e => (.error (.failed "Failed to deserialize welcome message" e), st)
  | .ok (.welcome welcome) =>
    match deleteStaleGroup lib st spaceId with
    | (.error e, st) => (.error e, st)
    | (.ok _, st) =>
      match joinFromWelcome lib st welcome with
      | (.error e, st) => (.error e, st)
      | (.ok group, st) =>
        -- compared when the group is stored
        if lib.groupIdOf group = groupId spaceId then
          (.ok ⟨spaceId, lib.epoch group, lib.memberCount group % 2 ^ 32⟩, st)
        else (.error (.groupIdMismatch spaceId (lib.groupIdOf group)), st)
  | .ok _ => (.error (.unexpected "Expected Welcome message but got a different MLS message type"), st)

/-- `build_group`, `load_psks` and `build`, which write nothing. -/
def buildExternalCommit (st : lib.Vault) (gi : lib.GroupInfo) (signer : lib.Signer) : Except JoinError lib.CommitBuilder := do
  let group ← (lib.buildGroup st gi (getCredentialWithKey lib st signer)).mapError
    (.failed "Failed to build external commit group")
  let psks ← (lib.loadPsks st group).mapError (.failed "Failed to load PSKs")
  (lib.build psks signer).mapError (.failed "Failed to build external commit")

def exportJoined (group : lib.Group) (commit : lib.Commit) : Except JoinError (List UInt8 × MlsEpochKey) := do
  let key ← (lib.exportSecret group "haex-vault-sync" 32).mapError (.failed "Failed to export secret")
  let bytes ← (lib.serializeCommit commit).mapError (.failed "Failed to serialize commit")
  .ok (bytes, ⟨lib.epoch group, key⟩)

/-- The commit is built and the group it makes is stored. -/
def finalizeExternalCommit (st : lib.Vault) (groupInfoBytes : List UInt8) :
    Except JoinError (lib.Group × lib.Commit) × lib.Vault :=
  match getSigner lib st with
  | .error e => (.error e, st)
  | .ok signer => match lib.deserialize groupInfoBytes with
    | .error e => (.error (.failed "Failed to deserialize MLS message" e), st)
    | .ok (.groupInfo gi) => match buildExternalCommit lib st gi signer with
      | .error e => (.error e, st)
      | .ok builder => match lib.finalize st builder with
        | (.error e, st) => (.error (.failed "Failed to finalize external commit" e), st)
        | (.ok joined, st) => (.ok joined, st)
    | .ok _ => (.error (.unexpected "Expected GroupInfo but got another message body"), st)

def joinByExternalCommit (st : lib.Vault) (spaceId : String) (groupInfoBytes : List UInt8) :
    Except JoinError (List UInt8 × MlsEpochKey) × lib.Vault :=
  match finalizeExternalCommit lib st groupInfoBytes with
  | (.error e, st) => (.error e, st)
  | (.ok (group, commit), st) =>
    if lib.groupIdOf group = groupId spaceId then
      match lib.mergePendingCommit st group with
      | (.error e, st) => (.error (.failed "Failed to merge external commit" e), st)
      | (.ok group, st) => (exportJoined lib group commit, st)
    else (.error (.groupIdMismatch spaceId (lib.groupIdOf group)), st)

/-! ## What a failed join leaves -/

variable {lib} {st : lib.Vault} {spaceId : String}

structure JoinedOnly (spaceId : String) (st st' : lib.Vault) : Prop where
  groups : ∀ id ≠ groupId spaceId, st'.groups id = st.groups id
  keyPackages : ∃ ref, ∀ r ≠ ref, st'.keyPackages r = st.keyPackages r
  identity : st'.identity = st.identity

/-- A join that fails keeps every stored group; one that succeeds changes the group of its space. -/
structure Atomic {α : Type} (spaceId : String) (st : lib.Vault) (joined : Except JoinError α × lib.Vault) : Prop where
  error : ∀ e, joined.1 = .error e → joined.2.groups = st.groups
  ok : ∀ a, joined.1 = .ok a → JoinedOnly spaceId st joined.2

def cleared (spaceId : String) (st : lib.Vault) : lib.Vault := OpenMls.putGroup st (groupId spaceId) none

def StaleRemoved (lib : OpenMls) (st : lib.Vault) (spaceId : String) : Prop :=
  lib.load st (groupId spaceId) = .ok none ∨
    ∃ old, lib.load st (groupId spaceId) = .ok (some old) ∧ (lib.delete st old).1 = .ok ()

/-- No step fails with the groups changed: what a Welcome for the space meets in the store before it. -/
@[mk_iff] structure WelcomeFailsClean (lib : OpenMls) (st : lib.Vault) (spaceId : String) (welcome : lib.Welcome) : Prop where
  /-- A delete that fails leaves the stale group whole. -/
  delete : ∀ old, lib.load st (groupId spaceId) = .ok (some old) → ∀ e, (lib.delete st old).1 = .error e →
    (lib.delete st old).2.groups = st.groups
  /-- A Welcome that cannot be staged finds no group of the space. -/
  stage : StaleRemoved lib st spaceId → ∀ e, (lib.newFromWelcome (cleared spaceId st) welcome).1 = .error e →
    st.groups (groupId spaceId) = none
  intoGroup : StaleRemoved lib st spaceId → ∀ staged, (lib.newFromWelcome (cleared spaceId st) welcome).1 = .ok staged →
    ∀ e, (lib.intoGroup (lib.newFromWelcome (cleared spaceId st) welcome).2 staged).1 = .error e →
      (lib.intoGroup (lib.newFromWelcome (cleared spaceId st) welcome).2 staged).2.groups = st.groups
  /-- The Welcome is one for this space, or its group is stored as it is and the space has none. -/
  own : StaleRemoved lib st spaceId → ∀ staged, (lib.newFromWelcome (cleared spaceId st) welcome).1 = .ok staged →
    ∀ group, (lib.intoGroup (lib.newFromWelcome (cleared spaceId st) welcome).2 staged).1 = .ok group →
      lib.groupIdOf group = groupId spaceId ∨
        st.groups (groupId spaceId) = none ∧ st.groups (lib.groupIdOf group) = some group

/-- No step of the external commit fails with the groups changed. -/
@[mk_iff] structure CommitFailsClean (lib : OpenMls) (st : lib.Vault) (spaceId : String) (builder : lib.CommitBuilder) :
    Prop where
  finalize : ∀ e, (lib.finalize st builder).1 = .error e → (lib.finalize st builder).2.groups = st.groups
  /-- The GroupInfo is one of this space, or its group is stored as it is. -/
  own : ∀ joined, (lib.finalize st builder).1 = .ok joined →
    lib.groupIdOf joined.1 = groupId spaceId ∨ st.groups (lib.groupIdOf joined.1) = some joined.1
  merge : ∀ joined, (lib.finalize st builder).1 = .ok joined → lib.groupIdOf joined.1 = groupId spaceId →
    ∀ e, (lib.mergePendingCommit (lib.finalize st builder).2 joined.1).1 = .error e →
      (lib.mergePendingCommit (lib.finalize st builder).2 joined.1).2.groups = st.groups
  /-- The key and the commit can be had, or the merged group is the one that was stored. -/
  exported : ∀ joined, (lib.finalize st builder).1 = .ok joined → lib.groupIdOf joined.1 = groupId spaceId →
    ∀ merged, (lib.mergePendingCommit (lib.finalize st builder).2 joined.1).1 = .ok merged →
      ∀ e, exportJoined lib merged joined.2 = .error e → st.groups (groupId spaceId) = some merged

/-! ## The Welcome -/

theorem cleared_eq_self (h : st.groups (groupId spaceId) = none) : cleared spaceId st = st := by
  have hg : Function.update st.groups (groupId spaceId) none = st.groups := by rw [← h, Function.update_eq_self]
  simp only [cleared, OpenMls.putGroup, hg]

theorem cleared_groups_iff : (cleared spaceId st).groups = st.groups ↔ st.groups (groupId spaceId) = none := by
  constructor
  · intro h
    rw [← h, cleared, OpenMls.putGroup_groups, Function.update_self]
  · intro h
    rw [cleared_eq_self h]

theorem deleteStaleGroup_cases (hlib : lib.Documented) :
    (StaleRemoved lib st spaceId ∧ deleteStaleGroup lib st spaceId = (.ok (), cleared spaceId st) ∧
      ∀ old, lib.load st (groupId spaceId) = .ok (some old) → ∀ e, (lib.delete st old).1 ≠ .error e) ∨
    (¬ StaleRemoved lib st spaceId ∧ ∃ e st', deleteStaleGroup lib st spaceId = (.error e, st') ∧
      ((∀ old, lib.load st (groupId spaceId) = .ok (some old) → ∀ e, (lib.delete st old).1 = .error e →
        (lib.delete st old).2.groups = st.groups) ↔ st'.groups = st.groups)) := by
  unfold deleteStaleGroup StaleRemoved
  cases hload : lib.load st (groupId spaceId) with
  | error e => exact .inr ⟨by simp, _, _, rfl, by simp⟩
  | ok found =>
    cases found with
    | none =>
      refine .inl ⟨.inl rfl, ?_, by simp⟩
      rw [cleared_eq_self (hlib.load _ _ _ hload)]
    | some old =>
      rcases hdel : lib.delete st old with ⟨cause | u, st'⟩
      · exact .inr ⟨by simp [hdel], .failed "Failed to delete stale group before re-join" cause, st',
          by simp only [hdel], by simp [hdel]⟩
      · have hst' : st' = cleared spaceId st := by
          have := hlib.delete st _ old hload (by rw [hdel])
          rwa [hdel] at this
        exact .inl ⟨.inr ⟨old, rfl, by rw [hdel]⟩, by simp only [hdel, hst'], by simp [hdel]⟩

theorem atomic_error {α : Type} {e : JoinError} {st' : lib.Vault} :
    Atomic spaceId st ((.error e, st') : Except JoinError α × lib.Vault) ↔ st'.groups = st.groups := by
  constructor
  · intro h
    exact h.error e rfl
  · intro h
    refine ⟨fun _ _ => h, fun _ ha => ?_⟩
    cases ha

theorem atomic_ok {α : Type} {a : α} {st' : lib.Vault} :
    Atomic spaceId st (.ok a, st') ↔ JoinedOnly spaceId st st' := by
  constructor
  · intro h
    exact h.ok a rfl
  · intro h
    refine ⟨fun _ he => ?_, fun _ _ => h⟩
    cases he

theorem update_eq_iff {α β : Type} [DecidableEq α] {f : α → β} {a : α} {b : β} : Function.update f a b = f ↔ f a = b := by
  constructor
  · intro h
    rw [← h, Function.update_self]
  · rintro rfl
    exact Function.update_eq_self a f

theorem update_cleared_iff {id : List UInt8} {group : lib.Group} (hid : id ≠ groupId spaceId) :
    Function.update (cleared spaceId st).groups id (some group) = st.groups ↔
      st.groups (groupId spaceId) = none ∧ st.groups id = some group := by
  rw [cleared, OpenMls.putGroup_groups]
  constructor
  · intro h
    constructor
    · rw [← h, Function.update_of_ne hid.symm, Function.update_self]
    · rw [← h, Function.update_self]
  · rintro ⟨hown, hother⟩
    rw [update_eq_iff.2 hown, update_eq_iff.2 hother]

theorem joinedOnly_welcome (hlib : lib.Documented) {welcome : lib.Welcome} {group : lib.Group}
    (hid : lib.groupIdOf group = groupId spaceId) :
    JoinedOnly spaceId st
      (OpenMls.putGroup (lib.newFromWelcome (cleared spaceId st) welcome).2 (lib.groupIdOf group) (some group)) := by
  refine ⟨fun id hne => ?_, ?_, ?_⟩
  · rw [OpenMls.putGroup_groups, hid, Function.update_of_ne hne, hlib.newFromWelcome_groups, cleared,
      OpenMls.putGroup_groups, Function.update_of_ne hne]
  · exact hlib.newFromWelcome _ _
  · exact hlib.newFromWelcome_identity _ _

theorem joinFromWelcome_atomic (hlib : lib.Documented) {welcome : lib.Welcome} (hgone : StaleRemoved lib st spaceId)
    (hdelete : ∀ old, lib.load st (groupId spaceId) = .ok (some old) → ∀ e, (lib.delete st old).1 ≠ .error e)
    {bytes : List UInt8} (hw : lib.deserialize bytes = .ok (.welcome welcome))
    (hdel : deleteStaleGroup lib st spaceId = (.ok (), cleared spaceId st)) :
    Atomic spaceId st (processWelcome lib st spaceId bytes) ↔ WelcomeFailsClean lib st spaceId welcome := by
  simp only [processWelcome, hw, hdel, joinFromWelcome]
  rw [welcomeFailsClean_iff, and_iff_right fun old hload e herr => (hdelete old hload e herr).elim]
  have hgroups := hlib.newFromWelcome_groups (cleared spaceId st) welcome
  have hjoined : ∀ group, lib.groupIdOf group = groupId spaceId → JoinedOnly spaceId st
      (OpenMls.putGroup (lib.newFromWelcome (cleared spaceId st) welcome).2 (lib.groupIdOf group) (some group)) :=
    fun group hid => joinedOnly_welcome hlib hid
  rcases hstage : lib.newFromWelcome (cleared spaceId st) welcome with ⟨cause | staged, st₁⟩
  · rw [hstage] at hgroups
    rw [atomic_error, hgroups, cleared_groups_iff]
    simp [hgone]
  · rw [hstage] at hgroups hjoined
    rcases hinto : lib.intoGroup st₁ staged with ⟨cause | group, st₂⟩
    · simp only [hinto]
      rw [atomic_error]
      simp [hgone, hinto]
    · have hst₂ : st₂ = OpenMls.putGroup st₁ (lib.groupIdOf group) (some group) := by
        have := hlib.intoGroup st₁ staged group (by rw [hinto])
        rwa [hinto] at this
      simp only [hinto]
      by_cases hid : lib.groupIdOf group = groupId spaceId
      · rw [if_pos hid, atomic_ok, hst₂]
        refine iff_of_true (hjoined group hid) ?_
        simp [hinto, hid]
      · rw [if_neg hid, atomic_error, hst₂, OpenMls.putGroup_groups, hgroups, update_cleared_iff hid]
        simp [hgone, hinto, hid]

theorem processWelcome_atomic (hlib : lib.Documented) {bytes : List UInt8} {welcome : lib.Welcome}
    (hw : lib.deserialize bytes = .ok (.welcome welcome)) :
    Atomic spaceId st (processWelcome lib st spaceId bytes) ↔ WelcomeFailsClean lib st spaceId welcome := by
  rcases deleteStaleGroup_cases hlib with ⟨hgone, hdel, hdelete⟩ | ⟨hstays, e, st', hdel, hkept⟩
  · exact joinFromWelcome_atomic hlib hgone hdelete hw hdel
  · simp only [processWelcome, hw, hdel]
    rw [atomic_error, ← hkept, welcomeFailsClean_iff]
    simp [hstays]

/-! ## The external commit -/

theorem joinedOnly_commit {group merged : lib.Group} (hid : lib.groupIdOf group = groupId spaceId) :
    JoinedOnly spaceId st (OpenMls.putGroup (OpenMls.putGroup st (lib.groupIdOf group) (some group)) (lib.groupIdOf group)
      (some merged)) := by
  refine ⟨fun id hne => ?_, ⟨[], fun _ _ => rfl⟩, rfl⟩
  rw [OpenMls.putGroup_groups, OpenMls.putGroup_groups, Function.update_idem, hid, Function.update_of_ne hne]

theorem joinByExternalCommit_atomic (hlib : lib.Documented) {bytes : List UInt8} {signer : lib.Signer}
    {gi : lib.GroupInfo} {builder : lib.CommitBuilder} (hsigner : getSigner lib st = .ok signer)
    (hgi : lib.deserialize bytes = .ok (.groupInfo gi)) (hbuilder : buildExternalCommit lib st gi signer = .ok builder) :
    Atomic spaceId st (joinByExternalCommit lib st spaceId bytes) ↔ CommitFailsClean lib st spaceId builder := by
  simp only [joinByExternalCommit, finalizeExternalCommit, hsigner, hgi, hbuilder]
  rw [commitFailsClean_iff]
  rcases hfin : lib.finalize st builder with ⟨cause | ⟨group, commit⟩, st₁⟩
  · rw [atomic_error]
    simp
  · have hst₁ : st₁ = OpenMls.putGroup st (lib.groupIdOf group) (some group) := by
      have := hlib.finalize st builder group commit (by rw [hfin])
      rwa [hfin] at this
    dsimp only
    by_cases hid : lib.groupIdOf group = groupId spaceId
    · rw [if_pos hid]
      rcases hmerge : lib.mergePendingCommit st₁ group with ⟨cause | merged, st₂⟩
      · rw [atomic_error]
        simp [hid, hmerge]
      · have hst₂ : st₂ = OpenMls.putGroup st₁ (lib.groupIdOf group) (some merged) := by
          have := hlib.mergePendingCommit st₁ group merged (by rw [hmerge])
          rwa [hmerge] at this
        cases hexp : exportJoined lib merged commit with
        | error e =>
          have hgroups : st₂.groups = Function.update st.groups (groupId spaceId) (some merged) := by
            rw [hst₂, hst₁, OpenMls.putGroup_groups, OpenMls.putGroup_groups, Function.update_idem, hid]
          simp only [hexp]
          rw [atomic_error, hgroups, update_eq_iff]
          simp [hid, hmerge, hexp]
        | ok joined =>
          have hjoined : JoinedOnly spaceId st st₂ := by
            rw [hst₂, hst₁]
            exact joinedOnly_commit hid
          simp only [hexp]
          rw [atomic_ok]
          refine iff_of_true hjoined ?_
          simp [hid, hmerge, hexp]
    · have hgroups : st₁.groups = Function.update st.groups (lib.groupIdOf group) (some group) := by rw [hst₁]; rfl
      rw [if_neg hid, atomic_error, hgroups, update_eq_iff]
      simp [hid]

/-! ## Every received byte string -/

/-- Whatever the bytes are, no step of the join they start fails with the groups changed. -/
structure FailsClean (lib : OpenMls) (st : lib.Vault) (spaceId : String) (bytes : List UInt8) : Prop where
  welcome : ∀ welcome, lib.deserialize bytes = .ok (.welcome welcome) → WelcomeFailsClean lib st spaceId welcome
  commit : ∀ signer, getSigner lib st = .ok signer → ∀ gi, lib.deserialize bytes = .ok (.groupInfo gi) →
    ∀ builder, buildExternalCommit lib st gi signer = .ok builder → CommitFailsClean lib st spaceId builder

theorem processWelcome_refused {bytes : List UInt8} (hw : ∀ welcome, lib.deserialize bytes ≠ .ok (.welcome welcome)) :
    Atomic spaceId st (processWelcome lib st spaceId bytes) := by
  unfold processWelcome
  split
  · exact atomic_error.2 rfl
  · next welcome h => exact (hw welcome h).elim
  · exact atomic_error.2 rfl

theorem joinByExternalCommit_refused {bytes : List UInt8}
    (h : ∀ signer, getSigner lib st = .ok signer → ∀ gi, lib.deserialize bytes = .ok (.groupInfo gi) →
      ∀ builder, buildExternalCommit lib st gi signer ≠ .ok builder) :
    Atomic spaceId st (joinByExternalCommit lib st spaceId bytes) := by
  have hrefused : ∃ e, finalizeExternalCommit lib st bytes = (.error e, st) := by
    unfold finalizeExternalCommit
    split
    · exact ⟨_, rfl⟩
    · next signer hsigner =>
      split
      · exact ⟨_, rfl⟩
      · next gi hgi =>
        split
        · exact ⟨_, rfl⟩
        · next builder hbuilder => exact (h signer hsigner gi hgi builder hbuilder).elim
      · exact ⟨_, rfl⟩
  obtain ⟨e, he⟩ := hrefused
  simp only [joinByExternalCommit, he]
  exact atomic_error.2 rfl

/-- A failed join changes nothing exactly when no step that fails comes after one that changed the groups. -/
theorem failed_join_changes_nothing (lib : OpenMls) (hlib : lib.Documented) (st : lib.Vault) (spaceId : String)
    (bytes : List UInt8) :
    (Atomic spaceId st (processWelcome lib st spaceId bytes) ∧
      Atomic spaceId st (joinByExternalCommit lib st spaceId bytes)) ↔ FailsClean lib st spaceId bytes := by
  constructor
  · rintro ⟨hwelcome, hcommit⟩
    refine ⟨fun welcome hw => (processWelcome_atomic hlib hw).1 hwelcome, fun signer hs gi hgi builder hb => ?_⟩
    exact (joinByExternalCommit_atomic hlib hs hgi hb).1 hcommit
  · intro h
    constructor
    · by_cases hw : ∃ welcome, lib.deserialize bytes = .ok (.welcome welcome)
      · obtain ⟨welcome, hw⟩ := hw
        exact (processWelcome_atomic hlib hw).2 (h.welcome welcome hw)
      · exact processWelcome_refused fun welcome hwelcome => hw ⟨welcome, hwelcome⟩
    · by_cases hc : ∃ signer gi builder, getSigner lib st = .ok signer ∧ lib.deserialize bytes = .ok (.groupInfo gi) ∧
          buildExternalCommit lib st gi signer = .ok builder
      · obtain ⟨signer, gi, builder, hs, hgi, hb⟩ := hc
        exact (joinByExternalCommit_atomic hlib hs hgi hb).2 (h.commit signer hs gi hgi builder hb)
      · exact joinByExternalCommit_refused fun signer hs gi hgi builder hb => hc ⟨signer, gi, builder, hs, hgi, hb⟩

end Joins

/-! ## A small library -/

/-- Groups of an id and an epoch. A Welcome is tagged 1 and names its group and key package, a GroupInfo is tagged 2. -/
def sampleMls : OpenMls where
  Group := List UInt8 × Nat
  KeyPackage := Unit
  Identity := String
  Signer := Unit
  Welcome := List UInt8
  StagedWelcome := List UInt8
  GroupInfo := List UInt8
  GroupBuilder := List UInt8
  PskBuilder := List UInt8
  CommitBuilder := List UInt8
  Commit := List UInt8
  loadOwnIdentityKey _ := .ok (some [7])
  readKeyPair _ _ := some ()
  toPublicVec _ := [7]
  loadOwnDid did := .ok (some did)
  deserialize bytes := match bytes with
    | 1 :: id => .ok (.welcome id)
    | 2 :: id => .ok (.groupInfo id)
    | [] => .error "EndOfStream"
    | _ => .ok .other
  groupIdOf := Prod.fst
  epoch := Prod.snd
  memberCount _ := 2
  load st id := match st.groups id with
    | none => .ok none
    | some group => if group.1 = id then .ok (some group) else .error "corrupt"
  delete st group := (.ok (), { st with groups := Function.update st.groups group.1 none })
  newFromWelcome st id := match st.keyPackages id with
    | none => (.error "NoMatchingKeyPackage", st)
    | some _ => (.ok id, { st with keyPackages := Function.update st.keyPackages id none })
  intoGroup st id := (.ok (id, 5), { st with groups := Function.update st.groups id (some (id, 5)) })
  buildGroup _ id _ := .ok id
  loadPsks _ id := .ok id
  build id _ := .ok id
  finalize st id := (.ok ((id, 5), id), { st with groups := Function.update st.groups id (some (id, 5)) })
  mergePendingCommit st group :=
    (.ok (group.1, group.2 + 1), { st with groups := Function.update st.groups group.1 (some (group.1, group.2 + 1)) })
  exportSecret _ _ _ := .ok [0]
  serializeCommit commit := .ok commit

theorem sampleMls_documented : sampleMls.Documented where
  load st id group h := by
    simp only [sampleMls] at h
    split at h
    · next hnone => cases h; exact hnone
    · next found hsome =>
      split at h
      · cases h; exact hsome
      · cases h
  delete st id group h _ := by
    simp only [sampleMls] at h
    split at h
    · cases h
    · split at h
      · next hid => cases h; rw [← hid]; rfl
      · cases h
  newFromWelcome st w := by
    refine ⟨w, fun r hr => ?_⟩
    simp only [sampleMls]
    split
    · rfl
    · exact Function.update_of_ne hr _ _
  newFromWelcome_groups st w := by
    simp only [sampleMls]
    split <;> rfl
  newFromWelcome_identity st w := by
    simp only [sampleMls]
    split <;> rfl
  intoGroup st staged group h := by cases h; rfl
  finalize st builder group commit h := by cases h; rfl
  mergePendingCommit st group merged h := by cases h; rfl

def sampleVault (keyPackage : Option Unit) : sampleMls.Vault where
  groups id := if id = groupId "s" then some (id, 3) else if id = groupId "t" then some (id, 9) else none
  keyPackages ref := if ref = groupId "s" then keyPackage else none
  identity := "did:key:bob"

/-- A Welcome of the space whose key package waits is joined, and a join that fails would have failed before. -/
theorem failed_join_changes_nothing_sample :
    FailsClean sampleMls (sampleVault (some ())) "s" (1 :: groupId "s") ∧
      Atomic "s" (sampleVault (some ())) (processWelcome sampleMls (sampleVault (some ())) "s" (1 :: groupId "s")) ∧
      Atomic "s" (sampleVault (some ())) (joinByExternalCommit sampleMls (sampleVault (some ())) "s" (1 :: groupId "s")) := by
  have hclean : FailsClean sampleMls (sampleVault (some ())) "s" (1 :: groupId "s") := by
    refine ⟨fun welcome hw => ?_, fun signer _ gi hgi => ?_⟩
    · cases hw
      refine ⟨fun old _ e he => ?_, fun _ e he => ?_, fun _ staged hs e he => ?_, fun _ staged hs group hg => ?_⟩
      · cases he
      · cases he
      · cases he
      · cases hs
        cases hg
        exact .inl rfl
    · cases hgi
  exact ⟨hclean, (failed_join_changes_nothing sampleMls sampleMls_documented (sampleVault (some ())) "s"
    (1 :: groupId "s")).2 hclean⟩

/-- A Welcome whose key package is used up takes the group of its space with it, and the GroupInfo of another space
replaces the group of that space. -/
theorem failed_join_loses_group : sampleMls.Documented ∧
    ¬ Atomic "s" (sampleVault none) (processWelcome sampleMls (sampleVault none) "s" (1 :: groupId "s")) ∧
    ¬ Atomic "s" (sampleVault none) (joinByExternalCommit sampleMls (sampleVault none) "s" (2 :: groupId "t")) := by
  refine ⟨sampleMls_documented, fun h => ?_, fun h => ?_⟩
  · have hs : none = some (groupId "s", 3) := congrFun (h.error (.failed "Failed to stage welcome" "NoMatchingKeyPackage")
      rfl) (groupId "s")
    cases hs
  · have ht : some (groupId "t", 5) = some (groupId "t", 9) :=
      congrFun (h.error (.groupIdMismatch "s" (groupId "t")) rfl) (groupId "t")
    cases ht

end HaexVault.Mls
