import Mathlib.Data.List.Basic
import HaexVault.Lib.Runs
/-!
# Commits and epochs (`mls/manager.rs`, `space_delivery/local/leader.rs`, `members.ts`, `reconcileMls.ts`)

A member in an epoch processes the commits that were created in it. `addMember` and `removeMember`
merge a commit into the stored group before they return it, and the callers go on when it could not
be stored (`members_keep_up`).
-/

namespace HaexVault.Mls

open HaexVault.Lib.Runs

/-! ## Groups -/

/-- A leaf of the tree. -/
structure Member where
  index : Nat
  signatureKey : List UInt8
  /-- The content of the credential: a DID. -/
  credential : List UInt8
  deriving DecidableEq

structure KeyPackage where
  signatureKey : List UInt8
  credential : List UInt8
  deriving DecidableEq

/-- The stored state of a group, as far as the manager reads it. -/
structure Group where
  epoch : Nat
  ownLeafIndex : Nat
  members : List Member
  deriving DecidableEq

/-- A commit is processed in the epoch it was created in. -/
structure Commit where
  epoch : Nat
  deriving DecidableEq

structure Welcome where
  epoch : Nat
  deriving DecidableEq

structure MlsCommitBundle where
  commit : Commit
  welcome : Option Welcome
  deriving DecidableEq

namespace Group

def freeIndex (g : Group) : Nat :=
  ((List.range (g.members.length + 1)).find? fun i => g.members.all (·.index ≠ i)).getD g.members.length

def withMember (g : Group) (kp : KeyPackage) : Group :=
  { g with epoch := g.epoch + 1, members := g.members ++ [⟨g.freeIndex, kp.signatureKey, kp.credential⟩] }

def withoutLeaf (g : Group) (index : Nat) : Group :=
  { g with epoch := g.epoch + 1, members := g.members.filter fun m => m.index ≠ index }

@[simp] theorem withMember_epoch (g : Group) (kp : KeyPackage) : (g.withMember kp).epoch = g.epoch + 1 := rfl
@[simp] theorem withoutLeaf_epoch (g : Group) (index : Nat) : (g.withoutLeaf index).epoch = g.epoch + 1 := rfl
@[simp] theorem withoutLeaf_members (g : Group) (index : Nat) :
    (g.withoutLeaf index).members = g.members.filter fun m => m.index ≠ index := rfl

end Group

/-! ## The manager -/

/-- How the calls of one `remove_member` end. -/
structure RemoveRun where
  signer : Except String Unit := .ok ()
  load : Except String Unit := .ok ()
  removeMembers : Except String Unit := .ok ()
  merge : Except String Unit := .ok ()
  commitBytes : Except String Unit := .ok ()
  groupInfo : Except String Unit := .ok ()

/-- How the calls of one `add_member` end. -/
structure AddRun where
  signer : Except String Unit := .ok ()
  load : Except String Unit := .ok ()
  /-- The key package, deserialized and validated. -/
  keyPackage : Except String KeyPackage
  removeConflicting : Except String Unit := .ok ()
  mergeRemove : Except String Unit := .ok ()
  addMembers : Except String Unit := .ok ()
  merge : Except String Unit := .ok ()
  commitBytes : Except String Unit := .ok ()
  welcomeBytes : Except String Unit := .ok ()
  groupInfo : Except String Unit := .ok ()

def loadGroup (spaceId : String) (signer load : Except String Unit) (stored : Option Group) : Except String Group := do
  signer
  load.mapError ("Failed to load group: " ++ ·)
  match stored with
  | none => .error ("Group not found for space: " ++ spaceId)
  | some g => .ok g

def conflictingIndex (g : Group) (kp : KeyPackage) : Option Nat :=
  (g.members.find? fun m => m.index ≠ g.ownLeafIndex ∧ m.signatureKey = kp.signatureKey).map (·.index)

/-- The stale leaf of the key package is removed, by a commit that nobody is given. -/
def removeConflicting (run : AddRun) (g : Group) (kp : KeyPackage) : Except String Unit × Group :=
  match conflictingIndex g kp with
  | none => (.ok (), g)
  | some leafIndex => match run.removeConflicting with
    | .error e => (.error ("Failed to remove conflicting member: " ++ e), g)
    | .ok _ => match run.mergeRemove with
      | .error e => (.error ("Failed to merge remove commit: " ++ e), g)
      | .ok _ => (.ok (), g.withoutLeaf leafIndex)

def AddRun.bundle (run : AddRun) (commit : Commit) (welcome : Welcome) : Except String MlsCommitBundle := do
  run.commitBytes.mapError ("Failed to serialize commit: " ++ ·)
  run.welcomeBytes.mapError ("Failed to serialize welcome: " ++ ·)
  run.groupInfo.mapError ("Failed to export group info: " ++ ·)
  .ok ⟨commit, some welcome⟩

def addFresh (run : AddRun) (g : Group) (kp : KeyPackage) : Except String MlsCommitBundle × Group :=
  match run.addMembers with
  | .error e => (.error ("Failed to add member: " ++ e), g)
  | .ok _ => match run.merge with
    | .error e => (.error ("Failed to merge commit: " ++ e), g)
    | .ok _ => (run.bundle ⟨g.epoch⟩ ⟨g.epoch + 1⟩, g.withMember kp)

def addMember (run : AddRun) (spaceId : String) (stored : Option Group) : Except String MlsCommitBundle × Option Group :=
  match loadGroup spaceId run.signer run.load stored with
  | .error e => (.error e, stored)
  | .ok g => match run.keyPackage with
    | .error e => (.error e, stored)
    | .ok kp => match removeConflicting run g kp with
      | (.error e, g) => (.error e, some g)
      | (.ok _, g) => ((addFresh run g kp).1, some (addFresh run g kp).2)

def RemoveRun.bundle (run : RemoveRun) (commit : Commit) : Except String MlsCommitBundle := do
  run.commitBytes.mapError ("Failed to serialize commit: " ++ ·)
  run.groupInfo.mapError ("Failed to export group info: " ++ ·)
  .ok ⟨commit, none⟩

def removeMember (run : RemoveRun) (spaceId : String) (memberIndex : Nat) (stored : Option Group) :
    Except String MlsCommitBundle × Option Group :=
  match loadGroup spaceId run.signer run.load stored with
  | .error e => (.error e, stored)
  | .ok g => match run.removeMembers with
    | .error e => (.error ("Failed to remove member: " ++ e), stored)
    | .ok _ => match run.merge with
      | .error e => (.error ("Failed to merge commit: " ++ e), stored)
      | .ok _ => (run.bundle ⟨g.epoch⟩, some (g.withoutLeaf memberIndex))

def findMemberIndexByDid (spaceId : String) (load : Except String Unit) (stored : Option Group) (credential : List UInt8) :
    Except String (Option Nat) := do
  let g ← loadGroup spaceId (.ok ()) load stored
  .ok ((g.members.find? fun m => m.credential = credential).map (·.index))

/-! ## The device that commits -/

/-- A member that joined: the epoch of its Welcome, and how many commits were stored for the space before. -/
structure Joined where
  epoch : Nat
  since : Nat
  deriving DecidableEq

structure Committer where
  group : Option Group
  /-- The commits stored for the space, oldest first. -/
  stored : List Commit := []
  joined : List Joined := []
  deriving DecidableEq

inductive CommitEvent where
  /-- Steps 6 and 7 of `handle_claim_invite`; a commit that cannot be stored is logged. -/
  | claimInvite (run : AddRun) (stored : Bool)
  /-- `mls_add_member`, and whether its caller gets the commit to the members. -/
  | addMember (run : AddRun) (stored : Bool)
  /-- `mls_remove_member`, and whether its caller gets the commit to the members. -/
  | removeMember (run : RemoveRun) (memberIndex : Nat) (stored : Bool)
  /-- The MLS part of `removeSpaceMember`; a failed lookup or broadcast is logged. -/
  | removeSpaceMember (find : Except String Unit) (credential : List UInt8) (run : RemoveRun) (stored : Bool)
  /-- `rekeyMlsForRemovedMemberAsync`; a failed broadcast is logged. -/
  | rekey (find : Except String Unit) (credential : List UInt8) (run : RemoveRun) (stored : Bool)

namespace Committer

/-- What follows a merge: the commit is stored or not, and a Welcome brings a member in. -/
def published (s : Committer) (result : Except String MlsCommitBundle × Option Group) (stored : Bool) : Committer :=
  match result.1 with
  | .error _ => { s with group := result.2 }
  | .ok bundle =>
    { group := result.2
      stored := if stored then s.stored ++ [bundle.commit] else s.stored
      joined := match bundle.welcome with
        | none => s.joined
        | some welcome => s.joined ++ [⟨welcome.epoch, s.stored.length⟩] }

def removeByDid (spaceId : String) (s : Committer) (find : Except String Unit) (credential : List UInt8) (run : RemoveRun)
    (stored : Bool) : Committer :=
  match findMemberIndexByDid spaceId find s.group credential with
  | .ok (some memberIndex) => s.published (removeMember run spaceId memberIndex s.group) stored
  | _ => s

def step (spaceId : String) (s : Committer) : CommitEvent → Committer
  | .claimInvite run stored => s.published (Mls.addMember run spaceId s.group) stored
  | .addMember run stored => s.published (Mls.addMember run spaceId s.group) stored
  | .removeMember run memberIndex stored => s.published (Mls.removeMember run spaceId memberIndex s.group) stored
  | .removeSpaceMember find credential run stored => s.removeByDid spaceId find credential run stored
  | .rekey find credential run stored => s.removeByDid spaceId find credential run stored

end Committer

/-! ## Members that process the stored commits -/

/-- A member processes the commits of its epoch; the others are refused. -/
def Commit.process (epoch : Nat) (c : Commit) : Nat := if c.epoch = epoch then epoch + 1 else epoch

def Joined.catchesUp (stored : List Commit) (j : Joined) : Nat := (stored.drop j.since).foldl Commit.process j.epoch

def Committer.Level (s : Committer) : Prop := ∀ g, s.group = some g → ∀ j ∈ s.joined, j.catchesUp s.stored = g.epoch

/-! ## Every merged commit is stored -/

/-- An add that merges exactly the commit it hands out, and a caller that stores it: the key package meets no other leaf
(or the removal of that leaf is not merged), and nothing fails after the merge. -/
structure AddRun.Publishes (run : AddRun) (g : Group) (kp : KeyPackage) (stored : Bool) : Prop where
  conflict : conflictingIndex g kp = none ∨ run.removeConflicting ≠ .ok () ∨ run.mergeRemove ≠ .ok ()
  merged : conflictingIndex g kp = none → run.addMembers = .ok () → run.merge = .ok () →
    run.commitBytes = .ok () ∧ run.welcomeBytes = .ok () ∧ run.groupInfo = .ok () ∧ stored = true

def RemoveRun.Publishes (run : RemoveRun) (stored : Bool) : Prop :=
  run.removeMembers = .ok () → run.merge = .ok () → run.commitBytes = .ok () ∧ run.groupInfo = .ok () ∧ stored = true

/-- The event leaves no merged commit unpublished. -/
def CommitEvent.Publishes (s : Committer) : CommitEvent → Prop
  | .claimInvite run stored => ∀ g, s.group = some g → ∀ kp, run.keyPackage = .ok kp → run.Publishes g kp stored
  | .addMember run stored => ∀ g, s.group = some g → ∀ kp, run.keyPackage = .ok kp → run.Publishes g kp stored
  | .removeMember run _ stored => run.Publishes stored
  | .removeSpaceMember _ _ run stored => run.Publishes stored
  | .rekey _ _ run stored => run.Publishes stored

theorem loadGroup_ok {spaceId : String} {signer load : Except String Unit} {stored : Option Group} {g : Group}
    (h : loadGroup spaceId signer load stored = .ok g) : stored = some g := by
  unfold loadGroup at h
  cases signer with
  | error e => cases h
  | ok _ =>
    cases load with
    | error e => cases h
    | ok _ =>
      cases stored with
      | none => cases h
      | some g' => cases h; rfl

inductive Advanced (s : Committer) : Committer → Prop
  | same : Advanced s s
  | commit (g g' : Group) (joined : List Joined) : s.group = some g → g'.epoch = g.epoch + 1 →
      joined = s.joined ∨ joined = s.joined ++ [⟨g.epoch + 1, s.stored.length⟩] →
      Advanced s { group := some g', stored := s.stored ++ [⟨g.epoch⟩], joined }

namespace Committer

variable {s : Committer} {spaceId : String}

theorem published_addMember {run : AddRun} {stored : Bool}
    (h : ∀ g, s.group = some g → ∀ kp, run.keyPackage = .ok kp → run.Publishes g kp stored) :
    Advanced s (s.published (Mls.addMember run spaceId s.group) stored) := by
  unfold Mls.addMember
  cases hload : loadGroup spaceId run.signer run.load s.group with
  | error e => exact .same
  | ok g =>
    have hg := loadGroup_ok hload
    cases hkp : run.keyPackage with
    | error e => exact .same
    | ok kp =>
      have hpub := h g hg kp hkp
      have hunchanged : ∀ e, Advanced s (s.published (.error e, some g) stored) := by
        intro e
        rw [← hg]
        exact .same
      cases hconf : conflictingIndex g kp with
      | some leafIndex =>
        -- the removal of the stale leaf may not be merged here
        simp only [removeConflicting, hconf]
        rcases hpub.conflict with hnone | hfail | hfail
        · rw [hconf] at hnone
          cases hnone
        · cases hr : run.removeConflicting with
          | error e => exact hunchanged _
          | ok _ => exact (hfail hr).elim
        · cases hr : run.removeConflicting with
          | error e => exact hunchanged _
          | ok _ =>
            cases hm : run.mergeRemove with
            | error e => exact hunchanged _
            | ok _ => exact (hfail hm).elim
      | none =>
        simp only [removeConflicting, hconf, addFresh]
        cases hadd : run.addMembers with
        | error e => exact hunchanged _
        | ok _ =>
          cases hmerge : run.merge with
          | error e => exact hunchanged _
          | ok _ =>
            obtain ⟨hc, hw, hi, hstored⟩ := hpub.merged hconf hadd hmerge
            have hbundle : run.bundle ⟨g.epoch⟩ ⟨g.epoch + 1⟩ = .ok ⟨⟨g.epoch⟩, some ⟨g.epoch + 1⟩⟩ := by
              rw [AddRun.bundle, hc, hw, hi]
              rfl
            simp only [published, hbundle, hstored, if_true]
            exact .commit g _ _ hg rfl (.inr rfl)

theorem published_removeMember {run : RemoveRun} {memberIndex : Nat} {stored : Bool} (h : run.Publishes stored) :
    Advanced s (s.published (Mls.removeMember run spaceId memberIndex s.group) stored) := by
  unfold Mls.removeMember
  cases hload : loadGroup spaceId run.signer run.load s.group with
  | error e => exact .same
  | ok g =>
    have hg := loadGroup_ok hload
    cases hrem : run.removeMembers with
    | error e => exact .same
    | ok _ =>
      cases hmerge : run.merge with
      | error e => exact .same
      | ok _ =>
        obtain ⟨hc, hi, hstored⟩ := h hrem hmerge
        have hbundle : run.bundle ⟨g.epoch⟩ = .ok ⟨⟨g.epoch⟩, none⟩ := by
          rw [RemoveRun.bundle, hc, hi]
          rfl
        simp only [published, hbundle, hstored, if_true]
        exact .commit g _ _ hg rfl (.inl rfl)

theorem removeByDid_advanced {find : Except String Unit} {credential : List UInt8} {run : RemoveRun} {stored : Bool}
    (h : run.Publishes stored) : Advanced s (s.removeByDid spaceId find credential run stored) := by
  unfold removeByDid
  split
  · exact published_removeMember h
  · exact .same

theorem step_advanced {e : CommitEvent} (h : e.Publishes s) : Advanced s (s.step spaceId e) := by
  cases e with
  | claimInvite run stored | addMember run stored => exact published_addMember h
  | removeMember run memberIndex stored => exact published_removeMember h
  | removeSpaceMember find credential run stored | rekey find credential run stored => exact removeByDid_advanced h

structure KeepsUp (s : Committer) : Prop where
  level : s.Level
  since : ∀ j ∈ s.joined, j.since ≤ s.stored.length

theorem catchesUp_append {stored : List Commit} {j : Joined} {epoch : Nat} (hsince : j.since ≤ stored.length)
    (h : j.catchesUp stored = epoch) : j.catchesUp (stored ++ [⟨epoch⟩]) = epoch + 1 := by
  rw [Joined.catchesUp, List.drop_append_of_le_length hsince, List.foldl_append]
  show Commit.process (j.catchesUp stored) ⟨epoch⟩ = epoch + 1
  rw [h, Commit.process, if_pos rfl]

theorem catchesUp_own (stored : List Commit) (epoch : Nat) :
    (⟨epoch + 1, stored.length⟩ : Joined).catchesUp (stored ++ [⟨epoch⟩]) = epoch + 1 := by
  simp [Joined.catchesUp, Commit.process]

theorem KeepsUp.advanced {s' : Committer} (h : s.KeepsUp) (hadv : Advanced s s') : s'.KeepsUp := by
  cases hadv with
  | same => exact h
  | commit g g' joined hg hepoch hjoined =>
    have hlen : (s.stored ++ [⟨g.epoch⟩] : List Commit).length = s.stored.length + 1 := by simp
    have hold : ∀ j ∈ s.joined, j.catchesUp (s.stored ++ [⟨g.epoch⟩]) = g.epoch + 1 ∧
        j.since ≤ (s.stored ++ [⟨g.epoch⟩] : List Commit).length := by
      intro j hj
      have hsince := h.since j hj
      exact ⟨catchesUp_append hsince (h.level g hg j hj), by omega⟩
    have hall : ∀ j ∈ joined, j.catchesUp (s.stored ++ [⟨g.epoch⟩]) = g.epoch + 1 ∧
        j.since ≤ (s.stored ++ [⟨g.epoch⟩] : List Commit).length := by
      intro j hj
      rcases hjoined with rfl | rfl
      · exact hold j hj
      · rcases List.mem_append.1 hj with hj | hj
        · exact hold j hj
        · rw [List.mem_singleton.1 hj]
          exact ⟨catchesUp_own s.stored g.epoch, by simp⟩
    refine ⟨fun g'' hg'' j hj => ?_, fun j hj => (hall j hj).2⟩
    cases hg''
    rw [hepoch]
    exact (hall j hj).1

/-- In a run that publishes every commit it merges, every member that processes what was stored since it joined ends in
the epoch of the group. -/
theorem members_keep_up (spaceId : String) (s : Committer) (hs : s.KeepsUp) (es : List CommitEvent)
    (hes : Guarded (step spaceId) (fun s e => e.Publishes s) s es) : (run (step spaceId) s es).Level :=
  (hes.inv (I := KeepsUp) (fun _ _ h hpub => h.advanced (step_advanced hpub)) hs).level

end Committer

def threeMembers : Committer where
  group := some ⟨5, 0, [⟨0, [10], [1]⟩, ⟨1, [11], [2]⟩, ⟨2, [12], [3]⟩]⟩
  joined := [⟨5, 0⟩, ⟨5, 0⟩]

theorem threeMembers_keepsUp : threeMembers.KeepsUp := by
  refine ⟨?_, by decide⟩
  rintro g ⟨⟩
  decide

/-- Dave is added, then carol is removed. -/
theorem members_keep_up_sample :
    threeMembers.KeepsUp ∧ (run (Committer.step "s") threeMembers
      [.claimInvite ⟨.ok (), .ok (), .ok ⟨[13], [4]⟩, .ok (), .ok (), .ok (), .ok (), .ok (), .ok (), .ok ()⟩ true,
        .removeSpaceMember (.ok ()) [3] ⟨.ok (), .ok (), .ok (), .ok (), .ok (), .ok ()⟩ true]).Level := by
  refine ⟨threeMembers_keepsUp, Committer.members_keep_up "s" threeMembers threeMembers_keepsUp _ ⟨?_, ?_, trivial⟩⟩
  · rintro g ⟨⟩ kp ⟨⟩
    exact ⟨.inl (by decide), fun _ _ _ => ⟨rfl, rfl, rfl, rfl⟩⟩
  · exact fun _ _ => ⟨rfl, rfl, rfl⟩

/-- Carol claims again with the signature key of her leaf: two commits are merged, one is stored, and bob stays behind.
So he does when the commit of a removal cannot be stored. -/
theorem bob_falls_behind :
    ¬ (run (Committer.step "s") threeMembers
      [.claimInvite ⟨.ok (), .ok (), .ok ⟨[12], [3]⟩, .ok (), .ok (), .ok (), .ok (), .ok (), .ok (), .ok ()⟩ true]).Level ∧
    ¬ (run (Committer.step "s") threeMembers
      [.removeSpaceMember (.ok ()) [3] ⟨.ok (), .ok (), .ok (), .ok (), .ok (), .ok ()⟩ false]).Level := by
  constructor
  · intro h
    exact absurd (h _ rfl ⟨5, 0⟩ (by decide)) (by decide)
  · intro h
    exact absurd (h _ rfl ⟨5, 0⟩ (by decide)) (by decide)

end HaexVault.Mls
