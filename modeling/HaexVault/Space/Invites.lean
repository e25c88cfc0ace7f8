import HaexVault.Space.InboundSync
/-!
# Invites and claims (`space_delivery/local/invite_tokens.rs`, `ucan.rs`, `leader.rs`)

An invite token is looked up by its id alone, first in the leader's own list, then in
`haex_invite_tokens`. `handleClaimInvite` takes a stored UCAN of the claimant as the mark of an
earlier claim. `ClaimWorld` holds what a claim takes from outside.
-/

namespace HaexVault.Space

open HaexVault.Crdt HaexVault.Lib HaexVault.Lib.Steps

/-! ## Tokens -/

structure LocalInviteToken where
  id : String
  spaceId : String
  /-- Only this DID can claim; anyone when there is none. -/
  targetDid : Option String
  preCreatedUcan : Option String
  capability : String
  maxUses : Nat
  currentUses : Nat
  expiresAt : Nat
  deriving DecidableEq

namespace LocalInviteToken

def isValid (t : LocalInviteToken) (now : Nat) : Bool := t.currentUses < t.maxUses && now < t.expiresAt

def canClaim (t : LocalInviteToken) (did : String) (now : Nat) : Bool := t.isValid now && t.targetDid.all (· = did)

/-- A stored token as it is loaded: `as u32` cuts the counts, and an expiry that cannot be read is now. -/
def ofRow (now : Nat) (row : InviteRow) : LocalInviteToken where
  id := row.id
  spaceId := row.spaceId
  targetDid := row.targetDid
  preCreatedUcan := row.preCreatedUcan
  capability := (row.capabilities.bind (·.head?)).getD "space/read"
  maxUses := row.maxUses % 2 ^ 32
  currentUses := row.currentUses % 2 ^ 32
  expiresAt := row.expiresAt.getD now

/-- The row `persist_invite_token` writes. -/
def toRow (t : LocalInviteToken) : InviteRow where
  id := t.id
  spaceId := t.spaceId
  targetDid := t.targetDid
  capabilities := some [t.capability]
  preCreatedUcan := t.preCreatedUcan
  maxUses := t.maxUses
  currentUses := t.currentUses
  expiresAt := some t.expiresAt

end LocalInviteToken

def loadInviteTokens (now : Nat) (v : Vault) (spaceId : String) : List LocalInviteToken :=
  (v.inviteTokens.rows.filter fun row => row.spaceId = spaceId).map (.ofRow now)

def loadInviteTokenById (now : Nat) (v : Vault) (tokenId : String) : Option LocalInviteToken :=
  (v.inviteTokens.get tokenId).map (.ofRow now)

/-- The list after `validate_invite` has looked for the token in it and in the vault. -/
def loadToken (now : Nat) (v : Vault) (tokens : List LocalInviteToken) (tokenId : String) : List LocalInviteToken :=
  if tokens.any fun t => t.id = tokenId then tokens else tokens ++ (loadInviteTokenById now v tokenId).toList

/-- `validate_invite`, once the token is loaded. -/
def validateInvite (now : Nat) (tokens : List LocalInviteToken) (tokenId did : String) :
    Except String (String × Option String) :=
  match Keyed.get (·.id) tokens tokenId with
  | none => .error "Access denied: Invalid invite token"
  | some token =>
    if token.canClaim did now then .ok (token.capability, token.preCreatedUcan)
    else if token.isValid now then .error "Access denied: This invite is not for your DID"
    else .error "Access denied: Invite token expired or exhausted"

def countUse (tokenId : String) : List LocalInviteToken → List LocalInviteToken
  | [] => []
  | t :: ts => if t.id = tokenId then { t with currentUses := t.currentUses + 1 } :: ts else t :: countUse tokenId ts

def updateTokenUsage (v : Vault) (tokenId : String) (currentUses : Nat) : Vault :=
  { v with inviteTokens := v.inviteTokens.setUses tokenId currentUses }

def consumeInvite (v : Vault) (tokens : List LocalInviteToken) (tokenId : String) (stored : Bool) :
    Vault × List LocalInviteToken :=
  match Keyed.get (·.id) tokens tokenId with
  | none => (v, tokens)
  | some token => (if stored then updateTokenUsage v tokenId (token.currentUses + 1) else v, countUse tokenId tokens)

def persistInviteToken (v : Vault) (token : LocalInviteToken) : Vault :=
  { v with inviteTokens := v.inviteTokens.insertOrReplace token.toRow }

/-! ## UCAN rows -/

structure AdminIdentity where
  did : String
  privateKey : String
  rootUcan : String

def loadAdminIdentity (v : Vault) (spaceId : String) : Except String AdminIdentity :=
  match v.ucanTokens.find? fun u => u.spaceId = spaceId && u.capability = "space/admin" with
  | none => .error ("Database error: No admin UCAN found for space " ++ spaceId)
  | some root => match Keyed.get (·.did) v.identities.rows root.issuerDid with
    | none => .error ("Database error: Identity not found for DID " ++ root.issuerDid)
    | some identity => match identity.privateKey with
      | none => .error "Database error: Missing private_key in identity row"
      | some privateKey => .ok ⟨root.issuerDid, privateKey, root.token⟩

def ucansOf (v : Vault) (spaceId did : String) : List UcanRow :=
  v.ucanTokens.filter fun u => u.spaceId = spaceId && u.audienceDid = did

def loadExistingClaim (v : Vault) (spaceId did : String) : Option (String × String) :=
  match ucansOf v spaceId did with
  | [] => none
  | u :: us =>
    let newest := us.foldl (fun best u => if best.issuedAt < u.issuedAt then u else best) u
    some (newest.capability, newest.token)

def memberUcanExpiresInSeconds : Nat := 100 * 365 * 86400

/-- `persist_admin_ucan`; without an admin, or when the insert fails, nothing is stored. -/
def persistAdminUcan (v : Vault) (spaceId did capability token : String) (now : Nat) (stored : Bool) : Vault :=
  if (loadExistingClaim v spaceId did).isSome then v
  else match loadAdminIdentity v spaceId, stored with
  | .ok admin, true =>
    { v with
      ucanTokens := v.ucanTokens ++
        [⟨spaceId, admin.did, did, capability, token, now, now + memberUcanExpiresInSeconds⟩] }
  | _, _ => v

/-! ## Claims -/

structure ConnectedPeer where
  endpointId : String
  did : String
  /-- The UCAN presented at Announce. -/
  validatedUcan : Option ValidatedUcan
  deriving DecidableEq

/-- What `LeaderState` holds in memory for its space. -/
structure Leader where
  connectedPeers : String → Option ConnectedPeer := fun _ => none
  inviteTokens : List LocalInviteToken := []

def Leader.register (l : Leader) (peer : ConnectedPeer) : Leader :=
  { l with connectedPeers := Function.update l.connectedPeers peer.endpointId (some peer) }

inductive Response where
  | ok
  | error (message : String)
  /-- The error of a push that was not accepted. -/
  | pushRejected (reason : PushRejection)
  /-- The error of a push that could not be applied. -/
  | applyFailed (e : DatabaseError)
  | inviteClaimed (welcome ucan capability : String)
  /-- A response of a handler that is not modelled further. -/
  | served
  deriving DecidableEq

structure ClaimRequest where
  spaceId : String
  token : String
  endpointId : String
  deriving DecidableEq

/-- What a claim takes from outside. -/
structure ClaimWorld where
  now : Nat
  nonce : String
  identityUuid : String
  memberUuid : String
  hlc : String
  joinedAt : String
  /-- `consume_key_package`: whether one of the uploaded packages could be stored. -/
  keyPackage : Except String Bool
  /-- `mls::add_member`: its welcome. -/
  addMember : Except String (Option String)
  /-- Whether `persist_admin_ucan` gets its lock and its insert through. -/
  ucanStored : Bool
  hlcLock : Except String Unit
  identityInsert : Except String Unit
  memberInsert : Except String Unit
  /-- Whether the new use count reaches the vault. -/
  useStored : Bool

section Claim
variable (crates : Crates) (w : ClaimWorld) (v : Vault) (l : Leader) (req : ClaimRequest) (did : String)

/-- Steps 2 and 3 of a first claim: validate the token, then take its UCAN or make one. -/
def firstGrant (tokens : List LocalInviteToken) : Except String (String × String) := do
  let (capability, preUcan) ← validateInvite w.now tokens req.token did
  match preUcan with
  | some ucan => .ok (capability, ucan)
  | none =>
    let admin ← (loadAdminIdentity v req.spaceId).mapError ("Failed to load admin identity: " ++ ·)
    let ucan ← (createDelegatedUcan crates admin.did admin.privateKey did req.spaceId capability (some admin.rootUcan)
      memberUcanExpiresInSeconds w.now w.nonce).mapError fun e => "Failed to create UCAN: " ++ e.display
    .ok (capability, ucan)

def isRetry : Bool := (loadExistingClaim v req.spaceId did).isSome

def claimTokens : List LocalInviteToken :=
  if isRetry v req did then l.inviteTokens else loadToken w.now v l.inviteTokens req.token

def claimGrant : Except String (String × String) :=
  match loadExistingClaim v req.spaceId did with
  | some grant => .ok grant
  | none => firstGrant crates w v req did (claimTokens w v l req did)

def admitToGroup : Except String String :=
  match w.keyPackage with
  | .error e => .error ("Key package error: " ++ e)
  | .ok false => .error "No key package available after upload"
  | .ok true => match w.addMember with
    | .error e => .error ("MLS add_member failed: " ++ e)
    | .ok none => .error "MLS add_member produced no welcome"
    | .ok (some welcome) => .ok welcome

def claimedLeader : Leader :=
  ({ l with inviteTokens := claimTokens w v l req did } : Leader).register ⟨req.endpointId, did, none⟩

/-- Steps 12 and 13, from the vault that has the UCAN. -/
def admitMember (capability ucan welcome : String) (v' : Vault) : Response × Vault × Leader :=
  let l' := claimedLeader w v l req did
  match w.hlcLock with
  | .error e => (.error ("Failed to persist new member: " ++ e), v', l')
  | .ok _ => match w.identityInsert with
    | .error e => (.error ("Failed to persist member identity: " ++ e), v', l')
    | .ok _ => match w.memberInsert with
      | .error e =>
        (.error ("Failed to persist space member: " ++ e),
          { v' with identities := v'.identities.insertOrIgnore ⟨w.identityUuid, did, none⟩ }, l')
      | .ok _ =>
        let v' := v'.persistMember req.spaceId did capability w.identityUuid w.memberUuid w.joinedAt w.hlc
        -- a retry has used its token before
        if isRetry v req did then (.inviteClaimed welcome ucan capability, v', l')
        else
          let consumed := consumeInvite v' l'.inviteTokens req.token w.useStored
          (.inviteClaimed welcome ucan capability, consumed.1, { l' with inviteTokens := consumed.2 })

/-- `handle_claim_invite`. -/
def handleClaimInvite : Response × Vault × Leader :=
  match claimGrant crates w v l req did with
  | .error e => (.error e, v, { l with inviteTokens := claimTokens w v l req did })
  | .ok (capability, ucan) => match admitToGroup w with
    | .error e => (.error e, v, { l with inviteTokens := claimTokens w v l req did })
    | .ok welcome =>
      admitMember w v l req did capability ucan welcome (persistAdminUcan v req.spaceId did capability ucan w.now w.ucanStored)

/-! ## What a claim can do -/

def Registers : Prop := (∃ grant, claimGrant crates w v l req did = .ok grant) ∧ ∃ welcome, admitToGroup w = .ok welcome

def claimedVault (capability ucan : String) : Vault :=
  (persistAdminUcan v req.spaceId did capability ucan w.now w.ucanStored).persistMember req.spaceId did capability
    w.identityUuid w.memberUuid w.joinedAt w.hlc

/-- The outcomes of a claim. -/
inductive Claim : Response × Vault × Leader → Prop
  | rejected (e : String) : ¬ Registers crates w v l req did →
      Claim (.error e, v, { l with inviteTokens := claimTokens w v l req did })
  | unfinished (e : String) (v' : Vault) : Registers crates w v l req did → v'.space = v.space →
      v'.inviteTokens = v.inviteTokens →
      (v'.identities = v.identities ∨ v'.identities = v.identities.insertOrIgnore ⟨w.identityUuid, did, none⟩) →
      Claim (.error e, v', claimedLeader w v l req did)
  | retried (welcome capability ucan : String) : isRetry v req did = true → Registers crates w v l req did →
      Claim (.inviteClaimed welcome ucan capability, claimedVault w v req did capability ucan,
        claimedLeader w v l req did)
  | admitted (welcome capability ucan : String) : isRetry v req did = false → Registers crates w v l req did →
      firstGrant crates w v req did (claimTokens w v l req did) = .ok (capability, ucan) →
      Claim (.inviteClaimed welcome ucan capability,
        (consumeInvite (claimedVault w v req did capability ucan) (claimTokens w v l req did) req.token w.useStored).1,
        { claimedLeader w v l req did with
          inviteTokens := (consumeInvite (claimedVault w v req did capability ucan) (claimTokens w v l req did) req.token
            w.useStored).2 })

theorem persistAdminUcan_frame (v : Vault) (spaceId did capability token : String) (now : Nat) (stored : Bool) :
    (persistAdminUcan v spaceId did capability token now stored).space = v.space ∧
      (persistAdminUcan v spaceId did capability token now stored).identities = v.identities ∧
      (persistAdminUcan v spaceId did capability token now stored).inviteTokens = v.inviteTokens := by
  unfold persistAdminUcan
  split
  · exact ⟨rfl, rfl, rfl⟩
  · split <;> exact ⟨rfl, rfl, rfl⟩

theorem handleClaimInvite_outcome : Claim crates w v l req did (handleClaimInvite crates w v l req did) := by
  unfold handleClaimInvite
  cases hg : claimGrant crates w v l req did with
  | error e =>
    refine .rejected e ?_
    rintro ⟨⟨_, h⟩, -⟩
    rw [hg] at h
    cases h
  | ok grant =>
    obtain ⟨capability, ucan⟩ := grant
    dsimp only
    cases ha : admitToGroup w with
    | error e =>
      refine .rejected e ?_
      rintro ⟨-, _, h⟩
      rw [ha] at h
      cases h
    | ok welcome =>
      have hreg : Registers crates w v l req did := ⟨⟨_, hg⟩, welcome, ha⟩
      obtain ⟨hspace, hids, hinv⟩ := persistAdminUcan_frame v req.spaceId did capability ucan w.now w.ucanStored
      dsimp only
      unfold admitMember
      dsimp only
      split
      · exact .unfinished _ _ hreg hspace hinv (.inl hids)
      · split
        · exact .unfinished _ _ hreg hspace hinv (.inl hids)
        · split
          · exact .unfinished _ _ hreg hspace hinv (.inr (by rw [hids]))
          · split
            · exact .retried welcome capability ucan ‹_› hreg
            · rename_i hretry
              have hfirst : isRetry v req did = false := by simpa using hretry
              refine .admitted welcome capability ucan hfirst hreg ?_
              have hnone : loadExistingClaim v req.spaceId did = none := by simpa [isRetry] using hfirst
              simpa [claimGrant, hnone] using hg

variable {crates w v l req did} {out : Response × Vault × Leader}

theorem Claim.peers (h : Claim crates w v l req did out) :
    (¬ Registers crates w v l req did ∧ out.2.2.connectedPeers = l.connectedPeers) ∨
      (Registers crates w v l req did ∧ out.2.2.connectedPeers =
        Function.update l.connectedPeers req.endpointId (some ⟨req.endpointId, did, none⟩)) := by
  cases h with
  | rejected e hr => exact .inl ⟨hr, rfl⟩
  | unfinished e v' hr | retried _ _ _ _ hr | admitted _ _ _ _ hr => exact .inr ⟨hr, rfl⟩

theorem consumeInvite_frame {v : Vault} {tokens : List LocalInviteToken} {tokenId : String} {stored : Bool} :
    (consumeInvite v tokens tokenId stored).1.space = v.space ∧
      (consumeInvite v tokens tokenId stored).1.identities = v.identities := by
  unfold consumeInvite
  split
  · exact ⟨rfl, rfl⟩
  · cases stored <;> exact ⟨rfl, rfl⟩

theorem claimedVault_inviteTokens {capability ucan : String} :
    (claimedVault w v req did capability ucan).inviteTokens = v.inviteTokens := by
  rw [claimedVault, Vault.persistMember_inviteTokens]
  exact (persistAdminUcan_frame v req.spaceId did capability ucan w.now w.ucanStored).2.2

theorem firstGrant_ok {tokens : List LocalInviteToken} {grant : String × String}
    (h : firstGrant crates w v req did tokens = .ok grant) :
    ∃ token, Keyed.get (·.id) tokens req.token = some token ∧ token.canClaim did w.now = true := by
  obtain ⟨_, hvalid, -⟩ := bind_eq_ok.1 h
  unfold validateInvite at hvalid
  split at hvalid
  · cases hvalid
  · rename_i token htoken
    split at hvalid
    · exact ⟨token, htoken, ‹_›⟩
    · split at hvalid <;> cases hvalid

/-- What a claim does to the tokens: it loads the one it presents, and the one that admits it counts a use. -/
theorem Claim.tokens (h : Claim crates w v l req did out) :
    (out.2.1.inviteTokens = v.inviteTokens ∧ out.2.2.inviteTokens = claimTokens w v l req did) ∨
      ∃ token, isRetry v req did = false ∧ Keyed.get (·.id) (claimTokens w v l req did) req.token = some token ∧
        token.canClaim did w.now = true ∧ out.2.2.inviteTokens = countUse req.token (claimTokens w v l req did) ∧
        (out.2.1.inviteTokens = v.inviteTokens ∨
          out.2.1.inviteTokens = v.inviteTokens.setUses req.token (token.currentUses + 1)) := by
  cases h with
  | rejected => exact .inl ⟨rfl, rfl⟩
  | unfinished e v' _ _ hinv => exact .inl ⟨hinv, rfl⟩
  | retried => exact .inl ⟨claimedVault_inviteTokens, rfl⟩
  | admitted welcome capability ucan hretry hreg hgrant =>
    obtain ⟨token, htoken, hclaim⟩ := firstGrant_ok hgrant
    refine .inr ⟨token, hretry, htoken, hclaim, ?_⟩
    simp only [consumeInvite, htoken, true_and]
    cases w.useStored
    · exact .inl claimedVault_inviteTokens
    · exact .inr (by simp only [if_true, updateTokenUsage, claimedVault_inviteTokens])

theorem isActiveSpaceMember_claimedVault {capability ucan s d : String} (hd : d ≠ did) :
    (claimedVault w v req did capability ucan).isActiveSpaceMember s d = v.isActiveSpaceMember s d := by
  rw [claimedVault, Vault.isActiveSpaceMember_persistMember hd]
  obtain ⟨hspace, hids, -⟩ := persistAdminUcan_frame v req.spaceId did capability ucan w.now w.ucanStored
  exact Vault.isActiveSpaceMember_congr hspace hids s d

theorem Claim.isActiveSpaceMember (h : Claim crates w v l req did out) {s d : String} (hd : d ≠ did) :
    out.2.1.isActiveSpaceMember s d = v.isActiveSpaceMember s d := by
  cases h with
  | rejected => rfl
  | unfinished e v' _ hspace _ hids =>
    rw [Bool.eq_iff_iff, Vault.isActiveSpaceMember_iff, Vault.isActiveSpaceMember_iff]
    have hres : v'.identities.resolve d = v.identities.resolve d := by
      rcases hids with hids | hids
      · rw [hids]
      · rw [hids, Identities.resolve_insertOrIgnore hd]
    simp only [hres, Vault.memberRows, hspace]
  | retried => exact isActiveSpaceMember_claimedVault hd
  | admitted =>
    rw [Vault.isActiveSpaceMember_congr consumeInvite_frame.1 consumeInvite_frame.2]
    exact isActiveSpaceMember_claimedVault hd

theorem Claim.of_isActiveSpaceMember (h : Claim crates w v l req did out) {s d : String}
    (hfresh : ∀ m ∈ v.memberRows, m "identity_id" ≠ .text w.identityUuid)
    (hm : out.2.1.isActiveSpaceMember s d = true) :
    v.isActiveSpaceMember s d = true ∨
      (s = req.spaceId ∧ d = did) ∧ ∃ welcome ucan capability, out.1 = .inviteClaimed welcome ucan capability := by
  have hclaimed : ∀ capability ucan, (claimedVault w v req did capability ucan).isActiveSpaceMember s d = true →
      v.isActiveSpaceMember s d = true ∨ s = req.spaceId ∧ d = did := by
    intro capability ucan hm
    obtain ⟨hspace, hids, -⟩ := persistAdminUcan_frame v req.spaceId did capability ucan w.now w.ucanStored
    rw [← Vault.isActiveSpaceMember_congr hspace hids s d]
    exact Vault.of_isActiveSpaceMember_persistMember (by simpa only [Vault.memberRows, hspace] using hfresh) hm
  cases h with
  | rejected => exact .inl hm
  | unfinished e v' _ hspace _ hids =>
    left
    rcases hids with hids | hids
    · rwa [Vault.isActiveSpaceMember_congr hspace hids] at hm
    · have hsame := @Vault.isActiveSpaceMember_congr
        { v with identities := v.identities.insertOrIgnore ⟨w.identityUuid, did, none⟩ } v' hspace hids s d
      exact Vault.of_isActiveSpaceMember_identity hfresh (hsame ▸ hm)
  | retried welcome capability ucan =>
    exact (hclaimed _ _ hm).imp_right fun h => ⟨h, _, _, _, rfl⟩
  | admitted welcome capability ucan =>
    rw [Vault.isActiveSpaceMember_congr consumeInvite_frame.1 consumeInvite_frame.2] at hm
    exact (hclaimed _ _ hm).imp_right fun h => ⟨h, _, _, _, rfl⟩

end Claim

end HaexVault.Space
