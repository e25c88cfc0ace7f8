import HaexVault.Lib.Runs
import HaexVault.Space.Invites
/-!
# The leader (`space_delivery/local/leader.rs`, `auth_gate.rs`, `multi_leader.rs`, `commands.rs`)

A request comes in on a connection whose endpoint and DID the handshake has fixed, and passes
`authorizeRequest` unless it is one of the three that come before a session. Two of these write the
peer map under the endpoint their payload names; the gate reads it by that of the connection.
-/

namespace HaexVault.Space

open HaexVault.Crdt HaexVault.Lib HaexVault.Lib.Steps

/-! ## Requests -/

inductive MlsRequest where
  | mlsUploadKeyPackages
  | mlsFetchKeyPackage
  | mlsSendMessage
  | mlsFetchMessages
  | mlsSendWelcome
  | mlsFetchWelcomes
  | mlsAckCommit
  | mlsKeyPackageCount
  | requestRejoin
  | submitExternalCommit
  deriving DecidableEq

inductive Request where
  | announce (spaceId endpointId : String) (ucanToken : Option String)
  | claimInvite (claim : ClaimRequest)
  | pushInvite (spaceId : String)
  /-- The changes as `serde_json` reads them. -/
  | syncPush (spaceId : String) (changes : Except String (List LocalColumnChange))
  | syncPull (spaceId : String)
  | mls (op : MlsRequest) (spaceId : String)

namespace Request

def requiredCapability : Request → Option CapabilityLevel
  | announce .. | claimInvite _ | pushInvite _ => none
  | syncPush .. | syncPull _ | mls .. => some .read

def spaceIdOf : Request → String
  | announce spaceId _ _ => spaceId
  | claimInvite claim => claim.spaceId
  | pushInvite spaceId => spaceId
  | syncPush spaceId _ => spaceId
  | syncPull spaceId => spaceId
  | mls _ spaceId => spaceId

end Request

structure Connection where
  endpointId : String
  did : String
  deriving DecidableEq

structure World extends ClaimWorld where
  env : Env
  pushHash : PushHashing
  hash : Hashing
  reloadAllowedPeers : Except String Unit

/-! ## The gate -/

def Leader.cachedUcan (l : Leader) (endpointId : String) : Option ValidatedUcan :=
  (l.connectedPeers endpointId).bind (·.validatedUcan)

theorem Leader.cachedUcan_register (l : Leader) (peer : ConnectedPeer) (endpointId : String) :
    (l.register peer).cachedUcan endpointId = if endpointId = peer.endpointId then peer.validatedUcan else l.cachedUcan endpointId := by
  by_cases h : endpointId = peer.endpointId
  · simp [cachedUcan, register, h]
  · simp [cachedUcan, register, h]

/-- `authorize_request`. -/
def authorizeRequest (v : Vault) (l : Leader) (now : Nat) (conn : Connection) (req : Request) :
    Except String (Option ValidatedUcan) :=
  match req.requiredCapability with
  | none => .ok none
  | some required =>
    match l.cachedUcan conn.endpointId with
    | none => .error "Access denied: must Announce before sending other requests"
    | some validated => do
      (requireNotExpired validated now).mapError fun _ => "Access denied: cached UCAN expired, please Announce again"
      (requireAudience validated conn.did).mapError fun _ =>
        "Access denied: UCAN audience does not match verified peer DID"
      (requireCapability validated req.spaceIdOf required).mapError fun e => "Access denied: " ++ e.display
      ensure (v.isActiveSpaceMember req.spaceIdOf validated.audience) "Access denied: not an active member of this space"
      .ok (some validated)

structure ValidatedUcan.Admits (u : ValidatedUcan) (v : Vault) (spaceId did : String) : Prop where
  did_ne : did ≠ ""
  audience : u.audience = did
  grants : u.Grants spaceId .read
  member : v.isActiveSpaceMember spaceId did = true

theorem requiredCapability_eq {req : Request} {level : CapabilityLevel} (h : req.requiredCapability = some level) :
    level = .read := by
  cases req <;> cases h <;> rfl

theorem authorizeRequest_ok {v : Vault} {l : Leader} {now : Nat} {conn : Connection} {req : Request} {level : CapabilityLevel}
    (hreq : req.requiredCapability = some level) {granted : Option ValidatedUcan} :
    authorizeRequest v l now conn req = .ok granted ↔
      ∃ u, granted = some u ∧ l.cachedUcan conn.endpointId = some u ∧ now < u.expiresAt ∧
        u.Admits v req.spaceIdOf conn.did := by
  obtain rfl := requiredCapability_eq hreq
  unfold authorizeRequest
  simp only [hreq]
  cases hu : l.cachedUcan conn.endpointId with
  | none => simp
  | some u =>
    simp only [bind_eq_ok, mapError_eq_ok, requireNotExpired_ok, requireAudience_ok, requireCapability_ok, ensure_ok]
    constructor
    · rintro ⟨-, hexp, -, ⟨hne, haud⟩, -, hcap, -, hmem, h⟩
      cases h
      exact ⟨u, rfl, rfl, hexp, hne, haud, hcap, haud ▸ hmem⟩
    · rintro ⟨u', rfl, h, hexp, hne, haud, hcap, hmem⟩
      cases h
      exact ⟨(), hexp, (), ⟨hne, haud⟩, (), hcap, (), haud.symm ▸ hmem, rfl⟩

/-! ## The handlers -/

/-- The `Announce` arm: the leader with the peer recorded under the endpoint the payload names. -/
def announce (crates : Crates) (now : Nat) (v : Vault) (l : Leader) (did spaceId endpointId : String)
    (ucanToken : Option String) : Except String Leader := do
  let token ← okOr "Announce requires ucan_token" ucanToken
  let validated ← (validateToken crates now token).mapError fun e => "UCAN validation failed: " ++ e.display
  (requireAudience validated did).mapError fun e => "Access denied: " ++ e.display
  (requireCapability validated spaceId .read).mapError fun e => "Access denied: " ++ e.display
  ensure (v.isActiveSpaceMember spaceId validated.audience) "Access denied: not an active member of this space"
  .ok (l.register ⟨endpointId, did, some validated⟩)

def Announces (crates : Crates) (now : Nat) (v : Vault) (did spaceId : String) (ucanToken : Option String)
    (u : ValidatedUcan) : Prop :=
  ∃ token, ucanToken = some token ∧ validateToken crates now token = .ok u ∧ u.Admits v spaceId did

theorem announce_ok {crates : Crates} {now : Nat} {v : Vault} {l l' : Leader} {did spaceId endpointId : String}
    {ucanToken : Option String} :
    announce crates now v l did spaceId endpointId ucanToken = .ok l' ↔
      ∃ u, Announces crates now v did spaceId ucanToken u ∧ l' = l.register ⟨endpointId, did, some u⟩ := by
  unfold announce Announces
  cases ucanToken with
  | none => simp [okOr, Bind.bind, Except.bind]
  | some token =>
    simp only [bind_eq_ok, mapError_eq_ok, requireAudience_ok, requireCapability_ok, ensure_ok, okOr, Option.some.injEq,
      Except.ok.injEq]
    constructor
    · rintro ⟨_, rfl, u, hu, -, ⟨hne, haud⟩, -, hcap, -, hmem, rfl⟩
      exact ⟨u, ⟨_, rfl, hu, hne, haud, hcap, haud ▸ hmem⟩, rfl⟩
    · rintro ⟨u, ⟨_, rfl, hu, hne, haud, hcap, hmem⟩, rfl⟩
      exact ⟨_, rfl, u, hu, (), ⟨hne, haud⟩, (), hcap, (), haud.symm ▸ hmem, rfl⟩

/-- The `SyncPush` arm, with the UCAN of the gate. -/
def syncPush (w : World) (v : Vault) (endpointId : String) (validated : ValidatedUcan) (spaceId : String) :
    Except String (List LocalColumnChange) → Response × Vault
  | .error e => (.error ("Invalid changes JSON: " ++ e), v)
  | .ok raw => match authorizeInboundSyncPush w.env w.pushHash v spaceId endpointId validated raw with
    | .error reason => (.pushRejected reason, v)
    | .ok changes =>
      if changes = [] then (.ok, v)
      else match w.hlcLock with
      | .error e => (.error ("Failed to lock HLC for SyncPush apply: " ++ e), v)
      | .ok _ => match v.space.apply w.env w.hash (changes.map (·.toRemote)) with
        | .error e => (.applyFailed e, v)
        | .ok space =>
          if changes.any fun c => c.tableName = "haex_space_devices" then
            match w.reloadAllowedPeers with
            | .error e => (.error ("Failed to reload allowed_peers: " ++ e), { v with space })
            | .ok _ => (.ok, { v with space })
          else (.ok, { v with space })

def handleDeliveryRequest (crates : Crates) (w : World) (v : Vault) (l : Leader) (conn : Connection) (req : Request) :
    Response × Vault × Leader :=
  match authorizeRequest v l w.now conn req with
  | .error e => (.error e, v, l)
  | .ok gateUcan => match req, gateUcan with
    | .announce spaceId endpointId ucanToken, _ =>
      match announce crates w.now v l conn.did spaceId endpointId ucanToken with
      | .error e => (.error e, v, l)
      | .ok l' => (.ok, v, l')
    | .claimInvite claim, _ => handleClaimInvite crates w.toClaimWorld v l claim conn.did
    | .syncPush spaceId changes, some validated =>
      let pushed := syncPush w v conn.endpointId validated spaceId changes
      (pushed.1, pushed.2, l)
    -- pulls, and the MLS buffers and group, which hold nothing that is modelled
    | _, _ => (.served, v, l)

/-! ## What a request can do -/

section Handled
variable (crates : Crates) (w : World) (v : Vault) (l : Leader) (conn : Connection) (req : Request)

/-- The outcomes of a request. -/
inductive Handled : Response × Vault × Leader → Prop
  | unchanged (r : Response) : (∀ welcome ucan capability, r ≠ .inviteClaimed welcome ucan capability) → Handled (r, v, l)
  | announced (spaceId endpointId : String) (ucanToken : Option String) (u : ValidatedUcan) :
      req = .announce spaceId endpointId ucanToken → Announces crates w.now v conn.did spaceId ucanToken u →
      Handled (.ok, v, l.register ⟨endpointId, conn.did, some u⟩)
  | claimed (claim : ClaimRequest) (out : Response × Vault × Leader) : req = .claimInvite claim →
      Claim crates w.toClaimWorld v l claim conn.did out → Handled out
  | pushed (spaceId : String) (raw changes : List LocalColumnChange) (u : ValidatedUcan) (space : SpaceDb) (r : Response) :
      req = .syncPush spaceId (.ok raw) → u.audience = conn.did →
      authorizeInboundSyncPush w.env w.pushHash v spaceId conn.endpointId u raw = .ok changes →
      v.space.apply w.env w.hash (changes.map (·.toRemote)) = .ok space →
      (∀ welcome ucan capability, r ≠ .inviteClaimed welcome ucan capability) → Handled (r, { v with space }, l)

theorem handleDeliveryRequest_handled : Handled crates w v l conn req (handleDeliveryRequest crates w v l conn req) := by
  unfold handleDeliveryRequest
  cases hauth : authorizeRequest v l w.now conn req with
  | error e => exact .unchanged _ (by simp)
  | ok gateUcan =>
    cases req with
    | announce spaceId endpointId ucanToken =>
      cases ha : announce crates w.now v l conn.did spaceId endpointId ucanToken with
      | error e => simp only [ha]; exact .unchanged _ (by simp)
      | ok l' =>
        obtain ⟨u, hu, rfl⟩ := announce_ok.1 ha
        simp only [ha]
        exact .announced spaceId endpointId ucanToken u rfl hu
    | claimInvite claim => exact .claimed claim _ rfl (handleClaimInvite_outcome ..)
    | pushInvite spaceId | syncPull spaceId | mls op spaceId => exact .unchanged _ (by simp)
    | syncPush spaceId parsed =>
      obtain ⟨u, rfl, -, -, hadmits⟩ := (authorizeRequest_ok rfl).1 hauth
      dsimp only
      cases parsed with
      | error e => exact .unchanged _ (by simp [syncPush])
      | ok raw =>
        simp only [syncPush]
        split
        · exact .unchanged _ (by simp)
        · rename_i changes hchanges
          split
          · exact .unchanged _ (by simp)
          · split
            · exact .unchanged _ (by simp)
            · split
              · exact .unchanged _ (by simp)
              · rename_i space hspace
                split
                · split <;> exact .pushed spaceId raw changes u space _ rfl hadmits.audience hchanges hspace (by simp)
                · exact .pushed spaceId raw changes u space _ rfl hadmits.audience hchanges hspace (by simp)

variable {crates w v l conn req} {out : Response × Vault × Leader}

theorem Handled.cachedUcan (h : Handled crates w v l conn req out) (endpointId : String) :
    out.2.2.cachedUcan endpointId = l.cachedUcan endpointId ∨
      (∃ ucanToken u, req = .announce req.spaceIdOf endpointId ucanToken ∧
        Announces crates w.now v conn.did req.spaceIdOf ucanToken u ∧ out.2.2.cachedUcan endpointId = some u) ∨
      ∃ claim, req = .claimInvite claim ∧ claim.endpointId = endpointId ∧
        Registers crates w.toClaimWorld v l claim conn.did ∧ out.2.2.cachedUcan endpointId = none := by
  cases h with
  | unchanged => exact .inl rfl
  | pushed => exact .inl rfl
  | announced spaceId named ucanToken u hreq hu =>
    subst hreq
    by_cases hn : endpointId = named
    · subst hn
      exact .inr (.inl ⟨ucanToken, u, rfl, hu, by simp [Leader.cachedUcan_register]⟩)
    · exact .inl (by simp [Leader.cachedUcan_register, hn])
  | claimed claim out hreq hclaim =>
    rcases hclaim.peers with ⟨-, hp⟩ | ⟨hreg, hp⟩
    · exact .inl (by simp only [Leader.cachedUcan, hp])
    · by_cases hn : endpointId = claim.endpointId
      · subst hn
        exact .inr (.inr ⟨claim, hreq, rfl, hreg, by simp [Leader.cachedUcan, hp]⟩)
      · exact .inl (by simp [Leader.cachedUcan, hp, Function.update_of_ne hn])

end Handled

/-! ## The server -/

structure Server where
  vault : Vault
  leaders : String → Option Leader := fun _ => none

namespace Server

/-- `handle_stream`: route a request to the leader of its space. A claim goes to its handler
directly, which the gate would let through. -/
def handleStream (crates : Crates) (w : World) (σ : Server) (conn : Connection) (req : Request) : Response × Server :=
  match req with
  | .pushInvite _ => (.served, σ)
  | req => match σ.leaders req.spaceIdOf with
    | none => (.error ("No leader active for space " ++ req.spaceIdOf), σ)
    | some l =>
      let out := handleDeliveryRequest crates w σ.vault l conn req
      (out.1, ⟨out.2.1, Function.update σ.leaders req.spaceIdOf (some out.2.2)⟩)

/-- The cleanup after a connection is closed. -/
def disconnect (σ : Server) (endpointId : String) : Server :=
  { σ with
    leaders := fun s => (σ.leaders s).map fun l =>
      { l with connectedPeers := Function.update l.connectedPeers endpointId none } }

/-- `local_delivery_start`; the stored tokens may fail to load. -/
def startLeader (σ : Server) (spaceId : String) (now : Nat) (loaded : Bool) : Server :=
  { σ with
    leaders := Function.update σ.leaders spaceId
      (some { inviteTokens := if loaded then loadInviteTokens now σ.vault spaceId else [] }) }

/-- `local_delivery_stop`. -/
def stopLeader (σ : Server) (spaceId : String) : Server :=
  { σ with leaders := Function.update σ.leaders spaceId none }

end Server

structure NewInvite where
  targetDid : Option String
  capability : String
  maxUses : UInt32
  expiresInSeconds : Nat
  id : String
  now : Nat
  nonce : String
  stored : Except String Unit

structure QueuedInvite where
  id : String
  spaceId : String
  contactDid : String
  capabilities : List String
  expiresAt : Nat

def QueuedInvite.toRow (inv : QueuedInvite) : InviteRow :=
  ⟨inv.id, inv.spaceId, some inv.contactDid, some inv.capabilities, none, 1, 0, some inv.expiresAt⟩

/-- `create_contact_invite_token` and `create_conference_invite_token`: the token they make. -/
def newInviteToken (crates : Crates) (v : Vault) (spaceId : String) (inv : NewInvite) : Except String LocalInviteToken :=
  match inv.targetDid with
  | some did => do
    let admin ← loadAdminIdentity v spaceId
    let ucan ← (createDelegatedUcan crates admin.did admin.privateKey did spaceId inv.capability (some admin.rootUcan)
      memberUcanExpiresInSeconds inv.now inv.nonce).mapError (·.display)
    .ok ⟨inv.id, spaceId, some did, some ucan, inv.capability, 1, 0, inv.now + inv.expiresInSeconds⟩
  | none => .ok ⟨inv.id, spaceId, none, none, inv.capability, inv.maxUses.toNat, 0, inv.now + inv.expiresInSeconds⟩

theorem newInviteToken_ok {crates : Crates} {v : Vault} {spaceId : String} {inv : NewInvite} {token : LocalInviteToken}
    (h : newInviteToken crates v spaceId inv = .ok token) : token.id = inv.id ∧ token.spaceId = spaceId := by
  unfold newInviteToken at h
  split at h
  · obtain ⟨_, -, h⟩ := bind_eq_ok.1 h
    obtain ⟨_, -, h⟩ := bind_eq_ok.1 h
    cases h
    exact ⟨rfl, rfl⟩
  · cases h
    exact ⟨rfl, rfl⟩

namespace Server

/-- `local_delivery_create_invite`. -/
def createInvite (crates : Crates) (σ : Server) (spaceId : String) (inv : NewInvite) : Except String Server := do
  let l ← okOr ("Leader mode not active for space " ++ spaceId) (σ.leaders spaceId)
  let token ← newInviteToken crates σ.vault spaceId inv
  inv.stored
  .ok ⟨persistInviteToken σ.vault token,
    Function.update σ.leaders spaceId (some { l with inviteTokens := l.inviteTokens ++ [token] })⟩

/-- `local_delivery_revoke_invite`: from the memory of the leader only. -/
def revokeInvite (σ : Server) (spaceId tokenId : String) : Except String Server := do
  let l ← okOr ("Leader mode not active for space " ++ spaceId) (σ.leaders spaceId)
  let tokens := l.inviteTokens.filter fun t => t.id ≠ tokenId
  ensure (tokens.length ≠ l.inviteTokens.length) ("Invite token " ++ tokenId ++ " not found")
  .ok { σ with leaders := Function.update σ.leaders spaceId (some { l with inviteTokens := tokens }) }

/-- `queueQuicInvite`: an invite of a contact that no leader has in memory. -/
def queueInvite (σ : Server) (inv : QueuedInvite) : Except String Server := do
  ensure (σ.vault.inviteTokens.get inv.id).isNone "UNIQUE constraint failed: haex_invite_tokens.id"
  .ok { σ with vault := { σ.vault with inviteTokens := σ.vault.inviteTokens.insertOrReplace inv.toRow } }

end Server

namespace Server
variable {crates : Crates} {σ σ' : Server} {spaceId : String}

theorem createInvite_ok {inv : NewInvite} (h : σ.createInvite crates spaceId inv = .ok σ') :
    ∃ l token, σ.leaders spaceId = some l ∧ newInviteToken crates σ.vault spaceId inv = .ok token ∧
      σ' = ⟨persistInviteToken σ.vault token,
        Function.update σ.leaders spaceId (some { l with inviteTokens := l.inviteTokens ++ [token] })⟩ := by
  obtain ⟨l, hl, h⟩ := bind_eq_ok.1 h
  obtain ⟨token, htoken, h⟩ := bind_eq_ok.1 h
  obtain ⟨-, -, h⟩ := bind_eq_ok.1 h
  cases h
  exact ⟨l, token, okOr_eq_ok.1 hl, htoken, rfl⟩

theorem revokeInvite_ok {tokenId : String} (h : σ.revokeInvite spaceId tokenId = .ok σ') :
    ∃ l, σ.leaders spaceId = some l ∧
      σ' = { σ with
        leaders := Function.update σ.leaders spaceId
          (some { l with inviteTokens := l.inviteTokens.filter fun t => t.id ≠ tokenId }) } := by
  obtain ⟨l, hl, h⟩ := bind_eq_ok.1 h
  obtain ⟨-, -, h⟩ := bind_eq_ok.1 h
  cases h
  exact ⟨l, okOr_eq_ok.1 hl, rfl⟩

theorem queueInvite_ok {inv : QueuedInvite} (h : σ.queueInvite inv = .ok σ') :
    σ.vault.inviteTokens.get inv.id = none ∧
      σ' = { σ with vault := { σ.vault with inviteTokens := σ.vault.inviteTokens.insertOrReplace inv.toRow } } := by
  obtain ⟨_, hnone, h⟩ := bind_eq_ok.1 h
  cases h
  exact ⟨by simpa using hnone, rfl⟩

end Server

inductive Event where
  | request (conn : Connection) (w : World) (req : Request)
  | disconnect (endpointId : String)
  | startLeader (spaceId : String) (now : Nat) (loaded : Bool)
  | stopLeader (spaceId : String)
  | createInvite (spaceId : String) (inv : NewInvite)
  | revokeInvite (spaceId tokenId : String)
  | queueInvite (inv : QueuedInvite)
  | removeMember (spaceId did : String) (deleteUcans : Bool)
  /-- Whatever else the application writes to the vault. -/
  | edit (v : Vault)

namespace Server

/-- One event; a command that fails changes nothing. -/
def step (crates : Crates) (σ : Server) : Event → Server
  | .request conn w req => (σ.handleStream crates w conn req).2
  | .disconnect endpointId => σ.disconnect endpointId
  | .startLeader spaceId now loaded => σ.startLeader spaceId now loaded
  | .stopLeader spaceId => σ.stopLeader spaceId
  | .createInvite spaceId inv => ((σ.createInvite crates spaceId inv).toOption).getD σ
  | .revokeInvite spaceId tokenId => ((σ.revokeInvite spaceId tokenId).toOption).getD σ
  | .queueInvite inv => ((σ.queueInvite inv).toOption).getD σ
  | .removeMember spaceId did deleteUcans => { σ with vault := σ.vault.removeMember spaceId did deleteUcans }
  | .edit v => { σ with vault := v }

end Server

end HaexVault.Space
