import HaexVault.Space.Leader
/-!
# Sessions

`gate_safe`: what passes the gate comes from an unexpired UCAN of the connection's DID that an earlier
`Announce` validated, and from an active member. But the peer map is written under an endpoint the
payload names (`claim_ends_session`, `sessions_kept`).
-/

namespace HaexVault.Space

open HaexVault.Crdt HaexVault.Lib HaexVault.Lib.Runs HaexVault.Lib.Steps

namespace Server

/-- The UCAN the leader of a space holds for an endpoint. -/
def cachedUcan (σ : Server) (spaceId endpointId : String) : Option ValidatedUcan :=
  (σ.leaders spaceId).bind (·.cachedUcan endpointId)

def Accepts (σ : Server) (now : Nat) (conn : Connection) (req : Request) : Prop :=
  ∃ l granted, σ.leaders req.spaceIdOf = some l ∧ authorizeRequest σ.vault l now conn req = .ok granted

def HasSession (σ : Server) (now : Nat) (spaceId : String) (conn : Connection) : Prop :=
  ∃ u, σ.cachedUcan spaceId conn.endpointId = some u ∧ now < u.expiresAt ∧ u.Admits σ.vault spaceId conn.did

theorem accepts_gated {σ : Server} {now : Nat} {conn : Connection} {req : Request} {level : CapabilityLevel}
    (h : req.requiredCapability = some level) : σ.Accepts now conn req ↔ σ.HasSession now req.spaceIdOf conn := by
  unfold Accepts HasSession cachedUcan
  constructor
  · rintro ⟨l, granted, hl, hok⟩
    obtain ⟨u, -, hu, hexp, hadmits⟩ := (authorizeRequest_ok h).1 hok
    exact ⟨u, by simp [hl, hu], hexp, hadmits⟩
  · rintro ⟨u, hu, hexp, hadmits⟩
    obtain ⟨l, hl, hu⟩ := Option.bind_eq_some_iff.1 hu
    exact ⟨l, some u, hl, (authorizeRequest_ok h).2 ⟨u, rfl, hu, hexp, hadmits⟩⟩

theorem accepts_exempt {σ : Server} {now : Nat} {conn : Connection} {req : Request} (h : req.requiredCapability = none) :
    σ.Accepts now conn req ↔ (σ.leaders req.spaceIdOf).isSome = true := by
  rw [Option.isSome_iff_exists]
  constructor
  · rintro ⟨l, -, hl, -⟩
    exact ⟨l, hl⟩
  · rintro ⟨l, hl⟩
    exact ⟨l, none, hl, by simp [authorizeRequest, h]⟩

/-! ## One request -/

section Request
variable (crates : Crates) (w : World) (σ : Server) (conn : Connection) (req : Request)

theorem handleStream_cases :
    ((σ.handleStream crates w conn req).2 = σ ∧
        ∀ welcome ucan capability, (σ.handleStream crates w conn req).1 ≠ .inviteClaimed welcome ucan capability) ∨
      ∃ l out, σ.leaders req.spaceIdOf = some l ∧ Handled crates w σ.vault l conn req out ∧
        σ.handleStream crates w conn req = (out.1, ⟨out.2.1, Function.update σ.leaders req.spaceIdOf (some out.2.2)⟩) := by
  unfold handleStream
  split
  · exact .inl ⟨rfl, by simp⟩
  · split
    · exact .inl ⟨rfl, by simp⟩
    · rename_i l hl
      exact .inr ⟨l, _, hl, handleDeliveryRequest_handled .., rfl⟩

theorem leaders_isSome_handleStream (s : String) :
    ((σ.handleStream crates w conn req).2.leaders s).isSome = (σ.leaders s).isSome := by
  rcases handleStream_cases crates w σ conn req with ⟨h, -⟩ | ⟨l, out, hl, -, h⟩
  · rw [h]
  · rw [h]
    by_cases hs : s = req.spaceIdOf
    · subst hs; simp [hl]
    · simp [Function.update_of_ne hs]

theorem cachedUcan_handleStream (s e : String) :
    (σ.handleStream crates w conn req).2.cachedUcan s e = σ.cachedUcan s e ∨
      (∃ ucanToken u, req = .announce s e ucanToken ∧ Announces crates w.now σ.vault conn.did s ucanToken u ∧
        (σ.handleStream crates w conn req).2.cachedUcan s e = some u) ∨
      ∃ claim l, req = .claimInvite claim ∧ claim.spaceId = s ∧ claim.endpointId = e ∧ σ.leaders s = some l ∧
        Registers crates w.toClaimWorld σ.vault l claim conn.did ∧
        (σ.handleStream crates w conn req).2.cachedUcan s e = none := by
  rcases handleStream_cases crates w σ conn req with ⟨h, -⟩ | ⟨l, out, hl, hout, h⟩
  · exact .inl (by rw [h])
  · rw [h]
    by_cases hs : s = req.spaceIdOf
    · subst hs
      have hafter : cachedUcan ⟨out.2.1, Function.update σ.leaders req.spaceIdOf (some out.2.2)⟩ req.spaceIdOf e =
          out.2.2.cachedUcan e := by simp [cachedUcan]
      simp only [hafter]
      rcases hout.cachedUcan e with h | ⟨ucanToken, u, hreq, hu, h⟩ | ⟨claim, hreq, he, hreg, h⟩
      · exact .inl (by simp [cachedUcan, hl, h])
      · exact .inr (.inl ⟨ucanToken, u, hreq, hu, h⟩)
      · exact .inr (.inr ⟨claim, l, hreq, by rw [hreq]; rfl, he, hl, hreg, h⟩)
    · exact .inl (by simp [cachedUcan, Function.update_of_ne hs])

end Request

section Named
variable {crates : Crates} {w : World} {σ : Server} {conn : Connection} {l : Leader}

theorem handleStream_announce {spaceId endpointId : String} {ucanToken : Option String} {u : ValidatedUcan}
    (hl : σ.leaders spaceId = some l) (hu : Announces crates w.now σ.vault conn.did spaceId ucanToken u) :
    σ.handleStream crates w conn (.announce spaceId endpointId ucanToken) =
      (.ok, ⟨σ.vault, Function.update σ.leaders spaceId (some (l.register ⟨endpointId, conn.did, some u⟩))⟩) := by
  have hok : announce crates w.now σ.vault l conn.did spaceId endpointId ucanToken =
      .ok (l.register ⟨endpointId, conn.did, some u⟩) := announce_ok.2 ⟨u, hu, rfl⟩
  simp [handleStream, Request.spaceIdOf, hl, handleDeliveryRequest, authorizeRequest, Request.requiredCapability, hok]

theorem cachedUcan_announce {spaceId endpointId : String} {ucanToken : Option String} {u : ValidatedUcan}
    (hl : σ.leaders spaceId = some l) (hu : Announces crates w.now σ.vault conn.did spaceId ucanToken u) :
    (σ.handleStream crates w conn (.announce spaceId endpointId ucanToken)).2.cachedUcan spaceId endpointId = some u := by
  simp [handleStream_announce hl hu, cachedUcan, Leader.cachedUcan_register]

theorem cachedUcan_claim {claim : ClaimRequest} (hl : σ.leaders claim.spaceId = some l)
    (hreg : Registers crates w.toClaimWorld σ.vault l claim conn.did) :
    (σ.handleStream crates w conn (.claimInvite claim)).2.cachedUcan claim.spaceId claim.endpointId = none := by
  rcases (handleClaimInvite_outcome crates w.toClaimWorld σ.vault l claim conn.did).peers with ⟨hno, -⟩ | ⟨-, hp⟩
  · exact absurd hreg hno
  · simp [handleStream, Request.spaceIdOf, hl, handleDeliveryRequest, authorizeRequest, Request.requiredCapability,
      cachedUcan, Leader.cachedUcan, hp]

end Named

end Server

/-! ## A member with a session -/

def memberConn : Connection := ⟨"ep-member", memberKey.did⟩

def malloryConn : Connection := ⟨"ep-mallory", "did:key:z6MkvRXNYcE7MMduynWTgeKbDaT1iijDSC8pZqXZc8rHPrf2"⟩

def sessionRows (name : String) : List Row :=
  if name = "haex_space_members" then [memberRow "m1" "s" "i-member"] else []

theorem sessionRows_holds : ∀ p ∈ spaceSchema, Holds { p.2 with rows := sessionRows p.1 } := by
  intro p hp
  simp only [spaceSchema, List.mem_cons, List.not_mem_nil, or_false] at hp
  rcases hp with rfl | rfl | rfl | rfl | rfl
  · exact holds_empty _
  · exact ⟨by decide, by decide⟩
  · exact holds_empty _
  · exact holds_empty _
  · exact holds_empty _

def sessionVault : Vault where
  space := ⟨spaceTablesOf sessionRows, spaceSchema_tablesOf sessionRows_holds⟩
  identities := ⟨[⟨"i-member", memberKey.did, none⟩], List.nodup_singleton _, List.nodup_singleton _⟩
  inviteTokens := ⟨[⟨"t1", "s", none, some ["space/read"], some "ucan", 1, 0, some 100⟩], List.nodup_singleton _⟩

def sampleWorld : World where
  now := 1
  nonce := "n"
  identityUuid := "i-new"
  memberUuid := "m-new"
  hlc := "1/a"
  joinedAt := "now"
  keyPackage := .ok true
  addMember := .ok (some "welcome")
  ucanStored := true
  hlcLock := .ok ()
  identityInsert := .ok ()
  memberInsert := .ok ()
  useStored := true
  env := pushEnv
  pushHash := pushInOrder
  hash := inOrder
  reloadAllowedPeers := .ok ()

def memberAnnounces : List Event :=
  [.startLeader "s" 0 true, .request memberConn sampleWorld (.announce "s" "ep-member" (some readToken.token))]

def memberSession : Server := run (Server.step sampleCrates) ⟨sessionVault, fun _ => none⟩ memberAnnounces

def readUcan : ValidatedUcan := ⟨adminKey.did, memberKey.did, [("s", .read)], 100⟩

theorem readUcan_admits : readUcan.Admits sessionVault "s" memberKey.did :=
  ⟨by decide, rfl, ⟨.read, rfl, by decide⟩, by decide⟩

theorem memberSession_eq : memberSession =
    ⟨sessionVault, Function.update (Function.update (fun _ => none) "s" (some { inviteTokens := loadInviteTokens 0 sessionVault "s" }))
      "s" (some (Leader.register { inviteTokens := loadInviteTokens 0 sessionVault "s" }
        ⟨"ep-member", memberKey.did, some readUcan⟩))⟩ := by
  have hu : Announces sampleCrates 1 sessionVault memberKey.did "s" (some readToken.token) readUcan :=
    ⟨_, rfl, (validateToken_sample (by simp) rfl).2 ⟨by decide, rfl⟩, readUcan_admits⟩
  have hstart : ((⟨sessionVault, fun _ => none⟩ : Server).startLeader "s" 0 true).leaders "s" =
      some { inviteTokens := loadInviteTokens 0 sessionVault "s" } := rfl
  exact congrArg Prod.snd (Server.handleStream_announce (w := sampleWorld) hstart hu)

theorem memberSession_hasSession : memberSession.HasSession 1 "s" memberConn := by
  rw [memberSession_eq]
  exact ⟨readUcan, rfl, by decide, readUcan_admits⟩

/-! ## What passes the gate was announced -/

/-- The UCAN of an `Announce` in the history: it was validated, and is for the DID that announced it. -/
def Announced (crates : Crates) (es : List Event) (s e : String) (u : ValidatedUcan) : Prop :=
  ∃ conn w token, Event.request conn w (.announce s e (some token)) ∈ es ∧
    validateToken crates w.now token = .ok u ∧ u.audience = conn.did

namespace Server
variable {crates : Crates} {σ : Server}

theorem command_ok {P : Server → Prop} {x : Except String Server} (h : P σ) (hok : ∀ σ', x = .ok σ' → P σ') :
    P (x.toOption.getD σ) := by
  cases x with
  | error e => exact h
  | ok σ' => exact hok σ' rfl

/-- A step caches no UCAN but one it has just validated. -/
theorem cachedUcan_step {ev : Event} {s e : String} {u : ValidatedUcan} (h : (σ.step crates ev).cachedUcan s e = some u) :
    σ.cachedUcan s e = some u ∨ Announced crates [ev] s e u := by
  -- the commands change the tokens of one leader, not its peers
  have hsame : ∀ (v' : Vault) (spaceId : String) (l : Leader) (inviteTokens : List LocalInviteToken),
      σ.leaders spaceId = some l →
      cachedUcan ⟨v', Function.update σ.leaders spaceId (some { l with inviteTokens })⟩ s e = σ.cachedUcan s e := by
    intro v' spaceId l inviteTokens hl
    by_cases hs : s = spaceId
    · subst hs; simp [cachedUcan, Leader.cachedUcan, hl]
    · simp [cachedUcan, Function.update_of_ne hs]
  cases ev with
  | request conn w req =>
    rcases cachedUcan_handleStream crates w σ conn req s e with h' | ⟨ucanToken, u', hreq, ⟨token, rfl, hu, hadmits⟩, h'⟩ |
      ⟨claim, l, hreq, -, -, -, -, h'⟩
    · exact .inl (h'.symm.trans h)
    · obtain rfl : u' = u := Option.some.inj (h'.symm.trans h)
      exact .inr ⟨conn, w, token, by rw [hreq]; exact List.mem_singleton_self _, hu, hadmits.audience⟩
    · cases h'.symm.trans h
  | disconnect endpointId =>
    left
    rw [← h]
    by_cases he : e = endpointId
    · subst he
      cases hl : σ.leaders s <;> simp [step, disconnect, cachedUcan, Leader.cachedUcan, hl] at h
    · simp [step, disconnect, cachedUcan, Leader.cachedUcan, Option.bind_map, Function.update_of_ne he]
  | startLeader spaceId now loaded =>
    left
    by_cases hs : s = spaceId
    · subst hs; simp [step, startLeader, cachedUcan, Leader.cachedUcan] at h
    · simpa [step, startLeader, cachedUcan, Function.update_of_ne hs] using h
  | stopLeader spaceId =>
    left
    by_cases hs : s = spaceId
    · subst hs; simp [step, stopLeader, cachedUcan] at h
    · simpa [step, stopLeader, cachedUcan, Function.update_of_ne hs] using h
  | createInvite spaceId inv =>
    left
    rw [← h]
    refine command_ok (P := fun σ' => σ.cachedUcan s e = σ'.cachedUcan s e) rfl fun σ' hok => ?_
    obtain ⟨l, token, hl, -, rfl⟩ := createInvite_ok hok
    exact (hsame _ _ _ _ hl).symm
  | revokeInvite spaceId tokenId =>
    left
    rw [← h]
    refine command_ok (P := fun σ' => σ.cachedUcan s e = σ'.cachedUcan s e) rfl fun σ' hok => ?_
    obtain ⟨l, hl, rfl⟩ := revokeInvite_ok hok
    exact (hsame _ _ _ _ hl).symm
  | queueInvite inv =>
    left
    rw [← h]
    refine command_ok (P := fun σ' => σ.cachedUcan s e = σ'.cachedUcan s e) rfl fun σ' hok => ?_
    obtain ⟨-, rfl⟩ := queueInvite_ok hok
    rfl
  | removeMember spaceId did deleteUcans => exact .inl h
  | edit v => exact .inl h

end Server

theorem Announced.mono {crates : Crates} {es es' : List Event} {s e : String} {u : ValidatedUcan}
    (h : Announced crates es s e u) (hsub : es ⊆ es') : Announced crates es' s e u := by
  obtain ⟨conn, w, token, hm, hu, haud⟩ := h
  exact ⟨conn, w, token, hsub hm, hu, haud⟩

theorem cachedUcan_announced {crates : Crates} {v : Vault} (es : List Event) {s e : String} {u : ValidatedUcan}
    (h : (run (Server.step crates) ⟨v, fun _ => none⟩ es).cachedUcan s e = some u) : Announced crates es s e u := by
  revert h
  refine Guarded.history (P := fun es (σ : Server) => σ.cachedUcan s e = some u → Announced crates es s e u) ?_ ?_
    (guarded_true _ es)
  · intro h; cases h
  · intro es ev ih _ h
    rcases Server.cachedUcan_step h with h | h
    · exact (ih h).mono (List.subset_append_left _ _)
    · exact h.mono (List.subset_append_right _ _)

/-- A request that is not exempt passes the gate only on an unexpired UCAN of the connection's DID, with the
capability the request needs, that an earlier `Announce` validated; and only for an active member. -/
theorem gate_safe {crates : Crates} {v : Vault} {es : List Event} {now : Nat} {conn : Connection} {req : Request}
    {required : CapabilityLevel} (hreq : req.requiredCapability = some required)
    (h : (run (Server.step crates) ⟨v, fun _ => none⟩ es).Accepts now conn req) :
    ∃ u : ValidatedUcan, u.audience = conn.did ∧ u.Grants req.spaceIdOf required ∧ now < u.expiresAt ∧
      (run (Server.step crates) ⟨v, fun _ => none⟩ es).vault.isActiveSpaceMember req.spaceIdOf conn.did = true ∧
      ∃ announcer w token, Event.request announcer w (.announce req.spaceIdOf conn.endpointId (some token)) ∈ es ∧
        validateToken crates w.now token = .ok u ∧ announcer.did = conn.did := by
  obtain ⟨u, hu, hexp, hadmits⟩ := (Server.accepts_gated hreq).1 h
  obtain ⟨announcer, w, token, hm, hvalid, haud⟩ := cachedUcan_announced es hu
  obtain rfl := requiredCapability_eq hreq
  exact ⟨u, hadmits.audience, hadmits.grants, hexp, hadmits.member, announcer, w, token, hm, hvalid,
    haud.symm.trans hadmits.audience⟩

/-- What lets the member of `memberSession` pull. -/
theorem gate_safe_member : ∃ u : ValidatedUcan, u.audience = memberKey.did ∧ u.Grants "s" .read ∧ 1 < u.expiresAt ∧
    memberSession.vault.isActiveSpaceMember "s" memberKey.did = true ∧
    ∃ announcer w token, Event.request announcer w (.announce "s" "ep-member" (some token)) ∈ memberAnnounces ∧
      validateToken sampleCrates w.now token = .ok u ∧ announcer.did = memberKey.did := by
  have hgated : (Request.syncPull "s").requiredCapability = some .read := rfl
  exact gate_safe hgated ((Server.accepts_gated hgated).2 memberSession_hasSession)

/-! ## Other peers' sessions -/

section Others
variable {crates : Crates} {w : World} {v : Vault} {l : Leader} {conn : Connection} {req : Request}

theorem Handled.isActiveSpaceMember {out : Response × Vault × Leader} (h : Handled crates w v l conn req out)
    (halike : ∀ spaceId raw, req = .syncPush spaceId (.ok raw) →
      ReadAlike w.env w.env v.space.db (changesOf "haex_space_members" raw)) {s d : String} (hd : d ≠ conn.did) :
    out.2.1.isActiveSpaceMember s d = v.isActiveSpaceMember s d := by
  cases h with
  | unchanged => rfl
  | announced => rfl
  | claimed claim _ _ hclaim => exact hclaim.isActiveSpaceMember hd
  | pushed spaceId raw changes u space r hreq haud hchanges hspace =>
    have hchecked := checked_of_authorize (halike spaceId raw hreq) hchanges
    rw [haud] at hchecked
    exact isActiveSpaceMember_of_confinedIn
      (apply_confinedIn (table_of_authorize hchanges) hchecked (SpaceDb.apply_ok hspace)) hd

end Others

/-- The request leaves the session of `conn` alone: an `Announce` or a `ClaimInvite` that names the endpoint of a session
is refused, and the checks and the writer of a push read its member rows alike. -/
def Harmless (crates : Crates) (w : World) (σ : Server) (conn other : Connection) : Request → Prop
  | .announce spaceId endpointId ucanToken => endpointId = conn.endpointId → σ.HasSession w.now spaceId conn →
      ∀ u, ¬ Announces crates w.now σ.vault other.did spaceId ucanToken u
  | .claimInvite claim => claim.endpointId = conn.endpointId → σ.HasSession w.now claim.spaceId conn →
      ∀ l, σ.leaders claim.spaceId = some l → ¬ Registers crates w.toClaimWorld σ.vault l claim other.did
  | .syncPush _ (.ok raw) => ReadAlike w.env w.env σ.vault.space.db (changesOf "haex_space_members" raw)
  | _ => True

/-- From now on the gate decides on the requests of `conn` as it did before the request of `other`. -/
def KeepsSession (crates : Crates) (w : World) (σ : Server) (conn other : Connection) (req : Request) : Prop :=
  ∀ now next, w.now ≤ now → ((σ.handleStream crates w other req).2.Accepts now conn next ↔ σ.Accepts now conn next)

theorem Server.HasSession.earlier {σ : Server} {now now' : Nat} {s : String} {conn : Connection}
    (h : σ.HasSession now s conn) (hle : now' ≤ now) : σ.HasSession now' s conn := by
  obtain ⟨u, hu, hexp, hadmits⟩ := h
  exact ⟨u, hu, by omega, hadmits⟩

section Sessions
variable {crates : Crates} {w : World} {σ : Server} {conn other : Connection} {req : Request}

theorem isActiveSpaceMember_handleStream (hd : other.did ≠ conn.did) (h : Harmless crates w σ conn other req) (s : String) :
    (σ.handleStream crates w other req).2.vault.isActiveSpaceMember s conn.did = σ.vault.isActiveSpaceMember s conn.did := by
  rcases Server.handleStream_cases crates w σ other req with ⟨hsame, -⟩ | ⟨l, out, -, hout, hafter⟩
  · rw [hsame]
  · rw [hafter]
    refine hout.isActiveSpaceMember (fun spaceId raw hreq => ?_) hd.symm
    subst hreq
    exact h

theorem keepsSession_of_harmless (hd : other.did ≠ conn.did) (h : Harmless crates w σ conn other req) :
    KeepsSession crates w σ conn other req := by
  intro now next hnow
  cases hnext : next.requiredCapability with
  | none => rw [Server.accepts_exempt hnext, Server.accepts_exempt hnext, Server.leaders_isSome_handleStream]
  | some level =>
    rw [Server.accepts_gated hnext, Server.accepts_gated hnext]
    have hmem := isActiveSpaceMember_handleStream hd h next.spaceIdOf
    rcases Server.cachedUcan_handleStream crates w σ other req next.spaceIdOf conn.endpointId with hsame |
      ⟨ucanToken, u, hreq, hu, hafter⟩ | ⟨claim, l, hreq, hs, he, hl, hreg, hafter⟩
    · constructor
      · rintro ⟨u, hu, hexp, hne, haud, hcap, hm⟩
        exact ⟨u, hsame ▸ hu, hexp, hne, haud, hcap, hmem ▸ hm⟩
      · rintro ⟨u, hu, hexp, hne, haud, hcap, hm⟩
        exact ⟨u, hsame.symm ▸ hu, hexp, hne, haud, hcap, hmem.symm ▸ hm⟩
    · subst hreq
      constructor
      · rintro ⟨u', hu', -, hadmits⟩
        obtain rfl : u = u' := Option.some.inj (hafter.symm.trans hu')
        obtain ⟨-, -, -, hother⟩ := hu
        exact absurd (hother.audience.symm.trans hadmits.audience) hd
      · intro hsession
        exact absurd hu (h rfl (hsession.earlier hnow) u)
    · subst hreq
      constructor
      · rintro ⟨u', hu', -⟩
        cases hafter.symm.trans hu'
      · intro hsession
        exact absurd hreg (h he (hs ▸ hsession.earlier hnow) l (hs ▸ hl))

theorem harmless_of_keepsSession (hd : other.did ≠ conn.did) (hpush : ∀ s changes, req ≠ .syncPush s changes)
    (h : KeepsSession crates w σ conn other req) : Harmless crates w σ conn other req := by
  have hpull : ∀ s, σ.HasSession w.now s conn → (σ.handleStream crates w other req).2.HasSession w.now s conn := by
    intro s hsession
    have hgate : ∀ σ : Server, σ.Accepts w.now conn (.syncPull s) ↔ σ.HasSession w.now s conn :=
      fun σ => Server.accepts_gated rfl
    exact (hgate _).1 ((h w.now (.syncPull s) le_rfl).2 ((hgate σ).2 hsession))
  cases req with
  | announce spaceId endpointId ucanToken =>
    rintro rfl hsession u hu
    obtain ⟨u', hu', -, hadmits⟩ := hpull spaceId hsession
    obtain ⟨_, hcached, -⟩ := hsession
    obtain ⟨l, hl, -⟩ := Option.bind_eq_some_iff.1 hcached
    obtain rfl : u = u' := Option.some.inj ((Server.cachedUcan_announce hl hu).symm.trans hu')
    obtain ⟨-, -, -, hother⟩ := hu
    exact hd (hother.audience.symm.trans hadmits.audience)
  | claimInvite claim =>
    rintro he hsession l hl hreg
    obtain ⟨u', hu', -⟩ := hpull claim.spaceId hsession
    rw [← he, Server.cachedUcan_claim hl hreg] at hu'
    cases hu'
  | pushInvite spaceId => trivial
  | syncPush spaceId changes => exact absurd rfl (hpush spaceId changes)
  | syncPull spaceId => trivial
  | mls op spaceId => trivial

end Sessions

def HarmlessTo (crates : Crates) (conn : Connection) (σ : Server) : Event → Prop
  | .request other w req => other.endpointId ≠ conn.endpointId → other.did ≠ conn.did → Harmless crates w σ conn other req
  | _ => True

def KeptFor (crates : Crates) (conn : Connection) (σ : Server) : Event → Prop
  | .request other w req =>
    other.endpointId ≠ conn.endpointId → other.did ≠ conn.did → KeepsSession crates w σ conn other req
  | _ => True

/-- In every run whose requests are harmless to a connection, no peer changes what the gate decides on it; and
nothing but a push does so without being harmless. -/
theorem sessions_kept {crates : Crates} {conn : Connection} :
    (∀ σ es, Guarded (Server.step crates) (HarmlessTo crates conn) σ es → Guarded (Server.step crates) (KeptFor crates conn) σ es) ∧
      ∀ σ other w req, (∀ s changes, req ≠ .syncPush s changes) → KeptFor crates conn σ (.request other w req) →
        HarmlessTo crates conn σ (.request other w req) := by
  constructor
  · intro σ es h
    refine h.each (I := fun _ => True) (fun _ _ _ _ => trivial) (fun σ ev _ hev => ?_) trivial
    cases ev with
    | request other w req => exact fun he hd => keepsSession_of_harmless hd (hev he hd)
    | _ => trivial
  · intro σ other w req hpush h he hd
    exact harmless_of_keepsSession hd hpush (h he hd)

/-- A claim under the claimant's own endpoint leaves the member's session. -/
theorem sessions_kept_own_endpoint : Guarded (Server.step sampleCrates) (KeptFor sampleCrates memberConn) memberSession
    [.request malloryConn sampleWorld (.claimInvite ⟨"s", "t1", "ep-mallory"⟩)] := by
  refine sessions_kept.1 _ _ ⟨fun _ _ he => ?_, trivial⟩
  exact absurd he (by decide)

/-- A claim that names the member's endpoint ends it. -/
theorem claim_ends_session :
    memberSession.Accepts 1 memberConn (.syncPull "s") ∧ malloryConn.endpointId ≠ memberConn.endpointId ∧
      malloryConn.did ≠ memberConn.did ∧
      ¬ (memberSession.handleStream sampleCrates sampleWorld malloryConn (.claimInvite ⟨"s", "t1", "ep-member"⟩)).2.Accepts 1
        memberConn (.syncPull "s") := by
  refine ⟨(Server.accepts_gated rfl).2 memberSession_hasSession, by decide, by decide, fun h => ?_⟩
  obtain ⟨u, hu, -⟩ := (Server.accepts_gated rfl).1 h
  have hnone : (memberSession.handleStream sampleCrates sampleWorld malloryConn
      (.claimInvite ⟨"s", "t1", "ep-member"⟩)).2.cachedUcan "s" "ep-member" = none := by
    rw [memberSession_eq]
    exact @Server.cachedUcan_claim _ _ _ _ _ ⟨"s", "t1", "ep-member"⟩ rfl ⟨⟨("space/read", "ucan"), rfl⟩, "welcome", rfl⟩
  cases hnone.symm.trans hu

end HaexVault.Space
