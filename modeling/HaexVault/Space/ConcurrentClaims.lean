import Mathlib.Data.Finset.Card
import HaexVault.Space.Admission
/-!
# Concurrent claims

`handle_claim_invite` gives up its thread four times, so claims run interleaved segment by segment;
one that runs alone is `handleClaimInvite` (`runsAlone`). A claim validates its token in one segment
and counts the use in its last one.
-/

namespace HaexVault.Space

open HaexVault.Crdt HaexVault.Lib HaexVault.Lib.Runs

/-! ## One claim, segment by segment -/

/-- Where a claim waits. -/
inductive ClaimPhase where
  /-- For the token lock of `validate_invite`. -/
  | validating
  /-- For `mls::add_member`. -/
  | addingMember (grant : String × String)
  /-- For the notification of the commit. -/
  | notifying (grant : String × String) (welcome : Option String)
  /-- For the lock on the connected peers. -/
  | registering (grant : String × String) (welcome : String)
  /-- For the token lock of `consume_invite`. -/
  | consuming (grant : String × String) (welcome : String)
  | done (response : Response)
  deriving DecidableEq

structure ClaimCall where
  req : ClaimRequest
  did : String
  w : ClaimWorld
  /-- `is_retry`. -/
  retry : Bool
  phase : ClaimPhase
  /-- Whether this call has made its claimant a member. -/
  newMember : Bool := false

namespace ClaimCall

def takeKeyPackage (w : ClaimWorld) (grant : String × String) : ClaimPhase :=
  match w.keyPackage with
  | .error e => .done (.error ("Key package error: " ++ e))
  | .ok false => .done (.error "No key package available after upload")
  | .ok true => .addingMember grant

def start (v : Vault) (req : ClaimRequest) (did : String) (w : ClaimWorld) : ClaimCall :=
  match loadExistingClaim v req.spaceId did with
  | some grant => { req, did, w, retry := true, phase := takeKeyPackage w grant }
  | none => { req, did, w, retry := false, phase := .validating }

variable (crates : Crates) (v : Vault) (l : Leader) (c : ClaimCall)

/-- Steps 2 to 5 of a first claim, under the token lock. -/
def validate : Leader × ClaimCall :=
  let tokens := loadToken c.w.now v l.inviteTokens c.req.token
  ({ l with inviteTokens := tokens }, match firstGrant crates c.w v c.req c.did tokens with
    | .error e => { c with phase := .done (.error e) }
    | .ok grant => { c with phase := takeKeyPackage c.w grant })

/-- Steps 11 and 12. -/
def register (grant : String × String) (welcome : String) : Vault × Leader × ClaimCall :=
  let l := l.register ⟨c.req.endpointId, c.did, none⟩
  match c.w.hlcLock with
  | .error e => (v, l, { c with phase := .done (.error ("Failed to persist new member: " ++ e)) })
  | .ok _ => match c.w.identityInsert with
    | .error e => (v, l, { c with phase := .done (.error ("Failed to persist member identity: " ++ e)) })
    | .ok _ => match c.w.memberInsert with
      | .error e =>
        ({ v with identities := v.identities.insertOrIgnore ⟨c.w.identityUuid, c.did, none⟩ }, l,
          { c with phase := .done (.error ("Failed to persist space member: " ++ e)) })
      | .ok _ =>
        let v' := v.persistMember c.req.spaceId c.did grant.1 c.w.identityUuid c.w.memberUuid c.w.joinedAt c.w.hlc
        (v', l,
          { c with
            phase := if c.retry then .done (.inviteClaimed welcome grant.2 grant.1) else .consuming grant welcome
            newMember := !v.isActiveSpaceMember c.req.spaceId c.did && v'.isActiveSpaceMember c.req.spaceId c.did })

/-- What a claim does until it waits again. -/
def advance : Vault × Leader × ClaimCall :=
  match c.phase with
  | .validating => (v, c.validate crates v l)
  | .addingMember grant => match c.w.addMember with
    | .error e => (v, l, { c with phase := .done (.error ("MLS add_member failed: " ++ e)) })
    | .ok welcome => (v, l, { c with phase := .notifying grant welcome })
  | .notifying grant welcome => match welcome with
    | none => (v, l, { c with phase := .done (.error "MLS add_member produced no welcome") })
    | some welcome =>
      (persistAdminUcan v c.req.spaceId c.did grant.1 grant.2 c.w.now c.w.ucanStored, l,
        { c with phase := .registering grant welcome })
  | .registering grant welcome => c.register v l grant welcome
  | .consuming grant welcome =>
    let consumed := consumeInvite v l.inviteTokens c.req.token c.w.useStored
    (consumed.1, { l with inviteTokens := consumed.2 }, { c with phase := .done (.inviteClaimed welcome grant.2 grant.1) })
  | .done _ => (v, l, c)

variable {crates v l c}

theorem advance_done {response : Response} (h : c.phase = .done response) : c.advance crates v l = (v, l, c) := by
  simp only [advance, h]

end ClaimCall

section Alone
variable (crates : Crates) (w : ClaimWorld) (v : Vault) (l : Leader) (req : ClaimRequest) (did : String)

def advanceAlone (out : Vault × Leader × ClaimCall) : Vault × Leader × ClaimCall := out.2.2.advance crates out.1 out.2.1

/-- Where a claim that runs alone ends: it waits four times at most. -/
def ranAlone : Vault × Leader × ClaimCall := (advanceAlone crates)^[5] (v, l, ClaimCall.start v req did w)

theorem granted_runsAlone (grant : String × String) {retry : Bool} (hretry : isRetry v req did = retry) :
    let out := (advanceAlone crates)^[4]
      (v, { l with inviteTokens := claimTokens w v l req did }, { req, did, w, retry, phase := ClaimCall.takeKeyPackage w grant })
    let claimed : Response × Vault × Leader := match admitToGroup w with
      | .error e => (.error e, v, { l with inviteTokens := claimTokens w v l req did })
      | .ok welcome => admitMember w v l req did grant.1 grant.2 welcome
          (persistAdminUcan v req.spaceId did grant.1 grant.2 w.now w.ucanStored)
    out.1 = claimed.2.1 ∧ out.2.1 = claimed.2.2 ∧ out.2.2.phase = .done claimed.1 := by
  simp only [Function.iterate_succ_apply, Function.iterate_zero_apply, advanceAlone]
  cases hkey : w.keyPackage with
  | error e => simp [ClaimCall.advance, ClaimCall.takeKeyPackage, admitToGroup, hkey]
  | ok stored =>
    cases stored with
    | false => simp [ClaimCall.advance, ClaimCall.takeKeyPackage, admitToGroup, hkey]
    | true =>
      rcases hadd : w.addMember with e | _ | welcome
      · simp [ClaimCall.advance, ClaimCall.takeKeyPackage, admitToGroup, hkey, hadd]
      · simp [ClaimCall.advance, ClaimCall.takeKeyPackage, admitToGroup, hkey, hadd]
      · simp only [ClaimCall.advance, ClaimCall.takeKeyPackage, admitToGroup, hkey, hadd, ClaimCall.register, admitMember,
          claimedLeader]
        cases hlock : w.hlcLock with
        | error e => simp
        | ok _ =>
          cases hid : w.identityInsert with
          | error e => simp
          | ok _ =>
            cases hmem : w.memberInsert with
            | error e => simp
            | ok _ => cases retry <;> simp [hretry, Leader.register]

/-- A claim that runs alone does what `handleClaimInvite` does. -/
theorem runsAlone :
    (ranAlone crates w v l req did).1 = (handleClaimInvite crates w v l req did).2.1 ∧
      (ranAlone crates w v l req did).2.1 = (handleClaimInvite crates w v l req did).2.2 ∧
      (ranAlone crates w v l req did).2.2.phase = .done (handleClaimInvite crates w v l req did).1 := by
  unfold ranAlone
  cases hexisting : loadExistingClaim v req.spaceId did with
  | some grant =>
    have hretry : isRetry v req did = true := by simp [isRetry, hexisting]
    have htokens : ({ l with inviteTokens := claimTokens w v l req did } : Leader) = l := by simp [claimTokens, hretry]
    have h := granted_runsAlone crates w v l req did grant hretry
    rw [htokens] at h
    simp only [ClaimCall.start, hexisting, handleClaimInvite, claimGrant] at h ⊢
    rw [Function.iterate_succ_apply']
    generalize (advanceAlone crates)^[4] _ = out at h ⊢
    obtain ⟨v', l', c'⟩ := out
    rw [advanceAlone, ClaimCall.advance_done h.2.2, htokens]
    exact h
  | none =>
    have hretry : isRetry v req did = false := by simp [isRetry, hexisting]
    have htokens : claimTokens w v l req did = loadToken w.now v l.inviteTokens req.token := by simp [claimTokens, hretry]
    simp only [ClaimCall.start, hexisting, handleClaimInvite, claimGrant, htokens, Function.iterate_succ_apply _ 4]
    cases hgrant : firstGrant crates w v req did (loadToken w.now v l.inviteTokens req.token) with
    | error e =>
      simp [Function.iterate_succ_apply, advanceAlone, ClaimCall.advance, ClaimCall.validate, hgrant]
    | ok grant =>
      have hvalidated : advanceAlone crates (v, l, { req, did, w, retry := false, phase := .validating }) =
          (v, { l with inviteTokens := loadToken w.now v l.inviteTokens req.token },
            { req, did, w, retry := false, phase := ClaimCall.takeKeyPackage w grant }) := by
        simp [advanceAlone, ClaimCall.advance, ClaimCall.validate, hgrant]
      have h := granted_runsAlone crates w v l req did grant hretry
      rw [htokens] at h
      rw [hvalidated]
      exact h

end Alone

/-! ## What a segment does -/

namespace ClaimPhase

/-- The answer is `InviteClaimed`. -/
def claimed : ClaimPhase → Bool
  | done (.inviteClaimed _ _ _) => true
  | _ => false

def underway : ClaimPhase → Bool
  | validating => false
  | done _ => false
  | _ => true

def registers : ClaimPhase → Bool
  | registering _ _ => true
  | _ => false

end ClaimPhase

namespace ClaimCall
variable {crates : Crates} {v : Vault} {l : Leader} {c : ClaimCall}

theorem takeKeyPackage_claimed (w : ClaimWorld) (grant : String × String) : (takeKeyPackage w grant).claimed = false := by
  unfold takeKeyPackage; split <;> rfl

theorem takeKeyPackage_not_waiting (w : ClaimWorld) (grant : String × String) :
    takeKeyPackage w grant ≠ .validating ∧ ∀ grant' welcome, takeKeyPackage w grant ≠ .consuming grant' welcome := by
  unfold takeKeyPackage; split <;> simp

/-- The effects of one segment on the tokens and on the claim. -/
inductive Segment (v : Vault) (l : Leader) (c : ClaimCall) : Vault × Leader × ClaimCall → Prop
  /-- The token is loaded, and may be claimed if the claim goes on. -/
  | validated (phase : ClaimPhase) : c.phase = .validating → phase.claimed = false → phase ≠ .validating →
      (∀ grant welcome, phase ≠ .consuming grant welcome) →
      (phase.underway = true → ∃ token, Keyed.get (·.id) (loadToken c.w.now v l.inviteTokens c.req.token) c.req.token = some token ∧
        token.canClaim c.did c.w.now = true) →
      Segment v l c (v, { l with inviteTokens := loadToken c.w.now v l.inviteTokens c.req.token }, { c with phase })
  /-- The tokens stay as they are. -/
  | worked (v' : Vault) (l' : Leader) (phase : ClaimPhase) (newMember : Bool) : c.phase.underway = true →
      v'.inviteTokens = v.inviteTokens → l'.inviteTokens = l.inviteTokens → phase ≠ .validating →
      (∀ grant welcome, phase = .consuming grant welcome → c.retry = false) → (phase.claimed = true → c.retry = true) →
      (newMember = true → c.newMember = true ∨
        c.phase.registers = true ∧ v.isActiveSpaceMember c.req.spaceId c.did = false) →
      Segment v l c (v', l', { c with phase, newMember })
  /-- The use is counted and the claim answered. -/
  | consumed (grant : String × String) (welcome : String) : c.phase = .consuming grant welcome →
      Segment v l c ((consumeInvite v l.inviteTokens c.req.token c.w.useStored).1,
        { l with inviteTokens := (consumeInvite v l.inviteTokens c.req.token c.w.useStored).2 },
        { c with phase := .done (.inviteClaimed welcome grant.2 grant.1) })
  | finished (response : Response) : c.phase = .done response → Segment v l c (v, l, c)

theorem register_segment {grant : String × String} {welcome : String} (h : c.phase = .registering grant welcome) :
    Segment v l c (c.register v l grant welcome) := by
  have hunderway : c.phase.underway = true := by rw [h]; rfl
  have hregisters : c.phase.registers = true := by rw [h]; rfl
  unfold register
  dsimp only
  split
  · exact .worked _ _ _ _ hunderway rfl rfl (by simp) (by simp) (by simp [ClaimPhase.claimed]) .inl
  · split
    · exact .worked _ _ _ _ hunderway rfl rfl (by simp) (by simp) (by simp [ClaimPhase.claimed]) .inl
    · split
      · exact .worked _ _ _ _ hunderway rfl rfl (by simp) (by simp) (by simp [ClaimPhase.claimed]) .inl
      · refine .worked _ _ _ _ hunderway Vault.persistMember_inviteTokens rfl ?_ ?_ ?_ ?_
        · split <;> simp
        · split <;> simp_all
        · split <;> simp_all [ClaimPhase.claimed]
        · intro hnew
          refine .inr ⟨hregisters, ?_⟩
          simp only [Bool.and_eq_true, Bool.not_eq_true'] at hnew
          exact hnew.1

theorem advance_segment : Segment v l c (c.advance crates v l) := by
  unfold advance
  split
  · rename_i h
    unfold validate
    dsimp only
    split
    · exact .validated _ h rfl (by simp) (by simp) (by simp [ClaimPhase.underway])
    · rename_i grant hgrant
      exact .validated _ h (takeKeyPackage_claimed _ _) (takeKeyPackage_not_waiting _ _).1 (takeKeyPackage_not_waiting _ _).2
        fun _ => firstGrant_ok hgrant
  · rename_i grant h
    have hunderway : c.phase.underway = true := by rw [h]; rfl
    split
    · exact .worked _ _ _ _ hunderway rfl rfl (by simp) (by simp) (by simp [ClaimPhase.claimed]) .inl
    · exact .worked _ _ _ _ hunderway rfl rfl (by simp) (by simp) (by simp [ClaimPhase.claimed]) .inl
  · rename_i grant welcome h
    have hunderway : c.phase.underway = true := by rw [h]; rfl
    split
    · exact .worked _ _ _ _ hunderway rfl rfl (by simp) (by simp) (by simp [ClaimPhase.claimed]) .inl
    · exact .worked _ _ _ _ hunderway (persistAdminUcan_frame _ _ _ _ _ _ _).2.2 rfl (by simp) (by simp)
        (by simp [ClaimPhase.claimed]) .inl
  · rename_i h
    exact register_segment h
  · rename_i grant welcome h
    exact .consumed grant welcome h
  · rename_i response h
    exact .finished response h

end ClaimCall

/-! ## Claims in any order -/

/-- A server with the claims it has taken. -/
structure Claims extends Server where
  calls : List ClaimCall := []

namespace Claims

inductive Event where
  | start (req : ClaimRequest) (did : String) (w : ClaimWorld)
  /-- The call at `i` gets what it waits for. -/
  | resume (i : Nat)

def resumed (σ : Claims) (i : Nat) (s : String) (out : Vault × Leader × ClaimCall) : Claims :=
  { vault := out.1, leaders := Function.update σ.leaders s (some out.2.1), calls := σ.calls.set i out.2.2 }

def step (crates : Crates) (σ : Claims) : Event → Claims
  | .start req did w => match σ.leaders req.spaceId with
    | none => σ
    | some _ => { σ with calls := σ.calls ++ [.start σ.vault req did w] }
  | .resume i => match σ.calls[i]? with
    | none => σ
    | some c => match σ.leaders c.req.spaceId with
      | none => σ
      | some l => σ.resumed i c.req.spaceId (c.advance crates σ.vault l)

def holding (σ : Claims) (tokenId : String) : Nat :=
  σ.calls.countP fun c => c.req.token = tokenId && !c.retry && c.phase.underway

def counted (σ : Claims) (tokenId : String) : Nat :=
  σ.calls.countP fun c => c.req.token = tokenId && !c.retry && c.phase.claimed

/-- The DIDs that became members and were answered `InviteClaimed` through the token. -/
def admitted (σ : Claims) (tokenId : String) : Finset String :=
  ((σ.calls.filter fun c => c.req.token = tokenId && c.newMember && c.phase.claimed).map (·.did)).toFinset

/-- The uses of a token and their limit, as the leader of the space counts them. -/
def uses (σ : Server) (spaceId tokenId : String) : Option (Nat × Nat) :=
  (σ.leaders spaceId).bind fun l =>
    (Keyed.get (·.id) (loadToken 0 σ.vault l.inviteTokens tokenId) tokenId).map fun t => (t.currentUses, t.maxUses)

/-! ### Tokens -/

theorem get_loadToken (now : Nat) (v : Vault) (tokens : List LocalInviteToken) (id id' : String) :
    Keyed.get (·.id) (loadToken now v tokens id) id' =
      if id' = id then (Keyed.get (·.id) tokens id).or ((v.inviteTokens.get id).map (.ofRow now))
      else Keyed.get (·.id) tokens id' := by
  unfold loadToken
  split
  · rename_i h
    split
    · rename_i hid
      subst hid
      obtain ⟨t, ht⟩ : ∃ t, Keyed.get (·.id) tokens id' = some t := by
        cases hg : Keyed.get (·.id) tokens id' with
        | some t => exact ⟨t, rfl⟩
        | none =>
          obtain ⟨t, hm, hid⟩ := List.any_eq_true.1 h
          exact absurd (by simpa using hid) (Keyed.get_eq_none.1 hg t hm)
      rw [ht]
      rfl
    · rfl
  · cases hrow : v.inviteTokens.get id with
    | none => simp +contextual [loadInviteTokenById, hrow]
    | some row =>
      have hrid : row.id = id := Keyed.get_key hrow
      simp only [loadInviteTokenById, hrow, Option.map_some, Option.toList_some, Keyed.get, List.find?_append]
      by_cases hid : id' = id
      · subst hid
        simp [LocalInviteToken.ofRow, hrid]
      · have hne : ¬ id = id' := Ne.symm hid
        simp [LocalInviteToken.ofRow, hrid, hid, hne]

theorem uses_eq {σ : Server} {spaceId tokenId : String} {l : Leader} (hl : σ.leaders spaceId = some l) (now : Nat) :
    uses σ spaceId tokenId =
      (Keyed.get (·.id) (loadToken now σ.vault l.inviteTokens tokenId) tokenId).map fun t => (t.currentUses, t.maxUses) := by
  rw [uses, hl, Option.bind_some, get_loadToken, get_loadToken, if_pos rfl, if_pos rfl]
  cases Keyed.get (·.id) l.inviteTokens tokenId with
  | some t => rfl
  | none => cases σ.vault.inviteTokens.get tokenId <;> rfl

theorem uses_congr {σ σ' : Server} {spaceId tokenId : String} {l l' : Leader} (hl : σ.leaders spaceId = some l)
    (hl' : σ'.leaders spaceId = some l')
    (htokens : Keyed.get (·.id) l'.inviteTokens tokenId = Keyed.get (·.id) l.inviteTokens tokenId)
    (hrow : σ'.vault.inviteTokens.get tokenId = σ.vault.inviteTokens.get tokenId) :
    uses σ' spaceId tokenId = uses σ spaceId tokenId := by
  rw [uses_eq hl 0, uses_eq hl' 0, get_loadToken, get_loadToken, htokens, hrow]

theorem get_consumeInvite (v : Vault) (tokens : List LocalInviteToken) (id id' : String) (stored : Bool) :
    Keyed.get (·.id) (consumeInvite v tokens id stored).2 id' =
      if id' = id then (Keyed.get (·.id) tokens id).map fun t => { t with currentUses := t.currentUses + 1 }
      else Keyed.get (·.id) tokens id' := by
  unfold consumeInvite
  split
  · rename_i h
    split
    · rename_i hid
      rw [hid, h, Option.map_none]
    · rfl
  · exact get_countUse id id' tokens

theorem row_consumeInvite {v : Vault} {tokens : List LocalInviteToken} {id id' : String} {stored : Bool} (h : id' ≠ id) :
    (consumeInvite v tokens id stored).1.inviteTokens.get id' = v.inviteTokens.get id' := by
  unfold consumeInvite
  split
  · rfl
  · cases stored with
    | false => rfl
    | true => simp [updateTokenUsage, InviteTable.get_setUses, h]

/-! ### The invariant -/

/-- Claims of the token come to the leader of the space. One validates only while the uses counted and the claims
holding one are fewer than the limit, and one that asks for no token adds no member. -/
def Within (spaceId tokenId : String) (σ : Claims) : Event → Prop
  | .start req _ _ => req.token = tokenId → req.spaceId = spaceId
  | .resume i => ∀ c, σ.calls[i]? = some c → c.req.token = tokenId →
      (c.phase = .validating → ∀ l token, σ.leaders spaceId = some l →
        Keyed.get (·.id) (loadToken c.w.now σ.vault l.inviteTokens tokenId) tokenId = some token →
        token.canClaim c.did c.w.now = true → token.currentUses + σ.holding tokenId < token.maxUses) ∧
      (c.retry = true → c.phase.registers = true → σ.vault.isActiveSpaceMember spaceId c.did = true)

/-- The leader has counted each use, and those counted and held stay within the limit. -/
structure Inv (spaceId tokenId : String) (before limit : Nat) (σ : Claims) : Prop where
  uses : uses σ.toServer spaceId tokenId = some (before + σ.counted tokenId, limit)
  bound : σ.counted tokenId + σ.holding tokenId = 0 ∨ before + σ.counted tokenId + σ.holding tokenId ≤ limit
  space : ∀ c ∈ σ.calls, c.req.token = tokenId → c.req.spaceId = spaceId
  first : ∀ c ∈ σ.calls, (c.phase = .validating → c.retry = false) ∧
    ∀ grant welcome, c.phase = .consuming grant welcome → c.retry = false
  loaded : ∀ c ∈ σ.calls, c.req.token = tokenId → c.retry = false → c.phase.underway = true →
    ∃ l token, σ.leaders spaceId = some l ∧ Keyed.get (·.id) l.inviteTokens tokenId = some token
  newMembers : ∀ c ∈ σ.calls, c.req.token = tokenId → c.newMember = true → c.retry = false

variable {crates : Crates} {spaceId tokenId : String} {before limit : Nat} {σ : Claims}

theorem inv_start {σ : Server} (h : Claims.uses σ spaceId tokenId = some (before, limit)) :
    Inv spaceId tokenId before limit { toServer := σ } := by
  constructor <;> simp [h, counted, holding]

theorem Inv.start (h : Inv spaceId tokenId before limit σ) {req : ClaimRequest} {did : String} {w : ClaimWorld}
    (hg : req.token = tokenId → req.spaceId = spaceId) : Inv spaceId tokenId before limit (σ.step crates (.start req did w)) := by
  dsimp only [step]
  split
  · exact h
  -- the new call holds nothing and is not answered
  have hnew : ∃ c, ClaimCall.start σ.vault req did w = c ∧ c.req = req ∧ c.newMember = false ∧ c.phase.claimed = false ∧
      (c.retry = false → c.phase = .validating) ∧ (c.retry = true → c.phase ≠ .validating ∧
        ∀ grant welcome, c.phase ≠ .consuming grant welcome) := by
    unfold ClaimCall.start
    split
    · exact ⟨_, rfl, rfl, rfl, ClaimCall.takeKeyPackage_claimed _ _, by simp,
        fun _ => ClaimCall.takeKeyPackage_not_waiting _ _⟩
    · exact ⟨_, rfl, rfl, rfl, rfl, fun _ => rfl, by simp⟩
  obtain ⟨c, hc, hreq, hmember, hclaimed, hfirst, hretry⟩ := hnew
  rw [hc]
  have hunderway : c.retry = false → c.phase.underway = false := fun hr => by rw [hfirst hr]; rfl
  have hcounted : ({ σ with calls := σ.calls ++ [c] } : Claims).counted tokenId = σ.counted tokenId := by
    simp [counted, hclaimed]
  have hholding : ({ σ with calls := σ.calls ++ [c] } : Claims).holding tokenId = σ.holding tokenId := by
    cases hr : c.retry with
    | true => simp [holding, hr]
    | false => simp [holding, hunderway hr]
  refine ⟨?_, ?_, ?_, ?_, ?_, ?_⟩
  · rw [hcounted]
    exact h.uses
  · rw [hcounted, hholding]
    exact h.bound
  all_goals
    intro c' hc'
    rcases List.mem_append.1 hc' with hc' | hc'
  · exact h.space c' hc'
  · obtain rfl := List.mem_singleton.1 hc'
    rw [hreq]
    exact hg
  · exact h.first c' hc'
  · obtain rfl := List.mem_singleton.1 hc'
    cases hr : c'.retry with
    | false => simp
    | true => exact ⟨fun he => absurd he (hretry hr).1, fun _ _ he => absurd he ((hretry hr).2 _ _)⟩
  · exact h.loaded c' hc'
  · obtain rfl := List.mem_singleton.1 hc'
    intro _ hr hu
    rw [hunderway hr] at hu
    cases hu
  · exact h.newMembers c' hc'
  · obtain rfl := List.mem_singleton.1 hc'
    intro _ hm
    rw [hmember] at hm
    cases hm

theorem countP_set_add {p : ClaimCall → Bool} {calls : List ClaimCall} {i : Nat} {c : ClaimCall} (h : calls[i]? = some c)
    (c' : ClaimCall) : (calls.set i c').countP p + (p c).toNat = calls.countP p + (p c').toNat := by
  induction calls generalizing i with
  | nil => simp at h
  | cons d calls ih =>
    cases i with
    | zero =>
      obtain rfl : d = c := by simpa using h
      cases hd : p d <;> cases hc : p c' <;> simp [hd, hc]
    | succ i =>
      have := ih (i := i) (by simpa using h)
      simp only [List.set_cons_succ, List.countP_cons]
      omega

section Resumed
variable {i : Nat} {c c' : ClaimCall} {v' : Vault} {l l' : Leader}

theorem counted_resumed (tokenId : String) (hc : σ.calls[i]? = some c) (hreq : c'.req = c.req) (hretry : c'.retry = c.retry)
    (s : String) (v' : Vault) (l' : Leader) :
    (σ.resumed i s (v', l', c')).counted tokenId + (c.req.token = tokenId && !c.retry && c.phase.claimed : Bool).toNat =
      σ.counted tokenId + (c.req.token = tokenId && !c.retry && c'.phase.claimed : Bool).toNat := by
  have := countP_set_add (p := fun c => c.req.token = tokenId && !c.retry && c.phase.claimed) hc c'
  simp only [hreq, hretry] at this
  exact this

theorem holding_resumed (tokenId : String) (hc : σ.calls[i]? = some c) (hreq : c'.req = c.req) (hretry : c'.retry = c.retry)
    (s : String) (v' : Vault) (l' : Leader) :
    (σ.resumed i s (v', l', c')).holding tokenId + (c.req.token = tokenId && !c.retry && c.phase.underway : Bool).toNat =
      σ.holding tokenId + (c.req.token = tokenId && !c.retry && c'.phase.underway : Bool).toNat := by
  have := countP_set_add (p := fun c => c.req.token = tokenId && !c.retry && c.phase.underway) hc c'
  simp only [hreq, hretry] at this
  exact this

theorem mem_calls_resumed {s : String} {d : ClaimCall} (hd : d ∈ (σ.resumed i s (v', l', c')).calls) : d ∈ σ.calls ∨ d = c' :=
  List.mem_or_eq_of_mem_set hd

theorem segment_keeps_token {v : Vault} (hseg : ClaimCall.Segment v l c (v', l', c')) {token : LocalInviteToken}
    (h : Keyed.get (·.id) l.inviteTokens tokenId = some token) : ∃ token', Keyed.get (·.id) l'.inviteTokens tokenId = some token' := by
  cases hseg with
  | validated =>
    by_cases hid : tokenId = c.req.token
    · subst hid
      exact ⟨token, by simp [get_loadToken, h]⟩
    · exact ⟨token, by simp [get_loadToken, hid, h]⟩
  | worked _ _ _ _ _ _ htokens => exact ⟨token, by rw [htokens, h]⟩
  | consumed =>
    by_cases hid : tokenId = c.req.token
    · subst hid
      exact ⟨_, by rw [get_consumeInvite, if_pos rfl, h, Option.map_some]⟩
    · exact ⟨token, by simp [get_consumeInvite, hid, h]⟩
  | finished => exact ⟨token, h⟩

theorem segment_other {v : Vault} (hseg : ClaimCall.Segment v l c (v', l', c')) (hne : c.req.token ≠ tokenId) :
    Keyed.get (·.id) l'.inviteTokens tokenId = Keyed.get (·.id) l.inviteTokens tokenId ∧
      v'.inviteTokens.get tokenId = v.inviteTokens.get tokenId := by
  have hid : ¬ tokenId = c.req.token := Ne.symm hne
  cases hseg with
  | validated => exact ⟨by simp [get_loadToken, hid], rfl⟩
  | worked _ _ _ _ _ hrows htokens => exact ⟨by rw [htokens], by rw [hrows]⟩
  | consumed => exact ⟨by simp [get_consumeInvite, hid], row_consumeInvite hid⟩
  | finished => exact ⟨rfl, rfl⟩

theorem segment_call {v : Vault} (hseg : ClaimCall.Segment v l c (v', l', c'))
    (hfirst : (c.phase = .validating → c.retry = false) ∧ ∀ grant welcome, c.phase = .consuming grant welcome → c.retry = false) :
    c'.req = c.req ∧ c'.did = c.did ∧ c'.retry = c.retry ∧ (c'.phase = .validating → c'.retry = false) ∧
      ∀ grant welcome, c'.phase = .consuming grant welcome → c'.retry = false := by
  cases hseg with
  | validated phase _ _ hv hcons => exact ⟨rfl, rfl, rfl, fun h => absurd h hv, fun g w h => absurd h (hcons g w)⟩
  | worked v' l' phase newMember _ _ _ hv hcons => exact ⟨rfl, rfl, rfl, fun h => absurd h hv, hcons⟩
  | consumed => exact ⟨rfl, rfl, rfl, by simp, by simp⟩
  | finished => exact ⟨rfl, rfl, rfl, hfirst⟩

theorem Inv.resumed (h : Inv spaceId tokenId before limit σ) (hc : σ.calls[i]? = some c) (hl : σ.leaders c.req.spaceId = some l)
    (hseg : ClaimCall.Segment σ.vault l c (v', l', c'))
    (huses : Claims.uses (σ.resumed i c.req.spaceId (v', l', c')).toServer spaceId tokenId =
      some (before + (σ.resumed i c.req.spaceId (v', l', c')).counted tokenId, limit))
    (hbound : (σ.resumed i c.req.spaceId (v', l', c')).counted tokenId + (σ.resumed i c.req.spaceId (v', l', c')).holding tokenId = 0 ∨
      before + (σ.resumed i c.req.spaceId (v', l', c')).counted tokenId +
        (σ.resumed i c.req.spaceId (v', l', c')).holding tokenId ≤ limit)
    (hloaded : c.req.token = tokenId → c'.retry = false → c'.phase.underway = true →
      ∃ token, Keyed.get (·.id) l'.inviteTokens tokenId = some token)
    (hmember : c.req.token = tokenId → c'.newMember = true → c'.retry = false) :
    Inv spaceId tokenId before limit (σ.resumed i c.req.spaceId (v', l', c')) := by
  have hmem : c ∈ σ.calls := List.mem_of_getElem? hc
  obtain ⟨hreq, -, -, hfirst⟩ := segment_call hseg (h.first c hmem)
  refine ⟨huses, hbound, ?_, ?_, ?_, ?_⟩
  · intro d hd htoken
    rcases mem_calls_resumed hd with hd | rfl
    · exact h.space d hd htoken
    · rw [hreq] at htoken ⊢
      exact h.space c hmem htoken
  · intro d hd
    rcases mem_calls_resumed hd with hd | rfl
    · exact h.first d hd
    · exact hfirst
  · intro d hd htoken hretry hu
    rcases mem_calls_resumed hd with hd | rfl
    · obtain ⟨l₀, token, hl₀, htok⟩ := h.loaded d hd htoken hretry hu
      by_cases hs : c.req.spaceId = spaceId
      · obtain rfl : l = l₀ := Option.some.inj ((hs ▸ hl).symm.trans hl₀)
        obtain ⟨token', htok'⟩ := segment_keeps_token hseg htok
        exact ⟨l', token', by rw [← hs]; exact Function.update_self _ _ _, htok'⟩
      · exact ⟨l₀, token, (Function.update_of_ne (Ne.symm hs) _ _).trans hl₀, htok⟩
    · rw [hreq] at htoken
      obtain ⟨token, htok⟩ := hloaded htoken hretry hu
      exact ⟨l', token, by rw [← h.space c hmem htoken]; exact Function.update_self _ _ _, htok⟩
  · intro d hd htoken hm
    rcases mem_calls_resumed hd with hd | rfl
    · exact h.newMembers d hd htoken hm
    · rw [hreq] at htoken
      exact hmember htoken hm

end Resumed

theorem Inv.resumed_other (h : Inv spaceId tokenId before limit σ) {i : Nat} {c c' : ClaimCall} {v' : Vault} {l l' : Leader}
    (hc : σ.calls[i]? = some c) (hl : σ.leaders c.req.spaceId = some l) (hseg : ClaimCall.Segment σ.vault l c (v', l', c'))
    (hne : c.req.token ≠ tokenId) : Inv spaceId tokenId before limit (σ.resumed i c.req.spaceId (v', l', c')) := by
  obtain ⟨hreq, -, hretry, -⟩ := segment_call hseg (h.first c (List.mem_of_getElem? hc))
  have hcounted : (σ.resumed i c.req.spaceId (v', l', c')).counted tokenId = σ.counted tokenId := by
    simpa [hne] using counted_resumed tokenId hc hreq hretry c.req.spaceId v' l'
  have hholding : (σ.resumed i c.req.spaceId (v', l', c')).holding tokenId = σ.holding tokenId := by
    simpa [hne] using holding_resumed tokenId hc hreq hretry c.req.spaceId v' l'
  obtain ⟨htokens, hrow⟩ := segment_other hseg hne
  refine h.resumed hc hl hseg ?_ ?_ (fun e => absurd e hne) (fun e => absurd e hne)
  · rw [hcounted, ← h.uses]
    by_cases hs : c.req.spaceId = spaceId
    · exact uses_congr (hs ▸ hl) (by rw [← hs]; exact Function.update_self _ _ _) htokens hrow
    · obtain ⟨l₀, hl₀⟩ : ∃ l₀, σ.leaders spaceId = some l₀ := by
        cases hl₀ : σ.leaders spaceId with
        | some l₀ => exact ⟨l₀, rfl⟩
        | none =>
          have huses := h.uses
          simp [Claims.uses, hl₀] at huses
      exact uses_congr hl₀ ((Function.update_of_ne (Ne.symm hs) _ _).trans hl₀) rfl hrow
  · rw [hcounted, hholding]
    exact h.bound

/-- A segment of a claim with the token: the uses stay, and the claim comes to hold one only below the limit, or the use
it holds is counted. -/
theorem segment_own (h : Inv spaceId tokenId before limit σ) {i : Nat} {c c' : ClaimCall} {v' : Vault} {l l' : Leader}
    (hc : σ.calls[i]? = some c) (hl : σ.leaders spaceId = some l) (hseg : ClaimCall.Segment σ.vault l c (v', l', c'))
    (htoken : c.req.token = tokenId) (hg : Within spaceId tokenId σ (.resume i)) (σ' : Server) (hvault : σ'.vault = v')
    (hl' : σ'.leaders spaceId = some l') :
    (Claims.uses σ' spaceId tokenId = Claims.uses σ.toServer spaceId tokenId ∧
        (!c.retry && c'.phase.claimed) = (!c.retry && c.phase.claimed) ∧
        ((!c.retry && c'.phase.underway) = true →
          (!c.retry && c.phase.underway) = true ∨ before + σ.counted tokenId + σ.holding tokenId < limit)) ∨
      (Claims.uses σ' spaceId tokenId = some (before + σ.counted tokenId + 1, limit) ∧
        (!c.retry && c.phase.claimed) = false ∧ (!c.retry && c.phase.underway) = true ∧
        (!c.retry && c'.phase.claimed) = true ∧ (!c.retry && c'.phase.underway) = false) := by
  have hmem : c ∈ σ.calls := List.mem_of_getElem? hc
  have huses := h.uses
  cases hseg with
  | validated phase hphase hclaimed _ _ htok =>
    refine .inl ⟨?_, ?_, fun hu => .inr ?_⟩
    · rw [uses_eq hl c.w.now, uses_eq hl' c.w.now, hvault, htoken]
      simp only [get_loadToken, if_true]
      cases Keyed.get (·.id) l.inviteTokens tokenId with
      | some t => rfl
      | none => cases σ.vault.inviteTokens.get tokenId <;> rfl
    · rw [hclaimed, hphase]
      rfl
    · obtain ⟨-, hu⟩ : c.retry = false ∧ phase.underway = true := by simpa using hu
      obtain ⟨token, hget, hclaim⟩ := htok hu
      rw [htoken] at hget
      have hlt := (hg c hc htoken).1 hphase l token hl hget hclaim
      rw [uses_eq hl c.w.now, hget] at huses
      obtain ⟨hcur, hmax⟩ : token.currentUses = before + σ.counted tokenId ∧ token.maxUses = limit := by simpa using huses
      omega
  | worked _ _ phase newMember hunderway hrows htokens _ _ hclaimed =>
    have hbefore : c.phase.claimed = false := by
      cases hphase : c.phase with
      | done => rw [hphase] at hunderway; cases hunderway
      | _ => rfl
    refine .inl ⟨uses_congr hl hl' (by rw [htokens]) (by rw [hvault, hrows]), ?_, fun hu => .inl ?_⟩
    · rw [hbefore]
      cases hr : c.retry with
      | true => rfl
      | false =>
        cases hp : phase.claimed with
        | false => rfl
        | true =>
          rw [hclaimed hp] at hr
          cases hr
    · simp only [Bool.and_eq_true] at hu ⊢
      exact ⟨hu.1, hunderway⟩
  | consumed grant welcome hphase =>
    have hretry : c.retry = false := (h.first c hmem).2 grant welcome hphase
    have hunderway : c.phase.underway = true := by rw [hphase]; rfl
    obtain ⟨l₀, token, hl₀, hget⟩ := h.loaded c hmem htoken hretry hunderway
    obtain rfl : l = l₀ := Option.some.inj (hl.symm.trans hl₀)
    rw [uses_eq hl 0, get_loadToken, if_pos rfl, hget] at huses
    obtain ⟨hcur, hmax⟩ : token.currentUses = before + σ.counted tokenId ∧ token.maxUses = limit := by simpa using huses
    refine .inr ⟨?_, ?_, ?_, ?_, ?_⟩
    · rw [uses_eq hl' 0, get_loadToken, if_pos rfl, htoken, get_consumeInvite, if_pos rfl, hget]
      simp [hcur, hmax]
    · rw [hretry, hphase]; rfl
    · rw [hretry, hunderway]; rfl
    · rw [hretry]; rfl
    · rw [hretry]; rfl
  | finished => exact .inl ⟨uses_congr hl hl' rfl (by rw [hvault]), rfl, .inl⟩

/-- A claim with the token goes on. -/
theorem Inv.resumed_own (h : Inv spaceId tokenId before limit σ) {i : Nat} {c c' : ClaimCall} {v' : Vault} {l l' : Leader}
    (hc : σ.calls[i]? = some c) (hl : σ.leaders c.req.spaceId = some l) (hseg : ClaimCall.Segment σ.vault l c (v', l', c'))
    (htoken : c.req.token = tokenId) (hg : Within spaceId tokenId σ (.resume i)) :
    Inv spaceId tokenId before limit (σ.resumed i c.req.spaceId (v', l', c')) := by
  have hmem : c ∈ σ.calls := List.mem_of_getElem? hc
  have hs : c.req.spaceId = spaceId := h.space c hmem htoken
  obtain ⟨hreq, -, hretry, -⟩ := segment_call hseg (h.first c hmem)
  have hcounted := counted_resumed tokenId hc hreq hretry c.req.spaceId v' l'
  have hholding := holding_resumed tokenId hc hreq hretry c.req.spaceId v' l'
  have hown := segment_own h hc (hs ▸ hl) hseg htoken hg (σ.resumed i c.req.spaceId (v', l', c')).toServer rfl
    (by rw [← hs]; exact Function.update_self _ _ _)
  simp only [htoken, decide_true, Bool.true_and] at hcounted hholding
  refine h.resumed hc hl hseg ?_ ?_ ?_ ?_
  · rcases hown with ⟨huses, hclaimed, -⟩ | ⟨huses, hno, -, hyes, -⟩
    · rw [hclaimed, Nat.add_right_cancel_iff] at hcounted
      rw [huses, h.uses, hcounted]
    · rw [hno, hyes, Bool.toNat_false, Bool.toNat_true, Nat.add_zero] at hcounted
      rw [huses, hcounted, Nat.add_assoc]
  · have hbound := h.bound
    rcases hown with ⟨-, hclaimed, hheld⟩ | ⟨-, hno, hheld, hyes, hleft⟩
    · rw [hclaimed, Nat.add_right_cancel_iff] at hcounted
      generalize (!c.retry && c.phase.underway) = a at hholding hheld
      generalize (!c.retry && c'.phase.underway) = b at hholding hheld
      cases a <;> cases b <;> simp only [Bool.toNat_true, Bool.toNat_false, Nat.add_zero] at hholding
      · omega
      · have hlt := (hheld rfl).resolve_left (by simp)
        omega
      · omega
      · omega
    · rw [hno, hyes, Bool.toNat_false, Bool.toNat_true, Nat.add_zero] at hcounted
      rw [hheld, hleft, Bool.toNat_false, Bool.toNat_true, Nat.add_zero] at hholding
      omega
  · intro _ hr hu
    by_cases hbefore : c.phase.underway = true
    · obtain ⟨l₀, token, hl₀, hget⟩ := h.loaded c hmem htoken (hretry ▸ hr) hbefore
      obtain rfl : l = l₀ := Option.some.inj ((hs ▸ hl).symm.trans hl₀)
      exact segment_keeps_token hseg hget
    · cases hseg with
      | validated _ _ _ _ _ htok =>
        obtain ⟨token, hget, -⟩ := htok hu
        rw [htoken] at hget
        exact ⟨token, by rw [htoken]; exact hget⟩
      | worked _ _ _ _ hunderway => exact absurd hunderway hbefore
      | consumed => cases hu
      | finished => exact absurd hu hbefore
  · intro _ hm
    cases hseg with
    | validated | consumed | finished => exact h.newMembers c hmem htoken hm
    | worked _ _ _ _ _ _ _ _ _ _ hnew =>
      rcases hnew hm with hm | ⟨hregisters, hno⟩
      · exact h.newMembers c hmem htoken hm
      · by_contra hr
        have hyes := (hg c hc htoken).2 (by simpa using hr) hregisters
        rw [← hs, hno] at hyes
        cases hyes

theorem Inv.step (h : Inv spaceId tokenId before limit σ) {e : Event} (hg : Within spaceId tokenId σ e) :
    Inv spaceId tokenId before limit (σ.step crates e) := by
  cases e with
  | start req did w => exact h.start hg
  | resume i =>
    dsimp only [Claims.step]
    split
    · exact h
    · rename_i c hc
      split
      · exact h
      · rename_i l hl
        have hseg : ClaimCall.Segment σ.vault l c (c.advance crates σ.vault l) := ClaimCall.advance_segment
        generalize c.advance crates σ.vault l = out at hseg ⊢
        obtain ⟨v', l', c'⟩ := out
        by_cases htoken : c.req.token = tokenId
        · exact h.resumed_own hc hl hseg htoken hg
        · exact h.resumed_other hc hl hseg htoken

theorem Inv.admitted_le (h : Inv spaceId tokenId before limit σ) : (σ.admitted tokenId).card ≤ limit := by
  have hsub : ∀ c ∈ σ.calls, (c.req.token = tokenId && c.newMember && c.phase.claimed) = true →
      (c.req.token = tokenId && !c.retry && c.phase.claimed) = true := by
    intro c hc hadmitted
    simp only [Bool.and_eq_true, decide_eq_true_eq, Bool.not_eq_true'] at hadmitted ⊢
    exact ⟨⟨hadmitted.1.1, h.newMembers c hc hadmitted.1.1 hadmitted.1.2⟩, hadmitted.2⟩
  calc (σ.admitted tokenId).card
    _ ≤ (σ.calls.filter fun c => c.req.token = tokenId && c.newMember && c.phase.claimed).length := by
      rw [← List.length_map (f := (·.did))]
      exact List.toFinset_card_le _
    _ = σ.calls.countP fun c => c.req.token = tokenId && c.newMember && c.phase.claimed := List.countP_eq_length_filter.symm
    _ ≤ σ.counted tokenId := List.countP_mono_left hsub
    _ ≤ limit := by have := h.bound; omega

/-- Claims that run in any order, each validating only while the uses counted and held are below the limit, let in at
most as many as the token has uses. -/
theorem invite_admits_at_most (crates : Crates) {σ : Server} {spaceId tokenId : String} {before limit : Nat}
    (huses : Claims.uses σ spaceId tokenId = some (before, limit)) {es : List Event}
    (hg : Guarded (Claims.step crates) (Within spaceId tokenId) { toServer := σ } es) :
    ((run (Claims.step crates) { toServer := σ } es).admitted tokenId).card ≤ limit :=
  (hg.inv (fun _ _ h hg => h.step hg) (inv_start huses)).admitted_le

/-! ## Two claims of one invite -/

def inviteServer : Server := (⟨sessionVault, fun _ => none⟩ : Server).startLeader "s" 0 true

/-- The claim of `t1` by one of the two. -/
def claims (name : String) : Event :=
  .start ⟨"s", "t1", "ep-" ++ name⟩ ("did:key:" ++ name)
    { sampleWorld.toClaimWorld with identityUuid := "i-" ++ name, memberUuid := "m-" ++ name }

theorem inviteServer_uses : Claims.uses inviteServer "s" "t1" = some (0, 1) := by decide

/-- Ann claims, then Ben: the invite lets Ann in. -/
theorem invite_admits_at_most_inTurn :
    ((run (Claims.step sampleCrates) { toServer := inviteServer }
      [claims "ann", .resume 0, .resume 0, .resume 0, .resume 0, .resume 0, claims "ben", .resume 1]).admitted "t1").card ≤ 1 ∧
      (run (Claims.step sampleCrates) { toServer := inviteServer }
        [claims "ann", .resume 0, .resume 0, .resume 0, .resume 0, .resume 0, claims "ben", .resume 1]).admitted "t1" =
          {"did:key:ann"} := by
  refine ⟨invite_admits_at_most _ inviteServer_uses
    ⟨fun _ => rfl, ?_, ?_, ?_, ?_, ?_, fun _ => rfl, ?_, trivial⟩, by decide⟩
  · intro c hc _
    obtain rfl := Option.some.inj hc
    refine ⟨fun _ l token hl hget _ => ?_, fun hretry => absurd hretry (by decide)⟩
    obtain rfl := Option.some.inj hl
    obtain rfl := Option.some.inj hget
    decide
  iterate 4
    intro c hc _
    obtain rfl := Option.some.inj hc
    exact ⟨fun hphase => absurd hphase (by decide), fun hretry => absurd hretry (by decide)⟩
  · intro c hc _
    obtain rfl := Option.some.inj hc
    -- the one use is counted, so Ben may not claim
    refine ⟨fun _ l token hl hget hclaim => absurd hclaim ?_, fun hretry => absurd hretry (by decide)⟩
    obtain rfl := Option.some.inj hl
    obtain rfl := Option.some.inj hget
    decide

/-- Ann and Ben claim at once: both validate before either is counted. -/
theorem invite_for_one_admits_two :
    Claims.uses inviteServer "s" "t1" = some (0, 1) ∧
      ¬ ((run (Claims.step sampleCrates) { toServer := inviteServer }
        [claims "ann", claims "ben", .resume 0, .resume 1, .resume 0, .resume 0, .resume 0, .resume 0, .resume 1, .resume 1,
          .resume 1, .resume 1]).admitted "t1").card ≤ 1 := by
  decide

end Claims

end HaexVault.Space
