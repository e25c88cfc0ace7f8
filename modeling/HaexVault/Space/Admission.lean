import HaexVault.Space.Sessions
/-!
# Admissions

`admissions_backed`: each `InviteClaimed` is backed by a stored token with uses left, or by an
earlier claim with no removal since. A token in a leader's memory stands for a row, and agrees with
it if the row is of the leader's space (`TokensMatch`); who is a member now was one before the
history, or has a claim standing (`StandingClaim`).
-/

namespace HaexVault.Space

open HaexVault.Crdt HaexVault.Lib HaexVault.Lib.Runs HaexVault.Lib.Steps

/-! ## What backs an admission -/

/-- The claim is answered with `InviteClaimed`. -/
def Claimed (crates : Crates) (σ : Server) (conn : Connection) (w : World) (claim : ClaimRequest) : Prop :=
  ∃ welcome ucan capability, (σ.handleStream crates w conn (.claimInvite claim)).1 = .inviteClaimed welcome ucan capability

/-- The stored token of that id is for the space, unexpired, has uses left, and is for anyone or for the DID. -/
def BackedByInvite (σ : Server) (now : Nat) (did : String) (claim : ClaimRequest) : Prop :=
  ∃ row, σ.vault.inviteTokens.get claim.token = some row ∧ row.spaceId = claim.spaceId ∧
    (∃ expiresAt, row.expiresAt = some expiresAt ∧ now < expiresAt) ∧ row.currentUses < row.maxUses ∧
    (row.targetDid = none ∨ row.targetDid = some did)

/-- The history holds a claim of the DID for the space that went through, and no removal after it. -/
def StandingClaim (crates : Crates) (v : Vault) (es : List Event) (s d : String) : Prop :=
  ∃ pre conn w claim post, es = pre ++ .request conn w (.claimInvite claim) :: post ∧ claim.spaceId = s ∧ conn.did = d ∧
    Claimed crates (run (Server.step crates) ⟨v, fun _ => none⟩ pre) conn w claim ∧
    ∀ deleteUcans, Event.removeMember s d deleteUcans ∉ post

/-- What the events of a history meet: invites, claims and removals alone change what a claim reads, the ids are
fresh, and each claim stays in its own space. A retry is one of a member that was none in `v`, the vault the history
began with; a token that can be claimed stands for a row of the space, with an expiry and a count that can be read. -/
def Bound (v : Vault) (σ : Server) : Event → Prop
  | .request conn w (.claimInvite claim) =>
    (∀ m ∈ σ.vault.memberRows, m "identity_id" ≠ .text w.identityUuid) ∧
      (if isRetry σ.vault claim conn.did then
        σ.vault.isActiveSpaceMember claim.spaceId conn.did = true ∧ v.isActiveSpaceMember claim.spaceId conn.did = false
      else ∀ l token, σ.leaders claim.spaceId = some l →
        Keyed.get (·.id) (claimTokens w.toClaimWorld σ.vault l claim conn.did) claim.token = some token →
        token.canClaim conn.did w.now = true → ∀ row, σ.vault.inviteTokens.get claim.token = some row →
        row.spaceId = claim.spaceId ∧ row.expiresAt.isSome = true ∧ row.currentUses < 2 ^ 32)
  | .createInvite _ inv => σ.vault.inviteTokens.get inv.id = none
  | .request _ _ (.syncPush _ _) | .edit _ => False
  | _ => True

theorem StandingClaim.snoc {crates : Crates} {v : Vault} {es : List Event} {s d : String} (h : StandingClaim crates v es s d)
    {ev : Event} (hev : ∀ deleteUcans, ev ≠ .removeMember s d deleteUcans) : StandingClaim crates v (es ++ [ev]) s d := by
  obtain ⟨pre, conn, w, claim, post, rfl, hs, hd, hclaimed, hpost⟩ := h
  refine ⟨pre, conn, w, claim, post ++ [ev], by simp, hs, hd, hclaimed, fun deleteUcans hm => ?_⟩
  rcases List.mem_append.1 hm with hm | hm
  · exact hpost deleteUcans hm
  · exact hev deleteUcans (List.mem_singleton.1 hm).symm

/-! ## Tokens in memory -/

structure Matches (row : InviteRow) (t : LocalInviteToken) : Prop where
  target : t.targetDid = row.targetDid
  maxUses : t.maxUses ≤ row.maxUses
  currentUses : row.currentUses % 2 ^ 32 ≤ t.currentUses
  expiresAt : ∀ x, row.expiresAt = some x → t.expiresAt = x

theorem Matches.ofRow (now : Nat) (row : InviteRow) : Matches row (.ofRow now row) where
  target := rfl
  maxUses := Nat.mod_le _ _
  currentUses := le_rfl
  expiresAt x h := by simp [LocalInviteToken.ofRow, h]

theorem Matches.toRow (t : LocalInviteToken) : Matches t.toRow t where
  target := rfl
  maxUses := le_rfl
  currentUses := Nat.mod_le _ _
  expiresAt x h := by simpa [LocalInviteToken.toRow] using h

/-- Every token a claim for `s` can find in the list stands for a row, and agrees with it if the row is of `s`. -/
def TokensMatch (s : String) (tokens : List LocalInviteToken) (table : InviteTable) : Prop :=
  ∀ id t, Keyed.get (·.id) tokens id = some t → ∃ row, table.get id = some row ∧ (row.spaceId = s → Matches row t)

section Tokens
variable {s : String} {tokens : List LocalInviteToken} {v : Vault} {now : Nat}

theorem loadInviteTokens_match (now : Nat) (v : Vault) (s : String) :
    TokensMatch s (loadInviteTokens now v s) v.inviteTokens := by
  intro id t h
  obtain ⟨row, hrow, rfl⟩ := List.mem_map.1 (Keyed.get_mem h)
  have hm := (List.mem_filter.1 hrow).1
  have hid : (LocalInviteToken.ofRow now row).id = id := Keyed.get_key h
  obtain rfl : row.id = id := hid
  exact ⟨row, Keyed.get_of_mem v.inviteTokens.ids hm, fun _ => .ofRow now row⟩

theorem loadToken_match {id : String} (h : TokensMatch s tokens v.inviteTokens) :
    TokensMatch s (loadToken now v tokens id) v.inviteTokens := by
  unfold loadToken
  split
  · exact h
  · rename_i hnone
    intro id' t ht
    simp only [Keyed.get, List.find?_append, Option.or_eq_some_iff] at ht
    rcases ht with ht | ⟨-, ht⟩
    · exact h id' t ht
    · have hm := List.mem_of_find?_eq_some ht
      have hid : t.id = id' := by simpa using List.find?_some ht
      obtain ⟨row, hr, rfl⟩ : ∃ row, v.inviteTokens.get id = some row ∧ LocalInviteToken.ofRow now row = t := by
        simpa [loadInviteTokenById] using hm
      have hrid : row.id = id := Keyed.get_key hr
      obtain rfl : id = id' := hrid.symm.trans hid
      exact ⟨row, hr, fun _ => .ofRow now row⟩

theorem get_countUse (id id' : String) (tokens : List LocalInviteToken) :
    Keyed.get (·.id) (countUse id tokens) id' =
      if id' = id then (Keyed.get (·.id) tokens id).map fun t => { t with currentUses := t.currentUses + 1 }
      else Keyed.get (·.id) tokens id' := by
  induction tokens with
  | nil => simp [countUse, Keyed.get]
  | cons t tokens ih =>
    unfold countUse
    by_cases ht : t.id = id
    · by_cases hid : id' = id
      · subst hid; simp [Keyed.get, ht]
      · simp [Keyed.get, ht, hid, Ne.symm hid]
    · by_cases hid : id' = id
      · subst hid
        simp only [Keyed.get, ht, if_false, decide_false, List.find?_cons_of_neg, Bool.false_eq_true, not_false_eq_true,
          if_true] at ih ⊢
        exact ih
      · by_cases hne : t.id = id'
        · simp [Keyed.get, hne, hid]
        · simp only [Keyed.get, ht, hid, hne, if_false, decide_false, List.find?_cons_of_neg, Bool.false_eq_true,
            not_false_eq_true] at ih ⊢
          exact ih

theorem claimTokens_match {w : ClaimWorld} {l : Leader} {claim : ClaimRequest} {did : String}
    (h : TokensMatch s l.inviteTokens v.inviteTokens) : TokensMatch s (claimTokens w v l claim did) v.inviteTokens := by
  unfold claimTokens
  split
  · exact h
  · exact loadToken_match h

variable {table : InviteTable} {id : String}

theorem TokensMatch.countUse (h : TokensMatch s tokens table) {t : LocalInviteToken}
    (ht : Keyed.get (·.id) tokens id = some t) {table' : InviteTable}
    (htable : table' = table ∨ table' = table.setUses id (t.currentUses + 1)) :
    TokensMatch s (Space.countUse id tokens) table' := by
  intro id' t' ht'
  rw [get_countUse] at ht'
  by_cases hid : id' = id
  · subst hid
    rw [if_pos rfl, ht, Option.map_some, Option.some.injEq] at ht'
    subst ht'
    obtain ⟨row, hrow, hm⟩ := h id' t ht
    rcases htable with rfl | rfl
    · refine ⟨row, hrow, fun hs => ?_⟩
      have hm := hm hs
      exact ⟨hm.target, hm.maxUses, Nat.le_succ_of_le hm.currentUses, hm.expiresAt⟩
    · refine ⟨{ row with currentUses := t.currentUses + 1 }, ?_, fun hs => ?_⟩
      swap
      · have hm := hm hs
        exact ⟨hm.target, hm.maxUses, Nat.mod_le _ _, hm.expiresAt⟩
      rw [InviteTable.get_setUses, if_pos rfl, hrow]
      rfl
  · rw [if_neg hid] at ht'
    obtain ⟨row, hrow, hm⟩ := h id' t' ht'
    refine ⟨row, ?_, hm⟩
    rcases htable with rfl | rfl
    · exact hrow
    · rw [InviteTable.get_setUses, if_neg hid, hrow]

theorem TokensMatch.setUses (h : TokensMatch s tokens table) {row : InviteRow} (hrow : table.get id = some row)
    (hs : row.spaceId ≠ s) (currentUses : Nat) : TokensMatch s tokens (table.setUses id currentUses) := by
  intro id' t ht
  obtain ⟨row', hrow', hm⟩ := h id' t ht
  rw [InviteTable.get_setUses]
  by_cases hid : id' = id
  · exact ⟨{ row with currentUses }, by rw [if_pos hid, hrow]; rfl, fun he => absurd he hs⟩
  · exact ⟨row', by rw [if_neg hid, hrow'], hm⟩

theorem TokensMatch.insert (h : TokensMatch s tokens table) {row : InviteRow} (hnew : table.get row.id = none) :
    TokensMatch s tokens (table.insertOrReplace row) := by
  intro id' t ht
  obtain ⟨row', hrow', hm⟩ := h id' t ht
  refine ⟨row', ?_, hm⟩
  have hid : id' ≠ row.id := by
    rintro rfl
    cases hnew.symm.trans hrow'
  rw [InviteTable.get_insertOrReplace, if_neg hid, hrow']

theorem TokensMatch.create {token : LocalInviteToken} (h : TokensMatch token.spaceId tokens table)
    (hnew : table.get token.id = none) :
    TokensMatch token.spaceId (tokens ++ [token]) (table.insertOrReplace token.toRow) := by
  intro id' t ht
  simp only [Keyed.get, List.find?_append, Option.or_eq_some_iff] at ht
  rcases ht with ht | ⟨-, ht⟩
  · exact h.insert hnew id' t ht
  · obtain rfl : t = token := List.mem_singleton.1 (List.mem_of_find?_eq_some ht)
    obtain rfl : t.id = id' := by simpa using List.find?_some ht
    refine ⟨t.toRow, ?_, fun _ => .toRow t⟩
    rw [InviteTable.get_insertOrReplace]
    exact if_pos rfl

theorem TokensMatch.revoke (h : TokensMatch s tokens table) : TokensMatch s (tokens.filter fun t => t.id ≠ id) table := by
  intro id' t ht
  refine h id' t ?_
  by_cases hid : id' = id
  · subst hid
    have hm := List.mem_filter.1 (Keyed.get_mem ht)
    exact absurd (Keyed.get_key ht) (by simpa using hm.2)
  · rw [← ht, Keyed.get, Keyed.get, List.find?_filter]
    congr 1
    funext t
    by_cases ht : t.id = id'
    · simp [ht, hid]
    · simp [ht]

end Tokens

/-! ## Every step keeps memory and vault in agreement -/

def LeadersMatch (σ : Server) : Prop :=
  ∀ s l, σ.leaders s = some l → TokensMatch s l.inviteTokens σ.vault.inviteTokens

theorem LeadersMatch.update {σ : Server} {v' : Vault} {spaceId : String} {l' : Leader}
    (hself : TokensMatch spaceId l'.inviteTokens v'.inviteTokens)
    (hother : ∀ s l, s ≠ spaceId → σ.leaders s = some l → TokensMatch s l.inviteTokens v'.inviteTokens) :
    LeadersMatch ⟨v', Function.update σ.leaders spaceId (some l')⟩ := by
  intro s l hl
  by_cases hs : s = spaceId
  · subst hs
    obtain rfl : l' = l := by simpa using hl
    exact hself
  · exact hother s l hs (by simpa [Function.update_of_ne hs] using hl)

section Steps
variable {crates : Crates} {v : Vault} {σ : Server}

theorem leadersMatch_claim {conn : Connection} {w : World} {claim : ClaimRequest} {l : Leader} {out : Response × Vault × Leader}
    (h : LeadersMatch σ) (hb : Bound v σ (.request conn w (.claimInvite claim))) (hl : σ.leaders claim.spaceId = some l)
    (hclaim : Claim crates w.toClaimWorld σ.vault l claim conn.did out) :
    LeadersMatch ⟨out.2.1, Function.update σ.leaders claim.spaceId (some out.2.2)⟩ := by
  obtain ⟨-, hb⟩ := hb
  have htokens : TokensMatch claim.spaceId (claimTokens w.toClaimWorld σ.vault l claim conn.did) σ.vault.inviteTokens :=
    claimTokens_match (h _ l hl)
  rcases hclaim.tokens with ⟨htable, hmem⟩ | ⟨t, hretry, ht, hcan, hmem, htable⟩
  · refine .update ?_ fun s l' _ hl' => ?_
    · rw [hmem, htable]; exact htokens
    · rw [htable]; exact h s l' hl'
  · refine .update ?_ fun s l' hs hl' => ?_
    · rw [hmem]; exact htokens.countUse ht htable
    · -- no other leader's agreement is about the token that was used
      obtain ⟨row, hrow, -⟩ := htokens _ t ht
      rw [hretry] at hb
      have hspace := (hb l t hl ht hcan row hrow).1
      rcases htable with htable | htable
      · rw [htable]; exact h s l' hl'
      · rw [htable]; exact (h s l' hl').setUses hrow (fun he => hs (he.symm.trans hspace)) _

theorem leadersMatch_step {ev : Event} (h : LeadersMatch σ) (hb : Bound v σ ev) : LeadersMatch (σ.step crates ev) := by
  cases ev with
  | request conn w req =>
    simp only [Server.step]
    rcases Server.handleStream_cases crates w σ conn req with ⟨hsame, -⟩ | ⟨l, out, hl, hout, hafter⟩
    · rw [hsame]; exact h
    · rw [hafter]
      cases hout with
      | unchanged | announced => exact .update (h _ l hl) fun s l' _ hl' => h s l' hl'
      | claimed claim _ hreq hclaim =>
        subst hreq
        exact leadersMatch_claim h hb hl hclaim
      | pushed spaceId raw changes u space r hreq =>
        subst hreq
        exact hb.elim
  | disconnect endpointId =>
    intro s l hl
    obtain ⟨l', hl', rfl⟩ := Option.map_eq_some_iff.1 hl
    exact h s l' hl'
  | startLeader spaceId now loaded =>
    refine .update ?_ fun s l' _ hl' => h s l' hl'
    cases loaded
    · intro id t ht; cases ht
    · exact loadInviteTokens_match now σ.vault spaceId
  | stopLeader spaceId =>
    intro s l hl
    by_cases hs : s = spaceId
    · subst hs; simp [Server.step, Server.stopLeader] at hl
    · exact h s l (by simpa [Server.step, Server.stopLeader, Function.update_of_ne hs] using hl)
  | createInvite spaceId inv =>
    refine Server.command_ok (P := LeadersMatch) h fun σ' hok => ?_
    obtain ⟨l, token, hl, htoken, rfl⟩ := Server.createInvite_ok hok
    obtain ⟨hid, hspace⟩ := newInviteToken_ok htoken
    have hnew : σ.vault.inviteTokens.get token.id = none := hid ▸ hb
    subst hspace
    exact .update ((h _ l hl).create hnew) fun s l' _ hl' => (h s l' hl').insert hnew
  | revokeInvite spaceId tokenId =>
    refine Server.command_ok (P := LeadersMatch) h fun σ' hok => ?_
    obtain ⟨l, hl, rfl⟩ := Server.revokeInvite_ok hok
    exact .update (h _ l hl).revoke fun s l' _ hl' => h s l' hl'
  | queueInvite inv =>
    refine Server.command_ok (P := LeadersMatch) h fun σ' hok => ?_
    obtain ⟨hnew, rfl⟩ := Server.queueInvite_ok hok
    exact fun s l hl => (h s l hl).insert hnew
  | removeMember spaceId did deleteUcans =>
    intro s l hl
    have hsame : (σ.step crates (.removeMember spaceId did deleteUcans)).vault.inviteTokens = σ.vault.inviteTokens :=
      Vault.removeMember_inviteTokens
    rw [hsame]
    exact h s l hl
  | edit v' => exact hb.elim

/-! ## Who is a member -/

/-- After a step, who is a member was one before and not the one removed, or has just claimed. -/
theorem of_isActiveSpaceMember_step {ev : Event} (hb : Bound v σ ev) {s d : String}
    (hm : (σ.step crates ev).vault.isActiveSpaceMember s d = true) :
    (σ.vault.isActiveSpaceMember s d = true ∧ ∀ deleteUcans, ev ≠ .removeMember s d deleteUcans) ∨
      ∃ conn w claim, ev = .request conn w (.claimInvite claim) ∧ claim.spaceId = s ∧ conn.did = d ∧
        Claimed crates σ conn w claim := by
  -- the commands about invites keep the members
  let Same (σ' : Server) : Prop := σ'.vault.isActiveSpaceMember s d = σ.vault.isActiveSpaceMember s d
  cases ev with
  | request conn w req =>
    simp only [Server.step] at hm
    rcases Server.handleStream_cases crates w σ conn req with ⟨hsame, -⟩ | ⟨l, out, hl, hout, hafter⟩
    · rw [hsame] at hm
      exact .inl ⟨hm, by simp⟩
    · rw [hafter] at hm
      cases hout with
      | unchanged | announced => exact .inl ⟨hm, by simp⟩
      | claimed claim _ hreq hclaim =>
        subst hreq
        rcases hclaim.of_isActiveSpaceMember hb.1 hm with hm | ⟨⟨rfl, rfl⟩, welcome, ucan, capability, hr⟩
        · exact .inl ⟨hm, by simp⟩
        · exact .inr ⟨conn, w, claim, rfl, rfl, rfl, welcome, ucan, capability, by rw [hafter]; exact hr⟩
      | pushed spaceId raw changes u space r hreq =>
        subst hreq
        exact hb.elim
  | createInvite spaceId inv =>
    refine .inl ⟨(Server.command_ok (P := Same) rfl fun σ' hok => ?_).symm.trans hm, by simp⟩
    obtain ⟨l, token, -, -, rfl⟩ := Server.createInvite_ok hok
    rfl
  | revokeInvite spaceId tokenId =>
    refine .inl ⟨(Server.command_ok (P := Same) rfl fun σ' hok => ?_).symm.trans hm, by simp⟩
    obtain ⟨l, -, rfl⟩ := Server.revokeInvite_ok hok
    rfl
  | queueInvite inv =>
    refine .inl ⟨(Server.command_ok (P := Same) rfl fun σ' hok => ?_).symm.trans hm, by simp⟩
    obtain ⟨-, rfl⟩ := Server.queueInvite_ok hok
    rfl
  | removeMember spaceId did deleteUcans =>
    refine .inl ⟨Vault.of_isActiveSpaceMember_removeMember hm, ?_⟩
    rintro deleteUcans' he
    cases he
    have hnot : (σ.vault.removeMember s d deleteUcans).isActiveSpaceMember s d = false :=
      Vault.isActiveSpaceMember_removeMember_self
    rw [Server.step, hnot] at hm
    cases hm
  | disconnect endpointId | startLeader spaceId now loaded | stopLeader spaceId => exact .inl ⟨hm, by simp⟩
  | edit v' => exact hb.elim

end Steps

/-! ## Every admission is backed -/

section Runs
variable {crates : Crates} {v : Vault} {es : List Event}

theorem leadersMatch_run (h : Guarded (Server.step crates) (Bound v) ⟨v, fun _ => none⟩ es) :
    LeadersMatch (run (Server.step crates) ⟨v, fun _ => none⟩ es) :=
  h.inv (fun _ _ hm hb => leadersMatch_step hm hb) fun _ _ hl => by cases hl

theorem member_run (h : Guarded (Server.step crates) (Bound v) ⟨v, fun _ => none⟩ es) {s d : String}
    (hm : (run (Server.step crates) ⟨v, fun _ => none⟩ es).vault.isActiveSpaceMember s d = true) :
    v.isActiveSpaceMember s d = true ∨ StandingClaim crates v es s d := by
  revert hm
  refine h.history (P := fun es (σ : Server) => σ.vault.isActiveSpaceMember s d = true →
    v.isActiveSpaceMember s d = true ∨ StandingClaim crates v es s d) .inl fun es ev ih hb hm => ?_
  rcases of_isActiveSpaceMember_step hb hm with ⟨hm, hev⟩ | ⟨conn, w, claim, rfl, hs, hd, hclaimed⟩
  · exact (ih hm).imp_right (·.snoc hev)
  · exact .inr ⟨es, conn, w, claim, [], rfl, hs, hd, hclaimed, fun _ hm => by cases hm⟩

theorem backed_of_token {σ : Server} {now : Nat} {did : String} {claim : ClaimRequest} {row : InviteRow} {t : LocalInviteToken}
    (hrow : σ.vault.inviteTokens.get claim.token = some row) (hm : Matches row t) (hs : row.spaceId = claim.spaceId)
    (hexp : row.expiresAt.isSome = true) (huses : row.currentUses < 2 ^ 32) (hclaim : t.canClaim did now = true) :
    BackedByInvite σ now did claim := by
  obtain ⟨x, hx⟩ := Option.isSome_iff_exists.1 hexp
  simp only [LocalInviteToken.canClaim, LocalInviteToken.isValid, Bool.and_eq_true, decide_eq_true_eq] at hclaim
  obtain ⟨⟨hleft, hnow⟩, htarget⟩ := hclaim
  refine ⟨row, hrow, hs, ⟨x, hx, hm.expiresAt x hx ▸ hnow⟩, ?_, ?_⟩
  · have hmax := hm.maxUses
    have hcur := hm.currentUses
    rw [Nat.mod_eq_of_lt huses] at hcur
    omega
  · rw [← hm.target]
    cases hd : t.targetDid with
    | none => exact .inl rfl
    | some d => exact .inr (by simpa [hd] using htarget)

/-- In every history whose claims use tokens of their own space, and find leftover UCAN rows only of members the history
has admitted, each admission is backed by a stored invite or by a standing claim. -/
theorem admissions_backed (h : Guarded (Server.step crates) (Bound v) ⟨v, fun _ => none⟩ es) {pre post : List Event}
    {conn : Connection} {w : World} {claim : ClaimRequest} (hes : es = pre ++ .request conn w (.claimInvite claim) :: post)
    (hclaimed : Claimed crates (run (Server.step crates) ⟨v, fun _ => none⟩ pre) conn w claim) :
    BackedByInvite (run (Server.step crates) ⟨v, fun _ => none⟩ pre) w.now conn.did claim ∨
      StandingClaim crates v pre claim.spaceId conn.did := by
  subst hes
  obtain ⟨hpre, ⟨-, hb⟩, -⟩ := guarded_append.1 h
  obtain ⟨welcome, ucan, capability, hr⟩ := hclaimed
  rcases Server.handleStream_cases crates w _ conn (.claimInvite claim) with ⟨-, hno⟩ | ⟨l, out, hl, hout, hafter⟩
  · exact absurd hr (hno welcome ucan capability)
  rw [hafter] at hr
  cases hout with
  | unchanged r hno => exact absurd hr (hno _ _ _)
  | announced _ _ _ _ hreq => cases hreq
  | pushed _ _ _ _ _ _ hreq => cases hreq
  | claimed _ _ hreq hclaim =>
    cases hreq
    cases hclaim with
    | rejected => cases hr
    | unfinished => cases hr
    | retried _ _ _ hretry =>
      rw [if_pos hretry] at hb
      rcases member_run hpre hb.1 with hm | hstanding
      · rw [hb.2] at hm; cases hm
      · exact .inr hstanding
    | admitted _ _ _ hretry _ hgrant =>
      obtain ⟨t, ht, hcan⟩ := firstGrant_ok hgrant
      rw [hretry] at hb
      obtain ⟨row, hrow, hm⟩ := claimTokens_match (leadersMatch_run hpre _ l hl) _ t ht
      obtain ⟨hs, hexp, huses⟩ := hb l t hl ht hcan row hrow
      exact .inl (backed_of_token hrow (hm hs) hs hexp huses hcan)

end Runs

/-! ## One token, two spaces -/

/-- The device of `sessionVault` leads the space of the invite and another one. -/
def ledSpaces : List Event := [.startLeader "s" 0 true, .startLeader "b" 0 true]

def claimFor (spaceId : String) : ClaimRequest := ⟨spaceId, "t1", "ep-mallory"⟩

/-- The claim for the space of the token is backed. -/
theorem admissions_backed_own_space :
    BackedByInvite (run (Server.step sampleCrates) ⟨sessionVault, fun _ => none⟩ ledSpaces) 1 malloryConn.did (claimFor "s") ∨
      StandingClaim sampleCrates sessionVault ledSpaces "s" malloryConn.did := by
  have hbound : Guarded (Server.step sampleCrates) (Bound sessionVault) ⟨sessionVault, fun _ => none⟩
      (ledSpaces ++ [.request malloryConn sampleWorld (.claimInvite (claimFor "s"))]) := by
    refine ⟨trivial, trivial, ⟨by decide, ?_⟩, trivial⟩
    intro l t _ _ _ row hrow
    cases hrow
    exact ⟨rfl, rfl, by decide⟩
  have hclaimed : Claimed sampleCrates (run (Server.step sampleCrates) ⟨sessionVault, fun _ => none⟩ ledSpaces) malloryConn
      sampleWorld (claimFor "s") := ⟨"welcome", "ucan", "space/read", rfl⟩
  exact admissions_backed hbound rfl hclaimed

/-- The same token admits to the other space. -/
theorem foreign_token_admits :
    Claimed sampleCrates (run (Server.step sampleCrates) ⟨sessionVault, fun _ => none⟩ ledSpaces) malloryConn sampleWorld
        (claimFor "b") ∧
      ¬ (BackedByInvite (run (Server.step sampleCrates) ⟨sessionVault, fun _ => none⟩ ledSpaces) 1 malloryConn.did (claimFor "b") ∨
        StandingClaim sampleCrates sessionVault ledSpaces "b" malloryConn.did) := by
  refine ⟨⟨"welcome", "ucan", "space/read", rfl⟩, ?_⟩
  rintro (⟨row, hrow, hs, -⟩ | ⟨pre, conn, w, claim, post, hes, -⟩)
  · cases hrow
    exact absurd hs (by decide)
  · have hm : Event.request conn w (.claimInvite claim) ∈ ledSpaces := by
      rw [hes]
      simp
    simp [ledSpaces] at hm

end HaexVault.Space
