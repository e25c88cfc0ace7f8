import Mathlib.Logic.Function.Basic
import HaexVault.Crdt.Commands
import HaexVault.Lib.Runs
/-!
# Stored and cached UCANs (`utils/auth/ucanStore.ts`, `space_delivery/local/leader.rs`)

`haex_ucan_tokens` holds the tokens of this vault and, where it leads a space, those of the members
who claimed an invite. The cache has one token for each space, the last one loaded or stored
(`ucans_own_iff`).
-/

namespace HaexVault.Space.UcanCache

open HaexVault.Crdt (HashOrder)
open HaexVault.Lib.Runs

/-- What `decodeUcan` reads of a token. -/
structure Ucan where
  audience : String
  exp : Nat
  deriving DecidableEq

/-- A row of `haex_ucan_tokens`; its `audience_did` is the one in the token. -/
structure UcanRow where
  spaceId : String
  token : Ucan
  expiresAt : Nat
  deriving DecidableEq

/-- The table and `ucanCache`, with the time of the last operation in seconds. -/
structure Vault where
  clock : Nat
  rows : List UcanRow
  cache : String → Option Ucan

def memberUcanExpiresInSeconds : Nat := 100 * 365 * 86400

namespace Vault

variable (s : Vault)

def cacheUcan (spaceId : String) (token : Ucan) : Vault :=
  { s with cache := Function.update s.cache spaceId (some token) }

def clearUcanCache (spaceId : Option String) : Vault :=
  match spaceId.filter (· ≠ "") with
  | some spaceId => { s with cache := Function.update s.cache spaceId none }
  | none => { s with cache := fun _ => none }

/-- `getUcanForSpaceAsync`. -/
def getUcanForSpace (spaceId : String) (now : Nat) : Option Ucan × Vault :=
  match s.cache spaceId with
  | none => (none, s)
  | some token =>
    if token.exp ≤ now then (none, { s with cache := Function.update s.cache spaceId none }) else (some token, s)

/-- `persistUcanAsync`. -/
def persistUcan (spaceId : String) (token : Ucan) : Vault :=
  let s : Vault := { s with rows := s.rows.filter (fun r => r.spaceId ≠ spaceId) ++ [⟨spaceId, token, token.exp⟩] }
  s.cacheUcan spaceId token

/-- `loadUcansFromDbAsync`; `order` is the one in which the rows come. -/
def loadUcansFromDb (order : HashOrder UcanRow) : Vault :=
  (order.iter (s.rows.filter fun r => s.clock < r.expiresAt)).foldl (fun s r => s.cacheUcan r.spaceId r.token) s

/-- `deleteUcansForMembersAsync`. -/
def deleteUcansForMembers (spaceId : String) (audienceDids : List String) : Vault :=
  if audienceDids = [] then s
  else
    let s := { s with rows := s.rows.filter fun r => ¬(r.spaceId = spaceId ∧ r.token.audience ∈ audienceDids) }
    s.clearUcanCache spaceId

/-- `persist_admin_ucan`, which stores nothing where `load_admin_identity` or the INSERT fails. -/
def persistAdminUcan (spaceId : String) (token : Ucan) (succeeds : Bool) : Vault :=
  if s.rows.any fun r => r.spaceId = spaceId && r.token.audience = token.audience then s
  else if !succeeds then s
  else { s with rows := s.rows ++ [⟨spaceId, token, s.clock + memberUcanExpiresInSeconds⟩] }

end Vault

section

-- the DIDs of the identities of this vault
variable (own : List String)

inductive Op where
  /-- A `ClaimInvite` that this vault answers as leader, with a token for the claiming member. -/
  | claim (spaceId : String) (token : Ucan) (succeeds : Bool)
  | persist (spaceId : String) (token : { t : Ucan // t.audience ∈ own })
  | load (order : HashOrder UcanRow)
  | deleteForMembers (spaceId : String) (audienceDids : List String)
  | clear (spaceId : Option String)
  | get (spaceId : String)

abbrev Event := Nat × Op own

def step (s : Vault) (ev : Event own) : Vault :=
  let s := { s with clock := max s.clock ev.1 }
  match ev.2 with
  | .claim spaceId token succeeds => s.persistAdminUcan spaceId token succeeds
  | .persist spaceId token => s.persistUcan spaceId token
  | .load order => s.loadUcansFromDb order
  | .deleteForMembers spaceId audienceDids => s.deleteUcansForMembers spaceId audienceDids
  | .clear spaceId => s.clearUcanCache spaceId
  | .get spaceId => (s.getUcanForSpace spaceId s.clock).2

def opened (clock : Nat) (rows : List UcanRow) : Vault := ⟨clock, rows, fun _ => none⟩

def ReturnsOwn (s : Vault) : Prop :=
  ∀ spaceId now t, s.clock ≤ now → (s.getUcanForSpace spaceId now).1 = some t → t.audience ∈ own

def KeepsOthers (s : Vault) (ev : Event own) : Prop :=
  match ev.2 with
  | .persist .. => ∀ r ∈ s.rows, r.token.audience ∉ own → r ∈ (step own s ev).rows
  | _ => True

/-- The last row of each space that a load comes to is an own one, or its token has expired; and an own token is stored only
for a space without tokens of others. -/
def TouchesOwn (s : Vault) (ev : Event own) : Prop :=
  match ev.2 with
  | .persist spaceId _ => ∀ r ∈ s.rows, r.spaceId = spaceId → r.token.audience ∈ own
  | .load order => ∀ spaceId,
      ∀ r ∈ ((order.iter (s.rows.filter fun r => max s.clock ev.1 < r.expiresAt)).filter (·.spaceId = spaceId)).getLast?,
        r.token.audience ∈ own ∨ r.token.exp ≤ max s.clock ev.1
  | _ => True

end

variable {own : List String} {s s' : Vault}

/-! ## The cache -/

theorem returnsOwn_iff : ReturnsOwn own s ↔ ∀ spaceId t, s.cache spaceId = some t → s.clock < t.exp → t.audience ∈ own := by
  constructor
  · intro h spaceId t ht hexp
    refine h spaceId s.clock t le_rfl ?_
    rw [Vault.getUcanForSpace, ht]
    exact congrArg Prod.fst (if_neg (not_le.2 hexp))
  · intro h spaceId now t hnow hget
    unfold Vault.getUcanForSpace at hget
    split at hget
    · cases hget
    · rename_i token htoken
      split at hget
      · cases hget
      · rename_i hexp
        obtain rfl := Option.some.inj hget
        exact h spaceId _ htoken (hnow.trans_lt (not_le.1 hexp))

theorem ReturnsOwn.mono (h : ReturnsOwn own s) (hclock : s.clock ≤ s'.clock)
    (hcache : ∀ spaceId t, s'.cache spaceId = some t → s.cache spaceId = some t) : ReturnsOwn own s' :=
  returnsOwn_iff.2 fun spaceId t ht hexp => returnsOwn_iff.1 h spaceId t (hcache spaceId t ht) (hclock.trans_lt hexp)

theorem of_update_none {cache : String → Option Ucan} {spaceId spaceId' : String} {t : Ucan}
    (h : Function.update cache spaceId none spaceId' = some t) : cache spaceId' = some t := by
  by_cases he : spaceId' = spaceId
  · rw [he, Function.update_self] at h
    cases h
  · rwa [Function.update_of_ne he] at h

theorem cache_clearUcanCache {spaceId : Option String} {spaceId' : String} {t : Ucan}
    (h : (s.clearUcanCache spaceId).cache spaceId' = some t) : s.cache spaceId' = some t := by
  unfold Vault.clearUcanCache at h
  split at h
  · exact of_update_none h
  · cases h

theorem clock_clearUcanCache (s : Vault) (spaceId : Option String) : (s.clearUcanCache spaceId).clock = s.clock := by
  unfold Vault.clearUcanCache
  split <;> rfl

theorem cache_load (rows : List UcanRow) (s : Vault) (spaceId : String) :
    (rows.foldl (fun s r => s.cacheUcan r.spaceId r.token) s).cache spaceId =
      match (rows.filter (·.spaceId = spaceId)).getLast? with
      | some r => some r.token
      | none => s.cache spaceId := by
  induction rows using List.reverseRecOn with
  | nil => rfl
  | append_singleton rows r ih =>
    rw [List.foldl_append, List.filter_append]
    by_cases hr : r.spaceId = spaceId
    · subst hr
      simp [Vault.cacheUcan]
    · have hskip : [r].filter (·.spaceId = spaceId) = [] := by simp [hr]
      rw [hskip, List.append_nil, ← ih]
      exact Function.update_of_ne (Ne.symm hr) _ _

theorem clock_load (rows : List UcanRow) (s : Vault) :
    (rows.foldl (fun s r => s.cacheUcan r.spaceId r.token) s).clock = s.clock := by
  induction rows generalizing s with
  | nil => rfl
  | cons r rows ih => exact ih (s.cacheUcan r.spaceId r.token)

/-! ## The operations -/

theorem returnsOwn_load (h : ReturnsOwn own s) (now : Nat) (order : HashOrder UcanRow) :
    ReturnsOwn own (step own s (now, .load order)) ↔ TouchesOwn own s (now, .load order) := by
  rw [returnsOwn_iff] at h ⊢
  simp only [step, Vault.loadUcansFromDb, clock_load, cache_load, TouchesOwn]
  constructor
  · intro hafter spaceId r hr
    refine or_iff_not_imp_right.2 fun hexp => hafter spaceId r.token ?_ (not_le.1 hexp)
    rw [hr]
  · intro htouches spaceId t ht hexp
    split at ht
    · rename_i r hr
      obtain rfl := Option.some.inj ht
      exact (htouches spaceId r hr).resolve_right (not_le.2 hexp)
    · exact h spaceId t ht ((le_max_left _ _).trans_lt hexp)

theorem keepsOthers_persist {now : Nat} {spaceId : String} {token : { t : Ucan // t.audience ∈ own }} :
    KeepsOthers own s (now, .persist spaceId token) ↔ TouchesOwn own s (now, .persist spaceId token) := by
  have hrows : (step own s (now, .persist spaceId token)).rows =
      s.rows.filter (fun r => r.spaceId ≠ spaceId) ++ [⟨spaceId, token, token.1.exp⟩] := rfl
  simp only [KeepsOthers, TouchesOwn, hrows]
  constructor
  · intro hkeeps r hr hspace
    by_contra hother
    rcases List.mem_append.1 (hkeeps r hr hother) with hmem | hmem
    · exact of_decide_eq_true (List.mem_filter.1 hmem).2 hspace
    · rw [List.mem_singleton.1 hmem] at hother
      exact hother token.2
  · intro htouches r hr hother
    exact List.mem_append_left _ (List.mem_filter.2 ⟨hr, decide_eq_true fun hspace => hother (htouches r hr hspace)⟩)

theorem returnsOwn_persist (h : ReturnsOwn own s) (now : Nat) (spaceId : String) (token : { t : Ucan // t.audience ∈ own }) :
    ReturnsOwn own (step own s (now, .persist spaceId token)) := by
  rw [returnsOwn_iff] at h ⊢
  intro spaceId' t ht hexp
  by_cases he : spaceId' = spaceId
  · have hself : (step own s (now, .persist spaceId token)).cache spaceId' = some token.1 := by
      rw [he]
      exact Function.update_self _ _ _
    rw [Option.some.inj (ht.symm.trans hself)]
    exact token.2
  · exact h spaceId' t ((Function.update_of_ne he _ _).symm.trans ht) ((le_max_left _ _).trans_lt hexp)

theorem step_iff (h : ReturnsOwn own s) (ev : Event own) :
    ReturnsOwn own (step own s ev) ∧ KeepsOthers own s ev ↔ TouchesOwn own s ev := by
  obtain ⟨now, op⟩ := ev
  cases op with
  | persist spaceId token =>
    exact (and_iff_right (returnsOwn_persist h now spaceId token)).trans keepsOthers_persist
  | load order => exact (and_iff_left trivial).trans (returnsOwn_load h now order)
  | claim spaceId token succeeds =>
    refine iff_of_true ⟨h.mono ?_ ?_, trivial⟩ trivial
    · simp only [step, Vault.persistAdminUcan]
      split_ifs <;> exact le_max_left _ _
    · simp only [step, Vault.persistAdminUcan]
      split_ifs <;> exact fun _ _ ht => ht
  | deleteForMembers spaceId audienceDids =>
    refine iff_of_true ⟨h.mono ?_ ?_, trivial⟩ trivial
    · simp only [step, Vault.deleteUcansForMembers]
      split_ifs
      · exact le_max_left _ _
      · rw [clock_clearUcanCache]
        exact le_max_left _ _
    · simp only [step, Vault.deleteUcansForMembers]
      split_ifs
      · exact fun _ _ ht => ht
      · intro spaceId' t ht
        have hold := cache_clearUcanCache ht
        exact hold
  | clear spaceId =>
    refine iff_of_true ⟨h.mono ?_ fun spaceId' t ht => ?_, trivial⟩ trivial
    · rw [step, clock_clearUcanCache]
      exact le_max_left _ _
    · have hold := cache_clearUcanCache (s := { s with clock := max s.clock now }) ht
      exact hold
  | get spaceId =>
    refine iff_of_true ⟨h.mono ?_ ?_, trivial⟩ trivial
    · simp only [step, Vault.getUcanForSpace]
      split
      · exact le_max_left _ _
      · split <;> exact le_max_left _ _
    · simp only [step, Vault.getUcanForSpace]
      split
      · exact fun _ _ ht => ht
      · split
        · exact fun _ _ ht => of_update_none ht
        · exact fun _ _ ht => ht

/-- In a vault that has been opened, every token that comes out of the cache is an own one and no own token deletes one of
another member, exactly while loads end with own tokens and own tokens are stored for spaces without those of others. -/
theorem ucans_own_iff (own : List String) (clock : Nat) (rows : List UcanRow) (es : List (Event own)) :
    Guarded (step own) (fun s ev => ReturnsOwn own (step own s ev) ∧ KeepsOthers own s ev) (opened clock rows) es ↔
      Guarded (step own) (TouchesOwn own) (opened clock rows) es :=
  Guarded.iff_of_inv (I := ReturnsOwn own) (fun _ ev h _ hG => ((step_iff h ev).2 hG).1) (fun _ ev h _ => step_iff h ev)
    (guarded_true _ _) (returnsOwn_iff.2 fun _ _ ht => by cases ht)

/-- The leader's own row, with its `space/admin` token. -/
def adminRow : UcanRow := ⟨"s", ⟨"did:own", 10⟩, 10⟩

/-- A member claims an invite, and the next load puts the member's token into the leader's cache. -/
theorem member_token_cached :
    ¬Guarded (step ["did:own"]) (fun s ev => ReturnsOwn ["did:own"] (step _ s ev) ∧ KeepsOthers _ s ev)
      (opened 0 [adminRow])
      [(0, .claim "s" ⟨"did:member", memberUcanExpiresInSeconds⟩ true), (1, .load ⟨fun l => l, fun _ => .rfl⟩)] := by
  intro h
  have hown := h.2.1.1 "s" 1 ⟨"did:member", memberUcanExpiresInSeconds⟩ le_rfl rfl
  exact absurd hown (by decide)

end HaexVault.Space.UcanCache
