import Mathlib.Data.Fintype.EquivFin
import HaexVault.PeerStorage.Handlers
import HaexVault.Space.Sessions
/-!
# Attenuation

A member to whom others grant reading only should not be able to do more than read (`Attenuated`).
None of the three places that ask for a capability keeps it (`never_attenuated`): a validated UCAN is
one whose issuer signed it, whoever that is.
-/

namespace HaexVault.Space

open HaexVault.Crdt HaexVault.Lib HaexVault.Lib.Steps
open PeerStorage (Shares SharedFolder Served)

/-! ## A member who may read -/

/-- A peer with the key of its DID, and the tokens that others gave it; none of theirs grants more than reading. -/
structure Reader (crates : Crates) extends Connection where
  seed : Bytes
  key : publicKeyFromDid crates did = .ok (crates.publicKey seed)
  received : Set String
  readOnly : ∀ token ∈ received, ∀ now u, validateToken crates now token = .ok u → u.audience = did → u.issuer ≠ did →
    ∀ s level, u.Grants s level → level ≤ .read

namespace Reader
variable {crates : Crates}

/-- What unforgeable signatures let the peer present: a token that validates was received, or has the peer for its issuer. -/
def CanPresent (m : Reader crates) (now : Nat) (token : String) : Prop :=
  ∀ u, validateToken crates now token = .ok u → token ∈ m.received ∨ u.issuer = m.did

theorem did_ne (m : Reader crates) : m.did ≠ "" := by
  intro h
  have hkey := m.key
  rw [h] at hkey
  cases hkey

end Reader

/-! ## What the capabilities are for -/

section Property
variable {crates : Crates} (m : Reader crates) (w : World) (σ : Server) (s : String)

def RecordsRead : Prop :=
  ∀ endpointId token u, m.CanPresent w.now token →
    (σ.handleStream crates w m.toConnection (.announce s endpointId (some token))).1 = .ok →
    (σ.handleStream crates w m.toConnection (.announce s endpointId (some token))).2.cachedUcan s endpointId = some u →
    ∀ level, u.Grants s level → level ≤ .read

def Server.AcceptsPush (σ : Server) (w : World) (conn : Connection) (s : String) (raw : List LocalColumnChange) : Prop :=
  ∃ l u changes, σ.leaders s = some l ∧ authorizeRequest σ.vault l w.now conn (.syncPush s (.ok raw)) = .ok (some u) ∧
    authorizeInboundSyncPush w.env w.pushHash σ.vault s conn.endpointId u raw = .ok changes

/-- In no session with such a token is a push to `haex_peer_shares` accepted. -/
def PushesNoShares : Prop :=
  ∀ token raw (later : World), m.CanPresent w.now token →
    (σ.handleStream crates w m.toConnection (.announce s m.endpointId (some token))).1 = .ok →
    (∃ c ∈ raw, c.tableName = "haex_peer_shares") →
    ¬ (σ.handleStream crates w m.toConnection (.announce s m.endpointId (some token))).2.AcceptsPush later m.toConnection s raw

def WritesNothing (now : Nat) (shares : Shares) (allowedSpaces : List String) : Prop :=
  ∀ req : PeerStorage.Request, m.CanPresent now req.ucanToken → req.requiresWrite = true →
    ∀ served, PeerStorage.handleStream crates now shares allowedSpaces m.did req ≠ .ok served

/-- Who may read can do no more. -/
structure Attenuated (shares : Shares) (allowedSpaces : List String) : Prop where
  announce : RecordsRead m w σ s
  push : PushesNoShares m w σ s
  storage : WritesNothing m w.now shares allowedSpaces

end Property

/-! ## The token members sign for themselves -/

section SelfIssued
variable {crates : Crates} {m : Reader crates} {w : World} {σ : Server} {s nonce : String} {created expires : Nat}

def Reader.selfPayload (m : Reader crates) (s : String) (expires created : Nat) (nonce : String) : UcanPayload :=
  delegatedPayload m.did m.did s "space/admin" none expires created nonce

def Reader.selfToken (m : Reader crates) (s : String) (expires created : Nat) (nonce : String) : String :=
  signedToken crates m.seed (m.selfPayload s expires created nonce)

def Reader.selfUcan (m : Reader crates) (s : String) (exp : Nat) : ValidatedUcan := ⟨m.did, m.did, [(s, .admin)], exp⟩

structure Signs (m : Reader crates) (now : Nat) (s : String) (expires created : Nat) (nonce : String) : Prop where
  signs : crates.SignsAndVerifies m.seed (m.selfPayload s expires created nonce)
  size : created + expires < 2 ^ 64
  now_lt : now < created + expires

theorem Signs.validates {now : Nat} (h : Signs m now s expires created nonce) :
    validateToken crates now (m.selfToken s expires created nonce) = .ok (m.selfUcan s (created + expires)) :=
  (validateToken_delegated h.signs m.key rfl h.size).2 ⟨h.now_lt, rfl⟩

theorem Signs.canPresent {now : Nat} (h : Signs m now s expires created nonce) :
    m.CanPresent now (m.selfToken s expires created nonce) := by
  intro u hu
  cases h.validates.symm.trans hu
  exact .inr rfl

theorem Reader.selfUcan_grants (m : Reader crates) (s : String) (exp : Nat) (level : CapabilityLevel) :
    (m.selfUcan s exp).Grants s level := ⟨.admin, by simp [selfUcan], by simp⟩

theorem Signs.announces (h : Signs m w.now s expires created nonce) (hmember : σ.vault.isActiveSpaceMember s m.did = true) :
    Announces crates w.now σ.vault m.did s (some (m.selfToken s expires created nonce)) (m.selfUcan s (created + expires)) :=
  ⟨_, rfl, h.validates, m.did_ne, rfl, m.selfUcan_grants s _ _, hmember⟩

theorem not_recordsRead {l : Leader} (hl : σ.leaders s = some l) (hmember : σ.vault.isActiveSpaceMember s m.did = true)
    (h : Signs m w.now s expires created nonce) : ¬ RecordsRead m w σ s := by
  intro hread
  have hannounces := h.announces hmember
  have hok := hread m.endpointId _ _ h.canPresent (by rw [Server.handleStream_announce hl hannounces])
    (Server.cachedUcan_announce hl hannounces)
  have hle : CapabilityLevel.admin ≤ .read := hok .admin (m.selfUcan_grants s _ _)
  revert hle
  decide

/-! ## A new share -/

/-- `serde_json` reads an object with one plain string. -/
def ReadsIds (env : Env) : Prop :=
  ∀ x : String, (∀ c ∈ x.toList, c.isLower = true) →
    env.fromStr ("\x7b\"id\":\"" ++ x ++ "\"\x7d") = some [("id", .string x)]

theorem exists_new_id (rows : List Row) : ∃ x : String, (∀ c ∈ x.toList, c.isLower = true) ∧ ∀ r ∈ rows, r "id" ≠ .text x := by
  let ids := rows.filterMap fun r => (Crdt.asText (r "id")).map fun x => x.toList.length
  obtain ⟨n, hn⟩ := Infinite.exists_notMem_finset ids.toFinset
  refine ⟨String.ofList (List.replicate n 'a'), fun c hc => ?_, fun r hr hx => ?_⟩
  · rw [String.toList_ofList] at hc
    rw [List.eq_of_mem_replicate hc]
    decide
  · apply hn
    exact List.mem_toFinset.2 (List.mem_filterMap.2 ⟨r, hr, by simp [hx, Crdt.asText]⟩)

def newShare (s x : String) : LocalColumnChange :=
  ⟨"haex_peer_shares", "\x7b\"id\":\"" ++ x ++ "\"\x7d", "space_id", "", .string s, ""⟩

theorem accepts_newShare {env : Env} (henv : ReadsIds env) (hash : PushHashing) (v : Vault) (endpointId : String) {u : ValidatedUcan}
    (hcap : u.Grants s .write) (hmember : v.isActiveSpaceMember s u.audience = true) :
    ∃ x changes, authorizeInboundSyncPush env hash v s endpointId u [newShare s x] = .ok changes := by
  obtain ⟨x, hplain, hnew⟩ := exists_new_id (tableRows v.space.db "haex_peer_shares")
  have hread : readExistingColumn env v.space.db "haex_peer_shares" ("\x7b\"id\":\"" ++ x ++ "\"\x7d") "space_id" = .ok none :=
    readExistingColumn_new v.space.schema (by decide) (henv x hplain) hnew
  refine ⟨x, authorize_new hcap hmember ?_ ?_ ?_⟩
  all_goals
    simp only [List.mem_singleton]
    rintro _ rfl
  · exact validateChange_ok.2 ⟨by simp [newShare, spaceScopedCrdtTables], fun _ => rfl⟩
  · exact hread
  · exact ⟨_, rfl, rfl, rfl⟩

theorem not_pushesNoShares {l : Leader} (hl : σ.leaders s = some l) (hmember : σ.vault.isActiveSpaceMember s m.did = true)
    (h : Signs m w.now s expires created nonce) (henv : ReadsIds w.env) : ¬ PushesNoShares m w σ s := by
  intro hnone
  have hannounces := h.announces hmember
  obtain ⟨x, changes, hpush⟩ := accepts_newShare henv w.pushHash σ.vault m.endpointId
    (m.selfUcan_grants s (created + expires) .write) hmember
  refine hnone _ [newShare s x] w h.canPresent (by rw [Server.handleStream_announce hl hannounces])
    ⟨_, List.mem_singleton_self _, rfl⟩ ?_
  rw [Server.handleStream_announce hl hannounces]
  refine ⟨_, m.selfUcan s (created + expires), changes, Function.update_self .., ?_, hpush⟩
  refine (authorizeRequest_ok rfl).2 ⟨_, rfl, by simp [Leader.cachedUcan_register], h.now_lt, ?_⟩
  exact ⟨m.did_ne, rfl, m.selfUcan_grants s _ _, hmember⟩

/-! ## Folders -/

/-- The path leads into a folder of the space that is on the device's own file system. -/
def NamesFolder (shares : Shares) (s path : String) : Prop :=
  ∃ share sub, PeerStorage.findShareAndSubpath shares [s] path = .ok (share, sub) ∧
    PeerStorage.isContentUri share.localPath = false ∧ PeerStorage.checkRelativePath sub = .ok ()

theorem serves_selfIssued {now : Nat} (h : Signs m now s expires created nonce) {shares : Shares} {allowedSpaces : List String}
    (hs : s ∈ allowedSpaces) {req : PeerStorage.Request} (hwrite : req.requiresWrite = true)
    (htoken : req.ucanToken = m.selfToken s expires created nonce) (hpath : NamesFolder shares s req.path) :
    ∃ share sub, PeerStorage.handleStream crates now shares allowedSpaces m.did req = .ok (.inFolder share sub) := by
  obtain ⟨share, sub, hfind, hlocal, hcheck⟩ := hpath
  have heff : PeerStorage.effectiveSpaces (m.selfUcan s (created + expires)) allowedSpaces = [s] := by
    simp [PeerStorage.effectiveSpaces, Reader.selfUcan, hs]
  have hspace : share.spaceId = s := List.mem_singleton.1 (PeerStorage.findShareAndSubpath_ok hfind).2.1
  have hu : validateToken crates now req.ucanToken = .ok (m.selfUcan s (created + expires)) := by
    rw [htoken]
    exact h.validates
  refine ⟨share, sub, PeerStorage.served_of_grants hu m.did_ne rfl hwrite (heff.symm ▸ hfind) ?_ hlocal hcheck⟩
  rw [hspace]
  exact m.selfUcan_grants s _ _

theorem not_writesNothing {now : Nat} (h : Signs m now s expires created nonce) {shares : Shares} {allowedSpaces : List String}
    (hs : s ∈ allowedSpaces) {path : String} (hpath : NamesFolder shares s path) :
    ¬ WritesNothing m now shares allowedSpaces := by
  intro hnothing
  have hwrite : (PeerStorage.Request.createDirectory path (m.selfToken s expires created nonce)).requiresWrite = true := rfl
  obtain ⟨share, sub, hserved⟩ := serves_selfIssued h hs hwrite rfl hpath
  exact hnothing (.createDirectory path (m.selfToken s expires created nonce)) h.canPresent hwrite _ hserved

/-- None of the three holds, whatever tokens the others gave: the member's own token is recorded as an admin's, pushes a
share, and changes every folder of the space. -/
theorem never_attenuated {l : Leader} {shares : Shares} {allowedSpaces : List String} (hl : σ.leaders s = some l)
    (hmember : σ.vault.isActiveSpaceMember s m.did = true) (h : Signs m w.now s expires created nonce) (henv : ReadsIds w.env) :
    ¬ Attenuated m w σ s shares allowedSpaces ∧ ¬ RecordsRead m w σ s ∧ ¬ PushesNoShares m w σ s ∧
      (s ∈ allowedSpaces → ∀ path, NamesFolder shares s path → ¬ WritesNothing m w.now shares allowedSpaces) :=
  have hrecords := not_recordsRead hl hmember h
  ⟨fun hall => hrecords hall.announce, hrecords, not_pushesNoShares hl hmember h henv,
    fun hs _ hpath => not_writesNothing h hs hpath⟩

end SelfIssued

/-! ## The reader of `s` -/

/-- The member, with the admin's `readToken` and the key `selfToken` is signed with. -/
def sampleReader : Reader sampleCrates where
  endpointId := "ep-member"
  did := memberKey.did
  seed := memberKey.seed
  key := (key_sample (t := selfToken) (by simp)).1
  received := {readToken.token}
  readOnly := by
    rintro _ rfl now u hu - - s level ⟨actual, hl, hle⟩
    obtain ⟨-, rfl⟩ := (validateToken_sample (by simp) rfl).1 hu
    by_cases hs : s = "s"
    · subst hs
      cases hl
      exact hle
    · rw [List.lookup_cons, beq_false_of_ne hs] at hl
      cases hl

theorem sampleReader_signs : Signs sampleReader 1 "s" 100 0 "n" :=
  ⟨sample_signs (t := selfToken) (by simp), by decide, by decide⟩

def plainEnv : Env where
  fromStr := fun text => (stripPre "\x7b\"id\":\"" text).bind fun rest =>
    let x := rest.toList.dropLast.dropLast
    if rest.toList = x ++ "\"\x7d".toList ∧ x.all Char.isLower then some [("id", .string (String.ofList x))] else none
  isAlphanumeric := Char.isAlphanum

theorem plainEnv_readsIds : ReadsIds plainEnv := by
  intro x hx
  have hend : "\"\x7d".toList = ['"', '\x7d'] := rfl
  rw [String.append_assoc]
  simpa [plainEnv, stripPre_append, hend, List.dropLast_append_of_ne_nil] using hx

def sampleShares : Shares := ⟨[("share1", ⟨"docs", "/home/ana/docs", "s"⟩)], List.nodup_singleton _⟩

theorem sampleShares_namesFolder : NamesFolder sampleShares "s" "docs/a.txt" :=
  ⟨⟨"docs", "/home/ana/docs", "s"⟩, "a.txt", rfl, rfl, rfl⟩

def sampleServer : Server := (⟨sessionVault, fun _ => none⟩ : Server).startLeader "s" 0 true

theorem sampleServer_leader : sampleServer.leaders "s" = some { inviteTokens := loadInviteTokens 0 sessionVault "s" } := rfl

theorem never_attenuated_reader :
    ¬ RecordsRead sampleReader { sampleWorld with env := plainEnv } sampleServer "s" ∧
      ¬ PushesNoShares sampleReader { sampleWorld with env := plainEnv } sampleServer "s" ∧
      ¬ WritesNothing sampleReader 1 sampleShares ["s"] :=
  have h := @never_attenuated _ sampleReader { sampleWorld with env := plainEnv } _ _ _ _ _ _ sampleShares ["s"]
    sampleServer_leader readUcan_admits.member sampleReader_signs plainEnv_readsIds
  ⟨h.2.1, h.2.2.1, h.2.2.2 (List.mem_singleton_self _) _ sampleShares_namesFolder⟩

/-- Given the right to read, the member is recorded as an admin. -/
theorem reader_becomes_admin : ¬ Attenuated sampleReader sampleWorld sampleServer "s" sampleShares ["s"] := by
  intro h
  have hmember : sampleServer.vault.isActiveSpaceMember "s" sampleReader.did = true := readUcan_admits.member
  exact not_recordsRead sampleServer_leader hmember sampleReader_signs h.announce

end HaexVault.Space
