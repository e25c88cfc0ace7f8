import HaexVault.Lib.Calls
import HaexVault.QuicDidAuth.Handshake
/-!
# Agreement of the DID handshake

Servers wait for responses, identities answer challenges and sign what else the app has them sign,
and the network hands any bytes to anyone. `authentication_agrees` says when a server that takes a
DID agrees with the holder of its key.
-/

namespace HaexVault.QuicDidAuth

open HaexVault.Lib HaexVault.Lib.Runs HaexVault.Lib.Steps
open HaexVault.Space (Bytes publicKeyFromDid utf8 okOr_eq_ok sampleCrates memberKey)

/-! ## Keys and their uses -/

/-- A DID with its key, as `load_signing_identity_for_did` gives it. -/
structure Identity (crates : HandshakeCrates) where
  did : String
  signingKey : Bytes
  key_of_did : publicKeyFromDid crates.toCrates did = .ok (crates.publicKey signingKey)

/-- What the key of an identity signs outside of a handshake. -/
inductive OtherUse where
  /-- `didAuthenticateAsync`: the nonce a home server sends. -/
  | identityAuth (nonce : String)
  /-- A UCAN, by `create_ucan` or `createUcan`. -/
  | ucan (header payload : Bytes)
  /-- `createDidAuthHeader`. -/
  | didAuthHeader (payload : Bytes)
  /-- `signClaimPresentation`. -/
  | claimPresentation (timestamp : String) (sortedEntries : List (String × String))
  /-- The check of `importIdentityAsync`. -/
  | importIdentity (challenge : Nonce)
  /-- `signRecordAsync` and `createFederatedAuthHeader` of the SDKs. -/
  | sdk (message : Bytes)

/-- The bytes that are signed. -/
def OtherUse.message (crates : HandshakeCrates) (did : String) : OtherUse → Bytes
  | identityAuth nonce => utf8 nonce
  | ucan header payload => utf8 (crates.base64UrlEncode header ++ "." ++ crates.base64UrlEncode payload)
  | didAuthHeader payload => utf8 (crates.base64UrlEncode payload)
  | claimPresentation timestamp sortedEntries =>
    utf8 (String.intercalate "\x00" (did :: timestamp :: sortedEntries.map fun e => e.1 ++ "=" ++ e.2))
  | importIdentity challenge => challenge.bytes
  | sdk message => message

inductive KeyUse where
  /-- `respond_to_challenge`, with the nonce and the server of the challenge it read. -/
  | respond (ownEndpointId : EndpointId) (nonce : Bytes) (serverEndpointId : String)
  | other (use : OtherUse)

def KeyUse.message (crates : HandshakeCrates) (did : String) : KeyUse → Bytes
  | respond ownEndpointId nonce serverEndpointId => buildSigInput nonce ownEndpointId.text serverEndpointId
  | other use => use.message crates did

abbrev KeyLog (crates : HandshakeCrates) := List (Identity crates × KeyUse)

inductive KeyEvent (crates : HandshakeCrates) where
  /-- The bytes of a challenge reach a client. -/
  | challenge (identity : Identity crates) (ownEndpointId : EndpointId) (stream : Bytes)
  | sign (identity : Identity crates) (use : OtherUse)

def KeyLog.record {crates : HandshakeCrates} (log : KeyLog crates) : KeyEvent crates → KeyLog crates
  | .challenge identity ownEndpointId stream => match readChallenge crates stream with
    | .ok (nonceBytes, serverEndpointId) => log ++ [(identity, .respond ownEndpointId nonceBytes serverEndpointId)]
    | .error _ => log
  | .sign identity use => log ++ [(identity, .other use)]

/-! ## Connections of servers -/

/-- A connection: the endpoints at its ends, and the nonce the server draws for it. -/
structure Connection where
  ownEndpointId : EndpointId
  remoteEndpointId : EndpointId
  nonce : Nonce

structure Session extends Connection where
  result : Option (Except ChallengeError String) := none

namespace Session

def opened (crates : HandshakeCrates) (conn : Connection) : Session :=
  match writeMessage (crates.challengeToVec (challenge crates conn.nonce.bytes conn.ownEndpointId.text)) with
  | .ok _ => { conn with }
  | .error e => { conn with result := some (.error e) }

def answered (crates : HandshakeCrates) (c : Session) (stream : Option Bytes) : Session :=
  match c.result with
  | some _ => c
  | none => { c with
      result := some (awaitResponse crates stream c.nonce.bytes c.ownEndpointId.text c.remoteEndpointId.text) }

end Session

abbrev Network (crates : HandshakeCrates) := Calls.Sys (KeyLog crates) Session

abbrev NetworkEvent (crates : HandshakeCrates) := Calls.Event Connection (Option Bytes) (KeyEvent crates)

namespace Network
variable {crates : HandshakeCrates}

def machine (crates : HandshakeCrates) :
    Calls.Machine (KeyLog crates) Connection Session (Option Bytes) (KeyEvent crates) where
  start := Session.opened crates
  advance log c stream := (log, c.answered crates stream)
  outside := KeyLog.record

abbrev step (crates : HandshakeCrates) : Network crates → NetworkEvent crates → Network crates := (machine crates).step

/-! ## Agreement -/

/-- The holder of the key of the DID that was taken answered this challenge, for the endpoint at the other end. -/
def Agrees (honest : Bytes → Prop) (log : KeyLog crates) (c : Session) : Prop :=
  ∀ did key, c.result = some (.ok did) → publicKeyFromDid crates.toCrates did = .ok key → honest key →
    ∃ identity ownEndpointId, crates.publicKey identity.signingKey = key ∧ ownEndpointId.text = c.remoteEndpointId.text ∧
      (identity, .respond ownEndpointId c.nonce.bytes c.ownEndpointId.text) ∈ log

def IsSigInput (message : Bytes) : Prop :=
  ∃ (nonce : Nonce) (client server : String), message = buildSigInput nonce.bytes client server

/-- A signature that a server takes from an honest key was made by its holder: ed25519 signatures are not forged. And the
SDKs sign no input of a handshake. -/
def Unforged (honest : Bytes → Prop) (σ : Network crates) : NetworkEvent crates → Prop
  | .resume i (some stream) => ∀ c response key signature, σ.calls[i]? = some c → c.result = none →
      readMessage crates.responseFromSlice stream = .ok response →
      publicKeyFromDid crates.toCrates response.did = .ok key → honest key →
      crates.base64Decode response.signature = .ok signature →
      crates.verifyStrict key (buildSigInput c.nonce.bytes response.clientEndpointId c.ownEndpointId.text) signature = true →
        ∃ entry ∈ σ.shared, crates.publicKey entry.1.signingKey = key ∧
          entry.2.message crates entry.1.did = buildSigInput c.nonce.bytes response.clientEndpointId c.ownEndpointId.text
  | .outside (.sign _ (.sdk message)) => ¬ IsSigInput message
  | _ => True

def Separate (_ : Network crates) : NetworkEvent crates → Prop
  | .outside (.sign _ (.identityAuth nonce)) => ¬ IsSigInput (utf8 nonce)
  | _ => True

/-! ### What is signed outside of a handshake -/

theorem domainTag_starts {message : Bytes} (h : IsSigInput message) : domainTag <+: message := by
  obtain ⟨nonce, client, server, rfl⟩ := h
  rw [buildSigInput_eq]
  exact List.prefix_append _ _

theorem tag_starts {text : String} (h : IsSigInput (utf8 text)) : "haex-did-auth/v1".toList <+: text.toList := by
  have hbytes := domainTag_starts h
  rw [domainTag, utf8_eq, utf8_eq] at hbytes
  exact prefix_of_utf8 hbytes

theorem slash_of_sigInput {text : String} (h : IsSigInput (utf8 text)) : '/' ∈ text.toList :=
  (tag_starts h).subset (by decide)

theorem not_sigInput_of_did {did text : String} {key : Bytes} (hkey : publicKeyFromDid crates.toCrates did = .ok key)
    (hdid : did.toList <+: text.toList) : ¬ IsSigInput (utf8 text) := by
  intro h
  obtain ⟨rest, hrest, -⟩ := bind_eq_ok.1 hkey
  obtain ⟨suffix, hsuffix, -⟩ := Option.map_eq_some_iff.1 (okOr_eq_ok.1 hrest)
  have hkeyPrefix : "did:key:".toList <+: text.toList :=
    List.IsPrefix.trans ⟨suffix, List.isPrefixOf?_eq_some_iff_append_eq.1 hsuffix⟩ hdid
  obtain ⟨s, hs⟩ := hkeyPrefix
  obtain ⟨s', hs'⟩ := tag_starts h
  rw [← hs'] at hs
  exact absurd (congrArg List.head? hs) (by simp)

theorem sigInput_length {nonce : Nonce} {client server : String} :
    nonceLen < (buildSigInput nonce.bytes client server).length := by
  have htag : domainTag.length = 16 := by decide
  have := nonce.length
  simp only [buildSigInput, List.length_append, be32, List.length_cons, List.length_nil, htag]
  omega

theorem not_sigInput_of_use {identity : Identity crates} {use : OtherUse}
    (hauth : ∀ nonce, use = .identityAuth nonce → ¬ IsSigInput (utf8 nonce))
    (hsdk : ∀ message, use = .sdk message → ¬ IsSigInput message) : ¬ IsSigInput (use.message crates identity.did) := by
  cases use with
  | identityAuth nonce => exact hauth nonce rfl
  | sdk message => exact hsdk message rfl
  | ucan header payload =>
    intro h
    have hslash := slash_of_sigInput h
    simp only [String.toList_append, List.mem_append] at hslash
    rcases hslash with (hslash | hslash) | hslash
    · exact crates.base64Url_plain header hslash
    · exact absurd hslash (by decide)
    · exact crates.base64Url_plain payload hslash
  | didAuthHeader payload => exact fun h => crates.base64Url_plain payload (slash_of_sigInput h)
  | claimPresentation timestamp sortedEntries =>
    refine not_sigInput_of_did identity.key_of_did ?_
    rw [String.intercalate_cons_cons]
    simp
  | importIdentity challenge =>
    rintro ⟨nonce, client, server, h⟩
    have hlen := congrArg List.length h
    have := @sigInput_length nonce client server
    have := challenge.length
    simp only [OtherUse.message] at hlen
    omega

/-! ### Each step -/

/-- The answers in the log have nonces and servers of the size a challenge has; nothing else in it is an input. -/
def WellLogged (log : KeyLog crates) : Prop :=
  ∀ entry ∈ log, match entry.2 with
    | .respond _ nonce serverEndpointId => nonce.length = nonceLen ∧ (utf8 serverEndpointId).length ≤ maxMessageSize
    | .other use => ¬ IsSigInput (use.message crates entry.1.did)

variable {honest : Bytes → Prop} {log : KeyLog crates} {c : Session}

theorem WellLogged.record {σ : Network crates} {e : KeyEvent crates} (h : WellLogged σ.shared)
    (hunforged : Unforged honest σ (.outside e)) (hseparate : Separate σ (.outside e)) :
    WellLogged (σ.shared.record e) := by
  cases e with
  | challenge identity ownEndpointId stream =>
    cases hread : readChallenge crates stream with
    | error e =>
      simp only [KeyLog.record, hread]
      exact h
    | ok answer =>
      intro entry hentry
      simp only [KeyLog.record, hread, List.mem_append, List.mem_singleton] at hentry
      rcases hentry with hentry | rfl
      · exact h entry hentry
      · exact readChallenge_ok hread
  | sign identity use =>
    intro entry hentry
    simp only [KeyLog.record, List.mem_append, List.mem_singleton] at hentry
    rcases hentry with hentry | rfl
    · exact h entry hentry
    · refine not_sigInput_of_use ?_ ?_
      · rintro nonce rfl
        exact hseparate
      · rintro message rfl
        exact hunforged

theorem subset_record {e : KeyEvent crates} : log ⊆ log.record e := by
  cases e with
  | challenge identity ownEndpointId stream =>
    simp only [KeyLog.record]
    split
    · exact List.subset_append_left _ _
    · exact List.Subset.refl _
  | sign => exact List.subset_append_left _ _

theorem Agrees.mono {log' : KeyLog crates} (h : Agrees honest log c) (hlog : log ⊆ log') : Agrees honest log' c := by
  intro did key hres hkey hhonest
  obtain ⟨identity, own, hid, hown, hmem⟩ := h did key hres hkey hhonest
  exact ⟨identity, own, hid, hown, hlog hmem⟩

theorem WellLogged.respond {entry : Identity crates × KeyUse} {nonce : Nonce} {client server : EndpointId}
    (h : WellLogged log) (hentry : entry ∈ log)
    (hmessage : entry.2.message crates entry.1.did = buildSigInput nonce.bytes client.text server.text) :
    ∃ ownEndpointId, ownEndpointId.text = client.text ∧ entry.2 = .respond ownEndpointId nonce.bytes server.text := by
  obtain ⟨identity, use⟩ := entry
  have hwell := h _ hentry
  cases use with
  | other use => exact absurd ⟨nonce, client.text, server.text, hmessage⟩ hwell
  | respond own nonce' server' =>
    have hsmall : nonceLen < 2 ^ 32 ∧ maxMessageSize < 2 ^ 32 := by decide
    obtain ⟨rfl, hown, rfl⟩ := buildSigInput_inj (hwell.1 ▸ hsmall.1) own.short (Nat.lt_of_le_of_lt hwell.2 hsmall.2)
      (nonce.length ▸ hsmall.1) client.short server.short hmessage
    exact ⟨own, hown, rfl⟩

theorem agrees_answered {σ : Network crates} {i : Nat} {stream : Option Bytes} (hlog : WellLogged σ.shared)
    (hunforged : Unforged honest σ (.resume i stream)) (hi : σ.calls[i]? = some c) (h : Agrees honest σ.shared c) :
    Agrees honest σ.shared (c.answered crates stream) := by
  cases hres : c.result with
  | some r =>
    simp only [Session.answered, hres]
    exact h
  | none =>
    simp only [Session.answered, hres]
    intro did key hresult hkey hhonest
    obtain ⟨bytes, response, rfl, hread, hverify⟩ := awaitResponse_ok.1 (Option.some.inj hresult)
    obtain ⟨-, hclient, rfl, key', signature, hkey', hsig, -, hstrict⟩ := verifyResponse_ok.1 hverify
    obtain rfl : key' = key := Except.ok.inj (hkey'.symm.trans hkey)
    rw [← hclient] at hstrict
    obtain ⟨entry, hentry, hsigner, hmessage⟩ := hunforged c response key' signature hi hres hread hkey hhonest hsig hstrict
    rw [hclient] at hmessage
    obtain ⟨own, hown, huse⟩ := hlog.respond hentry hmessage
    exact ⟨entry.1, own, hsigner, hown, huse ▸ hentry⟩

theorem keeps (honest : Bytes → Prop) : Calls.Keeps (machine crates) WellLogged (Agrees honest)
    (fun σ e => Unforged honest σ e ∧ Separate σ e) where
  start σ conn _ _ := by
    simp only [machine, Session.opened]
    split
    all_goals rintro did key ⟨⟩
  own σ i stream c h hG hi hc := ⟨h.shared, agrees_answered h.shared hG.1 hi hc⟩
  other σ i stream c d _ _ _ _ hd := hd
  outside σ e h hG := ⟨h.shared.record hG.1 hG.2, fun c hc => (h.calls c hc).mono subset_record⟩

/-- A server that takes a DID of an honest key agrees with its holder on the nonce and on both endpoints, whatever the
network does, as long as no home server has an input of a handshake signed; and fields below 2^32 bytes are read back from
an input. -/
theorem authentication_agrees {es : List (NetworkEvent crates)}
    (h : Guarded (step crates) (fun σ e => Unforged honest σ e ∧ Separate σ e) ⟨[], []⟩ es) :
    (∀ c ∈ (run (step crates) ⟨[], []⟩ es).calls, Agrees honest (run (step crates) ⟨[], []⟩ es).shared c) ∧
      ∀ nonce nonce' client client' server server', nonce.length < 2 ^ 32 → (utf8 client).length < 2 ^ 32 →
        (utf8 server).length < 2 ^ 32 → nonce'.length < 2 ^ 32 → (utf8 client').length < 2 ^ 32 →
        (utf8 server').length < 2 ^ 32 → buildSigInput nonce client server = buildSigInput nonce' client' server' →
        (nonce, client, server) = (nonce', client', server') := by
  have hinit : Calls.Each WellLogged (Agrees honest) (⟨[], []⟩ : Network crates) := ⟨by rintro entry ⟨⟩, by rintro c ⟨⟩⟩
  refine ⟨((keeps honest).run h hinit).calls, ?_⟩
  intro nonce nonce' client client' server server' hn hc hs hn' hc' hs' heq
  obtain ⟨rfl, rfl, rfl⟩ := buildSigInput_inj hn hc hs hn' hc' hs' heq
  rfl

/-! ## Two runs of one handshake -/

section OneUse
variable {conn : Connection} {identity : Identity crates} {use : KeyUse} {e : KeyEvent crates}
  {challengeJson responseJson : Bytes}

def oneUse (conn : Connection) (e : KeyEvent crates) (responseJson : Bytes) : List (NetworkEvent crates) :=
  [.start conn, .outside e, .resume 0 (some (lengthPrefixed.frame responseJson))]

theorem run_oneUse (hcarries : crates.Carries identity.did identity.signingKey conn.nonce.bytes conn.remoteEndpointId.text
      conn.ownEndpointId.text challengeJson responseJson) (hrecord : KeyLog.record [] e = [(identity, use)]) :
    run (step crates) ⟨[], []⟩ (oneUse conn e responseJson) =
      ⟨[(identity, use)], [{ conn with result := some (.ok identity.did) }]⟩ := by
  have hopened : Session.opened crates conn = { conn with } := by
    simp [Session.opened, (hcarries.reads conn.nonce.length).1]
  have hanswered : ({ conn with } : Session).answered crates (some (lengthPrefixed.frame responseJson)) =
      { conn with result := some (.ok identity.did) } := by
    simp [Session.answered, (hcarries.completes conn.nonce.length identity.key_of_did).2]
  have hstart : step crates ⟨[], []⟩ (.start conn) = ⟨[], [{ conn with }]⟩ := by
    simp [Calls.Machine.step, machine, hopened]
  have huse : step crates ⟨[], [{ conn with }]⟩ (.outside e) = ⟨[(identity, use)], [{ conn with }]⟩ := by
    simp [Calls.Machine.step, machine, hrecord]
  have hresume : step crates ⟨[(identity, use)], [{ conn with }]⟩
      (.resume 0 (some (lengthPrefixed.frame responseJson))) =
      ⟨[(identity, use)], [{ conn with result := some (.ok identity.did) }]⟩ := by
    have hcall : (⟨[(identity, use)], [{ conn with }]⟩ : Network crates).calls[0]? =
        some ({ conn with } : Session) := rfl
    refine (Calls.step_resume hcall _).trans ?_
    simp [machine, hanswered]
  rw [oneUse, run_cons, hstart, run_cons, huse, run_cons, hresume, run_nil]

theorem unforged_oneUse (hcarries : crates.Carries identity.did identity.signingKey conn.nonce.bytes
      conn.remoteEndpointId.text conn.ownEndpointId.text challengeJson responseJson)
    (hrecord : KeyLog.record [] e = [(identity, use)])
    (hmessage : use.message crates identity.did =
      buildSigInput conn.nonce.bytes conn.remoteEndpointId.text conn.ownEndpointId.text)
    (hkeep : Unforged honest ⟨[], [Session.opened crates conn]⟩ (.outside e)) :
    Guarded (step crates) (Unforged honest) ⟨[], []⟩ (oneUse conn e responseJson) := by
  refine ⟨trivial, hkeep, ?_, trivial⟩
  intro c response key signature hc _ hread hkey _ _ _
  have hsession : Session.opened crates conn = { conn with } := by
    simp [Session.opened, (hcarries.reads conn.nonce.length).1]
  obtain rfl : Session.opened crates conn = c := Option.some.inj hc
  obtain rfl := Except.ok.inj ((readMessage_frame hcarries.response_fits hcarries.response_read).symm.trans hread)
  have hentry : (identity, use) ∈ KeyLog.record [] e := hrecord ▸ List.mem_singleton_self _
  refine ⟨(identity, use), hentry, Except.ok.inj (identity.key_of_did.symm.trans hkey), ?_⟩
  rw [hsession]
  exact hmessage

end OneUse

def sampleConn : Connection where
  ownEndpointId := ⟨"5555555555555555555555555555555555555555555555555555555555555555", by decide⟩
  remoteEndpointId := ⟨"cccccccccccccccccccccccccccccccccccccccccccccccccccccccccccccccc", by decide +kernel⟩
  nonce := ⟨utf8 "0123456789abcdef0123456789ABCDEF", rfl⟩

def sampleText : String :=
  "haex-did-auth/v1\x00\x00\x00 0123456789abcdef0123456789ABCDEF\x00\x00\x00@" ++ sampleConn.remoteEndpointId.text ++
    "\x00\x00\x00@" ++ sampleConn.ownEndpointId.text

theorem sampleText_eq : utf8 sampleText =
    buildSigInput sampleConn.nonce.bytes sampleConn.remoteEndpointId.text sampleConn.ownEndpointId.text := by
  decide +kernel

def sampleSignature : Bytes := [54, 189, 99, 44, 160, 50, 105, 179, 197, 149, 84, 11, 71, 46, 74, 73, 33, 137, 205, 167,
  185, 101, 112, 87, 109, 109, 175, 119, 190, 106, 77, 93, 114, 89, 225, 161, 188, 189, 83, 171, 39, 33, 98, 85, 11, 81,
  188, 88, 91, 73, 81, 67, 203, 2, 124, 133, 73, 241, 172, 67, 81, 178, 215, 11]

def sampleSignatureText : String := "Nr1jLKAyabPFlVQLRy5KSSGJzae5ZXBXbW2vd75qTV1yWeGhvL1TqychYlULUbxYW0lRQ8sCfIVJ8axDUbLXCw=="

def sampleNonceText : String := "MDEyMzQ1Njc4OWFiY2RlZjAxMjM0NTY3ODlBQkNERUY="

def sampleChallenge : Challenge := ⟨1, sampleNonceText, sampleConn.ownEndpointId.text⟩

def sampleResponse : Response := ⟨1, memberKey.did, sampleConn.remoteEndpointId.text, sampleSignatureText⟩

def sampleChallengeJson : Bytes := utf8 ("\x7b\"v\":1,\"nonce\":\"" ++ sampleNonceText ++ "\",\"server_endpoint_id\":\"" ++
  sampleConn.ownEndpointId.text ++ "\"\x7d")

def sampleResponseJson : Bytes := utf8 ("\x7b\"v\":1,\"did\":\"" ++ memberKey.did ++ "\",\"client_endpoint_id\":\"" ++
  sampleConn.remoteEndpointId.text ++ "\",\"signature\":\"" ++ sampleSignatureText ++ "\"\x7d")

set_option maxRecDepth 10000 in
theorem sampleCrates_plain (bytes : Bytes) : '/' ∉ (sampleCrates.base64UrlEncode bytes).toList := by
  have hall : ∀ e ∈ Space.encodings, '/' ∉ e.2.toList := by
    simp only [Space.encodings, List.forall_mem_cons, List.not_mem_nil, false_implies, implies_true, and_true]
    refine ⟨?_, ?_, ?_, ?_, ?_⟩
    all_goals exact Space.not_mem_toList rfl (by decide)
  simp only [sampleCrates]
  cases h : Space.encodings.find? (·.1 = bytes) with
  | none => exact List.not_mem_nil
  | some e => exact hall e (List.mem_of_find?_eq_some h)

/-- The crates on the bytes of this handshake. -/
def sampleHandshake : HandshakeCrates where
  toCrates := { sampleCrates with
    base64Decode := fun s =>
      if s = sampleNonceText then .ok sampleConn.nonce.bytes
      else if s = sampleSignatureText then .ok sampleSignature
      else .error "Invalid symbol" }
  base64Encode bytes := if bytes = sampleSignature then sampleSignatureText else sampleNonceText
  signBytes seed message := if seed = memberKey.seed && message = utf8 sampleText then sampleSignature else []
  verifyStrict key message signature :=
    key = memberKey.publicKey && message = utf8 sampleText && signature = sampleSignature
  challengeToVec c := if c = sampleChallenge then .ok sampleChallengeJson else .error "not a sample"
  challengeFromSlice json := if json = sampleChallengeJson then .ok sampleChallenge else .error "expected value"
  responseToVec r := if r = sampleResponse then .ok sampleResponseJson else .error "not a sample"
  responseFromSlice json := if json = sampleResponseJson then .ok sampleResponse else .error "expected value"
  challenge_bounded json c h := by
    have hle : (utf8 sampleChallenge.serverEndpointId).length ≤ sampleChallengeJson.length := by decide +kernel
    split at h
    · cases h
      subst json
      exact hle
    · cases h
  base64Url_plain := sampleCrates_plain

def member : Identity sampleHandshake where
  did := memberKey.did
  signingKey := memberKey.seed
  key_of_did := by
    have h : publicKeyFromDid sampleCrates memberKey.did = .ok (sampleCrates.publicKey memberKey.seed) := rfl
    exact h

theorem sampleHandshake_carries : sampleHandshake.Carries member.did member.signingKey sampleConn.nonce.bytes
    sampleConn.remoteEndpointId.text sampleConn.ownEndpointId.text sampleChallengeJson sampleResponseJson := by
  have hsign : sampleHandshake.signBytes member.signingKey (buildSigInput sampleConn.nonce.bytes
      sampleConn.remoteEndpointId.text sampleConn.ownEndpointId.text) = sampleSignature := by
    simp [sampleHandshake, member, sampleText_eq]
  have hsigText : sampleHandshake.base64Encode sampleSignature = sampleSignatureText := by
    simp [sampleHandshake]
  have hne : sampleConn.nonce.bytes ≠ sampleSignature := by decide +kernel
  have hnonceText : sampleHandshake.base64Encode sampleConn.nonce.bytes = sampleNonceText := by
    simp [sampleHandshake, hne]
  have hchallenge : challenge sampleHandshake sampleConn.nonce.bytes sampleConn.ownEndpointId.text = sampleChallenge := by
    rw [challenge, hnonceText]
    rfl
  have hresponse : (⟨protocolVersion, member.did, sampleConn.remoteEndpointId.text, sampleSignatureText⟩ : Response) =
    sampleResponse := rfl
  have htexts : sampleSignatureText ≠ sampleNonceText := by decide
  refine
    { challenge_written := ?_, challenge_read := ?_, challenge_fits := by decide +kernel, nonce_read := ?_,
      response_written := ?_, response_read := ?_, response_fits := by decide +kernel, signature_read := ?_,
      signature_length := ?_, verifies := ?_ }
  · rw [hchallenge]
    simp [sampleHandshake]
  · rw [hchallenge]
    simp [sampleHandshake]
  · rw [hnonceText]
    simp [sampleHandshake]
  · rw [hsign, hsigText, hresponse]
    simp [sampleHandshake]
  · rw [hsign, hsigText, hresponse]
    simp [sampleHandshake]
  · rw [hsign, hsigText]
    simp [sampleHandshake, htexts]
  · rw [hsign]
    decide
  · have hkey : sampleHandshake.publicKey member.signingKey = memberKey.publicKey := by decide
    rw [hsign, hkey]
    simp [sampleHandshake, sampleText_eq]

def memberAnswers : List (NetworkEvent sampleHandshake) := oneUse sampleConn
  (.challenge member sampleConn.remoteEndpointId (lengthPrefixed.frame sampleChallengeJson)) sampleResponseJson

theorem authentication_agrees_member :
    (∀ c ∈ (run (step sampleHandshake) ⟨[], []⟩ memberAnswers).calls,
        Agrees (fun _ => True) (run (step sampleHandshake) ⟨[], []⟩ memberAnswers).shared c) ∧
      (run (step sampleHandshake) ⟨[], []⟩ memberAnswers).calls = [{ sampleConn with result := some (.ok memberKey.did) }] := by
  have hcarries := sampleHandshake_carries
  have hrecord : KeyLog.record [] (.challenge member sampleConn.remoteEndpointId (lengthPrefixed.frame sampleChallengeJson)) =
      [(member, .respond sampleConn.remoteEndpointId sampleConn.nonce.bytes sampleConn.ownEndpointId.text)] := by
    simp only [KeyLog.record, (hcarries.reads sampleConn.nonce.length).2, List.nil_append]
  have hunforged : Guarded (step sampleHandshake) (Unforged fun _ => True) ⟨[], []⟩ memberAnswers :=
    unforged_oneUse hcarries hrecord rfl trivial
  have hseparate : Guarded (step sampleHandshake) Separate ⟨[], []⟩ memberAnswers :=
    ⟨trivial, trivial, trivial, trivial⟩
  exact ⟨(authentication_agrees (hunforged.and hseparate)).1, congrArg Calls.Sys.calls (run_oneUse hcarries hrecord)⟩

/-- A home server has the member sign the input of a handshake that they never answered. -/
theorem home_server_authenticates : ∃ es, Guarded (step sampleHandshake) (Unforged fun _ => True) ⟨[], []⟩ es ∧
    ∃ c ∈ (run (step sampleHandshake) ⟨[], []⟩ es).calls,
      ¬ Agrees (fun _ => True) (run (step sampleHandshake) ⟨[], []⟩ es).shared c := by
  have hcarries := sampleHandshake_carries
  have hrecord : KeyLog.record [] (.sign member (.identityAuth sampleText)) = [(member, .other (.identityAuth sampleText))] :=
    rfl
  have hrun := run_oneUse hcarries hrecord
  refine ⟨oneUse sampleConn (.sign member (.identityAuth sampleText)) sampleResponseJson,
    unforged_oneUse hcarries hrecord sampleText_eq trivial, ?_⟩
  rw [hrun]
  refine ⟨_, List.mem_singleton_self _, fun h => ?_⟩
  obtain ⟨identity, own, -, -, hmem⟩ := h member.did _ rfl member.key_of_did trivial
  cases List.mem_singleton.1 hmem

end Network

end HaexVault.QuicDidAuth
