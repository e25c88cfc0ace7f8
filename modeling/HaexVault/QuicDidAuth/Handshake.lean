import HaexVault.QuicDidAuth.Wire
/-!
# The DID handshake (`quic_did_auth/server.rs`, `quic_did_auth/client.rs`)

`challenge_and_verify` draws a nonce and takes the DID of the response when its key signed the nonce
and both endpoint ids. The id of the client comes from the transport; the client signs with the id of
its own endpoint and the one the challenge names.
-/

namespace HaexVault.QuicDidAuth

open HaexVault.Lib HaexVault.Lib.Steps
open HaexVault.Space (Bytes Crates publicKeyFromDid utf8)

inductive ChallengeError where
  | wireProtocol (reason : String)
  | unsupportedVersion (v : UInt32)
  | endpointIdMismatch (announced actual : String)
  | malformedDid (reason : String)
  | malformedBase64
  | nonceLength (expected got : Nat)
  | signatureInvalid
  | timeout

/-- The texts of the errors. -/
def ChallengeError.display : ChallengeError → String
  | wireProtocol reason => "wire protocol error: " ++ reason
  | unsupportedVersion v => "unsupported protocol version: " ++ toString v
  | endpointIdMismatch announced actual =>
    "client endpoint id mismatch: announced " ++ announced ++ ", actual " ++ actual
  | malformedDid reason => "malformed DID: " ++ reason
  | malformedBase64 => "malformed base64 in nonce or signature"
  | nonceLength expected got =>
    "nonce length must be " ++ toString expected ++ " bytes, got " ++ toString got
  | signatureInvalid => "signature verification failed"
  | timeout => "timeout waiting for client response"

/-- The functions of the crates the handshake goes through. -/
structure HandshakeCrates extends Crates where
  base64Encode : Bytes → String
  signBytes : Bytes → Bytes → Bytes
  verifyStrict : Bytes → Bytes → Bytes → Bool
  challengeToVec : Challenge → Except String Bytes
  challengeFromSlice : Bytes → Except String Challenge
  responseToVec : Response → Except String Bytes
  responseFromSlice : Bytes → Except String Response
  /-- A JSON text is no shorter than a string in it. -/
  challenge_bounded : ∀ json c, challengeFromSlice json = .ok c → (utf8 c.serverEndpointId).length ≤ json.length
  /-- The URL-safe alphabet. -/
  base64Url_plain : ∀ bytes, '/' ∉ (base64UrlEncode bytes).toList

structure EndpointId where
  text : String
  short : (utf8 text).length < 2 ^ 32

structure Nonce where
  bytes : Bytes
  length : bytes.length = nonceLen

/-! ## Messages on a stream -/

def writeMessage (json : Except String Bytes) : Except ChallengeError Bytes := do
  let json ← json.mapError .wireProtocol
  ensure (json.length ≤ maxMessageSize) (.wireProtocol ("outgoing message too large: " ++ toString json.length ++
    " bytes (max " ++ toString maxMessageSize ++ ")"))
  .ok (lengthPrefixed.frame json)

def readMessage {α : Type} (fromSlice : Bytes → Except String α) (stream : Bytes) : Except ChallengeError α := do
  ensure (4 ≤ stream.length) (.wireProtocol "early eof")
  let len := fromBe32 (stream.take 4)
  ensure (len ≤ maxMessageSize) (.wireProtocol ("incoming message too large: " ++ toString len ++ " bytes (max " ++
    toString maxMessageSize ++ ")"))
  ensure (len ≤ (stream.drop 4).length) (.wireProtocol "early eof")
  (fromSlice ((stream.drop 4).take len)).mapError .wireProtocol

/-! ## The two sides -/

section Sides
variable (crates : HandshakeCrates)

/-- The challenge of `challenge_and_verify`. -/
def challenge (nonce : Bytes) (ownEndpointId : String) : Challenge where
  v := protocolVersion
  nonce := crates.base64Encode nonce
  serverEndpointId := ownEndpointId

def verifyResponse (response : Response) (expectedNonce : Bytes) (remoteEndpointId serverEndpointId : String) :
    Except ChallengeError String := do
  ensure (response.v = protocolVersion) (.unsupportedVersion response.v)
  ensure (response.clientEndpointId = remoteEndpointId) (.endpointIdMismatch response.clientEndpointId remoteEndpointId)
  let verifyingKey ← (publicKeyFromDid crates.toCrates response.did).mapError fun e => .malformedDid e.display
  let sigBytes ← (crates.base64Decode response.signature).mapError fun _ => .malformedBase64
  ensure (sigBytes.length = 64) .signatureInvalid
  let sigInput := buildSigInput expectedNonce response.clientEndpointId serverEndpointId
  ensure (crates.verifyStrict verifyingKey sigInput sigBytes) .signatureInvalid
  .ok response.did

/-- `challenge_and_verify` once its challenge is sent; nothing arrives when it runs out of time. -/
def awaitResponse (stream : Option Bytes) (nonce : Bytes) (ownEndpointId remoteEndpointId : String) :
    Except ChallengeError String := do
  let stream ← match stream with
    | some stream => .ok stream
    | none => .error .timeout
  let response ← readMessage crates.responseFromSlice stream
  verifyResponse crates response nonce remoteEndpointId ownEndpointId

/-- `respond_to_challenge` before it signs: the nonce and the server of a challenge. -/
def readChallenge (stream : Bytes) : Except ChallengeError (Bytes × String) := do
  let challenge ← readMessage crates.challengeFromSlice stream
  ensure (challenge.v = protocolVersion) (.unsupportedVersion challenge.v)
  let nonceBytes ← (crates.base64Decode challenge.nonce).mapError fun _ => .malformedBase64
  ensure (nonceBytes.length = nonceLen) (.nonceLength nonceLen nonceBytes.length)
  .ok (nonceBytes, challenge.serverEndpointId)

def respondToChallenge (stream : Bytes) (myDid : String) (mySigningKey : Bytes) (ownEndpointId : String) :
    Except ChallengeError Bytes := do
  let (nonceBytes, serverEndpointId) ← readChallenge crates stream
  let signature := crates.signBytes mySigningKey (buildSigInput nonceBytes ownEndpointId serverEndpointId)
  writeMessage (crates.responseToVec ⟨protocolVersion, myDid, ownEndpointId, crates.base64Encode signature⟩)

end Sides

section Spec
variable {crates : HandshakeCrates} {stream nonce nonceBytes : Bytes} {own remote did serverEndpointId : String}

theorem readMessage_ok {α : Type} {fromSlice : Bytes → Except String α} {a : α}
    (h : readMessage fromSlice stream = .ok a) : ∃ json, json.length ≤ maxMessageSize ∧ fromSlice json = .ok a := by
  unfold readMessage at h
  simp only [bind_eq_ok, ensure_ok, mapError_eq_ok, decide_eq_true_eq] at h
  obtain ⟨-, -, -, hlen, -, -, hjson⟩ := h
  exact ⟨_, Nat.le_trans (List.length_take_le _ _) hlen, hjson⟩

theorem verifyResponse_ok {response : Response} : verifyResponse crates response nonce remote own = .ok did ↔
    response.v = protocolVersion ∧ response.clientEndpointId = remote ∧ response.did = did ∧
      ∃ key signature, publicKeyFromDid crates.toCrates did = .ok key ∧ crates.base64Decode response.signature = .ok signature ∧
        signature.length = 64 ∧ crates.verifyStrict key (buildSigInput nonce remote own) signature = true := by
  unfold verifyResponse
  simp only [bind_eq_ok, ensure_ok, mapError_eq_ok, decide_eq_true_eq]
  constructor
  · rintro ⟨-, hv, -, rfl, key, hkey, signature, hsig, -, hlen, -, hverify, h⟩
    cases h
    exact ⟨hv, rfl, rfl, key, signature, hkey, hsig, hlen, hverify⟩
  · rintro ⟨hv, rfl, rfl, key, signature, hkey, hsig, hlen, hverify⟩
    exact ⟨(), hv, (), rfl, key, hkey, signature, hsig, (), hlen, (), hverify, rfl⟩

theorem awaitResponse_ok {stream : Option Bytes} : awaitResponse crates stream nonce own remote = .ok did ↔
    ∃ bytes response, stream = some bytes ∧ readMessage crates.responseFromSlice bytes = .ok response ∧
      verifyResponse crates response nonce remote own = .ok did := by
  unfold awaitResponse
  cases stream with
  | none | some bytes => simp [bind_eq_ok]

theorem readChallenge_ok (h : readChallenge crates stream = .ok (nonceBytes, serverEndpointId)) :
    nonceBytes.length = nonceLen ∧ (utf8 serverEndpointId).length ≤ maxMessageSize := by
  unfold readChallenge at h
  simp only [bind_eq_ok, ensure_ok, mapError_eq_ok, decide_eq_true_eq] at h
  obtain ⟨c, hread, -, -, nonceBytes', -, -, hlen, h⟩ := h
  cases h
  obtain ⟨json, hjson, hslice⟩ := readMessage_ok hread
  exact ⟨hlen, Nat.le_trans (crates.challenge_bounded json c hslice) hjson⟩

theorem readMessage_frame {α : Type} {fromSlice : Bytes → Except String α} {json : Bytes} {a : α}
    (hlen : json.length ≤ maxMessageSize) (h : fromSlice json = .ok a) :
    readMessage fromSlice (lengthPrefixed.frame json) = .ok a := by
  have hsmall : maxMessageSize < 2 ^ 32 := by decide
  have hfour : (be32 json.length).length = 4 := rfl
  have htake : (lengthPrefixed.frame json).take 4 = be32 json.length := List.take_left' hfour
  have hdrop : (lengthPrefixed.frame json).drop 4 = json := List.drop_left' hfour
  have hlong : 4 ≤ (lengthPrefixed.frame json).length := by
    simp only [Framing.frame, lengthPrefixed, List.length_append, hfour]
    omega
  have hread : fromBe32 (be32 json.length) = json.length := fromBe32_be32 (Nat.lt_of_le_of_lt hlen hsmall)
  unfold readMessage
  simp only [bind_eq_ok, ensure_ok, mapError_eq_ok, decide_eq_true_eq, htake, hdrop, hread, List.take_length]
  exact ⟨(), hlong, (), hlen, (), Nat.le_refl _, h⟩

end Spec

/-! ## A handshake that nobody disturbs -/

/-- What the crates promise about one handshake: both messages fit and are read back, and the signature is 64 bytes and
verifies. -/
structure HandshakeCrates.Carries (crates : HandshakeCrates) (did : String) (signingKey nonce : Bytes) (client server : String)
    (challengeJson responseJson : Bytes) : Prop where
  challenge_written : crates.challengeToVec (challenge crates nonce server) = .ok challengeJson
  challenge_read : crates.challengeFromSlice challengeJson = .ok (challenge crates nonce server)
  challenge_fits : challengeJson.length ≤ maxMessageSize
  nonce_read : crates.base64Decode (crates.base64Encode nonce) = .ok nonce
  response_written : crates.responseToVec ⟨protocolVersion, did, client,
    crates.base64Encode (crates.signBytes signingKey (buildSigInput nonce client server))⟩ = .ok responseJson
  response_read : crates.responseFromSlice responseJson = .ok ⟨protocolVersion, did, client,
    crates.base64Encode (crates.signBytes signingKey (buildSigInput nonce client server))⟩
  response_fits : responseJson.length ≤ maxMessageSize
  signature_read : crates.base64Decode (crates.base64Encode (crates.signBytes signingKey (buildSigInput nonce client server))) =
    .ok (crates.signBytes signingKey (buildSigInput nonce client server))
  signature_length : (crates.signBytes signingKey (buildSigInput nonce client server)).length = 64
  verifies : crates.verifyStrict (crates.publicKey signingKey) (buildSigInput nonce client server)
    (crates.signBytes signingKey (buildSigInput nonce client server)) = true

section Completes
variable {crates : HandshakeCrates} {did client server : String} {signingKey nonce challengeJson responseJson : Bytes}

theorem HandshakeCrates.Carries.reads (h : crates.Carries did signingKey nonce client server challengeJson responseJson)
    (hnonce : nonce.length = nonceLen) :
    writeMessage (crates.challengeToVec (challenge crates nonce server)) = .ok (lengthPrefixed.frame challengeJson) ∧
      readChallenge crates (lengthPrefixed.frame challengeJson) = .ok (nonce, server) := by
  constructor
  · unfold writeMessage
    simp only [bind_eq_ok, ensure_ok, mapError_eq_ok, decide_eq_true_eq]
    exact ⟨_, h.challenge_written, (), h.challenge_fits, rfl⟩
  · unfold readChallenge
    simp only [bind_eq_ok, ensure_ok, mapError_eq_ok, decide_eq_true_eq]
    exact ⟨_, readMessage_frame h.challenge_fits h.challenge_read, (), rfl, nonce, h.nonce_read, (), hnonce, rfl⟩

theorem HandshakeCrates.Carries.completes (h : crates.Carries did signingKey nonce client server challengeJson responseJson)
    (hnonce : nonce.length = nonceLen) (hkey : publicKeyFromDid crates.toCrates did = .ok (crates.publicKey signingKey)) :
    respondToChallenge crates (lengthPrefixed.frame challengeJson) did signingKey client =
        .ok (lengthPrefixed.frame responseJson) ∧
      awaitResponse crates (some (lengthPrefixed.frame responseJson)) nonce server client = .ok did := by
  constructor
  · unfold respondToChallenge writeMessage
    simp only [bind_eq_ok, ensure_ok, mapError_eq_ok, decide_eq_true_eq]
    exact ⟨_, (h.reads hnonce).2, _, h.response_written, (), h.response_fits, rfl⟩
  · exact awaitResponse_ok.2 ⟨_, _, rfl, readMessage_frame h.response_fits h.response_read,
      verifyResponse_ok.2 ⟨rfl, rfl, rfl, _, _, hkey, h.signature_read, h.signature_length, h.verifies⟩⟩

end Completes

end HaexVault.QuicDidAuth
