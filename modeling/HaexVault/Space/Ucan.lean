import Mathlib.Data.List.Basic
import HaexVault.Crdt.Sql
import HaexVault.Lib.Keyed
import HaexVault.Lib.Steps
/-!
# UCAN tokens (`ucan/create.rs`, `ucan/verify.rs`)

A token is `header.payload.signature`. `validateToken` checks its structure, the signature of the
issuer it names itself, and its expiry. Nothing looks at the proofs (`prf`) or asks whether the issuer
may grant what the payload says. The crates it uses come in through `Crates`.
-/

namespace HaexVault.Space

open HaexVault.Crdt (JsonNumber)
open HaexVault.Lib HaexVault.Lib.Steps

abbrev Bytes := List UInt8

/-- `serde_json::Value`. -/
inductive Json where
  | null
  | bool (b : Bool)
  | number (n : JsonNumber)
  | string (s : String)
  | array (items : List Json)
  | object (entries : List (String × Json))

namespace Json

def index : Json → String → Json
  | .object entries, key => (entries.lookup key).getD .null
  | _, _ => .null

def asStr : Json → Option String
  | .string s => some s
  | _ => none

def asU64 : Json → Option Nat
  | .number (.posInt n) => some n.toNat
  | _ => none

def asObject : Json → Option (List (String × Json))
  | .object entries => some entries
  | _ => none

end Json

/-- The functions of the crates a token goes through. A key is its 32 bytes. -/
structure Crates where
  base64UrlDecode : String → Except String Bytes
  base64UrlEncode : Bytes → String
  base64Decode : String → Except String Bytes
  fromSlice : Bytes → Except String Json
  toBytes : Json → Bytes
  bs58Decode : String → Except String Bytes
  /-- `VerifyingKey::from_bytes`. -/
  verifyingKey : Bytes → Except String Bytes
  verify : Bytes → String → Bytes → Bool
  /-- The signature of a message by the key with this seed. -/
  sign : Bytes → String → Bytes
  publicKey : Bytes → Bytes

/-! ## Capability levels -/

inductive CapabilityLevel where
  | read
  | write
  | invite
  | admin
  deriving DecidableEq

namespace CapabilityLevel

def rank : CapabilityLevel → Nat
  | read => 1
  | write => 2
  | invite => 3
  | admin => 4

instance : LE CapabilityLevel := ⟨fun a b => a.rank ≤ b.rank⟩
instance (a b : CapabilityLevel) : Decidable (a ≤ b) := inferInstanceAs (Decidable (a.rank ≤ b.rank))

@[simp] theorem read_le (a : CapabilityLevel) : read ≤ a := by cases a <;> decide
@[simp] theorem le_admin (a : CapabilityLevel) : a ≤ admin := by cases a <;> decide

def fromCapabilityString : String → Option CapabilityLevel
  | "space/read" => some read
  | "space/write" => some write
  | "space/invite" => some invite
  | "space/admin" => some admin
  | _ => none

/-- The `Debug` name. -/
def name : CapabilityLevel → String
  | read => "Read"
  | write => "Write"
  | invite => "Invite"
  | admin => "Admin"

end CapabilityLevel

structure ValidatedUcan where
  issuer : String
  audience : String
  /-- Space id to capability level. -/
  capabilities : List (String × CapabilityLevel)
  expiresAt : Nat
  deriving DecidableEq

inductive UcanVerifyError where
  | malformedToken (reason : String)
  | invalidSignature
  | expired
  | audienceMismatch (expected actual : String)
  | emptyExpectedAudience
  | missingCapability (spaceId : String)
  | insufficientCapability (required actual : CapabilityLevel)
  | unknownCapability (capability : String)
  deriving DecidableEq

/-- The `Display` text. -/
def UcanVerifyError.display : UcanVerifyError → String
  | malformedToken reason => "Malformed token: " ++ reason
  | invalidSignature => "Invalid signature"
  | expired => "Token expired"
  | audienceMismatch expected actual => "Audience mismatch: expected " ++ expected ++ ", got " ++ actual
  | emptyExpectedAudience => "require_audience called with an empty expected audience"
  | missingCapability spaceId => "Missing capability for space " ++ spaceId
  | insufficientCapability required actual => "Insufficient capability: need " ++ required.name ++ ", have " ++ actual.name
  | unknownCapability capability => "Unknown capability: " ++ capability

/-! ## Validation -/

/-- `str::strip_prefix`. -/
def stripPre (pre s : String) : Option String := (pre.toList.isPrefixOf? s.toList).map String.ofList

def toArray (n : Nat) (reason : String) (bytes : Bytes) : Except UcanVerifyError Bytes :=
  if bytes.length = n then .ok bytes else .error (.malformedToken reason)

def ed25519Multicodec : Bytes := [0xed, 0x01]

/-- `Result::map_err` into a malformed token. -/
def malformed {α : Type} (context : String) : Except String α → Except UcanVerifyError α
  | .ok a => .ok a
  | .error e => .error (.malformedToken (context ++ ": " ++ e))

/-- `Option::ok_or_else`. -/
def okOr {ε α : Type} (e : ε) : Option α → Except ε α
  | some a => .ok a
  | none => .error e

theorem okOr_eq_ok {ε α : Type} {e : ε} {x : Option α} {a : α} : okOr e x = .ok a ↔ x = some a := by
  cases x with
  | none => simp [okOr]
  | some b => simp [okOr]

def publicKeyFromDid (crates : Crates) (did : String) : Except UcanVerifyError Bytes := do
  let multibaseKey ← okOr (.malformedToken "DID must start with did:key:") (stripPre "did:key:" did)
  let base58 ← okOr (.malformedToken "expected z (base58btc) prefix") (stripPre "z" multibaseKey)
  let decoded ← malformed "base58 decode" (crates.bs58Decode base58)
  ensure (decoded.take 2 = ed25519Multicodec) (.malformedToken "missing Ed25519 multicodec prefix 0xed01")
  let keyBytes ← toArray 32 "Ed25519 key must be 32 bytes" (decoded.drop 2)
  malformed "invalid Ed25519 key" (crates.verifyingKey keyBytes)

def parseCapability (entry : String × Json) : Except UcanVerifyError (Option (String × CapabilityLevel)) :=
  match stripPre "space:" entry.1 with
  | none => .ok none
  | some spaceId => do
    let capability ← okOr (.malformedToken "capability must be string") entry.2.asStr
    let level ← okOr (.unknownCapability capability) (CapabilityLevel.fromCapabilityString capability)
    .ok (some (spaceId, level))

def parseCapabilities (entries : List (String × Json)) : Except UcanVerifyError (List (String × CapabilityLevel)) := do
  let parsed ← entries.mapM parseCapability
  .ok (parsed.filterMap id)

/-- `validate_token`, at the time `now` in seconds. -/
def validateToken (crates : Crates) (now : Nat) (token : String) : Except UcanVerifyError ValidatedUcan :=
  match (token.toList.splitOn '.').map String.ofList with
  | [header, body, signature] => do
    let payloadBytes ← malformed "payload base64" (crates.base64UrlDecode body)
    let payload ← malformed "payload JSON" (crates.fromSlice payloadBytes)
    let issuer ← okOr (.malformedToken "missing iss") (payload.index "iss").asStr
    let key ← publicKeyFromDid crates issuer
    let sigBytes ← malformed "signature base64" (crates.base64UrlDecode signature)
    let sig ← toArray 64 "signature must be 64 bytes" sigBytes
    ensure (crates.verify key (header ++ "." ++ body) sig) .invalidSignature
    let exp ← okOr (.malformedToken "missing exp") (payload.index "exp").asU64
    ensure (now < exp) .expired
    let cap ← okOr (.malformedToken "missing cap object") (payload.index "cap").asObject
    let capabilities ← parseCapabilities cap
    .ok ⟨issuer, ((payload.index "aud").asStr).getD "", capabilities, exp⟩
  | _ => .error (.malformedToken "expected 3 dot-separated parts")

def requireAudience (validated : ValidatedUcan) (expected : String) : Except UcanVerifyError Unit :=
  if expected = "" then .error .emptyExpectedAudience
  else if validated.audience = expected then .ok ()
  else .error (.audienceMismatch expected validated.audience)

def requireNotExpired (validated : ValidatedUcan) (now : Nat) : Except UcanVerifyError Unit :=
  ensure (now < validated.expiresAt) .expired

def requireCapability (validated : ValidatedUcan) (spaceId : String) (required : CapabilityLevel) :
    Except UcanVerifyError Unit :=
  match validated.capabilities.lookup spaceId with
  | none => .error (.missingCapability spaceId)
  | some actual => if required ≤ actual then .ok () else .error (.insufficientCapability required actual)

def ValidatedUcan.Grants (v : ValidatedUcan) (spaceId : String) (level : CapabilityLevel) : Prop :=
  ∃ actual, v.capabilities.lookup spaceId = some actual ∧ level ≤ actual

section Requirements
variable {v : ValidatedUcan} {u : Unit}

@[simp] theorem requireAudience_ok {expected : String} :
    requireAudience v expected = .ok u ↔ expected ≠ "" ∧ v.audience = expected := by
  unfold requireAudience
  split
  · simp [*]
  · split <;> simp [*]

@[simp] theorem requireNotExpired_ok {now : Nat} : requireNotExpired v now = .ok u ↔ now < v.expiresAt := by
  simp [requireNotExpired]

@[simp] theorem requireCapability_ok {spaceId : String} {required : CapabilityLevel} :
    requireCapability v spaceId required = .ok u ↔ v.Grants spaceId required := by
  unfold requireCapability ValidatedUcan.Grants
  cases v.capabilities.lookup spaceId with
  | none => simp
  | some actual =>
    by_cases h : required ≤ actual
    · simp [h]
    · simp [h]

end Requirements

/-! ## Creation -/

inductive UcanCreateError where
  | invalidKey (reason : String)
  deriving DecidableEq

def UcanCreateError.display : UcanCreateError → String
  | invalidKey reason => "Invalid private key: " ++ reason

structure UcanPayload where
  iss : String
  aud : String
  cap : List (String × String)
  exp : Nat
  iat : Nat
  prf : List String
  nnc : String

def UcanPayload.toJson (p : UcanPayload) : Json :=
  .object [
    ("ucv", .string "1.0"),
    ("iss", .string p.iss),
    ("aud", .string p.aud),
    ("cap", .object (p.cap.map fun c => (c.1, .string c.2))),
    ("exp", .number (.posInt (UInt64.ofNat p.exp))),
    ("iat", .number (.posInt (UInt64.ofNat p.iat))),
    ("prf", .array (p.prf.map .string)),
    ("nnc", .string p.nnc)]

namespace UcanPayload
variable (p : UcanPayload)

@[simp] theorem toJson_iss : (p.toJson.index "iss").asStr = some p.iss := rfl
@[simp] theorem toJson_aud : (p.toJson.index "aud").asStr = some p.aud := rfl
@[simp] theorem toJson_cap : (p.toJson.index "cap").asObject = some (p.cap.map fun c => (c.1, .string c.2)) := rfl

theorem toJson_exp (h : p.exp < 2 ^ 64) : (p.toJson.index "exp").asU64 = some p.exp :=
  congrArg some (UInt64.toNat_ofNat_of_lt' h)

end UcanPayload

def ucanHeader : Json := .object [("alg", .string "EdDSA"), ("typ", .string "JWT")]

def encodeJsonBase64Url (crates : Crates) (value : Json) : String := crates.base64UrlEncode (crates.toBytes value)

def signingKeyFromPkcs8Base64 (crates : Crates) (key : String) : Except UcanCreateError Bytes :=
  match crates.base64Decode key with
  | .error e => .error (.invalidKey ("Invalid Base64: " ++ e))
  | .ok der =>
    if der.length = 48 then .ok (der.drop 16)
    else .error (.invalidKey ("Unexpected PKCS8 DER length: expected 48, got " ++ toString der.length))

def signingInput (crates : Crates) (payload : UcanPayload) : String :=
  encodeJsonBase64Url crates ucanHeader ++ "." ++ encodeJsonBase64Url crates payload.toJson

def signedToken (crates : Crates) (seed : Bytes) (payload : UcanPayload) : String :=
  signingInput crates payload ++ "." ++ crates.base64UrlEncode (crates.sign seed (signingInput crates payload))

/-- The payload `create_delegated_ucan` signs. -/
def delegatedPayload (issuerDid audienceDid spaceId capability : String) (parentUcan : Option String)
    (expiresInSeconds now : Nat) (nonce : String) : UcanPayload where
  iss := issuerDid
  aud := audienceDid
  cap := [("space:" ++ spaceId, capability)]
  exp := now + expiresInSeconds
  iat := now
  prf := parentUcan.toList
  nnc := nonce

def createDelegatedUcan (crates : Crates) (issuerDid issuerPrivateKey audienceDid spaceId capability : String)
    (parentUcan : Option String) (expiresInSeconds now : Nat) (nonce : String) : Except UcanCreateError String := do
  let seed ← signingKeyFromPkcs8Base64 crates issuerPrivateKey
  .ok (signedToken crates seed
    (delegatedPayload issuerDid audienceDid spaceId capability parentUcan expiresInSeconds now nonce))

/-! ## What was created validates -/

/-- What the crates promise about one payload signed with a seed: the encodings are read back,
none of them has a dot, and the signature is 64 bytes and verifies. -/
structure Crates.SignsAndVerifies (crates : Crates) (seed : Bytes) (payload : UcanPayload) : Prop where
  header_no_dot : '.' ∉ (encodeJsonBase64Url crates ucanHeader).toList
  payload_no_dot : '.' ∉ (encodeJsonBase64Url crates payload.toJson).toList
  payload_decodes : crates.base64UrlDecode (encodeJsonBase64Url crates payload.toJson) = .ok (crates.toBytes payload.toJson)
  /-- The object that is read has the same entries, in an order of its own. -/
  payload_parses : ∃ value, crates.fromSlice (crates.toBytes payload.toJson) = .ok value ∧
    ∀ key, value.index key = payload.toJson.index key
  signature_no_dot : '.' ∉ (crates.base64UrlEncode (crates.sign seed (signingInput crates payload))).toList
  signature_decodes : crates.base64UrlDecode (crates.base64UrlEncode (crates.sign seed (signingInput crates payload))) =
    .ok (crates.sign seed (signingInput crates payload))
  signature_length : (crates.sign seed (signingInput crates payload)).length = 64
  verify_sign : crates.verify (crates.publicKey seed) (signingInput crates payload)
    (crates.sign seed (signingInput crates payload)) = true

section RoundTrip
variable {crates : Crates} {seed : Bytes} {payload : UcanPayload}

theorem splitOn_signedToken (h : crates.SignsAndVerifies seed payload) :
    ((signedToken crates seed payload).toList.splitOn '.').map String.ofList =
      [encodeJsonBase64Url crates ucanHeader, encodeJsonBase64Url crates payload.toJson,
        crates.base64UrlEncode (crates.sign seed (signingInput crates payload))] := by
  have hlist : (signedToken crates seed payload).toList =
      ['.'].intercalate [(encodeJsonBase64Url crates ucanHeader).toList, (encodeJsonBase64Url crates payload.toJson).toList,
        (crates.base64UrlEncode (crates.sign seed (signingInput crates payload))).toList] := by
    simp [signedToken, signingInput, List.intercalate]
  rw [hlist, List.splitOn_intercalate]
  · simp
  · simp only [List.mem_cons, List.not_mem_nil, or_false]
    rintro l (rfl | rfl | rfl)
    · exact h.header_no_dot
    · exact h.payload_no_dot
    · exact h.signature_no_dot
  · simp

theorem stripPre_append (pre s : String) : stripPre pre (pre ++ s) = some s := by simp [stripPre]

theorem validateToken_signed {now : Nat} {capabilities : List (String × CapabilityLevel)} {u : ValidatedUcan}
    (h : crates.SignsAndVerifies seed payload) (hkey : publicKeyFromDid crates payload.iss = .ok (crates.publicKey seed))
    (hcap : parseCapabilities (payload.cap.map fun c => (c.1, .string c.2)) = .ok capabilities)
    (hsize : payload.exp < 2 ^ 64) :
    validateToken crates now (signedToken crates seed payload) = .ok u ↔
      now < payload.exp ∧ u = ⟨payload.iss, payload.aud, capabilities, payload.exp⟩ := by
  obtain ⟨value, hparse, hindex⟩ := h.payload_parses
  have hverify : crates.verify (crates.publicKey seed)
      (encodeJsonBase64Url crates ucanHeader ++ "." ++ encodeJsonBase64Url crates payload.toJson)
      (crates.sign seed (signingInput crates payload)) = true := h.verify_sign
  unfold validateToken
  rw [splitOn_signedToken h]
  simp only [h.payload_decodes, hparse, hindex, h.signature_decodes, UcanPayload.toJson_iss, UcanPayload.toJson_aud,
    UcanPayload.toJson_cap, payload.toJson_exp hsize, malformed, okOr, Bind.bind, Except.bind, hkey, toArray,
    h.signature_length, if_true, ensure, hverify, hcap, Option.getD_some]
  by_cases hnow : now < payload.exp
  · simp only [hnow, decide_true, if_true, Except.ok.injEq, true_and]
    exact eq_comm
  · simp [hnow]

theorem validateToken_delegated {issuerDid audienceDid spaceId capability nonce : String} {parentUcan : Option String}
    {expiresInSeconds created now : Nat} {level : CapabilityLevel} {u : ValidatedUcan}
    (h : crates.SignsAndVerifies seed
      (delegatedPayload issuerDid audienceDid spaceId capability parentUcan expiresInSeconds created nonce))
    (hkey : publicKeyFromDid crates issuerDid = .ok (crates.publicKey seed))
    (hlevel : CapabilityLevel.fromCapabilityString capability = some level)
    (hsize : created + expiresInSeconds < 2 ^ 64) :
    validateToken crates now (signedToken crates seed
        (delegatedPayload issuerDid audienceDid spaceId capability parentUcan expiresInSeconds created nonce)) = .ok u ↔
      now < created + expiresInSeconds ∧ u = ⟨issuerDid, audienceDid, [(spaceId, level)], created + expiresInSeconds⟩ := by
  have hcap : parseCapability ("space:" ++ spaceId, .string capability) = .ok (some (spaceId, level)) := by
    simp [parseCapability, stripPre_append, Json.asStr, hlevel, okOr, Bind.bind, Except.bind]
  have hcaps : parseCapabilities [("space:" ++ spaceId, .string capability)] = .ok [(spaceId, level)] := by
    simp [parseCapabilities, hcap, Bind.bind, Except.bind, pure, Except.pure]
  exact validateToken_signed h hkey hcaps hsize

end RoundTrip

/-! ## Two tokens of one space -/

structure KeySample where
  seed : Bytes
  publicKey : Bytes
  base58 : String

def KeySample.did (k : KeySample) : String := "did:key:" ++ ("z" ++ k.base58)

def adminKey : KeySample where
  seed := List.replicate 32 1
  publicKey := [138, 136, 227, 221, 116, 9, 241, 149, 253, 82, 219, 45, 60, 186, 93, 114, 202, 103, 9, 191, 29,
    148, 18, 27, 243, 116, 136, 1, 180, 15, 111, 92]
  base58 := "6Mkon3Necd6NkkyfoGoHxid2znGc59LU3K7mubaRcFbLfLX"

def memberKey : KeySample where
  seed := List.replicate 32 2
  publicKey := [129, 57, 119, 14, 168, 125, 23, 95, 86, 163, 84, 102, 195, 76, 126, 204, 203, 141, 138, 145, 180,
    238, 55, 162, 93, 246, 15, 91, 143, 201, 179, 148]
  base58 := "6Mko9hTggMwjSTEaJaPUfE6tqcy2xvU6BnNq3e3o8qVBiyH"

structure TokenSample where
  issuer : KeySample
  capability : String
  text : String
  body : String
  signature : Bytes
  signatureText : String

namespace TokenSample

/-- For the member and the space `s`, created at time 0 for 100 seconds. -/
def payload (t : TokenSample) : UcanPayload := delegatedPayload t.issuer.did memberKey.did "s" t.capability none 100 0 "n"

def input (t : TokenSample) : String := "eyJhbGciOiJFZERTQSIsInR5cCI6IkpXVCJ9" ++ "." ++ t.body

end TokenSample

/-- The admin lets the member read. -/
def readToken : TokenSample where
  issuer := adminKey
  capability := "space/read"
  text := "\x7b\"ucv\":\"1.0\",\"iss\":\"did:key:z6Mkon3Necd6NkkyfoGoHxid2znGc59LU3K7mubaRcFbLfLX\",\"aud\":\"did:key:z6Mko9hTggMwjSTEaJaPUfE6tqcy2xvU6BnNq3e3o8qVBiyH\",\"cap\":\x7b\"space:s\":\"space/read\"\x7d,\"exp\":100,\"iat\":0,\"prf\":[],\"nnc\":\"n\"\x7d"
  body := "eyJ1Y3YiOiIxLjAiLCJpc3MiOiJkaWQ6a2V5Ono2TWtvbjNOZWNkNk5ra3lmb0dvSHhpZDJ6bkdjNTlMVTNLN211YmFSY0ZiTGZMWCIsImF1ZCI6ImRpZDprZXk6ejZNa285aFRnZ013alNURWFKYVBVZkU2dHFjeTJ4dlU2Qm5OcTNlM284cVZCaXlIIiwiY2FwIjp7InNwYWNlOnMiOiJzcGFjZS9yZWFkIn0sImV4cCI6MTAwLCJpYXQiOjAsInByZiI6W10sIm5uYyI6Im4ifQ"
  signature := [122, 109, 35, 205, 70, 69, 91, 78, 209, 38, 203, 15, 234, 95, 139, 229, 84, 117, 254, 158, 50, 203,
    222, 112, 56, 106, 236, 176, 89, 84, 73, 210, 162, 215, 194, 55, 114, 142, 19, 217, 237, 148, 56,
    167, 117, 27, 230, 230, 205, 38, 124, 243, 25, 154, 247, 198, 9, 22, 41, 136, 83, 95, 27, 13]
  signatureText := "em0jzUZFW07RJssP6l-L5VR1_p4yy95wOGrssFlUSdKi18I3co4T2e2UOKd1G-bmzSZ88xma98YJFimIU18bDQ"

/-- The member signs for themselves, as admin. -/
def selfToken : TokenSample where
  issuer := memberKey
  capability := "space/admin"
  text := "\x7b\"ucv\":\"1.0\",\"iss\":\"did:key:z6Mko9hTggMwjSTEaJaPUfE6tqcy2xvU6BnNq3e3o8qVBiyH\",\"aud\":\"did:key:z6Mko9hTggMwjSTEaJaPUfE6tqcy2xvU6BnNq3e3o8qVBiyH\",\"cap\":\x7b\"space:s\":\"space/admin\"\x7d,\"exp\":100,\"iat\":0,\"prf\":[],\"nnc\":\"n\"\x7d"
  body := "eyJ1Y3YiOiIxLjAiLCJpc3MiOiJkaWQ6a2V5Ono2TWtvOWhUZ2dNd2pTVEVhSmFQVWZFNnRxY3kyeHZVNkJuTnEzZTNvOHFWQml5SCIsImF1ZCI6ImRpZDprZXk6ejZNa285aFRnZ013alNURWFKYVBVZkU2dHFjeTJ4dlU2Qm5OcTNlM284cVZCaXlIIiwiY2FwIjp7InNwYWNlOnMiOiJzcGFjZS9hZG1pbiJ9LCJleHAiOjEwMCwiaWF0IjowLCJwcmYiOltdLCJubmMiOiJuIn0"
  signature := [239, 65, 58, 106, 74, 60, 249, 194, 69, 156, 72, 212, 240, 222, 4, 6, 172, 236, 39, 149, 73, 238,
    229, 36, 231, 27, 70, 252, 133, 241, 55, 69, 203, 22, 118, 74, 141, 128, 10, 14, 140, 176, 144, 68,
    93, 251, 224, 160, 129, 106, 52, 228, 57, 1, 99, 2, 219, 201, 195, 113, 75, 226, 14, 6]
  signatureText := "70E6ako8-cJFnEjU8N4EBqzsJ5VJ7uUk5xtG_IXxN0XLFnZKjYAKDoywkERd--CggWo05DkBYwLbycNxS-IOBg"

def utf8 (s : String) : Bytes := s.toUTF8.data.toList

def encodings : List (Bytes × String) := [
  (utf8 "\x7b\"alg\":\"EdDSA\",\"typ\":\"JWT\"\x7d", "eyJhbGciOiJFZERTQSIsInR5cCI6IkpXVCJ9"),
  (readToken.signature, readToken.signatureText), (selfToken.signature, selfToken.signatureText),
  (utf8 readToken.text, readToken.body), (utf8 selfToken.text, selfToken.body)]

/-- What the crates return on the two tokens. -/
def sampleCrates : Crates where
  base64UrlDecode s := match encodings.find? (·.2 = s) with
    | some p => .ok p.1
    | none => .error "Invalid symbol"
  base64UrlEncode b := ((encodings.find? (·.1 = b)).map (·.2)).getD ""
  base64Decode _ := .error "Invalid symbol"
  fromSlice b := match [readToken, selfToken].find? (fun t => utf8 t.text = b) with
    | some t => .ok t.payload.toJson
    | none => .error "expected value"
  toBytes j := match [readToken, selfToken].find? fun t => some t.capability = ((j.index "cap").index "space:s").asStr with
    | some t => utf8 t.text
    | none => utf8 "\x7b\"alg\":\"EdDSA\",\"typ\":\"JWT\"\x7d"
  bs58Decode s := match [adminKey, memberKey].find? (·.base58 = s) with
    | some k => .ok (ed25519Multicodec ++ k.publicKey)
    | none => .error "provided string contained invalid character"
  verifyingKey := .ok
  verify key message sig := [readToken, selfToken].any fun t =>
    t.issuer.publicKey = key && t.signature = sig && t.input = message
  sign seed message := (([readToken, selfToken].find? fun t => t.issuer.seed = seed && t.input = message).map
    (·.signature)).getD []
  publicKey seed := (([adminKey, memberKey].find? (·.seed = seed)).map (·.publicKey)).getD []

theorem not_mem_toList {c : Char} {s : String} {l : List Char} (h : s = String.ofList l) (hl : c ∉ l) : c ∉ s.toList := by
  rw [h, String.toList_ofList]
  exact hl

section Samples
variable {t : TokenSample}

theorem encodings_nodup : (encodings.map (·.1)).Nodup ∧ (encodings.map (·.2)).Nodup := by
  constructor <;> decide +kernel

theorem encode_sample {e : Bytes × String} (h : e ∈ encodings) : sampleCrates.base64UrlEncode e.1 = e.2 := by
  have hget : encodings.find? (·.1 = e.1) = some e := Keyed.get_of_mem encodings_nodup.1 h
  simp only [sampleCrates, hget, Option.map_some, Option.getD_some]

theorem decode_sample {e : Bytes × String} (h : e ∈ encodings) : sampleCrates.base64UrlDecode e.2 = .ok e.1 := by
  have hget : encodings.find? (·.2 = e.2) = some e := Keyed.get_of_mem encodings_nodup.2 h
  simp only [sampleCrates, hget]

theorem toBytes_sample (ht : t ∈ [readToken, selfToken]) : sampleCrates.toBytes t.payload.toJson = utf8 t.text := by
  have hget : [readToken, selfToken].find? (·.capability = t.capability) = some t := Keyed.get_of_mem (by decide) ht
  have hcap : ((t.payload.toJson.index "cap").index "space:s").asStr = some t.capability := rfl
  simp only [sampleCrates, hcap, Option.some.injEq, hget]

theorem fromSlice_sample (ht : t ∈ [readToken, selfToken]) : sampleCrates.fromSlice (utf8 t.text) = .ok t.payload.toJson := by
  have hkeys : ([readToken, selfToken].map (utf8 ·.text)).Nodup := by decide +kernel
  have hget : [readToken, selfToken].find? (utf8 ·.text = utf8 t.text) = some t := Keyed.get_of_mem hkeys ht
  simp only [sampleCrates, hget]

theorem sign_sample (ht : t ∈ [readToken, selfToken]) : sampleCrates.sign t.issuer.seed t.input = t.signature := by
  have hget : [readToken, selfToken].find? (fun t' => t'.issuer.seed = t.issuer.seed && t'.input = t.input) = some t := by
    simp only [List.mem_cons, List.not_mem_nil, or_false] at ht
    rcases ht with rfl | rfl
    · simp
    · have hne : readToken.issuer.seed ≠ selfToken.issuer.seed := by decide
      simp [hne]
  simp only [sampleCrates, hget, Option.map_some, Option.getD_some]

theorem verify_sample (ht : t ∈ [readToken, selfToken]) :
    sampleCrates.verify t.issuer.publicKey t.input t.signature = true := by
  refine List.any_eq_true.2 ⟨t, ht, ?_⟩
  simp

theorem key_sample (ht : t ∈ [readToken, selfToken]) :
    publicKeyFromDid sampleCrates t.issuer.did = .ok (sampleCrates.publicKey t.issuer.seed) ∧
      sampleCrates.publicKey t.issuer.seed = t.issuer.publicKey := by
  have hall : ∀ k ∈ [adminKey, memberKey], publicKeyFromDid sampleCrates k.did = .ok (sampleCrates.publicKey k.seed) ∧
    sampleCrates.publicKey k.seed = k.publicKey := by decide +kernel
  simp only [List.mem_cons, List.not_mem_nil, or_false] at ht
  rcases ht with rfl | rfl
  · exact hall adminKey (by simp)
  · exact hall memberKey (by simp)

theorem mem_encodings (ht : t ∈ [readToken, selfToken]) :
    (utf8 t.text, t.body) ∈ encodings ∧ (t.signature, t.signatureText) ∈ encodings := by
  simp only [List.mem_cons, List.not_mem_nil, or_false] at ht
  rcases ht with rfl | rfl <;> simp [encodings]

set_option maxRecDepth 10000 in
theorem no_dot_sample (ht : t ∈ [readToken, selfToken]) : '.' ∉ t.body.toList ∧ '.' ∉ t.signatureText.toList := by
  simp only [List.mem_cons, List.not_mem_nil, or_false] at ht
  rcases ht with rfl | rfl
  all_goals
    constructor
    · refine not_mem_toList rfl ?_
      decide +kernel
    · refine not_mem_toList rfl ?_
      decide +kernel

theorem header_sample : encodeJsonBase64Url sampleCrates ucanHeader = "eyJhbGciOiJFZERTQSIsInR5cCI6IkpXVCJ9" :=
  encode_sample List.mem_cons_self

theorem sample_signs (ht : t ∈ [readToken, selfToken]) : sampleCrates.SignsAndVerifies t.issuer.seed t.payload := by
  obtain ⟨hbody, hsig⟩ := mem_encodings ht
  obtain ⟨hbodyDot, hsigDot⟩ := no_dot_sample ht
  have hencode : encodeJsonBase64Url sampleCrates t.payload.toJson = t.body := by
    rw [encodeJsonBase64Url, toBytes_sample ht]
    exact encode_sample hbody
  have hinput : signingInput sampleCrates t.payload = t.input := by
    rw [signingInput, header_sample, hencode]
    rfl
  refine ⟨?_, hencode ▸ hbodyDot, ?_, ⟨_, ?_, fun _ => rfl⟩, ?_, ?_, ?_, ?_⟩
  · rw [header_sample]
    exact not_mem_toList rfl (by decide)
  · rw [hencode, toBytes_sample ht]
    exact decode_sample hbody
  · rw [toBytes_sample ht]
    exact fromSlice_sample ht
  all_goals rw [hinput, sign_sample ht]
  · rwa [encode_sample hsig]
  · rw [encode_sample hsig]
    exact decode_sample hsig
  · simp only [List.mem_cons, List.not_mem_nil, or_false] at ht
    rcases ht with rfl | rfl <;> rfl
  · rw [(key_sample ht).2]
    exact verify_sample ht

/-- The token as it is sent. -/
def TokenSample.token (t : TokenSample) : String := signedToken sampleCrates t.issuer.seed t.payload

theorem validateToken_sample (ht : t ∈ [readToken, selfToken]) {level : CapabilityLevel}
    (hlevel : CapabilityLevel.fromCapabilityString t.capability = some level) {now : Nat} {u : ValidatedUcan} :
    validateToken sampleCrates now t.token = .ok u ↔ now < 100 ∧ u = ⟨t.issuer.did, memberKey.did, [("s", level)], 100⟩ := by
  have hsize : 0 + 100 < 2 ^ 64 := by decide
  have h := @validateToken_delegated _ _ t.issuer.did memberKey.did "s" t.capability "n" none 100 0 now level u (sample_signs ht)
    (key_sample ht).1 hlevel hsize
  rwa [Nat.zero_add] at h

end Samples

end HaexVault.Space
