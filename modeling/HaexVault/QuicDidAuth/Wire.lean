import HaexVault.Lib.Framing
import HaexVault.Space.Ucan
/-!
# The messages of the DID handshake (`quic_did_auth/wire.rs`)

A server sends a `Challenge` and gets a `Response` back, each as JSON after its length. What
the client signs is a tag and three fields, each after its length as a `u32`: different fields
make a different text as long as none of them is longer than that (`buildSigInput_inj`).
-/

namespace HaexVault.QuicDidAuth

open HaexVault.Lib
open HaexVault.Space (Bytes utf8)

/-! ## Lengths -/

def be32 (n : Nat) : Bytes := [UInt8.ofNat (n / 2 ^ 24), UInt8.ofNat (n / 2 ^ 16), UInt8.ofNat (n / 2 ^ 8), UInt8.ofNat n]

def fromBe32 : Bytes → Nat
  | [a, b, c, d] => a.toNat * 2 ^ 24 + b.toNat * 2 ^ 16 + c.toNat * 2 ^ 8 + d.toNat
  | _ => 0

theorem fromBe32_be32 {n : Nat} (h : n < 2 ^ 32) : fromBe32 (be32 n) = n := by
  simp only [be32, fromBe32, UInt8.toNat_ofNat']
  omega

def lengthPrefixed : Framing UInt8 where
  width := 4
  limit := 2 ^ 32
  size := be32
  readSize := fromBe32
  size_length _ := rfl
  readSize_size _ := fromBe32_be32
  width_pos := by decide

/-! ## The messages -/

def protocolVersion : UInt32 := 1
def nonceLen : Nat := 32
def maxMessageSize : Nat := 64 * 1024

structure Challenge where
  v : UInt32
  /-- In base64. -/
  nonce : String
  serverEndpointId : String
  deriving DecidableEq

structure Response where
  v : UInt32
  did : String
  clientEndpointId : String
  /-- In base64. -/
  signature : String
  deriving DecidableEq

/-! ## The signature input -/

def domainTag : Bytes := utf8 "haex-did-auth/v1"

/-- `build_sig_input`. -/
def buildSigInput (nonce : Bytes) (clientEndpointId serverEndpointId : String) : Bytes :=
  let clientBytes := utf8 clientEndpointId
  let serverBytes := utf8 serverEndpointId
  domainTag ++ (be32 nonce.length ++ nonce) ++ (be32 clientBytes.length ++ clientBytes) ++
    (be32 serverBytes.length ++ serverBytes)

theorem utf8_injective {s t : String} (h : utf8 s = utf8 t) : s = t :=
  String.toByteArray_inj.1 (ByteArray.ext (Array.toList_inj.1 h))

theorem utf8_ofList (l : List Char) : utf8 (String.ofList l) = l.flatMap String.utf8EncodeChar := by
  simp [utf8, List.utf8Encode]

theorem utf8_eq (s : String) : utf8 s = s.toList.flatMap String.utf8EncodeChar := by
  rw [← utf8_ofList, String.ofList_toList]

theorem prefix_of_utf8 {l l' : List Char}
    (h : l.flatMap String.utf8EncodeChar <+: l'.flatMap String.utf8EncodeChar) : l <+: l' := by
  induction l generalizing l' with
  | nil => exact List.nil_prefix
  | cons c cs ih =>
    cases l' with
    | nil =>
      obtain ⟨hc, -⟩ := List.append_eq_nil_iff.1 (List.prefix_nil.1 h)
      exact absurd hc String.utf8EncodeChar_ne_nil
    | cons c' cs' =>
      obtain ⟨rest, hrest⟩ := h
      simp only [List.flatMap_cons, List.append_assoc] at hrest
      have hdecode := congrArg (fun bs : List UInt8 => bs.toByteArray.utf8DecodeChar? 0) hrest
      simp only [List.toByteArray_append, ByteArray.utf8DecodeChar?_utf8EncodeChar_append, Option.some.injEq] at hdecode
      subst hdecode
      exact List.cons_prefix_cons.2 ⟨rfl, ih ⟨rest, List.append_cancel_left hrest⟩⟩

section SigInput
variable {nonce nonce' : Bytes} {client client' server server' : String}

theorem buildSigInput_eq : buildSigInput nonce client server =
    domainTag ++ lengthPrefixed.frames [nonce, utf8 client, utf8 server] := by
  simp [buildSigInput, Framing.frame, lengthPrefixed]

/-- Fields shorter than 2^32 bytes are read back from what is signed. -/
theorem buildSigInput_inj (hn : nonce.length < 2 ^ 32) (hc : (utf8 client).length < 2 ^ 32)
    (hs : (utf8 server).length < 2 ^ 32) (hn' : nonce'.length < 2 ^ 32) (hc' : (utf8 client').length < 2 ^ 32)
    (hs' : (utf8 server').length < 2 ^ 32)
    (h : buildSigInput nonce client server = buildSigInput nonce' client' server') :
    nonce = nonce' ∧ client = client' ∧ server = server' := by
  rw [buildSigInput_eq, buildSigInput_eq] at h
  have hfields := lengthPrefixed.frames_inj (by simpa [lengthPrefixed] using ⟨hn, hc, hs⟩)
    (by simpa [lengthPrefixed] using ⟨hn', hc', hs'⟩) (List.append_cancel_left h)
  simp only [List.cons.injEq, and_true] at hfields
  exact ⟨hfields.1, utf8_injective hfields.2.1, utf8_injective hfields.2.2⟩

end SigInput

theorem utf8_nuls (n : Nat) : utf8 (String.ofList (List.replicate n '\x00')) = List.replicate n 0 := by
  have hnul : String.utf8EncodeChar '\x00' = [0] := by decide
  rw [utf8_ofList, List.flatMap_replicate, hnul]
  simp

theorem buildSigInput_nuls {n : Nat} (h : be32 n = List.replicate 4 0) :
    buildSigInput (List.replicate n 0) "" "" = buildSigInput [] (String.ofList (List.replicate n '\x00')) "" := by
  have hempty : be32 0 = List.replicate 4 0 := by decide
  have hnone : utf8 "" = [] := by decide
  simp only [buildSigInput, utf8_nuls, hnone, List.length_replicate, List.length_nil, h, hempty, List.append_nil,
    List.append_assoc, List.replicate_append_replicate]
  congr 2
  omega

theorem buildSigInput_collides :
    ∃ nonce client, nonce.length = 2 ^ 32 ∧ buildSigInput nonce "" "" = buildSigInput [] client "" :=
  ⟨_, _, List.length_replicate, buildSigInput_nuls (by decide)⟩

end HaexVault.QuicDidAuth
