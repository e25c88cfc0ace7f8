import Mathlib.Data.List.Nodup
import Mathlib.Data.Nat.Bitwise
import Mathlib.Tactic.IntervalCases
import HaexVault.Lib.Calls
/-!
# Passkey counters (`handlePasskeyGetAsync`)

A call finds its passkey, signs the next count, and stores that count in a later statement; between
the two it waits four times. `counters_increase_iff` says in which runs the counters increase; every
response answers its own request (`answers_own_request`).
-/

namespace HaexVault.ExternalBridge.PasskeyCounters

open HaexVault.Lib HaexVault.Lib.Runs

/-! ## The authenticator data -/

def shiftedByte (n k : Nat) : UInt8 := UInt8.ofNat ((BitVec.ofNat 32 n).sshiftRight k &&& 0xff).toNat

def signCountBytes (signCount : Nat) : List UInt8 :=
  [shiftedByte signCount 24, shiftedByte signCount 16, shiftedByte signCount 8, shiftedByte signCount 0]

structure Externals where
  /-- `crypto.subtle.digest('SHA-256', …)`. -/
  sha256 : List UInt8 → Vector UInt8 32
  /-- `JSON.stringify` of the client data, from the challenge and the origin. -/
  clientDataJson : String → String → String
  /-- `signWithPasskeyAsync`. -/
  sign : String → List UInt8 → List UInt8

variable (x : Externals)

def encodeText (s : String) : List UInt8 := s.toUTF8.toList

def flags : UInt8 := 0x01 ||| 0x04

/-- `buildAuthenticatorDataAsync`, without attested data. -/
def buildAuthenticatorData (relyingPartyId : String) (signCount : Nat) : List UInt8 :=
  (x.sha256 (encodeText relyingPartyId)).toList ++ flags :: signCountBytes signCount

/-- The four bytes at offset 33, as a big-endian number. -/
def counter (authenticatorData : List UInt8) : Nat :=
  ((authenticatorData.drop 33).take 4).foldl (fun n b => 256 * n + b.toNat) 0

/-! ## The handler -/

/-- A row of `haex_passwords_passkeys`, with the columns that the handler uses. -/
structure Passkey where
  id : String
  credentialId : String
  relyingPartyId : String
  userHandle : String
  privateKey : String
  signCount : Nat
  isDiscoverable : Bool
  lastUsedAt : Option String
  deriving DecidableEq

/-- `PasskeyGetPayload`, with the ids of the allowed credentials; no list and an empty one are the same to the handler. -/
structure Payload where
  relyingPartyId : String
  challenge : String
  allowCredentials : List String
  deriving DecidableEq

structure Response where
  credentialId : String
  authenticatorData : List UInt8
  signature : List UInt8
  clientDataJson : List UInt8
  userHandle : Option String
  passkeyId : String
  deriving DecidableEq

structure Stored where
  signCount : Nat
  response : Response
  deriving DecidableEq

structure Vault where
  passkeys : List Passkey
  ids : (passkeys.map (·.id)).Nodup
  /-- What the calls have stored, in that order. -/
  stored : List Stored := []

/-- A call, and what it waits for. -/
inductive Call where
  /-- For the select of the first of these credentials. -/
  | lookingUp (p : Payload) (credentialId : String) (rest : List String)
  | discovering (p : Payload)
  | importing (p : Payload) (passkey : Passkey)
  | building (p : Payload) (passkey : Passkey)
  | hashing (p : Payload) (passkey : Passkey) (authenticatorData : List UInt8)
  | signing (p : Payload) (passkey : Passkey) (authenticatorData : List UInt8)
  | storing (p : Payload) (passkey : Passkey) (authenticatorData signature : List UInt8)
  | done (result : Except String Response)

inductive Wait where
  | ended (now : String)
  | failed (error : String)

def clientData (p : Payload) : List UInt8 :=
  encodeText (x.clientDataJson p.challenge ("https://" ++ p.relyingPartyId))

def Vault.setSignCount (v : Vault) (id : String) (signCount : Nat) (now : String) (response : Response) : Vault where
  passkeys := v.passkeys.map fun row => if row.id = id then { row with signCount, lastUsedAt := some now } else row
  ids := by
    rw [List.map_map, List.map_congr_left (g := (·.id)) fun row _ => by simp only [Function.comp]; split <;> rfl]
    exact v.ids
  stored := v.stored ++ [⟨signCount, response⟩]

/-- `handlePasskeyGetAsync` up to the first wait. -/
def handlePasskeyGet (p : Payload) : Call :=
  if p.relyingPartyId = "" ∨ p.challenge = "" then
    .done (.error "Missing required fields: relyingPartyId, challenge")
  else match p.allowCredentials with
    | [] => .discovering p
    | allowed :: rest => .lookingUp p allowed rest

/-- `handlePasskeyGetAsync` from one wait to the next. -/
def advance (v : Vault) : Call → Wait → Vault × Call
  | .done result, _ => (v, .done result)
  | _, .failed error => (v, .done (.error error))
  | .lookingUp p allowed rest, .ended _ =>
    (v, match v.passkeys.find? fun row => row.credentialId = allowed && row.relyingPartyId = p.relyingPartyId with
      | some passkey => .importing p passkey
      | none => match rest with
        | [] => .done (.error "No matching passkey found")
        | allowed :: rest => .lookingUp p allowed rest)
  | .discovering p, .ended _ =>
    (v, match v.passkeys.find? fun row => row.relyingPartyId = p.relyingPartyId && row.isDiscoverable with
      | some passkey => .importing p passkey
      | none => .done (.error "No matching passkey found"))
  | .importing p passkey, .ended _ => (v, .building p passkey)
  | .building p passkey, .ended _ =>
    (v, .hashing p passkey (buildAuthenticatorData x p.relyingPartyId (passkey.signCount + 1)))
  | .hashing p passkey authenticatorData, .ended _ => (v, .signing p passkey authenticatorData)
  | .signing p passkey authenticatorData, .ended _ =>
    (v, .storing p passkey authenticatorData
      (x.sign passkey.privateKey (authenticatorData ++ (x.sha256 (clientData x p)).toList)))
  | .storing p passkey authenticatorData signature, .ended now =>
    let response : Response :=
      { credentialId := passkey.credentialId
        authenticatorData
        signature
        clientDataJson := clientData x p
        userHandle := if passkey.isDiscoverable then some passkey.userHandle else none
        passkeyId := passkey.id }
    (v.setSignCount passkey.id (passkey.signCount + 1) now response, .done (.ok response))

def handling : Calls.Machine Vault Payload Call Wait Empty where
  start := handlePasskeyGet
  advance := advance x
  outside v _ := v

abbrev State := Calls.Sys Vault Call
abbrev Event := Calls.Event Payload Wait Empty

/-! ## What is promised -/

/-- For each passkey the counters increase in the order of the storing, and each is the count that was stored. -/
def Increase (stored : List Stored) : Prop :=
  (stored.Pairwise fun s t => s.response.passkeyId = t.response.passkeyId →
    counter s.response.authenticatorData < counter t.response.authenticatorData) ∧
  ∀ s ∈ stored, counter s.response.authenticatorData = s.signCount

/-- A call that stores finds the count that it has read, and the next one has four bytes. -/
def Fresh (σ : State) : Event → Prop
  | .resume i (.ended _) => ∀ p passkey authenticatorData signature,
      σ.calls[i]? = some (.storing p passkey authenticatorData signature) → passkey.signCount + 1 < 2 ^ 32 ∧
        ∀ row ∈ σ.shared.passkeys, row.id = passkey.id → row.signCount = passkey.signCount
  | _ => True

/-! ## The bytes -/

variable {x}

theorem toNat_shiftedByte (n : Nat) {k : Nat} (hk : k ≤ 24) : (shiftedByte n k).toNat = n / 2 ^ k % 256 := by
  have hbits : ((BitVec.ofNat 32 n).sshiftRight k &&& 0xff).toNat = n / 2 ^ k % 2 ^ 8 := by
    refine Nat.eq_of_testBit_eq fun i => ?_
    rw [BitVec.testBit_toNat, BitVec.getLsbD_and, Nat.testBit_mod_two_pow, Nat.testBit_div_two_pow,
      BitVec.getLsbD_sshiftRight]
    by_cases hi : i < 8
    · have hmask : (0xff : BitVec 32).getLsbD i = true := by interval_cases i <;> rfl
      have hin : k + i < 32 := by omega
      have hlt : ¬ 32 ≤ i := by omega
      rw [hmask, Bool.and_true, if_pos hin, BitVec.getLsbD_ofNat]
      simp only [hlt, hin, hi, decide_true, decide_false, Bool.not_false, Bool.true_and, Nat.add_comm]
    · have hpow : 2 ^ 8 ≤ 2 ^ i := Nat.pow_le_pow_right (by decide) (Nat.le_of_not_lt hi)
      have hmask : (0xff : BitVec 32).getLsbD i = false := by
        rw [show (0xff : BitVec 32) = BitVec.ofNat 32 255 from rfl, BitVec.getLsbD_ofNat,
          Nat.testBit_lt_two_pow (by omega), Bool.and_false]
      rw [hmask, Bool.and_false, decide_eq_false hi, Bool.false_and]
  have hlt : n / 2 ^ k % 2 ^ 8 < 256 := Nat.mod_lt _ (by decide)
  rw [shiftedByte, hbits, UInt8.toNat_ofNat_of_lt' hlt]
  rfl

theorem take_foldl_bytes (a b c d : UInt8) : ([a, b, c, d].take 4).foldl (fun n b => 256 * n + b.toNat) 0 =
    256 * (256 * (256 * (256 * 0 + a.toNat) + b.toNat) + c.toNat) + d.toNat := rfl

theorem counter_buildAuthenticatorData (relyingPartyId : String) (signCount : Nat) :
    counter (buildAuthenticatorData x relyingPartyId signCount) = signCount % 2 ^ 32 := by
  have hlen : (x.sha256 (encodeText relyingPartyId)).toList.length = 32 := Vector.length_toList
  have hdrop : (buildAuthenticatorData x relyingPartyId signCount).drop 33 = signCountBytes signCount := by
    rw [buildAuthenticatorData, List.drop_append, hlen, List.drop_eq_nil_of_le (by omega)]
    rfl
  rw [counter, hdrop, signCountBytes, take_foldl_bytes, toNat_shiftedByte signCount (by decide), toNat_shiftedByte signCount (by decide),
    toNat_shiftedByte signCount (by decide), toNat_shiftedByte signCount (by decide)]
  omega

/-! ## What a call knows -/

def Held (v : Vault) (passkey : Passkey) : Prop :=
  (∃ row ∈ v.passkeys, row.id = passkey.id) ∧
    ∀ row ∈ v.passkeys, row.id = passkey.id → passkey.signCount = row.signCount ∨
      passkey.signCount < row.signCount ∧ ∃ s ∈ v.stored, s.response.passkeyId = row.id ∧ s.signCount = row.signCount

variable (x) in
def Known (v : Vault) : Call → Prop
  | .importing _ passkey | .building _ passkey => Held v passkey
  | .hashing p passkey authenticatorData | .signing p passkey authenticatorData | .storing p passkey authenticatorData _ =>
    Held v passkey ∧ authenticatorData = buildAuthenticatorData x p.relyingPartyId (passkey.signCount + 1)
  | _ => True

def Topped (v : Vault) : Prop :=
  ∀ s ∈ v.stored, ∃ row ∈ v.passkeys, row.id = s.response.passkeyId ∧ s.signCount ≤ row.signCount

variable {v : Vault} {c : Call} {a : Wait} {passkey : Passkey}

theorem held_of_mem (h : passkey ∈ v.passkeys) : Held v passkey := by
  refine ⟨⟨passkey, h, rfl⟩, fun row hrow hid => .inl ?_⟩
  rw [List.inj_on_of_nodup_map v.ids hrow h hid]

theorem advance_known (h : Known x v c) (hc : ∀ p pk d s now, ¬ (c = .storing p pk d s ∧ a = .ended now)) :
    (advance x v c a).1 = v ∧ Known x v (advance x v c a).2 := by
  cases c with
  | done => exact ⟨rfl, trivial⟩
  | lookingUp p allowed rest =>
    cases a with
    | failed => exact ⟨rfl, trivial⟩
    | ended now =>
      refine ⟨rfl, ?_⟩
      simp only [advance]
      split
      case h_1 pk hpk => exact held_of_mem (List.mem_of_find?_eq_some hpk)
      case h_2 => split <;> trivial
  | discovering p =>
    cases a with
    | failed => exact ⟨rfl, trivial⟩
    | ended now =>
      refine ⟨rfl, ?_⟩
      simp only [advance]
      split
      case h_1 pk hpk => exact held_of_mem (List.mem_of_find?_eq_some hpk)
      case h_2 => trivial
  | importing p pk | hashing p pk d | signing p pk d =>
    cases a with
    | failed => exact ⟨rfl, trivial⟩
    | ended now => exact ⟨rfl, h⟩
  | building p pk =>
    cases a with
    | failed => exact ⟨rfl, trivial⟩
    | ended now => exact ⟨rfl, h, rfl⟩
  | storing p pk d s =>
    cases a with
    | failed => exact ⟨rfl, trivial⟩
    | ended now => exact absurd ⟨rfl, rfl⟩ (hc p pk d s now)

/-! ## A store -/

def storedResponse (x : Externals) (p : Payload) (passkey : Passkey) (authenticatorData signature : List UInt8) : Response where
  credentialId := passkey.credentialId
  authenticatorData := authenticatorData
  signature := signature
  clientDataJson := clientData x p
  userHandle := if passkey.isDiscoverable then some passkey.userHandle else none
  passkeyId := passkey.id

section Store
variable {now : String} {response : Response} {other : Passkey}

theorem mem_setSignCount {id : String} {signCount : Nat} {row : Passkey}
    (h : row ∈ (v.setSignCount id signCount now response).passkeys) :
    ∃ old ∈ v.passkeys, row.id = old.id ∧ (old.id = id ∧ row.signCount = signCount ∨ old.id ≠ id ∧ row = old) := by
  obtain ⟨old, hold, rfl⟩ := List.mem_map.1 h
  refine ⟨old, hold, ?_⟩
  split
  case isTrue hid => exact ⟨rfl, .inl ⟨hid, rfl⟩⟩
  case isFalse hid => exact ⟨rfl, .inr ⟨hid, rfl⟩⟩

theorem exists_setSignCount (now : String) {id : String} {signCount : Nat} {old : Passkey} (h : old ∈ v.passkeys) :
    ∃ row ∈ (v.setSignCount id signCount now response).passkeys, row.id = old.id ∧
      (old.id = id ∧ row.signCount = signCount ∨ old.id ≠ id ∧ row = old) := by
  refine ⟨_, List.mem_map_of_mem h, ?_⟩
  split
  case isTrue hid => exact ⟨rfl, .inl ⟨hid, rfl⟩⟩
  case isFalse hid => exact ⟨rfl, .inr ⟨hid, rfl⟩⟩

/-- A store of a fresh count leaves what another call holds at or below the row. -/
theorem Held.store (h : Held v other) (hid : response.passkeyId = passkey.id)
    (hfresh : ∀ row ∈ v.passkeys, row.id = passkey.id → row.signCount = passkey.signCount) :
    Held (v.setSignCount passkey.id (passkey.signCount + 1) now response) other := by
  obtain ⟨⟨old, hold, hother⟩, hrows⟩ := h
  constructor
  · obtain ⟨row, hrow, hsame, -⟩ := exists_setSignCount (v := v) now hold
    exact ⟨row, hrow, hsame.trans hother⟩
  · intro row hrow hrid
    obtain ⟨old, hold, hsame, ⟨hpk, hcount⟩ | ⟨hpk, rfl⟩⟩ := mem_setSignCount hrow
    · have hle : other.signCount ≤ passkey.signCount := by
        rcases hrows old hold (hsame.symm.trans hrid) with heq | ⟨hlt, -⟩
        · rw [heq, hfresh old hold hpk]
        · rw [← hfresh old hold hpk]
          exact Nat.le_of_lt hlt
      refine .inr ⟨by omega, ⟨passkey.signCount + 1, response⟩, List.mem_append_right _ List.mem_cons_self, ?_, hcount.symm⟩
      exact hid.trans (hpk.symm.trans hsame.symm)
    · rcases hrows row hold hrid with heq | ⟨hlt, s, hs, hkey, hsc⟩
      · exact .inl heq
      · exact .inr ⟨hlt, s, List.mem_append_left _ hs, hkey, hsc⟩

theorem Topped.store (h : Topped v) (hheld : Held v passkey) (hid : response.passkeyId = passkey.id)
    (hfresh : ∀ row ∈ v.passkeys, row.id = passkey.id → row.signCount = passkey.signCount) :
    Topped (v.setSignCount passkey.id (passkey.signCount + 1) now response) := by
  intro s hs
  rcases List.mem_append.1 hs with hs | hs
  · obtain ⟨old, hold, hkey, hle⟩ := h s hs
    obtain ⟨row, hrow, hsame, ⟨hpk, hcount⟩ | ⟨hpk, rfl⟩⟩ := exists_setSignCount (v := v) now hold
    · have hbefore := hfresh old hold hpk
      exact ⟨row, hrow, hsame.trans hkey, by omega⟩
    · exact ⟨row, hrow, hkey, hle⟩
  · obtain rfl := List.mem_singleton.1 hs
    obtain ⟨old, hold, hkey⟩ := hheld.1
    obtain ⟨row, hrow, hsame, ⟨-, hcount⟩ | ⟨hpk, -⟩⟩ := exists_setSignCount (v := v) now hold
    · exact ⟨row, hrow, hsame.trans (hkey.trans hid.symm), hcount.ge⟩
    · exact absurd hkey hpk

end Store

theorem Known.store {p : Payload} {d s : List UInt8} {now : String} {other : Call} (h : Known x v other)
    (hfresh : ∀ row ∈ v.passkeys, row.id = passkey.id → row.signCount = passkey.signCount) :
    Known x (v.setSignCount passkey.id (passkey.signCount + 1) now (storedResponse x p passkey d s)) other := by
  cases other with
  | importing | building => exact Held.store h rfl hfresh
  | hashing | signing | storing => exact ⟨h.1.store rfl hfresh, h.2⟩
  | _ => trivial

theorem increase_append {stored : List Stored} {t : Stored} : Increase (stored ++ [t]) ↔ Increase stored ∧
    (∀ s ∈ stored, s.response.passkeyId = t.response.passkeyId →
      counter s.response.authenticatorData < counter t.response.authenticatorData) ∧
    counter t.response.authenticatorData = t.signCount := by
  simp only [Increase, List.pairwise_append, List.pairwise_singleton, List.mem_append, List.mem_singleton, forall_eq,
    true_and, or_imp, forall_and]
  tauto

theorem increase_store {p : Payload} {d s : List UInt8} (htop : Topped v) (hknown : Known x v (.storing p passkey d s))
    (hinc : Increase v.stored) :
    Increase (v.stored ++ [⟨passkey.signCount + 1, storedResponse x p passkey d s⟩]) ↔ passkey.signCount + 1 < 2 ^ 32 ∧
      ∀ row ∈ v.passkeys, row.id = passkey.id → row.signCount = passkey.signCount := by
  obtain ⟨⟨-, hrows⟩, rfl⟩ := hknown
  rw [increase_append, and_iff_right hinc]
  simp only [storedResponse, counter_buildAuthenticatorData]
  constructor
  · rintro ⟨hbelow, hcount⟩
    have hlt : passkey.signCount + 1 < 2 ^ 32 := by
      rw [← hcount]
      exact Nat.mod_lt _ (by decide)
    refine ⟨hlt, fun row hrow hid => ?_⟩
    rcases hrows row hrow hid with heq | ⟨hless, t, ht, hkey, hsc⟩
    · exact heq.symm
    · -- the row holds a count that was stored, and the new one is to be larger
      have hover := hbelow t ht (hkey.trans hid)
      rw [hinc.2 t ht, hsc, hcount] at hover
      omega
  · rintro ⟨hlt, hfresh⟩
    have hmod := Nat.mod_eq_of_lt hlt
    refine ⟨fun t ht hkey => ?_, hmod⟩
    obtain ⟨row, hrow, hid, hle⟩ := htop t ht
    rw [hinc.2 t ht, hmod]
    have := hfresh row hrow (hid.trans hkey)
    omega

/-! ## Runs -/

variable {σ : State}

theorem step_cases (e : Event) (hk : ∀ c ∈ σ.calls, Known x σ.shared c) :
    ((handling x).step σ e).shared = σ.shared ∧ Fresh σ e ∧ (∀ c ∈ ((handling x).step σ e).calls, Known x σ.shared c) ∨
      ∃ i p pk d s now, σ.calls[i]? = some (.storing p pk d s) ∧ e = .resume i (.ended now) := by
  cases e with
  | start p =>
    refine .inl ⟨rfl, trivial, fun c hc => ?_⟩
    rcases List.mem_append.1 hc with hc | hc
    · exact hk c hc
    · obtain rfl := List.mem_singleton.1 hc
      change Known x σ.shared (handlePasskeyGet p)
      unfold handlePasskeyGet
      split
      · trivial
      · split <;> trivial
  | outside e => exact e.elim
  | resume i a =>
    cases hi : σ.calls[i]? with
    | none =>
      rw [Calls.step_resume_none hi]
      refine .inl ⟨rfl, ?_, hk⟩
      cases a with
      | failed => trivial
      | ended now =>
        intro p pk d s h
        cases hi.symm.trans h
    | some c =>
      by_cases hc : ∃ p pk d s now, c = .storing p pk d s ∧ a = .ended now
      · obtain ⟨p, pk, d, s, now, rfl, rfl⟩ := hc
        exact .inr ⟨i, p, pk, d, s, now, hi, rfl⟩
      · have hno : ∀ p pk d s now, ¬ (c = .storing p pk d s ∧ a = .ended now) := fun p pk d s now h =>
          hc ⟨p, pk, d, s, now, h⟩
        obtain ⟨hv, hknown⟩ := advance_known (hk c (List.mem_of_getElem? hi)) hno
        rw [Calls.step_resume hi]
        refine .inl ⟨hv, ?_, fun d hd => ?_⟩
        · cases a with
          | failed => trivial
          | ended now =>
            intro p pk d s h
            obtain rfl := Option.some.inj (hi.symm.trans h)
            exact absurd ⟨rfl, rfl⟩ (hno p pk d s now)
        · rcases List.mem_or_eq_of_mem_set hd with hd | rfl
          · exact hk d hd
          · exact hknown

def Accounted (x : Externals) (σ : State) : Prop :=
  Increase σ.shared.stored → Calls.Each Topped (Known x) σ

theorem stored_step (σ : State) (e : Event) : σ.shared.stored <+: ((handling x).step σ e).shared.stored := by
  cases e with
  | start p => exact List.prefix_rfl
  | outside e => exact e.elim
  | resume i a =>
    cases hi : σ.calls[i]? with
    | none =>
      have hsame : (handling x).step σ (.resume i a) = σ := Calls.step_resume_none hi a
      exact hsame.symm ▸ List.prefix_rfl
    | some c =>
      rw [Calls.step_resume hi]
      cases c <;> cases a <;> first | exact List.prefix_rfl | exact List.prefix_append _ _

theorem Increase.of_prefix {l l' : List Stored} (h : Increase l') (hl : l <+: l') : Increase l :=
  ⟨h.1.sublist hl.sublist, fun s hs => h.2 s (hl.subset hs)⟩

theorem fresh_store_iff {i : Nat} {p : Payload} {d s : List UInt8} {now : String}
    (hi : σ.calls[i]? = some (.storing p passkey d s)) : Fresh σ (.resume i (.ended now)) ↔ passkey.signCount + 1 < 2 ^ 32 ∧
      ∀ row ∈ σ.shared.passkeys, row.id = passkey.id → row.signCount = passkey.signCount := by
  constructor
  · exact fun h => h p passkey d s hi
  · intro h p' passkey' d' s' hi'
    cases hi.symm.trans hi'
    exact h

theorem increase_step (h : Accounted x σ) (e : Event) :
    Increase ((handling x).step σ e).shared.stored ↔ Increase σ.shared.stored ∧ Fresh σ e := by
  by_cases hinc : Increase σ.shared.stored
  · rw [and_iff_right hinc]
    obtain ⟨htop, hk⟩ := h hinc
    rcases step_cases e hk with ⟨hv, hfresh, -⟩ | ⟨i, p, pk, d, s, now, hi, rfl⟩
    · rw [hv]
      exact iff_of_true hinc hfresh
    · rw [Calls.step_resume hi, fresh_store_iff hi]
      exact increase_store htop (hk _ (List.mem_of_getElem? hi)) hinc
  · exact iff_of_false (fun h' => hinc (h'.of_prefix (stored_step σ e))) fun h' => hinc h'.1

theorem Accounted.step (h : Accounted x σ) (e : Event) : Accounted x ((handling x).step σ e) := by
  intro hinc
  obtain ⟨hbefore, hfresh⟩ := (increase_step h e).1 hinc
  obtain ⟨htop, hk⟩ := h hbefore
  rcases step_cases e hk with ⟨hv, -, hcalls⟩ | ⟨i, p, pk, d, s, now, hi, rfl⟩
  · exact ⟨hv ▸ htop, hv ▸ hcalls⟩
  · obtain ⟨hheld, -⟩ := hk _ (List.mem_of_getElem? hi)
    obtain ⟨-, hrows⟩ := hfresh p pk d s hi
    rw [Calls.step_resume hi]
    refine ⟨Topped.store htop hheld rfl hrows, fun c hc => ?_⟩
    rcases List.mem_or_eq_of_mem_set hc with hc | rfl
    · exact (hk c hc).store hrows
    · trivial

def atRest (passkeys : List Passkey) (ids : (passkeys.map (·.id)).Nodup) : State := { shared := { passkeys, ids } }

/-- The counters of the responses increase, and are the counts stored, exactly in the runs whose stores are all fresh. -/
theorem counters_increase_iff (x : Externals) (passkeys : List Passkey) (ids : (passkeys.map (·.id)).Nodup) (es : List Event) :
    Increase (run (handling x).step (atRest passkeys ids) es).shared.stored ↔
      Guarded (handling x).step Fresh (atRest passkeys ids) es := by
  have h0 : Accounted x (atRest passkeys ids) := fun _ => ⟨fun s hs => absurd hs List.not_mem_nil, fun c hc => absurd hc List.not_mem_nil⟩
  have hstart : Increase (atRest passkeys ids).shared.stored := ⟨List.Pairwise.nil, fun s hs => absurd hs List.not_mem_nil⟩
  rw [run_iff_guarded (I := Accounted x) (D := fun σ => Increase σ.shared.stored) (fun _ e h => h.step e)
    (fun _ e h => increase_step h e) es h0, and_iff_right hstart]

/-! ## The responses -/

def Call.response : Call → Option Response
  | .done (.ok response) => some response
  | _ => none

theorem response_advance (h : c.response = none) :
    (advance x v c a).1.stored.map (·.response) = v.stored.map (·.response) ++ (advance x v c a).2.response.toList := by
  cases c with
  | done result =>
    cases result with
    | error => exact (List.append_nil _).symm
    | ok => cases h
  | storing p pk d s =>
    cases a with
    | failed => exact (List.append_nil _).symm
    | ended now => exact List.map_append
  | lookingUp p allowed rest =>
    cases a with
    | failed => exact (List.append_nil _).symm
    | ended now =>
      have hnone : (advance x v (.lookingUp p allowed rest) (.ended now)).2.response = none := by
        simp only [advance]
        split
        · rfl
        · split <;> rfl
      rw [hnone]
      exact (List.append_nil _).symm
  | discovering p =>
    cases a with
    | failed => exact (List.append_nil _).symm
    | ended now =>
      have hnone : (advance x v (.discovering p) (.ended now)).2.response = none := by
        simp only [advance]
        split <;> rfl
      rw [hnone]
      exact (List.append_nil _).symm
  | _ => cases a <;> exact (List.append_nil _).symm

/-- The successful responses of a run are those of the calls that stored. -/
theorem responses_perm (es : List Event) (passkeys : List Passkey) (ids : (passkeys.map (·.id)).Nodup) :
    ((run (handling x).step (atRest passkeys ids) es).calls.filterMap Call.response).Perm
      ((run (handling x).step (atRest passkeys ids) es).shared.stored.map (·.response)) := by
  refine (guarded_true (atRest passkeys ids) es).inv (I := fun σ : State => (σ.calls.filterMap Call.response).Perm
    (σ.shared.stored.map (·.response))) (fun σ e h _ => ?_) (List.Perm.refl [])
  cases e with
  | start p =>
    have hnone : (handlePasskeyGet p).response = none := by
      unfold handlePasskeyGet
      split
      · rfl
      · split <;> rfl
    change ((σ.calls ++ [handlePasskeyGet p]).filterMap Call.response).Perm _
    rwa [List.filterMap_append, List.filterMap_cons_none hnone, List.filterMap_nil, List.append_nil]
  | outside e => exact e.elim
  | resume i a =>
    cases hi : σ.calls[i]? with
    | none => rwa [Calls.step_resume_none hi]
    | some c =>
      rw [Calls.step_resume hi]
      have hset := Calls.filterMap_set_perm hi Call.response (advance x σ.shared c a).2
      cases hc : c.response with
      | none =>
        rw [hc] at hset
        refine hset.trans ?_
        change List.Perm _ ((advance x σ.shared c a).1.stored.map (·.response))
        rw [response_advance hc]
        exact (h.append_left _).trans List.perm_append_comm
      | some r =>
        have hdone : c = .done (.ok r) := by
          unfold Call.response at hc
          split at hc
          · rw [Option.some.inj hc]
          · cases hc
        subst hdone
        exact (hset.cons_inv).trans h

/-! ## Whose key answers -/

variable {passkeys : List Passkey}

/-- One of these passkeys but for its counter. -/
def Enrolled (passkeys : List Passkey) (k : Passkey) : Prop :=
  ∃ k₀ ∈ passkeys, k = { k₀ with signCount := k.signCount, lastUsedAt := k.lastUsedAt }

/-- A passkey of the relying party that the payload allows. -/
def Chosen (passkeys : List Passkey) (p : Payload) (k : Passkey) : Prop :=
  Enrolled passkeys k ∧ k.relyingPartyId = p.relyingPartyId ∧
    (k.credentialId ∈ p.allowCredentials ∨ p.allowCredentials = [] ∧ k.isDiscoverable = true)

variable (x) in
/-- An assertion for the payload with such a key. -/
def Asserts (passkeys : List Passkey) (p : Payload) (r : Response) : Prop :=
  ∃ k, Chosen passkeys p k ∧ ∃ signCount, let d := buildAuthenticatorData x p.relyingPartyId signCount
    r = storedResponse x p k d (x.sign k.privateKey (d ++ (x.sha256 (clientData x p)).toList))

variable (x) in
def Serves (passkeys : List Passkey) : Call → Payload → Prop
  | .lookingUp q allowed rest, p => q = p ∧ allowed :: rest ⊆ p.allowCredentials
  | .discovering q, p => q = p ∧ p.allowCredentials = []
  | .importing q k, p | .building q k, p => q = p ∧ Chosen passkeys p k
  | .hashing q k d, p | .signing q k d, p => q = p ∧ Chosen passkeys p k ∧ ∃ n, d = buildAuthenticatorData x p.relyingPartyId n
  | .storing q k d s, p => q = p ∧ Chosen passkeys p k ∧ (∃ n, d = buildAuthenticatorData x p.relyingPartyId n) ∧
      s = x.sign k.privateKey (d ++ (x.sha256 (clientData x p)).toList)
  | .done (.ok r), p => Asserts x passkeys p r
  | .done (.error _), _ => True

theorem enrolled_setSignCount (h : ∀ k ∈ v.passkeys, Enrolled passkeys k) (id : String) (n : Nat) (now : String) (r : Response) :
    ∀ k ∈ (v.setSignCount id n now r).passkeys, Enrolled passkeys k := by
  intro k hk
  obtain ⟨row, hrow, rfl⟩ := List.mem_map.1 hk
  obtain ⟨k₀, hk₀, hrow⟩ := h row hrow
  refine ⟨k₀, hk₀, ?_⟩
  split <;> rw [hrow]

theorem handlePasskeyGet_serves (p : Payload) : Serves x passkeys (handlePasskeyGet p) p := by
  unfold handlePasskeyGet
  split
  · trivial
  · split
    · rename_i h
      exact ⟨rfl, h⟩
    · rename_i h
      exact ⟨rfl, h ▸ List.Subset.refl _⟩

theorem advance_serves (c : Call) (a : Wait) (h : ∀ k ∈ v.passkeys, Enrolled passkeys k) :
    (∀ k ∈ (advance x v c a).1.passkeys, Enrolled passkeys k) ∧ ∀ p, Serves x passkeys c p → Serves x passkeys (advance x v c a).2 p := by
  cases a with
  | failed error =>
    cases c with
    | done result => exact ⟨h, fun _ => id⟩
    | _ => exact ⟨h, fun _ _ => trivial⟩
  | ended now =>
    cases c with
    | done result => exact ⟨h, fun _ => id⟩
    | lookingUp q allowed rest =>
      refine ⟨h, ?_⟩
      rintro p ⟨rfl, hsub⟩
      simp only [advance]
      split
      · rename_i k hk
        have hfor := List.find?_some hk
        simp only [Bool.and_eq_true, decide_eq_true_eq] at hfor
        exact ⟨rfl, h k (List.mem_of_find?_eq_some hk), hfor.2, .inl (hsub (hfor.1 ▸ List.mem_cons_self))⟩
      · split
        · trivial
        · exact ⟨rfl, fun c hc => hsub (List.mem_cons_of_mem _ hc)⟩
    | discovering q =>
      refine ⟨h, ?_⟩
      rintro p ⟨rfl, hnone⟩
      simp only [advance]
      split
      · rename_i k hk
        have hfor := List.find?_some hk
        simp only [Bool.and_eq_true, decide_eq_true_eq] at hfor
        exact ⟨rfl, h k (List.mem_of_find?_eq_some hk), hfor.1, .inr ⟨hnone, hfor.2⟩⟩
      · trivial
    | importing q k => exact ⟨h, fun _ => id⟩
    | building q k =>
      refine ⟨h, ?_⟩
      rintro p ⟨rfl, hk⟩
      exact ⟨rfl, hk, _, rfl⟩
    | hashing q k d => exact ⟨h, fun _ => id⟩
    | signing q k d =>
      refine ⟨h, ?_⟩
      rintro p ⟨rfl, hk, hd⟩
      exact ⟨rfl, hk, hd, rfl⟩
    | storing q k d s =>
      refine ⟨enrolled_setSignCount h _ _ _ _, ?_⟩
      rintro p ⟨rfl, hk, ⟨n, rfl⟩, rfl⟩
      exact ⟨k, hk, n, rfl⟩

/-- Every response answers its own request: it is an assertion for that relying party and challenge, with a key of the vault
that is the relying party's and allowed. -/
def AnswersOwn (x : Externals) (v : Vault) (es : List Event) : Prop :=
  ∀ (i : Nat) (r : Response), (run (handling x).step { shared := v } es).calls[i]? = some (Call.done (.ok r)) →
    ∃ p, (es.filterMap Calls.Event.made)[i]? = some p ∧ Asserts x v.passkeys p r

theorem answers_own_request (x : Externals) (v : Vault) (es : List Event) : AnswersOwn x v es := by
  intro i r hi
  have h0 : ∀ k ∈ v.passkeys, Enrolled v.passkeys k := fun k hk => ⟨k, hk, rfl⟩
  exact Calls.run_made (M := handling x) (I := fun w => ∀ k ∈ w.passkeys, Enrolled v.passkeys k) handlePasskeyGet_serves
    (fun w c a => advance_serves c a) (fun _ e => e.elim) h0 hi

/-! ## Two calls, in turn and at once -/

def samplePasskey : Passkey := ⟨"k", "c", "r", "u", "p", 0, true, none⟩

def plainExternals : Externals := ⟨fun _ => Vector.replicate 32 0, fun challenge _ => challenge, fun _ _ => []⟩

def inTurn : List Event :=
  .start ⟨"r", "c", []⟩ :: List.replicate 6 (.resume 0 (.ended "t")) ++
    .start ⟨"r", "d", []⟩ :: List.replicate 6 (.resume 1 (.ended "t"))

def FreshAt (passkeys : List Passkey) : Option Call → Prop
  | some (.storing _ k _ _) => k.signCount + 1 < 2 ^ 32 ∧ ∀ row ∈ passkeys, row.id = k.id → row.signCount = k.signCount
  | _ => True

instance decidableFreshAt (passkeys : List Passkey) : ∀ c, Decidable (FreshAt passkeys c)
  | some (.storing _ k _ _) => inferInstanceAs (Decidable (k.signCount + 1 < 2 ^ 32 ∧ ∀ _ ∈ passkeys, _ → _))
  | some (.lookingUp ..) | some (.discovering ..) | some (.importing ..) | some (.building ..) | some (.hashing ..)
  | some (.signing ..) | some (.done ..) | none => inferInstanceAs (Decidable True)

theorem freshAt_iff {σ : State} {i : Nat} {now : String} :
    FreshAt σ.shared.passkeys σ.calls[i]? ↔ Fresh σ (.resume i (.ended now)) := by
  constructor
  · intro h p k d s hstoring
    rw [hstoring] at h
    exact h
  · intro h
    unfold FreshAt
    split
    · next hstoring => exact h _ _ _ _ hstoring
    · trivial

instance decidableFresh (σ : State) : ∀ e, Decidable (Fresh σ e)
  | .resume _ (.ended _) => decidable_of_iff _ freshAt_iff
  | .resume _ (.failed _) | .start _ | .outside _ => inferInstanceAs (Decidable True)

/-- Each of two calls in turn stores over the count that it has read. -/
theorem counters_increase_inTurn :
    Increase (run (handling plainExternals).step (atRest [samplePasskey] (List.nodup_singleton _)) inTurn).shared.stored :=
  (counters_increase_iff plainExternals [samplePasskey] (List.nodup_singleton _) inTurn).2 (by decide +kernel)

def sideBySide : List Event :=
  let p : Payload := ⟨"r", "c", []⟩
  let turn : List Event := [.resume 0 (.ended "t"), .resume 1 (.ended "t")]
  [.start p, .start p] ++ turn ++ turn ++ turn ++ turn ++ turn ++ turn

theorem stored_sideBySide (x : Externals) : ∃ stored : Stored,
    (run (handling x).step (atRest [samplePasskey] (List.nodup_singleton _)) sideBySide).shared.stored = [stored, stored] := by
  refine ⟨⟨1, storedResponse x ⟨"r", "c", []⟩ samplePasskey (buildAuthenticatorData x "r" 1)
    (x.sign "p" (buildAuthenticatorData x "r" 1 ++ (x.sha256 (clientData x ⟨"r", "c", []⟩)).toList))⟩, ?_⟩
  simp [sideBySide, run, Calls.Machine.step, handling, handlePasskeyGet, advance, atRest, samplePasskey, Vault.setSignCount,
    storedResponse]

theorem responses_perm_sideBySide :
    let σ := run (handling plainExternals).step (atRest [samplePasskey] (List.nodup_singleton _)) sideBySide
    (σ.calls.filterMap Call.response).Perm (σ.shared.stored.map (·.response)) :=
  responses_perm sideBySide [samplePasskey] (List.nodup_singleton _)

theorem not_increase_twice (stored : Stored) : ¬Increase [stored, stored] :=
  fun ⟨hless, _⟩ => Nat.lt_irrefl _ ((List.pairwise_cons.1 hless).1 stored List.mem_cons_self rfl)

/-- Whatever the digest and the signature are, both answer with the count 1. -/
theorem same_counter_twice :
    ¬∃ x, Increase (run (handling x).step (atRest [samplePasskey] (List.nodup_singleton _)) sideBySide).shared.stored := by
  rintro ⟨x, h⟩
  obtain ⟨stored, hstored⟩ := stored_sideBySide x
  rw [hstored] at h
  exact not_increase_twice stored h

end HaexVault.ExternalBridge.PasskeyCounters
