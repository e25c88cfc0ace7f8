import HaexVault.ExternalBridge.Server
/-!
# Who may send requests

The user approves a client with its key, but a request is let pass by the client's id alone, which
everyone may claim (`requests_bound`). A block is read at the handshake only, and the server keeps
session authorizations when it stops: `revocations_hold` says when what is taken stays taken.
-/

namespace HaexVault.ExternalBridge

open HaexVault.Lib.Runs

namespace Bridge
variable (parse : String → Except String ProtocolMessage)

def opened (extensions : List ExtensionRow) (authorizedClients : List Grant) (blockedClients : List String) : Bridge :=
  { extensions, authorizedClients, blockedClients }

/-! ## Keys -/

/-- The client of a request was approved with the key of the connection, and the response is encrypted to it, or is not
sent because the key is malformed. -/
structure Bound (s : Bridge) (f : Forward) (reply : Option Reply) : Prop where
  approved : ∃ g ∈ s.grants f.clientId, g.publicKey = f.publicKey
  only : ∀ g ∈ s.grants f.clientId, g.publicKey = f.publicKey
  response : reply = some (.response f.publicKey) ∨
    reply = some (.error "ENCRYPTION_ERROR" "Failed to encrypt response")

/-- A handshake under an id with grants carries their key, and an approval is of the key of whoever is connected under
the id. -/
def Identified (s : Bridge) (e : Event × World) : Prop :=
  match e.1 with
  | .message _ m => ∀ client, handshakeOf parse m = some client → s.refuses e.2 client.clientId = false →
      ∀ g ∈ s.grants client.clientId, g.publicKey = client.publicKey
  | .allow grant remember => s.Stores e.2 grant remember → ∀ (i : Nat) (c : Connection), s.connections i = some c →
      c.status = .reading → c.clientId = some grant.clientId → c.publicKey = some grant.publicKey
  | _ => True

def Keyed (s : Bridge) : Prop :=
  ∀ (i : Nat) (c : Connection) (cid : String), s.connections i = some c → c.status = .reading →
    c.clientId = some cid → ∃ key, c.publicKey = some key ∧ ∀ g ∈ s.grants cid, g.publicKey = key

variable {parse} {s : Bridge} {e : Event × World}

theorem Keyed.step (h : Keyed s) (he : Identified parse s e) : Keyed (s.step parse e) := by
  intro i c' cid hc' hr hid
  have hgrants : ∀ key, c'.publicKey = some key → (∀ g ∈ s.grants cid, g.publicKey = key) →
      (∀ g remember, e.1 = .allow g remember → s.Stores e.2 g remember → cid = g.clientId → g.publicKey = key) →
      ∀ g ∈ (s.step parse e).grants cid, g.publicKey = key := by
    intro key _ hold hnew g hg
    rcases step_grants hg with hg | ⟨remember, hallow, hstores, hcid⟩
    · exact hold g hg
    · exact hnew g remember hallow hstores hcid
  rcases step_connection hc' hr with
    ⟨c, hc, hreading, hcid, hckey⟩ | hnone | ⟨m, client, hm, hof, hrefuses, hcid, hckey⟩
  · rw [hcid] at hid
    obtain ⟨key, hkey, hold⟩ := h i c cid hc hreading hid
    refine ⟨key, hckey.trans hkey, hgrants key (hckey.trans hkey) hold fun g remember hallow hstores hg => ?_⟩
    unfold Identified at he
    rw [hallow] at he
    have happroved := he hstores i c hc hreading (hid.trans (congrArg some hg))
    exact Option.some.inj (happroved.symm.trans hkey)
  · rw [hnone] at hid
    cases hid
  · rw [hcid] at hid
    cases hid
    refine ⟨client.publicKey, hckey, hgrants _ hckey ?_ fun g remember hallow => by rw [hm] at hallow; cases hallow⟩
    unfold Identified at he
    rw [hm] at he
    exact he client hof hrefuses

theorem Keyed.bound (h : Keyed s) {f : Forward} {reply : Option Reply} (hf : s.forwarded parse e = some (f, reply)) :
    Bound s f reply := by
  obtain ⟨i, c, hc, hreading, hid, hkey, hreply, g, hg⟩ := forwarded_granted hf
  obtain ⟨key, hckey, hgrants⟩ := h i c f.clientId hc hreading hid
  have hfkey : f.publicKey = key := by rw [hkey, hckey, Option.getD_some]
  refine ⟨⟨g, hg, (hgrants g hg).trans hfkey.symm⟩, fun g hg => (hgrants g hg).trans hfkey.symm, ?_⟩
  rw [hreply, hckey, hfkey, Option.map_some, Option.some.injEq, Option.some.injEq]
  exact e.2.respond_cases key

/-- In a run whose handshakes and approvals agree on the keys of the ids, every request that is forwarded comes from a
connection with the key its client was approved with, and that key alone can read the response. -/
theorem requests_bound (parse : String → Except String ProtocolMessage) (extensions : List ExtensionRow)
    (authorizedClients : List Grant) (blockedClients : List String) (es : List (Event × World))
    (h : Guarded (step parse) (Identified parse) (opened extensions authorizedClients blockedClients) es) :
    Guarded (step parse) (fun s e => ∀ f reply, s.forwarded parse e = some (f, reply) → Bound s f reply)
      (opened extensions authorizedClients blockedClients) es := by
  have hinit : Keyed (opened extensions authorizedClients blockedClients) := by
    intro i c cid hc
    cases hc
  exact h.each (I := Keyed) (fun _ _ h he => h.step he) (fun _ _ h _ _ _ hf => h.bound hf) hinit

/-- The handshakes of a client under the keys `k1` and `k2`, and its request to the extension `haex-pass`. -/
def sampleParse (text : String) : Except String ProtocolMessage :=
  if text = handshakeText "k1" then .ok (.handshake ⟨"c1", "browser", "k1", []⟩)
  else if text = handshakeText "k2" then .ok (.handshake ⟨"c1", "browser", "k2", []⟩)
  else if text = requestText then .ok (.request ⟨"get-logins", some "e1", some "haex-pass", .ok (some "1")⟩)
  else .error "expected value at line 1 column 1"
where
  handshakeText (key : String) : String :=
    "\x7b\"type\":\"handshake\",\"version\":1,\"client\":\x7b\"clientId\":\"c1\",\"clientName\":\"browser\"," ++
      "\"publicKey\":\"" ++ key ++ "\"\x7d\x7d"
  requestText : String :=
    "\x7b\"type\":\"request\",\"action\":\"get-logins\",\"message\":\"AA==\",\"iv\":\"AA==\",\"clientId\":\"c1\"," ++
      "\"publicKey\":\"AA==\",\"extensionPublicKey\":\"e1\",\"extensionName\":\"haex-pass\"\x7d"

def sampleBridge : Bridge := opened [⟨"x1", "e1", "haex-pass"⟩] [⟨"c1", "k1", "x1"⟩] []

def sampleConnected (key : String) : List (Event × World) :=
  [(.start, {}), (.accept, {}), (.message 0 (.text (sampleParse.handshakeText key)), {})]

def sampleRequest : Event × World := (.message 0 (.text sampleParse.requestText), {})

theorem sample_handshake : handshakeOf sampleParse (.text (sampleParse.handshakeText "k1")) =
    some ⟨"c1", "browser", "k1", []⟩ := rfl

theorem sample_request : handshakeOf sampleParse (.text sampleParse.requestText) = none := by decide +kernel

theorem requests_bound_approved :
    Guarded (step sampleParse) (Identified sampleParse) sampleBridge (sampleConnected "k1" ++ [sampleRequest]) ∧
      Guarded (step sampleParse) (fun s e => ∀ f reply, s.forwarded sampleParse e = some (f, reply) → Bound s f reply)
        sampleBridge (sampleConnected "k1" ++ [sampleRequest]) := by
  have h : Guarded (step sampleParse) (Identified sampleParse) sampleBridge (sampleConnected "k1" ++ [sampleRequest]) := by
    refine ⟨trivial, trivial, fun client hof _ => ?_, fun client hof => ?_, trivial⟩
    · obtain rfl := Option.some.inj (sample_handshake.symm.trans hof)
      decide
    · rw [sample_request] at hof
      cases hof
  exact ⟨h, requests_bound sampleParse _ _ _ _ h⟩

/-- Someone else connects under the id of an approved client. -/
theorem request_unbound : ¬ ∀ (parse : String → Except String ProtocolMessage) (extensions : List ExtensionRow)
    (authorizedClients : List Grant) (blockedClients : List String) (es : List (Event × World)),
    Guarded (step parse) (fun s e => ∀ f reply, s.forwarded parse e = some (f, reply) → Bound s f reply)
      (opened extensions authorizedClients blockedClients) es := by
  intro h
  obtain ⟨-, -, -, hrequest, -⟩ := h sampleParse [⟨"x1", "e1", "haex-pass"⟩] [⟨"c1", "k1", "x1"⟩] []
    (sampleConnected "k2" ++ [sampleRequest])
  have hbound := hrequest ⟨"c1", "k2", "x1"⟩ (some (.response "k2")) (by decide +kernel)
  exact absurd (hbound.only ⟨"c1", "k1", "x1"⟩ (by decide +kernel)) (by decide)

/-! ## What is taken from a client -/

/-- A bridge, and the clients that were blocked, or lost their last grant, and are not allowed again. -/
structure Audited where
  bridge : Bridge
  barred : String → Bool := fun _ => false

/-- Which clients are barred after a step. -/
def bars (parse : String → Except String ProtocolMessage) (s : Bridge) (barred : String → Bool) (e : Event × World) :
    String → Bool :=
  match e.1 with
  | .allow grant remember =>
    if (s.clientAllow e.2 grant remember).isOk then Function.update barred grant.clientId false else barred
  | .block clientId remember =>
    if remember && s.blockable e.2 clientId then Function.update barred clientId true else barred
  | .revokeClient clientId | .revokeSessionAuthorization clientId =>
    if !(s.grants clientId).isEmpty && ((s.step parse e).grants clientId).isEmpty then
      Function.update barred clientId true
    else barred
  | _ => barred

namespace Audited

def step (parse : String → Except String ProtocolMessage) (a : Audited) (e : Event × World) : Audited :=
  { bridge := a.bridge.step parse e, barred := bars parse a.bridge a.barred e }

/-- What a step forwards, takes and leaves. -/
structure Effective (parse : String → Except String ProtocolMessage) (a : Audited) (e : Event × World) : Prop where
  /-- Nothing is forwarded for a barred client. -/
  barred : ∀ f reply, a.bridge.forwarded parse e = some (f, reply) → a.barred f.clientId = false
  /-- An allow leaves the grants for other extensions. -/
  others : ∀ grant remember, e.1 = .allow grant remember → ∀ g ∈ a.bridge.grants grant.clientId,
    g.extensionId ≠ grant.extensionId →
    ∃ g' ∈ (a.bridge.step parse e).grants grant.clientId, g'.extensionId = g.extensionId
  /-- Session authorizations end with the server. -/
  stopped : e.1 = .stop → a.bridge.running = true → ∀ cid, (a.bridge.step parse e).sessionAuthorizations cid = none

def Absent (s : Bridge) (cid : String) : Prop :=
  ∀ (i : Nat) (c : Connection), s.connections i = some c → c.status = .reading → c.clientId ≠ some cid

/-- Who is blocked has no grant or is not connected, who is allowed once has no other session authorization that counts,
and the server stops without any. -/
def Meets (a : Audited) (e : Event × World) : Prop :=
  match e.1 with
  | .block clientId true => a.bridge.blockable e.2 clientId = true →
      a.bridge.grants clientId = [] ∨ Absent a.bridge clientId
  | .allow grant false => ∀ g, a.bridge.sessionAuthorizations grant.clientId = some g →
      g.extensionId = grant.extensionId ∨
      ∃ row ∈ a.bridge.authorizedClients, row.clientId = grant.clientId ∧ row.extensionId = g.extensionId
  | .stop => a.bridge.running = true → ∀ cid, a.bridge.sessionAuthorizations cid = none
  | _ => True

def Kept (a : Audited) : Prop :=
  ∀ cid, a.barred cid = true →
    a.bridge.grants cid = [] ∨ cid ∈ a.bridge.blockedClients ∧ Absent a.bridge cid

variable {a : Audited}

theorem bars_cases {s : Bridge} {barred : String → Bool} {cid : String} (h : bars parse s barred e cid = true) :
    barred cid = true ∨ (e.1 = .block cid true ∧ s.blockable e.2 cid = true) ∨ (s.step parse e).grants cid = [] := by
  have hupdate : ∀ {cid' : String} {p : Prop}, Function.update barred cid' true cid = true →
      (cid = cid' → p) → barred cid = true ∨ p := by
    intro cid' p h hp
    by_cases hcid : cid = cid'
    · exact .inr (hp hcid)
    · rw [Function.update_of_ne hcid] at h
      exact .inl h
  obtain ⟨e, w⟩ := e
  cases e with
  | allow grant remember =>
    simp only [bars] at h
    split at h
    · by_cases hcid : cid = grant.clientId
      · rw [hcid, Function.update_self] at h
        cases h
      · rw [Function.update_of_ne hcid] at h
        exact .inl h
    · exact .inl h
  | block clientId remember =>
    simp only [bars] at h
    split at h
    · rename_i hblock
      obtain ⟨rfl, hblockable⟩ := Bool.and_eq_true_iff.1 hblock
      exact hupdate h fun hcid => .inl ⟨by rw [hcid], by rw [hcid]; exact hblockable⟩
    · exact .inl h
  | revokeClient clientId | revokeSessionAuthorization clientId =>
    simp only [bars] at h
    split at h
    · rename_i hempty
      refine hupdate h fun hcid => .inr ?_
      rw [hcid]
      exact List.isEmpty_iff.1 (Bool.and_eq_true_iff.1 hempty).2
    · exact .inl h
  | _ => exact .inl h

theorem bars_allow {s : Bridge} {barred : String → Bool} {grant : Grant} {remember : Bool}
    (hallow : e.1 = .allow grant remember) (hstores : s.Stores e.2 grant remember) :
    bars parse s barred e grant.clientId = false := by
  have hok : (s.clientAllow e.2 grant remember).isOk = true := by
    unfold clientAllow
    cases remember with
    | true => rw [if_pos rfl, if_pos (hstores rfl)]; rfl
    | false => rfl
  rw [bars, hallow]
  simp only [hok, if_true, Function.update_self]

theorem step_blocked {s : Bridge} {cid : String} (h : cid ∈ s.blockedClients) :
    cid ∈ (s.step parse e).blockedClients := by
  obtain ⟨e, w⟩ := e
  have hstep := step_stepped parse s e w
  generalize s.step parse (e, w) = s' at hstep
  cases hstep with
  | message hc hr hh => rwa [hh.kept.2.2]
  | allowed hs => rwa [(clientAllow_ok hs).2.2.1]
  | @blocked clientId remember _ hs =>
    rw [(clientBlock_ok hs).2.2.2.2]
    cases remember with
    | true => exact List.mem_append_left _ h
    | false => exact h
  | revoked hs => rwa [revokeClient_ok hs]
  | stopped hs => rwa [(stop_ok hs).2]
  | same | accepted | writeTaskEnds | denied | revokedSession | started => exact h

theorem step_absent {s : Bridge} {cid : String} (hblocked : cid ∈ s.blockedClients) (h : Absent s cid) :
    Absent (s.step parse e) cid := by
  intro i c' hc' hr hid
  rcases step_connection hc' hr with ⟨c, hc, hreading, hcid, -⟩ | hnone | ⟨m, client, -, -, hrefuses, hcid, -⟩
  · exact h i c hc hreading (hcid.symm.trans hid)
  · rw [hnone] at hid
    cases hid
  · obtain rfl := Option.some.inj (hcid.symm.trans hid)
    simp [refuses, checkClientBlocked, hblocked] at hrefuses

theorem Kept.step (h : Kept a) (he : Meets a e) : Kept (a.step parse e) := by
  intro cid hbarred
  -- a grant that a step adds is of a client that it allows
  have hgrants : a.bridge.grants cid = [] → (a.bridge.step parse e).grants cid = [] := by
    intro hnone
    refine List.eq_nil_iff_forall_not_mem.2 fun g hg => ?_
    rcases step_grants hg with hg | ⟨remember, hallow, hstores, hcid⟩
    · rw [hnone] at hg
      cases hg
    · have hfree : bars parse a.bridge a.barred e cid = false := hcid ▸ bars_allow hallow hstores
      exact Bool.noConfusion (hfree.symm.trans hbarred)
  rcases bars_cases hbarred with hold | ⟨hblock, hblockable⟩ | hnone
  · rcases h cid hold with hnone | ⟨hblocked, habsent⟩
    · exact .inl (hgrants hnone)
    · exact .inr ⟨step_blocked hblocked, step_absent hblocked habsent⟩
  · unfold Meets at he
    rw [hblock] at he
    rcases he hblockable with hnone | habsent
    · exact .inl (hgrants hnone)
    · right
      obtain ⟨e, w⟩ := e
      cases hblock
      have hok : a.bridge.step parse (.block cid true, w) =
          { a.bridge with blockedClients := a.bridge.blockedClients ++ [cid] }.denyPendingRequest cid := by
        show a.bridge.orElse (a.bridge.clientBlock w cid true) = _
        rw [clientBlock, if_pos rfl, if_pos hblockable]
        rfl
      show cid ∈ (a.bridge.step parse (.block cid true, w)).blockedClients ∧
        Absent (a.bridge.step parse (.block cid true, w)) cid
      rw [hok]
      exact ⟨List.mem_append_right _ List.mem_cons_self, habsent⟩
  · exact .inl hnone

theorem Kept.effective (h : Kept a) (he : Meets a e) : Effective parse a e where
  barred f reply hf := by
    obtain ⟨i, c, hc, hreading, hid, -, -, g, hg⟩ := forwarded_granted hf
    cases hbarred : a.barred f.clientId with
    | false => rfl
    | true =>
      rcases h f.clientId hbarred with hnone | ⟨-, habsent⟩
      · rw [hnone] at hg
        cases hg
      · exact absurd hid (habsent i c hc hreading)
  others grant remember hallow g hg hne := by
    obtain ⟨e, w⟩ := e
    cases hallow
    change ∃ g' ∈ (a.bridge.orElse (a.bridge.clientAllow w grant remember)).grants grant.clientId, _
    rcases a.bridge.orElse_cases (a.bridge.clientAllow w grant remember) with hs | hs
    · rw [hs]
      exact ⟨g, hg, rfl⟩
    · obtain ⟨-, -, -, hrows, hsession⟩ := clientAllow_ok hs
      cases remember with
      | true =>
        refine ⟨g, ?_, rfl⟩
        rw [mem_grants] at hg ⊢
        rw [hrows, hsession]
        exact hg.imp_left fun hg => ⟨List.mem_append_left _ hg.1, hg.2⟩
      | false =>
        rcases mem_grants.1 hg with hrow | hg
        · exact ⟨g, mem_grants.2 (.inl (hrows ▸ hrow)), rfl⟩
        · rcases he g hg with hsame | ⟨row, hrow, hid, hext⟩
          · exact absurd hsame hne
          · exact ⟨row, mem_grants.2 (.inl ⟨hrows ▸ hrow, hid⟩), hext⟩
  stopped hstop hrunning cid := by
    obtain ⟨e, w⟩ := e
    cases hstop
    change (a.bridge.orElse a.bridge.stop).sessionAuthorizations cid = none
    rw [stop, if_pos hrunning]
    exact he hrunning cid

/-- In a run in which who is blocked has no grant or is not connected, who is allowed once has no other session
authorization, and the server stops without any: what is taken from a client stays taken until it is allowed again. -/
theorem revocations_hold (parse : String → Except String ProtocolMessage) (extensions : List ExtensionRow)
    (authorizedClients : List Grant) (blockedClients : List String) (es : List (Event × World))
    (h : Guarded (step parse) Meets { bridge := opened extensions authorizedClients blockedClients } es) :
    Guarded (step parse) (Effective parse) { bridge := opened extensions authorizedClients blockedClients } es := by
  have hinit : Kept { bridge := opened extensions authorizedClients blockedClients } := by
    intro cid hbarred
    cases hbarred
  exact h.each (I := Kept) (fun _ _ h he => h.step he) (fun _ _ h he => h.effective he) hinit

/-- The grants of a connected client are revoked. -/
theorem revocations_hold_connected :
    Guarded (step sampleParse) Meets { bridge := sampleBridge }
        (sampleConnected "k1" ++ [(.revokeClient "c1", {}), sampleRequest]) ∧
      Guarded (step sampleParse) (Effective sampleParse) { bridge := sampleBridge }
        (sampleConnected "k1" ++ [(.revokeClient "c1", {}), sampleRequest]) := by
  have h : Guarded (step sampleParse) Meets { bridge := sampleBridge }
      (sampleConnected "k1" ++ [(.revokeClient "c1", {}), sampleRequest]) :=
    ⟨trivial, trivial, trivial, trivial, trivial, trivial⟩
  exact ⟨h, revocations_hold sampleParse _ _ _ _ h⟩

/-- A client with grants is blocked while it is connected. -/
theorem blocked_forwarded : ¬ ∀ (parse : String → Except String ProtocolMessage) (extensions : List ExtensionRow)
    (authorizedClients : List Grant) (blockedClients : List String) (es : List (Event × World)),
    Guarded (step parse) (Effective parse) { bridge := opened extensions authorizedClients blockedClients } es := by
  intro h
  obtain ⟨-, -, -, -, hrequest, -⟩ := h sampleParse [⟨"x1", "e1", "haex-pass"⟩] [⟨"c1", "k1", "x1"⟩] []
    (sampleConnected "k1" ++ [(.block "c1" true, {}), sampleRequest])
  have hfree := hrequest.barred ⟨"c1", "k1", "x1"⟩ (some (.response "k1")) (by decide +kernel)
  exact absurd hfree (by decide +kernel)

end Audited

end Bridge
end HaexVault.ExternalBridge
