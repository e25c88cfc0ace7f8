import HaexVault.ExternalBridge.Server
/-!
# The table of connected clients

An entry of `clients` stands under the id that a client gave itself, and a handler that leaves its
loop removes what stands under its last id; one that panics or returns an error removes nothing.
`clients_tracked` says when the table follows the connections.
-/

namespace HaexVault.ExternalBridge

open HaexVault.Lib.Runs

namespace Bridge

/-- The table follows the connections. -/
structure Tracked (s : Bridge) : Prop where
  /-- No handler has panicked. -/
  calm : ∀ (i : Nat) (c : Connection), s.connections i = some c → c.status ≠ .panicked
  /-- What is in the table is of a connection that is open. -/
  live : ∀ cid entry, s.clients cid = some entry → ∃ c, s.connections entry.tx = some c ∧ c.status = .reading
  /-- Who is connected under an id finds its own entry there, or that of a newer connection. -/
  present : ∀ (i : Nat) (c : Connection) (cid : String), s.connections i = some c → c.status = .reading →
    c.clientId = some cid → ∃ entry, s.clients cid = some entry ∧ i ≤ entry.tx

/-- A message that the handler of the connection can take: its preview splits no character, a handshake keeps the id of
the connection and takes that of no other, and what is answered can be sent unless nothing is in the table yet. -/
structure Takes (parse : String → Except String ProtocolMessage) (s : Bridge) (w : World) (i : Nat) (c : Connection)
    (m : WsMessage) : Prop where
  sliceable : ∀ text, m = .text text → sliceable text = true
  keeps : ∀ client, handshakeOf parse m = some client → c.clientId = none ∨ c.clientId = some client.clientId
  alone : ∀ client, handshakeOf parse m = some client → ∀ (j : Nat) (d : Connection), s.connections j = some d →
    d.status = .reading → d.clientId = some client.clientId → j = i
  sends : c.writing = false → Answered parse m →
    c.clientId = none ∧ ∀ client, handshakeOf parse m = some client → s.refuses w client.clientId = true

def Orderly (parse : String → Except String ProtocolMessage) (s : Bridge) (e : Event × World) : Prop :=
  match e.1 with
  | .message i m => ∀ c, s.connections i = some c → c.status = .reading → Takes parse s e.2 i c m
  | .stop => s.running = false
  | _ => True

/-- Every entry is of the one connection that is open under its id. -/
structure Matched (s : Bridge) : Prop where
  calm : ∀ (i : Nat) (c : Connection), s.connections i = some c → c.status ≠ .panicked
  live : ∀ cid entry, s.clients cid = some entry →
    ∃ c, s.connections entry.tx = some c ∧ c.status = .reading ∧ c.clientId = some cid
  present : ∀ (i : Nat) (c : Connection) (cid : String), s.connections i = some c → c.status = .reading →
    c.clientId = some cid → ∃ entry, s.clients cid = some entry ∧ entry.tx = i
  fresh : ∀ i, s.accepted ≤ i → s.connections i = none

theorem Matched.tracked {s : Bridge} (h : Matched s) : Tracked s where
  calm := h.calm
  live cid entry he := by
    obtain ⟨c, hc, hreading, -⟩ := h.live cid entry he
    exact ⟨c, hc, hreading⟩
  present i c cid hc hreading hid := by
    obtain ⟨entry, he, htx⟩ := h.present i c cid hc hreading hid
    exact ⟨entry, he, Nat.le_of_eq htx.symm⟩

variable {parse : String → Except String ProtocolMessage} {s : Bridge} {w : World} {i : Nat} {c : Connection}
  {m : WsMessage}

theorem Matched.unique (h : Matched s) {j : Nat} {d : Connection} {cid : String} (hc : s.connections i = some c)
    (hr : c.status = .reading) (hid : c.clientId = some cid) (hd : s.connections j = some d) (hdr : d.status = .reading)
    (hdid : d.clientId = some cid) : j = i := by
  obtain ⟨entry, he, htx⟩ := h.present i c cid hc hr hid
  obtain ⟨entry', he', htx'⟩ := h.present j d cid hd hdr hdid
  rw [← htx, ← htx', Option.some.inj (he.symm.trans he')]

section
variable {s' : Bridge} {c' : Connection}

theorem Matched.stays (h : Matched s) (hc : s.connections i = some c) (hr : c.status = .reading)
    (hconn : s'.connections = Function.update s.connections i (some c')) (haccepted : s'.accepted = s.accepted)
    (hr' : c'.status = .reading) (hid : c.clientId = none ∨ c'.clientId = c.clientId)
    (halone : ∀ cid, c'.clientId = some cid → ∀ (j : Nat) (d : Connection), s.connections j = some d →
      d.status = .reading → d.clientId = some cid → j = i)
    (hkept : ∀ cid, c'.clientId ≠ some cid → s'.clients cid = s.clients cid)
    (hentry : ∀ cid, c'.clientId = some cid → ∃ entry, s'.clients cid = some entry ∧ entry.tx = i) : Matched s' where
  calm j d hd := by
    rw [hconn] at hd
    by_cases hj : j = i
    · rw [hj, Function.update_self] at hd
      cases hd
      rw [hr']
      simp
    · rw [Function.update_of_ne hj] at hd
      exact h.calm j d hd
  live cid entry he := by
    by_cases hcid : c'.clientId = some cid
    · obtain ⟨entry', he', htx⟩ := hentry cid hcid
      obtain rfl := Option.some.inj (he.symm.trans he')
      exact ⟨c', by rw [hconn, htx, Function.update_self], hr', hcid⟩
    · rw [hkept cid hcid] at he
      obtain ⟨d, hd, hdr, hdid⟩ := h.live cid entry he
      have hne : entry.tx ≠ i := by
        intro hj
        obtain rfl := Option.some.inj ((hj ▸ hd).symm.trans hc)
        rcases hid with hid | hid
        · rw [hid] at hdid
          cases hdid
        · exact hcid (hid.trans hdid)
      exact ⟨d, by rw [hconn, Function.update_of_ne hne, hd], hdr, hdid⟩
  present j d cid hd hdr hdid := by
    rw [hconn] at hd
    by_cases hj : j = i
    · subst hj
      rw [Function.update_self] at hd
      cases hd
      exact hentry cid hdid
    · rw [Function.update_of_ne hj] at hd
      rw [hkept cid fun hcid => hj (halone cid hcid j d hd hdr hdid)]
      exact h.present j d cid hd hdr hdid
  fresh j hj := by
    rw [haccepted] at hj
    have hne : j ≠ i := by
      rintro rfl
      rw [h.fresh j hj] at hc
      cases hc
    rw [hconn, Function.update_of_ne hne]
    exact h.fresh j hj

theorem Matched.ends (c' : Connection) (h : Matched s) (hc : s.connections i = some c) (hr : c.status = .reading)
    (hconn : s'.connections = Function.update s.connections i (some c')) (haccepted : s'.accepted = s.accepted)
    (hr' : c'.status ≠ .reading) (hcalm : c'.status ≠ .panicked)
    (hclients : ∀ cid, s'.clients cid = if c.clientId = some cid then none else s.clients cid) : Matched s' where
  calm j d hd := by
    rw [hconn] at hd
    by_cases hj : j = i
    · rw [hj, Function.update_self] at hd
      cases hd
      exact hcalm
    · rw [Function.update_of_ne hj] at hd
      exact h.calm j d hd
  live cid entry he := by
    rw [hclients] at he
    split at he
    · cases he
    · rename_i hcid
      obtain ⟨d, hd, hdr, hdid⟩ := h.live cid entry he
      have hne : entry.tx ≠ i := by
        intro hj
        obtain rfl := Option.some.inj ((hj ▸ hd).symm.trans hc)
        exact hcid hdid
      exact ⟨d, by rw [hconn, Function.update_of_ne hne, hd], hdr, hdid⟩
  present j d cid hd hdr hdid := by
    rw [hconn] at hd
    by_cases hj : j = i
    · rw [hj, Function.update_self] at hd
      cases hd
      exact absurd hdr hr'
    · rw [Function.update_of_ne hj] at hd
      rw [hclients, if_neg fun hcid => hj (h.unique hc hr hcid hd hdr hdid)]
      exact h.present j d cid hd hdr hdid
  fresh j hj := by
    rw [haccepted] at hj
    have hne : j ≠ i := by
      rintro rfl
      rw [h.fresh j hj] at hc
      cases hc
    rw [hconn, Function.update_of_ne hne]
    exact h.fresh j hj

theorem Matched.frame (h : Matched s)
    (hconn : ∀ j, (s'.connections j).map (fun c => (c.status, c.clientId)) =
      (s.connections j).map fun c => (c.status, c.clientId))
    (haccepted : s'.accepted = s.accepted)
    (hclients : ∀ cid, (s'.clients cid).map (·.tx) = (s.clients cid).map (·.tx)) : Matched s' := by
  -- a connection after the change is one from before, and the other way round
  have hback : ∀ {j d}, s'.connections j = some d →
      ∃ d₀, s.connections j = some d₀ ∧ d₀.status = d.status ∧ d₀.clientId = d.clientId := by
    intro j d hd
    have hview := hconn j
    rw [hd] at hview
    obtain ⟨d₀, hd₀, hv⟩ := Option.map_eq_some_iff.1 hview.symm
    exact ⟨d₀, hd₀, (Prod.mk.inj hv).1, (Prod.mk.inj hv).2⟩
  refine ⟨fun j d hd => ?_, fun cid entry he => ?_, fun j d cid hd hdr hdid => ?_, fun j hj => ?_⟩
  · obtain ⟨d₀, hd₀, hstatus, -⟩ := hback hd
    rw [← hstatus]
    exact h.calm j d₀ hd₀
  · have htx : (s.clients cid).map (·.tx) = some entry.tx := by rw [← hclients, he]; rfl
    obtain ⟨entry', he', htx'⟩ := Option.map_eq_some_iff.1 htx
    obtain ⟨d₀, hd₀, hdr, hdid⟩ := h.live cid entry' he'
    have hview := hconn entry'.tx
    rw [hd₀] at hview
    obtain ⟨d, hd, hv⟩ := Option.map_eq_some_iff.1 hview
    rw [← htx']
    exact ⟨d, hd, (Prod.mk.inj hv).1.trans hdr, (Prod.mk.inj hv).2.trans hdid⟩
  · obtain ⟨d₀, hd₀, hstatus, hid⟩ := hback hd
    obtain ⟨entry, he, htx⟩ := h.present j d₀ cid hd₀ (hstatus.trans hdr) (hid.trans hdid)
    have hmap : (s'.clients cid).map (·.tx) = some entry.tx := by rw [hclients, he]; rfl
    obtain ⟨entry', he', htx'⟩ := Option.map_eq_some_iff.1 hmap
    exact ⟨entry', he', htx'.trans htx⟩
  · have hview := hconn j
    rw [h.fresh j (haccepted ▸ hj)] at hview
    exact Option.map_eq_none_iff.1 hview

theorem Matched.accepts (h : Matched s) :
    Matched { s.setConnection s.accepted {} with accepted := s.accepted + 1 } := by
  have hget : ∀ {j d}, Function.update s.connections s.accepted (some {}) j = some d →
      d = {} ∨ j ≠ s.accepted ∧ s.connections j = some d := by
    intro j d hd
    by_cases hj : j = s.accepted
    · rw [hj, Function.update_self] at hd
      exact .inl (Option.some.inj hd).symm
    · rw [Function.update_of_ne hj] at hd
      exact .inr ⟨hj, hd⟩
  refine ⟨fun j d hd => ?_, fun cid entry he => ?_, fun j d cid hd hdr hdid => ?_, fun j hj => ?_⟩
  · rcases hget hd with rfl | ⟨-, hd⟩
    · simp
    · exact h.calm j d hd
  · obtain ⟨d, hd, hdr, hdid⟩ := h.live cid entry he
    have hne : entry.tx ≠ s.accepted := by
      intro hj
      rw [hj, h.fresh _ (Nat.le_refl _)] at hd
      cases hd
    exact ⟨d, (Function.update_of_ne hne ..).trans hd, hdr, hdid⟩
  · rcases hget hd with rfl | ⟨-, hd⟩
    · cases hdid
    · exact h.present j d cid hd hdr hdid
  · have hj' : s.accepted + 1 ≤ j := hj
    have hne : j ≠ s.accepted := by omega
    exact (Function.update_of_ne hne ..).trans (h.fresh j (by omega))

end

/-! ## Each step -/

theorem answered_of_handshake {client : ClientInfo} (h : handshakeOf parse m = some client) : Answered parse m := by
  unfold handshakeOf at h
  split at h
  · rename_i text
    refine .inr ⟨text, rfl, fun hother => ?_⟩
    rw [hother] at h
    split at h
    all_goals cases h
  · cases h

theorem Matched.absent {cid : String} (h : Matched s) (hc : s.connections i = some c) (hnone : c.clientId = none)
    (halone : ∀ (j : Nat) (d : Connection), s.connections j = some d → d.status = .reading → d.clientId = some cid → j = i) :
    s.clients cid = none := by
  cases he : s.clients cid with
  | none => rfl
  | some entry =>
    obtain ⟨d, hd, hdr, hdid⟩ := h.live _ entry he
    have hj := halone entry.tx d hd hdr hdid
    obtain rfl := Option.some.inj ((hj ▸ hd).symm.trans hc)
    rw [hnone] at hdid
    cases hdid

theorem Matched.message (h : Matched s) (hc : s.connections i = some c) (hr : c.status = .reading)
    (ht : Takes parse s w i c m) : Matched (s.message parse w i m) := by
  have hhandled : Handled parse s w i c m (s.message parse w i m) := message_handled hc hr
  have hown : ∀ cid, c.clientId = some cid → ∀ (j : Nat) (d : Connection), s.connections j = some d →
      d.status = .reading → d.clientId = some cid → j = i := fun cid hid j d => h.unique hc hr hid
  generalize s.message parse w i m = s' at hhandled
  cases hhandled with
  | goesOn c' hid hkey hr' =>
    exact h.stays hc hr rfl rfl hr' (.inr hid) (fun cid hcid => hown cid (hid.symm.trans hcid)) (fun _ _ => rfl)
      fun cid hcid => h.present i c cid hc hr (hid.symm.trans hcid)
  | greets client entry pending c' hof hrefuses htx hid hkey hstatus =>
    have hr' : c'.status = .reading := by
      rcases hstatus with hr' | ⟨hw, -⟩
      · exact hr'
      · have hrefused := (ht.sends hw (answered_of_handshake hof)).2 client hof
        rw [hrefuses] at hrefused
        cases hrefused
    refine h.stays hc hr rfl rfl hr' ?_ (fun cid hcid => ?_) (fun cid hcid => ?_) fun cid hcid => ?_
    · exact (ht.keeps client hof).imp_right fun hsame => hid.trans hsame.symm
    · rw [hid] at hcid
      cases hcid
      exact ht.alone client hof
    · rw [hid] at hcid
      exact Function.update_of_ne (fun he => hcid (congrArg some he.symm)) ..
    · rw [hid] at hcid
      cases hcid
      exact ⟨entry, Function.update_self .., htx⟩
  | leaves c' hleft hid =>
    rw [cleanUp_eq]
    refine Matched.ends c' h hc hr rfl rfl (by simp [hleft]) (by simp [hleft]) fun cid => ?_
    show (if c'.clientId = some cid then none else s.clients cid) = _
    rcases hid with hid | ⟨client, hof, hid⟩
    · rw [hid]
    · rcases ht.keeps client hof with hnone | hsame
      · rw [hid, hnone]
        by_cases hcid : cid = client.clientId
        · rw [if_pos (by rw [hcid]), hcid, h.absent hc hnone (ht.alone client hof)]
          rfl
        · rw [if_neg fun he => hcid (Option.some.inj he).symm]
          rfl
      · rw [hid, hsame]
  | fails c' e hw ha hfailed hrefused =>
    obtain ⟨hnone, -⟩ := ht.sends hw ha
    refine Matched.ends c' h hc hr rfl rfl (by simp [hfailed]) (by simp [hfailed]) fun cid => ?_
    rw [hnone]
    rfl
  | panics text c' hm hs hpanicked =>
    rw [ht.sliceable text hm] at hs
    cases hs

theorem Matched.notify (h : Matched s) (cid extensionId : String) :
    Matched (s.notifyAuthorizationGranted cid extensionId) := by
  refine h.frame (fun _ => rfl) rfl fun cid' => ?_
  unfold notifyAuthorizationGranted
  dsimp only
  split
  · rfl
  · rename_i client hclient
    by_cases hcid : cid' = cid
    · rw [hcid, Function.update_self, hclient]
      rfl
    · rw [Function.update_of_ne hcid]

theorem Matched.step {e : Event × World} (h : Matched s) (he : Orderly parse s e) : Matched (s.step parse e) := by
  obtain ⟨e, w⟩ := e
  cases e with
  | message i m =>
    rcases message_cases parse s w i m with ⟨c, hc, hr, -⟩ | hs
    · exact h.message hc hr (he c hc hr)
    · show Matched (s.message parse w i m)
      rwa [hs]
  | accept =>
    show Matched s.accept
    unfold accept
    split
    · exact h.accepts
    · exact h
  | writeTaskEnds i =>
    show Matched (s.writeTaskEnds i)
    unfold writeTaskEnds
    split
    · exact h
    · rename_i c hc
      refine h.frame (fun j => ?_) rfl fun _ => rfl
      show (Function.update s.connections i (some { c with writing := false }) j).map _ = _
      by_cases hj : j = i
      · rw [hj, Function.update_self, hc]
        rfl
      · rw [Function.update_of_ne hj]
  | allow grant remember =>
    show Matched (s.orElse (s.clientAllow w grant remember))
    unfold clientAllow
    split
    · split
      · have hrows : Matched { s with authorizedClients := s.authorizedClients ++ [grant] } :=
          h.frame (fun _ => rfl) rfl fun _ => rfl
        exact hrows.notify _ _
      · exact h
    · have hsession : Matched { s with
            sessionAuthorizations := Function.update s.sessionAuthorizations grant.clientId (some grant) } :=
        h.frame (fun _ => rfl) rfl fun _ => rfl
      exact hsession.notify _ _
  | block clientId remember =>
    show Matched (s.orElse (s.clientBlock w clientId remember))
    unfold clientBlock
    split
    · split
      · exact h.frame (fun _ => rfl) rfl fun _ => rfl
      · exact h
    · exact h.frame (fun _ => rfl) rfl fun _ => rfl
  | revokeClient clientId =>
    show Matched (s.orElse (s.revokeClient w clientId))
    unfold revokeClient
    split
    · exact h.frame (fun _ => rfl) rfl fun _ => rfl
    · exact h
  | stop =>
    show Matched (s.orElse s.stop)
    have hstopped : s.running = false := he
    rw [stop, if_neg (by simp [hstopped])]
    exact h
  | deny clientId | revokeSessionAuthorization clientId | start => exact h.frame (fun _ => rfl) rfl fun _ => rfl

/-- In every state of a run whose messages are ones that their handlers can take, the table follows the connections. -/
theorem clients_tracked (parse : String → Except String ProtocolMessage) (extensions : List ExtensionRow)
    (authorizedClients : List Grant) (blockedClients : List String) (es : List (Event × World))
    (h : Guarded (step parse) (Orderly parse) { extensions, authorizedClients, blockedClients } es) :
    Tracked (run (step parse) { extensions, authorizedClients, blockedClients } es) := by
  have hinit : Matched { extensions, authorizedClients, blockedClients } :=
    ⟨fun i c hc => (by cases hc), fun cid entry he => (by cases he), fun i c cid hc => (by cases hc), fun _ _ => rfl⟩
  exact (h.inv (I := Matched) (fun _ _ h he => h.step he) hinit).tracked

def sampleGreeting : String :=
  "\x7b\"type\":\"handshake\",\"version\":1,\"client\":\x7b\"clientId\":\"c1\",\"clientName\":\"browser\"," ++
    "\"publicKey\":\"k1\"\x7d\x7d"

def greetingParse (text : String) : Except String ProtocolMessage :=
  if text = sampleGreeting then .ok (.handshake ⟨"c1", "browser", "k1", []⟩)
  else .error "expected value at line 1 column 1"

def sampleVisit : List (Event × World) :=
  [(.start, {}), (.accept, {}), (.message 0 (.text sampleGreeting), {}), (.message 0 .close, {})]

theorem clients_tracked_visit : Guarded (step greetingParse) (Orderly greetingParse) {} sampleVisit ∧
    Tracked (run (step greetingParse) {} sampleVisit) := by
  have h : Guarded (step greetingParse) (Orderly greetingParse) {} sampleVisit := by
    refine ⟨trivial, trivial, fun c hc _ => ?_, fun c hc _ => ?_, trivial⟩
    · cases hc
      refine ⟨fun text ht => ?_, fun client hof => .inl rfl, fun client hof j d hd _ hid => ?_, fun hw => by cases hw⟩
      · cases ht
        decide +kernel
      · by_cases hj : j = 0
        · exact hj
        · have hd' : Function.update (fun _ => none) 0 (some {}) j = some d := hd
          rw [Function.update_of_ne hj] at hd'
          cases hd'
    · refine ⟨fun text ht => (by cases ht), fun client hof => (by cases hof), fun client hof => (by cases hof),
        fun _ ha => ?_⟩
      rcases ha with ha | ⟨text, ha, -⟩
      all_goals cases ha
  exact ⟨h, clients_tracked greetingParse [] [] [] sampleVisit h⟩

def splitText : String := String.ofList ('x' :: List.replicate 150 'ä')

theorem splitText_unsliceable : sliceable splitText = false := by
  unfold sliceable splitText
  rw [String.toList_ofList]
  decide +kernel

theorem run_unsliceable (parse : String → Except String ProtocolMessage) {text : String} (h : sliceable text = false) :
    (run (step parse) ({} : Bridge) [(.start, {}), (.accept, {}), (.message 0 (.text text), {})]).connections 0 =
      some { status := .panicked } := by
  have hreads : (run (step parse) ({} : Bridge) [(.start, {}), (.accept, {})]).connections 0 = some {} := rfl
  show (message parse (run (step parse) ({} : Bridge) [(.start, {}), (.accept, {})]) {} 0 (.text text)).connections 0 = _
  unfold message
  rw [hreads]
  simp [onMessage, textMessage, h]
  rfl

theorem preview_panics : ¬ ∀ (parse : String → Except String ProtocolMessage) (extensions : List ExtensionRow)
    (authorizedClients : List Grant) (blockedClients : List String) (es : List (Event × World)),
    (∀ w, (Event.stop, w) ∉ es) → Tracked (run (step parse) { extensions, authorizedClients, blockedClients } es) := by
  intro h
  have htracked := h greetingParse [] [] [] [(.start, {}), (.accept, {}), (.message 0 (.text splitText), {})]
    (fun w hw => by simp at hw)
  exact htracked.calm 0 { status := .panicked } (run_unsliceable greetingParse splitText_unsliceable) rfl

end Bridge
end HaexVault.ExternalBridge
