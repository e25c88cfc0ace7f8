import Mathlib.Logic.Function.Basic
import HaexVault.Lib.Runs
/-!
# The external bridge (`external_bridge/server.rs`, `external_bridge/mod.rs`)

Clients outside the vault connect over a WebSocket. `message` is what the handler of a connection
does with one message, `forward` the checks that a request passes first; `step` adds the commands of
the vault's user, in any order.
-/

namespace HaexVault.ExternalBridge

/-! ## Messages -/

structure RequestedExtension where
  name : String
  extensionPublicKey : String
  deriving DecidableEq

structure ClientInfo where
  clientId : String
  clientName : String
  publicKey : String
  requestedExtensions : List RequestedExtension
  deriving DecidableEq

/-- An encrypted request; `payload` is how its decryption ends, with the `requestId` in what was decrypted. -/
structure EncryptedEnvelope where
  action : String
  extensionPublicKey : Option String
  extensionName : Option String
  payload : Except String (Option String)

inductive ProtocolMessage where
  | handshake (client : ClientInfo)
  | request (envelope : EncryptedEnvelope)
  | ping
  | other

inductive WsMessage where
  | text (text : String)
  | binary
  | ping
  | pong
  | close
  | frame
  | failed (error : String)
  | ended

inductive Reply where
  | handshakeResponse (authorized pendingApproval : Bool)
  | error (code message : String)
  /-- The response, encrypted to the key. -/
  | response (key : String)
  | pong
  | wsPong
  deriving DecidableEq

/-! ## The state -/

/-- A row of `haex_external_authorized_clients`, or a session authorization. -/
structure Grant where
  clientId : String
  publicKey : String
  extensionId : String
  deriving DecidableEq

/-- A row of `haex_extensions`. -/
structure ExtensionRow where
  id : String
  publicKey : String
  name : String

structure ConnectedClient where
  clientName : String
  publicKey : String
  authorized : Bool
  extensionId : Option String
  /-- The connection whose sender this is. -/
  tx : Nat

/-- How a handler stands: it reads on, or it has left its loop, returned an error, or panicked. -/
inductive Status where
  | reading
  | left
  | failed (error : String)
  | panicked
  deriving DecidableEq

structure Connection where
  clientId : Option String := none
  /-- `client_public_key_spki`. -/
  publicKey : Option String := none
  /-- The write task takes messages. -/
  writing : Bool := true
  status : Status := .reading
  sent : List Reply := []
  deriving DecidableEq

structure Bridge where
  running : Bool := false
  extensions : List ExtensionRow := []
  /-- `haex_external_authorized_clients`. -/
  authorizedClients : List Grant := []
  /-- `haex_external_blocked_clients`. -/
  blockedClients : List String := []
  clients : String → Option ConnectedClient := fun _ => none
  pendingAuthorizations : String → Option ClientInfo := fun _ => none
  /-- One entry for each client. -/
  sessionAuthorizations : String → Option Grant := fun _ => none
  /-- Nothing inserts into it. -/
  sessionBlocked : String → Bool := fun _ => false
  /-- The number of connections so far. -/
  accepted : Nat := 0
  connections : Nat → Option Connection := fun _ => none

/-- What a step meets outside the bridge: whether the database can be used, how `ensure_extension_loaded` ends, and how
`create_encrypted_response` does for the key of a client. -/
structure World where
  database : Bool := true
  load : Except String Unit := .ok ()
  encrypt : String → Except String Unit := fun _ => .ok ()

/-- What is sent of a response to a client with the key. -/
def World.respond (w : World) (key : String) : Reply :=
  match w.encrypt key with
  | .ok _ => .response key
  | .error _ => .error "ENCRYPTION_ERROR" "Failed to encrypt response"

theorem World.respond_cases (w : World) (key : String) :
    w.respond key = .response key ∨ w.respond key = .error "ENCRYPTION_ERROR" "Failed to encrypt response" := by
  unfold World.respond
  split
  · exact .inl rfl
  · exact .inr rfl

def coreExtensionId : String := "__core__"
def coreExtensionName : String := "core"

namespace Bridge
variable (s : Bridge) (w : World)

def grants (clientId : String) : List Grant :=
  s.authorizedClients.filter (·.clientId = clientId) ++ (s.sessionAuthorizations clientId).toList

/-! ## Authorization -/

def checkClientBlocked (clientId : String) : Bool := !w.database || s.blockedClients.contains clientId

def checkClientAuthorized (clientId : String) : Bool :=
  w.database && s.authorizedClients.any (·.clientId = clientId)

def getClientExtension (clientId : String) : Option String :=
  if w.database then (s.authorizedClients.find? (·.clientId = clientId)).map (·.extensionId) else none

def checkClientAuthorizedForExtension (clientId extensionPublicKey extensionName : String) : Bool :=
  w.database && s.authorizedClients.any fun a => a.clientId = clientId &&
    s.extensions.any fun e => e.id = a.extensionId && e.publicKey = extensionPublicKey && e.name = extensionName

def checkClientAuthorizedForCore (clientId : String) : Bool :=
  w.database && s.authorizedClients.any fun a => a.clientId = clientId && a.extensionId = coreExtensionId

def getExtensionId (extensionPublicKey extensionName : String) : Option String :=
  if w.database then
    (s.extensions.find? fun e => e.publicKey = extensionPublicKey && e.name = extensionName).map (·.id)
  else none

/-- A request on its way to an extension: for whom, and to which key its response is encrypted. -/
structure Forward where
  clientId : String
  publicKey : String
  extensionId : String
  deriving DecidableEq

def given : Option String → Option String
  | some t => if t = "" then none else some t
  | none => none

def isCore (extPublicKey extName : String) : Bool := extPublicKey = coreExtensionId && extName = coreExtensionName

def authorizedFor (clientId extPublicKey extName extensionId : String) : Bool :=
  (if isCore extPublicKey extName then s.checkClientAuthorizedForCore w clientId
    else s.checkClientAuthorizedForExtension w clientId extPublicKey extName) ||
  (s.sessionAuthorizations clientId).any (·.extensionId = extensionId)

/-- `process_request` up to the extension, or the error that it answers. -/
def processRequest (clientId publicKey : String) (envelope : EncryptedEnvelope) (requestId : Option String) :
    Except String Forward :=
  match given requestId with
  | none => .error "Missing required field: requestId"
  | some _ => match given envelope.extensionPublicKey, given envelope.extensionName with
    | some extPublicKey, some extName =>
      let core := isCore extPublicKey extName
      match if core then some coreExtensionId else s.getExtensionId w extPublicKey extName with
      | none => .error "Extension not found"
      | some extensionId =>
        if s.authorizedFor w clientId extPublicKey extName extensionId then
          match if core then .ok () else w.load with
          | .error e => .error ("Failed to load extension: " ++ e)
          | .ok _ => .ok { clientId, publicKey, extensionId }
        else .error (if core then "Client not authorized for core access" else "Client not authorized for this extension")
    | _, _ => .error "Missing required fields: extensionPublicKey and extensionName"

/-! ## One message -/

def setConnection (i : Nat) (c : Connection) : Bridge :=
  { s with connections := Function.update s.connections i (some c) }

def isAuthorized (c : Connection) : Bool :=
  match c.clientId with
  | none => false
  | some cid => ((s.clients cid).map (·.authorized)).getD false || (s.sessionAuthorizations cid).isSome

inductive Flow where
  | next
  | leave
  | panic

/-- What a message leads to: the state, the connection, and what is sent before the handler goes on. -/
structure Outcome where
  bridge : Bridge
  connection : Connection
  reply : Option Reply := none
  flow : Flow := .next

def refuses (clientId : String) : Bool := s.checkClientBlocked w clientId || s.sessionBlocked clientId

def handshake (i : Nat) (c : Connection) (client : ClientInfo) : Outcome :=
  let cid := client.clientId
  if s.refuses w cid then
    { bridge := s, connection := { c with clientId := some cid }
      reply := some (.handshakeResponse false false), flow := .leave }
  else
    let dbAuthorized := s.checkClientAuthorized w cid
    let sessionAuth := s.sessionAuthorizations cid
    let authorized := dbAuthorized || sessionAuth.isSome
    let extensionId := if !authorized then none
      else if dbAuthorized then s.getClientExtension w cid else sessionAuth.map (·.extensionId)
    let entry := { clientName := client.clientName, publicKey := client.publicKey, authorized, extensionId, tx := i }
    let connection := { c with clientId := some cid, publicKey := some client.publicKey }
    let inserted := { s with clients := Function.update s.clients cid (some entry) }
    if authorized then
      { bridge := inserted, connection, reply := some (.handshakeResponse true false) }
    else
      { bridge :=
          { inserted with pendingAuthorizations := Function.update s.pendingAuthorizations cid (some client) }
        connection, reply := some (.handshakeResponse false true) }

/-- What a request is answered with, once it is processed. -/
def request (c : Connection) (envelope : EncryptedEnvelope) : Option Reply :=
  if !s.isAuthorized c then some (.error "UNAUTHORIZED" "Client not authorized")
  else match envelope.payload with
    | .error _ => some (.error "DECRYPTION_ERROR" "Failed to decrypt request")
    | .ok _ => c.publicKey.map w.respond

/-- The request that a message forwards. -/
def forward (c : Connection) (envelope : EncryptedEnvelope) : Option Forward :=
  if s.isAuthorized c then
    match envelope.payload with
    | .ok requestId =>
      (s.processRequest w (c.clientId.getD "") (c.publicKey.getD "") envelope requestId).toOption
    | .error _ => none
  else none

end Bridge

def isCharBoundary : List Char → Nat → Bool
  | _, 0 => true
  | [], _ + 1 => false
  | c :: cs, n + 1 => c.utf8Size ≤ n + 1 && isCharBoundary cs (n + 1 - c.utf8Size)

def sliceable (text : String) : Bool := text.utf8ByteSize ≤ 200 || isCharBoundary text.toList 200

namespace Bridge
variable (parse : String → Except String ProtocolMessage) (s : Bridge) (w : World)

def textMessage (i : Nat) (c : Connection) (text : String) : Outcome :=
  if !sliceable text then { bridge := s, connection := c, flow := .panic }
  else match parse text with
    | .error e => { bridge := s, connection := c, reply := some (.error "PARSE_ERROR" e) }
    | .ok (.handshake client) => s.handshake w i c client
    | .ok (.request envelope) => { bridge := s, connection := c, reply := s.request w c envelope }
    | .ok .ping => { bridge := s, connection := c, reply := some .pong }
    | .ok .other => { bridge := s, connection := c }

def onMessage (i : Nat) (c : Connection) : WsMessage → Outcome
  | .text text => s.textMessage parse w i c text
  | .binary | .pong | .frame => { bridge := s, connection := c }
  | .ping => { bridge := s, connection := c, reply := some .wsPong }
  | .close | .failed _ | .ended => { bridge := s, connection := c, flow := .leave }

def cleanUp (c : Connection) : Bridge :=
  match c.clientId with
  | none => s
  | some cid => { s with clients := Function.update s.clients cid none }

/-- A reply that cannot be sent ends the handler with an error, before its clean-up. -/
def Outcome.settle (o : Outcome) (i : Nat) : Bridge :=
  if o.reply.isSome && !o.connection.writing then
    o.bridge.setConnection i { o.connection with status := .failed "channel closed" }
  else
    let c := { o.connection with sent := o.connection.sent ++ o.reply.toList }
    match o.flow with
    | .next => o.bridge.setConnection i c
    | .leave => (o.bridge.cleanUp c).setConnection i { c with status := .left }
    | .panic => o.bridge.setConnection i { c with status := .panicked }

/-- The handler of connection `i` reads a message. -/
def message (i : Nat) (m : WsMessage) : Bridge :=
  match s.connections i with
  | none => s
  | some c => if c.status = .reading then (s.onMessage parse w i c m).settle i else s

/-! ## Commands -/

/-- Tells the client, if its entry is there, and ends its request for authorization. -/
def notifyAuthorizationGranted (clientId extensionId : String) : Bridge :=
  let clients := match s.clients clientId with
    | none => s.clients
    | some client => Function.update s.clients clientId
        (some { client with authorized := true, extensionId := some extensionId })
  { s with clients, pendingAuthorizations := Function.update s.pendingAuthorizations clientId none }

def denyPendingRequest (clientId : String) : Bridge :=
  { s with pendingAuthorizations := Function.update s.pendingAuthorizations clientId none }

def insertable (grant : Grant) : Bool :=
  w.database && !s.authorizedClients.any fun a => a.clientId = grant.clientId && a.extensionId = grant.extensionId

/-- `external_bridge_client_allow`. -/
def clientAllow (grant : Grant) (remember : Bool) : Except String Bridge :=
  if remember then
    if s.insertable w grant then
      .ok ({ s with authorizedClients := s.authorizedClients ++ [grant] }.notifyAuthorizationGranted
        grant.clientId grant.extensionId)
    else .error "insert failed"
  else
    .ok ({ s with sessionAuthorizations :=
        Function.update s.sessionAuthorizations grant.clientId (some grant) }.notifyAuthorizationGranted
      grant.clientId grant.extensionId)

def blockable (clientId : String) : Bool := w.database && !s.blockedClients.contains clientId

/-- `external_bridge_client_block`. -/
def clientBlock (clientId : String) (remember : Bool) : Except String Bridge :=
  if remember then
    if s.blockable w clientId then
      .ok ({ s with blockedClients := s.blockedClients ++ [clientId] }.denyPendingRequest clientId)
    else .error "insert failed"
  else .ok (s.denyPendingRequest clientId)

/-- `external_bridge_revoke_client`. -/
def revokeClient (clientId : String) : Except String Bridge :=
  if w.database then .ok { s with authorizedClients := s.authorizedClients.filter (·.clientId ≠ clientId) }
  else .error "delete failed"

/-- `external_bridge_revoke_session_authorization`. -/
def revokeSessionAuthorization (clientId : String) : Bridge :=
  { s with sessionAuthorizations := Function.update s.sessionAuthorizations clientId none }

def stop : Except String Bridge :=
  if s.running then .ok { s with clients := fun _ => none, running := false } else .error "NotRunning"

def start : Bridge := { s with running := true }

def accept : Bridge :=
  if s.running then { s.setConnection s.accepted {} with accepted := s.accepted + 1 } else s

def writeTaskEnds (i : Nat) : Bridge :=
  match s.connections i with
  | none => s
  | some c => s.setConnection i { c with writing := false }

inductive Event where
  | accept
  | message (i : Nat) (m : WsMessage)
  | writeTaskEnds (i : Nat)
  | allow (grant : Grant) (remember : Bool)
  | deny (clientId : String)
  | block (clientId : String) (remember : Bool)
  | revokeClient (clientId : String)
  | revokeSessionAuthorization (clientId : String)
  | start
  | stop

def orElse (r : Except String Bridge) : Bridge :=
  match r with
  | .ok s' => s'
  | .error _ => s

/-- Each event comes with what it meets. -/
def step (s : Bridge) (e : Event × World) : Bridge :=
  match e.1 with
  | .accept => s.accept
  | .message i m => s.message parse e.2 i m
  | .writeTaskEnds i => s.writeTaskEnds i
  | .allow grant remember => s.orElse (s.clientAllow e.2 grant remember)
  | .deny clientId => s.denyPendingRequest clientId
  | .block clientId remember => s.orElse (s.clientBlock e.2 clientId remember)
  | .revokeClient clientId => s.orElse (s.revokeClient e.2 clientId)
  | .revokeSessionAuthorization clientId => s.revokeSessionAuthorization clientId
  | .start => s.start
  | .stop => s.orElse s.stop

/-- The request that a step forwards to an extension, and how its response is sent. -/
def forwarded (s : Bridge) (e : Event × World) : Option (Forward × Option Reply) :=
  match e.1 with
  | .message i (.text text) => match s.connections i with
    | none => none
    | some c => if c.status = .reading && sliceable text then
        match parse text with
        | .ok (.request envelope) => (s.forward e.2 c envelope).map (·, s.request e.2 c envelope)
        | _ => none
      else none
  | _ => none

/-! ## What a message leads to -/

def handshakeOf : WsMessage → Option ClientInfo
  | .text text => if sliceable text then
      match parse text with
      | .ok (.handshake client) => some client
      | _ => none
    else none
  | _ => none

def Answered (m : WsMessage) : Prop := m = .ping ∨ ∃ text, m = .text text ∧ parse text ≠ .ok .other

variable {parse s w} {i : Nat} {c : Connection} {m : WsMessage}

/-- The handler of a connection after a message. -/
inductive Handled (parse : String → Except String ProtocolMessage) (s : Bridge) (w : World) (i : Nat) (c : Connection)
    (m : WsMessage) : Bridge → Prop
  | goesOn (c' : Connection) : c'.clientId = c.clientId → c'.publicKey = c.publicKey → c'.status = .reading →
      Handled parse s w i c m (s.setConnection i c')
  /-- It has a client. -/
  | greets (client : ClientInfo) (entry : ConnectedClient) (pending : String → Option ClientInfo) (c' : Connection) :
      handshakeOf parse m = some client → s.refuses w client.clientId = false → entry.tx = i →
      c'.clientId = some client.clientId → c'.publicKey = some client.publicKey →
      (c'.status = .reading ∨ c.writing = false ∧ ∃ e, c'.status = .failed e) →
      Handled parse s w i c m (setConnection
        { s with
            clients := Function.update s.clients client.clientId (some entry)
            pendingAuthorizations := pending } i c')
  | leaves (c' : Connection) : c'.status = .left →
      (c'.clientId = c.clientId ∨ ∃ client, handshakeOf parse m = some client ∧ c'.clientId = some client.clientId) →
      Handled parse s w i c m ((s.cleanUp c').setConnection i c')
  /-- The reply cannot be sent. -/
  | fails (c' : Connection) (e : String) : c.writing = false → Answered parse m → c'.status = .failed e →
      (∀ client, handshakeOf parse m = some client → s.refuses w client.clientId = true) →
      Handled parse s w i c m (s.setConnection i c')
  | panics (text : String) (c' : Connection) : m = .text text → sliceable text = false → c'.status = .panicked →
      Handled parse s w i c m (s.setConnection i c')

theorem settle_handled (hr : c.status = .reading) (reply : Option Reply) (ha : reply.isSome → Answered parse m)
    (hh : handshakeOf parse m = none) :
    Handled parse s w i c m (Outcome.settle { bridge := s, connection := c, reply } i) := by
  unfold Outcome.settle
  split
  · rename_i h
    rw [Bool.and_eq_true, Bool.not_eq_true'] at h
    exact .fails _ _ h.2 (ha h.1) rfl fun client hc => by rw [hh] at hc; cases hc
  · exact .goesOn _ rfl rfl hr

theorem handshake_handled (hr : c.status = .reading) {client : ClientInfo} (hof : handshakeOf parse m = some client)
    (ha : Answered parse m) : Handled parse s w i c m ((s.handshake w i c client).settle i) := by
  unfold handshake
  dsimp only
  cases hrefuses : s.refuses w client.clientId with
  | true =>
    unfold Outcome.settle
    cases hw : c.writing with
    | false =>
      refine .fails _ _ hw ha rfl fun client' hof' => ?_
      rw [hof] at hof'
      obtain rfl := Option.some.inj hof'
      exact hrefuses
    | true =>
      exact .leaves { c with
          clientId := some client.clientId
          writing := true
          sent := c.sent ++ [.handshakeResponse false false]
          status := .left } rfl (.inr ⟨client, hof, rfl⟩)
  | false =>
    simp only [Bool.false_eq_true, if_false]
    -- the entry is in the map, whether or not the reply can be sent
    split
    all_goals unfold Outcome.settle
    all_goals dsimp only
    all_goals cases hw : c.writing
    · exact .greets client _ _ _ hof hrefuses rfl rfl rfl (.inr ⟨hw, _, rfl⟩)
    · exact .greets client _ _ _ hof hrefuses rfl rfl rfl (.inl hr)
    · exact .greets client _ _ _ hof hrefuses rfl rfl rfl (.inr ⟨hw, _, rfl⟩)
    · exact .greets client _ _ _ hof hrefuses rfl rfl rfl (.inl hr)

theorem message_handled (h : s.connections i = some c) (hr : c.status = .reading) :
    Handled parse s w i c m (s.message parse w i m) := by
  unfold message
  simp only [h, hr, if_true]
  cases m with
  | text text =>
    simp only [onMessage, textMessage]
    cases hs : sliceable text with
    | false => exact .panics text _ rfl hs rfl
    | true =>
      have hanswered : ∀ p, parse text = p → p ≠ .ok .other → Answered parse (.text text) := by
        intro p hp hne
        exact .inr ⟨text, rfl, hp ▸ hne⟩
      rw [if_neg (by simp)]
      cases hp : parse text with
      | error e => exact settle_handled hr _ (fun _ => hanswered _ hp (by simp)) (by simp [handshakeOf, hs, hp])
      | ok p =>
        cases p with
        | handshake client =>
          have hof : handshakeOf parse (.text text) = some client := by simp [handshakeOf, hs, hp]
          exact handshake_handled hr hof (hanswered _ hp (by simp))
        | request envelope =>
          exact settle_handled hr _ (fun _ => hanswered _ hp (by simp)) (by simp [handshakeOf, hs, hp])
        | ping => exact settle_handled hr _ (fun _ => hanswered _ hp (by simp)) (by simp [handshakeOf, hs, hp])
        | other => exact settle_handled hr _ (fun h => by cases h) (by simp [handshakeOf, hs, hp])
  | binary | pong | frame => exact settle_handled hr none (fun h => by cases h) rfl
  | ping => exact settle_handled hr (some .wsPong) (fun _ => .inl rfl) rfl
  | close | failed e | ended => exact .leaves { c with sent := c.sent ++ [], status := .left } rfl (.inl rfl)

theorem cleanUp_eq (s : Bridge) (c : Connection) :
    s.cleanUp c = { s with clients := fun cid => if c.clientId = some cid then none else s.clients cid } := by
  unfold cleanUp
  cases h : c.clientId with
  | none => simp
  | some cid =>
    have hclients : Function.update s.clients cid none = fun cid' => if some cid = some cid' then none else s.clients cid' := by
      funext cid'
      by_cases hcid : cid' = cid
      · rw [hcid, Function.update_self, if_pos rfl]
      · rw [Function.update_of_ne hcid, if_neg fun he => hcid (Option.some.inj he).symm]
    simp only [hclients]

section
variable {s' : Bridge}

theorem Handled.kept (h : Handled parse s w i c m s') : s'.authorizedClients = s.authorizedClients ∧
    s'.sessionAuthorizations = s.sessionAuthorizations ∧ s'.blockedClients = s.blockedClients := by
  cases h with
  | leaves c' =>
    rw [cleanUp_eq]
    exact ⟨rfl, rfl, rfl⟩
  | _ => exact ⟨rfl, rfl, rfl⟩

/-- It touches one connection, whose client changes with a handshake only. -/
theorem Handled.connection (h : Handled parse s w i c m s') :
    ∃ c', s'.connections = Function.update s.connections i (some c') ∧ (c'.status = .reading →
      c'.clientId = c.clientId ∧ c'.publicKey = c.publicKey ∨
      ∃ client, handshakeOf parse m = some client ∧ s.refuses w client.clientId = false ∧
        c'.clientId = some client.clientId ∧ c'.publicKey = some client.publicKey) := by
  cases h with
  | goesOn c' hid hkey => exact ⟨c', rfl, fun _ => .inl ⟨hid, hkey⟩⟩
  | greets client entry pending c' hof hrefuses htx hid hkey =>
    exact ⟨c', rfl, fun _ => .inr ⟨client, hof, hrefuses, hid, hkey⟩⟩
  | leaves c' hleft =>
    rw [cleanUp_eq]
    exact ⟨c', rfl, fun hr => by rw [hleft] at hr; cases hr⟩
  | fails c' e hw ha hfailed => exact ⟨c', rfl, fun hr => by rw [hfailed] at hr; cases hr⟩
  | panics text c' hm hs hpanicked => exact ⟨c', rfl, fun hr => by rw [hpanicked] at hr; cases hr⟩

end

theorem message_cases (parse : String → Except String ProtocolMessage) (s : Bridge) (w : World) (i : Nat) (m : WsMessage) :
    (∃ c, s.connections i = some c ∧ c.status = .reading ∧ Handled parse s w i c m (s.message parse w i m)) ∨
      s.message parse w i m = s := by
  cases h : s.connections i with
  | none => exact .inr (by simp [message, h])
  | some c =>
    by_cases hr : c.status = .reading
    · exact .inl ⟨c, rfl, hr, message_handled h hr⟩
    · exact .inr (by simp [message, h, hr])

/-! ## Grants and connections over a step -/

theorem mem_grants {g : Grant} {cid : String} :
    g ∈ s.grants cid ↔ g ∈ s.authorizedClients ∧ g.clientId = cid ∨ s.sessionAuthorizations cid = some g := by
  simp [grants]

def Stores (s : Bridge) (w : World) (grant : Grant) (remember : Bool) : Prop :=
  remember = true → s.insertable w grant = true

theorem orElse_cases (s : Bridge) (r : Except String Bridge) : s.orElse r = s ∨ r = .ok (s.orElse r) := by
  cases r with
  | error e => exact .inl rfl
  | ok s' => exact .inr rfl

theorem clientAllow_ok {grant : Grant} {remember : Bool} {s' : Bridge} (h : s.clientAllow w grant remember = .ok s') :
    s.Stores w grant remember ∧ s'.connections = s.connections ∧ s'.blockedClients = s.blockedClients ∧
      s'.authorizedClients = (if remember then s.authorizedClients ++ [grant] else s.authorizedClients) ∧
      s'.sessionAuthorizations = (if remember then s.sessionAuthorizations
        else Function.update s.sessionAuthorizations grant.clientId (some grant)) := by
  unfold clientAllow at h
  cases remember with
  | true =>
    rw [if_pos rfl] at h
    split at h
    · rename_i hinsertable
      cases h
      exact ⟨fun _ => hinsertable, rfl, rfl, rfl, rfl⟩
    · cases h
  | false =>
    cases h
    exact ⟨fun hr => Bool.noConfusion hr, rfl, rfl, rfl, rfl⟩

theorem clientBlock_ok {cid : String} {remember : Bool} {s' : Bridge} (h : s.clientBlock w cid remember = .ok s') :
    (remember = true → s.blockable w cid = true) ∧ s'.connections = s.connections ∧
      s'.authorizedClients = s.authorizedClients ∧ s'.sessionAuthorizations = s.sessionAuthorizations ∧
      s'.blockedClients = (if remember then s.blockedClients ++ [cid] else s.blockedClients) := by
  unfold clientBlock at h
  cases remember with
  | true =>
    rw [if_pos rfl] at h
    split at h
    · rename_i hblockable
      cases h
      exact ⟨fun _ => hblockable, rfl, rfl, rfl, rfl⟩
    · cases h
  | false =>
    cases h
    exact ⟨fun hr => Bool.noConfusion hr, rfl, rfl, rfl, rfl⟩

theorem revokeClient_ok {cid : String} {s' : Bridge} (h : s.revokeClient w cid = .ok s') :
    s' = { s with authorizedClients := s.authorizedClients.filter (·.clientId ≠ cid) } := by
  unfold revokeClient at h
  split at h
  · cases h
    rfl
  · cases h

theorem stop_ok {s' : Bridge} (h : s.stop = .ok s') :
    s.running = true ∧ s' = { s with clients := fun _ => none, running := false } := by
  unfold stop at h
  split at h
  · rename_i hrunning
    cases h
    exact ⟨hrunning, rfl⟩
  · cases h

/-- What a step can do: a message is handled, a connection is accepted or stops writing, a command does its work, or nothing
changes. -/
inductive Stepped (parse : String → Except String ProtocolMessage) (s : Bridge) (w : World) : Event → Bridge → Prop
  | same (e : Event) : Stepped parse s w e s
  | message {i : Nat} {m : WsMessage} {c : Connection} {s' : Bridge} (hc : s.connections i = some c)
      (hr : c.status = .reading) (h : Handled parse s w i c m s') : Stepped parse s w (.message i m) s'
  | accepted : Stepped parse s w .accept { s.setConnection s.accepted {} with accepted := s.accepted + 1 }
  | writeTaskEnds {i : Nat} {c : Connection} (hc : s.connections i = some c) :
      Stepped parse s w (.writeTaskEnds i) (s.setConnection i { c with writing := false })
  | allowed {grant : Grant} {remember : Bool} {s' : Bridge} (h : s.clientAllow w grant remember = .ok s') :
      Stepped parse s w (.allow grant remember) s'
  | denied (cid : String) : Stepped parse s w (.deny cid) (s.denyPendingRequest cid)
  | blocked {cid : String} {remember : Bool} {s' : Bridge} (h : s.clientBlock w cid remember = .ok s') :
      Stepped parse s w (.block cid remember) s'
  | revoked {cid : String} {s' : Bridge} (h : s.revokeClient w cid = .ok s') : Stepped parse s w (.revokeClient cid) s'
  | revokedSession (cid : String) : Stepped parse s w (.revokeSessionAuthorization cid) (s.revokeSessionAuthorization cid)
  | started : Stepped parse s w .start s.start
  | stopped {s' : Bridge} (h : s.stop = .ok s') : Stepped parse s w .stop s'

theorem orElse_stepped {e : Event} {r : Except String Bridge} (h : ∀ s', r = .ok s' → Stepped parse s w e s') :
    Stepped parse s w e (s.orElse r) := by
  cases r with
  | error e => exact .same _
  | ok s' => exact h s' rfl

theorem step_stepped (parse : String → Except String ProtocolMessage) (s : Bridge) (e : Event) (w : World) :
    Stepped parse s w e (s.step parse (e, w)) := by
  cases e with
  | message i m =>
    show Stepped parse s w _ (s.message parse w i m)
    rcases message_cases parse s w i m with ⟨c, hc, hr, h⟩ | hs
    · exact .message hc hr h
    · rw [hs]
      exact .same _
  | accept =>
    show Stepped parse s w _ s.accept
    unfold accept
    split
    · exact .accepted
    · exact .same _
  | writeTaskEnds i =>
    show Stepped parse s w _ (s.writeTaskEnds i)
    unfold writeTaskEnds
    split
    · exact .same _
    · rename_i c hc
      exact .writeTaskEnds hc
  | allow grant remember => exact orElse_stepped fun _ => .allowed
  | block cid remember => exact orElse_stepped fun _ => .blocked
  | revokeClient cid => exact orElse_stepped fun _ => .revoked
  | stop => exact orElse_stepped fun _ => .stopped
  | deny cid => exact .denied cid
  | revokeSessionAuthorization cid => exact .revokedSession cid
  | start => exact .started

theorem step_grants {e : Event × World} {cid : String} {g : Grant} (h : g ∈ (s.step parse e).grants cid) :
    g ∈ s.grants cid ∨ ∃ remember, e.1 = .allow g remember ∧ s.Stores e.2 g remember ∧ cid = g.clientId := by
  obtain ⟨e, w⟩ := e
  have hstep := step_stepped parse s e w
  generalize s.step parse (e, w) = s' at h hstep
  cases hstep with
  | same => exact .inl h
  | message hc hr hh =>
    rw [mem_grants, hh.kept.1, hh.kept.2.1, ← mem_grants] at h
    exact .inl h
  | @allowed grant remember _ hs =>
    obtain ⟨hstores, -, -, hrows, hsession⟩ := clientAllow_ok hs
    rw [mem_grants, hrows, hsession] at h
    rw [mem_grants]
    cases remember with
    | true =>
      rcases h with ⟨h, hid⟩ | h
      · rcases List.mem_append.1 h with h | h
        · exact .inl (.inl ⟨h, hid⟩)
        · obtain rfl := List.mem_singleton.1 h
          exact .inr ⟨true, rfl, hstores, hid.symm⟩
      · exact .inl (.inr h)
    | false =>
      rcases h with h | h
      · exact .inl (.inl h)
      · by_cases hcid : cid = grant.clientId
        · simp only [Bool.false_eq_true, if_false] at h
          rw [hcid, Function.update_self] at h
          cases h
          exact .inr ⟨false, rfl, hstores, hcid⟩
        · simp only [Bool.false_eq_true, if_false] at h
          rw [Function.update_of_ne hcid] at h
          exact .inl (.inr h)
  | blocked hs =>
    obtain ⟨-, -, hrows, hsession, -⟩ := clientBlock_ok hs
    rw [mem_grants, hrows, hsession, ← mem_grants] at h
    exact .inl h
  | revoked hs =>
    rw [mem_grants, revokeClient_ok hs] at h
    rw [mem_grants]
    exact .inl (h.imp_left fun h => ⟨(List.mem_filter.1 h.1).1, h.2⟩)
  | revokedSession clientId =>
    rw [mem_grants] at h ⊢
    refine .inl (h.imp_right fun h => ?_)
    have h' : Function.update s.sessionAuthorizations clientId none cid = some g := h
    by_cases hcid : cid = clientId
    · rw [hcid, Function.update_self] at h'
      cases h'
    · rwa [Function.update_of_ne hcid] at h'
  | stopped hs =>
    rw [(stop_ok hs).2] at h
    exact .inl h
  | accepted | writeTaskEnds | denied | started => exact .inl h

theorem step_connection {e : Event × World} {j : Nat} {c' : Connection} (h : (s.step parse e).connections j = some c')
    (hr : c'.status = .reading) :
    (∃ c, s.connections j = some c ∧ c.status = .reading ∧ c'.clientId = c.clientId ∧ c'.publicKey = c.publicKey) ∨
      c'.clientId = none ∨
      ∃ m client, e.1 = .message j m ∧ handshakeOf parse m = some client ∧ s.refuses e.2 client.clientId = false ∧
        c'.clientId = some client.clientId ∧ c'.publicKey = some client.publicKey := by
  have hsame : s.connections j = some c' →
      ∃ c, s.connections j = some c ∧ c.status = .reading ∧ c'.clientId = c.clientId ∧ c'.publicKey = c.publicKey :=
    fun h => ⟨c', h, hr, rfl, rfl⟩
  obtain ⟨e, w⟩ := e
  have hstep := step_stepped parse s e w
  generalize s.step parse (e, w) = s' at h hstep
  cases hstep with
  | @message i m c _ hc hreading hh =>
    obtain ⟨c₁, hconn, hc₁⟩ := hh.connection
    rw [hconn] at h
    by_cases hij : j = i
    · subst hij
      rw [Function.update_self] at h
      cases h
      rcases hc₁ hr with ⟨hid, hkey⟩ | ⟨client, hof, hrefuses, hid, hkey⟩
      · exact .inl ⟨c, hc, hreading, hid, hkey⟩
      · exact .inr (.inr ⟨m, client, rfl, hof, hrefuses, hid, hkey⟩)
    · rw [Function.update_of_ne hij] at h
      exact .inl (hsame h)
  | accepted =>
    have h' : Function.update s.connections s.accepted (some {}) j = some c' := h
    by_cases hj : j = s.accepted
    · rw [hj, Function.update_self] at h'
      cases h'
      exact .inr (.inl rfl)
    · rw [Function.update_of_ne hj] at h'
      exact .inl (hsame h')
  | @writeTaskEnds i c hc =>
    have h' : Function.update s.connections i (some { c with writing := false }) j = some c' := h
    by_cases hj : j = i
    · subst hj
      rw [Function.update_self] at h'
      cases h'
      exact .inl ⟨c, hc, hr, rfl, rfl⟩
    · rw [Function.update_of_ne hj] at h'
      exact .inl (hsame h')
  | allowed hs =>
    rw [(clientAllow_ok hs).2.1] at h
    exact .inl (hsame h)
  | blocked hs =>
    rw [(clientBlock_ok hs).2.1] at h
    exact .inl (hsame h)
  | revoked hs =>
    rw [revokeClient_ok hs] at h
    exact .inl (hsame h)
  | stopped hs =>
    rw [(stop_ok hs).2] at h
    exact .inl (hsame h)
  | same | denied | revokedSession | started => exact .inl (hsame h)

/-! ## What is forwarded -/

theorem authorizedFor_granted {clientId extPublicKey extName extensionId : String}
    (h : s.authorizedFor w clientId extPublicKey extName extensionId = true) : ∃ g, g ∈ s.grants clientId := by
  rcases Bool.or_eq_true _ _ ▸ h with h | h
  · have hrow : s.authorizedClients.any (·.clientId = clientId) = true := by
      split at h
      all_goals
        obtain ⟨a, ha, hid⟩ := List.any_eq_true.1 (Bool.and_eq_true _ _ ▸ h).2
        exact List.any_eq_true.2 ⟨a, ha, (Bool.and_eq_true _ _ ▸ hid).1⟩
    obtain ⟨a, ha, hid⟩ := List.any_eq_true.1 hrow
    exact ⟨a, mem_grants.2 (.inl ⟨ha, by simpa using hid⟩)⟩
  · obtain ⟨g, hg, -⟩ := (Option.any_eq_true _ _).1 h
    exact ⟨g, mem_grants.2 (.inr hg)⟩

theorem processRequest_granted {clientId publicKey : String} {envelope : EncryptedEnvelope} {requestId : Option String}
    {f : Forward} (h : s.processRequest w clientId publicKey envelope requestId = .ok f) :
    f.clientId = clientId ∧ f.publicKey = publicKey ∧ ∃ g, g ∈ s.grants clientId := by
  unfold processRequest at h
  split at h
  · cases h
  · split at h
    · dsimp only at h
      split at h
      · cases h
      · split at h
        · rename_i hauthorized
          split at h
          · cases h
          · cases h
            exact ⟨rfl, rfl, authorizedFor_granted hauthorized⟩
        · cases h
    · cases h

theorem forwarded_granted {e : Event × World} {f : Forward} {reply : Option Reply}
    (h : s.forwarded parse e = some (f, reply)) :
    ∃ i c, s.connections i = some c ∧ c.status = .reading ∧ c.clientId = some f.clientId ∧
      f.publicKey = c.publicKey.getD "" ∧ reply = c.publicKey.map e.2.respond ∧ ∃ g, g ∈ s.grants f.clientId := by
  obtain ⟨e, w⟩ := e
  cases e with
  | message i m =>
    cases m with
    | text text =>
      simp only [forwarded] at h
      split at h
      · cases h
      · rename_i c hc
        split at h
        · rename_i hreading
          obtain ⟨hreading, -⟩ : c.status = .reading ∧ sliceable text = true := by simpa using hreading
          split at h
          · rename_i envelope _
            obtain ⟨f', hf, hpair⟩ := Option.map_eq_some_iff.1 h
            cases hpair
            unfold forward at hf
            split at hf
            · rename_i hauthorized
              split at hf
              · rename_i requestId hpayload
                cases hid : c.clientId with
                | none => simp [isAuthorized, hid] at hauthorized
                | some cid =>
                  cases hr : s.processRequest w (c.clientId.getD "") (c.publicKey.getD "") envelope requestId with
                  | error e => simp [hr, Except.toOption] at hf
                  | ok f' =>
                    obtain ⟨hcid, hkey, hgrant⟩ := processRequest_granted hr
                    simp only [hr, Except.toOption, Option.some.injEq] at hf
                    subst hf
                    simp only [hid, Option.getD_some] at hcid hgrant
                    refine ⟨i, c, hc, hreading, by rw [hcid, hid], hkey, ?_, ?_⟩
                    · simp [request, hauthorized, hpayload]
                    · rwa [hcid]
              · cases hf
            · cases hf
          · cases h
        · cases h
    | _ => cases h
  | _ => cases h

end Bridge
end HaexVault.ExternalBridge
