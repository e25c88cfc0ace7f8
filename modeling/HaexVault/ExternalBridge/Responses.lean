import Mathlib.Logic.Function.Basic
import HaexVault.Crdt.Sql
import HaexVault.Lib.Runs
/-!
# External responses (`external_bridge/server.rs`, `external_bridge/mod.rs`)

Every client's requests wait for their answers in one map, under the id that the client chose. A
request takes the place of one with its id, and one that times out removes whatever stands under its
id (`responses_isolated`).
-/

namespace HaexVault.ExternalBridge

open HaexVault.Crdt HaexVault.Lib.Runs

structure Response where
  requestId : Option String
  success : Bool
  data : Option JsonValue := none
  error : Option String := none
  deriving DecidableEq

inductive Channel (κ : Type) where
  | empty
  /-- What was sent, and the client whose request it answers. -/
  | sent (response : Response) (askedBy : Option κ)
  /-- The sender was dropped. -/
  | closed (droppedBy : κ)
  /-- The receiver was dropped. -/
  | abandoned
  deriving DecidableEq

inductive RequestPhase where
  | starting
  /-- Its sender is in the map; it is emitted next. -/
  | inserted
  | waiting
  /-- Its entry goes next, and it fails with this error. -/
  | removing (error : String)
  | done (response : Response)
  deriving DecidableEq

/-- A call of `process_request`, with the channel that it makes. -/
structure Request (κ : Type) where
  client : κ
  /-- `payload.get("requestId")`, if it is a string. -/
  requestId : Option String
  /-- The target, the authorization and the start of the extension. -/
  routed : Except String Unit
  /-- Whether it can be emitted to a window. -/
  emits : Bool
  phase : RequestPhase := .starting
  channel : Channel κ := .empty
  /-- The extension has the request. -/
  received : Bool := false
  answered : Bool := false

namespace Request
variable {κ : Type}

def id (q : Request κ) : String := q.requestId.getD ""

def fail (q : Request κ) (error : String) : Request κ :=
  { q with phase := .done { requestId := q.requestId, success := false, error := some error } }

/-- A fresh channel, with its sender in the map. -/
def insert (q : Request κ) : Request κ := { q with phase := .inserted, channel := .empty }

def close (q : Request κ) (droppedBy : κ) : Request κ :=
  match q.channel with
  | .empty => { q with channel := .closed droppedBy }
  | _ => q

end Request

structure Responses (κ : Type) where
  /-- `pending_responses`. -/
  pending : String → Option Nat := fun _ => none
  requests : List (Request κ) := []

namespace Responses
variable {κ : Type}

def modify (s : Responses κ) (i : Nat) (f : Request κ → Request κ) : Responses κ :=
  { s with requests := s.requests.modify i f }

def removeSender (s : Responses κ) (id : String) (client : κ) : Responses κ :=
  match s.pending id with
  | none => s
  | some n => { s.modify n (·.close client) with pending := Function.update s.pending id none }

def insertSender (s : Responses κ) (id : String) (i : Nat) (client : κ) : Responses κ :=
  let s := s.removeSender id client
  { s with pending := Function.update s.pending id (some i) }

/-- `external_bridge_respond`, with the client whose request is answered. -/
def externalBridgeRespond (s : Responses κ) (requestId : String) (success : Bool) (data : Option JsonValue)
    (error : Option String) (askedBy : Option κ) : Except String Unit × Responses κ :=
  match s.pending requestId with
  | none => (.error ("No pending request found with ID: " ++ requestId), s)
  | some n =>
    let taken : Responses κ := { s with pending := Function.update s.pending requestId none }
    match (s.requests[n]?).map Request.channel with
    | some .empty =>
      (.ok (), taken.modify n fun q => { q with channel := .sent ⟨some requestId, success, data, error⟩ askedBy })
    | _ => (.error "Failed to send response: receiver dropped", taken)

/-- `process_request` of the request at `i`, up to where others come in between. `elapsed`: the timeout has run out. -/
def processRequest (s : Responses κ) (i : Nat) (q : Request κ) (elapsed : Bool) : Responses κ :=
  match q.phase with
  | .starting =>
    if q.id = "" then
      s.modify i fun q => { q with phase := .done ⟨none, false, none, some "Missing required field: requestId"⟩ }
    else match q.routed with
      | .error e => s.modify i (·.fail e)
      | .ok _ => (s.insertSender q.id i q.client).modify i Request.insert
  | .inserted =>
    if q.emits then s.modify i fun q => { q with phase := .waiting, received := true }
    else s.modify i fun q => { q with phase := .removing "Failed to route request to extension" }
  | .waiting => match q.channel with
    | .sent response _ => s.modify i fun q => { q with phase := .done response }
    | .closed _ => s.modify i (·.fail "Extension did not respond")
    | .empty =>
      if elapsed then s.modify i fun q => { q with channel := .abandoned, phase := .removing "Request timeout" }
      else s
    | .abandoned => s
  | .removing e => (s.removeSender q.id q.client).modify i (·.fail e)
  | .done _ => s

inductive Event (κ : Type) where
  /-- A client's request comes in. -/
  | arrive (client : κ) (requestId : Option String) (routed : Except String Unit) (emits : Bool)
  /-- The request at `i` goes on. -/
  | resume (i : Nat) (elapsed : Bool)
  /-- The extension answers the request at `j`, which it has received. -/
  | answer (j : Nat) (success : Bool) (data : Option JsonValue) (error : Option String)
  /-- `external_bridge_respond` is called with any id. -/
  | respond (requestId : String) (success : Bool) (data : Option JsonValue) (error : Option String)

def step (s : Responses κ) : Event κ → Responses κ
  | .arrive client requestId routed emits =>
    { s with requests := s.requests ++ [{ client, requestId, routed, emits }] }
  | .resume i elapsed => match s.requests[i]? with
    | none => s
    | some q => s.processRequest i q elapsed
  | .answer j success data error => match s.requests[j]? with
    | none => s
    | some q =>
      if q.received then
        (s.externalBridgeRespond q.id success data error (some q.client)).2.modify j fun q => { q with answered := true }
      else s
  | .respond requestId success data error => (s.externalBridgeRespond requestId success data error none).2

end Responses

/-! ## Answers go to the requester -/

namespace Request
variable {κ : Type}

/-- What is sent to a request answers one of its client, and only its client drops its sender. -/
def Isolated (q : Request κ) : Prop :=
  match q.channel with
  | .sent _ (some askedBy) => askedBy = q.client
  | .closed droppedBy => droppedBy = q.client
  | _ => True

def Inserts (q : Request κ) : Prop := q.phase = .starting ∧ q.id ≠ "" ∧ ∃ u, q.routed = .ok u

def Holds (q : Request κ) : Prop :=
  match q.phase with
  | .inserted | .waiting => q.channel = .empty
  | .removing _ => True
  | _ => False

def InFlight (q : Request κ) : Prop :=
  match q.phase with
  | .inserted | .removing _ => True
  | .waiting => q.channel = .empty
  | _ => False

def Live (q : Request κ) : Prop := q.InFlight ∨ q.received = true ∧ q.answered = false

structure To (q q' : Request κ) : Prop where
  client : q'.client = q.client
  id : q'.id = q.id
  inFlight : q'.InFlight → q.InFlight
  live : q'.Live → q.Live

theorem To.refl (q : Request κ) : To q q := ⟨rfl, rfl, fun h => h, fun h => h⟩

theorem to_channel {q : Request κ} (h : q.channel = .empty) (channel : Channel κ) : To q { q with channel } := by
  have hflight : ({ q with channel } : Request κ).InFlight → q.InFlight := by
    unfold InFlight
    cases q.phase with
    | waiting => exact fun _ => h
    | _ => exact fun h => h
  exact ⟨rfl, rfl, hflight, fun hl => hl.imp hflight fun h => h⟩

theorem to_done (q : Request κ) (response : Response) : To q { q with phase := .done response } :=
  ⟨rfl, rfl, False.elim, fun hl => hl.imp False.elim fun h => h⟩

theorem close_cases (q : Request κ) (client : κ) :
    (q.channel = .empty ∧ q.close client = { q with channel := .closed client }) ∨ q.close client = q := by
  unfold close
  split
  · rename_i h
    exact .inl ⟨h, rfl⟩
  · exact .inr rfl

theorem close_to (q : Request κ) (client : κ) : To q (q.close client) := by
  rcases q.close_cases client with ⟨h, hclose⟩ | hclose
  · rw [hclose]
    exact to_channel h _
  · rw [hclose]
    exact .refl q

theorem close_isolated {q : Request κ} (h : q.Isolated) : (q.close q.client).Isolated := by
  rcases q.close_cases q.client with ⟨-, hclose⟩ | hclose
  · rw [hclose]
    exact rfl
  · rwa [hclose]

theorem Holds.inFlight {q : Request κ} (h : q.Holds) : q.InFlight := by
  unfold Holds at h
  unfold InFlight
  split at h
  all_goals simp_all

end Request

namespace Responses
variable {κ : Type}

/-- What every step keeps of a run in which the ids of different clients do not meet. -/
structure Inv (s : Responses κ) : Prop where
  pending : ∀ id n, s.pending id = some n → ∃ q, s.requests[n]? = some q ∧ q.id = id ∧ q.Holds
  clients : ∀ (i j : Nat) (q p : Request κ), s.requests[i]? = some q → s.requests[j]? = some p → q.InFlight →
    p.Live → p.id = q.id → p.client = q.client
  isolated : ∀ (i : Nat) (q : Request κ), s.requests[i]? = some q → q.Isolated

/-- No two clients use an id at a time: a request takes its place only if no request of another client with its id is in
flight or to be answered, and what is answered again is under an id that no other client waits on. -/
def Meets (s : Responses κ) : Event κ → Prop
  | .resume i _ => ∀ q, s.requests[i]? = some q → q.Inserts →
      ∀ p ∈ s.requests, p.Live → p.id = q.id → p.client = q.client
  | .answer j _ _ _ => ∀ q, s.requests[j]? = some q → q.received = true → q.answered = true →
      ∀ n p, s.pending q.id = some n → s.requests[n]? = some p → p.client = q.client
  | _ => True

variable {s : Responses κ} {i n : Nat} {q p : Request κ} {f : Request κ → Request κ}

theorem modify_getElem? (j : Nat) :
    (s.modify i f).requests[j]? = if i = j then s.requests[j]?.map f else s.requests[j]? := by
  rw [modify, List.getElem?_modify]
  split
  · rfl
  · exact congrFun Option.map_id _

theorem modify_from (hto : ∀ q, s.requests[i]? = some q → q.To (f q)) {j : Nat}
    (h : (s.modify i f).requests[j]? = some p) : ∃ q, s.requests[j]? = some q ∧ q.To p := by
  rw [modify_getElem?] at h
  split at h
  · rename_i hij
    subst hij
    obtain ⟨q, hq, rfl⟩ := Option.map_eq_some_iff.1 h
    exact ⟨q, hq, hto q hq⟩
  · exact ⟨p, h, .refl p⟩

theorem Inv.modify (h : Inv s) (hto : ∀ q, s.requests[i]? = some q → q.To (f q))
    (hisolated : ∀ q, s.requests[i]? = some q → (f q).Isolated)
    (hpending : ∀ id, s.pending id = some i → ∀ q, s.requests[i]? = some q → (f q).Holds) : Inv (s.modify i f) where
  pending id n hn := by
    obtain ⟨q, hq, hid, hflight⟩ := h.pending id n hn
    by_cases hin : i = n
    · subst hin
      exact ⟨f q, by rw [modify_getElem?, if_pos rfl, hq]; rfl, (hto q hq).id.trans hid, hpending id hn q hq⟩
    · exact ⟨q, by rw [modify_getElem?, if_neg hin, hq], hid, hflight⟩
  clients j k q p hq hp hflight hlive hid := by
    obtain ⟨q₀, hq₀, hqto⟩ := modify_from hto hq
    obtain ⟨p₀, hp₀, hpto⟩ := modify_from hto hp
    rw [hqto.client, hpto.client]
    have hid₀ : p₀.id = q₀.id := by rw [← hqto.id, ← hpto.id, hid]
    exact h.clients j k q₀ p₀ hq₀ hp₀ (hqto.inFlight hflight) (hpto.live hlive) hid₀
  isolated j q hq := by
    rw [modify_getElem?] at hq
    split at hq
    · rename_i hij
      subst hij
      obtain ⟨q₀, hq₀, rfl⟩ := Option.map_eq_some_iff.1 hq
      exact hisolated q₀ hq₀
    · exact h.isolated j q hq

/-- An entry goes. -/
theorem Inv.take (h : Inv s) (id : String) : Inv { s with pending := Function.update s.pending id none } := by
  refine { h with pending := fun id' n hn => h.pending id' n ?_ }
  have hn' : Function.update s.pending id none id' = some n := hn
  by_cases hid : id' = id
  · rw [hid, Function.update_self] at hn'
    cases hn'
  · rwa [Function.update_of_ne hid] at hn'

theorem Inv.entry_unique (h : Inv s) {id id' : String} (hn : s.pending id = some n) (hn' : s.pending id' = some n) :
    id' = id := by
  obtain ⟨q, hq, rfl, -⟩ := h.pending id n hn
  obtain ⟨q', hq', rfl, -⟩ := h.pending id' n hn'
  rw [Option.some.inj (hq.symm.trans hq')]

theorem Inv.finish (h : Inv s) {id : String} (hn : s.pending id = some n)
    (hto : ∀ q, s.requests[n]? = some q → q.To (f q)) (hisolated : ∀ q, s.requests[n]? = some q → (f q).Isolated) :
    Inv (Responses.modify { s with pending := Function.update s.pending id none } n f) := by
  refine (h.take id).modify hto hisolated fun id' hn' q hq => ?_
  have hold : Function.update s.pending id none id' = some n := hn'
  by_cases hid : id' = id
  · rw [hid, Function.update_self] at hold
    cases hold
  · rw [Function.update_of_ne hid] at hold
    exact absurd (h.entry_unique hn hold) hid

/-! ### Removals, insertions and answers -/

theorem removeSender_pending (s : Responses κ) (id : String) (client : κ) :
    (s.removeSender id client).pending = Function.update s.pending id none := by
  unfold removeSender
  split
  · rename_i hn
    rw [← hn, Function.update_eq_self]
  · rfl

theorem Inv.removeSender (h : Inv s) (id : String) (client : κ)
    (hclient : ∀ n p, s.pending id = some n → s.requests[n]? = some p → p.client = client) :
    Inv (s.removeSender id client) := by
  unfold Responses.removeSender
  split
  · exact h
  · rename_i n hn
    refine h.finish hn (fun q _ => q.close_to client) fun q hq => ?_
    rw [← hclient n q hn hq]
    exact Request.close_isolated (h.isolated n q hq)

theorem removeSender_getElem? {id : String} {client : κ} (hi : s.pending id ≠ some i) :
    (s.removeSender id client).requests[i]? = s.requests[i]? := by
  unfold removeSender
  split
  · rfl
  · rename_i n hn
    have hne : n ≠ i := fun he => hi (he ▸ hn)
    exact (modify_getElem? i).trans (if_neg hne)

theorem removeSender_from {id : String} {client : κ} {j : Nat} (h : (s.removeSender id client).requests[j]? = some p) :
    ∃ q, s.requests[j]? = some q ∧ q.To p := by
  unfold removeSender at h
  split at h
  · exact ⟨p, h, .refl p⟩
  · exact modify_from (fun q _ => q.close_to client) h

/-- A request takes the empty place under its id. -/
theorem Inv.insert (h : Inv s) (hq : s.requests[i]? = some q) (hstarting : q.phase = .starting)
    (hlive : ∀ (j : Nat) (p : Request κ), s.requests[j]? = some p → p.Live → p.id = q.id → p.client = q.client) :
    Inv (Responses.modify { s with pending := Function.update s.pending q.id (some i) } i Request.insert) := by
  have hget : ∀ j, (Responses.modify { s with pending := Function.update s.pending q.id (some i) } i
      Request.insert).requests[j]? = if i = j then some q.insert else s.requests[j]? := by
    intro j
    rw [modify_getElem?]
    split
    · rename_i hij
      rw [← hij]
      show s.requests[i]?.map _ = _
      rw [hq]
      rfl
    · rfl
  have hrest : ¬ q.Holds := by simp [Request.Holds, hstarting]
  -- every request is an old one, or the one that takes its place
  have hcases : ∀ {j : Nat} {p : Request κ}, (Responses.modify
      { s with pending := Function.update s.pending q.id (some i) } i Request.insert).requests[j]? = some p →
        p = q.insert ∨ s.requests[j]? = some p := by
    intro j p hp
    rw [hget] at hp
    split at hp
    · exact .inl (Option.some.inj hp).symm
    · exact .inr hp
  refine ⟨fun id n hn => ?_, fun j k q' p hq' hp hflight hl hid => ?_, fun j q' hq' => ?_⟩
  · have hn' : Function.update s.pending q.id (some i) id = some n := hn
    by_cases hid : id = q.id
    · rw [hid, Function.update_self] at hn'
      cases hn'
      exact ⟨q.insert, by rw [hget, if_pos rfl], hid.symm, rfl⟩
    · rw [Function.update_of_ne hid] at hn'
      obtain ⟨p, hp, hpid, hholds⟩ := h.pending id n hn'
      have hne : i ≠ n := by
        rintro rfl
        obtain rfl := Option.some.inj (hq.symm.trans hp)
        exact hrest hholds
      exact ⟨p, by rw [hget, if_neg hne, hp], hpid, hholds⟩
  · rcases hcases hq' with rfl | hq'
    · rcases hcases hp with rfl | hp
      · rfl
      · exact hlive k p hp hl hid
    · rcases hcases hp with rfl | hp
      · exact (hlive j q' hq' (.inl hflight) hid.symm).symm
      · exact h.clients j k q' p hq' hp hflight hl hid
  · rcases hcases hq' with rfl | hq'
    · trivial
    · exact h.isolated j q' hq'

theorem Inv.respond (h : Inv s) (id : String) (success : Bool) (data : Option JsonValue) (error : Option String)
    (askedBy : Option κ)
    (hclient : ∀ c ∈ askedBy, ∀ n p, s.pending id = some n → s.requests[n]? = some p → p.client = c) :
    Inv (s.externalBridgeRespond id success data error askedBy).2 := by
  unfold externalBridgeRespond
  split
  · exact h
  · rename_i n hn
    dsimp only
    split
    · rename_i hempty
      obtain ⟨q, hq, hchannel⟩ := Option.map_eq_some_iff.1 hempty
      refine h.finish hn (fun p hp => ?_) fun p hp => ?_
      all_goals obtain rfl := Option.some.inj (hq.symm.trans hp)
      · exact Request.to_channel hchannel _
      · cases askedBy with
        | none => trivial
        | some c => exact (hclient c rfl n q hn hq).symm
    · exact h.take id

/-! ### Each step -/

theorem Inv.same_client (h : Inv s) (hq : s.requests[i]? = some q) (hlive : q.Live) {n : Nat}
    (hn : s.pending q.id = some n) (hp : s.requests[n]? = some p) : p.client = q.client := by
  obtain ⟨p', hp', hid, hholds⟩ := h.pending q.id n hn
  obtain rfl := Option.some.inj (hp.symm.trans hp')
  exact (h.clients n i p q hp hq hholds.inFlight hlive hid.symm).symm

theorem Inv.processRequest (h : Inv s) (hq : s.requests[i]? = some q) (elapsed : Bool)
    (hmeets : q.Inserts → ∀ p ∈ s.requests, p.Live → p.id = q.id → p.client = q.client) :
    Inv (s.processRequest i q elapsed) := by
  have hat : ∀ {p}, s.requests[i]? = some p → p = q := fun hp => Option.some.inj (hp.symm.trans hq)
  -- a request that holds no entry may change its phase
  have hdone : ∀ {t : Responses κ} {response : Request κ → Response}, Inv t → (∀ id, t.pending id ≠ some i) →
      Inv (t.modify i fun q => { q with phase := .done (response q) }) := by
    intro t response ht hnone
    exact ht.modify (fun p _ => p.to_done _) (fun p hp => ht.isolated i p hp) fun id hid => absurd hid (hnone id)
  have hentry : ∀ {id}, s.pending id = some i → q.id = id ∧ q.Holds := by
    intro id hn
    obtain ⟨p, hp, hid, hholds⟩ := h.pending id i hn
    rw [← hat hp]
    exact ⟨hid, hholds⟩
  unfold Responses.processRequest
  split
  · rename_i hphase
    have hnone : ∀ id, s.pending id ≠ some i := fun id hn => by simpa [Request.Holds, hphase] using (hentry hn).2
    split
    · exact hdone h hnone
    · rename_i hne
      split
      · exact hdone h hnone
      · rename_i hrouted
        have hlive : ∀ (j : Nat) (p : Request κ), s.requests[j]? = some p → p.Live → p.id = q.id →
            p.client = q.client := fun j p hp => hmeets ⟨hphase, hne, _, hrouted⟩ p (List.mem_of_getElem? hp)
        have hremoved := h.removeSender q.id q.client fun n p hn hp => by
          obtain ⟨p', hp', hid, hholds⟩ := h.pending q.id n hn
          obtain rfl := Option.some.inj (hp.symm.trans hp')
          exact hlive n p hp (.inl hholds.inFlight) hid
        refine hremoved.insert ((removeSender_getElem? (hnone _)).trans hq) hphase fun j p hp hl hid => ?_
        obtain ⟨p₀, hp₀, hto⟩ := removeSender_from hp
        rw [hto.client]
        exact hlive j p₀ hp₀ (hto.live hl) (hto.id ▸ hid)
  · rename_i hphase
    split
    · refine h.modify (fun p hp => ?_) (fun p hp => h.isolated i p hp) fun id hn p hp => ?_
      · rw [hat hp]
        have hflight : q.InFlight := by simp [Request.InFlight, hphase]
        exact ⟨rfl, rfl, fun _ => hflight, fun _ => .inl hflight⟩
      · rw [hat hp]
        have hholds := (hentry hn).2
        simpa [Request.Holds, hphase] using hholds
    · refine h.modify (fun p hp => ?_) (fun p hp => h.isolated i p hp) fun id hn p hp => trivial
      rw [hat hp]
      have hflight : q.InFlight := by simp [Request.InFlight, hphase]
      exact ⟨rfl, rfl, fun _ => hflight, fun _ => .inl hflight⟩
  · rename_i hphase
    split
    · rename_i hchannel
      exact hdone h fun id hn => by simpa [Request.Holds, hphase, hchannel] using (hentry hn).2
    · rename_i hchannel
      exact hdone h fun id hn => by simpa [Request.Holds, hphase, hchannel] using (hentry hn).2
    · rename_i hchannel
      split
      · refine h.modify (fun p hp => ?_) (fun p hp => trivial) fun id hn p hp => trivial
        rw [hat hp]
        have hflight : q.InFlight := by simp [Request.InFlight, hphase, hchannel]
        exact ⟨rfl, rfl, fun _ => hflight, fun _ => .inl hflight⟩
      · exact h
    · exact h
  · rename_i e hphase
    have hflight : q.InFlight := by simp [Request.InFlight, hphase]
    refine hdone (h.removeSender q.id q.client fun n p hn hp => h.same_client hq (.inl hflight) hn hp) fun id hn => ?_
    rw [removeSender_pending] at hn
    by_cases hid : id = q.id
    · rw [hid, Function.update_self] at hn
      cases hn
    · rw [Function.update_of_ne hid] at hn
      exact hid (hentry hn).1.symm
  · exact h

theorem Inv.step (h : Inv s) {e : Event κ} (hmeets : Meets s e) : Inv (s.step e) := by
  cases e with
  | arrive client requestId routed emits =>
    have hfrom : ∀ {j : Nat} {p : Request κ}, (s.step (.arrive client requestId routed emits)).requests[j]? = some p →
        s.requests[j]? = some p ∨ p = { client, requestId, routed, emits } := by
      intro j p hp
      rcases Nat.lt_or_ge j s.requests.length with hj | hj
      · exact .inl ((List.getElem?_append_left hj).symm.trans hp)
      · have hlast := (List.getElem?_append_right hj).symm.trans hp
        exact .inr (List.mem_singleton.1 (List.mem_of_getElem? hlast))
    refine ⟨fun id n hn => ?_, fun j k q p hq hp hflight hl hid => ?_, fun j q hq => ?_⟩
    · obtain ⟨q, hq, hrest⟩ := h.pending id n hn
      exact ⟨q, (List.getElem?_append_left (List.getElem?_eq_some_iff.1 hq).1).trans hq, hrest⟩
    · rcases hfrom hq with hq | rfl
      · rcases hfrom hp with hp | rfl
        · exact h.clients j k q p hq hp hflight hl hid
        · rcases hl with hl | ⟨hl, -⟩
          · exact hl.elim
          · cases hl
      · exact hflight.elim
    · rcases hfrom hq with hq | rfl
      · exact h.isolated j q hq
      · trivial
  | resume i elapsed =>
    unfold Responses.step
    dsimp only
    split
    · exact h
    · rename_i q hq
      exact h.processRequest hq elapsed (hmeets q hq)
  | answer j success data error =>
    unfold Responses.step
    dsimp only
    split
    · exact h
    · rename_i q hq
      split
      · rename_i hreceived
        have hanswered := h.respond q.id success data error (some q.client) fun c hc n p hn hp => by
          cases hc
          cases hans : q.answered with
          | true => exact hmeets q hq hreceived hans n p hn hp
          | false => exact h.same_client hq (.inr ⟨hreceived, hans⟩) hn hp
        refine hanswered.modify (fun p hp => ⟨rfl, rfl, fun h => h, fun hl => ?_⟩)
          (fun p hp => hanswered.isolated j p hp) fun id hn p hp => ?_
        · rcases hl with hl | ⟨-, hl⟩
          · exact .inl hl
          · cases hl
        · obtain ⟨p', hp', -, hholds⟩ := hanswered.pending id j hn
          rw [Option.some.inj (hp.symm.trans hp')]
          exact hholds
      · exact h
  | respond requestId success data error =>
    exact h.respond requestId success data error none fun c hc => by cases hc

/-- In a run in which no two clients use an id at a time, an answer that a request gets is one to its own client, and only
its own client drops its sender. -/
theorem responses_isolated (es : List (Event κ)) (h : Guarded step Meets ({} : Responses κ) es) :
    ∀ q ∈ (run step ({} : Responses κ) es).requests, q.Isolated := by
  have hinit : Inv ({} : Responses κ) :=
    ⟨fun id n hn => (Option.some_ne_none n hn.symm).elim, fun i j q p hq => by simp at hq, fun i q hq => by simp at hq⟩
  have hinv := h.inv (fun _ _ h hG => h.step hG) hinit
  intro q hq
  obtain ⟨i, hi⟩ := List.mem_iff_getElem?.1 hq
  exact hinv.isolated i q hi

def sampleEvents : List (Event String) :=
  [.arrive "browser" (some "1") (.ok ()) true, .resume 0 false, .resume 0 false, .answer 0 true none none,
    .arrive "cli" (some "1") (.ok ()) true, .resume 1 false]

theorem responses_isolated_reused : Guarded step Meets ({} : Responses String) sampleEvents ∧
    ∀ q ∈ (run step ({} : Responses String) sampleEvents).requests, q.Isolated := by
  have h : Guarded step Meets ({} : Responses String) sampleEvents := by
    refine ⟨trivial, ?_, ?_, ?_, trivial, ?_, trivial⟩
    · intro q hq _ p hp _ _
      cases hq
      rw [List.mem_singleton.1 hp]
    · intro q hq hins
      cases hq
      cases hins.1
    · intro q hq _ hanswered
      cases hq
      cases hanswered
    · intro q hq _ p hp hlive _
      cases hq
      rcases List.mem_cons.1 hp with rfl | hp
      · rcases hlive with hflight | ⟨-, hanswered⟩
        · cases hflight
        · cases hanswered
      · rw [List.mem_singleton.1 hp]
  exact ⟨h, responses_isolated sampleEvents h⟩

/-- Two clients use an id at a time: the sender of the first is dropped, and its answer goes to the second. -/
theorem response_misdelivered : ¬ ∀ es : List (Event String),
    ∀ q ∈ (run step ({} : Responses String) es).requests, q.Isolated := by
  intro h
  have hcli := h [.arrive "browser" (some "1") (.ok ()) true, .resume 0 false, .resume 0 false,
    .arrive "cli" (some "1") (.ok ()) true, .resume 1 false, .resume 1 false, .answer 0 true none none]
    { client := "cli", requestId := some "1", routed := .ok (), emits := true, phase := .waiting,
      channel := .sent ⟨some "1", true, none, none⟩ (some "browser"), received := true }
    (List.mem_cons_of_mem _ (List.mem_singleton.2 rfl))
  exact absurd (show "browser" = "cli" from hcli) (by decide)

end Responses
end HaexVault.ExternalBridge
