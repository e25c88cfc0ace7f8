import Mathlib.Data.List.Sort
import HaexVault.Crdt.Commands
import HaexVault.Lib.Calls
/-!
# Welcomes (`space_delivery/local/buffer.rs`, `space_delivery/local/leader.rs`)

`MlsFetchWelcomes` marks the welcomes it has read as consumed and only then answers, and a claim
deletes the welcomes of its DID before it stores the new one. `welcomes_delivered_iff` says in which
runs every welcome is among the results of its recipient's fetches.
-/

namespace HaexVault.Space

open HaexVault.Crdt (HashOrder)
open HaexVault.Lib HaexVault.Lib.Runs

/-! ## The table -/

/-- A row of `haex_local_delivery_welcomes_no_sync`. -/
structure Welcome where
  id : Nat
  spaceId : String
  recipientDid : String
  blob : List UInt8
  createdAt : String
  consumed : Bool := false
  deriving DecidableEq

/-- The table, with all welcomes stored so far and the ids of those that were received, replaced by a newer welcome or
cleared with the leader's buffers. The UUID of a new row is a number that no row has had. -/
structure WelcomeBuffer where
  nextId : Nat := 0
  rows : List Welcome := []
  stored : List Welcome := []
  settled : List Nat := []

namespace WelcomeBuffer

variable (b : WelcomeBuffer) (spaceId did : String)

def storeWelcome (blob : List UInt8) (createdAt : String) : WelcomeBuffer :=
  { b with
    nextId := b.nextId + 1
    rows := b.rows ++ [{ id := b.nextId, spaceId, recipientDid := did, blob, createdAt }]
    stored := b.stored ++ [{ id := b.nextId, spaceId, recipientDid := did, blob, createdAt }] }

def fetchWelcomes (order : HashOrder Welcome) : List Welcome :=
  (order.iter (b.rows.filter fun w => w.spaceId = spaceId && w.recipientDid = did && !w.consumed)).insertionSort fun w w' =>
    w.createdAt ≤ w'.createdAt

def markWelcomeConsumed (id : Nat) : WelcomeBuffer :=
  { b with rows := b.rows.map fun w => if w.id = id then { w with consumed := true } else w }

def clearWelcomesForDid : WelcomeBuffer :=
  { b with rows := b.rows.filter fun w => ¬ (w.spaceId = spaceId ∧ w.recipientDid = did) }

def clearBuffers : WelcomeBuffer :=
  { b with
    rows := b.rows.filter (·.spaceId ≠ spaceId)
    settled := b.settled ++ (b.stored.filter (·.spaceId = spaceId)).map (·.id) }

def settle (ids : List Nat) : WelcomeBuffer := { b with settled := b.settled ++ ids }

def storedFor : List Nat := (b.stored.filter fun w => w.spaceId = spaceId && w.recipientDid = did).map (·.id)

theorem settle_nil : b.settle [] = b := by
  rw [settle, List.append_nil]

theorem mem_fetchWelcomes {b : WelcomeBuffer} {spaceId did : String} {order : HashOrder Welcome} {w : Welcome} :
    w ∈ b.fetchWelcomes spaceId did order ↔
      w ∈ b.rows ∧ w.spaceId = spaceId ∧ w.recipientDid = did ∧ w.consumed = false := by
  rw [fetchWelcomes, List.mem_insertionSort, (order.perm _).mem_iff, List.mem_filter]
  simp only [Bool.and_eq_true, decide_eq_true_eq, Bool.not_eq_true', and_assoc]

theorem mem_storedFor {b : WelcomeBuffer} {spaceId did : String} {id : Nat} :
    id ∈ b.storedFor spaceId did ↔ ∃ w ∈ b.stored, w.spaceId = spaceId ∧ w.recipientDid = did ∧ w.id = id := by
  simp only [storedFor, List.mem_map, List.mem_filter, Bool.and_eq_true, decide_eq_true_eq, and_assoc]

end WelcomeBuffer

/-! ## The requests -/

inductive FetchPhase where
  | selecting
  /-- These are still to be marked; with none left, the response is on its way. -/
  | marking (todo : List Nat)
  | received
  | lost
  | failed

def FetchPhase.todo : FetchPhase → List Nat
  | marking todo => todo
  | _ => []

/-- A `MlsFetchWelcomes` of the recipient. -/
structure FetchCall where
  spaceId : String
  did : String
  entries : List Welcome := []
  /-- The ids it has marked. -/
  marked : List Nat := []
  phase : FetchPhase := .selecting

inductive ReplacePhase where
  | clearing
  /-- What had been stored for the recipient when its rows were deleted. -/
  | storing (removed : List Nat)
  | done (removed : List Nat)

def ReplacePhase.removed : ReplacePhase → List Nat
  | clearing => []
  | storing removed | done removed => removed

/-- The end of a `ClaimInvite`, which replaces the recipient's welcomes by a new one. -/
structure ReplaceCall where
  spaceId : String
  did : String
  blob : List UInt8
  phase : ReplacePhase := .clearing

inductive WelcomeCall where
  | fetch (f : FetchCall)
  | replace (r : ReplaceCall)

def WelcomeCall.hidden : WelcomeCall → List Nat
  | fetch f => f.marked
  | replace r => r.phase.removed

def WelcomeCall.ids : WelcomeCall → List Nat
  | fetch f => f.marked ++ f.phase.todo
  | replace r => r.phase.removed

theorem WelcomeCall.ids_of_hidden (c : WelcomeCall) {id : Nat} (h : id ∈ c.hidden) : id ∈ c.ids := by
  cases c with
  | fetch f => exact List.mem_append_left _ h
  | replace r => exact h

inductive Attempt where
  | succeeds (order : HashOrder Welcome) (now : String)
  | fails

inductive WelcomeRequest where
  | fetch (spaceId did : String)
  | replace (spaceId did : String) (blob : List UInt8)

inductive WelcomeEvent where
  /-- `MlsSendWelcome`. -/
  | send (spaceId did : String) (blob : List UInt8) (createdAt : String)
  | clearBuffers (spaceId : String)

/-- `MlsFetchWelcomes` from one statement to the next. -/
def FetchCall.advance (b : WelcomeBuffer) (f : FetchCall) : Attempt → WelcomeBuffer × FetchCall
  | .succeeds order _ => match f.phase with
    | .selecting =>
      let entries := b.fetchWelcomes f.spaceId f.did order
      (b, { f with entries, phase := .marking (entries.map (·.id)) })
    | .marking (id :: todo) => (b.markWelcomeConsumed id, { f with marked := f.marked ++ [id], phase := .marking todo })
    | .marking [] => (b.settle (f.entries.map (·.id)), { f with phase := .received })
    | _ => (b, f)
  | .fails => match f.phase with
    | .selecting => (b, { f with phase := .failed })
    | .marking (_ :: todo) => (b, { f with phase := .marking todo }) -- the error is ignored
    | .marking [] => (b, { f with phase := .lost })
    | _ => (b, f)

/-- Step 9 of `handle_claim_invite`, which ignores the error of the DELETE. -/
def ReplaceCall.advance (b : WelcomeBuffer) (r : ReplaceCall) : Attempt → WelcomeBuffer × ReplaceCall
  | .succeeds _ now => match r.phase with
    | .clearing =>
      (b.clearWelcomesForDid r.spaceId r.did, { r with phase := .storing (b.storedFor r.spaceId r.did) })
    | .storing removed => ((b.settle removed).storeWelcome r.spaceId r.did r.blob now, { r with phase := .done removed })
    | .done _ => (b, r)
  | .fails => match r.phase with
    | .clearing => (b, { r with phase := .storing [] })
    | .storing removed => (b, { r with phase := .done removed })
    | .done _ => (b, r)

def welcomeRequests : Calls.Machine WelcomeBuffer WelcomeRequest WelcomeCall Attempt WelcomeEvent where
  start
    | .fetch spaceId did => .fetch { spaceId, did }
    | .replace spaceId did blob => .replace { spaceId, did, blob }
  advance b
    | .fetch f, turn => ((f.advance b turn).1, .fetch (f.advance b turn).2)
    | .replace r, turn => ((r.advance b turn).1, .replace (r.advance b turn).2)
  outside b
    | .send spaceId did blob createdAt => b.storeWelcome spaceId did blob createdAt
    | .clearBuffers spaceId => b.clearBuffers spaceId

abbrev WelcomeDelivery := Calls.Sys WelcomeBuffer WelcomeCall
abbrev DeliveryEvent := Calls.Event WelcomeRequest Attempt WelcomeEvent

namespace WelcomeDelivery

abbrev step : WelcomeDelivery → DeliveryEvent → WelcomeDelivery := welcomeRequests.step

/-- `w` is stored for the recipient of `f`, who has not received it, and it is neither replaced nor cleared. -/
structure Owed (σ : WelcomeDelivery) (f : FetchCall) (w : Welcome) : Prop where
  stored : w ∈ σ.shared.stored
  space : w.spaceId = f.spaceId
  recipient : w.recipientDid = f.did
  unsettled : w.id ∉ σ.shared.settled

def Delivers (σ : WelcomeDelivery) : DeliveryEvent → Prop
  | .resume i (.succeeds order _) => ∀ f, σ.calls[i]? = some (WelcomeCall.fetch f) → f.phase = .selecting →
      ∀ w, Owed σ f w → w ∈ σ.shared.fetchWelcomes f.spaceId f.did order
  | _ => True

/-- When a recipient fetches, no call has marked or deleted a welcome that the recipient is owed. -/
def NothingHidden (σ : WelcomeDelivery) : DeliveryEvent → Prop
  | .resume i (.succeeds _ _) => ∀ f, σ.calls[i]? = some (WelcomeCall.fetch f) → f.phase = .selecting →
      ∀ w, Owed σ f w → ∀ c ∈ σ.calls, w.id ∉ c.hidden
  | _ => True

/-! ## What is out of the fetches -/

/-- A welcome that is not settled stands unconsumed in the table unless a call has marked or deleted it. -/
structure Inv (σ : WelcomeDelivery) : Prop where
  fresh : ∀ w ∈ σ.shared.stored, w.id < σ.shared.nextId
  unique : ∀ w ∈ σ.shared.stored, ∀ w' ∈ σ.shared.stored, w.id = w'.id → w = w'
  rows : ∀ r ∈ σ.shared.rows, { r with consumed := false } ∈ σ.shared.stored
  unconsumed : ∀ w ∈ σ.shared.stored, w.consumed = false
  ids : ∀ c ∈ σ.calls, ∀ id ∈ c.ids, id < σ.shared.nextId
  hidden : ∀ c ∈ σ.calls, ∀ id ∈ c.hidden, ∀ r ∈ σ.shared.rows, r.id = id → r.consumed = true
  kept : ∀ w ∈ σ.shared.stored, w.id ∉ σ.shared.settled → w ∈ σ.shared.rows ∨ ∃ c ∈ σ.calls, w.id ∈ c.hidden

variable {σ : WelcomeDelivery} {i : Nat} {c c' : WelcomeCall} {b : WelcomeBuffer}

theorem Inv.resume (h : Inv σ) (hi : σ.calls[i]? = some c) (hnext : b.nextId = σ.shared.nextId)
    (hstored : b.stored = σ.shared.stored) (hsettled : ∀ id ∈ σ.shared.settled, id ∈ b.settled)
    (hrows : ∀ r ∈ b.rows, ∃ r₀ ∈ σ.shared.rows, r = r₀ ∨ r = { r₀ with consumed := true })
    (hids : ∀ id ∈ c'.ids, id < σ.shared.nextId) (hmore : ∀ id ∈ c.hidden, id ∈ c'.hidden)
    (hnew : ∀ id ∈ c'.hidden, id ∈ c.hidden ∨ ∀ r ∈ b.rows, r.id = id → r.consumed = true)
    (hkept : ∀ w ∈ σ.shared.rows, w ∈ b.rows ∨ w.id ∈ c'.hidden) : Inv ⟨b, σ.calls.set i c'⟩ := by
  have hc := List.mem_of_getElem? hi
  obtain ⟨hilt, -⟩ := List.getElem?_eq_some_iff.1 hi
  have hold : ∀ d ∈ σ.calls, ∀ id ∈ d.hidden, ∀ r ∈ b.rows, r.id = id → r.consumed = true := by
    intro d hd id hid r hr hrid
    obtain ⟨r₀, hr₀, rfl | rfl⟩ := hrows r hr
    · exact h.hidden d hd id hid r hr₀ hrid
    · rfl
  refine ⟨?_, ?_, ?_, ?_, ?_, ?_, ?_⟩
  · rw [hstored, hnext]
    exact h.fresh
  · rw [hstored]
    exact h.unique
  · intro r hr
    rw [hstored]
    obtain ⟨r₀, hr₀, rfl | rfl⟩ := hrows r hr
    · exact h.rows r hr₀
    · exact h.rows r₀ hr₀
  · rw [hstored]
    exact h.unconsumed
  · intro d hd id hid
    rw [hnext]
    rcases List.mem_or_eq_of_mem_set hd with hd | rfl
    · exact h.ids d hd id hid
    · exact hids id hid
  · intro d hd id hid
    rcases List.mem_or_eq_of_mem_set hd with hd | rfl
    · exact hold d hd id hid
    · exact (hnew id hid).elim (hold c hc id) fun hgone => hgone
  · intro w hw hopen
    have hself : c' ∈ σ.calls.set i c' := List.mem_set hilt c'
    rcases h.kept w (hstored ▸ hw) (fun hs => hopen (hsettled _ hs)) with hrow | ⟨d, hd, hid⟩
    · exact (hkept w hrow).imp_right fun hid => ⟨c', hself, hid⟩
    · obtain ⟨j, hj⟩ := List.mem_iff_getElem?.1 hd
      by_cases hij : i = j
      · subst hij
        obtain rfl := Option.some.inj (hi.symm.trans hj)
        exact .inr ⟨c', hself, hmore _ hid⟩
      · exact .inr ⟨d, List.mem_iff_getElem?.2 ⟨j, by rw [List.getElem?_set_ne hij, hj]⟩, hid⟩

theorem Inv.resume_settle (h : Inv σ) (hi : σ.calls[i]? = some c) (hids : ∀ id ∈ c'.ids, id < σ.shared.nextId)
    (hhidden : c'.hidden = c.hidden) (ids : List Nat) : Inv ⟨σ.shared.settle ids, σ.calls.set i c'⟩ :=
  h.resume hi rfl rfl (fun _ hid => List.mem_append_left _ hid) (fun r hr => ⟨r, hr, .inl rfl⟩) hids
    (fun _ hid => hhidden ▸ hid) (fun _ hid => .inl (hhidden ▸ hid)) (fun _ hw => .inl hw)

theorem Inv.store (h : Inv σ) (spaceId did : String) (blob : List UInt8) (createdAt : String) :
    Inv ⟨σ.shared.storeWelcome spaceId did blob createdAt, σ.calls⟩ where
  fresh w hw := by
    rcases List.mem_append.1 hw with hw | hw
    · exact (h.fresh w hw).trans (Nat.lt_succ_self _)
    · obtain rfl := List.mem_singleton.1 hw
      exact Nat.lt_succ_self _
  unique w hw w' hw' hid := by
    rcases List.mem_append.1 hw with hw | hw <;> rcases List.mem_append.1 hw' with hw' | hw'
    · exact h.unique w hw w' hw' hid
    · obtain rfl := List.mem_singleton.1 hw'
      exact absurd hid (h.fresh w hw).ne
    · obtain rfl := List.mem_singleton.1 hw
      exact absurd hid (h.fresh w' hw').ne'
    · rw [List.mem_singleton.1 hw, List.mem_singleton.1 hw']
  rows r hr := by
    rcases List.mem_append.1 hr with hr | hr
    · exact List.mem_append_left _ (h.rows r hr)
    · obtain rfl := List.mem_singleton.1 hr
      exact List.mem_append_right _ (List.mem_singleton_self _)
  unconsumed w hw := by
    rcases List.mem_append.1 hw with hw | hw
    · exact h.unconsumed w hw
    · obtain rfl := List.mem_singleton.1 hw
      rfl
  ids c hc id hid := (h.ids c hc id hid).trans (Nat.lt_succ_self _)
  hidden c hc id hid r hr hrid := by
    rcases List.mem_append.1 hr with hr | hr
    · exact h.hidden c hc id hid r hr hrid
    · obtain rfl := List.mem_singleton.1 hr
      exact absurd hrid.symm (h.ids c hc id (c.ids_of_hidden hid)).ne
  kept w hw hopen := by
    rcases List.mem_append.1 hw with hw | hw
    · exact (h.kept w hw hopen).imp_left (List.mem_append_left _)
    · exact .inl (List.mem_append_right _ hw)

theorem Inv.clearBuffers (h : Inv σ) (spaceId : String) : Inv ⟨σ.shared.clearBuffers spaceId, σ.calls⟩ where
  fresh := h.fresh
  unique := h.unique
  rows r hr := h.rows r (List.mem_filter.1 hr).1
  unconsumed := h.unconsumed
  ids := h.ids
  hidden c hc id hid r hr := h.hidden c hc id hid r (List.mem_filter.1 hr).1
  kept w hw hopen := by
    have hspace : w.spaceId ≠ spaceId := fun hs => hopen
      (List.mem_append_right _ (List.mem_map_of_mem (List.mem_filter.2 ⟨hw, decide_eq_true hs⟩)))
    refine (h.kept w hw fun hs => hopen (List.mem_append_left _ hs)).imp_left fun hrow => ?_
    exact List.mem_filter.2 ⟨hrow, decide_eq_true hspace⟩

theorem Inv.start (h : Inv σ) (request : WelcomeRequest) : Inv (step σ (.start request)) := by
  have hids : (welcomeRequests.start request).ids = [] := by cases request <;> rfl
  refine ⟨h.fresh, h.unique, h.rows, h.unconsumed, fun c hc id hid => ?_, fun c hc id hid => ?_, fun w hw hopen => ?_⟩
  · rcases List.mem_append.1 hc with hc | hc
    · exact h.ids c hc id hid
    · rw [List.mem_singleton.1 hc, hids] at hid
      cases hid
  · rcases List.mem_append.1 hc with hc | hc
    · exact h.hidden c hc id hid
    · have hmem := c.ids_of_hidden hid
      rw [List.mem_singleton.1 hc, hids] at hmem
      cases hmem
  · exact (h.kept w hw hopen).imp_right fun ⟨c, hc, hid⟩ => ⟨c, List.mem_append_left _ hc, hid⟩

theorem Inv.mark (h : Inv σ) {f : FetchCall} {id : Nat} {todo : List Nat} (hi : σ.calls[i]? = some (.fetch f))
    (hphase : f.phase = .marking (id :: todo)) : Inv ⟨σ.shared.markWelcomeConsumed id,
      σ.calls.set i (.fetch { f with marked := f.marked ++ [id], phase := .marking todo })⟩ := by
  have hids := h.ids _ (List.mem_of_getElem? hi)
  rw [WelcomeCall.ids, hphase] at hids
  refine h.resume hi rfl rfl (fun _ hid => hid) (fun r hr => ?_) (fun id' hid => hids id' ?_)
    (fun _ hid => List.mem_append_left _ hid) (fun id' hid => ?_) (fun w hw => ?_)
  · obtain ⟨r₀, hr₀, rfl⟩ := List.mem_map.1 hr
    refine ⟨r₀, hr₀, ?_⟩
    split
    · exact .inr rfl
    · exact .inl rfl
  · rwa [WelcomeCall.ids, FetchPhase.todo, List.append_assoc] at hid
  · rcases List.mem_append.1 hid with hid | hid
    · exact .inl hid
    · obtain rfl := List.mem_singleton.1 hid
      refine .inr fun r hr hrid => ?_
      obtain ⟨r₀, hr₀, rfl⟩ := List.mem_map.1 hr
      split at hrid
      · rw [if_pos (by assumption)]
      · contradiction
  · by_cases hid : w.id = id
    · exact .inr (List.mem_append_right _ (List.mem_singleton.2 hid))
    · exact .inl (List.mem_map.2 ⟨w, hw, if_neg hid⟩)

theorem Inv.clearForDid (h : Inv σ) {r : ReplaceCall} (hi : σ.calls[i]? = some (.replace r)) (hphase : r.phase = .clearing) :
    Inv ⟨σ.shared.clearWelcomesForDid r.spaceId r.did,
      σ.calls.set i (.replace { r with phase := .storing (σ.shared.storedFor r.spaceId r.did) })⟩ := by
  refine h.resume hi rfl rfl (fun _ hid => hid) (fun w hw => ⟨w, (List.mem_filter.1 hw).1, .inl rfl⟩)
    (fun id hid => ?_) (fun id hid => ?_) (fun id hid => .inr fun r' hr' hrid => ?_) (fun w hw => ?_)
  · obtain ⟨w, hw, -, -, rfl⟩ := WelcomeBuffer.mem_storedFor.1 hid
    exact h.fresh w hw
  · rw [WelcomeCall.hidden, hphase] at hid
    cases hid
  · -- a row that is left with the id of a removed one is of the same recipient
    obtain ⟨w, hw, hspace, hdid, rfl⟩ := WelcomeBuffer.mem_storedFor.1 hid
    obtain ⟨hr', hkept⟩ := List.mem_filter.1 hr'
    have hsame := h.unique _ (h.rows r' hr') w hw hrid
    rw [← hsame] at hspace hdid
    exact absurd ⟨hspace, hdid⟩ (of_decide_eq_true hkept)
  · by_cases hown : w.spaceId = r.spaceId ∧ w.recipientDid = r.did
    · exact .inr (WelcomeBuffer.mem_storedFor.2 ⟨_, h.rows w hw, hown.1, hown.2, rfl⟩)
    · exact .inl (List.mem_filter.2 ⟨hw, decide_eq_true hown⟩)

theorem Inv.resume_idle (h : Inv σ) (hi : σ.calls[i]? = some c) (hids : ∀ id ∈ c'.ids, id < σ.shared.nextId)
    (hhidden : c'.hidden = c.hidden) : Inv ⟨σ.shared, σ.calls.set i c'⟩ := by
  have hsame := h.resume_settle hi hids hhidden []
  rwa [WelcomeBuffer.settle_nil] at hsame

theorem Inv.fetch (h : Inv σ) {f : FetchCall} (hi : σ.calls[i]? = some (.fetch f)) (turn : Attempt) :
    Inv ⟨(f.advance σ.shared turn).1, σ.calls.set i (.fetch (f.advance σ.shared turn).2)⟩ := by
  have hids := h.ids _ (List.mem_of_getElem? hi)
  have hmarked : ∀ id ∈ f.marked, id < σ.shared.nextId := fun id hid => hids id (List.mem_append_left _ hid)
  have hended : ∀ phase : FetchPhase, phase.todo = [] → ∀ id ∈ f.marked ++ phase.todo, id < σ.shared.nextId := by
    intro phase hnone id hid
    rw [hnone, List.append_nil] at hid
    exact hmarked id hid
  cases turn with
  | succeeds order now =>
    unfold FetchCall.advance
    cases hphase : f.phase with
    | selecting =>
      refine h.resume_idle hi (fun id hid => ?_) rfl
      rcases List.mem_append.1 hid with hid | hid
      · exact hmarked id hid
      · obtain ⟨w, hw, rfl⟩ := List.mem_map.1 hid
        exact h.fresh { w with consumed := false } (h.rows w (WelcomeBuffer.mem_fetchWelcomes.1 hw).1)
    | marking todo =>
      cases todo with
      | nil =>
        refine h.resume_settle hi ?_ ?_ _
        · exact hended .received rfl
        · rfl
      | cons id todo => exact h.mark hi hphase
    | received | lost | failed => exact h.resume_idle hi hids rfl
  | fails =>
    unfold FetchCall.advance
    cases hphase : f.phase with
    | selecting => exact h.resume_idle hi (hended .failed rfl) rfl
    | marking todo =>
      cases todo with
      | nil => exact h.resume_idle hi (hended .lost rfl) rfl
      | cons id todo =>
        rw [WelcomeCall.ids, hphase] at hids
        refine h.resume_idle hi (fun id' hid => hids id' ?_) rfl
        exact (List.mem_append.1 hid).elim (List.mem_append_left _) fun htodo =>
          List.mem_append_right _ (List.mem_cons_of_mem _ htodo)
    | received | lost | failed => exact h.resume_idle hi hids rfl

theorem Inv.replace (h : Inv σ) {r : ReplaceCall} (hi : σ.calls[i]? = some (.replace r)) (turn : Attempt) :
    Inv ⟨(r.advance σ.shared turn).1, σ.calls.set i (.replace (r.advance σ.shared turn).2)⟩ := by
  have hids := h.ids _ (List.mem_of_getElem? hi)
  cases turn with
  | succeeds order now =>
    unfold ReplaceCall.advance
    cases hphase : r.phase with
    | clearing => exact h.clearForDid hi hphase
    | storing removed =>
      rw [WelcomeCall.ids, hphase] at hids
      have hdone : Inv ⟨σ.shared.settle removed, σ.calls.set i (.replace { r with phase := .done removed })⟩ := by
        refine h.resume_settle hi ?_ ?_ removed
        · exact hids
        · rw [WelcomeCall.hidden, WelcomeCall.hidden, hphase]
          rfl
      exact hdone.store r.spaceId r.did r.blob now
    | done removed => exact h.resume_idle hi hids rfl
  | fails =>
    unfold ReplaceCall.advance
    cases hphase : r.phase with
    | clearing =>
      refine h.resume_idle hi ?_ ?_
      · exact fun _ hid => absurd hid List.not_mem_nil
      · rw [WelcomeCall.hidden, WelcomeCall.hidden, hphase]
        rfl
    | storing removed =>
      rw [WelcomeCall.ids, hphase] at hids
      refine h.resume_idle hi ?_ ?_
      · exact hids
      · rw [WelcomeCall.hidden, WelcomeCall.hidden, hphase]
        rfl
    | done removed => exact h.resume_idle hi hids rfl

theorem Inv.step (h : Inv σ) (e : DeliveryEvent) : Inv (step σ e) := by
  cases e with
  | start request => exact h.start request
  | resume i turn =>
    cases hi : σ.calls[i]? with
    | none => rwa [WelcomeDelivery.step, Calls.step_resume_none hi]
    | some c =>
      rw [WelcomeDelivery.step, Calls.step_resume hi]
      cases c with
      | fetch f => exact h.fetch hi turn
      | replace r => exact h.replace hi turn
  | outside e =>
    cases e with
    | send spaceId did blob createdAt => exact h.store spaceId did blob createdAt
    | clearBuffers spaceId => exact h.clearBuffers spaceId

theorem inv_init : Inv ({ shared := {} } : WelcomeDelivery) :=
  ⟨nofun, nofun, nofun, nofun, nofun, nofun, nofun⟩

theorem Inv.delivers_iff (h : Inv σ) (e : DeliveryEvent) : Delivers σ e ↔ NothingHidden σ e := by
  cases e with
  | start _ => exact Iff.rfl
  | outside _ => exact Iff.rfl
  | resume i turn =>
    cases turn with
    | fails => exact Iff.rfl
    | succeeds order now =>
      refine forall₃_congr fun f hi hphase => forall₂_congr fun w hw => ?_
      rw [WelcomeBuffer.mem_fetchWelcomes]
      constructor
      · rintro ⟨hrow, -, -, hconsumed⟩ c hc hid
        rw [h.hidden c hc _ hid w hrow rfl] at hconsumed
        cases hconsumed
      · intro hnone
        refine ⟨(h.kept w hw.stored hw.unsettled).resolve_right ?_, hw.space, hw.recipient, h.unconsumed w hw.stored⟩
        rintro ⟨c, hc, hid⟩
        exact hnone c hc hid

/-- The fetches of a run find all that their recipients are owed exactly when no welcome that a call has marked or deleted
is still owed when its recipient fetches next. -/
theorem welcomes_delivered_iff (events : List DeliveryEvent) :
    Guarded step Delivers { shared := {} } events ↔ Guarded step NothingHidden { shared := {} } events :=
  Guarded.congr ((guarded_true _ events).each (fun _ e h _ => h.step e) (fun _ e h _ => h.delivers_iff e) inv_init)

def asStored : HashOrder Welcome := ⟨id, List.Perm.refl⟩

/-- A welcome is fetched, marked, and its response is lost; the recipient fetches again. -/
def lostResponse : List DeliveryEvent :=
  let ok := Attempt.succeeds asStored "2025-06-15 12:00:00"
  [.outside (.send "s" "did:b" [1] "2025-06-15 11:00:00"), .start (.fetch "s" "did:b"), .resume 0 ok, .resume 0 ok,
    .resume 0 .fails, .start (.fetch "s" "did:b"), .resume 1 ok]

/-- The second fetch does not find it. -/
theorem welcome_lost : ¬ ∀ events : List DeliveryEvent, Guarded step Delivers { shared := {} } events := by
  intro h
  obtain ⟨-, -, -, -, -, -, hlast, -⟩ := h lostResponse
  have hfound := hlast { spaceId := "s", did := "did:b" } rfl rfl ⟨0, "s", "did:b", [1], "2025-06-15 11:00:00", false⟩
    ⟨List.mem_singleton_self _, rfl, rfl, List.not_mem_nil⟩
  exact absurd (WelcomeBuffer.mem_fetchWelcomes.1 hfound).1 (by decide)

end WelcomeDelivery

end HaexVault.Space
