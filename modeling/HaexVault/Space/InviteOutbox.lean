import Mathlib.Data.List.Nodup
import HaexVault.Lib.Calls
/-!
# The invite outbox (`composables/useInviteOutbox.ts`)

A run of `processOutboxAsync` reads the rows that are due once and goes through what it has read.
What it decides about an entry it writes without a look at the row, after waits in which other runs,
a manual retry or a dismissal have come (`outbox_keeps_state_iff`).
-/

namespace HaexVault.Space.InviteOutbox

open HaexVault.Lib HaexVault.Lib.Runs

/-! ## The states of an entry -/

inductive OutboxStatus where
  | pending | delivered | expired | failed
  deriving DecidableEq

def backoffSeconds : List Nat := [0, 5, 15, 60, 300, 900]

def maxOutboxRetries : Nat := backoffSeconds.length

def nextRetryDelay (retryCount : Nat) : Nat :=
  (backoffSeconds[min retryCount (backoffSeconds.length - 1)]?).getD 0 * 1000

/-- A row of `haex_invite_outbox`. The ISO texts of times stand here as instants in milliseconds; an empty one is none. -/
structure OutboxEntry where
  id : String
  spaceId : String
  tokenId : String
  targetEndpointId : String
  status : OutboxStatus := .pending
  retryCount : Nat := 0
  nextRetryAt : Option Nat
  expiresAt : Option Nat
  lastError : Option String := none
  deriving DecidableEq

inductive OutboxAttemptOutcome where
  | delivered
  | failed (error : String)
  deriving DecidableEq

inductive OutboxNextState where
  | delivered
  | pending (retryCount nextRetryAt : Nat) (lastError : String)
  | failed (retryCount : Nat) (lastError : String)
  deriving DecidableEq

def computeOutboxNextState (retryCount : Nat) (outcome : OutboxAttemptOutcome) (now : Nat) : OutboxNextState :=
  match outcome with
  | .delivered => .delivered
  | .failed error =>
    let nextCount := retryCount + 1
    if maxOutboxRetries ≤ nextCount then .failed nextCount error
    else .pending nextCount (now + nextRetryDelay nextCount) error

def OutboxEntry.set (e : OutboxEntry) : OutboxNextState → OutboxEntry
  | .delivered => { e with status := .delivered }
  | .pending retryCount nextRetryAt lastError =>
    { e with status := .pending, retryCount, nextRetryAt := some nextRetryAt, lastError := some lastError }
  | .failed retryCount lastError => { e with status := .failed, retryCount, lastError := some lastError }

/-- The columns that `retryFailedOutboxEntryAsync` writes. -/
def OutboxEntry.retried (now : Nat) (e : OutboxEntry) : OutboxEntry :=
  { e with status := .pending, retryCount := 0, nextRetryAt := some now, lastError := none }

inductive Write where
  /-- The entry has expired, or its token at that time, or it has no token with capabilities. -/
  | expired (since : Option Nat)
  | ownEndpoint
  /-- `computeOutboxNextState` of what came of the push. -/
  | attempt (outcome : OutboxAttemptOutcome) (now : Nat)

def Write.apply (w : Write) (e r : OutboxEntry) : OutboxEntry :=
  match w with
  | .expired _ => { r with status := .expired }
  | .ownEndpoint => { r with status := .delivered }
  | .attempt outcome now => r.set (computeOutboxNextState e.retryCount outcome now)

def Write.Fits (w : Write) (e r : OutboxEntry) : Prop :=
  match w with
  | .expired _ => r.status = .pending ∨ r.status = .expired
  | .ownEndpoint | .attempt .delivered _ => r.status = .pending ∨ r.status = .delivered
  | .attempt (.failed _) _ => r.status = .pending ∧ r.retryCount = e.retryCount

theorem OutboxEntry.set_id (e : OutboxEntry) (s : OutboxNextState) : (e.set s).id = e.id := by
  cases s <;> rfl

theorem OutboxEntry.retried_id (now : Nat) (e : OutboxEntry) : (e.retried now).id = e.id := rfl

theorem Write.apply_id (w : Write) (e r : OutboxEntry) : (w.apply e r).id = r.id := by
  cases w with
  | expired since => rfl
  | ownEndpoint => rfl
  | attempt outcome now => exact r.set_id _

/-! ## The table -/

inductive Sent where
  | pushed (id : String)
  | retried (id : String)

/-- The table, with the pushes and manual retries so far, the latest first. -/
structure Outbox where
  rows : List OutboxEntry
  ids_nodup : (rows.map (·.id)).Nodup
  log : List Sent := []

def pushesSinceRetry (id : String) : List Sent → Nat
  | [] => 0
  | .pushed id' :: log => (if id' = id then 1 else 0) + pushesSinceRetry id log
  | .retried id' :: log => if id' = id then 0 else pushesSinceRetry id log

namespace Outbox

variable (b : Outbox)

def entry (id : String) : Option OutboxEntry := b.rows.find? fun r => r.id = id

theorem map_id_update (rows : List OutboxEntry) (id : String) {f : OutboxEntry → OutboxEntry} (hf : ∀ r, (f r).id = r.id) :
    (rows.map fun r => if r.id = id then f r else r).map (·.id) = rows.map (·.id) := by
  rw [List.map_map]
  refine List.map_congr_left fun r _ => ?_
  dsimp only [Function.comp]
  split
  · exact hf r
  · rfl

def update (id : String) (f : OutboxEntry → OutboxEntry) (hf : ∀ r, (f r).id = r.id) : Outbox :=
  { b with
    rows := b.rows.map fun r => if r.id = id then f r else r
    ids_nodup := by rw [map_id_update b.rows id hf]; exact b.ids_nodup }

def delete (id : String) : Outbox :=
  { b with
    rows := b.rows.filter fun r => r.id ≠ id
    ids_nodup := b.ids_nodup.sublist (List.filter_sublist.map _) }

def logged (s : Sent) : Outbox := { b with log := s :: b.log }

end Outbox

/-! ## The calls -/

/-- Where a call waits. A run has the entry it is at and those still to come. -/
inductive Phase where
  /-- The update of `retryFailedOutboxEntryAsync`. -/
  | retrying (entryId : String)
  /-- The delete of `dismissFailedOutboxEntryAsync`. -/
  | dismissing (entryId : String)
  | selecting
  | startingPeers (entries : List OutboxEntry)
  | loadingIdentities (entries : List OutboxEntry)
  | writing (w : Write) (e : OutboxEntry) (rest : List OutboxEntry)
  | deletingToken (rest : List OutboxEntry)
  | loadingSpace (e : OutboxEntry) (rest : List OutboxEntry)
  | loadingToken (e : OutboxEntry) (rest : List OutboxEntry)
  | loadingUcans (e : OutboxEntry) (rest : List OutboxEntry)
  | loadingDevices (e : OutboxEntry) (rest : List OutboxEntry)
  /-- `local_delivery_push_invite`. -/
  | pushing (e : OutboxEntry) (rest : List OutboxEntry)
  | done

structure Call where
  /-- The time at which the call began. -/
  now : Nat
  ownEndpointId : Option String := none
  phase : Phase

structure InviteToken where
  capabilities : Option (Except String (List String))
  expiresAt : Option Nat

/-- What a wait ends with: an error of what is called outside the database, or what is there by then. -/
structure Answer where
  clock : Nat
  error : Option String := none
  nodeId : Option String := none
  ownIdentities : Bool := true
  space : Bool := true
  token : Option InviteToken := none
  accepted : Bool := true

def Answer.outcome (a : Answer) : OutboxAttemptOutcome :=
  match a.error with
  | some error => .failed error
  | none => if a.accepted then .delivered else .failed "PushInvite rejected by recipient (accepted=false)"

def twoWeeksMs : Nat := 14 * 24 * 60 * 60 * 1000

namespace Call

def goOn (c : Call) : List OutboxEntry → Call
  | [] => { c with phase := .done }
  | e :: rest =>
    if e.expiresAt.any (· ≤ c.now) then { c with phase := .writing (.expired e.expiresAt) e rest }
    else if c.ownEndpointId = some e.targetEndpointId then { c with phase := .writing .ownEndpoint e rest }
    else { c with phase := .loadingSpace e rest }

/-- The entries that `processOutboxAsync` reads. -/
def due (c : Call) (b : Outbox) : List OutboxEntry :=
  b.rows.filter fun r => r.status = .pending ∧ r.nextRetryAt.any (· ≤ c.now)

/-- What a call does from one wait to the next, apart from the table. -/
def next (b : Outbox) (c : Call) (a : Answer) : Call :=
  match c.phase with
  | .retrying _ => { c with now := a.clock, phase := .selecting }
  | .selecting =>
    if c.due b = [] then { c with phase := .done }
    else if a.nodeId.isNone then { c with phase := .startingPeers (c.due b) }
    else { c with ownEndpointId := a.nodeId, phase := .loadingIdentities (c.due b) }
  | .startingPeers entries =>
    if a.error.isSome then { c with phase := .done }
    else { c with ownEndpointId := a.nodeId, phase := .loadingIdentities entries }
  | .loadingIdentities entries => if a.error.isSome || !a.ownIdentities then { c with phase := .done } else c.goOn entries
  | .writing (.expired since) _ rest =>
    if since.any fun t => twoWeeksMs < a.clock - t then { c with phase := .deletingToken rest } else c.goOn rest
  | .writing _ _ rest => c.goOn rest
  | .deletingToken rest => c.goOn rest
  | .loadingSpace e rest => if a.space then { c with phase := .loadingToken e rest } else c.goOn rest
  | .loadingToken e rest =>
    match a.token.bind fun t => t.capabilities.map fun capabilities => (capabilities, t.expiresAt) with
    | none => { c with phase := .writing (.expired none) e rest }
    | some (capabilities, expiresAt) =>
      if expiresAt.any (· ≤ c.now) then { c with phase := .writing (.expired expiresAt) e rest }
      else match capabilities with
        | .error _ => { c with phase := .done } -- `JSON.parse` throws
        | .ok _ => { c with phase := .loadingUcans e rest }
  | .loadingUcans e rest => { c with phase := .loadingDevices e rest }
  | .loadingDevices e rest => { c with phase := .pushing e rest }
  | .pushing e rest => { c with phase := .writing (.attempt a.outcome a.clock) e rest }
  | .dismissing _ | .done => { c with phase := .done }

/-- What the end of a wait does to the table, and to the log where an invite goes out. -/
def effect (c : Call) (b : Outbox) : Outbox :=
  match c.phase with
  | .retrying id => (b.update id (.retried c.now) (OutboxEntry.retried_id c.now)).logged (.retried id)
  | .dismissing id => b.delete id
  | .writing w e _ => b.update e.id (w.apply e) (w.apply_id e)
  | .loadingDevices e _ => b.logged (.pushed e.id)
  | _ => b

end Call

/-- The entries that a call has read and is not done with. -/
def Phase.entries : Phase → List OutboxEntry
  | .retrying _ | .dismissing _ | .selecting | .done => []
  | .startingPeers entries | .loadingIdentities entries | .deletingToken entries => entries
  | .writing _ e rest | .loadingSpace e rest | .loadingToken e rest | .loadingUcans e rest | .loadingDevices e rest
  | .pushing e rest => e :: rest

def Call.pushes (c : Call) (id : String) : Bool :=
  match c.phase with
  | .pushing e _ | .writing (.attempt _ _) e _ => e.id = id
  | _ => false

inductive Request where
  | process
  | retry (entryId : String)
  | dismiss (entryId : String)

/-- `processOutboxAsync`, `retryFailedOutboxEntryAsync` and `dismissFailedOutboxEntryAsync`, each with the time it begins. -/
def outboxCalls : Calls.Machine Outbox (Request × Nat) Call Answer Empty where
  start
    | (.process, now) => { now, phase := .selecting }
    | (.retry entryId, now) => { now, phase := .retrying entryId }
    | (.dismiss entryId, now) => { now, phase := .dismissing entryId }
  advance b c a := (c.effect b, c.next b a)
  outside b _ := b

abbrev Vault := Calls.Sys Outbox Call
abbrev Event := Calls.Event (Request × Nat) Answer Empty

namespace Vault

abbrev step : Vault → Event → Vault := outboxCalls.step

def entry (σ : Vault) (id : String) : Option OutboxEntry := σ.shared.entry id

def Ends (σ : Vault) (ev : Event) (phase : Phase) : Prop :=
  ∃ i a c, ev = .resume i a ∧ σ.calls[i]? = some c ∧ c.phase = phase

/-- An entry is not left, pushed or counted otherwise than its states say. -/
structure KeepsState (σ : Vault) (ev : Event) : Prop where
  settled : ∀ id, ∀ r ∈ σ.entry id, r.status = .delivered ∨ r.status = .expired →
    ∀ r' ∈ (step σ ev).entry id, r'.status = r.status
  failed : ∀ id, ∀ r ∈ σ.entry id, r.status = .failed → ∀ r' ∈ (step σ ev).entry id,
    r'.status = .failed ∨ Ends σ ev (.retrying id)
  raised : ∀ error now e rest, Ends σ ev (.writing (.attempt (.failed error) now) e rest) →
    ∀ r ∈ σ.entry e.id, ∀ r' ∈ (step σ ev).entry e.id, r'.retryCount = r.retryCount + 1
  bounded : ∀ id, pushesSinceRetry id (step σ ev).shared.log ≤ maxOutboxRetries

/-- An invite goes out only while the row is pending with the count that the run has read, and no other push of the entry
is under way or still to be written down. -/
def PushesAlone (σ : Vault) (ev : Event) : Prop :=
  ∀ e rest, Ends σ ev (.loadingDevices e rest) →
    (∃ r ∈ σ.entry e.id, r.status = .pending ∧ r.retryCount = e.retryCount) ∧ ∀ c ∈ σ.calls, c.pushes e.id = false

/-- A write finds the row pending, or in the state that it writes; that of a failed push finds it with the count that the
run has read. A manual retry is not of an entry that was delivered or has expired. -/
structure FindsUnchanged (σ : Vault) (ev : Event) : Prop where
  writes : ∀ w e rest, Ends σ ev (.writing w e rest) → ∀ r ∈ σ.entry e.id, w.Fits e r
  retries : ∀ id, Ends σ ev (.retrying id) → ∀ r ∈ σ.entry id, r.status = .pending ∨ r.status = .failed

end Vault

/-! ## Rows -/

namespace Outbox

variable {b : Outbox} {id id' : String} {r : OutboxEntry}

theorem entry_eq_some : b.entry id = some r ↔ r ∈ b.rows ∧ r.id = id := by
  constructor
  · intro h
    rw [entry] at h
    have hid := List.find?_some h
    exact ⟨List.mem_of_find?_eq_some h, of_decide_eq_true hid⟩
  · rintro ⟨hr, rfl⟩
    cases hfind : b.entry r.id with
    | none =>
      rw [entry, List.find?_eq_none] at hfind
      exact absurd (decide_eq_true rfl) (hfind r hr)
    | some r' =>
      rw [entry] at hfind
      have hid := List.find?_some hfind
      rw [List.inj_on_of_nodup_map b.ids_nodup (List.mem_of_find?_eq_some hfind) hr (of_decide_eq_true hid)]

theorem entry_update (f : OutboxEntry → OutboxEntry) (hf : ∀ r, (f r).id = r.id) :
    (b.update id f hf).entry id' = if id' = id then (b.entry id').map f else b.entry id' := by
  ext r'
  rw [entry_eq_some]
  simp only [update, List.mem_map]
  split
  · rename_i h
    subst h
    rw [Option.map_eq_some_iff]
    constructor
    · rintro ⟨⟨r, hr, rfl⟩, hid⟩
      split at hid
      · rename_i hr'
        exact ⟨r, entry_eq_some.2 ⟨hr, hr'⟩, by rw [if_pos hr']⟩
      · rename_i hr'
        exact absurd hid hr'
    · rintro ⟨r, hr, rfl⟩
      obtain ⟨hmem, hid⟩ := entry_eq_some.1 hr
      exact ⟨⟨r, hmem, if_pos hid⟩, (hf r).trans hid⟩
  · rename_i h
    rw [entry_eq_some]
    constructor
    · rintro ⟨⟨r, hr, rfl⟩, hid⟩
      split at hid
      · rename_i hr'
        exact absurd (hid.symm.trans ((hf r).trans hr')) h
      · rename_i hr'
        rw [if_neg hr']
        exact ⟨hr, hid⟩
    · rintro ⟨hr, hid⟩
      exact ⟨⟨r', hr, if_neg fun hr' => h (hid.symm.trans hr')⟩, hid⟩

theorem entry_logged (s : Sent) : (b.logged s).entry id = b.entry id := rfl

theorem entry_delete : (b.delete id).entry id' = if id' = id then none else b.entry id' := by
  ext r
  rw [entry_eq_some]
  simp only [delete, List.mem_filter, decide_eq_true_eq]
  split
  · rename_i h
    subst h
    exact iff_of_false (fun hr => hr.1.2 hr.2) (by simp)
  · rename_i h
    rw [entry_eq_some]
    exact ⟨fun hr => ⟨hr.1.1, hr.2⟩, fun hr => ⟨⟨hr.1, fun he => h (hr.2.symm.trans he)⟩, hr.2⟩⟩

end Outbox

/-! ## What one step does -/

namespace Call

variable (b : Outbox) (c : Call) (a : Answer) (id : String)

theorem pushes_goOn (entries : List OutboxEntry) : (c.goOn entries).pushes id = false := by
  cases entries with
  | nil => rfl
  | cons e rest =>
    rw [goOn]
    split
    · rfl
    split <;> rfl

theorem entries_goOn (entries : List OutboxEntry) : (c.goOn entries).phase.entries = entries := by
  cases entries with
  | nil => rfl
  | cons e rest =>
    rw [goOn]
    split
    · rfl
    split <;> rfl

theorem pushes_next : (c.next b a).pushes id = match c.phase with
    | .loadingDevices e _ | .pushing e _ => decide (e.id = id)
    | _ => false := by
  obtain ⟨now, own, phase⟩ := c
  cases phase with
  | retrying | dismissing | loadingUcans | loadingDevices | pushing | done => rfl
  | deletingToken rest => exact pushes_goOn _ id rest
  | selecting =>
    unfold next
    dsimp only
    split
    · rfl
    split <;> rfl
  | startingPeers entries =>
    unfold next
    dsimp only
    split <;> rfl
  | loadingIdentities entries =>
    unfold next
    dsimp only
    split
    · rfl
    · exact pushes_goOn _ id entries
  | writing w e rest =>
    cases w with
    | ownEndpoint | attempt => exact pushes_goOn _ id rest
    | expired since =>
      unfold next
      dsimp only
      split
      · rfl
      · exact pushes_goOn _ id rest
  | loadingSpace e rest =>
    unfold next
    dsimp only
    split
    · rfl
    · exact pushes_goOn _ id rest
  | loadingToken e rest =>
    unfold next
    dsimp only
    split
    · rfl
    split
    · rfl
    split <;> rfl

theorem entries_next {e : OutboxEntry} (h : e ∈ (c.next b a).phase.entries) :
    e ∈ c.phase.entries ∨ e ∈ b.rows ∧ e.status = .pending := by
  have hdue : ∀ e ∈ c.due b, e ∈ b.rows ∧ e.status = .pending := fun e he =>
    ⟨(List.mem_filter.1 he).1, (of_decide_eq_true (List.mem_filter.1 he).2).1⟩
  obtain ⟨now, own, phase⟩ := c
  cases phase with
  | retrying | dismissing | done => cases h
  | loadingUcans | loadingDevices | pushing => exact .inl h
  | deletingToken rest =>
    rw [show next b _ a = goOn _ rest from rfl, entries_goOn] at h
    exact .inl h
  | selecting =>
    unfold next at h
    dsimp only at h
    split at h
    · cases h
    split at h
    · exact .inr (hdue e h)
    · exact .inr (hdue e h)
  | startingPeers entries =>
    unfold next at h
    dsimp only at h
    split at h
    · cases h
    · exact .inl h
  | loadingIdentities entries =>
    unfold next at h
    dsimp only at h
    split at h
    · cases h
    · rw [entries_goOn] at h
      exact .inl h
  | writing w e rest =>
    cases w with
    | ownEndpoint | attempt =>
      rw [show next b _ a = goOn _ rest from rfl, entries_goOn] at h
      exact .inl (List.mem_cons_of_mem _ h)
    | expired since =>
      unfold next at h
      dsimp only at h
      split at h
      · exact .inl (List.mem_cons_of_mem _ h)
      · rw [entries_goOn] at h
        exact .inl (List.mem_cons_of_mem _ h)
  | loadingSpace e rest =>
    unfold next at h
    dsimp only at h
    split at h
    · exact .inl h
    · rw [entries_goOn] at h
      exact .inl (List.mem_cons_of_mem _ h)
  | loadingToken e rest =>
    unfold next at h
    dsimp only at h
    split at h
    · exact .inl h
    split at h
    · exact .inl h
    split at h
    · cases h
    · exact .inl h

end Call

namespace Vault

variable {σ : Vault} {ev : Event} {i : Nat} {c c' : Call} {a : Answer} {phase : Phase}

theorem step_resume (hi : σ.calls[i]? = some c) :
    step σ (.resume i a) = ⟨c.effect σ.shared, σ.calls.set i (c.next σ.shared a)⟩ := Calls.step_resume hi a

theorem ends_resume_iff (hi : σ.calls[i]? = some c) : Ends σ (.resume i a) phase ↔ c.phase = phase := by
  constructor
  · rintro ⟨j, a', c', hev, hj, hphase⟩
    obtain ⟨rfl, -⟩ := Calls.Event.resume.inj hev
    rwa [Option.some.inj (hi.symm.trans hj)]
  · exact fun h => ⟨i, a, c, rfl, hi, h⟩

theorem not_ends_start {p : Request × Nat} : ¬Ends σ (.start p) phase := by
  rintro ⟨j, a', c', hev, -⟩
  cases hev

theorem not_ends_none (hi : σ.calls[i]? = none) : ¬Ends σ (.resume i a) phase := by
  rintro ⟨j, a', c', hev, hj, -⟩
  obtain ⟨rfl, -⟩ := Calls.Event.resume.inj hev
  rw [hi] at hj
  cases hj

theorem entry_write {w : Write} {e : OutboxEntry} {rest : List OutboxEntry} (h : Ends σ ev (.writing w e rest)) :
    (step σ ev).entry e.id = (σ.entry e.id).map (w.apply e) := by
  obtain ⟨i, a, c, rfl, hi, hphase⟩ := h
  simp only [step_resume hi, entry, Call.effect, hphase, Outbox.entry_update, if_true]

theorem entry_retry {id : String} (h : Ends σ ev (.retrying id)) :
    ∃ now, (step σ ev).entry id = (σ.entry id).map (.retried now) := by
  obtain ⟨i, a, c, rfl, hi, hphase⟩ := h
  refine ⟨c.now, ?_⟩
  simp only [step_resume hi, entry, Call.effect, hphase, Outbox.entry_logged, Outbox.entry_update, if_true]

theorem status_of_retry {id : String} (h : Ends σ ev (.retrying id)) {r' : OutboxEntry} (hr' : r' ∈ (step σ ev).entry id) :
    r'.status = .pending ∧ r'.retryCount = 0 := by
  obtain ⟨now, hrow⟩ := entry_retry h
  rw [hrow] at hr'
  obtain ⟨r, -, rfl⟩ := Option.map_eq_some_iff.1 hr'
  exact ⟨rfl, rfl⟩

theorem entry_step {id : String} {r' : OutboxEntry} (h : r' ∈ (step σ ev).entry id) :
    ∃ r ∈ σ.entry id, ((∀ w e rest, Ends σ ev (.writing w e rest) → e.id ≠ id) ∧ r' = r) ∨
      (∃ w e rest, Ends σ ev (.writing w e rest) ∧ e.id = id ∧ r' = w.apply e r) ∨ Ends σ ev (.retrying id) := by
  cases ev with
  | start p => exact ⟨r', h, .inl ⟨fun w e rest hends => absurd hends not_ends_start, rfl⟩⟩
  | outside e => cases e
  | resume i a =>
    cases hi : σ.calls[i]? with
    | none =>
      rw [step, Calls.step_resume_none hi] at h
      exact ⟨r', h, .inl ⟨fun w e rest hends => absurd hends (not_ends_none hi), rfl⟩⟩
    | some c =>
      rw [step_resume hi, entry, Call.effect] at h
      have hwriting : ∀ {w e rest}, Ends σ (.resume i a) (.writing w e rest) → c.phase = .writing w e rest :=
        (ends_resume_iff hi).1
      cases hphase : c.phase with
      | retrying id' =>
        simp only [hphase, Outbox.entry_logged, Outbox.entry_update] at h
        split at h
        · rename_i hid
          subst hid
          obtain ⟨r, hr, -⟩ := Option.map_eq_some_iff.1 h
          exact ⟨r, hr, .inr (.inr ((ends_resume_iff hi).2 hphase))⟩
        · exact ⟨r', h, .inl ⟨fun w e rest hends => (by cases hphase.symm.trans (hwriting hends)), rfl⟩⟩
      | writing w e rest =>
        simp only [hphase, Outbox.entry_update] at h
        split at h
        · rename_i hid
          obtain ⟨r, hr, rfl⟩ := Option.map_eq_some_iff.1 h
          exact ⟨r, hr, .inr (.inl ⟨w, e, rest, (ends_resume_iff hi).2 hphase, hid.symm, rfl⟩)⟩
        · rename_i hid
          refine ⟨r', h, .inl ⟨fun w' e' rest' hends he => hid ?_, rfl⟩⟩
          obtain ⟨-, rfl, -⟩ := Phase.writing.inj (hphase.symm.trans (hwriting hends))
          exact he.symm
      | dismissing id' =>
        simp only [hphase, Outbox.entry_delete] at h
        split at h
        · cases h
        · exact ⟨r', h, .inl ⟨fun w e rest hends => (by cases hphase.symm.trans (hwriting hends)), rfl⟩⟩
      | loadingDevices | selecting | startingPeers | loadingIdentities | deletingToken | loadingSpace | loadingToken
      | loadingUcans | pushing | done =>
        rw [hphase] at h
        exact ⟨r', h, .inl ⟨fun w e rest hends => (by cases hphase.symm.trans (hwriting hends)), rfl⟩⟩

theorem pushes_step (σ : Vault) (ev : Event) (id : String) :
    pushesSinceRetry id (step σ ev).shared.log = pushesSinceRetry id σ.shared.log ∨
      (∃ e rest, Ends σ ev (.loadingDevices e rest) ∧ e.id = id ∧
        pushesSinceRetry id (step σ ev).shared.log = 1 + pushesSinceRetry id σ.shared.log) ∨
      pushesSinceRetry id (step σ ev).shared.log = 0 := by
  cases ev with
  | start p => exact .inl rfl
  | outside e => cases e
  | resume i a =>
    cases hi : σ.calls[i]? with
    | none => exact .inl (by rw [step, Calls.step_resume_none hi])
    | some c =>
      rw [step_resume hi, Call.effect]
      cases hphase : c.phase with
      | retrying id' =>
        simp only [Outbox.logged, Outbox.update, pushesSinceRetry]
        split
        · exact .inr (.inr rfl)
        · exact .inl rfl
      | loadingDevices e rest =>
        simp only [Outbox.logged, pushesSinceRetry]
        split
        · rename_i hid
          exact .inr (.inl ⟨e, rest, (ends_resume_iff hi).2 hphase, hid, rfl⟩)
        · exact .inl (Nat.zero_add _)
      | dismissing | writing | selecting | startingPeers | loadingIdentities | deletingToken | loadingSpace | loadingToken
      | loadingUcans | pushing | done => exact .inl rfl

theorem pushes_write {w : Write} {e : OutboxEntry} {rest : List OutboxEntry} (h : Ends σ ev (.writing w e rest)) (id : String) :
    pushesSinceRetry id (step σ ev).shared.log = pushesSinceRetry id σ.shared.log := by
  obtain ⟨i, a, c, rfl, hi, hphase⟩ := h
  rw [step_resume hi, Call.effect, hphase]
  rfl

theorem pushes_retry {id : String} (h : Ends σ ev (.retrying id)) : pushesSinceRetry id (step σ ev).shared.log = 0 := by
  obtain ⟨i, a, c, rfl, hi, hphase⟩ := h
  rw [step_resume hi, Call.effect, hphase]
  exact if_pos rfl

/-! ## Pushes under way -/

def inFlight (σ : Vault) (id : String) : Nat := σ.calls.countP (·.pushes id)

theorem inFlight_start (σ : Vault) (p : Request × Nat) (id : String) : inFlight (step σ (.start p)) id = inFlight σ id := by
  have hstart : (outboxCalls.start p).pushes id = false := by
    obtain ⟨request, now⟩ := p
    cases request <;> rfl
  rw [inFlight, step, Calls.Machine.step, List.countP_append, List.countP_singleton, hstart]
  rfl

theorem inFlight_resume (hi : σ.calls[i]? = some c) (id : String) :
    inFlight (step σ (.resume i a)) id + (c.pushes id).toNat = inFlight σ id + ((c.next σ.shared a).pushes id).toNat := by
  obtain ⟨hlt, hget⟩ := List.getElem?_eq_some_iff.1 hi
  have hpos : c.pushes id = true → 0 < σ.calls.countP (·.pushes id) := fun hc =>
    List.countP_pos_iff.2 ⟨c, List.mem_of_getElem? hi, hc⟩
  rw [step_resume hi, inFlight, inFlight, List.countP_set hlt, hget]
  cases hc : c.pushes id with
  | false => cases (c.next σ.shared a).pushes id <;> simp
  | true =>
    have := hpos hc
    cases (c.next σ.shared a).pushes id <;> simp <;> omega

theorem pushes_add_inFlight_le {id : String} (hno : ∀ w e rest, Ends σ ev (.writing w e rest) → e.id ≠ id) :
    pushesSinceRetry id (step σ ev).shared.log + inFlight σ id ≤
      pushesSinceRetry id σ.shared.log + inFlight (step σ ev) id := by
  cases ev with
  | start p =>
    rw [inFlight_start]
    exact le_rfl
  | outside e => cases e
  | resume i a =>
    cases hi : σ.calls[i]? with
    | none => rw [step, Calls.step_resume_none hi]
    | some c =>
      have hflight := inFlight_resume (a := a) hi id
      have hlog : (step σ (.resume i a)).shared = c.effect σ.shared := by rw [step_resume hi]
      rw [Call.pushes_next, Call.pushes] at hflight
      rw [hlog, Call.effect]
      cases hphase : c.phase with
      | retrying id' =>
        simp only [hphase] at hflight
        simp only [Outbox.logged, Outbox.update, pushesSinceRetry]
        split <;> omega
      | loadingDevices e rest =>
        simp only [hphase] at hflight
        simp only [Outbox.logged, pushesSinceRetry]
        split
        · rename_i hid
          simp only [decide_eq_true hid, Bool.toNat_true, Bool.toNat_false] at hflight
          omega
        · simp only [Bool.toNat_false] at hflight
          omega
      | writing w e rest =>
        have hid := hno w e rest ((ends_resume_iff hi).2 hphase)
        cases w with
        | attempt outcome now =>
          simp only [hphase, decide_eq_false hid] at hflight
          exact Nat.add_le_add_left (by omega) _
        | expired | ownEndpoint =>
          simp only [hphase] at hflight
          exact Nat.add_le_add_left (by omega) _
      | dismissing | selecting | startingPeers | loadingIdentities | deletingToken | loadingSpace | loadingToken
      | loadingUcans | pushing | done =>
        simp only [hphase] at hflight
        exact Nat.add_le_add_left (by omega) _

theorem inFlight_step_le {id : String} (hpush : PushesAlone σ ev) (h : inFlight σ id ≤ 1) : inFlight (step σ ev) id ≤ 1 := by
  cases ev with
  | start p =>
    rw [inFlight_start]
    exact h
  | outside e => cases e
  | resume i a =>
    cases hi : σ.calls[i]? with
    | none => rwa [step, Calls.step_resume_none hi]
    | some c =>
      have hflight := inFlight_resume (a := a) hi id
      rw [Call.pushes_next] at hflight
      cases hphase : c.phase with
      | loadingDevices e rest =>
        simp only [hphase] at hflight
        by_cases hid : e.id = id
        · have hnone : inFlight σ id = 0 := by
            refine List.countP_eq_zero.2 fun d hd => ?_
            rw [← hid, (hpush e rest ((ends_resume_iff hi).2 hphase)).2 d hd]
            exact Bool.false_ne_true
          rw [decide_eq_true hid, Bool.toNat_true] at hflight
          omega
        · rw [decide_eq_false hid, Bool.toNat_false] at hflight
          omega
      | pushing e rest =>
        simp only [hphase, Call.pushes] at hflight
        omega
      | dismissing | selecting | startingPeers | loadingIdentities | deletingToken | loadingSpace | loadingToken
      | loadingUcans | retrying | writing | done =>
        simp only [hphase, Bool.toNat_false] at hflight
        omega

/-! ## The invariant -/

/-- A pending entry has a count below the limit that covers its pushes, but for one that is under way. -/
structure Inv (σ : Vault) : Prop where
  pending : ∀ id, ∀ r ∈ σ.entry id, r.status = .pending →
    r.retryCount < maxOutboxRetries ∧ pushesSinceRetry id σ.shared.log ≤ r.retryCount + inFlight σ id
  failed : ∀ id, ∀ r ∈ σ.entry id, r.status = .failed → maxOutboxRetries ≤ r.retryCount
  read : ∀ c ∈ σ.calls, ∀ e ∈ c.phase.entries, e.retryCount < maxOutboxRetries
  alone : ∀ id, inFlight σ id ≤ 1
  bounded : ∀ id, pushesSinceRetry id σ.shared.log ≤ maxOutboxRetries

theorem retryCount_apply {outcome : OutboxAttemptOutcome} {now : Nat} {e r : OutboxEntry}
    (h : (Write.apply (.attempt outcome now) e r).status = .pending) :
    (∃ error, outcome = .failed error) ∧ (Write.apply (.attempt outcome now) e r).retryCount = e.retryCount + 1 ∧
      e.retryCount + 1 < maxOutboxRetries := by
  unfold Write.apply computeOutboxNextState at h ⊢
  cases outcome with
  | delivered => cases h
  | failed error =>
    dsimp only at h ⊢
    split at h
    · cases h
    · rename_i hlt
      rw [if_neg hlt]
      exact ⟨⟨error, rfl⟩, rfl, not_le.1 hlt⟩

theorem Inv.step (h : Inv σ) (hpush : PushesAlone σ ev) (hfinds : FindsUnchanged σ ev) : Inv (Vault.step σ ev) where
  pending id r' hr' hstatus := by
    obtain ⟨r, hr, ⟨hno, rfl⟩ | ⟨w, e, rest, hends, rfl, rfl⟩ | hends⟩ := entry_step hr'
    · obtain ⟨hlt, hle⟩ := h.pending id r' hr hstatus
      have hadd := pushes_add_inFlight_le hno
      exact ⟨hlt, by omega⟩
    · cases w with
      | expired | ownEndpoint => cases hstatus
      | attempt outcome now =>
        obtain ⟨⟨error, rfl⟩, hcount, hlt⟩ := retryCount_apply hstatus
        obtain ⟨hpending, hsame⟩ := hfinds.writes _ e rest hends r hr
        have hle := (h.pending e.id r hr hpending).2
        have halone := h.alone e.id
        rw [hcount, pushes_write hends]
        exact ⟨hlt, by omega⟩
    · obtain ⟨-, hzero⟩ := status_of_retry hends hr'
      rw [hzero, pushes_retry hends]
      exact ⟨by decide, Nat.zero_le _⟩
  failed id r' hr' hstatus := by
    obtain ⟨r, hr, ⟨-, rfl⟩ | ⟨w, e, rest, hends, rfl, rfl⟩ | hends⟩ := entry_step hr'
    · exact h.failed id r' hr hstatus
    · cases w with
      | expired | ownEndpoint => cases hstatus
      | attempt outcome now =>
        unfold Write.apply computeOutboxNextState at hstatus ⊢
        cases outcome with
        | delivered => cases hstatus
        | failed error =>
          dsimp only at hstatus ⊢
          split at hstatus
          · rename_i hle
            rw [if_pos hle]
            exact hle
          · cases hstatus
    · rw [(status_of_retry hends hr').1] at hstatus
      cases hstatus
  read c' hc' e he := by
    cases ev with
    | start p =>
      rcases List.mem_append.1 hc' with hc' | hc'
      · exact h.read c' hc' e he
      · obtain rfl := List.mem_singleton.1 hc'
        obtain ⟨request, now⟩ := p
        cases request <;> cases he
    | outside e => cases e
    | resume i a =>
      cases hi : σ.calls[i]? with
      | none =>
        rw [Vault.step, Calls.step_resume_none hi] at hc'
        exact h.read c' hc' e he
      | some c =>
        rw [step_resume hi] at hc'
        rcases List.mem_or_eq_of_mem_set hc' with hc' | rfl
        · exact h.read c' hc' e he
        · rcases Call.entries_next σ.shared c a he with he | ⟨he, hpending⟩
          · exact h.read c (List.mem_of_getElem? hi) e he
          · exact (h.pending e.id e (Outbox.entry_eq_some.2 ⟨he, rfl⟩) hpending).1
  alone id := inFlight_step_le hpush (h.alone id)
  bounded id := by
    rcases pushes_step σ ev id with hsame | ⟨e, rest, hends, rfl, hmore⟩ | hzero
    · rw [hsame]
      exact h.bounded id
    · obtain ⟨⟨r, hr, hpending, -⟩, hnone⟩ := hpush e rest hends
      obtain ⟨hlt, hle⟩ := h.pending e.id r hr hpending
      have hflight : inFlight σ e.id = 0 := List.countP_eq_zero.2 fun d hd => by
        rw [hnone d hd]
        exact Bool.false_ne_true
      omega
    · rw [hzero]
      exact Nat.zero_le _

theorem apply_failed (error : String) (now : Nat) (e r : OutboxEntry) :
    (Write.apply (.attempt (.failed error) now) e r).retryCount = e.retryCount + 1 ∧
      (Write.apply (.attempt (.failed error) now) e r).status ≠ .delivered ∧
      (Write.apply (.attempt (.failed error) now) e r).status ≠ .expired := by
  unfold Write.apply computeOutboxNextState
  dsimp only
  split <;> exact ⟨rfl, by simp [OutboxEntry.set], by simp [OutboxEntry.set]⟩

theorem status_apply_of_fits {w : Write} {e r : OutboxEntry} (h : w.Fits e r) (hne : r.status ≠ .pending) :
    (w.apply e r).status = r.status := by
  cases w with
  | expired since | ownEndpoint => exact (h.resolve_left hne).symm
  | attempt outcome now =>
    cases outcome with
    | delivered => exact (h.resolve_left hne).symm
    | failed error => exact absurd h.1 hne

theorem fits_of_keepsState (h : Inv σ) (hkeeps : KeepsState σ ev) {w : Write} {e : OutboxEntry} {rest : List OutboxEntry}
    (hends : Ends σ ev (.writing w e rest)) {r : OutboxEntry} (hr : r ∈ σ.entry e.id) : w.Fits e r := by
  have hr' : w.apply e r ∈ (Vault.step σ ev).entry e.id := by
    rw [entry_write hends, hr]
    rfl
  have hsettled := fun hstatus => hkeeps.settled e.id r hr hstatus _ hr'
  have hfailed : r.status = .failed → (w.apply e r).status = .failed := fun hf =>
    (hkeeps.failed e.id r hr hf _ hr').resolve_right fun ⟨i, a, c, hev, hi, hphase⟩ => by
      subst hev
      cases ((ends_resume_iff hi).1 hends).symm.trans hphase
  cases w with
  | expired since =>
    cases hstatus : r.status with
    | pending => exact .inl hstatus
    | expired => exact .inr hstatus
    | delivered => cases (hsettled (.inl hstatus)).trans hstatus
    | failed => cases hfailed hstatus
  | ownEndpoint =>
    cases hstatus : r.status with
    | pending => exact .inl hstatus
    | delivered => exact .inr hstatus
    | expired => cases (hsettled (.inr hstatus)).trans hstatus
    | failed => cases hfailed hstatus
  | attempt outcome now =>
    cases outcome with
    | delivered =>
      cases hstatus : r.status with
      | pending => exact .inl hstatus
      | delivered => exact .inr hstatus
      | expired => cases (hsettled (.inr hstatus)).trans hstatus
      | failed => cases hfailed hstatus
    | failed error =>
      obtain ⟨hcount, hnotDelivered, hnotExpired⟩ := apply_failed error now e r
      have hraised := hkeeps.raised error now e rest hends r hr _ hr'
      have hsame : r.retryCount = e.retryCount := by omega
      cases hstatus : r.status with
      | pending => exact ⟨hstatus, hsame⟩
      | delivered => exact absurd ((hsettled (.inl hstatus)).trans hstatus) hnotDelivered
      | expired => exact absurd ((hsettled (.inr hstatus)).trans hstatus) hnotExpired
      | failed =>
        obtain ⟨i, a, c, rfl, hi, hphase⟩ := hends
        have hread := h.read c (List.mem_of_getElem? hi) e (by rw [hphase]; exact List.mem_cons_self)
        have hmax := h.failed e.id r hr hstatus
        omega

theorem keepsState_iff (h : Inv σ) (hpush : PushesAlone σ ev) : KeepsState σ ev ↔ FindsUnchanged σ ev := by
  constructor
  · intro hkeeps
    refine ⟨fun w e rest hends r hr => fits_of_keepsState h hkeeps hends hr, fun id hends r hr => ?_⟩
    obtain ⟨now, hrow⟩ := entry_retry hends
    have hr' : r.retried now ∈ (Vault.step σ ev).entry id := by
      rw [hrow, hr]
      rfl
    have hsettled := fun hstatus => hkeeps.settled id r hr hstatus _ hr'
    cases hstatus : r.status with
    | pending => exact .inl rfl
    | failed => exact .inr rfl
    | delivered => cases (hsettled (.inl hstatus)).trans hstatus
    | expired => cases (hsettled (.inr hstatus)).trans hstatus
  · intro hfinds
    refine ⟨fun id r hr hstatus r' hr' => ?_, fun id r hr hstatus r' hr' => ?_, fun error now e rest hends r hr r' hr' => ?_,
      (h.step hpush hfinds).bounded⟩
    · obtain ⟨r₀, hr₀, hcases⟩ := entry_step hr'
      obtain rfl := Option.some.inj (hr.symm.trans hr₀)
      rcases hcases with ⟨-, rfl⟩ | ⟨w, e, rest, hends, rfl, rfl⟩ | hends
      · rfl
      · refine status_apply_of_fits (hfinds.writes w e rest hends r hr) fun hp => ?_
        rcases hstatus with hs | hs <;> cases hs.symm.trans hp
      · have hfits := hfinds.retries id hends r hr
        rcases hstatus with hs | hs <;> rcases hfits with hf | hf <;> cases hs.symm.trans hf
    · obtain ⟨r₀, hr₀, hcases⟩ := entry_step hr'
      obtain rfl := Option.some.inj (hr.symm.trans hr₀)
      rcases hcases with ⟨-, rfl⟩ | ⟨w, e, rest, hends, rfl, rfl⟩ | hends
      · exact .inl hstatus
      · refine .inl ((status_apply_of_fits (hfinds.writes w e rest hends r hr) fun hp => ?_).trans hstatus)
        cases hstatus.symm.trans hp
      · exact .inr hends
    · rw [entry_write hends, hr] at hr'
      obtain rfl := Option.some.inj hr'
      rw [(apply_failed error now e r).1, (hfinds.writes _ e rest hends r hr).2]

/-- The outbox as `createOutboxEntryAsync` fills it. -/
def Created (b : Outbox) : Prop := b.log = [] ∧ ∀ r ∈ b.rows, r.status = .pending ∧ r.retryCount = 0

theorem Inv.of_created {b : Outbox} (h : Created b) : Inv ⟨b, []⟩ where
  pending id r hr _ := by
    obtain ⟨-, hzero⟩ := h.2 r (Outbox.entry_eq_some.1 hr).1
    rw [hzero, h.1]
    exact ⟨by decide, Nat.zero_le _⟩
  failed id r hr hstatus := by cases hstatus.symm.trans (h.2 r (Outbox.entry_eq_some.1 hr).1).1
  read c hc := by cases hc
  alone id := Nat.zero_le _
  bounded id := by
    rw [h.1]
    exact Nat.zero_le _

/-- Where every push goes out alone and on the row as the run has read it, the entries keep their states along a run exactly
when each write and each manual retry finds its row unchanged. -/
theorem outbox_keeps_state_iff (b : Outbox) (h : Created b) (es : List Event) (hpush : Guarded step PushesAlone ⟨b, []⟩ es) :
    Guarded step KeepsState ⟨b, []⟩ es ↔ Guarded step FindsUnchanged ⟨b, []⟩ es :=
  Guarded.iff_of_inv (I := Inv) (fun _ _ h hpush hfinds => h.step hpush hfinds) (fun _ _ h hpush => keepsState_iff h hpush)
    hpush (.of_created h)

theorem pushesAlone_start (σ : Vault) (p : Request × Nat) : PushesAlone σ (.start p) := fun _ _ h => absurd h not_ends_start

theorem pushesAlone_resume (hi : σ.calls[i]? = some c) (h : match c.phase with
    | .loadingDevices e _ => (∃ r ∈ σ.entry e.id, r.status = .pending ∧ r.retryCount = e.retryCount) ∧
        ∀ d ∈ σ.calls, d.pushes e.id = false
    | _ => True) : PushesAlone σ (.resume i a) := by
  intro e rest hends
  rw [(ends_resume_iff hi).1 hends] at h
  exact h

def oneInvite : Outbox where
  rows := [{ id := "e", spaceId := "s", tokenId := "t", targetEndpointId := "n", nextRetryAt := some 0, expiresAt := none }]
  ids_nodup := by decide

def found : Answer :=
  { clock := 1, nodeId := some "own", token := some { capabilities := some (.ok ["read"]), expiresAt := none } }

/-- A run whose push is rejected, and another one when the entry is due again. -/
def twoRuns : List Event :=
  .start (.process, 0) :: List.replicate 6 (.resume 0 found) ++ [.resume 0 { found with accepted := false }, .resume 0 found] ++
    .start (.process, 1 + nextRetryDelay 1) :: List.replicate 8 (.resume 1 found)

theorem outbox_keeps_state_twoRuns :
    Created oneInvite ∧ (Guarded step KeepsState ⟨oneInvite, []⟩ twoRuns ↔ Guarded step FindsUnchanged ⟨oneInvite, []⟩ twoRuns) ∧
      ((run step ⟨oneInvite, []⟩ twoRuns).entry "e").map (fun r => (r.status, r.retryCount)) = some (.delivered, 1) :=
  have hcreated : Created oneInvite := ⟨rfl, by decide⟩
  ⟨hcreated, outbox_keeps_state_iff oneInvite hcreated _
    ⟨pushesAlone_start _ _, pushesAlone_resume rfl trivial, pushesAlone_resume rfl trivial, pushesAlone_resume rfl trivial,
      pushesAlone_resume rfl trivial, pushesAlone_resume rfl trivial, pushesAlone_resume rfl ⟨⟨_, rfl, rfl, rfl⟩, by decide⟩,
      pushesAlone_resume rfl trivial, pushesAlone_resume rfl trivial,
      pushesAlone_start _ _, pushesAlone_resume rfl trivial, pushesAlone_resume rfl trivial, pushesAlone_resume rfl trivial,
      pushesAlone_resume rfl trivial, pushesAlone_resume rfl trivial, pushesAlone_resume rfl ⟨⟨_, rfl, rfl, rfl⟩, by decide⟩,
      pushesAlone_resume rfl trivial, pushesAlone_resume rfl trivial, trivial⟩, rfl⟩

/-- Two runs have read the invite. The first one delivers it; the push of the second one fails after that, and makes the
entry pending again. -/
theorem overlapping_runs_resurrect :
    ¬Guarded step KeepsState ⟨oneInvite, []⟩ ([.start (.process, 0), .start (.process, 0)] ++
      List.replicate 7 (.resume 0 found) ++ List.replicate 6 (.resume 1 found) ++
      [.resume 1 { found with error := some "no route" }, .resume 0 found] ++ [.resume 1 found]) := by
  intro h
  have hlast := (guarded_append.1 h).2.1
  have hstatus := hlast.settled "e" _ rfl (.inl rfl) _ rfl
  cases hstatus

end Vault

end HaexVault.Space.InviteOutbox
