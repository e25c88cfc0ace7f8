import HaexVault.Space.InboundSync
import HaexVault.Space.MlsBuffer
/-!
# Pending commits

A leader stores the commits of its spaces, and members acknowledge them in any order. A message with
a pending entry goes only after everyone it waits for has acknowledged it (`OnlyAfterAcks`), and once
they have (`Settled.acknowledged`), unless it waits for one who never does.
-/

namespace HaexVault.Space

open HaexVault.Crdt HaexVault.Lib HaexVault.Lib.Runs

/-! ## Storing and acknowledging -/

inductive MlsSource where
  | claimInvite
  | mlsSend (messageType : String)
  | submitExternalCommit
  | broadcastCommit
  deriving DecidableEq

namespace MlsSource

def messageType : MlsSource → String
  | mlsSend messageType => messageType
  | _ => "commit"

def senderDid (did : String) : MlsSource → String
  | broadcastCommit => "leader"
  | _ => did

def expectedDids (did : String) (members : List String) : MlsSource → List String
  | claimInvite => members.filter (· ≠ did) -- the new member
  | mlsSend _ => members.filter (· ≠ did) -- the sender
  | submitExternalCommit => members
  | broadcastCommit => members

end MlsSource

structure StoredCommit where
  id : Int
  source : MlsSource
  spaceId : String
  did : String
  deriving DecidableEq

structure Commit where
  id : Int
  spaceId : String
  author : String
  expectedDids : Option (List String)
  deriving DecidableEq

inductive AckRun where
  | ackFails (afterIds : Nat)
  | acked (cleanupFailsAfter : Option Nat)
  deriving DecidableEq

namespace AckRun

/-- The ids `ack_commits` gets to. -/
def processed (messageIds : List Int) : AckRun → List Int
  | ackFails afterIds => messageIds.take afterIds
  | acked _ => messageIds

end AckRun

/-- `MlsAckCommit`. -/
def MlsBuffer.handleAckCommit (b : MlsBuffer) (spaceId did : String) (messageIds : List Int) : AckRun → MlsBuffer
  | .ackFails afterIds => (b.ackCommits spaceId did (messageIds.take afterIds)).1
  | .acked cleanupFailsAfter =>
    let (b', fullyAcked) := b.ackCommits spaceId did messageIds
    if fullyAcked.isEmpty then b' else b'.cleanupAckedCommits spaceId fullyAcked cleanupFailsAfter

/-- A leader's delivery: its vault and buffer, and the history of commits and acknowledgements (space, id, DID). -/
structure Delivery where
  vault : Vault
  buffer : MlsBuffer
  storing : List StoredCommit := []
  commits : List Commit := []
  acks : List (String × Int × String) := []

namespace Delivery

def start (v : Vault) (nextId : Int) : Delivery := { vault := v, buffer := { nextId } }

inductive Event where
  /-- A message is stored; a commit is yet to be tracked. -/
  | store (source : MlsSource) (spaceId did : String) (blob : List UInt8)
  /-- The rest of the request that stored a commit: the members are read and the entry is stored, or either fails. -/
  | track (id : Int) (membersRead entryStored : Bool)
  | ack (spaceId did : String) (messageIds : List Int) (run : AckRun)
  /-- Members join and leave. -/
  | setVault (v : Vault)

def expectedDids (σ : Delivery) (s : StoredCommit) (membersRead : Bool) : List String :=
  s.source.expectedDids s.did (if membersRead then σ.vault.getSpaceMemberDids s.spaceId else [])

def tracked (σ : Delivery) (s : StoredCommit) (expectedDids : Option (List String)) : Delivery :=
  { σ with
    buffer := expectedDids.elim σ.buffer (σ.buffer.storePendingCommit s.spaceId s.id)
    storing := σ.storing.filter (·.id ≠ s.id)
    commits := ⟨s.id, s.spaceId, s.source.senderDid s.did, expectedDids⟩ :: σ.commits }

def step (σ : Delivery) : Event → Delivery
  | .store source spaceId did blob =>
    { σ with
      buffer := σ.buffer.storeMessage spaceId (source.senderDid did) source.messageType blob
      storing := if source.messageType = "commit" then ⟨σ.buffer.nextId, source, spaceId, did⟩ :: σ.storing else σ.storing }
  | .track id membersRead entryStored =>
    match σ.storing.find? (·.id = id) with
    | none => σ
    | some s =>
      let expected := σ.expectedDids s membersRead
      σ.tracked s (if entryStored && !expected.isEmpty then some expected else none)
  | .ack spaceId did messageIds run =>
    { σ with
      buffer := σ.buffer.handleAckCommit spaceId did messageIds run
      acks := ((run.processed messageIds).filter (· < σ.buffer.nextId)).map (fun id => (spaceId, id, did)) ++ σ.acks }
  | .setVault v => { σ with vault := v }

/-! ## What every run keeps -/

/-- Every entry belongs to one commit, counts only acknowledgements there were, and is there with its message until
everyone it waits for has acknowledged. -/
structure Inv (σ : Delivery) : Prop where
  messageIds : ∀ m ∈ σ.buffer.messages, m.id < σ.buffer.nextId
  commitIds : ∀ c ∈ σ.commits, c.id < σ.buffer.nextId
  ackIds : ∀ a ∈ σ.acks, a.2.1 < σ.buffer.nextId
  storing : ∀ s ∈ σ.storing, (∃ m ∈ σ.buffer.messages, m.id = s.id) ∧ ∀ m ∈ σ.buffer.messages, m.id = s.id → m.spaceId = s.spaceId
  apart : ∀ s ∈ σ.storing, ∀ c ∈ σ.commits, c.id ≠ s.id
  commits : ∀ c ∈ σ.commits, ∀ c' ∈ σ.commits, c.id = c'.id → c = c'
  spaces : ∀ c ∈ σ.commits, ∀ m ∈ σ.buffer.messages, m.id = c.id → m.spaceId = c.spaceId
  entries : ∀ p ∈ σ.buffer.pending, ∀ q ∈ σ.buffer.pending, p.messageId = q.messageId → p = q
  commit : ∀ p ∈ σ.buffer.pending, ∃ c ∈ σ.commits, c.id = p.messageId ∧ c.spaceId = p.spaceId ∧ c.expectedDids = some p.expectedDids
  ackedDids : ∀ p ∈ σ.buffer.pending, ∀ d ∈ p.ackedDids, (p.spaceId, p.messageId, d) ∈ σ.acks
  kept : ∀ c ∈ σ.commits, ∀ dids, c.expectedDids = some dids →
    (∃ p ∈ σ.buffer.pending, p.messageId = c.id) ∧ (∃ m ∈ σ.buffer.messages, m.id = c.id) ∨
      ∀ d ∈ dids, (c.spaceId, c.id, d) ∈ σ.acks

variable {σ : Delivery}

theorem inv_start (v : Vault) (nextId : Int) : Inv (start v nextId) := by
  constructor <;> simp [start]

variable {s : StoredCommit}

theorem Inv.storing_lt (h : Inv σ) (hs : s ∈ σ.storing) : s.id < σ.buffer.nextId := by
  obtain ⟨⟨m, hm, he⟩, -⟩ := h.storing s hs
  exact he ▸ h.messageIds m hm

theorem Inv.store (h : Inv σ) (source : MlsSource) (spaceId did : String) (blob : List UInt8) :
    Inv (σ.step (.store source spaceId did blob)) := by
  have hlt : σ.buffer.nextId < σ.buffer.nextId + 1 := by omega
  refine ⟨?_, fun c hc => (h.commitIds c hc).trans hlt, fun a ha => (h.ackIds a ha).trans hlt, ?_, ?_, h.commits, ?_,
    h.entries, h.commit, h.ackedDids, ?_⟩
  · intro m hm
    rcases List.mem_append.1 hm with hm | hm
    · exact (h.messageIds m hm).trans hlt
    · obtain rfl := List.mem_singleton.1 hm
      exact hlt
  · intro s hs
    have hs : s = ⟨σ.buffer.nextId, source, spaceId, did⟩ ∨ s ∈ σ.storing := by
      dsimp only [step] at hs
      split at hs
      · exact List.mem_cons.1 hs
      · exact .inr hs
    simp only [step, MlsBuffer.storeMessage, List.mem_append, List.mem_singleton]
    rcases hs with rfl | hs
    · refine ⟨⟨_, .inr rfl, rfl⟩, ?_⟩
      rintro m (hm | rfl) he
      · exact absurd (h.messageIds m hm) (by simp only at he; omega)
      · rfl
    · obtain ⟨⟨m, hm, he⟩, hspace⟩ := h.storing s hs
      refine ⟨⟨m, .inl hm, he⟩, ?_⟩
      rintro m' (hm' | rfl) he'
      · exact hspace m' hm' he'
      · exact absurd (h.storing_lt hs) (by simp only at he'; omega)
  · intro s hs c hc
    dsimp only [step] at hs
    split at hs
    · rcases List.mem_cons.1 hs with rfl | hs
      · have := h.commitIds c hc
        simp only [ne_eq]
        omega
      · exact h.apart s hs c hc
    · exact h.apart s hs c hc
  · intro c hc m hm he
    rcases List.mem_append.1 hm with hm | hm
    · exact h.spaces c hc m hm he
    · obtain rfl := List.mem_singleton.1 hm
      exact absurd (h.commitIds c hc) (by simp only at he; omega)
  · intro c hc dids hd
    rcases h.kept c hc dids hd with ⟨hp, m, hm, he⟩ | hacks
    · exact .inl ⟨hp, m, List.mem_append_left _ hm, he⟩
    · exact .inr hacks

theorem step_track (id : Int) (membersRead entryStored : Bool) :
    σ.step (.track id membersRead entryStored) = σ ∨ ∃ s ∈ σ.storing, s.id = id ∧ ∃ expected,
      σ.step (.track id membersRead entryStored) = σ.tracked s expected ∧
        (expected = some (σ.expectedDids s membersRead) ∨
          expected = none ∧ (entryStored = false ∨ σ.expectedDids s membersRead = [])) := by
  simp only [step]
  split
  · exact .inl rfl
  · rename_i s hs
    refine .inr ⟨s, List.mem_of_find?_eq_some hs, by simpa using List.find?_some hs, _, rfl, ?_⟩
    by_cases he : σ.expectedDids s membersRead = []
    · exact .inr ⟨by simp [he], .inr he⟩
    · cases entryStored with
      | false => exact .inr ⟨rfl, .inl rfl⟩
      | true => exact .inl (by simp [he])

theorem mem_pending_tracked {expected : Option (List String)} {p : PendingCommit} :
    p ∈ (σ.tracked s expected).buffer.pending ↔
      p ∈ σ.buffer.pending ∨ ∃ dids, expected = some dids ∧ p = ⟨s.spaceId, s.id, dids, []⟩ := by
  cases expected <;> simp [tracked, MlsBuffer.storePendingCommit]

@[simp] theorem messages_tracked (s : StoredCommit) (expected : Option (List String)) :
    (σ.tracked s expected).buffer.messages = σ.buffer.messages := by
  cases expected <;> rfl

@[simp] theorem nextId_tracked (s : StoredCommit) (expected : Option (List String)) :
    (σ.tracked s expected).buffer.nextId = σ.buffer.nextId := by
  cases expected <;> rfl

theorem Inv.messageId_ne (h : Inv σ) (hs : s ∈ σ.storing) {p : PendingCommit}
    (hp : p ∈ σ.buffer.pending) : p.messageId ≠ s.id := by
  obtain ⟨c, hc, hid, -⟩ := h.commit p hp
  exact hid ▸ h.apart s hs c hc

theorem Inv.tracked (h : Inv σ) (hs : s ∈ σ.storing) (expected : Option (List String)) : Inv (σ.tracked s expected) := by
  refine ⟨?_, ?_, ?_, ?_, ?_, ?_, ?_, ?_, ?_, ?_, ?_⟩
  · simpa using h.messageIds
  · intro c hc
    rw [nextId_tracked]
    rcases List.mem_cons.1 hc with rfl | hc
    · exact h.storing_lt hs
    · exact h.commitIds c hc
  · intro a ha
    rw [nextId_tracked]
    exact h.ackIds a ha
  · intro s' hs'
    rw [messages_tracked]
    exact h.storing s' (List.mem_of_mem_filter hs')
  · intro s' hs' c hc
    obtain ⟨hs', hne⟩ := List.mem_filter.1 hs'
    have hne : s'.id ≠ s.id := by simpa using hne
    rcases List.mem_cons.1 hc with rfl | hc
    · exact hne.symm
    · exact h.apart s' hs' c hc
  · intro c hc c' hc' he
    rcases List.mem_cons.1 hc with rfl | hc <;> rcases List.mem_cons.1 hc' with rfl | hc'
    · rfl
    · exact absurd he.symm (h.apart s hs c' hc')
    · exact absurd he (h.apart s hs c hc)
    · exact h.commits c hc c' hc' he
  · intro c hc m hm he
    rw [messages_tracked] at hm
    rcases List.mem_cons.1 hc with rfl | hc
    · exact (h.storing s hs).2 m hm he
    · exact h.spaces c hc m hm he
  · intro p hp q hq he
    rcases mem_pending_tracked.1 hp with hp | ⟨dids, hd, rfl⟩ <;> rcases mem_pending_tracked.1 hq with hq | ⟨dids', hd', rfl⟩
    · exact h.entries p hp q hq he
    · exact absurd he (h.messageId_ne hs hp)
    · exact absurd he.symm (h.messageId_ne hs hq)
    · rw [Option.some.inj (hd.symm.trans hd')]
  · intro p hp
    rcases mem_pending_tracked.1 hp with hp | ⟨dids, hd, rfl⟩
    · obtain ⟨c, hc, hid, hspace, hdids⟩ := h.commit p hp
      exact ⟨c, List.mem_cons_of_mem _ hc, hid, hspace, hdids⟩
    · exact ⟨_, List.mem_cons_self, rfl, rfl, hd⟩
  · intro p hp d hd
    rcases mem_pending_tracked.1 hp with hp | ⟨dids, -, rfl⟩
    · exact h.ackedDids p hp d hd
    · cases hd
  · intro c hc dids hd
    rcases List.mem_cons.1 hc with rfl | hc
    · rw [messages_tracked]
      exact .inl ⟨⟨_, mem_pending_tracked.2 (.inr ⟨dids, hd, rfl⟩), rfl⟩, (h.storing s hs).1⟩
    · rcases h.kept c hc dids hd with ⟨⟨p, hp, hid⟩, hm⟩ | hacks
      · rw [messages_tracked]
        exact .inl ⟨⟨p, mem_pending_tracked.2 (.inl hp), hid⟩, hm⟩
      · exact .inr hacks

def ackedBy (σ : Delivery) (spaceId did : String) (messageIds : List Int) : Delivery :=
  { σ with
    buffer := σ.buffer.acked spaceId did messageIds
    acks := (messageIds.filter (· < σ.buffer.nextId)).map (fun id => (spaceId, id, did)) ++ σ.acks }

variable {messageIds : List Int} {spaceId did : String}

theorem mem_acks_ackedBy {a : String × Int × String} :
    a ∈ (σ.ackedBy spaceId did messageIds).acks ↔
      (a.1 = spaceId ∧ (a.2.1 ∈ messageIds ∧ a.2.1 < σ.buffer.nextId) ∧ a.2.2 = did) ∨ a ∈ σ.acks := by
  obtain ⟨s, id, d⟩ := a
  simp only [ackedBy, List.mem_append, List.mem_map, List.mem_filter, decide_eq_true_eq, Prod.mk.injEq]
  constructor
  · rintro (⟨id, hid, rfl, rfl, rfl⟩ | ha)
    · exact .inl ⟨rfl, hid, rfl⟩
    · exact .inr ha
  · rintro (⟨rfl, hid, rfl⟩ | ha)
    · exact .inl ⟨id, hid, rfl, rfl, rfl⟩
    · exact .inr ha

theorem pending_ackedBy {p : PendingCommit} (hp : p ∈ (σ.ackedBy spaceId did messageIds).buffer.pending) :
    ∃ q ∈ σ.buffer.pending, p.spaceId = q.spaceId ∧ p.messageId = q.messageId ∧ p.expectedDids = q.expectedDids ∧
      ∀ d, d ∈ p.ackedDids ↔ d ∈ q.ackedDids ∨ (q.spaceId = spaceId ∧ q.messageId ∈ messageIds) ∧ d = did := by
  obtain ⟨q, hq, rfl⟩ := MlsBuffer.mem_pending_acked.1 hp
  refine ⟨q, hq, ?_⟩
  split
  · simp [*]
  · simp [*]

theorem Inv.ackedBy (h : Inv σ) (spaceId did : String) (messageIds : List Int) : Inv (σ.ackedBy spaceId did messageIds) := by
  refine { h with ackIds := ?_, entries := ?_, commit := ?_, ackedDids := ?_, kept := ?_ }
  · intro a ha
    rcases mem_acks_ackedBy.1 ha with ⟨-, ⟨-, hlt⟩, -⟩ | ha
    · exact hlt
    · exact h.ackIds a ha
  · intro p hp q hq he
    obtain ⟨p₀, hp₀, rfl⟩ := MlsBuffer.mem_pending_acked.1 hp
    obtain ⟨q₀, hq₀, rfl⟩ := MlsBuffer.mem_pending_acked.1 hq
    obtain rfl := h.entries p₀ hp₀ q₀ hq₀ (by split at he <;> split at he <;> simpa using he)
    rfl
  · intro p hp
    obtain ⟨q, hq, hs, hid, hdids, -⟩ := pending_ackedBy hp
    rw [hs, hid, hdids]
    exact h.commit q hq
  · intro p hp d hd
    obtain ⟨q, hq, hs, hid, -, hacked⟩ := pending_ackedBy hp
    rw [hs, hid]
    refine mem_acks_ackedBy.2 ?_
    rcases (hacked d).1 hd with hd | ⟨⟨hspace, hmem⟩, rfl⟩
    · exact .inr (h.ackedDids q hq d hd)
    · obtain ⟨c, hc, hcid, -⟩ := h.commit q hq
      exact .inl ⟨hspace, ⟨hmem, hcid ▸ h.commitIds c hc⟩, rfl⟩
  · intro c hc dids hd
    rcases h.kept c hc dids hd with ⟨⟨p, hp, hid⟩, hm⟩ | hacks
    · refine .inl ⟨⟨_, MlsBuffer.mem_pending_acked.2 ⟨p, hp, rfl⟩, ?_⟩, hm⟩
      split <;> simpa using hid
    · exact .inr fun d hd => mem_acks_ackedBy.2 (.inr (hacks d hd))

theorem Inv.cleanup (h : Inv σ) {spaceId : String} {b : MlsBuffer} (hb : MlsBuffer.Cleanup spaceId messageIds σ.buffer b)
    (hids : ∀ id ∈ messageIds, ∃ c ∈ σ.commits, c.id = id ∧
      ∃ dids, c.expectedDids = some dids ∧ ∀ d ∈ dids, (c.spaceId, c.id, d) ∈ σ.acks) : Inv { σ with buffer := b } := by
  refine
    { h with
      messageIds := ?_, commitIds := ?_, ackIds := ?_, storing := ?_, spaces := ?_, entries := ?_, commit := ?_
      ackedDids := ?_, kept := ?_ }
  · exact fun m hm => hb.nextId ▸ h.messageIds m (hb.messages hm)
  · exact fun c hc => hb.nextId ▸ h.commitIds c hc
  · exact fun a ha => hb.nextId ▸ h.ackIds a ha
  · intro s hs
    obtain ⟨⟨m, hm, he⟩, hspace⟩ := h.storing s hs
    refine ⟨⟨m, hb.keepsMessages m hm fun hmem => ?_, he⟩, fun m hm => hspace m (hb.messages hm)⟩
    obtain ⟨c, hc, hid, -⟩ := hids _ hmem
    exact h.apart s hs c hc (hid.trans he)
  · exact fun c hc m hm => h.spaces c hc m (hb.messages hm)
  · exact fun p hp q hq => h.entries p (hb.pending hp) q (hb.pending hq)
  · exact fun p hp => h.commit p (hb.pending hp)
  · exact fun p hp => h.ackedDids p (hb.pending hp)
  · intro c hc dids hd
    by_cases hmem : c.id ∈ messageIds
    · obtain ⟨c', hc', hid, dids', hd', hacks⟩ := hids _ hmem
      obtain rfl := h.commits c hc c' hc' hid.symm
      obtain rfl := Option.some.inj (hd.symm.trans hd')
      exact .inr hacks
    · rcases h.kept c hc dids hd with ⟨⟨p, hp, hpid⟩, m, hm, hmid⟩ | hacks
      · exact .inl ⟨⟨p, hb.keepsPending p hp (hpid ▸ hmem), hpid⟩, m, hb.keepsMessages m hm (hmid ▸ hmem), hmid⟩
      · exact .inr hacks

theorem step_ack {run : AckRun} :
    σ.step (.ack spaceId did messageIds run) =
      { σ.ackedBy spaceId did (run.processed messageIds) with
        buffer := match run with
          | .ackFails _ => (σ.ackedBy spaceId did (run.processed messageIds)).buffer
          | .acked failsAfter => (σ.ackedBy spaceId did messageIds).buffer.cleanupAckedCommits spaceId
              (messageIds.filter ((σ.ackedBy spaceId did messageIds).buffer.fullyAcked spaceId)) failsAfter } := by
  cases run with
  | ackFails afterIds => simp only [step, MlsBuffer.handleAckCommit, MlsBuffer.ackCommits_eq, ackedBy, AckRun.processed]
  | acked failsAfter =>
    simp only [step, MlsBuffer.handleAckCommit, MlsBuffer.ackCommits_eq, ackedBy, AckRun.processed]
    split
    · rename_i hempty
      rw [List.isEmpty_iff.1 hempty]
      simp [MlsBuffer.cleanupAckedCommits, MlsBuffer.cleanupStatements]
    · rfl

theorem Inv.of_fullyAcked (h : Inv σ) {spaceId : String} {id : Int} (hfull : σ.buffer.fullyAcked spaceId id = true) :
    ∃ c ∈ σ.commits, c.id = id ∧ ∃ dids, c.expectedDids = some dids ∧ ∀ d ∈ dids, (c.spaceId, c.id, d) ∈ σ.acks := by
  obtain ⟨p, hp, -, rfl, hall⟩ := (MlsBuffer.fullyAcked_iff h.entries).1 hfull
  obtain ⟨c, hc, hid, hspace, hdids⟩ := h.commit p hp
  exact ⟨c, hc, hid, _, hdids, fun d hd => hspace ▸ hid ▸ h.ackedDids p hp d (hall d hd)⟩

theorem Inv.ack (h : Inv σ) (spaceId did : String) (messageIds : List Int) (run : AckRun) :
    Inv (σ.step (.ack spaceId did messageIds run)) := by
  rw [step_ack]
  have hacked := h.ackedBy spaceId did (run.processed messageIds)
  cases run with
  | ackFails afterIds => exact hacked
  | acked failsAfter =>
    exact hacked.cleanup (MlsBuffer.cleanupAckedCommits_cleanup _ _ _ _) fun id hid =>
      hacked.of_fullyAcked (List.mem_filter.1 hid).2

theorem Inv.step (h : Inv σ) (e : Event) : Inv (σ.step e) := by
  cases e with
  | store source spaceId did blob => exact h.store source spaceId did blob
  | track id membersRead entryStored =>
    rcases step_track (σ := σ) id membersRead entryStored with he | ⟨s, hs, -, expected, he, -⟩
    · rw [he]
      exact h
    · rw [he]
      exact h.tracked hs expected
  | ack spaceId did messageIds run => exact h.ack spaceId did messageIds run
  | setVault v => exact { h with }

theorem inv_run (v : Vault) (nextId : Int) (es : List Event) : Inv (run Delivery.step (start v nextId) es) :=
  (guarded_true (start v nextId) es).inv (fun _ e h _ => h.step e) (inv_start v nextId)

/-! ## Runs that settle -/

/-- No commit waits for its author or for the leader, an acknowledgement comes after its commit is tracked and goes
through, and nobody leaves who is waited for. -/
def Settles (own : String) (σ : Delivery) : Event → Prop
  | .store .. => True
  | .track id membersRead entryStored => ∀ s ∈ σ.storing, s.id = id →
      entryStored = true ∧ σ.expectedDids s membersRead ≠ [] ∧
        ∀ d ∈ σ.expectedDids s membersRead, d ≠ s.source.senderDid s.did ∧ d ≠ own
  | .ack _ _ messageIds run => run = .acked none ∧ ∀ s ∈ σ.storing, s.id ∉ messageIds
  | .setVault v => ∀ p ∈ σ.buffer.pending, ∀ d ∈ p.expectedDids, d ∉ p.ackedDids → v.isActiveSpaceMember p.spaceId d = true

/-- Every entry still waits for a member other than the author and the leader, and counts every acknowledgement. -/
structure Settled (own : String) (σ : Delivery) : Prop where
  waits : ∀ p ∈ σ.buffer.pending, ∃ d ∈ p.expectedDids, d ∉ p.ackedDids
  members : ∀ p ∈ σ.buffer.pending, ∀ d ∈ p.expectedDids, d ∉ p.ackedDids → σ.vault.isActiveSpaceMember p.spaceId d = true
  others : ∀ p ∈ σ.buffer.pending, ∀ c ∈ σ.commits, c.id = p.messageId → ∀ d ∈ p.expectedDids, d ≠ c.author ∧ d ≠ own
  counted : ∀ p ∈ σ.buffer.pending, ∀ d, (p.spaceId, p.messageId, d) ∈ σ.acks → d ∈ p.ackedDids
  unasked : ∀ s ∈ σ.storing, ∀ spaceId d, (spaceId, s.id, d) ∉ σ.acks
  entry : ∀ c ∈ σ.commits, ∀ m ∈ σ.buffer.messages, m.id = c.id → ∃ p ∈ σ.buffer.pending, p.messageId = c.id

variable {own : String}

theorem settled_start (v : Vault) (nextId : Int) : Settled own (start v nextId) := by
  constructor <;> simp [start]

theorem Settled.store (hs : Settled own σ) (h : Inv σ) (source : MlsSource) (spaceId did : String) (blob : List UInt8) :
    Settled own (σ.step (.store source spaceId did blob)) := by
  refine { hs with unasked := ?_, entry := ?_ }
  · intro s hmem spaceId' d hack
    dsimp only [Delivery.step] at hmem
    split at hmem
    · rcases List.mem_cons.1 hmem with rfl | hmem
      · exact absurd (h.ackIds _ hack) (by simp)
      · exact hs.unasked s hmem spaceId' d hack
    · exact hs.unasked s hmem spaceId' d hack
  · intro c hc m hm he
    rcases List.mem_append.1 hm with hm | hm
    · exact hs.entry c hc m hm he
    · obtain rfl := List.mem_singleton.1 hm
      exact absurd (h.commitIds c hc) (by simp only at he; omega)

theorem expectedDids_member {membersRead : Bool} {d : String} (hd : d ∈ σ.expectedDids s membersRead) :
    σ.vault.isActiveSpaceMember s.spaceId d = true := by
  have hsub : d ∈ (if membersRead then σ.vault.getSpaceMemberDids s.spaceId else []) := by
    unfold expectedDids at hd
    cases hsource : s.source with
    | claimInvite | mlsSend _ => exact List.mem_of_mem_filter (by simpa only [hsource, MlsSource.expectedDids] using hd)
    | submitExternalCommit | broadcastCommit => simpa only [hsource, MlsSource.expectedDids] using hd
  split at hsub
  · exact Vault.mem_getSpaceMemberDids.1 hsub
  · cases hsub

theorem Settled.tracked (hs : Settled own σ) (h : Inv σ) (hmem : s ∈ σ.storing) {dids : List String}
    (hne : dids ≠ []) (hmembers : ∀ d ∈ dids, σ.vault.isActiveSpaceMember s.spaceId d = true)
    (hothers : ∀ d ∈ dids, d ≠ s.source.senderDid s.did ∧ d ≠ own) : Settled own (σ.tracked s (some dids)) := by
  -- the new entry is the only one of its id
  have hentry : ∀ p ∈ (σ.tracked s (some dids)).buffer.pending, p ∈ σ.buffer.pending ∨ p = ⟨s.spaceId, s.id, dids, []⟩ := by
    intro p hp
    rcases mem_pending_tracked.1 hp with hp | ⟨_, hd, rfl⟩
    · exact .inl hp
    · cases hd
      exact .inr rfl
  refine ⟨?_, ?_, ?_, ?_, ?_, ?_⟩
  · intro p hp
    rcases hentry p hp with hp | rfl
    · exact hs.waits p hp
    · obtain ⟨d, hd⟩ := List.exists_mem_of_ne_nil _ hne
      exact ⟨d, hd, List.not_mem_nil⟩
  · intro p hp d hd hacked
    rcases hentry p hp with hp | rfl
    · exact hs.members p hp d hd hacked
    · exact hmembers d hd
  · intro p hp c hc he d hd
    rcases hentry p hp with hp | rfl <;> rcases List.mem_cons.1 hc with rfl | hc
    · exact absurd he.symm (h.messageId_ne hmem hp)
    · exact hs.others p hp c hc he d hd
    · exact hothers d hd
    · exact absurd he (h.apart s hmem c hc)
  · intro p hp d hack
    rcases hentry p hp with hp | rfl
    · exact hs.counted p hp d hack
    · exact absurd hack (hs.unasked s hmem _ d)
  · exact fun s' hs' => hs.unasked s' (List.mem_of_mem_filter hs')
  · intro c hc m hm he
    rw [messages_tracked] at hm
    rcases List.mem_cons.1 hc with rfl | hc
    · exact ⟨_, mem_pending_tracked.2 (.inr ⟨dids, rfl, rfl⟩), rfl⟩
    · obtain ⟨p, hp, hid⟩ := hs.entry c hc m hm he
      exact ⟨p, mem_pending_tracked.2 (.inl hp), hid⟩

/-- An acknowledgement that goes through: the entries left are those that still wait. -/
theorem Settled.ack (hs : Settled own σ) (h : Inv σ) (hunasked : ∀ s ∈ σ.storing, s.id ∉ messageIds) :
    Settled own (σ.step (.ack spaceId did messageIds (.acked none))) := by
  have hacked := h.ackedBy spaceId did messageIds
  rw [step_ack]
  dsimp only [AckRun.processed]
  rw [MlsBuffer.cleanupAckedCommits_done]
  -- an entry that is left, and what it was before
  have hleft : ∀ p ∈ (σ.ackedBy spaceId did messageIds).buffer.pending.filter (fun p =>
      ¬ (p.spaceId = spaceId ∧ p.messageId ∈ messageIds.filter ((σ.ackedBy spaceId did messageIds).buffer.fullyAcked spaceId))),
      p ∈ (σ.ackedBy spaceId did messageIds).buffer.pending ∧
        (p.spaceId = spaceId → p.messageId ∈ messageIds → ∃ d ∈ p.expectedDids, d ∉ p.ackedDids) := by
    intro p hp
    obtain ⟨hp, hkept⟩ := List.mem_filter.1 hp
    refine ⟨hp, fun hspace hid => ?_⟩
    by_contra hall
    push Not at hall
    have hfull := (MlsBuffer.fullyAcked_iff hacked.entries).2 ⟨p, hp, hspace, rfl, hall⟩
    simp [hspace, hid, hfull] at hkept
  refine ⟨?_, ?_, ?_, ?_, ?_, ?_⟩
  · intro p hp
    obtain ⟨hp, hwaits⟩ := hleft p hp
    obtain ⟨q, hq, hspace, hid, hdids, hackedDids⟩ := pending_ackedBy hp
    by_cases hhit : q.spaceId = spaceId ∧ q.messageId ∈ messageIds
    · exact hwaits (hspace.trans hhit.1) (hid ▸ hhit.2)
    · obtain ⟨d, hd, hn⟩ := hs.waits q hq
      exact ⟨d, hdids ▸ hd, fun hmem => hn (((hackedDids d).1 hmem).resolve_right fun h => hhit h.1)⟩
  · intro p hp d hd hn
    obtain ⟨q, hq, hspace, -, hdids, hackedDids⟩ := pending_ackedBy (hleft p hp).1
    rw [hspace]
    exact hs.members q hq d (hdids ▸ hd) fun hmem => hn ((hackedDids d).2 (.inl hmem))
  · intro p hp c hc he d hd
    obtain ⟨q, hq, -, hid, hdids, -⟩ := pending_ackedBy (hleft p hp).1
    exact hs.others q hq c hc (he.trans hid) d (hdids ▸ hd)
  · intro p hp d hack
    obtain ⟨q, hq, hspace, hid, -, hackedDids⟩ := pending_ackedBy (hleft p hp).1
    refine (hackedDids d).2 ?_
    rcases mem_acks_ackedBy.1 hack with ⟨hs', ⟨hmem, -⟩, hd⟩ | hack
    · exact .inr ⟨⟨hspace.symm.trans hs', hid ▸ hmem⟩, hd⟩
    · exact .inl (hs.counted q hq d (by rwa [hspace, hid] at hack))
  · intro s hmem spaceId' d hack
    rcases mem_acks_ackedBy.1 hack with ⟨-, ⟨hid, -⟩, -⟩ | hack
    · exact hunasked s hmem hid
    · exact hs.unasked s hmem spaceId' d hack
  · intro c hc m hm he
    obtain ⟨hm, hkept⟩ := List.mem_filter.1 hm
    obtain ⟨q, hq, hid⟩ := hs.entry c hc m hm he
    obtain ⟨c', hc', hid', hspace', -⟩ := h.commit q hq
    obtain rfl := h.commits c hc c' hc' (hid.symm.trans hid'.symm)
    obtain ⟨p, hp, hpq⟩ : ∃ p ∈ (σ.ackedBy spaceId did messageIds).buffer.pending,
        (if q.spaceId = spaceId ∧ q.messageId ∈ messageIds then q.acknowledge did else q) = p :=
      ⟨_, MlsBuffer.mem_pending_acked.2 ⟨q, hq, rfl⟩, rfl⟩
    have hpid : p.messageId = q.messageId := by rw [← hpq]; split <;> simp
    have hps : p.spaceId = q.spaceId := by rw [← hpq]; split <;> simp
    refine ⟨p, List.mem_filter.2 ⟨hp, ?_⟩, hpid.trans hid⟩
    -- the message goes with its entry
    simpa [hps, hpid, hid, ← hspace', ← h.spaces c hc m hm he, he] using hkept

theorem Settled.step (hs : Settled own σ) (h : Inv σ) {e : Event} (hg : Settles own σ e) : Settled own (σ.step e) := by
  cases e with
  | store source spaceId did blob => exact hs.store h source spaceId did blob
  | track id membersRead entryStored =>
    rcases step_track (σ := σ) id membersRead entryStored with he | ⟨s, hmem, hid, expected, he, hexp⟩
    · rw [he]
      exact hs
    · obtain ⟨hstored, hne, hothers⟩ := hg s hmem hid
      rw [he]
      rcases hexp with rfl | ⟨-, hfalse | hnil⟩
      · exact hs.tracked h hmem hne (fun d => expectedDids_member) hothers
      · rw [hstored] at hfalse
        cases hfalse
      · exact absurd hnil hne
  | ack spaceId did messageIds run =>
    obtain ⟨rfl, hunasked⟩ := hg
    exact hs.ack h hunasked
  | setVault v => exact { hs with members := hg }

theorem settled_run {v : Vault} {nextId : Int} {es : List Event}
    (hg : Guarded Delivery.step (Settles own) (start v nextId) es) : Settled own (run Delivery.step (start v nextId) es) :=
  (hg.inv (I := fun σ => Inv σ ∧ Settled own σ) (fun _ e h hg => ⟨h.1.step e, h.2.step h.1 hg⟩)
    ⟨inv_start v nextId, settled_start v nextId⟩).2

/-! ## Deleted after, and once, it is acknowledged -/

/-- A commit with an entry is deleted only after everyone it waits for has acknowledged it. -/
def OnlyAfterAcks (σ : Delivery) : Prop :=
  ∀ c ∈ σ.commits, ∀ dids, c.expectedDids = some dids → (∀ m ∈ σ.buffer.messages, m.id ≠ c.id) →
    ∀ d ∈ dids, (c.spaceId, c.id, d) ∈ σ.acks

/-- A commit that every member but its author and the leader has acknowledged is gone. -/
def OnceAcked (own : String) (σ : Delivery) : Prop :=
  ∀ c ∈ σ.commits, (∀ d, σ.vault.isActiveSpaceMember c.spaceId d = true → d ≠ c.author → d ≠ own →
      (c.spaceId, c.id, d) ∈ σ.acks) →
    (∀ m ∈ σ.buffer.messages, m.id ≠ c.id) ∧ ∀ p ∈ σ.buffer.pending, p.messageId ≠ c.id

theorem Inv.onlyAfterAcks (h : Inv σ) : OnlyAfterAcks σ := by
  intro c hc dids hd hgone
  rcases h.kept c hc dids hd with ⟨-, m, hm, he⟩ | hacks
  · exact absurd he (hgone m hm)
  · exact hacks

theorem Settled.onceAcked (hs : Settled own σ) (h : Inv σ) : OnceAcked own σ := by
  intro c hc hacks
  have hnone : ∀ p ∈ σ.buffer.pending, p.messageId ≠ c.id := by
    intro p hp he
    obtain ⟨c', hc', hid, hspace, -⟩ := h.commit p hp
    obtain rfl := h.commits c hc c' hc' (he.symm.trans hid.symm)
    obtain ⟨d, hd, hn⟩ := hs.waits p hp
    obtain ⟨hauthor, hown⟩ := hs.others p hp c hc hid d hd
    have hack := hacks d (hspace ▸ hs.members p hp d hd hn) hauthor hown
    exact hn (hs.counted p hp d (by rwa [hspace, hid] at hack))
  refine ⟨fun m hm he => ?_, hnone⟩
  obtain ⟨p, hp, hid⟩ := hs.entry c hc m hm he
  exact hnone p hp hid

/-- In every run a commit goes only after everyone it waits for has acknowledged it; in a run that settles it goes once
the other members have. -/
theorem pending_commit_protocol (own : String) (v : Vault) (nextId : Int) (es : List Event) :
    OnlyAfterAcks (run Delivery.step (start v nextId) es) ∧
      (Guarded Delivery.step (Settles own) (start v nextId) es →
        OnceAcked own (run Delivery.step (start v nextId) es)) :=
  ⟨(inv_run v nextId es).onlyAfterAcks, fun hg => (settled_run hg).onceAcked (inv_run v nextId es)⟩

/-! ## A claim in a space of two -/

def carolClaims : List Event :=
  [.store .claimInvite "s" "did:key:carol" [1], .track 1 true true]

def bothAck : List Event :=
  [.ack "s" "did:key:bob" [1] (.acked none), .ack "s" "did:key:mallory" [1] (.acked none)]

theorem meshVault_dids : meshVault.getSpaceMemberDids "s" = ["did:key:bob", "did:key:mallory"] := by decide

/-- With a leader outside the space, the commit goes once Bob and Mallory have acknowledged it. -/
theorem pending_commit_protocol_both :
    OnceAcked "did:key:leader" (run Delivery.step (start meshVault 1) (carolClaims ++ bothAck)) ∧
      (run Delivery.step (start meshVault 1) (carolClaims ++ bothAck)).buffer = { nextId := 2 } := by
  have hdids : ((start meshVault 1).step (.store .claimInvite "s" "did:key:carol" [1])).expectedDids
      ⟨1, .claimInvite, "s", "did:key:carol"⟩ true = ["did:key:bob", "did:key:mallory"] := by
    decide
  refine ⟨(pending_commit_protocol _ meshVault 1 _).2 ⟨trivial, ?_, ⟨rfl, by decide⟩, ⟨rfl, by decide⟩, trivial⟩, by decide⟩
  intro s hs _
  obtain rfl : s = ⟨1, .claimInvite, "s", "did:key:carol"⟩ := List.mem_singleton.1 hs
  rw [hdids]
  exact ⟨rfl, by simp, by decide⟩

/-- With Bob as the leader, the commit stays when Mallory, the only other member, has acknowledged it. -/
theorem leader_awaits_itself :
    ¬ OnceAcked "did:key:bob"
      (run Delivery.step (start meshVault 1) (carolClaims ++ [.ack "s" "did:key:mallory" [1] (.acked none)])) := by
  intro h
  have hc := h ⟨1, "s", "did:key:carol", some ["did:key:bob", "did:key:mallory"]⟩ (by decide) ?_
  · exact hc.1 ⟨1, "s", "did:key:carol", "commit", [1]⟩ (by decide) rfl
  · intro d hd _ hown
    have hd : d ∈ meshVault.getSpaceMemberDids "s" := Vault.mem_getSpaceMemberDids.2 hd
    rw [meshVault_dids] at hd
    obtain rfl | rfl : d = "did:key:bob" ∨ d = "did:key:mallory" := by simpa using hd
    · exact absurd rfl hown
    · decide

end Delivery

end HaexVault.Space
