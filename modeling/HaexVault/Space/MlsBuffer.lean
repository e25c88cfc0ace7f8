import Mathlib.Data.List.Sort
import HaexVault.Lib.Runs
import HaexVault.Space.Vault
/-!
# The leader's MLS buffer

The messages a leader keeps for the members of its spaces and the acknowledgements
it waits for. A commit is tracked by a pending entry with the DIDs that are expected
to acknowledge it; the acknowledgement that completes the expected set deletes the
entry and the message.
-/

namespace HaexVault.Space

open HaexVault.Crdt HaexVault.Lib HaexVault.Lib.Runs

/-! ## The members of a space -/

def Vault.getSpaceMemberDids (v : Vault) (spaceId : String) : List String :=
  (v.memberRows.filter fun m => m "space_id" = .text spaceId).flatMap fun m =>
    (v.identities.rows.filter fun i => m "identity_id" = .text i.id).map (·.did)

theorem Vault.mem_getSpaceMemberDids {v : Vault} {spaceId did : String} :
    did ∈ v.getSpaceMemberDids spaceId ↔ v.isActiveSpaceMember spaceId did = true := by
  simp only [getSpaceMemberDids, isActiveSpaceMember, List.mem_flatMap, List.mem_map, List.mem_filter, List.any_eq_true,
    Bool.and_eq_true, decide_eq_true_eq]
  constructor
  · rintro ⟨m, ⟨hm, hs⟩, i, ⟨hi, hid⟩, hd⟩
    exact ⟨m, hm, i, hi, ⟨hid, hs⟩, hd⟩
  · rintro ⟨m, hm, i, hi, ⟨hid, hs⟩, hd⟩
    exact ⟨m, ⟨hm, hs⟩, i, ⟨hi, hid⟩, hd⟩

/-! ## The buffer -/

/-- A row of `haex_local_delivery_messages_no_sync`. -/
structure MlsMessage where
  id : Int
  spaceId : String
  senderDid : String
  messageType : String
  blob : List UInt8
  deriving DecidableEq

/-- A row of `haex_local_delivery_pending_commits_no_sync`, its JSON lists as they read. -/
structure PendingCommit where
  spaceId : String
  messageId : Int
  expectedDids : List String
  ackedDids : List String := []
  deriving DecidableEq

/-- The UPDATE of `ack_commits`: the DID is added unless it is there. -/
def PendingCommit.acknowledge (did : String) (p : PendingCommit) : PendingCommit :=
  if did ∈ p.ackedDids then p else { p with ackedDids := p.ackedDids ++ [did] }

namespace PendingCommit

variable (did : String) (p : PendingCommit)

@[simp] theorem acknowledge_spaceId : (p.acknowledge did).spaceId = p.spaceId := by
  unfold acknowledge; split <;> rfl

@[simp] theorem acknowledge_messageId : (p.acknowledge did).messageId = p.messageId := by
  unfold acknowledge; split <;> rfl

@[simp] theorem acknowledge_expectedDids : (p.acknowledge did).expectedDids = p.expectedDids := by
  unfold acknowledge; split <;> rfl

@[simp] theorem mem_acknowledge {d : String} : d ∈ (p.acknowledge did).ackedDids ↔ d ∈ p.ackedDids ∨ d = did := by
  unfold acknowledge
  split
  · constructor
    · exact .inl
    · rintro (h | rfl)
      · exact h
      · assumption
  · simp

@[simp] theorem acknowledge_acknowledge : (p.acknowledge did).acknowledge did = p.acknowledge did := by
  conv_lhs => unfold acknowledge
  exact if_pos ((mem_acknowledge did p).2 (.inr rfl))

end PendingCommit

/-- The tables of one leader's database; `nextId` is the `AUTOINCREMENT` sequence, which no deletion takes back. -/
structure MlsBuffer where
  nextId : Int
  messages : List MlsMessage := []
  pending : List PendingCommit := []
  deriving DecidableEq

namespace MlsBuffer

def storeMessage (b : MlsBuffer) (spaceId senderDid messageType : String) (blob : List UInt8) : MlsBuffer :=
  { b with nextId := b.nextId + 1, messages := b.messages ++ [⟨b.nextId, spaceId, senderDid, messageType, blob⟩] }

def fetchMessages (b : MlsBuffer) (spaceId : String) (afterId : Option Int) : List MlsMessage :=
  (b.messages.filter fun m => m.spaceId = spaceId && afterId.getD 0 < m.id).insertionSort fun m m' => m.id ≤ m'.id

def storePendingCommit (b : MlsBuffer) (spaceId : String) (messageId : Int) (expectedDids : List String) : MlsBuffer :=
  { b with pending := b.pending ++ [{ spaceId, messageId, expectedDids }] }

def fullyAcked (b : MlsBuffer) (spaceId : String) (messageId : Int) : Bool :=
  match b.pending.find? fun p => p.spaceId = spaceId && p.messageId = messageId with
  | none => false
  | some p => p.expectedDids.all (· ∈ p.ackedDids)

/-- The UPDATE of `ack_commits` for one id. -/
def ackCommit (b : MlsBuffer) (spaceId did : String) (messageId : Int) : MlsBuffer :=
  { b with pending := b.pending.map fun p => if p.spaceId = spaceId ∧ p.messageId = messageId then p.acknowledge did else p }

def ackCommits (b : MlsBuffer) (spaceId did : String) : List Int → MlsBuffer × List Int
  | [] => (b, [])
  | messageId :: messageIds =>
    let b' := b.ackCommit spaceId did messageId
    let (b'', fullyAcked) := b'.ackCommits spaceId did messageIds
    (b'', if b'.fullyAcked spaceId messageId then messageId :: fullyAcked else fullyAcked)

def deletePending (spaceId : String) (messageId : Int) (b : MlsBuffer) : MlsBuffer :=
  { b with pending := b.pending.filter fun p => ¬ (p.spaceId = spaceId ∧ p.messageId = messageId) }

def deleteMessage (spaceId : String) (messageId : Int) (b : MlsBuffer) : MlsBuffer :=
  { b with messages := b.messages.filter fun m => ¬ (m.spaceId = spaceId ∧ m.id = messageId) }

/-- The statements of `cleanup_acked_commits`. -/
def cleanupStatements (spaceId : String) (messageIds : List Int) : List (MlsBuffer → MlsBuffer) :=
  messageIds.flatMap fun messageId => [deletePending spaceId messageId, deleteMessage spaceId messageId]

def cleanupAckedCommits (b : MlsBuffer) (spaceId : String) (messageIds : List Int) (failsAfter : Option Nat) : MlsBuffer :=
  let statements := cleanupStatements spaceId messageIds
  (statements.take (failsAfter.getD statements.length)).foldl (fun b statement => statement b) b

/-! ## What the operations do -/

/-- The entries after `ack_commits`. -/
def acked (b : MlsBuffer) (spaceId did : String) (messageIds : List Int) : MlsBuffer :=
  { b with
    pending := b.pending.map fun p => if p.spaceId = spaceId ∧ p.messageId ∈ messageIds then p.acknowledge did else p }

theorem acked_cons (b : MlsBuffer) (spaceId did : String) (messageId : Int) (messageIds : List Int) :
    (b.ackCommit spaceId did messageId).acked spaceId did messageIds = b.acked spaceId did (messageId :: messageIds) := by
  simp only [acked, ackCommit, List.map_map, mk.injEq, true_and]
  refine List.map_congr_left fun p _ => ?_
  by_cases hs : p.spaceId = spaceId <;> by_cases hid : p.messageId = messageId <;>
    by_cases hids : p.messageId ∈ messageIds <;> simp_all

theorem fullyAcked_cons (b : MlsBuffer) (spaceId did : String) (messageId : Int) (messageIds : List Int) :
    (b.acked spaceId did (messageId :: messageIds)).fullyAcked spaceId messageId =
      (b.ackCommit spaceId did messageId).fullyAcked spaceId messageId := by
  have hfind : ∀ f : PendingCommit → PendingCommit, (∀ p, (f p).spaceId = p.spaceId) → (∀ p, (f p).messageId = p.messageId) →
      (b.pending.map f).find? (fun p => p.spaceId = spaceId && p.messageId = messageId) =
        (b.pending.find? fun p => p.spaceId = spaceId && p.messageId = messageId).map f := by
    intro f hs hid
    rw [List.find?_map]
    simp only [Function.comp_def, hs, hid]
  unfold fullyAcked acked ackCommit
  rw [hfind _ (by intro p; split <;> simp) (by intro p; split <;> simp),
    hfind _ (by intro p; split <;> simp) (by intro p; split <;> simp)]
  cases h : b.pending.find? fun p => p.spaceId = spaceId && p.messageId = messageId with
  | none => rfl
  | some p =>
    have hp := List.find?_some h
    simp only [Bool.and_eq_true, decide_eq_true_eq] at hp
    simp [hp]

theorem ackCommits_eq (b : MlsBuffer) (spaceId did : String) (messageIds : List Int) :
    b.ackCommits spaceId did messageIds =
      (b.acked spaceId did messageIds, messageIds.filter ((b.acked spaceId did messageIds).fullyAcked spaceId)) := by
  induction messageIds generalizing b with
  | nil => simp [ackCommits, acked]
  | cons messageId messageIds ih =>
    simp only [ackCommits, ih, acked_cons, List.filter_cons, fullyAcked_cons]

theorem mem_pending_acked {b : MlsBuffer} {spaceId did : String} {messageIds : List Int} {p : PendingCommit} :
    p ∈ (b.acked spaceId did messageIds).pending ↔
      ∃ q ∈ b.pending, (if q.spaceId = spaceId ∧ q.messageId ∈ messageIds then q.acknowledge did else q) = p :=
  List.mem_map

theorem fullyAcked_iff {b : MlsBuffer} (hb : ∀ p ∈ b.pending, ∀ q ∈ b.pending, p.messageId = q.messageId → p = q)
    {spaceId : String} {messageId : Int} :
    b.fullyAcked spaceId messageId = true ↔
      ∃ p ∈ b.pending, p.spaceId = spaceId ∧ p.messageId = messageId ∧ ∀ d ∈ p.expectedDids, d ∈ p.ackedDids := by
  unfold fullyAcked
  constructor
  · intro h
    split at h
    · cases h
    · rename_i p hp
      have hkey := List.find?_some hp
      simp only [Bool.and_eq_true, decide_eq_true_eq] at hkey
      exact ⟨p, List.mem_of_find?_eq_some hp, hkey.1, hkey.2, by simpa using h⟩
  · rintro ⟨p, hp, hs, hid, hall⟩
    split
    · rename_i hnone
      have := List.find?_eq_none.1 hnone p hp
      simp [hs, hid] at this
    · rename_i q hq
      have hkey := List.find?_some hq
      simp only [Bool.and_eq_true, decide_eq_true_eq] at hkey
      obtain rfl := hb p hp q (List.mem_of_find?_eq_some hq) (hid.trans hkey.2.symm)
      simpa using hall

structure Cleanup (spaceId : String) (messageIds : List Int) (b b' : MlsBuffer) : Prop where
  nextId : b'.nextId = b.nextId
  pending : b'.pending ⊆ b.pending
  messages : b'.messages ⊆ b.messages
  keepsPending : ∀ p ∈ b.pending, p.messageId ∉ messageIds → p ∈ b'.pending
  keepsMessages : ∀ m ∈ b.messages, m.id ∉ messageIds → m ∈ b'.messages

theorem Cleanup.refl (spaceId : String) (messageIds : List Int) (b : MlsBuffer) : Cleanup spaceId messageIds b b :=
  ⟨rfl, List.Subset.refl _, List.Subset.refl _, fun _ h _ => h, fun _ h _ => h⟩

theorem Cleanup.statement {spaceId : String} {messageIds : List Int} {b b' : MlsBuffer}
    (h : Cleanup spaceId messageIds b b') {statement : MlsBuffer → MlsBuffer}
    (hs : statement ∈ cleanupStatements spaceId messageIds) : Cleanup spaceId messageIds b (statement b') := by
  obtain ⟨id, hid, hs⟩ := List.mem_flatMap.1 hs
  simp only [List.mem_cons, List.not_mem_nil, or_false] at hs
  rcases hs with rfl | rfl
  · refine ⟨h.nextId, fun p hp => h.pending (List.mem_of_mem_filter hp), h.messages, fun p hp hne => ?_, h.keepsMessages⟩
    refine List.mem_filter.2 ⟨h.keepsPending p hp hne, ?_⟩
    have : p.messageId ≠ id := fun e => hne (e ▸ hid)
    simp [this]
  · refine ⟨h.nextId, h.pending, fun m hm => h.messages (List.mem_of_mem_filter hm), h.keepsPending, fun m hm hne => ?_⟩
    refine List.mem_filter.2 ⟨h.keepsMessages m hm hne, ?_⟩
    have : m.id ≠ id := fun e => hne (e ▸ hid)
    simp [this]

theorem Cleanup.foldl {spaceId : String} {messageIds : List Int} {b : MlsBuffer} {statements : List (MlsBuffer → MlsBuffer)}
    (hs : statements ⊆ cleanupStatements spaceId messageIds) {b' : MlsBuffer} (h : Cleanup spaceId messageIds b b') :
    Cleanup spaceId messageIds b (statements.foldl (fun b statement => statement b) b') := by
  induction statements generalizing b' with
  | nil => exact h
  | cons statement statements ih =>
    obtain ⟨h₁, h₂⟩ := List.cons_subset.1 hs
    exact ih h₂ (h.statement h₁)

theorem cleanupAckedCommits_cleanup (b : MlsBuffer) (spaceId : String) (messageIds : List Int) (failsAfter : Option Nat) :
    Cleanup spaceId messageIds b (b.cleanupAckedCommits spaceId messageIds failsAfter) :=
  Cleanup.foldl (List.take_subset _ _) (.refl _ _ _)

theorem cleanupAckedCommits_done (b : MlsBuffer) (spaceId : String) (messageIds : List Int) :
    b.cleanupAckedCommits spaceId messageIds none =
      { b with
        messages := b.messages.filter fun m => ¬ (m.spaceId = spaceId ∧ m.id ∈ messageIds)
        pending := b.pending.filter fun p => ¬ (p.spaceId = spaceId ∧ p.messageId ∈ messageIds) } := by
  simp only [cleanupAckedCommits, Option.getD_none, List.take_length]
  induction messageIds generalizing b with
  | nil => simp [cleanupStatements]
  | cons id ids ih =>
    simp only [cleanupStatements, List.flatMap_cons, List.foldl_append, List.foldl_cons, List.foldl_nil] at ih ⊢
    rw [ih]
    simp only [deleteMessage, deletePending, List.filter_filter, mk.injEq, true_and]
    constructor
    · congr 1; funext m; grind
    · congr 1; funext p; grind

end MlsBuffer

end HaexVault.Space
