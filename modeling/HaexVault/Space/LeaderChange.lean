import HaexVault.Space.PendingCommits
import HaexVault.Space.PushCursor
import Mathlib.Logic.Function.Basic
/-!
# Cursors across leader changes (`space_delivery/local/push_cursor`, `sync_loop`)

A peer stores one push cursor and one MLS cursor per space, whoever leads it. The push cursor says
what some leader has accepted, the MLS cursor is an id of some leader's own database, and both are
taken along to the next leader (`cursors_across_leaders`).
-/

namespace HaexVault.Space

open HaexVault.Crdt HaexVault.Lib HaexVault.Lib.Runs

/-! ## What takes messages out of a buffer -/

namespace MlsBuffer

def clearBuffers (b : MlsBuffer) (spaceId : String) : MlsBuffer :=
  { b with messages := b.messages.filter (·.spaceId ≠ spaceId), pending := b.pending.filter (·.spaceId ≠ spaceId) }

structure Numbered (b : MlsBuffer) : Prop where
  pos : 0 < b.nextId
  lt : ∀ m ∈ b.messages, m.id < b.nextId

variable {b b' : MlsBuffer}

theorem Numbered.shrink (h : b.Numbered) (hid : b'.nextId = b.nextId) (hm : b'.messages ⊆ b.messages) : b'.Numbered :=
  ⟨hid ▸ h.pos, fun m hmem => hid ▸ h.lt m (hm hmem)⟩

theorem Numbered.storeMessage (h : b.Numbered) (spaceId senderDid messageType : String) (blob : List UInt8) :
    (b.storeMessage spaceId senderDid messageType blob).Numbered := by
  have hpos := h.pos
  refine ⟨by simp only [MlsBuffer.storeMessage]; omega, fun m hm => ?_⟩
  simp only [MlsBuffer.storeMessage] at hm ⊢
  rcases List.mem_append.1 hm with hm | hm
  · have := h.lt m hm
    omega
  · obtain rfl := List.mem_singleton.1 hm
    simp only
    omega

theorem handleAckCommit_messages (b : MlsBuffer) (spaceId did : String) (messageIds : List Int) (ackRun : AckRun) :
    (b.handleAckCommit spaceId did messageIds ackRun).nextId = b.nextId ∧
      (b.handleAckCommit spaceId did messageIds ackRun).messages ⊆ b.messages := by
  cases ackRun with
  | ackFails afterIds =>
    simp only [handleAckCommit, ackCommits_eq]
    exact ⟨rfl, List.Subset.refl _⟩
  | acked cleanupFailsAfter =>
    simp only [handleAckCommit, ackCommits_eq]
    split
    · exact ⟨rfl, List.Subset.refl _⟩
    · have hclean := cleanupAckedCommits_cleanup (b.acked spaceId did messageIds) spaceId
        (messageIds.filter ((b.acked spaceId did messageIds).fullyAcked spaceId)) cleanupFailsAfter
      exact ⟨hclean.nextId, hclean.messages⟩

theorem mem_fetchMessages {spaceId : String} {afterId : Option Int} {m : MlsMessage} :
    m ∈ b.fetchMessages spaceId afterId ↔ m ∈ b.messages ∧ m.spaceId = spaceId ∧ afterId.getD 0 < m.id := by
  simp [fetchMessages, List.mem_insertionSort]

end MlsBuffer

/-! ## The peer and its leaders -/

inductive MlsOutcome where
  | processed (saved : Bool)
  | undecodable
  | failed
  /-- It failed, and `attempt_rejoin` had the leader store an external commit. -/
  | rejoined (ourDid : String) (commit : List UInt8) (saved : Bool)

/-- A peer of a space, and the devices that lead it in turn. -/
structure PeerState where
  leader : String
  push : PushState
  storedMls : Option Int := none
  lastMls : Option Int := none
  /-- What is left of a fetched batch, and its highest id. -/
  batch : List MlsMessage := []
  batchMax : Int := 0
  buffers : String → MlsBuffer
  /-- The changes of the space that each device has. -/
  stored : String → List LocalColumnChange := fun _ => []
  /-- The messages each leader has stored for the space since the peer joined. -/
  since : String → List MlsMessage := fun _ => []
  /-- The messages the peer has fetched from each leader. -/
  fetched : String → List MlsMessage := fun _ => []

inductive PeerEvent where
  /-- The sync loop starts, with another leader or the same. -/
  | switch (leader : String) (canPushUserContent : Bool) (ourIdentityId : Option String) (pushLoaded mlsLoaded : Bool)
  /-- Whatever writes to the peer's database, its pulls included. -/
  | edit (space : SpaceDb)
  | scan (reads : OwnedReads)
  | chunk (reply : ChunkReply)
  | finish (saved : Bool)
  | fetch
  | process (outcome : MlsOutcome)
  | store (leader spaceId senderDid messageType : String) (blob : List UInt8)
  | ack (leader spaceId did : String) (messageIds : List Int) (ackRun : AckRun)
  /-- `local_delivery_stop`. -/
  | stop (leader spaceId : String)
  /-- A device pulls some of what a leader has. -/
  | pull (device leader : String) (taken : List LocalColumnChange)
  /-- Another peer pushes. -/
  | othersPush (leader : String) (changes : List LocalColumnChange)

namespace PeerState

def session (s : PeerState) : PushState := { s.push with accepted := s.stored s.leader }

def pushes (d : PushDevice) (s : PeerState) (e : PushEvent) : PeerState :=
  let push := s.session.step d e
  { s with push, stored := Function.update s.stored s.leader push.accepted }

def setBuffer (s : PeerState) (leader : String) (b : MlsBuffer) : PeerState :=
  { s with buffers := Function.update s.buffers leader b }

/-- `store_message` at a leader. -/
def storeAt (d : PushDevice) (s : PeerState) (leader spaceId senderDid messageType : String) (blob : List UInt8) : PeerState :=
  { s.setBuffer leader ((s.buffers leader).storeMessage spaceId senderDid messageType blob) with
    since :=
      if spaceId = d.spaceId then Function.update s.since leader
        (s.since leader ++ [⟨(s.buffers leader).nextId, spaceId, senderDid, messageType, blob⟩])
      else s.since }

/-- `save_last_mls_cursor`, and the cursor of the session. -/
def mlsCheckpoint (s : PeerState) (id : Int) (saved : Bool) : PeerState :=
  { s with storedMls := if saved then some id else s.storedMls, lastMls := some id }

def receive (s : PeerState) (messages : List MlsMessage) : PeerState :=
  { s with fetched := Function.update s.fetched s.leader (s.fetched s.leader ++ messages) }

/-- The fetch of `fetch_and_process_mls_messages`. -/
def fetch (d : PushDevice) (s : PeerState) : PeerState :=
  let messages := (s.buffers s.leader).fetchMessages d.spaceId s.lastMls
  { s.receive messages with batch := messages, batchMax := ((messages.map (·.id)).max?).getD 0 }

/-- One turn of its loop. -/
def process (d : PushDevice) (s : PeerState) (outcome : MlsOutcome) : PeerState :=
  match s.batch with
  | [] => s
  | msg :: rest =>
    match outcome with
    | .processed saved => { s.mlsCheckpoint msg.id saved with batch := rest }
    | .undecodable => { s with batch := rest }
    | .failed => { s with batch := [] }
    | .rejoined ourDid commit saved =>
      let ecMsgId := (s.buffers s.leader).nextId
      let s' := (s.storeAt d s.leader d.spaceId ourDid "commit" commit).receive [⟨ecMsgId, d.spaceId, ourDid, "commit", commit⟩]
      { s'.mlsCheckpoint (max s.batchMax ecMsgId) saved with batch := [] }

def step (d : PushDevice) (s : PeerState) : PeerEvent → PeerState
  | .switch leader canPushUserContent ourIdentityId pushLoaded mlsLoaded =>
    { s with
      leader
      push := s.push.step d (.start canPushUserContent ourIdentityId pushLoaded)
      lastMls := if mlsLoaded then s.storedMls else none
      batch := [] }
  | .edit space => s.pushes d (.edit space [])
  | .scan reads => s.pushes d (.scan reads)
  | .chunk reply => s.pushes d (.chunk reply)
  | .finish saved => s.pushes d (.finish saved)
  | .fetch => s.fetch d
  | .process outcome => s.process d outcome
  | .store leader spaceId senderDid messageType blob => s.storeAt d leader spaceId senderDid messageType blob
  | .ack leader spaceId did messageIds ackRun =>
    s.setBuffer leader ((s.buffers leader).handleAckCommit spaceId did messageIds ackRun)
  | .stop leader spaceId => s.setBuffer leader ((s.buffers leader).clearBuffers spaceId)
  | .pull device leader taken =>
    { s with stored := Function.update s.stored device (s.stored device ++ taken.filter (· ∈ s.stored leader)) }
  -- a push scan finds what its own node wrote
  | .othersPush leader changes =>
    { s with
      stored := Function.update s.stored leader
        (s.stored leader ++ changes.filter fun c => !d.ourNode.any (hlcIsFromNode c.hlcTimestamp)) }

end PeerState

/-! ## What the cursors stand for -/

def FetchedAll (s : PeerState) : Prop := ∀ m ∈ s.since s.leader, m ∈ s.fetched s.leader

def DeletesFetched (s : PeerState) (leader : String) (b : MlsBuffer) : Prop :=
  ∀ m ∈ s.since leader, m ∈ (s.buffers leader).messages → m ∉ b.messages → m ∈ s.fetched leader

structure Joined (s : PeerState) : Prop where
  storedHlc : s.push.storedHlc = none
  lastPushHlc : s.push.lastPushHlc = none
  phase : s.push.phase = .idle
  storedMls : s.storedMls = none
  lastMls : s.lastMls = none
  batch : s.batch = []
  since : ∀ l, s.since l = []
  numbered : ∀ l, (s.buffers l).Numbered

section
variable (d : PushDevice)

def CoveredStored (s : PeerState) : Prop :=
  ∀ c, Emits d.scanner s.push.space.db (d.args none) c → ∀ h, s.push.storedHlc = some h →
    hlcIsNewer c.hlcTimestamp h = false → c ∈ s.stored s.leader

/-- What each step must bring for both cursors to keep their meaning. -/
def CursorsMeet (s : PeerState) : PeerEvent → Prop
  -- what the new leader lacks of the old one's is above the push cursor, its unfetched messages above the MLS cursor
  | .switch leader _ _ _ _ =>
      (∀ c ∈ s.stored s.leader, Emits d.scanner s.push.space.db (d.args none) c → c ∉ s.stored leader →
        ∀ h, s.push.storedHlc = some h → Above d s.push.space.db h c) ∧
      ∀ m ∈ s.since leader, m ∉ s.fetched leader → ∀ id, s.storedMls = some id → id < m.id
  | .edit space => CursorMeets d s.session (.edit space [])
  | .scan reads => CursorMeets d s.session (.scan reads)
  | .chunk reply => CursorMeets d s.session (.chunk reply)
  | .finish saved => CursorMeets d s.session (.finish saved)
  -- nothing was stored between the fetch and the external commit
  | .process (.rejoined _ _ _) => s.batch ≠ [] → FetchedAll s
  -- the leader's ids go on above the peer's cursors
  | .store leader spaceId _ _ _ => leader = s.leader → spaceId = d.spaceId →
      ∀ id, s.storedMls = some id ∨ s.lastMls = some id → id < (s.buffers leader).nextId
  | .ack leader spaceId did messageIds ackRun =>
      DeletesFetched s leader ((s.buffers leader).handleAckCommit spaceId did messageIds ackRun)
  | .stop leader spaceId => DeletesFetched s leader ((s.buffers leader).clearBuffers spaceId)
  | _ => True

/-- Ids come from each leader's sequence, and what the peer has yet to fetch of a leader is still there. -/
structure Buffered (s : PeerState) : Prop where
  numbered : ∀ l, (s.buffers l).Numbered
  kept : ∀ l, ∀ m ∈ s.since l, m ∉ s.fetched l → m ∈ (s.buffers l).messages ∧ m.spaceId = d.spaceId ∧ 0 < m.id

/-- The push cursor is safe with the current leader, and what the peer has yet to fetch of it is above the MLS cursor
and the batch. -/
structure PeerSafe (s : PeerState) : Prop extends Buffered d s where
  push : CursorSafe d s.session
  ahead : ∀ m ∈ s.since s.leader, m ∉ s.fetched s.leader →
    ∀ id, s.storedMls = some id ∨ s.lastMls = some id ∨ (∃ m' ∈ s.batch, m'.id = id) → id < m.id
  batch : ∀ m ∈ s.batch, m.id < (s.buffers s.leader).nextId

end

section Steps
variable {d : PushDevice} {s : PeerState}

theorem session_pushes (s : PeerState) (e : PushEvent) : (s.pushes d e).session = s.session.step d e := by
  simp [PeerState.session, PeerState.pushes]

theorem session_gains (h : CursorSafe d s.session) (device : String) (changes : List LocalColumnChange) :
    CursorSafe d { s with stored := Function.update s.stored device (s.stored device ++ changes) }.session := by
  by_cases hd : device = s.leader
  · subst hd
    have hgain := @edit_safe d s.session h s.session.space changes fun _ _ _ _ _ hold => hold ‹_›
    simpa [PeerState.session, PushState.step] using hgain
  · simpa [PeerState.session, Function.update_of_ne (Ne.symm hd)] using h

theorem PeerSafe.pushes (h : PeerSafe d s) {e : PushEvent} (he : CursorMeets d s.session e) : PeerSafe d (s.pushes d e) :=
  ⟨⟨h.numbered, h.kept⟩, session_pushes s e ▸ step_safe _ _ h.push he, h.ahead, h.batch⟩

theorem PeerSafe.switch (h : PeerSafe d s) {leader : String} {canPush : Bool} {ourIdentityId : Option String}
    {pushLoaded mlsLoaded : Bool} (hm : CursorsMeet d s (.switch leader canPush ourIdentityId pushLoaded mlsLoaded)) :
    PeerSafe d (s.step d (.switch leader canPush ourIdentityId pushLoaded mlsLoaded)) := by
  obtain ⟨hstored, hunfetched⟩ := hm
  refine ⟨⟨h.numbered, h.kept⟩, ⟨fun c hc h₀ hh => ?_, (by intro _ _ hp; cases hp), (by intro _ _ hp; cases hp)⟩, ?_, ?_⟩
  · have hh : s.push.storedHlc = some h₀ := by
      rcases hh with hh | hh
      · exact hh
      · cases pushLoaded with
        | true => exact hh
        | false => cases hh
    by_cases hold : c ∈ s.stored s.leader
    · exact hstored c hold hc.1 hc.2 h₀ hh
    · exact h.push.above c ⟨hc.1, hold⟩ h₀ (.inl hh)
  · intro m hmem hnot id hid
    refine hunfetched m hmem hnot id ?_
    rcases hid with hid | hid | ⟨m', hm', -⟩
    · exact hid
    · cases mlsLoaded with
      | true => exact hid
      | false => cases hid
    · exact (List.not_mem_nil hm').elim
  · exact fun m hm' => (List.not_mem_nil hm').elim

theorem PeerSafe.fetch (h : PeerSafe d s) : PeerSafe d (s.fetch d) ∧ FetchedAll (s.fetch d) := by
  have hall : FetchedAll (s.fetch d) := by
    intro m hm
    simp only [PeerState.fetch, PeerState.receive, Function.update_self, List.mem_append, MlsBuffer.mem_fetchMessages]
    by_cases hf : m ∈ s.fetched s.leader
    · exact .inl hf
    · obtain ⟨hbuf, hspace, hpos⟩ := h.kept _ m hm hf
      refine .inr ⟨hbuf, hspace, ?_⟩
      cases hlast : s.lastMls with
      | none => exact hpos
      | some id => exact h.ahead m hm hf id (.inr (.inl hlast))
  refine ⟨⟨⟨h.numbered, fun l m hm hf => h.kept l m hm fun hold => hf ?_⟩, h.push, fun m hm hf => ?_, fun m hm => ?_⟩, hall⟩
  · simp only [PeerState.fetch, PeerState.receive, Function.update_apply]
    split
    · rename_i hl
      exact List.mem_append_left _ (hl ▸ hold)
    · exact hold
  · exact absurd (hall m hm) hf
  · exact (h.numbered s.leader).lt m (MlsBuffer.mem_fetchMessages.1 hm).1

theorem PeerSafe.setBuffer (h : PeerSafe d s) {leader : String} {b : MlsBuffer} (hid : b.nextId = (s.buffers leader).nextId)
    (hsub : b.messages ⊆ (s.buffers leader).messages) (hdel : DeletesFetched s leader b) : PeerSafe d (s.setBuffer leader b) := by
  have hnext : ∀ l, ((s.setBuffer leader b).buffers l).nextId = (s.buffers l).nextId := by
    intro l
    simp only [PeerState.setBuffer, Function.update_apply]
    split
    · simp [*]
    · rfl
  refine ⟨⟨fun l => ?_, fun l m hm hf => ?_⟩, h.push, h.ahead, fun m hm => hnext s.leader ▸ h.batch m hm⟩
  · refine (h.numbered l).shrink (hnext l) ?_
    simp only [PeerState.setBuffer, Function.update_apply]
    split
    · rename_i hl
      exact hl ▸ hsub
    · exact List.Subset.refl _
  · obtain ⟨hbuf, hrest⟩ := h.kept l m hm hf
    refine ⟨?_, hrest⟩
    simp only [PeerState.setBuffer, Function.update_apply]
    split
    · rename_i hl
      subst hl
      exact by_contra fun hgone => hf (hdel m hm hbuf hgone)
    · exact hbuf

theorem mem_since_storeAt {leader spaceId senderDid messageType : String} {blob : List UInt8} {l : String} {m : MlsMessage} :
    m ∈ (s.storeAt d leader spaceId senderDid messageType blob).since l ↔ m ∈ s.since l ∨
      l = leader ∧ spaceId = d.spaceId ∧ m = ⟨(s.buffers leader).nextId, spaceId, senderDid, messageType, blob⟩ := by
  by_cases hs : spaceId = d.spaceId <;> by_cases hl : l = leader <;> simp [PeerState.storeAt, hs, hl]

theorem Buffered.storeAt (h : Buffered d s) (leader spaceId senderDid messageType : String) (blob : List UInt8) :
    Buffered d (s.storeAt d leader spaceId senderDid messageType blob) := by
  have hbuffers : ∀ l, (s.storeAt d leader spaceId senderDid messageType blob).buffers l =
      if l = leader then (s.buffers leader).storeMessage spaceId senderDid messageType blob else s.buffers l :=
    fun l => Function.update_apply ..
  refine ⟨fun l => ?_, fun l m hm hf => ?_⟩
  · rw [hbuffers]
    split
    · exact (h.numbered leader).storeMessage _ _ _ _
    · exact h.numbered l
  · rw [hbuffers]
    rcases mem_since_storeAt.1 hm with hm | ⟨rfl, hspace, rfl⟩
    · obtain ⟨hbuf, hrest⟩ := h.kept l m hm hf
      refine ⟨?_, hrest⟩
      split
      · rename_i hl
        exact List.mem_append_left _ (hl ▸ hbuf)
      · exact hbuf
    · rw [if_pos rfl]
      exact ⟨List.mem_append_right _ (List.mem_singleton_self _), hspace, (h.numbered l).pos⟩

theorem PeerSafe.store (h : PeerSafe d s) {leader spaceId senderDid messageType : String} {blob : List UInt8}
    (hm : CursorsMeet d s (.store leader spaceId senderDid messageType blob)) :
    PeerSafe d (s.step d (.store leader spaceId senderDid messageType blob)) := by
  refine ⟨h.toBuffered.storeAt leader spaceId senderDid messageType blob, h.push, fun m hmem hf id hid => ?_, fun m hmem => ?_⟩
  · rcases mem_since_storeAt.1 hmem with hmem | ⟨hleader, hspace, rfl⟩
    · exact h.ahead m hmem hf id hid
    · rcases hid with hid | hid | ⟨m', hm', rfl⟩
      · exact hm hleader.symm hspace id (.inl hid)
      · exact hm hleader.symm hspace id (.inr hid)
      · exact hleader ▸ h.batch m' hm'
  · have hlt := h.batch m hmem
    show m.id < ((Function.update s.buffers leader _) s.leader).nextId
    rw [Function.update_apply]
    split
    · rename_i hl
      simp only [MlsBuffer.storeMessage, ← hl]
      omega
    · exact hlt

theorem PeerSafe.rejoined (h : PeerSafe d s) (hall : FetchedAll s) {msg : MlsMessage} {rest : List MlsMessage}
    (hbatch : s.batch = msg :: rest) (ourDid : String) (commit : List UInt8) (saved : Bool) :
    PeerSafe d (s.process d (.rejoined ourDid commit saved)) := by
  have hstored := h.toBuffered.storeAt s.leader d.spaceId ourDid "commit" commit
  have hfetched : ∀ {l m}, m ∈ (s.process d (.rejoined ourDid commit saved)).fetched l ↔ m ∈ s.fetched l ∨
      l = s.leader ∧ m = ⟨(s.buffers s.leader).nextId, d.spaceId, ourDid, "commit", commit⟩ := by
    intro l m
    by_cases hl : l = s.leader <;>
      simp [PeerState.process, hbatch, PeerState.mlsCheckpoint, PeerState.receive, PeerState.storeAt, PeerState.setBuffer, hl]
  have hsince : (s.process d (.rejoined ourDid commit saved)).since =
      (s.storeAt d s.leader d.spaceId ourDid "commit" commit).since := by
    simp only [PeerState.process, hbatch]
    rfl
  have hbuffers : (s.process d (.rejoined ourDid commit saved)).buffers =
      (s.storeAt d s.leader d.spaceId ourDid "commit" commit).buffers := by
    simp only [PeerState.process, hbatch]
    rfl
  have hdone : FetchedAll (s.process d (.rejoined ourDid commit saved)) := by
    have hleader : (s.process d (.rejoined ourDid commit saved)).leader = s.leader := by
      simp only [PeerState.process, hbatch]
      rfl
    intro m hm
    rw [hsince, hleader] at hm
    rw [hleader, hfetched]
    rcases mem_since_storeAt.1 hm with hm | ⟨-, -, hm⟩
    · exact .inl (hall m hm)
    · exact .inr ⟨rfl, hm⟩
  refine ⟨⟨hbuffers ▸ hstored.numbered, fun l m hm hf => ?_⟩, ?_, fun m hm hf => absurd (hdone m hm) hf, fun m hm => ?_⟩
  · rw [hsince] at hm
    rw [hbuffers]
    exact hstored.kept l m hm fun hold => hf (hfetched.2 (.inl hold))
  · have hpush := h.push
    simp only [PeerState.process, hbatch]
    exact hpush
  · simp only [PeerState.process, hbatch] at hm
    exact (List.not_mem_nil hm).elim

theorem PeerSafe.process (h : PeerSafe d s) {outcome : MlsOutcome} (hm : CursorsMeet d s (.process outcome)) :
    PeerSafe d (s.process d outcome) := by
  cases hbatch : s.batch with
  | nil => simpa only [PeerState.process, hbatch] using h
  | cons msg rest =>
    have hrest : ∀ m' ∈ rest, m' ∈ s.batch := fun m' hm' => hbatch ▸ List.mem_cons_of_mem _ hm'
    have hmsg : msg ∈ s.batch := hbatch ▸ List.mem_cons_self
    cases outcome with
    | rejoined ourDid commit saved => exact h.rejoined (hm (List.ne_nil_of_mem hmsg)) hbatch ourDid commit saved
    | failed =>
      simp only [PeerState.process, hbatch]
      refine ⟨⟨h.numbered, h.kept⟩, h.push, fun m hmem hf id hid => h.ahead m hmem hf id ?_, fun m hm' => ?_⟩
      · rcases hid with hid | hid | ⟨m', hm', -⟩
        · exact .inl hid
        · exact .inr (.inl hid)
        · exact (List.not_mem_nil hm').elim
      · exact (List.not_mem_nil hm').elim
    | undecodable =>
      simp only [PeerState.process, hbatch]
      refine ⟨⟨h.numbered, h.kept⟩, h.push, fun m hmem hf id hid => h.ahead m hmem hf id ?_, fun m hm' => h.batch m (hrest m hm')⟩
      rcases hid with hid | hid | ⟨m', hm', he⟩
      · exact .inl hid
      · exact .inr (.inl hid)
      · exact .inr (.inr ⟨m', hrest m' hm', he⟩)
    | processed saved =>
      simp only [PeerState.process, hbatch]
      refine ⟨⟨h.numbered, h.kept⟩, h.push, fun m hmem hf id hid => h.ahead m hmem hf id ?_, fun m hm' => h.batch m (hrest m hm')⟩
      simp only [PeerState.mlsCheckpoint] at hid
      rcases hid with hid | hid | ⟨m', hm', he⟩
      · cases saved with
        | true => exact .inr (.inr ⟨msg, hmsg, Option.some.inj hid⟩)
        | false => exact .inl hid
      · exact .inr (.inr ⟨msg, hmsg, Option.some.inj hid⟩)
      · exact .inr (.inr ⟨m', hrest m' hm', he⟩)

theorem peer_step_safe (s : PeerState) (e : PeerEvent) (h : PeerSafe d s) (he : CursorsMeet d s e) : PeerSafe d (s.step d e) := by
  cases e with
  | switch leader canPush ourIdentityId pushLoaded mlsLoaded => exact h.switch he
  | edit space | scan reads | chunk reply | finish saved => exact h.pushes he
  | fetch => exact h.fetch.1
  | process outcome => exact h.process he
  | store leader spaceId senderDid messageType blob => exact h.store he
  | ack leader spaceId did messageIds ackRun =>
    obtain ⟨hid, hsub⟩ := MlsBuffer.handleAckCommit_messages (s.buffers leader) spaceId did messageIds ackRun
    exact h.setBuffer hid hsub he
  | stop leader spaceId => exact h.setBuffer rfl (fun _ hm => List.mem_of_mem_filter hm) he
  | pull device leader taken => exact ⟨⟨h.numbered, h.kept⟩, session_gains h.push device _, h.ahead, h.batch⟩
  | othersPush leader changes => exact ⟨⟨h.numbered, h.kept⟩, session_gains h.push leader _, h.ahead, h.batch⟩

theorem Joined.safe (h : Joined s) : PeerSafe d s := by
  refine ⟨⟨h.numbered, fun l m hm => ?_⟩, cursorSafe_fresh h.storedHlc h.lastPushHlc h.phase, fun m hm => ?_, fun m hm => ?_⟩
  · rw [h.since] at hm
    exact (List.not_mem_nil hm).elim
  · rw [h.since] at hm
    exact (List.not_mem_nil hm).elim
  · rw [h.batch] at hm
    exact (List.not_mem_nil hm).elim

/-- As long as each step brings what it must, a fetch leaves no message of the current leader behind, and the leader has
every change of the peer that the push cursor covers. -/
theorem cursors_across_leaders {s₀ : PeerState} {events : List PeerEvent} (h₀ : Joined s₀)
    (hrun : Guarded (PeerState.step d) (CursorsMeet d) s₀ events) :
    FetchedAll ((run (PeerState.step d) s₀ events).step d .fetch) ∧ CoveredStored d (run (PeerState.step d) s₀ events) := by
  have hsafe := hrun.inv peer_step_safe h₀.safe
  refine ⟨hsafe.fetch.2, fun c hc h hcursor hcovered => by_contra fun hnot => ?_⟩
  have hnewer := (hsafe.push.above c ⟨hc, hnot⟩ h (.inl hcursor)).newer
  rw [hcovered] at hnewer
  cases hnewer

end Steps

/-! ## From one leader to the next -/

/-- Two devices that may lead the space; the ids of the second go on at `nextId`. -/
def twoLeaders (nextId : Int) : PeerState where
  leader := "l1"
  push := sharingState
  buffers l := { nextId := if l = "l2" then nextId else 1 }

theorem joined_twoLeaders {nextId : Int} (h : 0 < nextId) : Joined (twoLeaders nextId) := by
  refine ⟨rfl, rfl, rfl, rfl, rfl, rfl, fun _ => rfl, fun l => ⟨?_, fun m hm => (List.not_mem_nil hm).elim⟩⟩
  simp only [twoLeaders]
  split
  · exact h
  · omega

def pushToFirst : List PeerEvent :=
  [.switch "l1" true none true true, .scan {}, .chunk (.ok true), .finish true]

def commitAt (leader : String) (blob : List UInt8) : PeerEvent := .store leader "s" "did:key:bob" "commit" blob

def firstLeaders : List LocalColumnChange := (run (PeerState.step sharingDevice) (twoLeaders 1) pushToFirst).stored "l1"

/-- The second leader has pulled everything from the first, and its ids go on above the peer's cursor. -/
def handedOver : List PeerEvent :=
  pushToFirst ++ [.pull "l2" "l1" firstLeaders, commitAt "l1" [1], .fetch, .process (.processed true),
    .switch "l2" true none true true, commitAt "l2" [2]]

theorem cursors_across_leaders_handedOver :
    FetchedAll ((run (PeerState.step sharingDevice) (twoLeaders 2) handedOver).step sharingDevice .fetch) ∧
      CoveredStored sharingDevice (run (PeerState.step sharingDevice) (twoLeaders 2) handedOver) := by
  have hscanned : (run (PeerState.step sharingDevice) (twoLeaders 2) (pushToFirst.take 2)).session =
      run (PushState.step sharingDevice) sharingState [.start true none true, .scan {}] := (session_pushes _ _).trans rfl
  have hsent : (run (PeerState.step sharingDevice) (twoLeaders 2) (pushToFirst.take 3)).session =
      run (PushState.step sharingDevice) sharingState [.start true none true, .scan {}, .chunk (.ok true)] :=
    (session_pushes _ _).trans (congrArg (PushState.step sharingDevice · (.chunk (.ok true))) hscanned)
  have hchunk : CursorMeets sharingDevice (run (PeerState.step sharingDevice) (twoLeaders 2) (pushToFirst.take 2)).session
      (.chunk (.ok true)) := hscanned ▸ sharing_chunk_meets
  have hfinish : CursorMeets sharingDevice (run (PeerState.step sharingDevice) (twoLeaders 2) (pushToFirst.take 3)).session
      (.finish true) := hsent ▸ sharing_finish_meets
  have hpulled : ∀ c ∈ (run (PeerState.step sharingDevice) (twoLeaders 2) (handedOver.take 8)).stored "l1",
      c ∈ (run (PeerState.step sharingDevice) (twoLeaders 2) (handedOver.take 8)).stored "l2" := by decide +kernel
  have hcursor : (run (PeerState.step sharingDevice) (twoLeaders 2) (handedOver.take 9)).storedMls = some 1 ∧
      (run (PeerState.step sharingDevice) (twoLeaders 2) (handedOver.take 9)).lastMls = some 1 ∧
      ((run (PeerState.step sharingDevice) (twoLeaders 2) (handedOver.take 9)).buffers "l2").nextId = 2 := by decide +kernel
  refine cursors_across_leaders (joined_twoLeaders (by omega)) ⟨⟨fun _ hc => ?_, fun _ hm => ?_⟩, sharing_scan_meets,
    hchunk, hfinish, trivial, fun _ _ id hid => ?_, trivial, trivial,
    ⟨fun c hc _ hnot => absurd (hpulled c hc) hnot, fun _ hm => ?_⟩, fun _ _ id hid => ?_, trivial⟩
  · exact (List.not_mem_nil hc).elim
  · exact (List.not_mem_nil hm).elim
  · rcases hid with hid | hid <;> cases hid
  · exact (List.not_mem_nil hm).elim
  · obtain ⟨hstored, hlast, hnext⟩ := hcursor
    have hone : id = 1 := by
      rcases hid with hid | hid
      · exact Option.some.inj (hid.symm.trans hstored)
      · exact Option.some.inj (hid.symm.trans hlast)
    exact lt_of_lt_of_eq (by omega : id < 2) hnext.symm

/-- The peer is at message 2 of the first leader when the second, whose sequence starts at 1, takes over without having
pulled from it. Then everyone pushes and pulls. -/
def takenOver : List PeerEvent :=
  pushToFirst ++ [commitAt "l1" [1], commitAt "l1" [2], .fetch, .process (.processed true), .process (.processed true),
    .switch "l2" true none true true, commitAt "l2" [3], .othersPush "l2" firstLeaders, .pull "l1" "l2" firstLeaders,
    .scan {}, .finish true]

/-- The second leader's first message is below the MLS cursor, and the share below the push cursor is not there. -/
theorem cursors_taken_along :
    (¬ ∀ (d : PushDevice) (s₀ : PeerState) (events : List PeerEvent), Joined s₀ →
      FetchedAll ((run (PeerState.step d) s₀ events).step d .fetch)) ∧
    ¬ ∀ (d : PushDevice) (s₀ : PeerState) (events : List PeerEvent), Joined s₀ →
      CoveredStored d (run (PeerState.step d) s₀ events) := by
  constructor
  · intro hall
    have hfetched := hall sharingDevice (twoLeaders 1) takenOver (joined_twoLeaders (by omega))
      ⟨1, "s", "did:key:bob", "commit", [3]⟩
    revert hfetched
    decide +kernel
  · intro hall
    have hshare : (scanSpaceScopedTablesForLocalChanges pkScanner
        (run (PeerState.step sharingDevice) (twoLeaders 1) takenOver).push.space.db (sharingDevice.args none)).toOption.any
          (shareName ∈ ·) = true := by decide +kernel
    have hcursor : (run (PeerState.step sharingDevice) (twoLeaders 1) takenOver).push.storedHlc = some "2/a" := by decide +kernel
    have hstored := hall sharingDevice (twoLeaders 1) takenOver (joined_twoLeaders (by omega)) shareName
      (emits_of_scan hshare) "2/a" hcursor (by decide +kernel)
    revert hstored
    decide +kernel

end HaexVault.Space
