import Mathlib.Data.List.Sort
import Mathlib.Logic.Function.Basic
import HaexVault.Lib.JsonBytes
import HaexVault.Lib.Steps
/-!
# The storage of MLS groups (`mls/storage.rs`, `mls/queries.rs`)

Values, lists and epoch keys of OpenMLS in three tables, under the JSON of their keys. The store
answers as one with a map for each kind of entity, a list of leaf nodes and a queue of proposals for
each group does (`store_refines`).
-/

namespace HaexVault.Mls.Storage

open HaexVault.Lib HaexVault.Lib.Steps

abbrev Bytes := List UInt8

/-! ## Keys and entities -/

inductive Kind where
  | joinConfig | tree | interimTranscriptHash | context | confirmationTag | groupState | messageSecrets | resumptionPskStore
  | ownLeafIndex | groupEpochSecrets | signatureKeyPair | encryptionKeyPair | keyPackage | psk
  deriving DecidableEq

/-- The store type constants. -/
def Kind.storeType : Kind → String
  | .joinConfig => "join_config"
  | .tree => "tree"
  | .interimTranscriptHash => "interim_transcript_hash"
  | .context => "context"
  | .confirmationTag => "confirmation_tag"
  | .groupState => "group_state"
  | .messageSecrets => "message_secrets"
  | .resumptionPskStore => "resumption_psk_store"
  | .ownLeafIndex => "own_leaf_index"
  | .groupEpochSecrets => "group_epoch_secrets"
  | .signatureKeyPair => "signature_key_pair"
  | .encryptionKeyPair => "encryption_key_pair"
  | .keyPackage => "key_package"
  | .psk => "psk"

def Kind.all : List Kind := [.joinConfig, .tree, .interimTranscriptHash, .context, .confirmationTag, .groupState, .messageSecrets,
  .resumptionPskStore, .ownLeafIndex, .groupEpochSecrets, .signatureKeyPair, .encryptionKeyPair, .keyPackage, .psk]

def stOwnLeafNodes : String := "own_leaf_nodes"
def stProposals : String := "proposals"
def stProposalRefs : String := "proposal_refs"

structure Types where
  GroupId : Type
  ProposalRef : Type
  QueuedProposal : Type
  LeafNode : Type
  EpochKey : Type
  HpkeKeyPair : Type
  Key : Kind → Type
  Entity : Kind → Type

structure Codec (α : Type) where
  encode : α → Bytes
  decode : Bytes → Except String α
  decode_encode : ∀ a, decode (encode a) = .ok a

theorem Codec.encode_injective {α : Type} (c : Codec α) : Function.Injective c.encode := by
  intro a b h
  have hsame := c.decode_encode a
  rw [h, c.decode_encode] at hsame
  exact (Except.ok.inj hsame).symm

/-- The JSON of keys and entities. -/
structure Json (T : Types) where
  groupId : T.GroupId → Bytes
  groupId_injective : Function.Injective groupId
  epochKey : T.EpochKey → Bytes
  epochKey_injective : Function.Injective epochKey
  key : ∀ k, T.Key k → Bytes
  key_injective : ∀ k, Function.Injective (key k)
  entity : ∀ k, Codec (T.Entity k)
  proposalRef : Codec T.ProposalRef
  queuedProposal : Codec T.QueuedProposal
  leafNode : Codec T.LeafNode
  hpkeKeyPairs : Codec (List T.HpkeKeyPair)

/-! ## The tables -/

structure Store where
  /-- `haex_mls_values_no_sync`, by store type and key. -/
  values : String × Bytes → Option Bytes := fun _ => none
  /-- `haex_mls_list_no_sync`: index and value of the rows of a store type and a key. -/
  lists : String × Bytes → List (Int × Bytes) := fun _ => []
  /-- `haex_mls_epoch_key_pairs_no_sync`, by group, epoch and leaf index. -/
  epochKeyPairs : Bytes × Bytes × UInt32 → Option Bytes := fun _ => none

inductive MlsStorageError where
  | serialization (reason : String)

variable {α : Type} (c : Codec α) (storeType : String) (key : Bytes)

def deserializeEntity (blob : Bytes) : Except MlsStorageError α := (c.decode blob).mapError .serialization

namespace Store

variable (s : Store)

def writeValue (value : Bytes) : Store := { s with values := Function.update s.values (storeType, key) (some value) }

def readValue : Except MlsStorageError (Option α) :=
  match s.values (storeType, key) with
  | some blob => (deserializeEntity c blob).map some
  | none => .ok none

def deleteValue : Store := { s with values := Function.update s.values (storeType, key) none }

/-- `SQL_NEXT_LIST_INDEX`. -/
def nextListIndex (rows : List (Int × Bytes)) : Int := (rows.map Prod.fst).max?.getD (-1) + 1

def appendToList (value : Bytes) : Store :=
  let rows := s.lists (storeType, key)
  { s with lists := Function.update s.lists (storeType, key) (rows ++ [(nextListIndex rows, value)]) }

def readList : Except MlsStorageError (List α) :=
  ((s.lists (storeType, key)).insertionSort fun a b => a.1 ≤ b.1).mapM fun row => deserializeEntity c row.2

def deleteList : Store := { s with lists := Function.update s.lists (storeType, key) [] }

def removeFromList (item : Bytes) : Store :=
  { s with lists := Function.update s.lists (storeType, key) ((s.lists (storeType, key)).filter fun row => row.2 ≠ item) }

end Store

/-! ## The calls -/

/-- The calls of `StorageProvider`; those on one value for a key are one for each kind. -/
inductive Call (T : Types) where
  | write (k : Kind) (key : T.Key k) (entity : T.Entity k)
  | read (k : Kind) (key : T.Key k)
  | delete (k : Kind) (key : T.Key k)
  | appendOwnLeafNode (groupId : T.GroupId) (leafNode : T.LeafNode)
  | ownLeafNodes (groupId : T.GroupId)
  | deleteOwnLeafNodes (groupId : T.GroupId)
  | queueProposal (groupId : T.GroupId) (proposalRef : T.ProposalRef) (proposal : T.QueuedProposal)
  | queuedProposalRefs (groupId : T.GroupId)
  | queuedProposals (groupId : T.GroupId)
  | removeProposal (groupId : T.GroupId) (proposalRef : T.ProposalRef)
  | clearProposalQueue (groupId : T.GroupId)
  | writeEncryptionEpochKeyPairs (groupId : T.GroupId) (epoch : T.EpochKey) (leafIndex : UInt32) (keyPairs : List T.HpkeKeyPair)
  | encryptionEpochKeyPairs (groupId : T.GroupId) (epoch : T.EpochKey) (leafIndex : UInt32)
  | deleteEncryptionEpochKeyPairs (groupId : T.GroupId) (epoch : T.EpochKey) (leafIndex : UInt32)

inductive Answer (T : Types) where
  | done
  | value (k : Kind) (entity : Option (T.Entity k))
  | leafNodes (leafNodes : List T.LeafNode)
  | proposalRefs (refs : List T.ProposalRef)
  | proposals (proposals : List (T.ProposalRef × T.QueuedProposal))
  | keyPairs (keyPairs : List T.HpkeKeyPair)

variable {T : Types} (J : Json T)

def compoundKey (groupId : T.GroupId) (proposalRef : T.ProposalRef) : Bytes :=
  JsonBytes.pair (J.groupId groupId) (J.proposalRef.encode proposalRef)

namespace Store

variable (s : Store)

def queueProposal (groupId : T.GroupId) (proposalRef : T.ProposalRef) (proposal : T.QueuedProposal) : Store :=
  (s.writeValue stProposals (compoundKey J groupId proposalRef) (J.queuedProposal.encode proposal)).appendToList stProposalRefs
    (J.groupId groupId) (J.proposalRef.encode proposalRef)

def queuedProposals (groupId : T.GroupId) : Except MlsStorageError (List (T.ProposalRef × T.QueuedProposal)) := do
  let refs ← s.readList J.proposalRef stProposalRefs (J.groupId groupId)
  let found ← refs.mapM fun ref => (s.readValue J.queuedProposal stProposals (compoundKey J groupId ref)).map (·.map (ref, ·))
  return found.reduceOption

def removeProposal (groupId : T.GroupId) (proposalRef : T.ProposalRef) : Store :=
  (s.deleteValue stProposals (compoundKey J groupId proposalRef)).removeFromList stProposalRefs (J.groupId groupId)
    (J.proposalRef.encode proposalRef)

def clearProposalQueue (groupId : T.GroupId) : Except MlsStorageError Store := do
  let refs ← s.readList J.proposalRef stProposalRefs (J.groupId groupId)
  return (refs.foldl (fun s ref => s.deleteValue stProposals (compoundKey J groupId ref)) s).deleteList stProposalRefs
    (J.groupId groupId)

def writeEncryptionEpochKeyPairs (groupId : T.GroupId) (epoch : T.EpochKey) (leafIndex : UInt32)
    (keyPairs : List T.HpkeKeyPair) : Store :=
  { s with
    epochKeyPairs := Function.update s.epochKeyPairs (J.groupId groupId, J.epochKey epoch, leafIndex)
      (some (J.hpkeKeyPairs.encode keyPairs)) }

def encryptionEpochKeyPairs (groupId : T.GroupId) (epoch : T.EpochKey) (leafIndex : UInt32) :
    Except MlsStorageError (List T.HpkeKeyPair) :=
  match s.epochKeyPairs (J.groupId groupId, J.epochKey epoch, leafIndex) with
  | some blob => deserializeEntity J.hpkeKeyPairs blob
  | none => .ok []

def deleteEncryptionEpochKeyPairs (groupId : T.GroupId) (epoch : T.EpochKey) (leafIndex : UInt32) : Store :=
  { s with epochKeyPairs := Function.update s.epochKeyPairs (J.groupId groupId, J.epochKey epoch, leafIndex) none }

/-- What a call answers, and the store after it. -/
def step : Call T → Except MlsStorageError (Answer T) × Store
  | .write k key entity => (.ok .done, s.writeValue k.storeType (J.key k key) ((J.entity k).encode entity))
  | .read k key => ((s.readValue (J.entity k) k.storeType (J.key k key)).map (.value k), s)
  | .delete k key => (.ok .done, s.deleteValue k.storeType (J.key k key))
  | .appendOwnLeafNode groupId leafNode =>
    (.ok .done, s.appendToList stOwnLeafNodes (J.groupId groupId) (J.leafNode.encode leafNode))
  | .ownLeafNodes groupId => ((s.readList J.leafNode stOwnLeafNodes (J.groupId groupId)).map .leafNodes, s)
  | .deleteOwnLeafNodes groupId => (.ok .done, s.deleteList stOwnLeafNodes (J.groupId groupId))
  | .queueProposal groupId proposalRef proposal => (.ok .done, s.queueProposal J groupId proposalRef proposal)
  | .queuedProposalRefs groupId => ((s.readList J.proposalRef stProposalRefs (J.groupId groupId)).map .proposalRefs, s)
  | .queuedProposals groupId => ((s.queuedProposals J groupId).map .proposals, s)
  | .removeProposal groupId proposalRef => (.ok .done, s.removeProposal J groupId proposalRef)
  | .clearProposalQueue groupId =>
    match s.clearProposalQueue J groupId with
    | .error e => (.error e, s)
    | .ok s' => (.ok .done, s')
  | .writeEncryptionEpochKeyPairs groupId epoch leafIndex keyPairs =>
    (.ok .done, s.writeEncryptionEpochKeyPairs J groupId epoch leafIndex keyPairs)
  | .encryptionEpochKeyPairs groupId epoch leafIndex =>
    ((s.encryptionEpochKeyPairs J groupId epoch leafIndex).map .keyPairs, s)
  | .deleteEncryptionEpochKeyPairs groupId epoch leafIndex =>
    (.ok .done, s.deleteEncryptionEpochKeyPairs J groupId epoch leafIndex)

def run : Store → List (Call T) → List (Except MlsStorageError (Answer T)) × Store
  | s, [] => ([], s)
  | s, call :: calls => ((s.step J call).1 :: (run (s.step J call).2 calls).1, (run (s.step J call).2 calls).2)

end Store

/-! ## The reference -/

/-- What the store is for: a map for each kind, a list and a queue for each group, and a map of epoch keys. -/
structure Reference (T : Types) where
  values : ∀ k, T.Key k → Option (T.Entity k) := fun _ _ => none
  leafNodes : T.GroupId → List T.LeafNode := fun _ => []
  queue : T.GroupId → List (T.ProposalRef × T.QueuedProposal) := fun _ => []
  epochKeyPairs : T.GroupId × T.EpochKey × UInt32 → List T.HpkeKeyPair := fun _ => []

namespace Reference

open Classical

variable (r : Reference T)

noncomputable def setValue (k : Kind) (key : T.Key k) (entity : Option (T.Entity k)) : Reference T :=
  { r with values := Function.update r.values k (Function.update (r.values k) key entity) }

noncomputable def requeued (proposalRef : T.ProposalRef) (proposal : T.QueuedProposal)
    (queue : List (T.ProposalRef × T.QueuedProposal)) : List (T.ProposalRef × T.QueuedProposal) :=
  queue.map (fun x => if x.1 = proposalRef then (proposalRef, proposal) else x) ++ [(proposalRef, proposal)]

noncomputable def step : Call T → Answer T × Reference T
  | .write k key entity => (.done, r.setValue k key (some entity))
  | .read k key => (.value k (r.values k key), r)
  | .delete k key => (.done, r.setValue k key none)
  | .appendOwnLeafNode groupId leafNode =>
    (.done, { r with leafNodes := Function.update r.leafNodes groupId (r.leafNodes groupId ++ [leafNode]) })
  | .ownLeafNodes groupId => (.leafNodes (r.leafNodes groupId), r)
  | .deleteOwnLeafNodes groupId => (.done, { r with leafNodes := Function.update r.leafNodes groupId [] })
  | .queueProposal groupId proposalRef proposal =>
    (.done, { r with queue := Function.update r.queue groupId (requeued proposalRef proposal (r.queue groupId)) })
  | .queuedProposalRefs groupId => (.proposalRefs ((r.queue groupId).map Prod.fst), r)
  | .queuedProposals groupId => (.proposals (r.queue groupId), r)
  | .removeProposal groupId proposalRef =>
    (.done, { r with queue := Function.update r.queue groupId ((r.queue groupId).filter fun x => x.1 ≠ proposalRef) })
  | .clearProposalQueue groupId => (.done, { r with queue := Function.update r.queue groupId [] })
  | .writeEncryptionEpochKeyPairs groupId epoch leafIndex keyPairs =>
    (.done, { r with epochKeyPairs := Function.update r.epochKeyPairs (groupId, epoch, leafIndex) keyPairs })
  | .encryptionEpochKeyPairs groupId epoch leafIndex => (.keyPairs (r.epochKeyPairs (groupId, epoch, leafIndex)), r)
  | .deleteEncryptionEpochKeyPairs groupId epoch leafIndex =>
    (.done, { r with epochKeyPairs := Function.update r.epochKeyPairs (groupId, epoch, leafIndex) [] })

noncomputable def run : Reference T → List (Call T) → List (Answer T) × Reference T
  | r, [] => ([], r)
  | r, call :: calls => ((r.step call).1 :: (run (r.step call).2 calls).1, (run (r.step call).2 calls).2)

end Reference

/-! ## The refinement -/

/-- The tables hold what the reference holds. -/
structure Refines (s : Store) (r : Reference T) : Prop where
  values : ∀ k key, s.values (k.storeType, J.key k key) = (r.values k key).map (J.entity k).encode
  leafNodes : ∀ g, (s.lists (stOwnLeafNodes, J.groupId g)).map Prod.snd = (r.leafNodes g).map J.leafNode.encode
  refs : ∀ g, (s.lists (stProposalRefs, J.groupId g)).map Prod.snd = (r.queue g).map fun x => J.proposalRef.encode x.1
  queued : ∀ g, ∀ x ∈ r.queue g, s.values (stProposals, compoundKey J g x.1) = some (J.queuedProposal.encode x.2)
  unqueued : ∀ g ref, ref ∉ (r.queue g).map Prod.fst → s.values (stProposals, compoundKey J g ref) = none
  epochKeyPairs : ∀ g e i, (s.epochKeyPairs (J.groupId g, J.epochKey e, i)).getD (J.hpkeKeyPairs.encode []) =
    J.hpkeKeyPairs.encode (r.epochKeyPairs (g, e, i))
  ordered : ∀ key, ((s.lists key).map Prod.fst).Pairwise (· < ·)

section
variable {J} {s : Store} {r : Reference T} {storeType : String} {key : Bytes}

theorem Refines.start : Refines J {} {} where
  values k key := rfl
  leafNodes g := rfl
  refs g := rfl
  queued g x hx := by cases hx
  unqueued g ref _ := rfl
  epochKeyPairs g e i := rfl
  ordered key := .nil

/-! ### Keys -/

theorem find_storeType (k : Kind) : Kind.all.find? (fun k' => k'.storeType = k.storeType) = some k := by
  cases k <;> decide

theorem storeType_injective : Function.Injective Kind.storeType := by
  intro k k' h
  have hk := find_storeType k
  rw [h, find_storeType k'] at hk
  exact (Option.some.inj hk).symm

theorem storeType_ne_proposals (k : Kind) : k.storeType ≠ stProposals := by cases k <;> decide

theorem compoundKey_inj {g g' : T.GroupId} {ref ref' : T.ProposalRef} (h : compoundKey J g ref = compoundKey J g' ref') :
    g = g' ∧ ref = ref' :=
  have hpair := JsonBytes.pair_injective h
  ⟨J.groupId_injective hpair.1, J.proposalRef.encode_injective hpair.2⟩

/-! ### Lists -/

theorem lt_nextListIndex {rows : List (Int × Bytes)} {i : Int} (h : i ∈ rows.map Prod.fst) : i < Store.nextListIndex rows := by
  unfold Store.nextListIndex
  cases hmax : (rows.map Prod.fst).max? with
  | none =>
    rw [List.max?_eq_none_iff.1 hmax] at h
    cases h
  | some m =>
    have hle := (List.max?_eq_some_iff.1 hmax).2 i h
    exact Int.lt_add_one_of_le hle

theorem readList_ok {c : Codec α} {l : List α} (hordered : ((s.lists (storeType, key)).map Prod.fst).Pairwise (· < ·))
    (hrows : (s.lists (storeType, key)).map Prod.snd = l.map c.encode) : s.readList c storeType key = .ok l := by
  have hsorted : (s.lists (storeType, key)).insertionSort (fun a b => a.1 ≤ b.1) = s.lists (storeType, key) :=
    List.Pairwise.insertionSort_eq ((List.pairwise_map.1 hordered).imp fun h => Int.le_of_lt h)
  rw [Store.readList, hsorted, mapM_eq_ok]
  have hmap : (s.lists (storeType, key)).map (fun row => deserializeEntity c row.2) =
      ((s.lists (storeType, key)).map Prod.snd).map (deserializeEntity c) := by rw [List.map_map]; rfl
  rw [hmap, hrows, List.map_map]
  refine List.map_congr_left fun a _ => ?_
  rw [Function.comp, deserializeEntity, c.decode_encode]
  rfl

theorem ordered_update (h : ∀ key, ((s.lists key).map Prod.fst).Pairwise (· < ·)) {at_ : String × Bytes}
    {rows : List (Int × Bytes)} (hrows : (rows.map Prod.fst).Pairwise (· < ·)) (key : String × Bytes) :
    ((Function.update s.lists at_ rows key).map Prod.fst).Pairwise (· < ·) := by
  by_cases hkey : key = at_
  · rw [hkey, Function.update_self]
    exact hrows
  · rw [Function.update_of_ne hkey]
    exact h key

theorem ordered_append {rows : List (Int × Bytes)} (h : (rows.map Prod.fst).Pairwise (· < ·)) (value : Bytes) :
    ((rows ++ [(Store.nextListIndex rows, value)]).map Prod.fst).Pairwise (· < ·) := by
  rw [List.map_append, List.pairwise_append]
  refine ⟨h, List.pairwise_singleton _ _, fun i hi j hj => ?_⟩
  rw [List.mem_singleton.1 hj]
  exact lt_nextListIndex hi

/-! ### Writes -/

open Classical in
theorem Refines.setValue (h : Refines J s r) (k : Kind) (key : T.Key k) (entity : Option (T.Entity k)) :
    Refines J { s with values := Function.update s.values (k.storeType, J.key k key) (entity.map (J.entity k).encode) }
      (r.setValue k key entity) where
  values k' key' := by
    dsimp only [Reference.setValue]
    by_cases hk : k' = k
    · subst hk
      rw [Function.update_self]
      by_cases hkey : key' = key
      · rw [hkey, Function.update_self, Function.update_self]
      · rw [Function.update_of_ne hkey, Function.update_of_ne fun he => hkey (J.key_injective k' (Prod.mk.inj he).2)]
        exact h.values k' key'
    · rw [Function.update_of_ne hk, Function.update_of_ne fun he => hk (storeType_injective (Prod.mk.inj he).1)]
      exact h.values k' key'
  leafNodes := h.leafNodes
  refs := h.refs
  queued g x hx := by
    dsimp only
    rw [Function.update_of_ne fun he => storeType_ne_proposals k (Prod.mk.inj he).1.symm]
    exact h.queued g x hx
  unqueued g ref href := by
    dsimp only
    rw [Function.update_of_ne fun he => storeType_ne_proposals k (Prod.mk.inj he).1.symm]
    exact h.unqueued g ref href
  epochKeyPairs := h.epochKeyPairs
  ordered := h.ordered

open Classical in
theorem Refines.setLeafNodes (h : Refines J s r) (g : T.GroupId) {rows : List (Int × Bytes)} {leafNodes : List T.LeafNode}
    (hrows : rows.map Prod.snd = leafNodes.map J.leafNode.encode) (hordered : (rows.map Prod.fst).Pairwise (· < ·)) :
    Refines J { s with lists := Function.update s.lists (stOwnLeafNodes, J.groupId g) rows }
      { r with leafNodes := Function.update r.leafNodes g leafNodes } where
  values := h.values
  leafNodes g' := by
    dsimp only
    by_cases hg : g' = g
    · rw [hg, Function.update_self, Function.update_self]
      exact hrows
    · rw [Function.update_of_ne hg, Function.update_of_ne fun he => hg (J.groupId_injective (Prod.mk.inj he).2)]
      exact h.leafNodes g'
  refs g' := by
    dsimp only
    rw [Function.update_of_ne fun he => absurd (Prod.mk.inj he).1 (by decide)]
    exact h.refs g'
  queued := h.queued
  unqueued := h.unqueued
  epochKeyPairs := h.epochKeyPairs
  ordered := ordered_update h.ordered hordered

open Classical in
theorem Refines.setQueue (h : Refines J s r) (g : T.GroupId) {values : String × Bytes → Option Bytes} {rows : List (Int × Bytes)}
    {queue : List (T.ProposalRef × T.QueuedProposal)} (hrows : rows.map Prod.snd = queue.map fun x => J.proposalRef.encode x.1)
    (hordered : (rows.map Prod.fst).Pairwise (· < ·))
    (hothers : ∀ key, (∀ ref, key ≠ (stProposals, compoundKey J g ref)) → values key = s.values key)
    (hqueued : ∀ x ∈ queue, values (stProposals, compoundKey J g x.1) = some (J.queuedProposal.encode x.2))
    (hunqueued : ∀ ref, ref ∉ queue.map Prod.fst → values (stProposals, compoundKey J g ref) = none) :
    Refines J { s with values, lists := Function.update s.lists (stProposalRefs, J.groupId g) rows }
      { r with queue := Function.update r.queue g queue } where
  values k key := by
    dsimp only
    rw [hothers _ fun ref he => storeType_ne_proposals k (Prod.mk.inj he).1]
    exact h.values k key
  leafNodes g' := by
    dsimp only
    rw [Function.update_of_ne fun he => absurd (Prod.mk.inj he).1 (by decide)]
    exact h.leafNodes g'
  refs g' := by
    dsimp only
    by_cases hg : g' = g
    · rw [hg, Function.update_self, Function.update_self]
      exact hrows
    · rw [Function.update_of_ne hg, Function.update_of_ne fun he => hg (J.groupId_injective (Prod.mk.inj he).2)]
      exact h.refs g'
  queued g' x hx := by
    dsimp only at hx ⊢
    by_cases hg : g' = g
    · rw [hg, Function.update_self] at hx
      rw [hg]
      exact hqueued x hx
    · rw [Function.update_of_ne hg] at hx
      rw [hothers _ fun ref he => hg (compoundKey_inj (Prod.mk.inj he).2).1]
      exact h.queued g' x hx
  unqueued g' ref href := by
    dsimp only at href ⊢
    by_cases hg : g' = g
    · rw [hg, Function.update_self] at href
      rw [hg]
      exact hunqueued ref href
    · rw [Function.update_of_ne hg] at href
      rw [hothers _ fun ref' he => hg (compoundKey_inj (Prod.mk.inj he).2).1]
      exact h.unqueued g' ref href
  epochKeyPairs := h.epochKeyPairs
  ordered := ordered_update h.ordered hordered

open Classical in
theorem Refines.setEpochKeyPairs (h : Refines J s r) (g : T.GroupId) (e : T.EpochKey) (i : UInt32) {blob : Option Bytes}
    {keyPairs : List T.HpkeKeyPair} (hblob : blob.getD (J.hpkeKeyPairs.encode []) = J.hpkeKeyPairs.encode keyPairs) :
    Refines J { s with epochKeyPairs := Function.update s.epochKeyPairs (J.groupId g, J.epochKey e, i) blob }
      { r with epochKeyPairs := Function.update r.epochKeyPairs (g, e, i) keyPairs } where
  values := h.values
  leafNodes := h.leafNodes
  refs := h.refs
  queued := h.queued
  unqueued := h.unqueued
  epochKeyPairs g' e' i' := by
    dsimp only
    by_cases hkey : (g', e', i') = (g, e, i)
    · cases hkey
      rw [Function.update_self, Function.update_self]
      exact hblob
    · have hbytes : (J.groupId g', J.epochKey e', i') ≠ (J.groupId g, J.epochKey e, i) := fun he => hkey (by
        obtain ⟨hg, he⟩ := Prod.mk.inj he
        obtain ⟨he, hi⟩ := Prod.mk.inj he
        rw [J.groupId_injective hg, J.epochKey_injective he, hi])
      rw [Function.update_of_ne hkey, Function.update_of_ne hbytes]
      exact h.epochKeyPairs g' e' i'
  ordered := h.ordered

/-! ### The queue -/

theorem writeValue_of_ne {at_ : String × Bytes} (h : at_ ≠ (storeType, key)) (value : Bytes) :
    (s.writeValue storeType key value).values at_ = s.values at_ := Function.update_of_ne h ..

theorem deleteValue_of_ne {at_ : String × Bytes} (h : at_ ≠ (storeType, key)) :
    (s.deleteValue storeType key).values at_ = s.values at_ := Function.update_of_ne h ..

theorem proposalKey_ne {g : T.GroupId} {ref ref' : T.ProposalRef} (h : ref' ≠ ref) :
    (stProposals, compoundKey J g ref') ≠ (stProposals, compoundKey J g ref) :=
  fun he => h (compoundKey_inj (Prod.mk.inj he).2).2

theorem requeued_refs (ref : T.ProposalRef) (proposal : T.QueuedProposal) (queue : List (T.ProposalRef × T.QueuedProposal)) :
    (Reference.requeued ref proposal queue).map Prod.fst = queue.map Prod.fst ++ [ref] := by
  rw [Reference.requeued, List.map_append, List.map_map]
  congr 1
  refine List.map_congr_left fun x _ => ?_
  dsimp only [Function.comp]
  split
  · rename_i hx
    exact hx.symm
  · rfl

theorem Refines.queueProposal (h : Refines J s r) (g : T.GroupId) (ref : T.ProposalRef) (proposal : T.QueuedProposal) :
    Refines J (s.queueProposal J g ref proposal) (r.step (.queueProposal g ref proposal)).2 := by
  have hrefs : (Reference.requeued ref proposal (r.queue g)).map (fun x => J.proposalRef.encode x.1) =
      (r.queue g).map (fun x => J.proposalRef.encode x.1) ++ [J.proposalRef.encode ref] := by
    have hmap := congrArg (List.map J.proposalRef.encode) (requeued_refs ref proposal (r.queue g))
    rw [List.map_append, List.map_map, List.map_map] at hmap
    exact hmap
  refine h.setQueue g ?_ (ordered_append (h.ordered _) _) (fun key hkey => ?_) (fun x hx => ?_) fun ref' href' => ?_
  · rw [List.map_append, hrefs]
    exact congrArg (· ++ [J.proposalRef.encode ref]) (h.refs g)
  · exact Function.update_of_ne (hkey ref) ..
  · rcases List.mem_append.1 hx with hx | hx
    · obtain ⟨y, hy, rfl⟩ := List.mem_map.1 hx
      by_cases hyref : y.1 = ref
      · rw [if_pos hyref]
        exact Function.update_self ..
      · rw [if_neg hyref, writeValue_of_ne (proposalKey_ne hyref)]
        exact h.queued g y hy
    · rw [List.mem_singleton.1 hx]
      exact Function.update_self ..
  · rw [requeued_refs, List.mem_append, not_or, List.mem_singleton] at href'
    rw [writeValue_of_ne (proposalKey_ne href'.2)]
    exact h.unqueued g ref' href'.1

open Classical in
theorem Refines.removeProposal (h : Refines J s r) (g : T.GroupId) (ref : T.ProposalRef) :
    Refines J (s.removeProposal J g ref) (r.step (.removeProposal g ref)).2 := by
  refine h.setQueue g ?_ ((h.ordered _).sublist (List.filter_sublist.map _)) (fun key hkey => ?_) (fun x hx => ?_)
    fun ref' href' => ?_
  · have hfilter : (s.lists (stProposalRefs, J.groupId g)).filter (fun row => row.2 ≠ J.proposalRef.encode ref) =
        (s.lists (stProposalRefs, J.groupId g)).filter ((fun value => value ≠ J.proposalRef.encode ref) ∘ Prod.snd) := rfl
    change ((s.lists (stProposalRefs, J.groupId g)).filter fun row => row.2 ≠ J.proposalRef.encode ref).map Prod.snd = _
    rw [hfilter, ← List.filter_map, h.refs, List.filter_map]
    congr 1
    refine List.filter_congr fun x _ => decide_eq_decide.2 (not_congr ?_)
    exact J.proposalRef.encode_injective.eq_iff
  · exact Function.update_of_ne (hkey ref) ..
  · obtain ⟨hx, hxref⟩ := List.mem_filter.1 hx
    rw [deleteValue_of_ne (proposalKey_ne (of_decide_eq_true hxref))]
    exact h.queued g x hx
  · by_cases href : ref' = ref
    · rw [href]
      exact Function.update_self ..
    · rw [deleteValue_of_ne (proposalKey_ne href)]
      refine h.unqueued g ref' fun hmem => href' ?_
      obtain ⟨x, hx, rfl⟩ := List.mem_map.1 hmem
      exact List.mem_map_of_mem (List.mem_filter.2 ⟨hx, decide_eq_true href⟩)

theorem foldl_deleteValue (g : T.GroupId) (refs : List T.ProposalRef) (s : Store) :
    refs.foldl (fun s ref => s.deleteValue stProposals (compoundKey J g ref)) s =
      { s with
        values := fun key => if key ∈ refs.map (fun ref => (stProposals, compoundKey J g ref)) then none else s.values key } := by
  induction refs generalizing s with
  | nil => rfl
  | cons ref refs ih =>
    rw [List.foldl_cons, ih, Store.deleteValue]
    congr 1
    funext key
    by_cases hkey : key = (stProposals, compoundKey J g ref)
    · simp [hkey]
    · simp [hkey]

theorem Refines.clearProposalQueue (h : Refines J s r) (g : T.GroupId) :
    ∃ s', s.clearProposalQueue J g = .ok s' ∧ Refines J s' (r.step (.clearProposalQueue g)).2 := by
  have hread : s.readList J.proposalRef stProposalRefs (J.groupId g) = .ok ((r.queue g).map Prod.fst) :=
    readList_ok (h.ordered _) (by rw [List.map_map]; exact h.refs g)
  refine ⟨_, by rw [Store.clearProposalQueue, hread]; rfl, ?_⟩
  rw [foldl_deleteValue]
  refine h.setQueue g rfl .nil (fun key hkey => if_neg fun hmem => ?_) (fun x hx => by cases hx) fun ref _ => ?_
  · obtain ⟨ref, -, rfl⟩ := List.mem_map.1 hmem
    exact hkey ref rfl
  · by_cases href : ref ∈ (r.queue g).map Prod.fst
    · exact if_pos (List.mem_map_of_mem href)
    · dsimp only
      rw [if_neg fun hmem => ?_]
      · exact h.unqueued g ref href
      · obtain ⟨ref', href', he⟩ := List.mem_map.1 hmem
        exact href ((compoundKey_inj (Prod.mk.inj he).2).2 ▸ href')

/-! ### Reads -/

theorem Refines.readValue (h : Refines J s r) (k : Kind) (key : T.Key k) :
    s.readValue (J.entity k) k.storeType (J.key k key) = .ok (r.values k key) := by
  rw [Store.readValue, h.values]
  cases r.values k key with
  | none => rfl
  | some e =>
    dsimp only [Option.map_some]
    rw [deserializeEntity, (J.entity k).decode_encode]
    rfl

theorem Refines.queuedProposals (h : Refines J s r) (g : T.GroupId) : s.queuedProposals J g = .ok (r.queue g) := by
  have hread : s.readList J.proposalRef stProposalRefs (J.groupId g) = .ok ((r.queue g).map Prod.fst) :=
    readList_ok (h.ordered _) (by rw [List.map_map]; exact h.refs g)
  have hfound : ((r.queue g).map Prod.fst).mapM (fun ref => (s.readValue J.queuedProposal stProposals (compoundKey J g ref)).map
      (·.map (ref, ·))) = .ok ((r.queue g).map some) := by
    rw [mapM_eq_ok, List.map_map, List.map_map]
    refine List.map_congr_left fun x hx => ?_
    dsimp only [Function.comp]
    rw [Store.readValue, h.queued g x hx]
    dsimp only
    rw [deserializeEntity, J.queuedProposal.decode_encode]
    rfl
  refine bind_eq_ok.2 ⟨_, hread, bind_eq_ok.2 ⟨_, hfound, congrArg Except.ok ?_⟩⟩
  have hfound : ((r.queue g).map some).reduceOption = ((r.queue g).map some).filterMap id := rfl
  rw [hfound, List.filterMap_map]
  exact List.filterMap_some

theorem Refines.encryptionEpochKeyPairs (h : Refines J s r) (g : T.GroupId) (e : T.EpochKey) (i : UInt32) :
    s.encryptionEpochKeyPairs J g e i = .ok (r.epochKeyPairs (g, e, i)) := by
  have hpairs := h.epochKeyPairs g e i
  unfold Store.encryptionEpochKeyPairs
  cases hblob : s.epochKeyPairs (J.groupId g, J.epochKey e, i) with
  | none =>
    rw [hblob] at hpairs
    rw [← J.hpkeKeyPairs.encode_injective hpairs]
  | some blob =>
    rw [hblob] at hpairs
    dsimp only [Option.getD_some] at hpairs ⊢
    rw [hpairs, deserializeEntity, J.hpkeKeyPairs.decode_encode]
    rfl

/-! ### Runs -/

theorem Refines.step (h : Refines J s r) (call : Call T) :
    (s.step J call).1 = .ok (r.step call).1 ∧ Refines J (s.step J call).2 (r.step call).2 := by
  cases call with
  | write k key entity => exact ⟨rfl, h.setValue k key (some entity)⟩
  | read k key => exact ⟨by rw [Store.step, h.readValue]; rfl, h⟩
  | delete k key => exact ⟨rfl, h.setValue k key none⟩
  | appendOwnLeafNode g leafNode =>
    refine ⟨rfl, h.setLeafNodes g ?_ (ordered_append (h.ordered _) _)⟩
    rw [List.map_append, List.map_append, h.leafNodes]
    rfl
  | ownLeafNodes g => exact ⟨by rw [Store.step, readList_ok (h.ordered _) (h.leafNodes g)]; rfl, h⟩
  | deleteOwnLeafNodes g => exact ⟨rfl, h.setLeafNodes g rfl .nil⟩
  | queueProposal g ref proposal => exact ⟨rfl, h.queueProposal g ref proposal⟩
  | queuedProposalRefs g =>
    have hread : s.readList J.proposalRef stProposalRefs (J.groupId g) = .ok ((r.queue g).map Prod.fst) :=
      readList_ok (h.ordered _) (by rw [List.map_map]; exact h.refs g)
    exact ⟨by rw [Store.step, hread]; rfl, h⟩
  | queuedProposals g => exact ⟨by rw [Store.step, h.queuedProposals]; rfl, h⟩
  | removeProposal g ref => exact ⟨rfl, h.removeProposal g ref⟩
  | clearProposalQueue g =>
    obtain ⟨s', hs', h'⟩ := h.clearProposalQueue g
    rw [Store.step, hs']
    exact ⟨rfl, h'⟩
  | writeEncryptionEpochKeyPairs g e i keyPairs => exact ⟨rfl, h.setEpochKeyPairs g e i rfl⟩
  | encryptionEpochKeyPairs g e i => exact ⟨by rw [Store.step, h.encryptionEpochKeyPairs]; rfl, h⟩
  | deleteEncryptionEpochKeyPairs g e i => exact ⟨rfl, h.setEpochKeyPairs g e i rfl⟩

theorem Refines.run (h : Refines J s r) (calls : List (Call T)) :
    (Store.run J s calls).1 = (r.run calls).1.map .ok ∧ Refines J (Store.run J s calls).2 (r.run calls).2 := by
  induction calls generalizing s r with
  | nil => exact ⟨rfl, h⟩
  | cons call calls ih =>
    obtain ⟨hanswer, hstep⟩ := h.step call
    obtain ⟨hanswers, hrun⟩ := ih hstep
    exact ⟨congrArg₂ List.cons hanswer hanswers, hrun⟩

theorem run_append (s : Store) (calls calls' : List (Call T)) :
    (Store.run J s (calls ++ calls')).2 = (Store.run J (Store.run J s calls).2 calls').2 := by
  induction calls generalizing s with
  | nil => rfl
  | cons call calls ih => exact ih _

def Gone (J : Json T) (s : Store) (g : T.GroupId) (ref : T.ProposalRef) : Prop :=
  J.proposalRef.encode ref ∉ (s.lists (stProposalRefs, J.groupId g)).map Prod.snd ∧
    s.values (stProposals, compoundKey J g ref) = none

theorem Refines.gone_of_not_mem (h : Refines J s r) {g : T.GroupId} {ref : T.ProposalRef}
    (href : ref ∉ (r.queue g).map Prod.fst) :
    Gone J s g ref := by
  refine ⟨fun hmem => href ?_, h.unqueued g ref href⟩
  rw [h.refs] at hmem
  obtain ⟨x, hx, he⟩ := List.mem_map.1 hmem
  exact J.proposalRef.encode_injective he ▸ List.mem_map_of_mem hx

end

/-- Every sequence of calls is answered as the reference answers it; and after a proposal was removed or the queue was cleared,
nothing is left of the proposal or of any. -/
theorem store_refines (J : Json T) (calls : List (Call T)) :
    (Store.run J {} calls).1 = (Reference.run {} calls).1.map .ok ∧
      (∀ g ref, Gone J (Store.run J {} (calls ++ [.removeProposal g ref])).2 g ref) ∧
      ∀ g ref, Gone J (Store.run J {} (calls ++ [.clearProposalQueue g])).2 g ref := by
  obtain ⟨hanswers, hrun⟩ := Refines.start.run (J := J) calls
  refine ⟨hanswers, fun g ref => ?_, fun g ref => ?_⟩
  · rw [run_append]
    refine (hrun.step (.removeProposal g ref)).2.gone_of_not_mem ?_
    simp [Reference.step]
  · rw [run_append]
    refine (hrun.step (.clearProposalQueue g)).2.gone_of_not_mem ?_
    simp [Reference.step]

/-! ## A reference that is queued twice -/

def boolCodec : Codec Bool where
  encode b := if b then [116, 114, 117, 101] else [102, 97, 108, 115, 101]
  decode bytes :=
    if bytes = [116, 114, 117, 101] then .ok true
    else if bytes = [102, 97, 108, 115, 101] then .ok false
    else .error "expected value"
  decode_encode := by decide

def boolTypes : Types := ⟨Bool, Bool, Bool, Bool, Bool, Empty, fun _ => Bool, fun _ => Bool⟩

def noPairs : Codec (List Empty) where
  encode _ := [91, 93]
  decode bytes := if bytes = [91, 93] then .ok [] else .error "expected value"
  decode_encode l := by
    cases l with
    | nil => rfl
    | cons e l => exact e.elim

def boolJson : Json boolTypes where
  groupId := boolCodec.encode
  groupId_injective := boolCodec.encode_injective
  epochKey := boolCodec.encode
  epochKey_injective := boolCodec.encode_injective
  key _ := boolCodec.encode
  key_injective _ := boolCodec.encode_injective
  entity _ := boolCodec
  proposalRef := boolCodec
  queuedProposal := boolCodec
  leafNode := boolCodec
  hpkeKeyPairs := noPairs

/-- A reference that is queued twice is listed twice. -/
theorem requeued_ref_listed_twice :
    ¬∀ (calls : List (Call boolTypes)) (g : Bool) (refs : List Bool),
      (Store.run boolJson {} (calls ++ [.queuedProposalRefs g])).1.getLast? = some (.ok (.proposalRefs refs)) → refs.Nodup := by
  intro h
  exact absurd (h [.queueProposal true true false, .queueProposal true true true] true [true, true] rfl) (by decide)

end HaexVault.Mls.Storage
