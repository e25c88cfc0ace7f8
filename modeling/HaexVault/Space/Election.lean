import Mathlib.Data.List.Sort
import Mathlib.Data.List.Nodup
import Mathlib.Data.String.Basic
/-!
# Leader election (`space_delivery/local/election.rs`, `discovery.rs`)

A device reads the candidates of a space in the order of their priorities, probes all of them but
itself, and takes the first that answers (`electLeader_eq`); the devices of one reachability class
take the same one (`leaders_agree`). What a probe needs is parsed by `iroh` (`Iroh`).
-/

namespace HaexVault.Space

/-- A row of `haex_space_devices`, as the election reads it. -/
structure SpaceDevice where
  spaceId : String
  endpointId : String
  relayUrl : Option String
  leaderPriority : Option Int
  deriving DecidableEq

/-! ## Candidates -/

structure DeviceCandidate where
  endpointId : String
  relayUrl : Option String
  priority : Int
  deriving DecidableEq

def asI32 (n : Int) : Int := n.bmod (2 ^ 32)

/-- `leader_priority` ascending; SQLite puts nulls first. -/
def priorityLe : Option Int → Option Int → Bool
  | none, _ => true
  | some _, none => false
  | some a, some b => a ≤ b

def deviceLe (a b : SpaceDevice) : Prop :=
  priorityLe a.leaderPriority b.leaderPriority = true ∧
    (priorityLe b.leaderPriority a.leaderPriority = true → a.endpointId ≤ b.endpointId)

instance : DecidableRel deviceLe := fun _ _ => inferInstanceAs (Decidable (_ ∧ _))

def SpaceDevice.toCandidate (d : SpaceDevice) : DeviceCandidate :=
  ⟨d.endpointId, d.relayUrl, asI32 (d.leaderPriority.getD 10)⟩

def spaceDevices (rows : List SpaceDevice) (spaceId : String) : List SpaceDevice :=
  (rows.filter (·.spaceId = spaceId)).insertionSort deviceLe

def getSpaceDeviceCandidates (rows : List SpaceDevice) (spaceId : String) : List DeviceCandidate :=
  (spaceDevices rows spaceId).map (·.toCandidate)

/-! ## Probes -/

/-- What the election uses of `iroh`: parsing, and whether a connection is there within five seconds. -/
structure Iroh (EndpointId RelayUrl : Type) where
  parseId : String → Option EndpointId
  parseRelay : String → Option RelayUrl
  connect : EndpointId → Option RelayUrl → Bool

section Probe
variable {EndpointId RelayUrl : Type}

/-- The outcome of one probe. -/
def probe (iroh : Iroh EndpointId RelayUrl) (ownEndpointId : String) (c : DeviceCandidate) : Bool :=
  if c.endpointId = ownEndpointId then true
  else match iroh.parseId c.endpointId with
    | none => false
    | some id => iroh.connect id (c.relayUrl.bind iroh.parseRelay)

def position (order : List String) (c : DeviceCandidate) : Nat := (order.idxOf? c.endpointId).getD (2 ^ 64 - 1)

/-- `probe_reachable_candidates`; `completed` is the order in which the probes come back. -/
def probeReachableCandidates (endpoint : Option (Iroh EndpointId RelayUrl))
    (completed : List DeviceCandidate → List DeviceCandidate) (candidates : List DeviceCandidate) (ownEndpointId : String) :
    List DeviceCandidate :=
  match endpoint with
  | none => candidates.filter (·.endpointId = ownEndpointId)
  | some iroh =>
    ((completed candidates).filter (probe iroh ownEndpointId)).insertionSort fun a b =>
      position (candidates.map (·.endpointId)) a ≤ position (candidates.map (·.endpointId)) b

def selectLeader (reachable : List DeviceCandidate) : Option DeviceCandidate := reachable.head?

inductive ElectionResult where
  | selfIsLeader
  | remoteLeader (endpointId : String) (relayUrl : Option String) (priority : Int)
  | noLeaderFound
  deriving DecidableEq

/-- `elect_leader`. -/
def electLeader (rows : List SpaceDevice) (endpoint : Option (Iroh EndpointId RelayUrl))
    (completed : List DeviceCandidate → List DeviceCandidate) (spaceId ownEndpointId : String) : ElectionResult :=
  let candidates := getSpaceDeviceCandidates rows spaceId
  if candidates = [] then .noLeaderFound
  else
    let reachable := probeReachableCandidates endpoint completed candidates ownEndpointId
    if reachable = [] then .noLeaderFound
    else match selectLeader reachable with
      | some candidate =>
        if candidate.endpointId = ownEndpointId then .selfIsLeader
        else .remoteLeader candidate.endpointId candidate.relayUrl candidate.priority
      | none => .noLeaderFound

end Probe

/-- The endpoint of the leader a device has elected. -/
def ElectionResult.leader (ownEndpointId : String) : ElectionResult → Option String
  | selfIsLeader => some ownEndpointId
  | remoteLeader endpointId _ _ => some endpointId
  | noLeaderFound => none

/-! ## The order of the query -/

theorem priorityLe_total (a b : Option Int) : priorityLe a b = true ∨ priorityLe b a = true := by
  cases a <;> cases b <;> simp [priorityLe]
  omega

theorem priorityLe_trans {a b c : Option Int} (hab : priorityLe a b = true) (hbc : priorityLe b c = true) :
    priorityLe a c = true := by
  cases a <;> cases b <;> cases c <;> simp_all [priorityLe]
  omega

instance : Std.Total deviceLe where
  total a b := by
    by_cases hab : priorityLe a.leaderPriority b.leaderPriority = true
    · by_cases hba : priorityLe b.leaderPriority a.leaderPriority = true
      · rcases le_total a.endpointId b.endpointId with h | h
        · exact .inl ⟨hab, fun _ => h⟩
        · exact .inr ⟨hba, fun _ => h⟩
      · exact .inl ⟨hab, fun h => absurd h hba⟩
    · exact .inr ⟨(priorityLe_total _ _).resolve_left hab, fun h => absurd h hab⟩

instance : IsTrans SpaceDevice deviceLe where
  trans _ _ _ hab hbc :=
    ⟨priorityLe_trans hab.1 hbc.1, fun hca =>
      le_trans (hab.2 (priorityLe_trans hbc.1 hca)) (hbc.2 (priorityLe_trans hca hab.1))⟩

theorem endpointId_eq_of_deviceLe {a b : SpaceDevice} (hab : deviceLe a b) (hba : deviceLe b a) : a.endpointId = b.endpointId :=
  le_antisymm (hab.2 hba.1) (hba.2 hab.1)

theorem insertionSort_eq_of_perm {α : Type} {r : α → α → Prop} [DecidableRel r] [Std.Total r] [IsTrans α r] {l l' : List α}
    (hperm : l.Perm l') (hsorted : l'.Pairwise r) (hanti : ∀ a ∈ l', ∀ b ∈ l', r a b → r b a → a = b) :
    l.insertionSort r = l' := by
  have hp : (l.insertionSort r).Perm l' := (List.perm_insertionSort r l).trans hperm
  refine hp.eq_of_pairwise (fun a b ha hb => hanti a (hp.mem_iff.1 ha) b hb) (List.pairwise_insertionSort r l) hsorted

theorem map_toCandidate_endpointId (l : List SpaceDevice) :
    (l.map (·.toCandidate)).map (·.endpointId) = l.map (·.endpointId) := by
  rw [List.map_map]
  rfl

theorem spaceDevices_perm {rows rows' : List SpaceDevice} {s : String}
    (h : (rows.filter (·.spaceId = s)).Perm (rows'.filter (·.spaceId = s)))
    (hnodup : ((rows.filter (·.spaceId = s)).map (·.endpointId)).Nodup) : spaceDevices rows s = spaceDevices rows' s := by
  have hperm : (rows.filter (·.spaceId = s)).Perm (spaceDevices rows' s) :=
    h.trans (List.perm_insertionSort deviceLe _).symm
  refine insertionSort_eq_of_perm hperm (List.pairwise_insertionSort deviceLe _) fun a ha b hb hab hba => ?_
  exact List.inj_on_of_nodup_map hnodup (hperm.mem_iff.2 ha) (hperm.mem_iff.2 hb) (endpointId_eq_of_deviceLe hab hba)

/-! ## The outcome -/

section Outcome
variable {EndpointId RelayUrl : Type} {iroh : Iroh EndpointId RelayUrl}
  {completed : List DeviceCandidate → List DeviceCandidate} {own : String}

theorem probeReachableCandidates_eq (hcompleted : ∀ l, (completed l).Perm l) {candidates : List DeviceCandidate}
    (hnodup : (candidates.map (·.endpointId)).Nodup) :
    probeReachableCandidates (some iroh) completed candidates own = candidates.filter (probe iroh own) := by
  have hposition : ∀ i (hi : i < candidates.length), position (candidates.map (·.endpointId)) candidates[i] = i := by
    intro i hi
    have hi' : i < (candidates.map (·.endpointId)).length := by simpa using hi
    have hidx : (candidates.map (·.endpointId)).idxOf? candidates[i].endpointId = some i := by
      rw [List.idxOf?_eq_some_iff]
      refine ⟨hi', by simp, fun j hj he => ?_⟩
      have hj' : j < (candidates.map (·.endpointId)).length := by omega
      have hij : j = i := (List.Nodup.getElem_inj_iff hnodup).1 (show
        (candidates.map (·.endpointId))[j] = (candidates.map (·.endpointId))[i] by simpa using he)
      omega
    simp [position, hidx]
  have hsorted : candidates.Pairwise fun a b =>
      position (candidates.map (·.endpointId)) a ≤ position (candidates.map (·.endpointId)) b := by
    rw [List.pairwise_iff_getElem]
    intro i j hi hj hij
    rw [hposition i hi, hposition j hj]
    omega
  refine insertionSort_eq_of_perm ((hcompleted candidates).filter _) (hsorted.sublist List.filter_sublist) ?_
  intro a ha b hb hab hba
  obtain ⟨i, hi, rfl⟩ := List.getElem_of_mem (List.mem_filter.1 ha).1
  obtain ⟨j, hj, rfl⟩ := List.getElem_of_mem (List.mem_filter.1 hb).1
  rw [hposition i hi, hposition j hj] at hab hba
  obtain rfl : i = j := by omega
  rfl

/-- What a device elects: the first candidate that answers. -/
theorem electLeader_eq (hcompleted : ∀ l, (completed l).Perm l) {rows : List SpaceDevice} {s : String}
    (hnodup : ((rows.filter (·.spaceId = s)).map (·.endpointId)).Nodup) :
    electLeader rows (some iroh) completed s own =
      match (getSpaceDeviceCandidates rows s).filter (probe iroh own) with
      | [] => .noLeaderFound
      | c :: _ => if c.endpointId = own then .selfIsLeader else .remoteLeader c.endpointId c.relayUrl c.priority := by
  have hcandidates : ((getSpaceDeviceCandidates rows s).map (·.endpointId)).Nodup := by
    rw [getSpaceDeviceCandidates, map_toCandidate_endpointId]
    exact ((List.perm_insertionSort deviceLe _).map _).nodup_iff.2 hnodup
  unfold electLeader
  simp only [probeReachableCandidates_eq hcompleted hcandidates]
  cases hr : (getSpaceDeviceCandidates rows s).filter (probe iroh own) with
  | nil => simp
  | cons c l =>
    have hne : getSpaceDeviceCandidates rows s ≠ [] := by
      intro h
      rw [h] at hr
      cases hr
    simp [hne, selectLeader]

end Outcome

/-! ## Agreement -/

/-- The devices of a space, by their endpoint ids: the rows each holds, and whom each reaches. -/
structure Mesh (EndpointId RelayUrl : Type) where
  spaceId : String
  rows : String → List SpaceDevice
  iroh : String → Iroh EndpointId RelayUrl
  completed : String → List DeviceCandidate → List DeviceCandidate
  online : String → Prop
  reach : String → String → Prop
  same_rows : ∀ a b, online a → online b →
    ((rows a).filter (·.spaceId = spaceId)).Perm ((rows b).filter (·.spaceId = spaceId))
  distinct : ∀ a, online a → (((rows a).filter (·.spaceId = spaceId)).map (·.endpointId)).Nodup
  completed_perm : ∀ a l, (completed a l).Perm l
  refl : ∀ a, online a → reach a a
  symm : ∀ a b, reach a b → reach b a
  trans : ∀ a b c, reach a b → reach b c → reach a c
  online_of_reach : ∀ a b, reach a b → online b
  /-- A probe of another device comes back exactly when that device is reachable. -/
  probes : ∀ a, online a → ∀ d ∈ rows a, d.spaceId = spaceId → d.endpointId ≠ a →
    (probe (iroh a) a d.toCandidate = true ↔ reach a d.endpointId)

namespace Mesh
variable {EndpointId RelayUrl : Type} (M : Mesh EndpointId RelayUrl)

def Listed (a : String) : Prop := ∃ d ∈ M.rows a, d.spaceId = M.spaceId ∧ d.endpointId = a

/-- The election of one device. -/
def elect (a : String) : ElectionResult := electLeader (M.rows a) (some (M.iroh a)) (M.completed a) M.spaceId a

variable {M} {a b : String}

theorem candidates_eq (ha : M.online a) (hb : M.online b) :
    getSpaceDeviceCandidates (M.rows a) M.spaceId = getSpaceDeviceCandidates (M.rows b) M.spaceId := by
  rw [getSpaceDeviceCandidates, getSpaceDeviceCandidates, spaceDevices_perm (M.same_rows a b ha hb) (M.distinct a ha)]

theorem mem_candidates {c : DeviceCandidate} (hc : c ∈ getSpaceDeviceCandidates (M.rows a) M.spaceId) :
    ∃ d ∈ M.rows a, d.spaceId = M.spaceId ∧ d.toCandidate = c := by
  obtain ⟨d, hd, rfl⟩ := List.mem_map.1 hc
  obtain ⟨hd, hs⟩ := List.mem_filter.1 (List.mem_insertionSort deviceLe |>.1 hd)
  exact ⟨d, hd, by simpa using hs, rfl⟩

theorem probe_iff (ha : M.online a) {c : DeviceCandidate} (hc : c ∈ getSpaceDeviceCandidates (M.rows a) M.spaceId) :
    probe (M.iroh a) a c = true ↔ M.reach a c.endpointId := by
  obtain ⟨d, hd, hs, rfl⟩ := mem_candidates hc
  by_cases hself : d.endpointId = a
  · have hown : probe (M.iroh a) a d.toCandidate = true := by simp [probe, SpaceDevice.toCandidate, hself]
    have hreach : M.reach a d.toCandidate.endpointId := hself.symm ▸ M.refl a ha
    exact ⟨fun _ => hreach, fun _ => hown⟩
  · exact M.probes a ha d hd hs hself

theorem answers_eq (hab : M.reach a b) :
    (getSpaceDeviceCandidates (M.rows a) M.spaceId).filter (probe (M.iroh a) a) =
      (getSpaceDeviceCandidates (M.rows b) M.spaceId).filter (probe (M.iroh b) b) := by
  have ha : M.online a := M.online_of_reach b a (M.symm a b hab)
  have hb : M.online b := M.online_of_reach a b hab
  rw [candidates_eq ha hb]
  refine List.filter_congr fun c hc => ?_
  rw [Bool.eq_iff_iff, probe_iff ha (candidates_eq ha hb ▸ hc), probe_iff hb hc]
  exact ⟨M.trans b a _ (M.symm a b hab), M.trans a b _ hab⟩

end Mesh

/-- One device of a reachability class is the leader for every device of the class that is listed, and the only one
that finds itself to be. -/
theorem leaders_agree {EndpointId RelayUrl : Type} (M : Mesh EndpointId RelayUrl) {a : String} (ha : M.online a)
    (hlisted : M.Listed a) :
    ∃ leader, M.Listed leader ∧ M.reach a leader ∧ ∀ b, M.Listed b → M.reach a b →
      (M.elect b).leader b = some leader ∧ (M.elect b = .selfIsLeader ↔ b = leader) := by
  obtain ⟨d, hd, hs, hda⟩ := hlisted
  have hmem : d.toCandidate ∈ (getSpaceDeviceCandidates (M.rows a) M.spaceId).filter (probe (M.iroh a) a) := by
    refine List.mem_filter.2 ⟨List.mem_map.2 ⟨d, ?_, rfl⟩, by simp [probe, SpaceDevice.toCandidate, hda]⟩
    exact (List.mem_insertionSort deviceLe).2 (List.mem_filter.2 ⟨hd, by simpa using hs⟩)
  obtain ⟨c, answers, hanswers⟩ := List.exists_cons_of_ne_nil (List.ne_nil_of_mem hmem)
  -- the first to answer `a` is the first to answer every device of the class
  have hc : c ∈ (getSpaceDeviceCandidates (M.rows a) M.spaceId).filter (probe (M.iroh a) a) := by
    rw [hanswers]
    exact List.mem_cons_self
  obtain ⟨hcand, hprobe⟩ := List.mem_filter.1 hc
  have hreach : M.reach a c.endpointId := (M.probe_iff ha hcand).1 hprobe
  have helect : ∀ b, M.reach a b → M.elect b =
      if c.endpointId = b then .selfIsLeader else .remoteLeader c.endpointId c.relayUrl c.priority := by
    intro b hb
    have hon : M.online b := M.online_of_reach a b hb
    rw [Mesh.elect, electLeader_eq (M.completed_perm b) (M.distinct b hon), ← M.answers_eq hb, hanswers]
  refine ⟨c.endpointId, ?_, hreach, fun b _ hb => ?_⟩
  · obtain ⟨e, he, hes, rfl⟩ := M.mem_candidates hcand
    have hon := M.online_of_reach a _ hreach
    have hthere := (M.same_rows a _ ha hon).mem_iff.1 (List.mem_filter.2 ⟨he, decide_eq_true hes⟩)
    exact ⟨e, (List.mem_filter.1 hthere).1, hes, rfl⟩
  · rw [helect b hb]
    by_cases hown : c.endpointId = b
    · simp [hown, ElectionResult.leader]
    · simp [hown, ElectionResult.leader, Ne.symm hown]

/-! ## Three devices -/

/-- Two devices of the same priority in one network, and a third elsewhere that would come first. One of the two is in
a further space. -/
def sampleDevices : List SpaceDevice :=
  [⟨"s", "ep-b", none, some 10⟩, ⟨"s", "ep-c", none, none⟩, ⟨"s", "ep-a", none, some 10⟩]

def networkOf (e : String) : Option Nat := if e = "ep-a" ∨ e = "ep-b" then some 1 else if e = "ep-c" then some 2 else none

def sampleMesh : Mesh String String where
  spaceId := "s"
  rows a := if a = "ep-b" then ⟨"t", "ep-b", none, some 0⟩ :: sampleDevices.reverse else sampleDevices
  iroh a := ⟨some, some, fun id _ => (networkOf a).isSome && networkOf a = networkOf id⟩
  completed _ l := l.reverse
  online a := (networkOf a).isSome = true
  reach a b := (networkOf a).isSome = true ∧ networkOf a = networkOf b
  same_rows a b _ _ := by
    have h : ∀ a : String, ((if a = "ep-b" then ⟨"t", "ep-b", none, some 0⟩ :: sampleDevices.reverse
        else sampleDevices).filter (·.spaceId = "s")).Perm sampleDevices := by
      intro a
      split
      · exact List.reverse_perm sampleDevices
      · exact .refl _
    exact (h a).trans (h b).symm
  distinct a _ := by
    split
    · decide
    · decide
  completed_perm _ l := List.reverse_perm l
  refl _ ha := ⟨ha, rfl⟩
  symm _ _ h := ⟨h.2 ▸ h.1, h.2.symm⟩
  trans _ _ _ hab hbc := ⟨hab.1, hab.2.trans hbc.2⟩
  online_of_reach _ _ h := h.2 ▸ h.1
  probes a _ d _ _ hne := by
    simp only [probe, SpaceDevice.toCandidate, hne, if_false, Bool.and_eq_true]
    exact and_congr_right fun _ => decide_eq_true_iff

theorem leaders_agree_three : ∃ leader, sampleMesh.Listed leader ∧ sampleMesh.reach "ep-b" leader ∧
    ∀ b, sampleMesh.Listed b → sampleMesh.reach "ep-b" b →
      (sampleMesh.elect b).leader b = some leader ∧ (sampleMesh.elect b = .selfIsLeader ↔ b = leader) :=
  leaders_agree sampleMesh (show (networkOf "ep-b").isSome = true by decide)
    ⟨⟨"s", "ep-b", none, some 10⟩, List.mem_cons_of_mem _ (show _ ∈ sampleDevices.reverse by decide), rfl, rfl⟩

end HaexVault.Space
