import HaexVault.Lib.Fallible
import HaexVault.Lib.Runs
/-!
# Processing Welcomes (`stores/spaces/invites.ts`, `mls/manager.rs`)

`processWelcomes` stages each Welcome that it fetched, gives it to `mls_process_message`, acknowledges
it and removes the staged row; `retryPendingWelcomes` goes through the rows that are left. But
`decrypt` takes protocol messages only (`welcomes_joined_iff`).
-/

namespace HaexVault.Space.WelcomeProcessing

open HaexVault.Lib HaexVault.Lib.Fallible HaexVault.Lib.Runs

/-! ## The MLS manager -/

inductive MlsMessageIn (Welcome Protocol : Type) where
  | protocol (m : Protocol)
  | welcome (w : Welcome)
  | other

inductive ProcessedMessageContent (StagedCommit : Type) where
  | applicationMessage (bytes : List UInt8)
  | stagedCommitMessage (commit : StagedCommit)
  | proposalMessage
  | other

/-- The types and calls of OpenMLS that `decrypt` uses. -/
structure OpenMls where
  Store : Type
  Group : Type
  Welcome : Type
  Protocol : Type
  StagedCommit : Type
  load : Store → List UInt8 → Except String (Option Group)
  /-- `MlsMessageIn::tls_deserialize_exact_bytes`. -/
  deserialize : List UInt8 → Except String (MlsMessageIn Welcome Protocol)
  processMessage : Store → Group → Protocol → Except String (ProcessedMessageContent StagedCommit) × Store
  mergeStagedCommit : Store → Group → StagedCommit → Except String Unit × Store

variable {lib : OpenMls}

def groupId (spaceId : String) : List UInt8 := spaceId.toUTF8.data.toList

def loadGroup (spaceId : String) : Fallible String lib.Store lib.Group := do
  let store ← get
  match lib.load store (groupId spaceId) with
  | .error e => throw ("Failed to load group: " ++ e)
  | .ok none => throw ("Group not found for space: " ++ spaceId)
  | .ok (some group) => return group

def calling {α : Type} (text : String) (call : lib.Store → Except String α × lib.Store) : Fallible String lib.Store α := do
  let store ← get
  set (call store).2
  match (call store).1 with
  | .error e => throw (text ++ e)
  | .ok a => return a

/-- `MlsManager::decrypt`. -/
def decrypt (spaceId : String) (ciphertext : List UInt8) : Fallible String lib.Store (List UInt8) := do
  let group ← loadGroup spaceId
  match lib.deserialize ciphertext with
  | .error e => throw ("Failed to deserialize message: " ++ e)
  | .ok (.protocol message) =>
    match ← calling "Failed to process message: " (lib.processMessage · group message) with
    | .applicationMessage bytes => return bytes
    | .stagedCommitMessage commit => do
      calling "Failed to merge staged commit: " (lib.mergeStagedCommit · group commit)
      return []
    | .proposalMessage => return []
    | .other => throw "Unknown message type"
  | .ok _ => throw "Not a protocol message"

def hasGroup (store : lib.Store) (spaceId : String) : Bool :=
  match lib.load store (groupId spaceId) with
  | .ok (some _) => true
  | _ => false

/-! ## The device -/

/-- A Welcome as the server hands it out. -/
structure Welcome where
  id : Nat
  payload : List UInt8
  deriving DecidableEq

/-- A row of `haex_mls_pending_welcomes_no_sync`. -/
structure PendingWelcome where
  id : String
  spaceId : String
  welcomePayload : List UInt8
  sourceId : Nat
  deriving DecidableEq

variable (lib) in
/-- The store and the staged rows of the device, and the Welcomes that the server has acknowledged; `attempted` and
`accepted` are the Welcomes that `mls_process_message` was given and those that it accepted. -/
structure Device where
  store : lib.Store
  pending : List PendingWelcome := []
  acknowledged : List Nat := []
  attempted : List Nat := []
  accepted : List Nat := []

inductive Wait where
  | ended
  | failed
  | lost
  deriving DecidableEq

variable (lib) in
/-- What runs on a device, with the ends of the waits to come; after the last one the device has crashed. -/
abbrev Run (α : Type) := Fallible String (Device lib × List Wait) α

def awaiting {α : Type} (m : Fallible String (Device lib) α) : Run lib α := fun (d, waits) =>
  match waits with
  | [] => (.error "crashed", d, [])
  | .ended :: waits => ((exec m d).1, (exec m d).2, waits)
  | .failed :: waits => (.error "failed", d, waits)
  | .lost :: waits => (.error "failed", (exec m d).2, waits)

def mlsProcessMessage (sourceId : Nat) (spaceId : String) (message : List UInt8) : Fallible String (Device lib) Unit := do
  let d ← get
  let (result, store) := exec (decrypt spaceId message) d.store
  match result with
  | .error e => do
    set { d with store, attempted := d.attempted ++ [sourceId] }
    throw e
  | .ok _ => set { d with store, attempted := d.attempted ++ [sourceId], accepted := d.accepted ++ [sourceId] }

def stage (row : PendingWelcome) : Fallible String (Device lib) Unit :=
  modify fun d => { d with pending := d.pending ++ [row] }

def unstage (id : String) : Fallible String (Device lib) Unit :=
  modify fun d => { d with pending := d.pending.filter (·.id ≠ id) }

/-- `ackWelcomeAsync`. -/
def ackWelcome (id : Nat) : Fallible String (Device lib) Unit :=
  modify fun d => { d with acknowledged := d.acknowledged ++ [id] }

/-- The loop of `processWelcomes`; `uuid` gives the id of the row for the Welcome at an index. -/
def processWelcomes (spaceId : String) (uuid : Nat → String) : Nat → List Welcome → Run lib Unit
  | _, [] => pure ()
  | n, welcome :: welcomes => do
    awaiting (stage ⟨uuid n, spaceId, welcome.payload, welcome.id⟩)
    awaiting (mlsProcessMessage welcome.id spaceId welcome.payload)
    awaiting (ackWelcome welcome.id)
    awaiting (unstage (uuid n))
    processWelcomes spaceId uuid (n + 1) welcomes

/-- One round of `retryPendingWelcomes`. -/
def retryWelcome (row : PendingWelcome) : Run lib Unit :=
  tryCatch (do
      awaiting (mlsProcessMessage row.sourceId row.spaceId row.welcomePayload)
      awaiting (unstage row.id))
    fun _ => pure ()

/-- `retryPendingWelcomes`. -/
def retryPendingWelcomes : Run lib Unit := do
  let pending ← awaiting do return (← get).pending
  pending.forM retryWelcome

inductive Event where
  | process (spaceId : String) (uuid : Nat → String) (welcomes : List Welcome) (waits : List Wait)
  | retry (waits : List Wait)

def step (d : Device lib) : Event → Device lib
  | .process spaceId uuid welcomes waits => (exec (processWelcomes spaceId uuid 0 welcomes) (d, waits)).2.1
  | .retry waits => (exec retryPendingWelcomes (d, waits)).2.1

/-! ## What is promised -/

def Device.Keeps (d : Device lib) (welcome : Welcome) : Prop :=
  welcome.id ∈ d.accepted ∨ (∃ row ∈ d.pending, row.sourceId = welcome.id) ∨ welcome.id ∉ d.acknowledged

/-- The fetched Welcomes are joined, whatever fails. -/
structure Joined (d : Device lib) (spaceId : String) (uuid : Nat → String) (welcomes : List Welcome) : Prop where
  /-- After any call with any failures, and any later calls, none is lost. -/
  kept : ∀ waits es, ∀ welcome ∈ welcomes, (run step (step d (.process spaceId uuid welcomes waits)) es).Keeps welcome
  /-- If nothing fails, all are accepted, the device has the group, and no row stays. -/
  joins : ∀ waits, (∀ w ∈ waits, w = .ended) → 4 * welcomes.length ≤ waits.length →
    let result := exec (processWelcomes spaceId uuid 0 welcomes) (d, waits)
    result.1 = .ok () ∧ (welcomes ≠ [] → hasGroup result.2.1.store spaceId = true) ∧
      ∀ welcome ∈ welcomes, welcome.id ∈ result.2.1.accepted ∧ ∀ row ∈ result.2.1.pending, row.sourceId ≠ welcome.id
  /-- If no wait fails, each is given to `mls_process_message`, whether the others are accepted or not. -/
  tried : ∀ waits, (∀ w ∈ waits, w = .ended) → 4 * welcomes.length ≤ waits.length →
    ∀ welcome ∈ welcomes, welcome.id ∈ (exec (processWelcomes spaceId uuid 0 welcomes) (d, waits)).2.1.attempted

/-! ## A Welcome is no protocol message -/

variable {d : Device lib} {spaceId : String} {uuid : Nat → String}

theorem exec_decrypt_welcome {bytes : List UInt8} {w : lib.Welcome} (h : lib.deserialize bytes = .ok (.welcome w))
    (spaceId : String) (store : lib.Store) : ∃ e, exec (decrypt spaceId bytes) store = (.error e, store) := by
  rw [decrypt, exec_bind, loadGroup, exec_get_bind]
  cases lib.load store (groupId spaceId) with
  | error e => exact ⟨_, rfl⟩
  | ok group =>
    cases group with
    | none => exact ⟨_, rfl⟩
    | some group =>
      dsimp only [exec_pure]
      rw [h]
      exact ⟨_, rfl⟩

theorem exec_mlsProcessMessage_welcome {bytes : List UInt8} {w : lib.Welcome} (h : lib.deserialize bytes = .ok (.welcome w))
    (sourceId : Nat) (spaceId : String) (d : Device lib) :
    ∃ e, exec (mlsProcessMessage sourceId spaceId bytes) d = (.error e, { d with attempted := d.attempted ++ [sourceId] }) := by
  obtain ⟨e, he⟩ := exec_decrypt_welcome h spaceId d.store
  refine ⟨e, ?_⟩
  rw [mlsProcessMessage, exec_get_bind, he]
  rfl

theorem exec_processWelcomes_cons {welcome : Welcome} {w : lib.Welcome} (h : lib.deserialize welcome.payload = .ok (.welcome w))
    (d : Device lib) (spaceId : String) (uuid : Nat → String) (welcomes : List Welcome) (n : Nat) (waits : List Wait) :
    ∃ e, exec (processWelcomes spaceId uuid n (welcome :: welcomes)) (d, .ended :: .ended :: waits) =
      (.error e, { d with
        pending := d.pending ++ [⟨uuid n, spaceId, welcome.payload, welcome.id⟩]
        attempted := d.attempted ++ [welcome.id] }, waits) := by
  let staged : Device lib := { d with pending := d.pending ++ [⟨uuid n, spaceId, welcome.payload, welcome.id⟩] }
  obtain ⟨e, he⟩ := exec_mlsProcessMessage_welcome h welcome.id spaceId staged
  have hstage : exec (awaiting (stage ⟨uuid n, spaceId, welcome.payload, welcome.id⟩)) (d, .ended :: .ended :: waits) =
      (.ok (), staged, .ended :: waits) := rfl
  have hprocess : exec (awaiting (mlsProcessMessage welcome.id spaceId welcome.payload)) (staged, .ended :: waits) =
      (.error e, { staged with attempted := staged.attempted ++ [welcome.id] }, waits) := by
    change ((exec (mlsProcessMessage welcome.id spaceId welcome.payload) staged).1, _, waits) = _
    rw [he]
  refine ⟨e, ?_⟩
  rw [processWelcomes, exec_bind_ok hstage, exec_bind, hprocess]

/-! ## Nothing is lost -/

structure Safe (d d' : Device lib) : Prop where
  accepted : d.accepted ⊆ d'.accepted
  acknowledged : ∀ id ∈ d'.acknowledged, id ∈ d.acknowledged ∨ id ∈ d'.accepted

instance : Std.Refl (@Safe lib) := ⟨fun _ => ⟨List.Subset.refl _, fun _ h => .inl h⟩⟩

instance : IsTrans (Device lib) Safe :=
  ⟨fun _ _ _ h h' => ⟨List.Subset.trans h.accepted h'.accepted, fun id hid => by
    rcases h'.acknowledged id hid with hid | hid
    · exact (h.acknowledged id hid).imp_right fun hid => h'.accepted hid
    · exact .inr hid⟩⟩

variable {α : Type} {R : Device lib → Device lib → Prop} {m : Fallible String (Device lib) α}

theorem keeps_awaiting [Std.Refl R] (hm : Keeps R m) : Keeps (OnState R) (awaiting m) := by
  rintro ⟨d, waits⟩
  cases waits with
  | nil => exact refl_of R d
  | cons w waits =>
    cases w with
    | ended => exact hm d
    | failed => exact refl_of R d
    | lost => exact hm d

theorem awaiting_eq_ok {a : α} {s t : Device lib × List Wait} (h : exec (awaiting m) s = (.ok a, t)) :
    exec m s.1 = (.ok a, t.1) := by
  obtain ⟨d, _ | ⟨w, waits⟩⟩ := s
  · cases h
  · cases w with
    | ended =>
      obtain ⟨hresult, hrest⟩ := Prod.mk.inj h
      exact Prod.ext hresult (congrArg Prod.fst hrest)
    | failed => cases h
    | lost => cases h

theorem mlsProcessMessage_safe (sourceId : Nat) (spaceId : String) (message : List UInt8) :
    Keeps (@Safe lib) (mlsProcessMessage sourceId spaceId message) := by
  intro d
  rw [mlsProcessMessage, exec_get_bind]
  rcases exec (decrypt spaceId message) d.store with ⟨_ | bytes, store⟩
  · exact ⟨List.Subset.refl _, fun _ h => .inl h⟩
  · exact ⟨List.subset_append_left _ _, fun _ h => .inl h⟩

theorem mlsProcessMessage_accepts {sourceId : Nat} {message : List UInt8} {d' : Device lib}
    (h : exec (mlsProcessMessage sourceId spaceId message) d = (.ok (), d')) : sourceId ∈ d'.accepted := by
  rw [mlsProcessMessage, exec_get_bind] at h
  rcases hrun : exec (decrypt spaceId message) d.store with ⟨_ | bytes, store⟩
  · rw [hrun] at h
    cases h
  · rw [hrun] at h
    cases h
    exact List.mem_append_right _ List.mem_cons_self

theorem ack_safe (welcome : Welcome) {k : Unit → Run lib Unit} (hk : ∀ u, Keeps (OnState Safe) (k u)) :
    Keeps (OnState Safe) (do
      awaiting (mlsProcessMessage welcome.id spaceId welcome.payload)
      awaiting (ackWelcome welcome.id) >>= k) := by
  intro s
  have hprocess := keeps_awaiting (mlsProcessMessage_safe welcome.id spaceId welcome.payload) s
  rw [exec_bind]
  rcases hrun : exec (awaiting (mlsProcessMessage welcome.id spaceId welcome.payload)) s with ⟨_ | _, s'⟩
  · rw [hrun] at hprocess
    exact hprocess
  · rw [hrun] at hprocess
    have haccepted := mlsProcessMessage_accepts (awaiting_eq_ok hrun)
    have hack : ∀ t, OnState Safe s t → welcome.id ∈ t.1.accepted →
        OnState Safe s (exec (awaiting (ackWelcome welcome.id)) t).2 := by
      rintro ⟨d, _ | ⟨w, waits⟩⟩ ht hid
      · exact ht
      · have hafter : Safe s.1 (exec (ackWelcome welcome.id) d).2 := by
          refine ⟨ht.accepted, fun id h => ?_⟩
          rcases List.mem_append.1 h with hold | hnew
          · exact ht.acknowledged id hold
          · exact .inr (List.mem_singleton.1 hnew ▸ hid)
        cases w with
        | ended => exact hafter
        | failed => exact ht
        | lost => exact hafter
    dsimp only
    rw [exec_bind]
    have hsafe := hack s' hprocess haccepted
    rcases hrun' : exec (awaiting (ackWelcome welcome.id)) s' with ⟨_ | u, s''⟩
    · rw [hrun'] at hsafe
      exact hsafe
    · rw [hrun'] at hsafe
      exact trans_of (OnState Safe) hsafe (hk u s'')

theorem stage_safe (row : PendingWelcome) : Keeps (@Safe lib) (stage row) :=
  Keeps.modify fun _ => ⟨List.Subset.refl _, fun _ h => .inl h⟩

theorem unstage_safe (id : String) : Keeps (@Safe lib) (unstage id) :=
  Keeps.modify fun _ => ⟨List.Subset.refl _, fun _ h => .inl h⟩

theorem processWelcomes_safe (n : Nat) (welcomes : List Welcome) :
    Keeps (OnState Safe) (processWelcomes spaceId uuid n welcomes : Run lib Unit) := by
  induction welcomes generalizing n with
  | nil => exact Keeps.pure _
  | cons welcome welcomes ih =>
    exact (keeps_awaiting (stage_safe _)).bind fun _ => ack_safe welcome fun _ =>
      (keeps_awaiting (unstage_safe _)).bind fun _ => ih (n + 1)

theorem retryPendingWelcomes_safe : Keeps (OnState Safe) (retryPendingWelcomes : Run lib Unit) := by
  refine (keeps_awaiting fun d => refl_of Safe d).bind fun pending => Keeps.forM (fun row => ?_) pending
  exact Keeps.tryCatch ((keeps_awaiting (mlsProcessMessage_safe _ _ _)).bind fun _ => keeps_awaiting (unstage_safe _))
    fun _ => Keeps.pure _

theorem step_safe (d : Device lib) (e : Event) : Safe d (step d e) := by
  cases e with
  | process spaceId uuid welcomes waits => exact processWelcomes_safe 0 welcomes (d, waits)
  | retry waits => exact retryPendingWelcomes_safe (d, waits)

theorem run_safe (d : Device lib) (es : List Event) : Safe d (run step d es) := by
  refine (guarded_true d es).inv (I := Safe d) (fun d' e h _ => ?_) (refl_of Safe d)
  exact trans_of Safe h (step_safe d' e)

/-! ## Nothing is joined -/

def IsWelcome (lib : OpenMls) (bytes : List UInt8) : Prop := ∃ w, lib.deserialize bytes = .ok (.welcome w)

/-- Where the staged rows hold Welcomes, nothing has come of them, and all are still there. -/
def Waits (d d' : Device lib) : Prop :=
  (∀ row ∈ d.pending, IsWelcome lib row.welcomePayload) →
    d'.store = d.store ∧ d'.accepted = d.accepted ∧ d'.acknowledged = d.acknowledged ∧ d.pending ⊆ d'.pending ∧
      ∀ row ∈ d'.pending, IsWelcome lib row.welcomePayload

instance : Std.Refl (@Waits lib) := ⟨fun _ h => ⟨rfl, rfl, rfl, List.Subset.refl _, h⟩⟩

instance : IsTrans (Device lib) Waits := ⟨fun _ _ _ h h' hd => by
  obtain ⟨hstore, haccepted, hack, hpending, hrows⟩ := h hd
  obtain ⟨hstore', haccepted', hack', hpending', hrows'⟩ := h' hrows
  exact ⟨hstore'.trans hstore, haccepted'.trans haccepted, hack'.trans hack, List.Subset.trans hpending hpending', hrows'⟩⟩

theorem process_waits {bytes : List UInt8} (h : IsWelcome lib bytes) (sourceId : Nat) {k : Unit → Run lib α} :
    Keeps (OnState Waits) (awaiting (mlsProcessMessage sourceId spaceId bytes) >>= k) := by
  obtain ⟨w, hw⟩ := h
  have hprocess : Keeps (@Waits lib) (mlsProcessMessage sourceId spaceId bytes) := by
    intro d hd
    obtain ⟨e, he⟩ := exec_mlsProcessMessage_welcome hw sourceId spaceId d
    rw [he]
    exact ⟨rfl, rfl, rfl, List.Subset.refl _, hd⟩
  intro s
  have hs := keeps_awaiting hprocess s
  rw [exec_bind]
  rcases hrun : exec (awaiting (mlsProcessMessage sourceId spaceId bytes)) s with ⟨_ | _, t⟩
  · rw [hrun] at hs
    exact hs
  · obtain ⟨e, he⟩ := exec_mlsProcessMessage_welcome hw sourceId spaceId s.1
    cases he.symm.trans (awaiting_eq_ok hrun)

theorem processWelcomes_waits (n : Nat) (welcomes : List Welcome) (h : ∀ welcome ∈ welcomes, IsWelcome lib welcome.payload) :
    Keeps (OnState Waits) (processWelcomes spaceId uuid n welcomes : Run lib Unit) := by
  cases welcomes with
  | nil => exact Keeps.pure _
  | cons welcome welcomes =>
    have hwelcome := h welcome List.mem_cons_self
    refine Keeps.bind (keeps_awaiting (Keeps.modify fun d hd => ?_)) fun _ => process_waits hwelcome welcome.id
    refine ⟨rfl, rfl, rfl, List.subset_append_left _ _, fun row hrow => ?_⟩
    rcases List.mem_append.1 hrow with hold | hnew
    · exact hd row hold
    · rw [List.mem_singleton.1 hnew]
      exact hwelcome

theorem retryWelcomes_waits (rows : List PendingWelcome) (h : ∀ row ∈ rows, IsWelcome lib row.welcomePayload) :
    Keeps (OnState Waits) (rows.forM retryWelcome : Run lib PUnit) := by
  induction rows with
  | nil => exact Keeps.pure _
  | cons row rows ih =>
    have hround : Keeps (OnState Waits) (retryWelcome row : Run lib Unit) :=
      Keeps.tryCatch (process_waits (h row List.mem_cons_self) row.sourceId) fun _ => Keeps.pure _
    exact hround.bind fun _ => ih fun row' hrow => h row' (List.mem_cons_of_mem _ hrow)

/-- The events bring Welcomes only. -/
def Event.Welcomes (lib : OpenMls) : Event → Prop
  | .process _ _ welcomes _ => ∀ welcome ∈ welcomes, IsWelcome lib welcome.payload
  | .retry _ => True

theorem step_waits (d : Device lib) (e : Event) (he : e.Welcomes lib) : Waits d (step d e) := by
  cases e with
  | process spaceId uuid welcomes waits => exact processWelcomes_waits 0 welcomes he (d, waits)
  | retry waits =>
    intro hd
    cases waits with
    | nil => exact refl_of Waits d hd
    | cons w waits =>
      cases w with
      | ended => exact retryWelcomes_waits d.pending hd (d, waits) hd
      | failed | lost => exact refl_of Waits d hd

/-- In every run of both calls the Welcomes wait for ever: none is accepted, and no row of one goes. -/
theorem run_waits (d : Device lib) (es : List Event) (h : ∀ e ∈ es, e.Welcomes lib) : Waits d (run step d es) := by
  refine (guarded_of_forall (fun _ e he => h e he)).inv (I := Waits d) (fun d' e hd he => ?_) (refl_of Waits d)
  exact trans_of Waits hd (step_waits d' e he)

/-- Fetched Welcomes are never lost, and they are joined, whatever fails, only where there are none: `mls_process_message`
accepts no Welcome. -/
theorem welcomes_joined_iff (lib : OpenMls) (d : Device lib) (spaceId : String) (uuid : Nat → String) (welcomes : List Welcome)
    (hwelcomes : ∀ welcome ∈ welcomes, IsWelcome lib welcome.payload)
    (hfetched : ∀ welcome ∈ welcomes, welcome.id ∉ d.acknowledged) :
    (∀ waits es, ∀ welcome ∈ welcomes, (run step (step d (.process spaceId uuid welcomes waits)) es).Keeps welcome) ∧
    (Joined d spaceId uuid welcomes ↔ welcomes = []) := by
  have hkept : ∀ waits es, ∀ welcome ∈ welcomes, (run step (step d (.process spaceId uuid welcomes waits)) es).Keeps welcome := by
    intro waits es welcome hwelcome
    have hsafe := run_safe d (.process spaceId uuid welcomes waits :: es)
    by_cases hack : welcome.id ∈ (run step d (.process spaceId uuid welcomes waits :: es)).acknowledged
    · exact .inl ((hsafe.acknowledged _ hack).resolve_left (hfetched welcome hwelcome))
    · exact .inr (.inr hack)
  refine ⟨hkept, ?_⟩
  constructor
  · intro h
    cases welcomes with
    | nil => rfl
    | cons welcome welcomes =>
      obtain ⟨w, hw⟩ := hwelcomes welcome List.mem_cons_self
      have hlength : 4 * (welcome :: welcomes).length = 4 * welcomes.length + 2 + 2 := by
        rw [List.length_cons]
        omega
      obtain ⟨e, he⟩ := exec_processWelcomes_cons hw d spaceId uuid welcomes 0
        (List.replicate (4 * welcomes.length + 2) .ended)
      have hjoins := (h.joins (List.replicate (4 * (welcome :: welcomes).length) .ended)
        (fun w hw => List.eq_of_mem_replicate hw) (Nat.le_of_eq List.length_replicate.symm)).1
      rw [hlength] at hjoins
      cases (congrArg Prod.fst he).symm.trans hjoins
  · rintro rfl
    exact ⟨hkept, fun waits _ _ => ⟨rfl, fun h => absurd rfl h, List.forall_mem_nil _⟩, fun _ _ _ => List.forall_mem_nil _⟩

/-! ## One Welcome -/

def oneWelcome : OpenMls where
  Store := Unit
  Group := Unit
  Welcome := Unit
  Protocol := Unit
  StagedCommit := Unit
  load _ _ := .ok none
  deserialize bytes := if bytes = [3] then .ok (.welcome ()) else .error "end of stream"
  processMessage store _ _ := (.error "wrong epoch", store)
  mergeStagedCommit store _ _ := (.error "no group", store)

def newDevice : Device oneWelcome := { store := () }

theorem run_waits_one :
    Waits newDevice (run step newDevice [.process "s" (fun _ => "u") [⟨7, [3]⟩] [.ended, .ended], .retry [.ended, .ended]]) := by
  refine run_waits newDevice _ fun e he => ?_
  rcases List.mem_cons.1 he with rfl | he
  · exact List.forall_mem_singleton.2 ⟨(), rfl⟩
  · obtain rfl := List.mem_singleton.1 he
    trivial

theorem welcomes_joined_one :
    (∀ waits es, ∀ welcome ∈ [(⟨7, [3]⟩ : Welcome)],
      (run step (step newDevice (.process "s" (fun _ => "u") [⟨7, [3]⟩] waits)) es).Keeps welcome) ∧
    (Joined newDevice "s" (fun _ => "u") [⟨7, [3]⟩] ↔ [(⟨7, [3]⟩ : Welcome)] = []) :=
  welcomes_joined_iff oneWelcome newDevice "s" (fun _ => "u") [⟨7, [3]⟩]
    (List.forall_mem_singleton.2 ⟨(), rfl⟩) (List.forall_mem_singleton.2 List.not_mem_nil)

/-- Nothing fails but the command itself: there is no group, and the Welcome stays staged. -/
theorem welcome_refused :
    ¬Joined newDevice "s" (fun _ => "u") [⟨7, [3]⟩] ∧
    (exec (processWelcomes "s" (fun _ => "u") 0 [⟨7, [3]⟩]) (newDevice, [.ended, .ended, .ended, .ended])).2.1.pending =
      [⟨"u", "s", [3], 7⟩] := by
  refine ⟨fun h => ?_, rfl⟩
  cases (h.joins (List.replicate 4 .ended) (fun w hw => List.eq_of_mem_replicate hw) (Nat.le_refl 4)).1

end HaexVault.Space.WelcomeProcessing
