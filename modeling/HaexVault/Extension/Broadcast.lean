import Mathlib.Logic.Function.Basic
import HaexVault.Lib.Runs
/-!
# Events for an extension's iframe (`stores/extensions/broadcast.ts`, `broadcastRouting.ts`)

The vault knocks with a new `MessageChannel` until the extension's SDK answers on one, and closes
the one before each time. `broadcasts_delivered_iff` says when every event reaches the SDK, once and
in order.
-/

namespace HaexVault.Extension.Iframes

open HaexVault.Lib.Runs

/-! ## Messages -/

structure HaexSpaceExtension where
  id : String
  publicKey : String
  name : String
  deriving DecidableEq

/-- What the vault posts to an extension. -/
inductive Message where
  | contextChanged (context : String) (timestamp : Nat)
  | syncTablesUpdated (tables : List String) (timestamp : Nat)
  | fileChanged (ruleId changeType path : String) (timestamp : Nat)
  | shell (type : String) (rest : List (String × String)) (timestamp : Nat)
  | externalRequest (requestId publicKey action payload : String) (timestamp : Nat)
  deriving DecidableEq

/-- What is sent out to the registered iframes. -/
inductive Broadcast where
  | context (applicationContext : String)
  /-- The tables each extension may read, as the backend has filtered them. -/
  | syncTablesUpdated (allowed : String → List String)
  | fileChanged (ruleId changeType path : String) (readerExtensionIds : Option (List String))
  | shellEvent (type extensionId : String) (rest : List (String × String))
  /-- The extensions of the iframes that the registry lists before this one stand here too. -/
  | externalRequest (extensionPublicKey extensionName requestId publicKey action payload : String)
    (ahead : List HaexSpaceExtension)

/-- The message that a broadcast has for an iframe of the extension, if it is addressed to it. -/
def Broadcast.messageFor (ext : HaexSpaceExtension) (now : Nat) : Broadcast → Option Message
  | .context applicationContext => some (.contextChanged applicationContext now)
  | .syncTablesUpdated allowed =>
    if (allowed ext.id).isEmpty then none else some (.syncTablesUpdated (allowed ext.id) now)
  | .fileChanged ruleId changeType path readerExtensionIds =>
    if ext.id ∈ readerExtensionIds.getD [] then some (.fileChanged ruleId changeType path now) else none
  | .shellEvent type extensionId rest =>
    if extensionId = "" then none -- no owner, no event
    else if ext.id ≠ extensionId then none
    else some (.shell type rest now)
  | .externalRequest extensionPublicKey extensionName requestId publicKey action payload ahead =>
    let fits (e : HaexSpaceExtension) : Bool := e.publicKey = extensionPublicKey ∧ e.name = extensionName
    if fits ext && !ahead.any fits then some (.externalRequest requestId publicKey action payload now) else none

/-! ## The two ends -/

/-- A `MessageChannel`: whether the vault's end is open, and what is on its way on it. -/
structure Channel where
  isOpen : Bool := false
  toSdk : List Message := []
  /-- A `PORT_READY` is on its way to the vault. -/
  portReady : Bool := false

/-- An `ExtensionIframeEntry`; a port is named by the number of its channel. An entry is in the registry until it is destroyed. -/
structure Entry where
  extension : HaexSpaceExtension
  port : Option Nat := none
  ready : Bool := false
  buffer : List Message := []
  destroyed : Bool := false

/-- The entry of an iframe with its channels, and the extension's SDK in the iframe. -/
structure State where
  entry : Entry
  /-- The retries have come to their hard stop. -/
  stopped : Bool := false
  channels : Nat → Channel := fun _ => {}
  /-- How many channels have been made. -/
  made : Nat := 0
  /-- The `PORT_INIT`s on their way to the iframe. -/
  portInits : List Nat := []
  /-- The port the SDK has adopted. -/
  adopted : Option Nat := none
  /-- What has come to the SDK on the port it adopted. -/
  arrived : List Message := []
  /-- What has been addressed to the extension since the iframe was registered. -/
  addressed : List Message := []

inductive Event where
  /-- `attemptHandshake`, and whether the iframe has its window and `PORT_INIT` can be posted. -/
  | attemptHandshake (contentWindow posts : Bool)
  | hardStop
  /-- A `PORT_INIT` comes to the window before the SDK listens. -/
  | missPortInit (k : Nat)
  | hearPortInit (k : Nat)
  | portReady (k : Nat)
  | broadcast (b : Broadcast) (now : Nat)
  /-- The next message on the port comes to the SDK. -/
  | arrive (k : Nat)
  /-- A port whose end is closed loses what is on its way on it. -/
  | losePortReady (k : Nat)
  | loseMessage (k : Nat)
  | unregisterIframe

namespace State

variable (s : State)

def registerIframe (extension : HaexSpaceExtension) : State := { entry := { extension } }

def setChannel (k : Nat) (c : Channel) : State := { s with channels := Function.update s.channels k c }

def closePort : Option Nat → State
  | none => s
  | some k => s.setChannel k { s.channels k with isOpen := false }

/-- `postMessage`; on a port that is closed the messages go nowhere. -/
def post (k : Nat) (ms : List Message) : State :=
  if (s.channels k).isOpen then s.setChannel k { s.channels k with toSdk := (s.channels k).toSdk ++ ms } else s

def Attempts (contentWindow : Bool) : Prop :=
  s.entry.ready = false ∧ s.entry.destroyed = false ∧ s.stopped = false ∧ contentWindow

instance (contentWindow : Bool) : Decidable (s.Attempts contentWindow) := inferInstanceAs (Decidable (_ ∧ _))

def attemptHandshake (contentWindow posts : Bool) : State :=
  if s.Attempts contentWindow then
    let opened := (s.closePort s.entry.port).setChannel s.made { isOpen := true }
    { opened with
      entry := { s.entry with port := some s.made }
      made := s.made + 1
      portInits := if posts then s.portInits ++ [s.made] else s.portInits }
  else s

def hearPortInit (k : Nat) : State :=
  if k ∈ s.portInits then
    match s.adopted with
    | some _ => { s with portInits := s.portInits.erase k }
    | none =>
      { s.setChannel k { s.channels k with portReady := true } with portInits := s.portInits.erase k, adopted := some k }
  else s

/-- `handlePortMessageAsync` on a `PORT_READY`. -/
def handlePortReady (k : Nat) : State :=
  if s.entry.ready then s -- a duplicate
  else
    let flushed := s.post k s.entry.buffer
    { flushed with entry := { s.entry with ready := true, port := some k, buffer := [] } }

def portReady (k : Nat) : State :=
  if (s.channels k).portReady then (s.setChannel k { s.channels k with portReady := false }).handlePortReady k else s

/-- `deliver`. -/
def deliver (m : Message) : State :=
  if s.entry.ready then
    match s.entry.port with
    | some k => s.post k [m]
    | none => s
  else { s with entry := { s.entry with buffer := s.entry.buffer ++ [m] } }

/-- A broadcast reaches the iframes in the registry. -/
def broadcast (b : Broadcast) (now : Nat) : State :=
  if s.entry.destroyed then s
  else match b.messageFor s.entry.extension now with
    | none => s
    | some m => { s.deliver m with addressed := s.addressed ++ [m] }

def arrive (k : Nat) : State :=
  if s.adopted = some k then
    match (s.channels k).toSdk with
    | [] => s
    | m :: rest => { s.setChannel k { s.channels k with toSdk := rest } with arrived := s.arrived ++ [m] }
  else s

def losePortReady (k : Nat) : State :=
  if (s.channels k).isOpen then s else s.setChannel k { s.channels k with portReady := false }

def loseMessage (k : Nat) : State :=
  if (s.channels k).isOpen then s else s.setChannel k { s.channels k with toSdk := (s.channels k).toSdk.tail }

def unregisterIframe : State :=
  if s.entry.destroyed then s
  else
    let closed := s.closePort s.entry.port
    { closed with entry := { s.entry with destroyed := true, buffer := [] } }

def step (s : State) : Event → State
  | .attemptHandshake contentWindow posts => s.attemptHandshake contentWindow posts
  | .hardStop => { s with stopped := true }
  | .missPortInit k => { s with portInits := s.portInits.erase k }
  | .hearPortInit k => s.hearPortInit k
  | .portReady k => s.portReady k
  | .broadcast b now => s.broadcast b now
  | .arrive k => s.arrive k
  | .losePortReady k => s.losePortReady k
  | .loseMessage k => s.loseMessage k
  | .unregisterIframe => s.unregisterIframe

/-! ## What the vault promises -/

/-- Once the entry is ready its port is open and the SDK's, and what was addressed to the extension has arrived there, or is on
its way on that port, once and in order. -/
def OnceReady : Prop :=
  s.entry.ready = true → ∃ k, s.entry.port = some k ∧ s.adopted = some k ∧ (s.channels k).isOpen = true ∧
    s.arrived ++ (s.channels k).toSdk = s.addressed

/-- Until then the answer of an SDK that has its port is on its way on the port the vault holds, so that what was addressed to the
extension is not kept back for good. -/
def Awaited : Prop :=
  s.entry.ready = false → ∀ k, s.adopted = some k →
    s.entry.port = some k ∧ (s.channels k).isOpen = true ∧ (s.channels k).portReady = true ∧ s.entry.buffer = s.addressed

/-- While the iframe is registered, all that is addressed to the extension arrives, once and in order. -/
def Delivers : Prop := s.entry.destroyed = false → s.OnceReady ∧ s.Awaited

/-- No attempt is made once the SDK has a port, and the SDK takes the port that the vault holds. -/
def Timely (s : State) : Event → Prop
  | .attemptHandshake contentWindow _ => s.Attempts contentWindow → s.adopted = none
  | .hearPortInit k => s.entry.destroyed = false → s.adopted = none → k ∈ s.portInits → s.entry.port = some k
  | _ => True

/-! ## The invariant -/

variable {s}

structure Inv (s : State) : Prop where
  held : s.entry.ready = false → s.arrived = [] ∧ (∀ k, (s.channels k).toSdk = []) ∧ s.entry.buffer = s.addressed
  opened : s.entry.ready = false → ∀ k, s.entry.port = some k → (s.channels k).isOpen = true
  answers : ∀ k, (s.channels k).portReady = true → s.adopted = some k
  adopted_lt : ∀ k, s.adopted = some k → k < s.made
  portInits_lt : ∀ k ∈ s.portInits, k < s.made

structure Good (s : State) : Prop extends Inv s where
  onceReady : s.OnceReady
  awaited : s.Awaited

@[simp] theorem setChannel_entry (k : Nat) (c : Channel) : (s.setChannel k c).entry = s.entry := rfl
@[simp] theorem setChannel_adopted (k : Nat) (c : Channel) : (s.setChannel k c).adopted = s.adopted := rfl
@[simp] theorem setChannel_arrived (k : Nat) (c : Channel) : (s.setChannel k c).arrived = s.arrived := rfl
@[simp] theorem setChannel_addressed (k : Nat) (c : Channel) : (s.setChannel k c).addressed = s.addressed := rfl
@[simp] theorem setChannel_made (k : Nat) (c : Channel) : (s.setChannel k c).made = s.made := rfl
@[simp] theorem setChannel_portInits (k : Nat) (c : Channel) : (s.setChannel k c).portInits = s.portInits := rfl

@[simp] theorem setChannel_self (k : Nat) (c : Channel) : (s.setChannel k c).channels k = c := Function.update_self ..

theorem setChannel_of_ne {j k : Nat} (h : j ≠ k) (c : Channel) : (s.setChannel k c).channels j = s.channels j :=
  Function.update_of_ne h ..

theorem setChannel_all {P : Nat → Channel → Prop} {k : Nat} {c : Channel} (hk : P k c) (h : ∀ j, P j (s.channels j)) (j : Nat) :
    P j ((s.setChannel k c).channels j) := by
  by_cases hj : j = k
  · subst hj
    rw [setChannel_self]
    exact hk
  · rw [setChannel_of_ne hj]
    exact h j

theorem post_open {k : Nat} (h : (s.channels k).isOpen = true) (ms : List Message) :
    s.post k ms = s.setChannel k { s.channels k with toSdk := (s.channels k).toSdk ++ ms } := if_pos h

theorem Good.port (h : Good s) (hready : s.entry.ready = true) : ∃ k, s.entry.port = some k ∧ s.adopted = some k ∧
    (s.channels k).isOpen = true ∧ s.arrived ++ (s.channels k).toSdk = s.addressed := h.onceReady hready

/-! ## What keeps it -/

theorem Good.missPortInit (h : Good s) (k : Nat) : Good { s with portInits := s.portInits.erase k } where
  held := h.held
  opened := h.opened
  answers := h.answers
  adopted_lt := h.adopted_lt
  portInits_lt j hj := h.portInits_lt j (List.mem_of_mem_erase hj)
  onceReady := h.onceReady
  awaited := h.awaited

theorem Good.hardStop (h : Good s) : Good { s with stopped := true } where
  held := h.held
  opened := h.opened
  answers := h.answers
  adopted_lt := h.adopted_lt
  portInits_lt := h.portInits_lt
  onceReady := h.onceReady
  awaited := h.awaited

/-- Once the entry is ready, only its port and what arrives there matter. -/
theorem Good.of_ready {s : State} (hready : s.entry.ready = true) (answers : ∀ k, (s.channels k).portReady = true → s.adopted = some k)
    (adopted_lt : ∀ k, s.adopted = some k → k < s.made) (portInits_lt : ∀ k ∈ s.portInits, k < s.made)
    (hport : ∃ k, s.entry.port = some k ∧ s.adopted = some k ∧ (s.channels k).isOpen = true ∧
      s.arrived ++ (s.channels k).toSdk = s.addressed) : Good s where
  held hno := by cases hready.symm.trans hno
  opened hno := by cases hready.symm.trans hno
  answers := answers
  adopted_lt := adopted_lt
  portInits_lt := portInits_lt
  onceReady _ := hport
  awaited hno := by cases hready.symm.trans hno

theorem Good.portReady (h : Good s) (k : Nat) : Good (s.portReady k) := by
  unfold State.portReady
  split
  · rename_i hanswer
    have hadopted := h.answers k hanswer
    have hanswers : ∀ j, ((s.setChannel k { s.channels k with portReady := false }).channels j).portReady = true →
        s.adopted = some j :=
      setChannel_all (P := fun j c => c.portReady = true → s.adopted = some j) (fun hf => by cases hf) h.answers
    cases hready : s.entry.ready with
    | true =>
      obtain ⟨j, hport, hj, hopen, hall⟩ := h.port hready
      obtain rfl : k = j := Option.some.inj (hadopted.symm.trans hj)
      rw [handlePortReady, setChannel_entry, if_pos hready]
      exact .of_ready hready hanswers h.adopted_lt h.portInits_lt
        ⟨k, hport, hadopted, by simpa using hopen, by simpa using hall⟩
    | false =>
      obtain ⟨hport, hopen, -, hbuffer⟩ := h.awaited hready k hadopted
      obtain ⟨harrived, hqueues, -⟩ := h.held hready
      rw [handlePortReady, setChannel_entry, if_neg (by simp [hready]), post_open (by simpa using hopen)]
      refine .of_ready rfl ?_ h.adopted_lt h.portInits_lt
        ⟨k, rfl, hadopted, by simpa using hopen, by simpa [harrived, hqueues] using hbuffer⟩
      exact setChannel_all (P := fun j c => c.portReady = true → s.adopted = some j) (fun hf => by simp at hf) hanswers
  · exact h

/-- An event that is addressed to the extension goes out on its port, or waits with those before it. -/
theorem Good.deliver (h : Good s) (m : Message) : Good { s.deliver m with addressed := s.addressed ++ [m] } := by
  unfold State.deliver
  cases hready : s.entry.ready with
  | true =>
    obtain ⟨k, hport, hadopted, hopen, hall⟩ := h.port hready
    rw [if_pos rfl, hport]
    dsimp only
    rw [post_open hopen]
    refine .of_ready hready ?_ h.adopted_lt h.portInits_lt ⟨k, hport, hadopted, by simpa using hopen, by simp [← hall]⟩
    exact setChannel_all (P := fun j c => c.portReady = true → s.adopted = some j) (h.answers k) h.answers
  | false =>
    obtain ⟨harrived, hqueues, hbuffer⟩ := h.held hready
    rw [if_neg Bool.false_ne_true]
    exact {
      held := fun _ => ⟨harrived, hqueues, by rw [hbuffer]⟩
      opened := h.opened
      answers := h.answers
      adopted_lt := h.adopted_lt
      portInits_lt := h.portInits_lt
      onceReady := fun hyes => by cases hready.symm.trans hyes
      awaited := fun _ k hk => by
        obtain ⟨hport, hopen, hanswer, -⟩ := h.awaited hready k hk
        exact ⟨hport, hopen, hanswer, by rw [hbuffer]⟩ }

theorem Good.broadcast (h : Good s) (b : Broadcast) (now : Nat) : Good (s.broadcast b now) := by
  unfold State.broadcast
  split
  · exact h
  · split
    · exact h
    · exact h.deliver _

theorem Good.arrive (h : Good s) (k : Nat) : Good (s.arrive k) := by
  unfold State.arrive
  split
  · rename_i hadopted
    split
    · exact h
    · rename_i m rest hqueue
      have hready : s.entry.ready = true := by
        refine Bool.of_not_eq_false fun hno => ?_
        rw [(h.held hno).2.1 k] at hqueue
        cases hqueue
      obtain ⟨j, hport, hj, hopen, hall⟩ := h.port hready
      obtain rfl : k = j := Option.some.inj (hadopted.symm.trans hj)
      refine .of_ready hready ?_ h.adopted_lt h.portInits_lt
        ⟨k, hport, hadopted, by simpa using hopen, by simp [← hall, hqueue]⟩
      exact setChannel_all (P := fun j c => c.portReady = true → s.adopted = some j) (h.answers k) h.answers
  · exact h

theorem Good.setClosed (h : Good s) {k : Nat} (hclosed : (s.channels k).isOpen = false) {c : Channel}
    (htoSdk : (s.channels k).toSdk = [] → c.toSdk = []) (hportReady : c.portReady = true → (s.channels k).portReady = true) :
    Good (s.setChannel k c) := by
  have hne : ∀ j, (s.channels j).isOpen = true → j ≠ k := fun j hj hjk => by
    rw [hjk, hclosed] at hj
    cases hj
  exact {
    held := fun hno =>
      ⟨(h.held hno).1, setChannel_all (P := fun _ c => c.toSdk = []) (htoSdk ((h.held hno).2.1 k)) (h.held hno).2.1,
        (h.held hno).2.2⟩
    opened := fun hno j hj => by
      rw [setChannel_of_ne (hne j (h.opened hno j hj))]
      exact h.opened hno j hj
    answers := setChannel_all (P := fun j c => c.portReady = true → s.adopted = some j)
      (fun hc => h.answers k (hportReady hc)) h.answers
    adopted_lt := h.adopted_lt
    portInits_lt := h.portInits_lt
    onceReady := fun hready => by
      obtain ⟨j, hport, hj, hopen, hall⟩ := h.port hready
      refine ⟨j, hport, hj, ?_⟩
      rw [setChannel_of_ne (hne j hopen)]
      exact ⟨hopen, hall⟩
    awaited := fun hno j hj => by
      have hcurrent := h.awaited hno j hj
      rw [setChannel_of_ne (hne j hcurrent.2.1)]
      exact hcurrent }

theorem Good.losePortReady (h : Good s) (k : Nat) : Good (s.losePortReady k) := by
  unfold State.losePortReady
  split
  · exact h
  · rename_i hclosed
    have hclosed := Bool.eq_false_iff.2 hclosed
    exact h.setClosed hclosed id fun hf => by cases hf

theorem Good.loseMessage (h : Good s) (k : Nat) : Good (s.loseMessage k) := by
  unfold State.loseMessage
  split
  · exact h
  · rename_i hclosed
    have hclosed := Bool.eq_false_iff.2 hclosed
    exact h.setClosed hclosed (fun hnil => by simp [hnil]) id

/-! ## Handshakes -/

theorem closePort_same (s : State) (p : Option Nat) : (s.closePort p).arrived = s.arrived ∧ (s.closePort p).adopted = s.adopted ∧
    (s.closePort p).addressed = s.addressed := by
  cases p <;> exact ⟨rfl, rfl, rfl⟩

theorem closePort_channel (s : State) (p : Option Nat) (j : Nat) : ((s.closePort p).channels j).toSdk = (s.channels j).toSdk ∧
    ((s.closePort p).channels j).portReady = (s.channels j).portReady := by
  cases p with
  | none => exact ⟨rfl, rfl⟩
  | some k =>
    by_cases hj : j = k
    · subst hj
      simp [closePort]
    · simp [closePort, setChannel_of_ne hj]

theorem Good.attemptHandshake (h : Good s) {contentWindow posts : Bool} (hattempts : s.Attempts contentWindow)
    (hnone : s.adopted = none) : Good (s.attemptHandshake contentWindow posts) := by
  obtain ⟨harrived, hadopted, haddressed⟩ := closePort_same s s.entry.port
  obtain ⟨hnil, hqueues, hbuffer⟩ := h.held hattempts.1
  rw [State.attemptHandshake, if_pos hattempts]
  exact {
    held := fun _ => ⟨harrived.trans hnil,
      setChannel_all (P := fun _ c => c.toSdk = []) rfl fun j => (closePort_channel s _ j).1.trans (hqueues j),
      hbuffer.trans haddressed.symm⟩
    opened := fun _ j hj => by
      obtain rfl : s.made = j := Option.some.inj hj
      dsimp only
      rw [setChannel_self]
    answers := setChannel_all (P := fun j c => c.portReady = true → (s.closePort s.entry.port).adopted = some j)
      (fun hf => by cases hf) fun j hj => hadopted.trans (h.answers j ((closePort_channel s _ j).2.symm.trans hj))
    adopted_lt := fun j hj => by cases (hadopted.trans hnone).symm.trans hj
    portInits_lt := fun j hj => by
      dsimp only at hj
      split at hj
      · rcases List.mem_append.1 hj with hj | hj
        · exact Nat.lt_succ_of_lt (h.portInits_lt j hj)
        · rw [List.mem_singleton.1 hj]
          exact Nat.lt_succ_self _
      · exact Nat.lt_succ_of_lt (h.portInits_lt j hj)
    onceReady := fun hyes => by cases hattempts.1.symm.trans hyes
    awaited := fun _ j hj => by cases (hadopted.trans hnone).symm.trans hj }

theorem adopted_none_of_awaited (h : Inv s) {contentWindow : Bool} (posts : Bool) (hattempts : s.Attempts contentWindow)
    (hawaited : (s.attemptHandshake contentWindow posts).Awaited) : s.adopted = none := by
  rw [State.attemptHandshake, if_pos hattempts] at hawaited
  refine Option.eq_none_iff_forall_not_mem.2 fun k hk => ?_
  have hport := (hawaited hattempts.1 k ((closePort_same s _).2.1.trans hk)).1
  have hlt := h.adopted_lt k hk
  obtain rfl : s.made = k := Option.some.inj hport
  exact absurd hlt (Nat.lt_irrefl _)

theorem Good.hearPortInit (h : Good s) {k : Nat} (hport : s.adopted = none → k ∈ s.portInits → s.entry.port = some k) :
    Good (s.hearPortInit k) := by
  unfold State.hearPortInit
  split
  · rename_i hk
    cases hadopted : s.adopted with
    | some j =>
      change Good { s with portInits := s.portInits.erase k, adopted := some j }
      rw [← hadopted]
      exact h.missPortInit k
    | none =>
      have hport := hport hadopted hk
      have hready : s.entry.ready = false := by
        refine Bool.eq_false_iff.2 fun hyes => ?_
        obtain ⟨j, -, hj, -⟩ := h.port hyes
        cases hadopted.symm.trans hj
      obtain ⟨harrived, hqueues, hbuffer⟩ := h.held hready
      have hopen := h.opened hready
      exact {
        held := fun _ => ⟨harrived, setChannel_all (P := fun _ c => c.toSdk = []) (hqueues k) hqueues, hbuffer⟩
        opened := fun _ => setChannel_all (P := fun j c => s.entry.port = some j → c.isOpen = true) (hopen k) hopen
        answers := setChannel_all (P := fun j c => c.portReady = true → some k = some j) (fun _ => rfl) fun j hj => by
          cases hadopted.symm.trans (h.answers j hj)
        adopted_lt := fun j hj => by
          obtain rfl : k = j := Option.some.inj hj
          exact h.portInits_lt k hk
        portInits_lt := fun j hj => h.portInits_lt j (List.mem_of_mem_erase hj)
        onceReady := fun hyes => by cases hready.symm.trans hyes
        awaited := fun _ j hj => by
          obtain rfl : k = j := Option.some.inj hj
          exact ⟨hport, by simpa using hopen k hport, by simp, hbuffer⟩ }
  · exact h

theorem port_of_awaited (h : Good s) {k : Nat} (hk : k ∈ s.portInits) (hnone : s.adopted = none)
    (hawaited : (s.hearPortInit k).Awaited) : s.entry.port = some k := by
  have hready : s.entry.ready = false := by
    refine Bool.eq_false_iff.2 fun hyes => ?_
    obtain ⟨j, -, hj, -⟩ := h.port hyes
    cases hnone.symm.trans hj
  rw [State.hearPortInit, if_pos hk, hnone] at hawaited
  exact (hawaited hready k rfl).1

/-! ## Runs -/

theorem step_destroyed {ev : Event} (h : s.entry.destroyed = true) : (s.step ev).entry.destroyed = true := by
  cases ev with
  | attemptHandshake contentWindow posts =>
    rw [State.step, State.attemptHandshake, if_neg fun hattempts => by cases h.symm.trans hattempts.2.1]
    exact h
  | broadcast b now =>
    rw [State.step, State.broadcast, if_pos h]
    exact h
  | unregisterIframe =>
    rw [State.step, State.unregisterIframe, if_pos h]
    exact h
  | hardStop | missPortInit => exact h
  | hearPortInit | portReady | arrive | losePortReady | loseMessage =>
    simp only [State.step, State.hearPortInit, State.portReady, handlePortReady, State.arrive, State.losePortReady,
      State.loseMessage]
    repeat' split
    all_goals exact h

theorem registered_of_step {ev : Event} (h : (s.step ev).entry.destroyed = false) : s.entry.destroyed = false :=
  Bool.eq_false_iff.2 fun hdestroyed => by cases h.symm.trans (step_destroyed hdestroyed)

theorem Good.step {ev : Event} (h : Good s) (hregistered : s.entry.destroyed = false) (htimely : s.Timely ev)
    (hstays : (s.step ev).entry.destroyed = false) : Good (s.step ev) := by
  cases ev with
  | attemptHandshake contentWindow posts =>
    by_cases hattempts : s.Attempts contentWindow
    · exact h.attemptHandshake hattempts (htimely hattempts)
    · rw [State.step, State.attemptHandshake, if_neg hattempts]
      exact h
  | hardStop => exact h.hardStop
  | missPortInit k => exact h.missPortInit k
  | hearPortInit k => exact h.hearPortInit (htimely hregistered)
  | portReady k => exact h.portReady k
  | broadcast b now => exact h.broadcast b now
  | arrive k => exact h.arrive k
  | losePortReady k => exact h.losePortReady k
  | loseMessage k => exact h.loseMessage k
  | unregisterIframe =>
    rw [State.step, State.unregisterIframe, if_neg (by simp [hregistered])] at hstays
    cases hstays

theorem timely_of_delivers {ev : Event} (h : Good s) (hregistered : s.entry.destroyed = false)
    (hdelivers : (s.step ev).Delivers) :
    s.Timely ev := by
  cases ev with
  | attemptHandshake contentWindow posts =>
    intro hattempts
    refine adopted_none_of_awaited h.toInv posts hattempts (hdelivers ?_).2
    rw [State.step, State.attemptHandshake, if_pos hattempts]
    exact hregistered
  | hearPortInit k =>
    intro _ hnone hk
    refine port_of_awaited h hk hnone (hdelivers ?_).2
    rw [State.step, State.hearPortInit, if_pos hk, hnone]
    exact hregistered
  | hardStop | missPortInit | portReady | broadcast | arrive | losePortReady | loseMessage | unregisterIframe => trivial

theorem delivers_step_iff {ev : Event} (hinv : s.entry.destroyed = false → Inv s) (h : s.Delivers) :
    (s.step ev).Delivers ↔ s.Timely ev := by
  cases hdestroyed : s.entry.destroyed with
  | true =>
    refine iff_of_true (fun hstays => ?_) ?_
    · cases hdestroyed.symm.trans (registered_of_step hstays)
    · cases ev with
      | attemptHandshake => exact fun hattempts => by cases hdestroyed.symm.trans hattempts.2.1
      | hearPortInit => exact fun hregistered => by cases hdestroyed.symm.trans hregistered
      | hardStop | missPortInit | portReady | broadcast | arrive | losePortReady | loseMessage | unregisterIframe => trivial
  | false =>
    have hgood : Good s := ⟨hinv hdestroyed, (h hdestroyed).1, (h hdestroyed).2⟩
    refine ⟨timely_of_delivers hgood hdestroyed, fun htimely hstays => ?_⟩
    have hnext := hgood.step hdestroyed htimely hstays
    exact ⟨hnext.onceReady, hnext.awaited⟩

theorem registerIframe_good (extension : HaexSpaceExtension) : Good (registerIframe extension) where
  held _ := ⟨rfl, fun _ => rfl, rfl⟩
  opened _ k hk := by cases hk
  answers k hk := by cases hk
  adopted_lt k hk := by cases hk
  portInits_lt k hk := by cases hk
  onceReady hyes := by cases hyes
  awaited _ k hk := by cases hk

/-- All that is addressed to the extension arrives, once and in order, in every state of a run exactly when the SDK takes the port
that the vault holds and no attempt comes after that until the answer has arrived. -/
theorem broadcasts_delivered_iff (extension : HaexSpaceExtension) (es : List Event) :
    (∀ es', es' <+: es → (run step (registerIframe extension) es').Delivers) ↔
      Guarded step Timely (registerIframe extension) es := by
  have h0 := registerIframe_good extension
  refine guarded_iff_always (I := fun s => s.entry.destroyed = false → Inv s) (fun s ev hinv h hnext hstays => ?_)
    (fun s ev hinv h => delivers_step_iff hinv h) es (fun _ => h0.toInv) fun _ => ⟨h0.onceReady, h0.awaited⟩
  have hregistered := registered_of_step hstays
  have hgood : Good s := ⟨hinv hregistered, (h hregistered).1, (h hregistered).2⟩
  exact (hgood.step hregistered ((delivers_step_iff hinv h).1 hnext) hstays).toInv

/-- The SDK hears of the first port, a retry comes before its answer, and the answer makes the port ready that the retry has
closed: an event that is addressed to the extension by then has no port to arrive on. -/
theorem retry_closes_adopted_port :
    let s := run step (registerIframe ⟨"e", "pk", "notes"⟩) [.attemptHandshake true true, .hearPortInit 0,
      .broadcast (.context "dark") 0, .attemptHandshake true true, .portReady 0]
    s.entry.destroyed = false ∧ ¬s.OnceReady := by
  refine ⟨rfl, fun h => ?_⟩
  obtain ⟨k, hport, -, hopen, -⟩ := h rfl
  obtain rfl : 0 = k := Option.some.inj hport
  cases hopen

end State
end HaexVault.Extension.Iframes
