import HaexVault.Crdt.Clock
/-!
# One HLC per transaction (`database/connection_context.rs`, `database/core.rs`)

`current_hlc()` keeps the HLC of a write transaction in a slot of its connection, which the update
hook marks as the transaction's and the commit and rollback hooks clear. A probe before the
transaction fills the slot too, and a row write may mark that HLC.
-/

namespace HaexVault.Crdt

open HaexVault.Lib.Runs

/-! ## The slot -/

structure ConnectionContext where
  txHlcSlot : Option Timestamp := none
  writePending : Bool := false

namespace ConnectionContext

def cached (ctx : ConnectionContext) : Option Timestamp := if ctx.writePending then ctx.txHlcSlot else none

def currentOrNewTxHlc (u : Uhlc) (now : Nat) (ctx : ConnectionContext) (c : u.Clock) :
    Option Timestamp × ConnectionContext × u.Clock :=
  match ctx.cached with
  | some existing => (some existing, ctx, c)
  | none => match u.newTimestamp now c with
    | none => (none, ctx, c)
    | some (ts, c') => (some ts, { ctx with txHlcSlot := some ts }, c')

def markWritePending (ctx : ConnectionContext) : ConnectionContext := { ctx with writePending := true }

def resetTxSlot (_ : ConnectionContext) : ConnectionContext := {}

end ConnectionContext

/-! ## A connection -/

/-- A value `current_hlc()` has returned after the first row write of a transaction, with what the calls of the transaction
had drawn from the service by then. -/
structure ReturnedHlc where
  tx : Nat
  value : Timestamp
  drawn : List Timestamp

structure TxSession (u : Uhlc) where
  clock : u.Clock
  ctx : ConnectionContext := {}
  /-- A transaction is open. -/
  inTx : Bool := false
  /-- It has written a row. -/
  wrote : Bool := false
  /-- The number of transactions so far. -/
  tx : Nat := 0
  /-- What the calls of the last transaction have drawn. -/
  drawn : List Timestamp := []
  returned : List ReturnedHlc := []

inductive TxEvent where
  | begins
  /-- `current_hlc()`: a probe outside of a transaction. -/
  | currentHlc (now : Nat)
  /-- The update hook. -/
  | rowWrite
  /-- A commit or a rollback. A transaction that has written a row fires its hook; one that has not may be a write
  transaction all the same. -/
  | finish (hook : Bool)
  /-- `update_with_timestamp`, by `tx_scoped_hlc` or elsewhere. -/
  | update (now : Nat) (ts : Timestamp)
  /-- Another part of the program draws from the service. -/
  | draw (now : Nat)

namespace TxSession
variable {u : Uhlc}

def note (s : TxSession u) (value : Timestamp) (drawn : List Timestamp) : List ReturnedHlc :=
  if s.inTx && s.wrote then s.returned ++ [⟨s.tx, value, drawn⟩] else s.returned

theorem note_active (s : TxSession u) (hopen : s.inTx = true) (hwrote : s.wrote = true) (value : Timestamp)
    (drawn : List Timestamp) : s.note value drawn = s.returned ++ [⟨s.tx, value, drawn⟩] := by
  simp [note, hopen, hwrote]

theorem note_idle (s : TxSession u) (hidle : ¬ (s.inTx = true ∧ s.wrote = true)) (value : Timestamp) (drawn : List Timestamp) :
    s.note value drawn = s.returned := by
  rw [note, if_neg (by simpa using hidle)]

def call (s : TxSession u) (now : Nat) : TxSession u :=
  let (result, ctx, clock) := s.ctx.currentOrNewTxHlc u now s.clock
  match result with
  | none => { s with ctx, clock }
  | some value =>
    let drawn := if s.inTx && s.ctx.cached.isNone then s.drawn ++ [value] else s.drawn
    { s with ctx, clock, drawn, returned := s.note value drawn }

def step (s : TxSession u) : TxEvent → TxSession u
  | .begins => if s.inTx then s else { s with inTx := true, wrote := false, tx := s.tx + 1, drawn := [] }
  | .currentHlc now => s.call now
  | .rowWrite => if s.inTx then { s with ctx := s.ctx.markWritePending, wrote := true } else s
  | .finish hook =>
    if s.inTx then { s with inTx := false, ctx := if s.wrote || hook then s.ctx.resetTxSlot else s.ctx } else s
  | .update now ts => { s with clock := (u.updateWithTimestamp now s.clock ts).getD s.clock }
  | .draw now => { s with clock := ((u.newTimestamp now s.clock).map (·.2)).getD s.clock }

/-- The values of one transaction are equal, each was drawn by a call of the transaction, and those of later transactions
are newer. -/
structure OneHlcPerTransaction (s : TxSession u) : Prop where
  equal : ∀ r ∈ s.returned, ∀ r' ∈ s.returned, r.tx = r'.tx → r.value = r'.value
  drawn : ∀ r ∈ s.returned, r.value ∈ r.drawn
  increasing : ∀ r ∈ s.returned, ∀ r' ∈ s.returned, r.tx < r'.tx → r.value.time < r'.value.time

/-- A call after the first row write of a transaction finds the slot empty, or is not the first that draws in it. -/
def CallsFirst (s : TxSession u) : TxEvent → Prop
  | .currentHlc _ => s.inTx = true → s.wrote = true → s.ctx.txHlcSlot ≠ none → s.drawn ≠ []
  | _ => True

/-! ## What a call does -/

theorem call_cases (s : TxSession u) (now : Nat) :
    (∃ value, s.ctx.cached = some value ∧ s.call now = { s with returned := s.note value s.drawn }) ∨
    s.ctx.cached = none ∧ (s.call now = s ∨ ∃ value c, u.newTimestamp now s.clock = some (value, c) ∧
      s.call now = { s with
        clock := c, ctx := { s.ctx with txHlcSlot := some value }
        drawn := if s.inTx then s.drawn ++ [value] else s.drawn
        returned := s.note value (if s.inTx then s.drawn ++ [value] else s.drawn) }) := by
  unfold call ConnectionContext.currentOrNewTxHlc
  cases hcached : s.ctx.cached with
  | some value => exact .inl ⟨value, rfl, by simp⟩
  | none =>
    refine .inr ⟨rfl, ?_⟩
    rcases hnew : u.newTimestamp now s.clock with _ | ⟨value, c⟩
    · exact .inl rfl
    · exact .inr ⟨value, c, rfl, by simp⟩

/-! ## What holds on every connection -/

/-- The slot belongs to the open transaction once that has written a row; till then it is newer than all that was
returned. -/
structure Inv (s : TxSession u) : Prop where
  pending : s.ctx.writePending = (s.inTx && s.wrote)
  reached : ∀ r ∈ s.returned, r.value.time ≤ u.lastTime s.clock ∧ r.tx ≤ s.tx
  slot : ∀ ts, s.ctx.txHlcSlot = some ts → ts.time ≤ u.lastTime s.clock
  unwritten : s.inTx = true → s.wrote = false → ∀ r ∈ s.returned, r.tx < s.tx
  current : s.inTx = true → s.wrote = true → ∀ r ∈ s.returned, r.tx = s.tx → s.ctx.txHlcSlot = some r.value
  older : ∀ ts, s.ctx.txHlcSlot = some ts → ∀ r ∈ s.returned,
    (s.inTx = true ∧ s.wrote = true ∧ r.tx = s.tx) ∨ r.value.time < ts.time
  own : s.inTx = true → s.drawn ≠ [] → ∃ ts ∈ s.drawn, s.ctx.txHlcSlot = some ts
  equal : ∀ r ∈ s.returned, ∀ r' ∈ s.returned, r.tx = r'.tx → r.value = r'.value
  increasing : ∀ r ∈ s.returned, ∀ r' ∈ s.returned, r.tx < r'.tx → r.value.time < r'.value.time

variable {s : TxSession u}

theorem start_inv (c : u.Clock) : Inv ({ clock := c } : TxSession u) where
  pending := rfl
  reached := nofun
  slot := nofun
  unwritten := nofun
  current := nofun
  older := nofun
  own := nofun
  equal := nofun
  increasing := nofun

theorem Inv.begins (h : Inv s) : Inv (s.step .begins) := by
  simp only [step]
  split_ifs with hopen
  · exact h
  · have hclosed : s.inTx = false := by simpa using hopen
    exact {
      pending := by simpa [hclosed] using h.pending
      reached := fun r hr => ⟨(h.reached r hr).1, (h.reached r hr).2.trans (Nat.le_succ _)⟩
      slot := h.slot
      unwritten := fun _ _ r hr => Nat.lt_succ_of_le (h.reached r hr).2
      current := nofun
      older := fun ts hts r hr => .inr ((h.older ts hts r hr).resolve_left fun ho => hopen ho.1)
      own := fun _ hne => absurd rfl hne
      equal := h.equal
      increasing := h.increasing }

theorem Inv.rowWrite (h : Inv s) : Inv (s.step .rowWrite) := by
  simp only [step]
  split_ifs with hopen
  · exact {
      pending := by simp [hopen, ConnectionContext.markWritePending]
      reached := h.reached
      slot := h.slot
      unwritten := nofun
      current := fun _ _ r hr htx => by
        cases hwrote : s.wrote with
        | true => exact h.current hopen hwrote r hr htx
        | false => exact absurd htx (h.unwritten hopen hwrote r hr).ne
      older := fun ts hts r hr => (h.older ts hts r hr).imp_left fun ho => ⟨ho.1, rfl, ho.2.2⟩
      own := h.own
      equal := h.equal
      increasing := h.increasing }
  · exact h

theorem Inv.finish (h : Inv s) (hook : Bool) : Inv (s.step (.finish hook)) := by
  simp only [step]
  split_ifs with hopen hfires
  · exact {
      pending := rfl
      reached := h.reached
      slot := fun _ hts => by cases hts
      unwritten := nofun
      current := nofun
      older := fun _ hts => by cases hts
      own := nofun
      equal := h.equal
      increasing := h.increasing }
  · -- no hook: the transaction has written no row
    have hwrote : s.wrote = false := by
      rw [Bool.not_eq_true, Bool.or_eq_false_iff] at hfires
      exact hfires.1
    exact {
      pending := by simpa [hwrote] using h.pending
      reached := h.reached
      slot := h.slot
      unwritten := nofun
      current := nofun
      older := fun ts hts r hr => .inr ((h.older ts hts r hr).resolve_left fun ho => by simp [hwrote] at ho)
      own := nofun
      equal := h.equal
      increasing := h.increasing }
  · exact h

theorem Inv.advance (h : Inv s) {c : u.Clock} (hc : u.lastTime s.clock ≤ u.lastTime c) : Inv { s with clock := c } where
  pending := h.pending
  reached := fun r hr => ⟨(h.reached r hr).1.trans hc, (h.reached r hr).2⟩
  slot := fun ts hts => (h.slot ts hts).trans hc
  unwritten := h.unwritten
  current := h.current
  older := h.older
  own := h.own
  equal := h.equal
  increasing := h.increasing

theorem Inv.reuse (h : Inv s) {value : Timestamp} (hcached : s.ctx.cached = some value) :
    s.inTx = true ∧ s.wrote = true ∧ s.ctx.txHlcSlot = some value := by
  unfold ConnectionContext.cached at hcached
  split_ifs at hcached with hpending
  rw [h.pending, Bool.and_eq_true] at hpending
  exact ⟨hpending.1, hpending.2, hcached⟩

theorem Inv.returns (h : Inv s) (hopen : s.inTx = true) (hwrote : s.wrote = true) {value : Timestamp}
    (hslot : s.ctx.txHlcSlot = some value) (drawn : List Timestamp) :
    Inv { s with returned := s.returned ++ [⟨s.tx, value, drawn⟩] } := by
  have hmem : ∀ {r}, r ∈ s.returned ++ [⟨s.tx, value, drawn⟩] → r ∈ s.returned ∨ r = ⟨s.tx, value, drawn⟩ := fun hr => by
    simpa using hr
  -- a value of an earlier transaction is older, one of this transaction is the same
  have hearlier : ∀ r ∈ s.returned, r.tx ≠ s.tx → r.value.time < value.time := fun r hr hne =>
    (h.older value hslot r hr).resolve_left fun ho => hne ho.2.2
  have hsame : ∀ r ∈ s.returned, r.tx = s.tx → r.value = value := fun r hr htx =>
    Option.some.inj ((h.current hopen hwrote r hr htx).symm.trans hslot)
  refine { h with reached := ?_, unwritten := ?_, current := ?_, older := ?_, equal := ?_, increasing := ?_ }
  · intro r hr
    rcases hmem hr with hr | rfl
    · exact h.reached r hr
    · exact ⟨h.slot value hslot, le_rfl⟩
  · intro _ hno
    rw [hwrote] at hno
    cases hno
  · intro _ _ r hr htx
    rcases hmem hr with hr | rfl
    · exact h.current hopen hwrote r hr htx
    · exact hslot
  · intro ts hts r hr
    rcases hmem hr with hr | rfl
    · exact h.older ts hts r hr
    · exact .inl ⟨hopen, hwrote, rfl⟩
  · intro r hr r' hr' htx
    rcases hmem hr with hr | rfl <;> rcases hmem hr' with hr' | rfl
    · exact h.equal r hr r' hr' htx
    · exact hsame r hr htx
    · exact (hsame r' hr' htx.symm).symm
    · rfl
  · intro r hr r' hr' htx
    rcases hmem hr with hr | rfl <;> rcases hmem hr' with hr' | rfl
    · exact h.increasing r hr r' hr' htx
    · exact hearlier r hr htx.ne
    · exact absurd (h.reached r' hr').2 (not_le.2 htx)
    · exact absurd htx (lt_irrefl _)

/-- An HLC is drawn into the slot: it is newer than all there is. -/
theorem Inv.fill (h : Inv s) (hcached : s.ctx.cached = none) {now : Nat} {value : Timestamp} {c : u.Clock}
    (hnew : u.newTimestamp now s.clock = some (value, c)) :
    Inv { s with
      clock := c, ctx := { s.ctx with txHlcSlot := some value }
      drawn := if s.inTx then s.drawn ++ [value] else s.drawn } := by
  obtain ⟨hgt, hle⟩ := u.newTimestamp_increases hnew
  have hnewer : ∀ r ∈ s.returned, r.value.time < value.time := fun r hr => lt_of_le_of_lt (h.reached r hr).1 hgt
  refine {
    pending := h.pending
    reached := fun r hr => ⟨(hnewer r hr).le.trans hle, (h.reached r hr).2⟩
    slot := fun ts hts => Option.some.inj hts ▸ hle
    unwritten := h.unwritten
    current := fun hopen hwrote r hr htx => ?_
    older := fun ts hts r hr => .inr (Option.some.inj hts ▸ hnewer r hr)
    own := fun hopen _ => ⟨value, by simp [show s.inTx = true from hopen], rfl⟩
    equal := h.equal
    increasing := h.increasing }
  -- the slot was empty, so this transaction has returned nothing
  have hpending : s.ctx.writePending = true := by rw [h.pending, hopen, hwrote]; rfl
  rw [ConnectionContext.cached, if_pos hpending, h.current hopen hwrote r hr htx] at hcached
  cases hcached

theorem Inv.call (h : Inv s) (now : Nat) : Inv (s.call now) := by
  obtain ⟨value, hcached, hcall⟩ | ⟨hcached, hcall | ⟨value, c, hnew, hcall⟩⟩ := s.call_cases now
  · obtain ⟨hopen, hwrote, hslot⟩ := h.reuse hcached
    rw [hcall, s.note_active hopen hwrote]
    exact h.returns hopen hwrote hslot _
  · rwa [hcall]
  · have hfill := h.fill hcached hnew
    rw [hcall]
    by_cases hactive : s.inTx = true ∧ s.wrote = true
    · rw [s.note_active hactive.1 hactive.2]
      exact hfill.returns hactive.1 hactive.2 rfl _
    · rw [s.note_idle hactive]
      exact hfill

theorem Inv.step (h : Inv s) (e : TxEvent) : Inv (s.step e) := by
  cases e with
  | begins => exact h.begins
  | currentHlc now => exact h.call now
  | rowWrite => exact h.rowWrite
  | finish hook => exact h.finish hook
  | update now ts =>
    refine h.advance ?_
    rcases hnew : u.updateWithTimestamp now s.clock ts with _ | c
    · exact le_rfl
    · exact ((le_max_right _ _).trans (le_max_right _ _)).trans (u.update_adopts hnew)
  | draw now =>
    refine h.advance ?_
    rcases hnew : u.newTimestamp now s.clock with _ | ⟨ts, c⟩
    · exact le_rfl
    · exact (u.newTimestamp_increases hnew).1.le.trans (u.newTimestamp_increases hnew).2

/-! ## Where the transaction draws its own HLC -/

def Drawn (s : TxSession u) : Prop := ∀ r ∈ s.returned, r.value ∈ r.drawn

theorem drawn_append {rs : List ReturnedHlc} {r : ReturnedHlc} :
    (∀ x ∈ rs ++ [r], x.value ∈ x.drawn) ↔ (∀ x ∈ rs, x.value ∈ x.drawn) ∧ r.value ∈ r.drawn := by
  simp only [List.forall_mem_append, List.forall_mem_singleton]

theorem Inv.callsFirst (h : Inv s) (hcached : s.ctx.cached = none) (now : Nat) : CallsFirst s (.currentHlc now) := by
  intro hopen hwrote hslot
  have hpending : s.ctx.writePending = true := by rw [h.pending, hopen, hwrote]; rfl
  rw [ConnectionContext.cached, if_pos hpending] at hcached
  exact absurd hcached hslot

theorem drawn_call (h : Inv s) (now : Nat) : Drawn (s.call now) ↔ Drawn s ∧ CallsFirst s (.currentHlc now) := by
  obtain ⟨value, hcached, hcall⟩ | ⟨hcached, hcall | ⟨value, c, hnew, hcall⟩⟩ := s.call_cases now
  · obtain ⟨hopen, hwrote, hslot⟩ := h.reuse hcached
    rw [hcall, Drawn]
    simp only [s.note_active hopen hwrote, drawn_append]
    refine and_congr_right fun _ => ⟨fun hin _ _ _ => List.ne_nil_of_mem hin, fun hfirst => ?_⟩
    obtain ⟨ts, hts, hslot'⟩ := h.own hopen (hfirst hopen hwrote (by simp [hslot]))
    rwa [Option.some.inj (hslot.symm.trans hslot')]
  · rw [hcall, and_iff_left (h.callsFirst hcached now)]
  · rw [hcall, and_iff_left (h.callsFirst hcached now), Drawn]
    by_cases hactive : s.inTx = true ∧ s.wrote = true
    · simp only [s.note_active hactive.1 hactive.2, drawn_append]
      exact and_iff_left (by simp [hactive.1])
    · simp only [s.note_idle hactive]
      exact Iff.rfl

theorem drawn_step (h : Inv s) (e : TxEvent) : Drawn (s.step e) ↔ Drawn s ∧ CallsFirst s e := by
  cases e with
  | currentHlc now => exact drawn_call h now
  | begins | rowWrite | finish hook =>
    simp only [TxSession.step]
    split_ifs <;> exact (and_iff_left trivial).symm
  | update now ts | draw now => exact (and_iff_left trivial).symm

/-- Every write transaction has one HLC of its own exactly when no call after a first row write is the first call of its
transaction and finds the slot filled. -/
theorem one_hlc_per_transaction_iff (c : u.Clock) (events : List TxEvent) :
    OneHlcPerTransaction (run step ({ clock := c } : TxSession u) events) ↔
      Guarded step CallsFirst ({ clock := c } : TxSession u) events := by
  have hinv : Inv (run step ({ clock := c } : TxSession u) events) :=
    (guarded_true _ events).inv (fun _ e h _ => h.step e) (start_inv c)
  have hdrawn := run_iff_guarded (fun _ e h => h.step e) (fun _ e h => drawn_step h e) events (start_inv c)
  rw [and_iff_right (show Drawn ({ clock := c } : TxSession u) from nofun)] at hdrawn
  rw [← hdrawn]
  exact ⟨fun h => h.drawn, fun h => ⟨hinv.equal, h, hinv.increasing⟩⟩

end TxSession

def probeThenWrite : List TxEvent := [.currentHlc 16, .begins, .rowWrite, .currentHlc 32]

/-- The transaction inherits the HLC of the probe. -/
theorem probe_pins_hlc :
    ¬ ∀ (u : Uhlc) (c : u.Clock) (events : List TxEvent),
      TxSession.OneHlcPerTransaction (run TxSession.step ({ clock := c } : TxSession u) events) := by
  intro h
  have hdrawn := (h Uhlc.oneSecond ⟨nodeA, 0⟩ probeThenWrite).drawn ⟨1, ⟨16, by decide, nodeA⟩, []⟩ List.mem_cons_self
  cases hdrawn

end HaexVault.Crdt
