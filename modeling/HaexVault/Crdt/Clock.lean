import HaexVault.Crdt.Batch
import HaexVault.Crdt.Trigger
import HaexVault.Lib.Runs
/-!
# The local clock (`crdt/hlc.rs`, `extension/database/executor.rs`)

Local transactions draw their HLC from the `uhlc` clock (`Uhlc`), which a remote batch should push
past everything it brought. But the clock refuses a timestamp that is too far ahead, and what a
batch did to it is not persisted: local HLCs stay ahead under `ClockMeets`.
-/

namespace HaexVault.Crdt

open HaexVault.Lib.Runs

structure NodeId where
  val : Nat
  pos : 0 < val
  lt : val < 2 ^ 128

structure Timestamp where
  time : Nat
  time_lt : time < 2 ^ 64
  id : NodeId

/-- The `uhlc` crate: its clock, driven by a physical clock that is read at each call,
and the texts of its timestamps. `lastTime` is the time the clock has reached. -/
structure Uhlc where
  Clock : Type
  build : NodeId → Clock
  /-- `none` when the 64-bit time is used up. -/
  newTimestamp : Nat → Clock → Option (Timestamp × Clock)
  /-- `none` is the error. -/
  updateWithTimestamp : Nat → Clock → Timestamp → Option Clock
  maxDelta : Nat
  toText : Timestamp → String
  fromStr : String → Option Timestamp
  lastTime : Clock → Nat
  newTimestamp_increases : ∀ {now c ts c'}, newTimestamp now c = some (ts, c') →
    lastTime c < ts.time ∧ ts.time ≤ lastTime c'
  update_adopts : ∀ {now c ts c'}, updateWithTimestamp now c ts = some c' →
    max now (max ts.time (lastTime c)) ≤ lastTime c'
  update_refuses : ∀ {now c ts}, updateWithTimestamp now c ts = none ↔ now + maxDelta < ts.time
  parse_toText : ∀ ts, parseHlc (toText ts) = (ts.time, ts.id.val)
  fromStr_toText : ∀ ts, fromStr (toText ts) = some ts
  parse_fromStr : ∀ {s ts}, fromStr s = some ts → parseHlc s = (ts.time, ts.id.val)

/-- The device: `HlcService`, the `hlc_timestamp` config and the database, with the
HLCs it has stored so far. -/
structure ClockedDevice (u : Uhlc) where
  /-- `None` until `initialize_in_place` succeeds. -/
  hlc : Option u.Clock
  lastTimestamp : Option String
  db : Database
  stored : List String

inductive ClockEvent where
  /-- A local transaction. The physical clock is read when its HLC is drawn and again as
  each of its statements aligns the clock; `exec` is what they do with the HLC. -/
  | transaction (now : Nat) (statements : List Nat) (exec : Database → String → Except DatabaseError Database)
  /-- A bare `SELECT current_hlc()`. -/
  | probe (now : Nat)
  | remote (now : Nat) (hash : Hashing) (changes : List RemoteColumnChange) (backendInfo : Option (String × String))
  | restart (now : Nat) (id : NodeId)

section
variable (u : Uhlc)

/-- The statements of a transaction feed its HLC back to the clock, one after the other. -/
def alignHlc (ts : Timestamp) : List Nat → u.Clock → u.Clock × Option Timestamp
  | [], c => (c, some ts)
  | now :: nows, c => match u.updateWithTimestamp now c ts with
    | none => (c, none)
    | some c' => alignHlc ts nows c'

/-- `tx_scoped_hlc`: the clock after it, and the HLC unless an error ends the transaction.
The first statement draws the HLC. -/
def txScopedHlc (now : Nat) (statements : List Nat) (c : u.Clock) : u.Clock × Option Timestamp :=
  if statements = [] then (c, none)
  else match u.newTimestamp now c with
  | none => (c, none)
  | some (ts, c') => match u.fromStr (u.toText ts) with
    | none => (c', none)
    | some ts => alignHlc u ts statements c'

def advancePastRemote (now : Nat) (hlc : Option u.Clock) (hlcString : String) : Option u.Clock :=
  if hlcString = "" then hlc
  else match u.fromStr hlcString with
    | none => hlc
    -- the drift guard's error leaves the clock as it is
    | some ts => hlc.map fun c => (u.updateWithTimestamp now c ts).getD c

def initializeInPlace (now : Nat) (id : NodeId) (lastTimestamp : Option String) : Option u.Clock :=
  match lastTimestamp with
  | none => some (u.build id)
  | some s => (u.fromStr s).bind fun ts => u.updateWithTimestamp now (u.build id) ts

def ClockedDevice.step (env : Env) (dev : ClockedDevice u) : ClockEvent → ClockedDevice u
  | .transaction now statements exec => match dev.hlc with
    | none => dev
    | some c =>
      let drawn := txScopedHlc u now statements c
      match drawn.2 with
      | none => { dev with hlc := some drawn.1 }
      | some ts => match exec dev.db (u.toText ts) with
        -- a rollback takes the persisted timestamp back, but not the clock
        | .error _ => { dev with hlc := some drawn.1 }
        | .ok db => ⟨some drawn.1, some (u.toText ts), db, dev.stored ++ [u.toText ts]⟩
  | .probe now => { dev with hlc := dev.hlc.map fun c => ((u.newTimestamp now c).map (·.2)).getD c }
  | .remote now hash changes info => match applyRemoteChangesToDb env hash dev.db changes info with
    | .error _ => dev
    | .ok db =>
      { dev with
        hlc := advancePastRemote u now dev.hlc (advanceHlc hash changes info)
        db
        stored := dev.stored ++ changes.map (·.hlcTimestamp) }
  | .restart now id => { dev with hlc := initializeInPlace u now id dev.lastTimestamp }

/-- What each step must bring. A batch brings nothing the clock has not reached, or the
clock adopts the HLC chosen for it and nothing is newer than both that HLC and the
physical clock; at a restart nothing stored is newer than both the persisted timestamp
and the physical clock. -/
def ClockMeets (dev : ClockedDevice u) : ClockEvent → Prop
  | .remote now hash changes info => ∀ c, dev.hlc = some c → ∀ ch ∈ changes,
      (parseHlc ch.hlcTimestamp).1 ≤ u.lastTime c ∨
        ((compareHlcStrings ch.hlcTimestamp (advanceHlc hash changes info) ≠ .gt ∨ (parseHlc ch.hlcTimestamp).1 ≤ now) ∧
          ∃ ts, u.fromStr (advanceHlc hash changes info) = some ts ∧ ts.time ≤ now + u.maxDelta)
  | .restart now _ => ∀ h ∈ dev.stored, ∃ p, dev.lastTimestamp = some p ∧
      (compareHlcStrings h p ≠ .gt ∨ (parseHlc h).1 ≤ now)
  | _ => True

def Dominates (dev : ClockedDevice u) : ClockEvent → Prop
  | .transaction now statements _ => ∀ c ts, dev.hlc = some c → (txScopedHlc u now statements c).2 = some ts →
      ∀ h ∈ dev.stored, compareHlcStrings (u.toText ts) h = .gt
  | _ => True

def ClockAhead (dev : ClockedDevice u) : Prop :=
  ∀ c, dev.hlc = some c → ∀ h ∈ dev.stored, (parseHlc h).1 ≤ u.lastTime c

end

/-! ## Time decides -/

theorem compare_gt_of_time_lt {a b : String} (h : (parseHlc b).1 < (parseHlc a).1) : compareHlcStrings a b = .gt := by
  unfold compareHlcStrings
  rw [compare_gt_iff_gt.2 h]
  rfl

theorem time_le_of_compare {a b : String} (h : compareHlcStrings a b ≠ .gt) : (parseHlc a).1 ≤ (parseHlc b).1 := by
  by_contra hlt
  exact h (compare_gt_of_time_lt (not_le.1 hlt))

section
variable {u : Uhlc} {env : Env} {dev : ClockedDevice u}

theorem alignHlc_spec (ts : Timestamp) (nows : List Nat) (c : u.Clock) :
    u.lastTime c ≤ u.lastTime (alignHlc u ts nows c).1 ∧
      ∀ ts', (alignHlc u ts nows c).2 = some ts' → ts' = ts := by
  induction nows generalizing c with
  | nil => exact ⟨le_rfl, fun ts' h => (Option.some.inj h).symm⟩
  | cons now nows ih =>
    unfold alignHlc
    split
    · exact ⟨le_rfl, fun _ h => by cases h⟩
    · rename_i c' hc'
      have hadopt := u.update_adopts hc'
      exact ⟨le_trans (by omega) (ih c').1, (ih c').2⟩

theorem txScopedHlc_spec (now : Nat) (statements : List Nat) (c : u.Clock) :
    u.lastTime c ≤ u.lastTime (txScopedHlc u now statements c).1 ∧
      ∀ ts, (txScopedHlc u now statements c).2 = some ts →
        u.lastTime c < ts.time ∧ ts.time ≤ u.lastTime (txScopedHlc u now statements c).1 := by
  unfold txScopedHlc
  split
  · exact ⟨le_rfl, fun _ h => by cases h⟩
  · split
    · exact ⟨le_rfl, fun _ h => by cases h⟩
    · rename_i ts c' hnew
      obtain ⟨hgt, hle⟩ := u.newTimestamp_increases hnew
      rw [u.fromStr_toText]
      dsimp only
      obtain ⟨hlast, hsame⟩ := alignHlc_spec ts statements c'
      refine ⟨by omega, fun ts' h => ?_⟩
      obtain rfl := hsame ts' h
      exact ⟨hgt, by omega⟩

theorem transaction_dominates (h : ClockAhead u dev) (now : Nat) (statements : List Nat)
    (exec : Database → String → Except DatabaseError Database) : Dominates u dev (.transaction now statements exec) := by
  intro c ts hc hts x hx
  apply compare_gt_of_time_lt
  rw [u.parse_toText]
  exact lt_of_le_of_lt (h c hc x hx) ((txScopedHlc_spec now statements c).2 ts hts).1

theorem transaction_ahead (h : ClockAhead u dev) (now : Nat) (statements : List Nat)
    (exec : Database → String → Except DatabaseError Database) :
    ClockAhead u (dev.step u env (.transaction now statements exec)) := by
  unfold ClockedDevice.step
  dsimp only
  split
  · exact h
  · rename_i c hc
    obtain ⟨hlast, hdrawn⟩ := txScopedHlc_spec now statements c
    have hkept : ∀ x ∈ dev.stored, (parseHlc x).1 ≤ u.lastTime (txScopedHlc u now statements c).1 :=
      fun x hx => (h c hc x hx).trans hlast
    split
    · intro c' hc'
      obtain rfl := Option.some.inj hc'
      exact hkept
    · rename_i ts hts
      split
      · intro c' hc'
        obtain rfl := Option.some.inj hc'
        exact hkept
      · intro c' hc' x hx
        obtain rfl := Option.some.inj hc'
        rcases List.mem_append.1 hx with hx | hx
        · exact hkept x hx
        · rw [List.mem_singleton.1 hx, u.parse_toText]
          exact (hdrawn ts hts).2

theorem fromStr_ne_empty {s : String} {ts : Timestamp} (h : u.fromStr s = some ts) : s ≠ "" := by
  rintro rfl
  have hid : (parseHlc "").2 = ts.id.val := congrArg Prod.snd (u.parse_fromStr h)
  have hzero : (parseHlc "").2 = 0 := rfl
  have := ts.id.pos
  omega

theorem time_le_max {now : Nat} {a b : String} {ts : Timestamp} (hts : u.fromStr b = some ts)
    (h : compareHlcStrings a b ≠ .gt ∨ (parseHlc a).1 ≤ now) : (parseHlc a).1 ≤ max now ts.time := by
  rcases h with h | h
  · have htime := time_le_of_compare h
    rw [u.parse_fromStr hts] at htime
    omega
  · omega

theorem advancePastRemote_some {now : Nat} {c : u.Clock} {hlc : String} {c' : u.Clock}
    (h : advancePastRemote u now (some c) hlc = some c') : u.lastTime c ≤ u.lastTime c' ∧
      ∀ ts, u.fromStr hlc = some ts → ts.time ≤ now + u.maxDelta → max now ts.time ≤ u.lastTime c' := by
  unfold advancePastRemote at h
  split at h
  · rename_i hempty
    obtain rfl := Option.some.inj h
    exact ⟨le_rfl, fun ts hts => absurd hempty (fromStr_ne_empty hts)⟩
  · split at h
    · rename_i hnone
      obtain rfl := Option.some.inj h
      exact ⟨le_rfl, fun ts hts => by rw [hnone] at hts; cases hts⟩
    · rename_i ts hts
      have h : (u.updateWithTimestamp now c ts).getD c = c' := Option.some.inj h
      rcases hup : u.updateWithTimestamp now c ts with _ | c₁
      · rw [hup] at h
        obtain rfl : c = c' := h
        refine ⟨le_rfl, fun ts' hts' hle => ?_⟩
        rw [hts] at hts'
        obtain rfl := Option.some.inj hts'
        have := u.update_refuses.1 hup
        omega
      · rw [hup] at h
        obtain rfl : c₁ = c' := h
        have hadopt := u.update_adopts hup
        refine ⟨by omega, fun ts' hts' _ => ?_⟩
        rw [hts] at hts'
        obtain rfl := Option.some.inj hts'
        omega

theorem remote_ahead (h : ClockAhead u dev) {now : Nat} {hash : Hashing} {changes : List RemoteColumnChange}
    {info : Option (String × String)} (hm : ClockMeets u dev (.remote now hash changes info)) :
    ClockAhead u (dev.step u env (.remote now hash changes info)) := by
  unfold ClockedDevice.step
  dsimp only
  split
  · exact h
  · intro c' hc' x hx
    rcases hdev : dev.hlc with _ | c
    · -- a service that is not initialised stays so
      rw [hdev] at hc'
      unfold advancePastRemote at hc'
      split at hc'
      · cases hc'
      · split at hc'
        · cases hc'
        · cases hc'
    · rw [hdev] at hc'
      obtain ⟨hlast, hadopt⟩ := advancePastRemote_some hc'
      rcases List.mem_append.1 hx with hx | hx
      · exact (h c hdev x hx).trans hlast
      · obtain ⟨ch, hch, rfl⟩ := List.mem_map.1 hx
        rcases hm c hdev ch hch with hle | ⟨hcmp, ts, hts, hnear⟩
        · exact hle.trans hlast
        · have htime : (parseHlc ch.hlcTimestamp).1 ≤ max now ts.time := time_le_max hts hcmp
          exact htime.trans (hadopt ts hts hnear)

theorem restart_ahead {now : Nat} {id : NodeId} (hm : ClockMeets u dev (.restart now id)) :
    ClockAhead u (dev.step u env (.restart now id)) := by
  intro c hc x hx
  obtain ⟨p, hp, hcmp⟩ := hm x hx
  have hc : initializeInPlace u now id dev.lastTimestamp = some c := hc
  rw [hp] at hc
  obtain ⟨ts, hts, hup⟩ := Option.bind_eq_some_iff.1 hc
  have htime : (parseHlc x).1 ≤ max now ts.time := time_le_max hts hcmp
  have hadopt := u.update_adopts hup
  omega

theorem probe_ahead (h : ClockAhead u dev) (now : Nat) : ClockAhead u (dev.step u env (.probe now)) := by
  intro c' hc' x hx
  obtain ⟨c, hc, rfl⟩ := Option.map_eq_some_iff.1 hc'
  rcases hnew : u.newTimestamp now c with _ | ⟨ts, c₁⟩
  · exact h c hc x hx
  · obtain ⟨hgt, hle⟩ := u.newTimestamp_increases hnew
    have := h c hc x hx
    show (parseHlc x).1 ≤ u.lastTime c₁
    omega

theorem step_ahead (dev : ClockedDevice u) (e : ClockEvent) (h : ClockAhead u dev) (hm : ClockMeets u dev e) :
    ClockAhead u (dev.step u env e) := by
  rcases e with ⟨now, statements, exec⟩ | now | ⟨now, hash, changes, info⟩ | ⟨now, id⟩
  · exact transaction_ahead h now statements exec
  · exact probe_ahead h now
  · exact remote_ahead h hm
  · exact restart_ahead hm

theorem dominates_of_ahead (dev : ClockedDevice u) (e : ClockEvent) (h : ClockAhead u dev) : Dominates u dev e := by
  rcases e with ⟨now, statements, exec⟩ | now | ⟨now, hash, changes, info⟩ | ⟨now, id⟩
  · exact transaction_dominates h now statements exec
  · trivial
  · trivial
  · trivial

/-- In every run whose steps meet the condition, each local transaction's HLC is newer
than every HLC the device had stored before it. -/
theorem local_hlc_dominates {es : List ClockEvent} (h0 : ClockAhead u dev)
    (h : Guarded (ClockedDevice.step u env) (ClockMeets u) dev es) : Guarded (ClockedDevice.step u env) (Dominates u) dev es :=
  h.each step_ahead (fun dev e hI _ => dominates_of_ahead dev e hI) h0

end

/-! ## The crate -/

theorem digitVal_digitChar {b d : Nat} (hb : b = 10 ∨ b = 16) (hd : d < b) : digitVal b d.digitChar = some d := by
  rcases hb with rfl | rfl
  · revert d
    decide
  · revert d
    decide

theorem parse_toDigits {b : Nat} (hb : b = 10 ∨ b = 16) (n : Nat) :
    (Nat.toDigits b n).foldlM (fun n d => (digitVal b d).map (n * b + ·)) 0 = some n := by
  have hbase : 1 < b := by omega
  induction n using Nat.strong_induction_on with
  | _ n ih =>
    by_cases hn : n < b
    · rw [Nat.toDigits_of_lt_base hn, List.foldlM_cons, digitVal_digitChar hb hn]
      simp
    · -- the last digit, after the text of the quotient
      have hlt : n / b < n := Nat.div_lt_self (by omega) hbase
      rw [Nat.toDigits_of_base_le hbase (not_lt.1 hn), List.foldlM_append, ih _ hlt]
      simp only [Option.bind_eq_bind, Option.bind_some, List.foldlM_cons, List.foldlM_nil]
      rw [digitVal_digitChar hb (Nat.mod_lt n (by omega))]
      simp [Nat.div_add_mod']

theorem mem_toDigits {b : Nat} (hb : 1 < b) {c : Char} (n : Nat) (hc : c ∈ Nat.toDigits b n) :
    ∃ d < b, c = d.digitChar := by
  induction n using Nat.strong_induction_on with
  | _ n ih =>
    by_cases hn : n < b
    · rw [Nat.toDigits_of_lt_base hn, List.mem_singleton] at hc
      exact ⟨n, hn, hc⟩
    · rw [Nat.toDigits_of_base_le hb (not_lt.1 hn), List.mem_append, List.mem_singleton] at hc
      rcases hc with hc | rfl
      · exact ih _ (Nat.div_lt_self (by omega) hb) hc
      · exact ⟨n % b, Nat.mod_lt n (by omega), rfl⟩

theorem not_mem_toDigits {b : Nat} (hb : b = 10 ∨ b = 16) (n : Nat) :
    '+' ∉ Nat.toDigits b n ∧ '/' ∉ Nat.toDigits b n := by
  have hdigit : ∀ d < 16, Nat.digitChar d ≠ '+' ∧ Nat.digitChar d ≠ '/' := by decide
  constructor
  all_goals
    intro hc
    obtain ⟨d, hd, hcd⟩ := mem_toDigits (by omega) n hc
    have := hdigit d (by omega)
    simp_all

theorem fromStrRadix_toDigits {b bits n : Nat} (hb : b = 10 ∨ b = 16) (hn : n < 2 ^ bits) :
    fromStrRadix b bits (Nat.toDigits b n) = some n := by
  have hparse := parse_toDigits hb n
  have hplus := (not_mem_toDigits hb n).1
  unfold fromStrRadix
  rcases hl : Nat.toDigits b n with _ | ⟨c, cs⟩
  · exact absurd hl Nat.toDigits_ne_nil
  · rw [hl] at hparse hplus
    have hc : c ≠ '+' := by
      rintro rfl
      simp at hplus
    split
    · rename_i heq
      cases heq
      exact absurd rfl hc
    · have hdigits : parseDigits b (c :: cs) = some n := hparse
      dsimp only
      rw [hdigits]
      simp [hn]

theorem splitOnce_append {sep : Char} {l : List Char} (h : sep ∉ l) (r : List Char) :
    splitOnce sep (l ++ sep :: r) = some (l, r) := by
  induction l with
  | nil => simp [splitOnce]
  | cons c l ih =>
    rw [List.mem_cons, not_or] at h
    simp [splitOnce, Ne.symm h.1, ih h.2]

namespace Timestamp

def text (ts : Timestamp) : String := String.ofList (Nat.toDigits 10 ts.time ++ '/' :: Nat.toDigits 16 ts.id.val)

def read (s : String) : Option Timestamp :=
  match splitOnce '/' s.toList with
  | none => none
  | some (time, id) => match fromStrRadix 10 64 time, fromStrRadix 16 128 id with
    | some t, some i => if h : t < 2 ^ 64 ∧ 0 < i ∧ i < 2 ^ 128 then some ⟨t, h.1, i, h.2.1, h.2.2⟩ else none
    | _, _ => none

theorem splitOnce_text (ts : Timestamp) :
    splitOnce '/' ts.text.toList = some (Nat.toDigits 10 ts.time, Nat.toDigits 16 ts.id.val) := by
  rw [text, String.toList_ofList]
  exact splitOnce_append (not_mem_toDigits (.inl rfl) _).2 _

theorem read_text (ts : Timestamp) : read ts.text = some ts := by
  unfold read
  rw [splitOnce_text]
  dsimp only
  rw [fromStrRadix_toDigits (.inl rfl) ts.time_lt, fromStrRadix_toDigits (.inr rfl) ts.id.lt]
  exact dif_pos ⟨ts.time_lt, ts.id.pos, ts.id.lt⟩

theorem parse_read {s : String} {ts : Timestamp} (h : read s = some ts) : parseHlc s = (ts.time, ts.id.val) := by
  unfold read at h
  split at h
  · cases h
  · rename_i time id hsplit
    split at h
    · rename_i t i ht hi
      split at h
      · cases h
        have hid : id ≠ [] := by
          rintro rfl
          cases hi
        simp [parseHlc, hsplit, ht, parseHlcNodeHex, hi, hid]
      · cases h
    · cases h

end Timestamp

structure Hlc where
  id : NodeId
  lastTime : Nat

namespace Hlc

/-- The time of the next timestamp, from a physical clock's reading with the counter
bits cleared. -/
def nextTime (now : Nat) (c : Hlc) : Nat := if c.lastTime < now then now else c.lastTime + 1

def newTimestamp (now : Nat) (c : Hlc) : Option (Timestamp × Hlc) :=
  if h : c.nextTime now < 2 ^ 64 then some (⟨c.nextTime now, h, c.id⟩, ⟨c.id, c.nextTime now⟩) else none

def updateWithTimestamp (maxDelta now : Nat) (c : Hlc) (ts : Timestamp) : Option Hlc :=
  if now + maxDelta < ts.time then none
  else
    let maxTime := max (max now ts.time) c.lastTime
    some ⟨c.id, if maxTime = now then now else if maxTime = ts.time then ts.time + 1 else c.lastTime + 1⟩

theorem lt_nextTime (now : Nat) (c : Hlc) : c.lastTime < c.nextTime now := by
  unfold nextTime
  split
  · assumption
  · omega

theorem newTimestamp_lt {now : Nat} {c c' : Hlc} {ts : Timestamp} (h : c.newTimestamp now = some (ts, c')) :
    c.lastTime < ts.time ∧ ts.time ≤ c'.lastTime := by
  unfold newTimestamp at h
  split at h
  · cases h
    exact ⟨lt_nextTime now c, le_rfl⟩
  · cases h

theorem updateWithTimestamp_le {maxDelta now : Nat} {c c' : Hlc} {ts : Timestamp}
    (h : c.updateWithTimestamp maxDelta now ts = some c') : max now (max ts.time c.lastTime) ≤ c'.lastTime := by
  unfold updateWithTimestamp at h
  split at h
  · cases h
  · cases h
    dsimp only
    split
    · omega
    · split
      · omega
      · omega

theorem updateWithTimestamp_eq_none {maxDelta now : Nat} {c : Hlc} {ts : Timestamp} :
    c.updateWithTimestamp maxDelta now ts = none ↔ now + maxDelta < ts.time := by
  unfold updateWithTimestamp
  split
  · exact iff_of_true rfl ‹_›
  · exact iff_of_false nofun ‹_›

end Hlc

/-- The crate with `max_delta` one second, in its 32.32 fixed-point time. -/
def Uhlc.oneSecond : Uhlc where
  Clock := Hlc
  build := fun id => ⟨id, 0⟩
  newTimestamp := fun now c => c.newTimestamp now
  updateWithTimestamp := fun now c ts => c.updateWithTimestamp (2 ^ 32) now ts
  maxDelta := 2 ^ 32
  toText := Timestamp.text
  fromStr := Timestamp.read
  lastTime := Hlc.lastTime
  newTimestamp_increases := Hlc.newTimestamp_lt
  update_adopts := Hlc.updateWithTimestamp_le
  update_refuses := Hlc.updateWithTimestamp_eq_none
  parse_toText := fun ts => Timestamp.parse_read ts.read_text
  fromStr_toText := Timestamp.read_text
  parse_fromStr := Timestamp.parse_read

def nodeA : NodeId := ⟨10, by decide, by decide⟩

def closedVault : ClockedDevice Uhlc.oneSecond := ⟨none, none, notesDb (emptyTable ["id"] ["title", "body"]), []⟩

def noteTransaction (now : Nat) (id : String) : ClockEvent :=
  .transaction now [now] fun db hlc => localInsert db "notes" [("id", .text id), ("title", .text "y")] hlc

def pullThenWrite (remoteHlc : String) : List ClockEvent :=
  [.restart 16 nodeA, .remote 32 inOrder [noteChange "title" remoteHlc "x"] none, noteTransaction 32 "d"]

theorem local_hlc_dominates_notes :
    Guarded (ClockedDevice.step Uhlc.oneSecond notesEnv) (Dominates Uhlc.oneSecond) closedVault
      (pullThenWrite "64/b" ++ [.restart 80 nodeA, noteTransaction 80 "e"]) := by
  have hremote : ClockMeets Uhlc.oneSecond (closedVault.step Uhlc.oneSecond notesEnv (.restart 16 nodeA))
      (.remote 32 inOrder [noteChange "title" "64/b" "x"] none) := by
    intro c _ ch hch
    rw [List.mem_singleton.1 hch]
    refine .inr ⟨.inl (by decide), ⟨64, by decide, 11, by decide, by decide⟩, ?_, by decide⟩
    exact Timestamp.read_text ⟨64, by decide, 11, by decide, by decide⟩
  -- the vault is closed at first, so no clock is behind
  refine local_hlc_dominates (fun c hc => by cases hc) ⟨?_, hremote, trivial, ?_, trivial, trivial⟩
  · intro x hx
    cases hx
  · -- the local transaction after the batch has persisted a newer timestamp
    intro x hx
    have hstored : x = "64/b" ∨ x = "66/a" := by simpa using (show x ∈ ["64/b", "66/a"] from hx)
    refine ⟨"66/a", by decide, .inl ?_⟩
    rcases hstored with rfl | rfl
    · decide
    · decide

/-- The note from the other device is four seconds ahead: it is stored, the clock stays
where it is, and the local transaction gets an older HLC. -/
theorem remote_ahead_of_local_clock :
    ¬ Guarded (ClockedDevice.step Uhlc.oneSecond notesEnv) (Dominates Uhlc.oneSecond) closedVault
      (pullThenWrite "17179869184/b") := by
  intro h
  have hgt := h.2.2.1 ⟨nodeA, 0⟩ ⟨32, by decide, nodeA⟩ rfl rfl "17179869184/b" (by decide)
  exact absurd hgt (by decide)

end HaexVault.Crdt
