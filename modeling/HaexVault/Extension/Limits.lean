import HaexVault.Lib.Calls
import HaexVault.Lib.Words
/-!
# Resource limits (`extension/limits`)

A call reads a counter, compares it with the limit, and increments the counter in a later step; other
calls come in between. A guard gives its slot back through the map of counters. `limits_hold_iff` says
in which runs the limits hold.
-/

namespace HaexVault.Extension.Limits

open HaexVault.Lib HaexVault.Lib.Runs HaexVault.Lib.Words

/-- What a guard is for; each has a `ConcurrencyTracker` of its own. -/
inductive Slot where
  | query | request
  deriving DecidableEq

/-- `DatabaseLimits` and `WebLimits`. -/
structure ExtensionLimits where
  maxConcurrentQueries : Int64
  maxConcurrentRequests : Int64
  maxRequestsPerMinute : Int64
  maxBandwidthBytesPerMinute : Int64
  queries_pos : 0 < maxConcurrentQueries.toInt
  slots_pos : 0 < maxConcurrentRequests.toInt
  requests_pos : 0 < maxRequestsPerMinute.toInt
  bandwidth_pos : 0 < maxBandwidthBytesPerMinute.toInt

def ExtensionLimits.maxConcurrent (l : ExtensionLimits) : Slot → Int64
  | .query => l.maxConcurrentQueries
  | .request => l.maxConcurrentRequests

inductive LimitError where
  | tooManyConcurrentQueries (current : UInt64) (max : Int64)
  | tooManyConcurrentWebRequests (current : UInt64) (max : Int64)
  | rateLimitExceeded (requests : UInt64) (max : Int64)
  | bandwidthExceeded (bytes : Int64) (max : Int64)
  deriving DecidableEq

def Slot.error : Slot → UInt64 → Int64 → LimitError
  | .query => .tooManyConcurrentQueries
  | .request => .tooManyConcurrentWebRequests

structure RateLimitWindow where
  count : UInt64
  bytes : Int64
  windowStart : Nat
  number : Nat

structure Enforcers where
  counters : Slot → Option UInt64
  window : Option RateLimitWindow

abbrev ByteCount := { b : Int64 // 0 ≤ b.toInt }

/-- `check_rate_limit` and `check_bandwidth`. -/
inductive Check where
  | requests
  | bandwidth (bytes : ByteCount)
  deriving DecidableEq

/-- A call, after each of its atomic steps. -/
inductive Call where
  | slot (k : Slot)
  /-- `get_count` has returned. -/
  | slotCounted (k : Slot) (current : UInt64)
  /-- `acquire` has looked for the counter. -/
  | slotFound (k : Slot)
  | slotMissed (k : Slot)
  /-- The guard lives. -/
  | holding (k : Slot)
  | dropped (k : Slot)
  | check (k : Check)
  | windowMissed (k : Check)
  | windowed (k : Check)
  /-- `reset_if_expired` has returned. -/
  | fresh (k : Check)
  | requestsLoaded (current : UInt64)
  | bytesLoaded (bytes : ByteCount) (current : Int64)
  /-- Let through, in the window with this number. -/
  | granted (k : Check) (number : Nat)
  | refused (e : LimitError)
  deriving DecidableEq

structure Clock where
  first : Nat
  last : Nat

def windowDuration : Nat := 60000

def RateLimitWindow.resetIfExpired (w : RateLimitWindow) (clock : Clock) : RateLimitWindow :=
  if windowDuration ≤ clock.first - w.windowStart then ⟨0, 0, clock.last, w.number + 1⟩ else w

def Enforcers.setCounter (s : Enforcers) (k : Slot) (n : Option UInt64) : Enforcers :=
  { s with counters := fun k' => if k' = k then n else s.counters k' }

def Enforcers.getCount (s : Enforcers) (k : Slot) : UInt64 := (s.counters k).getD 0

def Enforcers.release (s : Enforcers) (k : Slot) : Enforcers := s.setCounter k ((s.counters k).map (· - 1))

/-- One atomic step of a call: a section under a lock, or one operation on an atomic. -/
def advance (limits : ExtensionLimits) (s : Enforcers) : Call → Clock → Enforcers × Call
  | .slot k, _ => (s, .slotCounted k (s.getCount k))
  | .slotCounted k current, _ =>
    if limits.maxConcurrent k ≤ current.toInt64 then (s, .refused (k.error current (limits.maxConcurrent k)))
    else (s, if (s.counters k).isSome then .slotFound k else .slotMissed k)
  | .slotFound k, _ => (s.setCounter k ((s.counters k).map (· + 1)), .holding k)
  | .slotMissed k, _ => (s.setCounter k (some (s.getCount k + 1)), .holding k)
  | .holding k, _ => (s.release k, .dropped k)
  | .check k, _ => (s, if s.window.isSome then .windowed k else .windowMissed k)
  | .windowMissed k, clock => ({ s with window := some (s.window.getD ⟨0, 0, clock.last, 0⟩) }, .windowed k)
  | .windowed k, clock => ({ s with window := s.window.map (·.resetIfExpired clock) }, .fresh k)
  | .fresh .requests, _ => (s, .requestsLoaded ((s.window.map (·.count)).getD 0))
  | .fresh (.bandwidth bytes), _ => (s, .bytesLoaded bytes ((s.window.map (·.bytes)).getD 0))
  | .requestsLoaded current, _ =>
    if limits.maxRequestsPerMinute ≤ current.toInt64 then
      (s, .refused (.rateLimitExceeded current limits.maxRequestsPerMinute))
    else
      ({ s with window := s.window.map fun w => { w with count := w.count + 1 } },
        .granted .requests ((s.window.map (·.number)).getD 0))
  | .bytesLoaded bytes current, _ =>
    if limits.maxBandwidthBytesPerMinute < current + bytes then
      (s, .refused (.bandwidthExceeded (current + bytes) limits.maxBandwidthBytesPerMinute))
    else
      ({ s with window := s.window.map fun w => { w with bytes := w.bytes + bytes } },
        .granted (.bandwidth bytes) ((s.window.map (·.number)).getD 0))
  | c, _ => (s, c)

inductive Start where
  | slot (k : Slot)
  | check (k : Check)

def enforcing (limits : ExtensionLimits) : Calls.Machine Enforcers Start Call Clock Empty where
  start
    | .slot k => .slot k
    | .check k => .check k
  advance := advance limits
  outside s _ := s

abbrev State := Calls.Sys Enforcers Call
abbrev Event := Calls.Event Start Clock Empty

def State.start : State := { shared := ⟨fun _ => none, none⟩ }

/-! ## Guards and grants -/

def Call.guards (k : Slot) (c : Call) : Int := if c = .holding k then 1 else 0

def Call.requestsIn (number : Nat) (c : Call) : Int := if c = .granted .requests number then 1 else 0

def Call.bytesIn (number : Nat) : Call → Int
  | .granted (.bandwidth bytes) n => if n = number then bytes.1.toInt else 0
  | _ => 0

abbrev live (k : Slot) (σ : State) : Int := σ.total (Call.guards k)

abbrev requestsIn (number : Nat) (σ : State) : Int := σ.total (Call.requestsIn number)

abbrev bytesIn (number : Nat) (σ : State) : Int := σ.total (Call.bytesIn number)

/-- The limits hold, and the trackers count the guards. -/
structure WithinLimits (limits : ExtensionLimits) (σ : State) : Prop where
  guards : ∀ k, live k σ ≤ (limits.maxConcurrent k).toInt
  counted : ∀ k, ((σ.shared.getCount k).toNat : Int) = live k σ
  requests : ∀ n, requestsIn n σ ≤ limits.maxRequestsPerMinute.toInt
  bytes : ∀ n, bytesIn n σ ≤ limits.maxBandwidthBytesPerMinute.toInt
  noOverflow : ∀ bytes current, Call.bytesLoaded bytes current ∈ σ.calls → current.toInt + bytes.1.toInt < 2 ^ 63

/-- What was free when a call looked is free when it takes it; and a sum of bytes is in range. -/
def RoomLeft (limits : ExtensionLimits) (s : Enforcers) : Call → Prop
  | .slotFound k | .slotMissed k => (s.getCount k).toNat < (limits.maxConcurrent k).toInt
  | .requestsLoaded current => current.toInt64 < limits.maxRequestsPerMinute →
      ∀ w ∈ s.window, (w.count.toNat : Int) < limits.maxRequestsPerMinute.toInt
  | .bytesLoaded bytes current => current + bytes ≤ limits.maxBandwidthBytesPerMinute →
      ∀ w ∈ s.window, w.bytes.toInt + bytes.1.toInt ≤ limits.maxBandwidthBytesPerMinute.toInt
  | .fresh (.bandwidth bytes) => ∀ w ∈ s.window, w.bytes.toInt + bytes.1.toInt < 2 ^ 63
  | _ => True

def FindsRoom (limits : ExtensionLimits) (σ : State) : Event → Prop
  | .resume i _ => ∀ c, σ.calls[i]? = some c → RoomLeft limits σ.shared c
  | _ => True

/-! ## The books -/

def Placed (s : Enforcers) : Call → Prop
  | .slotFound k | .holding k => (s.counters k).isSome
  | .windowed _ | .fresh _ | .requestsLoaded _ | .bytesLoaded .. => s.window.isSome
  | _ => True

/-- The window counts what was granted in it, and nothing was granted in a later one. -/
structure Books (σ : State) : Prop where
  placed : ∀ c ∈ σ.calls, Placed σ.shared c
  count : ∀ w ∈ σ.shared.window, (w.count.toNat : Int) = requestsIn w.number σ
  bytes : ∀ w ∈ σ.shared.window, w.bytes.toInt = bytesIn w.number σ
  later : ∀ n, (∀ w ∈ σ.shared.window, w.number < n) → requestsIn n σ = 0 ∧ bytesIn n σ = 0

/-! ## What a step does -/

def Call.Empty : Call → Prop
  | .holding _ | .granted .. => False
  | _ => True

section Empty
variable {c : Call} {k : Slot} {n : Nat}

theorem Call.Empty.guards (h : c.Empty) : c.guards k = 0 := by
  unfold Call.guards
  exact if_neg (by rintro rfl; exact h)

theorem Call.Empty.requestsIn (h : c.Empty) : c.requestsIn n = 0 := by
  unfold Call.requestsIn
  exact if_neg (by rintro rfl; exact h)

theorem Call.Empty.bytesIn (h : c.Empty) : c.bytesIn n = 0 := by
  cases c <;> first | rfl | exact h.elim

@[simp] theorem guards_holding : (Call.holding k).guards k = 1 := if_pos rfl

theorem guards_other {k' : Slot} (h : k' ≠ k) : (Call.holding k).guards k' = 0 := if_neg (by simpa using h.symm)

@[simp] theorem guards_granted {check : Check} : (Call.granted check n).guards k = 0 := if_neg (by simp)

@[simp] theorem requestsIn_holding : (Call.holding k).requestsIn n = 0 := if_neg (by simp)

@[simp] theorem bytesIn_holding : (Call.holding k).bytesIn n = 0 := rfl

@[simp] theorem bytesIn_requests {m : Nat} : (Call.granted .requests m).bytesIn n = 0 := rfl

@[simp] theorem requestsIn_bandwidth {bytes : ByteCount} {m : Nat} : (Call.granted (.bandwidth bytes) m).requestsIn n = 0 :=
  if_neg (by simp)

end Empty

def SameOthers (s s' : Enforcers) (k : Slot) : Prop := ∀ k', k' ≠ k → s'.counters k' = s.counters k'

/-- What a step of a call can do, and where it needs room. -/
inductive Effect (limits : ExtensionLimits) (s : Enforcers) (c : Call) : Enforcers → Call → Prop
  | ended (room : RoomLeft limits s c) : Effect limits s c s c
  | goesOn {c' : Call} (hc : c.Empty) (hc' : c'.Empty) (hplaced : Placed s c')
      (room : RoomLeft limits s c ↔ ∀ bytes current, c' = .bytesLoaded bytes current → current.toInt + bytes.1.toInt < 2 ^ 63) :
      Effect limits s c s c'
  | takes {k : Slot} {s' : Enforcers} (hc : c.Empty) (hcount : s'.counters k = some (s.getCount k + 1)) (hothers : SameOthers s s' k)
      (hwindow : s'.window = s.window)
      (room : RoomLeft limits s c ↔ ((s.getCount k).toNat : Int) < (limits.maxConcurrent k).toInt) : Effect limits s c s' (.holding k)
  | drops {k : Slot} {n : UInt64} {s' : Enforcers} (hc : c = .holding k) (hn : s.counters k = some n)
      (hcount : s'.counters k = some (n - 1)) (hothers : SameOthers s s' k) (hwindow : s'.window = s.window)
      (room : RoomLeft limits s c) : Effect limits s c s' (.dropped k)
  | opens {k : Check} {w : RateLimitWindow} (hc : c.Empty) (hnone : ∀ v ∈ s.window, v.number < w.number) (hcount : w.count = 0)
      (hbytes : w.bytes = 0) {c' : Call} (hc' : c' = .windowed k ∨ c' = .fresh k) (room : RoomLeft limits s c) :
      Effect limits s c { s with window := some w } c'
  | grantsRequest {w : RateLimitWindow} (hc : c.Empty) (hw : s.window = some w)
      (room : RoomLeft limits s c ↔ (w.count.toNat : Int) < limits.maxRequestsPerMinute.toInt) :
      Effect limits s c { s with window := some { w with count := w.count + 1 } } (.granted .requests w.number)
  | grantsBytes {w : RateLimitWindow} {bytes : ByteCount} (hc : c.Empty) (hw : s.window = some w)
      (room : RoomLeft limits s c ↔ w.bytes.toInt + bytes.1.toInt ≤ limits.maxBandwidthBytesPerMinute.toInt) :
      Effect limits s c { s with window := some { w with bytes := w.bytes + bytes } } (.granted (.bandwidth bytes) w.number)

theorem Effect.goes {limits : ExtensionLimits} {s : Enforcers} {c c' : Call} (hc : c.Empty) (hc' : c'.Empty) (hplaced : Placed s c')
    (room : RoomLeft limits s c) (hne : ∀ bytes current, c' ≠ .bytesLoaded bytes current) : Effect limits s c s c' :=
  .goesOn hc hc' hplaced ⟨fun _ bytes current h => absurd h (hne bytes current), fun _ => room⟩

theorem advance_effect (limits : ExtensionLimits) (s : Enforcers) (c : Call) (clock : Clock) (hplaced : Placed s c) :
    Effect limits s c (advance limits s c clock).1 (advance limits s c clock).2 := by
  have hset : ∀ k n, (s.setCounter k n).counters k = n ∧ SameOthers s (s.setCounter k n) k := fun k n =>
    ⟨if_pos rfl, fun k' hk' => if_neg hk'⟩
  cases c with
  | slot k => exact .goes trivial trivial trivial trivial (by rintro _ _ ⟨⟩)
  | slotCounted k current =>
    simp only [advance]
    split
    · exact .goes trivial trivial trivial trivial (by rintro _ _ ⟨⟩)
    · by_cases hk : (s.counters k).isSome
      · rw [if_pos hk]
        exact .goes trivial trivial hk trivial (by rintro _ _ ⟨⟩)
      · rw [if_neg hk]
        exact .goes trivial trivial trivial trivial (by rintro _ _ ⟨⟩)
  | slotFound k =>
    obtain ⟨n, hn⟩ := Option.isSome_iff_exists.1 hplaced
    have hcount : s.getCount k = n := by rw [Enforcers.getCount, hn, Option.getD_some]
    refine .takes trivial ?_ (hset k _).2 rfl Iff.rfl
    rw [hcount]
    simp only [advance, hn]
    exact (hset k _).1
  | slotMissed k => exact .takes trivial (hset k _).1 (hset k _).2 rfl Iff.rfl
  | holding k =>
    obtain ⟨n, hn⟩ := Option.isSome_iff_exists.1 hplaced
    refine .drops rfl hn ?_ (hset k _).2 rfl trivial
    simp only [advance, Enforcers.release, hn]
    exact (hset k _).1
  | dropped k | granted k n | refused e => exact .ended trivial
  | check k =>
    simp only [advance]
    split
    · rename_i hw
      exact .goes trivial trivial hw trivial (by rintro _ _ ⟨⟩)
    · exact .goes trivial trivial trivial trivial (by rintro _ _ ⟨⟩)
  | windowMissed k =>
    simp only [advance]
    cases hw : s.window with
    | none =>
      have hempty : (Call.windowMissed k).Empty := trivial
      exact .opens hempty (by simp [hw]) rfl rfl (.inl rfl) trivial
    | some w =>
      have hsame : { s with window := some ((some w).getD ⟨0, 0, clock.last, 0⟩) } = s := by rw [Option.getD_some, ← hw]
      rw [hsame]
      exact .goes trivial trivial (by simp [Placed, hw]) trivial (by rintro _ _ ⟨⟩)
  | windowed k =>
    obtain ⟨w, hw⟩ := Option.isSome_iff_exists.1 hplaced
    simp only [advance, hw, Option.map_some, RateLimitWindow.resetIfExpired]
    split
    · have hempty : (Call.windowed k).Empty := trivial
      exact .opens hempty (by simp [hw]) rfl rfl (.inr rfl) trivial
    · rw [← hw]
      exact .goes trivial trivial hplaced trivial (by rintro _ _ ⟨⟩)
  | fresh k =>
    obtain ⟨w, hw⟩ := Option.isSome_iff_exists.1 hplaced
    cases k with
    | requests => exact .goes trivial trivial hplaced trivial (by rintro _ _ ⟨⟩)
    | bandwidth bytes =>
      refine .goesOn trivial trivial hplaced ⟨fun hroom b current h => ?_, fun h v hv => ?_⟩
      · simp only [advance, hw, Option.map_some, Option.getD_some, Call.bytesLoaded.injEq] at h
        rw [← h.1, ← h.2]
        exact hroom w hw
      · rw [hw, Option.mem_some_iff] at hv
        exact h bytes v.bytes (by simp only [advance, hw, hv, Option.map_some, Option.getD_some])
  | requestsLoaded current =>
    obtain ⟨w, hw⟩ := Option.isSome_iff_exists.1 hplaced
    simp only [advance, hw, Option.map_some, Option.getD_some]
    split
    · rename_i hle
      exact .goes trivial trivial trivial (fun hlt => absurd hlt (Int64.not_lt.2 hle)) (by rintro _ _ ⟨⟩)
    · rename_i hlt
      exact .grantsRequest trivial hw (by simp [RoomLeft, hw, Int64.not_le.1 hlt])
  | bytesLoaded bytes current =>
    obtain ⟨w, hw⟩ := Option.isSome_iff_exists.1 hplaced
    simp only [advance, hw, Option.map_some, Option.getD_some]
    split
    · rename_i hlt
      exact .goes trivial trivial trivial (fun hle => absurd hlt (Int64.not_lt.2 hle)) (by rintro _ _ ⟨⟩)
    · rename_i hle
      exact .grantsBytes trivial hw (by simp [RoomLeft, hw, Int64.not_lt.1 hle])

/-! ## One step of a call -/

structure GoneOn (σ σ' : State) (c c' : Call) : Prop where
  mem : c ∈ σ.calls
  calls : ∀ d ∈ σ'.calls, d ∈ σ.calls ∨ d = c'
  now : c' ∈ σ'.calls
  total : ∀ f, σ'.total f + f c = σ.total f + f c'

section Step
variable {limits : ExtensionLimits} {σ σ' : State} {c c' : Call}

theorem GoneOn.same (h : GoneOn σ σ' c c') {f : Call → Int} (hf : f c' = f c) : σ'.total f = σ.total f := by
  have htotal := h.total f
  omega

theorem GoneOn.empty (h : GoneOn σ σ' c c') (hc : c.Empty) (hc' : c'.Empty) :
    (∀ k, live k σ' = live k σ) ∧ (∀ n, requestsIn n σ' = requestsIn n σ) ∧ ∀ n, bytesIn n σ' = bytesIn n σ :=
  ⟨fun _ => h.same (by rw [hc.guards, hc'.guards]), fun _ => h.same (by rw [hc.requestsIn, hc'.requestsIn]),
    fun _ => h.same (by rw [hc.bytesIn, hc'.bytesIn])⟩

theorem getCount_congr {s s' : Enforcers} {k : Slot} (h : s'.counters k = s.counters k) : s'.getCount k = s.getCount k := by
  rw [Enforcers.getCount, Enforcers.getCount, h]

theorem GoneOn.noOverflow (h : GoneOn σ σ' c c') (hw : WithinLimits limits σ) (hne : ∀ bytes current, c' ≠ .bytesLoaded bytes current)
    (bytes : ByteCount) (current : Int64) (hmem : .bytesLoaded bytes current ∈ σ'.calls) :
    current.toInt + bytes.1.toInt < 2 ^ 63 := by
  rcases h.calls _ hmem with hold | hnew
  · exact hw.noOverflow bytes current hold
  · exact absurd hnew.symm (hne bytes current)

theorem live_nonneg (k : Slot) (σ : State) : 0 ≤ live k σ :=
  Calls.total_nonneg (fun c => by unfold Call.guards; split <;> decide) σ

theorem Placed.mono {s s' : Enforcers} (hcounters : ∀ k, (s.counters k).isSome → (s'.counters k).isSome)
    (hwindow : s.window.isSome → s'.window.isSome) {d : Call} (h : Placed s d) : Placed s' d := by
  cases d <;> first | trivial | exact hcounters _ h | exact hwindow h

theorem SameOthers.isSome {s s' : Enforcers} {k : Slot} (h : SameOthers s s' k) (hk : (s'.counters k).isSome) (k' : Slot)
    (hk' : (s.counters k').isSome) : (s'.counters k').isSome := by
  by_cases he : k' = k
  · rwa [he]
  · rwa [h k' he]

theorem GoneOn.placed (h : GoneOn σ σ' c c') (hb : Books σ) (hmono : ∀ d, Placed σ.shared d → Placed σ'.shared d)
    (hnew : Placed σ'.shared c') : ∀ d ∈ σ'.calls, Placed σ'.shared d := by
  intro d hd
  rcases h.calls d hd with hold | rfl
  · exact hmono d (hb.placed d hold)
  · exact hnew

theorem Books.of_same (hb : Books σ) (hplaced : ∀ d ∈ σ'.calls, Placed σ'.shared d) (hwindow : σ'.shared.window = σ.shared.window)
    (hrequests : ∀ n, requestsIn n σ' = requestsIn n σ) (hbytes : ∀ n, bytesIn n σ' = bytesIn n σ) : Books σ' := by
  refine ⟨hplaced, fun w hw => ?_, fun w hw => ?_, fun n hn => ?_⟩
  · rw [hrequests, hb.count w (hwindow ▸ hw)]
  · rw [hbytes, hb.bytes w (hwindow ▸ hw)]
  · rw [hrequests, hbytes]
    exact hb.later n (hwindow ▸ hn)

theorem GoneOn.gain (h : GoneOn σ σ' c c') (hc : c.Empty) : (∀ k, live k σ' = live k σ + c'.guards k) ∧
    (∀ n, requestsIn n σ' = requestsIn n σ + c'.requestsIn n) ∧ ∀ n, bytesIn n σ' = bytesIn n σ + c'.bytesIn n := by
  refine ⟨fun k => ?_, fun n => ?_, fun n => ?_⟩
  · have htotal : live k σ' + c.guards k = live k σ + c'.guards k := h.total _
    rwa [hc.guards, Int.add_zero] at htotal
  · have htotal : requestsIn n σ' + c.requestsIn n = requestsIn n σ + c'.requestsIn n := h.total _
    rwa [hc.requestsIn, Int.add_zero] at htotal
  · have htotal : bytesIn n σ' + c.bytesIn n = bytesIn n σ + c'.bytesIn n := h.total _
    rwa [hc.bytesIn, Int.add_zero] at htotal

theorem Books.later_than (hb : Books σ) {w : RateLimitWindow} (hw : σ.shared.window = some w) {n : Nat} (hn : w.number < n) :
    w.number ≠ n ∧ requestsIn n σ = 0 ∧ bytesIn n σ = 0 := by
  refine ⟨Nat.ne_of_lt hn, hb.later n fun u hu => ?_⟩
  cases hw.symm.trans hu
  exact hn

theorem Placed.withWindow {s : Enforcers} (w : RateLimitWindow) {d : Call} (h : Placed s d) : Placed { s with window := some w } d := by
  cases d <;> trivial

/-- After a step within the limits the books are right. -/
theorem books_step (hgone : GoneOn σ σ' c c') (heffect : Effect limits σ.shared c σ'.shared c') (hb : Books σ)
    (hw : WithinLimits limits σ) (hw' : WithinLimits limits σ') : Books σ' := by
  generalize hs : σ'.shared = s' at heffect
  cases heffect with
  | ended room =>
    refine hb.of_same (hgone.placed hb (fun d => by rw [hs]; exact id) ?_) (by rw [hs]) (fun _ => hgone.same rfl) fun _ => hgone.same rfl
    rw [hs]
    exact hb.placed c hgone.mem
  | goesOn hc hc' hnew room =>
    obtain ⟨-, hrequests, hbytes⟩ := hgone.empty hc hc'
    refine hb.of_same (hgone.placed hb (fun d => by rw [hs]; exact id) ?_) (by rw [hs]) hrequests hbytes
    rw [hs]
    exact hnew
  | takes hc hcount hothers hwindow room =>
    obtain ⟨-, hrequests, hbytes⟩ := hgone.gain hc
    have hk : (s'.counters _).isSome := Option.isSome_iff_exists.2 ⟨_, hcount⟩
    refine hb.of_same (hgone.placed hb (fun d hd => ?_) ?_) (by rw [hs, hwindow]) (fun n => ?_) fun n => ?_
    · rw [hs]
      exact hd.mono (hothers.isSome hk) (by rw [hwindow]; exact id)
    · rw [hs]
      exact hk
    · rw [hrequests, requestsIn_holding, Int.add_zero]
    · rw [hbytes, bytesIn_holding, Int.add_zero]
  | drops hc hn hcount hothers hwindow room =>
    subst hc
    have hk : (s'.counters _).isSome := Option.isSome_iff_exists.2 ⟨_, hcount⟩
    refine hb.of_same (hgone.placed hb (fun d hd => ?_) trivial) (by rw [hs, hwindow]) (fun n => hgone.same ?_) fun n => hgone.same ?_
    · rw [hs]
      exact hd.mono (hothers.isSome hk) (by rw [hwindow]; exact id)
    · simp [Call.requestsIn]
    · simp [Call.bytesIn]
  | @opens k w hc hnone hcount hbytes _ hc' room =>
    have hempty : c'.Empty := by rcases hc' with rfl | rfl <;> trivial
    obtain ⟨-, hrequests, hbytesIn⟩ := hgone.empty hc hempty
    obtain ⟨hzero, hzero'⟩ := hb.later w.number hnone
    refine ⟨hgone.placed hb (fun d hd => ?_) ?_, ?_, ?_, ?_⟩
    · rw [hs]
      exact hd.withWindow _
    · rw [hs]
      rcases hc' with rfl | rfl <;> rfl
    · rw [hs]
      rintro _ ⟨⟩
      rw [hrequests, hzero, hcount]
      rfl
    · rw [hs]
      rintro _ ⟨⟩
      rw [hbytesIn, hzero', hbytes]
      rfl
    · intro n hn
      rw [hs] at hn
      rw [hrequests, hbytesIn]
      exact hb.later n fun v hv => Nat.lt_trans (hnone v hv) (hn w rfl)
  | @grantsRequest w hc hwindow room =>
    obtain ⟨-, hrequests, hbytes⟩ := hgone.gain hc
    refine ⟨hgone.placed hb (fun d hd => ?_) trivial, ?_, ?_, ?_⟩
    · rw [hs]
      exact hd.withWindow _
    · rw [hs]
      rintro _ ⟨⟩
      have hold := hb.count w hwindow
      have hlimit := hw.requests w.number
      have hmax := Int64.toInt_lt limits.maxRequestsPerMinute
      change _ = requestsIn w.number σ'
      rw [hrequests, Call.requestsIn, if_pos rfl, UInt64.toNat_add, UInt64.toNat_one]
      omega
    · rw [hs]
      rintro _ ⟨⟩
      rw [hbytes, bytesIn_requests, Int.add_zero]
      exact hb.bytes w hwindow
    · intro n hn
      rw [hs] at hn
      obtain ⟨hne, hlater⟩ := hb.later_than hwindow (hn { w with count := w.count + 1 } rfl)
      rw [hrequests, hbytes]
      simpa [Call.requestsIn, Call.bytesIn, hne] using hlater
  | @grantsBytes w bytes hc hwindow room =>
    obtain ⟨-, hrequests, hbytes⟩ := hgone.gain hc
    refine ⟨hgone.placed hb (fun d hd => ?_) trivial, ?_, ?_, ?_⟩
    · rw [hs]
      exact hd.withWindow _
    · rw [hs]
      rintro _ ⟨⟩
      rw [hrequests, requestsIn_bandwidth, Int.add_zero]
      exact hb.count w hwindow
    · rw [hs]
      rintro _ ⟨⟩
      have hold := hb.bytes w hwindow
      have hlimit := hw'.bytes w.number
      have hmax := Int64.toInt_lt limits.maxBandwidthBytesPerMinute
      have hlow := Int64.le_toInt w.bytes
      have hpos := bytes.2
      change _ = bytesIn w.number σ'
      rw [hbytes, Call.bytesIn, if_pos rfl] at hlimit ⊢
      rw [toInt_add_of_lt (by omega) (by omega)]
      omega
    · intro n hn
      rw [hs] at hn
      obtain ⟨hne, hlater⟩ := hb.later_than hwindow (hn { w with bytes := w.bytes + bytes } rfl)
      rw [hrequests, hbytes]
      simpa [Call.requestsIn, Call.bytesIn, hne] using hlater

theorem WithinLimits.of_same (hw : WithinLimits limits σ) (hlive : ∀ k, live k σ' = live k σ)
    (hcount : ∀ k, σ'.shared.getCount k = σ.shared.getCount k) (hrequests : ∀ n, requestsIn n σ' = requestsIn n σ)
    (hbytes : ∀ n, bytesIn n σ' = bytesIn n σ)
    (hsums : ∀ bytes current, .bytesLoaded bytes current ∈ σ'.calls → current.toInt + bytes.1.toInt < 2 ^ 63) :
    WithinLimits limits σ' := by
  refine ⟨fun k => ?_, fun k => ?_, fun n => ?_, fun n => ?_, hsums⟩
  · rw [hlive]
    exact hw.guards k
  · rw [hcount, hlive]
    exact hw.counted k
  · rw [hrequests]
    exact hw.requests n
  · rw [hbytes]
    exact hw.bytes n

/-- A step stays within the limits exactly when the call finds room. -/
theorem within_step (hgone : GoneOn σ σ' c c') (heffect : Effect limits σ.shared c σ'.shared c') (hb : Books σ)
    (hw : WithinLimits limits σ) : WithinLimits limits σ' ↔ RoomLeft limits σ.shared c := by
  generalize hs : σ'.shared = s' at heffect
  cases heffect with
  | ended room =>
    refine iff_of_true (hw.of_same (fun _ => hgone.same rfl) (by simp [hs]) (fun _ => hgone.same rfl) (fun _ => hgone.same rfl) ?_) room
    intro bytes current hmem
    rcases hgone.calls _ hmem with hold | hnew
    · exact hw.noOverflow bytes current hold
    · exact hw.noOverflow bytes current (hnew ▸ hgone.mem)
  | goesOn hc hc' hnew room =>
    obtain ⟨hlive, hrequests, hbytes⟩ := hgone.empty hc hc'
    rw [room]
    constructor
    · rintro hw' bytes current rfl
      exact hw'.noOverflow bytes current hgone.now
    · intro hsum
      refine hw.of_same hlive (by simp [hs]) hrequests hbytes fun bytes current hmem => ?_
      rcases hgone.calls _ hmem with hold | hnew
      · exact hw.noOverflow bytes current hold
      · exact hsum bytes current hnew.symm
  | @takes k _ hc hcount hothers hwindow room =>
    obtain ⟨hlive, hrequests, hbytes⟩ := hgone.gain hc
    have hmax := Int64.toInt_lt (limits.maxConcurrent k)
    have hcounted := hw.counted k
    have hk : live k σ' = live k σ + 1 := by rw [hlive, guards_holding]
    rw [room]
    constructor
    · intro hw'
      have hguards := hw'.guards k
      omega
    · intro hroom
      have hother : ∀ k', k' ≠ k → live k' σ' = live k' σ := by
        intro k' hne
        rw [hlive, guards_other hne, Int.add_zero]
      refine ⟨fun k' => ?_, fun k' => ?_, fun n => ?_, fun n => ?_, hgone.noOverflow hw (by rintro _ _ ⟨⟩)⟩
      · by_cases he : k' = k
        · subst he
          omega
        · rw [hother k' he]
          exact hw.guards k'
      · by_cases he : k' = k
        · subst he
          have hnew : σ'.shared.getCount k' = σ.shared.getCount k' + 1 := by
            rw [hs, Enforcers.getCount, hcount, Option.getD_some]
          rw [hnew, hk, UInt64.toNat_add, UInt64.toNat_one]
          omega
        · rw [hother k' he, hs, getCount_congr (hothers k' he)]
          exact hw.counted k'
      · rw [hrequests, requestsIn_holding, Int.add_zero]
        exact hw.requests n
      · rw [hbytes, bytesIn_holding, Int.add_zero]
        exact hw.bytes n
  | @drops k n _ hc hn hcount hothers hwindow room =>
    subst hc
    have hk : live k σ' + 1 = live k σ := by
      have htotal : live k σ' + (Call.holding k).guards k = live k σ + (Call.dropped k).guards k := hgone.total _
      have hdropped : (Call.dropped k).Empty := trivial
      rwa [guards_holding, hdropped.guards, Int.add_zero] at htotal
    have hother : ∀ k', k' ≠ k → live k' σ' = live k' σ := by
      intro k' hne
      have hdropped : (Call.dropped k).Empty := trivial
      exact hgone.same (by rw [hdropped.guards, guards_other hne])
    have hpos := live_nonneg k σ'
    refine iff_of_true ⟨fun k' => ?_, fun k' => ?_, fun n => ?_, fun n => ?_, hgone.noOverflow hw (by rintro _ _ ⟨⟩)⟩ room
    · have hguards := hw.guards k'
      by_cases he : k' = k
      · subst he
        omega
      · rwa [hother k' he]
    · have hcounted := hw.counted k'
      by_cases he : k' = k
      · subst he
        have hold : σ.shared.getCount k' = n := by rw [Enforcers.getCount, hn, Option.getD_some]
        have hnew : σ'.shared.getCount k' = n - 1 := by rw [hs, Enforcers.getCount, hcount, Option.getD_some]
        rw [hold] at hcounted
        rw [hnew, toNat_sub_of_le (by rw [UInt64.toNat_one]; omega), UInt64.toNat_one]
        omega
      · rw [hother k' he, hs, getCount_congr (hothers k' he)]
        exact hcounted
    · have hsame : requestsIn n σ' = requestsIn n σ := hgone.same (by simp [Call.requestsIn])
      rw [hsame]
      exact hw.requests n
    · have hsame : bytesIn n σ' = bytesIn n σ := hgone.same rfl
      rw [hsame]
      exact hw.bytes n
  | @opens k w hc hnone hcount hbytes _ hc' room =>
    have hempty : c'.Empty := by rcases hc' with rfl | rfl <;> trivial
    obtain ⟨hlive, hrequests, hbytesIn⟩ := hgone.empty hc hempty
    refine iff_of_true (hw.of_same hlive (fun k => by rw [hs]; rfl) hrequests hbytesIn (hgone.noOverflow hw ?_)) room
    rintro _ _ rfl
    rcases hc' with h | h <;> cases h
  | @grantsRequest w hc hwindow room =>
    obtain ⟨hlive, hrequests, hbytes⟩ := hgone.gain hc
    have hcount := hb.count w hwindow
    have hmax := Int64.toInt_lt limits.maxRequestsPerMinute
    rw [room]
    constructor
    · intro hw'
      have hlimit := hw'.requests w.number
      rw [hrequests, Call.requestsIn, if_pos rfl] at hlimit
      omega
    · intro hroom
      refine ⟨fun k => ?_, fun k => ?_, fun n => ?_, fun n => ?_, hgone.noOverflow hw (by rintro _ _ ⟨⟩)⟩
      · rw [hlive, guards_granted, Int.add_zero]
        exact hw.guards k
      · rw [hlive, guards_granted, Int.add_zero, hs]
        exact hw.counted k
      · rw [hrequests, Call.requestsIn]
        split
        · rename_i he
          cases he
          omega
        · rw [Int.add_zero]
          exact hw.requests n
      · rw [hbytes, bytesIn_requests, Int.add_zero]
        exact hw.bytes n
  | @grantsBytes w bytes hc hwindow room =>
    obtain ⟨hlive, hrequests, hbytes⟩ := hgone.gain hc
    have hcount := hb.bytes w hwindow
    rw [room]
    constructor
    · intro hw'
      have hlimit := hw'.bytes w.number
      rw [hbytes, Call.bytesIn, if_pos rfl] at hlimit
      omega
    · intro hroom
      refine ⟨fun k => ?_, fun k => ?_, fun n => ?_, fun n => ?_, hgone.noOverflow hw (by rintro _ _ ⟨⟩)⟩
      · rw [hlive, guards_granted, Int.add_zero]
        exact hw.guards k
      · rw [hlive, guards_granted, Int.add_zero, hs]
        exact hw.counted k
      · rw [hrequests, requestsIn_bandwidth, Int.add_zero]
        exact hw.requests n
      · rw [hbytes, Call.bytesIn]
        split
        · rename_i he
          subst he
          omega
        · rw [Int.add_zero]
          exact hw.bytes n

end Step

/-! ## Runs -/

section Runs
variable {limits : ExtensionLimits} {σ : State} {c : Call} {e : Event}

theorem goneOn_resume {i : Nat} (h : σ.calls[i]? = some c) (clock : Clock) :
    GoneOn σ ((enforcing limits).step σ (.resume i clock)) c (advance limits σ.shared c clock).2 where
  mem := List.mem_of_getElem? h
  calls d hd := by
    rw [Calls.step_resume h] at hd
    exact List.mem_or_eq_of_mem_set hd
  now := by
    rw [Calls.step_resume h]
    exact List.mem_set (List.getElem?_eq_some_iff.1 h).1 _
  total f := Calls.total_resume h f clock

theorem effect_resume {i : Nat} (h : σ.calls[i]? = some c) (clock : Clock) (hb : Books σ) :
    Effect limits σ.shared c ((enforcing limits).step σ (.resume i clock)).shared (advance limits σ.shared c clock).2 := by
  rw [Calls.step_resume h]
  exact advance_effect limits σ.shared c clock (hb.placed c (List.mem_of_getElem? h))

theorem start_empty (p : Start) : ((enforcing limits).start p).Empty ∧ (∀ s, Placed s ((enforcing limits).start p)) ∧
    ∀ bytes current, (enforcing limits).start p ≠ .bytesLoaded bytes current := by
  cases p with
  | slot k | check k => exact ⟨trivial, fun _ => trivial, by rintro _ _ ⟨⟩⟩

theorem totals_start (limits : ExtensionLimits) (p : Start) : (∀ k, live k ((enforcing limits).step σ (.start p)) = live k σ) ∧
    (∀ n, requestsIn n ((enforcing limits).step σ (.start p)) = requestsIn n σ) ∧
    ∀ n, bytesIn n ((enforcing limits).step σ (.start p)) = bytesIn n σ := by
  have hempty : ((enforcing limits).start p).Empty := (start_empty p).1
  refine ⟨fun k => ?_, fun n => ?_, fun n => ?_⟩
  · exact (Calls.total_start _ σ p).trans (by rw [hempty.guards, Int.add_zero])
  · exact (Calls.total_start _ σ p).trans (by rw [hempty.requestsIn, Int.add_zero])
  · exact (Calls.total_start _ σ p).trans (by rw [hempty.bytesIn, Int.add_zero])

theorem step_books (hb : Books σ) (hw : WithinLimits limits σ) (hw' : WithinLimits limits ((enforcing limits).step σ e)) :
    Books ((enforcing limits).step σ e) := by
  cases e with
  | start p =>
    obtain ⟨-, hrequests, hbytes⟩ := totals_start (σ := σ) limits p
    refine hb.of_same (fun d hd => ?_) rfl hrequests hbytes
    rcases List.mem_append.1 hd with hold | hnew
    · exact hb.placed d hold
    · rw [List.mem_singleton.1 hnew]
      exact (start_empty p).2.1 _
  | resume i clock =>
    cases hi : σ.calls[i]? with
    | none => rwa [Calls.step_resume_none hi]
    | some c => exact books_step (goneOn_resume hi clock) (effect_resume hi clock hb) hb hw hw'
  | outside e => exact e.elim

theorem step_within (hb : Books σ) (hw : WithinLimits limits σ) :
    WithinLimits limits ((enforcing limits).step σ e) ↔ FindsRoom limits σ e := by
  cases e with
  | start p =>
    obtain ⟨hlive, hrequests, hbytes⟩ := totals_start (σ := σ) limits p
    refine iff_of_true (hw.of_same hlive (fun _ => rfl) hrequests hbytes fun bytes current hmem => ?_) trivial
    rcases List.mem_append.1 hmem with hold | hnew
    · exact hw.noOverflow bytes current hold
    · exact absurd (List.mem_singleton.1 hnew).symm ((start_empty p).2.2 bytes current)
  | resume i clock =>
    cases hi : σ.calls[i]? with
    | none =>
      rw [Calls.step_resume_none hi]
      exact iff_of_true hw fun c hc => by rw [hi] at hc; cases hc
    | some c =>
      rw [within_step (goneOn_resume hi clock) (effect_resume hi clock hb) hb hw]
      constructor
      · intro hroom d hd
        cases hi.symm.trans hd
        exact hroom
      · exact fun hroom => hroom c hi
  | outside e => exact e.elim

theorem start_books : Books State.start where
  placed _ h := absurd h List.not_mem_nil
  count _ h := by cases h
  bytes _ h := by cases h
  later _ _ := ⟨rfl, rfl⟩

theorem start_within (limits : ExtensionLimits) : WithinLimits limits State.start where
  guards k := by
    cases k with
    | query => exact Int.le_of_lt limits.queries_pos
    | request => exact Int.le_of_lt limits.slots_pos
  counted _ := rfl
  requests _ := Int.le_of_lt limits.requests_pos
  bytes _ := Int.le_of_lt limits.bandwidth_pos
  noOverflow _ _ h := absurd h List.not_mem_nil

end Runs

/-- The limits hold in every state of a run exactly when every call that its check let through finds room where it
increments, and no sum of bytes overflows. -/
theorem limits_hold_iff (limits : ExtensionLimits) (es : List Event) :
    (∀ es', es' <+: es → WithinLimits limits (run (enforcing limits).step State.start es')) ↔
      Guarded (enforcing limits).step (FindsRoom limits) State.start es :=
  guarded_iff_always (I := Books) (W := WithinLimits limits) (fun _ _ hb hw hw' => step_books hb hw hw')
    (fun _ _ hb hw => step_within hb hw) es start_books (start_within limits)

def oneEach : ExtensionLimits where
  maxConcurrentQueries := 1
  maxConcurrentRequests := 1
  maxRequestsPerMinute := 1
  maxBandwidthBytesPerMinute := 1
  queries_pos := by decide
  slots_pos := by decide
  requests_pos := by decide
  bandwidth_pos := by decide

def bothRead : List Event :=
  [.start (.slot .query), .start (.slot .query), .resume 0 ⟨0, 0⟩, .resume 1 ⟨0, 0⟩, .resume 0 ⟨0, 0⟩, .resume 1 ⟨0, 0⟩,
    .resume 0 ⟨0, 0⟩, .resume 1 ⟨0, 0⟩]

theorem two_guards_of_one : ¬ ∀ (limits : ExtensionLimits) (es : List Event),
    WithinLimits limits (run (enforcing limits).step State.start es) := by
  intro h
  have h := (h oneEach bothRead).guards .query
  revert h
  decide

end HaexVault.Extension.Limits
