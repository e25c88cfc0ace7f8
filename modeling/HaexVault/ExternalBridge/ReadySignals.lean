import Mathlib.Logic.Function.Basic
import HaexVault.Lib.Calls
/-!
# Extension ready signals (`external_bridge/server.rs`)

A request for an extension that is not loaded asks the frontend to start it and waits for its ready
signal. The caller takes a `Notify` out of a shared map before it asks, but makes the future that is
woken after it asked, and a caller that is done waiting removes the entry (`no_signal_lost`).
-/

namespace HaexVault.ExternalBridge

open HaexVault.Lib HaexVault.Lib.Runs

/-! ## The map of `Notify`s -/

/-- A `tokio::sync::Notify`. `notify_waiters` counts up; a `Notified` is ready when the count has moved since it was
made. -/
structure Notify where
  /-- The extension it was made for. -/
  extensionId : String
  notifyWaitersCalls : Nat := 0

structure ReadySignals where
  /-- The `Notify`s made so far. -/
  notifies : List Notify := []
  /-- `extension_ready_signals`. -/
  signals : String → Option Nat := fun _ => none
  /-- The signals each extension has sent. -/
  sent : String → Nat := fun _ => 0

namespace ReadySignals

def count (s : ReadySignals) (n : Nat) : Nat := ((s.notifies[n]?).map (·.notifyWaitersCalls)).getD 0

def orInsert (s : ReadySignals) (extensionId : String) : ReadySignals × Nat :=
  match s.signals extensionId with
  | some n => (s, n)
  | none =>
    ({ s with
        notifies := s.notifies ++ [{ extensionId }]
        signals := Function.update s.signals extensionId (some s.notifies.length) }, s.notifies.length)

/-- The entry is gone; who has the `Notify` keeps it. -/
def remove (s : ReadySignals) (extensionId : String) : ReadySignals :=
  { s with signals := Function.update s.signals extensionId none }

def notifyWaiters (s : ReadySignals) (n : Nat) : ReadySignals :=
  { s with notifies := s.notifies.modify n fun notify =>
      { notify with notifyWaitersCalls := notify.notifyWaitersCalls + 1 } }

def counted (s : ReadySignals) (extensionId : String) : ReadySignals :=
  { s with sent := Function.update s.sent extensionId (s.sent extensionId + 1) }

def signalExtensionReady (s : ReadySignals) (extensionId : String) : ReadySignals :=
  match s.signals extensionId with
  | some n => (s.notifyWaiters n).counted extensionId
  | none => s.counted extensionId

end ReadySignals

/-! ## `ensure_extension_loaded` -/

/-- Where a call stands. `since` is the number of signals when it asked for the extension, `heard` whether one was sent
between that and the end of its wait. -/
inductive LoadPhase where
  | starting
  /-- It has its `Notify` and asks next. -/
  | prepared (notify : Nat)
  /-- It has asked and makes its `Notified` next. -/
  | emitted (notify : Nat) (since : Nat)
  | waiting (notify : Nat) (seen since : Nat)
  /-- Its wait is over; the entry goes next. -/
  | waited (signaled heard : Bool)
  | returned (signaled heard : Bool)
  | loaded
  | failed (error : String)
  deriving DecidableEq

structure LoadRequest where
  extensionId : String
  /-- `has_window_for_extension`. -/
  hasWindow : Bool
  /-- How `emit_to` ends. -/
  emit : Except String Unit

structure EnsureLoaded extends LoadRequest where
  phase : LoadPhase := .starting

namespace EnsureLoaded

/-- A call up to where the next signal, or another call, can come in between. `elapsed`: the timeout has run out. -/
def advance (s : ReadySignals) (c : EnsureLoaded) (elapsed : Bool) : ReadySignals × EnsureLoaded :=
  match c.phase with
  | .starting =>
    if c.hasWindow then (s, { c with phase := .loaded })
    else
      let (s, n) := s.orInsert c.extensionId
      (s, { c with phase := .prepared n })
  | .prepared n => match c.emit with
    | .error e => (s, { c with phase := .failed ("Failed to emit auto-start request: " ++ e) })
    | .ok _ => (s, { c with phase := .emitted n (s.sent c.extensionId) })
  | .emitted n since => (s, { c with phase := .waiting n (s.count n) since })
  | .waiting n seen since =>
    if seen < s.count n then (s, { c with phase := .waited true (since < s.sent c.extensionId) })
    else if elapsed then (s, { c with phase := .waited false (since < s.sent c.extensionId) })
    else (s, c)
  | .waited signaled heard => (s.remove c.extensionId, { c with phase := .returned signaled heard })
  | .returned _ _ | .loaded | .failed _ => (s, c)

end EnsureLoaded

abbrev Loading := Calls.Sys ReadySignals EnsureLoaded

abbrev LoadEvent := Calls.Event LoadRequest Bool String

namespace Loading

def machine : Calls.Machine ReadySignals LoadRequest EnsureLoaded Bool String where
  start req := { req with }
  advance := EnsureLoaded.advance
  outside := ReadySignals.signalExtensionReady

abbrev step : Loading → LoadEvent → Loading := machine.step

/-! ## No signal is lost -/

/-- A call whose wait is over was woken exactly when a signal was sent since it asked, and a waiting call for which one was
sent is woken. -/
def Heard (s : ReadySignals) (c : EnsureLoaded) : Prop :=
  match c.phase with
  | .waiting n seen since => seen < s.count n ↔ since < s.sent c.extensionId
  | .waited signaled heard | .returned signaled heard => signaled = heard
  | _ => True

/-- A signal finds the call on the entry of its extension, if the call has asked and is not woken yet. -/
def Reached (s : ReadySignals) (c : EnsureLoaded) : Prop :=
  match c.phase with
  | .emitted _ _ => False
  | .waiting n seen _ => s.signals c.extensionId = some n ∨ seen < s.count n
  | _ => True

def Meets (σ : Loading) : LoadEvent → Prop
  | .start _ | .resume _ _ => True
  | .outside extensionId => ∀ c ∈ σ.calls, c.extensionId = extensionId → Reached σ.shared c

def Owns (s : ReadySignals) (extensionId : String) (n : Nat) : Prop :=
  ∃ notify, s.notifies[n]? = some notify ∧ notify.extensionId = extensionId

def Entries (s : ReadySignals) : Prop := ∀ extensionId n, s.signals extensionId = some n → Owns s extensionId n

/-- What a call knows of its `Notify` and of the signals sent. -/
def Knows (s : ReadySignals) (c : EnsureLoaded) : Prop :=
  match c.phase with
  | .prepared n => Owns s c.extensionId n
  | .emitted n since => Owns s c.extensionId n ∧ since = s.sent c.extensionId
  | .waiting n seen since => Owns s c.extensionId n ∧ seen ≤ s.count n ∧ since ≤ s.sent c.extensionId ∧
      (seen < s.count n ↔ since < s.sent c.extensionId)
  | .waited signaled heard | .returned signaled heard => signaled = heard
  | _ => True

theorem Knows.heard {s : ReadySignals} {c : EnsureLoaded} (h : Knows s c) : Heard s c := by
  unfold Knows at h
  unfold Heard
  split at h
  all_goals simp_all

section
variable {s : ReadySignals} {extensionId ext : String} {n m : Nat}

/-! ### What each operation does -/

theorem owns_unique (h : Owns s extensionId n) (h' : Owns s ext n) : ext = extensionId := by
  obtain ⟨notify, hn, rfl⟩ := h
  obtain ⟨notify', hn', rfl⟩ := h'
  rw [Option.some.inj (hn.symm.trans hn')]

theorem orInsert_cases (s : ReadySignals) (extensionId : String) :
    (s.signals extensionId = some (s.orInsert extensionId).2 ∧ (s.orInsert extensionId).1 = s) ∨
    (s.signals extensionId = none ∧ s.orInsert extensionId =
      ({ s with
          notifies := s.notifies ++ [{ extensionId }]
          signals := Function.update s.signals extensionId (some s.notifies.length) }, s.notifies.length)) := by
  unfold ReadySignals.orInsert
  cases s.signals extensionId with
  | some n => exact .inl ⟨rfl, rfl⟩
  | none => exact .inr ⟨rfl, rfl⟩

theorem count_eq {notify : Notify} (h : s.notifies[n]? = some notify) : s.count n = notify.notifyWaitersCalls := by
  rw [ReadySignals.count, h]
  rfl

theorem orInsert_kept (h : Owns s ext n) :
    Owns (s.orInsert extensionId).1 ext n ∧ (s.orInsert extensionId).1.count n = s.count n := by
  rcases orInsert_cases s extensionId with ⟨-, hs⟩ | ⟨-, hs⟩
  · rw [hs]
    exact ⟨h, rfl⟩
  · obtain ⟨notify, hn, hext⟩ := h
    have hn' : (s.orInsert extensionId).1.notifies[n]? = some notify := by
      rw [hs]
      exact (List.getElem?_append_left (List.getElem?_eq_some_iff.1 hn).1).trans hn
    exact ⟨⟨notify, hn', hext⟩, by rw [count_eq hn', count_eq hn]⟩

theorem orInsert_sent : (s.orInsert extensionId).1.sent = s.sent := by
  rcases orInsert_cases s extensionId with ⟨-, hs⟩ | ⟨-, hs⟩
  all_goals rw [hs]

theorem orInsert_entries (h : Entries s) :
    Entries (s.orInsert extensionId).1 ∧ Owns (s.orInsert extensionId).1 extensionId (s.orInsert extensionId).2 := by
  rcases orInsert_cases s extensionId with ⟨hn, hs⟩ | ⟨-, hs⟩
  · rw [hs]
    exact ⟨h, h _ _ hn⟩
  · have hown : Owns (s.orInsert extensionId).1 extensionId (s.orInsert extensionId).2 := by
      rw [hs]
      exact ⟨⟨extensionId, 0⟩, by simp, rfl⟩
    refine ⟨fun ext n hn => ?_, hown⟩
    by_cases hext : ext = extensionId
    · subst hext
      rw [hs] at hn
      have hlast : n = s.notifies.length := by simpa using hn.symm
      rw [hs] at hown ⊢
      rw [hlast]
      exact hown
    · refine (orInsert_kept ?_).1
      rw [hs] at hn
      exact h ext n (by simpa [hext] using hn)

theorem signal_count (h : Owns s ext n) : (s.signalExtensionReady extensionId).count n =
    if s.signals extensionId = some n then s.count n + 1 else s.count n := by
  obtain ⟨notify, hn, -⟩ := h
  cases hm : s.signals extensionId with
  | none => simp [ReadySignals.signalExtensionReady, hm, ReadySignals.counted, ReadySignals.count]
  | some m =>
    by_cases hmn : m = n
    · subst hmn
      simp [ReadySignals.signalExtensionReady, hm, ReadySignals.counted, ReadySignals.notifyWaiters, ReadySignals.count, hn]
    · simp [ReadySignals.signalExtensionReady, hm, ReadySignals.counted, ReadySignals.notifyWaiters, ReadySignals.count,
        hmn]

theorem signal_owns (h : Owns s ext n) : Owns (s.signalExtensionReady extensionId) ext n := by
  obtain ⟨notify, hn, rfl⟩ := h
  unfold ReadySignals.signalExtensionReady
  split
  · rename_i m _
    by_cases hmn : m = n
    · exact ⟨{ notify with notifyWaitersCalls := notify.notifyWaitersCalls + 1 },
        by simp [ReadySignals.counted, ReadySignals.notifyWaiters, hn, hmn], rfl⟩
    · exact ⟨notify, by simp [ReadySignals.counted, ReadySignals.notifyWaiters, hn, hmn], rfl⟩
  · exact ⟨notify, hn, rfl⟩

theorem signal_sent : (s.signalExtensionReady extensionId).sent =
    Function.update s.sent extensionId (s.sent extensionId + 1) := by
  unfold ReadySignals.signalExtensionReady
  split <;> rfl

theorem signal_signals : (s.signalExtensionReady extensionId).signals = s.signals := by
  unfold ReadySignals.signalExtensionReady
  split <;> rfl

end

/-! ### Each step -/

theorem Knows.frame {s s' : ReadySignals} {c : EnsureLoaded} (h : Knows s c) (hsent : s'.sent = s.sent)
    (hkept : ∀ n, Owns s c.extensionId n → Owns s' c.extensionId n ∧ s'.count n = s.count n) : Knows s' c := by
  unfold Knows at h ⊢
  rw [hsent]
  split at h
  · exact (hkept _ h).1
  · exact ⟨(hkept _ h.1).1, h.2⟩
  · obtain ⟨hown, hcount⟩ := hkept _ h.1
    rw [hcount]
    exact ⟨hown, h.2⟩
  all_goals exact h

theorem advance_shared (s : ReadySignals) (c : EnsureLoaded) (elapsed : Bool) :
    (c.advance s elapsed).1 = (s.orInsert c.extensionId).1 ∨ (c.advance s elapsed).1 = s.remove c.extensionId ∨
      (c.advance s elapsed).1 = s := by
  unfold EnsureLoaded.advance
  split
  · split
    · exact .inr (.inr rfl)
    · exact .inl rfl
  · split
    all_goals exact .inr (.inr rfl)
  · exact .inr (.inr rfl)
  · split
    · exact .inr (.inr rfl)
    · split
      all_goals exact .inr (.inr rfl)
  · exact .inr (.inl rfl)
  all_goals exact .inr (.inr rfl)

theorem remove_entries {s : ReadySignals} {extensionId : String} (h : Entries s) : Entries (s.remove extensionId) := by
  intro ext n hn
  by_cases hext : ext = extensionId
  · simp [ReadySignals.remove, hext] at hn
  · exact h ext n (by simpa [ReadySignals.remove, hext] using hn)

theorem advance_other {s : ReadySignals} {c d : EnsureLoaded} {elapsed : Bool} (h : Knows s d) :
    Knows (c.advance s elapsed).1 d := by
  rcases advance_shared s c elapsed with hs | hs | hs
  · rw [hs]
    exact h.frame orInsert_sent fun n hn => orInsert_kept hn
  · rw [hs]
    exact h.frame rfl fun n hn => ⟨hn, rfl⟩
  · rwa [hs]

theorem advance_own {s : ReadySignals} {c : EnsureLoaded} {elapsed : Bool} (hI : Entries s) (h : Knows s c) :
    Entries (c.advance s elapsed).1 ∧ Knows (c.advance s elapsed).1 (c.advance s elapsed).2 := by
  have hentries : Entries (c.advance s elapsed).1 := by
    rcases advance_shared s c elapsed with hs | hs | hs
    · rw [hs]
      exact (orInsert_entries hI).1
    · rw [hs]
      exact remove_entries hI
    · rwa [hs]
  refine ⟨hentries, ?_⟩
  obtain ⟨⟨ext, hasWindow, emit⟩, phase⟩ := c
  cases phase with
  | starting =>
    cases hasWindow with
    | true => trivial
    | false => exact (orInsert_entries hI).2
  | prepared n =>
    cases emit with
    | error e => trivial
    | ok _ => exact ⟨h, rfl⟩
  | emitted n since =>
    obtain ⟨hown, hsince⟩ := h
    refine ⟨hown, Nat.le_refl _, Nat.le_of_eq hsince, ?_⟩
    rw [hsince]
    exact iff_of_false (Nat.lt_irrefl _) (Nat.lt_irrefl _)
  | waiting n seen since =>
    obtain ⟨hown, hseen, hsince, hiff⟩ := h
    by_cases hready : seen < s.count n
    · simp only [EnsureLoaded.advance, hready, if_true, Knows]
      exact (decide_eq_true (hiff.1 hready)).symm
    · have hnone : ¬ since < s.sent ext := fun hlt => hready (hiff.2 hlt)
      cases elapsed with
      | true =>
        simp only [EnsureLoaded.advance, hready, if_false, if_true, Knows]
        exact (decide_eq_false hnone).symm
      | false =>
        simp only [EnsureLoaded.advance, hready, if_false, Bool.false_eq_true]
        exact ⟨hown, hseen, hsince, hiff⟩
  | waited signaled heard => exact h
  | returned signaled heard => exact h
  | loaded => trivial
  | failed error => trivial

theorem signal_knows {s : ReadySignals} {c : EnsureLoaded} {extensionId : String} (hI : Entries s) (h : Knows s c)
    (hreached : c.extensionId = extensionId → Reached s c) : Knows (s.signalExtensionReady extensionId) c := by
  by_cases hext : c.extensionId = extensionId
  · have hr := hreached hext
    unfold Knows at h ⊢
    unfold Reached at hr
    rw [signal_sent, ← hext, Function.update_self]
    split at h
    · exact signal_owns h
    · rename_i n since hphase
      rw [hphase] at hr
      exact hr.elim
    · rename_i n seen since hphase
      obtain ⟨hown, hseen, hsince, hiff⟩ := h
      rw [hphase] at hr
      refine ⟨signal_owns hown, ?_⟩
      rw [signal_count hown]
      rcases hr with hr | hr
      · rw [if_pos hr]
        exact ⟨by omega, by omega, by omega⟩
      · have := hiff.1 hr
        split
        all_goals exact ⟨by omega, by omega, by omega⟩
    all_goals exact h
  · -- the entry of another extension is another `Notify`
    have hsent : (s.signalExtensionReady extensionId).sent c.extensionId = s.sent c.extensionId := by
      rw [signal_sent, Function.update_of_ne hext]
    have hkept : ∀ n, Owns s c.extensionId n → (s.signalExtensionReady extensionId).count n = s.count n := by
      intro n hown
      rw [signal_count hown, if_neg fun hn => hext (owns_unique (hI _ _ hn) hown)]
    unfold Knows at h ⊢
    rw [hsent]
    split at h
    · exact signal_owns h
    · exact ⟨signal_owns h.1, h.2⟩
    · rw [hkept _ h.1]
      exact ⟨signal_owns h.1, h.2⟩
    all_goals exact h

theorem keeps : Calls.Keeps machine Entries Knows Meets where
  start _ _ _ _ := trivial
  own σ i a c h _ _ hc := advance_own h.shared hc
  other σ i a c d _ _ _ _ hd := advance_other hd
  outside σ extensionId h hG := by
    refine ⟨fun ext n hn => ?_, fun c hc => signal_knows h.shared (h.calls c hc) (hG c hc)⟩
    have hn' : σ.shared.signals ext = some n := (congrFun signal_signals ext).symm.trans hn
    exact signal_owns (h.shared ext n hn')

/-- In every state of a run in which each signal finds the calls that have asked for its extension waiting on the entry, a
call was woken, or can go on, exactly when a signal was sent after it had asked. -/
theorem no_signal_lost (es : List LoadEvent) (h : Guarded step Meets { shared := {} } es) :
    ∀ c ∈ (run step { shared := {} } es).calls, Heard (run step { shared := {} } es).shared c := by
  have hinit : Calls.Each Entries Knows ({ shared := {} } : Loading) :=
    ⟨fun ext n hn => (Option.some_ne_none n hn.symm).elim, fun c hc => (List.not_mem_nil hc).elim⟩
  intro c hc
  exact ((keeps.run h hinit).calls c hc).heard

def sampleRequest : LoadRequest := { extensionId := "passwords", hasWindow := false, emit := .ok () }

/-- The signal comes while the call waits. -/
theorem no_signal_lost_waiting :
    (Guarded step Meets { shared := {} }
      [.start sampleRequest, .resume 0 false, .resume 0 false, .resume 0 false, .outside "passwords", .resume 0 true]) ∧
    ∀ c ∈ (run step { shared := {} }
        [.start sampleRequest, .resume 0 false, .resume 0 false, .resume 0 false, .outside "passwords",
          .resume 0 true]).calls,
      Heard (run step { shared := {} }
        [.start sampleRequest, .resume 0 false, .resume 0 false, .resume 0 false, .outside "passwords",
          .resume 0 true]).shared c := by
  have h : Guarded step Meets { shared := {} }
      [.start sampleRequest, .resume 0 false, .resume 0 false, .resume 0 false, .outside "passwords", .resume 0 true] := by
    refine ⟨trivial, trivial, trivial, trivial, ?_, trivial, trivial⟩
    intro c hc _
    obtain rfl := List.mem_singleton.1 hc
    exact .inl rfl
  exact ⟨h, no_signal_lost _ h⟩

/-- The signal comes after the call has asked and before it has made its `Notified`. -/
theorem signal_lost : ¬ ∀ es : List LoadEvent, ∀ c ∈ (run step { shared := {} } es).calls,
    Heard (run step { shared := {} } es).shared c := by
  intro h
  have hlost := h [.start sampleRequest, .resume 0 false, .resume 0 false, .outside "passwords", .resume 0 false]
    { sampleRequest with phase := .waiting 0 1 0 } (List.mem_singleton.2 rfl)
  exact absurd (hlost.2 (by decide)) (by decide)

end Loading

end HaexVault.ExternalBridge
