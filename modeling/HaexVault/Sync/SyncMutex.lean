import Mathlib.Data.List.Infix
import Mathlib.Data.List.Nodup
import Mathlib.Logic.Function.Basic
import HaexVault.Lib.Runs
/-!
# The sync mutex (`stores/sync/orchestrator/types.ts`)

`release` gives the lock up and wakes the first waiter, which takes it only when its microtask runs:
an `acquire` in between finds the lock free (`exclusive_iff`). Waiters are served in the order of the
queue in any case.
-/

namespace HaexVault.Sync

open HaexVault.Lib.Runs

/-! ## The mutex -/

structure SyncMutex where
  held : String → Bool := fun _ => false
  queues : String → List Nat := fun _ => []

namespace SyncMutex

variable (m : SyncMutex) (backendId : String)

def hold : SyncMutex := { m with held := Function.update m.held backendId true }

def enqueue (i : Nat) : SyncMutex :=
  { m with queues := Function.update m.queues backendId (m.queues backendId ++ [i]) }

/-- What the release function does: `held.delete`, and the waiter it wakes. -/
def release : SyncMutex × Option Nat :=
  ({ held := Function.update m.held backendId false
     queues := Function.update m.queues backendId (m.queues backendId).tail }, (m.queues backendId).head?)

end SyncMutex

/-! ## The event loop -/

inductive AcquirePhase where
  | waiting
  /-- Its promise is resolved, and it has not gone on. -/
  | woken
  /-- It has returned, and its caller has not gone on. -/
  | completed
  | continued
  | released
  deriving DecidableEq

namespace AcquirePhase

def holds (p : AcquirePhase) : Prop := p = completed ∨ p = continued

def obtained (p : AcquirePhase) : Prop := p = completed ∨ p = continued ∨ p = released

end AcquirePhase

structure Acquisition where
  backendId : String
  /-- It had to queue. -/
  queued : Bool
  phase : AcquirePhase

inductive Microtask where
  /-- `acquire` goes on after its `await`. -/
  | resumeAcquire (backendId : String) (i : Nat)
  /-- The caller goes on with the release function. -/
  | continueCaller (i : Nat)

structure EventLoop where
  mutex : SyncMutex := {}
  acquisitions : List Acquisition := []
  microtasks : List Microtask := []

/-- What code that runs does with the mutex. Other microtasks, and turns of the event loop, are between any two of them. -/
inductive MutexEvent where
  | acquire (backendId : String)
  /-- The caller of the `i`-th call, which has gone on, calls its release function. -/
  | release (i : Nat)
  /-- The next microtask of a call. -/
  | tick

def setPhase (acquisitions : List Acquisition) (i : Nat) (phase : AcquirePhase) : List Acquisition :=
  acquisitions.modify i fun a => { a with phase }

namespace EventLoop

def acquire (s : EventLoop) (backendId : String) : EventLoop :=
  if s.mutex.held backendId then
    { s with
      mutex := s.mutex.enqueue backendId s.acquisitions.length
      acquisitions := s.acquisitions ++ [⟨backendId, true, .waiting⟩] }
  else
    { mutex := s.mutex.hold backendId
      acquisitions := s.acquisitions ++ [⟨backendId, false, .completed⟩]
      microtasks := s.microtasks ++ [.continueCaller s.acquisitions.length] }

def release (s : EventLoop) (i : Nat) : EventLoop :=
  match s.acquisitions[i]? with
  | some ⟨backendId, _, .continued⟩ =>
    let (mutex, next) := s.mutex.release backendId
    let acquisitions := setPhase s.acquisitions i .released
    match next with
    | none => { s with mutex, acquisitions }
    | some j =>
      { mutex
        acquisitions := setPhase acquisitions j .woken
        microtasks := s.microtasks ++ [.resumeAcquire backendId j] }
  | _ => s

def tick (s : EventLoop) : EventLoop :=
  match s.microtasks with
  | [] => s
  | .resumeAcquire backendId i :: rest =>
    { mutex := s.mutex.hold backendId
      acquisitions := setPhase s.acquisitions i .completed
      microtasks := rest ++ [.continueCaller i] }
  | .continueCaller i :: rest =>
    { s with acquisitions := setPhase s.acquisitions i .continued, microtasks := rest }

def step (s : EventLoop) : MutexEvent → EventLoop
  | .acquire backendId => s.acquire backendId
  | .release i => s.release i
  | .tick => s.tick

/-- At most one task per backend holds the lock, and no waiter has obtained it before one that queued earlier. -/
structure ExclusiveFifo (s : EventLoop) : Prop where
  exclusive : ∀ (i j : Nat) (a a' : Acquisition), s.acquisitions[i]? = some a → s.acquisitions[j]? = some a' →
    a.backendId = a'.backendId → a.phase.holds → a'.phase.holds → i = j
  fifo : ∀ (i j : Nat) (a a' : Acquisition), s.acquisitions[i]? = some a → s.acquisitions[j]? = some a' →
    a.backendId = a'.backendId → a.queued = true → a'.queued = true → i < j → a'.phase.obtained → a.phase.obtained

def NoBarging (s : EventLoop) : MutexEvent → Prop
  | .acquire backendId => ∀ a ∈ s.acquisitions, a.backendId = backendId → a.phase ≠ .woken
  | _ => True

/-! ## The calls after a step -/

theorem getElem?_setPhase {l : List Acquisition} {i j : Nat} {phase p : AcquirePhase} {b : String} {q : Bool} :
    (setPhase l i phase)[j]? = some ⟨b, q, p⟩ ↔
      i = j ∧ p = phase ∧ (∃ p₀, l[j]? = some ⟨b, q, p₀⟩) ∨ i ≠ j ∧ l[j]? = some ⟨b, q, p⟩ := by
  rw [setPhase, List.getElem?_modify]
  by_cases hij : i = j
  · cases hj : l[j]? with
    | none => simp [hij]
    | some a =>
      cases a
      simp only [hij, if_true, Option.map_eq_map, Option.map_some, Option.some.injEq, Acquisition.mk.injEq, true_and, ne_eq,
        not_true_eq_false, false_and, or_false]
      constructor
      · rintro ⟨rfl, rfl, rfl⟩
        exact ⟨rfl, _, rfl, rfl, rfl⟩
      · rintro ⟨rfl, _, rfl, rfl, -⟩
        exact ⟨rfl, rfl, rfl⟩
  · simp [hij]

theorem setPhase_other {l : List Acquisition} {i j : Nat} {p₀ : AcquirePhase} {b b' : String} {q q' : Bool}
    (phase p : AcquirePhase) (hi : l[i]? = some ⟨b, q, p₀⟩) (h₀ : p ≠ p₀) (hp : p ≠ phase) :
    (setPhase l i phase)[j]? = some ⟨b', q', p⟩ ↔ l[j]? = some ⟨b', q', p⟩ := by
  rw [getElem?_setPhase]
  constructor
  · rintro (⟨-, rfl, -⟩ | ⟨-, hj⟩)
    · exact absurd rfl hp
    · exact hj
  · intro hj
    refine .inr ⟨?_, hj⟩
    rintro rfl
    rw [hi] at hj
    cases hj
    exact h₀ rfl

theorem getElem?_concat {l : List Acquisition} {j : Nat} {a a' : Acquisition} :
    (l ++ [a])[j]? = some a' ↔ l[j]? = some a' ∨ j = l.length ∧ a' = a := by
  rcases lt_trichotomy j l.length with h | rfl | h
  · rw [List.getElem?_append_left h]
    exact ⟨.inl, fun h' => h'.resolve_right fun h' => absurd h'.1 h.ne⟩
  · simp [eq_comm]
  · rw [List.getElem?_eq_none (by rw [List.length_append, List.length_singleton]; exact h)]
    refine iff_of_false nofun ?_
    rintro (h' | ⟨rfl, -⟩)
    · exact absurd (List.getElem?_eq_some_iff.1 h').1 h.not_gt
    · exact absurd h (lt_irrefl _)

/-! ## The line of a backend -/

def resumes (backendId : String) : Microtask → Option Nat
  | .resumeAcquire b i => if b = backendId then some i else none
  | .continueCaller _ => none

/-- The woken waiters of a backend, then the queue. -/
def line (s : EventLoop) (backendId : String) : List Nat :=
  s.microtasks.filterMap (resumes backendId) ++ s.mutex.queues backendId

theorem mem_line {s : EventLoop} {b : String} {i : Nat} :
    i ∈ s.line b ↔ Microtask.resumeAcquire b i ∈ s.microtasks ∨ i ∈ s.mutex.queues b := by
  rw [line, List.mem_append, List.mem_filterMap]
  refine or_congr_left ⟨?_, fun h => ⟨_, h, if_pos rfl⟩⟩
  rintro ⟨t, ht, hi⟩
  cases t with
  | resumeAcquire b' i' =>
    rw [resumes, Option.ite_none_right_eq_some] at hi
    obtain ⟨rfl, hi⟩ := hi
    cases hi
    exact ht
  | continueCaller i' => cases hi

/-- Who waits stands in the line of its backend, in the order of the calls. -/
structure Inv (s : EventLoop) : Prop where
  nodup : s.microtasks.Nodup
  woken : ∀ b i, Microtask.resumeAcquire b i ∈ s.microtasks ↔ ∃ q, s.acquisitions[i]? = some ⟨b, q, .woken⟩
  completed : ∀ i, Microtask.continueCaller i ∈ s.microtasks → ∃ b q, s.acquisitions[i]? = some ⟨b, q, .completed⟩
  waiting : ∀ b i, i ∈ s.mutex.queues b ↔ ∃ q, s.acquisitions[i]? = some ⟨b, q, .waiting⟩
  sorted : ∀ b, (s.line b).Pairwise (· < ·)
  ahead : ∀ b i p, s.acquisitions[i]? = some ⟨b, true, p⟩ → p.obtained → ∀ j ∈ s.line b, i < j

variable {s : EventLoop}

theorem Inv.lt_length (h : Inv s) {b : String} {i : Nat} (hi : i ∈ s.line b) : i < s.acquisitions.length := by
  rcases mem_line.1 hi with hi | hi
  · obtain ⟨q, hq⟩ := (h.woken b i).1 hi
    exact (List.getElem?_eq_some_iff.1 hq).1
  · obtain ⟨q, hq⟩ := (h.waiting b i).1 hi
    exact (List.getElem?_eq_some_iff.1 hq).1

theorem Inv.fifo (h : Inv s) {i j : Nat} {a a' : Acquisition} (hi : s.acquisitions[i]? = some a)
    (hj : s.acquisitions[j]? = some a') (hb : a.backendId = a'.backendId) (hq : a'.queued = true) (hij : i < j)
    (hobtained : a'.phase.obtained) : a.phase.obtained := by
  obtain ⟨b, q, p⟩ := a
  obtain ⟨b', q', p'⟩ := a'
  obtain rfl : b = b' := hb
  obtain rfl : q' = true := hq
  have hline : p = .waiting ∨ p = .woken → i ∈ s.line b := by
    rintro (rfl | rfl)
    · exact mem_line.2 (.inr ((h.waiting b i).2 ⟨q, hi⟩))
    · exact mem_line.2 (.inl ((h.woken b i).2 ⟨q, hi⟩))
  cases p with
  | waiting => exact absurd (h.ahead b j p' hj hobtained i (hline (.inl rfl))) hij.not_gt
  | woken => exact absurd (h.ahead b j p' hj hobtained i (hline (.inr rfl))) hij.not_gt
  | completed => exact .inl rfl
  | continued => exact .inr (.inl rfl)
  | released => exact .inr (.inr rfl)

theorem Inv.acquire (h : Inv s) (backendId : String) : Inv (s.acquire backendId) := by
  unfold EventLoop.acquire
  split_ifs with hheld
  · have hline : ∀ b, ({ s with
        mutex := s.mutex.enqueue backendId s.acquisitions.length
        acquisitions := s.acquisitions ++ [⟨backendId, true, .waiting⟩] } : EventLoop).line b =
          s.line b ++ if b = backendId then [s.acquisitions.length] else [] := by
      intro b
      rw [line, line, SyncMutex.enqueue]
      by_cases hb : b = backendId
      · subst hb
        simp
      · simp [hb]
    refine ⟨h.nodup, fun b i => ?_, fun i hi => ?_, fun b i => ?_, fun b => ?_, fun b i p hi hp j hj => ?_⟩
    · rw [h.woken]
      simp [getElem?_concat]
    · obtain ⟨b, q, hq⟩ := h.completed i hi
      exact ⟨b, q, getElem?_concat.2 (.inl hq)⟩
    · simp only [getElem?_concat, exists_or, ← h.waiting, SyncMutex.enqueue, Acquisition.mk.injEq, and_true]
      by_cases hb : b = backendId
      · subst hb
        simp
      · simp [hb]
    · rw [hline]
      split_ifs
      · refine List.pairwise_append.2 ⟨h.sorted b, List.pairwise_singleton _ _, fun i hi j hj => ?_⟩
        rw [List.mem_singleton.1 hj]
        exact h.lt_length hi
      · rw [List.append_nil]
        exact h.sorted b
    · rw [hline] at hj
      rcases getElem?_concat.1 hi with hi | ⟨-, hnewest⟩
      · rcases List.mem_append.1 hj with hj | hj
        · exact h.ahead b i p hi hp j hj
        · split_ifs at hj
          · rw [List.mem_singleton.1 hj]
            exact (List.getElem?_eq_some_iff.1 hi).1
          · cases hj
      · cases hnewest
        rcases hp with hp | hp | hp <;> cases hp
  · have hline : ∀ b, ({
        mutex := s.mutex.hold backendId
        acquisitions := s.acquisitions ++ [⟨backendId, false, .completed⟩]
        microtasks := s.microtasks ++ [.continueCaller s.acquisitions.length] } : EventLoop).line b = s.line b := by
      intro b
      simp [line, resumes, SyncMutex.hold]
    refine ⟨?_, fun b i => ?_, fun i hi => ?_, fun b i => ?_, fun b => ?_, fun b i p hi hp j hj => ?_⟩
    · refine List.nodup_append.2 ⟨h.nodup, List.nodup_singleton _, ?_⟩
      rintro t ht t' ht' rfl
      rw [List.mem_singleton.1 ht'] at ht
      obtain ⟨b, q, hq⟩ := h.completed _ ht
      exact absurd (List.getElem?_eq_some_iff.1 hq).1 (lt_irrefl _)
    · simp [getElem?_concat, h.woken]
    · rcases List.mem_append.1 hi with hi | hi
      · obtain ⟨b, q, hq⟩ := h.completed i hi
        exact ⟨b, q, getElem?_concat.2 (.inl hq)⟩
      · cases List.mem_singleton.1 hi
        exact ⟨backendId, false, getElem?_concat.2 (.inr ⟨rfl, rfl⟩)⟩
    · simp [getElem?_concat, ← h.waiting, SyncMutex.hold]
    · rw [hline]
      exact h.sorted b
    · rw [hline] at hj
      rcases getElem?_concat.1 hi with hi | ⟨-, hnewest⟩
      · exact h.ahead b i p hi hp j hj
      · cases hnewest

theorem Inv.giveUp (h : Inv s) {i : Nat} {b : String} {q : Bool} (hi : s.acquisitions[i]? = some ⟨b, q, .continued⟩)
    (held : String → Bool) :
    Inv { s with mutex := { s.mutex with held }, acquisitions := setPhase s.acquisitions i .released } := by
  refine ⟨h.nodup, fun b' k => ?_, fun k hk => ?_, fun b' k => ?_, h.sorted, fun b' k p hk hp j hj => ?_⟩
  · simp only [setPhase_other .released .woken hi (by decide) (by decide)]
    exact h.woken b' k
  · obtain ⟨b', q', hq⟩ := h.completed k hk
    exact ⟨b', q', (setPhase_other _ _ hi (by decide) (by decide)).2 hq⟩
  · simp only [setPhase_other .released .waiting hi (by decide) (by decide)]
    exact h.waiting b' k
  · rcases getElem?_setPhase.1 hk with ⟨rfl, -, p₀, hp₀⟩ | ⟨-, hk⟩
    · rw [hi] at hp₀
      cases hp₀
      exact h.ahead b i _ hi (.inr (.inl rfl)) j hj
    · exact h.ahead b' k p hk hp j hj

/-- The head of a queue is woken; it stays where it is in the line. -/
theorem Inv.wake (h : Inv s) {b : String} {j : Nat} {rest : List Nat} (hqueue : s.mutex.queues b = j :: rest) :
    Inv {
      mutex := { s.mutex with queues := Function.update s.mutex.queues b rest }
      acquisitions := setPhase s.acquisitions j .woken
      microtasks := s.microtasks ++ [.resumeAcquire b j] } := by
  obtain ⟨q, hj⟩ := (h.waiting b j).1 (by rw [hqueue]; exact List.mem_cons_self)
  have hsorted := h.sorted b
  rw [line, hqueue, List.pairwise_append] at hsorted
  have hrest : j ∉ rest := fun hmem => absurd ((List.pairwise_cons.1 hsorted.2.1).1 j hmem) (lt_irrefl _)
  have hline : ∀ b', ({
      mutex := { s.mutex with queues := Function.update s.mutex.queues b rest }
      acquisitions := setPhase s.acquisitions j .woken
      microtasks := s.microtasks ++ [.resumeAcquire b j] } : EventLoop).line b' = s.line b' := by
    intro b'
    by_cases hb : b' = b
    · subst hb
      simp [line, resumes, hqueue]
    · simp [line, resumes, hb, Ne.symm hb]
  refine ⟨?_, fun b' k => ?_, fun k hk => ?_, fun b' k => ?_, fun b' => ?_, fun b' k p hk hp l hl => ?_⟩
  · refine List.nodup_append.2 ⟨h.nodup, List.nodup_singleton _, ?_⟩
    rintro t ht t' ht' rfl
    rw [List.mem_singleton.1 ht'] at ht
    obtain ⟨q', hq'⟩ := (h.woken b j).1 ht
    rw [hj] at hq'
    cases hq'
  · rw [List.mem_append, h.woken]
    simp only [getElem?_setPhase, List.mem_singleton, Microtask.resumeAcquire.injEq]
    by_cases hk : j = k
    · subst hk
      simp [hj, eq_comm]
    · simp [hk, Ne.symm hk]
  · rcases List.mem_append.1 hk with hk | hk
    · obtain ⟨b', q', hq'⟩ := h.completed k hk
      exact ⟨b', q', (setPhase_other _ _ hj (by decide) (by decide)).2 hq'⟩
    · cases List.mem_singleton.1 hk
  · simp only [getElem?_setPhase]
    by_cases hb : b' = b
    · subst hb
      rw [Function.update_self]
      have hold := h.waiting b' k
      rw [hqueue, List.mem_cons] at hold
      by_cases hk : j = k
      · subst hk
        simp [hrest]
      · simpa [hk, Ne.symm hk] using hold
    · have hk : (∃ q, s.acquisitions[k]? = some ⟨b', q, .waiting⟩) → j ≠ k := by
        rintro ⟨q', hq'⟩ rfl
        rw [hj] at hq'
        cases hq'
        exact hb rfl
      rw [Function.update_of_ne hb, h.waiting]
      constructor
      · rintro ⟨q', hq'⟩
        exact ⟨q', .inr ⟨hk ⟨q', hq'⟩, hq'⟩⟩
      · rintro ⟨q', ⟨-, hp, -⟩ | ⟨-, hq'⟩⟩
        · cases hp
        · exact ⟨q', hq'⟩
  · rw [hline]
    exact h.sorted b'
  · rw [hline] at hl
    rcases getElem?_setPhase.1 hk with ⟨-, rfl, -⟩ | ⟨-, hk⟩
    · rcases hp with hp | hp | hp <;> cases hp
    · exact h.ahead b' k p hk hp l hl

theorem Inv.release (h : Inv s) (i : Nat) : Inv (s.release i) := by
  unfold EventLoop.release
  split
  · rename_i b q hi
    have hgiven := h.giveUp hi (Function.update s.mutex.held b false)
    cases hqueue : s.mutex.queues b with
    | nil =>
      simp only [SyncMutex.release, hqueue, List.head?_nil, List.tail_nil]
      rwa [← hqueue, Function.update_eq_self]
    | cons j rest =>
      simp only [SyncMutex.release, hqueue, List.head?_cons, List.tail_cons]
      exact hgiven.wake hqueue
  · exact h

theorem Inv.resume (h : Inv s) {b : String} {i : Nat} {rest : List Microtask}
    (hms : s.microtasks = .resumeAcquire b i :: rest) : Inv {
      mutex := s.mutex.hold b
      acquisitions := setPhase s.acquisitions i .completed
      microtasks := rest ++ [.continueCaller i] } := by
  obtain ⟨q, hi⟩ := (h.woken b i).1 (by rw [hms]; exact List.mem_cons_self)
  have hnodup := h.nodup
  rw [hms, List.nodup_cons] at hnodup
  have hline : ∀ b', s.line b' = (if b = b' then [i] else []) ++ ({
      mutex := s.mutex.hold b
      acquisitions := setPhase s.acquisitions i .completed
      microtasks := rest ++ [.continueCaller i] } : EventLoop).line b' := by
    intro b'
    by_cases hb : b = b'
    · simp [line, resumes, hms, hb, SyncMutex.hold]
    · simp [line, resumes, hms, hb, SyncMutex.hold]
  refine ⟨?_, fun b' k => ?_, fun k hk => ?_, fun b' k => ?_, fun b' => ?_, fun b' k p hk hp l hl => ?_⟩
  · refine List.nodup_append.2 ⟨hnodup.2, List.nodup_singleton _, ?_⟩
    rintro t ht t' ht' rfl
    rw [List.mem_singleton.1 ht'] at ht
    obtain ⟨b', q', hq'⟩ := h.completed i (by rw [hms]; exact List.mem_cons_of_mem _ ht)
    rw [hi] at hq'
    cases hq'
  · have hold := h.woken b' k
    rw [hms, List.mem_cons] at hold
    simp only [List.mem_append, List.mem_singleton, reduceCtorEq, or_false, getElem?_setPhase, false_and, and_false, false_or]
    by_cases hk : i = k
    · subst hk
      have hgone : Microtask.resumeAcquire b' i ∉ rest := by
        intro hmem
        obtain ⟨q', hq'⟩ := hold.1 (.inr hmem)
        rw [hi] at hq'
        cases hq'
        exact hnodup.1 hmem
      simp [hgone]
    · simpa [hk, Ne.symm hk] using hold
  · rcases List.mem_append.1 hk with hk | hk
    · obtain ⟨b', q', hq'⟩ := h.completed k (by rw [hms]; exact List.mem_cons_of_mem _ hk)
      refine ⟨b', q', getElem?_setPhase.2 (.inr ⟨?_, hq'⟩)⟩
      rintro rfl
      rw [hi] at hq'
      cases hq'
    · cases List.mem_singleton.1 hk
      exact ⟨b, q, getElem?_setPhase.2 (.inl ⟨rfl, rfl, _, hi⟩)⟩
  · simp only [setPhase_other .completed .waiting hi (by decide) (by decide)]
    exact h.waiting b' k
  · have hsorted := h.sorted b'
    rw [hline, List.pairwise_append] at hsorted
    exact hsorted.2.1
  · have hold : l ∈ s.line b' := by
      rw [hline]
      exact List.mem_append_right _ hl
    rcases getElem?_setPhase.1 hk with ⟨rfl, -, p₀, hp₀⟩ | ⟨-, hk⟩
    · rw [hi] at hp₀
      cases hp₀
      have hsorted := h.sorted b
      rw [hline, if_pos rfl, List.singleton_append, List.pairwise_cons] at hsorted
      exact hsorted.1 l hl
    · exact h.ahead b' k p hk hp l hold

theorem Inv.continues (h : Inv s) {i : Nat} {rest : List Microtask} (hms : s.microtasks = .continueCaller i :: rest) :
    Inv { s with acquisitions := setPhase s.acquisitions i .continued, microtasks := rest } := by
  obtain ⟨b, q, hi⟩ := h.completed i (by rw [hms]; exact List.mem_cons_self)
  have hnodup := h.nodup
  rw [hms, List.nodup_cons] at hnodup
  have hline : ∀ b', ({ s with acquisitions := setPhase s.acquisitions i .continued, microtasks := rest } : EventLoop).line b' =
      s.line b' := by
    intro b'
    rw [line, line, hms, List.filterMap_cons_none rfl]
  refine ⟨hnodup.2, fun b' k => ?_, fun k hk => ?_, fun b' k => ?_, fun b' => ?_, fun b' k p hk hp l hl => ?_⟩
  · simp only [setPhase_other .continued .woken hi (by decide) (by decide), ← h.woken, hms, List.mem_cons, reduceCtorEq, false_or]
  · obtain ⟨b', q', hq'⟩ := h.completed k (by rw [hms]; exact List.mem_cons_of_mem _ hk)
    refine ⟨b', q', getElem?_setPhase.2 (.inr ⟨?_, hq'⟩)⟩
    rintro rfl
    exact hnodup.1 hk
  · simp only [setPhase_other .continued .waiting hi (by decide) (by decide)]
    exact h.waiting b' k
  · rw [hline]
    exact h.sorted b'
  · rw [hline] at hl
    rcases getElem?_setPhase.1 hk with ⟨rfl, -, p₀, hp₀⟩ | ⟨-, hk⟩
    · rw [hi] at hp₀
      cases hp₀
      exact h.ahead b i _ hi (.inl rfl) l hl
    · exact h.ahead b' k p hk hp l hl

theorem Inv.tick (h : Inv s) : Inv s.tick := by
  unfold EventLoop.tick
  split
  · exact h
  · rename_i b i rest hms
    exact h.resume hms
  · rename_i i rest hms
    exact h.continues hms

theorem Inv.step (h : Inv s) (e : MutexEvent) : Inv (s.step e) := by
  cases e with
  | acquire backendId => exact h.acquire backendId
  | release i => exact h.release i
  | tick => exact h.tick

theorem inv_init : Inv {} :=
  ⟨List.nodup_nil, by simp, nofun, by simp, fun _ => List.Pairwise.nil, by simp⟩

/-! ## Who has the lock -/

def active (p : AcquirePhase) : Prop := p = .woken ∨ p.holds

/-- Of each backend at most one call is active, and `held` says whether one holds the lock. -/
structure Sole (held : String → Bool) (l : List Acquisition) : Prop where
  one : ∀ (b : String) (i j : Nat) (q q' : Bool) (p p' : AcquirePhase), l[i]? = some ⟨b, q, p⟩ → l[j]? = some ⟨b, q', p'⟩ →
    active p → active p' → i = j
  held : ∀ b, held b = true ↔ ∃ (i : Nat) (q : Bool) (p : AcquirePhase), l[i]? = some ⟨b, q, p⟩ ∧ p.holds

def Free (l : List Acquisition) (b : String) : Prop :=
  ∀ (k : Nat) (q : Bool) (p : AcquirePhase), l[k]? = some ⟨b, q, p⟩ → ¬ active p

namespace Sole

variable {held : String → Bool} {l : List Acquisition} {b : String} {i : Nat} {q : Bool}

theorem queues (h : Sole held l) (b : String) : Sole held (l ++ [⟨b, true, .waiting⟩]) := by
  have hidle : ∀ p : AcquirePhase, active p → p ≠ .waiting := by
    rintro p hp rfl
    rcases hp with hp | hp | hp <;> cases hp
  refine ⟨fun b' i j q q' p p' hi hj hp hp' => ?_, fun b' => (h.held b').trans ?_⟩
  · rcases getElem?_concat.1 hi with hi | ⟨-, hnew⟩
    · rcases getElem?_concat.1 hj with hj | ⟨-, hnew⟩
      · exact h.one b' i j q q' p p' hi hj hp hp'
      · cases hnew
        exact absurd rfl (hidle _ hp')
    · cases hnew
      exact absurd rfl (hidle _ hp)
  · refine exists₃_congr fun i q p => and_congr_left fun hp => ?_
    rw [getElem?_concat]
    refine ⟨.inl, fun h' => h'.resolve_right ?_⟩
    rintro ⟨-, hnew⟩
    cases hnew
    exact hidle _ (.inr hp) rfl

theorem takes (h : Sole held l) (hfree : Free l b) :
    Sole (Function.update held b true) (l ++ [⟨b, false, .completed⟩]) := by
  refine ⟨fun b' i j q q' p p' hi hj hp hp' => ?_, fun b' => ?_⟩
  · rcases getElem?_concat.1 hi with hi | ⟨rfl, hnew⟩ <;> rcases getElem?_concat.1 hj with hj | ⟨rfl, hnew'⟩
    · exact h.one b' i j q q' p p' hi hj hp hp'
    · cases hnew'
      exact absurd hp (hfree i q p hi)
    · cases hnew
      exact absurd hp' (hfree j q' p' hj)
    · rfl
  · by_cases hb : b' = b
    · subst hb
      exact iff_of_true (Function.update_self ..) ⟨l.length, false, .completed, getElem?_concat.2 (.inr ⟨rfl, rfl⟩), .inl rfl⟩
    · rw [Function.update_of_ne hb, h.held]
      refine exists₃_congr fun i q p => and_congr_left fun _ => ?_
      rw [getElem?_concat]
      refine ⟨.inl, fun h' => h'.resolve_right ?_⟩
      rintro ⟨-, hnew⟩
      cases hnew
      exact hb rfl

theorem giveUp (h : Sole held l) (hi : l[i]? = some ⟨b, q, .continued⟩) :
    Sole (Function.update held b false) (setPhase l i .released) ∧ Free (setPhase l i .released) b := by
  have hidle : ¬ active .released := by
    rintro (hp | hp | hp) <;> cases hp
  have hfree : Free (setPhase l i .released) b := by
    intro k q' p hk hp
    rcases getElem?_setPhase.1 hk with ⟨-, rfl, -⟩ | ⟨hne, hk⟩
    · exact hidle hp
    · exact hne (h.one b i k q q' _ p hi hk (.inr (.inr rfl)) hp)
  refine ⟨⟨fun b' k j q' q'' p p' hk hj hp hp' => ?_, fun b' => ?_⟩, hfree⟩
  · rcases getElem?_setPhase.1 hk with ⟨-, rfl, -⟩ | ⟨-, hk⟩
    · exact absurd hp hidle
    · rcases getElem?_setPhase.1 hj with ⟨-, rfl, -⟩ | ⟨-, hj⟩
      · exact absurd hp' hidle
      · exact h.one b' k j q' q'' p p' hk hj hp hp'
  · by_cases hb : b' = b
    · subst hb
      rw [Function.update_self]
      exact iff_of_false nofun fun ⟨k, q', p, hk, hp⟩ => hfree k q' p hk (.inr hp)
    · rw [Function.update_of_ne hb, h.held]
      refine exists₃_congr fun k q' p => and_congr_left fun hp => ?_
      rw [getElem?_setPhase]
      constructor
      · intro hk
        refine .inr ⟨?_, hk⟩
        rintro rfl
        rw [hi] at hk
        cases hk
        exact hb rfl
      · rintro (⟨-, rfl, -⟩ | ⟨-, hk⟩)
        · exact absurd (.inr hp) hidle
        · exact hk

theorem wake (h : Sole held l) (hfree : Free l b) (hi : l[i]? = some ⟨b, q, .waiting⟩) :
    Sole held (setPhase l i .woken) := by
  refine ⟨fun b' k j q' q'' p p' hk hj hp hp' => ?_, fun b' => (h.held b').trans ?_⟩
  · rcases getElem?_setPhase.1 hk with ⟨rfl, -, p₀, hk⟩ | ⟨-, hk⟩ <;>
      rcases getElem?_setPhase.1 hj with ⟨rfl, -, p₁, hj⟩ | ⟨-, hj⟩
    · rfl
    · rw [hi] at hk
      cases hk
      exact absurd hp' (hfree j q'' p' hj)
    · rw [hi] at hj
      cases hj
      exact absurd hp (hfree k q' p hk)
    · exact h.one b' k j q' q'' p p' hk hj hp hp'
  · refine exists₃_congr fun k q' p => and_congr_left fun hp => ?_
    rw [setPhase_other .woken p hi]
    all_goals
      rintro rfl
      rcases hp with hp | hp <;> cases hp

theorem goes (h : Sole held l) {p₀ phase : AcquirePhase} (hi : l[i]? = some ⟨b, q, p₀⟩) (h₀ : active p₀) (hphase : phase.holds) :
    Sole (Function.update held b true) (setPhase l i phase) := by
  have hold : ∀ (b' : String) (k : Nat) (q' : Bool) (p : AcquirePhase), (setPhase l i phase)[k]? = some ⟨b', q', p⟩ → active p →
      ∃ p', l[k]? = some ⟨b', q', p'⟩ ∧ active p' := by
    intro b' k q' p hk hp
    rcases getElem?_setPhase.1 hk with ⟨rfl, -, p', hk⟩ | ⟨-, hk⟩
    · rw [hi] at hk
      cases hk
      exact ⟨p₀, hi, h₀⟩
    · exact ⟨p, hk, hp⟩
  refine ⟨fun b' k j q' q'' p p' hk hj hp hp' => ?_, fun b' => ?_⟩
  · obtain ⟨r, hk, hr⟩ := hold b' k q' p hk hp
    obtain ⟨r', hj, hr'⟩ := hold b' j q'' p' hj hp'
    exact h.one b' k j q' q'' r r' hk hj hr hr'
  · by_cases hb : b' = b
    · subst hb
      exact iff_of_true (Function.update_self ..) ⟨i, q, phase, getElem?_setPhase.2 (.inl ⟨rfl, rfl, p₀, hi⟩), hphase⟩
    · rw [Function.update_of_ne hb, h.held]
      refine exists₃_congr fun k q' p => and_congr_left fun hp => ?_
      rw [getElem?_setPhase]
      have hne : ∀ p', l[k]? = some ⟨b', q', p'⟩ → i ≠ k := by
        rintro p' hk rfl
        rw [hi] at hk
        cases hk
        exact hb rfl
      constructor
      · exact fun hk => .inr ⟨hne p hk, hk⟩
      · rintro (⟨hik, -, p', hk⟩ | ⟨-, hk⟩)
        · exact absurd hik (hne p' hk)
        · exact hk

end Sole

theorem Inv.sole_step (h : Inv s) (hs : Sole s.mutex.held s.acquisitions) {e : MutexEvent} (hG : NoBarging s e) :
    Sole (s.step e).mutex.held (s.step e).acquisitions := by
  cases e with
  | acquire b =>
    rw [EventLoop.step, EventLoop.acquire]
    split_ifs with hheld
    · exact hs.queues b
    · refine hs.takes fun k q p hk hp => ?_
      rcases hp with rfl | hp
      · exact hG _ (List.mem_of_getElem? hk) rfl rfl
      · exact hheld ((hs.held b).2 ⟨k, q, p, hk, hp⟩)
  | release i =>
    rw [EventLoop.step, EventLoop.release]
    split
    · rename_i b q hi
      obtain ⟨hgiven, hfree⟩ := hs.giveUp hi
      cases hqueue : s.mutex.queues b with
      | nil => simpa only [SyncMutex.release, hqueue, List.head?_nil] using hgiven
      | cons j rest =>
        simp only [SyncMutex.release, hqueue, List.head?_cons]
        obtain ⟨q', hj⟩ := (h.waiting b j).1 (by rw [hqueue]; exact List.mem_cons_self)
        exact hgiven.wake hfree ((setPhase_other _ _ hi (by decide) (by decide)).2 hj)
    · exact hs
  | tick =>
    rw [EventLoop.step, EventLoop.tick]
    split
    · exact hs
    · rename_i b i rest hms
      obtain ⟨q, hi⟩ := (h.woken b i).1 (by rw [hms]; exact List.mem_cons_self)
      exact hs.goes hi (.inl rfl) (.inl rfl)
    · rename_i i rest hms
      obtain ⟨b, q, hi⟩ := h.completed i (by rw [hms]; exact List.mem_cons_self)
      have hgoes : Sole (Function.update s.mutex.held b true) (setPhase s.acquisitions i .continued) :=
        hs.goes hi (.inr (.inl rfl)) (.inr rfl)
      rwa [Function.update_eq_self_iff.2 ((hs.held b).2 ⟨i, q, _, hi, .inl rfl⟩).symm] at hgoes

structure Orderly (s : EventLoop) : Prop where
  inv : Inv s
  sole : Sole s.mutex.held s.acquisitions

theorem orderly_init : Orderly {} where
  inv := inv_init
  sole := by
    refine ⟨fun b i j q q' p p' hi => ?_, fun b => iff_of_false nofun ?_⟩
    · cases hi
    · rintro ⟨i, q, p, hi, -⟩
      cases hi

theorem Orderly.step (h : Orderly s) {e : MutexEvent} (hG : NoBarging s e) : Orderly (s.step e) :=
  ⟨h.inv.step e, h.inv.sole_step h.sole hG⟩

theorem Orderly.exclusiveFifo (h : Orderly s) : ExclusiveFifo s where
  exclusive i j a a' hi hj hb hp hp' := by
    obtain ⟨b, q, p⟩ := a
    obtain ⟨b', q', p'⟩ := a'
    obtain rfl : b = b' := hb
    exact h.sole.one b i j q q' p p' hi hj (.inr hp) (.inr hp')
  fifo _ _ _ _ hi hj hb _ hq := h.inv.fifo hi hj hb hq

/-! ## What a barging call leads to -/

def Holds (s : EventLoop) (b : String) (i : Nat) : Prop := ∃ q p, s.acquisitions[i]? = some ⟨b, q, p⟩ ∧ p.holds

theorem Holds.tick {b : String} {i : Nat} (h : Holds s b i) : Holds s.tick b i := by
  obtain ⟨q, p, hi, hp⟩ := h
  have hkept : ∀ (j : Nat) (phase : AcquirePhase), phase.holds →
      ∃ q p, (setPhase s.acquisitions j phase)[i]? = some ⟨b, q, p⟩ ∧ p.holds := by
    intro j phase hphase
    by_cases hij : j = i
    · exact ⟨q, phase, getElem?_setPhase.2 (.inl ⟨hij, rfl, p, hi⟩), hphase⟩
    · exact ⟨q, p, getElem?_setPhase.2 (.inr ⟨hij, hi⟩), hp⟩
  unfold EventLoop.tick
  split
  · exact ⟨q, p, hi, hp⟩
  · exact hkept _ _ (.inl rfl)
  · exact hkept _ _ (.inr rfl)

theorem Holds.ticks {b : String} {i : Nat} (h : Holds s b i) (n : Nat) :
    Holds (run EventLoop.step s (List.replicate n .tick)) b i := by
  induction n generalizing s with
  | zero => exact h
  | succ n ih =>
    rw [List.replicate_succ, run_cons]
    exact ih h.tick

theorem Inv.woken_holds (h : Inv s) {b : String} {i : Nat} {before rest : List Microtask}
    (hms : s.microtasks = before ++ .resumeAcquire b i :: rest) :
    Holds (run EventLoop.step s (List.replicate (before.length + 1) .tick)) b i := by
  induction before generalizing s rest with
  | nil =>
    obtain ⟨q, hi⟩ := (h.woken b i).1 (by rw [hms]; exact List.mem_append_right _ List.mem_cons_self)
    refine ⟨q, .completed, ?_, .inl rfl⟩
    have htick : s.tick.acquisitions = setPhase s.acquisitions i .completed := by
      rw [List.nil_append] at hms
      simp only [EventLoop.tick, hms]
    exact htick ▸ getElem?_setPhase.2 (.inl ⟨rfl, rfl, _, hi⟩)
  | cons t before ih =>
    have hnext : ∃ rest', s.tick.microtasks = before ++ .resumeAcquire b i :: rest' := by
      rw [List.cons_append] at hms
      cases t with
      | resumeAcquire b' j => exact ⟨rest ++ [.continueCaller j], by simp [EventLoop.tick, hms]⟩
      | continueCaller j => exact ⟨rest, by simp [EventLoop.tick, hms]⟩
    obtain ⟨rest', hrest'⟩ := hnext
    exact ih h.tick hrest'

/-- After an `acquire` between a release and the waiter it woke, both hold the lock when the microtasks have run. -/
theorem Orderly.barging (h : Orderly s) {a : Acquisition} (ha : a ∈ s.acquisitions) (hw : a.phase = .woken) :
    ∃ n, ¬ ExclusiveFifo (run EventLoop.step (s.acquire a.backendId) (List.replicate n .tick)) := by
  obtain ⟨i, hi⟩ := List.mem_iff_getElem?.1 ha
  obtain ⟨b, q, p⟩ := a
  obtain rfl : p = .woken := hw
  have hheld : ¬ s.mutex.held b = true := by
    intro hheld
    obtain ⟨k, q', p', hk, hp'⟩ := (h.sole.held b).1 hheld
    obtain rfl := h.sole.one b i k q q' _ p' hi hk (.inl rfl) (.inr hp')
    rw [hi] at hk
    cases hk
    rcases hp' with hp' | hp' <;> cases hp'
  obtain ⟨before, rest, hms⟩ := List.append_of_mem ((h.inv.woken b i).2 ⟨q, hi⟩)
  refine ⟨before.length + 1, fun hexcl => ?_⟩
  have hacquired : (s.acquire b).acquisitions = s.acquisitions ++ [⟨b, false, .completed⟩] ∧
      (s.acquire b).microtasks = before ++ .resumeAcquire b i :: (rest ++ [.continueCaller s.acquisitions.length]) := by
    simp [EventLoop.acquire, hheld, hms]
  have hbarger : Holds (s.acquire b) b s.acquisitions.length :=
    ⟨false, .completed, hacquired.1 ▸ getElem?_concat.2 (.inr ⟨rfl, rfl⟩), .inl rfl⟩
  obtain ⟨q₁, p₁, hi₁, hp₁⟩ := (h.inv.acquire b).woken_holds hacquired.2
  obtain ⟨q₂, p₂, hi₂, hp₂⟩ := hbarger.ticks (before.length + 1)
  have hsame := hexcl.exclusive _ _ _ _ hi₁ hi₂ rfl hp₁ hp₂
  exact absurd (List.getElem?_eq_some_iff.1 hi).1 hsame.not_lt

/-- The tasks of each backend exclude each other, in every state of a run and whenever the microtasks run on from it,
exactly when no `acquire` comes between a release and the waiter it woke. The order of the queue is kept then, too. -/
theorem exclusive_iff (events : List MutexEvent) :
    (∀ es, es <+: events → ∀ n, ExclusiveFifo (run EventLoop.step {} (es ++ List.replicate n .tick))) ↔
      Guarded EventLoop.step NoBarging {} events := by
  constructor
  · intro h
    induction events using List.reverseRecOn with
    | nil => trivial
    | append_singleton es e ih =>
      have hes := ih fun es' hes' => h es' (hes'.trans (List.prefix_append es [e]))
      have horderly := hes.inv (fun _ _ hs hG => hs.step hG) orderly_init
      refine guarded_append.2 ⟨hes, ?_, trivial⟩
      cases e with
      | release i => trivial
      | tick => trivial
      | acquire b =>
        rintro a ha rfl hw
        obtain ⟨n, hn⟩ := horderly.barging ha hw
        refine hn ?_
        have hrun := h (es ++ [.acquire a.backendId]) (List.prefix_refl _) n
        rwa [run_append, run_append] at hrun
  · rintro h es ⟨later, rfl⟩ n
    have hticks : Guarded EventLoop.step NoBarging (run EventLoop.step {} es) (List.replicate n .tick) :=
      guarded_of_forall fun s e he => (List.eq_of_mem_replicate he) ▸ trivial
    have hall := guarded_append.2 ⟨(guarded_append.1 h).1, hticks⟩
    exact (hall.inv (fun _ _ hs hG => hs.step hG) orderly_init).exclusiveFifo

end EventLoop

def acquireAgain : List MutexEvent :=
  [.acquire "backend", .tick, .acquire "backend", .release 0, .acquire "backend", .tick]

/-- B and A's second call hold the lock. -/
theorem two_holders : ¬ ∀ events : List MutexEvent, EventLoop.ExclusiveFifo (run EventLoop.step {} events) := by
  intro h
  have hsame := (h acquireAgain).exclusive 1 2 ⟨"backend", true, .completed⟩ ⟨"backend", false, .completed⟩ rfl rfl rfl
    (.inl rfl) (.inl rfl)
  cases hsame

end HaexVault.Sync
