import Mathlib.Algebra.Ring.Int.Defs
import HaexVault.Lib.Runs
/-!
# Interleaved calls

Calls that share a state. A call gives up its thread where it awaits: `advance` is what it does from
one such place to the next, and between two steps of one call come those of all others and of the
world outside. An invariant is kept when a call keeps its own and no step breaks another's (`Keeps.run`).
-/

namespace HaexVault.Lib.Calls

open Runs

/-- How calls of one kind run: what they are made from, what they do until they wait again, and what else happens to the
state they share. -/
structure Machine (S P C A E : Type) where
  start : P → C
  advance : S → C → A → S × C
  outside : S → E → S

/-- The shared state and the calls made so far. -/
structure Sys (S C : Type) where
  shared : S
  calls : List C := []

inductive Event (P A E : Type) where
  | start (p : P)
  /-- The call at `i` goes on. -/
  | resume (i : Nat) (a : A)
  | outside (e : E)

variable {S P C A E : Type} {M : Machine S P C A E} {I : S → Prop} {J : S → C → Prop}
  {G : Sys S C → Event P A E → Prop} {σ : Sys S C}

def Machine.step (M : Machine S P C A E) (σ : Sys S C) : Event P A E → Sys S C
  | .start p => { σ with calls := σ.calls ++ [M.start p] }
  | .resume i a => match σ.calls[i]? with
    | none => σ
    | some c =>
      { shared := (M.advance σ.shared c a).1, calls := σ.calls.set i (M.advance σ.shared c a).2 }
  | .outside e => { σ with shared := M.outside σ.shared e }

/-- The shared state has `I`, and every call has `J` with it. -/
structure Each (I : S → Prop) (J : S → C → Prop) (σ : Sys S C) : Prop where
  shared : I σ.shared
  calls : ∀ c ∈ σ.calls, J σ.shared c

/-- What guarded steps keep of such an invariant. -/
structure Keeps (M : Machine S P C A E) (I : S → Prop) (J : S → C → Prop) (G : Sys S C → Event P A E → Prop) :
    Prop where
  start : ∀ σ p, Each I J σ → G σ (.start p) → J σ.shared (M.start p)
  own : ∀ σ i a c, Each I J σ → G σ (.resume i a) → σ.calls[i]? = some c → J σ.shared c →
    I (M.advance σ.shared c a).1 ∧ J (M.advance σ.shared c a).1 (M.advance σ.shared c a).2
  other : ∀ σ i a c d, Each I J σ → G σ (.resume i a) → σ.calls[i]? = some c → J σ.shared c →
    J σ.shared d → J (M.advance σ.shared c a).1 d
  outside : ∀ σ e, Each I J σ → G σ (.outside e) →
    I (M.outside σ.shared e) ∧ ∀ c ∈ σ.calls, J (M.outside σ.shared e) c

theorem step_resume {i : Nat} {c : C} (h : σ.calls[i]? = some c) (a : A) :
    M.step σ (.resume i a) =
      { shared := (M.advance σ.shared c a).1, calls := σ.calls.set i (M.advance σ.shared c a).2 } := by
  simp only [Machine.step, h]

theorem step_resume_none {i : Nat} (h : σ.calls[i]? = none) (a : A) : M.step σ (.resume i a) = σ := by
  simp only [Machine.step, h]

/-- The calls after one has gone on. -/
theorem getElem?_set_cases {calls : List C} {i j : Nat} {c d : C} (h : (calls.set i c)[j]? = some d) :
    j = i ∧ d = c ∨ j ≠ i ∧ calls[j]? = some d := by
  by_cases hij : i = j
  · subst hij
    obtain ⟨_, hd⟩ := List.getElem?_eq_some_iff.1 h
    exact .inl ⟨rfl, by rw [← hd, List.getElem_set_self]⟩
  · rw [List.getElem?_set_ne hij] at h
    exact .inr ⟨Ne.symm hij, h⟩

theorem Keeps.step (hk : Keeps M I J G) {e : Event P A E} (h : Each I J σ) (hG : G σ e) : Each I J (M.step σ e) := by
  cases e with
  | start p =>
    refine ⟨h.shared, fun d hd => ?_⟩
    rcases List.mem_append.1 hd with hd | hd
    · exact h.calls d hd
    · obtain rfl := List.mem_singleton.1 hd
      exact hk.start σ p h hG
  | resume i a =>
    cases hi : σ.calls[i]? with
    | none => rwa [step_resume_none hi]
    | some c =>
      have hc := h.calls c (List.mem_of_getElem? hi)
      obtain ⟨hI, hJ⟩ := hk.own σ i a c h hG hi hc
      rw [step_resume hi]
      refine ⟨hI, fun d hd => ?_⟩
      rcases List.mem_or_eq_of_mem_set hd with hd | rfl
      · exact hk.other σ i a c d h hG hi hc (h.calls d hd)
      · exact hJ
  | outside e =>
    obtain ⟨hI, hJ⟩ := hk.outside σ e h hG
    exact ⟨hI, hJ⟩

/-- The invariant holds in every state that a guarded run reaches. -/
theorem Keeps.run (hk : Keeps M I J G) {es : List (Event P A E)} (hG : Guarded M.step G σ es) (h : Each I J σ) :
    Each I J (run M.step σ es) :=
  hG.inv (fun _ _ h hG => hk.step h hG) h

/-! ## What a call is made from -/

def Event.made : Event P A E → Option P
  | .start p => some p
  | .resume _ _ | .outside _ => none

theorem getElem?_append_singleton_cases {calls : List C} {i : Nat} {c d : C} (h : (calls ++ [c])[i]? = some d) :
    calls[i]? = some d ∨ i = calls.length ∧ d = c := by
  rw [List.getElem?_append] at h
  split at h
  · exact .inl h
  · obtain ⟨hlt, rfl⟩ := List.getElem?_eq_some_iff.1 h
    rw [List.length_singleton] at hlt
    exact .inr ⟨by omega, List.getElem_singleton _⟩

/-- What each call keeps of what it was made from, under an invariant of the shared state. -/
theorem run_made {K : C → P → Prop} {s : S} {es : List (Event P A E)} (hstart : ∀ p, K (M.start p) p)
    (hown : ∀ s c a, I s → I (M.advance s c a).1 ∧ ∀ p, K c p → K (M.advance s c a).2 p)
    (houtside : ∀ s e, I s → I (M.outside s e)) (h0 : I s) {i : Nat} {c : C}
    (hc : (run M.step { shared := s } es).calls[i]? = some c) : ∃ p, (es.filterMap Event.made)[i]? = some p ∧ K c p := by
  have hall : Guarded M.step (fun _ _ => True) { shared := s } es := guarded_true _ es
  refine (hall.history (P := fun es σ => I σ.shared ∧ (es.filterMap Event.made).length = σ.calls.length ∧
    ∀ i c, σ.calls[i]? = some c → ∃ p, (es.filterMap Event.made)[i]? = some p ∧ K c p) ⟨h0, rfl, nofun⟩ ?_).2.2 i c hc
  rintro done e ⟨hI, hlen, hK⟩ -
  rw [List.filterMap_append]
  cases e with
  | start p =>
    refine ⟨hI, by simp [Machine.step, hlen, Event.made], fun i c hi => ?_⟩
    rcases getElem?_append_singleton_cases hi with hi | ⟨rfl, rfl⟩
    · obtain ⟨q, hq, hKq⟩ := hK i c hi
      exact ⟨q, (List.getElem?_append_left (List.getElem?_eq_some_iff.1 hq).1).trans hq, hKq⟩
    · exact ⟨p, hlen ▸ List.getElem?_concat_length, hstart p⟩
  | outside e =>
    rw [List.filterMap_cons_none rfl, List.filterMap_nil, List.append_nil]
    exact ⟨houtside _ e hI, hlen, hK⟩
  | resume j a =>
    rw [List.filterMap_cons_none rfl, List.filterMap_nil, List.append_nil]
    cases hj : (run M.step { shared := s } done).calls[j]? with
    | none =>
      rw [step_resume_none hj]
      exact ⟨hI, hlen, hK⟩
    | some d =>
      rw [step_resume hj]
      obtain ⟨hI', hd⟩ := hown _ d a hI
      refine ⟨hI', hlen.trans List.length_set.symm, fun i c hi => ?_⟩
      rcases getElem?_set_cases hi with ⟨rfl, rfl⟩ | ⟨-, hi⟩
      · obtain ⟨p, hp, hKp⟩ := hK _ d hj
        exact ⟨p, hp, hd p hKp⟩
      · exact hK i c hi

/-! ## Sums over the calls -/

/-- The sum of a quantity over the calls. -/
def Sys.total (f : C → Int) (σ : Sys S C) : Int := (σ.calls.map f).sum

theorem total_start (f : C → Int) (σ : Sys S C) (p : P) : (M.step σ (.start p)).total f = σ.total f + f (M.start p) := by
  simp [Sys.total, Machine.step]

theorem sum_map_set {l : List C} {i : Nat} {c : C} (h : l[i]? = some c) (f : C → Int) (d : C) :
    ((l.set i d).map f).sum + f c = (l.map f).sum + f d := by
  induction l generalizing i with
  | nil => cases h
  | cons e l ih =>
    cases i with
    | zero =>
      cases h
      simp only [List.set_cons_zero, List.map_cons, List.sum_cons]
      omega
    | succ i =>
      have hrest := ih (i := i) h
      simp only [List.set_cons_succ, List.map_cons, List.sum_cons]
      omega

/-- What the calls have, when one of them goes on: the old part of that call goes, and its new one comes. -/
theorem filterMap_set_perm {B : Type} {l : List C} {i : Nat} {c : C} (h : l[i]? = some c) (f : C → Option B) (d : C) :
    ((f c).toList ++ (l.set i d).filterMap f).Perm ((f d).toList ++ l.filterMap f) := by
  induction l generalizing i with
  | nil => cases h
  | cons e l ih =>
    have hcons : ∀ e (l : List C), (e :: l).filterMap f = (f e).toList ++ l.filterMap f := fun e l => by
      rw [List.filterMap_cons]
      cases f e <;> rfl
    cases i with
    | zero =>
      cases h
      rw [List.set_cons_zero, hcons, hcons, ← List.append_assoc, ← List.append_assoc]
      exact List.perm_append_comm.append_right _
    | succ i =>
      rw [List.set_cons_succ, hcons, hcons, ← List.append_assoc, ← List.append_assoc]
      refine (List.perm_append_comm.append_right _).trans ?_
      rw [List.append_assoc]
      refine ((ih (i := i) h).append_left _).trans ?_
      rw [← List.append_assoc]
      exact List.perm_append_comm.append_right _

theorem total_resume {i : Nat} {c : C} (h : σ.calls[i]? = some c) (f : C → Int) (a : A) :
    (M.step σ (.resume i a)).total f + f c = σ.total f + f (M.advance σ.shared c a).2 := by
  rw [step_resume h]
  exact sum_map_set h f _

theorem total_nonneg {f : C → Int} (hf : ∀ c, 0 ≤ f c) (σ : Sys S C) : 0 ≤ σ.total f := by
  obtain ⟨shared, calls⟩ := σ
  induction calls with
  | nil => exact Int.le_refl 0
  | cons c calls ih =>
    have hc := hf c
    simp only [Sys.total, List.map_cons, List.sum_cons] at ih ⊢
    omega

end HaexVault.Lib.Calls
