import Mathlib.Data.List.Induction
/-!
# Guarded runs

A system that takes one step per event. `Guarded G` says every event of a run
meets `G` in the state it happens in; what each guarded step keeps then holds in
every state the run reaches (`Guarded.inv`), and what each guarded step does
holds of every step (`Guarded.each`).
-/

namespace HaexVault.Lib.Runs

variable {S E : Type} (step : S → E → S)

/-- The state after the events. -/
def run (s : S) (es : List E) : S := es.foldl step s

/-- Every event meets `G` in the state it happens in. -/
def Guarded (G : S → E → Prop) : S → List E → Prop
  | _, [] => True
  | s, e :: es => G s e ∧ Guarded G (step s e) es

variable {step} {G P : S → E → Prop} {I : S → Prop}

@[simp] theorem run_nil (s : S) : run step s [] = s := rfl
@[simp] theorem run_cons (s : S) (e : E) (es : List E) : run step s (e :: es) = run step (step s e) es := rfl

theorem run_append (s : S) (es es' : List E) : run step s (es ++ es') = run step (run step s es) es' := by
  simp [run, List.foldl_append]

/-- An invariant that every guarded step keeps. -/
theorem Guarded.inv (hstep : ∀ s e, I s → G s e → I (step s e)) {s : S} {es : List E} (h : Guarded step G s es)
    (h0 : I s) : I (run step s es) := by
  induction es generalizing s with
  | nil => exact h0
  | cons e es ih => exact ih h.2 (hstep s e h0 h.1)

/-- What every guarded step does from a state with the invariant. -/
theorem Guarded.each (hstep : ∀ s e, I s → G s e → I (step s e)) (hP : ∀ s e, I s → G s e → P s e) {s : S}
    {es : List E} (h : Guarded step G s es) (h0 : I s) : Guarded step P s es := by
  induction es generalizing s with
  | nil => trivial
  | cons e es ih => exact ⟨hP s e h0 h.1, ih h.2 (hstep s e h0 h.1)⟩

theorem Guarded.and {Q : S → E → Prop} {s : S} {es : List E} (h : Guarded step P s es) (h' : Guarded step Q s es) :
    Guarded step (fun s e => P s e ∧ Q s e) s es := by
  induction es generalizing s with
  | nil => trivial
  | cons e es ih => exact ⟨⟨h.1, h'.1⟩, ih h.2 h'.2⟩

/-- Two guards that agree at every step of a run. -/
theorem Guarded.congr {Q : S → E → Prop} {s : S} {es : List E} (h : Guarded step (fun s e => P s e ↔ Q s e) s es) :
    Guarded step P s es ↔ Guarded step Q s es := by
  induction es generalizing s with
  | nil => exact Iff.rfl
  | cons e es ih => exact and_congr h.1 (ih h.2)

/-- Two guards that agree wherever an invariant and a third guard hold, of which the steps keep the invariant. -/
theorem Guarded.iff_of_inv {Q : S → E → Prop} (hstep : ∀ s e, I s → Q s e → G s e → I (step s e))
    (hiff : ∀ s e, I s → Q s e → (P s e ↔ G s e)) {s : S} {es : List E} (hQ : Guarded step Q s es) (h0 : I s) :
    Guarded step P s es ↔ Guarded step G s es := by
  induction es generalizing s with
  | nil => exact Iff.rfl
  | cons e es ih =>
    constructor
    · rintro ⟨hP, hrest⟩
      have hG := (hiff s e h0 hQ.1).1 hP
      exact ⟨hG, (ih hQ.2 (hstep s e h0 hQ.1 hG)).1 hrest⟩
    · rintro ⟨hG, hrest⟩
      exact ⟨(hiff s e h0 hQ.1).2 hG, (ih hQ.2 (hstep s e h0 hQ.1 hG)).2 hrest⟩

theorem guarded_append {s : S} {es es' : List E} :
    Guarded step G s (es ++ es') ↔ Guarded step G s es ∧ Guarded step G (run step s es) es' := by
  induction es generalizing s with
  | nil => simp [Guarded]
  | cons e es ih => simp only [List.cons_append, Guarded, ih, run_cons, and_assoc]

/-- What holds at the start, and with one more guarded event after it held before, holds of every guarded history
and its last state. -/
theorem Guarded.history {s : S} {P : List E → S → Prop} (h0 : P [] s)
    (hstep : ∀ es e, P es (run step s es) → G (run step s es) e → P (es ++ [e]) (step (run step s es) e)) {es : List E}
    (h : Guarded step G s es) : P es (run step s es) := by
  induction es using List.reverseRecOn with
  | nil => exact h0
  | append_singleton es e ih =>
    obtain ⟨hes, he, -⟩ := guarded_append.1 h
    rw [run_append]
    exact hstep es e (ih hes) he

theorem guarded_true (s : S) (es : List E) : Guarded step (fun _ _ => True) s es := by
  induction es generalizing s with
  | nil => trivial
  | cons e es ih => exact ⟨trivial, ih _⟩

/-- What holds of the events in every state holds along a run. -/
theorem guarded_of_forall {s : S} {es : List E} (h : ∀ s, ∀ e ∈ es, P s e) : Guarded step P s es := by
  induction es generalizing s with
  | nil => trivial
  | cons e es ih => exact ⟨h s e List.mem_cons_self, ih fun s e' he' => h s e' (List.mem_cons_of_mem e he')⟩

/-- What each step keeps exactly where it meets `G` holds at the end of exactly the guarded runs. -/
theorem run_iff_guarded (hstep : ∀ s e, I s → I (step s e)) {D : S → Prop} (hD : ∀ s e, I s → (D (step s e) ↔ D s ∧ G s e))
    {s : S} (es : List E) (h0 : I s) : D (run step s es) ↔ D s ∧ Guarded step G s es := by
  induction es generalizing s with
  | nil => exact (and_iff_left trivial).symm
  | cons e es ih => rw [run_cons, ih (hstep s e h0), hD s e h0, and_assoc, Guarded]

/-- What a step leads to exactly where it meets `G` holds in every state of exactly the guarded runs. -/
theorem guarded_iff_always {W : S → Prop} (hstep : ∀ s e, I s → W s → W (step s e) → I (step s e))
    (hW : ∀ s e, I s → W s → (W (step s e) ↔ G s e)) {s : S} (es : List E) (hI : I s) (hs : W s) :
    (∀ es', es' <+: es → W (run step s es')) ↔ Guarded step G s es := by
  induction es generalizing s with
  | nil => simp [Guarded, hs]
  | cons e es ih =>
    constructor
    · intro h
      have hnext : W (step s e) := h [e] ⟨es, rfl⟩
      exact ⟨(hW s e hI hs).1 hnext, (ih (hstep s e hI hs hnext) hnext).1 fun es' h' => h (e :: es') (List.cons_prefix_cons.2 ⟨rfl, h'⟩)⟩
    · rintro ⟨hG, hrest⟩ es' h'
      have hnext := (hW s e hI hs).2 hG
      cases es' with
      | nil => exact hs
      | cons e' es' =>
        obtain ⟨rfl, hpre⟩ := List.cons_prefix_cons.1 h'
        exact (ih (hstep s e' hI hs hnext) hnext).2 hrest es' hpre

/-- A loop of fallible steps that succeed on every turn of the run comes to the run's end. -/
theorem Guarded.foldlM {ε : Type} {f : S → E → Except ε S} (hstep : ∀ s e s', f s e = .ok s' → step s e = s') {s : S}
    {es : List E} (h : Guarded step (fun s e => ∃ s', f s e = .ok s') s es) : es.foldlM f s = .ok (run step s es) := by
  induction es generalizing s with
  | nil => rfl
  | cons e es ih =>
    obtain ⟨⟨s', hs'⟩, hrest⟩ := h
    rw [List.foldlM_cons, hs', run_cons]
    rw [hstep s e s' hs'] at hrest ⊢
    exact ih hrest

instance decidableGuarded (G : S → E → Prop) [∀ s e, Decidable (G s e)] : ∀ s es, Decidable (Guarded step G s es)
  | _, [] => inferInstanceAs (Decidable True)
  | s, e :: es =>
    have := decidableGuarded G (step s e) es
    inferInstanceAs (Decidable (G s e ∧ Guarded step G (step s e) es))

end HaexVault.Lib.Runs
