import Mathlib.Data.List.Basic
/-!
# Computations in steps

A fallible computation succeeds exactly when each of its steps does (`bind_eq_ok`); `ensure`
is the step that returns early.
-/

namespace HaexVault.Lib.Steps

variable {ε α β : Type}

theorem bind_eq_ok {x : Except ε α} {f : α → Except ε β} {b : β} :
    (x >>= f) = .ok b ↔ ∃ a, x = .ok a ∧ f a = .ok b := by
  cases x with
  | error e =>
    constructor
    · intro h; cases h
    · rintro ⟨_, h, _⟩; cases h
  | ok a =>
    constructor
    · intro h; exact ⟨a, rfl, h⟩
    · rintro ⟨_, h, h'⟩; cases h; exact h'

theorem map_eq_ok {x : Except ε α} {f : α → β} {b : β} : x.map f = .ok b ↔ ∃ a, x = .ok a ∧ f a = b := by
  cases x with
  | error e | ok a => simp [Except.map]

/-- A computation over a list succeeds when it does on every element. -/
theorem mapM_eq_ok {f : α → Except ε β} {l : List α} {bs : List β} : l.mapM f = .ok bs ↔ l.map f = bs.map .ok := by
  induction l generalizing bs with
  | nil =>
    rw [List.mapM_nil]
    constructor
    · intro h
      cases h
      rfl
    · intro h
      rw [List.map_eq_nil_iff.1 h.symm]
      rfl
  | cons a l ih =>
    rw [List.mapM_cons, bind_eq_ok, List.map_cons]
    constructor
    · rintro ⟨b, hb, hrest⟩
      obtain ⟨bs, hbs, h⟩ := bind_eq_ok.1 hrest
      cases h
      rw [hb, ih.1 hbs, List.map_cons]
    · intro h
      cases bs with
      | nil => cases h
      | cons b bs =>
        obtain ⟨hb, hbs⟩ := List.cons.inj h
        exact ⟨b, hb, bind_eq_ok.2 ⟨bs, ih.2 hbs, rfl⟩⟩

/-- Fail with `e` unless the condition holds. -/
def ensure (b : Bool) (e : ε) : Except ε Unit := if b then .ok () else .error e

@[simp] theorem ensure_ok {b : Bool} {e : ε} {u : Unit} : ensure b e = .ok u ↔ b = true := by
  cases b <;> simp [ensure]

/-- A loop of checks succeeds when every check does. -/
theorem forM_eq_ok {f : α → Except ε Unit} {l : List α} {u : Unit} : l.forM f = .ok u ↔ ∀ a ∈ l, f a = .ok () := by
  induction l with
  | nil => exact ⟨fun _ _ h => (List.not_mem_nil h).elim, fun _ => rfl⟩
  | cons a l ih =>
    show (f a >>= fun _ => l.forM f) = .ok u ↔ _
    rw [bind_eq_ok, List.forall_mem_cons, ← ih]
    constructor
    · rintro ⟨⟨⟩, ha, hl⟩
      exact ⟨ha, hl⟩
    · rintro ⟨ha, hl⟩
      exact ⟨(), ha, hl⟩

/-- What every step of a loop keeps. -/
theorem foldlM_inv {f : β → α → Except ε β} {I : β → Prop} {l : List α} {b b' : β}
    (hstep : ∀ a ∈ l, ∀ b b', I b → f b a = .ok b' → I b') (h : l.foldlM f b = .ok b') (h0 : I b) : I b' := by
  induction l generalizing b with
  | nil =>
    cases h
    exact h0
  | cons a l ih =>
    rw [List.foldlM_cons] at h
    obtain ⟨c, hc, h⟩ := bind_eq_ok.1 h
    exact ih (fun a ha => hstep a (List.mem_cons_of_mem _ ha)) h (hstep a List.mem_cons_self b c h0 hc)

theorem mapError_eq_ok {δ : Type} {x : Except ε α} {f : ε → δ} {a : α} : x.mapError f = .ok a ↔ x = .ok a := by
  cases x with
  | error e | ok b => simp [Except.mapError]

end HaexVault.Lib.Steps
