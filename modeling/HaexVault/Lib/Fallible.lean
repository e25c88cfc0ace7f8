import Mathlib.Data.Prod.Basic
/-!
# Computations that fail halfway

A computation on a state that may fail, and then keeps what it wrote until then, as a row of
statements does that are committed one by one. Three rules for sequences of steps (`Keeps`, `Ends`,
`Alike`), and runs in which a step fails for a reason of its own, as ones with a number of steps that
still succeed (`attempt`, `InSteps`).
-/

namespace HaexVault.Lib

/-- A computation that may fail with an `E` and that changes an `S`. -/
abbrev Fallible (E S α : Type) := ExceptT E (StateM S) α

namespace Fallible

variable {E S α β : Type} {m : Fallible E S α} {k : α → Fallible E S β}

/-- The result and the state that is left. -/
def exec (m : Fallible E S α) (s : S) : Except E α × S := m s

@[simp] theorem exec_pure (a : α) (s : S) : exec (pure a : Fallible E S α) s = (.ok a, s) := rfl

@[simp] theorem exec_throw (e : E) (s : S) : exec (throw e : Fallible E S α) s = (.error e, s) := rfl

@[simp] theorem exec_get (s : S) : exec (get : Fallible E S S) s = (.ok s, s) := rfl

@[simp] theorem exec_set (s' s : S) : exec (set s' : Fallible E S PUnit) s = (.ok ⟨⟩, s') := rfl

@[simp] theorem exec_modify (f : S → S) (s : S) : exec (modify f : Fallible E S PUnit) s = (.ok ⟨⟩, f s) := rfl

theorem exec_bind (m : Fallible E S α) (k : α → Fallible E S β) (s : S) :
    exec (m >>= k) s = match exec m s with
      | (.ok a, s') => exec (k a) s'
      | (.error e, s') => (.error e, s') := by
  change (ExceptT.bind m k) s = _
  simp only [ExceptT.bind, ExceptT.mk, exec]
  change ExceptT.bindCont k (m s).1 (m s).2 = _
  rcases m s with ⟨_ | _, s'⟩ <;> rfl

theorem exec_bind_ok {a : α} {s r : S} (h : exec m s = (.ok a, r)) : exec (m >>= k) s = exec (k a) r := by
  rw [exec_bind, h]

/-- The result of the last step passed through a function. -/
theorem exec_bind_pure (m : Fallible E S α) (f : α → β) (s : S) :
    exec (m >>= fun a => pure (f a)) s = ((exec m s).1.map f, (exec m s).2) := by
  rw [exec_bind]
  rcases exec m s with ⟨_ | a, s'⟩ <;> rfl

theorem exec_bind_pure_eq_ok {f : α → β} {s : S} {b : β} :
    (exec (m >>= fun a => pure (f a)) s).1 = .ok b ↔ ∃ a, (exec m s).1 = .ok a ∧ f a = b := by
  rw [exec_bind_pure]
  rcases exec m s with ⟨_ | a, s'⟩ <;> simp [Except.map]

@[simp] theorem exec_get_bind (f : S → Fallible E S β) (s : S) : exec (get >>= f) s = exec (f s) s :=
  exec_bind_ok (exec_get s)

theorem exec_tryCatch (m : Fallible E S α) (handle : E → Fallible E S α) (s : S) :
    exec (tryCatch m handle) s = match exec m s with
      | (.ok a, s') => (.ok a, s')
      | (.error e, s') => exec (handle e) s' := by
  change (ExceptT.tryCatch m handle) s = _
  simp only [ExceptT.tryCatch, ExceptT.mk, exec]
  change (StateT.bind m _) s = _
  simp only [StateT.bind]
  change (match m s with | (a, s') => _) = _
  rcases m s with ⟨_ | _, s'⟩ <;> rfl

theorem exec_tryFinally (m : Fallible E S α) (f : S → S) (s : S) :
    exec (tryFinally m (modify f : Fallible E S PUnit)) s = ((exec m s).1, f (exec m s).2) := by
  unfold exec
  simp only [tryFinally, tryFinally', Functor.map, ExceptT.map, ExceptT.mk, StateT.bind, bind]
  rcases m s with ⟨_ | _, s'⟩ <;> rfl

/-- A sequence that succeeded went through both parts. -/
theorem exec_bind_eq_ok {b : β} {s s'' : S} (h : exec (m >>= k) s = (.ok b, s'')) :
    ∃ a s', exec m s = (.ok a, s') ∧ exec (k a) s' = (.ok b, s'') := by
  rw [exec_bind] at h
  rcases hm : exec m s with ⟨_ | a, s'⟩
  · rw [hm] at h
    cases h
  · rw [hm] at h
    exact ⟨a, s', rfl, h⟩

/-! ## What every step does -/

/-- Failing or not, the computation changes the state only as `R` says. -/
def Keeps (R : S → S → Prop) (m : Fallible E S α) : Prop := ∀ s, R s (exec m s).2

variable {R : S → S → Prop}

theorem Keeps.pure [Std.Refl R] (a : α) : Keeps R (Pure.pure a : Fallible E S α) := fun s => refl_of R s

theorem Keeps.throw [Std.Refl R] (e : E) : Keeps R (MonadExcept.throw e : Fallible E S α) := fun s => refl_of R s

theorem Keeps.modify {f : S → S} (hf : ∀ s, R s (f s)) : Keeps R (modify f : Fallible E S PUnit) := hf

theorem Keeps.get_bind {k : S → Fallible E S β} (hk : ∀ s, Keeps R (k s)) : Keeps R (get >>= k) := fun s => hk s s

theorem Keeps.bind [IsTrans S R] (hm : Keeps R m) (hk : ∀ a, Keeps R (k a)) : Keeps R (m >>= k) := by
  intro s
  have hs := hm s
  rw [exec_bind]
  rcases hrun : exec m s with ⟨_ | a, s'⟩
  · rw [hrun] at hs
    exact hs
  · rw [hrun] at hs
    exact trans_of R hs (hk a s')

theorem Keeps.tryCatch [IsTrans S R] {handle : E → Fallible E S α} (hm : Keeps R m) (hh : ∀ e, Keeps R (handle e)) :
    Keeps R (tryCatch m handle) := by
  intro s
  have hs := hm s
  rw [exec_tryCatch]
  rcases hrun : exec m s with ⟨e | a, s'⟩
  · rw [hrun] at hs
    exact trans_of R hs (hh e s')
  · rw [hrun] at hs
    exact hs

theorem Keeps.forM [Std.Refl R] [IsTrans S R] {k : α → Fallible E S PUnit} (hk : ∀ a, Keeps R (k a)) (l : List α) :
    Keeps R (l.forM k) := by
  induction l with
  | nil => exact Keeps.pure PUnit.unit
  | cons a l ih => exact (hk a).bind fun _ => ih

/-- What is true before stays true. -/
def Stays (P : S → Prop) (s t : S) : Prop := P s → P t

instance {P : S → Prop} : Std.Refl (Stays P) := ⟨fun _ h => h⟩

instance {P : S → Prop} : IsTrans S (Stays P) := ⟨fun _ _ _ h h' hs => h' (h hs)⟩

/-! ## What holds after success -/

/-- From a state with `P`, success with `a` leaves a state with `Q a`. -/
def Ends (P : S → Prop) (m : Fallible E S α) (Q : α → S → Prop) : Prop :=
  ∀ s a s', P s → exec m s = (.ok a, s') → Q a s'

/-! ## Two states alike -/

/-- Related states give the same result and stay related. -/
def Alike (R : S → S → Prop) (m : Fallible E S α) : Prop :=
  ∀ s t, R s t → (exec m s).1 = (exec m t).1 ∧ R (exec m s).2 (exec m t).2

theorem Alike.pure (a : α) : Alike R (Pure.pure a : Fallible E S α) := fun _ _ h => ⟨rfl, h⟩

theorem Alike.throw (e : E) : Alike R (MonadExcept.throw e : Fallible E S α) := fun _ _ h => ⟨rfl, h⟩

theorem Alike.bind (hm : Alike R m) (hk : ∀ a, Alike R (k a)) : Alike R (m >>= k) := by
  intro s t h
  obtain ⟨hresult, hstate⟩ := hm s t h
  rw [exec_bind, exec_bind]
  rcases hs : exec m s with ⟨x, s'⟩
  rcases ht : exec m t with ⟨y, t'⟩
  rw [hs, ht] at hresult hstate
  obtain rfl : x = y := hresult
  cases x with
  | error e => exact ⟨rfl, hstate⟩
  | ok a => exact hk a s' t' hstate

/-- A test that related states answer alike. -/
theorem Alike.ite {c : S → Bool} {m' : Fallible E S α} (hc : ∀ s t, R s t → c s = c t) (hm : Alike R m) (hm' : Alike R m') :
    Alike R (get >>= fun s => if c s then m else m') := by
  intro s t h
  rw [exec_get_bind, exec_get_bind, hc s t h]
  split
  · exact hm s t h
  · exact hm' s t h

/-! ## Steps that may be made to fail -/

/-- A step: the state counts the steps that still succeed, and when there are none left it fails with `e` and changes nothing. -/
def attempt (e : E) (m : Fallible E S α) : Fallible E (S × Nat) α := fun s =>
  match s.2 with
  | 0 => (.error e, s)
  | n + 1 => ((exec m s.1).1, (exec m s.1).2, n)

/-- What does not count as a step. -/
def unfailing (m : Fallible E S α) : Fallible E (S × Nat) α := fun s => ((exec m s.1).1, (exec m s.1).2, s.2)

variable {e : E} {s : S} {n n' : Nat} {c : Fallible E (S × Nat) α} {f : α → Fallible E (S × Nat) β}

@[simp] theorem exec_attempt_zero : exec (attempt e m) (s, 0) = (.error e, s, 0) := rfl

@[simp] theorem exec_attempt_succ : exec (attempt e m) (s, n + 1) = ((exec m s).1, (exec m s).2, n) := rfl

@[simp] theorem exec_unfailing : exec (unfailing m) (s, n) = ((exec m s).1, (exec m s).2, n) := rfl

/-- The run of a sequence ends at its first step when no step is left. -/
theorem exec_attempt_bind_zero :
    exec (attempt e m >>= f) (s, 0) = (.error e, s, 0) :=
  exec_bind _ _ _

theorem exec_attempt_bind_succ {s' : S} {a : α} (h : exec m s = (.ok a, s')) :
    exec (attempt e m >>= f) (s, n + 1) = exec (f a) (s', n) := by
  rw [exec_bind, exec_attempt_succ, h]

/-- `c` is `m` in `n` steps: with fewer steps left it fails, and else it does what `m` does. -/
structure InSteps (n : Nat) (c : Fallible E (S × Nat) α) (m : Fallible E S α) : Prop where
  short : ∀ s k, k < n → ∃ e, (exec c (s, k)).1 = .error e
  enough : ∀ s k, ∃ j, exec c (s, n + k) = ((exec m s).1, (exec m s).2, j) ∧ ∀ a, (exec m s).1 = .ok a → j = k

theorem InSteps.attempt (e : E) (m : Fallible E S α) : InSteps 1 (attempt e m) m where
  short s k hk := by
    obtain rfl : k = 0 := by omega
    exact ⟨e, rfl⟩
  enough s k := by
    rw [Nat.add_comm]
    exact ⟨k, rfl, fun _ _ => rfl⟩

theorem InSteps.unfailing (m : Fallible E S α) : InSteps 0 (unfailing m) m where
  short s k hk := absurd hk (Nat.not_lt_zero k)
  enough s k := by
    rw [Nat.zero_add]
    exact ⟨k, rfl, fun _ _ => rfl⟩

theorem InSteps.pure (a : α) : InSteps 0 (Pure.pure a : Fallible E (S × Nat) α) (Pure.pure a) := InSteps.unfailing (Pure.pure a)

theorem InSteps.bind (hc : InSteps n c m) (hf : ∀ a, InSteps n' (f a) (k a)) : InSteps (n + n') (c >>= f) (m >>= k) where
  short s i hi := by
    rw [exec_bind]
    by_cases hn : i < n
    · obtain ⟨e, he⟩ := hc.short s i hn
      rcases hrun : exec c (s, i) with ⟨r, t⟩
      rw [hrun] at he
      obtain rfl : r = .error e := he
      exact ⟨e, rfl⟩
    · obtain ⟨i, rfl⟩ := Nat.exists_eq_add_of_le (Nat.le_of_not_lt hn)
      obtain ⟨j, hrun, hj⟩ := hc.enough s i
      rw [hrun]
      rcases hm : (exec m s).1 with e | a
      · exact ⟨e, rfl⟩
      · rw [hj a hm]
        exact (hf a).short _ i (by omega)
  enough s i := by
    obtain ⟨j, hrun, hj⟩ := hc.enough s (n' + i)
    rw [exec_bind, exec_bind, Nat.add_assoc, hrun]
    rcases hm : exec m s with ⟨e | a, s'⟩
    · exact ⟨j, rfl, fun a ha => by cases ha⟩
    · rw [hj a (by rw [hm])]
      exact (hf a).enough s' i

/-- What is true of the states, whatever is beside them: the number of steps left, or how the next ones end. -/
def OnState {T : Type} (R : S → S → Prop) (s t : S × T) : Prop := R s.1 t.1

instance {T : Type} [Std.Refl R] : Std.Refl (OnState (T := T) R) := ⟨fun s => refl_of R s.1⟩

instance {T : Type} [IsTrans S R] : IsTrans (S × T) (OnState R) := ⟨fun _ _ _ h h' => trans_of R h h'⟩

theorem Keeps.attempt [Std.Refl R] (e : E) (hm : Keeps R m) : Keeps (OnState R) (attempt e m) := by
  rintro ⟨s, _ | n⟩
  · exact refl_of R s
  · exact hm s

end Fallible

end HaexVault.Lib
