import HaexVault.Lib.Fallible
/-!
# A connection with transactions

A connection to a database of states `S`: the state it sees, the one an open transaction goes back
to, whether foreign keys are enforced, and the statements it has run. A statement that fails changes
nothing, and a fault of the run may end the transaction besides (`Fault.ends`): what comes after it
runs with no transaction open. Inside a transaction the switch of `withForeignKeysOff` has no effect.
-/

namespace HaexVault.Lib

/-- A failure from outside. The database can roll the transaction back on it. -/
structure Fault (E : Type) where
  error : E
  ends : Bool := false

structure Connection (S : Type) where
  state : S
  /-- The state before the open transaction, if one is open. -/
  saved : Option S := none
  foreignKeys : Bool := true
  /-- For every statement that has run, the last one first, that it could be taken back. -/
  ran : List Bool := []

namespace Connection

open Fallible

variable {E S α β : Type}

/-- How many statements have run with no transaction open. -/
def loose (c : Connection S) : Nat := c.ran.count false

def rollback (c : Connection S) : Connection S :=
  match c.saved with
  | none => c
  | some s => { c with state := s, saved := none }

/-- What a statement does to the connection, unless it is the turn of a fault. -/
def run (faults : Nat → Option (Fault E)) (tied : Connection S → Bool) (f : Connection S → Except E (α × Connection S)) :
    Fallible E (Connection S) α := do
  let c ← get
  match faults c.ran.length with
  | some fault =>
    set (if fault.ends then rollback { c with ran := tied c :: c.ran } else { c with ran := tied c :: c.ran })
    throw fault.error
  | none => match f { c with ran := tied c :: c.ran } with
    | .error e =>
      set { c with ran := tied c :: c.ran }
      throw e
    | .ok (a, c') =>
      set c'
      pure a

section
variable (faults : Nat → Option (Fault E))

/-- A statement on the state. -/
def statement (f : S → Except E (α × S)) : Fallible E (Connection S) α :=
  run faults (·.saved.isSome) fun c => (f c.state).map fun r => (r.1, { c with state := r.2 })

/-- A statement that only reads. -/
def query (f : S → Except E α) : Fallible E (Connection S) α := statement faults fun s => (f s).map fun a => (a, s)

/-- A statement that only writes. -/
def execute (f : S → Except E S) : Fallible E (Connection S) Unit := statement faults fun s => (f s).map fun s' => ((), s')

/-- `BEGIN`; `nested` is the error inside a transaction. It has nothing to take back. -/
def begin (nested : E) : Fallible E (Connection S) Unit :=
  run (fun n => (faults n).map fun fault => { fault with ends := false }) (fun _ => true) fun c =>
    if c.saved.isSome then .error nested else .ok ((), { c with saved := some c.state })

/-- `COMMIT`; `idle` is the error outside a transaction. -/
def commit (idle : E) : Fallible E (Connection S) Unit :=
  run faults (fun _ => true) fun c => if c.saved.isSome then .ok ((), { c with saved := none }) else .error idle

/-- A transaction that is dropped before its commit has succeeded is rolled back. -/
def transaction (nested idle : E) (body : Fallible E (Connection S) α) : Fallible E (Connection S) α := do
  begin faults nested
  tryCatch (do
    let a ← body
    commit faults idle
    pure a) fun e => do
      modify rollback
      throw e

end

/-- `PRAGMA foreign_keys`: a flag of the connection, out of reach while a transaction is open. -/
def setForeignKeys (on : Bool) (c : Connection S) : Connection S :=
  if c.saved.isSome then c else { c with foreignKeys := on }

/-- Enforcement off around `body`, and on again however it ends. -/
def withForeignKeysOff (body : Fallible E (Connection S) α) : Fallible E (Connection S) α := do
  modify (setForeignKeys false)
  tryFinally body (modify (setForeignKeys true))

/-! ## What statements leave alone -/

/-- Statements neither begin a transaction nor commit one. As long as none has run outside of it, the transaction is
still the same, or a failure has taken it back and nothing has run since. -/
structure Inside (c c' : Connection S) : Prop where
  foreignKeys : c'.foreignKeys = c.foreignKeys
  loose : c.loose ≤ c'.loose
  closed : c.saved = none → c'.saved = none
  kept : c'.loose = c.loose →
    c'.saved = c.saved ∧ (c.saved = none → c'.state = c.state) ∨ c'.saved = none ∧ c.saved = some c'.state

instance : Std.Refl (Inside (S := S)) := ⟨fun _ => ⟨rfl, Nat.le_refl _, id, fun _ => .inl ⟨rfl, fun _ => rfl⟩⟩⟩

theorem Inside.trans {c₁ c₂ c₃ : Connection S} (h : Inside c₁ c₂) (h' : Inside c₂ c₃) : Inside c₁ c₃ := by
  refine ⟨h'.foreignKeys.trans h.foreignKeys, Nat.le_trans h.loose h'.loose, fun hc => h'.closed (h.closed hc), fun hloose => ?_⟩
  have hfirst : c₂.loose = c₁.loose := Nat.le_antisymm (hloose ▸ h'.loose) h.loose
  rcases h.kept hfirst with ⟨hsaved, hstate⟩ | ⟨hended, hback⟩
  · rcases h'.kept (hloose.trans hfirst.symm) with ⟨hsaved', hstate'⟩ | ⟨hended', hback'⟩
    · exact .inl ⟨hsaved'.trans hsaved, fun hc => (hstate' (hsaved.trans hc)).trans (hstate hc)⟩
    · exact .inr ⟨hended', hsaved.symm.trans hback'⟩
  · rcases h'.kept (hloose.trans hfirst.symm) with ⟨hsaved', hstate'⟩ | ⟨-, hback'⟩
    · exact .inr ⟨hsaved'.trans hended, by rw [hstate' hended, hback]⟩
    · rw [hended] at hback'
      cases hback'

instance : IsTrans (Connection S) Inside := ⟨fun _ _ _ => Inside.trans⟩

variable {faults : Nat → Option (Fault E)} {nested idle : E} {body : Fallible E (Connection S) α} {c c' : Connection S}

theorem exec_run (tied : Connection S → Bool) (f : Connection S → Except E (α × Connection S)) (c : Connection S) :
    exec (run faults tied f) c = match faults c.ran.length with
      | some fault => (.error fault.error,
          if fault.ends then rollback { c with ran := tied c :: c.ran } else { c with ran := tied c :: c.ran })
      | none => match f { c with ran := tied c :: c.ran } with
        | .error e => (.error e, { c with ran := tied c :: c.ran })
        | .ok (a, c') => (.ok a, c') := by
  unfold run
  rw [exec_get_bind]
  rcases faults c.ran.length with _ | fault
  · dsimp only
    rcases f { c with ran := tied c :: c.ran } with e | ⟨a, c'⟩ <;> rfl
  · rfl

theorem loose_tied (c : Connection S) : { c with ran := c.saved.isSome :: c.ran }.loose = c.loose + if c.saved.isSome then 0 else 1 := by
  unfold loose
  rcases c.saved with _ | s
  · simp
  · simp

theorem rollback_eq {s : S} (h : c.saved = some s) : rollback c = { c with state := s, saved := none } := by
  unfold rollback
  rw [h]

theorem rollback_idle (h : c.saved = none) : rollback c = c := by
  unfold rollback
  rw [h]

theorem ran_inside (c : Connection S) : Inside c { c with ran := c.saved.isSome :: c.ran } :=
  ⟨rfl, by rw [loose_tied]; exact Nat.le_add_right _ _, id, fun _ => .inl ⟨rfl, fun _ => rfl⟩⟩

theorem rollback_inside (c : Connection S) : Inside c (rollback c) := by
  rcases hsaved : c.saved with _ | s
  · rw [rollback_idle hsaved]
    exact refl_of Inside c
  · rw [rollback_eq hsaved]
    exact ⟨rfl, Nat.le_refl _, fun h => rfl, fun _ => .inr ⟨rfl, hsaved⟩⟩

theorem statement_inside (f : S → Except E (α × S)) : Keeps Inside (statement faults f) := by
  intro c
  have hran := ran_inside c
  rw [statement, exec_run]
  rcases faults c.ran.length with _ | fault
  · dsimp only
    rcases f c.state with e | ⟨a, s⟩
    · exact hran
    · -- outside of a transaction the statement counts as loose
      refine ⟨rfl, hran.loose, id, fun hloose => .inl ⟨rfl, fun hidle => ?_⟩⟩
      have htied := loose_tied c
      rw [hidle] at htied
      change { c with ran := c.saved.isSome :: c.ran }.loose = c.loose at hloose
      rw [hidle] at hloose
      exact absurd (hloose.symm.trans htied) (by simp)
  · dsimp only
    split
    · exact hran.trans (rollback_inside _)
    · exact hran

theorem query_inside (f : S → Except E α) : Keeps Inside (query faults f) := statement_inside _

theorem execute_inside (f : S → Except E S) : Keeps Inside (execute faults f) := statement_inside _

/-! ## Transactions -/

theorem exec_begin (c : Connection S) :
    (∃ e, exec (begin faults nested) c = (.error e, { c with ran := true :: c.ran })) ∨
    c.saved = none ∧ exec (begin faults nested) c = (.ok (), { c with saved := some c.state, ran := true :: c.ran }) := by
  rw [begin, exec_run]
  rcases faults c.ran.length with _ | fault
  · rcases hsaved : c.saved with _ | s
    · exact .inr ⟨rfl, rfl⟩
    · exact .inl ⟨nested, by simp⟩
  · exact .inl ⟨fault.error, rfl⟩

theorem exec_commit (c : Connection S) :
    c.saved.isSome = true ∧ exec (commit faults idle) c = (.ok (), { c with saved := none, ran := true :: c.ran }) ∨
    ∃ e, exec (commit faults idle) c = (.error e, { c with ran := true :: c.ran }) ∨
      exec (commit faults idle) c = (.error e, rollback { c with ran := true :: c.ran }) := by
  rw [commit, exec_run]
  rcases faults c.ran.length with _ | fault
  · by_cases hopen : c.saved.isSome
    · exact .inl ⟨hopen, by simp [hopen]⟩
    · exact .inr ⟨idle, .inl (by simp [hopen])⟩
  · refine .inr ⟨fault.error, ?_⟩
    by_cases hends : fault.ends
    · exact .inr (by simp [hends])
    · exact .inl (by simp [hends])

theorem loose_true (c : Connection S) : { c with ran := true :: c.ran }.loose = c.loose := by simp [loose]

theorem rollback_saved (c : Connection S) : (rollback c).saved = none := by
  rcases hsaved : c.saved with _ | s
  · rw [rollback_idle hsaved, hsaved]
  · rw [rollback_eq hsaved]

theorem rollback_loose (c : Connection S) : (rollback c).loose = c.loose := by
  rcases hsaved : c.saved with _ | s
  · rw [rollback_idle hsaved]
  · rw [rollback_eq hsaved]
    rfl

theorem rollback_ran (c : Connection S) (l : List Bool) : rollback { c with ran := l } = { rollback c with ran := l } := by
  obtain ⟨state, _ | s, foreignKeys, ran⟩ := c
  · rfl
  · rfl

variable (faults nested idle body) in
/-- The ways through a transaction: it does not begin; or its body fails and is rolled back; or the commit does, after the
body; or both succeed. -/
theorem exec_transaction (c : Connection S) :
    (∃ e, exec (transaction faults nested idle body) c = (.error e, { c with ran := true :: c.ran })) ∨
    c.saved = none ∧ ∃ r c₁, exec body { c with saved := some c.state, ran := true :: c.ran } = (r, c₁) ∧
      ((∃ e, r = .error e ∧ exec (transaction faults nested idle body) c = (.error e, rollback c₁)) ∨
      ∃ a, r = .ok a ∧
        ((∃ e, exec (transaction faults nested idle body) c = (.error e, rollback { c₁ with ran := true :: c₁.ran })) ∨
        c₁.saved.isSome = true ∧
          exec (transaction faults nested idle body) c = (.ok a, { c₁ with saved := none, ran := true :: c₁.ran }))) := by
  unfold transaction
  rcases @exec_begin E S faults nested c with ⟨e, he⟩ | ⟨hsaved, he⟩
  · exact .inl ⟨e, by rw [exec_bind, he]⟩
  · rcases hrun : exec body { c with saved := some c.state, ran := true :: c.ran } with ⟨e | a, c₁⟩
    · refine .inr ⟨hsaved, .error e, c₁, rfl, .inl ⟨e, rfl, ?_⟩⟩
      rw [exec_bind_ok he, exec_tryCatch, exec_bind, hrun]
      rfl
    · refine .inr ⟨hsaved, .ok a, c₁, rfl, .inr ⟨a, rfl, ?_⟩⟩
      rw [exec_bind_ok he, exec_tryCatch, exec_bind, hrun]
      dsimp only
      rcases @exec_commit E S faults idle c₁ with ⟨hopen, hc⟩ | ⟨e, hc | hc⟩
      · exact .inr ⟨hopen, by rw [exec_bind_ok hc]; rfl⟩
      · exact .inl ⟨e, by rw [exec_bind, hc]; rfl⟩
      · refine .inl ⟨e, ?_⟩
        rw [exec_bind, hc]
        exact congrArg (Prod.mk _) (rollback_idle (rollback_saved _))

theorem rollback_kept (h : Inside { c with saved := some c.state, ran := true :: c.ran } c') (hloose : c'.loose = c.loose) :
    (rollback c').state = c.state := by
  rcases h.kept (hloose.trans (loose_true c).symm) with ⟨hsaved, -⟩ | ⟨hended, hback⟩
  · rw [rollback_eq hsaved]
  · rw [rollback_idle hended]
    exact (Option.some.inj hback).symm

/-- A transaction that fails changes nothing, whether it has begun or not, unless a statement of it has run after a failure
had ended it. -/
theorem transaction_error {e : E} (hbody : Keeps Inside body) (h : exec (transaction faults nested idle body) c = (.error e, c'))
    (hloose : c'.loose = c.loose) : c'.state = c.state := by
  rcases exec_transaction faults nested idle body c with ⟨e', he⟩ | ⟨-, r, c₁, hrun, hfails | ⟨a, -, hfails | ⟨-, hok⟩⟩⟩
  · rw [he] at h
    cases h
    rfl
  all_goals have hkept := hbody { c with saved := some c.state, ran := true :: c.ran }; rw [hrun] at hkept
  · obtain ⟨e', -, he⟩ := hfails
    rw [he] at h
    cases h
    exact rollback_kept hkept ((rollback_loose c₁).symm.trans hloose)
  · obtain ⟨e', he⟩ := hfails
    rw [he] at h
    cases h
    rw [rollback_ran] at hloose ⊢
    exact rollback_kept hkept ((loose_true c₁).symm.trans hloose)
  · rw [hok] at h
    cases h

/-- A transaction that succeeds leaves what its body does, from a connection without an open one. -/
theorem transaction_ok {a : α} (h : exec (transaction faults nested idle body) c = (.ok a, c')) :
    c.saved = none ∧ ∃ c₁, exec body { c with saved := some c.state, ran := true :: c.ran } = (.ok a, c₁) ∧
      c' = { c₁ with saved := none, ran := true :: c₁.ran } := by
  rcases exec_transaction faults nested idle body c with
    ⟨e', he⟩ | ⟨hsaved, r, c₁, hrun, ⟨e', -, he⟩ | ⟨a', hr, ⟨e', he⟩ | ⟨-, hok⟩⟩⟩
  · rw [he] at h
    cases h
  · rw [he] at h
    cases h
  · rw [he] at h
    cases h
  · rw [hok] at h
    cases h
    exact ⟨hsaved, c₁, by rw [hrun, hr], rfl⟩

/-- However it ends, a transaction leaves the connection as open or closed as it was. -/
theorem transaction_closes (hbody : Keeps Inside body) (c : Connection S) :
    (exec (transaction faults nested idle body) c).2.saved = c.saved ∧
      (exec (transaction faults nested idle body) c).2.foreignKeys = c.foreignKeys := by
  rcases exec_transaction faults nested idle body c with
    ⟨e, he⟩ | ⟨hsaved, r, c₁, hrun, hcases⟩
  · rw [he]
    exact ⟨rfl, rfl⟩
  · have hkept := (hbody { c with saved := some c.state, ran := true :: c.ran }).foreignKeys
    rw [hrun] at hkept
    have hback := (rollback_inside c₁).foreignKeys.trans hkept
    rcases hcases with ⟨e, -, he⟩ | ⟨a, -, ⟨e, he⟩ | ⟨-, hok⟩⟩
    · rw [he]
      exact ⟨(rollback_saved c₁).trans hsaved.symm, hback⟩
    · rw [he, rollback_ran]
      exact ⟨(rollback_saved c₁).trans hsaved.symm, hback⟩
    · rw [hok]
      exact ⟨hsaved.symm, hkept⟩

/-! ## Foreign keys -/

/-- Enforcement off and on again changes the flag at most. -/
theorem exec_withForeignKeysOff (c : Connection S) :
    exec (withForeignKeysOff body) c =
      ((exec body (setForeignKeys false c)).1, setForeignKeys true (exec body (setForeignKeys false c)).2) := by
  unfold withForeignKeysOff
  rw [exec_bind_ok (exec_modify _ _), exec_tryFinally]

theorem setForeignKeys_same (on : Bool) (c : Connection S) :
    (setForeignKeys on c).state = c.state ∧ (setForeignKeys on c).saved = c.saved ∧ (setForeignKeys on c).loose = c.loose := by
  unfold setForeignKeys
  split
  · exact ⟨rfl, rfl, rfl⟩
  · exact ⟨rfl, rfl, rfl⟩

/-- Enforcement is on afterwards, unless a transaction is open: then it is as it was. -/
theorem withForeignKeysOff_foreignKeys
    (hbody : ∀ c, (exec body c).2.saved = c.saved ∧ (exec body c).2.foreignKeys = c.foreignKeys) (c : Connection S) :
    (exec (withForeignKeysOff body) c).2.foreignKeys = (c.saved.isNone || c.foreignKeys) := by
  obtain ⟨hopen, hforeignKeys⟩ := hbody (setForeignKeys false c)
  rw [exec_withForeignKeysOff]
  dsimp only
  unfold setForeignKeys at hopen hforeignKeys ⊢
  rcases hsaved : c.saved with _ | s
  · simp only [hsaved, Option.isSome_none, Bool.false_eq_true, if_false] at hopen ⊢
    rw [hopen]
    rfl
  · simp only [hsaved, Option.isSome_some, if_true] at hopen hforeignKeys ⊢
    rw [hopen]
    simp [hforeignKeys]

/-! ## Runs without faults -/

def noFaults : Nat → Option E := fun _ => none

/-- Without faults the body does what `f` says: it ends in the state of `f`, or with its error. -/
def Does (body : Fallible E (Connection S) Unit) (f : S → Except E S) : Prop :=
  ∀ c, match f c.state with
    | .ok s => ∃ n, exec body c = (.ok (), { c with state := s, ran := n })
    | .error e => (exec body c).1 = .error e

theorem exec_query (f : S → Except E α) (c : Connection S) :
    exec (query noFaults f) c = (f c.state, { c with ran := c.saved.isSome :: c.ran }) := by
  rw [query, statement, exec_run]
  simp only [noFaults]
  rcases f c.state with e | a
  · rfl
  · rfl

theorem exec_execute (f : S → Except E S) (c : Connection S) :
    exec (execute noFaults f) c = ((f c.state).map fun _ => (),
      { c with state := match f c.state with | .ok s => s | .error _ => c.state, ran := c.saved.isSome :: c.ran }) := by
  rw [execute, statement, exec_run]
  simp only [noFaults]
  rcases f c.state with e | a
  · rfl
  · rfl

theorem Does.execute (f : S → Except E S) : Does (execute noFaults f) f := by
  intro c
  rw [exec_execute]
  rcases f c.state with e | s
  · rfl
  · exact ⟨_, rfl⟩

theorem Does.pure : Does (Pure.pure () : Fallible E (Connection S) Unit) Except.ok := fun c => ⟨c.ran, rfl⟩

theorem Does.bind {body body' : Fallible E (Connection S) Unit} {f g : S → Except E S}
    (h : Does body f) (h' : Does body' g) : Does (body >>= fun _ => body') fun s => f s >>= g := by
  intro c
  have hc := h c
  dsimp only
  rcases hf : f c.state with e | s
  · rw [hf] at hc
    rw [exec_bind]
    rcases hrun : exec body c with ⟨e' | a, c'⟩
    · rw [hrun] at hc
      exact hc
    · rw [hrun] at hc
      cases hc
  · rw [hf] at hc
    obtain ⟨n, hn⟩ := hc
    rw [exec_bind_ok hn]
    exact h' { c with state := s, ran := n }

theorem Does.query_bind {f : S → Except E α} {k : α → Fallible E (Connection S) Unit} {g : α → S → Except E S}
    (h : ∀ a, Does (k a) (g a)) : Does (query noFaults f >>= k) fun s => f s >>= fun a => g a s := by
  intro c
  dsimp only
  rcases hf : f c.state with e | a
  · rw [exec_bind, exec_query, hf]
    rfl
  · rw [exec_bind, exec_query, hf]
    exact h a { c with ran := c.saved.isSome :: c.ran }

theorem Does.forM {k : α → Fallible E (Connection S) Unit} {f : α → S → Except E S} (h : ∀ a, Does (k a) (f a))
    (l : List α) : Does (l.forM k) fun s => l.foldlM (fun s a => f a s) s := by
  induction l with
  | nil => exact Does.pure
  | cons a l ih => exact (h a).bind ih

/-- Of a single statement: the handler decides what its error comes to. -/
theorem Does.execute_catch {f : S → Except E S} {handle : E → Fallible E (Connection S) Unit} {handled : E → S → Except E S}
    (h : ∀ e, Does (handle e) (handled e)) : Does (tryCatch (Connection.execute noFaults f) handle) fun s =>
      (f s).tryCatch fun e => handled e s := by
  intro c
  dsimp only
  rw [exec_tryCatch, exec_execute]
  rcases f c.state with e | s
  · exact h e { c with ran := c.saved.isSome :: c.ran }
  · exact ⟨_, rfl⟩

theorem Does.throw (e : E) : Does (MonadExcept.throw e : Fallible E (Connection S) Unit) fun _ => .error e := fun _ => rfl

/-- Without faults an idle connection ends a transaction in the state of `f`. -/
theorem Does.transaction {f : S → Except E S} {body : Fallible E (Connection S) Unit} (h : Does body f) (nested idle : E)
    (hidle : c.saved = none) :
    match f c.state with
    | .ok s => ∃ n, exec (transaction noFaults nested idle body) c = (.ok (), { c with state := s, ran := n })
    | .error e => (exec (transaction noFaults nested idle body) c).1 = .error e := by
  have hbegin : exec (begin noFaults nested) c = (.ok (), { c with saved := some c.state, ran := true :: c.ran }) := by
    rw [begin, exec_run, hidle]
    rfl
  have hbody := h { c with saved := some c.state, ran := true :: c.ran }
  unfold Connection.transaction
  rw [exec_bind_ok hbegin, exec_tryCatch, exec_bind]
  rcases hf : f c.state with e | s
  · rw [hf] at hbody
    rcases hrun : exec body { c with saved := some c.state, ran := true :: c.ran } with ⟨r, c₁⟩
    rw [hrun] at hbody
    obtain rfl : r = .error e := hbody
    rfl
  · rw [hf] at hbody
    obtain ⟨n, hn⟩ := hbody
    refine ⟨true :: n, ?_⟩
    rw [hn, hidle]
    rfl

end Connection

end HaexVault.Lib
