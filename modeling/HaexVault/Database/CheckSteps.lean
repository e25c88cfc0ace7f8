import HaexVault.Database.LockSteps
/-!
# The steps of the checks

The steps before a vault is mounted come in one order for each command, so what a step finds follows from what is
left to do. Each of them keeps the invariant (`Inv.step_checking`).
-/

namespace HaexVault.Database

open Lib Lib.FileTree Lib.Runs

variable {σ : Sys} {w w' : World} {c c' d : Call} {i j p : Nat} {lock lock' : VaultLock} {s : Step} {rest : List Step}

/-! ## What the steps find and leave -/

theorem checks_order (command : Command) : ∀ t ∈ command.checks.tails,
    (t.head? ≠ some .storeLock → t ≠ [] → .tryLock ∈ t ∧ t.tail ≠ []) ∧
    (t.head? = some .storeLock → t.tail = []) := by
  cases command <;> decide

theorem canonicalize_order (command : Command) : ∀ t ∈ command.checks.tails,
    t.head? = some .canonicalize ∨ t.head? = some .canonicalizeParent → .openLockFile ∈ t.tail ∧ .tryLock ∈ t.tail := by
  cases command <;> decide

theorem lockFile_order (command : Command) : ∀ t ∈ command.checks.tails,
    (t.head? = some .openLockFile ∨ t.head? = some .tryLock → .openLockFile ∉ t.tail) ∧
    (t.head? = some .tryLock → .tryLock ∉ t.tail) := by
  cases command <;> decide

theorem inner_order (command : Command) (hcommand : command ≠ .close) : ∀ t ∈ command.inner.tails,
    (t.head? = some .removeFile → .openDb ∈ t) ∧ (t.head? = some .storeSink → .openSink ∉ t) := by
  cases command with
  | close => exact absurd rfl hcommand
  | create | opens => decide

theorem openDb_order (command : Command) (hcommand : command ≠ .close) : ∀ t ∈ command.inner.tails,
    t.head? = some .openDb → .openDb ∉ t.tail ∧ (∀ s ∈ [.storeDb, .migrate, .openSink, .storeSink, .ensureIdentity], s ∈ t.tail) ∧
      ∀ s ∈ [.initHlc, .ensureTriggers], s ∈ t.tail ∨ Step.initSession ∈ t.tail := by
  cases command with
  | close => exact absurd rfl hcommand
  | create | opens => decide

theorem Checking.split (h : Checking w c) (htodo : c.todo = s :: rest) :
    ∃ t, s :: t <:+ c.command.checks ∧ rest = t ++ c.command.inner ∧ s ∈ c.command.checks ∧ c.command ≠ .close := by
  obtain ⟨t, hne, hsuffix, ht⟩ := h.todo
  obtain ⟨s', t, rfl⟩ := List.exists_cons_of_ne_nil hne
  rw [htodo, List.cons_append, List.cons.injEq] at ht
  obtain ⟨rfl, rfl⟩ := ht
  refine ⟨t, hsuffix, rfl, hsuffix.subset List.mem_cons_self, fun hclose => ?_⟩
  rw [hclose] at hsuffix
  exact List.cons_ne_nil _ _ (List.suffix_nil.1 hsuffix)

theorem Checking.next (h : Checking w c) (htodo : c.todo = s :: rest) (hs : s ≠ .storeLock) :
    c.lock = none ∧ ∃ t, t ≠ [] ∧ t <:+ c.command.checks ∧ rest = t ++ c.command.inner := by
  obtain ⟨t, hsuffix, hrest, -, -⟩ := h.split htodo
  obtain ⟨horder, -⟩ := checks_order c.command _ ((List.mem_tails _ _).2 hsuffix)
  obtain ⟨htry, hne⟩ := horder (by simpa using hs) (by simp)
  refine ⟨h.lock ?_, t, hne, (List.suffix_cons s t).trans hsuffix, hrest⟩
  rw [htodo, hrest, ← List.cons_append]
  exact List.mem_append_left _ htry

theorem Checking.pop (h : Checking w c) (htodo : c.todo = s :: rest) (hs : s ≠ .storeLock) :
    Checking w { c with todo := rest } :=
  ⟨(h.next htodo hs).2, h.conn, fun hmem => h.lockFile (htodo ▸ List.mem_cons_of_mem _ hmem),
    fun hmem => h.lock (htodo ▸ List.mem_cons_of_mem _ hmem), h.file, h.vault⟩

theorem Inv.checked (h : Inv σ) (hi : σ.calls[i]? = some c) (hphase : c.phase = .checking) {disk : Disk}
    (hkept : ∀ loc, σ.shared.disk.Kept disk loc) (hproc : c'.proc = c.proc) (hcommand : c'.command = c.command)
    (hpath : c'.path = c.path) (hphase' : c'.phase = .checking) (hlock : c'.lock = c.lock)
    (hcheck : Checking { σ.shared with disk } { c' with todo := rest }) :
    Inv (σ.after i { σ.shared with disk } (c'.goOn rest)) := by
  have hrest : rest ≠ [] := by
    obtain ⟨t, hne, -, ht⟩ := hcheck.todo
    rw [show rest = t ++ _ from ht]
    simp [hne]
  rw [goOn_of_ne hrest]
  refine h.check hi hphase hkept hproc hlock (by simp [Call.writing, hphase']) (.of_checking ?_ hphase' hcheck)
  intro hc
  exact hpath ▸ (h.calls i c hi).path (hcommand ▸ hc)

theorem Inv.passed (h : Inv σ) (hi : σ.calls[i]? = some c) (hphase : c.phase = .checking) (htodo : c.todo = s :: rest)
    (hs : s ≠ .storeLock) {disk : Disk} (hkept : ∀ loc, σ.shared.disk.Kept disk loc) :
    Inv (σ.after i { σ.shared with disk } (c.goOn rest)) :=
  h.checked hi hphase hkept rfl rfl rfl hphase rfl
    (((h.calls i c hi).checking hphase).pop htodo hs |>.beside fun _ => hkept _)

theorem after_after {w'' : World} {c'' : Call} : (σ.after i w' c').after i w'' c'' = σ.after i w'' c'' := by
  simp [Sys.after, List.set_set]

theorem Inv.refused (h : Inv σ) (hi : σ.calls[i]? = some c) (hphase : c.phase = .checking) (htodo : c.todo = s :: rest)
    (hs : s ≠ .storeLock) {disk : Disk} (hkept : ∀ loc, σ.shared.disk.Kept disk loc) :
    Inv (σ.after i { σ.shared with disk } c.fail) := by
  have hcall := h.calls i c hi
  have hgrown : Inv (σ.after i { σ.shared with disk } c) := h.check hi hphase hkept rfl rfl (by simp [Call.writing, hphase])
    (.of_checking hcall.path hphase ((hcall.checking hphase).beside fun _ => hkept _))
  have hfail := hgrown.fail (after_self hi) ((hcall.checking hphase).next htodo hs).1 (by simp [hphase])
  rwa [after_after] at hfail

theorem Checking.revault (h : Checking w c) (htodo : c.todo = s :: rest) (hs : s = .canonicalize ∨ s = .canonicalizeParent)
    (vault : Option Loc) : Checking w { c with vault := vault, todo := rest } := by
  have hne : s ≠ .storeLock := by
    rintro rfl
    simp at hs
  have hpop := h.pop htodo hne
  obtain ⟨t, hsuffix, hrest, -, -⟩ := h.split htodo
  obtain ⟨hopen, htry⟩ := canonicalize_order c.command _ ((List.mem_tails _ _).2 hsuffix) (by simpa using hs)
  have hfile : c.lockFile = none := hpop.lockFile (show _ ∈ rest from hrest ▸ List.mem_append_left _ hopen)
  have hlock : c.lock = none := hpop.lock (show _ ∈ rest from hrest ▸ List.mem_append_left _ htry)
  refine ⟨hpop.todo, hpop.conn, hpop.lockFile, hpop.lock, fun f hf => ?_, fun lock hl => ?_⟩
  · rw [show c.lockFile = some f from hf] at hfile
    cases hfile
  · rw [show c.lock = some lock from hl] at hlock
    cases hlock

theorem inner_no_checks (command : Command) : Step.openLockFile ∉ command.inner ∧ Step.tryLock ∉ command.inner := by
  cases command <;> decide

theorem Checking.opened (h : Checking w c) (htodo : c.todo = .openLockFile :: rest) {disk : Disk} {vault : Loc}
    (hkept : ∀ loc, w.disk.Kept disk loc) (hvault : c.vault = some vault) :
    Checking { w with disk } { c with lockFile := disk.file (lockPathFor vault), todo := rest } := by
  have hpop : Checking { w with disk } { c with todo := rest } := (h.pop htodo (by simp)).beside fun _ => hkept _
  obtain ⟨t, hsuffix, hrest, -, -⟩ := h.split htodo
  obtain ⟨hopen, -⟩ := lockFile_order c.command _ ((List.mem_tails _ _).2 hsuffix)
  refine ⟨hpop.todo, hpop.conn, fun hmem => ?_, hpop.lock, fun f hf => ⟨vault, hvault, hf⟩, hpop.vault⟩
  rw [show ({ c with lockFile := disk.file (lockPathFor vault), todo := rest } : Call).todo = rest from rfl, hrest,
    List.mem_append] at hmem
  rcases hmem with hmem | hmem
  · exact absurd hmem (hopen (.inl rfl))
  · exact absurd hmem (inner_no_checks _).1

theorem Checking.locked (h : Checking w c) (htodo : c.todo = .tryLock :: rest) {handle f : Nat} {vault : Loc}
    (hvault : c.vault = some vault) : Checking w { c with lock := some ⟨handle, f, vault⟩, todo := rest } := by
  have hpop := h.pop htodo (by simp)
  obtain ⟨t, hsuffix, hrest, -, -⟩ := h.split htodo
  obtain ⟨-, htry⟩ := lockFile_order c.command _ ((List.mem_tails _ _).2 hsuffix)
  refine ⟨hpop.todo, hpop.conn, hpop.lockFile, fun hmem => ?_, hpop.file, fun lock hl => ?_⟩
  · rw [show ({ c with lock := some ⟨handle, f, vault⟩, todo := rest } : Call).todo = rest from rfl, hrest,
      List.mem_append] at hmem
    rcases hmem with hmem | hmem
    · exact absurd hmem (htry rfl)
    · exact absurd hmem (inner_no_checks _).2
  · rw [hvault, ← Option.some.inj hl]

theorem inner_mem (command : Command) (hcommand : command ≠ .close) :
    (∀ s ∈ [.openDb, .storeDb, .migrate, .openSink, .storeSink, .ensureIdentity], s ∈ command.inner) ∧
      ∀ s ∈ [.initHlc, .ensureTriggers], s ∈ command.inner ∨ Step.initSession ∈ command.inner := by
  cases command with
  | close => exact absurd rfl hcommand
  | create | opens => decide

theorem Checking.mounts (h : Checking w c) (htodo : c.todo = .storeLock :: rest) (hlock : c.lock = some lock)
    (hlocks : (w'.apps c.proc).vaultLock = some lock) (hdb : (w'.apps c.proc).db = none) :
    rest ≠ [] ∧ Mounting w' { c with lock := none, phase := .mounting, todo := rest } lock := by
  obtain ⟨t, hsuffix, hrest, -, hcommand⟩ := h.split htodo
  have ht : t = [] := (checks_order c.command _ ((List.mem_tails _ _).2 hsuffix)).2 rfl
  rw [ht, List.nil_append] at hrest
  subst hrest
  obtain ⟨hmem, hmem'⟩ := inner_mem c.command hcommand
  refine ⟨List.ne_nil_of_mem (hmem .openDb (by simp)), ?_⟩
  exact
    { command := hcommand
      todo := List.suffix_refl _
      locks := hlocks
      vault := h.vault lock hlock
      db := .inl hdb
      notYet := fun _ => h.conn
      conn := fun hn => absurd (hmem .openDb (by simp)) hn
      names := fun k hk => nomatch h.conn.symm.trans hk
      stored := fun hn => absurd (hmem .storeDb (by simp)) hn
      hlc := fun hn hn' => absurd (hmem' .initHlc (by simp)) (not_or_intro hn hn')
      triggers := fun hn hn' => absurd (hmem' .ensureTriggers (by simp)) (not_or_intro hn hn')
      schema := fun hn => absurd (hmem .migrate (by simp)) hn
      opened := fun hn => absurd (hmem .openSink (by simp)) hn
      sink := fun hn => absurd (hmem .storeSink (by simp)) hn
      identity := fun hn => absurd (hmem .ensureIdentity (by simp)) hn }

/-! ## A step -/

def Sys.settled (σ : Sys) (i : Nat) (rest : List Step) (r : World × Call × Verdict) : Sys :=
  σ.after i (settle rest r).1 (settle rest r).2

theorem Inv.step_checking (h : Inv σ) (hi : σ.calls[i]? = some c) (hphase : c.phase = .checking) (htodo : c.todo = s :: rest)
    (a : Answer) (horderly : c.orderly σ a) : Inv (σ.settled i rest (s.run σ.shared c a)) := by
  have hcall := h.calls i c hi
  have hcheck := hcall.checking hphase
  obtain ⟨t, hsuffix, hrest, hmem, hcommand⟩ := hcheck.split htodo
  have hs : s ∈ Command.create.checks ∨ s ∈ Command.opens.checks := by
    cases hc : c.command with
    | create => exact .inl (hc ▸ hmem)
    | opens => exact .inr (hc ▸ hmem)
    | close => exact absurd hc hcommand
  have htails := (List.mem_tails _ _).2 hsuffix
  have hsame : ∀ loc, σ.shared.disk.Kept σ.shared.disk loc := fun loc => .refl _ loc
  have hon : s ≠ .storeLock → Inv (σ.settled i rest (σ.shared, c, .on)) :=
    fun hs => h.passed hi hphase htodo hs hsame
  have herr : s ≠ .storeLock → Inv (σ.settled i rest (σ.shared, c, .err)) :=
    fun hs => h.refused hi hphase htodo hs hsame
  cases s with
  | makeDirectory =>
    simp only [Step.run]
    split
    · exact herr (by simp)
    · split
      · exact h.passed hi hphase htodo (by simp) fun loc => Disk.makeParent_kept _ _ loc
      · exact h.refused hi hphase htodo (by simp) fun loc => Disk.makeParent_kept _ _ loc
  | checkAbsent | checkPresent =>
    simp only [Step.run]
    split
    all_goals first | exact hon (by simp) | exact herr (by simp)
  | readDb =>
    simp only [Step.run]
    split
    · exact herr (by simp)
    · exact hon (by simp)
  | readLock =>
    simp only [Step.run]
    split
    · exact herr (by simp)
    · have hpop := hcheck.pop htodo (by simp)
      exact h.checked hi hphase hsame rfl rfl rfl hphase rfl
        ⟨hpop.todo, hpop.conn, hpop.lockFile, hpop.lock, hpop.file, hpop.vault⟩
  | checkMounted =>
    simp only [Step.run]
    split
    · exact herr (by simp)
    · split
      · exact hon (by simp)
      · split
        · exact h.check hi hphase hsame rfl rfl rfl (.of_returned hcall.path (hcheck.next htodo (by simp)).1 rfl)
        · exact herr (by simp)
  | canonicalize => exact h.checked hi hphase hsame rfl rfl rfl hphase rfl (hcheck.revault htodo (.inl rfl) _)
  | canonicalizeParent =>
    simp only [Step.run]
    split
    · exact hon (by simp)
    · split
      · exact herr (by simp)
      · cases normalizeParent σ.shared.disk.tree c.path with
        | none => exact herr (by simp)
        | some loc => exact h.checked hi hphase hsame rfl rfl rfl hphase rfl (hcheck.revault htodo (.inr rfl) _)
  | makeLockDirectory =>
    simp only [Step.run]
    cases c.vault with
    | none => exact herr (by simp)
    | some vault =>
      simp only [Step.orErr]
      split
      · exact herr (by simp)
      · split
        · exact h.passed hi hphase htodo (by simp) fun loc => Disk.makeParent_kept _ _ loc
        · exact h.refused hi hphase htodo (by simp) fun loc => Disk.makeParent_kept _ _ loc
  | openLockFile =>
    simp only [Step.run]
    cases hvault : c.vault with
    | none => exact herr (by simp)
    | some vault =>
      simp only [Step.orErr]
      split
      · exact herr (by simp)
      · cases hcreate : σ.shared.disk.create ((lockPathFor vault).map .name) with
        | error e => exact herr (by simp)
        | ok r =>
          obtain ⟨disk, loc⟩ := r
          have hkept : ∀ loc', σ.shared.disk.Kept disk loc' := Disk.create_kept hcreate
          have hloc : loc = lockPathFor vault := by
            simp only [Call.orderly, htodo, List.head?_cons] at horderly
            exact horderly vault loc hvault (Disk.create_ok hcreate)
          subst hloc
          have hopened := hcheck.opened htodo hkept hvault
          rw [hvault] at hopened
          exact h.checked hi hphase hkept rfl rfl rfl hphase rfl hopened
  | tryLock =>
    simp only [Step.run]
    split
    · next vault f hvault hfile =>
      split
      · exact herr (by simp)
      · next hfree =>
        rw [not_or, ne_eq, not_not] at hfree
        obtain ⟨vault', hvault', hlockFile⟩ := hcheck.file f hfile
        obtain rfl : vault = vault' := Option.some.inj (hvault.symm.trans hvault')
        have hlocked : Checking σ.shared { c with lock := some ⟨σ.shared.handles, f, vault⟩, todo := rest } :=
          hcheck.locked htodo hvault
        have hne : rest ≠ [] := by
          obtain ⟨t, hne, -, ht⟩ := hlocked.todo
          rw [show rest = t ++ _ from ht]
          simp [hne]
        simp only [Sys.settled, settle, goOn_of_ne hne]
        exact h.tryLock hi hphase hfree.2 hlockFile rfl rfl hphase hcall.path hlocked
    · exact herr (by simp)
  | storeLock =>
    simp only [Step.run]
    cases hlock : c.lock with
    | none => exact h.fail hi hlock (by simp [hphase])
    | some lock =>
      simp only [Step.orErr]
      split
      · have hdropped := (h.dropLock hi hphase hlock).fail (after_self hi) rfl (by simp [hphase])
        rwa [after_after] at hdropped
      · simp only [Call.orderly, htodo, List.head?_cons] at horderly
        obtain ⟨hidle, hnone⟩ := horderly
        have hdb : (σ.shared.apps c.proc).db = none := by
          rw [Option.eq_none_iff_forall_ne_some]
          intro k hk
          obtain ⟨lock', hlock', -⟩ := h.db _ k hk
          rw [hnone] at hlock'
          cases hlock'
        have hstored : ((σ.shared.setApp c.proc fun app => { app with vaultLock := some lock }).apps c.proc).vaultLock =
            some lock := by rw [setApp_self]
        obtain ⟨hne, hmount⟩ := hcheck.mounts htodo hlock hstored (by simp [hdb])
        simp only [hnone, Sys.settled, settle, goOn_of_ne hne]
        exact h.storeLock hi hphase hlock hidle hnone hmount
  | _ => exact absurd hs (by decide)

end HaexVault.Database
