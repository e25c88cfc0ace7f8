import HaexVault.Database.Steps
/-!
# One opener for a vault

The mounted check, the lock and the connection are steps of their own, so not every run keeps a vault
in one process (`two_openers`). Those do in which the calls of one process write its session one after
another and open the file that was locked (`vaults_have_one_opener`).
-/

namespace HaexVault.Database

open Lib Lib.FileTree Lib.Runs

/-! ## What is claimed -/

/-- No two processes have one database file open, and each holds the lock for the file it has open. -/
structure OneOpener (w : World) : Prop where
  single : ∀ p q k k', (w.apps p).db = some k → (w.apps q).db = some k' → k.file = k'.file → p = q
  guarded : ∀ p k, (w.apps p).db = some k →
    ∃ lock, (w.apps p).vaultLock = some lock ∧ Live w lock ∧ w.disk.file lock.vaultPath = some k.file

def LeavesMounted (w w' : World) (c : Call) : Prop :=
  c.command ≠ .close → ∀ p k, (w.apps p).db = some k → c.conn ≠ some k →
    (w'.apps p).db = some k ∧ (w'.apps p).vaultLock = (w.apps p).vaultLock

/-- An open call that returns `Ok` now has the session of the vault that it asked for. -/
def OkInitialised (w' : World) (c c' : Call) : Prop :=
  c.command = .opens → (∀ ok, c.phase ≠ .returned ok) → c'.phase = .returned true →
    ∃ loc k, w'.disk.tree.canonicalize c.path = .ok loc ∧ w'.disk.file loc = some k.file ∧ Initialised w' (w'.apps c.proc) k

def Safe (σ : Sys) (e : Event) : Prop :=
  OneOpener (machine.step σ e).shared ∧ ∀ i a, e = .resume i a → ∀ c c', σ.calls[i]? = some c →
    (machine.step σ e).calls[i]? = some c' → LeavesMounted σ.shared (machine.step σ e).shared c ∧
      OkInitialised (machine.step σ e).shared c c'

variable {σ : Sys} {w w' : World} {c c' d : Call} {i j p : Nat} {lock lock' : VaultLock} {s : Step} {rest : List Step}

theorem Inv.oneOpener (h : Inv σ) : OneOpener σ.shared where
  single := by
    intro p q k k' hk hk' hfile
    obtain ⟨lock, hlock, hname⟩ := h.db p k hk
    obtain ⟨lock', hlock', hname'⟩ := h.db q k' hk'
    have hvault : lock.vaultPath = lock'.vaultPath := hname'.2 lock.vaultPath (hfile ▸ hname.1)
    exact Holder.app.inj (h.same_vault (x := .app p) (y := .app q) hlock hlock' hvault)
  guarded := by
    intro p k hk
    obtain ⟨lock, hlock, hname⟩ := h.db p k hk
    exact ⟨lock, hlock, (h.live (.app p) lock hlock).1, hname.1⟩

/-! ## What is safe -/

theorem settle_world (r : World × Call × Verdict) : (settle rest r).1 = r.1 := by
  obtain ⟨w, c, v⟩ := r
  cases v <;> rfl

theorem run_other {q : Nat} (a : Answer) (hq : q ≠ c.proc) : (s.run w c a).1.apps q = w.apps q := by
  have hset : ∀ (w : World) (f : AppState → AppState), (w.setApp c.proc f).apps q = w.apps q := fun w f => setApp_other hq
  have hcontent : ∀ (w : World) f g, (w.setContent f g).apps q = w.apps q := fun _ _ _ => rfl
  have hacquire : ∀ (w : World) f, (w.acquire f).apps q = w.apps q := fun _ _ => rfl
  cases s <;> simp only [Step.run, Step.orErr] <;> (repeat' split) <;> simp [hset, hcontent, hacquire]

theorem run_checks (a : Answer) (hs : s ∈ Command.create.checks ∨ s ∈ Command.opens.checks) (hne : s ≠ .storeLock) :
    (s.run w c a).1.apps = w.apps := by
  have hacquire : ∀ (w : World) f, (w.acquire f).apps = w.apps := fun _ _ => rfl
  cases s with
  | checkAbsent | readDb | checkPresent | canonicalize => rfl
  | makeDirectory | readLock | checkMounted | canonicalizeParent | makeLockDirectory | openLockFile | tryLock =>
    simp only [Step.run, Step.orErr]
    (repeat' split) <;> simp [hacquire]
  | storeLock => exact absurd rfl hne
  | _ => exact absurd hs (by decide)

theorem Inv.leavesMounted (h : Inv σ) (hi : σ.calls[i]? = some c) (a : Answer)
    (horderly : (∀ ok, c.phase ≠ .returned ok) → c.orderly σ a) :
    LeavesMounted σ.shared (advance σ.shared c a).1 c := by
  intro hcommand p k hk hown
  have hcall := h.calls i c hi
  cases htodo : c.todo with
  | nil =>
    rw [advance_nil htodo]
    exact ⟨hk, rfl⟩
  | cons s rest =>
    by_cases hreturned : ∃ ok, c.phase = .returned ok
    · obtain ⟨ok, hphase⟩ := hreturned
      rw [advance_returned hphase]
      exact ⟨hk, rfl⟩
    · have hrunning : ∀ ok, c.phase ≠ .returned ok := fun ok hphase => hreturned ⟨ok, hphase⟩
      rw [advance_cons hrunning htodo, settle_world]
      suffices hsame : (s.run σ.shared c a).1.apps p = σ.shared.apps p by
        rw [hsame]
        exact ⟨hk, rfl⟩
      by_cases hp : p = c.proc
      · subst hp
        cases hphase : c.phase with
        | checking =>
          obtain ⟨t, -, -, hmem, -⟩ := (hcall.checking hphase).split htodo
          have hs : s ∈ Command.create.checks ∨ s ∈ Command.opens.checks := by
            cases hc : c.command with
            | create => exact .inl (hc ▸ hmem)
            | opens => exact .inr (hc ▸ hmem)
            | close => exact absurd hc hcommand
          by_cases hstore : s = .storeLock
          · -- where the lock is stored, nothing is mounted
            subst hstore
            have hguard := horderly hrunning
            simp only [Call.orderly, htodo, List.head?_cons] at hguard
            obtain ⟨lock, hlock, -⟩ := h.db _ k hk
            cases hguard.2.symm.trans hlock
          · rw [run_checks a hs hstore]
        | mounting =>
          obtain ⟨lock, hmount⟩ := hcall.mounting hphase
          exact absurd (hmount.conn_of_db hk) hown
        | tearing =>
          rcases (hcall.tearing hphase).2.own hphase with hdb | hdb
          · cases hdb.symm.trans hk
          · exact absurd (hdb.symm.trans hk) hown
        | closing => exact absurd (hcall.closing hphase).1 hcommand
        | returned ok => exact absurd hphase (hrunning ok)
      · exact run_other a hp

theorem normalize_leads {t : FileTree} {path : List Comp} {a : Answer} {loc : Loc}
    (h : normalizeVaultPath t path a = some loc) (hfile : t.node loc = some .file) : t.canonicalize path = .ok loc := by
  unfold normalizeVaultPath at h
  split at h
  · next hleads _ => rw [hleads, Option.some.inj h]
  · split at h
    · cases h
    · unfold normalizeParent at h
      split at h
      · next dir n hparent hname =>
        split at h
        · next up hup =>
          obtain rfl : up ++ [n] = loc := Option.some.inj h
          obtain ⟨init, rfl⟩ := fileName_eq_some hname
          obtain rfl : init = dir := Option.some.inj (parent_concat.symm.trans hparent)
          exact canonicalize_name hup (.inr hfile)
        · cases h
      · cases h

theorem run_verdict (a : Answer) : ((s.run w c a).2.2 = .ok → s = .checkMounted ∧ (s.run w c a).1 = w ∧
      ∃ lock, (w.apps c.proc).vaultLock = some lock ∧ lock.matches w.disk.tree c.path a = true) ∧
    ((s.run w c a).2.1.phase = c.phase ∨ s = .storeLock ∧ (s.run w c a).2.1.phase = .mounting) := by
  cases s with
  | checkMounted =>
    cases hfails : a.fails with
    | true => simp [Step.run, hfails]
    | false =>
      cases hlock : (w.apps c.proc).vaultLock with
      | none => simp [Step.run, hfails, hlock]
      | some lock => by_cases hmatch : lock.matches w.disk.tree c.path a = true <;> simp [Step.run, hfails, hlock, hmatch]
  | checkAbsent | readDb | checkPresent | setKey | initFile | cloneHlc | cloneContext | resetContext =>
    simp only [Step.run]
    split <;> simp
  | canonicalize | queryCipher | takeSink => simp [Step.run]
  | _ =>
    simp only [Step.run, Step.orErr]
    (repeat' split) <;> simp

theorem inner_last : ∀ t ∈ openInner.tails, t.tail = [] → t = [] ∨ t = [.ensureIdentity] := by
  decide

theorem Inv.answered {a : Answer} (h : Inv σ) (hmatches : lock.matches σ.shared.disk.tree c.path a = true)
    (hlock : (σ.shared.apps c.proc).vaultLock = some lock) (hidle : ¬ σ.busy c.proc)
    (hdb : (σ.shared.apps c.proc).db.isSome = true) (hsink : (σ.shared.apps c.proc).criticalSink.isSome = true) :
    ∃ loc k, σ.shared.disk.tree.canonicalize c.path = .ok loc ∧ σ.shared.disk.file loc = some k.file ∧
      Initialised σ.shared (σ.shared.apps c.proc) k := by
  obtain ⟨k, hk⟩ := Option.isSome_iff_exists.1 hdb
  obtain ⟨lock', hlock', hname⟩ := h.db _ k hk
  obtain rfl : lock = lock' := Option.some.inj (hlock.symm.trans hlock')
  have hleads := normalize_leads (of_decide_eq_true hmatches) (Disk.file_eq_some.1 hname.1).1
  exact ⟨_, k, hleads, hname.1, h.idle _ hidle k hk (Option.isSome_iff_ne_none.1 hsink)⟩

theorem Mounting.ensured {a : Answer} (h : Mounting w c lock) (htodo : c.todo = [.ensureIdentity])
    (hon : (Step.run w c a .ensureIdentity).2.2 = .on) : let w' := (Step.run w c a .ensureIdentity).1
    ∃ loc k, w'.disk.tree.canonicalize c.path = .ok loc ∧ w'.disk.file loc = some k.file ∧ Initialised w' (w'.apps c.proc) k := by
  obtain ⟨k, hk⟩ := Option.ne_none_iff_exists'.1 (h.conn (by simp [htodo]))
  have hdb : (w.apps c.proc).db = some k := (h.stored (by simp [htodo])).trans hk
  obtain ⟨hname, hleads⟩ := h.names k hk
  simp only [Step.run, hdb, Step.orErr] at hon ⊢
  split at hon
  · cases hon
  · next hfails =>
    rw [if_neg hfails]
    have hwritten : Mounting (w.setContent k.file fun x => { x with identity := true }) c lock :=
      h.beside rfl (fun _ _ => .refl _ _) (setContent_sub fun x => ⟨id, id, fun _ => rfl⟩)
    have hpop := hwritten.pop htodo fun k' hk' => by
      obtain rfl : k = k' := Option.some.inj (hk.symm.trans hk')
      rw [setContent_self]
    obtain ⟨k', hk', hinit⟩ := hpop.initialised rfl
    obtain rfl : k = k' := Option.some.inj (hk.symm.trans hk')
    exact ⟨_, k, hleads, hname.1, hinit⟩

theorem Inv.okInitialised (h : Inv σ) (hi : σ.calls[i]? = some c) (a : Answer)
    (horderly : (∀ ok, c.phase ≠ .returned ok) → c.orderly σ a) :
    OkInitialised (advance σ.shared c a).1 c (advance σ.shared c a).2 := by
  intro hcommand hrunning hok
  have hcall := h.calls i c hi
  cases htodo : c.todo with
  | nil =>
    rw [advance_nil htodo] at hok
    exact absurd hok (hrunning true)
  | cons s rest =>
    have hguard := horderly hrunning
    obtain ⟨hearly, hgoes⟩ := run_verdict (s := s) (w := σ.shared) (c := c) a
    rw [advance_cons hrunning htodo] at hok ⊢
    rw [settle_world]
    rcases hrun : s.run σ.shared c a with ⟨w', c', v⟩
    rw [hrun] at hok hearly hgoes
    cases v with
    | ok =>
      obtain ⟨rfl, rfl, lock, hlock, hmatches⟩ := hearly rfl
      simp only [Call.orderly, htodo, List.head?_cons] at hguard
      obtain ⟨hidle, hdb, hsink⟩ := hguard lock hlock hmatches
      exact h.answered hmatches hlock hidle hdb hsink
    | err =>
      simp only [settle, Call.fail] at hok
      split at hok <;> cases hok
    | on =>
      by_cases hrest : rest = []
      · subst hrest
        cases hphase : c.phase with
        | checking =>
          obtain ⟨t, -, ht, -, -⟩ := (hcall.checking hphase).split htodo
          rw [hcommand] at ht
          exact absurd (List.append_eq_nil_iff.1 ht.symm).2 (by decide)
        | mounting =>
          obtain ⟨lock, hmount⟩ := hcall.mounting hphase
          have hinner := hmount.todo
          rw [hcommand, htodo] at hinner
          have hlast := inner_last [s] ((List.mem_tails _ _).2 hinner) rfl
          obtain rfl : s = .ensureIdentity := by simpa using hlast
          have hdone := hmount.ensured (a := a) htodo (by rw [hrun])
          rwa [hrun] at hdone
        | tearing =>
          -- an error is returned at the end
          have hs : s ∈ closeDatabase := (hcall.tearing hphase).2.todo.subset (htodo ▸ List.mem_cons_self)
          have hphase' : c'.phase = .tearing := by
            rcases hgoes with hgoes | ⟨rfl, -⟩
            · exact hgoes.trans hphase
            · exact absurd hs (by decide)
          simp [settle, Call.goOn, hphase'] at hok
        | closing => cases (hcall.closing hphase).1.symm.trans hcommand
        | returned ok => exact absurd hphase (hrunning ok)
      · simp only [settle, goOn_of_ne hrest] at hok
        rcases hgoes with hgoes | ⟨-, hgoes⟩
        · exact absurd (hgoes.symm.trans hok) (hrunning true)
        · cases hgoes.symm.trans hok

theorem safe_step (h : Inv σ) {e : Event} (horderly : Orderly σ e) : Safe σ e := by
  refine ⟨(h.step horderly).oneOpener, ?_⟩
  rintro i a rfl c c' hi hi'
  rw [Calls.step_resume hi] at hi' ⊢
  have hself : (σ.after i (advance σ.shared c a).1 (advance σ.shared c a).2).calls[i]? = some (advance σ.shared c a).2 :=
    after_self hi
  obtain rfl : (advance σ.shared c a).2 = c' := Option.some.inj (hself.symm.trans hi')
  exact ⟨h.leavesMounted hi a (horderly c hi), h.okInitialised hi a (horderly c hi)⟩

/-- In a run whose calls do not write a process's session at once and open the files that they lock, no two processes open
one vault, each holds the lock of what it has open, errors leave what others have mounted, and `Ok` is said of a complete
session. -/
theorem vaults_have_one_opener (disk : Disk) (content : Nat → Content) (es : List Event)
    (h : Guarded machine.step Orderly (Sys.boot disk content) es) :
    Guarded machine.step Safe (Sys.boot disk content) es :=
  h.each (I := Inv) (fun _ _ hinv hG => hinv.step hG) (fun _ _ hinv hG => safe_step hinv hG) (boot_inv disk content)

/-! ## Runs that can be checked -/

instance : Decidable (σ.busy p) := inferInstanceAs (Decidable (∃ c ∈ σ.calls, c.proc = p ∧ c.writing = true))

/-- `orderly` on a disk without second names. -/
def Call.inOrder (σ : Sys) (c : Call) (a : Answer) : Bool :=
  let w := σ.shared
  match c.todo.head? with
  | some .checkMounted => (w.apps c.proc).vaultLock.all fun lock => !lock.matches w.disk.tree c.path a ||
      (decide (¬ σ.busy c.proc) && (w.apps c.proc).db.isSome && (w.apps c.proc).criticalSink.isSome)
  | some .openLockFile => c.vault.all fun vault =>
      (w.disk.tree.createAt ((lockPathFor vault).map .name)).toOption.all (· = lockPathFor vault)
  | some .storeLock => ¬ σ.busy c.proc ∧ (w.apps c.proc).vaultLock = none
  | some .removeFile => c.cipher || (w.disk.tree.entryLoc c.path).all fun entry =>
      c.vault = some entry ∧ w.disk.tree.node entry = some .file
  | some .openDb => (w.disk.openFile c.path).toOption.all (c.vault = some ·)
  | some .takeSink => c.phase = .closing → ¬ σ.busy c.proc
  | _ => true

theorem Call.orderly_of_inOrder {a : Answer} (hnames : σ.shared.disk.OneName) (h : c.inOrder σ a = true) : c.orderly σ a := by
  unfold Call.inOrder at h
  cases hhead : c.todo.head? with
  | none => simp only [Call.orderly, hhead]
  | some s =>
    rw [hhead] at h
    cases s <;> simp only [Call.orderly, hhead]
    case checkMounted =>
      intro lock hlock hmatches
      simpa [hlock, hmatches, and_assoc] using h
    case openLockFile =>
      intro vault loc hvault hloc
      simpa [hvault, hloc, Except.toOption] using h
    case storeLock => exact of_decide_eq_true h
    case removeFile =>
      intro hcipher entry hentry
      simpa [hcipher, hentry] using h
    case openDb =>
      intro loc hopen
      have hname := hnames.onlyName (Disk.file_eq_some.2 ⟨(Disk.openFile_ok.1 hopen).2, rfl⟩)
      exact ⟨by simpa [hopen, Except.toOption] using h, fun loc' hloc' => hname.2 loc' (hloc'.trans hname.1)⟩
    case takeSink => exact of_decide_eq_true h

theorem run_oneName (a : Answer) (h : w.disk.OneName) : (s.run w c a).1.disk.OneName := by
  cases s with
  | makeDirectory =>
    simp only [Step.run]
    split
    · exact h
    · exact h.makeParent _
  | makeLockDirectory =>
    simp only [Step.run]
    cases c.vault with
    | none => exact h
    | some vault =>
      simp only [Step.orErr]
      split
      · exact h
      · exact h.makeParent _
  | openLockFile =>
    simp only [Step.run]
    cases c.vault with
    | none => exact h
    | some vault =>
      simp only [Step.orErr]
      split
      · exact h
      · split
        · exact h
        · next hcreate => exact h.create hcreate
  | createFile | openSink =>
    simp only [Step.run]
    split
    · exact h
    · split
      · exact h
      · next hcreate => exact h.create hcreate
  | removeFile =>
    simp only [Step.run]
    split
    · exact h
    · split
      · exact h
      · exact h.remove _
  | _ =>
    simp only [Step.run, Step.orErr]
    (repeat' split) <;> simpa [World.setApp, World.setContent, World.acquire] using h

def Sys.inOrder (σ : Sys) : Event → Bool
  | .start _ => true
  | .resume i a => σ.calls[i]?.all fun c => c.inOrder σ a
  | .outside e => nomatch e

def Sys.allInOrder : Sys → List Event → Bool
  | _, [] => true
  | σ, e :: es => σ.inOrder e && Sys.allInOrder (machine.step σ e) es

theorem advance_oneName (a : Answer) (h : w.disk.OneName) : (advance w c a).1.disk.OneName := by
  cases htodo : c.todo with
  | nil => rwa [advance_nil htodo]
  | cons s rest =>
    by_cases hreturned : ∃ ok, c.phase = .returned ok
    · obtain ⟨ok, hphase⟩ := hreturned
      rwa [advance_returned hphase]
    · rw [advance_cons (fun ok hphase => hreturned ⟨ok, hphase⟩) htodo, settle_world]
      exact run_oneName a h

theorem step_oneName {e : Event} (h : σ.shared.disk.OneName) : (machine.step σ e).shared.disk.OneName := by
  cases e with
  | start r => exact h
  | outside e => cases e
  | resume i a =>
    cases hi : σ.calls[i]? with
    | none => rwa [Calls.step_resume_none hi]
    | some c =>
      rw [Calls.step_resume hi]
      exact advance_oneName a h

theorem orderly_of_allInOrder {es : List Event} (hnames : σ.shared.disk.OneName) (h : Sys.allInOrder σ es = true) :
    Guarded machine.step Orderly σ es := by
  induction es generalizing σ with
  | nil => trivial
  | cons e es ih =>
    obtain ⟨he, hes⟩ := Bool.and_eq_true_iff.1 h
    refine ⟨?_, ih (step_oneName hnames) hes⟩
    cases e with
    | start r => trivial
    | outside e => cases e
    | resume i a =>
      intro c hi _
      rw [Sys.inOrder, hi] at he
      exact Call.orderly_of_inOrder hnames he

def goesOn (i n : Nat) : List Event := List.replicate n (.resume i {})

/-- A vault is opened in one process, and asked for once more there and in another, which does not get it; after it is closed,
the other process opens it. -/
def handover : List Event :=
  .start (.opens 0 [.name "a.db"]) :: goesOn 0 18 ++ .start (.opens 0 [.up, .name "a.db"]) :: goesOn 1 1 ++
  .start (.opens 1 [.name "a.db"]) :: goesOn 2 7 ++ .start (.close 0) :: goesOn 3 5 ++ .start (.opens 1 [.name "a.db"]) ::
  goesOn 4 18

theorem vaults_have_one_opener_handover :
    Guarded machine.step Safe (Sys.boot ((Disk.empty 40).touch ["a.db"]) fun _ => {}) handover :=
  vaults_have_one_opener _ _ _ (orderly_of_allInOrder ((Disk.oneName_empty 40).touch _) (by decide +kernel))

/-! ## Runs that go wrong -/

/-- A vault is created through a link that leads nowhere, and opened at its own place in another process. -/
def linkedVault : Sys := Sys.boot ((Disk.empty 40).symlink [] "alias.db" [.name "real.db"]) fun _ => {}

def linked : List Event :=
  .start (.create 0 [] "alias") :: goesOn 0 25 ++ .start (.opens 1 [.name "real.db"]) :: goesOn 1 14

def twoVaults : Sys := Sys.boot (((Disk.empty 40).touch ["a.db"]).touch ["b.db"]) fun _ => {}

def bothChecked : List Event :=
  .start (.opens 0 [.name "a.db"]) :: .start (.opens 0 [.name "b.db"]) :: goesOn 0 7 ++ goesOn 1 7

def overlapping : List Event := bothChecked ++ goesOn 0 11 ++ goesOn 1 1

/-- The second one stores its lock, the first one mounts its vault, and the second one fails and unwinds. -/
def tearingDown : List Event := bothChecked ++ goesOn 1 1 ++ goesOn 0 11 ++ .resume 1 { fails := true } :: goesOn 1 1

def early : List Event := .start (.opens 0 [.name "a.db"]) :: goesOn 0 8 ++ [.start (.opens 0 [.name "a.db"])]

theorem oneOpener_of_guarded {es : List Event} (h : Guarded machine.step Safe σ es) (h0 : OneOpener σ.shared) :
    OneOpener (run machine.step σ es).shared :=
  h.inv (I := fun σ => OneOpener σ.shared) (fun _ _ _ hsafe => hsafe.1) h0

theorem guarded_last {es : List Event} {e : Event} (h : Guarded machine.step Safe σ (es ++ [e])) :
    Safe (run machine.step σ es) e := (guarded_append.1 h).2.1

/-- Two processes with one file open; a vault that is open with the lock of another; a call that takes away what another call
has mounted, and ends in an error; and an `Ok` without a session. -/
theorem two_openers :
    ¬ Guarded machine.step Safe linkedVault linked ∧ ¬ Guarded machine.step Safe twoVaults overlapping ∧
    (¬ Guarded machine.step Safe twoVaults (tearingDown ++ [.resume 1 {}]) ∧
      (run machine.step twoVaults (tearingDown ++ goesOn 1 4)).calls.map (·.phase) = [.returned true, .returned false]) ∧
    ¬ Guarded machine.step Safe twoVaults (early ++ [.resume 1 {}]) := by
  refine ⟨fun h => ?_, fun h => ?_, ⟨fun h => ?_, by decide +kernel⟩, fun h => ?_⟩
  · obtain ⟨k, hk, hfile⟩ : ∃ k, ((run machine.step linkedVault linked).shared.apps 0).db = some k ∧ k.file = 1 :=
      ⟨⟨0, 1⟩, by decide +kernel⟩
    obtain ⟨k', hk', hfile'⟩ : ∃ k, ((run machine.step linkedVault linked).shared.apps 1).db = some k ∧ k.file = 1 :=
      ⟨⟨1, 1⟩, by decide +kernel⟩
    exact absurd ((oneOpener_of_guarded h (boot_inv _ _).oneOpener).single 0 1 k k' hk hk' (hfile.trans hfile'.symm)) (by decide)
  · obtain ⟨k, hk, hfile⟩ : ∃ k, ((run machine.step twoVaults overlapping).shared.apps 0).db = some k ∧ k.file = 0 :=
      ⟨⟨0, 0⟩, by decide +kernel⟩
    obtain ⟨lock, hlock, -, hvault⟩ := (oneOpener_of_guarded h (boot_inv _ _).oneOpener).guarded 0 k hk
    have hother : ∀ lock ∈ ((run machine.step twoVaults overlapping).shared.apps 0).vaultLock,
        (run machine.step twoVaults overlapping).shared.disk.file lock.vaultPath = some 1 := by
      decide +kernel
    exact absurd ((hother lock hlock).symm.trans hvault) (by rw [hfile]; decide)
  · -- the step that takes the connection
    obtain ⟨-, hcalls⟩ := guarded_last h
    have hbefore : (run machine.step twoVaults tearingDown).calls[1]?.map (fun c => (c.command, c.conn)) =
        some (.opens, none) := rfl
    have hafter : ((machine.step (run machine.step twoVaults tearingDown) (.resume 1 {})).calls[1]?).isSome = true ∧
        ((machine.step (run machine.step twoVaults tearingDown) (.resume 1 {})).shared.apps 0).db = none := by decide
    obtain ⟨c, hc, hcommand⟩ := Option.map_eq_some_iff.1 hbefore
    obtain ⟨c', hc'⟩ := Option.isSome_iff_exists.1 hafter.1
    rw [Prod.mk.injEq] at hcommand
    have hmounted : ((run machine.step twoVaults tearingDown).shared.apps 0).db = some ⟨0, 0⟩ := by decide +kernel
    obtain ⟨hdb, -⟩ := (hcalls 1 {} rfl c c' hc hc').1 (by rw [hcommand.1]; decide) 0 _ hmounted
      (by rw [hcommand.2]; decide)
    exact nomatch hafter.2.symm.trans hdb
  · obtain ⟨-, hcalls⟩ := guarded_last h
    have hbefore : (run machine.step twoVaults early).calls[1]?.map (fun c => (c.proc, c.command, c.phase)) =
        some (0, .opens, .checking) := rfl
    have hafter : ((machine.step (run machine.step twoVaults early) (.resume 1 {})).calls[1]?).map (·.phase) =
          some (.returned true) ∧
        ((machine.step (run machine.step twoVaults early) (.resume 1 {})).shared.apps 0).db = none := by decide
    obtain ⟨c, hc, hcommand⟩ := Option.map_eq_some_iff.1 hbefore
    obtain ⟨c', hc', hphase'⟩ := Option.map_eq_some_iff.1 hafter.1
    rw [Prod.mk.injEq, Prod.mk.injEq] at hcommand
    obtain ⟨hproc, hcommand, hphase⟩ := hcommand
    obtain ⟨-, k, -, -, hinit⟩ := (hcalls 1 {} rfl c c' hc hc').2 hcommand (by simp [hphase]) hphase'
    rw [hproc] at hinit
    exact nomatch hafter.2.symm.trans hinit.db

end HaexVault.Database
