import HaexVault.Database.Sessions
/-!
# Steps with the lock

A call takes its lock, drops it, stores it in its process or releases it, and mounts or ends with it. What
such a step leaves has the invariant of `Sessions`.
-/

namespace HaexVault.Database

open Lib Lib.FileTree Lib.Runs

variable {σ : Sys} {w w' : World} {c c' d : Call} {i j p : Nat} {lock lock' : VaultLock} {s : Step} {rest : List Step}

/-! ## Steps of a call -/

@[simp] theorem setApp_self {f : AppState → AppState} : (w.setApp p f).apps p = f (w.apps p) := by simp [World.setApp]

theorem setApp_other {q : Nat} {f : AppState → AppState} (h : q ≠ p) : (w.setApp p f).apps q = w.apps q := by
  simp [World.setApp, h]

theorem goOn_of_ne (h : rest ≠ []) : c.goOn rest = { c with todo := rest } := by simp [Call.goOn, h]

theorem Mounting.initialised (h : Mounting w c lock) (htodo : c.todo = []) :
    ∃ k, c.conn = some k ∧ Initialised w (w.apps c.proc) k := by
  obtain ⟨k, hk⟩ := Option.ne_none_iff_exists'.1 (h.conn (by simp [htodo]))
  exact ⟨k, hk, (h.stored (by simp [htodo])).trans hk, h.hlc (by simp [htodo]) (by simp [htodo]) k hk,
    h.sink (by simp [htodo]) k hk, h.schema (by simp [htodo]) k hk, h.triggers (by simp [htodo]) (by simp [htodo]) k hk,
    h.identity (by simp [htodo]) k hk⟩

/-- A step of a call that mounts: it may write the session, but not the lock. -/
theorem Inv.mount (h : Inv σ) (hi : σ.calls[i]? = some c) (hphase : c.phase = .mounting) (hproc : c'.proc = c.proc)
    (hcommand : c'.command = c.command) (hpath : c'.path = c.path) (hphase' : c'.phase = .mounting) (hlock : c'.lock = none)
    (happs : ∀ p, p ≠ c.proc → w'.apps p = σ.shared.apps p) (hlocked : w'.locked = σ.shared.locked)
    (hhandles : w'.handles = σ.shared.handles) (hkept : ∀ loc, σ.Needs i loc → σ.shared.disk.Kept w'.disk loc)
    (hcontent : ∀ f, (σ.shared.content f).Sub (w'.content f))
    (hvault : (σ.shared.apps c.proc).vaultLock = some lock) (hmount : Mounting w' { c' with todo := rest } lock) :
    Inv (σ.after i w' (c'.goOn rest)) := by
  have hcall := h.calls i c hi
  have hlocks : (w'.apps c.proc).vaultLock = some lock := hproc ▸ hmount.locks
  obtain ⟨hlive, hunique⟩ := h.same_locks w' (c'.goOn rest) hi
    ((hlock : (c'.goOn rest).lock = none).trans (hcall.lock (by simp [hphase])).symm)
    (fun p => by
      by_cases hp : p = c.proc
      · rw [hp, hlocks, hvault]
      · rw [happs p hp]) hlocked hhandles hkept
  have hwriting : c.writing = true := by simp [Call.writing, hphase]
  refine h.update hi hproc hlive hunique happs (.inl hwriting) (fun _ => .inl hwriting) hkept hcontent ?_ ?_ ?_
  · have hname : c'.command = .create → VaultName c'.path := by
      rw [hcommand, hpath]
      exact hcall.path
    by_cases hrest : rest = []
    · exact .of_returned hname hlock (by simp only [Call.goOn, hrest, if_true]; rfl)
    · rw [goOn_of_ne hrest]
      exact .of_mounting hname hlock hphase' hmount
  · intro k hk
    refine ⟨lock, hlocks, (hmount.names k ?_).1⟩
    rcases hmount.db with hdb | hdb
    · rw [show (w'.apps c'.proc).db = some k from hproc ▸ hk] at hdb
      cases hdb
    · exact hdb.symm.trans (hproc ▸ hk)
  · intro _ hend k hk _
    have hrest : rest = [] := by
      by_contra hrest
      rw [goOn_of_ne hrest] at hend
      simp [Call.writing, hphase'] at hend
    obtain ⟨k', hk', hinit⟩ := hmount.initialised hrest
    rw [show ({ c' with todo := rest } : Call).proc = c.proc from hproc] at hinit
    obtain rfl : k = k' := Option.some.inj (hk.symm.trans hinit.db)
    exact hinit

theorem Inv.ending (h : Inv σ) (hi : σ.calls[i]? = some c) (hphase : c.phase = .tearing ∨ c.phase = .closing)
    {f : AppState → AppState} (hf : (f (σ.shared.apps c.proc)).vaultLock = (σ.shared.apps c.proc).vaultLock)
    (hdb : (f (σ.shared.apps c.proc)).db = none ∨ (f (σ.shared.apps c.proc)).db = (σ.shared.apps c.proc).db)
    (hrest : rest ≠ []) (hbegun : .takeSink ∉ rest) (hbegins : c.writing = true ∨ ¬ σ.busy c.proc)
    (hending : Ending (σ.shared.setApp c.proc f) { c with todo := rest }) :
    Inv (σ.after i (σ.shared.setApp c.proc f) (c.goOn rest)) := by
  have hcall := h.calls i c hi
  have hlock : c.lock = none := hcall.lock (by rcases hphase with hp | hp <;> simp [hp])
  rw [goOn_of_ne hrest]
  obtain ⟨hlive, hunique⟩ := h.same_locks (σ.shared.setApp c.proc f) { c with todo := rest } hi rfl
    (fun p => by
      by_cases hp : p = c.proc
      · rw [hp, setApp_self, hf]
      · rw [setApp_other hp]) rfl rfl fun _ _ => .refl _ _
  have hwriting : ({ c with todo := rest } : Call).writing = true := by
    rcases hphase with hp | hp <;> simp [Call.writing, hp, hbegun]
  refine h.update hi rfl hlive hunique (fun p hp => setApp_other hp) (.inr (.inl hwriting)) (fun _ => hbegins)
    (fun _ _ => .refl _ _) (fun _ => .refl _) ?_ ?_ ?_
  · rcases hphase with hp | hp
    · exact .of_tearing hcall.path hlock hp (hcall.tearing hp).1 hending
    · exact .of_closing hcall.path hlock hp (hcall.closing hp).1 hending
  · intro k hk
    rw [setApp_self] at hk ⊢
    rw [hf]
    rcases hdb with hdb | hdb
    · rw [hdb] at hk
      cases hk
    · exact h.db _ k (hdb.symm.trans hk)
  · rw [hwriting]
    exact fun _ h => by cases h

/-! ## The lock -/

@[simp] theorem release_apps : (w.release lock).apps = w.apps := by unfold World.release; split <;> rfl
@[simp] theorem release_disk : (w.release lock).disk = w.disk := by unfold World.release; split <;> rfl
@[simp] theorem release_content : (w.release lock).content = w.content := by unfold World.release; split <;> rfl
@[simp] theorem release_handles : (w.release lock).handles = w.handles := by unfold World.release; split <;> rfl

theorem Inv.release_live (h : Inv σ) {x y : Holder} (hx : σ.held x = some lock) (hy : σ.held y = some lock') (hxy : x ≠ y) :
    Live (σ.shared.release lock) lock' := by
  obtain ⟨hlive, -⟩ := h.live y lock' hy
  have hhandle : lock.handle ≠ lock'.handle := fun heq => hxy (h.unique x y lock lock' hx hy heq)
  refine ⟨?_, by rw [release_disk]; exact hlive.file⟩
  unfold World.release
  split
  · next hheld =>
    dsimp only
    rw [Function.update_of_ne, hlive.held]
    intro hfile
    exact hhandle (Option.some.inj (hheld.symm.trans (hfile ▸ hlive.held)))
  · exact hlive.held

theorem Inv.tryLock (h : Inv σ) (hi : σ.calls[i]? = some c) (hphase : c.phase = .checking) {f : Nat} {vaultPath : Loc}
    (hfree : σ.shared.locked f = none) (hfile : σ.shared.disk.file (lockPathFor vaultPath) = some f)
    (hlock : c'.lock = some ⟨σ.shared.handles, f, vaultPath⟩) (hproc : c'.proc = c.proc) (hphase' : c'.phase = .checking)
    (hpath : c'.command = .create → VaultName c'.path) (hcheck : Checking σ.shared c') :
    Inv (σ.after i (σ.shared.acquire f) c') := by
  -- the new lock, or one from before, which is on another file
  have hheld : ∀ x lock, (σ.after i (σ.shared.acquire f) c').held x = some lock →
      (x = .call i ∧ lock = ⟨σ.shared.handles, f, vaultPath⟩) ∨ σ.held x = some lock := by
    intro x lock hx
    cases x with
    | app p => exact .inr hx
    | call j =>
      by_cases hij : i = j
      · subst hij
        simp only [Sys.held, after_self hi, Option.bind_some, hlock] at hx
        exact .inl ⟨rfl, (Option.some.inj hx).symm⟩
      · simp only [Sys.held, after_other hij] at hx
        exact .inr hx
  have hw : c.writing = false := by simp [Call.writing, hphase]
  have hw' : c'.writing = false := by simp [Call.writing, hphase']
  refine h.update hi hproc ?_ ?_ (fun _ _ => rfl) (.inr (.inr rfl)) (fun hb => absurd hb (by simp [hw']))
    (fun _ _ => .refl _ _) (fun _ => .refl _) ?_ (fun k hk => h.db _ k hk) (fun hb => absurd hb (by simp [hw]))
  · intro x lock hx
    rcases hheld x lock hx with ⟨-, rfl⟩ | hx
    · exact ⟨⟨Function.update_self .., hfile⟩, Nat.lt_succ_self _⟩
    · obtain ⟨hlive, hlt⟩ := h.live x lock hx
      refine ⟨⟨?_, hlive.file⟩, Nat.lt_succ_of_lt hlt⟩
      rw [← hlive.held]
      refine Function.update_of_ne ?_ ..
      rintro rfl
      cases hfree.symm.trans hlive.held
  · intro x y lock lock' hx hy heq
    rcases hheld x lock hx with ⟨rfl, rfl⟩ | hx <;> rcases hheld y lock' hy with ⟨rfl, rfl⟩ | hy
    · rfl
    · exact absurd heq (Nat.ne_of_gt (h.live y lock' hy).2)
    · exact absurd heq (Nat.ne_of_lt (h.live x lock hx).2)
    · exact h.unique x y lock lock' hx hy heq
  · exact .of_checking hpath hphase' ⟨hcheck.todo, hcheck.conn, hcheck.lockFile, hcheck.lock, hcheck.file, hcheck.vault⟩

theorem Inv.dropLock (h : Inv σ) (hi : σ.calls[i]? = some c) (hphase : c.phase = .checking) (hlock : c.lock = some lock) :
    Inv (σ.after i (σ.shared.release lock) { c with lock := none }) := by
  have hown : σ.held (.call i) = some lock := by simp only [Sys.held, hi, Option.bind_some, hlock]
  have hheld : ∀ x lock', (σ.after i (σ.shared.release lock) { c with lock := none }).held x = some lock' →
      x ≠ .call i ∧ σ.held x = some lock' := by
    intro x lock' hx
    cases x with
    | app p => exact ⟨by simp, by simpa [Sys.held, Sys.after] using hx⟩
    | call j =>
      by_cases hij : i = j
      · subst hij
        simp [Sys.held, after_self hi] at hx
      · simp only [Sys.held, after_other hij] at hx
        exact ⟨fun heq => hij (Holder.call.inj heq).symm, hx⟩
  have hcall := h.calls i c hi
  have hcheck := hcall.checking hphase
  have hw : c.writing = false := by simp [Call.writing, hphase]
  refine h.update hi rfl ?_ ?_ (fun _ _ => by rw [release_apps]) (.inr (.inr (by rw [release_apps])))
    (fun hb => .inl hb) (fun _ _ => by rw [release_disk]; exact .refl _ _) (fun _ => by rw [release_content]; exact .refl _) ?_ ?_
    (fun hb => absurd hb (by simp [hw]))
  · intro x lock' hx
    obtain ⟨hne, hx⟩ := hheld x lock' hx
    exact ⟨h.release_live hown hx (Ne.symm hne), by rw [release_handles]; exact (h.live x lock' hx).2⟩
  · intro x y lock₁ lock₂ hx hy
    exact h.unique x y lock₁ lock₂ (hheld x lock₁ hx).2 (hheld y lock₂ hy).2
  · exact .of_checking hcall.path hphase ⟨hcheck.todo, hcheck.conn, hcheck.lockFile, fun _ => rfl,
      fun f hf => by rw [release_disk]; exact hcheck.file f hf, fun _ h => by cases h⟩
  · intro k hk
    rw [release_apps] at hk ⊢
    rw [release_disk]
    exact h.db _ k hk

/-- The lock is stored where none is: the call begins to write. -/
theorem Inv.storeLock (h : Inv σ) (hi : σ.calls[i]? = some c) (hphase : c.phase = .checking) (hlock : c.lock = some lock)
    (hidle : ¬ σ.busy c.proc) (hnone : (σ.shared.apps c.proc).vaultLock = none)
    (hmount : Mounting (σ.shared.setApp c.proc fun app => { app with vaultLock := some lock })
      { c with lock := none, phase := .mounting, todo := rest } lock) :
    Inv (σ.after i (σ.shared.setApp c.proc fun app => { app with vaultLock := some lock })
      { c with lock := none, phase := .mounting, todo := rest }) := by
  -- it goes from the call to the process
  have hheld : ∀ x lock', (σ.after i (σ.shared.setApp c.proc fun app => { app with vaultLock := some lock })
      { c with lock := none, phase := .mounting, todo := rest }).held x = some lock' →
      (x = .app c.proc ∧ lock' = lock) ∨ (x ≠ .app c.proc ∧ x ≠ .call i ∧ σ.held x = some lock') := by
    intro x lock' hx
    cases x with
    | app p =>
      by_cases hp : p = c.proc
      · subst hp
        simp only [Sys.held, Sys.after, setApp_self, Option.some.injEq] at hx
        exact .inl ⟨rfl, hx.symm⟩
      · simp only [Sys.held, Sys.after, setApp_other hp] at hx
        exact .inr ⟨by simpa using hp, by simp, hx⟩
    | call j =>
      by_cases hij : i = j
      · subst hij
        simp [Sys.held, after_self hi] at hx
      · simp only [Sys.held, after_other hij] at hx
        exact .inr ⟨by simp, fun heq => hij (Holder.call.inj heq).symm, hx⟩
  have hown : σ.held (.call i) = some lock := by simp only [Sys.held, hi, Option.bind_some, hlock]
  have hcall := h.calls i c hi
  have hw : c.writing = false := by simp [Call.writing, hphase]
  have hdb : (σ.shared.apps c.proc).db = none := by
    rw [Option.eq_none_iff_forall_ne_some]
    intro k hk
    obtain ⟨lock', hlock', -⟩ := h.db _ k hk
    rw [hnone] at hlock'
    cases hlock'
  refine h.update hi rfl ?_ ?_ (fun p hp => setApp_other hp) (.inr (.inl rfl)) (fun _ => .inr hidle) (fun _ _ => .refl _ _)
    (fun _ => .refl _) (.of_mounting hcall.path rfl rfl hmount) ?_ (fun hb => absurd hb (by simp [hw]))
  · intro x lock' hx
    rcases hheld x lock' hx with ⟨-, rfl⟩ | ⟨-, -, hx⟩
    · obtain ⟨hlive, hlt⟩ := h.live _ _ hown
      exact ⟨⟨hlive.held, hlive.file⟩, hlt⟩
    · obtain ⟨hlive, hlt⟩ := h.live _ _ hx
      exact ⟨⟨hlive.held, hlive.file⟩, hlt⟩
  · intro x y lock₁ lock₂ hx hy heq
    rcases hheld x lock₁ hx with ⟨rfl, rfl⟩ | ⟨-, hxi, hx'⟩ <;> rcases hheld y lock₂ hy with ⟨rfl, rfl⟩ | ⟨-, hyi, hy'⟩
    · rfl
    · exact absurd (h.unique _ _ _ _ hown hy' heq).symm hyi
    · exact absurd (h.unique _ _ _ _ hx' hown heq) hxi
    · exact h.unique x y lock₁ lock₂ hx' hy' heq
  · intro k hk
    rw [setApp_self] at hk
    rw [show (σ.shared.apps c.proc).db = some k from hk] at hdb
    cases hdb

theorem Inv.releaseLock (h : Inv σ) (hi : σ.calls[i]? = some c) (hphase : c.phase = .tearing ∨ c.phase = .closing)
    (hwriting : c.writing = true) (hdb : (σ.shared.apps c.proc).db = none)
    (hlock : (σ.shared.apps c.proc).vaultLock = some lock) :
    Inv (σ.after i ((σ.shared.release lock).setApp c.proc fun app => { app with vaultLock := none }) (c.goOn [])) := by
  have hown : σ.held (.app c.proc) = some lock := hlock
  have hcall := h.calls i c hi
  have hnone : c.lock = none := hcall.lock (by rcases hphase with hp | hp <;> simp [hp])
  have hheld : ∀ x lock', (σ.after i ((σ.shared.release lock).setApp c.proc fun app => { app with vaultLock := none })
      (c.goOn [])).held x = some lock' → x ≠ .app c.proc ∧ σ.held x = some lock' := by
    intro x lock' hx
    cases x with
    | app p =>
      by_cases hp : p = c.proc
      · subst hp
        simp [Sys.held, Sys.after] at hx
      · simp only [Sys.held, Sys.after, setApp_other hp, release_apps] at hx
        exact ⟨by simpa using hp, hx⟩
    | call j =>
      by_cases hij : i = j
      · subst hij
        simp [Sys.held, after_self hi, Call.goOn, hnone] at hx
      · simp only [Sys.held, after_other hij] at hx
        exact ⟨by simp, hx⟩
  refine h.update hi rfl ?_ ?_ (fun p hp => by rw [setApp_other hp, release_apps]) (.inl hwriting) (fun _ => .inl hwriting)
    (fun _ _ => ?_) (fun _ => ?_) (.of_returned hcall.path hnone rfl) ?_ ?_
  · intro x lock' hx
    obtain ⟨hne, hx⟩ := hheld x lock' hx
    have hlive := h.release_live hown hx (Ne.symm hne)
    refine ⟨⟨hlive.held, hlive.file⟩, ?_⟩
    rw [show ((σ.shared.release lock).setApp c.proc _).handles = (σ.shared.release lock).handles from rfl, release_handles]
    exact (h.live x lock' hx).2
  · intro x y lock₁ lock₂ hx hy
    exact h.unique x y lock₁ lock₂ (hheld x lock₁ hx).2 (hheld y lock₂ hy).2
  · rw [show ((σ.shared.release lock).setApp c.proc _).disk = (σ.shared.release lock).disk from rfl, release_disk]
    exact .refl _ _
  · rw [show ((σ.shared.release lock).setApp c.proc _).content = (σ.shared.release lock).content from rfl, release_content]
    exact .refl _
  · intro k hk
    rw [setApp_self, release_apps] at hk
    rw [show (σ.shared.apps c.proc).db = some k from hk] at hdb
    cases hdb
  · intro _ _ k hk
    rw [setApp_self, release_apps] at hk
    rw [show (σ.shared.apps c.proc).db = some k from hk] at hdb
    cases hdb

end HaexVault.Database
