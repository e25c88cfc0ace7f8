import HaexVault.Database.Vaults
import HaexVault.Lib.Runs
/-!
# The session of a process

What every call keeps in the runs whose calls write the session of a process one after another
and open the files that they lock (`Orderly`): who holds the locks, how far a call has come, and
what it has done so far (`Inv`). Here is what a step has to keep for that (`Inv.update`); the
steps themselves are in `Steps`.
-/

namespace HaexVault.Database

open Lib Lib.FileTree Lib.Runs

structure Live (w : World) (lock : VaultLock) : Prop where
  held : w.locked lock.file = some lock.handle
  file : w.disk.file (lockPathFor lock.vaultPath) = some lock.file

structure Initialised (w : World) (app : AppState) (k : Conn) : Prop where
  db : app.db = some k
  hlc : app.hlc = some k.file
  sink : app.criticalSink = some k.file
  schema : (w.content k.file).schema = true
  triggers : (w.content k.file).triggers = true
  identity : (w.content k.file).identity = true

/-! ## When it holds -/

/-- The call is between its first and its last change of the session: from the stored lock to the return, or while it closes. -/
def Call.writing (c : Call) : Bool :=
  match c.phase with
  | .mounting | .tearing => true
  | .closing => .takeSink ∉ c.todo
  | .checking | .returned _ => false

def Sys.busy (σ : Sys) (p : Nat) : Prop := ∃ c ∈ σ.calls, c.proc = p ∧ c.writing = true

/-- The next step of the call does not go wrong: it does not begin to write a session that another call writes or has
mounted, does not answer from a session that is being written or was left half closed, and opens or removes the file that
the call has locked. -/
def Call.orderly (σ : Sys) (c : Call) (a : Answer) : Prop :=
  let w := σ.shared
  match c.todo.head? with
  | some .checkMounted => ∀ lock, (w.apps c.proc).vaultLock = some lock → lock.matches w.disk.tree c.path a = true →
      ¬ σ.busy c.proc ∧ (w.apps c.proc).db.isSome ∧ (w.apps c.proc).criticalSink.isSome
  | some .openLockFile => ∀ vault loc, c.vault = some vault →
      w.disk.tree.createAt ((lockPathFor vault).map .name) = .ok loc → loc = lockPathFor vault
  | some .storeLock => ¬ σ.busy c.proc ∧ (w.apps c.proc).vaultLock = none
  | some .removeFile => c.cipher = false → ∀ entry, w.disk.tree.entryLoc c.path = some entry →
      c.vault = some entry ∧ w.disk.tree.node entry = some .file
  | some .openDb => ∀ loc, w.disk.openFile c.path = .ok loc →
      c.vault = some loc ∧ ∀ loc', w.disk.file loc' = w.disk.file loc → loc' = loc
  | some .takeSink => c.phase = .closing → ¬ σ.busy c.proc
  | _ => True

def Orderly (σ : Sys) : Event → Prop
  | .start _ => True
  | .resume i a => ∀ c, σ.calls[i]? = some c → (∀ ok, c.phase ≠ .returned ok) → c.orderly σ a
  | .outside e => nomatch e

/-! ## What holds in every state of such a run -/

/-- Who has a `VaultLock`: a call that has not stored it, or a process. -/
inductive Holder where
  | call (i : Nat)
  | app (p : Nat)

def Sys.held (σ : Sys) : Holder → Option VaultLock
  | .call i => σ.calls[i]?.bind (·.lock)
  | .app p => (σ.shared.apps p).vaultLock

/-- A call that has not stored its lock. -/
structure Checking (w : World) (c : Call) : Prop where
  todo : ∃ t, t ≠ [] ∧ t <:+ c.command.checks ∧ c.todo = t ++ c.command.inner
  conn : c.conn = none
  lockFile : .openLockFile ∈ c.todo → c.lockFile = none
  lock : .tryLock ∈ c.todo → c.lock = none
  file : ∀ f, c.lockFile = some f → ∃ vault, c.vault = some vault ∧ w.disk.file (lockPathFor vault) = some f
  vault : ∀ lock, c.lock = some lock → c.vault = some lock.vaultPath

/-- A call between its lock and its return: what its steps have done so far. -/
structure Mounting (w : World) (c : Call) (lock : VaultLock) : Prop where
  command : c.command ≠ .close
  todo : c.todo <:+ c.command.inner
  locks : (w.apps c.proc).vaultLock = some lock
  vault : c.vault = some lock.vaultPath
  db : (w.apps c.proc).db = none ∨ (w.apps c.proc).db = c.conn
  notYet : .openDb ∈ c.todo → c.conn = none
  conn : .openDb ∉ c.todo → c.conn ≠ none
  names : ∀ k, c.conn = some k →
    w.disk.OnlyName lock.vaultPath k.file ∧ w.disk.tree.canonicalize c.path = .ok lock.vaultPath
  stored : .storeDb ∉ c.todo → (w.apps c.proc).db = c.conn
  hlc : .initHlc ∉ c.todo → .initSession ∉ c.todo → ∀ k, c.conn = some k → (w.apps c.proc).hlc = some k.file
  triggers : .ensureTriggers ∉ c.todo → .initSession ∉ c.todo → ∀ k, c.conn = some k → (w.content k.file).triggers = true
  schema : .migrate ∉ c.todo → ∀ k, c.conn = some k → (w.content k.file).schema = true
  opened : .openSink ∉ c.todo → ∀ k, c.conn = some k → c.sink = some k.file
  sink : .storeSink ∉ c.todo → ∀ k, c.conn = some k → (w.apps c.proc).criticalSink = some k.file
  identity : .ensureIdentity ∉ c.todo → ∀ k, c.conn = some k → (w.content k.file).identity = true

structure Ending (w : World) (c : Call) : Prop where
  todo : c.todo <:+ closeDatabase
  sink : .takeSink ∉ c.todo → (w.apps c.proc).criticalSink = none
  db : .takeDb ∉ c.todo → (w.apps c.proc).db = none
  own : c.phase = .tearing → (w.apps c.proc).db = none ∨ (w.apps c.proc).db = c.conn

def VaultName (path : List Comp) : Prop := ∃ dir n, path = dir ++ [.name n] ∧ n.toList.getLast? = some 'b'

structure CallInv (w : World) (c : Call) : Prop where
  path : c.command = .create → VaultName c.path
  lock : c.phase ≠ .checking → c.lock = none
  phase : match c.phase with
    | .checking => Checking w c
    | .mounting => ∃ lock, Mounting w c lock
    | .tearing => c.command ≠ .close ∧ Ending w c
    | .closing => c.command = .close ∧ Ending w c
    | .returned _ => True

section CallInv
variable {w : World} {c : Call} {lock : VaultLock} (hpath : c.command = .create → VaultName c.path)

include hpath

theorem CallInv.of_checking (hphase : c.phase = .checking) (h : Checking w c) : CallInv w c :=
  ⟨hpath, fun hne => absurd hphase hne, by rw [hphase]; exact h⟩

theorem CallInv.of_mounting (hlock : c.lock = none) (hphase : c.phase = .mounting) (h : Mounting w c lock) : CallInv w c :=
  ⟨hpath, fun _ => hlock, by rw [hphase]; exact ⟨lock, h⟩⟩

theorem CallInv.of_tearing (hlock : c.lock = none) (hphase : c.phase = .tearing) (hcommand : c.command ≠ .close)
    (h : Ending w c) : CallInv w c :=
  ⟨hpath, fun _ => hlock, by rw [hphase]; exact ⟨hcommand, h⟩⟩

theorem CallInv.of_closing (hlock : c.lock = none) (hphase : c.phase = .closing) (hcommand : c.command = .close)
    (h : Ending w c) : CallInv w c :=
  ⟨hpath, fun _ => hlock, by rw [hphase]; exact ⟨hcommand, h⟩⟩

theorem CallInv.of_returned {ok : Bool} (hlock : c.lock = none) (hphase : c.phase = .returned ok) : CallInv w c :=
  ⟨hpath, fun _ => hlock, by rw [hphase]; trivial⟩

end CallInv

section CallInv
variable {w : World} {c : Call} (h : CallInv w c)

include h

theorem CallInv.checking (hphase : c.phase = .checking) : Checking w c := by
  have hinv := h.phase
  rwa [hphase] at hinv

theorem CallInv.mounting (hphase : c.phase = .mounting) : ∃ lock, Mounting w c lock := by
  have hinv := h.phase
  rwa [hphase] at hinv

theorem CallInv.tearing (hphase : c.phase = .tearing) : c.command ≠ .close ∧ Ending w c := by
  have hinv := h.phase
  rwa [hphase] at hinv

theorem CallInv.closing (hphase : c.phase = .closing) : c.command = .close ∧ Ending w c := by
  have hinv := h.phase
  rwa [hphase] at hinv

end CallInv

structure Inv (σ : Sys) : Prop where
  live : ∀ x lock, σ.held x = some lock → Live σ.shared lock ∧ lock.handle < σ.shared.handles
  unique : ∀ x y lock lock', σ.held x = some lock → σ.held y = some lock' → lock.handle = lock'.handle → x = y
  db : ∀ p k, (σ.shared.apps p).db = some k →
    ∃ lock, (σ.shared.apps p).vaultLock = some lock ∧ σ.shared.disk.OnlyName lock.vaultPath k.file
  writers : ∀ (i j : Nat) (c d : Call), σ.calls[i]? = some c → σ.calls[j]? = some d → c.writing = true → d.writing = true →
    c.proc = d.proc → i = j
  calls : ∀ (i : Nat) c, σ.calls[i]? = some c → CallInv σ.shared c
  idle : ∀ p, ¬ σ.busy p → ∀ k, (σ.shared.apps p).db = some k → (σ.shared.apps p).criticalSink ≠ none →
    Initialised σ.shared (σ.shared.apps p) k

variable {σ : Sys} {w w' : World} {c c' d : Call} {i j p : Nat} {lock lock' : VaultLock} {s : Step} {rest : List Step}

theorem Inv.same_vault (h : Inv σ) {x y : Holder} (hx : σ.held x = some lock) (hy : σ.held y = some lock')
    (hvault : lock.vaultPath = lock'.vaultPath) : x = y := by
  obtain ⟨hlive, -⟩ := h.live x lock hx
  obtain ⟨hlive', -⟩ := h.live y lock' hy
  have hfile : lock.file = lock'.file := Option.some.inj (hlive.file.symm.trans (hvault ▸ hlive'.file))
  exact h.unique x y lock lock' hx hy (Option.some.inj (hlive.held.symm.trans (hfile ▸ hlive'.held)))

/-! ## Steps beside a call -/

def Content.Sub (x y : Content) : Prop :=
  (x.schema = true → y.schema = true) ∧ (x.triggers = true → y.triggers = true) ∧ (x.identity = true → y.identity = true)

theorem Content.Sub.refl (x : Content) : x.Sub x := ⟨id, id, id⟩

theorem Initialised.mono {app : AppState} {k : Conn} (h : Initialised w app k)
    (hcontent : ∀ f, (w.content f).Sub (w'.content f)) : Initialised w' app k :=
  ⟨h.db, h.hlc, h.sink, (hcontent _).1 h.schema, (hcontent _).2.1 h.triggers, (hcontent _).2.2 h.identity⟩

theorem Checking.beside (h : Checking w c) (hkept : ∀ vault, w.disk.Kept w'.disk (lockPathFor vault)) : Checking w' c := by
  refine ⟨h.todo, h.conn, h.lockFile, h.lock, fun f hf => ?_, h.vault⟩
  obtain ⟨vault, hvault, hfile⟩ := h.file f hf
  exact ⟨vault, hvault, (hkept vault).file f hfile⟩

theorem Mounting.beside (h : Mounting w c lock) (happs : w'.apps c.proc = w.apps c.proc)
    (hkept : ∀ k, c.conn = some k → w.disk.Kept w'.disk lock.vaultPath) (hcontent : ∀ f, (w.content f).Sub (w'.content f)) :
    Mounting w' c lock where
  command := h.command
  todo := h.todo
  locks := happs ▸ h.locks
  vault := h.vault
  db := happs ▸ h.db
  notYet := h.notYet
  conn := h.conn
  names k hk := by
    obtain ⟨hname, hleads⟩ := h.names k hk
    exact ⟨(hkept k hk).onlyName _ hname, (hkept k hk).leads _ (Disk.file_eq_some.1 hname.1).1 hleads⟩
  stored := happs ▸ h.stored
  hlc := happs ▸ h.hlc
  triggers ht hs k hk := (hcontent _).2.1 (h.triggers ht hs k hk)
  schema hs k hk := (hcontent _).1 (h.schema hs k hk)
  opened := h.opened
  sink := happs ▸ h.sink
  identity hs k hk := (hcontent _).2.2 (h.identity hs k hk)

theorem Ending.beside (h : Ending w c) (happs : w'.apps c.proc = w.apps c.proc) : Ending w' c :=
  ⟨h.todo, happs ▸ h.sink, happs ▸ h.db, happs ▸ h.own⟩

/-- The state after one step of the call at `i`. -/
def Sys.after (σ : Sys) (i : Nat) (w' : World) (c' : Call) : Sys := { shared := w', calls := σ.calls.set i c' }

section After
variable (hi : σ.calls[i]? = some c)

include hi

theorem after_self : (σ.after i w' c').calls[i]? = some c' := by
  simp [Sys.after, (List.getElem?_eq_some_iff.1 hi).1]

omit hi in
theorem after_other (hij : i ≠ j) : (σ.after i w' c').calls[j]? = σ.calls[j]? := by
  simp [Sys.after, hij]

theorem not_busy_of_after (hp : (c.writing = true → c'.writing = true) ∨ p ≠ c.proc) (hproc : c'.proc = c.proc)
    (h : ¬ (σ.after i w' c').busy p) : ¬ σ.busy p := by
  rintro ⟨d, hd, hdp, hdw⟩
  obtain ⟨j, hj⟩ := List.mem_iff_getElem?.1 hd
  by_cases hij : i = j
  · obtain rfl : d = c := Option.some.inj (hj.symm.trans (hij ▸ hi))
    rcases hp with hp | hp
    · exact h ⟨c', List.mem_of_getElem? (after_self hi), hproc.trans hdp, hp hdw⟩
    · exact hp hdp.symm
  · exact h ⟨d, List.mem_of_getElem? ((after_other hij).trans hj), hdp, hdw⟩

end After

/-- Where the disk matters to the state beside the call at `i`: lock files, open vaults and vaults that are being opened. -/
def Sys.Needs (σ : Sys) (i : Nat) (loc : Loc) : Prop :=
  (∃ vault, loc = lockPathFor vault) ∨
  (∃ p k lock, (σ.shared.apps p).db = some k ∧ (σ.shared.apps p).vaultLock = some lock ∧ loc = lock.vaultPath) ∨
  ∃ j d lock, j ≠ i ∧ σ.calls[j]? = some d ∧ d.phase = .mounting ∧ (σ.shared.apps d.proc).vaultLock = some lock ∧
    loc = lock.vaultPath

theorem CallInv.beside (h : CallInv w d) (happs : w'.apps d.proc = w.apps d.proc ∨ d.writing = false)
    (hlocks : ∀ vault, w.disk.Kept w'.disk (lockPathFor vault))
    (hvaults : d.phase = .mounting → ∀ lock, (w.apps d.proc).vaultLock = some lock → w.disk.Kept w'.disk lock.vaultPath)
    (hcontent : ∀ f, (w.content f).Sub (w'.content f)) : CallInv w' d := by
  cases hd : d.phase with
  | checking => exact .of_checking h.path hd ((h.checking hd).beside hlocks)
  | mounting =>
    obtain ⟨lock, hm⟩ := h.mounting hd
    have happs : w'.apps d.proc = w.apps d.proc := happs.resolve_right (by simp [Call.writing, hd])
    exact .of_mounting h.path (h.lock (by simp [hd])) hd (hm.beside happs (fun _ _ => hvaults hd lock hm.locks) hcontent)
  | tearing =>
    obtain ⟨hcommand, he⟩ := h.tearing hd
    exact .of_tearing h.path (h.lock (by simp [hd])) hd hcommand
      (he.beside (happs.resolve_right (by simp [Call.writing, hd])))
  | closing =>
    obtain ⟨hcommand, he⟩ := h.closing hd
    refine .of_closing h.path (h.lock (by simp [hd])) hd hcommand ?_
    rcases happs with happs | hw
    · exact he.beside happs
    · -- it has not begun
      have hsink : .takeSink ∈ d.todo := by simpa [Call.writing, hd] using hw
      refine ⟨he.todo, fun h => absurd hsink h, fun h => ?_, fun h => by rw [hd] at h; cases h⟩
      have horder : ∀ t ∈ closeDatabase.tails, .takeSink ∈ t → .takeDb ∈ t := by decide
      exact absurd (horder _ ((List.mem_tails _ _).2 he.todo) hsink) h
  | returned ok => exact .of_returned h.path (h.lock (by simp [hd])) hd

/-- What one step of a call has to keep so that the state keeps its invariant. -/
theorem Inv.update (h : Inv σ) (hi : σ.calls[i]? = some c) (hproc : c'.proc = c.proc)
    (hlive : ∀ x lock, (σ.after i w' c').held x = some lock → Live w' lock ∧ lock.handle < w'.handles)
    (hunique : ∀ x y lock lock', (σ.after i w' c').held x = some lock → (σ.after i w' c').held y = some lock' →
      lock.handle = lock'.handle → x = y)
    (happs : ∀ p, p ≠ c.proc → w'.apps p = σ.shared.apps p)
    (hquiet : c.writing = true ∨ c'.writing = true ∨ w'.apps c.proc = σ.shared.apps c.proc)
    (hbegins : c'.writing = true → c.writing = true ∨ ¬ σ.busy c.proc)
    (hkept : ∀ loc, σ.Needs i loc → σ.shared.disk.Kept w'.disk loc)
    (hcontent : ∀ f, (σ.shared.content f).Sub (w'.content f)) (hcall : CallInv w' c')
    (hdb : ∀ k, (w'.apps c.proc).db = some k →
      ∃ lock, (w'.apps c.proc).vaultLock = some lock ∧ w'.disk.OnlyName lock.vaultPath k.file)
    (hends : c.writing = true → c'.writing = false → ∀ k, (w'.apps c.proc).db = some k →
      (w'.apps c.proc).criticalSink ≠ none → Initialised w' (w'.apps c.proc) k) : Inv (σ.after i w' c') := by
  -- no other call writes while this one does or begins to
  have halone : ∀ j d, j ≠ i → σ.calls[j]? = some d → d.proc = c.proc → c.writing = true ∨ c'.writing = true →
      d.writing = false := by
    intro j d hji hj hdp hw
    by_contra hdw
    rw [Bool.not_eq_false] at hdw
    have hc : c.writing = true ∨ ¬ σ.busy c.proc := by
      rcases hw with hw | hw
      · exact .inl hw
      · exact hbegins hw
    rcases hc with hc | hbusy
    · exact hji (h.writers j i d c hj hi hdw hc hdp)
    · exact hbusy ⟨d, List.mem_of_getElem? hj, hdp, hdw⟩
  refine ⟨hlive, hunique, ?_, ?_, ?_, ?_⟩
  · intro p k hk
    by_cases hp : p = c.proc
    · exact hp ▸ hdb k (hp ▸ hk)
    · change (w'.apps p).db = some k at hk
      change ∃ lock, (w'.apps p).vaultLock = some lock ∧ w'.disk.OnlyName lock.vaultPath k.file
      rw [happs p hp] at hk ⊢
      obtain ⟨lock, hlock, hname⟩ := h.db p k hk
      exact ⟨lock, hlock, (hkept _ (.inr (.inl ⟨p, k, lock, hk, hlock, rfl⟩))).onlyName _ hname⟩
  · intro j₁ j₂ d₁ d₂ h₁ h₂ hw₁ hw₂ hp
    by_cases hj₁ : i = j₁ <;> by_cases hj₂ : i = j₂
    · exact hj₁.symm.trans hj₂
    · subst hj₁
      obtain rfl : c' = d₁ := Option.some.inj ((after_self hi).symm.trans h₁)
      rw [after_other hj₂] at h₂
      rw [halone j₂ d₂ (Ne.symm hj₂) h₂ (hp.symm.trans hproc) (.inr hw₁)] at hw₂
      cases hw₂
    · subst hj₂
      obtain rfl : c' = d₂ := Option.some.inj ((after_self hi).symm.trans h₂)
      rw [after_other hj₁] at h₁
      rw [halone j₁ d₁ (Ne.symm hj₁) h₁ (hp.trans hproc) (.inr hw₂)] at hw₁
      cases hw₁
    · rw [after_other hj₁] at h₁
      rw [after_other hj₂] at h₂
      exact h.writers j₁ j₂ d₁ d₂ h₁ h₂ hw₁ hw₂ hp
  · intro j d hj
    by_cases hij : i = j
    · subst hij
      obtain rfl : c' = d := Option.some.inj ((after_self hi).symm.trans hj)
      exact hcall
    · rw [after_other hij] at hj
      refine (h.calls j d hj).beside ?_ (fun vault => hkept _ (.inl ⟨vault, rfl⟩)) ?_ hcontent
      · by_cases hp : d.proc = c.proc
        · rcases hquiet with hw | hw | hw
          · exact .inr (halone j d (Ne.symm hij) hj hp (.inl hw))
          · exact .inr (halone j d (Ne.symm hij) hj hp (.inr hw))
          · exact .inl (hp ▸ hw)
        · exact .inl (happs _ hp)
      · exact fun hphase lock hlock => hkept _ (.inr (.inr ⟨j, d, lock, Ne.symm hij, hj, hphase, hlock, rfl⟩))
  · intro p hidle k hk hsink
    change (w'.apps p).db = some k at hk
    change (w'.apps p).criticalSink ≠ none at hsink
    change Initialised w' (w'.apps p) k
    by_cases hp : p = c.proc
    · subst hp
      have hc' : c'.writing = false := by
        by_contra hw
        exact hidle ⟨c', List.mem_of_getElem? (after_self hi), hproc, by simpa using hw⟩
      by_cases hc : c.writing = true
      · exact hends hc hc' k hk hsink
      · rw [Bool.not_eq_true] at hc
        have hsame : w'.apps c.proc = σ.shared.apps c.proc := by simpa [hc, hc'] using hquiet
        have hidle' := not_busy_of_after hi (.inl (by simp [hc])) hproc hidle
        rw [hsame] at hk hsink ⊢
        exact (h.idle _ hidle' k hk hsink).mono hcontent
    · have hidle' := not_busy_of_after hi (.inr hp) hproc hidle
      rw [happs p hp] at hk hsink ⊢
      exact (h.idle p hidle' k hk hsink).mono hcontent

theorem Inv.same_locks (h : Inv σ) (w' : World) (c' : Call) (hi : σ.calls[i]? = some c) (hlock : c'.lock = c.lock)
    (happs : ∀ p, (w'.apps p).vaultLock = (σ.shared.apps p).vaultLock) (hlocked : w'.locked = σ.shared.locked)
    (hhandles : w'.handles = σ.shared.handles) (hkept : ∀ loc, σ.Needs i loc → σ.shared.disk.Kept w'.disk loc) :
    (∀ x lock, (σ.after i w' c').held x = some lock → Live w' lock ∧ lock.handle < w'.handles) ∧
      ∀ x y lock lock', (σ.after i w' c').held x = some lock → (σ.after i w' c').held y = some lock' →
        lock.handle = lock'.handle → x = y := by
  have hheld : ∀ x, (σ.after i w' c').held x = σ.held x := by
    intro x
    cases x with
    | app p => exact happs p
    | call j =>
      by_cases hij : i = j
      · subst hij
        simp only [Sys.held, after_self hi, hi, Option.bind_some, hlock]
      · simp only [Sys.held, after_other hij]
  refine ⟨fun x lock hx => ?_, fun x y lock lock' hx hy => ?_⟩
  · rw [hheld] at hx
    obtain ⟨hlive, hhandle⟩ := h.live x lock hx
    exact ⟨⟨hlocked ▸ hlive.held, (hkept _ (.inl ⟨_, rfl⟩)).file _ hlive.file⟩, hhandles ▸ hhandle⟩
  · rw [hheld] at hx hy
    exact h.unique x y lock lock' hx hy

theorem Inv.check (h : Inv σ) (hi : σ.calls[i]? = some c) (hphase : c.phase = .checking) {disk : Disk}
    (hkept : ∀ loc, σ.shared.disk.Kept disk loc) (hproc : c'.proc = c.proc) (hlock : c'.lock = c.lock)
    (hwriting : c'.writing = false) (hcall : CallInv { σ.shared with disk } c') :
    Inv (σ.after i { σ.shared with disk } c') := by
  obtain ⟨hlive, hunique⟩ := h.same_locks { σ.shared with disk } c' hi hlock (fun _ => rfl) rfl rfl fun loc _ => hkept loc
  have hc : c.writing = false := by simp [Call.writing, hphase]
  refine h.update hi hproc hlive hunique (fun _ _ => rfl) (.inr (.inr rfl)) ?_ (fun loc _ => hkept loc)
    (fun _ => .refl _) hcall ?_ ?_
  · rw [hwriting]
    exact fun h => nomatch h
  · intro k hk
    obtain ⟨lock, hl, hname⟩ := h.db _ k hk
    exact ⟨lock, hl, (hkept _).onlyName _ hname⟩
  · rw [hc]
    exact fun h => nomatch h

theorem Inv.fail (h : Inv σ) (hi : σ.calls[i]? = some c) (hlock : c.lock = none)
    (hsink : c.phase = .tearing → .takeSink ∉ c.todo) : Inv (σ.after i σ.shared c.fail) := by
  have hfail : c.fail.proc = c.proc ∧ c.fail.lock = c.lock := by
    unfold Call.fail
    split <;> exact ⟨rfl, rfl⟩
  obtain ⟨hproc, hlock'⟩ := hfail
  obtain ⟨hlive, hunique⟩ := h.same_locks σ.shared c.fail hi hlock' (fun _ => rfl) rfl rfl fun _ _ => .refl _ _
  have hcall := h.calls i c hi
  refine h.update hi hproc hlive hunique (fun _ _ => rfl) (.inr (.inr rfl)) ?_ (fun _ _ => .refl _ _)
    (fun _ => .refl _) ?_ (fun k hk => h.db _ k hk) ?_
  · intro hw
    by_cases hm : c.phase = .mounting
    · exact .inl (by simp [Call.writing, hm])
    · simp [Call.fail, hm, Call.writing] at hw
  · by_cases hm : c.phase = .mounting
    · obtain ⟨lock, hmount⟩ := hcall.mounting hm
      rw [Call.fail, if_pos hm]
      exact .of_tearing hcall.path hlock rfl hmount.command ⟨List.suffix_refl _, fun h => absurd (by simp [closeDatabase]) h,
        fun h => absurd (by simp [closeDatabase]) h, fun _ => hmount.db⟩
    · rw [Call.fail, if_neg hm]
      exact .of_returned hcall.path hlock rfl
  · intro hw hw' k hk hs
    exfalso
    by_cases hm : c.phase = .mounting
    · simp [Call.fail, hm, Call.writing] at hw'
    · cases hc : c.phase with
      | tearing => exact hs ((hcall.tearing hc).2.sink (hsink hc))
      | closing => exact hs ((hcall.closing hc).2.sink (by simpa [Call.writing, hc] using hw))
      | mounting => exact hm hc
      | checking | returned ok => simp [Call.writing, hc] at hw

end HaexVault.Database
