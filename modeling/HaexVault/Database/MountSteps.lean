import HaexVault.Database.CheckSteps
/-!
# The steps that mount

A call that mounts opens the vault, stores the connection and sets up what belongs to it. Each of its steps keeps the
invariant (`Inv.step_mounting`).
-/

namespace HaexVault.Database

open Lib Lib.FileTree Lib.Runs

variable {σ : Sys} {w w' : World} {c c' d : Call} {i j p : Nat} {lock lock' : VaultLock} {s : Step} {rest : List Step}

theorem Mounting.write (h : Mounting w c lock) (hvault : (w'.apps c.proc).vaultLock = (w.apps c.proc).vaultLock)
    (hdb : (w'.apps c.proc).db = (w.apps c.proc).db ∨ (w'.apps c.proc).db = c.conn)
    (hhlc : (w'.apps c.proc).hlc = (w.apps c.proc).hlc ∨ ∀ k, c.conn = some k → (w'.apps c.proc).hlc = some k.file)
    (hsink : (w'.apps c.proc).criticalSink = (w.apps c.proc).criticalSink ∨
      ∀ k, c.conn = some k → (w'.apps c.proc).criticalSink = some k.file)
    (hkept : ∀ loc, w.disk.Kept w'.disk loc) (hcontent : ∀ f, (w.content f).Sub (w'.content f)) : Mounting w' c lock where
  command := h.command
  todo := h.todo
  locks := hvault.trans h.locks
  vault := h.vault
  db := by
    rcases hdb with hdb | hdb
    · rw [hdb]
      exact h.db
    · exact .inr hdb
  notYet := h.notYet
  conn := h.conn
  names k hk := by
    obtain ⟨hname, hleads⟩ := h.names k hk
    exact ⟨(hkept _).onlyName _ hname, (hkept _).leads _ (Disk.file_eq_some.1 hname.1).1 hleads⟩
  stored hs := by
    rcases hdb with hdb | hdb
    · exact hdb.trans (h.stored hs)
    · exact hdb
  hlc hi hs k hk := by
    rcases hhlc with hhlc | hhlc
    · exact hhlc.trans (h.hlc hi hs k hk)
    · exact hhlc k hk
  triggers ht hs k hk := (hcontent _).2.1 (h.triggers ht hs k hk)
  schema hs k hk := (hcontent _).1 (h.schema hs k hk)
  opened := h.opened
  sink hs k hk := by
    rcases hsink with hsink | hsink
    · exact hsink.trans (h.sink hs k hk)
    · exact hsink k hk
  identity hs k hk := (hcontent _).2.2 (h.identity hs k hk)

/-- What has to be so after a step of a call that mounts. -/
def Did (w : World) (c : Call) : Step → Prop
  | .openDb => False
  | .storeDb => (w.apps c.proc).db = c.conn
  | .initHlc => ∀ k, c.conn = some k → (w.apps c.proc).hlc = some k.file
  | .ensureTriggers => ∀ k, c.conn = some k → (w.content k.file).triggers = true
  | .initSession => ∀ k, c.conn = some k → (w.apps c.proc).hlc = some k.file ∧ (w.content k.file).triggers = true
  | .migrate => ∀ k, c.conn = some k → (w.content k.file).schema = true
  | .openSink => ∀ k, c.conn = some k → c.sink = some k.file
  | .storeSink => ∀ k, c.conn = some k → (w.apps c.proc).criticalSink = some k.file
  | .ensureIdentity => ∀ k, c.conn = some k → (w.content k.file).identity = true
  | _ => True

theorem Mounting.pop (h : Mounting w c lock) (htodo : c.todo = s :: rest) (hdid : Did w c s) :
    Mounting w { c with todo := rest } lock := by
  -- what is not on the rest of the list was not on the list, or is the step
  have hmem : ∀ {x}, x ∉ rest → x ≠ s → x ∉ c.todo := by
    intro x hx hne hin
    rw [htodo, List.mem_cons] at hin
    exact hin.elim hne hx
  have hcons : ∀ {x}, x ∈ rest → x ∈ c.todo := fun hx => htodo ▸ List.mem_cons_of_mem s hx
  exact
    { command := h.command
      todo := (List.suffix_cons s rest).trans (htodo ▸ h.todo)
      locks := h.locks
      vault := h.vault
      db := h.db
      notYet := fun hx => h.notYet (hcons hx)
      conn := fun hx => h.conn (hmem hx (by rintro rfl; exact hdid))
      names := h.names
      stored := fun hx => by
        by_cases hs : .storeDb = s
        · subst hs
          exact hdid
        · exact h.stored (hmem hx hs)
      hlc := fun hx hx' k hk => by
        by_cases hs : .initHlc = s
        · subst hs
          exact hdid k hk
        · by_cases hs' : .initSession = s
          · subst hs'
            exact (hdid k hk).1
          · exact h.hlc (hmem hx hs) (hmem hx' hs') k hk
      triggers := fun hx hx' k hk => by
        by_cases hs : .ensureTriggers = s
        · subst hs
          exact hdid k hk
        · by_cases hs' : .initSession = s
          · subst hs'
            exact (hdid k hk).2
          · exact h.triggers (hmem hx hs) (hmem hx' hs') k hk
      schema := fun hx k hk => by
        by_cases hs : .migrate = s
        · subst hs
          exact hdid k hk
        · exact h.schema (hmem hx hs) k hk
      opened := fun hx k hk => by
        by_cases hs : .openSink = s
        · subst hs
          exact hdid k hk
        · exact h.opened (hmem hx hs) k hk
      sink := fun hx k hk => by
        by_cases hs : .storeSink = s
        · subst hs
          exact hdid k hk
        · exact h.sink (hmem hx hs) k hk
      identity := fun hx k hk => by
        by_cases hs : .ensureIdentity = s
        · subst hs
          exact hdid k hk
        · exact h.identity (hmem hx hs) k hk }

theorem Mounting.opens (h : Mounting w c lock) (htodo : c.todo = .openDb :: rest) {k : Conn}
    (hname : w.disk.OnlyName lock.vaultPath k.file) (hleads : w.disk.tree.canonicalize c.path = .ok lock.vaultPath) {n : Nat} :
    Mounting { w with conns := n } { c with conn := some k, todo := rest } lock := by
  obtain ⟨hopen, hrest, hrest'⟩ := openDb_order c.command h.command _ ((List.mem_tails _ _).2 (htodo ▸ h.todo)) rfl
  have hdb : (w.apps c.proc).db = none := by
    rcases h.db with hdb | hdb
    · exact hdb
    · exact hdb.trans (h.notYet (htodo ▸ List.mem_cons_self))
  exact
    { command := h.command
      todo := (List.suffix_cons _ rest).trans (htodo ▸ h.todo)
      locks := h.locks
      vault := h.vault
      db := .inl hdb
      notYet := fun hn => absurd hn hopen
      conn := fun _ => by simp
      names := by
        rintro k' hk
        obtain rfl : k = k' := Option.some.inj hk
        exact ⟨hname, hleads⟩
      stored := fun hn => absurd (hrest .storeDb (by simp)) hn
      hlc := fun hn hn' => absurd (hrest' .initHlc (by simp)) (not_or_intro hn hn')
      triggers := fun hn hn' => absurd (hrest' .ensureTriggers (by simp)) (not_or_intro hn hn')
      schema := fun hn => absurd (hrest .migrate (by simp)) hn
      opened := fun hn => absurd (hrest .openSink (by simp)) hn
      sink := fun hn => absurd (hrest .storeSink (by simp)) hn
      identity := fun hn => absurd (hrest .ensureIdentity (by simp)) hn }

theorem VaultName.entry {path : List Comp} (h : VaultName path) {t : FileTree} {entry : Loc} (hentry : t.entryLoc path = some entry) :
    ∃ dir n, entry = dir ++ [n] ∧ n.toList.getLast? = some 'b' := by
  obtain ⟨up, n, rfl, hn⟩ := h
  rw [entryLoc_name] at hentry
  obtain ⟨dir, -, rfl⟩ := Option.map_eq_some_iff.1 hentry
  exact ⟨dir, n, rfl, hn⟩

theorem lockPathFor_ne {dir : Loc} {n : String} (hn : n.toList.getLast? = some 'b') (vault : Loc) :
    lockPathFor vault ≠ dir ++ [n] := by
  intro heq
  have hname := (List.append_inj' heq rfl).2
  have hlast : ∀ x : String, (x ++ ".lock").toList.getLast? = some 'k' := by
    intro x
    rw [String.toList_append]
    exact List.getLast?_append_of_ne_nil _ (by simp)
  rw [← (List.cons.inj hname).1, hlast] at hn
  exact absurd hn (by decide)

theorem Inv.remove_kept (h : Inv σ) (hi : σ.calls[i]? = some c) (hphase : c.phase = .mounting)
    (htodo : c.todo = .removeFile :: rest) (hmount : Mounting σ.shared c lock)
    (horderly : ∀ entry, σ.shared.disk.tree.entryLoc c.path = some entry →
      c.vault = some entry ∧ σ.shared.disk.tree.node entry = some .file) {loc : Loc} (hneeds : σ.Needs i loc) :
    σ.shared.disk.Kept (σ.shared.disk.remove c.path) loc := by
  have hcreate : c.command = .create := by
    have hmem : Step.removeFile ∈ c.command.inner := hmount.todo.subset (htodo ▸ List.mem_cons_self)
    cases hc : c.command with
    | create => rfl
    | opens | close =>
      rw [hc] at hmem
      exact absurd hmem (by decide)
  have hconn : c.conn = none :=
    hmount.notYet ((inner_order c.command hmount.command _ ((List.mem_tails _ _).2 hmount.todo)).1 (by simp [htodo]))
  have hdb : (σ.shared.apps c.proc).db = none := by
    rcases hmount.db with hdb | hdb
    · exact hdb
    · exact hdb.trans hconn
  cases hentry : σ.shared.disk.tree.entryLoc c.path with
  | none =>
    rw [Disk.remove_none hentry]
    exact .refl _ _
  | some entry =>
    obtain ⟨hvault, hfile⟩ := horderly entry hentry
    have hown : lock.vaultPath = entry := Option.some.inj (hmount.vault.symm.trans hvault)
    refine Disk.remove_kept hentry hfile ?_
    rcases hneeds with ⟨vault, rfl⟩ | ⟨p, k, lock', hk, hlock', rfl⟩ | ⟨j, d, lock', hj, hd, hmounting, hlock', rfl⟩
    · obtain ⟨dir, n, rfl, hn⟩ := ((h.calls i c hi).path hcreate).entry hentry
      exact lockPathFor_ne hn vault
    · intro heq
      have hsame := h.same_vault (x := .app p) (y := .app c.proc) hlock' hmount.locks (heq.trans hown.symm)
      rw [Holder.app.inj hsame, hdb] at hk
      cases hk
    · intro heq
      have hsame := h.same_vault (x := .app d.proc) (y := .app c.proc) hlock' hmount.locks (heq.trans hown.symm)
      exact hj (h.writers j i d c hd hi (by simp [Call.writing, hmounting]) (by simp [Call.writing, hphase])
        (Holder.app.inj hsame))

theorem Inv.removed (h : Inv σ) (hi : σ.calls[i]? = some c) (hphase : c.phase = .mounting)
    (htodo : c.todo = .removeFile :: rest) (hmount : Mounting σ.shared c lock)
    (hkept : ∀ loc, σ.Needs i loc → σ.shared.disk.Kept (σ.shared.disk.remove c.path) loc) :
    Inv (σ.after i { σ.shared with disk := σ.shared.disk.remove c.path } c.fail) := by
  have hcall := h.calls i c hi
  have hnone : c.lock = none := hcall.lock (by simp [hphase])
  have hconn : c.conn = none :=
    hmount.notYet ((inner_order c.command hmount.command _ ((List.mem_tails _ _).2 hmount.todo)).1 (by simp [htodo]))
  have hwriting : c.writing = true := by simp [Call.writing, hphase]
  obtain ⟨hlive, hunique⟩ := h.same_locks { σ.shared with disk := σ.shared.disk.remove c.path } c hi rfl
    (fun _ => rfl) rfl rfl hkept
  have hafter := h.update hi rfl hlive hunique (fun _ _ => rfl) (.inl hwriting) (fun _ => .inl hwriting) hkept
    (fun _ => .refl _)
    (.of_mounting hcall.path hnone hphase (hmount.beside rfl (fun k hk => by cases hconn.symm.trans hk)
      fun _ => .refl _))
    (fun k hk => by
      rcases hmount.db with hdb | hdb
      · cases hdb.symm.trans hk
      · cases (hdb.trans hconn).symm.trans hk)
    (fun _ hb => by cases hwriting.symm.trans hb)
  have hfail := hafter.fail (after_self hi) hnone (by simp [hphase])
  rwa [after_after] at hfail

theorem setContent_self {f : Nat} {g : Content → Content} : (w.setContent f g).content f = g (w.content f) := by
  simp [World.setContent]

theorem setContent_sub {f : Nat} {g : Content → Content} (hg : ∀ x : Content, x.Sub (g x)) (f' : Nat) :
    (w.content f').Sub ((w.setContent f g).content f') := by
  by_cases hf : f' = f
  · subst hf
    rw [setContent_self]
    exact hg _
  · rw [show (w.setContent f g).content f' = w.content f' from Function.update_of_ne hf ..]
    exact .refl _

theorem Mounting.conn_of_db (h : Mounting w c lock) {k : Conn} (hk : (w.apps c.proc).db = some k) : c.conn = some k := by
  rcases h.db with hdb | hdb
  · rw [hk] at hdb
    cases hdb
  · exact hdb.symm.trans hk

theorem Inv.step_mounting (h : Inv σ) (hi : σ.calls[i]? = some c) (hphase : c.phase = .mounting) (htodo : c.todo = s :: rest)
    (a : Answer) (horderly : c.orderly σ a) : Inv (σ.settled i rest (s.run σ.shared c a)) := by
  have hcall := h.calls i c hi
  obtain ⟨lock, hmount⟩ := hcall.mounting hphase
  have hnone : c.lock = none := hcall.lock (by simp [hphase])
  have hs : s ∈ createInner ∨ s ∈ openInner := by
    have hmem : s ∈ c.command.inner := hmount.todo.subset (htodo ▸ List.mem_cons_self)
    cases hc : c.command with
    | create =>
      rw [hc] at hmem
      exact .inl hmem
    | opens =>
      rw [hc] at hmem
      exact .inr hmem
    | close => exact absurd hc hmount.command
  have hsame : ∀ loc, σ.shared.disk.Kept σ.shared.disk loc := fun loc => .refl _ loc
  have herr : Inv (σ.settled i rest (σ.shared, c, .err)) := h.fail hi hnone (by simp [hphase])
  -- a step that changes the world, but neither locks nor another process
  have hwrite : ∀ w', (∀ p, p ≠ c.proc → w'.apps p = σ.shared.apps p) → w'.locked = σ.shared.locked →
      w'.handles = σ.shared.handles → (∀ loc, σ.shared.disk.Kept w'.disk loc) →
      (∀ f, (σ.shared.content f).Sub (w'.content f)) → Mounting w' c lock → Did w' c s →
      Inv (σ.settled i rest (w', c, .on)) :=
    fun w' happs hlocked hhandles hkept hcontent hm hdid => h.mount hi hphase rfl rfl rfl hphase hnone happs hlocked hhandles
      (fun loc _ => hkept loc) hcontent hmount.locks (hm.pop htodo hdid)
  have hon : Did σ.shared c s → Inv (σ.settled i rest (σ.shared, c, .on)) :=
    hwrite _ (fun _ _ => rfl) rfl rfl hsame (fun _ => .refl _) hmount
  have happ : ∀ f : AppState → AppState, Mounting (σ.shared.setApp c.proc f) c lock → Did (σ.shared.setApp c.proc f) c s →
      Inv (σ.settled i rest (σ.shared.setApp c.proc f, c, .on)) :=
    fun f => hwrite _ (fun p hp => setApp_other hp) rfl rfl hsame fun _ => .refl _
  -- a section on a database writes what makes it a vault
  have hcontent : ∀ (k : Conn) (g : Content → Content), (∀ x : Content, x.Sub (g x)) →
      (∀ x w, w.content k.file = g x → Did w c s) → Inv (σ.settled i rest (σ.shared.setContent k.file g, c, .on)) :=
    fun k g hg hdid => hwrite _ (fun _ _ => rfl) rfl rfl hsame (setContent_sub hg)
      (hmount.beside rfl (fun _ _ => .refl _ _) (setContent_sub hg)) (hdid _ _ setContent_self)
  cases s with
  | setKey | initFile | cloneHlc | cloneContext =>
    simp only [Step.run]
    split
    · exact herr
    · exact hon trivial
  | createFile =>
    simp only [Step.run]
    split
    · exact herr
    · cases hcreate : σ.shared.disk.create c.path with
      | error e => exact herr
      | ok r =>
        obtain ⟨disk, loc⟩ := r
        have hkept : ∀ loc', σ.shared.disk.Kept disk loc' := Disk.create_kept hcreate
        exact hwrite { σ.shared with disk } (fun _ _ => rfl) rfl rfl hkept (fun _ => .refl _)
          (hmount.beside rfl (fun _ _ => hkept _) fun _ => .refl _) trivial
  | queryCipher =>
    have hpop := hmount.pop htodo trivial
    exact h.mount hi hphase rfl rfl rfl hphase hnone (fun _ _ => rfl) rfl rfl (fun _ _ => .refl _ _) (fun _ => .refl _)
      hmount.locks { hpop with }
  | removeFile =>
    simp only [Step.run]
    split
    · exact hon trivial
    · next hcipher =>
      split
      · exact herr
      · simp only [Call.orderly, htodo, List.head?_cons] at horderly
        exact h.removed hi hphase htodo hmount fun loc =>
          h.remove_kept hi hphase htodo hmount (horderly (by simpa using hcipher))
  | openDb =>
    simp only [Step.run]
    split
    · exact herr
    · cases hopen : σ.shared.disk.openFile c.path with
      | error e => exact herr
      | ok loc =>
        simp only [Call.orderly, htodo, List.head?_cons] at horderly
        obtain ⟨hvault, honly⟩ := horderly loc hopen
        obtain ⟨hleads, hfile⟩ := Disk.openFile_ok.1 hopen
        obtain rfl : lock.vaultPath = loc := Option.some.inj (hmount.vault.symm.trans hvault)
        have hname := Disk.file_eq_some.2 ⟨hfile, rfl⟩
        exact h.mount hi hphase rfl rfl rfl hphase hnone (fun _ _ => rfl) rfl rfl (fun _ _ => .refl _ _) (fun _ => .refl _)
          hmount.locks (hmount.opens htodo ⟨hname, fun loc' hloc' => honly loc' (hloc'.trans hname.symm)⟩ hleads)
  | ensureTriggers =>
    simp only [Step.run]
    cases hconn : c.conn with
    | none => exact herr
    | some k =>
      simp only [Step.orErr]
      split
      · exact herr
      · exact hcontent k _ (fun x => ⟨id, fun _ => rfl, id⟩) fun x w hw k' hk' => by
          obtain rfl : k = k' := Option.some.inj (hconn.symm.trans hk')
          rw [hw]
  | initHlc =>
    simp only [Step.run]
    cases hconn : c.conn with
    | none => exact herr
    | some k =>
      have hhlc : ∀ k', c.conn = some k' → some k.file = some k'.file := fun k' hk' => by
        rw [Option.some.inj (hconn.symm.trans hk')]
      simp only [Step.orErr]
      split
      · exact herr
      · refine happ _ (hmount.write ?_ (.inl ?_) (.inr fun k' hk' => ?_) (.inl ?_) (fun _ => .refl _ _) fun _ => .refl _)
          fun k' hk' => ?_
        all_goals simp only [setApp_self]
        · exact hhlc k' hk'
        · exact hhlc k' hk'
  | storeDb =>
    simp only [Step.run]
    split
    · exact herr
    · refine happ _ (hmount.write ?_ (.inr ?_) (.inl ?_) (.inl ?_) (fun _ => .refl _ _) fun _ => .refl _) ?_
      all_goals simp only [setApp_self, Did]
  | migrate =>
    simp only [Step.run]
    cases hdb : (σ.shared.apps c.proc).db with
    | none => exact herr
    | some k =>
      simp only [Step.orErr]
      split
      · exact herr
      · exact hcontent k _ (fun x => ⟨fun _ => rfl, id, id⟩) fun x w hw k' hk' => by
          obtain rfl : k = k' := Option.some.inj ((hmount.conn_of_db hdb).symm.trans hk')
          rw [hw]
  | openSink =>
    simp only [Step.run]
    split
    · exact herr
    · cases hcreate : σ.shared.disk.create c.path with
      | error e => exact herr
      | ok r =>
        obtain ⟨disk, loc⟩ := r
        have hkept : ∀ loc', σ.shared.disk.Kept disk loc' := Disk.create_kept hcreate
        have hgrown : Mounting { σ.shared with disk } c lock := hmount.beside rfl (fun _ _ => hkept _) fun _ => .refl _
        have hsink : Mounting { σ.shared with disk } { c with sink := disk.file loc } lock :=
          { hgrown with
            opened := fun hn => absurd (show Step.openSink ∈ c.todo from htodo ▸ List.mem_cons_self) hn }
        refine h.mount hi hphase rfl rfl rfl hphase hnone (fun _ _ => rfl) rfl rfl (fun loc _ => hkept loc) (fun _ => .refl _)
          hmount.locks (hsink.pop htodo fun k hk => ?_)
        obtain ⟨hname, hleads⟩ := hmount.names k hk
        obtain rfl := createAt_of_canonicalize hleads (Disk.create_ok hcreate)
        exact (hkept _).file _ hname.1
  | storeSink =>
    have hopened : .openSink ∉ c.todo :=
      (inner_order c.command hmount.command _ ((List.mem_tails _ _).2 hmount.todo)).2 (by simp [htodo])
    simp only [Step.run]
    split
    · exact herr
    · refine happ _ (hmount.write ?_ (.inl ?_) (.inl ?_) (.inr fun k hk => ?_) (fun _ => .refl _ _) fun _ => .refl _)
        fun k hk => ?_
      all_goals simp only [setApp_self]
      · exact hmount.opened hopened k hk
      · exact hmount.opened hopened k hk
  | initSession =>
    simp only [Step.run]
    cases hdb : (σ.shared.apps c.proc).db with
    | none => exact herr
    | some k =>
      have hhlc : ∀ k', c.conn = some k' → some k.file = some k'.file := fun k' hk' => by
        rw [Option.some.inj ((hmount.conn_of_db hdb).symm.trans hk')]
      simp only [Step.orErr]
      split
      · exact herr
      · have hsub : ∀ x : Content, x.Sub { x with triggers := true } := fun x => ⟨id, fun _ => rfl, id⟩
        refine hwrite _ (fun p hp => setApp_other hp) rfl rfl hsame (setContent_sub hsub)
          (hmount.write ?_ (.inl ?_) (.inr fun k' hk' => ?_) (.inl ?_) (fun _ => .refl _ _) (setContent_sub hsub)) fun k' hk' => ?_
        all_goals simp only [setApp_self]
        · rfl
        · rfl
        · exact hhlc k' hk'
        · rfl
        · refine ⟨hhlc k' hk', ?_⟩
          rw [← Option.some.inj (hhlc k' hk')]
          simp [World.setApp, World.setContent]
  | seedCore =>
    simp only [Step.run]
    cases hdb : (σ.shared.apps c.proc).db with
    | none => exact herr
    | some k =>
      simp only [Step.orErr]
      split
      · exact herr
      · exact hcontent k _ (fun x => ⟨id, id, id⟩) fun _ _ _ => trivial
  | ensureIdentity =>
    simp only [Step.run]
    cases hdb : (σ.shared.apps c.proc).db with
    | none => exact herr
    | some k =>
      simp only [Step.orErr]
      split
      · exact herr
      · exact hcontent k _ (fun x => ⟨id, id, fun _ => rfl⟩) fun x w hw k' hk' => by
          obtain rfl : k = k' := Option.some.inj ((hmount.conn_of_db hdb).symm.trans hk')
          rw [hw]
  | _ => exact absurd hs (by decide)

end HaexVault.Database
