import HaexVault.Database.MountSteps
/-!
# Runs of the vault commands

The steps that close keep the invariant as those of the checks and the mount do. With that it holds of every state that an
orderly run reaches (`Inv.step`, `boot_inv`).
-/

namespace HaexVault.Database

open Lib Lib.FileTree Lib.Runs

variable {σ : Sys} {w w' : World} {c c' d : Call} {i j p : Nat} {lock lock' : VaultLock} {s : Step} {rest : List Step}

/-! ## Steps that close -/

theorem close_order : ∀ t ∈ closeDatabase.tails, t ≠ [] →
    (t.head? ≠ some .takeSink → .takeSink ∉ t) ∧ .takeSink ∉ t.tail ∧ (t.head? = some .takeSink → .takeDb ∈ t.tail) ∧
    (t.head? ≠ some .takeSink → t.head? ≠ some .takeDb → .takeDb ∉ t) ∧ (t.head? ≠ some .releaseLock ↔ t.tail ≠ []) := by
  decide

theorem setApp_id : (w.setApp p fun app => app) = w := by
  simp [World.setApp]

theorem Inv.returns (h : Inv σ) (hi : σ.calls[i]? = some c) (hphase : c.phase = .tearing ∨ c.phase = .closing)
    (hwriting : c.writing = true) (hdb : (σ.shared.apps c.proc).db = none) : Inv (σ.after i σ.shared (c.goOn [])) := by
  have hcall := h.calls i c hi
  obtain ⟨hlive, hunique⟩ := h.same_locks σ.shared (c.goOn []) hi rfl (fun _ => rfl) rfl rfl
    fun _ _ => .refl _ _
  exact h.update hi rfl hlive hunique (fun _ _ => rfl) (.inl hwriting) (fun _ => .inl hwriting) (fun _ _ => .refl _ _)
    (fun _ => .refl _) (.of_returned hcall.path (hcall.lock (by rcases hphase with hp | hp <;> simp [hp])) rfl)
    (fun k hk => nomatch hdb.symm.trans hk) (fun _ _ k hk => nomatch hdb.symm.trans hk)

theorem Inv.step_ending (h : Inv σ) (hi : σ.calls[i]? = some c) (hphase : c.phase = .tearing ∨ c.phase = .closing)
    (htodo : c.todo = s :: rest) (a : Answer) (horderly : c.orderly σ a) : Inv (σ.settled i rest (s.run σ.shared c a)) := by
  have hcall := h.calls i c hi
  have hnone : c.lock = none := hcall.lock (by rcases hphase with hp | hp <;> simp [hp])
  have he : Ending σ.shared c := by
    rcases hphase with hp | hp
    · exact (hcall.tearing hp).2
    · exact (hcall.closing hp).2
  have hs : s ∈ closeDatabase := he.todo.subset (htodo ▸ List.mem_cons_self)
  have hsuffix : rest <:+ closeDatabase := (List.suffix_cons s rest).trans (htodo ▸ he.todo)
  obtain ⟨hsink, hbegun, hdbLeft, hdb, hlast⟩ := close_order _ ((List.mem_tails _ _).2 (htodo ▸ he.todo)) (List.cons_ne_nil s rest)
  simp only [List.head?_cons, List.tail_cons, ne_eq, Option.some.injEq] at hsink hbegun hdbLeft hdb hlast
  have hwriting : s ≠ .takeSink → c.writing = true := by
    intro hne
    rcases hphase with hp | hp
    · simp [Call.writing, hp]
    · simpa [Call.writing, hp, htodo] using hsink hne
  have herr : s ≠ .takeSink → Inv (σ.settled i rest (σ.shared, c, .err)) :=
    fun hne => h.fail hi hnone fun _ => htodo ▸ hsink hne
  cases s with
  | takeSink =>
    refine h.ending (f := fun app => { app with criticalSink := none }) hi hphase rfl (.inr rfl) (hlast.1 (by simp)) hbegun ?_
      ⟨hsuffix, fun _ => by simp, ?_, ?_⟩
    · rcases hphase with hp | hp
      · exact .inl (by simp [Call.writing, hp])
      · simp only [Call.orderly, htodo, List.head?_cons] at horderly
        exact .inr (horderly hp)
    · exact fun hn => absurd (hdbLeft rfl) hn
    · intro hp
      simp only [setApp_self]
      exact he.own hp
  | takeDb =>
    simp only [Step.run]
    split
    · exact herr (by simp)
    · refine h.ending (f := fun app => { app with db := none }) hi hphase rfl (.inl rfl) (hlast.1 (by simp)) hbegun
        (.inl (hwriting (by simp)))
        ⟨hsuffix, fun _ => ?_, fun _ => by simp, fun _ => .inl (by simp)⟩
      simp only [setApp_self]
      exact he.sink (htodo ▸ hsink (by simp))
  | resetHlc =>
    simp only [Step.run]
    split
    · exact herr (by simp)
    · refine h.ending (f := fun app => { app with hlc := none }) hi hphase rfl (.inr rfl) (hlast.1 (by simp)) hbegun
        (.inl (hwriting (by simp))) ⟨hsuffix, fun _ => ?_, fun _ => ?_, fun hp => ?_⟩
      all_goals simp only [setApp_self]
      · exact he.sink (htodo ▸ hsink (by simp))
      · exact he.db (htodo ▸ hdb (by simp) (by simp))
      · exact he.own hp
  | resetContext =>
    simp only [Step.run]
    split
    · exact herr (by simp)
    · have hending := h.ending (f := fun app => app) hi hphase rfl (.inr rfl) (hlast.1 (by simp)) hbegun
        (.inl (hwriting (by simp)))
      rw [setApp_id] at hending
      exact hending ⟨hsuffix, fun _ => he.sink (htodo ▸ hsink (by simp)), fun _ => he.db (htodo ▸ hdb (by simp) (by simp)),
        he.own⟩
  | releaseLock =>
    have hrest : rest = [] := not_not.1 (mt hlast.2 (by simp))
    have hclosed := he.db (htodo ▸ hdb (by simp) (by simp))
    subst hrest
    simp only [Step.run]
    split
    · exact h.returns hi hphase (hwriting (by simp)) hclosed
    · split
      · exact h.returns hi hphase (hwriting (by simp)) hclosed
      · next lock hlock => exact h.releaseLock hi hphase (hwriting (by simp)) hclosed hlock
  | _ => exact absurd hs (by decide)

/-! ## Runs -/

theorem advance_returned {ok : Bool} (hphase : c.phase = .returned ok) (a : Answer) : advance w c a = (w, c) := by
  simp only [advance, hphase]

theorem advance_nil (htodo : c.todo = []) (a : Answer) : advance w c a = (w, c) := by
  unfold advance
  rw [htodo]
  cases c.phase <;> rfl

theorem advance_cons (hphase : ∀ ok, c.phase ≠ .returned ok) (htodo : c.todo = s :: rest) (a : Answer) :
    advance w c a = settle rest (s.run w c a) := by
  unfold advance
  rw [htodo]
  cases hp : c.phase with
  | returned ok => exact absurd hp (hphase ok)
  | checking | mounting | tearing | closing => rfl

theorem Inv.resume (h : Inv σ) (hi : σ.calls[i]? = some c) (a : Answer)
    (horderly : (∀ ok, c.phase ≠ .returned ok) → c.orderly σ a) :
    Inv (σ.after i (advance σ.shared c a).1 (advance σ.shared c a).2) := by
  have hself : Inv (σ.after i σ.shared c) := by
    have hset : σ.calls.set i c = σ.calls := by
      obtain ⟨hlt, rfl⟩ := List.getElem?_eq_some_iff.1 hi
      exact List.set_getElem_self hlt
    rw [Sys.after, hset]
    exact h
  cases htodo : c.todo with
  | nil => rwa [advance_nil htodo]
  | cons s rest =>
    cases hphase : c.phase with
    | returned ok => rwa [advance_returned hphase]
    | checking =>
      rw [advance_cons (by simp [hphase]) htodo]
      exact h.step_checking hi hphase htodo a (horderly (by simp [hphase]))
    | mounting =>
      rw [advance_cons (by simp [hphase]) htodo]
      exact h.step_mounting hi hphase htodo a (horderly (by simp [hphase]))
    | tearing =>
      rw [advance_cons (by simp [hphase]) htodo]
      exact h.step_ending hi (.inl hphase) htodo a (horderly (by simp [hphase]))
    | closing =>
      rw [advance_cons (by simp [hphase]) htodo]
      exact h.step_ending hi (.inr hphase) htodo a (horderly (by simp [hphase]))

theorem splitOn_append {α : Type} [DecidableEq α] {sep : α} {ys : List α} (hys : sep ∉ ys) (xs : List α) :
    ∃ init last, (xs ++ ys).splitOn sep = init ++ [last ++ ys] := by
  induction xs with
  | nil => exact ⟨[], [], by simpa using List.splitOn_eq_singleton hys⟩
  | cons x xs ih =>
    obtain ⟨init, last, h⟩ := ih
    rw [List.cons_append, List.splitOn_cons_eq_if_modifyHead, h]
    split
    · exact ⟨[] :: init, last, rfl⟩
    · cases init with
      | nil => exact ⟨[], x :: last, rfl⟩
      | cons part init => exact ⟨(x :: part) :: init, last, rfl⟩

theorem components_db {name : String} (h : ".db".toList <:+ name.toList) :
    ∃ init n, PeerStorage.components name = init ++ [n] ∧ ".db".toList <:+ n.toList := by
  obtain ⟨xs, hxs⟩ := h
  obtain ⟨init, last, hsplit⟩ := splitOn_append (show '/' ∉ ".db".toList by decide) xs
  have hn : ∀ m : String, m.toList.length < 3 → String.ofList (last ++ ".db".toList) ≠ m := by
    intro m hm heq
    rw [← heq, String.toList_ofList, List.length_append] at hm
    exact absurd hm (by simp)
  refine ⟨(init.map String.ofList).filter fun c => c ≠ "" && c ≠ ".", String.ofList (last ++ ".db".toList), ?_, last, by simp⟩
  rw [PeerStorage.components, ← hxs, hsplit, List.map_append, List.filter_append, List.map_singleton,
    List.filter_cons_of_pos, List.filter_nil]
  rw [Bool.and_eq_true]
  exact ⟨decide_eq_true (hn "" (by decide)), decide_eq_true (hn "." (by decide))⟩

theorem getVaultPath_name (vaults : List Comp) (vaultName : String) : VaultName (getVaultPath vaults vaultName) := by
  have hdb : ".db".toList <:+ (if ".db".toList <:+ vaultName.toList then vaultName else vaultName ++ ".db").toList := by
    split
    · assumption
    · rw [String.toList_append]
      exact List.suffix_append _ _
  obtain ⟨init, n, hcomponents, xs, hn⟩ := components_db hdb
  refine ⟨vaults ++ init.map fun n => if n = ".." then .up else .name n, n, ?_, ?_⟩
  · rw [getVaultPath, hcomponents, List.map_append, List.map_singleton, if_neg, List.append_assoc]
    rintro rfl
    exact absurd hn (by
      intro heq
      have hlength := congrArg List.length heq
      rw [List.length_append] at hlength
      exact absurd hlength (by simp))
  · rw [← hn]
    exact List.getLast?_append_of_ne_nil _ (by decide)

theorem start_inv (r : Request) : CallInv w r.start ∧ r.start.lock = none ∧ r.start.writing = false := by
  cases r with
  | create proc vaults vaultName =>
    exact ⟨.of_checking (fun _ => getVaultPath_name vaults vaultName) rfl
      ⟨⟨Command.create.checks, by decide, List.suffix_refl _, rfl⟩, rfl, fun _ => rfl, fun _ => rfl,
        (fun _ h => nomatch h), (fun _ h => nomatch h)⟩, rfl, rfl⟩
  | opens proc vaultPath =>
    exact ⟨.of_checking (fun h => nomatch h) rfl
      ⟨⟨Command.opens.checks, by decide, List.suffix_refl _, rfl⟩, rfl, fun _ => rfl, fun _ => rfl,
        (fun _ h => nomatch h), (fun _ h => nomatch h)⟩, rfl, rfl⟩
  | close proc =>
    exact ⟨.of_closing (fun h => nomatch h) rfl rfl rfl
      ⟨List.suffix_refl _, fun h => absurd (by simp [Request.start, closeDatabase]) h,
        fun h => absurd (by simp [Request.start, closeDatabase]) h, fun h => nomatch h⟩, rfl,
      by simp [Call.writing, Request.start, closeDatabase]⟩

theorem Inv.start (h : Inv σ) (r : Request) : Inv { σ with calls := σ.calls ++ [r.start] } := by
  obtain ⟨hcall, hlock, hwriting⟩ := start_inv (w := σ.shared) r
  have hget : ∀ (j : Nat) d, (σ.calls ++ [r.start])[j]? = some d → σ.calls[j]? = some d ∨ d = r.start := by
    intro j d hd
    rw [List.getElem?_append] at hd
    split at hd
    · exact .inl hd
    · exact .inr (List.mem_singleton.1 (List.mem_of_getElem? hd))
  have hheld : ∀ x lock, Sys.held { σ with calls := σ.calls ++ [r.start] } x = some lock → σ.held x = some lock := by
    intro x lock hx
    cases x with
    | app p => exact hx
    | call j =>
      obtain ⟨d, hd, hl⟩ := Option.bind_eq_some_iff.1 hx
      rcases hget j d hd with hd | rfl
      · exact Option.bind_eq_some_iff.2 ⟨d, hd, hl⟩
      · rw [hlock] at hl
        cases hl
  refine ⟨fun x lock hx => h.live x lock (hheld x lock hx), fun x y lock lock' hx hy => h.unique x y lock lock'
    (hheld x lock hx) (hheld y lock' hy), h.db, ?_, ?_, ?_⟩
  · intro j₁ j₂ c d hc hd hwc hwd hp
    rcases hget j₁ c hc with hc | rfl
    · rcases hget j₂ d hd with hd | rfl
      · exact h.writers j₁ j₂ c d hc hd hwc hwd hp
      · exact nomatch hwriting.symm.trans hwd
    · exact nomatch hwriting.symm.trans hwc
  · intro j d hd
    rcases hget j d hd with hd | rfl
    · exact h.calls j d hd
    · exact hcall
  · intro p hidle
    exact h.idle p fun ⟨d, hd, hp⟩ => hidle ⟨d, List.mem_append_left _ hd, hp⟩

theorem Inv.step (h : Inv σ) {e : Event} (horderly : Orderly σ e) : Inv (machine.step σ e) := by
  cases e with
  | start r => exact h.start r
  | outside e => cases e
  | resume i a =>
    cases hi : σ.calls[i]? with
    | none => rwa [Calls.step_resume_none hi]
    | some c =>
      rw [Calls.step_resume hi]
      exact h.resume hi a (horderly c hi)

theorem boot_inv (disk : Disk) (content : Nat → Content) : Inv (Sys.boot disk content) where
  live x lock hx := by cases x <;> simp [Sys.held, Sys.boot] at hx
  unique x y lock lock' hx := by cases x <;> simp [Sys.held, Sys.boot] at hx
  db p k hk := nomatch hk
  writers i j c d hc := by simp [Sys.boot] at hc
  calls i c hc := by simp [Sys.boot] at hc
  idle p _ k hk := nomatch hk

end HaexVault.Database
