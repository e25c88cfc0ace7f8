import HaexVault.FileSync.Deletions
import Mathlib.Data.List.TakeWhile
/-!
# The conflict phase (`file_sync/engine.rs`)

The target's version is written under a conflict name, then the source's version at the path. Either
write can fail, and what is left at its path is then anything. Nobody looks whether the conflict name
is free (`conflicts_lose_nothing_iff`).
-/

namespace HaexVault.FileSync

open HaexVault.Lib.Runs

/-! ## Conflict names -/

theorem lastDot_inj {l l' r r' : List Char} (h : l ++ '.' :: r = l' ++ '.' :: r') (hr : '.' ∉ r) (hr' : '.' ∉ r') :
    l = l' ∧ r = r' := by
  rcases List.append_eq_append_iff.1 h with ⟨m, hl, hm⟩ | ⟨m, hl, hm⟩
  · cases m with
    | nil => exact ⟨by simpa using hl.symm, by simpa using hm⟩
    | cons a m =>
      rw [List.cons_append, List.cons.injEq] at hm
      exact absurd (hm.2 ▸ List.mem_append_right m List.mem_cons_self) hr
  · cases m with
    | nil => exact ⟨by simpa using hl, by simpa using hm.symm⟩
    | cons a m =>
      rw [List.cons_append, List.cons.injEq] at hm
      exact absurd (hm.2 ▸ List.mem_append_right m List.mem_cons_self) hr'

theorem dot_notMem_toDigits (n : Nat) : '.' ∉ Nat.toDigits 10 n := by
  intro h
  have hdigit := Nat.isDigit_of_mem_toDigits (by omega) (by omega) h
  revert hdigit
  decide

theorem splitExtension_text (name : String) :
    name.toList = (splitExtension name).1.toList ++ ((splitExtension name).2.map fun e => '.' :: e.toList).getD [] ∧
      ∀ e ∈ (splitExtension name).2, '.' ∉ e.toList := by
  unfold splitExtension
  dsimp only
  split
  · simp
  · rename_i hstem
    have hname : name.toList = name.toList.reverse.reverse := (List.reverse_reverse _).symm
    generalize name.toList.reverse = reversed at hstem hname ⊢
    have hno : '.' ∉ reversed.takeWhile (· ≠ '.') := by
      intro h
      simpa using List.mem_takeWhile_imp h
    have hsplit := List.takeWhile_append_dropWhile (p := (· ≠ '.')) (l := reversed)
    have hdot := List.head?_dropWhile_not (· ≠ '.') reversed
    generalize reversed.takeWhile (· ≠ '.') = extension at hno hsplit ⊢
    generalize reversed.dropWhile (· ≠ '.') = rest at hstem hsplit hdot ⊢
    cases rest with
    | nil => exact absurd (.inl rfl) hstem
    | cons c rest =>
      have hc : c = '.' := by simpa using hdot
      subst hc hsplit
      refine ⟨by simp [hname], ?_⟩
      rintro e ⟨⟩
      simpa using hno

def conflictName (name : String) (timestamp : Nat) : String :=
  (splitExtension name).1 ++ ".conflict." ++ toString timestamp ++ ((splitExtension name).2.map fun e => "." ++ e).getD ""

theorem makeConflictPath_eq (p : Path) (timestamp : Nat) :
    makeConflictPath p timestamp = p.dropLast ++ [conflictName (p.getLastD "") timestamp] := by
  rw [makeConflictPath, conflictName]

theorem conflictName_text (name : String) (n : Nat) : (conflictName name n).toList =
    (splitExtension name).1.toList ++ ".conflict".toList ++ '.' :: Nat.toDigits 10 n ++
      ((splitExtension name).2.map fun e => '.' :: e.toList).getD [] := by
  unfold conflictName
  cases (splitExtension name).2 <;> simp [toString, Nat.repr]

theorem conflictName_inj {a b : String} {n m : Nat} (h : conflictName a n = conflictName b m) : a = b := by
  have h := congrArg String.toList h
  rw [conflictName_text, conflictName_text] at h
  obtain ⟨ha, hda⟩ := splitExtension_text a
  obtain ⟨hb, hdb⟩ := splitExtension_text b
  rw [← String.toList_inj, ha, hb]
  generalize (splitExtension a).1 = s at *
  generalize (splitExtension b).1 = t at *
  -- the conflict mark is no number
  have hmark : ∀ (l l' : List Char) (k : Nat), l ++ ".conflict".toList ≠ l' ++ '.' :: Nat.toDigits 10 k := by
    intro l l' k he
    have hlast := congrArg List.getLast? he
    obtain ⟨c, hc⟩ : ∃ c, (Nat.toDigits 10 k).getLast? = some c :=
      ⟨_, List.getLast?_eq_some_getLast Nat.toDigits_ne_nil⟩
    have hdigit := Nat.isDigit_of_mem_toDigits (b := 10) (by omega) (by omega) (List.mem_of_getLast? hc)
    have : c = 't' := by
      rw [List.getLast?_append, List.getLast?_append, List.getLast?_cons, hc] at hlast
      simpa using hlast.symm
    subst this
    revert hdigit
    decide
  cases hea : (splitExtension a).2 with
  | none =>
    cases heb : (splitExtension b).2 with
    | none =>
      simp only [hea, heb, Option.map_none, Option.getD_none, List.append_nil] at h ⊢
      have := (lastDot_inj h (dot_notMem_toDigits n) (dot_notMem_toDigits m)).1
      exact List.append_cancel_right this
    | some f =>
      simp only [hea, heb, Option.map_none, Option.getD_none, List.append_nil, Option.map_some, Option.getD_some] at h
      have := (lastDot_inj h (dot_notMem_toDigits n) (hdb f heb)).1
      exact absurd this (hmark _ _ _)
  | some e =>
    cases heb : (splitExtension b).2 with
    | none =>
      simp only [hea, heb, Option.map_none, Option.getD_none, List.append_nil, Option.map_some, Option.getD_some] at h
      have := (lastDot_inj h (hda e hea) (dot_notMem_toDigits m)).1
      exact absurd this.symm (hmark _ _ _)
    | some f =>
      simp only [hea, heb, Option.map_some, Option.getD_some] at h ⊢
      obtain ⟨h, hef⟩ := lastDot_inj h (hda e hea) (hdb f heb)
      have := (lastDot_inj h (dot_notMem_toDigits n) (dot_notMem_toDigits m)).1
      rw [List.append_cancel_right this, hef]

theorem makeConflictPath_inj {p q : Path} {n m : Nat} (hp : p ≠ []) (hq : q ≠ [])
    (h : makeConflictPath p n = makeConflictPath q m) : p = q := by
  rw [makeConflictPath_eq, makeConflictPath_eq] at h
  obtain ⟨hdir, hname⟩ := List.append_inj' h (by simp only [List.length_singleton])
  rw [List.singleton_inj] at hname
  have hlast := conflictName_inj hname
  have hsplit : ∀ {r : Path}, r ≠ [] → r = r.dropLast ++ [r.getLastD ""] := by
    intro r hr
    rw [List.getLastD_eq_getLast?, List.getLast?_eq_some_getLast hr, Option.getD_some, List.dropLast_append_getLast hr]
  rw [hsplit hp, hsplit hq, hdir, hlast]

/-! ## What a phase keeps -/

variable {ks kt : ProviderKind}

def SyncConflict.conflictPath (c : SyncConflict) (env : Env) : Path :=
  makeConflictPath c.relativePath (env.conflictTime c.relativePath)

def resolveConflicts (env : Env) (s : SyncState ks kt) (conflicts : List SyncConflict) : SyncState ks kt :=
  run (step env) s (conflicts.map .conflict)

def Resolves (env : Env) (s : SyncState ks kt) (c : SyncConflict) : Prop :=
  (resolveConflict env s c).result.conflictsResolved = s.result.conflictsResolved + 1

/-- Nothing is lost in the conflict phase. -/
structure LosesNothing (env : Env) (conflicts : List SyncConflict) (s : SyncState ks kt) : Prop where
  kept : ∀ c ∈ conflicts, ∀ bytes, s.target.contentAt c.relativePath = some bytes →
    (resolveConflicts env s conflicts).target.contentAt c.relativePath = some bytes ∨
      (resolveConflicts env s conflicts).target.contentAt (c.conflictPath env) = some bytes
  resolved : ∀ before c after, conflicts = before ++ c :: after → Resolves env (resolveConflicts env s before) c →
    ∃ bytes, s.source.contentAt c.relativePath = some bytes ∧
      (resolveConflicts env s conflicts).source.contentAt c.relativePath = some bytes ∧
      (resolveConflicts env s conflicts).target.contentAt c.relativePath = some bytes
  others : ∀ p bytes, s.target.contentAt p = some bytes → (∀ c ∈ conflicts, c.relativePath ≠ p) →
    (resolveConflicts env s conflicts).target.contentAt p = some bytes
  names : ∀ c ∈ conflicts, ∀ c' ∈ conflicts, c.relativePath ≠ c'.relativePath → c.conflictPath env ≠ c'.conflictPath env

/-- The conflicts of a plan at the start of the phase: one a path, and the target has something there. -/
structure ConflictsOf (t : Tree kt) (conflicts : List SyncConflict) : Prop where
  nodup : (conflicts.map SyncConflict.relativePath).Nodup
  present : ∀ c ∈ conflicts, t.lookup c.relativePath ≠ none

/-! ## One write -/

def Tree.Touched (t : Tree kt) (p : Path) (t' : Tree kt) : Prop :=
  t' = t ∨ t' = t.unstage p ∨ ∃ bytes now, t.write p bytes now = some t'

section Touched
variable {t t' : Tree kt} {p q : Path} {bytes : Bytes}

theorem Tree.Touched.fileAt (h : t.Touched p t') (hq : q ≠ p) (hs : ¬ Tree.Stages kt p q) : t'.fileAt q = t.fileAt q := by
  rcases h with rfl | rfl | ⟨bytes, now, h⟩
  · rfl
  · exact fileAt_unstage hs
  · refine fileAt_edit (e := .write p bytes now) h ?_ (.inr fun h => hs (stages_write.1 h))
    rintro ⟨bytes', now', he⟩
    cases he
    exact hq rfl

theorem Tree.Touched.contentAt (h : t.Touched p t') (hq : q ≠ p) (hs : ¬ Tree.Stages kt p q) :
    t'.contentAt q = t.contentAt q := by
  rw [Tree.contentAt, Tree.contentAt, h.fileAt hq hs]

theorem Tree.Touched.isDir_iff (h : t.Touched p t') (hp : t.isDir q ∨ q ∉ needs kt (parents p)) : t'.isDir q ↔ t.isDir q := by
  rcases h with rfl | rfl | ⟨bytes, now, h⟩
  · rfl
  · exact isDir_unstage
  · rw [isDir_edit (e := .write p bytes now) h]
    exact or_iff_left_of_imp fun hmem => hp.resolve_right fun hno => hno hmem

theorem Tree.Touched.isDir (h : t.Touched p t') (hq : t.isDir q) : t'.isDir q := (h.isDir_iff (.inl hq)).2 hq

theorem Tree.contentAt_of_isDir (h : t.isDir p) : t.contentAt p = none := by rw [contentAt, fileAt_of_isDir h, Option.map_none]

theorem Tree.isDir_of_content (hp : t.lookup p ≠ none) (h : t.contentAt p = none) : t.isDir p := by
  rw [contentAt, Option.map_eq_none_iff, fileAt_eq_none] at h
  exact h.resolve_left hp

theorem Tree.contentAt_write {now : Nat} (h : t.write p bytes now = some t') : t'.contentAt p = some bytes := by
  obtain ⟨-, -, -, hlookup⟩ := write_spec h
  rw [contentAt, fileAt_eq_some (f := (bytes, now)) |>.2 ((hlookup p).trans (if_pos rfl)), Option.map_some]

theorem Tree.Touched.content_ne_none (h : t.Touched p t') (hs : ¬ Tree.Stages kt p q) (hq : t.contentAt q ≠ none) :
    t'.contentAt q ≠ none := by
  by_cases he : q = p
  · subst he
    rcases h with rfl | rfl | ⟨bytes, now, h⟩
    · exact hq
    · rwa [Tree.contentAt, fileAt_unstage hs]
    · rw [contentAt_write h]
      exact Option.some_ne_none bytes
  · rwa [h.contentAt he hs]

theorem Tree.put_of_content {bytes' : Bytes} (h : t.contentAt p = some bytes) (now : Nat) : ∃ t', t.put p bytes' now = some t' := by
  obtain ⟨⟨_, modifiedAt⟩, hf, rfl⟩ := Option.map_eq_some_iff.1 h
  have hlookup := fileAt_eq_some.1 hf
  unfold put
  have hp : p ≠ [] := by
    rintro rfl
    rw [lookup, t.root] at hlookup
    cases hlookup
  rw [dif_pos ⟨hp, plain_of_lookup hlookup⟩]
  split
  · rename_i hk
    rw [dif_pos]
    · exact ⟨_, rfl⟩
    · refine ⟨fun hdir => ?_, fun q hq => fileAt_of_isDir (isDir_parents hk (by rw [hlookup]; exact Option.some_ne_none _) hq)⟩
      rw [isDir, hlookup] at hdir
      cases hdir
  · exact ⟨_, rfl⟩

theorem Tree.write_of_content {bytes' : Bytes} (hpart : kt = .peer → ¬ t.isDir (partOf p)) (h : t.contentAt p = some bytes) (now : Nat) :
    ∃ t', t.write p bytes' now = some t' := by
  have hcontent : (t.unstage p).contentAt p = some bytes := by
    rw [contentAt, fileAt_unstage fun hs => (partOf_ne p) hs.2.symm]
    exact h
  unfold write
  rw [if_neg fun hd => hpart hd.1 hd.2]
  exact put_of_content hcontent now

end Touched

/-! ## One conflict -/

section Step
variable {env : Env} {s : SyncState ks kt} {c : SyncConflict} {start : Tree kt} {source : Tree ks} {conflicts before : List SyncConflict}

theorem transfer_done {k k' : ProviderKind} {call : Call} {label : String} {src : Tree k} {p q : Path} {claimed : Option String}
    {dst : Tree k'} {n : Nat} (h : (transfer env call label src p claimed dst q).2.1 = some n) :
    ∃ bytes, src.read p = some bytes ∧ dst.write q bytes (env.writtenAt q) = some (transfer env call label src p claimed dst q).1 := by
  unfold transfer at h ⊢
  cases hcall : env.outcome call with
  | failed message left => simp [hcall] at h
  | unrecorded message | ok =>
    simp only [hcall] at h ⊢
    grind

theorem resolveConflict_cases (env : Env) (s : SyncState ks kt) (c : SyncConflict) :
    (resolveConflict env s c).source = s.source ∧
      ((¬ Resolves env s c ∧ s.target.Touched (c.conflictPath env) (resolveConflict env s c).target) ∨
        ∃ bytes t, s.target.contentAt c.relativePath = some bytes ∧
          s.target.write (c.conflictPath env) bytes (env.writtenAt (c.conflictPath env)) = some t ∧
          ((¬ Resolves env s c ∧ t.Touched c.relativePath (resolveConflict env s c).target) ∨
            ∃ bytes' now, s.source.contentAt c.relativePath = some bytes' ∧
              t.write c.relativePath bytes' now = some (resolveConflict env s c).target)) := by
  unfold Resolves resolveConflict
  dsimp only
  split
  · rename_i n hkept
    obtain ⟨bytes, hread, hwrite⟩ := transfer_done hkept
    unfold restore
    dsimp only
    split
    · rename_i m hrestored
      obtain ⟨bytes', hread', hwrite'⟩ := transfer_done hrestored
      exact ⟨rfl, .inr ⟨bytes, _, hread, hwrite, .inr ⟨bytes', _, hread', hwrite'⟩⟩⟩
    · exact ⟨rfl, .inr ⟨bytes, _, hread, hwrite, .inl ⟨Nat.ne_add_one _, transfer_fst⟩⟩⟩
  · exact ⟨rfl, .inl ⟨Nat.ne_add_one _, transfer_fst⟩⟩

/-- A path at which a peer stages when it resolves the conflict. -/
def SyncConflict.Stages (c : SyncConflict) (kt : ProviderKind) (env : Env) (p : Path) : Prop :=
  Tree.Stages kt c.relativePath p ∨ Tree.Stages kt (c.conflictPath env) p

theorem resolveConflict_fileAt {p : Path} (hp : p ≠ c.relativePath) (hname : p ≠ c.conflictPath env)
    (hs : ¬ c.Stages kt env p) : (resolveConflict env s c).target.fileAt p = s.target.fileAt p := by
  obtain ⟨hs, hs'⟩ := not_or.1 hs
  obtain ⟨-, ⟨-, h⟩ | ⟨bytes, t, -, hwrite, ⟨-, h⟩ | ⟨bytes', now, -, h⟩⟩⟩ := resolveConflict_cases env s c
  · exact h.fileAt hname hs'
  · rw [h.fileAt hp hs, Tree.Touched.fileAt (.inr (.inr ⟨_, _, hwrite⟩)) hname hs']
  · rw [Tree.Touched.fileAt (.inr (.inr ⟨_, _, h⟩)) hp hs, Tree.Touched.fileAt (.inr (.inr ⟨_, _, hwrite⟩)) hname hs']

theorem resolveConflict_isDir {p : Path} (hp : s.target.isDir p) : (resolveConflict env s c).target.isDir p := by
  obtain ⟨-, ⟨-, h⟩ | ⟨bytes, t, -, hwrite, ⟨-, h⟩ | ⟨bytes', now, -, h⟩⟩⟩ := resolveConflict_cases env s c
  · exact h.isDir hp
  · exact h.isDir (Tree.Touched.isDir (.inr (.inr ⟨_, _, hwrite⟩)) hp)
  · exact Tree.Touched.isDir (.inr (.inr ⟨_, _, h⟩)) (Tree.Touched.isDir (.inr (.inr ⟨_, _, hwrite⟩)) hp)

/-! ## The phase -/

def FreeNames (env : Env) (t : Tree kt) (conflicts : List SyncConflict) : Prop :=
  ∀ c ∈ conflicts, t.contentAt (c.conflictPath env) = none

/-- Nothing has a name under which a peer stages, and no conflict copy gets one. -/
def StagesApart (env : Env) (t : Tree kt) (conflicts : List SyncConflict) : Prop :=
  ∀ c ∈ conflicts, ∀ p, c.Stages kt env p → t.lookup p = none ∧ ∀ c' ∈ conflicts, c'.conflictPath env ≠ p

/-- What holds after some of the conflicts. -/
structure Kept (env : Env) (s : SyncState ks kt) (done : List SyncConflict) : Prop where
  source_eq : (resolveConflicts env s done).source = s.source
  directories : ∀ p, s.target.isDir p → (resolveConflicts env s done).target.isDir p
  untouched : ∀ p bytes, s.target.contentAt p = some bytes → (∀ c ∈ done, c.relativePath ≠ p) →
    (resolveConflicts env s done).target.contentAt p = some bytes
  kept : ∀ c ∈ done, ∀ bytes, s.target.contentAt c.relativePath = some bytes →
    (resolveConflicts env s done).target.contentAt c.relativePath = some bytes ∨
      (resolveConflicts env s done).target.contentAt (c.conflictPath env) = some bytes
  resolved : ∀ before c after, done = before ++ c :: after → Resolves env (resolveConflicts env s before) c →
    s.target.contentAt c.relativePath ≠ none ∧ ∃ bytes, s.source.contentAt c.relativePath = some bytes ∧
      (resolveConflicts env s done).target.contentAt c.relativePath = some bytes

theorem resolveConflicts_append (env : Env) (s : SyncState ks kt) (done : List SyncConflict) (c : SyncConflict) :
    resolveConflicts env s (done ++ [c]) = resolveConflict env (resolveConflicts env s done) c := by
  rw [resolveConflicts, List.map_append, run_append]
  rfl

theorem kept_nil (env : Env) (s : SyncState ks kt) : Kept env s [] :=
  { source_eq := rfl
    directories := fun _ h => h
    untouched := fun _ _ h _ => h
    kept := fun _ h => absurd h List.not_mem_nil
    resolved := by simp }

/-- One more conflict. -/
theorem Kept.step {done : List SyncConflict} (h : Kept env s done) (hof : ConflictsOf s.target (done ++ [c]))
    (hapart : StagesApart env s.target (done ++ [c])) (hfree : FreeNames env s.target (done ++ [c])) :
    Kept env s (done ++ [c]) := by
  have hc : c ∈ done ++ [c] := List.mem_append_right _ List.mem_cons_self
  have hnew : ∀ c' ∈ done, c'.relativePath ≠ c.relativePath := by
    have hnodup := hof.nodup
    rw [List.map_append, List.nodup_append] at hnodup
    exact fun c' hc' => hnodup.2.2 _ (List.mem_map_of_mem hc') _ (List.mem_map_of_mem List.mem_cons_self)
  have hname : ∀ p, s.target.contentAt p ≠ none → p ≠ c.conflictPath env := by
    rintro p hp rfl
    exact hp (hfree c hc)
  -- what the target cannot give at the start it cannot give now
  have hdir : ∀ c' ∈ done ++ [c], s.target.contentAt c'.relativePath = none →
      (resolveConflicts env s done).target.contentAt c'.relativePath = none := fun c' hc' hnone =>
    Tree.contentAt_of_isDir (h.directories _ (Tree.isDir_of_content (hof.present c' hc') hnone))
  have hpath : ∀ c' ∈ done ++ [c], c'.relativePath ≠ [] := by
    intro c' hc' hnil
    exact hof.present c' hc' (hnil ▸ s.target.root)
  have hkept : ∀ p, s.target.contentAt p ≠ none → ¬ c.Stages kt env p := fun p hp hs =>
    hp (Tree.contentAt_eq_none.2 (Tree.fileAt_eq_none.2 (.inl (hapart c hc p hs).1)))
  have hcopy : ∀ c' ∈ done ++ [c], ¬ c.Stages kt env (c'.conflictPath env) := fun c' hc' hs => (hapart c hc _ hs).2 c' hc' rfl
  have hframe : ∀ p, p ≠ c.relativePath → p ≠ c.conflictPath env → ¬ c.Stages kt env p →
      (resolveConflict env (resolveConflicts env s done) c).target.contentAt p =
        (resolveConflicts env s done).target.contentAt p := by
    intro p hp hn hs
    rw [Tree.contentAt, Tree.contentAt, resolveConflict_fileAt hp hn hs]
  obtain ⟨hsource, hcases⟩ := resolveConflict_cases env (resolveConflicts env s done) c
  refine ⟨?_, ?_, ?_, ?_, ?_⟩
  · rw [resolveConflicts_append, hsource, h.source_eq]
  · intro p hp
    rw [resolveConflicts_append]
    exact resolveConflict_isDir (h.directories p hp)
  · intro p bytes hp hothers
    rw [resolveConflicts_append, hframe p (hothers c hc).symm (hname p (by simp [hp])) (hkept p (by simp [hp]))]
    exact h.untouched p bytes hp fun c' hc' => hothers c' (List.mem_append_left _ hc')
  · intro c' hc' bytes hbytes
    rw [resolveConflicts_append]
    rcases List.mem_append.1 hc' with hold | hlast
    · rcases h.kept c' hold bytes hbytes with hown | hsaved
      · left
        rw [hframe _ (hnew c' hold) (hname _ (by simp [hbytes])) (hkept _ (by simp [hbytes])), hown]
      · right
        rw [hframe _ ?_ ?_ (hcopy c' hc'), hsaved]
        · intro he
          have hnone := hdir c hc (he ▸ hfree c' hc')
          rw [← he, hsaved] at hnone
          cases hnone
        · exact fun he => hnew c' hold (makeConflictPath_inj (hpath c' hc') (hpath c hc) he)
    · obtain rfl := List.mem_singleton.1 hlast
      have hnow := h.untouched _ bytes hbytes hnew
      have hne := hname c'.relativePath (by simp [hbytes])
      rcases hcases with ⟨-, htouched⟩ | ⟨bytes', t, hread, hwrite, hrestored⟩
      · left
        rw [htouched.contentAt hne fun hs => hkept _ (by simp [hbytes]) (.inr hs), hnow]
      · right
        cases hnow.symm.trans hread
        have htouched : t.Touched c'.relativePath (resolveConflict env (resolveConflicts env s done) c').target := by
          rcases hrestored with ⟨-, htouched⟩ | ⟨bytes', now, -, hwrite'⟩
          · exact htouched
          · exact .inr (.inr ⟨bytes', now, hwrite'⟩)
        rw [htouched.contentAt hne.symm fun hs => hcopy c' hc' (.inl hs), Tree.contentAt_write hwrite]
  · intro before c' after hsplit hresolves
    rw [resolveConflicts_append]
    rcases List.eq_nil_or_concat after with rfl | ⟨after, last, rfl⟩
    · obtain ⟨rfl, hlast⟩ := List.append_inj' hsplit rfl
      cases hlast
      rcases hcases with ⟨hno, -⟩ | ⟨bytes, t, hread, -, ⟨hno, -⟩ | ⟨bytes', now, hread', hwrite⟩⟩
      · exact absurd hresolves hno
      · exact absurd hresolves hno
      · refine ⟨fun hnone => ?_, bytes', h.source_eq ▸ hread', Tree.contentAt_write hwrite⟩
        rw [hdir c hc hnone] at hread
        cases hread
    · rw [List.concat_eq_append, ← List.cons_append, ← List.append_assoc] at hsplit
      obtain ⟨hdone, -⟩ := List.append_inj' hsplit rfl
      obtain ⟨hhad, bytes, hsource', htarget⟩ := h.resolved before c' after hdone hresolves
      refine ⟨hhad, bytes, hsource', ?_⟩
      rw [hframe _ (hnew c' (by simp [hdone])) (hname _ hhad) (hkept _ hhad), htarget]

theorem kept_of_free (hof : ConflictsOf s.target conflicts) (hapart : StagesApart env s.target conflicts)
    (hfree : FreeNames env s.target conflicts) : Kept env s conflicts := by
  induction conflicts using List.reverseRecOn with
  | nil => exact kept_nil env s
  | append_singleton done c ih =>
    refine (ih ⟨?_, ?_⟩ (fun c' hc' p hs => ?_) ?_).step hof hapart hfree
    · have hnodup := hof.nodup
      rw [List.map_append, List.nodup_append] at hnodup
      exact hnodup.1
    · exact fun c' hc' => hof.present c' (List.mem_append_left _ hc')
    · obtain ⟨hnone, hnames⟩ := hapart c' (List.mem_append_left _ hc') p hs
      exact ⟨hnone, fun d hd => hnames d (List.mem_append_left _ hd)⟩
    · exact fun c' hc' => hfree c' (List.mem_append_left _ hc')

theorem losesNothing_of_free (hof : ConflictsOf s.target conflicts) (hapart : StagesApart env s.target conflicts)
    (hfree : FreeNames env s.target conflicts) : LosesNothing env conflicts s := by
  have h := kept_of_free hof hapart hfree
  refine ⟨h.kept, ?_, h.untouched, ?_⟩
  · intro before c after hsplit hresolves
    obtain ⟨-, bytes, hsource, htarget⟩ := h.resolved before c after hsplit hresolves
    exact ⟨bytes, hsource, h.source_eq ▸ hsource, htarget⟩
  · intro c hc c' hc' hne he
    have hpath : ∀ c ∈ conflicts, c.relativePath ≠ [] := by
      intro c hc hnil
      exact hof.present c hc (hnil ▸ s.target.root)
    exact hne (makeConflictPath_inj (hpath c hc) (hpath c' hc') he)

end Step

/-! ## The conflicts of a plan -/

section Plan
variable {env : Env} {order : HashOrder} {source : Tree ks} {target : Tree kt} {sourceScan targetScan : ScanWorld}
  {sourceManifest targetManifest : List FileState} {direction : SyncDirection} {deleteMode : DeleteMode} {p : Path}

theorem step_keeps_dir {s : SyncState ks kt} {op : Op} (hop : op.Fills) (hp : s.target.isDir p) : (step env s op).target.isDir p := by
  cases op with
  | createDirectory q =>
    have hdone : (step env s (.createDirectory q)).target = s.target ∨
        s.target.createDirectory q = some (step env s (.createDirectory q)).target := attempt_fst
    rcases hdone with h | h
    · rwa [h]
    · exact (Tree.isDir_edit (e := .createDirectory q) h).2 (.inl hp)
  | download f =>
    have hdone : s.target.Touched f.relativePath (step env s (.download f)).target := transfer_fst
    exact hdone.isDir hp
  | upload f => exact hp
  | delete q => exact hop.elim
  | conflict c => exact hop.elim

theorem run_keeps_node {s : SyncState ks kt} {ops : List Op} (hops : ∀ op ∈ ops, op.Fills) (hs : Spared kt ops p)
    (hp : s.target.lookup p ≠ none) : (run (step env) s ops).target.lookup p ≠ none := by
  by_cases hfile : s.target.fileAt p = none
  · have hdir : s.target.isDir p := (Tree.fileAt_eq_none.1 hfile).resolve_left hp
    refine Tree.lookup_of_isDir ?_
    induction ops generalizing s with
    | nil => exact hdir
    | cons op ops ih =>
      obtain ⟨hop, hops⟩ := List.forall_mem_cons.1 hops
      have hdir' : (step env s op).target.isDir p := step_keeps_dir hop hdir
      exact ih hops (fun f hf => hs f (List.mem_cons_of_mem _ hf)) (Tree.lookup_of_isDir hdir') (Tree.fileAt_of_isDir hdir') hdir'
  · intro hnone
    exact run_keeps_file hops hs hfile (Tree.fileAt_eq_none.2 (.inl hnone))

theorem twoWaySource_conflict {m : FileMap} {e : Path × FileState} {c : SyncConflict}
    (h : twoWaySource m e = some (.conflict c)) : c.relativePath = e.1 := by
  unfold twoWaySource at h
  grind

theorem twoWayTarget_ne_conflict {m : FileMap} {e : Path × FileState} {c : SyncConflict} :
    twoWayTarget m e ≠ some (.conflict c) := by
  unfold twoWayTarget
  grind

theorem conflicts_nodup :
    ((plan order ks kt sourceManifest targetManifest direction deleteMode).conflicts.map SyncConflict.relativePath).Nodup := by
  cases direction with
  | oneWay => simp [conflicts_oneWay]
  | twoWay =>
    have hplan : (plan order ks kt sourceManifest targetManifest .twoWay deleteMode).conflicts =
        (computeSyncActions order sourceManifest targetManifest .twoWay deleteMode).conflicts := by
      rw [plan, filterDirectories]
      split <;> rfl
    have hkeys : (order.visit (toMap sourceManifest)).Pairwise fun e e' => e.1 ≠ e'.1 := by
      rw [← List.pairwise_map (f := Prod.fst), ← List.Nodup, ((order.perm (toMap sourceManifest)).map Prod.fst).nodup_iff,
        List.map_map]
      exact (toMap sourceManifest).nodupKeys
    rw [hplan, List.Nodup, List.pairwise_map, computeSyncActions, List.pairwise_filterMap, planned, computeTwoWay,
      List.pairwise_append]
    refine ⟨?_, ?_, ?_⟩
    · rw [List.pairwise_filterMap]
      refine hkeys.imp ?_
      intro e e' hne a ha a' ha' c hc c' hc'
      cases a <;> cases hc
      cases a' <;> cases hc'
      rw [twoWaySource_conflict ha, twoWaySource_conflict ha']
      exact hne
    · rw [List.pairwise_filterMap]
      refine List.pairwise_of_forall ?_
      intro e e' a ha a' ha' c hc
      cases a <;> cases hc
      exact absurd ha twoWayTarget_ne_conflict
    · intro a ha a' ha' c hc c' hc'
      obtain ⟨e, -, he⟩ := List.mem_filterMap.1 ha'
      cases a' <;> cases hc'
      exact absurd he twoWayTarget_ne_conflict

/-- The conflict phase begins with the conflicts of the plan, where no download is staged at one of them. -/
theorem conflictsOf_plan (ht : target.manifest targetScan = some targetManifest)
    (hapart : ∀ f ∈ (plan env.order ks kt sourceManifest targetManifest direction deleteMode).toDownload,
      ∀ c ∈ (plan env.order ks kt sourceManifest targetManifest direction deleteMode).conflicts,
        ¬ Tree.Stages kt f.relativePath c.relativePath) :
    let actions := plan env.order ks kt sourceManifest targetManifest direction deleteMode
    ∃ ops, operations env actions = ops ++ actions.conflicts.map .conflict ∧
      ConflictsOf (run (step env) (⟨source, target, .empty⟩ : SyncState ks kt) ops).target actions.conflicts := by
  intro actions
  refine ⟨_, rfl, conflicts_nodup, fun c hc => ?_⟩
  obtain ⟨p, hp⟩ := mem_planned.1 (mem_plan_conflicts.1 hc)
  have htwoWay : direction = .twoWay := by
    cases direction with
    | oneWay => exact absurd hp planAt_oneWay_conflict
    | twoWay => rfl
  have hdeletes : actions.toDelete = [] := by
    rw [List.eq_nil_iff_forall_not_mem]
    intro q hq
    obtain ⟨r, hr⟩ := mem_planned.1 (mem_plan_toDelete.1 hq)
    have honeWay := (planAt_delete hr).2.2.1
    rw [htwoWay] at honeWay
    cases honeWay
  rw [hdeletes, List.map_nil, List.append_nil]
  refine run_keeps_node fillings_fill (fun f hf hs => ?_) ?_
  · have hf : f ∈ env.completed actions.toDownload := by simpa [fillings] using hf
    exact hapart f ((env.completed_perm _).mem_iff.1 hf) c hc hs
  obtain ⟨rfl, t, htarget⟩ : c.relativePath = p ∧ ∃ t, (toMap targetManifest).lookup p = some t := by
    unfold planAt at hp
    grind
  rw [Tree.lookup_manifest ht] at htarget
  obtain ⟨-, n, hn, -⟩ := shown_path htarget
  intro hnone
  cases hn.symm.trans hnone

end Plan

/-! ## Taken names -/

section Taken
variable {env : Env} {s : SyncState ks kt} {conflicts : List SyncConflict} {bytes : Bytes} {p : Path}

def brokenOff (bytes : Bytes) : Call → Outcome
  | .rename _ => .failed "write failed" (.written bytes)
  | _ => .failed "not reached" .nothing

theorem resolveConflict_brokenOff (env : Env) (s : SyncState ks kt) (c : SyncConflict) :
    (resolveConflict { env with outcome := brokenOff bytes } s c).target =
      (s.target.write (c.conflictPath env) bytes (env.writtenAt (c.conflictPath env))).getD s.target := rfl

theorem brokenOff_touched (env : Env) (s : SyncState ks kt) (c : SyncConflict) :
    s.target.Touched (c.conflictPath env) (resolveConflict { env with outcome := brokenOff bytes } s c).target := by
  rw [resolveConflict_brokenOff]
  cases h : s.target.write (c.conflictPath env) bytes (env.writtenAt (c.conflictPath env)) with
  | none => exact .inl rfl
  | some t => exact .inr (.inr ⟨_, _, h⟩)

theorem brokenOff_keeps (hs : ∀ c ∈ conflicts, ¬ Tree.Stages kt (c.conflictPath env) p) (h : s.target.contentAt p ≠ none) :
    (resolveConflicts { env with outcome := brokenOff bytes } s conflicts).target.contentAt p ≠ none := by
  induction conflicts using List.reverseRecOn with
  | nil => exact h
  | append_singleton done c ih =>
    rw [resolveConflicts_append]
    exact (brokenOff_touched env _ c).content_ne_none (hs c (List.mem_append_right _ List.mem_cons_self))
      (ih fun c' hc' => hs c' (List.mem_append_left _ hc'))

theorem parents_conflictPath {q : Path} (hp : p ≠ []) {n : Nat} (hq : q ∈ parents (makeConflictPath p n)) : q ∈ parents p := by
  rw [makeConflictPath_eq] at hq
  obtain ⟨hpre, hne, hself⟩ := mem_parents.1 hq
  have hdir : q <+: p.dropLast := (List.prefix_concat_iff.1 hpre).resolve_left hself
  refine mem_parents.2 ⟨hdir.trans (List.dropLast_prefix p), hne, ?_⟩
  rintro rfl
  have hlength := hdir.length_le
  have hpos := List.length_pos_iff.2 hp
  rw [List.length_dropLast] at hlength
  omega

theorem brokenOff_isDir (hof : ∀ c ∈ conflicts, s.target.lookup c.relativePath ≠ none) :
    (resolveConflicts { env with outcome := brokenOff bytes } s conflicts).target.isDir p ↔ s.target.isDir p := by
  induction conflicts using List.reverseRecOn with
  | nil => rfl
  | append_singleton done c ih =>
    have ih := ih fun c' hc' => hof c' (List.mem_append_left _ hc')
    have hc := hof c (List.mem_append_right _ List.mem_cons_self)
    rw [resolveConflicts_append, (brokenOff_touched env _ c).isDir_iff, ih]
    rw [ih]
    by_cases hneeds : p ∈ Tree.needs kt (parents (c.conflictPath env))
    · left
      unfold Tree.needs at hneeds
      split at hneeds
      · rename_i hk
        refine Tree.isDir_parents hk hc (parents_conflictPath ?_ hneeds)
        intro hnil
        exact hc (hnil ▸ s.target.root)
      · exact absurd hneeds List.not_mem_nil
    · exact .inr hneeds

theorem brokenOff_named (hof : ∀ c ∈ conflicts, s.target.lookup c.relativePath ≠ none)
    (hpart : ∀ c ∈ conflicts, kt = .peer → ¬ s.target.isDir (partOf (c.conflictPath env)))
    (hs : ∀ c ∈ conflicts, ¬ Tree.Stages kt (c.conflictPath env) p) (hp : ∃ c ∈ conflicts, c.conflictPath env = p)
    (h : (resolveConflicts { env with outcome := brokenOff bytes } s conflicts).target.contentAt p ≠ none) :
    (resolveConflicts { env with outcome := brokenOff bytes } s conflicts).target.contentAt p = some bytes := by
  induction conflicts using List.reverseRecOn with
  | nil => simp at hp
  | append_singleton done c ih =>
    rw [resolveConflicts_append] at h ⊢
    have hc : c ∈ done ++ [c] := List.mem_append_right _ List.mem_cons_self
    have hof' : ∀ c' ∈ done, s.target.lookup c'.relativePath ≠ none := fun c' hc' => hof c' (List.mem_append_left _ hc')
    by_cases he : p = c.conflictPath env
    · subst he
      rw [resolveConflict_brokenOff] at h ⊢
      obtain ⟨now, hnow⟩ : ∃ now, now = env.writtenAt (c.conflictPath env) := ⟨_, rfl⟩
      rw [← hnow] at h ⊢
      cases hwrite : (resolveConflicts { env with outcome := brokenOff bytes } s done).target.write (c.conflictPath env) bytes now with
      | some t => exact Tree.contentAt_write hwrite
      | none =>
        rw [hwrite, Option.getD_none] at h
        obtain ⟨bytes', hbytes⟩ := Option.ne_none_iff_exists'.1 h
        obtain ⟨t, ht⟩ : ∃ t, (resolveConflicts { env with outcome := brokenOff bytes } s done).target.write (c.conflictPath env) bytes
            now = some t := Tree.write_of_content (fun hk hdir => hpart c hc hk ((brokenOff_isDir hof').1 hdir)) hbytes now
        cases hwrite.symm.trans ht
    · rw [(brokenOff_touched env _ c).contentAt he (hs c hc)] at h ⊢
      refine ih hof' (fun c' hc' => hpart c' (List.mem_append_left _ hc')) (fun c' hc' => hs c' (List.mem_append_left _ hc')) ?_ h
      obtain ⟨c', hc', hname⟩ := hp
      rcases List.mem_append.1 hc' with hc' | hc'
      · exact ⟨c', hc', hname⟩
      · cases List.mem_singleton.1 hc'
        exact absurd hname.symm he

end Taken

/-- Whatever fails, nothing is lost in the conflict phase exactly when the conflict names are free, where peers stage apart. -/
theorem conflicts_lose_nothing_iff (env : Env) (s : SyncState ks kt) {conflicts : List SyncConflict}
    (h : ConflictsOf s.target conflicts) (hapart : StagesApart env s.target conflicts) :
    (∀ outcome, LosesNothing { env with outcome := outcome } conflicts s) ↔ FreeNames env s.target conflicts := by
  constructor
  · intro hall c hc
    by_contra htaken
    obtain ⟨bytes, hbytes⟩ := Option.ne_none_iff_exists'.1 htaken
    have hloses := hall (brokenOff (0 :: bytes))
    have hpart : ∀ c ∈ conflicts, kt = .peer → ¬ s.target.isDir (partOf (c.conflictPath env)) := fun c hc hk hdir =>
      Tree.lookup_of_isDir hdir (hapart c hc _ (.inr ⟨hk, rfl⟩)).1
    have hnames : ∀ c ∈ conflicts, ∀ c' ∈ conflicts, ¬ Tree.Stages kt (c'.conflictPath env) (c.conflictPath env) :=
      fun c hc c' hc' hs => (hapart c' hc' _ (.inr hs)).2 c hc rfl
    have hafter : (resolveConflicts { env with outcome := brokenOff (0 :: bytes) } s conflicts).target.contentAt
        (c.conflictPath env) = some (0 :: bytes) :=
      brokenOff_named h.present hpart (hnames c hc) ⟨c, hc, rfl⟩ (brokenOff_keeps (hnames c hc) htaken)
    have hne : ∀ {o : Option Bytes}, o = some (0 :: bytes) → o ≠ some bytes := by
      rintro _ rfl he
      simp at he
    by_cases hpath : ∃ c' ∈ conflicts, c'.relativePath = c.conflictPath env
    · obtain ⟨c', hc', he⟩ := hpath
      rcases hloses.kept c' hc' bytes (he ▸ hbytes) with hown | hcopy
      · rw [he] at hown
        exact hne hafter hown
      · exact hne (brokenOff_named h.present hpart (hnames c' hc') ⟨c', hc', rfl⟩ fun hnone =>
          Option.some_ne_none bytes (hcopy.symm.trans hnone)) hcopy
    · exact hne hafter (hloses.others _ bytes hbytes fun c' hc' he => hpath ⟨c', hc', he⟩)
  · intro hfree outcome
    have hfree' : FreeNames { env with outcome := outcome } s.target conflicts := hfree
    have hapart' : StagesApart { env with outcome := outcome } s.target conflicts := hapart
    exact losesNothing_of_free h hapart' hfree'

def sampleConflict : SyncConflict := ⟨["a"], ⟨["a"], 1, 1000, false, none⟩, ⟨["a"], 1, 1000, false, none⟩⟩

def sampleSource : Tree .localFolder := .of _ [.write ["a"] [3] 1000]

def takenTarget : Tree .peer := .of _ [.write ["a"] [1] 1000, .write ["a.conflict.2000"] [2] 1000]

theorem sampleConflict_present : ConflictsOf takenTarget [sampleConflict] := ⟨by decide, by decide⟩

theorem sampleConflict_apart : StagesApart calmEnv takenTarget [sampleConflict] := by
  intro c hc p hs
  obtain rfl := List.mem_singleton.1 hc
  rcases hs with ⟨-, rfl⟩ | ⟨-, rfl⟩ <;> exact ⟨by decide, by decide⟩

theorem conflicts_lose_nothing_iff_taken :
    (∀ outcome, LosesNothing { calmEnv with outcome := outcome } [sampleConflict] ⟨sampleSource, takenTarget, .empty⟩) ↔
      FreeNames calmEnv takenTarget [sampleConflict] :=
  conflicts_lose_nothing_iff calmEnv ⟨sampleSource, takenTarget, .empty⟩ sampleConflict_present sampleConflict_apart

theorem conflictsOf_plan_sample : ∃ actions : SyncActions,
    actions = plan calmEnv.order .localFolder .peer ((sampleSource.manifest sampleScan).getD [])
      ((takenTarget.manifest sampleScan).getD []) .twoWay .trash ∧
    ∃ ops, operations calmEnv actions = ops ++ actions.conflicts.map .conflict ∧
      ConflictsOf (run (step calmEnv) (⟨sampleSource, takenTarget, .empty⟩ : SyncState _ _) ops).target actions.conflicts :=
  ⟨_, rfl, conflictsOf_plan (rfl : takenTarget.manifest sampleScan = some _) (by decide)⟩

/-- A file that has the conflict name is overwritten, though nothing fails. -/
theorem taken_name_overwritten : ¬ ∀ (ks kt : ProviderKind) (env : Env) (s : SyncState ks kt) (conflicts : List SyncConflict),
    ConflictsOf s.target conflicts → LosesNothing env conflicts s := by
  intro h
  have h := (h _ _ calmEnv ⟨sampleSource, takenTarget, .empty⟩ [sampleConflict] ⟨by decide, by decide⟩).others
    ["a.conflict.2000"] [2] (by decide) (by decide)
  revert h
  decide

end HaexVault.FileSync
