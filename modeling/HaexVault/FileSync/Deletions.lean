import HaexVault.FileSync.Engine
/-!
# What a run deletes

A one-way run deletes a file of the target when the source's manifest has nothing at its path: what
the source lacks, and what its scan could not read. At a peer what is staged takes a file
(`keeps_shared_files_iff`, `one_way_spares_source`, `two_way_deletes_no_file`).
-/

namespace HaexVault.FileSync

open HaexVault.Lib.Runs

variable {ks kt : ProviderKind}

def KeepsSharedFiles (source : Tree ks) (target after : Tree kt) : Prop :=
  ∀ p, source.fileAt p ≠ none → target.fileAt p ≠ none → after.fileAt p ≠ none

/-! ## Files that stay -/

theorem Tree.edit_keeps_file {t t' : Tree kt} {e : Tree.Edit} {p : Path} (h : t.edit e = some t') (hs : ¬ e.Stages kt p)
    (hp : t.fileAt p ≠ none) : t'.fileAt p ≠ none := by
  by_cases hw : e.Writes p
  · obtain ⟨bytes, now, rfl⟩ := hw
    obtain ⟨-, -, -, hlookup⟩ := write_spec h
    rw [fileAt_eq_some (f := (bytes, now)) |>.2 ((hlookup p).trans (if_pos rfl))]
    exact Option.some_ne_none _
  · rwa [fileAt_edit h hw (.inr hs)]

theorem Tree.stages_write {p q : Path} {bytes : Bytes} {now : Nat} :
    (Tree.Edit.write q bytes now).Stages kt p ↔ Tree.Stages kt q p := by
  constructor
  · rintro ⟨r, ⟨bytes', now', he⟩, hs⟩
    cases he
    exact hs
  · exact fun hs => ⟨q, ⟨bytes, now, rfl⟩, hs⟩

section Steps
variable {env : Env} {s : SyncState ks kt} {p : Path}

theorem attempt_fst {call : Call} {label : String} {dst : Tree kt} {done : Option (Tree kt)} :
    (attempt env call label p dst done).1 = dst ∨ done = some (attempt env call label p dst done).1 := by
  unfold attempt
  cases env.outcome call with
  | failed message left =>
    cases done with
    | none => simp
    | some t => cases left <;> simp [Left.isWritten]
  | unrecorded message | ok => cases done <;> simp

theorem transfer_fst {call : Call} {label : String} {src : Tree ks} {q : Path} {claimed : Option String} {dst : Tree kt} :
    (transfer env call label src p claimed dst q).1 = dst ∨ (transfer env call label src p claimed dst q).1 = dst.unstage q ∨
      ∃ bytes now, dst.write q bytes now = some (transfer env call label src p claimed dst q).1 := by
  unfold transfer
  cases env.outcome call with
  | failed message left =>
    cases left with
    | nothing => exact .inl rfl
    | staged => exact .inr (.inl rfl)
    | written bytes =>
      cases hwrite : dst.write q bytes (env.writtenAt q) with
      | none => exact .inl (by simp [Left.apply, hwrite])
      | some t => exact .inr (.inr ⟨bytes, env.writtenAt q, by simp [Left.apply, hwrite]⟩)
  | unrecorded message | ok =>
    dsimp only
    split
    · exact .inl rfl
    · split
      · split
        · exact .inr (.inl rfl)
        · rename_i hwrite
          exact .inr (.inr ⟨_, _, hwrite⟩)
      · exact .inl rfl

theorem transfer_keeps_file {call : Call} {label : String} {src : Tree ks} {q r : Path} {claimed : Option String} {dst : Tree kt}
    (hs : ¬ Tree.Stages kt r p) (hp : dst.fileAt p ≠ none) : (transfer env call label src q claimed dst r).1.fileAt p ≠ none := by
  have hdone : (transfer env call label src q claimed dst r).1 = dst ∨
      (transfer env call label src q claimed dst r).1 = dst.unstage r ∨
        ∃ bytes now, dst.write r bytes now = some (transfer env call label src q claimed dst r).1 := transfer_fst
  rcases hdone with h | h | ⟨bytes, now, h⟩
  · rwa [h]
  · rwa [h, Tree.fileAt_unstage hs]
  · exact Tree.edit_keeps_file (e := .write r bytes now) h (fun h => hs (Tree.stages_write.1 h)) hp

def Op.Fills : Op → Prop
  | .createDirectory _ | .download _ | .upload _ => True
  | .delete _ | .conflict _ => False

/-- Nothing is staged at a path by what is downloaded. -/
def Spared (kt : ProviderKind) (ops : List Op) (p : Path) : Prop := ∀ f, .download f ∈ ops → ¬ Tree.Stages kt f.relativePath p

theorem step_keeps_file {op : Op} (hop : op.Fills) (hs : Spared kt [op] p) (hp : s.target.fileAt p ≠ none) :
    (step env s op).target.fileAt p ≠ none := by
  cases op with
  | createDirectory q =>
    have hdone : (step env s (.createDirectory q)).target = s.target ∨
        s.target.createDirectory q = some (step env s (.createDirectory q)).target := attempt_fst
    rcases hdone with h | h
    · rwa [h]
    · refine Tree.edit_keeps_file (e := .createDirectory q) h ?_ hp
      rintro ⟨r, ⟨bytes, now, he⟩, -⟩
      cases he
  | download f => exact transfer_keeps_file (hs f List.mem_cons_self) hp
  | upload f => exact hp
  | delete q => exact hop.elim
  | conflict c => exact hop.elim

theorem run_keeps_file {ops : List Op} (hops : ∀ op ∈ ops, op.Fills) (hs : Spared kt ops p) (hp : s.target.fileAt p ≠ none) :
    (run (step env) s ops).target.fileAt p ≠ none := by
  induction ops generalizing s with
  | nil => exact hp
  | cons op ops ih =>
    obtain ⟨hop, hops⟩ := List.forall_mem_cons.1 hops
    refine ih hops (fun f hf => hs f (List.mem_cons_of_mem _ hf)) (step_keeps_file hop (fun f hf => hs f ?_) hp)
    rw [List.mem_singleton] at hf
    exact hf ▸ List.mem_cons_self

theorem step_delete (env : Env) (s : SyncState ks kt) (p q : Path) :
    (step env s (.delete q)).target.lookup p = s.target.lookup p ∨
      (Tree.Clears kt q p ∧ (step env s (.delete q)).target.lookup p = none) := by
  have hcases : (step env s (.delete q)).target = s.target ∨
      s.target.delete q = some (step env s (.delete q)).target := attempt_fst
  rcases hcases with h | h
  · exact .inl (by rw [h])
  · exact (Tree.delete_clears h).2 p

theorem run_deletes_keeps {qs : List Path} (hp : ∀ q ∈ qs, ¬ Tree.Clears kt q p) :
    (run (step env) s (qs.map .delete)).target.lookup p = s.target.lookup p := by
  induction qs generalizing s with
  | nil => rfl
  | cons q qs ih =>
    obtain ⟨hq, hqs⟩ := List.forall_mem_cons.1 hp
    rw [List.map_cons, run_cons, ih hqs]
    exact (step_delete env s p q).resolve_right fun h => hq h.1

theorem run_deletes_none {qs : List Path} (hp : s.target.lookup p = none) :
    (run (step env) s (qs.map .delete)).target.lookup p = none := by
  induction qs generalizing s with
  | nil => exact hp
  | cons q qs ih =>
    rw [List.map_cons, run_cons]
    exact ih ((step_delete env s p q).elim (·.trans hp) And.right)

/-- Where no call fails, what is to be deleted is gone. -/
theorem run_deletes_gone {e : Env} (henv : ∀ q, e.outcome (.delete q) = .ok) {qs : List Path} (hp : p ∈ qs) :
    (run (step e) s (qs.map .delete)).target.lookup p = none := by
  induction qs generalizing s with
  | nil => exact absurd hp List.not_mem_nil
  | cons q qs ih =>
    rw [List.map_cons, run_cons]
    rcases List.mem_cons.1 hp with rfl | hp
    · refine run_deletes_none ?_
      by_contra hne
      obtain ⟨t, ht⟩ := Tree.delete_isSome (t := s.target) fun hnone =>
        hne ((step_delete e s p p).elim (·.trans hnone) And.right)
      have hstep : (step e s (.delete p)).target = t := by simp [step, attempt, henv, ht]
      exact hne (hstep ▸ (Tree.delete_clears ht).1)
    · exact ih hp

end Steps

/-! ## The plan of a one-way run -/

section Plan
variable {order : HashOrder} {source : Tree ks} {target : Tree kt} {sourceScan targetScan : ScanWorld} {deleteMode : DeleteMode}
  {sourceManifest targetManifest : List FileState} {p : Path}

theorem mem_toDelete_oneWay (hmode : deleteMode ≠ .ignore) (hs : source.manifest sourceScan = some sourceManifest)
    (ht : target.manifest targetScan = some targetManifest) :
    p ∈ (plan order ks kt sourceManifest targetManifest .oneWay deleteMode).toDelete ↔
      target.fileAt p ≠ none ∧ target.Shows targetScan p ∧ (source.lookup p = none ∨ ¬ source.Shows sourceScan p) := by
  have hsource : (toMap sourceManifest).lookup p = none ↔ source.lookup p = none ∨ ¬ source.Shows sourceScan p := by
    rw [Tree.lookup_manifest hs, Tree.shown]
    split <;> simp_all
  have htarget : (∃ t, (toMap targetManifest).lookup p = some t ∧ t.isDirectory = false) ↔
      target.fileAt p ≠ none ∧ target.Shows targetScan p := by
    rw [Tree.lookup_manifest ht, Tree.shown]
    by_cases hshows : target.Shows targetScan p
    · rw [if_pos hshows]
      cases hl : target.lookup p with
      | none => simp [Tree.fileAt, hl]
      | some n => cases n <;> simp [Tree.fileAt, hl, fileState, hshows]
    · rw [if_neg hshows]
      simp [hshows]
  rw [mem_plan_toDelete, mem_planned, ← and_assoc, ← htarget, ← hsource]
  constructor
  · rintro ⟨q, hq⟩
    obtain ⟨rfl, -, hnone, hfile⟩ := planAt_oneWay_delete.1 hq
    exact ⟨hfile, hnone⟩
  · rintro ⟨hfile, hnone⟩
    exact ⟨p, planAt_oneWay_delete.2 ⟨rfl, hmode, hnone, hfile⟩⟩

/-- A path from which a file is sent, by what the scans show. -/
def Downloads (source : Tree ks) (target : Tree kt) (sourceScan targetScan : ScanWorld) (deleteMode : DeleteMode)
    (q : Path) : Prop :=
  ∃ f, planAt .oneWay deleteMode q (source.shown sourceScan q) (target.shown targetScan q) = some (.download f)

theorem shown_path {k : ProviderKind} {t : Tree k} {w : ScanWorld} {f : FileState} (h : t.shown w p = some f) :
    f.relativePath = p ∧ ∃ n, t.lookup p = some n ∧ f = fileState k w p n := by
  unfold Tree.shown at h
  split at h
  · obtain ⟨n, hn, rfl⟩ := Option.map_eq_some_iff.1 h
    exact ⟨fileState_relativePath, n, hn, rfl⟩
  · cases h

theorem mem_toDownload_oneWay (hs : source.manifest sourceScan = some sourceManifest)
    (ht : target.manifest targetScan = some targetManifest) {f : FileState} :
    f ∈ (plan order ks kt sourceManifest targetManifest .oneWay deleteMode).toDownload ↔
      planAt .oneWay deleteMode f.relativePath (source.shown sourceScan f.relativePath)
        (target.shown targetScan f.relativePath) = some (.download f) := by
  rw [mem_plan_toDownload, mem_planned]
  simp only [Tree.lookup_manifest hs, Tree.lookup_manifest ht]
  constructor
  · rintro ⟨q, hq⟩
    rwa [(shown_path (planAt_download hq).1).1]
  · exact fun h => ⟨_, h⟩

theorem conflicts_oneWay :
    (plan order ks kt sourceManifest targetManifest .oneWay deleteMode).conflicts = [] := by
  rw [List.eq_nil_iff_forall_not_mem]
  intro c hc
  obtain ⟨p, hp⟩ := mem_planned.1 (mem_plan_conflicts.1 hc)
  exact planAt_oneWay_conflict hp

end Plan

/-! ## What stays -/

def fillings (env : Env) (actions : SyncActions) : List Op :=
  actions.toCreateDirectories.map .createDirectory ++ (env.completed actions.toDownload).map .download ++
    (env.completed actions.toUpload).map .upload

theorem fillings_fill {env : Env} {actions : SyncActions} : ∀ op ∈ fillings env actions, op.Fills := by
  intro op hop
  unfold fillings at hop
  simp only [List.mem_append, List.mem_map] at hop
  rcases hop with (⟨_, -, rfl⟩ | ⟨_, -, rfl⟩) | ⟨_, -, rfl⟩ <;> trivial

theorem operations_oneWay {env : Env} {order : HashOrder} {sf tf : List FileState} {deleteMode : DeleteMode} :
    operations env (plan order ks kt sf tf .oneWay deleteMode) = fillings env (plan order ks kt sf tf .oneWay deleteMode) ++
      (plan order ks kt sf tf .oneWay deleteMode).toDelete.map .delete := by
  rw [operations, conflicts_oneWay, List.map_nil, List.append_nil, fillings]

theorem not_shows_of_manifest {k : ProviderKind} {t : Tree k} {w : ScanWorld} {p : Path} (ht : t.manifest w = none)
    (hp : t.fileAt p ≠ none) : ¬ t.Shows w p := by
  intro hshown
  have hdirs : k.supportsDirectories = true := by
    by_contra hk
    simp [Tree.manifest, hk] at ht
  obtain ⟨c, rest, rfl⟩ : ∃ c rest, p = c :: rest := by
    refine List.exists_cons_of_ne_nil fun hnil => hp ?_
    rw [hnil, Tree.fileAt_eq_none]
    exact .inl t.root
  have hread := (hshown hdirs).1
  unfold Tree.manifest at ht
  rw [if_pos hdirs] at ht
  cases hl : t.levels <;> simp [hl, Tree.scanDirectory, hread] at ht

theorem not_clears_of_files {k : ProviderKind} {t : Tree k} {p q : Path} (hp : t.fileAt p ≠ none) (hq : t.fileAt q ≠ none)
    (hne : p ≠ q) : ¬ Tree.Clears k q p := by
  rintro (rfl | ⟨hk, hpre⟩)
  · exact hne rfl
  · refine hq (Tree.fileAt_of_isDir (Tree.isDir_parents hk (fun hnone => hp (Tree.fileAt_eq_none.2 (.inl hnone)))
      (mem_parents.2 ⟨hpre, ?_, hne.symm⟩)))
    rintro rfl
    exact hq (Tree.fileAt_eq_none.2 (.inl t.root))

theorem run_keeps_other {env : Env} {s : SyncState ks kt} {ops : List Op} {qs : List Path} {p : Path}
    (hops : ∀ op ∈ ops, op.Fills) (hs : Spared kt ops p) (hp : ∀ q ∈ qs, ¬ Tree.Clears kt q p)
    (hpt : s.target.fileAt p ≠ none) : (run (step env) s (ops ++ qs.map .delete)).target.fileAt p ≠ none := by
  rw [run_append, Tree.fileAt_congr (run_deletes_keeps hp)]
  exact run_keeps_file hops hs hpt

/-- At a peer, a path at which the run stages. -/
def StagedOver (source : Tree ks) (target : Tree kt) (sourceScan targetScan : ScanWorld) (deleteMode : DeleteMode)
    (p : Path) : Prop :=
  target.manifest targetScan ≠ none ∧ ∃ q, Downloads source target sourceScan targetScan deleteMode q ∧ Tree.Stages kt q p

theorem spared_of_not_stagedOver {env : Env} {order : HashOrder} {source : Tree ks} {target : Tree kt}
    {sourceScan targetScan : ScanWorld} {deleteMode : DeleteMode} {sf tf : List FileState} {p : Path}
    (hs : source.manifest sourceScan = some sf) (ht : target.manifest targetScan = some tf)
    (hp : ¬ StagedOver source target sourceScan targetScan deleteMode p) :
    Spared kt (fillings env (plan order ks kt sf tf .oneWay deleteMode)) p := by
  intro f hf hstages
  have hf : f ∈ env.completed (plan order ks kt sf tf .oneWay deleteMode).toDownload := by simpa [fillings] using hf
  refine hp ⟨by rw [ht]; exact Option.some_ne_none tf, f.relativePath, ⟨f, ?_⟩, hstages⟩
  exact (mem_toDownload_oneWay hs ht).1 ((env.completed_perm _).mem_iff.1 hf)

/-- The transfers of one path end last. -/
def lastOf (q : Path) (sha : Bytes → String) : Env :=
  { calmEnv with
    completed := fun l => l.filter (fun f => f.relativePath ≠ q) ++ l.filter fun f => !decide (f.relativePath ≠ q)
    completed_perm := fun l => List.filter_append_perm _ l
    sha := sha }

section Taken
variable {source : Tree ks} {target : Tree kt} {sourceScan targetScan : ScanWorld} {deleteMode : DeleteMode} {sf tf : List FileState}
  {env : Env} {s : SyncState ks kt} {f : FileState} {bytes : Bytes} {p q : Path}

theorem verified_fileState {k : ProviderKind} {w : ScanWorld} {m : Nat} :
    verified (fileState k w p (.file bytes m)).hash (observedHash w.sha k bytes) = true := by
  unfold verified observedHash fileState
  cases k <;> cases w.errors.hash p <;> simp [ProviderKind.reportsHashes]

theorem download_takes (henv : env.outcome (.download f.relativePath) = .ok) (hread : s.source.read f.relativePath = some bytes)
    (hverified : verified f.hash (observedHash env.sha ks bytes) = true) (hs : Tree.Stages kt f.relativePath p)
    (hdir : ¬ s.target.isDir p) : (step env s (.download f)).target.lookup p = none := by
  simp only [step, transfer, henv, hread, hverified, if_true]
  obtain ⟨hk, rfl⟩ := hs
  cases hwrite : s.target.write f.relativePath bytes (env.writtenAt f.relativePath) with
  | none => exact (Tree.lookup_unstage fun _ => hdir).trans (if_pos ⟨hk, rfl⟩)
  | some t =>
    obtain ⟨-, -, -, hlookup⟩ := Tree.write_spec hwrite
    exact (hlookup _).trans (by rw [if_neg (partOf_ne _), if_neg Tree.partOf_notMem_needs, if_pos ⟨hk, rfl⟩])

theorem downloads_take {files : List FileState} (hfiles : files ≠ []) (hall : ∀ g ∈ files, g = f)
    (henv : env.outcome (.download f.relativePath) = .ok) (hread : s.source.read f.relativePath = some bytes)
    (hverified : verified f.hash (observedHash env.sha ks bytes) = true) (hs : Tree.Stages kt f.relativePath p)
    (hdir : ¬ s.target.isDir p) : (run (step env) s (files.map .download)).target.lookup p = none := by
  induction files generalizing s with
  | nil => exact absurd rfl hfiles
  | cons g files ih =>
    obtain ⟨rfl, hall⟩ := List.forall_mem_cons.1 hall
    have hgone : (step env s (.download g)).target.lookup p = none := download_takes henv hread hverified hs hdir
    by_cases hnil : files = []
    · rw [hnil]
      exact hgone
    · exact ih hnil hall hread fun hd => Tree.lookup_of_isDir hd hgone

theorem run_source {ops : List Op} (hops : ∀ op ∈ ops, op.Fills ∧ ∀ f, op ≠ .upload f) :
    (run (step env) s ops).source = s.source := by
  induction ops generalizing s with
  | nil => rfl
  | cons op ops ih =>
    obtain ⟨⟨hfills, hop⟩, hops⟩ := List.forall_mem_cons.1 hops
    rw [run_cons, ih hops]
    cases op with
    | upload f => exact absurd rfl (hop f)
    | conflict c => exact hfills.elim
    | createDirectory q | download f | delete q => rfl

theorem run_uploads_target (files : List FileState) : (run (step env) s (files.map .upload)).target = s.target := by
  induction files generalizing s with
  | nil => rfl
  | cons f files ih => exact ih

/-- When the transfer that stages at a file of a peer ends last, the file is gone. -/
theorem staged_file_taken (hs : source.manifest sourceScan = some sf) (ht : target.manifest targetScan = some tf)
    (hq : Downloads source target sourceScan targetScan deleteMode q) (hstages : Tree.Stages kt q p) (hpt : target.fileAt p ≠ none) :
    (executeSync (lastOf q sourceScan.sha) source target sourceScan targetScan .oneWay deleteMode).1.target.lookup p = none := by
  obtain ⟨f, hf⟩ := hq
  obtain ⟨hshown, hfile⟩ := planAt_download hf
  obtain ⟨rfl, n, hlookup, hstate⟩ := shown_path hshown
  obtain ⟨bytes, m, rfl⟩ : ∃ bytes m, n = .file bytes m := by
    cases n with
    | file bytes m => exact ⟨bytes, m, rfl⟩
    | directory => rw [hstate] at hfile; cases hfile
  have hsent : ∀ g, g ∈ (plan calmEnv.order ks kt sf tf .oneWay deleteMode).toDownload → g.relativePath ≠ [] ∧
      (g.relativePath = f.relativePath → g = f) := by
    intro g hg
    have hg := (mem_toDownload_oneWay hs ht).1 hg
    refine ⟨fun hnil => ?_, fun he => ?_⟩
    · obtain ⟨-, n, hn, -⟩ := shown_path (planAt_download hg).1
      rw [hnil, Tree.lookup, source.root] at hn
      cases hn
    · rw [he, hf] at hg
      cases hg
      rfl
  unfold executeSync
  rw [hs, ht]
  change (run (step (lastOf f.relativePath sourceScan.sha)) _ (operations (lastOf f.relativePath sourceScan.sha)
    (plan calmEnv.order ks kt sf tf .oneWay deleteMode))).target.lookup p = none
  rw [operations_oneWay, run_append]
  refine run_deletes_none ?_
  rw [fillings, run_append, run_uploads_target, show (lastOf f.relativePath sourceScan.sha).completed _ = _ ++ _ from rfl,
    List.map_append, ← List.append_assoc, run_append]
  have hfills : ∀ op ∈ (plan calmEnv.order ks kt sf tf .oneWay deleteMode).toCreateDirectories.map Op.createDirectory ++
      ((plan calmEnv.order ks kt sf tf .oneWay deleteMode).toDownload.filter fun g => g.relativePath ≠ f.relativePath).map
        .download, op.Fills ∧ ∀ g, op ≠ .upload g := by
    intro op hop
    rcases List.mem_append.1 hop with hop | hop
    · obtain ⟨_, -, rfl⟩ := List.mem_map.1 hop
      exact ⟨trivial, nofun⟩
    · obtain ⟨_, -, rfl⟩ := List.mem_map.1 hop
      exact ⟨trivial, nofun⟩
  refine downloads_take (f := f) ?_ (fun g hg => ?_) rfl (?_ : _ = some bytes) ?_ hstages fun hdir =>
    run_keeps_file (fun op hop => (hfills op hop).1) (fun g hg hsame => ?_) hpt (Tree.fileAt_of_isDir hdir)
  · exact List.ne_nil_of_mem (List.mem_filter.2 ⟨(mem_toDownload_oneWay hs ht).2 hf, by simp⟩)
  · obtain ⟨hg, hpath⟩ := List.mem_filter.1 hg
    exact (hsent g hg).2 (by simpa using hpath)
  · rw [run_source hfills, Tree.read, Tree.contentAt, Tree.fileAt_eq_some (f := (bytes, m)) |>.2 hlookup]
    rfl
  · rw [congrArg FileState.hash hstate]
    exact verified_fileState
  · obtain ⟨hg, hpath⟩ : g ∈ (plan calmEnv.order ks kt sf tf .oneWay deleteMode).toDownload ∧
        g.relativePath ≠ f.relativePath := by simpa using hg
    refine hpath (partOf_inj (hsent g hg).1 ?_ (hsame.2.symm.trans hstages.2))
    exact (hsent f ((mem_toDownload_oneWay hs ht).2 hf)).1

end Taken

/-- A one-way run deletes no file that the source has as a file too exactly when the scan of the source lists every such
file that the scan of the target lists, and, at a peer, nothing is staged at such a file. -/
theorem keeps_shared_files_iff (source : Tree ks) (target : Tree kt) (sourceScan targetScan : ScanWorld)
    {deleteMode : DeleteMode} (hmode : deleteMode ≠ .ignore) (hok : source.manifest sourceScan ≠ none) :
    (∀ env, KeepsSharedFiles source target (executeSync env source target sourceScan targetScan .oneWay deleteMode).1.target) ↔
      ∀ p, source.fileAt p ≠ none → target.fileAt p ≠ none →
        (target.Shows targetScan p → source.Shows sourceScan p) ∧
          ¬ StagedOver source target sourceScan targetScan deleteMode p := by
  obtain ⟨sourceManifest, hs⟩ := Option.ne_none_iff_exists'.1 hok
  constructor
  · intro hkeeps p hps hpt
    refine ⟨fun hshown => ?_, ?_⟩
    · by_contra hhidden
      have hkeep := hkeeps calmEnv p hps hpt
      cases ht : target.manifest targetScan with
      | none => exact not_shows_of_manifest ht hpt hshown
      | some targetManifest =>
        have hdelete : p ∈ (plan calmEnv.order ks kt sourceManifest targetManifest .oneWay deleteMode).toDelete :=
          (mem_toDelete_oneWay hmode hs ht).2 ⟨hpt, hshown, .inr hhidden⟩
        have hrun : (executeSync calmEnv source target sourceScan targetScan .oneWay deleteMode).1 =
            run (step calmEnv) ⟨source, target, .empty⟩
              (operations calmEnv (plan calmEnv.order ks kt sourceManifest targetManifest .oneWay deleteMode)) := by
          unfold executeSync
          rw [hs, ht]
          rfl
        rw [hrun, operations_oneWay, run_append] at hkeep
        exact hkeep (Tree.fileAt_eq_none.2 (.inl (run_deletes_gone (fun _ => rfl) hdelete)))
    · rintro ⟨hmanifest, q, hq, hstages⟩
      obtain ⟨targetManifest, ht⟩ := Option.ne_none_iff_exists'.1 hmanifest
      exact hkeeps _ p hps hpt (Tree.fileAt_eq_none.2 (.inl (staged_file_taken hs ht hq hstages hpt)))
  · intro hshows env p hps hpt
    obtain ⟨hshown, hstaged⟩ := hshows p hps hpt
    unfold executeSync
    rw [hs]
    cases ht : target.manifest targetScan with
    | none => exact hpt
    | some targetManifest =>
      have hspared : Spared kt (fillings env (plan env.order ks kt sourceManifest targetManifest .oneWay deleteMode)) p :=
        spared_of_not_stagedOver hs ht hstaged
      have hstays : ∀ q ∈ (plan env.order ks kt sourceManifest targetManifest .oneWay deleteMode).toDelete,
          ¬ Tree.Clears kt q p := by
        intro q hq
        obtain ⟨hfile, hlisted, hgone⟩ := (mem_toDelete_oneWay hmode hs ht).1 hq
        refine not_clears_of_files hpt hfile ?_
        rintro rfl
        rcases hgone with hnone | hhidden
        · exact hps (Tree.fileAt_eq_none.2 (.inl hnone))
        · exact hhidden (hshown hlisted)
      -- however far the run comes: what fills the target, then some of the deletions
      dsimp only
      rw [operations_oneWay]
      cases env.cancelledAfter with
      | none => exact run_keeps_other fillings_fill hspared hstays hpt
      | some n =>
        dsimp only
        rw [List.take_append, ← List.map_take]
        exact run_keeps_other (fun op hop => fillings_fill op (List.mem_of_mem_take hop))
          (fun f hf => hspared f (List.mem_of_mem_take hf)) (fun q hq => hstays q (List.mem_of_mem_take hq)) hpt

def unreadableScan : ScanWorld := { sampleScan with errors := { ReadErrors.none with metadata := fun p => p = ["a"] } }

def oneFile : Tree .localFolder := .of _ [.write ["a"] [1] 1000]

theorem keeps_shared_files_iff_unreadable :
    (∀ env, KeepsSharedFiles oneFile oneFile (executeSync env oneFile oneFile unreadableScan sampleScan .oneWay .trash).1.target) ↔
      ∀ p, oneFile.fileAt p ≠ none → oneFile.fileAt p ≠ none →
        (oneFile.Shows sampleScan p → oneFile.Shows unreadableScan p) ∧
          ¬ StagedOver oneFile oneFile unreadableScan sampleScan .trash p :=
  keeps_shared_files_iff oneFile oneFile unreadableScan sampleScan (by decide) (by decide)

/-- A file whose metadata cannot be read on the source is deleted on the target. -/
theorem unreadable_file_deleted : ¬ ∀ (ks kt : ProviderKind) (source : Tree ks) (target : Tree kt)
    (sourceScan targetScan : ScanWorld) (deleteMode : DeleteMode), deleteMode ≠ .ignore → source.manifest sourceScan ≠ none →
    ∀ env, KeepsSharedFiles source target (executeSync env source target sourceScan targetScan .oneWay deleteMode).1.target := by
  intro h
  have h := h _ _ oneFile oneFile unreadableScan sampleScan .trash (by decide) (by decide) calmEnv ["a"]
  revert h
  decide

/-! ## What no run deletes -/

section Kept
variable {env : Env} {s : SyncState ks kt} {p : Path} {c : SyncConflict} {op : Op}

/-- What is a file before is one after. -/
def KeepsFiles {k : ProviderKind} (before after : Tree k) : Prop := ∀ p, before.fileAt p ≠ none → after.fileAt p ≠ none

theorem resolveConflict_keeps_file : (resolveConflict env s c).source = s.source ∧
    (kt ≠ .peer → s.target.fileAt p ≠ none → (resolveConflict env s c).target.fileAt p ≠ none) := by
  have hrestore : ∀ s : SyncState ks kt, (restore env s c).source = s.source ∧
      (kt ≠ .peer → s.target.fileAt p ≠ none → (restore env s c).target.fileAt p ≠ none) := by
    intro s
    unfold restore
    dsimp only
    split <;> exact ⟨rfl, fun hk => transfer_keeps_file fun hs => hk hs.1⟩
  unfold resolveConflict
  dsimp only
  split
  · exact ⟨(hrestore _).1, fun hk hp => (hrestore _).2 hk (transfer_keeps_file (fun hs => hk hs.1) hp)⟩
  · exact ⟨rfl, fun hk => transfer_keeps_file fun hs => hk hs.1⟩

theorem step_source (hop : ∀ f, op ≠ .upload f) : (step env s op).source = s.source := by
  cases op with
  | upload f => exact absurd rfl (hop f)
  | conflict c => exact (resolveConflict_keeps_file (p := [])).1
  | createDirectory q | download f | delete q => rfl

theorem step_keeps_files (hop : ∀ q, op ≠ .delete q) :
    (ks ≠ .peer → s.source.fileAt p ≠ none → (step env s op).source.fileAt p ≠ none) ∧
      (kt ≠ .peer → s.target.fileAt p ≠ none → (step env s op).target.fileAt p ≠ none) := by
  cases op with
  | createDirectory q => exact ⟨fun _ => id, fun hk => step_keeps_file trivial fun _ _ hs => hk hs.1⟩
  | download f => exact ⟨fun _ => id, fun hk => transfer_keeps_file fun hs => hk hs.1⟩
  | upload f => exact ⟨fun hk => transfer_keeps_file fun hs => hk hs.1, fun _ => id⟩
  | delete q => exact absurd rfl (hop q)
  | conflict c =>
    have hsource : (step env s (.conflict c)).source = s.source := step_source nofun
    exact ⟨fun _ hp => by rwa [hsource], resolveConflict_keeps_file.2⟩

theorem executeSync_ops (env : Env) (source : Tree ks) (target : Tree kt) (sourceScan targetScan : ScanWorld)
    (direction : SyncDirection) (deleteMode : DeleteMode) :
    ∃ ops, (executeSync env source target sourceScan targetScan direction deleteMode).1 =
        run (step env) ⟨source, target, .empty⟩ ops ∧
      ∀ op ∈ ops, ∃ sf tf, op ∈ operations env (plan env.order ks kt sf tf direction deleteMode) := by
  unfold executeSync
  split
  · exact ⟨[], rfl, nofun⟩
  · split
    · exact ⟨[], rfl, nofun⟩
    · dsimp only
      split
      · exact ⟨_, rfl, fun op hop => ⟨_, _, List.mem_of_mem_take hop⟩⟩
      · exact ⟨_, rfl, fun op hop => ⟨_, _, hop⟩⟩

/-- A one-way run leaves the source as it was. -/
theorem one_way_spares_source (env : Env) (source : Tree ks) (target : Tree kt) (sourceScan targetScan : ScanWorld)
    (deleteMode : DeleteMode) :
    (executeSync env source target sourceScan targetScan .oneWay deleteMode).1.source = source := by
  obtain ⟨ops, hrun, hops⟩ := executeSync_ops env source target sourceScan targetScan .oneWay deleteMode
  have huploads : ∀ op ∈ ops, ∀ f, op ≠ .upload f := by
    rintro op hop f rfl
    obtain ⟨sf, tf, hmem⟩ := hops _ hop
    have hplanned : f ∈ env.completed (plan env.order ks kt sf tf .oneWay deleteMode).toUpload := by
      simpa [operations] using hmem
    obtain ⟨q, hq⟩ := mem_planned.1 (mem_plan_toUpload.1 ((env.completed_perm _).mem_iff.1 hplanned))
    exact absurd (planAt_upload hq).2 (by decide)
  have hguard : Guarded (step env) (fun _ op => ∀ f, op ≠ .upload f) (⟨source, target, .empty⟩ : SyncState ks kt) ops :=
    guarded_of_forall fun _ => huploads
  rw [hrun]
  exact hguard.inv (I := fun s => s.source = source) (fun s op hs hop => (step_source hop).trans hs) rfl

/-- A two-way run deletes no file on a side that is no peer, wherever it fails or is cancelled. -/
theorem two_way_deletes_no_file (env : Env) (source : Tree ks) (target : Tree kt) (sourceScan targetScan : ScanWorld)
    (deleteMode : DeleteMode) :
    (ks ≠ .peer → KeepsFiles source (executeSync env source target sourceScan targetScan .twoWay deleteMode).1.source) ∧
      (kt ≠ .peer → KeepsFiles target (executeSync env source target sourceScan targetScan .twoWay deleteMode).1.target) := by
  obtain ⟨ops, hrun, hops⟩ := executeSync_ops env source target sourceScan targetScan .twoWay deleteMode
  have hdeletes : ∀ op ∈ ops, ∀ q, op ≠ .delete q := by
    rintro op hop q rfl
    obtain ⟨sf, tf, hmem⟩ := hops _ hop
    have hplanned : q ∈ (plan env.order ks kt sf tf .twoWay deleteMode).toDelete := by simpa [operations] using hmem
    obtain ⟨r, hr⟩ := mem_planned.1 (mem_plan_toDelete.1 hplanned)
    exact absurd (planAt_delete hr).2.2.1 (by decide)
  have hguard : Guarded (step env) (fun _ op => ∀ q, op ≠ .delete q) (⟨source, target, .empty⟩ : SyncState ks kt) ops :=
    guarded_of_forall fun _ => hdeletes
  rw [hrun]
  refine hguard.inv (I := fun s => (ks ≠ .peer → KeepsFiles source s.source) ∧ (kt ≠ .peer → KeepsFiles target s.target))
    (fun s op hs hop => ?_) ⟨fun _ _ => id, fun _ _ => id⟩
  exact ⟨fun hk p hp => (step_keeps_files hop).1 hk (hs.1 hk p hp), fun hk p hp => (step_keeps_files hop).2 hk (hs.2 hk p hp)⟩

end Kept

end HaexVault.FileSync
