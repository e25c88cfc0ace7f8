import HaexVault.FileSync.Engine
/-!
# What a run without errors leaves

A run that ends without errors and had no conflicts has done its whole plan
(`CleanSync`). Its lemmas say what each side then has at each path, from what was
planned there; `mirrored_iff` compares that with what the sync is for.
-/

namespace HaexVault.FileSync

open HaexVault.Lib.Runs

variable {ks kt : ProviderKind}

def Tree.stateAt {k : ProviderKind} (t : Tree k) (w : ScanWorld) (p : Path) : Option FileState :=
  (t.lookup p).map (fileState k w p)

section StateAt
variable {k : ProviderKind} {t : Tree k} {w : ScanWorld} {p : Path} {f : FileState}

theorem relativePath_of_stateAt (h : t.stateAt w p = some f) : f.relativePath = p := by
  obtain ⟨n, -, rfl⟩ := Option.map_eq_some_iff.1 h
  exact fileState_relativePath

theorem lookup_of_stateAt_file (h : t.stateAt w p = some f) (hf : f.isDirectory = false) :
    ∃ bytes m, t.lookup p = some (.file bytes m) := by
  obtain ⟨n, hn, rfl⟩ := Option.map_eq_some_iff.1 h
  cases n with
  | file bytes m => exact ⟨bytes, m, hn⟩
  | directory => cases hf

theorem isDir_of_stateAt (h : t.stateAt w p = some f) (hf : f.isDirectory = true) : t.isDir p := by
  obtain ⟨n, hn, rfl⟩ := Option.map_eq_some_iff.1 h
  cases n with
  | file bytes m => cases hf
  | directory => exact hn

theorem file_of_stateAt (h : t.stateAt w p = some f) (hdir : ¬ t.isDir p) : f.isDirectory = false := by
  by_contra hd
  exact hdir (isDir_of_stateAt h (by simpa using hd))

theorem fileState_isDirectory {n : Node} : (fileState k w p n).isDirectory = true ↔ n = .directory := by
  cases n <;> simp [fileState]

theorem stateAt_eq_none : t.stateAt w p = none ↔ t.lookup p = none := Option.map_eq_none_iff

end StateAt

structure SyncInput (ks kt : ProviderKind) where
  source : Tree ks
  target : Tree kt
  sourceScan : ScanWorld
  targetScan : ScanWorld
  direction : SyncDirection
  deleteMode : DeleteMode

namespace SyncInput
variable (i : SyncInput ks kt)

def planHere (p : Path) : Option Planned :=
  planAt i.direction i.deleteMode p (i.source.stateAt i.sourceScan p) (i.target.stateAt i.targetScan p)

def CreatesDirectories : Prop := kt.supportsDirectories = true ∧ (ks.supportsDirectories = true ∨ i.direction = .oneWay)

instance : Decidable i.CreatesDirectories := inferInstanceAs (Decidable (_ ∧ _))

/-- A peer stages nothing of the run where it has a file, or where the run writes one. -/
structure Apart : Prop where
  target : kt = .peer → ∀ p f, i.planHere p = some (.download f) →
    i.target.fileAt (partOf p) = none ∧ ∀ g, i.planHere (partOf p) ≠ some (.download g)
  source : ks = .peer → ∀ p f, i.planHere p = some (.upload f) →
    i.source.fileAt (partOf p) = none ∧ ∀ g, i.planHere (partOf p) ≠ some (.upload g)

variable {i} {p q : Path} {f : FileState}

theorem mem_planned {order : HashOrder} {sf tf : List FileState} {a : Planned} (hs : i.source.manifest i.sourceScan = some sf)
    (ht : i.target.manifest i.targetScan = some tf) (hsw : i.sourceScan.errors = .none) (htw : i.targetScan.errors = .none) :
    a ∈ planned order sf tf i.direction i.deleteMode ↔ ∃ p, i.planHere p = some a := by
  rw [FileSync.mem_planned]
  refine exists_congr fun p => ?_
  rw [Tree.lookup_manifest_of_none hs hsw, Tree.lookup_manifest_of_none ht htw]
  rfl

theorem download_file (h : i.planHere p = some (.download f)) :
    f.relativePath = p ∧ ∃ bytes m, i.source.lookup p = some (.file bytes m) := by
  obtain ⟨hstate, hfile⟩ := planAt_download h
  exact ⟨relativePath_of_stateAt hstate, lookup_of_stateAt_file hstate hfile⟩

theorem upload_path (h : i.planHere p = some (.upload f)) : f.relativePath = p :=
  relativePath_of_stateAt (planAt_upload h).1

theorem delete_file (h : i.planHere p = some (.delete q)) :
    q = p ∧ i.source.lookup p = none ∧ i.direction = .oneWay ∧ ∃ bytes m, i.target.lookup p = some (.file bytes m) := by
  obtain ⟨hq, hnone, hdirection, f, hstate, hfile⟩ := planAt_delete h
  exact ⟨hq, stateAt_eq_none.1 hnone, hdirection, lookup_of_stateAt_file hstate hfile⟩

theorem createDirectory_isDir (h : i.planHere p = some (.createDirectory q)) :
    q = p ∧ ((i.target.lookup p = none ∧ i.source.isDir p) ∨
      (i.direction = .twoWay ∧ i.source.lookup p = none ∧ i.target.isDir p)) := by
  obtain ⟨hq, ⟨hnone, f, hstate, hdir⟩ | ⟨hdirection, hnone, f, hstate, hdir⟩⟩ := planAt_createDirectory h
  · exact ⟨hq, .inl ⟨stateAt_eq_none.1 hnone, isDir_of_stateAt hstate hdir⟩⟩
  · exact ⟨hq, .inr ⟨hdirection, stateAt_eq_none.1 hnone, isDir_of_stateAt hstate hdir⟩⟩

end SyncInput

/-! ## A run that has done its whole plan -/

/-- The target is filled (`middle`), then the source, and then the target is cleared. -/
structure CleanSync (env : Env) (i : SyncInput ks kt) (middle : Tree kt) (s : SyncState ks kt) : Prop where
  calm : ∀ p c, i.planHere p ≠ some (.conflict c)
  apart : i.Apart
  filled : ∃ es, i.target.edits es = some middle ∧ ∀ e, e ∈ es ↔
    (i.CreatesDirectories ∧ ∃ p, i.planHere p = some (.createDirectory p) ∧ e = .createDirectory p) ∨
      ∃ p f, i.planHere p = some (.download f) ∧ e = writeOf env i.source f
  readBack : ∀ p f, i.planHere p = some (.upload f) → middle.read p ≠ none
  returned : ∃ es, i.source.edits es = some s.source ∧ ∀ e, e ∈ es ↔
    ∃ p f, i.planHere p = some (.upload f) ∧ e = writeOf env middle f
  cleared : ∃ qs, middle.deletes qs = some s.target ∧ ∀ p, p ∈ qs ↔ i.planHere p = some (.delete p)

/-- `execute_sync` on an input. -/
def SyncInput.execute (env : Env) (i : SyncInput ks kt) : SyncState ks kt × Except SyncEngineError SyncResult :=
  executeSync env i.source i.target i.sourceScan i.targetScan i.direction i.deleteMode

/-- A run that ends without errors, from scans without errors and a plan without conflicts. -/
theorem cleanSync {env : Env} {i : SyncInput ks kt} {s : SyncState ks kt} {r : SyncResult} {sf tf : List FileState}
    (hsw : i.sourceScan.errors = .none) (htw : i.targetScan.errors = .none) (hs : i.source.manifest i.sourceScan = some sf)
    (ht : i.target.manifest i.targetScan = some tf)
    (hconflicts : (plan env.order ks kt sf tf i.direction i.deleteMode).conflicts = []) (hapart : i.Apart)
    (hrun : i.execute env = (s, .ok r)) (herrors : r.errors = []) : ∃ middle, CleanSync env i middle s := by
  have hmem : ∀ a, a ∈ planned env.order sf tf i.direction i.deleteMode ↔ ∃ p, i.planHere p = some a :=
    fun a => SyncInput.mem_planned hs ht hsw htw
  unfold SyncInput.execute executeSync at hrun
  simp only [hs, ht] at hrun
  cases hcancel : env.cancelledAfter with
  | some n => simp [hcancel] at hrun
  | none =>
    rw [hcancel] at hrun
    obtain ⟨rfl, hr⟩ := Prod.ext_iff.1 hrun
    obtain rfl := Except.ok.inj hr
    obtain ⟨-, middle, hmiddle, hread, hsource, htarget⟩ := clean_run herrors hconflicts
    refine ⟨middle, fun p c hc => ?_, hapart, ⟨_, hmiddle, fun e => ?_⟩, fun p f hp => ?_,
      ⟨_, hsource, fun e => ?_⟩, _, htarget, fun p => ?_⟩
    · have hin : c ∈ (plan env.order ks kt sf tf i.direction i.deleteMode).conflicts :=
        mem_plan_conflicts.2 ((hmem _).2 ⟨p, hc⟩)
      rw [hconflicts] at hin
      exact List.not_mem_nil hin
    · rw [List.mem_append, List.mem_map, List.mem_map]
      refine or_congr ⟨?_, ?_⟩ ⟨?_, ?_⟩
      · rintro ⟨q, hq, rfl⟩
        obtain ⟨hallowed, hq⟩ := mem_plan_toCreateDirectories.1 hq
        obtain ⟨p, hp⟩ := (hmem _).1 hq
        obtain ⟨rfl, -⟩ := SyncInput.createDirectory_isDir hp
        exact ⟨hallowed, q, hp, rfl⟩
      · rintro ⟨hallowed, p, hp, rfl⟩
        exact ⟨p, mem_plan_toCreateDirectories.2 ⟨hallowed, (hmem _).2 ⟨p, hp⟩⟩, rfl⟩
      · rintro ⟨f, hf, rfl⟩
        obtain ⟨p, hp⟩ := (hmem _).1 (mem_plan_toDownload.1 ((env.completed_perm _).mem_iff.1 hf))
        exact ⟨p, f, hp, rfl⟩
      · rintro ⟨p, f, hp, rfl⟩
        exact ⟨f, (env.completed_perm _).mem_iff.2 (mem_plan_toDownload.2 ((hmem _).2 ⟨p, hp⟩)), rfl⟩
    · have hf := hread f (mem_plan_toUpload.2 ((hmem _).2 ⟨p, hp⟩))
      rwa [SyncInput.upload_path hp] at hf
    · rw [List.mem_map]
      constructor
      · rintro ⟨f, hf, rfl⟩
        obtain ⟨p, hp⟩ := (hmem _).1 (mem_plan_toUpload.1 ((env.completed_perm _).mem_iff.1 hf))
        exact ⟨p, f, hp, rfl⟩
      · rintro ⟨p, f, hp, rfl⟩
        exact ⟨f, (env.completed_perm _).mem_iff.2 (mem_plan_toUpload.2 ((hmem _).2 ⟨p, hp⟩)), rfl⟩
    · rw [mem_plan_toDelete, hmem]
      constructor
      · rintro ⟨q, hq⟩
        obtain ⟨rfl, -⟩ := SyncInput.delete_file hq
        exact hq
      · intro hp
        exact ⟨p, hp⟩

namespace CleanSync
variable {env : Env} {i : SyncInput ks kt} {middle : Tree kt} {s : SyncState ks kt} {p : Path} {f : FileState}

/-- The paths at which the target stages what it downloads. -/
theorem staged_target (h : CleanSync env i middle s) {es : List Tree.Edit} (hmem : ∀ e, e ∈ es ↔
    (i.CreatesDirectories ∧ ∃ p, i.planHere p = some (.createDirectory p) ∧ e = .createDirectory p) ∨
      ∃ p f, i.planHere p = some (.download f) ∧ e = writeOf env i.source f) {e : Tree.Edit} (he : e ∈ es) (hs : e.Stages kt p) :
    i.target.fileAt p = none ∧ ∀ g, i.planHere p ≠ some (.download g) := by
  obtain ⟨q, ⟨bytes, now, rfl⟩, hk, rfl⟩ := hs
  rcases (hmem _).1 he with ⟨-, r, -, hr⟩ | ⟨r, f, hr, hw⟩
  · cases hr
  · cases hw
    obtain ⟨rfl, -⟩ := SyncInput.download_file hr
    exact h.apart.target hk _ f hr

/-- The paths at which the source stages what it is sent. -/
theorem staged_source (h : CleanSync env i middle s) {es : List Tree.Edit}
    (hmem : ∀ e, e ∈ es ↔ ∃ p f, i.planHere p = some (.upload f) ∧ e = writeOf env middle f) {e : Tree.Edit} (he : e ∈ es)
    (hs : e.Stages ks p) : i.source.fileAt p = none ∧ ∀ g, i.planHere p ≠ some (.upload g) := by
  obtain ⟨q, ⟨bytes, now, rfl⟩, hk, rfl⟩ := hs
  obtain ⟨r, f, hr, hw⟩ := (hmem _).1 he
  cases hw
  obtain rfl := SyncInput.upload_path hr
  exact h.apart.source hk _ f hr

theorem writes_middle (h : CleanSync env i middle s) (hp : ∀ f, i.planHere p ≠ some (.download f)) :
    middle.fileAt p = i.target.fileAt p := by
  obtain ⟨es, hes, hmem⟩ := h.filled
  refine Tree.fileAt_edits hes ?_ (or_iff_not_imp_left.2 fun hfile e he hs => hfile (h.staged_target hmem he hs).1)
  rintro e he ⟨bytes, now, rfl⟩
  rcases (hmem _).1 he with ⟨-, q, -, hq⟩ | ⟨q, f, hq, hw⟩
  · cases hq
  · cases hw
    obtain ⟨rfl, -⟩ := SyncInput.download_file hq
    exact hp f hq

theorem downloaded_middle (h : CleanSync env i middle s) (hp : i.planHere p = some (.download f)) :
    ∃ bytes m, i.source.lookup p = some (.file bytes m) ∧ ¬ i.target.isDir p ∧
      middle.fileAt p = some (bytes, env.writtenAt p) := by
  obtain ⟨es, hes, hmem⟩ := h.filled
  obtain ⟨hpath, bytes, m, hlookup⟩ := SyncInput.download_file hp
  have hread : ∀ g : FileState, g.relativePath = p → (i.source.read g.relativePath).getD [] = bytes := by
    intro g hg
    rw [hg, Tree.read, Tree.contentAt, Tree.fileAt_eq_some (f := (bytes, m)) |>.2 hlookup]
    rfl
  have hwrite : .write p bytes (env.writtenAt p) ∈ es := by
    refine (hmem _).2 (.inr ⟨p, f, hp, ?_⟩)
    rw [writeOf, hread f hpath, hpath]
  have hstaged : ∀ e ∈ es, ¬ e.Stages kt p := fun e he hs => (h.staged_target hmem he hs).2 f hp
  obtain ⟨hdir, hfile⟩ := Tree.fileAt_edits_write hes hwrite hstaged fun bytes' now' hw => by
    rcases (hmem _).1 hw with ⟨-, q, -, hq⟩ | ⟨q, g, hq, hg⟩
    · cases hq
    · cases hg
      exact ⟨hread g rfl, rfl⟩
  exact ⟨bytes, m, hlookup, hdir, hfile⟩

theorem isDir_middle (h : CleanSync env i middle s) : middle.isDir p ↔ i.target.isDir p ∨
    (i.CreatesDirectories ∧ ∃ q, i.planHere q = some (.createDirectory q) ∧ p ∈ Tree.needs kt (q :: parents q)) ∨
      ∃ q f, i.planHere q = some (.download f) ∧ p ∈ Tree.needs kt (parents q) := by
  obtain ⟨es, hes, hmem⟩ := h.filled
  rw [Tree.isDir_edits hes]
  refine or_congr_right ⟨?_, ?_⟩
  · rintro ⟨e, he, hp⟩
    rcases (hmem e).1 he with ⟨hallowed, q, hq, rfl⟩ | ⟨q, f, hq, rfl⟩
    · exact .inl ⟨hallowed, q, hq, hp⟩
    · obtain ⟨rfl, -⟩ := SyncInput.download_file hq
      exact .inr ⟨_, f, hq, hp⟩
  · rintro (⟨hallowed, q, hq, hp⟩ | ⟨q, f, hq, hp⟩)
    · exact ⟨_, (hmem _).2 (.inl ⟨hallowed, q, hq, rfl⟩), hp⟩
    · refine ⟨_, (hmem _).2 (.inr ⟨q, f, hq, rfl⟩), ?_⟩
      obtain ⟨rfl, -⟩ := SyncInput.download_file hq
      exact hp

/-! ### The source -/

theorem source_file (h : CleanSync env i middle s) (hp : ∀ f, i.planHere p ≠ some (.upload f)) :
    s.source.fileAt p = i.source.fileAt p := by
  obtain ⟨es, hes, hmem⟩ := h.returned
  refine Tree.fileAt_edits hes ?_ (or_iff_not_imp_left.2 fun hfile e he hs => hfile (h.staged_source hmem he hs).1)
  rintro e he ⟨bytes, now, rfl⟩
  obtain ⟨q, f, hq, hw⟩ := (hmem _).1 he
  cases hw
  obtain rfl := SyncInput.upload_path hq
  exact hp f hq

theorem uploaded (h : CleanSync env i middle s) (hp : i.planHere p = some (.upload f)) :
    ∃ bytes m, i.target.lookup p = some (.file bytes m) ∧ ¬ i.source.isDir p ∧
      s.source.fileAt p = some (bytes, env.writtenAt p) := by
  obtain ⟨es, hes, hmem⟩ := h.returned
  have hpath := SyncInput.upload_path hp
  have hkept : middle.fileAt p = i.target.fileAt p := h.writes_middle fun g hg => by
    rw [hp] at hg
    cases hg
  obtain ⟨bytes, hbytes⟩ := Option.ne_none_iff_exists'.1 (h.readBack p f hp)
  have hread : ∀ g : FileState, g.relativePath = p → (middle.read g.relativePath).getD [] = bytes := by
    intro g hg
    rw [hg, hbytes]
    rfl
  have hwrite : .write p bytes (env.writtenAt p) ∈ es := by
    refine (hmem _).2 ⟨p, f, hp, ?_⟩
    rw [writeOf, hread f hpath, hpath]
  have hstaged : ∀ e ∈ es, ¬ e.Stages ks p := fun e he hs => (h.staged_source hmem he hs).2 f hp
  obtain ⟨hdir, hfile⟩ := Tree.fileAt_edits_write hes hwrite hstaged fun bytes' now' hw => by
    obtain ⟨q, g, hq, hg⟩ := (hmem _).1 hw
    cases hg
    exact ⟨hread g rfl, rfl⟩
  rw [Tree.read, Tree.contentAt, hkept] at hbytes
  obtain ⟨⟨b, m⟩, hfileAt, rfl⟩ := Option.map_eq_some_iff.1 hbytes
  exact ⟨b, m, Tree.fileAt_eq_some.1 hfileAt, hdir, hfile⟩

theorem source_isDir (h : CleanSync env i middle s) : s.source.isDir p ↔ i.source.isDir p ∨
    ∃ q f, i.planHere q = some (.upload f) ∧ p ∈ Tree.needs ks (parents q) := by
  obtain ⟨es, hes, hmem⟩ := h.returned
  rw [Tree.isDir_edits hes]
  refine or_congr_right ⟨?_, ?_⟩
  · rintro ⟨e, he, hp⟩
    obtain ⟨q, f, hq, rfl⟩ := (hmem e).1 he
    obtain rfl := SyncInput.upload_path hq
    exact ⟨_, f, hq, hp⟩
  · rintro ⟨q, f, hq, hp⟩
    refine ⟨_, (hmem _).2 ⟨q, f, hq, rfl⟩, ?_⟩
    obtain rfl := SyncInput.upload_path hq
    exact hp

/-! ### The target -/

theorem target_lookup (h : CleanSync env i middle s) :
    s.target.lookup p = if i.planHere p = some (.delete p) then none else middle.lookup p := by
  obtain ⟨qs, hqs, hmem⟩ := h.cleared
  have hfiles : ∀ q ∈ qs, ¬ middle.isDir q := by
    intro q hq hdir
    have hplan := (hmem q).1 hq
    obtain ⟨-, -, -, bytes, m, hlookup⟩ := SyncInput.delete_file hplan
    have hkept : middle.fileAt q = i.target.fileAt q := h.writes_middle (by simp [hplan])
    rw [Tree.fileAt_of_isDir hdir, Tree.fileAt_eq_some (f := (bytes, m)) |>.2 hlookup] at hkept
    cases hkept
  rw [Tree.lookup_deletes hqs hfiles]
  exact if_congr (hmem p) rfl rfl

theorem target_file (h : CleanSync env i middle s) (hdown : ∀ f, i.planHere p ≠ some (.download f))
    (hdel : i.planHere p ≠ some (.delete p)) : s.target.fileAt p = i.target.fileAt p := by
  rw [← h.writes_middle hdown]
  exact Tree.fileAt_congr (h.target_lookup.trans (if_neg hdel))

theorem downloaded (h : CleanSync env i middle s) (hp : i.planHere p = some (.download f)) :
    ∃ bytes m, i.source.lookup p = some (.file bytes m) ∧ ¬ i.target.isDir p ∧
      s.target.fileAt p = some (bytes, env.writtenAt p) := by
  obtain ⟨bytes, m, hlookup, hdir, hfile⟩ := h.downloaded_middle hp
  have hdel : i.planHere p ≠ some (.delete p) := by
    rw [hp]
    rintro ⟨⟩
  exact ⟨bytes, m, hlookup, hdir, (Tree.fileAt_congr (h.target_lookup.trans (if_neg hdel))).trans hfile⟩

theorem deleted (h : CleanSync env i middle s) (hp : i.planHere p = some (.delete p)) : s.target.lookup p = none :=
  h.target_lookup.trans (if_pos hp)

theorem target_isDir (h : CleanSync env i middle s) : s.target.isDir p ↔ i.target.isDir p ∨
    (i.CreatesDirectories ∧ ∃ q, i.planHere q = some (.createDirectory q) ∧ p ∈ Tree.needs kt (q :: parents q)) ∨
      ∃ q f, i.planHere q = some (.download f) ∧ p ∈ Tree.needs kt (parents q) := by
  rw [← h.isDir_middle, Tree.isDir, h.target_lookup]
  split
  · rename_i hdel
    -- a deleted path was a file before the deletions
    obtain ⟨-, -, -, bytes, m, hlookup⟩ := SyncInput.delete_file hdel
    have hkept : middle.fileAt p = i.target.fileAt p := h.writes_middle fun g hg => by
      rw [hdel] at hg
      cases hg
    rw [Tree.fileAt_eq_some (f := (bytes, m)) |>.2 hlookup] at hkept
    constructor
    · rintro ⟨⟩
    · intro hdir
      rw [Tree.fileAt_of_isDir hdir] at hkept
      cases hkept
  · rfl

end CleanSync

/-! ## What the sync is for -/

/-- One-way: the target has exactly the source's files. Two-way: both sides have the same files and directories. -/
def Mirrored (direction : SyncDirection) (source : Tree ks) (target : Tree kt) : Prop :=
  match direction with
  | .oneWay => ∀ p, target.contentAt p = source.contentAt p
  | .twoWay => (∀ p, target.contentAt p = source.contentAt p) ∧ ∀ p, target.isDir p ↔ source.isDir p

def SameKinds (source : Tree ks) (target : Tree kt) : Prop :=
  ∀ p, ¬ (source.fileAt p ≠ none ∧ target.isDir p) ∧ ¬ (source.isDir p ∧ target.fileAt p ≠ none)

def FilledDirectories (source : Tree ks) (target : Tree kt) : Prop :=
  ∀ p, target.isDir p → source.lookup p = none → ∃ q, target.fileAt q ≠ none ∧ p ∈ parents q

def TellsApart (sha : Bytes → String) (source : Tree ks) (target : Tree kt) : Prop :=
  ∀ b ∈ source.contents, ∀ b' ∈ target.contents, sha b = sha b' → b = b'

instance (sha : Bytes → String) (source : Tree ks) (target : Tree kt) : Decidable (TellsApart sha source target) :=
  inferInstanceAs (Decidable (∀ b ∈ _, ∀ b' ∈ _, _ → _))

theorem Tree.contentAt_file {k : ProviderKind} {t : Tree k} {p : Path} {bytes : Bytes} {m : Nat}
    (h : t.lookup p = some (.file bytes m)) : t.contentAt p = some bytes := by
  rw [contentAt, fileAt_eq_some (f := (bytes, m)) |>.2 h]
  rfl

theorem Tree.fileAt_file {k : ProviderKind} {t : Tree k} {p : Path} {bytes : Bytes} {m : Nat}
    (h : t.lookup p = some (.file bytes m)) : t.fileAt p ≠ none := by
  rw [fileAt_eq_some (f := (bytes, m)) |>.2 h]
  exact Option.some_ne_none _

theorem Tree.needs_eq {k : ProviderKind} (hk : k.supportsDirectories = true) (ps : List Path) : Tree.needs k ps = ps := if_pos hk

theorem eq_of_filesEqual {sw tw : ScanWorld} {p : Path} {b b' : Bytes} {m m' : Nat} {sha : Bytes → String}
    (hks : ks.reportsHashes = true) (hkt : kt.reportsHashes = true) (hsw : sw.errors = .none) (htw : tw.errors = .none)
    (hss : sw.sha = sha) (hst : tw.sha = sha)
    (h : filesEqual (fileState ks sw p (.file b m)) (fileState kt tw p (.file b' m')) = true) : sha b = sha b' := by
  simp only [filesEqual, fileState, hks, hkt, hsw, htw, hss, hst, ReadErrors.none, Bool.not_false, Bool.and_true, if_true,
    Bool.and_eq_true, decide_eq_true_eq] at h
  exact h.2

section Mirror
variable {env : Env} {i : SyncInput ks kt} {middle : Tree kt} {s : SyncState ks kt} {sha : Bytes → String} {p : Path}

def SyncInput.Clash (i : SyncInput ks kt) (p : Path) : Prop :=
  (i.source.fileAt p ≠ none ∧ i.target.isDir p) ∨ (i.source.isDir p ∧ i.target.fileAt p ≠ none)

/-- What is moved or deleted agrees afterwards, and is of one kind. -/
theorem CleanSync.content_of_planned {a : Planned} (h : CleanSync env i middle s) (hplan : i.planHere p = some a) :
    s.target.contentAt p = s.source.contentAt p ∧ ¬ i.Clash p := by
  cases a with
  | conflict c => exact absurd hplan (h.calm p c)
  | download f =>
    obtain ⟨bytes, m, hlookup, hdir, hfile⟩ := h.downloaded hplan
    have hsource : s.source.fileAt p = i.source.fileAt p := h.source_file (by simp [hplan])
    refine ⟨?_, ?_⟩
    · rw [Tree.contentAt, hfile, Tree.contentAt, hsource, Tree.fileAt_eq_some (f := (bytes, m)) |>.2 hlookup]
      rfl
    · rintro (⟨-, hd⟩ | ⟨hd, -⟩)
      · exact hdir hd
      · rw [Tree.isDir, hlookup] at hd
        cases hd
  | upload f =>
    obtain ⟨bytes, m, hlookup, hdir, hfile⟩ := h.uploaded hplan
    have htarget : s.target.fileAt p = i.target.fileAt p := h.target_file (by simp [hplan]) (by simp [hplan])
    refine ⟨?_, ?_⟩
    · rw [Tree.contentAt, htarget, Tree.contentAt, hfile, Tree.fileAt_eq_some (f := (bytes, m)) |>.2 hlookup]
      rfl
    · rintro (⟨-, hd⟩ | ⟨hd, -⟩)
      · rw [Tree.isDir, hlookup] at hd
        cases hd
      · exact hdir hd
  | delete q =>
    obtain ⟨rfl, hnone, -⟩ := SyncInput.delete_file hplan
    have hsource : s.source.fileAt q = none := by
      rw [h.source_file (by simp [hplan]), Tree.fileAt_eq_none]
      exact .inl hnone
    refine ⟨?_, ?_⟩
    · rw [Tree.contentAt_eq_none.2 (Tree.fileAt_eq_none.2 (.inl (h.deleted hplan))), Tree.contentAt_eq_none.2 hsource]
    · rintro (⟨hfile, -⟩ | ⟨hd, -⟩)
      · exact hfile (Tree.fileAt_eq_none.2 (.inl hnone))
      · rw [Tree.isDir, hnone] at hd
        cases hd
  | createDirectory q =>
    obtain ⟨rfl, hcases⟩ := SyncInput.createDirectory_isDir hplan
    have hsource : i.source.fileAt q = none := by
      rcases hcases with ⟨-, hdir⟩ | ⟨-, hnone, -⟩
      · exact Tree.fileAt_of_isDir hdir
      · exact Tree.fileAt_eq_none.2 (.inl hnone)
    have htarget : i.target.fileAt q = none := by
      rcases hcases with ⟨hnone, -⟩ | ⟨-, -, hdir⟩
      · exact Tree.fileAt_eq_none.2 (.inl hnone)
      · exact Tree.fileAt_of_isDir hdir
    have hs' : s.source.fileAt q = none := (h.source_file (by simp [hplan])).trans hsource
    have ht' : s.target.fileAt q = none := (h.target_file (by simp [hplan]) (by simp [hplan])).trans htarget
    refine ⟨?_, ?_⟩
    · rw [Tree.contentAt_eq_none.2 hs', Tree.contentAt_eq_none.2 ht']
    · rintro (⟨hf, -⟩ | ⟨-, hf⟩)
      · exact hf hsource
      · exact hf htarget

/-- What is left alone agrees unless it is of two kinds. -/
theorem CleanSync.content_of_unplanned (h : CleanSync env i middle s) (hplan : i.planHere p = none)
    (hks : ks.reportsHashes = true) (hkt : kt.reportsHashes = true) (hsw : i.sourceScan.errors = .none)
    (htw : i.targetScan.errors = .none) (hss : i.sourceScan.sha = sha) (hst : i.targetScan.sha = sha)
    (hsha : TellsApart sha i.source i.target) (hmode : i.direction = .oneWay → i.deleteMode ≠ .ignore) :
    s.target.contentAt p = s.source.contentAt p ↔ ¬ i.Clash p := by
  have hs' : s.source.contentAt p = i.source.contentAt p := by
    rw [Tree.contentAt, h.source_file (by simp [hplan])]
    rfl
  have ht' : s.target.contentAt p = i.target.contentAt p := by
    rw [Tree.contentAt, h.target_file (by simp [hplan]) (by simp [hplan])]
    rfl
  rw [hs', ht']
  obtain ⟨hown, hequal⟩ := planAt_none hplan
  unfold SyncInput.Clash
  cases hls : i.source.lookup p with
  | none =>
    have hcs := Tree.contentAt_eq_none.2 (Tree.fileAt_eq_none.2 (.inl hls))
    have hfs := Tree.contentAt_eq_none.1 hcs
    have hds : ¬ i.source.isDir p := by simp [Tree.isDir, hls]
    have hct : i.target.contentAt p = none := by
      cases hlt : i.target.lookup p with
      | none => exact Tree.contentAt_eq_none.2 (Tree.fileAt_eq_none.2 (.inl hlt))
      | some n =>
        obtain rfl : n = .directory := by
          rcases hown (stateAt_eq_none.2 hls) _ (by rw [Tree.stateAt, hlt]; rfl) with hdir | ⟨hdirection, hignore⟩
          · exact fileState_isDirectory.1 hdir
          · exact absurd hignore (hmode hdirection)
        exact Tree.contentAt_eq_none.2 (Tree.fileAt_of_isDir hlt)
    simp [hct, hcs, hfs, hds]
  | some n =>
    cases n with
    | directory =>
      have hfs := Tree.fileAt_of_isDir hls
      rw [Tree.contentAt_eq_none.2 hfs, Tree.contentAt_eq_none]
      have hds : i.source.isDir p := hls
      simp [hfs, hds]
    | file b m =>
      have hds : ¬ i.source.isDir p := by simp [Tree.isDir, hls]
      rw [Tree.contentAt_file hls]
      obtain ⟨g, hg, heq⟩ := hequal (fileState ks i.sourceScan p (.file b m)) (by rw [Tree.stateAt, hls]; rfl) rfl
      obtain ⟨n, hlt, rfl⟩ := Option.map_eq_some_iff.1 hg
      cases n with
      | file b' m' =>
        have hdt : ¬ i.target.isDir p := by simp [Tree.isDir, hlt]
        have hbytes := hsha b (Tree.mem_contents (Tree.contentAt_file hls)) b' (Tree.mem_contents (Tree.contentAt_file hlt))
          (eq_of_filesEqual hks hkt hsw htw hss hst heq)
        rw [Tree.contentAt_file hlt, hbytes]
        simp [hds, hdt]
      | directory =>
        rw [Tree.contentAt_eq_none.2 (Tree.fileAt_of_isDir hlt)]
        have hdt : i.target.isDir p := hlt
        simp [hdt, Tree.fileAt_file hls]

theorem CleanSync.content_iff (h : CleanSync env i middle s) (hks : ks.reportsHashes = true) (hkt : kt.reportsHashes = true)
    (hsw : i.sourceScan.errors = .none) (htw : i.targetScan.errors = .none) (hss : i.sourceScan.sha = sha)
    (hst : i.targetScan.sha = sha) (hsha : TellsApart sha i.source i.target)
    (hmode : i.direction = .oneWay → i.deleteMode ≠ .ignore) :
    s.target.contentAt p = s.source.contentAt p ↔ ¬ i.Clash p := by
  cases hplan : i.planHere p with
  | some a =>
    obtain ⟨hcontent, hkind⟩ := h.content_of_planned hplan
    exact iff_of_true hcontent hkind
  | none => exact h.content_of_unplanned hplan hks hkt hsw htw hss hst hsha hmode

theorem SyncInput.planHere_upload (hdirection : i.direction = .twoWay) (hnone : i.source.lookup p = none)
    (hfile : i.target.fileAt p ≠ none) : ∃ f, i.planHere p = some (.upload f) := by
  obtain ⟨⟨b, m⟩, hfile⟩ := Option.ne_none_iff_exists'.1 hfile
  refine ⟨fileState kt i.targetScan p (.file b m), ?_⟩
  rw [planHere, Tree.stateAt, Tree.stateAt, hnone, Tree.fileAt_eq_some.1 hfile, hdirection]
  rfl

theorem SyncInput.planHere_createDirectory (hdir : i.source.isDir p) (hnone : i.target.lookup p = none) :
    i.planHere p = some (.createDirectory p) := by
  rw [planHere, Tree.stateAt, Tree.stateAt, hnone, hdir]
  rfl

/-- Where kinds agree, both sides of a two-way run have the same directories when none of the target's own is empty. -/
theorem CleanSync.directories_iff (h : CleanSync env i middle s) (hks : ks.supportsDirectories = true)
    (hkt : kt.supportsDirectories = true) (hdirection : i.direction = .twoWay) (hkinds : SameKinds i.source i.target) :
    (∀ p, s.target.isDir p ↔ s.source.isDir p) ↔ FilledDirectories i.source i.target := by
  have hsource : ∀ p, s.source.isDir p ↔ i.source.isDir p ∨ ∃ q f, i.planHere q = some (.upload f) ∧ p ∈ parents q := by
    intro p
    rw [h.source_isDir]
    simp only [Tree.needs_eq hks]
  -- an upload lies in directories of the target, a download in directories of the source
  have hupload : ∀ {p q f}, i.planHere q = some (.upload f) → p ∈ parents q → i.target.isDir p := by
    intro p q f hq hp
    obtain ⟨bytes, m, hlookup, -⟩ := h.uploaded hq
    exact Tree.isDir_parents hkt (by rw [hlookup]; exact Option.some_ne_none _) hp
  have hdownload : ∀ {p q f}, i.planHere q = some (.download f) → p ∈ parents q → i.source.isDir p := by
    intro p q f hq hp
    obtain ⟨-, bytes, m, hlookup⟩ := SyncInput.download_file hq
    exact Tree.isDir_parents hks (by rw [hlookup]; exact Option.some_ne_none _) hp
  constructor
  · intro hsame p hdir hnone
    rcases (hsource p).1 ((hsame p).1 (h.target_isDir.2 (.inl hdir))) with hd | ⟨q, f, hq, hp⟩
    · exact absurd hnone (Tree.lookup_of_isDir hd)
    · obtain ⟨bytes, m, hlookup, -⟩ := h.uploaded hq
      exact ⟨q, Tree.fileAt_file hlookup, hp⟩
  · intro hfilled
    have hback : ∀ p, i.target.isDir p → s.source.isDir p := by
      intro p hdir
      rw [hsource]
      cases hls : i.source.lookup p with
      | none =>
        obtain ⟨q, hfile, hp⟩ := hfilled p hdir hls
        have hnone : i.source.lookup q = none := by
          by_contra hne
          exact Tree.lookup_of_isDir (Tree.isDir_parents hks hne hp) hls
        obtain ⟨f, hq⟩ := SyncInput.planHere_upload hdirection hnone hfile
        exact .inr ⟨q, f, hq, hp⟩
      | some n =>
        cases n with
        | directory => exact .inl hls
        | file b m => exact absurd ⟨Tree.fileAt_file hls, hdir⟩ (hkinds p).1
    intro p
    constructor
    · intro hp
      rcases h.target_isDir.1 hp with hdir | ⟨-, q, hq, hp⟩ | ⟨q, f, hq, hp⟩
      · exact hback p hdir
      · rw [Tree.needs_eq hkt] at hp
        rcases (SyncInput.createDirectory_isDir hq).2 with ⟨-, hdir⟩ | ⟨-, -, hdir⟩
        · refine (hsource p).2 (.inl ?_)
          rcases List.mem_cons.1 hp with rfl | hp
          · exact hdir
          · exact Tree.isDir_parents hks (Tree.lookup_of_isDir hdir) hp
        · refine hback p ?_
          rcases List.mem_cons.1 hp with rfl | hp
          · exact hdir
          · exact Tree.isDir_parents hkt (Tree.lookup_of_isDir hdir) hp
      · rw [Tree.needs_eq hkt] at hp
        exact (hsource p).2 (.inl (hdownload hq hp))
    · intro hp
      rcases (hsource p).1 hp with hdir | ⟨q, f, hq, hp⟩
      · cases hlt : i.target.lookup p with
        | none =>
          have hplan := SyncInput.planHere_createDirectory hdir hlt
          refine h.target_isDir.2 (.inr (.inl ⟨⟨hkt, .inl hks⟩, p, hplan, ?_⟩))
          rw [Tree.needs_eq hkt]
          exact List.mem_cons_self
        | some n =>
          cases n with
          | directory => exact h.target_isDir.2 (.inl hlt)
          | file b m => exact absurd ⟨hdir, Tree.fileAt_file hlt⟩ (hkinds p).2
      · exact h.target_isDir.2 (.inl (hupload hq hp))

/-- Where peers stage over nothing, a run that ends without errors mirrors one side on the other exactly when no path is of
two kinds, and, two-way, no directory of the target's own is empty of files. -/
theorem mirrored_iff {r : SyncResult} {sf tf : List FileState} (hks : ks.reportsHashes = true) (hkt : kt.reportsHashes = true)
    (hsw : i.sourceScan.errors = .none) (htw : i.targetScan.errors = .none) (hss : i.sourceScan.sha = sha)
    (hst : i.targetScan.sha = sha) (hsha : TellsApart sha i.source i.target)
    (hmode : i.direction = .oneWay → i.deleteMode ≠ .ignore)
    (hs : i.source.manifest i.sourceScan = some sf) (ht : i.target.manifest i.targetScan = some tf)
    (hconflicts : (plan env.order ks kt sf tf i.direction i.deleteMode).conflicts = []) (hapart : i.Apart)
    (hrun : i.execute env = (s, .ok r)) (herrors : r.errors = []) :
    Mirrored i.direction s.source s.target ↔
      SameKinds i.source i.target ∧ (i.direction = .twoWay → FilledDirectories i.source i.target) := by
  obtain ⟨middle, h⟩ := cleanSync hsw htw hs ht hconflicts hapart hrun herrors
  have hcontents : (∀ p, s.target.contentAt p = s.source.contentAt p) ↔ SameKinds i.source i.target := by
    refine forall_congr' fun p => (h.content_iff hks hkt hsw htw hss hst hsha hmode).trans ?_
    rw [SyncInput.Clash, not_or]
  have hdirs : ∀ {k : ProviderKind}, k.reportsHashes = true → k.supportsDirectories = true := by
    intro k hk
    cases k <;> first | rfl | cases hk
  cases hdirection : i.direction with
  | oneWay =>
    rw [Mirrored, hcontents]
    simp
  | twoWay =>
    rw [Mirrored, hcontents]
    simp only [forall_const]
    exact and_congr_right fun hkinds => h.directories_iff (hdirs hks) (hdirs hkt) hdirection hkinds

end Mirror

/-! ## Two runs -/

def sampleInput : SyncInput .localFolder .peer where
  source := .of _ [.write ["a", "x"] [1] 1000, .createDirectory ["b"]]
  target := .of _ [.write ["old"] [] 1000]
  sourceScan := sampleScan
  targetScan := sampleScan
  direction := .oneWay
  deleteMode := .trash

theorem sampleInput_apart : sampleInput.Apart := by
  refine ⟨fun _ p f hp => ?_, nofun⟩
  obtain ⟨-, bytes, m, hlookup⟩ := SyncInput.download_file hp
  have hkey : p ∈ [["b"], ["a", "x"], ["a"]] := List.mem_map_of_mem (f := Sigma.fst) (AList.mem_lookup_iff.1 hlookup)
  have hfree : ∀ q ∈ [["b"], ["a", "x"], ["a"]],
      sampleInput.target.fileAt (partOf q) = none ∧ sampleInput.planHere (partOf q) = none := by decide
  obtain ⟨hfile, hplan⟩ := hfree p hkey
  exact ⟨hfile, fun g hg => by rw [hplan] at hg; cases hg⟩

theorem mirrored_iff_sample : Mirrored .oneWay (sampleInput.execute calmEnv).1.source (sampleInput.execute calmEnv).1.target ↔
    SameKinds sampleInput.source sampleInput.target ∧
      (SyncDirection.oneWay = .twoWay → FilledDirectories sampleInput.source sampleInput.target) :=
  mirrored_iff (i := sampleInput) (s := (sampleInput.execute calmEnv).1) (r := ⟨1, 1, 2, 1, 0, []⟩) rfl rfl rfl rfl rfl rfl
    (by decide) (fun _ => by decide) rfl rfl (by decide) sampleInput_apart (Prod.ext rfl (by decide)) rfl

def clashInput : SyncInput .localFolder .localFolder where
  source := .of _ [.createDirectory ["a"]]
  target := .of _ [.write ["a"] [1] 1000]
  sourceScan := sampleScan
  targetScan := sampleScan
  direction := .oneWay
  deleteMode := .trash

/-- The file stays, and no error is reported. -/
theorem clash_not_mirrored : ¬ ∀ (ks kt : ProviderKind) (env : Env) (i : SyncInput ks kt) (s : SyncState ks kt) (r : SyncResult)
    (sf tf : List FileState) (sha : Bytes → String), ks.reportsHashes = true → kt.reportsHashes = true →
    i.sourceScan.errors = .none → i.targetScan.errors = .none → i.sourceScan.sha = sha → i.targetScan.sha = sha →
    TellsApart sha i.source i.target → (i.direction = .oneWay → i.deleteMode ≠ .ignore) →
    i.source.manifest i.sourceScan = some sf → i.target.manifest i.targetScan = some tf →
    (plan env.order ks kt sf tf i.direction i.deleteMode).conflicts = [] → i.execute env = (s, .ok r) → r.errors = [] →
    Mirrored i.direction s.source s.target := by
  intro h
  have h := h _ _ calmEnv clashInput (clashInput.execute calmEnv).1 .empty _ _ sampleSha rfl rfl rfl rfl rfl rfl (by decide)
    (fun _ => by decide) rfl rfl (by decide) (Prod.ext rfl (by decide)) rfl ["a"]
  revert h
  decide

end HaexVault.FileSync
