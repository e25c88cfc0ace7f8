import HaexVault.FileSync.Mirror
/-!
# The run after a run without errors

Both sides are scanned again and nothing should be left to do. `next_plan_empty_iff` says
when that is so: it takes hashes, or times that survive the transfer; it takes a
directory that passes for an empty file to go on doing so; and, two-way, it takes a
file below each directory of the target's own.
-/

namespace HaexVault.FileSync

variable {ks kt : ProviderKind}

/-! ## States -/

section States
variable {k : ProviderKind} {t : Tree k} {w w' : ScanWorld} {p : Path} {b : Bytes} {m m' : Nat}

theorem stateAt_of_fileAt (h : t.fileAt p = some (b, m)) : t.stateAt w p = some (fileState k w p (.file b m)) := by
  rw [Tree.stateAt, Tree.fileAt_eq_some.1 h]
  rfl

theorem stateAt_of_isDir (h : t.isDir p) : t.stateAt w p = some (fileState k w p .directory) := by
  rw [Tree.stateAt, h]
  rfl

theorem fileState_congr (hw : w.errors = .none) (hw' : w'.errors = .none) (hsha : w'.sha = w.sha) :
    fileState k w' p (.file b m) = fileState k w p (.file b m) := by
  simp [fileState, hw, hw', hsha]

theorem filesEqual_content (hw : w.errors = .none) (hw' : w'.errors = .none) (hsha : w'.sha = w.sha) :
    filesEqual (fileState ks w p (.file b m)) (fileState kt w' p (.file b m')) = true ↔
      (ks.reportsHashes = true ∧ kt.reportsHashes = true) ∨ m = m' := by
  cases hks : ks.reportsHashes <;> cases hkt : kt.reportsHashes <;>
    simp [filesEqual, fileState, hw, hw', hsha, hks, hkt, ReadErrors.none]

theorem filesEqual_directory :
    filesEqual (fileState ks w p (.file b m)) (fileState kt w' p .directory) = true ↔ b.length = 0 ∧ m = w'.directoryTime p := by
  unfold filesEqual
  split
  · simp_all [fileState]
  · simp [fileState]

end States

/-! ## Nothing to do -/

namespace SyncInput
variable (i : SyncInput ks kt)

def Quiet (p : Path) : Prop :=
  i.planHere p = none ∨ (¬ i.CreatesDirectories ∧ ∃ q, i.planHere p = some (.createDirectory q))

variable {i} {p : Path}

/-- A plan is empty when it is at every path. -/
theorem plan_eq_empty_iff {order : HashOrder} {sf tf : List FileState} (hs : i.source.manifest i.sourceScan = some sf)
    (ht : i.target.manifest i.targetScan = some tf) (hsw : i.sourceScan.errors = .none) (htw : i.targetScan.errors = .none) :
    plan order ks kt sf tf i.direction i.deleteMode = ⟨[], [], [], [], []⟩ ↔ ∀ p, i.Quiet p := by
  have hmem : ∀ a, a ∈ planned order sf tf i.direction i.deleteMode ↔ ∃ p, i.planHere p = some a := fun a => mem_planned hs ht hsw htw
  constructor
  · intro hempty p
    cases hp : i.planHere p with
    | none => exact .inl hp
    | some a =>
      have ha := (hmem a).2 ⟨p, hp⟩
      cases a with
      | download f =>
        have hin : f ∈ (plan order ks kt sf tf i.direction i.deleteMode).toDownload := mem_plan_toDownload.2 ha
        rw [hempty] at hin
        exact absurd hin List.not_mem_nil
      | upload f =>
        have hin : f ∈ (plan order ks kt sf tf i.direction i.deleteMode).toUpload := mem_plan_toUpload.2 ha
        rw [hempty] at hin
        exact absurd hin List.not_mem_nil
      | delete q =>
        have hin : q ∈ (plan order ks kt sf tf i.direction i.deleteMode).toDelete := mem_plan_toDelete.2 ha
        rw [hempty] at hin
        exact absurd hin List.not_mem_nil
      | conflict c =>
        have hin : c ∈ (plan order ks kt sf tf i.direction i.deleteMode).conflicts := mem_plan_conflicts.2 ha
        rw [hempty] at hin
        exact absurd hin List.not_mem_nil
      | createDirectory q =>
        refine .inr ⟨fun hallowed => ?_, q, hp⟩
        have hin : q ∈ (plan order ks kt sf tf i.direction i.deleteMode).toCreateDirectories :=
          mem_plan_toCreateDirectories.2 ⟨hallowed, ha⟩
        rw [hempty] at hin
        exact absurd hin List.not_mem_nil
  · intro hquiet
    have hnone : ∀ a, a ∈ planned order sf tf i.direction i.deleteMode → ¬ i.CreatesDirectories ∧ ∃ q, a = .createDirectory q := by
      intro a ha
      obtain ⟨p, hp⟩ := (hmem a).1 ha
      rcases hquiet p with h | ⟨hfiltered, q, h⟩
      · rw [hp] at h
        cases h
      · rw [hp] at h
        exact ⟨hfiltered, q, Option.some.inj h⟩
    have hall : ∀ actions : SyncActions, actions.toDownload = [] → actions.toUpload = [] → actions.toDelete = [] →
        actions.toCreateDirectories = [] → actions.conflicts = [] → actions = ⟨[], [], [], [], []⟩ := by
      rintro ⟨d, u, x, c, k⟩ rfl rfl rfl rfl rfl
      rfl
    refine hall _ ?_ ?_ ?_ ?_ ?_ <;> refine List.eq_nil_iff_forall_not_mem.2 fun a ha => ?_
    · obtain ⟨-, q, hq⟩ := hnone _ (mem_plan_toDownload.1 ha)
      cases hq
    · obtain ⟨-, q, hq⟩ := hnone _ (mem_plan_toUpload.1 ha)
      cases hq
    · obtain ⟨-, q, hq⟩ := hnone _ (mem_plan_toDelete.1 ha)
      cases hq
    · obtain ⟨hallowed, ha⟩ := mem_plan_toCreateDirectories.1 ha
      exact (hnone _ ha).1 hallowed
    · obtain ⟨-, q, hq⟩ := hnone _ (mem_plan_conflicts.1 ha)
      cases hq

theorem quiet_iff_filesEqual {f g : FileState} (hs : i.source.stateAt i.sourceScan p = some f)
    (ht : i.target.stateAt i.targetScan p = some g) (hf : f.isDirectory = false) : i.Quiet p ↔ filesEqual f g = true := by
  unfold Quiet planHere
  rw [hs, ht]
  unfold planAt
  grind

theorem quiet_of_source_isDir (hs : i.source.isDir p) (ht : i.CreatesDirectories → i.target.lookup p ≠ none) : i.Quiet p := by
  unfold Quiet planHere
  rw [stateAt_of_isDir hs]
  cases hlt : i.target.stateAt i.targetScan p with
  | some g => exact .inl (by simp [planAt, fileState])
  | none =>
    refine .inr ⟨fun hallowed => ht hallowed (stateAt_eq_none.1 hlt), p, ?_⟩
    simp [planAt, fileState]

end SyncInput

/-! ## What has to hold -/

/-- The time of the file that a path is written from, where it is written. -/
def sentTime (direction : SyncDirection) : Option FileState → Option FileState → Option Nat
  | none, none => none
  | some s, none => if s.isDirectory then none else some s.modifiedAt
  | none, some t => if direction = .oneWay ∨ t.isDirectory then none else some t.modifiedAt
  | some s, some t =>
    if s.isDirectory ∨ t.isDirectory ∨ filesEqual s t then none
    else match direction with
      | .oneWay => some s.modifiedAt
      | .twoWay => some (max s.modifiedAt t.modifiedAt)

/-- What has to hold at a path for nothing to be left to do there. -/
structure SyncInput.SettlesAt (env : Env) (i : SyncInput ks kt) (targetTime : Path → Nat) (p : Path) : Prop where
  times : ∀ m, sentTime i.direction (i.source.stateAt i.sourceScan p) (i.target.stateAt i.targetScan p) = some m →
    (ks.reportsHashes = true ∧ kt.reportsHashes = true) ∨ env.writtenAt p = m
  directory : ∀ b m, i.source.lookup p = some (.file b m) → i.target.isDir p → targetTime p = m
  filled : i.direction = .twoWay → ks.supportsDirectories = true → kt.supportsDirectories = true → i.target.isDir p →
    i.source.lookup p = none → ∃ q, i.target.fileAt q ≠ none ∧ p ∈ parents q

/-! ## The next plan -/

section Next
variable {env : Env} {i : SyncInput ks kt} {middle : Tree kt} {s : SyncState ks kt} {p : Path} {sw tw : ScanWorld}

/-- The input of the next run. -/
def SyncInput.next (i : SyncInput ks kt) (s : SyncState ks kt) (sw tw : ScanWorld) : SyncInput ks kt :=
  { i with
    source := s.source
    target := s.target
    sourceScan := sw
    targetScan := tw }

theorem planHere_next : (i.next s sw tw).planHere p =
    planAt i.direction i.deleteMode p (s.source.stateAt sw p) (s.target.stateAt tw p) := rfl

structure Calm (i : SyncInput ks kt) (sw tw : ScanWorld) : Prop where
  source : i.sourceScan.errors = .none
  target : i.targetScan.errors = .none
  source' : sw.errors = .none
  target' : tw.errors = .none
  shaTarget : i.targetScan.sha = i.sourceScan.sha
  shaSource' : sw.sha = i.sourceScan.sha
  shaTarget' : tw.sha = i.sourceScan.sha

theorem quiet_of_files {b : Bytes} {m m' : Nat} (hcalm : Calm i sw tw) (hs : s.source.fileAt p = some (b, m))
    (ht : s.target.fileAt p = some (b, m')) :
    (i.next s sw tw).Quiet p ↔ (ks.reportsHashes = true ∧ kt.reportsHashes = true) ∨ m = m' := by
  rw [SyncInput.quiet_iff_filesEqual (i := i.next s sw tw) (stateAt_of_fileAt hs) (stateAt_of_fileAt ht) rfl]
  exact filesEqual_content hcalm.source' hcalm.target' (hcalm.shaTarget'.trans hcalm.shaSource'.symm)

theorem CleanSync.settles_download {f : FileState} (h : CleanSync env i middle s) (hcalm : Calm i sw tw)
    (hplan : i.planHere p = some (.download f)) : (i.next s sw tw).Quiet p ↔ i.SettlesAt env tw.directoryTime p := by
  obtain ⟨b, m, hlookup, hdir, hfile⟩ := h.downloaded hplan
  have hsource : s.source.fileAt p = some (b, m) := by
    rw [h.source_file (by simp [hplan])]
    exact Tree.fileAt_eq_some.2 hlookup
  have hstate : i.source.stateAt i.sourceScan p = some (fileState ks i.sourceScan p (.file b m)) :=
    stateAt_of_fileAt (Tree.fileAt_eq_some.2 hlookup)
  have hsent : sentTime i.direction (i.source.stateAt i.sourceScan p) (i.target.stateAt i.targetScan p) = some m := by
    have htarget : ∀ g, i.target.stateAt i.targetScan p = some g → g.isDirectory = false := fun g hg => file_of_stateAt hg hdir
    have hm : (fileState ks i.sourceScan p (.file b m)).modifiedAt = m := rfl
    have hfile : (fileState ks i.sourceScan p (.file b m)).isDirectory = false := rfl
    rw [SyncInput.planHere, hstate] at hplan
    rw [hstate]
    unfold planAt at hplan
    unfold sentTime
    grind
  rw [quiet_of_files hcalm hsource hfile]
  constructor
  · intro hquiet
    refine ⟨fun m' hm' => ?_, fun _ _ _ hd => absurd hd hdir, fun _ _ _ hd => absurd hd hdir⟩
    rw [hsent] at hm'
    cases hm'
    exact hquiet.imp_right Eq.symm
  · intro hsettles
    exact (hsettles.times m hsent).imp_right Eq.symm

theorem CleanSync.settles_upload {f : FileState} (h : CleanSync env i middle s) (hcalm : Calm i sw tw)
    (hplan : i.planHere p = some (.upload f)) : (i.next s sw tw).Quiet p ↔ i.SettlesAt env tw.directoryTime p := by
  obtain ⟨b, m, hlookup, hdir, hfile⟩ := h.uploaded hplan
  have htarget : s.target.fileAt p = some (b, m) := by
    rw [h.target_file (by simp [hplan]) (by simp [hplan])]
    exact Tree.fileAt_eq_some.2 hlookup
  have hstate : i.target.stateAt i.targetScan p = some (fileState kt i.targetScan p (.file b m)) :=
    stateAt_of_fileAt (Tree.fileAt_eq_some.2 hlookup)
  have hdirTarget : ¬ i.target.isDir p := by simp [Tree.isDir, hlookup]
  have hsent : sentTime i.direction (i.source.stateAt i.sourceScan p) (i.target.stateAt i.targetScan p) = some m := by
    have hsource : ∀ g, i.source.stateAt i.sourceScan p = some g → g.isDirectory = false := fun g hg => file_of_stateAt hg hdir
    have hm : (fileState kt i.targetScan p (.file b m)).modifiedAt = m := rfl
    have hfile : (fileState kt i.targetScan p (.file b m)).isDirectory = false := rfl
    rw [SyncInput.planHere, hstate] at hplan
    rw [hstate]
    unfold planAt at hplan
    unfold sentTime
    grind
  rw [quiet_of_files hcalm hfile htarget]
  constructor
  · intro hquiet
    refine ⟨fun m' hm' => ?_, fun _ _ _ hd => absurd hd hdirTarget, fun _ _ _ hd => absurd hd hdirTarget⟩
    rw [hsent] at hm'
    cases hm'
    exact hquiet
  · intro hsettles
    exact hsettles.times m hsent

theorem lookup_eq_none {k : ProviderKind} {t : Tree k} : t.lookup p = none ↔ t.fileAt p = none ∧ ¬ t.isDir p := by
  unfold Tree.fileAt Tree.isDir
  cases t.lookup p with
  | none => simp
  | some n => cases n <;> simp

theorem stateAt_of_lookup_none {k : ProviderKind} {t : Tree k} {w : ScanWorld} (h : t.lookup p = none) : t.stateAt w p = none :=
  stateAt_eq_none.2 h

theorem sentTime_of_source_isDir {w : ScanWorld} {t : Option FileState} {direction : SyncDirection} :
    sentTime direction (some (fileState ks w p .directory)) t = none := by
  cases t <;> simp [sentTime, fileState]

theorem sentTime_of_target_isDir {w : ScanWorld} {f : Option FileState} {direction : SyncDirection} :
    sentTime direction f (some (fileState kt w p .directory)) = none := by
  cases f <;> simp [sentTime, fileState]

theorem settlesAt_of_source_isDir {targetTime : Path → Nat} (hdir : i.source.isDir p) : i.SettlesAt env targetTime p where
  times m hm := by
    rw [stateAt_of_isDir hdir, sentTime_of_source_isDir] at hm
    cases hm
  directory b m hl := by
    rw [Tree.isDir, hl] at hdir
    cases hdir
  filled _ _ _ _ hl := by
    rw [Tree.isDir, hl] at hdir
    cases hdir

namespace CleanSync

theorem settles_delete {q : Path} (h : CleanSync env i middle s) (hplan : i.planHere p = some (.delete q)) :
    (i.next s sw tw).Quiet p ↔ i.SettlesAt env tw.directoryTime p := by
  obtain ⟨rfl, hnone, hdirection, b, m, hlookup⟩ := SyncInput.delete_file hplan
  have hsource : s.source.lookup q = none := by
    obtain ⟨hfile, hdir⟩ := lookup_eq_none.1 hnone
    refine lookup_eq_none.2 ⟨(h.source_file (by simp [hplan])).trans hfile, fun hd => ?_⟩
    rcases h.source_isDir.1 hd with hd | ⟨r, f, hr, -⟩
    · exact hdir hd
    · cases hdirection.symm.trans (planAt_upload hr).2
  have hquiet : (i.next s sw tw).Quiet q := by
    refine .inl ?_
    rw [planHere_next, stateAt_of_lookup_none hsource, stateAt_of_lookup_none (h.deleted hplan)]
    rfl
  refine iff_of_true hquiet ⟨fun m' hm' => ?_, fun b' m' hl => ?_, fun hd => ?_⟩
  · rw [stateAt_of_lookup_none hnone, stateAt_of_fileAt (Tree.fileAt_eq_some.2 hlookup), sentTime, if_pos (.inl hdirection)] at hm'
    cases hm'
  · rw [hnone] at hl
    cases hl
  · cases hdirection.symm.trans hd

theorem target_isDir_of_upload {q : Path} {f : FileState} (h : CleanSync env i middle s) (hkt : kt.supportsDirectories = true)
    (hq : i.planHere q = some (.upload f)) (hp : p ∈ Tree.needs ks (parents q)) : i.target.isDir p := by
  obtain ⟨b, m, hlookup, -⟩ := h.uploaded hq
  have hp : p ∈ parents q := by
    unfold Tree.needs at hp
    split at hp
    · exact hp
    · exact absurd hp List.not_mem_nil
  exact Tree.isDir_parents hkt (by rw [hlookup]; exact Option.some_ne_none _) hp

theorem source_isDir_of_target (h : CleanSync env i middle s) (hks : ks.supportsDirectories = true)
    (hkt : kt.supportsDirectories = true) (hd : s.target.isDir p) : i.target.isDir p ∨ i.source.isDir p := by
  rcases h.target_isDir.1 hd with hd | ⟨-, q, hq, hp⟩ | ⟨q, f, hq, hp⟩
  · exact .inl hd
  · rw [Tree.needs_eq hkt] at hp
    rcases (SyncInput.createDirectory_isDir hq).2 with ⟨-, hdir⟩ | ⟨-, -, hdir⟩
    · rcases List.mem_cons.1 hp with rfl | hp
      · exact .inr hdir
      · exact .inr (Tree.isDir_parents hks (Tree.lookup_of_isDir hdir) hp)
    · rcases List.mem_cons.1 hp with rfl | hp
      · exact .inl hdir
      · exact .inl (Tree.isDir_parents hkt (Tree.lookup_of_isDir hdir) hp)
  · rw [Tree.needs_eq hkt] at hp
    obtain ⟨-, b, m, hlookup⟩ := SyncInput.download_file hq
    exact .inr (Tree.isDir_parents hks (by rw [hlookup]; exact Option.some_ne_none _) hp)

theorem settles_createDirectory {q : Path} (h : CleanSync env i middle s) (hplan : i.planHere p = some (.createDirectory q)) :
    (i.next s sw tw).Quiet p ↔ i.SettlesAt env tw.directoryTime p := by
  obtain ⟨rfl, ⟨hnone, hdir⟩ | ⟨hdirection, hnone, hdir⟩⟩ := SyncInput.createDirectory_isDir hplan
  · -- a directory of the source: it has been created, unless it is filtered
    refine iff_of_true (SyncInput.quiet_of_source_isDir (h.source_isDir.2 (.inl hdir)) fun hallowed hgone => ?_)
      (settlesAt_of_source_isDir hdir)
    have hcreated : s.target.isDir q := by
      refine h.target_isDir.2 (.inr (.inl ⟨hallowed, q, hplan, ?_⟩))
      rw [Tree.needs_eq hallowed.1]
      exact List.mem_cons_self
    exact (lookup_eq_none.1 hgone).2 hcreated
  · -- a directory of the target: the source has it when an upload came with it
    have htarget : s.target.isDir q := h.target_isDir.2 (.inl hdir)
    have hkt : kt.supportsDirectories = true := by
      by_contra hk
      exact Tree.not_isDir (by simpa using hk) hdir
    obtain ⟨hfile, hnotDir⟩ := lookup_eq_none.1 hnone
    have hsourceFile : s.source.fileAt q = none := (h.source_file (by simp [hplan])).trans hfile
    constructor
    · intro hquiet
      refine ⟨fun m hm => ?_, fun b m hl => ?_, fun _ hks _ _ _ => ?_⟩
      · rw [stateAt_of_isDir hdir, sentTime_of_target_isDir] at hm
        cases hm
      · rw [hnone] at hl
        cases hl
      · have hsourceDir : s.source.isDir q := by
          by_contra hd
          have hgone : s.source.lookup q = none := lookup_eq_none.2 ⟨hsourceFile, hd⟩
          have hagain : (i.next s sw tw).planHere q = some (.createDirectory q) := by
            rw [planHere_next, stateAt_of_lookup_none hgone, stateAt_of_isDir htarget]
            simp [planAt, hdirection, fileState]
          rcases hquiet with hq | ⟨hfiltered, -⟩
          · rw [hagain] at hq
            cases hq
          · exact hfiltered ⟨hkt, .inl hks⟩
        rcases h.source_isDir.1 hsourceDir with hd | ⟨r, f, hr, hq⟩
        · exact absurd hd hnotDir
        · obtain ⟨b, m, hlookup, -⟩ := h.uploaded hr
          rw [Tree.needs_eq hks] at hq
          exact ⟨r, Tree.fileAt_file hlookup, hq⟩
    · intro hsettles
      by_cases hd : s.source.isDir q
      · exact SyncInput.quiet_of_source_isDir hd fun _ hgone => (lookup_eq_none.1 hgone).2 htarget
      · refine .inr ⟨fun hallowed => hd ?_, q, ?_⟩
        · have hks : ks.supportsDirectories = true := hallowed.2.resolve_right fun ho => by
            cases hdirection.symm.trans ho
          obtain ⟨r, hfile, hq⟩ := hsettles.filled hdirection hks hkt hdir hnone
          have hrnone : i.source.lookup r = none := by
            by_contra hne
            exact hnotDir (Tree.isDir_parents hks hne hq)
          obtain ⟨f, hr⟩ := SyncInput.planHere_upload hdirection hrnone hfile
          refine h.source_isDir.2 (.inr ⟨r, f, hr, ?_⟩)
          rwa [Tree.needs_eq hks]
        · have hgone : s.source.lookup q = none := lookup_eq_none.2 ⟨hsourceFile, hd⟩
          rw [planHere_next, stateAt_of_lookup_none hgone, stateAt_of_isDir htarget]
          simp [planAt, hdirection, fileState]

theorem source_isDir_oneWay (h : CleanSync env i middle s) (hdirection : i.direction = .oneWay) (hd : s.source.isDir p) :
    i.source.isDir p := by
  rcases h.source_isDir.1 hd with hd | ⟨q, f, hq, -⟩
  · exact hd
  · cases hdirection.symm.trans (planAt_upload hq).2

theorem quiet_of_lookup_none (h : CleanSync env i middle s) (hplan : i.planHere p = none) (hls : i.source.lookup p = none)
    (hlt : i.target.lookup p = none) : (i.next s sw tw).Quiet p := by
  obtain ⟨hsfile, hsdir⟩ := lookup_eq_none.1 hls
  obtain ⟨htfile, htdir⟩ := lookup_eq_none.1 hlt
  have hs' : s.source.fileAt p = none := (h.source_file (by simp [hplan])).trans hsfile
  have ht' : s.target.fileAt p = none := (h.target_file (by simp [hplan]) (by simp [hplan])).trans htfile
  by_cases hd : s.source.isDir p
  · refine SyncInput.quiet_of_source_isDir hd fun hallowed _ => ?_
    rcases h.source_isDir.1 hd with hd | ⟨q, f, hq, hp⟩
    · exact hsdir hd
    · exact htdir (h.target_isDir_of_upload hallowed.1 hq hp)
  · have hgone : s.source.lookup p = none := lookup_eq_none.2 ⟨hs', hd⟩
    by_cases hdt : s.target.isDir p
    · cases hdirection : i.direction with
      | oneWay =>
        refine .inl ?_
        rw [planHere_next, stateAt_of_lookup_none hgone, stateAt_of_isDir hdt]
        simp [planAt, hdirection, fileState]
      | twoWay =>
        refine .inr ⟨fun hallowed => ?_, p, ?_⟩
        · have hks : ks.supportsDirectories = true := hallowed.2.resolve_right fun ho => by
            cases hdirection.symm.trans ho
          rcases h.source_isDir_of_target hks hallowed.1 hdt with hd | hd
          · exact htdir hd
          · exact hsdir hd
        · rw [planHere_next, stateAt_of_lookup_none hgone, stateAt_of_isDir hdt]
          simp [planAt, hdirection, fileState]
    · refine .inl ?_
      rw [planHere_next, stateAt_of_lookup_none hgone, stateAt_of_lookup_none (lookup_eq_none.2 ⟨ht', hdt⟩)]
      rfl

theorem settles_none_absent (h : CleanSync env i middle s) (hplan : i.planHere p = none) (hls : i.source.lookup p = none) :
    (i.next s sw tw).Quiet p ↔ i.SettlesAt env tw.directoryTime p := by
  have hs' : s.source.fileAt p = i.source.fileAt p := h.source_file (by simp [hplan])
  have ht' : s.target.fileAt p = i.target.fileAt p := h.target_file (by simp [hplan]) (by simp [hplan])
  obtain ⟨hown, -⟩ := planAt_none hplan
  have hstate : i.source.stateAt i.sourceScan p = none := stateAt_of_lookup_none hls
  obtain ⟨hsfile, hsdir⟩ := lookup_eq_none.1 hls
  cases hlt : i.target.lookup p with
  | none =>
    refine iff_of_true (h.quiet_of_lookup_none hplan hls hlt) ⟨fun m hm => ?_, fun b m hl => ?_, fun _ _ _ hd => ?_⟩
    · rw [hstate, stateAt_of_lookup_none hlt] at hm
      cases hm
    · rw [hls] at hl
      cases hl
    · exact absurd hd (lookup_eq_none.1 hlt).2
  | some n =>
    have hstateTarget : i.target.stateAt i.targetScan p = some (fileState kt i.targetScan p n) := by
      rw [Tree.stateAt, hlt]
      rfl
    -- a one-way run leaves the target's own directories, and its files if they are to be ignored
    have hdirection : i.direction = .oneWay := by
      cases hdirection : i.direction with
      | oneWay => rfl
      | twoWay =>
        rw [SyncInput.planHere, hstate, hstateTarget, hdirection] at hplan
        unfold planAt at hplan
        grind
    have hgone : s.source.lookup p = none :=
      lookup_eq_none.2 ⟨hs'.trans hsfile, fun hd => hsdir (h.source_isDir_oneWay hdirection hd)⟩
    refine iff_of_true (.inl ?_) ⟨fun m hm => ?_, fun b m hl => ?_, fun hd => ?_⟩
    · rw [planHere_next, stateAt_of_lookup_none hgone, hdirection]
      cases n with
      | directory =>
        rw [stateAt_of_isDir (h.target_isDir.2 (.inl hlt))]
        simp [planAt, fileState]
      | file b m =>
        rcases hown hstate _ hstateTarget with hdir | ⟨-, hignore⟩
        · cases hdir
        · rw [stateAt_of_fileAt (ht'.trans (Tree.fileAt_eq_some (f := (b, m)) |>.2 hlt)), hignore]
          simp [planAt]
    · rw [hstate, hstateTarget, sentTime, if_pos (.inl hdirection)] at hm
      cases hm
    · rw [hls] at hl
      cases hl
    · cases hdirection.symm.trans hd

theorem settles_none_directory (h : CleanSync env i middle s) (hplan : i.planHere p = none) (hls : i.source.isDir p) :
    (i.next s sw tw).Quiet p ↔ i.SettlesAt env tw.directoryTime p := by
  have ht' : s.target.fileAt p = i.target.fileAt p := h.target_file (by simp [hplan]) (by simp [hplan])
  refine iff_of_true (SyncInput.quiet_of_source_isDir (h.source_isDir.2 (.inl hls)) fun _ hgone => ?_)
    (settlesAt_of_source_isDir hls)
  obtain ⟨hfile, hdir⟩ := lookup_eq_none.1 hgone
  cases hlt : i.target.lookup p with
  | none =>
    rw [SyncInput.planHere_createDirectory hls hlt] at hplan
    cases hplan
  | some n =>
    cases n with
    | directory => exact hdir (h.target_isDir.2 (.inl hlt))
    | file b m => exact Tree.fileAt_file hlt (ht'.symm.trans hfile)

theorem settles_none_file {b : Bytes} {m : Nat} (h : CleanSync env i middle s) (hcalm : Calm i sw tw)
    (hplan : i.planHere p = none) (hls : i.source.lookup p = some (.file b m)) :
    (i.next s sw tw).Quiet p ↔ i.SettlesAt env tw.directoryTime p := by
  have hs' : s.source.fileAt p = i.source.fileAt p := h.source_file (by simp [hplan])
  have ht' : s.target.fileAt p = i.target.fileAt p := h.target_file (by simp [hplan]) (by simp [hplan])
  obtain ⟨-, hequal⟩ := planAt_none hplan
  have hstate : i.source.stateAt i.sourceScan p = some (fileState ks i.sourceScan p (.file b m)) := by
    rw [Tree.stateAt, hls]
    rfl
  have hsource : s.source.stateAt sw p = some (fileState ks sw p (.file b m)) :=
    stateAt_of_fileAt (hs'.trans (Tree.fileAt_eq_some (f := (b, m)) |>.2 hls))
  have hnotNone : i.source.lookup p ≠ none := by
    rw [hls]
    exact Option.some_ne_none _
  obtain ⟨g, hg, heq⟩ := hequal _ hstate rfl
  obtain ⟨n, hlt, rfl⟩ := Option.map_eq_some_iff.1 hg
  cases n with
  | file b' m' =>
    have htarget : s.target.stateAt tw p = some (fileState kt tw p (.file b' m')) :=
      stateAt_of_fileAt (ht'.trans (Tree.fileAt_eq_some (f := (b', m')) |>.2 hlt))
    have hdirTarget : ¬ i.target.isDir p := by simp [Tree.isDir, hlt]
    refine iff_of_true ((SyncInput.quiet_iff_filesEqual (i := i.next s sw tw) hsource htarget rfl).2 ?_)
      ⟨fun m hm => ?_, fun _ _ _ hd => absurd hd hdirTarget, fun _ _ _ hd => absurd hd hdirTarget⟩
    · rw [fileState_congr hcalm.source hcalm.source' hcalm.shaSource',
        fileState_congr hcalm.target hcalm.target' (hcalm.shaTarget'.trans hcalm.shaTarget.symm)]
      exact heq
    · rw [hstate, hg] at hm
      simp [sentTime, heq] at hm
  | directory =>
    have htarget : s.target.stateAt tw p = some (fileState kt tw p .directory) :=
      stateAt_of_isDir (h.target_isDir.2 (.inl hlt))
    have hempty := (filesEqual_directory.1 heq).1
    rw [SyncInput.quiet_iff_filesEqual (i := i.next s sw tw) hsource htarget rfl, filesEqual_directory]
    constructor
    · rintro ⟨-, htime⟩
      refine ⟨fun m' hm' => ?_, fun b' m' hl _ => ?_, fun _ _ _ _ hl => absurd hl hnotNone⟩
      · rw [hg, sentTime_of_target_isDir] at hm'
        cases hm'
      · rw [hls] at hl
        cases hl
        exact htime.symm
    · intro hsettles
      exact ⟨hempty, (hsettles.directory b m hls hlt).symm⟩

theorem settles_none (h : CleanSync env i middle s) (hcalm : Calm i sw tw) (hplan : i.planHere p = none) :
    (i.next s sw tw).Quiet p ↔ i.SettlesAt env tw.directoryTime p := by
  cases hls : i.source.lookup p with
  | none => exact h.settles_none_absent hplan hls
  | some n =>
    cases n with
    | directory => exact h.settles_none_directory hplan hls
    | file b m => exact h.settles_none_file hcalm hplan hls

theorem quiet_iff_settlesAt (h : CleanSync env i middle s) (hcalm : Calm i sw tw) :
    (i.next s sw tw).Quiet p ↔ i.SettlesAt env tw.directoryTime p := by
  cases hplan : i.planHere p with
  | none => exact h.settles_none hcalm hplan
  | some a =>
    cases a with
    | createDirectory q => exact h.settles_createDirectory hplan
    | download f => exact h.settles_download hcalm hplan
    | upload f => exact h.settles_upload hcalm hplan
    | delete q => exact h.settles_delete hplan
    | conflict c => exact absurd hplan (h.calm p c)

end CleanSync

/-- After a run without errors and conflicts, in which peers staged over nothing, the next one has nothing to do exactly when
nothing is left at any path. -/
theorem next_plan_empty_iff {r : SyncResult} {sf tf sf' tf' : List FileState} {order : HashOrder} (hcalm : Calm i sw tw)
    (hs : i.source.manifest i.sourceScan = some sf) (ht : i.target.manifest i.targetScan = some tf)
    (hconflicts : (plan env.order ks kt sf tf i.direction i.deleteMode).conflicts = []) (hapart : i.Apart)
    (hrun : i.execute env = (s, .ok r)) (herrors : r.errors = [])
    (hs' : s.source.manifest sw = some sf') (ht' : s.target.manifest tw = some tf') :
    plan order ks kt sf' tf' i.direction i.deleteMode = ⟨[], [], [], [], []⟩ ↔ ∀ p, i.SettlesAt env tw.directoryTime p := by
  obtain ⟨middle, h⟩ := cleanSync hcalm.source hcalm.target hs ht hconflicts hapart hrun herrors
  have hnext : plan order ks kt sf' tf' i.direction i.deleteMode = ⟨[], [], [], [], []⟩ ↔ ∀ p, (i.next s sw tw).Quiet p :=
    SyncInput.plan_eq_empty_iff (i := i.next s sw tw) hs' ht' hcalm.source' hcalm.target'
  exact hnext.trans (forall_congr' fun p => h.quiet_iff_settlesAt hcalm)

end Next

/-! ## Two runs -/

def bucketInput : SyncInput .localFolder .cloud where
  source := .of _ [.write ["a"] [1] 1000, .write ["b"] [] 1000]
  target := .of _ [.write ["b"] [] 1000]
  sourceScan := sampleScan
  targetScan := sampleScan
  direction := .oneWay
  deleteMode := .trash

/-- The source is scanned again with the file as it was, and the bucket's copy is of the time of the write. -/
theorem next_plan_empty_iff_bucket :
    plan calmEnv.order .localFolder .cloud (((bucketInput.execute calmEnv).1.source.manifest sampleScan).getD [])
        (((bucketInput.execute calmEnv).1.target.manifest sampleScan).getD []) .oneWay .trash = ⟨[], [], [], [], []⟩ ↔
      ∀ p, bucketInput.SettlesAt calmEnv sampleScan.directoryTime p :=
  next_plan_empty_iff (i := bucketInput) (s := (bucketInput.execute calmEnv).1) (r := ⟨1, 0, 0, 1, 0, []⟩)
    ⟨rfl, rfl, rfl, rfl, rfl, rfl, rfl⟩ rfl rfl (by decide) ⟨nofun, nofun⟩ (Prod.ext rfl (by decide)) rfl rfl rfl

/-- The bucket's copy is of another time than the file, and is written again and again. -/
theorem bucket_written_again : ¬ ∀ (ks kt : ProviderKind) (env : Env) (i : SyncInput ks kt) (s : SyncState ks kt) (r : SyncResult)
    (sw tw : ScanWorld) (sf tf sf' tf' : List FileState) (order : HashOrder), Calm i sw tw →
    i.source.manifest i.sourceScan = some sf → i.target.manifest i.targetScan = some tf →
    (plan env.order ks kt sf tf i.direction i.deleteMode).conflicts = [] → i.execute env = (s, .ok r) → r.errors = [] →
    s.source.manifest sw = some sf' → s.target.manifest tw = some tf' →
    plan order ks kt sf' tf' i.direction i.deleteMode = ⟨[], [], [], [], []⟩ := by
  intro h
  have h := h _ _ calmEnv bucketInput (bucketInput.execute calmEnv).1 ⟨1, 0, 0, 1, 0, []⟩ sampleScan sampleScan _ _ _ _ calmEnv.order
    ⟨rfl, rfl, rfl, rfl, rfl, rfl, rfl⟩ rfl rfl (by decide) (Prod.ext rfl (by decide)) rfl rfl rfl
  revert h
  decide

end HaexVault.FileSync
