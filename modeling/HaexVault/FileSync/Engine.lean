import HaexVault.FileSync.Scan
import HaexVault.Lib.Runs
/-!
# A run of the engine (`file_sync/engine.rs`)

`executeSync` scans both sides, plans, and works the plan off phase by phase. Whatever goes wrong in
an operation is recorded and the run goes on. The transfers of a phase stand in the order in which
they end. A run without errors has done every operation of its plan (`clean_run`).
-/

namespace HaexVault.FileSync

open HaexVault.Lib.Runs

/-- What a call leaves that fails: nothing, what staging leaves at a peer, or something at its path. -/
inductive Left where
  | nothing
  | staged
  | written (bytes : Bytes)

def Left.isWritten : Left → Bool
  | written _ => true
  | _ => false

/-- How a provider call comes out: done, done but not recorded in the database, or failed after
leaving something behind. -/
inductive Outcome where
  | ok
  | unrecorded (message : String)
  | failed (message : String) (left : Left)

def Outcome.messages : Outcome → List String
  | unrecorded message => [message]
  | _ => []

inductive Call where
  | createDirectory (path : Path)
  | download (path : Path)
  | upload (path : Path)
  | delete (path : Path)
  | rename (path : Path)
  | restore (path : Path)

structure Env where
  order : HashOrder
  /-- The order in which the transfers of a phase end. -/
  completed : List FileState → List FileState
  completed_perm : ∀ l, (completed l).Perm l
  outcome : Call → Outcome
  /-- The time at which a path is written. -/
  writtenAt : Path → Nat
  conflictTime : Path → Nat
  sha : Bytes → String
  ioError : String
  cancelledAfter : Option Nat

structure SyncResult where
  filesDownloaded : Nat
  filesDeleted : Nat
  directoriesCreated : Nat
  bytesTransferred : Nat
  conflictsResolved : Nat
  errors : List String
  deriving DecidableEq

def SyncResult.empty : SyncResult := ⟨0, 0, 0, 0, 0, []⟩

def SyncResult.fail (r : SyncResult) (messages : List String) : SyncResult := { r with errors := r.errors ++ messages }

structure SyncState (ks kt : ProviderKind) where
  source : Tree ks
  target : Tree kt
  result : SyncResult

inductive Op where
  | createDirectory (path : Path)
  | download (file : FileState)
  | upload (file : FileState)
  | delete (path : Path)
  | conflict (conflict : SyncConflict)

def showPath (p : Path) : String := "/".intercalate p

/-! ## Conflict names -/

/-- `Path::file_stem` and `Path::extension`. -/
def splitExtension (name : String) : String × Option String :=
  let reversed := name.toList.reverse
  let stem := String.ofList ((reversed.dropWhile (· ≠ '.')).drop 1).reverse
  if stem = "" ∨ name = ".." then (name, none)
  else (stem, some (String.ofList (reversed.takeWhile (· ≠ '.')).reverse))

def makeConflictPath (p : Path) (timestamp : Nat) : Path :=
  let (stem, extension) := splitExtension (p.getLastD "")
  p.dropLast ++ [stem ++ ".conflict." ++ toString timestamp ++ (extension.map fun e => "." ++ e).getD ""]

/-! ## Operations -/

section Run
variable {ks kt : ProviderKind}

def observedHash (sha : Bytes → String) : ProviderKind → Bytes → Option String
  | .peer, bytes => some (sha bytes)
  | _, _ => none

def verified (claimed observed : Option String) : Bool :=
  match claimed, observed with
  | some c, some o => c = o
  | _, _ => true

def Left.apply {k : ProviderKind} (left : Left) (dst : Tree k) (q : Path) (now : Nat) : Tree k :=
  match left with
  | nothing => dst
  | staged => dst.unstage q
  | written bytes => (dst.write q bytes now).getD dst

/-- Read a file on one side, and write it on the other: the tree, the bytes if it is done, and the errors. -/
def transfer (env : Env) (call : Call) (label : String) (src : Tree ks) (p : Path) (claimed : Option String) (dst : Tree kt)
    (q : Path) : Tree kt × Option Nat × List String :=
  match env.outcome call with
  | .failed message left => (left.apply dst q (env.writtenAt q), none, [message])
  | outcome =>
    match src.read p with
    | none => (dst, none, [label ++ showPath p ++ ": " ++ env.ioError])
    | some bytes =>
      if verified claimed (observedHash env.sha ks bytes) then
        match dst.write q bytes (env.writtenAt q) with
        | none => (dst.unstage q, none, [label ++ showPath p ++ ": " ++ env.ioError])
        | some dst' => (dst', some bytes.length, outcome.messages)
      else
        (dst, none, [label ++ showPath p ++ ": Provider error: hash mismatch: manifest claimed " ++ claimed.getD "" ++
          ", received " ++ (observedHash env.sha ks bytes).getD ""])

def attempt (env : Env) (call : Call) (label : String) (p : Path) (dst : Tree kt) (done : Option (Tree kt)) :
    Tree kt × Bool × List String :=
  match env.outcome call with
  | .failed message left => (if left.isWritten then done.getD dst else dst, false, [message])
  | outcome =>
    match done with
    | none => (dst, false, [label ++ showPath p ++ ": " ++ env.ioError])
    | some dst' => (dst', true, outcome.messages)

/-- Step 2 of a conflict: the source's version at the original path. -/
def restore (env : Env) (s : SyncState ks kt) (c : SyncConflict) : SyncState ks kt :=
  let restored := transfer env (.restore c.relativePath) "conflict write " s.source c.relativePath c.sourceState.hash
    s.target c.relativePath
  match restored.2.1 with
  | some bytes =>
    { s with
      target := restored.1
      result := { s.result with
        bytesTransferred := s.result.bytesTransferred + bytes
        conflictsResolved := s.result.conflictsResolved + 1 } }
  | none =>
    { s with
      target := restored.1
      result := s.result.fail (restored.2.2 ++ ["conflict unresolved: " ++ showPath c.relativePath]) }

/-- A conflict: the target's version is kept under another name, then the source wins. -/
def resolveConflict (env : Env) (s : SyncState ks kt) (c : SyncConflict) : SyncState ks kt :=
  let kept := transfer env (.rename c.relativePath) "conflict rename " s.target c.relativePath none s.target
    (makeConflictPath c.relativePath (env.conflictTime c.relativePath))
  match kept.2.1 with
  | some _ => restore env { s with target := kept.1 } c
  | none =>
    { s with
      target := kept.1
      result := s.result.fail (kept.2.2 ++ ["conflict unresolved: " ++ showPath c.relativePath]) }

/-- One operation of the plan. -/
def step (env : Env) (s : SyncState ks kt) : Op → SyncState ks kt
  | .createDirectory p =>
    let created := attempt env (.createDirectory p) "mkdir " p s.target (s.target.createDirectory p)
    { s with
      target := created.1
      result := { s.result.fail created.2.2 with
        directoriesCreated := s.result.directoriesCreated + created.2.1.toNat } }
  | .download f =>
    let sent := transfer env (.download f.relativePath) "transfer " s.source f.relativePath f.hash s.target f.relativePath
    { s with
      target := sent.1
      result := { s.result.fail sent.2.2 with
        filesDownloaded := s.result.filesDownloaded + sent.2.1.isSome.toNat
        bytesTransferred := s.result.bytesTransferred + sent.2.1.getD 0 } }
  | .upload f =>
    let sent := transfer env (.upload f.relativePath) "upload " s.target f.relativePath f.hash s.source f.relativePath
    { s with
      source := sent.1
      result := { s.result.fail sent.2.2 with bytesTransferred := s.result.bytesTransferred + sent.2.1.getD 0 } }
  | .delete p =>
    let deleted := attempt env (.delete p) "delete " p s.target (s.target.delete p)
    { s with
      target := deleted.1
      result := { s.result.fail deleted.2.2 with filesDeleted := s.result.filesDeleted + deleted.2.1.toNat } }
  | .conflict c => resolveConflict env s c

/-! ## A run -/

def filterDirectories (ks kt : ProviderKind) (direction : SyncDirection) (actions : SyncActions) : SyncActions :=
  if kt.supportsDirectories = false ∨ (ks.supportsDirectories = false ∧ direction = .twoWay) then
    { actions with toCreateDirectories := [] }
  else actions

/-- The plan of a run. -/
def plan (order : HashOrder) (ks kt : ProviderKind) (sourceManifest targetManifest : List FileState)
    (direction : SyncDirection) (deleteMode : DeleteMode) : SyncActions :=
  filterDirectories ks kt direction (computeSyncActions order sourceManifest targetManifest direction deleteMode)

section Plan
variable {order : HashOrder} {ks kt : ProviderKind} {sf tf : List FileState} {direction : SyncDirection} {deleteMode : DeleteMode}
  {f : FileState} {p : Path} {c : SyncConflict}

theorem mem_plan_toDownload : f ∈ (plan order ks kt sf tf direction deleteMode).toDownload ↔
    .download f ∈ planned order sf tf direction deleteMode := by
  rw [← mem_toDownload, plan, filterDirectories]
  split <;> rfl

theorem mem_plan_toUpload : f ∈ (plan order ks kt sf tf direction deleteMode).toUpload ↔
    .upload f ∈ planned order sf tf direction deleteMode := by
  rw [← mem_toUpload, plan, filterDirectories]
  split <;> rfl

theorem mem_plan_toDelete : p ∈ (plan order ks kt sf tf direction deleteMode).toDelete ↔
    .delete p ∈ planned order sf tf direction deleteMode := by
  rw [← mem_toDelete, plan, filterDirectories]
  split <;> rfl

theorem mem_plan_conflicts : c ∈ (plan order ks kt sf tf direction deleteMode).conflicts ↔
    .conflict c ∈ planned order sf tf direction deleteMode := by
  rw [← mem_conflicts, plan, filterDirectories]
  split <;> rfl

theorem mem_plan_toCreateDirectories : p ∈ (plan order ks kt sf tf direction deleteMode).toCreateDirectories ↔
    (kt.supportsDirectories = true ∧ (ks.supportsDirectories = true ∨ direction = .oneWay)) ∧
      .createDirectory p ∈ planned order sf tf direction deleteMode := by
  rw [← mem_toCreateDirectories, plan, filterDirectories]
  cases hk : kt.supportsDirectories <;> cases hs : ks.supportsDirectories <;> cases direction <;> simp

end Plan

def operations (env : Env) (actions : SyncActions) : List Op :=
  actions.toCreateDirectories.map .createDirectory ++ (env.completed actions.toDownload).map .download ++
    (env.completed actions.toUpload).map .upload ++ actions.toDelete.map .delete ++ actions.conflicts.map .conflict

inductive SyncEngineError where
  | sourceUnavailable
  | targetUnavailable
  | cancelled
  deriving DecidableEq

/-- `execute_sync`: what it leaves on both sides, and what it returns. -/
def executeSync (env : Env) (source : Tree ks) (target : Tree kt) (sourceScan targetScan : ScanWorld)
    (direction : SyncDirection) (deleteMode : DeleteMode) : SyncState ks kt × Except SyncEngineError SyncResult :=
  let start : SyncState ks kt := ⟨source, target, .empty⟩
  match source.manifest sourceScan with
  | none => (start, .error .sourceUnavailable)
  | some sourceManifest =>
    match target.manifest targetScan with
    | none => (start, .error .targetUnavailable)
    | some targetManifest =>
      let ops := operations env (plan env.order ks kt sourceManifest targetManifest direction deleteMode)
      match env.cancelledAfter with
      | some n => (run (step env) start (ops.take n), .error .cancelled)
      | none => (run (step env) start ops, .ok (run (step env) start ops).result)

def calmEnv : Env where
  order := ⟨fun m => m.entries.map fun e => (e.1, e.2), fun _ => .refl _⟩
  completed l := l
  completed_perm l := .refl l
  outcome _ := .ok
  writtenAt _ := 2000
  conflictTime _ := 2000
  sha := sampleSha
  ioError := "IO error"
  cancelledAfter := none

/-! ## Runs without errors -/

variable {env : Env} {s : SyncState ks kt} {ops ops' : List Op}

theorem attempt_ok {call : Call} {label : String} {p : Path} {dst : Tree kt} {done : Option (Tree kt)}
    (h : (attempt env call label p dst done).2.2 = []) : done = some (attempt env call label p dst done).1 := by
  unfold attempt at h ⊢
  cases hcall : env.outcome call with
  | failed message left => simp [hcall] at h
  | unrecorded message => cases done <;> simp [hcall, Outcome.messages] at h
  | ok =>
    cases done with
    | none => simp [hcall] at h
    | some dst' => rfl

theorem transfer_ok {call : Call} {label : String} {src : Tree ks} {p q : Path} {claimed : Option String} {dst : Tree kt}
    (h : (transfer env call label src p claimed dst q).2.2 = []) : ∃ bytes, src.read p = some bytes ∧
      dst.write q bytes (env.writtenAt q) = some (transfer env call label src p claimed dst q).1 := by
  unfold transfer at h ⊢
  cases hcall : env.outcome call with
  | failed message left => simp [hcall] at h
  | unrecorded message =>
    simp only [hcall] at h
    split at h
    · cases h
    · split at h
      · split at h <;> simp [Outcome.messages] at h
      · cases h
  | ok =>
    simp only [hcall] at h ⊢
    split at h
    · cases h
    · rename_i bytes hread
      refine ⟨bytes, hread, ?_⟩
      split at h
      · rename_i hverified
        rw [if_pos hverified]
        split at h
        · cases h
        · rename_i hwrite
          rw [hwrite]
      · cases h

theorem step_errors (env : Env) (s : SyncState ks kt) (op : Op) :
    ∃ messages, (step env s op).result.errors = s.result.errors ++ messages := by
  cases op with
  | createDirectory p => exact ⟨_, rfl⟩
  | download f => exact ⟨_, rfl⟩
  | upload f => exact ⟨_, rfl⟩
  | delete p => exact ⟨_, rfl⟩
  | conflict c =>
    have hrestore : ∀ s : SyncState ks kt, ∃ messages, (restore env s c).result.errors = s.result.errors ++ messages := by
      intro s
      unfold restore
      dsimp only
      split
      · exact ⟨[], (List.append_nil _).symm⟩
      · exact ⟨_, rfl⟩
    simp only [step]
    unfold resolveConflict
    dsimp only
    split
    · exact hrestore _
    · exact ⟨_, rfl⟩

theorem run_errors (env : Env) (s : SyncState ks kt) (ops : List Op) :
    ∃ messages, (run (step env) s ops).result.errors = s.result.errors ++ messages := by
  induction ops generalizing s with
  | nil => exact ⟨[], (List.append_nil _).symm⟩
  | cons op ops ih =>
    obtain ⟨messages, h⟩ := step_errors env s op
    obtain ⟨messages', h'⟩ := ih (step env s op)
    exact ⟨messages ++ messages', by rw [run_cons, h', h, List.append_assoc]⟩

def Clean (env : Env) (s : SyncState ks kt) (ops : List Op) : Prop := (run (step env) s ops).result.errors = []

theorem Clean.start (h : Clean env s ops) : s.result.errors = [] := by
  obtain ⟨messages, hm⟩ := run_errors env s ops
  rw [Clean, hm, List.append_eq_nil_iff] at h
  exact h.1

theorem Clean.head {op : Op} (h : Clean env s (op :: ops)) : (step env s op).result.errors = [] := by
  have hrest : Clean env (step env s op) ops := h
  exact hrest.start

theorem Clean.append (h : Clean env s (ops ++ ops')) : Clean env s ops ∧ Clean env (run (step env) s ops) ops' := by
  have hrest : Clean env (run (step env) s ops) ops' := by rwa [Clean, run_append] at h
  exact ⟨hrest.start, hrest⟩

/-! ### Phase by phase -/

theorem clean_createDirectories {ps : List Path} (h : Clean env s (ps.map .createDirectory)) :
    (run (step env) s (ps.map .createDirectory)).source = s.source ∧
      s.target.edits (ps.map .createDirectory) = some (run (step env) s (ps.map .createDirectory)).target := by
  induction ps generalizing s with
  | nil => exact ⟨rfl, rfl⟩
  | cons p ps ih =>
    obtain ⟨hsource, htarget⟩ := ih (s := step env s (.createDirectory p)) h
    have hdone := attempt_ok (List.append_eq_nil_iff.1 (Clean.head h)).2
    exact ⟨hsource, Option.bind_eq_some_iff.2 ⟨_, hdone, htarget⟩⟩

def writeOf {k : ProviderKind} (env : Env) (src : Tree k) (f : FileState) : Tree.Edit :=
  .write f.relativePath ((src.read f.relativePath).getD []) (env.writtenAt f.relativePath)

theorem clean_downloads {files : List FileState} (h : Clean env s (files.map .download)) :
    (run (step env) s (files.map .download)).source = s.source ∧
      (∀ f ∈ files, s.source.read f.relativePath ≠ none) ∧
      s.target.edits (files.map (writeOf env s.source)) = some (run (step env) s (files.map .download)).target := by
  induction files generalizing s with
  | nil => exact ⟨rfl, fun _ h => absurd h List.not_mem_nil, rfl⟩
  | cons f files ih =>
    obtain ⟨hsource, hread, htarget⟩ := ih (s := step env s (.download f)) h
    obtain ⟨bytes, hbytes, hwrite⟩ := transfer_ok (List.append_eq_nil_iff.1 (Clean.head h)).2
    refine ⟨hsource, List.forall_mem_cons.2 ⟨?_, hread⟩, Option.bind_eq_some_iff.2 ⟨_, ?_, htarget⟩⟩
    · rw [hbytes]
      exact Option.some_ne_none bytes
    · rw [writeOf, hbytes]
      exact hwrite

theorem clean_uploads {files : List FileState} (h : Clean env s (files.map .upload)) :
    (run (step env) s (files.map .upload)).target = s.target ∧
      (∀ f ∈ files, s.target.read f.relativePath ≠ none) ∧
      s.source.edits (files.map (writeOf env s.target)) = some (run (step env) s (files.map .upload)).source := by
  induction files generalizing s with
  | nil => exact ⟨rfl, fun _ h => absurd h List.not_mem_nil, rfl⟩
  | cons f files ih =>
    obtain ⟨htarget, hread, hsource⟩ := ih (s := step env s (.upload f)) h
    obtain ⟨bytes, hbytes, hwrite⟩ := transfer_ok (List.append_eq_nil_iff.1 (Clean.head h)).2
    refine ⟨htarget, List.forall_mem_cons.2 ⟨?_, hread⟩, Option.bind_eq_some_iff.2 ⟨_, ?_, hsource⟩⟩
    · rw [hbytes]
      exact Option.some_ne_none bytes
    · rw [writeOf, hbytes]
      exact hwrite

theorem clean_deletes {ps : List Path} (h : Clean env s (ps.map .delete)) :
    (run (step env) s (ps.map .delete)).source = s.source ∧
      s.target.deletes ps = some (run (step env) s (ps.map .delete)).target := by
  induction ps generalizing s with
  | nil => exact ⟨rfl, rfl⟩
  | cons p ps ih =>
    obtain ⟨hsource, htarget⟩ := ih (s := step env s (.delete p)) h
    have hdone := attempt_ok (List.append_eq_nil_iff.1 (Clean.head h)).2
    exact ⟨hsource, Option.bind_eq_some_iff.2 ⟨_, hdone, htarget⟩⟩

/-- What a run without errors and conflicts has done: the target after the downloads, the source after the
uploads, and the target after the deletions. -/
structure CleanRun (env : Env) (source : Tree ks) (target : Tree kt) (actions : SyncActions) (s : SyncState ks kt) : Prop where
  downloaded : ∀ f ∈ actions.toDownload, source.read f.relativePath ≠ none
  done : ∃ middle : Tree kt,
    target.edits (actions.toCreateDirectories.map .createDirectory ++
      (env.completed actions.toDownload).map (writeOf env source)) = some middle ∧
    (∀ f ∈ actions.toUpload, middle.read f.relativePath ≠ none) ∧
    source.edits ((env.completed actions.toUpload).map (writeOf env middle)) = some s.source ∧
    middle.deletes actions.toDelete = some s.target

theorem clean_run {source : Tree ks} {target : Tree kt} {actions : SyncActions} {r : SyncResult}
    (h : Clean env ⟨source, target, r⟩ (operations env actions)) (hconflicts : actions.conflicts = []) :
    CleanRun env source target actions (run (step env) ⟨source, target, r⟩ (operations env actions)) := by
  unfold operations at h ⊢
  rw [hconflicts, List.map_nil, List.append_nil] at h ⊢
  obtain ⟨h, hdeletes⟩ := Clean.append h
  obtain ⟨h, huploads⟩ := Clean.append h
  obtain ⟨hdirectories, hdownloads⟩ := Clean.append h
  obtain ⟨hs₁, ht₁⟩ := clean_createDirectories hdirectories
  obtain ⟨hs₂, hread₂, ht₂⟩ := clean_downloads hdownloads
  obtain ⟨ht₃, hread₃, hs₃⟩ := clean_uploads huploads
  obtain ⟨hs₄, ht₄⟩ := clean_deletes hdeletes
  rw [run_append] at ht₃ hread₃ hs₃
  rw [hs₁] at hs₂ hread₂ ht₂
  rw [hs₂] at hs₃
  simp only [run_append] at hs₄ ht₄ ⊢
  rw [ht₃] at ht₄
  refine ⟨fun f hf => hread₂ f ((env.completed_perm _).mem_iff.2 hf), _, ?_, fun f hf => ?_, ?_, ht₄⟩
  · rw [Tree.edits, List.foldlM_append]
    exact Option.bind_eq_some_iff.2 ⟨_, ht₁, ht₂⟩
  · exact hread₃ f ((env.completed_perm _).mem_iff.2 hf)
  · rw [hs₄]
    exact hs₃

end Run

end HaexVault.FileSync
