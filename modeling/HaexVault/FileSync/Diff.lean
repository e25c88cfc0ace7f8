import Mathlib.Data.List.AList
import Mathlib.Data.List.Induction
import Mathlib.Data.List.Sort
/-!
# The diff of two manifests (`file_sync/types.rs`, `diff.rs`)

A relative path is the list of its components. The two manifests are put into maps by path, with one
loop over each. What a loop pushes for an entry depends on the two entries at its path alone
(`planAt`), so that `mem_planned` describes a plan path by path.
-/

namespace HaexVault.FileSync

abbrev Path := List String

structure FileState where
  relativePath : Path
  size : Nat
  modifiedAt : Nat
  isDirectory : Bool
  /-- SHA-256 of the content; none for directories. -/
  hash : Option String
  deriving DecidableEq

inductive SyncDirection where
  | oneWay | twoWay
  deriving DecidableEq

inductive DeleteMode where
  | trash | permanent | ignore
  deriving DecidableEq

structure SyncConflict where
  relativePath : Path
  sourceState : FileState
  targetState : FileState
  deriving DecidableEq

structure SyncActions where
  toDownload : List FileState
  toUpload : List FileState
  toDelete : List Path
  toCreateDirectories : List Path
  conflicts : List SyncConflict
  deriving DecidableEq

def filesEqual (a b : FileState) : Bool :=
  match a.hash, b.hash with
  | some ha, some hb => a.size = b.size && ha = hb
  | _, _ => a.size = b.size && a.modifiedAt = b.modifiedAt

/-! ## The maps -/

abbrev FileMap := AList fun _ : Path => FileState

def toMap (files : List FileState) : FileMap := files.foldl (fun m f => m.insert f.relativePath f) ∅

structure HashOrder where
  visit : FileMap → List (Path × FileState)
  perm : ∀ m, (visit m).Perm (m.entries.map fun e => (e.1, e.2))

theorem HashOrder.mem_visit (order : HashOrder) {m : FileMap} {p : Path} {f : FileState} :
    (p, f) ∈ order.visit m ↔ m.lookup p = some f := by
  rw [(order.perm m).mem_iff, List.mem_map, ← Option.mem_def, AList.mem_lookup_iff]
  constructor
  · rintro ⟨⟨q, g⟩, h, he⟩
    cases he
    exact h
  · intro h
    exact ⟨⟨p, f⟩, h, rfl⟩

theorem lookup_toMap {files : List FileState} (hpath : ∀ f ∈ files, ∀ g ∈ files, f.relativePath = g.relativePath → f = g)
    {p : Path} {f : FileState} : (toMap files).lookup p = some f ↔ f ∈ files ∧ f.relativePath = p := by
  induction files using List.reverseRecOn with
  | nil => simp [toMap]
  | append_singleton files g ih =>
    have ih := ih fun a ha b hb => hpath a (List.mem_append_left _ ha) b (List.mem_append_left _ hb)
    have hstep : toMap (files ++ [g]) = (toMap files).insert g.relativePath g := by simp [toMap, List.foldl_append]
    rw [hstep]
    by_cases hp : p = g.relativePath
    · subst hp
      rw [AList.lookup_insert]
      constructor
      · rintro ⟨⟩
        exact ⟨List.mem_append_right _ (List.mem_singleton_self _), rfl⟩
      · rintro ⟨hf, he⟩
        rw [hpath f hf _ (List.mem_append_right _ (List.mem_singleton_self _)) he]
    · rw [AList.lookup_insert_ne hp, ih, List.mem_append, List.mem_singleton]
      constructor
      · rintro ⟨hf, rfl⟩
        exact ⟨.inl hf, rfl⟩
      · rintro ⟨hf | rfl, he⟩
        · exact ⟨hf, he⟩
        · exact absurd he.symm hp

/-! ## The plan -/

inductive Planned where
  | createDirectory (path : Path)
  | download (file : FileState)
  | upload (file : FileState)
  | delete (path : Path)
  | conflict (conflict : SyncConflict)
  deriving DecidableEq

/-- The body of the loop of `compute_one_way` over the source. -/
def oneWaySource (target : FileMap) (e : Path × FileState) : Option Planned :=
  if e.2.isDirectory then
    if target.lookup e.1 = none then some (.createDirectory e.1) else none
  else match target.lookup e.1 with
    | none => some (.download e.2)
    | some t => if filesEqual e.2 t then none else some (.download e.2)

def oneWayTarget (source : FileMap) (e : Path × FileState) : Option Planned :=
  if e.2.isDirectory then none
  else if source.lookup e.1 = none then some (.delete e.1) else none

def computeOneWay (order : HashOrder) (source target : FileMap) (deleteMode : DeleteMode) : List Planned :=
  (order.visit source).filterMap (oneWaySource target) ++
    if deleteMode ≠ .ignore then (order.visit target).filterMap (oneWayTarget source) else []

/-- The body of the loop of `compute_two_way` over the source. -/
def twoWaySource (target : FileMap) (e : Path × FileState) : Option Planned :=
  if e.2.isDirectory then
    if target.lookup e.1 = none then some (.createDirectory e.1) else none
  else match target.lookup e.1 with
    | none => some (.download e.2)
    | some t =>
      if filesEqual e.2 t then none
      else if e.2.modifiedAt = t.modifiedAt ∧ e.2.size ≠ t.size then some (.conflict ⟨e.1, e.2, t⟩)
      else if e.2.modifiedAt > t.modifiedAt then some (.download e.2)
      else if t.modifiedAt > e.2.modifiedAt then some (.upload t)
      else some (.conflict ⟨e.1, e.2, t⟩)

def twoWayTarget (source : FileMap) (e : Path × FileState) : Option Planned :=
  if source.lookup e.1 ≠ none then none
  else if e.2.isDirectory then some (.createDirectory e.1)
  else some (.upload e.2)

def computeTwoWay (order : HashOrder) (source target : FileMap) : List Planned :=
  (order.visit source).filterMap (twoWaySource target) ++ (order.visit target).filterMap (twoWayTarget source)

/-- What is pushed for two manifests, in the order of the loops. -/
def planned (order : HashOrder) (sourceFiles targetFiles : List FileState) (direction : SyncDirection)
    (deleteMode : DeleteMode) : List Planned :=
  match direction with
  | .oneWay => computeOneWay order (toMap sourceFiles) (toMap targetFiles) deleteMode
  | .twoWay => computeTwoWay order (toMap sourceFiles) (toMap targetFiles)

def depth (path : Path) : Nat := path.length - 1

def computeSyncActions (order : HashOrder) (sourceFiles targetFiles : List FileState) (direction : SyncDirection)
    (deleteMode : DeleteMode) : SyncActions :=
  let actions := planned order sourceFiles targetFiles direction deleteMode
  { toDownload := actions.filterMap fun | .download f => some f | _ => none
    toUpload := actions.filterMap fun | .upload f => some f | _ => none
    toDelete := actions.filterMap fun | .delete p => some p | _ => none
    toCreateDirectories :=
      (actions.filterMap fun | .createDirectory p => some p | _ => none).insertionSort fun a b => depth a ≤ depth b
    conflicts := actions.filterMap fun | .conflict c => some c | _ => none }

/-! ## A plan, path by path -/

/-- What is pushed for a path, from what each side has there. -/
def planAt (direction : SyncDirection) (deleteMode : DeleteMode) (p : Path) : Option FileState → Option FileState → Option Planned
  | none, none => none
  | none, some t =>
    match direction with
    | .oneWay => if t.isDirectory ∨ deleteMode = .ignore then none else some (.delete p)
    | .twoWay => if t.isDirectory then some (.createDirectory p) else some (.upload t)
  | some s, none => if s.isDirectory then some (.createDirectory p) else some (.download s)
  | some s, some t =>
    if s.isDirectory ∨ filesEqual s t then none
    else match direction with
      | .oneWay => some (.download s)
      | .twoWay =>
        if s.modifiedAt > t.modifiedAt then some (.download s)
        else if t.modifiedAt > s.modifiedAt then some (.upload t)
        else some (.conflict ⟨p, s, t⟩)

section Plan
variable {order : HashOrder} {source target : List FileState} {direction : SyncDirection} {deleteMode : DeleteMode} {p : Path}
  {s t : FileState}

theorem oneWaySource_eq (m : FileMap) : oneWaySource m (p, s) = planAt .oneWay deleteMode p (some s) (m.lookup p) := by
  cases hm : m.lookup p with
  | none => simp [oneWaySource, planAt, hm]
  | some t => by_cases hd : s.isDirectory <;> simp [oneWaySource, planAt, hm, hd]

theorem oneWayTarget_eq (m : FileMap) (h : m.lookup p = none) (hmode : deleteMode ≠ .ignore) :
    oneWayTarget m (p, t) = planAt .oneWay deleteMode p none (some t) := by
  simp [oneWayTarget, planAt, h, hmode]

theorem twoWaySource_eq (m : FileMap) : twoWaySource m (p, s) = planAt .twoWay deleteMode p (some s) (m.lookup p) := by
  cases hm : m.lookup p with
  | none => simp [twoWaySource, planAt, hm]
  | some t =>
    by_cases hd : s.isDirectory
    · simp [twoWaySource, planAt, hm, hd]
    · by_cases he : filesEqual s t
      · simp [twoWaySource, planAt, hm, hd, he]
      · rcases Nat.lt_trichotomy s.modifiedAt t.modifiedAt with h | h | h
        · simp [twoWaySource, planAt, hm, hd, he, h, h.ne, h.not_gt]
        · simp [twoWaySource, planAt, hm, hd, he, h]
        · simp [twoWaySource, planAt, hm, hd, he, h, h.ne']

theorem twoWayTarget_eq (m : FileMap) (h : m.lookup p = none) :
    twoWayTarget m (p, t) = planAt .twoWay deleteMode p none (some t) := by
  simp [twoWayTarget, planAt, h]

/-- A plan is what is pushed for each path. -/
theorem mem_planned {a : Planned} : a ∈ planned order source target direction deleteMode ↔
    ∃ p, planAt direction deleteMode p ((toMap source).lookup p) ((toMap target).lookup p) = some a := by
  -- both directions go over the source, then over what only the target has
  have hsplit : ∀ {l : List Planned} {f g : Path × FileState → Option Planned},
      (∀ b, b ∈ l ↔ (∃ e ∈ order.visit (toMap source), f e = some b) ∨ ∃ e ∈ order.visit (toMap target), g e = some b) →
      (∀ p s, f (p, s) = planAt direction deleteMode p (some s) ((toMap target).lookup p)) →
      (∀ p t, (toMap source).lookup p = none → g (p, t) = planAt direction deleteMode p none (some t)) →
      (∀ p t, (toMap source).lookup p ≠ none → g (p, t) = none) →
      (a ∈ l ↔ ∃ p, planAt direction deleteMode p ((toMap source).lookup p) ((toMap target).lookup p) = some a) := by
    intro l f g hl hf hg hskip
    rw [hl]
    constructor
    · rintro (⟨⟨p, s⟩, he, ha⟩ | ⟨⟨p, t⟩, he, ha⟩)
      · exact ⟨p, by rw [order.mem_visit.1 he, ← hf, ha]⟩
      · by_cases hs : (toMap source).lookup p = none
        · exact ⟨p, by rw [hs, order.mem_visit.1 he, ← hg p t hs, ha]⟩
        · rw [hskip p t hs] at ha
          cases ha
    · rintro ⟨p, ha⟩
      cases hs : (toMap source).lookup p with
      | some s => exact .inl ⟨(p, s), order.mem_visit.2 hs, by rw [hf, ← ha, hs]⟩
      | none =>
        cases ht : (toMap target).lookup p with
        | some t => exact .inr ⟨(p, t), order.mem_visit.2 ht, by rw [hg p t hs, ← ha, hs, ht]⟩
        | none =>
          rw [hs, ht] at ha
          cases ha
  cases direction with
  | twoWay =>
    refine hsplit (fun b => ?_) (fun p s => twoWaySource_eq _) (fun p t h => twoWayTarget_eq _ h) fun p t h => ?_
    · simp [planned, computeTwoWay, List.mem_filterMap]
    · simp [twoWayTarget, h]
  | oneWay =>
    by_cases hmode : deleteMode = .ignore
    · refine hsplit (g := fun _ => none) (fun b => ?_) (fun p s => oneWaySource_eq _) (fun p t _ => ?_) fun _ _ _ => rfl
      · simp [planned, computeOneWay, List.mem_filterMap, hmode]
      · simp [planAt, hmode]
    · refine hsplit (fun b => ?_) (fun p s => oneWaySource_eq _) (fun p t h => oneWayTarget_eq _ h hmode) fun p t h => ?_
      · simp [planned, computeOneWay, List.mem_filterMap, hmode]
      · simp [oneWayTarget, h]

end Plan

theorem planAt_oneWay_delete {deleteMode : DeleteMode} {p q : Path} {s t : Option FileState} :
    planAt .oneWay deleteMode p s t = some (.delete q) ↔
      q = p ∧ deleteMode ≠ .ignore ∧ s = none ∧ ∃ f, t = some f ∧ f.isDirectory = false := by
  cases s with
  | none =>
    cases t with
    | none => simp [planAt]
    | some f => by_cases hd : f.isDirectory <;> by_cases hm : deleteMode = .ignore <;> simp [planAt, hd, hm, @eq_comm _ p]
  | some f =>
    cases t with
    | none => by_cases hd : f.isDirectory <;> simp [planAt, hd]
    | some g => by_cases h : f.isDirectory ∨ filesEqual f g <;> simp [planAt, h]

theorem planAt_oneWay_conflict {deleteMode : DeleteMode} {p : Path} {s t : Option FileState} {c : SyncConflict} :
    planAt .oneWay deleteMode p s t ≠ some (.conflict c) := by
  cases s with
  | none =>
    cases t with
    | none => simp [planAt]
    | some f => by_cases h : f.isDirectory ∨ deleteMode = .ignore <;> simp [planAt, h]
  | some f =>
    cases t with
    | none => by_cases hd : f.isDirectory <;> simp [planAt, hd]
    | some g => by_cases h : f.isDirectory ∨ filesEqual f g <;> simp [planAt, h]

section PlanAt
variable {direction : SyncDirection} {deleteMode : DeleteMode} {p q : Path} {s t : Option FileState} {f : FileState}

theorem planAt_download (h : planAt direction deleteMode p s t = some (.download f)) : s = some f ∧ f.isDirectory = false := by
  unfold planAt at h
  grind

theorem planAt_upload (h : planAt direction deleteMode p s t = some (.upload f)) : t = some f ∧ direction = .twoWay := by
  unfold planAt at h
  grind

theorem planAt_delete (h : planAt direction deleteMode p s t = some (.delete q)) :
    q = p ∧ s = none ∧ direction = .oneWay ∧ ∃ f, t = some f ∧ f.isDirectory = false := by
  unfold planAt at h
  grind

theorem planAt_createDirectory (h : planAt direction deleteMode p s t = some (.createDirectory q)) :
    q = p ∧ ((t = none ∧ ∃ f, s = some f ∧ f.isDirectory = true) ∨
      (direction = .twoWay ∧ s = none ∧ ∃ f, t = some f ∧ f.isDirectory = true)) := by
  unfold planAt at h
  grind

theorem planAt_none (h : planAt direction deleteMode p s t = none) :
    (s = none → ∀ g, t = some g → g.isDirectory = true ∨ (direction = .oneWay ∧ deleteMode = .ignore)) ∧
      ∀ f, s = some f → f.isDirectory = false → ∃ g, t = some g ∧ filesEqual f g = true := by
  unfold planAt at h
  grind

end PlanAt

/-! ## The lists of a plan -/

section Actions
variable {order : HashOrder} {source target : List FileState} {direction : SyncDirection} {deleteMode : DeleteMode}
  {f : FileState} {p : Path} {c : SyncConflict}

theorem mem_toDownload : f ∈ (computeSyncActions order source target direction deleteMode).toDownload ↔
    .download f ∈ planned order source target direction deleteMode := by
  simp only [computeSyncActions, List.mem_filterMap]
  exact ⟨by rintro ⟨_ | _, h, he⟩ <;> cases he; exact h, fun h => ⟨_, h, rfl⟩⟩

theorem mem_toUpload : f ∈ (computeSyncActions order source target direction deleteMode).toUpload ↔
    .upload f ∈ planned order source target direction deleteMode := by
  simp only [computeSyncActions, List.mem_filterMap]
  exact ⟨by rintro ⟨_ | _, h, he⟩ <;> cases he; exact h, fun h => ⟨_, h, rfl⟩⟩

theorem mem_toDelete : p ∈ (computeSyncActions order source target direction deleteMode).toDelete ↔
    .delete p ∈ planned order source target direction deleteMode := by
  simp only [computeSyncActions, List.mem_filterMap]
  exact ⟨by rintro ⟨_ | _, h, he⟩ <;> cases he; exact h, fun h => ⟨_, h, rfl⟩⟩

theorem mem_toCreateDirectories : p ∈ (computeSyncActions order source target direction deleteMode).toCreateDirectories ↔
    .createDirectory p ∈ planned order source target direction deleteMode := by
  simp only [computeSyncActions, List.mem_insertionSort, List.mem_filterMap]
  exact ⟨by rintro ⟨_ | _, h, he⟩ <;> cases he; exact h, fun h => ⟨_, h, rfl⟩⟩

theorem mem_conflicts : c ∈ (computeSyncActions order source target direction deleteMode).conflicts ↔
    .conflict c ∈ planned order source target direction deleteMode := by
  simp only [computeSyncActions, List.mem_filterMap]
  exact ⟨by rintro ⟨_ | _, h, he⟩ <;> cases he; exact h, fun h => ⟨_, h, rfl⟩⟩

end Actions

end HaexVault.FileSync
