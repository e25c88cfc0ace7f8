import HaexVault.Lib.FileCalls
/-!
# Files and their names

A file tree in which two locations may name one file. A file that is made is a new one. What a
call does to the disk is stated for one location (`Kept`): its file stays, gets no second name
and is where a path leads that led there. Directories and files that are made keep every
location (`makeParent_kept`, `touch_kept`), a file that is removed all others (`remove_kept`).
-/

namespace HaexVault.Lib

open FileTree

structure Disk where
  tree : FileTree
  /-- The file at a location. -/
  inode : Loc → Nat
  next : Nat
  old : ∀ loc, tree.node loc = some .file → inode loc < next

namespace Disk

/-- The file at a location. -/
def file (d : Disk) (loc : Loc) : Option Nat := if d.tree.node loc = some .file then some (d.inode loc) else none

/-- A location names a file, and none else does. -/
def OnlyName (d : Disk) (loc : Loc) (f : Nat) : Prop := d.file loc = some f ∧ ∀ loc', d.file loc' = some f → loc' = loc

/-- The disk with another tree, whose files are the same. -/
def withTree (d : Disk) (t : FileTree) (h : ∀ loc, t.node loc = some .file → d.tree.node loc = some .file) : Disk :=
  { d with tree := t, old := fun loc hloc => d.old loc (h loc hloc) }

def empty (maxLinks : Nat) : Disk where
  tree := FileTree.empty maxLinks
  inode _ := 0
  next := 0
  old loc h := by
    simp only [FileTree.empty] at h
    split at h <;> cases h

def symlink (d : Disk) (dir : Loc) (n : String) (target : List Comp) : Disk :=
  d.withTree (d.tree.put dir n (.link false target)) fun loc h => by
    by_cases hloc : loc = dir ++ [n]
    · unfold FileTree.put at h
      split at h
      · simp [hloc] at h
      · exact h
    · rwa [put_node_of_ne hloc] at h

/-- The directory that a path is in is made where it is missing; and whether it is a directory then. -/
def makeParent (d : Disk) (path : List Comp) : Disk × Bool :=
  (d.withTree (d.tree.createParent path).1 fun _ => createParent_file, (d.tree.createParent path).2.2)

/-- A file is made at a location that has none. -/
def touch (d : Disk) (loc : Loc) : Disk :=
  if d.tree.node loc = some .file then d
  else
    { tree := d.tree.withFile loc
      inode := Function.update d.inode loc d.next
      next := d.next + 1
      old := by
        intro loc' hloc'
        by_cases h : loc' = loc
        · rw [h, Function.update_self]
          exact Nat.lt_succ_self _
        · rw [Function.update_of_ne h]
          exact Nat.lt_succ_of_lt (d.old loc' (withFile_node_of_ne h ▸ hloc')) }

/-- A file is opened, and made if only the last name of the path is missing: the disk, and where the file is. -/
def create (d : Disk) (path : List Comp) : Except IoError (Disk × Loc) :=
  match d.tree.createAt path with
  | .error e => .error e
  | .ok loc => .ok (d.touch loc, loc)

/-- A file that is there is opened. -/
def openFile (d : Disk) (path : List Comp) : Except IoError Loc :=
  match d.tree.canonicalize path with
  | .error e => .error e
  | .ok loc => if d.tree.node loc = some .file then .ok loc else .error .isADirectory

/-- `remove_file`. -/
def remove (d : Disk) (path : List Comp) : Disk :=
  match d.tree.entryLoc path with
  | none => d
  | some entry => d.withTree (d.tree.erase entry) fun _ => node_of_erase

/-! ## What a call keeps -/

variable {d d' d'' : Disk} {loc entry : Loc} {f : Nat} {path : List Comp}

theorem file_eq_some : d.file loc = some f ↔ d.tree.node loc = some .file ∧ d.inode loc = f := by
  unfold file
  split
  · next h => simp [h]
  · next h => simp [h]

/-- A location that names a file still does, and what is said of it and the paths that lead there is still so. -/
structure Kept (d d' : Disk) (loc : Loc) : Prop where
  file : ∀ f, d.file loc = some f → d'.file loc = some f
  onlyName : ∀ f, d.OnlyName loc f → d'.OnlyName loc f
  leads : ∀ path, d.tree.node loc = some .file → d.tree.canonicalize path = .ok loc → d'.tree.canonicalize path = .ok loc

theorem Kept.refl (d : Disk) (loc : Loc) : d.Kept d loc := ⟨fun _ h => h, fun _ h => h, fun _ _ h => h⟩

theorem makeParent_file : (d.makeParent path).1.file loc = d.file loc := by
  have hnode : (d.tree.createParent path).1.node loc = some .file ↔ d.tree.node loc = some .file :=
    ⟨createParent_file, createParent_moreDirs.1.node loc _⟩
  simp only [file, makeParent, withTree, hnode]

theorem makeParent_kept (d : Disk) (path : List Comp) (loc : Loc) : d.Kept (d.makeParent path).1 loc where
  file f h := by rwa [makeParent_file]
  onlyName f h := ⟨by rw [makeParent_file, h.1], fun loc' hloc' => h.2 loc' (by rwa [makeParent_file] at hloc')⟩
  leads path' _ h := (createParent_moreDirs : (d.tree.createParent path).1.MoreDirs d.tree).1.canonicalize h

theorem touch_kept (d : Disk) (loc' loc : Loc) : d.Kept (d.touch loc') loc := by
  unfold touch
  split
  · exact .refl d loc
  · next hnew =>
    -- the new file has a number of its own
    have hfile : ∀ l f, d.file l = some f → (d.touch loc').file l = some f := by
      intro l f h
      obtain ⟨hnode, hinode⟩ := file_eq_some.1 h
      rw [touch, if_neg hnew]
      refine file_eq_some.2 ⟨withFile_extends.node _ _ hnode, ?_⟩
      dsimp only
      rw [Function.update_of_ne, hinode]
      rintro rfl
      exact hnew hnode
    rw [touch, if_neg hnew] at hfile
    refine ⟨hfile loc, fun f h => ⟨hfile loc f h.1, fun l hl => ?_⟩, fun path _ h => withFile_extends.canonicalize h⟩
    obtain ⟨hnode, hinode⟩ := file_eq_some.1 hl
    dsimp only at hnode hinode
    by_cases hl' : l = loc'
    · -- not the new file: that one is younger
      exfalso
      rw [hl', Function.update_self] at hinode
      obtain ⟨hold, hf⟩ := file_eq_some.1 h.1
      have := d.old loc hold
      omega
    · rw [Function.update_of_ne hl'] at hinode
      exact h.2 l (file_eq_some.2 ⟨withFile_node_of_ne hl' ▸ hnode, hinode⟩)

theorem create_kept {loc' : Loc} (h : d.create path = .ok (d', loc')) (loc : Loc) : d.Kept d' loc := by
  unfold create at h
  split at h
  · cases h
  · cases h
    exact touch_kept d _ loc

theorem create_ok {loc' : Loc} (h : d.create path = .ok (d', loc')) : d.tree.createAt path = .ok loc' := by
  unfold create at h
  split at h
  · cases h
  · next hcreate =>
    cases h
    exact hcreate

theorem remove_none (h : d.tree.entryLoc path = none) : d.remove path = d := by
  unfold remove
  simp only [h]

/-- All but the file that is removed. -/
theorem remove_kept (hentry : d.tree.entryLoc path = some entry) (hfile : d.tree.node entry = some .file) (hne : loc ≠ entry) :
    d.Kept (d.remove path) loc := by
  have hnode : ∀ l, l ≠ entry → (d.tree.erase entry).node l = d.tree.node l := by
    intro l hl
    rw [erase_node (by rw [hfile]; simp), Function.update_of_ne hl]
  have hrun : d.remove path = d.withTree (d.tree.erase entry) fun _ => node_of_erase := by
    unfold remove
    simp only [hentry]
  rw [hrun]
  have hsame : (d.withTree (d.tree.erase entry) fun _ => node_of_erase).file loc = d.file loc := by
    simp only [file, withTree, hnode loc hne]
  refine ⟨fun f h => hsame.trans h, fun f h => ⟨hsame.trans h.1, fun l hl => h.2 l ?_⟩,
    fun path _ h => canonicalize_erase hfile h hne⟩
  obtain ⟨hl, hinode⟩ := file_eq_some.1 hl
  exact file_eq_some.2 ⟨node_of_erase hl, hinode⟩

/-- A path to a file opens the file it leads to. -/
theorem openFile_ok : d.openFile path = .ok loc ↔ d.tree.canonicalize path = .ok loc ∧ d.tree.node loc = some .file := by
  unfold openFile
  cases h : d.tree.canonicalize path with
  | error e => simp
  | ok l =>
    by_cases hl : d.tree.node l = some .file
    · simp only [hl, if_true, Except.ok.injEq]
      constructor
      · rintro rfl
        exact ⟨rfl, hl⟩
      · exact fun h => h.1
    · simp only [hl, if_false, Except.ok.injEq]
      constructor
      · intro h
        cases h
      · rintro ⟨rfl, hnode⟩
        exact absurd hnode hl

/-! ## Disks without second names -/

def OneName (d : Disk) : Prop := ∀ loc loc' f, d.file loc = some f → d.file loc' = some f → loc' = loc

theorem OneName.onlyName (h : d.OneName) (hloc : d.file loc = some f) : d.OnlyName loc f := ⟨hloc, fun _ => h loc _ f hloc⟩

theorem oneName_empty (maxLinks : Nat) : (empty maxLinks).OneName := by
  intro loc loc' f hloc
  obtain ⟨hnode, -⟩ := file_eq_some.1 hloc
  exact absurd ((empty maxLinks).old loc hnode) (Nat.not_lt_zero _)

/-- A tree without new files. -/
theorem OneName.withTree {t : FileTree} (h : d.OneName) (ht : ∀ loc, t.node loc = some .file → d.tree.node loc = some .file) :
    (d.withTree t ht).OneName := by
  intro loc loc' f hloc hloc'
  obtain ⟨hnode, hinode⟩ := file_eq_some.1 hloc
  obtain ⟨hnode', hinode'⟩ := file_eq_some.1 hloc'
  exact h loc loc' f (file_eq_some.2 ⟨ht loc hnode, hinode⟩) (file_eq_some.2 ⟨ht loc' hnode', hinode'⟩)

theorem OneName.touch (h : d.OneName) (loc : Loc) : (d.touch loc).OneName := by
  by_cases hnew : d.tree.node loc = some .file
  · rwa [Disk.touch, if_pos hnew]
  -- a location that had a file keeps its only name, and the new file has one
  · have hold : ∀ l f, l ≠ loc → (d.touch loc).file l = some f → d.file l = some f := by
      intro l f hl hfile
      obtain ⟨hnode, hinode⟩ := file_eq_some.1 hfile
      rw [Disk.touch, if_neg hnew] at hnode hinode
      dsimp only at hnode hinode
      rw [Function.update_of_ne hl] at hinode
      exact file_eq_some.2 ⟨withFile_node_of_ne hl ▸ hnode, hinode⟩
    intro l l' f hl hl'
    by_cases hloc : l = loc
    · by_cases hloc' : l' = loc
      · rw [hloc, hloc']
      · exact (((touch_kept d loc l').onlyName f (h.onlyName (hold l' f hloc' hl'))).2 l hl).symm
    · exact ((touch_kept d loc l).onlyName f (h.onlyName (hold l f hloc hl))).2 l' hl'

theorem OneName.makeParent (h : d.OneName) (path : List Comp) : (d.makeParent path).1.OneName :=
  h.withTree fun _ => createParent_file

theorem OneName.create (h : d.OneName) {loc' : Loc} (hcreate : d.create path = .ok (d', loc')) : d'.OneName := by
  unfold Disk.create at hcreate
  split at hcreate
  · cases hcreate
  · cases hcreate
    exact h.touch _

theorem OneName.remove (h : d.OneName) (path : List Comp) : (d.remove path).OneName := by
  unfold Disk.remove
  split
  · exact h
  · exact h.withTree fun _ => node_of_erase

end Disk

end HaexVault.Lib
