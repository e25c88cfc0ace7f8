import HaexVault.Lib.Disk
/-!
# Files with their bytes

What is at a location of a disk, the bytes of a file included (`entry`), and what the calls do to it
that stage a file beside another one: what is written to a new file is seen there alone
(`entry_writeNew`), and a rename moves it over what is no directory (`rename_cases`).
-/

namespace HaexVault.Lib

namespace FileTree

/-- An entry that is no directory, moved over one that is none. -/
def move (t : FileTree) (src dst : Loc) (hsrc : t.node src ≠ some .dir) (hdst : t.node dst ≠ some .dir)
    (hdir : t.node dst.dropLast = some .dir) : FileTree :=
  { t with
    node := Function.update (Function.update t.node src none) dst (t.node src)
    root := by
      rw [Function.update_of_ne, Function.update_of_ne, t.root]
      · rintro rfl
        exact hsrc t.root
      · rintro rfl
        exact hdst t.root
    parents := by
      intro loc n x hx
      have hloc : t.node loc = some .dir := by
        by_cases hn : loc ++ [n] = dst
        · rwa [← hn, List.dropLast_concat] at hdir
        · rw [Function.update_of_ne hn] at hx
          by_cases hn' : loc ++ [n] = src
          · rw [hn', Function.update_self] at hx
            cases hx
          · rw [Function.update_of_ne hn'] at hx
            exact t.parents loc n x hx
      rw [Function.update_of_ne, Function.update_of_ne, hloc]
      · rintro rfl
        exact hsrc hloc
      · rintro rfl
        exact hdst hloc }

end FileTree

open FileTree

namespace Disk

/-- An entry is moved, with its file. -/
def move (d : Disk) (src dst : Loc) (hsrc : d.tree.node src ≠ some .dir) (hdst : d.tree.node dst ≠ some .dir)
    (hdir : d.tree.node dst.dropLast = some .dir) : Disk where
  tree := d.tree.move src dst hsrc hdst hdir
  inode := Function.update d.inode dst (d.inode src)
  next := d.next
  old := by
    intro loc hloc
    simp only [FileTree.move] at hloc
    by_cases hdst : loc = dst
    · rw [hdst, Function.update_self] at hloc ⊢
      exact d.old src hloc
    · rw [Function.update_of_ne hdst] at hloc ⊢
      by_cases hsrc : loc = src
      · rw [hsrc, Function.update_self] at hloc
        cases hloc
      · rw [Function.update_of_ne hsrc] at hloc
        exact d.old loc hloc

/-- `rename` of an entry that is no directory. -/
def rename (d : Disk) (source target : List Comp) : Except IoError Disk :=
  match d.tree.entryLoc source, d.tree.entryLoc target with
  | some src, some dst =>
    if d.tree.node src = none then .error .notFound
    else if h : d.tree.node src ≠ some .dir ∧ d.tree.node dst ≠ some .dir then
      if hdir : d.tree.node dst.dropLast = some .dir then
        if (d.file src).isSome ∧ d.file src = d.file dst then .ok d else .ok (d.move src dst h.1 h.2 hdir)
      else .error .notADirectory
    else .error .isADirectory
  | _, _ => .error .notFound

end Disk

/-- What is at a location. -/
inductive Entry where
  | dir
  | link (absolute : Bool) (target : List Comp)
  | file (bytes : List UInt8)
  deriving DecidableEq

structure Volume where
  disk : Disk
  /-- The bytes of each file. -/
  content : Nat → List UInt8

namespace Volume

abbrev tree (v : Volume) : FileTree := v.disk.tree

def entry (v : Volume) (loc : Loc) : Option Entry :=
  match v.tree.node loc with
  | none => none
  | some .dir => some .dir
  | some (.link absolute target) => some (.link absolute target)
  | some .file => some (.file (v.content (v.disk.inode loc)))

def makeParent (v : Volume) (path : List Comp) : Volume × Bool :=
  ({ v with disk := (v.disk.makeParent path).1 }, (v.disk.makeParent path).2)

/-- `File::create`: a file that was there is truncated. -/
def create (v : Volume) (path : List Comp) : Except IoError (Volume × Loc) :=
  match v.disk.create path with
  | .error e => .error e
  | .ok (disk, loc) => .ok (⟨disk, Function.update v.content (disk.inode loc) []⟩, loc)

/-- The bytes written to a file that was truncated. -/
def write (v : Volume) (loc : Loc) (bytes : List UInt8) : Volume :=
  { v with content := Function.update v.content (v.disk.inode loc) bytes }

def remove (v : Volume) (path : List Comp) : Volume := { v with disk := v.disk.remove path }

def rename (v : Volume) (source target : List Comp) : Except IoError Volume :=
  match v.disk.rename source target with
  | .error e => .error e
  | .ok disk => .ok { v with disk }

/-- Nothing changed at a location, but that a directory may have been made. -/
def Same (v v' : Volume) (loc : Loc) : Prop := v'.entry loc = v.entry loc ∨ v.entry loc = none ∧ v'.entry loc = some .dir

section
variable {v v' : Volume} {loc file : Loc} {path : List Comp} {n : String} {bytes : List UInt8}

theorem entry_of_node {w : Volume} (hnode : w.tree.node loc = v.tree.node loc)
    (hbytes : v.tree.node loc = some .file → w.content (w.disk.inode loc) = v.content (v.disk.inode loc)) :
    w.entry loc = v.entry loc := by
  unfold entry
  rw [hnode]
  split
  · rfl
  · rfl
  · rfl
  · rw [hbytes ‹_›]

theorem entry_eq_none : v.entry loc = none ↔ v.tree.node loc = none := by
  unfold entry
  split <;> simp_all

theorem entry_eq_dir : v.entry loc = some .dir ↔ v.tree.node loc = some .dir := by
  unfold entry
  split <;> simp_all

theorem entry_file (h : v.tree.node loc = some .file) : v.entry loc = some (.file (v.content (v.disk.inode loc))) := by
  simp only [entry, h]

theorem same_makeParent (v : Volume) (path : List Comp) (loc : Loc) : v.Same (v.makeParent path).1 loc := by
  have hmore : (v.tree.createParent path).1.MoreDirs v.tree := createParent_moreDirs
  by_cases hnode : (v.tree.createParent path).1.node loc = v.tree.node loc
  · exact .inl (entry_of_node hnode fun _ => rfl)
  · right
    cases hn : v.tree.node loc with
    | some x => exact absurd (hmore.1.node loc x hn) (by rwa [hn] at hnode)
    | none =>
      rw [hn] at hnode
      obtain ⟨x, hx⟩ := Option.ne_none_iff_exists'.1 hnode
      rcases hmore.2 loc x hx with h | rfl
      · rw [hn] at h
        cases h
      · exact ⟨entry_eq_none.2 hn, entry_eq_dir.2 hx⟩

theorem create_opens (h : v.create path = .ok (v', file)) : v.tree.createAt path = .ok file := by
  unfold create at h
  split at h
  · cases h
  · next hcreate =>
    cases h
    exact Disk.create_ok hcreate

theorem exists_create (h : v.tree.createAt path = .ok file) : ∃ v', v.create path = .ok (v', file) := by
  refine ⟨⟨v.disk.touch file, Function.update v.content ((v.disk.touch file).inode file) []⟩, ?_⟩
  rw [create, Disk.create, show v.disk.tree.createAt path = .ok file from h]

/-- Opening a file keeps what is there, but for the bytes of the file it opens. -/
theorem create_extends (h : v.create path = .ok (v', file)) : v'.tree.Extends v.tree := by
  unfold create at h
  cases hcreate : v.disk.create path with
  | error e =>
    rw [hcreate] at h
    cases h
  | ok made =>
    obtain ⟨disk, loc⟩ := made
    rw [hcreate] at h
    cases h
    unfold Disk.create at hcreate
    split at hcreate
    · cases hcreate
    · cases hcreate
      show (v.disk.touch _).tree.Extends v.disk.tree
      unfold Disk.touch
      split
      · exact .refl _
      · exact withFile_extends

/-- A file that is there is opened as it is, and truncated. -/
theorem create_there (h : v.create path = .ok (v', file)) (hfile : v.tree.node file = some .file) (bytes : List UInt8) :
    v'.write file bytes = { v with content := Function.update v.content (v.disk.inode file) bytes } := by
  have hopen : v.disk.tree.createAt path = .ok file := create_opens h
  have hdisk : v.disk.create path = .ok (v.disk, file) := by
    rw [Disk.create, hopen]
    show Except.ok (v.disk.touch file, file) = _
    rw [Disk.touch, if_pos hfile]
  rw [create, hdisk] at h
  cases h
  rw [write, Function.update_idem]

/-- A file that is made under a free name shows its bytes there and nowhere else. -/
theorem create_new {init : List Comp} {dir : Loc} (hinit : v.tree.canonicalize init = .ok dir)
    (hnew : v.tree.node (dir ++ [n]) = none) (h : v.create (init ++ [.name n]) = .ok (v', file)) :
    file = dir ++ [n] ∧ v'.tree = v.tree.put dir n .file ∧
      (∀ loc f, v'.disk.file file = some f → v'.disk.file loc = some f → loc = file) ∧
      ∀ bytes, (v'.write file bytes).entry = Function.update v.entry file (some (.file bytes)) := by
  unfold create at h
  cases hcreate : v.disk.create (init ++ [.name n]) with
  | error e =>
    rw [hcreate] at h
    cases h
  | ok made =>
    obtain ⟨disk, loc⟩ := made
    rw [hcreate] at h
    cases h
    have hopen : v.tree.createAt (init ++ [.name n]) = .ok file := Disk.create_ok hcreate
    obtain ⟨dir', hdir', hisDir⟩ := createAt_name hopen
    obtain rfl := Except.ok.inj (hinit.symm.trans hdir')
    obtain rfl := createAt_entry hinit (by rw [hnew]; simp) hopen
    have hdisk : disk = v.disk.touch (dir ++ [n]) := by
      rw [Disk.create, hopen] at hcreate
      exact (Prod.mk.inj (Except.ok.inj hcreate)).1.symm
    have hfresh : v.disk.tree.node (dir ++ [n]) ≠ some .file := by
      rw [hnew]
      simp
    have hput : disk.tree = v.tree.put dir n .file := by
      rw [hdisk, Disk.touch, if_neg hfresh]
      show v.tree.withFile (dir ++ [n]) = _
      simp [withFile]
    have hinode : disk.inode = Function.update v.disk.inode (dir ++ [n]) v.disk.next := by
      rw [hdisk, Disk.touch, if_neg hfresh]
    have hnode : disk.tree.node = Function.update v.tree.node (dir ++ [n]) (some .file) := by
      rw [hput, put_node hisDir hnew]
    refine ⟨rfl, hput, fun loc f hfile hloc => ?_, fun bytes => funext fun loc => ?_⟩
    · obtain ⟨-, hf⟩ := Disk.file_eq_some.1 hfile
      obtain ⟨hloc, hf'⟩ := Disk.file_eq_some.1 hloc
      by_contra hne
      rw [hinode, Function.update_self] at hf
      rw [hinode, Function.update_of_ne hne] at hf'
      rw [hnode, Function.update_of_ne hne] at hloc
      have hold := v.disk.old loc hloc
      omega
    by_cases hloc : loc = dir ++ [n]
    · rw [hloc, Function.update_self, entry_file (by simp [write, tree, hnode])]
      simp [write, hinode]
    · rw [Function.update_of_ne hloc]
      refine entry_of_node (by simp [write, tree, hnode, hloc]) fun hfile => ?_
      -- the new file has a number of its own
      have hold := v.disk.old loc hfile
      simp only [write, hinode, Function.update_of_ne hloc, Function.update_self]
      rw [Function.update_of_ne (by omega), Function.update_of_ne (by omega)]

theorem remove_entry (hloc : v.tree.entryLoc path = some loc) (h : v.tree.node loc ≠ some .dir) :
    (v.remove path).entry = Function.update v.entry loc none := by
  have hnode : (v.remove path).tree.node = Function.update v.tree.node loc none := by
    have hdisk : (v.disk.remove path).tree = v.disk.tree.erase loc := by
      rw [Disk.remove, hloc]
      rfl
    rw [← erase_node h]
    exact congrArg FileTree.node hdisk
  have hinode : (v.disk.remove path).inode = v.disk.inode := by
    unfold Disk.remove
    split <;> rfl
  funext l
  by_cases hl : l = loc
  · rw [hl, Function.update_self, entry_eq_none, hnode, Function.update_self]
  · rw [Function.update_of_ne hl]
    refine entry_of_node (by rw [hnode, Function.update_of_ne hl]) fun _ => ?_
    rw [remove, hinode]

/-- A rename that succeeds moves the entry, or finds that both names are those of one file. -/
theorem rename_ok {source target : List Comp} (h : v.rename source target = .ok v') :
    ∃ src dst, v.tree.entryLoc source = some src ∧ v.tree.entryLoc target = some dst ∧
      ((v' = v ∧ ∃ f, v.disk.file src = some f ∧ v.disk.file dst = some f) ∨
        v'.entry = Function.update (Function.update v.entry src none) dst (v.entry src)) := by
  unfold rename Disk.rename at h
  cases hsrc : v.tree.entryLoc source with
  | none => simp [hsrc] at h
  | some src => cases hdst : v.tree.entryLoc target with
    | none => simp [hsrc, hdst] at h
    | some dst =>
      rw [hsrc, hdst] at h
      refine ⟨src, dst, rfl, rfl, ?_⟩
      dsimp only at h
      split_ifs at h with hnone hdirs hdir hsame
      · cases h
        obtain ⟨f, hf⟩ := Option.isSome_iff_exists.1 hsame.1
        exact .inl ⟨rfl, f, hf, hsame.2 ▸ hf⟩
      · cases h
        right
        funext loc
        by_cases hloc : loc = dst
        · rw [hloc, Function.update_self]
          simp [entry, tree, Disk.move, FileTree.move]
        · rw [Function.update_of_ne hloc]
          by_cases hloc' : loc = src
          · rw [hloc', Function.update_self, entry_eq_none]
            simp [tree, Disk.move, FileTree.move, hloc' ▸ hloc]
          · rw [Function.update_of_ne hloc']
            refine entry_of_node ?_ fun _ => ?_
            all_goals simp [tree, Disk.move, FileTree.move, hloc, hloc']

/-- A rename between two names of one file. -/
theorem rename_same {source target : List Comp} {src dst : Loc} {f : Nat} (hsrc : v.tree.entryLoc source = some src)
    (hdst : v.tree.entryLoc target = some dst) (hfile : v.disk.file src = some f) (hfile' : v.disk.file dst = some f) :
    v.rename source target = .ok v := by
  obtain ⟨hnode, -⟩ := Disk.file_eq_some.1 hfile
  obtain ⟨hnode', -⟩ := Disk.file_eq_some.1 hfile'
  have hdir : v.tree.node dst.dropLast = some .dir := by
    rcases List.eq_nil_or_concat dst with rfl | ⟨dir, m, rfl⟩
    · rw [v.tree.root] at hnode'
      cases hnode'
    · rw [List.concat_eq_append] at hnode' ⊢
      rw [List.dropLast_concat]
      exact v.tree.parents _ _ _ hnode'
  unfold rename Disk.rename
  rw [hsrc, hdst]
  dsimp only
  rw [if_neg (by rw [hnode]; simp), dif_pos ⟨by rw [hnode]; simp, by rw [hnode']; simp⟩, dif_pos hdir,
    if_pos ⟨by rw [hfile]; rfl, hfile.trans hfile'.symm⟩]

end

end Volume

end HaexVault.Lib
