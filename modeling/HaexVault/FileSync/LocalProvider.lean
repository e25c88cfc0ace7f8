import HaexVault.Lib.FileCalls
import HaexVault.PeerStorage.Handlers
/-!
# The local provider (`file_sync/local_provider.rs`)

`resolvePath` follows the whole path if it is there, else its directory, and compares what it got
with where the base leads. If the directory is missing too it compares the path as it is written
(`contained_iff`, `acceptsInside_iff`). A base is an absolute path.
-/

namespace HaexVault.FileSync

open HaexVault.Lib HaexVault.Lib.FileTree HaexVault.Lib.Steps
open HaexVault.PeerStorage (components rejectPathTraversal checkRelativePath rejectPathTraversal_of_check)

def comps (path : String) : List Comp := (components path).map fun c => if c = ".." then .up else .name c

theorem comps_of_check {path : String} (h : rejectPathTraversal path = .ok ()) :
    comps path = (components path).map .name := by
  obtain ⟨-, -, h⟩ := bind_eq_ok.1 h
  obtain ⟨-, -, h⟩ := bind_eq_ok.1 h
  have hup : ".." ∉ components path := by simpa using h
  refine List.map_congr_left fun c hc => if_neg ?_
  rintro rfl
  exact hup hc

inductive SyncProviderError where
  | pathTraversal (path : String)
  | io (e : IoError)
  deriving DecidableEq

def validateRelativePath (path : String) : Except SyncProviderError Unit :=
  (checkRelativePath path).mapError fun _ => .pathTraversal path

structure LocalProvider where
  basePath : String

namespace LocalProvider

def base (self : LocalProvider) : List Comp := comps self.basePath

def full (self : LocalProvider) (relativePath : String) : List Comp := self.base ++ comps relativePath

def checkPath (t : FileTree) (full : List Comp) : Except IoError (List Comp) :=
  if t.has full then (t.canonicalize full).map (·.map .name)
  else match parent full with
    | some dir =>
      if t.has dir then (t.canonicalize dir).map fun loc => loc.map .name ++ ((fileName full).map .name).toList
      else .ok full
    | none => .ok full

/-- `resolve_path`. -/
def resolvePath (self : LocalProvider) (t : FileTree) (relativePath : String) : Except SyncProviderError (List Comp) := do
  validateRelativePath relativePath
  let checked ← (checkPath t (self.full relativePath)).mapError .io
  let canonicalBase ← (t.canonicalize self.base).mapError .io
  ensure (canonicalBase.map .name <+: checked) (.pathTraversal relativePath)
  .ok (self.full relativePath)

inductive Call where
  | readFile
  | readFileToPath
  | writeFile
  | writeFileFromPath
  | primeHashAfterWrite
  | deleteFile (toTrash : Bool)
  | createDirectory

/-- `write_file` and `write_file_from_path`: the directories that are made, then the file that is opened. -/
def written (t : FileTree) (full : List Comp) : List Loc :=
  match t.createParent full with
  | (t', created, true) => created ++ (t'.createAt full).toOption.toList
  | (_, created, false) => created

/-- `delete_file`: the entry and all below it; neither removing it nor the trash follows a link there. -/
def Deleted (t : FileTree) (full : List Comp) (loc : Loc) : Prop :=
  t.has full = true ∧ ∃ entry, t.entryLoc full = some entry ∧ entry <+: loc ∧ t.node loc ≠ none

def Call.WorksOn (t : FileTree) (full : List Comp) (loc : Loc) : Call → Prop
  | readFile | readFileToPath | primeHashAfterWrite => t.canonicalize full = .ok loc
  | writeFile | writeFileFromPath => loc ∈ written t full
  | deleteFile _ => Deleted t full loc
  | createDirectory => loc ∈ (t.createDirAll full).2.1

/-! ## What a path is compared by -/

section Resolve
variable {t : FileTree} {self : LocalProvider} {relativePath : String} {full : List Comp} {root dir loc : Loc} {n : String}

theorem has_iff : t.has full = true ↔ ∃ loc, t.canonicalize full = .ok loc := by
  cases h : t.canonicalize full with
  | error e | ok loc => simp [has, h, Except.toBool]

theorem checkPath_there (h : t.canonicalize full = .ok loc) : checkPath t full = .ok (loc.map .name) := by
  rw [checkPath, if_pos (has_iff.2 ⟨loc, h⟩), h]
  rfl

theorem checkPath_dir (h : t.has (full ++ [.name n]) = false) (hdir : t.canonicalize full = .ok dir) :
    checkPath t (full ++ [.name n]) = .ok ((dir ++ [n]).map .name) := by
  rw [checkPath, h, parent_concat, fileName_name]
  simp [has_iff.2 ⟨dir, hdir⟩, hdir, Except.map]

theorem checkPath_missing (h : t.has full = false) : checkPath t (full ++ [.name n]) = .ok (full ++ [.name n]) := by
  have hfull : t.has (full ++ [.name n]) = false := by
    by_contra hthere
    obtain ⟨loc, hthere⟩ := has_iff.1 (by simpa using hthere)
    obtain ⟨dir, hdir⟩ := canonicalize_of_append hthere
    rw [has_iff.2 ⟨dir, hdir⟩] at h
    cases h
  simp [checkPath, hfull, h]

theorem resolvePath_ok : self.resolvePath t relativePath = .ok full ↔
    checkRelativePath relativePath = .ok () ∧ full = self.full relativePath ∧
      ∃ checked root, checkPath t full = .ok checked ∧ t.canonicalize self.base = .ok root ∧ root.map .name <+: checked := by
  unfold resolvePath validateRelativePath
  simp only [bind_eq_ok, mapError_eq_ok, ensure_ok, decide_eq_true_eq]
  constructor
  · rintro ⟨⟨⟩, hcheck, checked, hchecked, root, hroot, ⟨⟩, hpre, h⟩
    cases h
    exact ⟨hcheck, rfl, checked, root, hchecked, hroot, hpre⟩
  · rintro ⟨hcheck, rfl, checked, root, hchecked, hroot, hpre⟩
    exact ⟨(), hcheck, checked, hchecked, root, hroot, (), hpre, rfl⟩

end Resolve

/-! ## Inside the base -/

def Contained (self : LocalProvider) (t : FileTree) (relativePath : String) (call : Call) : Prop :=
  ∀ full loc, self.resolvePath t relativePath = .ok full → call.WorksOn t full loc → t.Inside self.base loc

/-- What a call asks of the tree to stay inside: that the first directory it makes is made inside, that a link it opens leads
inside, that a link it removes is inside. -/
def Call.Safe (t : FileTree) (base full : List Comp) : Call → Prop
  | writeFile | writeFileFromPath =>
    (∀ up, parent full = some up → ∀ dir n rest, t.FirstMissing up dir n rest → t.Inside base dir) ∧
      ∀ loc, t.OpensThroughLink full loc → t.Inside base loc
  | deleteFile _ => t.has full = true → ∀ entry absolute target, t.entryLoc full = some entry →
      t.node entry = some (.link absolute target) → t.Inside base entry
  | createDirectory => ∀ dir n rest, t.FirstMissing full dir n rest → t.Inside base dir
  | _ => True

section Contained
variable {t : FileTree} {self : LocalProvider} {relativePath : String} {full : List Comp} {root dir loc : Loc} {n : String}

theorem map_name_iff {a b : Loc} : a.map Comp.name <+: b.map .name ↔ a <+: b :=
  List.prefix_map_iff_of_injective fun _ _ h => Comp.name.inj h

theorem canonicalize_inside (hpath : self.resolvePath t relativePath = .ok full) (hroot : t.canonicalize self.base = .ok root)
    (h : t.canonicalize full = .ok loc) : root <+: loc := by
  obtain ⟨-, -, checked, root', hchecked, hroot', hpre⟩ := resolvePath_ok.1 hpath
  cases Except.ok.inj (hroot.symm.trans hroot')
  rw [checkPath_there h] at hchecked
  cases hchecked
  exact map_name_iff.1 hpre

theorem missing_cases (hcheck : checkRelativePath relativePath = .ok ()) (hroot : t.canonicalize self.base = .ok root)
    (h : t.has (self.full relativePath) = false) :
    ∃ init n, self.full relativePath = init ++ [.name n] ∧ t.Rooted init := by
  have hfull : self.full relativePath = self.base ++ (components relativePath).map .name := by
    rw [full, comps_of_check (rejectPathTraversal_of_check hcheck)]
  rw [hfull] at h ⊢
  rcases List.eq_nil_or_concat (components relativePath) with hnil | ⟨names, n, hnames⟩
  · rw [hnil, List.map_nil, List.append_nil, has_iff.2 ⟨root, hroot⟩] at h
    cases h
  · exact ⟨self.base ++ names.map .name, n, by simp [hnames], _, root, names, rfl, hroot⟩

theorem rooted_full (hcheck : checkRelativePath relativePath = .ok ()) (hroot : t.canonicalize self.base = .ok root) :
    t.Rooted (self.full relativePath) :=
  ⟨_, root, _, by rw [full, comps_of_check (rejectPathTraversal_of_check hcheck)], hroot⟩

theorem written_there (h : t.canonicalize full = .ok loc) {file : Loc} (hfile : file ∈ written t full) : file = loc := by
  rw [written, createParent_there h] at hfile
  cases hopen : t.createAt full with
  | error e => simp [hopen, Except.toOption] at hfile
  | ok opened =>
    simp only [hopen, Except.toOption, List.nil_append, Option.toList_some, List.mem_singleton] at hfile
    rw [hfile, createAt_of_canonicalize h hopen]

theorem written_inside : (∀ loc ∈ written t (full ++ [.name n]), root <+: loc) ↔
    ∀ t' created made, t.createDirAll full = (t', created, made) → (∀ loc ∈ created, root <+: loc) ∧
      (made = true → ∀ loc, t'.createAt (full ++ [.name n]) = .ok loc → root <+: loc) := by
  rcases hcreate : t.createDirAll full with ⟨t', created, made⟩
  simp only [written, createParent, parent_concat, hcreate]
  cases made with
  | false => simp
  | true =>
    cases hopen : t'.createAt (full ++ [.name n]) with
    | error e => simp [hopen, Except.toOption]
    | ok file => simp [hopen, Except.toOption, or_imp, forall_and]

theorem write_contained (hroot : t.canonicalize self.base = .ok root)
    (hpath : self.resolvePath t relativePath = .ok full) : (∀ loc ∈ written t full, root <+: loc) ↔
      (∀ up, parent full = some up → ∀ dir n rest, t.FirstMissing up dir n rest → root <+: dir) ∧
        ∀ loc, t.OpensThroughLink full loc → root <+: loc := by
  have hpresent := (canonicalize_node hroot).present
  cases hhas : t.has full with
  | true =>
    obtain ⟨loc, hthere⟩ := has_iff.1 hhas
    have hinside := canonicalize_inside hpath hroot hthere
    constructor
    · refine fun _ => ⟨fun up hup dir n rest hmiss => ?_, ?_⟩
      · obtain ⟨dir', hdir'⟩ := parent_there hthere hup
        exact absurd hmiss (not_firstMissing hdir')
      · rintro file ⟨-, -, -, -, -, hopen⟩
        rwa [createAt_of_canonicalize hthere hopen]
    · intro _ file hfile
      rwa [written_there hthere hfile]
  | false =>
    obtain ⟨hcheck, rfl, checked, root', hchecked, hroot', hpre⟩ := resolvePath_ok.1 hpath
    cases Except.ok.inj (hroot.symm.trans hroot')
    obtain ⟨init, n, hfull, hinit⟩ := missing_cases hcheck hroot hhas
    rw [hfull] at hhas hchecked ⊢
    have hthere : ∀ dir, t.canonicalize init = .ok dir → root <+: dir ++ [n] := by
      intro dir hdir
      rw [checkPath_dir hhas hdir] at hchecked
      cases hchecked
      exact map_name_iff.1 hpre
    rw [written_inside, open_inside hinit hpresent, createAt_inside hthere]
    simp only [parent_concat, Option.some.injEq, forall_eq']

theorem delete_contained (hroot : t.canonicalize self.base = .ok root)
    (hpath : self.resolvePath t relativePath = .ok full) : (∀ loc, Deleted t full loc → root <+: loc) ↔
      (t.has full = true → ∀ entry absolute target, t.entryLoc full = some entry →
        t.node entry = some (.link absolute target) → root <+: entry) := by
  constructor
  · intro h hhas entry absolute target hentry hlink
    exact h entry ⟨hhas, entry, hentry, List.prefix_rfl, by simp [hlink]⟩
  · rintro h loc ⟨hhas, entry, hentry, hbelow, -⟩
    obtain ⟨leads, hthere⟩ := has_iff.1 hhas
    obtain ⟨entry', hentry', rfl | ⟨absolute, target, hlink⟩⟩ := entryLoc_there hthere
    all_goals cases hentry.symm.trans hentry'
    · exact (canonicalize_inside hpath hroot hthere).trans hbelow
    · exact (h hhas entry absolute target hentry hlink).trans hbelow

/-- A call stays inside the base exactly when the tree is as it asks. -/
theorem contained_iff (call : Call) : self.Contained t relativePath call ↔
    ∀ full, self.resolvePath t relativePath = .ok full → call.Safe t self.base full := by
  unfold Contained
  refine forall_congr' fun full => ?_
  rw [forall_comm]
  by_cases hpath : self.resolvePath t relativePath = .ok full
  · obtain ⟨hcheck, hfull, -, root, -, hroot, -⟩ := resolvePath_ok.1 hpath
    have hrooted := hfull ▸ rooted_full hcheck hroot
    simp only [hpath, true_implies, inside_iff hroot]
    cases call with
    | writeFile | writeFileFromPath =>
      simpa only [Call.WorksOn, Call.Safe, inside_iff hroot] using write_contained hroot hpath
    | deleteFile toTrash => simpa only [Call.WorksOn, Call.Safe, inside_iff hroot] using delete_contained hroot hpath
    | createDirectory =>
      simpa only [Call.WorksOn, Call.Safe, inside_iff hroot] using
        createDirAll_inside hrooted (canonicalize_node hroot).present
    | readFile | readFileToPath | primeHashAfterWrite =>
      simp only [Call.WorksOn, Call.Safe, iff_true]
      exact fun loc hloc => canonicalize_inside hpath hroot hloc
  · simp [hpath]

end Contained

/-! ## What is accepted -/

/-- The location a path names: where it leads, where a file that is opened there is, or where it would be once the entries
it misses are made. -/
def Located (t : FileTree) (full : List Comp) (loc : Loc) : Prop :=
  t.canonicalize full = .ok loc ∨ t.createAt full = .ok loc ∨
    ∃ dir n rest, t.FirstMissing full dir n rest ∧ loc = dir ++ n :: rest

def Accepts (self : LocalProvider) (t : FileTree) (relativePath : String) : Prop :=
  ∃ full, self.resolvePath t relativePath = .ok full

def AcceptsInside (self : LocalProvider) (t : FileTree) (relativePath : String) : Prop :=
  checkRelativePath relativePath = .ok () → ∀ loc, Located t (self.full relativePath) loc →
    t.Inside self.base loc → self.Accepts t relativePath

/-- What the base and the links of a tree have to be for the paths inside to be accepted: where the directory is missing, the
path as it is written goes on from where the base leads; a link that leads inside, to nothing yet, is inside. -/
def Straight (self : LocalProvider) (t : FileTree) (full : List Comp) : Prop :=
  (∀ up, parent full = some up → ∀ dir n rest, t.FirstMissing up dir n rest → t.Inside self.base dir →
    ∃ root, t.canonicalize self.base = .ok root ∧ root.map .name <+: full) ∧
  ∀ loc, t.has full = false → t.OpensThroughLink full loc → t.Inside self.base loc →
    ∃ entry, t.entryLoc full = some entry ∧ t.Inside self.base entry

section Accepts
variable {t : FileTree} {self : LocalProvider} {relativePath : String} {full : List Comp} {root dir loc : Loc} {n : String}

theorem accepts_of (hcheck : checkRelativePath relativePath = .ok ()) (hroot : t.canonicalize self.base = .ok root)
    {checked : List Comp} (hchecked : checkPath t (self.full relativePath) = .ok checked) :
    self.Accepts t relativePath ↔ root.map .name <+: checked := by
  constructor
  · rintro ⟨full, hpath⟩
    obtain ⟨-, rfl, checked', root', hchecked', hroot', hpre⟩ := resolvePath_ok.1 hpath
    cases Except.ok.inj (hroot.symm.trans hroot')
    cases hchecked.symm.trans hchecked'
    exact hpre
  · exact fun hpre => ⟨_, resolvePath_ok.2 ⟨hcheck, rfl, checked, root, hchecked, hroot, hpre⟩⟩

theorem located_there (h : t.canonicalize full = .ok dir) (hloc : Located t full loc) : loc = dir := by
  rcases hloc with hloc | hloc | ⟨dir', n, rest, hmiss, rfl⟩
  · exact Except.ok.inj (hloc.symm.trans h)
  · exact createAt_of_canonicalize h hloc
  · exact absurd hmiss (not_firstMissing h)

theorem located_dir (h : t.has (full ++ [.name n]) = false) (hdir : t.canonicalize full = .ok dir)
    (hloc : Located t (full ++ [.name n]) loc) : loc = dir ++ [n] ∨ t.OpensThroughLink (full ++ [.name n]) loc := by
  rcases hloc with hloc | hloc | ⟨dir', m, rest, hmiss, rfl⟩
  · rw [has_iff.2 ⟨loc, hloc⟩] at h
    cases h
  · by_cases hlink : ∃ absolute target, t.node (dir ++ [n]) = some (.link absolute target)
    · obtain ⟨absolute, target, hlink⟩ := hlink
      refine .inr ⟨dir ++ [n], absolute, target, ?_, hlink, hloc⟩
      rw [entryLoc_name, hdir]
      rfl
    · exact .inl (createAt_entry hdir (fun absolute target h => hlink ⟨absolute, target, h⟩) hloc)
  · rcases hmiss.concat_cases with ⟨rfl, rfl, hdir'⟩ | ⟨rest', -, hmiss'⟩
    · rw [Except.ok.inj (hdir'.symm.trans hdir)]
      exact .inl rfl
    · exact absurd hmiss' (not_firstMissing hdir)

theorem located_missing (h : t.has full = false) (hloc : Located t (full ++ [.name n]) loc) :
    ∃ dir m rest, t.FirstMissing full dir m rest ∧ loc = dir ++ m :: (rest ++ [n]) := by
  have hnone : ∀ {dir}, t.canonicalize full ≠ .ok dir := by
    intro dir hdir
    rw [has_iff.2 ⟨dir, hdir⟩] at h
    cases h
  rcases hloc with hloc | hloc | ⟨dir, m, rest, hmiss, rfl⟩
  · obtain ⟨dir, hdir⟩ := canonicalize_of_append hloc
    exact absurd hdir hnone
  · obtain ⟨dir, hdir, -⟩ := createAt_name hloc
    exact absurd hdir hnone
  · rcases hmiss.concat_cases with ⟨-, -, hdir⟩ | ⟨rest, rfl, hmiss'⟩
    · exact absurd hdir hnone
    · exact ⟨dir, m, rest, hmiss', rfl⟩

/-- The paths whose locations are inside are accepted exactly where the base and the links are straight. -/
theorem acceptsInside_iff : self.AcceptsInside t relativePath ↔
    (checkRelativePath relativePath = .ok () → self.Straight t (self.full relativePath)) := by
  refine forall_congr' fun hcheck => ?_
  by_cases hroot : ∃ root, t.canonicalize self.base = .ok root
  · obtain ⟨root, hroot⟩ := hroot
    have hpresent := (canonicalize_node hroot).present
    simp only [Straight, inside_iff hroot]
    cases hhas : t.has (self.full relativePath) with
    | true =>
      obtain ⟨leads, hthere⟩ := has_iff.1 hhas
      constructor
      · intro _
        refine ⟨fun up hup dir n rest hmiss => ?_, fun loc h => by cases h⟩
        obtain ⟨up', hup'⟩ := parent_there hthere hup
        exact absurd hmiss (not_firstMissing hup')
      · intro _ loc hloc hinside
        rw [located_there hthere hloc] at hinside
        exact (accepts_of hcheck hroot (checkPath_there hthere)).2 (map_name_iff.2 hinside)
    | false =>
      obtain ⟨init, n, hfull, -⟩ := missing_cases hcheck hroot hhas
      rw [hfull] at hhas ⊢
      cases hinit : t.has init with
      | true =>
        obtain ⟨dir, hdir⟩ := has_iff.1 hinit
        have haccepts := (accepts_of hcheck hroot (hfull ▸ checkPath_dir hhas hdir)).trans map_name_iff
        have hentry : t.entryLoc (init ++ [.name n]) = some (dir ++ [n]) := by
          rw [entryLoc_name, hdir]
          rfl
        simp only [parent_concat, Option.some.injEq, forall_eq', hentry, exists_eq_left', haccepts]
        constructor
        · refine fun h => ⟨?_, ?_⟩
          · intro dir' m rest hmiss
            exact absurd hmiss (not_firstMissing hdir)
          · rintro loc - ⟨-, -, -, -, -, hopen⟩
            exact h loc (.inr (.inl hopen))
        · rintro ⟨-, h⟩ loc hloc hinside
          rcases located_dir hhas hdir hloc with rfl | hlink
          · exact hinside
          · exact h loc trivial hlink hinside
      | false =>
        have hchecked := checkPath_missing (n := n) hinit
        rw [← hfull] at hchecked
        have haccepts := accepts_of hcheck hroot hchecked
        simp only [parent_concat, Option.some.injEq, forall_eq', haccepts, hfull]
        constructor
        · refine fun h => ⟨?_, ?_⟩
          · intro dir m rest hmiss hinside
            refine ⟨root, hroot, h _ (.inr (.inr ⟨dir, m, rest ++ [n], hmiss.append [n], rfl⟩)) ?_⟩
            exact (hmiss.above hpresent _).2 hinside
          · rintro loc - ⟨-, -, -, -, -, hopen⟩ -
            obtain ⟨dir, hdir, -⟩ := createAt_name hopen
            rw [has_iff.2 ⟨dir, hdir⟩] at hinit
            cases hinit
        · rintro ⟨h, -⟩ loc hloc hinside
          obtain ⟨dir, m, rest, hmiss, rfl⟩ := located_missing hinit hloc
          obtain ⟨root', hroot', hpre⟩ := h dir m rest hmiss ((hmiss.above hpresent _).1 hinside)
          cases Except.ok.inj (hroot.symm.trans hroot')
          exact hpre
  · have hnone : ∀ loc, ¬ t.Inside self.base loc := fun loc ⟨root, h, _⟩ => hroot ⟨root, h⟩
    simp [Straight, hnone]

end Accepts

end LocalProvider

end HaexVault.FileSync
