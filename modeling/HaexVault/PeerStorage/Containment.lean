import HaexVault.FileSync.LocalProvider
import HaexVault.PeerStorage.Streams
/-!
# Containment in a share (`peer_storage/helpers.rs`, `handlers.rs`)

A path that has to be there is followed whole and compared with where the share leads, but the scan
for a manifest hashes the files that links below it lead to. For a write only the directory of the
path is compared, if it is there (`Request.contained_iff`).
-/

namespace HaexVault.PeerStorage

open HaexVault.Lib HaexVault.Lib.FileTree HaexVault.Lib.Steps
open HaexVault.FileSync (comps comps_of_check LocalProvider)

/-! ## The paths of requests -/

section Resolve
variable (t : FileTree) (shares : Shares) (allowedSpaces : List String) (path : String)

/-- `resolve_path_filtered`. -/
def resolvePathFiltered : Except String (List Comp) := do
  let (share, sub) ← resolvePath rejectPathTraversal shares allowedSpaces path
  let canonical ← (t.canonicalize (comps share.localPath ++ comps sub)).mapError fun _ => "Path not found"
  let shareCanonical ← (t.canonicalize (comps share.localPath)).mapError fun _ => "Share path invalid"
  ensure (shareCanonical <+: canonical) "Access denied: path outside share"
  .ok (canonical.map .name)

def checkParent (shareCanonical : Loc) (dir : List Comp) : Except String Unit :=
  if t.has dir then do
    let parentCanonical ← (t.canonicalize dir).mapError fun _ => "Parent path invalid"
    ensure (shareCanonical <+: parentCanonical) "Access denied: path outside share"
  else .ok ()

/-- `resolve_path_for_write`. -/
def resolvePathForWrite : Except String (List Comp) := do
  let (share, sub) ← resolvePath checkRelativePath shares allowedSpaces path
  let fullPath := comps share.localPath ++ comps sub
  let shareCanonical ← (t.canonicalize (comps share.localPath)).mapError fun _ => "Share path invalid"
  checkParent t shareCanonical ((parent fullPath).getD fullPath)
  .ok fullPath

/-- The local path a handler works on. -/
def Request.resolve : Request → Except String (List Comp)
  | .write path .. | .createDirectory path _ => resolvePathForWrite t shares allowedSpaces path
  | .list path _ | .stat path _ | .read path .. | .manifest path _ | .delete path .. =>
    resolvePathFiltered t shares allowedSpaces path

end Resolve

/-! ## What handlers work on -/

/-- `handle_list`: the directory and its entries, which are not followed. -/
def Listed (t : FileTree) (localPath : List Comp) (loc : Loc) : Prop :=
  ∃ dir, t.canonicalize localPath = .ok dir ∧ t.node dir = some .dir ∧
    (loc = dir ∨ ∃ n, loc = dir ++ [n] ∧ t.node loc ≠ none)

/-- `scan_directory_recursive`: the entries of a directory, which are not followed, and what is hashed for them. A hash opens
what is no directory itself, unless the hash is cached. -/
inductive Scans (t : FileTree) : Loc → Loc → Prop
  | entry {dir : Loc} {n : String} (h : t.node (dir ++ [n]) ≠ none) : Scans t dir (dir ++ [n])
  | hashed {dir loc : Loc} {n : String} {x : Node} (hentry : t.node (dir ++ [n]) = some x) (hx : x ≠ .dir)
      (h : t.canonicalize ((dir ++ [n]).map .name) = .ok loc) (hfile : t.node loc = some .file) : Scans t dir loc
  | within {dir loc : Loc} {n : String} (hentry : t.node (dir ++ [n]) = some .dir) (h : Scans t (dir ++ [n]) loc) :
      Scans t dir loc

def tempPath (localPath : List Comp) : List Comp := withFileName localPath ((fileName localPath).getD "" ++ ".part")

/-- `handle_write`: the directories it makes, the file it stages the bytes in, and the entries it renames when all of them
were received, or removes. -/
def staged (t : FileTree) (localPath : List Comp) (received : Bool) : List Loc :=
  match t.createParent localPath with
  | (_, created, false) => created
  | (t', created, true) => match t'.createAt (tempPath localPath) with
    | .error _ => created
    | .ok file =>
      let entries := if received then [tempPath localPath, localPath] else [tempPath localPath]
      created ++ file :: entries.filterMap (t'.withFile file).entryLoc

/-- What a handler works on. -/
def Request.WorksOn (t : FileTree) (localPath : List Comp) (loc : Loc) : Request → Prop
  | .list .. => Listed t localPath loc
  | .stat .. => t.canonicalize localPath = .ok loc
  | .read .. => t.canonicalize localPath = .ok loc ∧ t.node loc = some .file
  | .manifest .. => ∃ dir, t.canonicalize localPath = .ok dir ∧ t.node dir = some .dir ∧ Scans t dir loc
  | .write .. => ∃ received, loc ∈ staged t localPath received
  | .delete .. => LocalProvider.Deleted t localPath loc
  | .createDirectory .. => loc ∈ (t.createDirAll localPath).2.1

def Request.Contained (t : FileTree) (shares : Shares) (allowedSpaces : List String) (req : Request) : Prop :=
  ∀ share sub localPath loc, dispatch shares allowedSpaces req = .ok (.inFolder share sub) →
    req.resolve t shares allowedSpaces = .ok localPath → req.WorksOn t localPath loc → t.Inside (comps share.localPath) loc

/-- What a request asks of the tree to stay inside: that the first directory it makes is made inside, and that a link it
opens leads inside. -/
def Request.Safe (t : FileTree) (folder localPath : List Comp) : Request → Prop
  | .manifest .. => ∀ dir entry absolute target loc, t.canonicalize localPath = .ok dir → dir <+: entry →
      t.node entry = some (.link absolute target) → t.canonicalize (entry.map .name) = .ok loc → t.node loc = some .file →
      t.Inside folder loc
  | .write .. =>
    (∀ up, parent localPath = some up → ∀ dir n rest, t.FirstMissing up dir n rest → t.Inside folder dir) ∧
      ∀ loc, t.OpensThroughLink (tempPath localPath) loc → t.Inside folder loc
  | .createDirectory .. => ∀ dir n rest, t.FirstMissing localPath dir n rest → t.Inside folder dir
  | _ => True

/-! ## Inside the share -/

section Contained
variable {t : FileTree} {shares : Shares} {allowedSpaces : List String} {path sub : String} {share : SharedFolder}
  {localPath : List Comp} {root dir loc : Loc}

theorem resolvePathFiltered_ok (hfind : findShareAndSubpath shares allowedSpaces path = .ok (share, sub)) :
    resolvePathFiltered t shares allowedSpaces path = .ok localPath ↔ rejectPathTraversal sub = .ok () ∧ ∃ loc root,
      t.canonicalize (comps share.localPath ++ comps sub) = .ok loc ∧ t.canonicalize (comps share.localPath) = .ok root ∧
      root <+: loc ∧ localPath = loc.map .name := by
  unfold resolvePathFiltered
  simp only [bind_eq_ok, Prod.exists, Serving.resolvePath_ok, mapError_eq_ok, ensure_ok, decide_eq_true_eq]
  constructor
  · rintro ⟨share', sub', ⟨hfind', hcheck⟩, loc, hloc, root, hroot, ⟨⟩, hpre, h⟩
    cases hfind.symm.trans hfind'
    cases h
    exact ⟨hcheck, loc, root, hloc, hroot, hpre, rfl⟩
  · rintro ⟨hcheck, loc, root, hloc, hroot, hpre, rfl⟩
    exact ⟨share, sub, ⟨hfind, hcheck⟩, loc, hloc, root, hroot, (), hpre, rfl⟩

theorem checkParent_ok {dirPath : List Comp} : checkParent t root dirPath = .ok () ↔
    ∀ dir, t.canonicalize dirPath = .ok dir → root <+: dir := by
  unfold checkParent
  cases hdir : t.canonicalize dirPath with
  | error e => simp [has, hdir, Except.toBool]
  | ok dir =>
    rw [if_pos (LocalProvider.has_iff.2 ⟨dir, hdir⟩)]
    simp [bind_eq_ok, Except.mapError]

theorem resolvePathForWrite_ok (hfind : findShareAndSubpath shares allowedSpaces path = .ok (share, sub)) :
    resolvePathForWrite t shares allowedSpaces path = .ok localPath ↔ checkRelativePath sub = .ok () ∧
      localPath = comps share.localPath ++ comps sub ∧ ∃ root, t.canonicalize (comps share.localPath) = .ok root ∧
      ∀ dir, t.canonicalize ((parent localPath).getD localPath) = .ok dir → root <+: dir := by
  unfold resolvePathForWrite
  simp only [bind_eq_ok, Prod.exists, Serving.resolvePath_ok, mapError_eq_ok]
  constructor
  · rintro ⟨share', sub', ⟨hfind', hcheck⟩, root, hroot, ⟨⟩, hdir, h⟩
    cases hfind.symm.trans hfind'
    cases h
    exact ⟨hcheck, rfl, root, hroot, checkParent_ok.1 hdir⟩
  · rintro ⟨hcheck, rfl, root, hroot, hdir⟩
    exact ⟨share, sub, ⟨hfind, hcheck⟩, root, hroot, (), checkParent_ok.2 hdir, rfl⟩

/-! ### Scans -/

theorem Scans.cases_link (h : Scans t dir loc) : dir <+: loc ∨ ∃ entry absolute target, dir <+: entry ∧
    t.node entry = some (.link absolute target) ∧ t.canonicalize (entry.map .name) = .ok loc ∧ t.node loc = some .file := by
  induction h with
  | entry _ => exact .inl (List.prefix_append ..)
  | @hashed dir loc n x hentry hx h hfile =>
    cases x with
    | dir => exact absurd rfl hx
    | file =>
      rw [canonicalize_loc (.inr hentry)] at h
      cases h
      exact .inl (List.prefix_append ..)
    | link absolute target => exact .inr ⟨dir ++ [n], absolute, target, List.prefix_append .., hentry, h, hfile⟩
  | within _ _ ih =>
    rcases ih with hpre | ⟨entry, absolute, target, hpre, h⟩
    · exact .inl ((List.prefix_append ..).trans hpre)
    · exact .inr ⟨entry, absolute, target, (List.prefix_append ..).trans hpre, h⟩

theorem scans_link {entry : Loc} {absolute : Bool} {target : List Comp} (hdir : t.node dir = some .dir)
    (hpre : dir <+: entry) (hlink : t.node entry = some (.link absolute target)) (h : t.canonicalize (entry.map .name) = .ok loc)
    (hfile : t.node loc = some .file) : Scans t dir loc := by
  obtain ⟨names, rfl⟩ := hpre
  induction names generalizing dir with
  | nil =>
    rw [List.append_nil, hdir] at hlink
    cases hlink
  | cons n names ih =>
    cases names with
    | nil => exact .hashed hlink (by simp) h hfile
    | cons m names =>
      rw [List.append_cons] at hlink h
      have hentry := node_above hlink (by simp)
      exact .within hentry (ih hentry hlink h)

/-! ### Writes -/

theorem entries_inside {t' : FileTree} {init : List Comp} {file entry : Loc} {part : String}
    (htemp : tempPath localPath = init ++ [.name part])
    (hlocal : (∃ n, localPath = init ++ [.name n]) ∨ localPath = init ∧ fileName localPath = none)
    (hleads : ∀ dir, t'.canonicalize init = .ok dir → root <+: dir) (hopen : t'.createAt (tempPath localPath) = .ok file)
    (hentry : (t'.withFile file).entryLoc (tempPath localPath) = some entry ∨
      (t'.withFile file).entryLoc localPath = some entry) : root <+: entry := by
  rw [htemp] at hopen hentry
  obtain ⟨dir, hdir, -⟩ := createAt_name hopen
  have hdir' : (t'.withFile file).canonicalize init = .ok dir := withFile_extends.canonicalize hdir
  have hroot : ∀ n, root <+: dir ++ [n] := fun n => (hleads dir hdir).trans (List.prefix_append ..)
  rw [entryLoc_name, hdir'] at hentry
  rcases hentry with hentry | hentry
  · cases hentry
    exact hroot part
  · rcases hlocal with ⟨n, rfl⟩ | ⟨rfl, hname⟩
    · rw [entryLoc_name, hdir'] at hentry
      cases hentry
      exact hroot n
    · rw [entryLoc_unnamed hname, hdir'] at hentry
      cases hentry
      exact hleads entry hdir

theorem mem_staged {t' : FileTree} {created : List Loc} {made received : Bool}
    (hcreate : t.createParent localPath = (t', created, made)) :
    loc ∈ staged t localPath received ↔ loc ∈ created ∨ made = true ∧ ∃ file, t'.createAt (tempPath localPath) = .ok file ∧
      (loc = file ∨ (t'.withFile file).entryLoc (tempPath localPath) = some loc ∨
        received = true ∧ (t'.withFile file).entryLoc localPath = some loc) := by
  cases made with
  | false => simp [staged, hcreate]
  | true =>
    cases hopen : t'.createAt (tempPath localPath) with
    | error e => simp [staged, hcreate, hopen]
    | ok file => cases received <;> simp [staged, hcreate, hopen]

theorem staged_of_leads {t' : FileTree} {created : List Loc} {made received : Bool} {init : List Comp} {part : String}
    (hcreate : t.createParent localPath = (t', created, made)) (htemp : tempPath localPath = init ++ [.name part])
    (hlocal : (∃ n, localPath = init ++ [.name n]) ∨ localPath = init ∧ fileName localPath = none)
    (hcreated : ∀ loc ∈ created, root <+: loc)
    (hopens : made = true → ∀ loc, t'.createAt (tempPath localPath) = .ok loc → root <+: loc)
    (hleads : ∀ dir, t'.canonicalize init = .ok dir → root <+: dir) (hloc : loc ∈ staged t localPath received) :
    root <+: loc := by
  rcases (mem_staged hcreate).1 hloc with hloc | ⟨hmade, file, hopen, rfl | hentry | ⟨-, hentry⟩⟩
  · exact hcreated loc hloc
  · exact hopens hmade loc hopen
  · exact entries_inside htemp hlocal hleads hopen (.inl hentry)
  · exact entries_inside htemp hlocal hleads hopen (.inr hentry)

theorem staged_name {init : List Comp} {n : String} (hinit : t.Rooted init) (hpresent : t.node root ≠ none)
    (hdir : ∀ dir, t.canonicalize init = .ok dir → root <+: dir) :
    (∀ loc received, loc ∈ staged t (init ++ [.name n]) received → root <+: loc) ↔
      (∀ dir m rest, t.FirstMissing init dir m rest → root <+: dir) ∧
        ∀ loc, t.OpensThroughLink (tempPath (init ++ [.name n])) loc → root <+: loc := by
  have htemp : tempPath (init ++ [.name n]) = init ++ [.name (n ++ ".part")] := by
    rw [tempPath, fileName_name, withFileName_name, Option.getD_some]
  have hparent : t.createParent (init ++ [.name n]) = t.createDirAll init := by
    rw [createParent, parent_concat]
  have hthere : ∀ dir, t.canonicalize init = .ok dir → root <+: dir ++ [n ++ ".part"] :=
    fun dir h => (hdir dir h).trans (List.prefix_append ..)
  rw [htemp, ← createAt_inside hthere, ← open_inside hinit hpresent, ← htemp]
  constructor
  · intro h t' created made hcreate
    replace hcreate := hparent.trans hcreate
    exact ⟨fun loc hloc => h loc false ((mem_staged hcreate).2 (.inl hloc)),
      fun hmade loc hopen => h loc false ((mem_staged hcreate).2 (.inr ⟨hmade, loc, hopen, .inl rfl⟩))⟩
  · intro h loc received hloc
    rcases hcreate : t.createDirAll init with ⟨t', created, made⟩
    obtain ⟨hcreated, hopens⟩ := h t' created made hcreate
    rw [htemp] at h
    have hmiss := ((open_inside hinit hpresent).1 h).1
    exact staged_of_leads (hparent.trans hcreate) htemp (.inl ⟨n, rfl⟩) hcreated hopens
      (fun dir => createDirAll_leads hinit hcreate hmiss hdir) hloc

theorem staged_unnamed (hlocal : t.canonicalize localPath = .ok root) (hname : fileName localPath = none) :
    (∀ loc received, loc ∈ staged t localPath received → root <+: loc) ↔
      ∀ loc, t.OpensThroughLink (tempPath localPath) loc → root <+: loc := by
  have htemp : tempPath localPath = localPath ++ [.name ".part"] := by
    rw [tempPath, hname, withFileName_none hname]
    rfl
  have hcreate := createParent_there hlocal
  have hleads : ∀ dir, t.canonicalize localPath = .ok dir → root <+: dir := by
    intro dir hdir
    rw [Except.ok.inj (hdir.symm.trans hlocal)]
  rw [htemp, ← createAt_inside fun dir hdir => (hleads dir hdir).trans (List.prefix_append ..), ← htemp]
  constructor
  · exact fun h loc hopen => h loc false ((mem_staged hcreate).2 (.inr ⟨rfl, loc, hopen, .inl rfl⟩))
  · exact fun h loc received hloc => staged_of_leads hcreate htemp (.inr ⟨rfl, hname⟩) (by simp) (fun _ => h) hleads hloc

theorem staged_inside (hroot : t.canonicalize (comps share.localPath) = .ok root) {names : List String}
    (hlocal : localPath = comps share.localPath ++ names.map .name)
    (hdir : ∀ dir, t.canonicalize ((parent localPath).getD localPath) = .ok dir → root <+: dir) :
    (∀ loc received, loc ∈ staged t localPath received → root <+: loc) ↔
      (∀ up, parent localPath = some up → ∀ dir n rest, t.FirstMissing up dir n rest → root <+: dir) ∧
        ∀ loc, t.OpensThroughLink (tempPath localPath) loc → root <+: loc := by
  have hrooted : t.Rooted localPath := ⟨_, root, names, hlocal, hroot⟩
  cases hname : fileName localPath with
  | some n =>
    obtain ⟨init, rfl⟩ := fileName_eq_some hname
    rw [parent_concat, Option.getD_some] at hdir
    rw [staged_name (hrooted.parent parent_concat) (canonicalize_node hroot).present hdir]
    simp only [parent_concat, Option.some.injEq, forall_eq']
  | none =>
    have hthere : t.canonicalize localPath = .ok root := by
      rcases List.eq_nil_or_concat names with rfl | ⟨names, n, rfl⟩
      · rwa [hlocal, List.map_nil, List.append_nil]
      · rw [hlocal, List.concat_eq_append, List.map_append, List.map_singleton, ← List.append_assoc, fileName_name] at hname
        cases hname
    rw [staged_unnamed hthere hname, iff_and_self]
    intro _ up hup dir n rest hmiss
    obtain ⟨dir', hdir'⟩ := parent_there hthere hup
    exact absurd hmiss (not_firstMissing hdir')

/-! ### Requests -/

theorem filtered_leads (hfind : findShareAndSubpath shares allowedSpaces path = .ok (share, sub))
    (h : resolvePathFiltered t shares allowedSpaces path = .ok localPath) : ∃ root loc,
      t.canonicalize (comps share.localPath) = .ok root ∧ root <+: loc ∧ t.canonicalize localPath = .ok loc ∧
      t.entryLoc localPath = some loc := by
  obtain ⟨-, loc, root, hloc, hroot, hpre, rfl⟩ := (resolvePathFiltered_ok hfind).1 h
  have hplain := canonicalize_node hloc
  exact ⟨root, loc, hroot, hpre, canonicalize_loc hplain, entryLoc_loc hplain⟩

theorem forWrite_leads (hfind : findShareAndSubpath shares allowedSpaces path = .ok (share, sub))
    (h : resolvePathForWrite t shares allowedSpaces path = .ok localPath) : ∃ (root : Loc) (names : List String),
      t.canonicalize (comps share.localPath) = .ok root ∧ localPath = comps share.localPath ++ names.map .name ∧
      ∀ dir, t.canonicalize ((parent localPath).getD localPath) = .ok dir → root <+: dir := by
  obtain ⟨hcheck, hlocal, root, hroot, hdir⟩ := (resolvePathForWrite_ok hfind).1 h
  rw [comps_of_check (rejectPathTraversal_of_check hcheck)] at hlocal
  exact ⟨root, _, hroot, hlocal, hdir⟩

theorem listed_inside (hloc : t.canonicalize localPath = .ok dir) (h : Listed t localPath loc) : dir <+: loc := by
  obtain ⟨dir', hdir', -, rfl | ⟨n, rfl, -⟩⟩ := h
  all_goals rw [Except.ok.inj (hloc.symm.trans hdir')]
  exact List.prefix_append ..

theorem manifest_inside (hloc : t.canonicalize localPath = .ok dir) (hpre : root <+: dir) :
    (∀ loc, (∃ dir, t.canonicalize localPath = .ok dir ∧ t.node dir = some .dir ∧ Scans t dir loc) → root <+: loc) ↔
      ∀ dir entry absolute target loc, t.canonicalize localPath = .ok dir → dir <+: entry →
        t.node entry = some (.link absolute target) → t.canonicalize (entry.map .name) = .ok loc → t.node loc = some .file →
        root <+: loc := by
  constructor
  · intro h dir' entry absolute target loc hdir' hentry hlink hleads hfile
    have hisDir := (canonicalize_node hdir').dir_of_link hentry hlink
    exact h loc ⟨dir', hdir', hisDir, scans_link hisDir hentry hlink hleads hfile⟩
  · rintro h loc ⟨dir', hdir', hisDir, hscan⟩
    rcases hscan.cases_link with hbelow | ⟨entry, absolute, target, hentry, hlink, hleads, hfile⟩
    · rw [← Except.ok.inj (hloc.symm.trans hdir')] at hbelow
      exact hpre.trans hbelow
    · exact h dir' entry absolute target loc hdir' hentry hlink hleads hfile

/-- A request stays inside its share exactly when the tree is as it asks. -/
theorem Request.contained_iff (req : Request) : req.Contained t shares allowedSpaces ↔ ∀ share sub localPath,
    dispatch shares allowedSpaces req = .ok (.inFolder share sub) → req.resolve t shares allowedSpaces = .ok localPath →
      req.Safe t (comps share.localPath) localPath := by
  unfold Request.Contained
  refine forall_congr' fun share => forall_congr' fun sub => forall_congr' fun localPath => ?_
  rw [forall_comm]
  refine forall_congr' fun hdispatch => ?_
  rw [forall_comm]
  refine forall_congr' fun hresolve => ?_
  have hfind := found_of_dispatch hdispatch
  cases req with
  | write path size token =>
    obtain ⟨root, names, hroot, hlocal, hdir⟩ := forWrite_leads hfind hresolve
    simpa only [Request.WorksOn, Request.Safe, inside_iff hroot, forall_exists_index] using staged_inside hroot hlocal hdir
  | createDirectory path token =>
    obtain ⟨root, names, hroot, hlocal, -⟩ := forWrite_leads hfind hresolve
    simpa only [Request.WorksOn, Request.Safe, inside_iff hroot] using
      createDirAll_inside ⟨_, root, names, hlocal, hroot⟩ (canonicalize_node hroot).present
  | manifest path token =>
    obtain ⟨root, dir, hroot, hpre, hleads, -⟩ := filtered_leads hfind hresolve
    simpa only [Request.WorksOn, Request.Safe, inside_iff hroot] using manifest_inside hleads hpre
  | list path token =>
    obtain ⟨root, dir, hroot, hpre, hleads, -⟩ := filtered_leads hfind hresolve
    simp only [Request.WorksOn, Request.Safe, inside_iff hroot, iff_true]
    exact fun loc h => hpre.trans (listed_inside hleads h)
  | stat path token =>
    obtain ⟨root, dir, hroot, hpre, hleads, -⟩ := filtered_leads hfind hresolve
    simp only [Request.WorksOn, Request.Safe, inside_iff hroot, iff_true]
    intro loc h
    rwa [← Except.ok.inj (hleads.symm.trans h)]
  | read path range token =>
    obtain ⟨root, dir, hroot, hpre, hleads, -⟩ := filtered_leads hfind hresolve
    simp only [Request.WorksOn, Request.Safe, inside_iff hroot, iff_true]
    rintro loc ⟨h, -⟩
    rwa [← Except.ok.inj (hleads.symm.trans h)]
  | delete path toTrash token =>
    obtain ⟨root, dir, hroot, hpre, -, hentry⟩ := filtered_leads hfind hresolve
    simp only [Request.WorksOn, Request.Safe, inside_iff hroot, iff_true]
    rintro loc ⟨-, entry, hentry', hbelow, -⟩
    cases hentry.symm.trans hentry'
    exact hpre.trans hbelow

/-- The calls of the local provider and the requests of a peer stay inside their folder exactly when the tree is as they ask,
and a provider accepts the paths inside exactly where its base and the links are straight. -/
theorem share_containment (t : FileTree) :
    (∀ (shares : Shares) (allowedSpaces : List String) (req : Request), req.Contained t shares allowedSpaces ↔
      ∀ share sub localPath, dispatch shares allowedSpaces req = .ok (.inFolder share sub) →
        req.resolve t shares allowedSpaces = .ok localPath → req.Safe t (comps share.localPath) localPath) ∧
    (∀ (self : LocalProvider) (relativePath : String) (call : LocalProvider.Call), self.Contained t relativePath call ↔
      ∀ full, self.resolvePath t relativePath = .ok full → call.Safe t (self.base) full) ∧
    ∀ (self : LocalProvider) (relativePath : String), self.AcceptsInside t relativePath ↔
      (checkRelativePath relativePath = .ok () → self.Straight t (self.full relativePath)) :=
  ⟨fun _ _ => Request.contained_iff, fun self _ => self.contained_iff (t := t), fun _ _ => LocalProvider.acceptsInside_iff⟩

end Contained

/-! ## Out of a share -/

/-- In the shared folder is a link to another directory; another link leads to the folder above the shared one. -/
def linkedTree : FileTree :=
  (((((FileTree.empty 40).put [] "srv" .dir).put ["srv"] "docs" .dir).put [] "etc" .dir).put ["srv", "docs"] "out"
    (.link true [.name "etc"])).put [] "home" (.link true [.name "srv"])

def docsShare : SharedFolder := ⟨"docs", "/srv/docs", "s"⟩

def docsShares : Shares := ⟨[("1", docsShare)], by simp⟩

theorem linkedTree_inside {loc : Loc} : linkedTree.Inside (comps "/srv/docs") loc ↔ ["srv", "docs"] <+: loc :=
  inside_iff (by decide +kernel)

/-- A write below a missing directory of a link makes that directory outside the share, from a peer and from a sync rule;
below a base that is reached through a link, a path inside with a missing directory is refused. -/
theorem out_of_share :
    ¬ (Request.write "docs/out/new/a.txt" 1 "").Contained linkedTree docsShares ["s"] ∧
    ¬ (LocalProvider.mk "/srv/docs").Contained linkedTree "out/new/a.txt" .writeFile ∧
    ¬ (LocalProvider.mk "/home/docs").AcceptsInside linkedTree "new/a.txt" := by
  refine ⟨fun h => ?_, fun h => ?_, fun h => ?_⟩
  · have hinside := h docsShare "out/new/a.txt" (comps "/srv/docs/out/new/a.txt") ["etc", "new"] (by decide +kernel)
      (by decide +kernel) ⟨false, by decide +kernel⟩
    exact absurd (linkedTree_inside.1 hinside) (by decide)
  · have hinside := h (comps "/srv/docs/out/new/a.txt") ["etc", "new"] (by decide +kernel)
      (show ["etc", "new"] ∈ LocalProvider.written .. by decide +kernel)
    exact absurd (linkedTree_inside.1 hinside) (by decide)
  · obtain ⟨full, hfull⟩ := h (by decide +kernel) ["srv", "docs", "new", "a.txt"]
      (.inr (.inr ⟨["srv", "docs"], "new", ["a.txt"], ⟨comps "/home/docs", by decide +kernel⟩, rfl⟩))
      ⟨["srv", "docs"], by decide +kernel⟩
    have hrefused : (LocalProvider.mk "/home/docs").resolvePath linkedTree "new/a.txt" =
        .error (.pathTraversal "new/a.txt") := by decide +kernel
    rw [hrefused] at hfull
    cases hfull

end HaexVault.PeerStorage
