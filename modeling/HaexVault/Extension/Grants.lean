import HaexVault.Lib.Runs
import HaexVault.Extension.InstallDir
import HaexVault.Extension.Permissions
/-!
# Grants and the extension they were given to (`extension/core/installer.rs`, `manager.rs`, `removal.rs`)

Permission rows hang on an extension's id; what runs under the id are the files in the directory of
its entry. An install looks the id up by key and name, an update is told the id, and both write where
the bundle's own name leads (`grants_stay_with_developer`).
-/

namespace HaexVault.Extension

open HaexVault.Lib.Runs

/-- A row of `haex_extensions`. -/
structure ExtensionRow where
  id : String
  registered : Manifest
  version : String
  deriving DecidableEq

/-- A row of `haex_extension_permissions`, and what was registered under its id when it was granted. -/
structure Grant where
  row : PermissionRow
  grantedFor : Manifest
  deriving DecidableEq

structure Registry where
  rows : List ExtensionRow := []
  grants : List Grant := []
  /-- `available_extensions`: the bundle whose code runs under an id. -/
  available : String → Option BundleManifest := fun _ => none
  /-- The bundle that the file at a path came from. -/
  files : List String → Option Manifest := fun _ => none

namespace Registry

def findId (s : Registry) (m : Manifest) : Option String := (s.rows.find? fun r => r.registered = m).map (·.id)

def setVersion (s : Registry) (id version : String) : Registry :=
  { s with rows := s.rows.map fun r => if r.id = id then { r with version } else r }

/-- `delete_permissions_in_transaction`. -/
def deletePermissions (s : Registry) (id : String) : Registry :=
  { s with grants := s.grants.filter fun g => g.row.extensionId ≠ id }

def upsert (s : Registry) (m : BundleManifest) (newId : String) : Registry :=
  match s.findId m.toManifest with
  | some existingId => s.setVersion existingId m.version
  | none => { s with rows := s.rows ++ [{ id := newId, registered := m.toManifest, version := m.version }] }

def grantsFor (id : String) (m : BundleManifest) (permissions : List PermissionRow) : List Grant :=
  permissions.map fun p => { row := { p with extensionId := id }, grantedFor := m.toManifest }

/-- `register_extension_in_database`, when its transaction commits; a new row gets a fresh UUID. -/
def registerExtensionInDatabase (s : Registry) (m : BundleManifest) (permissions : List PermissionRow) (newId : String) :
    String × Registry :=
  let actualId := (s.findId m.toManifest).getD newId
  let kept := (s.upsert m newId).deletePermissions actualId
  (actualId, { kept with grants := kept.grants ++ grantsFor actualId m permissions })

def addExtension (s : Registry) (id : String) (m : BundleManifest) : Except ExtensionError Registry :=
  if id = "" then .error (.validation "Extension ID cannot be empty")
  else .ok { s with available := Function.update s.available id (some m) }

def loaded (s : Registry) (id : String) (m : BundleManifest) (installed : Bool) : Registry :=
  match installed, s.addExtension id m with
  | true, .ok s => s
  | _, _ => s

/-- What `remove_dir_all` leaves of a directory. -/
def cleared (s : Registry) (dir : List String) (spared : List String → Bool) : Registry :=
  { s with files := fun path => if dir <+: path ∧ spared path = false then none else s.files path }

/-- What `install_extension_files` does to the files. -/
def written (base : String) (s : Registry) (m : BundleManifest) (run : InstallRun) : Registry :=
  let extensionsDir := resolve (getExtensionDir base m)
  let s := s.cleared extensionsDir run.spared
  { s with files := fun path => if ∃ file ∈ run.copied, extensionsDir ++ file.1 = path then some m.toManifest else s.files path }

/-- `add_extension` goes through. -/
def loads (id : String) (installed : Bool) : Bool := installed && id ≠ ""

end Registry

inductive RegistryEvent where
  /-- `install_extension_with_permissions`. -/
  | install (m : BundleManifest) (contentHash : String) (permissions : List PermissionRow) (newId : String)
      (committed installed : Bool) (run : InstallRun)
  /-- The command `register_extension_in_database`, which is given a manifest. -/
  | register (m : BundleManifest) (permissions : List PermissionRow) (newId : String)
  /-- `install_extension_files`: a bundle for an id. -/
  | update (m : BundleManifest) (contentHash extensionId : String) (installed committed : Bool) (run : InstallRun)
  /-- `remove_extension`; `id` is the entry that the lookup by key and name comes to. -/
  | remove (id publicKey name version : String) (deleteData committed : Bool) (spared : List String → Bool)
  /-- A permission is granted by the user; the foreign key asks for a row of the extension. -/
  | grant (permission : PermissionRow)
  /-- `load_installed_extensions`: the rows whose files are there. -/
  | load (present : String → Bool)

namespace Registry

variable (base : String)

/-- `remove_extension_internal`. -/
def remove (s : Registry) (id publicKey name version : String) (deleteData committed : Bool) (spared : List String → Bool) :
    Registry :=
  match s.available id with
  | none => s
  | some m =>
    if m.toManifest ≠ ⟨publicKey, name⟩ then s
    else if deleteData && !committed then s
    else
      let kept : Registry :=
        if deleteData then { s with rows := s.rows.filter fun r => r.id ≠ id, grants := (s.deletePermissions id).grants } else s
      { kept with available := Function.update s.available id none }.cleared
        (resolve (getExtensionDir base ⟨⟨publicKey, name⟩, version, ""⟩)) spared

def granted (s : Registry) (permission : PermissionRow) : Registry :=
  match s.rows.find? fun r => r.id = permission.extensionId with
  | none => s
  | some r => { s with grants := s.grants ++ [⟨permission, r.registered⟩] }

def loadInstalled (s : Registry) (present : String → Bool) : Registry :=
  { s with
    available := fun id => match s.rows.find? fun r => r.id = id && r.id ≠ "__core__" && present r.id with
      | none => none
      | some r => some { toManifest := r.registered, version := r.version } }

variable (verifySignature : String → String → String → Except String Unit)

def step (s : Registry) : RegistryEvent → Registry
  | .install m contentHash permissions newId committed installed run =>
    match checkBundle verifySignature m contentHash with
    | .error _ => s
    | .ok _ =>
      if committed then
        let registered := s.registerExtensionInDatabase m permissions newId
        (registered.2.written base m run).loaded registered.1 m installed
      else s
  | .register m permissions newId => (s.registerExtensionInDatabase m permissions newId).2
  | .update m contentHash extensionId installed committed run =>
    match checkBundle verifySignature m contentHash with
    | .error _ => s
    | .ok _ =>
      let s := (s.written base m run).loaded extensionId m installed
      if loads extensionId installed && committed then s.setVersion extensionId m.version else s
  | .remove id publicKey name version deleteData committed spared =>
    s.remove base id publicKey name version deleteData committed spared
  | .grant permission => s.granted permission
  | .load present => s.loadInstalled present

/-! ## The grants of what runs -/

/-- What runs under an id: what is loaded there, and the files in its directory. -/
def RunsUnder (s : Registry) (id : String) (code : Manifest) : Prop :=
  ∃ m, s.available id = some m ∧
    (m.toManifest = code ∨ ∃ path, resolve (getExtensionDir base m) <+: path ∧ s.files path = some code)

def StaysWithDeveloper (s : Registry) : Prop :=
  ∀ id code, s.RunsUnder base id code → ∀ g ∈ s.grants, g.row.extensionId = id → g.grantedFor = code

/-- The keys and names by id. -/
def registered (s : Registry) : List (String × Manifest) := s.rows.map fun r => (r.id, r.registered)

def Unused (s : Registry) (id : String) : Prop := (∀ m, (id, m) ∉ s.registered) ∧ s.available id = none

def Plain (m : BundleManifest) : Prop :=
  plainComponent m.publicKey = true ∧ plainComponent m.name = true ∧ plainComponent m.version = true

/-- What is installed, registered or updated leads to a directory of its own; every update is of a bundle with the key and the
name that its id is registered with; a new id is unused. -/
def Fits (s : Registry) : RegistryEvent → Prop
  | .install m _ _ newId _ _ _ => Plain m ∧ (s.findId m.toManifest = none → s.Unused newId)
  | .register m _ newId => Plain m ∧ (s.findId m.toManifest = none → s.Unused newId)
  | .update m _ extensionId _ _ _ =>
    Plain m ∧ ∀ registered, (extensionId, registered) ∈ s.registered → registered = m.toManifest
  | _ => True

structure Inv (s : Registry) : Prop where
  ids : (s.registered.map (·.1)).Nodup
  /-- A grant is one for what is registered under its id. -/
  granted : ∀ g ∈ s.grants, (g.row.extensionId, g.grantedFor) ∈ s.registered
  /-- What runs under an id is what is registered there. -/
  running : ∀ id m, s.available id = some m → ∀ registered, (id, registered) ∈ s.registered → registered = m.toManifest

/-- A file lies in the directory of the key and the name of its bundle. -/
structure Apart (s : Registry) : Prop where
  rows : ∀ r ∈ s.rows, Plain { toManifest := r.registered, version := r.version }
  available : ∀ id m, s.available id = some m → Plain m
  files : ∀ path code, s.files path = some code → resolve base ++ [code.publicKey, code.name] <+: path

variable {base verifySignature} {s : Registry} {m : BundleManifest} {id newId : String}

theorem resolve_plain (h : Plain m) : resolve (getExtensionDir base m) = resolve base ++ [m.publicKey, m.name] ++ [m.version] := by
  rw [resolve_getExtensionDir h.1 h.2.1 h.2.2, ownDir, List.append_assoc]
  rfl

theorem Inv.stays (h : s.Inv) (hapart : s.Apart base) : s.StaysWithDeveloper base := by
  rintro _ code ⟨m, hm, hcode⟩ g hg rfl
  have hregistered := h.running _ m hm _ (h.granted g hg)
  rcases hcode with rfl | ⟨path, hpath, hfile⟩
  · exact hregistered
  · rw [hregistered]
    have hown := hapart.files path code hfile
    rw [resolve_plain (hapart.available _ m hm)] at hpath
    obtain ⟨rest, hrest⟩ := List.prefix_of_prefix_length_le hown ((List.prefix_append _ _).trans hpath) (by simp)
    simp only [List.append_assoc, List.append_cancel_left_eq, List.cons_append, List.nil_append, List.cons.injEq] at hrest
    cases code
    cases hm' : m.toManifest
    simp_all

/-! ## What a step keeps -/

@[simp] theorem setVersion_registered (s : Registry) (id version : String) : (s.setVersion id version).registered = s.registered := by
  simp only [registered, setVersion, List.map_map]
  refine List.map_congr_left fun r _ => ?_
  simp only [Function.comp_apply]
  split <;> rfl

theorem findId_some (h : s.findId m.toManifest = some id) : (id, m.toManifest) ∈ s.registered := by
  obtain ⟨r, hr, rfl⟩ := Option.map_eq_some_iff.1 h
  have hreg : r.registered = m.toManifest := by simpa using List.find?_some hr
  rw [← hreg]
  exact List.mem_map_of_mem (List.mem_of_find?_eq_some hr)

theorem Inv.setVersion (h : s.Inv) (id version : String) : (s.setVersion id version).Inv := by
  refine ⟨?_, ?_, ?_⟩
  · rw [setVersion_registered]
    exact h.ids
  · rw [setVersion_registered]
    exact h.granted
  · rw [setVersion_registered]
    exact h.running

theorem Inv.upsert (h : s.Inv) (hnew : s.findId m.toManifest = none → s.Unused newId) :
    (s.upsert m newId).Inv ∧ ((s.findId m.toManifest).getD newId, m.toManifest) ∈ (s.upsert m newId).registered := by
  unfold Registry.upsert
  cases hid : s.findId m.toManifest with
  | some id =>
    refine ⟨h.setVersion id m.version, ?_⟩
    rw [setVersion_registered]
    exact findId_some hid
  | none =>
    obtain ⟨hunused, hidle⟩ := hnew hid
    have hreg : ({ s with rows := s.rows ++ [⟨newId, m.toManifest, m.version⟩] } : Registry).registered =
        s.registered ++ [(newId, m.toManifest)] := by simp [registered]
    refine ⟨⟨?_, ?_, ?_⟩, ?_⟩
    · rw [hreg, List.map_append, List.nodup_append]
      refine ⟨h.ids, List.nodup_singleton newId, ?_⟩
      rintro id hid' id' hnew' rfl
      obtain ⟨p, hp, rfl⟩ := List.mem_map.1 hid'
      have hp1 : p.1 = newId := by simpa using hnew'
      exact hunused p.2 (by rw [← hp1]; exact hp)
    · intro g hg
      rw [hreg]
      exact List.mem_append_left _ (h.granted g hg)
    · intro id m' hm' reg hmem
      rw [hreg, List.mem_append, List.mem_singleton] at hmem
      rcases hmem with hmem | heq
      · exact h.running id m' hm' reg hmem
      · obtain ⟨rfl, -⟩ := Prod.mk.inj heq
        rw [hidle] at hm'
        cases hm'
    · rw [hreg]
      exact List.mem_append_right _ (List.mem_singleton.2 rfl)

theorem Inv.regrant (h : s.Inv) (hid : (id, m.toManifest) ∈ s.registered) (permissions : List PermissionRow) :
    ({ s.deletePermissions id with
      grants := (s.deletePermissions id).grants ++ grantsFor id m permissions } : Registry).Inv := by
  refine ⟨h.ids, fun g hg => ?_, h.running⟩
  rcases List.mem_append.1 hg with hg | hg
  · exact h.granted g (List.mem_filter.1 hg).1
  · obtain ⟨p, -, rfl⟩ := List.mem_map.1 hg
    exact hid

theorem Inv.registerExtensionInDatabase (h : s.Inv) (permissions : List PermissionRow)
    (hnew : s.findId m.toManifest = none → s.Unused newId) :
    (s.registerExtensionInDatabase m permissions newId).2.Inv ∧
      ((s.registerExtensionInDatabase m permissions newId).1, m.toManifest) ∈
        (s.registerExtensionInDatabase m permissions newId).2.registered := by
  obtain ⟨hinv, hid⟩ := h.upsert hnew
  exact ⟨hinv.regrant hid permissions, hid⟩

theorem registered_unique {p : String × Manifest} {m' : Manifest} (h : s.Inv) (hp : p ∈ s.registered)
    (hm : (p.1, m') ∈ s.registered) : m' = p.2 :=
  (Prod.mk.inj (List.inj_on_of_nodup_map h.ids hm hp rfl)).2

/-- What runs under one id is replaced. -/
theorem Inv.runs (h : s.Inv) (id : String) {x : Option BundleManifest}
    (hx : ∀ m, x = some m → ∀ registered, (id, registered) ∈ s.registered → registered = m.toManifest) :
    ({ s with available := Function.update s.available id x } : Registry).Inv := by
  refine ⟨h.ids, h.granted, fun id' m' hm' => ?_⟩
  dsimp only at hm'
  by_cases hne : id' = id
  · subst hne
    rw [Function.update_self] at hm'
    exact hx m' hm'
  · rw [Function.update_of_ne hne] at hm'
    exact h.running id' m' hm'

theorem Inv.loaded (h : s.Inv) (hid : ∀ registered, (id, registered) ∈ s.registered → registered = m.toManifest)
    (installed : Bool) : (s.loaded id m installed).Inv := by
  unfold Registry.loaded addExtension
  split
  · next s' hs' =>
    split at hs'
    · cases hs'
    · cases hs'
      refine h.runs id ?_
      rintro _ ⟨⟩
      exact hid
  · exact h

theorem loaded_registered (s : Registry) (id : String) (m : BundleManifest) (installed : Bool) :
    (s.loaded id m installed).registered = s.registered := by
  unfold Registry.loaded addExtension
  split
  · next s' hs' =>
    split at hs'
    · cases hs'
    · cases hs'
      rfl
  · rfl

theorem Inv.unload (h : s.Inv) (id : String) : ({ s with available := Function.update s.available id none } : Registry).Inv := by
  refine h.runs id ?_
  rintro _ ⟨⟩

theorem Inv.withFiles (h : s.Inv) (files : List String → Option Manifest) : ({ s with files } : Registry).Inv :=
  ⟨h.ids, h.granted, h.running⟩

theorem written_registered (s : Registry) (m : BundleManifest) (run : InstallRun) :
    (s.written base m run).registered = s.registered := by
  simp only [registered, written, cleared]

theorem Inv.written (h : s.Inv) (m : BundleManifest) (run : InstallRun) : (s.written base m run).Inv :=
  Inv.withFiles (h.withFiles _) _

theorem Inv.deleted (h : s.Inv) (id : String) :
    ({ s with rows := s.rows.filter fun r => r.id ≠ id, grants := (s.deletePermissions id).grants } : Registry).Inv := by
  -- the row goes with its grants
  have hreg : ∀ p, p ∈ ({ s with rows := s.rows.filter fun r => r.id ≠ id } : Registry).registered ↔
      p ∈ s.registered ∧ p.1 ≠ id := by
    intro p
    simp only [registered, List.mem_map, List.mem_filter, decide_eq_true_eq]
    constructor
    · rintro ⟨r, ⟨hr, hne⟩, rfl⟩
      exact ⟨⟨r, hr, rfl⟩, hne⟩
    · rintro ⟨⟨r, hr, rfl⟩, hne⟩
      exact ⟨r, ⟨hr, hne⟩, rfl⟩
  refine ⟨h.ids.sublist ((List.filter_sublist.map _).map _), fun g hg => ?_, fun id' m' hm' reg hmem => ?_⟩
  · obtain ⟨hg, hne⟩ := List.mem_filter.1 hg
    exact (hreg _).2 ⟨h.granted g hg, by simpa using hne⟩
  · exact h.running id' m' hm' reg ((hreg _).1 hmem).1

theorem Inv.remove (h : s.Inv) (id publicKey name version : String) (deleteData committed : Bool) (spared : List String → Bool) :
    (s.remove base id publicKey name version deleteData committed spared).Inv := by
  unfold Registry.remove
  split
  · exact h
  · split_ifs
    · exact h
    · exact h
    · exact ((h.deleted id).unload id).withFiles _
    · exact (h.unload id).withFiles _

theorem Inv.grant (h : s.Inv) (permission : PermissionRow) : (s.granted permission).Inv := by
  unfold Registry.granted
  split
  · exact h
  · next r hr =>
    refine ⟨h.ids, fun g hg => ?_, h.running⟩
    rcases List.mem_append.1 hg with hg | hg
    · exact h.granted g hg
    · rw [List.mem_singleton.1 hg]
      have hid : r.id = permission.extensionId := by simpa using List.find?_some hr
      rw [← hid]
      exact List.mem_map_of_mem (List.mem_of_find?_eq_some hr)

theorem Inv.loadInstalled (h : s.Inv) (present : String → Bool) : (s.loadInstalled present).Inv := by
  refine ⟨h.ids, h.granted, fun id m hm reg hreg => ?_⟩
  simp only [Registry.loadInstalled] at hm
  split at hm
  · cases hm
  · next r hr =>
    cases hm
    have hid : r.id = id := by
      have := List.find?_some hr
      simp only [Bool.and_eq_true, decide_eq_true_eq] at this
      exact this.1.1
    have hr' : (r.id, r.registered) ∈ s.registered := List.mem_map_of_mem (List.mem_of_find?_eq_some hr)
    exact registered_unique h hr' (by rw [hid]; exact hreg)

theorem Inv.step (h : s.Inv) {e : RegistryEvent} (he : s.Fits e) : (s.step base verifySignature e).Inv := by
  cases e with
  | install m contentHash permissions newId committed installed run =>
    simp only [Registry.step]
    split
    · exact h
    · split
      · obtain ⟨hinv, hid⟩ := h.registerExtensionInDatabase permissions he.2
        exact (hinv.written m run).loaded (fun reg hreg => registered_unique hinv hid (by rwa [written_registered] at hreg)) installed
      · exact h
  | register m permissions newId => exact (h.registerExtensionInDatabase permissions he.2).1
  | update m contentHash extensionId installed committed run =>
    have hloaded : ((s.written base m run).loaded extensionId m installed).Inv :=
      (h.written m run).loaded (fun reg hreg => he.2 reg (by rwa [written_registered] at hreg)) installed
    simp only [Registry.step]
    split
    · exact h
    · split
      · exact hloaded.setVersion _ _
      · exact hloaded
  | remove id publicKey name version deleteData committed spared =>
    exact h.remove id publicKey name version deleteData committed spared
  | grant permission => exact h.grant permission
  | load present => exact h.loadInstalled present

/-! ## The files -/

theorem Apart.withFiles (h : s.Apart base) {files : List String → Option Manifest}
    (hfiles : ∀ path code, files path = some code → resolve base ++ [code.publicKey, code.name] <+: path) :
    ({ s with files } : Registry).Apart base := ⟨h.rows, h.available, hfiles⟩

theorem Apart.cleared (h : s.Apart base) (dir : List String) (spared : List String → Bool) : (s.cleared dir spared).Apart base := by
  refine h.withFiles fun path code hfile => ?_
  split at hfile
  · cases hfile
  · exact h.files path code hfile

theorem Apart.written (h : s.Apart base) (hm : Plain m) (run : InstallRun) : (s.written base m run).Apart base := by
  have hcleared := h.cleared (resolve (getExtensionDir base m)) run.spared
  refine hcleared.withFiles fun path code hfile => ?_
  split at hfile
  · next hcopied =>
    obtain ⟨file, -, rfl⟩ := hcopied
    obtain rfl := Option.some.inj hfile
    rw [resolve_plain hm, List.append_assoc]
    exact List.prefix_append _ _
  · exact hcleared.files path code hfile

theorem Apart.loaded (h : s.Apart base) (hm : Plain m) (id : String) (installed : Bool) : (s.loaded id m installed).Apart base := by
  unfold Registry.loaded addExtension
  split
  · next s' hs' =>
    split at hs'
    · cases hs'
    · cases hs'
      refine ⟨h.rows, fun id' m' hm' => ?_, h.files⟩
      dsimp only at hm'
      by_cases hid : id' = id
      · rw [hid, Function.update_self] at hm'
        exact Option.some.inj hm' ▸ hm
      · rw [Function.update_of_ne hid] at hm'
        exact h.available id' m' hm'
  · exact h

theorem Apart.setVersion (h : s.Apart base) (id : String) (hm : Plain m)
    (hid : ∀ registered, (id, registered) ∈ s.registered → registered = m.toManifest) : (s.setVersion id m.version).Apart base := by
  refine ⟨fun r hr => ?_, h.available, h.files⟩
  obtain ⟨r', hr', rfl⟩ := List.mem_map.1 hr
  split
  · next hsame =>
    have hregistered : r'.registered = m.toManifest := hid _ (hsame ▸ List.mem_map_of_mem hr')
    rw [hregistered]
    exact hm
  · exact h.rows r' hr'

theorem Apart.registerExtensionInDatabase (h : s.Apart base) (hs : s.Inv) (hm : Plain m) (permissions : List PermissionRow)
    (newId : String) : (s.registerExtensionInDatabase m permissions newId).2.Apart base := by
  have hupsert : (s.upsert m newId).Apart base := by
    unfold Registry.upsert
    cases hid : s.findId m.toManifest with
    | some id => exact h.setVersion id hm fun reg hreg => registered_unique hs (findId_some hid) hreg
    | none =>
      refine ⟨fun r hr => ?_, h.available, h.files⟩
      rcases List.mem_append.1 hr with hr | hr
      · exact h.rows r hr
      · rw [List.mem_singleton.1 hr]
        exact hm
  exact ⟨hupsert.rows, hupsert.available, hupsert.files⟩

theorem Apart.remove (h : s.Apart base) (id publicKey name version : String) (deleteData committed : Bool)
    (spared : List String → Bool) : (s.remove base id publicKey name version deleteData committed spared).Apart base := by
  have hunload : ∀ t : Registry, t.Apart base → ({ t with available := Function.update t.available id none } : Registry).Apart base := by
    refine fun t ht => ⟨ht.rows, fun id' m' hm' => ?_, ht.files⟩
    dsimp only at hm'
    by_cases hid : id' = id
    · rw [hid, Function.update_self] at hm'
      cases hm'
    · rw [Function.update_of_ne hid] at hm'
      exact ht.available id' m' hm'
  have hdeleted : ({ s with rows := s.rows.filter fun r => r.id ≠ id, grants := (s.deletePermissions id).grants } :
      Registry).Apart base := ⟨fun r hr => h.rows r (List.mem_filter.1 hr).1, h.available, h.files⟩
  unfold Registry.remove
  split
  · exact h
  · split_ifs
    · exact h
    · exact h
    · exact (hunload _ hdeleted).cleared _ _
    · exact (hunload _ h).cleared _ _

theorem Apart.loadInstalled (h : s.Apart base) (present : String → Bool) : (s.loadInstalled present).Apart base := by
  refine ⟨h.rows, fun id m hm => ?_, h.files⟩
  simp only [Registry.loadInstalled] at hm
  split at hm
  · cases hm
  · next r hr =>
    cases hm
    exact h.rows r (List.mem_of_find?_eq_some hr)

theorem Apart.step (h : s.Apart base) (hs : s.Inv) {e : RegistryEvent} (he : s.Fits e) :
    (s.step base verifySignature e).Apart base := by
  cases e with
  | install m contentHash permissions newId committed installed run =>
    simp only [Registry.step]
    split
    · exact h
    · split
      · exact ((h.registerExtensionInDatabase hs he.1 permissions newId).written he.1 run).loaded he.1 _ installed
      · exact h
  | register m permissions newId => exact h.registerExtensionInDatabase hs he.1 permissions newId
  | update m contentHash extensionId installed committed run =>
    have hloaded := (h.written he.1 run).loaded he.1 extensionId installed
    simp only [Registry.step]
    split
    · exact h
    · split
      · refine hloaded.setVersion extensionId he.1 fun reg hreg => he.2 reg ?_
        rwa [loaded_registered, written_registered] at hreg
      · exact hloaded
  | remove id publicKey name version deleteData committed spared =>
    exact h.remove id publicKey name version deleteData committed spared
  | grant permission =>
    simp only [Registry.step, Registry.granted]
    split
    · exact h
    · exact ⟨h.rows, h.available, h.files⟩
  | load present => exact h.loadInstalled present

/-- In a run whose bundles have directories of their own and whose updates all fit the id they are for, what runs has the
grants of its own developer only. -/
theorem grants_stay_with_developer (base : String) (verifySignature : String → String → String → Except String Unit)
    (es : List RegistryEvent) (hes : Guarded (step base verifySignature) Fits {} es) :
    (run (step base verifySignature) {} es).StaysWithDeveloper base := by
  have hstart : Inv {} ∧ Apart base {} := by
    refine ⟨⟨List.nodup_nil, fun g hg => ?_, fun id m hm => ?_⟩, fun r hr => ?_, fun id m hm => ?_, fun path code hfile => ?_⟩
    · cases hg
    · cases hm
    · cases hr
    · cases hm
    · cases hfile
  obtain ⟨hinv, hapart⟩ := hes.inv (I := fun s => s.Inv ∧ s.Apart base)
    (fun _ _ h he => ⟨h.1.step he, h.2.step h.1 he⟩) hstart
  exact hinv.stays hapart

def readTables : PermissionRow := ⟨"", some "db", some "read", some "*", some "granted"⟩

def otherKey : String := "00001f13f65e576b8a30ff9fd83df82a8bb707e1994d40c99996fe88603cefca"

def oneFile : InstallRun := { copied := [(["index.html"], [])] }

def fittingRun : List RegistryEvent :=
  [.install (bundle "notes" "1.0.0") "h" [readTables] "x" true true oneFile,
    .update (bundle "notes" "1.1.0") "h" "x" true true oneFile, .load fun _ => true]

theorem plain_notes : Plain (bundle "notes" "1.0.0") ∧ Plain (bundle "notes" "1.1.0") := by
  unfold Plain
  decide +kernel

theorem grants_stay_with_notes : Guarded (step "/data/extensions" anySignature) Fits {} fittingRun ∧
    (run (step "/data/extensions" anySignature) {} fittingRun).StaysWithDeveloper "/data/extensions" := by
  have hfits : Guarded (step "/data/extensions" anySignature) Fits {} fittingRun := by
    refine ⟨?_, ?_, trivial, trivial⟩
    · refine ⟨plain_notes.1, fun _ => ⟨fun m hm => ?_, rfl⟩⟩
      cases hm
    · refine ⟨plain_notes.2, fun reg hreg => ?_⟩
      have hrun : (step "/data/extensions" anySignature {}
          (.install (bundle "notes" "1.0.0") "h" [readTables] "x" true true oneFile)).registered =
          [("x", (bundle "notes" "1.0.0").toManifest)] := by decide +kernel
      rw [hrun, List.mem_singleton] at hreg
      exact (Prod.mk.inj hreg).2
  exact ⟨hfits, grants_stay_with_developer "/data/extensions" anySignature fittingRun hfits⟩

/-- A bundle of another developer is installed as an update of notes: it runs with the grants of notes. -/
theorem update_takes_grants :
    ¬ (run (step "/data/extensions" anySignature) {}
      [.install (bundle "notes" "1.0.0") "h" [readTables] "x" true true oneFile,
        .update ⟨⟨otherKey, "evil"⟩, "9.0.0", "00"⟩ "h" "x" true true oneFile]).StaysWithDeveloper "/data/extensions" := by
  intro h
  have hfor : (bundle "notes" "1.0.0").toManifest = ⟨otherKey, "evil"⟩ :=
    h "x" ⟨otherKey, "evil"⟩ ⟨⟨⟨otherKey, "evil"⟩, "9.0.0", "00"⟩, by decide +kernel, .inl rfl⟩
      ⟨{ readTables with extensionId := "x" }, (bundle "notes" "1.0.0").toManifest⟩ (by decide +kernel) rfl
  exact absurd hfor (by decide +kernel)

end Registry

end HaexVault.Extension
