import HaexVault.Extension.Tables
import HaexVault.Lib.PathText
import HaexVault.PeerStorage.Handlers
/-!
# The directory of an extension (`extension/core/manager.rs`, `installer.rs`, `protocol.rs`)

`installExtensionFiles` removes and refills the directory that `getExtensionDir` builds from the
public key, the name and the version of a bundle. The key is checked; name and version come from the
manifest as they are, and `Path::join` takes `..` and absolute parts (`install_stays_iff`).
-/

namespace HaexVault.Extension

open HaexVault.Lib.Steps
open HaexVault.Lib.PathText (not_mem_of_mem_splitOn)
open HaexVault.PeerStorage (components)

/-! ## Paths -/

/-- `Path::join`: an absolute part replaces the path. -/
def join (path part : String) : String :=
  if part.toList.head? = some '/' then part
  else if path = "" ∨ path.toList.getLast? = some '/' then path ++ part
  else path ++ "/" ++ part

def descend (dir : List String) (c : String) : List String := if c = ".." then dir.dropLast else dir ++ [c]

def resolve (path : String) : List String := (components path).foldl descend []

def plainComponent (s : String) : Bool := s ≠ "" && s ≠ "." && s ≠ ".." && !s.toList.contains '/'

/-! ## Installing -/

/-- What of an `ExtensionManifest` decides where the bundle goes, and its signature. -/
structure BundleManifest extends Manifest where
  version : String := "0.0.0-dev"
  signature : String := ""
  deriving DecidableEq

/-- `get_extension_dir`, below `base`. -/
def getExtensionDir (base : String) (m : BundleManifest) : String := join (join (join base m.publicKey) m.name) m.version

abbrev Disk := List String → Option (List UInt8)

structure InstallRun where
  spared : List String → Bool := fun _ => false
  copied : List (List String × List UInt8) := []

def removeDirAll (dir : List String) (run : InstallRun) (disk : Disk) : Disk :=
  fun path => if dir <+: path ∧ run.spared path = false then none else disk path

def copyFile (dir : List String) (disk : Disk) (file : List String × List UInt8) : Disk :=
  Function.update disk (dir ++ file.1) (some file.2)

/-- `install_extension_files`. -/
def installExtensionFiles (base : String) (m : BundleManifest) (run : InstallRun) (disk : Disk) : Disk :=
  let extensionsDir := resolve (getExtensionDir base m)
  run.copied.foldl (copyFile extensionsDir) (removeDirAll extensionsDir run disk)

def checkBundle (verifySignature : String → String → String → Except String Unit) (m : BundleManifest) (contentHash : String) :
    Except ExtensionError Unit := do
  validatePublicKey m.publicKey
  (verifySignature m.publicKey contentHash m.signature).mapError .validation

/-- The checks of `resolve_secure_extension_asset_path` on the name and the version. -/
def checkAssetTriple (extensionName extensionVersion : String) : Except ExtensionError Unit := do
  ensure (extensionName ≠ "" && extensionName.toList.all fun c => c.isAlphanum || c = '-')
    (.validation ("Invalid extension name: " ++ extensionName))
  ensure (extensionVersion ≠ "" && extensionVersion.toList.all fun c => c.isAlphanum || c = '-' || c = '.')
    (.validation ("Invalid extension version: " ++ extensionVersion))

/-! ## Components -/

theorem components_append_slash (a b : String) : components (a ++ "/" ++ b) = components a ++ components b := by
  have h : (a ++ "/" ++ b).toList = a.toList ++ '/' :: b.toList := by simp
  rw [components, h, List.splitOn_append_cons_self, List.map_append, List.filter_append]
  rfl

theorem components_empty : components "" = [] := by decide +kernel

theorem components_join {path part : String} (h : part.toList.head? ≠ some '/') :
    components (join path part) = components path ++ components part := by
  rw [join, if_neg h]
  split
  · next hend =>
    rcases hend with rfl | hslash
    · rw [components_empty, String.empty_append, List.nil_append]
    · obtain ⟨l, hl⟩ : ∃ l, path.toList = l ++ ['/'] := List.getLast?_eq_some_iff.1 hslash
      have hpath : path = String.ofList l ++ "/" ++ "" := String.toList_inj.1 (by simp [hl])
      have hrest : path ++ part = String.ofList l ++ "/" ++ part := String.toList_inj.1 (by simp [hl])
      rw [hrest, hpath, components_append_slash, components_append_slash, components_empty, List.append_nil]
  · exact components_append_slash path part

theorem plainComponent_iff {s : String} :
    plainComponent s = true ↔ s ≠ "" ∧ s ≠ "." ∧ s ≠ ".." ∧ '/' ∉ s.toList := by
  simp [plainComponent, and_assoc]

theorem components_plain {s : String} (h : plainComponent s = true) : components s = [s] := by
  obtain ⟨hne, hdot, -, hslash⟩ := plainComponent_iff.1 h
  rw [components, List.splitOn_eq_singleton hslash, List.map_singleton, String.ofList_toList]
  simp [hne, hdot]

theorem mem_components {path c : String} (h : c ∈ components path) : c ≠ "" ∧ c ≠ "." ∧ '/' ∉ c.toList := by
  obtain ⟨hmem, hc⟩ := List.mem_filter.1 h
  obtain ⟨part, hpart, rfl⟩ := List.mem_map.1 hmem
  have hname : String.ofList part ≠ "" ∧ String.ofList part ≠ "." := by simpa using hc
  exact ⟨hname.1, hname.2, by rw [String.toList_ofList]; exact not_mem_of_mem_splitOn hpart⟩

theorem mem_foldl_descend {cs dir : List String} {c : String} (h : c ∈ cs.foldl descend dir) :
    c ∈ dir ∨ c ∈ cs ∧ c ≠ ".." := by
  induction cs generalizing dir with
  | nil => exact .inl h
  | cons x cs ih =>
    rcases ih h with h | ⟨h, hup⟩
    · unfold descend at h
      split at h
      · exact .inl (List.dropLast_subset dir h)
      · next hx =>
        rcases List.mem_append.1 h with h | h
        · exact .inl h
        · rw [List.mem_singleton.1 h]
          exact .inr ⟨List.mem_cons_self, hx⟩
    · exact .inr ⟨List.mem_cons_of_mem x h, hup⟩

theorem plain_of_mem_resolve {path c : String} (h : c ∈ resolve path) : plainComponent c = true := by
  rcases mem_foldl_descend h with h | ⟨h, hup⟩
  · exact (List.not_mem_nil h).elim
  · obtain ⟨hne, hdot, hslash⟩ := mem_components h
    exact plainComponent_iff.2 ⟨hne, hdot, hup, hslash⟩

theorem resolve_join_plain {path part : String} (h : plainComponent part = true) :
    resolve (join path part) = resolve path ++ [part] := by
  have hhead : part.toList.head? ≠ some '/' := fun hc => (plainComponent_iff.1 h).2.2.2 (List.mem_of_head? hc)
  have hup : part ≠ ".." := (plainComponent_iff.1 h).2.2.1
  rw [resolve, components_join hhead, components_plain h, List.foldl_append, List.foldl_cons, List.foldl_nil, descend,
    if_neg hup]
  rfl

/-! ## What an installation touches -/

variable {base : String} {m : BundleManifest}

def ownDir (base : String) (m : BundleManifest) : List String := resolve base ++ [m.publicKey, m.name, m.version]

/-- An installation removes and fills the extension's own directory; no other file is removed or written, in particular
none of another extension. -/
structure StaysInOwnDir (base : String) (m : BundleManifest) : Prop where
  dir : resolve (getExtensionDir base m) = ownDir base m
  files : ∀ run disk path, ¬ ownDir base m <+: path → installExtensionFiles base m run disk path = disk path
  others : ∀ m' : BundleManifest, (m'.publicKey, m'.name, m'.version) ≠ (m.publicKey, m.name, m.version) →
    ∀ run disk rest, installExtensionFiles base m run disk (ownDir base m' ++ rest) = disk (ownDir base m' ++ rest)

theorem installExtensionFiles_elsewhere {run : InstallRun} {disk : Disk} {path : List String}
    (h : ¬ resolve (getExtensionDir base m) <+: path) : installExtensionFiles base m run disk path = disk path := by
  have hcopy : ∀ (files : List (List String × List UInt8)) (d : Disk),
      files.foldl (copyFile (resolve (getExtensionDir base m))) d path = d path := by
    intro files
    induction files with
    | nil => intro d; rfl
    | cons file files ih =>
      intro d
      rw [List.foldl_cons, ih, copyFile, Function.update_of_ne]
      rintro rfl
      exact h (List.prefix_append _ _)
  rw [installExtensionFiles, hcopy, removeDirAll, if_neg fun hc => h hc.1]

theorem ownDir_prefix_append {m' : BundleManifest} {rest : List String} (h : ownDir base m <+: ownDir base m' ++ rest) :
    (m'.publicKey, m'.name, m'.version) = (m.publicKey, m.name, m.version) := by
  rw [ownDir, ownDir, List.append_assoc, List.prefix_append_right_inj] at h
  simp only [List.cons_append, List.nil_append, List.cons_prefix_cons] at h
  obtain ⟨hkey, hname, hversion, -⟩ := h
  rw [hkey, hname, hversion]

theorem plain_publicKey {publicKey : String} (h : validatePublicKey publicKey = .ok ()) : plainComponent publicKey = true := by
  have hlen := validatePublicKey_length h
  have hhex : publicKey.toList.all isAsciiHexdigit = true := by
    unfold validatePublicKey at h
    split at h
    · cases h
    · split at h
      · cases h
      · next hall => simpa using hall
  have hne : ∀ s : String, s.toList.length < 64 → publicKey ≠ s := by
    rintro s hs rfl
    omega
  refine plainComponent_iff.2 ⟨hne "" (by decide), hne "." (by decide), hne ".." (by decide), fun hc => ?_⟩
  exact absurd (List.all_eq_true.1 hhex '/' hc) (by decide)

theorem resolve_getExtensionDir (hkey : plainComponent m.publicKey = true) (hname : plainComponent m.name = true)
    (hversion : plainComponent m.version = true) : resolve (getExtensionDir base m) = ownDir base m := by
  rw [getExtensionDir, resolve_join_plain hversion, resolve_join_plain hname, resolve_join_plain hkey, ownDir,
    List.append_assoc, List.append_assoc]
  rfl

/-- An installation stays in its own directory exactly when the name and the version are plain components. -/
theorem install_stays_iff (verifySignature : String → String → String → Except String Unit) (base : String)
    (m : BundleManifest) (contentHash : String) (h : checkBundle verifySignature m contentHash = .ok ()) :
    StaysInOwnDir base m ↔ plainComponent m.name = true ∧ plainComponent m.version = true := by
  constructor
  · intro hstays
    have hmem : ∀ c ∈ ownDir base m, plainComponent c = true := by
      intro c hc
      rw [← hstays.dir] at hc
      exact plain_of_mem_resolve hc
    exact ⟨hmem m.name (by simp [ownDir]), hmem m.version (by simp [ownDir])⟩
  · rintro ⟨hname, hversion⟩
    obtain ⟨⟨⟩, hkey, -⟩ := bind_eq_ok.1 h
    have hdir : resolve (getExtensionDir base m) = ownDir base m :=
      resolve_getExtensionDir (plain_publicKey hkey) hname hversion
    refine ⟨hdir, fun run disk path hpath => ?_, fun m' hne run disk rest => ?_⟩
    · exact installExtensionFiles_elsewhere (by rw [hdir]; exact hpath)
    · refine installExtensionFiles_elsewhere fun hpre => ?_
      rw [hdir] at hpre
      exact hne (ownDir_prefix_append hpre)

/-- A bundle of a developer, its name and version. -/
def bundle (name version : String) : BundleManifest := ⟨⟨someKey, name⟩, version, "00"⟩

def anySignature (_ _ _ : String) : Except String Unit := .ok ()

theorem install_stays_notes :
    checkBundle anySignature (bundle "notes" "1.0.0") "h" = .ok () ∧ StaysInOwnDir "/data/extensions" (bundle "notes" "1.0.0") :=
  ⟨by decide +kernel, (install_stays_iff anySignature "/data/extensions" (bundle "notes" "1.0.0") "h" (by decide +kernel)).2
    (by decide +kernel)⟩

/-- A name that climbs out of the base: the directory above it is removed. -/
theorem install_removes_outside :
    checkBundle anySignature (bundle "../../.." "vault") "h" = .ok () ∧
      ¬ StaysInOwnDir "/data/extensions" (bundle "../../.." "vault") ∧
      resolve (getExtensionDir "/data/extensions" (bundle "../../.." "vault")) = ["vault"] ∧
      resolve (getExtensionDir "/data/extensions" (bundle "notes" "..")) = ["data", "extensions", someKey] := by
  refine ⟨by decide +kernel, fun h => ?_, by decide +kernel, by decide +kernel⟩
  have hmem : "../../.." ∈ resolve (getExtensionDir "/data/extensions" (bundle "../../.." "vault")) := by
    rw [h.dir]
    decide +kernel
  exact absurd (plain_of_mem_resolve hmem) (by decide +kernel)

end HaexVault.Extension
