import Mathlib.Data.String.Basic
import Mathlib.Data.List.Sort
import Mathlib.Data.List.Flatten
import HaexVault.Crdt.Sql
import HaexVault.Lib.Steps
/-!
# The hash of an extension bundle (`extension/crypto.rs`)

The signature of a bundle is over one hash: the contents of its files, sorted by path and joined,
with the signature of the manifest blanked. Neither a path nor the end of a file goes into it
(`hash_covers_iff`).
-/

namespace HaexVault.Extension

open HaexVault.Crdt (JsonNumber)
open HaexVault.Lib.Steps (map_eq_ok mapM_eq_ok)

abbrev Bytes := List UInt8

/-! ## The manifest -/

inductive Value where
  | null
  | bool (b : Bool)
  | number (n : JsonNumber)
  | string (s : String)
  | array (items : List Value)
  | object (members : List (String × Value))

def insertMember (key : String) (value : Value) : List (String × Value) → List (String × Value)
  | [] => [(key, value)]
  | m :: ms =>
    if key = m.1 then (key, value) :: ms
    else if key < m.1 then (key, value) :: m :: ms
    else m :: insertMember key value ms

def blankSignature : Value → Value
  | .object members => .object (insertMember "signature" (.string "") members)
  | v => v

/-- `serde_json`. Distinct manifests print differently, and control characters are escaped. -/
structure SerdeJson where
  fromStr : String → Except String Value
  toStringPretty : Value → String
  toStringPretty_injective : ∀ s s' v v', fromStr s = .ok v → fromStr s' = .ok v' →
    toStringPretty (blankSignature v) = toStringPretty (blankSignature v') → blankSignature v = blankSignature v'
  escapes : ∀ v, '\r' ∉ (toStringPretty v).toList

def replaceCrlf : List Char → List Char
  | '\r' :: '\n' :: s => '\n' :: replaceCrlf s
  | c :: s => c :: replaceCrlf s
  | [] => []

/-- `as_bytes`. -/
def utf8 (s : String) : Bytes := s.toByteArray.data.toList

def readToString (content : Bytes) : Option String := String.fromUTF8? ⟨content.toArray⟩

/-- The `ExtensionError`s of `hash_directory`. -/
inductive HashError where
  | filesystem (source : String)
  | manifest (reason : String)
  deriving DecidableEq

section Manifest
variable (json : SerdeJson)

def readManifest (content : Bytes) : Except HashError Value :=
  match readToString content with
  | none => .error (.filesystem "stream did not contain valid UTF-8")
  | some contentStr => match json.fromStr contentStr with
    | .error e => .error (.manifest ("Cannot parse manifest JSON: " ++ e))
    | .ok manifest => .ok manifest

def canonicalManifest (content : Bytes) : Except HashError Bytes :=
  (readManifest json content).map fun manifest =>
    utf8 (String.ofList (replaceCrlf (json.toStringPretty (blankSignature manifest)).toList))

end Manifest

/-! ## The bundle -/

structure Bundle where
  files : List (String × Bytes)
  sorted : (files.map (·.1)).Pairwise (· < ·)
  manifest : String
  manifest_mem : manifest ∈ files.map (·.1)

/-- The order in which the files of one tree are listed. -/
structure ReadDir where
  iter : List String → List String
  perm : ∀ paths, (iter paths).Perm paths

def relative (path : String) : String :=
  String.ofList (path.toList.map fun c => if c = '\\' then '/' else c)

namespace Bundle

def paths (b : Bundle) : List String := b.files.map (·.1)

def read (b : Bundle) (path : String) : Bytes := (b.files.lookup path).getD []

end Bundle

section Hash
variable (json : SerdeJson) (readDir : ReadDir) (sha256 : Bytes → String)

def sortedFiles (b : Bundle) : List String :=
  (readDir.iter b.paths).insertionSort fun p q => relative p ≤ relative q

def hashedContent (b : Bundle) (path : String) : Except HashError Bytes :=
  if path = b.manifest then canonicalManifest json (b.read path) else .ok (b.read path)

def hashedStream (b : Bundle) : Except HashError Bytes :=
  ((sortedFiles readDir b).mapM (hashedContent json b)).map List.flatten

def hashDirectory (b : Bundle) : Except HashError String := (hashedStream json readDir b).map sha256

end Hash

/-! ## What the hash covers -/

section
variable (json : SerdeJson)

def SameManifest (content content' : Bytes) : Prop :=
  ∃ v v', readManifest json content = .ok v ∧ readManifest json content' = .ok v' ∧
    blankSignature v = blankSignature v'

/-- The same files at the same paths, but for the signature and the formatting of the manifest. -/
structure SameBundle (b b' : Bundle) : Prop where
  manifest : b.manifest = b'.manifest
  paths : b.paths = b'.paths
  contents : ∀ p ∈ b.paths, if p = b.manifest then SameManifest json (b.read p) (b'.read p) else b.read p = b'.read p

structure SameLayout (b b' : Bundle) : Prop where
  manifest : b.manifest = b'.manifest
  paths : b.paths = b'.paths
  lengths : ∀ p ∈ b.paths, ∀ c c', hashedContent json b p = .ok c → hashedContent json b' p = .ok c' →
    c.length = c'.length

end

/-- No two paths become one when backslashes are written as slashes. -/
def Bundle.Unambiguous (b : Bundle) : Prop := ∀ p ∈ b.paths, ∀ q ∈ b.paths, relative p = relative q → p = q

theorem utf8_injective {s t : String} (h : utf8 s = utf8 t) : s = t :=
  String.toByteArray_inj.1 (ByteArray.ext (Array.toList_inj.1 h))

theorem replaceCrlf_eq {s : List Char} (h : '\r' ∉ s) : replaceCrlf s = s := by
  induction s with
  | nil => rfl
  | cons c s ih =>
    have hc : c ≠ '\r' := fun hc => h (hc ▸ List.mem_cons_self)
    rw [replaceCrlf, ih fun hs => h (List.mem_cons_of_mem _ hs)]
    rintro s' rfl -
    exact hc rfl

section
variable {json : SerdeJson} {readDir : ReadDir} {b b' : Bundle}

theorem readManifest_ok {content : Bytes} {v : Value} (h : readManifest json content = .ok v) :
    ∃ s, json.fromStr s = .ok v := by
  unfold readManifest at h
  split at h
  · cases h
  · rename_i s _
    split at h
    · cases h
    · rename_i hs
      exact ⟨s, Except.ok.inj h ▸ hs⟩

theorem sameManifest_iff {content content' c c' : Bytes} (h : canonicalManifest json content = .ok c)
    (h' : canonicalManifest json content' = .ok c') : SameManifest json content content' ↔ c = c' := by
  obtain ⟨v, hv, rfl⟩ := map_eq_ok.1 h
  obtain ⟨v', hv', rfl⟩ := map_eq_ok.1 h'
  have hplain : ∀ v, String.ofList (replaceCrlf (json.toStringPretty v).toList) = json.toStringPretty v := fun v => by
    rw [replaceCrlf_eq (json.escapes v), String.ofList_toList]
  rw [hplain, hplain]
  obtain ⟨t, ht⟩ := readManifest_ok hv
  obtain ⟨t', ht'⟩ := readManifest_ok hv'
  constructor
  · rintro ⟨w, w', hw, hw', he⟩
    obtain rfl := Except.ok.inj (hv.symm.trans hw)
    obtain rfl := Except.ok.inj (hv'.symm.trans hw')
    rw [he]
  · intro he
    exact ⟨v, v', hv, hv', json.toStringPretty_injective t t' v v' ht ht' (utf8_injective he)⟩

theorem mem_sortedFiles (readDir : ReadDir) {p : String} : p ∈ sortedFiles readDir b ↔ p ∈ b.paths := by
  rw [sortedFiles, List.mem_insertionSort]
  exact (readDir.perm b.paths).mem_iff

instance : Std.Total fun p q : String => relative p ≤ relative q := ⟨fun p q => le_total (relative p) (relative q)⟩

instance : IsTrans String fun p q => relative p ≤ relative q := ⟨fun _ _ _ => le_trans⟩

/-- The order of the listings does not matter where the sorting keys differ. -/
theorem sortedFiles_eq (readDir readDir' : ReadDir) (hpaths : b.paths = b'.paths) (h : b.Unambiguous) :
    sortedFiles readDir' b' = sortedFiles readDir b := by
  have hperm : (sortedFiles readDir' b').Perm (sortedFiles readDir b) :=
    ((List.perm_insertionSort _ _).trans (readDir'.perm _)).trans
      (hpaths ▸ ((List.perm_insertionSort _ _).trans (readDir.perm _)).symm)
  have hsorted : ∀ (readDir : ReadDir) (b : Bundle), (sortedFiles readDir b).Pairwise fun p q => relative p ≤ relative q :=
    fun _ _ => List.pairwise_insertionSort (fun p q => relative p ≤ relative q) _
  refine hperm.eq_of_pairwise (fun p q hp hq hpq hqp => ?_) (hsorted readDir' b') (hsorted readDir b)
  exact h p ((mem_sortedFiles readDir).1 (hperm.mem_iff.1 hp)) q ((mem_sortedFiles readDir).1 hq) (le_antisymm hpq hqp)

theorem hashedStream_eq_ok {s : Bytes} : hashedStream json readDir b = .ok s ↔
    ∃ cs : List Bytes, (sortedFiles readDir b).map (hashedContent json b) = cs.map .ok ∧ cs.flatten = s := by
  rw [hashedStream, map_eq_ok]
  simp only [mapM_eq_ok]

theorem same_iff (hm : b.manifest = b'.manifest) {p : String} {c c' : Bytes} (h : hashedContent json b p = .ok c)
    (h' : hashedContent json b' p = .ok c') :
    (if p = b.manifest then SameManifest json (b.read p) (b'.read p) else b.read p = b'.read p) ↔ c = c' := by
  unfold hashedContent at h h'
  rw [← hm] at h'
  split at h
  · rename_i hp
    rw [if_pos hp] at h' ⊢
    exact sameManifest_iff h h'
  · rename_i hp
    rw [if_neg hp] at h' ⊢
    obtain rfl := Except.ok.inj h
    obtain rfl := Except.ok.inj h'
    exact Iff.rfl

def contributed : Except HashError Bytes → Nat
  | .ok c => c.length
  | .error _ => 0

/-- Two bundles with one hash are the same, but for the signature and the formatting of the manifest, exactly when they
have the same paths and every file contributes as many bytes, where no two paths become one. -/
theorem hash_covers_iff (json : SerdeJson) (readDir readDir' : ReadDir) (sha256 : Bytes → String) (b b' : Bundle)
    (hash : String) (hb : hashDirectory json readDir sha256 b = .ok hash)
    (hb' : hashDirectory json readDir' sha256 b' = .ok hash)
    (hcollision : ∀ s s', hashedStream json readDir b = .ok s → hashedStream json readDir' b' = .ok s' →
      sha256 s = sha256 s' → s = s') (hplain : b.Unambiguous) : SameBundle json b b' ↔ SameLayout json b b' := by
  obtain ⟨s, hs, hsha⟩ := map_eq_ok.1 hb
  obtain ⟨s', hs', hsha'⟩ := map_eq_ok.1 hb'
  have hstream := hcollision s s' hs hs' (hsha.trans hsha'.symm)
  obtain ⟨cs, hcs, rfl⟩ := hashedStream_eq_ok.1 hs
  obtain ⟨cs', hcs', rfl⟩ := hashedStream_eq_ok.1 hs'
  constructor
  · intro ⟨hm, hp, hc⟩
    refine ⟨hm, hp, fun p hpath c c' h h' => ?_⟩
    rw [(same_iff hm h h').1 (hc p hpath)]
  · intro ⟨hm, hp, hl⟩
    rw [sortedFiles_eq readDir readDir' hp hplain] at hcs'
    have hread : ∀ p ∈ b.paths, ∃ c c', hashedContent json b p = .ok c ∧ hashedContent json b' p = .ok c' := by
      intro p hpath
      have hmem := (mem_sortedFiles readDir).2 hpath
      have h := List.mem_map_of_mem (f := hashedContent json b) hmem
      have h' := List.mem_map_of_mem (f := hashedContent json b') hmem
      rw [hcs, List.mem_map] at h
      rw [hcs', List.mem_map] at h'
      obtain ⟨c, -, hc⟩ := h
      obtain ⟨c', -, hc'⟩ := h'
      exact ⟨c, c', hc.symm, hc'.symm⟩
    -- equal lengths file by file leave one way to cut the stream up again
    have hlengths : cs.map List.length = cs'.map List.length := by
      calc cs.map List.length = (cs.map Except.ok).map contributed := by rw [List.map_map]; rfl
        _ = (sortedFiles readDir b).map fun p => contributed (hashedContent json b p) := by rw [← hcs, List.map_map]; rfl
        _ = (sortedFiles readDir b).map fun p => contributed (hashedContent json b' p) := by
          refine List.map_congr_left fun p hmem => ?_
          obtain ⟨c, c', h, h'⟩ := hread p ((mem_sortedFiles readDir).1 hmem)
          rw [h, h']
          exact hl p ((mem_sortedFiles readDir).1 hmem) c c' h h'
        _ = (cs'.map Except.ok).map contributed := by rw [← hcs', List.map_map]; rfl
        _ = cs'.map List.length := by rw [List.map_map]; rfl
    have hcs_eq : cs = cs' := List.eq_iff_flatten_eq.2 ⟨hstream, hlengths⟩
    have hcontents := List.map_inj_left.1 (hcs.trans (hcs_eq ▸ hcs'.symm))
    refine ⟨hm, hp, fun p hpath => ?_⟩
    obtain ⟨c, c', h, h'⟩ := hread p hpath
    refine (same_iff hm h h').2 ?_
    have hsame := hcontents p ((mem_sortedFiles readDir).2 hpath)
    rw [h, h'] at hsame
    exact Except.ok.inj hsame

end

/-! ## Two bundles of one hash -/

theorem readToString_utf8 (s : String) : readToString (utf8 s) = some s := by
  have h : (⟨(utf8 s).toArray⟩ : ByteArray) = s.toByteArray := ByteArray.ext (by simp [utf8])
  unfold readToString String.fromUTF8?
  rw [h, dif_pos s.isValidUTF8]
  rfl

/-- `serde_json` on the manifests `{}` and `{"signature":"ab"}`. -/
def sampleJson : SerdeJson where
  fromStr s :=
    if s = "\x7b\x7d" then .ok (.object [])
    else if s = "\x7b\"signature\":\"ab\"\x7d" then .ok (.object [("signature", .string "ab")])
    else .error "expected value at line 1 column 1"
  toStringPretty _ := "\x7b\n  \"signature\": \"\"\n\x7d"
  toStringPretty_injective := by
    intro s s' v v' h h' _
    split at h
    all_goals try split at h
    all_goals cases h
    all_goals split at h'
    all_goals try split at h'
    all_goals cases h'
    all_goals rfl
  escapes := by intro _; decide

def inOrder : ReadDir where
  iter paths := paths
  perm paths := .refl paths

def backwards : ReadDir where
  iter := List.reverse
  perm := List.reverse_perm

def sampleBundle (path manifest : String) (h : path < "manifest.json") : Bundle where
  files := [(path, utf8 "let x = 1;"), ("manifest.json", utf8 manifest)]
  sorted := by simpa using h
  manifest := "manifest.json"
  manifest_mem := by simp

def sampleStream : Bytes := utf8 "let x = 1;" ++ utf8 "\x7b\n  \"signature\": \"\"\n\x7d"

theorem sample_hashed (readDir : ReadDir) (path manifest : String) (h : path < "manifest.json")
    (hsorted : sortedFiles readDir (sampleBundle path manifest h) = [path, "manifest.json"])
    (hm : ∃ v, sampleJson.fromStr manifest = .ok v) :
    hashedStream sampleJson readDir (sampleBundle path manifest h) = .ok sampleStream := by
  obtain ⟨v, hv⟩ := hm
  have hread : readManifest sampleJson (utf8 manifest) = .ok v := by
    unfold readManifest
    rw [readToString_utf8]
    show (match sampleJson.fromStr manifest with | .error e => _ | .ok v => _) = _
    rw [hv]
  have hne : path ≠ (sampleBundle path manifest h).manifest := by
    intro he
    rw [show path = "manifest.json" from he] at h
    exact absurd h (by decide)
  have hbeq : ("manifest.json" == path) = false := beq_eq_false_iff_ne.2 hne.symm
  have hmanifest : hashedContent sampleJson (sampleBundle path manifest h) "manifest.json" =
      .ok (utf8 "\x7b\n  \"signature\": \"\"\n\x7d") := by
    have hlookup : (sampleBundle path manifest h).read "manifest.json" = utf8 manifest := by
      simp [Bundle.read, sampleBundle, List.lookup_cons, hbeq]
    have hpos : "manifest.json" = (sampleBundle path manifest h).manifest := rfl
    rw [hashedContent, if_pos hpos, hlookup, canonicalManifest, hread]
    show Except.ok (utf8 (String.ofList (replaceCrlf _))) = _
    rw [replaceCrlf_eq (sampleJson.escapes _), String.ofList_toList]
    rfl
  refine hashedStream_eq_ok.2 ⟨[utf8 "let x = 1;", utf8 "\x7b\n  \"signature\": \"\"\n\x7d"], ?_, by simp [sampleStream]⟩
  rw [hsorted, List.map_cons, List.map_cons, hmanifest, hashedContent, if_neg hne]
  simp [Bundle.read, sampleBundle]

/-- The same bundle before and after it is signed. -/
theorem hash_covers_signed :
    SameBundle sampleJson (sampleBundle "index.js" "\x7b\x7d" (by decide))
        (sampleBundle "index.js" "\x7b\"signature\":\"ab\"\x7d" (by decide)) ↔
      SameLayout sampleJson (sampleBundle "index.js" "\x7b\x7d" (by decide))
        (sampleBundle "index.js" "\x7b\"signature\":\"ab\"\x7d" (by decide)) := by
  have hs := sample_hashed inOrder "index.js" "\x7b\x7d" (by decide) (by decide +kernel) ⟨_, rfl⟩
  have hs' := sample_hashed backwards "index.js" "\x7b\"signature\":\"ab\"\x7d" (by decide)
    (by decide +kernel) ⟨_, rfl⟩
  refine hash_covers_iff sampleJson inOrder backwards
    (fun s => if s = sampleStream then "6c00c214f25a83ee5f3035ab2019b01b5ed591b444d194290ed2e7969636369a" else "") _ _
    "6c00c214f25a83ee5f3035ab2019b01b5ed591b444d194290ed2e7969636369a" ?_ ?_ ?_ (by unfold Bundle.Unambiguous; decide +kernel)
  · rw [hashDirectory, hs]
    exact congrArg Except.ok (if_pos rfl)
  · rw [hashDirectory, hs']
    exact congrArg Except.ok (if_pos rfl)
  · intro s s' h h' _
    rw [hs] at h
    rw [hs'] at h'
    exact Except.ok.inj (h.symm.trans h')

/-- A script is renamed, and the bundle has the same hash. -/
theorem hash_survives_renaming : ¬ ∀ (json : SerdeJson) (readDir readDir' : ReadDir) (sha256 : Bytes → String),
    Function.Injective sha256 → ∀ (b b' : Bundle) (hash : String), hashDirectory json readDir sha256 b = .ok hash →
      hashDirectory json readDir' sha256 b' = .ok hash → SameBundle json b b' := by
  intro h
  have hs := sample_hashed inOrder "a.js" "\x7b\x7d" (by decide) (by decide +kernel) ⟨_, rfl⟩
  have hs' := sample_hashed inOrder "b.js" "\x7b\x7d" (by decide) (by decide +kernel) ⟨_, rfl⟩
  have hinj : Function.Injective fun s : Bytes => String.ofList (s.map fun x => Char.ofNat x.toNat) := by
    intro s s' he
    have hchars := String.ofList_injective he
    refine List.map_injective_iff.2 (fun x y hxy => ?_) hchars
    have hx : ∀ x : UInt8, (Char.ofNat x.toNat).toNat = x.toNat := fun x => by
      have hlt := x.toNat_lt
      have hvalid : x.toNat.isValidChar := Or.inl (by omega)
      rw [Char.ofNat, dif_pos hvalid]
      rfl
    exact UInt8.toNat_inj.1 (by rw [← hx x, ← hx y, hxy])
  have hsame := (h sampleJson inOrder inOrder _ hinj _ _ _ (by rw [hashDirectory, hs]; rfl) (by rw [hashDirectory, hs']; rfl)).paths
  exact absurd hsame (by decide +kernel)

end HaexVault.Extension
