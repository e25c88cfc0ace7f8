import HaexVault.Extension.InstallDir
import HaexVault.FileSync.LocalProvider
/-!
# Requests for the assets of an extension (`extension/core/protocol.rs`)

`extensionProtocolHandler` finds the extension that a request is for in one of several formats, or
takes the last one that any request was for. What the asset path leads to has to be there, or the
request fails before the fallback to `index.html` is reached.
-/

namespace HaexVault.Extension.Assets

open HaexVault.Lib HaexVault.Lib.FileTree HaexVault.Lib.Steps
open HaexVault.FileSync (comps)

/-! ## Requests and answers -/

structure ExtensionInfo where
  publicKey : String
  name : String
  version : String
  deriving DecidableEq

structure Uri where
  scheme : Option String := none
  host : Option String := none
  path : String
  query : Option String := none

def Uri.text (uri : Uri) : String :=
  (uri.scheme.map (· ++ "://")).getD "" ++ uri.host.getD "" ++ uri.path ++ (uri.query.map ("?" ++ ·)).getD ""

/-- A header whose value is no text is none. -/
structure Request where
  method : String
  uri : Uri
  origin : Option String := none
  referer : Option String := none

inductive Body where
  | text (s : String)
  | content (bytes : List UInt8)
  deriving DecidableEq

structure Response where
  status : Nat
  headers : List (String × String) := []
  body : Body := .content []
  deriving DecidableEq

/-- What comes out of the handler as an error; the caller of the handler answers with status 500. -/
inductive ProtocolError where
  | invalidRequest (reason : String)
  | extension (e : ExtensionError)
  | notFound (publicKey name : String)
  | securityViolation (reason : String)
  | filesystem (source : IoError)
  deriving DecidableEq

inductive ReadError where
  | notFound | permissionDenied | other

structure Crates where
  base64 : String → Except String (List UInt8)
  utf8 : List UInt8 → Except String String
  hex : String → Except String (List UInt8)
  json : String → Except String ExtensionInfo
  mimeType : Loc → String

structure Vault where
  tauriOrigin : String
  installed : List BundleManifest
  /-- `get_base_extension_dir`. -/
  extensionsDir : Except IoError String
  tree : FileTree
  read : Loc → Except ReadError (List UInt8)

variable (crates : Crates) (v : Vault)

/-! ## The extension of a request -/

def segments (path : String) : List String := ((path.toList.splitOn '/').map String.ofList).filter (· ≠ "")

def joinSegments (ss : List String) : String := String.intercalate "/" ss

def afterScheme : List Char → Option (List Char)
  | [] => none
  | ':' :: '/' :: '/' :: rest => some rest
  | _ :: rest => afterScheme rest

/-- `parse_hex_from_url_string` and `validate_and_return_hex`. -/
def parseHexFromUrlString (url : String) : Option String :=
  match afterScheme url.toList with
  | none => none
  | some rest =>
    match segments (String.ofList (rest.dropWhile (· ≠ '/'))) with
    | [] => none
    | first :: _ =>
      if first.utf8ByteSize % 2 = 0 ∧ first.toList.all fun c => c.isDigit || ('a' ≤ c && c ≤ 'f') || ('A' ≤ c && c ≤ 'F')
      then some first else none

def processHexEncodedJson (hexInput : String) : Option ExtensionInfo :=
  ((crates.hex hexInput).bind fun bytes => (crates.utf8 bytes).bind crates.json).toOption

def hexInfo (url : String) : Option ExtensionInfo := (parseHexFromUrlString url).bind (processHexEncodedJson crates)

/-- An extension in base64; the error is the text of the answer. -/
def base64Info (place text : String) : Except String ExtensionInfo :=
  match crates.base64 text with
  | .error e => .error ("Invalid base64 in " ++ place ++ ": " ++ e)
  | .ok bytes => match crates.utf8 bytes with
    | .error e => .error ("Invalid UTF-8 in base64 " ++ place ++ ": " ++ e)
    | .ok json => match crates.json json with
      | .error e => .error ("Invalid extension info in base64 " ++ place ++ ": " ++ e)
      | .ok info => .ok info

namespace Request

variable (r : Request)

def originText : String := r.origin.getD ""
def refererText : String := r.referer.getD ""
def hostText : String := r.uri.host.getD ""

/-- The extension and the asset that the host or the path names: in base64 as the first part of the path or as the host, or as
the first three parts of the path. -/
def named : Option (Except String (ExtensionInfo × List String)) :=
  if r.hostText = "localhost" ∨ r.hostText = "haex-extension.localhost" then
    match segments r.uri.path with
    | [] => some (.error "No base64 segment found in path")
    | first :: rest => some ((base64Info crates "path" first).map (·, rest))
  else if r.hostText ≠ "" then some ((base64Info crates "host" r.hostText).map (·, segments r.uri.path))
  else match segments r.uri.path with
    | publicKey :: name :: version :: rest => some (.ok (⟨publicKey, name, version⟩, rest))
    | _ => none

def headerInfo (text : String) : Option ExtensionInfo := if text ≠ "" ∧ text ≠ "null" then hexInfo crates text else none

def encodedInfo : Option ExtensionInfo :=
  match headerInfo crates r.originText with
  | some info => some info
  | none => match hexInfo crates r.uri.text with
    | some info => some info
    | none => headerInfo crates r.refererText

/-- The extension and the asset that a request is for; the cache holds the one that the last request was for. -/
def target (cache : Option ExtensionInfo) : Option (Except String (ExtensionInfo × List String)) :=
  match r.named crates with
  | some found => some found
  | none => ((r.encodedInfo crates).or cache).map fun info => .ok (info, (segments r.uri.path).drop 1)

/-- The origin that an answer allows, where the origin of the request is not refused. -/
def allowedOrigin : Option String :=
  if startsWith r.originText "haex-extension://" ∨ r.originText = v.tauriOrigin then some r.originText
  else if r.originText = "" ∨ r.originText = "null" then some "*"
  else none

end Request

/-! ## Assets -/

def cleanRelativePath (requestedAssetPath : String) : List String :=
  (((requestedAssetPath.toList.map fun c => if c = '\\' then '/' else c).splitOn '/').map String.ofList).filter
    fun part => part ≠ "" ∧ part ≠ "." ∧ part ≠ ".."

/-- `raw_asset_path`, or the page. -/
def assetToLoad (rest : List String) : String := if joinSegments rest = "" then "index.html" else joinSegments rest

namespace Vault

def verifyExtensionInstalled (info : ExtensionInfo) : Except ProtocolError Unit :=
  match v.installed.find? fun m => m.publicKey = info.publicKey ∧ m.name = info.name with
  | none => .error (.notFound info.publicKey info.name)
  | some m => ensure (m.version = info.version) (.extension (.validation ("Version mismatch for extension " ++
      info.publicKey ++ "::" ++ info.name ++ ": installed " ++ m.version ++ ", requested " ++ info.version)))

def extensionDir (info : ExtensionInfo) : Except IoError (List Comp) :=
  v.extensionsDir.map fun base =>
    comps (getExtensionDir base { publicKey := info.publicKey, name := info.name, version := info.version })

def resolveSecureExtensionAssetPath (info : ExtensionInfo) (requestedAssetPath : String) : Except ProtocolError Loc := do
  (checkAssetTriple info.name info.version).mapError .extension
  v.verifyExtensionInstalled info
  let specificExtensionDir ← (v.extensionDir info).mapError .filesystem
  ensure (cleanRelativePath requestedAssetPath ≠ [] || requestedAssetPath = "/")
    (.extension (.validation "Empty or invalid asset path"))
  let canonicalPath ← (v.tree.canonicalize (specificExtensionDir ++ (cleanRelativePath requestedAssetPath).map .name)).mapError
    fun _ => .securityViolation ("Asset path could not be canonicalized: " ++ requestedAssetPath)
  let canonicalBase ← (v.tree.canonicalize specificExtensionDir).mapError .filesystem
  ensure (canonicalBase.isPrefixOf canonicalPath) (.securityViolation ("Path traversal attempt: " ++ requestedAssetPath))
  return canonicalPath

end Vault

/-! ## The handler -/

def corsHeaders (allowedOrigin : String) : List (String × String) :=
  [("Access-Control-Allow-Origin", allowedOrigin), ("Access-Control-Allow-Methods", "GET, POST, OPTIONS"),
    ("Access-Control-Allow-Headers", "*")]

def forbidden : Response := { status := 403, body := .text "Origin not allowed" }

def preflight (allowedOrigin : String) : Response :=
  { status := 200, headers := corsHeaders allowedOrigin ++ [("Access-Control-Allow-Credentials", "true")] }

def badRequest (allowedOrigin text : String) : Response :=
  { status := 400, headers := [("Access-Control-Allow-Origin", allowedOrigin)], body := .text text }

def served (allowedOrigin mimeType : String) (content : List UInt8) : Response :=
  { status := 200
    headers := [("Content-Type", mimeType), ("Content-Length", toString content.length), ("Accept-Ranges", "bytes")] ++
      corsHeaders allowedOrigin ++ [("Access-Control-Allow-Credentials", "true")]
    body := .content content }

def failed (allowedOrigin : String) (status : Nat) : Response := { status, headers := corsHeaders allowedOrigin }

def ReadError.status : ReadError → Nat
  | .notFound => 404
  | .permissionDenied => 403
  | .other => 500

/-- An asset that is no file: the page, for routing in the client. -/
def indexFallback (allowedOrigin : String) (info : ExtensionInfo) (asset : String) : Except ProtocolError Response :=
  if asset = "index.html" then .ok (failed allowedOrigin 404)
  else do
    let indexPath ← v.resolveSecureExtensionAssetPath info "index.html"
    if v.tree.node indexPath = some .file then
      match v.read indexPath with
      | .ok content => return served allowedOrigin "text/html" content
      | .error _ => return failed allowedOrigin 404
    else return failed allowedOrigin 404

def loadAsset (allowedOrigin : String) (info : ExtensionInfo) (asset : String) : Except ProtocolError Response := do
  let path ← v.resolveSecureExtensionAssetPath info asset
  if v.tree.node path = some .file then
    match v.read path with
    | .ok content => return served allowedOrigin (crates.mimeType path) content
    | .error e => return failed allowedOrigin e.status
  else indexFallback v allowedOrigin info asset

/-- `extension_protocol_handler`: the answer. -/
def extensionProtocolHandler (cache : Option ExtensionInfo) (r : Request) : Except ProtocolError Response :=
  match r.allowedOrigin v with
  | none => .ok forbidden
  | some allowedOrigin =>
    if r.method = "OPTIONS" then .ok (preflight allowedOrigin)
    else match r.target crates cache with
      | none => .error (.invalidRequest
          "Ungültige Anfrage: Datenverarbeitungsfehler: Kein gültiger Hex in Origin, URI, Referer oder Cache gefunden")
      | some (.error text) => .ok (badRequest allowedOrigin text)
      | some (.ok (info, rest)) => loadAsset crates v allowedOrigin info (assetToLoad rest)

/-- `EXTENSION_CACHE` after the request. -/
def cacheAfter (cache : Option ExtensionInfo) (r : Request) : Option ExtensionInfo :=
  if (r.allowedOrigin v).isNone ∨ r.method = "OPTIONS" then cache
  else match r.target crates cache with
    | some (.ok (info, _)) => some info
    | _ => cache

def answerAfter (history : List Request) (r : Request) : Except ProtocolError Response :=
  extensionProtocolHandler crates v (history.foldl (cacheAfter crates v) none) r

/-! ## What an answer depends on -/

/-- The host or the path names the extension and the asset; in hex the path does only where no origin comes before it. -/
def Request.Names (r : Request) (info : ExtensionInfo) (rest : List String) : Prop :=
  r.named crates = some (.ok (info, rest)) ∨
    r.named crates = none ∧ Request.headerInfo crates r.originText = none ∧ hexInfo crates r.uri.text = some info ∧
      rest = (segments r.uri.path).drop 1

namespace Vault

def Installed (info : ExtensionInfo) : Prop := v.verifyExtensionInstalled info = .ok ()

def Leads (info : ExtensionInfo) (asset : String) (loc : Loc) : Prop :=
  (cleanRelativePath asset ≠ [] ∨ asset = "/") ∧ ∃ dir base, v.extensionDir info = .ok dir ∧ v.tree.canonicalize dir = .ok base ∧
    v.tree.canonicalize (dir ++ (cleanRelativePath asset).map .name) = .ok loc ∧ base <+: loc

def NamesFile (info : ExtensionInfo) (asset : String) : Prop := ∃ loc, v.Leads info asset loc ∧ v.tree.node loc = some .file

/-- The page of the extension when it has one, else status 404. -/
structure Routes (info : ExtensionInfo) (answer : Except ProtocolError Response) : Prop where
  page : ∀ loc, v.Leads info "index.html" loc → v.tree.node loc = some .file → ∃ content response,
    v.read loc = .ok content ∧ answer = .ok response ∧ response.status = 200 ∧ response.body = .content content
  missing : ¬v.NamesFile info "index.html" → ∃ response, answer = .ok response ∧ response.status = 404

/-- The asset path leads to something of the extension, and so does `index.html`, which can be read if it is a file. -/
def Resolves (info : ExtensionInfo) (asset : String) : Prop :=
  checkAssetTriple info.name info.version = .ok () ∧ (∃ loc, v.Leads info asset loc) ∧
    ∃ index, v.Leads info "index.html" index ∧ (v.tree.node index = some .file → ∃ content, v.read index = .ok content)

end Vault

/-- The answer does not depend on the requests before, and one for what is no file is routed. -/
structure AnswersAlone (r : Request) : Prop where
  determined : ∀ history history', answerAfter crates v history r = answerAfter crates v history' r
  routed : ∀ history info rest, r.Names crates info rest → v.Installed info → ¬v.NamesFile info (assetToLoad rest) →
    v.Routes info (answerAfter crates v history r)

/-- The request names its extension in some format, unless its origin is refused; and an asset of it that is no file is a
directory beside the page. -/
structure NamesPlace (r : Request) : Prop where
  named : r.allowedOrigin v = none ∨ r.named crates ≠ none ∨ r.encodedInfo crates ≠ none
  resolves : ∀ info rest, r.Names crates info rest → v.Installed info → ¬v.NamesFile info (assetToLoad rest) →
    r.allowedOrigin v ≠ none ∧ v.Resolves info (assetToLoad rest)

/-! ## Paths -/

section
variable {crates v} {r : Request} {info : ExtensionInfo} {asset : String} {rest : List String} {loc loc' : Loc}

theorem Vault.Leads.unique (h : v.Leads info asset loc) (h' : v.Leads info asset loc') : loc = loc' := by
  obtain ⟨-, dir, base, hdir, hbase, hloc, -⟩ := h
  obtain ⟨-, dir', base', hdir', hbase', hloc', -⟩ := h'
  obtain rfl := Except.ok.inj (hdir.symm.trans hdir')
  exact Except.ok.inj (hloc.symm.trans hloc')

theorem resolve_ok_iff : v.resolveSecureExtensionAssetPath info asset = .ok loc ↔
    checkAssetTriple info.name info.version = .ok () ∧ v.Installed info ∧ v.Leads info asset loc := by
  unfold Vault.resolveSecureExtensionAssetPath Vault.Installed Vault.Leads
  simp only [bind_eq_ok, mapError_eq_ok, ensure_ok, Bool.or_eq_true, decide_eq_true_eq, List.isPrefixOf_iff_prefix]
  constructor
  · rintro ⟨_, htriple, _, hinstalled, dir, hdir, _, hclean, path, hpath, base, hbase, _, hpre, hreturn⟩
    cases hreturn
    exact ⟨htriple, hinstalled, hclean, dir, base, hdir, hbase, hpath, hpre⟩
  · rintro ⟨htriple, hinstalled, hclean, dir, base, hdir, hbase, hpath, hpre⟩
    exact ⟨(), htriple, (), hinstalled, dir, hdir, (), hclean, loc, hpath, base, hbase, (), hpre, rfl⟩

theorem not_leads_of_error {e : ProtocolError} (h : v.resolveSecureExtensionAssetPath info asset = .error e)
    (hinstalled : v.Installed info) (htriple : checkAssetTriple info.name info.version = .ok ()) : ¬v.Leads info asset loc := by
  intro hleads
  cases h.symm.trans (resolve_ok_iff.2 ⟨htriple, hinstalled, hleads⟩)

/-! ## Routes -/

theorem not_routes_error (e : ProtocolError) : ¬v.Routes info (.error e) := by
  intro h
  by_cases hindex : v.NamesFile info "index.html"
  · obtain ⟨loc, hleads, hfile⟩ := hindex
    obtain ⟨content, response, -, hanswer, -⟩ := h.page loc hleads hfile
    cases hanswer
  · obtain ⟨response, hanswer, -⟩ := h.missing hindex
    cases hanswer

theorem not_routes_forbidden : ¬v.Routes info (.ok forbidden) := by
  intro h
  by_cases hindex : v.NamesFile info "index.html"
  · obtain ⟨loc, hleads, hfile⟩ := hindex
    obtain ⟨content, response, -, hanswer, hstatus, -⟩ := h.page loc hleads hfile
    cases hanswer
    cases hstatus
  · obtain ⟨response, hanswer, hstatus⟩ := h.missing hindex
    cases hanswer
    cases hstatus

theorem routes_notFound_iff (allowedOrigin : String) :
    v.Routes info (.ok (failed allowedOrigin 404)) ↔ ¬v.NamesFile info "index.html" := by
  constructor
  · rintro h ⟨loc, hleads, hfile⟩
    obtain ⟨content, response, -, hanswer, hstatus, -⟩ := h.page loc hleads hfile
    cases hanswer
    cases hstatus
  · exact fun h => ⟨fun loc hleads hfile => absurd ⟨loc, hleads, hfile⟩ h, fun _ => ⟨_, rfl, rfl⟩⟩

theorem indexFallback_routes_iff (allowedOrigin : String) (hinstalled : v.Installed info)
    (htriple : checkAssetTriple info.name info.version = .ok ()) (hleads : v.Leads info asset loc)
    (hfile : v.tree.node loc ≠ some .file) : v.Routes info (indexFallback v allowedOrigin info asset) ↔
      ∃ index, v.Leads info "index.html" index ∧ (v.tree.node index = some .file → ∃ content, v.read index = .ok content) := by
  unfold indexFallback
  split
  · rename_i hasset
    subst hasset
    rw [routes_notFound_iff]
    refine iff_of_true ?_ ⟨loc, hleads, fun h => absurd h hfile⟩
    rintro ⟨loc', hleads', hfile'⟩
    rw [hleads'.unique hleads] at hfile'
    exact hfile hfile'
  · cases hindex : v.resolveSecureExtensionAssetPath info "index.html" with
    | error e =>
      refine iff_of_false (not_routes_error e) ?_
      rintro ⟨index, hleads', -⟩
      exact not_leads_of_error hindex hinstalled htriple hleads'
    | ok index =>
      obtain ⟨-, -, hleads'⟩ := resolve_ok_iff.1 hindex
      have hunique : ∀ {P : Loc → Prop}, (∃ index, v.Leads info "index.html" index ∧ P index) ↔ P index := fun {P} =>
        ⟨fun ⟨index', h, hP⟩ => h.unique hleads' ▸ hP, fun hP => ⟨index, hleads', hP⟩⟩
      rw [hunique]
      change v.Routes info (if _ then _ else _) ↔ _
      split
      · rename_i hnode
        cases hread : v.read index with
        | error e =>
          refine iff_of_false (fun h => (routes_notFound_iff allowedOrigin).1 h ⟨index, hleads', hnode⟩) fun h => ?_
          obtain ⟨content, hcontent⟩ := h hnode
          cases hcontent
        | ok content =>
          refine iff_of_true ⟨fun loc' h _ => ?_, fun h => absurd ⟨index, hleads', hnode⟩ h⟩ fun _ => ⟨content, rfl⟩
          rw [h.unique hleads']
          exact ⟨content, _, hread, rfl, rfl, rfl⟩
      · rename_i hnode
        refine iff_of_true ((routes_notFound_iff allowedOrigin).2 ?_) fun h => absurd h hnode
        rintro ⟨loc', h, hnode'⟩
        rw [h.unique hleads'] at hnode'
        exact hnode hnode'

theorem loadAsset_routes_iff (allowedOrigin : String) (hinstalled : v.Installed info) (hfile : ¬v.NamesFile info asset) :
    v.Routes info (loadAsset crates v allowedOrigin info asset) ↔ v.Resolves info asset := by
  unfold loadAsset Vault.Resolves
  cases hresolve : v.resolveSecureExtensionAssetPath info asset with
  | error e =>
    refine iff_of_false (not_routes_error e) ?_
    rintro ⟨htriple, ⟨loc, hleads⟩, -⟩
    exact not_leads_of_error hresolve hinstalled htriple hleads
  | ok loc =>
    obtain ⟨htriple, -, hleads⟩ := resolve_ok_iff.1 hresolve
    have hnode : v.tree.node loc ≠ some .file := fun h => hfile ⟨loc, hleads, h⟩
    change v.Routes info (if _ then _ else _) ↔ _
    rw [if_neg hnode, indexFallback_routes_iff allowedOrigin hinstalled htriple hleads hnode]
    exact ⟨fun h => ⟨htriple, ⟨loc, hleads⟩, h⟩, fun h => h.2.2⟩

/-! ## The cache -/

theorem target_of_named (h : r.named crates ≠ none ∨ r.encodedInfo crates ≠ none) (cache cache' : Option ExtensionInfo) :
    r.target crates cache = r.target crates cache' := by
  unfold Request.target
  cases hnamed : r.named crates with
  | some found => rfl
  | none =>
    obtain ⟨info, hinfo⟩ := Option.ne_none_iff_exists'.1 (h.resolve_left (· hnamed))
    rw [hinfo]
    rfl

theorem target_of_names (h : r.Names crates info rest) (cache : Option ExtensionInfo) :
    r.target crates cache = some (.ok (info, rest)) := by
  unfold Request.target
  rcases h with h | ⟨h, horigin, huri, rfl⟩
  · rw [h]
  · rw [h, Request.encodedInfo, horigin, huri]
    rfl

/-! ## Errors -/

variable {α β : Type} {e : ProtocolError} {x : Except ProtocolError α} {f : α → Except ProtocolError β} {reason : String}

theorem bind_ne_error (hx : x ≠ .error e) (hf : ∀ a, f a ≠ .error e) : x >>= f ≠ .error e := by
  cases x with
  | error e' => exact fun h => hx (congrArg Except.error (Except.error.inj h))
  | ok a => exact hf a

theorem mapError_ne_error {ε : Type} {x : Except ε α} {g : ε → ProtocolError} (hg : ∀ e', g e' ≠ e) :
    x.mapError g ≠ .error e := by
  cases x with
  | error e' => exact fun h => hg e' (Except.error.inj h)
  | ok a => exact fun h => by cases h

theorem ensure_ne_error {b : Bool} {e' : ProtocolError} (he : e' ≠ e) : ensure b e' ≠ .error e := by
  cases b with
  | false => exact fun h => he (Except.error.inj h)
  | true => exact fun h => by cases h

theorem verify_ne_invalid : v.verifyExtensionInstalled info ≠ .error (.invalidRequest reason) := by
  unfold Vault.verifyExtensionInstalled
  split
  · exact fun h => by cases h
  · exact ensure_ne_error fun h => by cases h

theorem resolve_ne_invalid : v.resolveSecureExtensionAssetPath info asset ≠ .error (.invalidRequest reason) := by
  refine bind_ne_error (mapError_ne_error fun _ h => by cases h) fun _ => ?_
  refine bind_ne_error verify_ne_invalid fun _ => ?_
  refine bind_ne_error (mapError_ne_error fun _ h => by cases h) fun _ => ?_
  refine bind_ne_error (ensure_ne_error fun h => by cases h) fun _ => ?_
  refine bind_ne_error (mapError_ne_error fun _ h => by cases h) fun _ => ?_
  refine bind_ne_error (mapError_ne_error fun _ h => by cases h) fun _ => ?_
  exact bind_ne_error (ensure_ne_error fun h => by cases h) fun _ h => by cases h

theorem loadAsset_ne_invalid (allowedOrigin : String) :
    loadAsset crates v allowedOrigin info asset ≠ .error (.invalidRequest reason) := by
  refine bind_ne_error resolve_ne_invalid fun path => ?_
  split
  · split <;> exact fun h => by cases h
  · unfold indexFallback
    split
    · exact fun h => by cases h
    · refine bind_ne_error resolve_ne_invalid fun index => ?_
      split
      · split <;> exact fun h => by cases h
      · exact fun h => by cases h

def pathRequest : Request := { method := "GET", uri := { path := "/a/b/c" } }

theorem named_pathRequest : pathRequest.named crates = some (.ok (⟨"a", "b", "c"⟩, [])) := by
  have hsegments : segments pathRequest.uri.path = ["a", "b", "c"] := by decide +kernel
  rw [Request.named, if_neg (by decide), if_neg (by decide), hsegments]

theorem cacheAfter_pathRequest : cacheAfter crates v none pathRequest = some ⟨"a", "b", "c"⟩ := by
  have hallowed : (pathRequest.allowedOrigin v).isNone = false := by
    unfold Request.allowedOrigin
    split
    · rfl
    · rw [if_pos (.inl rfl)]
      rfl
  rw [cacheAfter, hallowed, if_neg (by decide), Request.target, named_pathRequest]

theorem determined_iff (hget : r.method = "GET") :
    (∀ history history', answerAfter crates v history r = answerAfter crates v history' r) ↔
      r.allowedOrigin v = none ∨ r.named crates ≠ none ∨ r.encodedInfo crates ≠ none := by
  have hmethod : r.method ≠ "OPTIONS" := by simp [hget]
  constructor
  · intro h
    by_contra hno
    obtain ⟨horigin, hnamed, hencoded⟩ : r.allowedOrigin v ≠ none ∧ r.named crates = none ∧ r.encodedInfo crates = none := by
      simpa only [not_or, not_not] using hno
    obtain ⟨allowedOrigin, hallowed⟩ := Option.ne_none_iff_exists'.1 horigin
    have hsame := h [pathRequest] []
    unfold answerAfter at hsame
    rw [List.foldl_cons, cacheAfter_pathRequest] at hsame
    simp only [List.foldl_nil, extensionProtocolHandler, hallowed, if_neg hmethod, Request.target, hnamed, hencoded,
      Option.none_or, Option.map_some, Option.map_none] at hsame
    exact loadAsset_ne_invalid _ hsame
  · intro h history history'
    unfold answerAfter extensionProtocolHandler
    rcases h with h | h
    · rw [h]
    · rw [target_of_named h (history.foldl (cacheAfter crates v) none) (history'.foldl (cacheAfter crates v) none)]

theorem routes_iff (hget : r.method = "GET") (hnames : r.Names crates info rest) (hinstalled : v.Installed info)
    (hfile : ¬v.NamesFile info (assetToLoad rest)) (history : List Request) :
    v.Routes info (answerAfter crates v history r) ↔ r.allowedOrigin v ≠ none ∧ v.Resolves info (assetToLoad rest) := by
  have hmethod : r.method ≠ "OPTIONS" := by simp [hget]
  unfold answerAfter extensionProtocolHandler
  rw [target_of_names hnames]
  cases hallowed : r.allowedOrigin v with
  | none => exact iff_of_false not_routes_forbidden fun h => h.1 rfl
  | some allowedOrigin =>
    dsimp only
    rw [if_neg hmethod, loadAsset_routes_iff allowedOrigin hinstalled hfile]
    exact (and_iff_right (Option.some_ne_none _)).symm

/-- A GET request is answered by itself, and with the page or status 404 for what is no file, exactly where it names its extension
or is refused, and what is no file is a directory of the extension whose page is there too. -/
theorem asset_answers_iff (crates : Crates) (v : Vault) (r : Request) (hget : r.method = "GET") :
    AnswersAlone crates v r ↔ NamesPlace crates v r := by
  constructor
  · intro h
    exact ⟨(determined_iff hget).1 h.determined, fun info rest hnames hinstalled hfile =>
      (routes_iff hget hnames hinstalled hfile []).1 (h.routed [] info rest hnames hinstalled hfile)⟩
  · intro h
    exact ⟨(determined_iff hget).2 h.named, fun history info rest hnames hinstalled hfile =>
      (routes_iff hget hnames hinstalled hfile history).2 (h.resolves info rest hnames hinstalled hfile)⟩

end

/-! ## A route of a client -/

def noCrates : Crates where
  base64 _ := .error "Invalid byte"
  utf8 _ := .error "invalid utf-8 sequence"
  hex _ := .error "Invalid character"
  json _ := .error "expected value"
  mimeType _ := "application/octet-stream"

/-- One extension, with a page and a directory. -/
def notesVault : Vault where
  tauriOrigin := "tauri://localhost"
  installed := [{ publicKey := "pk", name := "notes", version := "1.0.0" }]
  extensionsDir := .ok "/ext"
  tree := ((((((FileTree.empty 40).put [] "ext" .dir).put ["ext"] "pk" .dir).put ["ext", "pk"] "notes" .dir).put
    ["ext", "pk", "notes"] "1.0.0" .dir).put ["ext", "pk", "notes", "1.0.0"] "index.html" .file).put
    ["ext", "pk", "notes", "1.0.0"] "assets" .dir
  read _ := .ok "<!doctype html>".toUTF8.toList

def routeRequest (route : String) : Request := { method := "GET", uri := { path := "/pk/notes/1.0.0/" ++ route } }

theorem asset_answers_directory :
    AnswersAlone noCrates notesVault (routeRequest "assets") ↔ NamesPlace noCrates notesVault (routeRequest "assets") :=
  asset_answers_iff noCrates notesVault (routeRequest "assets") rfl

/-- A route of the client that is no file and no directory is refused, although the extension has a page. -/
theorem client_route_refused : ¬AnswersAlone noCrates notesVault (routeRequest "settings") := by
  intro h
  have hnamed : (routeRequest "settings").named noCrates = some (.ok (⟨"pk", "notes", "1.0.0"⟩, ["settings"])) := by
    decide +kernel
  have hpage : notesVault.Leads ⟨"pk", "notes", "1.0.0"⟩ "index.html" ["ext", "pk", "notes", "1.0.0", "index.html"] :=
    ⟨by decide +kernel, comps "/ext/pk/notes/1.0.0", ["ext", "pk", "notes", "1.0.0"], by decide +kernel, by decide +kernel,
      by decide +kernel, by decide⟩
  have hmissing : ¬notesVault.NamesFile ⟨"pk", "notes", "1.0.0"⟩ "settings" := by
    rintro ⟨loc, ⟨-, dir, base, hdir, -, hloc, -⟩, -⟩
    obtain rfl := Except.ok.inj hdir
    have hnone : notesVault.tree.canonicalize (comps "/ext/pk/notes/1.0.0" ++ [.name "settings"]) = .error .notFound := by
      decide +kernel
    cases hnone.symm.trans hloc
  have hroutes := h.routed [] ⟨"pk", "notes", "1.0.0"⟩ ["settings"] (.inl hnamed) rfl hmissing
  obtain ⟨content, response, -, hanswer, -⟩ := hroutes.page _ hpage (by decide +kernel)
  have hrefused : answerAfter noCrates notesVault [] (routeRequest "settings") =
      .error (.securityViolation "Asset path could not be canonicalized: settings") := by decide +kernel
  cases hrefused.symm.trans hanswer

end HaexVault.Extension.Assets
