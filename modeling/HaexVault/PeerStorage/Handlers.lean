import HaexVault.Space.Ucan
/-!
# Peer storage (`peer_storage/handlers.rs`, `helpers.rs`, `protocol.rs`)

Every request carries a UCAN. `handleStream` validates it, narrows the peer's spaces to the ones it
lists, and asks for the capability in the space of the folder the path names. What is left is a path
in a shared folder (`Served`). Folders of Android content URIs are refused, as they are on a desktop.
-/

namespace HaexVault.PeerStorage

open HaexVault.Lib HaexVault.Lib.Steps
open HaexVault.Space (Crates CapabilityLevel ValidatedUcan okOr okOr_eq_ok requireAudience requireAudience_ok
  requireCapability requireCapability_ok validateToken)

/-! ## Paths (`filesystem/path_validation.rs`) -/

def components (path : String) : List String :=
  ((path.toList.splitOn '/').map String.ofList).filter fun c => c ≠ "" && c ≠ "."

def rejectPathTraversal (path : String) : Except String Unit := do
  ensure (Char.ofNat 0 ∉ path.toList) ("Path contains null byte: " ++ path)
  ensure (path.toList.head? ≠ some '/') ("Path must be relative: " ++ path)
  ensure (".." ∉ components path) ("Path traversal denied: " ++ path)

def checkRelativePath (path : String) : Except String Unit := do
  ensure (path ≠ "") "Path must not be empty"
  rejectPathTraversal path

theorem rejectPathTraversal_of_check {path : String} (h : checkRelativePath path = .ok ()) :
    rejectPathTraversal path = .ok () := by
  obtain ⟨-, -, h⟩ := bind_eq_ok.1 h
  exact h

/-! ## Shares -/

structure SharedFolder where
  name : String
  /-- A path, or the JSON of an Android content URI. -/
  localPath : String
  spaceId : String
  deriving DecidableEq

/-- The shares by id, in the order the map is visited. -/
structure Shares where
  entries : List (String × SharedFolder)
  ids : (entries.map (·.1)).Nodup

def Shares.get (shares : Shares) (id : String) : Option SharedFolder :=
  (Keyed.get (·.1) shares.entries id).map (·.2)

def isContentUri (path : String) : Bool := path.toList.head? = some '\x7b'

def filterShares (shares : Shares) (allowedSpaces : List String) : List (String × SharedFolder) :=
  shares.entries.filter fun e => e.2.spaceId ∈ allowedSpaces

def splitPath (path : String) : String × String :=
  let trimmed := path.toList.dropWhile (· = '/')
  (String.ofList (trimmed.takeWhile (· ≠ '/')), String.ofList ((trimmed.dropWhile (· ≠ '/')).drop 1))

def findShareAndSubpath (shares : Shares) (allowedSpaces : List String) (path : String) :
    Except String (SharedFolder × String) := do
  let shareName := (splitPath path).1
  let share ← okOr ("Share not found: " ++ shareName)
    (((shares.entries.map (·.2)).find? fun s => s.name = shareName && s.spaceId ∈ allowedSpaces).or
      ((shares.get shareName).filter fun s => s.spaceId ∈ allowedSpaces))
  .ok (share, (splitPath path).2)

def findSpaceForPath (shares : Shares) (allowedSpaces : List String) (path : String) : Option String :=
  if path = "" ∨ path = "/" then none
  else (findShareAndSubpath shares allowedSpaces path).toOption.map (·.1.spaceId)

section Find
variable {shares : Shares} {allowedSpaces : List String} {path : String}

theorem findShareAndSubpath_ok {share : SharedFolder} {sub : String}
    (h : findShareAndSubpath shares allowedSpaces path = .ok (share, sub)) :
    (∃ id, (id, share) ∈ shares.entries) ∧ share.spaceId ∈ allowedSpaces ∧ sub = (splitPath path).2 := by
  obtain ⟨found, hfound, h⟩ := bind_eq_ok.1 h
  cases h
  rcases Option.or_eq_some_iff.1 (okOr_eq_ok.1 hfound) with hname | ⟨-, hid⟩
  · obtain ⟨e, he, rfl⟩ := List.mem_map.1 (List.mem_of_find?_eq_some hname)
    have hsome := List.find?_some hname
    simp only [Bool.and_eq_true, decide_eq_true_eq] at hsome
    exact ⟨⟨e.1, he⟩, hsome.2, rfl⟩
  · obtain ⟨hget, hspace⟩ := Option.filter_eq_some_iff.1 hid
    obtain ⟨e, he, rfl⟩ := Option.map_eq_some_iff.1 hget
    exact ⟨⟨e.1, Keyed.get_mem he⟩, by simpa using hspace, rfl⟩

theorem findSpaceForPath_eq_some {space : String} :
    findSpaceForPath shares allowedSpaces path = some space ↔ path ≠ "" ∧ path ≠ "/" ∧
      ∃ share sub, findShareAndSubpath shares allowedSpaces path = .ok (share, sub) ∧ share.spaceId = space := by
  unfold findSpaceForPath
  by_cases hroot : path = "" ∨ path = "/"
  · rw [if_pos hroot]
    constructor
    · intro h; cases h
    · rintro ⟨hempty, hslash, -⟩
      exact absurd hroot (not_or.2 ⟨hempty, hslash⟩)
  · rw [if_neg hroot]
    obtain ⟨hempty, hslash⟩ := not_or.1 hroot
    cases hfind : findShareAndSubpath shares allowedSpaces path with
    | error e => simp [Except.toOption]
    | ok found => simp [Except.toOption, hempty, hslash, Prod.ext_iff]

end Find

/-! ## Requests -/

inductive Request where
  | list (path ucanToken : String)
  | stat (path ucanToken : String)
  | read (path : String) (range : Option (UInt64 × UInt64)) (ucanToken : String)
  | manifest (path ucanToken : String)
  | write (path : String) (size : UInt64) (ucanToken : String)
  | delete (path : String) (toTrash : Bool) (ucanToken : String)
  | createDirectory (path ucanToken : String)

namespace Request

def ucanToken : Request → String
  | list _ t | stat _ t | read _ _ t | manifest _ t | write _ _ t | delete _ _ t | createDirectory _ t => t

def path : Request → String
  | list p _ | stat p _ | read p _ _ | manifest p _ | write p _ _ | delete p _ _ | createDirectory p _ => p

def requiresWrite : Request → Bool
  | write .. | delete .. | createDirectory .. => true
  | _ => false

def required (req : Request) : CapabilityLevel := if req.requiresWrite then .write else .read

end Request

/-! ## Handlers -/

/-- What a request has once every check let it through. -/
inductive Served where
  /-- The root listing: the names of the shares. -/
  | shareNames (names : List String)
  /-- A path in a shared folder; the file system does the rest. -/
  | inFolder (share : SharedFolder) (subPath : String)
  deriving DecidableEq

def serveIn (check : String → Except String Unit) (shares : Shares) (allowedSpaces : List String) (path : String) :
    Except String Served := do
  let (share, sub) ← findShareAndSubpath shares allowedSpaces path
  ensure (!isContentUri share.localPath) "Content URIs are only supported on Android"
  check sub
  .ok (.inFolder share sub)

section Handlers
variable (shares : Shares) (allowedSpaces : List String) (path : String)

def handleList : Except String Served :=
  if path = "" ∨ path = "/" then .ok (.shareNames ((filterShares shares allowedSpaces).map (·.2.name)))
  else serveIn rejectPathTraversal shares allowedSpaces path

def handleStat : Except String Served := serveIn rejectPathTraversal shares allowedSpaces path

def handleManifest : Except String Served := do
  ensure (!(path = "" ∨ path = "/")) "Manifest requires a share path"
  serveIn rejectPathTraversal shares allowedSpaces path

def handleRead : Except String Served := serveIn rejectPathTraversal shares allowedSpaces path

def handleWrite : Except String Served := serveIn checkRelativePath shares allowedSpaces path

def handleDelete : Except String Served := serveIn rejectPathTraversal shares allowedSpaces path

def handleCreateDirectory : Except String Served := serveIn checkRelativePath shares allowedSpaces path

end Handlers

/-- The handler of a request. -/
def dispatch (shares : Shares) (allowedSpaces : List String) : Request → Except String Served
  | .list path _ => handleList shares allowedSpaces path
  | .stat path _ => handleStat shares allowedSpaces path
  | .manifest path _ => handleManifest shares allowedSpaces path
  | .read path _ _ => handleRead shares allowedSpaces path
  | .write path _ _ => handleWrite shares allowedSpaces path
  | .delete path _ _ => handleDelete shares allowedSpaces path
  | .createDirectory path _ => handleCreateDirectory shares allowedSpaces path

def effectiveSpaces (validated : ValidatedUcan) (allowedSpaces : List String) : List String :=
  (validated.capabilities.map (·.1)).filter (· ∈ allowedSpaces)

/-- The second layer of `handle_stream`: the capability, in the space of the path. -/
def checkCapability (shares : Shares) (effective : List String) (validated : ValidatedUcan) (req : Request) :
    Except String Unit :=
  match findSpaceForPath shares effective req.path with
  | some spaceId => (requireCapability validated spaceId req.required).mapError fun e => "Access denied: " ++ e.display
  | none => .ok ()

/-- `handle_stream`; an error is the text of the response. -/
def handleStream (crates : Crates) (now : Nat) (shares : Shares) (allowedSpaces : List String) (verifiedRemoteDid : String)
    (req : Request) : Except String Served := do
  let validated ← (validateToken crates now req.ucanToken).mapError fun e => "UCAN validation failed: " ++ e.display
  (requireAudience validated verifiedRemoteDid).mapError fun e =>
    "Access denied: UCAN audience does not match verified peer DID: " ++ e.display
  let effective := effectiveSpaces validated allowedSpaces
  ensure (effective ≠ []) "Access denied: peer not registered in any of the UCAN's spaces"
  checkCapability shares effective validated req
  dispatch shares effective req

section Spec
variable {crates : Crates} {now : Nat} {shares : Shares} {allowedSpaces : List String} {did path : String} {req : Request}
  {share : SharedFolder} {sub : String}

theorem serveIn_ok {check : String → Except String Unit} {served : Served} :
    serveIn check shares allowedSpaces path = .ok served ↔
      ∃ share sub, findShareAndSubpath shares allowedSpaces path = .ok (share, sub) ∧
        isContentUri share.localPath = false ∧ check sub = .ok () ∧ served = .inFolder share sub := by
  unfold serveIn
  simp only [bind_eq_ok, ensure_ok, Prod.exists]
  constructor
  · rintro ⟨share, sub, hfind, -, hlocal, ⟨⟩, hcheck, h⟩
    cases h
    exact ⟨share, sub, hfind, by simpa using hlocal, hcheck, rfl⟩
  · rintro ⟨share, sub, hfind, hlocal, hcheck, rfl⟩
    exact ⟨share, sub, hfind, (), by simpa using hlocal, (), hcheck, rfl⟩

theorem found_of_dispatch (h : dispatch shares allowedSpaces req = .ok (.inFolder share sub)) :
    findShareAndSubpath shares allowedSpaces req.path = .ok (share, sub) := by
  have hin : ∀ {check}, serveIn check shares allowedSpaces req.path = .ok (.inFolder share sub) →
      findShareAndSubpath shares allowedSpaces req.path = .ok (share, sub) := by
    intro check hserve
    obtain ⟨_, _, hfind, -, -, heq⟩ := serveIn_ok.1 hserve
    cases heq
    exact hfind
  cases req with
  | list path token =>
    by_cases hroot : path = "" ∨ path = "/"
    · simp [dispatch, handleList, hroot] at h
    · simp only [dispatch, handleList, hroot, if_false] at h
      exact hin h
  | manifest path token =>
    obtain ⟨-, -, h⟩ := bind_eq_ok.1 h
    exact hin h
  | _ => exact hin h

theorem checkCapability_ok {u : ValidatedUcan} {effective : List String} :
    checkCapability shares effective u req = .ok () ↔
      ∀ spaceId, findSpaceForPath shares effective req.path = some spaceId → u.Grants spaceId req.required := by
  unfold checkCapability
  cases findSpaceForPath shares effective req.path with
  | none => simp
  | some spaceId => simp only [mapError_eq_ok, requireCapability_ok, Option.some.injEq, forall_eq']

theorem handleStream_ok {served : Served} :
    handleStream crates now shares allowedSpaces did req = .ok served ↔
      ∃ u, validateToken crates now req.ucanToken = .ok u ∧ did ≠ "" ∧ u.audience = did ∧
        effectiveSpaces u allowedSpaces ≠ [] ∧
        (∀ spaceId, findSpaceForPath shares (effectiveSpaces u allowedSpaces) req.path = some spaceId →
          u.Grants spaceId req.required) ∧
        dispatch shares (effectiveSpaces u allowedSpaces) req = .ok served := by
  unfold handleStream
  simp only [bind_eq_ok, mapError_eq_ok, requireAudience_ok, ensure_ok, decide_eq_true_eq]
  refine exists_congr fun u => and_congr_right fun _ => ?_
  constructor
  · rintro ⟨-, ⟨hne, haud⟩, -, heff, ⟨⟩, hcap, hserved⟩
    exact ⟨hne, haud, heff, checkCapability_ok.1 hcap, hserved⟩
  · rintro ⟨hne, haud, heff, hcap, hserved⟩
    exact ⟨(), ⟨hne, haud⟩, (), heff, (), checkCapability_ok.2 hcap, hserved⟩

theorem served_of_grants {u : ValidatedUcan} (hu : validateToken crates now req.ucanToken = .ok u) (hdid : did ≠ "")
    (haud : u.audience = did) (hreq : req.requiresWrite = true)
    (hfind : findShareAndSubpath shares (effectiveSpaces u allowedSpaces) req.path = .ok (share, sub))
    (hcap : u.Grants share.spaceId .write) (hlocal : isContentUri share.localPath = false)
    (hcheck : checkRelativePath sub = .ok ()) :
    handleStream crates now shares allowedSpaces did req = .ok (.inFolder share sub) := by
  have hspace : share.spaceId ∈ effectiveSpaces u allowedSpaces := (findShareAndSubpath_ok hfind).2.1
  refine handleStream_ok.2 ⟨u, hu, hdid, haud, List.ne_nil_of_mem hspace, fun spaceId h => ?_, ?_⟩
  · obtain ⟨-, -, share', sub', hfind', rfl⟩ := findSpaceForPath_eq_some.1 h
    obtain ⟨rfl, rfl⟩ := Prod.mk.inj (Except.ok.inj (hfind.symm.trans hfind'))
    rw [Request.required, if_pos hreq]
    exact hcap
  · have hwrite : serveIn checkRelativePath shares (effectiveSpaces u allowedSpaces) req.path = .ok (.inFolder share sub) :=
      serveIn_ok.2 ⟨share, sub, hfind, hlocal, hcheck, rfl⟩
    cases req with
    | write => exact hwrite
    | createDirectory => exact hwrite
    | delete =>
      exact serveIn_ok.2 ⟨share, sub, hfind, hlocal, rejectPathTraversal_of_check hcheck, rfl⟩
    | _ => cases hreq

end Spec

end HaexVault.PeerStorage
