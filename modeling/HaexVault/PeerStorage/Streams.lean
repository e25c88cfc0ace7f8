import HaexVault.Lib.Calls
import HaexVault.PeerStorage.Handlers
import HaexVault.Space.Attenuation
/-!
# Streams of a connection (`peer_storage/handlers.rs`, `endpoint.rs`)

The spaces a peer is allowed in are read when its stream is accepted; the shares are read once for
the capability check and again by the handler. A stream that runs alone does what `handleStream` does
(`alone`); among others it stays within its grant under `requests_within_grant`.
-/

namespace HaexVault.PeerStorage

open HaexVault.Lib HaexVault.Lib.Runs HaexVault.Lib.Steps
open HaexVault.Space (Crates CapabilityLevel ValidatedUcan validateToken requireAudience requireAudience_ok sampleCrates
  memberKey readToken selfToken readUcan sampleShares validateToken_sample)

/-! ## The parts of a request -/

/-- `handle_stream` up to its handler. -/
def authorize (crates : Crates) (now : Nat) (shares : Shares) (allowedSpaces : List String) (verifiedRemoteDid : String)
    (req : Request) : Except String ValidatedUcan := do
  let validated ← (validateToken crates now req.ucanToken).mapError fun e => "UCAN validation failed: " ++ e.display
  (requireAudience validated verifiedRemoteDid).mapError fun e =>
    "Access denied: UCAN audience does not match verified peer DID: " ++ e.display
  let effective := effectiveSpaces validated allowedSpaces
  ensure (effective ≠ []) "Access denied: peer not registered in any of the UCAN's spaces"
  checkCapability shares effective validated req
  .ok validated

namespace Request

/-- The handler locks the shares twice: for `check_content_uri`, then for the path. -/
def locksTwice : Request → Bool
  | read .. | write .. | delete .. | createDirectory .. => true
  | _ => false

/-- The check of the path in its folder, by `resolve_path_filtered` or `resolve_path_for_write`. -/
def checkPath : Request → String → Except String Unit
  | write .. | createDirectory .. => checkRelativePath
  | _ => rejectPathTraversal

end Request

/-- `check_content_uri`, which finds none where it finds no share. -/
def refuseContentUri (shares : Shares) (allowedSpaces : List String) (path : String) : Except String Unit :=
  match findShareAndSubpath shares allowedSpaces path with
  | .ok (share, _) => ensure (!isContentUri share.localPath) "Content URIs are only supported on Android"
  | .error _ => .ok ()

def resolvePath (check : String → Except String Unit) (shares : Shares) (allowedSpaces : List String) (path : String) :
    Except String (SharedFolder × String) := do
  let (share, sub) ← findShareAndSubpath shares allowedSpaces path
  check sub
  .ok (share, sub)

def foldersOf (shares : Shares) (allowedSpaces : List String) : Served → List SharedFolder
  | .shareNames _ => (filterShares shares allowedSpaces).map (·.2)
  | .inFolder share _ => [share]

/-! ## A stream -/

structure PeerState where
  shares : Shares
  /-- The spaces of each endpoint that is allowed in some. -/
  allowedPeers : String → Option (List String)

inductive PeerUpdate where
  | shares (shares : Shares)
  | allowedPeers (allowedPeers : String → Option (List String))

def PeerState.update (s : PeerState) : PeerUpdate → PeerState
  | .shares shares => { s with shares }
  | .allowedPeers allowedPeers => { s with allowedPeers }

structure StreamRequest where
  endpointId : String
  /-- The DID that the handshake of the connection verified. -/
  verifiedDid : String
  /-- When the token is validated. -/
  now : Nat
  req : Request

inductive StreamPhase where
  | incoming
  /-- The connection is closed: "access revoked". -/
  | revoked
  | accepted
  /-- Every layer let it through. -/
  | checked (validated : ValidatedUcan)
  /-- It names no content URI; its path is looked up again next. -/
  | looked (validated : ValidatedUcan)
  | served (validated : ValidatedUcan) (folders : List SharedFolder) (served : Served)
  | refused (message : String)

structure Stream extends StreamRequest where
  /-- The spaces its endpoint was allowed in when it was accepted. -/
  allowedSpaces : List String := []
  phase : StreamPhase := .incoming

namespace Stream

def effective (c : Stream) (validated : ValidatedUcan) : List String := effectiveSpaces validated c.allowedSpaces

/-- A stream up to the next lock it takes. -/
def next (crates : Crates) (s : PeerState) (c : Stream) : Stream :=
  match c.phase with
  | .incoming =>
    let allowedSpaces := (s.allowedPeers c.endpointId).getD []
    if allowedSpaces = [] then { c with phase := .revoked } else { c with allowedSpaces, phase := .accepted }
  | .accepted => match authorize crates c.now s.shares c.allowedSpaces c.verifiedDid c.req with
    | .ok validated => { c with phase := .checked validated }
    | .error e => { c with phase := .refused e }
  | .checked validated =>
    if c.req.locksTwice then
      match refuseContentUri s.shares (c.effective validated) c.req.path with
      | .ok _ => { c with phase := .looked validated }
      | .error e => { c with phase := .refused e }
    else
      match dispatch s.shares (c.effective validated) c.req with
      | .ok served => { c with phase := .served validated (foldersOf s.shares (c.effective validated) served) served }
      | .error e => { c with phase := .refused e }
  | .looked validated => match resolvePath c.req.checkPath s.shares (c.effective validated) c.req.path with
    | .ok (share, sub) => { c with phase := .served validated [share] (.inFolder share sub) }
    | .error e => { c with phase := .refused e }
  | .revoked | .served .. | .refused _ => c

@[simp] theorem next_req (crates : Crates) (s : PeerState) (c : Stream) : (c.next crates s).req = c.req := by
  unfold next
  dsimp only
  repeat' split
  all_goals rfl

section Next
variable {crates : Crates} {s : PeerState} {c : Stream} {u : ValidatedUcan}

theorem next_incoming {allowedSpaces : List String} (h : c.phase = .incoming)
    (hallowed : s.allowedPeers c.endpointId = some allowedSpaces) (hne : allowedSpaces ≠ []) :
    c.next crates s = { c with allowedSpaces, phase := .accepted } := by
  simp [next, h, hallowed, hne]

theorem next_accepted (h : c.phase = .accepted)
    (hauth : authorize crates c.now s.shares c.allowedSpaces c.verifiedDid c.req = .ok u) :
    c.next crates s = { c with phase := .checked u } := by
  simp [next, h, hauth]

theorem next_checked (h : c.phase = .checked u) (htwice : c.req.locksTwice = true)
    (hlook : refuseContentUri s.shares (c.effective u) c.req.path = .ok ()) :
    c.next crates s = { c with phase := .looked u } := by
  simp [next, h, htwice, hlook]

theorem next_looked {share : SharedFolder} {sub : String} (h : c.phase = .looked u)
    (hfind : resolvePath c.req.checkPath s.shares (c.effective u) c.req.path = .ok (share, sub)) :
    c.next crates s = { c with phase := .served u [share] (.inFolder share sub) } := by
  simp [next, h, hfind]

end Next

def response (c : Stream) : Option (Except String Served) :=
  match c.phase with
  | .served _ _ served => some (.ok served)
  | .refused message => some (.error message)
  | _ => none

end Stream

abbrev Serving := Calls.Sys PeerState Stream

abbrev ServingEvent := Calls.Event StreamRequest Unit PeerUpdate

namespace Serving

def machine (crates : Crates) : Calls.Machine PeerState StreamRequest Stream Unit PeerUpdate where
  start req := { req with }
  advance s c _ := (s, c.next crates s)
  outside := PeerState.update

abbrev step (crates : Crates) : Serving → ServingEvent → Serving := (machine crates).step

/-! ## Alone -/

section Alone
variable {crates : Crates} {now : Nat} {shares : Shares} {allowedSpaces : List String} {did path : String} {req : Request}

theorem handleStream_eq : handleStream crates now shares allowedSpaces did req =
    (authorize crates now shares allowedSpaces did req).bind fun u =>
      dispatch shares (effectiveSpaces u allowedSpaces) req := by
  unfold handleStream authorize
  simp only [bind, Except.bind]
  split
  · rfl
  · split
    · rfl
    · split
      · rfl
      · split <;> rfl

theorem serveIn_eq {check : String → Except String Unit} : serveIn check shares allowedSpaces path =
    (refuseContentUri shares allowedSpaces path).bind fun _ =>
      (resolvePath check shares allowedSpaces path).map fun r => .inFolder r.1 r.2 := by
  unfold serveIn refuseContentUri resolvePath
  cases findShareAndSubpath shares allowedSpaces path with
  | error e => rfl
  | ok found =>
    simp only [bind, Except.bind]
    split
    · rfl
    · cases check found.2 with
      | error e => rfl
      | ok _ => rfl

theorem dispatch_locksTwice (h : req.locksTwice = true) :
    dispatch shares allowedSpaces req = serveIn req.checkPath shares allowedSpaces req.path := by
  cases req with
  | read | write | delete | createDirectory => rfl
  | _ => cases h

theorem next_of_response {s : PeerState} {c : Stream} {r : Except String Served} (h : c.response = some r) :
    c.next crates s = c := by
  unfold Stream.response at h
  unfold Stream.next
  cases hphase : c.phase with
  | served | refused => rfl
  | _ => simp [hphase] at h

theorem iterate_of_response {s : PeerState} {c : Stream} {r : Except String Served} (h : c.response = some r) (n : Nat) :
    ((Stream.next crates s)^[n] c).response = some r := by
  rw [Function.iterate_fixed (next_of_response h)]
  exact h

theorem response_of_checked {s : PeerState} {c : Stream} {u : ValidatedUcan} (h : c.phase = .checked u) :
    ((Stream.next crates s)^[2] c).response = some (dispatch s.shares (c.effective u) c.req) := by
  rw [Function.iterate_succ_apply]
  by_cases htwice : c.req.locksTwice = true
  · rw [dispatch_locksTwice htwice, serveIn_eq]
    cases hlook : refuseContentUri s.shares (c.effective u) c.req.path with
    | error e => exact iterate_of_response (by simp [Stream.next, Stream.response, h, htwice, hlook, Except.bind]) 1
    | ok _ =>
      rw [Stream.next_checked h htwice hlook, Function.iterate_one]
      cases hfind : resolvePath c.req.checkPath s.shares (c.effective u) c.req.path with
      | error e =>
        simp only [Stream.effective] at hfind
        simp [Stream.next, Stream.effective, Stream.response, hfind, Except.bind, Except.map]
      | ok found => exact congrArg Stream.response (Stream.next_looked (c := { c with phase := .looked u }) rfl hfind)
  · cases hserve : dispatch s.shares (c.effective u) c.req with
    | error e | ok served => exact iterate_of_response (by simp [Stream.next, Stream.response, h, htwice, hserve]) 1

theorem response_of_accepted {s : PeerState} {c : Stream} (h : c.phase = .accepted) :
    ((Stream.next crates s)^[3] c).response =
      some (handleStream crates c.now s.shares c.allowedSpaces c.verifiedDid c.req) := by
  rw [Function.iterate_succ_apply, handleStream_eq]
  cases hauth : authorize crates c.now s.shares c.allowedSpaces c.verifiedDid c.req with
  | error e => exact iterate_of_response (by simp [Stream.next, Stream.response, h, hauth, Except.bind]) 2
  | ok u =>
    rw [Stream.next_accepted h hauth]
    exact response_of_checked rfl

theorem step_one {s : PeerState} (c : Stream) : step crates ⟨s, [c]⟩ (.resume 0 ()) = ⟨s, [c.next crates s]⟩ := rfl

theorem run_resume {s : PeerState} (c : Stream) (n : Nat) :
    run (step crates) ⟨s, [c]⟩ (List.replicate n (.resume 0 ())) = ⟨s, [(Stream.next crates s)^[n] c]⟩ := by
  induction n generalizing c with
  | zero => rfl
  | succ n ih =>
    rw [List.replicate_succ, run_cons, step_one, ih, Function.iterate_succ_apply]

/-- A stream that nothing comes in between is answered what `handleStream` says. -/
theorem alone {s : PeerState} {r : StreamRequest} (hallowed : s.allowedPeers r.endpointId = some allowedSpaces)
    (hne : allowedSpaces ≠ []) :
    (run (step crates) ⟨s, []⟩ (.start r :: List.replicate 4 (.resume 0 ()))).calls.map (·.response) =
      [some (handleStream crates r.now s.shares allowedSpaces r.verifiedDid r.req)] := by
  have hrun : run (step crates) ⟨s, []⟩ (.start r :: List.replicate 4 (.resume 0 ())) =
      ⟨s, [(Stream.next crates s)^[4] { r with }]⟩ := by
    rw [run_cons]
    exact run_resume { r with } 4
  rw [hrun, Function.iterate_succ_apply, Stream.next_incoming rfl hallowed hne]
  exact congrArg (fun x => [x]) (response_of_accepted rfl)

end Alone

/-! ## Within the grant -/

/-- What is served is in spaces that the endpoint was allowed in when the stream was accepted, for a UCAN of the verified
DID that grants the capability in each of them. -/
def Within (crates : Crates) (c : Stream) : Prop :=
  ∀ u folders served, c.phase = .served u folders served →
    validateToken crates c.now c.req.ucanToken = .ok u ∧ c.verifiedDid ≠ "" ∧ u.audience = c.verifiedDid ∧
      ∀ folder ∈ folders, folder.spaceId ∈ c.allowedSpaces ∧ u.Grants folder.spaceId c.req.required

/-- Every folder that the path may be served from is of a space the UCAN grants the capability in. -/
def Reaches (shares : Shares) (c : Stream) (u : ValidatedUcan) : Prop :=
  ∀ share sub, findShareAndSubpath shares (c.effective u) c.req.path = .ok (share, sub) →
    c.req.checkPath sub = .ok () → u.Grants share.spaceId c.req.required

/-- An update leaves the path of every stream that has been checked without a folder its UCAN does not reach. So does the
check itself, which asks for nothing where the path is the root. -/
def Steady (crates : Crates) (σ : Serving) : ServingEvent → Prop
  | .start _ => True
  | .resume i _ => ∀ c u, σ.calls[i]? = some c → c.phase = .accepted → c.req.path = "" ∨ c.req.path = "/" →
      authorize crates c.now σ.shared.shares c.allowedSpaces c.verifiedDid c.req = .ok u → Reaches σ.shared.shares c u
  | .outside (.shares shares) => ∀ c ∈ σ.calls, ∀ u, c.phase = .checked u ∨ c.phase = .looked u → Reaches shares c u
  | .outside (.allowedPeers _) => True

def Knows (crates : Crates) (s : PeerState) (c : Stream) : Prop :=
  match c.phase with
  | .checked u | .looked u => validateToken crates c.now c.req.ucanToken = .ok u ∧ c.verifiedDid ≠ "" ∧
      u.audience = c.verifiedDid ∧ Reaches s.shares c u
  | _ => Within crates c

section Grant
variable {crates : Crates} {now : Nat} {shares : Shares} {allowedSpaces : List String} {did path : String} {req : Request}
  {s : PeerState} {c : Stream} {u : ValidatedUcan}

theorem authorize_ok : authorize crates now shares allowedSpaces did req = .ok u ↔
    validateToken crates now req.ucanToken = .ok u ∧ did ≠ "" ∧ u.audience = did ∧ effectiveSpaces u allowedSpaces ≠ [] ∧
      ∀ spaceId, findSpaceForPath shares (effectiveSpaces u allowedSpaces) req.path = some spaceId →
        u.Grants spaceId req.required := by
  unfold authorize
  simp only [bind_eq_ok, mapError_eq_ok, requireAudience_ok, ensure_ok, decide_eq_true_eq]
  constructor
  · rintro ⟨u', hu, -, ⟨hne, haud⟩, -, heff, ⟨⟩, hcap, h⟩
    cases h
    exact ⟨hu, hne, haud, heff, checkCapability_ok.1 hcap⟩
  · rintro ⟨hu, hne, haud, heff, hcap⟩
    exact ⟨u, hu, (), ⟨hne, haud⟩, (), heff, (), checkCapability_ok.2 hcap, rfl⟩

theorem grants_read {space : String} (h : space ∈ effectiveSpaces u allowedSpaces) :
    space ∈ allowedSpaces ∧ u.Grants space .read := by
  obtain ⟨hkey, hallowed⟩ := List.mem_filter.1 h
  obtain ⟨cap, hcap, rfl⟩ := List.mem_map.1 hkey
  refine ⟨by simpa using hallowed, ?_⟩
  cases hl : u.capabilities.lookup cap.1 with
  | some level => exact ⟨level, hl, by simp⟩
  | none => exact absurd hcap (by simpa using List.lookup_eq_none_iff.1 hl cap)

theorem foldersOf_dispatch {served : Served} (h : dispatch shares allowedSpaces req = .ok served) :
    ∀ folder ∈ foldersOf shares allowedSpaces served, folder.spaceId ∈ allowedSpaces := by
  intro folder hfolder
  cases served with
  | shareNames names =>
    obtain ⟨e, he, rfl⟩ := List.mem_map.1 hfolder
    simpa using (List.mem_filter.1 he).2
  | inFolder share sub =>
    obtain rfl := List.mem_singleton.1 hfolder
    exact (findShareAndSubpath_ok (found_of_dispatch h)).2.1

theorem resolvePath_ok {check : String → Except String Unit} {share : SharedFolder} {sub : String} :
    resolvePath check shares allowedSpaces path = .ok (share, sub) ↔
      findShareAndSubpath shares allowedSpaces path = .ok (share, sub) ∧ check sub = .ok () := by
  unfold resolvePath
  simp only [bind_eq_ok, Prod.exists]
  constructor
  · rintro ⟨share', sub', hfind, ⟨⟩, hcheck, h⟩
    cases h
    exact ⟨hfind, hcheck⟩
  · rintro ⟨hfind, hcheck⟩
    exact ⟨share, sub, hfind, (), hcheck, rfl⟩

theorem reaches_of_authorize (h : authorize crates c.now s.shares c.allowedSpaces c.verifiedDid c.req = .ok u)
    (hroot : ¬ (c.req.path = "" ∨ c.req.path = "/")) : Reaches s.shares c u := by
  intro share sub hfind _
  obtain ⟨hempty, hslash⟩ := not_or.1 hroot
  exact (authorize_ok.1 h).2.2.2.2 _ (findSpaceForPath_eq_some.2 ⟨hempty, hslash, share, sub, hfind, rfl⟩)

theorem requiresWrite_of_locksOnce (h : ¬ req.locksTwice = true) : req.required = .read := by
  cases req with
  | read | write | delete | createDirectory => exact absurd rfl h
  | _ => rfl

/-! ### Each step -/

theorem Knows.next (h : Knows crates s c)
    (hroot : c.phase = .accepted → c.req.path = "" ∨ c.req.path = "/" →
      ∀ u, authorize crates c.now s.shares c.allowedSpaces c.verifiedDid c.req = .ok u → Reaches s.shares c u) :
    Knows crates s (c.next crates s) := by
  unfold Knows at h
  cases hphase : c.phase with
  | incoming =>
    simp only [Stream.next, hphase]
    split
    all_goals rintro u folders served ⟨⟩
  | accepted =>
    simp only [Stream.next, hphase]
    cases hauth : authorize crates c.now s.shares c.allowedSpaces c.verifiedDid c.req with
    | error e => rintro u folders served ⟨⟩
    | ok u =>
      obtain ⟨hu, hne, haud, -⟩ := authorize_ok.1 hauth
      by_cases hpath : c.req.path = "" ∨ c.req.path = "/"
      · exact ⟨hu, hne, haud, hroot hphase hpath u hauth⟩
      · exact ⟨hu, hne, haud, reaches_of_authorize hauth hpath⟩
  | checked u =>
    rw [hphase] at h
    obtain ⟨hu, hne, haud, hreach⟩ := h
    by_cases htwice : c.req.locksTwice = true
    · simp only [Stream.next, hphase, htwice, if_true]
      cases refuseContentUri s.shares (c.effective u) c.req.path with
      | error e => rintro u' folders served ⟨⟩
      | ok _ => exact ⟨hu, hne, haud, hreach⟩
    · simp only [Stream.next, hphase, htwice, Bool.false_eq_true, if_false]
      cases hserve : dispatch s.shares (c.effective u) c.req with
      | error e => rintro u' folders served ⟨⟩
      | ok served =>
        rintro u' folders served' ⟨⟩
        refine ⟨hu, hne, haud, fun folder hfolder => ?_⟩
        rw [requiresWrite_of_locksOnce htwice]
        exact grants_read (foldersOf_dispatch hserve folder hfolder)
  | looked u =>
    rw [hphase] at h
    obtain ⟨hu, hne, haud, hreach⟩ := h
    simp only [Stream.next, hphase]
    cases hfind : resolvePath c.req.checkPath s.shares (c.effective u) c.req.path with
    | error e => rintro u' folders served ⟨⟩
    | ok found =>
      obtain ⟨hshare, hcheck⟩ := resolvePath_ok.1 hfind
      rintro u' folders served' ⟨⟩
      refine ⟨hu, hne, haud, fun folder hfolder => ?_⟩
      obtain rfl := List.mem_singleton.1 hfolder
      exact ⟨(grants_read (findShareAndSubpath_ok hshare).2.1).1, hreach _ _ hshare hcheck⟩
  | revoked | served | refused =>
    rw [hphase] at h
    simpa only [Stream.next, Knows, hphase] using h

theorem Knows.update {e : PeerUpdate} (h : Knows crates s c)
    (hsteady : ∀ shares, e = .shares shares → ∀ u, c.phase = .checked u ∨ c.phase = .looked u → Reaches shares c u) :
    Knows crates (s.update e) c := by
  unfold Knows at h ⊢
  split at h
  · obtain ⟨hu, hne, haud, hreach⟩ := h
    refine ⟨hu, hne, haud, ?_⟩
    cases e with
    | shares shares => exact hsteady shares rfl _ (.inl ‹_›)
    | allowedPeers => exact hreach
  · obtain ⟨hu, hne, haud, hreach⟩ := h
    refine ⟨hu, hne, haud, ?_⟩
    cases e with
    | shares shares => exact hsteady shares rfl _ (.inr ‹_›)
    | allowedPeers => exact hreach
  · exact h

theorem Knows.within (h : Knows crates s c) : Within crates c := by
  unfold Knows at h
  split at h
  all_goals first | exact h | (intro u folders served hphase; simp_all)

theorem keeps (crates : Crates) : Calls.Keeps (machine crates) (fun _ => True) (Knows crates) (Steady crates) where
  start σ r _ _ := by rintro u folders served ⟨⟩
  own σ i a c _ hG hi hc := ⟨trivial, hc.next fun hphase hpath u hu => hG c u hi hphase hpath hu⟩
  other σ i a c d _ _ _ _ hd := hd
  outside σ e h hG := by
    refine ⟨trivial, fun c hc => (h.calls c hc).update ?_⟩
    rintro shares rfl u hphase
    exact hG c hc u hphase

end Grant

/-- Streams stay within their grant, whatever comes in between, as long as no update and no root path leads one that has
been checked to a folder its UCAN does not reach. -/
theorem requests_within_grant {crates : Crates} {s : PeerState} {es : List ServingEvent}
    (h : Guarded (step crates) (Steady crates) ⟨s, []⟩ es) :
    ∀ c ∈ (run (step crates) ⟨s, []⟩ es).calls, Within crates c := by
  intro c hc
  have hinit : Calls.Each (fun _ => True) (Knows crates) (⟨s, []⟩ : Serving) := ⟨trivial, by simp⟩
  exact (((keeps crates).run h hinit).calls c hc).within

def peersOf (shares : Shares) : PeerState := ⟨shares, fun ep => if ep = "ep-member" then some ["s"] else none⟩

def memberWrites (ucanToken : String) : StreamRequest := ⟨"ep-member", memberKey.did, 1, .write "docs/a.txt" 4 ucanToken⟩

def docs : SharedFolder := ⟨"docs", "/home/ana/docs", "s"⟩

def memberAlone : Serving := run (step sampleCrates) ⟨peersOf sampleShares, []⟩
  (.start (memberWrites selfToken.token) :: List.replicate 4 (.resume 0 ()))

def adminUcan : ValidatedUcan := ⟨memberKey.did, memberKey.did, [("s", .admin)], 100⟩

theorem memberAlone_served : memberAlone.calls.map (·.response) = [some (.ok (.inFolder docs "a.txt"))] := by
  have hu : validateToken sampleCrates 1 (memberWrites selfToken.token).req.ucanToken = .ok adminUcan :=
    (validateToken_sample (by simp) rfl).2 ⟨by decide, rfl⟩
  have heffective : effectiveSpaces adminUcan ["s"] = ["s"] := by decide
  have hfind : findShareAndSubpath sampleShares (effectiveSpaces adminUcan ["s"]) "docs/a.txt" = .ok (docs, "a.txt") := by
    rw [heffective]
    rfl
  have hcheck : checkRelativePath "a.txt" = .ok () := rfl
  have hserved := served_of_grants hu (by decide) rfl rfl hfind ⟨.admin, rfl, by decide⟩ rfl hcheck
  rw [memberAlone, alone (r := memberWrites selfToken.token) rfl (by decide)]
  exact congrArg (fun x => [some x]) hserved

theorem steady_alone {crates : Crates} {s : PeerState} {c : Stream} (hroot : ¬ (c.req.path = "" ∨ c.req.path = "/"))
    (n : Nat) : Guarded (step crates) (Steady crates) ⟨s, [c]⟩ (List.replicate n (.resume 0 ())) := by
  induction n generalizing c with
  | zero => trivial
  | succ n ih =>
    refine ⟨fun d u hd _ hpath _ => ?_, ?_⟩
    · obtain rfl : c = d := Option.some.inj hd
      exact absurd hpath hroot
    · rw [step_one]
      exact ih (by rwa [Stream.next_req])

theorem requests_within_grant_write :
    (∀ c ∈ memberAlone.calls, Within sampleCrates c) ∧
      memberAlone.calls.map (·.response) = [some (.ok (.inFolder docs "a.txt"))] := by
  have hroot : ¬ ("docs/a.txt" = "" ∨ "docs/a.txt" = "/") := by decide
  have hsteady := @steady_alone sampleCrates (peersOf sampleShares) { memberWrites selfToken.token with } hroot 4
  exact ⟨requests_within_grant ⟨trivial, hsteady⟩, memberAlone_served⟩

theorem served_late {crates : Crates} {s : PeerState} {r : StreamRequest} {allowedSpaces : List String} {u : ValidatedUcan}
    {shares : Shares} {share : SharedFolder} {sub : String}
    (hallowed : s.allowedPeers r.endpointId = some allowedSpaces) (hne : allowedSpaces ≠ [])
    (hauth : authorize crates r.now s.shares allowedSpaces r.verifiedDid r.req = .ok u) (htwice : r.req.locksTwice = true)
    (hlook : refuseContentUri shares (effectiveSpaces u allowedSpaces) r.req.path = .ok ())
    (hfind : resolvePath r.req.checkPath shares (effectiveSpaces u allowedSpaces) r.req.path = .ok (share, sub)) :
    (run (step crates) ⟨s, []⟩ [.start r, .resume 0 (), .resume 0 (), .outside (.shares shares), .resume 0 (),
      .resume 0 ()]).calls = [{ r with allowedSpaces, phase := .served u [share] (.inFolder share sub) }] := by
  have hstart : step crates ⟨s, []⟩ (.start r) = ⟨s, [{ r with }]⟩ := rfl
  have hupdate : ∀ c, step crates ⟨s, [c]⟩ (.outside (.shares shares)) = ⟨{ s with shares }, [c]⟩ := fun _ => rfl
  have h1 : ({ r with } : Stream).next crates s = { r with allowedSpaces, phase := .accepted } :=
    Stream.next_incoming rfl hallowed hne
  have h2 : ({ r with allowedSpaces, phase := .accepted } : Stream).next crates s =
      { r with allowedSpaces, phase := .checked u } := Stream.next_accepted rfl hauth
  have h3 : ({ r with allowedSpaces, phase := .checked u } : Stream).next crates { s with shares } =
      { r with allowedSpaces, phase := .looked u } := Stream.next_checked rfl htwice hlook
  have h4 : ({ r with allowedSpaces, phase := .looked u } : Stream).next crates { s with shares } =
      { r with allowedSpaces, phase := .served u [share] (.inFolder share sub) } := Stream.next_looked rfl hfind
  rw [run_cons, hstart, run_cons, step_one, h1, run_cons, step_one, h2, run_cons, hupdate, run_cons, step_one, h3, run_cons,
    step_one, h4, run_nil]

/-- A UCAN for reading writes in a folder that was not there when its capability was checked. -/
theorem written_with_read : ∃ es, ∃ c ∈ (run (step sampleCrates) ⟨peersOf ⟨[], List.nodup_nil⟩, []⟩ es).calls,
    ¬ Within sampleCrates c := by
  have hauth : authorize sampleCrates 1 ⟨[], List.nodup_nil⟩ ["s"] memberKey.did (memberWrites readToken.token).req =
      .ok readUcan := by
    refine authorize_ok.2 ⟨(validateToken_sample (by simp) rfl).2 ⟨by decide, rfl⟩, by decide, rfl, by decide, ?_⟩
    intro spaceId h
    cases h
  have hpath : (memberWrites readToken.token).req.path = "docs/a.txt" := rfl
  have heffective : effectiveSpaces readUcan ["s"] = ["s"] := by decide
  have hlook : refuseContentUri sampleShares ["s"] "docs/a.txt" = .ok () := rfl
  have hfind : resolvePath checkRelativePath sampleShares ["s"] "docs/a.txt" =
      .ok (docs, "a.txt") := rfl
  have hserved := served_late (s := peersOf ⟨[], List.nodup_nil⟩) (r := memberWrites readToken.token) rfl (by decide) hauth rfl
    (by rw [heffective, hpath]; exact hlook) (by rw [heffective, hpath]; exact hfind)
  refine ⟨_, _, hserved ▸ List.mem_singleton_self _, fun h => ?_⟩
  obtain ⟨-, -, -, hin⟩ := h _ _ _ rfl
  obtain ⟨level, hlevel, hle⟩ := (hin _ (List.mem_singleton_self _)).2
  cases hlevel
  exact absurd hle (by decide)

end Serving

end HaexVault.PeerStorage
