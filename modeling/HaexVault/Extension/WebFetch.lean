import HaexVault.Extension.PermissionManager
/-!
# Web requests of extensions (`extension/web/commands.rs`, `helpers.rs`)

`extension_web_fetch` checks the text of one URL and hands it to an HTTP client, which follows up
to ten redirects by itself. The check and the client read that URL alike; every other URL contacted
is one that a server named, and the check is not asked about it (`web_fetch_permitted_iff`).
-/

namespace HaexVault.Extension.PermissionManager

structure WebFetchRequest where
  url : String
  method : Option String := none
  headers : List (String × String) := []
  /-- In base64. -/
  body : Option String := none
  /-- In milliseconds. -/
  timeout : Option Nat := none

structure WebFetchResponse where
  status : Nat
  statusText : String
  headers : List (String × String)
  body : String
  url : String
  deriving DecidableEq

inductive WebFetchError where
  | extension (e : ExtensionError)
  | limitExceeded (reason : String)
  | web (reason : String)
  deriving DecidableEq

inductive Answer where
  | response (status : Nat) (headers : List (String × String)) (body : Except String (List UInt8))
  | timeout
  | failed (reason : String)

structure Contact where
  text : String
  url : Url
  deriving DecidableEq

/-- What is taken from `reqwest`, the `url` crate and `base64`. -/
structure HttpCrates where
  /-- `Method::from_bytes`. -/
  method : String → Except String Unit
  /-- `RequestBuilder::header`. -/
  header : String × String → Except String Unit
  canonicalReason : Nat → Option String
  /-- `HeaderValue::to_str`. -/
  isVisible : String → Bool
  decode : String → Except String (List UInt8)
  encode : List UInt8 → String
  /-- `Url::join`, from texts to a text. -/
  join : String → String → Option String

section
variable (x : Externals) (net : HttpCrates)

/-! ## The client -/

def fetchable (u : Url) : Bool := u.host.isSome && (u.scheme = "http" || u.scheme = "https")

def redirectTarget (c : Contact) : Answer → Option Contact
  | .response status headers _ =>
    if status ∈ [301, 302, 303, 307, 308] then do
      let location ← headers.lookup "location"
      let text ← net.join c.text location
      let url ← (x.parseUrl text).toOption
      return ⟨text, url⟩
    else none
  | _ => none

/-- The client follows redirects as long as it may; while it waits for an answer there is no result. -/
def follow (budget : Nat) (c : Contact) : List Answer → List Contact × Option (Except String (Contact × Answer))
  | [] => ([c], none)
  | answer :: answers =>
    match redirectTarget x net c answer with
    | none => ([c], some (.ok (c, answer)))
    | some next =>
      match budget with
      | 0 => ([c], some (.error "error following redirect: too many redirects"))
      | budget + 1 =>
        if fetchable next.url then
          let r := follow budget next answers
          (c :: r.1, r.2)
        else ([c], some (.error "error following redirect: URL scheme is not allowed"))

def send (request : WebFetchRequest) (answers : List Answer) : List Contact × Option (Except String (Contact × Answer)) :=
  match x.parseUrl request.url, request.headers.forM net.header with
  | .error e, _ | .ok _, .error e => ([], some (.error e))
  | .ok u, .ok () =>
    if fetchable u then follow x net 10 ⟨request.url, u⟩ answers else ([], some (.error "builder error: URL scheme is not allowed"))

/-- What `fetch_web_request` makes of the result. -/
def toResponse (timeout : Nat) : Except String (Contact × Answer) → Except WebFetchError WebFetchResponse
  | .error e | .ok (_, .failed e) => .error (.web ("Request failed: " ++ e))
  | .ok (_, .timeout) => .error (.web ("Request timeout after " ++ toString timeout ++ "ms"))
  | .ok (_, .response _ _ (.error e)) => .error (.web ("Failed to read response body: " ++ e))
  | .ok (c, .response status headers (.ok body)) => .ok
    { status
      statusText := (net.canonicalReason status).getD ""
      headers := headers.filter fun h => net.isVisible h.2
      body := net.encode body
      url := c.text }

def fetchWebRequest (request : WebFetchRequest) (answers : List Answer) :
    List Contact × Option (Except WebFetchError WebFetchResponse) :=
  match net.method (request.method.getD "GET") with
  | .error e => ([], some (.error (.web ("Invalid HTTP method '" ++ request.method.getD "GET" ++ "': " ++ e))))
  | .ok () =>
    match request.body.mapM net.decode with
    | .error e => ([], some (.error (.web ("Failed to decode request body from base64: " ++ e))))
    | .ok _ =>
      let (contacts, result) := send x net request answers
      (contacts, result.map (toResponse net (request.timeout.getD 30000)))

/-! ## The command -/

/-- `extension_web_fetch`. `resolve_extension_id` has found the caller, and `check_web_limits` counts its requests. -/
def extensionWebFetch (s : Permissions) (caller : Except ExtensionError String) (checkWebLimits : String → Except String Unit)
    (request : WebFetchRequest) (answers : List Answer) : List Contact × Option (Except WebFetchError WebFetchResponse) :=
  match caller with
  | .error e => ([], some (.error (.extension e)))
  | .ok extensionId =>
    match checkWebLimits extensionId with
    | .error e => ([], some (.error (.limitExceeded e)))
    | .ok () =>
      match s.checkWebPermission x extensionId request.url with
      | .error e => ([], some (.error (.extension e)))
      | .ok () => fetchWebRequest x net { request with method := some (request.method.getD "GET") } answers

end

/-! ## What is contacted -/

variable {x : Externals} {net : HttpCrates}

theorem follow_head (budget : Nat) (c : Contact) (answers : List Answer) :
    (follow x net budget c answers).1.head? = some c := by
  cases answers with
  | nil =>
    rw [follow]
    rfl
  | cons answer answers =>
    unfold follow
    split
    · rfl
    · cases budget with
      | zero => rfl
      | succ budget =>
        dsimp only
        split <;> rfl

/-! ## What is permitted -/

section
variable (x : Externals) (net : HttpCrates) (s : Permissions) (caller : Except ExtensionError String)
  (checkWebLimits : String → Except String Unit) (request : WebFetchRequest) (answers : List Answer)

/-- Every URL contacted is one that the check accepts, and the first one is the one of the request, as the check reads it. -/
structure OnlyPermitted : Prop where
  each : ∀ c ∈ (extensionWebFetch x net s caller checkWebLimits request answers).1,
    ∃ extensionId, caller = .ok extensionId ∧ s.checkWebPermission x extensionId c.text = .ok ()
  first : ∀ c, (extensionWebFetch x net s caller checkWebLimits request answers).1.head? = some c →
    c.text = request.url ∧ x.parseUrl request.url = .ok c.url

/-- Nothing stops the request, and the client takes its URL for `u`. -/
structure Sends (extensionId : String) (u : Url) : Prop where
  caller : caller = .ok extensionId
  limits : checkWebLimits extensionId = .ok ()
  permitted : s.checkWebPermission x extensionId request.url = .ok ()
  method : net.method (request.method.getD "GET") = .ok ()
  body : ∃ bytes, request.body.mapM net.decode = .ok bytes
  url : x.parseUrl request.url = .ok u
  headers : request.headers.forM net.header = .ok ()
  fetchable : fetchable u = true

/-- As far as the client follows them, all redirects are to URLs that the check accepts. -/
def RedirectsPermitted (extensionId : String) : Nat → Contact → List Answer → Prop
  | budget + 1, c, answer :: answers => ∀ next, redirectTarget x net c answer = some next → fetchable next.url = true →
    s.checkWebPermission x extensionId next.text = .ok () ∧ RedirectsPermitted extensionId budget next answers
  | _, _, _ => True

end

variable {s : Permissions} {caller : Except ExtensionError String} {checkWebLimits : String → Except String Unit}
  {request : WebFetchRequest} {answers : List Answer} {extensionId : String} {u : Url}

theorem contacts_of_sends (h : Sends x net s caller checkWebLimits request extensionId u) :
    (extensionWebFetch x net s caller checkWebLimits request answers).1 = (follow x net 10 ⟨request.url, u⟩ answers).1 := by
  obtain ⟨bytes, hbody⟩ := h.body
  simp only [extensionWebFetch, h.caller, h.limits, h.permitted, fetchWebRequest, Option.getD_some, h.method, hbody, send, h.url,
    h.headers, h.fetchable, if_true]

theorem contacts_of_not_sends (h : ∀ extensionId u, ¬ Sends x net s caller checkWebLimits request extensionId u) :
    (extensionWebFetch x net s caller checkWebLimits request answers).1 = [] := by
  cases hcaller : caller with
  | error e => rfl
  | ok extensionId =>
    cases hlimits : checkWebLimits extensionId with
    | error e => simp only [extensionWebFetch, hlimits]
    | ok =>
      cases hpermitted : s.checkWebPermission x extensionId request.url with
      | error e => simp only [extensionWebFetch, hlimits, hpermitted]
      | ok =>
        simp only [extensionWebFetch, hlimits, hpermitted, fetchWebRequest, Option.getD_some]
        cases hmethod : net.method (request.method.getD "GET") with
        | error e => rfl
        | ok =>
          cases hbody : request.body.mapM net.decode with
          | error e => rfl
          | ok bytes =>
            simp only [send]
            cases hurl : x.parseUrl request.url with
            | error e => rfl
            | ok u =>
              cases hheaders : request.headers.forM net.header with
              | error e => rfl
              | ok =>
                by_cases hfetch : fetchable u = true
                · exact absurd ⟨hcaller, hlimits, hpermitted, hmethod, ⟨bytes, hbody⟩, hurl, hheaders, hfetch⟩ (h extensionId u)
                · simp only [hfetch]
                  rfl

theorem follow_permitted_iff (budget : Nat) (c : Contact) (answers : List Answer)
    (hc : s.checkWebPermission x extensionId c.text = .ok ()) :
    (∀ c' ∈ (follow x net budget c answers).1, s.checkWebPermission x extensionId c'.text = .ok ()) ↔
      RedirectsPermitted x net s extensionId budget c answers := by
  have hone : ∀ c' ∈ [c], s.checkWebPermission x extensionId c'.text = .ok () := fun c' h => List.mem_singleton.1 h ▸ hc
  induction answers generalizing budget c with
  | nil =>
    rw [follow]
    exact iff_of_true hone (by cases budget <;> trivial)
  | cons answer answers ih =>
    unfold follow
    cases hnext : redirectTarget x net c answer with
    | none =>
      refine iff_of_true hone ?_
      cases budget with
      | zero => trivial
      | succ budget =>
        intro next h
        rw [hnext] at h
        cases h
    | some next =>
      cases budget with
      | zero => exact iff_of_true hone trivial
      | succ budget =>
        by_cases hfetch : fetchable next.url = true
        · simp only [hfetch, if_true, RedirectsPermitted, hnext, Option.some.injEq, forall_eq', List.forall_mem_cons, hc, true_and,
            forall_const]
          constructor
          · intro h
            have hnextc : s.checkWebPermission x extensionId next.text = .ok () :=
              h next (List.mem_of_head? (follow_head budget next answers))
            exact ⟨hnextc, (ih budget next hnextc fun c' h' => List.mem_singleton.1 h' ▸ hnextc).1 h⟩
          · rintro ⟨hnextc, h⟩
            exact (ih budget next hnextc fun c' h' => List.mem_singleton.1 h' ▸ hnextc).2 h
        · simp only [hfetch]
          refine iff_of_true hone fun next' h hfetch' => ?_
          rw [hnext] at h
          cases h
          exact absurd hfetch' hfetch

/-- Every URL contacted is permitted exactly where the servers redirect to permitted URLs only. -/
theorem web_fetch_permitted_iff (x : Externals) (net : HttpCrates) (s : Permissions) (caller : Except ExtensionError String)
    (checkWebLimits : String → Except String Unit) (request : WebFetchRequest) (answers : List Answer) :
    OnlyPermitted x net s caller checkWebLimits request answers ↔
      ∀ extensionId u, Sends x net s caller checkWebLimits request extensionId u →
        RedirectsPermitted x net s extensionId 10 ⟨request.url, u⟩ answers := by
  constructor
  · intro h extensionId u hsends
    refine (follow_permitted_iff 10 ⟨request.url, u⟩ answers hsends.permitted).1 fun c hc => ?_
    obtain ⟨extensionId', hcaller, hpermitted⟩ := h.each c (by rwa [contacts_of_sends hsends])
    obtain rfl := Except.ok.inj (hsends.caller.symm.trans hcaller)
    exact hpermitted
  · intro h
    by_cases hsends : ∃ extensionId u, Sends x net s caller checkWebLimits request extensionId u
    · obtain ⟨extensionId, u, hsends⟩ := hsends
      refine ⟨fun c hc => ⟨extensionId, hsends.caller, ?_⟩, fun c hc => ?_⟩
      · rw [contacts_of_sends hsends] at hc
        exact (follow_permitted_iff 10 ⟨request.url, u⟩ answers hsends.permitted).2 (h extensionId u hsends) c hc
      · rw [contacts_of_sends hsends, follow_head] at hc
        obtain rfl := Option.some.inj hc
        exact ⟨rfl, hsends.url⟩
    · have hnone : (extensionWebFetch x net s caller checkWebLimits request answers).1 = [] :=
        contacts_of_not_sends fun extensionId u h => hsends ⟨extensionId, u, h⟩
      constructor
      · rw [hnone]
        exact fun c hc => absurd hc List.not_mem_nil
      · rw [hnone]
        exact fun c hc => by cases hc

/-! ### One redirect, as a sample -/

def siteExternals : Externals where
  parseUrl s :=
    if s = "https://a.example/" then .ok ⟨"https", some "a.example", none, "/"⟩
    else if s = "http://192.168.0.1/" then .ok ⟨"http", some "192.168.0.1", none, "/"⟩
    else .error "relative URL without a base"
  debug _ := ""

def siteCrates : HttpCrates where
  method _ := .ok ()
  header _ := .ok ()
  canonicalReason _ := none
  isVisible _ := true
  decode _ := .error "invalid"
  encode _ := ""
  join _ location := some location

def siteGrant : Permissions :=
  ⟨fun _ => some ⟨zeroKey, "notes"⟩, [⟨⟨"x", some "web", some "*", some "a.example", some "granted"⟩, "p", none⟩], by simp, []⟩

/-- The server of that host sends the client to one of the local network, which the check would not have let through. -/
theorem redirect_unchecked :
    ¬ OnlyPermitted siteExternals siteCrates siteGrant (.ok "x") (fun _ => .ok ()) { url := "https://a.example/" }
      [.response 302 [("location", "http://192.168.0.1/")] (.ok [])] := by
  intro h
  obtain ⟨extensionId, hcaller, hpermitted⟩ := h.each ⟨"http://192.168.0.1/", ⟨"http", some "192.168.0.1", none, "/"⟩⟩
    (by decide +kernel)
  obtain rfl := Except.ok.inj hcaller
  exact absurd hpermitted (by decide +kernel)

end HaexVault.Extension.PermissionManager
