import HaexVault.Extension.Permissions
import HaexVault.Lib.Like
/-!
# Finding the items for a page (`handleGetItemsAsync`)

The handler reduces the page's URL to its registrable domain, lets SQL look for that text in
the stored URLs, and compares the parsed hosts of what was found. `matching_exact_iff` says
when this gives exactly the items whose stored text denotes a host of the same site.
-/

namespace HaexVault.ExternalBridge.UrlMatching

open HaexVault.Lib HaexVault.Extension

structure Externals where
  /-- `new URL(…).hostname`; none if the constructor throws, as it does on the empty text and on a web URL without a host. -/
  parseUrl : String → Option String
  parseUrl_empty : parseUrl "" = none
  parseUrl_hostless : parseUrl "https://" = none
  /-- The registrable domain of a host by the public suffix list, `parseTld(…).domain`. -/
  registrableDomain : String → Option String

variable (x : Externals)

/-! ## The handler -/

/-- `describeUrlForMatching`: the host name; the registrable domain is the list's. -/
def hostname (input : String) : Option String :=
  match (x.parseUrl input).or (x.parseUrl ("https://" ++ input)) with
  | none => none
  | some host => if host = "" then none else some (String.ofList (lower host))

/-- A row of `haex_passwords_item_details`, with the columns that the handler selects. -/
structure Item where
  id : String
  title : Option String
  username : Option String
  password : Option String
  url : Option String
  otpSecret : Option String
  autofillAliases : Option String
  deriving DecidableEq

/-- A row of `haex_passwords_item_key_values`. -/
structure KeyValue where
  itemId : String
  key : Option String
  value : Option String
  deriving DecidableEq

structure Vault where
  items : List Item
  keyValues : List KeyValue

structure GetItemsPayload where
  url : Option String
  fields : Option (List String)

structure ItemEntry where
  id : String
  title : String
  url : Option String
  fields : List (String × String)
  hasTotp : Bool
  autofillAliases : Option String
  deriving DecidableEq

def filterToken (host : String) : String := (x.registrableDomain host).getD host

def prefilter (token url stored : String) : Bool :=
  Like.like ('%' :: token.toList ++ ['%']) stored.toList || stored = url

def sameSite (target candidate : String) : Bool :=
  match x.registrableDomain target, x.registrableDomain candidate with
  | some d, some d' => d = d'
  | _, _ => target = candidate

def keeps (target stored : String) : Bool :=
  if stored = "" then false else (hostname x stored).any (sameSite x target)

def matchingItems (items : List Item) (url target : String) : List Item :=
  (items.filter fun item => item.url.any (prefilter (filterToken x target) url)).filter fun item => item.url.any (keeps x target)

def inherited : List String :=
  ["constructor", "__defineGetter__", "__defineSetter__", "hasOwnProperty", "__lookupGetter__", "__lookupSetter__",
    "isPrototypeOf", "propertyIsEnumerable", "toString", "valueOf", "__proto__", "toLocaleString"]

def assign (fields : List (String × String)) (key value : String) : List (String × String) :=
  if key = "__proto__" then fields
  else if fields.any (·.1 = key) then fields.map fun f => if f.1 = key then (key, value) else f else fields ++ [(key, value)]

def truthy (s : Option String) : Option String := s.filter (· ≠ "")

def entry (keyValues : List KeyValue) (item : Item) : ItemEntry :=
  let own := ((truthy item.username).map fun v => ("username", v)).toList ++
    ((truthy item.password).map fun v => ("password", v)).toList ++
    ((truthy item.otpSecret).map fun _ => ("otp", "TOTP")).toList
  { id := item.id
    title := (truthy item.title).getD "Untitled"
    url := item.url
    fields := (keyValues.filter (·.itemId = item.id)).foldl (fun fields kv =>
      match truthy kv.key, truthy kv.value with
      | some key, some value => assign fields key value
      | _, _ => fields) own
    hasTotp := (truthy item.otpSecret).isSome
    autofillAliases := item.autofillAliases }

def fieldFilter (fields : Option (List String)) (entries : List ItemEntry) : List ItemEntry :=
  match fields with
  | none | some [] => entries
  | some fields => entries.filter fun e => fields.any fun f => inherited.contains f || e.fields.any (·.1 = f)

/-- `handleGetItemsAsync`. -/
def handleGetItems (db : Vault) (payload : GetItemsPayload) : Except String (List ItemEntry) :=
  match truthy payload.url with
  | none => .error "Missing required field: url"
  | some url =>
    match hostname x url with
    | none => .error ("Could not parse URL: " ++ url)
    | some target =>
      .ok (fieldFilter payload.fields ((matchingItems x db.items url target).map (entry db.keyValues)))

/-! ## What a stored text denotes -/

def authority (text : List Char) : List Char := text.takeWhile fun c => !(['/', '?', '#', '\\'].contains c)

def splitHost (authority : List Char) : List Char × List Char :=
  match authority with
  | '[' :: rest => ('[' :: rest.takeWhile (· ≠ ']'), (rest.dropWhile (· ≠ ']')).drop 1)
  | authority => (authority.takeWhile (· ≠ ':'), authority.dropWhile (· ≠ ':'))

def schemeless (text : String) : Bool :=
  let (host, port) := splitHost (authority text.toList)
  host ≠ [] && !host.contains '@' && match port with
    | [] => true
    | ':' :: digits => digits ≠ [] && digits.all Char.isDigit
    | _ => false

def named (host : Option String) : Option String := (truthy host).map fun host => String.ofList (lower host)

def denotedHost (text : String) : Option String :=
  match named (x.parseUrl text) with
  | some host => some host
  | none => if schemeless text then named (x.parseUrl ("https://" ++ text)) else none

def Belongs (target : String) (item : Item) : Bool := item.url.any fun text => (denotedHost x text).any (sameSite x target)

/-- What makes the handler exact on a stored text: the query finds the token in it if it is to be returned; it is not
taken for a URL without a host; and a text of another form leads to no host of the site. -/
structure Plain (url target text : String) : Prop where
  found : (denotedHost x text).any (sameSite x target) = true → prefilter (filterToken x target) url text = true
  hostless : x.parseUrl text = some "" → schemeless text = true →
    (named (x.parseUrl ("https://" ++ text))).any (sameSite x target) = false
  formless : x.parseUrl text = none → text ≠ "" → schemeless text = false → prefilter (filterToken x target) url text = true →
    (named (x.parseUrl ("https://" ++ text))).any (sameSite x target) = false

/-! ## Exactness -/

variable {x} {url target text : String}

theorem named_of_ne {host : String} (h : host ≠ "") : named (some host) = some (String.ofList (lower host)) := by
  simp [named, truthy, h]

theorem named_empty : named (some "") = none := by simp [named, truthy]

theorem hostname_of_host {host : String} (hparse : x.parseUrl text = some host) : hostname x text = named (some host) := by
  by_cases h : host = ""
  · simp [hostname, hparse, h, named_empty]
  · simp [hostname, hparse, h, named_of_ne]

theorem hostname_of_none (hparse : x.parseUrl text = none) : hostname x text = named (x.parseUrl ("https://" ++ text)) := by
  rw [hostname, hparse, Option.none_or]
  cases x.parseUrl ("https://" ++ text) with
  | none => rfl
  | some host => by_cases h : host = "" <;> simp [h, named_empty, named_of_ne]

theorem schemeless_empty : schemeless "" = false := rfl

theorem keeps_of_ne (h : text ≠ "") : keeps x target text = (hostname x text).any (sameSite x target) := if_neg h

theorem and_eq_right_iff {p m : Bool} : (p && m) = m ↔ (m = true → p = true) := by
  cases p <;> cases m <;> decide

/-- The handler's answer on a stored text is right exactly if the text is plain. -/
theorem returned_iff_plain (x : Externals) (url target text : String) :
    (prefilter (filterToken x target) url text && keeps x target text) = (denotedHost x text).any (sameSite x target) ↔
      Plain x url target text := by
  by_cases hempty : text = ""
  · subst hempty
    have hnone : denotedHost x "" = none := by
      rw [denotedHost, x.parseUrl_empty, schemeless_empty]
      rfl
    rw [hnone, keeps, if_pos rfl, Bool.and_false]
    refine iff_of_true rfl ⟨fun h => ?_, fun h => ?_, fun _ h => absurd rfl h⟩
    · rw [hnone] at h
      cases h
    · cases x.parseUrl_empty.symm.trans h
  rw [keeps_of_ne hempty]
  cases hparse : x.parseUrl text with
  | some host =>
    rw [hostname_of_host hparse]
    by_cases hhost : host = ""
    · -- a URL without a host, which the handler leaves out
      subst hhost
      rw [named_empty, Option.any_none, Bool.and_false]
      cases hform : schemeless text with
      | false =>
        have hnone : denotedHost x text = none := by simp [denotedHost, hparse, named_empty, hform]
        rw [hnone]
        refine iff_of_true rfl ⟨fun h => ?_, fun _ h => ?_, fun h => ?_⟩
        · rw [hnone] at h
          cases h
        · cases hform.symm.trans h
        · cases hparse.symm.trans h
      | true =>
        have hread : denotedHost x text = named (x.parseUrl ("https://" ++ text)) := by
          simp [denotedHost, hparse, named_empty, hform]
        constructor
        · intro h
          refine ⟨fun hm => ?_, fun _ _ => ?_, fun h => ?_⟩
          · cases h.trans hm
          · rw [← hread]
            exact h.symm
          · cases hparse.symm.trans h
        · intro h
          rw [hread]
          exact (h.hostless hparse hform).symm
    · have hread : denotedHost x text = named (some host) := by simp [denotedHost, hparse, named_of_ne hhost]
      rw [← hread, and_eq_right_iff]
      refine ⟨fun h => ⟨h, fun h => ?_, fun h => ?_⟩, fun h => h.found⟩
      · exact absurd (Option.some.inj (hparse.symm.trans h)) hhost
      · cases hparse.symm.trans h
  | none =>
    rw [hostname_of_none hparse]
    cases hform : schemeless text with
    | true =>
      have hread : denotedHost x text = named (x.parseUrl ("https://" ++ text)) := by
        simp [denotedHost, hparse, named, truthy, hform]
      rw [← hread, and_eq_right_iff]
      refine ⟨fun h => ⟨h, fun h => ?_, fun _ _ h => ?_⟩, fun h => h.found⟩
      · cases hparse.symm.trans h
      · cases hform.symm.trans h
    | false =>
      have hnone : denotedHost x text = none := by simp [denotedHost, hparse, named, truthy, hform]
      rw [hnone, Option.any_none]
      constructor
      · intro h
        refine ⟨fun h => ?_, fun h => ?_, fun _ _ _ hp => ?_⟩
        · rw [hnone] at h
          cases h
        · cases hparse.symm.trans h
        · rwa [hp, Bool.true_and] at h
      · intro h
        cases hp : prefilter (filterToken x target) url text with
        | false => rfl
        | true => rw [h.formless hparse hempty hform hp, Bool.and_false]

theorem filter_eq_iff {α : Type} {l : List α} {p q : α → Bool} : l.filter p = l.filter q ↔ ∀ a ∈ l, p a = q a := by
  constructor
  · intro h a ha
    rw [Bool.eq_iff_iff]
    have hmem : a ∈ l.filter p ↔ a ∈ l.filter q := by rw [h]
    simpa [List.mem_filter, ha] using hmem
  · exact fun h => List.filter_congr h

theorem ne_of_hostname (h : hostname x url = some target) : url ≠ "" := by
  rintro rfl
  rw [hostname, x.parseUrl_empty, Option.none_or, String.append_empty, x.parseUrl_hostless] at h
  cases h

/-- For a page with a host, what comes before the field filter is exactly the items that belong to the page if and only if
every stored text is plain. -/
theorem matching_exact_iff (x : Externals) (db : Vault) (url target : String) (h : hostname x url = some target) :
    (∀ fields, handleGetItems x db ⟨some url, fields⟩ =
      .ok (fieldFilter fields ((matchingItems x db.items url target).map (entry db.keyValues)))) ∧
    (matchingItems x db.items url target = db.items.filter (Belongs x target) ↔
      ∀ item ∈ db.items, ∀ text ∈ item.url, Plain x url target text) := by
  constructor
  · intro fields
    have htruthy : truthy (some url) = some url := by simp [truthy, ne_of_hostname h]
    simp only [handleGetItems, htruthy, h]
  · rw [matchingItems, List.filter_filter, filter_eq_iff]
    refine forall₂_congr fun item _ => ?_
    cases hurl : item.url with
    | none => simp [Belongs, hurl]
    | some text =>
      simp only [Option.any_some, Belongs, hurl, Option.mem_some_iff, forall_eq', Bool.and_comm (keeps x target text)]
      exact returned_iff_plain x url target text

/-! ## Ordinary texts -/

theorem prefilter_of_spelled {host : String} (hsuffix : ∀ d, x.registrableDomain host = some d → d.toList <:+ host.toList)
    (hsite : sameSite x target host = true) (hspelled : lower host <:+: lower text) :
    prefilter (filterToken x target) url text = true := by
  have htoken : (filterToken x target).toList <:+ host.toList := by
    unfold sameSite at hsite
    split at hsite
    · next d d' hd hd' =>
      rw [filterToken, hd, Option.getD_some, of_decide_eq_true hsite]
      exact hsuffix d' hd'
    · obtain rfl := of_decide_eq_true hsite
      cases hd : x.registrableDomain target with
      | none =>
        rw [filterToken, hd]
        exact List.suffix_rfl
      | some d =>
        rw [filterToken, hd]
        exact hsuffix d hd
  have hlower : (filterToken x target).toList.map Char.toLower <:+: lower text :=
    (htoken.map Char.toLower).isInfix.trans hspelled
  rw [prefilter, Like.like_of_lower_infix hlower, Bool.true_or]

/-- So the query finds every text that spells the host it denotes. -/
theorem Plain.found_of_spelled (hsuffix : ∀ host d, x.registrableDomain host = some d → d.toList <:+ host.toList)
    (hspelled : ∀ host ∈ denotedHost x text, lower host <:+: lower text)
    (h : (denotedHost x text).any (sameSite x target) = true) : prefilter (filterToken x target) url text = true := by
  cases hhost : denotedHost x text with
  | none =>
    rw [hhost] at h
    cases h
  | some host =>
    rw [hhost] at h
    exact prefilter_of_spelled (hsuffix host) h (hspelled host hhost)

/-! ## A port -/

def exampleSite : Externals where
  parseUrl text :=
    if text = "https://example.de/" ∨ text = "https://example.de" ∨ text = "https://example.de:8080" then some "example.de"
    else if text = "example.de:8080" then some ""
    else none
  parseUrl_empty := rfl
  parseUrl_hostless := rfl
  registrableDomain host := if host = "example.de" then some "example.de" else none

def storedAs (url : String) : Item := ⟨"i", none, none, none, some url, none, none⟩

theorem matching_exact_example :
    handleGetItems exampleSite ⟨[storedAs "example.de"], []⟩ ⟨some "https://example.de/", none⟩ =
        .ok [entry [] (storedAs "example.de")] ∧
      (matchingItems exampleSite [storedAs "example.de"] "https://example.de/" "example.de" =
        [storedAs "example.de"].filter (Belongs exampleSite "example.de") ↔
        ∀ item ∈ [storedAs "example.de"], ∀ text ∈ item.url, Plain exampleSite "https://example.de/" "example.de" text) :=
  have h := matching_exact_iff exampleSite ⟨[storedAs "example.de"], []⟩ "https://example.de/" "example.de" (by decide)
  ⟨(h.1 none).trans (by decide), h.2⟩

theorem Plain.found_of_spelled_example :
    prefilter (filterToken exampleSite "example.de") "https://example.de/" "https://example.de" = true := by
  refine Plain.found_of_spelled (fun host d hd => ?_) ?_ (by decide)
  · simp only [exampleSite] at hd
    split at hd
    · rename_i hhost
      rw [hhost, ← Option.some.inj hd]
    · cases hd
  · rintro host hhost
    cases (show denotedHost exampleSite "https://example.de" = some "example.de" by decide).symm.trans hhost
    exact ⟨"https://".toList, [], by decide⟩

/-- The item stored with a port and no scheme belongs to the page and is not returned. -/
theorem port_without_scheme :
    hostname exampleSite "https://example.de/" = some "example.de" ∧
      [storedAs "example.de:8080"].filter (Belongs exampleSite "example.de") = [storedAs "example.de:8080"] ∧
      matchingItems exampleSite [storedAs "example.de:8080"] "https://example.de/" "example.de" = [] := by
  refine ⟨by decide, by decide, by decide⟩

end HaexVault.ExternalBridge.UrlMatching
