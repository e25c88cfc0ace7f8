import HaexVault.Extension.PermissionManager
/-!
# What URL patterns cover (`matches_url_pattern`)

A pattern names a scheme, a host or all subdomains of a host, and a path, which may end in `/*`.
`Restricts` says which URLs it covers. `matches_url_pattern` accepts others as well, in the four
cases of `Strays` and in no others (`restricts_iff`).
-/

namespace HaexVault.Extension.PermissionManager

/-! ## Patterns -/

def SchemeText (scheme : String) : Prop :=
  scheme ≠ "" ∧ ∀ c ∈ scheme.toList, c.isAlphanum = true ∨ c ∈ ['+', '-', '.']

structure UrlPattern where
  scheme : String
  /-- All subdomains of the host. -/
  subdomains : Bool
  host : String
  path : String
  scheme_ok : SchemeText scheme
  host_ok : '/' ∉ host.toList
  path_ok : ∃ rest, path.toList = '/' :: rest

namespace UrlPattern

variable (P : UrlPattern)

def wildcard : String := if P.subdomains then "*." else ""

/-- The pattern as it is stored. -/
def text : String := P.scheme ++ "://" ++ P.wildcard ++ P.host ++ P.path

end UrlPattern

def Under (pre path : List Char) : Prop := path = pre ∨ pre ++ ['/'] <+: path

/-- The path of a pattern covers a path: it is the same, or it lies under what comes before a `/*` at the end. -/
def CoversPath (pattern path : List Char) : Prop := path = pattern ∨ ∃ pre, pattern = pre ++ ['/', '*'] ∧ Under pre path

def SubdomainOf (u : Url) (host : List Char) : Prop := ∃ h, u.host = some h ∧ ('.' :: host) <:+ h.toList

/-- The URL has the scheme, the host and a path of the pattern. A pattern without a wildcard for the host is itself a URL and
is read as one. -/
def UrlPattern.Restricts (x : Externals) (P : UrlPattern) (u : Url) : Prop :=
  if P.subdomains then u.scheme = P.scheme ∧ SubdomainOf u P.host.toList ∧ CoversPath P.path.toList u.path.toList
  else ∃ p, x.parseUrl P.text = .ok p ∧ u.scheme = p.scheme ∧ u.host = p.host ∧ CoversPath p.path.toList u.path.toList

/-! ## Searching in texts -/

theorem findStr_append {sep pre rest : List Char} {c : Char} (hsep : sep.head? = some c) (hpre : c ∉ pre) :
    findStr sep (pre ++ sep ++ rest) = some pre.length := by
  obtain ⟨cs, rfl⟩ : ∃ cs, sep = c :: cs := by
    cases sep with
    | nil => cases hsep
    | cons c' cs => cases hsep; exact ⟨cs, rfl⟩
  induction pre with
  | nil => simp [findStr]
  | cons d pre ih =>
    rw [List.mem_cons, not_or] at hpre
    have hno : (c :: cs).isPrefixOf (d :: (pre ++ (c :: cs) ++ rest)) = false := by
      rw [List.isPrefixOf, beq_eq_false_iff_ne.2 hpre.1, Bool.false_and]
    rw [List.cons_append, List.cons_append, findStr, hno, ih hpre.2]
    rfl

theorem findStr_eq_some {sep l : List Char} {n : Nat} (h : findStr sep l = some n) :
    ∃ pre rest, l = pre ++ (sep ++ rest) ∧ n = pre.length := by
  induction l generalizing n with
  | nil =>
    unfold findStr at h
    split at h
    · case isTrue hsep => cases h; exact ⟨[], [], by simp [hsep], rfl⟩
    · cases h
  | cons c l ih =>
    unfold findStr at h
    split at h
    · case isTrue hpre =>
      cases h
      obtain ⟨rest, hrest⟩ := List.isPrefixOf_iff_prefix.1 hpre
      exact ⟨[], rest, hrest.symm, rfl⟩
    · obtain ⟨m, hm, rfl⟩ := Option.map_eq_some_iff.1 h
      obtain ⟨pre, rest, rfl, rfl⟩ := ih hm
      exact ⟨c :: pre, rest, rfl, rfl⟩

theorem findStr_of_infix {sep l : List Char} (h : sep <:+: l) : ∃ n, findStr sep l = some n := by
  induction l with
  | nil => exact ⟨0, by rw [findStr, if_pos (List.infix_nil.1 h)]⟩
  | cons c l ih =>
    unfold findStr
    cases hpre : sep.isPrefixOf (c :: l) with
    | true => exact ⟨0, rfl⟩
    | false =>
      rcases List.infix_cons_iff.1 h with hbegins | hinfix
      · rw [List.isPrefixOf_iff_prefix.2 hbegins] at hpre
        cases hpre
      · obtain ⟨n, hn⟩ := ih hinfix
        exact ⟨n + 1, by rw [hn]; rfl⟩

/-! ## The branch for subdomains -/

def wildcardDomain (pattern : List Char) : List Char :=
  (pattern.drop ((findStr "://*.".toList pattern).getD 0 + 5)).takeWhile (· ≠ '/')

section
variable {x : Externals} {P : UrlPattern} {u : Url} {url : String}

theorem UrlPattern.text_toList :
    P.text.toList = P.scheme.toList ++ "://".toList ++ (P.wildcard.toList ++ P.host.toList ++ P.path.toList) := by
  simp [UrlPattern.text, String.toList_append]

theorem SchemeText.no_colon {scheme : String} (h : SchemeText scheme) : ':' ∉ scheme.toList := by
  intro hmem
  rcases h.2 ':' hmem with h | h
  · exact absurd h (by decide)
  · exact absurd h (by decide)

theorem SchemeText.toList_ne_nil {scheme : String} (h : SchemeText scheme) : scheme.toList ≠ [] :=
  fun hnil => h.1 (String.toList_eq_nil_iff.1 hnil)

theorem UrlPattern.text_no_star : ['*', '.'].isPrefixOf P.text.toList = false := by
  rw [P.text_toList]
  obtain ⟨c, cs, hcs⟩ := List.ne_nil_iff_exists_cons.1 P.scheme_ok.toList_ne_nil
  have hc : c ≠ '*' := by
    rintro rfl
    rcases P.scheme_ok.2 '*' (by rw [hcs]; exact List.mem_cons_self) with h | h
    · exact absurd h (by decide)
    · exact absurd h (by decide)
  rw [hcs, List.cons_append, List.cons_append, List.isPrefixOf, beq_eq_false_iff_ne.2 hc.symm, Bool.false_and]

theorem UrlPattern.protocol_eq :
    P.text.toList.take ((findStr "://".toList P.text.toList).getD 0) = P.scheme.toList := by
  rw [P.text_toList, findStr_append (c := ':') rfl P.scheme_ok.no_colon, Option.getD_some, List.append_assoc,
    List.take_left]

theorem matchesSubdomainPattern_iff (hmarker : "://*.".toList <:+: P.text.toList) :
    matchesSubdomainPattern P.text.toList u = true ↔ u.scheme = P.scheme ∧ SubdomainOf u (wildcardDomain P.text.toList) := by
  have hstar : containsStr P.text.toList ['/', '*'] = true :=
    decide_eq_true ((show ['/', '*'] <:+: "://*.".toList from ⟨[':', '/'], ['.'], rfl⟩).trans hmarker)
  obtain ⟨n, hn⟩ := findStr_of_infix hmarker
  have hdomain : wildcardDomain P.text.toList = (P.text.toList.drop (n + 5)).takeWhile (· ≠ '/') := by
    rw [wildcardDomain, hn]
    rfl
  unfold matchesSubdomainPattern SubdomainOf
  simp only [P.protocol_eq, hn, hstar, if_true, ← hdomain]
  by_cases hscheme : u.scheme = P.scheme
  · rw [if_neg fun h => h.2 (by rw [hscheme])]
    cases u.host with
    | none => simp
    | some host => simp [endsWith, hscheme, List.isSuffixOf_iff_suffix]
  · rw [if_pos ⟨P.scheme_ok.toList_ne_nil, fun h => hscheme (String.toList_inj.1 h.symm)⟩]
    simp [hscheme]

theorem UrlPattern.wildcardDomain_subdomains (hsub : P.subdomains = true) :
    "://*.".toList <:+: P.text.toList ∧ wildcardDomain P.text.toList = P.host.toList := by
  have htext : P.text.toList = P.scheme.toList ++ "://*.".toList ++ (P.host.toList ++ P.path.toList) := by
    rw [P.text_toList, UrlPattern.wildcard, if_pos hsub]
    simp
  obtain ⟨rest, hpath⟩ := P.path_ok
  refine ⟨⟨_, _, htext.symm⟩, ?_⟩
  rw [wildcardDomain, htext, findStr_append (c := ':') rfl P.scheme_ok.no_colon, Option.getD_some,
    List.drop_left' (by simp), hpath, List.takeWhile_append_of_pos fun c hc => by
      simpa using fun h : c = '/' => P.host_ok (h ▸ hc)]
  simp

/-! ## The other branch -/

def wildcardPos (pattern : String) (p : Url) : Option Nat :=
  if containsStr pattern.toList ['/', '*'] then findStr ['/', '*'] p.path.toList else none

theorem prefix_iff_under {pattern path : List Char} {pos : Nat} (hpos : findStr ['/', '*'] pattern = some pos) :
    ((pattern.take (pos + 1)).isPrefixOf path || path = (pattern.take (pos + 1)).dropLast) = true ↔
      Under (pattern.take pos) path := by
  obtain ⟨pre, rest, rfl, rfl⟩ := findStr_eq_some hpos
  have htake : (pre ++ (['/', '*'] ++ rest)).take (pre.length + 1) = pre ++ ['/'] := List.take_length_add_append 1
  rw [htake, List.dropLast_concat, List.take_left, Bool.or_eq_true, decide_eq_true_eq, List.isPrefixOf_iff_prefix, Or.comm]
  rfl

theorem matchesUrlPattern_plain (hmarker : ¬"://*.".toList <:+: P.text.toList) (hurl : x.parseUrl url = .ok u) :
    matchesUrlPattern x P.text url = true ↔ ∃ p, x.parseUrl P.text = .ok p ∧ u.scheme = p.scheme ∧ u.host = p.host ∧
      u.port = p.port ∧ match wildcardPos P.text p with
        | some pos => Under (p.path.toList.take pos) (normalizeUrlPath u.path.toList)
        | none => u.path = p.path := by
  have hbranch : (containsStr P.text.toList "://*.".toList || ['*', '.'].isPrefixOf P.text.toList) = false := by
    rw [P.text_no_star, Bool.or_false, containsStr, decide_eq_false hmarker]
  unfold matchesUrlPattern
  simp only [hurl, hbranch, Bool.false_eq_true, if_false]
  cases hparse : x.parseUrl P.text with
  | error => simp
  | ok p =>
    simp only [Except.ok.injEq, exists_eq_left']
    by_cases hscheme : p.scheme = u.scheme
    · by_cases hhost : p.host = u.host
      · by_cases hport : p.port = u.port
        · simp only [hscheme, hhost, hport, ne_eq, not_true_eq_false, if_false, true_and]
          change (match wildcardPos P.text p with | some pos => _ | none => _) = true ↔ _
          cases hpos : wildcardPos P.text p with
          | none => simp [eq_comm]
          | some pos =>
            unfold wildcardPos at hpos
            split at hpos
            · exact prefix_iff_under hpos
            · cases hpos
        · simp [hport, Ne.symm hport]
      · simp [hhost, Ne.symm hhost]
    · simp [hscheme, Ne.symm hscheme]

end

/-! ## What is accepted beyond the pattern -/

/-- How a URL is accepted that the pattern does not cover. -/
inductive Strays (x : Externals) (P : UrlPattern) (u : Url) : Prop where
  /-- A pattern for subdomains: the path is not looked at. -/
  | subdomains (sub : P.subdomains = true) (scheme : u.scheme = P.scheme) (host : SubdomainOf u P.host.toList)
      (path : ¬CoversPath P.path.toList u.path.toList)
  /-- The path of the pattern has a `://*.`: what stands after it is taken for the host. -/
  | marker (sub : P.subdomains = false) (marker : "://*.".toList <:+: P.text.toList) (scheme : u.scheme = P.scheme)
      (host : SubdomainOf u (wildcardDomain P.text.toList)) (beyond : ¬P.Restricts x u)
  /-- The path of the pattern has a `/*` before its end: what comes after the first one is not looked at. -/
  | inner (p : Url) (pos : Nat) (sub : P.subdomains = false) (plain : ¬"://*.".toList <:+: P.text.toList)
      (parse : x.parseUrl P.text = .ok p) (scheme : u.scheme = p.scheme) (host : u.host = p.host) (port : u.port = p.port)
      (wildcard : wildcardPos P.text p = some pos) (inner : pos + 2 < p.path.toList.length)
      (under : Under (p.path.toList.take pos) (normalizeUrlPath u.path.toList))
      (path : ¬CoversPath p.path.toList u.path.toList)
  /-- The path of the pattern has a `/*` at its end only: the path is under the rest without its empty segments only. -/
  | slashes (p : Url) (pos : Nat) (sub : P.subdomains = false) (plain : ¬"://*.".toList <:+: P.text.toList)
      (parse : x.parseUrl P.text = .ok p) (scheme : u.scheme = p.scheme) (host : u.host = p.host) (port : u.port = p.port)
      (wildcard : wildcardPos P.text p = some pos) (last : pos + 2 = p.path.toList.length)
      (under : Under (p.path.toList.take pos) (normalizeUrlPath u.path.toList))
      (path : ¬Under (p.path.toList.take pos) u.path.toList)

variable {x : Externals} {P : UrlPattern} {u : Url} {url : String}

theorem coversPath_last {pattern path : List Char} {pos : Nat} (hpos : findStr ['/', '*'] pattern = some pos)
    (hlast : pos + 2 = pattern.length) : CoversPath pattern path ↔ Under (pattern.take pos) path := by
  obtain ⟨pre, rest, rfl, rfl⟩ := findStr_eq_some hpos
  have hnil : rest = [] := by
    simp only [List.length_append, List.length_cons, List.length_nil] at hlast
    exact List.eq_nil_of_length_eq_zero (by omega)
  subst hnil
  rw [List.append_nil, List.take_left]
  constructor
  · rintro (rfl | ⟨pre', hpre, hunder⟩)
    · exact .inr ⟨['*'], by simp⟩
    · rwa [List.append_inj_left' hpre rfl]
  · exact fun hunder => .inr ⟨_, rfl, hunder⟩

theorem findStr_of_wildcardPos {pattern : String} {p : Url} {pos : Nat} (h : wildcardPos pattern p = some pos) :
    findStr ['/', '*'] p.path.toList = some pos := by
  unfold wildcardPos at h
  split at h
  · exact h
  · cases h

theorem covers_of_restricts {p : Url} (hsub : P.subdomains = false) (hparse : x.parseUrl P.text = .ok p)
    (h : P.Restricts x u) : CoversPath p.path.toList u.path.toList := by
  rw [UrlPattern.Restricts, hsub] at h
  obtain ⟨p', hparse', -, -, hcovers⟩ := h
  rw [hparse] at hparse'
  cases hparse'
  exact hcovers

/-- What `matches_url_pattern` accepts is covered by the pattern, exactly if the URL does not stray. -/
theorem restricts_iff (x : Externals) (P : UrlPattern) (url : String) (u : Url) (hurl : x.parseUrl url = .ok u) :
    (matchesUrlPattern x P.text url = true → P.Restricts x u) ↔ ¬Strays x P u := by
  have hsubdomains : "://*.".toList <:+: P.text.toList → matchesUrlPattern x P.text url = matchesSubdomainPattern P.text.toList u :=
    fun hmarker => by
      unfold matchesUrlPattern
      have hbranch : (containsStr P.text.toList "://*.".toList || ['*', '.'].isPrefixOf P.text.toList) = true := by
        rw [containsStr, decide_eq_true hmarker, Bool.true_or]
      simp only [hurl, hbranch, if_true]
  constructor
  · rintro h (⟨sub, scheme, host, path⟩ | ⟨sub, marker, scheme, host, beyond⟩ |
      ⟨p, pos, sub, plain, parse, scheme, host, port, wildcard, inner, under, path⟩ |
      ⟨p, pos, sub, plain, parse, scheme, host, port, wildcard, last, under, path⟩)
    · obtain ⟨hmarker, hdomain⟩ := P.wildcardDomain_subdomains sub
      have hrestricts := h (by rw [hsubdomains hmarker, matchesSubdomainPattern_iff hmarker, hdomain]; exact ⟨scheme, host⟩)
      rw [UrlPattern.Restricts, if_pos sub] at hrestricts
      exact path hrestricts.2.2
    · exact beyond (h (by rw [hsubdomains marker, matchesSubdomainPattern_iff marker]; exact ⟨scheme, host⟩))
    · have hrestricts := h ((matchesUrlPattern_plain plain hurl).2 ⟨p, parse, scheme, host, port, by rw [wildcard]; exact under⟩)
      exact path (covers_of_restricts sub parse hrestricts)
    · have hrestricts := h ((matchesUrlPattern_plain plain hurl).2 ⟨p, parse, scheme, host, port, by rw [wildcard]; exact under⟩)
      exact path ((coversPath_last (findStr_of_wildcardPos wildcard) last).1 (covers_of_restricts sub parse hrestricts))
  · intro hnot haccept
    by_contra hbeyond
    refine hnot ?_
    by_cases hmarker : "://*.".toList <:+: P.text.toList
    · rw [hsubdomains hmarker, matchesSubdomainPattern_iff hmarker] at haccept
      obtain ⟨hscheme, hhost⟩ := haccept
      cases hsub : P.subdomains with
      | true =>
        rw [(P.wildcardDomain_subdomains hsub).2] at hhost
        rw [UrlPattern.Restricts, if_pos hsub] at hbeyond
        exact .subdomains hsub hscheme hhost fun hpath => hbeyond ⟨hscheme, hhost, hpath⟩
      | false => exact .marker hsub hmarker hscheme hhost hbeyond
    · have hsub : P.subdomains = false := Bool.eq_false_iff.2 fun hsub => hmarker (P.wildcardDomain_subdomains hsub).1
      obtain ⟨p, hparse, hscheme, hhost, hport, hpath⟩ := (matchesUrlPattern_plain hmarker hurl).1 haccept
      have huncovered : ¬CoversPath p.path.toList u.path.toList := fun hcovers => hbeyond (by
        rw [UrlPattern.Restricts, hsub]
        exact ⟨p, hparse, hscheme, hhost, hcovers⟩)
      cases hpos : wildcardPos P.text p with
      | none =>
        rw [hpos] at hpath
        exact absurd (.inl (by rw [hpath])) huncovered
      | some pos =>
        rw [hpos] at hpath
        have hfind := findStr_of_wildcardPos hpos
        obtain ⟨pre, rest, hsplit, rfl⟩ := findStr_eq_some hfind
        have hlength : pre.length + 2 ≤ p.path.toList.length := by
          rw [hsplit]
          simp
        rcases hlength.lt_or_eq with hinner | hlast
        · exact .inner p _ hsub hmarker hparse hscheme hhost hport hpos hinner hpath huncovered
        · exact .slashes p _ hsub hmarker hparse hscheme hhost hport hpos hlast hpath
            fun hunder => huncovered ((coversPath_last hfind hlast).2 hunder)

/-! ### Patterns of one host, as samples -/

def apiOfSubdomains : UrlPattern where
  scheme := "https"
  subdomains := true
  host := "example.com"
  path := "/api"
  scheme_ok := ⟨by decide, by simp⟩
  host_ok := by simp
  path_ok := ⟨_, rfl⟩

/-- Each of these texts is read as a URL of `a.example.com`; the path is what the parser is told it is. -/
def apiExternals (path : String) : Externals where
  parseUrl s := if s = "https://a.example.com" ++ path then .ok ⟨"https", some "a.example.com", none, path⟩ else .error ""
  debug _ := ""

/-- The path of a pattern for subdomains is not looked at. -/
theorem subdomain_path_ignored :
    matchesUrlPattern (apiExternals "/admin") apiOfSubdomains.text "https://a.example.com/admin" = true ∧
      ¬apiOfSubdomains.Restricts (apiExternals "/admin") ⟨"https", some "a.example.com", none, "/admin"⟩ := by
  refine ⟨by decide +kernel, ?_⟩
  rw [UrlPattern.Restricts, if_pos (show apiOfSubdomains.subdomains = true from rfl)]
  rintro ⟨-, -, hpath | ⟨pre, hpre, -⟩⟩
  · exact absurd hpath (by decide)
  · have hlast := congrArg List.getLast? hpre
    rw [List.getLast?_append_of_ne_nil _ (by simp)] at hlast
    exact absurd hlast (by decide)

/-- The path of the pattern itself is covered. -/
theorem api_path_covered :
    matchesUrlPattern (apiExternals "/api") apiOfSubdomains.text "https://a.example.com/api" = true ∧
      apiOfSubdomains.Restricts (apiExternals "/api") ⟨"https", some "a.example.com", none, "/api"⟩ := by
  have haccepted : matchesUrlPattern (apiExternals "/api") apiOfSubdomains.text "https://a.example.com/api" = true := by
    decide +kernel
  refine ⟨haccepted, (restricts_iff (apiExternals "/api") apiOfSubdomains "https://a.example.com/api"
    ⟨"https", some "a.example.com", none, "/api"⟩ (by decide +kernel)).2 ?_ haccepted⟩
  rintro (⟨-, -, -, path⟩ | ⟨sub, -, -, -, -⟩ | ⟨_, _, sub, -, -, -, -, -, -, -, -, -⟩ |
    ⟨_, _, sub, -, -, -, -, -, -, -, -, -⟩)
  · exact path (.inl rfl)
  · cases sub
  · cases sub
  · cases sub

end HaexVault.Extension.PermissionManager
