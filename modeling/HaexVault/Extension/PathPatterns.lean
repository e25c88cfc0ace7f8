import HaexVault.Extension.PermissionManager
import HaexVault.Lib.PathText
/-!
# What directory patterns let through (`matches_path_pattern`)

A permission for `D/*` or `D/*.ext` is meant for the files beneath `D`. The matcher decodes percent
sequences, takes backslashes for slashes and resolves dots before it compares; the operating system
opens the text as it stands. `Cause` says how a path that is let through can lead out of `D`.
-/

namespace HaexVault.Extension.PermissionManager

open HaexVault.Lib.PathText

/-! ## How the matcher reads a path -/

def slashes (path : List Char) : List Char := path.map fun c => if c = '\\' then '/' else c

/-- The components that `normalize_path` keeps. -/
def keptComponents (path : List Char) : List Component := (path.splitOn '/').foldl (pushComponent (isAbsolute path)) []

/-- What `normalize_path` writes. -/
def writePath (absolute : Bool) (cs : List Component) : List Char := if absolute then '/' :: joinPath cs else joinPath cs

theorem normalizePath_eq (path : List Char) :
    normalizePath path = writePath (isAbsolute (slashes path)) (keptComponents (slashes path)) := by
  unfold normalizePath writePath keptComponents
  change (if slashes path = [] then [] else _) = _
  by_cases hnil : slashes path = []
  · rw [if_pos hnil, hnil]
    rfl
  · rw [if_neg hnil]
    simp only [isAbsolute, decide_eq_true_eq]
    rfl

structure Kept (absolute : Bool) (cs : List Component) : Prop where
  clean : Clean cs
  no_dot : ['.'] ∉ cs
  upwards : ∃ k names, cs = List.replicate k dotDot ++ names ∧ dotDot ∉ names ∧ (absolute = true → k = 0)

theorem Kept.nil (absolute : Bool) : Kept absolute [] :=
  ⟨by simp [Clean], by simp, 0, [], rfl, by simp, fun _ => rfl⟩

theorem Kept.names_eq_nil {k : Nat} {names : List Component} (hnames : dotDot ∉ names)
    (h : ¬(List.replicate k dotDot ++ names ≠ [] ∧ (List.replicate k dotDot ++ names).getLast? ≠ some dotDot)) :
    names = [] := by
  by_contra hne
  refine h ⟨by simp [hne], ?_⟩
  rw [List.getLast?_append_of_ne_nil _ hne]
  exact fun hlast => hnames (List.mem_of_getLast? hlast)

theorem Kept.push {absolute : Bool} {cs : List Component} (h : Kept absolute cs) {c : Component} (hc : '/' ∉ c) :
    Kept absolute (pushComponent absolute cs c) := by
  obtain ⟨k, names, hcs, hnames, hk⟩ := h.upwards
  unfold pushComponent
  split
  · exact h
  · next hc₁ =>
    rw [not_or] at hc₁
    split
    · next hup =>
      subst hup
      split
      · next hlast =>
        refine ⟨fun c hc => h.clean c (List.mem_of_mem_dropLast hc), fun hc => h.no_dot (List.mem_of_mem_dropLast hc), ?_⟩
        have hne : names ≠ [] := by
          rintro rfl
          rw [List.append_nil] at hcs
          refine hlast.2 ?_
          rw [hcs, List.getLast?_replicate, if_neg fun hk => hlast.1 (by rw [hcs, hk]; rfl)]
        exact ⟨k, names.dropLast, by rw [hcs, List.dropLast_append_of_ne_nil hne],
          fun hc => hnames (List.mem_of_mem_dropLast hc), hk⟩
      · next hlast =>
        split
        · exact h
        · next habsolute =>
          have hnil : names = [] := Kept.names_eq_nil hnames (by rwa [← hcs])
          refine ⟨?_, ?_, k + 1, [], ?_, by simp, fun h => absurd h habsolute⟩
          · intro c hc
            rcases List.mem_append.1 hc with hc | hc
            · exact h.clean c hc
            · rw [List.mem_singleton.1 hc]
              decide
          · rw [List.mem_append, not_or]
            exact ⟨h.no_dot, by decide⟩
          · rw [hcs, hnil, List.append_nil, List.append_nil, List.replicate_succ']
    · next hup =>
      refine ⟨?_, ?_, k, names ++ [c], by rw [hcs, List.append_assoc], ?_, hk⟩
      · intro c' hc'
        rcases List.mem_append.1 hc' with hc' | hc'
        · exact h.clean c' hc'
        · rw [List.mem_singleton.1 hc']
          exact ⟨hc₁.1, hc⟩
      · rw [List.mem_append, List.mem_singleton, not_or]
        exact ⟨h.no_dot, Ne.symm hc₁.2⟩
      · rw [List.mem_append, List.mem_singleton, not_or]
        exact ⟨hnames, Ne.symm hup⟩

theorem Kept.walk_push {absolute : Bool} {cs start : List Component} (h : Kept absolute cs) (hstart : absolute = true → start = [])
    (c : Component) : (pushComponent absolute cs c).foldl enter start = enter (cs.foldl enter start) c := by
  obtain ⟨k, names, hcs, hnames, hk⟩ := h.upwards
  unfold pushComponent
  split
  · next hc => rw [enter, if_pos hc]
  · next hc =>
    split
    · next hup =>
      subst hup
      split
      · next hlast =>
        obtain ⟨before, last, rfl⟩ : ∃ before last, cs = before ++ [last] :=
          ⟨cs.dropLast, cs.getLast hlast.1, (List.dropLast_append_getLast hlast.1).symm⟩
        have hmem : last ∈ before ++ [last] := by simp
        have hname : last ≠ ['.', '.'] := fun hup => hlast.2 (by rw [hup]; simp [dotDot])
        rw [List.dropLast_concat, List.foldl_append, List.foldl_cons, List.foldl_nil,
          enter_name (h.clean last hmem).1 (fun hdot => h.no_dot (hdot ▸ hmem)) hname, enter, if_neg hc,
          if_pos (show dotDot = ['.', '.'] from rfl), List.dropLast_concat]
      · next hlast =>
        split
        · next habsolute =>
          have hnil : cs = [] := by
            rw [hcs, hk habsolute, Kept.names_eq_nil hnames (by rwa [← hcs])]
            rfl
          rw [hnil, List.foldl_nil, hstart habsolute, enter, if_neg hc, if_pos (show dotDot = ['.', '.'] from rfl)]
          rfl
        · rw [List.foldl_append]
          rfl
    · rw [List.foldl_append]
      rfl

theorem Kept.foldl {absolute : Bool} (start : List Component) (hstart : absolute = true → start = []) {l : List Component}
    (hl : ∀ c ∈ l, '/' ∉ c) {cs : List Component} (h : Kept absolute cs) :
    Kept absolute (l.foldl (pushComponent absolute) cs) ∧
      (l.foldl (pushComponent absolute) cs).foldl enter start = l.foldl enter (cs.foldl enter start) := by
  induction l generalizing cs with
  | nil => exact ⟨h, rfl⟩
  | cons c l ih =>
    obtain ⟨hkept, hwalk⟩ := ih (fun c hc => hl c (List.mem_cons_of_mem _ hc)) (h.push (hl c List.mem_cons_self))
    refine ⟨hkept, ?_⟩
    rw [List.foldl_cons, hwalk, h.walk_push hstart]
    rfl

theorem kept (path : List Char) : Kept (isAbsolute path) (keptComponents path) :=
  (Kept.foldl [] (fun _ => rfl) (fun _ => not_mem_of_mem_splitOn) (.nil _)).1

theorem opened_eq (cwd : List Component) (path : List Char) :
    opened cwd path = (keptComponents path).foldl enter (if isAbsolute path then [] else cwd) := by
  have hstart : isAbsolute path = true → (if isAbsolute path then [] else cwd) = [] := fun h => if_pos h
  have hsplit : ∀ c ∈ path.splitOn '/', '/' ∉ c := fun _ => not_mem_of_mem_splitOn
  exact (Kept.foldl (if isAbsolute path then [] else cwd) hstart hsplit (.nil (isAbsolute path))).2.symm

/-! ## Targets -/

structure DirTarget where
  dir : String
  ext : Option String
  ext_ok : ∀ e, ext = some e → '/' ∉ e.toList ∧ '*' ∉ e.toList

namespace DirTarget

variable (T : DirTarget) (cwd : List Component) (p : String)

def place : List Char := T.dir.toList ++ ['/']

def suffix : List Char := match T.ext with
  | none => []
  | some e => '.' :: e.toList

def text : String := String.ofList (T.place ++ '*' :: T.suffix)

/-- The file that is opened for the path is `D` or beneath it, and its name has the extension. -/
def Holds : Prop :=
  opened cwd T.place <+: opened cwd p.toList ∧
    ∀ e, T.ext = some e → ∃ name, (opened cwd p.toList).getLast? = some name ∧ '.' :: e.toList <:+ name

end DirTarget

def Readable (p : String) : Prop := '\x00' ∉ p.toList ∧ p ≠ ""

def rewritePath (p : String) : List Char := slashes (urlDecodePath 5 p.toList)

/-- The path `normalize_path` compares. -/
def seenPath (p : String) : List Char := normalizePath (urlDecodePath 5 p.toList)

theorem seenPath_eq (p : String) : seenPath p = writePath (isAbsolute (rewritePath p)) (keptComponents (rewritePath p)) :=
  normalizePath_eq _

def Beneath (absolute : Bool) (ds : List Component) (path : List Char) : Prop :=
  isAbsolute path = absolute ∧ ds <+: keptComponents path

/-- The comparison for `D/*`, in components. A directory whose text comes to nothing covers every absolute path. -/
def BeneathDir (dir path : List Char) : Prop :=
  if isAbsolute dir = false ∧ keptComponents dir = [] then isAbsolute path = true ∨ keptComponents path = []
  else Beneath (isAbsolute dir) (keptComponents dir) path

/-- The comparisons for `D/*.ext`: for `D` that begins with `*.`, for `D` with a wildcard, and for all others. -/
def BeneathExt (T : DirTarget) (e : List Char) (p : String) : Prop :=
  if ['*', '.'] <+: T.text.toList then
    T.text.toList.tail <:+ seenPath p ∧ hasTraversal (seenPath p) = false ∧
      ¬(dotDot <:+: urlDecodePath 5 p.toList ∨ ['.', '/'] <:+: urlDecodePath 5 p.toList ∨ ['.', '\\'] <:+: urlDecodePath 5 p.toList)
  else if '*' ∈ T.dir.toList then seenPath p = normalizePath T.text.toList
  else normalizePath T.place <+: seenPath p ∧ '.' :: e <:+ seenPath p ∧ hasTraversal (seenPath p) = false

def DirTarget.Admits (T : DirTarget) (p : String) : Prop :=
  match T.ext with
  | none => BeneathDir (slashes T.dir.toList) (rewritePath p)
  | some e => BeneathExt T e.toList p

/-! ### The matcher in components -/

theorem writePath_head {absolute : Bool} {cs : List Component} (hcs : Clean cs) :
    (writePath absolute cs).head? = some '/' ↔ absolute = true := by
  cases absolute with
  | true => simp [writePath]
  | false => simpa [writePath] using joinPath_head hcs

theorem writePath_inj {a b : Bool} {cs ds : List Component} (hcs : Clean cs) (hds : Clean ds)
    (h : writePath a cs = writePath b ds) : a = b ∧ cs = ds := by
  have hab : a = b := by
    rw [Bool.eq_iff_iff, ← writePath_head hcs, ← writePath_head hds, h]
  subst hab
  refine ⟨rfl, joinPath_injective hcs hds ?_⟩
  cases a with
  | true => exact List.cons.inj h |>.2
  | false => exact h

theorem writePath_ne_nil {absolute : Bool} {cs : List Component} (hcs : Clean cs) (h : absolute = true ∨ cs ≠ []) :
    writePath absolute cs ≠ [] := by
  cases absolute with
  | true => exact List.cons_ne_nil _ _
  | false => exact fun hnil => h.resolve_left Bool.false_ne_true ((joinPath_eq_nil hcs).1 hnil)

theorem absolute_of_begins {a b : Bool} {cs ds : List Component} (hcs : Clean cs) (hds : Clean ds)
    (hne : a = true ∨ ds ≠ []) (h : writePath a ds <+: writePath b cs) : b = a := by
  obtain ⟨t, ht⟩ := h
  rw [Bool.eq_iff_iff, ← writePath_head hcs, ← writePath_head hds, ← ht,
    List.head?_append_of_ne_nil _ (writePath_ne_nil hds hne)]

theorem endsWith_slash_iff {absolute : Bool} {ds : List Component} (hds : Clean ds) :
    endsWith (writePath absolute ds) ['/'] = true ↔ absolute = true ∧ ds = [] := by
  rw [endsWith, List.isSuffixOf_iff_suffix]
  cases absolute with
  | false => simpa [writePath] using joinPath_last hds
  | true =>
    rw [writePath, if_pos rfl, List.suffix_cons_iff, or_iff_left (joinPath_last hds), List.cons.injEq, eq_comm (a := [])]
    simp [joinPath_eq_nil hds]

/-- The comparison of the branch for directories. -/
theorem beneathDir_iff (dir path : List Char) :
    (writePath (isAbsolute path) (keptComponents path) = writePath (isAbsolute dir) (keptComponents dir) ∨
      (if endsWith (writePath (isAbsolute dir) (keptComponents dir)) ['/'] then writePath (isAbsolute dir) (keptComponents dir)
        else writePath (isAbsolute dir) (keptComponents dir) ++ ['/']) <+: writePath (isAbsolute path) (keptComponents path)) ↔
      BeneathDir dir path := by
  have hds := (kept dir).clean
  have hcs := (kept path).clean
  unfold BeneathDir Beneath
  generalize isAbsolute dir = a at *
  generalize isAbsolute path = b at *
  generalize keptComponents dir = ds at *
  generalize keptComponents path = cs at *
  have hends : endsWith (writePath a ds) ['/'] = true ↔ a = true ∧ ds = [] := endsWith_slash_iff hds
  by_cases hnil : ds = []
  · subst hnil
    cases a with
    | true =>
      rw [if_pos (hends.2 ⟨rfl, rfl⟩), if_neg (by simp)]
      have hroot : writePath true ([] : List Component) = ['/'] := rfl
      rw [hroot]
      cases b with
      | true => simp [writePath]
      | false =>
        have hhead := joinPath_head hcs
        simp only [writePath, Bool.false_eq_true, if_false, false_and, iff_false, not_or]
        refine ⟨fun h => hhead (by rw [h]; rfl), ?_⟩
        rintro ⟨t, ht⟩
        exact hhead (by rw [← ht]; rfl)
    | false =>
      rw [if_neg fun h => Bool.false_ne_true (hends.1 h).1, if_pos ⟨rfl, rfl⟩]
      have hempty : writePath false ([] : List Component) = [] := rfl
      rw [hempty, List.nil_append]
      cases b with
      | true => simp [writePath]
      | false =>
        simp only [writePath, Bool.false_eq_true, if_false, false_or, joinPath_eq_nil hcs, or_iff_left_iff_imp]
        rintro ⟨t, ht⟩
        exact absurd (by rw [← ht]; rfl) (joinPath_head hcs)
  · rw [if_neg fun h => hnil (hends.1 h).2, if_neg fun h => hnil h.2]
    constructor
    · rintro (h | h)
      · obtain ⟨rfl, rfl⟩ := writePath_inj hcs hds h
        exact ⟨rfl, List.prefix_refl _⟩
      · obtain rfl := absolute_of_begins hcs hds (.inr hnil) ((List.prefix_append _ _).trans h)
        have hjoin : joinPath ds ++ ['/'] <+: joinPath cs := by
          cases b with
          | true | false => simpa [writePath] using h
        obtain ⟨rest, -, rfl⟩ := (joinPath_slash_begins hcs hds hnil).1 hjoin
        exact ⟨rfl, List.prefix_append _ _⟩
    · rintro ⟨rfl, rest, rfl⟩
      by_cases hrest : rest = []
      · exact .inl (by rw [hrest, List.append_nil])
      · refine .inr ?_
        have hbegins := (joinPath_slash_begins hcs hds hnil).2 ⟨rest, hrest, rfl⟩
        cases b with
        | true | false => simpa [writePath] using hbegins

theorem DirTarget.text_toList (T : DirTarget) : T.text.toList = T.dir.toList ++ '/' :: '*' :: T.suffix := by
  simp [DirTarget.text, DirTarget.place]

theorem DirTarget.text_ne_star (T : DirTarget) : T.text.toList ≠ ['*'] := by
  intro h
  have hslash : '/' ∈ T.text.toList := by simp [T.text_toList]
  rw [h] at hslash
  exact absurd hslash (by decide)

theorem stripDirectoryWildcard_dir {T : DirTarget} (h : T.ext = none) :
    stripDirectoryWildcard T.text.toList = some T.dir.toList := by
  have htext : T.text.toList = T.dir.toList ++ ['/', '*'] := by rw [T.text_toList, DirTarget.suffix, h]
  rw [stripDirectoryWildcard, if_pos (by rw [htext, endsWith, List.isSuffixOf_iff_suffix]; exact List.suffix_append _ _), htext]
  congr 1
  rw [List.dropLast_append_of_ne_nil (by simp), List.dropLast_append_of_ne_nil (by simp)]
  simp

theorem stripDirectoryWildcard_ext {T : DirTarget} {e : String} (h : T.ext = some e) :
    stripDirectoryWildcard T.text.toList = none := by
  refine if_neg fun hends => ?_
  rw [endsWith, List.isSuffixOf_iff_suffix] at hends
  obtain ⟨t, ht⟩ := hends
  have htext : T.text.toList = (T.dir.toList ++ ['/', '*']) ++ '.' :: e.toList := by simp [T.text_toList, DirTarget.suffix, h]
  have hlast : ('.' :: e.toList).getLast? = some '*' := by
    rw [← List.getLast?_append_of_ne_nil (T.dir.toList ++ ['/', '*']) (by simp : '.' :: e.toList ≠ []), ← htext, ← ht,
      List.getLast?_append_of_ne_nil _ (by simp)]
    rfl
  rcases List.mem_cons.1 (List.mem_of_getLast? hlast) with hdot | hstar
  · exact absurd hdot (by decide)
  · exact (T.ext_ok e h).2 hstar

theorem splitOn_star {T : DirTarget} {e : String} (h : T.ext = some e) :
    T.text.toList.splitOn '*' = T.place.splitOn '*' ++ ['.' :: e.toList] := by
  have hsuffix : '*' ∉ '.' :: e.toList := by
    rw [List.mem_cons, not_or]
    exact ⟨by decide, (T.ext_ok e h).2⟩
  rw [DirTarget.text, String.toList_ofList, List.splitOn_append_cons_self, DirTarget.suffix, h, List.splitOn_eq_singleton hsuffix]

theorem two_le_length_splitOn {c : Char} {l : List Char} (h : c ∈ l) : ∃ a b rest, l.splitOn c = a :: b :: rest := by
  obtain ⟨pre, post, rfl⟩ := List.append_of_mem h
  rw [List.splitOn_append_cons_self]
  obtain ⟨a, as, ha⟩ := List.exists_cons_of_ne_nil (List.splitOn_ne_nil c pre)
  obtain ⟨b, bs, hb⟩ := List.exists_cons_of_ne_nil (List.splitOn_ne_nil c post)
  rw [ha, hb]
  cases as with
  | nil => exact ⟨a, b, bs, rfl⟩
  | cons a' as => exact ⟨a, a', as ++ b :: bs, rfl⟩

theorem matchesPathPattern_iff (T : DirTarget) (p : String) :
    matchesPathPattern T.text p = true ↔ Readable p ∧ T.Admits p := by
  have hpattern : T.text.toList ≠ [] := by simp [T.text_toList]
  unfold matchesPathPattern Readable
  by_cases hnul : '\x00' ∈ p.toList
  · simp [hnul]
  by_cases hempty : p = ""
  · simp [hempty, hpattern]
  have hempty' : ¬(p.toList = [] ∧ T.text.toList ≠ []) := fun h => hempty (String.toList_eq_nil_iff.1 h.1)
  simp only [List.contains_eq_mem, hnul, decide_false, Bool.false_eq_true, if_false, if_neg hempty', if_neg T.text_ne_star]
  cases hext : T.ext with
  | none =>
    rw [stripDirectoryWildcard_dir hext]
    simp only [DirTarget.Admits, hext, ← beneathDir_iff, normalizePath_eq, List.isPrefixOf_iff_prefix, Bool.or_eq_true,
      decide_eq_true_eq]
    simp [hempty, rewritePath]
  | some e =>
    rw [stripDirectoryWildcard_ext hext, splitOn_star hext]
    simp only [DirTarget.Admits, hext, BeneathExt, List.isPrefixOf_iff_prefix]
    change _ ↔ (_ ∧ _) ∧ _
    by_cases hstar : ['*', '.'] <+: T.text.toList
    · simp only [if_pos hstar]
      simp [hempty, seenPath, containsStr, endsWith, List.isSuffixOf_iff_suffix, and_assoc]
    · simp only [if_neg hstar]
      by_cases hwild : '*' ∈ T.dir.toList
      · obtain ⟨a, b, rest, hparts⟩ := two_le_length_splitOn (c := '*') (l := T.place) (List.mem_append_left _ hwild)
        rw [if_pos hwild, hparts]
        cases rest with
        | nil | cons => simp [hempty, seenPath]
      · rw [if_neg hwild, List.splitOn_eq_singleton (show '*' ∉ T.place by simp [DirTarget.place, hwild])]
        simp [hempty, seenPath, endsWith, List.isPrefixOf_iff_prefix, List.isSuffixOf_iff_suffix, and_assoc]

/-! ## What is let through beyond the directory -/

/-- Why a path may be let through that the target does not cover. -/
inductive DirTarget.Cause (T : DirTarget) (p : String) : Prop where
  /-- The matcher compares another text: a percent sequence is decoded, or a backslash is taken for a slash. -/
  | rewritten (h : rewritePath p ≠ p.toList ∨ slashes T.text.toList ≠ T.text.toList)
  /-- `D` is a relative path that comes to nothing, like `.`: for `D/*` all absolute paths are taken, for `D/*.ext` all. -/
  | nowhere (relative : isAbsolute T.place = false) (h : keptComponents T.place = [])
  /-- `D` goes upwards only, and the path goes on upwards. -/
  | upwards (h : ∀ c ∈ keptComponents T.place, c = dotDot) (further : keptComponents T.place ++ [dotDot] <+: keptComponents p.toList)
  /-- For `D/*.ext`, the text of `D` is compared without the slash after it. -/
  | boundary (ext : T.ext ≠ none) (h : ¬keptComponents T.place <+: keptComponents p.toList)
  /-- `D/*.ext` begins with `*.`, and is taken for an extension. -/
  | starred (h : ['*', '.'] <+: T.text.toList)

variable {T : DirTarget} {cwd : List Component} {p : String}

theorem keptComponents_slash {path : List Char} (h : path ≠ []) :
    keptComponents (path ++ ['/']) = keptComponents path ∧ isAbsolute (path ++ ['/']) = isAbsolute path := by
  have habsolute : isAbsolute (path ++ ['/']) = isAbsolute path := by
    rw [isAbsolute, isAbsolute, List.head?_append_of_ne_nil _ h]
  refine ⟨?_, habsolute⟩
  rw [keptComponents, keptComponents, habsolute, List.splitOn_append_cons_self, List.foldl_append, List.splitOn_nil,
    List.foldl_cons, List.foldl_nil, pushComponent, if_pos (Or.inl rfl)]

theorem opened_begins {dir path : List Char} (habsolute : isAbsolute path = isAbsolute dir) {rest : List Component}
    (hrest : keptComponents path = keptComponents dir ++ rest) (hup : dotDot ∉ rest) : opened cwd dir <+: opened cwd path := by
  have hkept := kept path
  rw [hrest] at hkept
  rw [opened_eq, opened_eq, habsolute, hrest, List.foldl_append, foldl_enter_names
    (fun c hc => hkept.clean c (List.mem_append_right _ hc)) (fun hc => hkept.no_dot (List.mem_append_right _ hc)) hup]
  exact List.prefix_append _ _

theorem upwards_of_mem {dir path : List Char} {rest : List Component} (hrest : keptComponents path = keptComponents dir ++ rest)
    (hup : dotDot ∈ rest) :
    (∀ c ∈ keptComponents dir, c = dotDot) ∧ keptComponents dir ++ [dotDot] <+: keptComponents path := by
  obtain ⟨k, names, hcs, hnames, -⟩ := (kept path).upwards
  rw [hcs] at hrest ⊢
  have hlength : (keptComponents dir).length < k := by
    by_contra hle
    have hdrop : rest = names.drop ((keptComponents dir).length - k) := by
      have := congrArg (List.drop (keptComponents dir).length) hrest
      rw [List.drop_left, List.drop_append, List.drop_of_length_le (by simp; omega), List.length_replicate] at this
      simpa using this.symm
    exact hnames (List.mem_of_mem_drop (hdrop ▸ hup))
  have hdir : keptComponents dir = List.replicate (keptComponents dir).length dotDot := by
    have := congrArg (List.take (keptComponents dir).length) hrest
    rw [List.take_left, List.take_append_of_le_length (by simp; omega), List.take_replicate, Nat.min_eq_left hlength.le] at this
    exact this.symm
  refine ⟨fun c hc => List.eq_of_mem_replicate (hdir ▸ hc), ?_⟩
  rw [hdir, ← List.replicate_succ']
  refine List.IsPrefix.trans ?_ (List.prefix_append _ _)
  exact ⟨List.replicate (k - ((keptComponents dir).length + 1)) dotDot, by rw [← List.replicate_add]; congr 1; omega⟩

theorem no_up_of_hasTraversal {path : List Char}
    (h : hasTraversal (writePath (isAbsolute path) (keptComponents path)) = false) : dotDot ∉ keptComponents path := by
  obtain ⟨k, names, hcs, hnames, hk⟩ := (kept path).upwards
  cases k with
  | zero => rwa [hcs, List.replicate_zero, List.nil_append]
  | succ k =>
    exfalso
    have habsolute : isAbsolute path = false := Bool.eq_false_iff.2 fun habsolute => absurd (hk habsolute) k.succ_ne_zero
    rw [habsolute, hcs, writePath, if_neg Bool.false_ne_true, List.replicate_succ, List.cons_append] at h
    by_cases hrest : List.replicate k dotDot ++ names = []
    · rw [hrest] at h
      exact absurd h (by decide)
    · rw [← List.singleton_append, joinPath_append (by simp) hrest] at h
      have htraversal : containsStr (joinPath [dotDot] ++ '/' :: joinPath (List.replicate k dotDot ++ names)) "../".toList = true :=
        decide_eq_true ⟨[], joinPath (List.replicate k dotDot ++ names), rfl⟩
      rw [hasTraversal, htraversal] at h
      cases h

theorem opened_name {path s : List Char} (hs : '/' ∉ s) (hne : s ≠ []) (hup : dotDot ∉ keptComponents path)
    (h : s <:+ writePath (isAbsolute path) (keptComponents path)) :
    ∃ name, (opened cwd path).getLast? = some name ∧ s <:+ name := by
  have hjoin : s <:+ joinPath (keptComponents path) := by
    cases habsolute : isAbsolute path with
    | true =>
      rw [habsolute] at h
      exact suffix_of_suffix_slash (a := []) hs h
    | false =>
      rw [habsolute] at h
      exact h
  obtain ⟨before, last, hcs, hlast⟩ := suffix_joinPath hs hne hjoin
  have hmem : last ∈ keptComponents path := by rw [hcs]; simp
  refine ⟨last, ?_, hlast⟩
  rw [opened_eq, hcs, List.foldl_append, List.foldl_cons, List.foldl_nil, enter_name ((kept path).clean last hmem).1
    (fun hdot => (kept path).no_dot (hdot ▸ hmem)) (fun h => hup ((show last = dotDot from h) ▸ hmem)), List.getLast?_concat]

theorem DirTarget.place_eq (T : DirTarget) (h : T.dir.toList = []) : T.place = ['/'] := by
  rw [DirTarget.place, h]
  rfl

theorem opened_text {e : String} (hext : T.ext = some e) : opened cwd T.text.toList = opened cwd T.place ++ ['*' :: '.' :: e.toList] := by
  have hslash : '/' ∉ '*' :: '.' :: e.toList := by
    simpa using (T.ext_ok e hext).1
  have htext : T.text.toList = T.dir.toList ++ '/' :: '*' :: '.' :: e.toList := by rw [T.text_toList, DirTarget.suffix, hext]
  have habsolute : isAbsolute T.text.toList = isAbsolute T.place := by
    rw [htext, DirTarget.place, isAbsolute, isAbsolute]
    cases T.dir.toList <;> rfl
  have hplace : T.place = T.dir.toList ++ '/' :: [] := rfl
  rw [opened, opened, habsolute, htext, hplace, List.splitOn_append_cons_self, List.splitOn_append_cons_self,
    List.splitOn_eq_singleton hslash, List.splitOn_nil, List.foldl_append, List.foldl_append, List.foldl_cons, List.foldl_nil,
    List.foldl_cons, List.foldl_nil, enter_name (by simp) (by simp) (by simp), ← hplace]
  congr 1

theorem DirTarget.slashes_dir (T : DirTarget) (h : slashes T.text.toList = T.text.toList) :
    slashes T.dir.toList = T.dir.toList ∧ slashes T.place = T.place := by
  rw [T.text_toList, slashes, List.map_append] at h
  have hleft := List.append_inj_left h (by simp)
  exact ⟨hleft, by rw [DirTarget.place, slashes, List.map_append, hleft]; rfl⟩

/-- Without one of these causes the target covers what is let through. -/
theorem holds_of_admits (hadmits : T.Admits p) (hno : ¬T.Cause p) : T.Holds cwd p := by
  have hpath : rewritePath p = p.toList := by
    by_contra h
    exact hno (.rewritten (.inl h))
  have htext : slashes T.text.toList = T.text.toList := by
    by_contra h
    exact hno (.rewritten (.inr h))
  have hdir := T.slashes_dir htext
  cases hext : T.ext with
  | none =>
    refine ⟨?_, fun e he => by rw [hext] at he; cases he⟩
    rw [DirTarget.Admits, hext] at hadmits
    dsimp only at hadmits
    rw [hpath, hdir.1] at hadmits
    by_cases hempty : T.dir.toList = []
    · rw [T.place_eq hempty]
      exact List.nil_prefix
    · obtain ⟨hkept, habsolute⟩ := keptComponents_slash hempty
      change keptComponents T.place = _ at hkept
      change isAbsolute T.place = _ at habsolute
      have hsome : ¬(isAbsolute T.dir.toList = false ∧ keptComponents T.dir.toList = []) := fun h =>
        hno (.nowhere (by rw [habsolute]; exact h.1) (by rw [hkept]; exact h.2))
      rw [BeneathDir, if_neg hsome] at hadmits
      obtain ⟨habs, rest, hrest⟩ := hadmits
      rw [← hkept] at hrest
      refine opened_begins (habs.trans habsolute.symm) hrest.symm fun hup => ?_
      obtain ⟨hall, hfurther⟩ := upwards_of_mem hrest.symm hup
      exact hno (.upwards hall hfurther)
  | some e =>
    rw [DirTarget.Admits, hext] at hadmits
    dsimp only at hadmits
    rw [BeneathExt, if_neg fun hstar => hno (.starred hstar), seenPath_eq, hpath, normalizePath_eq, normalizePath_eq, htext,
      hdir.2] at hadmits
    have hcs := (kept p.toList).clean
    by_cases hwild : '*' ∈ T.dir.toList
    · rw [if_pos hwild] at hadmits
      obtain ⟨habsolute, hkept⟩ := writePath_inj hcs (kept _).clean hadmits
      have hopened : opened cwd p.toList = opened cwd T.place ++ ['*' :: '.' :: e.toList] := by
        rw [← opened_text hext, opened_eq, habsolute, hkept, ← opened_eq]
      rw [DirTarget.Holds, hopened, hext]
      refine ⟨List.prefix_append _ _, ?_⟩
      rintro _ ⟨⟩
      exact ⟨_, List.getLast?_concat .., List.suffix_cons _ _⟩
    · rw [if_neg hwild] at hadmits
      obtain ⟨hbegins, hsuffix, htraversal⟩ := hadmits
      have hup := no_up_of_hasTraversal htraversal
      have hsome : isAbsolute T.place = true ∨ keptComponents T.place ≠ [] := by
        by_contra hnone
        rw [not_or, not_not, Bool.not_eq_true] at hnone
        exact hno (.nowhere hnone.1 hnone.2)
      obtain ⟨rest, hrest⟩ : keptComponents T.place <+: keptComponents p.toList := by
        by_contra h
        exact hno (.boundary (by simp [hext]) h)
      refine ⟨opened_begins (absolute_of_begins hcs (kept _).clean hsome hbegins) hrest.symm fun hmem =>
        hup (hrest ▸ List.mem_append_right _ hmem), fun e' he' => ?_⟩
      obtain rfl : e = e' := Option.some.inj (hext.symm.trans he')
      have hslash : '/' ∉ '.' :: e.toList := by
        simpa using (T.ext_ok e hext).1
      exact opened_name hslash (by simp) hup hsuffix

/-- For `D/*`, an absolute `D` and texts that the matcher does not rewrite, nothing is let through that is not beneath `D`. -/
theorem plain_path_contained (hext : T.ext = none) (hdir : isAbsolute T.dir.toList = true)
    (htext : slashes T.text.toList = T.text.toList) (hpath : rewritePath p = p.toList)
    (h : matchesPathPattern T.text p = true) : T.Holds cwd p := by
  have hadmits := ((matchesPathPattern_iff T p).1 h).2
  have hne : T.dir.toList ≠ [] := by
    intro hnil
    rw [hnil] at hdir
    cases hdir
  have hplace : isAbsolute T.place = true := (keptComponents_slash hne).2.trans hdir
  refine holds_of_admits hadmits ?_
  rintro (hrewritten | ⟨relative, -⟩ | ⟨-, further⟩ | ⟨ext, -⟩ | hstar)
  · exact hrewritten.elim (· hpath) (· htext)
  · rw [hplace] at relative
    cases relative
  · have habsolute : isAbsolute p.toList = true := by
      rw [DirTarget.Admits, hext] at hadmits
      dsimp only at hadmits
      rw [hpath, (T.slashes_dir htext).1, BeneathDir, if_neg fun h => Bool.false_ne_true (h.1.symm.trans hdir), hdir] at hadmits
      exact hadmits.1
    obtain ⟨k, names, hcs, hnames, hk⟩ := (kept p.toList).upwards
    rw [hk habsolute, List.replicate_zero, List.nil_append] at hcs
    exact hnames (hcs ▸ further.subset (by simp))
  · exact ext hext
  · obtain ⟨t, ht⟩ := hstar
    have hhead : T.text.toList.head? = some '*' := by rw [← ht]; rfl
    rw [T.text_toList, List.head?_append_of_ne_nil _ hne] at hhead
    rw [isAbsolute, decide_eq_true_eq, hhead] at hdir
    exact absurd hdir (by decide)

theorem plain_path_contained_file : DirTarget.Holds ⟨"/a/b", none, by rintro _ ⟨⟩⟩ [] "/a/b/c/x.txt" :=
  plain_path_contained rfl (by decide) (by decide) (by decide) (by decide +kernel)

end HaexVault.Extension.PermissionManager
