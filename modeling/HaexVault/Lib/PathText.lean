import Mathlib.Data.List.Infix
/-!
# Path texts

A path as the operating system reads its text: components between slashes, empty ones and `.` stay,
`..` goes up, and the root has nothing above it (`opened`). `joinPath` writes components with
slashes between them; prefixes and suffixes of such texts are read off the components.
-/

namespace HaexVault.Lib.PathText

abbrev Component := List Char

/-- From a directory along one component. -/
def enter (dir : List Component) (c : Component) : List Component :=
  if c = [] ∨ c = ['.'] then dir else if c = ['.', '.'] then dir.dropLast else dir ++ [c]

def isAbsolute (path : List Char) : Bool := path.head? = some '/'

/-- The file that a text names, seen from a working directory. -/
def opened (cwd : List Component) (path : List Char) : List Component :=
  (path.splitOn '/').foldl enter (if isAbsolute path then [] else cwd)

/-- Components with slashes between them. -/
def joinPath (cs : List Component) : List Char := List.intercalate ['/'] cs

/-- Each of these is a component with something in it. -/
def Clean (cs : List Component) : Prop := ∀ c ∈ cs, c ≠ [] ∧ '/' ∉ c

/-! ## Splitting at slashes -/

/-- The parts do not have the separator. -/
theorem not_mem_of_mem_splitOn {c : Char} {l part : List Char} (h : part ∈ l.splitOn c) : c ∉ part := by
  induction l generalizing part with
  | nil =>
    rw [List.splitOn_nil, List.mem_singleton] at h
    rw [h]
    exact List.not_mem_nil
  | cons x l ih =>
    rw [List.splitOn_cons_eq_if_modifyHead] at h
    split at h
    · rcases List.mem_cons.1 h with rfl | h
      · exact List.not_mem_nil
      · exact ih h
    · next hx =>
      obtain ⟨head, rest, hparts⟩ := List.exists_cons_of_ne_nil (List.splitOn_ne_nil c l)
      rw [hparts, List.modifyHead_cons] at h
      rcases List.mem_cons.1 h with rfl | h
      · rw [List.mem_cons, not_or]
        exact ⟨fun hc => hx (by rw [hc]; exact BEq.rfl), ih (by rw [hparts]; exact List.mem_cons_self)⟩
      · exact ih (by rw [hparts]; exact List.mem_cons_of_mem _ h)

theorem splitOn_joinPath {cs : List Component} (hcs : Clean cs) (hne : cs ≠ []) : (joinPath cs).splitOn '/' = cs :=
  List.splitOn_intercalate '/' (fun c hc => (hcs c hc).2) hne

theorem joinPath_eq_nil {cs : List Component} (hcs : Clean cs) : joinPath cs = [] ↔ cs = [] := by
  constructor
  · intro h
    by_contra hne
    have hsplit := splitOn_joinPath hcs hne
    rw [h, List.splitOn_nil] at hsplit
    exact (hcs [] (by rw [← hsplit]; exact List.mem_singleton_self _)).1 rfl
  · rintro rfl
    rfl

theorem joinPath_injective {cs ds : List Component} (hcs : Clean cs) (hds : Clean ds) (h : joinPath cs = joinPath ds) :
    cs = ds := by
  by_cases hne : cs = []
  · rw [hne] at h ⊢
    exact ((joinPath_eq_nil hds).1 h.symm).symm
  · have hne' : ds ≠ [] := fun hnil => hne ((joinPath_eq_nil hcs).1 (by rw [h, hnil]; rfl))
    rw [← splitOn_joinPath hcs hne, h, splitOn_joinPath hds hne']

theorem joinPath_append {ds rest : List Component} (hds : ds ≠ []) (hrest : rest ≠ []) :
    joinPath (ds ++ rest) = joinPath ds ++ '/' :: joinPath rest := by
  induction ds with
  | nil => exact absurd rfl hds
  | cons d ds ih =>
    cases ds with
    | nil =>
      obtain ⟨r, rest, rfl⟩ := List.exists_cons_of_ne_nil hrest
      simp [joinPath]
    | cons d' ds =>
      have ih := ih (by simp)
      simp only [joinPath, List.cons_append, List.intercalate_cons_cons, List.append_assoc] at ih ⊢
      rw [ih]

/-- A directory and a slash begin the text of a path exactly if the path goes on from that directory. -/
theorem joinPath_slash_begins {cs ds : List Component} (hcs : Clean cs) (hds : Clean ds) (hne : ds ≠ []) :
    joinPath ds ++ ['/'] <+: joinPath cs ↔ ∃ rest, rest ≠ [] ∧ cs = ds ++ rest := by
  constructor
  · rintro ⟨t, ht⟩
    have hcs' : cs ≠ [] := by
      rintro rfl
      have hnil : joinPath ([] : List Component) = [] := rfl
      rw [hnil] at ht
      simp at ht
    refine ⟨t.splitOn '/', List.splitOn_ne_nil '/' t, ?_⟩
    rw [← splitOn_joinPath hcs hcs', ← ht, List.append_assoc, List.singleton_append, List.splitOn_append_cons_self,
      splitOn_joinPath hds hne]
  · rintro ⟨rest, hrest, rfl⟩
    exact ⟨joinPath rest, by rw [joinPath_append hne hrest]; simp⟩

/-- An end without a slash is an end of what comes after the last slash. -/
theorem suffix_of_suffix_slash {s a b : List Char} (hs : '/' ∉ s) (h : s <:+ a ++ '/' :: b) : s <:+ b := by
  rcases List.suffix_or_suffix_of_suffix h (List.suffix_append a ('/' :: b)) with h | ⟨t, rfl⟩
  · rcases List.suffix_cons_iff.1 h with rfl | h
    · exact absurd List.mem_cons_self hs
    · exact h
  · exact absurd (by simp) hs

/-- An end without a slash is an end of the last component. -/
theorem suffix_joinPath {s : List Char} {cs : List Component} (hs : '/' ∉ s) (hne : s ≠ []) (h : s <:+ joinPath cs) :
    ∃ before last, cs = before ++ [last] ∧ s <:+ last := by
  rcases List.eq_nil_or_concat cs with rfl | ⟨before, last, rfl⟩
  · exact absurd (List.suffix_nil.1 h) hne
  · refine ⟨before, last, List.concat_eq_append, ?_⟩
    rw [List.concat_eq_append] at h
    by_cases hbefore : before = []
    · simpa [hbefore, joinPath] using h
    · rw [joinPath_append hbefore (by simp)] at h
      simpa [joinPath] using suffix_of_suffix_slash hs h

/-- The text of components does not begin with a slash. -/
theorem joinPath_head {cs : List Component} (hcs : Clean cs) : (joinPath cs).head? ≠ some '/' := by
  intro h
  obtain ⟨t, ht⟩ := List.head?_eq_some_iff.1 h
  have hne : cs ≠ [] := by
    rintro rfl
    cases ht
  have hsplit := splitOn_joinPath hcs hne
  rw [ht, show '/' :: t = [] ++ '/' :: t from rfl, List.splitOn_append_cons_self, List.splitOn_nil] at hsplit
  exact (hcs [] (by rw [← hsplit]; exact List.mem_cons_self)).1 rfl

/-- Nor does it end with one. -/
theorem joinPath_last {cs : List Component} (hcs : Clean cs) : ¬['/'] <:+ joinPath cs := by
  rintro ⟨t, ht⟩
  have hne : cs ≠ [] := by
    rintro rfl
    have hnil : joinPath ([] : List Component) = [] := rfl
    rw [hnil] at ht
    simp at ht
  have hsplit := splitOn_joinPath hcs hne
  rw [← ht, List.splitOn_append_cons_self, List.splitOn_nil] at hsplit
  exact (hcs [] (by rw [← hsplit]; simp)).1 rfl

/-! ## Walking along components -/

theorem enter_name {dir : List Component} {c : Component} (h : c ≠ []) (hdot : c ≠ ['.']) (hup : c ≠ ['.', '.']) :
    enter dir c = dir ++ [c] := by
  rw [enter, if_neg (by simp [h, hdot]), if_neg hup]

/-- Names only lead further down. -/
theorem foldl_enter_names {cs dir : List Component} (hcs : Clean cs) (hdot : ['.'] ∉ cs) (hup : ['.', '.'] ∉ cs) :
    cs.foldl enter dir = dir ++ cs := by
  induction cs generalizing dir with
  | nil => simp
  | cons c cs ih =>
    rw [List.mem_cons, not_or] at hdot hup
    rw [List.foldl_cons, enter_name (hcs c List.mem_cons_self).1 (Ne.symm hdot.1) (Ne.symm hup.1),
      ih (fun c hc => hcs c (List.mem_cons_of_mem _ hc)) hdot.2 hup.2]
    simp

end HaexVault.Lib.PathText
