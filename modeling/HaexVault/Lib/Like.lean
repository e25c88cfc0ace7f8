import Mathlib.Data.List.Infix
/-!
# SQL's LIKE

`_` stands for one character, `%` for any text, and ASCII letters match in either
case. A pattern that ends in `%` asks for a beginning the rest of it fits
(`like_append_percent`), which is more than the beginning being the pattern itself.
-/

namespace HaexVault.Lib.Like

/-- One character of a pattern, other than `%`, against one of the text. -/
def fits (p c : Char) : Bool := p = '_' || p.toLower = c.toLower

/-- `s LIKE p`. -/
def like : List Char → List Char → Bool
  | [], s => s.isEmpty
  | p :: ps, s =>
    if p = '%' then s.tails.any (like ps)
    else match s with
      | [] => false
      | c :: s => fits p c && like ps s

theorem like_cons_percent {ps s : List Char} : like ('%' :: ps) s = true ↔ ∃ a b, s = a ++ b ∧ like ps b = true := by
  simp only [like, if_true, List.any_eq_true, List.mem_tails]
  constructor
  · rintro ⟨b, ⟨a, rfl⟩, h⟩
    exact ⟨a, b, rfl, h⟩
  · rintro ⟨a, b, rfl, h⟩
    exact ⟨b, ⟨a, rfl⟩, h⟩

theorem like_cons {p : Char} (hp : p ≠ '%') {ps s : List Char} :
    like (p :: ps) s = true ↔ ∃ c t, s = c :: t ∧ fits p c = true ∧ like ps t = true := by
  simp only [like, if_neg hp]
  rcases s with _ | ⟨c, t⟩
  · simp
  · simp

/-- Every text fits itself as a pattern. -/
theorem like_self (p : List Char) : like p p = true := by
  induction p with
  | nil => rfl
  | cons p ps ih =>
    by_cases hp : p = '%'
    · subst hp
      exact like_cons_percent.2 ⟨['%'], ps, rfl, ih⟩
    · exact (like_cons hp).2 ⟨p, ps, rfl, by simp [fits], ih⟩

/-- A pattern that ends in `%` fits a text when the rest of it fits a beginning of the text. -/
theorem like_append_percent {p s : List Char} : like (p ++ ['%']) s = true ↔ ∃ a b, s = a ++ b ∧ like p a = true := by
  induction p generalizing s with
  | nil =>
    rw [List.nil_append, like_cons_percent]
    constructor
    · intro _
      exact ⟨[], s, rfl, rfl⟩
    · intro _
      exact ⟨s, [], by simp, rfl⟩
  | cons p ps ih =>
    rw [List.cons_append]
    by_cases hp : p = '%'
    · subst hp
      rw [like_cons_percent]
      constructor
      · rintro ⟨a, b, rfl, h⟩
        obtain ⟨b₁, b₂, rfl, hb⟩ := ih.1 h
        exact ⟨a ++ b₁, b₂, by simp, like_cons_percent.2 ⟨a, b₁, rfl, hb⟩⟩
      · rintro ⟨a, b, rfl, h⟩
        obtain ⟨a₁, a₂, rfl, ha⟩ := like_cons_percent.1 h
        exact ⟨a₁, a₂ ++ b, by simp, ih.2 ⟨a₂, b, rfl, ha⟩⟩
    · rw [like_cons hp]
      constructor
      · rintro ⟨c, t, rfl, hc, h⟩
        obtain ⟨a, b, rfl, ha⟩ := ih.1 h
        exact ⟨c :: a, b, rfl, (like_cons hp).2 ⟨c, a, rfl, hc, ha⟩⟩
      · rintro ⟨a, b, rfl, h⟩
        obtain ⟨c, t, rfl, hc, ht⟩ := (like_cons hp).1 h
        exact ⟨c, t ++ b, rfl, hc, ih.2 ⟨t, b, rfl, ht⟩⟩

/-- A text that begins with the pattern fits it followed by `%`. -/
theorem like_of_isPre {p s : List Char} (h : p <+: s) : like (p ++ ['%']) s = true := by
  obtain ⟨r, rfl⟩ := h
  exact like_append_percent.2 ⟨p, r, rfl, like_self p⟩

/-- A text in either letter case fits itself as a pattern. -/
theorem like_of_lower {p s : List Char} (h : p.map Char.toLower = s.map Char.toLower) : like p s = true := by
  induction p generalizing s with
  | nil =>
    obtain rfl := List.map_eq_nil_iff.1 h.symm
    rfl
  | cons p ps ih =>
    obtain ⟨c, t, rfl, hc, ht⟩ := List.map_eq_cons_iff.1 h.symm
    by_cases hp : p = '%'
    · subst hp
      exact like_cons_percent.2 ⟨[c], t, rfl, ih ht.symm⟩
    · exact (like_cons hp).2 ⟨c, t, rfl, by simp [fits, hc], ih ht.symm⟩

/-- A text fits what stands in it, in either letter case, between two `%`. -/
theorem like_of_lower_infix {p s : List Char} (h : p.map Char.toLower <:+: s.map Char.toLower) :
    like ('%' :: p ++ ['%']) s = true := by
  obtain ⟨a, b, hab⟩ := h
  obtain ⟨s', s₃, rfl, hs', -⟩ := List.map_eq_append_iff.1 hab.symm
  obtain ⟨s₁, s₂, rfl, -, hs₂⟩ := List.map_eq_append_iff.1 hs'
  refine like_cons_percent.2 ⟨s₁, s₂ ++ s₃, List.append_assoc _ _ _, ?_⟩
  exact like_append_percent.2 ⟨s₂, s₃, rfl, like_of_lower hs₂.symm⟩

end HaexVault.Lib.Like
