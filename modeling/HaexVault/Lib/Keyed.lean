import Mathlib.Data.List.Nodup
/-!
# Lists of rows under a key

A table is a list of rows, read by key: `get` is the first row with a key,
`modify` rewrites the rows with a key in place, and a new row goes to the end.
As long as a rewrite keeps the key, these behave like operations on a map.
`DiffersIn P` compares two such lists row by row: whatever one has and the other
lacks satisfies `P`.
-/

namespace HaexVault.Lib.Keyed

variable {α κ : Type} [DecidableEq κ] (key : α → κ)

/-- The first row with key `k`. -/
def get (l : List α) (k : κ) : Option α := l.find? fun a => key a = k

/-- Rewrite every row with key `k`. -/
def modify (l : List α) (k : κ) (f : α → α) : List α := l.map fun a => if key a = k then f a else a

variable {key}

theorem get_key {l : List α} {k : κ} {a : α} (h : get key l k = some a) : key a = k := by
  simpa using List.find?_some h

theorem get_mem {l : List α} {k : κ} {a : α} (h : get key l k = some a) : a ∈ l :=
  List.mem_of_find?_eq_some h

theorem get_eq_none {l : List α} {k : κ} : get key l k = none ↔ ∀ a ∈ l, key a ≠ k := by
  simp [get, List.find?_eq_none]

theorem get_modify (l : List α) (k k' : κ) (f : α → α) (hf : ∀ a, key a = k → key (f a) = k) :
    get key (modify key l k f) k' = if k' = k then (get key l k).map f else get key l k' := by
  induction l with
  | nil => simp [get, modify]
  | cons a l ih =>
    simp only [get, modify, List.map_cons, List.find?_cons] at ih ⊢
    by_cases ha : key a = k
    · by_cases hk : k' = k
      · subst hk; simp [ha, hf a ha]
      · have hk' : k ≠ k' := Ne.symm hk
        simp only [ha, if_true, hf a ha, hk, hk', if_false, decide_false] at ih ⊢
        exact ih
    · by_cases hk : k' = k
      · subst hk
        simp only [ha, if_true, if_false, decide_false] at ih ⊢
        exact ih
      · by_cases hak : key a = k'
        · subst hak; simp [hk]
        · simp only [ha, hk, hak, if_false, decide_false] at ih ⊢
          exact ih

/-- A rewrite that keeps the key keeps the list of keys. -/
theorem map_key_modify (l : List α) (k : κ) (f : α → α) (hf : ∀ a, key a = k → key (f a) = k) :
    (modify key l k f).map key = l.map key := by
  rw [modify, List.map_map]
  refine List.map_congr_left fun a _ => ?_
  by_cases ha : key a = k
  · simp [ha, hf a ha]
  · simp [ha]

theorem get_append (l : List α) (a : α) (k : κ) (h : get key l (key a) = none) :
    get key (l ++ [a]) k = if k = key a then some a else get key l k := by
  by_cases hk : k = key a
  · subst hk
    simp only [get] at h ⊢
    simp [List.find?_append, h]
  · have : ¬ key a = k := fun e => hk e.symm
    simp [get, List.find?_append, hk, this]

/-- Rows added at the end hide no row. -/
theorem get_append_of_some {l : List α} {k : κ} {a : α} (h : get key l k = some a) (l' : List α) :
    get key (l ++ l') k = some a := by
  unfold get at h ⊢
  rw [List.find?_append, h]
  rfl

/-- Without repeated keys a row is found under its own key. -/
theorem get_of_mem {l : List α} (h : (l.map key).Nodup) {a : α} (ha : a ∈ l) : get key l (key a) = some a := by
  cases hg : get key l (key a) with
  | none => exact absurd rfl (get_eq_none.1 hg a ha)
  | some b => rw [List.inj_on_of_nodup_map h (get_mem hg) ha (get_key hg)]

/-- Every row that only one of the lists has satisfies `P`. -/
structure DiffersIn (P : α → Prop) (l l' : List α) : Prop where
  added : ∀ a ∈ l', a ∈ l ∨ P a
  removed : ∀ a ∈ l, a ∈ l' ∨ P a

namespace DiffersIn
variable {P : α → Prop} {l l' l'' : List α}

theorem refl (l : List α) : DiffersIn P l l := ⟨fun _ h => .inl h, fun _ h => .inl h⟩

theorem trans (h : DiffersIn P l l') (h' : DiffersIn P l' l'') : DiffersIn P l l'' where
  added a ha := by
    rcases h'.added a ha with ha | ha
    · exact h.added a ha
    · exact .inr ha
  removed a ha := by
    rcases h.removed a ha with ha | ha
    · exact h'.removed a ha
    · exact .inr ha

theorem append {a : α} (ha : P a) : DiffersIn P l (l ++ [a]) where
  added b hb := by
    rcases List.mem_append.1 hb with hb | hb
    · exact .inl hb
    · exact .inr (List.mem_singleton.1 hb ▸ ha)
  removed b hb := .inl (List.mem_append_left _ hb)

/-- A rewrite of rows in `P` to rows in `P`. -/
theorem modify {k : κ} {f : α → α} (h : ∀ a ∈ l, key a = k → P a ∧ P (f a)) : DiffersIn P l (modify key l k f) where
  added b hb := by
    obtain ⟨a, ha, rfl⟩ := List.mem_map.1 hb
    by_cases hk : key a = k
    · simp only [hk, if_true]; exact .inr (h a ha hk).2
    · simp only [hk, if_false]; exact .inl ha
  removed a ha := by
    by_cases hk : key a = k
    · exact .inr (h a ha hk).1
    · exact .inl (List.mem_map.2 ⟨a, ha, by simp [hk]⟩)

theorem mono {Q : α → Prop} (h : DiffersIn P l l') (hpq : ∀ a, P a → Q a) : DiffersIn Q l l' :=
  ⟨fun a ha => (h.added a ha).imp_right (hpq a), fun a ha => (h.removed a ha).imp_right (hpq a)⟩

/-- A property no row in `P` has: both lists have the same rows with it. -/
theorem mem_iff (h : DiffersIn P l l') {a : α} (ha : ¬ P a) : a ∈ l' ↔ a ∈ l :=
  ⟨fun hm => (h.added a hm).resolve_right ha, fun hm => (h.removed a hm).resolve_right ha⟩

end DiffersIn

end HaexVault.Lib.Keyed
