import Mathlib.Algebra.Group.Nat.Defs
import Mathlib.Data.List.Lex
import Mathlib.Order.Lattice
/-!
# Numerals compared as texts

Two numerals without leading zeros and of one length are ordered as texts as their numbers are.
Where one is longer, the texts are compared by the leading digits of the longer one
(`codes_lt_longer`), while its number is always the greater (`lt_of_length_lt`).
-/

namespace HaexVault.Lib.Numerals

/-- Texts of one length come first, what follows them decides when they are equal. -/
theorem append_lt_append {α : Type} [LinearOrder α] {xs ys : List α} (h : xs.length = ys.length) (zs ws : List α) :
    xs ++ zs < ys ++ ws ↔ xs < ys ∨ xs = ys ∧ zs < ws := by
  induction xs generalizing ys with
  | nil =>
    obtain rfl := List.length_eq_zero_iff.1 h.symm
    simp
  | cons x xs ih =>
    rcases ys with _ | ⟨y, ys⟩
    · simp at h
    · simp only [List.cons_append, List.cons_lt_cons_iff, ih (Nat.succ.inj h), List.cons.injEq]
      constructor
      · rintro (hlt | ⟨rfl, hlt | ⟨rfl, hlt⟩⟩)
        · exact .inl (.inl hlt)
        · exact .inl (.inr ⟨rfl, hlt⟩)
        · exact .inr ⟨⟨rfl, rfl⟩, hlt⟩
      · rintro ((hlt | ⟨rfl, hlt⟩) | ⟨⟨rfl, rfl⟩, hlt⟩)
        · exact .inl hlt
        · exact .inr ⟨rfl, .inl hlt⟩
        · exact .inr ⟨rfl, .inr ⟨rfl, hlt⟩⟩

theorem lt_iff_div_mod (b m n : Nat) : m < n ↔ m / b < n / b ∨ m / b = n / b ∧ m % b < n % b := by
  have hm := Nat.div_add_mod m b
  have hn := Nat.div_add_mod n b
  rcases lt_trichotomy (m / b) (n / b) with h | h | h
  · exact iff_of_true (Nat.lt_of_div_lt_div h) (.inl h)
  · rw [h] at hm
    omega
  · have hlt : n < m := Nat.lt_of_div_lt_div h
    omega

/-- The codes of the digits of a number, the way a text comparison sees them. -/
def codes (b n : Nat) : List Nat := (Nat.toDigits b n).map Char.toNat

theorem digitCode_lt_iff {d e : Nat} (hd : d < 16) (he : e < 16) : d.digitChar.toNat < e.digitChar.toNat ↔ d < e := by
  have hall : ∀ d < 16, ∀ e < 16, d.digitChar.toNat < e.digitChar.toNat ↔ d < e := by decide
  exact hall d hd e he

section
variable {b m n : Nat}

theorem length_codes_pos : 0 < (codes b n).length := by
  rw [codes, List.length_map]
  exact Nat.length_toDigits_pos

theorem length_codes_le_iff (hb : 1 < b) {k : Nat} (hk : 0 < k) : (codes b n).length ≤ k ↔ n < b ^ k := by
  rw [codes, List.length_map]
  exact Nat.length_toDigits_le_iff hb hk

theorem codes_small (h : n < b) : codes b n = [n.digitChar.toNat] := by
  rw [codes, Nat.toDigits_of_lt_base h, List.map_singleton]

theorem codes_step (hb : 1 < b) (h : b ≤ n) : codes b n = codes b (n / b) ++ [(n % b).digitChar.toNat] := by
  rw [codes, Nat.toDigits_of_base_le hb h, List.map_append, List.map_singleton]
  rfl

/-- Numerals of one length are ordered as their numbers. -/
theorem codes_lt_iff (hb : 1 < b) (hb' : b ≤ 16) (h : (codes b m).length = (codes b n).length) :
    codes b m < codes b n ↔ m < n := by
  induction m using Nat.strong_induction_on generalizing n with
  | _ m ih =>
    have hone : ∀ {k}, (codes b k).length ≤ 1 ↔ k < b := fun {k} => by simpa using length_codes_le_iff hb (n := k) Nat.one_pos
    by_cases hm : m < b
    · have hn : n < b := hone.1 (h ▸ hone.2 hm)
      rw [codes_small hm, codes_small hn, List.cons_lt_cons_iff, digitCode_lt_iff (by omega) (by omega)]
      simp
    · have hn : ¬ n < b := fun hn => hm (hone.1 (h ▸ hone.2 hn))
      rw [codes_step hb (not_lt.1 hm), codes_step hb (not_lt.1 hn)] at h ⊢
      have hlen : (codes b (m / b)).length = (codes b (n / b)).length := by simpa using h
      have hless : m / b < m := Nat.div_lt_self (by omega) hb
      have hquot := ih (m / b) hless hlen
      have hdigit : ∀ k, k % b < 16 := fun k => (Nat.mod_lt k (by omega)).trans_le hb'
      -- equal texts come from equal numbers, as neither is below the other
      have heq : codes b (m / b) = codes b (n / b) ↔ m / b = n / b := by
        refine ⟨fun hcodes => ?_, fun hnum => by rw [hnum]⟩
        rcases lt_trichotomy (m / b) (n / b) with hlt | hnum | hgt
        · exact absurd (hcodes ▸ hquot.2 hlt) (lt_irrefl _)
        · exact hnum
        · exact absurd (hcodes ▸ (ih (n / b) (hgt.trans hless) hlen.symm).2 hgt) (lt_irrefl _)
      rw [append_lt_append hlen, hquot, heq, lt_iff_div_mod b m n, List.cons_lt_cons_iff,
        digitCode_lt_iff (hdigit m) (hdigit n)]
      simp

theorem codes_inj (hb : 1 < b) (hb' : b ≤ 16) (h : codes b m = codes b n) : m = n := by
  rcases lt_trichotomy m n with hlt | heq | hgt
  · exact absurd (h ▸ (codes_lt_iff hb hb' (congrArg _ h)).2 hlt) (lt_irrefl _)
  · exact heq
  · exact absurd (h ▸ (codes_lt_iff hb hb' (congrArg _ h.symm)).2 hgt) (lt_irrefl _)

/-- A numeral begins with the one of its number without the last digits. -/
theorem codes_split (hb : 1 < b) {k : Nat} (h : b ^ k ≤ n) : ∃ tail, codes b n = codes b (n / b ^ k) ++ tail ∧ tail.length = k := by
  induction k with
  | zero => exact ⟨[], by simp⟩
  | succ k ih =>
    rw [Nat.pow_succ] at h
    have hpos : 0 < b ^ k := Nat.pow_pos (by omega)
    obtain ⟨tail, htail, hlen⟩ := ih ((Nat.le_mul_of_pos_right _ (by omega)).trans h)
    have hb' : b ≤ n / b ^ k := (Nat.le_div_iff_mul_le hpos).2 (by rwa [Nat.mul_comm])
    refine ⟨(n / b ^ k % b).digitChar.toNat :: tail, ?_, by simp [hlen]⟩
    rw [htail, codes_step hb hb', Nat.div_div_eq_div_mul, ← Nat.pow_succ, List.append_assoc, List.singleton_append]

/-- The longer numeral is the greater number. -/
theorem lt_of_length_lt (hb : 1 < b) (h : (codes b m).length < (codes b n).length) : m < n := by
  have hm : m < b ^ (codes b m).length := (length_codes_le_iff hb length_codes_pos).1 le_rfl
  by_contra hlt
  have hn : n < b ^ (codes b m).length := lt_of_le_of_lt (not_lt.1 hlt) hm
  exact absurd ((length_codes_le_iff hb length_codes_pos).2 hn) (not_le.2 h)

/-- A shorter numeral is below a longer one as a text where it is at most the number of its leading digits. -/
theorem codes_lt_longer (hb : 1 < b) (hb' : b ≤ 16) (h : (codes b m).length < (codes b n).length) :
    codes b m < codes b n ↔ m ≤ n / b ^ ((codes b n).length - (codes b m).length) := by
  generalize hk : (codes b n).length - (codes b m).length = k
  have hpos : 0 < (codes b m).length := length_codes_pos
  have hlow : b ^ k ≤ n := not_lt.1 fun hlt => absurd ((length_codes_le_iff hb (by omega)).2 hlt) (by omega)
  obtain ⟨tail, htail, hlen⟩ := codes_split hb hlow
  have hsame : (codes b m).length = (codes b (n / b ^ k)).length := by
    have := congrArg List.length htail
    rw [List.length_append] at this
    omega
  have htail0 : [] < tail := by
    rcases tail with _ | ⟨x, tail⟩
    · simp at hlen
      omega
    · exact List.nil_lt_cons x tail
  rw [htail, ← List.append_nil (codes b m), append_lt_append hsame, codes_lt_iff hb hb' hsame, le_iff_lt_or_eq]
  exact or_congr_right ⟨fun heq => codes_inj hb hb' heq.1, fun heq => ⟨by rw [heq], htail0⟩⟩

end

end HaexVault.Lib.Numerals
