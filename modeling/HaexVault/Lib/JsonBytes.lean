import Mathlib.Data.List.TakeWhile
/-!
# Bytes as a JSON array

Bytes written as a JSON array of numbers, `[1,20,255]`. The text of an array ends where its bracket
does, so two texts that begin with an array begin with the same one (`array_append_inj`), and a pair
of arrays is told from any other (`pair_injective`).
-/

namespace HaexVault.Lib.JsonBytes

/-- The decimal digits of a byte. -/
def decimal (b : UInt8) : List UInt8 := (Nat.toDigits 10 b.toNat).map fun c => UInt8.ofNat c.toNat

def IsDigit (c : UInt8) : Prop := 48 ≤ c ∧ c ≤ 57

instance (c : UInt8) : Decidable (IsDigit c) := inferInstanceAs (Decidable (_ ∧ _))

/-- The elements of an array and the bracket after them. -/
def items : List UInt8 → List UInt8
  | [] => [93]
  | [b] => decimal b ++ [93]
  | b :: bs => decimal b ++ 44 :: items bs

/-- The array of the bytes. -/
def array (bs : List UInt8) : List UInt8 := 91 :: items bs

/-- The array of two arrays. -/
def pair (a b : List UInt8) : List UInt8 := 91 :: (array a ++ 44 :: (array b ++ [93]))

/-! ## Digits -/

theorem decimal_facts : ∀ n < 256, (decimal (UInt8.ofNat n)).all (IsDigit ·) ∧ decimal (UInt8.ofNat n) ≠ [] ∧
    (decimal (UInt8.ofNat n)).foldl (fun m c => 10 * m + (c.toNat - 48)) 0 = n := by
  decide +kernel

theorem decimal_spec (b : UInt8) : (∀ c ∈ decimal b, IsDigit c) ∧ decimal b ≠ [] ∧
    (decimal b).foldl (fun m c => 10 * m + (c.toNat - 48)) 0 = b.toNat := by
  have h := decimal_facts b.toNat b.toNat_lt
  rw [UInt8.ofNat_toNat] at h
  exact ⟨by simpa using h.1, h.2⟩

theorem decimal_injective {a b : UInt8} (h : decimal a = decimal b) : a = b := by
  refine UInt8.toNat_inj.1 ?_
  rw [← (decimal_spec a).2.2, ← (decimal_spec b).2.2, h]

/-- Digits end where something else begins. -/
theorem digits_append_inj {ds ds' r r' : List UInt8} {c c' : UInt8} (hds : ∀ d ∈ ds, IsDigit d) (hds' : ∀ d ∈ ds', IsDigit d)
    (hc : ¬IsDigit c) (hc' : ¬IsDigit c') (h : ds ++ c :: r = ds' ++ c' :: r') : ds = ds' ∧ c :: r = c' :: r' := by
  have htake : ∀ {ds : List UInt8} {c : UInt8} (r : List UInt8), (∀ d ∈ ds, IsDigit d) → ¬IsDigit c →
      (ds ++ c :: r).takeWhile (fun d => IsDigit d) = ds := fun r hds hc => by
    rw [List.takeWhile_append_of_pos fun d hd => decide_eq_true (hds d hd), List.takeWhile_cons_of_neg (by simpa using hc),
      List.append_nil]
  have hsame : ds = ds' := by rw [← htake r hds hc, h, htake r' hds' hc']
  exact ⟨hsame, List.append_cancel_left (hsame ▸ h)⟩

theorem decimal_append_inj {a b c c' : UInt8} {r r' : List UInt8} (hc : ¬IsDigit c) (hc' : ¬IsDigit c')
    (h : decimal a ++ c :: r = decimal b ++ c' :: r') : a = b ∧ c :: r = c' :: r' := by
  obtain ⟨hsame, hrest⟩ := digits_append_inj (decimal_spec a).1 (decimal_spec b).1 hc hc' h
  exact ⟨decimal_injective hsame, hrest⟩

/-! ## Arrays -/

@[simp] theorem items_one (b : UInt8) : items [b] = decimal b ++ [93] := rfl

@[simp] theorem items_cons (b b' : UInt8) (bs : List UInt8) : items (b :: b' :: bs) = decimal b ++ 44 :: items (b' :: bs) := rfl

/-- The first byte of elements is a digit. -/
theorem items_head (b : UInt8) (bs r : List UInt8) : ∃ c rest, items (b :: bs) ++ r = c :: rest ∧ IsDigit c := by
  obtain ⟨c, rest, hdecimal⟩ := List.exists_cons_of_ne_nil (decimal_spec b).2.1
  have hc : IsDigit c := (decimal_spec b).1 c (hdecimal ▸ List.mem_cons_self)
  cases bs with
  | nil => exact ⟨c, _, by rw [items_one, hdecimal]; rfl, hc⟩
  | cons b' bs => exact ⟨c, _, by rw [items_cons, hdecimal]; rfl, hc⟩

theorem items_append_inj {a b r r' : List UInt8} (h : items a ++ r = items b ++ r') : a = b ∧ r = r' := by
  have hclose : ¬IsDigit 93 := by decide
  have hcomma : ¬IsDigit 44 := by decide
  induction a generalizing b with
  | nil =>
    cases b with
    | nil => exact ⟨rfl, (List.cons.inj h).2⟩
    | cons y b =>
      obtain ⟨c, rest, hhead, hc⟩ := items_head y b r'
      rw [hhead] at h
      exact absurd ((List.cons.inj h).1 ▸ hc) hclose
  | cons x a ih =>
    cases b with
    | nil =>
      obtain ⟨c, rest, hhead, hc⟩ := items_head x a r
      rw [hhead] at h
      exact absurd ((List.cons.inj h).1 ▸ hc) hclose
    | cons y b =>
      cases a with
      | nil =>
        cases b with
        | nil =>
          simp only [items_one, List.append_assoc, List.cons_append, List.nil_append] at h
          obtain ⟨rfl, hrest⟩ := decimal_append_inj hclose hclose h
          exact ⟨rfl, (List.cons.inj hrest).2⟩
        | cons y' b =>
          simp only [items_one, items_cons, List.append_assoc, List.cons_append, List.nil_append] at h
          obtain ⟨-, hrest⟩ := decimal_append_inj hclose hcomma h
          exact absurd (List.cons.inj hrest).1 (by decide)
      | cons x' a =>
        cases b with
        | nil =>
          simp only [items_one, items_cons, List.append_assoc, List.cons_append, List.nil_append] at h
          obtain ⟨-, hrest⟩ := decimal_append_inj hcomma hclose h
          exact absurd (List.cons.inj hrest).1 (by decide)
        | cons y' b =>
          simp only [items_cons, List.append_assoc, List.cons_append] at h
          obtain ⟨rfl, hrest⟩ := decimal_append_inj hcomma hcomma h
          obtain ⟨hsame, hr⟩ := ih (List.cons.inj hrest).2
          exact ⟨by rw [hsame], hr⟩

theorem array_append_inj {a b r r' : List UInt8} (h : array a ++ r = array b ++ r') : a = b ∧ r = r' :=
  items_append_inj (List.cons.inj h).2

theorem pair_injective {a b a' b' : List UInt8} (h : pair a b = pair a' b') : a = a' ∧ b = b' := by
  obtain ⟨ha, hrest⟩ := array_append_inj (List.cons.inj h).2
  exact ⟨ha, (array_append_inj (List.cons.inj hrest).2).1⟩

end HaexVault.Lib.JsonBytes
