import Mathlib.Algebra.Group.Nat.Defs
import Mathlib.Algebra.Group.Int.Defs
/-!
# Arithmetic on 64-bit words

`checked_add` and its kind on `UInt64`, each with what it is as a number.
-/

namespace HaexVault.Lib.Words

def checkedAdd (a b : UInt64) : Option UInt64 := if a.toNat + b.toNat < 2 ^ 64 then some (a + b) else none

def checkedSub (a b : UInt64) : Option UInt64 := if b ≤ a then some (a - b) else none

def saturatingAdd (a b : UInt64) : UInt64 := if a.toNat + b.toNat < 2 ^ 64 then a + b else UInt64.ofNat (2 ^ 64 - 1)

def saturatingSub (a b : UInt64) : UInt64 := if b ≤ a then a - b else 0

variable {a b c : UInt64}

theorem toNat_add_of_lt (h : a.toNat + b.toNat < 2 ^ 64) : (a + b).toNat = a.toNat + b.toNat := by
  rw [UInt64.toNat_add, Nat.mod_eq_of_lt h]

theorem toNat_sub_of_le (h : b.toNat ≤ a.toNat) : (a - b).toNat = a.toNat - b.toNat :=
  UInt64.toNat_sub_of_le a b (UInt64.le_iff_toNat_le.2 h)

/-- A difference that is below zero is taken from the top. -/
theorem toNat_sub_of_lt (h : a.toNat < b.toNat) : (a - b).toNat = 2 ^ 64 + a.toNat - b.toNat := by
  have hb := b.toNat_lt
  rw [UInt64.toNat_sub]
  omega

theorem checkedAdd_eq_some : checkedAdd a b = some c ↔ c.toNat = a.toNat + b.toNat := by
  have hc := c.toNat_lt
  unfold checkedAdd
  split
  · rename_i hlt
    rw [Option.some.injEq, ← UInt64.toNat_inj, toNat_add_of_lt hlt, eq_comm]
  · rename_i hge
    simp only [reduceCtorEq, false_iff]
    omega

theorem checkedSub_eq_some : checkedSub a b = some c ↔ c.toNat + b.toNat = a.toNat := by
  unfold checkedSub
  simp only [UInt64.le_iff_toNat_le]
  split
  · rename_i hle
    rw [Option.some.injEq, ← UInt64.toNat_inj, toNat_sub_of_le hle]
    omega
  · simp only [reduceCtorEq, false_iff]
    omega

theorem toNat_saturatingAdd (a b : UInt64) : (saturatingAdd a b).toNat = min (a.toNat + b.toNat) (2 ^ 64 - 1) := by
  unfold saturatingAdd
  split
  · rename_i hlt
    rw [toNat_add_of_lt hlt]
    omega
  · rw [UInt64.toNat_ofNat_of_lt' (by decide)]
    omega

theorem toNat_saturatingSub (a b : UInt64) : (saturatingSub a b).toNat = a.toNat - b.toNat := by
  unfold saturatingSub
  simp only [UInt64.le_iff_toNat_le]
  split
  · rename_i hle
    exact toNat_sub_of_le hle
  · rw [UInt64.toNat_zero]
    omega

/-- A sum of signed words that stays in range. -/
theorem toInt_add_of_lt {x y : Int64} (hlow : -2 ^ 63 ≤ x.toInt + y.toInt) (hhigh : x.toInt + y.toInt < 2 ^ 63) :
    (x + y).toInt = x.toInt + y.toInt := by
  rw [Int64.toInt_add, Int.bmod_def]
  split <;> omega

theorem toNat_min (a b : UInt64) : (min a b).toNat = min a.toNat b.toNat := by
  simp only [Min.min, UInt64.le_iff_toNat_le]
  split <;> rfl

end HaexVault.Lib.Words
