import Mathlib.Algebra.Group.Nat.Defs
import Mathlib.Data.Prod.Lex
import Mathlib.Data.Nat.Basic
import Mathlib.Data.List.Basic
/-!
# HLC timestamp texts (`crdt/hlc.rs`)

An HLC travels as text, `<u64 time>/<hex node id>`. The comparator parses both
halves and falls back to zero for a half it cannot parse, so many texts rank
the same. `hlcKey` is the pair it compares; every order fact below goes through
the linear order on those pairs.
-/

namespace HaexVault.Crdt

/-- `char::to_digit`. -/
def digitVal (radix : Nat) (c : Char) : Option Nat :=
  let v :=
    if '0' ≤ c ∧ c ≤ '9' then some (c.toNat - '0'.toNat)
    else if 'a' ≤ c ∧ c ≤ 'z' then some (c.toNat - 'a'.toNat + 10)
    else if 'A' ≤ c ∧ c ≤ 'Z' then some (c.toNat - 'A'.toNat + 10)
    else none
  v.filter (· < radix)

def parseDigits (radix : Nat) : List Char → Option Nat
  | [] => none
  | c :: cs => (c :: cs).foldlM (fun n d => (digitVal radix d).map (n * radix + ·)) 0

/-- `from_str_radix` of the unsigned type with `2 ^ bits` values: a leading `+`
is allowed before at least one digit, and too large a number is an error. -/
def fromStrRadix (radix bits : Nat) (s : List Char) : Option Nat :=
  let body := match s with
    | '+' :: rest => rest
    | _ => s
  (parseDigits radix body).filter (· < 2 ^ bits)

def splitOnce (sep : Char) : List Char → Option (List Char × List Char)
  | [] => none
  | c :: cs => if c = sep then some ([], cs) else (splitOnce sep cs).map fun p => (c :: p.1, p.2)

def parseHlcNodeHex (nodeHex : List Char) : Option Nat := fromStrRadix 16 128 nodeHex

/-- The inner `parse` of `compare_hlc_strings`. -/
def parseHlc (s : String) : Nat × Nat :=
  let (time, node) := (splitOnce '/' s.toList).getD (s.toList, [])
  ((fromStrRadix 10 64 time).getD 0, if node = [] then 0 else (parseHlcNodeHex node).getD 0)

def compareHlcStrings (a b : String) : Ordering :=
  (compare (parseHlc a).1 (parseHlc b).1).then (compare (parseHlc a).2 (parseHlc b).2)

def hlcIsNewer (a b : String) : Bool := compareHlcStrings a b == .gt

/-- `hlc_max`: `Iterator::max_by` keeps the last of several maxima. -/
def hlcMax : List String → Option String
  | [] => none
  | s :: ss => some (ss.foldl (fun best t => if compareHlcStrings best t = .gt then best else t) s)

/-- `hlc_min`: `Iterator::min_by` keeps the first of several minima. -/
def hlcMin : List String → Option String
  | [] => none
  | s :: ss => some (ss.foldl (fun best t => if compareHlcStrings best t = .gt then t else best) s)

/-- What the comparator compares: time, then node id. -/
def hlcKey (s : String) : ℕ ×ₗ ℕ := toLex (parseHlc s)

def clockKey (h : Option String) : ℕ ×ₗ ℕ := hlcKey (h.getD "")

/-! ## The comparator is the order of `hlcKey` -/

theorem compareHlcStrings_eq (a b : String) : compareHlcStrings a b = compare (hlcKey a) (hlcKey b) := by
  simp only [compareHlcStrings, hlcKey]
  rcases lt_trichotomy (parseHlc a).1 (parseHlc b).1 with h | h | h
  · rw [compare_lt_iff_lt.2 h, compare_lt_iff_lt.2 (Prod.Lex.toLex_lt_toLex.2 (.inl h))]; rfl
  · rw [compare_eq_iff_eq.2 h]
    rcases lt_trichotomy (parseHlc a).2 (parseHlc b).2 with h' | h' | h'
    · rw [compare_lt_iff_lt.2 h', compare_lt_iff_lt.2 (Prod.Lex.toLex_lt_toLex.2 (.inr ⟨h, h'⟩))]; rfl
    · rw [compare_eq_iff_eq.2 h', compare_eq_iff_eq.2 (by rw [Prod.ext h h'])]; rfl
    · rw [compare_gt_iff_gt.2 h', compare_gt_iff_gt.2 (Prod.Lex.toLex_lt_toLex.2 (.inr ⟨h.symm, h'⟩))]; rfl
  · rw [compare_gt_iff_gt.2 h, compare_gt_iff_gt.2 (Prod.Lex.toLex_lt_toLex.2 (.inl h))]; rfl

theorem hlcIsNewer_iff {a b : String} : hlcIsNewer a b = true ↔ hlcKey b < hlcKey a := by
  rw [hlcIsNewer, compareHlcStrings_eq, beq_iff_eq, compare_gt_iff_gt]

theorem compare_ne_gt_iff {a b : String} : compareHlcStrings a b ≠ .gt ↔ hlcKey a ≤ hlcKey b := by
  rw [compareHlcStrings_eq, ne_eq, compare_gt_iff_gt]; exact not_lt

theorem hlcKey_empty_le (s : String) : hlcKey "" ≤ hlcKey s := by
  have : hlcKey "" = toLex (0, 0) := by decide
  rw [this, hlcKey, Prod.Lex.toLex_le_toLex]
  rcases Nat.eq_zero_or_pos (parseHlc s).1 with h | h
  · exact .inr ⟨h.symm, Nat.zero_le _⟩
  · exact .inl h

@[simp] theorem clockKey_some (h : String) : clockKey (some h) = hlcKey h := rfl
@[simp] theorem clockKey_none : clockKey none = hlcKey "" := rfl

-- From here on a key is only compared; unfolding it would run the parser on open terms.
attribute [irreducible] hlcKey

end HaexVault.Crdt
