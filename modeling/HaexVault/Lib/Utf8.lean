import Mathlib.Order.Nat
/-!
# Lossy UTF-8

Bytes decoded one by one. What cannot go on as a character is replaced by U+FFFD as far as it
went, and decoding starts again at the byte that did not fit. `flatMap_chars_iff` says when
pieces of a stream can be decoded each on its own: nowhere between two of them is a character
open with which the next byte goes on.
-/

namespace HaexVault.Lib.Utf8

def replacement : Char := Char.ofNat 0xFFFD

/-- A character that has begun: the bytes that go on with it, how many are missing, and its code so far. -/
structure Pending where
  low : Nat
  high : Nat
  left : Nat
  code : Nat
  low_ge : 0x80 ≤ low
  high_le : high ≤ 0xBF

/-- The bytes that are missing may be any of those that begin no character. -/
def tails (left code : Nat) : Pending := ⟨0x80, 0xBF, left, code, by decide, by decide⟩

/-- The first byte of a character of more than one. Overlong codes, surrogates and what is above the
last code point are ruled out by the second byte. -/
def lead (b : Nat) : Option Pending :=
  if 0xC2 ≤ b ∧ b ≤ 0xDF then some (tails 1 (b - 0xC0))
  else if b = 0xE0 then some ⟨0xA0, 0xBF, 2, 0, by decide, by decide⟩
  else if b = 0xED then some ⟨0x80, 0x9F, 2, 0xD, by decide, by decide⟩
  else if 0xE1 ≤ b ∧ b ≤ 0xEF then some (tails 2 (b - 0xE0))
  else if b = 0xF0 then some ⟨0x90, 0xBF, 3, 0, by decide, by decide⟩
  else if 0xF1 ≤ b ∧ b ≤ 0xF3 then some (tails 3 (b - 0xF0))
  else if b = 0xF4 then some ⟨0x80, 0x8F, 3, 4, by decide, by decide⟩
  else none

namespace Pending

def GoesOn (p : Pending) (b : UInt8) : Prop := p.low ≤ b.toNat ∧ b.toNat ≤ p.high

instance (p : Pending) (b : UInt8) : Decidable (p.GoesOn b) := inferInstanceAs (Decidable (_ ∧ _))

/-- One more byte of the character, or its last. -/
def next (p : Pending) (b : UInt8) : List Char × Option Pending :=
  let code := p.code * 0x40 + (b.toNat - 0x80)
  if p.left ≤ 1 then ([Char.ofNat code], none) else ([], some (tails (p.left - 1) code))

end Pending

/-- A byte where no character is open. -/
def start (b : UInt8) : List Char × Option Pending :=
  if b.toNat < 0x80 then ([Char.ofNat b.toNat], none)
  else match lead b.toNat with
    | some p => ([], some p)
    | none => ([replacement], none)

def step : Option Pending → UInt8 → List Char × Option Pending
  | none, b => start b
  | some p, b => if p.GoesOn b then p.next b else (replacement :: (start b).1, (start b).2)

/-- The characters of the bytes; one that is still open at the end is replaced. -/
def chars : Option Pending → List UInt8 → List Char
  | none, [] => []
  | some _, [] => [replacement]
  | q, b :: bs => (step q b).1 ++ chars (step q b).2 bs

/-- The character that is open after the bytes. -/
def after : Option Pending → List UInt8 → Option Pending
  | q, [] => q
  | q, b :: bs => after (step q b).2 bs

/-- Between the two pieces a character is open with which the second one goes on. -/
def Parts (q : Option Pending) (done todo : List UInt8) : Prop :=
  ∃ p ∈ after q done, ∃ b ∈ todo.head?, p.GoesOn b

variable {q : Option Pending} {b : UInt8} {bs done todo : List UInt8}

theorem chars_cons (q : Option Pending) (b : UInt8) (bs : List UInt8) :
    chars q (b :: bs) = (step q b).1 ++ chars (step q b).2 bs := by
  cases q <;> rfl

theorem after_append (q : Option Pending) (done todo : List UInt8) : after q (done ++ todo) = after (after q done) todo := by
  induction done generalizing q with
  | nil => rfl
  | cons b bs ih => exact ih (step q b).2

theorem step_of_not_goesOn {p : Pending} (h : ¬p.GoesOn b) : step (some p) b = (replacement :: (start b).1, (start b).2) :=
  if_neg h

theorem step_of_goesOn {p : Pending} (h : p.GoesOn b) : step (some p) b = p.next b := if_pos h

/-- A byte that goes on with a character begins none. -/
theorem start_of_goesOn {p : Pending} (h : p.GoesOn b) : start b = ([replacement], none) := by
  obtain ⟨hlow, hhigh⟩ := h
  have hge := p.low_ge
  have hle := p.high_le
  have hlead : lead b.toNat = none := by
    unfold lead
    repeat rw [if_neg (by omega)]
  rw [start, if_neg (by omega), hlead]

/-! ## Decoding in pieces -/

theorem chars_append (h : ¬Parts q done todo) : chars q (done ++ todo) = chars q done ++ chars none todo := by
  induction done generalizing q with
  | nil =>
    rw [List.nil_append]
    cases q with
    | none => rfl
    | some p =>
      cases todo with
      | nil => rfl
      | cons b bs =>
        have hstop : ¬p.GoesOn b := fun hon => h ⟨p, rfl, b, rfl, hon⟩
        rw [chars_cons, chars_cons, step_of_not_goesOn hstop]
        rfl
  | cons b bs ih =>
    rw [List.cons_append, chars_cons, chars_cons, ih h, List.append_assoc]

/-- An open character costs at most one more than none. -/
theorem length_chars_le (q : Option Pending) (bs : List UInt8) : (chars q bs).length ≤ (chars none bs).length + 1 := by
  induction bs generalizing q with
  | nil => cases q <;> simp [chars]
  | cons b bs ih =>
    cases q with
    | none => exact Nat.le_succ _
    | some p =>
      by_cases hon : p.GoesOn b
      · have hnext : ((p.next b).1.length + (chars (p.next b).2 bs).length) ≤ (chars none bs).length + 1 := by
          unfold Pending.next
          dsimp only
          split
          · simp [Nat.add_comm]
          · simpa using ih (some _)
        rw [chars_cons, chars_cons, step_of_goesOn hon, step, start_of_goesOn hon]
        simp only [List.length_append, List.length_singleton]
        omega
      · rw [chars_cons, chars_cons, step_of_not_goesOn hon, step]
        exact le_rfl

/-- A character in two pieces comes out as more than one. -/
theorem length_chars_lt (h : Parts q done todo) :
    (chars q (done ++ todo)).length < (chars q done).length + (chars none todo).length := by
  induction done generalizing q with
  | nil =>
    obtain ⟨p, hp, b, hb, hon⟩ := h
    obtain rfl : q = some p := hp
    obtain ⟨bs, rfl⟩ : ∃ bs, todo = b :: bs := List.head?_eq_some_iff.1 hb
    have hnext : (p.next b).1.length + (chars (p.next b).2 bs).length ≤ (chars none bs).length + 1 := by
      unfold Pending.next
      dsimp only
      split
      · simp [Nat.add_comm]
      · simpa using length_chars_le (some _) bs
    rw [List.nil_append, chars_cons, chars_cons, step_of_goesOn hon, step, start_of_goesOn hon]
    simp only [chars, List.length_append, List.length_singleton]
    omega
  | cons b bs ih =>
    have hlt := ih (q := (step q b).2) h
    rw [List.cons_append, chars_cons, chars_cons]
    simp only [List.length_append] at hlt ⊢
    omega

theorem length_chars_append_le (q : Option Pending) (done todo : List UInt8) :
    (chars q (done ++ todo)).length ≤ (chars q done).length + (chars none todo).length := by
  by_cases h : Parts q done todo
  · exact (length_chars_lt h).le
  · rw [chars_append h, List.length_append]

theorem length_chars_flatten_le (pieces : List (List UInt8)) :
    (chars none pieces.flatten).length ≤ (pieces.flatMap (chars none)).length := by
  induction pieces with
  | nil => exact le_rfl
  | cons piece pieces ih =>
    rw [List.flatten_cons, List.flatMap_cons, List.length_append]
    exact (length_chars_append_le none piece _).trans (Nat.add_le_add_left ih _)

/-- Where no character is parted, what is open later does not depend on what came before. -/
theorem after_append_of_not_parts (h : ¬Parts q done (b :: bs)) : after q (done ++ b :: bs) = after none (b :: bs) := by
  rw [after_append]
  generalize hq : after q done = r
  cases r with
  | none => rfl
  | some p =>
    have hstop : ¬p.GoesOn b := fun hon => h ⟨p, hq, b, rfl, hon⟩
    rw [after, after, step_of_not_goesOn hstop, step]

theorem parts_append_iff {more : List UInt8} (h : ¬Parts none done (more ++ todo)) :
    Parts none (done ++ more) todo ↔ Parts none more todo := by
  cases more with
  | nil =>
    rw [List.append_nil]
    refine iff_of_false h ?_
    rintro ⟨p, hp, -⟩
    cases hp
  | cons b bs =>
    have hb : ¬Parts none done (b :: bs) := fun ⟨p, hp, x, hx, hon⟩ => h ⟨p, hp, x, hx, hon⟩
    rw [Parts, Parts, after_append_of_not_parts hb]

/-- Pieces decoded each on its own come to the whole exactly when no character is parted. -/
theorem flatMap_chars_iff (pieces : List (List UInt8)) :
    pieces.flatMap (chars none) = chars none pieces.flatten ↔
      ∀ done todo, pieces = done ++ todo → ¬Parts none done.flatten todo.flatten := by
  induction pieces with
  | nil =>
    refine iff_of_true rfl fun done todo h => ?_
    obtain ⟨rfl, rfl⟩ := List.append_eq_nil_iff.1 h.symm
    rintro ⟨p, hp, -⟩
    cases hp
  | cons piece pieces ih =>
    rw [List.flatMap_cons, List.flatten_cons]
    by_cases hparts : Parts none piece pieces.flatten
    · refine iff_of_false (fun he => ?_) fun h => h [piece] pieces rfl ?_
      · have hlen := congrArg List.length he
        have hlt := length_chars_lt hparts
        have hle := length_chars_flatten_le pieces
        rw [List.length_append] at hlen
        omega
      · rwa [List.flatten_singleton]
    · rw [chars_append hparts, List.append_cancel_left_eq, ih]
      constructor
      · intro h done todo he
        cases done with
        | nil =>
          rintro ⟨p, hp, -⟩
          cases hp
        | cons r done =>
          obtain ⟨rfl, rfl⟩ := List.cons.inj he
          rw [List.flatten_cons, parts_append_iff (by rwa [← List.flatten_append])]
          exact h done todo rfl
      · intro h done todo he
        have hnot := h (piece :: done) todo (by rw [he, List.cons_append])
        rwa [List.flatten_cons, parts_append_iff (by rwa [← List.flatten_append, ← he])] at hnot

end HaexVault.Lib.Utf8
