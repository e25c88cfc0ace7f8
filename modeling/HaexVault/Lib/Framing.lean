import Mathlib.Data.List.Basic
/-!
# Length-prefixed fields

A field is written after its length, and the length in a fixed number of symbols. As long as
every length is one the prefix can hold, a field is read back from the front of any input
(`split_frame`), so that a sequence of fields is read in one way only (`frames_inj`).
-/

namespace HaexVault.Lib

/-- How a length is written and read back. -/
structure Framing (α : Type) where
  width : Nat
  /-- The lengths below it are the ones a prefix can hold. -/
  limit : Nat
  size : Nat → List α
  readSize : List α → Nat
  size_length : ∀ n, (size n).length = width
  readSize_size : ∀ n, n < limit → readSize (size n) = n
  width_pos : 0 < width

namespace Framing

variable {α : Type} (F : Framing α) {xs ys rest rest' : List α} {xss yss : List (List α)}

/-- A field with its length. -/
def frame (xs : List α) : List α := F.size xs.length ++ xs

def frames (xss : List (List α)) : List α := (xss.map F.frame).flatten

/-- The first field of an input, and what is left. -/
def split (input : List α) : Option (List α × List α) :=
  let rest := input.drop F.width
  let n := F.readSize (input.take F.width)
  if input.length < F.width ∨ rest.length < n then none else some (rest.take n, rest.drop n)

@[simp] theorem frames_nil : F.frames [] = [] := rfl
@[simp] theorem frames_cons : F.frames (xs :: xss) = F.frame xs ++ F.frames xss := rfl

theorem split_frame (h : xs.length < F.limit) : F.split (F.frame xs ++ rest) = some (xs, rest) := by
  have htake : (F.frame xs ++ rest).take F.width = F.size xs.length := by
    rw [frame, List.append_assoc]
    exact List.take_left' (F.size_length _)
  have hdrop : (F.frame xs ++ rest).drop F.width = xs ++ rest := by
    rw [frame, List.append_assoc]
    exact List.drop_left' (F.size_length _)
  have hlong : F.width ≤ (F.frame xs).length := by
    simp only [frame, List.length_append, F.size_length]
    omega
  simp [split, htake, hdrop, F.readSize_size _ h]
  omega

/-- Two inputs that start with a field start with the same one. -/
theorem frame_append_inj (hx : xs.length < F.limit) (hy : ys.length < F.limit)
    (h : F.frame xs ++ rest = F.frame ys ++ rest') : xs = ys ∧ rest = rest' := by
  have hsplit : F.split (F.frame xs ++ rest) = some (xs, rest) := F.split_frame hx
  rw [h, F.split_frame hy] at hsplit
  cases hsplit
  exact ⟨rfl, rfl⟩

theorem frame_ne_nil : F.frame xs ≠ [] := by
  intro h
  have hlen := congrArg List.length h
  simp only [frame, List.length_append, F.size_length, List.length_nil] at hlen
  have := F.width_pos
  omega

/-- A sequence of fields is read in one way. -/
theorem frames_inj (hx : ∀ xs ∈ xss, xs.length < F.limit) (hy : ∀ ys ∈ yss, ys.length < F.limit)
    (h : F.frames xss = F.frames yss) : xss = yss := by
  induction xss generalizing yss with
  | nil => cases yss with
    | nil => rfl
    | cons ys yss =>
      rw [frames_nil, frames_cons] at h
      exact absurd (List.append_eq_nil_iff.1 h.symm).1 F.frame_ne_nil
  | cons xs xss ih => cases yss with
    | nil =>
      rw [frames_nil, frames_cons] at h
      exact absurd (List.append_eq_nil_iff.1 h).1 F.frame_ne_nil
    | cons ys yss =>
      obtain ⟨rfl, hrest⟩ := F.frame_append_inj (hx xs (by simp)) (hy ys (by simp)) h
      rw [ih (fun x hmem => hx x (by simp [hmem])) (fun y hmem => hy y (by simp [hmem])) hrest]

end Framing

end HaexVault.Lib
