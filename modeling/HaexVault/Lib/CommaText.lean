import Mathlib.Data.String.Basic
import HaexVault.Lib.PathText
/-!
# Texts joined by commas

A list of texts written into one text with commas between them, and the pieces of a text between
its commas: the pieces are the list again exactly if no text of it has a comma (`splitOn_intercalate`,
`not_mem_of_mem_splitOn_comma`) and there is at least one.
-/

namespace HaexVault.Lib.CommaText

open String

theorem atEnd_ofList (l : List Char) (n : Nat) : (Pos.Raw.mk n).atEnd (ofList l) = true ↔ utf8Len l ≤ n := by
  rw [atEnd_iff, rawEndPos_ofList, Pos.Raw.mk_le_mk]

/-- The loop of `splitOn`, with what it has passed: the text before the piece, the piece so far, and the pieces. -/
theorem splitOnAux_comma (l m r : List Char) (acc : List String) :
    splitOnAux (ofList (l ++ m ++ r)) "," ⟨utf8Len l⟩ ⟨utf8Len l + utf8Len m⟩ 0 acc =
      acc.reverse ++ (List.splitOnPPrepend (· == ',') r m.reverse).map ofList := by
  induction r generalizing l m acc with
  | nil =>
    have hextract := extract_of_valid l m []
    have hend : (Pos.Raw.mk (utf8Len l + utf8Len m)).atEnd (ofList (l ++ m ++ [])) = true := by
      rw [atEnd_ofList, List.append_nil, utf8Len_append]
    rw [splitOnAux, if_pos hend]
    dsimp only
    rw [hextract, List.reverse_cons]
    simp
  | cons c r ih =>
    have hlen : utf8Len (l ++ m) = utf8Len l + utf8Len m := utf8Len_append l m
    have hget : Pos.Raw.get (ofList (l ++ m ++ c :: r)) ⟨utf8Len l + utf8Len m⟩ = c := by
      rw [← hlen, get_of_valid]
      rfl
    have hnext : Pos.Raw.next (ofList (l ++ m ++ c :: r)) ⟨utf8Len l + utf8Len m⟩ = ⟨utf8Len l + utf8Len m + c.utf8Size⟩ := by
      rw [← hlen, next_of_valid]
    have hextract := extract_of_valid l m (c :: r)
    have hend : ¬(Pos.Raw.mk (utf8Len l + utf8Len m)).atEnd (ofList (l ++ m ++ c :: r)) = true := by
      have := Char.utf8Size_pos c
      rw [atEnd_ofList, utf8Len_append, utf8Len_append, utf8Len_cons]
      omega
    have hsep : Pos.Raw.get "," 0 = ',' := rfl
    rw [splitOnAux, if_neg hend, hget, hsep, hnext]
    have htext : l ++ m ++ c :: r = l ++ m ++ [c] ++ r := by simp
    by_cases hc : c = ','
    · subst hc
      have h := ih (l ++ m ++ [',']) [] (ofList m :: acc)
      simp only [List.append_nil, utf8Len_append, utf8Len_cons, utf8Len_nil, Nat.add_zero, Nat.zero_add] at h
      rw [← htext] at h
      have hsepEnd : (Pos.Raw.next "," 0).atEnd "," = true := rfl
      have hback : (Pos.Raw.mk (utf8Len l + utf8Len m + (',' : Char).utf8Size)).unoffsetBy (Pos.Raw.next "," 0) =
          ⟨utf8Len l + utf8Len m⟩ := rfl
      simp only [BEq.rfl, if_true, hsepEnd, hback, hextract]
      rw [h, List.splitOnPPrepend_cons_pos (by rfl)]
      simp
    · have h := ih l (m ++ [c]) acc
      have hne : (c == ',') = false := by simpa using hc
      have hback : (Pos.Raw.mk (utf8Len l + utf8Len m)).unoffsetBy 0 = ⟨utf8Len l + utf8Len m⟩ := rfl
      simp only [hne, Bool.false_eq_true, if_false, hback, hnext]
      rw [utf8Len_append, utf8Len_cons, utf8Len_nil, ← List.append_assoc, ← htext, Nat.zero_add, ← Nat.add_assoc] at h
      rw [h, List.splitOnPPrepend_cons_neg (p := (· == ',')) hne]
      simp

/-- Splitting at commas, on the characters. -/
theorem splitOn_comma (s : String) : s.splitOn "," = (s.toList.splitOn ',').map ofList := by
  have h := splitOnAux_comma [] [] s.toList []
  rw [List.splitOn_eq_splitOnP, splitOn, if_neg (by decide)]
  simpa using h

theorem splitOn_intercalate {names : List String} (h : ∀ name ∈ names, ',' ∉ name.toList) (hne : names ≠ []) :
    (String.intercalate "," names).splitOn "," = names := by
  have hpieces := List.splitOn_intercalate ',' (List.forall_mem_map.2 h) (mt List.map_eq_nil_iff.1 hne)
  rw [splitOn_comma, toList_intercalate]
  calc (([','].intercalate (names.map String.toList)).splitOn ',').map String.ofList
      = (names.map String.toList).map String.ofList := congrArg _ hpieces
    _ = names := by simp

/-- No piece has a comma. -/
theorem not_mem_of_mem_splitOn_comma {s piece : String} (h : piece ∈ s.splitOn ",") : ',' ∉ piece.toList := by
  rw [splitOn_comma] at h
  obtain ⟨cs, hcs, rfl⟩ := List.mem_map.1 h
  rw [toList_ofList]
  exact PathText.not_mem_of_mem_splitOn hcs

/-- Nothing is written for no text, and for a single empty one. -/
theorem intercalate_eq_empty_iff {names : List String} : String.intercalate "," names = "" ↔ names = [] ∨ names = [""] := by
  cases names with
  | nil => simp
  | cons name names =>
    cases names with
    | nil => simp
    | cons name' names =>
      rw [intercalate_cons_cons]
      refine iff_of_false (fun h => ?_) (by simp)
      have := congrArg String.toList h
      simp at this

end HaexVault.Lib.CommaText
