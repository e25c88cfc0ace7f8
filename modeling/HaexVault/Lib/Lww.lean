import Mathlib.Order.Lattice
import Mathlib.Data.List.Basic
/-!
# Last-writer-wins registers

A register holds a value and the stamp of the write that put it there, if any.
A write takes effect when its stamp is above the register's. `foldl_write_cases`
says what any sequence of writes leaves: the newest of them, or the start when
none is newer. Stamps are compared through `key`, so two different stamps may
rank the same.
-/

namespace HaexVault.Lib.Lww

variable {H V L : Type} [LinearOrder L] (key : Option H → L)

/-- Offer one write to a register. -/
@[grind =] def write (r : Option H × V) (w : H × V) : Option H × V :=
  if key r.1 < key (some w.1) then (some w.1, w.2) else r

/-- The writes that take effect, in order. -/
@[grind =] def accepted : Option H × V → List (H × V) → List (H × V)
  | _, [] => []
  | r, w :: ws =>
    if key r.1 < key (some w.1) then w :: accepted (some w.1, w.2) ws else accepted r ws

theorem foldl_write_cases (ws : List (H × V)) (r : Option H × V) :
    (ws.foldl (write key) r = r ∧ ∀ w ∈ ws, key (some w.1) ≤ key r.1) ∨
    ∃ w ∈ ws, ws.foldl (write key) r = (some w.1, w.2) ∧ key r.1 < key (some w.1) ∧
      ∀ w' ∈ ws, key (some w'.1) ≤ key (some w.1) := by
  induction ws generalizing r with
  | nil => exact .inl ⟨rfl, by simp⟩
  | cons w ws ih =>
    rw [List.foldl_cons]
    by_cases hw : key r.1 < key (some w.1)
    · have e : write key r w = (some w.1, w.2) := by simp [write, hw]
      rw [e]
      right
      rcases ih (some w.1, w.2) with ⟨h, hle⟩ | ⟨v, hv, h, hlt, hle⟩
      · exact ⟨w, by simp, h, hw, by simpa using hle⟩
      · refine ⟨v, by simp [hv], h, hw.trans hlt, ?_⟩
        intro w' hw'
        rcases List.mem_cons.1 hw' with rfl | hw'
        · exact hlt.le
        · exact hle w' hw'
    · have e : write key r w = r := by simp [write, hw]
      rw [e]
      rcases ih r with ⟨h, hle⟩ | ⟨v, hv, h, hlt, hle⟩
      · refine .inl ⟨h, ?_⟩
        intro w' hw'
        rcases List.mem_cons.1 hw' with rfl | hw'
        · exact not_lt.1 hw
        · exact hle w' hw'
      · refine .inr ⟨v, by simp [hv], h, hlt, ?_⟩
        intro w' hw'
        rcases List.mem_cons.1 hw' with rfl | hw'
        · exact (not_lt.1 hw).trans hlt.le
        · exact hle w' hw'

/-- The same writes in another order or number: both registers stay, or both
end with a write of the same rank. -/
theorem foldl_write_pair {ws ws' : List (H × V)} (r : Option H × V) (hmem : ∀ w, w ∈ ws ↔ w ∈ ws') :
    (ws.foldl (write key) r = r ∧ ws'.foldl (write key) r = r) ∨
    ∃ w ∈ ws, ∃ w' ∈ ws, ws.foldl (write key) r = (some w.1, w.2) ∧ ws'.foldl (write key) r = (some w'.1, w'.2) ∧
      key (some w.1) = key (some w'.1) := by
  rcases foldl_write_cases key ws r with ⟨h, hle⟩ | ⟨w, hw, h, hlt, hle⟩ <;>
    rcases foldl_write_cases key ws' r with ⟨h', hle'⟩ | ⟨w', hw', h', hlt', hle'⟩
  · exact .inl ⟨h, h'⟩
  -- one register cannot move when the other stays: they were offered the same
  · exact absurd (hle w' ((hmem w').2 hw')) (not_le.2 hlt')
  · exact absurd (hle' w ((hmem w).1 hw)) (not_le.2 hlt)
  · refine .inr ⟨w, hw, w', (hmem w').2 hw', h, h', ?_⟩
    exact le_antisymm (hle' w ((hmem w).1 hw)) (hle w' ((hmem w').2 hw'))

/-- What a register ends with depends on which writes it was offered, not on
their order or number, as long as writes that rank the same agree. -/
theorem foldl_write_congr {ws ws' : List (H × V)} (r : Option H × V) (hmem : ∀ w, w ∈ ws ↔ w ∈ ws')
    (hval : ∀ w ∈ ws, ∀ w' ∈ ws, key (some w.1) = key (some w'.1) → w.2 = w'.2) :
    (ws.foldl (write key) r).2 = (ws'.foldl (write key) r).2 := by
  rcases foldl_write_pair key r hmem with ⟨h, h'⟩ | ⟨w, hw, w', hw', h, h', e⟩ <;> rw [h, h']
  exact hval w hw w' hw' e

theorem foldl_write_congr_stamp {ws ws' : List (H × V)} (r : Option H × V) (hmem : ∀ w, w ∈ ws ↔ w ∈ ws')
    (hstamp : ∀ w ∈ ws, ∀ w' ∈ ws, key (some w.1) = key (some w'.1) → w.1 = w'.1) :
    (ws.foldl (write key) r).1 = (ws'.foldl (write key) r).1 := by
  rcases foldl_write_pair key r hmem with ⟨h, h'⟩ | ⟨w, hw, w', hw', h, h', e⟩ <;> rw [h, h']
  exact congrArg some (hstamp w hw w' hw' e)

/-- The register ends with the last write that took effect. -/
theorem foldl_write_eq_last (ws : List (H × V)) (r : Option H × V) :
    ws.foldl (write key) r = ((accepted key r ws).getLast?.map fun w => (some w.1, w.2)).getD r := by
  induction ws generalizing r with
  | nil => rfl
  | cons w ws ih =>
    simp only [List.foldl_cons, accepted, write]
    split
    · rw [ih]
      cases accepted key (some w.1, w.2) ws with
      | nil => rfl
      | cons v vs => simp only [List.getLast?_cons, Option.map_some, Option.getD_some]
    · exact ih r

theorem accepted_subset (ws : List (H × V)) (r : Option H × V) : accepted key r ws ⊆ ws := by
  induction ws generalizing r with
  | nil => simp [accepted]
  | cons w ws ih =>
    simp only [accepted]
    split
    · exact List.cons_subset_cons _ (ih _)
    · exact List.subset_cons_of_subset _ (ih r)

theorem accepted_newer (ws : List (H × V)) (r : Option H × V) :
    ∀ w ∈ accepted key r ws, key r.1 < key (some w.1) := by
  induction ws generalizing r with
  | nil => simp [accepted]
  | cons w ws ih =>
    simp only [accepted]
    split
    · intro v hv
      rcases List.mem_cons.1 hv with rfl | hv
      · assumption
      · exact lt_trans ‹_› (ih _ v hv)
    · exact ih r

theorem accepted_eq_nil (ws : List (H × V)) (r : Option H × V) :
    accepted key r ws = [] ↔ ∀ w ∈ ws, key (some w.1) ≤ key r.1 := by
  induction ws generalizing r with
  | nil => simp [accepted]
  | cons w ws ih =>
    simp only [accepted]
    split
    · rename_i h; simp [h]
    · rename_i h; rw [ih]; simp [not_lt.1 h]

/-- Which writes take effect does not depend on the value they replace. -/
theorem accepted_value (o : Option H) (v v' : V) (ws : List (H × V)) :
    accepted key (o, v) ws = accepted key (o, v') ws := by
  induction ws generalizing o v v' with
  | nil => rfl
  | cons w ws ih =>
    simp only [accepted]
    split
    · rfl
    · exact ih o v v'

/-- Nor does the stamp a register ends with. -/
theorem foldl_write_fst {a b : Option H × V} (h : a.1 = b.1) (ws : List (H × V)) :
    (ws.foldl (write key) a).1 = (ws.foldl (write key) b).1 := by
  obtain ⟨o, v⟩ := a
  obtain ⟨o', v'⟩ := b
  obtain rfl : o = o' := h
  rw [foldl_write_eq_last, foldl_write_eq_last, accepted_value key o v v']
  cases (accepted key (o, v') ws).getLast? <;> rfl

/-- If all writes are the same, the first that takes effect is also the last. -/
theorem accepted_head?_eq_getLast? {ws : List (H × V)} (h : ∀ w ∈ ws, ∀ w' ∈ ws, w = w') (r : Option H × V) :
    (accepted key r ws).head? = (accepted key r ws).getLast? := by
  have hsub := accepted_subset key ws r
  cases hacc : accepted key r ws with
  | nil => rfl
  | cons w l =>
    rw [hacc] at hsub
    have hlast := List.getLast_mem (List.cons_ne_nil w l)
    rw [List.head?_cons, List.getLast?_eq_some_getLast (List.cons_ne_nil w l)]
    exact congrArg some (h w (hsub (by simp)) _ (hsub hlast))

/-- Of writes in ascending order, the first that takes effect is the oldest that could. -/
theorem accepted_head?_min {ws : List (H × V)} {r : Option H × V} {w : H × V}
    (hs : ws.Pairwise fun a b => key (some a.1) ≤ key (some b.1)) (h : (accepted key r ws).head? = some w) :
    ∀ w' ∈ ws, key r.1 < key (some w'.1) → key (some w.1) ≤ key (some w'.1) := by
  induction ws with
  | nil => cases h
  | cons v ws ih =>
    obtain ⟨hv, hs⟩ := List.pairwise_cons.1 hs
    simp only [accepted] at h
    intro w' hw' hlt
    split at h
    · obtain rfl : v = w := by simpa using h
      rcases List.mem_cons.1 hw' with rfl | hw'
      · exact le_rfl
      · exact hv w' hw'
    · rename_i hn
      rcases List.mem_cons.1 hw' with rfl | hw'
      · exact absurd hlt hn
      · exact ih hs h w' hw' hlt

/-- The last that takes effect is the newest. -/
theorem accepted_getLast?_max {ws : List (H × V)} {r : Option H × V} {w : H × V}
    (h : (accepted key r ws).getLast? = some w) : ∀ w' ∈ ws, key (some w'.1) ≤ key (some w.1) := by
  have hlast := foldl_write_eq_last key ws r
  rw [h, Option.map_some, Option.getD_some] at hlast
  rcases foldl_write_cases key ws r with ⟨he, hle⟩ | ⟨v, -, he, -, hle⟩
  · have hr : r.1 = some w.1 := congrArg Prod.fst (he.symm.trans hlast)
    rwa [hr] at hle
  · have hv : (some v.1 : Option H) = some w.1 := congrArg Prod.fst (he.symm.trans hlast)
    rwa [hv] at hle

/-- The value a register starts with shows at the end only if nothing took effect. -/
theorem foldl_write_eq_iff (o : Option H) (v v' : V) (ws : List (H × V)) :
    ws.foldl (write key) (o, v) = ws.foldl (write key) (o, v') ↔ v = v' ∨ accepted key (o, v) ws ≠ [] := by
  rw [foldl_write_eq_last, foldl_write_eq_last, accepted_value key o v' v]
  cases hl : accepted key (o, v) ws with
  | nil => simp
  | cons w l => simp [List.getLast?_cons]

end HaexVault.Lib.Lww
