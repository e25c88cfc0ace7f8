import HaexVault.Crdt.Clock
import HaexVault.Lib.Numerals
import HaexVault.Sync.TableScanner
/-!
# The two HLC comparators (`crdt/hlc.rs`, `utils/hlc.ts`)

The backend compares the node ids of two HLCs of one time as numbers, the frontend compares
their texts. Hex texts of one length are ordered as their numbers; a shorter one is below a
longer one only where it is at most what the leading digits of the longer one spell
(`comparators_agree_iff`).
-/

namespace HaexVault.Sync

open HaexVault.Crdt (NodeId Timestamp parseDigits parse_toDigits mem_toDigits compareHlcStrings compareHlcStrings_eq hlcKey parseHlc)
open HaexVault.Lib.Numerals

/-! ## What the frontend reads of a timestamp -/

theorem codeUnits_toDigits (n : Nat) : codeUnits (Nat.toDigits 16 n) = codes 16 n := by
  have hsmall : ∀ d < 16, (Nat.digitChar d).toNat < 0x10000 := by decide
  rw [codeUnits, codes, List.map_eq_flatMap]
  refine List.flatMap_congr fun c hc => ?_
  obtain ⟨d, hd, rfl⟩ := mem_toDigits (by omega) n hc
  rw [if_pos (hsmall d hd)]

theorem bigInt_toDigits (n : Nat) : bigInt (Nat.toDigits 10 n) = some (n : Int) := by
  have hdigit : ∀ c ∈ Nat.toDigits 10 n, c.isDigit = true := fun c hc => Nat.isDigit_of_mem_toDigits (by omega) (by omega) hc
  have hparse : parseDigits 10 (Nat.toDigits 10 n) = some n := by
    have h := parse_toDigits (.inl rfl) n
    rcases hl : Nat.toDigits 10 n with _ | ⟨c, cs⟩
    · exact absurd hl Nat.toDigits_ne_nil
    · rwa [hl] at h
  have hblank : ∀ c ∈ Nat.toDigits 10 n, isStrWhiteSpace c = false := by
    intro c hc
    have hall : ∀ d < 10, isStrWhiteSpace (Nat.digitChar d) = false := by decide
    obtain ⟨d, hd, rfl⟩ := mem_toDigits (by omega) n hc
    exact hall d hd
  have htrim : ∀ {l : List Char}, (∀ c ∈ l, isStrWhiteSpace c = false) → l.dropWhile isStrWhiteSpace = l := by
    intro l hl
    rcases l with _ | ⟨c, cs⟩
    · rfl
    · rw [List.dropWhile_cons_of_neg (by simp [hl c List.mem_cons_self])]
  rw [bigInt, htrim hblank, htrim (fun c hc => hblank c (List.mem_reverse.1 hc)), List.reverse_reverse]
  generalize Nat.toDigits 10 n = l at hdigit hparse
  split
  · cases hparse
  all_goals first
    | exact absurd (hdigit _ List.mem_cons_self) (by decide)
    | exact absurd (hdigit _ (List.mem_cons_of_mem _ List.mem_cons_self)) (by decide)
    | rw [hparse]; rfl

theorem parse_text (ts : Timestamp) : parse ts.text = some ((ts.time : Int), codes 16 ts.id.val) := by
  simp only [parse, ts.splitOnce_text, bigInt_toDigits, codeUnits_toDigits, Option.map_some]

def hexOrder (m n : NodeId) : Ordering :=
  if codes 16 m.val < codes 16 n.val then .lt else if codes 16 n.val < codes 16 m.val then .gt else .eq

theorem compareHlc_text (a b : Timestamp) :
    compareHlc a.text b.text = some (if a.time ≠ b.time then compare a.time b.time else hexOrder a.id b.id) := by
  simp only [compareHlc, parse_text, Option.bind_eq_bind, Option.bind_some, hexOrder]
  rcases lt_trichotomy a.time b.time with h | h | h
  · rw [compare_lt_iff_lt.2 h]
    have hne : (a.time : Int) ≠ b.time := by omega
    simp [hne, h.ne, h.not_gt]
  · simp only [h, ne_eq, not_true_eq_false, if_false]
    split_ifs <;> rfl
  · rw [compare_gt_iff_gt.2 h]
    have hne : (a.time : Int) ≠ b.time := by omega
    simp [hne, h.ne', h]

/-! ## Where they agree -/

def timestampKey (ts : Timestamp) : ℕ ×ₗ ℕ := toLex (ts.time, ts.id.val)

def ComparatorsAgree (a b : Timestamp) : Prop :=
  compareHlc a.text b.text = some (compareHlcStrings a.text b.text) ∧
    compareHlcStrings a.text b.text = compare (timestampKey a) (timestampKey b)

def hexLength (id : NodeId) : Nat := (Nat.toDigits 16 id.val).length

/-- `m` has fewer hex digits than `n`, and is at most the number that the first of these digits make. -/
def WithinLeading (m n : NodeId) : Prop :=
  hexLength m < hexLength n ∧ m.val ≤ n.val / 16 ^ (hexLength n - hexLength m)

instance (m n : NodeId) : Decidable (WithinLeading m n) := inferInstanceAs (Decidable (_ ∧ _))

theorem hexLength_eq (id : NodeId) : (codes 16 id.val).length = hexLength id := by
  rw [codes, List.length_map, hexLength]

theorem codes_lt_of_shorter {m n : NodeId} (h : hexLength m < hexLength n) :
    m.val < n.val ∧ (codes 16 m.val < codes 16 n.val ↔ WithinLeading m n) := by
  have hlen : (codes 16 m.val).length < (codes 16 n.val).length := by rwa [hexLength_eq, hexLength_eq]
  refine ⟨lt_of_length_lt (by omega) hlen, ?_⟩
  rw [codes_lt_longer (by omega) (by omega) hlen, hexLength_eq, hexLength_eq, WithinLeading, and_iff_right h]

theorem hexOrder_eq_compare_iff (m n : NodeId) :
    hexOrder m n = compare m.val n.val ↔ hexLength m = hexLength n ∨ WithinLeading m n ∨ WithinLeading n m := by
  rcases lt_trichotomy (hexLength m) (hexLength n) with h | h | h
  · obtain ⟨hlt, htext⟩ := codes_lt_of_shorter h
    have hother : ¬ WithinLeading n m := fun hw => absurd hw.1 (by omega)
    rw [compare_lt_iff_lt.2 hlt, ← htext, hexOrder]
    simp only [h.ne, hother, false_or, or_false]
    split_ifs with hcodes <;> simp [hcodes]
  · refine iff_of_true ?_ (.inl h)
    have hlen : (codes 16 m.val).length = (codes 16 n.val).length := by rwa [hexLength_eq, hexLength_eq]
    rw [hexOrder, if_congr (codes_lt_iff (by omega) (by omega) hlen) rfl
      (if_congr (codes_lt_iff (by omega) (by omega) hlen.symm) rfl rfl)]
    rcases lt_trichotomy m.val n.val with hlt | heq | hgt
    · rw [compare_lt_iff_lt.2 hlt, if_pos hlt]
    · rw [heq, compare_eq_iff_eq.2 rfl, if_neg (lt_irrefl _), if_neg (lt_irrefl _)]
    · rw [compare_gt_iff_gt.2 hgt, if_neg hgt.not_gt, if_pos hgt]
  · obtain ⟨hlt, htext⟩ := codes_lt_of_shorter h
    have hother : ¬ WithinLeading m n := fun hw => absurd hw.1 (by omega)
    rw [compare_gt_iff_gt.2 hlt, ← htext, hexOrder]
    simp only [h.ne', hother, false_or]
    split_ifs with hcodes hcodes'
    · simp [not_lt.2 hcodes.le]
    · simp [hcodes']
    · simp [hcodes']

/-- The comparators agree on two timestamps exactly when the times differ, the node ids have hex texts of one length, or the
shorter id is at most the number that the leading digits of the longer one make. -/
theorem comparators_agree_iff (a b : Timestamp) :
    ComparatorsAgree a b ↔
      a.time ≠ b.time ∨ hexLength a.id = hexLength b.id ∨ WithinLeading a.id b.id ∨ WithinLeading b.id a.id := by
  have hparse : ∀ ts : Timestamp, parseHlc ts.text = (ts.time, ts.id.val) := fun ts => Timestamp.parse_read ts.read_text
  have hbackend : compareHlcStrings a.text b.text = compare (timestampKey a) (timestampKey b) := by
    rw [compareHlcStrings_eq]
    unfold hlcKey
    rw [hparse, hparse, timestampKey, timestampKey]
  rw [ComparatorsAgree, and_iff_left hbackend, compareHlc_text, Option.some.injEq, compareHlcStrings, hparse, hparse,
    ← hexOrder_eq_compare_iff]
  by_cases htime : a.time = b.time
  · simp [htime]
  · rw [if_pos htime]
    refine iff_of_true ?_ (.inl htime)
    rcases lt_or_gt_of_ne htime with h | h
    · rw [compare_lt_iff_lt.2 h]
      rfl
    · rw [compare_gt_iff_gt.2 h]
      rfl

/-- At one time, the frontend takes the node `10` for older than the node `9`. -/
theorem comparators_disagree : ¬ ∀ a b : Timestamp, ComparatorsAgree a b := by
  intro h
  have hagree := h ⟨5, by decide, 0x10, by decide, by decide⟩ ⟨5, by decide, 0x9, by decide, by decide⟩
  have horder := Option.some.inj ((compareHlc_text _ _).symm.trans (hagree.1.trans (congrArg some hagree.2)))
  revert horder
  decide

end HaexVault.Sync
