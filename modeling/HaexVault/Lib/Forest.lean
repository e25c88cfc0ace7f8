import Mathlib.Data.List.Nodup
import Mathlib.Logic.Function.Basic
import Mathlib.Logic.Relation
/-!
# Parent pointers

A table gives each node at most one parent. The walk up from a node ends (`Ends`), or it
goes round for ever. What a new parent for one node does to the walks (`ends_update_iff`),
what they do when each node takes one of several parents (`ends_of_choices_iff`), and that
a walk which ends does so in no more steps than there are rows (`climb_of_ends`).
-/

namespace HaexVault.Lib.Forest

variable {α : Type} {p q : α → Option α} {a b c : α}

/-- The walk up from the first node comes to the second. -/
def Under (p : α → Option α) : α → α → Prop := Relation.ReflTransGen fun x y => p x = some y

/-- The walk up from the node ends. -/
def Ends (p : α → Option α) : α → Prop := Acc fun y x => p x = some y

theorem ends_iff : Ends p a ↔ ∀ b, p a = some b → Ends p b :=
  ⟨fun h _ hab => h.inv hab, fun h => ⟨a, h⟩⟩

theorem Ends.of_none (h : p a = none) : Ends p a := ends_iff.2 fun b hb => by rw [h] at hb; cases hb

theorem Ends.of_le (hle : ∀ x y, q x = some y → p x = some y) (h : Ends p a) : Ends q a :=
  Subrelation.accessible (fun {x y} hxy => hle y x hxy) h

theorem under_step (h : p a = some b) : Under p a c ↔ a = c ∨ Under p b c := by
  constructor
  · intro hac
    rcases Relation.ReflTransGen.cases_head hac with hsame | ⟨d, had, hdc⟩
    · exact .inl hsame
    · obtain rfl := Option.some.inj (h.symm.trans had)
      exact .inr hdc
  · rintro (rfl | hbc)
    · exact .refl
    · exact .head h hbc

theorem under_of_none (h : p a = none) : Under p a c ↔ a = c := by
  constructor
  · intro hac
    rcases Relation.ReflTransGen.cases_head hac with hsame | ⟨d, had, -⟩
    · exact hsame
    · cases h.symm.trans had
  · rintro rfl
    exact .refl

/-- A walk that ends does not come back. -/
theorem Ends.not_under (h : Ends p a) (hab : p a = some b) : ¬Under p b a := by
  induction h generalizing b with
  | intro a _ ih =>
    intro hba
    rcases Relation.ReflTransGen.cases_head hba with rfl | ⟨c, hbc, hca⟩
    · exact ih b hab hab hba
    · exact ih b hab hbc (hca.tail hab)

theorem Ends.antisymm (h : Ends p a) (hab : Under p a b) (hba : Under p b a) : a = b := by
  rcases Relation.ReflTransGen.cases_head hab with hsame | ⟨c, hac, hcb⟩
  · exact hsame
  · exact absurd (hcb.trans hba) (h.not_under hac)

/-! ## One new parent -/

section Update
variable [DecidableEq α]

theorem Under.congr (h : ∀ x, Under p a x → x ≠ b → q x = p x) (hab : Under p a b) : Under q a b := by
  induction hab using Relation.ReflTransGen.head_induction_on with
  | refl => exact .refl
  | @head x y hxy _ ih =>
    by_cases hsame : x = b
    · subst hsame
      exact .refl
    · exact .head ((h x .refl hsame).trans hxy) (ih fun z hyz hz => h z (.head hxy hyz) hz)

/-- A walk that does not pass `a` is the same with another parent for `a`. -/
theorem under_update (h : ¬Under p c a) {parent : Option α} : Under (Function.update p a parent) c b ↔ Under p c b := by
  have hoff : ∀ x, Under p c x → Function.update p a parent x = p x := by
    intro x hcx
    refine Function.update_of_ne ?_ _ _
    rintro rfl
    exact h hcx
  constructor
  · intro hcb
    induction hcb with
    | refl => exact .refl
    | tail _ hbd ih => exact ih.tail ((hoff _ ih).symm.trans hbd)
  · exact fun hcb => hcb.congr fun x hcx _ => hoff x hcx

theorem Ends.update_none (h : Ends p c) : Ends (Function.update p a none) c := by
  refine h.of_le fun x y hxy => ?_
  by_cases hx : x = a
  · subst hx
    rw [Function.update_self] at hxy
    cases hxy
  · rwa [Function.update_of_ne hx] at hxy

/-- A node that is put under another one closes a circle exactly if the other one was under it. -/
theorem ends_update_iff (h : ∀ x, Ends p x) : (∀ x, Ends (Function.update p a (some b)) x) ↔ ¬Under p b a := by
  constructor
  · intro hends hba
    have hback : Under (Function.update p a (some b)) b a := hba.congr fun x _ hx => Function.update_of_ne hx _ _
    exact (hends a).not_under (Function.update_self _ _ _) hback
  · intro hnot
    -- the walk from `b` is the old one, and every other walk is until it comes to `a`
    have hb : ∀ c, Ends p c → ¬Under p c a → Ends (Function.update p a (some b)) c := by
      intro c hc
      induction hc with
      | intro c _ ih =>
        intro hca
        refine ends_iff.2 fun d hcd => ?_
        have hne : c ≠ a := fun hsame => hca (hsame ▸ .refl)
        rw [Function.update_of_ne hne] at hcd
        exact ih d hcd fun hda => hca (.head hcd hda)
    intro x
    induction h x with
    | intro x _ ih =>
      refine ends_iff.2 fun y hxy => ?_
      by_cases hx : x = a
      · subst hx
        rw [Function.update_self] at hxy
        obtain rfl := Option.some.inj hxy
        exact hb b (h b) hnot
      · rw [Function.update_of_ne hx] at hxy
        exact ih y hxy

end Update

/-! ## Several parents to choose from -/

/-- Every table that takes its parents from `options` has only walks that end, exactly if no walk through the options goes
on for ever. -/
theorem ends_of_choices_iff {options : α → Option α → Prop} (hsome : ∀ x, ∃ y, options x y) :
    (∀ p, (∀ x, options x (p x)) → ∀ x, Ends p x) ↔ ∀ x, Acc (fun y x => options x (some y)) x := by
  constructor
  · intro h
    by_contra hnot
    obtain ⟨a, ha⟩ := not_forall.1 hnot
    -- from a node with an endless walk, go to such a node again
    have hnext : ∀ x, ∃ y, options x y ∧ (¬Acc (fun y x => options x (some y)) x →
        ∃ b, y = some b ∧ ¬Acc (fun y x => options x (some y)) b) := by
      intro x
      by_cases hx : Acc (fun y x => options x (some y)) x
      · obtain ⟨y, hy⟩ := hsome x
        exact ⟨y, hy, fun h => absurd hx h⟩
      · by_contra hno
        refine hx ⟨x, fun b hb => ?_⟩
        by_contra hnb
        exact hno ⟨some b, hb, fun _ => ⟨b, rfl, hnb⟩⟩
    choose p hp hnext using hnext
    have hends := h p hp a
    induction hends with
    | intro a _ ih =>
      obtain ⟨b, hab, hb⟩ := hnext a ha
      exact ih b hab hb
  · intro h p hp x
    exact Subrelation.accessible (fun {y x} (hxy : p x = some y) => hxy ▸ hp x) (h x)

/-! ## Walks that stop at a node -/

section Climb
variable [DecidableEq α]

/-- The walk up to `goal`: whether it comes there, and none where `n` steps are not enough. -/
def climb (p : α → Option α) (goal : α) : Nat → α → Option Bool
  | 0, _ => none
  | n + 1, a => if a = goal then some true else match p a with
    | none => some false
    | some b => climb p goal n b

/-- The table without the parent of `goal`. -/
def cut (p : α → Option α) (goal : α) : α → Option α := Function.update p goal none

variable {goal : α} {n : Nat} {r : Bool}

theorem climb_sound (h : climb p goal n a = some r) : Ends (cut p goal) a ∧ (r = true ↔ Under p a goal) := by
  induction n generalizing a with
  | zero => cases h
  | succ n ih =>
    unfold climb at h
    split at h
    · rename_i hsame
      cases h
      subst hsame
      exact ⟨.of_none (Function.update_self _ _ _), iff_of_true rfl .refl⟩
    · rename_i hne
      have hoff : cut p goal a = p a := Function.update_of_ne hne _ _
      split at h
      · rename_i hnone
        cases h
        exact ⟨.of_none (hoff.trans hnone), iff_of_false Bool.false_ne_true fun hup => hne ((under_of_none hnone).1 hup)⟩
      · rename_i b hab
        obtain ⟨hends, hr⟩ := ih h
        refine ⟨ends_iff.2 fun c hac => ?_, hr.trans ?_⟩
        · obtain rfl := Option.some.inj (hab.symm.trans (hoff.symm.trans hac))
          exact hends
        · rw [under_step hab, or_iff_right hne]

/-- A walk that ends needs no more steps than it has nodes with a parent, and one. -/
theorem climb_of_under (h : Ends (cut p goal) a) {rows : List α}
    (hrows : ∀ x y, Under (cut p goal) a x → cut p goal x = some y → x ∈ rows) :
    ∃ r, climb p goal (rows.length + 1) a = some r := by
  induction h generalizing rows with
  | intro a hacc ih =>
    unfold climb
    by_cases hsame : a = goal
    · exact ⟨true, if_pos hsame⟩
    · rw [if_neg hsame]
      have hoff : cut p goal a = p a := Function.update_of_ne hsame _ _
      cases hab : p a with
      | none => exact ⟨false, rfl⟩
      | some b =>
        have hcut : cut p goal a = some b := hoff.trans hab
        have hmem := hrows a b .refl hcut
        have hlen : (rows.erase a).length + 1 = rows.length := by
          have := List.length_pos_of_mem hmem
          rw [List.length_erase_of_mem hmem]
          omega
        rw [← hlen]
        refine ih b hcut fun x y hbx hxy => ?_
        have hxa : x ≠ a := fun hx => Ends.not_under ⟨a, hacc⟩ hcut (hx ▸ hbx)
        exact (List.mem_erase_of_ne hxa).2 (hrows x y (.head hcut hbx) hxy)

theorem exists_climb (h : Ends (cut p goal) a) : ∃ n r, climb p goal n a = some r := by
  induction h with
  | intro a _ ih =>
    by_cases hsame : a = goal
    · exact ⟨1, true, if_pos hsame⟩
    · cases hab : p a with
      | none => exact ⟨1, false, by rw [climb, if_neg hsame, hab]⟩
      | some b =>
        have hcut : cut p goal a = some b := (Function.update_of_ne hsame _ _).trans hab
        obtain ⟨n, r, hr⟩ := ih b hcut
        exact ⟨n + 1, r, by rw [climb, if_neg hsame, hab]; exact hr⟩

/-- With a step for every row of the table and one more the walk has ended, if it ever does. -/
theorem exists_climb_iff {rows : List α} (hrows : ∀ x y, p x = some y → x ∈ rows) :
    (∃ r, climb p goal (rows.length + 1) a = some r) ↔ Ends (cut p goal) a := by
  refine ⟨fun ⟨r, hr⟩ => (climb_sound hr).1, fun h => climb_of_under h fun x y _ hxy => hrows x y ?_⟩
  by_cases hx : x = goal
  · subst hx
    rw [cut, Function.update_self] at hxy
    cases hxy
  · rwa [cut, Function.update_of_ne hx] at hxy

theorem Ends.cut (h : Ends p a) : Ends (Forest.cut p goal) a := h.update_none

/-- Whether a node is under another one can be tried, also where other walks do not end. -/
theorem climb_eq_true_iff {rows : List α} (hrows : ∀ x y, p x = some y → x ∈ rows) :
    climb p goal (rows.length + 1) a = some true ↔ Under p a goal := by
  constructor
  · exact fun h => (climb_sound h).2.1 rfl
  · intro h
    have hends : Ends (Forest.cut p goal) a := by
      induction h using Relation.ReflTransGen.head_induction_on with
      | refl => exact .of_none (Function.update_self _ _ _)
      | @head x y hxy _ ih =>
        refine ends_iff.2 fun z hxz => ?_
        by_cases hx : x = goal
        · subst hx
          rw [Forest.cut, Function.update_self] at hxz
          cases hxz
        · rw [Forest.cut, Function.update_of_ne hx] at hxz
          obtain rfl := Option.some.inj (hxy.symm.trans hxz)
          exact ih
    obtain ⟨r, hr⟩ := (exists_climb_iff hrows).2 hends
    rw [hr, (climb_sound hr).2.2 h]

end Climb

end HaexVault.Lib.Forest
