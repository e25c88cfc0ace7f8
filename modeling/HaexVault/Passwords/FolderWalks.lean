import HaexVault.Lib.Runs
import HaexVault.Passwords.Groups
/-!
# Walks through folders

The walks up from a group follow parents without a set of visited groups. On one device only
`bulkMoveAsync` looks whether a move closes a circle, and only in its own copy; a merge takes
each parent from one of two copies. `folder_walks_iff` says which operations leave a copy in
which every walk ends, and which two copies have only such merges.
-/

namespace HaexVault.Passwords.Groups

open Lib Lib.Fallible Lib.Forest Lib.Runs

/-! ## Tables of parents -/

abbrev Pointers := GroupId → Option (Option GroupId)

namespace Pointers
variable (m : Pointers)

def parentOf (id : GroupId) : Option GroupId := (m id).join

def isGroupInTrash (turns : Nat) (id : GroupId) : Option Bool := climb m.parentOf trashGroupId turns id

def breadcrumbGroups : Nat → GroupId → Option (List GroupId)
  | 0, _ => none
  | n + 1, cursor => match m cursor with
    | none => some []
    | some none => some [cursor]
    | some (some parentId) => (breadcrumbGroups n parentId).map (· ++ [cursor])

inductive Shown : GroupId → Prop where
  | root {id : GroupId} : m id = some none → Shown id
  | trash : Shown trashGroupId
  | child {id parentId : GroupId} : m id = some (some parentId) → Shown parentId → Shown id

structure Sound : Prop where
  isGroupInTrash : ∀ id, ∃ n r, m.isGroupInTrash n id = some r
  breadcrumbGroups : ∀ id, ∃ n chain, m.breadcrumbGroups n id = some chain
  shown : ∀ id, m id ≠ none → m.Shown id

end Pointers

def Table.pointers (t : Table) : Pointers := fun id => (t.groupById id).map (·.parentId)

/-! ## Two copies and their merges -/

section Merge
variable (start a b : Table)

def Kept (id : GroupId) : Prop := id ∈ a.ids ∧ id ∈ b.ids ∨ id ∉ start.ids ∧ (id ∈ a.ids ∨ id ∈ b.ids)

/-- The merge may have the group: where one copy has deleted it, the other one has written it. -/
def MayStay (id : GroupId) : Prop :=
  id ∈ a.ids ∧ (id ∈ b.ids ∨ a.groupById id ≠ start.groupById id) ∨
    id ∈ b.ids ∧ (id ∈ a.ids ∨ b.groupById id ≠ start.groupById id)

structure Merged (m : Pointers) : Prop where
  cell : ∀ id p, m id = some p → a.pointers id = some p ∨ b.pointers id = some p
  kept : ∀ id, Kept start a b id → m id ≠ none
  stays : ∀ id, m id ≠ none → MayStay start a b id

def MayFollow (id p : GroupId) : Prop := MayStay start a b id ∧ (a.parentOf id = some p ∨ b.parentOf id = some p)

/-- No walk that takes a parent from either copy at each group goes on for ever, and no parent may be lost. -/
structure Compatible : Prop where
  ends : ∀ id, Acc (fun p id => MayFollow start a b id p) id
  parents : ∀ id p, id ≠ trashGroupId → MayFollow start a b id p → p = trashGroupId ∨ Kept start a b p

end Merge

/-! ## Operations -/

inductive Op where
  | add (draft : PasswordGroupDraft) (uuid : GroupId)
  | update (group : Group)
  | move (groupId : GroupId) (targetParentId : Option GroupId)
  | bulkMove (entries : List SelectionEntry) (targetGroupId : Option GroupId)
  | delete (groupId : GroupId)
  | restore (groupId : GroupId)

def Op.run : Op → Db Unit
  | .add draft uuid => do
    let _ ← addGroup draft uuid
  | .update group => updateGroup group
  | .move groupId targetParentId => moveGroup groupId targetParentId
  | .bulkMove entries targetGroupId => Groups.bulkMove entries targetGroupId
  | .delete groupId => deleteGroup groupId
  | .restore groupId => restoreGroup groupId

def step (s : Store) (op : Op) : Store := (exec op.run s).2

/-- No group is put under itself: by the parent that it is added with, by an update or a move, or where it goes to the
trash and the trash is under it. -/
def Op.Acyclic (s : Store) : Op → Prop
  | .add draft uuid => draft.id.getD uuid ∉ s.groups.ids → draft.parentId ≠ some (draft.id.getD uuid)
  | .update group => ∀ p ∈ s.groups.ids, group.parentId = some p → ¬Under s.groups.parentOf p group.id
  | .move groupId targetParentId => ∀ p ∈ s.groups.ids, targetParentId = some p → ¬Under s.groups.parentOf p groupId
  | .delete groupId => groupId ≠ trashGroupId → ¬Under s.groups.parentOf trashGroupId groupId
  | .bulkMove _ _ | .restore _ => True

/-! ## The walks -/

namespace Pointers
variable {m : Pointers}

theorem exists_breadcrumbGroups_iff {id : GroupId} : (∃ n chain, m.breadcrumbGroups n id = some chain) ↔ Ends m.parentOf id := by
  constructor
  · rintro ⟨n, chain, h⟩
    induction n generalizing id chain with
    | zero => cases h
    | succ n ih =>
      unfold breadcrumbGroups at h
      split at h
      · rename_i hid
        exact .of_none (by rw [parentOf, hid]; rfl)
      · rename_i hid
        exact .of_none (by rw [parentOf, hid]; rfl)
      · rename_i p hid
        obtain ⟨chain', h', -⟩ := Option.map_eq_some_iff.1 h
        refine ends_iff.2 fun q hq => ?_
        rw [parentOf, hid] at hq
        obtain rfl : p = q := Option.some.inj hq
        exact ih chain' h'
  · intro h
    induction h with
    | intro id _ ih =>
      cases hid : m id with
      | none => exact ⟨1, [], by simp only [breadcrumbGroups, hid]⟩
      | some parentId =>
        cases parentId with
        | none => exact ⟨1, [id], by simp only [breadcrumbGroups, hid]⟩
        | some p =>
          obtain ⟨n, chain, hn⟩ := ih p (by rw [parentOf, hid]; rfl)
          exact ⟨n + 1, chain ++ [id], by simp only [breadcrumbGroups, hid, hn, Option.map_some]⟩

theorem sound_iff : m.Sound ↔ (∀ id, Ends m.parentOf id) ∧ ∀ id, m id ≠ none → m.Shown id := by
  constructor
  · exact fun h => ⟨fun id => exists_breadcrumbGroups_iff.1 (h.breadcrumbGroups id), h.shown⟩
  · rintro ⟨hends, hshown⟩
    exact ⟨fun id => exists_climb (hends id).cut, fun id => exists_breadcrumbGroups_iff.2 (hends id), hshown⟩

end Pointers

theorem Table.parentOf_pointers (t : Table) : t.pointers.parentOf = t.parentOf := by
  funext id
  rw [Pointers.parentOf, Table.pointers, Table.parentOf]
  cases t.groupById id <;> rfl

theorem Table.pointers_eq_some_some {t : Table} {id p : GroupId} : t.pointers id = some (some p) ↔ t.parentOf id = some p := by
  rw [Table.pointers, Table.parentOf]
  cases t.groupById id <;> simp

theorem Table.pointers_ne_none {t : Table} {id : GroupId} : t.pointers id ≠ none ↔ id ∈ t.ids := by
  constructor
  · intro h
    obtain ⟨p, hp⟩ := Option.ne_none_iff_exists'.1 h
    obtain ⟨g, hg, -⟩ := Option.map_eq_some_iff.1 hp
    obtain ⟨hmem, rfl⟩ := Table.mem_of_groupById hg
    exact List.mem_map_of_mem hmem
  · intro h
    obtain ⟨g, hg, rfl⟩ := List.mem_map.1 h
    rw [Table.pointers, Table.groupById_of_mem hg]
    exact Option.some_ne_none _

theorem Table.sound_pointers_iff {t : Table} : t.pointers.Sound ↔ ∀ id, Ends t.parentOf id := by
  rw [Pointers.sound_iff, parentOf_pointers]
  refine and_iff_left_of_imp fun hends id => ?_
  induction hends id with
  | intro id _ ih =>
    intro hid
    obtain ⟨parentId, hparent⟩ := Option.ne_none_iff_exists'.1 hid
    cases parentId with
    | none => exact .root hparent
    | some p =>
      have hp := Table.pointers_eq_some_some.1 hparent
      exact .child hparent (ih p hp (Table.pointers_ne_none.2 (Table.parentOf_mem hp).2))

/-! ## Merges -/

section Merge
variable {start a b : Table} {m : Pointers} {id p : GroupId}

theorem Kept.mayStay (h : Kept start a b id) : MayStay start a b id := by
  have hadded : ∀ t : Table, id ∉ start.ids → id ∈ t.ids → t.groupById id ≠ start.groupById id := by
    intro t hstart ht hsame
    have hsome := Table.pointers_ne_none.2 ht
    rw [Table.pointers, hsame] at hsome
    exact hstart (Table.pointers_ne_none.1 hsome)
  rcases h with ⟨ha, hb⟩ | ⟨hstart, ha | hb⟩
  · exact .inl ⟨ha, .inl hb⟩
  · exact .inl ⟨ha, .inr (hadded a hstart ha)⟩
  · exact .inr ⟨hb, .inr (hadded b hstart hb)⟩

theorem MayStay.exists_pointer (h : MayStay start a b id) : ∃ p, a.pointers id = some p ∨ b.pointers id = some p := by
  rcases h with ⟨ha, -⟩ | ⟨hb, -⟩
  · obtain ⟨p, hp⟩ := Option.ne_none_iff_exists'.1 (Table.pointers_ne_none.2 ha)
    exact ⟨p, .inl hp⟩
  · obtain ⟨p, hp⟩ := Option.ne_none_iff_exists'.1 (Table.pointers_ne_none.2 hb)
    exact ⟨p, .inr hp⟩

theorem Merged.mayFollow (h : Merged start a b m) (hp : m.parentOf id = some p) : MayFollow start a b id p := by
  have hid : m id = some (some p) := Option.join_eq_some_iff.1 hp
  refine ⟨h.stays id (by rw [hid]; exact Option.some_ne_none _), ?_⟩
  rcases h.cell id _ hid with ha | hb
  · exact .inl (Table.pointers_eq_some_some.1 ha)
  · exact .inr (Table.pointers_eq_some_some.1 hb)

theorem Compatible.sound (h : Compatible start a b) (hm : Merged start a b m) : m.Sound := by
  refine Pointers.sound_iff.2 ⟨fun id => ?_, fun id => ?_⟩
  · exact Subrelation.accessible (fun {p id} hp => hm.mayFollow hp) (h.ends id)
  · induction h.ends id with
    | intro id _ ih =>
      intro hid
      obtain ⟨parentId, hparent⟩ := Option.ne_none_iff_exists'.1 hid
      cases parentId with
      | none => exact .root hparent
      | some p =>
        have hfollow := hm.mayFollow (m := m) (show m.parentOf id = some p by rw [Pointers.parentOf, hparent]; rfl)
        by_cases htrash : id = trashGroupId
        · exact htrash ▸ .trash
        · refine .child hparent ?_
          rcases h.parents id p htrash hfollow with rfl | hkept
          · exact .trash
          · exact ih p hfollow (hm.kept p hkept)

theorem merged_of_choice {f : GroupId → Option GroupId} [DecidablePred (MayStay start a b)]
    (hf : ∀ id, MayStay start a b id → a.pointers id = some (f id) ∨ b.pointers id = some (f id)) :
    Merged start a b fun id => if MayStay start a b id then some (f id) else none where
  cell id p hp := by
    split at hp
    · rename_i hstay
      obtain rfl := Option.some.inj hp
      exact hf id hstay
    · cases hp
  kept id hkept := by
    rw [if_pos hkept.mayStay]
    exact Option.some_ne_none _
  stays id hid := by
    by_contra hstay
    exact hid (if_neg hstay)

open Classical in
theorem ends_of_merges (h : ∀ m, Merged start a b m → m.Sound) : ∀ id, Acc (fun p id => MayFollow start a b id p) id := by
  let options (id : GroupId) (p : Option GroupId) : Prop :=
    if MayStay start a b id then a.pointers id = some p ∨ b.pointers id = some p else p = none
  have hsome : ∀ id, ∃ p, options id p := by
    intro id
    by_cases hstay : MayStay start a b id
    · obtain ⟨p, hp⟩ := hstay.exists_pointer
      exact ⟨p, by simpa only [options, if_pos hstay] using hp⟩
    · exact ⟨none, by simp only [options, if_neg hstay]⟩
  have hall := (ends_of_choices_iff hsome).1 fun f hf => by
    have hm : Merged start a b fun id => if MayStay start a b id then some (f id) else none :=
      merged_of_choice fun id hstay => by simpa only [options, if_pos hstay] using hf id
    have hends := (Pointers.sound_iff.1 (h _ hm)).1
    have hsame : Pointers.parentOf (fun id => if MayStay start a b id then some (f id) else none) = f := by
      funext id
      by_cases hstay : MayStay start a b id
      · simp only [Pointers.parentOf, if_pos hstay, Option.join_some]
      · have hnone : f id = none := by simpa only [options, if_neg hstay] using hf id
        simp only [Pointers.parentOf, if_neg hstay, hnone, Option.join_none]
    rwa [hsame] at hends
  refine fun id => Subrelation.accessible (fun {p id} hp => ?_) (hall id)
  simp only [options, if_pos hp.1, Table.pointers_eq_some_some]
  exact hp.2

open Classical in
theorem parents_of_merges (h : ∀ m, Merged start a b m → m.Sound) (hid : id ≠ trashGroupId) (hfollow : MayFollow start a b id p) :
    p = trashGroupId ∨ Kept start a b p := by
  by_contra hlost
  obtain ⟨htrash, hnot⟩ := not_or.1 hlost
  have hne : id ≠ p := by
    rintro rfl
    have hloop : ∀ x, Acc (fun p id => MayFollow start a b id p) x → x ≠ id := fun x hx => by
      induction hx with
      | intro x _ ih =>
        rintro rfl
        exact ih x hfollow rfl
    exact hloop id (ends_of_merges h id) rfl
  -- the merge with that parent, and without the group it names
  let f (x : GroupId) : Option GroupId :=
    if x = id then some p else ((a.pointers x).getD ((b.pointers x).getD none))
  let m : Pointers := fun x => if x ≠ p ∧ MayStay start a b x then some (f x) else none
  have hm : Merged start a b m := by
    constructor
    · intro x q hq
      simp only [m] at hq
      split at hq
      · rename_i hx
        obtain rfl := Option.some.inj hq
        by_cases hxid : x = id
        · subst hxid
          simp only [f, if_true, Table.pointers_eq_some_some]
          exact hfollow.2
        · simp only [f, if_neg hxid]
          cases ha : a.pointers x with
          | some q => exact .inl rfl
          | none =>
            cases hb : b.pointers x with
            | some q => exact .inr rfl
            | none =>
              obtain ⟨q, hq⟩ := hx.2.exists_pointer
              rw [ha, hb] at hq
              rcases hq with hq | hq <;> cases hq
      · cases hq
    · intro x hkept
      have hx : x ≠ p ∧ MayStay start a b x := ⟨fun hxp => hnot (hxp ▸ hkept), hkept.mayStay⟩
      simp only [m, if_pos hx]
      exact Option.some_ne_none _
    · intro x hx
      by_contra hstay
      exact hx (if_neg fun hboth => hstay hboth.2)
  have hmid : m id = some (some p) := by simp only [m, f, if_pos (And.intro hne hfollow.1), if_true]
  have hmp : m p = none := if_neg fun hboth => hboth.1 rfl
  have hshown : ∀ x, m.Shown x → m x = none → x = trashGroupId := by
    intro x hx hnone
    cases hx with
    | root hroot => cases hroot.symm.trans hnone
    | trash => rfl
    | child hchild _ => cases hchild.symm.trans hnone
  cases (h m hm).shown id (by rw [hmid]; exact Option.some_ne_none _) with
  | root hroot => cases hroot.symm.trans hmid
  | trash => exact hid rfl
  | child hchild hup =>
    obtain rfl : _ = p := Option.some.inj (Option.some.inj (hchild.symm.trans hmid))
    exact htrash (hshown _ hup hmp)

theorem merges_sound_iff : (∀ m, Merged start a b m → m.Sound) ↔ Compatible start a b :=
  ⟨fun h => ⟨ends_of_merges h, fun _ _ hid hfollow => parents_of_merges h hid hfollow⟩, fun h _ hm => h.sound hm⟩

end Merge

/-! ## One statement -/

namespace Table
variable {t t' : Table}

def Forest (t : Table) : Prop := ∀ id, Ends t.parentOf id

def after (t : Table) : Except Failure Table → Table
  | .ok t' => t'
  | .error _ => t

theorem parentOf_eq {id : GroupId} {p : Option GroupId} (hmem : ∀ g ∈ t.rows, g.id = id → g.parentId = p)
    (hout : id ∉ t.ids → p = none) : t.parentOf id = p := by
  by_cases hid : id ∈ t.ids
  · obtain ⟨g, hg, rfl⟩ := List.mem_map.1 hid
    rw [parentOf_of_mem hg, hmem g hg rfl]
  · rw [parentOf_of_not_mem hid, hout hid]

theorem exists_insert {g : Group} (hnew : g.id ∉ t.ids) (hp : ∀ p ∈ g.parentId, p = g.id ∨ p ∈ t.ids) :
    ∃ t', t.insert g = .ok t' ∧ t'.rows = t.rows ++ [g] := by
  rw [insert, dif_neg hnew, dif_pos hp]
  exact ⟨_, rfl, rfl⟩

theorem parentOf_insert {g : Group} (hnew : g.id ∉ t.ids) (h : t.insert g = .ok t') :
    t'.parentOf = Function.update t.parentOf g.id g.parentId := by
  simp only [insert, dif_neg hnew] at h
  split at h
  · cases h
    funext id
    refine parentOf_eq (fun g' hg' hid => ?_) fun hout => ?_
    · rcases List.mem_append.1 hg' with hg' | hg'
      · have hne : id ≠ g.id := by
          rintro rfl
          exact hnew (hid ▸ List.mem_map_of_mem hg')
        rw [Function.update_of_ne hne, ← hid, parentOf_of_mem hg']
      · obtain rfl := List.mem_singleton.1 hg'
        rw [← hid, Function.update_self]
    · simp only [ids, List.map_append, List.mem_append, not_or] at hout
      have hne : id ≠ g.id := fun hsame => hout.2 (hsame ▸ List.mem_singleton_self _)
      rw [Function.update_of_ne hne, parentOf_of_not_mem hout.1]
  · cases h

theorem parentOf_update {id : GroupId} {f : Group → Group} {parentId : Option GroupId} (hid : id ∈ t.ids)
    (h : t.update id f parentId = .ok t') : t'.parentOf = Function.update t.parentOf id parentId := by
  simp only [update] at h
  split at h
  · cases h
    funext id'
    refine parentOf_eq (fun g' hg' hid' => ?_) fun hout => ?_
    · obtain ⟨g, hg, rfl⟩ := List.mem_map.1 hg'
      by_cases hsame : g.id = id
      · rw [if_pos hsame] at hid' ⊢
        rw [← hid', hsame, Function.update_self]
      · rw [if_neg hsame] at hid' ⊢
        rw [← hid', Function.update_of_ne hsame, parentOf_of_mem hg]
    · rw [ids, update.map_ids] at hout
      have hne : id' ≠ id := fun hsame => hout (hsame ▸ hid)
      rw [Function.update_of_ne hne, parentOf_of_not_mem hout]
  · cases h

theorem parentOf_update_absent {id : GroupId} {f : Group → Group} {parentId : Option GroupId} (hid : id ∉ t.ids)
    (h : t.update id f parentId = .ok t') : t'.parentOf = t.parentOf := by
  simp only [update] at h
  split at h
  · cases h
    have hsame : (t.rows.map fun g => if g.id = id then { f g with id := g.id, parentId } else g) = t.rows := by
      refine (List.map_congr_left fun g hg => ?_).trans (List.map_id _)
      refine if_neg ?_
      rintro rfl
      exact hid (List.mem_map_of_mem hg)
    funext id'
    simp only [parentOf, groupById, hsame]
  · cases h

theorem parentOf_delete {doomed : List GroupId} {id p : GroupId} (h : (t.delete doomed).parentOf id = some p) :
    t.parentOf id = some p := by
  obtain ⟨g, hg, hp⟩ := Option.bind_eq_some_iff.1 h
  obtain ⟨hmem, rfl⟩ := mem_of_groupById hg
  rw [parentOf_of_mem (List.mem_filter.1 hmem).1]
  exact hp

theorem Forest.delete (h : t.Forest) (doomed : List GroupId) : (t.delete doomed).Forest := fun id =>
  (h id).of_le fun _ _ hxy => parentOf_delete hxy

theorem forest_insert_iff (h : t.Forest) (g : Group) :
    (t.after (t.insert g)).Forest ↔ (g.id ∉ t.ids → g.parentId ≠ some g.id) := by
  by_cases hid : g.id ∈ t.ids
  · rw [insert, dif_pos hid]
    exact iff_of_true h fun hnew => absurd hid hnew
  · rw [imp_iff_right hid]
    cases hins : t.insert g with
    | error e =>
      refine iff_of_true h fun hself => ?_
      rw [insert, dif_neg hid, dif_pos fun p hp => .inl (Option.some.inj (hp.symm.trans hself))] at hins
      cases hins
    | ok t' =>
      change (∀ x, Ends t'.parentOf x) ↔ _
      rw [parentOf_insert hid hins]
      cases hparent : g.parentId with
      | none => exact iff_of_true (fun x => (h x).update_none) (by simp)
      | some p =>
        rw [ends_update_iff h, not_iff_comm, not_not, Option.some.injEq]
        refine ⟨fun hsame => hsame ▸ .refl, fun hup => (mem_of_under hup).resolve_right hid⟩

theorem forest_update_iff (h : t.Forest) (id : GroupId) (f : Group → Group) (parentId : Option GroupId) :
    (t.after (t.update id f parentId)).Forest ↔ ∀ p ∈ t.ids, parentId = some p → ¬Under t.parentOf p id := by
  by_cases hid : id ∈ t.ids
  · cases hup : t.update id f parentId with
    | error e =>
      refine iff_of_true h fun p hp hparent _ => ?_
      rw [update, dif_pos fun _ q hq => Option.some.inj (hparent.symm.trans hq) ▸ hp] at hup
      cases hup
    | ok t' =>
      change (∀ x, Ends t'.parentOf x) ↔ _
      rw [parentOf_update hid hup]
      cases parentId with
      | none => exact iff_of_true (fun x => (h x).update_none) (by simp)
      | some p =>
        have hp : p ∈ t.ids := by
          simp only [update] at hup
          split at hup
          · rename_i hknown
            exact hknown hid p rfl
          · cases hup
        rw [ends_update_iff h]
        exact ⟨fun hnot q _ hq => Option.some.inj hq ▸ hnot, fun hall => hall p hp rfl⟩
  · refine iff_of_true ?_ fun p hp _ hunder => ?_
    · cases hup : t.update id f parentId with
      | error e => exact h
      | ok t' =>
        change ∀ x, Ends t'.parentOf x
        rw [parentOf_update_absent hid hup]
        exact h
    · rcases mem_of_under hunder with rfl | hmem
      · exact hid hp
      · exact hid hmem

end Table

/-! ## One operation -/

section Operation
variable {s : Store} {α β : Type}

theorem groups_onGroups (f : Table → Except Failure Table) : (exec (onGroups f) s).2.groups = s.groups.after (f s.groups) := by
  rw [onGroups, exec_get_bind]
  cases f s.groups <;> rfl

theorem groups_bind {m : Db α} {k : α → Db β} (hk : ∀ a s, (exec (k a) s).2.groups = s.groups) :
    (exec (m >>= k) s).2.groups = (exec m s).2.groups := by
  rw [exec_bind]
  rcases exec m s with ⟨_ | a, s'⟩
  · rfl
  · exact hk a s'

theorem groups_reselect (fallback : Option GroupId) : (exec (reselect fallback) s).2.groups = s.groups := by
  rw [reselect, exec_modify]
  split <;> rfl

theorem groups_setItemGroup (itemId : String) (targetGroupId : Option GroupId) :
    (exec (setItemGroup itemId targetGroupId) s).2.groups = s.groups := by
  have hlink : (exec (linkItem itemId targetGroupId) s).2.groups = s.groups := by
    rw [linkItem, exec_get_bind]
    split
    · rfl
    · split
      · rfl
      · split <;> rfl
  rw [setItemGroup, groups_bind fun _ _ => rfl, hlink]

theorem groups_moveGroup (groupId : GroupId) (targetParentId : Option GroupId) :
    (exec (moveGroup groupId targetParentId) s).2.groups = s.groups.after (s.groups.update groupId (fun g => g) targetParentId) := by
  rw [moveGroup, groups_bind fun _ _ => rfl, groups_onGroups]

theorem groups_ensureTrash : ∃ s', exec ensureTrash s = (.ok (), s') ∧ s'.groups.parentOf = s.groups.parentOf ∧
    trashGroupId ∈ s'.groups.ids := by
  rw [ensureTrash, exec_get_bind]
  split
  · rename_i hthere
    exact ⟨s, rfl, rfl, hthere⟩
  · rename_i hnew
    obtain ⟨t, ht, hrows⟩ := Table.exists_insert (g := trashRow) hnew fun p hp => by cases hp
    have hparents : t.parentOf = s.groups.parentOf := by
      rw [Table.parentOf_insert hnew ht]
      exact Function.update_eq_self_iff.2 (Table.parentOf_of_not_mem hnew).symm
    have hmem : trashGroupId ∈ t.ids := by
      rw [Table.ids, hrows]
      exact List.mem_map.2 ⟨trashRow, List.mem_append_right _ (List.mem_singleton_self _), rfl⟩
    have hexec : exec (onGroups (·.insert trashRow)) s = (.ok (), { s with groups := t }) := by
      rw [onGroups, exec_get_bind]
      simp only [ht]
      rfl
    exact ⟨_, exec_bind_ok hexec, hparents, hmem⟩

theorem forest_delete_iff (h : s.groups.Forest) (groupId : GroupId) :
    (exec (deleteGroup groupId) s).2.groups.Forest ↔
      (groupId ≠ trashGroupId → ¬Under s.groups.parentOf trashGroupId groupId) := by
  by_cases htrash : groupId = trashGroupId
  · rw [deleteGroup, if_pos htrash]
    exact iff_of_true h fun hne => absurd htrash hne
  · rw [imp_iff_right htrash, deleteGroup, if_neg htrash,
      groups_bind fun _ _ => (groups_bind fun _ _ => groups_reselect none).trans rfl, deleteOrTrash, exec_get_bind]
    split
    · rename_i hendless
      obtain ⟨r, hr⟩ := (Table.exists_isGroupInTrash_iff (t := s.groups)).2 (h groupId).cut
      rw [hendless] at hr
      cases hr
    · rename_i hin
      have hup : Under s.groups.parentOf groupId trashGroupId := Table.climb_iff.1 hin
      exact iff_of_true (h.delete _) fun hdown => htrash ((h groupId).antisymm hup hdown)
    · obtain ⟨s', hs', hparents, hthere⟩ := groups_ensureTrash (s := s)
      have hforest : s'.groups.Forest := fun id => by
        rw [hparents]
        exact h id
      rw [exec_bind_ok hs', groups_onGroups, Table.forest_update_iff hforest, hparents]
      exact ⟨fun hall => hall _ hthere rfl, fun hnot p _ hp => Option.some.inj hp ▸ hnot⟩

theorem forest_moves {entries : List SelectionEntry} {target : Option GroupId} (h : s.groups.Forest)
    (hsafe : ∀ p, target = some p → ∀ id, .group id ∈ entries → ¬Under s.groups.parentOf p id) :
    (exec (entries.forM (moveEntry target)) s).2.groups.Forest := by
  induction entries generalizing s with
  | nil => exact h
  | cons e entries ih =>
    have hone : (exec (moveEntry target e) s).2.groups.Forest ∧ ∀ p, target = some p → ∀ id, .group id ∈ entries →
        ¬Under (exec (moveEntry target e) s).2.groups.parentOf p id := by
      cases e with
      | item id =>
        rw [moveEntry, groups_setItemGroup]
        exact ⟨h, fun p hp id hid => hsafe p hp id (List.mem_cons_of_mem _ hid)⟩
      | group id =>
        rw [moveEntry, groups_moveGroup]
        refine ⟨(Table.forest_update_iff h ..).2 fun p _ hp => hsafe p hp id List.mem_cons_self, ?_⟩
        intro p hp id' hid'
        have hnot := hsafe p hp id' (List.mem_cons_of_mem _ hid')
        cases hup : s.groups.update id (fun g => g) target with
        | error e => exact hnot
        | ok t' =>
          change ¬Under t'.parentOf p id'
          by_cases hmem : id ∈ s.groups.ids
          · rwa [Table.parentOf_update hmem hup, under_update (hsafe p hp id List.mem_cons_self)]
          · rwa [Table.parentOf_update_absent hmem hup]
    change (exec (moveEntry target e >>= fun _ => entries.forM (moveEntry target)) s).2.groups.Forest
    rw [exec_bind]
    rcases hrun : exec (moveEntry target e) s with ⟨_ | _, s'⟩
    · rw [hrun] at hone
      exact hone.1
    · rw [hrun] at hone
      exact ih hone.1 hone.2

theorem forM_eq_ok {γ : Type} {f : γ → Except Failure Unit} {l : List γ} (h : l.forM f = .ok ()) : ∀ c ∈ l, f c = .ok () := by
  induction l with
  | nil => exact fun _ hc => absurd hc List.not_mem_nil
  | cons c l ih =>
    change (f c >>= fun _ => l.forM f) = .ok () at h
    cases hc : f c with
    | error e =>
      rw [hc] at h
      cases h
    | ok u =>
      rw [hc] at h
      exact List.forall_mem_cons.2 ⟨hc, ih h⟩

theorem forest_bulkMove (h : s.groups.Forest) (entries : List SelectionEntry) (target : Option GroupId) :
    (exec (bulkMove entries target) s).2.groups.Forest := by
  rw [bulkMove, exec_get_bind]
  split
  · exact h
  · rename_i hcheck
    refine forest_moves h fun p hp id hid hup => ?_
    subst hp
    have hone := forM_eq_ok hcheck _ hid
    rw [checkMove] at hone
    split at hone
    · cases hone
    · split at hone
      · cases hone
      · rename_i hnot
        exact hnot (Table.mem_descendantIdSet.2 hup)

theorem forest_step_iff (h : s.groups.Forest) (op : Op) : (step s op).groups.Forest ↔ op.Acyclic s := by
  cases op with
  | add draft uuid =>
    rw [step, Op.run, groups_bind fun _ _ => rfl, addGroup, groups_bind fun _ _ => groups_bind fun _ _ => rfl, groups_onGroups]
    exact Table.forest_insert_iff h _
  | update group =>
    rw [step, Op.run, updateGroup, groups_bind fun _ _ => rfl, groups_onGroups]
    exact Table.forest_update_iff h ..
  | move groupId target =>
    rw [step, Op.run, groups_moveGroup]
    exact Table.forest_update_iff h ..
  | restore groupId =>
    rw [step, Op.run, restoreGroup, groups_moveGroup]
    exact iff_of_true ((Table.forest_update_iff h ..).2 fun _ _ hp => by cases hp) trivial
  | bulkMove entries target => exact iff_of_true (forest_bulkMove h entries target) trivial
  | delete groupId => exact forest_delete_iff h groupId

end Operation

/-- From a forest, an own copy has only walks that end and shows all its groups as long as no operation puts a group under
itself; two copies have only such merges exactly if they are compatible. -/
theorem folder_walks_iff (start : Store) (hstart : start.groups.Forest) :
    (∀ ops, (∀ ops', ops' <+: ops → (run step start ops').groups.pointers.Sound) ↔
      Guarded step (fun s op => op.Acyclic s) start ops) ∧
    ∀ opsA opsB, (∀ m, Merged start.groups (run step start opsA).groups (run step start opsB).groups m → m.Sound) ↔
      Compatible start.groups (run step start opsA).groups (run step start opsB).groups := by
  refine ⟨fun ops => ?_, fun opsA opsB => merges_sound_iff⟩
  simp only [Table.sound_pointers_iff]
  exact guarded_iff_always (I := fun _ => True) (W := fun s : Store => s.groups.Forest) (fun _ _ _ _ _ => trivial)
    (fun s op _ h => forest_step_iff h op) ops trivial hstart

/-! ## Two folders -/

def work : GroupId := ⟨"work", by decide⟩

def bank : GroupId := ⟨"bank", by decide⟩

def twoFolders : Store where
  groups :=
    { rows := [⟨work, some "Work", none, none, none, none, none⟩, ⟨bank, some "Bank", none, none, none, none, none⟩]
      ids_nodup := by decide
      parents := by decide }
  items := []
  keyValues := []
  itemTags := []
  groupItems := []
  itemGroupMap := []

theorem twoFolders_roots (id : GroupId) : twoFolders.groups.parentOf id = none := by
  have hroots : ∀ g ∈ twoFolders.groups.rows, g.parentId = none := by decide
  exact Table.parentOf_eq (fun g hg _ => hroots g hg) fun _ => rfl

theorem twoFolders_forest : twoFolders.groups.Forest := fun id => .of_none (twoFolders_roots id)

theorem twoFolders_acyclic : (Op.move work (some bank)).Acyclic twoFolders := by
  intro p _ hp hup
  obtain rfl := Option.some.inj hp
  exact absurd ((under_of_none (p := twoFolders.groups.parentOf) rfl).1 hup) (by decide)

/-- One device puts a folder into the other one, and the other device does nothing. -/
theorem folder_walks_one_move :
    (run step twoFolders [.move work (some bank)]).groups.pointers.Sound ∧
      ∀ m, Merged twoFolders.groups (run step twoFolders [.move work (some bank)]).groups twoFolders.groups m → m.Sound := by
  have hown := ((folder_walks_iff twoFolders twoFolders_forest).1 [.move work (some bank)]).2 ⟨twoFolders_acyclic, trivial⟩ _
    (List.prefix_refl _)
  refine ⟨hown, ((folder_walks_iff twoFolders twoFolders_forest).2 [.move work (some bank)] []).2 ?_⟩
  have hends := Table.sound_pointers_iff.1 hown
  have hroot : ∀ id p, twoFolders.groups.parentOf id ≠ some p := fun id p => by
    rw [twoFolders_roots]
    exact Option.some_ne_none p |>.symm
  refine ⟨fun id => Subrelation.accessible (fun {p id} hp => ?_) (hends id), fun id p _ hp => ?_⟩
  · exact hp.2.resolve_right (hroot id p)
  · have hmem := (Table.parentOf_mem (hp.2.resolve_right (hroot id p))).2
    exact .inr (.inl ⟨hmem, hmem⟩)

/-- Two devices put each folder into the other one, and the merge takes both moves. -/
theorem crossing_moves_close_circle :
    Guarded step (fun s op => op.Acyclic s) twoFolders [.move work (some bank)] ∧
    Guarded step (fun s op => op.Acyclic s) twoFolders [.move bank (some work)] ∧
    ∃ m, Merged twoFolders.groups (run step twoFolders [.move work (some bank)]).groups
      (run step twoFolders [.move bank (some work)]).groups m ∧ ¬m.Sound := by
  have hother : (Op.move bank (some work)).Acyclic twoFolders := by
    intro p _ hp hup
    obtain rfl := Option.some.inj hp
    exact absurd ((under_of_none (p := twoFolders.groups.parentOf) rfl).1 hup) (by decide)
  refine ⟨⟨twoFolders_acyclic, trivial⟩, ⟨hother, trivial⟩, ?_⟩
  let m : Pointers := fun id => if id = work then some (some bank) else if id = bank then some (some work) else none
  refine ⟨m, ⟨fun id p hp => ?_, fun id hkept => ?_, fun id hid => ?_⟩, fun hsound => ?_⟩
  · by_cases hwork : id = work
    · subst hwork
      exact .inl hp
    · by_cases hbank : id = bank
      · subst hbank
        exact .inr hp
      · simp only [m, if_neg hwork, if_neg hbank] at hp
        cases hp
  · have hmem : id ∈ [work, bank] := by
      rcases hkept with ⟨h, -⟩ | ⟨-, h | h⟩ <;> exact h
    rcases List.mem_cons.1 hmem with rfl | hmem
    · exact Option.some_ne_none _
    · obtain rfl := List.mem_singleton.1 hmem
      exact Option.some_ne_none _
  · have hmem : id ∈ [work, bank] := by
      by_contra hnot
      simp only [List.mem_cons, List.not_mem_nil, or_false, not_or] at hnot
      exact hid (by simp only [m, if_neg hnot.1, if_neg hnot.2])
    exact .inl ⟨hmem, .inl hmem⟩
  · have hends := (Pointers.sound_iff.1 hsound).1 work
    exact hends.not_under (b := bank) rfl (.single rfl)

end HaexVault.Passwords.Groups
