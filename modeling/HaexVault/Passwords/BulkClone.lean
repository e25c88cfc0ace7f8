import HaexVault.Passwords.Cloning
/-!
# Clones of a selection

A run of `bulkCloneAsync`. `Grown` is what the calls so far have added; as long as the target
does not lie in a folder that is cloned, what they read is still what was there in the
beginning. Otherwise the copies are read again, and the calls do not end.
-/

namespace HaexVault.Passwords.Groups

open Lib Lib.Fallible Lib.Forest

/-! ## What the calls have added so far -/

structure Away (r : Runtime) (target : Option GroupId) (a : Added) : Prop where
  parents : ∀ g ∈ a.groups, g.parentId = target ∨ ∃ k, g.parentId = some (r.uuid k)
  links : ∀ l ∈ a.groupItems, l.groupId = target ∨ ∃ k, l.groupId = some (r.uuid k)
  keyValues : ∀ kv ∈ a.keyValues, ∃ k, kv.itemId = (r.uuid k).text
  itemTags : ∀ l ∈ a.itemTags, ∃ k, l.itemId = (r.uuid k).text

theorem Away.append {r : Runtime} {target : Option GroupId} {a b : Added} (h : Away r target a) (h' : Away r target b) :
    Away r target (a ++ b) where
  parents := List.forall_mem_append.2 ⟨h.parents, h'.parents⟩
  links := List.forall_mem_append.2 ⟨h.links, h'.links⟩
  keyValues := List.forall_mem_append.2 ⟨h.keyValues, h'.keyValues⟩
  itemTags := List.forall_mem_append.2 ⟨h.itemTags, h'.itemTags⟩

/-- The session has come from the store by adding these rows. -/
structure Grown (r : Runtime) (s : Store) (target : Option GroupId) (st : Session) (a : Added) : Prop where
  adds : Adds s a st.store
  drawn : Drawn r 0 st.drawn a
  away : Away r target a
  map : ∃ links ⊆ a.groupItems, st.store.itemGroupMap = (s.groupItems ++ links).map fun l => (l.itemId, l.groupId)

section Grow
variable {r : Runtime} {s : Store} {entries : List SelectionEntry} {target p : Option GroupId} {st st' : Session} {a b : Added}
  {g : GroupId} {i : String} {n : Nat}

theorem Grown.start (hloaded : s.Loaded) : Grown r s target ⟨s, 0⟩ {} where
  adds := ⟨(List.append_nil _).symm, (List.append_nil _).symm, (List.append_nil _).symm, (List.append_nil _).symm,
    (List.append_nil _).symm⟩
  drawn := .empty 0
  away := by constructor <;> exact fun _ h => absurd h List.not_mem_nil
  map := ⟨[], List.Subset.refl _, by rw [List.append_nil]; exact hloaded.map⟩

namespace Grown

theorem wrote (h : Grown r s target st a) (hw : Wrote r st b st') (haway : Away r target b) : Grown r s target st' (a ++ b) where
  adds := h.adds.append hw.adds
  drawn := h.drawn.append hw.drawn
  away := h.away.append haway
  map := by
    obtain ⟨links, hlinks, hmap⟩ := h.map
    exact ⟨links, fun l hl => List.mem_append_left _ (hlinks hl), hw.map.trans hmap⟩

theorem mem_ids (h : Grown r s target st a) (hg : g ∈ s.groups.ids) : g ∈ st.store.groups.ids := by
  rw [Table.ids, h.adds.groups, List.map_append]
  exact List.mem_append_left _ hg

theorem fresh (h : Grown r s target st a) (hfresh : Fresh r s entries) : r.uuid st.drawn ∉ st.store.groups.ids := by
  rw [Table.ids, h.adds.groups, List.map_append, List.mem_append, not_or]
  refine ⟨hfresh.groups _, fun hmem => ?_⟩
  obtain ⟨k, -, hk, hsame⟩ := mem_idsBetween.1 (h.drawn.groups.subset hmem)
  exact absurd (r.uuid_injective hsame) hk.ne

theorem not_place (hfresh : Fresh r s entries) (hg : g ∈ s.groups.ids) (ht : target ≠ some g) {q : Option GroupId}
    (hq : q = target ∨ ∃ k, q = some (r.uuid k)) : q ≠ some g := by
  rintro rfl
  rcases hq with hq | ⟨k, hk⟩
  · exact ht hq.symm
  · exact hfresh.groups k (Option.some.inj hk ▸ hg)

theorem childrenOf (h : Grown r s target st a) (hfresh : Fresh r s entries) (hg : g ∈ s.groups.ids) (ht : target ≠ some g) :
    st.store.groups.childrenOf (some g) = s.groups.childrenOf (some g) := by
  have hnone : a.groups.filter (·.parentId = some g) = [] := by
    refine List.filter_eq_nil_iff.2 fun c hc hparent => ?_
    exact not_place hfresh hg ht (h.away.parents c hc) (of_decide_eq_true hparent)
  rw [Table.childrenOf, h.adds.groups, List.filter_append, hnone, List.append_nil, Table.childrenOf]

theorem itemsOf (h : Grown r s target st a) (hfresh : Fresh r s entries) (hg : g ∈ s.groups.ids) (ht : target ≠ some g) :
    (st.store.itemGroupMap.filter (·.2 = some g)).map (·.1) = (s.groupItems.filter (·.groupId = some g)).map (·.itemId) := by
  obtain ⟨links, hlinks, hmap⟩ := h.map
  have hnone : links.filter (·.groupId = some g) = [] := by
    refine List.filter_eq_nil_iff.2 fun l hl hgroup => ?_
    exact not_place hfresh hg ht (h.away.links l (hlinks hl)) (of_decide_eq_true hgroup)
  have hfilter : (st.store.itemGroupMap.filter (·.2 = some g)).map (·.1) =
      ((s.groupItems ++ links).filter (·.groupId = some g)).map (·.itemId) := by
    rw [hmap, List.filter_map, List.map_map]
    rfl
  rw [hfilter, List.filter_append, hnone, List.append_nil]

theorem reads (h : Grown r s target st a) (hi : ∀ k, i ≠ (r.uuid k).text) :
    st.store.items.find? (·.id = i) = s.items.find? (·.id = i) ∧
      st.store.keyValues.filter (·.itemId = i) = s.keyValues.filter (·.itemId = i) ∧
      st.store.itemTags.filter (·.itemId = i) = s.itemTags.filter (·.itemId = i) := by
  refine ⟨?_, ?_, ?_⟩
  · have hnone : a.items.find? (·.id = i) = none := by
      refine List.find?_eq_none.2 fun x hx hid => ?_
      obtain ⟨y, hy, hyx⟩ := List.mem_map.1 (h.drawn.items.subset (List.mem_map_of_mem hx))
      obtain ⟨k, -, -, rfl⟩ := mem_idsBetween.1 hy
      exact hi k ((of_decide_eq_true hid).symm.trans hyx.symm)
    rw [h.adds.items, List.find?_append, hnone, Option.or_none]
  · have hnone : a.keyValues.filter (·.itemId = i) = [] := by
      refine List.filter_eq_nil_iff.2 fun kv hkv hid => ?_
      obtain ⟨k, hk⟩ := h.away.keyValues kv hkv
      exact hi k ((of_decide_eq_true hid).symm.trans hk)
    rw [h.adds.keyValues, List.filter_append, hnone, List.append_nil]
  · have hnone : a.itemTags.filter (·.itemId = i) = [] := by
      refine List.filter_eq_nil_iff.2 fun l hl hid => ?_
      obtain ⟨k, hk⟩ := h.away.itemTags l hl
      exact hi k ((of_decide_eq_true hid).symm.trans hk)
    rw [h.adds.itemTags, List.filter_append, hnone, List.append_nil]

theorem cloneItem (h : Grown r s target st a) (hi : ∀ k, i ≠ (r.uuid k).text) (hhas : s.Has (.item i))
    (hp : p = target ∨ ∃ k, p = some (r.uuid k)) (hmem : ∀ g ∈ p, g ∈ st.store.groups.ids) :
    ∃ st' b, exec (Groups.cloneItem r i p) st = (.ok (), st') ∧ ItemCopy s i p b ∧ Grown r s target st' (a ++ b) ∧
      st'.store.groups = st.store.groups := by
  obtain ⟨hfind, hkv, htags⟩ := h.reads hi
  obtain ⟨source, hsource⟩ : ∃ source, s.items.find? (·.id = i) = some source := by
    obtain ⟨x, hx, hid⟩ := List.mem_map.1 hhas
    exact Option.isSome_iff_exists.1 (List.find?_isSome.2 ⟨x, hx, decide_eq_true hid⟩)
  obtain ⟨st', b, hst', hcopy, hwrote, hgroups, hnone, hlinks, hkvs, htagl⟩ := exec_cloneItem (r := r) (hfind.trans hsource) hmem
  refine ⟨st', b, hst', ?_, h.wrote hwrote ⟨?_, ?_, ?_, ?_⟩, hgroups⟩
  · cases hcopy with
    | copy hf hk ht =>
      rw [hfind] at hf
      rw [hkv] at hk
      rw [htags] at ht
      exact .copy hf hk ht
  · rw [hnone]
    exact fun _ h => absurd h List.not_mem_nil
  · exact fun l hl => hlinks l hl ▸ hp
  · exact fun kv hkv' => ⟨_, hkvs kv hkv'⟩
  · exact fun l hl => ⟨_, htagl l hl⟩

end Grown

/-! ## Groups -/

def rowOf (id : GroupId) (draft : PasswordGroupDraft) : Group :=
  ⟨id, some draft.name, draft.description, draft.icon, draft.color, draft.sortOrder, draft.parentId⟩

theorem exec_addNewGroup (draft : PasswordGroupDraft) (hid : draft.id = none) (hnew : r.uuid st.drawn ∉ st.store.groups.ids)
    (hparent : ∀ g ∈ draft.parentId, g ∈ st.store.groups.ids) :
    ∃ st', exec (addNewGroup r draft) st = (.ok (r.uuid st.drawn), st') ∧ st'.drawn = st.drawn + 1 ∧
      st'.store.itemGroupMap = (st.store.groupItems.map fun l => (l.itemId, l.groupId)) ∧
      Adds st.store { groups := [rowOf (r.uuid st.drawn) draft] } st'.store := by
  obtain ⟨t, ht, hrows⟩ := Table.exists_insert (g := rowOf (r.uuid st.drawn) draft) hnew fun g hg => .inr (hparent g hg)
  have hadd : exec (addGroup draft (r.uuid st.drawn)) st.store = (.ok (r.uuid st.drawn), { st.store with
      groups := t
      itemGroupMap := st.store.groupItems.map fun l => (l.itemId, l.groupId) }) := by
    rw [addGroup, hid, Option.getD_none, exec_bind_ok (s := st.store) (r := { st.store with groups := t })]
    · rfl
    · change exec (onGroups (·.insert (rowOf (r.uuid st.drawn) draft))) st.store = _
      rw [onGroups, exec_get_bind]
      simp only [ht]
      rfl
  refine ⟨_, (exec_bind_ok rfl).trans (exec_onStore hadd), rfl, rfl, ⟨hrows, ?_, ?_, ?_, ?_⟩⟩ <;>
    exact (List.append_nil _).symm

theorem Each.map {α β : Type} {R : β → Added → Prop} {f : α → β} {l : List α} (h : Each (fun x => R (f x)) l a) :
    Each R (l.map f) a := by
  induction h with
  | nil => exact .nil
  | cons hx _ ih => exact .cons hx ih

theorem forM_each {α : Type} {I : Session → Added → Prop} {f : α → Cloning Unit} {R : α → Added → Prop} {l : List α}
    (h : ∀ x ∈ l, ∀ st a, I st a → ∃ st' b, exec (f x) st = (.ok (), st') ∧ R x b ∧ I st' (a ++ b)) (hI : I st a) :
    ∃ st' b, exec (l.forM f) st = (.ok (), st') ∧ Each R l b ∧ I st' (a ++ b) := by
  induction l generalizing st a with
  | nil => exact ⟨st, {}, rfl, .nil, by rwa [Added.append_empty]⟩
  | cons x l ih =>
    obtain ⟨st₁, b, hst₁, hx, hI₁⟩ := h x List.mem_cons_self st a hI
    obtain ⟨st₂, c, hst₂, hl, hI₂⟩ := ih (fun y hy => h y (List.mem_cons_of_mem _ hy)) hI₁
    exact ⟨st₂, b ++ c, (exec_bind_ok hst₁).trans hst₂, .cons hx hl, by rwa [← Added.append_assoc]⟩

def Table.reach (t : Table) (g : GroupId) : Nat :=
  (t.rows.filter fun x => climb t.parentOf g (t.rows.length + 1) x.id = some true).length

theorem Table.reach_pos {t : Table} (hg : g ∈ t.ids) : 0 < t.reach g := by
  obtain ⟨x, hx, rfl⟩ := List.mem_map.1 hg
  exact List.length_pos_of_mem (List.mem_filter.2 ⟨hx, decide_eq_true (Table.climb_iff.2 .refl)⟩)

theorem Table.reach_le (t : Table) (g : GroupId) : t.reach g ≤ t.rows.length := List.length_filter_le ..

theorem Table.reach_lt {t : Table} (hforest : t.Forest) {c : GroupId} (hc : t.parentOf c = some g) : t.reach c < t.reach g := by
  have hsub : (t.rows.filter fun x => climb t.parentOf c (t.rows.length + 1) x.id = some true) =
      (t.rows.filter fun x => climb t.parentOf g (t.rows.length + 1) x.id = some true).filter
        fun x => climb t.parentOf c (t.rows.length + 1) x.id = some true := by
    rw [List.filter_filter]
    refine List.filter_congr fun x _ => ?_
    rw [Bool.eq_iff_iff, Bool.and_eq_true, decide_eq_true_eq, decide_eq_true_eq, climb_iff, climb_iff]
    exact (and_iff_left_of_imp fun hup => show Under t.parentOf x.id g from hup.tail hc).symm
  obtain ⟨x, hx, rfl⟩ := List.mem_map.1 (Table.parentOf_mem hc).2
  rw [reach, hsub, reach]
  refine List.length_filter_lt_length_iff_exists.2 ⟨x, List.mem_filter.2 ⟨hx, decide_eq_true (climb_iff.2 .refl)⟩, ?_⟩
  rw [decide_eq_true_eq, climb_iff]
  exact (hforest c).not_under hc

namespace Grown

theorem addCopy (h : Grown r s target st a) (hfresh : Fresh r s entries) (source : Group)
    (hp : p = target ∨ ∃ k, p = some (r.uuid k)) (hmem : ∀ q ∈ p, q ∈ st.store.groups.ids) :
    ∃ st' newId, exec (addNewGroup r (draftOf source p)) st = (.ok newId, st') ∧ (∃ k, some newId = some (r.uuid k)) ∧
      newId ∈ st'.store.groups.ids ∧ st.store.groups.ids ⊆ st'.store.groups.ids ∧
      Grown r s target st' (a ++
        { groups := [{ source with id := newId, name := some (source.name.getD ""), sortOrder := none, parentId := p }] }) := by
  obtain ⟨st', hst', hdrawn, hmap, hadds⟩ := exec_addNewGroup (draftOf source p) rfl (h.fresh hfresh) hmem
  have hids : st'.store.groups.ids = st.store.groups.ids ++ [r.uuid st.drawn] := by
    rw [Table.ids, hadds.groups, List.map_append]
    rfl
  refine ⟨st', _, hst', ⟨_, rfl⟩, ?_, ?_, h.adds.append hadds, h.drawn.append ?_, h.away.append ?_, ?_⟩
  · rw [hids]
    exact List.mem_append_right _ (List.mem_singleton_self _)
  · rw [hids]
    exact List.subset_append_left _ _
  · refine ⟨by omega, ?_, List.nil_sublist _, List.nil_sublist _, List.nil_sublist _⟩
    rw [hdrawn, idsBetween_succ]
    exact List.Sublist.refl _
  · refine ⟨fun x hx => ?_, fun _ hx => absurd hx List.not_mem_nil, fun _ hx => absurd hx List.not_mem_nil,
      fun _ hx => absurd hx List.not_mem_nil⟩
    rw [List.mem_singleton.1 hx]
    exact hp
  · exact ⟨a.groupItems, List.subset_append_left _ _, by rw [hmap, h.adds.groupItems]⟩

/-- The group is copied as it was in the beginning, with all beneath it. -/
theorem cloneGroup (hfresh : Fresh r s entries) (hforest : s.groups.Forest) (hloaded : s.Loaded) (h : Grown r s target st a)
    (hg : g ∈ s.groups.ids) (hout : ∀ t ∈ target, ¬Under s.groups.parentOf t g) (hp : p = target ∨ ∃ k, p = some (r.uuid k))
    (hmem : ∀ q ∈ p, q ∈ st.store.groups.ids) (hn : s.groups.reach g ≤ n) :
    ∃ st' b, exec (cloneGroupRecursive r n g p) st = (.ok (), st') ∧ GroupCopy s g p b ∧ Grown r s target st' (a ++ b) ∧
      st.store.groups.ids ⊆ st'.store.groups.ids := by
  induction n generalizing st a g p with
  | zero => exact absurd (Table.reach_pos hg) (by omega)
  | succ n ih =>
    obtain ⟨source, hsource, rfl⟩ := List.mem_map.1 hg
    have ht : target ≠ some source.id := fun ht => hout _ ht .refl
    have hfind : st.store.groups.groupById source.id = some source := by
      refine Table.groupById_of_mem ?_
      rw [h.adds.groups]
      exact List.mem_append_left _ hsource
    obtain ⟨st₁, newId, hst₁, hnewId, hnew₁, hids₁, h₁⟩ := h.addCopy hfresh source hp hmem
    -- the children, each in the new group
    let I (t : Session) (c : Added) : Prop := Grown r s target t c ∧ st₁.store.groups.ids ⊆ t.store.groups.ids
    have hchild : ∀ child ∈ r.sorted (s.groups.childrenOf (some source.id)), ∀ t c, I t c →
        ∃ t' d, exec (cloneGroupRecursive r n child.id (some newId)) t = (.ok (), t') ∧
          GroupCopy s child.id (some newId) d ∧ I t' (c ++ d) := by
      intro child hchild t c hI
      have hparent : s.groups.parentOf child.id = some source.id :=
        Table.mem_childrenOf.1 (List.mem_map_of_mem ((r.sorted_perm _).mem_iff.1 hchild))
      have hfewer := Table.reach_lt hforest hparent
      obtain ⟨t', d, ht', hcopy, hgrown, hids⟩ := ih hI.1 (Table.parentOf_mem hparent).1
        (fun x hx hup => hout x hx (hup.tail hparent)) (.inr hnewId) (fun q hq => hI.2 (Option.some.inj hq ▸ hnew₁)) (by omega)
      exact ⟨t', d, ht', hcopy, hgrown, fun x hx => hids (hI.2 hx)⟩
    obtain ⟨st₂, b, hst₂, hb, h₂, hids₂⟩ := forM_each hchild ⟨h₁, List.Subset.refl _⟩
    rw [← h₁.childrenOf hfresh hg ht] at hst₂
    -- the items, in the new group too
    have hitem : ∀ i ∈ (s.groupItems.filter (·.groupId = some source.id)).map (·.itemId), ∀ t c, I t c →
        ∃ t' d, exec (Groups.cloneItem r i (some newId)) t = (.ok (), t') ∧ ItemCopy s i (some newId) d ∧ I t' (c ++ d) := by
      intro i hi t c hI
      obtain ⟨l, hl, rfl⟩ := List.mem_map.1 hi
      have hhas : s.Has (.item l.itemId) := hloaded.items l (List.mem_filter.1 hl).1
      obtain ⟨t', d, ht', hcopy, hgrown, hsame⟩ := hI.1.cloneItem (fun k hk => hfresh.items k (hk ▸ hhas)) hhas
        (.inr hnewId) (fun q hq => hI.2 (Option.some.inj hq ▸ hnew₁))
      exact ⟨t', d, ht', hcopy, hgrown, hsame ▸ hI.2⟩
    obtain ⟨st₃, c, hst₃, hc, h₃, hids₃⟩ := forM_each hitem ⟨h₂, hids₂⟩
    rw [← h₂.itemsOf hfresh hg ht] at hst₃
    have hpairs : Each (fun x d => ItemCopy s x.1 (some x.2) d)
        (((s.groupItems.filter (·.groupId = some source.id)).map (·.itemId)).map fun i => (i, newId)) c := Each.map hc
    rw [List.map_map] at hpairs
    refine ⟨st₃, _, ?_, .copy hsource (r.sorted_perm _) (Each.map hb) hpairs, ?_, fun x hx => hids₃ (hids₁ hx)⟩
    · rw [cloneGroupRecursive, exec_get_bind, hfind]
      exact (exec_bind_ok hst₁).trans ((exec_bind_ok hst₂).trans hst₃)
    · simp only [Added.append_assoc] at h₃ ⊢
      exact h₃

end Grown

end Grow

/-! ## A folder that is cloned into itself -/

def Unused (r : Runtime) (st : Session) : Prop := ∀ k, st.drawn ≤ k → r.uuid k ∉ st.store.groups.ids

structure Extends (r : Runtime) (st st' : Session) : Prop where
  rows : st.store.groups.rows <+: st'.store.groups.rows
  unused : Unused r st → Unused r st'

section Diverge
variable {r : Runtime} {st st' : Session} {g x y : GroupId} {n : Nat}

instance : Std.Refl (Extends r) := ⟨fun _ => ⟨List.prefix_refl _, id⟩⟩

instance : IsTrans Session (Extends r) where
  trans _ _ _ h h' := ⟨h.rows.trans h'.rows, h'.unused ∘ h.unused⟩

theorem extends_of_groups (hgroups : st'.store.groups = st.store.groups) (hdrawn : st.drawn ≤ st'.drawn) : Extends r st st' where
  rows := by rw [hgroups]
  unused h k hk := by
    rw [hgroups]
    exact h k (hdrawn.trans hk)

theorem Extends.ids (h : Extends r st st') : st.store.groups.ids ⊆ st'.store.groups.ids := (h.rows.map _).subset

theorem Extends.parentOf (h : Extends r st st') (hxy : st.store.groups.parentOf x = some y) :
    st'.store.groups.parentOf x = some y := by
  obtain ⟨row, hrow, rfl⟩ := List.mem_map.1 (Table.parentOf_mem hxy).1
  rw [Table.parentOf_of_mem hrow] at hxy
  rw [Table.parentOf_of_mem (h.rows.subset hrow), hxy]

theorem Extends.under (h : Extends r st st') (hup : Under st.store.groups.parentOf x y) :
    Under st'.store.groups.parentOf x y := by
  induction hup with
  | refl => exact .refl
  | tail _ hyz ih => exact ih.tail (h.parentOf hyz)

theorem randomUUID_extends : Keeps (Extends r) (randomUUID r) := fun _ => extends_of_groups rfl (Nat.le_succ _)

theorem onStore_extends {α : Type} {m : Db α} (h : ∀ s, (exec m s).2.groups = s.groups) : Keeps (Extends r) (onStore m) :=
  fun st => extends_of_groups (h st.store) le_rfl

theorem cloneItem_extends (i : String) (p : Option GroupId) : Keeps (Extends r) (cloneItem r i p) := by
  refine Keeps.get_bind fun s => ?_
  split
  · exact Keeps.pure _
  · refine randomUUID_extends.bind fun newId => (onStore_extends fun _ => rfl).bind fun _ => ?_
    refine (Keeps.forM (fun kv : KeyValue => randomUUID_extends.bind fun _ => onStore_extends fun _ => rfl) _).bind fun _ => ?_
    refine (Keeps.forM (fun l : ItemTag => randomUUID_extends.bind fun _ => onStore_extends fun _ => rfl) _).bind fun _ => ?_
    refine onStore_extends fun s => ?_
    rw [insertLink, exec_get_bind]
    split <;> rfl

theorem addNewGroup_extends (draft : PasswordGroupDraft) (hid : draft.id = none) : Keeps (Extends r) (addNewGroup r draft) := by
  intro st
  have hgroups : (exec (addNewGroup r draft) st).2.store.groups = st.store.groups.after
      (st.store.groups.insert (rowOf (r.uuid st.drawn) draft)) := by
    have hadd := groups_onGroups (s := st.store) (·.insert (rowOf (r.uuid st.drawn) draft))
    rw [addNewGroup, exec_bind_ok (s := st) (a := r.uuid st.drawn) (r := { st with drawn := st.drawn + 1 }) rfl]
    change (exec (addGroup draft (r.uuid st.drawn)) st.store).2.groups = _
    rw [addGroup, hid, Option.getD_none, groups_bind fun _ _ => groups_bind fun _ _ => rfl]
    exact hadd
  have hdrawn : (exec (addNewGroup r draft) st).2.drawn = st.drawn + 1 := by
    rw [addNewGroup, exec_bind_ok (s := st) (a := r.uuid st.drawn) (r := { st with drawn := st.drawn + 1 }) rfl]
    rfl
  cases hins : st.store.groups.insert (rowOf (r.uuid st.drawn) draft) with
  | error e =>
    rw [hins] at hgroups
    exact extends_of_groups hgroups (by omega)
  | ok t =>
    rw [hins] at hgroups
    by_cases hmem : r.uuid st.drawn ∈ st.store.groups.ids
    · rw [Table.insert, dif_pos (show (rowOf (r.uuid st.drawn) draft).id ∈ st.store.groups.ids from hmem)] at hins
      cases hins
      exact extends_of_groups hgroups (by omega)
    · have hrows : t.rows = st.store.groups.rows ++ [rowOf (r.uuid st.drawn) draft] := by
        simp only [Table.insert, dif_neg (show (rowOf (r.uuid st.drawn) draft).id ∉ st.store.groups.ids from hmem)] at hins
        split at hins
        · cases hins
          rfl
        · cases hins
      refine ⟨?_, fun hunused k hk => ?_⟩
      · rw [hgroups]
        exact ⟨_, hrows.symm⟩
      · rw [hdrawn] at hk
        rw [hgroups]
        change r.uuid k ∉ t.rows.map (·.id)
        rw [hrows, List.map_append, List.mem_append, List.map_singleton, List.mem_singleton, not_or]
        refine ⟨hunused k (by omega), fun hsame => ?_⟩
        have := r.uuid_injective hsame
        omega

theorem cloneGroup_extends (n : Nat) (g : GroupId) (p : Option GroupId) : Keeps (Extends r) (cloneGroupRecursive r n g p) := by
  induction n generalizing g p with
  | zero => exact Keeps.throw _
  | succ n ih =>
    refine Keeps.get_bind fun s => ?_
    split
    · exact Keeps.pure _
    · refine (addNewGroup_extends _ rfl).bind fun newId => Keeps.get_bind fun s₁ => ?_
      refine (Keeps.forM (fun child : Group => ih child.id _) _).bind fun _ => Keeps.get_bind fun s₂ => ?_
      exact Keeps.forM (fun i : String => cloneItem_extends i _) _

theorem exists_exec_of_forM {α : Type} {R : Session → Session → Prop} [Std.Refl R] [IsTrans Session R] {f : α → Cloning Unit}
    {l : List α} {c : α} (hf : ∀ c, Keeps R (f c)) (h : exec (l.forM f) st = (.ok (), st')) (hc : c ∈ l) :
    ∃ st₁ st₂, R st st₁ ∧ exec (f c) st₁ = (.ok (), st₂) := by
  induction l generalizing st with
  | nil => cases hc
  | cons d l ih =>
    obtain ⟨u, st₁, hd, hrest⟩ := exec_bind_eq_ok h
    rcases List.mem_cons.1 hc with rfl | hc
    · exact ⟨st, st₁, refl_of R st, hd⟩
    · obtain ⟨st₂, st₃, hR, hex⟩ := ih hrest hc
      have hone := hf d st
      rw [hd] at hone
      exact ⟨st₂, st₃, trans_of R hone hR, hex⟩

theorem cloneGroup_endless (hunused : Unused r st) (hg : g ∈ st.store.groups.ids) (hup : Under st.store.groups.parentOf y g) :
    exec (cloneGroupRecursive r n g (some y)) st ≠ (.ok (), st') := by
  induction n generalizing st st' g y with
  | zero => exact fun h => by cases h
  | succ n ih =>
    intro hok
    obtain ⟨source, hsource, rfl⟩ := List.mem_map.1 hg
    have hy : y ∈ st.store.groups.ids := by
      rcases Relation.ReflTransGen.cases_head hup with rfl | ⟨z, hyz, -⟩
      · exact hg
      · exact (Table.parentOf_mem hyz).1
    have hnew : r.uuid st.drawn ∉ st.store.groups.ids := hunused _ le_rfl
    obtain ⟨st₁, hst₁, -, -, hadds⟩ := exec_addNewGroup (draftOf source (some y)) rfl hnew
      fun q hq => Option.some.inj hq ▸ hy
    have hext := addNewGroup_extends (r := r) (draftOf source (some y)) rfl st
    rw [hst₁] at hext
    -- the new group lies in the source, and so in one of its children
    have hparent : st₁.store.groups.parentOf (r.uuid st.drawn) = some y := by
      have hrow : rowOf (r.uuid st.drawn) (draftOf source (some y)) ∈ st₁.store.groups.rows := by
        rw [hadds.groups]
        exact List.mem_append_right _ (List.mem_singleton_self _)
      exact Table.parentOf_of_mem hrow
    have hdown : Under st₁.store.groups.parentOf (r.uuid st.drawn) source.id := .head hparent (hext.under hup)
    rcases Relation.ReflTransGen.cases_tail hdown with hsame | ⟨c, hc, hcs⟩
    · exact hnew (hsame ▸ hg)
    obtain ⟨child, hchild, rfl⟩ := List.mem_map.1 (Table.mem_childrenOf.2 hcs)
    rw [cloneGroupRecursive, exec_get_bind, Table.groupById_of_mem hsource] at hok
    dsimp only at hok
    rw [exec_bind_ok hst₁, exec_get_bind] at hok
    obtain ⟨u, st₂, hforM, -⟩ := exec_bind_eq_ok hok
    obtain ⟨st₃, st₄, hext₃, hexec⟩ := exists_exec_of_forM (fun child : Group => cloneGroup_extends n child.id _) hforM
      ((r.sorted_perm _).mem_iff.2 hchild)
    exact ih (hext₃.unused (hext.unused hunused)) (hext₃.ids (Table.parentOf_mem hcs).1) (hext₃.under hc) hexec

end Diverge

/-! ## All entries -/

section Entries
variable {r : Runtime} {s : Store} {entries : List SelectionEntry} {target : Option GroupId} {st : Session} {a : Added}
  {e : SelectionEntry} {n : Nat}

theorem Drawn.new (h : Drawn r 0 n a) (hfresh : Fresh r s entries) : New s a := by
  have hnodup : ((idsBetween r 0 n).map (·.text)).Nodup := idsBetween_nodup.map text_injective
  have hids : ∀ {x : String}, x ∈ (idsBetween r 0 n).map (·.text) → ∃ k, (r.uuid k).text = x := by
    intro x hx
    obtain ⟨y, hy, rfl⟩ := List.mem_map.1 hx
    obtain ⟨k, -, -, rfl⟩ := mem_idsBetween.1 hy
    exact ⟨k, rfl⟩
  refine ⟨⟨h.items.nodup hnodup, fun x hx hmem => ?_⟩, ⟨h.keyValues.nodup hnodup, fun x hx hmem => ?_⟩,
    ⟨h.itemTags.nodup hnodup, fun x hx hmem => ?_⟩⟩
  · obtain ⟨k, hk⟩ := hids (h.items.subset (List.mem_map_of_mem hx))
    exact hfresh.items k (hk ▸ hmem)
  · obtain ⟨k, hk⟩ := hids (h.keyValues.subset (List.mem_map_of_mem hx))
    exact hfresh.keyValues k (hk ▸ hmem)
  · obtain ⟨k, hk⟩ := hids (h.itemTags.subset (List.mem_map_of_mem hx))
    exact hfresh.itemTags k (hk ▸ hmem)

namespace Grown

theorem cloneAbsent (h : Grown r s target st a) (hfresh : Fresh r s entries) (he : e ∈ entries) (hnot : ¬s.Has e)
    (hn : n ≠ 0) : exec (cloneEntry r n target e) st = (.ok (), st) := by
  cases e with
  | item i =>
    have hnone : st.store.items.find? (·.id = i) = none := by
      rw [(h.reads fun k hk => (hfresh.listed k).2 (hk ▸ he)).1]
      exact List.find?_eq_none.2 fun x hx hid => hnot (List.mem_map.2 ⟨x, hx, of_decide_eq_true hid⟩)
    rw [cloneEntry, Groups.cloneItem, exec_get_bind, hnone]
    rfl
  | group g =>
    have hnone : st.store.groups.groupById g = none := by
      refine List.find?_eq_none.2 fun x hx hid => ?_
      have hmem : g ∈ st.store.groups.ids := List.mem_map.2 ⟨x, hx, of_decide_eq_true hid⟩
      rw [Table.ids, h.adds.groups, List.map_append, List.mem_append] at hmem
      rcases hmem with hmem | hmem
      · exact hnot hmem
      · obtain ⟨k, -, -, rfl⟩ := mem_idsBetween.1 (h.drawn.groups.subset hmem)
        exact (hfresh.listed k).1 he
    obtain ⟨m, rfl⟩ := Nat.exists_eq_succ_of_ne_zero hn
    rw [cloneEntry, cloneGroupRecursive, exec_get_bind, hnone]
    rfl

theorem cloneEntry (hfresh : Fresh r s entries) (hforest : s.groups.Forest) (hloaded : s.Loaded) (h : Grown r s target st a)
    (htarget : ∀ t ∈ target, t ∈ s.groups.ids) (he : e ∈ entries)
    (hout : ∀ t ∈ target, ∀ g, e = .group g → ¬Under s.groups.parentOf t g) :
    ∃ st' b, exec (Groups.cloneEntry r (s.groups.rows.length + 1) target e) st = (.ok (), st') ∧ EntryCopy s target e b ∧
      Grown r s target st' (a ++ b) := by
  by_cases hhas : s.Has e
  · have hmem : ∀ t ∈ target, t ∈ st.store.groups.ids := fun t ht => h.mem_ids (htarget t ht)
    cases e with
    | item i =>
      obtain ⟨st', b, hst', hcopy, hgrown, -⟩ :=
        h.cloneItem (fun k hk => (hfresh.listed k).2 (hk ▸ he)) hhas (.inl rfl) hmem
      exact ⟨st', b, hst', .item hcopy, hgrown⟩
    | group g =>
      obtain ⟨st', b, hst', hcopy, hgrown, -⟩ := h.cloneGroup hfresh hforest hloaded hhas (fun t ht => hout t ht g rfl) (.inl rfl)
        hmem ((s.groups.reach_le g).trans (Nat.le_succ _))
      exact ⟨st', b, hst', .group hcopy, hgrown⟩
  · exact ⟨st, {}, h.cloneAbsent hfresh he hhas (Nat.succ_ne_zero _), .absent hhas, by rwa [Added.append_empty]⟩

end Grown

end Entries

/-- With new ids, in a forest with a place for the copies, all calls return and have added a copy of each entry as it was
before, exactly if the place is not in a folder that is listed. -/
theorem bulkClone_copies_iff (r : Runtime) (s : Store) (entries : List SelectionEntry) (target : Option GroupId)
    (hfresh : Fresh r s entries) (hforest : s.groups.Forest) (hloaded : s.Loaded) (htarget : ∀ t ∈ target, t ∈ s.groups.ids) :
    (∃ n st, exec (bulkClone r n entries target) ⟨s, 0⟩ = (.ok (), st) ∧ Clones s entries target st.store) ↔
      ∀ t ∈ target, ∀ g, .group g ∈ entries → ¬Under s.groups.parentOf t g := by
  constructor
  · rintro ⟨n, st, hok, -⟩ t rfl g hg hup
    obtain ⟨u, st₁, hforM, -⟩ := exec_bind_eq_ok hok
    have hkeeps : ∀ e, Keeps (Extends r) (cloneEntry r n (some t) e) := fun e => by
      cases e with
      | item i => exact cloneItem_extends i _
      | group g => exact cloneGroup_extends n g _
    obtain ⟨st₂, st₃, hext, hexec⟩ := exists_exec_of_forM hkeeps hforM hg
    have hmem : g ∈ s.groups.ids := by
      rcases Table.mem_of_under hup with rfl | hmem
      · exact htarget _ rfl
      · exact hmem
    exact cloneGroup_endless (hext.unused fun k _ => hfresh.groups k) (hext.ids hmem) (hext.under hup) hexec
  · intro hout
    obtain ⟨st, a, hst, hcopies, h⟩ := forM_each (I := fun st a => Grown r s target st a) (fun e he st a hI =>
      hI.cloneEntry hfresh hforest hloaded htarget he fun t ht g hg => hout t ht g (hg ▸ he)) (.start hloaded)
    rw [Added.empty_append] at h
    refine ⟨_, _, exec_bind_ok hst, a, hcopies, ?_, h.drawn.new hfresh⟩
    exact ⟨h.adds.groups, h.adds.items, h.adds.keyValues, h.adds.itemTags, h.adds.groupItems⟩

/-! ## Folders -/

def boxId : GroupId := ⟨"box", by decide⟩

def drawer : GroupId := ⟨"drawer", by decide⟩

def attic : GroupId := ⟨"attic", by decide⟩

/-- A folder with an item and a subfolder, which has an item too, and another folder. -/
def box : Store where
  groups :=
    { rows := [⟨boxId, some "Box", none, none, none, some 1, none⟩, ⟨drawer, some "Drawer", none, none, none, none, some boxId⟩,
        ⟨attic, some "Attic", none, none, none, none, none⟩]
      ids_nodup := by decide
      parents := by decide }
  items := [⟨"login", {}, none, none⟩, ⟨"card", {}, none, none⟩]
  keyValues := [⟨"pin", "login", some "PIN", some "1234"⟩]
  itemTags := [⟨"link", "login", "private"⟩]
  groupItems := [⟨"login", some boxId⟩, ⟨"card", some drawer⟩]
  itemGroupMap := [("login", some boxId), ("card", some drawer)]

def counting : Runtime where
  uuid k := ⟨String.ofList ('u' :: List.replicate k '0'), by simp⟩
  uuid_injective := by
    intro k l h
    have hlists := String.ofList_injective (congrArg GroupId.text h)
    simpa using congrArg List.length hlists
  now _ := "2026-01-01T00:00:00.000Z"
  sorted l := l
  sorted_perm l := .refl l

theorem counting_head (k : Nat) : (counting.uuid k).text.toList.head? = some 'u' := by simp [counting]

theorem box_fresh : Fresh counting box [.group boxId] := by
  have hids : ∀ g ∈ box.groups.ids, g.text.toList.head? ≠ some 'u' := by decide
  have hitems : ∀ x ∈ box.items.map (·.id), x.toList.head? ≠ some 'u' := by decide
  have hkvs : ∀ x ∈ box.keyValues.map (·.id), x.toList.head? ≠ some 'u' := by decide
  have htags : ∀ x ∈ box.itemTags.map (·.id), x.toList.head? ≠ some 'u' := by decide
  refine ⟨fun k h => hids _ h (counting_head k), fun k h => hitems _ h (counting_head k), fun k h => hkvs _ h (counting_head k),
    fun k h => htags _ h (counting_head k), fun k => ⟨fun h => ?_, by simp⟩⟩
  have hsame : counting.uuid k = boxId := by simpa using h
  exact hids boxId (by decide) (hsame ▸ counting_head k)

theorem box_parentOf (g : GroupId) : box.groups.parentOf g = if g = drawer then some boxId else none := by
  have hparents : ∀ x ∈ box.groups.rows, x.parentId = if x.id = drawer then some boxId else none := by decide
  refine Table.parentOf_eq (fun x hx hid => hid ▸ hparents x hx) fun hout => if_neg ?_
  rintro rfl
  exact hout (by decide)

theorem box_forest : box.groups.Forest := by
  refine fun g => ends_iff.2 fun p hp => .of_none ?_
  rw [box_parentOf] at hp ⊢
  split at hp
  · obtain rfl := Option.some.inj hp
    decide
  · cases hp

theorem box_loaded : box.Loaded where
  map := rfl
  nodup := by decide
  items := by decide
  groups := by decide

/-- The folder is cloned with its subfolder into the other one. -/
theorem bulkClone_copies_box : ∃ n st, exec (bulkClone counting n [.group boxId] (some attic)) ⟨box, 0⟩ = (.ok (), st) ∧
    Clones box [.group boxId] (some attic) st.store := by
  refine (bulkClone_copies_iff counting box [.group boxId] (some attic) box_fresh box_forest box_loaded
    fun t ht => ?_).2 fun t ht g hg hup => ?_
  · obtain rfl := Option.some.inj ht
    decide
  · obtain rfl := Option.some.inj ht
    obtain rfl : g = boxId := by simpa using hg
    exact absurd ((under_of_none ((box_parentOf attic).trans (by decide))).1 hup) (by decide)

/-- A folder that is pasted into itself is cloned without end. -/
theorem bulkClone_into_itself_endless :
    ¬∃ n st, exec (bulkClone counting n [.group boxId] (some boxId)) ⟨box, 0⟩ = (.ok (), st) := by
  rintro ⟨n, st, hok⟩
  obtain ⟨u, st₁, hforM, -⟩ := exec_bind_eq_ok hok
  obtain ⟨u, st₂, hclone, -⟩ := exec_bind_eq_ok hforM
  exact cloneGroup_endless (fun k _ => box_fresh.groups k) (by decide) .refl hclone

end HaexVault.Passwords.Groups
