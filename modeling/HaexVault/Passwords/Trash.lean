import HaexVault.Passwords.FolderWalks
/-!
# The trash (`bulkDeleteAsync`, `emptyTrashAsync`)

What is deleted outside the trash goes there, and what is in it is deleted for good. Each
entry of a selection is judged by the state that the entries before it have left, and a group
that is deleted takes the groups under it with it, but only the links of the items in them.
`Moved` and `Purged` are what one entry does.
-/

namespace HaexVault.Passwords.Groups

open Lib Lib.Fallible Lib.Forest

/-! ## The operations -/

def mapGet (map : List (String × Option GroupId)) (itemId : String) : Option GroupId :=
  (map.find? (·.1 = itemId)).bind (·.2)

def deleteItemRows (doomed : List String) : Db Unit :=
  modify fun s => { s with
    items := s.items.filter (·.id ∉ doomed)
    keyValues := s.keyValues.filter (·.itemId ∉ doomed)
    itemTags := s.itemTags.filter (·.itemId ∉ doomed)
    groupItems := s.groupItems.filter (·.itemId ∉ doomed) }

def trashItem (itemId : String) : Db Unit := do
  ensureTrash
  setItemGroup itemId (some trashGroupId)

/-- `deleteItemAsync`. -/
def deleteItem (itemId : String) : Db Unit := do
  let s ← get
  match mapGet s.itemGroupMap itemId with
  | none => trashItem itemId
  | some currentGroupId => match s.groups.isGroupInTrash currentGroupId with
    | none => throw .endless
    | some true => deleteItemRows [itemId]
    | some false => trashItem itemId

def deleteEntry : SelectionEntry → Db Unit
  | .item id => deleteItem id
  | .group id => deleteGroup id

/-- `bulkDeleteAsync`. -/
def bulkDelete (entries : List SelectionEntry) : Db Unit := do
  entries.forM deleteEntry
  loadGroups

/-- The deletes of `emptyTrashAsync`, made where there is anything to delete. -/
def purgeItems (itemIds : List String) : Db Unit := if itemIds = [] then pure () else deleteItemRows itemIds

def purgeGroups (groupIds : List GroupId) : Db Unit := if groupIds = [] then pure () else deleteGroupRows groupIds

/-- `emptyTrashAsync`. -/
def emptyTrash : Db Unit := do
  let s ← get
  let trashDescendants := s.groups.descendantIdSet trashGroupId
  let itemIds := (s.itemGroupMap.filter fun e => e.2.any (· ∈ trashDescendants)).map (·.1)
  purgeItems itemIds
  let groupIds := trashDescendants.filter (· ≠ trashGroupId)
  purgeGroups groupIds
  loadGroups
  reselect (some trashGroupId)

/-! ## What is promised -/

namespace Store
variable (s : Store)

def groupOf (itemId : String) : Option GroupId := (s.groupItems.find? (·.itemId = itemId)).bind (·.groupId)

def place : SelectionEntry → Option GroupId
  | .item id => s.groupOf id
  | .group id => s.groups.parentOf id

def Has : SelectionEntry → Prop
  | .item id => id ∈ s.items.map (·.id)
  | .group id => id ∈ s.groups.ids

instance : DecidablePred s.Has
  | .item id => inferInstanceAs (Decidable (id ∈ s.items.map (·.id)))
  | .group id => inferInstanceAs (Decidable (id ∈ s.groups.ids))

def Beneath (e : SelectionEntry) (g : GroupId) : Prop := ∃ h, s.place e = some h ∧ Under s.groups.parentOf h g

def InTrash (e : SelectionEntry) : Prop := s.Beneath e trashGroupId

def Doomed (entries : List SelectionEntry) (e : SelectionEntry) : Prop :=
  ∃ l ∈ entries, s.InTrash l ∧ (e = l ∨ ∃ g, l = .group g ∧ s.Beneath e g)

def Moves (e : SelectionEntry) : Prop := e ≠ .group trashGroupId ∧ ¬s.InTrash e

/-- All that is there in the end: what was there and is not deleted for good, and the trash where something went there. -/
def Survives (entries : List SelectionEntry) (e : SelectionEntry) : Prop :=
  s.Has e ∧ ¬s.Doomed entries e ∨ e = .group trashGroupId ∧ ∃ l ∈ entries, s.Moves l

structure Loaded : Prop where
  map : s.itemGroupMap = s.groupItems.map fun l => (l.itemId, l.groupId)
  nodup : (s.groupItems.map (·.itemId)).Nodup
  items : ∀ l ∈ s.groupItems, l.itemId ∈ s.items.map (·.id)
  groups : ∀ l ∈ s.groupItems, ∀ g ∈ l.groupId, g ∈ s.groups.ids

/-- Deleted for good is what was doomed, and the other entries of the list are moved to the trash. -/
structure Trashes (entries : List SelectionEntry) (s' : Store) : Prop where
  has : ∀ e, s'.Has e ↔ s.Survives entries e
  moved : ∀ e ∈ entries, s.Moves e → s'.Has e ∧ s'.place e = some trashGroupId

/-- What the entries must be: they are there, and no item lies beneath a listed group that is in the trash. Beneath another
listed group lies no listed entry that moves, none of these is listed twice, and no item is where groups are listed. -/
structure Separate (entries : List SelectionEntry) : Prop where
  there : ∀ e ∈ entries, s.Moves e → s.Has e
  emptied : ∀ g i, .group g ∈ entries → s.InTrash (.group g) → ¬s.Beneath (.item i) g
  apart : ∀ g e, .group g ∈ entries → s.Moves (.group g) → e ∈ entries → s.Moves e → ¬s.Beneath e g
  once : ∀ e, s.Moves e → entries.count e ≤ 1
  items_once : ∀ g i, .group g ∈ entries → g ≠ trashGroupId → entries.count (.item i) ≤ 1

end Store

/-! ## Tables after a statement -/

namespace Table
variable {t t' : Table} {id : GroupId}

theorem mem_ids_delete {doomed : List GroupId} : id ∈ (t.delete doomed).ids ↔
    id ∈ t.ids ∧ ∀ d ∈ doomed, ¬Under t.parentOf id d := by
  constructor
  · intro h
    obtain ⟨g, hg, rfl⟩ := List.mem_map.1 h
    obtain ⟨hg, hspared⟩ := List.mem_filter.1 hg
    refine ⟨List.mem_map_of_mem hg, fun d hd hup => ?_⟩
    exact of_decide_eq_true (List.all_eq_true.1 hspared d hd) (climb_iff.2 hup)
  · rintro ⟨h, hfree⟩
    obtain ⟨g, hg, rfl⟩ := List.mem_map.1 h
    refine List.mem_map_of_mem (List.mem_filter.2 ⟨hg, List.all_eq_true.2 fun d hd => decide_eq_true fun hclimb => ?_⟩)
    exact hfree d hd (climb_iff.1 hclimb)

theorem parentOf_delete_of_mem {doomed : List GroupId} (h : id ∈ (t.delete doomed).ids) :
    (t.delete doomed).parentOf id = t.parentOf id := by
  obtain ⟨g, hg, rfl⟩ := List.mem_map.1 h
  rw [parentOf_of_mem hg, parentOf_of_mem (List.mem_filter.1 hg).1]

theorem ids_update {f : Group → Group} {parentId : Option GroupId} (h : t.update id f parentId = .ok t') : t'.ids = t.ids := by
  simp only [update] at h
  split at h
  · cases h
    exact update.map_ids ..
  · cases h

theorem exists_update (t : Table) (id : GroupId) {parent : GroupId} (h : parent ∈ t.ids) :
    ∃ t', t.update id (fun g => g) (some parent) = .ok t' := by
  rw [update, dif_pos fun _ p hp => Option.some.inj hp ▸ h]
  exact ⟨_, rfl⟩

end Table

/-! ## Links and the map -/

section Links
variable {s : Store} {i j : String} {target : Option GroupId}

theorem mapGet_load : mapGet (s.groupItems.map fun l => (l.itemId, l.groupId)) i = s.groupOf i := by
  rw [mapGet, Store.groupOf, List.find?_map, Option.bind_map]
  rfl

theorem mapGet_mapSet_self (map : List (String × Option GroupId)) : mapGet (mapSet map i target) i = target := by
  unfold mapSet mapGet
  split
  · rename_i hmem
    induction map with
    | nil => cases hmem
    | cons e map ih =>
      by_cases he : e.1 = i
      · simp [he]
      · have hrest : i ∈ map.map (·.1) := (List.mem_cons.1 hmem).resolve_left (Ne.symm he)
        simpa [he] using ih hrest
  · rename_i hnew
    have hnone : map.find? (·.1 = i) = none := by
      refine List.find?_eq_none.2 fun e he hi => hnew (List.mem_map.2 ⟨e, he, ?_⟩)
      simpa using hi
    simp [List.find?_append, hnone]

theorem mapGet_mapSet_of_ne (map : List (String × Option GroupId)) (h : j ≠ i) :
    mapGet (mapSet map i target) j = mapGet map j := by
  unfold mapSet mapGet
  split
  · rw [List.find?_map]
    have hsame : ∀ e : String × Option GroupId, ((if e.1 = i then (i, target) else e).1 = j) ↔ e.1 = j := fun e => by
      split
      · rename_i he
        simp [he]
      · rfl
    simp only [Function.comp_def, hsame]
    cases hfind : map.find? (·.1 = j) with
    | none => rfl
    | some e =>
      have hj : e.1 = j := by simpa using List.find?_some hfind
      have hi : e.1 ≠ i := fun hi => h (hj.symm.trans hi)
      simp [hi]
  · simp [List.find?_append, Ne.symm h]

theorem groupOf_congr {s' : Store} (h : s'.groupItems = s.groupItems) : s'.groupOf = s.groupOf := by
  funext i
  rw [Store.groupOf, h, Store.groupOf]

theorem groupOf_filter {s' : Store} {doomed : List String} (h : s'.groupItems = s.groupItems.filter (·.itemId ∉ doomed))
    (hi : i ∉ doomed) : s'.groupOf i = s.groupOf i := by
  rw [Store.groupOf, h, List.find?_filter, Store.groupOf]
  congr 2
  funext l
  by_cases hl : l.itemId = i <;> simp [hl, hi]

theorem groupOf_filter_of_mem {s' : Store} {doomed : List String} (h : s'.groupItems = s.groupItems.filter (·.itemId ∉ doomed))
    (hi : i ∈ doomed) : s'.groupOf i = none := by
  have hnone : s'.groupItems.find? (·.itemId = i) = none := by
    refine List.find?_eq_none.2 fun l hl hid => ?_
    rw [h] at hl
    obtain rfl : l.itemId = i := of_decide_eq_true hid
    exact of_decide_eq_true (List.mem_filter.1 hl).2 hi
  rw [Store.groupOf, hnone]
  rfl

theorem groupOf_eq_some_iff {g : GroupId} (h : (s.groupItems.map (·.itemId)).Nodup) :
    s.groupOf i = some g ↔ ⟨i, some g⟩ ∈ s.groupItems := by
  rw [Store.groupOf, Option.bind_eq_some_iff]
  constructor
  · rintro ⟨⟨j, p⟩, hfind, rfl⟩
    obtain rfl : j = i := by simpa using List.find?_some hfind
    exact List.mem_of_find?_eq_some hfind
  · intro hmem
    cases hfind : s.groupItems.find? (·.itemId = i) with
    | none => exact absurd (decide_eq_true rfl) (List.find?_eq_none.1 hfind _ hmem)
    | some l =>
      have hid : l.itemId = i := by simpa using List.find?_some hfind
      obtain rfl : l = ⟨i, some g⟩ := List.inj_on_of_nodup_map h (List.mem_of_find?_eq_some hfind) hmem hid
      exact ⟨_, rfl, rfl⟩

theorem groupOf_filter_groups {s' : Store} {ids : List GroupId} (hnodup : (s.groupItems.map (·.itemId)).Nodup)
    (h : s'.groupItems = s.groupItems.filter fun l => l.groupId.all (· ∈ ids)) :
    s'.groupOf i = (s.groupOf i).filter (· ∈ ids) := by
  have hnodup' : (s'.groupItems.map (·.itemId)).Nodup := by
    rw [h]
    exact (List.filter_sublist.map _).nodup hnodup
  ext g
  rw [Option.filter_eq_some_iff, groupOf_eq_some_iff hnodup', groupOf_eq_some_iff hnodup, h, List.mem_filter]
  rfl

end Links

/-! ## One entry -/

/-- No link is there twice, each leads to a group, and the map is right for the items that are there. -/
structure Live (s : Store) : Prop where
  nodup : (s.groupItems.map (·.itemId)).Nodup
  groups : ∀ i g, s.groupOf i = some g → g ∈ s.groups.ids
  map : ∀ i, s.Has (.item i) → mapGet s.itemGroupMap i = s.groupOf i

def Purges (s : Store) (e : SelectionEntry) : SelectionEntry → Prop
  | .item i => e = .item i
  | .group h => ∃ g, e = .group g ∧ Under s.groups.parentOf h g

/-- The entry has gone to the trash. -/
structure Moved (s : Store) (e : SelectionEntry) (s' : Store) : Prop where
  has : ∀ x, s'.Has x ↔ s.Has x ∨ x = .group trashGroupId
  self : s'.place e = some trashGroupId
  others : ∀ x, x ≠ e → s'.place x = s.place x
  live : Live s'
  map : ∀ i, e = .item i → trashGroupId ∈ s.groups.ids → ∀ j, j ≠ i → mapGet s'.itemGroupMap j = mapGet s.itemGroupMap j

/-- The entry has been deleted for good. -/
structure Purged (s : Store) (e : SelectionEntry) (s' : Store) : Prop where
  has : ∀ x, s'.Has x ↔ s.Has x ∧ ¬Purges s e x
  place : ∀ x, s'.Has x → (∀ g h, e = .group g → s.place x = some h → ¬Under s.groups.parentOf h g) → s'.place x = s.place x
  emptied : ∀ x g h, e = .group g → s.place x = some h → Under s.groups.parentOf h g → s'.place x = none
  live : Live s'
  map : ∀ i, e = .item i → s'.itemGroupMap = s.itemGroupMap
  links : ∀ i, e = .item i → i ∉ s'.groupItems.map (·.itemId)

section Entry
variable {s s' : Store} {e : SelectionEntry} {i : String} {g : GroupId}

/-- What `ensureTrashAsync` leaves. -/
structure Anchored (s s' : Store) : Prop where
  parents : s'.groups.parentOf = s.groups.parentOf
  ids : ∀ g, g ∈ s'.groups.ids ↔ g ∈ s.groups.ids ∨ g = trashGroupId
  items : s'.items = s.items
  links : s'.groupItems = s.groupItems
  map : trashGroupId ∈ s.groups.ids → s' = s
  live : Live s → Live s'

theorem live_load (h : (s.groupItems.map (·.itemId)).Nodup) (hgroups : ∀ i g, s.groupOf i = some g → g ∈ s.groups.ids)
    (hmap : s.itemGroupMap = s.groupItems.map fun l => (l.itemId, l.groupId)) : Live s where
  nodup := h
  groups := hgroups
  map i _ := by rw [hmap, mapGet_load]

theorem exec_ensureTrash (s : Store) : ∃ s', exec ensureTrash s = (.ok (), s') ∧ Anchored s s' := by
  rw [ensureTrash, exec_get_bind]
  split
  · rename_i hthere
    refine ⟨s, rfl, rfl, fun g => ⟨.inl, ?_⟩, rfl, rfl, fun _ => rfl, id⟩
    rintro (hg | rfl)
    · exact hg
    · exact hthere
  · rename_i hnew
    obtain ⟨t, ht, hrows⟩ := Table.exists_insert (g := trashRow) hnew fun p hp => by cases hp
    have hparents : t.parentOf = s.groups.parentOf := by
      rw [Table.parentOf_insert hnew ht]
      exact Function.update_eq_self_iff.2 (Table.parentOf_of_not_mem hnew).symm
    have hids : ∀ g, g ∈ t.ids ↔ g ∈ s.groups.ids ∨ g = trashGroupId := fun g => by
      rw [Table.ids, hrows, List.map_append, List.mem_append, List.map_singleton, List.mem_singleton]
      rfl
    have hexec : exec (onGroups (·.insert trashRow)) s = (.ok (), { s with groups := t }) := by
      rw [onGroups, exec_get_bind]
      simp only [ht]
      rfl
    refine ⟨_, exec_bind_ok hexec, hparents, hids, rfl, rfl, fun hmem => absurd hmem hnew, fun hlive => ?_⟩
    refine live_load hlive.nodup (fun i g hg => ?_) rfl
    exact (hids g).2 (.inl (hlive.groups i g hg))

theorem exec_linkItem (target : Option GroupId) (htarget : target.all (· ∈ s.groups.ids)) (hi : i ∈ s.items.map (·.id)) :
    ∃ links : List GroupItem, exec (linkItem i target) s = (.ok (), { s with groupItems := links }) ∧
      (links.map fun l => (l.itemId, l.groupId)) = mapSet (s.groupItems.map fun l => (l.itemId, l.groupId)) i target := by
  have hkeys : (s.groupItems.map fun l => (l.itemId, l.groupId)).map (·.1) = s.groupItems.map (·.itemId) := by
    rw [List.map_map]
    rfl
  rw [linkItem, exec_get_bind, if_neg (not_not.2 htarget), mapSet, hkeys]
  by_cases hlink : i ∈ s.groupItems.map (·.itemId)
  · have hany : s.groupItems.any (·.itemId = i) = true := by
      obtain ⟨l, hl, hid⟩ := List.mem_map.1 hlink
      exact List.any_eq_true.2 ⟨l, hl, decide_eq_true hid⟩
    rw [if_pos hany, if_pos hlink]
    refine ⟨_, rfl, ?_⟩
    rw [List.map_map, List.map_map]
    refine List.map_congr_left fun l _ => ?_
    simp only [Function.comp]
    split <;> rfl
  · have hany : ¬s.groupItems.any (·.itemId = i) = true := by
      intro hany
      obtain ⟨l, hl, hid⟩ := List.any_eq_true.1 hany
      exact hlink (List.mem_map.2 ⟨l, hl, of_decide_eq_true hid⟩)
    rw [if_neg hany, if_pos hi, if_neg hlink]
    exact ⟨_, rfl, by rw [List.map_append]; rfl⟩

theorem nodup_mapSet {map : List (String × Option GroupId)} {target : Option GroupId} (h : (map.map (·.1)).Nodup) :
    ((mapSet map i target).map (·.1)).Nodup := by
  unfold mapSet
  split
  · have hsame : (map.map fun e => if e.1 = i then (i, target) else e).map (·.1) = map.map (·.1) := by
      rw [List.map_map]
      refine List.map_congr_left fun e _ => ?_
      simp only [Function.comp]
      split
      · rename_i he
        exact he.symm
      · rfl
    rwa [hsame]
  · rename_i hnew
    rw [List.map_append]
    refine List.nodup_append.2 ⟨h, List.nodup_singleton _, fun a ha b hb hab => hnew ?_⟩
    obtain rfl := List.mem_singleton.1 hb
    exact hab ▸ ha

theorem exec_trashItem (hlive : Live s) (hi : s.Has (.item i)) :
    ∃ s', exec (trashItem i) s = (.ok (), s') ∧ Moved s (.item i) s' := by
  obtain ⟨s₁, hs₁, h⟩ := exec_ensureTrash s
  have htrash : trashGroupId ∈ s₁.groups.ids := (h.ids _).2 (.inr rfl)
  have hi₁ : i ∈ s₁.items.map (·.id) := by
    rw [h.items]
    exact hi
  obtain ⟨links, hlink, hset⟩ := exec_linkItem (s := s₁) (i := i) (some trashGroupId) (decide_eq_true htrash) hi₁
  have hof : ∀ j, Store.groupOf { s₁ with groupItems := links, itemGroupMap := mapSet s₁.itemGroupMap i (some trashGroupId) } j =
      mapGet (mapSet (s.groupItems.map fun l => (l.itemId, l.groupId)) i (some trashGroupId)) j := fun j => by
    rw [← h.links, ← hset]
    exact mapGet_load.symm
  refine ⟨{ s₁ with groupItems := links, itemGroupMap := mapSet s₁.itemGroupMap i (some trashGroupId) }, ?_, fun x => ?_, ?_,
    fun x hx => ?_, ?_, ?_⟩
  · rw [trashItem, exec_bind_ok hs₁, setItemGroup, exec_bind_ok hlink]
    rfl
  · cases x with
    | item j =>
      rw [or_iff_left (by simp)]
      change j ∈ s₁.items.map (·.id) ↔ j ∈ s.items.map (·.id)
      rw [h.items]
    | group g =>
      rw [SelectionEntry.group.injEq]
      exact h.ids g
  · exact (hof i).trans (mapGet_mapSet_self _)
  · cases x with
    | item j =>
      have hj : j ≠ i := fun hj => hx (congrArg _ hj)
      exact (hof j).trans ((mapGet_mapSet_of_ne _ hj).trans mapGet_load)
    | group g => exact congrFun h.parents g
  · have hnodup : (s.groupItems.map fun l => (l.itemId, l.groupId)).map (·.1) = s.groupItems.map (·.itemId) := by
      rw [List.map_map]
      rfl
    refine ⟨?_, fun j g hg => ?_, fun j hj => ?_⟩
    · have hkeys : links.map (·.itemId) = (links.map fun l => (l.itemId, l.groupId)).map (·.1) := by
        rw [List.map_map]
        rfl
      change (links.map (·.itemId)).Nodup
      rw [hkeys, hset, h.links]
      refine nodup_mapSet ?_
      rw [hnodup]
      exact hlive.nodup
    · rw [hof j] at hg
      by_cases hji : j = i
      · subst hji
        rw [mapGet_mapSet_self] at hg
        exact Option.some.inj hg ▸ htrash
      · rw [mapGet_mapSet_of_ne _ hji, mapGet_load] at hg
        exact (h.ids g).2 (.inl (hlive.groups j g hg))
    · rw [hof j]
      by_cases hji : j = i
      · subst hji
        rw [mapGet_mapSet_self, mapGet_mapSet_self]
      · rw [mapGet_mapSet_of_ne _ hji, mapGet_mapSet_of_ne _ hji, mapGet_load]
        have hlive₁ := (h.live hlive).map j hj
        rw [hlive₁, Store.groupOf, h.links]
        rfl
  · intro j hj hmem k hk
    obtain rfl := SelectionEntry.item.inj hj
    rw [h.map hmem]
    exact mapGet_mapSet_of_ne _ hk

theorem isGroupInTrash_eq_false (hends : Ends (cut s.groups.parentOf trashGroupId) g)
    (h : ¬Under s.groups.parentOf g trashGroupId) : s.groups.isGroupInTrash g = some false := by
  obtain ⟨r, hr⟩ := Table.exists_isGroupInTrash_iff.2 hends
  cases r with
  | false => exact hr
  | true => exact absurd (Table.climb_iff.1 hr) h

theorem isGroupInTrash_eq_true (h : Under s.groups.parentOf g trashGroupId) : s.groups.isGroupInTrash g = some true :=
  Table.climb_iff.2 h

theorem deleteItem_purged (hlive : Live s) (hmap : mapGet s.itemGroupMap i = some g)
    (hg : Under s.groups.parentOf g trashGroupId) : ∃ s', exec (deleteItem i) s = (.ok (), s') ∧ Purged s (.item i) s' := by
  refine ⟨{ s with
    items := s.items.filter (·.id ∉ [i])
    keyValues := s.keyValues.filter (·.itemId ∉ [i])
    itemTags := s.itemTags.filter (·.itemId ∉ [i])
    groupItems := s.groupItems.filter (·.itemId ∉ [i]) }, ?_, fun x => ?_, fun x hx _ => ?_,
    fun x g h he => (by cases he), ?_, fun _ _ => rfl, fun j hj hmem => ?_⟩
  · rw [deleteItem, exec_get_bind]
    simp only [hmap, isGroupInTrash_eq_true hg]
    rfl
  · cases x with
    | item j =>
      change j ∈ (s.items.filter (·.id ∉ [i])).map (·.id) ↔ j ∈ s.items.map (·.id) ∧ ¬SelectionEntry.item i = .item j
      simp only [List.mem_map, List.mem_filter, SelectionEntry.item.injEq]
      constructor
      · rintro ⟨r, ⟨hr, hkept⟩, rfl⟩
        exact ⟨⟨r, hr, rfl⟩, fun hsame => by simp [hsame] at hkept⟩
      · rintro ⟨⟨r, hr, rfl⟩, hne⟩
        exact ⟨r, ⟨hr, by simpa using Ne.symm hne⟩, rfl⟩
    | group h => exact (and_iff_left fun ⟨g, he, _⟩ => by cases he).symm
  · cases x with
    | item j =>
      have hj : j ≠ i := by
        rintro rfl
        obtain ⟨r, hr, hid⟩ := List.mem_map.1 hx
        exact of_decide_eq_true (List.mem_filter.1 hr).2 (List.mem_singleton.2 hid)
      exact groupOf_filter rfl (by simpa using hj)
    | group h => rfl
  · refine ⟨(List.filter_sublist.map _).nodup hlive.nodup, fun j h hj => ?_, fun j hj => ?_⟩
    · by_cases hji : j ∈ [i]
      · rw [groupOf_filter_of_mem rfl hji] at hj
        cases hj
      · rw [groupOf_filter rfl hji] at hj
        exact hlive.groups j h hj
    · obtain ⟨r, hr, rfl⟩ := List.mem_map.1 hj
      obtain ⟨hr, hkept⟩ := List.mem_filter.1 hr
      exact (hlive.map r.id (List.mem_map_of_mem hr)).trans (groupOf_filter rfl (of_decide_eq_true hkept)).symm
  · obtain rfl := SelectionEntry.item.inj hj
    obtain ⟨l, hl, hid⟩ := List.mem_map.1 hmem
    exact of_decide_eq_true (List.mem_filter.1 hl).2 (List.mem_singleton.2 hid)

theorem deleteItem_moved (hlive : Live s) (hi : s.Has (.item i))
    (hends : ∀ g, Ends (cut s.groups.parentOf trashGroupId) g) (hmoves : s.Moves (.item i)) :
    ∃ s', exec (deleteItem i) s = (.ok (), s') ∧ Moved s (.item i) s' := by
  rw [deleteItem, exec_get_bind, hlive.map i hi]
  split
  · exact exec_trashItem hlive hi
  · rename_i g hg
    rw [isGroupInTrash_eq_false (hends g) fun hup => hmoves.2 ⟨g, hg, hup⟩]
    exact exec_trashItem hlive hi

theorem exec_deleteOrTrash {s₁ : Store} {t : Table} (hends : Ends (cut s.groups.parentOf trashGroupId) g)
    (hout : ¬Under s.groups.parentOf g trashGroupId) (h : exec ensureTrash s = (.ok (), s₁))
    (ht : s₁.groups.update g (fun g => g) (some trashGroupId) = .ok t) :
    exec (deleteOrTrash g) s = (.ok (), { s₁ with groups := t }) := by
  rw [deleteOrTrash, exec_get_bind, isGroupInTrash_eq_false hends hout]
  dsimp only
  rw [exec_bind_ok h, onGroups, exec_get_bind]
  simp only [ht]
  rfl

theorem exec_deleteGroup {s₁ : Store} (hg : g ≠ trashGroupId) (h : exec (deleteOrTrash g) s = (.ok (), s₁)) :
    ∃ s', exec (deleteGroup g) s = (.ok (), s') ∧ s'.groups = s₁.groups ∧ s'.items = s₁.items ∧
      s'.groupItems = s₁.groupItems ∧ s'.itemGroupMap = s₁.groupItems.map fun l => (l.itemId, l.groupId) := by
  rw [deleteGroup, if_neg hg, exec_bind_ok h]
  refine ⟨_, rfl, ?_⟩
  dsimp only
  split <;> exact ⟨rfl, rfl, rfl, rfl⟩

theorem has_congr {x : SelectionEntry} (hitems : s'.items = s.items) (hids : s'.groups.ids = s.groups.ids) :
    s'.Has x ↔ s.Has x := by
  cases x with
  | item i =>
    rw [Store.Has, hitems]
    rfl
  | group g =>
    rw [Store.Has, hids]
    rfl

theorem Anchored.has {x : SelectionEntry} (h : Anchored s s') : s'.Has x ↔ s.Has x ∨ x = .group trashGroupId := by
  cases x with
  | item i =>
    rw [or_iff_left (by simp), Store.Has, h.items]
    rfl
  | group g =>
    rw [SelectionEntry.group.injEq]
    exact h.ids g

theorem deleteGroup_moved (hlive : Live s) (hg : s.Has (.group g))
    (hends : Ends (cut s.groups.parentOf trashGroupId) g) (hmoves : s.Moves (.group g)) :
    ∃ s', exec (deleteGroup g) s = (.ok (), s') ∧ Moved s (.group g) s' := by
  have hne : g ≠ trashGroupId := fun hsame => hmoves.1 (congrArg _ hsame)
  have hout : ¬Under s.groups.parentOf g trashGroupId := by
    intro hup
    rcases Relation.ReflTransGen.cases_head hup with hsame | ⟨p, hp, hpt⟩
    · exact hne hsame
    · exact hmoves.2 ⟨p, hp, hpt⟩
  obtain ⟨s₁, hs₁, h⟩ := exec_ensureTrash s
  have htrash : trashGroupId ∈ s₁.groups.ids := (h.ids _).2 (.inr rfl)
  obtain ⟨t, ht⟩ := Table.exists_update s₁.groups g htrash
  have hparents : t.parentOf = Function.update s.groups.parentOf g (some trashGroupId) := by
    rw [Table.parentOf_update ((h.ids g).2 (.inl hg)) ht, h.parents]
  obtain ⟨s', hs', hgroups, hitems, hlinks, hmap⟩ := exec_deleteGroup hne (exec_deleteOrTrash hends hout hs₁ ht)
  have hof : s'.groupOf = s.groupOf := groupOf_congr (hlinks.trans h.links)
  refine ⟨s', hs', fun x => ?_, ?_, fun x hx => ?_, live_load ?_ (fun i p hp => ?_) ?_, fun i hi => (by cases hi)⟩
  · exact (has_congr (s := s₁) hitems (by rw [hgroups, Table.ids_update ht])).trans h.has
  · rw [Store.place, hgroups, hparents, Function.update_self]
  · cases x with
    | item i => exact congrFun hof i
    | group x =>
      have hxg : x ≠ g := fun hsame => hx (congrArg _ hsame)
      rw [Store.place, hgroups, hparents, Function.update_of_ne hxg]
      rfl
  · rw [hlinks, h.links]
    exact hlive.nodup
  · rw [hof] at hp
    rw [hgroups, Table.ids_update ht]
    exact (h.ids p).2 (.inl (hlive.groups i p hp))
  · rw [hmap, hlinks]

theorem deleteGroup_purged (hlive : Live s) (hne : g ≠ trashGroupId) (hg : Under s.groups.parentOf g trashGroupId) :
    ∃ s', exec (deleteGroup g) s = (.ok (), s') ∧ Purged s (.group g) s' := by
  have hdo : exec (deleteOrTrash g) s = (.ok (), { s with
      groups := s.groups.delete [g]
      groupItems := s.groupItems.filter fun l => l.groupId.all (· ∈ (s.groups.delete [g]).ids) }) := by
    rw [deleteOrTrash, exec_get_bind, isGroupInTrash_eq_true hg]
    rfl
  obtain ⟨s', hs', hgroups, hitems, hlinks, hmap⟩ := exec_deleteGroup hne hdo
  have hids : ∀ x, x ∈ s'.groups.ids ↔ x ∈ s.groups.ids ∧ ¬Under s.groups.parentOf x g := fun x => by
    rw [hgroups, Table.mem_ids_delete]
    simp
  have hof : ∀ i, s'.groupOf i = (s.groupOf i).filter (· ∈ s'.groups.ids) := fun i => by
    refine groupOf_filter_groups hlive.nodup (hlinks.trans ?_)
    rw [hgroups]
  refine ⟨s', hs', fun x => ?_, fun x hx hout => ?_, fun x g' h he hp hup => ?_, live_load ?_ (fun i p hp => ?_) ?_,
    fun i hi => (by cases hi), fun i hi => (by cases hi)⟩
  · cases x with
    | item i =>
      rw [and_iff_left (by rintro ⟨⟩), Store.Has, hitems]
      rfl
    | group x =>
      refine (hids x).trans (and_congr_right fun _ => not_congr ⟨fun hup => ⟨g, rfl, hup⟩, ?_⟩)
      rintro ⟨g', he, hup⟩
      obtain rfl := SelectionEntry.group.inj he
      exact hup
  · cases x with
    | item i =>
      rw [Store.place, hof, Store.place]
      cases hp : s.groupOf i with
      | none => rfl
      | some h =>
        have hstays : h ∈ s'.groups.ids := (hids h).2 ⟨hlive.groups i h hp, hout g h rfl hp⟩
        simp [Option.filter, hstays]
    | group x =>
      change x ∈ s'.groups.ids at hx
      rw [Store.place, hgroups]
      rw [hgroups] at hx
      exact Table.parentOf_delete_of_mem hx
  · obtain rfl := SelectionEntry.group.inj he
    cases x with
    | item i =>
      rw [Store.place, hof, show s.groupOf i = some h from hp]
      have hgone : h ∉ s'.groups.ids := fun hmem => ((hids h).1 hmem).2 hup
      simp [Option.filter, hgone]
    | group x => 
      have hgone : x ∉ s'.groups.ids := fun hmem => ((hids x).1 hmem).2 (.head hp hup)
      exact Table.parentOf_of_not_mem hgone
  · rw [hlinks]
    exact (List.filter_sublist.map _).nodup hlive.nodup
  · rw [hof] at hp
    exact of_decide_eq_true (Option.filter_eq_some_iff.1 hp).2
  · rw [hmap, hlinks]

theorem deleteGroup_absent (hlive : Live s) (hne : g ≠ trashGroupId) (hg : ¬s.Has (.group g))
    (htrash : s.Has (.group trashGroupId)) :
    ∃ s', exec (deleteGroup g) s = (.ok (), s') ∧ (∀ x, s'.Has x ↔ s.Has x) ∧ s'.place = s.place ∧ Live s' := by
  have hroot : s.groups.parentOf g = none := Table.parentOf_of_not_mem hg
  have hends : Ends (cut s.groups.parentOf trashGroupId) g := (Ends.of_none hroot).cut
  have hout : ¬Under s.groups.parentOf g trashGroupId := fun hup => hne ((under_of_none hroot).1 hup)
  obtain ⟨s₁, hs₁, h⟩ := exec_ensureTrash s
  obtain rfl := h.map htrash
  obtain ⟨t, ht⟩ := Table.exists_update s₁.groups g htrash
  obtain ⟨s', hs', hgroups, hitems, hlinks, hmap⟩ := exec_deleteGroup hne (exec_deleteOrTrash hends hout hs₁ ht)
  refine ⟨s', hs', fun x => has_congr hitems (by rw [hgroups, Table.ids_update ht]), funext fun x => ?_,
    live_load ?_ (fun i p hp => ?_) ?_⟩
  · cases x with
    | item i => exact congrFun (groupOf_congr hlinks) i
    | group x =>
      rw [Store.place, hgroups, Table.parentOf_update_absent hg ht]
      rfl
  · rw [hlinks]
    exact hlive.nodup
  · rw [groupOf_congr hlinks] at hp
    rw [hgroups, Table.ids_update ht]
    exact hlive.groups i p hp
  · rw [hmap, hlinks]

theorem delete_moves (hlive : Live s) (hhas : s.Has e) (hends : ∀ g, Ends (cut s.groups.parentOf trashGroupId) g)
    (hmoves : s.Moves e) : ∃ s', exec (deleteEntry e) s = (.ok (), s') ∧ Moved s e s' := by
  cases e with
  | item i => exact deleteItem_moved hlive hhas hends hmoves
  | group g => exact deleteGroup_moved hlive hhas (hends g) hmoves

theorem under_of_inTrash (h : s.InTrash (.group g)) : Under s.groups.parentOf g trashGroupId := by
  obtain ⟨p, hp, hup⟩ := h
  exact .head hp hup

theorem delete_inTrash (hlive : Live s) (hhas : s.Has e) (hin : s.InTrash e) (hne : e ≠ .group trashGroupId) :
    ∃ s', exec (deleteEntry e) s = (.ok (), s') ∧ Purged s e s' := by
  cases e with
  | item i =>
    obtain ⟨g, hg, hup⟩ := hin
    exact deleteItem_purged hlive ((hlive.map i hhas).trans hg) hup
  | group g => exact deleteGroup_purged hlive (fun hsame => hne (congrArg _ hsame)) (under_of_inTrash hin)

end Entry

end HaexVault.Passwords.Groups
