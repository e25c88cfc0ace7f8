import HaexVault.Lib.Forest
import HaexVault.Passwords.Commands
/-!
# Folders (`stores/passwords/groups.ts`)

Groups form a table of parent pointers with foreign keys; one of them, with a fixed id, is
the trash. The store keeps the groups as they are in the table, for every statement that
writes it is followed by a load, and a map from items to groups that only a load brings up
to date. A call whose loop does not end fails here with `endless`.
-/

namespace HaexVault.Passwords.Groups

open Lib Lib.Fallible Lib.Forest

/-! ## The tables -/

structure GroupId where
  text : String
  nonempty : text ≠ ""
  deriving DecidableEq

def trashGroupId : GroupId := ⟨"trash", by decide⟩

/-- A row of `haex_passwords_groups`. -/
structure Group where
  id : GroupId
  name : Option String
  description : Option String := none
  icon : Option String := none
  color : Option String := none
  sortOrder : Option Int := none
  parentId : Option GroupId
  deriving DecidableEq

/-- A row of `haex_passwords_group_items`. -/
structure GroupItem where
  itemId : String
  groupId : Option GroupId
  deriving DecidableEq

inductive Failure where
  | thrown (message : String)
  /-- A loop that goes on for ever. -/
  | endless
  deriving DecidableEq

def foreignKeyFailed : Failure := .thrown "FOREIGN KEY constraint failed"

/-- `haex_passwords_groups`, with its primary key and its foreign key. -/
structure Table where
  rows : List Group
  ids_nodup : (rows.map (·.id)).Nodup
  parents : ∀ g ∈ rows, ∀ p ∈ g.parentId, p ∈ rows.map (·.id)

namespace Table
variable (t : Table)

def ids : List GroupId := t.rows.map (·.id)

def groupById (id : GroupId) : Option Group := t.rows.find? (·.id = id)

def parentOf (id : GroupId) : Option GroupId := (t.groupById id).bind (·.parentId)

def childrenOf (key : Option GroupId) : List Group := t.rows.filter (·.parentId = key)

def isGroupInTrash (id : GroupId) : Option Bool := climb t.parentOf trashGroupId (t.rows.length + 1) id

/-- The loop of `descendantIdSet`; every turn takes one group from the stack. -/
def descendants : Nat → List GroupId → List GroupId → List GroupId
  | 0, _, result | _, [], result => result
  | n + 1, current :: stack, result =>
    let fresh := ((t.childrenOf (some current)).map (·.id)).filter (· ∉ result)
    descendants n (fresh.reverse ++ stack) (result ++ fresh)

def descendantIdSet (id : GroupId) : List GroupId := t.descendants (t.rows.length + 1) [id] [id]

variable {t}

theorem mem_of_groupById {id : GroupId} {g : Group} (h : t.groupById id = some g) : g ∈ t.rows ∧ g.id = id :=
  ⟨List.mem_of_find?_eq_some h, by simpa using List.find?_some h⟩

theorem parentOf_mem {id p : GroupId} (h : t.parentOf id = some p) : id ∈ t.ids ∧ p ∈ t.ids := by
  obtain ⟨g, hg, hp⟩ := Option.bind_eq_some_iff.1 h
  obtain ⟨hmem, rfl⟩ := mem_of_groupById hg
  exact ⟨List.mem_map_of_mem hmem, t.parents g hmem p hp⟩

theorem groupById_of_mem {g : Group} (h : g ∈ t.rows) : t.groupById g.id = some g := by
  cases hfind : t.groupById g.id with
  | none => simpa using List.find?_eq_none.1 hfind g h
  | some g' =>
    obtain ⟨hmem, hid⟩ := mem_of_groupById hfind
    rw [List.inj_on_of_nodup_map t.ids_nodup hmem h hid]

theorem parentOf_of_mem {g : Group} (h : g ∈ t.rows) : t.parentOf g.id = g.parentId := by
  rw [parentOf, groupById_of_mem h]
  rfl

theorem parentOf_of_not_mem {id : GroupId} (h : id ∉ t.ids) : t.parentOf id = none := by
  cases hp : t.parentOf id with
  | none => rfl
  | some p => exact absurd (parentOf_mem hp).1 h

theorem mem_of_under {id p : GroupId} (h : Under t.parentOf id p) : id = p ∨ p ∈ t.ids := by
  rcases Relation.ReflTransGen.cases_tail h with hsame | ⟨c, -, hcp⟩
  · exact .inl hsame.symm
  · exact .inr (parentOf_mem hcp).2

theorem climb_iff {id goal : GroupId} : climb t.parentOf goal (t.rows.length + 1) id = some true ↔ Under t.parentOf id goal := by
  have hlen : t.rows.length = t.ids.length := by rw [ids, List.length_map]
  rw [hlen]
  exact climb_eq_true_iff fun x y hxy => (parentOf_mem hxy).1

end Table

theorem Table.exists_isGroupInTrash_iff {t : Table} {id : GroupId} :
    (∃ r, t.isGroupInTrash id = some r) ↔ Ends (cut t.parentOf trashGroupId) id := by
  have hlen : t.rows.length = t.ids.length := by rw [Table.ids, List.length_map]
  rw [Table.isGroupInTrash, hlen]
  exact exists_climb_iff fun x y hxy => (Table.parentOf_mem hxy).1

/-! ## Descendants -/

namespace Table
variable {t : Table}

theorem mem_childrenOf {id key : GroupId} : id ∈ (t.childrenOf (some key)).map (·.id) ↔ t.parentOf id = some key := by
  constructor
  · intro h
    obtain ⟨g, hg, rfl⟩ := List.mem_map.1 h
    obtain ⟨hg, hp⟩ := List.mem_filter.1 hg
    rw [parentOf_of_mem hg]
    exact of_decide_eq_true hp
  · intro h
    obtain ⟨g, hg, rfl⟩ := List.mem_map.1 (parentOf_mem h).1
    rw [parentOf_of_mem hg] at h
    exact List.mem_map_of_mem (List.mem_filter.2 ⟨hg, decide_eq_true h⟩)

def missing (t : Table) (result : List GroupId) : List Group := t.rows.filter fun g => g.id ∉ result

theorem length_missing (current : GroupId) (result : List GroupId) :
    let fresh := ((t.childrenOf (some current)).map (·.id)).filter (· ∉ result)
    fresh.length + (t.missing (result ++ fresh)).length = (t.missing result).length := by
  intro fresh
  have hfresh : fresh.length = ((t.missing result).filter (·.parentId = some current)).length := by
    simp only [fresh, childrenOf, missing, List.filter_map, List.length_map, List.filter_filter]
    congr 1
    refine List.filter_congr fun g _ => ?_
    simp [Bool.and_comm]
  have hrest : t.missing (result ++ fresh) = (t.missing result).filter (¬ ·.parentId = some current) := by
    simp only [missing, List.filter_filter]
    refine List.filter_congr fun g hg => ?_
    have hmem : g.id ∈ (t.childrenOf (some current)).map (·.id) ↔ g.parentId = some current := by
      rw [mem_childrenOf, parentOf_of_mem hg]
    by_cases hr : g.id ∈ result <;> simp [fresh, hr, hmem]
  rw [hfresh, hrest]
  simpa using (List.length_eq_length_filter_add (l := t.missing result) fun g => g.parentId = some current).symm

/-- What the loop ends with, when it has a turn for every group it may come to. -/
theorem descendants_spec {n : Nat} {stack result : List GroupId} {P : GroupId → Prop}
    (hfuel : stack.length + (t.missing result).length ≤ n) (hsub : stack ⊆ result) (hP : ∀ x ∈ result, P x)
    (hchild : ∀ x y, P y → t.parentOf x = some y → P x)
    (hclosed : ∀ x ∈ result, x ∈ stack ∨ ∀ c, t.parentOf c = some x → c ∈ result) :
    result ⊆ t.descendants n stack result ∧ (∀ x ∈ t.descendants n stack result, P x) ∧
      ∀ x ∈ t.descendants n stack result, ∀ c, t.parentOf c = some x → c ∈ t.descendants n stack result := by
  induction n generalizing stack result with
  | zero =>
    obtain rfl : stack = [] := List.length_eq_zero_iff.1 (by omega)
    exact ⟨List.Subset.refl _, hP, fun x hx => (hclosed x hx).resolve_left List.not_mem_nil⟩
  | succ n ih =>
    cases stack with
    | nil => exact ⟨List.Subset.refl _, hP, fun x hx => (hclosed x hx).resolve_left List.not_mem_nil⟩
    | cons current stack =>
      unfold descendants
      extract_lets fresh
      have hlen : fresh.length + (t.missing (result ++ fresh)).length = (t.missing result).length :=
        t.length_missing current result
      have hfresh : ∀ x, x ∈ fresh ↔ t.parentOf x = some current ∧ x ∉ result := fun x => by
        rw [List.mem_filter, mem_childrenOf, decide_eq_true_eq]
      have hmore : fresh.reverse ++ stack ⊆ result ++ fresh := by
        intro x hx
        rcases List.mem_append.1 hx with hx | hx
        · exact List.mem_append_right _ (List.mem_reverse.1 hx)
        · exact List.mem_append_left _ (hsub (List.mem_cons_of_mem _ hx))
      have hall : ∀ x ∈ result ++ fresh, P x := by
        intro x hx
        rcases List.mem_append.1 hx with hx | hx
        · exact hP x hx
        · exact hchild x current (hP current (hsub List.mem_cons_self)) ((hfresh x).1 hx).1
      have hdone : ∀ x ∈ result ++ fresh, x ∈ fresh.reverse ++ stack ∨ ∀ c, t.parentOf c = some x → c ∈ result ++ fresh := by
        intro x hx
        rcases List.mem_append.1 hx with hx | hx
        · rcases hclosed x hx with hstack | hkids
          · rcases List.mem_cons.1 hstack with rfl | hstack
            · refine .inr fun c hc => ?_
              by_cases hmem : c ∈ result
              · exact List.mem_append_left _ hmem
              · exact List.mem_append_right _ ((hfresh c).2 ⟨hc, hmem⟩)
            · exact .inl (List.mem_append_right _ hstack)
          · exact .inr fun c hc => List.mem_append_left _ (hkids c hc)
        · exact .inl (List.mem_append_left _ (List.mem_reverse.2 hx))
      obtain ⟨hincl, hspec⟩ := ih (by simp only [List.length_cons, List.length_append, List.length_reverse] at hfuel ⊢; omega)
        hmore hall hdone
      exact ⟨fun x hx => hincl (List.mem_append_left _ hx), hspec⟩

theorem mem_descendantIdSet {id goal : GroupId} : id ∈ t.descendantIdSet goal ↔ Under t.parentOf id goal := by
  have hfuel : [goal].length + (t.missing [goal]).length ≤ t.rows.length + 1 := by
    have := List.length_filter_le (fun g : Group => g.id ∉ [goal]) t.rows
    rw [List.length_singleton, missing]
    omega
  obtain ⟨hincl, hall, hdone⟩ := descendants_spec (P := fun x => Under t.parentOf x goal) hfuel (List.Subset.refl _)
    (fun x hx => by rw [List.mem_singleton.1 hx]; exact .refl) (fun x y hy hxy => .head hxy hy) (fun x hx => .inl hx)
  refine ⟨hall id, fun h => ?_⟩
  induction h using Relation.ReflTransGen.head_induction_on with
  | refl => exact hincl (List.mem_singleton_self _)
  | head hac _ ih => exact hdone _ ih _ hac

end Table

/-! ## Statements on groups -/

namespace Table
variable (t : Table)

/-- An insert that does nothing where the id is taken. -/
def insert (g : Group) : Except Failure Table :=
  if hid : g.id ∈ t.ids then .ok t
  else if hp : ∀ p ∈ g.parentId, p = g.id ∨ p ∈ t.ids then .ok
    { rows := t.rows ++ [g]
      ids_nodup := by
        rw [List.map_append]
        refine List.nodup_append.2 ⟨t.ids_nodup, List.nodup_singleton _, fun a ha b hb hab => hid ?_⟩
        obtain rfl := List.mem_singleton.1 hb
        rwa [hab] at ha
      parents := fun g' hg' p hp' => by
        rw [List.map_append]
        rcases List.mem_append.1 hg' with hg' | hg'
        · exact List.mem_append_left _ (t.parents g' hg' p hp')
        · obtain rfl := List.mem_singleton.1 hg'
          rcases hp p hp' with rfl | hmem
          · exact List.mem_append_right _ (List.mem_singleton_self _)
          · exact List.mem_append_left _ hmem }
  else .error foreignKeyFailed

/-- The update of one group: its columns by `f`, and its parent. -/
def update (id : GroupId) (f : Group → Group) (parentId : Option GroupId) : Except Failure Table :=
  if hp : id ∈ t.ids → ∀ p ∈ parentId, p ∈ t.ids then .ok
    { rows := t.rows.map fun g => if g.id = id then { f g with id := g.id, parentId } else g
      ids_nodup := by
        rw [map_ids]
        exact t.ids_nodup
      parents := fun g' hg' p hp' => by
        rw [map_ids]
        obtain ⟨g, hg, rfl⟩ := List.mem_map.1 hg'
        split at hp'
        · rename_i hid
          exact hp (hid ▸ List.mem_map_of_mem hg) p hp'
        · exact t.parents g hg p hp' }
  else .error foreignKeyFailed
where
  map_ids : (t.rows.map fun g => if g.id = id then { f g with id := g.id, parentId } else g).map (·.id) = t.rows.map (·.id) := by
    rw [List.map_map]
    refine List.map_congr_left fun g _ => ?_
    simp only [Function.comp]
    split <;> rfl

def spares (doomed : List GroupId) (g : Group) : Bool :=
  doomed.all fun d => climb t.parentOf d (t.rows.length + 1) g.id ≠ some true

/-- The delete of some groups, and by the foreign key of all groups under them. -/
def delete (doomed : List GroupId) : Table :=
  { rows := t.rows.filter (t.spares doomed)
    ids_nodup := (List.filter_sublist.map _).nodup t.ids_nodup
    parents := fun g hg p hp => by
      obtain ⟨hg, hspared⟩ := List.mem_filter.1 hg
      obtain ⟨g', hg', rfl⟩ := List.mem_map.1 (t.parents g hg p hp)
      refine List.mem_map_of_mem (List.mem_filter.2 ⟨hg', List.all_eq_true.2 fun d hd => ?_⟩)
      have hnot := of_decide_eq_true (List.all_eq_true.1 hspared d hd)
      refine decide_eq_true fun hclimb => hnot (climb_iff.2 ?_)
      exact .head ((parentOf_of_mem hg).trans hp) (climb_iff.1 hclimb) }
end Table

/-! ## The store -/

structure Store where
  groups : Table
  items : List Item
  keyValues : List KeyValue
  itemTags : List ItemTag
  groupItems : List GroupItem
  itemGroupMap : List (String × Option GroupId)
  selectedGroupId : Option GroupId := none

abbrev Db (α : Type) := Fallible Failure Store α

inductive SelectionEntry where
  | item (id : String)
  | group (id : GroupId)
  deriving DecidableEq

structure PasswordGroupDraft where
  id : Option GroupId := none
  name : String
  description : Option String := none
  icon : Option String := none
  color : Option String := none
  sortOrder : Option Int := none
  parentId : Option GroupId := none

def onGroups (f : Table → Except Failure Table) : Db Unit := do
  let s ← get
  match f s.groups with
  | .ok groups => set { s with groups }
  | .error e => throw e

/-- `loadGroupsAsync`. -/
def loadGroups : Db Unit := modify fun s => { s with itemGroupMap := s.groupItems.map fun l => (l.itemId, l.groupId) }

/-- The group that `ensureTrashAsync` inserts. -/
def trashRow : Group where
  id := trashGroupId
  name := some "Papierkorb"
  icon := some "i-lucide-trash-2"
  parentId := none

/-- `ensureTrashAsync`; the conflict that it catches does nothing here. -/
def ensureTrash : Db Unit := do
  let s ← get
  if trashGroupId ∈ s.groups.ids then pure () else do
    onGroups (·.insert trashRow)
    loadGroups

/-- `addGroupAsync`. -/
def addGroup (draft : PasswordGroupDraft) (uuid : GroupId) : Db GroupId := do
  let id := draft.id.getD uuid
  onGroups (·.insert
    { id
      name := some draft.name
      description := draft.description
      icon := draft.icon
      color := draft.color
      sortOrder := draft.sortOrder
      parentId := draft.parentId })
  loadGroups
  return id

/-- `updateGroupAsync`. -/
def updateGroup (group : Group) : Db Unit := do
  onGroups (·.update group.id (fun _ => group) group.parentId)
  loadGroups

/-- `moveGroupAsync`. -/
def moveGroup (groupId : GroupId) (targetParentId : Option GroupId) : Db Unit := do
  onGroups (·.update groupId (fun g => g) targetParentId)
  loadGroups

/-- `restoreGroupAsync`. -/
def restoreGroup (groupId : GroupId) : Db Unit := moveGroup groupId none

def deleteGroupRows (doomed : List GroupId) : Db Unit :=
  modify fun s =>
    let groups := s.groups.delete doomed
    { s with groups, groupItems := s.groupItems.filter fun l => l.groupId.all (· ∈ groups.ids) }

def reselect (fallback : Option GroupId) : Db Unit :=
  modify fun s => if s.selectedGroupId.all (· ∈ s.groups.ids) then s else { s with selectedGroupId := fallback }

/-- The statements of `deleteGroupAsync`. -/
def deleteOrTrash (groupId : GroupId) : Db Unit := do
  let s ← get
  match s.groups.isGroupInTrash groupId with
  | none => throw .endless
  | some true => deleteGroupRows [groupId]
  | some false => do
    ensureTrash
    onGroups (·.update groupId (fun g => g) (some trashGroupId))

/-- `deleteGroupAsync`. -/
def deleteGroup (groupId : GroupId) : Db Unit :=
  if groupId = trashGroupId then pure ()
  else do
    deleteOrTrash groupId
    loadGroups
    reselect none

def mapSet (map : List (String × Option GroupId)) (itemId : String) (groupId : Option GroupId) : List (String × Option GroupId) :=
  if itemId ∈ map.map (·.1) then map.map fun e => if e.1 = itemId then (itemId, groupId) else e
  else map ++ [(itemId, groupId)]

/-- The update or the insert of `setItemGroupAsync`. -/
def linkItem (itemId : String) (targetGroupId : Option GroupId) : Db Unit := do
  let s ← get
  if ¬targetGroupId.all (· ∈ s.groups.ids) then throw foreignKeyFailed
  else if s.groupItems.any (·.itemId = itemId) then
    set { s with groupItems := s.groupItems.map fun l => if l.itemId = itemId then ⟨itemId, targetGroupId⟩ else l : Store }
  else if itemId ∈ s.items.map (·.id) then set { s with groupItems := s.groupItems ++ [⟨itemId, targetGroupId⟩] : Store }
  else throw foreignKeyFailed

/-- `setItemGroupAsync`. -/
def setItemGroup (itemId : String) (targetGroupId : Option GroupId) : Db Unit := do
  linkItem itemId targetGroupId
  modify fun s => { s with itemGroupMap := mapSet s.itemGroupMap itemId targetGroupId }

/-- The check of `bulkMoveAsync` for one entry. -/
def checkMove (t : Table) (targetGroupId : GroupId) : SelectionEntry → Except Failure Unit
  | .item _ => .ok ()
  | .group id =>
    if id = targetGroupId then .error (.thrown "selfMove")
    else if targetGroupId ∈ t.descendantIdSet id then .error (.thrown "cycleMove")
    else .ok ()

def moveEntry (targetGroupId : Option GroupId) : SelectionEntry → Db Unit
  | .group id => moveGroup id targetGroupId
  | .item id => setItemGroup id targetGroupId

/-- `bulkMoveAsync`. -/
def bulkMove (entries : List SelectionEntry) (targetGroupId : Option GroupId) : Db Unit := do
  let s ← get
  match targetGroupId.elim (.ok ()) fun target => entries.forM (checkMove s.groups target) with
  | .error e => throw e
  | .ok () => entries.forM (moveEntry targetGroupId)

end HaexVault.Passwords.Groups
