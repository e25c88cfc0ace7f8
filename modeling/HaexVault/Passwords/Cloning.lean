import HaexVault.Passwords.Trash
/-!
# Copies of folders (`bulkCloneAsync`)

A folder is cloned from the top: the new group is added, the groups are loaded, and the
children that are then found are cloned into it. Copies that lie beneath the source are found
as well. `Clones` is what the calls are for: copies of what was there before.
-/

namespace HaexVault.Passwords.Groups

open Lib Lib.Fallible Lib.Forest

/-! ## The calls -/

/-- What a call takes from outside: `crypto.randomUUID()` and `new Date()`, after so many ids have been drawn, and the order
of siblings that `childrenByParent` sorts them into. -/
structure Runtime where
  uuid : Nat → GroupId
  uuid_injective : Function.Injective uuid
  now : Nat → String
  sorted : List Group → List Group
  sorted_perm : ∀ l, (sorted l).Perm l

structure Session where
  store : Store
  drawn : Nat := 0

abbrev Cloning (α : Type) := Fallible Failure Session α

section Calls
variable (r : Runtime)

def randomUUID : Cloning GroupId := do
  let s ← get
  set { s with drawn := s.drawn + 1 }
  return r.uuid s.drawn

def onStore {α : Type} (m : Db α) : Cloning α := fun s => ((exec m s.store).1, { s with store := (exec m s.store).2 })

/-- `addGroupAsync` with an id of its own. -/
def addNewGroup (draft : PasswordGroupDraft) : Cloning GroupId := do
  let uuid ← randomUUID r
  onStore (addGroup draft uuid)

def insertLink (itemId : String) (groupId : Option GroupId) : Db Unit := do
  let s ← get
  if ¬groupId.all (· ∈ s.groups.ids) then throw foreignKeyFailed
  else set { s with groupItems := s.groupItems ++ [⟨itemId, groupId⟩] : Store }

def copyKeyValue (newId : String) (kv : KeyValue) : Cloning Unit := do
  let id ← randomUUID r
  onStore (modify fun s => { s with keyValues := s.keyValues ++ [{ kv with id := id.text, itemId := newId }] })

def copyTagLink (newId : String) (link : ItemTag) : Cloning Unit := do
  let id ← randomUUID r
  onStore (modify fun s => { s with itemTags := s.itemTags ++ [{ link with id := id.text, itemId := newId }] })

/-- `cloneItemAsync`. -/
def cloneItem (itemId : String) (targetGroupId : Option GroupId) : Cloning Unit := do
  let s ← get
  match s.store.items.find? (·.id = itemId) with
  | none => pure ()
  | some source => do
    let newId ← randomUUID r
    let now := some (r.now s.drawn)
    let copied := { source with id := newId.text, createdAt := now, updatedAt := now }
    onStore (modify fun t => { t with items := t.items ++ [copied] })
    (s.store.keyValues.filter (·.itemId = itemId)).forM (copyKeyValue r newId.text)
    (s.store.itemTags.filter (·.itemId = itemId)).forM (copyTagLink r newId.text)
    onStore (insertLink newId.text targetGroupId)

def draftOf (source : Group) (targetParentId : Option GroupId) : PasswordGroupDraft where
  name := source.name.getD ""
  description := source.description
  icon := source.icon
  color := source.color
  parentId := targetParentId

/-- `cloneGroupRecursiveAsync`, with so many calls one in the other. -/
def cloneGroupRecursive : Nat → GroupId → Option GroupId → Cloning Unit
  | 0, _, _ => throw .endless
  | n + 1, groupId, targetParentId => do
    let s ← get
    match s.store.groups.groupById groupId with
    | none => pure ()
    | some source => do
      let newGroupId ← addNewGroup r (draftOf source targetParentId)
      let s ← get
      (r.sorted (s.store.groups.childrenOf (some groupId))).forM fun child => cloneGroupRecursive n child.id (some newGroupId)
      let s ← get
      ((s.store.itemGroupMap.filter (·.2 = some groupId)).map (·.1)).forM fun itemId => cloneItem r itemId (some newGroupId)

def cloneEntry (n : Nat) (targetGroupId : Option GroupId) : SelectionEntry → Cloning Unit
  | .item id => cloneItem r id targetGroupId
  | .group id => cloneGroupRecursive r n id targetGroupId

/-- `bulkCloneAsync`. -/
def bulkClone (n : Nat) (entries : List SelectionEntry) (targetGroupId : Option GroupId) : Cloning Unit := do
  entries.forM (cloneEntry r n targetGroupId)
  onStore loadGroups

end Calls

/-! ## Copies -/

structure Added where
  groups : List Group := []
  items : List Item := []
  keyValues : List KeyValue := []
  itemTags : List ItemTag := []
  groupItems : List GroupItem := []

namespace Added

def append (a b : Added) : Added where
  groups := a.groups ++ b.groups
  items := a.items ++ b.items
  keyValues := a.keyValues ++ b.keyValues
  itemTags := a.itemTags ++ b.itemTags
  groupItems := a.groupItems ++ b.groupItems

instance : Append Added := ⟨append⟩

variable (a b c : Added)

@[simp] theorem append_groups : (a ++ b).groups = a.groups ++ b.groups := rfl
@[simp] theorem append_items : (a ++ b).items = a.items ++ b.items := rfl
@[simp] theorem append_keyValues : (a ++ b).keyValues = a.keyValues ++ b.keyValues := rfl
@[simp] theorem append_itemTags : (a ++ b).itemTags = a.itemTags ++ b.itemTags := rfl
@[simp] theorem append_groupItems : (a ++ b).groupItems = a.groupItems ++ b.groupItems := rfl

theorem append_assoc : a ++ b ++ c = a ++ (b ++ c) := by
  change append (append a b) c = append a (append b c)
  simp only [append, List.append_assoc]

theorem empty_append : ({} : Added) ++ a = a := rfl

theorem append_empty : a ++ ({} : Added) = a := by
  change append a {} = a
  simp only [append, List.append_nil]

end Added

inductive Each {α : Type} (R : α → Added → Prop) : List α → Added → Prop
  | nil : Each R [] {}
  | cons {x : α} {l : List α} {a b : Added} : R x a → Each R l b → Each R (x :: l) (a ++ b)

/-- An item with a new id in the group, with its key-values and its tag links. -/
inductive ItemCopy (s : Store) (itemId : String) (groupId : Option GroupId) : Added → Prop
  | copy {source : Item} {newId now : String} {keyValues : List KeyValue} {itemTags : List ItemTag} :
    s.items.find? (·.id = itemId) = some source →
    List.Forall₂ (fun kv kv' => kv' = { kv with id := kv'.id, itemId := newId })
      (s.keyValues.filter (·.itemId = itemId)) keyValues →
    List.Forall₂ (fun l l' => l' = { l with id := l'.id, itemId := newId })
      (s.itemTags.filter (·.itemId = itemId)) itemTags →
    ItemCopy s itemId groupId
      { items := [{ source with id := newId, createdAt := some now, updatedAt := some now }]
        keyValues, itemTags
        groupItems := [⟨newId, groupId⟩] }

/-- A group with a new id under the parent, with a copy of each group under the source and of each item in it. -/
inductive GroupCopy (s : Store) : GroupId → Option GroupId → Added → Prop
  | copy {source : Group} {newId : GroupId} {parentId : Option GroupId} {children : List Group} {b c : Added} :
    source ∈ s.groups.rows →
    children.Perm (s.groups.childrenOf (some source.id)) →
    Each (fun x a => GroupCopy s x.1 (some x.2) a) (children.map fun child => (child.id, newId)) b →
    Each (fun x a => ItemCopy s x.1 (some x.2) a)
      ((s.groupItems.filter (·.groupId = some source.id)).map fun l => (l.itemId, newId)) c →
    GroupCopy s source.id parentId
      ({ groups := [{ source with id := newId, name := some (source.name.getD ""), sortOrder := none, parentId }] } ++ b ++ c)

inductive EntryCopy (s : Store) (target : Option GroupId) : SelectionEntry → Added → Prop
  | item {id : String} {a : Added} : ItemCopy s id target a → EntryCopy s target (.item id) a
  | group {id : GroupId} {a : Added} : GroupCopy s id target a → EntryCopy s target (.group id) a
  | absent {e : SelectionEntry} : ¬s.Has e → EntryCopy s target e {}

structure Adds (s : Store) (a : Added) (s' : Store) : Prop where
  groups : s'.groups.rows = s.groups.rows ++ a.groups
  items : s'.items = s.items ++ a.items
  keyValues : s'.keyValues = s.keyValues ++ a.keyValues
  itemTags : s'.itemTags = s.itemTags ++ a.itemTags
  groupItems : s'.groupItems = s.groupItems ++ a.groupItems

structure New (s : Store) (a : Added) : Prop where
  items : (a.items.map (·.id)).Nodup ∧ ∀ x ∈ a.items, x.id ∉ s.items.map (·.id)
  keyValues : (a.keyValues.map (·.id)).Nodup ∧ ∀ x ∈ a.keyValues, x.id ∉ s.keyValues.map (·.id)
  itemTags : (a.itemTags.map (·.id)).Nodup ∧ ∀ x ∈ a.itemTags, x.id ∉ s.itemTags.map (·.id)

/-- What is added is a copy of each entry, as it was before. -/
def Clones (s : Store) (entries : List SelectionEntry) (target : Option GroupId) (s' : Store) : Prop :=
  ∃ a, Each (EntryCopy s target) entries a ∧ Adds s a s' ∧ New s a

structure Fresh (r : Runtime) (s : Store) (entries : List SelectionEntry) : Prop where
  groups : ∀ k, r.uuid k ∉ s.groups.ids
  items : ∀ k, (r.uuid k).text ∉ s.items.map (·.id)
  keyValues : ∀ k, (r.uuid k).text ∉ s.keyValues.map (·.id)
  itemTags : ∀ k, (r.uuid k).text ∉ s.itemTags.map (·.id)
  listed : ∀ k, .group (r.uuid k) ∉ entries ∧ .item (r.uuid k).text ∉ entries

/-! ## Ids -/

section Ids
variable {r : Runtime} {n m k : Nat} {a b : Added}

def idsBetween (r : Runtime) (n m : Nat) : List GroupId := (List.range' n (m - n)).map r.uuid

theorem idsBetween_append (hnm : n ≤ m) (hmk : m ≤ k) : idsBetween r n m ++ idsBetween r m k = idsBetween r n k := by
  obtain ⟨x, rfl⟩ := Nat.exists_eq_add_of_le hnm
  obtain ⟨y, rfl⟩ := Nat.exists_eq_add_of_le hmk
  rw [idsBetween, idsBetween, idsBetween, ← List.map_append, Nat.add_sub_cancel_left, Nat.add_sub_cancel_left,
    List.range'_append_1, Nat.add_assoc, Nat.add_sub_cancel_left]

theorem idsBetween_succ (n : Nat) : idsBetween r n (n + 1) = [r.uuid n] := by
  rw [idsBetween, Nat.add_sub_cancel_left]
  rfl

theorem idsBetween_nodup : (idsBetween r n m).Nodup := (List.nodup_range' ..).map r.uuid_injective

theorem text_injective : Function.Injective GroupId.text := by
  rintro ⟨a, ha⟩ ⟨b, hb⟩ h
  cases h
  rfl

theorem mem_idsBetween {id : GroupId} : id ∈ idsBetween r n m ↔ ∃ k, n ≤ k ∧ k < m ∧ r.uuid k = id := by
  simp only [idsBetween, List.mem_map, List.mem_range'_1]
  constructor
  · rintro ⟨k, ⟨hn, hm⟩, rfl⟩
    exact ⟨k, hn, by omega, rfl⟩
  · rintro ⟨k, hn, hm, rfl⟩
    exact ⟨k, ⟨hn, by omega⟩, rfl⟩

structure Drawn (r : Runtime) (n m : Nat) (a : Added) : Prop where
  le : n ≤ m
  groups : (a.groups.map (·.id)).Sublist (idsBetween r n m)
  items : (a.items.map (·.id)).Sublist ((idsBetween r n m).map (·.text))
  keyValues : (a.keyValues.map (·.id)).Sublist ((idsBetween r n m).map (·.text))
  itemTags : (a.itemTags.map (·.id)).Sublist ((idsBetween r n m).map (·.text))

theorem Drawn.append (h : Drawn r n m a) (h' : Drawn r m k b) : Drawn r n k (a ++ b) where
  le := h.le.trans h'.le
  groups := by
    rw [Added.append_groups, List.map_append, ← idsBetween_append h.le h'.le]
    exact h.groups.append h'.groups
  items := by
    rw [Added.append_items, List.map_append, ← idsBetween_append h.le h'.le, List.map_append]
    exact h.items.append h'.items
  keyValues := by
    rw [Added.append_keyValues, List.map_append, ← idsBetween_append h.le h'.le, List.map_append]
    exact h.keyValues.append h'.keyValues
  itemTags := by
    rw [Added.append_itemTags, List.map_append, ← idsBetween_append h.le h'.le, List.map_append]
    exact h.itemTags.append h'.itemTags

theorem Drawn.empty (n : Nat) : Drawn r n n {} :=
  ⟨le_rfl, List.nil_sublist _, List.nil_sublist _, List.nil_sublist _, List.nil_sublist _⟩

end Ids

/-! ## One item -/

theorem Adds.append {s t u : Store} {a b : Added} (h : Adds s a t) (h' : Adds t b u) : Adds s (a ++ b) u where
  groups := by rw [h'.groups, h.groups, Added.append_groups, List.append_assoc]
  items := by rw [h'.items, h.items, Added.append_items, List.append_assoc]
  keyValues := by rw [h'.keyValues, h.keyValues, Added.append_keyValues, List.append_assoc]
  itemTags := by rw [h'.itemTags, h.itemTags, Added.append_itemTags, List.append_assoc]
  groupItems := by rw [h'.groupItems, h.groupItems, Added.append_groupItems, List.append_assoc]

structure Wrote (r : Runtime) (st : Session) (a : Added) (st' : Session) : Prop where
  adds : Adds st.store a st'.store
  drawn : Drawn r st.drawn st'.drawn a
  map : st'.store.itemGroupMap = st.store.itemGroupMap

section Item
variable {r : Runtime} {st st' st'' : Session} {a b : Added} {i : String} {p : Option GroupId} {source : Item}

theorem Wrote.append (h : Wrote r st a st') (h' : Wrote r st' b st'') : Wrote r st (a ++ b) st'' where
  adds := h.adds.append h'.adds
  drawn := h.drawn.append h'.drawn
  map := h'.map.trans h.map

theorem exec_onStore {α : Type} {m : Db α} {x : α} {s : Store} (h : exec m st.store = (.ok x, s)) :
    exec (onStore m) st = (.ok x, { st with store := s }) := by
  change ((exec m st.store).1, { st with store := (exec m st.store).2 }) = _
  rw [h]

/-- A loop of copies, each of which adds one row. -/
theorem exec_copies {ρ : Type} {copy : ρ → Cloning Unit} {R : ρ → ρ → Prop} {f : List ρ → Added} (hnil : f [] = {})
    (hcons : ∀ x rows, f (x :: rows) = f [x] ++ f rows)
    (hone : ∀ x st, ∃ x' st', exec (copy x) st = (.ok (), st') ∧ R x x' ∧ Wrote r st (f [x']) st' ∧
      st'.store.groups = st.store.groups) (l : List ρ) (st : Session) :
    ∃ rows st', exec (l.forM copy) st = (.ok (), st') ∧ List.Forall₂ R l rows ∧ Wrote r st (f rows) st' ∧
      st'.store.groups = st.store.groups := by
  induction l generalizing st with
  | nil =>
    refine ⟨[], st, rfl, .nil, hnil ▸ ⟨⟨?_, ?_, ?_, ?_, ?_⟩, .empty _, rfl⟩, rfl⟩ <;> exact (List.append_nil _).symm
  | cons x l ih =>
    obtain ⟨x', st₁, hst₁, hx, hwrote₁, hgroups₁⟩ := hone x st
    obtain ⟨rows, st', hst', hrows, hwrote, hgroups⟩ := ih st₁
    refine ⟨x' :: rows, st', ?_, .cons hx hrows, hcons x' rows ▸ hwrote₁.append hwrote, hgroups.trans hgroups₁⟩
    exact (exec_bind_ok hst₁).trans hst'

theorem exec_copyKeyValues (newId : String) (l : List KeyValue) (st : Session) :
    ∃ rows st', exec (l.forM (copyKeyValue r newId)) st = (.ok (), st') ∧
      List.Forall₂ (fun kv kv' => kv' = { kv with id := kv'.id, itemId := newId }) l rows ∧
      Wrote r st { keyValues := rows } st' ∧ st'.store.groups = st.store.groups := by
  refine exec_copies (f := fun rows => { keyValues := rows }) rfl (fun _ _ => rfl) (fun kv st => ?_) l st
  refine ⟨_, _, rfl, rfl, ⟨⟨?_, ?_, rfl, ?_, ?_⟩, ⟨Nat.le_succ _, List.nil_sublist _, List.nil_sublist _, ?_,
    List.nil_sublist _⟩, rfl⟩, rfl⟩
  rotate_right
  · rw [idsBetween_succ]
    exact List.Sublist.refl _
  all_goals exact (List.append_nil _).symm

theorem exec_copyTagLinks (newId : String) (l : List ItemTag) (st : Session) :
    ∃ rows st', exec (l.forM (copyTagLink r newId)) st = (.ok (), st') ∧
      List.Forall₂ (fun link link' => link' = { link with id := link'.id, itemId := newId }) l rows ∧
      Wrote r st { itemTags := rows } st' ∧ st'.store.groups = st.store.groups := by
  refine exec_copies (f := fun rows => { itemTags := rows }) rfl (fun _ _ => rfl) (fun link st => ?_) l st
  refine ⟨_, _, rfl, rfl, ⟨⟨?_, ?_, ?_, rfl, ?_⟩, ⟨Nat.le_succ _, List.nil_sublist _, List.nil_sublist _,
    List.nil_sublist _, ?_⟩, rfl⟩, rfl⟩
  rotate_right
  · rw [idsBetween_succ]
    exact List.Sublist.refl _
  all_goals exact (List.append_nil _).symm

theorem forall_of_forall₂ {α β : Type} {R : α → β → Prop} {P : β → Prop} {l : List α} {l' : List β} (h : List.Forall₂ R l l')
    (hR : ∀ x y, R x y → P y) : ∀ y ∈ l', P y := by
  induction h with
  | nil => exact fun _ hy => absurd hy List.not_mem_nil
  | cons hxy _ ih => exact List.forall_mem_cons.2 ⟨hR _ _ hxy, ih⟩

/-- The item is copied as it is now. -/
theorem exec_cloneItem (hsource : st.store.items.find? (·.id = i) = some source) (hp : ∀ g ∈ p, g ∈ st.store.groups.ids) :
    ∃ st' a, exec (cloneItem r i p) st = (.ok (), st') ∧ ItemCopy st.store i p a ∧ Wrote r st a st' ∧
      st'.store.groups = st.store.groups ∧ a.groups = [] ∧ (∀ l ∈ a.groupItems, l.groupId = p) ∧
      (∀ kv ∈ a.keyValues, kv.itemId = (r.uuid st.drawn).text) ∧ ∀ l ∈ a.itemTags, l.itemId = (r.uuid st.drawn).text := by
  let copied : Item :=
    { source with id := (r.uuid st.drawn).text, createdAt := some (r.now st.drawn), updatedAt := some (r.now st.drawn) }
  let st₁ : Session := { store := { st.store with items := st.store.items ++ [copied] }, drawn := st.drawn + 1 }
  have hone : Wrote r st { items := [copied] } st₁ := by
    refine ⟨⟨?_, rfl, ?_, ?_, ?_⟩, ⟨Nat.le_succ _, List.nil_sublist _, ?_, List.nil_sublist _, List.nil_sublist _⟩, rfl⟩
    rotate_right
    · rw [idsBetween_succ]
      exact List.Sublist.refl _
    all_goals exact (List.append_nil _).symm
  obtain ⟨keyValues, st₂, hst₂, hkv, hwrote₂, hgroups₂⟩ :=
    exec_copyKeyValues (r := r) (r.uuid st.drawn).text (st.store.keyValues.filter (·.itemId = i)) st₁
  obtain ⟨itemTags, st₃, hst₃, htags, hwrote₃, hgroups₃⟩ :=
    exec_copyTagLinks (r := r) (r.uuid st.drawn).text (st.store.itemTags.filter (·.itemId = i)) st₂
  have hgroups : st₃.store.groups = st.store.groups := hgroups₃.trans hgroups₂
  have hlink : exec (insertLink (r.uuid st.drawn).text p) st₃.store =
      (.ok (), { st₃.store with groupItems := st₃.store.groupItems ++ [⟨(r.uuid st.drawn).text, p⟩] }) := by
    have hall : p.all (· ∈ st₃.store.groups.ids) = true := by
      rw [hgroups]
      cases p with
      | none => rfl
      | some g => exact decide_eq_true (hp g rfl)
    rw [insertLink, exec_get_bind, if_neg (not_not.2 hall)]
    rfl
  have hlast : Wrote r st₃ { groupItems := [⟨(r.uuid st.drawn).text, p⟩] }
      { st₃ with store := { st₃.store with groupItems := st₃.store.groupItems ++ [⟨(r.uuid st.drawn).text, p⟩] } } := by
    refine ⟨⟨?_, ?_, ?_, ?_, rfl⟩, ⟨le_rfl, List.nil_sublist _, List.nil_sublist _, List.nil_sublist _, List.nil_sublist _⟩, rfl⟩
    all_goals exact (List.append_nil _).symm
  refine ⟨{ st₃ with store := { st₃.store with groupItems := st₃.store.groupItems ++ [⟨(r.uuid st.drawn).text, p⟩] } },
    { items := [copied], keyValues, itemTags, groupItems := [⟨(r.uuid st.drawn).text, p⟩] }, ?_,
    .copy hsource hkv htags, ?_, hgroups, rfl, fun l hl => ?_, fun kv hkv' => ?_, fun l hl => ?_⟩
  · rw [cloneItem, exec_get_bind, hsource]
    exact (exec_bind_ok rfl).trans ((exec_bind_ok rfl).trans ((exec_bind_ok hst₂).trans ((exec_bind_ok hst₃).trans
      (exec_onStore hlink))))
  · have hall : ({ items := [copied], keyValues, itemTags, groupItems := [⟨(r.uuid st.drawn).text, p⟩] } : Added) =
        { items := [copied] } ++ ({ keyValues } ++ ({ itemTags } ++ { groupItems := [⟨(r.uuid st.drawn).text, p⟩] })) := by
      change _ = Added.append _ (Added.append _ (Added.append _ _))
      simp [Added.append]
    change Wrote r st { items := [copied], keyValues, itemTags, groupItems := [⟨(r.uuid st.drawn).text, p⟩] } _
    rw [hall]
    exact hone.append (hwrote₂.append (hwrote₃.append hlast))
  · rw [List.mem_singleton.1 hl]
  · exact forall_of_forall₂ (P := fun kv => kv.itemId = (r.uuid st.drawn).text) hkv (fun _ _ h => by rw [h]) kv hkv'
  · exact forall_of_forall₂ (P := fun l => l.itemId = (r.uuid st.drawn).text) htags (fun _ _ h => by rw [h]) l hl

end Item

end HaexVault.Passwords.Groups
