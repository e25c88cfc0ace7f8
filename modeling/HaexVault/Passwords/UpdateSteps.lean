import HaexVault.Passwords.TagScope
/-!
# Password writes statement by statement (`passwords/commands.rs`)

`extension_password_create` and `extension_password_update` run every statement in a transaction of
its own. Here each statement may be the one that fails (`InSteps`); `all_or_nothing_iff` says which
may fail without harm.
-/

namespace HaexVault.Passwords

open Lib Lib.Fallible Extension.PermissionManager Extension.PermissionManager.Permissions

/-! ## The commands with a failing statement -/

/-- The first statement of `upsert_tag`. -/
def insertTag (newId name : String) : Db Unit :=
  modify fun db =>
    if db.tags.any fun t => t.id = newId || t.name = name then db else { db with tags := db.tags ++ [⟨newId, name⟩] }

/-- The second statement of `upsert_tag`. -/
def selectTagId (name : String) : Db String := do
  let db ← get
  match db.tags.find? fun t => t.name = name with
  | some t => return t.id
  | none => throw (.database ("tag '" ++ name ++ "' not found after upsert"))

theorem upsertTag_eq (newId name : String) : upsertTag newId name = insertTag newId name >>= fun _ => selectTagId name := rfl

namespace Failing

variable (e : PasswordError) (x : Externals)

/-- The state is the tables and the number of statements that still succeed; then one fails with `e`. -/
abbrev Db (α : Type) := Fallible PasswordError (Tables × Nat) α

def upsertTag (newId name : String) : Db String := do
  attempt e (insertTag newId name)
  attempt e (selectTagId name)

def upsertAndLinkTags (u : Uuids) (itemId : String) : Nat → List String → Db Unit
  | _, [] => pure ()
  | n, name :: names => do
    let tagId ← upsertTag e (u.tag n) name
    attempt e (linkTag (u.link n) itemId tagId)
    upsertAndLinkTags u itemId (n + 1) names

def insertKeyValues (u : Uuids) (itemId : String) : Nat → List (Option String × Option String) → Db Unit
  | _, [] => pure ()
  | n, kv :: kvs => do
    attempt e (insertKeyValue (u.keyValue n) itemId kv)
    insertKeyValues u itemId (n + 1) kvs

def extensionPasswordCreate (scope : PasswordsScope) (input : PasswordInput) (u : Uuids) (now : String) : Db String := do
  unfailing (validateTagsInScope x input.tags scope)
  attempt e (insertItemRow u.item input now)
  upsertAndLinkTags e u u.item 0 input.tags
  insertKeyValues e u u.item 0 input.keyValues
  return u.item

/-- `extension_password_update`, from the scope on. -/
def extensionPasswordUpdate (scope : PasswordsScope) (itemId : String) (input : PasswordInput) (u : Uuids) (now : String) :
    Db Unit := do
  attempt e (ensureItemInScope itemId scope)
  unfailing (validateTagsInScope x input.tags scope)
  attempt e (updateItemRow itemId input now)
  attempt e (deleteItemTagLinks itemId)
  upsertAndLinkTags e u itemId 0 input.tags
  attempt e (deleteKeyValues itemId)
  insertKeyValues e u itemId 0 input.keyValues

end Failing

/-- The statements of `extension_password_create`. -/
def createStatements (input : PasswordInput) : Nat := 1 + 3 * input.tags.length + input.keyValues.length

/-- The statements of `extension_password_update`. -/
def updateStatements (input : PasswordInput) : Nat := 4 + 3 * input.tags.length + input.keyValues.length

variable {e : PasswordError} {x : Externals} {u : Uuids} {db : Tables} {itemId now : String} {input : PasswordInput}
  {scope : PasswordsScope} {k : Nat}

theorem upsertAndLinkTags_inSteps (e : PasswordError) (u : Uuids) (itemId : String) (n : Nat) (names : List String) :
    InSteps (3 * names.length) (Failing.upsertAndLinkTags e u itemId n names) (upsertAndLinkTags u itemId n names) := by
  induction names generalizing n with
  | nil => exact InSteps.pure ()
  | cons name names ih =>
    have hupsert : InSteps (1 + 1) (Failing.upsertTag e (u.tag n) name) (upsertTag (u.tag n) name) := by
      rw [upsertTag_eq]
      exact (InSteps.attempt e _).bind fun _ => InSteps.attempt e _
    have hround := hupsert.bind fun tagId => (InSteps.attempt e (linkTag (u.link n) itemId tagId)).bind fun _ => ih (n + 1)
    rw [show 3 * (name :: names).length = 1 + 1 + (1 + 3 * names.length) by rw [List.length_cons]; omega]
    exact hround

theorem insertKeyValues_inSteps (e : PasswordError) (u : Uuids) (itemId : String) (n : Nat)
    (kvs : List (Option String × Option String)) :
    InSteps kvs.length (Failing.insertKeyValues e u itemId n kvs) (insertKeyValues u itemId n kvs) := by
  induction kvs generalizing n with
  | nil => exact InSteps.pure ()
  | cons kv kvs ih =>
    rw [List.length_cons, Nat.add_comm]
    exact (InSteps.attempt e _).bind fun _ => ih (n + 1)

theorem create_inSteps (e : PasswordError) (x : Externals) (scope : PasswordsScope) (input : PasswordInput) (u : Uuids)
    (now : String) :
    InSteps (createStatements input) (Failing.extensionPasswordCreate e x scope input u now)
      (extensionPasswordCreate x scope input u now) := by
  have h := (InSteps.unfailing (validateTagsInScope x input.tags scope)).bind fun _ =>
    (InSteps.attempt e (insertItemRow u.item input now)).bind fun _ =>
      (upsertAndLinkTags_inSteps e u u.item 0 input.tags).bind fun _ =>
        (insertKeyValues_inSteps e u u.item 0 input.keyValues).bind fun _ => InSteps.pure u.item
  rw [show createStatements input = 0 + (1 + (3 * input.tags.length + (input.keyValues.length + 0))) by
    rw [createStatements]; omega]
  exact h

theorem update_inSteps (e : PasswordError) (x : Externals) (scope : PasswordsScope) (itemId : String) (input : PasswordInput)
    (u : Uuids) (now : String) :
    InSteps (updateStatements input) (Failing.extensionPasswordUpdate e x scope itemId input u now)
      (extensionPasswordUpdate x scope itemId input u now) := by
  have h := (InSteps.attempt e (ensureItemInScope itemId scope)).bind fun _ =>
    (InSteps.unfailing (validateTagsInScope x input.tags scope)).bind fun _ =>
      (InSteps.attempt e (updateItemRow itemId input now)).bind fun _ =>
        (InSteps.attempt e (deleteItemTagLinks itemId)).bind fun _ =>
          (upsertAndLinkTags_inSteps e u itemId 0 input.tags).bind fun _ =>
            (InSteps.attempt e (deleteKeyValues itemId)).bind fun _ =>
              insertKeyValues_inSteps e u itemId 0 input.keyValues
  rw [show updateStatements input = 1 + (0 + (1 + (1 + (3 * input.tags.length + (1 + input.keyValues.length))))) by
    rw [updateStatements]; omega]
  exact h

/-! ## What a command promises -/

structure Tables.Holds (db : Tables) (itemId : String) (input : PasswordInput) : Prop where
  fields : (db.items.filter (·.id = itemId)).map (·.fields) = [input.fields]
  tags : ∀ name, name ∈ db.tagNames itemId ↔ name ∈ input.tags
  keyValues : (db.keyValues.filter (·.itemId = itemId)).map (fun kv => (kv.key, kv.value)) = input.keyValues

/-- An error leaves the item's rows and the tags as they were, and success the input. -/
def AllOrNothing {α : Type} (itemId : String) (input : PasswordInput) (db : Tables) :
    Except PasswordError α × Tables × Nat → Prop
  | (.error _, after, _) => after.itemRows itemId = db.itemRows itemId ∧ after.tags = db.tags
  | (.ok _, after, _) => after.Holds itemId input

structure Tables.Keyed (db : Tables) : Prop where
  items : (db.items.map (·.id)).Nodup
  tags : (db.tags.map (·.id)).Nodup

structure Uuids.New (u : Uuids) (db : Tables) : Prop extends u.Fresh db where
  linkItem : ∀ l ∈ db.links, l.itemId ≠ u.item
  keyValueItem : ∀ kv ∈ db.keyValues, kv.itemId ≠ u.item
  tag : ∀ t ∈ db.tags, ∀ n, t.id ≠ u.tag n
  tags : u.tag.Injective
  keyValues : u.keyValue.Injective

/-- `validate_tags_in_scope` lets the tags pass. -/
def validTags (scope : PasswordsScope) (tags : List String) : Bool :=
  ! tags.isEmpty && match scope with
    | .all => true
    | .tags allowed => tags.any allowed.contains

def Tables.accepts (db : Tables) (scope : PasswordsScope) (itemId : String) (input : PasswordInput) : Bool :=
  !(db.selectItem scope itemId).isEmpty && validTags scope input.tags

def Tables.UpToDate (db : Tables) (itemId : String) (input : PasswordInput) (now : String) : Prop :=
  ∀ i ∈ db.items, i.id = itemId → i.fields = input.fields ∧ i.updatedAt = some now

/-- The statement at this index of an update may fail: those before it change nothing. They are the check of the scope, the
update of the row, the deletion of the links, and the two of `upsert_tag` for the first tag. -/
def Tables.Harmless (db : Tables) (itemId : String) (input : PasswordInput) (now : String) (k : Nat) : Prop :=
  k ≤ 1 ∨ (k ≤ 5 ∧ db.UpToDate itemId input now ∧ (3 ≤ k → ∀ l ∈ db.links, l.itemId ≠ itemId) ∧
    (4 ≤ k → ∀ name ∈ input.tags.head?, ∃ t ∈ db.tags, t.name = name))

/-! ## A command that succeeds -/

theorem exec_validate (x : Externals) (scope : PasswordsScope) (tags : List String) (db : Tables) :
    (validTags scope tags = true ∧ exec (validateTagsInScope x tags scope) db = (.ok (), db)) ∨
    (validTags scope tags = false ∧ ∃ e, exec (validateTagsInScope x tags scope) db = (.error e, db)) := by
  unfold validateTagsInScope validTags
  cases tags with
  | nil => exact .inr ⟨rfl, _, rfl⟩
  | cons tag tags =>
    cases scope with
    | all => exact .inl ⟨rfl, rfl⟩
    | tags allowed =>
      cases h : (tag :: tags).any allowed.contains with
      | true => exact .inl ⟨h, by simp [h]⟩
      | false => exact .inr ⟨h, _, by simp [h]; rfl⟩

theorem exec_ensureItem (scope : PasswordsScope) (itemId : String) (db : Tables) :
    ((db.selectItem scope itemId).isEmpty = false ∧ exec (ensureItemInScope itemId scope) db = (.ok (), db)) ∨
    ((db.selectItem scope itemId).isEmpty = true ∧ ∃ e, exec (ensureItemInScope itemId scope) db = (.error e, db)) := by
  cases h : (db.selectItem scope itemId).isEmpty with
  | true => exact .inr ⟨rfl, notFound itemId, by rw [ensureItemInScope, exec_get_bind, h]; rfl⟩
  | false => exact .inl ⟨rfl, by rw [ensureItemInScope, exec_get_bind, h]; rfl⟩

theorem mem_tagNames {name : String} : name ∈ db.tagNames itemId ↔ Linked itemId name db := by
  simp only [Tables.tagNames, Linked, List.mem_flatMap, List.mem_filter, List.mem_map, decide_eq_true_eq, and_assoc]

theorem exec_insertTag (db : Tables) {newId : String} (name : String) (hids : (db.tags.map (·.id)).Nodup)
    (hnew : ∀ t ∈ db.tags, t.id ≠ newId) :
    ∃ t tags, exec (insertTag newId name) db = (.ok (), { db with tags := tags }) ∧
      exec (selectTagId name) { db with tags := tags } = (.ok t.id, { db with tags := tags }) ∧ t ∈ tags ∧ t.name = name ∧
      db.tags ⊆ tags ∧ (tags.map (·.id)).Nodup ∧ ∀ t ∈ tags, t ∈ db.tags ∨ t.id = newId := by
  have hunused : (db.tags.any fun t => t.id = newId || t.name = name) = db.tags.any fun t => t.name = name := by
    refine Bool.eq_iff_iff.2 ?_
    simp only [List.any_eq_true, Bool.or_eq_true, decide_eq_true_eq]
    exact ⟨fun ⟨t, ht, h⟩ => ⟨t, ht, h.resolve_left (hnew t ht)⟩, fun ⟨t, ht, h⟩ => ⟨t, ht, .inr h⟩⟩
  cases hname : db.tags.any fun t => t.name = name with
  | true =>
    cases hfind : db.tags.find? fun t => t.name = name with
    | none =>
      obtain ⟨t, ht, h⟩ := List.any_eq_true.1 hname
      exact absurd h (List.find?_eq_none.1 hfind t ht)
    | some t =>
      refine ⟨t, db.tags, ?_, ?_, List.mem_of_find?_eq_some hfind, by simpa using List.find?_some hfind, List.Subset.refl _,
        hids, fun t ht => .inl ht⟩
      · rw [insertTag, exec_modify, hunused, hname]
        rfl
      · rw [selectTagId, exec_get_bind]
        simp only [hfind]
        rfl
  | false =>
    have hnone : db.tags.find? (fun t => t.name = name) = none := by
      refine List.find?_eq_none.2 fun t ht h => ?_
      exact Bool.eq_false_iff.1 hname (List.any_eq_true.2 ⟨t, ht, h⟩)
    refine ⟨⟨newId, name⟩, db.tags ++ [⟨newId, name⟩], ?_, ?_, by simp, rfl, List.subset_append_left _ _, ?_, ?_⟩
    · rw [insertTag, exec_modify, hunused, hname]
      rfl
    · rw [selectTagId, exec_get_bind]
      simp [List.find?_append, hnone]
    · rw [List.map_append]
      refine List.nodup_append.2 ⟨hids, List.nodup_singleton _, ?_⟩
      rintro _ hid _ hlast rfl
      obtain ⟨t, ht, rfl⟩ := List.mem_map.1 hid
      exact hnew t ht (List.mem_singleton.1 hlast)
    · intro t ht
      rcases List.mem_append.1 ht with hold | hlast
      · exact .inl hold
      · exact .inr (by rw [List.mem_singleton.1 hlast])

/-- What the loop over the tags needs: the item is there, and the ids from the index on are new. -/
structure Linking (u : Uuids) (itemId : String) (n : Nat) (db : Tables) : Prop where
  item : db.items.any (·.id = itemId) = true
  tagIds : (db.tags.map (·.id)).Nodup
  tags : ∀ t ∈ db.tags, ∀ m, n ≤ m → t.id ≠ u.tag m
  linkTags : ∀ l ∈ db.links, l.itemId = itemId → ∃ t ∈ db.tags, t.id = l.tagId
  links : LinksNew u n db

theorem exec_linkTag (db : Tables) {n : Nat} {t : Tag} (hinj : u.link.Injective) (hitem : db.items.any (·.id = itemId) = true)
    (hnew : LinksNew u n db) (ht : t ∈ db.tags) :
    ∃ links, exec (linkTag (u.link n) itemId t.id) db = (.ok (), { db with links := links }) ∧
      LinksNew u (n + 1) { db with links := links } ∧
      (∀ l ∈ links, l ∈ db.links ∨ l = ⟨u.link n, itemId, t.id⟩) ∧ db.links ⊆ links ∧
      ∃ l ∈ links, l.itemId = itemId ∧ l.tagId = t.id := by
  have htag : db.tags.any (·.id = t.id) = true := List.any_eq_true.2 ⟨t, ht, by simp⟩
  rw [linkTag, exec_get_bind]
  split
  · next hany =>
    obtain ⟨l, hl, hmatch⟩ := List.any_eq_true.1 hany
    simp only [Bool.or_eq_true, Bool.and_eq_true, decide_eq_true_eq] at hmatch
    exact ⟨db.links, rfl, fun l hl m hm => hnew l hl m (by omega), fun l hl => .inl hl, List.Subset.refl _, l, hl,
      hmatch.resolve_left (hnew l hl n le_rfl)⟩
  · refine ⟨db.links ++ [⟨u.link n, itemId, t.id⟩], by simp [hitem, htag], fun l hl m hm => ?_, fun l hl => ?_,
      List.subset_append_left _ _, _, List.mem_append_right _ List.mem_cons_self, rfl, rfl⟩
    · rcases List.mem_append.1 hl with hold | hlast
      · exact hnew l hold m (by omega)
      · rw [List.mem_singleton.1 hlast]
        exact fun heq => by have := hinj heq; omega
    · exact (List.mem_append.1 hl).imp_right List.mem_singleton.1

theorem exec_upsertAndLinkTag {n : Nat} (name : String) (htagInj : u.tag.Injective) (hlinkInj : u.link.Injective)
    (h : Linking u itemId n db) :
    ∃ tags links, exec (upsertTag (u.tag n) name >>= fun tagId => linkTag (u.link n) itemId tagId) db =
        (.ok (), { db with tags := tags, links := links }) ∧
      Linking u itemId (n + 1) { db with tags := tags, links := links } ∧
      ∀ other, Linked itemId other { db with tags := tags, links := links } ↔ Linked itemId other db ∨ other = name := by
  obtain ⟨t, tags, hinsert, hselect, ht, rfl, hkept, hids, htags⟩ :=
    exec_insertTag db name h.tagIds fun t ht => h.tags t ht n le_rfl
  obtain ⟨links, hlink, hnew, hadded, holds, l, hl, hlitem, hltag⟩ :=
    exec_linkTag { db with tags := tags } hlinkInj h.item h.links ht
  refine ⟨tags, links, ?_, ⟨h.item, hids, fun t ht m hm => ?_, fun l hl hlitem => ?_, hnew⟩, fun other => ?_⟩
  · rw [upsertTag_eq, exec_bind_ok ((exec_bind_ok hinsert).trans hselect)]
    exact hlink
  · rcases htags t ht with hold | hid
    · exact h.tags t hold m (by omega)
    · rw [hid]
      exact fun heq => by have := htagInj heq; omega
  · rcases hadded l hl with hold | rfl
    · obtain ⟨t, ht, hid⟩ := h.linkTags l hold hlitem
      exact ⟨t, hkept ht, hid⟩
    · exact ⟨t, ht, rfl⟩
  · constructor
    · rintro ⟨l, hl, hlitem, t', ht', hid, rfl⟩
      rcases hadded l hl with hold | rfl
      · obtain ⟨t'', ht'', hid''⟩ := h.linkTags l hold hlitem
        obtain rfl : t' = t'' := List.inj_on_of_nodup_map hids ht' (hkept ht'') (hid.trans hid''.symm)
        exact .inl ⟨l, hold, hlitem, t', ht'', hid, rfl⟩
      · exact .inr (by rw [List.inj_on_of_nodup_map hids ht' ht hid])
    · rintro (⟨l, hl, hlitem, t', ht', hid, hname⟩ | rfl)
      · exact ⟨l, holds hl, hlitem, t', hkept ht', hid, hname⟩
      · exact ⟨l, hl, hlitem, t, ht, hltag.symm, rfl⟩

theorem exec_upsertAndLinkTags {n : Nat} (names : List String) (htagInj : u.tag.Injective) (hlinkInj : u.link.Injective)
    (h : Linking u itemId n db) :
    ∃ tags links, exec (upsertAndLinkTags u itemId n names) db = (.ok (), { db with tags := tags, links := links }) ∧
      ∀ other, Linked itemId other { db with tags := tags, links := links } ↔ Linked itemId other db ∨ other ∈ names := by
  induction names generalizing n db with
  | nil => exact ⟨db.tags, db.links, rfl, fun other => by simp⟩
  | cons name names ih =>
    obtain ⟨tags, links, hround, hlinking, hlinked⟩ := exec_upsertAndLinkTag name htagInj hlinkInj h
    obtain ⟨tags', links', hrest, hlinked'⟩ := ih hlinking
    refine ⟨tags', links', ?_, fun other => ?_⟩
    · have hassoc : upsertAndLinkTags u itemId n (name :: names) =
          (upsertTag (u.tag n) name >>= fun tagId => linkTag (u.link n) itemId tagId) >>= fun _ =>
            upsertAndLinkTags u itemId (n + 1) names := (bind_assoc _ _ _).symm
      rw [hassoc, exec_bind_ok hround]
      exact hrest
    · rw [hlinked' other, hlinked other, List.mem_cons, or_assoc]

theorem exec_insertKeyValues (db : Tables) {n : Nat} (kvs : List (Option String × Option String)) (hinj : u.keyValue.Injective)
    (hitem : db.items.any (·.id = itemId) = true) (hnew : ∀ kv ∈ db.keyValues, ∀ m, n ≤ m → kv.id ≠ u.keyValue m) :
    ∃ added, exec (insertKeyValues u itemId n kvs) db = (.ok (), { db with keyValues := db.keyValues ++ added }) ∧
      (∀ kv ∈ added, kv.itemId = itemId) ∧ added.map (fun kv => (kv.key, kv.value)) = kvs := by
  induction kvs generalizing n db with
  | nil => exact ⟨[], by simp [insertKeyValues], List.forall_mem_nil _, rfl⟩
  | cons kv kvs ih =>
    have hfresh : db.keyValues.any (·.id = u.keyValue n) = false :=
      List.any_eq_false.2 fun kv hkv h => hnew kv hkv n le_rfl (of_decide_eq_true h)
    let db' : Tables := { db with keyValues := db.keyValues ++ [⟨u.keyValue n, itemId, kv.1, kv.2⟩] }
    have hinsert : exec (insertKeyValue (u.keyValue n) itemId kv) db = (.ok (), db') := by
      rw [insertKeyValue, exec_get_bind]
      simp [hfresh, hitem, db']
    have hnew' : ∀ kv ∈ db'.keyValues, ∀ m, n + 1 ≤ m → kv.id ≠ u.keyValue m := by
      intro kv hkv m hm
      rcases List.mem_append.1 hkv with hold | hlast
      · exact hnew kv hold m (by omega)
      · rw [List.mem_singleton.1 hlast]
        exact fun heq => by have := hinj heq; omega
    obtain ⟨added, hrest, hadded, hpairs⟩ := ih db' hitem hnew'
    refine ⟨⟨u.keyValue n, itemId, kv.1, kv.2⟩ :: added, ?_, List.forall_mem_cons.2 ⟨rfl, hadded⟩, ?_⟩
    · rw [insertKeyValues, exec_bind_ok hinsert, hrest]
      simp [db']
    · rw [List.map_cons, hpairs]

theorem filter_id {i : Item} (hids : (db.items.map (·.id)).Nodup) (hi : i ∈ db.items) :
    db.items.filter (fun i' => i'.id = i.id) = [i] := by
  have hnodup : (db.items.filter (fun i' => i'.id = i.id)).Nodup := (List.Nodup.of_map _ hids).filter _
  refine List.perm_singleton.1 ((List.perm_ext_iff_of_nodup hnodup (List.nodup_singleton i)).2 fun i' => ?_)
  rw [List.mem_filter, List.mem_singleton, decide_eq_true_eq]
  constructor
  · exact fun h => List.inj_on_of_nodup_map hids h.1 hi h.2
  · rintro rfl
    exact ⟨hi, rfl⟩

/-- The row that `update_item_row` leaves of each row. -/
def updatedRow (itemId : String) (input : PasswordInput) (now : String) (i : Item) : Item :=
  if i.id = itemId then { i with fields := input.fields, updatedAt := some now } else i

theorem filter_updatedRow (items : List Item) :
    (items.map (updatedRow itemId input now)).filter (·.id = itemId) =
      (items.filter (·.id = itemId)).map (updatedRow itemId input now) := by
  rw [List.filter_map]
  congr 1
  refine List.filter_congr fun i _ => ?_
  simp only [Function.comp, updatedRow]
  split <;> rfl

theorem any_updatedRow (items : List Item) (id : String) :
    (items.map (updatedRow itemId input now)).any (·.id = id) = items.any (·.id = id) := by
  rw [List.any_map]
  congr 1
  funext i
  simp only [Function.comp, updatedRow]
  split <;> rfl

theorem filter_filter_not {α : Type} (key : α → String) (l : List α) :
    (l.filter (¬ key · = itemId)).filter (key · = itemId) = [] := by
  rw [List.filter_filter, List.filter_eq_nil_iff]
  intro a _ h
  simp at h

theorem not_linked_of_links {name : String} (h : ∀ l ∈ db.links, l.itemId ≠ itemId) : ¬Linked itemId name db :=
  fun ⟨l, hl, hitem, _⟩ => h l hl hitem

/-- An update that no statement stops leaves the input. -/
theorem exec_update (x : Externals) (now : String) (hkeyed : db.Keyed) (hnew : u.New db)
    (hitem : (db.selectItem scope itemId).isEmpty = false) (hvalid : validTags scope input.tags = true) :
    ∃ db', exec (extensionPasswordUpdate x scope itemId input u now) db = (.ok (), db') ∧ db'.Holds itemId input := by
  obtain ⟨i, hi⟩ := List.exists_mem_of_ne_nil _ (List.isEmpty_eq_false_iff.1 hitem)
  obtain ⟨hmem, hmatch⟩ := List.mem_filter.1 hi
  obtain rfl : i.id = itemId := by
    rw [Bool.and_eq_true] at hmatch
    exact of_decide_eq_true hmatch.1
  have hensure := (exec_ensureItem scope i.id db).resolve_right fun h => by rw [hitem] at h; cases h.1
  have hvalidate := (exec_validate x scope input.tags db).resolve_right fun h => by rw [hvalid] at h; cases h.1
  let db₂ : Tables := { db with
    items := db.items.map (updatedRow i.id input now)
    links := db.links.filter (¬ ·.itemId = i.id) }
  have hany : db₂.items.any (·.id = i.id) = true := by
    rw [any_updatedRow]
    exact List.any_eq_true.2 ⟨i, hmem, by simp⟩
  have hlinking : Linking u i.id 0 db₂ :=
    ⟨hany, hkeyed.tags, fun t ht m _ => hnew.tag t ht m, fun l hl h => absurd h (by simpa using (List.mem_filter.1 hl).2),
      fun l hl m _ => hnew.link l (List.mem_of_mem_filter hl) m⟩
  obtain ⟨tags, links, htags, hlinked⟩ := exec_upsertAndLinkTags input.tags hnew.tags hnew.links hlinking
  let db₄ : Tables := { db₂ with
    tags := tags
    links := links
    keyValues := db.keyValues.filter (¬ ·.itemId = i.id) }
  obtain ⟨added, hkeyValues, hadded, hpairs⟩ := exec_insertKeyValues (n := 0) db₄ input.keyValues hnew.keyValues hany
    fun kv hkv m _ => hnew.keyValue kv (List.mem_of_mem_filter hkv) m
  refine ⟨{ db₄ with keyValues := db₄.keyValues ++ added }, ?_, ?_, fun name => ?_, ?_⟩
  · rw [extensionPasswordUpdate, exec_bind_ok hensure.2, exec_bind_ok hvalidate.2, updateItemRow, exec_bind_ok (exec_modify _ _),
      deleteItemTagLinks, exec_bind_ok (exec_modify _ _), exec_bind_ok (r := { db₂ with tags := tags, links := links }) htags,
      deleteKeyValues, exec_bind_ok (exec_modify _ _)]
    exact hkeyValues
  · change ((db.items.map (updatedRow i.id input now)).filter (·.id = i.id)).map (·.fields) = _
    rw [filter_updatedRow, filter_id hkeyed.items hmem]
    simp [updatedRow]
  · rw [mem_tagNames]
    refine (hlinked name).trans (or_iff_right (not_linked_of_links fun l hl => ?_))
    simpa using (List.mem_filter.1 hl).2
  · change ((db.keyValues.filter (¬ ·.itemId = i.id) ++ added).filter (·.itemId = i.id)).map _ = _
    rw [List.filter_append, filter_filter_not KeyValue.itemId, List.filter_eq_self.2 fun kv hkv => by simp [hadded kv hkv]]
    exact hpairs

theorem exec_create (x : Externals) (now : String) (hkeyed : db.Keyed) (hnew : u.New db) (hvalid : validTags scope input.tags = true) :
    ∃ db', exec (extensionPasswordCreate x scope input u now) db = (.ok u.item, db') ∧ db'.Holds u.item input := by
  have hvalidate := (exec_validate x scope input.tags db).resolve_right fun h => by rw [hvalid] at h; cases h.1
  have hother : ∀ i ∈ db.items, i.id ≠ u.item := fun i hi h =>
    Bool.eq_false_iff.1 hnew.item (List.any_eq_true.2 ⟨i, hi, by simp [h]⟩)
  let db₁ : Tables := { db with items := db.items ++ [⟨u.item, input.fields, some now, some now⟩] }
  have hany : db₁.items.any (·.id = u.item) = true := by simp [db₁]
  have hlinking : Linking u u.item 0 db₁ :=
    ⟨hany, hkeyed.tags, fun t ht m _ => hnew.tag t ht m, fun l hl h => absurd h (hnew.linkItem l hl),
      fun l hl m _ => hnew.link l hl m⟩
  obtain ⟨tags, links, htags, hlinked⟩ := exec_upsertAndLinkTags input.tags hnew.tags hnew.links hlinking
  let db₂ : Tables := { db₁ with tags := tags, links := links }
  obtain ⟨added, hkeyValues, hadded, hpairs⟩ := exec_insertKeyValues (n := 0) db₂ input.keyValues hnew.keyValues hany
    fun kv hkv m _ => hnew.keyValue kv hkv m
  refine ⟨{ db₂ with keyValues := db₂.keyValues ++ added }, ?_, ?_, fun name => ?_, ?_⟩
  · have hinsert : exec (insertItemRow u.item input now) db = (.ok (), db₁) := by
      rw [insertItemRow, exec_get_bind, if_neg (by rw [hnew.item]; exact Bool.false_ne_true)]
      rfl
    rw [extensionPasswordCreate, exec_bind_ok hvalidate.2, exec_bind_ok hinsert, exec_bind_ok htags,
      exec_bind_ok (r := { db₂ with keyValues := db₂.keyValues ++ added }) hkeyValues]
    rfl
  · change (db₁.items.filter (·.id = u.item)).map (·.fields) = _
    rw [List.filter_append, List.filter_eq_nil_iff.2 fun i hi => by simpa using hother i hi]
    simp
  · rw [mem_tagNames]
    exact (hlinked name).trans (or_iff_right (not_linked_of_links hnew.linkItem))
  · change ((db.keyValues ++ added).filter (·.itemId = u.item)).map _ = _
    rw [List.filter_append, List.filter_eq_nil_iff.2 fun kv hkv => by simpa using hnew.keyValueItem kv hkv,
      List.filter_eq_self.2 fun kv hkv => by simp [hadded kv hkv]]
    exact hpairs

/-! ## A command that fails -/

/-- The tables when the statement at the index of an update is about to run, up to the link of the first tag. -/
def Tables.before (db : Tables) (itemId : String) (input : PasswordInput) (u : Uuids) (now : String) : Nat → Tables
  | 0 | 1 => db
  | 2 => (exec (updateItemRow itemId input now) db).2
  | 3 => (exec (deleteItemTagLinks itemId) (exec (updateItemRow itemId input now) db).2).2
  | _ => (exec (insertTag (u.tag 0) (input.tags.headD ""))
      (exec (deleteItemTagLinks itemId) (exec (updateItemRow itemId input now) db).2).2).2

theorem accepts_iff : db.accepts scope itemId input = true ↔
    (db.selectItem scope itemId).isEmpty = false ∧ validTags scope input.tags = true := by
  simp [Tables.accepts]

theorem exec_failing_rejected (e : PasswordError) (x : Externals) (u : Uuids) (now : String) (k : Nat)
    (h : db.accepts scope itemId input = false) :
    ∃ e' j, exec (Failing.extensionPasswordUpdate e x scope itemId input u now) (db, k) = (.error e', db, j) := by
  cases k with
  | zero => exact ⟨e, 0, rfl⟩
  | succ k =>
    rw [Failing.extensionPasswordUpdate, exec_bind, exec_attempt_succ]
    rcases exec_ensureItem scope itemId db with ⟨hitem, hensure⟩ | ⟨-, e', hensure⟩
    · rw [hensure]
      dsimp only
      rw [exec_bind, exec_unfailing]
      rcases exec_validate x scope input.tags db with ⟨hvalid, -⟩ | ⟨-, e', hvalidate⟩
      · rw [accepts_iff.2 ⟨hitem, hvalid⟩] at h
        cases h
      · rw [hvalidate]
        exact ⟨e', k, rfl⟩
    · rw [hensure]
      exact ⟨e', k, rfl⟩

def Failing.updateRest (e : PasswordError) (itemId : String) (input : PasswordInput) (u : Uuids) (now : String) : Failing.Db Unit := do
  attempt e (updateItemRow itemId input now)
  attempt e (deleteItemTagLinks itemId)
  Failing.upsertAndLinkTags e u itemId 0 input.tags
  attempt e (deleteKeyValues itemId)
  Failing.insertKeyValues e u itemId 0 input.keyValues

theorem exec_failing_accepted (h : db.accepts scope itemId input = true) :
    exec (Failing.extensionPasswordUpdate e x scope itemId input u now) (db, k + 1) =
      exec (Failing.updateRest e itemId input u now) (db, k) := by
  obtain ⟨hitem, hvalid⟩ := accepts_iff.1 h
  have hensure := (exec_ensureItem scope itemId db).resolve_right fun h => by rw [hitem] at h; cases h.1
  have hvalidate := (exec_validate x scope input.tags db).resolve_right fun h => by rw [hvalid] at h; cases h.1
  rw [Failing.extensionPasswordUpdate, exec_bind, exec_attempt_succ, hensure.2]
  dsimp only
  rw [exec_bind, exec_unfailing, hvalidate.2]
  rfl

def Failing.updateTail (e : PasswordError) (itemId : String) (names : List String) (input : PasswordInput) (u : Uuids) :
    Failing.Db Unit := do
  Failing.upsertAndLinkTags e u itemId 1 names
  attempt e (deleteKeyValues itemId)
  Failing.insertKeyValues e u itemId 0 input.keyValues

theorem updateRest_cons {name : String} {names : List String} (htags : input.tags = name :: names) :
    Failing.updateRest e itemId input u now =
      (do
        attempt e (updateItemRow itemId input now)
        attempt e (deleteItemTagLinks itemId)
        attempt e (insertTag (u.tag 0) name)
        let tagId ← attempt e (selectTagId name)
        attempt e (linkTag (u.link 0) itemId tagId)
        Failing.updateTail e itemId names input u) := by
  simp only [Failing.updateRest, htags, Failing.upsertAndLinkTags, Failing.upsertTag, Failing.updateTail, bind_assoc, zero_add]

/-- An accepted update stops at a statement up to the link of the first tag, or goes on with that link made. -/
theorem exec_failing (e : PasswordError) (x : Externals) (now : String) (k : Nat) (hkeyed : db.Keyed) (hnew : u.New db)
    (h : db.accepts scope itemId input = true) :
    (k ≤ 5 → exec (Failing.extensionPasswordUpdate e x scope itemId input u now) (db, k) =
      (.error e, db.before itemId input u now k, 0)) ∧
    ∀ i, k = i + 6 → ∃ names db', (∃ l ∈ db'.links, l.itemId = itemId ∧ l.id = u.link 0) ∧
      exec (Failing.extensionPasswordUpdate e x scope itemId input u now) (db, k) =
        exec (Failing.updateTail e itemId names input u) (db', i) := by
  obtain ⟨hitem, hvalid⟩ := accepts_iff.1 h
  obtain ⟨name, names, htags⟩ : ∃ name names, input.tags = name :: names := by
    cases htags : input.tags with
    | nil =>
      rw [htags] at hvalid
      cases hvalid
    | cons name names => exact ⟨name, names, rfl⟩
  let db₁ := (exec (updateItemRow itemId input now) db).2
  let db₂ := (exec (deleteItemTagLinks itemId) db₁).2
  have hupdate : exec (updateItemRow itemId input now) db = (.ok (), db₁) := rfl
  have hdelete : exec (deleteItemTagLinks itemId) db₁ = (.ok (), db₂) := rfl
  obtain ⟨t, tags, hinsert, hselect, ht, -⟩ := exec_insertTag db₂ name hkeyed.tags fun t ht => hnew.tag t ht 0
  have hinserted : { db₂ with tags := tags } = (exec (insertTag (u.tag 0) (input.tags.headD "")) db₂).2 := by
    rw [htags]
    exact (congrArg Prod.snd hinsert).symm
  constructor
  · intro hk
    obtain rfl | ⟨i, hi, rfl⟩ : k = 0 ∨ ∃ i, i ≤ 4 ∧ k = i + 1 := by
      cases k with
      | zero => exact .inl rfl
      | succ i => exact .inr ⟨i, by omega, rfl⟩
    · rfl
    · rw [exec_failing_accepted h, updateRest_cons htags]
      obtain rfl | rfl | rfl | rfl | rfl : i = 0 ∨ i = 1 ∨ i = 2 ∨ i = 3 ∨ i = 4 := by omega
      · exact exec_attempt_bind_zero
      · rw [exec_attempt_bind_succ hupdate]
        exact exec_attempt_bind_zero
      · rw [exec_attempt_bind_succ hupdate, exec_attempt_bind_succ hdelete]
        exact exec_attempt_bind_zero
      · rw [exec_attempt_bind_succ hupdate, exec_attempt_bind_succ hdelete, exec_attempt_bind_succ hinsert, hinserted]
        exact exec_attempt_bind_zero
      · rw [exec_attempt_bind_succ hupdate, exec_attempt_bind_succ hdelete, exec_attempt_bind_succ hinsert,
          exec_attempt_bind_succ hselect, hinserted]
        exact exec_attempt_bind_zero
  · rintro i rfl
    have hrow : db.items.any (·.id = itemId) = true := by
      obtain ⟨row, hmem⟩ := List.exists_mem_of_ne_nil _ (List.isEmpty_eq_false_iff.1 hitem)
      obtain ⟨hmem, hmatch⟩ := List.mem_filter.1 hmem
      rw [Bool.and_eq_true] at hmatch
      exact List.any_eq_true.2 ⟨row, hmem, hmatch.1⟩
    obtain ⟨links, hlink, -, hadded, -, l, hl, hlitem, -⟩ :=
      exec_linkTag (n := 0) { db₂ with tags := tags } hnew.links
        ((any_updatedRow db.items itemId).trans hrow) (fun l hl m _ => hnew.link l (List.mem_of_mem_filter hl) m) ht
    refine ⟨names, { db₂ with tags := tags, links := links }, ⟨l, hl, hlitem, ?_⟩, ?_⟩
    · rcases hadded l hl with hold | rfl
      · exact absurd hlitem (by simpa using (List.mem_filter.1 hold).2)
      · rfl
    · rw [exec_failing_accepted h, updateRest_cons htags, exec_attempt_bind_succ hupdate, exec_attempt_bind_succ hdelete,
        exec_attempt_bind_succ hinsert, exec_attempt_bind_succ hselect, exec_attempt_bind_succ hlink]

def Adds (db db' : Tables) : Prop := db'.items = db.items ∧ db.links ⊆ db'.links

instance : Std.Refl Adds := ⟨fun _ => ⟨rfl, List.Subset.refl _⟩⟩

instance : IsTrans Tables Adds := ⟨fun _ _ _ h h' => ⟨h'.1.trans h.1, List.Subset.trans h.2 h'.2⟩⟩

theorem insertTag_adds {newId name : String} : Keeps Adds (insertTag newId name) := by
  refine Keeps.modify fun db => ?_
  split <;> exact ⟨rfl, List.Subset.refl _⟩

theorem selectTagId_adds {name : String} : Keeps Adds (selectTagId name) := by
  refine Keeps.get_bind fun db => ?_
  split
  · exact Keeps.pure _
  · exact Keeps.throw _

theorem linkTag_adds {linkId tagId : String} : Keeps Adds (linkTag linkId itemId tagId) := by
  refine Keeps.get_bind fun db => ?_
  split
  · exact Keeps.pure _
  · split
    · exact Keeps.modify fun db => ⟨rfl, List.subset_append_left _ _⟩
    · exact Keeps.throw _

theorem insertKeyValue_adds {newId : String} {kv : Option String × Option String} : Keeps Adds (insertKeyValue newId itemId kv) := by
  refine Keeps.get_bind fun db => ?_
  split
  · exact Keeps.throw _
  · split
    · exact Keeps.modify fun db => ⟨rfl, List.Subset.refl _⟩
    · exact Keeps.throw _

theorem deleteKeyValues_adds : Keeps Adds (deleteKeyValues itemId) := Keeps.modify fun _ => ⟨rfl, List.Subset.refl _⟩

theorem upsertAndLinkTags_adds (n : Nat) (names : List String) :
    Keeps (OnState Adds) (Failing.upsertAndLinkTags e u itemId n names) := by
  induction names generalizing n with
  | nil => exact Keeps.pure _
  | cons name names ih =>
    exact ((insertTag_adds.attempt e).bind fun _ => selectTagId_adds.attempt e).bind fun _ =>
      (linkTag_adds.attempt e).bind fun _ => ih (n + 1)

theorem insertKeyValues_adds (n : Nat) (kvs : List (Option String × Option String)) :
    Keeps (OnState Adds) (Failing.insertKeyValues e u itemId n kvs) := by
  induction kvs generalizing n with
  | nil => exact Keeps.pure _
  | cons kv kvs ih => exact (insertKeyValue_adds.attempt e).bind fun _ => ih (n + 1)

theorem updateTail_adds (names : List String) : Keeps (OnState Adds) (Failing.updateTail e itemId names input u) :=
  (upsertAndLinkTags_adds 1 names).bind fun _ => (deleteKeyValues_adds.attempt e).bind fun _ => insertKeyValues_adds 0 _

/-! ## Which failures do no harm -/

theorem updatedRow_eq_iff {i : Item} (h : i.id = itemId) :
    updatedRow itemId input now i = i ↔ i.fields = input.fields ∧ i.updatedAt = some now := by
  rw [updatedRow, if_pos h]
  cases i
  simp only [Item.mk.injEq, true_and]
  exact and_congr eq_comm eq_comm

theorem filter_updatedRow_eq_iff :
    (db.items.map (updatedRow itemId input now)).filter (·.id = itemId) = db.items.filter (·.id = itemId) ↔
      db.UpToDate itemId input now := by
  rw [filter_updatedRow]
  constructor
  · intro h i hi hid
    have hmem : i ∈ db.items.filter (·.id = itemId) := List.mem_filter.2 ⟨hi, decide_eq_true hid⟩
    exact (updatedRow_eq_iff hid).1 (List.map_inj_left.1 (h.trans (List.map_id _).symm) i hmem)
  · intro h
    refine (List.map_congr_left fun i hi => ?_).trans (List.map_id _)
    obtain ⟨hi, hid⟩ := List.mem_filter.1 hi
    exact (updatedRow_eq_iff (of_decide_eq_true hid)).2 (h i hi (of_decide_eq_true hid))

theorem filter_links_eq_nil_iff : [] = db.links.filter (·.itemId = itemId) ↔ ∀ l ∈ db.links, l.itemId ≠ itemId := by
  rw [eq_comm, List.filter_eq_nil_iff]
  simp only [decide_eq_true_eq, ne_eq]

theorem insertTag_tags_eq_iff (db : Tables) {newId : String} (name : String) (hnew : ∀ t ∈ db.tags, t.id ≠ newId) :
    (exec (insertTag newId name) db).2.tags = db.tags ↔ ∃ t ∈ db.tags, t.name = name := by
  rw [insertTag, exec_modify]
  dsimp only
  split
  · next h =>
    obtain ⟨t, ht, hmatch⟩ := List.any_eq_true.1 h
    simp only [Bool.or_eq_true, decide_eq_true_eq] at hmatch
    exact iff_of_true rfl ⟨t, ht, hmatch.resolve_left (hnew t ht)⟩
  · next h =>
    refine iff_of_false (fun heq => ?_) fun ⟨t, ht, hname⟩ => h (List.any_eq_true.2 ⟨t, ht, by simp [hname]⟩)
    have := congrArg List.length heq
    simp at this

theorem insertTag_itemRows {newId name : String} : (exec (insertTag newId name) db).2.itemRows itemId = db.itemRows itemId := by
  rw [insertTag, exec_modify]
  dsimp only
  split <;> rfl

theorem updated_itemRows :
    (exec (updateItemRow itemId input now) db).2.itemRows itemId = db.itemRows itemId ↔ db.UpToDate itemId input now := by
  rw [← filter_updatedRow_eq_iff, Tables.itemRows, Tables.itemRows, Prod.mk.injEq]
  exact and_iff_left rfl

theorem unlinked_itemRows :
    (exec (deleteItemTagLinks itemId) (exec (updateItemRow itemId input now) db).2).2.itemRows itemId = db.itemRows itemId ↔
      db.UpToDate itemId input now ∧ ∀ l ∈ db.links, l.itemId ≠ itemId := by
  rw [← filter_updatedRow_eq_iff, ← filter_links_eq_nil_iff, Tables.itemRows, Tables.itemRows, Prod.mk.injEq, Prod.mk.injEq]
  have hlinks : (db.links.filter (¬ ·.itemId = itemId)).filter (·.itemId = itemId) = [] := filter_filter_not ItemTag.itemId _
  refine and_congr_right' ((and_iff_left rfl).trans ?_)
  exact iff_of_eq (congrArg (· = _) hlinks)

theorem before_iff (hnew : u.New db) (hvalid : validTags scope input.tags = true) (hk : k ≤ 5) :
    ((db.before itemId input u now k).itemRows itemId = db.itemRows itemId ∧ (db.before itemId input u now k).tags = db.tags) ↔
      db.Harmless itemId input now k := by
  obtain ⟨name, hname⟩ : ∃ name, input.tags.head? = some name := by
    cases htags : input.tags with
    | nil =>
      rw [htags] at hvalid
      cases hvalid
    | cons name names => exact ⟨name, rfl⟩
  have hheadD : input.tags.headD "" = name := by rw [List.headD_eq_head?_getD, hname, Option.getD_some]
  simp only [Tables.Harmless, hname, Option.mem_some_iff, forall_eq']
  obtain hk | rfl | rfl | hk' : k ≤ 1 ∨ k = 2 ∨ k = 3 ∨ 4 ≤ k := by omega
  · have hbefore : db.before itemId input u now k = db := by
      obtain rfl | rfl : k = 0 ∨ k = 1 := by omega
      all_goals rfl
    rw [hbefore]
    exact iff_of_true ⟨rfl, rfl⟩ (.inl hk)
  · refine (and_iff_left rfl).trans (updated_itemRows.trans ?_)
    simp
  · refine (and_iff_left rfl).trans (unlinked_itemRows.trans ?_)
    simp
  · have hbefore : db.before itemId input u now k = (exec (insertTag (u.tag 0) name)
        (exec (deleteItemTagLinks itemId) (exec (updateItemRow itemId input now) db).2).2).2 := by
      obtain rfl | rfl : k = 4 ∨ k = 5 := by omega
      all_goals exact congrArg (fun name => (exec (insertTag (u.tag 0) name) _).2) hheadD
    have htags := insertTag_tags_eq_iff (exec (deleteItemTagLinks itemId) (exec (updateItemRow itemId input now) db).2).2 name
      fun t ht => hnew.tag t ht 0
    rw [hbefore, insertTag_itemRows]
    refine (and_congr unlinked_itemRows htags).trans ?_
    rw [and_assoc]
    exact ⟨fun h => .inr ⟨hk, h.1, fun _ => h.2.1, fun _ => h.2.2⟩,
      fun h => h.elim (by omega) fun h => ⟨h.2.1, h.2.2.1 (by omega), h.2.2.2 hk'⟩⟩

theorem not_allOrNothing {α : Type} {r : Except PasswordError α × Tables × Nat} {e' : PasswordError} (herror : r.1 = .error e')
    (h : r.2.1.itemRows itemId ≠ db.itemRows itemId) : ¬AllOrNothing itemId input db r := by
  obtain ⟨_, after, j⟩ := r
  subst herror
  exact fun hsame => h hsame.1

theorem exec_failing_create (hnew : u.New db) (hvalid : validTags scope input.tags = true) (hk : k + 1 < createStatements input) :
    ¬AllOrNothing u.item input db (exec (Failing.extensionPasswordCreate e x scope input u now) (db, k + 1)) := by
  obtain ⟨e', herror⟩ := (create_inSteps e x scope input u now).short db _ hk
  refine not_allOrNothing herror fun hsame => ?_
  have hvalidate := (exec_validate x scope input.tags db).resolve_right fun h => by rw [hvalid] at h; cases h.1
  let db₁ : Tables := { db with items := db.items ++ [⟨u.item, input.fields, some now, some now⟩] }
  have hinsert : exec (insertItemRow u.item input now) db = (.ok (), db₁) := by
    rw [insertItemRow, exec_get_bind, if_neg (by rw [hnew.item]; exact Bool.false_ne_true)]
    rfl
  have hrest : Keeps (OnState Adds) (do
      Failing.upsertAndLinkTags e u u.item 0 input.tags
      Failing.insertKeyValues e u u.item 0 input.keyValues
      return u.item) :=
    (upsertAndLinkTags_adds 0 _).bind fun _ => (insertKeyValues_adds 0 _).bind fun _ => Keeps.pure _
  have hadds := (hrest (db₁, k)).1
  rw [Failing.extensionPasswordCreate, exec_bind, exec_unfailing, hvalidate.2] at hsame
  dsimp only at hsame
  rw [exec_attempt_bind_succ hinsert, Tables.itemRows, hadds] at hsame
  have hrow : (⟨u.item, input.fields, some now, some now⟩ : Item) ∈ db.items.filter (·.id = u.item) := by
    rw [← (Prod.mk.inj hsame).1]
    simp [db₁]
  exact Bool.eq_false_iff.1 hnew.item (List.any_eq_true.2 ⟨_, List.mem_of_mem_filter hrow, by simp⟩)

/-- For every statement that may fail: an update leaves all or nothing exactly if it is not accepted, has no statement left to
fail, or fails at a harmless one; a create exactly if the tags are refused, none is left, or the first one fails. -/
theorem password_write_all_or_nothing_iff (e : PasswordError) (x : Externals) (scope : PasswordsScope) (itemId : String)
    (input : PasswordInput) (u : Uuids) (now : String) (db : Tables) (k : Nat) (hkeyed : db.Keyed) (hnew : u.New db) :
    (AllOrNothing itemId input db (exec (Failing.extensionPasswordUpdate e x scope itemId input u now) (db, k)) ↔
      db.accepts scope itemId input = false ∨ updateStatements input ≤ k ∨ db.Harmless itemId input now k) ∧
    (AllOrNothing u.item input db (exec (Failing.extensionPasswordCreate e x scope input u now) (db, k)) ↔
      validTags scope input.tags = false ∨ createStatements input ≤ k ∨ k = 0) := by
  constructor
  · cases haccepts : db.accepts scope itemId input with
    | false =>
      obtain ⟨e', j, hrun⟩ := exec_failing_rejected e x u now k haccepts
      rw [hrun]
      exact iff_of_true ⟨rfl, rfl⟩ (.inl rfl)
    | true =>
      obtain ⟨hitem, hvalid⟩ := accepts_iff.1 haccepts
      rw [or_iff_right Bool.noConfusion]
      by_cases hk : updateStatements input ≤ k
      · obtain ⟨db', hrun, hholds⟩ := exec_update x now hkeyed hnew hitem hvalid
        obtain ⟨i, rfl⟩ := Nat.exists_eq_add_of_le hk
        obtain ⟨j, hsteps, -⟩ := (update_inSteps e x scope itemId input u now).enough db i
        rw [hsteps, hrun]
        exact iff_of_true hholds (.inl hk)
      · rw [or_iff_right hk]
        obtain ⟨hearly, hlate⟩ := exec_failing e x now k hkeyed hnew haccepts
        by_cases hk5 : k ≤ 5
        · rw [hearly hk5]
          exact before_iff hnew hvalid hk5
        · obtain ⟨i, rfl⟩ : ∃ i, k = i + 6 := ⟨k - 6, by omega⟩
          obtain ⟨names, db', ⟨l, hl, hlitem, hlid⟩, hrun⟩ := hlate i rfl
          obtain ⟨e', herror⟩ := (update_inSteps e x scope itemId input u now).short db _
            (Nat.lt_of_not_le hk)
          have hadds : db'.links ⊆ (exec (Failing.updateTail e itemId names input u) (db', i)).2.1.links :=
            (updateTail_adds names (db', i)).2
          rw [hrun] at herror ⊢
          refine iff_of_false (not_allOrNothing herror fun hsame => ?_) ?_
          · have hlink : l ∈ db.links.filter (·.itemId = itemId) := by
              rw [← (Prod.mk.inj (Prod.mk.inj hsame).2).1]
              exact List.mem_filter.2 ⟨hadds hl, decide_eq_true hlitem⟩
            exact hnew.link l (List.mem_of_mem_filter hlink) 0 hlid
          · rintro (h | ⟨h, -⟩) <;> omega
  · cases hvalid : validTags scope input.tags with
    | false =>
      obtain ⟨-, e', hvalidate⟩ := (exec_validate x scope input.tags db).resolve_left fun h => by
        rw [hvalid] at h; cases h.1
      rw [Failing.extensionPasswordCreate, exec_bind, exec_unfailing, hvalidate]
      exact iff_of_true ⟨rfl, rfl⟩ (.inl rfl)
    | true =>
      have hvalidate := (exec_validate x scope input.tags db).resolve_right fun h => by rw [hvalid] at h; cases h.1
      rw [or_iff_right Bool.noConfusion]
      by_cases hk : createStatements input ≤ k
      · obtain ⟨db', hrun, hholds⟩ := exec_create x now hkeyed hnew hvalid
        obtain ⟨i, rfl⟩ := Nat.exists_eq_add_of_le hk
        obtain ⟨j, hsteps, -⟩ := (create_inSteps e x scope input u now).enough db i
        rw [hsteps, hrun]
        exact iff_of_true hholds (.inl hk)
      · rw [or_iff_right hk]
        cases k with
        | zero =>
          rw [Failing.extensionPasswordCreate, exec_bind, exec_unfailing, hvalidate.2]
          exact iff_of_true ⟨rfl, rfl⟩ rfl
        | succ k => exact iff_of_false (exec_failing_create hnew hvalid (Nat.lt_of_not_le hk)) (Nat.succ_ne_zero k)

def pinTables : Tables where
  items := [⟨"s", { title := some "bank" }, none, some "1"⟩]
  tags := [⟨"h", "home"⟩]
  links := [⟨"0", "s", "h"⟩]
  keyValues := [⟨"k", "s", some "pin", some "1234"⟩]

def pinInput : PasswordInput := ⟨{ title := some "bank" }, ["home"], [(some "pin", some "1234")]⟩

theorem uuidsOf_injective {c : Char} : (uuidsOf c).link.Injective :=
  have h : (uuidsOf c).Fresh {} := uuidsOf_fresh rfl (List.forall_mem_nil _) (List.forall_mem_nil _)
  h.links

theorem pinTables_keyed : pinTables.Keyed := ⟨by decide, by decide⟩

theorem uuidsOf_new : (uuidsOf 'b').New pinTables where
  toFresh := uuidsOf_fresh (by decide) (by decide) (by decide)
  linkItem := by decide
  keyValueItem := by decide
  tag t ht n h := by
    have hhead : ∀ t ∈ pinTables.tags, t.id.toList.head? ≠ some 'b' := by decide
    exact hhead t ht (by simp [h, uuidsOf])
  tags := uuidsOf_injective
  keyValues := uuidsOf_injective

theorem password_write_all_or_nothing_pin :
    (AllOrNothing "s" pinInput pinTables (exec (Failing.extensionPasswordUpdate (.database "disk I/O error") mailExternals .all
        "s" pinInput (uuidsOf 'b') "1") (pinTables, 8)) ↔
      pinTables.accepts .all "s" pinInput = false ∨ updateStatements pinInput ≤ 8 ∨ pinTables.Harmless "s" pinInput "1" 8) ∧
    updateStatements pinInput = 8 :=
  ⟨(password_write_all_or_nothing_iff _ _ _ _ _ _ _ _ _ pinTables_keyed uuidsOf_new).1, rfl⟩

/-- The last statement of the update fails: the PIN is gone. -/
theorem update_loses_pin :
    pinTables.accepts .all "s" pinInput = true ∧
    ¬AllOrNothing "s" pinInput pinTables (exec (Failing.extensionPasswordUpdate (.database "disk I/O error") mailExternals .all
      "s" pinInput (uuidsOf 'b') "1") (pinTables, 7)) ∧
    (exec (Failing.extensionPasswordUpdate (.database "disk I/O error") mailExternals .all "s" pinInput (uuidsOf 'b') "1")
      (pinTables, 7)).2.1.keyValues = [] := by
  refine ⟨by decide, not_allOrNothing (rfl : _ = Except.error (PasswordError.database "disk I/O error")) fun hsame => ?_, rfl⟩
  exact absurd (congrArg (·.2.2) hsame) (by decide)

end HaexVault.Passwords
