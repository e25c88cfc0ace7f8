import HaexVault.Passwords.Commands
import HaexVault.Lib.Runs
/-!
# Extensions stay inside their password tags

For an extension whose permissions yield a set of tags, in every run of its commands: a command
returns and touches only items that carry one of the tags, what it writes carries one afterwards, and
its answer does not depend on the other items (`stays_in_tags`).
-/

namespace HaexVault.Passwords

open Lib Lib.Fallible Lib.Runs Extension Extension.PermissionManager Extension.PermissionManager.Permissions

/-! ## What an extension sees -/

def Tables.without (db : Tables) (hidden : String → Bool) : Tables where
  items := db.items.filter (! hidden ·.id)
  tags := db.tags
  links := db.links.filter (! hidden ·.itemId)
  keyValues := db.keyValues.filter (! hidden ·.itemId)

def Tables.hides (db : Tables) (allowed : List String) (itemId : String) : Bool :=
  db.items.any (·.id = itemId) && !db.inScope allowed itemId

def Tables.visible (db : Tables) (allowed : List String) : Tables := db.without (db.hides allowed)

def Tables.itemRows (db : Tables) (itemId : String) : List Item × List ItemTag × List KeyValue :=
  (db.items.filter (·.id = itemId), db.links.filter (·.itemId = itemId), db.keyValues.filter (·.itemId = itemId))

/-- The items whose fields an answer has. -/
def Answer.items : Answer → List String
  | .listed items => items.map (·.id)
  | .full item => [item.id]
  | .created _ | .done => []

def Call.written : Call → Option String
  | .create _ u _ => some u.item
  | .update itemId _ _ _ => some itemId
  | .list | .read _ | .delete _ => none

structure Uuids.Fresh (u : Uuids) (db : Tables) : Prop where
  item : db.items.any (·.id = u.item) = false
  link : ∀ l ∈ db.links, ∀ n, l.id ≠ u.link n
  keyValue : ∀ kv ∈ db.keyValues, ∀ n, kv.id ≠ u.keyValue n
  links : u.link.Injective

def Call.Fresh (db : Tables) : Call → Prop
  | .create _ u _ | .update _ _ u _ => u.Fresh db
  | .list | .read _ | .delete _ => True

/-- A command of an extension whose scope is these tags. -/
structure StaysInside (m : Db Answer) (call : Call) (allowed : List String) (db : Tables) : Prop where
  returned : ∀ a, (exec m db).1 = .ok a → ∀ id ∈ a.items, db.inScope allowed id = true
  untouched : ∀ id, db.hides allowed id = true → (exec m db).2.itemRows id = db.itemRows id
  tagged : ∀ a, (exec m db).1 = .ok a → ∀ id, call.written = some id → (exec m db).2.inScope allowed id = true
  unseen : exec m (db.visible allowed) = ((exec m db).1, (exec m db).2.without (db.hides allowed))

/-! ## Items that are not hidden -/

variable {x : Externals} {db t : Tables} {allowed : List String} {hidden : String → Bool} {itemId : String} {u : Uuids}

theorem filter_without {α : Type} {l : List α} (key : α → String) (h : hidden itemId = false) :
    (l.filter fun a => ! hidden (key a)).filter (fun a => key a = itemId) = l.filter fun a => key a = itemId := by
  rw [List.filter_filter]
  refine List.filter_congr fun a _ => ?_
  by_cases ha : key a = itemId
  · simp [ha, h]
  · simp [ha]

theorem any_without {α : Type} {l : List α} (key : α → String) {q : α → Bool} (h : hidden itemId = false) :
    ((l.filter fun a => ! hidden (key a)).any fun a => key a = itemId && q a) = l.any fun a => key a = itemId && q a := by
  rw [← List.any_filter, filter_without key h, List.any_filter]

theorem hasItem_without (h : hidden itemId = false) :
    (db.without hidden).items.any (·.id = itemId) = db.items.any (·.id = itemId) := by
  simpa [Tables.without] using any_without Item.id (q := fun _ => true) h (l := db.items)

theorem inScope_without (h : hidden itemId = false) :
    (db.without hidden).inScope allowed itemId = db.inScope allowed itemId :=
  any_without ItemTag.itemId h

theorem tagNames_without (h : hidden itemId = false) : (db.without hidden).tagNames itemId = db.tagNames itemId := by
  simp only [Tables.tagNames, Tables.without]
  rw [filter_without ItemTag.itemId h]

theorem itemKeyValues_without (h : hidden itemId = false) :
    (db.without hidden).itemKeyValues itemId = db.itemKeyValues itemId := by
  simp only [Tables.itemKeyValues, Tables.without]
  rw [filter_without KeyValue.itemId h]

theorem hides_of_inScope (h : db.inScope allowed itemId = true) : db.hides allowed itemId = false := by
  simp [Tables.hides, h]

theorem hides_of_new (h : db.items.any (·.id = itemId) = false) : db.hides allowed itemId = false := by
  simp [Tables.hides, h]

theorem inScope_of_hides (h : db.hides allowed itemId = true) : db.inScope allowed itemId = false := by
  rw [Tables.hides, Bool.and_eq_true] at h
  simpa using h.2

theorem inScope_of_without (h : (db.without hidden).inScope allowed itemId = true) : db.inScope allowed itemId = true := by
  obtain ⟨l, hl, hmatch⟩ := List.any_eq_true.1 h
  exact List.any_eq_true.2 ⟨l, List.mem_of_mem_filter hl, hmatch⟩

theorem inScope_visible (db : Tables) (allowed : List String) (itemId : String) :
    (db.visible allowed).inScope allowed itemId = db.inScope allowed itemId := by
  cases h : db.hides allowed itemId with
  | false => exact inScope_without h
  | true =>
    rw [inScope_of_hides h]
    refine Bool.eq_false_iff.2 fun hvisible => ?_
    exact Bool.eq_false_iff.1 (inScope_of_hides h) (inScope_of_without hvisible)

/-! ## Reading -/

theorem items_visible (db : Tables) (allowed : List String) :
    (db.visible allowed).items.filter (db.inScope allowed ·.id) = db.items.filter (db.inScope allowed ·.id) := by
  simp only [Tables.visible, Tables.without, List.filter_filter]
  refine List.filter_congr fun i _ => ?_
  cases h : db.inScope allowed i.id with
  | false => rfl
  | true => simp [hides_of_inScope h]

theorem selectItem_visible (db : Tables) (allowed : List String) (itemId : String) :
    (db.visible allowed).selectItem (.tags allowed) itemId = db.selectItem (.tags allowed) itemId := by
  simp only [Tables.selectItem, Tables.admits, inScope_visible]
  cases h : db.inScope allowed itemId with
  | false => simp
  | true =>
    simp only [Bool.and_true]
    exact filter_without Item.id (hides_of_inScope h)

theorem inScope_of_selectItem {i : Item} (h : i ∈ db.selectItem (.tags allowed) itemId) :
    i.id = itemId ∧ db.inScope allowed itemId = true := by
  simpa [Tables.admits] using (List.mem_filter.1 h).2

theorem summary_without {i : Item} (h : hidden i.id = false) : (db.without hidden).summary i = db.summary i := by
  simp only [Tables.summary, tagNames_without h]

theorem exec_list (db : Tables) :
    exec (Call.list.within x (.tags allowed)) db =
      (.ok (.listed ((db.items.filter (db.inScope allowed ·.id)).map db.summary)), db) := rfl

theorem exec_read (db : Tables) (itemId : String) :
    exec ((Call.read itemId).within x (.tags allowed)) db = match db.selectItem (.tags allowed) itemId with
      | [] => (.error (notFound itemId), db)
      | i :: _ => (.ok (.full ⟨i.id, i.fields.nonEmpty, db.tagNames itemId, db.itemKeyValues itemId, nonEmpty i.createdAt,
        nonEmpty i.updatedAt⟩), db) := by
  simp only [Call.within, extensionPasswordRead, exec_bind, exec_get]
  cases db.selectItem (.tags allowed) itemId <;> rfl

theorem list_stays (db : Tables) : StaysInside (Call.list.within x (.tags allowed)) .list allowed db where
  returned := by
    intro a ha id hid
    rw [exec_list] at ha
    cases ha
    simp only [Answer.items, List.map_map, List.mem_map] at hid
    obtain ⟨i, hi, rfl⟩ := hid
    exact (List.mem_filter.1 hi).2
  untouched := fun _ _ => rfl
  tagged := fun _ _ _ h => nomatch h
  unseen := by
    simp only [exec_list, inScope_visible, items_visible]
    congr 3
    refine List.map_congr_left fun i hi => ?_
    exact summary_without (hides_of_inScope (List.mem_filter.1 hi).2)

theorem read_stays (db : Tables) (itemId : String) :
    StaysInside ((Call.read itemId).within x (.tags allowed)) (.read itemId) allowed db where
  returned := by
    intro a ha id hid
    rw [exec_read] at ha
    rcases hsel : db.selectItem (.tags allowed) itemId with _ | ⟨i, is⟩ <;> rw [hsel] at ha <;> cases ha
    obtain ⟨hi, hscope⟩ := inScope_of_selectItem (hsel ▸ List.mem_cons_self)
    simp only [Answer.items, List.mem_singleton] at hid
    rw [hid, hi, hscope]
  untouched := by
    intro id _
    rw [exec_read]
    split <;> rfl
  tagged := fun _ _ _ h => nomatch h
  unseen := by
    rw [exec_read, exec_read, selectItem_visible]
    rcases hsel : db.selectItem (.tags allowed) itemId with _ | ⟨i, is⟩
    · rfl
    · have hseen := hides_of_inScope (inScope_of_selectItem (hsel ▸ List.mem_cons_self)).2
      simp only [Tables.visible, tagNames_without hseen, itemKeyValues_without hseen]

/-! ## Writing beside hidden items -/

/-- The same tables with and without the hidden items, none of which has an id that a call makes. -/
structure Beside (hidden : String → Bool) (u : Uuids) (db t : Tables) : Prop where
  eq : t = db.without hidden
  link : ∀ l ∈ db.links, hidden l.itemId = true → ∀ n, l.id ≠ u.link n
  keyValue : ∀ kv ∈ db.keyValues, hidden kv.itemId = true → ∀ n, kv.id ≠ u.keyValue n

theorem alike_modify {f : Tables → Tables} (hf : ∀ db, (f db).without hidden = f (db.without hidden))
    (hlinks : ∀ db, ∀ l ∈ (f db).links, hidden l.itemId = true → l ∈ db.links)
    (hkvs : ∀ db, ∀ kv ∈ (f db).keyValues, hidden kv.itemId = true → kv ∈ db.keyValues) :
    Alike (Beside hidden u) (modify f : Db Unit) := by
  rintro db t ⟨rfl, hl, hkv⟩
  simp only [exec_modify]
  exact ⟨trivial, (hf db).symm, fun l h hh => hl l (hlinks db l h hh) hh, fun kv h hh => hkv kv (hkvs db kv h hh) hh⟩

theorem insertItemRow_alike {input : PasswordInput} {now : String} (hseen : hidden itemId = false) :
    Alike (Beside hidden u) (insertItemRow itemId input now) := by
  refine Alike.ite (c := fun db => db.items.any (·.id = itemId)) ?_ (Alike.throw _) (alike_modify ?_ ?_ ?_)
  · rintro db t ⟨rfl, -, -⟩
    exact (hasItem_without hseen).symm
  · intro db
    simp [Tables.without, hseen]
  · exact fun db l hl _ => hl
  · exact fun db kv hkv _ => hkv

theorem updateItemRow_alike {input : PasswordInput} {now : String} :
    Alike (Beside hidden u) (updateItemRow itemId input now) := by
  refine alike_modify ?_ ?_ ?_
  · intro db
    simp only [Tables.without, List.filter_map]
    congr 2
    refine List.filter_congr fun i _ => ?_
    simp only [Function.comp]
    split <;> rfl
  · exact fun db l hl _ => hl
  · exact fun db kv hkv _ => hkv

theorem upsertTag_alike {newId name : String} : Alike (Beside hidden u) (upsertTag newId name) := by
  refine Alike.bind (alike_modify ?_ ?_ ?_) fun _ => ?_
  · intro db
    rw [apply_ite (Tables.without · hidden)]
    rfl
  · intro db l hl _
    split at hl <;> exact hl
  · intro db kv hkv _
    split at hkv <;> exact hkv
  · rintro db t ⟨rfl, hl, hkv⟩
    simp only [exec_get_bind, Tables.without]
    split
    · exact ⟨rfl, rfl, hl, hkv⟩
    · exact ⟨rfl, rfl, hl, hkv⟩

theorem linkTag_alike {n : Nat} {tagId : String} (hseen : hidden itemId = false) :
    Alike (Beside hidden u) (linkTag (u.link n) itemId tagId) := by
  rintro db t ⟨rfl, hl, hkv⟩
  have hany : ((db.without hidden).links.any fun l => l.id = u.link n || (l.itemId = itemId && l.tagId = tagId)) =
      db.links.any fun l => l.id = u.link n || (l.itemId = itemId && l.tagId = tagId) := by
    refine Bool.eq_iff_iff.2 ⟨fun h => ?_, fun h => ?_⟩
    · obtain ⟨l, hmem, hmatch⟩ := List.any_eq_true.1 h
      exact List.any_eq_true.2 ⟨l, List.mem_of_mem_filter hmem, hmatch⟩
    · obtain ⟨l, hmem, hmatch⟩ := List.any_eq_true.1 h
      refine List.any_eq_true.2 ⟨l, List.mem_filter.2 ⟨hmem, ?_⟩, hmatch⟩
      -- a hidden link has none of the new ids and belongs to another item
      simp only [Bool.or_eq_true, Bool.and_eq_true, decide_eq_true_eq] at hmatch
      rw [Bool.not_eq_true', Bool.eq_false_iff]
      intro hh
      rcases hmatch with hid | ⟨hitem, -⟩
      · exact hl l hmem hh n hid
      · rw [hitem, hseen] at hh
        cases hh
  simp only [linkTag, exec_get_bind, hany, hasItem_without hseen]
  split
  · exact ⟨rfl, rfl, hl, hkv⟩
  · rw [show (db.without hidden).tags = db.tags from rfl]
    split
    · refine ⟨rfl, by simp [Tables.without, hseen], fun l hmem hh m => ?_, hkv⟩
      rcases List.mem_append.1 hmem with hold | hnew
      · exact hl l hold hh m
      · rw [List.mem_singleton.1 hnew, hseen] at hh
        cases hh
    · exact ⟨rfl, rfl, hl, hkv⟩

theorem deleteItemTagLinks_alike : Alike (Beside hidden u) (deleteItemTagLinks itemId) := by
  refine alike_modify ?_ ?_ ?_
  · intro db
    simp only [Tables.without, List.filter_filter, Bool.and_comm]
  · exact fun db l hl _ => List.mem_of_mem_filter hl
  · exact fun db kv hkv _ => hkv

theorem insertKeyValue_alike {n : Nat} {kv : Option String × Option String} (hseen : hidden itemId = false) :
    Alike (Beside hidden u) (insertKeyValue (u.keyValue n) itemId kv) := by
  rintro db t ⟨rfl, hl, hkv⟩
  have hany : ((db.without hidden).keyValues.any (·.id = u.keyValue n)) = db.keyValues.any (·.id = u.keyValue n) := by
    refine Bool.eq_iff_iff.2 ⟨fun h => ?_, fun h => ?_⟩
    · obtain ⟨kv, hmem, hid⟩ := List.any_eq_true.1 h
      exact List.any_eq_true.2 ⟨kv, List.mem_of_mem_filter hmem, hid⟩
    · obtain ⟨kv, hmem, hid⟩ := List.any_eq_true.1 h
      refine List.any_eq_true.2 ⟨kv, List.mem_filter.2 ⟨hmem, ?_⟩, hid⟩
      rw [Bool.not_eq_true', Bool.eq_false_iff]
      exact fun hh => hkv kv hmem hh n (of_decide_eq_true hid)
  simp only [insertKeyValue, exec_get_bind, hany, hasItem_without hseen]
  split
  · exact ⟨rfl, rfl, hl, hkv⟩
  · split
    · refine ⟨rfl, by simp [Tables.without, hseen], hl, fun kv hmem hh m => ?_⟩
      rcases List.mem_append.1 hmem with hold | hnew
      · exact hkv kv hold hh m
      · rw [List.mem_singleton.1 hnew, hseen] at hh
        cases hh
    · exact ⟨rfl, rfl, hl, hkv⟩

theorem deleteKeyValues_alike : Alike (Beside hidden u) (deleteKeyValues itemId) := by
  refine alike_modify ?_ ?_ ?_
  · intro db
    simp only [Tables.without, List.filter_filter, Bool.and_comm]
  · exact fun db l hl _ => hl
  · exact fun db kv hkv _ => List.mem_of_mem_filter hkv

theorem upsertAndLinkTags_alike (hseen : hidden itemId = false) (n : Nat) (names : List String) :
    Alike (Beside hidden u) (upsertAndLinkTags u itemId n names) := by
  induction names generalizing n with
  | nil => exact Alike.pure _
  | cons name names ih => exact upsertTag_alike.bind fun _ => (linkTag_alike hseen).bind fun _ => ih (n + 1)

theorem insertKeyValues_alike (hseen : hidden itemId = false) (n : Nat) (kvs : List (Option String × Option String)) :
    Alike (Beside hidden u) (insertKeyValues u itemId n kvs) := by
  induction kvs generalizing n with
  | nil => exact Alike.pure _
  | cons kv kvs ih => exact (insertKeyValue_alike hseen).bind fun _ => ih (n + 1)

theorem validateTagsInScope_alike {R : Tables → Tables → Prop} (tags : List String) :
    Alike R (validateTagsInScope x tags (.tags allowed)) := by
  unfold validateTagsInScope
  split
  · exact Alike.throw _
  · dsimp only
    split
    · exact Alike.pure _
    · exact Alike.throw _

/-! ## What a call leaves alone -/

def OnlyItem (itemId : String) (db db' : Tables) : Prop := ∀ id, id ≠ itemId → db'.itemRows id = db.itemRows id

instance : Std.Refl (OnlyItem itemId) := ⟨fun _ _ _ => rfl⟩

instance : IsTrans Tables (OnlyItem itemId) := ⟨fun _ _ _ h h' id hid => (h' id hid).trans (h id hid)⟩

theorem filter_other {α : Type} {l : List α} (key : α → String) {id : String} (h : id ≠ itemId) :
    (l.filter fun a => ¬ key a = itemId).filter (fun a => key a = id) = l.filter fun a => key a = id := by
  rw [List.filter_filter]
  refine List.filter_congr fun a _ => ?_
  by_cases ha : key a = id
  · simp [ha, h]
  · simp [ha]

theorem filter_map_other {α : Type} {l : List α} (key : α → String) {f : α → α} {id : String} (hkey : ∀ a, key (f a) = key a)
    (hf : ∀ a, key a = id → f a = a) : (l.map f).filter (fun a => key a = id) = l.filter fun a => key a = id := by
  rw [List.filter_map]
  calc (l.filter ((fun a => decide (key a = id)) ∘ f)).map f
      = (l.filter fun a => key a = id).map f := by simp only [Function.comp_def, hkey]
    _ = (l.filter fun a => key a = id).map (fun a => a) :=
        List.map_congr_left fun a ha => hf a (by simpa using (List.mem_filter.1 ha).2)
    _ = l.filter fun a => key a = id := List.map_id _

theorem insertItemRow_only {input : PasswordInput} {now : String} :
    Keeps (OnlyItem itemId) (insertItemRow itemId input now) := by
  refine Keeps.get_bind fun db => ?_
  split
  · exact Keeps.throw _
  · exact Keeps.modify fun db id hid => by simp [Tables.itemRows, Ne.symm hid]

theorem updateItemRow_only {input : PasswordInput} {now : String} :
    Keeps (OnlyItem itemId) (updateItemRow itemId input now) := by
  refine Keeps.modify fun db id hid => ?_
  simp only [Tables.itemRows]
  rw [filter_map_other Item.id]
  · intro i
    split <;> rfl
  · intro i hi
    rw [if_neg (hi ▸ hid)]

theorem upsertTag_only {newId name : String} : Keeps (OnlyItem itemId) (upsertTag newId name) := by
  refine Keeps.bind (Keeps.modify fun db id _ => ?_) fun _ => Keeps.get_bind fun db => ?_
  · split <;> rfl
  · split
    · exact Keeps.pure _
    · exact Keeps.throw _

theorem linkTag_only {linkId tagId : String} : Keeps (OnlyItem itemId) (linkTag linkId itemId tagId) := by
  refine Keeps.get_bind fun db => ?_
  split
  · exact Keeps.pure _
  · split
    · exact Keeps.modify fun db id hid => by simp [Tables.itemRows, Ne.symm hid]
    · exact Keeps.throw _

theorem upsertAndLinkTags_only (n : Nat) (names : List String) :
    Keeps (OnlyItem itemId) (upsertAndLinkTags u itemId n names) := by
  induction names generalizing n with
  | nil => exact Keeps.pure _
  | cons name names ih => exact upsertTag_only.bind fun _ => linkTag_only.bind fun _ => ih (n + 1)

theorem deleteItemTagLinks_only : Keeps (OnlyItem itemId) (deleteItemTagLinks itemId) :=
  Keeps.modify fun db id hid => by simp only [Tables.itemRows, filter_other ItemTag.itemId hid]

theorem insertKeyValue_only {newId : String} {kv : Option String × Option String} :
    Keeps (OnlyItem itemId) (insertKeyValue newId itemId kv) := by
  refine Keeps.get_bind fun db => ?_
  split
  · exact Keeps.throw _
  · split
    · exact Keeps.modify fun db id hid => by simp [Tables.itemRows, Ne.symm hid]
    · exact Keeps.throw _

theorem insertKeyValues_only (n : Nat) (kvs : List (Option String × Option String)) :
    Keeps (OnlyItem itemId) (insertKeyValues u itemId n kvs) := by
  induction kvs generalizing n with
  | nil => exact Keeps.pure _
  | cons kv kvs ih => exact insertKeyValue_only.bind fun _ => ih (n + 1)

theorem deleteKeyValues_only : Keeps (OnlyItem itemId) (deleteKeyValues itemId) :=
  Keeps.modify fun db id hid => by simp only [Tables.itemRows, filter_other KeyValue.itemId hid]

theorem deleteItem_only : Keeps (OnlyItem itemId) (deleteItem itemId) :=
  Keeps.modify fun db id hid => by
    simp only [Tables.itemRows, filter_other ItemTag.itemId hid, filter_other KeyValue.itemId hid,
      filter_other Item.id hid]

theorem validateTagsInScope_only (tags : List String) :
    Keeps (OnlyItem itemId) (validateTagsInScope x tags (.tags allowed)) := by
  unfold validateTagsInScope
  split
  · exact Keeps.throw _
  · dsimp only
    split
    · exact Keeps.pure _
    · exact Keeps.throw _

/-! ## What carries a tag in the end -/

def Linked (itemId name : String) (db : Tables) : Prop :=
  ∃ l ∈ db.links, l.itemId = itemId ∧ ∃ t ∈ db.tags, t.id = l.tagId ∧ t.name = name

def LinksNew (u : Uuids) (n : Nat) (db : Tables) : Prop := ∀ l ∈ db.links, ∀ m, n ≤ m → l.id ≠ u.link m

def Grows (db db' : Tables) : Prop := db.links ⊆ db'.links ∧ db.tags ⊆ db'.tags

instance : Std.Refl Grows := ⟨fun _ => ⟨fun _ h => h, fun _ h => h⟩⟩

instance : IsTrans Tables Grows := ⟨fun _ _ _ h h' => ⟨fun _ hl => h'.1 (h.1 hl), fun _ ht => h'.2 (h.2 ht)⟩⟩

theorem Linked.grows {name : String} {db db' : Tables} (h : Linked itemId name db) (hg : Grows db db') :
    Linked itemId name db' := by
  obtain ⟨l, hl, hitem, t, ht, hid⟩ := h
  exact ⟨l, hg.1 hl, hitem, t, hg.2 ht, hid⟩

theorem Linked.inScope {name : String} (h : Linked itemId name db) (hname : name ∈ allowed) :
    db.inScope allowed itemId = true := by
  obtain ⟨l, hl, hitem, t, ht, hid, rfl⟩ := h
  refine List.any_eq_true.2 ⟨l, hl, ?_⟩
  rw [Bool.and_eq_true]
  exact ⟨decide_eq_true hitem, List.any_eq_true.2 ⟨t, ht, by simpa [hid] using hname⟩⟩

theorem upsertTag_grows {newId name : String} : Keeps Grows (upsertTag newId name) := by
  refine Keeps.bind (Keeps.modify fun db => ?_) fun _ => Keeps.get_bind fun db => ?_
  · split
    · exact ⟨fun _ h => h, fun _ h => h⟩
    · exact ⟨fun _ h => h, fun _ h => List.mem_append_left _ h⟩
  · split
    · exact Keeps.pure _
    · exact Keeps.throw _

theorem linkTag_grows {linkId tagId : String} : Keeps Grows (linkTag linkId itemId tagId) := by
  refine Keeps.get_bind fun db => ?_
  split
  · exact Keeps.pure _
  · split
    · exact Keeps.modify fun db => ⟨fun _ h => List.mem_append_left _ h, fun _ h => h⟩
    · exact Keeps.throw _

theorem upsertAndLinkTags_grows (n : Nat) (names : List String) : Keeps Grows (upsertAndLinkTags u itemId n names) := by
  induction names generalizing n with
  | nil => exact Keeps.pure _
  | cons name names ih => exact upsertTag_grows.bind fun _ => linkTag_grows.bind fun _ => ih (n + 1)

theorem insertKeyValue_grows {newId : String} {kv : Option String × Option String} :
    Keeps Grows (insertKeyValue newId itemId kv) := by
  refine Keeps.get_bind fun db => ?_
  split
  · exact Keeps.throw _
  · split
    · exact Keeps.modify fun db => ⟨fun _ h => h, fun _ h => h⟩
    · exact Keeps.throw _

theorem insertKeyValues_grows (n : Nat) (kvs : List (Option String × Option String)) :
    Keeps Grows (insertKeyValues u itemId n kvs) := by
  induction kvs generalizing n with
  | nil => exact Keeps.pure _
  | cons kv kvs ih => exact insertKeyValue_grows.bind fun _ => ih (n + 1)

theorem deleteKeyValues_grows : Keeps Grows (deleteKeyValues itemId) :=
  Keeps.modify fun _ => ⟨fun _ h => h, fun _ h => h⟩

theorem upsertTag_ends {n : Nat} {newId name : String} :
    Ends (LinksNew u n) (upsertTag newId name) fun tagId db =>
      LinksNew u n db ∧ ∃ t ∈ db.tags, t.id = tagId ∧ t.name = name := by
  intro db tagId db' hnew h
  obtain ⟨_, db₁, hmodify, hfind⟩ := exec_bind_eq_ok h
  cases hmodify
  rw [exec_get_bind] at hfind
  split at hfind
  · next t hsome =>
    cases hfind
    refine ⟨?_, t, List.mem_of_find?_eq_some hsome, rfl, by simpa using List.find?_some hsome⟩
    dsimp only [LinksNew]
    split <;> exact hnew
  · cases hfind

theorem linkTag_ends {n : Nat} {tagId name : String} (hinj : u.link.Injective) :
    Ends (fun db => LinksNew u n db ∧ ∃ t ∈ db.tags, t.id = tagId ∧ t.name = name) (linkTag (u.link n) itemId tagId)
      fun _ db => LinksNew u (n + 1) db ∧ Linked itemId name db := by
  rintro db _ db' ⟨hnew, t, ht, hid, hname⟩ h
  rw [linkTag, exec_get_bind] at h
  split at h
  · next hany =>
    cases h
    obtain ⟨l, hl, hmatch⟩ := List.any_eq_true.1 hany
    simp only [Bool.or_eq_true, Bool.and_eq_true, decide_eq_true_eq] at hmatch
    obtain hlink | ⟨hitem, htag⟩ := hmatch
    · exact absurd hlink (hnew l hl n le_rfl)
    · exact ⟨fun l hl m hm => hnew l hl m (by omega), l, hl, hitem, t, ht, hid.trans htag.symm, hname⟩
  · split at h
    · cases h
      refine ⟨fun l hl m hm => ?_, _, List.mem_append_right _ List.mem_cons_self, rfl, t, ht, hid, hname⟩
      rcases List.mem_append.1 hl with hold | hlast
      · exact hnew l hold m (by omega)
      · rw [List.mem_singleton.1 hlast]
        exact fun heq => by have := hinj heq; omega
    · cases h

theorem upsertAndLinkTags_ends (hinj : u.link.Injective) (n : Nat) (names : List String) :
    Ends (LinksNew u n) (upsertAndLinkTags u itemId n names) fun _ db => ∀ name ∈ names, Linked itemId name db := by
  induction names generalizing n with
  | nil => exact fun _ _ _ _ _ => List.forall_mem_nil _
  | cons name names ih =>
    intro db _ db' hnew h
    obtain ⟨tagId, db₁, hupsert, h⟩ := exec_bind_eq_ok h
    obtain ⟨_, db₂, hlink, hrest⟩ := exec_bind_eq_ok h
    obtain ⟨hnew₂, hlinked⟩ := linkTag_ends hinj _ _ _ (upsertTag_ends _ _ _ hnew hupsert) hlink
    have hgrows : Grows db₂ (exec (upsertAndLinkTags u itemId (n + 1) names) db₂).2 := upsertAndLinkTags_grows (n + 1) names db₂
    rw [hrest] at hgrows
    exact List.forall_mem_cons.2 ⟨hlinked.grows hgrows, ih (n + 1) _ _ _ hnew₂ hrest⟩

theorem validateTagsInScope_ok {tags : List String} {db' : Tables} {v : Unit}
    (h : exec (validateTagsInScope x tags (.tags allowed)) db = (.ok v, db')) : db' = db ∧ ∃ name ∈ tags, name ∈ allowed := by
  unfold validateTagsInScope at h
  split at h
  · cases h
  · dsimp only at h
    split at h
    · next hany =>
      cases h
      obtain ⟨name, hname, hin⟩ := List.any_eq_true.1 hany
      exact ⟨rfl, name, hname, List.contains_iff_mem.1 hin⟩
    · cases h

/-! ## The commands -/

variable {input : PasswordInput} {now : String}

theorem Uuids.Fresh.beside (allowed : List String) (h : u.Fresh db) : Beside (db.hides allowed) u db (db.visible allowed) :=
  ⟨rfl, fun l hl _ n => h.link l hl n, fun kv hkv _ n => h.keyValue kv hkv n⟩

theorem create_alike (hseen : hidden u.item = false) :
    Alike (Beside hidden u) (extensionPasswordCreate x (.tags allowed) input u now) :=
  (validateTagsInScope_alike _).bind fun _ => (insertItemRow_alike hseen).bind fun _ =>
    (upsertAndLinkTags_alike hseen _ _).bind fun _ => (insertKeyValues_alike hseen _ _).bind fun _ => Alike.pure _

theorem create_only : Keeps (OnlyItem u.item) (extensionPasswordCreate x (.tags allowed) input u now) :=
  (validateTagsInScope_only _).bind fun _ => insertItemRow_only.bind fun _ =>
    (upsertAndLinkTags_only _ _).bind fun _ => (insertKeyValues_only _ _).bind fun _ => Keeps.pure _

theorem create_tagged {id : String} {db' : Tables} (hfresh : u.Fresh db)
    (h : exec (extensionPasswordCreate x (.tags allowed) input u now) db = (.ok id, db')) :
    db'.inScope allowed u.item = true := by
  rw [extensionPasswordCreate] at h
  obtain ⟨_, db₁, hvalid, hwrites⟩ := exec_bind_eq_ok h
  obtain ⟨rfl, name, hname, hin⟩ := validateTagsInScope_ok hvalid
  obtain ⟨_, db₂, hinsert, hlinks⟩ := exec_bind_eq_ok hwrites
  obtain ⟨_, db₃, htags, hkeyValues⟩ := exec_bind_eq_ok hlinks
  obtain ⟨_, db₄, hkvs, hpure⟩ := exec_bind_eq_ok hkeyValues
  cases hpure
  have hnew : LinksNew u 0 db₂ := by
    rw [insertItemRow, exec_get_bind] at hinsert
    split at hinsert <;> cases hinsert
    exact fun l hl m _ => hfresh.link l hl m
  have hgrows : Grows db₃ (exec (insertKeyValues u u.item 0 input.keyValues) db₃).2 := insertKeyValues_grows _ _ _
  rw [hkvs] at hgrows
  exact ((upsertAndLinkTags_ends hfresh.links _ _ _ _ _ hnew htags name hname).grows hgrows).inScope hin

theorem create_stays (hfresh : u.Fresh db) :
    StaysInside ((Call.create input u now).within x (.tags allowed)) (.create input u now) allowed db := by
  have hseen : db.hides allowed u.item = false := hides_of_new hfresh.item
  have hexec := exec_bind_pure (extensionPasswordCreate x (.tags allowed) input u now) Answer.created
  refine ⟨fun a ha id hid => ?_, fun id hid => ?_, fun a ha id hid => ?_, ?_⟩
  · obtain ⟨_, -, rfl⟩ := exec_bind_pure_eq_ok.1 ha
    cases hid
  · rw [Call.within, hexec]
    refine create_only db id fun h => ?_
    rw [h, hseen] at hid
    cases hid
  · obtain ⟨_, hok, -⟩ := exec_bind_pure_eq_ok.1 ha
    cases hid
    rw [Call.within, hexec]
    exact create_tagged hfresh (Prod.ext hok rfl)
  · obtain ⟨hresult, hstate⟩ := create_alike hseen _ _ (hfresh.beside allowed)
    rw [Call.within, hexec, hexec, ← hresult, hstate.eq]

theorem exec_ensure (db : Tables) (m : Unit → Db Unit) :
    exec (ensureItemInScope itemId (.tags allowed) >>= m) db =
      if (db.selectItem (.tags allowed) itemId).isEmpty then (.error (notFound itemId), db) else exec (m ()) db := by
  rw [exec_bind, ensureItemInScope, exec_get_bind]
  cases (db.selectItem (.tags allowed) itemId).isEmpty <;> rfl

theorem inScope_of_not_isEmpty (h : ¬(db.selectItem (.tags allowed) itemId).isEmpty) : db.inScope allowed itemId = true := by
  obtain ⟨i, hi⟩ := List.exists_mem_of_ne_nil _ (mt List.isEmpty_iff.2 h)
  exact (inScope_of_selectItem hi).2

theorem onItem_stays {call : Call} {m : Unit → Db Unit} (honly : Keeps (OnlyItem itemId) (m ()))
    (hwithin : call.within x (.tags allowed) = ensureItemInScope itemId (.tags allowed) >>= m >>= fun _ => pure .done)
    (htagged : ∀ db', exec (m ()) db = (.ok (), db') → ∀ id, call.written = some id → db'.inScope allowed id = true)
    (hunseen : db.hides allowed itemId = false → exec (m ()) (db.visible allowed) =
      ((exec (m ()) db).1, (exec (m ()) db).2.without (db.hides allowed))) :
    StaysInside (call.within x (.tags allowed)) call allowed db := by
  have hexec := exec_bind_pure (ensureItemInScope itemId (.tags allowed) >>= m) fun _ => Answer.done
  refine ⟨fun a ha id hid => ?_, fun id hid => ?_, fun a ha id hid => ?_, ?_⟩
  · rw [hwithin] at ha
    obtain ⟨_, -, rfl⟩ := exec_bind_pure_eq_ok.1 ha
    cases hid
  · rw [hwithin, hexec, exec_ensure]
    split
    · rfl
    · next hne =>
      refine honly db id fun h => ?_
      rw [h, hides_of_inScope (inScope_of_not_isEmpty hne)] at hid
      cases hid
  · rw [hwithin] at ha
    obtain ⟨_, hok, -⟩ := exec_bind_pure_eq_ok.1 ha
    rw [exec_ensure] at hok
    rw [hwithin, hexec, exec_ensure]
    split at hok
    · cases hok
    · next hne =>
      rw [if_neg hne]
      exact htagged _ (Prod.ext hok rfl) id hid
  · rw [hwithin, hexec, hexec, exec_ensure, exec_ensure, selectItem_visible]
    split
    · rfl
    · next hne => rw [hunseen (hides_of_inScope (inScope_of_not_isEmpty hne))]

/-- `extension_password_update` after the check of the item. -/
def updateRest (x : Externals) (allowed : List String) (itemId : String) (input : PasswordInput) (u : Uuids) (now : String) :
    Db Unit := do
  validateTagsInScope x input.tags (.tags allowed)
  updateItemRow itemId input now
  deleteItemTagLinks itemId
  upsertAndLinkTags u itemId 0 input.tags
  deleteKeyValues itemId
  insertKeyValues u itemId 0 input.keyValues

theorem updateRest_alike (hseen : hidden itemId = false) :
    Alike (Beside hidden u) (updateRest x allowed itemId input u now) :=
  (validateTagsInScope_alike _).bind fun _ => updateItemRow_alike.bind fun _ => deleteItemTagLinks_alike.bind fun _ =>
    (upsertAndLinkTags_alike hseen _ _).bind fun _ => deleteKeyValues_alike.bind fun _ => insertKeyValues_alike hseen _ _

theorem updateRest_only : Keeps (OnlyItem itemId) (updateRest x allowed itemId input u now) :=
  (validateTagsInScope_only _).bind fun _ => updateItemRow_only.bind fun _ => deleteItemTagLinks_only.bind fun _ =>
    (upsertAndLinkTags_only _ _).bind fun _ => deleteKeyValues_only.bind fun _ => insertKeyValues_only _ _

theorem updateRest_tagged {db' : Tables} (hfresh : u.Fresh db)
    (h : exec (updateRest x allowed itemId input u now) db = (.ok (), db')) : db'.inScope allowed itemId = true := by
  rw [updateRest] at h
  obtain ⟨_, db₁, hvalid, hwrites⟩ := exec_bind_eq_ok h
  obtain ⟨rfl, name, hname, hin⟩ := validateTagsInScope_ok hvalid
  obtain ⟨_, db₂, hupdate, hdelete⟩ := exec_bind_eq_ok hwrites
  obtain ⟨_, db₃, hunlink, hlinks⟩ := exec_bind_eq_ok hdelete
  obtain ⟨_, db₄, htags, hkeyValues⟩ := exec_bind_eq_ok hlinks
  cases hupdate
  cases hunlink
  have hlinked := upsertAndLinkTags_ends hfresh.links _ _ _ _ _
    (fun l hl m _ => hfresh.link l (List.mem_of_mem_filter hl) m) htags name hname
  have hgrows : Grows db₄ (exec (deleteKeyValues itemId >>= fun _ => insertKeyValues u itemId 0 input.keyValues) db₄).2 :=
    deleteKeyValues_grows.bind (fun _ => insertKeyValues_grows _ _) db₄
  rw [hkeyValues] at hgrows
  exact (hlinked.grows hgrows).inScope hin

theorem update_stays (hfresh : u.Fresh db) :
    StaysInside ((Call.update itemId input u now).within x (.tags allowed)) (.update itemId input u now) allowed db := by
  refine onItem_stays (m := fun _ => updateRest x allowed itemId input u now) updateRest_only rfl ?_ ?_
  · rintro db' h id ⟨⟩
    exact updateRest_tagged hfresh h
  · intro hseen
    obtain ⟨hresult, hstate⟩ := updateRest_alike hseen _ _ (hfresh.beside allowed)
    exact Prod.ext hresult.symm hstate.eq

theorem delete_stays : StaysInside ((Call.delete itemId).within x (.tags allowed)) (.delete itemId) allowed db := by
  refine onItem_stays (m := fun _ => deleteItem itemId) deleteItem_only rfl (fun _ _ _ h => nomatch h) fun _ => ?_
  simp only [deleteItem, exec_modify, Tables.visible, Tables.without, List.filter_filter, Bool.and_comm]

theorem within_stays (call : Call) (hfresh : call.Fresh db) : StaysInside (call.within x (.tags allowed)) call allowed db := by
  cases call with
  | list => exact list_stays db
  | read itemId => exact read_stays db itemId
  | create input u now => exact create_stays hfresh
  | update itemId input u now => exact update_stays hfresh
  | delete itemId => exact delete_stays

/-! ## Runs -/

structure Vault where
  permissions : Permissions
  tables : Tables

inductive Event where
  | call (c : Call)
  | user (v : Vault)

def step (x : Externals) (extensionId : String) (v : Vault) : Event → Vault
  | .call c => { v with tables := (exec (c.perform x v.permissions extensionId) v.tables).2 }
  | .user v' => v'

def FreshIds (v : Vault) : Event → Prop
  | .call c => c.Fresh v.tables
  | .user _ => True

/-- If the permissions yield a set of tags for the command's action, the command stays inside them. -/
def StaysInTags (x : Externals) (extensionId : String) (v : Vault) : Event → Prop
  | .call c => ∀ allowed, v.permissions.checkPasswordsPermission extensionId c.access = .ok (.tags allowed) →
      StaysInside (c.perform x v.permissions extensionId) c allowed v.tables
  | .user _ => True

/-- In every run, the extension's commands stay inside its tags. -/
theorem stays_in_tags (x : Externals) (extensionId : String) (v : Vault) (es : List Event)
    (h : Guarded (step x extensionId) FreshIds v es) :
    Guarded (step x extensionId) (StaysInTags x extensionId) v es := by
  refine h.each (I := fun _ => True) (fun _ _ _ _ => trivial) (fun v e _ hfresh => ?_) trivial
  cases e with
  | user v' => trivial
  | call c =>
    intro allowed hscope
    rw [Call.perform, hscope]
    exact within_stays c hfresh

def uuidsOf (c : Char) : Uuids where
  item := String.ofList [c]
  tag n := String.ofList (c :: List.replicate n c)
  link n := String.ofList (c :: List.replicate n c)
  keyValue n := String.ofList (c :: List.replicate n c)

theorem uuidsOf_fresh {c : Char} (hitem : db.items.any (·.id = String.ofList [c]) = false)
    (hlink : ∀ l ∈ db.links, l.id.toList.head? ≠ some c) (hkeyValue : ∀ kv ∈ db.keyValues, kv.id.toList.head? ≠ some c) :
    (uuidsOf c).Fresh db where
  item := hitem
  link l hl n h := hlink l hl (by simp [h, uuidsOf])
  keyValue kv hkv n h := hkeyValue kv hkv (by simp [h, uuidsOf])
  links n m h := by
    have hlength := congrArg (·.toList.length) h
    simpa [uuidsOf] using hlength

/-- An extension `x` with the tag `mail`, beside an item `s` that has only the tag `home`. -/
def mailVault : Vault where
  permissions := ⟨fun _ => some ⟨zeroKey, "notes"⟩,
    [⟨⟨"x", some "passwords", some "readWrite", some "mail", some "granted"⟩, "p", none⟩], by decide, []⟩
  tables := { items := [⟨"s", {}, none, none⟩], tags := [⟨"h", "home"⟩], links := [⟨"0", "s", "h"⟩] }

def mailExternals : Externals := ⟨fun _ => .error "relative URL without a base", fun _ => ""⟩

/-- It creates an item and updates it, does not find the other one, and lists and deletes its own. -/
def mailCalls : List Call :=
  [.create ⟨{ title := some "inbox" }, ["mail"], []⟩ (uuidsOf 'a') "1",
    .update "a" ⟨{}, ["home", "mail"], [(some "k", none)]⟩ (uuidsOf 'b') "2", .read "s", .list, .delete "a"]

theorem stays_in_tags_mail :
    Guarded (step mailExternals "x") (StaysInTags mailExternals "x") mailVault
      (mailCalls.map .call ++ [.user mailVault, .call .list]) ∧
      mailVault.permissions.checkPasswordsPermission "x" .read = .ok (.tags ["mail"]) ∧
      (run (step mailExternals "x") mailVault ((mailCalls.take 2).map .call)).tables.tagNames "a" = ["home", "mail"] ∧
      (exec ((Call.read "s").perform mailExternals mailVault.permissions "x")
        (run (step mailExternals "x") mailVault ((mailCalls.take 2).map .call)).tables).1 = .error (notFound "s") := by
  refine ⟨stays_in_tags _ _ _ _ ?_, by decide +kernel, by decide +kernel, by decide +kernel⟩
  exact ⟨uuidsOf_fresh (by decide +kernel) (by decide +kernel) (by decide +kernel),
    uuidsOf_fresh (by decide +kernel) (by decide +kernel) (by decide +kernel),
    trivial, trivial, trivial, trivial, trivial, trivial⟩

end HaexVault.Passwords
