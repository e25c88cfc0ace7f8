import HaexVault.Lib.CommaText
import HaexVault.Passwords.UpdateSteps
/-!
# Items read back as written (`passwords/commands.rs`)

A read gives an empty text back as none, and the listing writes the names of the tags into one text,
with commas between them, and splits it again. `read_back_iff` says for which inputs the read after a
write gives the input back, and the listing agrees with the read.
-/

namespace HaexVault.Passwords

open Lib Lib.Fallible Lib.CommaText Extension.PermissionManager Extension.PermissionManager.Permissions

/-! ## What is read and listed -/

/-- The JSON of the autofill aliases: a text that is not empty, and is read back as what it was printed from. -/
structure AliasJson where
  Aliases : Type
  print : Aliases → String
  parse : String → Option Aliases
  print_ne : ∀ a, print a ≠ ""
  parse_print : ∀ a, parse (print a) = some a

variable (c : AliasJson)

def serializeAliases (aliases : Option c.Aliases) : Option String := aliases.map c.print

def getAutofillAliases (column : Option String) : Option c.Aliases :=
  match column with
  | none => none
  | some text => if text = "" then none else c.parse text

def ItemFields.withoutAliases (f : ItemFields) : ItemFields := { f with autofillAliases := none }

structure PasswordItemFull.Same (full : PasswordItemFull) (input : PasswordInput) (aliases : Option c.Aliases) : Prop where
  fields : full.fields.withoutAliases = input.fields.withoutAliases
  aliases : getAutofillAliases c full.fields.autofillAliases = aliases
  tags : ∀ name, name ∈ full.tags ↔ name ∈ input.tags
  keyValues : full.keyValues.map (·.2) = input.keyValues

/-- The listing and the read have the same in every field that both have. -/
structure PasswordItemSummary.Agrees (summary : PasswordItemSummary) (full : PasswordItemFull) : Prop where
  id : summary.id = full.id
  title : summary.title = full.fields.title
  username : summary.username = full.fields.username
  url : summary.url = full.fields.url
  icon : summary.icon = full.fields.icon
  color : summary.color = full.fields.color
  tags : summary.tags.Perm full.tags
  createdAt : summary.createdAt = full.createdAt
  updatedAt : summary.updatedAt = full.updatedAt

def Tables.ReadsBack (db : Tables) (scope : PasswordsScope) (itemId : String) (input : PasswordInput) (aliases : Option c.Aliases) :
    Prop :=
  ∃ full items summary, exec (extensionPasswordRead scope itemId) db = (.ok full, db) ∧ full.id = itemId ∧
    exec (extensionPasswordList scope) db = (.ok items, db) ∧ items.filter (·.id = itemId) = [summary] ∧
    full.Same c input aliases ∧ summary.Agrees full

def ItemFields.texts (f : ItemFields) : List (Option String) :=
  [f.title, f.username, f.password, f.note, f.icon, f.color, f.url, f.otpSecret, f.otpAlgorithm, f.expiresAt]

/-- No text of the input is empty, no tag has a comma, and the empty tag is not the only one. -/
structure PasswordInput.Legible (input : PasswordInput) : Prop where
  fields : some "" ∉ input.fields.texts
  keyValues : ∀ kv ∈ input.keyValues, kv.1 ≠ some "" ∧ kv.2 ≠ some ""
  commas : ∀ tag ∈ input.tags, ',' ∉ tag.toList
  tags : ∃ tag ∈ input.tags, tag ≠ ""

/-- The unique columns of the tags and of their links. -/
structure Tables.Unique (db : Tables) : Prop where
  tags : (db.tags.map (·.name)).Nodup
  links : (db.links.map fun l => (l.itemId, l.tagId)).Nodup

/-! ## Unique columns stay unique -/

variable {c} {x : Externals} {u : Uuids} {db db' : Tables} {itemId now : String} {input : PasswordInput} {aliases : Option c.Aliases}
  {scope : PasswordsScope}

theorem upsertTag_unique {newId name : String} : Keeps (Stays Tables.Unique) (upsertTag newId name) := by
  refine Keeps.bind (Keeps.modify fun db h => ?_) fun _ => Keeps.get_bind fun db => ?_
  · split
    · exact h
    · next hnone =>
      refine ⟨?_, h.links⟩
      rw [List.map_append]
      refine List.nodup_append.2 ⟨h.tags, List.nodup_singleton _, ?_⟩
      rintro _ hname _ hlast rfl
      obtain ⟨t, ht, hsame⟩ := List.mem_map.1 hname
      refine hnone (List.any_eq_true.2 ⟨t, ht, ?_⟩)
      simp [hsame, List.mem_singleton.1 hlast]
  · split
    · exact Keeps.pure _
    · exact Keeps.throw _

theorem linkTag_unique {linkId tagId : String} : Keeps (Stays Tables.Unique) (linkTag linkId itemId tagId) := by
  intro db h
  rw [linkTag, exec_get_bind]
  split
  · exact h
  · next hnone =>
    split
    · refine ⟨h.tags, ?_⟩
      rw [exec_modify, List.map_append]
      refine List.nodup_append.2 ⟨h.links, List.nodup_singleton _, ?_⟩
      rintro _ hpair _ hlast rfl
      obtain ⟨l, hl, hsame⟩ := List.mem_map.1 hpair
      obtain ⟨hitem, htag⟩ := Prod.mk.inj (hsame.trans (List.mem_singleton.1 hlast))
      refine hnone (List.any_eq_true.2 ⟨l, hl, ?_⟩)
      simp [hitem, htag]
    · exact h

theorem upsertAndLinkTags_unique (n : Nat) (names : List String) :
    Keeps (Stays Tables.Unique) (upsertAndLinkTags u itemId n names) := by
  induction names generalizing n with
  | nil => exact Keeps.pure _
  | cons name names ih => exact upsertTag_unique.bind fun _ => linkTag_unique.bind fun _ => ih (n + 1)

theorem insertKeyValues_unique (n : Nat) (kvs : List (Option String × Option String)) :
    Keeps (Stays Tables.Unique) (insertKeyValues u itemId n kvs) := by
  induction kvs generalizing n with
  | nil => exact Keeps.pure _
  | cons kv kvs ih =>
    refine Keeps.bind (Keeps.get_bind fun db => ?_) fun _ => ih (n + 1)
    split
    · exact Keeps.throw _
    · split
      · exact Keeps.modify fun _ h => ⟨h.tags, h.links⟩
      · exact Keeps.throw _

theorem validateTagsInScope_unique (tags : List String) : Keeps (Stays Tables.Unique) (validateTagsInScope x tags scope) := by
  intro db h
  rcases exec_validate x scope tags db with ⟨-, hrun⟩ | ⟨-, e, hrun⟩
  all_goals rwa [hrun]

theorem ensureItemInScope_unique : Keeps (Stays Tables.Unique) (ensureItemInScope itemId scope) := by
  intro db h
  rcases exec_ensureItem scope itemId db with ⟨-, hrun⟩ | ⟨-, e, hrun⟩
  all_goals rwa [hrun]

theorem create_unique (x : Externals) (scope : PasswordsScope) (input : PasswordInput) (u : Uuids) (now : String) :
    Keeps (Stays Tables.Unique) (extensionPasswordCreate x scope input u now) := by
  refine (validateTagsInScope_unique _).bind fun _ => Keeps.bind (Keeps.get_bind fun db => ?_) fun _ =>
    (upsertAndLinkTags_unique _ _).bind fun _ => (insertKeyValues_unique _ _).bind fun _ => Keeps.pure _
  split
  · exact Keeps.throw _
  · exact Keeps.modify fun _ h => ⟨h.tags, h.links⟩

theorem update_unique (x : Externals) (scope : PasswordsScope) (itemId : String) (input : PasswordInput) (u : Uuids) (now : String) :
    Keeps (Stays Tables.Unique) (extensionPasswordUpdate x scope itemId input u now) :=
  ensureItemInScope_unique.bind fun _ => (validateTagsInScope_unique _).bind fun _ =>
    (Keeps.modify fun _ h => ⟨h.tags, h.links⟩).bind fun _ =>
      (Keeps.modify fun _ h => ⟨h.tags, h.links.sublist (List.filter_sublist.map _)⟩).bind fun _ =>
        (upsertAndLinkTags_unique _ _).bind fun _ => (Keeps.modify fun _ h => ⟨h.tags, h.links⟩).bind fun _ =>
          insertKeyValues_unique _ _

theorem tagNames_nodup (h : db.Unique) (itemId : String) : (db.tagNames itemId).Nodup := by
  refine List.nodup_flatMap.2 ⟨fun l _ => h.tags.sublist (List.filter_sublist.map _), ?_⟩
  have hlinks : (db.links.filter fun l => l.itemId = itemId).Pairwise fun l l' => (l.itemId, l.tagId) ≠ (l'.itemId, l'.tagId) :=
    List.pairwise_map.1 (h.links.sublist (List.filter_sublist.map _))
  refine hlinks.imp_of_mem fun {l l'} hl hl' hne name hname hname' => hne ?_
  obtain ⟨t, ht, rfl⟩ := List.mem_map.1 hname
  obtain ⟨t', ht', hsame⟩ := List.mem_map.1 hname'
  obtain ⟨ht, hid⟩ := List.mem_filter.1 ht
  obtain ⟨ht', hid'⟩ := List.mem_filter.1 ht'
  obtain rfl := List.inj_on_of_nodup_map h.tags ht' ht hsame
  rw [of_decide_eq_true (List.mem_filter.1 hl).2, of_decide_eq_true (List.mem_filter.1 hl').2,
    ← of_decide_eq_true hid, ← of_decide_eq_true hid']

/-! ## Encodings -/

theorem getAutofillAliases_nonEmpty : getAutofillAliases c (nonEmpty (serializeAliases c aliases)) = aliases := by
  cases aliases with
  | none => rfl
  | some a =>
    have hne := c.print_ne a
    simp [serializeAliases, nonEmpty, getAutofillAliases, hne, c.parse_print]

theorem nonEmpty_eq_iff {s : Option String} : nonEmpty s = s ↔ s ≠ some "" := by
  by_cases h : s = some "" <;> simp [nonEmpty, h]

theorem nonEmpty_fields_iff {f : ItemFields} :
    f.nonEmpty.withoutAliases = f.withoutAliases ↔ some "" ∉ f.texts := by
  simp only [ItemFields.withoutAliases, ItemFields.nonEmpty, ItemFields.mk.injEq, nonEmpty_eq_iff,
    ItemFields.texts, List.mem_cons, List.not_mem_nil, or_false, not_or, true_and, ne_comm (a := some "")]

theorem nonEmpty_keyValues_iff {kvs : List (Option String × Option String)} :
    kvs.map (fun kv => (nonEmpty kv.1, nonEmpty kv.2)) = kvs ↔ ∀ kv ∈ kvs, kv.1 ≠ some "" ∧ kv.2 ≠ some "" := by
  induction kvs with
  | nil => simp
  | cons kv kvs ih =>
    rw [List.map_cons, List.cons_eq_cons, ih, List.forall_mem_cons]
    exact and_congr_left' (Prod.mk.injEq .. ▸ and_congr nonEmpty_eq_iff nonEmpty_eq_iff)

theorem listed_tags_iff {names : List String} (hnodup : names.Nodup) (hne : names ≠ []) :
    (if String.intercalate "," names.dedup = "" then [] else (String.intercalate "," names.dedup).splitOn ",").Perm names ↔
      (∀ name ∈ names, ',' ∉ name.toList) ∧ ∃ name ∈ names, name ≠ "" := by
  have hjoined : String.intercalate "," names = "" ↔ names = [""] := intercalate_eq_empty_iff.trans (or_iff_right hne)
  rw [hnodup.dedup]
  constructor
  · intro h
    split at h
    · exact absurd h.symm.eq_nil hne
    · next hempty =>
      refine ⟨fun name hname => not_mem_of_mem_splitOn_comma (h.mem_iff.2 hname), ?_⟩
      by_contra hall
      push Not at hall
      obtain ⟨name, rest, rfl⟩ := List.exists_cons_of_ne_nil hne
      obtain rfl := hall name List.mem_cons_self
      refine hempty (hjoined.2 (congrArg _ (List.eq_nil_iff_forall_not_mem.2 fun name hname => ?_)))
      obtain rfl := hall name (List.mem_cons_of_mem _ hname)
      exact (List.nodup_cons.1 hnodup).1 hname
  · rintro ⟨hcommas, name, hname, hnonempty⟩
    rw [if_neg, splitOn_intercalate hcommas hne]
    intro hempty
    rw [hjoined.1 hempty] at hname
    exact hnonempty (List.mem_singleton.1 hname)

/-! ## Reading what was written -/

/-- Tables that hold the input are read back exactly if the input is legible. -/
theorem Tables.Holds.readsBack_iff (h : db.Holds itemId input) (hunique : db.Unique) (hadmits : db.admits scope itemId = true)
    (htags : input.tags ≠ []) (haliases : input.fields.autofillAliases = serializeAliases c aliases) :
    db.ReadsBack c scope itemId input aliases ↔ input.Legible := by
  obtain ⟨i, hi, hfields⟩ := List.map_eq_singleton_iff.1 h.fields
  have hid : i.id = itemId := by
    have hmem : i ∈ db.items.filter (·.id = itemId) := by rw [hi]; exact List.mem_singleton_self i
    exact of_decide_eq_true (List.mem_filter.1 hmem).2
  let full : PasswordItemFull :=
    ⟨i.id, i.fields.nonEmpty, db.tagNames itemId, db.itemKeyValues itemId, nonEmpty i.createdAt, nonEmpty i.updatedAt⟩
  have hselect : db.selectItem scope itemId = [i] := by
    rw [Tables.selectItem, ← hi]
    exact List.filter_congr fun i' _ => by rw [hadmits, Bool.and_true]
  have hread : exec (extensionPasswordRead scope itemId) db = (.ok full, db) := by
    rw [extensionPasswordRead, exec_get_bind, hselect]
    rfl
  have hlist : exec (extensionPasswordList scope) db = (.ok ((db.items.filter (db.admits scope ·.id)).map db.summary), db) := rfl
  have hlisted : ((db.items.filter (db.admits scope ·.id)).map db.summary).filter (·.id = itemId) = [db.summary i] := by
    rw [List.filter_map, List.filter_filter]
    have hfilter : db.items.filter (fun i' => ((fun s : PasswordItemSummary => decide (s.id = itemId)) ∘ db.summary) i' &&
        db.admits scope i'.id) = [i] := by
      rw [← hi]
      refine List.filter_congr fun i' _ => ?_
      by_cases h' : i'.id = itemId
      · simp [Function.comp, Tables.summary, h', hadmits]
      · simp [Function.comp, Tables.summary, h']
    rw [hfilter, List.map_singleton]
  have hne : db.tagNames itemId ≠ [] := by
    obtain ⟨tag, htag⟩ := List.exists_mem_of_ne_nil _ htags
    exact List.ne_nil_of_mem ((h.tags tag).2 htag)
  have hsame : full.Same c input aliases ↔
      some "" ∉ input.fields.texts ∧ ∀ kv ∈ input.keyValues, kv.1 ≠ some "" ∧ kv.2 ≠ some "" := by
    have hkeyValues : full.keyValues.map (·.2) = input.keyValues.map fun kv => (nonEmpty kv.1, nonEmpty kv.2) := by
      rw [← h.keyValues, List.map_map]
      exact List.map_map
    have haliases' : getAutofillAliases c full.fields.autofillAliases = aliases := by
      change getAutofillAliases c (nonEmpty i.fields.autofillAliases) = aliases
      rw [hfields, haliases, getAutofillAliases_nonEmpty]
    have hplain : full.fields.withoutAliases = input.fields.withoutAliases ↔ some "" ∉ input.fields.texts := by
      rw [← hfields]
      exact nonEmpty_fields_iff
    rw [← hplain, ← nonEmpty_keyValues_iff, ← hkeyValues]
    exact ⟨fun hs => ⟨hs.fields, hs.keyValues⟩, fun hs => ⟨hs.1, haliases', h.tags, hs.2⟩⟩
  have hagrees : (db.summary i).Agrees full ↔ (∀ tag ∈ input.tags, ',' ∉ tag.toList) ∧ ∃ tag ∈ input.tags, tag ≠ "" := by
    have htagNames := listed_tags_iff (tagNames_nodup hunique itemId) hne
    simp only [h.tags] at htagNames
    rw [← htagNames]
    constructor
    · intro ha
      have := ha.tags
      rwa [Tables.summary, hid] at this
    · intro hperm
      refine ⟨rfl, rfl, rfl, rfl, rfl, rfl, ?_, rfl, rfl⟩
      rwa [Tables.summary, hid]
  constructor
  · rintro ⟨full', items, summary, hread', -, hlist', hsummary, hs, ha⟩
    obtain rfl : full = full' := Except.ok.inj (Prod.mk.inj (hread.symm.trans hread')).1
    obtain rfl := Except.ok.inj (Prod.mk.inj (hlist.symm.trans hlist')).1
    obtain rfl := List.singleton_inj.1 (hlisted.symm.trans hsummary)
    exact ⟨(hsame.1 hs).1, (hsame.1 hs).2, (hagrees.1 ha).1, (hagrees.1 ha).2⟩
  · intro hl
    exact ⟨full, _, _, hread, hid, hlist, hlisted, hsame.2 ⟨hl.fields, hl.keyValues⟩, hagrees.2 ⟨hl.commas, hl.tags⟩⟩

theorem ne_nil_of_validTags (h : validTags scope input.tags = true) : input.tags ≠ [] := by
  intro hnil
  rw [hnil] at h
  cases h

/-- After an update or a create that succeeded, the item is read and listed as the input exactly if the input is legible. -/
theorem read_back_iff (c : AliasJson) (x : Externals) (scope readScope : PasswordsScope) (input : PasswordInput)
    (aliases : Option c.Aliases) (u : Uuids) (now : String) (db db' : Tables) (hkeyed : db.Keyed) (hunique : db.Unique)
    (hnew : u.New db) (haliases : input.fields.autofillAliases = serializeAliases c aliases) :
    (∀ itemId, exec (extensionPasswordUpdate x scope itemId input u now) db = (.ok (), db') →
      db'.admits readScope itemId = true → (db'.ReadsBack c readScope itemId input aliases ↔ input.Legible)) ∧
    ∀ itemId, exec (extensionPasswordCreate x scope input u now) db = (.ok itemId, db') →
      db'.admits readScope itemId = true → (db'.ReadsBack c readScope itemId input aliases ↔ input.Legible) := by
  constructor
  · intro itemId hrun hadmits
    have hunique' : db'.Unique := by
      have hkept := update_unique x scope itemId input u now db hunique
      rwa [hrun] at hkept
    obtain ⟨_, db₁, hensure, hrest⟩ := exec_bind_eq_ok hrun
    obtain ⟨_, db₂, hvalidate, -⟩ := exec_bind_eq_ok hrest
    have hitem := (exec_ensureItem scope itemId db).resolve_right fun ⟨_, e, he⟩ => by
      rw [he] at hensure
      cases hensure
    have hvalid := (exec_validate x scope input.tags db₁).resolve_right fun ⟨_, e, he⟩ => by
      rw [he] at hvalidate
      cases hvalidate
    obtain ⟨db'', hrun', hholds⟩ := exec_update x now hkeyed hnew hitem.1 hvalid.1
    obtain rfl := (Prod.mk.inj (hrun'.symm.trans hrun)).2
    exact hholds.readsBack_iff hunique' hadmits (ne_nil_of_validTags hvalid.1) haliases
  · intro itemId hrun hadmits
    have hunique' : db'.Unique := by
      have hkept := create_unique x scope input u now db hunique
      rwa [hrun] at hkept
    obtain ⟨_, db₁, hvalidate, -⟩ := exec_bind_eq_ok hrun
    have hvalid := (exec_validate x scope input.tags db).resolve_right fun ⟨_, e, he⟩ => by
      rw [he] at hvalidate
      cases hvalidate
    obtain ⟨db'', hrun', hholds⟩ := exec_create x now hkeyed hnew hvalid.1
    obtain ⟨hid, rfl⟩ := Prod.mk.inj (hrun'.symm.trans hrun)
    obtain rfl := Except.ok.inj hid
    exact hholds.readsBack_iff hunique' hadmits (ne_nil_of_validTags hvalid.1) haliases

def emptyAliases : AliasJson where
  Aliases := Unit
  print _ := "{}"
  parse text := if text = "{}" then some () else none
  print_ne _ := by decide
  parse_print _ := rfl

theorem pinTables_unique : pinTables.Unique := ⟨by decide, by decide⟩

def aliasInput : PasswordInput := ⟨{ title := some "bank", autofillAliases := some "{}" }, ["home"], [(some "pin", some "1234")]⟩

theorem read_back_pin :
    ∃ db', exec (extensionPasswordUpdate mailExternals .all "s" aliasInput (uuidsOf 'b') "1") pinTables = (.ok (), db') ∧
      (db'.ReadsBack emptyAliases .all "s" aliasInput (some ()) ↔ aliasInput.Legible) := by
  have hitem : (pinTables.selectItem .all "s").isEmpty = false := by decide
  have hvalid : validTags .all aliasInput.tags = true := by decide
  obtain ⟨db', hrun, -⟩ := exec_update mailExternals "1" pinTables_keyed uuidsOf_new hitem hvalid
  exact ⟨db', hrun, (read_back_iff emptyAliases mailExternals .all .all aliasInput (some ()) (uuidsOf 'b') "1" pinTables db'
    pinTables_keyed pinTables_unique uuidsOf_new rfl).1 "s" hrun rfl⟩

def commaInput : PasswordInput := ⟨{ title := some "bank" }, ["home, work"], []⟩

/-- The tag is read, and listed as two. -/
theorem comma_tag_listed_apart :
    ∃ db', exec (extensionPasswordUpdate mailExternals .all "s" commaInput (uuidsOf 'b') "1") pinTables = (.ok (), db') ∧
      ¬db'.ReadsBack emptyAliases .all "s" commaInput none := by
  have hitem : (pinTables.selectItem .all "s").isEmpty = false := by decide
  have hvalid : validTags .all commaInput.tags = true := by decide
  obtain ⟨db', hrun, hholds⟩ := exec_update mailExternals "1" pinTables_keyed uuidsOf_new hitem hvalid
  have hunique : db'.Unique := by
    have hkept := update_unique mailExternals .all "s" commaInput (uuidsOf 'b') "1" pinTables pinTables_unique
    rwa [hrun] at hkept
  refine ⟨db', hrun, fun h => ?_⟩
  have hlegible := (hholds.readsBack_iff hunique rfl (by decide) rfl).1 h
  exact hlegible.commas "home, work" List.mem_cons_self (by decide)

end HaexVault.Passwords
