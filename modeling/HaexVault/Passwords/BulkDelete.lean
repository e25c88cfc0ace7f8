import HaexVault.Passwords.Trash
/-!
# Deletes of a selection

A run of `bulkDeleteAsync` over the entries of a list, in any order, and `emptyTrashAsync`.
`Reached` is what the entries so far have left; from it each entry is moved to the trash or
deleted for good as the state before the call says, as long as the list is separate.
-/

namespace HaexVault.Passwords.Groups

open Lib Lib.Fallible Lib.Forest

/-! ## Before the call -/

section Before
variable {s : Store} {entries P : List SelectionEntry} {e x : SelectionEntry} {g : GroupId}

theorem not_inTrash_trash (hforest : s.groups.Forest) : ¬s.InTrash (.group trashGroupId) := by
  rintro ⟨p, hp, hup⟩
  exact (hforest trashGroupId).not_under hp hup

theorem under_iff_beneath : Under s.groups.parentOf g h ↔ g = h ∨ s.Beneath (.group g) h := by
  constructor
  · intro hup
    rcases Relation.ReflTransGen.cases_head hup with hsame | ⟨p, hp, hph⟩
    · exact .inl hsame
    · exact .inr ⟨p, hp, hph⟩
  · rintro (rfl | ⟨p, hp, hph⟩)
    · exact .refl
    · exact .head hp hph

theorem Store.Doomed.inTrash (h : s.Doomed P e) : s.InTrash e := by
  obtain ⟨l, -, hin, rfl | ⟨g, rfl, p, hp, hup⟩⟩ := h
  · exact hin
  · exact ⟨p, hp, hup.trans (under_of_inTrash hin)⟩

theorem Store.Doomed.beneath (h : s.Doomed P (.group g)) (hx : s.Beneath x g) : s.Doomed P x := by
  obtain ⟨l, hl, hin, hcase⟩ := h
  obtain ⟨p, hp, hup⟩ := hx
  rcases hcase with rfl | ⟨d, rfl, q, hq, hqd⟩
  · exact ⟨_, hl, hin, .inr ⟨g, rfl, p, hp, hup⟩⟩
  · exact ⟨_, hl, hin, .inr ⟨d, rfl, p, hp, hup.trans (.head hq hqd)⟩⟩

theorem doomed_concat : s.Doomed (P ++ [e]) x ↔
    s.Doomed P x ∨ s.InTrash e ∧ (x = e ∨ ∃ g, e = .group g ∧ s.Beneath x g) := by
  constructor
  · rintro ⟨l, hl, hin, hcase⟩
    rcases List.mem_append.1 hl with hl | hl
    · exact .inl ⟨l, hl, hin, hcase⟩
    · obtain rfl := List.mem_singleton.1 hl
      exact .inr ⟨hin, hcase⟩
  · rintro (⟨l, hl, hin, hcase⟩ | ⟨hin, hcase⟩)
    · exact ⟨l, List.mem_append_left _ hl, hin, hcase⟩
    · exact ⟨e, List.mem_append_right _ (List.mem_singleton_self _), hin, hcase⟩

theorem moves_concat : (∃ l ∈ P ++ [e], s.Moves l) ↔ (∃ l ∈ P, s.Moves l) ∨ s.Moves e := by
  simp only [List.mem_append, List.mem_singleton, or_and_right, exists_or, exists_eq_left]

theorem Store.Loaded.has_of_inTrash (h : s.Loaded) (hin : s.InTrash e) : s.Has e := by
  obtain ⟨p, hp, -⟩ := hin
  cases e with
  | item i => exact h.items _ ((groupOf_eq_some_iff h.nodup).1 hp)
  | group g => exact (Table.parentOf_mem hp).1

theorem Store.Loaded.has_trash (h : s.Loaded) (hin : s.InTrash e) : s.Has (.group trashGroupId) := by
  obtain ⟨p, hp, hup⟩ := hin
  rcases Table.mem_of_under hup with rfl | hmem
  · cases e with
    | item i => exact h.groups _ ((groupOf_eq_some_iff h.nodup).1 hp) _ rfl
    | group g => exact (Table.parentOf_mem hp).2
  · exact hmem

theorem survives_trash (hforest : s.groups.Forest) :
    s.Survives P (.group trashGroupId) ↔ s.Has (.group trashGroupId) ∨ ∃ l ∈ P, s.Moves l := by
  rw [Store.Survives, and_iff_left fun hd => not_inTrash_trash hforest hd.inTrash, and_iff_right rfl]

theorem survives_congr {P' : List SelectionEntry} (h : ∀ l, l ∈ P ↔ l ∈ P') : s.Survives P x ↔ s.Survives P' x := by
  simp only [Store.Survives, Store.Doomed, h]

theorem Store.Separate.perm {entries' : List SelectionEntry} (h : s.Separate entries) (hperm : entries.Perm entries') :
    s.Separate entries' where
  there e he := h.there e (hperm.mem_iff.2 he)
  emptied g i hg := h.emptied g i (hperm.mem_iff.2 hg)
  apart g e hg hgm he := h.apart g e (hperm.mem_iff.2 hg) hgm (hperm.mem_iff.2 he)
  once e hm := hperm.count_eq e ▸ h.once e hm
  items_once g i hg hne := hperm.count_eq (.item i) ▸ h.items_once g i (hperm.mem_iff.2 hg) hne

theorem survives_of_ne (hne : x ≠ .group trashGroupId) : s.Survives P x ↔ s.Has x ∧ ¬s.Doomed P x := by
  rw [Store.Survives, or_iff_left fun h => hne h.1]

end Before

/-! ## A run -/

/-- Where the entries `P` have been deleted, starting from `s₀`. -/
structure Reached (s₀ : Store) (P : List SelectionEntry) (s : Store) : Prop where
  has : ∀ e, s.Has e ↔ s₀.Survives P e
  moved : ∀ e ∈ P, s₀.Moves e → s.place e = some trashGroupId
  stays : ∀ e, s.Has e → (s₀.Moves e → e ∉ P) → s.place e = s₀.place e
  live : Live s
  map : (∀ g, .group g ∈ P → g = trashGroupId) → ∀ i, s₀.InTrash (.item i) → mapGet s.itemGroupMap i = s₀.groupOf i

section Run
variable {s₀ s s' : Store} {entries P : List SelectionEntry} {e x : SelectionEntry} {g : GroupId}

theorem Reached.start (hloaded : s₀.Loaded) : Reached s₀ [] s₀ where
  has e := by
    refine ⟨fun h => .inl ⟨h, ?_⟩, ?_⟩
    · rintro ⟨l, hl, -⟩
      cases hl
    · rintro (⟨h, -⟩ | ⟨-, l, hl, -⟩)
      · exact h
      · cases hl
  moved e he := by cases he
  stays e _ _ := rfl
  live := live_load hloaded.nodup (fun i g hg => hloaded.groups _ ((groupOf_eq_some_iff hloaded.nodup).1 hg) g rfl) hloaded.map
  map _ i _ := by rw [hloaded.map, mapGet_load]

namespace Reached

theorem parent_cases (h : Reached s₀ P s) {a b : GroupId} (hp : s.groups.parentOf a = some b) :
    s₀.groups.parentOf a = some b ∨ b = trashGroupId ∧ .group a ∈ P ∧ s₀.Moves (.group a) := by
  by_cases hmoved : .group a ∈ P ∧ s₀.Moves (.group a)
  · have htrash : s.groups.parentOf a = some trashGroupId := h.moved _ hmoved.1 hmoved.2
    exact .inr ⟨Option.some.inj (hp.symm.trans htrash), hmoved⟩
  · have hsame : s.groups.parentOf a = s₀.groups.parentOf a :=
      h.stays (.group a) (Table.parentOf_mem hp).1 fun hm hmem => hmoved ⟨hmem, hm⟩
    exact .inl (hsame ▸ hp)

theorem ends (h : Reached s₀ P s) (hforest : s₀.groups.Forest) (a : GroupId) : Ends (cut s.groups.parentOf trashGroupId) a := by
  have htrash : Ends (cut s.groups.parentOf trashGroupId) trashGroupId := .of_none (Function.update_self ..)
  induction hforest a with
  | intro a _ ih =>
    refine ends_iff.2 fun b hb => ?_
    by_cases ha : a = trashGroupId
    · rw [ha, cut, Function.update_self] at hb
      cases hb
    · rw [cut, Function.update_of_ne ha] at hb
      rcases h.parent_cases hb with hold | ⟨rfl, -⟩
      · exact ih b hold
      · exact htrash

theorem under_cases (h : Reached s₀ P s) {a b : GroupId} (hup : Under s.groups.parentOf a b) :
    Under s₀.groups.parentOf a b ∨ Under s₀.groups.parentOf trashGroupId b ∧
      ∃ m, .group m ∈ P ∧ s₀.Moves (.group m) ∧ Under s₀.groups.parentOf a m := by
  induction hup using Relation.ReflTransGen.head_induction_on with
  | refl => exact .inl .refl
  | @head a c hac _ ih =>
    rcases h.parent_cases hac with hold | ⟨rfl, hmem, hm⟩
    · rcases ih with hcb | ⟨htb, m, hmem, hm, hcm⟩
      · exact .inl (.head hold hcb)
      · exact .inr ⟨htb, m, hmem, hm, .head hold hcm⟩
    · rcases ih with htb | ⟨htb, -⟩ <;> exact .inr ⟨htb, a, hmem, hm, .refl⟩

theorem under_of_old (h : Reached s₀ P s) {a b : GroupId} (ha : s.Has (.group a))
    (hup : Under s₀.groups.parentOf a b) (hb : Under s₀.groups.parentOf b trashGroupId) : Under s.groups.parentOf a b := by
  induction hup using Relation.ReflTransGen.head_induction_on with
  | refl => exact .refl
  | @head a c hac hcb ih =>
    have hin : s₀.InTrash (.group a) := ⟨c, hac, hcb.trans hb⟩
    have hsame : s.groups.parentOf a = s₀.groups.parentOf a := h.stays (.group a) ha fun hm => absurd hin hm.2
    have hac' := hsame.trans hac
    exact .head hac' (ih (Table.parentOf_mem hac').2)

theorem inTrash (h : Reached s₀ P s) (hhas : s.Has e) (hin : s₀.InTrash e) : s.InTrash e := by
  obtain ⟨p, hp, hup⟩ := hin
  have hplace : s.place e = some p := (h.stays e hhas fun hm => absurd ⟨p, hp, hup⟩ hm.2).trans hp
  have hmem : p ∈ s.groups.ids := by
    cases e with
    | item i => exact h.live.groups i p hplace
    | group g => exact (Table.parentOf_mem hplace).2
  exact ⟨p, hplace, h.under_of_old hmem hup .refl⟩

theorem moves (h : Reached s₀ P s) (hsep : s₀.Separate entries) (hP : P ⊆ entries) (he : e ∈ entries) (hnew : e ∉ P)
    (hm : s₀.Moves e) : s.Has e ∧ s.Moves e := by
  have hhas : s.Has e := (h.has e).2 (.inl ⟨hsep.there e he hm, fun hd => hm.2 hd.inTrash⟩)
  refine ⟨hhas, hm.1, ?_⟩
  rintro ⟨p, hp, hup⟩
  rw [h.stays e hhas fun _ => hnew] at hp
  rcases h.under_cases hup with hold | ⟨-, m, hmem, hmm, hpm⟩
  · exact hm.2 ⟨p, hp, hold⟩
  · exact hsep.apart m e (hP hmem) hmm he hm ⟨p, hp, hpm⟩

theorem concat_moved (h : Reached s₀ P s) (hforest : s₀.groups.Forest) (hloaded : s₀.Loaded) (hm : s₀.Moves e)
    (hmoved : Moved s e s') : Reached s₀ (P ++ [e]) s' where
  has x := by
    by_cases hx : x = .group trashGroupId
    · subst hx
      rw [hmoved.has, survives_trash hforest, moves_concat]
      exact iff_of_true (.inr rfl) (.inr (.inr hm))
    · rw [hmoved.has, or_iff_left hx, h.has, survives_of_ne hx, survives_of_ne hx, doomed_concat, or_iff_left]
      exact fun hin => hm.2 hin.1
  moved l hl hlm := by
    by_cases hle : l = e
    · exact hle ▸ hmoved.self
    · rw [hmoved.others l hle]
      refine h.moved l ?_ hlm
      exact (List.mem_append.1 hl).resolve_right fun hl => hle (List.mem_singleton.1 hl)
  stays x hx hout := by
    have hxe : x ≠ e := by
      rintro rfl
      exact hout hm (List.mem_append_right _ (List.mem_singleton_self _))
    rw [hmoved.others x hxe]
    by_cases hthere : s.Has x
    · exact h.stays x hthere fun hxm hmem => hout hxm (List.mem_append_left _ hmem)
    · obtain rfl := ((hmoved.has x).1 hx).resolve_left hthere
      have hold : ¬s₀.Has (.group trashGroupId) := fun hold => hthere ((h.has _).2 ((survives_trash hforest).2 (.inl hold)))
      exact (Table.parentOf_of_not_mem hthere).trans (Table.parentOf_of_not_mem hold).symm
  live := hmoved.live
  map hitems i hin := by
    cases e with
    | group g => exact absurd (congrArg _ (hitems g (by simp))) hm.1
    | item j =>
      have hij : i ≠ j := fun hsame => hm.2 (hsame ▸ hin)
      rw [hmoved.map j rfl ((h.has _).2 ((survives_trash hforest).2 (.inl (hloaded.has_trash hin)))) i hij]
      exact h.map (fun g hg => hitems g (List.mem_append_left _ hg)) i hin

/-- After a delete for good. -/
theorem concat_purged (h : Reached s₀ P s) (hforest : s₀.groups.Forest) (hsep : s₀.Separate entries) (hP : P ⊆ entries)
    (he : e ∈ entries) (hin : s₀.InTrash e) (hpurged : Purged s e s') : Reached s₀ (P ++ [e]) s' := by
  have hne : e ≠ .group trashGroupId := fun hsame => not_inTrash_trash hforest (hsame ▸ hin)
  have hnm : ¬s₀.Moves e := fun hm => hm.2 hin
  -- walks to the entry are old ones, for the trash is not under it
  have hwalk : ∀ g a, e = .group g → Under s.groups.parentOf a g → Under s₀.groups.parentOf a g := by
    rintro g a rfl hup
    refine (h.under_cases hup).resolve_right fun hback => hne (congrArg _ ?_)
    exact (hforest g).antisymm (under_of_inTrash hin) hback.1
  have hgone : ∀ x, s.Has x → (Purges s e x ↔ x = e ∨ ∃ g, e = .group g ∧ s₀.Beneath x g) := by
    intro x hx
    cases x with
    | item i =>
      refine ⟨fun hp => .inl (Eq.symm hp), ?_⟩
      rintro (hsame | ⟨g, rfl, hb⟩)
      · exact hsame.symm
      · exact absurd hb (hsep.emptied g i he hin)
    | group a =>
      constructor
      · rintro ⟨g, rfl, hup⟩
        rcases under_iff_beneath.1 (hwalk g a rfl hup) with rfl | hb
        · exact .inl rfl
        · exact .inr ⟨g, rfl, hb⟩
      · rintro (rfl | ⟨g, rfl, hb⟩)
        · exact ⟨a, rfl, .refl⟩
        · exact ⟨g, rfl, h.under_of_old hx (under_iff_beneath.2 (.inr hb)) (under_of_inTrash hin)⟩
  have hhas : ∀ x, s'.Has x ↔ s₀.Survives (P ++ [e]) x := by
    intro x
    rw [hpurged.has, and_congr_right fun hx => not_congr (hgone x hx), h.has]
    by_cases hx : x = .group trashGroupId
    · subst hx
      rw [survives_trash hforest, survives_trash hforest, moves_concat, or_iff_left hnm, and_iff_left]
      rintro (hsame | ⟨g, rfl, p, hp, hpg⟩)
      · exact hne hsame.symm
      · exact not_inTrash_trash hforest ⟨p, hp, hpg.trans (under_of_inTrash hin)⟩
    · rw [survives_of_ne hx, survives_of_ne hx, doomed_concat, and_iff_right hin, and_assoc, ← not_or]
  have hkept : ∀ x, s'.Has x → (∀ g p, e = .group g → s.place x = some p → ¬Under s.groups.parentOf p g) →
      s'.place x = s.place x := hpurged.place
  refine ⟨hhas, fun l hl hlm => ?_, fun x hx hout => ?_, hpurged.live, fun hitems i hi => ?_⟩
  · have hlP : l ∈ P := (List.mem_append.1 hl).resolve_right fun hl => hnm (List.mem_singleton.1 hl ▸ hlm)
    have hplace := h.moved l hlP hlm
    have hl' : s'.Has l := (hhas l).2 (.inl ⟨hsep.there l (hP hlP) hlm, fun hd => hlm.2 hd.inTrash⟩)
    rw [hkept l hl', hplace]
    rintro g p rfl hp hup
    obtain rfl := Option.some.inj (hplace.symm.trans hp)
    exact hne (congrArg _ ((hforest g).antisymm (under_of_inTrash hin) (hwalk g _ rfl hup)))
  · obtain ⟨hxs, hspared⟩ := (hpurged.has x).1 hx
    have hold := h.stays x hxs fun hxm hmem => hout hxm (List.mem_append_left _ hmem)
    rw [hkept x hx, hold]
    rintro g p rfl hp hup
    exact hspared ((hgone x hxs).2 (.inr ⟨g, rfl, p, hold.symm.trans hp, hwalk g p rfl hup⟩))
  · cases e with
    | group g => exact absurd (congrArg _ (hitems g (by simp))) hne
    | item j =>
      rw [hpurged.map j rfl]
      exact h.map (fun g hg => hitems g (List.mem_append_left _ hg)) i hi

theorem concat_same (h : Reached s₀ P s) (hnm : ¬s₀.Moves e) (hdoomed : s₀.InTrash e → s₀.Doomed P e)
    (hhas : ∀ x, s'.Has x ↔ s.Has x) (hplace : s'.place = s.place) (hlive : Live s')
    (hmap : (∀ g, .group g ∈ P ++ [e] → g = trashGroupId) → s'.itemGroupMap = s.itemGroupMap) : Reached s₀ (P ++ [e]) s' where
  has x := by
    have hsame : s₀.Doomed (P ++ [e]) x ↔ s₀.Doomed P x := by
      rw [doomed_concat, or_iff_left_iff_imp]
      rintro ⟨hin, rfl | ⟨g, rfl, hb⟩⟩
      · exact hdoomed hin
      · exact (hdoomed hin).beneath hb
    rw [hhas, h.has, Store.Survives, Store.Survives, hsame, moves_concat, or_iff_left hnm]
  moved l hl hlm := by
    rw [hplace]
    exact h.moved l ((List.mem_append.1 hl).resolve_right fun hl => hnm (List.mem_singleton.1 hl ▸ hlm)) hlm
  stays x hx hout := by
    rw [hplace]
    exact h.stays x ((hhas x).1 hx) fun hxm hmem => hout hxm (List.mem_append_left _ hmem)
  live := hlive
  map hitems i hi := by
    rw [hmap hitems]
    exact h.map (fun g hg => hitems g (List.mem_append_left _ hg)) i hi

/-- One entry more. -/
theorem step (h : Reached s₀ P s) (hforest : s₀.groups.Forest) (hloaded : s₀.Loaded) (hsep : s₀.Separate entries)
    (hP : P ++ [e] <+: entries) : ∃ s', exec (deleteEntry e) s = (.ok (), s') ∧ Reached s₀ (P ++ [e]) s' := by
  have hsub : P ++ [e] ⊆ entries := hP.subset
  have he : e ∈ entries := hsub (by simp)
  have hPe : P ⊆ entries := fun l hl => hsub (List.mem_append_left _ hl)
  have htwice : e ∈ P → 2 ≤ entries.count e := fun hmem => by
    refine le_trans ?_ (hP.sublist.count_le e)
    rw [List.count_append, List.count_singleton_self]
    exact Nat.succ_le_succ (List.count_pos_iff.2 hmem)
  by_cases htrash : e = .group trashGroupId
  · subst htrash
    refine ⟨s, rfl, h.concat_same (fun hm => hm.1 rfl) (fun hin => ?_) (fun _ => Iff.rfl) rfl h.live fun _ => rfl⟩
    exact absurd hin (not_inTrash_trash hforest)
  by_cases hin : s₀.InTrash e
  · by_cases hhas : s.Has e
    · obtain ⟨s', hs', hpurged⟩ := delete_inTrash h.live hhas (h.inTrash hhas hin) htrash
      exact ⟨s', hs', h.concat_purged hforest hsep hPe he hin hpurged⟩
    · have hdoomed : s₀.Doomed P e := by
        by_contra hnot
        exact hhas ((h.has e).2 (.inl ⟨hloaded.has_of_inTrash hin, hnot⟩))
      cases e with
      | group g =>
        have hg : g ≠ trashGroupId := fun hsame => htrash (congrArg _ hsame)
        have hthere : s.Has (.group trashGroupId) :=
          (h.has _).2 ((survives_trash hforest).2 (.inl (hloaded.has_trash hin)))
        obtain ⟨s', hs', hsame, hplace, hlive⟩ := deleteGroup_absent h.live hg hhas hthere
        refine ⟨s', hs', h.concat_same (fun hm => hm.2 hin) (fun _ => hdoomed) hsame hplace hlive fun hitems => ?_⟩
        exact absurd (hitems g (by simp)) hg
      | item i =>
        obtain ⟨l, hl, hlin, rfl | ⟨g, rfl, hb⟩⟩ := hdoomed
        · obtain ⟨p, hp, hup⟩ := hin
          have hitems : ∀ g, .group g ∈ P → g = trashGroupId := by
            intro g hg
            by_contra hne
            have := hsep.items_once g i (hPe hg) hne
            have := htwice hl
            omega
          have hpthere : s.Has (.group p) := by
            refine (h.has _).2 (.inl ⟨hloaded.groups _ ((groupOf_eq_some_iff hloaded.nodup).1 hp) p rfl, ?_⟩)
            rintro ⟨l', hl', hl'in, hcase⟩
            obtain ⟨g, rfl⟩ : ∃ g, l' = .group g := by
              rcases hcase with rfl | ⟨g, rfl, -⟩
              · exact ⟨p, rfl⟩
              · exact ⟨g, rfl⟩
            exact not_inTrash_trash hforest (hitems g hl' ▸ hl'in)
          obtain ⟨s', hs', hpurged⟩ := deleteItem_purged h.live ((h.map hitems i ⟨p, hp, hup⟩).trans hp)
            (h.under_of_old hpthere hup .refl)
          exact ⟨s', hs', h.concat_purged hforest hsep hPe he ⟨p, hp, hup⟩ hpurged⟩
        · exact absurd hb (hsep.emptied g i (hPe hl) hlin)
  · have hm : s₀.Moves e := ⟨htrash, hin⟩
    have hnew : e ∉ P := fun hmem => absurd (htwice hmem) (by have := hsep.once e hm; omega)
    obtain ⟨hhas, hmoves⟩ := h.moves hsep hPe he hnew hm
    obtain ⟨s', hs', hmoved⟩ := delete_moves h.live hhas (h.ends hforest) hmoves
    exact ⟨s', hs', h.concat_moved hforest hloaded hm hmoved⟩

/-- All entries of a list. -/
theorem run (h : Reached s₀ P s) (hforest : s₀.groups.Forest) (hloaded : s₀.Loaded) (hsep : s₀.Separate entries)
    {rest : List SelectionEntry} (hP : P ++ rest = entries) :
    ∃ s', exec (rest.forM deleteEntry) s = (.ok (), s') ∧ Reached s₀ entries s' := by
  induction rest generalizing P s with
  | nil =>
    obtain rfl : P = entries := by simpa using hP
    exact ⟨s, rfl, h⟩
  | cons e rest ih =>
    have hsplit : (P ++ [e]) ++ rest = entries := by simpa using hP
    obtain ⟨s₁, hs₁, h₁⟩ := h.step hforest hloaded hsep ⟨rest, hsplit⟩
    obtain ⟨s', hs', h'⟩ := ih h₁ hsplit
    exact ⟨s', (exec_bind_ok hs₁).trans hs', h'⟩

end Reached

end Run

/-! ## What no entry does -/

/-- No row comes but the trash, and no item goes or is linked but the one that is deleted. -/
structure Narrows (e : SelectionEntry) (s s' : Store) : Prop where
  has : ∀ x, s'.Has x → s.Has x ∨ x = .group trashGroupId
  items : ∀ i, e ≠ .item i → s.Has (.item i) → s'.Has (.item i)
  links : ∀ i, e ≠ .item i → i ∈ s'.groupItems.map (·.itemId) → i ∈ s.groupItems.map (·.itemId)

section Narrow
variable {s s' : Store} {e : SelectionEntry}

instance : Std.Refl (Narrows e) := ⟨fun _ => ⟨fun _ => .inl, fun _ _ => id, fun _ _ => id⟩⟩

instance : IsTrans Store (Narrows e) where
  trans _ _ _ h h' :=
    ⟨fun x hx => (h'.has x hx).elim (h.has x) .inr, fun i hi => h'.items i hi ∘ h.items i hi,
      fun i hi => h.links i hi ∘ h'.links i hi⟩

theorem narrows_of_ids (hitems : s'.items = s.items) (hids : ∀ g, g ∈ s'.groups.ids → g ∈ s.groups.ids ∨ g = trashGroupId)
    (hlinks : ∀ i, e ≠ .item i → i ∈ s'.groupItems.map (·.itemId) → i ∈ s.groupItems.map (·.itemId)) : Narrows e s s' where
  has x hx := by
    cases x with
    | item i =>
      rw [Store.Has, hitems] at hx
      exact .inl hx
    | group g => exact (hids g hx).imp_right (congrArg _)
  items i _ hi := by
    rw [Store.Has, hitems]
    exact hi
  links := hlinks

theorem ensureTrash_narrows : Keeps (Narrows e) ensureTrash := by
  intro s
  obtain ⟨s', hs', h⟩ := exec_ensureTrash s
  rw [hs']
  refine narrows_of_ids h.items (fun g => (h.ids g).1) fun i _ hi => ?_
  rwa [h.links] at hi

theorem loadGroups_narrows : Keeps (Narrows e) loadGroups :=
  Keeps.modify fun _ => narrows_of_ids rfl (fun _ => .inl) fun _ _ => id

theorem deleteGroup_narrows (g : GroupId) : Keeps (Narrows e) (deleteGroup g) := by
  have hmove : Keeps (Narrows e) (onGroups (·.update g (fun g => g) (some trashGroupId))) := by
    intro s
    rw [onGroups, exec_get_bind]
    cases ht : s.groups.update g (fun g => g) (some trashGroupId) with
    | error _ => exact refl_of (Narrows e) s
    | ok t =>
      refine narrows_of_ids rfl (fun x hx => .inl ?_) fun _ _ => id
      exact Table.ids_update ht ▸ hx
  have hstatements : Keeps (Narrows e) (deleteOrTrash g) := by
    refine Keeps.get_bind fun s => ?_
    split
    · exact Keeps.throw _
    · refine Keeps.modify fun s => narrows_of_ids rfl (fun x hx => .inl (Table.mem_ids_delete.1 hx).1) fun i _ hi => ?_
      exact (List.filter_sublist.map _).subset hi
    · exact ensureTrash_narrows.bind fun _ => hmove
  rw [deleteGroup]
  split
  · exact Keeps.pure _
  · refine hstatements.bind fun _ => loadGroups_narrows.bind fun _ => Keeps.modify fun s => ?_
    split <;> exact narrows_of_ids rfl (fun _ => .inl) fun _ _ => id

theorem deleteItem_narrows (i : String) : Keeps (Narrows (.item i)) (deleteItem i) := by
  have hlink : Keeps (Narrows (.item i)) (linkItem i (some trashGroupId)) := by
    intro s
    rw [linkItem, exec_get_bind]
    split
    · exact refl_of (Narrows _) s
    · split
      · refine narrows_of_ids rfl (fun _ => .inl) fun j hj hmem => ?_
        obtain ⟨l', hl', rfl⟩ := List.mem_map.1 hmem
        obtain ⟨l, hl, rfl⟩ := List.mem_map.1 hl'
        split at hj
        · exact absurd rfl hj
        · rename_i hne
          rw [if_neg hne]
          exact List.mem_map_of_mem hl
      · split
        · refine narrows_of_ids rfl (fun _ => .inl) fun j hj hmem => ?_
          obtain ⟨l, hl, rfl⟩ := List.mem_map.1 hmem
          rcases List.mem_append.1 hl with hl | hl
          · exact List.mem_map_of_mem hl
          · obtain rfl := List.mem_singleton.1 hl
            exact absurd rfl hj
        · exact refl_of (Narrows _) s
  have htrash : Keeps (Narrows (.item i)) (trashItem i) :=
    ensureTrash_narrows.bind fun _ => hlink.bind fun _ => Keeps.modify fun _ => narrows_of_ids rfl (fun _ => .inl) fun _ _ => id
  refine Keeps.get_bind fun s => ?_
  split
  · exact htrash
  · split
    · exact Keeps.throw _
    · refine Keeps.modify fun s => ⟨fun x hx => .inl ?_, fun j hj hmem => ?_, fun j _ hmem => ?_⟩
      · cases x with
        | item j => exact (List.filter_sublist.map _).subset hx
        | group g => exact hx
      · obtain ⟨r, hr, rfl⟩ := List.mem_map.1 hmem
        refine List.mem_map_of_mem (List.mem_filter.2 ⟨hr, decide_eq_true fun hsame => hj ?_⟩)
        rw [List.mem_singleton.1 hsame]
      · exact (List.filter_sublist.map _).subset hmem
    · exact htrash

theorem deleteEntry_narrows (e : SelectionEntry) : Keeps (Narrows e) (deleteEntry e) := by
  cases e with
  | item i => exact deleteItem_narrows i
  | group g => exact deleteGroup_narrows g

end Narrow

/-! ## Every order -/

section Orders
variable {s s₁ s₂ s' : Store} {entries rest : List SelectionEntry} {a b e : SelectionEntry} {g : GroupId} {i : String}

theorem forM_has {l : List SelectionEntry} (h : exec (l.forM deleteEntry) s = (.ok (), s')) :
    (∀ x, s'.Has x → s.Has x ∨ x = .group trashGroupId) ∧ ∀ i, .item i ∉ l → s.Has (.item i) → s'.Has (.item i) := by
  induction l generalizing s with
  | nil =>
    cases h
    exact ⟨fun _ => .inl, fun _ _ => id⟩
  | cons e l ih =>
    obtain ⟨u, s₁, he, hrest⟩ := exec_bind_eq_ok h
    obtain ⟨hnew, hitems⟩ := ih hrest
    have hone := deleteEntry_narrows e s
    rw [he] at hone
    refine ⟨fun x hx => (hnew x hx).elim (hone.has x) .inr, fun i hout hi => ?_⟩
    obtain ⟨hne, hout⟩ := not_or.1 (mt List.mem_cons.2 hout)
    exact hitems i hout (hone.items i (Ne.symm hne) hi)

theorem exec_bulkDelete {l : List SelectionEntry} : exec (bulkDelete l) s = (.ok (), s') ↔
    ∃ s₁, exec (l.forM deleteEntry) s = (.ok (), s₁) ∧
      s' = { s₁ with itemGroupMap := s₁.groupItems.map fun l => (l.itemId, l.groupId) } := by
  constructor
  · intro h
    obtain ⟨u, s₁, hs₁, hload⟩ := exec_bind_eq_ok h
    exact ⟨s₁, hs₁, (congrArg Prod.snd hload).symm⟩
  · rintro ⟨s₁, hs₁, rfl⟩
    exact exec_bind_ok hs₁

theorem has_load {x : SelectionEntry} :
    Store.Has { s with itemGroupMap := s.groupItems.map fun l => (l.itemId, l.groupId) } x ↔ s.Has x := by
  cases x <;> rfl

def Always (s : Store) (entries : List SelectionEntry) : Prop :=
  ∀ l, l.Perm entries → ∃ s', exec (bulkDelete l) s = (.ok (), s') ∧ s.Trashes entries s'

theorem Always.forM (h : Always s entries) {l : List SelectionEntry} (hl : l.Perm entries) :
    ∃ s', exec (l.forM deleteEntry) s = (.ok (), s') ∧ ∀ x, s'.Has x ↔ s.Survives entries x := by
  obtain ⟨s', hs', htrashes⟩ := h l hl
  obtain ⟨s₁, hs₁, rfl⟩ := exec_bulkDelete.1 hs'
  exact ⟨s₁, hs₁, fun x => has_load.symm.trans (htrashes.has x)⟩

theorem Always.after_two (h : Always s entries) (hperm : (a :: b :: rest).Perm entries)
    (ha : exec (deleteEntry a) s = (.ok (), s₁)) (hb : exec (deleteEntry b) s₁ = (.ok (), s₂)) :
    (∀ x, s.Survives entries x → s₂.Has x ∨ x = .group trashGroupId) ∧
      ∀ i, .item i ∉ rest → s₂.Has (.item i) → s.Survives entries (.item i) := by
  obtain ⟨s', hs', hhas⟩ := h.forM hperm
  have hrest : exec (rest.forM deleteEntry) s₂ = (.ok (), s') := by
    rw [← hs']
    exact ((exec_bind_ok ha).trans (exec_bind_ok hb)).symm
  obtain ⟨hnew, hitems⟩ := forM_has hrest
  exact ⟨fun x hx => hnew x ((hhas x).2 hx), fun i hout hi => (hhas _).1 (hitems i hout hi)⟩

theorem Always.there (h : Always s entries) (he : e ∈ entries) (hm : s.Moves e) : s.Has e ∧ s.Survives entries e := by
  obtain ⟨s', -, htrashes⟩ := h entries (.refl _)
  have hsurvives := (htrashes.has e).1 (htrashes.moved e he hm).1
  exact ⟨((survives_of_ne hm.1).1 hsurvives).1, hsurvives⟩

theorem exists_perm_two (ha : a ∈ entries) (hb : b ∈ entries.erase a) :
    (a :: b :: (entries.erase a).erase b).Perm entries :=
  ((List.perm_cons_erase hb).symm.cons a).trans (List.perm_cons_erase ha).symm

theorem exists_perm_twice (h : 2 ≤ entries.count e) : (e :: e :: (entries.erase e).erase e).Perm entries := by
  refine exists_perm_two (List.count_pos_iff.1 (by omega)) (List.count_pos_iff.1 ?_)
  rw [List.count_erase_self]
  omega

theorem Always.not_moved_twice (h : Always s entries) (hperm : (a :: e :: rest).Perm entries) (hm : s.Moves e)
    (ha : exec (deleteEntry a) s = (.ok (), s₁)) (hmoved : Moved s a s₁) (hin : s₁.InTrash e) : False := by
  obtain ⟨hhas, hsurvives⟩ := h.there (hperm.subset (by simp)) hm
  obtain ⟨s₂, hs₂, hpurged⟩ := delete_inTrash hmoved.live ((hmoved.has e).2 (.inl hhas)) hin hm.1
  rcases (h.after_two hperm ha hs₂).1 e hsurvives with hstill | hsame
  · refine ((hpurged.has e).1 hstill).2 ?_
    cases e with
    | item i => rfl
    | group g => exact ⟨g, rfl, .refl⟩
  · exact hm.1 hsame

theorem Always.once (h : Always s entries) (hforest : s.groups.Forest) (hlive : Live s) (hm : s.Moves e) :
    entries.count e ≤ 1 := by
  by_contra hmany
  have hperm : (e :: e :: (entries.erase e).erase e).Perm entries := exists_perm_twice (by omega)
  obtain ⟨s₁, hs₁, hmoved⟩ := delete_moves hlive (h.there (hperm.subset (by simp)) hm).1 (fun g => (hforest g).cut) hm
  exact h.not_moved_twice hperm hm hs₁ hmoved ⟨trashGroupId, hmoved.self, .refl⟩

theorem Always.apart (h : Always s entries) (hforest : s.groups.Forest) (hlive : Live s) (hg : .group g ∈ entries)
    (hgm : s.Moves (.group g)) (he : e ∈ entries) (hm : s.Moves e) : ¬s.Beneath e g := by
  rintro ⟨p, hp, hup⟩
  have hne : e ≠ .group g := by
    rintro rfl
    exact (hforest g).not_under hp hup
  have hperm := exists_perm_two hg ((List.mem_erase_of_ne hne).2 he)
  obtain ⟨s₁, hs₁, hmoved⟩ := delete_moves hlive (h.there hg hgm).1 (fun g => (hforest g).cut) hgm
  refine h.not_moved_twice hperm hm hs₁ hmoved ⟨p, (hmoved.others e hne).trans hp, ?_⟩
  have hup₁ : Under s₁.groups.parentOf p g :=
    hup.congr fun x _ hx => hmoved.others (.group x) fun hsame => hx (SelectionEntry.group.inj hsame)
  exact hup₁.tail hmoved.self

theorem deleteGroup_loaded (hne : g ≠ trashGroupId) (h : exec (deleteGroup g) s = (.ok (), s')) :
    s'.itemGroupMap = s'.groupItems.map fun l => (l.itemId, l.groupId) := by
  rw [deleteGroup, if_neg hne] at h
  obtain ⟨u, s₁, hs₁, hrest⟩ := exec_bind_eq_ok h
  obtain ⟨s₂, hs₂, -, -, hlinks, hmap⟩ := exec_deleteGroup hne hs₁
  rw [deleteGroup, if_neg hne, exec_bind_ok hs₁, hrest] at hs₂
  cases hs₂
  rw [hmap, hlinks]

theorem deleteItem_gone (hi : ¬s.Has (.item i)) (hlink : i ∉ s.groupItems.map (·.itemId))
    (hmap : mapGet s.itemGroupMap i = none) : exec (deleteItem i) s ≠ (.ok (), s') := by
  obtain ⟨s₁, hs₁, h⟩ := exec_ensureTrash s
  intro hok
  rw [deleteItem, exec_get_bind, hmap] at hok
  dsimp only at hok
  rw [trashItem, exec_bind_ok hs₁] at hok
  obtain ⟨u, s₂, hs₂, -⟩ := exec_bind_eq_ok hok
  rw [linkItem, exec_get_bind] at hs₂
  split at hs₂
  · cases hs₂
  · split at hs₂
    · rename_i hany
      obtain ⟨l, hl, hid⟩ := List.any_eq_true.1 hany
      rw [h.links] at hl
      exact hlink (List.mem_map.2 ⟨l, hl, of_decide_eq_true hid⟩)
    · split at hs₂
      · rename_i hmem
        rw [h.items] at hmem
        exact hi hmem
      · cases hs₂

theorem Always.items_once (h : Always s entries) (hforest : s.groups.Forest) (hloaded : s.Loaded) (hlive : Live s)
    (hg : .group g ∈ entries) (hne : g ≠ trashGroupId) : entries.count (.item i) ≤ 1 := by
  by_contra hmany
  by_cases hm : s.Moves (.item i)
  · exact hmany (h.once hforest hlive hm)
  have hin : s.InTrash (.item i) := by
    by_contra hout
    exact hm ⟨by simp, hout⟩
  have hgmem : .group g ∈ entries.erase (.item i) := (List.mem_erase_of_ne (by simp)).2 hg
  have hagain : .item i ∈ (entries.erase (.item i)).erase (.group g) := by
    refine (List.mem_erase_of_ne (by simp)).2 (List.count_pos_iff.1 ?_)
    rw [List.count_erase_self]
    omega
  have hperm := ((List.perm_cons_erase hagain).symm.cons (.group g)).cons (.item i) |>.trans
    (exists_perm_two (List.count_pos_iff.1 (by omega)) hgmem)
  obtain ⟨s₁, hs₁, hpurged⟩ := delete_inTrash hlive (hloaded.has_of_inTrash hin) hin (by simp)
  obtain ⟨s', hs', -⟩ := h.forM hperm
  obtain ⟨u, s₂, hs₂, hrest⟩ := exec_bind_eq_ok ((exec_bind_ok hs₁).symm.trans hs')
  obtain ⟨u, s₃, hs₃, -⟩ := exec_bind_eq_ok hrest
  -- the item has gone before the group, and with the load after the group from the map
  have hnarrow := deleteGroup_narrows (e := .group g) g s₁
  rw [show exec (deleteGroup g) s₁ = (.ok (), s₂) from hs₂] at hnarrow
  have hgone : ¬s₂.Has (.item i) := by
    intro hi
    rcases hnarrow.has _ hi with hi | hi
    · exact ((hpurged.has _).1 hi).2 rfl
    · cases hi
  have hlink : i ∉ s₂.groupItems.map (·.itemId) := fun hmem => hpurged.links i rfl (hnarrow.links i (by simp) hmem)
  have hmap : mapGet s₂.itemGroupMap i = none := by
    rw [deleteGroup_loaded hne hs₂, mapGet, List.find?_eq_none.2]
    · rfl
    · rintro x hx hid
      obtain ⟨l, hl, rfl⟩ := List.mem_map.1 hx
      exact hlink (List.mem_map.2 ⟨l, hl, of_decide_eq_true hid⟩)
  exact deleteItem_gone hgone hlink hmap hs₃

theorem Purged.parent_le (h : Purged s e s') {x y : GroupId} (hxy : s'.groups.parentOf x = some y) :
    s.groups.parentOf x = some y := by
  have hx : s'.Has (.group x) := (Table.parentOf_mem hxy).1
  rw [← hxy]
  refine (h.place (.group x) hx ?_).symm
  rintro g p rfl hp hup
  exact ((h.has _).1 hx).2 ⟨g, rfl, .head hp hup⟩

theorem Always.emptied (h : Always s entries) (hforest : s.groups.Forest) (hloaded : s.Loaded) (hlive : Live s)
    (hg : .group g ∈ entries) (hin : s.InTrash (.group g)) : ¬s.Beneath (.item i) g := by
  intro hb
  have hne : SelectionEntry.group g ≠ .group trashGroupId := fun hsame => not_inTrash_trash hforest (hsame ▸ hin)
  have hdoomed : s.Doomed entries (.item i) := ⟨_, hg, hin, .inr ⟨g, rfl, hb⟩⟩
  have hlost : ¬s.Survives entries (.item i) := fun hs => ((survives_of_ne (by simp)).1 hs).2 hdoomed
  have hi : s.Has (.item i) := hloaded.has_of_inTrash hdoomed.inTrash
  by_cases hlisted : .item i ∈ entries
  · have hperm := exists_perm_two hg ((List.mem_erase_of_ne (by simp)).2 hlisted)
    obtain ⟨s₁, hs₁, hpurged⟩ := delete_inTrash hlive (hloaded.has_of_inTrash hin) hin hne
    have hi₁ : s₁.Has (.item i) := (hpurged.has _).2 ⟨hi, by rintro ⟨⟩⟩
    have hroot : s₁.place (.item i) = none := by
      obtain ⟨p, hp, hup⟩ := hb
      exact hpurged.emptied _ g p rfl hp hup
    have hends : ∀ x, Ends (cut s₁.groups.parentOf trashGroupId) x := fun x =>
      ((hforest x).of_le fun _ _ hxy => hpurged.parent_le hxy).cut
    obtain ⟨s₂, hs₂, hmoved⟩ := delete_moves hpurged.live hi₁ hends ⟨by simp, fun ⟨p, hp, _⟩ => by rw [hroot] at hp; cases hp⟩
    refine hlost ((h.after_two hperm hs₁ hs₂).2 i (fun hmem => ?_) ((hmoved.has _).2 (.inl hi₁)))
    have hcount := h.items_once hforest hloaded hlive hg (fun hsame => hne (congrArg _ hsame)) (i := i)
    have hpos := List.count_pos_iff.2 hmem
    rw [List.count_erase_self, List.count_erase_of_ne (by simp)] at hpos
    omega
  · obtain ⟨s', hs', hhas⟩ := h.forM (.refl _)
    exact hlost ((hhas _).1 ((forM_has hs').2 i hlisted hi))

end Orders

/-! ## The trash is emptied -/

section Empty
variable {s s' : Store}

theorem exec_purgeItems (ids : List String) : ∃ s', exec (purgeItems ids) s = (.ok (), s') ∧ s'.groups = s.groups ∧
    ∀ i, s'.Has (.item i) ↔ s.Has (.item i) ∧ i ∉ ids := by
  rw [purgeItems]
  split
  · rename_i hnone
    subst hnone
    exact ⟨s, rfl, rfl, fun i => by simp⟩
  · refine ⟨_, rfl, rfl, fun i => ?_⟩
    change i ∈ (s.items.filter (·.id ∉ ids)).map (·.id) ↔ i ∈ s.items.map (·.id) ∧ i ∉ ids
    simp only [List.mem_map, List.mem_filter, decide_eq_true_eq]
    constructor
    · rintro ⟨r, ⟨hr, hout⟩, rfl⟩
      exact ⟨⟨r, hr, rfl⟩, hout⟩
    · rintro ⟨⟨r, hr, rfl⟩, hout⟩
      exact ⟨r, ⟨hr, hout⟩, rfl⟩

theorem exec_purgeGroups (ids : List GroupId) : ∃ s', exec (purgeGroups ids) s = (.ok (), s') ∧ s'.items = s.items ∧
    ∀ g, s'.Has (.group g) ↔ s.Has (.group g) ∧ ∀ d ∈ ids, ¬Under s.groups.parentOf g d := by
  rw [purgeGroups]
  split
  · rename_i hnone
    subst hnone
    exact ⟨s, rfl, rfl, fun g => by simp⟩
  · exact ⟨_, rfl, rfl, fun g => Table.mem_ids_delete⟩

theorem mem_trashItems (hloaded : s.Loaded) {i : String} :
    i ∈ (s.itemGroupMap.filter fun e => e.2.any (· ∈ s.groups.descendantIdSet trashGroupId)).map (·.1) ↔ s.InTrash (.item i) := by
  rw [hloaded.map]
  constructor
  · intro h
    obtain ⟨x, hx, rfl⟩ := List.mem_map.1 h
    obtain ⟨hx, hany⟩ := List.mem_filter.1 hx
    obtain ⟨⟨i, p⟩, hl, rfl⟩ := List.mem_map.1 hx
    obtain ⟨g, rfl, hg⟩ := (Option.any_eq_true _ _).1 hany
    exact ⟨g, (groupOf_eq_some_iff hloaded.nodup).2 hl, Table.mem_descendantIdSet.1 (of_decide_eq_true hg)⟩
  · rintro ⟨g, hg, hup⟩
    have hl := (groupOf_eq_some_iff hloaded.nodup).1 hg
    refine List.mem_map.2 ⟨(i, some g), List.mem_filter.2 ⟨List.mem_map.2 ⟨_, hl, rfl⟩, ?_⟩, rfl⟩
    exact decide_eq_true (Table.mem_descendantIdSet.2 hup)

theorem exec_emptyTrash (hforest : s.groups.Forest) (hloaded : s.Loaded) :
    ∃ s', exec emptyTrash s = (.ok (), s') ∧ ∀ e, s'.Has e ↔ s.Has e ∧ ¬s.InTrash e := by
  obtain ⟨s₁, hs₁, hgroups, hitems⟩ := exec_purgeItems (s := s)
    ((s.itemGroupMap.filter fun e => e.2.any (· ∈ s.groups.descendantIdSet trashGroupId)).map (·.1))
  obtain ⟨s₂, hs₂, hsame, hids⟩ := exec_purgeGroups (s := s₁) ((s.groups.descendantIdSet trashGroupId).filter (· ≠ trashGroupId))
  have hrest : ∃ s', exec (loadGroups >>= fun _ => reselect (some trashGroupId)) s₂ = (.ok (), s') ∧
      ∀ e, s'.Has e ↔ s₂.Has e := by
    refine ⟨_, rfl, fun e => has_congr ?_ ?_⟩ <;> dsimp only <;> split <;> rfl
  obtain ⟨s', hs', hhas⟩ := hrest
  refine ⟨s', ?_, fun e => ?_⟩
  · rw [emptyTrash, exec_get_bind]
    dsimp only
    rw [exec_bind_ok hs₁, exec_bind_ok hs₂, hs']
  · rw [hhas]
    cases e with
    | item i =>
      rw [Store.Has, hsame]
      exact (hitems i).trans (and_congr_right fun _ => not_congr (mem_trashItems hloaded))
    | group g =>
      rw [hids, Store.Has, hgroups]
      refine and_congr_right fun _ => ⟨fun hfree hin => ?_, fun hout d hd hup => ?_⟩
      · refine hfree g (List.mem_filter.2 ⟨Table.mem_descendantIdSet.2 (under_of_inTrash hin), decide_eq_true ?_⟩) .refl
        rintro rfl
        exact not_inTrash_trash hforest hin
      · obtain ⟨hd, hne⟩ := List.mem_filter.1 hd
        have hdt := Table.mem_descendantIdSet.1 hd
        rcases under_iff_beneath.1 (hup.trans hdt) with rfl | hin
        · exact of_decide_eq_true hne ((hforest d).antisymm hdt hup)
        · exact hout hin

end Empty

/-- Every order of the entries moves what is not in the trash there and deletes the rest for good, and the trash is emptied of
all beneath it, exactly if the entries are separate. -/
theorem deletes_to_trash_iff (s : Store) (hforest : s.groups.Forest) (hloaded : s.Loaded) (entries : List SelectionEntry) :
    ((∀ l, l.Perm entries → ∃ s', exec (bulkDelete l) s = (.ok (), s') ∧ s.Trashes entries s') ∧
      ∃ s', exec emptyTrash s = (.ok (), s') ∧ ∀ e, s'.Has e ↔ s.Has e ∧ ¬s.InTrash e) ↔ s.Separate entries := by
  have hlive : Live s := (Reached.start hloaded).live
  rw [and_iff_left (exec_emptyTrash hforest hloaded)]
  constructor
  · intro h
    exact {
      there := fun e he hm => (Always.there h he hm).1
      emptied := fun g i hg hin => Always.emptied h hforest hloaded hlive hg hin
      apart := fun g e hg hgm he hm => Always.apart h hforest hlive hg hgm he hm
      once := fun e hm => Always.once h hforest hlive hm
      items_once := fun g i hg hne => Always.items_once h hforest hloaded hlive hg hne }
  · intro hsep l hl
    obtain ⟨s₁, hs₁, h⟩ := (Reached.start hloaded).run hforest hloaded (hsep.perm hl.symm) (List.nil_append l)
    refine ⟨_, exec_bulkDelete.2 ⟨s₁, hs₁, rfl⟩, fun e => ?_, fun e he hm => ?_⟩
    · rw [has_load, h.has, survives_congr fun x => hl.mem_iff]
    · have hmoved := h.moved e (hl.mem_iff.2 he) hm
      refine ⟨has_load.2 ((h.has e).2 (.inl ⟨hsep.there e he hm, fun hd => hm.2 hd.inTrash⟩)), ?_⟩
      cases e <;> exact hmoved

/-! ## A folder, and one in the trash -/

def oldId : GroupId := ⟨"old", by decide⟩

/-- A folder with an item, and a folder in the trash with another one. -/
def shelf : Store where
  groups :=
    { rows := [trashRow, ⟨work, some "Work", none, none, none, none, none⟩,
        ⟨oldId, some "Old", none, none, none, none, some trashGroupId⟩]
      ids_nodup := by decide
      parents := by decide }
  items := [⟨"login", {}, none, none⟩, ⟨"card", {}, none, none⟩]
  keyValues := []
  itemTags := []
  groupItems := [⟨"login", some work⟩, ⟨"card", some oldId⟩]
  itemGroupMap := [("login", some work), ("card", some oldId)]

theorem shelf_forest : shelf.groups.Forest := by
  have hparents : ∀ g ∈ shelf.groups.rows, ∀ p ∈ g.parentId, p = trashGroupId := by decide
  refine fun id => ends_iff.2 fun p hp => ?_
  obtain ⟨g, hg, rfl⟩ := List.mem_map.1 (Table.parentOf_mem hp).1
  rw [Table.parentOf_of_mem hg] at hp
  obtain rfl := hparents g hg p hp
  exact .of_none rfl

theorem shelf_loaded : shelf.Loaded where
  map := rfl
  nodup := by decide
  items := by decide
  groups := by decide

theorem shelf_moves : shelf.Moves (.item "login") := by
  refine ⟨by simp, ?_⟩
  rintro ⟨p, hp, hup⟩
  obtain rfl : work = p := Option.some.inj hp
  exact absurd ((under_of_none (p := shelf.groups.parentOf) rfl).1 hup) (by decide)

theorem shelf_deletes_to_trash :
    (∀ l, l.Perm [SelectionEntry.item "login", .item "card"] → ∃ s', exec (bulkDelete l) shelf = (.ok (), s') ∧
      shelf.Trashes [.item "login", .item "card"] s') ∧
      ∃ s', exec emptyTrash shelf = (.ok (), s') ∧ ∀ e, s'.Has e ↔ shelf.Has e ∧ ¬shelf.InTrash e := by
  have hitems : ∀ g, SelectionEntry.group g ∉ [SelectionEntry.item "login", .item "card"] := by simp
  have hnodup : [SelectionEntry.item "login", .item "card"].Nodup := by decide
  refine (deletes_to_trash_iff shelf shelf_forest shelf_loaded [.item "login", .item "card"]).2 ⟨fun e he _ => ?_,
    fun g _ hg => ?_, fun g _ hg => ?_, fun e _ => List.nodup_iff_count_le_one.1 hnodup e, fun g _ hg => ?_⟩
  · simp only [List.mem_cons, List.not_mem_nil, or_false] at he
    rcases he with rfl | rfl <;> decide
  all_goals exact absurd hg (hitems g)

/-- A folder listed before the item in it takes the item to the trash, where it is then deleted for good; a folder in the trash
leaves its item behind. -/
theorem mixed_selection_loses_item :
    (¬∃ s', exec (bulkDelete [.group work, .item "login"]) shelf = (.ok (), s') ∧
      shelf.Trashes [.group work, .item "login"] s') ∧
    ¬∃ s', exec (bulkDelete [.group oldId]) shelf = (.ok (), s') ∧ shelf.Trashes [.group oldId] s' := by
  constructor
  · rintro ⟨s', h, htrashes⟩
    have hleft : (exec (bulkDelete [.group work, .item "login"]) shelf).2.items.map (·.id) = ["card"] := by decide
    rw [h] at hleft
    have hthere := (htrashes.moved (.item "login") (by simp) shelf_moves).1
    rw [Store.Has, hleft] at hthere
    exact absurd hthere (by decide)
  · rintro ⟨s', h, htrashes⟩
    have hleft : (exec (bulkDelete [.group oldId]) shelf).2.items.map (·.id) = ["login", "card"] := by decide
    rw [h] at hleft
    have hthere : s'.Has (.item "card") := by
      rw [Store.Has, hleft]
      decide
    refine ((survives_of_ne (by simp)).1 ((htrashes.has _).1 hthere)).2 ⟨.group oldId, by simp, ?_, .inr ⟨oldId, rfl, ?_⟩⟩
    · exact ⟨trashGroupId, rfl, .refl⟩
    · exact ⟨oldId, rfl, .refl⟩

end HaexVault.Passwords.Groups
