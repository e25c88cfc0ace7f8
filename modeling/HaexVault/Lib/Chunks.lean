import Mathlib.Data.List.SplitBy
import Mathlib.Order.Lattice
/-!
# Packing runs into chunks

A stream comes as runs that must stay whole. `pack` fills one chunk after the
other and starts a new one when the next run would take the open one over the
limit. `cuts` says from the lengths of the runs alone where that happens, and
`forall_cuts` moves a statement about both sides of every cut between the stream
and its chunks.
-/

namespace HaexVault.Lib.Chunks

variable {α : Type}

/-- The runs packed behind the open chunk `cur`. -/
def pack (limit : Nat) : List α → List (List α) → List (List α)
  | cur, [] => if cur = [] then [] else [cur]
  | cur, g :: gs =>
    if cur ≠ [] ∧ limit < cur.length + g.length then cur :: pack limit g gs else pack limit (cur ++ g) gs

/-- Where `pack` starts another chunk: the next run starts at `pos`, and the open
chunk has `size` elements. -/
def cuts (limit : Nat) : Nat → Nat → List Nat → List Nat
  | _, _, [] => []
  | pos, size, n :: ns =>
    if size ≠ 0 ∧ limit < size + n then pos :: cuts limit (pos + n) n ns else cuts limit (pos + n) (size + n) ns

theorem flatten_pack (limit : Nat) (cur : List α) (gs : List (List α)) :
    (pack limit cur gs).flatten = cur ++ gs.flatten := by
  induction gs generalizing cur with
  | nil =>
    unfold pack
    split
    · simp_all
    · simp
  | cons g gs ih =>
    unfold pack
    split
    · simp [ih]
    · simp [ih]

theorem nil_not_mem_pack {limit : Nat} {cur : List α} {gs : List (List α)} (hgs : [] ∉ gs) : [] ∉ pack limit cur gs := by
  induction gs generalizing cur with
  | nil =>
    unfold pack
    split
    · simp
    · simp_all
  | cons g gs ih =>
    have hgs' : [] ∉ gs := fun h => hgs (List.mem_cons_of_mem _ h)
    unfold pack
    split
    · rename_i h
      simp only [List.mem_cons, not_or]
      exact ⟨fun e => h.1 e.symm, ih hgs'⟩
    · exact ih hgs'

theorem pack_ne_nil {limit : Nat} {cur : List α} {gs : List (List α)} (h : cur ≠ []) : pack limit cur gs ≠ [] := by
  intro he
  have hf := flatten_pack limit cur gs
  rw [he, List.flatten_nil] at hf
  exact h (List.append_eq_nil_iff.1 hf.symm).1

/-- What holds between the elements of different runs holds between those of different chunks. -/
theorem pack_pairwise {limit : Nat} {R : α → α → Prop} {cur : List α} {gs : List (List α)}
    (hcur : ∀ g ∈ gs, ∀ x ∈ cur, ∀ y ∈ g, R x y) (h : gs.Pairwise fun g g' => ∀ x ∈ g, ∀ y ∈ g', R x y) :
    (pack limit cur gs).Pairwise fun g g' => ∀ x ∈ g, ∀ y ∈ g', R x y := by
  induction gs generalizing cur with
  | nil =>
    unfold pack
    split
    · exact .nil
    · exact List.pairwise_singleton _ _
  | cons g gs ih =>
    obtain ⟨hg, hgs⟩ := List.pairwise_cons.1 h
    unfold pack
    split
    · refine List.pairwise_cons.2 ⟨fun chunk hchunk x hx y hy => ?_, ih hg hgs⟩
      have hmem : y ∈ (pack limit g gs).flatten := List.mem_flatten.2 ⟨chunk, hchunk, hy⟩
      rw [flatten_pack] at hmem
      rcases List.mem_append.1 hmem with hmem | hmem
      · exact hcur g List.mem_cons_self x hx y hmem
      · obtain ⟨g', hg', hy'⟩ := List.mem_flatten.1 hmem
        exact hcur g' (List.mem_cons_of_mem _ hg') x hx y hy'
    · refine ih (fun g' hg' x hx y hy => ?_) hgs
      rcases List.mem_append.1 hx with hx | hx
      · exact hcur g' (List.mem_cons_of_mem _ hg') x hx y hy
      · exact hg g' hg' x hx y hy

/-- A chunk above the limit is a run on its own. -/
theorem pack_bounded {limit : Nat} {cur chunk : List α} {gs : List (List α)} (h : chunk ∈ pack limit cur gs) :
    chunk.length ≤ limit ∨ chunk = cur ∨ chunk ∈ gs := by
  induction gs generalizing cur with
  | nil =>
    unfold pack at h
    split at h
    · cases h
    · exact .inr (.inl (List.mem_singleton.1 h))
  | cons g gs ih =>
    unfold pack at h
    split at h
    · rcases List.mem_cons.1 h with rfl | h
      · exact .inr (.inl rfl)
      · rcases ih h with hlen | rfl | hmem
        · exact .inl hlen
        · exact .inr (.inr List.mem_cons_self)
        · exact .inr (.inr (List.mem_cons_of_mem _ hmem))
    · rename_i hroom
      rcases ih h with hlen | rfl | hmem
      · exact .inl hlen
      · by_cases hcur : cur = []
        · subst hcur
          exact .inr (.inr List.mem_cons_self)
        · rw [List.length_append]
          exact .inl (not_lt.1 fun hlt => hroom ⟨hcur, hlt⟩)
      · exact .inr (.inr (List.mem_cons_of_mem _ hmem))

/-- The first chunk is the open one with some of the runs behind it. -/
theorem pack_head {limit : Nat} {cur chunk : List α} {gs : List (List α)} (hcur : cur ≠ [])
    (h : chunk ∈ (pack limit cur gs).head?) : ∃ gs', chunk = cur ++ gs'.flatten ∧ gs' <+: gs := by
  induction gs generalizing cur with
  | nil =>
    unfold pack at h
    rw [if_neg hcur] at h
    obtain rfl := Option.some.inj h
    exact ⟨[], by simp, List.prefix_rfl⟩
  | cons g gs ih =>
    unfold pack at h
    split at h
    · obtain rfl := Option.some.inj h
      exact ⟨[], by simp, List.nil_prefix⟩
    · obtain ⟨gs', rfl, hgs'⟩ := ih (List.append_ne_nil_of_left_ne_nil hcur g) h
      exact ⟨g :: gs', by simp, List.cons_prefix_cons.2 ⟨rfl, hgs'⟩⟩

/-- The first run of a chunk found no room in the one before. -/
theorem pack_full {limit : Nat} {cur : List α} {gs : List (List α)} (hgs : [] ∉ gs) :
    (pack limit cur gs).IsChain fun chunk chunk' =>
      ∃ g gs', chunk' = g ++ gs'.flatten ∧ (g :: gs') <:+: gs ∧ limit < chunk.length + g.length := by
  induction gs generalizing cur with
  | nil =>
    unfold pack
    split
    · exact .nil
    · exact List.isChain_singleton _
  | cons g gs ih =>
    have hgs' : [] ∉ gs := fun h => hgs (List.mem_cons_of_mem _ h)
    have hg : g ≠ [] := fun h => hgs (h ▸ List.mem_cons_self)
    have hlater : ∀ cur', (pack limit cur' gs).IsChain fun chunk chunk' =>
        ∃ g' gs', chunk' = g' ++ gs'.flatten ∧ (g' :: gs') <:+: g :: gs ∧ limit < chunk.length + g'.length := fun cur' =>
      (@ih cur' hgs').imp fun _ _ ⟨g', gs', he, hin, hlt⟩ => ⟨g', gs', he, hin.trans (List.suffix_cons g gs).isInfix, hlt⟩
    unfold pack
    split
    · rename_i hcut
      refine List.isChain_cons.2 ⟨fun chunk hchunk => ?_, hlater g⟩
      obtain ⟨gs', rfl, hpre⟩ := pack_head hg hchunk
      exact ⟨g, gs', rfl, (List.cons_prefix_cons.2 ⟨rfl, hpre⟩).isInfix, hcut.2⟩
    · exact hlater _

/-- Where neighbours of one key are never parted, the runs of a stream sorted by it have keys of their own. -/
theorem splitBy_apart {κ : Type} {le : κ → κ → Prop} (hanti : ∀ a b, le a b → le b a → a = b) {key : α → κ}
    {r : α → α → Bool} {l : List α} (hs : l.Pairwise fun a b => le (key a) (key b))
    (hr : ∀ a ∈ l, ∀ b ∈ l, key a = key b → r a b = true) :
    (l.splitBy r).Pairwise fun g g' => ∀ x ∈ g, ∀ y ∈ g', key x ≠ key y := by
  have hchain := List.isChain_getLast_head_splitBy r l
  rw [← List.flatten_splitBy r l] at hs hr
  generalize l.splitBy r = gs at hs hr hchain
  induction gs with
  | nil => exact .nil
  | cons g gs ih =>
    rw [List.flatten_cons] at hs hr
    obtain ⟨hsg, hsgs, hcross⟩ := List.pairwise_append.1 hs
    have hrgs : ∀ a ∈ gs.flatten, ∀ b ∈ gs.flatten, key a = key b → r a b = true := fun a ha b hb =>
      hr a (List.mem_append_right _ ha) b (List.mem_append_right _ hb)
    refine List.pairwise_cons.2 ⟨fun g' hg' x hx y hy he => ?_, ih hsgs hrgs hchain.tail⟩
    obtain ⟨g₁, rest, rfl⟩ := List.exists_cons_of_ne_nil (List.ne_nil_of_mem hg')
    obtain ⟨hne, hne₁, hpart⟩ := (List.isChain_cons_cons.1 hchain).1
    have hlast : g.getLast hne ∈ g := List.getLast_mem hne
    have hhead : g₁.head hne₁ ∈ (g₁ :: rest).flatten := List.mem_append_left _ (List.head_mem hne₁)
    have hy : y ∈ (g₁ :: rest).flatten := List.mem_flatten.2 ⟨g', hg', hy⟩
    -- all that stands between two elements of one key has that key, so the two runs were not parted
    have hx' : key (g.getLast hne) = key x := by
      have hle := hcross _ hlast y hy
      rw [← he] at hle
      rw [← List.dropLast_append_getLast hne] at hx hsg
      rcases List.mem_append.1 hx with hx | hx
      · exact hanti _ _ hle ((List.pairwise_append.1 hsg).2.2 x hx _ (List.mem_singleton_self _))
      · rw [List.mem_singleton.1 hx]
    have hy' : key (g₁.head hne₁) = key y := by
      have hle := hcross x hx _ hhead
      rw [he] at hle
      rw [List.flatten_cons, ← List.cons_head_tail hne₁, List.cons_append] at hy hsgs
      rcases List.mem_cons.1 hy with rfl | hy
      · rfl
      · exact hanti _ _ ((List.pairwise_cons.1 hsgs).1 y hy) hle
    rw [hr _ (List.mem_append_left _ hlast) _ (List.mem_append_right _ hhead) (hx'.trans (he.trans hy'.symm))] at hpart
    cases hpart

/-- In a sorted stream whose neighbours of one key are never parted, a run is below all that follow it. -/
theorem splitBy_pairwise {κ : Type} [LinearOrder κ] {key : α → κ} {r : α → α → Bool} {l : List α}
    (hs : l.Pairwise fun a b => key a ≤ key b) (hr : ∀ a ∈ l, ∀ b ∈ l, key a = key b → r a b = true) :
    (l.splitBy r).Pairwise fun g g' => ∀ x ∈ g, ∀ y ∈ g', key x < key y := by
  have hapart := splitBy_apart (fun _ _ => le_antisymm) hs hr
  rw [← List.flatten_splitBy r l] at hs
  refine hapart.imp₂ (fun g g' hne hle x hx y hy => ?_) (List.pairwise_flatten.1 hs).2
  exact lt_of_le_of_ne (hle x hx y hy) (hne x hx y hy)

/-- The cuts are the lengths of what stands before a chunk that is not the first. -/
theorem mem_cuts {limit n : Nat} {c : List α} {gs : List (List α)} {pos : Nat} (hgs : [] ∉ gs) :
    n ∈ cuts limit pos c.length (gs.map List.length) ↔
      ∃ done todo, pack limit c gs = done ++ todo ∧ done ≠ [] ∧ todo ≠ [] ∧
        n + c.length = pos + done.flatten.length := by
  induction gs generalizing c pos with
  | nil =>
    simp only [List.map_nil, cuts, List.not_mem_nil, false_iff]
    rintro ⟨done, todo, h, hd, ht, -⟩
    have hlen := congrArg List.length h
    have hd' := List.length_pos_iff.2 hd
    have ht' := List.length_pos_iff.2 ht
    -- one chunk at most, so nothing to split
    unfold pack at hlen
    split at hlen
    all_goals simp only [List.length_append, List.length_nil, List.length_singleton] at hlen; omega
  | cons g gs ih =>
    have hgs' : [] ∉ gs := fun h => hgs (List.mem_cons_of_mem _ h)
    have hg : g ≠ [] := fun h => hgs (h ▸ List.mem_cons_self)
    simp only [List.map_cons]
    unfold cuts pack
    have hcond : (c.length ≠ 0 ∧ limit < c.length + g.length) ↔ (c ≠ [] ∧ limit < c.length + g.length) := by
      rw [ne_eq, List.length_eq_zero_iff]
    -- a cut before `g`, or `g` joins the open chunk
    by_cases hcut : c ≠ [] ∧ limit < c.length + g.length
    · rw [if_pos hcut, if_pos (hcond.2 hcut), List.mem_cons, ih hgs']
      constructor
      · rintro (rfl | ⟨done, todo, h, hd, ht, hn⟩)
        · exact ⟨[c], pack limit g gs, rfl, by simp, pack_ne_nil hg, by simp⟩
        · refine ⟨c :: done, todo, by rw [h]; rfl, by simp, ht, ?_⟩
          simp only [List.flatten_cons, List.length_append]
          omega
      · rintro ⟨done, todo, h, hd, ht, hn⟩
        obtain ⟨x, done, rfl⟩ := List.exists_cons_of_ne_nil hd
        obtain ⟨rfl, hp⟩ := List.cons.inj h
        simp only [List.flatten_cons, List.length_append] at hn
        by_cases hdone : done = []
        · subst hdone
          exact .inl (by simpa using hn)
        · exact .inr ⟨done, todo, hp, hdone, ht, by omega⟩
    · rw [if_neg hcut, if_neg (fun h => hcut (hcond.1 h)), ← List.length_append, ih hgs']
      simp only [List.length_append]
      constructor
      · rintro ⟨done, todo, h, hd, ht, hn⟩
        exact ⟨done, todo, h, hd, ht, by omega⟩
      · rintro ⟨done, todo, h, hd, ht, hn⟩
        exact ⟨done, todo, h, hd, ht, by omega⟩

/-- What holds on both sides of every cut of the stream holds on both sides of
every boundary between its chunks. -/
theorem forall_cuts {limit : Nat} {gs : List (List α)} (hgs : [] ∉ gs) {R : List α → List α → Prop} :
    (∀ n ∈ cuts limit 0 0 (gs.map List.length), R (gs.flatten.take n) (gs.flatten.drop n)) ↔
      ∀ done todo, pack limit [] gs = done ++ todo → done ≠ [] → todo ≠ [] → R done.flatten todo.flatten := by
  have hflat : ∀ {done todo}, pack limit [] gs = done ++ todo → gs.flatten = done.flatten ++ todo.flatten := by
    intro done todo h
    have := flatten_pack limit [] gs
    rw [h, List.flatten_append, List.nil_append] at this
    exact this.symm
  constructor
  · intro h done todo hp hd ht
    have hn := h done.flatten.length ((mem_cuts (c := []) hgs).2 ⟨done, todo, hp, hd, ht, by simp⟩)
    rwa [hflat hp, List.take_left, List.drop_left] at hn
  · intro h n hn
    obtain ⟨done, todo, hp, hd, ht, hlen⟩ := (mem_cuts (c := []) hgs).1 hn
    simp only [List.length_nil, Nat.add_zero, Nat.zero_add] at hlen
    rw [hflat hp, hlen, List.take_left, List.drop_left]
    exact h done todo hp hd ht

end HaexVault.Lib.Chunks
