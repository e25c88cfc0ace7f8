import Mathlib.Data.String.Basic
import HaexVault.Space.PushCursor
import HaexVault.Sync.HlcOrder
import HaexVault.Sync.Push
/-!
# Chunking on both sides (`push.ts`, `sync_loop.rs`)

A push to a server and one to a leader cut their changes with loops of their own: one keeps
the open chunk as a list, the other one only its bounds. Both pack the groups of one HLC in
order (`push_eq_pack`, `syncLoop_eq_pack`), so they return the same chunks, and these are as
both comments promise (`chunks_agree`).
-/

namespace HaexVault.Sync.ChunkAgreement

open HaexVault.Lib.Chunks

variable {α : Type} (hlcTimestamp : α → String)

def otherHlc (changes : List α) (i : Nat) : Prop := changes[i]?.map hlcTimestamp ≠ changes[i - 1]?.map hlcTimestamp

instance (changes : List α) (i : Nat) : Decidable (otherHlc hlcTimestamp changes i) :=
  inferInstanceAs (Decidable (_ ≠ _))

def slice (changes : List α) (start stop : Nat) : List α := (changes.take stop).drop start

/-! ## `push.ts` -/

namespace Push

/-- The variables of `chunkChangesByHlc`. -/
structure Cursors (α : Type) where
  chunks : List (List α) := []
  currentChunk : List α := []
  groupStart : Nat := 0

def flushGroup (changes : List α) (softLimit : Nat) (s : Cursors α) (groupEnd : Nat) : Cursors α :=
  let groupSize := groupEnd - s.groupStart
  if groupSize = 0 then s
  else if 0 < s.currentChunk.length ∧ softLimit < s.currentChunk.length + groupSize then
    { s with chunks := s.chunks ++ [s.currentChunk], currentChunk := slice changes s.groupStart groupEnd }
  else { s with currentChunk := s.currentChunk ++ slice changes s.groupStart groupEnd }

def turn (changes : List α) (softLimit : Nat) (s : Cursors α) (i : Nat) : Cursors α :=
  if otherHlc hlcTimestamp changes i then { flushGroup changes softLimit s i with groupStart := i } else s

/-- What is returned: a current chunk that is not empty is the last. -/
def Cursors.result (s : Cursors α) : List (List α) :=
  if 0 < s.currentChunk.length then s.chunks ++ [s.currentChunk] else s.chunks

def chunkChangesByHlc (changes : List α) (softLimit : Nat) : List (List α) :=
  if changes.length = 0 then []
  else
    let s := (List.range' 1 (changes.length - 1)).foldl (turn hlcTimestamp changes softLimit) {}
    (flushGroup changes softLimit s changes.length).result

end Push

/-! ## `sync_loop.rs` -/

namespace SyncLoop

/-- The variables of `chunk_changes_by_hlc`. -/
structure Cursors (α : Type) where
  chunks : List (List α) := []
  chunkStart : Nat := 0
  groupStart : Nat := 0
  chunkLen : Nat := 0

def turn (changes : List α) (softLimit : Nat) (s : Cursors α) (i : Nat) : Cursors α :=
  if ¬(i = changes.length ∨ otherHlc hlcTimestamp changes i) then s
  else
    let groupSize := i - s.groupStart
    if 0 < s.chunkLen ∧ softLimit < s.chunkLen + groupSize then
      { chunks := s.chunks ++ [slice changes s.chunkStart s.groupStart]
        chunkStart := s.groupStart
        chunkLen := groupSize
        groupStart := i }
    else { s with chunkLen := s.chunkLen + groupSize, groupStart := i }

def chunkChangesByHlc (changes : List α) (softLimit : Nat) : List (List α) :=
  if changes.isEmpty then []
  else
    let s := (List.range' 1 changes.length).foldl (turn hlcTimestamp changes softLimit) {}
    if 0 < s.chunkLen then s.chunks ++ [changes.drop s.chunkStart] else s.chunks

end SyncLoop

/-! ## What is promised -/

def firstGroup : List α → List α
  | [] => []
  | c :: cs => c :: cs.takeWhile fun c' => hlcTimestamp c' == hlcTimestamp c

/-- The chunks are a partition in order, at HLC boundaries, and as full as the limit lets them be. -/
structure Partition (changes : List α) (softLimit : Nat) (chunks : List (List α)) : Prop where
  lossless : chunks.flatten = changes
  nonempty : [] ∉ chunks
  aligned : chunks.Pairwise fun chunk chunk' => ∀ c ∈ chunk, ∀ c' ∈ chunk', hlcTimestamp c ≠ hlcTimestamp c'
  bounded : ∀ chunk ∈ chunks, chunk.length ≤ softLimit ∨ ∀ c ∈ chunk, ∀ c' ∈ chunk, hlcTimestamp c = hlcTimestamp c'
  full : chunks.IsChain fun chunk chunk' => softLimit < chunk.length + (firstGroup hlcTimestamp chunk').length

/-! ## The groups -/

/-- The stretches of neighbours with one HLC. -/
def groups (changes : List α) : List (List α) := changes.splitBy fun c c' => hlcTimestamp c == hlcTimestamp c'

variable {hlcTimestamp} {changes group rest : List α} {last : α}

theorem groups_of_const (hne : group ≠ []) (h : ∀ c ∈ group, ∀ c' ∈ group, hlcTimestamp c = hlcTimestamp c') :
    groups hlcTimestamp group = [group] := by
  refine List.splitBy_of_isChain hne (List.Pairwise.isChain ?_)
  exact List.pairwise_of_forall_mem_list fun c hc c' hc' => beq_iff_eq.2 (h c hc c' hc')

theorem groups_append (h : ∀ c ∈ group ++ [last], hlcTimestamp c = hlcTimestamp last) {c : α}
    (hc : hlcTimestamp c ≠ hlcTimestamp last) :
    groups hlcTimestamp (group ++ [last] ++ c :: rest) = (group ++ [last]) :: groups hlcTimestamp (c :: rest) := by
  have hsplit := List.splitBy_append_cons (r := fun c c' : α => hlcTimestamp c == hlcTimestamp c') (l := group ++ [last])
    (a := c) rest (fun x hx => by
      rw [List.getLast?_concat] at hx
      obtain rfl := Option.some.inj hx
      simpa using hc.symm)
  have hconst := groups_of_const (List.concat_ne_nil last group) fun c hc c' hc' => (h c hc).trans (h c' hc').symm
  rw [groups, hsplit]
  exact congrArg (· ++ _) hconst

theorem const_of_mem_groups {g : List α} (h : g ∈ groups hlcTimestamp changes) :
    ∀ c ∈ g, ∀ c' ∈ g, hlcTimestamp c = hlcTimestamp c' := by
  have hchain := List.isChain_of_mem_splitBy h
  have hpair : g.Pairwise fun c c' => hlcTimestamp c = hlcTimestamp c' := by
    have htrans : IsTrans α fun c c' => hlcTimestamp c = hlcTimestamp c' := ⟨fun _ _ _ h h' => h.trans h'⟩
    exact (hchain.imp fun _ _ h => beq_iff_eq.1 h).pairwise
  have hsymm : Std.Symm fun c c' => hlcTimestamp c = hlcTimestamp c' := ⟨fun _ _ h => h.symm⟩
  intro c hc c' hc'
  exact List.Pairwise.forall_of_forall (R := fun c c' => hlcTimestamp c = hlcTimestamp c') (fun _ _ => rfl) hpair hc hc'

/-! ## The loops -/

theorem otherHlc_iff {pre : List α} {c : α} :
    otherHlc hlcTimestamp (pre ++ group ++ [last] ++ c :: rest) (pre.length + group.length + 1) ↔
      hlcTimestamp c ≠ hlcTimestamp last := by
  have hlen : (pre ++ group ++ [last]).length = pre.length + group.length + 1 := by simp [Nat.add_assoc]
  have hlen' : (pre ++ group).length = pre.length + group.length + 1 - 1 := by simp
  have hc : (pre ++ group ++ [last] ++ c :: rest)[pre.length + group.length + 1]? = some c := by
    rw [← hlen, List.getElem?_append_right le_rfl, Nat.sub_self]
    rfl
  have hlast : (pre ++ group ++ [last] ++ c :: rest)[pre.length + group.length + 1 - 1]? = some last := by
    rw [← hlen', List.append_assoc _ [last], List.getElem?_append_right le_rfl, Nat.sub_self]
    rfl
  rw [otherHlc, hc, hlast]
  simp

theorem slice_append (pre group rest : List α) :
    slice (pre ++ group ++ rest) pre.length (pre.length + group.length) = group := by
  rw [slice, ← List.length_append, List.take_left, List.drop_left]

theorem Push.flushGroup_pack (pre rest : List α) (hne : group ≠ []) (softLimit : Nat) (s : Push.Cursors α)
    (hstart : s.groupStart = pre.length) (gs : List (List α)) :
    let s' := Push.flushGroup (pre ++ group ++ rest) softLimit s (pre.length + group.length)
    s'.chunks ++ pack softLimit s'.currentChunk gs = s.chunks ++ pack softLimit s.currentChunk (group :: gs) := by
  have hlen : 0 < group.length := List.length_pos_iff.2 hne
  have hcond : 0 < s.currentChunk.length ↔ s.currentChunk ≠ [] := List.length_pos_iff
  simp only [Push.flushGroup, hstart, slice_append, Nat.add_sub_cancel_left]
  rw [if_neg (by omega), pack]
  by_cases hcut : s.currentChunk ≠ [] ∧ softLimit < s.currentChunk.length + group.length
  · rw [if_pos hcut, if_pos ⟨hcond.2 hcut.1, hcut.2⟩]
    simp
  · rw [if_neg hcut, if_neg fun h => hcut ⟨hcond.1 h.1, h.2⟩]

/-- From any turn on: the group being read, then the groups of the rest, are packed. -/
theorem Push.result_foldl (pre group : List α) (last : α) (rest : List α) (softLimit : Nat) (s : Push.Cursors α)
    (hstart : s.groupStart = pre.length) (hgroup : ∀ c ∈ group ++ [last], hlcTimestamp c = hlcTimestamp last) :
    let changes := pre ++ group ++ [last] ++ rest
    let s' := (List.range' (pre.length + group.length + 1) rest.length).foldl (Push.turn hlcTimestamp changes softLimit) s
    (Push.flushGroup changes softLimit s' changes.length).result =
      s.chunks ++ pack softLimit s.currentChunk (groups hlcTimestamp (group ++ [last] ++ rest)) := by
  induction rest generalizing pre group last s with
  | nil =>
    have hconst := groups_of_const (List.concat_ne_nil last group) fun c hc c' hc' =>
      (hgroup c hc).trans (hgroup c' hc').symm
    have hflush := Push.flushGroup_pack pre [] (List.concat_ne_nil last group) softLimit s hstart []
    simp only [List.append_nil, List.length_nil, List.range'_zero, List.foldl_nil, List.append_assoc pre] at hflush ⊢
    rw [hconst, ← hflush, List.length_append]
    unfold Push.Cursors.result pack
    simp only [List.length_pos_iff]
    by_cases hcur : (Push.flushGroup (pre ++ (group ++ [last])) softLimit s (pre.length + (group ++ [last]).length)).currentChunk = []
    · rw [if_neg (not_not.2 hcur), if_pos hcur, List.append_nil]
    · rw [if_pos hcur, if_neg hcur]
  | cons c rest ih =>
    simp only [List.length_cons, List.range'_succ, List.foldl_cons]
    by_cases hc : hlcTimestamp c = hlcTimestamp last
    · -- the group goes on
      have hturn : Push.turn hlcTimestamp (pre ++ group ++ [last] ++ c :: rest) softLimit s (pre.length + group.length + 1) = s :=
        if_neg fun h => otherHlc_iff.1 h hc
      have hnext := ih pre (group ++ [last]) c s hstart fun x hx => by
        rcases List.mem_append.1 hx with hx | hx
        · exact (hgroup x hx).trans hc.symm
        · rw [List.mem_singleton.1 hx]
      rw [hturn]
      simp only [List.length_append, List.length_singleton, List.append_assoc, List.cons_append, ← Nat.add_assoc] at hnext ⊢
      exact hnext
    · -- `c` starts another group
      have hturn : Push.turn hlcTimestamp (pre ++ group ++ [last] ++ c :: rest) softLimit s (pre.length + group.length + 1) =
          { Push.flushGroup (pre ++ (group ++ [last]) ++ c :: rest) softLimit s (pre.length + (group ++ [last]).length) with
            groupStart := (pre ++ group ++ [last]).length } := by
        rw [Push.turn, if_pos (otherHlc_iff.2 hc)]
        simp [Nat.add_assoc]
      have hflush := Push.flushGroup_pack pre (c :: rest) (List.concat_ne_nil last group) softLimit s hstart
        (groups hlcTimestamp (c :: rest))
      have hnext := ih (pre ++ group ++ [last]) [] c
        { Push.flushGroup (pre ++ (group ++ [last]) ++ c :: rest) softLimit s (pre.length + (group ++ [last]).length) with
          groupStart := (pre ++ group ++ [last]).length } rfl fun x hx => by rw [List.mem_singleton.1 hx]
      rw [hturn, groups_append hgroup hc, ← hflush]
      simp only [List.append_assoc, List.cons_append, List.nil_append, List.length_append, List.length_cons, List.length_nil,
        Nat.zero_add, Nat.add_zero, ← Nat.add_assoc] at hnext ⊢
      exact hnext

theorem push_eq_pack (changes : List α) (softLimit : Nat) :
    Push.chunkChangesByHlc hlcTimestamp changes softLimit = pack softLimit [] (groups hlcTimestamp changes) := by
  unfold Push.chunkChangesByHlc
  cases changes with
  | nil => rfl
  | cons c rest =>
    rw [if_neg (by simp)]
    exact Push.result_foldl [] [] c rest softLimit {} rfl fun x hx => by rw [List.mem_singleton.1 hx]

/-- The state of `chunk_changes_by_hlc` where `cur` is the open chunk, and `pre` what has been emitted. -/
structure SyncLoop.At (pre cur : List α) (s : SyncLoop.Cursors α) : Prop where
  chunkStart : s.chunkStart = pre.length
  groupStart : s.groupStart = pre.length + cur.length
  chunkLen : s.chunkLen = cur.length

theorem SyncLoop.turn_pack (group rest : List α) (softLimit : Nat) {pre cur : List α} {s : SyncLoop.Cursors α}
    (h : SyncLoop.At pre cur s)
    (hboundary : pre.length + cur.length + group.length = (pre ++ cur ++ group ++ rest).length ∨
      otherHlc hlcTimestamp (pre ++ cur ++ group ++ rest) (pre.length + cur.length + group.length))
    (gs : List (List α)) :
    ∃ pre' cur', pre' ++ cur' = pre ++ cur ++ group ∧
      SyncLoop.At pre' cur' (SyncLoop.turn hlcTimestamp (pre ++ cur ++ group ++ rest) softLimit s
        (pre.length + cur.length + group.length)) ∧
      (SyncLoop.turn hlcTimestamp (pre ++ cur ++ group ++ rest) softLimit s
        (pre.length + cur.length + group.length)).chunks ++ pack softLimit cur' gs =
        s.chunks ++ pack softLimit cur (group :: gs) := by
  have hcond : 0 < cur.length ↔ cur ≠ [] := List.length_pos_iff
  simp only [SyncLoop.turn, hboundary, not_true_eq_false, if_false, h.chunkStart, h.groupStart, h.chunkLen,
    Nat.add_sub_cancel_left]
  rw [pack]
  by_cases hcut : cur ≠ [] ∧ softLimit < cur.length + group.length
  · rw [if_pos hcut, if_pos ⟨hcond.2 hcut.1, hcut.2⟩]
    refine ⟨pre ++ cur, group, rfl, ⟨by simp, by simp, rfl⟩, ?_⟩
    have hslice : slice (pre ++ cur ++ group ++ rest) pre.length (pre.length + cur.length) = cur := by
      rw [List.append_assoc (pre ++ cur)]
      exact slice_append pre cur (group ++ rest)
    rw [hslice, List.append_assoc]
    rfl
  · rw [if_neg hcut, if_neg fun h => hcut ⟨hcond.1 h.1, h.2⟩]
    exact ⟨pre, cur ++ group, by simp, ⟨rfl, by simp [Nat.add_assoc], by simp⟩, rfl⟩

theorem SyncLoop.result_at {pre cur : List α} {s : SyncLoop.Cursors α} (h : SyncLoop.At pre cur s) (softLimit : Nat) :
    (if 0 < s.chunkLen then s.chunks ++ [(pre ++ cur).drop s.chunkStart] else s.chunks) = s.chunks ++ pack softLimit cur [] := by
  rw [h.chunkLen, h.chunkStart, List.drop_left, pack]
  by_cases hcur : cur = []
  · rw [if_pos hcur, if_neg (by simp [hcur]), List.append_nil]
  · rw [if_neg hcur, if_pos (List.length_pos_iff.2 hcur)]

/-- From any turn on: the group being read, then the groups of the rest, are packed. -/
theorem SyncLoop.result_foldl (pre cur group : List α) (last : α) (rest : List α) (softLimit : Nat) (s : SyncLoop.Cursors α)
    (h : SyncLoop.At pre cur s) (hgroup : ∀ c ∈ group ++ [last], hlcTimestamp c = hlcTimestamp last) :
    let changes := pre ++ cur ++ (group ++ [last]) ++ rest
    let s' := (List.range' (pre.length + cur.length + (group ++ [last]).length) (rest.length + 1)).foldl
      (SyncLoop.turn hlcTimestamp changes softLimit) s
    (if 0 < s'.chunkLen then s'.chunks ++ [changes.drop s'.chunkStart] else s'.chunks) =
      s.chunks ++ pack softLimit cur (groups hlcTimestamp (group ++ [last] ++ rest)) := by
  induction rest generalizing pre cur group last s with
  | nil =>
    have hconst := groups_of_const (List.concat_ne_nil last group) fun c hc c' hc' =>
      (hgroup c hc).trans (hgroup c' hc').symm
    obtain ⟨pre', cur', hall, hat, hpack⟩ := @SyncLoop.turn_pack α hlcTimestamp (group ++ [last]) [] softLimit _ _ _ h
      (.inl (by simp [Nat.add_assoc])) []
    simp only [List.append_nil] at hat hpack
    simp only [List.append_nil, List.length_nil, Nat.zero_add, List.range'_one, List.foldl_cons, List.foldl_nil]
    rw [hconst, ← hpack, ← hall]
    rw [← hall] at hat
    exact SyncLoop.result_at hat softLimit
  | cons c rest ih =>
    simp only [List.length_cons, List.range'_succ (n := rest.length + 1), List.foldl_cons]
    have hother : otherHlc hlcTimestamp (pre ++ cur ++ (group ++ [last]) ++ c :: rest)
        (pre.length + cur.length + (group ++ [last]).length) ↔ hlcTimestamp c ≠ hlcTimestamp last := by
      have hiff := @otherHlc_iff α hlcTimestamp group rest last (pre ++ cur) c
      simp only [List.append_assoc, List.length_append, List.length_singleton, ← Nat.add_assoc] at hiff ⊢
      exact hiff
    by_cases hc : hlcTimestamp c = hlcTimestamp last
    · -- the group goes on
      have hturn : SyncLoop.turn hlcTimestamp (pre ++ cur ++ (group ++ [last]) ++ c :: rest) softLimit s
          (pre.length + cur.length + (group ++ [last]).length) = s := by
        refine if_pos ?_
        rintro (hend | hboundary)
        · simp only [List.length_append, List.length_cons] at hend
          omega
        · exact hother.1 hboundary hc
      have hnext := ih pre cur (group ++ [last]) c s h fun x hx => by
        rcases List.mem_append.1 hx with hx | hx
        · exact (hgroup x hx).trans hc.symm
        · rw [List.mem_singleton.1 hx]
      rw [hturn]
      simp only [List.length_append, List.length_singleton, List.append_assoc, List.cons_append, ← Nat.add_assoc] at hnext ⊢
      exact hnext
    · -- `c` starts another group
      obtain ⟨pre', cur', hall, hat, hpack⟩ := SyncLoop.turn_pack (group ++ [last]) (c :: rest) softLimit h
        (.inr (hother.2 hc)) (groups hlcTimestamp (c :: rest))
      have hnext := ih pre' cur' [] c _ hat fun x hx => by rw [List.mem_singleton.1 hx]
      rw [groups_append hgroup hc, ← hpack]
      have hlen : pre'.length + cur'.length = pre.length + cur.length + (group ++ [last]).length := by
        rw [← List.length_append, hall, List.length_append, List.length_append]
      rw [hlen] at hnext
      simp only [List.nil_append, hall, List.length_singleton, List.append_assoc, List.singleton_append] at hnext ⊢
      exact hnext

theorem syncLoop_eq_pack (changes : List α) (softLimit : Nat) :
    SyncLoop.chunkChangesByHlc hlcTimestamp changes softLimit = pack softLimit [] (groups hlcTimestamp changes) := by
  unfold SyncLoop.chunkChangesByHlc
  cases changes with
  | nil => rfl
  | cons c rest =>
    exact SyncLoop.result_foldl [] [] [] c rest softLimit {} ⟨rfl, rfl, rfl⟩ fun x hx => by rw [List.mem_singleton.1 hx]

/-! ## The result -/

theorem firstGroup_append {g gs : List α} (hne : g ≠ []) (h : ∀ c ∈ g, ∀ c' ∈ g, hlcTimestamp c = hlcTimestamp c')
    (hapart : ∀ c ∈ g, ∀ c' ∈ gs, hlcTimestamp c ≠ hlcTimestamp c') : firstGroup hlcTimestamp (g ++ gs) = g := by
  obtain ⟨c, cs, rfl⟩ := List.exists_cons_of_ne_nil hne
  have hgs : gs.takeWhile (fun c' => hlcTimestamp c' == hlcTimestamp c) = [] := by
    cases gs with
    | nil => rfl
    | cons c' gs =>
      refine List.takeWhile_cons_of_neg ?_
      simpa using (hapart c List.mem_cons_self c' List.mem_cons_self).symm
  rw [List.cons_append, firstGroup, List.takeWhile_append_of_pos, hgs, List.append_nil]
  intro c' hc'
  simpa using h c' (List.mem_cons_of_mem _ hc') c List.mem_cons_self

theorem groups_apart {r : String → String → Prop} (hanti : ∀ t t', r t t' → r t' t → t = t')
    (hsorted : changes.Pairwise fun c c' => r (hlcTimestamp c) (hlcTimestamp c')) :
    (groups hlcTimestamp changes).Pairwise fun g g' => ∀ c ∈ g, ∀ c' ∈ g', hlcTimestamp c ≠ hlcTimestamp c' :=
  splitBy_apart hanti hsorted fun _ _ _ _ h => beq_iff_eq.2 h

theorem partition_pack {softLimit : Nat}
    (hapart : (groups hlcTimestamp changes).Pairwise fun g g' => ∀ c ∈ g, ∀ c' ∈ g', hlcTimestamp c ≠ hlcTimestamp c') :
    Partition hlcTimestamp changes softLimit (pack softLimit [] (groups hlcTimestamp changes)) := by
  have hgs : [] ∉ groups hlcTimestamp changes := List.nil_notMem_splitBy _ _
  refine ⟨?_, nil_not_mem_pack hgs, pack_pairwise (by simp) hapart, fun chunk hchunk => ?_, ?_⟩
  · rw [flatten_pack, List.nil_append, groups, List.flatten_splitBy]
  · rcases pack_bounded hchunk with hlen | rfl | hmem
    · exact .inl hlen
    · exact absurd hchunk (nil_not_mem_pack hgs)
    · exact .inr (const_of_mem_groups hmem)
  · refine (pack_full hgs).imp fun chunk chunk' ⟨g, gs', he, hin, hlt⟩ => ?_
    have hg : g ∈ groups hlcTimestamp changes := hin.subset List.mem_cons_self
    have hcross := (List.pairwise_cons.1 (hapart.sublist hin.sublist)).1
    have hfirst : firstGroup hlcTimestamp chunk' = g := by
      rw [he]
      refine firstGroup_append (fun e => hgs (e ▸ hg)) (const_of_mem_groups hg) fun c hc c' hc' => ?_
      obtain ⟨g', hg', hc'⟩ := List.mem_flatten.1 hc'
      exact hcross g' hg' c hc c' hc'
    rwa [hfirst]

/-- Both sides cut sorted changes into the same chunks, and these are a partition at HLC boundaries. -/
theorem chunks_agree {le : String → String → Prop} (hanti : ∀ t t', le t t' → le t' t → t = t') (changes : List α)
    (hsorted : changes.Pairwise fun c c' => le (hlcTimestamp c) (hlcTimestamp c')) (softLimit : Nat) :
    Push.chunkChangesByHlc hlcTimestamp changes softLimit = SyncLoop.chunkChangesByHlc hlcTimestamp changes softLimit ∧
      Partition hlcTimestamp changes softLimit (Push.chunkChangesByHlc hlcTimestamp changes softLimit) := by
  rw [push_eq_pack, syncLoop_eq_pack]
  exact ⟨rfl, partition_pack (groups_apart hanti hsorted)⟩

theorem chunks_agree_twoGroups :
    Push.chunkChangesByHlc Prod.fst [("1/a", 0), ("1/a", 1), ("2/a", 2)] 1 =
        SyncLoop.chunkChangesByHlc Prod.fst [("1/a", 0), ("1/a", 1), ("2/a", 2)] 1 ∧
      Partition Prod.fst [("1/a", 0), ("1/a", 1), ("2/a", 2)] 1
        (Push.chunkChangesByHlc Prod.fst [("1/a", 0), ("1/a", 1), ("2/a", 2)] 1) :=
  chunks_agree (fun _ _ => le_antisymm) [("1/a", 0), ("1/a", 1), ("2/a", 2)] (by decide) 1

/-! ## The orders that the two sides sort by -/

section Comparators
open HaexVault.Crdt (Timestamp compareHlcStrings parseHlc)

theorem timestamp_eq {a b : Timestamp} (htime : a.time = b.time) (hid : a.id.val = b.id.val) : a = b := by
  obtain ⟨_, _, _, _, _⟩ := a
  obtain ⟨_, _, _, _, _⟩ := b
  cases htime
  cases hid
  rfl

theorem eq_of_compareHlcStrings {a b : Timestamp} (h : compareHlcStrings a.text b.text ≠ .gt)
    (h' : compareHlcStrings b.text a.text ≠ .gt) : a = b := by
  have hparse : ∀ ts : Timestamp, parseHlc ts.text = (ts.time, ts.id.val) := fun ts => Timestamp.parse_read ts.read_text
  simp only [compareHlcStrings, hparse] at h h'
  rcases lt_trichotomy a.time b.time with ht | ht | ht
  · simp [compare_gt_iff_gt.2 ht] at h'
  · simp only [ht, compare_eq_iff_eq.2, Ordering.eq_then, ne_eq, compare_gt_iff_gt] at h h'
    exact timestamp_eq ht (by omega)
  · simp [compare_gt_iff_gt.2 ht] at h

theorem eq_of_compareHlc {a b : Timestamp} (h : compareHlc a.text b.text ≠ some .gt)
    (h' : compareHlc b.text a.text ≠ some .gt) : a = b := by
  rw [compareHlc_text] at h h'
  rcases lt_trichotomy a.time b.time with ht | ht | ht
  · simp [ht.ne', compare_gt_iff_gt.2 ht] at h'
  · refine timestamp_eq ht (Lib.Numerals.codes_inj (b := 16) (by omega) (by omega) ?_)
    simp only [ht, ne_eq, not_true_eq_false, if_false, hexOrder, Option.some.injEq] at h h'
    grind
  · simp [ht.ne', compare_gt_iff_gt.2 ht] at h

/-- Changes with HLCs as uhlc writes them, sorted by either comparator. -/
theorem chunks_agree_sorted (changes : List α) (hcanonical : ∀ c ∈ changes, ∃ ts : Timestamp, hlcTimestamp c = ts.text)
    (hsorted : (changes.Pairwise fun c c' => compareHlcStrings (hlcTimestamp c) (hlcTimestamp c') ≠ .gt) ∨
      changes.Pairwise fun c c' => compareHlc (hlcTimestamp c) (hlcTimestamp c') ≠ some .gt) (softLimit : Nat) :
    Push.chunkChangesByHlc hlcTimestamp changes softLimit = SyncLoop.chunkChangesByHlc hlcTimestamp changes softLimit ∧
      Partition hlcTimestamp changes softLimit (Push.chunkChangesByHlc hlcTimestamp changes softLimit) := by
  have happly : ∀ R : String → String → Prop, (∀ a b : Timestamp, R a.text b.text → R b.text a.text → a = b) →
      (changes.Pairwise fun c c' => R (hlcTimestamp c) (hlcTimestamp c')) →
      Partition hlcTimestamp changes softLimit (pack softLimit [] (groups hlcTimestamp changes)) := by
    intro R hanti hsorted
    refine partition_pack (groups_apart (r := fun t t' => ∃ a b : Timestamp, t = a.text ∧ t' = b.text ∧ R t t') ?_
      (hsorted.imp_of_mem fun hc hc' hR => ?_))
    · rintro _ _ ⟨a, b, rfl, rfl, h⟩ ⟨_, _, -, -, h'⟩
      rw [hanti a b h h']
    · obtain ⟨a, ha⟩ := hcanonical _ hc
      obtain ⟨b, hb⟩ := hcanonical _ hc'
      exact ⟨a, b, ha, hb, hR⟩
  rw [push_eq_pack, syncLoop_eq_pack]
  refine ⟨rfl, ?_⟩
  rcases hsorted with hsorted | hsorted
  · exact happly (fun t t' => compareHlcStrings t t' ≠ .gt) (fun _ _ => eq_of_compareHlcStrings) hsorted
  · exact happly (fun t t' => compareHlc t t' ≠ some .gt) (fun _ _ => eq_of_compareHlc) hsorted

end Comparators

end HaexVault.Sync.ChunkAgreement
