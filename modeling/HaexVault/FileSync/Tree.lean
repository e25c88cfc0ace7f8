import HaexVault.FileSync.Diff
import Mathlib.Data.List.Infix
/-!
# Providers (`file_sync/provider.rs`, `local_provider.rs`, `peer_provider.rs`, `cloud_provider.rs`)

What a provider holds is a tree: the nodes by path. A local folder, here or at a peer, has
directories, and every node in it lies in one; a bucket has objects only. A peer stages what it
writes beside the path, and a file that has that name is gone afterwards (`unstage`).
-/

namespace HaexVault.FileSync

abbrev Bytes := List UInt8

inductive ProviderKind where
  | localFolder | peer | cloud
  deriving DecidableEq

def ProviderKind.supportsDirectories : ProviderKind → Bool
  | cloud => false
  | _ => true

def ProviderKind.reportsHashes : ProviderKind → Bool
  | cloud => false
  | _ => true

inductive Node where
  | file (bytes : Bytes) (modifiedAt : Nat)
  | directory
  deriving DecidableEq

abbrev Nodes := AList fun _ : Path => Node

def parents (p : Path) : List Path := p.inits.filter fun q => q ≠ [] ∧ q ≠ p

theorem mem_parents {p q : Path} : q ∈ parents p ↔ q <+: p ∧ q ≠ [] ∧ q ≠ p := by simp [parents]

theorem parents_trans {p q r : Path} (hq : q ∈ parents p) (hr : r ∈ parents q) : r ∈ parents p := by
  rw [mem_parents] at *
  refine ⟨hr.1.trans hq.1, hr.2.1, ?_⟩
  rintro rfl
  exact hr.2.2 (hr.1.eq_of_length_le hq.1.length_le)

/-- No name has a backslash, which the scanners write as a slash. -/
def Plain (p : Path) : Prop := ∀ name ∈ p, '\\' ∉ name.toList

instance (p : Path) : Decidable (Plain p) := inferInstanceAs (Decidable (∀ _ ∈ _, _))

theorem plain_parents {p q : Path} (hp : Plain p) (hq : q ∈ parents p) : Plain q :=
  fun name hname => hp name ((mem_parents.1 hq).1.subset hname)

/-- Where a peer stages what it writes at a path. -/
def partOf (p : Path) : Path := p.dropLast ++ [p.getLastD "" ++ ".part"]

theorem partOf_ne (p : Path) : partOf p ≠ p := by
  intro h
  have hlength := congrArg (fun l => (l.getLastD "").length) h
  simp [partOf, List.getLastD_eq_getLast?] at hlength

theorem partOf_inj {p q : Path} (hp : p ≠ []) (hq : q ≠ []) (h : partOf p = partOf q) : p = q := by
  obtain ⟨hdir, hname⟩ := List.append_inj' h (by simp only [List.length_singleton])
  rw [List.singleton_inj, String.append_left_inj] at hname
  rw [← List.dropLast_append_getLast hp, ← List.dropLast_append_getLast hq, hdir]
  simpa [List.getLastD_eq_getLast?, List.getLast?_eq_some_getLast hp, List.getLast?_eq_some_getLast hq] using hname

theorem partOf_notMem_parents (p : Path) : partOf p ∉ parents p := by
  intro h
  obtain ⟨hpre, -, hne⟩ := mem_parents.1 h
  refine hne (hpre.eq_of_length_le ?_)
  simp only [partOf, List.length_append, List.length_dropLast, List.length_singleton]
  omega

structure Tree (k : ProviderKind) where
  nodes : Nodes
  root : nodes.lookup [] = none
  parent : k.supportsDirectories = true → ∀ p, nodes.lookup p ≠ none → ∀ q ∈ parents p, nodes.lookup q = some .directory
  flat : k.supportsDirectories = false → ∀ p, nodes.lookup p ≠ some .directory
  plain : ∀ p, nodes.lookup p ≠ none → Plain p

/-! ## Nodes -/

/-- `create_dir_all`, where nothing is in the way. -/
def Nodes.addDirectories (n : Nodes) (ps : List Path) : Nodes :=
  ps.foldl (fun n q => if n.lookup q = none then n.insert q .directory else n) n

def Nodes.removeBelow (n : Nodes) (p : Path) : Nodes where
  entries := n.entries.filter fun e => ¬ p <+: e.1
  nodupKeys := n.nodupKeys.sublist List.filter_sublist

namespace Nodes
variable {n : Nodes} {ps : List Path} {p q : Path}

theorem lookup_addDirectories : (n.addDirectories ps).lookup q =
    if q ∈ ps ∧ n.lookup q = none then some .directory else n.lookup q := by
  induction ps generalizing n with
  | nil => simp [addDirectories]
  | cons r ps ih =>
    have hstep : n.addDirectories (r :: ps) =
        Nodes.addDirectories (if n.lookup r = none then n.insert r .directory else n) ps := rfl
    rw [hstep, ih]
    by_cases hr : n.lookup r = none
    · rw [if_pos hr]
      by_cases hq : q = r
      · subst hq
        rw [AList.lookup_insert]
        simp [hr]
      · rw [AList.lookup_insert_ne hq]
        simp [hq]
    · rw [if_neg hr]
      by_cases hq : q = r
      · subst hq
        simp [hr]
      · simp [hq]

theorem lookup_removeBelow : (n.removeBelow p).lookup q = if p <+: q then none else n.lookup q := by
  ext a
  rw [← Option.mem_def, AList.mem_lookup_iff]
  by_cases hp : p <+: q
  · simp [removeBelow, hp]
  · rw [if_neg hp, ← Option.mem_def, AList.mem_lookup_iff]
    simp [removeBelow, hp]

end Nodes

namespace Tree
variable {k : ProviderKind}

def lookup (t : Tree k) (p : Path) : Option Node := t.nodes.lookup p

def fileAt (t : Tree k) (p : Path) : Option (Bytes × Nat) :=
  match t.lookup p with
  | some (.file bytes modifiedAt) => some (bytes, modifiedAt)
  | _ => none

def contentAt (t : Tree k) (p : Path) : Option Bytes := (t.fileAt p).map (·.1)

def contents (t : Tree k) : List Bytes := t.nodes.entries.filterMap fun e =>
  match e.2 with
  | .file bytes _ => some bytes
  | .directory => none

def isDir (t : Tree k) (p : Path) : Prop := t.lookup p = some .directory

instance (t : Tree k) (p : Path) : Decidable (t.isDir p) := inferInstanceAs (Decidable (_ = _))

/-! ## Operations -/

/-- `read_file_to_path`. -/
def read (t : Tree k) (p : Path) : Option Bytes := t.contentAt p

/-- `create_directory`: the parents come with it; a bucket has nothing to create. -/
def createDirectory (t : Tree k) (p : Path) : Option (Tree k) :=
  if hk : k.supportsDirectories = true then
    if h : (p ≠ [] ∧ Plain p) ∧ ∀ q ∈ p :: parents p, t.fileAt q = none then
      some
        { nodes := t.nodes.addDirectories (p :: parents p)
          root := by
            rw [Nodes.lookup_addDirectories, if_neg fun hr => ?_, t.root]
            rcases List.mem_cons.1 hr.1 with hr | hr
            · exact h.1.1 hr.symm
            · exact (mem_parents.1 hr).2.1 rfl
          parent := by
            intro _ x hx q hq
            rw [Nodes.lookup_addDirectories] at hx ⊢
            by_cases hqp : q ∈ p :: parents p
            · have hfile := h.2 q hqp
              cases hl : t.nodes.lookup q with
              | none => rw [if_pos ⟨hqp, rfl⟩]
              | some n =>
                cases n with
                | directory => simp
                | file => simp [fileAt, lookup, hl] at hfile
            · -- a new directory has no parents but those created with it
              have hxp : x ∉ p :: parents p := fun hxp => hqp <| by
                rcases List.mem_cons.1 hxp with rfl | hxp
                · exact List.mem_cons_of_mem _ hq
                · exact List.mem_cons_of_mem _ (parents_trans hxp hq)
              rw [if_neg fun hx => hxp hx.1] at hx
              rw [if_neg fun hq => hqp hq.1]
              exact t.parent hk x hx q hq
          flat := by
            intro hflat
            rw [hk] at hflat
            cases hflat
          plain := by
            intro x hx
            rw [Nodes.lookup_addDirectories] at hx
            split at hx
            · rename_i hmem
              rcases List.mem_cons.1 hmem.1 with rfl | hmem
              · exact h.1.2
              · exact plain_parents h.1.2 hmem
            · exact t.plain x hx }
    else none
  else some t

/-- The parents come with it. -/
def put (t : Tree k) (p : Path) (bytes : Bytes) (now : Nat) : Option (Tree k) :=
  if hplain : p ≠ [] ∧ Plain p then
    have hp := hplain.1
    if hk : k.supportsDirectories = true then
      if h : ¬ t.isDir p ∧ ∀ q ∈ parents p, t.fileAt q = none then
        some
          { nodes := (t.nodes.addDirectories (parents p)).insert p (.file bytes now)
            root := by
              rw [AList.lookup_insert_ne hp.symm, Nodes.lookup_addDirectories, if_neg fun hr => ?_, t.root]
              exact (mem_parents.1 hr.1).2.1 rfl
            parent := by
              intro _ x hx q hq
              by_cases hqp : q ∈ parents p
              · have hfile := h.2 q hqp
                rw [AList.lookup_insert_ne (mem_parents.1 hqp).2.2, Nodes.lookup_addDirectories]
                cases hl : t.nodes.lookup q with
                | none => rw [if_pos ⟨hqp, rfl⟩]
                | some n =>
                  cases n with
                  | directory => simp
                  | file => simp [fileAt, lookup, hl] at hfile
              · have hxp : x ≠ p := fun hxp => hqp (hxp ▸ hq)
                have hxq : x ∉ parents p := fun hxq => hqp (parents_trans hxq hq)
                rw [AList.lookup_insert_ne hxp, Nodes.lookup_addDirectories, if_neg fun hx => hxq hx.1] at hx
                have hdir := t.parent hk x hx q hq
                have hne : q ≠ p := fun he => h.1 (he ▸ hdir)
                rw [AList.lookup_insert_ne hne, Nodes.lookup_addDirectories, if_neg fun hq => hqp hq.1, hdir]
            flat := by
              intro hflat
              rw [hk] at hflat
              cases hflat
            plain := by
              intro x hx
              by_cases hxp : x = p
              · exact hxp ▸ hplain.2
              · rw [AList.lookup_insert_ne hxp, Nodes.lookup_addDirectories] at hx
                split at hx
                · rename_i hmem
                  exact plain_parents hplain.2 hmem.1
                · exact t.plain x hx }
      else none
    else
      some
        { nodes := t.nodes.insert p (.file bytes now)
          root := by rw [AList.lookup_insert_ne hp.symm, t.root]
          parent := fun h => absurd h hk
          flat := by
            intro hflat x
            by_cases hx : x = p
            · subst hx
              rw [AList.lookup_insert]
              rintro ⟨⟩
            · rw [AList.lookup_insert_ne hx]
              exact t.flat hflat x
          plain := by
            intro x hx
            by_cases hxp : x = p
            · exact hxp ▸ hplain.2
            · rw [AList.lookup_insert_ne hxp] at hx
              exact t.plain x hx }
  else none

/-- `delete_file`: what is absent is an error at a peer only, and a directory goes with what it holds. -/
def delete (t : Tree k) (p : Path) : Option (Tree k) :=
  if p = [] then none
  else match h : t.lookup p with
    | none => if k = .peer then none else some t
    | some (.file _ _) =>
      some
        { nodes := t.nodes.erase p
          root := by
            by_cases hp : [] = p
            · rw [hp, AList.lookup_erase]
            · rw [AList.lookup_erase_ne hp, t.root]
          parent := by
            intro hk x hx q hq
            have hxp : x ≠ p := by
              rintro rfl
              exact hx (AList.lookup_erase _ _)
            rw [AList.lookup_erase_ne hxp] at hx
            have hdir := t.parent hk x hx q hq
            have hqp : q ≠ p := by
              rintro rfl
              rw [lookup, hdir] at h
              cases h
            rw [AList.lookup_erase_ne hqp, hdir]
          flat := by
            intro hk x
            by_cases hx : x = p
            · rw [hx, AList.lookup_erase]
              rintro ⟨⟩
            · rw [AList.lookup_erase_ne hx]
              exact t.flat hk x
          plain := by
            intro x hx
            by_cases hxp : x = p
            · exact absurd (hxp ▸ AList.lookup_erase p t.nodes) hx
            · rw [AList.lookup_erase_ne hxp] at hx
              exact t.plain x hx }
    | some .directory =>
      some
        { nodes := t.nodes.removeBelow p
          root := by simp [Nodes.lookup_removeBelow, t.root]
          parent := by
            intro hk x hx q hq
            rw [Nodes.lookup_removeBelow] at hx ⊢
            have hpx : ¬ p <+: x := fun hpx => by simp [hpx] at hx
            rw [if_neg hpx] at hx
            rw [if_neg fun hpq => hpx (hpq.trans (mem_parents.1 hq).1)]
            exact t.parent hk x hx q hq
          flat := by
            intro hk x
            rw [Nodes.lookup_removeBelow]
            split
            · rintro ⟨⟩
            · exact t.flat hk x
          plain := by
            intro x hx
            rw [Nodes.lookup_removeBelow] at hx
            split at hx
            · exact absurd rfl hx
            · exact t.plain x hx }

/-- What is left of a file that has the name under which `handle_write` stages: the staged bytes replace it, and are
renamed, or removed again where the write fails. -/
def unstage (t : Tree k) (p : Path) : Tree k :=
  if k = .peer ∧ t.fileAt (partOf p) ≠ none then (t.delete (partOf p)).getD t else t

/-- `write_file_from_path`. -/
def write (t : Tree k) (p : Path) (bytes : Bytes) (now : Nat) : Option (Tree k) :=
  if k = .peer ∧ t.isDir (partOf p) then none else (t.unstage p).put p bytes now

/-! ## What the operations do -/

section Spec
variable {t t' : Tree k} {p q : Path} {bytes : Bytes} {now : Nat}

theorem fileAt_eq_some {f : Bytes × Nat} : t.fileAt p = some f ↔ t.lookup p = some (.file f.1 f.2) := by
  unfold fileAt
  cases t.lookup p with
  | none => simp
  | some n => cases n <;> simp [Prod.ext_iff]

theorem fileAt_eq_none : t.fileAt p = none ↔ t.lookup p = none ∨ t.isDir p := by
  unfold fileAt isDir
  cases t.lookup p with
  | none => simp
  | some n => cases n <;> simp

theorem contentAt_eq_none : t.contentAt p = none ↔ t.fileAt p = none := Option.map_eq_none_iff

theorem mem_contents (h : t.contentAt p = some bytes) : bytes ∈ t.contents := by
  obtain ⟨f, hf, rfl⟩ := Option.map_eq_some_iff.1 h
  exact List.mem_filterMap.2 ⟨_, AList.mem_lookup_iff.1 (fileAt_eq_some.1 hf), rfl⟩

theorem lookup_of_isDir (h : t.isDir p) : t.lookup p ≠ none := by
  rw [isDir] at h
  simp [h]

theorem fileAt_of_isDir (h : t.isDir p) : t.fileAt p = none := fileAt_eq_none.2 (.inr h)

theorem fileAt_congr (h : t'.lookup p = t.lookup p) : t'.fileAt p = t.fileAt p := by
  simp only [fileAt, h]

theorem isDir_parents (hk : k.supportsDirectories = true) (hp : t.lookup p ≠ none) (hq : q ∈ parents p) : t.isDir q :=
  t.parent hk p hp q hq

theorem not_isDir (hk : k.supportsDirectories = false) : ¬ t.isDir p := t.flat hk p

/-- The paths that `createDirectory` and `write` need to be directories. -/
def needs (k : ProviderKind) (ps : List Path) : List Path := if k.supportsDirectories then ps else []

theorem createDirectory_spec (h : t.createDirectory p = some t') :
    (∀ r ∈ needs k (p :: parents p), t.fileAt r = none) ∧
      ∀ q, t'.lookup q = if q ∈ needs k (p :: parents p) then some .directory else t.lookup q := by
  unfold createDirectory at h
  unfold needs
  split at h
  · rename_i hk
    rw [if_pos hk]
    split at h
    · rename_i hfree
      cases h
      refine ⟨hfree.2, fun q => ?_⟩
      rw [lookup, lookup, Nodes.lookup_addDirectories]
      by_cases hq : q ∈ p :: parents p
      · rw [if_pos hq]
        rcases fileAt_eq_none.1 (hfree.2 q hq) with hnone | hdir
        · rw [if_pos ⟨hq, hnone⟩]
        · rw [isDir, lookup] at hdir
          simp [hdir]
      · rw [if_neg hq, if_neg fun hq' => hq hq'.1]
    · cases h
  · rename_i hk
    cases h
    simp [hk]

theorem put_spec (h : t.put p bytes now = some t') :
    ¬ t.isDir p ∧ (∀ r ∈ needs k (parents p), t.fileAt r = none) ∧
      ∀ q, t'.lookup q = if q = p then some (.file bytes now)
        else if q ∈ needs k (parents p) then some .directory else t.lookup q := by
  unfold put at h
  unfold needs
  split at h
  · split at h
    · rename_i hk
      rw [if_pos hk]
      split at h
      · rename_i hfree
        cases h
        refine ⟨hfree.1, hfree.2, fun q => ?_⟩
        by_cases hqp : q = p
        · rw [if_pos hqp, hqp, lookup, AList.lookup_insert]
        · rw [if_neg hqp, lookup, lookup, AList.lookup_insert_ne hqp, Nodes.lookup_addDirectories]
          by_cases hq : q ∈ parents p
          · rw [if_pos hq]
            rcases fileAt_eq_none.1 (hfree.2 q hq) with hnone | hdir
            · rw [if_pos ⟨hq, hnone⟩]
            · rw [isDir, lookup] at hdir
              simp [hdir]
          · rw [if_neg hq, if_neg fun hq' => hq hq'.1]
      · cases h
    · rename_i hk
      cases h
      refine ⟨t.flat (by simpa using hk) p, by simp [hk], fun q => ?_⟩
      by_cases hqp : q = p
      · rw [if_pos hqp, hqp, lookup, AList.lookup_insert]
      · simp [lookup, hqp, hk, AList.lookup_insert_ne hqp]
  · cases h

theorem delete_spec (h : t.delete p = some t') (hp : ¬ t.isDir p) :
    ∀ q, t'.lookup q = if q = p then none else t.lookup q := by
  intro q
  unfold delete at h
  split at h
  · cases h
  · split at h
    · rename_i hnone
      split at h
      · cases h
      · cases h
        by_cases hq : q = p
        · rw [if_pos hq, hq, hnone]
        · rw [if_neg hq]
    · cases h
      by_cases hq : q = p
      · rw [if_pos hq, hq, lookup, AList.lookup_erase]
      · rw [if_neg hq, lookup, AList.lookup_erase_ne hq]
        rfl
    · rename_i hdir
      exact absurd hdir hp

/-- A path that a deletion can take. -/
def Clears (k : ProviderKind) (p q : Path) : Prop := q = p ∨ (k.supportsDirectories = true ∧ p <+: q)

theorem delete_clears (h : t.delete p = some t') :
    t'.lookup p = none ∧ ∀ q, t'.lookup q = t.lookup q ∨ (Clears k p q ∧ t'.lookup q = none) := by
  by_cases hdir : t.isDir p
  · unfold delete at h
    split at h
    · cases h
    · split at h
      · rename_i hnone
        exact absurd hnone (lookup_of_isDir hdir)
      · rename_i hfile
        rw [isDir, hfile] at hdir
        cases hdir
      · cases h
        refine ⟨by simp [lookup, Nodes.lookup_removeBelow], fun q => ?_⟩
        simp only [lookup, Nodes.lookup_removeBelow]
        have hk : k.supportsDirectories = true := by
          by_contra hk
          exact not_isDir (by simpa using hk) hdir
        by_cases hq : p <+: q
        · exact .inr ⟨.inr ⟨hk, hq⟩, if_pos hq⟩
        · exact .inl (if_neg hq)
  · have hlookup := delete_spec h hdir
    refine ⟨(hlookup p).trans (if_pos rfl), fun q => ?_⟩
    by_cases hq : q = p
    · exact .inr ⟨.inl hq, (hlookup q).trans (if_pos hq)⟩
    · exact .inl ((hlookup q).trans (if_neg hq))

theorem delete_isSome (hp : t.lookup p ≠ none) : ∃ t', t.delete p = some t' := by
  unfold delete
  rw [if_neg (by rintro rfl; exact hp t.root)]
  split
  · rename_i hnone
    exact absurd hnone hp
  · exact ⟨_, rfl⟩
  · exact ⟨_, rfl⟩

/-- A path that a write at `p` stages at. -/
def Stages (k : ProviderKind) (p q : Path) : Prop := k = .peer ∧ q = partOf p

instance : Decidable (Stages k p q) := inferInstanceAs (Decidable (_ ∧ _))

theorem lookup_unstage (hp : k = .peer → ¬ t.isDir (partOf p)) :
    (t.unstage p).lookup q = if Stages k p q then none else t.lookup q := by
  unfold unstage
  split
  · rename_i hstaged
    obtain ⟨t', ht'⟩ := delete_isSome (t := t) (p := partOf p) fun hnone => hstaged.2 (fileAt_eq_none.2 (.inl hnone))
    rw [ht', Option.getD_some, delete_spec ht' (hp hstaged.1)]
    exact if_congr (by simp [Stages, hstaged.1]) rfl rfl
  · rename_i hfree
    split
    · rename_i hstages
      obtain ⟨hk, rfl⟩ := hstages
      exact (fileAt_eq_none.1 (not_not.1 fun hfile => hfree ⟨hk, hfile⟩)).resolve_right (hp hk)
    · rfl

theorem unstage_of_isDir (h : t.isDir (partOf p)) : t.unstage p = t :=
  if_neg fun hstaged => hstaged.2 (fileAt_of_isDir h)

theorem fileAt_unstage (hq : ¬ Stages k p q) : (t.unstage p).fileAt q = t.fileAt q := by
  by_cases hdir : t.isDir (partOf p)
  · rw [unstage_of_isDir hdir]
  · exact fileAt_congr ((lookup_unstage fun _ => hdir).trans (if_neg hq))

theorem isDir_unstage : (t.unstage p).isDir q ↔ t.isDir q := by
  by_cases hdir : t.isDir (partOf p)
  · rw [unstage_of_isDir hdir]
  · rw [isDir, lookup_unstage fun _ => hdir]
    split
    · rename_i hstages
      rw [hstages.2]
      exact iff_of_false nofun hdir
    · rfl

theorem partOf_notMem_needs : partOf p ∉ needs k (parents p) := by
  unfold needs
  split
  · exact partOf_notMem_parents p
  · exact List.not_mem_nil

theorem write_spec (h : t.write p bytes now = some t') :
    ¬ t.isDir p ∧ (∀ r ∈ needs k (parents p), t.fileAt r = none) ∧ (k = .peer → ¬ t.isDir (partOf p)) ∧
      ∀ q, t'.lookup q = if q = p then some (.file bytes now)
        else if q ∈ needs k (parents p) then some .directory else if Stages k p q then none else t.lookup q := by
  unfold write at h
  split at h
  · cases h
  · rename_i hpart
    have hpart : k = .peer → ¬ t.isDir (partOf p) := fun hk hdir => hpart ⟨hk, hdir⟩
    obtain ⟨hdir, hfree, hlookup⟩ := put_spec h
    refine ⟨fun hd => hdir (isDir_unstage.2 hd), fun r hr => ?_, hpart, fun q => ?_⟩
    · rw [← hfree r hr, fileAt_unstage]
      rintro ⟨-, rfl⟩
      exact partOf_notMem_needs hr
    · rw [hlookup q, lookup_unstage hpart]

end Spec

/-! ## Writes and new directories -/

inductive Edit where
  | createDirectory (path : Path)
  | write (path : Path) (bytes : Bytes) (now : Nat)

/-- The directories an edit leaves behind. -/
def Edit.directories (k : ProviderKind) : Edit → List Path
  | .createDirectory p => needs k (p :: parents p)
  | .write p _ _ => needs k (parents p)

/-- Whether an edit writes a path. -/
def Edit.Writes (e : Edit) (p : Path) : Prop := ∃ bytes now, e = .write p bytes now

/-- Whether an edit stages at a path. -/
def Edit.Stages (k : ProviderKind) (e : Edit) (p : Path) : Prop := ∃ q, e.Writes q ∧ Tree.Stages k q p

def edit (t : Tree k) : Edit → Option (Tree k)
  | .createDirectory p => t.createDirectory p
  | .write p bytes now => t.write p bytes now

def edits (t : Tree k) (es : List Edit) : Option (Tree k) := es.foldlM edit t

def empty (k : ProviderKind) : Tree k where
  nodes := ∅
  root := rfl
  parent _ _ h := absurd rfl h
  flat _ _ := by rintro ⟨⟩
  plain _ h := absurd rfl h

/-- The tree that some edits make. -/
def of (k : ProviderKind) (es : List Edit) : Tree k := ((empty k).edits es).getD (empty k)

section Edits
variable {t t' : Tree k} {e : Edit} {es : List Edit} {p q : Path} {bytes : Bytes} {now : Nat}

theorem fileAt_edit (h : t.edit e = some t') (hp : ¬ e.Writes p) (hs : t.fileAt p = none ∨ ¬ e.Stages k p) :
    t'.fileAt p = t.fileAt p := by
  cases e with
  | createDirectory q =>
    obtain ⟨hfree, hlookup⟩ := createDirectory_spec h
    by_cases hpq : p ∈ needs k (q :: parents q)
    · rw [hfree p hpq, fileAt_of_isDir ((hlookup p).trans (if_pos hpq))]
    · exact fileAt_congr ((hlookup p).trans (if_neg hpq))
  | write q bytes now =>
    obtain ⟨-, hfree, -, hlookup⟩ := write_spec h
    have hne : p ≠ q := by
      rintro rfl
      exact hp ⟨bytes, now, rfl⟩
    have hlookup := (hlookup p).trans (if_neg hne)
    by_cases hpq : p ∈ needs k (parents q)
    · rw [hfree p hpq, fileAt_of_isDir (hlookup.trans (if_pos hpq))]
    · rw [if_neg hpq] at hlookup
      by_cases hstages : Stages k q p
      · rw [hs.resolve_right fun hno => hno ⟨q, ⟨bytes, now, rfl⟩, hstages⟩]
        exact fileAt_eq_none.2 (.inl (hlookup.trans (if_pos hstages)))
      · exact fileAt_congr (hlookup.trans (if_neg hstages))

theorem isDir_edit (h : t.edit e = some t') : t'.isDir p ↔ t.isDir p ∨ p ∈ e.directories k := by
  cases e with
  | createDirectory q =>
    obtain ⟨-, hlookup⟩ := createDirectory_spec h
    rw [isDir, hlookup p, Edit.directories]
    by_cases hpq : p ∈ needs k (q :: parents q)
    · simp [hpq]
    · simp [hpq, isDir]
  | write q bytes now =>
    obtain ⟨hdir, -, hpart, hlookup⟩ := write_spec h
    rw [isDir, hlookup p, Edit.directories]
    by_cases hne : p = q
    · subst hne
      have hp : p ∉ needs k (parents p) := by
        unfold needs
        split
        · exact fun hp => (mem_parents.1 hp).2.2 rfl
        · exact List.not_mem_nil
      simp [hdir, hp]
    · rw [if_neg hne]
      by_cases hpq : p ∈ needs k (parents q)
      · simp [hpq]
      · rw [if_neg hpq, or_iff_left hpq]
        split
        · rename_i hstages
          rw [hstages.2]
          exact iff_of_false nofun (hpart hstages.1)
        · rfl

theorem fileAt_edits (h : t.edits es = some t') (hp : ∀ e ∈ es, ¬ e.Writes p)
    (hs : t.fileAt p = none ∨ ∀ e ∈ es, ¬ e.Stages k p) : t'.fileAt p = t.fileAt p := by
  induction es generalizing t with
  | nil =>
    cases h
    rfl
  | cons e es ih =>
    obtain ⟨t₁, h₁, h⟩ := Option.bind_eq_some_iff.1 h
    have h₁ := fileAt_edit h₁ (hp e List.mem_cons_self) (hs.imp_right fun hs => hs e List.mem_cons_self)
    rw [ih h (fun e he => hp e (List.mem_cons_of_mem _ he)) ?_, h₁]
    exact hs.imp h₁.trans fun hs e he => hs e (List.mem_cons_of_mem _ he)

theorem isDir_edits (h : t.edits es = some t') : t'.isDir p ↔ t.isDir p ∨ ∃ e ∈ es, p ∈ e.directories k := by
  induction es generalizing t with
  | nil =>
    cases h
    simp
  | cons e es ih =>
    obtain ⟨t₁, h₁, h⟩ := Option.bind_eq_some_iff.1 h
    rw [ih h, isDir_edit h₁, or_assoc]
    simp

theorem fileAt_edits_write (h : t.edits es = some t') (hmem : .write p bytes now ∈ es) (hs : ∀ e ∈ es, ¬ e.Stages k p)
    (hone : ∀ bytes' now', Edit.write p bytes' now' ∈ es → bytes' = bytes ∧ now' = now) :
    ¬ t.isDir p ∧ t'.fileAt p = some (bytes, now) := by
  induction es generalizing t with
  | nil => exact absurd hmem List.not_mem_nil
  | cons e es ih =>
    obtain ⟨t₁, h₁, hrest⟩ := Option.bind_eq_some_iff.1 h
    by_cases hlater : .write p bytes now ∈ es
    · obtain ⟨hdir, hfile⟩ := ih hrest hlater (fun e he => hs e (List.mem_cons_of_mem _ he)) fun b n hb =>
        hone b n (List.mem_cons_of_mem _ hb)
      exact ⟨fun hd => hdir ((isDir_edit h₁).2 (.inl hd)), hfile⟩
    · obtain rfl : e = .write p bytes now := by
        rcases List.mem_cons.1 hmem with he | he
        · exact he.symm
        · exact absurd he hlater
      obtain ⟨hdir, -, -, hlookup⟩ := write_spec h₁
      refine ⟨hdir, ?_⟩
      rw [fileAt_edits hrest ?_ (.inr fun e he => hs e (List.mem_cons_of_mem _ he)), fileAt_eq_some, hlookup p, if_pos rfl]
      rintro e he ⟨b, n, rfl⟩
      obtain ⟨rfl, rfl⟩ := hone b n (List.mem_cons_of_mem _ he)
      exact hlater he

end Edits

/-! ## Deletions -/

def deletes (t : Tree k) (ps : List Path) : Option (Tree k) := ps.foldlM delete t

theorem lookup_deletes {t t' : Tree k} {ps : List Path} (h : t.deletes ps = some t') (hps : ∀ p ∈ ps, ¬ t.isDir p) (q : Path) :
    t'.lookup q = if q ∈ ps then none else t.lookup q := by
  induction ps generalizing t with
  | nil =>
    cases h
    simp
  | cons p ps ih =>
    obtain ⟨t₁, h₁, h⟩ := Option.bind_eq_some_iff.1 h
    have hlookup := delete_spec h₁ (hps p List.mem_cons_self)
    have hdir : ∀ r ∈ ps, ¬ t₁.isDir r := by
      intro r hr
      rw [isDir, hlookup r]
      split
      · rintro ⟨⟩
      · exact hps r (List.mem_cons_of_mem _ hr)
    rw [ih h hdir, hlookup q]
    by_cases hq : q = p
    · simp [hq]
    · simp [hq]

end Tree

end HaexVault.FileSync
