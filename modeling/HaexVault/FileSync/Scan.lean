import HaexVault.FileSync.Tree
/-!
# Manifests (`local_provider.rs`, `peer_storage/helpers.rs`, `cloud_provider.rs`)

A folder, here or at a peer, is scanned directory by directory; what cannot be read is skipped with
everything in it. A bucket lists its objects. Backslashes become slashes, and no name of a tree has
one. `lookup_manifest` says what a manifest shows at a path.
-/

namespace HaexVault.FileSync

structure ReadErrors where
  entry : Path → Bool
  metadata : Path → Bool
  hash : Path → Bool
  readDir : Path → Bool

def ReadErrors.none : ReadErrors := ⟨fun _ => false, fun _ => false, fun _ => false, fun _ => false⟩

structure ScanWorld where
  sha : Bytes → String
  directoryTime : Path → Nat
  errors : ReadErrors

def fileState (k : ProviderKind) (w : ScanWorld) (p : Path) : Node → FileState
  | .file bytes modifiedAt =>
    ⟨p, bytes.length, modifiedAt, false, if k.reportsHashes && !w.errors.hash p then some (w.sha bytes) else none⟩
  | .directory => ⟨p, 0, w.directoryTime p, true, none⟩

/-- `replace('\\', "/")` on a path. -/
def slashed (p : Path) : Path := p.flatMap fun name => (name.toList.splitOn '\\').map String.ofList

theorem slashed_eq {p : Path} (hp : Plain p) : slashed p = p := by
  have hsame : ∀ name ∈ p, (name.toList.splitOn '\\').map String.ofList = [name] := by
    intro name hname
    rw [List.splitOn, List.splitOnP_eq_singleton fun c hc => ?_]
    · simp
    · exact beq_false_of_ne fun h => hp name hname (h ▸ hc)
  rw [slashed, List.flatMap_congr hsame]
  simp

def FileState.slashed (f : FileState) : FileState := { f with relativePath := FileSync.slashed f.relativePath }

theorem slashed_fileState {k : ProviderKind} {w : ScanWorld} {p : Path} {n : Node} (hp : Plain p) :
    (fileState k w p n).slashed = fileState k w p n := by
  cases n <;> simp [FileState.slashed, fileState, slashed_eq hp]

namespace Tree
variable {k : ProviderKind}

def children (t : Tree k) (dir : Path) : List (Path × Node) :=
  (t.nodes.entries.map fun e => (e.1, e.2)).filter fun e => e.1 ≠ [] ∧ e.1.dropLast = dir

/-- `scan_directory` and `scan_directory_recursive`, to a number of levels below `dir`. -/
def scanDirectory (t : Tree k) (w : ScanWorld) : Nat → Path → Option (List FileState)
  | 0, dir => if w.errors.readDir dir then none else some []
  | levels + 1, dir =>
    if w.errors.readDir dir then none
    else some <| (t.children dir).flatMap fun e =>
      if w.errors.entry e.1 || w.errors.metadata e.1 then []
      else (fileState k w e.1 e.2).slashed :: if e.2 = .directory then (t.scanDirectory w levels e.1).getD [] else []

def levels (t : Tree k) : Nat := (t.nodes.keys.map List.length).max?.getD 0

/-- `manifest`. -/
def manifest (t : Tree k) (w : ScanWorld) : Option (List FileState) :=
  if k.supportsDirectories then t.scanDirectory w t.levels []
  else some (t.nodes.entries.map fun e => fileState k w e.1 e.2)

end Tree

@[simp] theorem fileState_relativePath {k : ProviderKind} {w : ScanWorld} {p : Path} {n : Node} :
    (fileState k w p n).relativePath = p := by
  cases n <;> rfl

/-! ## What a scan reaches -/

def Reached (errors : ReadErrors) : Path → Path → Prop
  | _, [] => True
  | dir, c :: rest =>
    errors.readDir dir = false ∧ errors.entry (dir ++ [c]) = false ∧ errors.metadata (dir ++ [c]) = false ∧
      Reached errors (dir ++ [c]) rest

instance (errors : ReadErrors) : ∀ dir p, Decidable (Reached errors dir p)
  | _, [] => isTrue trivial
  | dir, c :: rest =>
    have := instDecidableReached errors (dir ++ [c]) rest
    inferInstanceAs (Decidable (_ ∧ _ ∧ _ ∧ _))

def Tree.Shows {k : ProviderKind} (_ : Tree k) (w : ScanWorld) (p : Path) : Prop :=
  k.supportsDirectories = true → Reached w.errors [] p

instance {k : ProviderKind} (t : Tree k) (w : ScanWorld) (p : Path) : Decidable (t.Shows w p) :=
  inferInstanceAs (Decidable (_ → _))

theorem reached_none (dir p : Path) : Reached .none dir p := by
  induction p generalizing dir with
  | nil => trivial
  | cons c rest ih => exact ⟨rfl, rfl, rfl, ih _⟩

namespace Tree
variable {k : ProviderKind} {t : Tree k} {w : ScanWorld} {dir p : Path} {n : Node} {f : FileState} {files : List FileState}

theorem mem_children : (p, n) ∈ t.children dir ↔ t.lookup p = some n ∧ ∃ c, p = dir ++ [c] := by
  unfold children
  rw [List.mem_filter, List.mem_map]
  have hentry : (∃ e ∈ t.nodes.entries, (e.1, e.2) = (p, n)) ↔ t.lookup p = some n := by
    rw [lookup, ← Option.mem_def, AList.mem_lookup_iff]
    constructor
    · rintro ⟨⟨q, m⟩, he, h⟩
      cases h
      exact he
    · intro h
      exact ⟨_, h, rfl⟩
  rw [hentry]
  refine and_congr_right fun _ => ?_
  simp only [decide_eq_true_eq]
  constructor
  · rintro ⟨hne, hdrop⟩
    exact ⟨p.getLast hne, by rw [← hdrop, List.dropLast_append_getLast]⟩
  · rintro ⟨c, rfl⟩
    simp

theorem plain_of_lookup (h : t.lookup p = some n) : Plain p := t.plain p (by rw [← lookup, h]; exact Option.some_ne_none n)

theorem length_le_levels (h : t.lookup p = some n) : p.length ≤ t.levels := by
  have hkey : p ∈ t.nodes.keys := AList.mem_keys.1 (AList.lookup_isSome.1 (by rw [← lookup, h]; rfl))
  exact List.le_max?_getD_of_mem (List.mem_map_of_mem hkey)

/-- A scan finds what lies below the directory, as far down as it goes and as far as it can read. -/
theorem mem_scanDirectory (hk : k.supportsDirectories = true) (levels : Nat) :
    f ∈ (t.scanDirectory w levels dir).getD [] ↔ ∃ rest n, rest ≠ [] ∧ rest.length ≤ levels ∧
      t.lookup (dir ++ rest) = some n ∧ Reached w.errors dir rest ∧ f = fileState k w (dir ++ rest) n := by
  induction levels generalizing dir f with
  | zero =>
    have hnil : (t.scanDirectory w 0 dir).getD [] = [] := by
      rw [scanDirectory]
      split <;> rfl
    rw [hnil]
    constructor
    · intro h
      exact absurd h List.not_mem_nil
    · rintro ⟨rest, n, hne, hlen, -⟩
      exact absurd (List.length_eq_zero_iff.1 (Nat.le_zero.1 hlen)) hne
  | succ levels ih =>
    rw [scanDirectory]
    by_cases hread : w.errors.readDir dir = true
    · rw [if_pos hread]
      constructor
      · intro h
        exact absurd h List.not_mem_nil
      · rintro ⟨rest, n, hne, -, -, hreached, -⟩
        obtain ⟨c, rest, rfl⟩ := List.exists_cons_of_ne_nil hne
        rw [hreached.1] at hread
        cases hread
    · rw [if_neg hread, Option.getD_some, List.mem_flatMap]
      rw [Bool.not_eq_true] at hread
      constructor
      · rintro ⟨⟨p, n⟩, he, hf⟩
        obtain ⟨hlookup, c, rfl⟩ := mem_children.1 he
        rw [slashed_fileState (plain_of_lookup hlookup)] at hf
        split at hf
        · exact absurd hf List.not_mem_nil
        · rename_i hskip
          simp only [Bool.or_eq_true, not_or, Bool.not_eq_true] at hskip
          rcases List.mem_cons.1 hf with rfl | hf
          · exact ⟨[c], n, List.cons_ne_nil _ _, by simp, hlookup, ⟨hread, hskip.1, hskip.2, trivial⟩, rfl⟩
          · split at hf
            · obtain ⟨rest, m, -, hlen, hrest, hreached, rfl⟩ := ih.1 hf
              rw [List.append_assoc] at hrest ⊢
              exact ⟨c :: rest, m, List.cons_ne_nil _ _, by simpa using hlen, hrest,
                ⟨hread, hskip.1, hskip.2, hreached⟩, rfl⟩
            · exact absurd hf List.not_mem_nil
      · rintro ⟨rest, n, hne, hlen, hlookup, hreached, rfl⟩
        obtain ⟨c, rest, rfl⟩ := List.exists_cons_of_ne_nil hne
        obtain ⟨-, hentry, hmeta, hrest⟩ := hreached
        have hsplit : dir ++ c :: rest = dir ++ [c] ++ rest := by simp
        rw [hsplit] at hlookup ⊢
        by_cases hnil : rest = []
        · subst hnil
          rw [List.append_nil] at hlookup ⊢
          exact ⟨(dir ++ [c], n), mem_children.2 ⟨hlookup, c, rfl⟩,
            by simp [hentry, hmeta, slashed_fileState (plain_of_lookup hlookup)]⟩
        · -- the child on the way is a directory, and the rest is found in it
          have hdir : t.lookup (dir ++ [c]) = some .directory := by
            refine isDir_parents hk (by rw [hlookup]; simp) (mem_parents.2 ⟨List.prefix_append _ _, by simp, ?_⟩)
            intro he
            exact hnil (List.append_right_eq_self.1 he.symm)
          refine ⟨(dir ++ [c], .directory), mem_children.2 ⟨hdir, c, rfl⟩, ?_⟩
          simp only [hentry, hmeta, Bool.or_false, Bool.false_eq_true, if_false, if_true]
          exact List.mem_cons_of_mem _ (ih.2 ⟨rest, n, hnil, by simpa using hlen, hlookup, hrest, rfl⟩)

theorem mem_manifest (h : t.manifest w = some files) : f ∈ files ↔ ∃ p n, t.lookup p = some n ∧ t.Shows w p ∧
    f = fileState k w p n := by
  unfold manifest at h
  by_cases hk : k.supportsDirectories = true
  · rw [if_pos hk] at h
    have hmem : f ∈ (t.scanDirectory w t.levels []).getD [] ↔ _ := mem_scanDirectory hk t.levels
    rw [h, Option.getD_some] at hmem
    rw [hmem]
    constructor
    · rintro ⟨rest, n, -, -, hlookup, hreached, hf⟩
      exact ⟨rest, n, hlookup, fun _ => hreached, hf⟩
    · rintro ⟨p, n, hlookup, hreached, hf⟩
      refine ⟨p, n, ?_, length_le_levels hlookup, hlookup, hreached hk, hf⟩
      rintro rfl
      rw [lookup, t.root] at hlookup
      cases hlookup
  · rw [if_neg hk] at h
    cases h
    rw [List.mem_map]
    constructor
    · rintro ⟨⟨p, n⟩, he, rfl⟩
      exact ⟨p, n, AList.mem_lookup_iff.2 he, fun h => absurd h hk, rfl⟩
    · rintro ⟨p, n, hlookup, -, rfl⟩
      exact ⟨⟨p, n⟩, AList.mem_lookup_iff.1 hlookup, rfl⟩

/-- What a scan shows at a path. -/
def shown (t : Tree k) (w : ScanWorld) (p : Path) : Option FileState :=
  if t.Shows w p then (t.lookup p).map (fileState k w p) else none

/-- What the map of a manifest has at a path. -/
theorem lookup_manifest (h : t.manifest w = some files) : (toMap files).lookup p = t.shown w p := by
  have hpath : ∀ f ∈ files, ∀ g ∈ files, f.relativePath = g.relativePath → f = g := by
    intro f hf g hg he
    obtain ⟨p, n, hp, -, rfl⟩ := (mem_manifest h).1 hf
    obtain ⟨q, m, hq, -, rfl⟩ := (mem_manifest h).1 hg
    rw [fileState_relativePath, fileState_relativePath] at he
    subst he
    cases hp.symm.trans hq
    rfl
  ext f
  rw [lookup_toMap hpath, mem_manifest h, shown]
  constructor
  · rintro ⟨⟨q, n, hq, hreached, rfl⟩, he⟩
    rw [fileState_relativePath] at he
    subst he
    rw [if_pos hreached, hq]
    rfl
  · intro hf
    split at hf
    · rename_i hreached
      obtain ⟨n, hn, rfl⟩ := Option.map_eq_some_iff.1 hf
      exact ⟨⟨p, n, hn, hreached, rfl⟩, fileState_relativePath⟩
    · cases hf

theorem lookup_manifest_of_none (h : t.manifest w = some files) (hw : w.errors = .none) :
    (toMap files).lookup p = (t.lookup p).map (fileState k w p) := by
  have hshows : t.Shows w p := fun _ => hw ▸ reached_none [] p
  rw [lookup_manifest h, shown, if_pos hshows]

end Tree

def sampleSha (bytes : Bytes) : String := if bytes = [] then "e3" else "4b"

def sampleScan : ScanWorld := ⟨sampleSha, fun _ => 1000, .none⟩

end HaexVault.FileSync
