import Mathlib.Logic.Function.Basic
import HaexVault.Lib.FileTree
/-!
# System calls on a file tree

What a call works on is derived from walks: the entry a path names (`entryLoc`), the directories made
for it (`createDirAll_cases`), the file that is opened (`createAt`), which may be the one a link leads
to. The last part says which of them stay in a directory.
-/

namespace HaexVault.Lib

namespace FileTree

/-! ## Calls -/

/-- An entry is added to a directory that has none of its name. -/
@[grind =] def put (t : FileTree) (dir : Loc) (n : String) (x : Node) : FileTree :=
  if h : t.node dir = some .dir ∧ t.node (dir ++ [n]) = none then
    { t with
      node := Function.update t.node (dir ++ [n]) (some x)
      root := by rw [Function.update_of_ne (by simp), t.root]
      parents := by
        intro loc m y hy
        have hdir : Function.update t.node (dir ++ [n]) (some x) dir = some .dir := by
          rw [Function.update_of_ne (by simp), h.1]
        by_cases hnew : loc ++ [m] = dir ++ [n]
        · rwa [(List.append_inj' hnew rfl).1]
        · rw [Function.update_of_ne hnew] at hy
          have hloc := t.parents loc m y hy
          rw [Function.update_of_ne, hloc]
          rintro rfl
          rw [h.2] at hloc
          cases hloc }
  else t

/-- The entry that a path names: its directory and its name. A link there is not followed. -/
@[grind =] def entryAt (t : FileTree) (path : List Comp) : Except IoError (Loc × String) :=
  match path.getLast? with
  | some (.name n) => match t.canonicalize path.dropLast with
    | .ok dir => if t.node dir = some .dir then .ok (dir, n) else .error .notADirectory
    | .error e => .error e
  | _ => match t.canonicalize path with
    | .ok _ => .error .alreadyExists
    | .error e => .error e

/-- Where the entry is that `rename` and `remove_file` work on: a last name that is a link is not followed. -/
def entryLoc (t : FileTree) (path : List Comp) : Option Loc :=
  match path.getLast? with
  | some (.name n) => (t.canonicalize path.dropLast).toOption.map (· ++ [n])
  | _ => (t.canonicalize path).toOption

/-- `exists`. -/
def has (t : FileTree) (path : List Comp) : Bool := (t.canonicalize path).toBool

def isDir (t : FileTree) (path : List Comp) : Bool := (t.canonicalize path).toOption.any (t.node · = some .dir)

/-- `mkdir`: the tree with the directory, and where it is. -/
def mkdir (t : FileTree) (path : List Comp) : Except IoError (FileTree × Loc) :=
  match t.entryAt path with
  | .error e => .error e
  | .ok (dir, n) =>
    if t.node (dir ++ [n]) = none then .ok (t.put dir n .dir, dir ++ [n]) else .error .alreadyExists

/-- `std::fs::create_dir_all`, on the components from the last one up: the tree, the directories it made, and whether the
path is a directory then. -/
@[grind =] def createDirAllRev (t : FileTree) : List Comp → FileTree × List Loc × Bool
  | [] => (t, [], true)
  | c :: up =>
    let path := (c :: up).reverse
    match t.mkdir path with
    | .ok (t', loc) => (t', [loc], true)
    | .error .notFound => match createDirAllRev t up with
      | (t', created, true) => match t'.mkdir path with
        | .ok (t'', loc) => (t'', created ++ [loc], true)
        | .error _ => (t', created, t'.isDir path)
      | (t', created, false) => (t', created, false)
    | .error _ => (t, [], t.isDir path)

def createDirAll (t : FileTree) (path : List Comp) : FileTree × List Loc × Bool := t.createDirAllRev path.reverse

/-- The directory that a path is in is made where it is missing. -/
def createParent (t : FileTree) (path : List Comp) : FileTree × List Loc × Bool :=
  match parent path with
  | some dir => t.createDirAll dir
  | none => (t, [], true)

/-- A walk to a file that is opened for writing: it is created if only the last name is missing. -/
@[grind =] def createFrom (t : FileTree) (follow : Loc → List Comp → Except IoError Loc) : Loc → List Comp → Except IoError Loc
  | cur, [] => if t.node cur = some .file then .ok cur else .error .isADirectory
  | cur, c :: rest =>
    if t.node cur ≠ some .dir then .error .notADirectory
    else match c with
      | .up => createFrom t follow cur.dropLast rest
      | .name n => match t.node (cur ++ [n]) with
        | none => if rest = [] then .ok (cur ++ [n]) else .error .notFound
        | some (.link absolute target) => follow (if absolute then [] else cur) (target ++ rest)
        | some _ => createFrom t follow (cur ++ [n]) rest

@[grind =] def create (t : FileTree) : Nat → Loc → List Comp → Except IoError Loc
  | 0 => t.createFrom fun _ _ => .error .tooManyLinks
  | links + 1 => t.createFrom (t.create links)

/-- `File::create`: the file it creates or writes. -/
def createAt (t : FileTree) (path : List Comp) : Except IoError Loc := t.create t.maxLinks [] path

/-- The tree once there is a file at a location. -/
def withFile (t : FileTree) (loc : Loc) : FileTree :=
  match loc.getLast? with
  | some n => t.put loc.dropLast n .file
  | none => t

/-- The tree without an entry that is no directory. -/
def erase (t : FileTree) (loc : Loc) : FileTree :=
  if h : t.node loc = some .dir then t
  else
    { t with
      node := Function.update t.node loc none
      root := by
        rw [Function.update_of_ne, t.root]
        rintro rfl
        exact h t.root
      parents := by
        intro loc' n x hx
        have hne : loc' ++ [n] ≠ loc := by
          rintro rfl
          rw [Function.update_self] at hx
          cases hx
        rw [Function.update_of_ne hne] at hx
        have hdir := t.parents loc' n x hx
        rw [Function.update_of_ne, hdir]
        rintro rfl
        exact h hdir }

section Put
variable {t : FileTree} {dir loc : Loc} {n : String} {x : Node}

theorem put_node (hdir : t.node dir = some .dir) (hn : t.node (dir ++ [n]) = none) :
    (t.put dir n x).node = Function.update t.node (dir ++ [n]) (some x) := by
  rw [put, dif_pos ⟨hdir, hn⟩]

theorem put_extends : (t.put dir n x).Extends t := by
  unfold put
  split
  · rename_i h
    refine ⟨fun loc y hy => ?_, rfl⟩
    show Function.update t.node (dir ++ [n]) (some x) loc = some y
    rw [Function.update_of_ne, hy]
    rintro rfl
    rw [h.2] at hy
    cases hy
  · exact .refl t

theorem withFile_extends : (t.withFile loc).Extends t := by
  unfold withFile
  split
  · exact put_extends
  · exact .refl t

theorem put_node_of_ne (h : loc ≠ dir ++ [n]) : (t.put dir n x).node loc = t.node loc := by
  unfold put
  split
  · exact Function.update_of_ne h ..
  · rfl

theorem withFile_node_of_ne {loc' : Loc} (h : loc' ≠ loc) : (t.withFile loc).node loc' = t.node loc' := by
  unfold withFile
  split
  · next n hlast => exact put_node_of_ne (by rwa [List.dropLast_append_getLast? n hlast])
  · rfl

end Put

/-! ### Entries that are removed -/

section Erase
variable {t : FileTree} {links : Nat} {cur loc entry : Loc} {xs path : List Comp}

theorem erase_node (h : t.node entry ≠ some .dir) : (t.erase entry).node = Function.update t.node entry none := by
  rw [erase, dif_neg h]

theorem node_of_erase {x : Node} (h : (t.erase entry).node loc = some x) : t.node loc = some x := by
  by_cases hdir : t.node entry = some .dir
  · rwa [erase, dif_pos hdir] at h
  · rw [erase_node hdir] at h
    by_cases hloc : loc = entry
    · rw [hloc, Function.update_self] at h
      cases h
    · rwa [Function.update_of_ne hloc] at h

theorem erase_maxLinks : (t.erase entry).maxLinks = t.maxLinks := by
  unfold erase
  split <;> rfl

/-- A walk that does not end at a file goes on without it. -/
theorem walk_erase {r : Nat × Loc} (hfile : t.node entry = some .file) (h : t.walk links cur xs = .ok r)
    (hne : r.2 ≠ entry) : (t.erase entry).walk links cur xs = .ok r := by
  have hnode : ∀ loc x, t.node loc = some x → loc ≠ entry → (t.erase entry).node loc = some x := by
    intro loc x hx hloc
    rw [erase_node (by rw [hfile]; simp), Function.update_of_ne hloc, hx]
  refine (walk_ok_induct
    (P := fun links cur xs => t.walk links cur xs = .ok r ∧ (t.erase entry).walk links cur xs = .ok r)
    ⟨walk_nil, walk_nil⟩ ?_ ?_ ?_ h).2
  · rintro links cur rest hdir ⟨hwalk, ih⟩
    refine ⟨by rwa [walk_up hdir], ?_⟩
    rwa [walk_up (hnode _ _ hdir (by rintro rfl; rw [hfile] at hdir; cases hdir))]
  · rintro links cur n x rest hn hx ⟨hwalk, ih⟩
    refine ⟨by rwa [walk_entry hn hx], ?_⟩
    by_cases hentry : cur ++ [n] = entry
    · -- at a file a walk ends
      exfalso
      rw [hentry] at hwalk
      cases rest with
      | nil =>
        rw [walk_nil] at hwalk
        cases hwalk
        exact hne rfl
      | cons c rest =>
        rw [walk_notDir (by rw [hfile]; simp)] at hwalk
        cases hwalk
    · rwa [walk_entry (hnode _ _ hn hentry) hx]
  · rintro links cur n absolute target rest hn ⟨hwalk, ih⟩
    refine ⟨by rwa [walk_link hn], ?_⟩
    rwa [walk_link (hnode _ _ hn (by rintro rfl; rw [hfile] at hn; cases hn))]

theorem canonicalize_erase (hfile : t.node entry = some .file) (h : t.canonicalize path = .ok loc) (hne : loc ≠ entry) :
    (t.erase entry).canonicalize path = .ok loc := by
  obtain ⟨links, h⟩ := canonicalize_ok.1 h
  refine canonicalize_ok.2 ⟨links, ?_⟩
  rw [erase_maxLinks]
  exact walk_erase hfile h hne

end Erase

/-! ### Directories that are made -/

section Make
variable {t : FileTree} {dir loc : Loc} {n : String} {path done base : List Comp} {names rest : List String}

/-- The first entry that a path misses is `n` in `dir`; `rest` goes on below it. -/
def FirstMissing (t : FileTree) (path : List Comp) (dir : Loc) (n : String) (rest : List String) : Prop :=
  ∃ done, path = done ++ (n :: rest).map .name ∧ t.canonicalize done = .ok dir ∧ t.node dir = some .dir ∧
    t.node (dir ++ [n]) = none

theorem FirstMissing.append (h : t.FirstMissing path dir n rest) (names : List String) :
    t.FirstMissing (path ++ names.map .name) dir n (rest ++ names) := by
  obtain ⟨done, rfl, h⟩ := h
  exact ⟨done, by simp, h⟩

/-- Nothing is below an entry that is not there. -/
theorem node_below (hn : t.node loc = none) (names : List String) : t.node (loc ++ names) = none := by
  cases hx : t.node (loc ++ names) with
  | none => rfl
  | some x =>
    cases names with
    | nil => simp [hn] at hx
    | cons m ms =>
      rw [node_above hx (by simp)] at hn
      cases hn

/-- A path with a missing entry leads nowhere. -/
theorem FirstMissing.canonicalize (h : t.FirstMissing path dir n rest) : t.canonicalize path = .error .notFound := by
  obtain ⟨done, rfl, hdone, hdir, hn⟩ := h
  obtain ⟨links, hdone⟩ := canonicalize_ok.1 hdone
  unfold FileTree.canonicalize
  rw [walk_append, hdone, List.map_cons]
  show (t.walk links dir (.name n :: _)).map _ = _
  rw [walk_none hdir hn]
  rfl

theorem canonicalize_append_error {e : IoError} (h : t.canonicalize path = .error e) (xs : List Comp) :
    t.canonicalize (path ++ xs) = .error e := by
  unfold FileTree.canonicalize at h ⊢
  rw [walk_append]
  cases hw : t.walk t.maxLinks [] path with
  | error e' =>
    rw [hw] at h
    cases h
    rfl
  | ok r =>
    rw [hw] at h
    cases h

theorem canonicalize_of_append {xs : List Comp} (h : t.canonicalize (path ++ xs) = .ok loc) :
    ∃ dir, t.canonicalize path = .ok dir := by
  cases hp : t.canonicalize path with
  | ok dir => exact ⟨dir, rfl⟩
  | error e =>
    rw [canonicalize_append_error hp] at h
    cases h

theorem entryAt_name : t.entryAt (path ++ [.name n]) = match t.canonicalize path with
    | .ok dir => if t.node dir = some .dir then .ok (dir, n) else .error .notADirectory
    | .error e => .error e := by
  simp [entryAt]

theorem mkdir_ok (h : t.canonicalize path = .ok dir) (hdir : t.node dir = some .dir) (hn : t.node (dir ++ [n]) = none) :
    t.mkdir (path ++ [.name n]) = .ok (t.put dir n .dir, dir ++ [n]) := by
  simp only [mkdir, entryAt_name, h, hdir, hn, if_true]

theorem mkdir_error {e : IoError} (h : t.canonicalize path = .error e) : t.mkdir (path ++ [.name n]) = .error e := by
  simp only [mkdir, entryAt_name, h]

theorem createDirAll_concat (c : Comp) : t.createDirAll (path ++ [c]) = match t.mkdir (path ++ [c]) with
    | .ok (t', loc) => (t', [loc], true)
    | .error .notFound => match t.createDirAll path with
      | (t', created, true) => match t'.mkdir (path ++ [c]) with
        | .ok (t'', loc) => (t'', created ++ [loc], true)
        | .error _ => (t', created, t'.isDir (path ++ [c]))
      | (t', created, false) => (t', created, false)
    | .error _ => (t, [], t.isDir (path ++ [c])) := by
  unfold createDirAll
  rw [List.reverse_concat, createDirAllRev, List.reverse_cons, List.reverse_reverse]

/-- Only directories are added. -/
def MoreDirs (t' t : FileTree) : Prop := t'.Extends t ∧ ∀ loc x, t'.node loc = some x → t.node loc = some x ∨ x = .dir

theorem MoreDirs.refl (t : FileTree) : t.MoreDirs t := ⟨.refl t, fun _ _ h => .inl h⟩

theorem MoreDirs.trans {t'' t' : FileTree} (h : t''.MoreDirs t') (h' : t'.MoreDirs t) : t''.MoreDirs t := by
  refine ⟨h.1.trans h'.1, fun loc x hx => ?_⟩
  rcases h.2 loc x hx with hx | hx
  · exact h'.2 loc x hx
  · exact .inr hx

theorem put_moreDirs : (t.put dir n .dir).MoreDirs t := by
  refine ⟨put_extends, fun loc x hx => ?_⟩
  by_cases h : t.node dir = some .dir ∧ t.node (dir ++ [n]) = none
  · rw [put_node h.1 h.2] at hx
    by_cases hloc : loc = dir ++ [n]
    · rw [hloc, Function.update_self] at hx
      exact .inr (Option.some.inj hx).symm
    · rw [Function.update_of_ne hloc] at hx
      exact .inl hx
  · rw [put, dif_neg h] at hx
    exact .inl hx

theorem mkdir_moreDirs {t' : FileTree} (h : t.mkdir path = .ok (t', loc)) : t'.MoreDirs t := by
  unfold mkdir at h
  split at h
  · cases h
  · split at h
    · cases h
      exact put_moreDirs
    · cases h

theorem createDirAllRev_moreDirs (rev : List Comp) : (t.createDirAllRev rev).1.MoreDirs t := by
  induction rev with
  | nil => exact .refl t
  | cons c up ih =>
    simp only [createDirAllRev]
    split
    · next hmade => exact mkdir_moreDirs hmade
    · split
      · next hup =>
        rw [hup] at ih
        split
        · next hmade => exact (mkdir_moreDirs hmade).trans ih
        · exact ih
      · next hup =>
        rw [hup] at ih
        exact ih
    · exact .refl t

theorem createParent_moreDirs : (t.createParent path).1.MoreDirs t := by
  unfold createParent
  split
  · exact createDirAllRev_moreDirs _
  · exact .refl t

theorem createParent_file (h : (t.createParent path).1.node loc = some .file) : t.node loc = some .file := by
  rcases createParent_moreDirs.2 loc _ h with h | h
  · exact h
  · cases h

theorem mkdir_new {t' : FileTree} {made : Loc} {x : Node} (h : t.mkdir path = .ok (t', made)) (hx : t'.node loc = some x) :
    t.node loc = some x ∨ loc = made := by
  unfold mkdir at h
  split at h
  · cases h
  · split at h
    · cases h
      by_contra hnot
      obtain ⟨hold, hloc⟩ := not_or.1 hnot
      exact hold (put_node_of_ne hloc ▸ hx)
    · cases h

theorem createDirAllRev_new {x : Node} (rev : List Comp) (hx : (t.createDirAllRev rev).1.node loc = some x) :
    t.node loc = some x ∨ loc ∈ (t.createDirAllRev rev).2.1 := by
  induction rev generalizing x with
  | nil => exact .inl hx
  | cons c up ih =>
    simp only [createDirAllRev] at hx ⊢
    split at hx
    · next hmade => exact (mkdir_new hmade hx).imp_right List.mem_singleton.2
    · split at hx
      · next t' created hup =>
        rw [hup] at ih
        split at hx
        · next hmade =>
          rcases mkdir_new hmade hx with hx | rfl
          · exact (ih hx).imp_right (List.mem_append_left _)
          · exact .inr (List.mem_append_right _ (List.mem_singleton_self _))
        · exact ih hx
      · next hup =>
        rw [hup] at ih
        exact ih hx
    · exact .inl hx

/-- Every entry that is new is a directory that was made. -/
theorem createParent_new {x : Node} (hx : (t.createParent path).1.node loc = some x) :
    t.node loc = some x ∨ loc ∈ (t.createParent path).2.1 := by
  unfold createParent at hx ⊢
  split at hx
  · next hup =>
    exact createDirAllRev_new _ hx
  · exact .inl hx

/-- What `createDirAll` leaves where `n` was the first entry that the path misses: every directory it made is `dir ++ [n]` or
below it, and the last one is empty. -/
structure Made (t : FileTree) (path : List Comp) (dir : Loc) (n : String) (rest : List String) (t' : FileTree)
    (created : List Loc) : Prop where
  grown : t'.Extends t
  leads : t'.canonicalize path = .ok (dir ++ n :: rest)
  isDir : t'.node (dir ++ n :: rest) = some .dir
  empty : ∀ m names, t'.node (dir ++ n :: rest ++ m :: names) = none
  first : dir ++ [n] ∈ created
  below : ∀ loc ∈ created, dir ++ [n] <+: loc

/-- A directory in an empty one. -/
theorem put_empty {m : String} (hdir : t.node dir = some .dir) (hempty : ∀ m names, t.node (dir ++ m :: names) = none) :
    (t.put dir m .dir).node (dir ++ [m]) = some .dir ∧
      ∀ m' names, (t.put dir m .dir).node (dir ++ [m] ++ m' :: names) = none := by
  rw [put_node hdir (hempty m [])]
  refine ⟨Function.update_self .., fun m' names => ?_⟩
  rw [Function.update_of_ne (by simp), List.append_assoc]
  exact hempty m (m' :: names)

theorem Made.one (hdone : t.canonicalize done = .ok dir) (hdir : t.node dir = some .dir) (hn : t.node (dir ++ [n]) = none) :
    t.Made (done ++ [.name n]) dir n [] (t.put dir n .dir) [dir ++ [n]] := by
  have hbelow : ∀ m names, t.node (dir ++ [n] ++ m :: names) = none := fun m names => node_below hn (m :: names)
  have hnew : (t.put dir n .dir).node (dir ++ [n]) = some .dir := by
    rw [put_node hdir hn, Function.update_self]
  refine ⟨put_extends, canonicalize_name (put_extends.canonicalize hdone) (.inl hnew), hnew, ?_, by simp, by simp⟩
  intro m names
  rw [put_node hdir hn, Function.update_of_ne (by simp), hbelow]

/-- One directory more. -/
theorem Made.more {t' : FileTree} {created : List Loc} (h : t.Made path dir n rest t' created) (m : String) :
    t.Made (path ++ [.name m]) dir n (rest ++ [m]) (t'.put (dir ++ n :: rest) m .dir)
      (created ++ [dir ++ n :: rest ++ [m]]) := by
  have hloc : dir ++ n :: (rest ++ [m]) = dir ++ n :: rest ++ [m] := by simp
  obtain ⟨hnew, hempty⟩ := put_empty (m := m) h.isDir h.empty
  refine ⟨put_extends.trans h.grown, ?_, hloc ▸ hnew, fun m' names => hloc ▸ hempty m' names, by simp [h.first], ?_⟩
  · rw [hloc]
    exact canonicalize_name (put_extends.canonicalize h.leads) (.inl hnew)
  · intro loc hloc
    rcases List.mem_append.1 hloc with hloc | hloc
    · exact h.below loc hloc
    · rw [List.mem_singleton] at hloc
      exact ⟨rest ++ [m], by simp [hloc]⟩

/-- Every entry from the first missing one on is made. -/
theorem createDirAll_missing (h : t.FirstMissing path dir n rest) :
    ∃ t' created, t.createDirAll path = (t', created, true) ∧ t.Made path dir n rest t' created := by
  obtain ⟨done, rfl, hdone, hdir, hn⟩ := h
  induction rest using List.reverseRecOn with
  | nil =>
    refine ⟨_, _, ?_, .one hdone hdir hn⟩
    rw [List.map_singleton, createDirAll_concat, mkdir_ok hdone hdir hn]
  | append_singleton rest m ih =>
    obtain ⟨t', created, hcreate, hmade⟩ := ih
    have hpath : done ++ (n :: (rest ++ [m])).map .name = done ++ (n :: rest).map .name ++ [.name m] := by simp
    have hnone : t.canonicalize (done ++ (n :: rest).map .name) = .error .notFound :=
      FirstMissing.canonicalize ⟨done, rfl, hdone, hdir, hn⟩
    rw [hpath]
    refine ⟨_, _, ?_, hmade.more m⟩
    rw [createDirAll_concat, mkdir_error hnone, hcreate]
    simp only [mkdir_ok hmade.leads hmade.isDir (hmade.empty m [])]

theorem isDir_error {e : IoError} (h : t.canonicalize path = .error e) : t.isDir path = false := by
  simp [isDir, h, Except.toOption]

theorem isDir_iff : t.isDir path = true ↔ ∃ loc, t.canonicalize path = .ok loc ∧ t.node loc = some .dir := by
  cases h : t.canonicalize path with
  | error e | ok loc => simp [isDir, h, Except.toOption]

/-- A path goes on from a directory. -/
theorem canonicalize_concat {c : Comp} (h : t.canonicalize (path ++ [c]) = .ok loc) :
    ∃ dir links links', t.walk t.maxLinks [] path = .ok (links, dir) ∧ t.node dir = some .dir ∧
      t.walk links dir [c] = .ok (links', loc) := by
  obtain ⟨links', h⟩ := canonicalize_ok.1 h
  rw [walk_append] at h
  cases hw : t.walk t.maxLinks [] path with
  | error e =>
    rw [hw] at h
    cases h
  | ok r =>
    rw [hw] at h
    replace h : t.walk r.1 r.2 [c] = .ok (links', loc) := h
    refine ⟨r.2, r.1, links', rfl, ?_, h⟩
    by_contra hdir
    rw [walk_notDir hdir] at h
    cases h

/-- What is there already is left as it is. -/
theorem mkdir_there (h : t.canonicalize path = .ok loc) : t.mkdir path = .error .alreadyExists := by
  rcases List.eq_nil_or_concat path with rfl | ⟨init, c, rfl⟩
  · simp [mkdir, entryAt, h]
  · rw [List.concat_eq_append] at h ⊢
    cases c with
    | up => simp [mkdir, entryAt, h]
    | name n =>
      obtain ⟨dir, links, links', hinit, hdir, hlast⟩ := canonicalize_concat h
      have hn : t.node (dir ++ [n]) ≠ none := by
        intro hn
        rw [walk_none hdir hn] at hlast
        cases hlast
      simp only [mkdir, entryAt_name, canonicalize_ok.2 ⟨links, hinit⟩, hdir, hn, if_true, if_false]

/-- Below a folder that is there, nothing is made unless some entry is the first that the path misses. -/
theorem createDirAll_present (hbase : t.canonicalize base = .ok loc)
    (h : ∀ dir n rest, ¬ t.FirstMissing (base ++ names.map .name) dir n rest) :
    t.createDirAll (base ++ names.map .name) = (t, [], t.isDir (base ++ names.map .name)) := by
  induction names using List.reverseRecOn with
  | nil =>
    rw [List.map_nil, List.append_nil]
    rcases List.eq_nil_or_concat base with rfl | ⟨init, c, rfl⟩
    · simp [createDirAll, createDirAllRev, isDir, canonicalize, t.root, Except.map, Except.toOption]
    · rw [List.concat_eq_append] at hbase ⊢
      rw [createDirAll_concat, mkdir_there hbase]
  | append_singleton names m ih =>
    have hpath : base ++ (names ++ [m]).map .name = base ++ names.map .name ++ [.name m] := by simp
    rw [hpath] at h ⊢
    have hnone := ih fun dir n rest hmiss => h dir n (rest ++ [m]) (hmiss.append [m])
    rw [createDirAll_concat]
    cases hc : t.canonicalize (base ++ names.map .name) with
    | ok dir =>
      by_cases hdir : t.node dir = some .dir
      · have hn : t.node (dir ++ [m]) ≠ none := fun hn => h dir m [] ⟨_, rfl, hc, hdir, hn⟩
        simp only [mkdir, entryAt_name, hc, hdir, hn, if_true, if_false]
      · simp only [mkdir, entryAt_name, hc, hdir, if_false]
    | error e =>
      rw [mkdir_error hc, hnone, isDir_error hc, isDir_error (canonicalize_append_error hc _)]
      cases e with
      | _ => rfl

end Make

/-! ### Files that are created or written -/

section Create
variable {t : FileTree} {links : Nat} {cur dir loc : Loc} {c : Comp} {n : String} {path xs ys rest : List Comp}

theorem create_nil : t.create links cur [] = if t.node cur = some .file then .ok cur else .error .isADirectory := by
  cases links <;> rfl

theorem create_notDir (hdir : t.node cur ≠ some .dir) : t.create links cur (c :: rest) = .error .notADirectory := by
  cases links with
  | zero | succ links => simp only [create, createFrom, hdir, ne_eq, not_false_eq_true, if_true]

theorem create_cons (hdir : t.node cur = some .dir) : t.create links cur (c :: rest) = match c with
    | .up => t.create links cur.dropLast rest
    | .name n => match t.node (cur ++ [n]) with
      | none => if rest = [] then .ok (cur ++ [n]) else .error .notFound
      | some (.link absolute target) => match links with
        | 0 => .error .tooManyLinks
        | links + 1 => t.create links (if absolute then [] else cur) (target ++ rest)
      | some _ => t.create links (cur ++ [n]) rest := by
  cases links with
  | zero | succ links => simp only [create, createFrom, hdir, ne_eq, not_true_eq_false, if_false]

theorem create_up (hdir : t.node cur = some .dir) : t.create links cur (.up :: rest) = t.create links cur.dropLast rest :=
  create_cons hdir

theorem create_none (hdir : t.node cur = some .dir) (hn : t.node (cur ++ [n]) = none) :
    t.create links cur (.name n :: rest) = if rest = [] then .ok (cur ++ [n]) else .error .notFound := by
  rw [create_cons hdir]
  simp only [hn]

theorem create_entry {x : Node} (hn : t.node (cur ++ [n]) = some x) (hx : ∀ absolute target, x ≠ .link absolute target) :
    t.create links cur (.name n :: rest) = t.create links (cur ++ [n]) rest := by
  rw [create_cons (t.parents _ _ _ hn)]
  simp only [hn]

theorem create_link {absolute : Bool} {target : List Comp} (hn : t.node (cur ++ [n]) = some (.link absolute target)) :
    t.create (links + 1) cur (.name n :: rest) = t.create links (if absolute then [] else cur) (target ++ rest) := by
  rw [create_cons (t.parents _ _ _ hn)]
  simp only [hn]

theorem create_link_zero {absolute : Bool} {target : List Comp} (hn : t.node (cur ++ [n]) = some (.link absolute target)) :
    t.create 0 cur (.name n :: rest) = .error .tooManyLinks := by
  rw [create_cons (t.parents _ _ _ hn)]
  simp only [hn]

/-- Nothing is created before the end of a path: the part before it is walked. -/
theorem create_append (hys : ys ≠ []) :
    t.create links cur (xs ++ ys) = (t.walk links cur xs).bind fun r => t.create r.1 r.2 ys := by
  refine walk_induct (P := fun links cur xs =>
    t.create links cur (xs ++ ys) = (t.walk links cur xs).bind fun r => t.create r.1 r.2 ys) ?_ ?_ links cur xs
  · intro links cur
    rw [walk_nil]
    rfl
  · intro links cur c rest ih ihLink
    rw [List.cons_append]
    by_cases hdir : t.node cur = some .dir
    · cases c with
      | up => rw [walk_up hdir, create_up hdir, ih]
      | name n => cases hn : t.node (cur ++ [n]) with
        | none =>
          rw [walk_none hdir hn, create_none hdir hn, if_neg (by simp [hys])]
          rfl
        | some x => cases x with
          | link absolute target => cases links with
            | zero => rw [walk_link_zero hn, create_link_zero hn]; rfl
            | succ links => rw [walk_link hn, create_link hn, ← List.append_assoc, ihLink links _ _ rfl]
          | dir | file => rw [walk_entry hn (by simp), create_entry hn (by simp), ih]
    · rw [walk_notDir hdir, create_notDir hdir]
      rfl

/-- A path that leads to a file opens that file. -/
theorem create_of_walk {r : Nat × Loc} (h : t.walk links cur xs = .ok r) :
    t.create links cur xs = if t.node r.2 = some .file then .ok r.2 else .error .isADirectory := by
  refine walk_ok_induct (P := fun links cur xs =>
    t.create links cur xs = if t.node r.2 = some .file then .ok r.2 else .error .isADirectory) create_nil ?_ ?_ ?_ h
  · intro links cur rest hdir ih
    rwa [create_up hdir]
  · intro links cur n x rest hn hx ih
    rwa [create_entry hn hx]
  · intro links cur n absolute target rest hn ih
    rwa [create_link hn]

theorem createAt_of_canonicalize (h : t.canonicalize path = .ok dir) (hcreate : t.createAt path = .ok loc) : loc = dir := by
  obtain ⟨links, h⟩ := canonicalize_ok.1 h
  rw [createAt, create_of_walk h] at hcreate
  split at hcreate
  · cases hcreate
    rfl
  · cases hcreate

/-- A file is opened in a directory that is there. -/
theorem createAt_name (hcreate : t.createAt (path ++ [.name n]) = .ok loc) :
    ∃ dir, t.canonicalize path = .ok dir ∧ t.node dir = some .dir := by
  rw [createAt, create_append (by simp)] at hcreate
  cases hw : t.walk t.maxLinks [] path with
  | error e =>
    rw [hw] at hcreate
    cases hcreate
  | ok r =>
    rw [hw] at hcreate
    refine ⟨r.2, canonicalize_ok.2 ⟨r.1, hw⟩, ?_⟩
    by_contra hdir
    rw [show (Except.ok r : Except IoError (Nat × Loc)).bind _ = t.create r.1 r.2 [.name n] from rfl, create_notDir hdir]
      at hcreate
    cases hcreate

/-- Opening an entry that is no link creates or writes that entry. -/
theorem createAt_entry (h : t.canonicalize path = .ok dir)
    (hlink : ∀ absolute target, t.node (dir ++ [n]) ≠ some (.link absolute target))
    (hcreate : t.createAt (path ++ [.name n]) = .ok loc) : loc = dir ++ [n] := by
  obtain ⟨links, h⟩ := canonicalize_ok.1 h
  rw [createAt, create_append (by simp), h] at hcreate
  replace hcreate : t.create links dir [.name n] = .ok loc := hcreate
  by_cases hdir : t.node dir = some .dir
  · cases hn : t.node (dir ++ [n]) with
    | none =>
      rw [create_none hdir hn] at hcreate
      cases hcreate
      rfl
    | some x =>
      rw [create_entry hn (fun absolute target hx => hlink absolute target (hx ▸ hn)), create_nil] at hcreate
      split at hcreate
      · cases hcreate
        rfl
      · cases hcreate
  · rw [create_notDir hdir] at hcreate
    cases hcreate

end Create

/-! ## What stays in a directory -/

/-- Whether a location is in the directory that a folder's path leads to. -/
def Inside (t : FileTree) (folder : List Comp) (loc : Loc) : Prop :=
  ∃ root, t.canonicalize folder = .ok root ∧ root <+: loc

/-- A path that goes on by names from one that leads somewhere. -/
def Rooted (t : FileTree) (path : List Comp) : Prop :=
  ∃ (folder : List Comp) (loc : Loc) (names : List String),
    path = folder ++ names.map .name ∧ t.canonicalize folder = .ok loc

/-- To open a path for writing is to follow the link it names, to `loc`. -/
def OpensThroughLink (t : FileTree) (path : List Comp) (loc : Loc) : Prop :=
  ∃ entry absolute target, t.entryLoc path = some entry ∧ t.node entry = some (.link absolute target) ∧
    t.createAt path = .ok loc

section Inside
variable {t t' : FileTree} {root dir loc : Loc} {n m : String} {path folder : List Comp} {names rest : List String}

theorem inside_iff (h : t.canonicalize folder = .ok root) : t.Inside folder loc ↔ root <+: loc := by
  constructor
  · rintro ⟨root', h', hpre⟩
    rwa [Except.ok.inj (h.symm.trans h')]
  · exact fun hpre => ⟨root, h, hpre⟩

theorem Plain.present (h : t.Plain loc) : t.node loc ≠ none := by
  rcases h with h | h
  all_goals simp [h]

theorem entryLoc_name : t.entryLoc (path ++ [.name n]) = (t.canonicalize path).toOption.map (· ++ [n]) := by
  simp [entryLoc]

theorem entryLoc_unnamed (h : fileName path = none) : t.entryLoc path = (t.canonicalize path).toOption := by
  unfold fileName at h
  unfold entryLoc
  split
  · rename_i n hlast
    simp [hlast] at h
  · rfl

theorem entryLoc_loc (h : t.Plain loc) : t.entryLoc (loc.map .name) = some loc := by
  rcases List.eq_nil_or_concat loc with rfl | ⟨init, n, rfl⟩
  · rw [List.map_nil, entryLoc, List.getLast?_nil, show t.canonicalize [] = .ok [] from canonicalize_loc h]
    rfl
  · rw [List.concat_eq_append] at h ⊢
    have hinit : t.Plain init := by
      rcases h with h | h
      all_goals exact .inl (t.parents _ _ _ h)
    rw [List.map_append, List.map_singleton, entryLoc_name, canonicalize_loc hinit]
    rfl

theorem Rooted.of_canonicalize (h : t.canonicalize path = .ok loc) : t.Rooted path :=
  ⟨path, loc, [], by simp, h⟩

theorem Rooted.parent {up : List Comp} (h : t.Rooted path) (hup : FileTree.parent path = some up) : t.Rooted up := by
  rcases List.eq_nil_or_concat path with rfl | ⟨init, c, rfl⟩
  · cases hup
  rw [List.concat_eq_append] at h hup
  rw [parent_concat] at hup
  cases hup
  obtain ⟨folder, loc, names, hpath, hfolder⟩ := h
  rcases List.eq_nil_or_concat names with rfl | ⟨names, m, rfl⟩
  · rw [List.map_nil, List.append_nil] at hpath
    rw [← hpath] at hfolder
    obtain ⟨dir, hdir⟩ := canonicalize_of_append hfolder
    exact .of_canonicalize hdir
  · rw [List.concat_eq_append, List.map_append, ← List.append_assoc] at hpath
    exact ⟨folder, loc, names, (List.append_inj' hpath rfl).1, hfolder⟩

/-- What is there is not below the entry that is missing. -/
theorem FirstMissing.above (h : t.FirstMissing path dir n rest) (hroot : t.node root ≠ none) (below : List String) :
    root <+: dir ++ n :: below ↔ root <+: dir := by
  obtain ⟨-, -, -, -, hn⟩ := h
  constructor
  · intro hpre
    rw [List.append_cons] at hpre
    rcases List.prefix_or_prefix_of_prefix hpre (List.prefix_append (dir ++ [n]) below) with hpre | ⟨names, rfl⟩
    · rcases List.prefix_concat_iff.1 hpre with rfl | hpre
      · exact absurd hn hroot
      · exact hpre
    · exact absurd (node_below hn names) hroot
  · exact fun hpre => hpre.trans (List.prefix_append ..)

/-- The first entry that a path misses is its last name, or one that the path before it misses. -/
theorem FirstMissing.concat_cases (h : t.FirstMissing (path ++ [.name n]) dir m rest) :
    (m = n ∧ rest = [] ∧ t.canonicalize path = .ok dir) ∨
      ∃ rest', rest = rest' ++ [n] ∧ t.FirstMissing path dir m rest' := by
  obtain ⟨done, hpath, hdone, h⟩ := h
  rcases List.eq_nil_or_concat rest with rfl | ⟨rest, k, rfl⟩
  · obtain ⟨rfl, hname⟩ := List.append_inj' hpath rfl
    cases hname
    exact .inl ⟨rfl, rfl, hdone⟩
  · rw [List.concat_eq_append, ← List.cons_append, List.map_append, ← List.append_assoc] at hpath
    obtain ⟨rfl, hname⟩ := List.append_inj' hpath rfl
    cases hname
    exact .inr ⟨rest, by simp, done, rfl, hdone, h⟩

/-- The entry of a path that leads somewhere is what it leads to, or a link. -/
theorem entryLoc_there (h : t.canonicalize path = .ok loc) : ∃ entry, t.entryLoc path = some entry ∧
    (entry = loc ∨ ∃ absolute target, t.node entry = some (.link absolute target)) := by
  rcases List.eq_nil_or_concat path with rfl | ⟨init, c, rfl⟩
  · exact ⟨loc, by simp [entryLoc, h, Except.toOption], .inl rfl⟩
  rw [List.concat_eq_append] at h ⊢
  cases c with
  | up => exact ⟨loc, by simp [entryLoc, h, Except.toOption], .inl rfl⟩
  | name n =>
    obtain ⟨dir, links, links', hinit, hdir, hlast⟩ := canonicalize_concat h
    refine ⟨dir ++ [n], by rw [entryLoc_name, canonicalize_ok.2 ⟨links, hinit⟩]; rfl, ?_⟩
    cases hn : t.node (dir ++ [n]) with
    | none =>
      rw [walk_none hdir hn] at hlast
      cases hlast
    | some x => cases x with
      | link absolute target => exact .inr ⟨absolute, target, rfl⟩
      | dir | file =>
        rw [walk_entry hn (by simp), walk_nil] at hlast
        cases hlast
        exact .inl rfl

/-- Either the entries from the first missing one on are made, or nothing is. -/
theorem createDirAll_cases (h : t.Rooted path) :
    (∃ dir n rest t' created, t.FirstMissing path dir n rest ∧ t.createDirAll path = (t', created, true) ∧
      t.Made path dir n rest t' created) ∨
    (∀ dir n rest, ¬ t.FirstMissing path dir n rest) ∧ t.createDirAll path = (t, [], t.isDir path) := by
  obtain ⟨folder, loc, names, rfl, hfolder⟩ := h
  by_cases hmiss : ∃ dir n rest, t.FirstMissing (folder ++ names.map .name) dir n rest
  · obtain ⟨dir, n, rest, hmiss⟩ := hmiss
    obtain ⟨t', created, hcreate, hmade⟩ := createDirAll_missing hmiss
    exact .inl ⟨dir, n, rest, t', created, hmiss, hcreate, hmade⟩
  · have hnone : ∀ dir n rest, ¬ t.FirstMissing (folder ++ names.map .name) dir n rest :=
      fun dir n rest h => hmiss ⟨dir, n, rest, h⟩
    exact .inr ⟨hnone, createDirAll_present hfolder hnone⟩

theorem not_firstMissing (h : t.canonicalize path = .ok loc) : ¬ t.FirstMissing path dir n rest := by
  intro hmiss
  rw [hmiss.canonicalize] at h
  cases h

theorem createDirAll_there (h : t.canonicalize path = .ok loc) (hdir : t.node loc = some .dir) :
    t.createDirAll path = (t, [], true) := by
  rcases createDirAll_cases (.of_canonicalize h) with ⟨dir, n, rest, -, -, hmiss, -⟩ | ⟨-, hcreate⟩
  · exact absurd hmiss (not_firstMissing h)
  · rw [hcreate, isDir_iff.2 ⟨loc, h, hdir⟩]

theorem parent_there {up : List Comp} (h : t.canonicalize path = .ok loc) (hup : FileTree.parent path = some up) :
    ∃ dir, t.canonicalize up = .ok dir := by
  rcases List.eq_nil_or_concat path with rfl | ⟨init, c, rfl⟩
  · cases hup
  · rw [List.concat_eq_append] at h hup
    cases parent_concat.symm.trans hup
    exact canonicalize_of_append h

/-- The directory of what is there is there. -/
theorem createParent_there (h : t.canonicalize path = .ok loc) : t.createParent path = (t, [], true) := by
  rcases List.eq_nil_or_concat path with rfl | ⟨init, c, rfl⟩
  · rfl
  · rw [List.concat_eq_append] at h ⊢
    obtain ⟨dir, links, -, hinit, hdir, -⟩ := canonicalize_concat h
    rw [createParent, parent_concat]
    exact createDirAll_there (canonicalize_ok.2 ⟨links, hinit⟩) hdir

/-- The directories that are made stay in `root` exactly when the first of them is made there. -/
theorem createDirAll_inside (hpath : t.Rooted path) (hroot : t.node root ≠ none) :
    (∀ loc ∈ (t.createDirAll path).2.1, root <+: loc) ↔ ∀ dir n rest, t.FirstMissing path dir n rest → root <+: dir := by
  constructor
  · intro h dir n rest hmiss
    obtain ⟨t', created, hcreate, hmade⟩ := createDirAll_missing hmiss
    rw [hcreate] at h
    exact (hmiss.above hroot []).1 (h _ hmade.first)
  · intro h loc hloc
    rcases createDirAll_cases hpath with ⟨dir, n, rest, t', created, hmiss, hcreate, hmade⟩ | ⟨-, hcreate⟩
    · rw [hcreate] at hloc
      exact ((hmiss.above hroot []).2 (h dir n rest hmiss)).trans (hmade.below loc hloc)
    · rw [hcreate] at hloc
      cases hloc

/-- Where the directory of a path is once it is made. -/
theorem createDirAll_leads (hpath : t.Rooted path) {created : List Loc} {made : Bool}
    (hcreate : t.createDirAll path = (t', created, made))
    (hmiss : ∀ dir n rest, t.FirstMissing path dir n rest → root <+: dir)
    (hthere : ∀ dir, t.canonicalize path = .ok dir → root <+: dir) (hdir : t'.canonicalize path = .ok dir) :
    root <+: dir := by
  rcases createDirAll_cases hpath with ⟨first, n, rest, t₁, created₁, hfirst, hcreate₁, hmade⟩ | ⟨-, hcreate₁⟩
  · obtain ⟨rfl, -⟩ := Prod.mk.inj (hcreate.symm.trans hcreate₁)
    rw [← Except.ok.inj (hmade.leads.symm.trans hdir)]
    exact (hmiss first n rest hfirst).trans (List.prefix_append ..)
  · obtain ⟨rfl, -⟩ := Prod.mk.inj (hcreate.symm.trans hcreate₁)
    exact hthere dir hdir

/-- The directories that are made and the file that is opened in them stay in `root` exactly when the first missing directory
and the file, where its directory is there already, do. -/
theorem open_inside (hpath : t.Rooted path) (hroot : t.node root ≠ none) :
    (∀ t' created made, t.createDirAll path = (t', created, made) → (∀ loc ∈ created, root <+: loc) ∧
      (made = true → ∀ loc, t'.createAt (path ++ [.name n]) = .ok loc → root <+: loc)) ↔
    (∀ dir m rest, t.FirstMissing path dir m rest → root <+: dir) ∧
      ∀ loc, t.createAt (path ++ [.name n]) = .ok loc → root <+: loc := by
  constructor
  · intro h
    refine ⟨(createDirAll_inside hpath hroot).1 (h _ _ _ rfl).1, fun loc hopen => ?_⟩
    obtain ⟨dir, hleads, hdir⟩ := createAt_name hopen
    exact (h _ _ _ (createDirAll_there hleads hdir)).2 rfl loc hopen
  · rintro ⟨hmiss, hopens⟩ t' created made hcreate
    have hcreated := (createDirAll_inside hpath hroot).2 hmiss
    rw [hcreate] at hcreated
    refine ⟨hcreated, fun _ loc hopen => ?_⟩
    rcases createDirAll_cases hpath with ⟨dir, m, rest, t₁, created₁, hfirst, hcreate₁, hmade⟩ | ⟨-, hcreate₁⟩
    · obtain ⟨rfl, -⟩ := Prod.mk.inj (hcreate.symm.trans hcreate₁)
      have hnew := hmade.empty n []
      rw [createAt_entry hmade.leads (by rw [hnew]; simp) hopen, List.append_assoc]
      exact (hmiss dir m rest hfirst).trans (List.prefix_append ..)
    · obtain ⟨rfl, -⟩ := Prod.mk.inj (hcreate.symm.trans hcreate₁)
      exact hopens loc hopen

/-- In a directory that stays in `root`, opening a file leaves it only through a link. -/
theorem createAt_inside (hthere : ∀ dir, t.canonicalize path = .ok dir → root <+: dir ++ [n]) :
    (∀ loc, t.createAt (path ++ [.name n]) = .ok loc → root <+: loc) ↔
      ∀ loc, t.OpensThroughLink (path ++ [.name n]) loc → root <+: loc := by
  constructor
  · rintro h loc ⟨-, -, -, -, -, hopen⟩
    exact h loc hopen
  · intro h loc hopen
    obtain ⟨dir, hleads, -⟩ := createAt_name hopen
    by_cases hlink : ∃ absolute target, t.node (dir ++ [n]) = some (.link absolute target)
    · obtain ⟨absolute, target, hlink⟩ := hlink
      refine h loc ⟨dir ++ [n], absolute, target, ?_, hlink, hopen⟩
      rw [entryLoc_name, hleads]
      rfl
    · rw [createAt_entry hleads (fun absolute target h => hlink ⟨absolute, target, h⟩) hopen]
      exact hthere dir hleads

end Inside

end FileTree

end HaexVault.Lib
