import Mathlib.Data.List.Infix
/-!
# A file tree with symbolic links

An entry is at a location, the names from the root to it. A path is walked from the root, and a link
on the way is replaced by its target, up to a number of links (`walk_node`, `walk_append`). Where
entries are only added, a walk that leads somewhere still leads there (`walk_mono`).
-/

namespace HaexVault.Lib

abbrev Loc := List String

/-- A component of a path. -/
inductive Comp where
  | name (n : String)
  /-- `..`. -/
  | up
  deriving DecidableEq

inductive Node where
  | dir
  | file
  | link (absolute : Bool) (target : List Comp)
  deriving DecidableEq

inductive IoError where
  | notFound
  | notADirectory
  | isADirectory
  | alreadyExists
  | tooManyLinks
  deriving DecidableEq

structure FileTree where
  node : Loc → Option Node
  /-- How many links one walk follows. -/
  maxLinks : Nat
  root : node [] = some .dir
  parents : ∀ loc n x, node (loc ++ [n]) = some x → node loc = some .dir

namespace FileTree

def empty (maxLinks : Nat) : FileTree where
  node loc := if loc = [] then some .dir else none
  maxLinks
  root := rfl
  parents := by simp

/-! ## Paths -/

def parent (path : List Comp) : Option (List Comp) := if path = [] then none else some path.dropLast

def fileName (path : List Comp) : Option String :=
  match path.getLast? with
  | some (.name n) => some n
  | _ => none

/-- A name in place of the last one, or after a last component that is none. -/
def withFileName (path : List Comp) (n : String) : List Comp :=
  (if (fileName path).isSome then path.dropLast else path) ++ [.name n]

section Paths
variable {path : List Comp} {c : Comp} {n m : String}

@[simp] theorem parent_concat : parent (path ++ [c]) = some path := by
  rw [parent, if_neg (by simp), List.dropLast_concat]

@[simp] theorem fileName_name : fileName (path ++ [.name n]) = some n := by
  simp [fileName]

theorem fileName_eq_some (h : fileName path = some n) : ∃ init, path = init ++ [.name n] := by
  rcases List.eq_nil_or_concat path with rfl | ⟨init, c, rfl⟩
  · cases h
  · rw [List.concat_eq_append] at h ⊢
    cases c with
    | up => simp [fileName] at h
    | name m =>
      rw [fileName_name] at h
      cases h
      exact ⟨init, rfl⟩

@[simp] theorem withFileName_name : withFileName (path ++ [.name n]) m = path ++ [.name m] := by
  simp [withFileName]

theorem withFileName_none (h : fileName path = none) : withFileName path n = path ++ [.name n] := by
  simp [withFileName, h]

end Paths

/-! ## Walks -/

/-- A walk from `cur` that follows no link itself, and how many it may still follow. -/
def walkFrom (t : FileTree) (follow : Loc → List Comp → Except IoError (Nat × Loc)) (links : Nat) :
    Loc → List Comp → Except IoError (Nat × Loc)
  | cur, [] => .ok (links, cur)
  | cur, c :: rest =>
    if t.node cur ≠ some .dir then .error .notADirectory
    else match c with
      | .up => walkFrom t follow links cur.dropLast rest
      | .name n => match t.node (cur ++ [n]) with
        | none => .error .notFound
        | some (.link absolute target) => follow (if absolute then [] else cur) (target ++ rest)
        | some _ => walkFrom t follow links (cur ++ [n]) rest

def walk (t : FileTree) : Nat → Loc → List Comp → Except IoError (Nat × Loc)
  | 0 => t.walkFrom (fun _ _ => .error .tooManyLinks) 0
  | links + 1 => t.walkFrom (t.walk links) (links + 1)

/-- Where a path leads. -/
def canonicalize (t : FileTree) (path : List Comp) : Except IoError Loc := (t.walk t.maxLinks [] path).map (·.2)

section Walk
variable {t : FileTree} {links : Nat} {cur loc : Loc} {c : Comp} {n : String} {ns : List String} {xs ys rest : List Comp}

@[simp] theorem walk_nil : t.walk links cur [] = .ok (links, cur) := by cases links <;> rfl

theorem walk_cons (hdir : t.node cur = some .dir) : t.walk links cur (c :: rest) = match c with
    | .up => t.walk links cur.dropLast rest
    | .name n => match t.node (cur ++ [n]) with
      | none => .error .notFound
      | some (.link absolute target) => match links with
        | 0 => .error .tooManyLinks
        | links + 1 => t.walk links (if absolute then [] else cur) (target ++ rest)
      | some _ => t.walk links (cur ++ [n]) rest := by
  cases links with
  | zero | succ links => simp only [walk, walkFrom, hdir, ne_eq, not_true_eq_false, if_false]

theorem walk_notDir (hdir : t.node cur ≠ some .dir) : t.walk links cur (c :: rest) = .error .notADirectory := by
  cases links with
  | zero | succ links => simp only [walk, walkFrom, hdir, ne_eq, not_false_eq_true, if_true]

theorem walk_up (hdir : t.node cur = some .dir) : t.walk links cur (.up :: rest) = t.walk links cur.dropLast rest :=
  walk_cons hdir

theorem walk_none (hdir : t.node cur = some .dir) (hn : t.node (cur ++ [n]) = none) :
    t.walk links cur (.name n :: rest) = .error .notFound := by
  rw [walk_cons hdir]
  simp only [hn]

/-- Through an entry that is there and no link. -/
theorem walk_entry {x : Node} (hn : t.node (cur ++ [n]) = some x) (hx : ∀ absolute target, x ≠ .link absolute target) :
    t.walk links cur (.name n :: rest) = t.walk links (cur ++ [n]) rest := by
  rw [walk_cons (t.parents _ _ _ hn)]
  simp only [hn]

theorem walk_link {absolute : Bool} {target : List Comp} (hn : t.node (cur ++ [n]) = some (.link absolute target)) :
    t.walk (links + 1) cur (.name n :: rest) = t.walk links (if absolute then [] else cur) (target ++ rest) := by
  rw [walk_cons (t.parents _ _ _ hn)]
  simp only [hn]

theorem walk_link_zero {absolute : Bool} {target : List Comp} (hn : t.node (cur ++ [n]) = some (.link absolute target)) :
    t.walk 0 cur (.name n :: rest) = .error .tooManyLinks := by
  rw [walk_cons (t.parents _ _ _ hn)]
  simp only [hn]

/-- Induction on a walk: on the links that are left, then on the path. -/
theorem walk_induct {P : Nat → Loc → List Comp → Prop} (nil : ∀ links cur, P links cur [])
    (cons : ∀ links cur c rest, (∀ cur', P links cur' rest) → (∀ links' cur' xs, links = links' + 1 → P links' cur' xs) →
      P links cur (c :: rest)) (links : Nat) (cur : Loc) (xs : List Comp) : P links cur xs := by
  induction links generalizing cur xs with
  | zero =>
    induction xs generalizing cur with
    | nil => exact nil 0 cur
    | cons c rest ih => exact cons 0 cur c rest ih (fun _ _ _ h => by cases h)
  | succ links ih =>
    induction xs generalizing cur with
    | nil => exact nil _ cur
    | cons c rest ih' =>
      refine cons _ cur c rest ih' fun links' cur' xs h => ?_
      cases h
      exact ih cur' xs

/-- A path that goes on is walked in two parts. -/
theorem walk_append : t.walk links cur (xs ++ ys) = (t.walk links cur xs).bind fun r => t.walk r.1 r.2 ys := by
  refine walk_induct (P := fun links cur xs =>
    t.walk links cur (xs ++ ys) = (t.walk links cur xs).bind fun r => t.walk r.1 r.2 ys) ?_ ?_ links cur xs
  · intro links cur
    rw [walk_nil]
    rfl
  · intro links cur c rest ih ihLink
    rw [List.cons_append]
    by_cases hdir : t.node cur = some .dir
    · cases c with
      | up => rw [walk_up hdir, walk_up hdir, ih]
      | name n => cases hn : t.node (cur ++ [n]) with
        | none => rw [walk_none hdir hn, walk_none hdir hn]; rfl
        | some x => cases x with
          | link absolute target => cases links with
            | zero => rw [walk_link_zero hn, walk_link_zero hn]; rfl
            | succ links => rw [walk_link hn, walk_link hn, ← List.append_assoc, ihLink links _ _ rfl]
          | dir | file => rw [walk_entry hn (by simp), walk_entry hn (by simp), ih]
    · rw [walk_notDir hdir, walk_notDir hdir]
      rfl

/-- Induction on a walk that leads somewhere: past `..`, past an entry that is no link, through a link. -/
theorem walk_ok_induct {r : Nat × Loc} {P : Nat → Loc → List Comp → Prop} (nil : P r.1 r.2 [])
    (up : ∀ links cur rest, t.node cur = some .dir → P links cur.dropLast rest → P links cur (.up :: rest))
    (entry : ∀ links cur n x rest, t.node (cur ++ [n]) = some x → (∀ absolute target, x ≠ .link absolute target) →
      P links (cur ++ [n]) rest → P links cur (.name n :: rest))
    (link : ∀ links cur n absolute target rest, t.node (cur ++ [n]) = some (.link absolute target) →
      P links (if absolute then [] else cur) (target ++ rest) → P (links + 1) cur (.name n :: rest))
    (h : t.walk links cur xs = .ok r) : P links cur xs := by
  revert h
  refine walk_induct (P := fun links cur xs => t.walk links cur xs = .ok r → P links cur xs) ?_ ?_ links cur xs
  · intro links cur h
    rw [walk_nil] at h
    cases h
    exact nil
  · intro links cur c rest ih ihLink h
    by_cases hdir : t.node cur = some .dir
    · cases c with
      | up =>
        rw [walk_up hdir] at h
        exact up links cur rest hdir (ih _ h)
      | name n => cases hn : t.node (cur ++ [n]) with
        | none =>
          rw [walk_none hdir hn] at h
          cases h
        | some x => cases x with
          | link absolute target => cases links with
            | zero =>
              rw [walk_link_zero hn] at h
              cases h
            | succ links =>
              rw [walk_link hn] at h
              exact link links cur n absolute target rest hn (ihLink links _ _ rfl h)
          | dir | file =>
            rw [walk_entry hn (by simp)] at h
            exact entry links cur n _ rest hn (by simp) (ih _ h)
    · rw [walk_notDir hdir] at h
      cases h

/-- What is above an entry is a directory. -/
theorem node_above {x : Node} (h : t.node (loc ++ ns) = some x) (hns : ns ≠ []) : t.node loc = some .dir := by
  induction ns using List.reverseRecOn generalizing x with
  | nil => exact absurd rfl hns
  | append_singleton ns n ih =>
    rw [← List.append_assoc] at h
    have hdir := t.parents _ _ _ h
    cases ns with
    | nil => simpa using hdir
    | cons m ms => exact ih hdir (by simp)

theorem node_dropLast (h : t.node cur = some .dir) : t.node cur.dropLast = some .dir := by
  rcases List.eq_nil_or_concat cur with rfl | ⟨init, n, rfl⟩
  · exact h
  · rw [List.concat_eq_append] at h ⊢
    rw [List.dropLast_concat]
    exact t.parents _ _ _ h

/-- Where a walk may stand: a directory, or a file at its end. -/
def Plain (t : FileTree) (loc : Loc) : Prop := t.node loc = some .dir ∨ t.node loc = some .file

/-- Where there is a link at or below a location, that is a directory. -/
theorem Plain.dir_of_link {entry : Loc} {absolute : Bool} {target : List Comp} (h : t.Plain dir) (hpre : dir <+: entry)
    (hlink : t.node entry = some (.link absolute target)) : t.node dir = some .dir := by
  obtain ⟨names, rfl⟩ := hpre
  cases names with
  | nil =>
    rw [List.append_nil] at hlink
    rcases h with h | h
    all_goals
      rw [h] at hlink
      cases hlink
  | cons n names => exact node_above hlink (by simp)

/-- A walk leads to a directory or a file. -/
theorem walk_node {r : Nat × Loc} (h : t.walk links cur xs = .ok r) (hcur : t.Plain cur) : t.Plain r.2 := by
  revert hcur
  refine walk_ok_induct (P := fun _ cur _ => t.Plain cur → t.Plain r.2) id ?_ ?_ ?_ h
  · intro links cur rest hdir ih _
    exact ih (.inl (node_dropLast hdir))
  · intro links cur n x rest hn hx ih _
    refine ih ?_
    cases x with
    | dir => exact .inl hn
    | file => exact .inr hn
    | link absolute target => exact absurd rfl (hx absolute target)
  · intro links cur n absolute target rest hn ih _
    refine ih (.inl ?_)
    cases absolute
    · exact t.parents _ _ _ hn
    · exact t.root

/-- From a location on, the names below it lead where they say. -/
theorem walk_names (h : t.Plain (cur ++ ns)) : t.walk links cur (ns.map .name) = .ok (links, cur ++ ns) := by
  induction ns generalizing cur with
  | nil => simp
  | cons n ns ih =>
    rw [List.append_cons] at h
    have hplain : t.Plain (cur ++ [n]) := by
      cases ns with
      | nil => simpa using h
      | cons m ms =>
        rcases h with h | h
        all_goals exact .inl (node_above h (by simp))
    rw [List.map_cons, List.append_cons]
    rcases hplain with hn | hn
    all_goals
      rw [walk_entry hn (by simp)]
      exact ih h

end Walk

/-! ## Where a path leads -/

section Canonicalize
variable {t : FileTree} {loc : Loc} {path xs ys : List Comp} {ns : List String}

theorem canonicalize_ok : t.canonicalize path = .ok loc ↔ ∃ links, t.walk t.maxLinks [] path = .ok (links, loc) := by
  unfold canonicalize
  cases t.walk t.maxLinks [] path with
  | error e => simp [Except.map]
  | ok r => simp [Except.map, Prod.ext_iff]

theorem canonicalize_node (h : t.canonicalize path = .ok loc) : t.Plain loc := by
  obtain ⟨links, h⟩ := canonicalize_ok.1 h
  exact walk_node h (.inl t.root)

/-- A location leads to itself. -/
theorem canonicalize_loc (h : t.Plain loc) : t.canonicalize (loc.map .name) = .ok loc :=
  canonicalize_ok.2 ⟨_, walk_names (show t.Plain ([] ++ loc) from h)⟩

/-- Names that are there below what a path leads to. -/
theorem canonicalize_names (h : t.canonicalize path = .ok loc) (hns : t.Plain (loc ++ ns)) :
    t.canonicalize (path ++ ns.map .name) = .ok (loc ++ ns) := by
  obtain ⟨links, h⟩ := canonicalize_ok.1 h
  refine canonicalize_ok.2 ⟨links, ?_⟩
  rw [walk_append, h]
  exact walk_names hns

theorem canonicalize_name {n : String} (h : t.canonicalize path = .ok loc) (hn : t.Plain (loc ++ [n])) :
    t.canonicalize (path ++ [.name n]) = .ok (loc ++ [n]) :=
  canonicalize_names h hn

end Canonicalize

/-! ## More entries -/

/-- The entries of a tree are in another one. -/
structure Extends (t' t : FileTree) : Prop where
  node : ∀ loc x, t.node loc = some x → t'.node loc = some x
  maxLinks : t'.maxLinks = t.maxLinks

section Extends
variable {t t' t'' : FileTree} {links : Nat} {cur loc : Loc} {xs path : List Comp}

theorem Extends.refl (t : FileTree) : t.Extends t := ⟨fun _ _ h => h, rfl⟩

theorem Extends.trans (h : t''.Extends t') (h' : t'.Extends t) : t''.Extends t :=
  ⟨fun loc x hx => h.node loc x (h'.node loc x hx), h.maxLinks.trans h'.maxLinks⟩

theorem walk_mono {r : Nat × Loc} (hext : t'.Extends t) (h : t.walk links cur xs = .ok r) :
    t'.walk links cur xs = .ok r := by
  refine walk_ok_induct (P := fun links cur xs => t'.walk links cur xs = .ok r) walk_nil ?_ ?_ ?_ h
  · intro links cur rest hdir ih
    rwa [walk_up (hext.node _ _ hdir)]
  · intro links cur n x rest hn hx ih
    rwa [walk_entry (hext.node _ _ hn) hx]
  · intro links cur n absolute target rest hn ih
    rwa [walk_link (hext.node _ _ hn)]

theorem Extends.canonicalize (hext : t'.Extends t) (h : t.canonicalize path = .ok loc) :
    t'.canonicalize path = .ok loc := by
  obtain ⟨links, h⟩ := canonicalize_ok.1 h
  exact canonicalize_ok.2 ⟨links, hext.maxLinks ▸ walk_mono hext h⟩

end Extends

end FileTree

end HaexVault.Lib
