import HaexVault.Crdt.AllOrNothing
import HaexVault.Crdt.Batch
/-!
# Rows that break a `UNIQUE` constraint (`crdt/commands.rs`)

A remote row that breaks a `UNIQUE` constraint is meant to become a conflict entry while the batch
goes on. An `UPDATE` that collides ends the batch instead; an `INSERT` is passed over, but its entry
is lost, since its table does not exist (`conflicts_contained_iff`).
-/

namespace HaexVault.Crdt

open HaexVault.Lib HaexVault.Lib.Steps

/-- All changes of one row, under its table and `row_pks`. -/
abbrev RowGroup := (String × String) × List RemoteColumnChange

def broken : Except Violation Table → Option Violation
  | .ok _ => none
  | .error v => some v

/-! ## Conflicts -/

section
variable (env : Env)

/-- The constraint that the write of a row breaks, if it comes to a write, and whether the row
is there already. -/
def tableViolation (g : RowGroup) (t₀ : Table) : Option (Violation × Bool) :=
  let t := (upgraded t₀).1
  if !(upgraded t₀).2 then none
  else match env.fromStr g.1.2 with
  | none => none
  | some rowPks =>
    if t₀.pkNames = [] then none
    else match t.find (pkKey t₀ rowPks) with
    | none =>
      let acc := collectChanges t₀.columnNames ∅ g.2
      if acc.columnsToUpdate = [] then none
      else (broken (t.insert (insertPairs t rowPks acc))).map (·, false)
    | some r => match currentHlcs (some r) with
      | .error _ => none
      | .ok stored =>
        let acc := collectChanges t₀.columnNames stored g.2
        if acc.columnsToUpdate = [] then none
        else (broken (t.update (pkKey t₀ rowPks) (acc.changed ++ acc.metadata))).map (·, true)

def rowViolation (db : Database) (g : RowGroup) : Option (Violation × Bool) :=
  (db.tables g.1.1).bind (tableViolation env g)

/-- The rows that collide in a `UNIQUE` constraint on their turn, each left out for those after
it, and whether the row is there already. -/
def conflicting : Database → List RowGroup → List (RowGroup × Bool)
  | _, [] => []
  | db, g :: gs => match rowViolation env db g with
    | some (.unique _, isThere) => (g, isThere) :: conflicting db gs
    | _ => match applyRow env db g with
      | .ok db' => conflicting db' gs
      | .error _ => []

/-- With the rows that collide left out, no other constraint is broken and no row fails. The
constraints they break are not the primary key. -/
def OnlyUnique : Database → List RowGroup → Prop
  | _, [] => True
  | db, g :: gs => match rowViolation env db g with
    | some (v, _) => (∃ cols t, v = .unique cols ∧ db.tables g.1.1 = some t ∧ cols ≠ t.pkNames) ∧ OnlyUnique db gs
    | none => ∃ db', applyRow env db g = .ok db' ∧ OnlyUnique db' gs

end

/-! ## No entry is kept -/

section
variable {env : Env} {db db' : Database}

theorem applyRow_missing {g : RowGroup} (ht : db.tables g.1.1 = none) : applyRow env db g = .ok db := by
  unfold applyRow
  dsimp only
  rw [ht]

theorem writeRow_conflicts {name : String} {t : Table} {k : List SqlValue} {rowPks : RowPks} {isThere : Bool} {acc : RowAcc}
    {cs : List RemoteColumnChange} (h : writeRow db name t k rowPks isThere acc cs = .ok db') : db'.conflicts = db.conflicts := by
  unfold writeRow at h
  split at h
  · split at h
    · cases h
      rfl
    · cases h
  · split at h
    · cases h
      rfl
    · cases h
    · cases h
      rfl
    · cases h

theorem applyRow_conflicts {g : RowGroup} (h : applyRow env db g = .ok db') : db'.conflicts = db.conflicts := by
  rcases ht : db.tables g.1.1 with _ | t₀
  · rw [applyRow_missing ht] at h
    cases h
    rfl
  · rw [applyRow_eq ht] at h
    split at h
    · cases h
      rfl
    · split at h
      · cases h
      · obtain ⟨stored, -, h⟩ := bind_eq_ok.1 h
        dsimp only at h
        split at h
        · cases h
          rfl
        · rw [setTable_tables] at h
          dsimp only at h
          have hkept := writeRow_conflicts h
          exact hkept

theorem propagateDeletedRow_conflicts {id : String} (h : propagateDeletedRow env db id = .ok db') :
    db'.conflicts = db.conflicts := by
  rw [propagateDeletedRow_eq] at h
  obtain ⟨entry, -, h⟩ := bind_eq_ok.1 h
  rcases entry with _ | ⟨targetTable, rowPksJson, deleteHlc⟩
  · cases h
    rfl
  · cases h
    unfold propagateDelete
    split
    · rfl
    · split
      · dsimp only
        split
        · rfl
        · generalize shouldPropagateDelete deleteHlc _ = newer
          cases newer with
          | true => rfl
          | false => rfl
      · rfl

theorem setPushCursor_conflicts (db : Database) (info : Option (String × String)) :
    (setPushCursor db info).conflicts = db.conflicts := by
  unfold setPushCursor
  split
  · rfl
  · split
    · rfl
    · rfl

theorem apply_conflicts {hash : Hashing} {changes : List RemoteColumnChange} {info : Option (String × String)}
    (h : applyRemoteChangesToDb env hash db changes info = .ok db') : db'.conflicts = db.conflicts := by
  obtain ⟨db₁, db₂, h₁, h₂, rfl⟩ := apply_rows h
  have hrows : db₁.conflicts = db.conflicts :=
    foldlM_inv (I := fun d => d.conflicts = db.conflicts)
      (fun _ _ _ _ hkept hstep => (applyRow_conflicts hstep).trans hkept) h₁ rfl
  have hdeletes : db₂.conflicts = db.conflicts :=
    foldlM_inv (I := fun d => d.conflicts = db.conflicts)
      (fun _ _ _ _ hkept hstep => (propagateDeletedRow_conflicts hstep).trans hkept) h₂ hrows
  exact (setPushCursor_conflicts db₂ info).trans hdeletes

end

/-! ## Containment -/

section
variable (env : Env) (hash : Hashing) (db : Database) (changes : List RemoteColumnChange) (info : Option (String × String))

def batchConflicts : List (RowGroup × Bool) := conflicting env (setTriggersEnabled "0" db) (batchGroups hash changes)

def withoutConflicts : List RemoteColumnChange :=
  changes.filter fun c => (batchConflicts env hash db changes).all fun g => g.1.1 ≠ (c.tableName, c.rowPks)

/-- Nothing goes wrong with the batch but `UNIQUE` constraints: without the rows that collide it is applied. -/
structure OnlyUniqueViolations : Prop where
  rows : OnlyUnique env (setTriggersEnabled "0" db) (batchGroups hash changes)
  rest : ∃ db', applyRemoteChangesToDb env hash db (withoutConflicts env hash db changes) info = .ok db'

def rowAt (db : Database) (name : String) (k : List SqlValue) : Option Row := (db.tables name).bind (·.find k)

/-- What is claimed of a batch: it is applied, every row comes out as if the rows that collide were absent, so that the local
rows they collide with stay, and there is one more entry for each row that collides. -/
def ConflictsContained : Prop :=
  ∃ db', applyRemoteChangesToDb env hash db changes info = .ok db' ∧
    (∀ dbRest, applyRemoteChangesToDb env hash db (withoutConflicts env hash db changes) info = .ok dbRest →
      ∀ name k, rowAt db' name k = rowAt dbRest name k) ∧
    ∃ entries, db'.conflicts = db.conflicts ++ entries ∧
      List.Forall₂ (fun c e => e.tableName = c.1.1.1) (batchConflicts env hash db changes) entries

end

theorem onlyUnique_pair {env : Env} {db : Database} {g g' : RowGroup} {cols : List String} {isThere : Bool} {t : Table}
    (hcollides : rowViolation env db g = some (.unique cols, isThere)) (ht : db.tables g.1.1 = some t)
    (hpk : cols ≠ t.pkNames) (hfits : rowViolation env db g' = none) (happlies : (applyRow env db g').toOption.isSome = true) :
    OnlyUnique env db [g, g'] := by
  obtain ⟨db', happly⟩ := exists_ok happlies
  unfold OnlyUnique
  rw [hcollides]
  refine ⟨⟨cols, t, rfl, ht, hpk⟩, ?_⟩
  unfold OnlyUnique
  rw [hfits]
  exact ⟨db', happly, trivial⟩

theorem not_contained_of_error {env : Env} {hash : Hashing} {db : Database} {changes : List RemoteColumnChange}
    {info : Option (String × String)} (h : (applyRemoteChangesToDb env hash db changes info).toOption.isSome = false) :
    ¬ ConflictsContained env hash db changes info := by
  rintro ⟨db', happly, -⟩
  rw [happly] at h
  cases h

theorem not_contained_of_length {env : Env} {hash : Hashing} {db : Database} {changes : List RemoteColumnChange}
    {info : Option (String × String)} {n m : Nat}
    (h : (applyRemoteChangesToDb env hash db changes info).toOption.map (·.conflicts.length) = some n)
    (hconflicts : (batchConflicts env hash db changes).length = m) (hne : n ≠ db.conflicts.length + m) :
    ¬ ConflictsContained env hash db changes info := by
  rintro ⟨db', happly, -, entries, hentries, hall⟩
  rw [happly] at h
  have hlength : db'.conflicts.length = n := Option.some.inj h
  rw [hentries, List.length_append, ← hall.length_eq, hconflicts] at hlength
  exact hne hlength.symm

/-- A batch in which only `UNIQUE` constraints break comes out as claimed exactly if none does. -/
theorem conflicts_contained_iff (env : Env) (hash : Hashing) (db : Database) (changes : List RemoteColumnChange)
    (info : Option (String × String)) (h : OnlyUniqueViolations env hash db changes info) :
    ConflictsContained env hash db changes info ↔ batchConflicts env hash db changes = [] := by
  constructor
  · rintro ⟨db', happly, -, entries, hentries, hall⟩
    rw [apply_conflicts happly] at hentries
    obtain rfl : entries = [] := by simpa using hentries
    exact List.forall₂_nil_right_iff.1 hall
  · intro hnone
    have hall : withoutConflicts env hash db changes = changes := by
      unfold withoutConflicts
      rw [hnone]
      exact List.filter_eq_self.2 fun _ _ => rfl
    obtain ⟨db', happly⟩ := h.rest
    rw [hall] at happly
    refine ⟨db', happly, fun dbRest hrest name k => ?_, [], ?_, ?_⟩
    · rw [hall, happly] at hrest
      cases hrest
      rfl
    · rw [apply_conflicts happly, List.append_nil]
    · rw [hnone]
      exact .nil

def storedNote (id title : String) : Row := fun c =>
  if c = "id" then .text id else if c = "title" then .text title else if c = columnHlcsColumn then .hlcs ∅ else .null

def titledNotes (rows : List Row) : Database :=
  notesDb { emptyTable ["id"] ["title", "body"] with uniques := [["title"]], rows := rows }

def noteDChange (column hlc value : String) : RemoteColumnChange :=
  ⟨"notes", "\x7b\"id\":\"d\"\x7d", column, hlc, .string value⟩

def single (c : RemoteColumnChange) : RowGroup := ((c.tableName, c.rowPks), [c])

def bothNotes : Database := titledNotes [storedNote "a" "x", storedNote "d" "y"]

def otherNote : Database := titledNotes [storedNote "d" "y"]

/-- The note `a` gets a title that nobody has. -/
theorem conflicts_contained_new_title :
    OnlyUniqueViolations notesEnv inOrder bothNotes [noteChange "title" "64/b" "z"] none ∧
      (ConflictsContained notesEnv inOrder bothNotes [noteChange "title" "64/b" "z"] none ↔
        batchConflicts notesEnv inOrder bothNotes [noteChange "title" "64/b" "z"] = []) := by
  have hgroups : batchGroups inOrder [noteChange "title" "64/b" "z"] = [single (noteChange "title" "64/b" "z")] := by decide
  have hviolation : rowViolation notesEnv (setTriggersEnabled "0" bothNotes) (single (noteChange "title" "64/b" "z")) = none := rfl
  have happlies : (applyRow notesEnv (setTriggersEnabled "0" bothNotes)
      (single (noteChange "title" "64/b" "z"))).toOption.isSome = true := rfl
  have hrest : (applyRemoteChangesToDb notesEnv inOrder bothNotes
      (withoutConflicts notesEnv inOrder bothNotes [noteChange "title" "64/b" "z"]) none).toOption.isSome = true := rfl
  obtain ⟨db', happly⟩ := exists_ok happlies
  have hrows : OnlyUnique notesEnv (setTriggersEnabled "0" bothNotes) (batchGroups inOrder [noteChange "title" "64/b" "z"]) := by
    rw [hgroups]
    unfold OnlyUnique
    rw [hviolation]
    exact ⟨db', happly, trivial⟩
  have hall : OnlyUniqueViolations notesEnv inOrder bothNotes [noteChange "title" "64/b" "z"] none := ⟨hrows, exists_ok hrest⟩
  exact ⟨hall, conflicts_contained_iff notesEnv inOrder bothNotes [noteChange "title" "64/b" "z"] none hall⟩

def takenTitle : List RemoteColumnChange := [noteChange "title" "64/b" "y", noteDChange "body" "65/b" "z"]

theorem batchGroups_takenTitle : batchGroups inOrder takenTitle =
    [single (noteChange "title" "64/b" "y"), single (noteDChange "body" "65/b" "z")] := by decide

/-- With the note `a` there, the batch fails, with the text of `d` it carries. A new note `a` is passed over, and no entry is
left of it. -/
theorem conflicts_not_contained :
    (OnlyUniqueViolations notesEnv inOrder bothNotes takenTitle none ∧
      ¬ ConflictsContained notesEnv inOrder bothNotes takenTitle none) ∧
    OnlyUniqueViolations notesEnv inOrder otherNote takenTitle none ∧
      ¬ ConflictsContained notesEnv inOrder otherNote takenTitle none := by
  have hpresent : rowViolation notesEnv (setTriggersEnabled "0" bothNotes) (single (noteChange "title" "64/b" "y")) =
      some (.unique ["title"], true) := rfl
  have hnew : rowViolation notesEnv (setTriggersEnabled "0" otherNote) (single (noteChange "title" "64/b" "y")) =
      some (.unique ["title"], false) := rfl
  have hboth : OnlyUnique notesEnv (setTriggersEnabled "0" bothNotes) (batchGroups inOrder takenTitle) := by
    rw [batchGroups_takenTitle]
    exact onlyUnique_pair hpresent rfl (by decide) (rfl) (rfl)
  have hother : OnlyUnique notesEnv (setTriggersEnabled "0" otherNote) (batchGroups inOrder takenTitle) := by
    rw [batchGroups_takenTitle]
    exact onlyUnique_pair hnew rfl (by decide) (rfl) (rfl)
  have hrest : (applyRemoteChangesToDb notesEnv inOrder bothNotes
      (withoutConflicts notesEnv inOrder bothNotes takenTitle) none).toOption.isSome = true := rfl
  have hrest' : (applyRemoteChangesToDb notesEnv inOrder otherNote
      (withoutConflicts notesEnv inOrder otherNote takenTitle) none).toOption.isSome = true := rfl
  have hfails : (applyRemoteChangesToDb notesEnv inOrder bothNotes takenTitle none).toOption.isSome = false := rfl
  have hkept : (applyRemoteChangesToDb notesEnv inOrder otherNote takenTitle none).toOption.map (·.conflicts.length) =
      some 0 := rfl
  have hcollides : (batchConflicts notesEnv inOrder otherNote takenTitle).length = 1 := rfl
  have hone : 0 ≠ otherNote.conflicts.length + 1 := by decide
  exact ⟨⟨⟨hboth, exists_ok hrest⟩, not_contained_of_error hfails⟩,
    ⟨hother, exists_ok hrest'⟩, not_contained_of_length hkept hcollides hone⟩

end HaexVault.Crdt
