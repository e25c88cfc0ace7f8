import HaexVault.Extension.Constraints
/-!
# Permissions of a manifest (`extension/core/manifest.rs`)

The constraints of an entry are any JSON, read as the first alternative of the union that fits, and
what cannot be read is dropped. So a restriction survives only where it is read as the struct of the
entry's own resource type (`manifest_not_widened_iff`).
-/

namespace HaexVault.Extension.PermissionManager

/-- `str::to_uppercase`, for what it makes into the letters of the methods. -/
def uppercaseMethod (s : String) : List Char :=
  s.toList.flatMap fun c => if c = 'ſ' then ['S'] else if c = 'ﬅ' ∨ c = 'ﬆ' then ['S', 'T'] else [c.toUpper]

def WebAction.fromStr (s : String) : Option WebAction :=
  [.get, .post, .put, .patch, .delete, .all].find? fun a => a.asStr.toList = uppercaseMethod s

namespace Types

open HaexVault.Space (Json)

structure PermissionEntry where
  target : String
  operation : Option String
  constraints : Option Json
  status : Option PermissionStatus

/-- `ExtensionPermissions`. -/
structure ManifestPermissions where
  database : Option (List PermissionEntry)
  filesystem : Option (List PermissionEntry)
  http : Option (List PermissionEntry)
  shell : Option (List PermissionEntry)
  filesync : Option (List PermissionEntry)
  spaces : Option (List PermissionEntry)
  identities : Option (List PermissionEntry)
  passwords : Option (List PermissionEntry)
  mail : Option (List PermissionEntry)

/-- How `create_internal` reads an operation: a web request without one is a request of any method. -/
def entryAction (resourceType : ResourceType) (operation : String) : Option Action :=
  match resourceType with
  | .web => if operation = "" then some (.web .all) else (WebAction.fromStr operation).map .web
  | resourceType => Action.fromStr resourceType operation

def createInternal (extensionId : String) (resourceType : ResourceType) (p : PermissionEntry) (uuid : String) :
    Option ExtensionPermission :=
  (entryAction resourceType (p.operation.getD "")).map fun action =>
    { id := uuid
      extensionId
      resourceType
      action
      target := p.target
      constraints := p.constraints.bind PermissionConstraints.ofJson
      status := p.status.getD .ask }

/-- The entries with the resource type of their list, in the order of `to_internal_permissions`. -/
def ManifestPermissions.entries (e : ManifestPermissions) : List (ResourceType × PermissionEntry) :=
  [(ResourceType.db, e.database), (.fs, e.filesystem), (.web, e.http), (.shell, e.shell), (.filesync, e.filesync),
    (.spaces, e.spaces), (.identities, e.identities), (.passwords, e.passwords), (.mail, e.mail)].flatMap
      fun (resourceType, entries) => (entries.getD []).map fun p => (resourceType, p)

def ManifestPermissions.produced (e : ManifestPermissions) (extensionId : String) (uuid : Nat → String) :
    List ((ResourceType × PermissionEntry) × Option ExtensionPermission) :=
  e.entries.zipIdx.map fun q => (q.1, createInternal extensionId q.1.1 q.1.2 (uuid q.2))

def ManifestPermissions.toInternalPermissions (e : ManifestPermissions) (extensionId : String) (uuid : Nat → String) :
    List ExtensionPermission :=
  (e.produced extensionId uuid).filterMap (·.2)

/-! ## Restrictions -/

def ownConstraints (resourceType : ResourceType) (j : Json) : Option PermissionConstraints :=
  match resourceType with
  | .db => (DbConstraints.ofJson j).map .database
  | .fs => (FsConstraints.ofJson j).map .filesystem
  | .web => (WebConstraints.ofJson j).map .web
  | .shell => (ShellConstraints.ofJson j).map .shell
  | _ => none

def earlierConstraints (resourceType : ResourceType) (j : Json) : Option PermissionConstraints :=
  match resourceType with
  | .fs => (DbConstraints.ofJson j).map .database
  | .web => (DbConstraints.ofJson j).map .database <|> (FsConstraints.ofJson j).map .filesystem
  | .shell => (DbConstraints.ofJson j).map .database <|> (FsConstraints.ofJson j).map .filesystem <|>
      (WebConstraints.ofJson j).map .web
  | _ => none

def Keeps {α : Type} (v w : Option α) : Prop := ∀ a, v = some a → w = some a

/-- Every field with a value has it in the other constraints too, which are of the same kind. -/
def PermissionConstraints.CarriedBy : PermissionConstraints → PermissionConstraints → Prop
  | .database c, .database d => Keeps c.whereClause d.whereClause ∧ Keeps c.columns d.columns ∧ Keeps c.limit d.limit
  | .filesystem c, .filesystem d => Keeps c.maxFileSize d.maxFileSize ∧ Keeps c.allowedExtensions d.allowedExtensions ∧
      Keeps c.recursive d.recursive
  | .web c, .web d => Keeps c.methods d.methods ∧ Keeps c.rateLimit d.rateLimit
  | .shell c, .shell d => Keeps c.allowedSubcommands d.allowedSubcommands ∧ Keeps c.allowedFlags d.allowedFlags ∧
      Keeps c.forbiddenArgs d.forbiddenArgs
  | _, _ => False

def PermissionConstraints.isEmpty (c : PermissionConstraints) : Bool :=
  c = .database {} || c = .filesystem {} || c = .web {} || c = .shell {}

/-- The permission has the target and the action of the entry and the values of its constraints, and is not granted if
those cannot be read. -/
structure NotWidened (resourceType : ResourceType) (p : PermissionEntry) (perm : ExtensionPermission) : Prop where
  target : perm.target = p.target
  action : entryAction resourceType (p.operation.getD "") = some perm.action
  constraints : ∀ j, p.constraints = some j → match ownConstraints resourceType j with
    | some c => c.isEmpty = true ∨ ∃ d, perm.constraints = some d ∧ c.CarriedBy d
    | none => perm.status ≠ .granted

/-- The constraints of the entry are read as what they are, or there is nothing to lose. -/
def Survives (resourceType : ResourceType) (p : PermissionEntry) : Prop :=
  entryAction resourceType (p.operation.getD "") = none ∨
    ∀ j, p.constraints = some j → match ownConstraints resourceType j with
      | some c => c.isEmpty = true ∨ earlierConstraints resourceType j = none
      | none => p.status ≠ some .granted

def PermissionConstraints.resourceType : PermissionConstraints → ResourceType
  | .database _ => .db
  | .filesystem _ => .fs
  | .web _ => .web
  | .shell _ => .shell

variable {resourceType : ResourceType} {p : PermissionEntry} {c d : PermissionConstraints} {j : Json} {extensionId uuid : String}

theorem Keeps.refl {α : Type} (v : Option α) : Keeps v v := fun _ h => h

theorem carriedBy_self (c : PermissionConstraints) : c.CarriedBy c := by
  cases c <;> simp [PermissionConstraints.CarriedBy, Keeps.refl]

theorem PermissionConstraints.CarriedBy.resourceType_eq (h : c.CarriedBy d) : d.resourceType = c.resourceType := by
  cases c <;> cases d <;> first | rfl | exact h.elim

theorem ownConstraints_resourceType (h : ownConstraints resourceType j = some c) : c.resourceType = resourceType := by
  cases resourceType <;> simp only [ownConstraints, Option.map_eq_some_iff, reduceCtorEq] at h <;>
    obtain ⟨_, -, rfl⟩ := h <;> rfl

theorem earlierConstraints_resourceType (h : earlierConstraints resourceType j = some d) : d.resourceType ≠ resourceType := by
  cases resourceType <;> simp only [earlierConstraints, Option.map_eq_some_iff, Option.orElse_eq_orElse, Option.orElse_eq_or,
    Option.or_eq_some_iff, reduceCtorEq] at h
  case fs =>
    obtain ⟨_, -, rfl⟩ := h
    exact ResourceType.noConfusion
  case web => rcases h with ⟨_, -, rfl⟩ | ⟨-, _, -, rfl⟩ <;> exact ResourceType.noConfusion
  case shell => rcases h with ⟨_, -, rfl⟩ | ⟨-, ⟨_, -, rfl⟩ | ⟨-, _, -, rfl⟩⟩ <;> exact ResourceType.noConfusion

theorem ofJson_of_own (hown : ownConstraints resourceType j = some c) :
    PermissionConstraints.ofJson j = (earlierConstraints resourceType j <|> some c) := by
  cases resourceType with
  | db =>
    obtain ⟨a, ha, rfl⟩ := Option.map_eq_some_iff.1 hown
    rw [PermissionConstraints.ofJson, ha]
    rfl
  | fs =>
    obtain ⟨a, ha, rfl⟩ := Option.map_eq_some_iff.1 hown
    rw [PermissionConstraints.ofJson, earlierConstraints, ha]
    cases DbConstraints.ofJson j <;> rfl
  | web =>
    obtain ⟨a, ha, rfl⟩ := Option.map_eq_some_iff.1 hown
    rw [PermissionConstraints.ofJson, earlierConstraints, ha]
    cases DbConstraints.ofJson j <;> cases FsConstraints.ofJson j <;> rfl
  | shell =>
    obtain ⟨a, ha, rfl⟩ := Option.map_eq_some_iff.1 hown
    rw [PermissionConstraints.ofJson, earlierConstraints, ha]
    cases DbConstraints.ofJson j <;> cases FsConstraints.ofJson j <;> cases WebConstraints.ofJson j <;> rfl
  | _ => cases hown

theorem createInternal_some {perm : ExtensionPermission} (h : createInternal extensionId resourceType p uuid = some perm) :
    perm.target = p.target ∧ entryAction resourceType (p.operation.getD "") = some perm.action ∧
      perm.constraints = p.constraints.bind PermissionConstraints.ofJson ∧ perm.status = p.status.getD .ask := by
  obtain ⟨action, haction, rfl⟩ := Option.map_eq_some_iff.1 h
  exact ⟨rfl, haction, rfl, rfl⟩

theorem createInternal_notWidened_iff : (∀ perm, createInternal extensionId resourceType p uuid = some perm →
    NotWidened resourceType p perm) ↔ Survives resourceType p := by
  cases haction : entryAction resourceType (p.operation.getD "") with
  | none => simp [createInternal, Survives, haction]
  | some action =>
    have hcreated : ∃ perm, createInternal extensionId resourceType p uuid = some perm := ⟨_, by rw [createInternal, haction]; rfl⟩
    obtain ⟨perm, hperm⟩ := hcreated
    obtain ⟨htarget, haction', hconstraints, hstatus⟩ := createInternal_some hperm
    have hread : ∀ j c, p.constraints = some j → ownConstraints resourceType j = some c →
        (perm.constraints = (earlierConstraints resourceType j <|> some c)) := fun j c hj hown => by
      rw [hconstraints, hj, Option.bind_some, ofJson_of_own hown]
    have hgranted : perm.status ≠ .granted ↔ p.status ≠ some .granted := by
      rw [hstatus]
      cases p.status <;> simp
    unfold Survives
    rw [or_iff_right (by rw [haction]; exact Option.some_ne_none action)]
    simp only [hperm, Option.some.injEq, forall_eq']
    constructor
    · intro h j hj
      have hkept := h.constraints j hj
      split at hkept
      · next c hown =>
        refine hkept.imp_right fun hcarried => ?_
        obtain ⟨d, hd, hcarried⟩ := hcarried
        rw [hread j c hj hown] at hd
        cases he : earlierConstraints resourceType j with
        | none => rfl
        | some d' =>
          rw [he] at hd
          obtain rfl : d' = d := Option.some.inj hd
          have hkind := hcarried.resourceType_eq.trans (ownConstraints_resourceType hown)
          exact absurd hkind (earlierConstraints_resourceType he)
      · exact hgranted.1 hkept
    · intro h
      refine ⟨htarget, haction', fun j hj => ?_⟩
      have hkept := h j hj
      split at hkept
      · next c hown =>
        refine hkept.imp_right fun hnone => ⟨c, ?_, carriedBy_self c⟩
        rw [hread j c hj hown, hnone]
        rfl
      · exact hgranted.2 hkept

/-- Importing a manifest widens no permission just when the constraints of every entry survive. -/
theorem manifest_not_widened_iff (e : ManifestPermissions) (extensionId : String) (uuid : Nat → String) :
    (∀ q ∈ e.produced extensionId uuid, ∀ perm, q.2 = some perm → NotWidened q.1.1 q.1.2 perm) ↔
      ∀ q ∈ e.entries, Survives q.1 q.2 := by
  have hproduced : ∀ q, q ∈ e.produced extensionId uuid ↔
      ∃ i, (q.1, i) ∈ e.entries.zipIdx ∧ q.2 = createInternal extensionId q.1.1 q.1.2 (uuid i) := fun q => by
    obtain ⟨entry, perm⟩ := q
    simp only [ManifestPermissions.produced, List.mem_map, Prod.mk.injEq, Prod.exists]
    constructor
    · rintro ⟨a, b, i, hmem, rfl, rfl⟩
      exact ⟨i, hmem, rfl⟩
    · rintro ⟨i, hmem, rfl⟩
      exact ⟨_, _, i, hmem, rfl, rfl⟩
  constructor
  · intro h q hq
    obtain ⟨i, hi, rfl⟩ := List.mem_iff_getElem.1 hq
    have hentry : ∀ perm, createInternal extensionId e.entries[i].1 e.entries[i].2 (uuid i) = some perm →
        NotWidened e.entries[i].1 e.entries[i].2 perm := fun perm hperm => by
      refine h (_, some perm) ((hproduced _).2 ⟨i, ?_, hperm.symm⟩) perm rfl
      rw [List.mk_mem_zipIdx_iff_getElem?]
      exact List.getElem?_eq_getElem hi
    exact createInternal_notWidened_iff.1 hentry
  · intro h q hq perm hperm
    obtain ⟨i, hmem, hq2⟩ := (hproduced q).1 hq
    refine createInternal_notWidened_iff.2 (h q.1 ?_) perm (hq2.symm.trans hperm)
    exact List.mem_of_getElem? ((List.mk_mem_zipIdx_iff_getElem?).1 hmem)

/-- A manifest that restricts reading to text files, and reading a table to a number of rows, which it spells as a text. -/
def notesManifest : ManifestPermissions where
  database := some [⟨"t", some "read", some (.object [("limit", .string "five")]), some .granted⟩]
  filesystem := some [⟨"/a/*", some "read", some (.object [("allowed_extensions", .array [.string ".txt"])]), some .granted⟩]
  http := none
  shell := none
  filesync := none
  spaces := none
  identities := none
  passwords := none
  mail := none

/-- Both restrictions are gone, and both permissions are granted. -/
theorem manifest_restrictions_lost :
    notesManifest.toInternalPermissions "x" (fun _ => "p") =
      [⟨"p", "x", .db, .database .read, "t", some (.filesystem {}), .granted⟩,
        ⟨"p", "x", .fs, .filesystem .read, "/a/*", some (.database {}), .granted⟩] ∧
    ¬ ∀ q ∈ notesManifest.produced "x" (fun _ => "p"), ∀ perm, q.2 = some perm → NotWidened q.1.1 q.1.2 perm := by
  refine ⟨by decide +kernel, fun h => ?_⟩
  have hmem : (((ResourceType.db, ⟨"t", some "read", some (.object [("limit", .string "five")]), some .granted⟩), some
      ⟨"p", "x", .db, .database .read, "t", some (.filesystem {}), .granted⟩) :
        (ResourceType × PermissionEntry) × Option ExtensionPermission) ∈ notesManifest.produced "x" (fun _ => "p") :=
    List.mem_cons_self ..
  exact (h _ hmem _ rfl).constraints (.object [("limit", .string "five")]) rfl rfl

end Types

end HaexVault.Extension.PermissionManager
