import Mathlib.Data.List.Nodup
import Mathlib.Data.List.Dedup
import HaexVault.ExternalBridge.ItemHistory
import HaexVault.Lib.Calls
/-!
# Binaries (`utils/passwords/binaries.ts`)

A blob is stored once, under its hash; attachments, snapshots and icons name it. A blob and the
reference to it are written in two statements, and `pruneOrphanedBinariesAsync` reads the references
in two queries before it deletes. `referenced_kept_iff` says in which runs all named blobs stay.
-/

namespace HaexVault.Passwords.Binaries

open Lib Lib.Runs ExternalBridge.ItemHistory

/-! ## The tables -/

inductive BinaryType where
  | icon
  | attachment
  deriving DecidableEq

/-- A row of `haex_passwords_binaries`. -/
structure Binary where
  hash : String
  data : String
  size : Nat
  type : BinaryType
  deriving DecidableEq

/-- A row of `haex_passwords_snapshot_binaries`. -/
structure SnapshotBinary where
  id : String
  snapshotId : String
  binaryHash : String
  fileName : String
  deriving DecidableEq

/-- The tables with blobs and their references. Attachments have foreign keys to the blobs; icons are texts. -/
structure Tables where
  binaries : List Binary
  items : List Item
  itemBinaries : List ItemBinary
  snapshots : List ItemSnapshot
  snapshotBinaries : List SnapshotBinary
  hashes_nodup : (binaries.map (·.hash)).Nodup
  itemBinaries_stored : ∀ r ∈ itemBinaries, r.binaryHash ∈ binaries.map (·.hash)
  snapshotBinaries_stored : ∀ r ∈ snapshotBinaries, r.binaryHash ∈ binaries.map (·.hash)

namespace Tables
variable (t : Tables)

def hashes : List String := t.binaries.map (·.hash)

def insertBinary (b : Binary) : Except String Tables :=
  if h : b.hash ∈ t.hashes then .error "UNIQUE constraint failed: haex_passwords_binaries.hash"
  else .ok { t with
    binaries := t.binaries ++ [b]
    hashes_nodup := by
      rw [List.map_append]
      refine List.nodup_append.2 ⟨t.hashes_nodup, List.nodup_singleton _, fun a ha c hc hac => h ?_⟩
      obtain rfl := List.mem_singleton.1 hc
      rwa [hac] at ha
    itemBinaries_stored := fun r hr => by
      rw [List.map_append]
      exact List.mem_append_left _ (t.itemBinaries_stored r hr)
    snapshotBinaries_stored := fun r hr => by
      rw [List.map_append]
      exact List.mem_append_left _ (t.snapshotBinaries_stored r hr) }

def insertItemBinary (r : ItemBinary) : Except String Tables :=
  if h : r.binaryHash ∈ t.hashes ∧ r.itemId ∈ t.items.map (·.id) then
    if r.id ∈ t.itemBinaries.map (·.id) then .error "UNIQUE constraint failed: haex_passwords_item_binaries.id"
    else .ok { t with
      itemBinaries := t.itemBinaries ++ [r]
      itemBinaries_stored := List.forall_mem_append.2 ⟨t.itemBinaries_stored, List.forall_mem_singleton.2 h.1⟩ }
  else .error "FOREIGN KEY constraint failed"

def insertSnapshotBinary (r : SnapshotBinary) : Except String Tables :=
  if h : r.binaryHash ∈ t.hashes ∧ r.snapshotId ∈ t.snapshots.map (·.id) then
    if r.id ∈ t.snapshotBinaries.map (·.id) then .error "UNIQUE constraint failed: haex_passwords_snapshot_binaries.id"
    else .ok { t with
      snapshotBinaries := t.snapshotBinaries ++ [r]
      snapshotBinaries_stored := List.forall_mem_append.2 ⟨t.snapshotBinaries_stored, List.forall_mem_singleton.2 h.1⟩ }
  else .error "FOREIGN KEY constraint failed"

def insertItem (item : Item) : Except String Tables :=
  if item.id ∈ t.items.map (·.id) then .error "UNIQUE constraint failed: haex_passwords_item_details.id"
  else .ok { t with items := t.items ++ [item] }

def updateItem (id : String) (f : ItemFields → ItemFields) : Tables :=
  { t with items := t.items.map fun i => if i.id = id then { i with fields := f i.fields } else i }

/-- Deletes blobs, and by the foreign keys every attachment that names one of them. -/
def deleteBinaries (doomed : String → Bool) : Tables where
  binaries := t.binaries.filter fun b => !doomed b.hash
  items := t.items
  itemBinaries := t.itemBinaries.filter fun r => !doomed r.binaryHash
  snapshots := t.snapshots
  snapshotBinaries := t.snapshotBinaries.filter fun r => !doomed r.binaryHash
  hashes_nodup := (List.filter_sublist.map _).nodup t.hashes_nodup
  itemBinaries_stored r hr := by
    obtain ⟨hr, hspared⟩ := List.mem_filter.1 hr
    obtain ⟨b, hb, hhash⟩ := List.mem_map.1 (t.itemBinaries_stored r hr)
    exact List.mem_map.2 ⟨b, List.mem_filter.2 ⟨hb, by rwa [hhash]⟩, hhash⟩
  snapshotBinaries_stored r hr := by
    obtain ⟨hr, hspared⟩ := List.mem_filter.1 hr
    obtain ⟨b, hb, hhash⟩ := List.mem_map.1 (t.snapshotBinaries_stored r hr)
    exact List.mem_map.2 ⟨b, List.mem_filter.2 ⟨hb, by rwa [hhash]⟩, hhash⟩

/-- The last statement of `pruneOrphanedBinariesAsync`. -/
def prune (referenced : List String) : Tables :=
  if referenced = [] then t.deleteBinaries fun _ => true
  else t.deleteBinaries fun hash => !referenced.contains hash

end Tables

/-! ## The calls -/

structure Externals where
  /-- `atob(…)`; none if it throws. -/
  atob : String → Option (List UInt8)
  /-- `crypto.subtle.digest('SHA-256', …)`. -/
  sha256 : List UInt8 → Vector UInt8 32
  /-- `new URL(…).hostname`; none if the constructor throws. -/
  hostname : String → Option String

variable (x : Externals)

def hex (bytes : List UInt8) : String :=
  String.ofList (bytes.flatMap fun b => [Nat.digitChar (b.toNat / 16), Nat.digitChar (b.toNat % 16)])

def Externals.iconless : ExternalBridge.ItemHistory.Externals := ⟨x.hostname, fun _ => none⟩

inductive Link where
  | item (id itemId fileName : String)
  | snapshot (id snapshotId fileName : String)
  deriving DecidableEq

inductive ItemRequest where
  | create (p : CreateItemPayload) (itemId now : String)
  | update (p : UpdateItemPayload) (id : String)

/-- What is to be written when `addBinaryAsync` has returned. -/
inductive Reference where
  | link (l : Link)
  | item (r : ItemRequest)

inductive Start where
  | attach (data : String) (size : Nat) (l : Link)
  | handleCreateItem (p : CreateItemPayload) (itemId now : String)
  | handleUpdateItem (p : UpdateItemPayload)
  | pruneOrphanedBinaries

/-- A call, and what it waits for. -/
inductive Call where
  | hashing (b : Binary) (ref : Reference)
  | selecting (b : Binary) (ref : Reference)
  | inserting (b : Binary) (ref : Reference)
  | linking (hash : String) (l : Link)
  /-- For the select of the item to update. -/
  | lookingUp (p : UpdateItemPayload) (id : String)
  /-- For the statement that writes the item; its icon column, where that is set. -/
  | saving (icon : Option (Option String)) (r : ItemRequest)
  /-- For the two selects, with what they have given so far. -/
  | reading (itemRefs snapshotRefs : Option (List String))
  | deleting (referenced : List String)
  | done (result : Except String Unit)

inductive Wait where
  | ended
  | secondEnded
  | failed (error : String)

structure Vault where
  tables : Tables
  stored : List String

def Vault.ofTables (t : Tables) : Vault := ⟨t, t.hashes⟩

/-- `addBinaryAsync` has returned the hash. -/
def Reference.returned (hash : String) : Reference → Call
  | .link l => .linking hash l
  | .item r => .saving (some (some ("binary:" ++ hash))) r

/-- `addBinaryAsync` has thrown; the handlers of requests go on without an icon. -/
def Reference.threw (error : String) : Reference → Call
  | .link _ => .done (.error error)
  | .item r => .saving none r

/-- `addBinaryAsync` up to its first wait. -/
def addBinary (data : String) (size : Nat) (type : BinaryType) (ref : Reference) : Call :=
  match x.atob data with
  | none => ref.threw "InvalidCharacterError"
  | some bytes => .hashing ⟨hex (x.sha256 bytes).toList, data, size, type⟩ ref

def addIcon (iconBase64 : ExternalBridge.ItemHistory.Field String) (r : ItemRequest) : Call :=
  match iconBase64.textOrNull with
  | none => .saving (iconColumn x.iconless iconBase64) r
  | some icon => match x.atob icon with
    | none => .saving none r
    | some bytes => addBinary x icon bytes.length .icon (.item r)

def start : Start → Call
  | .attach data size l => addBinary x data size .attachment (.link l)
  | .handleCreateItem p itemId now => match entryTitle x.iconless p with
    | none => .done (.error "Missing required field: url or title")
    | some _ => addIcon x p.iconBase64 (.create p itemId now)
  | .handleUpdateItem p => match p.id.textOrNull with
    | none => .done (.error "Missing required field: id")
    | some id => .lookingUp p id
  | .pruneOrphanedBinaries => .reading none none

/-- The insert of an attachment. -/
def Link.write (t : Tables) (hash : String) : Link → Except String Tables
  | .item id itemId fileName => t.insertItemBinary ⟨id, itemId, hash, fileName⟩
  | .snapshot id snapshotId fileName => t.insertSnapshotBinary ⟨id, snapshotId, hash, fileName⟩

/-- The insert or the update of the item. -/
def ItemRequest.write (t : Tables) (icon : Option (Option String)) : ItemRequest → Except String Tables
  | .create p itemId now => t.insertItem
      { id := itemId
        fields :=
          { title := nonEmpty (entryTitle x.iconless p)
            username := p.username.textOrNull
            password := p.password.textOrNull
            url := p.url.textOrNull
            note := none
            otpSecret := p.otpSecret.textOrNull
            otpDigits := p.otpDigits.orNull
            otpPeriod := p.otpPeriod.orNull
            otpAlgorithm := p.otpAlgorithm.textOrNull
            icon := icon.getD none
            color := none }
        createdAt := some now
        updatedAt := some now }
  | .update p id =>
    let updateFields := { p.updateFields x.iconless with icon }
    if updateFields = nothingSet then .error "No values to set" else .ok (t.updateItem id updateFields.applyTo)

def Vault.finish (v : Vault) : Except String Tables → Vault × Call
  | .ok t => ({ v with tables := t }, .done (.ok ()))
  | .error error => (v, .done (.error error))

def collect : Option (List String) → Option (List String) → Call
  | some itemRefs, some snapshotRefs => .deleting (itemRefs ++ snapshotRefs).dedup
  | itemRefs, snapshotRefs => .reading itemRefs snapshotRefs

/-- The calls from one wait to the next. -/
def advance (v : Vault) : Call → Wait → Vault × Call
  | .hashing b ref, .ended => (v, .selecting b ref)
  | .selecting b ref, .ended => (v, if b.hash ∈ v.tables.hashes then ref.returned b.hash else .inserting b ref)
  | .inserting b ref, .ended => match v.tables.insertBinary b with
    | .ok t => (⟨t, v.stored ++ [b.hash]⟩, ref.returned b.hash)
    | .error error => (v, ref.threw error)
  | .hashing _ ref, .failed error | .selecting _ ref, .failed error | .inserting _ ref, .failed error =>
    (v, ref.threw error)
  | .linking hash l, .ended => v.finish (l.write v.tables hash)
  | .lookingUp p id, .ended =>
    (v, if id ∈ v.tables.items.map (·.id) then addIcon x p.iconBase64 (.update p id) else .done (.error "Entry not found"))
  | .saving icon r, .ended => v.finish (r.write x v.tables icon)
  | .reading itemRefs snapshotRefs, .ended =>
    (v, collect (itemRefs <|> some (v.tables.itemBinaries.map (·.binaryHash)).dedup) snapshotRefs)
  | .reading itemRefs snapshotRefs, .secondEnded =>
    (v, collect itemRefs (snapshotRefs <|> some (v.tables.snapshotBinaries.map (·.binaryHash)).dedup))
  | .deleting referenced, .ended => v.finish (.ok (v.tables.prune referenced))
  | .done result, _ => (v, .done result)
  | c, .secondEnded => (v, c)
  | _, .failed error => (v, .done (.error error))

def storing : Calls.Machine Vault Start Call Wait Empty where
  start := start x
  advance := advance x
  outside v _ := v

abbrev State := Calls.Sys Vault Call
abbrev Event := Calls.Event Start Wait Empty

/-! ## What is promised -/

def Tables.IconNames (t : Tables) (hash : String) : Prop := ∃ i ∈ t.items, i.fields.icon = some ("binary:" ++ hash)

def Tables.Refers (t : Tables) (hash : String) : Prop :=
  (∃ r ∈ t.itemBinaries, r.binaryHash = hash) ∨ (∃ r ∈ t.snapshotBinaries, r.binaryHash = hash) ∨ t.IconNames hash

def Kept (v : Vault) : Prop := ∀ hash ∈ v.stored, v.tables.Refers hash → hash ∈ v.tables.hashes

def ItemRequest.Writes (t : Tables) : ItemRequest → Prop
  | .create _ itemId _ => itemId ∉ t.items.map (·.id)
  | .update _ id => id ∈ t.items.map (·.id)

/-- A prune deletes no blob that an icon names, and an icon is written only while its blob is there. -/
def Call.Spares (t : Tables) : Call → Wait → Prop
  | .deleting referenced, .ended => ∀ hash ∈ t.hashes, t.IconNames hash → hash ∈ referenced
  | .saving icon r, .ended => ∀ hash, icon = some (some ("binary:" ++ hash)) → r.Writes t → hash ∈ t.hashes
  | _, _ => True

def Spares (σ : State) : Event → Prop
  | .resume i a => ∀ c, σ.calls[i]? = some c → c.Spares σ.shared.tables a
  | _ => True

/-! ## Statements -/

variable {x} {v : Vault} {t : Tables}

theorem binary_append_inj {hash hash' : String} (h : "binary:" ++ hash = "binary:" ++ hash') : hash = hash' :=
  String.append_right_inj _ |>.1 h

theorem kept_iff_icons : Kept v ↔ ∀ hash ∈ v.stored, v.tables.IconNames hash → hash ∈ v.tables.hashes := by
  constructor
  · exact fun h hash hstored hicon => h hash hstored (.inr (.inr hicon))
  · rintro h hash hstored (⟨r, hr, rfl⟩ | ⟨r, hr, rfl⟩ | hicon)
    · exact v.tables.itemBinaries_stored r hr
    · exact v.tables.snapshotBinaries_stored r hr
    · exact h hash hstored hicon

theorem insertBinary_ok {b : Binary} {t' : Tables} (h : t.insertBinary b = .ok t') :
    t'.items = t.items ∧ t'.hashes = t.hashes ++ [b.hash] := by
  unfold Tables.insertBinary at h
  split at h
  · cases h
  · cases h
    exact ⟨rfl, List.map_append⟩

theorem link_ok {l : Link} {hash : String} {t' : Tables} (h : l.write t hash = .ok t') :
    t'.items = t.items ∧ t'.binaries = t.binaries := by
  cases l with
  | item id itemId fileName =>
    simp only [Link.write, Tables.insertItemBinary] at h
    split at h
    · split at h
      · cases h
      · cases h
        exact ⟨rfl, rfl⟩
    · cases h
  | snapshot id snapshotId fileName =>
    simp only [Link.write, Tables.insertSnapshotBinary] at h
    split at h
    · split at h
      · cases h
      · cases h
        exact ⟨rfl, rfl⟩
    · cases h

theorem request_ok {r : ItemRequest} {icon : Option (Option String)} {t' : Tables} (h : r.write x t icon = .ok t') :
    t'.binaries = t.binaries ∧ ∀ hash, t'.IconNames hash →
      t.IconNames hash ∨ icon = some (some ("binary:" ++ hash)) ∧ r.Writes t := by
  cases r with
  | create p itemId now =>
    simp only [ItemRequest.write, Tables.insertItem] at h
    split at h
    · cases h
    · rename_i hnew
      cases h
      refine ⟨rfl, ?_⟩
      rintro hash ⟨i, hi, hicon⟩
      rcases List.mem_append.1 hi with hi | hi
      · exact .inl ⟨i, hi, hicon⟩
      · obtain rfl := List.mem_singleton.1 hi
        refine .inr ⟨?_, hnew⟩
        cases icon with
        | none => cases hicon
        | some icon => exact congrArg some hicon
  | update p id =>
    simp only [ItemRequest.write] at h
    split at h
    · cases h
    · cases h
      refine ⟨rfl, ?_⟩
      rintro hash ⟨i, hi, hicon⟩
      obtain ⟨old, hold, rfl⟩ := List.mem_map.1 hi
      split at hicon
      · rename_i hid
        cases icon with
        | none => exact .inl ⟨old, hold, hicon⟩
        | some icon => exact .inr ⟨congrArg some hicon, List.mem_map.2 ⟨old, hold, hid⟩⟩
      · exact .inl ⟨old, hold, hicon⟩

theorem request_writes {r : ItemRequest} (hash : String) (hrow : r.Writes t) :
    ∃ t', r.write x t (some (some ("binary:" ++ hash))) = .ok t' ∧ t'.binaries = t.binaries ∧ t'.IconNames hash := by
  cases r with
  | create p itemId now =>
    simp only [ItemRequest.write, Tables.insertItem, if_neg hrow]
    exact ⟨_, rfl, rfl, _, List.mem_append_right _ (List.mem_singleton_self _), rfl⟩
  | update p id =>
    obtain ⟨i, hi, hid⟩ := List.mem_map.1 hrow
    refine ⟨_, if_neg (by simp [nothingSet]), rfl, _, List.mem_map_of_mem hi, ?_⟩
    rw [if_pos hid]
    rfl

theorem kept_write_iff {r : ItemRequest} {icon : Option (Option String)} (h : Kept v)
    (hstored : ∀ hash, icon = some (some ("binary:" ++ hash)) → hash ∈ v.stored) :
    Kept (v.finish (r.write x v.tables icon)).1 ↔
      ∀ hash, icon = some (some ("binary:" ++ hash)) → r.Writes v.tables → hash ∈ v.tables.hashes := by
  constructor
  · rintro hkept hash rfl hrow
    obtain ⟨t', ht', hbinaries, hicon⟩ := request_writes (x := x) hash hrow
    rw [ht'] at hkept
    have hmem := kept_iff_icons.1 hkept hash (hstored hash rfl) hicon
    rwa [Tables.hashes, ← hbinaries]
  · intro hthere
    cases ht' : r.write x v.tables icon with
    | error error => exact h
    | ok t' =>
      obtain ⟨hbinaries, hicons⟩ := request_ok ht'
      refine kept_iff_icons.2 fun hash hs hicon => ?_
      have hsame : t'.hashes = v.tables.hashes := by rw [Tables.hashes, hbinaries, Tables.hashes]
      change hash ∈ t'.hashes
      rw [hsame]
      rcases hicons hash hicon with hicon | ⟨hnew, hrow⟩
      · exact kept_iff_icons.1 h hash hs hicon
      · exact hthere hash hnew hrow

theorem hashes_prune {referenced : List String} {hash : String} :
    hash ∈ (t.prune referenced).hashes ↔ hash ∈ t.hashes ∧ hash ∈ referenced := by
  unfold Tables.prune
  split
  · rename_i hnone
    simp [Tables.hashes, Tables.deleteBinaries, hnone]
  · simp only [Tables.hashes, Tables.deleteBinaries, List.mem_map, List.mem_filter, Bool.not_not, List.contains_eq_mem,
      decide_eq_true_eq]
    constructor
    · rintro ⟨b, ⟨hb, hmem⟩, rfl⟩
      exact ⟨⟨b, hb, rfl⟩, hmem⟩
    · rintro ⟨⟨b, hb, rfl⟩, hmem⟩
      exact ⟨b, ⟨hb, hmem⟩, rfl⟩

theorem items_prune (referenced : List String) : (t.prune referenced).items = t.items := by
  unfold Tables.prune
  split <;> rfl

theorem kept_prune_iff {referenced : List String} (h : Kept v) (hcovered : ∀ hash ∈ v.tables.hashes, hash ∈ v.stored) :
    Kept (v.finish (.ok (v.tables.prune referenced))).1 ↔
      ∀ hash ∈ v.tables.hashes, v.tables.IconNames hash → hash ∈ referenced := by
  have hicons : ∀ hash, (v.tables.prune referenced).IconNames hash ↔ v.tables.IconNames hash := fun hash => by
    rw [Tables.IconNames, items_prune, Tables.IconNames]
  rw [kept_iff_icons]
  constructor
  · intro hkept hash hmem hicon
    exact (hashes_prune.1 (hkept hash (hcovered hash hmem) ((hicons hash).2 hicon))).2
  · intro hspares hash hstored hicon
    have hmem := kept_iff_icons.1 h hash hstored ((hicons hash).1 hicon)
    exact hashes_prune.2 ⟨hmem, hspares hash hmem ((hicons hash).1 hicon)⟩

/-! ## Runs -/

def Known (v : Vault) : Call → Prop
  | .saving icon _ => ∀ hash, icon = some (some ("binary:" ++ hash)) → hash ∈ v.stored
  | _ => True

theorem known_returned {hash : String} (h : hash ∈ v.stored) (ref : Reference) : Known v (ref.returned hash) := by
  cases ref with
  | link l => trivial
  | item r =>
    intro hash' heq
    rwa [← binary_append_inj (Option.some.inj (Option.some.inj heq))]

theorem known_threw (error : String) (ref : Reference) : Known v (ref.threw error) := by
  cases ref with
  | link l => trivial
  | item r => exact fun _ h => by cases h

theorem known_addBinary (data : String) (size : Nat) (type : BinaryType) (ref : Reference) :
    Known v (addBinary x data size type ref) := by
  unfold addBinary
  split
  · exact known_threw _ ref
  · trivial

theorem known_addIcon (iconBase64 : ExternalBridge.ItemHistory.Field String) (r : ItemRequest) : Known v (addIcon x iconBase64 r) := by
  unfold addIcon
  split
  · intro hash h
    unfold iconColumn at h
    split at h <;> cases h
  · split
    · exact fun _ h => by cases h
    · exact known_addBinary _ _ _ _

theorem known_start (p : Start) : Known v (start x p) := by
  unfold start
  split
  · exact known_addBinary _ _ _ _
  · split
    · trivial
    · exact known_addIcon _ _
  · split <;> trivial
  · trivial

theorem known_collect (itemRefs snapshotRefs : Option (List String)) : Known v (collect itemRefs snapshotRefs) := by
  unfold collect
  split <;> trivial

theorem known_finish (r : Except String Tables) : Known (v.finish r).1 (v.finish r).2 := by
  cases r <;> trivial

theorem Known.mono {w : Vault} {c : Call} (hsub : v.stored ⊆ w.stored) (h : Known v c) : Known w c := by
  cases c with
  | saving icon r => exact fun hash hicon => hsub (h hash hicon)
  | _ => trivial

def Covered (v : Vault) : Prop := v.tables.hashes ⊆ v.stored

theorem covered_finish {r : Except String Tables} (h : Covered v) (hr : ∀ t, r = .ok t → t.hashes ⊆ v.tables.hashes) :
    Covered (v.finish r).1 := by
  cases r with
  | error error => exact h
  | ok t => exact List.Subset.trans (hr t rfl) h

variable {c : Call} {a : Wait}

theorem advance_stored : v.stored ⊆ (advance x v c a).1.stored := by
  have hfinish : ∀ r, v.stored ⊆ (v.finish r).1.stored := fun r => by cases r <;> exact List.Subset.refl _
  cases c with
  | inserting b ref =>
    cases a with
    | ended =>
      simp only [advance]
      split
      · exact List.subset_append_left _ _
      · exact List.Subset.refl _
    | _ => exact List.Subset.refl _
  | linking | saving | deleting => cases a <;> first | exact hfinish _ | exact List.Subset.refl _
  | _ => cases a <;> exact List.Subset.refl _

theorem advance_known (hcov : Covered v) (h : Known v c) :
    Covered (advance x v c a).1 ∧ Known (advance x v c a).1 (advance x v c a).2 := by
  cases a with
  | failed error => cases c <;> first | exact ⟨hcov, known_threw _ _⟩ | exact ⟨hcov, trivial⟩
  | secondEnded => cases c <;> first | exact ⟨hcov, h⟩ | exact ⟨hcov, known_collect _ _⟩
  | ended =>
    cases c with
    | hashing b ref | done result => exact ⟨hcov, trivial⟩
    | selecting b ref =>
      refine ⟨hcov, ?_⟩
      simp only [advance]
      split
      · rename_i hmem
        exact known_returned (hcov hmem) ref
      · trivial
    | inserting b ref =>
      simp only [advance]
      split
      · rename_i t ht
        refine ⟨?_, known_returned (List.mem_append_right _ (List.mem_singleton_self _)) ref⟩
        rw [Covered, (insertBinary_ok ht).2]
        exact List.append_subset.2 ⟨List.subset_append_of_subset_left _ hcov, List.subset_append_right _ _⟩
      · exact ⟨hcov, known_threw _ ref⟩
    | linking hash l =>
      refine ⟨covered_finish hcov fun t ht => ?_, known_finish _⟩
      rw [Tables.hashes, (link_ok ht).2]
      exact List.Subset.refl _
    | lookingUp p id =>
      refine ⟨hcov, ?_⟩
      simp only [advance]
      split
      · exact known_addIcon _ _
      · trivial
    | saving icon r =>
      refine ⟨covered_finish hcov fun t ht => ?_, known_finish _⟩
      rw [Tables.hashes, (request_ok ht).1]
      exact List.Subset.refl _
    | reading => exact ⟨hcov, known_collect _ _⟩
    | deleting referenced =>
      refine ⟨covered_finish hcov fun t ht => ?_, known_finish _⟩
      cases ht
      exact fun hash hmem => (hashes_prune.1 hmem).1

theorem kept_advance_iff (hcov : Covered v) (hknown : Known v c) (h : Kept v) :
    Kept (advance x v c a).1 ↔ c.Spares v.tables a := by
  cases a with
  | ended =>
    cases c with
    | inserting b ref =>
      refine iff_of_true ?_ trivial
      simp only [advance]
      split
      · rename_i t ht
        obtain ⟨hitems, hhashes⟩ := insertBinary_ok ht
        refine kept_iff_icons.2 fun hash hstored hicon => ?_
        rw [Tables.IconNames, hitems] at hicon
        rw [hhashes]
        rcases List.mem_append.1 hstored with hstored | hnew
        · exact List.mem_append_left _ (kept_iff_icons.1 h hash hstored hicon)
        · exact List.mem_append_right _ hnew
      · exact h
    | linking hash l =>
      refine iff_of_true ?_ trivial
      simp only [advance]
      cases ht : l.write v.tables hash with
      | error error => exact h
      | ok t =>
        obtain ⟨hitems, hbinaries⟩ := link_ok ht
        refine kept_iff_icons.2 fun hash hstored hicon => ?_
        rw [Tables.IconNames, Vault.finish, hitems] at hicon
        rw [Tables.hashes, Vault.finish, hbinaries]
        exact kept_iff_icons.1 h hash hstored hicon
    | saving icon r => exact kept_write_iff h hknown
    | deleting referenced => exact kept_prune_iff h hcov
    | _ => exact iff_of_true h trivial
  | _ => cases c <;> exact iff_of_true h trivial

theorem covered_step {σ : State} (e : Event) (h : Calls.Each Covered Known σ) :
    Calls.Each Covered Known ((storing x).step σ e) := by
  have hkeeps : Calls.Keeps (storing x) Covered Known fun _ _ => True :=
    { start := fun σ p _ _ => known_start p
      own := fun σ i a c h _ _ hc => advance_known h.shared hc
      other := fun σ i a c d _ _ _ _ hd => hd.mono advance_stored
      outside := fun σ e _ _ => e.elim }
  exact hkeeps.step h trivial

/-- From any tables, every state of a run has all blobs with a reference exactly if no prune deletes a blob that an icon
names and no icon is written after its blob was deleted. -/
theorem referenced_kept_iff (x : Externals) (t : Tables) (es : List Event) :
    (∀ es', es' <+: es → Kept (run (storing x).step ⟨.ofTables t, []⟩ es').shared) ↔
      Guarded (storing x).step Spares ⟨.ofTables t, []⟩ es := by
  refine guarded_iff_always (I := Calls.Each Covered Known) (W := fun σ => Kept σ.shared)
    (fun σ e h _ _ => covered_step e h) (fun σ e hinv hkept => ?_) es ⟨List.Subset.refl _, List.forall_mem_nil _⟩
    fun hash hmem _ => hmem
  cases e with
  | start p => exact iff_of_true hkept trivial
  | outside e => exact e.elim
  | resume i a =>
    cases hi : σ.calls[i]? with
    | none =>
      rw [Calls.step_resume_none hi]
      exact iff_of_true hkept fun c hc => by cases hi.symm.trans hc
    | some c =>
      rw [Calls.step_resume hi]
      refine (kept_advance_iff hinv.shared (hinv.calls c (List.mem_of_getElem? hi)) hkept).trans ?_
      simp only [Spares, hi, Option.some.injEq, forall_eq']

/-! ## An icon -/

def plainText : Externals := ⟨fun s => some s.toUTF8.toList, fun _ => Vector.replicate 32 0, fun _ => none⟩

def noRows : Tables where
  binaries := []
  items := []
  itemBinaries := []
  snapshots := []
  snapshotBinaries := []
  hashes_nodup := List.nodup_nil
  itemBinaries_stored := List.forall_mem_nil _
  snapshotBinaries_stored := List.forall_mem_nil _

def iconThenPrune : List Event :=
  [.start (.handleCreateItem { title := .value "mail", iconBase64 := .value "icon" } "i" "now"),
    .resume 0 .ended, .resume 0 .ended, .resume 0 .ended, .resume 0 .ended,
    .start .pruneOrphanedBinaries, .resume 1 .ended, .resume 1 .secondEnded, .resume 1 .ended]

/-- Both calls have succeeded, and the blob of the icon is gone. -/
theorem icon_pruned : (∀ c ∈ (run (storing plainText).step ⟨.ofTables noRows, []⟩ iconThenPrune).calls, c = .done (.ok ())) ∧
    ¬Kept (run (storing plainText).step ⟨.ofTables noRows, []⟩ iconThenPrune).shared := by
  refine ⟨List.forall_mem_cons.2 ⟨rfl, List.forall_mem_cons.2 ⟨rfl, List.forall_mem_nil _⟩⟩, fun h => ?_⟩
  exact List.not_mem_nil (h _ (List.mem_singleton_self _) (.inr (.inr ⟨_, List.mem_singleton_self _, rfl⟩)))

end HaexVault.Passwords.Binaries
