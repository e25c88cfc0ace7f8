import Mathlib.Algebra.Ring.Nat
import Mathlib.Data.List.Sort
import HaexVault.Crdt.Commands
import HaexVault.Lib.Like
/-!
# The tables of an extension (`extension/utils.rs`)

An extension owns the tables whose names begin with its public key and its name, each followed by
two underscores. The permission checks decide that with `starts_with`, the uninstall path with SQL's
`LIKE`, which also knows wildcards and ignores letter case (`isolated_iff`).
-/

namespace HaexVault.Extension

open HaexVault.Lib.Like
open HaexVault.Crdt (DatabaseError)

/-- What names an extension in its `ExtensionManifest`. -/
structure Manifest where
  publicKey : String
  name : String
  deriving DecidableEq

/-- `ExtensionError`; the errors of the SQL front end are `Database` errors in the source. -/
inductive ExtensionError where
  | validation (reason : String)
  | database (source : DatabaseError)
  | parse (reason sql : String)
  | parameterMismatch (expected provided : Nat) (sql : String)
  | execution (sql reason : String)
  | statement (reason : String)
  | permissionDenied (extensionId operation resource : String)
  | permissionPromptRequired (extensionId extensionName resourceType action target : String)
  deriving DecidableEq

def startsWith (s p : String) : Bool := p.toList.isPrefixOf s.toList

def getExtensionTablePrefix (publicKey extensionName : String) : String :=
  publicKey ++ "__" ++ extensionName ++ "__"

def isExtensionTable (tableName publicKey extensionName : String) : Bool :=
  startsWith tableName (getExtensionTablePrefix publicKey extensionName)

def ed25519PublicKeyLength : Nat := 32

def isAsciiHexdigit (c : Char) : Bool :=
  ('0' ≤ c && c ≤ '9') || ('a' ≤ c && c ≤ 'f') || ('A' ≤ c && c ≤ 'F')

def byteLen (s : String) : Nat := (s.toList.map Char.utf8Size).sum

def validatePublicKey (publicKey : String) : Except ExtensionError Unit :=
  if byteLen publicKey ≠ ed25519PublicKeyLength * 2 then
    .error (.validation ("Invalid public key length: expected " ++ toString (ed25519PublicKeyLength * 2) ++
      " hex characters, got " ++ toString (byteLen publicKey)))
  else if !publicKey.toList.all isAsciiHexdigit then
    .error (.validation "Invalid public key: must contain only hex characters (0-9, a-f, A-F)")
  else .ok ()

/-! ## The database -/

structure Master where
  /-- The names of `type = 'table'` in `sqlite_master`. -/
  tables : List String
  /-- Each trigger with the table it is on. -/
  triggers : List (String × String) := []
  /-- `table_name` of `haex_crdt_dirty_tables_no_sync`. -/
  dirtyTables : List String := []

def Master.tablesLike (db : Master) (pattern : String) : List String :=
  db.tables.filter fun t => like pattern.toList t.toList

def discoverExtensionTables (db : Master) (publicKey extensionName : String) : List String :=
  (db.tablesLike (getExtensionTablePrefix publicKey extensionName ++ "%")).insertionSort fun a b => ¬ b < a

def dirtyTriggerNames (tableName : String) : List String :=
  ["insert", "update", "delete"].map fun suffix => "z_dirty_" ++ tableName ++ "_" ++ suffix

/-- The statements for one table. The name is put between double quotes as it is, so a
quote in it ends the identifier early. A dropped table takes its triggers along. -/
def dropTable (db : Master) (tableName : String) : Except DatabaseError Master :=
  if '"' ∈ tableName.toList then .error (.sqlite "syntax error")
  else .ok { db with
    triggers := db.triggers.filter fun t => t.1 ∉ dirtyTriggerNames tableName && t.2 ≠ tableName
    tables := db.tables.filter fun t => t ≠ tableName }

def dropExtensionTables (db : Master) (publicKey extensionName : String) : Except DatabaseError (List String × Master) :=
  let pattern := getExtensionTablePrefix publicKey extensionName ++ "%"
  let cleaned := { db with dirtyTables := db.dirtyTables.filter fun t => !like pattern.toList t.toList }
  let tableNames := cleaned.tablesLike pattern
  (tableNames.foldlM dropTable cleaned).map fun db => (tableNames, db)

/-! ## What isolation asks for -/

/-- No table under `b`'s prefix is one of `a`'s, and the tables `a`'s uninstall path
selects are `a`'s own, so that `b`'s stay. -/
structure Isolated (db : Master) (a b : Manifest) : Prop where
  owned : ∀ rest, isExtensionTable (getExtensionTablePrefix b.publicKey b.name ++ rest) a.publicKey a.name = false
  discovered : ∀ t, t ∈ discoverExtensionTables db a.publicKey a.name ↔
    t ∈ db.tables ∧ isExtensionTable t a.publicKey a.name = true
  dropped : ∀ ts db', dropExtensionTables db a.publicKey a.name = .ok (ts, db') →
    (∀ t, t ∈ ts ↔ t ∈ db.tables ∧ isExtensionTable t a.publicKey a.name = true) ∧
      ∀ t ∈ db.tables, isExtensionTable t b.publicKey b.name = true → t ∈ db'.tables

def NamesApart (a b : String) : Prop :=
  ¬ a.toList ++ ['_', '_'] <+: b.toList ++ ['_', '_'] ∧ ¬ b.toList ++ ['_', '_'] <+: a.toList ++ ['_', '_']

/-- A table whose name begins with a text the prefix fits as a pattern begins with the
prefix itself. -/
def FitsExactly (db : Master) (a : Manifest) : Prop :=
  ∀ t ∈ db.tables, ∀ s r, t.toList = s ++ r → like (getExtensionTablePrefix a.publicKey a.name).toList s = true →
    (getExtensionTablePrefix a.publicKey a.name).toList <+: t.toList

/-! ## Prefixes -/

theorem startsWith_iff {s p : String} : startsWith s p = true ↔ p.toList <+: s.toList := List.isPrefixOf_iff_prefix

theorem prefix_toList (publicKey name : String) :
    (getExtensionTablePrefix publicKey name).toList = publicKey.toList ++ (['_', '_'] ++ (name.toList ++ ['_', '_'])) := by
  simp [getExtensionTablePrefix, String.toList_append]

theorem utf8Size_hexdigit {c : Char} (h : isAsciiHexdigit c = true) : c.utf8Size = 1 := by
  have hc : c.val ≤ 'f'.val := by
    simp only [isAsciiHexdigit, Bool.or_eq_true, Bool.and_eq_true, decide_eq_true_eq] at h
    rcases h with (⟨-, h⟩ | ⟨-, h⟩) | ⟨-, h⟩
    · exact UInt32.le_trans h (by decide)
    · exact h
    · exact UInt32.le_trans h (by decide)
  exact Char.utf8Size_eq_one_iff.2 (UInt32.le_trans hc (by decide))

theorem validatePublicKey_length {publicKey : String} (h : validatePublicKey publicKey = .ok ()) :
    publicKey.toList.length = 64 := by
  unfold validatePublicKey at h
  split at h
  · cases h
  · rename_i hlen
    split at h
    · cases h
    · rename_i hhex
      have hall : ∀ c ∈ publicKey.toList, c.utf8Size = 1 := by
        intro c hc
        apply utf8Size_hexdigit
        simp only [Bool.not_eq_true, Bool.not_eq_false', List.all_eq_true] at hhex
        exact hhex c hc
      have hsum : byteLen publicKey = publicKey.toList.length := by
        rw [byteLen, List.map_congr_left hall, List.map_const', List.sum_replicate_nat, Nat.mul_one]
      rw [← hsum]
      exact not_not.1 hlen

theorem key_isPrefix_iff {k₁ k₂ x y : List Char} (hlen : k₁.length = k₂.length) :
    k₁ ++ x <+: k₂ ++ y ↔ k₁ = k₂ ∧ x <+: y := by
  constructor
  · rintro ⟨z, hz⟩
    rw [List.append_assoc] at hz
    obtain ⟨hk, hxy⟩ := List.append_inj hz hlen
    exact ⟨hk, z, hxy⟩
  · rintro ⟨rfl, h⟩
    exact (List.prefix_append_right_inj _).2 h

theorem exists_prefix_append {p q : List Char} : (∃ r, p <+: q ++ r) ↔ p <+: q ∨ q <+: p := by
  constructor
  · rintro ⟨r, h⟩
    exact List.prefix_or_prefix_of_prefix h (List.prefix_append q r)
  · rintro (h | ⟨r, h⟩)
    · exact ⟨[], by simpa using h⟩
    · exact ⟨r, by rw [h]⟩

theorem owned_iff {a b : Manifest} (ha : validatePublicKey a.publicKey = .ok ()) (hb : validatePublicKey b.publicKey = .ok ()) :
    (∀ rest, isExtensionTable (getExtensionTablePrefix b.publicKey b.name ++ rest) a.publicKey a.name = false) ↔
      (a.publicKey = b.publicKey → NamesApart a.name b.name) := by
  have hlen := (validatePublicKey_length ha).trans (validatePublicKey_length hb).symm
  have key : ∀ rest : String, isExtensionTable (getExtensionTablePrefix b.publicKey b.name ++ rest) a.publicKey a.name = true ↔
      a.publicKey = b.publicKey ∧ a.name.toList ++ ['_', '_'] <+: b.name.toList ++ ['_', '_'] ++ rest.toList := by
    intro rest
    rw [isExtensionTable, startsWith_iff, String.toList_append, prefix_toList, prefix_toList]
    simp only [List.append_assoc]
    rw [key_isPrefix_iff hlen, List.prefix_append_right_inj, String.toList_inj]
  constructor
  · intro h hk
    have hnone : ¬ ∃ r, a.name.toList ++ ['_', '_'] <+: b.name.toList ++ ['_', '_'] ++ r := by
      rintro ⟨r, hr⟩
      have := (key (String.ofList r)).2 ⟨hk, by simpa using hr⟩
      rw [h] at this
      cases this
    rw [exists_prefix_append, not_or] at hnone
    exact hnone
  · intro h rest
    by_contra hne
    obtain ⟨hk, hp⟩ := (key rest).1 (by simpa using hne)
    obtain ⟨h₁, h₂⟩ := h hk
    rcases exists_prefix_append.1 ⟨_, hp⟩ with hp | hp
    · exact h₁ hp
    · exact h₂ hp

/-! ## Selection -/

theorem mem_tablesLike {db : Master} {a : Manifest} {t : String} :
    t ∈ db.tablesLike (getExtensionTablePrefix a.publicKey a.name ++ "%") ↔
      t ∈ db.tables ∧ ∃ s r, t.toList = s ++ r ∧ like (getExtensionTablePrefix a.publicKey a.name).toList s = true := by
  rw [Master.tablesLike, List.mem_filter, String.toList_append]
  exact and_congr_right fun _ => like_append_percent

theorem selected_iff {db : Master} {a : Manifest} :
    (∀ t, t ∈ db.tablesLike (getExtensionTablePrefix a.publicKey a.name ++ "%") ↔
      t ∈ db.tables ∧ isExtensionTable t a.publicKey a.name = true) ↔ FitsExactly db a := by
  constructor
  · intro h t ht s r hs hlike
    have := (h t).1 (mem_tablesLike.2 ⟨ht, s, r, hs, hlike⟩)
    exact startsWith_iff.1 this.2
  · intro h t
    rw [mem_tablesLike]
    refine and_congr_right fun ht => ⟨?_, ?_⟩
    · rintro ⟨s, r, hs, hlike⟩
      exact startsWith_iff.2 (h t ht s r hs hlike)
    · intro hown
      exact like_append_percent.1 (like_of_isPre (startsWith_iff.1 hown))

theorem dropTable_tables {db db' : Master} {name : String} (h : dropTable db name = .ok db') :
    db'.tables = db.tables.filter fun t => t ≠ name := by
  unfold dropTable at h
  split at h
  · cases h
  · cases h; rfl

theorem foldlM_dropTable {names : List String} {db db' : Master} (h : names.foldlM dropTable db = .ok db') {t : String}
    (ht : t ∈ db.tables) (hn : t ∉ names) : t ∈ db'.tables := by
  induction names generalizing db with
  | nil =>
    cases h
    exact ht
  | cons name names ih =>
    rw [List.foldlM_cons] at h
    rcases hdrop : dropTable db name with e | db₁
    · rw [hdrop] at h
      cases h
    · rw [hdrop] at h
      apply ih h
      · rw [dropTable_tables hdrop, List.mem_filter]
        exact ⟨ht, by simpa using fun e => hn (by simp [e])⟩
      · exact fun hmem => hn (by simp [hmem])

theorem dropExtensionTables_ok {db db' : Master} {a : Manifest} {ts : List String}
    (h : dropExtensionTables db a.publicKey a.name = .ok (ts, db')) :
    ts = db.tablesLike (getExtensionTablePrefix a.publicKey a.name ++ "%") ∧ ∀ t ∈ db.tables, t ∉ ts → t ∈ db'.tables := by
  unfold dropExtensionTables at h
  dsimp only at h
  generalize hf : List.foldlM dropTable _ _ = res at h
  rcases res with e | db₁
  · cases h
  · cases h
    exact ⟨rfl, fun t ht hn => foldlM_dropTable hf ht hn⟩

/-! ## Isolation -/

/-- Two extensions with valid keys are isolated exactly when, under one public key, neither
name runs into the other, and no table fits the first one's pattern without its prefix. -/
theorem isolated_iff (db : Master) (a b : Manifest) (ha : validatePublicKey a.publicKey = .ok ())
    (hb : validatePublicKey b.publicKey = .ok ()) :
    Isolated db a b ↔ (a.publicKey = b.publicKey → NamesApart a.name b.name) ∧ FitsExactly db a := by
  have hsel : ∀ t, t ∈ discoverExtensionTables db a.publicKey a.name ↔
      t ∈ db.tablesLike (getExtensionTablePrefix a.publicKey a.name ++ "%") :=
    fun t => (List.perm_insertionSort _ _).mem_iff
  constructor
  · intro h
    exact ⟨(owned_iff ha hb).1 h.owned, selected_iff.1 fun t => (hsel t).symm.trans (h.discovered t)⟩
  · rintro ⟨hnames, hfits⟩
    have howned := (owned_iff ha hb).2 hnames
    have hexact := selected_iff.2 hfits
    refine ⟨howned, fun t => (hsel t).trans (hexact t), fun ts db' hdrop => ?_⟩
    obtain ⟨rfl, hkept⟩ := dropExtensionTables_ok hdrop
    refine ⟨hexact, fun t ht hown => hkept t ht fun hmem => ?_⟩
    -- a table of both would be one under `b`'s prefix that is `a`'s
    obtain ⟨rest, hrest⟩ := startsWith_iff.1 hown
    have ht' : t = getExtensionTablePrefix b.publicKey b.name ++ String.ofList rest := by
      rw [← String.toList_inj, String.toList_append, String.toList_ofList, hrest]
    have := ((hexact t).1 hmem).2
    rw [ht', howned] at this
    cases this

def someKey : String := "b4401f13f65e576b8a30ff9fd83df82a8bb707e1994d40c99996fe88603cefca"
def notesExt : Manifest := ⟨someKey, "notes"⟩
def mailExt : Manifest := ⟨someKey, "mail"⟩
def notesAiExt : Manifest := ⟨someKey, "notes__ai"⟩

theorem someKey_valid : validatePublicKey someKey = .ok () := rfl

theorem isolated_notes_mail :
    Isolated ⟨[someKey ++ "__notes__a", someKey ++ "__mail__a"], [], []⟩ notesExt mailExt := by
  refine (isolated_iff _ notesExt mailExt someKey_valid someKey_valid).2 ⟨fun _ => ?_, selected_iff.1 fun t => ?_⟩
  · unfold NamesApart
    decide
  · have hlike : Master.tablesLike ⟨[someKey ++ "__notes__a", someKey ++ "__mail__a"], [], []⟩
        (getExtensionTablePrefix notesExt.publicKey notesExt.name ++ "%") = [someKey ++ "__notes__a"] := rfl
    rw [hlike]
    simp only [List.mem_cons, List.not_mem_nil, or_false]
    constructor
    · rintro rfl
      exact ⟨.inl rfl, rfl⟩
    · rintro ⟨rfl | rfl, hown⟩
      · rfl
      · revert hown
        decide

/-- The tables of `notes__ai` lie under the prefix of `notes`, and go when `notes` is
uninstalled. Names that differ at an underscore, or keys that differ in letter case, are
told apart by `starts_with` and not by `LIKE`. -/
theorem uninstall_takes_neighbour :
    validatePublicKey someKey = .ok () ∧ notesExt ≠ notesAiExt ∧
      ¬ Isolated ⟨[someKey ++ "__notes__ai__items"], [], []⟩ notesExt notesAiExt ∧
      (dropExtensionTables ⟨[someKey ++ "__notes__ai__items"], [], []⟩ notesExt.publicKey notesExt.name).map (·.2.tables) = .ok [] ∧
      ¬ Isolated ⟨[someKey ++ "__my-app__items"], [], []⟩ ⟨someKey, "my_app"⟩ ⟨someKey, "my-app"⟩ := by
  refine ⟨someKey_valid, by decide, fun h => ?_, rfl, fun h => ?_⟩
  · have := h.owned "items"
    revert this
    decide
  · have := (h.discovered (someKey ++ "__my-app__items")).1 (by decide)
    revert this
    decide

end HaexVault.Extension
