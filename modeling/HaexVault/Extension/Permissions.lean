import Mathlib.Data.List.DropRight
import HaexVault.Extension.Tables
import HaexVault.Extension.TableNames
/-!
# Database permissions of extensions (`extension/permissions`)

`check_database_permission` compares a table name as text, while SQLite resolves it without regard
to letter case, quotes and the schema in front. So the guard that keeps stored permissions away from
`haex_` and `sqlite_` tables holds for the plain lower-case spellings only (`outOfReach_iff`).
-/

namespace HaexVault.Extension

/-! ## Permissions -/

inductive ResourceType where
  | fs | web | db | shell | filesync | spaces | identities | passwords | mail
  deriving DecidableEq

def ResourceType.fromStr (s : String) : Option ResourceType :=
  if s = "fs" then some .fs
  else if s = "web" then some .web
  else if s = "db" then some .db
  else if s = "shell" then some .shell
  else if s = "filesync" then some .filesync
  else if s = "spaces" then some .spaces
  else if s = "identities" then some .identities
  else if s = "passwords" then some .passwords
  else if s = "mail" then some .mail
  else none

inductive DbAction where
  | read | readWrite | create | delete | alterDrop
  deriving DecidableEq

def DbAction.asStr : DbAction → String
  | .read => "read"
  | .readWrite => "readWrite"
  | .create => "create"
  | .delete => "delete"
  | .alterDrop => "alterDrop"

def DbAction.fromStr (s : String) : Option DbAction :=
  let s := String.ofList (lower s)
  if s = "read" then some .read
  else if s = "readwrite" ∨ s = "read_write" then some .readWrite
  else if s = "create" then some .create
  else if s = "delete" then some .delete
  else if s = "alterdrop" ∨ s = "alter_drop" then some .alterDrop
  else none

inductive Action where
  | database (action : DbAction)
  | other (resourceType : ResourceType)
  deriving DecidableEq

def Action.fromStr (resourceType : ResourceType) (s : String) : Option Action :=
  if resourceType = .db then (DbAction.fromStr s).map .database else some (.other resourceType)

inductive PermissionStatus where
  | ask | granted | denied
  deriving DecidableEq

def PermissionStatus.fromStr (s : String) : Option PermissionStatus :=
  if s = "ask" then some .ask
  else if s = "granted" then some .granted
  else if s = "denied" then some .denied
  else none

structure ExtensionPermission where
  resourceType : ResourceType
  action : Action
  target : String
  status : PermissionStatus
  deriving DecidableEq

/-- A row of `haex_extension_permissions`; a cell that is no text is `none`. -/
structure PermissionRow where
  extensionId : String
  resourceType : Option String
  action : Option String
  target : Option String
  status : Option String
  deriving DecidableEq

/-- How `get_permissions` reads a row: what it cannot read is a denied read of a table. -/
def PermissionRow.read (row : PermissionRow) : ExtensionPermission :=
  let resourceType := (row.resourceType.bind ResourceType.fromStr).getD .db
  { resourceType
    action := (row.action.bind (Action.fromStr resourceType)).getD (.database .read)
    target := row.target.getD ""
    status := (row.status.bind PermissionStatus.fromStr).getD .denied }

structure AppState where
  /-- The installed extensions by id. -/
  extensions : String → Option Manifest
  permissions : List PermissionRow
  /-- `session_permissions`, by extension, resource and exact target. -/
  sessionPermissions : String → ResourceType → String → Option PermissionStatus

def getPermissions (st : AppState) (extensionId : String) : List ExtensionPermission :=
  (st.permissions.filter fun r => r.extensionId = extensionId).map PermissionRow.read

/-! ## The checker -/

def matchesAction (permissionAction : Action) (required : DbAction) : Bool :=
  match permissionAction with
  | .database a => a = required || (a = .readWrite && required = .read)
  | .other _ => false

def isSystemTable (tableName : String) : Bool := startsWith tableName "haex_" || startsWith tableName "sqlite_"

def stripStar (s : String) : Option String :=
  if s.toList.getLast? = some '*' then some (String.ofList s.toList.dropLast) else none

def matchesTarget (target tableName : String) : Bool :=
  if isSystemTable tableName then false
  else if target = "*" then true
  else match stripStar target with
    | some pre => startsWith tableName pre
    | none => target = tableName

def trimMatches (c : Char) (s : List Char) : List Char := (s.dropWhile (· = c)).rdropWhile (· = c)

def cleanTableName (tableName : String) : String := String.ofList (trimMatches '`' (trimMatches '"' tableName.toList))

def isAutoAllowedTable (m : Manifest) (tableName : String) : Bool :=
  isExtensionTable (cleanTableName tableName) m.publicKey m.name

def matchesTablePattern (target tableName : String) : Bool := matchesTarget target (cleanTableName tableName)

def matchingPermission (permissions : List ExtensionPermission) (dbAction : DbAction) (tableName : String) :
    Option ExtensionPermission :=
  permissions.find? fun perm => perm.resourceType = .db && matchesTablePattern perm.target tableName &&
    matchesAction perm.action dbAction

def checkDatabasePermission (st : AppState) (extensionId : String) (action : Action) (tableName : String) :
    Except ExtensionError Unit :=
  match action with
  | .other _ => .error (.validation "Expected database action")
  | .database dbAction =>
    match st.extensions extensionId with
    | none => .error (.validation ("Extension with ID " ++ extensionId ++ " not found"))
    | some m =>
      let denied := .error (.permissionDenied extensionId dbAction.asStr ("database table '" ++ tableName ++ "'"))
      let prompt := .error (.permissionPromptRequired extensionId m.name "db" dbAction.asStr tableName)
      if isAutoAllowedTable m tableName then .ok ()
      else match matchingPermission (getPermissions st extensionId) dbAction tableName with
        | some perm =>
          match perm.status with
          | .granted => .ok ()
          | .denied => denied
          | .ask => prompt
        | none =>
          match st.sessionPermissions extensionId .db tableName with
          | some .granted => .ok ()
          | some .denied => denied
          | _ => prompt

/-! ## Spellings of a system table -/

def schemas : List (List Char) := ["main".toList, "temp".toList]

/-- SQLite's name resolution: letter case and quotes do not matter, and a schema may stand in front. -/
def Resolves (n : ObjectName) (table : String) : Prop :=
  match n with
  | [i] => lower i.value = lower table
  | [s, i] => lower s.value ∈ schemas ∧ lower i.value = lower table
  | _ => False

/-- The spellings `is_system_table` recognises: no schema, no quote but `"` and the backtick,
and the beginning in lower case. -/
def PlainSystemName (n : ObjectName) : Prop :=
  ∃ i, n = [i] ∧ i.quoteStyle ∈ [none, some .doubleQuote, some .backtick] ∧ isSystemTable i.value = true

def GrantedByTarget (st : AppState) (extensionId : String) (action : Action) (tableName : String) : Prop :=
  checkDatabasePermission st extensionId action tableName = .ok () ∧
    checkDatabasePermission { st with permissions := [] } extensionId action tableName ≠ .ok ()

/-- No stored permission list lets an extension through to the name, unless the session
names that exact text. -/
def OutOfReach (n : ObjectName) : Prop :=
  ∀ st extensionId action, st.sessionPermissions extensionId .db (displayName n) = none →
    ¬ GrantedByTarget st extensionId action (displayName n)

theorem matchesTarget_system {target tableName : String} (h : isSystemTable tableName = true) :
    matchesTarget target tableName = false := by
  simp [matchesTarget, h]

theorem matchingPermission_system {permissions : List ExtensionPermission} {a : DbAction} {tableName : String}
    (h : isSystemTable (cleanTableName tableName) = true) : matchingPermission permissions a tableName = none := by
  rw [matchingPermission, List.find?_eq_none]
  intro perm _
  simp [matchesTablePattern, matchesTarget_system h]

theorem check_system {st : AppState} {extensionId tableName : String} {action : Action}
    (h : isSystemTable (cleanTableName tableName) = true) :
    checkDatabasePermission st extensionId action tableName =
      checkDatabasePermission { st with permissions := [] } extensionId action tableName := by
  cases action with
  | other => rfl
  | database a => simp only [checkDatabasePermission, matchingPermission_system h]

def zeroKey : String := String.ofList ('0' :: List.replicate 63 '0')

theorem zeroKey_toList : zeroKey.toList = '0' :: List.replicate 63 '0' := String.toList_ofList

def grantedAll : AppState where
  extensions _ := some ⟨zeroKey, "notes"⟩
  permissions := [⟨"notes", some "db", some "readWrite", some "*", some "granted"⟩]
  sessionPermissions _ _ _ := none

theorem getPermissions_grantedAll :
    getPermissions grantedAll "notes" = [⟨.db, .database .readWrite, "*", .granted⟩] := by
  simp [getPermissions, grantedAll, PermissionRow.read, ResourceType.fromStr, Action.fromStr, DbAction.fromStr,
    PermissionStatus.fromStr, lower]

theorem head?_of_prefix {a b : List Char} {c : Char} (h : a <+: b) (hc : a.head? = some c) : b.head? = some c := by
  obtain ⟨r, rfl⟩ := h
  simp [hc]

theorem granted_of_not_system {tableName : String} (hsys : isSystemTable (cleanTableName tableName) = false)
    (hown : (cleanTableName tableName).toList.head? ≠ some '0') :
    GrantedByTarget grantedAll "notes" (.database .read) tableName := by
  have hauto : isAutoAllowedTable ⟨zeroKey, "notes"⟩ tableName = false := by
    apply Bool.eq_false_iff.2
    intro h
    rw [isAutoAllowedTable, isExtensionTable, startsWith_iff, prefix_toList] at h
    apply hown
    apply head?_of_prefix h
    rw [zeroKey_toList]
    rfl
  constructor
  · simp only [checkDatabasePermission, getPermissions_grantedAll]
    simp [grantedAll, hauto, matchingPermission, matchesTablePattern, matchesTarget, hsys, matchesAction]
  · simp [checkDatabasePermission, grantedAll, hauto, matchingPermission, getPermissions]

theorem outOfReach_iff_clean {n : ObjectName} (hown : (cleanTableName (displayName n)).toList.head? ≠ some '0') :
    OutOfReach n ↔ isSystemTable (cleanTableName (displayName n)) = true := by
  constructor
  · intro h
    by_contra hsys
    exact h grantedAll "notes" (.database .read) rfl (granted_of_not_system (by simpa using hsys) hown)
  · rintro h st extensionId action - ⟨hok, hno⟩
    exact hno (check_system h ▸ hok)

/-! ## Trimming -/

theorem trimMatches_cons_self (c : Char) (l : List Char) : trimMatches c (c :: l) = trimMatches c l := by
  simp [trimMatches]

theorem rdropWhile_append_of_last {p : Char → Bool} {a l : List Char} (h : ∀ x ∈ a, p x = false) :
    ∃ r, (a ++ l).rdropWhile p = a ++ r := by
  induction l using List.reverseRecOn with
  | nil =>
    refine ⟨[], ?_⟩
    rw [List.append_nil, List.rdropWhile_eq_self_iff]
    intro hne
    simp [h _ (List.getLast_mem hne)]
  | append_singleton l x ih =>
    obtain ⟨r, hr⟩ := ih
    rw [← List.append_assoc, List.rdropWhile_concat]
    split
    · exact ⟨r, hr⟩
    · exact ⟨l ++ [x], by simp⟩

theorem trimMatches_append {c : Char} {a : List Char} (hne : a ≠ []) (h : c ∉ a) (l : List Char) :
    ∃ r, trimMatches c (a ++ l) = a ++ r := by
  have hall : ∀ x ∈ a, decide (x = c) = false := fun x hx => by
    rw [decide_eq_false_iff_not]
    rintro rfl
    exact h hx
  obtain ⟨x, a, rfl⟩ := List.exists_cons_of_ne_nil hne
  have hdrop : (x :: a ++ l).dropWhile (· = c) = x :: a ++ l := by
    simp only [List.cons_append, List.dropWhile_cons, hall x (by simp)]
    simp
  rw [trimMatches, hdrop]
  exact rdropWhile_append_of_last hall

def openers : List (List Char) := [[], ['"'], ['`']]

theorem clean_append {text : String} {o a l : List Char} (ho : o ∈ openers) (hne : a ≠ []) (hd : '"' ∉ a) (hb : '`' ∉ a)
    (h : text.toList = o ++ (a ++ l)) : ∃ r, (cleanTableName text).toList = a ++ r := by
  simp only [cleanTableName, String.toList_ofList, h]
  simp only [openers, List.mem_cons, List.not_mem_nil, or_false] at ho
  rcases ho with rfl | rfl | rfl
  · obtain ⟨r, hr⟩ := trimMatches_append hne hd l
    rw [List.nil_append, hr]
    exact trimMatches_append hne hb r
  · obtain ⟨r, hr⟩ := trimMatches_append hne hd l
    rw [List.singleton_append, trimMatches_cons_self, hr]
    exact trimMatches_append hne hb r
  · obtain ⟨r, hr⟩ := trimMatches_append (c := '"') (a := '`' :: a) (by simp) (by simp [hd]) l
    rw [List.singleton_append, ← List.cons_append, hr, List.cons_append, trimMatches_cons_self]
    exact trimMatches_append hne hb r

/-! ## How a name is printed -/

def Ident.opener (i : Ident) : List Char := (i.quoteStyle.map QuoteStyle.char).toList

theorem escapeQuoted_append {q : Char} {a : List Char} (h : q ∉ a) (l : List Char) :
    escapeQuoted q (a ++ l) = a ++ escapeQuoted q l := by
  induction a with
  | nil => rfl
  | cons x a ih =>
    simp only [List.mem_cons, not_or] at h
    rw [escapeQuoted, escapeQuoted] at ih
    simp [escapeQuoted, Ne.symm h.1, ih h.2]

theorem display_append {i : Ident} {a w : List Char} (hv : i.value.toList = a ++ w) (hq : ∀ q : QuoteStyle, q.char ∉ a) :
    ∃ l, i.display.toList = i.opener ++ (a ++ l) := by
  rcases hs : i.quoteStyle with _ | q
  · exact ⟨w, by simp [Ident.display, Ident.opener, hs, hv]⟩
  · have hesc := escapeQuoted_append (hq q) w
    cases q with
    | bracket => exact ⟨w ++ [']'], by simp [Ident.display, Ident.opener, hs, hv, QuoteStyle.char]⟩
    | doubleQuote =>
      refine ⟨escapeQuoted '"' w ++ ['"'], ?_⟩
      simp only [QuoteStyle.char] at hesc
      simp [Ident.display, Ident.opener, hs, hv, QuoteStyle.char, hesc]
    | singleQuote =>
      refine ⟨escapeQuoted '\'' w ++ ['\''], ?_⟩
      simp only [QuoteStyle.char] at hesc
      simp [Ident.display, Ident.opener, hs, hv, QuoteStyle.char, hesc]
    | backtick =>
      refine ⟨escapeQuoted '`' w ++ ['`'], ?_⟩
      simp only [QuoteStyle.char] at hesc
      simp [Ident.display, Ident.opener, hs, hv, QuoteStyle.char, hesc]

/-! ## The exact condition -/

def systemPrefixes : List (List Char) := ["haex_".toList, "sqlite_".toList]

theorem isSystemTable_iff {t : String} : isSystemTable t = true ↔ ∃ p ∈ systemPrefixes, p <+: t.toList := by
  simp [isSystemTable, startsWith_iff, systemPrefixes]

theorem lower_systemPrefix {p : List Char} (hp : p ∈ systemPrefixes) : p.map Char.toLower = p := by
  simp only [systemPrefixes, List.mem_cons, List.not_mem_nil, or_false] at hp
  rcases hp with rfl | rfl <;> decide

theorem systemPrefix_unique {p p' : List Char} (hp : p ∈ systemPrefixes) (hp' : p' ∈ systemPrefixes)
    (h : p.head? = p'.head?) : p = p' := by
  simp only [systemPrefixes, List.mem_cons, List.not_mem_nil, or_false] at hp hp'
  rcases hp with rfl | rfl <;> rcases hp' with rfl | rfl <;> first | rfl | exact absurd h (by decide)

theorem isSystemTable_of_lower {t : String} {p a r : List Char} (hp : p ∈ systemPrefixes) (ha : a.map Char.toLower = p)
    (ht : t.toList = a ++ r) : isSystemTable t = true ↔ a = p := by
  have hlen : a.length = p.length := by rw [← ha, List.length_map]
  rw [isSystemTable_iff, ht]
  constructor
  · rintro ⟨p', hp', hpre⟩
    have hhead : p.head? = p'.head? := by
      obtain ⟨c, q, rfl⟩ : ∃ c q, p' = c :: q := by
        apply List.exists_cons_of_ne_nil
        rintro rfl
        exact absurd hp' (by decide)
      obtain ⟨x, a, rfl⟩ : ∃ x b, a = x :: b := by
        apply List.exists_cons_of_ne_nil
        rintro rfl
        exact absurd (ha ▸ hp) (by decide)
      obtain ⟨rfl, -⟩ := List.cons_prefix_cons.1 hpre
      have hc := lower_systemPrefix hp'
      simp only [List.map_cons, List.cons.injEq] at hc
      rw [← ha, List.map_cons, hc.1]
      rfl
    obtain rfl := systemPrefix_unique hp hp' hhead
    exact ((List.prefix_of_prefix_length_le hpre (List.prefix_append a r) hlen.ge).eq_of_length hlen.symm).symm
  · rintro rfl
    exact ⟨a, hp, List.prefix_append a r⟩

theorem spelled_prefix {v t : String} {p : List Char} (hp : p ∈ systemPrefixes) (hv : lower v = lower t)
    (ht : p <+: t.toList) : ∃ a w, v.toList = a ++ w ∧ a.map Char.toLower = p := by
  obtain ⟨r, hr⟩ := ht
  rw [lower, lower, ← hr, List.map_append, lower_systemPrefix hp] at hv
  obtain ⟨a, w, hw, ha, -⟩ := List.map_eq_append_iff.1 hv
  exact ⟨a, w, hw, ha⟩

theorem not_mem_of_lower {a p : List Char} {c : Char} (ha : a.map Char.toLower = p) (hc : c.toLower ∉ p) : c ∉ a := by
  intro h
  apply hc
  rw [← ha]
  exact List.mem_map_of_mem h

section

variable {a p : List Char}

theorem spelled_clean (hp : p ∈ systemPrefixes ++ schemas) (ha : a.map Char.toLower = p) :
    a ≠ [] ∧ '"' ∉ a ∧ '`' ∉ a ∧ (∀ q : QuoteStyle, q.char ∉ a) ∧ a.head? ≠ some '0' := by
  have hq : '"' ∉ p ∧ '`' ∉ p ∧ '\'' ∉ p ∧ '[' ∉ p ∧ '0' ∉ p ∧ p ≠ [] := by
    simp only [systemPrefixes, schemas, List.mem_append, List.mem_cons, List.not_mem_nil, or_false] at hp
    rcases hp with (rfl | rfl) | (rfl | rfl) <;> decide
  obtain ⟨hd, hb, hs, hk, h0, hne⟩ := hq
  refine ⟨?_, not_mem_of_lower ha hd, not_mem_of_lower ha hb, fun q => ?_, fun h => ?_⟩
  · rintro rfl
    exact hne ha.symm
  · cases q with
    | doubleQuote => exact not_mem_of_lower ha hd
    | singleQuote => exact not_mem_of_lower ha hs
    | backtick => exact not_mem_of_lower ha hb
    | bracket => exact not_mem_of_lower ha hk
  · exact not_mem_of_lower ha (c := '0') h0 (List.mem_of_mem_head? h)

variable {i : Ident} {w rest : List Char} {text : String}

theorem clean_plain (hp : p ∈ systemPrefixes ++ schemas) (ha : a.map Char.toLower = p) (hv : i.value.toList = a ++ w)
    (ht : text.toList = i.display.toList ++ rest) (hi : i.quoteStyle ∈ [none, some .doubleQuote, some .backtick]) :
    ∃ r, (cleanTableName text).toList = a ++ r := by
  obtain ⟨hne, hd, hb, hq, -⟩ := spelled_clean hp ha
  obtain ⟨l, hl⟩ := display_append hv hq
  rw [hl, List.append_assoc, List.append_assoc] at ht
  refine clean_append ?_ hne hd hb ht
  simp only [List.mem_cons, List.not_mem_nil, or_false] at hi
  rcases hi with hi | hi | hi <;> simp [Ident.opener, hi, QuoteStyle.char, openers]

theorem clean_quoted (hp : p ∈ systemPrefixes ++ schemas) (ha : a.map Char.toLower = p) (hv : i.value.toList = a ++ w)
    (ht : text.toList = i.display.toList ++ rest) (hi : i.quoteStyle ∉ [none, some .doubleQuote, some .backtick]) :
    ∃ c r, (cleanTableName text).toList = c :: r ∧ c ∈ ['\'', '['] := by
  obtain ⟨-, -, -, hq, -⟩ := spelled_clean hp ha
  obtain ⟨l, hl⟩ := display_append hv hq
  obtain ⟨c, hc, hc'⟩ : ∃ c, i.opener = [c] ∧ c ∈ ['\'', '['] := by
    rcases hs : i.quoteStyle with _ | q
    · exact absurd (by simp [hs]) hi
    · cases q <;> simp_all [Ident.opener, QuoteStyle.char]
  rw [hl, hc, List.append_assoc] at ht
  have hd : '"' ∉ [c] ∧ '`' ∉ [c] := by
    simp only [List.mem_cons, List.not_mem_nil, or_false] at hc'
    rcases hc' with rfl | rfl <;> decide
  obtain ⟨r, hr⟩ := clean_append (o := []) (by simp [openers]) (by simp) hd.1 hd.2 ht
  exact ⟨c, r, hr, hc'⟩

theorem not_outOfReach_of_head {n : ObjectName} {c : Char} {r : List Char} (hr : (cleanTableName (displayName n)).toList = c :: r)
    (hc : c ∉ ['h', 's', '0']) : ¬ OutOfReach n := by
  simp only [List.mem_cons, List.not_mem_nil, or_false, not_or] at hc
  rw [outOfReach_iff_clean (by simp [hr, hc.2.2]), isSystemTable_iff]
  rintro ⟨p, hp, hpre⟩
  rw [hr] at hpre
  simp only [systemPrefixes, List.mem_cons, List.not_mem_nil, or_false] at hp
  rcases hp with rfl | rfl
  · exact hc.1 (List.cons_prefix_cons.1 hpre).1.symm
  · exact hc.2.1 (List.cons_prefix_cons.1 hpre).1.symm

theorem quote_head {c : Char} (hc : c ∈ ['\'', '[']) : c ∉ ['h', 's', '0'] := by
  simp only [List.mem_cons, List.not_mem_nil, or_false] at hc
  rcases hc with rfl | rfl <;> decide

theorem schema_head (hp : p ∈ schemas) (ha : a.map Char.toLower = p) : ∃ c r, a = c :: r ∧ c ∉ ['h', 's', '0'] := by
  obtain ⟨hne, -⟩ := spelled_clean (List.mem_append_right _ hp) ha
  obtain ⟨c, r, rfl⟩ := List.exists_cons_of_ne_nil hne
  refine ⟨c, r, rfl, fun hc => ?_⟩
  subst ha
  simp only [List.mem_cons, List.not_mem_nil, or_false] at hc
  rcases hc with rfl | rfl | rfl <;> simp [schemas] at hp

end

theorem not_outOfReach_schema {s i : Ident} (hs : lower s.value ∈ schemas) : ¬ OutOfReach [s, i] := by
  have hs' : lower s.value ∈ systemPrefixes ++ schemas := List.mem_append_right _ hs
  have hv : s.value.toList = s.value.toList ++ [] := (List.append_nil _).symm
  have htext : (displayName [s, i]).toList = s.display.toList ++ ('.' :: i.display.toList) := by
    have h : displayName [s, i] = s.display ++ "." ++ i.display := rfl
    simp [h]
  by_cases hq : s.quoteStyle ∈ [none, some .doubleQuote, some .backtick]
  · obtain ⟨r, hr⟩ := clean_plain hs' rfl hv htext hq
    obtain ⟨c, r', ha, hc⟩ := schema_head hs rfl
    rw [ha] at hr
    exact not_outOfReach_of_head hr hc
  · obtain ⟨c, r, hr, hc⟩ := clean_quoted hs' rfl hv htext hq
    exact not_outOfReach_of_head hr (quote_head hc)

/-- Stored permissions never reach a system table under a spelling exactly when the spelling
is the plain lower-case name. -/
theorem outOfReach_iff (n : ObjectName) (table : String) (hn : Resolves n table) (ht : isSystemTable table = true) :
    OutOfReach n ↔ PlainSystemName n := by
  obtain ⟨p, hp, hpre⟩ := isSystemTable_iff.1 ht
  have hp' : p ∈ systemPrefixes ++ schemas := List.mem_append_left _ hp
  match n, hn with
  | [i], hn =>
    obtain ⟨a, w, hv, ha⟩ := spelled_prefix hp hn hpre
    have htext : (displayName [i]).toList = i.display.toList ++ [] := by simp [displayName]
    by_cases hi : i.quoteStyle ∈ [none, some .doubleQuote, some .backtick]
    · -- the check sees the letters themselves, so their case decides
      obtain ⟨r, hr⟩ := clean_plain hp' ha hv htext hi
      obtain ⟨hne, -, -, -, h0⟩ := spelled_clean hp' ha
      rw [outOfReach_iff_clean (by rwa [hr, List.head?_append_of_ne_nil _ hne]), isSystemTable_of_lower hp ha hr,
        ← isSystemTable_of_lower hp ha hv]
      constructor
      · intro h
        exact ⟨i, rfl, hi, h⟩
      · rintro ⟨j, hj, -, h⟩
        cases hj
        exact h
    · obtain ⟨c, r, hr, hc⟩ := clean_quoted hp' ha hv htext hi
      refine iff_of_false (not_outOfReach_of_head hr (quote_head hc)) ?_
      rintro ⟨j, hj, hq, -⟩
      cases hj
      exact hi hq
  | [s, i], hn =>
    refine iff_of_false (not_outOfReach_schema hn.1) ?_
    rintro ⟨j, hj, -⟩
    cases hj

/-- `"haex_identities"`. -/
theorem outOfReach_quoted_identities : OutOfReach [⟨"haex_identities", some .doubleQuote, by decide⟩] :=
  (outOfReach_iff [_] "haex_identities" (by simp [Resolves]) (by decide)).2 ⟨_, rfl, by decide, by decide⟩

/-- `HAEX_IDENTITIES` is the same table for SQLite and any other table for the check. -/
theorem upper_case_in_reach :
    Resolves [⟨"HAEX_IDENTITIES", none, by decide⟩] "haex_identities" ∧ isSystemTable "haex_identities" = true ∧
      ¬ OutOfReach [⟨"HAEX_IDENTITIES", none, by decide⟩] := by
  refine ⟨by simp [Resolves, lower], by decide, fun h => ?_⟩
  exact h grantedAll "notes" (.database .read) rfl (granted_of_not_system (by decide) (by decide))

end HaexVault.Extension
