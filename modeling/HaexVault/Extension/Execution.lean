import HaexVault.Extension.Permissions
import HaexVault.Lib.Steps
/-!
# From SQL text to the statement that runs (`permissions/validator.rs`, `extension/database`)

The text of an extension is parsed as it is for the check of its first statement, and with its
blanks collapsed for `extension_database_query`, which prints the last statement for SQLite to read.
`runs_checked_iff` says when what runs is what was checked.
-/

namespace HaexVault.Extension

open HaexVault.Lib.Steps

/-! ## The lexical layer -/

/-- The whitespace of `SQLiteDialect`; from U+007F on it takes a character for part of a name. -/
def isBlank (c : Char) : Bool := c ∈ [' ', '\t', '\n', '\r', '\x0b', '\x0c']

/-- Where the tokenizer stands; `behind` is behind the backslash of an escape. -/
inductive Lexing where
  | text
  | quoted (close : Char) (escaped behind : Bool)
  | lineComment
  | blockComment
  deriving DecidableEq

def Lexing.after (escaped : Bool) (c : Char) : Lexing :=
  if c ∈ ['\'', '"', '`'] then .quoted c (escaped && c = '\'') false else if c = '[' then .quoted ']' false false else .text

def Lexing.within (close : Char) (escaped behind : Bool) (c : Char) : Lexing :=
  if !behind && c = close then .text else .quoted close escaped (escaped && !behind && c = '\\')

section

variable (escapes : List Char → Bool)

/-- The characters of a text that belong to tokens; `none` stands for blanks and comments, which end the token before them.
A block comment without an end is an error and stays visible. To `sqlparser` a backslash in a blob `x'..'` is an escape:
`escapes before` says that the quote after the stretch `before` opens, or goes on with, such a literal. -/
@[grind =] def marks : Lexing → (before : List Char) → List Char → List (Option Char)
  | .text, _, [] => []
  | .text, _, '-' :: '-' :: rest => none :: marks .lineComment [] rest
  | .text, _, '/' :: '*' :: rest => none :: marks .blockComment [] rest
  | .text, before, c :: rest =>
    if isBlank c then none :: marks .text [] rest else some c :: marks (Lexing.after (escapes before) c) (before ++ [c]) rest
  | .quoted .., _, [] => []
  -- any other closing quote that is doubled opens the text again
  | .quoted ']' e b, before, ']' :: ']' :: rest => some ']' :: some ']' :: marks (.quoted ']' e b) (before ++ [']', ']']) rest
  | .quoted close e b, before, c :: rest => some c :: marks (Lexing.within close e b c) (before ++ [c]) rest
  | .lineComment, _, [] => []
  | .lineComment, _, c :: rest => none :: marks (if c = '\n' then .text else .lineComment) [] rest
  | .blockComment, _, [] => [none, some '/', some '*']
  | .blockComment, _, '*' :: '/' :: rest => none :: marks .text [] rest
  | .blockComment, _, _ :: rest => none :: marks .blockComment [] rest

def closed (cur : List Char) : List (List Char) := if cur = [] then [] else [cur]

def stretches : List Char → List (Option Char) → List (List Char)
  | cur, [] => closed cur
  | cur, none :: l => closed cur ++ stretches [] l
  | cur, some c :: l => stretches (cur ++ [c]) l

/-- The stretches of a text between blanks and comments, quotes included: what the parser sees of it. -/
def stretched (sql : String) : List (List Char) := stretches [] (marks escapes .text [] sql.toList)

end

/-- `Parser::parse_sql` of `sqlparser`: it drops comments and blanks between tokens. -/
structure SqlParser where
  parse : String → Except String (List Statement)
  escapes : List Char → Bool
  parse_stretched : ∀ a b, stretched escapes a = stretched escapes b → ∀ ss, parse a = .ok ss → parse b = .ok ss

def isWhitespace (c : Char) : Bool :=
  c.toNat ∈ [0x20, 0x85, 0xa0, 0x1680, 0x2028, 0x2029, 0x202f, 0x205f, 0x3000] || (9 ≤ c.toNat && c.toNat ≤ 13) ||
    (0x2000 ≤ c.toNat && c.toNat ≤ 0x200a)

def normalizeWhitespace (sql : String) : String :=
  String.ofList ([' '].intercalate ((sql.toList.splitOnP isWhitespace).filter (· ≠ [])))

/-- Collapsing the blanks of the text changes nothing the parser looks at: no line comment
swallows what follows it, and no quoted text is rewritten. -/
def Stable (escapes : List Char → Bool) (sql : String) : Prop :=
  stretched escapes (normalizeWhitespace sql) = stretched escapes sql

instance (escapes : List Char → Bool) (sql : String) : Decidable (Stable escapes sql) := inferInstanceAs (Decidable (_ = _))

inductive Mode where
  | text
  | quoted (close : Char)
  | lineComment
  | blockComment
  deriving DecidableEq

/-- The loop of `count_sql_placeholders`. A block comment that never ends is left one
character before the end of the text. -/
def countPlaceholdersFrom : Mode → List Char → Nat
  | .text, [] => 0
  | .text, '\'' :: rest => countPlaceholdersFrom (.quoted '\'') rest
  | .text, '-' :: '-' :: rest => countPlaceholdersFrom .lineComment rest
  | .text, '/' :: '*' :: rest => countPlaceholdersFrom .blockComment rest
  | .text, '?' :: rest => countPlaceholdersFrom .text rest + 1
  | .text, _ :: rest => countPlaceholdersFrom .text rest
  | .quoted _, [] => 0
  | .quoted _, '\'' :: '\'' :: rest => countPlaceholdersFrom (.quoted '\'') rest
  | .quoted _, '\'' :: rest => countPlaceholdersFrom .text rest
  | .quoted _, _ :: rest => countPlaceholdersFrom (.quoted '\'') rest
  | .lineComment, [] => 0
  | .lineComment, c :: rest => countPlaceholdersFrom (if c = '\n' then .text else .lineComment) rest
  | .blockComment, '*' :: '/' :: rest => countPlaceholdersFrom .text rest
  | .blockComment, [] => 0
  | .blockComment, [c] => if c = '?' then 1 else 0
  | .blockComment, _ :: c :: rest => countPlaceholdersFrom .blockComment (c :: rest)

def countSqlPlaceholders (sql : String) : Nat := countPlaceholdersFrom .text sql.toList

/-! ## Parsing and checking -/

section

variable (P : SqlParser)

def parseSingleStatement (sql : String) : Except ExtensionError Statement :=
  match P.parse sql with
  | .error e => .error (.parse e sql)
  | .ok [] => .error (.parse "No SQL statement found" sql)
  | .ok (s :: _) => .ok s

def parseSqlStatements (sql : String) : Except ExtensionError (List Statement) :=
  match P.parse (normalizeWhitespace sql) with
  | .error e => .error (.parse ("Failed to parse SQL: " ++ e) sql)
  | .ok ss => .ok ss

/-- The loops of `validate_read_statement` and `validate_write_statement`. -/
def validateTables (st : AppState) (extensionId : String) (action : DbAction) (tables : List String) :
    Except ExtensionError Unit :=
  tables.forM fun t => checkDatabasePermission st extensionId (.database action) t

def validateSql (st : AppState) (extensionId sql : String) : Except ExtensionError Unit :=
  match parseSingleStatement P sql with
  | .error (.parse reason sql) => .error (.parse ("Failed to parse SQL: " ++ reason ++ " - SQL: " ++ sql) sql)
  | .error e => .error e
  | .ok s =>
    match s with
    | .query _ => validateTables st extensionId .read (extractTableNamesFromStatement s)
    | .insert .. | .update .. | .delete .. => validateTables st extensionId .readWrite (extractTableNamesFromStatement s)
    | .createTable _ | .alterTable _ | .drop _ => .error (.validation ("Schema modifications (CREATE TABLE, ALTER TABLE, " ++
        "DROP) are only allowed during extension installation and synchronization"))
    | _ => .error (.validation ("Statement type not allowed: " ++ sql))

def Statement.isQuery : Statement → Bool
  | .query _ => true
  | _ => false

/-- `extension_database_query` up to the statement it prepares; `params` is the number of
parameters. -/
def extensionDatabaseQuery (st : AppState) (extensionId sql : String) (params : Nat) : Except ExtensionError (Option Statement) := do
  ensure (st.extensions extensionId).isSome (.validation ("Extension with ID " ++ extensionId ++ " not found"))
  validateSql P st extensionId sql
  ensure (countSqlPlaceholders sql = params) (.parameterMismatch (countSqlPlaceholders sql) params sql)
  let astVec ← parseSqlStatements P sql
  ensure (astVec.all Statement.isQuery)
    (.execution sql "Only SELECT statements are allowed in extension_database_query")
  .ok astVec.getLast?

/-- The names `validate_sql_table_prefix` looks at. -/
def Statement.schemaTables : Statement → Option (List String)
  | .createTable name => some [displayName name]
  | .alterTable name => some [displayName name]
  | .drop names => some (names.map displayName)
  | .createIndex tableName => some [displayName tableName]
  | _ => none

def validateSqlTablePrefix (ctx : Manifest) (sql : String) : Except ExtensionError Unit :=
  match parseSingleStatement P sql with
  | .error (.parse reason sql) => .error (.parse ("Failed to parse SQL: " ++ reason ++ " - SQL: " ++ sql) sql)
  | .error e => .error e
  | .ok s =>
    match s.schemaTables with
    | none => .ok ()
    | some tables => tables.forM fun t =>
      let expectedPrefix := getExtensionTablePrefix ctx.publicKey ctx.name
      let cleanName := cleanTableName t
      if startsWith cleanName expectedPrefix || startsWith cleanName ("__new_" ++ expectedPrefix) then .ok ()
      else .error (.validation ("Extension can only operate on tables with prefix '" ++ expectedPrefix ++ "'. Got: '" ++
        cleanName ++ "'"))

/-- `execute_sql_with_context` up to the statement it hands to SQLite. -/
def executeSqlWithContext (ctx : Manifest) (sql : String) (params : Nat) : Except ExtensionError Statement := do
  validateSqlTablePrefix P ctx sql
  ensure (countSqlPlaceholders sql = params) (.statement ("Parameter mismatch: SQL has " ++
    toString (countSqlPlaceholders sql) ++ " placeholders but " ++ toString params ++ " parameters were provided"))
  let astVec ← parseSqlStatements P sql
  match astVec with
  | [s] => .ok s
  | _ => .error (.execution sql "execute_sql_with_context should only receive a single SQL statement")

end

/-! ## What is checked and what runs -/

section

variable {P : SqlParser} {st : AppState} {extensionId sql : String} {params : Nat}

theorem parse_normalizeWhitespace (h : Stable P.escapes sql) {ss : List Statement} :
    P.parse (normalizeWhitespace sql) = .ok ss ↔ P.parse sql = .ok ss :=
  ⟨P.parse_stretched _ _ h ss, P.parse_stretched _ _ h.symm ss⟩

theorem parseSqlStatements_ok {ss : List Statement} :
    parseSqlStatements P sql = .ok ss ↔ P.parse (normalizeWhitespace sql) = .ok ss := by
  rw [parseSqlStatements]
  split <;> simp_all

theorem parseSingleStatement_ok {s : Statement} :
    parseSingleStatement P sql = .ok s ↔ ∃ ss, P.parse sql = .ok ss ∧ ss.head? = some s := by
  rw [parseSingleStatement]
  split <;> simp_all

theorem extensionDatabaseQuery_ok {o : Option Statement} :
    extensionDatabaseQuery P st extensionId sql params = .ok o ↔
      (st.extensions extensionId).isSome = true ∧ validateSql P st extensionId sql = .ok () ∧
        countSqlPlaceholders sql = params ∧
        ∃ ss, P.parse (normalizeWhitespace sql) = .ok ss ∧ ss.all Statement.isQuery = true ∧ o = ss.getLast? := by
  simp only [extensionDatabaseQuery, bind_eq_ok, ensure_ok, parseSqlStatements_ok]
  constructor
  · rintro ⟨-, hext, ⟨⟩, hvalid, -, hparams, ss, hss, -, hq, ho⟩
    cases ho
    exact ⟨hext, hvalid, by simpa using hparams, ss, hss, hq, rfl⟩
  · rintro ⟨hext, hvalid, hparams, ss, hss, hq, rfl⟩
    exact ⟨(), hext, (), hvalid, (), by simpa using hparams, ss, hss, (), hq, rfl⟩

theorem executeSqlWithContext_ok {ctx : Manifest} {s : Statement} (h : executeSqlWithContext P ctx sql params = .ok s) :
    P.parse (normalizeWhitespace sql) = .ok [s] := by
  simp only [executeSqlWithContext, bind_eq_ok, parseSqlStatements_ok] at h
  obtain ⟨-, -, -, -, ss, hss, hs⟩ := h
  split at hs
  · cases hs
    exact hss
  · cases hs

end

/-- The way of a statement to SQLite, which gets it as a text. -/
structure Printing where
  /-- `Display` of `sqlparser`. -/
  print : Statement → String
  /-- What SQLite runs of a text, up to the columns that the CRDT executor adds to a write. -/
  sqlite : String → Option Statement

/-- Whatever SQLite runs for either command is the statement whose tables were checked. -/
def RunsChecked (P : SqlParser) (D : Printing) (st : AppState) (extensionId sql : String) : Prop :=
  ∀ s, (∃ params, extensionDatabaseQuery P st extensionId sql params = .ok (some s)) ∨
      (∃ ctx params, executeSqlWithContext P ctx sql params = .ok s) →
    ∀ run, D.sqlite (D.print s) = some run → parseSingleStatement P sql = .ok run

/-- SQLite reads the last statement of the text, printed, as it was. -/
def PrintsBack (P : SqlParser) (D : Printing) (sql : String) : Prop :=
  ∀ ss, P.parse sql = .ok ss → ∀ s, ss.getLast? = some s → D.sqlite (D.print s) = some s

def LastQueryIsFirst (P : SqlParser) (sql : String) : Prop :=
  ∀ ss, P.parse sql = .ok ss → ss.all Statement.isQuery = true → ss.getLast? = ss.head?

/-- Of a text that passes the check, that collapsing leaves alone and that prints back, the statement
that runs is the one that was checked exactly when it is not a list of queries with another last one. -/
theorem runs_checked_iff (P : SqlParser) (D : Printing) (st : AppState) (extensionId sql : String)
    (hext : (st.extensions extensionId).isSome = true) (hvalid : validateSql P st extensionId sql = .ok ())
    (hstable : Stable P.escapes sql) (hprint : PrintsBack P D sql) :
    RunsChecked P D st extensionId sql ↔ LastQueryIsFirst P sql := by
  constructor
  · intro h ss hss hq
    cases hl : ss.getLast? with
    | none => simp_all
    | some s =>
      have hrun : extensionDatabaseQuery P st extensionId sql (countSqlPlaceholders sql) = .ok (some s) :=
        extensionDatabaseQuery_ok.2 ⟨hext, hvalid, rfl, ss, (parse_normalizeWhitespace hstable).2 hss, hq, hl.symm⟩
      obtain ⟨ss', hss', hs⟩ := parseSingleStatement_ok.1 (h s (.inl ⟨_, hrun⟩) s (hprint ss hss s hl))
      rw [hss] at hss'
      cases hss'
      exact hs.symm
  · rintro h s (⟨params, hrun⟩ | ⟨ctx, params, hrun⟩) run hread
    · obtain ⟨-, -, -, ss, hss, hq, hs⟩ := extensionDatabaseQuery_ok.1 hrun
      rw [parse_normalizeWhitespace hstable] at hss
      obtain rfl := Option.some.inj ((hprint ss hss s hs.symm).symm.trans hread)
      exact parseSingleStatement_ok.2 ⟨ss, hss, by rw [← h ss hss hq, hs]⟩
    · have hss := (parse_normalizeWhitespace hstable).1 (executeSqlWithContext_ok hrun)
      obtain rfl := Option.some.inj ((hprint [s] hss s rfl).symm.trans hread)
      exact parseSingleStatement_ok.2 ⟨[s], hss, rfl⟩

def readsOnly (text : String) (ss : List Statement) : SqlParser where
  parse sql := if stretched (fun _ => false) sql = stretched (fun _ => false) text then .ok ss else .error "Expected: an SQL statement"
  escapes _ := false
  parse_stretched a b h ss' := by
    rw [h]
    exact id

theorem readsOnly_parse (text : String) (ss : List Statement) : (readsOnly text ss).parse text = .ok ss := by simp [readsOnly]

/-- The printing of one statement. -/
def printsOnly (text : String) (s : Statement) : Printing := ⟨fun _ => text, fun sql => if sql = text then some s else none⟩

theorem printsOnly_sqlite (text : String) (s x : Statement) : (printsOnly text s).sqlite ((printsOnly text s).print x) = some s := by
  simp [printsOnly]

/-- `SELECT id FROM notes`, for an extension that may read every table. -/
theorem runs_checked_select_notes :
    RunsChecked (readsOnly "SELECT id FROM notes" [.query (selectId ⟨"notes", none, by decide⟩ none)])
      (printsOnly "SELECT id FROM notes" (.query (selectId ⟨"notes", none, by decide⟩ none))) grantedAll "notes"
      "SELECT id FROM notes" := by
  refine (runs_checked_iff _ _ grantedAll "notes" _ rfl ?_ (by decide) ?_).2 ?_
  · obtain ⟨h, -⟩ : GrantedByTarget grantedAll "notes" (.database .read) "notes" := granted_of_not_system (by decide) (by decide)
    have htables : extractTableNamesFromStatement (.query (selectId ⟨"notes", none, by decide⟩ none)) = ["notes"] := by decide
    rw [validateSql, parseSingleStatement_ok.2 ⟨_, readsOnly_parse _ _, rfl⟩]
    simp only [htables, validateTables]
    exact bind_eq_ok.2 ⟨(), h, rfl⟩
  · intro ss hss s hs
    rw [readsOnly_parse] at hss
    cases hss
    cases hs
    exact printsOnly_sqlite _ _ _
  · intro ss hss _
    rw [readsOnly_parse] at hss
    cases hss
    rfl

def selectOne : Statement := .query (.mk [] (.select (.mk [.other .value []] [] none [] [] [])) [] [])

def selectIdentities : Statement := .query (selectId ⟨"haex_identities", none, by decide⟩ none)

/-- Of `SELECT 1; SELECT id FROM haex_identities` the first statement is checked and the second one runs. -/
theorem second_statement_runs_unchecked :
    ∃ P : SqlParser, P.parse "SELECT 1; SELECT id FROM haex_identities" = .ok [selectOne, selectIdentities] ∧
      extensionDatabaseQuery P grantedAll "notes" "SELECT 1; SELECT id FROM haex_identities" 0 = .ok (some selectIdentities) ∧
      ¬ RunsChecked P (printsOnly "SELECT id FROM haex_identities" selectIdentities) grantedAll "notes"
        "SELECT 1; SELECT id FROM haex_identities" := by
  have hparse : (readsOnly "SELECT 1; SELECT id FROM haex_identities" [selectOne, selectIdentities]).parse
      "SELECT 1; SELECT id FROM haex_identities" = .ok [selectOne, selectIdentities] := readsOnly_parse _ _
  have hvalid : validateSql (readsOnly "SELECT 1; SELECT id FROM haex_identities" [selectOne, selectIdentities]) grantedAll
      "notes" "SELECT 1; SELECT id FROM haex_identities" = .ok () := by
    rw [validateSql, parseSingleStatement_ok.2 ⟨_, hparse, rfl⟩]
    rfl
  have hrun : extensionDatabaseQuery (readsOnly "SELECT 1; SELECT id FROM haex_identities" [selectOne, selectIdentities])
      grantedAll "notes" "SELECT 1; SELECT id FROM haex_identities" 0 = .ok (some selectIdentities) :=
    extensionDatabaseQuery_ok.2 ⟨rfl, hvalid, by decide, _, (parse_normalizeWhitespace (by decide)).2 hparse, rfl, rfl⟩
  refine ⟨_, hparse, hrun, fun h => ?_⟩
  have hfirst := h selectIdentities (.inl ⟨0, hrun⟩) selectIdentities (printsOnly_sqlite _ _ _)
  rw [parseSingleStatement_ok.2 ⟨_, hparse, rfl⟩] at hfirst
  -- the two statements name different tables
  have htables := congrArg extractTableNamesFromStatement (Except.ok.inj hfirst)
  exact absurd htables (by decide)

end HaexVault.Extension
