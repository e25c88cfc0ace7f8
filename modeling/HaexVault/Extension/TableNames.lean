import Mathlib.Data.List.Basic
/-!
# The tables a statement names (`database/core.rs`)

The syntax tree of `sqlparser`, as far as a table can stand in it, and the walk
`extract_table_names_from_statement` makes over it, which leaves many clauses and expressions out.
`occurrences` goes everywhere and says of each table name whether the walk comes past it and whether
it names a common table expression.
-/

namespace HaexVault.Extension

def isWordChar (c : Char) : Bool := c ∉ ['.', '"', '`', '\'', '[', ']']

inductive QuoteStyle where
  | doubleQuote | singleQuote | backtick | bracket
  deriving DecidableEq

def QuoteStyle.char : QuoteStyle → Char
  | .doubleQuote => '"'
  | .singleQuote => '\''
  | .backtick => '`'
  | .bracket => '['

structure Ident where
  value : String
  quoteStyle : Option QuoteStyle := none
  plain : quoteStyle = none → value.toList.all isWordChar = true := by decide
  deriving DecidableEq

abbrev ObjectName := List Ident

/-- `escape_quoted_string`: the quote itself is written twice. -/
def escapeQuoted (q : Char) (s : List Char) : List Char := s.flatMap fun c => if c = q then [q, q] else [c]

def Ident.display (i : Ident) : String :=
  match i.quoteStyle with
  | none => i.value
  | some .bracket => "[" ++ i.value ++ "]"
  | some q => String.ofList (q.char :: (escapeQuoted q.char i.value.toList ++ [q.char]))

/-- `Display` of an `ObjectName`. -/
def displayName (n : ObjectName) : String := ".".intercalate (n.map Ident.display)

inductive ExprForm where
  | identifier | value | nested | isNull | like | inList | cast | collate | exists | case | function | tuple | further
  deriving DecidableEq

mutual

/-- `Expr`. The parts of a form without an arm of its own are listed, a query among them
as a `subquery`. -/
inductive Expr where
  | subquery (query : Query)
  | binaryOp (left right : Expr)
  | unaryOp (expr : Expr)
  | inSubquery (expr : Expr) (subquery : Query)
  | between (expr low high : Expr)
  | other (form : ExprForm) (parts : List Expr)

inductive Query where
  | mk (ctes : List Cte) (body : SetExpr) (orderBy limit : List Expr)

inductive Cte where
  | mk (name : Ident) (query : Query)

inductive SetExpr where
  | select (select : Select)
  | query (query : Query)
  | setOperation (left right : SetExpr)
  | values (exprs : List Expr)
  | table (name : ObjectName)
  /-- `INSERT`, `UPDATE` or `DELETE` behind a `WITH`. -/
  | statement (statement : Statement)

/-- `further` holds the expressions of `DISTINCT ON`, `WINDOW` and the clauses of other dialects. -/
inductive Select where
  | mk (projection : List Expr) (from_ : List TableWithJoins) (selection : Option Expr) (groupBy having further : List Expr)

inductive TableWithJoins where
  | mk (relation : TableFactor) (joins : List Join)

inductive Join where
  | mk (relation : TableFactor) (on : List Expr)

inductive TableFactor where
  | table (name : ObjectName) (args : List Expr)
  | derived (subquery : Query)
  | tableFunction (expr : Expr)
  | nestedJoin (tableWithJoins : TableWithJoins)
  /-- `PIVOT`, `UNPIVOT`, `MATCH_RECOGNIZE`. -/
  | pivot (table : TableFactor) (parts : List Expr)
  | other (parts : List Expr)

inductive Statement where
  | query (query : Query)
  /-- `table` is `none` for a `TableObject` that is no name. -/
  | insert (table : Option ObjectName) (source : Option Query) (assignments onConflict returning : List Expr)
  | update (table : TableWithJoins) (assignments : List Expr) (from_ : List TableWithJoins) (selection : Option Expr)
      (returning limit : List Expr)
  | delete (from_ : List TableWithJoins) (tables : List ObjectName) (usingTables : List TableWithJoins) (selection : Option Expr)
      (returning limit : List Expr)
  | createTable (name : ObjectName)
  | alterTable (name : ObjectName)
  | drop (names : List ObjectName)
  | createIndex (tableName : ObjectName)
  | truncate (tableNames : List ObjectName)
  | other

end

/-! ## The walk -/

mutual

def extractTablesFromExprRecursive : Expr → List String
  | .subquery query => extractTablesFromQueryRecursive query
  | .binaryOp left right => extractTablesFromExprRecursive left ++ extractTablesFromExprRecursive right
  | .unaryOp expr => extractTablesFromExprRecursive expr
  | .inSubquery expr subquery => extractTablesFromExprRecursive expr ++ extractTablesFromQueryRecursive subquery
  | .between expr low high =>
    extractTablesFromExprRecursive expr ++ extractTablesFromExprRecursive low ++ extractTablesFromExprRecursive high
  | .other _ _ => []

def extractTablesFromQueryRecursive : Query → List String
  | .mk _ body _ _ => extractTablesFromSetExprRecursive body

def extractTablesFromSetExprRecursive : SetExpr → List String
  | .select select => extractTablesFromSelect select
  | .query (.mk _ body _ _) => extractTablesFromSetExprRecursive body
  | .setOperation left right => extractTablesFromSetExprRecursive left ++ extractTablesFromSetExprRecursive right
  | .values _ => []
  | .table _ => []
  | .statement _ => []

def extractTablesFromSelect : Select → List String
  | .mk _ from_ selection _ _ _ => extractFrom from_ ++ extractSelection selection

def extractFrom : List TableWithJoins → List String
  | [] => []
  | t :: ts => extractTableWithJoins t ++ extractFrom ts

def extractTableWithJoins : TableWithJoins → List String
  | .mk relation joins => extractTablesFromTableFactor relation ++ extractJoins joins

def extractJoins : List Join → List String
  | [] => []
  | .mk relation _ :: js => extractTablesFromTableFactor relation ++ extractJoins js

def extractTablesFromTableFactor : TableFactor → List String
  | .table name _ => [displayName name]
  | .derived subquery => extractTablesFromQueryRecursive subquery
  | .tableFunction _ => []
  | .nestedJoin tableWithJoins => extractTableWithJoins tableWithJoins
  | .pivot _ _ => []
  | .other _ => []

def extractSelection : Option Expr → List String
  | none => []
  | some expr => extractTablesFromExprRecursive expr

end

def extractRelation : TableWithJoins → List String
  | .mk relation _ => extractTablesFromTableFactor relation

def extractTableNamesFromStatement : Statement → List String
  | .query query => extractTablesFromQueryRecursive query
  | .insert table source _ _ _ =>
    (table.map displayName).toList ++ (source.map extractTablesFromQueryRecursive).getD []
  | .update table assignments _ selection _ _ =>
    extractRelation table ++ assignments.flatMap extractTablesFromExprRecursive ++ extractSelection selection
  | .delete from_ tables _ selection _ _ =>
    from_.flatMap extractRelation ++ tables.map displayName ++ extractSelection selection
  | .createTable name => [displayName name]
  | .alterTable name => [displayName name]
  | .drop names => names.map displayName
  | .createIndex tableName => [displayName tableName]
  | .truncate tableNames => tableNames.map displayName
  | .other => []

/-! ## Where a statement names a table -/

/-- A table name in a statement: whether it is bound by a `WITH` around it, and whether
the walk comes past it. -/
structure Occurrence where
  name : ObjectName
  bound : Bool
  walked : Bool
  deriving DecidableEq

def lower (s : String) : List Char := s.toList.map Char.toLower

/-- SQLite takes an unqualified name for a common table expression in scope before it looks
for a table, whatever the letter case. -/
def boundIn (scope : List Ident) : ObjectName → Bool
  | [i] => scope.any fun c => lower c.value = lower i.value
  | _ => false

def occurrence (scope : List Ident) (walked : Bool) (name : ObjectName) : Occurrence :=
  ⟨name, boundIn scope name, walked⟩

def cteNames : List Cte → List Ident
  | [] => []
  | .mk name _ :: cs => name :: cteNames cs

mutual

/-- Every table name in an expression. `walked` says whether the walk comes to the
expression at all; the parts it does not enter from there are looked through with `false`. -/
def exprOccurrences (scope : List Ident) (walked : Bool) : Expr → List Occurrence
  | .subquery query => queryOccurrences scope walked query
  | .binaryOp left right => exprOccurrences scope walked left ++ exprOccurrences scope walked right
  | .unaryOp expr => exprOccurrences scope walked expr
  | .inSubquery expr subquery => exprOccurrences scope walked expr ++ queryOccurrences scope walked subquery
  | .between expr low high =>
    exprOccurrences scope walked expr ++ exprOccurrences scope walked low ++ exprOccurrences scope walked high
  | .other _ parts => exprsOccurrences scope parts

def exprsOccurrences (scope : List Ident) : List Expr → List Occurrence
  | [] => []
  | e :: es => exprOccurrences scope false e ++ exprsOccurrences scope es

/-- The names of a `WITH` are in scope in all its bodies, in the body and in what follows it. -/
def queryOccurrences (scope : List Ident) (walked : Bool) : Query → List Occurrence
  | .mk ctes body orderBy limit =>
    ctesOccurrences (cteNames ctes ++ scope) ctes ++ setExprOccurrences (cteNames ctes ++ scope) walked body ++
      exprsOccurrences (cteNames ctes ++ scope) orderBy ++ exprsOccurrences (cteNames ctes ++ scope) limit

def ctesOccurrences (scope : List Ident) : List Cte → List Occurrence
  | [] => []
  | .mk _ query :: cs => queryOccurrences scope false query ++ ctesOccurrences scope cs

def setExprOccurrences (scope : List Ident) (walked : Bool) : SetExpr → List Occurrence
  | .select select => selectOccurrences scope walked select
  | .query query => queryOccurrences scope walked query
  | .setOperation left right => setExprOccurrences scope walked left ++ setExprOccurrences scope walked right
  | .values exprs => exprsOccurrences scope exprs
  | .table name => [occurrence scope false name]
  | .statement statement => statementOccurrences scope false statement

def selectOccurrences (scope : List Ident) (walked : Bool) : Select → List Occurrence
  | .mk projection from_ selection groupBy having further =>
    exprsOccurrences scope projection ++ fromOccurrences scope walked from_ ++ selectionOccurrences scope walked selection ++
      exprsOccurrences scope groupBy ++ exprsOccurrences scope having ++ exprsOccurrences scope further

def fromOccurrences (scope : List Ident) (walked : Bool) : List TableWithJoins → List Occurrence
  | [] => []
  | t :: ts => tableWithJoinsOccurrences scope walked t ++ fromOccurrences scope walked ts

def tableWithJoinsOccurrences (scope : List Ident) (walked : Bool) : TableWithJoins → List Occurrence
  | .mk relation joins => tableFactorOccurrences scope walked relation ++ joinsOccurrences scope walked joins

def joinsOccurrences (scope : List Ident) (walked : Bool) : List Join → List Occurrence
  | [] => []
  | .mk relation on :: js =>
    tableFactorOccurrences scope walked relation ++ exprsOccurrences scope on ++ joinsOccurrences scope walked js

def tableFactorOccurrences (scope : List Ident) (walked : Bool) : TableFactor → List Occurrence
  | .table name args => occurrence scope walked name :: exprsOccurrences scope args
  | .derived subquery => queryOccurrences scope walked subquery
  | .tableFunction expr => exprOccurrences scope false expr
  | .nestedJoin tableWithJoins => tableWithJoinsOccurrences scope walked tableWithJoins
  | .pivot table parts => tableFactorOccurrences scope false table ++ exprsOccurrences scope parts
  | .other parts => exprsOccurrences scope parts

def selectionOccurrences (scope : List Ident) (walked : Bool) : Option Expr → List Occurrence
  | none => []
  | some expr => exprOccurrences scope walked expr

def assignmentsOccurrences (scope : List Ident) (walked : Bool) : List Expr → List Occurrence
  | [] => []
  | e :: es => exprOccurrences scope walked e ++ assignmentsOccurrences scope walked es

def sourceOccurrences (scope : List Ident) (walked : Bool) : Option Query → List Occurrence
  | none => []
  | some query => queryOccurrences scope walked query

/-- The target of an `UPDATE` or a `DELETE`: no `WITH` can bind it, and the walk visits its
relation without the joins. -/
def targetOccurrences (scope : List Ident) (walked : Bool) : TableWithJoins → List Occurrence
  | .mk relation joins => tableFactorOccurrences [] walked relation ++ joinsOccurrences scope false joins

def targetsOccurrences (scope : List Ident) (walked : Bool) : List TableWithJoins → List Occurrence
  | [] => []
  | t :: ts => targetOccurrences scope walked t ++ targetsOccurrences scope walked ts

/-- Every table name in a statement. -/
def statementOccurrences (scope : List Ident) (walked : Bool) : Statement → List Occurrence
  | .query query => queryOccurrences scope walked query
  | .insert table source assignments onConflict returning =>
    (table.map (occurrence [] walked)).toList ++ sourceOccurrences scope walked source ++
      exprsOccurrences scope assignments ++ exprsOccurrences scope onConflict ++ exprsOccurrences scope returning
  | .update table assignments from_ selection returning limit =>
    targetOccurrences scope walked table ++ assignmentsOccurrences scope walked assignments ++
      fromOccurrences scope false from_ ++ selectionOccurrences scope walked selection ++
      exprsOccurrences scope returning ++ exprsOccurrences scope limit
  | .delete from_ tables usingTables selection returning limit =>
    targetsOccurrences scope walked from_ ++ tables.map (occurrence [] walked) ++
      fromOccurrences scope false usingTables ++ selectionOccurrences scope walked selection ++
      exprsOccurrences scope returning ++ exprsOccurrences scope limit
  | .createTable name => [occurrence [] walked name]
  | .alterTable name => [occurrence [] walked name]
  | .drop names => names.map (occurrence [] walked)
  | .createIndex tableName => [occurrence [] walked tableName]
  | .truncate tableNames => tableNames.map (occurrence [] walked)
  | .other => []

end

/-! ## The walk lists the names it comes past -/

def walkedNames (os : List Occurrence) : List String := (os.filter Occurrence.walked).map fun o => displayName o.name

@[simp] theorem walkedNames_nil : walkedNames [] = [] := rfl

@[simp] theorem walkedNames_append (os os' : List Occurrence) : walkedNames (os ++ os') = walkedNames os ++ walkedNames os' := by
  simp [walkedNames]

@[simp] theorem walkedNames_cons (scope : List Ident) (name : ObjectName) (os : List Occurrence) (walked : Bool) :
    walkedNames (occurrence scope walked name :: os) = (if walked then [displayName name] else []) ++ walkedNames os := by
  cases walked <;> simp [walkedNames, occurrence]

@[simp] theorem walkedNames_map (scope : List Ident) (names : List ObjectName) (walked : Bool) :
    walkedNames (names.map (occurrence scope walked)) = if walked then names.map displayName else [] := by
  induction names with
  | nil => simp
  | cons n ns ih => cases walked <;> simp_all

mutual

theorem walkedNames_expr (scope : List Ident) (walked : Bool) :
    ∀ e, walkedNames (exprOccurrences scope walked e) = if walked then extractTablesFromExprRecursive e else []
  | .subquery query => by simp [exprOccurrences, extractTablesFromExprRecursive, walkedNames_query scope walked query]
  | .binaryOp left right => by
    cases walked <;> simp [exprOccurrences, extractTablesFromExprRecursive, walkedNames_expr scope _ left,
      walkedNames_expr scope _ right]
  | .unaryOp expr => by simp [exprOccurrences, extractTablesFromExprRecursive, walkedNames_expr scope walked expr]
  | .inSubquery expr subquery => by
    cases walked <;> simp [exprOccurrences, extractTablesFromExprRecursive, walkedNames_expr scope _ expr,
      walkedNames_query scope _ subquery]
  | .between expr low high => by
    cases walked <;> simp [exprOccurrences, extractTablesFromExprRecursive, walkedNames_expr scope _ expr,
      walkedNames_expr scope _ low, walkedNames_expr scope _ high]
  | .other _ parts => by simp [exprOccurrences, extractTablesFromExprRecursive, walkedNames_exprs scope parts]

theorem walkedNames_exprs (scope : List Ident) : ∀ es, walkedNames (exprsOccurrences scope es) = []
  | [] => by simp [exprsOccurrences]
  | e :: es => by simp [exprsOccurrences, walkedNames_expr scope false e, walkedNames_exprs scope es]

theorem walkedNames_query (scope : List Ident) (walked : Bool) :
    ∀ q, walkedNames (queryOccurrences scope walked q) = if walked then extractTablesFromQueryRecursive q else []
  | .mk ctes body orderBy limit => by
    simp [queryOccurrences, extractTablesFromQueryRecursive, walkedNames_ctes _ ctes, walkedNames_setExpr _ walked body,
      walkedNames_exprs _ orderBy, walkedNames_exprs _ limit]

theorem walkedNames_ctes (scope : List Ident) : ∀ cs, walkedNames (ctesOccurrences scope cs) = []
  | [] => by simp [ctesOccurrences]
  | .mk _ query :: cs => by simp [ctesOccurrences, walkedNames_query scope false query, walkedNames_ctes scope cs]

theorem walkedNames_setExpr (scope : List Ident) (walked : Bool) :
    ∀ e, walkedNames (setExprOccurrences scope walked e) = if walked then extractTablesFromSetExprRecursive e else []
  | .select select => by simp [setExprOccurrences, extractTablesFromSetExprRecursive, walkedNames_select scope walked select]
  | .query (.mk ctes body orderBy limit) => by
    have h := walkedNames_query scope walked (.mk ctes body orderBy limit)
    simpa [setExprOccurrences, extractTablesFromSetExprRecursive, extractTablesFromQueryRecursive] using h
  | .setOperation left right => by
    cases walked <;> simp [setExprOccurrences, extractTablesFromSetExprRecursive, walkedNames_setExpr scope _ left,
      walkedNames_setExpr scope _ right]
  | .values exprs => by simp [setExprOccurrences, extractTablesFromSetExprRecursive, walkedNames_exprs scope exprs]
  | .table name => by simp [setExprOccurrences, extractTablesFromSetExprRecursive]
  | .statement statement => by
    simp [setExprOccurrences, extractTablesFromSetExprRecursive, walkedNames_statement scope false statement]

theorem walkedNames_select (scope : List Ident) (walked : Bool) :
    ∀ s, walkedNames (selectOccurrences scope walked s) = if walked then extractTablesFromSelect s else []
  | .mk projection from_ selection groupBy having further => by
    cases walked <;> simp [selectOccurrences, extractTablesFromSelect, walkedNames_exprs scope projection,
      walkedNames_from scope _ from_, walkedNames_selection scope _ selection, walkedNames_exprs scope groupBy,
      walkedNames_exprs scope having, walkedNames_exprs scope further]

theorem walkedNames_from (scope : List Ident) (walked : Bool) :
    ∀ ts, walkedNames (fromOccurrences scope walked ts) = if walked then extractFrom ts else []
  | [] => by simp [fromOccurrences, extractFrom]
  | t :: ts => by
    cases walked <;> simp [fromOccurrences, extractFrom, walkedNames_tableWithJoins scope _ t, walkedNames_from scope _ ts]

theorem walkedNames_tableWithJoins (scope : List Ident) (walked : Bool) :
    ∀ t, walkedNames (tableWithJoinsOccurrences scope walked t) = if walked then extractTableWithJoins t else []
  | .mk relation joins => by
    cases walked <;> simp [tableWithJoinsOccurrences, extractTableWithJoins, walkedNames_tableFactor scope _ relation,
      walkedNames_joins scope _ joins]

theorem walkedNames_joins (scope : List Ident) (walked : Bool) :
    ∀ js, walkedNames (joinsOccurrences scope walked js) = if walked then extractJoins js else []
  | [] => by simp [joinsOccurrences, extractJoins]
  | .mk relation on :: js => by
    cases walked <;> simp [joinsOccurrences, extractJoins, walkedNames_tableFactor scope _ relation,
      walkedNames_exprs scope on, walkedNames_joins scope _ js]

theorem walkedNames_tableFactor (scope : List Ident) (walked : Bool) :
    ∀ f, walkedNames (tableFactorOccurrences scope walked f) = if walked then extractTablesFromTableFactor f else []
  | .table name args => by simp [tableFactorOccurrences, extractTablesFromTableFactor, walkedNames_exprs scope args]
  | .derived subquery => by simp [tableFactorOccurrences, extractTablesFromTableFactor, walkedNames_query scope walked subquery]
  | .tableFunction expr => by simp [tableFactorOccurrences, extractTablesFromTableFactor, walkedNames_expr scope false expr]
  | .nestedJoin t => by simp [tableFactorOccurrences, extractTablesFromTableFactor, walkedNames_tableWithJoins scope walked t]
  | .pivot table parts => by
    simp [tableFactorOccurrences, extractTablesFromTableFactor, walkedNames_tableFactor scope false table,
      walkedNames_exprs scope parts]
  | .other parts => by simp [tableFactorOccurrences, extractTablesFromTableFactor, walkedNames_exprs scope parts]

theorem walkedNames_selection (scope : List Ident) (walked : Bool) :
    ∀ e, walkedNames (selectionOccurrences scope walked e) = if walked then extractSelection e else []
  | none => by simp [selectionOccurrences, extractSelection]
  | some expr => by simp [selectionOccurrences, extractSelection, walkedNames_expr scope walked expr]

theorem walkedNames_assignments (scope : List Ident) (walked : Bool) :
    ∀ es, walkedNames (assignmentsOccurrences scope walked es) =
      if walked then es.flatMap extractTablesFromExprRecursive else []
  | [] => by simp [assignmentsOccurrences]
  | e :: es => by
    cases walked <;> simp [assignmentsOccurrences, walkedNames_expr scope _ e, walkedNames_assignments scope _ es]

theorem walkedNames_source (scope : List Ident) (walked : Bool) :
    ∀ q, walkedNames (sourceOccurrences scope walked q) =
      if walked then (q.map extractTablesFromQueryRecursive).getD [] else []
  | none => by simp [sourceOccurrences]
  | some query => by simp [sourceOccurrences, walkedNames_query scope walked query]

theorem walkedNames_target (scope : List Ident) (walked : Bool) :
    ∀ t, walkedNames (targetOccurrences scope walked t) = if walked then extractRelation t else []
  | .mk relation joins => by
    simp [targetOccurrences, extractRelation, walkedNames_tableFactor [] walked relation, walkedNames_joins scope false joins]

theorem walkedNames_targets (scope : List Ident) (walked : Bool) :
    ∀ ts, walkedNames (targetsOccurrences scope walked ts) = if walked then ts.flatMap extractRelation else []
  | [] => by simp [targetsOccurrences]
  | t :: ts => by
    cases walked <;> simp [targetsOccurrences, walkedNames_target scope _ t, walkedNames_targets scope _ ts]

theorem walkedNames_statement (scope : List Ident) (walked : Bool) :
    ∀ s, walkedNames (statementOccurrences scope walked s) = if walked then extractTableNamesFromStatement s else []
  | .query query => by simp [statementOccurrences, extractTableNamesFromStatement, walkedNames_query scope walked query]
  | .insert table source assignments onConflict returning => by
    cases table <;> cases walked <;> simp [statementOccurrences, extractTableNamesFromStatement,
      walkedNames_source scope _ source, walkedNames_exprs scope assignments, walkedNames_exprs scope onConflict,
      walkedNames_exprs scope returning]
  | .update table assignments from_ selection returning limit => by
    cases walked <;> simp [statementOccurrences, extractTableNamesFromStatement, walkedNames_target scope _ table,
      walkedNames_assignments scope _ assignments, walkedNames_from scope false from_, walkedNames_selection scope _ selection,
      walkedNames_exprs scope returning, walkedNames_exprs scope limit]
  | .delete from_ tables usingTables selection returning limit => by
    cases walked <;> simp [statementOccurrences, extractTableNamesFromStatement, walkedNames_targets scope _ from_,
      walkedNames_from scope false usingTables, walkedNames_selection scope _ selection, walkedNames_exprs scope returning,
      walkedNames_exprs scope limit]
  | .createTable _ => by simp [statementOccurrences, extractTableNamesFromStatement]
  | .alterTable _ => by simp [statementOccurrences, extractTableNamesFromStatement]
  | .drop _ => by simp [statementOccurrences, extractTableNamesFromStatement]
  | .createIndex _ => by simp [statementOccurrences, extractTableNamesFromStatement]
  | .truncate _ => by simp [statementOccurrences, extractTableNamesFromStatement]
  | .other => by simp [statementOccurrences, extractTableNamesFromStatement]

end

/-! ## Completeness -/

def SameTable (a b : ObjectName) : Prop := a.map (fun i => lower i.value) = b.map fun i => lower i.value

def Spells (text : String) (table : ObjectName) : Prop := ∃ n, displayName n = text ∧ SameTable n table

theorem spells_displayName (n : ObjectName) : Spells (displayName n) n := ⟨n, rfl, rfl⟩

/-- The statements `validate_sql` checks the tables of. -/
def Statement.admitted : Statement → Bool
  | .query _ | .insert .. | .update .. | .delete .. => true
  | _ => false

def baseTables (s : Statement) : List Occurrence := (statementOccurrences [] true s).filter fun o => !o.bound

/-- Every base table of the statement is in the list `extract_table_names_from_statement` returns. -/
def Complete (s : Statement) : Prop :=
  ∀ o ∈ baseTables s, ∃ text ∈ extractTableNamesFromStatement s, Spells text o.name

theorem mem_walkedNames {os : List Occurrence} {text : String} :
    text ∈ walkedNames os ↔ ∃ o ∈ os, o.walked = true ∧ displayName o.name = text := by
  simp [walkedNames, and_assoc]

theorem mem_extract {s : Statement} {text : String} :
    text ∈ extractTableNamesFromStatement s ↔
      ∃ o ∈ statementOccurrences [] true s, o.walked = true ∧ displayName o.name = text := by
  have h := walkedNames_statement [] true s
  simp only [if_true] at h
  rw [← h]
  exact mem_walkedNames

/-- The list is complete exactly when every base table named in a place the walk does not
enter is spelled in a place it does enter too. -/
theorem complete_iff (s : Statement) (_ : s.admitted = true) :
    Complete s ↔ ∀ o ∈ baseTables s, o.walked = false →
      ∃ o' ∈ statementOccurrences [] true s, o'.walked = true ∧ Spells (displayName o'.name) o.name := by
  refine ⟨fun h o ho _ => ?_, fun h o ho => ?_⟩
  · obtain ⟨text, ht, hs⟩ := h o ho
    obtain ⟨o', ho', hw, rfl⟩ := mem_extract.1 ht
    exact ⟨o', ho', hw, hs⟩
  · cases hw : o.walked with
    | true => exact ⟨_, mem_extract.2 ⟨o, List.mem_of_mem_filter ho, hw, rfl⟩, spells_displayName o.name⟩
    | false =>
      obtain ⟨o', ho', hw', hs⟩ := h o ho hw
      exact ⟨_, mem_extract.2 ⟨o', ho', hw', rfl⟩, hs⟩

def selectId (name : Ident) (selection : Option Expr) : Query :=
  .mk [] (.select (.mk [.other .identifier []] [.mk (.table [name] []) []] selection [] [] [])) [] []

/-- `SELECT id FROM notes WHERE EXISTS (SELECT id FROM notes)`: what `EXISTS` hides is listed
from `FROM`. -/
theorem complete_notes_exists_notes : Complete (.query (selectId ⟨"notes", none, by decide⟩
    (some (.other .exists [.subquery (selectId ⟨"notes", none, by decide⟩ none)])))) := by
  refine (complete_iff _ rfl).2 fun o ho hw => ?_
  replace ho : o ∈ [⟨[⟨"notes", none, by decide⟩], false, true⟩, ⟨[⟨"notes", none, by decide⟩], false, false⟩] := ho
  simp only [List.mem_cons, List.not_mem_nil, or_false] at ho
  rcases ho with rfl | rfl
  · cases hw
  · exact ⟨⟨[⟨"notes", none, by decide⟩], false, true⟩, by decide, rfl, spells_displayName _⟩

/-- `SELECT (SELECT id FROM haex_identities)`: a query the checks see no table of. -/
theorem projection_hides_table : ¬ Complete (.query (.mk [] (.select (.mk
    [.subquery (selectId ⟨"haex_identities", none, by decide⟩ none)] [] none [] [] [])) [] [])) := by
  intro h
  obtain ⟨text, ht, -⟩ := h ⟨[⟨"haex_identities", none, by decide⟩], false, false⟩ (by decide)
  cases ht

end HaexVault.Extension
