import HaexVault.Extension.Execution
/-!
# Counting placeholders (`extension/database/helpers.rs`)

`count_sql_placeholders` knows strings and comments. SQLite's tokenizer also knows identifiers in
double quotes, backquotes and brackets, which the count reads as text (`countPlaceholders_lex`).
-/

namespace HaexVault.Extension

open HaexVault.Lib.Steps

def validateParams {Value : Type} (sql : String) (params : List Value) : Except ExtensionError Unit :=
  ensure (countSqlPlaceholders sql = params.length) (.statement ("Parameter mismatch: SQL has " ++
    toString (countSqlPlaceholders sql) ++ " placeholders but " ++ toString params.length ++ " parameters were provided"))

/-! ## The tokenizer of SQLite -/

inductive SqlToken where
  | string
  | identifier (content : List Char)
  | comment
  | unfinishedComment (content : List Char)
  | mark
  | other (c : Char)
  deriving DecidableEq

inductive LexMode where
  | text
  | string
  | identifier (close : Char) (content : List Char)
  | lineComment
  | blockComment (content : List Char)

/-- The tokens of a text that has no parameters but plain marks. -/
def lexFrom : LexMode → List Char → Option (List SqlToken)
  | .text, [] => some []
  | .text, '\'' :: rest => lexFrom .string rest
  | .text, '-' :: '-' :: rest => lexFrom .lineComment rest
  | .text, '/' :: '*' :: c :: rest => lexFrom (.blockComment []) (c :: rest)
  | .text, '?' :: rest =>
    -- a mark with a number
    if rest.head?.any Char.isDigit then none else (lexFrom .text rest).map (.mark :: ·)
  | .text, c :: rest =>
    if c = '"' ∨ c = '`' then lexFrom (.identifier c []) rest
    else if c = '[' then lexFrom (.identifier ']' []) rest
    else if c ∈ ['$', '@', ':', '#'] then none
    else (lexFrom .text rest).map (.other c :: ·)
  | .string, [] => none
  | .string, '\'' :: '\'' :: rest => lexFrom .string rest
  | .string, '\'' :: rest => (lexFrom .text rest).map (.string :: ·)
  | .string, _ :: rest => lexFrom .string rest
  | .identifier _ _, [] => none
  | .identifier close content, [c] => if c = close then some [.identifier content] else none
  | .identifier close content, c :: d :: rest =>
    if c ≠ close then lexFrom (.identifier close (content ++ [c])) (d :: rest)
    else if d = close ∧ close ≠ ']' then lexFrom (.identifier close (content ++ [c, d])) rest
    else (lexFrom .text (d :: rest)).map (.identifier content :: ·)
  | .lineComment, [] => some [.comment]
  | .lineComment, c :: rest =>
    if c = '\n' then (lexFrom .text rest).map (.comment :: ·) else lexFrom .lineComment rest
  | .blockComment content, [] => some [.unfinishedComment content]
  | .blockComment _, '*' :: '/' :: rest => (lexFrom .text rest).map (.comment :: ·)
  | .blockComment content, c :: rest => lexFrom (.blockComment (content ++ [c])) rest

def sqliteTokens (sql : String) : Option (List SqlToken) :=
  if Char.ofNat 0 ∈ sql.toList then none else lexFrom .text sql.toList

/-- The marks of a token that the count takes for parameters. -/
def SqlToken.stray : SqlToken → Nat
  | .identifier content => content.count '?'
  | .unfinishedComment content => if content.getLast? = some '?' then 1 else 0
  | _ => 0

def SqlToken.Opens : SqlToken → Prop
  | .identifier content => '\'' ∈ content ∨ ['-', '-'] <:+: content ∨ ['/', '*'] <:+: content
  | _ => False

instance : DecidablePred SqlToken.Opens := fun t => by
  cases t <;> unfold SqlToken.Opens <;> infer_instance

def counted (ts : List SqlToken) : Nat := ts.count .mark + (ts.map SqlToken.stray).sum

section Counted
variable {c q : Char} {rest content : List Char} {t : SqlToken} {ts : List SqlToken}

@[simp] theorem counted_nil : counted [] = 0 := rfl

theorem counted_cons (ht : t ≠ .mark) : counted (t :: ts) = t.stray + counted ts := by
  simp only [counted, List.count_cons_of_ne ht, List.map_cons, List.sum_cons]
  omega

@[simp] theorem counted_mark : counted (.mark :: ts) = counted ts + 1 := by
  simp only [counted, List.count_cons_self, List.map_cons, List.sum_cons, SqlToken.stray]
  omega

@[simp] theorem counted_string : counted (.string :: ts) = counted ts := by simp [counted_cons, SqlToken.stray]

@[simp] theorem counted_comment : counted (.comment :: ts) = counted ts := by simp [counted_cons, SqlToken.stray]

@[simp] theorem counted_other : counted (.other c :: ts) = counted ts := by simp [counted_cons, SqlToken.stray]

theorem count_text_cons (hq : c ≠ '\'') (hd : c = '-' → rest.head? ≠ some '-') (hs : c = '/' → rest.head? ≠ some '*') :
    countPlaceholdersFrom .text (c :: rest) = (if c = '?' then 1 else 0) + countPlaceholdersFrom .text rest := by
  rw [countPlaceholdersFrom.eq_def]
  grind

theorem count_text_identifier (h : ¬ (SqlToken.identifier content).Opens) (hq : q ∈ ['"', '`', ']']) :
    countPlaceholdersFrom .text (content ++ q :: rest) = content.count '?' + countPlaceholdersFrom .text rest := by
  simp only [SqlToken.Opens, not_or] at h
  obtain ⟨hquote, hdash, hslash⟩ := h
  have hclose : q ≠ '\'' ∧ q ≠ '-' ∧ q ≠ '/' ∧ q ≠ '*' ∧ q ≠ '?' := by
    revert hq
    simp only [List.mem_cons, List.not_mem_nil, or_false]
    rintro (rfl | rfl | rfl) <;> decide
  induction content with
  | nil =>
    rw [List.nil_append, count_text_cons hclose.1 (fun h => absurd h hclose.2.1) fun h => absurd h hclose.2.2.1,
      if_neg hclose.2.2.2.2, List.count_nil]
  | cons c content ih =>
    have hrest := ih (fun h => hquote (List.mem_cons_of_mem _ h)) (fun h => hdash (h.trans (List.suffix_cons c content).isInfix))
      fun h => hslash (h.trans (List.suffix_cons c content).isInfix)
    have hnext : ∀ d, (content ++ q :: rest).head? = some d → d ≠ q → ∃ r, content = d :: r := by
      intro d hd hne
      cases content with
      | nil =>
        cases hd
        exact absurd rfl hne
      | cons e r =>
        cases hd
        exact ⟨r, rfl⟩
    rw [List.cons_append, count_text_cons, hrest, List.count_cons]
    · by_cases hc : c = '?'
      · simp [hc]
        omega
      · simp [hc]
    · rintro rfl
      exact hquote List.mem_cons_self
    · rintro rfl hd
      obtain ⟨r, rfl⟩ := hnext _ hd hclose.2.1.symm
      exact hdash ⟨[], r, rfl⟩
    · rintro rfl hd
      obtain ⟨r, rfl⟩ := hnext _ hd hclose.2.2.2.1.symm
      exact hslash ⟨[], r, rfl⟩

end Counted

/-! ## The count and the tokens -/

/-- What the count comes to where the tokenizer is in a mode. -/
def Agrees : LexMode → List Char → List SqlToken → Prop
  | .text, cs, ts => countPlaceholdersFrom .text cs = counted ts
  | .string, cs, ts => countPlaceholdersFrom (.quoted '\'') cs = counted ts
  | .lineComment, cs, ts => countPlaceholdersFrom .lineComment cs = counted ts
  | .blockComment _, cs, ts => cs ≠ [] → countPlaceholdersFrom .blockComment cs = counted ts
  | .identifier close before, cs, ts => ∃ content rest ts', cs = content ++ close :: rest ∧
      ts = .identifier (before ++ content) :: ts' ∧ countPlaceholdersFrom .text rest = counted ts'

theorem text_goes_on {rest : List Char} {t : SqlToken} {ts : List SqlToken} (h : (lexFrom .text rest).map (t :: ·) = some ts)
    (hopens : ∀ t ∈ ts, ¬ t.Opens)
    (ih : ∀ {ts}, lexFrom .text rest = some ts → (∀ t ∈ ts, ¬ t.Opens) → Agrees .text rest ts) :
    ∃ ts', ts = t :: ts' ∧ countPlaceholdersFrom .text rest = counted ts' := by
  obtain ⟨ts', hrest, rfl⟩ := Option.map_eq_some_iff.1 h
  exact ⟨ts', rfl, ih hrest fun t ht => hopens t (List.mem_cons_of_mem _ ht)⟩

theorem lexFrom_agrees {m : LexMode} {cs : List Char} {ts : List SqlToken} (h : lexFrom m cs = some ts)
    (hopens : ∀ t ∈ ts, ¬ t.Opens) : Agrees m cs ts := by
  -- an identifier in double quotes, backquotes or brackets
  have hidentifier : ∀ {c close : Char} {rest : List Char} {ts : List SqlToken}, (c = '"' ∨ c = '`' ∨ c = '[') →
      close ∈ ['"', '`', ']'] → (∀ t ∈ ts, ¬ t.Opens) → Agrees (.identifier close []) rest ts →
      countPlaceholdersFrom .text (c :: rest) = counted ts := by
    rintro c close rest ts hc hclose hopens ⟨content, after, ts', rfl, rfl, hafter⟩
    have hopen : countPlaceholdersFrom .text (c :: (content ++ close :: after)) =
        countPlaceholdersFrom .text (content ++ close :: after) := by
      rcases hc with rfl | rfl | rfl <;> rw [count_text_cons] <;> simp
    have hcontent : ¬ (SqlToken.identifier content).Opens := hopens _ List.mem_cons_self
    rw [hopen, count_text_identifier hcontent hclose, hafter, List.nil_append, counted_cons (by rintro ⟨⟩)]
    rfl
  fun_induction lexFrom m cs generalizing ts with
  | case1 =>
    cases h
    rfl
  | case2 rest ih => exact (countPlaceholdersFrom.eq_2 rest).trans (ih h hopens)
  | case3 rest ih => exact (countPlaceholdersFrom.eq_3 rest).trans (ih h hopens)
  | case4 c rest ih => exact (countPlaceholdersFrom.eq_4 (c :: rest)).trans (ih h hopens (List.cons_ne_nil c rest))
  | case5 => cases h
  | case6 rest hdigit ih =>
    obtain ⟨ts', rfl, hrest⟩ := text_goes_on h hopens ih
    rw [Agrees, countPlaceholdersFrom, hrest, counted_mark]
  | case7 c rest hq hd hs hm hc ih =>
    have hclose : c ∈ ['"', '`', ']'] := by rcases hc with rfl | rfl <;> decide
    exact hidentifier (hc.imp_right .inl) hclose hopens (ih h hopens)
  | case8 rest hq hd hs hm hc ih => exact hidentifier (.inr (.inr rfl)) (by decide) hopens (ih h hopens)
  | case9 => cases h
  | case10 c rest hq hd hs hm hc hb hn ih =>
    obtain ⟨ts', rfl, hrest⟩ := text_goes_on h hopens ih
    rw [Agrees, counted_other, ← hrest]
    by_cases hlast : c = '/' ∧ rest = ['*']
    · -- a comment begins with the last two characters, for the count alone
      obtain ⟨rfl, rfl⟩ := hlast
      rfl
    · rw [count_text_cons hq, if_neg hm, Nat.zero_add]
      · intro hdash hhead
        obtain ⟨r, rfl⟩ := List.head?_eq_some_iff.1 hhead
        exact hd r hdash rfl
      · intro hslash hhead
        obtain ⟨r, rfl⟩ := List.head?_eq_some_iff.1 hhead
        cases r with
        | nil => exact hlast ⟨hslash, rfl⟩
        | cons d r => exact hs d r hslash rfl
  | case11 => cases h
  | case12 rest ih => exact (countPlaceholdersFrom.eq_8 '\'' rest).trans (ih h hopens)
  | case13 rest hnext ih =>
    obtain ⟨ts', rfl, hrest⟩ := text_goes_on h hopens ih
    rw [Agrees, countPlaceholdersFrom, hrest, counted_string]
    exact hnext
  | case14 c rest hnext hc ih =>
    rw [Agrees, countPlaceholdersFrom]
    · exact ih h hopens
    · exact hnext
    · exact hc
  | case15 => cases h
  | case16 before c =>
    cases h
    exact ⟨[], [], [], rfl, by rw [List.append_nil], rfl⟩
  | case17 => cases h
  | case18 close before c d rest hc ih =>
    obtain ⟨content, after, ts', hsplit, rfl, hafter⟩ := ih h hopens
    exact ⟨c :: content, after, ts', by rw [hsplit, List.cons_append], by rw [List.append_assoc, List.singleton_append], hafter⟩
  | case19 close before c d rest hc hdoubled ih =>
    obtain ⟨content, after, ts', rfl, rfl, hafter⟩ := ih h hopens
    exact ⟨c :: d :: content, after, ts', rfl, by rw [List.append_assoc, List.cons_append, List.cons_append, List.nil_append], hafter⟩
  | case20 close before c d rest hc hdoubled ih =>
    obtain ⟨ts', rfl, hrest⟩ := text_goes_on h hopens ih
    rw [ne_eq, not_not] at hc
    exact ⟨[], d :: rest, ts', by rw [hc, List.nil_append], by rw [List.append_nil], hrest⟩
  | case21 =>
    cases h
    rfl
  | case22 rest ih =>
    obtain ⟨ts', rfl, hrest⟩ := text_goes_on h hopens ih
    rw [Agrees, countPlaceholdersFrom, if_pos rfl, hrest, counted_comment]
  | case23 c rest hc ih =>
    rw [Agrees, countPlaceholdersFrom, if_neg hc]
    exact ih h hopens
  | case24 => exact fun hnil => absurd rfl hnil
  | case25 before rest ih =>
    intro _
    obtain ⟨ts', rfl, hrest⟩ := text_goes_on h hopens ih
    rw [countPlaceholdersFrom, hrest, counted_comment]
  | case26 before c rest hnext ih =>
    intro _
    cases rest with
    | nil =>
      cases h
      rw [countPlaceholdersFrom, counted_cons (by rintro ⟨⟩), counted_nil, SqlToken.stray, List.getLast?_concat]
      simp
    | cons d rest =>
      rw [countPlaceholdersFrom]
      · exact ih h hopens (List.cons_ne_nil d rest)
      · exact fun hc hd => hnext rest hc (by rw [hd])

/-- In step with the tokenizer, the count comes to the parameters and the stray marks. -/
theorem countPlaceholders_lex {sql : String} {ts : List SqlToken} (h : sqliteTokens sql = some ts) (hopens : ∀ t ∈ ts, ¬ t.Opens) :
    countSqlPlaceholders sql = ts.count .mark + (ts.map SqlToken.stray).sum := by
  unfold sqliteTokens at h
  split at h
  · cases h
  · exact lexFrom_agrees h hopens

/-! ## Exactness -/

structure Sqlite where
  /-- How many parameters a statement has, if it is accepted. -/
  parameters : String → Option Nat
  /-- All parameters of the statement are plain marks. -/
  plain : String → Prop
  lexed : ∀ sql n, parameters sql = some n → plain sql → ∃ ts, sqliteTokens sql = some ts ∧ n = ts.count .mark

def ExactCount (sql : String) (n : Nat) : Prop :=
  countSqlPlaceholders sql = n ∧ ∀ (Value : Type) (params : List Value), validateParams sql params = .ok () ↔ params.length = n

theorem exactCount_iff {sql : String} {n : Nat} : ExactCount sql n ↔ countSqlPlaceholders sql = n := by
  refine ⟨And.left, fun h => ⟨h, fun Value params => ?_⟩⟩
  rw [validateParams, ensure_ok, decide_eq_true_iff, h, eq_comm]

def InStep (sql : String) : Prop := ∀ ts ∈ sqliteTokens sql, ∀ t ∈ ts, ¬ t.Opens

def NoStrayMarks (sql : String) : Prop := ∀ ts ∈ sqliteTokens sql, ∀ t ∈ ts, t.stray = 0

/-- The count is exact where no identifier opens a string or a comment and no mark is astray; and where none opens one, it is
exact only then. -/
theorem placeholders_exact_iff (S : Sqlite) {sql : String} {n : Nat} (h : S.parameters sql = some n) (hplain : S.plain sql) :
    (InStep sql ∧ NoStrayMarks sql → ExactCount sql n) ∧ (InStep sql → ExactCount sql n → NoStrayMarks sql) := by
  obtain ⟨ts, hts, rfl⟩ := S.lexed sql n h hplain
  have hstray : NoStrayMarks sql ↔ (ts.map SqlToken.stray).sum = 0 := by
    rw [NoStrayMarks, hts, List.sum_eq_zero_iff_forall_eq_nat]
    simp
  rw [exactCount_iff, hstray]
  constructor
  · rintro ⟨hstep, hnone⟩
    rw [countPlaceholders_lex hts (hstep ts hts), hnone, Nat.add_zero]
  · intro hstep hexact
    rw [countPlaceholders_lex hts (hstep ts hts)] at hexact
    exact Nat.add_eq_left.1 hexact

def lenientSqlite : Sqlite where
  parameters sql := (sqliteTokens sql).map (List.count .mark)
  plain _ := True
  lexed sql n h _ := by
    obtain ⟨ts, hts, rfl⟩ := Option.map_eq_some_iff.1 h
    exact ⟨ts, hts, rfl⟩

theorem placeholders_exact_iff_comments :
    (InStep "SELECT 'it''s ?' -- ?\nFROM [t] /* ? */ WHERE a = ?" ∧
        NoStrayMarks "SELECT 'it''s ?' -- ?\nFROM [t] /* ? */ WHERE a = ?" →
      ExactCount "SELECT 'it''s ?' -- ?\nFROM [t] /* ? */ WHERE a = ?" 1) ∧
    (InStep "SELECT 'it''s ?' -- ?\nFROM [t] /* ? */ WHERE a = ?" →
      ExactCount "SELECT 'it''s ?' -- ?\nFROM [t] /* ? */ WHERE a = ?" 1 →
      NoStrayMarks "SELECT 'it''s ?' -- ?\nFROM [t] /* ? */ WHERE a = ?") :=
  placeholders_exact_iff lenientSqlite (by decide) trivial

/-- A mark in a quoted identifier is counted. -/
theorem identifier_mark_counted : ¬ ∀ (S : Sqlite) (sql : String) (n : Nat), S.parameters sql = some n → S.plain sql →
    ExactCount sql n := by
  intro h
  have h := (h lenientSqlite "SELECT \"a?\" FROM t" 0 (by decide) trivial).1
  revert h
  decide

end HaexVault.Extension
