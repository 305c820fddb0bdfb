import Mathlib.Data.List.Forall2
import Marmoset.Proofs.TwoReadings

/-! # Semicolons as synchronisation points

A semicolon ends whatever stands before it.  Suppose that tokens are cut off after a semicolon.
Reading the whole and reading what is left go along with each other up to the cut: the only tokens
that the parser moves on from unseen are the last ones of statements, and no construct but a block
goes on after a semicolon.  So unless a block is open at the cut, what is read before it is the
same, and after it the reader of the whole starts anew (`Cut.parseProgram_whole`), whatever errors
there were. -/

namespace Marmoset

/-- Tokens that are cut off after a semicolon: the ones before it, and the ones after it.  The two
ways of reading them may count other lines at the end. -/
structure Cut where
  before : List Token
  semicolon : Token
  rest : List Token
  endLine : Nat
  cutLine : Nat
  isSemicolon : semicolon.kind = .semicolon
  notEof : ∀ t ∈ before, t.kind ≠ .eof

namespace Cut

variable (c : Cut) {ahead : List Token}

/-- The stream of all tokens, where `ahead` is left before the semicolon. -/
def whole (ahead : List Token) : TokenStream :=
  ⟨ahead ++ c.semicolon :: c.rest, c.endLine⟩

/-- The same place in the stream that ends with the semicolon. -/
def short (ahead : List Token) : TokenStream :=
  ⟨ahead ++ [c.semicolon], c.cutLine⟩

theorem current_whole (ahead : List Token) : (c.whole ahead).current = (c.short ahead).current := by
  cases ahead <;> rfl

theorem whole_kind_ne_eof (suffix : ahead <:+ c.before) :
    (c.whole ahead).current.kind ≠ .eof := by
  cases ahead with
  | nil => exact c.isSemicolon ▸ (by decide)
  | cons t ahead => exact c.notEof t (suffix.subset List.mem_cons_self)

/-- Readers of both streams.  They may move on as long as they have not come to the semicolon. -/
def simulation : StreamSimulation where
  Alike s s' := ∃ ahead, ahead <:+ c.before ∧ s = c.whole ahead ∧ s' = c.short ahead
  Open s s' := ∃ t ahead, t :: ahead <:+ c.before ∧ s = c.whole (t :: ahead) ∧
    s' = c.short (t :: ahead)
  SameError := Eq
  braces := ∃ t ∈ c.before, t.kind = .leftBrace
  Excused errors := (∃ t ∈ c.before, t.kind = .leftBrace) ∧ ∃ e ∈ errors, e.cause = .unclosedBlock
  kind_eq := by
    rintro _ _ ⟨ahead, -, rfl, rfl⟩
    rw [c.current_whole]
  literal_eq := by
    rintro _ _ ⟨ahead, -, rfl, rfl⟩
    rw [c.current_whole]
  sameError := by
    rintro _ _ cause ⟨ahead, -, rfl, rfl⟩
    rw [c.current_whole]
  alike := by
    rintro _ _ ⟨t, ahead, suffix, rfl, rfl⟩
    exact ⟨t :: ahead, suffix, rfl, rfl⟩
  advance := by
    rintro _ _ ⟨t, ahead, suffix, rfl, rfl⟩
    exact ⟨ahead, (List.suffix_cons t ahead).trans suffix, rfl, rfl⟩
  open_of_kind_ne := by
    rintro _ _ ⟨_ | ⟨t, ahead⟩, suffix, rfl, rfl⟩ ne
    · exact absurd c.isSemicolon ne
    · exact ⟨t, ahead, suffix, rfl, rfl⟩
  braces_of_kind_eq := by
    rintro _ _ ⟨_ | ⟨t, ahead⟩, suffix, rfl, rfl⟩ brace
    · cases c.isSemicolon.symm.trans brace
    · exact ⟨t, suffix.subset List.mem_cons_self, brace⟩
  open_or_end := by
    rintro _ _ braces ⟨_ | ⟨t, ahead⟩, suffix, rfl, rfl⟩
    · exact .inr ⟨rfl, fun line => ⟨braces, _, List.mem_singleton_self _, rfl⟩⟩
    · exact .inl ⟨t, ahead, suffix, rfl, rfl⟩
  excused_append := by
    rintro before after errors ⟨braces, e, mem, unclosed⟩
    exact ⟨braces, e, by simp [mem], unclosed⟩

theorem eq_of_sameResult {r r' : ParseResult} (same : c.simulation.SameResult r r') : r = r' := by
  obtain ⟨program, errors⟩ := same
  have errors : List.Forall₂ Eq r.errors r'.errors := errors
  rw [List.forall₂_eq_eq_eq] at errors
  exact congrArg₂ ParseResult.mk program errors

/-- With no block open at the cut, reading the whole is reading up to the cut and then the rest. -/
theorem parseProgram_whole (ahead : List Token) (suffix : ahead <:+ c.before)
    (closed : ¬ c.simulation.Excused (parseProgram (c.short ahead)).errors) :
    parseProgram (c.whole ahead) =
      parseProgram (c.short ahead) ++ parseProgram ⟨c.rest, c.endLine⟩ := by
  have notEof := c.whole_kind_ne_eof suffix
  have notEof' : (c.short ahead).current.kind ≠ .eof := c.current_whole ahead ▸ notEof
  have fewer := (Stmt.parse (c.whole ahead)).remaining_le
  rw [parseProgram_eq_append notEof'] at closed ⊢
  rw [parseProgram_eq_append notEof]
  rcases (Stmt.parse_matches c.simulation ⟨ahead, suffix, rfl, rfl⟩).contribution with
    pardoned | ⟨same, next, nextSuffix, stop, stop'⟩
  · exact absurd (c.simulation.excused_append [] _ pardoned) closed
  · rw [c.eq_of_sameResult same, stop, stop']
    rw [stop'] at closed
    rw [stop] at fewer
    cases next with
    | nil =>
        -- the statement ends at the cut
        have atEnd : parseProgram (c.short []).advance = ⟨[], []⟩ := parseProgram_of_eof rfl
        rw [atEnd, ParseResult.append_empty]
        rfl
    | cons t next =>
        have suffix : next <:+ c.before := (List.suffix_cons t next).trans nextSuffix
        have shorter : next.length < ahead.length := by
          simp only [whole, TokenStream.remaining, List.length_append, List.length_cons] at fewer
          omega
        have later : ¬ c.simulation.Excused (parseProgram (c.short next)).errors := by
          intro excused
          have whole := c.simulation.excused_append
            (Stmt.parse (c.short ahead)).contribution.errors [] excused
          rw [List.append_nil] at whole
          exact closed whole
        rw [ParseResult.append_assoc]
        exact congrArg _ (parseProgram_whole next suffix later)
termination_by ahead.length

end Cut

/-- What comes last is on the same line whether or not something stands before it. -/
theorem parseProgram_ofTokens_rest (before rest : List Token) :
    parseProgram ⟨rest, (TokenStream.ofTokens (before ++ rest)).endLine⟩ =
      parseProgram (.ofTokens rest) := by
  cases rest with
  | nil => rw [parseProgram_of_eof rfl, parseProgram_of_eof rfl]
  | cons t rest =>
      have same : (TokenStream.ofTokens (before ++ t :: rest)).endLine =
          (TokenStream.ofTokens (t :: rest)).endLine := by
        rw [TokenStream.ofTokens, TokenStream.ofTokens, List.getLast?_append,
          List.getLast?_eq_some_getLast (List.cons_ne_nil t rest), Option.some_or]
      rw [same]
      rfl

/-- **A semicolon is a synchronisation point of the parser.**  Let tokens before a semicolon have no
opening brace among them, or let them, with the semicolon, be read without errors.  Then what is
read from them and whatever follows is what is read from each part by itself: the statements of the
one and then those of the other, and so the errors. -/
theorem parse_splits_at_semicolon (tokens rest : List Token) (semicolon : Token)
    (isSemicolon : semicolon.kind = .semicolon) (notEof : ∀ t ∈ tokens, t.kind ≠ .eof)
    (closed : (∀ t ∈ tokens, t.kind ≠ .leftBrace) ∨
      (parseProgram (.ofTokens (tokens ++ [semicolon]))).errors = []) :
    parseProgram (.ofTokens (tokens ++ semicolon :: rest)) =
      parseProgram (.ofTokens (tokens ++ [semicolon])) ++ parseProgram (.ofTokens rest) := by
  let c : Cut := ⟨tokens, semicolon, rest,
    (TokenStream.ofTokens (tokens ++ semicolon :: rest)).endLine,
    (TokenStream.ofTokens (tokens ++ [semicolon])).endLine, isSemicolon, notEof⟩
  have unexcused : ¬ c.simulation.Excused (parseProgram (c.short tokens)).errors := by
    rintro ⟨⟨t, mem, brace⟩, e, recorded, -⟩
    rcases closed with none | empty
    · exact none t mem brace
    · exact List.not_mem_nil (empty ▸ recorded)
  have last : parseProgram ⟨rest, c.endLine⟩ = parseProgram (.ofTokens rest) := by
    rw [← parseProgram_ofTokens_rest (tokens ++ [semicolon]) rest, List.append_assoc]
    rfl
  rw [← last]
  exact c.parseProgram_whole tokens List.suffix_rfl unexcused

/-- Of `let 5 + ;` nothing is read but two errors are found, and `x` after it is read.  A function
whose block is closed is read, and the brace after it is found to be wrong. -/
theorem parse_splits_at_semicolon_dropped_statement :
    let semicolon : Token := ⟨.semicolon, ";", 1⟩
    let dropped : List Token := [⟨.letWord, "let", 1⟩, ⟨.integer, "5", 1⟩, ⟨.plus, "+", 1⟩]
    let function : List Token := [⟨.fnWord, "fn", 1⟩, ⟨.leftParen, "(", 1⟩, ⟨.rightParen, ")", 1⟩,
      ⟨.leftBrace, "\x7b", 1⟩, ⟨.integer, "1", 1⟩, semicolon, ⟨.rightBrace, "\x7d", 1⟩]
    (∀ t ∈ dropped, t.kind ≠ .eof) ∧ (∀ t ∈ dropped, t.kind ≠ .leftBrace) ∧
      parseProgram (.ofTokens (dropped ++ semicolon :: [⟨.name, "x", 2⟩])) =
        ⟨[.expr (.name "x")], [⟨.unexpected .name .integer, 1⟩, ⟨.noExpression .semicolon, 1⟩]⟩ ∧
      (∀ t ∈ function, t.kind ≠ .eof) ∧
      (parseProgram (.ofTokens (function ++ [semicolon]))).errors = [] ∧
      parseProgram (.ofTokens (function ++ semicolon :: [⟨.rightBrace, "\x7d", 2⟩])) =
        ⟨[.expr (.function [] [.expr (.integer 1)])], [⟨.noExpression .rightBrace, 2⟩]⟩ := by
  intro semicolon dropped function
  have droppedEof : ∀ t ∈ dropped, t.kind ≠ .eof := by decide
  have droppedBrace : ∀ t ∈ dropped, t.kind ≠ .leftBrace := by decide
  have functionEof : ∀ t ∈ function, t.kind ≠ .eof := by decide
  have functionRead : parseProgram (.ofTokens (function ++ [semicolon])) =
      ⟨[.expr (.function [] [.expr (.integer 1)])], []⟩ := by
    simp only [function, semicolon]
    with_unfolding_all rfl
  have functionErrors : (parseProgram (.ofTokens (function ++ [semicolon]))).errors = [] := by
    rw [functionRead]
  refine ⟨droppedEof, droppedBrace, ?_, functionEof, functionErrors, ?_⟩
  · rw [parse_splits_at_semicolon dropped _ semicolon rfl droppedEof (.inl droppedBrace)]
    simp only [dropped, semicolon]
    with_unfolding_all rfl
  · rw [parse_splits_at_semicolon function _ semicolon rfl functionEof (.inr functionErrors),
      functionRead]
    with_unfolding_all rfl

end Marmoset
