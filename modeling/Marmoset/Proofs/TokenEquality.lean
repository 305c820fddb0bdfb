import Marmoset.Proofs.TwoReadings

/-! # Equal tokens on other lines

Tokens are equal if they have the same kind and the same literal; the line does not count.  The
parser respects this.  If two lists of tokens are equal one by one, both are read to the same program,
and the errors found in them are the same but for their lines (`lines_never_matter`).

More than that, each error is found at the same place in both lists, and it gives the line of the
token there.  To see this, the readers of both lists are followed side by side: they have always moved
on by the same number of tokens (`StreamSimulation.sideBySide`). -/

namespace Marmoset

/-! ### Places in a stream -/

namespace TokenStream

/-- The token at a place of a stream, the end of the input after the last one. -/
def tokenAt (s : TokenStream) (n : Nat) : Token :=
  s.tokens.getD n (Token.atEnd s.endLine)

/-- The stream from a place on. -/
def skip (s : TokenStream) (n : Nat) : TokenStream :=
  { s with tokens := s.tokens.drop n }

variable {s s' : TokenStream}

theorem current_skip (s : TokenStream) (n : Nat) : (s.skip n).current = s.tokenAt n := by
  unfold current skip tokenAt
  rw [List.headD_eq_head?_getD, List.head?_drop, List.getD_eq_getElem?_getD]

theorem advance_skip (s : TokenStream) (n : Nat) : (s.skip n).advance = s.skip (n + 1) := by
  unfold advance skip
  rw [List.tail_drop]

theorem SameTokens.skip (h : s.SameTokens s') (n : Nat) : (s.skip n).SameTokens (s'.skip n) :=
  List.forall₂_drop n h

end TokenStream

/-- The same error, found at the same place of two streams. -/
structure ParseError.FoundAlike (s s' : TokenStream) (e e' : ParseError) : Prop where
  cause_eq : e.cause = e'.cause
  place : ∃ n, e.line = (s.tokenAt n).line ∧ e'.line = (s'.tokenAt n).line

/-! ### Readers side by side -/

/-- The readers of two streams with equal tokens have moved on by the same number of them. -/
def StreamSimulation.sideBySide {s s' : TokenStream} (same : s.SameTokens s') :
    StreamSimulation where
  Alike t t' := ∃ n, t = s.skip n ∧ t' = s'.skip n
  Open t t' := ∃ n, t = s.skip n ∧ t' = s'.skip n
  SameError := ParseError.FoundAlike s s'
  braces := True
  Excused _ := False
  kind_eq := by
    rintro _ _ ⟨n, rfl, rfl⟩
    exact (Token.same_iff.mp (same.skip n).current_same).1
  literal_eq := by
    rintro _ _ ⟨n, rfl, rfl⟩
    exact (Token.same_iff.mp (same.skip n).current_same).2
  sameError := by
    rintro _ _ cause ⟨n, rfl, rfl⟩
    rw [TokenStream.current_skip, TokenStream.current_skip]
    exact ⟨rfl, n, rfl, rfl⟩
  alike h := h
  advance := by
    rintro _ _ ⟨n, rfl, rfl⟩
    exact ⟨n + 1, s.advance_skip n, s'.advance_skip n⟩
  open_of_kind_ne h _ := h
  braces_of_kind_eq _ _ := trivial
  open_or_end _ h := .inl h
  excused_append _ _ _ h := h

/-- **The parser respects the equality of tokens.**  Two lists of tokens that are equal one by one, on
whatever lines, are read to the same program.  Their errors have the same causes in the same order,
each found at the same place in both lists and on the line of the token there.  So one of the lists is
read without errors if and only if the other one is. -/
theorem lines_never_matter {tokens tokens' : List Token}
    (same : List.Forall₂ (fun t t' => t.same t' = true) tokens tokens') :
    let s := TokenStream.ofTokens tokens
    let s' := TokenStream.ofTokens tokens'
    (parseProgram s).program = (parseProgram s').program ∧
      List.Forall₂ (ParseError.FoundAlike s s') (parseProgram s).errors (parseProgram s').errors ∧
      ((parseProgram s).errors = [] ↔ (parseProgram s').errors = []) := by
  intro s s'
  have sameTokens : s.SameTokens s' := same
  obtain ⟨program, errors⟩ := (StreamSimulation.sideBySide sameTokens).sameResult_parseProgram
    id (fun _ => id) ⟨0, rfl, rfl⟩
  have errors : List.Forall₂ (ParseError.FoundAlike s s') (parseProgram s).errors
    (parseProgram s').errors := errors
  refine ⟨program, errors, ?_⟩
  rw [← List.length_eq_zero_iff, ← List.length_eq_zero_iff, errors.length_eq]

/-- In `let 5 ) x` the first error is at `5` and the second one at the parenthesis, whatever their
lines. -/
theorem lines_never_matter_two_errors :
    let tokens : List Token :=
      [⟨.letWord, "let", 1⟩, ⟨.integer, "5", 2⟩, ⟨.rightParen, ")", 2⟩, ⟨.name, "x", 3⟩]
    let tokens' : List Token :=
      [⟨.letWord, "let", 9⟩, ⟨.integer, "5", 4⟩, ⟨.rightParen, ")", 7⟩, ⟨.name, "x", 1⟩]
    List.Forall₂ (fun t t' => t.same t' = true) tokens tokens' ∧
      (parseProgram (.ofTokens tokens)).program = (parseProgram (.ofTokens tokens')).program ∧
      List.Forall₂ (ParseError.FoundAlike (.ofTokens tokens) (.ofTokens tokens'))
        [⟨.unexpected .name .integer, 2⟩, ⟨.noExpression .rightParen, 2⟩]
        [⟨.unexpected .name .integer, 4⟩, ⟨.noExpression .rightParen, 7⟩] := by
  intro tokens tokens'
  have same : List.Forall₂ (fun t t' => t.same t' = true) tokens tokens' :=
    .cons rfl (.cons rfl (.cons rfl (.cons rfl .nil)))
  have errors : (parseProgram (.ofTokens tokens)).errors =
      [⟨.unexpected .name .integer, 2⟩, ⟨.noExpression .rightParen, 2⟩] := by decide +kernel
  have errors' : (parseProgram (.ofTokens tokens')).errors =
      [⟨.unexpected .name .integer, 4⟩, ⟨.noExpression .rightParen, 7⟩] := by decide +kernel
  obtain ⟨program, found, -⟩ := lines_never_matter same
  rw [errors, errors'] at found
  exact ⟨same, program, found⟩

end Marmoset
