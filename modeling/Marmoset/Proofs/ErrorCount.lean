import Marmoset.Proofs.TwoReadings

/-! # How many errors there can be

`Reading s recorded failure t` says what the parser can do between two places, whatever it makes of
the tokens: starting with `s.current` as the first token it ends with `t.current` as the last one, has
recorded errors on the way and may have failed at the end.  `BlockReading s recorded t` says the same
of the statements of a block, where the parser starts again after every failure.  That the parser does
nothing else is proved once (`Stmt.parse_isReading`).

How many errors it records is then a matter of these rules.  A statement is read from a token of its
own and so can pay for its failure with that token; a block that is not closed pays with its opening
brace.  Nothing else records an error, no token is the first of two statements, and an opening brace of
a block is the first of none.  So there are no more errors than tokens (`length_parseProgram_le`). -/

namespace Marmoset

/-! ### What the parser can do -/

mutual

/-- The parser moves from `s` to `t`, records errors on the way, and fails in the end or does not. -/
inductive Reading :
    TokenStream → List ParseError → Option ParseError → TokenStream → Prop
  | stay {s : TokenStream} : Reading s [] none s
  | failHere {s : TokenStream} (cause : ParseError.Cause) :
      Reading s [] (some ⟨cause, s.current.line⟩) s
  | failNext {s : TokenStream} (cause : ParseError.Cause) :
      Reading s [] (some ⟨cause, s.next.line⟩) s
  | move {s t : TokenStream} {recorded : List ParseError} {failure : Option ParseError} :
      Reading s.advance recorded failure t → Reading s recorded failure t
  | andThen {s t u : TokenStream} {recorded recorded' : List ParseError}
      {failure : Option ParseError} :
      Reading s recorded none t → Reading t recorded' failure u →
      Reading s (recorded ++ recorded') failure u
  | braces {s t : TokenStream} {recorded : List ParseError} :
      s.next.kind = .leftBrace → BlockReading s.advance.advance recorded t →
      Reading s recorded none t

/-- The parser moves over the statements of a block, from the token after the opening brace on. -/
inductive BlockReading : TokenStream → List ParseError → TokenStream → Prop
  | closed {s : TokenStream} : s.current.kind = .rightBrace → BlockReading s [] s
  | unclosed {s : TokenStream} : s.current.kind = .eof →
      BlockReading s [⟨.unclosedBlock, s.current.line⟩] s
  | statement {s t u : TokenStream} {recorded recorded' : List ParseError} :
      s.current.kind ≠ .eof → Reading s recorded none t → BlockReading t.advance recorded' u →
      BlockReading s (recorded ++ recorded') u
  | failureAtEnd {s t : TokenStream} {recorded : List ParseError} {e : ParseError} :
      s.current.kind ≠ .eof → Reading s recorded (some e) t → t.current.kind = .rightBrace →
      BlockReading s (recorded ++ [e]) t
  | failure {s t u : TokenStream} {recorded recorded' : List ParseError} {e : ParseError} :
      s.current.kind ≠ .eof → Reading s recorded (some e) t → BlockReading t.advance recorded' u →
      BlockReading s (recorded ++ e :: recorded') u

end

/-! ### Steps of the parser -/

namespace Parsed

variable {α β : Type} {s : TokenStream}

/-- The error that a step fails with. -/
def failure? (p : Parsed s α) : Option ParseError :=
  match p.outcome with
  | .ok _ => none
  | .error e => some e

/-- The step is a reading. -/
def IsReading (p : Parsed s α) : Prop :=
  Reading s p.recorded p.failure? p.stop

theorem isReading_here {a : α} : (here a : Parsed s α).IsReading :=
  .stay

theorem isReading_ok_advance {a : α} {h : s.advance.remaining ≤ s.remaining} :
    (ok a s.advance h : Parsed s α).IsReading :=
  .move .stay

theorem isReading_failHere {cause : ParseError.Cause} :
    (failHere cause : Parsed s α).IsReading :=
  .failHere cause

theorem isReading_expect (kind : TokenKind) (s : TokenStream) : (expect kind s).IsReading := by
  unfold expect
  split
  · exact isReading_ok_advance
  · exact .failNext _

theorem isReading_skipSemicolon (a : α) (s : TokenStream) : (skipSemicolon a s).IsReading := by
  unfold skipSemicolon
  split
  · exact isReading_ok_advance
  · exact isReading_here

theorem IsReading.shift {p : Parsed s.advance α} (h : p.IsReading) : p.shift.IsReading :=
  .move h

theorem failure?_map (p : Parsed s α) (f : α → β) : (p.map f).failure? = p.failure? := by
  unfold failure?
  rw [outcome_map]
  cases p.outcome <;> rfl

theorem IsReading.map {p : Parsed s α} (h : p.IsReading) (f : α → β) : (p.map f).IsReading := by
  unfold IsReading
  rw [failure?_map]
  exact h

theorem IsReading.andThen {p : Parsed s α}
    {f : α → (t : TokenStream) → t.remaining ≤ s.remaining → Parsed t β} (h : p.IsReading)
    (next : ∀ a t ht, (f a t ht).IsReading) : (p.andThen f).IsReading := by
  obtain ⟨outcome, recorded, stop, le⟩ := p
  cases outcome with
  | ok a => exact Reading.andThen h (next a stop le)
  | error e =>
      have whole : (Parsed.andThen ⟨.error e, recorded, stop, le⟩ f).recorded = recorded :=
        List.append_nil recorded
      unfold IsReading
      rw [whole]
      exact h

/-- The step is a reading of a block, which never fails itself. -/
def IsBlockReading (p : Parsed s Block) : Prop :=
  BlockReading s p.recorded p.stop ∧ p.failure? = none

section Lists

variable {closing : TokenKind} {n : Nat} {item : (t : TokenStream) → t.remaining < n → Parsed t α}

theorem isReading_moreItems (items : ∀ t ht, (item t ht).IsReading) (s : TokenStream)
    (h : s.remaining ≤ n) : (moreItems closing n item s h).IsReading := by
  rw [moreItems]
  split
  · next comma =>
    have fewer := s.remaining_advance_advance_lt (by rw [comma]; decide)
    refine ((items _ _).andThen fun first t ht => ?_).shift.shift
    exact (isReading_moreItems items t _).map _
  · exact (isReading_expect closing s).map _
termination_by s.remaining

theorem isReading_items (items : ∀ t ht, (item t ht).IsReading) (h : s.advance.remaining < n) :
    (Parsed.items closing n item s h).IsReading := by
  unfold Parsed.items
  split
  · exact isReading_ok_advance
  · refine ((items _ _).andThen fun first t ht => ?_).shift
    exact (isReading_moreItems items t _).map _

end Lists

theorem isReading_parameters (s : TokenStream) : (parameters s).IsReading := by
  refine isReading_items (fun t _ => ?_) _
  unfold bareName
  split
  · exact isReading_here
  · exact isReading_failHere

end Parsed

open Parsed TokenStream

mutual

theorem Expr.parse_isReading (p : Precedence) (s : TokenStream) : (Expr.parse p s).IsReading := by
  rw [Expr.parse]
  exact (Expr.parsePrimary_isReading s).andThen fun left t _ => Expr.parseOperators_isReading p left t
termination_by 5 * s.remaining + 2

theorem Expr.parsePrimary_isReading (s : TokenStream) : (Expr.parsePrimary s).IsReading := by
  rw [Expr.parsePrimary]
  split
  · exact isReading_failHere
  · next notEof =>
    have pos : 0 < s.remaining := remaining_pos notEof
    split
    · exact isReading_here
    · split
      · exact isReading_here
      · exact isReading_failHere
    · exact isReading_here
    · exact isReading_here
    · exact isReading_here
    · exact ((Expr.parse_isReading .unary s.advance).map _).shift
    · exact ((Expr.parse_isReading .unary s.advance).map _).shift
    · refine ((Expr.parse_isReading .lowest s.advance).andThen fun inner t _ => ?_).shift
      exact (isReading_expect .rightParen t).map _
    · refine ((Expr.parse_isReading .lowest s.advance).andThen fun condition t _ => ?_).shift
      refine (Stmt.parseBraces_isReading t).andThen fun consequence u _ => ?_
      split
      · exact ((Stmt.parseBraces_isReading u.advance).map _).shift
      · exact isReading_here
    · refine (isReading_expect .leftParen s).andThen fun _ t _ => ?_
      refine (isReading_parameters t).andThen fun parameters u _ => ?_
      exact (Stmt.parseBraces_isReading u).map _
    · exact (isReading_items (fun t ht => Expr.parse_isReading .lowest t) _).map _
    · exact (isReading_items (fun t ht => Expr.parsePair_isReading t) _).map _
    · exact isReading_failHere
termination_by 5 * s.remaining + 1
decreasing_by all_goals ((try simp only [remaining_advance] at *); omega)

theorem Expr.parsePair_isReading (s : TokenStream) : (Expr.parsePair s).IsReading := by
  rw [Expr.parsePair]
  refine (Expr.parse_isReading .lowest s).andThen fun key u _ => ?_
  refine (isReading_expect .colon u).andThen fun _ v _ => ?_
  exact ((Expr.parse_isReading .lowest v.advance).map _).shift
termination_by 5 * s.remaining + 3
decreasing_by all_goals ((try simp only [remaining_advance] at *); omega)

theorem Expr.parseOperators_isReading (p : Precedence) (left : Expr) (s : TokenStream) :
    (Expr.parseOperators p left s).IsReading := by
  rw [Expr.parseOperators]
  split
  · next tighter =>
    have fewer := s.remaining_advance_advance_lt (Precedence.ne_eof_of_lt tighter)
    split
    · refine IsReading.shift (IsReading.andThen (isReading_items ?_ fewer) ?_)
      · exact fun t _ => Expr.parse_isReading .lowest t
      · exact fun arguments t _ => Expr.parseOperators_isReading p _ t
    · refine ((Expr.parse_isReading .lowest s.advance.advance).andThen
        fun position t _ => ?_).shift.shift
      refine (isReading_expect .rightBracket t).andThen fun _ u _ => ?_
      exact Expr.parseOperators_isReading p _ u
    · split
      · refine ((Expr.parse_isReading _ s.advance.advance).andThen fun right t _ => ?_).shift.shift
        exact Expr.parseOperators_isReading p _ t
      · exact isReading_here
  · exact isReading_here
termination_by 5 * s.remaining
decreasing_by all_goals ((try simp only [remaining_advance] at *); omega)

theorem Stmt.parseBraces_isReading (s : TokenStream) : (Stmt.parseBraces s).IsReading := by
  rw [Stmt.parseBraces]
  unfold expect
  split
  · next opening =>
    obtain ⟨block, unfailing⟩ := Stmt.parseBlock_isReading s.advance.advance
    show Reading s (Stmt.parseBlock s.advance.advance).recorded
      (Stmt.parseBlock s.advance.advance).failure? _
    rw [unfailing]
    exact .braces opening block
  · exact Reading.failNext _
termination_by 5 * s.advance.remaining + 5
decreasing_by all_goals ((try simp only [remaining_advance] at *); omega)

theorem Stmt.parseBlock_isReading (s : TokenStream) : (Stmt.parseBlock s).IsBlockReading := by
  rw [Stmt.parseBlock]
  split
  · next closed => exact ⟨.closed closed, rfl⟩
  split
  · next heof => exact ⟨.unclosed heof, rfl⟩
  · next notEof =>
    have pos : 0 < s.remaining := remaining_pos notEof
    have first := Stmt.parse_isReading s
    rcases parsed : Stmt.parse s with ⟨outcome, recorded, t, le⟩
    rw [parsed] at first
    obtain ⟨rest, unfailing⟩ := Stmt.parseBlock_isReading t.advance
    cases outcome with
    | ok statement =>
        refine ⟨.statement notEof first rest, ?_⟩
        show ((Stmt.parseBlock t.advance).map (statement :: ·)).failure? = none
        rw [failure?_map, unfailing]
    | error e =>
        by_cases closed : t.current.kind = .rightBrace
        · simp only [resume, if_pos closed]
          exact ⟨.failureAtEnd notEof first closed, rfl⟩
        · simp only [resume, if_neg closed]
          exact ⟨.failure notEof first rest, unfailing⟩
termination_by 5 * s.remaining + 4
decreasing_by all_goals ((try simp only [remaining_advance] at *); omega)

theorem Stmt.parse_isReading (s : TokenStream) : (Stmt.parse s).IsReading := by
  rw [Stmt.parse]
  split
  · next isLet =>
    have pos : 0 < s.remaining := remaining_pos (by rw [isLet]; decide)
    refine (isReading_expect .name s).andThen fun _ t _ => ?_
    refine (isReading_expect .assign t).andThen fun _ u _ => ?_
    refine ((Expr.parse_isReading .lowest u.advance).andThen fun value v _ => ?_).shift
    exact isReading_skipSemicolon _ v
  · split
    · next isReturn =>
      have pos : 0 < s.remaining := remaining_pos (by rw [isReturn]; decide)
      refine ((Expr.parse_isReading .lowest s.advance).andThen fun value t _ => ?_).shift
      exact isReading_skipSemicolon _ t
    · refine (Expr.parse_isReading .lowest s).andThen fun value t _ => ?_
      exact isReading_skipSemicolon _ t
termination_by 5 * s.remaining + 3
decreasing_by all_goals ((try simp only [remaining_advance] at *); omega)

end

/-! ### Counting -/

mutual

/-- The errors of a reading and the tokens after it are no more than the tokens after its first. -/
theorem Reading.length_le {s t : TokenStream} {recorded : List ParseError}
    {failure : Option ParseError} (h : Reading s recorded failure t) :
    recorded.length + t.advance.remaining ≤ s.advance.remaining := by
  match h with
  | .stay | .failHere _ | .failNext _ => simp
  | .move later =>
      have ih := later.length_le
      have fewer := s.advance.remaining_advance_le
      omega
  | .andThen first second =>
      have ih := first.length_le
      have ih' := second.length_le
      rw [List.length_append]
      omega
  | .braces opening block =>
      have ih := block.length_le
      have brace := one_lt_remaining (by rw [opening]; decide)
      simp only [remaining_advance] at ih ⊢
      omega

/-- A block may record one error more than it has tokens, since its opening brace is not counted. -/
theorem BlockReading.length_le {s t : TokenStream} {recorded : List ParseError}
    (h : BlockReading s recorded t) :
    recorded.length + t.advance.remaining ≤ s.remaining + 1 := by
  match h with
  | .closed _ =>
      have fewer := s.remaining_advance_le
      simp only [List.length_nil]
      omega
  | .unclosed _ =>
      have fewer := s.remaining_advance_le
      simp only [List.length_singleton]
      omega
  | .statement notEof first rest =>
      have ih := first.length_le
      have ih' := rest.length_le
      have pos := remaining_pos notEof
      rw [remaining_advance s] at ih
      rw [List.length_append]
      omega
  | .failureAtEnd notEof first closed =>
      have ih := first.length_le
      have pos := remaining_pos notEof
      rw [remaining_advance s] at ih
      simp only [List.length_append, List.length_singleton]
      omega
  | .failure notEof first rest =>
      have ih := first.length_le
      have ih' := rest.length_le
      have pos := remaining_pos notEof
      rw [remaining_advance s] at ih
      simp only [List.length_append, List.length_cons]
      omega

end

/-- Every statement of a program and every error takes a token. -/
theorem length_parseProgram_le (s : TokenStream) :
    (parseProgram s).program.length + (parseProgram s).errors.length ≤ s.remaining := by
  by_cases heof : s.current.kind = .eof
  · rw [parseProgram_of_eof heof]
    exact Nat.zero_le _
  · have pos := remaining_pos heof
    have le := (Stmt.parse s).remaining_le
    have first := (Stmt.parse_isReading s).length_le
    have rest := length_parseProgram_le (Stmt.parse s).stop.advance
    rw [remaining_advance s] at first
    rw [parseProgram_of_ne_eof heof]
    cases (Stmt.parse s).outcome with
    | ok statement =>
        simp only [List.length_cons, List.length_append]
        omega
    | error e =>
        simp only [List.length_cons, List.length_append]
        omega
termination_by s.remaining
decreasing_by rw [remaining_advance]; omega

end Marmoset
