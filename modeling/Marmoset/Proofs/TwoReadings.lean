import Mathlib.Data.List.Forall2
import Marmoset.Proofs.ParserSound

/-! # Two readings side by side

What changes in a reading if something is changed in the tokens?  A `StreamSimulation` relates the
places of two readers.  Places can be alike, which is that the current tokens look the same and
errors there are counted as the same; and the readers may move on from places that are open, to
places that are alike.  Only a place at a semicolon can be alike without being open, and there is
one place where the parser moves on from such a token: between the statements of a block.  Then the
second reader must be at the end of the input, finds that the block is not closed and is excused for
it.

`Parsed.Matches` compares two steps, each way of making steps keeps it, and so it holds of the
parser from alike places (`Stmt.parse_matches`): the induction over the parser is done here once for
all comparisons.  The first one is that of tokens on other lines (`parseProgram_of_same_tokens`). -/

namespace Marmoset

/-- Places of two readers that can be compared. -/
structure StreamSimulation where
  /-- The current tokens look the same. -/
  Alike : TokenStream → TokenStream → Prop
  /-- The readers may move on. -/
  Open : TokenStream → TokenStream → Prop
  SameError : ParseError → ParseError → Prop
  /-- There is a brace that a block could begin with. -/
  braces : Prop
  /-- What the second reader may record instead of going along with the first. -/
  Excused : List ParseError → Prop
  kind_eq : ∀ {s s'}, Alike s s' → s.current.kind = s'.current.kind
  literal_eq : ∀ {s s'}, Alike s s' → s.current.literal = s'.current.literal
  sameError : ∀ {s s'} cause, Alike s s' →
    SameError ⟨cause, s.current.line⟩ ⟨cause, s'.current.line⟩
  alike : ∀ {s s'}, Open s s' → Alike s s'
  advance : ∀ {s s'}, Open s s' → Alike s.advance s'.advance
  open_of_kind_ne : ∀ {s s'}, Alike s s' → s.current.kind ≠ .semicolon → Open s s'
  braces_of_kind_eq : ∀ {s s'}, Alike s s' → s.current.kind = .leftBrace → braces
  open_or_end : ∀ {s s'}, braces → Alike s s' →
    Open s s' ∨ s'.advance.current.kind = .eof ∧ ∀ line, Excused [⟨.unclosedBlock, line⟩]
  excused_append : ∀ before after {errors}, Excused errors → Excused (before ++ errors ++ after)

namespace StreamSimulation

variable (R : StreamSimulation) {s s' : TokenStream}

theorem next_kind_eq (h : R.Open s s') : s.next.kind = s'.next.kind :=
  R.kind_eq (R.advance h)

theorem open_advance (h : R.Open s s') (ne : s.next.kind ≠ .semicolon) :
    R.Open s.advance s'.advance :=
  R.open_of_kind_ne (R.advance h) ne

end StreamSimulation

/-! ### Steps that match -/

namespace Parsed

variable {α β : Type} {s s' : TokenStream} {R : StreamSimulation}
  {Stop Stop' : TokenStream → TokenStream → Prop}

/-- Two steps give the same value at places related by `Stop`, or the same error at places that are
alike, and record the same errors; or else the second records something that it is excused for. -/
inductive Matches (R : StreamSimulation) (Stop : TokenStream → TokenStream → Prop)
    (p : Parsed s α) (p' : Parsed s' α) : Prop
  | excused : R.Excused p'.recorded → Matches R Stop p p'
  | ok {a : α} : p.outcome = .ok a → p'.outcome = .ok a →
      List.Forall₂ R.SameError p.recorded p'.recorded → Stop p.stop p'.stop → Matches R Stop p p'
  | error {e e' : ParseError} : p.outcome = .error e → p'.outcome = .error e' → R.SameError e e' →
      List.Forall₂ R.SameError p.recorded p'.recorded → R.Alike p.stop p'.stop → Matches R Stop p p'

namespace Matches

theorem mono {p : Parsed s α} {p' : Parsed s' α} (h : Matches R Stop p p')
    (imp : ∀ t t', Stop t t' → Stop' t t') : Matches R Stop' p p' := by
  cases h with
  | excused pardoned => exact .excused pardoned
  | ok value value' recorded stop => exact .ok value value' recorded (imp _ _ stop)
  | error failed failed' same recorded stop => exact .error failed failed' same recorded stop

theorem ok_ok {a : α} {t t' : TokenStream} {h : t.remaining ≤ s.remaining}
    {h' : t'.remaining ≤ s'.remaining} (stop : Stop t t') :
    Matches R Stop (Parsed.ok a t h : Parsed s α) (Parsed.ok a t' h' : Parsed s' α) :=
  .ok rfl rfl .nil stop

theorem here {a : α} (stop : Stop s s') :
    Matches R Stop (Parsed.here a : Parsed s α) (Parsed.here a : Parsed s' α) :=
  ok_ok stop

theorem fail {e e' : ParseError} {t t' : TokenStream} {h : t.remaining ≤ s.remaining}
    {h' : t'.remaining ≤ s'.remaining} (same : R.SameError e e') (alike : R.Alike t t') :
    Matches R Stop (Parsed.fail e t h : Parsed s α) (Parsed.fail e' t' h' : Parsed s' α) :=
  .error rfl rfl same .nil alike

theorem failHere {cause : ParseError.Cause} (start : R.Alike s s') :
    Matches R Stop (Parsed.failHere cause : Parsed s α) (Parsed.failHere cause : Parsed s' α) :=
  fail (R.sameError cause start) start

/-- The readers stop at a token of the expected kind. -/
theorem expect_at {kind : TokenKind} (ne : kind ≠ .semicolon) (start : R.Open s s') :
    Matches R (fun t t' => R.Open t t' ∧ t.current.kind = kind) (Parsed.expect kind s)
      (Parsed.expect kind s') := by
  unfold Parsed.expect
  rw [← R.next_kind_eq start]
  split
  · next found => exact ok_ok ⟨R.open_advance start (found ▸ ne), found⟩
  · exact fail (R.sameError _ (R.advance start)) (R.alike start)

theorem expect {kind : TokenKind} (ne : kind ≠ .semicolon) (start : R.Open s s') :
    Matches R R.Open (Parsed.expect kind s) (Parsed.expect kind s') :=
  (expect_at ne start).mono fun _ _ => And.left

theorem skipSemicolon {a : α} (start : R.Open s s') :
    Matches R R.Alike (Parsed.skipSemicolon a s) (Parsed.skipSemicolon a s') := by
  unfold Parsed.skipSemicolon
  rw [← R.next_kind_eq start]
  split
  · exact ok_ok (R.advance start)
  · exact here (R.alike start)

theorem since {t t' : TokenStream} {p : Parsed t α} {p' : Parsed t' α} (h : Matches R Stop p p')
    (le : t.remaining ≤ s.remaining) (le' : t'.remaining ≤ s'.remaining) :
    Matches R Stop (p.since le) (p'.since le') := by
  cases h with
  | excused pardoned => exact .excused pardoned
  | ok value value' recorded stop => exact .ok value value' recorded stop
  | error failed failed' same recorded stop => exact .error failed failed' same recorded stop

theorem shift {p : Parsed s.advance α} {p' : Parsed s'.advance α} (h : Matches R Stop p p') :
    Matches R Stop p.shift p'.shift :=
  h.since _ _

theorem map {p : Parsed s α} {p' : Parsed s' α} (h : Matches R Stop p p') (f : α → β) :
    Matches R Stop (p.map f) (p'.map f) := by
  cases h with
  | excused pardoned => exact .excused pardoned
  | @ok a value value' recorded stop =>
      have value : (p.map f).outcome = .ok (f a) := by
        rw [outcome_map, value]
        rfl
      have value' : (p'.map f).outcome = .ok (f a) := by
        rw [outcome_map, value']
        rfl
      exact .ok value value' recorded stop
  | @error e e' failed failed' same recorded stop =>
      have failed : (p.map f).outcome = .error e := by
        rw [outcome_map, failed]
        rfl
      have failed' : (p'.map f).outcome = .error e' := by
        rw [outcome_map, failed']
        rfl
      exact .error failed failed' same recorded stop

theorem after {p : Parsed s α} {p' : Parsed s' α} {errors errors' : List ParseError}
    (same : List.Forall₂ R.SameError errors errors') (h : Matches R Stop p p') :
    Matches R Stop (p.after errors) (p'.after errors') := by
  cases h with
  | excused pardoned =>
      have whole := R.excused_append errors' [] pardoned
      rw [List.append_nil] at whole
      exact .excused whole
  | ok value value' recorded stop =>
      exact .ok value value' (List.rel_append same recorded) stop
  | error failed failed' sameError recorded stop =>
      exact .error failed failed' sameError (List.rel_append same recorded) stop

/-- Going on after steps that match, from where they stopped with a value or with an error. -/
theorem resume {p : Parsed s α} {p' : Parsed s' α}
    {f : Except ParseError α → (t : TokenStream) → t.remaining ≤ s.remaining → Parsed t β}
    {f' : Except ParseError α → (t : TokenStream) → t.remaining ≤ s'.remaining → Parsed t β}
    (h : Matches R Stop p p')
    (onOk : ∀ a t t' le le', Stop t t' → Matches R Stop' (f (.ok a) t le) (f' (.ok a) t' le'))
    (onError : ∀ e e' t t' le le', R.SameError e e' → R.Alike t t' →
      Matches R Stop' (f (.error e) t le) (f' (.error e') t' le')) :
    Matches R Stop' (p.resume f) (p'.resume f') := by
  obtain ⟨outcome, recorded, stop, le⟩ := p
  obtain ⟨outcome', recorded', stop', le'⟩ := p'
  cases h with
  | excused pardoned => exact .excused (R.excused_append [] _ pardoned)
  | @ok a value value' errors place =>
      cases value
      cases value'
      exact .after errors (.since (onOk a stop stop' le le' place) le le')
  | @error e e' failed failed' same errors place =>
      cases failed
      cases failed'
      exact .after errors (.since (onError e e' stop stop' le le' same place) le le')

theorem andThen {p : Parsed s α} {p' : Parsed s' α}
    {f : α → (t : TokenStream) → t.remaining ≤ s.remaining → Parsed t β}
    {f' : α → (t : TokenStream) → t.remaining ≤ s'.remaining → Parsed t β}
    (h : Matches R Stop p p')
    (next : ∀ a t t' le le', Stop t t' → Matches R Stop' (f a t le) (f' a t' le')) :
    Matches R Stop' (p.andThen f) (p'.andThen f') :=
  h.resume next fun _ _ _ _ _ _ same alike => fail same alike

/-! ### Lists -/

section Lists

variable {closing : TokenKind} {n n' : Nat}
  {item : (t : TokenStream) → t.remaining < n → Parsed t α}
  {item' : (t : TokenStream) → t.remaining < n' → Parsed t α}

theorem moreItems (ne : closing ≠ .semicolon)
    (items : ∀ t t' lt lt', R.Alike t t' → Matches R R.Open (item t lt) (item' t' lt'))
    {s s' : TokenStream} (start : R.Open s s') (le : s.remaining ≤ n) (le' : s'.remaining ≤ n') :
    Matches R R.Open (Parsed.moreItems closing n item s le)
      (Parsed.moreItems closing n' item' s' le') := by
  rw [Parsed.moreItems, Parsed.moreItems]
  by_cases comma : s.next.kind = .comma
  · have comma' : s'.next.kind = .comma := R.next_kind_eq start ▸ comma
    have fewer := s.remaining_advance_advance_lt (by rw [comma]; decide)
    have place := R.open_advance start (by rw [comma]; decide)
    rw [dif_pos comma, dif_pos comma']
    refine .shift (.shift ((items _ _ _ _ (R.advance place)).andThen ?_))
    intro first t t' le le' stop
    exact (moreItems ne items stop _ _).map _
  · have comma' : ¬ s'.next.kind = .comma := R.next_kind_eq start ▸ comma
    rw [dif_neg comma, dif_neg comma']
    exact (expect ne start).map _
termination_by s.remaining

theorem items (ne : closing ≠ .semicolon)
    (items : ∀ t t' lt lt', R.Alike t t' → Matches R R.Open (item t lt) (item' t' lt'))
    (start : R.Open s s') (lt : s.advance.remaining < n) (lt' : s'.advance.remaining < n') :
    Matches R R.Open (Parsed.items closing n item s lt) (Parsed.items closing n' item' s' lt') := by
  unfold Parsed.items
  rw [← R.next_kind_eq start]
  split
  · next found => exact ok_ok (R.open_advance start (found ▸ ne))
  · refine .shift ((items _ _ _ _ (R.advance start)).andThen ?_)
    intro first t t' le le' stop
    exact (moreItems ne items stop _ _).map _

end Lists

theorem bareName (start : R.Alike s s') :
    Matches R R.Open (Parsed.bareName s) (Parsed.bareName s') := by
  unfold Parsed.bareName
  rw [← R.kind_eq start, ← R.literal_eq start]
  split
  · next found => exact here (R.open_of_kind_ne start (by rw [found]; decide))
  · exact failHere start

theorem parameters (start : R.Open s s') :
    Matches R R.Open (Parsed.parameters s) (Parsed.parameters s') :=
  items (by decide) (fun _ _ _ _ alike => bareName alike) start _ _

end Matches

end Parsed

/-! ### Expressions and statements -/

open Parsed TokenStream

/-- A semicolon does not go on an expression. -/
theorem Precedence.ne_semicolon_of_lt {p : Precedence} {kind : TokenKind} (h : p < ofKind kind) :
    kind ≠ .semicolon := by
  rintro rfl
  exact not_lt_lowest p h

/-- A block that has come to the end of the input records that it is not closed. -/
theorem Stmt.parseBlock_excused {R : StreamSimulation} {s : TokenStream}
    (heof : s.current.kind = .eof) (excused : ∀ line, R.Excused [⟨.unclosedBlock, line⟩]) :
    R.Excused (Stmt.parseBlock s).recorded := by
  rw [Stmt.parseBlock, if_neg (by rw [heof]; decide), dif_pos heof]
  exact excused _

mutual

theorem Expr.parse_matches (R : StreamSimulation) (p : Precedence) {s s' : TokenStream}
    (start : R.Alike s s') : Matches R R.Open (Expr.parse p s) (Expr.parse p s') := by
  rw [Expr.parse, Expr.parse]
  refine (Expr.parsePrimary_matches R start).andThen fun left t t' le le' stop => ?_
  exact Expr.parseOperators_matches R p left stop
termination_by 5 * s.remaining + 2

theorem Expr.parsePrimary_matches (R : StreamSimulation) {s s' : TokenStream}
    (start : R.Alike s s') : Matches R R.Open (Expr.parsePrimary s) (Expr.parsePrimary s') := by
  suffices bykind : ∀ kind, s.current.kind = kind →
      Matches R R.Open (Expr.parsePrimary s) (Expr.parsePrimary s') from bykind _ rfl
  intro kind found
  have found' : s'.current.kind = kind := R.kind_eq start ▸ found
  -- the kinds that an expression starts with, and no others, are moved on from
  have place (ne : kind ≠ .semicolon) : R.Open s s' := R.open_of_kind_ne start (found ▸ ne)
  rw [Expr.parsePrimary, Expr.parsePrimary, ← R.literal_eq start]
  by_cases heof : kind = .eof
  · subst heof
    rw [dif_pos found, dif_pos found']
    exact .failHere start
  · have pos : 0 < s.remaining := remaining_pos (found ▸ heof)
    rw [dif_neg (found ▸ heof), dif_neg (found' ▸ heof)]
    simp only [found, found']
    cases kind with
    | name | text | trueWord | falseWord => exact .here (place (by decide))
    | integer =>
        dsimp only
        split
        · exact .here (place (by decide))
        · exact .failHere start
    | bang | minus =>
        exact ((Expr.parse_matches R .unary (R.advance (place (by decide)))).map _).shift
    | leftParen =>
        refine .shift ((Expr.parse_matches R .lowest (R.advance (place (by decide)))).andThen ?_)
        intro inner t t' le le' stop
        exact (Matches.expect (by decide) stop).map _
    | ifWord =>
        refine .shift ((Expr.parse_matches R .lowest (R.advance (place (by decide)))).andThen ?_)
        intro condition t t' le le' stop
        refine (Stmt.parseBraces_matches R stop).andThen fun consequence u u' le le' stop => ?_
        rw [← R.next_kind_eq stop]
        split
        · next hasElse =>
          have place := R.open_advance stop (by rw [hasElse]; decide)
          exact ((Stmt.parseBraces_matches R place).map _).shift
        · exact .here stop
    | fnWord =>
        refine (Matches.expect (by decide) (place (by decide))).andThen fun _ t t' le le' stop => ?_
        refine (Matches.parameters stop).andThen fun parameters u u' le le' stop => ?_
        exact (Stmt.parseBraces_matches R stop).map _
    | leftBracket =>
        refine .map (Matches.items (by decide) ?_ (place (by decide)) _ _) _
        exact fun t t' lt lt' alike => Expr.parse_matches R .lowest alike
    | leftBrace =>
        refine .map (Matches.items (by decide) ?_ (place (by decide)) _ _) _
        exact fun t t' lt lt' alike => Expr.parsePair_matches R alike
    | _ => exact .failHere start
termination_by 5 * s.remaining + 1
decreasing_by all_goals ((try simp only [remaining_advance] at *); omega)

theorem Expr.parsePair_matches (R : StreamSimulation) {s s' : TokenStream} (start : R.Alike s s') :
    Matches R R.Open (Expr.parsePair s) (Expr.parsePair s') := by
  rw [Expr.parsePair, Expr.parsePair]
  refine (Expr.parse_matches R .lowest start).andThen fun key u u' le le' stop => ?_
  refine (Matches.expect (by decide) stop).andThen fun _ v v' le le' stop => ?_
  exact ((Expr.parse_matches R .lowest (R.advance stop)).map _).shift
termination_by 5 * s.remaining + 3
decreasing_by all_goals ((try simp only [remaining_advance] at *); omega)

theorem Expr.parseOperators_matches (R : StreamSimulation) (p : Precedence) (left : Expr)
    {s s' : TokenStream} (start : R.Open s s') :
    Matches R R.Open (Expr.parseOperators p left s) (Expr.parseOperators p left s') := by
  have kinds := R.next_kind_eq start
  rw [Expr.parseOperators, Expr.parseOperators]
  by_cases tighter : p < Precedence.ofKind s.next.kind
  · -- the next token goes on the expression, so it is one that the readers may move on from
    have place := R.open_advance start (Precedence.ne_semicolon_of_lt tighter)
    have fewer := s.remaining_advance_advance_lt (Precedence.ne_eof_of_lt tighter)
    rw [dif_pos tighter, dif_pos (kinds ▸ tighter)]
    simp only [← kinds]
    split
    · refine .shift ((Matches.items (by decide) ?_ place _ _).andThen ?_)
      · exact fun t t' lt lt' alike => Expr.parse_matches R .lowest alike
      · exact fun arguments t t' le le' stop => Expr.parseOperators_matches R p _ stop
    · refine .shift (.shift ((Expr.parse_matches R .lowest (R.advance place)).andThen ?_))
      intro position t t' le le' stop
      refine (Matches.expect (by decide) stop).andThen fun _ u u' le le' stop => ?_
      exact Expr.parseOperators_matches R p _ stop
    · split
      · refine .shift (.shift ((Expr.parse_matches R _ (R.advance place)).andThen ?_))
        exact fun right t t' le le' stop => Expr.parseOperators_matches R p _ stop
      · exact .here start
  · rw [dif_neg tighter, dif_neg (kinds ▸ tighter)]
    exact .here start
termination_by 5 * s.remaining
decreasing_by all_goals ((try simp only [remaining_advance] at *); omega)

theorem Stmt.parseBraces_matches (R : StreamSimulation) {s s' : TokenStream}
    (start : R.Open s s') : Matches R R.Open (Stmt.parseBraces s) (Stmt.parseBraces s') := by
  rw [Stmt.parseBraces, Stmt.parseBraces]
  refine (Matches.expect_at (by decide) start).andThen fun _ t t' le le' stop => ?_
  have braces := R.braces_of_kind_eq (R.alike stop.1) stop.2
  exact (Stmt.parseBlock_matches R braces (R.advance stop.1)).shift
termination_by 5 * s.advance.remaining + 5
decreasing_by all_goals ((try simp only [remaining_advance] at *); omega)

theorem Stmt.parseBlock_matches (R : StreamSimulation) (braces : R.braces) {s s' : TokenStream}
    (start : R.Alike s s') : Matches R R.Open (Stmt.parseBlock s) (Stmt.parseBlock s') := by
  have kinds := R.kind_eq start
  rw [Stmt.parseBlock, Stmt.parseBlock]
  by_cases closed : s.current.kind = .rightBrace
  · have closed' : s'.current.kind = .rightBrace := kinds ▸ closed
    rw [if_pos closed, if_pos closed']
    exact .here (R.open_of_kind_ne start (by rw [closed]; decide))
  · have notClosed' : s'.current.kind ≠ .rightBrace := kinds ▸ closed
    rw [if_neg closed, if_neg notClosed']
    by_cases heof : s.current.kind = .eof
    · have heof' : s'.current.kind = .eof := kinds ▸ heof
      rw [dif_pos heof, dif_pos heof']
      refine .after (.cons (R.sameError _ start) .nil) (.here ?_)
      exact R.open_of_kind_ne start (by rw [heof]; decide)
    · have notEof' : s'.current.kind ≠ .eof := kinds ▸ heof
      rw [dif_neg heof, dif_neg notEof']
      have pos : 0 < s.remaining := remaining_pos heof
      refine (Stmt.parse_matches R start).resume ?_ ?_
      · intro statement t t' le le' stop
        exact ((Stmt.parseBlock_matches_rest R braces stop).map _).shift
      · intro e e' t t' le le' same stop
        refine .after (.cons same .nil) ?_
        rw [← R.kind_eq stop]
        split
        · next found => exact .here (R.open_of_kind_ne stop (by rw [found]; decide))
        · exact (Stmt.parseBlock_matches_rest R braces stop).shift
termination_by 5 * s.remaining + 4
decreasing_by all_goals ((try simp only [remaining_advance] at *); omega)

/-- Between two statements of a block the readers may be where only the first can move on. -/
theorem Stmt.parseBlock_matches_rest (R : StreamSimulation) (braces : R.braces)
    {s s' : TokenStream} (start : R.Alike s s') :
    Matches R R.Open (Stmt.parseBlock s.advance) (Stmt.parseBlock s'.advance) := by
  rcases R.open_or_end braces start with place | ⟨heof, excused⟩
  · exact Stmt.parseBlock_matches R braces (R.advance place)
  · exact .excused (Stmt.parseBlock_excused heof excused)
termination_by 5 * s.advance.remaining + 5
decreasing_by all_goals ((try simp only [remaining_advance] at *); omega)

theorem Stmt.parse_matches (R : StreamSimulation) {s s' : TokenStream} (start : R.Alike s s') :
    Matches R R.Alike (Stmt.parse s) (Stmt.parse s') := by
  have kinds := R.kind_eq start
  rw [Stmt.parse, Stmt.parse]
  by_cases isLet : s.current.kind = .letWord
  · have isLet' : s'.current.kind = .letWord := kinds ▸ isLet
    have pos : 0 < s.remaining := remaining_pos (by rw [isLet]; decide)
    have place := R.open_of_kind_ne start (by rw [isLet]; decide)
    rw [dif_pos isLet, dif_pos isLet']
    refine (Matches.expect (by decide) place).andThen fun _ t t' le le' stop => ?_
    rw [← R.literal_eq (R.alike stop)]
    refine (Matches.expect (by decide) stop).andThen fun _ u u' le le' stop => ?_
    refine .shift ((Expr.parse_matches R .lowest (R.advance stop)).andThen ?_)
    exact fun value v v' le le' stop => .skipSemicolon stop
  · have notLet' : s'.current.kind ≠ .letWord := kinds ▸ isLet
    rw [dif_neg isLet, dif_neg notLet']
    by_cases isReturn : s.current.kind = .returnWord
    · have isReturn' : s'.current.kind = .returnWord := kinds ▸ isReturn
      have pos : 0 < s.remaining := remaining_pos (by rw [isReturn]; decide)
      have place := R.open_of_kind_ne start (by rw [isReturn]; decide)
      rw [dif_pos isReturn, dif_pos isReturn']
      refine .shift ((Expr.parse_matches R .lowest (R.advance place)).andThen ?_)
      exact fun value v v' le le' stop => .skipSemicolon stop
    · have notReturn' : s'.current.kind ≠ .returnWord := kinds ▸ isReturn
      rw [dif_neg isReturn, dif_neg notReturn']
      refine (Expr.parse_matches R .lowest start).andThen fun value t t' le le' stop => ?_
      exact .skipSemicolon stop
termination_by 5 * s.remaining + 3
decreasing_by all_goals ((try simp only [remaining_advance] at *); omega)

end

/-! ### Programs -/

instance : Append ParseResult :=
  ⟨fun first second => ⟨first.program ++ second.program, first.errors ++ second.errors⟩⟩

@[simp] theorem ParseResult.program_append (first second : ParseResult) :
    (first ++ second).program = first.program ++ second.program :=
  rfl

@[simp] theorem ParseResult.errors_append (first second : ParseResult) :
    (first ++ second).errors = first.errors ++ second.errors :=
  rfl

theorem ParseResult.append_assoc (r₁ r₂ r₃ : ParseResult) : r₁ ++ r₂ ++ r₃ = r₁ ++ (r₂ ++ r₃) :=
  congrArg₂ ParseResult.mk (List.append_assoc _ _ _) (List.append_assoc _ _ _)

theorem ParseResult.append_empty (r : ParseResult) : r ++ (⟨[], []⟩ : ParseResult) = r :=
  congrArg₂ ParseResult.mk (List.append_nil _) (List.append_nil _)

/-- What reading a statement contributes to a program: the statement, or the error that it is
dropped for, and the errors recorded on the way. -/
def Parsed.contribution {s : TokenStream} (p : Parsed s Stmt) : ParseResult :=
  match p.outcome with
  | .ok statement => ⟨[statement], p.recorded⟩
  | .error e => ⟨[], p.recorded ++ [e]⟩

theorem parseProgram_of_eof {s : TokenStream} (heof : s.current.kind = .eof) :
    parseProgram s = ⟨[], []⟩ := by
  rw [parseProgram, dif_pos heof]

theorem parseProgram_eq_append {s : TokenStream} (notEof : s.current.kind ≠ .eof) :
    parseProgram s = (Stmt.parse s).contribution ++ parseProgram (Stmt.parse s).stop.advance := by
  rw [parseProgram_of_ne_eof notEof, contribution]
  cases (Stmt.parse s).outcome with
  | ok statement => rfl
  | error e => exact congrArg (ParseResult.mk _) (List.append_cons _ _ _)

/-- The same statements and the same errors. -/
def StreamSimulation.SameResult (R : StreamSimulation) (r r' : ParseResult) : Prop :=
  r.program = r'.program ∧ List.Forall₂ R.SameError r.errors r'.errors

theorem StreamSimulation.SameResult.append {R : StreamSimulation} {r₁ r₁' r₂ r₂' : ParseResult}
    (first : R.SameResult r₁ r₁') (second : R.SameResult r₂ r₂') :
    R.SameResult (r₁ ++ r₂) (r₁' ++ r₂') :=
  ⟨congrArg₂ (· ++ ·) first.1 second.1, List.rel_append first.2 second.2⟩

theorem Parsed.Matches.contribution {R : StreamSimulation} {s s' : TokenStream} {p : Parsed s Stmt}
    {p' : Parsed s' Stmt} (h : Matches R R.Alike p p') :
    R.Excused p'.contribution.errors ∨
      R.SameResult p.contribution p'.contribution ∧ R.Alike p.stop p'.stop := by
  cases h with
  | excused pardoned =>
      left
      unfold Parsed.contribution
      cases p'.outcome with
      | ok statement => exact pardoned
      | error e => exact R.excused_append [] [e] pardoned
  | ok value value' recorded stop =>
      rw [Parsed.contribution, Parsed.contribution, value, value']
      exact .inr ⟨⟨rfl, recorded⟩, stop⟩
  | error failed failed' same recorded stop =>
      rw [Parsed.contribution, Parsed.contribution, failed, failed']
      exact .inr ⟨⟨rfl, List.rel_append recorded (.cons same .nil)⟩, stop⟩

/-- Where readers may always move on and nothing is excused, they read the same program. -/
theorem StreamSimulation.sameResult_parseProgram (R : StreamSimulation)
    (goesOn : ∀ {s s'}, R.Alike s s' → R.Open s s') (strict : ∀ errors, ¬ R.Excused errors)
    {s s' : TokenStream} (start : R.Alike s s') :
    R.SameResult (parseProgram s) (parseProgram s') := by
  have kinds := R.kind_eq start
  by_cases heof : s.current.kind = .eof
  · have heof' : s'.current.kind = .eof := kinds ▸ heof
    rw [parseProgram_of_eof heof, parseProgram_of_eof heof']
    exact ⟨rfl, .nil⟩
  · have notEof' : s'.current.kind ≠ .eof := kinds ▸ heof
    have pos : 0 < s.remaining := remaining_pos heof
    have fewer := (Stmt.parse s).remaining_le
    rw [parseProgram_eq_append heof, parseProgram_eq_append notEof']
    rcases (Stmt.parse_matches R start).contribution with pardoned | ⟨first, stop⟩
    · exact absurd pardoned (strict _)
    · exact first.append (R.sameResult_parseProgram goesOn strict (R.advance (goesOn stop)))
termination_by s.remaining
decreasing_by all_goals (rw [remaining_advance]; omega)

/-! ### Tokens on other lines -/

/-- The tokens are the same but for their lines. -/
def TokenStream.SameTokens (s s' : TokenStream) : Prop :=
  List.Forall₂ (fun t t' => t.same t') s.tokens s'.tokens

/-- Errors with the same cause. -/
def ParseError.SameCause (e e' : ParseError) : Prop :=
  e.cause = e'.cause

namespace TokenStream

variable {s s' : TokenStream}

theorem SameTokens.current_same (h : s.SameTokens s') : s.current.same s'.current = true := by
  obtain ⟨tokens, endLine⟩ := s
  obtain ⟨tokens', endLine'⟩ := s'
  cases h with
  | nil => rfl
  | cons first _ => exact first

theorem SameTokens.advance (h : s.SameTokens s') : s.advance.SameTokens s'.advance := by
  obtain ⟨tokens, endLine⟩ := s
  obtain ⟨tokens', endLine'⟩ := s'
  cases h with
  | nil => exact .nil
  | cons _ rest => exact rest

end TokenStream

/-- Where the lines differ, readers go along with each other to the end. -/
def StreamSimulation.lines : StreamSimulation where
  Alike := SameTokens
  Open := SameTokens
  SameError := ParseError.SameCause
  braces := True
  Excused _ := False
  kind_eq h := (Token.same_iff.mp h.current_same).1
  literal_eq h := (Token.same_iff.mp h.current_same).2
  sameError _ _ := rfl
  alike h := h
  advance h := h.advance
  open_of_kind_ne h _ := h
  braces_of_kind_eq _ _ := trivial
  open_or_end _ h := .inl h
  excused_append _ _ _ h := h

/-- The lines of the tokens make no difference to the program that is read, nor to the errors but
for the lines that they give. -/
theorem parseProgram_of_same_tokens {s s' : TokenStream} (same : s.SameTokens s') :
    StreamSimulation.lines.SameResult (parseProgram s) (parseProgram s') :=
  StreamSimulation.lines.sameResult_parseProgram id (fun _ => id) same

end Marmoset
