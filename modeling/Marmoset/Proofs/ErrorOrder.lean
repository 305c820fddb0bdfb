import Marmoset.Proofs.ErrorCount
import Marmoset.Proofs.TokenLines

/-! # Errors in the order of their lines

In a source the lines of the tokens never go down (`TokenStream.Ordered`).  The parser finds an
error at its current token or at the next one, and sometimes it records an error at the next token
and then ends a block without moving.  Still no error is found in front of one that was found
before: after a step of the parser, whatever it does next, it looks at the next token or at a later
one, and the errors so far are no further than that (`Parsed.Ascends`).

A step that reads a construct from its first token on may find errors from the line of the current
token on; a step that goes on after something has been read finds them from the line of the next
token on.  This is the `low` of `Parsed.Ascends low`. -/

namespace Marmoset

/-! ### Streams with lines that never go down -/

namespace TokenStream

/-- The lines of the tokens, and that of the end after them. -/
def lines (s : TokenStream) : List Nat :=
  s.tokens.map Token.line ++ [s.endLine]

/-- The lines never go down. -/
def Ordered (s : TokenStream) : Prop :=
  s.lines.Pairwise (· ≤ ·)

/-- The second stream is what is left of the first after some of its tokens. -/
inductive Later (s : TokenStream) : TokenStream → Prop
  | refl : Later s s
  | advance {t : TokenStream} : Later s t → Later s t.advance

variable {s t u : TokenStream}

theorem Later.trans (h : s.Later t) (h' : t.Later u) : s.Later u := by
  induction h' with
  | refl => exact h
  | advance _ ih => exact .advance ih

theorem Later.advance_advance (h : s.Later t) : s.advance.Later t.advance := by
  induction h with
  | refl => exact .refl
  | advance _ ih => exact .advance ih

theorem lines_advance_sublist (s : TokenStream) : s.advance.lines.Sublist s.lines := by
  refine List.Sublist.append_right ?_ [s.endLine]
  exact (List.tail_sublist s.tokens).map Token.line

theorem line_current_mem (s : TokenStream) : s.current.line ∈ s.lines := by
  cases h : s.tokens <;> simp [current, lines, h, Token.atEnd]

theorem line_next_mem (s : TokenStream) : s.next.line ∈ s.lines :=
  (lines_advance_sublist s).subset s.advance.line_current_mem

theorem Later.lines_sublist (h : s.Later t) : t.lines.Sublist s.lines := by
  induction h with
  | refl => exact List.Sublist.refl _
  | advance _ ih => exact (lines_advance_sublist _).trans ih

theorem Ordered.later (ordered : s.Ordered) (h : s.Later t) : t.Ordered :=
  List.Pairwise.sublist h.lines_sublist ordered

/-- The current token is on the first of the lines. -/
theorem Ordered.current_le (ordered : s.Ordered) {line : Nat} (mem : line ∈ s.lines) :
    s.current.line ≤ line := by
  unfold Ordered at ordered
  unfold lines at ordered mem
  cases h : s.tokens with
  | nil =>
      rw [h] at mem
      rw [List.mem_singleton.mp mem, current, h]
      exact Nat.le_refl _
  | cons first tokens =>
      rw [h, List.map_cons, List.cons_append] at ordered mem
      rw [current_eq h]
      obtain rfl | mem := List.mem_cons.mp mem
      · exact Nat.le_refl _
      · exact List.rel_of_pairwise_cons ordered mem

theorem Ordered.current_le_later (ordered : s.Ordered) (h : s.Later t) :
    s.current.line ≤ t.current.line :=
  ordered.current_le (h.lines_sublist.subset t.line_current_mem)

theorem Ordered.current_le_next (ordered : s.Ordered) : s.current.line ≤ s.next.line :=
  ordered.current_le_later (.advance .refl)

theorem Ordered.next_le_later (ordered : s.Ordered) (h : s.Later t) : s.next.line ≤ t.next.line :=
  (ordered.later (.advance .refl)).current_le_later h.advance_advance

end TokenStream

/-! ### Errors between two lines -/

/-- The errors are in the order of their lines, from `low` on and up to `high`. -/
structure Ascending (low : Nat) (errors : List ParseError) (high : Nat) : Prop where
  sorted : errors.Pairwise fun e e' => e.line ≤ e'.line
  low_le : ∀ e ∈ errors, low ≤ e.line
  le_high : ∀ e ∈ errors, e.line ≤ high

namespace Ascending

variable {low middle high : Nat} {errors errors' : List ParseError}

theorem nil : Ascending low [] high :=
  ⟨.nil, List.forall_mem_nil _, List.forall_mem_nil _⟩

theorem single {e : ParseError} (lower : low ≤ e.line) (upper : e.line ≤ high) :
    Ascending low [e] high := by
  refine ⟨List.pairwise_singleton _ _, ?_, ?_⟩
  · rintro e' mem
    rwa [List.mem_singleton.mp mem]
  · rintro e' mem
    rwa [List.mem_singleton.mp mem]

theorem mono {low' : Nat} (h : Ascending low errors high) (le : low' ≤ low) :
    Ascending low' errors high :=
  ⟨h.sorted, fun e mem => Nat.le_trans le (h.low_le e mem), h.le_high⟩

theorem append (first : Ascending low errors middle) (second : Ascending middle errors' high)
    (lower : low ≤ middle) (upper : middle ≤ high) : Ascending low (errors ++ errors') high := by
  refine ⟨?_, ?_, ?_⟩
  · rw [List.pairwise_append]
    refine ⟨first.sorted, second.sorted, fun e mem e' mem' => ?_⟩
    exact Nat.le_trans (first.le_high e mem) (second.low_le e' mem')
  · refine List.forall_mem_append.mpr ⟨first.low_le, fun e mem => ?_⟩
    exact Nat.le_trans lower (second.low_le e mem)
  · refine List.forall_mem_append.mpr ⟨fun e mem => ?_, second.le_high⟩
    exact Nat.le_trans (first.le_high e mem) upper

end Ascending

/-! ### Steps of the parser -/

open TokenStream

namespace Parsed

variable {α β : Type} {s : TokenStream} {low : Nat}

/-- The errors recorded on the way, and the one that the step fails with. -/
def errors (p : Parsed s α) : List ParseError :=
  p.recorded ++ p.failure?.toList

/-- The errors of the step are on lines of the stream, in the order of these lines, from `low` on
and no further than the token after the place where reading stopped. -/
structure Ascends (low : Nat) (p : Parsed s α) : Prop where
  later : s.Later p.stop
  low_le : low ≤ p.stop.next.line
  ascending : Ascending low p.errors p.stop.next.line
  onLines : ∀ e ∈ p.errors, e.line ∈ s.lines

theorem Ascends.mono {low' : Nat} {p : Parsed s α} (h : p.Ascends low) (le : low' ≤ low) :
    p.Ascends low' :=
  ⟨h.later, Nat.le_trans le h.low_le, h.ascending.mono le, h.onLines⟩

theorem ascends_here {a : α} : (here a : Parsed s α).Ascends s.next.line :=
  ⟨.refl, Nat.le_refl _, .nil, List.forall_mem_nil _⟩

theorem ascends_ok_advance (ordered : s.Ordered) {a : α} {h : s.advance.remaining ≤ s.remaining} :
    (ok a s.advance h : Parsed s α).Ascends s.next.line :=
  ⟨.advance .refl, ordered.next_le_later (.advance .refl), .nil, List.forall_mem_nil _⟩

/-- A step that does not move and has one error, at the current token or at the next one. -/
theorem ascends_of_single {p : Parsed s α} {e : ParseError} (stop : p.stop = s)
    (errors : p.errors = [e]) (lower : low ≤ e.line) (upper : e.line ≤ s.next.line)
    (mem : e.line ∈ s.lines) : p.Ascends low := by
  refine ⟨?_, ?_, ?_, ?_⟩
  · rw [stop]
    exact .refl
  · rw [stop]
    exact Nat.le_trans lower upper
  · rw [stop, errors]
    exact .single lower upper
  · rw [errors]
    exact List.forall_mem_singleton.mpr mem

theorem ascends_failHere (ordered : s.Ordered) {cause : ParseError.Cause} :
    (failHere cause : Parsed s α).Ascends s.current.line :=
  ascends_of_single rfl rfl (Nat.le_refl _) ordered.current_le_next s.line_current_mem

theorem ascends_recordHere (ordered : s.Ordered) {a : α} {cause : ParseError.Cause} :
    ((here a : Parsed s α).after [⟨cause, s.current.line⟩]).Ascends s.current.line :=
  ascends_of_single rfl rfl (Nat.le_refl _) ordered.current_le_next s.line_current_mem

theorem ascends_expect (ordered : s.Ordered) (kind : TokenKind) :
    (expect kind s).Ascends s.next.line := by
  unfold expect
  split
  · exact ascends_ok_advance ordered
  · exact ascends_of_single rfl rfl (Nat.le_refl _) (Nat.le_refl _) s.line_next_mem

theorem ascends_skipSemicolon (ordered : s.Ordered) (a : α) :
    (skipSemicolon a s).Ascends s.next.line := by
  unfold skipSemicolon
  split
  · exact ascends_ok_advance ordered
  · exact ascends_here

theorem Ascends.shift {p : Parsed s.advance α} (h : p.Ascends low) : p.shift.Ascends low where
  later := Later.trans (.advance .refl) h.later
  low_le := h.low_le
  ascending := h.ascending
  onLines e mem := (lines_advance_sublist s).subset (h.onLines e mem)

theorem Ascends.map {p : Parsed s α} (h : p.Ascends low) (f : α → β) : (p.map f).Ascends low := by
  have errors : (p.map f).errors = p.errors := by
    unfold Parsed.errors
    rw [recorded_map, failure?_map]
  refine ⟨h.later, h.low_le, ?_, ?_⟩
  · rw [errors]
    exact h.ascending
  · rw [errors]
    exact h.onLines

/-- One step after another: what comes second has nothing to do with the current token any more. -/
theorem Ascends.followedBy {p : Parsed s α} {q : Parsed p.stop β} {r : Parsed s β}
    (first : p.Ascends low) (second : q.Ascends p.stop.next.line)
    (errors : r.errors = p.errors ++ q.errors) (stop : r.stop = q.stop) : r.Ascends low := by
  refine ⟨?_, ?_, ?_, ?_⟩
  · rw [stop]
    exact first.later.trans second.later
  · rw [stop]
    exact Nat.le_trans first.low_le second.low_le
  · rw [stop, errors]
    exact first.ascending.append second.ascending first.low_le second.low_le
  · rw [errors]
    refine List.forall_mem_append.mpr ⟨first.onLines, fun e mem => ?_⟩
    exact first.later.lines_sublist.subset (second.onLines e mem)

theorem Ascends.andThen {p : Parsed s α}
    {f : α → (t : TokenStream) → t.remaining ≤ s.remaining → Parsed t β} (h : p.Ascends low)
    (next : ∀ a t ht, s.Later t → (f a t ht).Ascends t.next.line) : (p.andThen f).Ascends low := by
  obtain ⟨outcome, recorded, stop, le⟩ := p
  cases outcome with
  | ok a =>
      refine h.followedBy (next a stop le h.later) ?_ rfl
      show (recorded ++ _) ++ _ = (recorded ++ []) ++ _
      rw [List.append_nil, List.append_assoc]
      rfl
  | error e =>
      have errors : (Parsed.andThen ⟨.error e, recorded, stop, le⟩ f).errors =
          (⟨.error e, recorded, stop, le⟩ : Parsed s α).errors := by
        show (recorded ++ []) ++ [e] = recorded ++ [e]
        rw [List.append_nil]
      refine ⟨h.later, h.low_le, ?_, ?_⟩
      · rw [errors]
        exact h.ascending
      · rw [errors]
        exact h.onLines

section Lists

variable {closing : TokenKind} {n : Nat} {item : (t : TokenStream) → t.remaining < n → Parsed t α}

theorem ascends_moreItems (items : ∀ t ht, t.Ordered → (item t ht).Ascends t.current.line)
    {s : TokenStream} (ordered : s.Ordered) (h : s.remaining ≤ n) :
    (moreItems closing n item s h).Ascends s.next.line := by
  rw [moreItems]
  split
  · next comma =>
    have fewer := s.remaining_advance_advance_lt (by rw [comma]; decide)
    have twoLater : s.Later s.advance.advance := .advance (.advance .refl)
    have first := items s.advance.advance (Nat.lt_of_lt_of_le fewer h) (ordered.later twoLater)
    have list := first.andThen fun a t ht later =>
      (ascends_moreItems items (ordered.later (twoLater.trans later)) (by omega)).map (a :: ·)
    exact list.shift.shift.mono (ordered.next_le_later (.advance .refl))
  · exact (ascends_expect ordered closing).map _
termination_by s.remaining

variable (closing) in
theorem ascends_items (items : ∀ t ht, t.Ordered → (item t ht).Ascends t.current.line)
    (ordered : s.Ordered) (h : s.advance.remaining < n) :
    (Parsed.items closing n item s h).Ascends s.next.line := by
  unfold Parsed.items
  split
  · exact ascends_ok_advance ordered
  · have one : s.Later s.advance := .advance .refl
    refine ((items s.advance h (ordered.later one)).andThen fun first t ht later => ?_).shift
    exact (ascends_moreItems items (ordered.later (one.trans later)) _).map _

end Lists

theorem ascends_parameters (ordered : s.Ordered) : (parameters s).Ascends s.next.line := by
  refine ascends_items _ (fun t _ ordered => ?_) ordered _
  unfold bareName
  split
  · exact ascends_here.mono ordered.current_le_next
  · exact ascends_failHere ordered

end Parsed

/-! ### The parser -/

open Parsed

mutual

theorem Expr.parse_ascends (p : Precedence) {s : TokenStream} (ordered : s.Ordered) :
    (Expr.parse p s).Ascends s.current.line := by
  rw [Expr.parse]
  refine (Expr.parsePrimary_ascends ordered).andThen fun left t _ later => ?_
  exact Expr.parseOperators_ascends p left (ordered.later later)
termination_by 5 * s.remaining + 2

theorem Expr.parsePrimary_ascends {s : TokenStream} (ordered : s.Ordered) :
    (Expr.parsePrimary s).Ascends s.current.line := by
  have next := ordered.later (.advance .refl)
  have here {α : Type} {a : α} : (Parsed.here a : Parsed s α).Ascends s.current.line :=
    ascends_here.mono ordered.current_le_next
  have goOn {α : Type} {p : Parsed s α} (h : p.Ascends s.next.line) : p.Ascends s.current.line :=
    h.mono ordered.current_le_next
  rw [Expr.parsePrimary]
  split
  · exact ascends_failHere ordered
  · next notEof =>
    have pos : 0 < s.remaining := remaining_pos notEof
    split
    · exact here
    · split
      · exact here
      · exact ascends_failHere ordered
    · exact here
    · exact here
    · exact here
    · exact goOn ((Expr.parse_ascends .unary next).map _).shift
    · exact goOn ((Expr.parse_ascends .unary next).map _).shift
    · refine goOn ((Expr.parse_ascends .lowest next).andThen fun inner t _ later => ?_).shift
      exact (ascends_expect (next.later later) .rightParen).map _
    · refine goOn ((Expr.parse_ascends .lowest next).andThen fun condition t _ later => ?_).shift
      have ordered := next.later later
      refine (Stmt.parseBraces_ascends ordered).andThen fun consequence u _ later => ?_
      have ordered := ordered.later later
      split
      · have one : u.Later u.advance := .advance .refl
        have braces := (Stmt.parseBraces_ascends (ordered.later one)).map fun alternative =>
          Expr.cond condition consequence (some alternative)
        exact braces.shift.mono (ordered.next_le_later one)
      · exact ascends_here
    · refine goOn ((ascends_expect ordered .leftParen).andThen fun _ t _ later => ?_)
      have ordered := ordered.later later
      refine (ascends_parameters ordered).andThen fun parameters u _ later => ?_
      exact (Stmt.parseBraces_ascends (ordered.later later)).map _
    · exact goOn ((ascends_items _ (fun t ht ordered => Expr.parse_ascends .lowest ordered) ordered
        _).map _)
    · exact goOn ((ascends_items _ (fun t ht ordered => Expr.parsePair_ascends ordered) ordered
        _).map _)
    · exact ascends_failHere ordered
termination_by 5 * s.remaining + 1
decreasing_by all_goals ((try simp only [remaining_advance] at *); omega)

theorem Expr.parsePair_ascends {s : TokenStream} (ordered : s.Ordered) :
    (Expr.parsePair s).Ascends s.current.line := by
  rw [Expr.parsePair]
  refine (Expr.parse_ascends .lowest ordered).andThen fun key u _ later => ?_
  have ordered := ordered.later later
  refine (ascends_expect ordered .colon).andThen fun _ v _ later => ?_
  have next := (ordered.later later).later (.advance .refl)
  exact ((Expr.parse_ascends .lowest next).map _).shift
termination_by 5 * s.remaining + 3
decreasing_by all_goals ((try simp only [remaining_advance] at *); omega)

theorem Expr.parseOperators_ascends (p : Precedence) (left : Expr) {s : TokenStream}
    (ordered : s.Ordered) : (Expr.parseOperators p left s).Ascends s.next.line := by
  have one : s.Later s.advance := .advance .refl
  have two : s.Later s.advance.advance := .advance one
  rw [Expr.parseOperators]
  split
  · next tighter =>
    have fewer := s.remaining_advance_advance_lt (Precedence.ne_eof_of_lt tighter)
    split
    · have arguments := ascends_items .rightParen
        (fun t (ht : t.remaining < s.remaining) ordered => Expr.parse_ascends .lowest ordered)
        (ordered.later one) fewer
      refine Ascends.mono (Ascends.shift (arguments.andThen fun arguments t _ later => ?_))
        (ordered.next_le_later one)
      exact Expr.parseOperators_ascends p _ (ordered.later (one.trans later))
    · refine Ascends.mono (Ascends.shift (Ascends.shift
        ((Expr.parse_ascends .lowest (ordered.later two)).andThen fun position t _ later => ?_)))
        (ordered.next_le_later one)
      have ordered := ordered.later (two.trans later)
      refine (ascends_expect ordered .rightBracket).andThen fun _ u _ later => ?_
      exact Expr.parseOperators_ascends p _ (ordered.later later)
    · split
      · refine Ascends.mono (Ascends.shift (Ascends.shift
          ((Expr.parse_ascends _ (ordered.later two)).andThen fun right t _ later => ?_)))
          (ordered.next_le_later one)
        exact Expr.parseOperators_ascends p _ (ordered.later (two.trans later))
      · exact ascends_here
  · exact ascends_here
termination_by 5 * s.remaining
decreasing_by all_goals ((try simp only [remaining_advance] at *); omega)

theorem Stmt.parseBraces_ascends {s : TokenStream} (ordered : s.Ordered) :
    (Stmt.parseBraces s).Ascends s.next.line := by
  rw [Stmt.parseBraces]
  refine (ascends_expect ordered .leftBrace).andThen fun _ t _ later => ?_
  exact (Stmt.parseBlock_ascends ((ordered.later later).later (.advance .refl))).shift
termination_by 5 * s.advance.remaining + 5
decreasing_by all_goals ((try simp only [remaining_advance] at *); omega)

theorem Stmt.parseBlock_ascends {s : TokenStream} (ordered : s.Ordered) :
    (Stmt.parseBlock s).Ascends s.current.line := by
  rw [Stmt.parseBlock]
  split
  · exact ascends_here.mono ordered.current_le_next
  split
  · exact ascends_recordHere ordered
  · next notEof =>
    have pos : 0 < s.remaining := remaining_pos notEof
    have first := Stmt.parse_ascends ordered
    rcases parsed : Stmt.parse s with ⟨outcome, recorded, t, le⟩
    rw [parsed] at first
    have rest := Stmt.parseBlock_ascends ((ordered.later first.later).later (.advance .refl))
    cases outcome with
    | ok statement =>
        refine first.followedBy (rest.map (statement :: ·)).shift ?_ rfl
        simp [Parsed.errors, resume, after, failure?]
    | error e =>
        by_cases closed : t.current.kind = .rightBrace
        · -- the error may be at the token after the brace, and the block ends at the brace
          refine first.followedBy (q := Parsed.here []) ascends_here ?_ ?_
          · simp [Parsed.errors, resume, after, failure?, closed]
          · simp [resume, after, closed]
        · refine first.followedBy rest.shift ?_ ?_
          · simp [Parsed.errors, resume, after, failure?, closed]
          · simp [resume, after, closed]
termination_by 5 * s.remaining + 4
decreasing_by all_goals ((try simp only [remaining_advance] at *); omega)

theorem Stmt.parse_ascends {s : TokenStream} (ordered : s.Ordered) :
    (Stmt.parse s).Ascends s.current.line := by
  have goOn {α : Type} {p : Parsed s α} (h : p.Ascends s.next.line) : p.Ascends s.current.line :=
    h.mono ordered.current_le_next
  rw [Stmt.parse]
  split
  · next isLet =>
    have pos : 0 < s.remaining := remaining_pos (by rw [isLet]; decide)
    refine goOn ((ascends_expect ordered .name).andThen fun _ t _ later => ?_)
    have ordered := ordered.later later
    refine (ascends_expect ordered .assign).andThen fun _ u _ later => ?_
    have next := (ordered.later later).later (.advance .refl)
    refine ((Expr.parse_ascends .lowest next).andThen fun value v _ later => ?_).shift
    exact ascends_skipSemicolon (next.later later) _
  · split
    · next isReturn =>
      have pos : 0 < s.remaining := remaining_pos (by rw [isReturn]; decide)
      have next := ordered.later (.advance .refl)
      refine goOn ((Expr.parse_ascends .lowest next).andThen fun value t _ later => ?_).shift
      exact ascends_skipSemicolon (next.later later) _
    · refine (Expr.parse_ascends .lowest ordered).andThen fun value t _ later => ?_
      exact ascends_skipSemicolon (ordered.later later) _
termination_by 5 * s.remaining + 3
decreasing_by all_goals ((try simp only [remaining_advance] at *); omega)

end

/-! ### Programs -/

/-- The errors of a program are in the order of their lines, which are lines of the stream. -/
theorem ascending_parseProgram {s : TokenStream} (ordered : s.Ordered) :
    (parseProgram s).errors.Pairwise (fun e e' => e.line ≤ e'.line) ∧
      ∀ e ∈ (parseProgram s).errors, e.line ∈ s.lines := by
  by_cases heof : s.current.kind = .eof
  · rw [parseProgram_of_eof heof]
    exact ⟨.nil, List.forall_mem_nil _⟩
  · have pos := remaining_pos heof
    have le := (Stmt.parse s).remaining_le
    have first := Stmt.parse_ascends ordered
    have later : s.Later (Stmt.parse s).stop.advance := .advance first.later
    obtain ⟨sorted, onLines⟩ := ascending_parseProgram (ordered.later later)
    have errors : (parseProgram s).errors =
        (Stmt.parse s).errors ++ (parseProgram (Stmt.parse s).stop.advance).errors := by
      rw [parseProgram_of_ne_eof heof, Parsed.errors, Parsed.failure?]
      cases (Stmt.parse s).outcome <;> simp
    rw [errors]
    refine ⟨?_, ?_⟩
    · rw [List.pairwise_append]
      refine ⟨first.ascending.sorted, sorted, fun e mem e' mem' => ?_⟩
      have here : e.line ≤ (Stmt.parse s).stop.next.line := first.ascending.le_high e mem
      have there : (Stmt.parse s).stop.next.line ≤ e'.line :=
        (ordered.later later).current_le (onLines e' mem')
      exact Nat.le_trans here there
    · refine List.forall_mem_append.mpr ⟨first.onLines, fun e mem => ?_⟩
      exact later.lines_sublist.subset (onLines e mem)
termination_by s.remaining
decreasing_by rw [remaining_advance]; omega

/-! ### Sources and lists of tokens -/

/-- The lines of lexemes go up from the line that they start on. -/
theorem ordered_tokensFrom (line : Nat) (ls : List Lexeme) :
    let s : TokenStream := ⟨tokensFrom line ls, line + (ls.flatMap Lexeme.text).count '\n'⟩
    s.Ordered ∧ ∀ n ∈ s.lines, line ≤ n := by
  induction ls generalizing line with
  | nil => exact ⟨List.pairwise_singleton _ _, by simp [lines, tokensFrom]⟩
  | cons l ls ih =>
      obtain ⟨ordered, bound⟩ := ih (line + l.lineFeeds)
      have endLine : line + ((l :: ls).flatMap Lexeme.text).count '\n' =
          line + l.lineFeeds + (ls.flatMap Lexeme.text).count '\n' := by
        rw [List.flatMap_cons, List.count_append, Lexeme.lineFeeds, Nat.add_assoc]
      have fromHere (n : Nat) (mem : n ∈ lines ⟨tokensFrom (line + l.lineFeeds) ls,
          line + l.lineFeeds + (ls.flatMap Lexeme.text).count '\n'⟩) : line ≤ n :=
        Nat.le_trans (Nat.le_add_right _ _) (bound n mem)
      rw [endLine]
      cases space : l.kind.isSpace with
      | true =>
          rw [tokensFrom_of_isSpace space]
          exact ⟨ordered, fromHere⟩
      | false =>
          rw [tokensFrom_of_not_isSpace space]
          refine ⟨List.pairwise_cons.mpr ⟨fromHere, ordered⟩, ?_⟩
          exact List.forall_mem_cons.mpr ⟨Nat.le_refl _, fromHere⟩

theorem ordered_ofSource (source : String) : (TokenStream.ofSource source).Ordered := by
  have ordered := (ordered_tokensFrom 1 (lexemes source.toList)).1
  rwa [text_lexemes] at ordered

theorem ordered_ofTokens {tokens : List Token}
    (h : (tokens.map Token.line).Pairwise (· ≤ ·)) : (TokenStream.ofTokens tokens).Ordered := by
  unfold Ordered lines ofTokens
  rw [List.pairwise_append]
  refine ⟨h, List.pairwise_singleton _ _, fun line mem endLine atEnd => ?_⟩
  rw [List.mem_singleton.mp atEnd]
  obtain rfl | ⟨before, last, rfl⟩ := List.eq_nil_or_concat tokens
  · cases mem
  · rw [List.concat_eq_append] at h mem ⊢
    simp only [List.map_append, List.map_cons, List.map_nil, List.pairwise_append] at h
    simp only [List.getLast?_append, List.getLast?_singleton, Option.some_or, Option.map_some,
      Option.getD_some]
    obtain mem | mem := List.mem_append.mp (List.map_append ▸ mem)
    · exact h.2.2 line mem last.line List.mem_cons_self
    · exact Nat.le_of_eq (List.mem_singleton.mp mem)

/-- **Parse errors come in source order.**  The errors of a source are in the order of their lines,
and each is on the line of a token of the source or on that of its end.  Any list of tokens whose
lines do not go down, the end-of-input token among them or not, such as tokens that have their
places as their lines, has its errors in this order, too. -/
theorem parse_errors_in_order :
    (∀ source, (parseSource source).errors.Pairwise (fun e e' => e.line ≤ e'.line) ∧
      ∀ e ∈ (parseSource source).errors, (∃ t ∈ (TokenStream.ofSource source).tokens,
        e.line = t.line) ∨ e.line = (TokenStream.ofSource source).endLine) ∧
    ∀ tokens : List Token, (tokens.map Token.line).Pairwise (· ≤ ·) →
      (parseProgram (.ofTokens tokens)).errors.Pairwise fun e e' => e.line ≤ e'.line := by
  refine ⟨fun source => ?_, fun tokens h => (ascending_parseProgram (ordered_ofTokens h)).1⟩
  obtain ⟨sorted, onLines⟩ := ascending_parseProgram (ordered_ofSource source)
  refine ⟨sorted, fun e mem => ?_⟩
  obtain mem | mem := List.mem_append.mp (onLines e mem)
  · obtain ⟨t, mem, line⟩ := List.mem_map.mp mem
    exact .inl ⟨t, mem, line.symm⟩
  · exact .inr (List.mem_singleton.mp mem)

/-- In `if a { [ {} 1 ] }` with the places of the tokens as their lines: the first error is at `1`,
the block ends at the brace in front of it, and the other errors are at the two tokens after
`1`. -/
theorem parse_errors_in_order_early_brace :
    let tokens : List Token := [⟨.ifWord, "if", 0⟩, ⟨.name, "a", 1⟩, ⟨.leftBrace, "\x7b", 2⟩,
      ⟨.leftBracket, "[", 3⟩, ⟨.leftBrace, "\x7b", 4⟩, ⟨.rightBrace, "\x7d", 5⟩, ⟨.integer, "1", 6⟩,
      ⟨.rightBracket, "]", 7⟩, ⟨.rightBrace, "\x7d", 8⟩, Token.atEnd 9]
    tokens.map Token.line = List.range tokens.length ∧
      (parseProgram (.ofTokens tokens)).errors.map ParseError.line = [6, 7, 8] ∧
      (parseProgram (.ofTokens tokens)).errors.Pairwise fun e e' => e.line ≤ e'.line := by
  intro tokens
  exact ⟨by decide, by decide +kernel, parse_errors_in_order.2 tokens (by decide)⟩

end Marmoset
