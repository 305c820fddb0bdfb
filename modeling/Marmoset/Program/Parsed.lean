import Marmoset.Program.ParseError
import Marmoset.Token.Stream

/-! # Steps of a parser

`Parsed start α` is what reading a construct from the stream `start` gives: a value or an error, the
errors that were recorded on the way inside blocks, and the stream where reading stopped.  The
current token of that stream is the *last* token of the construct, or the token that was current
when reading failed.  Reading never goes back: `remaining_le` says that no more tokens remain than
at the start, and this is what the recursion of the parser rests on.

`Parsed.andThen` runs one step after another.  A step that follows knows how many tokens remain at
most. -/

namespace Marmoset

/-- The result of reading a construct that begins at `start`. -/
structure Parsed (start : TokenStream) (α : Type) where
  outcome : Except ParseError α
  recorded : List ParseError
  stop : TokenStream
  remaining_le : stop.remaining ≤ start.remaining

namespace Parsed

variable {α β : Type} {start : TokenStream}

/-! ### Single steps -/

/-- Nothing more is read. -/
def ok (value : α) (stop : TokenStream) (h : stop.remaining ≤ start.remaining) : Parsed start α :=
  ⟨.ok value, [], stop, h⟩

/-- Reading fails at `stop`. -/
def fail (error : ParseError) (stop : TokenStream) (h : stop.remaining ≤ start.remaining) :
    Parsed start α :=
  ⟨.error error, [], stop, h⟩

/-- Reading ends where it begins, with the given value. -/
def here (value : α) : Parsed start α :=
  ok value start (Nat.le_refl _)

/-- Reading fails on the current token, for the given cause. -/
def failHere (cause : ParseError.Cause) : Parsed start α :=
  fail ⟨cause, start.current.line⟩ start (Nat.le_refl _)

/-- Moves on to the next token if it has the given kind, and fails without moving otherwise. -/
def expect (kind : TokenKind) (start : TokenStream) : Parsed start Unit :=
  if start.next.kind = kind then
    ok () start.advance start.remaining_advance_le
  else
    fail ⟨.unexpected kind start.next.kind, start.next.line⟩ start (Nat.le_refl _)

/-- Moves on to the next token if it is a semicolon. -/
def skipSemicolon (value : α) (start : TokenStream) : Parsed start α :=
  if start.next.kind = .semicolon then ok value start.advance start.remaining_advance_le
  else here value

/-! ### Steps in a row -/

/-- The same step, seen from an earlier start. -/
def since {later : TokenStream} (p : Parsed later α) (h : later.remaining ≤ start.remaining) :
    Parsed start α :=
  ⟨p.outcome, p.recorded, p.stop, Nat.le_trans p.remaining_le h⟩

/-- The same step, seen from the token before its first one. -/
def shift (p : Parsed start.advance α) : Parsed start α :=
  p.since start.remaining_advance_le

/-- The same step after errors have been recorded. -/
def after (errors : List ParseError) (p : Parsed start α) : Parsed start α :=
  { p with recorded := errors ++ p.recorded }

/-- The value is changed. -/
def map (f : α → β) (p : Parsed start α) : Parsed start β :=
  { p with outcome := p.outcome.map f }

/-- Goes on at the place where reading stopped, after a failure as well. -/
def resume (p : Parsed start α)
    (f : Except ParseError α → (t : TokenStream) → t.remaining ≤ start.remaining → Parsed t β) :
    Parsed start β :=
  ((f p.outcome p.stop p.remaining_le).since p.remaining_le).after p.recorded

/-- Goes on with the value at the place where it was read; a failure ends the reading. -/
def andThen (p : Parsed start α)
    (f : α → (t : TokenStream) → t.remaining ≤ start.remaining → Parsed t β) : Parsed start β :=
  p.resume fun outcome t h =>
    match outcome with
    | .ok value => f value t h
    | .error error => fail error t (Nat.le_refl _)

@[simp] theorem outcome_since {later : TokenStream} (p : Parsed later α)
    (h : later.remaining ≤ start.remaining) : (p.since h).outcome = p.outcome :=
  rfl

@[simp] theorem recorded_since {later : TokenStream} (p : Parsed later α)
    (h : later.remaining ≤ start.remaining) : (p.since h).recorded = p.recorded :=
  rfl

@[simp] theorem stop_since {later : TokenStream} (p : Parsed later α)
    (h : later.remaining ≤ start.remaining) : (p.since h).stop = p.stop :=
  rfl

@[simp] theorem outcome_shift (p : Parsed start.advance α) : p.shift.outcome = p.outcome :=
  rfl

@[simp] theorem recorded_shift (p : Parsed start.advance α) : p.shift.recorded = p.recorded :=
  rfl

@[simp] theorem stop_shift (p : Parsed start.advance α) : p.shift.stop = p.stop :=
  rfl

@[simp] theorem outcome_map (f : α → β) (p : Parsed start α) :
    (p.map f).outcome = p.outcome.map f :=
  rfl

@[simp] theorem recorded_map (f : α → β) (p : Parsed start α) :
    (p.map f).recorded = p.recorded :=
  rfl

@[simp] theorem stop_map (f : α → β) (p : Parsed start α) : (p.map f).stop = p.stop :=
  rfl

/-! ### Comma-separated lists

The current token is the last one of an item.  `item` reads an item whose first token is the
current one; it is only asked to at places with fewer than `n` tokens left. -/

/-- The items after the current one, up to the closing token. -/
def moreItems (closing : TokenKind) (n : Nat)
    (item : (t : TokenStream) → t.remaining < n → Parsed t α) (start : TokenStream)
    (h : start.remaining ≤ n) : Parsed start (List α) :=
  if hc : start.next.kind = .comma then
    have fewer := start.remaining_advance_advance_lt (by rw [hc]; decide)
    ((item start.advance.advance (Nat.lt_of_lt_of_le fewer h)).andThen fun first t ht =>
      (moreItems closing n item t (by omega)).map (first :: ·)).shift.shift
  else
    (expect closing start).map fun _ => []
termination_by start.remaining
decreasing_by omega

/-- A possibly empty list of items.  The current token is the opening one; the closing one is
current at the end. -/
def items (closing : TokenKind) (n : Nat) (item : (t : TokenStream) → t.remaining < n → Parsed t α)
    (start : TokenStream) (h : start.advance.remaining < n) : Parsed start (List α) :=
  if start.next.kind = closing then
    ok [] start.advance start.remaining_advance_le
  else
    ((item start.advance h).andThen fun first t ht =>
      (moreItems closing n item t (by omega)).map (first :: ·)).shift

/-- A bare name, as it stands in a parameter list. -/
def bareName (start : TokenStream) : Parsed start String :=
  if start.current.kind = .name then here start.current.literal
  else failHere (.unexpected .name start.current.kind)

/-- The parameter list of a function.  The current token is the opening parenthesis. -/
def parameters (start : TokenStream) : Parsed start (List String) :=
  items .rightParen (start.remaining + 1) (fun t _ => bareName t) start
    (Nat.lt_succ_of_le start.remaining_advance_le)

end Parsed

end Marmoset
