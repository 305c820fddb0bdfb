import Marmoset.Proofs.ErrorCount

/-! # Every reading ends

The parser recurs on the tokens that are left and carries the proof that they become fewer.  A
`Reader` does the same work without that proof: it has a cursor, which it moves over the tokens and
writes its errors to, and it goes around its loops and into its recursion as long as it has fuel.
Some of its calls move nothing, and a block can go around once more without having moved.

`Reader.Performs x p` says that from the place where `p` starts `x` does what `p` says, and does not
run out of fuel.  If the fuel is more than a fixed multiple of the tokens that are left, it is enough:
the reader then gives what the parser gives, whatever the tokens are (`readProgram_performs`).  There
are also no more errors than tokens then (`parsing_ends_with_few_errors`). -/

namespace Marmoset

/-- Where a reader is, and the errors that it has recorded. -/
structure Cursor where
  stream : TokenStream
  errors : List ParseError

/-- A computation that moves a cursor and may fail.  It has no outcome if the fuel runs out. -/
abbrev Reader := ExceptT ParseError (StateT Cursor Option)

namespace Reader

variable {α β : Type}

/-- The outcome of a computation and the cursor after it. -/
def runOn (x : Reader α) (cursor : Cursor) : Option (Except ParseError α × Cursor) :=
  x.run.run cursor

/-- The fuel has run out. -/
def exhausted : Reader α :=
  ExceptT.mk fun _ => none

/-- The tokens from the current one on. -/
def place : Reader TokenStream :=
  ExceptT.mk fun cursor => some (.ok cursor.stream, cursor)

/-- Moves on by one token. -/
def advance : Reader Unit :=
  ExceptT.mk fun cursor => some (.ok (), { cursor with stream := cursor.stream.advance })

/-- Records an error without failing. -/
def record (e : ParseError) : Reader Unit :=
  ExceptT.mk fun cursor => some (.ok (), { cursor with errors := cursor.errors ++ [e] })

/-- Does `x` and takes a failure as a result. -/
def attempt (x : Reader α) : Reader (Except ParseError α) :=
  ExceptT.mk fun cursor => (x.runOn cursor).map fun after => (.ok after.1, after.2)

/-! ### Reading without recursion -/

def failHere (cause : ParseError.Cause) : Reader α := do
  throw ⟨cause, (← place).current.line⟩

/-- Moves on to the next token if it has the given kind, and fails otherwise. -/
def expect (kind : TokenKind) : Reader Unit := do
  let s ← place
  if s.next.kind = kind then advance
  else throw ⟨.unexpected kind s.next.kind, s.next.line⟩

/-- Moves on to the next token if it is a semicolon. -/
def skipSemicolon (value : α) : Reader α := do
  if (← place).next.kind = .semicolon then
    advance
    return value
  else return value

def bareName : Reader String := do
  let s ← place
  if s.current.kind = .name then return s.current.literal
  else failHere (.unexpected .name s.current.kind)

/-! ### Lists -/

/-- The items after the current one, up to the closing token. -/
def moreItems (closing : TokenKind) (item : Reader α) : Nat → Reader (List α)
  | 0 => exhausted
  | n + 1 => do
    if (← place).next.kind = .comma then
      advance
      advance
      let first ← item
      return first :: (← moreItems closing item n)
    else
      expect closing
      return []

/-- A possibly empty list of items, from the opening token to the closing one. -/
def items (closing : TokenKind) (item : Reader α) (n : Nat) : Reader (List α) := do
  if (← place).next.kind = closing then
    advance
    return []
  else
    advance
    let first ← item
    return first :: (← moreItems closing item n)

end Reader

open Reader (place advance record attempt exhausted)

/-! ### Reading with recursion -/

mutual

/-- Reads an expression whose operators bind tighter than `p`. -/
def Expr.read : Nat → Precedence → Reader Expr
  | 0, _ => exhausted
  | n + 1, p => do
    let left ← Expr.readPrimary n
    Expr.readOperators n p left

/-- Reads an expression up to its first operator. -/
def Expr.readPrimary : Nat → Reader Expr
  | 0 => exhausted
  | n + 1 => do
    let s ← place
    match s.current.kind with
    | .name => return .name s.current.literal
    | .integer =>
      match Integer.ofText? s.current.literal with
      | some value => return .integer value
      | none => Reader.failHere (.badInteger s.current.literal)
    | .text => return .text s.current.literal
    | .trueWord => return .boolean true
    | .falseWord => return .boolean false
    | .bang =>
      advance
      return .unary .not (← Expr.read n .unary)
    | .minus =>
      advance
      return .unary .negate (← Expr.read n .unary)
    | .leftParen =>
      advance
      let inner ← Expr.read n .lowest
      Reader.expect .rightParen
      return inner
    | .ifWord =>
      advance
      let condition ← Expr.read n .lowest
      let consequence ← Stmt.readBraces n
      if (← place).next.kind = .elseWord then
        advance
        return .cond condition consequence (some (← Stmt.readBraces n))
      else return .cond condition consequence none
    | .fnWord =>
      Reader.expect .leftParen
      let parameters ← Reader.items .rightParen Reader.bareName n
      return .function parameters (← Stmt.readBraces n)
    | .leftBracket => return .array (← Reader.items .rightBracket (Expr.read n .lowest) n)
    | .leftBrace => return .hash (← Reader.items .rightBrace (Expr.readPair n) n)
    | kind => Reader.failHere (.noExpression kind)

/-- Reads a key, a colon and a value. -/
def Expr.readPair : Nat → Reader (Expr × Expr)
  | 0 => exhausted
  | n + 1 => do
    let key ← Expr.read n .lowest
    Reader.expect .colon
    advance
    return (key, ← Expr.read n .lowest)

/-- Reads the operators that bind tighter than `p` after the expression `left`. -/
def Expr.readOperators : Nat → Precedence → Expr → Reader Expr
  | 0, _, _ => exhausted
  | n + 1, p, left => do
    let s ← place
    if p < Precedence.ofKind s.next.kind then
      match s.next.kind with
      | .leftParen =>
        advance
        let arguments ← Reader.items .rightParen (Expr.read n .lowest) n
        Expr.readOperators n p (.call left arguments)
      | .leftBracket =>
        advance
        advance
        let position ← Expr.read n .lowest
        Reader.expect .rightBracket
        Expr.readOperators n p (.index left position)
      | kind =>
        match BinaryOp.ofKind? kind with
        | some op =>
          advance
          advance
          let right ← Expr.read n (Precedence.ofKind kind)
          Expr.readOperators n p (.binary op left right)
        | none => return left
    else return left

/-- Reads a block with its braces. -/
def Stmt.readBraces : Nat → Reader Block
  | 0 => exhausted
  | n + 1 => do
    Reader.expect .leftBrace
    advance
    Stmt.readBlock n

/-- Reads the statements of a block.  A failure at the closing brace does not move over it. -/
def Stmt.readBlock : Nat → Reader Block
  | 0 => exhausted
  | n + 1 => do
    let s ← place
    if s.current.kind = .rightBrace then return []
    else if s.current.kind = .eof then
      record ⟨.unclosedBlock, s.current.line⟩
      return []
    else
      match ← attempt (Stmt.read n) with
      | .ok statement =>
        advance
        return statement :: (← Stmt.readBlock n)
      | .error error =>
        record error
        if (← place).current.kind = .rightBrace then return []
        else
          advance
          Stmt.readBlock n

/-- Reads a statement, with the semicolon after it if there is one. -/
def Stmt.read : Nat → Reader Stmt
  | 0 => exhausted
  | n + 1 => do
    match (← place).current.kind with
    | .letWord =>
      Reader.expect .name
      let name := (← place).current.literal
      Reader.expect .assign
      advance
      Reader.skipSemicolon (.bind name (← Expr.read n .lowest))
    | .returnWord =>
      advance
      Reader.skipSemicolon (.return (← Expr.read n .lowest))
    | _ => Reader.skipSemicolon (.expr (← Expr.read n .lowest))

end

/-- Reads statements up to the end of the input. -/
def readProgram : Nat → Reader Program
  | 0 => exhausted
  | n + 1 => do
    if (← place).current.kind = .eof then return []
    else
      match ← attempt (Stmt.read n) with
      | .ok statement =>
        advance
        return statement :: (← readProgram n)
      | .error error =>
        record error
        advance
        readProgram n

/-! ### Doing what a step says -/

namespace Reader

variable {α β : Type} {s : TokenStream}

theorem runOn_bind (x : Reader α) (f : α → Reader β) (cursor : Cursor) :
    (x >>= f).runOn cursor =
      match x.runOn cursor with
      | some (.ok a, after) => (f a).runOn after
      | some (.error e, after) => some (.error e, after)
      | none => none := by
  change ((x.runOn cursor).bind fun p => ExceptT.bindCont f p.1 p.2) = _
  rcases x.runOn cursor with _ | ⟨_ | _, _⟩ <;> rfl

/-- From the place where `p` starts, `x` has the outcome of `p`, stops where `p` does and records
what `p` records. -/
def Performs (x : Reader α) (p : Parsed s α) : Prop :=
  ∀ errors, x.runOn ⟨s, errors⟩ = some (p.outcome, ⟨p.stop, errors ++ p.recorded⟩)

namespace Performs

theorem pure (a : α) : Performs (Pure.pure a) (Parsed.here a : Parsed s α) := by
  intro errors
  show some _ = some _
  rw [Parsed.here, Parsed.ok, List.append_nil]

theorem throw {e : ParseError} : Performs (MonadExcept.throw e)
    (Parsed.fail e s (Nat.le_refl _) : Parsed s α) := by
  intro errors
  show some _ = some _
  rw [Parsed.fail, List.append_nil]

theorem place {f : TokenStream → Reader α} {p : Parsed s α} (h : Performs (f s) p) :
    Performs (Reader.place >>= f) p := by
  intro errors
  rw [runOn_bind]
  exact h errors

theorem advance {x : Reader α} {p : Parsed s.advance α} (h : Performs x p) :
    Performs (Reader.advance >>= fun _ => x) p.shift := by
  intro errors
  rw [runOn_bind]
  exact h errors

theorem record {x : Reader α} {p : Parsed s α} (e : ParseError) (h : Performs x p) :
    Performs (Reader.record e >>= fun _ => x) (p.after [e]) := by
  intro errors
  rw [runOn_bind]
  have after := h (errors ++ [e])
  rw [List.append_assoc] at after
  exact after

/-- Going on after a step, whether it failed or not. -/
theorem resume {x : Reader α} {p : Parsed s α} {f : Except ParseError α → Reader β}
    {g : Except ParseError α → (t : TokenStream) → t.remaining ≤ s.remaining → Parsed t β}
    (first : Performs x p) (next : ∀ outcome t h, Performs (f outcome) (g outcome t h)) :
    Performs (Reader.attempt x >>= f) (p.resume g) := by
  intro errors
  have attempted : (Reader.attempt x).runOn ⟨s, errors⟩ =
      some (.ok p.outcome, ⟨p.stop, errors ++ p.recorded⟩) := by
    show (x.runOn ⟨s, errors⟩).map _ = _
    rw [first errors]
    rfl
  have after := next p.outcome p.stop p.remaining_le (errors ++ p.recorded)
  rw [List.append_assoc] at after
  rw [runOn_bind, attempted]
  exact after

theorem bind {x : Reader α} {p : Parsed s α} {f : α → Reader β}
    {g : α → (t : TokenStream) → t.remaining ≤ s.remaining → Parsed t β}
    (first : Performs x p) (next : ∀ a t h, Performs (f a) (g a t h)) :
    Performs (x >>= f) (p.andThen g) := by
  intro errors
  obtain ⟨outcome, recorded, stop, le⟩ := p
  rw [runOn_bind, first errors]
  cases outcome with
  | ok a =>
      have after := next a stop le (errors ++ recorded)
      rw [List.append_assoc] at after
      exact after
  | error e =>
      show some _ = some (Except.error e, Cursor.mk stop (errors ++ (recorded ++ [])))
      rw [List.append_nil]

theorem map {x : Reader α} {p : Parsed s α} (h : Performs x p) (f : α → β) :
    Performs (x >>= fun a => Pure.pure (f a)) (p.map f) := by
  intro errors
  rw [runOn_bind, h errors, Parsed.map]
  cases p.outcome <;> rfl

theorem advance_ok {h : s.advance.remaining ≤ s.remaining} :
    Performs Reader.advance (Parsed.ok () s.advance h : Parsed s Unit) := by
  intro errors
  show some _ = some _
  rw [Parsed.ok, List.append_nil]

theorem failHere (cause : ParseError.Cause) :
    Performs (Reader.failHere cause) (Parsed.failHere cause : Parsed s α) :=
  place throw

theorem expect (kind : TokenKind) (s : TokenStream) :
    Performs (Reader.expect kind) (Parsed.expect kind s) := by
  refine place ?_
  unfold Parsed.expect
  split
  · exact advance_ok
  · exact throw

theorem skipSemicolon (a : α) (s : TokenStream) :
    Performs (Reader.skipSemicolon a) (Parsed.skipSemicolon a s) := by
  refine place ?_
  unfold Parsed.skipSemicolon
  split
  · exact advance (pure a)
  · exact pure a

theorem bareName (s : TokenStream) : Performs Reader.bareName (Parsed.bareName s) := by
  refine place ?_
  unfold Parsed.bareName
  split
  · exact pure _
  · exact failHere _

section Lists

variable {closing : TokenKind} {m : Nat} {item : Reader α}
  {item' : (t : TokenStream) → t.remaining < m → Parsed t α}

/-- Every round takes a comma and a token after it. -/
theorem moreItems (each : ∀ t h, Performs item (item' t h)) {n : Nat} {s : TokenStream}
    (enough : s.remaining < n) (h : s.remaining ≤ m) :
    Performs (Reader.moreItems closing item n) (Parsed.moreItems closing m item' s h) := by
  induction n generalizing s with
  | zero => omega
  | succ n ih =>
      rw [Reader.moreItems, Parsed.moreItems]
      refine place ?_
      by_cases comma : s.next.kind = .comma
      · have fewer := s.remaining_advance_advance_lt (by rw [comma]; decide)
        rw [if_pos comma, dif_pos comma]
        refine advance (advance ((each _ _).bind fun first t le => ?_))
        exact (ih (by omega) _).map _
      · rw [if_neg comma, dif_neg comma]
        exact (expect closing s).map _

theorem items (each : ∀ t h, Performs item (item' t h)) {n : Nat} {s : TokenStream}
    (enough : s.advance.remaining < n) (h : s.advance.remaining < m) :
    Performs (Reader.items closing item n) (Parsed.items closing m item' s h) := by
  refine place ?_
  unfold Parsed.items
  split
  · exact advance (pure _)
  · refine advance ((each _ _).bind fun first t le => ?_)
    exact (moreItems each (by omega) _).map _

end Lists

end Performs

end Reader

open Reader TokenStream

mutual

theorem Expr.read_performs {n : Nat} (p : Precedence) {s : TokenStream}
    (enough : 5 * s.remaining + 3 ≤ n) : Performs (Expr.read n p) (Expr.parse p s) := by
  match n with
  | n + 1 =>
    rw [Expr.read, Expr.parse]
    refine (Expr.readPrimary_performs (by omega)).bind fun left t le => ?_
    exact Expr.readOperators_performs p left (by omega)

theorem Expr.readPrimary_performs {n : Nat} {s : TokenStream} (enough : 5 * s.remaining + 2 ≤ n) :
    Performs (Expr.readPrimary n) (Expr.parsePrimary s) := by
  match n with
  | n + 1 =>
    have fewer := s.remaining_advance
    rw [Expr.readPrimary, Expr.parsePrimary]
    refine .place ?_
    obtain ⟨kind, found⟩ : ∃ kind, s.current.kind = kind := ⟨_, rfl⟩
    by_cases heof : kind = .eof
    · rw [dif_pos (found.trans heof)]
      simp only [found, heof]
      exact .failHere _
    · have pos : 0 < s.remaining := remaining_pos (found ▸ heof)
      rw [dif_neg (found ▸ heof)]
      simp only [found]
      cases kind with
      | name | text | trueWord | falseWord => exact .pure _
      | integer =>
          cases Integer.ofText? s.current.literal with
          | some value => exact .pure _
          | none => exact .failHere _
      | bang | minus => exact .advance ((Expr.read_performs .unary (by omega)).map _)
      | leftParen =>
          refine .advance ((Expr.read_performs .lowest (by omega)).bind fun inner t le => ?_)
          exact (Performs.expect .rightParen t).map _
      | ifWord =>
          refine .advance ((Expr.read_performs .lowest (by omega)).bind fun condition t le => ?_)
          have fewer' := t.remaining_advance
          refine (Stmt.readBraces_performs (by omega)).bind fun consequence u le' => .place ?_
          have fewer'' := u.remaining_advance
          have fewer''' := u.advance.remaining_advance
          split
          · exact .advance ((Stmt.readBraces_performs (by omega)).map _)
          · exact .pure _
      | fnWord =>
          refine (Performs.expect .leftParen s).bind fun _ t le => ?_
          have fewer' := t.remaining_advance
          have parameters : Performs (Reader.items .rightParen Reader.bareName n)
              (Parsed.parameters t) := .items (fun t _ => .bareName t) (by omega) _
          refine parameters.bind fun parameters u le' => ?_
          have fewer'' := u.remaining_advance
          exact (Stmt.readBraces_performs (by omega)).map _
      | leftBracket =>
          refine Performs.map (.items (fun t lt => ?_) (by omega) _) _
          exact Expr.read_performs .lowest (by omega)
      | leftBrace =>
          refine Performs.map (.items (fun t lt => ?_) (by omega) _) _
          exact Expr.readPair_performs (by omega)
      | _ => exact .failHere _

theorem Expr.readPair_performs {n : Nat} {s : TokenStream} (enough : 5 * s.remaining + 4 ≤ n) :
    Performs (Expr.readPair n) (Expr.parsePair s) := by
  match n with
  | n + 1 =>
    rw [Expr.readPair, Expr.parsePair]
    refine (Expr.read_performs .lowest (by omega)).bind fun key t le => ?_
    refine (Performs.expect .colon t).bind fun _ u le' => ?_
    have fewer := u.remaining_advance
    exact .advance ((Expr.read_performs .lowest (by omega)).map _)

theorem Expr.readOperators_performs {n : Nat} (p : Precedence) (left : Expr) {s : TokenStream}
    (enough : 5 * s.remaining + 1 ≤ n) :
    Performs (Expr.readOperators n p left) (Expr.parseOperators p left s) := by
  match n with
  | n + 1 =>
    rw [Expr.readOperators, Expr.parseOperators]
    refine .place ?_
    by_cases tighter : p < Precedence.ofKind s.next.kind
    · have fewer := s.remaining_advance_advance_lt (Precedence.ne_eof_of_lt tighter)
      have fewer' := s.remaining_advance
      have two := one_lt_remaining (Precedence.ne_eof_of_lt tighter)
      rw [if_pos tighter, dif_pos tighter]
      obtain ⟨kind, found⟩ : ∃ kind, s.next.kind = kind := ⟨_, rfl⟩
      simp only [found]
      cases kind with
      | leftParen =>
          refine .advance ((Performs.items (fun t lt => ?_) (by omega) _).bind
            fun arguments t le => ?_)
          · exact Expr.read_performs .lowest (by omega)
          · exact Expr.readOperators_performs p _ (by omega)
      | leftBracket =>
          refine .advance (.advance ((Expr.read_performs .lowest (by omega)).bind
            fun position t le => ?_))
          refine (Performs.expect .rightBracket t).bind fun _ u le' => ?_
          exact Expr.readOperators_performs p _ (by omega)
      | equal | notEqual | less | greater | plus | minus | star | slash =>
          refine .advance (.advance ((Expr.read_performs _ (by omega)).bind fun right t le => ?_))
          exact Expr.readOperators_performs p _ (by omega)
      | _ => exact .pure _
    · rw [if_neg tighter, dif_neg tighter]
      exact .pure _

theorem Stmt.readBraces_performs {n : Nat} {s : TokenStream}
    (enough : 5 * s.advance.remaining + 6 ≤ n) :
    Performs (Stmt.readBraces n) (Stmt.parseBraces s) := by
  match n with
  | n + 1 =>
    rw [Stmt.readBraces, Stmt.parseBraces]
    refine (Performs.expect .leftBrace s).bind fun _ t le => ?_
    have fewer := s.remaining_advance
    have fewer' := t.remaining_advance
    exact .advance (Stmt.readBlock_performs (by omega))

theorem Stmt.readBlock_performs {n : Nat} {s : TokenStream} (enough : 5 * s.remaining + 5 ≤ n) :
    Performs (Stmt.readBlock n) (Stmt.parseBlock s) := by
  match n with
  | n + 1 =>
    rw [Stmt.readBlock, Stmt.parseBlock]
    refine .place ?_
    split
    · exact .pure _
    · by_cases heof : s.current.kind = .eof
      · rw [if_pos heof, dif_pos heof]
        exact .record _ (.pure _)
      · have pos : 0 < s.remaining := remaining_pos heof
        rw [if_neg heof, dif_neg heof]
        refine (Stmt.read_performs (by omega)).resume fun outcome t le => ?_
        have fewer := t.remaining_advance
        cases outcome with
        | ok statement => exact .advance ((Stmt.readBlock_performs (by omega)).map _)
        | error e =>
            refine .record e (.place ?_)
            split
            · exact .pure _
            · exact .advance (Stmt.readBlock_performs (by omega))

theorem Stmt.read_performs {n : Nat} {s : TokenStream} (enough : 5 * s.remaining + 4 ≤ n) :
    Performs (Stmt.read n) (Stmt.parse s) := by
  match n with
  | n + 1 =>
    have fewer := s.remaining_advance
    rw [Stmt.read, Stmt.parse]
    refine .place ?_
    split
    · next isLet =>
      rw [dif_pos isLet]
      refine (Performs.expect .name s).bind fun _ t le => ?_
      refine .place ((Performs.expect .assign t).bind fun _ u le' => ?_)
      have fewer' := u.remaining_advance
      refine .advance ((Expr.read_performs .lowest (by omega)).bind fun value v le'' => ?_)
      exact .skipSemicolon _ v
    · next isReturn =>
      rw [dif_neg (by rw [isReturn]; decide), dif_pos isReturn]
      refine .advance ((Expr.read_performs .lowest (by omega)).bind fun value t le => ?_)
      exact .skipSemicolon _ t
    · next notLet notReturn =>
      rw [dif_neg notLet, dif_neg notReturn]
      refine (Expr.read_performs .lowest (by omega)).bind fun value t le => ?_
      exact .skipSemicolon _ t

end

/-! ### Programs -/

/-- The statements up to the end of the input, as a step of the parser. -/
def parseStatements (s : TokenStream) : Parsed s Program :=
  if h : s.current.kind = .eof then .here []
  else
    have : 0 < s.remaining := remaining_pos h
    (Stmt.parse s).resume fun outcome t _ =>
      match outcome with
      | .ok statement => ((parseStatements t.advance).map (statement :: ·)).shift
      | .error error => (parseStatements t.advance).shift.after [error]
termination_by s.remaining
decreasing_by all_goals (rw [remaining_advance]; omega)

/-- The step never fails, and gives the program and the errors of the parser at the end of the
input. -/
theorem parseStatements_eq (s : TokenStream) :
    (parseStatements s).outcome = .ok (parseProgram s).program ∧
      (parseStatements s).recorded = (parseProgram s).errors ∧
      (parseStatements s).stop.current.kind = .eof := by
  by_cases heof : s.current.kind = .eof
  · rw [parseStatements, dif_pos heof, parseProgram_of_eof heof]
    exact ⟨rfl, rfl, heof⟩
  · have pos := remaining_pos heof
    rw [parseStatements, dif_neg heof, parseProgram_of_ne_eof heof]
    obtain ⟨outcome, recorded, t, le⟩ := Stmt.parse s
    obtain ⟨program, errors, ended⟩ := parseStatements_eq t.advance
    cases outcome with
    | ok statement =>
        refine ⟨?_, congrArg (recorded ++ ·) errors, ended⟩
        show (parseStatements t.advance).outcome.map (statement :: ·) = _
        rw [program]
        rfl
    | error e => exact ⟨program, congrArg (recorded ++ e :: ·) errors, ended⟩
termination_by s.remaining
decreasing_by rw [remaining_advance]; omega

theorem readProgram_performs {n : Nat} {s : TokenStream} (enough : 5 * s.remaining + 5 ≤ n) :
    Performs (readProgram n) (parseStatements s) := by
  induction n generalizing s with
  | zero => omega
  | succ n ih =>
      rw [readProgram, parseStatements]
      refine .place ?_
      by_cases heof : s.current.kind = .eof
      · rw [if_pos heof, dif_pos heof]
        exact .pure _
      · have pos : 0 < s.remaining := remaining_pos heof
        rw [if_neg heof, dif_neg heof]
        refine (Stmt.read_performs (by omega)).resume fun outcome t le => ?_
        have fewer := t.remaining_advance
        cases outcome with
        | ok statement => exact .advance ((ih (by omega)).map _)
        | error e => exact .record e (.advance (ih (by omega)))

/-- **Reading ends, with no more errors than tokens.**  Whatever the tokens are, also if tokens for the
end of the input stand among them: with more fuel than five times their number the loops of the reader
come to an end, at the end of the input and with the program and the errors that the parser gives.
The statements of the program and the errors together are at most as many as the tokens. -/
theorem parsing_ends_with_few_errors (tokens : List Token) :
    let s := TokenStream.ofTokens tokens
    let result := parseProgram s
    (∃ stop, stop.current.kind = .eof ∧ ∀ n, 5 * tokens.length + 5 ≤ n →
      (readProgram n).runOn ⟨s, []⟩ = some (.ok result.program, ⟨stop, result.errors⟩)) ∧
    result.program.length + result.errors.length ≤ tokens.length := by
  intro s result
  obtain ⟨program, errors, ended⟩ := parseStatements_eq s
  refine ⟨⟨(parseStatements s).stop, ended, fun n enough => ?_⟩, length_parseProgram_le s⟩
  have done : (readProgram n).runOn ⟨s, []⟩ = _ := readProgram_performs enough []
  rwa [program, errors, List.nil_append] at done

-- the bound on the errors is reached: no statement starts with a closing parenthesis
example :
    (parseProgram (.ofTokens [⟨.rightParen, ")", 1⟩, ⟨.rightParen, ")", 2⟩])).errors.length = 2 := by
  decide +kernel

end Marmoset
