import Marmoset.Integer
import Marmoset.Program.Basic
import Marmoset.Program.Parsed

/-! # The parser

Programs are read by operator precedence: `Expr.parse p` reads an operand (`Expr.parsePrimary`) and
then goes on over the operators that bind tighter than `p` (`Expr.parseOperators`), so operators of
one precedence group to the left.

A statement that cannot be read is dropped and its error recorded; reading goes on with the token
after the one that was current then.  Inside a block there is one exception: if that token is a
closing brace, it ends the block.  `parseProgram` therefore gives both a program, without the
statements that failed, and all errors in the order they were found.

Every call of the recursion is made with fewer tokens left, or with as many and from a larger
construct to a smaller one; the measures below say this in one number. -/

namespace Marmoset

open TokenStream (remaining_advance remaining_advance_lt remaining_pos)

mutual

/-- Reads an expression whose operators bind tighter than `p`. -/
def Expr.parse (p : Precedence) (s : TokenStream) : Parsed s Expr :=
  (Expr.parsePrimary s).andThen fun left t _ => Expr.parseOperators p left t
termination_by 5 * s.remaining + 2

/-- Reads an expression up to its first operator: a literal, a name, a unary operator with its
operand, an expression in parentheses, a conditional, a function, an array or a hash. -/
def Expr.parsePrimary (s : TokenStream) : Parsed s Expr :=
  if h : s.current.kind = .eof then .failHere (.noExpression .eof) else
  have pos : 0 < s.remaining := remaining_pos h
  match s.current.kind with
  | .name => .here (.name s.current.literal)
  | .integer =>
    match Integer.ofText? s.current.literal with
    | some value => .here (.integer value)
    | none => .failHere (.badInteger s.current.literal)
  | .text => .here (.text s.current.literal)
  | .trueWord => .here (.boolean true)
  | .falseWord => .here (.boolean false)
  | .bang => ((Expr.parse .unary s.advance).map (.unary .not)).shift
  | .minus => ((Expr.parse .unary s.advance).map (.unary .negate)).shift
  | .leftParen =>
    ((Expr.parse .lowest s.advance).andThen fun inner t _ =>
      (Parsed.expect .rightParen t).map fun _ => inner).shift
  | .ifWord =>
    ((Expr.parse .lowest s.advance).andThen fun condition t _ =>
      (Stmt.parseBraces t).andThen fun consequence u _ =>
        if u.next.kind = .elseWord then
          ((Stmt.parseBraces u.advance).map fun alternative =>
            .cond condition consequence (some alternative)).shift
        else .here (.cond condition consequence none)).shift
  | .fnWord =>
    (Parsed.expect .leftParen s).andThen fun _ t _ =>
      (Parsed.parameters t).andThen fun parameters u _ =>
        (Stmt.parseBraces u).map (.function parameters)
  | .leftBracket =>
    (Parsed.items .rightBracket s.remaining (fun t _ => Expr.parse .lowest t) s
      (remaining_advance_lt pos)).map .array
  | .leftBrace =>
    (Parsed.items .rightBrace s.remaining (fun t _ => Expr.parsePair t) s
      (remaining_advance_lt pos)).map .hash
  | kind => .failHere (.noExpression kind)
termination_by 5 * s.remaining + 1
decreasing_by all_goals ((try simp only [remaining_advance] at *); omega)

/-- Reads an entry of a hash: a key, a colon and a value. -/
def Expr.parsePair (s : TokenStream) : Parsed s (Expr × Expr) :=
  (Expr.parse .lowest s).andThen fun key t _ =>
    (Parsed.expect .colon t).andThen fun _ u _ =>
      ((Expr.parse .lowest u.advance).map fun value => (key, value)).shift
termination_by 5 * s.remaining + 3
decreasing_by all_goals ((try simp only [remaining_advance] at *); omega)

/-- Reads the operators that bind tighter than `p` after the expression `left`. -/
def Expr.parseOperators (p : Precedence) (left : Expr) (s : TokenStream) : Parsed s Expr :=
  if h : p < Precedence.ofKind s.next.kind then
    have fewer := s.remaining_advance_advance_lt (Precedence.ne_eof_of_lt h)
    match s.next.kind with
    | .leftParen =>
      ((Parsed.items .rightParen s.remaining (fun t _ => Expr.parse .lowest t) s.advance
        fewer).andThen fun arguments t _ =>
          Expr.parseOperators p (.call left arguments) t).shift
    | .leftBracket =>
      ((Expr.parse .lowest s.advance.advance).andThen fun position t _ =>
        (Parsed.expect .rightBracket t).andThen fun _ u _ =>
          Expr.parseOperators p (.index left position) u).shift.shift
    | kind =>
      match BinaryOp.ofKind? kind with
      | some op =>
        ((Expr.parse (Precedence.ofKind kind) s.advance.advance).andThen fun right t _ =>
          Expr.parseOperators p (.binary op left right) t).shift.shift
      | none => .here left
  else .here left
termination_by 5 * s.remaining
decreasing_by all_goals ((try simp only [remaining_advance] at *); omega)

/-- Reads a block with its braces; the opening brace is the token after the current one. -/
def Stmt.parseBraces (s : TokenStream) : Parsed s Block :=
  (Parsed.expect .leftBrace s).andThen fun _ t _ => (Stmt.parseBlock t.advance).shift
termination_by 5 * s.advance.remaining + 5
decreasing_by all_goals ((try simp only [remaining_advance] at *); omega)

/-- Reads the statements of a block up to the closing brace; the current token is the one after the
opening brace. -/
def Stmt.parseBlock (s : TokenStream) : Parsed s Block :=
  if s.current.kind = .rightBrace then .here []
  else if h : s.current.kind = .eof then
    (Parsed.here []).after [⟨.unclosedBlock, s.current.line⟩]
  else
    have : 0 < s.remaining := remaining_pos h
    (Stmt.parse s).resume fun outcome t _ =>
      match outcome with
      | .ok statement => ((Stmt.parseBlock t.advance).map (statement :: ·)).shift
      | .error error =>
        Parsed.after [error] <|
          if t.current.kind = .rightBrace then .here []
          else (Stmt.parseBlock t.advance).shift
termination_by 5 * s.remaining + 4
decreasing_by all_goals ((try simp only [remaining_advance] at *); omega)

/-- Reads a statement, with the semicolon after it if there is one. -/
def Stmt.parse (s : TokenStream) : Parsed s Stmt :=
  if h : s.current.kind = .letWord then
    have : 0 < s.remaining := remaining_pos (by rw [h]; decide)
    (Parsed.expect .name s).andThen fun _ t _ =>
      (Parsed.expect .assign t).andThen fun _ u _ =>
        ((Expr.parse .lowest u.advance).andThen fun value v _ =>
          Parsed.skipSemicolon (.bind t.current.literal value) v).shift
  else if h : s.current.kind = .returnWord then
    have : 0 < s.remaining := remaining_pos (by rw [h]; decide)
    ((Expr.parse .lowest s.advance).andThen fun value t _ =>
      Parsed.skipSemicolon (.return value) t).shift
  else
    (Expr.parse .lowest s).andThen fun value t _ => Parsed.skipSemicolon (.expr value) t
termination_by 5 * s.remaining + 3
decreasing_by all_goals ((try simp only [remaining_advance] at *); omega)

end

/-- A program and the errors found while reading it. -/
structure ParseResult where
  program : Program
  errors : List ParseError

/-- Reads statements up to the end of the input. -/
def parseProgram (s : TokenStream) : ParseResult :=
  if h : s.current.kind = .eof then ⟨[], []⟩
  else
    have : 0 < s.remaining := remaining_pos h
    match Stmt.parse s with
    | ⟨outcome, recorded, stop, _⟩ =>
      let rest := parseProgram stop.advance
      match outcome with
      | .ok statement => ⟨statement :: rest.program, recorded ++ rest.errors⟩
      | .error error => ⟨rest.program, recorded ++ error :: rest.errors⟩
termination_by s.remaining
decreasing_by rw [remaining_advance]; omega

/-- Reads a source text. -/
def parseSource (source : String) : ParseResult :=
  parseProgram (TokenStream.ofSource source)

end Marmoset
