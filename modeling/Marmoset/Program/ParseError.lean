import Marmoset.Token

/-! # Parse errors

A parse error is a cause (`ParseError.Cause`) and the line of the token that it was found at.  The
wording is in `ParseError.message`; `ParseError.report` lists errors with their lines. -/

namespace Marmoset

/-- What can be wrong with a sequence of tokens. -/
inductive ParseError.Cause where
  /-- A token of one kind has to come next, and another one does. -/
  | unexpected (expected found : TokenKind)
  /-- No expression starts with a token of this kind. -/
  | noExpression (kind : TokenKind)
  /-- The literal of an integer token is no integer in range. -/
  | badInteger (literal : String)
  /-- The input ends inside a block. -/
  | unclosedBlock
deriving DecidableEq, Repr

/-- A cause and the line it was found on. -/
structure ParseError where
  cause : ParseError.Cause
  line : Nat
deriving DecidableEq, Repr

namespace ParseError

/-- The wording of a cause. -/
def Cause.message : Cause → String
  | unexpected expected found =>
    "expected next token to be " ++ expected.label ++ ", got " ++ found.label
  | noExpression kind => "no prefix parse function for " ++ kind.label
  | badInteger literal => "could not parse " ++ literal ++ " as integer"
  | unclosedBlock => "unexpected end of input"

/-- The wording of an error, without its line. -/
def message (e : ParseError) : String :=
  e.cause.message

/-- The wording of an error with its line. -/
def located (e : ParseError) : String :=
  "Error on line " ++ toString e.line ++ ": " ++ e.message

/-- Errors with their lines, one below the other. -/
def report (errors : List ParseError) : String :=
  String.intercalate "\n" (errors.map located)

end ParseError

end Marmoset
