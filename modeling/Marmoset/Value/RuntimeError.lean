import Marmoset.Program.Operator

/-! # Runtime errors

What can go wrong while a program runs.  Errors speak of values by their type only (`TypeTag`); the
wording of each is in `RuntimeError.message`. -/

namespace Marmoset

/-- The type of a value, as errors name it. -/
inductive TypeTag where
  | integer | boolean | null | text | array | hash | function | builtin | returned | error
deriving DecidableEq, Repr

/-- The name of a type. -/
def TypeTag.label : TypeTag → String
  | integer => "INTEGER"
  | boolean => "BOOLEAN"
  | null => "NULL"
  | text => "STRING"
  | array => "ARRAY"
  | hash => "HASH"
  | function => "FUNCTION"
  | builtin => "BUILTIN"
  | returned => "RETURN_VALUE"
  | error => "ERROR"

/-- The causes for which a program stops. -/
inductive RuntimeError where
  /-- A name that is neither bound nor built in. -/
  | unboundName (name : String)
  /-- A unary operator on an operand it is not defined for. -/
  | unknownUnary (op : UnaryOp) (operand : TypeTag)
  /-- A binary operator on operands of one type that it is not defined for. -/
  | unknownBinary (left : TypeTag) (op : BinaryOp) (right : TypeTag)
  /-- A binary operator between operands of different types. -/
  | typeMismatch (left : TypeTag) (op : BinaryOp) (right : TypeTag)
  /-- A call of something that is no function. -/
  | notCallable (found : TypeTag)
  /-- A hash key of a type that cannot be one. -/
  | notHashable (found : TypeTag)
  /-- An index into something that has no elements, or none at such a place. -/
  | notIndexable (found : TypeTag)
  /-- A call with too few or too many arguments. -/
  | argumentCount (got want : Nat)
  /-- A built-in function on an argument it is not defined for. -/
  | unsupportedArgument (function : String) (found : TypeTag)
  /-- Too many calls inside each other. -/
  | callLimit (limit : Nat)
  | divisionByZero
  /-- A size that is no integer of the language. -/
  | sizeOutOfRange
deriving DecidableEq, Repr

/-- The wording of an error. -/
def RuntimeError.message : RuntimeError → String
  | unboundName name => "identifier not found: " ++ name
  | unknownUnary op operand => "unknown operator: " ++ op.symbol ++ operand.label
  | unknownBinary left op right =>
    "unknown operator: " ++ left.label ++ " " ++ op.symbol ++ " " ++ right.label
  | typeMismatch left op right =>
    "type mismatch: " ++ left.label ++ " " ++ op.symbol ++ " " ++ right.label
  | notCallable found => "not a function: " ++ found.label
  | notHashable found => "unusable as hash key: " ++ found.label
  | notIndexable found => "index operator not supported: " ++ found.label
  | argumentCount got want =>
    "wrong number of arguments: got=" ++ toString got ++ ", want=" ++ toString want
  | unsupportedArgument function found =>
    "argument to '" ++ function ++ "' not supported, got " ++ found.label
  | callLimit limit => "maximum recursion depth exceeded (limit: " ++ toString limit ++ ")"
  | divisionByZero => "division by zero"
  | sizeOutOfRange => "value out of integer range"

end Marmoset
