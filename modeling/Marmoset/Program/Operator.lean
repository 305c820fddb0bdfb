import Marmoset.Token

/-! # Operators

The unary and binary operators, the symbols they are written with, and how tightly each token binds
between two operands (`Precedence.ofKind`). -/

namespace Marmoset

/-- The operators written before their operand. -/
inductive UnaryOp where
  | negate | not
deriving DecidableEq, Repr

/-- The operators written between their operands. -/
inductive BinaryOp where
  | add | sub | mul | div | less | greater | equal | notEqual
deriving DecidableEq, Repr

namespace UnaryOp

def all : List UnaryOp :=
  [negate, not]

/-- How the operator is written. -/
def symbol : UnaryOp → String
  | negate => "-"
  | not => "!"

/-- The operator written with a given symbol. -/
def ofSymbol? (s : String) : Option UnaryOp :=
  all.find? fun op => op.symbol == s

end UnaryOp

namespace BinaryOp

def all : List BinaryOp :=
  [add, sub, mul, div, less, greater, equal, notEqual]

/-- How the operator is written. -/
def symbol : BinaryOp → String
  | add => "+"
  | sub => "-"
  | mul => "*"
  | div => "/"
  | less => "<"
  | greater => ">"
  | equal => "=="
  | notEqual => "!="

/-- The operator written with a given symbol. -/
def ofSymbol? (s : String) : Option BinaryOp :=
  all.find? fun op => op.symbol == s

/-- The binary operator that a token stands for. -/
def ofKind? : TokenKind → Option BinaryOp
  | .plus => some add
  | .minus => some sub
  | .star => some mul
  | .slash => some div
  | .less => some less
  | .greater => some greater
  | .equal => some equal
  | .notEqual => some notEqual
  | _ => none

end BinaryOp

/-- How tightly an operator binds, from the loosest to the tightest. -/
inductive Precedence where
  | lowest | equality | order | sum | product | unary | call | index
deriving DecidableEq, Repr

namespace Precedence

/-- The place of a precedence in their order. -/
def level : Precedence → Nat
  | lowest => 0
  | equality => 1
  | order => 2
  | sum => 3
  | product => 4
  | unary => 5
  | call => 6
  | index => 7

instance : LT Precedence :=
  ⟨fun p q => p.level < q.level⟩

instance (p q : Precedence) : Decidable (p < q) :=
  inferInstanceAs (Decidable (p.level < q.level))

/-- How tightly a token binds to the operand before it.  Tokens that cannot go on an expression
bind as `lowest`, which nothing is below. -/
def ofKind : TokenKind → Precedence
  | .equal | .notEqual => equality
  | .less | .greater => order
  | .plus | .minus => sum
  | .star | .slash => product
  | .leftParen => call
  | .leftBracket => index
  | _ => lowest

theorem not_lt_lowest (p : Precedence) : ¬ p < lowest :=
  Nat.not_lt_zero p.level

/-- The end of the input does not go on an expression. -/
theorem ne_eof_of_lt {p : Precedence} {kind : TokenKind} (h : p < ofKind kind) : kind ≠ .eof := by
  rintro rfl
  exact not_lt_lowest p h

end Precedence

end Marmoset
