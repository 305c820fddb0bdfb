import Marmoset.Program.Operator

/-! # Programs

The trees that programs are read into: expressions (`Expr`) and statements (`Stmt`).  A block and a
program are both lists of statements.  Grouping parentheses leave no trace in a tree. -/

namespace Marmoset

mutual

/-- An expression.  A conditional may lack its second block; a hash has its pairs in the order of
the source. -/
inductive Expr where
  | name (name : String)
  | integer (value : Int64)
  | text (value : String)
  | boolean (value : Bool)
  | unary (op : UnaryOp) (operand : Expr)
  | binary (op : BinaryOp) (left right : Expr)
  | cond (condition : Expr) (consequence : List Stmt) (alternative : Option (List Stmt))
  | function (parameters : List String) (body : List Stmt)
  | call (callee : Expr) (arguments : List Expr)
  | array (elements : List Expr)
  | index (collection position : Expr)
  | hash (pairs : List (Expr × Expr))

/-- A statement: a binding, a return, an expression for its value, or a block. -/
inductive Stmt where
  | bind (name : String) (value : Expr)
  | return (value : Expr)
  | expr (value : Expr)
  | block (body : List Stmt)

end

/-- Statements in braces. -/
abbrev Block := List Stmt

/-- The statements of a whole source text. -/
abbrev Program := List Stmt

end Marmoset
