import Marmoset.Integer
import Marmoset.Program.Basic

/-! # The text of a program

`Expr.render` and `Stmt.render` write a tree in one line with every operator in parentheses, so that
the grouping can be seen.  A text literal is written without quotes, statements follow each other
without a separator, and blocks have no braces. -/

namespace Marmoset

/-- Texts one after another, divided by a comma and a space. -/
def commaJoin (texts : List String) : String :=
  String.intercalate ", " texts

mutual

/-- The text of an expression. -/
def Expr.render : Expr → String
  | .name name => name
  | .integer value => Integer.text value
  | .text value => value
  | .boolean true => "true"
  | .boolean false => "false"
  | .unary op operand => "(" ++ op.symbol ++ operand.render ++ ")"
  | .binary op left right =>
    "(" ++ left.render ++ " " ++ op.symbol ++ " " ++ right.render ++ ")"
  | .cond condition consequence none =>
    "if" ++ condition.render ++ " " ++ Stmt.renderAll consequence
  | .cond condition consequence (some alternative) =>
    "if" ++ condition.render ++ " " ++ Stmt.renderAll consequence ++
      "else " ++ Stmt.renderAll alternative
  | .function parameters body =>
    "fn(" ++ commaJoin parameters ++ ") " ++ Stmt.renderAll body
  | .call callee arguments => callee.render ++ "(" ++ commaJoin (Expr.texts arguments) ++ ")"
  | .array elements => "[" ++ commaJoin (Expr.texts elements) ++ "]"
  | .index collection position => "(" ++ collection.render ++ "[" ++ position.render ++ "])"
  | .hash pairs => "\x7b" ++ commaJoin (Expr.pairTexts pairs) ++ "\x7d"

/-- The texts of several expressions. -/
def Expr.texts : List Expr → List String
  | [] => []
  | e :: es => e.render :: Expr.texts es

/-- The texts of several pairs, each with a colon in the middle. -/
def Expr.pairTexts : List (Expr × Expr) → List String
  | [] => []
  | (key, value) :: pairs => (key.render ++ ":" ++ value.render) :: Expr.pairTexts pairs

/-- The text of a statement. -/
def Stmt.render : Stmt → String
  | .bind name value => "let " ++ name ++ " = " ++ value.render ++ ";"
  | .return value => "return " ++ value.render ++ ";"
  | .expr value => value.render
  | .block body => Stmt.renderAll body

/-- The text of statements in a row. -/
def Stmt.renderAll : List Stmt → String
  | [] => ""
  | s :: ss => s.render ++ Stmt.renderAll ss

end

end Marmoset
