import Marmoset.Integer
import Marmoset.Program.Basic
import Marmoset.Text.Outline

/-! # Outlines of programs

How expressions and statements are described by constructor and field names. -/

namespace Marmoset

def UnaryOp.outline : UnaryOp → Outline
  | negate => .word "Negate"
  | not => .word "Not"

def BinaryOp.outline : BinaryOp → Outline
  | add => .word "Add"
  | sub => .word "Sub"
  | mul => .word "Mul"
  | div => .word "Div"
  | less => .word "Less"
  | greater => .word "Greater"
  | equal => .word "Equal"
  | notEqual => .word "NotEqual"

/-- A name that is bound or referred to. -/
def Outline.name (name : String) : Outline :=
  .record "Identifier" [("name", .text name)] true

/-- A parameter list. -/
def Outline.parameters (names : List String) : Outline :=
  .list (names.map Outline.name)

/-- A block with the given statements. -/
def Outline.block (statements : List Outline) : Outline :=
  .record "BlockStatement" [("statements", .list statements)] true

mutual

/-- The outline of an expression. -/
def Expr.outline : Expr → Outline
  | .name name => .parts "Identifier" [.name name]
  | .integer value => .parts "IntegerLiteral" [.word (Integer.text value)]
  | .text value => .parts "StringLiteral" [.text value]
  | .boolean value => .parts "BoolLiteral" [.word (if value then "true" else "false")]
  | .unary op operand =>
    .record "Prefix" [("operator", op.outline), ("right", operand.outline)] true
  | .binary op left right =>
    .record "Infix"
      [("left", left.outline), ("operator", op.outline), ("right", right.outline)] true
  | .cond condition consequence none =>
    .record "If"
      [("condition", condition.outline), ("consequence", .block (Stmt.outlines consequence)),
        ("alternative", .option none)] true
  | .cond condition consequence (some alternative) =>
    .record "If"
      [("condition", condition.outline), ("consequence", .block (Stmt.outlines consequence)),
        ("alternative", .option (some (.block (Stmt.outlines alternative))))] true
  | .function parameters body =>
    .record "FunctionLiteral"
      [("parameters", .parameters parameters), ("body", .block (Stmt.outlines body))] true
  | .call callee arguments =>
    .record "Call"
      [("function", callee.outline), ("arguments", .list (Expr.outlines arguments))] true
  | .array elements => .parts "ArrayLiteral" [.list (Expr.outlines elements)]
  | .index collection position =>
    .record "Index" [("left", collection.outline), ("index", position.outline)] true
  | .hash pairs => .parts "HashLiteral" [.list (Expr.pairOutlines pairs)]

/-- The outlines of several expressions. -/
def Expr.outlines : List Expr → List Outline
  | [] => []
  | e :: es => e.outline :: Expr.outlines es

/-- The outlines of several pairs. -/
def Expr.pairOutlines : List (Expr × Expr) → List Outline
  | [] => []
  | (key, value) :: pairs => .parts "" [key.outline, value.outline] :: Expr.pairOutlines pairs

/-- The outline of a statement. -/
def Stmt.outline : Stmt → Outline
  | .bind name value => .record "Let" [("name", .name name), ("value", value.outline)] true
  | .return value => .record "Return" [("value", value.outline)] true
  | .expr value => .record "Expression" [("expression", value.outline)] true
  | .block body => .parts "Block" [.block (Stmt.outlines body)]

/-- The outlines of several statements. -/
def Stmt.outlines : List Stmt → List Outline
  | [] => []
  | s :: ss => s.outline :: Stmt.outlines ss

end

end Marmoset
