import Marmoset.Value.Basic

/-! # Operations on values

What the operators compute (`UnaryOp.apply`, `BinaryOp.apply`) and what stands at an index of an
array or a hash (`Value.index`).  Arithmetic on integers wraps around; division goes toward zero and
fails on a zero divisor.  Any two values of one type can be compared for equality, and only integers
have an order. -/

namespace Marmoset

/-- The result of a unary operator. -/
def UnaryOp.apply : UnaryOp → Value → Except RuntimeError Value
  | not, v => .ok (.boolean (!v.isTruthy))
  | negate, .integer n => .ok (.integer (-n))
  | negate, v => .error (.unknownUnary .negate v.tag)

namespace BinaryOp

/-- The result of a binary operator on integers. -/
def applyIntegers : BinaryOp → Int64 → Int64 → Except RuntimeError Value
  | add, a, b => .ok (.integer (a + b))
  | sub, a, b => .ok (.integer (a - b))
  | mul, a, b => .ok (.integer (a * b))
  | div, a, b => if b = 0 then .error .divisionByZero else .ok (.integer (a / b))
  | less, a, b => .ok (.boolean (decide (a < b)))
  | greater, a, b => .ok (.boolean (decide (b < a)))
  | equal, a, b => .ok (.boolean (a == b))
  | notEqual, a, b => .ok (.boolean (a != b))

/-- The result of a binary operator on texts. -/
def applyTexts : BinaryOp → String → String → Except RuntimeError Value
  | add, a, b => .ok (.text (a ++ b))
  | equal, a, b => .ok (.boolean (a == b))
  | notEqual, a, b => .ok (.boolean (a != b))
  | op, _, _ => .error (.unknownBinary .text op .text)

/-- The result of a binary operator. -/
def apply : BinaryOp → Value → Value → Except RuntimeError Value
  | op, .integer a, .integer b => op.applyIntegers a b
  | op, .text a, .text b => op.applyTexts a b
  | op, a, b =>
    if a.tag ≠ b.tag then .error (.typeMismatch a.tag op b.tag)
    else match op with
      | equal => .ok (.boolean (a.equal b))
      | notEqual => .ok (.boolean (!a.equal b))
      | op => .error (.unknownBinary a.tag op b.tag)

end BinaryOp

namespace Value

/-- The key of a value, or the error that it has none. -/
def requireKey (v : Value) : Except RuntimeError Key :=
  match v.key? with
  | some key => .ok key
  | none => .error (.notHashable v.tag)

/-- The element of an array at an integer, or the value of a key in a hash; `null` if there is
none. -/
def index : Value → Value → Except RuntimeError Value
  | array elements, integer position =>
    .ok (((Integer.toSize? position).bind (elements[·]?)).getD null)
  | hash entries, v => v.requireKey.map fun key => (Table.get? entries key).getD null
  | v, _ => .error (.notIndexable v.tag)

end Value

end Marmoset
