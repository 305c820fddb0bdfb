import Marmoset.Integer
import Marmoset.Program.Printer
import Marmoset.Table
import Marmoset.Value.RuntimeError

/-! # Values

The values that programs compute with (`Value`), their types, which of them count as true, which of
them can be hash keys (`Value.key?`), their equality (`Value.equal`) and their text
(`Value.render`).

Values are compared by content, hashes without regard to the order of their entries.  Functions are
the exception: each evaluation of a function literal makes a new function with a number of its own,
and a function equals only itself. -/

namespace Marmoset

/-- A place in the store where names are bound: a frame and the frames around it, from the inside
outwards. -/
structure Scope where
  frame : Nat
  outer : List Nat
deriving DecidableEq, Repr

/-- The frames of a scope, from the inside outwards. -/
def Scope.frames (scope : Scope) : List Nat :=
  scope.frame :: scope.outer

/-- A function made by a program: its number, its parameters and body, and the scope of the literal
that it came from. -/
structure Closure where
  id : Nat
  parameters : List String
  body : Block
  scope : Scope

/-- The functions that need no definition. -/
inductive Builtin where
  | len | first | last | rest | push | puts
deriving DecidableEq, Repr

/-- What a hash entry is found by. -/
inductive Key where
  | integer (value : Int64)
  | boolean (value : Bool)
  | text (value : String)
deriving DecidableEq, Repr

/-- A value.  `returned` is the value of a `return` on its way to the end of a function body, and
`error` is the result of a program that stopped. -/
inductive Value where
  | integer (value : Int64)
  | boolean (value : Bool)
  | null
  | text (value : String)
  | array (elements : List Value)
  | hash (entries : List (Key × Value))
  | function (closure : Closure)
  | builtin (builtin : Builtin)
  | returned (value : Value)
  | error (error : RuntimeError)

namespace Key

/-- The key as a value. -/
def toValue : Key → Value
  | integer value => .integer value
  | boolean value => .boolean value
  | text value => .text value

/-- The text of a key. -/
def render : Key → String
  | integer value => Integer.text value
  | boolean true => "true"
  | boolean false => "false"
  | text value => value

end Key

namespace Value

/-- The type of a value. -/
def tag : Value → TypeTag
  | integer _ => .integer
  | boolean _ => .boolean
  | null => .null
  | text _ => .text
  | array _ => .array
  | hash _ => .hash
  | function _ => .function
  | builtin _ => .builtin
  | returned _ => .returned
  | error _ => .error

def isError : Value → Bool
  | error _ => true
  | _ => false

/-- Everything counts as true but `false` and `null`. -/
def isTruthy : Value → Bool
  | boolean false | null => false
  | _ => true

/-- The key of a value: integers, booleans and texts have one. -/
def key? : Value → Option Key
  | integer value => some (.integer value)
  | boolean value => some (.boolean value)
  | text value => some (.text value)
  | _ => none

/-- The value that a `return` carries; any other value is itself. -/
def unwrap : Value → Value
  | returned value => value
  | value => value

/-! ### Equality -/

mutual

/-- Equality of values. -/
def equal : Value → Value → Bool
  | integer a, integer b => a == b
  | boolean a, boolean b => a == b
  | null, null => true
  | text a, text b => a == b
  | array as, array bs => equalAll as bs
  | hash as, hash bs => as.length == bs.length && entriesIn as bs
  | function f, function g => f.id == g.id
  | builtin a, builtin b => a == b
  | returned a, returned b => equal a b
  | error a, error b => a == b
  | _, _ => false

/-- Equality of lists of values. -/
def equalAll : List Value → List Value → Bool
  | [], [] => true
  | a :: as, b :: bs => equal a b && equalAll as bs
  | _, _ => false

/-- Every key of the first entries has an equal value in the second. -/
def entriesIn : List (Key × Value) → List (Key × Value) → Bool
  | [], _ => true
  | (key, a) :: as, bs =>
    (match Table.get? bs key with
      | some b => equal a b
      | none => false) && entriesIn as bs

end

/-! ### Text -/

mutual

/-- The text of a value.  Texts stand for themselves, without quotes. -/
def render : Value → String
  | integer value => Integer.text value
  | boolean true => "true"
  | boolean false => "false"
  | null => "null"
  | text value => value
  | array elements => "[" ++ commaJoin (texts elements) ++ "]"
  | hash entries => "\x7b" ++ commaJoin (entryTexts entries) ++ "\x7d"
  | function f =>
    "fn (" ++ commaJoin f.parameters ++ ") \x7b\n" ++ Stmt.renderAll f.body ++ "\n\x7d"
  | builtin _ => "builtin function"
  | returned value => render value
  | error e => "ERROR: " ++ e.message

/-- The texts of several values. -/
def texts : List Value → List String
  | [] => []
  | v :: vs => render v :: texts vs

/-- The texts of hash entries, each with a colon and a space in the middle. -/
def entryTexts : List (Key × Value) → List String
  | [] => []
  | (key, v) :: entries => (key.render ++ ": " ++ render v) :: entryTexts entries

end

/-! ### Keys and values -/

theorem key?_toValue (key : Key) : key.toValue.key? = some key := by
  cases key <;> rfl

theorem key?_eq_some_iff {v : Value} {key : Key} : v.key? = some key ↔ v = key.toValue := by
  cases v <;> cases key <;> simp [key?, Key.toValue]

theorem render_toValue (key : Key) : key.toValue.render = key.render := by
  rcases key with n | (_ | _) | s <;> simp [Key.toValue, render, Key.render]

end Value

end Marmoset
