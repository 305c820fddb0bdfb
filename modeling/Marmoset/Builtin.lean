import Marmoset.Effect
import Marmoset.Value.Operation

/-! # Built-in functions

The functions that are there without a definition.  `Builtin.ofName?` finds one by name,
`Builtin.arity` says how many arguments it takes, and `Builtin.call` runs it.  Arrays are never
changed: `rest` and `push` make new ones. -/

namespace Marmoset

/-- How many arguments a built-in function takes. -/
inductive Arity where
  | exactly (n : Nat)
  | any
deriving DecidableEq, Repr

/-! ### Requirements on arguments -/

/-- Refuses a wrong number of arguments. -/
def requireCount (arguments : List Value) (want : Nat) : Except RuntimeError Unit :=
  if arguments.length = want then .ok () else .error (.argumentCount arguments.length want)

/-- The elements of an array that is given to the named function. -/
def requireArray (function : String) : Value → Except RuntimeError (List Value)
  | .array elements => .ok elements
  | v => .error (.unsupportedArgument function v.tag)

/-- A size as an integer of the language. -/
def requireSize (n : Nat) : Except RuntimeError Int64 :=
  match Integer.ofSize? n with
  | some value => .ok value
  | none => .error .sizeOutOfRange

namespace Builtin

/-! ### The functions -/

/-- All built-in functions, in the order of their listing. -/
def all : List Builtin :=
  [len, first, last, rest, push, puts]

def name : Builtin → String
  | len => "len"
  | first => "first"
  | last => "last"
  | rest => "rest"
  | push => "push"
  | puts => "puts"

/-- The number of arguments that a function needs. -/
def parameterCount : Builtin → Nat
  | len | first | last | rest => 1
  | push => 2
  | puts => 0

/-- Every function but `puts` takes as many arguments as it needs. -/
def arity : Builtin → Arity
  | puts => .any
  | b => .exactly b.parameterCount

/-- The built-in function with a given name. -/
def ofName? (name : String) : Option Builtin :=
  all.find? fun b => b.name == name

/-- The size of a text in characters, or of an array in elements. -/
def size : Value → Except RuntimeError Value
  | .text s => (requireSize s.length).map .integer
  | .array elements => (requireSize elements.length).map .integer
  | v => .error (.unsupportedArgument len.name v.tag)

/-- All elements but the first as an array; `null` if there is no first. -/
def tail : List Value → Value
  | [] => .null
  | _ :: elements => .array elements

/-- The result of a function on as many arguments as it needs.  `puts` gives `null`. -/
def apply : Builtin → List Value → Except RuntimeError Value
  | len, [v] => size v
  | first, [v] => (requireArray first.name v).map fun elements => elements.head?.getD .null
  | last, [v] => (requireArray last.name v).map fun elements => elements.getLast?.getD .null
  | rest, [v] => (requireArray rest.name v).map tail
  | push, [v, element] =>
    (requireArray push.name v).map fun elements => .array (elements ++ [element])
  | _, _ => .ok .null

/-- The result of a function.  Its arguments are counted first, unless it takes any number. -/
def result (b : Builtin) (arguments : List Value) : Except RuntimeError Value :=
  match b.arity with
  | .exactly want => do
    requireCount arguments want
    b.apply arguments
  | .any => b.apply arguments

variable {b : Builtin} {arguments : List Value} {want : Nat}

theorem result_of_length_eq (takes : b.arity = .exactly want) (count : arguments.length = want) :
    b.result arguments = b.apply arguments := by
  unfold result
  rw [takes]
  simp only [requireCount, if_pos count]
  rfl

theorem result_of_length_ne (takes : b.arity = .exactly want) (wrong : arguments.length ≠ want) :
    b.result arguments = .error (.argumentCount arguments.length want) := by
  unfold result
  rw [takes]
  simp only [requireCount, if_neg wrong]
  rfl

theorem apply_of_result_eq_ok {v : Value} (h : b.result arguments = .ok v) :
    b.apply arguments = .ok v := by
  unfold result requireCount at h
  split at h
  · split at h
    · exact h
    · cases h
  · exact h

/-- The lines that a function prints: `puts` prints each of its arguments. -/
def printed : Builtin → List Value → List String
  | puts, arguments => arguments.map Value.render
  | _, _ => []

/-- Runs a function on its arguments. -/
def call (b : Builtin) (arguments : List Value) : Eval Value := do
  Eval.change fun store => (b.printed arguments).foldl Store.printLine store
  Eval.ofExcept (b.result arguments)

end Builtin

end Marmoset
