import Marmoset.Eval
import Marmoset.Program.Parser

/-! # Running programs

A run turns what evaluation gives into a result: an error becomes an error value, and a return that
reaches the end of the program is unwrapped (`Node.run`).  `runSource` runs a source text: if it
cannot be read without errors, nothing of it is evaluated.  Runs in the same scope one after the
other see each other's bindings. -/

namespace Marmoset

/-- A tree that can be run by itself. -/
inductive Node where
  | program (statements : Program)
  | block (statements : Block)
  | statement (statement : Stmt)
  | expression (expression : Expr)

namespace Node

/-- The text of a node. -/
def render : Node → String
  | program statements => Stmt.renderAll statements
  | block statements => Stmt.renderAll statements
  | statement s => s.render
  | expression e => e.render

/-- The value of a node, if it has one. -/
def eval (depth : Nat) (scope : Scope) : Node → Eval (Option Value)
  | program statements => Stmt.execAll depth scope none statements
  | block statements => Stmt.execAll depth scope none statements
  | statement s => s.exec depth scope
  | expression e => do return some (← e.eval depth scope)

/-- The result of a node that gave `outcome`. -/
def resultOf : Except RuntimeError (Option Value) → Option Value
  | .ok value => value.map Value.unwrap
  | .error e => some (.error e)

/-- The result of a node, and the store after it. -/
def run (depth : Nat) (scope : Scope) (node : Node) (store : Store) : Option Value × Store :=
  let (outcome, store) := (node.eval depth scope).runOn store
  (resultOf outcome, store)

end Node

/-- The result of a source text or the errors found in it, and the store after it. -/
def runSource (depth : Nat) (scope : Scope) (source : String) (store : Store) :
    Except (List ParseError) (Option Value) × Store :=
  let parsed := parseSource source
  if parsed.errors.isEmpty then
    let (result, store) := (Node.program parsed.program).run depth scope store
    (.ok result, store)
  else
    (.error parsed.errors, store)

/-- A source that is read without errors is run as its program. -/
theorem runSource_of_errors_eq_nil {source : String} (read : (parseSource source).errors = [])
    (depth : Nat) (scope : Scope) (store : Store) :
    runSource depth scope source store =
      (.ok ((Node.program (parseSource source).program).run depth scope store).1,
        ((Node.program (parseSource source).program).run depth scope store).2) := by
  rw [runSource, read]
  rfl

end Marmoset
