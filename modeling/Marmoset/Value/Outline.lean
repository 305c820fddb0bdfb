import Marmoset.Builtin
import Marmoset.Program.Outline

/-! # Outlines of functions and scopes

Functions show their parameters and body and leave their scope out, since a scope can hold the
function itself.  Scopes show the names bound in each frame in alphabetical order, without their
values. -/

namespace Marmoset

def Closure.outline (f : Closure) : Outline :=
  .record "Function"
    [("parameters", .parameters f.parameters), ("body", .block (Stmt.outlines f.body))] false

def Arity.outline : Arity → Outline
  | exactly n => .parts "Exact" [.word (toString n)]
  | any => .word "Any"

def Builtin.outline (b : Builtin) : Outline :=
  .record "Builtin" [("name", .text b.name), ("arity", b.arity.outline)] false

namespace Store

/-- The names bound in a frame, in alphabetical order. -/
def sortedNames (store : Store) (frame : Nat) : List String :=
  (store.namesAt frame).mergeSort fun a b => decide (a ≤ b)

/-- The outline of a frame and the ones around it. -/
def frameOutline (store : Store) (frame : Nat) : List Nat → Outline
  | [] => environment none
  | next :: outer => environment (some (store.frameOutline next outer))
where
  /-- The frame itself, inside what is around it. -/
  environment (outer : Option Outline) : Outline :=
    .record "Environment"
      [("names", .list ((store.sortedNames frame).map .text)), ("outer", .option outer)] true

/-- The outline of a scope. -/
def scopeOutline (store : Store) (scope : Scope) : Outline :=
  store.frameOutline scope.frame scope.outer

end Store

end Marmoset
