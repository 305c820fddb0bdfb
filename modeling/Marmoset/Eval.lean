import Marmoset.Builtin
import Marmoset.CallDepth

/-! # Evaluation

`Expr.eval` and `Stmt.exec` say what programs mean.  Both take the number of calls that are active
(`depth`) and the scope that names are looked up and bound in.

A call of a function is entered at the depth of its caller and is refused at the limit
(`enterCall`).  This bounds every run: a subexpression is evaluated at the same depth and is
smaller, and a body is evaluated at a greater depth, so the pair of the calls still allowed and the
size of the tree goes down lexicographically.

A `return` statement has the value it returns, wrapped in `Value.returned`.  A block that meets a
wrapped value ends with it, a call unwraps it, and so does the end of a program.  An expression can
hand it on: the value of a conditional is the value of its block. -/

namespace Marmoset

/-- The value of a name: what it is bound to, else the built-in function of this name. -/
def nameValue (scope : Scope) (name : String) (store : Store) : Except RuntimeError Value :=
  match store.lookup scope name with
  | some value => .ok value
  | none =>
    match Builtin.ofName? name with
    | some b => .ok (.builtin b)
    | none => .error (.unboundName name)

/-- The scope of a call: a new frame inside the function's own scope, with its parameters bound to
the arguments. -/
def Closure.enter (f : Closure) (arguments : List Value) (store : Store) : Scope × Store :=
  let (scope, store) := store.enclose f.scope
  (scope, store.assignAll scope (f.parameters.zip arguments))

/-- The value of a call whose body ended with `last`. -/
def callResult (last : Option Value) : Value :=
  match last with
  | some value => value.unwrap
  | none => .null

mutual

/-- The value of an expression. -/
def Expr.eval (depth : Nat) (scope : Scope) : Expr → Eval Value
  | .name name => do
    Eval.ofExcept (← Eval.view (nameValue scope name))
  | .integer value => pure (.integer value)
  | .text value => pure (.text value)
  | .boolean value => pure (.boolean value)
  | .unary op operand => do
    let v ← operand.eval depth scope
    Eval.ofExcept (op.apply v)
  | .binary op left right => do
    let a ← left.eval depth scope
    let b ← right.eval depth scope
    Eval.ofExcept (op.apply a b)
  | .cond condition consequence none => do
    if (← condition.eval depth scope).isTruthy then
      return (← Stmt.execAll depth scope none consequence).getD .null
    else
      return .null
  | .cond condition consequence (some alternative) => do
    if (← condition.eval depth scope).isTruthy then
      return (← Stmt.execAll depth scope none consequence).getD .null
    else
      return (← Stmt.execAll depth scope none alternative).getD .null
  | .function parameters body => do
    return .function (← Eval.step fun store => store.newClosure parameters body scope)
  | .call callee arguments => do
    let f ← callee.eval depth scope
    let values ← Expr.evalAll depth scope arguments
    Value.call depth f values
  | .array elements => do
    return .array (← Expr.evalAll depth scope elements)
  | .index collection position => do
    let c ← collection.eval depth scope
    let p ← position.eval depth scope
    Eval.ofExcept (c.index p)
  | .hash pairs => do
    return .hash (← Expr.evalPairs depth scope [] pairs)
termination_by e => (callLimit - depth, sizeOf e)

/-- The values of expressions, from left to right. -/
def Expr.evalAll (depth : Nat) (scope : Scope) : List Expr → Eval (List Value)
  | [] => pure []
  | e :: es => do
    let v ← e.eval depth scope
    let vs ← Expr.evalAll depth scope es
    return v :: vs
termination_by es => (callLimit - depth, sizeOf es)

/-- The entries of a hash: each key is evaluated and found usable before its value is evaluated. -/
def Expr.evalPairs (depth : Nat) (scope : Scope) (entries : Table Key Value) :
    List (Expr × Expr) → Eval (Table Key Value)
  | [] => pure entries
  | (key, value) :: pairs => do
    let k ← Eval.ofExcept (← key.eval depth scope).requireKey
    let v ← value.eval depth scope
    Expr.evalPairs depth scope (Table.insert entries k v) pairs
termination_by pairs => (callLimit - depth, sizeOf pairs)

/-- What a statement does, and its value if it has one. -/
def Stmt.exec (depth : Nat) (scope : Scope) : Stmt → Eval (Option Value)
  | .bind name value => do
    let v ← value.eval depth scope
    Eval.change fun store => store.assign scope name v
    return none
  | .return value => do
    return some (.returned (← value.eval depth scope))
  | .expr value => do
    return some (← value.eval depth scope)
  | .block body => Stmt.execAll depth scope none body
termination_by s => (callLimit - depth, sizeOf s)

/-- Statements in a row, up to the first return.  The value is that of the last one; it is `last` if
there is none. -/
def Stmt.execAll (depth : Nat) (scope : Scope) (last : Option Value) :
    List Stmt → Eval (Option Value)
  | [] => pure last
  | s :: ss => do
    match ← s.exec depth scope with
    | some (.returned v) => return some (.returned v)
    | value => Stmt.execAll depth scope value ss
termination_by ss => (callLimit - depth, sizeOf ss)

/-- The value of a call.  A wrong number of arguments is found before the limit is. -/
def Value.call (depth : Nat) (callee : Value) (arguments : List Value) : Eval Value :=
  match callee with
  | .function f =>
    if arguments.length ≠ f.parameters.length then
      throw (.argumentCount arguments.length f.parameters.length)
    else
      match h : enterCall depth with
      | .ok inner => do
        have := enterCall_lt h
        let scope ← Eval.step (f.enter arguments)
        return callResult (← Stmt.execAll inner scope none f.body)
      | .error e => throw e
  | .builtin b => b.call arguments
  | v => throw (.notCallable v.tag)
termination_by (callLimit - depth, 0)

end

/-! ### Calls of functions -/

theorem Value.call_of_count_ne {depth : Nat} {f : Closure} {arguments : List Value}
    (wrong : arguments.length ≠ f.parameters.length) :
    Value.call depth (.function f) arguments =
      throw (.argumentCount arguments.length f.parameters.length) := by
  rw [Value.call, if_pos wrong]

theorem Value.call_of_limit {depth : Nat} {f : Closure} {arguments : List Value}
    (count : arguments.length = f.parameters.length) (limit : ¬ depth < callLimit) :
    Value.call depth (.function f) arguments = throw (.callLimit callLimit) := by
  have refused : enterCall depth = .error (.callLimit callLimit) := if_neg limit
  rw [Value.call, if_neg (not_not_intro count)]
  split
  · next entered => cases refused.symm.trans entered
  · next other => cases refused.symm.trans other; rfl

theorem Value.runOn_call {depth : Nat} {f : Closure} {arguments : List Value}
    (count : arguments.length = f.parameters.length) (below : depth < callLimit) (store : Store) :
    (Value.call depth (.function f) arguments).runOn store =
      (Stmt.execAll (depth + 1) (f.enter arguments store).1 none f.body >>= fun last =>
        pure (callResult last)).runOn (f.enter arguments store).2 := by
  have entered : enterCall depth = .ok (depth + 1) := if_pos below
  rw [Value.call, if_neg (not_not_intro count)]
  split
  · next inner other =>
    cases entered.symm.trans other
    rw [Eval.runOn_bind, Eval.runOn_step]
  · next refused => cases entered.symm.trans refused

end Marmoset
