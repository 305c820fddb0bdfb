import Marmoset.Proofs.Lookup
import Marmoset.Session

/-! # Rules of evaluation

The evaluator read as rules: what a tree gives, from what its parts give.  Each rule has a premise
for every part that is evaluated, in the order of evaluation, with the store before and after it.
The last part may fail; its outcome is carried over by `Except.map` or `Except.bind`, so that an
error of the part is an error of the whole.

The rules are those that proofs about given programs need: names, arithmetic, conditionals, function
literals and calls. -/

namespace Marmoset

variable {d : Nat} {s : Scope} {σ σ₁ σ₂ : Store}

/-! ### Expressions -/

namespace Expr

theorem runOn_integer (d : Nat) (s : Scope) (n : Int64) (σ : Store) :
    ((Expr.integer n).eval d s).runOn σ = (.ok (.integer n), σ) := by
  rw [Expr.eval, Eval.runOn_pure]

theorem runOn_name {name : String} {v : Value} (found : σ.lookup s name = some v) :
    ((Expr.name name).eval d s).runOn σ = (.ok v, σ) := by
  rw [Expr.eval, Eval.runOn_bind, Eval.runOn_view, nameValue_of_lookup found]
  rfl

/-- A name that is bound nowhere is that of a built-in function. -/
theorem runOn_builtin {b : Builtin} (unbound : σ.lookup s b.name = none) :
    ((Expr.name b.name).eval d s).runOn σ = (.ok (.builtin b), σ) := by
  have named : Builtin.ofName? b.name = some b := by cases b <;> rfl
  rw [Expr.eval, Eval.runOn_bind, Eval.runOn_view, nameValue, unbound, named]
  rfl

theorem runOn_unary (op : UnaryOp) {operand : Expr} {outcome : Except RuntimeError Value}
    (value : (operand.eval d s).runOn σ = (outcome, σ₁)) :
    ((Expr.unary op operand).eval d s).runOn σ = (outcome.bind op.apply, σ₁) := by
  rw [Expr.eval, Eval.runOn_bind, value]
  cases outcome <;> rfl

theorem runOn_binary (op : BinaryOp) {left right : Expr} {a : Value}
    {outcome : Except RuntimeError Value} (first : (left.eval d s).runOn σ = (.ok a, σ₁))
    (second : (right.eval d s).runOn σ₁ = (outcome, σ₂)) :
    ((Expr.binary op left right).eval d s).runOn σ = (outcome.bind (op.apply a), σ₂) := by
  rw [Expr.eval, Eval.runOn_bind, first]
  simp only
  rw [Eval.runOn_bind, second]
  cases outcome <;> rfl

theorem runOn_binary_error {op : BinaryOp} {left right : Expr} {e : RuntimeError}
    (first : (left.eval d s).runOn σ = (.error e, σ₁)) :
    ((Expr.binary op left right).eval d s).runOn σ = (.error e, σ₁) := by
  rw [Expr.eval, Eval.runOn_bind, first]

end Expr

@[simp] theorem Value.isTruthy_boolean (b : Bool) : (Value.boolean b).isTruthy = b := by
  cases b <;> rfl

namespace Expr

theorem runOn_cond_true {condition : Expr} {consequence alternative : Block} {v : Value}
    {outcome : Except RuntimeError (Option Value)}
    (test : (condition.eval d s).runOn σ = (.ok v, σ₁)) (truthy : v.isTruthy = true)
    (branch : (Stmt.execAll d s none consequence).runOn σ₁ = (outcome, σ₂)) :
    ((Expr.cond condition consequence (some alternative)).eval d s).runOn σ =
      (outcome.map (·.getD .null), σ₂) := by
  rw [Expr.eval, Eval.runOn_bind, test]
  simp only [truthy, if_true]
  rw [Eval.runOn_bind, branch]
  cases outcome <;> rfl

theorem runOn_cond_false {condition : Expr} {consequence alternative : Block} {v : Value}
    {outcome : Except RuntimeError (Option Value)}
    (test : (condition.eval d s).runOn σ = (.ok v, σ₁)) (falsy : v.isTruthy = false)
    (branch : (Stmt.execAll d s none alternative).runOn σ₁ = (outcome, σ₂)) :
    ((Expr.cond condition consequence (some alternative)).eval d s).runOn σ =
      (outcome.map (·.getD .null), σ₂) := by
  rw [Expr.eval, Eval.runOn_bind, test]
  simp only [falsy, Bool.false_eq_true, if_false]
  rw [Eval.runOn_bind, branch]
  cases outcome <;> rfl

theorem runOn_cond_error {condition : Expr} {consequence alternative : Block} {e : RuntimeError}
    (test : (condition.eval d s).runOn σ = (.error e, σ₁)) :
    ((Expr.cond condition consequence (some alternative)).eval d s).runOn σ = (.error e, σ₁) := by
  rw [Expr.eval, Eval.runOn_bind, test]

theorem runOn_function (d : Nat) (s : Scope) (parameters : List String) (body : Block)
    (σ : Store) :
    ((Expr.function parameters body).eval d s).runOn σ =
      (.ok (.function (σ.newClosure parameters body s).1), (σ.newClosure parameters body s).2) := by
  rw [Expr.eval, Eval.runOn_bind, Eval.runOn_step]
  rfl

theorem runOn_array {elements : List Expr} {vs : List Value}
    (given : (Expr.evalAll d s elements).runOn σ = (.ok vs, σ₁)) :
    ((Expr.array elements).eval d s).runOn σ = (.ok (.array vs), σ₁) := by
  rw [Expr.eval, Eval.runOn_bind, given]
  rfl

theorem runOn_call {callee : Expr} {arguments : List Expr} {f : Value} {vs : List Value}
    (called : (callee.eval d s).runOn σ = (.ok f, σ₁))
    (given : (Expr.evalAll d s arguments).runOn σ₁ = (.ok vs, σ₂)) :
    ((Expr.call callee arguments).eval d s).runOn σ = (Value.call d f vs).runOn σ₂ := by
  rw [Expr.eval, Eval.runOn_bind, called]
  simp only
  rw [Eval.runOn_bind, given]

/-- Without its arguments a function is not called. -/
theorem runOn_call_error {callee : Expr} {arguments : List Expr} {f : Value} {e : RuntimeError}
    (called : (callee.eval d s).runOn σ = (.ok f, σ₁))
    (given : (Expr.evalAll d s arguments).runOn σ₁ = (.error e, σ₂)) :
    ((Expr.call callee arguments).eval d s).runOn σ = (.error e, σ₂) := by
  rw [Expr.eval, Eval.runOn_bind, called]
  simp only
  rw [Eval.runOn_bind, given]

theorem runOn_evalAll_nil (d : Nat) (s : Scope) (σ : Store) :
    (Expr.evalAll d s []).runOn σ = (.ok [], σ) := by
  rw [Expr.evalAll, Eval.runOn_pure]

theorem runOn_evalAll_cons {e : Expr} {es : List Expr} {v : Value}
    {outcome : Except RuntimeError (List Value)} (first : (e.eval d s).runOn σ = (.ok v, σ₁))
    (others : (Expr.evalAll d s es).runOn σ₁ = (outcome, σ₂)) :
    (Expr.evalAll d s (e :: es)).runOn σ = (outcome.map (v :: ·), σ₂) := by
  rw [Expr.evalAll, Eval.runOn_bind, first]
  simp only
  rw [Eval.runOn_bind, others]
  cases outcome <;> rfl

theorem runOn_evalAll_singleton {e : Expr} {outcome : Except RuntimeError Value}
    (first : (e.eval d s).runOn σ = (outcome, σ₁)) :
    (Expr.evalAll d s [e]).runOn σ = (outcome.map ([·]), σ₁) := by
  rw [Expr.evalAll, Eval.runOn_bind, first]
  cases outcome with
  | error e => rfl
  | ok v =>
    simp only
    rw [Eval.runOn_bind, runOn_evalAll_nil]
    rfl

end Expr

/-! ### Statements -/

namespace Stmt

theorem runOn_execAll_bind {name : String} {e : Expr} {v : Value} {ss : List Stmt}
    (last : Option Value) (value : (e.eval d s).runOn σ = (.ok v, σ₁)) :
    (Stmt.execAll d s last (.bind name e :: ss)).runOn σ =
      (Stmt.execAll d s none ss).runOn (σ₁.assign s name v) := by
  have bound : ((Stmt.bind name e).exec d s).runOn σ = (.ok none, σ₁.assign s name v) := by
    rw [Stmt.exec, Eval.runOn_bind, value]
    rfl
  exact Stmt.runOn_execAll_cons bound rfl

/-- An expression at the end gives its value, also if that is a wrapped return. -/
theorem runOn_execAll_expr {e : Expr} (last : Option Value) {outcome : Except RuntimeError Value}
    (value : (e.eval d s).runOn σ = (outcome, σ₁)) :
    (Stmt.execAll d s last [.expr e]).runOn σ = (outcome.map some, σ₁) := by
  have executed : ((Stmt.expr e).exec d s).runOn σ = (outcome.map some, σ₁) := by
    rw [Stmt.exec, Eval.runOn_bind, value]
    cases outcome <;> rfl
  rw [Stmt.execAll_cons, Eval.runOn_bind, executed]
  cases outcome with
  | error e => rfl
  | ok v =>
    change (if endsBlock (some v) then pure (some v) else Stmt.execAll d s (some v) []).runOn σ₁ = _
    split
    · rfl
    · rw [Stmt.execAll, Eval.runOn_pure]
      rfl

end Stmt

/-! ### Calls and runs -/

theorem Value.runOn_call_function {f : Closure} {arguments : List Value}
    {outcome : Except RuntimeError (Option Value)}
    (count : arguments.length = f.parameters.length) (below : d < callLimit)
    (body : (Stmt.execAll (d + 1) (f.enter arguments σ).1 none f.body).runOn
      (f.enter arguments σ).2 = (outcome, σ₁)) :
    (Value.call d (.function f) arguments).runOn σ = (outcome.map callResult, σ₁) := by
  rw [Value.runOn_call count below, Eval.runOn_bind, body]
  cases outcome <;> rfl

theorem Value.runOn_call_refused {f : Closure} {arguments : List Value}
    (count : arguments.length = f.parameters.length) (limit : ¬ d < callLimit) (σ : Store) :
    (Value.call d (.function f) arguments).runOn σ = (.error (.callLimit callLimit), σ) := by
  rw [Value.call_of_limit count limit, Eval.runOn_throw]

/-- Only `puts` prints. -/
theorem Value.runOn_call_builtin {b : Builtin} (silent : b ≠ .puts) (arguments : List Value)
    (σ : Store) :
    (Value.call d (.builtin b) arguments).runOn σ = (b.result arguments, σ) := by
  have printed : b.printed arguments = [] := by
    cases b with
    | puts => exact absurd rfl silent
    | _ => rfl
  rw [Value.call, Builtin.call, printed, Eval.runOn_bind]
  rfl

theorem Expr.runOn_call_builtin {b : Builtin} (silent : b ≠ .puts)
    (unbound : σ.lookup s b.name = none) {arguments : List Expr} {vs : List Value}
    (given : (Expr.evalAll d s arguments).runOn σ = (.ok vs, σ₁)) :
    ((Expr.call (.name b.name) arguments).eval d s).runOn σ = (b.result vs, σ₁) := by
  rw [Expr.runOn_call (Expr.runOn_builtin unbound) given, Value.runOn_call_builtin silent]

/-- A source that is read without errors runs as the statements it is read as. -/
theorem runSource_of_parseSource {source : String} {program : Program}
    {outcome : Except RuntimeError (Option Value)} (read : parseSource source = ⟨program, []⟩)
    (executed : (Stmt.execAll d s none program).runOn σ = (outcome, σ₁)) :
    runSource d s source σ = (.ok (Node.resultOf outcome), σ₁) := by
  rw [runSource, read]
  simp only [List.isEmpty_nil, if_true, Node.run, Node.eval, executed]

end Marmoset
