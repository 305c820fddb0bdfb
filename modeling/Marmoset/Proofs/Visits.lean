import Marmoset.Proofs.ValueParts
import Marmoset.Session

/-! # The expressions that a run visits

A run evaluates one expression after the other, and some of them more than once.  `Node.visits`
lists these evaluations in the order in which they begin, each with the depth, the scope and the
store that it begins with (`Visit`).  The recursion is that of the evaluator, which says where each
part ends and the next begins; what comes after an error is not visited. -/

namespace Marmoset

/-- An evaluation of an expression: what it begins with. -/
structure Visit where
  depth : Nat
  scope : Scope
  expr : Expr
  store : Store

namespace Visit

/-- The value that the evaluation gives, or the error it ends with. -/
def outcome (visit : Visit) : Except RuntimeError Value :=
  ((visit.expr.eval visit.depth visit.scope).runOn visit.store).1

/-- The function that a function literal makes. -/
def made? (visit : Visit) : Option Closure :=
  match visit.expr with
  | .function parameters body => some (visit.store.newClosure parameters body visit.scope).1
  | _ => none

end Visit

/-- The evaluations of a computation, by the store that it begins with. -/
abbrev Visits := Store → List Visit

namespace Visits

variable {α : Type}

/-- A computation that evaluates nothing. -/
def none : Visits :=
  fun _ => []

/-- The evaluation of an expression, and then those of its parts. -/
def of (depth : Nat) (scope : Scope) (e : Expr) (parts : Visits) : Visits := fun store =>
  ⟨depth, scope, e, store⟩ :: parts store

/-- The evaluations of `x` and, if it gives a value, those of what follows. -/
def andThen (first : Visits) (x : Eval α) (next : α → Visits) : Visits := fun store =>
  first store ++
    match x.runOn store with
    | (.ok a, store') => next a store'
    | (.error _, _) => []

theorem andThen_none (first : Visits) (x : Eval α) : first.andThen x (fun _ => none) = first := by
  funext store
  rw [andThen]
  rcases x.runOn store with ⟨_ | _, _⟩ <;> exact List.append_nil _

end Visits

mutual

/-- The evaluations that the evaluation of an expression consists of, itself included. -/
def Expr.visits (depth : Nat) (scope : Scope) (e : Expr) : Visits :=
  Visits.of depth scope e <|
    match e with
    | .name _ | .integer _ | .text _ | .boolean _ | .function _ _ => Visits.none
    | .unary _ operand => operand.visits depth scope
    | .binary _ left right | .index left right =>
      Visits.andThen (left.visits depth scope) (left.eval depth scope) fun _ =>
        right.visits depth scope
    | .cond condition consequence none =>
      Visits.andThen (condition.visits depth scope) (condition.eval depth scope) fun v =>
        if v.isTruthy then Stmt.visitsAll depth scope consequence else Visits.none
    | .cond condition consequence (some alternative) =>
      Visits.andThen (condition.visits depth scope) (condition.eval depth scope) fun v =>
        if v.isTruthy then Stmt.visitsAll depth scope consequence
        else Stmt.visitsAll depth scope alternative
    | .call callee arguments =>
      Visits.andThen (callee.visits depth scope) (callee.eval depth scope) fun f =>
        Visits.andThen (Expr.visitsAll depth scope arguments) (Expr.evalAll depth scope arguments)
          fun values => Value.callVisits depth f values
    | .array elements => Expr.visitsAll depth scope elements
    | .hash pairs => Expr.visitsPairs depth scope pairs
termination_by (callLimit - depth, sizeOf e)

/-- The evaluations of expressions, from left to right. -/
def Expr.visitsAll (depth : Nat) (scope : Scope) : List Expr → Visits
  | [] => Visits.none
  | e :: es =>
    Visits.andThen (e.visits depth scope) (e.eval depth scope) fun _ =>
      Expr.visitsAll depth scope es
termination_by es => (callLimit - depth, sizeOf es)

/-- The evaluations for the entries of a hash: after a key that cannot be used there are none. -/
def Expr.visitsPairs (depth : Nat) (scope : Scope) : List (Expr × Expr) → Visits
  | [] => Visits.none
  | (key, value) :: pairs =>
    Visits.andThen (key.visits depth scope) (key.eval depth scope) fun k =>
      Visits.andThen Visits.none (Eval.ofExcept k.requireKey) fun _ =>
        Visits.andThen (value.visits depth scope) (value.eval depth scope) fun _ =>
          Expr.visitsPairs depth scope pairs
termination_by pairs => (callLimit - depth, sizeOf pairs)

/-- The evaluations of a statement. -/
def Stmt.visits (depth : Nat) (scope : Scope) : Stmt → Visits
  | .bind _ value | .return value | .expr value => value.visits depth scope
  | .block body => Stmt.visitsAll depth scope body
termination_by s => (callLimit - depth, sizeOf s)

/-- The evaluations of statements in a row, up to the first return. -/
def Stmt.visitsAll (depth : Nat) (scope : Scope) : List Stmt → Visits
  | [] => Visits.none
  | s :: ss =>
    Visits.andThen (s.visits depth scope) (s.exec depth scope) fun value =>
      if endsBlock value then Visits.none else Stmt.visitsAll depth scope ss
termination_by ss => (callLimit - depth, sizeOf ss)

/-- The evaluations of a call: those of the body, if it is run. -/
def Value.callVisits (depth : Nat) (callee : Value) (arguments : List Value) : Visits :=
  match callee with
  | .function f =>
    if arguments.length ≠ f.parameters.length then Visits.none
    else
      match h : enterCall depth with
      | .ok inner =>
        have := enterCall_lt h
        Visits.andThen Visits.none (Eval.step (f.enter arguments)) fun scope =>
          Stmt.visitsAll inner scope f.body
      | .error _ => Visits.none
  | _ => Visits.none
termination_by (callLimit - depth, 0)

end

/-- The evaluations of a node. -/
def Node.visits (depth : Nat) (scope : Scope) : Node → Visits
  | .program statements => Stmt.visitsAll depth scope statements
  | .block statements => Stmt.visitsAll depth scope statements
  | .statement s => s.visits depth scope
  | .expression e => e.visits depth scope

/-! ### Calls of functions -/

theorem Value.callVisits_of_count_ne {depth : Nat} {f : Closure} {arguments : List Value}
    (wrong : arguments.length ≠ f.parameters.length) :
    Value.callVisits depth (.function f) arguments = Visits.none := by
  rw [Value.callVisits, if_pos wrong]

theorem Value.callVisits_of_limit {depth : Nat} {f : Closure} {arguments : List Value}
    (limit : ¬ depth < callLimit) :
    Value.callVisits depth (.function f) arguments = Visits.none := by
  have refused : enterCall depth = .error (.callLimit callLimit) := if_neg limit
  rw [Value.callVisits]
  split
  · rfl
  · split
    · next entered => cases refused.symm.trans entered
    · rfl

theorem Value.callVisits_of_below {depth : Nat} {f : Closure} {arguments : List Value}
    (count : arguments.length = f.parameters.length) (below : depth < callLimit) :
    Value.callVisits depth (.function f) arguments =
      Visits.none.andThen (Eval.step (f.enter arguments)) fun scope =>
        Stmt.visitsAll (depth + 1) scope f.body := by
  have entered : enterCall depth = .ok (depth + 1) := if_pos below
  rw [Value.callVisits, if_neg (not_not_intro count)]
  split
  · next inner other =>
    cases entered.symm.trans other
    rfl
  · next refused => cases entered.symm.trans refused

end Marmoset
