import Marmoset.Proofs.ValueParts
import Marmoset.Session

/-! # The machine

The evaluator takes the number of active calls as an argument and ends by a measure on it.  A
machine does the same work with neither: it has one counter (`Machine.depth`), which a call raises
when it is entered and lowers when it is left, by a value or by an error, and it recurs as long as
it has fuel.  It also records what it does: every setting of the counter and every application of a
value to arguments, with the outcome.

`Node.perform` is the machine on a whole tree.  That it does what the evaluator says is proved in
`Marmoset.Proofs.Termination`.  A property of computations that every way of composing them keeps
(`Run.Compositional`) holds of whatever the machine does. -/

namespace Marmoset

/-- What a machine did: it set the counter of active calls, or it applied a value to arguments. -/
inductive Event where
  | depth (calls : Nat)
  | call (callee : Value) (arguments : List Value) (outcome : Except RuntimeError Value)

/-- The store, the counter of active calls, and what was done so far, the latest first. -/
structure Machine where
  store : Store
  depth : Nat
  events : List Event

namespace Machine

/-- The machine before it has done anything. -/
def start (store : Store) (depth : Nat) : Machine :=
  ⟨store, depth, []⟩

def setDepth (machine : Machine) (calls : Nat) : Machine :=
  { machine with depth := calls, events := .depth calls :: machine.events }

def record (machine : Machine) (event : Event) : Machine :=
  { machine with events := event :: machine.events }

end Machine

/-- A computation of a machine.  It has no outcome if the fuel runs out. -/
abbrev Run := ExceptT RuntimeError (StateT Machine Option)

namespace Run

variable {α β : Type}

/-- The outcome of a computation and the machine after it. -/
def runOn (x : Run α) (machine : Machine) : Option (Except RuntimeError α × Machine) :=
  x.run.run machine

/-- The fuel has run out. -/
def exhausted : Run α :=
  ExceptT.mk fun _ => none

/-- A computation that needs the store only. -/
def lift (x : Eval α) : Run α :=
  ExceptT.mk fun machine =>
    let (outcome, store) := x.runOn machine.store
    some (outcome, { machine with store := store })

/-- Does `x` inside a call: the counter goes up first, and down again however `x` ends.  At the
limit `x` is not done. -/
def inCall (x : Run α) : Run α :=
  ExceptT.mk fun machine =>
    match enterCall machine.depth with
    | .ok inner =>
      match x.runOn (machine.setDepth inner) with
      | some (outcome, machine) => some (outcome, machine.setDepth (leaveCall machine.depth))
      | none => none
    | .error e => some (.error e, machine)

/-- Records that `callee` was applied to `arguments`, with the outcome of `x`. -/
def recorded (callee : Value) (arguments : List Value) (x : Run Value) : Run Value :=
  ExceptT.mk fun machine =>
    match x.runOn machine with
    | some (outcome, machine) => some (outcome, machine.record (.call callee arguments outcome))
    | none => none

/-! ### Running a computation step by step -/

@[simp] theorem runOn_pure (a : α) (machine : Machine) :
    (pure a : Run α).runOn machine = some (.ok a, machine) :=
  rfl

@[simp] theorem runOn_throw (e : RuntimeError) (machine : Machine) :
    (throw e : Run α).runOn machine = some (.error e, machine) :=
  rfl

@[simp] theorem runOn_exhausted (machine : Machine) : (exhausted : Run α).runOn machine = none :=
  rfl

@[simp] theorem runOn_lift (x : Eval α) (machine : Machine) :
    (lift x).runOn machine =
      some ((x.runOn machine.store).1, { machine with store := (x.runOn machine.store).2 }) :=
  rfl

theorem runOn_inCall (x : Run α) (machine : Machine) :
    (inCall x).runOn machine =
      match enterCall machine.depth with
      | .ok inner =>
        match x.runOn (machine.setDepth inner) with
        | some (outcome, machine) => some (outcome, machine.setDepth (leaveCall machine.depth))
        | none => none
      | .error e => some (.error e, machine) :=
  rfl

theorem runOn_recorded (callee : Value) (arguments : List Value) (x : Run Value)
    (machine : Machine) :
    (recorded callee arguments x).runOn machine =
      match x.runOn machine with
      | some (outcome, machine) => some (outcome, machine.record (.call callee arguments outcome))
      | none => none :=
  rfl

theorem runOn_bind (x : Run α) (f : α → Run β) (machine : Machine) :
    (x >>= f).runOn machine =
      match x.runOn machine with
      | some (.ok a, machine) => (f a).runOn machine
      | some (.error e, machine) => some (.error e, machine)
      | none => none := by
  change ((x.runOn machine).bind fun p => ExceptT.bindCont f p.1 p.2) = _
  rcases x.runOn machine with _ | ⟨_ | _, _⟩ <;> rfl

/-! ### Invariants -/

/-- `x` keeps the invariant `I`, whether it ends with a value or with an error, and a value it ends
with satisfies `good`. -/
def Keeps (I : Machine → Prop) (x : Run α) (good : α → Prop) : Prop :=
  ∀ machine outcome after, I machine → x.runOn machine = some (outcome, after) →
    I after ∧ ∀ a, outcome = .ok a → good a

namespace Keeps

variable {I J : Machine → Prop} {good : α → Prop}

theorem exhausted : Keeps I (Run.exhausted : Run α) good := by
  rintro machine outcome after - ⟨⟩

theorem pure {a : α} (h : good a) : Keeps I (Pure.pure a) good := by
  rintro machine outcome after start ⟨⟩
  exact ⟨start, fun _ e => Except.ok.inj e ▸ h⟩

theorem throw {e : RuntimeError} : Keeps I (MonadExcept.throw e : Run α) good := by
  rintro machine outcome after start ⟨⟩
  exact ⟨start, fun _ e => by cases e⟩

theorem lift {x : Eval α}
    (h : ∀ machine, I machine → I { machine with store := (x.runOn machine.store).2 } ∧
      ∀ a, (x.runOn machine.store).1 = .ok a → good a) :
    Keeps I (Run.lift x) good := by
  rintro machine outcome after start ⟨⟩
  exact h machine start

theorem ofExcept {result : Except RuntimeError α} (h : ∀ a, result = .ok a → good a) :
    Keeps I (Run.lift (Eval.ofExcept result)) good :=
  lift fun _ start => ⟨start, h⟩

theorem bind {goodNext : β → Prop} {x : Run α} {f : α → Run β} (first : Keeps I x good)
    (next : ∀ a, good a → Keeps I (f a) goodNext) : Keeps I (x >>= f) goodNext := by
  intro machine outcome after start done
  rw [runOn_bind] at done
  split at done
  · next a middle ran =>
    obtain ⟨kept, value⟩ := first _ _ _ start ran
    exact next a (value a rfl) _ _ _ kept done
  · next e middle ran =>
    cases done
    exact ⟨(first _ _ _ start ran).1, fun _ e => by cases e⟩
  · cases done

theorem mono {goodLater : α → Prop} {x : Run α} (h : Keeps I x good)
    (imp : ∀ a, good a → goodLater a) : Keeps I x goodLater := by
  intro machine outcome after start done
  obtain ⟨kept, value⟩ := h machine outcome after start done
  exact ⟨kept, fun a e => imp a (value a e)⟩

/-- Inside a call another invariant may hold, which entering establishes and leaving gives up. -/
theorem inCall {x : Run α} (body : Keeps J x good)
    (enter : ∀ machine inner, I machine → enterCall machine.depth = .ok inner →
      J (machine.setDepth inner))
    (leave : ∀ machine, J machine → I (machine.setDepth (leaveCall machine.depth))) :
    Keeps I (Run.inCall x) good := by
  intro machine outcome after start done
  rw [runOn_inCall] at done
  split at done
  · next inner entered =>
    split at done
    · next ran =>
      cases done
      obtain ⟨kept, value⟩ := body _ _ _ (enter machine inner start entered) ran
      exact ⟨leave _ kept, value⟩
    · cases done
  · cases done
    exact ⟨start, fun _ e => by cases e⟩

theorem recorded {good : Value → Prop} {callee : Value} {arguments : List Value} {x : Run Value}
    (body : Keeps I x good)
    (record : ∀ machine outcome, I machine → (∀ v, outcome = .ok v → good v) →
      I (machine.record (.call callee arguments outcome))) :
    Keeps I (Run.recorded callee arguments x) good := by
  intro machine outcome after start done
  rw [runOn_recorded] at done
  split at done
  · next ran =>
    cases done
    obtain ⟨kept, value⟩ := body _ _ _ start ran
    exact ⟨record _ _ kept value, value⟩
  · cases done

end Keeps

end Run

/-! ### The evaluator as a machine -/

mutual

/-- The value of an expression. -/
def Expr.perform : Nat → Scope → Expr → Run Value
  | 0, _, _ => Run.exhausted
  | _ + 1, scope, .name name =>
    Run.lift do Eval.ofExcept (← Eval.view (nameValue scope name))
  | _ + 1, _, .integer value => pure (.integer value)
  | _ + 1, _, .text value => pure (.text value)
  | _ + 1, _, .boolean value => pure (.boolean value)
  | n + 1, scope, .unary op operand => do
    let v ← Expr.perform n scope operand
    Run.lift (Eval.ofExcept (op.apply v))
  | n + 1, scope, .binary op left right => do
    let a ← Expr.perform n scope left
    let b ← Expr.perform n scope right
    Run.lift (Eval.ofExcept (op.apply a b))
  | n + 1, scope, .cond condition consequence none => do
    if (← Expr.perform n scope condition).isTruthy then
      return (← Stmt.performAll n scope none consequence).getD .null
    else
      return .null
  | n + 1, scope, .cond condition consequence (some alternative) => do
    if (← Expr.perform n scope condition).isTruthy then
      return (← Stmt.performAll n scope none consequence).getD .null
    else
      return (← Stmt.performAll n scope none alternative).getD .null
  | _ + 1, scope, .function parameters body => do
    return .function (← Run.lift (Eval.step fun store => store.newClosure parameters body scope))
  | n + 1, scope, .call callee arguments => do
    let f ← Expr.perform n scope callee
    let values ← Expr.performAll n scope arguments
    Value.performCall n f values
  | n + 1, scope, .array elements => do
    return .array (← Expr.performAll n scope elements)
  | n + 1, scope, .index collection position => do
    let c ← Expr.perform n scope collection
    let p ← Expr.perform n scope position
    Run.lift (Eval.ofExcept (c.index p))
  | n + 1, scope, .hash pairs => do
    return .hash (← Expr.performPairs n scope [] pairs)

/-- The values of expressions, from left to right. -/
def Expr.performAll : Nat → Scope → List Expr → Run (List Value)
  | 0, _, _ => Run.exhausted
  | _ + 1, _, [] => pure []
  | n + 1, scope, e :: es => do
    let v ← Expr.perform n scope e
    let vs ← Expr.performAll n scope es
    return v :: vs

/-- The entries of a hash. -/
def Expr.performPairs : Nat → Scope → Table Key Value → List (Expr × Expr) → Run (Table Key Value)
  | 0, _, _, _ => Run.exhausted
  | _ + 1, _, entries, [] => pure entries
  | n + 1, scope, entries, (key, value) :: pairs => do
    let k ← Run.lift (Eval.ofExcept (← Expr.perform n scope key).requireKey)
    let v ← Expr.perform n scope value
    Expr.performPairs n scope (Table.insert entries k v) pairs

/-- What a statement does, and its value if it has one. -/
def Stmt.perform : Nat → Scope → Stmt → Run (Option Value)
  | 0, _, _ => Run.exhausted
  | n + 1, scope, .bind name value => do
    let v ← Expr.perform n scope value
    Run.lift (Eval.change fun store => store.assign scope name v)
    return none
  | n + 1, scope, .return value => do
    return some (.returned (← Expr.perform n scope value))
  | n + 1, scope, .expr value => do
    return some (← Expr.perform n scope value)
  | n + 1, scope, .block body => Stmt.performAll n scope none body

/-- Statements in a row, up to the first return. -/
def Stmt.performAll : Nat → Scope → Option Value → List Stmt → Run (Option Value)
  | 0, _, _, _ => Run.exhausted
  | _ + 1, _, last, [] => pure last
  | n + 1, scope, _, s :: ss => do
    let value ← Stmt.perform n scope s
    if endsBlock value then return value else Stmt.performAll n scope value ss

/-- The value of a call. -/
def Value.performCall : Nat → Value → List Value → Run Value
  | 0, _, _ => Run.exhausted
  | n + 1, callee, arguments => Run.recorded callee arguments <|
    match callee with
    | .function f =>
      if arguments.length ≠ f.parameters.length then
        throw (.argumentCount arguments.length f.parameters.length)
      else Run.inCall do
        let scope ← Run.lift (Eval.step (f.enter arguments))
        return callResult (← Stmt.performAll n scope none f.body)
    | .builtin b => Run.lift (b.call arguments)
    | v => throw (.notCallable v.tag)

end

/-- The value of a node, if it has one. -/
def Node.perform (fuel : Nat) (scope : Scope) : Node → Run (Option Value)
  | program statements => Stmt.performAll fuel scope none statements
  | block statements => Stmt.performAll fuel scope none statements
  | statement s => s.perform fuel scope
  | expression e => do return some (← Expr.perform fuel scope e)

/-! ### Properties that composition keeps -/

/-- `P` holds of the machine's single steps and is kept by every way of composing computations. -/
structure Run.Compositional (P : ∀ {α : Type}, Run α → Prop) : Prop where
  exhausted : ∀ {α : Type}, P (Run.exhausted : Run α)
  pure : ∀ {α : Type} (a : α), P (Pure.pure a : Run α)
  throw : ∀ {α : Type} (e : RuntimeError), P (MonadExcept.throw e : Run α)
  lift : ∀ {α : Type} (x : Eval α), P (Run.lift x)
  bind : ∀ {α β : Type} {x : Run α} {f : α → Run β}, P x → (∀ a, P (f a)) → P (x >>= f)
  inCall : ∀ {α : Type} {x : Run α}, P x → P (Run.inCall x)
  recorded : ∀ {x : Run Value} (callee : Value) (arguments : List Value), P x →
    P (Run.recorded callee arguments x)

section Composition

variable {P : ∀ {α : Type}, Run α → Prop}

mutual

theorem Run.Compositional.expr (h : Run.Compositional P) (n : Nat) (scope : Scope) (e : Expr) :
    P (Expr.perform n scope e) := by
  cases n with
  | zero => exact h.exhausted
  | succ n =>
  match e with
  | .name name => exact h.lift _
  | .integer value | .text value | .boolean value => exact h.pure _
  | .unary op operand => exact h.bind (h.expr n scope operand) fun v => h.lift _
  | .binary op left right =>
      refine h.bind (h.expr n scope left) fun a => ?_
      exact h.bind (h.expr n scope right) fun b => h.lift _
  | .cond condition consequence none =>
      refine h.bind (h.expr n scope condition) fun v => ?_
      split
      · exact h.bind (h.statements n scope none consequence) fun _ => h.pure _
      · exact h.pure _
  | .cond condition consequence (some alternative) =>
      refine h.bind (h.expr n scope condition) fun v => ?_
      split
      · exact h.bind (h.statements n scope none consequence) fun _ => h.pure _
      · exact h.bind (h.statements n scope none alternative) fun _ => h.pure _
  | .function parameters body => exact h.bind (h.lift _) fun f => h.pure _
  | .call callee arguments =>
      refine h.bind (h.expr n scope callee) fun f => ?_
      refine h.bind (h.exprs n scope arguments) fun values => ?_
      exact h.call n f values
  | .array elements => exact h.bind (h.exprs n scope elements) fun vs => h.pure _
  | .index collection position =>
      refine h.bind (h.expr n scope collection) fun c => ?_
      exact h.bind (h.expr n scope position) fun p => h.lift _
  | .hash pairs => exact h.bind (h.pairs n scope [] pairs) fun es => h.pure _

theorem Run.Compositional.exprs (h : Run.Compositional P) (n : Nat) (scope : Scope)
    (es : List Expr) : P (Expr.performAll n scope es) := by
  cases n with
  | zero => exact h.exhausted
  | succ n =>
  match es with
  | [] => exact h.pure _
  | e :: es =>
      refine h.bind (h.expr n scope e) fun v => ?_
      exact h.bind (h.exprs n scope es) fun vs => h.pure _

theorem Run.Compositional.pairs (h : Run.Compositional P) (n : Nat) (scope : Scope)
    (entries : Table Key Value) (pairs : List (Expr × Expr)) :
    P (Expr.performPairs n scope entries pairs) := by
  cases n with
  | zero => exact h.exhausted
  | succ n =>
  match pairs with
  | [] => exact h.pure _
  | (key, value) :: pairs =>
      refine h.bind (h.expr n scope key) fun v => ?_
      refine h.bind (h.lift _) fun k => ?_
      refine h.bind (h.expr n scope value) fun v => ?_
      exact h.pairs n scope _ pairs

theorem Run.Compositional.statement (h : Run.Compositional P) (n : Nat) (scope : Scope) (s : Stmt) :
    P (Stmt.perform n scope s) := by
  cases n with
  | zero => exact h.exhausted
  | succ n =>
  match s with
  | .bind name value =>
      refine h.bind (h.expr n scope value) fun v => ?_
      exact h.bind (h.lift _) fun _ => h.pure _
  | .return value | .expr value => exact h.bind (h.expr n scope value) fun v => h.pure _
  | .block body => exact h.statements n scope none body

theorem Run.Compositional.statements (h : Run.Compositional P) (n : Nat) (scope : Scope)
    (last : Option Value) (ss : List Stmt) : P (Stmt.performAll n scope last ss) := by
  cases n with
  | zero => exact h.exhausted
  | succ n =>
  match ss with
  | [] => exact h.pure _
  | s :: ss =>
      refine h.bind (h.statement n scope s) fun value => ?_
      split
      · exact h.pure _
      · exact h.statements n scope value ss

theorem Run.Compositional.call (h : Run.Compositional P) (n : Nat) (callee : Value)
    (arguments : List Value) : P (Value.performCall n callee arguments) := by
  cases n with
  | zero => exact h.exhausted
  | succ n =>
  refine h.recorded callee arguments ?_
  match callee with
  | .function f =>
      dsimp only
      split
      · exact h.throw _
      · refine h.inCall (h.bind (h.lift _) fun scope => ?_)
        exact h.bind (h.statements n scope none f.body) fun value => h.pure _
  | .builtin b => exact h.lift _
  | .integer _ | .boolean _ | .null | .text _ | .array _ | .hash _ | .returned _ | .error _ =>
      exact h.throw _

end

theorem Run.Compositional.node (h : Run.Compositional P) (n : Nat) (scope : Scope) (node : Node) :
    P (node.perform n scope) := by
  cases node with
  | program statements => exact h.statements n scope none statements
  | block statements => exact h.statements n scope none statements
  | statement s => exact h.statement n scope s
  | expression e => exact h.bind (h.expr n scope e) fun v => h.pure _

end Composition

end Marmoset
