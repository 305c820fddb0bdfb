import Marmoset.Proofs.Machine

/-! # Every program ends

The machine has no bound of its own, and the bodies it runs come out of a store that changes while it
runs, so nothing in the shape of a program says that it ends.  What says it is the limit on the
active calls: a body is entered through the counter, callee and arguments are evaluated before that,
and so the pair of the calls still allowed and the size of the tree goes down lexicographically.

`Settles` says that with enough fuel a computation of the machine ends with the outcome and the store
of an evaluation, and with the counter where it was.  Every way of composing computations keeps it,
and `Node.settles` says it of whole trees. -/

namespace Marmoset

variable {α β : Type}

/-- With enough fuel, `x` started at the given depth ends with the outcome and the store of `y`, and
at that depth again. -/
def Settles (depth : Nat) (x : Nat → Run α) (y : Eval α) : Prop :=
  ∀ machine : Machine, machine.depth = depth → ∃ fuel events, ∀ n, fuel ≤ n →
    (x n).runOn machine =
      some ((y.runOn machine.store).1, ⟨(y.runOn machine.store).2, depth, events⟩)

namespace Settles

variable {depth inner : Nat}

/-! ### Composing computations -/

theorem lift (y : Eval α) : Settles depth (fun _ => Run.lift y) y := by
  rintro machine rfl
  exact ⟨0, machine.events, fun _ _ => rfl⟩

theorem pure (a : α) : Settles depth (fun _ => Pure.pure a) (Pure.pure a) := by
  rintro machine rfl
  exact ⟨0, machine.events, fun _ _ => rfl⟩

theorem throw (e : RuntimeError) :
    Settles depth (fun _ => (MonadExcept.throw e : Run α)) (MonadExcept.throw e) := by
  rintro machine rfl
  exact ⟨0, machine.events, fun _ _ => rfl⟩

theorem bind {x : Nat → Run α} {y : Eval α} {f : Nat → α → Run β} {g : α → Eval β}
    (first : Settles depth x y) (next : ∀ a, Settles depth (fun n => f n a) (g a)) :
    Settles depth (fun n => x n >>= f n) (y >>= g) := by
  intro machine start
  obtain ⟨fuel, events, done⟩ := first machine start
  simp only [Run.runOn_bind, Eval.runOn_bind]
  rcases result : y.runOn machine.store with ⟨e | a, store⟩ <;> rw [result] at done
  · refine ⟨fuel, events, fun n enough => ?_⟩
    rw [done n enough]
  · obtain ⟨fuel', events', done'⟩ := next a ⟨store, depth, events⟩ rfl
    -- the fuel for both parts is the larger of the two
    refine ⟨max fuel fuel', events', fun n enough => ?_⟩
    rw [done n (by omega)]
    exact done' n (by omega)

/-- The unit of fuel that a recursive step takes. -/
theorem succ {x : Nat → Run α} {y : Eval α} (h : Settles depth (fun n => x (n + 1)) y) :
    Settles depth x y := by
  intro machine start
  obtain ⟨fuel, events, done⟩ := h machine start
  refine ⟨fuel + 1, events, fun n enough => ?_⟩
  obtain ⟨n, rfl⟩ : ∃ k, n = k + 1 := ⟨n - 1, by omega⟩
  exact done n (by omega)

theorem recorded {x : Nat → Run Value} {y : Eval Value} (callee : Value) (arguments : List Value)
    (h : Settles depth x y) :
    Settles depth (fun n => Run.recorded callee arguments (x n)) y := by
  intro machine start
  obtain ⟨fuel, events, done⟩ := h machine start
  refine ⟨fuel, .call callee arguments (y.runOn machine.store).1 :: events, fun n enough => ?_⟩
  rw [Run.runOn_recorded, done n enough]
  rfl

/-- Inside a call the depth is greater by one, and after it the counter is where it was. -/
theorem inCall {x : Nat → Run α} {y : Eval α} (entered : enterCall depth = .ok inner)
    (h : Settles inner x y) : Settles depth (fun n => Run.inCall (x n)) y := by
  rintro machine rfl
  obtain ⟨fuel, events, done⟩ := h (machine.setDepth inner) rfl
  refine ⟨fuel, .depth machine.depth :: events, fun n enough => ?_⟩
  rw [Run.runOn_inCall, entered]
  simp only [done n enough]
  rw [leaveCall_of_enterCall entered]
  rfl

theorem inCall_refused {x : Nat → Run α} {e : RuntimeError} (refused : enterCall depth = .error e) :
    Settles depth (fun n => Run.inCall (x n)) (MonadExcept.throw e) := by
  rintro machine rfl
  refine ⟨0, machine.events, fun n _ => ?_⟩
  rw [Run.runOn_inCall, refused]
  rfl

/-- What the machine gives from some fuel on is what the evaluation gives. -/
theorem runOn_eq {x : Nat → Run α} {y : Eval α} (h : Settles depth x y) (fuel : Nat)
    {store after : Store} {outcome : Except RuntimeError α}
    (ran : ∀ more, ((x (more + fuel)).runOn (.start store depth)).map
      (fun ended => (ended.1, ended.2.store)) = some (outcome, after)) :
    y.runOn store = (outcome, after) := by
  obtain ⟨enough, events, done⟩ := h (.start store depth) rfl
  have ended := ran enough
  rw [done (enough + fuel) (Nat.le_add_right _ _)] at ended
  exact Option.some.inj ended

end Settles

/-! ### The evaluator -/

mutual

theorem Expr.perform_settles (depth : Nat) (scope : Scope) (e : Expr) :
    Settles depth (fun n => Expr.perform n scope e) (e.eval depth scope) := by
  refine Settles.succ ?_
  match e with
  | .name name =>
      simp only [Expr.perform, Expr.eval]
      exact .lift _
  | .integer value | .text value | .boolean value =>
      simp only [Expr.perform, Expr.eval]
      exact .pure _
  | .unary op operand =>
      simp only [Expr.perform, Expr.eval]
      exact (Expr.perform_settles depth scope operand).bind fun v => .lift _
  | .binary op left right =>
      simp only [Expr.perform, Expr.eval]
      refine (Expr.perform_settles depth scope left).bind fun a => ?_
      exact (Expr.perform_settles depth scope right).bind fun b => .lift _
  | .cond condition consequence none =>
      simp only [Expr.perform, Expr.eval]
      refine (Expr.perform_settles depth scope condition).bind fun v => ?_
      split
      · exact (Stmt.performAll_settles depth scope none consequence).bind fun _ => .pure _
      · exact .pure _
  | .cond condition consequence (some alternative) =>
      simp only [Expr.perform, Expr.eval]
      refine (Expr.perform_settles depth scope condition).bind fun v => ?_
      split
      · exact (Stmt.performAll_settles depth scope none consequence).bind fun _ => .pure _
      · exact (Stmt.performAll_settles depth scope none alternative).bind fun _ => .pure _
  | .function parameters body =>
      simp only [Expr.perform, Expr.eval]
      exact (Settles.lift _).bind fun _ => .pure _
  | .call callee arguments =>
      simp only [Expr.perform, Expr.eval]
      refine (Expr.perform_settles depth scope callee).bind fun f => ?_
      refine (Expr.performAll_settles depth scope arguments).bind fun values => ?_
      exact Value.performCall_settles depth f values
  | .array elements =>
      simp only [Expr.perform, Expr.eval]
      exact (Expr.performAll_settles depth scope elements).bind fun _ => .pure _
  | .index collection position =>
      simp only [Expr.perform, Expr.eval]
      refine (Expr.perform_settles depth scope collection).bind fun c => ?_
      exact (Expr.perform_settles depth scope position).bind fun p => .lift _
  | .hash pairs =>
      simp only [Expr.perform, Expr.eval]
      exact (Expr.performPairs_settles depth scope [] pairs).bind fun _ => .pure _
termination_by (callLimit - depth, sizeOf e)

theorem Expr.performAll_settles (depth : Nat) (scope : Scope) (es : List Expr) :
    Settles depth (fun n => Expr.performAll n scope es) (Expr.evalAll depth scope es) := by
  refine Settles.succ ?_
  match es with
  | [] =>
      simp only [Expr.performAll, Expr.evalAll]
      exact .pure _
  | e :: es =>
      simp only [Expr.performAll, Expr.evalAll]
      refine (Expr.perform_settles depth scope e).bind fun v => ?_
      exact (Expr.performAll_settles depth scope es).bind fun vs => .pure _
termination_by (callLimit - depth, sizeOf es)

theorem Expr.performPairs_settles (depth : Nat) (scope : Scope) (entries : Table Key Value)
    (pairs : List (Expr × Expr)) :
    Settles depth (fun n => Expr.performPairs n scope entries pairs)
      (Expr.evalPairs depth scope entries pairs) := by
  refine Settles.succ ?_
  match pairs with
  | [] =>
      simp only [Expr.performPairs, Expr.evalPairs]
      exact .pure _
  | (key, value) :: pairs =>
      simp only [Expr.performPairs, Expr.evalPairs]
      refine (Expr.perform_settles depth scope key).bind fun v => ?_
      refine (Settles.lift _).bind fun k => ?_
      refine (Expr.perform_settles depth scope value).bind fun v => ?_
      exact Expr.performPairs_settles depth scope (Table.insert entries k v) pairs
termination_by (callLimit - depth, sizeOf pairs)

theorem Stmt.perform_settles (depth : Nat) (scope : Scope) (s : Stmt) :
    Settles depth (fun n => Stmt.perform n scope s) (s.exec depth scope) := by
  refine Settles.succ ?_
  match s with
  | .bind name value =>
      simp only [Stmt.perform, Stmt.exec]
      refine (Expr.perform_settles depth scope value).bind fun v => ?_
      exact (Settles.lift _).bind fun _ => .pure _
  | .return value =>
      simp only [Stmt.perform, Stmt.exec]
      exact (Expr.perform_settles depth scope value).bind fun v => .pure _
  | .expr value =>
      simp only [Stmt.perform, Stmt.exec]
      exact (Expr.perform_settles depth scope value).bind fun v => .pure _
  | .block body =>
      simp only [Stmt.perform, Stmt.exec]
      exact Stmt.performAll_settles depth scope none body
termination_by (callLimit - depth, sizeOf s)

theorem Stmt.performAll_settles (depth : Nat) (scope : Scope) (last : Option Value)
    (ss : List Stmt) :
    Settles depth (fun n => Stmt.performAll n scope last ss)
      (Stmt.execAll depth scope last ss) := by
  refine Settles.succ ?_
  match ss with
  | [] =>
      simp only [Stmt.performAll, Stmt.execAll]
      exact .pure _
  | s :: ss =>
      simp only [Stmt.performAll, Stmt.execAll_cons]
      refine (Stmt.perform_settles depth scope s).bind fun value => ?_
      split
      · exact .pure _
      · exact Stmt.performAll_settles depth scope value ss
termination_by (callLimit - depth, sizeOf ss)

theorem Value.performCall_settles (depth : Nat) (callee : Value) (arguments : List Value) :
    Settles depth (fun n => Value.performCall n callee arguments)
      (Value.call depth callee arguments) := by
  refine Settles.succ ?_
  simp only [Value.performCall]
  refine Settles.recorded callee arguments ?_
  cases callee with
  | function f =>
      simp only [Value.call]
      split
      · exact .throw _
      · split
        · next inner entered =>
          have := enterCall_lt entered
          refine .inCall entered ((Settles.lift _).bind fun scope => ?_)
          exact (Stmt.performAll_settles inner scope none f.body).bind fun _ => .pure _
        · next e refused => exact .inCall_refused refused
  | builtin b =>
      simp only [Value.call]
      exact .lift _
  | _ =>
      simp only [Value.call]
      exact .throw _
termination_by (callLimit - depth, 0)

end

/-! ### Whole trees -/

theorem Node.settles (depth : Nat) (scope : Scope) (node : Node) :
    Settles depth (fun n => node.perform n scope) (node.eval depth scope) := by
  cases node with
  | program statements => exact Stmt.performAll_settles depth scope none statements
  | block statements => exact Stmt.performAll_settles depth scope none statements
  | statement s => exact Stmt.perform_settles depth scope s
  | expression e => exact (Expr.perform_settles depth scope e).bind fun v => .pure _

/-- The result and the store that the machine gives from some fuel on are those of a run. -/
theorem Node.run_of_perform (fuel : Nat) {node : Node} {scope : Scope} {store after : Store}
    {depth : Nat} {result : Option Value}
    (ran : ∀ more, ((node.perform (more + fuel) scope).runOn (.start store depth)).map
      (fun ended => (resultOf ended.1, ended.2.store)) = some (result, after)) :
    node.run depth scope store = (result, after) := by
  obtain ⟨enough, events, done⟩ := node.settles depth scope (.start store depth) rfl
  have ended := ran enough
  rw [done (enough + fuel) (Nat.le_add_right _ _)] at ended
  exact Option.some.inj ended

/-- Every tree, in every scope and store and at every depth, runs to an end: from some fuel on the
machine always has the same outcome, which is that of the evaluation, and the counter is back where
it started. -/
theorem Node.exists_sufficient_fuel (node : Node) (scope : Scope) (store : Store) (depth : Nat) :
    ∃ fuel after,
      (∀ n, fuel ≤ n → (node.perform n scope).runOn (Machine.start store depth) =
        some (((node.eval depth scope).runOn store).1, after)) ∧
      after.store = ((node.eval depth scope).runOn store).2 ∧ after.depth = depth := by
  obtain ⟨fuel, events, done⟩ := node.settles depth scope (Machine.start store depth) rfl
  exact ⟨fuel, _, done, rfl, rfl⟩

end Marmoset
