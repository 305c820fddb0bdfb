import Marmoset.Proofs.EvalRules
import Marmoset.Proofs.Termination

/-! # Where a body ends

Statements in a row make up a program, a block or the body of a function.  In all three places they
are run up to the first return or error, and what they end with is then taken apart: a wrapped
return loses its wrapping, an error becomes a value in the first two places, and no value becomes
null in the third.

`Stmt.conclude` does both at once.  It is a single loop that gives a returned value as it meets it,
so that no wrapped value is carried to the end.  The three places are compared with this loop, not
only with each other (`bodies_end_alike`). -/

namespace Marmoset

/-- Runs statements up to the first return or error.  The value is the returned one, without its
wrapping, or that of the last statement; it is `last` if there is none. -/
def Stmt.conclude (d : Nat) (s : Scope) (last : Option Value) :
    List Stmt → Store → Except RuntimeError (Option Value) × Store
  | [], σ => (.ok last, σ)
  | st :: ss, σ =>
    match (st.exec d s).runOn σ with
    | (.ok (some (.returned v)), σ₁) => (.ok (some v), σ₁)
    | (.ok value, σ₁) => Stmt.conclude d s value ss σ₁
    | (.error e, σ₁) => (.error e, σ₁)

/-- What is seen of an ending from outside: an error is a value. -/
def Node.report : Except RuntimeError (Option Value) → Option Value
  | .ok value => value
  | .error e => some (.error e)

namespace Stmt

variable {d : Nat} {s : Scope} {σ σ₁ : Store} {last : Option Value} {st : Stmt} {ss : List Stmt}

/-! ### Steps of the loop -/

theorem conclude_of_error {e : RuntimeError}
    (first : (st.exec d s).runOn σ = (.error e, σ₁)) :
    conclude d s last (st :: ss) σ = (.error e, σ₁) := by
  rw [conclude, first]

theorem conclude_of_return {v : Value}
    (first : (st.exec d s).runOn σ = (.ok (some (.returned v)), σ₁)) :
    conclude d s last (st :: ss) σ = (.ok (some v), σ₁) := by
  rw [conclude, first]

theorem conclude_of_value {value : Option Value}
    (first : (st.exec d s).runOn σ = (.ok value, σ₁)) (on : endsBlock value = false) :
    conclude d s last (st :: ss) σ = conclude d s value ss σ₁ := by
  rw [conclude, first]
  rcases value with _ | v
  · rfl
  · cases v with
    | returned v => cases on
    | _ => rfl

end Stmt

theorem map_unwrap_of_not_endsBlock {value : Option Value} (on : endsBlock value = false) :
    value.map Value.unwrap = value := by
  rcases value with _ | v
  · rfl
  · cases v with
    | returned v => cases on
    | _ => rfl

/-- Unwrapping at the end gives what the loop gives.  The value before the statements is no wrapped
return, which the loop keeps up from one statement to the next: it would be unwrapped at the end of
no statements, where the loop leaves it as it is. -/
theorem Stmt.conclude_eq (d : Nat) (s : Scope) (ss : List Stmt) {last : Option Value}
    (on : endsBlock last = false) (σ : Store) :
    Stmt.conclude d s last ss σ =
      (((Stmt.execAll d s last ss).runOn σ).1.map (Option.map Value.unwrap),
        ((Stmt.execAll d s last ss).runOn σ).2) := by
  induction ss generalizing last σ with
  | nil =>
    rw [Stmt.conclude, Stmt.execAll, Eval.runOn_pure, Except.map, map_unwrap_of_not_endsBlock on]
  | cons st ss ih =>
    rcases first : (st.exec d s).runOn σ with ⟨e | value, σ₁⟩
    · rw [conclude_of_error first, Stmt.execAll_cons, Eval.runOn_bind, first]
      rfl
    · cases ends : endsBlock value with
      | true =>
        obtain ⟨v, rfl⟩ := endsBlock_iff.mp ends
        rw [conclude_of_return first, Stmt.execAll_cons, Eval.runOn_bind, first]
        rfl
      | false => rw [conclude_of_value first ends, ih ends, Stmt.runOn_execAll_cons first ends]

/-! ### The three places -/

theorem resultOf_eq_report (outcome : Except RuntimeError (Option Value)) :
    Node.resultOf outcome = Node.report (outcome.map (Option.map Value.unwrap)) := by
  cases outcome <;> rfl

theorem callResult_eq_getD (last : Option Value) :
    callResult last = (last.map Value.unwrap).getD .null := by
  cases last <;> rfl

theorem Node.run_program_eq (d : Nat) (s : Scope) (b : Block) (σ : Store) :
    (Node.program b).run d s σ =
      (Node.report (Stmt.conclude d s none b σ).1, (Stmt.conclude d s none b σ).2) := by
  rw [Stmt.conclude_eq d s b rfl, ← resultOf_eq_report]
  rfl

theorem Node.run_block_eq (d : Nat) (s : Scope) (b : Block) (σ : Store) :
    (Node.block b).run d s σ =
      (Node.report (Stmt.conclude d s none b σ).1, (Stmt.conclude d s none b σ).2) :=
  Node.run_program_eq d s b σ

theorem Value.runOn_call_conclude {d : Nat} {f : Closure} {arguments : List Value} {σ after : Store}
    {ending : Except RuntimeError (Option Value)}
    (count : arguments.length = f.parameters.length) (below : d < callLimit)
    (concluded : Stmt.conclude (d + 1) (f.enter arguments σ).1 none f.body (f.enter arguments σ).2 =
      (ending, after)) :
    (Value.call d (.function f) arguments).runOn σ = (ending.map (·.getD .null), after) := by
  rw [Stmt.conclude_eq _ _ _ rfl] at concluded
  rcases body : (Stmt.execAll (d + 1) (f.enter arguments σ).1 none f.body).runOn
    (f.enter arguments σ).2 with ⟨outcome, σ₁⟩
  rw [body] at concluded
  cases concluded
  rw [Value.runOn_call_function count below body]
  cases outcome with
  | error e => rfl
  | ok last => rw [Except.map, callResult_eq_getD, Except.map, Except.map]

/-- **The three places that end a body agree.**  Statements that are run as a program or as a block,
in a new scope inside that of a function without parameters, and as the body of this function when
it is called, end in the same way and leave the same store.  An error is reported as a value in the
first two places; a call gives null for no value. -/
theorem bodies_end_alike (σ : Store) (scope : Scope) (b : Block) (id : Nat) {d : Nat}
    (below : d < callLimit) :
    let (inner, opened) := σ.enclose scope
    let (ending, after) := Stmt.conclude (d + 1) inner none b opened
    (Node.program b).run (d + 1) inner opened = (Node.report ending, after) ∧
      (Node.block b).run (d + 1) inner opened = (Node.report ending, after) ∧
      (Value.call d (.function ⟨id, [], b, scope⟩) []).runOn σ =
        (ending.map (·.getD .null), after) :=
  ⟨Node.run_program_eq _ _ b _, Node.run_block_eq _ _ b _,
    Value.runOn_call_conclude (f := ⟨id, [], b, scope⟩) rfl below rfl⟩

/-- The last call that is allowed: `let x = k; puts(x); return if (true) { return x }; 2` prints,
binds `x` in the new frame, and ends with a return inside a return, of which one is unwrapped in
each place. -/
theorem bodies_end_alike_nested_return :
    let σ : Store := ⟨#[[("k", .integer 7)]], 1, ""⟩
    let b : Block := [.bind "x" (.name "k"), .expr (.call (.name "puts") [.name "x"]),
      .return (.cond (.boolean true) [.return (.name "x")] none), .expr (.integer 2)]
    let (inner, opened) := σ.enclose ⟨0, []⟩
    let after : Store := ⟨#[[("k", .integer 7)], [("x", .integer 7)]], 1, "7\n"⟩
    9999 < callLimit ∧
      (Node.program b).run 10000 inner opened = (some (.returned (.integer 7)), after) ∧
      (Node.block b).run 10000 inner opened = (some (.returned (.integer 7)), after) ∧
      (Value.call 9999 (.function ⟨0, [], b, ⟨0, []⟩⟩) []).runOn σ =
        (.ok (.returned (.integer 7)), after) := by
  intro σ b
  have below : 9999 < callLimit := by decide
  let inner : Scope := ⟨1, [0]⟩
  let opened : Store := ⟨#[[("k", .integer 7)], []], 1, ""⟩
  let bound : Store := ⟨#[[("k", .integer 7)], [("x", .integer 7)]], 1, ""⟩
  let after : Store := { bound with output := "7\n" }
  have binding : ((Stmt.bind "x" (.name "k")).exec 10000 inner).runOn opened = (.ok none, bound) :=
    (Stmt.perform_settles _ _ _).runOn_eq 9 fun _ => rfl
  have printing : ((Stmt.expr (.call (.name "puts") [.name "x"])).exec 10000 inner).runOn bound =
      (.ok (some .null), after) := (Stmt.perform_settles _ _ _).runOn_eq 9 fun _ => rfl
  have returning : ((Stmt.return (.cond (.boolean true) [.return (.name "x")] none)).exec 10000
      inner).runOn after = (.ok (some (.returned (.returned (.integer 7)))), after) :=
    (Stmt.perform_settles _ _ _).runOn_eq 9 fun _ => rfl
  have concluded : Stmt.conclude 10000 (σ.enclose ⟨0, []⟩).1 none b (σ.enclose ⟨0, []⟩).2 =
      (.ok (some (.returned (.integer 7))), after) :=
    (Stmt.conclude_of_value binding rfl).trans <|
      (Stmt.conclude_of_value printing rfl).trans (Stmt.conclude_of_return returning)
  have alike := bodies_end_alike σ ⟨0, []⟩ b 0 below
  simp only [concluded] at alike
  exact ⟨below, alike⟩

end Marmoset
