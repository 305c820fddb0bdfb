import Marmoset.Proofs.Termination
import Marmoset.Proofs.TwoRuns

/-! # Call headroom

The number of calls that are still allowed decides one thing: whether a call is refused.  Nothing
else in an evaluation looks at it, and an error ends everything around it.  So a run that is not
refused a call does the same with more calls allowed (`Node.eval_of_more_headroom`), and an error
that a call ends with, however deep, is the outcome of the run (`Node.outcome_of_raised`).

The first is a comparison of two runs on one store from two depths, where the one with less headroom
is excused for reaching the limit.  The second is read off what the machine records. -/

namespace Marmoset

/-! ### Two depths -/

/-- Two runs on one and the same store, whatever it holds. -/
theorem EvalSimulation.identity :
    EvalSimulation Eq (fun _ => True) (fun _ => True) (fun _ => True) where
  toWrappable := .top
  body _ _ := trivial
  lookup := by
    rintro σ _ scope name rfl - -
    exact ⟨rfl, fun v _ _ _ => trivial⟩
  newClosure := by
    rintro σ _ scope body parameters rfl - -
    exact ⟨rfl, rfl, trivial⟩
  assign := by
    rintro σ _ scope v name rfl - -
    rfl
  enter := by
    rintro σ _ f arguments rfl - -
    exact ⟨rfl, rfl, trivial⟩
  printLine := by
    rintro σ _ line rfl
    rfl

theorem Node.eval_of_more_headroom {d₁ d₂ : Nat} (le : d₁ ≤ d₂) (node : Node) (scope : Scope)
    (store : Store) (free : ((node.eval d₂ scope).runOn store).1 ≠ .error (.callLimit callLimit)) :
    (node.eval d₁ scope).runOn store = (node.eval d₂ scope).runOn store := by
  have depths : Comparable (· = .callLimit callLimit) d₁ d₂ := .inr ⟨le, rfl⟩
  have compared : Eval.Matches Eq _ (node.eval d₁ scope) (node.eval d₂ scope) _ :=
    node.eval_matches .identity depths trivial fun _ _ => trivial
  rcases compared store store rfl with ⟨e, rfl, limit⟩ | ⟨outcome, after, -⟩
  · exact absurd limit free
  · exact Prod.ext outcome after

theorem Node.run_of_more_headroom {d₁ d₂ : Nat} (le : d₁ ≤ d₂) (node : Node) (scope : Scope)
    (store : Store) (free : ((node.eval d₂ scope).runOn store).1 ≠ .error (.callLimit callLimit)) :
    node.run d₁ scope store = node.run d₂ scope store := by
  rw [Node.run, Node.run, node.eval_of_more_headroom le scope store free]

/-- A source that cannot be read does nothing at any depth. -/
theorem runSource_of_more_headroom {d₁ d₂ : Nat} (le : d₁ ≤ d₂) (source : String) (scope : Scope)
    (store : Store)
    (free : (runSource d₂ scope source store).1 ≠ .ok (some (.error (.callLimit callLimit)))) :
    runSource d₁ scope source store = runSource d₂ scope source store := by
  unfold runSource at free ⊢
  by_cases readable : (parseSource source).errors.isEmpty = true
  · simp only [if_pos readable] at free ⊢
    rw [Node.run_of_more_headroom le]
    exact fun limit => free (congrArg (fun outcome => Except.ok (Node.resultOf outcome)) limit)
  · simp only [if_neg readable]

/-! ### Errors that a call ends with -/

/-- The machine has recorded a call that ended with the error `e`. -/
def Machine.Raised (machine : Machine) (e : RuntimeError) : Prop :=
  ∃ callee arguments, Event.call callee arguments (.error e) ∈ machine.events

@[simp] theorem Machine.raised_setDepth {machine : Machine} {calls : Nat} {e : RuntimeError} :
    (machine.setDepth calls).Raised e ↔ machine.Raised e := by
  simp [Raised, setDepth]

theorem Machine.raised_record {machine : Machine} {callee : Value} {arguments : List Value}
    {outcome : Except RuntimeError Value} {e : RuntimeError} :
    (machine.record (.call callee arguments outcome)).Raised e →
      machine.Raised e ∨ outcome = .error e := by
  rintro ⟨callee', arguments', mem⟩
  rcases List.mem_cons.mp mem with same | mem
  · cases same
    exact .inr rfl
  · exact .inl ⟨callee', arguments', mem⟩

namespace Run

variable {α β : Type}

/-- An error that a call ends with while `x` is done is what `x` ends with. -/
def Propagates (x : Run α) : Prop :=
  ∀ machine outcome after, x.runOn machine = some (outcome, after) →
    ∀ e, after.Raised e → machine.Raised e ∨ outcome = .error e

namespace Propagates

theorem bind {x : Run α} {f : α → Run β} (first : Propagates x) (next : ∀ a, Propagates (f a)) :
    Propagates (x >>= f) := by
  intro machine outcome after done e raised
  rw [runOn_bind] at done
  split at done
  · next a middle ran =>
    rcases next a _ _ _ done e raised with raised | ended
    · -- the first part ended with a value, so no call in it ended with an error
      exact .inl ((first _ _ _ ran e raised).resolve_right nofun)
    · exact .inr ended
  · next e' middle ran =>
    cases done
    refine (first _ _ _ ran e raised).imp_right fun ended => ?_
    cases ended
    rfl
  · cases done

theorem inCall {x : Run α} (body : Propagates x) : Propagates (Run.inCall x) := by
  intro machine outcome after done e raised
  rw [runOn_inCall] at done
  split at done
  · split at done
    · next ran =>
      cases done
      exact (body _ _ _ ran e (Machine.raised_setDepth.mp raised)).imp_left
        Machine.raised_setDepth.mp
    · cases done
  · cases done
    exact .inl raised

theorem recorded {x : Run Value} (callee : Value) (arguments : List Value) (body : Propagates x) :
    Propagates (Run.recorded callee arguments x) := by
  intro machine outcome after done e raised
  rw [runOn_recorded] at done
  split at done
  · next ran =>
    cases done
    rcases Machine.raised_record raised with raised | ended
    · exact body _ _ _ ran e raised
    · exact .inr ended
  · cases done

theorem compositional : Run.Compositional Propagates where
  exhausted := by rintro α machine outcome after ⟨⟩
  pure := by
    rintro α a machine outcome after ⟨⟩ e raised
    exact .inl raised
  throw := by
    rintro α e' machine outcome after ⟨⟩ e raised
    exact .inl raised
  lift := by
    rintro α x machine outcome after ⟨⟩ e raised
    exact .inl raised
  bind := .bind
  inCall := .inCall
  recorded := .recorded

end Propagates

end Run

/-- What a call ends with when it ends with an error is the outcome of the run. -/
theorem Node.outcome_of_raised {node : Node} {fuel depth : Nat} {scope : Scope} {store : Store}
    {outcome : Except RuntimeError (Option Value)} {after : Machine}
    (done : (node.perform fuel scope).runOn (.start store depth) = some (outcome, after))
    {e : RuntimeError} (raised : after.Raised e) : outcome = .error e := by
  rcases Run.Propagates.compositional.node fuel scope node _ _ _ done e raised with
    ⟨callee, arguments, mem⟩ | ended
  · cases mem
  · exact ended

/-! ### Headroom -/

/-- **More headroom changes nothing in a run that did not reach the limit.**  If a tree or a source,
run from some depth, does not end with the error that a call was refused, then from a smaller depth
it has the same result and leaves the same store, its frames and its output.  An error that any call
ends with on the way, such as that of a refused call, is the result of the run. -/
theorem more_headroom_same_run :
    (∀ (node : Node) (scope : Scope) (store : Store) (d₁ d₂ : Nat), d₁ ≤ d₂ →
      ((node.eval d₂ scope).runOn store).1 ≠ .error (.callLimit callLimit) →
      node.run d₁ scope store = node.run d₂ scope store) ∧
    (∀ (source : String) (scope : Scope) (store : Store) (d₁ d₂ : Nat), d₁ ≤ d₂ →
      (runSource d₂ scope source store).1 ≠ .ok (some (.error (.callLimit callLimit))) →
      runSource d₁ scope source store = runSource d₂ scope source store) ∧
    (∀ (node : Node) (scope : Scope) (store : Store) (depth : Nat),
      ∃ fuel after, (∀ n, fuel ≤ n → (node.perform n scope).runOn (.start store depth) =
          some (((node.eval depth scope).runOn store).1, after)) ∧
        ∀ callee arguments e, Event.call callee arguments (.error e) ∈ after.events →
          (node.run depth scope store).1 = some (.error e)) := by
  refine ⟨fun node scope store d₁ d₂ le => node.run_of_more_headroom le scope store,
    fun source scope store d₁ d₂ le => runSource_of_more_headroom le source scope store,
    fun node scope store depth => ?_⟩
  obtain ⟨fuel, events, done⟩ := node.settles depth scope (.start store depth) rfl
  refine ⟨fuel, _, done, fun callee arguments e mem => ?_⟩
  have ended := Node.outcome_of_raised (done fuel (Nat.le_refl fuel)) ⟨callee, arguments, mem⟩
  rw [Node.run]
  exact congrArg Node.resultOf ended

/-- In a store with `fn() { 7 }` bound to `f`, the call `f()` does from 9999 active calls what it
does from none.  From 10000 it is refused, and that is the result of `[1, f()]`. -/
theorem more_headroom_same_run_last_call :
    let f : Closure := ⟨0, [], [.expr (.integer 7)], ⟨0, []⟩⟩
    let store : Store := ⟨#[[("f", .function f)]], 1, ""⟩
    let after : Store := ⟨#[[("f", .function f)], []], 1, ""⟩
    let call : Expr := .call (.name "f") []
    ((Node.expression call).eval 9999 ⟨0, []⟩).runOn store = (.ok (some (.integer 7)), after) ∧
      (Node.expression call).run 0 ⟨0, []⟩ store = (some (.integer 7), after) ∧
      runSource 9999 ⟨0, []⟩ "f()" store = (.ok (some (.integer 7)), after) ∧
      runSource 0 ⟨0, []⟩ "f()" store = (.ok (some (.integer 7)), after) ∧
      ((Node.expression (.array [.integer 1, call])).run 10000 ⟨0, []⟩ store).1 =
        some (.error (.callLimit callLimit)) := by
  intro f store after call
  obtain ⟨nodes, sources, raised⟩ := more_headroom_same_run
  have last : ((Node.expression call).eval 9999 ⟨0, []⟩).runOn store =
      (.ok (some (.integer 7)), after) := (Node.settles _ _ _).runOn_eq 6 fun _ => rfl
  have parsed : parseSource "f()" = ⟨[.expr call], []⟩ := by with_unfolding_all rfl
  have lastSource : runSource 9999 ⟨0, []⟩ "f()" store = (.ok (some (.integer 7)), after) := by
    have run : (Node.program [.expr call]).run 9999 ⟨0, []⟩ store = (some (.integer 7), after) :=
      Node.run_of_perform 8 fun _ => rfl
    rw [runSource_of_errors_eq_nil (by rw [parsed]), parsed, run]
  refine ⟨last, ?_, lastSource, ?_, ?_⟩
  · rw [nodes _ _ _ 0 9999 (by decide) (by simp [last]), Node.run, last]
    rfl
  · rw [sources _ _ _ 0 9999 (by decide) (by simp [lastSource]), lastSource]
  · obtain ⟨fuel, final, done, ends⟩ :=
      raised (.expression (.array [.integer 1, call])) ⟨0, []⟩ store 10000
    have refused : ((Node.expression (.array [.integer 1, call])).perform (fuel + 6)
        ⟨0, []⟩).runOn (.start store 10000) = some (.error (.callLimit callLimit),
          ⟨store, 10000, [.call (.function f) [] (.error (.callLimit callLimit))]⟩) := rfl
    have same := Option.some.inj ((done (fuel + 6) (by omega)).symm.trans refused)
    refine ends (.function f) [] _ ?_
    rw [(Prod.mk.inj same).2]
    exact List.mem_cons_self

end Marmoset
