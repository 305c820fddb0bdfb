import Marmoset.Proofs.Continuation
import Marmoset.Proofs.Frames
import Marmoset.Proofs.Reach
import Marmoset.Proofs.RunInvariant

/-! # Errors are not values of the program

An evaluation that fails stops with a runtime error, and only the end of the run makes a value of it.
So a program never gets hold of an error: no name is bound to one, no array and no hash has one in it,
and no call is made with one, if this was so at the start for all values that the program can get to
(`errors_never_stored`).  The result is an error value exactly if a statement fails, and then the run
ends where the first one does (`Stmt.FailsFirst`). -/

namespace Marmoset

/-! ### Values without errors -/

/-- The value is or contains an error. -/
def Value.HoldsError (v : Value) : Prop :=
  ∃ e, Value.Within (.error e) v

/-- No error, and if a function, then one whose scope is in view. -/
def Value.Sound (view : View) : Value → Prop
  | .error _ => False
  | .function f => view.Shows f.scope
  | _ => True

theorem Value.All.not_holdsError {view : View} {v : Value} (h : v.All (Value.Sound view)) :
    ¬ v.HoldsError :=
  fun ⟨_, within⟩ => h _ within

/-- All values in view are without errors. -/
structure Store.Sound (view : View) (store : Store) : Prop where
  size : view.base ≤ store.frames.size
  holds : store.Holds view.visible (Value.Sound view)

/-- Evaluation makes no errors, and the frames that it makes are in view. -/
theorem soundInvariant (view : View) :
    EvalInvariant (Store.Sound view) view.Shows (Value.Sound view) where
  integer _ := trivial
  boolean _ := trivial
  null := trivial
  text _ := trivial
  array _ := trivial
  hash _ := trivial
  builtin _ := trivial
  returned _ := trivial
  lookup sound inside found := sound.holds.lookup inside found
  newClosure _ _ sound inside := ⟨⟨sound.size, sound.holds.of_frames_eq rfl⟩, inside⟩
  assign name sound _ good := by
    refine ⟨?_, sound.holds.assign good⟩
    rw [Store.size_assign]
    exact sound.size
  enter {store f arguments} sound closed given := by
    refine ⟨⟨?_, sound.holds.enter f given⟩, closed.enter arguments sound.size⟩
    rw [Store.size_enter]
    exact Nat.le_succ_of_le sound.size
  printLine _ sound := ⟨sound.size, sound.holds.of_frames_eq rfl⟩

/-- If no value in reach is or contains an error, all values in view are without errors. -/
theorem Store.sound_reach {store : Store} {scope : Scope}
    (clean : ∀ v, store.BindsInReach scope v → ¬ v.HoldsError) : store.Sound (store.reach scope) := by
  refine ⟨Nat.le_refl _, holds_reach fun v part bound within closed => ?_⟩
  cases part with
  | error e => exact clean v bound ⟨e, within⟩
  | function f => exact closed f rfl
  | _ => trivial

/-! ### The first failure -/

/-- The statements before one of the program come to their end, and that one fails with the error `e`
and leaves the store `after`. -/
def Stmt.FailsFirst (depth : Nat) (scope : Scope) (program : Program) (store : Store)
    (e : RuntimeError) (after : Store) : Prop :=
  ∃ before s rest, program = before ++ s :: rest ∧
    Stmt.allComplete depth scope before store = true ∧
    (s.exec depth scope).runOn ((Node.program before).run depth scope store).2 = (.error e, after)

namespace Stmt

variable {depth : Nat} {scope : Scope} {store after : Store} {e : RuntimeError}

theorem after_run_nil (depth : Nat) (scope : Scope) (store : Store) :
    ((Node.program []).run depth scope store).2 = store := by
  rw [Node.run, Node.eval, execAll]
  rfl

/-- A statement that comes to its end hands its store on. -/
theorem after_run_cons {s : Stmt} {ss : List Stmt} {value : Option Value}
    (first : (s.exec depth scope).runOn store = (.ok value, after)) (on : endsBlock value = false) :
    ((Node.program (s :: ss)).run depth scope store).2 =
      ((Node.program ss).run depth scope after).2 := by
  cases ss with
  | nil =>
      rw [after_run_nil, Node.run, Node.eval, runOn_execAll_cons first on, execAll]
      rfl
  | cons t ss =>
      rw [Node.run, Node.eval, runOn_execAll_cons first on,
        execAll_of_ne_nil (List.cons_ne_nil t ss) depth scope value none]
      rfl

/-- Where a statement fails, the statements end with its error and in its store. -/
theorem FailsFirst.runOn_execAll {ss : List Stmt} (h : FailsFirst depth scope ss store e after) :
    (execAll depth scope none ss).runOn store = (.error e, after) := by
  obtain ⟨before, s, rest, rfl, complete, fails⟩ := h
  obtain ⟨last, σ, hands⟩ := exists_runOn_execAll_append complete none
  have ended : ((Node.program before).run depth scope store).2 = σ := by
    have alone := hands []
    rw [List.append_nil, execAll] at alone
    rw [Node.run, Node.eval, alone]
    rfl
  rw [ended] at fails
  rw [hands, execAll_cons, Eval.runOn_bind, fails]

/-- If statements end with an error, one of them fails with it. -/
theorem failsFirst_of_runOn_execAll {ss : List Stmt} {last : Option Value}
    (h : (execAll depth scope last ss).runOn store = (.error e, after)) :
    FailsFirst depth scope ss store e after := by
  induction ss generalizing store last with
  | nil =>
      rw [execAll] at h
      cases h
  | cons s ss ih =>
      rcases first : (s.exec depth scope).runOn store with ⟨e' | value, σ⟩
      · rw [execAll_cons, Eval.runOn_bind, first] at h
        cases h
        exact ⟨[], s, ss, rfl, rfl, by rw [after_run_nil, first]⟩
      · cases ends : endsBlock value with
        | true =>
            rw [execAll_cons, Eval.runOn_bind, first] at h
            simp only [ends, if_true] at h
            cases h
        | false =>
            rw [runOn_execAll_cons first ends] at h
            obtain ⟨before, s', rest, rfl, complete, fails⟩ := ih h
            refine ⟨s :: before, s', rest, rfl, ?_, ?_⟩
            · rw [allComplete, first]
              simp [ends, complete]
            · rw [after_run_cons first ends, fails]

end Stmt

/-! ### Whole runs -/

/-- What a run of a program leaves.  A frame that is there at the end binds no error, nor anything that
contains one, unless the run could not get to it and left it as it was.  No argument of any call that
the machine makes is or contains an error.  The result is an error if and only if a statement fails;
then it is the error of the first that does, and the store is the one that this statement leaves.  No
other result contains an error. -/
structure ErrorsContained (depth : Nat) (scope : Scope) (store : Store) (program : Program)
    (result : Option Value) (after : Store) : Prop where
  bindings : ∀ i frame, after.frames[i]? = some frame → (∀ entry ∈ frame, ¬ entry.2.HoldsError) ∨
    ¬ store.Reaches scope i ∧ store.frames[i]? = some frame
  arguments : ∃ fuel machine,
    (∀ n, fuel ≤ n → ((Node.program program).perform n scope).runOn (Machine.start store depth) =
      some ((((Node.program program).eval depth scope).runOn store).1, machine)) ∧
    machine.store = after ∧ ∀ callee arguments outcome,
      .call callee arguments outcome ∈ machine.events → ∀ v ∈ arguments, ¬ v.HoldsError
  of_failure : ∀ e σ, Stmt.FailsFirst depth scope program store e σ →
    result = some (.error e) ∧ after = σ
  failure : ∀ e, result = some (.error e) → Stmt.FailsFirst depth scope program store e after
  value : ∀ v, result = some v → v.HoldsError → ∃ e, v = .error e

section Runs

variable {depth : Nat} {scope : Scope} {store : Store}

/-- The frames of a store that are not in reach are not touched. -/
theorem Node.frames_run_of_not_reaches (node : Node) {i : Nat} (old : i < store.frames.size)
    (unreached : ¬ store.Reaches scope i) :
    (node.run depth scope store).2.frames[i]? = store.frames[i]? := by
  refine (node.frames_run depth scope store).same i old ?_
  rintro rfl
  exact unreached (.own List.mem_cons_self)

/-- A result of a run in which no value is or contains an error. -/
theorem Node.resultOf_eq_error {outcome : Except RuntimeError (Option Value)} {v : Value} {view : View}
    (good : ∀ value, outcome = .ok value → AllParts (Value.Sound view) value)
    (result : Node.resultOf outcome = some v) (holds : v.HoldsError) :
    ∃ e, outcome = .error e ∧ v = .error e := by
  cases outcome with
  | error e =>
      cases result
      exact ⟨e, rfl, rfl⟩
  | ok value =>
      obtain ⟨w, rfl, rfl⟩ := Option.map_eq_some_iff.mp result
      have unwrapped := (soundInvariant view).all_unwrap (good _ rfl w rfl)
      exact absurd holds unwrapped.not_holdsError

theorem errorsContained_run (clean : ∀ v, store.BindsInReach scope v → ¬ v.HoldsError)
    (program : Program) :
    ErrorsContained depth scope store program ((Node.program program).run depth scope store).1
      ((Node.program program).run depth scope store).2 := by
  have start : (Machine.start store depth).Safe (Store.Sound (store.reach scope))
      (Value.Sound (store.reach scope)) := ⟨Store.sound_reach clean, nofun⟩
  obtain ⟨fuel, events, done⟩ :=
    (Node.program program).settles depth scope (Machine.start store depth) rfl
  obtain ⟨safe, good⟩ := (Node.program program).keeps_safe (soundInvariant _) fuel
    (store.shows_reach scope) _ _ _ start (done fuel (Nat.le_refl fuel))
  refine ⟨fun i frame found => ?_, ⟨fuel, _, done, rfl, ?_⟩, fun e σ fails => ?_, fun e result => ?_,
    fun v result holds => ?_⟩
  · by_cases seen : (store.reach scope).visible i
    · exact .inl fun entry mem => (safe.store.holds i frame seen found entry mem).not_holdsError
    · obtain ⟨unreached, old⟩ := not_or.mp seen
      refine .inr ⟨unreached, ?_⟩
      rw [← Node.frames_run_of_not_reaches (.program program) (Nat.lt_of_not_le old) unreached]
      exact found
  · intro callee arguments outcome mem v given
    exact ((safe.events _ mem).2.1 v given).not_holdsError
  · rw [Node.run, Node.eval, fails.runOn_execAll]
    exact ⟨rfl, rfl⟩
  · obtain ⟨e', outcome, same⟩ := Node.resultOf_eq_error good result ⟨e, .self⟩
    cases same
    exact Stmt.failsFirst_of_runOn_execAll (Prod.ext outcome rfl)
  · obtain ⟨e, -, same⟩ := Node.resultOf_eq_error good result holds
    exact ⟨e, same⟩

end Runs

/-- **Errors are never stored and never passed on.**  Let no value that can be reached from a scope be or
contain an error.  Then a run in this scope, of any program, contains its errors.  A run of a source
that can be read is a run of its program, and one of a source that cannot be read does nothing. -/
theorem errors_never_stored (depth : Nat) (scope : Scope) (store : Store)
    (clean : ∀ v, store.BindsInReach scope v → ¬ v.HoldsError) :
    (∀ program, ErrorsContained depth scope store program
      ((Node.program program).run depth scope store).1
      ((Node.program program).run depth scope store).2) ∧
    ∀ source, match runSource depth scope source store with
      | (.ok result, after) =>
        ErrorsContained depth scope store (parseSource source).program result after
      | (.error _, after) => after = store := by
  refine ⟨errorsContained_run clean, fun source => ?_⟩
  cases read : (parseSource source).errors with
  | nil =>
      rw [runSource_of_errors_eq_nil read]
      exact errorsContained_run clean (parseSource source).program
  | cons e errors =>
      rw [runSource, read]
      rfl

/-- A store that binds `fn(x) { puts(x); [x] }` to `f`, and has an error in a frame that nothing leads
to.  In `let a = f(1); a + true; puts(2)` the second statement fails: the result is its error, `a` is
bound, and 2 is not printed. -/
theorem errors_never_stored_second_statement :
    let f : Closure := ⟨0, ["x"], [.expr (.call (.name "puts") [.name "x"]),
      .expr (.array [.name "x"])], ⟨0, []⟩⟩
    let lost : Frame := [("e", .error .divisionByZero)]
    let store : Store := ⟨#[[("f", .function f)], lost], 1, ""⟩
    let program : Program := [.bind "a" (.call (.name "f") [.integer 1]),
      .expr (.binary .add (.name "a") (.boolean true)), .expr (.call (.name "puts") [.integer 2])]
    let after : Store := ⟨#[[("f", .function f), ("a", .array [.integer 1])], lost,
      [("x", .integer 1)]], 1, "1\n"⟩
    (∀ v, store.BindsInReach ⟨0, []⟩ v → ¬ v.HoldsError) ∧
      store.BindsInReach ⟨0, []⟩ (.function f) ∧
      ErrorsContained 0 ⟨0, []⟩ store program (some (.error (.typeMismatch .array .add .boolean)))
        after := by
  intro f lost store program after
  have reached : ∀ i, store.Reaches ⟨0, []⟩ i → i = 0 := by
    intro i reaches
    induction reaches with
    | own mem => exact List.mem_singleton.mp mem
    | through _ found mem within inScope ih =>
        subst ih
        cases found
        cases List.mem_singleton.mp mem
        cases within
        exact List.mem_singleton.mp inScope
  have clean : ∀ v, store.BindsInReach ⟨0, []⟩ v → ¬ v.HoldsError := by
    rintro v ⟨i, frame, name, reaches, found, mem⟩ ⟨e, within⟩
    cases reached i reaches
    cases found
    cases List.mem_singleton.mp mem
    cases within
  have run : (Node.program program).run 0 ⟨0, []⟩ store =
      (some (.error (.typeMismatch .array .add .boolean)), after) :=
    Node.run_of_perform 20 fun _ => rfl
  have main := (errors_never_stored 0 ⟨0, []⟩ store clean).1 program
  rw [run] at main
  exact ⟨clean, ⟨0, _, "f", .own List.mem_cons_self, rfl, List.mem_cons_self⟩, main⟩

end Marmoset
