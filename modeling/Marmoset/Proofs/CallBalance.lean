import Mathlib.Logic.Relation
import Marmoset.Proofs.Termination

/-! # The counter of active calls

A call holds a guard: the counter goes up when the guard is made and down when it is dropped, at the
end of the body or on the way of an error out of it.  An `Excursion` is the sequence of readings that
this leaves behind: up by one for each guard, down by one when that guard goes, within the limit.
Whatever the machine does is an excursion (`Run.Balanced`), so it ends where it began and the counter
never goes below its start.

Outside a run guards can be made and dropped in any order.  A `Thread` is a machine with the guards
that are held around it; in every thread that can arise the counter is the number of these guards
(`Thread.Counted`), which is why taking one away never meets zero. -/

namespace Marmoset

/-! ### Readings -/

/-- The reading of the counter that an event leaves behind. -/
def Event.reading? : Event → Option Nat
  | depth calls => some calls
  | call _ _ _ => none

namespace Machine

/-- The readings of the counter, in the order in which they were made. -/
def readings (machine : Machine) : List Nat :=
  machine.events.reverse.filterMap Event.reading?

@[simp] theorem readings_start (store : Store) (depth : Nat) : (start store depth).readings = [] :=
  rfl

@[simp] theorem readings_setDepth (machine : Machine) (calls : Nat) :
    (machine.setDepth calls).readings = machine.readings ++ [calls] := by
  simp [readings, setDepth, Event.reading?]

@[simp] theorem readings_record_call (machine : Machine) (callee : Value) (arguments : List Value)
    (outcome : Except RuntimeError Value) :
    (machine.record (.call callee arguments outcome)).readings = machine.readings := by
  simp [readings, record, Event.reading?]

end Machine

/-- The readings of a counter that stands at `depth` while calls are made and left again: each call
takes it up by one, makes calls of its own there, and takes it down by one. -/
inductive Excursion : Nat → List Nat → Prop
  | stay {depth : Nat} : Excursion depth []
  | call {depth : Nat} {inner rest : List Nat} :
      depth < callLimit → Excursion (depth + 1) inner → Excursion depth rest →
      Excursion depth ((depth + 1) :: (inner ++ depth :: rest))

namespace Excursion

variable {depth : Nat}

theorem append {first second : List Nat} (h : Excursion depth first)
    (h' : Excursion depth second) : Excursion depth (first ++ second) := by
  induction h with
  | stay => exact h'
  | @call depth inner rest below inside _ _ ih =>
      have whole := Excursion.call below inside (ih h')
      simpa using whole

theorem bounds {readings : List Nat} (h : Excursion depth readings) :
    ∀ calls ∈ readings, depth ≤ calls ∧ calls ≤ callLimit := by
  induction h with
  | stay => exact nofun
  | @call depth inner rest below _ _ inside after =>
      intro calls mem
      rcases List.mem_cons.mp mem with rfl | mem
      · omega
      · rcases List.mem_append.mp mem with mem | mem
        · have := inside calls mem
          omega
        · rcases List.mem_cons.mp mem with rfl | mem
          · omega
          · exact after calls mem

end Excursion

/-! ### Balanced computations -/

namespace Run

variable {α β : Type}

/-- However `x` ends, the counter is where it was, and its readings on the way are an excursion. -/
def Balanced (x : Run α) : Prop :=
  ∀ machine outcome after, x.runOn machine = some (outcome, after) →
    after.depth = machine.depth ∧
      ∃ readings, Excursion machine.depth readings ∧ after.readings = machine.readings ++ readings

namespace Balanced

theorem exhausted : Balanced (Run.exhausted : Run α) := by
  rintro machine outcome after ⟨⟩

theorem pure (a : α) : Balanced (Pure.pure a) := by
  rintro machine outcome after ⟨⟩
  exact ⟨rfl, [], .stay, (List.append_nil _).symm⟩

theorem throw (e : RuntimeError) : Balanced (MonadExcept.throw e : Run α) := by
  rintro machine outcome after ⟨⟩
  exact ⟨rfl, [], .stay, (List.append_nil _).symm⟩

theorem lift (x : Eval α) : Balanced (Run.lift x) := by
  rintro machine outcome after ⟨⟩
  exact ⟨rfl, [], .stay, (List.append_nil _).symm⟩

theorem bind {x : Run α} {f : α → Run β} (first : Balanced x) (next : ∀ a, Balanced (f a)) :
    Balanced (x >>= f) := by
  intro machine outcome after done
  rw [runOn_bind] at done
  split at done
  · next a middle ran =>
    obtain ⟨depth, readings, path, whole⟩ := first _ _ _ ran
    obtain ⟨depth', readings', path', whole'⟩ := next a _ _ _ done
    rw [depth] at depth' path'
    refine ⟨depth', readings ++ readings', path.append path', ?_⟩
    rw [whole', whole, List.append_assoc]
  · next e middle ran =>
    cases done
    exact first _ _ _ ran
  · cases done

/-- A call that is entered is one step up, an excursion there, and one step down. -/
theorem inCall_below {x : Run α} (body : Balanced x) {machine after : Machine}
    {outcome : Except RuntimeError α} (below : machine.depth < callLimit)
    (done : (Run.inCall x).runOn machine = some (outcome, after)) :
    after.depth = machine.depth ∧ ∃ inner, Excursion (machine.depth + 1) inner ∧
      after.readings = machine.readings ++ (machine.depth + 1) :: (inner ++ [machine.depth]) := by
  have entered : enterCall machine.depth = .ok (machine.depth + 1) := if_pos below
  simp only [runOn_inCall, entered] at done
  split at done
  · next outcome last ran =>
    cases done
    obtain ⟨depth, inner, path, whole⟩ := body _ _ _ ran
    have left : leaveCall last.depth = machine.depth := by
      rw [depth]
      exact leaveCall_of_enterCall entered
    refine ⟨left, inner, path, ?_⟩
    rw [Machine.readings_setDepth, whole, left, Machine.readings_setDepth]
    simp
  · cases done

theorem inCall {x : Run α} (body : Balanced x) : Balanced (Run.inCall x) := by
  intro machine outcome after done
  by_cases below : machine.depth < callLimit
  · obtain ⟨depth, inner, path, whole⟩ := body.inCall_below below done
    exact ⟨depth, _, .call below path .stay, whole⟩
  · have refused : enterCall machine.depth = .error (.callLimit callLimit) := if_neg below
    rw [runOn_inCall, refused] at done
    cases done
    exact ⟨rfl, [], .stay, (List.append_nil _).symm⟩

theorem recorded {x : Run Value} (callee : Value) (arguments : List Value) (body : Balanced x) :
    Balanced (Run.recorded callee arguments x) := by
  intro machine outcome after done
  rw [runOn_recorded] at done
  split at done
  · next ran =>
    cases done
    obtain ⟨depth, readings, path, whole⟩ := body _ _ _ ran
    exact ⟨depth, readings, path, by rw [Machine.readings_record_call, whole]⟩
  · cases done

end Balanced

end Run

/-! ### The whole machine -/

open Run (Balanced)

theorem balanced_compositional : Run.Compositional Balanced where
  exhausted := .exhausted
  pure := .pure
  throw := .throw
  lift := .lift
  bind := .bind
  inCall := .inCall
  recorded := .recorded

theorem Node.perform_balanced (n : Nat) (scope : Scope) (node : Node) :
    Balanced (node.perform n scope) :=
  balanced_compositional.node n scope node

/-! ### Sources -/

/-- Runs a source text on a machine: nothing is done if it cannot be read without errors. -/
def performSource (fuel : Nat) (scope : Scope) (source : String) (machine : Machine) :
    Option (Except (List ParseError) (Option Value) × Machine) :=
  let parsed := parseSource source
  if parsed.errors.isEmpty then
    (((Node.program parsed.program).perform fuel scope).runOn machine).map fun (outcome, after) =>
      (.ok (Node.resultOf outcome), after)
  else some (.error parsed.errors, machine)

/-- A source leaves the machine alone or runs as its program. -/
theorem performSource_cases {fuel : Nat} {scope : Scope} {source : String} {machine after : Machine}
    {result : Except (List ParseError) (Option Value)}
    (done : performSource fuel scope source machine = some (result, after)) :
    after = machine ∨ ∃ outcome, ((Node.program (parseSource source).program).perform fuel
      scope).runOn machine = some (outcome, after) := by
  simp only [performSource] at done
  split at done
  · obtain ⟨⟨outcome, last⟩, ran, e⟩ := Option.map_eq_some_iff.mp done
    cases e
    exact .inr ⟨outcome, ran⟩
  · cases done
    exact .inl rfl

/-- With enough fuel a source gives on the machine what it gives by evaluation. -/
theorem performSource_settles (source : String) (scope : Scope) (machine : Machine) :
    ∃ fuel after, (∀ n, fuel ≤ n → performSource n scope source machine =
      some ((runSource machine.depth scope source machine.store).1, after)) ∧
      after.store = (runSource machine.depth scope source machine.store).2 := by
  simp only [performSource, runSource]
  by_cases readable : (parseSource source).errors.isEmpty = true
  · obtain ⟨fuel, events, done⟩ :=
      (Node.program (parseSource source).program).settles machine.depth scope machine rfl
    simp only [if_pos readable]
    refine ⟨fuel, ⟨_, machine.depth, events⟩, fun n enough => ?_, rfl⟩
    rw [done n enough]
    rfl
  · simp only [if_neg readable]
    exact ⟨0, machine, fun _ _ => rfl, rfl⟩

/-! ### Calls that are refused -/

/-- The number of arguments that a value has to be called with, if there is only one. -/
def Value.argumentCount? : Value → Option Nat
  | .function f => some f.parameters.length
  | .builtin b =>
    match b.arity with
    | .exactly n => some n
    | .any => none
  | _ => none

/-- A builtin refuses any other number of arguments than its own, and prints nothing then. -/
theorem Builtin.runOn_call_of_count_ne {b : Builtin} {arguments : List Value} {want : Nat}
    (count : (Value.builtin b).argumentCount? = some want) (wrong : arguments.length ≠ want)
    (store : Store) :
    (b.call arguments).runOn store = (.error (.argumentCount arguments.length want), store) := by
  have takes : b.arity = .exactly want := by cases b <;> cases count <;> rfl
  have silent : b.printed arguments = [] := by cases b <;> first | rfl | cases takes
  rw [Builtin.call, silent, Builtin.result_of_length_ne takes wrong]
  rfl

/-- A wrong number of arguments leaves everything as it was but for the record of the call. -/
theorem Value.performCall_of_count_ne {callee : Value} {arguments : List Value} {want : Nat}
    (count : callee.argumentCount? = some want) (wrong : arguments.length ≠ want) (n : Nat)
    (machine : Machine) :
    (Value.performCall (n + 1) callee arguments).runOn machine =
      some (.error (.argumentCount arguments.length want),
        machine.record (.call callee arguments (.error (.argumentCount arguments.length want)))) := by
  cases callee with
  | function f =>
      cases count
      rw [Value.performCall, Run.runOn_recorded, if_pos wrong]
      rfl
  | builtin b =>
      rw [Value.performCall, Run.runOn_recorded, Run.runOn_lift,
        Builtin.runOn_call_of_count_ne count wrong]
  | _ => cases count

/-- A call with the right number of arguments is refused at the limit and nowhere else.  When it is
refused, nothing has been done but to record it; otherwise the counter has been set. -/
theorem Value.performCall_refused_iff {f : Closure} {arguments : List Value}
    (count : arguments.length = f.parameters.length) (n : Nat) {machine : Machine}
    (bounded : machine.depth ≤ callLimit) :
    (Value.performCall (n + 1) (.function f) arguments).runOn machine =
      some (.error (.callLimit callLimit), machine.record
        (.call (.function f) arguments (.error (.callLimit callLimit)))) ↔
      machine.depth = callLimit := by
  rw [Value.performCall, Run.runOn_recorded, if_neg (not_not_intro count)]
  constructor
  · intro refused
    rcases Nat.lt_or_eq_of_le bounded with below | limit
    · split at refused
      · next outcome last ran =>
        have body : Balanced _ := (Balanced.lift (Eval.step (f.enter arguments))).bind fun scope =>
          (balanced_compositional.statements n scope none f.body).bind fun value => .pure (callResult value)
        obtain ⟨-, inner, -, whole⟩ := body.inCall_below below ran
        have same := congrArg Machine.readings (Prod.mk.inj (Option.some.inj refused)).2
        rw [Machine.readings_record_call, Machine.readings_record_call, whole] at same
        simp at same
      · cases refused
    · exact limit
  · intro limit
    have refused : enterCall machine.depth = .error (.callLimit callLimit) := by
      rw [limit]
      exact if_neg (Nat.lt_irrefl _)
    rw [Run.runOn_inCall, refused]

/-! ### Guards around runs -/

/-- A machine, and the guards that are held outside of its runs. -/
structure Thread where
  machine : Machine
  guards : List Nat

namespace Thread

/-- No guard has been made yet. -/
def fresh (store : Store) : Thread :=
  ⟨.start store 0, []⟩

/-- What can happen next: a guard is made or refused, some guard is dropped, or something is run. -/
inductive Step : Thread → Thread → Prop
  | enter {thread : Thread} {guard inner : Nat} :
      guard ∉ thread.guards → enterCall thread.machine.depth = .ok inner →
      Step thread ⟨thread.machine.setDepth inner, guard :: thread.guards⟩
  | refuse {thread : Thread} {e : RuntimeError} :
      enterCall thread.machine.depth = .error e → Step thread thread
  | drop {thread : Thread} {guard : Nat} :
      guard ∈ thread.guards →
      Step thread ⟨thread.machine.setDepth (leaveCall thread.machine.depth),
        thread.guards.erase guard⟩
  | run {thread : Thread} {fuel : Nat} {scope : Scope} {node : Node} {after : Machine}
      {outcome : Except RuntimeError (Option Value)} :
      (node.perform fuel scope).runOn thread.machine = some (outcome, after) →
      Step thread ⟨after, thread.guards⟩
  | runSource {thread : Thread} {fuel : Nat} {scope : Scope} {source : String} {after : Machine}
      {result : Except (List ParseError) (Option Value)} :
      performSource fuel scope source thread.machine = some (result, after) →
      Step thread ⟨after, thread.guards⟩

/-- The counter is the number of guards, which is within the limit. -/
def Counted (thread : Thread) : Prop :=
  thread.machine.depth = thread.guards.length ∧ thread.machine.depth ≤ callLimit

theorem Counted.of_depth_eq {thread : Thread} {machine : Machine} (h : thread.Counted)
    (same : machine.depth = thread.machine.depth) : Counted ⟨machine, thread.guards⟩ :=
  ⟨same.trans h.1, Nat.le_trans (Nat.le_of_eq same) h.2⟩

theorem Counted.step {thread next : Thread} (h : thread.Counted) (step : Step thread next) :
    next.Counted := by
  cases step with
  | @enter guard inner fresh entered =>
      obtain ⟨below, rfl⟩ := enterCall_eq_ok_iff.mp entered
      exact ⟨congrArg (· + 1) h.1, below⟩
  | refuse => exact h
  | @drop guard live =>
      have fewer := List.length_erase_of_mem live
      refine ⟨?_, Nat.le_trans (Nat.sub_le _ 1) h.2⟩
      change thread.machine.depth - 1 = (thread.guards.erase guard).length
      rw [fewer, h.1]
  | run ran => exact h.of_depth_eq (Node.perform_balanced _ _ _ _ _ _ ran).1
  | runSource ran =>
      rcases performSource_cases ran with rfl | ⟨outcome, ran⟩
      · exact h
      · exact h.of_depth_eq (Node.perform_balanced _ _ _ _ _ _ ran).1

theorem Counted.of_reachable {store : Store} {thread : Thread}
    (h : Relation.ReflTransGen Step (fresh store) thread) : thread.Counted := by
  induction h with
  | refl => exact ⟨rfl, Nat.zero_le _⟩
  | tail _ step ih => exact ih.step step

/-- While a guard is held, taking one off the counter is undone by adding one. -/
theorem Counted.leaveCall_add_one {thread : Thread} (h : thread.Counted) {guard : Nat}
    (live : guard ∈ thread.guards) : leaveCall thread.machine.depth + 1 = thread.machine.depth := by
  have held := List.length_pos_of_mem live
  have counted := h.1
  unfold leaveCall
  omega

end Thread

/-! ### The counter in runs and around them -/

/-- **The counter of active calls is balanced and bounded.**  A run of a tree or of a source ends
at the depth it starts at, and in between the counter goes up and down by
one for each call, never below the start and never above the limit.  A call with the right number of
arguments is refused, before anything is done, exactly at the limit; a wrong number of arguments
changes neither counter nor store.  However guards are made and dropped and trees and sources are run
in between, the counter is the number of guards held, so that it is never lowered at zero. -/
theorem call_depth_balanced :
    (∀ (node : Node) (scope : Scope) (store : Store) (depth : Nat),
      ∃ fuel after, (∀ n, fuel ≤ n → (node.perform n scope).runOn (.start store depth) =
          some (((node.eval depth scope).runOn store).1, after)) ∧
        after.store = ((node.eval depth scope).runOn store).2 ∧ after.depth = depth ∧
        Excursion depth after.readings ∧
        ∀ calls ∈ after.readings, depth ≤ calls ∧ calls ≤ callLimit) ∧
    (∀ (source : String) (scope : Scope) (store : Store) (depth : Nat),
      ∃ fuel after, (∀ n, fuel ≤ n → performSource n scope source (.start store depth) =
          some ((runSource depth scope source store).1, after)) ∧
        after.store = (runSource depth scope source store).2 ∧ after.depth = depth ∧
        Excursion depth after.readings ∧
        ∀ calls ∈ after.readings, depth ≤ calls ∧ calls ≤ callLimit) ∧
    (∀ (f : Closure) (arguments : List Value) (n : Nat) (machine : Machine),
      arguments.length = f.parameters.length → machine.depth ≤ callLimit →
      ((Value.performCall (n + 1) (.function f) arguments).runOn machine =
        some (.error (.callLimit callLimit), machine.record
          (.call (.function f) arguments (.error (.callLimit callLimit)))) ↔
        machine.depth = callLimit)) ∧
    (∀ (callee : Value) (arguments : List Value) (want n : Nat) (machine : Machine),
      callee.argumentCount? = some want → arguments.length ≠ want →
      (Value.performCall (n + 1) callee arguments).runOn machine =
        some (.error (.argumentCount arguments.length want), machine.record
          (.call callee arguments (.error (.argumentCount arguments.length want))))) ∧
    (∀ (store : Store) (thread : Thread),
      Relation.ReflTransGen Thread.Step (.fresh store) thread →
      thread.machine.depth = thread.guards.length ∧ thread.machine.depth ≤ callLimit ∧
      ∀ guard ∈ thread.guards, leaveCall thread.machine.depth + 1 = thread.machine.depth) := by
  refine ⟨fun node scope store depth => ?_, fun source scope store depth => ?_,
    fun f arguments n machine count bounded => Value.performCall_refused_iff count n bounded,
    fun callee arguments want n machine count wrong =>
      Value.performCall_of_count_ne count wrong n machine, fun store thread reached => ?_⟩
  · obtain ⟨fuel, events, done⟩ := node.settles depth scope (.start store depth) rfl
    obtain ⟨-, readings, path, whole⟩ :=
      node.perform_balanced fuel scope _ _ _ (done fuel (Nat.le_refl fuel))
    rw [Machine.readings_start, List.nil_append] at whole
    refine ⟨fuel, _, done, rfl, rfl, ?_, ?_⟩
    · rw [whole]
      exact path
    · rw [whole]
      exact path.bounds
  · obtain ⟨fuel, after, done, store_eq⟩ := performSource_settles source scope (.start store depth)
    have path : after.depth = depth ∧ Excursion depth after.readings := by
      rcases performSource_cases (done fuel (Nat.le_refl fuel)) with rfl | ⟨outcome, ran⟩
      · exact ⟨rfl, .stay⟩
      · obtain ⟨same, readings, path, whole⟩ := Node.perform_balanced _ _ _ _ _ _ ran
        rw [Machine.readings_start, List.nil_append] at whole
        exact ⟨same, whole ▸ path⟩
    exact ⟨fuel, after, done, store_eq, path.1, path.2, path.2.bounds⟩
  · have counted := Thread.Counted.of_reachable reached
    exact ⟨counted.1, counted.2, fun guard live => counted.leaveCall_add_one live⟩

/-- At the limit a call of `fn(x) { x }` with one argument is refused, a call of `len` with none is
refused for its arguments, and a thread that has made a guard counts one. -/
theorem call_depth_balanced_at_limit :
    let f : Closure := ⟨0, ["x"], [.expr (.name "x")], ⟨0, []⟩⟩
    let machine := Machine.start ⟨#[[]], 1, ""⟩ callLimit
    let thread : Thread := ⟨(Machine.start Store.empty 0).setDepth 1, [7]⟩
    [Value.integer 1].length = f.parameters.length ∧ machine.depth ≤ callLimit ∧
      (Value.performCall 1 (.function f) [.integer 1]).runOn machine =
        some (.error (.callLimit callLimit), machine.record
          (.call (.function f) [.integer 1] (.error (.callLimit callLimit)))) ∧
      (Value.builtin .len).argumentCount? = some 1 ∧
      (Value.performCall 1 (.builtin .len) []).runOn machine =
        some (.error (.argumentCount 0 1), machine.record
          (.call (.builtin .len) [] (.error (.argumentCount 0 1)))) ∧
      Thread.Step (.fresh Store.empty) thread ∧ thread.machine.depth = thread.guards.length := by
  intro f machine thread
  obtain ⟨-, -, refused, wrong, counted⟩ := call_depth_balanced
  have step : Thread.Step (.fresh Store.empty) thread := .enter (by decide) rfl
  refine ⟨rfl, Nat.le_refl _, ?_, rfl, ?_, step, ?_⟩
  · exact (refused f [.integer 1] 0 machine rfl (Nat.le_refl _)).mpr rfl
  · exact wrong (.builtin .len) [] 1 0 machine rfl (by decide)
  · exact (counted Store.empty thread (.single step)).1

end Marmoset
