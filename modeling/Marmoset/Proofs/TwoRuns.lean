import Marmoset.Proofs.ValueParts
import Marmoset.Session

/-! # Two runs side by side

What changes in a run if something is changed before it?  `Eval.Matches R excused x y good` compares
two computations: started on stores that `R` relates they end alike, and on stores that `R` relates
again.  The second one may instead end with an error that it is `excused` for.

The evaluator uses the store in five ways: it looks a name up, makes a function, binds a name, opens
the frame of a call and prints.  `EvalSimulation R readable admits p` says that `R` is kept by these
five on both sides, for the scopes that `admits` admits, the names that are `readable` and the
values all of whose parts satisfy `p`.  Then two evaluations of one tree match
(`Node.eval_matches`): the induction over the evaluator is done here once for all comparisons.

The two runs may start at different depths if the second one is excused for reaching the limit
(`Comparable`). -/

namespace Marmoset

/-! ### Names that are read -/

mutual

/-- Whether a name is looked up anywhere in an expression, the bodies of function literals included.
Binding the name is not reading it. -/
def Expr.reads (name : String) : Expr → Bool
  | .name x => x == name
  | .integer _ | .text _ | .boolean _ => false
  | .unary _ operand => operand.reads name
  | .binary _ left right => left.reads name || right.reads name
  | .cond condition consequence none => condition.reads name || Stmt.anyReads name consequence
  | .cond condition consequence (some alternative) =>
    condition.reads name || Stmt.anyReads name consequence || Stmt.anyReads name alternative
  | .function _ body => Stmt.anyReads name body
  | .call callee arguments => callee.reads name || Expr.anyReads name arguments
  | .array elements => Expr.anyReads name elements
  | .index collection position => collection.reads name || position.reads name
  | .hash pairs => Expr.pairsRead name pairs

def Expr.anyReads (name : String) : List Expr → Bool
  | [] => false
  | e :: es => e.reads name || Expr.anyReads name es

def Expr.pairsRead (name : String) : List (Expr × Expr) → Bool
  | [] => false
  | (key, value) :: pairs => key.reads name || value.reads name || Expr.pairsRead name pairs

def Stmt.reads (name : String) : Stmt → Bool
  | .bind _ value => value.reads name
  | .return value => value.reads name
  | .expr value => value.reads name
  | .block body => Stmt.anyReads name body

def Stmt.anyReads (name : String) : List Stmt → Bool
  | [] => false
  | s :: ss => s.reads name || Stmt.anyReads name ss

end

/-- Whether a name is looked up anywhere in a node. -/
def Node.reads (name : String) : Node → Bool
  | .program statements => Stmt.anyReads name statements
  | .block statements => Stmt.anyReads name statements
  | .statement s => s.reads name
  | .expression e => e.reads name

/-! ### Computations that match -/

namespace Eval

variable {α β : Type}

/-- Started on stores that `R` relates, `x` and `y` end with the same value, which is then `good`,
or with the same error, and on stores that `R` relates; or else `y` ends with an error that it is
excused for. -/
def Matches (R : Store → Store → Prop) (excused : RuntimeError → Prop) (x y : Eval α)
    (good : α → Prop) : Prop :=
  ∀ σ τ, R σ τ →
    (∃ e, excused e ∧ (y.runOn τ).1 = .error e) ∨
      (x.runOn σ).1 = (y.runOn τ).1 ∧ R (x.runOn σ).2 (y.runOn τ).2 ∧
        ∀ a, (y.runOn τ).1 = .ok a → good a

namespace Matches

variable {R : Store → Store → Prop} {excused : RuntimeError → Prop} {good : α → Prop}

theorem pure {a : α} (h : good a) : Matches R excused (Pure.pure a) (Pure.pure a) good := by
  intro σ τ start
  refine .inr ⟨rfl, start, fun b e => ?_⟩
  cases e
  exact h

theorem throw (e : RuntimeError) :
    Matches R excused (MonadExcept.throw e : Eval α) (MonadExcept.throw e) good := by
  intro σ τ start
  exact .inr ⟨rfl, start, nofun⟩

theorem throw_excused {x : Eval α} {e : RuntimeError} (h : excused e) :
    Matches R excused x (MonadExcept.throw e) good :=
  fun _ _ _ => .inl ⟨e, h, rfl⟩

theorem ofExcept {result : Except RuntimeError α} (h : ∀ a, result = .ok a → good a) :
    Matches R excused (Eval.ofExcept result) (Eval.ofExcept result) good :=
  fun _ _ start => .inr ⟨rfl, start, h⟩

theorem step {f : Store → α × Store}
    (h : ∀ σ τ, R σ τ → (f σ).1 = (f τ).1 ∧ R (f σ).2 (f τ).2 ∧ good (f τ).1) :
    Matches R excused (Eval.step f) (Eval.step f) good := by
  intro σ τ start
  obtain ⟨same, kept, value⟩ := h σ τ start
  refine .inr ⟨congrArg Except.ok same, kept, fun a e => ?_⟩
  cases e
  exact value

theorem bind {goodNext : β → Prop} {x y : Eval α} {f g : α → Eval β}
    (first : Matches R excused x y good)
    (next : ∀ a, good a → Matches R excused (f a) (g a) goodNext) :
    Matches R excused (x >>= f) (y >>= g) goodNext := by
  intro σ τ start
  rw [runOn_bind, runOn_bind]
  rcases first σ τ start with ⟨e, pardoned, failed⟩ | ⟨same, kept, value⟩
  · refine .inl ⟨e, pardoned, ?_⟩
    rcases ran : y.runOn τ with ⟨outcome, τ'⟩
    rw [ran] at failed
    cases failed
    rfl
  · rcases ran : x.runOn σ with ⟨e | a, σ'⟩ <;> rcases ran' : y.runOn τ with ⟨e' | a', τ'⟩ <;>
      rw [ran, ran'] at same kept <;> cases same
    · exact .inr ⟨rfl, kept, nofun⟩
    · exact next a (value a (by rw [ran'])) σ' τ' kept

/-- Without an excuse both end alike. -/
theorem unexcused {x y : Eval α} (h : Matches R (fun _ => False) x y good) {σ τ : Store}
    (start : R σ τ) :
    (x.runOn σ).1 = (y.runOn τ).1 ∧ R (x.runOn σ).2 (y.runOn τ).2 ∧
      ∀ a, (y.runOn τ).1 = .ok a → good a :=
  (h σ τ start).resolve_left fun ⟨_, excused, _⟩ => excused

end Matches

end Eval

open Eval (Matches)

/-- Depths that two runs can be compared from: the same one, or the first has no fewer calls left
and the second is excused for reaching the limit. -/
def Comparable (excused : RuntimeError → Prop) (d₁ d₂ : Nat) : Prop :=
  d₁ = d₂ ∨ d₁ ≤ d₂ ∧ excused (.callLimit callLimit)

theorem Comparable.succ {excused : RuntimeError → Prop} {d₁ d₂ : Nat}
    (h : Comparable excused d₁ d₂) : Comparable excused (d₁ + 1) (d₂ + 1) :=
  h.imp (congrArg (· + 1)) fun ⟨le, pardoned⟩ => ⟨Nat.succ_le_succ le, pardoned⟩

theorem Comparable.le {excused : RuntimeError → Prop} {d₁ d₂ : Nat}
    (h : Comparable excused d₁ d₂) : d₁ ≤ d₂ :=
  h.elim Nat.le_of_eq And.left

/-- What evaluation does to the store keeps `R` in the scopes that are admitted, for names that are
readable, and all values that are found or made on the way have only parts that `p` holds of. -/
structure EvalSimulation (R : Store → Store → Prop) (readable : String → Prop)
    (admits : Scope → Prop) (p : Value → Prop) : Prop extends Wrappable p where
  body : ∀ {f name}, p (.function f) → Stmt.anyReads name f.body = true → readable name
  lookup : ∀ {σ τ scope name}, R σ τ → admits scope → readable name →
    σ.lookup scope name = τ.lookup scope name ∧ ∀ v, τ.lookup scope name = some v → v.All p
  newClosure : ∀ {σ τ scope body} parameters, R σ τ → admits scope →
    (∀ name, Stmt.anyReads name body = true → readable name) →
    (σ.newClosure parameters body scope).1 = (τ.newClosure parameters body scope).1 ∧
      R (σ.newClosure parameters body scope).2 (τ.newClosure parameters body scope).2 ∧
      p (.function (τ.newClosure parameters body scope).1)
  assign : ∀ {σ τ scope v} name, R σ τ → admits scope → v.All p →
    R (σ.assign scope name v) (τ.assign scope name v)
  enter : ∀ {σ τ f arguments}, R σ τ → p (.function f) → (∀ v ∈ arguments, v.All p) →
    (f.enter arguments σ).1 = (f.enter arguments τ).1 ∧
      R (f.enter arguments σ).2 (f.enter arguments τ).2 ∧ admits (f.enter arguments τ).1
  printLine : ∀ {σ τ} line, R σ τ → R (σ.printLine line) (τ.printLine line)

namespace EvalSimulation

variable {R : Store → Store → Prop} {readable : String → Prop} {admits : Scope → Prop}
  {p : Value → Prop} {excused : RuntimeError → Prop} {scope : Scope}
  (sim : EvalSimulation R readable admits p)

include sim

/-! ### The steps that use the store -/

theorem matches_name (inside : admits scope) {name : String} (named : readable name) :
    Matches R excused (do Eval.ofExcept (← Eval.view (nameValue scope name)))
      (do Eval.ofExcept (← Eval.view (nameValue scope name))) (Value.All p) := by
  intro σ τ start
  obtain ⟨same, good⟩ := sim.lookup start inside named
  simp only [Eval.runOn_bind, Eval.runOn_view, Eval.runOn_ofExcept]
  refine .inr ⟨by rw [nameValue, nameValue, same], start, fun v found => ?_⟩
  unfold nameValue at found
  split at found
  · next bound =>
    cases found
    exact good v bound
  · split at found <;> cases found
    exact sim.all_builtin _

theorem matches_newClosure (inside : admits scope) (parameters : List String) {body : Block}
    (named : ∀ name, Stmt.anyReads name body = true → readable name) :
    Matches R excused (Eval.step fun store => store.newClosure parameters body scope)
      (Eval.step fun store => store.newClosure parameters body scope)
      fun f => (Value.function f).All p :=
  .step fun _ _ start =>
    let ⟨same, kept, good⟩ := sim.newClosure parameters start inside named
    ⟨same, kept, Value.all_function_iff.mpr good⟩

theorem matches_assign (inside : admits scope) (name : String) {v : Value} (good : v.All p) :
    Matches R excused (Eval.change fun store => store.assign scope name v)
      (Eval.change fun store => store.assign scope name v) fun _ => True :=
  .step fun _ _ start => ⟨rfl, sim.assign name start inside good, trivial⟩

theorem matches_enter {f : Closure} {arguments : List Value} (callee : p (.function f))
    (given : ∀ v ∈ arguments, v.All p) :
    Matches R excused (Eval.step (f.enter arguments)) (Eval.step (f.enter arguments)) admits :=
  .step fun _ _ start => sim.enter start callee given

theorem printLines {σ τ : Store} (start : R σ τ) (lines : List String) :
    R (lines.foldl Store.printLine σ) (lines.foldl Store.printLine τ) := by
  induction lines generalizing σ τ with
  | nil => exact start
  | cons line lines ih => exact ih (sim.printLine line start)

theorem matches_builtin (b : Builtin) {arguments : List Value} (given : ∀ v ∈ arguments, v.All p) :
    Matches R excused (b.call arguments) (b.call arguments) (Value.All p) := by
  refine Matches.bind (.step fun σ τ start => ?_) fun _ (_ : True) => ?_
  · exact ⟨rfl, sim.printLines start _, trivial⟩
  · exact .ofExcept fun v result => sim.all_result given result

/-- The value of a conditional is that of its block, or `null`. -/
theorem matches_block {x y : Eval (Option Value)} (block : Matches R excused x y (AllParts p)) :
    Matches R excused (do return (← x).getD .null) (do return (← y).getD .null) (Value.All p) :=
  block.bind fun _ good => .pure (sim.all_getD good)

end EvalSimulation

/-! ### The evaluator -/

/-- A call that is not refused runs the body in a new scope, one call deeper. -/
theorem Value.call_of_below {depth : Nat} {f : Closure} {arguments : List Value}
    (count : arguments.length = f.parameters.length) (below : depth < callLimit) :
    Value.call depth (.function f) arguments = (do
      let scope ← Eval.step (f.enter arguments)
      return callResult (← Stmt.execAll (depth + 1) scope none f.body)) := by
  have entered : enterCall depth = .ok (depth + 1) := if_pos below
  rw [Value.call, if_neg (not_not_intro count)]
  split
  · next inner other =>
    cases entered.symm.trans other
    rfl
  · next refused => cases entered.symm.trans refused

section Evaluator

variable {R : Store → Store → Prop} {readable : String → Prop} {admits : Scope → Prop}
  {p : Value → Prop} {excused : RuntimeError → Prop}

mutual

theorem Expr.eval_matches (sim : EvalSimulation R readable admits p) {d₁ d₂ : Nat}
    (depths : Comparable excused d₁ d₂) {scope : Scope} (inside : admits scope) (e : Expr)
    (named : ∀ name, e.reads name = true → readable name) :
    Matches R excused (e.eval d₁ scope) (e.eval d₂ scope) (Value.All p) := by
  match e with
  | .name name =>
      simp only [Expr.eval]
      exact sim.matches_name inside (named name (by simp [Expr.reads]))
  | .integer value =>
      simp only [Expr.eval]
      exact .pure (sim.all_integer value)
  | .text value =>
      simp only [Expr.eval]
      exact .pure (sim.all_text value)
  | .boolean value =>
      simp only [Expr.eval]
      exact .pure (sim.all_boolean value)
  | .unary op operand =>
      simp only [Expr.eval]
      refine (Expr.eval_matches sim depths inside operand named).bind fun v _ => ?_
      exact .ofExcept fun w result => sim.all_unary result
  | .binary op left right =>
      simp only [Expr.reads, Bool.or_eq_true] at named
      simp only [Expr.eval]
      refine (Expr.eval_matches sim depths inside left fun x h => named x (.inl h)).bind
        fun a _ => ?_
      refine (Expr.eval_matches sim depths inside right fun x h => named x (.inr h)).bind
        fun b _ => ?_
      exact .ofExcept fun w result => sim.all_binary result
  | .cond condition consequence none =>
      simp only [Expr.reads, Bool.or_eq_true] at named
      simp only [Expr.eval]
      refine (Expr.eval_matches sim depths inside condition fun x h => named x (.inl h)).bind
        fun v _ => ?_
      split
      · exact sim.matches_block (Stmt.execAll_matches sim depths inside none consequence nofun
          fun x h => named x (.inr h))
      · exact .pure sim.all_null
  | .cond condition consequence (some alternative) =>
      simp only [Expr.reads, Bool.or_eq_true] at named
      simp only [Expr.eval]
      refine (Expr.eval_matches sim depths inside condition
        fun x h => named x (.inl (.inl h))).bind fun v _ => ?_
      split
      · exact sim.matches_block (Stmt.execAll_matches sim depths inside none consequence nofun
          fun x h => named x (.inl (.inr h)))
      · exact sim.matches_block (Stmt.execAll_matches sim depths inside none alternative nofun
          fun x h => named x (.inr h))
  | .function parameters body =>
      simp only [Expr.eval]
      exact (sim.matches_newClosure inside parameters named).bind fun f good => .pure good
  | .call callee arguments =>
      simp only [Expr.reads, Bool.or_eq_true] at named
      simp only [Expr.eval]
      refine (Expr.eval_matches sim depths inside callee fun x h => named x (.inl h)).bind
        fun f good => ?_
      refine (Expr.evalAll_matches sim depths inside arguments fun x h => named x (.inr h)).bind
        fun values given => ?_
      exact Value.call_matches sim depths good given
  | .array elements =>
      simp only [Expr.eval]
      refine (Expr.evalAll_matches sim depths inside elements named).bind fun values good => ?_
      exact .pure (sim.all_array good)
  | .index collection position =>
      simp only [Expr.reads, Bool.or_eq_true] at named
      simp only [Expr.eval]
      refine (Expr.eval_matches sim depths inside collection fun x h => named x (.inl h)).bind
        fun c good => ?_
      refine (Expr.eval_matches sim depths inside position fun x h => named x (.inr h)).bind
        fun i _ => ?_
      exact .ofExcept fun w result => sim.all_index good result
  | .hash pairs =>
      simp only [Expr.eval]
      refine (Expr.evalPairs_matches sim depths inside [] pairs nofun named).bind
        fun entries good => ?_
      exact .pure (sim.all_hash good)
termination_by (callLimit - d₂, sizeOf e)

theorem Expr.evalAll_matches (sim : EvalSimulation R readable admits p) {d₁ d₂ : Nat}
    (depths : Comparable excused d₁ d₂) {scope : Scope} (inside : admits scope) (es : List Expr)
    (named : ∀ name, Expr.anyReads name es = true → readable name) :
    Matches R excused (Expr.evalAll d₁ scope es) (Expr.evalAll d₂ scope es)
      (fun vs => ∀ v ∈ vs, v.All p) := by
  match es with
  | [] =>
      simp only [Expr.evalAll]
      exact .pure nofun
  | e :: es =>
      simp only [Expr.anyReads, Bool.or_eq_true] at named
      simp only [Expr.evalAll]
      refine (Expr.eval_matches sim depths inside e fun x h => named x (.inl h)).bind
        fun v first => ?_
      refine (Expr.evalAll_matches sim depths inside es fun x h => named x (.inr h)).bind
        fun vs rest => .pure ?_
      exact List.forall_mem_cons.mpr ⟨first, rest⟩
termination_by (callLimit - d₂, sizeOf es)

theorem Expr.evalPairs_matches (sim : EvalSimulation R readable admits p) {d₁ d₂ : Nat}
    (depths : Comparable excused d₁ d₂) {scope : Scope} (inside : admits scope)
    (entries : Table Key Value) (pairs : List (Expr × Expr))
    (before : ∀ entry ∈ entries, entry.2.All p)
    (named : ∀ name, Expr.pairsRead name pairs = true → readable name) :
    Matches R excused (Expr.evalPairs d₁ scope entries pairs)
      (Expr.evalPairs d₂ scope entries pairs)
      (fun entries => ∀ entry ∈ entries, entry.2.All p) := by
  match pairs with
  | [] =>
      simp only [Expr.evalPairs]
      exact .pure before
  | (key, value) :: pairs =>
      simp only [Expr.pairsRead, Bool.or_eq_true] at named
      simp only [Expr.evalPairs]
      refine (Expr.eval_matches sim depths inside key fun x h => named x (.inl (.inl h))).bind
        fun _ _ => ?_
      refine (Matches.ofExcept fun _ _ => trivial).bind fun k (_ : True) => ?_
      refine (Expr.eval_matches sim depths inside value fun x h => named x (.inl (.inr h))).bind
        fun v good => ?_
      refine Expr.evalPairs_matches sim depths inside _ pairs (fun entry mem => ?_)
        fun x h => named x (.inr h)
      rcases Table.mem_insert mem with rfl | mem
      · exact good
      · exact before entry mem
termination_by (callLimit - d₂, sizeOf pairs)

theorem Stmt.exec_matches (sim : EvalSimulation R readable admits p) {d₁ d₂ : Nat}
    (depths : Comparable excused d₁ d₂) {scope : Scope} (inside : admits scope) (s : Stmt)
    (named : ∀ name, s.reads name = true → readable name) :
    Matches R excused (s.exec d₁ scope) (s.exec d₂ scope) (AllParts p) := by
  match s with
  | .bind name value =>
      simp only [Stmt.exec]
      refine (Expr.eval_matches sim depths inside value named).bind fun v good => ?_
      exact (sim.matches_assign inside name good).bind fun _ _ => .pure nofun
  | .return value =>
      simp only [Stmt.exec]
      refine (Expr.eval_matches sim depths inside value named).bind fun v good => .pure ?_
      rintro w ⟨⟩
      exact sim.all_returned_iff.mpr good
  | .expr value =>
      simp only [Stmt.exec]
      refine (Expr.eval_matches sim depths inside value named).bind fun v good => .pure ?_
      rintro w ⟨⟩
      exact good
  | .block body =>
      simp only [Stmt.exec]
      exact Stmt.execAll_matches sim depths inside none body nofun named
termination_by (callLimit - d₂, sizeOf s)

theorem Stmt.execAll_matches (sim : EvalSimulation R readable admits p) {d₁ d₂ : Nat}
    (depths : Comparable excused d₁ d₂) {scope : Scope} (inside : admits scope)
    (last : Option Value) (ss : List Stmt) (before : AllParts p last)
    (named : ∀ name, Stmt.anyReads name ss = true → readable name) :
    Matches R excused (Stmt.execAll d₁ scope last ss) (Stmt.execAll d₂ scope last ss)
      (AllParts p) := by
  match ss with
  | [] =>
      simp only [Stmt.execAll]
      exact .pure before
  | s :: ss =>
      simp only [Stmt.anyReads, Bool.or_eq_true] at named
      rw [Stmt.execAll_cons, Stmt.execAll_cons]
      refine (Stmt.exec_matches sim depths inside s fun x h => named x (.inl h)).bind
        fun value good => ?_
      split
      · exact .pure good
      · exact Stmt.execAll_matches sim depths inside value ss good fun x h => named x (.inr h)
termination_by (callLimit - d₂, sizeOf ss)

/-- A call is evaluated in no given scope: what it needs is that callee and arguments are good.  If
the second run is refused at the limit, the first may go on, and then the second is excused. -/
theorem Value.call_matches (sim : EvalSimulation R readable admits p) {d₁ d₂ : Nat}
    (depths : Comparable excused d₁ d₂) {callee : Value} {arguments : List Value}
    (good : callee.All p) (given : ∀ v ∈ arguments, v.All p) :
    Matches R excused (Value.call d₁ callee arguments) (Value.call d₂ callee arguments)
      (Value.All p) := by
  cases callee with
  | function f =>
      by_cases count : arguments.length = f.parameters.length
      · by_cases below : d₂ < callLimit
        · rw [Value.call_of_below count (Nat.lt_of_le_of_lt depths.le below),
            Value.call_of_below count below]
          refine (sim.matches_enter good.self given).bind fun scope inside => ?_
          refine (Stmt.execAll_matches sim depths.succ inside none f.body nofun
            fun _ => sim.body good.self).bind fun value good => ?_
          exact .pure (sim.all_callResult good)
        · rw [Value.call_of_limit count below]
          rcases depths with rfl | ⟨-, pardoned⟩
          · rw [Value.call_of_limit count below]
            exact .throw _
          · exact .throw_excused pardoned
      · rw [Value.call_of_count_ne count, Value.call_of_count_ne count]
        exact .throw _
  | builtin b =>
      simp only [Value.call]
      exact sim.matches_builtin b given
  | _ =>
      simp only [Value.call]
      exact .throw _
termination_by (callLimit - d₂, 0)

end

theorem Node.eval_matches (sim : EvalSimulation R readable admits p) {d₁ d₂ : Nat}
    (depths : Comparable excused d₁ d₂) {scope : Scope} (inside : admits scope) (node : Node)
    (named : ∀ name, node.reads name = true → readable name) :
    Matches R excused (node.eval d₁ scope) (node.eval d₂ scope) (AllParts p) := by
  cases node with
  | program statements =>
      exact Stmt.execAll_matches sim depths inside none statements nofun named
  | block statements => exact Stmt.execAll_matches sim depths inside none statements nofun named
  | statement s => exact Stmt.exec_matches sim depths inside s named
  | expression e =>
      refine (Expr.eval_matches sim depths inside e named).bind fun v good => .pure ?_
      rintro w ⟨⟩
      exact good

/-- From one depth both runs have the same result. -/
theorem Node.run_matches (sim : EvalSimulation R readable admits p) (depth : Nat) {scope : Scope}
    (inside : admits scope) (node : Node) (named : ∀ name, node.reads name = true → readable name)
    {σ τ : Store} (start : R σ τ) :
    (node.run depth scope σ).1 = (node.run depth scope τ).1 ∧
      R (node.run depth scope σ).2 (node.run depth scope τ).2 := by
  obtain ⟨outcome, after, -⟩ :=
    (node.eval_matches sim (.inl rfl) inside named).unexcused start
  exact ⟨congrArg Node.resultOf outcome, after⟩

end Evaluator

end Marmoset
