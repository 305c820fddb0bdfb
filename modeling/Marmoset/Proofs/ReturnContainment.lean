import Marmoset.Proofs.Termination

/-! # Where a wrapped return can get to

The value of a conditional is the value of its block, and that is a wrapped return if the block ends
with one.  A statement that consists of the conditional hands it on to the block around it, operators
and look-ups refuse it, and a condition only asks whether it counts as true.  But a binding, a
`return`, an array, a hash and the arguments of a call keep any value they are given, and a wrapped
return that is kept gets out: into a frame, into other values, and through the end of a call, which
takes off one wrapping and no more.

`Expr.contained` and `Stmt.contained` say of a tree that no conditional with a return stands where its
value is kept.  If this holds of a program and of all functions in the store, no wrapped return gets
out: the machine keeps the invariant `Machine.Tame`.  Without it, each of the five does let a wrapped
return out that it is given (`Expr.kept_return_escapes`). -/

namespace Marmoset

/-! ### Trees that contain their returns -/

mutual

/-- Whether the value of an expression can be a wrapped return. -/
def Expr.returns : Expr → Bool
  | .cond _ consequence none => Stmt.returnsAny consequence
  | .cond _ consequence (some alternative) =>
    Stmt.returnsAny consequence || Stmt.returnsAny alternative
  | _ => false

/-- Whether the value of a statement can be a wrapped return. -/
def Stmt.returns : Stmt → Bool
  | .bind _ _ => false
  | .return _ => true
  | .expr value => value.returns
  | .block body => Stmt.returnsAny body

/-- Whether one of several statements can have a wrapped return as its value. -/
def Stmt.returnsAny : List Stmt → Bool
  | [] => false
  | s :: ss => s.returns || Stmt.returnsAny ss

end

mutual

/-- Whether no value that is kept anywhere in an expression can be a wrapped return. -/
def Expr.contained : Expr → Bool
  | .name _ | .integer _ | .text _ | .boolean _ => true
  | .unary _ operand => operand.contained
  | .binary _ left right => left.contained && right.contained
  | .cond condition consequence none => condition.contained && Stmt.containedAll consequence
  | .cond condition consequence (some alternative) =>
    condition.contained && Stmt.containedAll consequence && Stmt.containedAll alternative
  | .function _ body => Stmt.containedAll body
  | .call callee arguments => callee.contained && Expr.containedAll arguments
  | .array elements => Expr.containedAll elements
  | .index collection position => collection.contained && position.contained
  | .hash pairs => Expr.containedPairs pairs

/-- The same of expressions whose values are kept. -/
def Expr.containedAll : List Expr → Bool
  | [] => true
  | e :: es => !e.returns && e.contained && Expr.containedAll es

/-- The same of the pairs of a hash, which keeps the value of each. -/
def Expr.containedPairs : List (Expr × Expr) → Bool
  | [] => true
  | (key, value) :: pairs =>
    key.contained && (!value.returns && value.contained) && Expr.containedPairs pairs

/-- The same of a statement: a binding and a `return` keep a value. -/
def Stmt.contained : Stmt → Bool
  | .bind _ value => !value.returns && value.contained
  | .return value => !value.returns && value.contained
  | .expr value => value.contained
  | .block body => Stmt.containedAll body

/-- The same of several statements. -/
def Stmt.containedAll : List Stmt → Bool
  | [] => true
  | s :: ss => s.contained && Stmt.containedAll ss

end

/-- The same of a whole tree. -/
def Node.contained : Node → Bool
  | program statements => Stmt.containedAll statements
  | block statements => Stmt.containedAll statements
  | statement s => s.contained
  | expression e => e.contained

/-! ### Values without wrapped returns -/

/-- The value is or contains a wrapped return. -/
def Value.HoldsReturn (v : Value) : Prop :=
  ∃ w, Within (.returned w) v

/-- No wrapped return, and if a function, then one whose body contains its returns. -/
def Value.Tame : Value → Prop
  | .returned _ => False
  | .function f => Stmt.containedAll f.body = true
  | _ => True

theorem Value.tame_unwrapped : Unwrapped Value.Tame := by
  constructor
  · constructor <;> intros <;> trivial
  · exact fun _ => id

/-- The machine holds only tame values, and every call that succeeded gave one. -/
structure Machine.Tame (machine : Machine) : Prop where
  store : machine.store.Holds (fun _ => True) Value.Tame
  calls : ∀ callee arguments v, .call callee arguments (.ok v) ∈ machine.events → v.All Value.Tame

namespace Machine.Tame

variable {machine : Machine}

theorem withStore {store : Store} (h : machine.Tame)
    (holds : store.Holds (fun _ => True) Value.Tame) : { machine with store := store }.Tame :=
  ⟨holds, h.calls⟩

theorem setDepth (h : machine.Tame) (calls : Nat) : (machine.setDepth calls).Tame := by
  refine ⟨h.store, fun callee arguments v mem => ?_⟩
  rcases List.mem_cons.mp mem with e | mem
  · cases e
  · exact h.calls callee arguments v mem

theorem record (h : machine.Tame) {callee : Value} {arguments : List Value}
    {outcome : Except RuntimeError Value} (good : ∀ v, outcome = .ok v → v.All Value.Tame) :
    (machine.record (.call callee arguments outcome)).Tame := by
  refine ⟨h.store, fun callee arguments v mem => ?_⟩
  rcases List.mem_cons.mp mem with e | mem
  · cases e
    exact good v rfl
  · exact h.calls callee arguments v mem

end Machine.Tame

open Run (Keeps)
open Value (tame_unwrapped)

/-! ### The steps of the machine that use the store -/

theorem keeps_name (scope : Scope) (name : String) :
    Keeps Machine.Tame (Run.lift do Eval.ofExcept (← Eval.view (nameValue scope name)))
      (Value.All Value.Tame) := by
  refine Keeps.lift fun machine tame => ?_
  simp only [Eval.runOn_bind, Eval.runOn_view, Eval.runOn_ofExcept]
  exact ⟨tame, fun v found => tame.store.nameValue tame_unwrapped.toOrdinary (fun _ _ => trivial) found⟩

theorem keeps_newClosure (scope : Scope) (parameters : List String) {body : Block}
    (contained : Stmt.containedAll body = true) :
    Keeps Machine.Tame (Run.lift (Eval.step fun store => store.newClosure parameters body scope))
      (fun f => (Value.function f).All Value.Tame) := by
  refine Keeps.lift fun machine tame => ?_
  simp only [Eval.runOn_step]
  refine ⟨tame.withStore (tame.store.of_frames_eq rfl), ?_⟩
  rintro f ⟨⟩
  exact Value.all_function_iff.mpr contained

theorem keeps_assign (scope : Scope) (name : String) {v : Value} (good : v.All Value.Tame) :
    Keeps Machine.Tame (Run.lift (Eval.change fun store => store.assign scope name v))
      (fun _ => True) := by
  refine Keeps.lift fun machine tame => ?_
  simp only [Eval.runOn_change]
  exact ⟨tame.withStore (tame.store.assign good), fun _ _ => trivial⟩

theorem keeps_enter (f : Closure) {arguments : List Value}
    (given : ∀ v ∈ arguments, v.All Value.Tame) :
    Keeps Machine.Tame (Run.lift (Eval.step (f.enter arguments))) (fun _ => True) := by
  refine Keeps.lift fun machine tame => ?_
  simp only [Eval.runOn_step]
  exact ⟨tame.withStore (tame.store.enter f given), fun _ _ => trivial⟩

theorem keeps_builtin (b : Builtin) {arguments : List Value}
    (given : ∀ v ∈ arguments, v.All Value.Tame) :
    Keeps Machine.Tame (Run.lift (b.call arguments)) (Value.All Value.Tame) := by
  refine Keeps.lift fun machine tame => ?_
  simp only [Builtin.call, Eval.runOn_bind, Eval.runOn_change, Eval.runOn_ofExcept]
  refine ⟨tame.withStore (tame.store.of_frames_eq (Store.frames_printLines _ _)), fun v result => ?_⟩
  exact tame_unwrapped.all_result given result

/-! ### The whole machine -/

mutual

theorem Expr.keeps_perform (n : Nat) (scope : Scope) (e : Expr) (contained : e.contained = true) :
    Keeps Machine.Tame (Expr.perform n scope e) (Handed Value.Tame e.returns) := by
  cases n with
  | zero => exact .exhausted
  | succ n =>
  match e with
  | .name name => exact (keeps_name scope name).mono fun v good => .inl good
  | .integer value => exact .pure (.inl (tame_unwrapped.all_integer value))
  | .text value => exact .pure (.inl (tame_unwrapped.all_text value))
  | .boolean value => exact .pure (.inl (tame_unwrapped.all_boolean value))
  | .unary op operand =>
      refine (Expr.keeps_perform n scope operand contained).bind fun v _ => ?_
      exact .ofExcept fun w result => .inl (tame_unwrapped.all_unary result)
  | .binary op left right =>
      simp only [Expr.contained, Bool.and_eq_true] at contained
      refine (Expr.keeps_perform n scope left contained.1).bind fun a _ => ?_
      refine (Expr.keeps_perform n scope right contained.2).bind fun b _ => ?_
      exact .ofExcept fun w result => .inl (tame_unwrapped.all_binary result)
  | .cond condition consequence none =>
      simp only [Expr.contained, Bool.and_eq_true] at contained
      refine (Expr.keeps_perform n scope condition contained.1).bind fun v _ => ?_
      split
      · have block := Stmt.keeps_performAll n scope none consequence nofun contained.2
        exact block.bind fun value handed => .pure (Handed.getD handed tame_unwrapped.toOrdinary)
      · exact .pure (.inl tame_unwrapped.all_null)
  | .cond condition consequence (some alternative) =>
      simp only [Expr.contained, Bool.and_eq_true] at contained
      obtain ⟨⟨inCondition, inConsequence⟩, inAlternative⟩ := contained
      refine (Expr.keeps_perform n scope condition inCondition).bind fun v _ => ?_
      split
      · have block := Stmt.keeps_performAll n scope none consequence nofun inConsequence
        refine block.bind fun value handed => .pure ((Handed.getD handed tame_unwrapped.toOrdinary).mono fun returns => ?_)
        simp [Expr.returns, returns]
      · have block := Stmt.keeps_performAll n scope none alternative nofun inAlternative
        refine block.bind fun value handed => .pure ((Handed.getD handed tame_unwrapped.toOrdinary).mono fun returns => ?_)
        simp [Expr.returns, returns]
  | .function parameters body =>
      exact (keeps_newClosure scope parameters contained).bind fun f good => .pure (.inl good)
  | .call callee arguments =>
      simp only [Expr.contained, Bool.and_eq_true] at contained
      refine (Expr.keeps_perform n scope callee contained.1).bind fun f handed => ?_
      refine (Expr.keeps_performAll n scope arguments contained.2).bind fun values given => ?_
      exact (Value.keeps_performCall n f values handed given).mono fun v good => .inl good
  | .array elements =>
      refine (Expr.keeps_performAll n scope elements contained).bind fun values good => ?_
      exact .pure (.inl (tame_unwrapped.all_array good))
  | .index collection position =>
      simp only [Expr.contained, Bool.and_eq_true] at contained
      refine (Expr.keeps_perform n scope collection contained.1).bind fun c handed => ?_
      refine (Expr.keeps_perform n scope position contained.2).bind fun p _ => ?_
      refine .ofExcept fun w result => .inl ?_
      -- a wrapped return has no elements, so it is refused
      rcases handed with good | ⟨-, v, rfl, -⟩
      · exact tame_unwrapped.all_index good result
      · cases result
  | .hash pairs =>
      refine (Expr.keeps_performPairs n scope [] pairs nofun contained).bind fun entries good => ?_
      exact .pure (.inl (tame_unwrapped.all_hash good))

theorem Expr.keeps_performAll (n : Nat) (scope : Scope) (es : List Expr)
    (contained : Expr.containedAll es = true) :
    Keeps Machine.Tame (Expr.performAll n scope es) (fun vs => ∀ v ∈ vs, v.All Value.Tame) := by
  cases n with
  | zero => exact .exhausted
  | succ n =>
  match es with
  | [] => exact .pure nofun
  | e :: es =>
      simp only [Expr.containedAll, Bool.and_eq_true, Bool.not_eq_true'] at contained
      obtain ⟨⟨plain, inHead⟩, inTail⟩ := contained
      refine (Expr.keeps_perform n scope e inHead).bind fun v handed => ?_
      refine (Expr.keeps_performAll n scope es inTail).bind fun vs good => .pure ?_
      rintro w (_ | ⟨_, mem⟩)
      · exact handed.all_of_not_wrapped plain
      · exact good w mem

theorem Expr.keeps_performPairs (n : Nat) (scope : Scope) (entries : Table Key Value)
    (pairs : List (Expr × Expr)) (before : ∀ entry ∈ entries, entry.2.All Value.Tame)
    (contained : Expr.containedPairs pairs = true) :
    Keeps Machine.Tame (Expr.performPairs n scope entries pairs)
      (fun entries => ∀ entry ∈ entries, entry.2.All Value.Tame) := by
  cases n with
  | zero => exact .exhausted
  | succ n =>
  match pairs with
  | [] => exact .pure before
  | (key, value) :: pairs =>
      simp only [Expr.containedPairs, Bool.and_eq_true, Bool.not_eq_true'] at contained
      obtain ⟨⟨inKey, plain, inValue⟩, inPairs⟩ := contained
      refine (Expr.keeps_perform n scope key inKey).bind fun _ _ => ?_
      refine (Keeps.ofExcept fun _ _ => trivial).bind fun k (_ : True) => ?_
      refine (Expr.keeps_perform n scope value inValue).bind fun v handed => ?_
      refine Expr.keeps_performPairs n scope _ pairs (fun entry mem => ?_) inPairs
      rcases Table.mem_insert mem with rfl | mem
      · exact handed.all_of_not_wrapped plain
      · exact before entry mem

theorem Stmt.keeps_perform (n : Nat) (scope : Scope) (s : Stmt) (contained : s.contained = true) :
    Keeps Machine.Tame (Stmt.perform n scope s)
      (fun value => ∀ v, value = some v → Handed Value.Tame s.returns v) := by
  cases n with
  | zero => exact .exhausted
  | succ n =>
  match s with
  | .bind name value =>
      simp only [Stmt.contained, Bool.and_eq_true, Bool.not_eq_true'] at contained
      refine (Expr.keeps_perform n scope value contained.2).bind fun v handed => ?_
      have good := handed.all_of_not_wrapped contained.1
      exact (keeps_assign scope name good).bind fun _ _ => .pure nofun
  | .return value =>
      simp only [Stmt.contained, Bool.and_eq_true, Bool.not_eq_true'] at contained
      refine (Expr.keeps_perform n scope value contained.2).bind fun v handed => .pure ?_
      rintro w ⟨⟩
      exact .inr ⟨rfl, v, rfl, handed.all_of_not_wrapped contained.1⟩
  | .expr value =>
      refine (Expr.keeps_perform n scope value contained).bind fun v handed => .pure ?_
      rintro w ⟨⟩
      exact handed
  | .block body => exact Stmt.keeps_performAll n scope none body nofun contained

theorem Stmt.keeps_performAll (n : Nat) (scope : Scope) (last : Option Value) (ss : List Stmt)
    (plain : ∀ v, last = some v → v.All Value.Tame) (contained : Stmt.containedAll ss = true) :
    Keeps Machine.Tame (Stmt.performAll n scope last ss)
      (fun value => ∀ v, value = some v → Handed Value.Tame (Stmt.returnsAny ss) v) := by
  cases n with
  | zero => exact .exhausted
  | succ n =>
  match ss with
  | [] => exact .pure fun v e => .inl (plain v e)
  | s :: ss =>
      simp only [Stmt.containedAll, Bool.and_eq_true] at contained
      refine (Stmt.keeps_perform n scope s contained.1).bind fun value handed => ?_
      split
      · next ends =>
        refine .pure fun v e => (handed v e).mono fun returns => ?_
        simp [Stmt.returnsAny, returns]
      · next on =>
        have plain := Handed.all_of_not_endsBlock handed on
        refine (Stmt.keeps_performAll n scope value ss plain contained.2).mono fun after later => ?_
        refine fun v e => (later v e).mono fun returns => ?_
        simp [Stmt.returnsAny, returns]

theorem Value.keeps_performCall (n : Nat) (callee : Value) (arguments : List Value)
    {wrapped : Bool} (handed : Handed Value.Tame wrapped callee)
    (given : ∀ v ∈ arguments, v.All Value.Tame) :
    Keeps Machine.Tame (Value.performCall n callee arguments) (Value.All Value.Tame) := by
  cases n with
  | zero => exact .exhausted
  | succ n =>
  refine Keeps.recorded ?_ fun machine outcome tame good => tame.record good
  match callee with
  | .function f =>
      have contained : Stmt.containedAll f.body = true := by
        rcases handed with good | ⟨-, w, e, -⟩
        · exact Value.all_function_iff.mp good
        · cases e
      dsimp only
      split
      · exact .throw
      · have body : Keeps Machine.Tame _ (Value.All Value.Tame) :=
          (keeps_enter f given).bind fun scope _ =>
            (Stmt.keeps_performAll n scope none f.body nofun contained).bind fun value handed =>
              .pure (Handed.callResult handed tame_unwrapped)
        exact body.inCall (fun machine inner tame _ => tame.setDepth inner)
          fun machine tame => tame.setDepth _
  | .builtin b => exact keeps_builtin b given
  | .integer _ | .boolean _ | .null | .text _ | .array _ | .hash _ | .returned _ | .error _ =>
      exact .throw

end

/-! ### Whole runs -/

theorem Value.all_tame_iff {v : Value} :
    v.All Tame ↔ ¬ v.HoldsReturn ∧
      ∀ f, Within (.function f) v → Stmt.containedAll f.body = true := by
  constructor
  · intro h
    exact ⟨fun ⟨w, within⟩ => h _ within, fun f within => h _ within⟩
  · rintro ⟨clean, bodies⟩ part within
    cases part with
    | returned w => exact clean ⟨w, within⟩
    | function f => exact bodies f within
    | _ => trivial

theorem Node.keeps_perform (n : Nat) (scope : Scope) (node : Node)
    (contained : node.contained = true) :
    Keeps Machine.Tame (node.perform n scope) (fun value => ∀ v, value = some v → Handed Value.Tame true v) := by
  cases node with
  | program statements | block statements =>
      refine (Stmt.keeps_performAll n scope none statements nofun contained).mono ?_
      exact fun value handed v e => (handed v e).mono fun _ => rfl
  | statement s =>
      refine (s.keeps_perform n scope contained).mono ?_
      exact fun value handed v e => (handed v e).mono fun _ => rfl
  | expression e =>
      refine (e.keeps_perform n scope contained).bind fun v handed => .pure ?_
      rintro w ⟨⟩
      exact handed.mono fun _ => rfl

/-- What is left of the outcome of a tree when the run is over. -/
theorem Node.not_holdsReturn_of_resultOf {outcome : Except RuntimeError (Option Value)} {v : Value}
    (handed : ∀ value, outcome = .ok value → ∀ v, value = some v → Handed Value.Tame true v)
    (result : resultOf outcome = some v) : ¬ v.HoldsReturn := by
  cases outcome with
  | error e =>
      cases result
      rintro ⟨w, ⟨⟩⟩
  | ok value =>
      obtain ⟨u, rfl, rfl⟩ := Option.map_eq_some_iff.mp result
      exact (Value.all_tame_iff.mp ((handed _ rfl u rfl).unwrap tame_unwrapped)).1

/-- No wrapped return gets out of a run of a tree that contains its returns, in a store without
wrapped returns whose functions contain theirs: none is bound afterwards, none is in the result, and
none is in the value of any call that was made. -/
theorem Node.no_return_escapes (node : Node) (scope : Scope) (store : Store) (depth : Nat)
    (contained : node.contained = true)
    (clean : ∀ v, store.Binds v → ¬ v.HoldsReturn)
    (bodies : ∀ v f, store.Binds v → Value.Within (.function f) v →
      Stmt.containedAll f.body = true) :
    (∀ v, (node.run depth scope store).2.Binds v → ¬ v.HoldsReturn) ∧
    (∀ v, (node.run depth scope store).1 = some v → ¬ v.HoldsReturn) ∧
    ∃ fuel after,
      (∀ n, fuel ≤ n → (node.perform n scope).runOn (Machine.start store depth) =
        some (((node.eval depth scope).runOn store).1, after)) ∧
      ∀ callee arguments v, .call callee arguments (.ok v) ∈ after.events → ¬ v.HoldsReturn := by
  have start : (Machine.start store depth).Tame := by
    refine ⟨Store.holds_iff.mpr fun v bound => ?_, nofun⟩
    exact Value.all_tame_iff.mpr ⟨clean v bound, fun f => bodies v f bound⟩
  obtain ⟨fuel, events, done⟩ := node.settles depth scope (Machine.start store depth) rfl
  obtain ⟨tame, handed⟩ :=
    node.keeps_perform fuel scope contained _ _ _ start (done fuel (Nat.le_refl fuel))
  refine ⟨fun v bound => ?_, fun v result => ?_, fuel, _, done, fun callee arguments v mem => ?_⟩
  · exact (Value.all_tame_iff.mp (Store.holds_iff.mp tame.store v bound)).1
  · exact Node.not_holdsReturn_of_resultOf handed result
  · exact (Value.all_tame_iff.mp (tame.calls callee arguments v mem)).1

/-- A store with `fn(x) { if (x) { return [1] }; 2 }` bound to `f`, and `let r = f(true); r` run in it:
no frame binds a wrapped return afterwards. -/
theorem no_return_escapes_early_return :
    let f : Closure := ⟨0, ["x"], [.expr (.cond (.name "x") [.return (.array [.integer 1])] none),
      .expr (.integer 2)], ⟨0, []⟩⟩
    let store : Store := ⟨#[[("f", .function f)]], 1, ""⟩
    let node : Node := .program [.bind "r" (.call (.name "f") [.boolean true]), .expr (.name "r")]
    node.contained = true ∧ store.Binds (.function f) ∧ (∀ v, store.Binds v → v = .function f) ∧
      ∀ v, (node.run 0 ⟨0, []⟩ store).2.Binds v → ¬ v.HoldsReturn := by
  intro f store node
  have contained : node.contained = true := by decide
  have only : ∀ v, store.Binds v → v = .function f := by
    intro v bound
    obtain ⟨name, mem⟩ := bound.of_single_frame
    cases List.mem_singleton.mp mem
    rfl
  refine ⟨contained, ⟨0, _, "f", rfl, List.mem_cons_self⟩, only, ?_⟩
  refine (node.no_return_escapes ⟨0, []⟩ store 0 contained ?_ ?_).1
  · rintro v bound ⟨w, within⟩
    cases only v bound
    cases within
  · intro v g bound within
    cases only v bound
    cases within
    decide

/-! ### Trees that do not contain their returns -/

/-- A wrapped return that is kept gets out, whichever of the five keeps it: a binding binds it, a
`return` wraps it once more, an array and a hash hold it, and a call passes it on. -/
theorem Expr.kept_return_escapes {e : Expr} {depth : Nat} {scope : Scope} {store after : Store}
    {v : Value} (given : (e.eval depth scope).runOn store = (.ok (.returned v), after)) :
    (∀ name, (Node.statement (.bind name e)).run depth scope store =
      (none, after.assign scope name (.returned v))) ∧
    (Node.program [.return e]).run depth scope store = (some (.returned v), after) ∧
    (Node.expression (.array [e])).run depth scope store = (some (.array [.returned v]), after) ∧
    (∀ key, (Node.expression (.hash [(.text key, e)])).run depth scope store =
      (some (.hash [(.text key, .returned v)]), after)) ∧
    ∀ callee f, (∀ store, (callee.eval depth scope).runOn store = (.ok f, store)) →
      ((Expr.call callee [e]).eval depth scope).runOn store =
        (Value.call depth f [.returned v]).runOn after := by
  refine ⟨fun name => ?_, ?_, ?_, fun key => ?_, fun callee f pure => ?_⟩
  · simp only [Node.run, Node.eval, Stmt.exec, Eval.runOn_bind, given]
    rfl
  · simp only [Node.run, Node.eval, Stmt.execAll, Stmt.exec, Eval.runOn_bind, given]
    rfl
  · simp only [Node.run, Node.eval, Expr.eval, Expr.evalAll, Eval.runOn_bind, given]
    rfl
  · simp only [Node.run, Node.eval, Expr.eval, Expr.evalPairs, Eval.runOn_bind, Eval.runOn_pure,
      Eval.runOn_ofExcept, Value.requireKey, Value.key?, given]
    rfl
  · simp only [Expr.eval, Expr.evalAll, Eval.runOn_bind, given, pure]
    rfl

/-- `fn() { return if (true) { return 1 } }` -/
def escapingFunction : Closure :=
  ⟨0, [], [.return (.cond (.boolean true) [.return (.integer 1)] none)], ⟨0, []⟩⟩

/-- `fn() { f(); 2 }` -/
def escapingCaller : Closure :=
  ⟨1, [], [.expr (.call (.name "f") []), .expr (.integer 2)], ⟨0, []⟩⟩

/-- A call takes off one wrapping of two. -/
theorem escapingFunction_call {depth : Nat} (below : depth < callLimit) (store : Store) :
    (Value.call depth (.function escapingFunction) []).runOn store =
      (.ok (.returned (.integer 1)), (escapingFunction.enter [] store).2) := by
  rw [Value.runOn_call rfl below]
  simp only [escapingFunction, Stmt.execAll, Stmt.exec, Expr.eval, Eval.runOn_bind,
    Eval.runOn_pure]
  rfl

/-- What is left of the wrapping ends the caller, which does not get to its second statement. -/
theorem escapingCaller_call {depth : Nat} (below : depth + 1 < callLimit) {store : Store}
    (bound : nameValue (escapingCaller.enter [] store).1 "f" (escapingCaller.enter [] store).2 =
      .ok (.function escapingFunction)) :
    (Value.call depth (.function escapingCaller) []).runOn store =
      (.ok (.integer 1), (escapingFunction.enter [] (escapingCaller.enter [] store).2).2) := by
  rw [Value.runOn_call rfl (Nat.lt_of_succ_lt below)]
  simp only [escapingCaller, Stmt.execAll, Stmt.exec, Expr.eval, Expr.evalAll, Eval.runOn_bind,
    Eval.runOn_view, Eval.runOn_ofExcept, Eval.runOn_pure] at bound ⊢
  rw [bound]
  simp only [escapingFunction_call below]
  rfl

/-- In a store that binds nothing, `let f = fn() { return if (true) { return 1 } }; let g = fn() {
f(); 2 }; g()` gives 1.  The function that it binds to `f` and calls from `g` has a wrapped return as
the value of its call. -/
theorem return_escapes_into_caller :
    let program : Program :=
      [.bind "f" (.function [] escapingFunction.body),
        .bind "g" (.function [] escapingCaller.body), .expr (.call (.name "g") [])]
    let (result, after) := (Node.program program).run 0 ⟨0, []⟩ ⟨#[[]], 0, ""⟩
    (∀ v, ¬ (⟨#[[]], 0, ""⟩ : Store).Binds v) ∧ result = some (.integer 1) ∧
      after.lookup ⟨0, []⟩ "f" = some (.function escapingFunction) ∧
      ((Value.call 1 (.function escapingFunction) []).runOn after).1 =
        .ok (.returned (.integer 1)) := by
  intro program
  let σ : Store := ⟨#[[("f", .function escapingFunction)]], 1, ""⟩
  let σ' : Store := ⟨#[[("f", .function escapingFunction), ("g", .function escapingCaller)]], 2, ""⟩
  have first : (Stmt.exec 0 ⟨0, []⟩ (.bind "f" (.function [] escapingFunction.body))).runOn
      ⟨#[[]], 0, ""⟩ = (.ok none, σ) := by
    simp only [Stmt.exec, Expr.eval, Eval.runOn_bind, Eval.runOn_step, Eval.runOn_pure]
    rfl
  have second : (Stmt.exec 0 ⟨0, []⟩ (.bind "g" (.function [] escapingCaller.body))).runOn σ =
      (.ok none, σ') := by
    simp only [Stmt.exec, Expr.eval, Eval.runOn_bind, Eval.runOn_step, Eval.runOn_pure]
    rfl
  have third : (Stmt.exec 0 ⟨0, []⟩ (.expr (.call (.name "g") []))).runOn σ' =
      (.ok (some (.integer 1)),
        (escapingFunction.enter [] (escapingCaller.enter [] σ').2).2) := by
    have found : nameValue ⟨0, []⟩ "g" σ' = .ok (.function escapingCaller) := rfl
    have call : (Value.call 0 (.function escapingCaller) []).runOn σ' = _ :=
      escapingCaller_call (by decide) rfl
    simp only [Stmt.exec, Expr.eval, Expr.evalAll, Eval.runOn_bind, Eval.runOn_view,
      Eval.runOn_ofExcept, Eval.runOn_pure, found, call]
  have run : (Node.program program).run 0 ⟨0, []⟩ ⟨#[[]], 0, ""⟩ =
      (some (.integer 1), (escapingFunction.enter [] (escapingCaller.enter [] σ').2).2) := by
    rw [Node.run, Node.eval, Stmt.runOn_execAll_cons first rfl, Stmt.runOn_execAll_cons second rfl,
      Stmt.runOn_execAll_cons third rfl, Stmt.execAll]
    rfl
  rw [run]
  refine ⟨?_, rfl, rfl, ?_⟩
  · intro v bound
    obtain ⟨name, mem⟩ := bound.of_single_frame
    cases mem
  · rw [escapingFunction_call (by decide)]

end Marmoset
