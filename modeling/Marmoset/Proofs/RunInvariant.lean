import Marmoset.Proofs.Invariant
import Marmoset.Proofs.Termination

/-! # Invariants and the calls that are made

`EvalInvariant` says what evaluation keeps of the store and of the values in it.  The machine also
records every call, so more can be said of it: each value that is called, each argument that it is
called with and each value that a call gives has only parts that `p` holds of (`Event.Good`).

`Machine.Safe` is the invariant of the machine.  Its single steps keep it because of what
`EvalInvariant` says of the store, and the machine keeps it along its recursion
(`Node.keeps_safe`). -/

namespace Marmoset

/-- Callee and arguments of a call have only parts that `p` holds of, and so has its value. -/
def Event.Good (p : Value → Prop) : Event → Prop
  | .depth _ => True
  | .call callee arguments outcome =>
    callee.All p ∧ (∀ v ∈ arguments, v.All p) ∧ ∀ v, outcome = .ok v → v.All p

/-- The store has the property `I`, and every call that was made is good. -/
structure Machine.Safe (I : Store → Prop) (p : Value → Prop) (machine : Machine) : Prop where
  store : I machine.store
  events : ∀ event ∈ machine.events, event.Good p

namespace Machine.Safe

variable {I : Store → Prop} {p : Value → Prop} {machine : Machine}

theorem withStore {store : Store} (h : machine.Safe I p) (kept : I store) :
    { machine with store := store }.Safe I p :=
  ⟨kept, h.events⟩

theorem setDepth (h : machine.Safe I p) (calls : Nat) : (machine.setDepth calls).Safe I p :=
  ⟨h.store, List.forall_mem_cons.mpr ⟨trivial, h.events⟩⟩

theorem record (h : machine.Safe I p) {event : Event} (good : event.Good p) :
    (machine.record event).Safe I p :=
  ⟨h.store, List.forall_mem_cons.mpr ⟨good, h.events⟩⟩

end Machine.Safe

open Run (Keeps)

/-! ### The steps of the machine that use the store -/

namespace EvalInvariant

variable {I : Store → Prop} {admits : Scope → Prop} {p : Value → Prop}
  (inv : EvalInvariant I admits p) {scope : Scope}

include inv

theorem keeps_name (inside : admits scope) (name : String) :
    Keeps (Machine.Safe I p) (Run.lift do Eval.ofExcept (← Eval.view (nameValue scope name)))
      (Value.All p) := by
  refine Keeps.lift fun machine safe => ?_
  simp only [Eval.runOn_bind, Eval.runOn_view, Eval.runOn_ofExcept]
  refine ⟨safe, fun v found => ?_⟩
  unfold nameValue at found
  split at found
  · next bound =>
    cases found
    exact inv.lookup safe.store inside bound
  · split at found <;> cases found
    exact inv.all_builtin _

theorem keeps_newClosure (inside : admits scope) (parameters : List String) (body : Block) :
    Keeps (Machine.Safe I p)
      (Run.lift (Eval.step fun store => store.newClosure parameters body scope))
      (fun f => (Value.function f).All p) := by
  refine Keeps.lift fun machine safe => ?_
  obtain ⟨kept, good⟩ := inv.newClosure parameters body safe.store inside
  simp only [Eval.runOn_step]
  refine ⟨safe.withStore kept, ?_⟩
  rintro f ⟨⟩
  exact Value.all_function_iff.mpr good

theorem keeps_assign (inside : admits scope) (name : String) {v : Value} (good : v.All p) :
    Keeps (Machine.Safe I p) (Run.lift (Eval.change fun store => store.assign scope name v))
      (fun _ => True) := by
  refine Keeps.lift fun machine safe => ?_
  simp only [Eval.runOn_change]
  exact ⟨safe.withStore (inv.assign name safe.store inside good), fun _ _ => trivial⟩

theorem keeps_enter {f : Closure} (callee : p (.function f)) {arguments : List Value}
    (given : ∀ v ∈ arguments, v.All p) :
    Keeps (Machine.Safe I p) (Run.lift (Eval.step (f.enter arguments))) admits := by
  refine Keeps.lift fun machine safe => ?_
  obtain ⟨kept, inside⟩ := inv.enter safe.store callee given
  simp only [Eval.runOn_step]
  refine ⟨safe.withStore kept, ?_⟩
  rintro scope ⟨⟩
  exact inside

theorem printLines {store : Store} (lines : List String) (h : I store) :
    I (lines.foldl Store.printLine store) := by
  induction lines generalizing store with
  | nil => exact h
  | cons line lines ih => exact ih (inv.printLine line h)

theorem keeps_builtin (b : Builtin) {arguments : List Value} (given : ∀ v ∈ arguments, v.All p) :
    Keeps (Machine.Safe I p) (Run.lift (b.call arguments)) (Value.All p) := by
  refine Keeps.lift fun machine safe => ?_
  simp only [Builtin.call, Eval.runOn_bind, Eval.runOn_change, Eval.runOn_ofExcept]
  exact ⟨safe.withStore (inv.printLines _ safe.store), fun v result => inv.all_result given result⟩

end EvalInvariant

/-! ### The whole machine -/

section Machine

variable {I : Store → Prop} {admits : Scope → Prop} {p : Value → Prop}

mutual

theorem Expr.keeps_safe (inv : EvalInvariant I admits p) (n : Nat) {scope : Scope}
    (inside : admits scope) (e : Expr) :
    Keeps (Machine.Safe I p) (Expr.perform n scope e) (Value.All p) := by
  cases n with
  | zero => exact .exhausted
  | succ n =>
  match e with
  | .name name => exact inv.keeps_name inside name
  | .integer value => exact .pure (inv.all_integer value)
  | .text value => exact .pure (inv.all_text value)
  | .boolean value => exact .pure (inv.all_boolean value)
  | .unary op operand =>
      refine (Expr.keeps_safe inv n inside operand).bind fun v _ => ?_
      exact .ofExcept fun w result => inv.all_unary result
  | .binary op left right =>
      refine (Expr.keeps_safe inv n inside left).bind fun a _ => ?_
      refine (Expr.keeps_safe inv n inside right).bind fun b _ => ?_
      exact .ofExcept fun w result => inv.all_binary result
  | .cond condition consequence none =>
      refine (Expr.keeps_safe inv n inside condition).bind fun v _ => ?_
      split
      · have block := Stmt.keeps_safeAll inv n inside none consequence nofun
        exact block.bind fun value good => .pure (inv.all_getD good)
      · exact .pure inv.all_null
  | .cond condition consequence (some alternative) =>
      refine (Expr.keeps_safe inv n inside condition).bind fun v _ => ?_
      split
      · have block := Stmt.keeps_safeAll inv n inside none consequence nofun
        exact block.bind fun value good => .pure (inv.all_getD good)
      · have block := Stmt.keeps_safeAll inv n inside none alternative nofun
        exact block.bind fun value good => .pure (inv.all_getD good)
  | .function parameters body =>
      exact (inv.keeps_newClosure inside parameters body).bind fun f good => .pure good
  | .call callee arguments =>
      refine (Expr.keeps_safe inv n inside callee).bind fun f good => ?_
      refine (Expr.keeps_safeAll inv n inside arguments).bind fun values given => ?_
      exact Value.keeps_safeCall inv n good given
  | .array elements =>
      refine (Expr.keeps_safeAll inv n inside elements).bind fun values good => ?_
      exact .pure (inv.all_array good)
  | .index collection position =>
      refine (Expr.keeps_safe inv n inside collection).bind fun c good => ?_
      refine (Expr.keeps_safe inv n inside position).bind fun i _ => ?_
      exact .ofExcept fun w result => inv.all_index good result
  | .hash pairs =>
      refine (Expr.keeps_safePairs inv n inside [] pairs nofun).bind fun entries good => ?_
      exact .pure (inv.all_hash good)

theorem Expr.keeps_safeAll (inv : EvalInvariant I admits p) (n : Nat) {scope : Scope}
    (inside : admits scope) (es : List Expr) :
    Keeps (Machine.Safe I p) (Expr.performAll n scope es) (fun vs => ∀ v ∈ vs, v.All p) := by
  cases n with
  | zero => exact .exhausted
  | succ n =>
  match es with
  | [] => exact .pure nofun
  | e :: es =>
      refine (Expr.keeps_safe inv n inside e).bind fun v here => ?_
      refine (Expr.keeps_safeAll inv n inside es).bind fun vs later => ?_
      exact .pure (List.forall_mem_cons.mpr ⟨here, later⟩)

theorem Expr.keeps_safePairs (inv : EvalInvariant I admits p) (n : Nat) {scope : Scope}
    (inside : admits scope) (entries : Table Key Value) (pairs : List (Expr × Expr))
    (before : ∀ entry ∈ entries, entry.2.All p) :
    Keeps (Machine.Safe I p) (Expr.performPairs n scope entries pairs)
      (fun entries => ∀ entry ∈ entries, entry.2.All p) := by
  cases n with
  | zero => exact .exhausted
  | succ n =>
  match pairs with
  | [] => exact .pure before
  | (key, value) :: pairs =>
      refine (Expr.keeps_safe inv n inside key).bind fun _ _ => ?_
      refine (Keeps.ofExcept fun _ _ => trivial).bind fun k (_ : True) => ?_
      refine (Expr.keeps_safe inv n inside value).bind fun v good => ?_
      refine Expr.keeps_safePairs inv n inside _ pairs fun entry mem => ?_
      rcases Table.mem_insert mem with rfl | mem
      · exact good
      · exact before entry mem

theorem Stmt.keeps_safe (inv : EvalInvariant I admits p) (n : Nat) {scope : Scope}
    (inside : admits scope) (s : Stmt) :
    Keeps (Machine.Safe I p) (Stmt.perform n scope s) (AllParts p) := by
  cases n with
  | zero => exact .exhausted
  | succ n =>
  match s with
  | .bind name value =>
      refine (Expr.keeps_safe inv n inside value).bind fun v good => ?_
      exact (inv.keeps_assign inside name good).bind fun _ _ => .pure nofun
  | .return value =>
      refine (Expr.keeps_safe inv n inside value).bind fun v good => .pure ?_
      rintro w ⟨⟩
      exact inv.wrappable.all_returned_iff.mpr good
  | .expr value =>
      refine (Expr.keeps_safe inv n inside value).bind fun v good => .pure ?_
      rintro w ⟨⟩
      exact good
  | .block body => exact Stmt.keeps_safeAll inv n inside none body nofun

theorem Stmt.keeps_safeAll (inv : EvalInvariant I admits p) (n : Nat) {scope : Scope}
    (inside : admits scope) (last : Option Value) (ss : List Stmt) (before : AllParts p last) :
    Keeps (Machine.Safe I p) (Stmt.performAll n scope last ss) (AllParts p) := by
  cases n with
  | zero => exact .exhausted
  | succ n =>
  match ss with
  | [] => exact .pure before
  | s :: ss =>
      refine (Stmt.keeps_safe inv n inside s).bind fun value good => ?_
      split
      · exact .pure good
      · exact Stmt.keeps_safeAll inv n inside value ss good

theorem Value.keeps_safeCall (inv : EvalInvariant I admits p) (n : Nat) {callee : Value}
    {arguments : List Value} (good : callee.All p) (given : ∀ v ∈ arguments, v.All p) :
    Keeps (Machine.Safe I p) (Value.performCall n callee arguments) (Value.All p) := by
  cases n with
  | zero => exact .exhausted
  | succ n =>
  refine Keeps.recorded ?_ fun machine outcome safe value => safe.record ⟨good, given, value⟩
  match callee with
  | .function f =>
      dsimp only
      split
      · exact .throw
      · have body : Keeps (Machine.Safe I p) _ (Value.All p) :=
          (inv.keeps_enter good.self given).bind fun scope inside =>
            (Stmt.keeps_safeAll inv n inside none f.body nofun).bind fun value parts =>
              .pure (inv.wrappable.all_callResult parts)
        exact body.inCall (fun machine inner safe _ => safe.setDepth inner)
          fun machine safe => safe.setDepth _
  | .builtin b => exact inv.keeps_builtin b given
  | .integer _ | .boolean _ | .null | .text _ | .array _ | .hash _ | .returned _ | .error _ =>
      exact .throw

end

/-- Whatever the machine does to a tree, the store keeps its property, the calls that are made are good,
and so is the value of the tree. -/
theorem Node.keeps_safe (inv : EvalInvariant I admits p) (n : Nat) {scope : Scope}
    (inside : admits scope) (node : Node) :
    Keeps (Machine.Safe I p) (node.perform n scope) (AllParts p) := by
  cases node with
  | program statements => exact Stmt.keeps_safeAll inv n inside none statements nofun
  | block statements => exact Stmt.keeps_safeAll inv n inside none statements nofun
  | statement s => exact Stmt.keeps_safe inv n inside s
  | expression e =>
      refine (Expr.keeps_safe inv n inside e).bind fun v good => .pure ?_
      rintro w ⟨⟩
      exact good

end Machine

end Marmoset
