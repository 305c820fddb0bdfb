import Mathlib.Data.List.Nodup
import Marmoset.Proofs.TwoRuns
import Marmoset.Proofs.Visits

/-! # The register of functions

Every function that a run makes gets a number.  A register lists the functions in the order of their
numbers (`Store.Registers`), so two functions on it with the same number are the same function
(`Store.Registers.equal_iff`).

Evaluation keeps registers: the functions that its function literals make are added at the end, and
no other function is ever bound or given as a value.  `Eval.Accounts` says this of one computation
and of the evaluations it consists of; `Node.accounts` says it of whole trees, by induction along
the evaluator. -/

namespace Marmoset

/-! ### Registers -/

/-- The functions that evaluations have made, in order. -/
def madeBy (visits : List Visit) : List Closure :=
  visits.filterMap Visit.made?

@[simp] theorem madeBy_nil : madeBy [] = [] :=
  rfl

theorem madeBy_cons (visit : Visit) (visits : List Visit) :
    madeBy (visit :: visits) = visit.made?.toList ++ madeBy visits := by
  cases h : visit.made? <;> simp [madeBy, h]

@[simp] theorem madeBy_append (xs ys : List Visit) : madeBy (xs ++ ys) = madeBy xs ++ madeBy ys :=
  List.filterMap_append

/-- If the value is a function, it is on the register. -/
def Registered (register : List Closure) (v : Value) : Prop :=
  ∀ f, v = .function f → f ∈ register

theorem wrappable_registered (register : List Closure) : Wrappable (Registered register) where
  integer _ f same := by cases same
  boolean _ f same := by cases same
  null f same := by cases same
  text _ f same := by cases same
  array _ f same := by cases same
  hash _ f same := by cases same
  builtin _ f same := by cases same
  returned _ f same := by cases same

theorem Value.All.register_mono {register longer : List Closure} {v : Value}
    (h : v.All (Registered register)) (sub : register ⊆ longer) : v.All (Registered longer) :=
  fun part within f same => sub (h part within f same)

theorem Value.all_function_registered {register : List Closure} {f : Closure}
    (mem : f ∈ register) : (Value.function f).All (Registered register) := by
  refine Value.all_function_iff.mpr ?_
  rintro g ⟨⟩
  exact mem

/-- The register lists all functions that were made, by their numbers, and all values that are bound
somewhere have only such functions in them. -/
structure Store.Registers (σ : Store) (register : List Closure) : Prop where
  numbers : register.map Closure.id = List.range σ.closures
  holds : σ.Holds (fun _ => True) (Registered register)

theorem Store.registers_empty : Store.empty.Registers [] where
  numbers := rfl
  holds i frame _ found := by simp [Store.empty] at found

namespace Store.Registers

variable {σ : Store} {register : List Closure}

theorem length_eq (h : σ.Registers register) : register.length = σ.closures := by
  simpa using congrArg List.length h.numbers

theorem id_lt (h : σ.Registers register) {f : Closure} (mem : f ∈ register) :
    f.id < σ.closures := by
  have listed := List.mem_map_of_mem (f := Closure.id) mem
  rwa [h.numbers, List.mem_range] at listed

/-- A number belongs to one function only. -/
theorem eq_of_id_eq (h : σ.Registers register) {f g : Closure} (hf : f ∈ register)
    (hg : g ∈ register) (same : f.id = g.id) : f = g := by
  have nodup : (register.map Closure.id).Nodup := h.numbers ▸ List.nodup_range
  exact List.inj_on_of_nodup_map nodup hf hg same

theorem equal_iff (h : σ.Registers register) {f g : Closure} (hf : f ∈ register)
    (hg : g ∈ register) : (Value.function f).equal (.function g) = true ↔ f = g := by
  rw [Value.equal, beq_iff_eq]
  exact ⟨h.eq_of_id_eq hf hg, congrArg Closure.id⟩

theorem newClosure (h : σ.Registers register) (parameters : List String) (body : Block)
    (scope : Scope) : (σ.newClosure parameters body scope).2.Registers
      (register ++ [(σ.newClosure parameters body scope).1]) where
  numbers := by
    rw [List.map_append, h.numbers]
    exact List.range_succ.symm
  holds := by
    intro i frame seen found entry mem
    exact (h.holds i frame seen found entry mem).register_mono (List.subset_append_left _ _)

theorem assign (h : σ.Registers register) (scope : Scope) (name : String) {v : Value}
    (good : v.All (Registered register)) : (σ.assign scope name v).Registers register :=
  ⟨h.numbers, h.holds.assign good⟩

theorem openFrame (h : σ.Registers register) (outer : List Nat) :
    (σ.openFrame outer).2.Registers register :=
  ⟨h.numbers, h.holds.openFrame outer⟩

theorem assignAll (h : σ.Registers register) (scope : Scope) {bindings : List (String × Value)}
    (good : ∀ entry ∈ bindings, entry.2.All (Registered register)) :
    (σ.assignAll scope bindings).Registers register := by
  induction bindings generalizing σ with
  | nil => exact h
  | cons entry bindings ih =>
    obtain ⟨first, later⟩ := List.forall_mem_cons.mp good
    exact ih (h.assign scope entry.1 first) later

theorem enter (h : σ.Registers register) (f : Closure) {arguments : List Value}
    (given : ∀ v ∈ arguments, v.All (Registered register)) :
    (f.enter arguments σ).2.Registers register :=
  (h.openFrame f.scope.frames).assignAll _ fun entry mem => given entry.2 (List.of_mem_zip mem).2

theorem printLines (h : σ.Registers register) (lines : List String) :
    (lines.foldl Store.printLine σ).Registers register := by
  induction lines generalizing σ with
  | nil => exact h
  | cons line lines ih => exact ih (σ := σ.printLine line) ⟨h.numbers, h.holds.of_frames_eq rfl⟩

end Store.Registers

/-- The functions made so far are on the register whenever an evaluation begins. -/
def Chronicle : List Closure → List Visit → Prop
  | _, [] => True
  | register, visit :: visits =>
    visit.store.Registers register ∧ Chronicle (register ++ visit.made?.toList) visits

theorem chronicle_append {register : List Closure} {xs ys : List Visit} :
    Chronicle register (xs ++ ys) ↔
      Chronicle register xs ∧ Chronicle (register ++ madeBy xs) ys := by
  induction xs generalizing register with
  | nil => simp [Chronicle]
  | cons visit xs ih =>
    rw [List.cons_append, Chronicle, Chronicle, ih, madeBy_cons, List.append_assoc, and_assoc]

theorem Chronicle.registers {register : List Closure} {before later : List Visit} {visit : Visit}
    (h : Chronicle register (before ++ visit :: later)) :
    visit.store.Registers (register ++ madeBy before) :=
  (chronicle_append.mp h).2.1

/-! ### Computations that keep the register -/

namespace Eval

variable {α β : Type}

/-- On a store whose register has at least the functions in `base`, the register grows by what the
evaluations of `x` make, and stays right.  A value that `x` gives is `good` for the register it ends
with. -/
def Accounts (base : List Closure) (x : Eval α) (visits : Visits)
    (good : List Closure → α → Prop) : Prop :=
  ∀ (register : List Closure) (σ : Store), base ⊆ register → σ.Registers register →
    Chronicle register (visits σ) ∧
    (x.runOn σ).2.Registers (register ++ madeBy (visits σ)) ∧
    ∀ a, (x.runOn σ).1 = .ok a → good (register ++ madeBy (visits σ)) a

namespace Accounts

variable {base : List Closure} {good : List Closure → α → Prop}

/-- A single step that evaluates nothing. -/
theorem silent {x : Eval α}
    (h : ∀ register σ, base ⊆ register → σ.Registers register →
      (x.runOn σ).2.Registers register ∧ ∀ a, (x.runOn σ).1 = .ok a → good register a) :
    Accounts base x Visits.none good := by
  intro register σ sub start
  simpa [Visits.none, Chronicle] using h register σ sub start

theorem ofExcept {result : Except RuntimeError α}
    (h : ∀ register a, base ⊆ register → result = .ok a → good register a) :
    Accounts base (Eval.ofExcept result) Visits.none good :=
  silent fun register _ sub start => ⟨start, fun a found => h register a sub found⟩

theorem pure {a : α} (h : ∀ register, base ⊆ register → good register a) :
    Accounts base (Pure.pure a) Visits.none good :=
  ofExcept fun register _ sub found => Except.ok.inj found ▸ h register sub

theorem throw (e : RuntimeError) :
    Accounts base (MonadExcept.throw e : Eval α) Visits.none good :=
  ofExcept fun _ _ _ found => nomatch found

theorem bind {goodNext : List Closure → β → Prop} {x : Eval α} {f : α → Eval β} {visits : Visits}
    {later : α → Visits} (first : Accounts base x visits good)
    (next : ∀ register a, base ⊆ register → good register a →
      Accounts register (f a) (later a) goodNext) :
    Accounts base (x >>= f) (visits.andThen x later) goodNext := by
  intro register σ sub start
  obtain ⟨seen, kept, value⟩ := first register σ sub start
  rw [runOn_bind, Visits.andThen]
  rcases ran : x.runOn σ with ⟨_ | a, σ'⟩ <;> rw [ran] at kept value
  · simp only [List.append_nil]
    exact ⟨seen, kept, fun a ended => by cases ended⟩
  · -- What follows `x` starts from the register that `x` ends with.
    have sub' : base ⊆ register ++ madeBy (visits σ) := List.subset_append_of_subset_left _ sub
    obtain ⟨seen', kept', value'⟩ :=
      next _ a sub' (value a rfl) _ σ' (List.Subset.refl _) kept
    simp only [madeBy_append, ← List.append_assoc]
    exact ⟨chronicle_append.mpr ⟨seen, seen'⟩, kept', value'⟩

/-- What follows `x` evaluates nothing. -/
theorem bindSilent {goodNext : List Closure → β → Prop} {x : Eval α} {f : α → Eval β}
    {visits : Visits} (first : Accounts base x visits good)
    (next : ∀ register a, base ⊆ register → good register a →
      Accounts register (f a) Visits.none goodNext) :
    Accounts base (x >>= f) visits goodNext := by
  rw [← visits.andThen_none x]
  exact first.bind next

/-- An evaluation makes what its parts make, unless it is that of a function literal. -/
theorem of {e : Expr} (other : ∀ parameters body, e ≠ .function parameters body) {depth : Nat}
    {scope : Scope} {x : Eval α} {parts : Visits} (h : Accounts base x parts good) :
    Accounts base x (Visits.of depth scope e parts) good := by
  intro register σ sub start
  have none : (⟨depth, scope, e, σ⟩ : Visit).made? = none := by
    cases e with
    | function parameters body => exact absurd rfl (other parameters body)
    | _ => rfl
  simp only [Visits.of, Chronicle, madeBy_cons, none, Option.toList_none, List.append_nil,
    List.nil_append]
  obtain ⟨seen, rest⟩ := h register σ sub start
  exact ⟨⟨start, seen⟩, rest⟩

/-! ### The steps that use the store -/

theorem name (scope : Scope) (name : String) :
    Accounts base (do Eval.ofExcept (← Eval.view (nameValue scope name))) Visits.none
      (fun register v => v.All (Registered register)) := by
  refine silent fun register σ _ start => ?_
  simp only [runOn_bind, runOn_view, runOn_ofExcept]
  exact ⟨start, fun v found =>
    start.holds.nameValue (wrappable_registered register).toOrdinary (fun _ _ => trivial) found⟩

/-- A function literal is the one expression that makes a function. -/
theorem function (depth : Nat) (scope : Scope) (parameters : List String) (body : Block) :
    Accounts base
      (do return Value.function (← Eval.step fun store => store.newClosure parameters body scope))
      (Visits.of depth scope (.function parameters body) Visits.none)
      (fun register v => v.All (Registered register)) := by
  intro register σ _ start
  refine ⟨⟨start, trivial⟩, start.newClosure parameters body scope, ?_⟩
  rintro v ⟨⟩
  exact Value.all_function_registered (List.mem_append_right _ List.mem_cons_self)

theorem assign (scope : Scope) (name : String) {v : Value} (given : v.All (Registered base)) :
    Accounts base (Eval.change fun store => store.assign scope name v) Visits.none
      (fun _ _ => True) :=
  silent fun _ _ sub start =>
    ⟨start.assign scope name (given.register_mono sub), fun _ _ => trivial⟩

theorem enter (f : Closure) {arguments : List Value}
    (given : ∀ v ∈ arguments, v.All (Registered base)) :
    Accounts base (Eval.step (f.enter arguments)) Visits.none (fun _ _ => True) :=
  silent fun _ _ sub start =>
    ⟨start.enter f fun v mem => (given v mem).register_mono sub, fun _ _ => trivial⟩

theorem builtin (b : Builtin) {arguments : List Value}
    (given : ∀ v ∈ arguments, v.All (Registered base)) :
    Accounts base (b.call arguments) Visits.none
      (fun register v => v.All (Registered register)) := by
  have printed : Accounts base
      (Eval.change fun store => (b.printed arguments).foldl Store.printLine store) Visits.none
      (fun _ _ => True) :=
    silent fun _ _ _ start => ⟨start.printLines _, fun _ _ => trivial⟩
  refine printed.bindSilent fun register _ sub _ => ofExcept fun longer v sub' result => ?_
  refine (wrappable_registered longer).all_result (fun v mem => ?_) result
  exact (given v mem).register_mono (List.Subset.trans sub sub')

/-- The value of a conditional is that of its block, or `null`. -/
theorem block {x : Eval (Option Value)} {visits : Visits}
    (h : Accounts base x visits fun register => AllParts (Registered register)) :
    Accounts base (do return (← x).getD .null) visits
      (fun register v => v.All (Registered register)) := by
  refine h.bindSilent fun register value _ good => pure fun longer sub => ?_
  exact ((wrappable_registered register).all_getD good).register_mono sub

end Accounts

end Eval

open Eval (Accounts)

/-! ### The evaluator -/

mutual

theorem Expr.accounts (base : List Closure) (depth : Nat) (scope : Scope) (e : Expr) :
    Accounts base (e.eval depth scope) (e.visits depth scope)
      (fun register v => v.All (Registered register)) := by
  match e with
  | .name x =>
      simp only [Expr.eval, Expr.visits]
      exact .of (by nofun) (.name scope x)
  | .integer value =>
      simp only [Expr.eval, Expr.visits]
      refine .of (by nofun) (.pure fun register _ => ?_)
      exact (wrappable_registered register).all_integer value
  | .text value =>
      simp only [Expr.eval, Expr.visits]
      refine .of (by nofun) (.pure fun register _ => ?_)
      exact (wrappable_registered register).all_text value
  | .boolean value =>
      simp only [Expr.eval, Expr.visits]
      refine .of (by nofun) (.pure fun register _ => ?_)
      exact (wrappable_registered register).all_boolean value
  | .unary op operand =>
      simp only [Expr.eval, Expr.visits]
      refine .of (by nofun) ?_
      refine (Expr.accounts base depth scope operand).bindSilent fun _ v _ _ => ?_
      exact .ofExcept fun register w _ result => (wrappable_registered register).all_unary result
  | .binary op left right =>
      simp only [Expr.eval, Expr.visits]
      refine .of (by nofun) ?_
      refine (Expr.accounts base depth scope left).bind fun later a _ _ => ?_
      refine (Expr.accounts later depth scope right).bindSilent fun _ b _ _ => ?_
      exact .ofExcept fun register w _ result => (wrappable_registered register).all_binary result
  | .cond condition consequence none =>
      simp only [Expr.eval, Expr.visits]
      refine .of (by nofun) ?_
      refine (Expr.accounts base depth scope condition).bind fun later v _ _ => ?_
      split
      · exact (Stmt.accountsAll later depth scope none consequence nofun).block
      · exact .pure fun register _ => (wrappable_registered register).all_null
  | .cond condition consequence (some alternative) =>
      simp only [Expr.eval, Expr.visits]
      refine .of (by nofun) ?_
      refine (Expr.accounts base depth scope condition).bind fun later v _ _ => ?_
      split
      · exact (Stmt.accountsAll later depth scope none consequence nofun).block
      · exact (Stmt.accountsAll later depth scope none alternative nofun).block
  | .function parameters body =>
      simp only [Expr.eval, Expr.visits]
      exact .function depth scope parameters body
  | .call callee arguments =>
      simp only [Expr.eval, Expr.visits]
      refine .of (by nofun) ?_
      refine (Expr.accounts base depth scope callee).bind fun later f _ good => ?_
      refine (Expr.accountsAll later depth scope arguments).bind fun latest values sub given => ?_
      exact Value.accounts latest depth (good.register_mono sub) given
  | .array elements =>
      simp only [Expr.eval, Expr.visits]
      refine .of (by nofun) ?_
      refine (Expr.accountsAll base depth scope elements).bindSilent fun _ values _ good => ?_
      refine .pure fun register sub => (wrappable_registered register).all_array fun v mem => ?_
      exact (good v mem).register_mono sub
  | .index collection position =>
      simp only [Expr.eval, Expr.visits]
      refine .of (by nofun) ?_
      refine (Expr.accounts base depth scope collection).bind fun later c _ good => ?_
      refine (Expr.accounts later depth scope position).bindSilent fun _ i sub _ => ?_
      refine .ofExcept fun register w sub' result => ?_
      exact (wrappable_registered register).all_index (good.register_mono (List.Subset.trans sub sub')) result
  | .hash pairs =>
      simp only [Expr.eval, Expr.visits]
      refine .of (by nofun) ?_
      refine (Expr.accountsPairs base depth scope [] pairs nofun).bindSilent
        fun _ entries _ good => ?_
      refine .pure fun register sub => (wrappable_registered register).all_hash fun entry mem => ?_
      exact (good entry mem).register_mono sub
termination_by (callLimit - depth, sizeOf e)

theorem Expr.accountsAll (base : List Closure) (depth : Nat) (scope : Scope) (es : List Expr) :
    Accounts base (Expr.evalAll depth scope es) (Expr.visitsAll depth scope es)
      (fun register vs => ∀ v ∈ vs, v.All (Registered register)) := by
  match es with
  | [] =>
      simp only [Expr.evalAll, Expr.visitsAll]
      exact .pure fun _ _ => nofun
  | e :: es =>
      simp only [Expr.evalAll, Expr.visitsAll]
      refine (Expr.accounts base depth scope e).bind fun later v _ here => ?_
      refine (Expr.accountsAll later depth scope es).bindSilent fun _ vs sub rest => ?_
      refine .pure fun register sub' => List.forall_mem_cons.mpr ⟨?_, fun w mem => ?_⟩
      · exact here.register_mono (List.Subset.trans sub sub')
      · exact (rest w mem).register_mono sub'
termination_by (callLimit - depth, sizeOf es)

theorem Expr.accountsPairs (base : List Closure) (depth : Nat) (scope : Scope)
    (entries : Table Key Value) (pairs : List (Expr × Expr))
    (before : ∀ entry ∈ entries, entry.2.All (Registered base)) :
    Accounts base (Expr.evalPairs depth scope entries pairs) (Expr.visitsPairs depth scope pairs)
      (fun register entries => ∀ entry ∈ entries, entry.2.All (Registered register)) := by
  match pairs with
  | [] =>
      simp only [Expr.evalPairs, Expr.visitsPairs]
      exact .pure fun register sub entry mem => (before entry mem).register_mono sub
  | (key, value) :: pairs =>
      simp only [Expr.evalPairs, Expr.visitsPairs]
      refine (Expr.accounts base depth scope key).bind fun r₁ _ sub₁ _ => ?_
      refine (Accounts.ofExcept fun _ _ _ _ => trivial).bind fun r₂ k sub₂ (_ : True) => ?_
      refine (Expr.accounts r₂ depth scope value).bind fun r₃ v sub₃ good => ?_
      have sub : base ⊆ r₃ := List.Subset.trans sub₁ (List.Subset.trans sub₂ sub₃)
      refine Expr.accountsPairs r₃ depth scope _ pairs fun entry mem => ?_
      rcases Table.mem_insert mem with rfl | mem
      · exact good
      · exact (before entry mem).register_mono sub
termination_by (callLimit - depth, sizeOf pairs)

theorem Stmt.accounts (base : List Closure) (depth : Nat) (scope : Scope) (s : Stmt) :
    Accounts base (s.exec depth scope) (s.visits depth scope)
      (fun register => AllParts (Registered register)) := by
  match s with
  | .bind name value =>
      simp only [Stmt.exec, Stmt.visits]
      refine (Expr.accounts base depth scope value).bindSilent fun _ v _ good => ?_
      exact (Accounts.assign scope name good).bindSilent fun _ _ _ _ => .pure fun _ _ => nofun
  | .return value =>
      simp only [Stmt.exec, Stmt.visits]
      refine (Expr.accounts base depth scope value).bindSilent fun _ v _ good => ?_
      refine .pure fun register sub => ?_
      rintro w ⟨⟩
      exact (wrappable_registered register).all_returned_iff.mpr (good.register_mono sub)
  | .expr value =>
      simp only [Stmt.exec, Stmt.visits]
      refine (Expr.accounts base depth scope value).bindSilent fun _ v _ good => ?_
      refine .pure fun register sub => ?_
      rintro w ⟨⟩
      exact good.register_mono sub
  | .block body =>
      simp only [Stmt.exec, Stmt.visits]
      exact Stmt.accountsAll base depth scope none body nofun
termination_by (callLimit - depth, sizeOf s)

theorem Stmt.accountsAll (base : List Closure) (depth : Nat) (scope : Scope) (last : Option Value)
    (ss : List Stmt) (before : AllParts (Registered base) last) :
    Accounts base (Stmt.execAll depth scope last ss) (Stmt.visitsAll depth scope ss)
      (fun register => AllParts (Registered register)) := by
  match ss with
  | [] =>
      simp only [Stmt.execAll, Stmt.visitsAll]
      exact .pure fun register sub v same => (before v same).register_mono sub
  | s :: ss =>
      rw [Stmt.execAll_cons]
      simp only [Stmt.visitsAll]
      refine (Stmt.accounts base depth scope s).bind fun later value _ good => ?_
      split
      · exact .pure fun register sub v same => (good v same).register_mono sub
      · exact Stmt.accountsAll later depth scope value ss good
termination_by (callLimit - depth, sizeOf ss)

theorem Value.accounts (base : List Closure) (depth : Nat) {callee : Value}
    {arguments : List Value} (good : callee.All (Registered base))
    (given : ∀ v ∈ arguments, v.All (Registered base)) :
    Accounts base (Value.call depth callee arguments) (Value.callVisits depth callee arguments)
      (fun register v => v.All (Registered register)) := by
  cases callee with
  | function f =>
      by_cases count : arguments.length = f.parameters.length
      · by_cases below : depth < callLimit
        · rw [Value.call_of_below count below, Value.callVisits_of_below count below]
          refine (Accounts.enter f given).bind fun later scope _ _ => ?_
          refine (Stmt.accountsAll later (depth + 1) scope none f.body nofun).bindSilent
            fun register value _ parts => .pure fun longer sub => ?_
          exact ((wrappable_registered register).all_callResult parts).register_mono sub
        · rw [Value.call_of_limit count below, Value.callVisits_of_limit below]
          exact .throw _
      · rw [Value.call_of_count_ne count, Value.callVisits_of_count_ne count]
        exact .throw _
  | builtin b =>
      simp only [Value.call, Value.callVisits]
      exact .builtin b given
  | _ =>
      simp only [Value.call, Value.callVisits]
      exact .throw _
termination_by (callLimit - depth, 0)

end

theorem Node.accounts (base : List Closure) (depth : Nat) (scope : Scope) (node : Node) :
    Accounts base (node.eval depth scope) (node.visits depth scope)
      (fun register => AllParts (Registered register)) := by
  cases node with
  | program statements => exact Stmt.accountsAll base depth scope none statements nofun
  | block statements => exact Stmt.accountsAll base depth scope none statements nofun
  | statement s => exact Stmt.accounts base depth scope s
  | expression e =>
      refine (Expr.accounts base depth scope e).bindSilent fun _ v _ good => ?_
      refine .pure fun register sub => ?_
      rintro w ⟨⟩
      exact good.register_mono sub

end Marmoset
