import Mathlib.Logic.Relation
import Marmoset.Proofs.Lookup
import Marmoset.Proofs.Register

/-! # The identity of functions

A `World` is what a host of the language has: a store, the scopes it has made, the values it has
been given and, for the record, all evaluations so far.  It goes on by making scopes, binding
values, running trees and calling values (`World.Step`).

Main statement (`functions_keep_identity`): in every world that can arise, functions are equal only
if they are the same function, with the same parameters, body and scope; each evaluation of a
function literal gives a function that equals none of those made before, wherever they are; and what
is bound, passed, returned or stored in an array or a hash is read back as it was. -/

namespace Marmoset

/-! ### Reading back -/

/-- Wherever the value is put, it is read back from there. -/
structure Value.ReadBack (v : Value) : Prop where
  /-- It is bound to a name. -/
  bound : ∀ (σ : Store) (scope : Scope) (name : String), scope.frame < σ.frames.size →
    nameValue scope name (σ.assign scope name v) = .ok v
  /-- It is passed to a function, for the last parameter of its name. -/
  passed : ∀ (σ : Store) (f : Closure) (names others : List String) (name : String)
    (before after : List Value), f.parameters = names ++ name :: others →
    names.length = before.length → name ∉ others →
    nameValue (f.enter (before ++ v :: after) σ).1 name (f.enter (before ++ v :: after) σ).2 = .ok v
  /-- A function returns it, or its body ends with it. -/
  returned : ∀ (depth : Nat) (f : Closure) (arguments : List Value) (last : Value) (σ σ' : Store),
    arguments.length = f.parameters.length → depth < callLimit →
    (Stmt.execAll (depth + 1) (f.enter arguments σ).1 none f.body).runOn (f.enter arguments σ).2 =
      (.ok (some last), σ') →
    last = .returned v ∨ last = v →
    (Value.call depth (.function f) arguments).runOn σ = (.ok v, σ')
  /-- It is an element of an array. -/
  element : ∀ (elements : List Value) (position : Int64) (i : Nat),
    Integer.toSize? position = some i → elements[i]? = some v →
    (Value.array elements).index (.integer position) = .ok v
  /-- It is added to an array. -/
  pushed : ∀ elements : List Value, ∃ longer,
    Builtin.push.result [.array elements, v] = .ok longer ∧ Builtin.last.result [longer] = .ok v
  /-- It is the value of a key in a hash. -/
  entry : ∀ (entries : Table Key Value) (key : Key),
    (Value.hash (Table.insert entries key v)).index key.toValue = .ok v

/-- Functions are no wrapped returns, so a call leaves them as they are. -/
theorem Value.readBack_function (g : Closure) : (Value.function g).ReadBack where
  bound σ scope name there := nameValue_of_lookup (Store.lookup_assign_self there name _)
  passed σ f names others name before after parameters count absent := by
    have bindings : f.parameters.zip (before ++ .function g :: after) =
        names.zip before ++ (name, .function g) :: others.zip after := by
      rw [parameters, List.zip_append count, List.zip_cons_cons]
    have later : name ∉ (others.zip after).map Prod.fst := by
      rintro mem
      obtain ⟨entry, listed, rfl⟩ := List.mem_map.mp mem
      exact absent (List.of_mem_zip listed).1
    exact nameValue_of_lookup (σ.lookup_parameter _ _ bindings later)
  returned depth f arguments last σ σ' count below body ended := by
    rw [Value.runOn_call count below, Eval.runOn_bind, body]
    rcases ended with rfl | rfl <;> rfl
  element elements position i size found := by
    rw [Value.index, size, Option.bind_some, found]
    rfl
  pushed elements := by
    refine ⟨.array (elements ++ [.function g]), rfl, ?_⟩
    rw [Builtin.result_of_length_eq rfl rfl]
    simp [Builtin.apply, requireArray, Except.map]
  entry entries key := by
    simp [Value.index, Value.requireKey, Value.key?_toValue, Except.map]

/-! ### Evaluations -/

/-- Some name is bound to the function or to an array or a hash that contains it. -/
def Store.Has (σ : Store) (f : Closure) : Prop :=
  ∃ v, σ.Binds v ∧ Value.Within (.function f) v

theorem Store.Registers.mem_of_has {σ : Store} {register : List Closure}
    (h : σ.Registers register) {f : Closure} (has : σ.Has f) : f ∈ register := by
  obtain ⟨v, bound, within⟩ := has
  exact Store.holds_iff.mp h.holds v bound _ within f rfl

/-- What an evaluation tells of functions when those in `before` were made before it. -/
structure Visit.Identifies (visit : Visit) (before : List Closure) : Prop where
  /-- Functions that are there when it begins are equal only if they are the same. -/
  present : ∀ f g, visit.store.Has f → visit.store.Has g →
    ((Value.function f).equal (.function g) = true ↔ f = g)
  /-- A function literal gives a function that equals none that is there or was made before. -/
  fresh : ∀ parameters body, visit.expr = .function parameters body →
    ∃ f, visit.outcome = .ok (.function f) ∧
      f.parameters = parameters ∧ f.body = body ∧ f.scope = visit.scope ∧
      ∀ g, visit.store.Has g ∨ g ∈ before → (Value.function f).equal (.function g) = false
  /-- A comparison of functions tells whether they are the same. -/
  compared : ∀ left right f g σ σ', visit.expr = .binary .equal left right →
    (left.eval visit.depth visit.scope).runOn visit.store = (.ok (.function f), σ) →
    (right.eval visit.depth visit.scope).runOn σ = (.ok (.function g), σ') →
    ∃ same, visit.outcome = .ok (.boolean same) ∧ (same = true ↔ f = g)

namespace Store.Registers

variable {register : List Closure}

theorem equal_newClosure {σ : Store} (h : σ.Registers register) (parameters : List String)
    (body : Block) (scope : Scope) {g : Closure} (made : g ∈ register) :
    (Value.function (σ.newClosure parameters body scope).1).equal (.function g) = false := by
  rw [Value.equal]
  exact beq_eq_false_iff_ne.mpr (Nat.ne_of_gt (h.id_lt made))

theorem identifies {visit : Visit} (h : visit.store.Registers register) :
    visit.Identifies register where
  present f g hf hg := h.equal_iff (h.mem_of_has hf) (h.mem_of_has hg)
  fresh := by
    intro parameters body literal
    refine ⟨(visit.store.newClosure parameters body visit.scope).1, ?_, rfl, rfl, rfl, ?_⟩
    · rw [Visit.outcome, literal, Expr.eval]
      rfl
    · rintro g (has | made)
      · exact h.equal_newClosure parameters body visit.scope (h.mem_of_has has)
      · exact h.equal_newClosure parameters body visit.scope made
  compared := by
    intro left right f g σ σ' comparison ran ran'
    obtain ⟨-, kept, value⟩ := left.accounts register visit.depth visit.scope register visit.store
      (List.Subset.refl _) h
    rw [ran] at kept value
    obtain ⟨-, kept', value'⟩ := right.accounts _ visit.depth visit.scope _ σ
      (List.Subset.refl _) kept
    rw [ran'] at kept' value'
    have hf := (value _ rfl).self f rfl
    have hg := (value' _ rfl).self g rfl
    refine ⟨(Value.function f).equal (.function g), ?_,
      kept'.equal_iff (List.mem_append_left _ hf) hg⟩
    simp only [Visit.outcome, comparison, Expr.eval, Eval.runOn_bind, ran, ran']
    rfl

end Store.Registers

/-! ### Worlds -/

theorem Node.all_resultOf {register : List Closure} {outcome : Except RuntimeError (Option Value)}
    (good : ∀ value, outcome = .ok value → AllParts (Registered register) value) :
    ∀ v ∈ (Node.resultOf outcome).toList, v.All (Registered register) := by
  intro v given
  rw [Option.mem_toList] at given
  rcases outcome with e | _ | w <;> cases given
  · rintro part ⟨⟩ f ⟨⟩
  · exact (wrappable_registered register).all_unwrap (good _ rfl w rfl)

theorem Value.all_toOption {register : List Closure} {outcome : Except RuntimeError Value}
    (good : ∀ v, outcome = .ok v → v.All (Registered register)) :
    ∀ v ∈ outcome.toOption.toList, v.All (Registered register) := by
  intro v given
  rw [Option.mem_toList] at given
  rcases outcome with e | w <;> cases given
  exact good v rfl

/-- What a host of the language has: the store, the scopes that it has made, the values that it has
been given, and all evaluations so far. -/
structure World where
  store : Store
  scopes : List Scope
  values : List Value
  visits : List Visit

namespace World

/-- Nothing has been done. -/
def empty : World :=
  ⟨Store.empty, [], [], []⟩

/-- A tree has been run. -/
def ran (world : World) (depth : Nat) (scope : Scope) (node : Node) : World :=
  { world with
    store := (node.run depth scope world.store).2
    values := (node.run depth scope world.store).1.toList ++ world.values
    visits := world.visits ++ node.visits depth scope world.store }

/-- A value has been called. -/
def called (world : World) (depth : Nat) (callee : Value) (arguments : List Value) : World :=
  let (outcome, store) := (Value.call depth callee arguments).runOn world.store
  { world with
    store := store
    values := outcome.toOption.toList ++ world.values
    visits := world.visits ++ Value.callVisits depth callee arguments world.store }

/-- What can happen next: a scope is made, by itself or inside another, a value is bound, a tree is
run in a scope, or a value is called.  A source without errors is run as the tree that it is read
as. -/
inductive Step : World → World → Prop
  | newScope {world : World} :
      Step world { world with
        store := world.store.newScope.2
        scopes := world.store.newScope.1 :: world.scopes }
  | enclose {world : World} {outer : Scope} :
      outer ∈ world.scopes →
      Step world { world with
        store := (world.store.enclose outer).2
        scopes := (world.store.enclose outer).1 :: world.scopes }
  | assign {world : World} {scope : Scope} {name : String} {v : Value} :
      scope ∈ world.scopes → v ∈ world.values →
      Step world { world with store := world.store.assign scope name v }
  | run {world : World} {depth : Nat} {scope : Scope} {node : Node} :
      scope ∈ world.scopes → Step world (world.ran depth scope node)
  | call {world : World} {depth : Nat} {callee : Value} {arguments : List Value} :
      callee ∈ world.values → (∀ v ∈ arguments, v ∈ world.values) →
      Step world (world.called depth callee arguments)

/-- The function is bound somewhere or was given to the host, or an array or a hash that contains it
was. -/
def Has (world : World) (f : Closure) : Prop :=
  world.store.Has f ∨ ∃ v ∈ world.values, Value.Within (.function f) v

/-- The functions that were made are on the register, also when each of the evaluations began. -/
structure Sound (world : World) : Prop where
  store : world.store.Registers (madeBy world.visits)
  values : ∀ v ∈ world.values, v.All (Registered (madeBy world.visits))
  chronicle : Chronicle [] world.visits

namespace Sound

variable {world : World}

/-- A computation on the values that the host has gives values that it may have. -/
theorem grow {α : Type} {x : Eval α} {visits : Visits} {good : List Closure → α → Prop}
    {values : List Value} (h : world.Sound)
    (accounts : Eval.Accounts (madeBy world.visits) x visits good)
    (given : ∀ register, (∀ a, (x.runOn world.store).1 = .ok a → good register a) →
      ∀ v ∈ values, v.All (Registered register)) :
    Sound ⟨(x.runOn world.store).2, world.scopes, values ++ world.values,
      world.visits ++ visits world.store⟩ := by
  obtain ⟨seen, kept, value⟩ := accounts _ _ (List.Subset.refl _) h.store
  refine ⟨?_, ?_, chronicle_append.mpr ⟨h.chronicle, seen⟩⟩
  · rwa [madeBy_append]
  · rw [madeBy_append]
    refine List.forall_mem_append.mpr ⟨given _ value, fun v mem => ?_⟩
    exact (h.values v mem).register_mono (List.subset_append_left _ _)

theorem step {next : World} (h : world.Sound) (step : Step world next) : next.Sound := by
  cases step with
  | newScope => exact ⟨h.store.openFrame [], h.values, h.chronicle⟩
  | @enclose outer _ => exact ⟨h.store.openFrame outer.frames, h.values, h.chronicle⟩
  | @assign scope name v _ given =>
      exact ⟨h.store.assign scope name (h.values v given), h.values, h.chronicle⟩
  | @run depth scope node _ =>
      exact h.grow (node.accounts _ depth scope) fun _ good => Node.all_resultOf good
  | @call depth callee arguments known given =>
      have passed := fun v mem => h.values v (given v mem)
      exact h.grow (Value.accounts _ depth (h.values callee known) passed)
        fun _ => Value.all_toOption

theorem of_reachable (reached : Relation.ReflTransGen Step empty world) : world.Sound := by
  induction reached with
  | refl => exact ⟨Store.registers_empty, List.forall_mem_nil _, trivial⟩
  | tail _ step ih => exact ih.step step

theorem mem_of_has (h : world.Sound) {f : Closure} (has : world.Has f) :
    f ∈ madeBy world.visits := by
  rcases has with bound | ⟨v, held, within⟩
  · exact h.store.mem_of_has bound
  · exact h.values v held _ within f rfl

end Sound

end World

/-- **Functions keep their identity.**  In every world that can arise, functions are equal only if
they are the same.  An evaluation of a function literal gives a function that equals none of those
that were made before, and every comparison on the way tells whether two functions are the same.
The evaluations on record are all there were: they made as many functions as the store has counted,
and every function in the world is one of them.  Wherever a function is put, it is read back. -/
theorem functions_keep_identity {world : World}
    (reached : Relation.ReflTransGen World.Step World.empty world) :
    (∀ f g, world.Has f → world.Has g →
      ((Value.function f).equal (.function g) = true ↔ f = g)) ∧
    (∀ before visit later, world.visits = before ++ visit :: later →
      visit.Identifies (madeBy before)) ∧
    (madeBy world.visits).length = world.store.closures ∧
    ∀ f, world.Has f → f ∈ madeBy world.visits ∧ (Value.function f).ReadBack := by
  have sound := World.Sound.of_reachable reached
  refine ⟨fun f g hf hg => ?_, fun before visit later all => ?_, ?_, fun f has => ?_⟩
  · exact sound.store.equal_iff (sound.mem_of_has hf) (sound.mem_of_has hg)
  · have chronicle := sound.chronicle
    rw [all] at chronicle
    exact chronicle.registers.identifies
  · exact sound.store.length_eq
  · exact ⟨sound.mem_of_has has, Value.readBack_function f⟩

/-- The literal `fn() \x7b 1 \x7d` gives two functions when it is run twice in one scope. -/
theorem functions_keep_identity_same_literal :
    let literal : Node := .expression (.function [] [.expr (.integer 1)])
    let world := ((⟨⟨#[[]], 0, ""⟩, [⟨0, []⟩], [], []⟩ : World).ran 0 ⟨0, []⟩ literal).ran 0 ⟨0, []⟩
      literal
    let f : Closure := ⟨0, [], [.expr (.integer 1)], ⟨0, []⟩⟩
    let g : Closure := ⟨1, [], [.expr (.integer 1)], ⟨0, []⟩⟩
    Relation.ReflTransGen World.Step .empty world ∧ world.Has f ∧ world.Has g ∧
      ((Value.function f).equal (.function g) = true ↔ f = g) ∧
      f ∈ madeBy world.visits ∧ (Value.function f).ReadBack := by
  intro literal world f g
  have literal_run : ∀ σ, literal.run 0 ⟨0, []⟩ σ =
      (some (.function (σ.newClosure [] [.expr (.integer 1)] ⟨0, []⟩).1),
        (σ.newClosure [] [.expr (.integer 1)] ⟨0, []⟩).2) := by
    intro σ
    simp only [literal, Node.run, Node.eval, Expr.eval]
    rfl
  have made : World.Step .empty ⟨⟨#[[]], 0, ""⟩, [⟨0, []⟩], [], []⟩ := .newScope
  have reached : Relation.ReflTransGen World.Step .empty world :=
    ((Relation.ReflTransGen.single made).tail (.run (List.mem_singleton_self _))).tail
      (.run (List.mem_singleton_self _))
  have hf : world.Has f :=
    .inr ⟨.function f, by simp [world, World.ran, literal_run, Store.newClosure, f], .self⟩
  have hg : world.Has g :=
    .inr ⟨.function g, by simp [world, World.ran, literal_run, Store.newClosure, g], .self⟩
  obtain ⟨equal, -, -, origin⟩ := functions_keep_identity reached
  exact ⟨reached, hf, hg, equal f g hf hg, origin f hf⟩

end Marmoset
