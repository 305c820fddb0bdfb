import Marmoset.Proofs.Invariant

/-! # What evaluation leaves alone

Evaluation in a scope binds names in the frame of that scope and in frames that it opens itself.  All
other frames stay as they are (`Store.Grown`): a call opens a frame of its own, so it changes nothing
that was there before, whatever its body binds.

The frames around a frame are not in the store but in the scopes that refer to it.  `Scope.Linked`
says that a scope has the frames around it that a given list prescribes, as far as its own frame is
one of the old ones.  Evaluation keeps this too, so nothing that was there before gets another
surrounding. -/

namespace Marmoset

/-! ### Stores that have grown -/

/-- `after` has all frames of `before` and perhaps more.  Only the frames in `own` and the new ones
have changed, and no name has been lost. -/
structure Store.Grown (own : Nat → Prop) (before after : Store) : Prop where
  size_le : before.frames.size ≤ after.frames.size
  same : ∀ i < before.frames.size, ¬ own i → after.frames[i]? = before.frames[i]?
  names : ∀ i, before.namesAt i ⊆ after.namesAt i

namespace Store

theorem namesAt_subset_assign (store : Store) (scope : Scope) (name : String) (v : Value) (i : Nat) :
    store.namesAt i ⊆ (store.assign scope name v).namesAt i := by
  unfold namesAt
  rw [getElem?_assign]
  by_cases here : scope.frame = i
  · rw [if_pos here]
    cases store.frames[i]? with
    | none => exact List.nil_subset _
    | some frame =>
        simp only [Option.map_some]
        rw [Table.keys_insert]
        split
        · exact List.Subset.refl _
        · exact List.subset_append_left _ _
  · rw [if_neg here]
    exact List.Subset.refl _

theorem namesAt_subset_openFrame (store : Store) (outer : List Nat) (i : Nat) :
    store.namesAt i ⊆ (store.openFrame outer).2.namesAt i := by
  unfold namesAt
  rw [getElem?_openFrame]
  by_cases last : i = store.frames.size
  · rw [Array.getElem?_eq_none (Nat.le_of_eq last.symm)]
    exact List.nil_subset _
  · rw [if_neg last]
    exact List.Subset.refl _

namespace Grown

variable {own : Nat → Prop} {before store : Store}

theorem refl : Grown own before before :=
  ⟨Nat.le_refl _, fun _ _ _ => rfl, fun _ => List.Subset.refl _⟩

theorem of_frames_eq {store' : Store} (h : Grown own before store)
    (same : store'.frames = store.frames) : Grown own before store' := by
  refine ⟨?_, fun i old other => ?_, fun i => ?_⟩
  · rw [same]
    exact h.size_le
  · rw [same]
    exact h.same i old other
  · have names : store'.namesAt i = store.namesAt i := by rw [namesAt, namesAt, same]
    rw [names]
    exact h.names i

/-- Names may be bound in the frames in `own` and in new ones. -/
theorem assign {scope : Scope} (h : Grown own before store)
    (inside : own scope.frame ∨ before.frames.size ≤ scope.frame) (name : String) (v : Value) :
    Grown own before (store.assign scope name v) := by
  refine ⟨?_, fun i old other => ?_, fun i => ?_⟩
  · rw [size_assign]
    exact h.size_le
  · have elsewhere : scope.frame ≠ i := by
      rintro rfl
      rcases inside with mine | new
      · exact other mine
      · omega
    rw [getElem?_assign, if_neg elsewhere]
    exact h.same i old other
  · exact List.Subset.trans (h.names i) (namesAt_subset_assign store scope name v i)

theorem assignAll {scope : Scope} (h : Grown own before store)
    (inside : own scope.frame ∨ before.frames.size ≤ scope.frame)
    (bindings : List (String × Value)) : Grown own before (store.assignAll scope bindings) := by
  induction bindings generalizing store with
  | nil => exact h
  | cons entry bindings ih => exact ih (h.assign inside entry.1 entry.2)

theorem openFrame (h : Grown own before store) (outer : List Nat) :
    Grown own before (store.openFrame outer).2 := by
  have size_le := h.size_le
  refine ⟨?_, fun i old other => ?_, fun i => ?_⟩
  · rw [size_openFrame]
    omega
  · rw [getElem?_openFrame, if_neg (by omega)]
    exact h.same i old other
  · exact List.Subset.trans (h.names i) (namesAt_subset_openFrame store outer i)

/-- A call binds its parameters in a frame of its own. -/
theorem enter (h : Grown own before store) (f : Closure) (arguments : List Value) :
    Grown own before (f.enter arguments store).2 :=
  (h.openFrame f.scope.frames).assignAll (.inr h.size_le) _

/-- Evaluation in a scope whose frame is in `own`, or new, changes only such frames. -/
theorem evalInvariant (own : Nat → Prop) (before : Store) :
    EvalInvariant (Grown own before)
      (fun scope => own scope.frame ∨ before.frames.size ≤ scope.frame) fun _ => True where
  toOrdinary := Wrappable.top.toOrdinary
  returned _ := trivial
  lookup _ _ _ := fun _ _ => trivial
  newClosure _ _ grown _ := ⟨grown.of_frames_eq rfl, trivial⟩
  assign name grown inside _ := grown.assign inside name _
  enter grown _ _ := ⟨grown.enter _ _, .inr grown.size_le⟩
  printLine _ grown := grown.of_frames_eq rfl

end Grown

end Store

theorem Value.frames_call (depth : Nat) (callee : Value) (arguments : List Value) (store : Store) :
    store.Grown (fun _ => False) ((Value.call depth callee arguments).runOn store).2 :=
  have all (v : Value) : v.All fun _ => True := fun _ _ => trivial
  (Value.call_keeps (Store.Grown.evalInvariant _ store) depth (all callee) (fun v _ => all v) store
    .refl).1

theorem Node.frames_run (depth : Nat) (scope : Scope) (node : Node) (store : Store) :
    store.Grown (· = scope.frame) (node.run depth scope store).2 := by
  have inside : scope.frame = scope.frame ∨ store.frames.size ≤ scope.frame := .inl rfl
  have inv := Store.Grown.evalInvariant (· = scope.frame) store
  exact (node.eval_keeps inv depth inside store .refl).1

/-! ### The frames around a frame -/

/-- If the scope is in one of the first `size` frames, `links` says which frames are around it. -/
def Scope.Linked (links : Nat → List Nat) (size : Nat) (scope : Scope) : Prop :=
  scope.frame < size → scope.outer = links scope.frame

/-- If the value is a function, its scope is linked. -/
def Value.Linked (links : Nat → List Nat) (size : Nat) : Value → Prop
  | .function f => f.scope.Linked links size
  | _ => True

section Linked

variable {links : Nat → List Nat} {size : Nat}

/-- Every function in a store with at least `size` frames has a linked scope. -/
def Store.Linked (links : Nat → List Nat) (size : Nat) (store : Store) : Prop :=
  size ≤ store.frames.size ∧ store.Holds (fun _ => True) (Value.Linked links size)

theorem Store.Linked.of_frames_eq {store store' : Store} (h : store.Linked links size)
    (same : store'.frames = store.frames) : store'.Linked links size :=
  ⟨by rw [same]; exact h.1, h.2.of_frames_eq same⟩

/-- New scopes are in new frames, so evaluation makes no scope that has to be linked. -/
theorem Store.Linked.evalInvariant (links : Nat → List Nat) (size : Nat) :
    EvalInvariant (Store.Linked links size) (Scope.Linked links size)
      (Value.Linked links size) where
  integer _ := trivial
  boolean _ := trivial
  null := trivial
  text _ := trivial
  array _ := trivial
  hash _ := trivial
  builtin _ := trivial
  returned _ := trivial
  lookup linked _ found := linked.2.lookup (fun _ _ => trivial) found
  newClosure _ _ linked inside := ⟨linked.of_frames_eq rfl, inside⟩
  assign _ linked _ good := ⟨by rw [size_assign]; exact linked.1, linked.2.assign good⟩
  enter {store f arguments} linked _ given := by
    have size_le : size ≤ (f.enter arguments store).2.frames.size := by
      rw [Store.size_enter]
      exact Nat.le_succ_of_le linked.1
    refine ⟨⟨size_le, linked.2.enter f given⟩, fun old => ?_⟩
    exact absurd linked.1 (Nat.not_le_of_lt old)
  printLine _ linked := linked.of_frames_eq rfl

theorem Value.linked_call (depth : Nat) {callee : Value} {arguments : List Value} {store : Store}
    (linked : store.Linked links size) (good : callee.All (Value.Linked links size))
    (given : ∀ v ∈ arguments, v.All (Value.Linked links size)) :
    ((Value.call depth callee arguments).runOn store).2.Linked links size ∧
      ∀ v, ((Value.call depth callee arguments).runOn store).1 = .ok v →
        v.All (Value.Linked links size) :=
  Value.call_keeps (Store.Linked.evalInvariant links size) depth good given store linked

theorem Node.linked_run (depth : Nat) {scope : Scope} (node : Node) {store : Store}
    (linked : store.Linked links size) (inside : scope.Linked links size) :
    (node.run depth scope store).2.Linked links size ∧
      ∀ v, (node.run depth scope store).1 = some v → v.All (Value.Linked links size) := by
  have inv := Store.Linked.evalInvariant links size
  obtain ⟨kept, good⟩ := node.eval_keeps inv depth inside store linked
  refine ⟨kept, fun v result => ?_⟩
  change Node.resultOf ((node.eval depth scope).runOn store).1 = some v at result
  cases outcome : ((node.eval depth scope).runOn store).1 with
  | error e =>
      rw [outcome] at result
      cases result
      rintro part ⟨⟩
      trivial
  | ok value =>
      rw [outcome] at result
      obtain ⟨u, rfl, rfl⟩ := Option.map_eq_some_iff.mp result
      exact inv.all_unwrap (good _ outcome u rfl)

end Linked

/-! ### Calls and runs -/

/-- **Existing frames stay as they are.**  A call of any value on any arguments changes no frame that
was there before it, however it ends.  A run of a tree changes none but that of its own scope, and
there it loses no name.  The frames around an old frame are the same before and after: if the links
describe every scope at the start, they still do at the end, in the store and in the result. -/
theorem existing_frames_unchanged (depth : Nat) (store : Store) (links : Nat → List Nat) :
    (∀ (callee : Value) (arguments : List Value),
      let (outcome, after) := (Value.call depth callee arguments).runOn store
      let old := Value.Linked links store.frames.size
      (∀ i < store.frames.size, after.frames[i]? = store.frames[i]?) ∧
      (store.Linked links store.frames.size → callee.All old → (∀ v ∈ arguments, v.All old) →
        after.Linked links store.frames.size ∧ ∀ v, outcome = .ok v → v.All old)) ∧
    ∀ (scope : Scope) (node : Node),
      let (result, after) := node.run depth scope store
      let old := Value.Linked links store.frames.size
      (∀ i < store.frames.size, i ≠ scope.frame → after.frames[i]? = store.frames[i]?) ∧
      store.namesAt scope.frame ⊆ after.namesAt scope.frame ∧
      (store.Linked links store.frames.size → scope.Linked links store.frames.size →
        after.Linked links store.frames.size ∧ ∀ v, result = some v → v.All old) := by
  refine ⟨fun callee arguments => ⟨fun i existing => ?_, fun linked good given => ?_⟩,
    fun scope node => ⟨fun i existing other => ?_, ?_, fun linked inside => ?_⟩⟩
  · exact (Value.frames_call depth callee arguments store).same i existing id
  · exact Value.linked_call depth linked good given
  · exact (node.frames_run depth scope store).same i existing other
  · exact (node.frames_run depth scope store).names scope.frame
  · exact node.linked_run depth linked inside

/-- `let y = f();` in a frame inside the one that binds `f` and `x`, where the body of `f` binds `x` as
well: the outer frame keeps its `x`. -/
theorem existing_frames_unchanged_shadowing_body :
    let f : Closure := ⟨0, [], [.bind "x" (.integer 2), .expr (.name "x")], ⟨0, []⟩⟩
    let store : Store := ⟨#[[("f", .function f), ("x", .integer 1)], []], 1, ""⟩
    let scope : Scope := ⟨1, [0]⟩
    let links : Nat → List Nat := fun i => if i = 1 then [0] else []
    let node : Node := .program [.bind "y" (.call (.name "f") [])]
    let after := (node.run 0 scope store).2
    store.Linked links 2 ∧ scope.Linked links 2 ∧ after.frames[0]? = store.frames[0]? ∧
      after.Linked links 2 := by
  intro f store scope links node after
  have linked : store.Linked links 2 := by
    refine ⟨Nat.le_refl 2, Store.holds_iff.mpr ?_⟩
    rintro v ⟨i, frame, name, found, mem⟩
    match i with
    | 0 =>
        cases found
        rcases List.mem_cons.mp mem with e | mem
        · cases e
          exact Value.all_function_iff.mpr fun _ => rfl
        · cases List.mem_singleton.mp mem
          rintro part ⟨⟩
          trivial
    | 1 =>
        cases found
        cases mem
    | i + 2 => cases found
  have inside : scope.Linked links 2 := fun _ => rfl
  have main := (existing_frames_unchanged 0 store links).2 scope node
  exact ⟨linked, inside, main.1 0 (by decide) (by decide), (main.2.2 linked inside).1⟩

end Marmoset
