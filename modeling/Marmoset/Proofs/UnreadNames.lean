import Marmoset.Proofs.Reach
import Marmoset.Proofs.Termination
import Marmoset.Proofs.TwoRuns

/-! # Names that are not read

A name that neither a program nor a function in its reach reads cannot influence it.
`Store.without` takes a name out of all frames, and two stores that are the same without it are the
same to a run that does not read it: look-ups of other names, calls, new functions and printing
cannot tell them apart, and binding the name again makes no difference (`unreadSimulation`). -/

namespace Marmoset

/-! ### Tables without a key -/

namespace Table

variable {κ α : Type} [DecidableEq κ]

/-- All entries but those of one key. -/
def without (k : κ) (t : Table κ α) : Table κ α :=
  t.filter fun entry => entry.1 ≠ k

theorem without_cons (k : κ) (entry : κ × α) (t : Table κ α) :
    without k (entry :: t) = if entry.1 = k then without k t else entry :: without k t := by
  by_cases dropped : entry.1 = k <;> simp [without, dropped]

theorem get?_without {k k' : κ} (other : k' ≠ k) (t : Table κ α) :
    get? (without k t) k' = get? t k' := by
  induction t with
  | nil => rfl
  | cons entry t ih =>
      obtain ⟨k₁, v₁⟩ := entry
      rw [without_cons]
      by_cases dropped : k₁ = k
      · have skipped : k₁ ≠ k' := fun same => other (same.symm.trans dropped)
        rw [if_pos dropped, ih, get?, if_neg skipped]
      · rw [if_neg dropped, get?, get?, ih]

theorem without_insert_self (k : κ) (v : α) (t : Table κ α) :
    without k (insert t k v) = without k t := by
  induction t with
  | nil => simp [insert, without]
  | cons entry t ih =>
      obtain ⟨k₁, v₁⟩ := entry
      by_cases here : k₁ = k
      · simp [insert, here, without_cons]
      · simp [insert, here, without_cons, ih]

theorem without_insert_of_ne {k k' : κ} (other : k' ≠ k) (v : α) (t : Table κ α) :
    without k (insert t k' v) = insert (without k t) k' v := by
  induction t with
  | nil => simp [insert, without, other]
  | cons entry t ih =>
      obtain ⟨k₁, v₁⟩ := entry
      by_cases dropped : k₁ = k
      · simp [insert, dropped, other.symm, without_cons, ih]
      · by_cases here : k₁ = k'
        · simp [insert, here, other, without_cons]
        · simp [insert, here, dropped, without_cons, ih]

end Table

/-! ### Stores without a name -/

namespace Store

variable {name : String}

/-- The store with a name taken out of all frames. -/
def without (name : String) (σ : Store) : Store :=
  { σ with frames := σ.frames.map (Table.without name) }

@[simp] theorem size_without (σ : Store) : (σ.without name).frames.size = σ.frames.size := by
  simp [without]

theorem getElem?_without (σ : Store) (i : Nat) :
    (σ.without name).frames[i]? = σ.frames[i]?.map (Table.without name) := by
  simp [without]

theorem lookup_without (σ : Store) (s : Scope) {x : String} (other : x ≠ name) :
    (σ.without name).lookup s x = σ.lookup s x := by
  unfold lookup
  congr 1
  funext i
  rw [getElem?_without]
  cases σ.frames[i]? with
  | none => rfl
  | some frame => exact Table.get?_without other frame

theorem without_assign_self (σ : Store) (s : Scope) (v : Value) :
    (σ.assign s name v).without name = σ.without name := by
  have frames : (σ.assign s name v).frames.map (Table.without name) =
      σ.frames.map (Table.without name) := by
    refine Array.ext_getElem? fun i => ?_
    rw [Array.getElem?_map, getElem?_assign, Array.getElem?_map]
    split
    · rw [Option.map_map]
      exact congrArg (Option.map · _) (funext (Table.without_insert_self name v))
    · rfl
  rw [without, frames]
  rfl

theorem without_assign_of_ne (σ : Store) (s : Scope) {x : String} (other : x ≠ name) (v : Value) :
    (σ.assign s x v).without name = (σ.without name).assign s x v := by
  have frames : (σ.assign s x v).frames.map (Table.without name) =
      ((σ.without name).assign s x v).frames := by
    refine Array.ext_getElem? fun i => ?_
    rw [Array.getElem?_map, getElem?_assign, getElem?_assign, getElem?_without]
    split
    · rw [Option.map_map, Option.map_map]
      exact congrArg (Option.map · _) (funext (Table.without_insert_of_ne other v))
    · rfl
  rw [without, frames]
  rfl

theorem without_openFrame (σ : Store) (outer : List Nat) :
    (σ.openFrame outer).2.without name = ((σ.without name).openFrame outer).2 := by
  simp only [without, openFrame, Array.map_push]
  rfl

/-! ### Stores that differ in one name -/

variable {σ τ : Store}

theorem size_eq_of_without_eq (same : σ.without name = τ.without name) :
    σ.frames.size = τ.frames.size := by
  rw [← size_without σ, same, size_without]

theorem closures_eq_of_without_eq (same : σ.without name = τ.without name) :
    σ.closures = τ.closures :=
  (mk.inj same).2.1

theorem output_eq_of_without_eq (same : σ.without name = τ.without name) : σ.output = τ.output :=
  (mk.inj same).2.2

theorem without_assign_congr (same : σ.without name = τ.without name) (s : Scope) (x : String)
    (v : Value) : (σ.assign s x v).without name = (τ.assign s x v).without name := by
  by_cases own : x = name
  · subst own
    rw [without_assign_self, without_assign_self, same]
  · rw [without_assign_of_ne σ s own, without_assign_of_ne τ s own, same]

theorem without_assignAll_congr (same : σ.without name = τ.without name) (s : Scope)
    (bindings : List (String × Value)) :
    (σ.assignAll s bindings).without name = (τ.assignAll s bindings).without name := by
  induction bindings generalizing σ τ with
  | nil => exact same
  | cons entry bindings ih => exact ih (without_assign_congr same s entry.1 entry.2)

/-- A call opens the same scope in both stores and binds its parameters alike. -/
theorem without_enter_congr (same : σ.without name = τ.without name) (f : Closure)
    (arguments : List Value) :
    (f.enter arguments σ).1 = (f.enter arguments τ).1 ∧
      (f.enter arguments σ).2.without name = (f.enter arguments τ).2.without name := by
  have scope : (σ.enclose f.scope).1 = (τ.enclose f.scope).1 :=
    congrArg (Scope.mk · f.scope.frames) (size_eq_of_without_eq same)
  refine ⟨scope, ?_⟩
  simp only [Closure.enter, scope]
  refine without_assignAll_congr ?_ _ _
  rw [enclose, enclose, without_openFrame, without_openFrame, same]

end Store

/-! ### Runs that do not read the name -/

variable {name : String} {view : View}

/-- If a function, then one that does not read the name and has a visible scope. -/
def Value.Avoids (name : String) (view : View) : Value → Prop
  | .function f => Stmt.anyReads name f.body = false ∧ view.Shows f.scope
  | _ => True

theorem Value.avoids_wrappable : Wrappable (Value.Avoids name view) := by
  constructor
  · constructor <;> intros <;> trivial
  · exact fun _ => trivial

/-- The stores are the same without the name.  In the second one all functions that a run can get to
avoid it; what the first binds it to may be anything. -/
structure Store.SameWithout (name : String) (view : View) (σ τ : Store) : Prop where
  same : σ.without name = τ.without name
  holds : τ.Holds view.visible (Value.Avoids name view)
  size : view.base ≤ τ.frames.size

/-- Nothing that a run does tells such stores apart, as long as it does not read the name. -/
theorem unreadSimulation :
    EvalSimulation (Store.SameWithout name view) (· ≠ name) view.Shows
      (Value.Avoids name view) where
  toWrappable := Value.avoids_wrappable
  body := by
    rintro f x ⟨unread, -⟩ reads rfl
    rw [unread] at reads
    cases reads
  lookup := by
    intro σ τ s x start seen other
    refine ⟨?_, fun v found => start.holds.lookup seen found⟩
    rw [← σ.lookup_without s other, start.same, τ.lookup_without s other]
  newClosure := by
    intro σ τ s body parameters start seen unread
    refine ⟨?_, ⟨?_, ?_, start.size⟩, ?_, seen⟩
    · rw [Store.newClosure, Store.newClosure, Store.closures_eq_of_without_eq start.same]
    · exact congrArg (fun ρ => (ρ.newClosure parameters body s).2) start.same
    · exact start.holds.of_frames_eq rfl
    · exact Bool.eq_false_iff.mpr fun reads => unread name reads rfl
  assign := by
    intro σ τ s v x start seen good
    refine ⟨Store.without_assign_congr start.same s x v, start.holds.assign good, ?_⟩
    rw [Store.size_assign]
    exact start.size
  enter := by
    rintro σ τ f arguments start ⟨-, closed⟩ given
    obtain ⟨scope, same⟩ := Store.without_enter_congr start.same f arguments
    refine ⟨scope, ⟨same, start.holds.enter f given, ?_⟩, closed.enter arguments start.size⟩
    rw [Store.size_enter]
    exact Nat.le_succ_of_le start.size
  printLine := by
    intro σ τ line start
    refine ⟨?_, start.holds.of_frames_eq rfl, start.size⟩
    exact congrArg (fun ρ => ρ.printLine line) start.same

/-- No function that can be reached from the scope reads the name. -/
def Store.UnreadInReach (σ : Store) (s : Scope) (name : String) : Prop :=
  ∀ v f, σ.BindsInReach s v → Value.Within (.function f) v → Stmt.anyReads name f.body = false

theorem Store.UnreadInReach.sameWithout {s : Scope} {σ τ : Store} (unread : τ.UnreadInReach s name)
    (same : σ.without name = τ.without name) : σ.SameWithout name (τ.reach s) τ := by
  refine ⟨same, holds_reach fun v part bound within closed => ?_, Nat.le_refl _⟩
  cases part with
  | function f => exact ⟨unread v f bound within, closed f rfl⟩
  | _ => trivial

/-- **A name that is not read has no influence.**  Let a tree read a name nowhere, and no function
that can be reached from its scope either.  Binding the name in the scope beforehand, to whatever
value, changes neither the result of the tree, which may be an error, nor what it prints, nor what
any frame binds any other name to afterwards. -/
theorem unread_name_irrelevant (node : Node) (name : String) (v : Value) (s : Scope) (σ : Store)
    (d : Nat) (unread : node.reads name = false) (environment : σ.UnreadInReach s name) :
    let (result, after) := node.run d s σ
    let (result', after') := node.run d s (σ.assign s name v)
    result' = result ∧ after'.output = after.output ∧ after'.without name = after.without name := by
  have readable : ∀ x, node.reads x = true → x ≠ name := by
    rintro x reads rfl
    rw [unread] at reads
    cases reads
  have start := environment.sameWithout (σ.without_assign_self s v)
  obtain ⟨result, after⟩ :=
    node.run_matches unreadSimulation d (σ.shows_reach s) readable start
  exact ⟨result, Store.output_eq_of_without_eq after.same, after.same⟩

/-- In a store with `fn(x) { puts(x); x + k }` bound to `f` and `1` to `k`, the program `let r =
f(2); r` gives 3, binds `r` and prints 2.  It does the same if `z` is bound to a function that reads
`z` itself. -/
theorem unread_name_irrelevant_recursive_function :
    let f : Closure := ⟨0, ["x"], [.expr (.call (.name "puts") [.name "x"]),
      .expr (.binary .add (.name "x") (.name "k"))], ⟨0, []⟩⟩
    let z : Closure := ⟨1, [], [.expr (.call (.name "z") [])], ⟨0, []⟩⟩
    let σ : Store := ⟨#[[("f", .function f), ("k", .integer 1)]], 2, ""⟩
    let program : Program := [.bind "r" (.call (.name "f") [.integer 2]), .expr (.name "r")]
    let (result, after) := (Node.program program).run 0 ⟨0, []⟩ (σ.assign ⟨0, []⟩ "z" (.function z))
    (Node.program program).reads "z" = false ∧ σ.UnreadInReach ⟨0, []⟩ "z" ∧
      σ.BindsInReach ⟨0, []⟩ (.function f) ∧ result = some (.integer 3) ∧ after.output = "2\n" ∧
      after.without "z" = ⟨#[[("f", .function f), ("k", .integer 1), ("r", .integer 3)],
        [("x", .integer 2)]], 2, "2\n"⟩ := by
  intro f z σ program
  have unread : (Node.program program).reads "z" = false := by decide
  have environment : σ.UnreadInReach ⟨0, []⟩ "z" := by
    intro v g bound within
    obtain ⟨name, mem⟩ := bound.binds.of_single_frame
    rcases List.mem_cons.mp mem with same | mem
    · cases same
      cases within
      decide
    · cases List.mem_singleton.mp mem
      cases within
  let σ' : Store :=
    ⟨#[[("f", .function f), ("k", .integer 1), ("r", .integer 3)], [("x", .integer 2)]], 2, "2\n"⟩
  have binding : ((Stmt.bind "r" (.call (.name "f") [.integer 2])).exec 0 ⟨0, []⟩).runOn σ =
      (.ok none, σ') := (Stmt.perform_settles _ _ _).runOn_eq 12 fun _ => rfl
  have reading : ((Stmt.expr (.name "r")).exec 0 ⟨0, []⟩).runOn σ' =
      (.ok (some (.integer 3)), σ') :=
    (Stmt.perform_settles _ _ _).runOn_eq 3 fun _ => rfl
  have run : (Node.program program).run 0 ⟨0, []⟩ σ = (some (.integer 3), σ') := by
    rw [Node.run, Node.eval, Stmt.runOn_execAll_cons binding rfl,
      Stmt.runOn_execAll_cons reading rfl, Stmt.execAll]
    rfl
  have main := unread_name_irrelevant (.program program) "z" (.function z) ⟨0, []⟩ σ 0 unread
    environment
  rw [run] at main
  obtain ⟨result, output, after⟩ := main
  refine ⟨unread, environment, ?_, result, output, after.trans ?_⟩
  · exact ⟨0, _, "f", .own List.mem_cons_self, rfl, List.mem_cons_self⟩
  · simp [Store.without, Table.without, σ']

end Marmoset
