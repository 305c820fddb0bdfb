import Mathlib.Algebra.Group.Nat.Defs
import Mathlib.Data.List.Forall2
import Mathlib.Tactic.Set
import Marmoset.Proofs.EvalRules

/-! # A function written in the language: `map`

The source `mapSource` defines `map`, which applies a function to every element of an array.  It
does so by a recursive function of its own, `iter`, which takes elements off one array and puts
their images at the end of another.  Each element takes one more call of `iter`, inside the one
before, and the function that is mapped is called inside that one.  So the length of the array
decides whether the limit on calls is reached (`iter_call`, by induction on the array; `map_call`).

What a call of `iter` relies on is that its scope still binds `iter` and `f` and none of the
built-in functions (`IterScope`).  No call takes this away, since calls leave the frames alone that
were there before them. -/

namespace Marmoset

/-! ### The source -/

/-- The definition of `map`. -/
def mapSource : String :=
  "let map = fn(arr, f) \x7b let iter = fn(arr, accumulated) \x7b " ++
  "if (len(arr) == 0) \x7b accumulated \x7d else \x7b " ++
  "iter(rest(arr), push(accumulated, f(first(arr)))); \x7d \x7d; " ++
  "iter(arr, []); \x7d;"

/-- What `iter` calls itself with. -/
def iterArguments : List Expr :=
  [.call (.name "rest") [.name "arr"], .call (.name "push") [.name "accumulated",
    .call (.name "f") [.call (.name "first") [.name "arr"]]]]

/-- The body of `iter`. -/
def iterBody : Block :=
  [.expr (.cond (.binary .equal (.call (.name "len") [.name "arr"]) (.integer 0))
    [.expr (.name "accumulated")] (some [.expr (.call (.name "iter") iterArguments)]))]

/-- The body of `map`. -/
def mapBody : Block :=
  [.bind "iter" (.function ["arr", "accumulated"] iterBody),
    .expr (.call (.name "iter") [.name "arr", .array []])]

set_option maxRecDepth 4000 in
theorem parseSource_mapSource :
    parseSource mapSource = ⟨[.bind "map" (.function ["arr", "f"] mapBody)], []⟩ := by
  -- the characters of short texts are cheaper to compute than those of a long one
  have pieces (a b c d : String) : (a ++ b ++ c ++ d).toList =
      a.toList ++ b.toList ++ c.toList ++ d.toList := by simp
  have characters : mapSource.toList = _ := pieces _ _ _ _
  rewrite [parseSource, TokenStream.ofSource, characters]
  with_unfolding_all rfl

/-- The function `iter` of a call of `map`. -/
def iterator (id : Nat) (s : Scope) : Closure :=
  ⟨id, ["arr", "accumulated"], iterBody, s⟩

/-- The function `map`. -/
def mapper (id : Nat) (s : Scope) : Closure :=
  ⟨id, ["arr", "f"], mapBody, s⟩

/-! ### Calls of `iter` -/

/-- Every call of `f` on `x` that is not refused gives `y`. -/
def Closure.Takes (f : Closure) (x y : Value) : Prop :=
  ∀ (d : Nat) (σ : Store), d < callLimit →
    ((Value.call d (.function f) [x]).runOn σ).1 = .ok y

/-- The scope binds what `iter` needs. -/
structure IterScope (f iter : Closure) (s : Scope) (σ : Store) : Prop where
  iter : σ.lookup s "iter" = some (.function iter)
  f : σ.lookup s "f" = some (.function f)
  builtin : ∀ b : Builtin, σ.lookup s b.name = none

theorem IterScope.grown {f iter : Closure} {s : Scope} {σ τ : Store} (h : IterScope f iter s σ)
    (there : ∀ i ∈ s.frames, i < σ.frames.size) (grown : σ.Grown (fun _ => False) τ) :
    IterScope f iter s τ where
  iter := (grown.lookup there (fun _ _ => id) _).trans h.iter
  f := (grown.lookup there (fun _ _ => id) _).trans h.f
  builtin b := (grown.lookup there (fun _ _ => id) _).trans (h.builtin b)

/-- A size is an integer of the language if it is less than `2 ^ 63`. -/
theorem exists_size {vs : List Value} (few : vs.length < 2 ^ 63) :
    ∃ n : Int64, Builtin.len.result [.array vs] = .ok (.integer n) ∧ (n = 0 ↔ vs = []) := by
  have range : Integer.ofSize? vs.length = some (Int64.ofInt vs.length) :=
    if_pos (Integer.inRange_iff.mpr ⟨by omega, by omega⟩)
  have value : (Int64.ofInt vs.length).toInt = vs.length := Integer.ofInt?_eq_some_iff.mp range
  refine ⟨Int64.ofInt vs.length, ?_, ?_⟩
  · rw [Builtin.result_of_length_eq rfl rfl, Builtin.apply, Builtin.size, requireSize, range]
    rfl
  · rw [← Int64.toInt_inj, value, ← List.length_eq_zero_iff]
    exact Int.natCast_eq_zero

theorem size_eq_error {vs : List Value} (many : ¬ vs.length < 2 ^ 63) :
    Builtin.len.result [.array vs] = .error .sizeOutOfRange := by
  have range : Integer.ofSize? vs.length = none :=
    if_neg (mt Integer.inRange_iff.mp (by omega))
  rw [Builtin.result_of_length_eq rfl rfl, Builtin.apply, Builtin.size, requireSize, range]
  rfl

section Iter

variable {d : Nat} {f iter : Closure} {s : Scope} {σ σ' : Store} {xs acc : List Value}

/-- The scope of a call of `iter` on the elements `xs`, with the images `acc`. -/
structure IterCall (f iter : Closure) (xs acc : List Value) (s : Scope) (σ : Store) : Prop
    extends IterScope f iter s σ where
  arr : σ.lookup s "arr" = some (.array xs)
  accumulated : σ.lookup s "accumulated" = some (.array acc)

theorem IterScope.enter {id : Nat} (h : IterScope f (iterator id s) s σ) (xs acc : List Value) :
    IterCall f (iterator id s) xs acc ((iterator id s).enter [.array xs, .array acc] σ).1
      ((iterator id s).enter [.array xs, .array acc] σ).2 where
  iter := (σ.lookup_enter_of_not_mem _ (by simp [iterator])).trans h.iter
  f := (σ.lookup_enter_of_not_mem _ (by simp [iterator])).trans h.f
  builtin b := by
    refine (σ.lookup_enter_of_not_mem _ ?_).trans (h.builtin b)
    cases b <;> simp [iterator, Builtin.name]
  arr := σ.lookup_parameter [] [("accumulated", .array acc)] rfl (by simp)
  accumulated := σ.lookup_parameter [("arr", .array xs)] [] rfl List.not_mem_nil

namespace IterCall

theorem runOn_arr (h : IterCall f iter xs acc s σ) :
    (Expr.evalAll d s [.name "arr"]).runOn σ = (.ok [.array xs], σ) :=
  Expr.runOn_evalAll_singleton (Expr.runOn_name h.arr)

/-- The comparison of the size with zero. -/
theorem runOn_test (h : IterCall f iter xs acc s σ) (few : xs.length < 2 ^ 63) (d : Nat) :
    ((Expr.binary .equal (.call (.name "len") [.name "arr"]) (.integer 0)).eval d s).runOn σ =
      (.ok (.boolean xs.isEmpty), σ) := by
  obtain ⟨n, result, zero⟩ := exists_size few
  have size := Expr.runOn_call_builtin (by decide) (h.builtin .len) (h.runOn_arr (d := d))
  rw [result] at size
  have empty : xs.isEmpty = (n == 0) := by
    rw [Bool.eq_iff_iff, List.isEmpty_iff, beq_iff_eq, zero]
  rw [empty]
  exact Expr.runOn_binary .equal size (Expr.runOn_integer d s 0 σ)

theorem runOn_body_nil (h : IterCall f iter [] acc s σ) (d : Nat) :
    (Stmt.execAll d s none iterBody).runOn σ = (.ok (some (.array acc)), σ) := by
  have branch := Stmt.runOn_execAll_expr none (Expr.runOn_name (d := d) h.accumulated)
  exact Stmt.runOn_execAll_expr none
    (Expr.runOn_cond_true (h.runOn_test (Nat.two_pow_pos 63) d) rfl branch)

/-- An array whose size is no integer stops `iter`. -/
theorem runOn_body_error (h : IterCall f iter xs acc s σ) (many : ¬ xs.length < 2 ^ 63) (d : Nat) :
    (Stmt.execAll d s none iterBody).runOn σ = (.error .sizeOutOfRange, σ) := by
  have size := Expr.runOn_call_builtin (by decide) (h.builtin .len) (h.runOn_arr (d := d))
  rw [size_eq_error many] at size
  exact Stmt.runOn_execAll_expr none (Expr.runOn_cond_error (Expr.runOn_binary_error size))

/-- The arguments of the next call, from the call of `f` that is made for them. -/
theorem runOn_arguments {x : Value} (h : IterCall f iter (x :: xs) acc s σ)
    {outcome : Except RuntimeError Value}
    (applied : (Value.call d (.function f) [x]).runOn σ = (outcome, σ')) :
    (Expr.evalAll d s iterArguments).runOn σ =
      (outcome.map fun y => [.array xs, .array (acc ++ [y])], σ') := by
  have rest := Expr.runOn_call_builtin (by decide) (h.builtin .rest) (h.runOn_arr (d := d))
  have first := Expr.runOn_call_builtin (by decide) (h.builtin .first) (h.runOn_arr (d := d))
  have image := (Expr.runOn_call (Expr.runOn_name (d := d) h.f)
    (Expr.runOn_evalAll_singleton first)).trans applied
  have given := Expr.runOn_evalAll_cons (Expr.runOn_name (d := d) h.accumulated)
    (Expr.runOn_evalAll_singleton image)
  cases outcome with
  | error e =>
    have failed := Expr.runOn_call_error (Expr.runOn_builtin (h.builtin .push)) given
    exact Expr.runOn_evalAll_cons rest (Expr.runOn_evalAll_singleton failed)
  | ok y =>
    have longer := Expr.runOn_call_builtin (by decide) (h.builtin .push) given
    exact Expr.runOn_evalAll_cons rest (Expr.runOn_evalAll_singleton longer)

/-- With elements left, `iter` calls itself. -/
theorem runOn_body_of_next {x : Value} (h : IterCall f iter (x :: xs) acc s σ)
    (few : (x :: xs).length < 2 ^ 63) {outcome : Except RuntimeError Value}
    (next : ((Expr.call (.name "iter") iterArguments).eval d s).runOn σ = (outcome, σ')) :
    (Stmt.execAll d s none iterBody).runOn σ = (outcome.map some, σ') := by
  refine (Stmt.runOn_execAll_expr none (Expr.runOn_cond_false (h.runOn_test few d) rfl
    (Stmt.runOn_execAll_expr none next))).trans ?_
  cases outcome <;> rfl

end IterCall

theorem iterator_call_refused {id : Nat} (limit : ¬ d < callLimit) (xs acc : Value) (σ : Store) :
    (Value.call d (.function (iterator id s)) [xs, acc]).runOn σ =
      (.error (.callLimit callLimit), σ) :=
  Value.runOn_call_refused (f := iterator id s) rfl limit σ

/-- **What `iter` gives.**  It appends the images of the elements, in their order, if the calls that
this takes are allowed: one for each element inside the first. -/
theorem iter_call {id : Nat} {ys : List Value} (takes : List.Forall₂ f.Takes xs ys)
    (single : f.parameters.length = 1) (few : xs.length < 2 ^ 63) (d : Nat)
    (bound : IterScope f (iterator id s) s σ) (there : ∀ i ∈ s.frames, i < σ.frames.size)
    (acc : List Value) :
    ∃ σ', (Value.call d (.function (iterator id s)) [.array xs, .array acc]).runOn σ =
      (if d + xs.length < callLimit then .ok (.array (acc ++ ys))
        else .error (.callLimit callLimit), σ') := by
  induction takes generalizing d acc σ with
  | nil =>
    rw [List.append_nil, List.length_nil, Nat.add_zero]
    by_cases below : d < callLimit
    · rw [if_pos below]
      exact ⟨_, Value.runOn_call_function (f := iterator id s) rfl below
        ((bound.enter [] acc).runOn_body_nil (d + 1))⟩
    · rw [if_neg below]
      exact ⟨σ, iterator_call_refused below _ _ σ⟩
  | @cons x y xs ys takes _ ih =>
    by_cases below : d < callLimit
    · -- the frames of the scope are older than the call, and than the call of `f` in it
      set τ := ((iterator id s).enter [.array (x :: xs), .array acc] σ).2
      have entered := bound.enter (x :: xs) acc
      have opened : σ.Grown (fun _ => False) τ := Store.Grown.refl.enter _ _
      by_cases room : d + 1 < callLimit
      · rcases applied : (Value.call (d + 1) (.function f) [x]).runOn τ with ⟨outcome, τ₁⟩
        have image : outcome = .ok y := by
          rw [← takes (d + 1) τ room, applied]
        subst image
        have older : ∀ i ∈ s.frames, i < τ.frames.size := fun i mem =>
          Nat.lt_of_lt_of_le (there i mem) opened.size_le
        have called : τ.Grown (fun _ => False) τ₁ := by
          have grown := Value.frames_call (d + 1) (.function f) [x] τ
          rwa [applied] at grown
        obtain ⟨σ', next⟩ := ih (Nat.lt_of_succ_lt few) (d + 1)
          ((bound.grown there opened).grown older called)
          (fun i mem => Nat.lt_of_lt_of_le (older i mem) called.size_le) (acc ++ [y])
        have body := entered.runOn_body_of_next few
          ((Expr.runOn_call (Expr.runOn_name entered.iter) (entered.runOn_arguments applied)).trans
            next)
        refine ⟨σ', (Value.runOn_call_function (f := iterator id s) rfl below body).trans ?_⟩
        rw [List.append_assoc, List.singleton_append, List.length_cons, Nat.add_assoc d 1,
          Nat.add_comm 1]
        split <;> rfl
      · have count : [x].length = f.parameters.length := single.symm
        have refused := Value.runOn_call_refused count room τ
        have body := entered.runOn_body_of_next few
          (Expr.runOn_call_error (Expr.runOn_name entered.iter) (entered.runOn_arguments refused))
        rw [if_neg (by rw [List.length_cons]; omega)]
        exact ⟨τ, Value.runOn_call_function (f := iterator id s) rfl below body⟩
    · rw [if_neg (by omega)]
      exact ⟨σ, iterator_call_refused below _ _ σ⟩

/-- An array whose size is no integer is an error from the first call on. -/
theorem iter_call_error {id : Nat} (bound : IterScope f (iterator id s) s σ)
    (many : ¬ xs.length < 2 ^ 63) (below : d < callLimit) (acc : List Value) :
    ∃ σ', (Value.call d (.function (iterator id s)) [.array xs, .array acc]).runOn σ =
      (.error .sizeOutOfRange, σ') :=
  ⟨_, Value.runOn_call_function (f := iterator id s) rfl below
    ((bound.enter xs acc).runOn_body_error many (d + 1))⟩

end Iter

/-! ### Calls of `map` -/

/-- What `map` gives for an array of `n` elements with the images `ys`, when `d` calls are active.
-/
def mapOutcome (d n : Nat) (ys : List Value) : Except RuntimeError Value :=
  if d + 1 + n < callLimit then .ok (.array ys)
  else if n < 2 ^ 63 then .error (.callLimit callLimit)
  else .error .sizeOutOfRange

section Map

variable {d id : Nat} {f : Closure} {s : Scope} {σ : Store} {xs ys : List Value}

/-- The store when `iter` has been defined in a scope that binds `f`. -/
def Store.withIter (σ : Store) (s : Scope) : Store :=
  (σ.newClosure ["arr", "accumulated"] iterBody s).2.assign s "iter"
    (.function (iterator σ.closures s))

theorem lookup_withIter {name : String} (ne : name ≠ "iter") :
    (σ.withIter s).lookup s name = σ.lookup s name :=
  Store.lookup_assign_of_ne _ s s (Ne.symm ne) _

theorem iterScope_withIter (here : s.frame < σ.frames.size)
    (bound : σ.lookup s "f" = some (.function f))
    (unbound : ∀ b : Builtin, σ.lookup s b.name = none) :
    IterScope f (iterator σ.closures s) s (σ.withIter s) where
  iter := Store.lookup_assign_self here _ _
  f := (lookup_withIter (by decide)).trans bound
  builtin b := by
    refine (lookup_withIter ?_).trans (unbound b)
    cases b <;> decide

/-- **What `map` gives.**  The images of the elements in their order, if there is room for one call
more than there are elements. -/
theorem map_call (takes : List.Forall₂ f.Takes xs ys) (single : f.parameters.length = 1)
    (below : d + 1 < callLimit) (unbound : ∀ b : Builtin, σ.lookup s b.name = none)
    (there : ∀ i ∈ s.frames, i < σ.frames.size) :
    ∃ σ', (Value.call d (.function (mapper id s)) [.array xs, .function f]).runOn σ =
      (mapOutcome d xs.length ys, σ') := by
  set t := ((mapper id s).enter [.array xs, .function f] σ).1
  set τ := ((mapper id s).enter [.array xs, .function f] σ).2
  have size : τ.frames.size = σ.frames.size + 1 := σ.size_enter _ _
  have scope : ∀ i ∈ t.frames, i < (τ.withIter t).frames.size := by
    intro i mem
    rw [Store.withIter, Store.size_assign]
    change i < τ.frames.size
    rcases List.mem_cons.mp mem with rfl | mem
    · rw [size]
      exact Nat.lt_succ_self _
    · exact size ▸ Nat.lt_succ_of_lt (there i mem)
  have arr : τ.lookup t "arr" = some (.array xs) :=
    σ.lookup_parameter [] [("f", .function f)] rfl (by simp)
  have bound : IterScope f (iterator τ.closures t) t (τ.withIter t) := by
    refine iterScope_withIter (size ▸ Nat.lt_succ_self _)
      (σ.lookup_parameter [("arr", .array xs)] [] rfl List.not_mem_nil) fun b => ?_
    refine (σ.lookup_enter_of_not_mem _ ?_).trans (unbound b)
    cases b <;> simp [mapper, Builtin.name]
  have given : (Expr.evalAll (d + 1) t [.name "arr", .array []]).runOn (τ.withIter t) =
      (.ok [.array xs, .array []], τ.withIter t) :=
    Expr.runOn_evalAll_cons (Expr.runOn_name ((lookup_withIter (by decide)).trans arr))
      (Expr.runOn_evalAll_singleton (Expr.runOn_array (Expr.runOn_evalAll_nil (d + 1) t _)))
  have call := Expr.runOn_call (Expr.runOn_name bound.iter) given
  obtain ⟨σ', iterated⟩ : ∃ σ', (Value.call (d + 1) (.function (iterator τ.closures t))
      [.array xs, .array []]).runOn (τ.withIter t) = (mapOutcome d xs.length ys, σ') := by
    by_cases few : xs.length < 2 ^ 63
    · obtain ⟨σ', iterated⟩ := iter_call takes single few (d + 1) bound scope []
      refine ⟨σ', iterated.trans ?_⟩
      rw [mapOutcome, if_pos few, List.nil_append]
    · obtain ⟨σ', stopped⟩ := iter_call_error bound few below []
      refine ⟨σ', stopped.trans ?_⟩
      have many : ¬ d + 1 + xs.length < callLimit := by
        have limit : callLimit < 2 ^ 63 := by decide
        omega
      rw [mapOutcome, if_neg many, if_neg few]
  have body := (Stmt.runOn_execAll_bind none
    (Expr.runOn_function (d + 1) t ["arr", "accumulated"] iterBody τ)).trans
      (Stmt.runOn_execAll_expr none (call.trans iterated))
  refine ⟨σ', (Value.runOn_call_function (f := mapper id s) rfl (Nat.lt_of_succ_lt below)
    body).trans ?_⟩
  unfold mapOutcome
  repeat' split
  all_goals rfl

end Map

/-! ### Doubling -/

/-- A call of `map` with a function that doubles. -/
def doubleSource : String :=
  "map(xs, fn(x) \x7b x * 2 \x7d)"

def doubleBody : Block :=
  [.expr (.binary .mul (.name "x") (.integer 2))]

/-- The function that doubles. -/
def doubler (id : Nat) (s : Scope) : Closure :=
  ⟨id, ["x"], doubleBody, s⟩

theorem parseSource_doubleSource :
    parseSource doubleSource =
      ⟨[.expr (.call (.name "map") [.name "xs", .function ["x"] doubleBody])], []⟩ := by
  with_unfolding_all rfl

/-- Doubling wraps around. -/
theorem doubler_takes (id : Nat) (s : Scope) (n : Int64) :
    (doubler id s).Takes (.integer n) (.integer (Int64.ofInt (2 * n.toInt))) := by
  intro d σ below
  have argument : ((doubler id s).enter [.integer n] σ).2.lookup
      ((doubler id s).enter [.integer n] σ).1 "x" = some (.integer n) :=
    σ.lookup_parameter [] [] rfl List.not_mem_nil
  have product := Expr.runOn_binary .mul (Expr.runOn_name argument)
    (Expr.runOn_integer (d + 1) _ 2 _)
  have wrapped : Int64.ofInt (2 * n.toInt) = n * 2 := by
    rw [Int64.ofInt_mul, Int64.ofInt_toInt, Int64.mul_comm]
    rfl
  rw [Value.runOn_call_function (f := doubler id s) rfl below
    (Stmt.runOn_execAll_expr none product), wrapped]
  rfl

/-- Mapping the function that doubles over the integers bound to `xs` gives the doubled integers, or
an error if there are too many, and leaves `xs` as it is. -/
structure DoublesAll (scope : Scope) (ns : List Int64) (σ : Store) : Prop where
  result : (runSource 0 scope doubleSource σ).1 = .ok (some
    (if ns.length ≤ 9998 then .array (ns.map fun n => .integer (Int64.ofInt (2 * n.toInt)))
      else if ns.length < 2 ^ 63 then .error (.callLimit callLimit)
      else .error .sizeOutOfRange))
  unchanged : (runSource 0 scope doubleSource σ).2.lookup scope "xs" =
    some (.array (ns.map .integer))

theorem doublesAll_of_lookup (id : Nat) {scope : Scope} {ns : List Int64} {σ : Store}
    (there : ∀ i ∈ scope.frames, i < σ.frames.size)
    (defined : σ.lookup scope "map" = some (.function (mapper id scope)))
    (given : σ.lookup scope "xs" = some (.array (ns.map .integer)))
    (unbound : ∀ b : Builtin, σ.lookup scope b.name = none) : DoublesAll scope ns σ := by
  set f := doubler σ.closures scope
  set images := ns.map fun n => Value.integer (Int64.ofInt (2 * n.toInt))
  set τ := (σ.newClosure ["x"] doubleBody scope).2
  have takes : List.Forall₂ f.Takes (ns.map .integer) images := by
    rw [List.forall₂_map_left_iff, List.forall₂_map_right_iff, List.forall₂_same]
    exact fun n _ => doubler_takes σ.closures scope n
  obtain ⟨after, mapped⟩ : ∃ after, (Value.call 0 (.function (mapper id scope))
      [.array (ns.map .integer), .function f]).runOn τ = (mapOutcome 0 _ images, after) :=
    map_call takes rfl (by decide) unbound there
  have grown : τ.Grown (fun _ => False) after := by
    have grown := Value.frames_call 0 (.function (mapper id scope))
      [.array (ns.map .integer), .function f] τ
    rwa [mapped] at grown
  have arguments := Expr.runOn_evalAll_cons (Expr.runOn_name given)
    (Expr.runOn_evalAll_singleton (Expr.runOn_function 0 scope ["x"] doubleBody σ))
  have run := runSource_of_parseSource parseSource_doubleSource (Stmt.runOn_execAll_expr none
    ((Expr.runOn_call (Expr.runOn_name defined) arguments).trans mapped))
  have room : 0 + 1 + ns.length < callLimit ↔ ns.length ≤ 9998 := by
    unfold callLimit
    omega
  constructor
  · rw [run, mapOutcome, List.length_map]
    simp only [room]
    repeat' split
    all_goals rfl
  · rw [run, grown.lookup there (fun _ _ => not_false)]
    exact given

theorem runSource_mapSource (scope : Scope) (σ : Store) :
    runSource 0 scope mapSource σ = (.ok none,
      (σ.newClosure ["arr", "f"] mapBody scope).2.assign scope "map"
        (.function (mapper σ.closures scope))) := by
  have executed : (Stmt.execAll 0 scope none
      [.bind "map" (.function ["arr", "f"] mapBody)]).runOn σ =
      (.ok none, (σ.newClosure ["arr", "f"] mapBody scope).2.assign scope "map"
        (.function (mapper σ.closures scope))) := by
    rw [Stmt.runOn_execAll_bind none (Expr.runOn_function 0 scope _ _ σ), Stmt.execAll,
      Eval.runOn_pure]
    rfl
  exact runSource_of_parseSource parseSource_mapSource executed

/-- **`map` applies a function to every element.**  In a new scope, with the definition of `map` run
and with `xs` bound to integers, after the definition or before it: mapping the function that
doubles over `xs` gives the doubled integers, wrapped around, in the same order if there are at most
9998 of them, and the error of a refused call if there are more.  (An array of `2 ^ 63` elements
would have no size in the language, which is the error then.)  In every case `xs` stays as it is. -/
theorem map_doubles (store : Store) (ns : List Int64) :
    let scope := store.newScope.1
    let opened := store.newScope.2
    let xs : Value := .array (ns.map .integer)
    let (defined, σ) := runSource 0 scope mapSource opened
    let (defined', σ') := runSource 0 scope mapSource (opened.assign scope "xs" xs)
    defined = .ok none ∧ DoublesAll scope ns (σ.assign scope "xs" xs) ∧
      defined' = .ok none ∧ DoublesAll scope ns σ' := by
  intro scope opened xs
  -- the runs are rewritten first: to take their results apart would be to compute them
  rw [runSource_mapSource, runSource_mapSource]
  have there : ∀ i ∈ scope.frames, i < opened.frames.size := by
    intro i mem
    rw [List.mem_singleton.mp mem]
    simp [scope, opened, Store.newScope, Store.openFrame]
  have fresh (b : Builtin) : opened.lookup scope b.name = none := store.lookup_newScope b.name
  have here : scope.frame < opened.frames.size := there _ List.mem_cons_self
  have other (b : Builtin) : "map" ≠ b.name ∧ "xs" ≠ b.name := by cases b <;> decide
  refine ⟨rfl, ?_, rfl, ?_⟩
  · refine doublesAll_of_lookup opened.closures (by simpa [Store.newClosure] using there)
      ?_ ?_ fun b => ?_
    · rw [Store.lookup_assign_of_ne _ scope scope (by decide)]
      exact Store.lookup_assign_self here _ _
    · exact Store.lookup_assign_self (by simpa [Store.newClosure] using here) _ _
    · rw [Store.lookup_assign_of_ne _ scope scope (other b).2,
        Store.lookup_assign_of_ne _ scope scope (other b).1]
      exact fresh b
  · refine doublesAll_of_lookup opened.closures (by simpa [Store.newClosure] using there)
      ?_ ?_ fun b => ?_
    · exact Store.lookup_assign_self (by simpa [Store.newClosure] using here) _ _
    · rw [Store.lookup_assign_of_ne _ scope scope (by decide)]
      exact Store.lookup_assign_self here _ _
    · rw [Store.lookup_assign_of_ne _ scope scope (other b).1]
      exact (opened.lookup_assign_of_ne scope scope (other b).2 _).trans (fresh b)

end Marmoset
