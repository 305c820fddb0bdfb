import Mathlib.Tactic.Set
import Marmoset.Proofs.EvalRules

/-! # Where recursion ends

The function `f` of `let f = fn(n) { if (n == 0) { 0 } else { 1 + f(n - 1) } }` counts its argument
down to zero, one call inside the other, and adds the ones up again on the way back.  With `n` as
argument this takes `n + 1` calls, so the number of calls still allowed decides which arguments it
gets through: those from zero to one less than that number (`counter_call`).  A negative argument
only reaches zero after it has wrapped around, which is far beyond any limit on calls.

The argument is an induction on the calls still allowed.  `runOn_call_counter_zero` and
`runOn_call_counter_succ` are its steps: what a call does itself, and what it makes of the call that
it makes. -/

namespace Marmoset

/-- The definition of `f`, and a call of it. -/
def countSource : String :=
  "let f = fn(n) \x7b if (n == 0) \x7b 0 \x7d else \x7b 1 + f(n - 1) \x7d \x7d; f(m)"

/-- The body of `f`. -/
def countBody : Block :=
  [.expr (.cond (.binary .equal (.name "n") (.integer 0)) [.expr (.integer 0)]
    (some [.expr (.binary .add (.integer 1)
      (.call (.name "f") [.binary .sub (.name "n") (.integer 1)]))]))]

/-- The function that the definition makes in a scope. -/
def counter (id : Nat) (scope : Scope) : Closure :=
  ⟨id, ["n"], countBody, scope⟩

theorem parseSource_countSource :
    parseSource countSource =
      ⟨[.bind "f" (.function ["n"] countBody), .expr (.call (.name "f") [.name "m"])], []⟩ := by
  with_unfolding_all rfl

/-! ### One call -/

section Call

variable {d id : Nat} {scope : Scope} {σ σ' : Store} {n : Int64}

/-- Inside a call, `n` is the argument. -/
theorem lookup_counter_argument (id : Nat) (scope : Scope) (n : Int64) (σ : Store) :
    ((counter id scope).enter [.integer n] σ).2.lookup
      ((counter id scope).enter [.integer n] σ).1 "n" = some (.integer n) :=
  σ.lookup_parameter [] [] rfl List.not_mem_nil

/-- The comparison of the argument with zero. -/
theorem runOn_count_test {s : Scope} (d : Nat) (argument : σ.lookup s "n" = some (.integer n)) :
    ((Expr.binary .equal (.name "n") (.integer 0)).eval d s).runOn σ =
      (.ok (.boolean (n == 0)), σ) :=
  Expr.runOn_binary .equal (Expr.runOn_name argument) (Expr.runOn_integer d s 0 σ)

theorem runOn_call_counter_zero (below : d < callLimit) :
    (Value.call d (.function (counter id scope)) [.integer 0]).runOn σ =
      (.ok (.integer 0), ((counter id scope).enter [.integer 0] σ).2) := by
  have test := runOn_count_test (d + 1) (lookup_counter_argument id scope 0 σ)
  have branch := Stmt.runOn_execAll_expr none (Expr.runOn_integer (d + 1)
    ((counter id scope).enter [.integer 0] σ).1 0 ((counter id scope).enter [.integer 0] σ).2)
  exact Value.runOn_call_function (f := counter id scope) rfl below
    (Stmt.runOn_execAll_expr none (Expr.runOn_cond_true test rfl branch))

/-- A call with another argument adds one to what the call inside it gives. -/
theorem runOn_call_counter_succ (below : d < callLimit) (ne : n ≠ 0)
    (known : σ.lookup scope "f" = some (.function (counter id scope)))
    {outcome : Except RuntimeError Int64}
    (inner : (Value.call (d + 1) (.function (counter id scope)) [.integer (n - 1)]).runOn
      ((counter id scope).enter [.integer n] σ).2 = (outcome.map .integer, σ')) :
    (Value.call d (.function (counter id scope)) [.integer n]).runOn σ =
      (outcome.map fun k => .integer (1 + k), σ') := by
  set f := counter id scope
  have argument := lookup_counter_argument id scope n σ
  have self : (f.enter [.integer n] σ).2.lookup (f.enter [.integer n] σ).1 "f" =
      some (.function f) := by
    rw [σ.lookup_enter_of_not_mem [.integer n] (by simp [f, counter])]
    exact known
  have less := Expr.runOn_binary .sub (Expr.runOn_name (d := d + 1) argument)
    (Expr.runOn_integer (d + 1) _ 1 _)
  have call := (Expr.runOn_call (Expr.runOn_name self) (Expr.runOn_evalAll_singleton less)).trans
    inner
  have sum := Expr.runOn_binary .add (Expr.runOn_integer (d + 1) _ 1 _) call
  have branch := Stmt.runOn_execAll_expr none sum
  have falsy : (Value.boolean (n == 0)).isTruthy = false := by simp [ne]
  refine (Value.runOn_call_function (f := f) rfl below (Stmt.runOn_execAll_expr none
    (Expr.runOn_cond_false (runOn_count_test (d + 1) argument) falsy branch))).trans ?_
  cases outcome <;> rfl

end Call

/-! ### All calls -/

/-- What `f` gives when `room` more calls are allowed. -/
def countOutcome (room : Nat) (n : Int64) : Except RuntimeError Int64 :=
  if 0 ≤ n.toInt ∧ n.toInt < room then .ok n else .error (.callLimit callLimit)

/-- Counting down by one takes one call.  The least integer is counted down to the greatest, which
is no less out of reach. -/
theorem countOutcome_succ {room : Nat} (few : room ≤ callLimit) {n : Int64} (ne : n ≠ 0) :
    countOutcome (room + 1) n = (countOutcome room (n - 1)).map (1 + ·) := by
  have bounds := And.intro n.le_toInt n.toInt_lt
  have nonzero : n.toInt ≠ 0 := fun zero => ne (Int64.toInt_inj.mp zero)
  have below : room ≤ 10000 := few
  have same : (0 ≤ n.toInt ∧ n.toInt < (room + 1 : Nat)) ↔
      (0 ≤ (n - 1).toInt ∧ (n - 1).toInt < room) := by
    have one : (1 : Int64).toInt = 1 := rfl
    rw [Int64.toInt_sub, one, Int.bmod_def]
    split <;> omega
  unfold countOutcome
  by_cases reached : 0 ≤ (n - 1).toInt ∧ (n - 1).toInt < room
  · rw [if_pos reached, if_pos (same.mpr reached)]
    rw [Except.map, Int64.add_comm, Int64.sub_add_cancel]
  · rw [if_neg reached, if_neg (mt same.mp reached)]
    rfl

/-- A call of `f` gives its argument if it has room enough, and is an error otherwise. -/
theorem counter_call (room : Nat) {d : Nat} (left : callLimit - d = room) {id : Nat}
    {scope : Scope} {σ : Store} (known : σ.lookup scope "f" = some (.function (counter id scope)))
    (n : Int64) :
    ∃ σ', (Value.call d (.function (counter id scope)) [.integer n]).runOn σ =
      ((countOutcome room n).map .integer, σ') := by
  induction room generalizing d σ n with
  | zero =>
    have refused : countOutcome 0 n = .error (.callLimit callLimit) := by
      unfold countOutcome
      exact if_neg (by omega)
    rw [refused]
    exact ⟨σ, Value.runOn_call_refused (f := counter id scope) rfl (by omega) σ⟩
  | succ room ih =>
    by_cases zero : n = 0
    · subst zero
      have reached : countOutcome (room + 1) 0 = .ok 0 := by
        unfold countOutcome
        exact if_pos ⟨Int.le_refl 0, Int.natCast_pos.mpr (Nat.succ_pos room)⟩
      rw [reached]
      exact ⟨_, runOn_call_counter_zero (by omega)⟩
    · have seen : ((counter id scope).enter [.integer n] σ).2.lookup scope "f" =
          some (.function (counter id scope)) := by
        rw [σ.lookup_enter_elsewhere [.integer n] (by simp [counter]), Store.enclose,
          Store.lookup_openFrame, known]
      obtain ⟨σ', inner⟩ := ih (d := d + 1) (by omega) seen (n - 1)
      refine ⟨σ', ?_⟩
      rw [runOn_call_counter_succ (by omega) zero known inner,
        countOutcome_succ (by omega) zero]
      cases countOutcome room (n - 1) <;> rfl

/-- **Recursion ends exactly at the limit.**  With `m` bound to the integer `n`, the source defines
`f` and calls it.  The result is `n` if `n` is not negative and less than the number of calls still
allowed, and the error of a refused call for every other `n`. -/
theorem recursion_limit_exact (depth : Nat) {scope : Scope} {σ : Store}
    (there : scope.frame < σ.frames.size) {n : Int64}
    (bound : σ.lookup scope "m" = some (.integer n)) :
    (runSource depth scope countSource σ).1 =
      .ok (some (if 0 ≤ n.toInt ∧ n.toInt < (callLimit : Int) - depth then .integer n
        else .error (.callLimit callLimit))) := by
  have room : countOutcome (callLimit - depth) n = if 0 ≤ n.toInt ∧
      n.toInt < (callLimit : Int) - depth then .ok n else .error (.callLimit callLimit) := by
    unfold countOutcome
    congr 1
    rw [eq_iff_iff]
    omega
  set f := counter σ.closures scope
  set σ' := (σ.newClosure ["n"] countBody scope).2.assign scope "f" (.function f)
  have known : σ'.lookup scope "f" = some (.function f) := Store.lookup_assign_self there _ _
  have argument : σ'.lookup scope "m" = some (.integer n) :=
    (Store.lookup_assign_of_ne _ scope scope (by decide) _).trans bound
  obtain ⟨after, outcome⟩ := counter_call _ rfl known n
  have executed := Stmt.runOn_execAll_expr none ((Expr.runOn_call (Expr.runOn_name known)
    (Expr.runOn_evalAll_singleton (Expr.runOn_name argument))).trans outcome)
  rw [runSource_of_parseSource parseSource_countSource
    ((Stmt.runOn_execAll_bind none (Expr.runOn_function depth scope _ _ σ)).trans executed), room]
  split <;> rfl

/-- With 9997 calls active there is room for three more: `2` is counted, `3` is not.  The least
integer is not counted even with no call active. -/
theorem recursion_limit_exact_three_calls :
    let store (n : Int64) : Store := ⟨#[[("m", .integer n)]], 0, ""⟩
    (∀ n, (⟨0, []⟩ : Scope).frame < (store n).frames.size ∧
      (store n).lookup ⟨0, []⟩ "m" = some (.integer n)) ∧
    (runSource 9997 ⟨0, []⟩ countSource (store 2)).1 = .ok (some (.integer 2)) ∧
    (runSource 9997 ⟨0, []⟩ countSource (store 3)).1 =
      .ok (some (.error (.callLimit callLimit))) ∧
    (runSource 0 ⟨0, []⟩ countSource (store Int64.minValue)).1 =
      .ok (some (.error (.callLimit callLimit))) := by
  intro store
  have bound (n : Int64) : (store n).lookup ⟨0, []⟩ "m" = some (.integer n) := rfl
  have there (n : Int64) : 0 < (store n).frames.size := Nat.zero_lt_one
  refine ⟨fun n => ⟨there n, bound n⟩, ?_, ?_, ?_⟩
  · rw [recursion_limit_exact 9997 (there 2) (bound 2), if_pos (by decide)]
  · rw [recursion_limit_exact 9997 (there 3) (bound 3), if_neg (by decide)]
  · rw [recursion_limit_exact 0 (there _) (bound _), if_neg (by decide)]

end Marmoset
