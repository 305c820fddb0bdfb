import Mathlib.Data.Int.ModEq
import Marmoset.Proofs.EvalRules

/-! # Integer expressions as a ring

Sums, differences, products and changes of sign wrap around at every operator of an expression.  The
result is the same as if the expression had been computed in the integers and wrapped once at the
end: `Int64.ofInt` takes the operators on integers to those on words (`BinaryOp.apply_ofInt`), and so
it takes the exact value of a tree to the value that evaluation gives it (`Expr.runOn_exactValue`).

Division does not fit in with this, since a quotient of words says nothing about the quotient of
integers that they stand for.  `DividesTo` says what it gives for the words themselves. -/

namespace Marmoset

/-! ### Exact values -/

/-- The operator on the integers that an operator of the ring stands for. -/
def BinaryOp.exact? : BinaryOp → Option (Int → Int → Int)
  | add => some (· + ·)
  | sub => some (· - ·)
  | mul => some (· * ·)
  | _ => none

/-- The exact value of a tree over integers with changes of sign, sums, differences and products.
Other expressions have none. -/
def Expr.exactValue? : Expr → Option Int
  | .integer n => some n.toInt
  | .unary .negate e => e.exactValue?.map (- ·)
  | .binary op a b => do return (← op.exact?) (← a.exactValue?) (← b.exactValue?)
  | _ => none

/-- The word is the only one that is congruent to the integer. -/
def Integer.Wraps (i : Int) (w : Int64) : Prop :=
  ∀ n : Int64, n.toInt ≡ i [ZMOD 2 ^ 64] ↔ n = w

/-- What the division of two words gives: an error for a zero divisor and else the quotient toward
zero, except that the one quotient that is out of range wraps around. -/
structure DividesTo (l r : Int64) (outcome : Except RuntimeError Value) : Prop where
  fails_iff : outcome = .error .divisionByZero ↔ r = 0
  quotient : r ≠ 0 → ∃ q : Int64, outcome = .ok (.integer q) ∧
    q.toInt = if l = .minValue ∧ r = -1 then Int64.minValue.toInt else l.toInt.tdiv r.toInt

/-! ### Words -/

theorem Integer.wraps_ofInt (i : Int) : Wraps i (.ofInt i) := by
  intro n
  rw [eq_comm (a := n), Int64.ofInt_eq_iff_bmod_eq_toInt]
  constructor
  · intro congruent
    calc i.bmod (2 ^ 64) = (i % 2 ^ 64).bmod (2 ^ 64) := (Int.emod_bmod i _).symm
      _ = (n.toInt % 2 ^ 64).bmod (2 ^ 64) := congrArg (Int.bmod · _) congruent.symm
      _ = n.toInt.bmod (2 ^ 64) := Int.emod_bmod _ _
      _ = n.toInt := n.toInt_bmod
  · intro wrapped
    rw [← wrapped]
    exact Int.bmod_emod

theorem BinaryOp.apply_ofInt {op : BinaryOp} {f : Int → Int → Int} (exact : op.exact? = some f)
    (i j : Int) :
    op.apply (.integer (.ofInt i)) (.integer (.ofInt j)) = .ok (.integer (.ofInt (f i j))) := by
  cases op <;> cases exact
  case add => rw [Int64.ofInt_add]; rfl
  case sub => rw [Int64.ofInt_sub]; rfl
  case mul => rw [Int64.ofInt_mul]; rfl

/-- The quotient of two words is out of range in one case only. -/
theorem Integer.toInt_div (l r : Int64) :
    (l / r).toInt = if l = .minValue ∧ r = -1 then Int64.minValue.toInt else l.toInt.tdiv r.toInt := by
  split
  · next least =>
    obtain ⟨rfl, rfl⟩ := least
    rw [Int64.minValue_div_neg_one]
  · next notLeast =>
    by_cases hl : l = .minValue
    · exact Int64.toInt_div_of_ne_right l r fun hr => notLeast ⟨hl, hr⟩
    · exact Int64.toInt_div_of_ne_left l r hl

theorem dividesTo_apply (l r : Int64) :
    DividesTo l r (BinaryOp.div.apply (.integer l) (.integer r)) := by
  have apply_eq : BinaryOp.div.apply (.integer l) (.integer r) =
    if r = 0 then .error .divisionByZero else .ok (.integer (l / r)) := rfl
  rw [apply_eq]
  constructor
  · simp
  · intro notZero
    rw [if_neg notZero]
    exact ⟨l / r, rfl, Integer.toInt_div l r⟩

/-! ### Trees -/

variable {d : Nat} {s : Scope} {σ : Store}

/-- The value of a tree is its exact value wrapped once. -/
theorem Expr.runOn_exactValue {e : Expr} {i : Int} (exact : e.exactValue? = some i) :
    (e.eval d s).runOn σ = (.ok (.integer (.ofInt i)), σ) := by
  fun_induction Expr.exactValue? e generalizing i with
  | case1 n =>
    cases exact
    rw [Int64.ofInt_toInt]
    exact Expr.runOn_integer d s n σ
  | case2 e ih =>
    obtain ⟨j, value, rfl⟩ := Option.map_eq_some_iff.mp exact
    rw [Int64.ofInt_neg]
    exact Expr.runOn_unary .negate (ih value)
  | case3 op a b iha ihb =>
    simp only [Option.bind_eq_bind, Option.bind_eq_some_iff, Option.pure_def] at exact
    obtain ⟨f, operator, j, left, k, right, whole⟩ := exact
    cases whole
    rw [← BinaryOp.apply_ofInt operator]
    exact Expr.runOn_binary op (iha left) (ihb right)
  | case4 => cases exact

/-- **Integer expressions compute in the ring of words.**  The value of a tree over integers with
changes of sign, sums, differences and products is the one word that is congruent to its exact value,
in every scope and at every depth; and the division of two such trees gives what the division of
their values gives. -/
theorem integer_trees_wrap (d : Nat) (s : Scope) (σ : Store) :
    (∀ {e : Expr} {i : Int}, e.exactValue? = some i →
      ∃ w : Int64, (e.eval d s).runOn σ = (.ok (.integer w), σ) ∧ Integer.Wraps i w) ∧
    ∀ {a b : Expr} {i j : Int}, a.exactValue? = some i → b.exactValue? = some j →
      ∃ l r outcome, (a.eval d s).runOn σ = (.ok (.integer l), σ) ∧
        (b.eval d s).runOn σ = (.ok (.integer r), σ) ∧
        ((Expr.binary .div a b).eval d s).runOn σ = (outcome, σ) ∧ DividesTo l r outcome := by
  constructor
  · intro e i exact
    exact ⟨.ofInt i, Expr.runOn_exactValue exact, Integer.wraps_ofInt i⟩
  · intro a b i j left right
    have first := Expr.runOn_exactValue (d := d) (s := s) (σ := σ) left
    have second := Expr.runOn_exactValue (d := d) (s := s) (σ := σ) right
    exact ⟨_, _, _, first, second, Expr.runOn_binary .div first second, dividesTo_apply _ _⟩

/-- One more than the greatest integer is the least one, and divided by the negative of one it stays
what it is. -/
theorem integer_trees_wrap_least :
    let sum : Expr := .binary .add (.integer .maxValue) (.integer 1)
    let divisor : Expr := .unary .negate (.integer 1)
    sum.exactValue? = some (2 ^ 63) ∧ divisor.exactValue? = some (-1) ∧
      (sum.eval 10000 ⟨0, []⟩).runOn .empty = (.ok (.integer .minValue), .empty) ∧
      ((Expr.binary .div sum divisor).eval 10000 ⟨0, []⟩).runOn .empty =
        (.ok (.integer .minValue), .empty) := by
  intro sum divisor
  have exact : sum.exactValue? = some (2 ^ 63) := by decide
  have exact' : divisor.exactValue? = some (-1) := by decide
  obtain ⟨values, quotients⟩ := integer_trees_wrap 10000 ⟨0, []⟩ .empty
  obtain ⟨l, left, least⟩ := values exact
  obtain ⟨r, right, minusOne⟩ := values exact'
  obtain rfl : .minValue = l := (least _).mp (by decide)
  obtain rfl : -1 = r := (minusOne _).mp (by decide)
  obtain ⟨l, r, outcome, left', right', whole, divided⟩ := quotients exact exact'
  cases left.symm.trans left'
  cases right.symm.trans right'
  obtain ⟨q, rfl, value⟩ := divided.quotient (by decide)
  rw [if_pos ⟨rfl, rfl⟩, Int64.toInt_inj] at value
  exact ⟨exact, exact', left, value ▸ whole⟩

end Marmoset
