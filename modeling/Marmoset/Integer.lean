/-! # Integers

The integers of the language are the signed 64-bit words, with arithmetic that wraps around.  This
file holds their decimal notation (`Integer.text`, `Integer.ofText?`) and the two conversions
between integers and sizes (`Integer.ofSize?`, `Integer.toSize?`). -/

namespace Marmoset
namespace Integer

/-! ### Conversions -/

/-- The word with a given value, if there is one. -/
def ofInt? (i : Int) : Option Int64 :=
  if Int64.minValue.toInt ≤ i ∧ i ≤ Int64.maxValue.toInt then some (Int64.ofInt i) else none

/-- A size as an integer, if it is in range. -/
def ofSize? (n : Nat) : Option Int64 :=
  ofInt? n

/-- An integer as a size, unless it is negative. -/
def toSize? (n : Int64) : Option Nat :=
  if 0 ≤ n.toInt then some n.toInt.toNat else none

/-! ### Decimal notation -/

/-- The decimal notation of an integer. -/
def text (n : Int64) : String :=
  toString n.toInt

/-- The value of a decimal digit. -/
def digitValue (c : Char) : Nat :=
  c.toNat - '0'.toNat

/-- The value of a nonempty sequence of decimal digits. -/
def ofDigits? (digits : List Char) : Option Nat :=
  if digits ≠ [] ∧ digits.all Char.isDigit then
    some (digits.foldl (fun n c => 10 * n + digitValue c) 0)
  else none

/-- Reads an integer: at most one sign, then digits, with a value in range. -/
def ofText? (s : String) : Option Int64 :=
  match s.toList with
  | '-' :: digits => (ofDigits? digits).bind fun n => ofInt? (-(n : Int))
  | '+' :: digits => (ofDigits? digits).bind fun n => ofInt? n
  | digits => (ofDigits? digits).bind fun n => ofInt? n

/-! ### Range -/

theorem inRange_iff {i : Int} :
    Int64.minValue.toInt ≤ i ∧ i ≤ Int64.maxValue.toInt ↔
      -9223372036854775808 ≤ i ∧ i < 9223372036854775808 := by
  rw [Int64.toInt_minValue, Int64.toInt_maxValue]
  omega

theorem ofInt?_eq_some_iff {i : Int} {n : Int64} : ofInt? i = some n ↔ n.toInt = i := by
  unfold ofInt?
  constructor
  · intro h
    split at h
    · next bounds =>
      cases h
      exact Int64.toInt_ofInt_of_le (inRange_iff.mp bounds).1 (inRange_iff.mp bounds).2
    · cases h
  · rintro rfl
    rw [if_pos (inRange_iff.mpr ⟨n.le_toInt, n.toInt_lt⟩), Int64.ofInt_toInt]

@[simp] theorem ofInt?_toInt (n : Int64) : ofInt? n.toInt = some n :=
  ofInt?_eq_some_iff.mpr rfl

end Integer
end Marmoset
