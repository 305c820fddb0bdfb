import Marmoset.Value.RuntimeError

/-! # Call depth

The depth is the number of calls that are active.  `enterCall` adds one and refuses to go beyond
`callLimit`; `leaveCall` takes one away again.  Every call that is entered leaves fewer to come
(`enterCall_lt`), which is why programs end. -/

namespace Marmoset

/-- The number of calls that may be active at once. -/
def callLimit : Nat :=
  10000

/-- The depth inside a call made at the given depth. -/
def enterCall (depth : Nat) : Except RuntimeError Nat :=
  if depth < callLimit then .ok (depth + 1) else .error (.callLimit callLimit)

/-- The depth after a call. -/
def leaveCall (depth : Nat) : Nat :=
  depth - 1

/-- Enters `n` calls inside each other, up to the first that is refused. -/
def enterCalls : Nat → Nat → Nat × Option RuntimeError
  | 0, depth => (depth, none)
  | n + 1, depth =>
    match enterCall depth with
    | .ok inner => enterCalls n inner
    | .error e => (depth, some e)

/-- Leaves `n` calls. -/
def leaveCalls : Nat → Nat → Nat
  | 0, depth => depth
  | n + 1, depth => leaveCalls n (leaveCall depth)

theorem enterCall_eq_ok_iff {depth inner : Nat} :
    enterCall depth = .ok inner ↔ depth < callLimit ∧ inner = depth + 1 := by
  by_cases h : depth < callLimit <;> simp [enterCall, h, eq_comm]

theorem leaveCall_of_enterCall {depth inner : Nat} (h : enterCall depth = .ok inner) :
    leaveCall inner = depth := by
  simp [leaveCall, (enterCall_eq_ok_iff.mp h).2]

/-- Inside a call fewer calls are still allowed. -/
theorem enterCall_lt {depth inner : Nat} (h : enterCall depth = .ok inner) :
    callLimit - inner < callLimit - depth := by
  have := enterCall_eq_ok_iff.mp h
  omega

end Marmoset
