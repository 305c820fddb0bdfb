import Marmoset.Proofs.ValueParts

/-! # What a run can get to

A run looks names up in the frames of its scope, in the frames of the scopes of the functions that
it finds there, and so on (`Store.Reaches`), and in the frames that it makes itself.  A `View` is
such a collection of frames.  What every value in reach satisfies is satisfied by all values that
the frames in view bind (`Store.holds_reach`), and a call of a function whose scope is in view opens
a scope that is in view again (`View.Shows.enter`). -/

namespace Marmoset

/-- The frames that a run can get to: some of those that are there, and all that it makes. -/
structure View where
  visible : Nat → Prop
  base : Nat
  fresh : ∀ i, base ≤ i → visible i

/-- All frames of a scope are visible. -/
def View.Shows (view : View) (s : Scope) : Prop :=
  ∀ i ∈ s.frames, view.visible i

/-- A call opens a frame that was not there before. -/
theorem View.Shows.enter {view : View} {f : Closure} (closed : view.Shows f.scope)
    (arguments : List Value) {σ : Store} (size : view.base ≤ σ.frames.size) :
    view.Shows (f.enter arguments σ).1 := by
  intro i mem
  rcases List.mem_cons.mp mem with rfl | mem
  · exact view.fresh _ size
  · exact closed i mem

namespace Store

/-- A frame can be reached from a scope: it is one of the scope's own, or belongs to the scope of a
function that a frame which can be reached holds. -/
inductive Reaches (σ : Store) (s : Scope) : Nat → Prop
  | own {i : Nat} : i ∈ s.frames → Reaches σ s i
  | through {i j : Nat} {frame : Frame} {entry : String × Value} {f : Closure} :
      Reaches σ s i → σ.frames[i]? = some frame → entry ∈ frame →
      Value.Within (.function f) entry.2 → j ∈ f.scope.frames → Reaches σ s j

/-- A frame that can be reached binds the value. -/
def BindsInReach (σ : Store) (s : Scope) (v : Value) : Prop :=
  ∃ (i : Nat) (frame : Frame) (name : String),
    σ.Reaches s i ∧ σ.frames[i]? = some frame ∧ (name, v) ∈ frame

theorem BindsInReach.binds {σ : Store} {s : Scope} {v : Value} (h : σ.BindsInReach s v) :
    σ.Binds v := by
  obtain ⟨i, frame, name, -, found, mem⟩ := h
  exact ⟨i, frame, name, found, mem⟩

/-- What a run in a scope can get to. -/
def reach (σ : Store) (s : Scope) : View where
  visible i := σ.Reaches s i ∨ σ.frames.size ≤ i
  base := σ.frames.size
  fresh _ later := .inr later

theorem shows_reach (σ : Store) (s : Scope) : (σ.reach s).Shows s :=
  fun _ mem => .inl (.own mem)

/-- What holds of every part of a value in reach, given that functions have their scopes in reach
too, holds in all frames that a run can get to. -/
theorem holds_reach {σ : Store} {s : Scope} {p : Value → Prop}
    (h : ∀ v part, σ.BindsInReach s v → Value.Within part v →
      (∀ f, part = .function f → (σ.reach s).Shows f.scope) → p part) :
    σ.Holds (σ.reach s).visible p := by
  rintro i frame (reached | later) found entry mem part within
  · refine h entry.2 part ⟨i, frame, entry.1, reached, found, mem⟩ within ?_
    rintro f rfl j inScope
    exact .inl (.through reached found mem within inScope)
  · rw [Array.getElem?_eq_none later] at found
    cases found

end Store

end Marmoset
