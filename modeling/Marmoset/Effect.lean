import Marmoset.Store

/-! # Effects

`Eval α` is a computation that may change the store and either gives an `α` or stops with a runtime
error.  What was done to the store before an error stays done. -/

namespace Marmoset

/-- A computation with a store that may stop with an error. -/
abbrev Eval := ExceptT RuntimeError (StateM Store)

namespace Eval

variable {α : Type}

/-- A result that needs no store. -/
def ofExcept (result : Except RuntimeError α) : Eval α :=
  ExceptT.mk (pure result)

/-- A change of the store that has a result. -/
def step (f : Store → α × Store) : Eval α :=
  ExceptT.mk fun store =>
    let (a, store) := f store
    (.ok a, store)

/-- A change of the store. -/
def change (f : Store → Store) : Eval Unit :=
  step fun store => ((), f store)

/-- What the store says. -/
def view (f : Store → α) : Eval α :=
  step fun store => (f store, store)

/-- The result of a computation, and the store after it. -/
def runOn (x : Eval α) (store : Store) : Except RuntimeError α × Store :=
  x.run.run store

/-! ### Running a computation step by step -/

@[simp] theorem runOn_pure (a : α) (store : Store) :
    (pure a : Eval α).runOn store = (.ok a, store) :=
  rfl

@[simp] theorem runOn_throw (e : RuntimeError) (store : Store) :
    (throw e : Eval α).runOn store = (.error e, store) :=
  rfl

@[simp] theorem runOn_ofExcept (result : Except RuntimeError α) (store : Store) :
    (ofExcept result).runOn store = (result, store) :=
  rfl

@[simp] theorem runOn_step (f : Store → α × Store) (store : Store) :
    (step f).runOn store = (.ok (f store).1, (f store).2) :=
  rfl

@[simp] theorem runOn_change (f : Store → Store) (store : Store) :
    (change f).runOn store = (.ok (), f store) :=
  rfl

@[simp] theorem runOn_view (f : Store → α) (store : Store) :
    (view f).runOn store = (.ok (f store), store) :=
  rfl

theorem runOn_bind {β : Type} (x : Eval α) (f : α → Eval β) (store : Store) :
    (x >>= f).runOn store =
      match x.runOn store with
      | (.ok a, store') => (f a).runOn store'
      | (.error e, store') => (.error e, store') := by
  change (ExceptT.bindCont f (x.runOn store).1) (x.runOn store).2 = _
  rcases x.runOn store with ⟨_ | _, _⟩ <;> rfl

end Eval

end Marmoset
