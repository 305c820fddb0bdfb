import Marmoset.Value.Basic

/-! # The store

What a running program can change: the names bound in each frame, the number of functions made so
far, and the text printed so far.  Frames are numbered in the order in which they are made and are
never removed.  A `Scope` lists the frames that a name is looked up in, so scopes nest without
links in the store: binding a name changes one frame, and every scope that lists the frame sees
it. -/

namespace Marmoset

/-- The names bound in one place. -/
abbrev Frame := Table String Value

/-- What a running program can change. -/
structure Store where
  frames : Array Frame
  closures : Nat
  output : String

namespace Store

/-- Nothing bound, made or printed. -/
def empty : Store :=
  ⟨#[], 0, ""⟩

/-! ### Scopes -/

/-- A new frame inside the given ones. -/
def openFrame (store : Store) (outer : List Nat) : Scope × Store :=
  (⟨store.frames.size, outer⟩, { store with frames := store.frames.push [] })

/-- A new outermost scope. -/
def newScope (store : Store) : Scope × Store :=
  store.openFrame []

/-- A new scope inside another. -/
def enclose (store : Store) (scope : Scope) : Scope × Store :=
  store.openFrame scope.frames

/-- The value of a name: that of the innermost frame that binds it. -/
def lookup (store : Store) (scope : Scope) (name : String) : Option Value :=
  scope.frames.findSome? fun i => store.frames[i]?.bind fun frame => Table.get? frame name

/-- Binds a name in the innermost frame of a scope. -/
def assign (store : Store) (scope : Scope) (name : String) (value : Value) : Store :=
  { store with frames := store.frames.modify scope.frame fun frame =>
      Table.insert frame name value }

/-- Binds names to values, one after the other. -/
def assignAll (store : Store) (scope : Scope) : List (String × Value) → Store
  | [] => store
  | (name, value) :: rest => (store.assign scope name value).assignAll scope rest

/-- The names bound in a frame. -/
def namesAt (store : Store) (frame : Nat) : List String :=
  match store.frames[frame]? with
  | some frame => Table.keys frame
  | none => []

/-! ### Functions and output -/

/-- A new function. -/
def newClosure (store : Store) (parameters : List String) (body : Block) (scope : Scope) :
    Closure × Store :=
  (⟨store.closures, parameters, body, scope⟩, { store with closures := store.closures + 1 })

/-- Prints a line. -/
def printLine (store : Store) (line : String) : Store :=
  { store with output := store.output ++ line ++ "\n" }

/-- The text printed so far, which is then forgotten. -/
def takeOutput (store : Store) : String × Store :=
  (store.output, { store with output := "" })

/-! ### What a frame holds afterwards -/

@[simp] theorem size_assign (store : Store) (scope : Scope) (name : String) (value : Value) :
    (store.assign scope name value).frames.size = store.frames.size := by
  simp [assign]

theorem getElem?_assign (store : Store) (scope : Scope) (name : String) (value : Value) (i : Nat) :
    (store.assign scope name value).frames[i]? =
      if scope.frame = i then store.frames[i]?.map fun frame => Table.insert frame name value
      else store.frames[i]? := by
  rw [assign, Array.getElem?_modify]

@[simp] theorem size_openFrame (store : Store) (outer : List Nat) :
    (store.openFrame outer).2.frames.size = store.frames.size + 1 := by
  simp [openFrame]

theorem getElem?_openFrame (store : Store) (outer : List Nat) (i : Nat) :
    (store.openFrame outer).2.frames[i]? =
      if i = store.frames.size then some [] else store.frames[i]? := by
  rw [openFrame, Array.getElem?_push]

end Store

end Marmoset
