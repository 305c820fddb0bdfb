import Marmoset.Proofs.Frames

/-! # Looking names up

A name is looked up frame by frame: `Store.boundAt` is what one frame binds it to, and a look-up
gives the first of these on the way outwards (`Store.lookup_eq`).  So the value of a name in a scope
changes only if one of the frames of the scope comes to bind it to something else.  Opening a frame
changes no look-up, and binding a name changes those of this name only, through the scopes that list
the frame.

A call looks its parameters up in its own frame (`Store.lookup_parameter`) and all other names as
the scope of the function does (`Store.lookup_enter_of_not_mem`). -/

namespace Marmoset

/-- The first result depends on the elements only. -/
theorem findSome?_congr {α β : Type} {f g : α → Option β} {l : List α}
    (same : ∀ a ∈ l, f a = g a) : l.findSome? f = l.findSome? g := by
  induction l with
  | nil => rfl
  | cons a l ih =>
    rw [List.findSome?_cons, List.findSome?_cons, same a List.mem_cons_self,
      ih fun b mem => same b (List.mem_cons_of_mem a mem)]

namespace Store

/-! ### One frame -/

/-- The value that a frame binds a name to. -/
def boundAt (σ : Store) (name : String) (i : Nat) : Option Value :=
  σ.frames[i]?.bind fun frame => Table.get? frame name

theorem lookup_eq (σ : Store) (scope : Scope) (name : String) :
    σ.lookup scope name = scope.frames.findSome? (σ.boundAt name) :=
  rfl

theorem boundAt_of_size_le {σ : Store} {i : Nat} (beyond : σ.frames.size ≤ i) (name : String) :
    σ.boundAt name i = none := by
  rw [boundAt, Array.getElem?_eq_none beyond, Option.bind_none]

theorem boundAt_assign_self {σ : Store} {scope : Scope} (there : scope.frame < σ.frames.size)
    (name : String) (v : Value) : (σ.assign scope name v).boundAt name scope.frame = some v := by
  rw [boundAt, getElem?_assign, if_pos rfl, Array.getElem?_eq_getElem there, Option.map_some,
    Option.bind_some, Table.get?_insert_self]

theorem boundAt_assign_of_frame_ne (σ : Store) {scope : Scope} {i : Nat} (ne : scope.frame ≠ i)
    (name other : String) (v : Value) :
    (σ.assign scope name v).boundAt other i = σ.boundAt other i := by
  rw [boundAt, getElem?_assign, if_neg ne, boundAt]

theorem boundAt_assign_of_ne (σ : Store) (scope : Scope) {name other : String} (ne : name ≠ other)
    (v : Value) (i : Nat) : (σ.assign scope name v).boundAt other i = σ.boundAt other i := by
  rw [boundAt, boundAt, getElem?_assign]
  split
  · cases σ.frames[i]? with
    | none => rfl
    | some frame => exact Table.get?_insert_of_ne ne
  · rfl

/-- A new frame binds nothing. -/
theorem boundAt_openFrame (σ : Store) (outer : List Nat) (name : String) (i : Nat) :
    (σ.openFrame outer).2.boundAt name i = σ.boundAt name i := by
  rw [boundAt, getElem?_openFrame]
  split
  · next last => rw [boundAt_of_size_le (Nat.le_of_eq last.symm), Option.bind_some, Table.get?]
  · rfl

/-! ### Scopes -/

/-- Only the frames of the scope matter. -/
theorem lookup_congr {σ τ : Store} {scope : Scope} {name : String}
    (same : ∀ i ∈ scope.frames, τ.boundAt name i = σ.boundAt name i) :
    τ.lookup scope name = σ.lookup scope name :=
  findSome?_congr same

theorem lookup_assign_self {σ : Store} {scope : Scope} (there : scope.frame < σ.frames.size)
    (name : String) (v : Value) : (σ.assign scope name v).lookup scope name = some v := by
  rw [lookup_eq, Scope.frames, List.findSome?_cons, boundAt_assign_self there]

/-- Binding a name does not change what another name means, in any scope. -/
theorem lookup_assign_of_ne (σ : Store) (scope seen : Scope) {name other : String}
    (ne : name ≠ other) (v : Value) :
    (σ.assign scope name v).lookup seen other = σ.lookup seen other :=
  lookup_congr fun i _ => σ.boundAt_assign_of_ne scope ne v i

theorem lookup_assignAll_of_not_mem (σ : Store) (scope seen : Scope) {name : String}
    {bindings : List (String × Value)} (absent : name ∉ bindings.map Prod.fst) :
    (σ.assignAll scope bindings).lookup seen name = σ.lookup seen name := by
  induction bindings generalizing σ with
  | nil => rfl
  | cons entry bindings ih =>
    rw [List.map_cons, List.mem_cons, not_or] at absent
    rw [assignAll, ih _ absent.2, lookup_assign_of_ne σ scope seen (Ne.symm absent.1)]

/-- The last binding of a name counts. -/
theorem lookup_assignAll {σ : Store} {scope : Scope} (there : scope.frame < σ.frames.size)
    (before : List (String × Value)) (name : String) (v : Value)
    {after : List (String × Value)} (absent : name ∉ after.map Prod.fst) :
    (σ.assignAll scope (before ++ (name, v) :: after)).lookup scope name = some v := by
  induction before generalizing σ with
  | nil =>
    rw [List.nil_append, assignAll, lookup_assignAll_of_not_mem _ scope scope absent,
      lookup_assign_self there]
  | cons entry before ih => exact ih (by rwa [size_assign])

theorem lookup_openFrame (σ : Store) (outer : List Nat) (seen : Scope) (name : String) :
    (σ.openFrame outer).2.lookup seen name = σ.lookup seen name :=
  lookup_congr fun i _ => σ.boundAt_openFrame outer name i

/-- A new outermost scope binds nothing. -/
theorem lookup_newScope (σ : Store) (name : String) :
    σ.newScope.2.lookup σ.newScope.1 name = none := by
  have fresh : σ.boundAt name σ.frames.size = none := boundAt_of_size_le (Nat.le_refl _) name
  rw [newScope, lookup_openFrame, lookup_eq, Scope.frames, openFrame, List.findSome?_cons, fresh]
  rfl

/-- In a new scope inside another, every name means what it means there. -/
theorem lookup_enclose (σ : Store) (scope : Scope) (name : String) :
    (σ.enclose scope).2.lookup (σ.enclose scope).1 name = σ.lookup scope name := by
  have fresh : σ.boundAt name σ.frames.size = none := boundAt_of_size_le (Nat.le_refl _) name
  rw [enclose, lookup_openFrame, lookup_eq, Scope.frames, openFrame, List.findSome?_cons, fresh]
  rfl

/-- What a store holds in its old frames is seen in the same way after it has grown elsewhere. -/
theorem Grown.lookup {own : Nat → Prop} {σ τ : Store} (h : Grown own σ τ) {scope : Scope}
    (there : ∀ i ∈ scope.frames, i < σ.frames.size) (other : ∀ i ∈ scope.frames, ¬ own i)
    (name : String) : τ.lookup scope name = σ.lookup scope name := by
  refine lookup_congr fun i mem => ?_
  rw [boundAt, boundAt, h.same i (there i mem) (other i mem)]

/-! ### Calls -/

/-- A parameter means the argument for it, in the call. -/
theorem lookup_parameter (σ : Store) {f : Closure} {arguments : List Value}
    (before after : List (String × Value)) {name : String} {v : Value}
    (bindings : f.parameters.zip arguments = before ++ (name, v) :: after)
    (absent : name ∉ after.map Prod.fst) :
    (f.enter arguments σ).2.lookup (f.enter arguments σ).1 name = some v := by
  rw [Closure.enter, bindings]
  exact lookup_assignAll (by simp [enclose, openFrame]) before name v absent

theorem lookup_enter_elsewhere (σ : Store) {f : Closure} (arguments : List Value) {name : String}
    (absent : name ∉ f.parameters) (seen : Scope) :
    (f.enter arguments σ).2.lookup seen name = (σ.enclose f.scope).2.lookup seen name := by
  refine lookup_assignAll_of_not_mem _ _ seen fun mem => ?_
  obtain ⟨entry, listed, rfl⟩ := List.mem_map.mp mem
  exact absent (List.of_mem_zip listed).1

/-- Other names mean in a call what they mean in the scope of the function. -/
theorem lookup_enter_of_not_mem (σ : Store) {f : Closure} (arguments : List Value) {name : String}
    (absent : name ∉ f.parameters) :
    (f.enter arguments σ).2.lookup (f.enter arguments σ).1 name = σ.lookup f.scope name :=
  (lookup_enter_elsewhere σ arguments absent _).trans (lookup_enclose σ f.scope name)

end Store

theorem nameValue_of_lookup {scope : Scope} {name : String} {σ : Store} {v : Value}
    (found : σ.lookup scope name = some v) : nameValue scope name σ = .ok v := by
  rw [nameValue, found]

end Marmoset
