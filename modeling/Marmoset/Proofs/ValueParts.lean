import Marmoset.Eval

/-! # What values contain

`Value.Within part v` says that `v` is `part` or contains it, and `Value.All p v` that every part of
`v` satisfies `p`.  A property that holds of everything but functions, wrapped returns and errors
(`Ordinary`) is kept by all operations on values: they only compute such values and take given
values apart.  `Handed` allows for one wrapping around such a value, and `Store.Holds` says the same
of the values bound in the visible frames of a store. -/

namespace Marmoset

namespace Value

/-- `v` is `part`, or contains it as an element, as the value of a hash entry, or inside a wrapped
return. -/
inductive Within (part : Value) : Value → Prop
  | self : Within part part
  | element {v : Value} {elements : List Value} :
      v ∈ elements → Within part v → Within part (.array elements)
  | entry {entry : Key × Value} {entries : List (Key × Value)} :
      entry ∈ entries → Within part entry.2 → Within part (.hash entries)
  | inside {v : Value} : Within part v → Within part (.returned v)

/-- Every part of a value satisfies `p`. -/
def All (p : Value → Prop) (v : Value) : Prop :=
  ∀ part, Within part v → p part

variable {p : Value → Prop}

theorem All.self {v : Value} (h : v.All p) : p v :=
  h v .self

theorem all_array_iff {elements : List Value} :
    (array elements).All p ↔ p (array elements) ∧ ∀ v ∈ elements, v.All p := by
  constructor
  · intro h
    exact ⟨h.self, fun v mem part within => h part (.element mem within)⟩
  · rintro ⟨here, below⟩ part within
    cases within with
    | self => exact here
    | element mem within => exact below _ mem part within

theorem all_hash_iff {entries : List (Key × Value)} :
    (hash entries).All p ↔ p (hash entries) ∧ ∀ entry ∈ entries, entry.2.All p := by
  constructor
  · intro h
    exact ⟨h.self, fun entry mem part within => h part (.entry mem within)⟩
  · rintro ⟨here, below⟩ part within
    cases within with
    | self => exact here
    | entry mem within => exact below _ mem part within

theorem all_function_iff {f : Closure} : (function f).All p ↔ p (function f) := by
  refine ⟨All.self, fun here part within => ?_⟩
  cases within
  exact here

end Value

/-! ### Results of computations that can fail -/

theorem except_map_eq_ok_iff {α β : Type} {x : Except RuntimeError α} {f : α → β} {b : β} :
    x.map f = .ok b ↔ ∃ a, x = .ok a ∧ f a = b := by
  cases x <;> simp [Except.map]

/-- A function of the elements of an array that makes good values of good elements. -/
theorem Value.All.requireArray {p : Value → Prop} {name : String} {v w : Value}
    {f : List Value → Value} (hv : v.All p)
    (hf : ∀ elements, (∀ v ∈ elements, v.All p) → (f elements).All p)
    (h : (Marmoset.requireArray name v).map f = .ok w) : w.All p := by
  obtain ⟨elements, found, rfl⟩ := except_map_eq_ok_iff.mp h
  cases v <;> cases found
  exact hf elements (Value.all_array_iff.mp hv).2

/-! ### Properties of ordinary values -/

/-- `p` holds of every value that is no function, no wrapped return and no error. -/
structure Ordinary (p : Value → Prop) : Prop where
  integer : ∀ n, p (.integer n)
  boolean : ∀ b, p (.boolean b)
  null : p .null
  text : ∀ s, p (.text s)
  array : ∀ elements, p (.array elements)
  hash : ∀ entries, p (.hash entries)
  builtin : ∀ b, p (.builtin b)

namespace Ordinary

variable {p : Value → Prop} (ordinary : Ordinary p)

include ordinary

theorem all_integer (n : Int64) : (Value.integer n).All p := by
  rintro part ⟨⟩
  exact ordinary.integer n

theorem all_boolean (b : Bool) : (Value.boolean b).All p := by
  rintro part ⟨⟩
  exact ordinary.boolean b

theorem all_null : Value.null.All p := by
  rintro part ⟨⟩
  exact ordinary.null

theorem all_text (s : String) : (Value.text s).All p := by
  rintro part ⟨⟩
  exact ordinary.text s

theorem all_builtin (b : Builtin) : (Value.builtin b).All p := by
  rintro part ⟨⟩
  exact ordinary.builtin b

theorem all_array {elements : List Value} (h : ∀ v ∈ elements, v.All p) :
    (Value.array elements).All p :=
  Value.all_array_iff.mpr ⟨ordinary.array elements, h⟩

theorem all_hash {entries : List (Key × Value)} (h : ∀ entry ∈ entries, entry.2.All p) :
    (Value.hash entries).All p :=
  Value.all_hash_iff.mpr ⟨ordinary.hash entries, h⟩

/-- What stands at a place is as good as everything that can stand there. -/
theorem all_getD {v : Option Value} (h : ∀ w, v = some w → w.All p) : (v.getD .null).All p := by
  cases v with
  | none => exact ordinary.all_null
  | some w => exact h w rfl

/-! ### Operations -/

theorem all_unary {op : UnaryOp} {v w : Value} (h : op.apply v = .ok w) : w.All p := by
  cases op with
  | not =>
      cases h
      exact ordinary.all_boolean _
  | negate =>
      cases v <;> cases h
      exact ordinary.all_integer _

theorem all_binary {op : BinaryOp} {a b w : Value} (h : op.apply a b = .ok w) : w.All p := by
  unfold BinaryOp.apply at h
  split at h
  · cases op <;> simp only [BinaryOp.applyIntegers] at h
    case div =>
      split at h <;> cases h
      exact ordinary.all_integer _
    all_goals
      cases h
      first | exact ordinary.all_integer _ | exact ordinary.all_boolean _
  · cases op <;> cases h
    all_goals first | exact ordinary.all_text _ | exact ordinary.all_boolean _
  · split at h
    · cases h
    · split at h <;> cases h <;> exact ordinary.all_boolean _

theorem all_index {c i w : Value} (hc : c.All p) (h : c.index i = .ok w) : w.All p := by
  unfold Value.index at h
  split at h
  · next elements position =>
    cases h
    refine ordinary.all_getD fun w found => ?_
    obtain ⟨k, -, found⟩ := Option.bind_eq_some_iff.mp found
    exact (Value.all_array_iff.mp hc).2 w (List.mem_of_getElem? found)
  · next entries =>
    obtain ⟨key, -, rfl⟩ := except_map_eq_ok_iff.mp h
    refine ordinary.all_getD fun w found => ?_
    exact (Value.all_hash_iff.mp hc).2 (key, w) (Table.mem_of_get? found)
  · cases h

theorem all_size {v w : Value} (h : Builtin.size v = .ok w) : w.All p := by
  obtain ⟨n, rfl⟩ : ∃ n, w = .integer n := by
    unfold Builtin.size at h
    split at h
    · obtain ⟨n, -, rfl⟩ := except_map_eq_ok_iff.mp h
      exact ⟨n, rfl⟩
    · obtain ⟨n, -, rfl⟩ := except_map_eq_ok_iff.mp h
      exact ⟨n, rfl⟩
    · cases h
  exact ordinary.all_integer n

theorem all_result {b : Builtin} {arguments : List Value} {w : Value}
    (given : ∀ v ∈ arguments, v.All p) (h : b.result arguments = .ok w) : w.All p := by
  replace h := Builtin.apply_of_result_eq_ok h
  unfold Builtin.apply at h
  split at h
  · exact ordinary.all_size h
  · refine (given _ (by simp)).requireArray (fun elements good => ?_) h
    exact ordinary.all_getD fun v found => good v (List.mem_of_head? found)
  · refine (given _ (by simp)).requireArray (fun elements good => ?_) h
    exact ordinary.all_getD fun v found => good v (List.mem_of_getLast? found)
  · refine (given _ (by simp)).requireArray (fun elements good => ?_) h
    cases elements with
    | nil => exact ordinary.all_null
    | cons _ elements => exact ordinary.all_array fun v mem => good v (List.mem_cons_of_mem _ mem)
  · next v element =>
    refine (given v (by simp)).requireArray (fun elements good => ?_) h
    refine ordinary.all_array fun u mem => ?_
    rcases List.mem_append.mp mem with mem | mem
    · exact good u mem
    · exact given u (by simp_all)
  · cases h
    exact ordinary.all_null

end Ordinary

/-! ### Wrapped returns -/

/-- Whether the value of a statement ends the block that the statement stands in. -/
def endsBlock : Option Value → Bool
  | some (.returned _) => true
  | _ => false

theorem endsBlock_iff {value : Option Value} :
    endsBlock value = true ↔ ∃ v, value = some (.returned v) := by
  rcases value with _ | v
  · simp [endsBlock]
  · cases v <;> simp [endsBlock]

theorem Stmt.execAll_cons (depth : Nat) (scope : Scope) (last : Option Value) (s : Stmt)
    (ss : List Stmt) :
    Stmt.execAll depth scope last (s :: ss) = s.exec depth scope >>= fun value =>
      if endsBlock value then pure value else Stmt.execAll depth scope value ss := by
  rw [Stmt.execAll]
  congr 1
  funext value
  rcases value with _ | v
  · rfl
  · cases v <;> rfl

/-- Statements in a row go on after one whose value does not end the block. -/
theorem Stmt.runOn_execAll_cons {depth : Nat} {scope : Scope} {last value : Option Value} {s : Stmt}
    {ss : List Stmt} {store after : Store}
    (first : (s.exec depth scope).runOn store = (.ok value, after)) (on : endsBlock value = false) :
    (Stmt.execAll depth scope last (s :: ss)).runOn store =
      (Stmt.execAll depth scope value ss).runOn after := by
  rw [Stmt.execAll_cons, Eval.runOn_bind, first]
  simp only [on, Bool.false_eq_true, if_false]

/-- `p` holds of every ordinary value and of no wrapped return. -/
structure Unwrapped (p : Value → Prop) : Prop extends Ordinary p where
  returned : ∀ v, ¬ p (.returned v)

/-- `p` holds of every ordinary value and of every wrapped return. -/
structure Wrappable (p : Value → Prop) : Prop extends Ordinary p where
  returned : ∀ v, p (.returned v)

theorem Wrappable.top : Wrappable fun _ => True where
  integer _ := trivial
  boolean _ := trivial
  null := trivial
  text _ := trivial
  array _ := trivial
  hash _ := trivial
  builtin _ := trivial
  returned _ := trivial

/-- Every part of the value of a statement, if it has one, satisfies `p`. -/
def AllParts (p : Value → Prop) (value : Option Value) : Prop :=
  ∀ v, value = some v → v.All p

namespace Wrappable

variable {p : Value → Prop} (wrappable : Wrappable p)

include wrappable

theorem all_returned_iff {v : Value} : (Value.returned v).All p ↔ v.All p := by
  constructor
  · intro h part within
    exact h part (.inside within)
  · intro h part within
    cases within with
    | self => exact wrappable.returned v
    | inside within => exact h part within

theorem all_unwrap {v : Value} (h : v.All p) : v.unwrap.All p := by
  cases v with
  | returned v => exact wrappable.all_returned_iff.mp h
  | _ => exact h

theorem all_callResult {value : Option Value} (h : AllParts p value) :
    (callResult value).All p := by
  cases value with
  | none => exact wrappable.all_null
  | some v => exact wrappable.all_unwrap (h v rfl)

end Wrappable

/-- A value that is handed on: `p` holds of all its parts, or it is a wrapped return, if `wrapped`
admits that, and `p` holds of all parts of what is inside. -/
def Handed (p : Value → Prop) (wrapped : Bool) (v : Value) : Prop :=
  v.All p ∨ wrapped = true ∧ ∃ w : Value, v = .returned w ∧ w.All p

namespace Handed

variable {p : Value → Prop} {wrapped : Bool}

theorem mono {wrapped' : Bool} {v : Value} (h : Handed p wrapped v)
    (imp : wrapped = true → wrapped' = true) : Handed p wrapped' v :=
  h.imp id fun ⟨w, rest⟩ => ⟨imp w, rest⟩

theorem all_of_not_wrapped {v : Value} (h : Handed p wrapped v) (plain : wrapped = false) :
    v.All p := by
  rcases h with h | ⟨rfl, -⟩
  · exact h
  · cases plain

/-- The value that is left when a wrapping is taken off. -/
theorem unwrap {v : Value} (h : Handed p wrapped v) (unwrapped : Unwrapped p) :
    v.unwrap.All p := by
  rcases h with h | ⟨-, w, rfl, h⟩
  · cases v with
    | returned w => exact absurd h.self (unwrapped.returned w)
    | _ => exact h
  · exact h

theorem getD {value : Option Value} (h : ∀ v, value = some v → Handed p wrapped v)
    (ordinary : Ordinary p) : Handed p wrapped (value.getD .null) := by
  cases value with
  | none => exact .inl ordinary.all_null
  | some v => exact h v rfl

theorem callResult {value : Option Value} (h : ∀ v, value = some v → Handed p wrapped v)
    (unwrapped : Unwrapped p) : (callResult value).All p := by
  cases value with
  | none => exact unwrapped.all_null
  | some v => exact (h v rfl).unwrap unwrapped

theorem all_of_not_endsBlock {value : Option Value} (h : ∀ v, value = some v → Handed p wrapped v)
    (on : ¬ endsBlock value = true) : ∀ v, value = some v → v.All p := by
  rintro v rfl
  rcases h v rfl with h | ⟨-, w, rfl, -⟩
  · exact h
  · exact absurd rfl on

end Handed

/-! ### Values in the store -/

namespace Store

/-- Every value that is bound in a visible frame has only parts that satisfy `p`. -/
def Holds (visible : Nat → Prop) (p : Value → Prop) (store : Store) : Prop :=
  ∀ i frame, visible i → store.frames[i]? = some frame → ∀ entry ∈ frame, entry.2.All p

theorem frames_printLines (store : Store) (lines : List String) :
    (lines.foldl printLine store).frames = store.frames := by
  induction lines generalizing store with
  | nil => rfl
  | cons line lines ih => exact ih (store.printLine line)

theorem size_assignAll (store : Store) (scope : Scope) (bindings : List (String × Value)) :
    (store.assignAll scope bindings).frames.size = store.frames.size := by
  induction bindings generalizing store with
  | nil => rfl
  | cons entry bindings ih => rw [assignAll, ih, size_assign]

theorem size_enter (store : Store) (f : Closure) (arguments : List Value) :
    (f.enter arguments store).2.frames.size = store.frames.size + 1 := by
  rw [Closure.enter, size_assignAll, enclose, size_openFrame]

/-- Some frame binds some name to the value. -/
def Binds (store : Store) (v : Value) : Prop :=
  ∃ (i : Nat) (frame : Frame) (name : String), store.frames[i]? = some frame ∧ (name, v) ∈ frame

theorem Binds.of_single_frame {frame : Frame} {closures : Nat} {output : String} {v : Value}
    (h : (⟨#[frame], closures, output⟩ : Store).Binds v) : ∃ name, (name, v) ∈ frame := by
  obtain ⟨i, found, name, here, mem⟩ := h
  cases i with
  | zero =>
      cases here
      exact ⟨name, mem⟩
  | succ i => cases here

theorem holds_iff {p : Value → Prop} {store : Store} :
    store.Holds (fun _ => True) p ↔ ∀ v, store.Binds v → v.All p := by
  constructor
  · rintro h v ⟨i, frame, name, found, mem⟩
    exact h i frame trivial found (name, v) mem
  · intro h i frame _ found entry mem
    exact h entry.2 ⟨i, frame, entry.1, found, mem⟩

namespace Holds

variable {visible : Nat → Prop} {p : Value → Prop} {store : Store}

theorem of_frames_eq {store' : Store} (h : store.Holds visible p)
    (same : store'.frames = store.frames) : store'.Holds visible p := by
  intro i frame seen found
  rw [same] at found
  exact h i frame seen found

theorem lookup {scope : Scope} {name : String} {v : Value} (h : store.Holds visible p)
    (seen : ∀ i ∈ scope.frames, visible i) (found : store.lookup scope name = some v) :
    v.All p := by
  obtain ⟨i, mem, found⟩ := List.exists_of_findSome?_eq_some found
  obtain ⟨frame, here, found⟩ := Option.bind_eq_some_iff.mp found
  exact h i frame (seen i mem) here (name, v) (Table.mem_of_get? found)

theorem nameValue {scope : Scope} {name : String} {v : Value} (h : store.Holds visible p)
    (ordinary : Ordinary p) (seen : ∀ i ∈ scope.frames, visible i)
    (found : nameValue scope name store = .ok v) : v.All p := by
  unfold Marmoset.nameValue at found
  split at found
  · next bound =>
    cases found
    exact h.lookup seen bound
  · split at found <;> cases found
    exact ordinary.all_builtin _

theorem assign {scope : Scope} {name : String} {v : Value} (h : store.Holds visible p)
    (hv : v.All p) : (store.assign scope name v).Holds visible p := by
  intro i frame seen found entry mem
  rw [getElem?_assign] at found
  split at found
  · obtain ⟨before, here, rfl⟩ := Option.map_eq_some_iff.mp found
    rcases Table.mem_insert mem with rfl | mem
    · exact hv
    · exact h i before seen here entry mem
  · exact h i frame seen found entry mem

theorem assignAll {scope : Scope} {bindings : List (String × Value)} (h : store.Holds visible p)
    (good : ∀ entry ∈ bindings, entry.2.All p) :
    (store.assignAll scope bindings).Holds visible p := by
  induction bindings generalizing store with
  | nil => exact h
  | cons entry bindings ih =>
    refine ih (h.assign (good entry List.mem_cons_self)) fun entry mem => ?_
    exact good entry (List.mem_cons_of_mem _ mem)

theorem openFrame (h : store.Holds visible p) (outer : List Nat) :
    (store.openFrame outer).2.Holds visible p := by
  intro i frame seen found entry mem
  rw [getElem?_openFrame] at found
  split at found
  · cases found
    cases mem
  · exact h i frame seen found entry mem

/-- Entering a call binds the parameters to the arguments, and nothing else. -/
theorem enter (h : store.Holds visible p) (f : Closure) {arguments : List Value}
    (given : ∀ v ∈ arguments, v.All p) : (f.enter arguments store).2.Holds visible p := by
  refine (h.openFrame f.scope.frames).assignAll fun entry mem => ?_
  exact given entry.2 (List.of_mem_zip mem).2

end Holds

end Store

end Marmoset
