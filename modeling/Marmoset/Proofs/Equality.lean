import Mathlib.Data.List.Perm.Subperm
import Marmoset.Proofs.ValueParts

/-! # Equality of values

`Value.equal` compares hashes from one side: as many entries, and every key of the first has an
equal value in the second.  When the keys of a hash are distinct (`Value.KeysDistinct`), which
insertion sees to, this is the same as asking for every key on both sides
(`Value.entriesIn_iff_looksUp`): a list without repetition that is contained in one of the same
length has all its elements.

So two values with distinct keys are equal exactly when they are `Value.Alike`: of the same shape,
with equal parts at the same places.  Everything else is read off this one statement, by induction
over the parts of a value (`Value.Part`): equality is an equivalence relation, and the operations
that take values apart cannot tell equal values from each other. -/

namespace Marmoset

/-! ### Results at the same place -/

section SamePlace

variable {α : Type} {R : α → α → Prop} {a b c : Option α}

theorem optionRel_refl (h : ∀ x, a = some x → R x x) : Option.Rel R a a := by
  cases a with
  | none => exact .none
  | some x => exact .some (h x rfl)

theorem optionRel_symm (h : ∀ x, a = some x → ∀ y, b = some y → R x y → R y x)
    (hab : Option.Rel R a b) : Option.Rel R b a := by
  cases hab with
  | none => exact .none
  | some same => exact .some (h _ rfl _ rfl same)

theorem optionRel_trans
    (h : ∀ x, a = some x → ∀ y, b = some y → ∀ z, c = some z → R x y → R y z → R x z)
    (hab : Option.Rel R a b) (hbc : Option.Rel R b c) : Option.Rel R a c := by
  cases hab with
  | none =>
    cases hbc
    exact .none
  | some same =>
    cases hbc with
    | some same' => exact .some (h _ rfl _ rfl _ rfl same same')

/-- Lists with related elements at the same places have the same length. -/
theorem length_eq_of_optionRel {as bs : List α} (h : ∀ i : Nat, Option.Rel R as[i]? bs[i]?) :
    as.length = bs.length := by
  have none_iff (i : Nat) : as[i]? = none ↔ bs[i]? = none := by
    have := h i
    cases ha : as[i]? <;> cases hb : bs[i]? <;> rw [ha, hb] at this <;> simp
    all_goals cases this
  have le := List.getElem?_eq_none_iff.mp ((none_iff bs.length).mpr (by simp))
  have ge := List.getElem?_eq_none_iff.mp ((none_iff as.length).mp (by simp))
  exact Nat.le_antisymm le ge

end SamePlace

/-- A list without repetition that is contained in one of the same length has all its elements. -/
theorem subset_of_length_eq {α : Type} {as bs : List α} (distinct : as.Nodup) (subset : as ⊆ bs)
    (length : as.length = bs.length) : bs ⊆ as := by
  have perm : as.Perm bs :=
    (List.subperm_of_subset distinct subset).perm_of_length_le (Nat.le_of_eq length.symm)
  exact perm.symm.subset

namespace Value

/-! ### Hashes with distinct keys -/

/-- A hash has distinct keys, as insertion leaves them. -/
def KeysDistinct : Value → Prop
  | .hash entries => (Table.keys entries).Nodup
  | _ => True

/-- Every key has equal values in two tables, or no value in both. -/
def LooksUp (R : Value → Value → Prop) (as bs : Table Key Value) : Prop :=
  ∀ k, Option.Rel R (Table.get? as k) (Table.get? bs k)

theorem LooksUp.mem_keys_iff {R : Value → Value → Prop} {as bs : Table Key Value}
    (h : LooksUp R as bs) (k : Key) : k ∈ Table.keys as ↔ k ∈ Table.keys bs := by
  rw [← not_iff_not, ← Table.get?_eq_none_iff, ← Table.get?_eq_none_iff]
  have := h k
  cases ha : Table.get? as k <;> cases hb : Table.get? bs k <;> rw [ha, hb] at this <;> simp
  all_goals cases this

theorem equalAll_iff {as bs : List Value} :
    equalAll as bs = true ↔ ∀ i : Nat, Option.Rel (equal · · = true) as[i]? bs[i]? := by
  induction as generalizing bs with
  | nil =>
    cases bs with
    | nil => simp [equalAll]
    | cons b bs =>
      refine iff_of_false (by simp [equalAll]) fun h => ?_
      cases h 0
  | cons a as ih =>
    cases bs with
    | nil =>
      refine iff_of_false (by simp [equalAll]) fun h => ?_
      cases h 0
    | cons b bs =>
      rw [equalAll, Bool.and_eq_true, ih]
      constructor
      · rintro ⟨first, rest⟩ (_ | i)
        · exact .some first
        · exact rest i
      · intro h
        refine ⟨?_, fun i => h (i + 1)⟩
        cases h 0 with
        | some first => exact first

theorem entriesIn_iff {as bs : List (Key × Value)} :
    entriesIn as bs = true ↔
      ∀ entry ∈ as, ∃ b, Table.get? bs entry.1 = some b ∧ entry.2.equal b = true := by
  induction as with
  | nil => simp [entriesIn]
  | cons entry as ih =>
    obtain ⟨key, a⟩ := entry
    rw [entriesIn, Bool.and_eq_true, ih, List.forall_mem_cons]
    cases Table.get? bs key <;> simp

/-- With distinct keys it is enough to count the entries and to look from one side. -/
theorem entriesIn_iff_looksUp {as bs : List (Key × Value)} (das : (Table.keys as).Nodup)
    (dbs : (Table.keys bs).Nodup) :
    as.length = bs.length ∧ entriesIn as bs = true ↔ LooksUp (equal · · = true) as bs := by
  have length (entries : List (Key × Value)) : (Table.keys entries).length = entries.length :=
    List.length_map ..
  rw [entriesIn_iff]
  constructor
  · rintro ⟨count, found⟩ k
    have subset : Table.keys as ⊆ Table.keys bs := by
      intro k hk
      obtain ⟨entry, mem, rfl⟩ := List.mem_map.mp hk
      obtain ⟨b, hb, -⟩ := found entry mem
      exact List.mem_map.mpr ⟨_, Table.mem_of_get? hb, rfl⟩
    cases ha : Table.get? as k with
    | none =>
      have absent : k ∉ Table.keys bs := fun hk => Table.get?_eq_none_iff.mp ha
        (subset_of_length_eq das subset (by rw [length, length, count]) hk)
      rw [Table.get?_eq_none_iff.mpr absent]
      exact .none
    | some a =>
      obtain ⟨b, hb, same⟩ := found (k, a) (Table.mem_of_get? ha)
      rw [hb]
      exact .some same
  · intro h
    have perm : (Table.keys as).Perm (Table.keys bs) :=
      (List.perm_ext_iff_of_nodup das dbs).mpr h.mem_keys_iff
    refine ⟨by rw [← length as, ← length bs, perm.length_eq], fun entry mem => ?_⟩
    have here := h entry.1
    rw [Table.get?_of_mem das mem] at here
    generalize Table.get? bs entry.1 = found at here
    cases here with
    | some same => exact ⟨_, rfl, same⟩

/-! ### The parts at the places of a value -/

/-- `part` stands at a place of `v`. -/
inductive Part (part : Value) : Value → Prop
  | element {elements : List Value} {i : Nat} :
      elements[i]? = some part → Part part (.array elements)
  | entry {entries : List (Key × Value)} {k : Key} :
      Table.get? entries k = some part → Part part (.hash entries)
  | inside : Part part (.returned part)

theorem Part.sizeOf_lt {part v : Value} (h : Part part v) : sizeOf part < sizeOf v := by
  cases h with
  | element at_i =>
    have := List.sizeOf_lt_of_mem (List.mem_of_getElem? at_i)
    simp
    omega
  | entry at_k =>
    have := List.sizeOf_lt_of_mem (Table.mem_of_get? at_k)
    simp at this ⊢
    omega
  | inside => simp

/-- Induction over values: what holds of a value when it holds of the parts of it. -/
theorem part_wellFounded : WellFounded Part :=
  Subrelation.wf Part.sizeOf_lt (measure sizeOf).wf

theorem Part.all {p : Value → Prop} {part v : Value} (h : Part part v) (all : v.All p) :
    part.All p := by
  cases h with
  | element at_i => exact (all_array_iff.mp all).2 _ (List.mem_of_getElem? at_i)
  | entry at_k => exact (all_hash_iff.mp all).2 _ (Table.mem_of_get? at_k)
  | inside => exact fun part within => all part (.inside within)

/-! ### Values of the same shape -/

/-- Two values of the same shape, with related parts at the same places.  Functions have no parts:
they are the same when they have the same number. -/
inductive Alike (R : Value → Value → Prop) : Value → Value → Prop
  | integer (n : Int64) : Alike R (.integer n) (.integer n)
  | boolean (b : Bool) : Alike R (.boolean b) (.boolean b)
  | null : Alike R .null .null
  | text (s : String) : Alike R (.text s) (.text s)
  | array {as bs : List Value} :
      (∀ i : Nat, Option.Rel R as[i]? bs[i]?) → Alike R (.array as) (.array bs)
  | hash {as bs : List (Key × Value)} : LooksUp R as bs → Alike R (.hash as) (.hash bs)
  | function {f g : Closure} : f.id = g.id → Alike R (.function f) (.function g)
  | builtin (b : Builtin) : Alike R (.builtin b) (.builtin b)
  | returned {a b : Value} : R a b → Alike R (.returned a) (.returned b)
  | error (e : RuntimeError) : Alike R (.error e) (.error e)

namespace Alike

variable {R : Value → Value → Prop} {a b c : Value}

theorem refl (h : ∀ x, Part x a → R x x) : Alike R a a := by
  cases a with
  | integer n => exact .integer n
  | boolean b => exact .boolean b
  | null => exact .null
  | text s => exact .text s
  | array as => exact .array fun i => optionRel_refl fun x at_i => h x (.element at_i)
  | hash as => exact .hash fun k => optionRel_refl fun x at_k => h x (.entry at_k)
  | function f => exact .function rfl
  | builtin b => exact .builtin b
  | returned a => exact .returned (h a .inside)
  | error e => exact .error e

theorem symm (h : ∀ x, Part x a → ∀ y, Part y b → R x y → R y x) (hab : Alike R a b) :
    Alike R b a := by
  cases hab with
  | integer n => exact .integer n
  | boolean b => exact .boolean b
  | null => exact .null
  | text s => exact .text s
  | array same =>
    refine .array fun i => optionRel_symm (fun x hx y hy => ?_) (same i)
    exact h x (.element hx) y (.element hy)
  | hash same =>
    refine .hash fun k => optionRel_symm (fun x hx y hy => ?_) (same k)
    exact h x (.entry hx) y (.entry hy)
  | function same => exact .function same.symm
  | builtin b => exact .builtin b
  | returned same => exact .returned (h _ .inside _ .inside same)
  | error e => exact .error e

theorem trans (h : ∀ x, Part x a → ∀ y, Part y b → ∀ z, Part z c → R x y → R y z → R x z)
    (hab : Alike R a b) (hbc : Alike R b c) : Alike R a c := by
  cases hab with
  | integer | boolean | null | text | builtin | error => exact hbc
  | array same =>
    cases hbc with
    | array same' =>
      refine .array fun i => optionRel_trans (fun x hx y hy z hz => ?_) (same i) (same' i)
      exact h x (.element hx) y (.element hy) z (.element hz)
  | hash same =>
    cases hbc with
    | hash same' =>
      refine .hash fun k => optionRel_trans (fun x hx y hy z hz => ?_) (same k) (same' k)
      exact h x (.entry hx) y (.entry hy) z (.entry hz)
  | function same =>
    cases hbc with
    | function same' => exact .function (same.trans same')
  | returned same =>
    cases hbc with
    | returned same' => exact .returned (h _ .inside _ .inside _ .inside same same')

theorem tag_eq (h : Alike R a b) : a.tag = b.tag := by
  cases h <;> rfl

theorem key?_eq (h : Alike R a b) : a.key? = b.key? := by
  cases h <;> rfl

theorem requireKey_eq (h : Alike R a b) : a.requireKey = b.requireKey := by
  rw [requireKey, requireKey, h.key?_eq, h.tag_eq]

end Alike

/-- Values with distinct keys are equal when they have the same shape and equal parts. -/
theorem equal_iff_alike {a b : Value} (da : a.KeysDistinct) (db : b.KeysDistinct) :
    a.equal b = true ↔ Alike (equal · · = true) a b := by
  constructor
  · intro h
    unfold equal at h
    split at h
    · exact beq_iff_eq.mp h ▸ .integer _
    · exact beq_iff_eq.mp h ▸ .boolean _
    · exact .null
    · exact beq_iff_eq.mp h ▸ .text _
    · exact .array (equalAll_iff.mp h)
    · rw [Bool.and_eq_true, beq_iff_eq] at h
      exact .hash ((entriesIn_iff_looksUp da db).mp h)
    · exact .function (beq_iff_eq.mp h)
    · exact beq_iff_eq.mp h ▸ .builtin _
    · exact .returned h
    · exact beq_iff_eq.mp h ▸ .error _
    · cases h
  · intro h
    cases h with
    | integer | boolean | null | text | builtin | error => simp [equal]
    | array same => exact equalAll_iff.mpr same
    | hash same =>
      rw [equal, Bool.and_eq_true, beq_iff_eq]
      exact (entriesIn_iff_looksUp da db).mpr same
    | function same => exact beq_iff_eq.mpr same
    | returned same => exact same

/-! ### An equivalence relation -/

theorem equal_refl {a : Value} (da : a.All KeysDistinct) : a.equal a = true := by
  induction a using part_wellFounded.induction with
  | h a ih =>
    rw [equal_iff_alike da.self da.self]
    exact .refl fun x part => ih x part (part.all da)

theorem equal_symm {a b : Value} (da : a.All KeysDistinct) (db : b.All KeysDistinct)
    (h : a.equal b = true) : b.equal a = true := by
  induction a using part_wellFounded.induction generalizing b with
  | h a ih =>
    rw [equal_iff_alike da.self db.self] at h
    rw [equal_iff_alike db.self da.self]
    exact h.symm fun x hx y hy => ih x hx (hx.all da) (hy.all db)

theorem equal_trans {a b c : Value} (da : a.All KeysDistinct) (db : b.All KeysDistinct)
    (dc : c.All KeysDistinct) (hab : a.equal b = true) (hbc : b.equal c = true) :
    a.equal c = true := by
  induction a using part_wellFounded.induction generalizing b c with
  | h a ih =>
    rw [equal_iff_alike da.self db.self] at hab
    rw [equal_iff_alike db.self dc.self] at hbc
    rw [equal_iff_alike da.self dc.self]
    exact hab.trans (fun x hx y hy z hz => ih x hx (hx.all da) (hy.all db) (hz.all dc)) hbc

/-- Values that can be keys are equal when they are the same key. -/
theorem equal_iff_of_key? {a b : Value} {k k' : Key} (ha : a.key? = some k)
    (hb : b.key? = some k') : a.equal b = true ↔ k = k' := by
  obtain rfl := key?_eq_some_iff.mp ha
  obtain rfl := key?_eq_some_iff.mp hb
  cases k <;> cases k' <;> simp [Key.toValue, equal]

/-- Hashes with distinct keys are equal when they have the same keys with equal values, in whatever
order. -/
theorem equal_hash_iff {as bs : Table Key Value} (das : (Table.keys as).Nodup)
    (dbs : (Table.keys bs).Nodup) :
    (hash as).equal (hash bs) = true ↔
      (∀ k, k ∈ Table.keys as ↔ k ∈ Table.keys bs) ∧
      ∀ k a b, (k, a) ∈ as → (k, b) ∈ bs → a.equal b = true := by
  rw [equal, Bool.and_eq_true, beq_iff_eq, entriesIn_iff_looksUp das dbs]
  constructor
  · intro h
    refine ⟨h.mem_keys_iff, fun k a b ha hb => ?_⟩
    have here := h k
    rw [Table.get?_of_mem das ha, Table.get?_of_mem dbs hb] at here
    cases here with
    | some same => exact same
  · rintro ⟨keys, values⟩ k
    cases ha : Table.get? as k with
    | none =>
      have absent : k ∉ Table.keys bs := fun hk => Table.get?_eq_none_iff.mp ha ((keys k).mpr hk)
      rw [Table.get?_eq_none_iff.mpr absent]
      exact .none
    | some a =>
      have mem := Table.mem_of_get? ha
      obtain ⟨⟨_, b⟩, hb, rfl⟩ := List.mem_map.mp ((keys k).mp (List.mem_map_of_mem mem))
      rw [Table.get?_of_mem dbs hb]
      exact .some (values _ a b mem hb)

/-! ### Operations on equal values -/

/-- Two results are equal values or the same error. -/
inductive SameResult : Except RuntimeError Value → Except RuntimeError Value → Prop
  | ok {a b : Value} : a.equal b = true → SameResult (.ok a) (.ok b)
  | error (e : RuntimeError) : SameResult (.error e) (.error e)

theorem sameResult_getD {a b : Option Value} (h : Option.Rel (equal · · = true) a b) :
    SameResult (.ok (a.getD null)) (.ok (b.getD null)) := by
  cases h with
  | none => exact .ok (by simp [equal])
  | some same => exact .ok same

variable {a a' b b' : Value}

theorem Alike.index (ha : Alike (equal · · = true) a a') (hb : Alike (equal · · = true) b b') :
    SameResult (a.index b) (a'.index b') := by
  cases ha with
  | array same =>
    cases hb with
    | integer n =>
      cases at_n : Integer.toSize? n with
      | none => simpa [Value.index, at_n] using sameResult_getD .none
      | some i => simpa [Value.index, at_n] using sameResult_getD (same i)
    | _ => exact .error _
  | hash same =>
    simp only [Value.index, hb.requireKey_eq]
    cases b'.requireKey with
    | error e => exact .error e
    | ok k => exact sameResult_getD (same k)
  | _ => exact .error _

/-- Functions of the elements of an array that have equal results on equal elements. -/
theorem Alike.requireArray {name : String} {f g : List Value → Value}
    (h : Alike (equal · · = true) a a')
    (hfg : ∀ as bs : List Value, (∀ i : Nat, Option.Rel (equal · · = true) as[i]? bs[i]?) →
      SameResult (.ok (f as)) (.ok (g bs))) :
    SameResult ((Marmoset.requireArray name a).map f) ((Marmoset.requireArray name a').map g) := by
  cases h with
  | array same => exact hfg _ _ same
  | _ => exact .error _

theorem Alike.size (h : Alike (equal · · = true) a a') :
    SameResult (Builtin.size a) (Builtin.size a') := by
  have count (n : Nat) :
      SameResult ((requireSize n).map .integer) ((requireSize n).map .integer) := by
    cases requireSize n with
    | error e => exact .error e
    | ok value => exact .ok (by simp [equal])
  cases h with
  | text s => exact count s.length
  | array same =>
    rw [Builtin.size, Builtin.size, length_eq_of_optionRel same]
    exact count _
  | _ => exact .error _

theorem sameResult_tail {as bs : List Value}
    (h : ∀ i : Nat, Option.Rel (equal · · = true) as[i]? bs[i]?) :
    SameResult (.ok (Builtin.tail as)) (.ok (Builtin.tail bs)) := by
  cases as with
  | nil =>
    cases bs with
    | nil => exact .ok (by simp [Builtin.tail, equal])
    | cons b bs => cases h 0
  | cons a as =>
    cases bs with
    | nil => cases h 0
    | cons b bs =>
      refine .ok ?_
      rw [Builtin.tail, Builtin.tail, equal, equalAll_iff]
      exact fun i => h (i + 1)

theorem sameResult_append {as bs : List Value}
    (h : ∀ i : Nat, Option.Rel (equal · · = true) as[i]? bs[i]?) (hb : b.equal b' = true) :
    SameResult (.ok (.array (as ++ [b]))) (.ok (.array (bs ++ [b']))) := by
  refine .ok ?_
  rw [equal, equalAll_iff]
  intro i
  rw [List.getElem?_append, List.getElem?_append, length_eq_of_optionRel h]
  split
  · exact h i
  · cases i - bs.length with
    | zero => exact .some hb
    | succ => exact .none

end Value

/-! ### Values that can be met -/

/-- A value whose hashes, at any depth, have distinct keys. -/
structure ProperValue where
  value : Value
  distinct : value.All Value.KeysDistinct

namespace ProperValue

/-- Equality of values. -/
def Same (a b : ProperValue) : Prop :=
  a.value.equal b.value = true

theorem Same.alike {a b : ProperValue} (h : Same a b) :
    Value.Alike (Value.equal · · = true) a.value b.value :=
  (Value.equal_iff_alike a.distinct.self b.distinct.self).mp h

theorem same_equivalence : Equivalence Same where
  refl a := Value.equal_refl a.distinct
  symm {a b} := Value.equal_symm a.distinct b.distinct
  trans {a b c} := Value.equal_trans a.distinct b.distinct c.distinct

theorem exists_single {as bs : List ProperValue} (h : List.Forall₂ Same as bs)
    (one : bs.length = 1) : ∃ a b, as = [a] ∧ bs = [b] ∧ Same a b := by
  obtain ⟨b, rfl⟩ := List.length_eq_one_iff.mp one
  obtain ⟨a, _, same, none, rfl⟩ := List.forall₂_cons_right_iff.mp h
  obtain rfl := List.forall₂_nil_right_iff.mp none
  exact ⟨a, b, rfl, rfl, same⟩

end ProperValue

/-- A built-in function has equal results on equal arguments, or the same error. -/
theorem Builtin.sameResult_result (f : Builtin) {as bs : List ProperValue}
    (h : List.Forall₂ ProperValue.Same as bs) :
    Value.SameResult (f.result (as.map (·.value))) (f.result (bs.map (·.value))) := by
  have lengths : (as.map (·.value)).length = (bs.map (·.value)).length := by
    simp [h.length_eq]
  rcases eq_or_ne f .puts with rfl | notPuts
  · exact Value.sameResult_getD .none
  have takes : f.arity = .exactly f.parameterCount := by
    cases f
    case puts => exact absurd rfl notPuts
    all_goals rfl
  by_cases count : (bs.map (·.value)).length = f.parameterCount
  · rw [List.length_map] at count
    cases f with
    | puts => exact absurd rfl notPuts
    | len =>
      obtain ⟨a, b, rfl, rfl, same⟩ := ProperValue.exists_single h count
      exact same.alike.size
    | first =>
      obtain ⟨a, b, rfl, rfl, same⟩ := ProperValue.exists_single h count
      refine same.alike.requireArray fun as bs elements => ?_
      rw [List.head?_eq_getElem?, List.head?_eq_getElem?]
      exact Value.sameResult_getD (elements 0)
    | last =>
      obtain ⟨a, b, rfl, rfl, same⟩ := ProperValue.exists_single h count
      refine same.alike.requireArray fun as bs elements => ?_
      rw [List.getLast?_eq_getElem?, List.getLast?_eq_getElem?, length_eq_of_optionRel elements]
      exact Value.sameResult_getD (elements _)
    | rest =>
      obtain ⟨a, b, rfl, rfl, same⟩ := ProperValue.exists_single h count
      exact same.alike.requireArray fun as bs elements => Value.sameResult_tail elements
    | push =>
      cases h with
      | nil => cases count
      | cons same later =>
        obtain ⟨x, y, rfl, rfl, same'⟩ := ProperValue.exists_single later (Nat.succ.inj count)
        exact same.alike.requireArray fun as bs elements => Value.sameResult_append elements same'
  · have count' : (as.map (·.value)).length ≠ f.parameterCount := lengths ▸ count
    rw [Builtin.result_of_length_ne takes count, Builtin.result_of_length_ne takes count', lengths]
    exact .error _

/-- **Equality is an equivalence relation that the operations on values respect.**  Over values
whose hashes have distinct keys it is reflexive, symmetric and transitive.  Two hashes are equal
exactly when they have the same keys with equal values, in whatever order; two values that can be
keys are equal exactly when they are the same key.  Indexing equal values with equal values, and a
built-in function on equal arguments, gives equal values or the same error. -/
theorem equality_respected :
    Equivalence ProperValue.Same ∧
    (∀ as bs : Table Key Value, (Table.keys as).Nodup → (Table.keys bs).Nodup →
      ((Value.hash as).equal (.hash bs) = true ↔
        (∀ k, k ∈ Table.keys as ↔ k ∈ Table.keys bs) ∧
        ∀ k a b, (k, a) ∈ as → (k, b) ∈ bs → a.equal b = true)) ∧
    (∀ (a b : Value) (k k' : Key), a.key? = some k → b.key? = some k' →
      (a.equal b = true ↔ k = k')) ∧
    (∀ a a' b b' : ProperValue, a.Same a' → b.Same b' →
      Value.SameResult (a.value.index b.value) (a'.value.index b'.value)) ∧
    ∀ (f : Builtin) (as bs : List ProperValue), List.Forall₂ ProperValue.Same as bs →
      Value.SameResult (f.result (as.map (·.value))) (f.result (bs.map (·.value))) :=
  ⟨ProperValue.same_equivalence, fun _ _ => Value.equal_hash_iff,
    fun _ _ _ _ => Value.equal_iff_of_key?, fun _ _ _ _ same same' => same.alike.index same'.alike,
    fun f _ _ same => f.sameResult_result same⟩

/-- The hashes `{1: [true], "k": {}}` and `{"k": {}, 1: [true]}` are equal both ways, and indexing
them with `1` and pushing onto what is found there gives equal values. -/
theorem equality_respected_reordered :
    ∃ a b : ProperValue,
      a.value = .hash [(.integer 1, .array [.boolean true]), (.text "k", .hash [])] ∧
      b.value = .hash [(.text "k", .hash []), (.integer 1, .array [.boolean true])] ∧
      a.Same b ∧ b.Same a ∧
      Value.SameResult (a.value.index (.integer 1)) (b.value.index (.integer 1)) ∧
      Value.SameResult (Builtin.push.result [.array [a.value], a.value])
        (Builtin.push.result [.array [b.value], b.value]) := by
  have boolean : (Value.boolean true).All Value.KeysDistinct := by
    rintro part ⟨⟩
    trivial
  have integer : (Value.integer 1).All Value.KeysDistinct := by
    rintro part ⟨⟩
    trivial
  have array (v : Value) (hv : v.All Value.KeysDistinct) :
      (Value.array [v]).All Value.KeysDistinct :=
    Value.all_array_iff.mpr ⟨trivial, by simpa using hv⟩
  have empty : (Value.hash []).All Value.KeysDistinct :=
    Value.all_hash_iff.mpr ⟨List.nodup_nil, by simp⟩
  let a : ProperValue := ⟨.hash [(.integer 1, .array [.boolean true]), (.text "k", .hash [])],
    Value.all_hash_iff.mpr ⟨by simp [Value.KeysDistinct, Table.keys],
      by simp [array _ boolean, empty]⟩⟩
  let b : ProperValue := ⟨.hash [(.text "k", .hash []), (.integer 1, .array [.boolean true])],
    Value.all_hash_iff.mpr ⟨by simp [Value.KeysDistinct, Table.keys],
      by simp [array _ boolean, empty]⟩⟩
  obtain ⟨⟨refl, symm, -⟩, -, -, index, builtins⟩ := equality_respected
  have same : a.Same b := by
    simp [ProperValue.Same, a, b, Value.equal, Value.equalAll, Value.entriesIn, Table.get?]
  have arrays : ProperValue.Same ⟨.array [a.value], array _ a.distinct⟩
      ⟨.array [b.value], array _ b.distinct⟩ := by
    rw [ProperValue.Same, Value.equal, Value.equalAll, same]
    rfl
  exact ⟨a, b, rfl, rfl, same, symm same, index a b ⟨_, integer⟩ ⟨_, integer⟩ same (refl _),
    builtins .push [⟨.array [a.value], array _ a.distinct⟩, a]
      [⟨.array [b.value], array _ b.distinct⟩, b] (.cons arrays (.cons same .nil))⟩

end Marmoset
