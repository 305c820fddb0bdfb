import Mathlib.Data.List.Induction
import Marmoset.Eval

/-! # Hash literals

A hash literal is evaluated pair by pair: a key, whether it can be a key, its value, and then the
next pair.  `PairsYield` says that all pairs of a list get through, with which keys and values and
with which store at the end; `PairFails` says at which of its three steps a pair stops, with which
error and with which store.

The entries that come of it are the pairs inserted into an empty table one after the other
(`Table.insertAll`).  Their keys are the keys of the pairs in the order of their first occurrence
(`Table.keys_insertAll`), and each has the value of its last occurrence (`Table.IsLast`,
`Table.get?_insertAll_iff`). -/

namespace Marmoset

/-! ### Pairs inserted one after the other -/

namespace Table

variable {κ α : Type} [DecidableEq κ]

/-- The table after the pairs are inserted, from left to right. -/
def insertAll (t : Table κ α) (pairs : List (κ × α)) : Table κ α :=
  pairs.foldl (fun t pair => insert t pair.1 pair.2) t

theorem insertAll_append_singleton (t : Table κ α) (pairs : List (κ × α)) (pair : κ × α) :
    insertAll t (pairs ++ [pair]) = insert (insertAll t pairs) pair.1 pair.2 := by
  rw [insertAll, List.foldl_append]
  rfl

/-- The keys stand in the order of their first occurrence. -/
theorem keys_insertAll (pairs : List (κ × α)) :
    keys (insertAll [] pairs) = (keys pairs).eraseDups := by
  induction pairs using List.reverseRecOn with
  | nil => rfl
  | append_singleton pairs pair ih =>
    have split : keys (pairs ++ [pair]) = keys pairs ++ [pair.1] := List.map_append
    rw [insertAll_append_singleton, keys_insert, ih, split, List.eraseDups_append]
    by_cases known : pair.1 ∈ keys pairs
    · simp [List.cons_removeAll, known]
    · simp [List.cons_removeAll, known, List.eraseDups_cons]

theorem nodup_keys_insertAll (pairs : List (κ × α)) : (keys (insertAll [] pairs)).Nodup := by
  induction pairs using List.reverseRecOn with
  | nil => exact List.nodup_nil
  | append_singleton pairs pair ih =>
    rw [insertAll_append_singleton]
    exact nodup_keys_insert ih pair.1 pair.2

/-- The last of the pairs with the key `k` has the value `v`. -/
def IsLast (pairs : List (κ × α)) (k : κ) (v : α) : Prop :=
  ∃ before after, pairs = before ++ (k, v) :: after ∧ k ∉ keys after

omit [DecidableEq κ] in
theorem not_isLast_nil {k : κ} {v : α} : ¬ IsLast [] k v := by
  rintro ⟨before, after, split, -⟩
  exact List.append_ne_nil_of_right_ne_nil before (List.cons_ne_nil _ after) split.symm

omit [DecidableEq κ] in
/-- A pair at the end is the last with its key, and the other keys do not notice it. -/
theorem isLast_append_singleton_iff {pairs : List (κ × α)} {k k' : κ} {v v' : α} :
    IsLast (pairs ++ [(k', v')]) k v ↔ (k' = k ∧ v' = v) ∨ (k' ≠ k ∧ IsLast pairs k v) := by
  constructor
  · rintro ⟨before, after, split, absent⟩
    obtain rfl | ⟨after, pair, rfl⟩ := List.eq_nil_or_concat after
    · obtain ⟨-, same⟩ := List.append_inj' split rfl
      cases same
      exact .inl ⟨rfl, rfl⟩
    · rw [List.concat_eq_append, ← List.cons_append, ← List.append_assoc] at split
      obtain ⟨rfl, same⟩ := List.append_inj' split rfl
      cases same
      have ⟨absent, ne⟩ : k ∉ keys after ∧ k ≠ k' := by
        simpa [keys, not_or] using absent
      exact .inr ⟨ne.symm, before, after, rfl, absent⟩
  · rintro (⟨rfl, rfl⟩ | ⟨ne, before, after, rfl, absent⟩)
    · exact ⟨pairs, [], rfl, List.not_mem_nil⟩
    · refine ⟨before, after ++ [(k', v')], by simp, ?_⟩
      simpa [keys, ne.symm] using absent

/-- A look-up finds the value of the last pair with the key. -/
theorem get?_insertAll_iff {pairs : List (κ × α)} {k : κ} {v : α} :
    get? (insertAll [] pairs) k = some v ↔ IsLast pairs k v := by
  induction pairs using List.reverseRecOn with
  | nil => exact iff_of_false (by simp [insertAll, get?]) not_isLast_nil
  | append_singleton pairs pair ih =>
    rw [insertAll_append_singleton, get?_insert, isLast_append_singleton_iff, ← ih]
    by_cases same : pair.1 = k <;> simp [same]

/-- The entries are the last pairs of all keys. -/
theorem mem_insertAll_iff {pairs : List (κ × α)} {k : κ} {v : α} :
    (k, v) ∈ insertAll [] pairs ↔ IsLast pairs k v := by
  rw [← get?_insertAll_iff]
  exact ⟨get?_of_mem (nodup_keys_insertAll pairs), mem_of_get?⟩

end Table

/-! ### Evaluating pairs -/

/-- The pairs of a hash literal, evaluated in turn with the store `σ`, all get through: they have
these keys and values, and the store after them is the last one. -/
inductive PairsYield (depth : Nat) (scope : Scope) :
    List (Expr × Expr) → Store → List (Key × Value) → Store → Prop
  | nil {σ : Store} : PairsYield depth scope [] σ [] σ
  | cons {key value : Expr} {pairs : List (Expr × Expr)} {k : Key} {v : Value}
      {entries : List (Key × Value)} {σ σ₁ σ₂ σ₃ : Store} :
      (key.eval depth scope).runOn σ = (.ok k.toValue, σ₁) →
      (value.eval depth scope).runOn σ₁ = (.ok v, σ₂) →
      PairsYield depth scope pairs σ₂ entries σ₃ →
      PairsYield depth scope ((key, value) :: pairs) σ ((k, v) :: entries) σ₃

/-- A pair of a hash literal, evaluated with the store `σ`, stops with an error and a store: at its
key, because the key cannot be one, or at its value. -/
inductive PairFails (depth : Nat) (scope : Scope) (key value : Expr) (σ : Store) :
    RuntimeError → Store → Prop
  | key {e : RuntimeError} {σ' : Store} :
      (key.eval depth scope).runOn σ = (.error e, σ') → PairFails depth scope key value σ e σ'
  | notHashable {w : Value} {σ' : Store} :
      (key.eval depth scope).runOn σ = (.ok w, σ') → w.key? = none →
      PairFails depth scope key value σ (.notHashable w.tag) σ'
  | value {k : Key} {e : RuntimeError} {σ₁ σ' : Store} :
      (key.eval depth scope).runOn σ = (.ok k.toValue, σ₁) →
      (value.eval depth scope).runOn σ₁ = (.error e, σ') →
      PairFails depth scope key value σ e σ'

variable {depth : Nat} {scope : Scope} {key value : Expr} {pairs : List (Expr × Expr)}
  {σ σ' : Store} {kvs : List (Key × Value)} {e : RuntimeError}

theorem Value.requireKey_toValue (k : Key) : k.toValue.requireKey = .ok k := by
  rw [Value.requireKey, Value.key?_toValue]

theorem Value.requireKey_of_key?_eq_none {w : Value} (h : w.key? = none) :
    w.requireKey = .error (.notHashable w.tag) := by
  rw [Value.requireKey, h]

/-- What a pair does before the pairs after it are looked at. -/
theorem Expr.runOn_evalPairs_cons (entries : Table Key Value) :
    (Expr.evalPairs depth scope entries ((key, value) :: pairs)).runOn σ =
      match (key.eval depth scope).runOn σ with
      | (.error e, σ₁) => (.error e, σ₁)
      | (.ok w, σ₁) =>
        match w.requireKey with
        | .error e => (.error e, σ₁)
        | .ok k =>
          match (value.eval depth scope).runOn σ₁ with
          | (.error e, σ₂) => (.error e, σ₂)
          | (.ok v, σ₂) =>
            (Expr.evalPairs depth scope (Table.insert entries k v) pairs).runOn σ₂ := by
  rw [Expr.evalPairs, Eval.runOn_bind]
  rcases (key.eval depth scope).runOn σ with ⟨e | w, σ₁⟩
  · rfl
  simp only
  rw [Eval.runOn_bind, Eval.runOn_ofExcept]
  cases w.requireKey with
  | error e => rfl
  | ok k =>
    simp only
    rw [Eval.runOn_bind]
    rcases (value.eval depth scope).runOn σ₁ with ⟨e | v, σ₂⟩ <;> rfl

/-- Pairs that get through are inserted, and evaluation goes on with those after them. -/
theorem PairsYield.runOn_evalPairs_append (h : PairsYield depth scope pairs σ kvs σ')
    (rest : List (Expr × Expr)) (entries : Table Key Value) :
    (Expr.evalPairs depth scope entries (pairs ++ rest)).runOn σ =
      (Expr.evalPairs depth scope (Table.insertAll entries kvs) rest).runOn σ' := by
  induction h generalizing entries with
  | nil => rfl
  | cons hkey hvalue _ ih =>
    rw [List.cons_append, Expr.runOn_evalPairs_cons]
    simp only [hkey, Value.requireKey_toValue, hvalue]
    exact ih _

/-- A pair that stops ends the evaluation, whatever comes after it. -/
theorem PairFails.runOn_evalPairs (h : PairFails depth scope key value σ e σ')
    (rest : List (Expr × Expr)) (entries : Table Key Value) :
    (Expr.evalPairs depth scope entries ((key, value) :: rest)).runOn σ = (.error e, σ') := by
  rw [Expr.runOn_evalPairs_cons]
  cases h with
  | key stops => simp only [stops]
  | notHashable hkey none => simp only [hkey, Value.requireKey_of_key?_eq_none none]
  | value hkey stops => simp only [hkey, Value.requireKey_toValue, stops]

/-- A pair gets through or stops. -/
theorem pair_yields_or_fails (depth : Nat) (scope : Scope) (key value : Expr) (σ : Store) :
    (∃ k v σ', PairsYield depth scope [(key, value)] σ [(k, v)] σ') ∨
      ∃ e σ', PairFails depth scope key value σ e σ' := by
  rcases hkey : (key.eval depth scope).runOn σ with ⟨e | w, σ₁⟩
  · exact .inr ⟨e, σ₁, .key hkey⟩
  cases usable : w.key? with
  | none => exact .inr ⟨_, σ₁, .notHashable hkey usable⟩
  | some k =>
    obtain rfl := Value.key?_eq_some_iff.mp usable
    rcases hvalue : (value.eval depth scope).runOn σ₁ with ⟨e | v, σ₂⟩
    · exact .inr ⟨e, σ₂, .value hkey hvalue⟩
    · exact .inl ⟨k, v, σ₂, .cons hkey hvalue .nil⟩

/-- All pairs get through, or one stops after those before it got through. -/
theorem pairs_yield_or_fail (depth : Nat) (scope : Scope) (pairs : List (Expr × Expr))
    (σ : Store) :
    (∃ kvs σ', PairsYield depth scope pairs σ kvs σ') ∨
      ∃ done key value rest kvs σ₁ e σ', pairs = done ++ (key, value) :: rest ∧
        PairsYield depth scope done σ kvs σ₁ ∧ PairFails depth scope key value σ₁ e σ' := by
  induction pairs generalizing σ with
  | nil => exact .inl ⟨[], σ, .nil⟩
  | cons pair pairs ih =>
    obtain ⟨key, value⟩ := pair
    obtain ⟨k, v, σ₁, first⟩ | ⟨e, σ', stops⟩ := pair_yields_or_fails depth scope key value σ
    · cases first with
      | cons hkey hvalue none =>
        cases none
        obtain ⟨kvs, σ', all⟩ | ⟨done, key', value', rest, kvs, σ₂, e, σ', rfl, before, stops⟩ :=
          ih σ₁
        · exact .inl ⟨_, σ', .cons hkey hvalue all⟩
        · exact .inr ⟨_, key', value', rest, _, σ₂, e, σ', rfl, .cons hkey hvalue before, stops⟩
    · exact .inr ⟨[], key, value, pairs, [], σ, e, σ', rfl, .nil, stops⟩

/-! ### The value of a hash literal -/

theorem Expr.runOn_eval_hash (pairs : List (Expr × Expr)) :
    ((Expr.hash pairs).eval depth scope).runOn σ =
      match (Expr.evalPairs depth scope [] pairs).runOn σ with
      | (.ok entries, σ') => (.ok (.hash entries), σ')
      | (.error e, σ') => (.error e, σ') := by
  rw [Expr.eval, Eval.runOn_bind]
  rcases (Expr.evalPairs depth scope [] pairs).runOn σ with ⟨_ | _, _⟩ <;> rfl

theorem PairsYield.runOn_eval_hash (h : PairsYield depth scope pairs σ kvs σ') :
    ((Expr.hash pairs).eval depth scope).runOn σ =
      (.ok (.hash (Table.insertAll [] kvs)), σ') := by
  have whole := h.runOn_evalPairs_append [] []
  rw [List.append_nil, Expr.evalPairs, Eval.runOn_pure] at whole
  rw [Expr.runOn_eval_hash, whole]

theorem PairFails.runOn_eval_hash {done rest : List (Expr × Expr)} {σ₁ : Store}
    (before : PairsYield depth scope done σ kvs σ₁)
    (stops : PairFails depth scope key value σ₁ e σ') :
    ((Expr.hash (done ++ (key, value) :: rest)).eval depth scope).runOn σ = (.error e, σ') := by
  rw [Expr.runOn_eval_hash, before.runOn_evalPairs_append, stops.runOn_evalPairs]

/-- What stands at a key in the hash of some pairs. -/
theorem Value.index_insertAll {w : Value} {k : Key} (usable : w.key? = some k)
    (kvs : List (Key × Value)) :
    (∀ v, Table.IsLast kvs k v → (Value.hash (Table.insertAll [] kvs)).index w = .ok v) ∧
      (k ∉ Table.keys kvs → (Value.hash (Table.insertAll [] kvs)).index w = .ok .null) := by
  have looked : (Value.hash (Table.insertAll [] kvs)).index w =
      .ok ((Table.get? (Table.insertAll [] kvs) k).getD .null) := by
    obtain rfl := Value.key?_eq_some_iff.mp usable
    rw [Value.index, Value.requireKey_toValue, Except.map]
  rw [looked]
  constructor
  · intro v last
    rw [Table.get?_insertAll_iff.mpr last, Option.getD_some]
  · intro absent
    have none : Table.get? (Table.insertAll [] kvs) k = none := by
      rw [Table.get?_eq_none_iff, Table.keys_insertAll, List.mem_eraseDups]
      exact absent
    rw [none, Option.getD_none]

/-- **A hash literal keeps the first place and the last value of each key, and stops at the first
error.**  When all pairs get through with keys and values `kvs`, the value is a hash whose keys are
distinct, in the order of their first occurrence in `kvs`, each with the value of its last
occurrence; indexing it gives this value, and `null` for a key that does not occur.  When a pair
stops, at its key, because the key cannot be one, or at its value, its error is the result and the
store is the one at that point, whatever pairs come after it.  One of the two is always the case. -/
theorem hash_literal_last_wins (depth : Nat) (scope : Scope) (pairs : List (Expr × Expr))
    (σ : Store) :
    (∀ kvs σ', PairsYield depth scope pairs σ kvs σ' →
      ∃ entries, ((Expr.hash pairs).eval depth scope).runOn σ = (.ok (.hash entries), σ') ∧
        (Table.keys entries).Nodup ∧
        Table.keys entries = (Table.keys kvs).eraseDups ∧
        (∀ k v, (k, v) ∈ entries ↔ Table.IsLast kvs k v) ∧
        ∀ w k, w.key? = some k →
          (∀ v, Table.IsLast kvs k v → (Value.hash entries).index w = .ok v) ∧
          (k ∉ Table.keys kvs → (Value.hash entries).index w = .ok .null)) ∧
    (∀ done key value rest kvs σ₁ e σ', pairs = done ++ (key, value) :: rest →
      PairsYield depth scope done σ kvs σ₁ → PairFails depth scope key value σ₁ e σ' →
      ((Expr.hash pairs).eval depth scope).runOn σ = (.error e, σ')) ∧
    ((∃ kvs σ', PairsYield depth scope pairs σ kvs σ') ∨
      ∃ done key value rest kvs σ₁ e σ', pairs = done ++ (key, value) :: rest ∧
        PairsYield depth scope done σ kvs σ₁ ∧ PairFails depth scope key value σ₁ e σ') := by
  refine ⟨fun kvs σ' all => ?_, ?_, pairs_yield_or_fail depth scope pairs σ⟩
  · exact ⟨Table.insertAll [] kvs, all.runOn_eval_hash, Table.nodup_keys_insertAll kvs,
      Table.keys_insertAll kvs, fun k v => Table.mem_insertAll_iff,
      fun w k usable => Value.index_insertAll usable kvs⟩
  · rintro done key value rest kvs σ₁ e σ' rfl before stops
    exact stops.runOn_eval_hash before

/-- The literal `{1: 10, true: 20, 1: 30}` has two keys, and `30` at the first of them.  The literal
`{1: 10, {}: x}` stops at the key of its second pair, before the unbound `x`. -/
theorem hash_literal_last_wins_repeated_key :
    (∃ entries : Table Key Value,
      ((Expr.hash [(.integer 1, .integer 10), (.boolean true, .integer 20),
          (.integer 1, .integer 30)]).eval 0 ⟨0, []⟩).runOn .empty = (.ok (.hash entries), .empty) ∧
        Table.keys entries = [.integer 1, .boolean true] ∧
        (Value.hash entries).index (.integer 1) = .ok (.integer 30) ∧
        (Value.hash entries).index (.text "1") = .ok .null) ∧
    ((Expr.hash [(.integer 1, .integer 10), (.hash [], .name "x")]).eval 0 ⟨0, []⟩).runOn .empty =
      (.error (.notHashable .hash), .empty) := by
  have integer (n : Int64) :
      ((Expr.integer n).eval 0 ⟨0, []⟩).runOn .empty = (.ok (.integer n), .empty) := by
    rw [Expr.eval, Eval.runOn_pure]
  have boolean (b : Bool) :
      ((Expr.boolean b).eval 0 ⟨0, []⟩).runOn .empty = (.ok (.boolean b), .empty) := by
    rw [Expr.eval, Eval.runOn_pure]
  constructor
  · obtain ⟨entries, value, -, order, -, look⟩ := (hash_literal_last_wins 0 ⟨0, []⟩ _ .empty).1
      [(.integer 1, .integer 10), (.boolean true, .integer 20), (.integer 1, .integer 30)] .empty
      (.cons (integer 1) (integer 10) (.cons (boolean true) (integer 20)
        (.cons (integer 1) (integer 30) .nil)))
    exact ⟨entries, value, order.trans (by decide),
      (look (.integer 1) _ rfl).1 _ ⟨_ :: _ :: [], [], rfl, by decide⟩,
      (look (.text "1") _ rfl).2 (by decide)⟩
  · have empty : ((Expr.hash []).eval 0 ⟨0, []⟩).runOn .empty = (.ok (.hash []), .empty) :=
      PairsYield.nil.runOn_eval_hash
    exact (hash_literal_last_wins 0 ⟨0, []⟩ _ .empty).2.1 [(.integer 1, .integer 10)] (.hash [])
      (.name "x") [] [(.integer 1, .integer 10)] .empty _ .empty rfl
      (.cons (integer 1) (integer 10) .nil) (.notHashable empty rfl)

end Marmoset
