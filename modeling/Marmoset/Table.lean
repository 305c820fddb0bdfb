/-! # Tables

A table is a list of keys with their values, in the order in which the keys were first inserted.
`Table.get?` looks a key up; `Table.insert` gives a key a new value where it stands, and puts a key
that is not there at the end.  Inserting keeps the keys distinct (`nodup_keys_insert`), and a look-up
sees the last insertion (`get?_insert`). -/

namespace Marmoset

/-- Keys with their values, in order of first insertion. -/
abbrev Table (κ α : Type) := List (κ × α)

namespace Table

variable {κ α : Type} [DecidableEq κ]

/-- The keys of a table, in order. -/
def keys (t : Table κ α) : List κ :=
  t.map Prod.fst

/-- The value of a key. -/
def get? : Table κ α → κ → Option α
  | [], _ => none
  | (k', v) :: t, k => if k' = k then some v else get? t k

/-- Gives a key a value: in its place if it has one, at the end otherwise. -/
def insert : Table κ α → κ → α → Table κ α
  | [], k, v => [(k, v)]
  | (k', v') :: t, k, v => if k' = k then (k, v) :: t else (k', v') :: insert t k v

/-! ### Looking up after inserting -/

theorem get?_insert (t : Table κ α) (k k' : κ) (v : α) :
    (insert t k v).get? k' = if k = k' then some v else get? t k' := by
  induction t with
  | nil => simp [insert, get?]
  | cons entry t ih =>
    obtain ⟨k₁, v₁⟩ := entry
    by_cases h : k₁ = k
    · subst h
      simp only [insert, get?, if_true]
      split <;> simp_all
    · by_cases h' : k = k'
      · subst h'
        simp [insert, get?, h, ih]
      · by_cases h₁ : k₁ = k'
        · subst h₁
          simp [insert, get?, h, h']
        · simp [insert, get?, h, h', h₁, ih]

@[simp] theorem get?_insert_self (t : Table κ α) (k : κ) (v : α) :
    (insert t k v).get? k = some v := by
  simp [get?_insert]

theorem get?_insert_of_ne {t : Table κ α} {k k' : κ} {v : α} (h : k ≠ k') :
    (insert t k v).get? k' = get? t k' := by
  simp [get?_insert, h]

/-! ### Entries -/

theorem mem_of_get? {t : Table κ α} {k : κ} {v : α} (h : get? t k = some v) : (k, v) ∈ t := by
  induction t with
  | nil => cases h
  | cons entry t ih =>
    obtain ⟨k₁, v₁⟩ := entry
    rw [get?] at h
    split at h
    · next same =>
      cases same
      cases h
      exact List.mem_cons_self
    · exact List.mem_cons_of_mem _ (ih h)

/-- An entry after inserting is the inserted one or was there before. -/
theorem mem_insert {t : Table κ α} {k : κ} {v : α} {entry : κ × α} (h : entry ∈ insert t k v) :
    entry = (k, v) ∨ entry ∈ t := by
  induction t with
  | nil => exact .inl (List.mem_singleton.mp h)
  | cons head t ih =>
    obtain ⟨k₁, v₁⟩ := head
    rw [insert] at h
    split at h
    · exact (List.mem_cons.mp h).imp id (List.mem_cons_of_mem _)
    · rcases List.mem_cons.mp h with rfl | h
      · exact .inr List.mem_cons_self
      · exact (ih h).imp id (List.mem_cons_of_mem _)

/-! ### Keys -/

theorem get?_eq_none_iff {t : Table κ α} {k : κ} : get? t k = none ↔ k ∉ keys t := by
  induction t with
  | nil => simp [get?, keys]
  | cons entry t ih =>
    obtain ⟨k₁, v₁⟩ := entry
    by_cases h : k₁ = k
    · simp [get?, keys, h]
    · have h' : ¬ k = k₁ := fun e => h e.symm
      simpa [get?, keys, h, h'] using ih

theorem keys_insert (t : Table κ α) (k : κ) (v : α) :
    keys (insert t k v) = if k ∈ keys t then keys t else keys t ++ [k] := by
  induction t with
  | nil => simp [insert, keys]
  | cons entry t ih =>
    obtain ⟨k₁, v₁⟩ := entry
    by_cases h : k₁ = k
    · simp [insert, keys, h]
    · have h' : ¬ k = k₁ := fun e => h e.symm
      simp only [keys] at ih
      by_cases mem : k ∈ t.map Prod.fst <;> simp_all [insert, keys]

theorem nodup_keys_insert {t : Table κ α} (h : (keys t).Nodup) (k : κ) (v : α) :
    (keys (insert t k v)).Nodup := by
  rw [keys_insert]
  split
  · exact h
  · next absent =>
    rw [List.nodup_append]
    exact ⟨h, by simp, by rintro a ha b hb rfl; simp_all⟩

/-- A key that is not there is put at the end. -/
theorem insert_of_not_mem {t : Table κ α} {k : κ} (h : k ∉ keys t) (v : α) :
    insert t k v = t ++ [(k, v)] := by
  induction t with
  | nil => rfl
  | cons entry t ih =>
    obtain ⟨k', v'⟩ := entry
    have ⟨ne, absent⟩ : k ≠ k' ∧ k ∉ keys t := by simpa [keys] using h
    rw [insert, if_neg (Ne.symm ne), ih absent, List.cons_append]

/-- With distinct keys, every entry is found by its key. -/
theorem get?_of_mem {t : Table κ α} (distinct : (keys t).Nodup) {entry : κ × α} (h : entry ∈ t) :
    get? t entry.1 = some entry.2 := by
  induction t with
  | nil => cases h
  | cons head t ih =>
    obtain ⟨k, v⟩ := head
    have ⟨absent, later⟩ : k ∉ keys t ∧ (keys t).Nodup := by simpa [keys] using distinct
    rw [get?]
    obtain rfl | h := List.mem_cons.mp h
    · exact if_pos rfl
    · have ne : k ≠ entry.1 := fun eq => absent (eq ▸ List.mem_map_of_mem h)
      rw [if_neg ne, ih later h]

end Table

end Marmoset
