import Mathlib.Data.List.Induction
import Mathlib.Logic.ExistsUnique
import Marmoset.Proofs.Lookup

/-! # What scopes see, from their history

Scopes are made, inside each other or not, and names are bound in them, in any order and through any
of them.  A list of such operations (`ScopeOp`) is a history.  What a name means in a scope at the
end can be read off the history, without a store: a scope has the chain of scopes around it
(`IsChain`), and each of these has been given values for the name (`given`).  The last value of the
innermost scope with one is what counts.

`Host.Records` ties the store to the history: each scope lists the frames of its chain, and each
frame binds a name to the last value given for it.  Every operation keeps this up. -/

namespace Marmoset

/-! ### Operations -/

/-- An operation on scopes.  Scopes are numbered in the order in which they are made. -/
inductive ScopeOp where
  | new
  | enclose (outer : Nat)
  | set (scope : Nat) (name : String) (value : Value)

/-- A store, and the scopes made in it in their order. -/
structure Host where
  store : Store
  scopes : List Scope

namespace Host

def add (w : Host) : Scope × Store → Host
  | (scope, store) => ⟨store, w.scopes ++ [scope]⟩

/-- Performs an operation, if the scope that it is about has been made. -/
def perform (w : Host) : ScopeOp → Option Host
  | .new => some (w.add w.store.newScope)
  | .enclose outer => do
    let scope ← w.scopes[outer]?
    return w.add (w.store.enclose scope)
  | .set scope name value => do
    let scope ← w.scopes[scope]?
    return { w with store := w.store.assign scope name value }

/-- Performs operations one after the other. -/
def run (w : Host) (ops : List ScopeOp) : Option Host :=
  ops.foldlM perform w

/-- What a name means in a scope. -/
def get (w : Host) (e : Nat) (name : String) : Option Value := do
  let scope ← w.scopes[e]?
  w.store.lookup scope name

theorem run_concat (w : Host) (ops : List ScopeOp) (op : ScopeOp) :
    w.run (ops ++ [op]) = (w.run ops).bind fun w => w.perform op := by
  simp [run, List.foldlM_append]

end Host

/-! ### Histories -/

namespace ScopeOp

/-- For an operation that makes a scope, the scope around the new one if there is one. -/
def link? : ScopeOp → Option (Option Nat)
  | new => some none
  | enclose outer => some (some outer)
  | set _ _ _ => none

/-- The value that an operation gives to a name in a scope. -/
def given? (e : Nat) (name : String) : ScopeOp → Option Value
  | set scope name' value => if scope = e ∧ name' = name then some value else none
  | _ => none

/-- Whether an operation is about a scope among the first `made`, or about none. -/
def isUsable (made : Nat) : ScopeOp → Bool
  | new => true
  | enclose outer => outer < made
  | set scope _ _ => scope < made

end ScopeOp

/-- The scope around each scope, for those that a history makes. -/
def links (ops : List ScopeOp) : List (Option Nat) :=
  ops.filterMap ScopeOp.link?

/-- The values that a history gives to a name in a scope, in their order. -/
def given (ops : List ScopeOp) (e : Nat) (name : String) : List Value :=
  ops.filterMap (ScopeOp.given? e name)

/-- Whether every operation is about a scope that has been made by then; `made` have been made
before. -/
def isHistory (made : Nat) : List ScopeOp → Bool
  | [] => true
  | op :: ops => op.isUsable made && isHistory (made + (links [op]).length) ops

/-- The scopes from one outwards. -/
inductive IsChain (links : List (Option Nat)) : Nat → List Nat → Prop
  | outermost {e : Nat} (link : links[e]? = some none) : IsChain links e [e]
  | inside {e outer : Nat} {chain : List Nat} (link : links[e]? = some (some outer))
      (rest : IsChain links outer chain) : IsChain links e (e :: chain)

@[simp] theorem links_append (ops ops' : List ScopeOp) :
    links (ops ++ ops') = links ops ++ links ops' :=
  List.filterMap_append

@[simp] theorem given_append (ops ops' : List ScopeOp) (e : Nat) (name : String) :
    given (ops ++ ops') e name = given ops e name ++ given ops' e name :=
  List.filterMap_append

theorem isHistory_append (made : Nat) (ops ops' : List ScopeOp) :
    isHistory made (ops ++ ops') =
      (isHistory made ops && isHistory (made + (links ops).length) ops') := by
  induction ops generalizing made with
  | nil => simp [isHistory, links]
  | cons op ops ih =>
    have size : (links (op :: ops)).length = (links [op]).length + (links ops).length := by
      rw [← List.length_append, ← links_append, List.singleton_append]
    rw [List.cons_append, isHistory, isHistory, ih, size, Nat.add_assoc, Bool.and_assoc]

/-- A history without one of its bindings is a history. -/
theorem isHistory_remove_set {made e₀ : Nat} {before after : List ScopeOp} {name : String}
    {v : Value} (history : isHistory made (before ++ .set e₀ name v :: after) = true) :
    isHistory made (before ++ after) = true := by
  rw [isHistory_append, isHistory, Bool.and_eq_true, Bool.and_eq_true] at history
  rw [isHistory_append, history.1, Bool.true_and]
  exact history.2.2

theorem links_remove_set (before after : List ScopeOp) (e₀ : Nat) (name : String) (v : Value) :
    links (before ++ .set e₀ name v :: after) = links (before ++ after) := by
  rw [links_append, links_append]
  rfl

theorem given_remove_set (before after : List ScopeOp) {e₀ e : Nat} {name₀ name : String}
    (ne : ¬ (e₀ = e ∧ name₀ = name)) (v : Value) :
    given (before ++ .set e₀ name₀ v :: after) e name = given (before ++ after) e name := by
  have other : ScopeOp.given? e name (.set e₀ name₀ v) = none := if_neg ne
  rw [given_append, given_append, given, given, given, List.filterMap_cons_none other]

theorem given_set_self (before after : List ScopeOp) (e : Nat) (name : String) (v : Value) :
    given (before ++ .set e name v :: after) e name =
      given before e name ++ v :: given after e name := by
  have self : ScopeOp.given? e name (.set e name v) = some v := if_pos ⟨rfl, rfl⟩
  rw [given_append, given, given, given, List.filterMap_cons_some self]

namespace IsChain

variable {links : List (Option Nat)} {e : Nat} {chain chain' : List Nat}

theorem head?_eq (h : IsChain links e chain) : chain.head? = some e := by
  cases h <;> rfl

theorem lt_length (h : IsChain links e chain) : e < links.length := by
  cases h with
  | outermost link => exact (List.getElem?_eq_some_iff.mp link).1
  | inside link rest => exact (List.getElem?_eq_some_iff.mp link).1

theorem append (h : IsChain links e chain) (more : List (Option Nat)) :
    IsChain (links ++ more) e chain := by
  have kept {e : Nat} {link : Option Nat} (found : links[e]? = some link) :
      (links ++ more)[e]? = some link := by
    rw [List.getElem?_append_left (List.getElem?_eq_some_iff.mp found).1, found]
  induction h with
  | outermost link => exact .outermost (kept link)
  | inside link rest ih => exact .inside (kept link) ih

theorem unique (h : IsChain links e chain) (h' : IsChain links e chain') : chain' = chain := by
  induction h generalizing chain' with
  | outermost link =>
    cases h' with
    | outermost link' => rfl
    | inside link' rest' => cases link.symm.trans link'
  | inside link rest ih =>
    cases h' with
    | outermost link' => cases link.symm.trans link'
    | inside link' rest' =>
      cases link.symm.trans link'
      rw [ih rest']

end IsChain

/-! ### The store of a history -/

/-- What a host has when it has performed a history, from a store of `base` frames on. -/
structure Host.Records (base : Nat) (ops : List ScopeOp) (w : Host) : Prop where
  size : w.store.frames.size = base + w.scopes.length
  count : w.scopes.length = (links ops).length
  chain : ∀ {e : Nat} {s : Scope}, w.scopes[e]? = some s →
    ∃ chain, IsChain (links ops) e chain ∧ s.frames = chain.map (base + ·)
  bound : ∀ (e : Nat) (name : String),
    w.store.boundAt name (base + e) = (given ops e name).getLast?

theorem exists_getElem?_of_lt {scopes : List Scope} {e : Nat} (made : e < scopes.length) :
    ∃ s, scopes[e]? = some s :=
  ⟨_, List.getElem?_eq_getElem made⟩

namespace Host.Records

variable {base : Nat} {ops : List ScopeOp} {w : Host}

theorem start (σ : Store) : Records σ.frames.size [] ⟨σ, []⟩ where
  size := rfl
  count := rfl
  chain := nofun
  bound _ name := Store.boundAt_of_size_le (Nat.le_add_right _ _) name

theorem frame_eq (h : Records base ops w) {e : Nat} {s : Scope} (made : w.scopes[e]? = some s) :
    s.frame = base + e := by
  obtain ⟨chain, isChain, frames⟩ := h.chain made
  have head := congrArg List.head? frames
  rw [List.head?_map, isChain.head?_eq] at head
  exact Option.some.inj head

/-- A new scope, whose chain is known. -/
theorem add (h : Records base ops w) {op : ScopeOp} {link : Option Nat} {outer : List Nat}
    {chain : List Nat} (makes : links [op] = [link]) (gives : ∀ e name, given [op] e name = [])
    (isChain : IsChain (links ops ++ [link]) (links ops).length chain)
    (frames : w.store.frames.size :: outer = chain.map (base + ·)) :
    Records base (ops ++ [op]) (w.add (w.store.openFrame outer)) where
  size := by
    rw [Host.add, List.length_append, ← Nat.add_assoc, ← h.size]
    exact Array.size_push _
  count := by
    rw [Host.add, links_append, makes, List.length_append, List.length_append, h.count]
    rfl
  chain := by
    intro e s made
    rw [links_append, makes]
    by_cases old : e < w.scopes.length
    · obtain ⟨chain, isChain, frames⟩ := h.chain ((List.getElem?_append_left old).symm.trans made)
      exact ⟨chain, isChain.append [link], frames⟩
    · rw [Host.add, List.getElem?_append_right (Nat.le_of_not_lt old),
        List.getElem?_singleton] at made
      split at made
      · next last =>
        cases made
        have last : e = (links ops).length := by
          rw [← h.count]
          omega
        exact ⟨chain, last ▸ isChain, frames⟩
      · cases made
  bound e name := by
    rw [given_append, gives, List.append_nil, ← h.bound]
    exact w.store.boundAt_openFrame outer name (base + e)

theorem set (h : Records base ops w) {e : Nat} {s : Scope} (made : w.scopes[e]? = some s)
    (name : String) (v : Value) :
    Records base (ops ++ [.set e name v]) { w with store := w.store.assign s name v } where
  size := (w.store.size_assign s name v).trans h.size
  count := by
    rw [links_remove_set, List.append_nil]
    exact h.count
  chain := by
    rw [links_remove_set, List.append_nil]
    exact h.chain
  bound e' name' := by
    have frame := h.frame_eq made
    have there : s.frame < w.store.frames.size := by
      rw [frame, h.size]
      exact Nat.add_lt_add_left (List.getElem?_eq_some_iff.mp made).1 base
    by_cases same : e = e' ∧ name = name'
    · obtain ⟨rfl, rfl⟩ := same
      rw [given_set_self, ← frame, Store.boundAt_assign_self there]
      simp [given]
    · rw [given_remove_set _ _ same, List.append_nil, ← h.bound]
      rcases Decidable.not_and_iff_not_or_not.mp same with ne | ne
      · exact w.store.boundAt_assign_of_frame_ne (by omega) _ _ _
      · exact w.store.boundAt_assign_of_ne s ne v _

/-- Every operation that can be performed is recorded. -/
theorem perform (h : Records base ops w) {op : ScopeOp}
    (usable : op.isUsable w.scopes.length = true) :
    ∃ w', w.perform op = some w' ∧ Records base (ops ++ [op]) w' := by
  have next (link : Option Nat) : (links ops ++ [link])[(links ops).length]? = some link :=
    List.getElem?_concat_length
  cases op with
  | new =>
    refine ⟨_, rfl, h.add rfl (fun _ _ => rfl) (.outermost (next none)) ?_⟩
    rw [h.size, h.count]
    rfl
  | enclose outer =>
    obtain ⟨s, made⟩ := exists_getElem?_of_lt (of_decide_eq_true usable)
    obtain ⟨chain, isChain, frames⟩ := h.chain made
    refine ⟨w.add (w.store.enclose s), ?_, h.add rfl (fun _ _ => rfl)
      (.inside (next (some outer)) (isChain.append _)) ?_⟩
    · rw [Host.perform, made]
      rfl
    · rw [h.size, h.count, frames]
      rfl
  | set e name v =>
    obtain ⟨s, made⟩ := exists_getElem?_of_lt (of_decide_eq_true usable)
    refine ⟨_, ?_, h.set made name v⟩
    rw [Host.perform, made]
    rfl

end Host.Records

/-- **Every history can be performed**, and is recorded. -/
theorem Host.exists_run (σ : Store) {ops : List ScopeOp} (history : isHistory 0 ops = true) :
    ∃ w, Host.run ⟨σ, []⟩ ops = some w ∧ Records σ.frames.size ops w := by
  induction ops using List.reverseRecOn with
  | nil => exact ⟨_, rfl, .start σ⟩
  | append_singleton ops op ih =>
    rw [isHistory_append, Bool.and_eq_true] at history
    obtain ⟨w, run, records⟩ := ih history.1
    have usable : op.isUsable w.scopes.length = true := by
      rw [records.count, ← Nat.zero_add (links ops).length]
      exact (Bool.and_eq_true_iff.mp history.2).1
    obtain ⟨w', performed, records'⟩ := records.perform usable
    exact ⟨w', by rw [run_concat, run, Option.bind_some, performed], records'⟩

namespace Host.Records

variable {base : Nat} {ops : List ScopeOp} {w : Host} {e : Nat} {chain : List Nat}

/-- The scope of a chain lists its frames. -/
theorem exists_scope (h : Records base ops w) (isChain : IsChain (links ops) e chain) :
    ∃ s, w.scopes[e]? = some s ∧ s.frames = chain.map (base + ·) := by
  obtain ⟨s, made⟩ := exists_getElem?_of_lt (h.count ▸ isChain.lt_length)
  obtain ⟨chain', isChain', frames⟩ := h.chain made
  exact ⟨s, made, isChain.unique isChain' ▸ frames⟩

/-- What a name means, from the history alone. -/
theorem get_eq (h : Records base ops w) (isChain : IsChain (links ops) e chain) (name : String) :
    w.get e name = chain.findSome? fun i => (given ops i name).getLast? := by
  obtain ⟨s, made, frames⟩ := h.exists_scope isChain
  rw [Host.get, made]
  change w.store.lookup s name = _
  rw [Store.lookup_eq, frames, List.findSome?_map]
  exact congrArg (fun f => chain.findSome? f) (funext fun i => h.bound i name)

end Host.Records

/-! ### What scopes see -/

/-- The scopes of a host see the last values that a history gives. -/
structure SeesLatest (ops : List ScopeOp) (w : Host) : Prop where
  made : w.scopes.length = (links ops).length
  finite : ∀ e < w.scopes.length, ∃! chain, IsChain (links ops) e chain
  latest : ∀ {e : Nat} {chain : List Nat}, IsChain (links ops) e chain → ∀ name v,
    (w.get e name = some v ↔ ∃ inner e' outer, chain = inner ++ e' :: outer ∧
      (given ops e' name).getLast? = some v ∧ ∀ i ∈ inner, given ops i name = [])
  unbound : ∀ {e : Nat} {chain : List Nat}, IsChain (links ops) e chain → ∀ name,
    (w.get e name = none ↔ ∀ i ∈ chain, given ops i name = [])

theorem Host.Records.seesLatest {base : Nat} {ops : List ScopeOp} {w : Host}
    (h : w.Records base ops) : SeesLatest ops w where
  made := h.count
  finite e made := by
    obtain ⟨s, found⟩ := exists_getElem?_of_lt made
    obtain ⟨chain, isChain, -⟩ := h.chain found
    exact ⟨chain, isChain, fun chain' isChain' => isChain.unique isChain'⟩
  latest isChain name v := by
    simp only [h.get_eq isChain, List.findSome?_eq_some_iff, List.getLast?_eq_none_iff]
  unbound isChain name := by
    simp only [h.get_eq isChain, List.findSome?_eq_none_iff, List.getLast?_eq_none_iff]

/-- **A look-up gives the last value of the innermost scope that has one.**  Every history can be
performed, in any store.  Afterwards each scope has one chain, which is finite, and a name means in
it the last value given in the first scope of the chain in which the name was ever set; it means
nothing if there is none.  Without one of the bindings, every scope that is not the one of this
binding or inside of it sees the same.  A binding that is not followed by another of its name in the
same scope is seen by every scope inside, made before it or after it, unless a scope between them
sets the name. -/
theorem scopes_see_latest (σ : Store) (ops : List ScopeOp) (history : isHistory 0 ops = true) :
    ∃ w, Host.run ⟨σ, []⟩ ops = some w ∧ SeesLatest ops w ∧
      ∀ before e₀ name₀ v₀ after, ops = before ++ .set e₀ name₀ v₀ :: after →
        (∃ w', Host.run ⟨σ, []⟩ (before ++ after) = some w' ∧
          ∀ e chain, IsChain (links ops) e chain → e₀ ∉ chain →
            ∀ name, w.get e name = w'.get e name) ∧
        (given after e₀ name₀ = [] →
          ∀ e inner outer, IsChain (links ops) e (inner ++ e₀ :: outer) →
            (∀ i ∈ inner, given ops i name₀ = []) → w.get e name₀ = some v₀) := by
  obtain ⟨w, run, records⟩ := Host.exists_run σ history
  refine ⟨w, run, records.seesLatest, ?_⟩
  rintro before e₀ name₀ v₀ after rfl
  constructor
  · obtain ⟨w', run', records'⟩ := Host.exists_run σ (isHistory_remove_set history)
    refine ⟨w', run', fun e chain isChain absent name => ?_⟩
    have isChain' := isChain
    rw [links_remove_set] at isChain'
    rw [records.get_eq isChain, records'.get_eq isChain']
    refine findSome?_congr fun i mem => ?_
    have ne : e₀ ≠ i := fun same => absent (same ▸ mem)
    rw [given_remove_set before after fun same => ne same.1]
  · intro last e inner outer isChain unset
    refine (records.seesLatest.latest isChain name₀ v₀).mpr ⟨inner, e₀, outer, rfl, ?_, unset⟩
    rw [given_set_self, last, List.getLast?_concat]

/-- Three scopes inside each other.  Scope 1 has a value of its own for `x`, which scope 2 sees and
scope 0 does not; scope 2, made first, sees the second value that scope 0 is given for `y`. -/
theorem scopes_see_latest_nested :
    let ops : List ScopeOp := [.new, .enclose 0, .enclose 1, .set 0 "y" (.integer 1),
      .set 1 "x" (.integer 2), .set 0 "x" (.integer 3), .set 0 "y" (.integer 4)]
    isHistory 0 ops = true ∧ ∃ w, Host.run ⟨.empty, []⟩ ops = some w ∧
      w.get 2 "x" = some (.integer 2) ∧ w.get 0 "x" = some (.integer 3) ∧
      w.get 2 "y" = some (.integer 4) ∧ w.get 2 "z" = none := by
  intro ops
  have history : isHistory 0 ops = true := rfl
  obtain ⟨w, run, sees, sets⟩ := scopes_see_latest .empty ops history
  have outermost : IsChain (links ops) 0 [0] := .outermost rfl
  have isChain : IsChain (links ops) 2 [2, 1, 0] := .inside rfl (.inside rfl outermost)
  refine ⟨history, w, run, ?_, ?_, ?_, ?_⟩
  · exact (sees.latest isChain "x" _).mpr
      ⟨[2], 1, [0], rfl, rfl, by simp [ops, given, ScopeOp.given?]⟩
  · exact (sees.latest outermost "x" _).mpr ⟨[], 0, [], rfl, rfl, nofun⟩
  · exact (sets (ops.take 6) 0 "y" (.integer 4) [] rfl).2 rfl 2 [2, 1] [] isChain
      (by simp [ops, given, ScopeOp.given?])
  · exact (sees.unbound isChain "z").mpr (by simp [ops, given, ScopeOp.given?])

end Marmoset
