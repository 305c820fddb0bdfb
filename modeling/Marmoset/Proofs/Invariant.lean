import Marmoset.Proofs.TwoRuns

/-! # Invariants of evaluation

Evaluation touches the store in five ways: it looks a name up, makes a function, binds a name, opens
the frame of a call and prints.  `EvalInvariant I admits p` says that these five keep a property `I`
of the store, for the scopes that `admits` admits, and that they neither find nor make a value with
a part that `p` does not hold of.  Then every evaluation keeps `I`, however it ends, and gives only
such values (`Node.eval_keeps`, `Value.call_keeps`).

An invariant is a comparison of a run with itself, so this follows from `Node.eval_matches` and
`Value.call_matches`.  `Eval.Keeps` is the judgement for one run. -/

namespace Marmoset

namespace Eval

variable {α : Type}

/-- `x` keeps `I`, whether it ends with a value or with an error, and a value it ends with satisfies
`good`. -/
def Keeps (I : Store → Prop) (x : Eval α) (good : α → Prop) : Prop :=
  ∀ store, I store → I (x.runOn store).2 ∧ ∀ a, (x.runOn store).1 = .ok a → good a

/-- One store twice, with the property `I`. -/
def Twice (I : Store → Prop) (σ τ : Store) : Prop :=
  σ = τ ∧ I τ

theorem Matches.keeps {I : Store → Prop} {x : Eval α} {good : α → Prop}
    (h : Matches (Twice I) (fun _ => False) x x good) : Keeps I x good := by
  intro store start
  obtain ⟨-, ⟨-, kept⟩, value⟩ := h.unexcused ⟨rfl, start⟩
  exact ⟨kept, value⟩

end Eval

open Eval (Keeps Twice)

/-- What evaluation does to the store keeps `I` in the scopes that are admitted, and all values that
are found or made on the way have only parts that `p` holds of. -/
structure EvalInvariant (I : Store → Prop) (admits : Scope → Prop) (p : Value → Prop) : Prop
    extends Ordinary p where
  returned : ∀ v, p (.returned v)
  lookup : ∀ {store scope name v}, I store → admits scope → store.lookup scope name = some v → v.All p
  newClosure : ∀ {store scope} parameters body, I store → admits scope →
    I (store.newClosure parameters body scope).2 ∧
      p (.function (store.newClosure parameters body scope).1)
  assign : ∀ {store scope v} name, I store → admits scope → v.All p → I (store.assign scope name v)
  enter : ∀ {store f arguments}, I store → p (.function f) → (∀ v ∈ arguments, v.All p) →
    I (f.enter arguments store).2 ∧ admits (f.enter arguments store).1
  printLine : ∀ {store} line, I store → I (store.printLine line)

namespace EvalInvariant

variable {I : Store → Prop} {admits : Scope → Prop} {p : Value → Prop}
  (inv : EvalInvariant I admits p)

include inv

theorem wrappable : Wrappable p :=
  ⟨inv.toOrdinary, inv.returned⟩

theorem all_unwrap {v : Value} (h : v.All p) : v.unwrap.All p :=
  inv.wrappable.all_unwrap h

/-- What keeps a property of one store keeps it of one store twice. -/
theorem simulation : EvalSimulation (Twice I) (fun _ => True) admits p where
  toWrappable := inv.wrappable
  body _ _ := trivial
  lookup := by
    rintro σ τ scope name ⟨rfl, start⟩ inside -
    exact ⟨rfl, fun v found => inv.lookup start inside found⟩
  newClosure := by
    rintro σ τ scope body parameters ⟨rfl, start⟩ inside -
    obtain ⟨kept, good⟩ := inv.newClosure parameters body start inside
    exact ⟨rfl, ⟨rfl, kept⟩, good⟩
  assign := by
    rintro σ τ scope v name ⟨rfl, start⟩ inside good
    exact ⟨rfl, inv.assign name start inside good⟩
  enter := by
    rintro σ τ f arguments ⟨rfl, start⟩ callee given
    obtain ⟨kept, inside⟩ := inv.enter start callee given
    exact ⟨rfl, ⟨rfl, kept⟩, inside⟩
  printLine := by
    rintro σ τ line ⟨rfl, start⟩
    exact ⟨rfl, inv.printLine line start⟩

end EvalInvariant

/-! ### The evaluator -/

section Evaluator

variable {I : Store → Prop} {admits : Scope → Prop} {p : Value → Prop}

/-- A call is evaluated in no given scope: what it needs is that callee and arguments are good. -/
theorem Value.call_keeps (inv : EvalInvariant I admits p) (depth : Nat) {callee : Value}
    {arguments : List Value} (good : callee.All p) (given : ∀ v ∈ arguments, v.All p) :
    Keeps I (Value.call depth callee arguments) (Value.All p) :=
  (Value.call_matches inv.simulation (.inl rfl) good given).keeps

theorem Node.eval_keeps (inv : EvalInvariant I admits p) (depth : Nat) {scope : Scope}
    (inside : admits scope) (node : Node) :
    Keeps I (node.eval depth scope) (AllParts p) :=
  (node.eval_matches inv.simulation (.inl rfl) inside fun _ _ => trivial).keeps

end Evaluator

end Marmoset
