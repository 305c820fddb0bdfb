import Marmoset.Session

/-! # Programs with control flow of its own

A second account of what programs mean, by rules.  In the evaluator a `return` is a value like any
other, with a wrapping around it; here it is a way of ending.  A piece of a program ends with a
result, by a `return` or by an error (`Control`), and a statement's result is a value or no value.  A
`return` and an error end everything around them: an operator does not see the operand that ended so,
a list of statements does not go on, and a `return` ends with the call that it stands in.

The rules take the number of active calls and the scope, as the evaluator does.  Each rule for a tree
is read backwards in one equivalence (`evaluates_unary_iff` and so on), which says that the tree does
one thing and then another (`Control.Then`). -/

namespace Marmoset

/-- What ends a piece of a program before its time. -/
inductive Abrupt where
  | returning (v : Value)
  | failing (e : RuntimeError)

/-- How a piece of a program ends. -/
inductive Control (α : Type) where
  | done (result : α)
  | abrupt (reason : Abrupt)

namespace Control

variable {α β : Type}

def ofExcept : Except RuntimeError α → Control α
  | .ok a => .done a
  | .error e => .abrupt (.failing e)

/-- Another result, if there is one. -/
def map (f : α → β) : Control α → Control β
  | .done a => .done (f a)
  | .abrupt reason => .abrupt reason

/-- How a conditional ends whose block ended so: no value is `null`. -/
def orNull (c : Control (Option Value)) : Control Value :=
  c.map fun value => value.getD .null

/-- How a call ends whose body ended so: here a `return` has come to its end. -/
def endCall : Control (Option Value) → Control Value
  | .done value => .done (value.getD .null)
  | .abrupt (.returning v) => .done v
  | .abrupt (.failing e) => .abrupt (.failing e)

/-- The result of a program that ended so. -/
def result : Control (Option Value) → Option Value
  | .done value => value
  | .abrupt (.returning v) => some v
  | .abrupt (.failing e) => some (.error e)

/-- One thing and then, unless that ended abruptly, another. -/
def Then (R : Store → Control α → Store → Prop) (R' : α → Store → Control β → Store → Prop)
    (σ : Store) (c : Control β) (σ' : Store) : Prop :=
  (∃ r, R σ (.abrupt r) σ' ∧ c = .abrupt r) ∨ ∃ a σ₁, R σ (.done a) σ₁ ∧ R' a σ₁ c σ'

/-- One thing, with its ending seen through `g`. -/
def Via (g : Control α → Control β) (R : Store → Control α → Store → Prop) (σ : Store)
    (c : Control β) (σ' : Store) : Prop :=
  ∃ c₀, R σ c₀ σ' ∧ c = g c₀

/-- An ending that is known beforehand, with a change of the store. -/
def Gives (c : Store → Control α) (f : Store → Store) (σ : Store) (c' : Control α) (σ' : Store) :
    Prop :=
  c' = c σ ∧ σ' = f σ

section Composition

variable {R : Store → Control α → Store → Prop} {R' : α → Store → Control β → Store → Prop}
  {σ σ₁ σ' : Store} {c : Control β}

theorem then_iff_of_abrupt {r : Abrupt} (h : ∀ {c σ'}, R σ c σ' ↔ c = .abrupt r ∧ σ' = σ₁) :
    Then R R' σ c σ' ↔ c = .abrupt r ∧ σ' = σ₁ := by
  constructor
  · rintro (⟨r', first, rfl⟩ | ⟨a, σ₂, first, -⟩)
    · obtain ⟨⟨⟩, rfl⟩ := h.mp first
      exact ⟨rfl, rfl⟩
    · cases (h.mp first).1
  · intro h
    obtain ⟨rfl, rfl⟩ := h
    exact .inl ⟨r, h.mpr ⟨rfl, rfl⟩, rfl⟩

theorem then_iff_of_done {a : α} (h : ∀ {c σ'}, R σ c σ' ↔ c = .done a ∧ σ' = σ₁) :
    Then R R' σ c σ' ↔ R' a σ₁ c σ' := by
  constructor
  · rintro (⟨r, first, -⟩ | ⟨b, σ₂, first, second⟩)
    · cases (h.mp first).1
    · obtain ⟨⟨⟩, rfl⟩ := h.mp first
      exact second
  · intro second
    exact .inr ⟨a, σ₁, h.mpr ⟨rfl, rfl⟩, second⟩

theorem via_iff {g : Control α → Control β} {c₀ : Control α} {c₁ : Control β}
    (h : ∀ {c σ'}, R σ c σ' ↔ c = c₀ ∧ σ' = σ₁) (ends : g c₀ = c₁) :
    Via g R σ c σ' ↔ c = c₁ ∧ σ' = σ₁ := by
  subst ends
  constructor
  · rintro ⟨c₁, first, rfl⟩
    obtain ⟨rfl, rfl⟩ := h.mp first
    exact ⟨rfl, rfl⟩
  · intro h
    obtain ⟨rfl, rfl⟩ := h
    exact ⟨c₀, h.mpr ⟨rfl, rfl⟩, rfl⟩

end Composition

end Control

/-! ### The rules -/

mutual

/-- How an expression ends, and the store after it. -/
inductive Evaluates : Nat → Scope → Expr → Store → Control Value → Store → Prop
  | name {d s x σ} : Evaluates d s (.name x) σ (.ofExcept (nameValue s x σ)) σ
  | integer {d s n σ} : Evaluates d s (.integer n) σ (.done (.integer n)) σ
  | text {d s t σ} : Evaluates d s (.text t) σ (.done (.text t)) σ
  | boolean {d s b σ} : Evaluates d s (.boolean b) σ (.done (.boolean b)) σ
  | unary {d s op e σ v σ'} : Evaluates d s e σ (.done v) σ' →
      Evaluates d s (.unary op e) σ (.ofExcept (op.apply v)) σ'
  | unary_abrupt {d s op e σ r σ'} : Evaluates d s e σ (.abrupt r) σ' →
      Evaluates d s (.unary op e) σ (.abrupt r) σ'
  | binary {d s op left right σ a σ₁ b σ₂} : Evaluates d s left σ (.done a) σ₁ →
      Evaluates d s right σ₁ (.done b) σ₂ →
      Evaluates d s (.binary op left right) σ (.ofExcept (op.apply a b)) σ₂
  | binary_left_abrupt {d s op left right σ r σ'} : Evaluates d s left σ (.abrupt r) σ' →
      Evaluates d s (.binary op left right) σ (.abrupt r) σ'
  | binary_right_abrupt {d s op left right σ a σ₁ r σ₂} : Evaluates d s left σ (.done a) σ₁ →
      Evaluates d s right σ₁ (.abrupt r) σ₂ →
      Evaluates d s (.binary op left right) σ (.abrupt r) σ₂
  | cond_true {d s condition consequence alternative σ v σ₁ c σ₂} :
      Evaluates d s condition σ (.done v) σ₁ → v.isTruthy = true →
      ExecutesAll d s none consequence σ₁ c σ₂ →
      Evaluates d s (.cond condition consequence alternative) σ c.orNull σ₂
  | cond_false {d s condition consequence alternative σ v σ₁ c σ₂} :
      Evaluates d s condition σ (.done v) σ₁ → v.isTruthy = false →
      ExecutesAll d s none alternative σ₁ c σ₂ →
      Evaluates d s (.cond condition consequence (some alternative)) σ c.orNull σ₂
  | cond_none {d s condition consequence σ v σ'} :
      Evaluates d s condition σ (.done v) σ' → v.isTruthy = false →
      Evaluates d s (.cond condition consequence none) σ (.done .null) σ'
  | cond_abrupt {d s condition consequence alternative σ r σ'} :
      Evaluates d s condition σ (.abrupt r) σ' →
      Evaluates d s (.cond condition consequence alternative) σ (.abrupt r) σ'
  | function {d s parameters body σ} :
      Evaluates d s (.function parameters body) σ
        (.done (.function (σ.newClosure parameters body s).1)) (σ.newClosure parameters body s).2
  | call {d s callee arguments σ f σ₁ values σ₂ c σ₃} : Evaluates d s callee σ (.done f) σ₁ →
      EvaluatesAll d s arguments σ₁ (.done values) σ₂ → Calls d f values σ₂ c σ₃ →
      Evaluates d s (.call callee arguments) σ c σ₃
  | call_callee_abrupt {d s callee arguments σ r σ'} : Evaluates d s callee σ (.abrupt r) σ' →
      Evaluates d s (.call callee arguments) σ (.abrupt r) σ'
  | call_arguments_abrupt {d s callee arguments σ f σ₁ r σ₂} :
      Evaluates d s callee σ (.done f) σ₁ → EvaluatesAll d s arguments σ₁ (.abrupt r) σ₂ →
      Evaluates d s (.call callee arguments) σ (.abrupt r) σ₂
  | array {d s elements σ c σ'} : EvaluatesAll d s elements σ c σ' →
      Evaluates d s (.array elements) σ (c.map .array) σ'
  | index {d s collection position σ a σ₁ b σ₂} : Evaluates d s collection σ (.done a) σ₁ →
      Evaluates d s position σ₁ (.done b) σ₂ →
      Evaluates d s (.index collection position) σ (.ofExcept (a.index b)) σ₂
  | index_left_abrupt {d s collection position σ r σ'} :
      Evaluates d s collection σ (.abrupt r) σ' →
      Evaluates d s (.index collection position) σ (.abrupt r) σ'
  | index_right_abrupt {d s collection position σ a σ₁ r σ₂} :
      Evaluates d s collection σ (.done a) σ₁ → Evaluates d s position σ₁ (.abrupt r) σ₂ →
      Evaluates d s (.index collection position) σ (.abrupt r) σ₂
  | hash {d s pairs σ c σ'} : EvaluatesPairs d s [] pairs σ c σ' →
      Evaluates d s (.hash pairs) σ (c.map .hash) σ'

/-- How expressions in a row end. -/
inductive EvaluatesAll : Nat → Scope → List Expr → Store → Control (List Value) → Store → Prop
  | nil {d s σ} : EvaluatesAll d s [] σ (.done []) σ
  | cons {d s e es σ v σ₁ c σ₂} : Evaluates d s e σ (.done v) σ₁ →
      EvaluatesAll d s es σ₁ c σ₂ → EvaluatesAll d s (e :: es) σ (c.map (v :: ·)) σ₂
  | cons_abrupt {d s e es σ r σ'} : Evaluates d s e σ (.abrupt r) σ' →
      EvaluatesAll d s (e :: es) σ (.abrupt r) σ'

/-- How the pairs of a hash end, after `entries`. -/
inductive EvaluatesPairs : Nat → Scope → Table Key Value → List (Expr × Expr) → Store →
    Control (Table Key Value) → Store → Prop
  | nil {d s entries σ} : EvaluatesPairs d s entries [] σ (.done entries) σ
  | cons {d s entries key value pairs σ u σ₁ k v σ₂ c σ₃} : Evaluates d s key σ (.done u) σ₁ →
      u.requireKey = .ok k → Evaluates d s value σ₁ (.done v) σ₂ →
      EvaluatesPairs d s (Table.insert entries k v) pairs σ₂ c σ₃ →
      EvaluatesPairs d s entries ((key, value) :: pairs) σ c σ₃
  | key_abrupt {d s entries key value pairs σ r σ'} : Evaluates d s key σ (.abrupt r) σ' →
      EvaluatesPairs d s entries ((key, value) :: pairs) σ (.abrupt r) σ'
  | key_unusable {d s entries key value pairs σ u σ' e} : Evaluates d s key σ (.done u) σ' →
      u.requireKey = .error e →
      EvaluatesPairs d s entries ((key, value) :: pairs) σ (.abrupt (.failing e)) σ'
  | value_abrupt {d s entries key value pairs σ u σ₁ k r σ₂} : Evaluates d s key σ (.done u) σ₁ →
      u.requireKey = .ok k → Evaluates d s value σ₁ (.abrupt r) σ₂ →
      EvaluatesPairs d s entries ((key, value) :: pairs) σ (.abrupt r) σ₂

/-- How a statement ends. -/
inductive Executes : Nat → Scope → Stmt → Store → Control (Option Value) → Store → Prop
  | bind {d s name e σ v σ'} : Evaluates d s e σ (.done v) σ' →
      Executes d s (.bind name e) σ (.done none) (σ'.assign s name v)
  | bind_abrupt {d s name e σ r σ'} : Evaluates d s e σ (.abrupt r) σ' →
      Executes d s (.bind name e) σ (.abrupt r) σ'
  | returns {d s e σ v σ'} : Evaluates d s e σ (.done v) σ' →
      Executes d s (.return e) σ (.abrupt (.returning v)) σ'
  | return_abrupt {d s e σ r σ'} : Evaluates d s e σ (.abrupt r) σ' →
      Executes d s (.return e) σ (.abrupt r) σ'
  | expr {d s e σ c σ'} : Evaluates d s e σ c σ' → Executes d s (.expr e) σ (c.map some) σ'
  | block {d s body σ c σ'} : ExecutesAll d s none body σ c σ' → Executes d s (.block body) σ c σ'

/-- How statements in a row end, after one with the value `last`. -/
inductive ExecutesAll : Nat → Scope → Option Value → List Stmt → Store →
    Control (Option Value) → Store → Prop
  | nil {d s last σ} : ExecutesAll d s last [] σ (.done last) σ
  | cons {d s last st ss σ value σ₁ c σ₂} : Executes d s st σ (.done value) σ₁ →
      ExecutesAll d s value ss σ₁ c σ₂ → ExecutesAll d s last (st :: ss) σ c σ₂
  | cons_abrupt {d s last st ss σ r σ'} : Executes d s st σ (.abrupt r) σ' →
      ExecutesAll d s last (st :: ss) σ (.abrupt r) σ'

/-- How a call of a value ends. -/
inductive Calls : Nat → Value → List Value → Store → Control Value → Store → Prop
  | function {d f arguments σ c σ'} : arguments.length = f.parameters.length → d < callLimit →
      ExecutesAll (d + 1) (f.enter arguments σ).1 none f.body (f.enter arguments σ).2 c σ' →
      Calls d (.function f) arguments σ c.endCall σ'
  | wrong_count {d f arguments σ} : arguments.length ≠ f.parameters.length →
      Calls d (.function f) arguments σ
        (.abrupt (.failing (.argumentCount arguments.length f.parameters.length))) σ
  | refused {d f arguments σ} : arguments.length = f.parameters.length → callLimit ≤ d →
      Calls d (.function f) arguments σ (.abrupt (.failing (.callLimit callLimit))) σ
  | builtin {d b arguments σ} :
      Calls d (.builtin b) arguments σ (.ofExcept (b.result arguments))
        ((b.printed arguments).foldl Store.printLine σ)
  | not_callable {d v arguments σ} : (∀ f, v ≠ .function f) → (∀ b, v ≠ .builtin b) →
      Calls d v arguments σ (.abrupt (.failing (.notCallable v.tag))) σ

end

/-- The result of a program by the rules, and the store after it. -/
def Program.Means (d : Nat) (s : Scope) (program : Program) (σ : Store) (result : Option Value)
    (σ' : Store) : Prop :=
  ∃ c, ExecutesAll d s none program σ c σ' ∧ result = c.result

/-! ### The rules read backwards -/

section Inversion

open Control

variable {d : Nat} {s : Scope} {σ σ' : Store}

theorem evaluates_name_iff {x : String} {c : Control Value} :
    Evaluates d s (.name x) σ c σ' ↔
      Gives (fun σ => .ofExcept (nameValue s x σ)) id σ c σ' := by
  constructor
  · intro h
    cases h
    exact ⟨rfl, rfl⟩
  · intro h
    obtain ⟨rfl, rfl⟩ := h
    exact .name

theorem evaluates_integer_iff {n : Int64} {c : Control Value} :
    Evaluates d s (.integer n) σ c σ' ↔ Gives (fun _ => .done (.integer n)) id σ c σ' := by
  constructor
  · intro h
    cases h
    exact ⟨rfl, rfl⟩
  · intro h
    obtain ⟨rfl, rfl⟩ := h
    exact .integer

theorem evaluates_text_iff {t : String} {c : Control Value} :
    Evaluates d s (.text t) σ c σ' ↔ Gives (fun _ => .done (.text t)) id σ c σ' := by
  constructor
  · intro h
    cases h
    exact ⟨rfl, rfl⟩
  · intro h
    obtain ⟨rfl, rfl⟩ := h
    exact .text

theorem evaluates_boolean_iff {b : Bool} {c : Control Value} :
    Evaluates d s (.boolean b) σ c σ' ↔ Gives (fun _ => .done (.boolean b)) id σ c σ' := by
  constructor
  · intro h
    cases h
    exact ⟨rfl, rfl⟩
  · intro h
    obtain ⟨rfl, rfl⟩ := h
    exact .boolean

theorem evaluates_unary_iff {op : UnaryOp} {e : Expr} {c : Control Value} :
    Evaluates d s (.unary op e) σ c σ' ↔
      Then (Evaluates d s e) (fun v => Gives (fun _ => .ofExcept (op.apply v)) id) σ c σ' := by
  constructor
  · intro h
    cases h with
    | unary h => exact .inr ⟨_, _, h, rfl, rfl⟩
    | unary_abrupt h => exact .inl ⟨_, h, rfl⟩
  · rintro (⟨r, h, rfl⟩ | ⟨v, σ₁, h, rfl, rfl⟩)
    · exact .unary_abrupt h
    · exact .unary h

theorem evaluates_binary_iff {op : BinaryOp} {left right : Expr} {c : Control Value} :
    Evaluates d s (.binary op left right) σ c σ' ↔
      Then (Evaluates d s left) (fun a => Then (Evaluates d s right) fun b =>
        Gives (fun _ => .ofExcept (op.apply a b)) id) σ c σ' := by
  constructor
  · intro h
    cases h with
    | binary h₁ h₂ => exact .inr ⟨_, _, h₁, .inr ⟨_, _, h₂, rfl, rfl⟩⟩
    | binary_left_abrupt h => exact .inl ⟨_, h, rfl⟩
    | binary_right_abrupt h₁ h₂ => exact .inr ⟨_, _, h₁, .inl ⟨_, h₂, rfl⟩⟩
  · rintro (⟨r, h, rfl⟩ | ⟨a, σ₁, h₁, ⟨r, h₂, rfl⟩ | ⟨b, σ₂, h₂, rfl, rfl⟩⟩)
    · exact .binary_left_abrupt h
    · exact .binary_right_abrupt h₁ h₂
    · exact .binary h₁ h₂

theorem evaluates_cond_none_iff {condition : Expr} {consequence : List Stmt} {c : Control Value} :
    Evaluates d s (.cond condition consequence none) σ c σ' ↔
      Then (Evaluates d s condition) (fun v =>
        if v.isTruthy then Via orNull (ExecutesAll d s none consequence)
        else Gives (fun _ => .done .null) id) σ c σ' := by
  constructor
  · intro h
    cases h with
    | cond_true h truthy block =>
        refine .inr ⟨_, _, h, ?_⟩
        simp only [truthy, if_true]
        exact ⟨_, block, rfl⟩
    | cond_none h falsy =>
        refine .inr ⟨_, _, h, ?_⟩
        simp only [falsy]
        exact ⟨rfl, rfl⟩
    | cond_abrupt h => exact .inl ⟨_, h, rfl⟩
  · rintro (⟨r, h, rfl⟩ | ⟨v, σ₁, h, rest⟩)
    · exact .cond_abrupt h
    · cases truthy : v.isTruthy with
      | true =>
          rw [if_pos truthy] at rest
          obtain ⟨c, block, rfl⟩ := rest
          exact .cond_true h truthy block
      | false =>
          rw [truthy] at rest
          obtain ⟨rfl, rfl⟩ := rest
          exact .cond_none h truthy

theorem evaluates_cond_some_iff {condition : Expr} {consequence alternative : List Stmt}
    {c : Control Value} :
    Evaluates d s (.cond condition consequence (some alternative)) σ c σ' ↔
      Then (Evaluates d s condition) (fun v =>
        if v.isTruthy then Via orNull (ExecutesAll d s none consequence)
        else Via orNull (ExecutesAll d s none alternative)) σ c σ' := by
  constructor
  · intro h
    cases h with
    | cond_true h truthy block =>
        refine .inr ⟨_, _, h, ?_⟩
        simp only [truthy, if_true]
        exact ⟨_, block, rfl⟩
    | cond_false h falsy block =>
        refine .inr ⟨_, _, h, ?_⟩
        simp only [falsy]
        exact ⟨_, block, rfl⟩
    | cond_abrupt h => exact .inl ⟨_, h, rfl⟩
  · rintro (⟨r, h, rfl⟩ | ⟨v, σ₁, h, rest⟩)
    · exact .cond_abrupt h
    · cases truthy : v.isTruthy with
      | true =>
          rw [if_pos truthy] at rest
          obtain ⟨c, block, rfl⟩ := rest
          exact .cond_true h truthy block
      | false =>
          rw [truthy] at rest
          obtain ⟨c, block, rfl⟩ := rest
          exact .cond_false h truthy block

theorem evaluates_function_iff {parameters : List String} {body : List Stmt} {c : Control Value} :
    Evaluates d s (.function parameters body) σ c σ' ↔
      Gives (fun σ => .done (.function (σ.newClosure parameters body s).1))
        (fun σ => (σ.newClosure parameters body s).2) σ c σ' := by
  constructor
  · intro h
    cases h
    exact ⟨rfl, rfl⟩
  · intro h
    obtain ⟨rfl, rfl⟩ := h
    exact .function

theorem evaluates_call_iff {callee : Expr} {arguments : List Expr} {c : Control Value} :
    Evaluates d s (.call callee arguments) σ c σ' ↔
      Then (Evaluates d s callee) (fun f => Then (EvaluatesAll d s arguments) fun values =>
        Calls d f values) σ c σ' := by
  constructor
  · intro h
    cases h with
    | call h₁ h₂ h₃ => exact .inr ⟨_, _, h₁, .inr ⟨_, _, h₂, h₃⟩⟩
    | call_callee_abrupt h => exact .inl ⟨_, h, rfl⟩
    | call_arguments_abrupt h₁ h₂ => exact .inr ⟨_, _, h₁, .inl ⟨_, h₂, rfl⟩⟩
  · rintro (⟨r, h, rfl⟩ | ⟨f, σ₁, h₁, ⟨r, h₂, rfl⟩ | ⟨values, σ₂, h₂, h₃⟩⟩)
    · exact .call_callee_abrupt h
    · exact .call_arguments_abrupt h₁ h₂
    · exact .call h₁ h₂ h₃

theorem evaluates_array_iff {elements : List Expr} {c : Control Value} :
    Evaluates d s (.array elements) σ c σ' ↔
      Via (map .array) (EvaluatesAll d s elements) σ c σ' := by
  constructor
  · intro h
    cases h with
    | array h => exact ⟨_, h, rfl⟩
  · intro h
    obtain ⟨c, h, rfl⟩ := h
    exact .array h

theorem evaluates_index_iff {collection position : Expr} {c : Control Value} :
    Evaluates d s (.index collection position) σ c σ' ↔
      Then (Evaluates d s collection) (fun a => Then (Evaluates d s position) fun b =>
        Gives (fun _ => .ofExcept (a.index b)) id) σ c σ' := by
  constructor
  · intro h
    cases h with
    | index h₁ h₂ => exact .inr ⟨_, _, h₁, .inr ⟨_, _, h₂, rfl, rfl⟩⟩
    | index_left_abrupt h => exact .inl ⟨_, h, rfl⟩
    | index_right_abrupt h₁ h₂ => exact .inr ⟨_, _, h₁, .inl ⟨_, h₂, rfl⟩⟩
  · rintro (⟨r, h, rfl⟩ | ⟨a, σ₁, h₁, ⟨r, h₂, rfl⟩ | ⟨b, σ₂, h₂, rfl, rfl⟩⟩)
    · exact .index_left_abrupt h
    · exact .index_right_abrupt h₁ h₂
    · exact .index h₁ h₂

theorem evaluates_hash_iff {pairs : List (Expr × Expr)} {c : Control Value} :
    Evaluates d s (.hash pairs) σ c σ' ↔
      Via (map .hash) (EvaluatesPairs d s [] pairs) σ c σ' := by
  constructor
  · intro h
    cases h with
    | hash h => exact ⟨_, h, rfl⟩
  · intro h
    obtain ⟨c, h, rfl⟩ := h
    exact .hash h

theorem evaluatesAll_nil_iff {c : Control (List Value)} :
    EvaluatesAll d s [] σ c σ' ↔ Gives (fun _ => .done []) id σ c σ' := by
  constructor
  · intro h
    cases h
    exact ⟨rfl, rfl⟩
  · intro h
    obtain ⟨rfl, rfl⟩ := h
    exact .nil

theorem evaluatesAll_cons_iff {e : Expr} {es : List Expr} {c : Control (List Value)} :
    EvaluatesAll d s (e :: es) σ c σ' ↔
      Then (Evaluates d s e) (fun v => Via (map (v :: ·)) (EvaluatesAll d s es)) σ c σ' := by
  constructor
  · intro h
    cases h with
    | cons h₁ h₂ => exact .inr ⟨_, _, h₁, _, h₂, rfl⟩
    | cons_abrupt h => exact .inl ⟨_, h, rfl⟩
  · rintro (⟨r, h, rfl⟩ | ⟨v, σ₁, h₁, c, h₂, rfl⟩)
    · exact .cons_abrupt h
    · exact .cons h₁ h₂

theorem evaluatesPairs_nil_iff {entries : Table Key Value} {c : Control (Table Key Value)} :
    EvaluatesPairs d s entries [] σ c σ' ↔ Gives (fun _ => .done entries) id σ c σ' := by
  constructor
  · intro h
    cases h
    exact ⟨rfl, rfl⟩
  · intro h
    obtain ⟨rfl, rfl⟩ := h
    exact .nil

theorem evaluatesPairs_cons_iff {entries : Table Key Value} {key value : Expr}
    {pairs : List (Expr × Expr)} {c : Control (Table Key Value)} :
    EvaluatesPairs d s entries ((key, value) :: pairs) σ c σ' ↔
      Then (Evaluates d s key) (fun u =>
        Then (Gives (fun _ => .ofExcept u.requireKey) id) fun k =>
          Then (Evaluates d s value) fun v =>
            EvaluatesPairs d s (Table.insert entries k v) pairs) σ c σ' := by
  constructor
  · intro h
    cases h with
    | cons h₁ usable h₂ h₃ =>
        refine .inr ⟨_, _, h₁, .inr ⟨_, _, ⟨?_, rfl⟩, .inr ⟨_, _, h₂, h₃⟩⟩⟩
        rw [usable]
        rfl
    | key_abrupt h => exact .inl ⟨_, h, rfl⟩
    | key_unusable h unusable =>
        refine .inr ⟨_, _, h, .inl ⟨_, ⟨?_, rfl⟩, rfl⟩⟩
        rw [unusable]
        rfl
    | @value_abrupt _ _ _ _ _ _ _ _ _ k _ _ h₁ usable h₂ =>
        refine .inr ⟨_, _, h₁, .inr ⟨k, _, ⟨?_, rfl⟩, .inl ⟨_, h₂, rfl⟩⟩⟩
        rw [usable]
        rfl
  · rintro (⟨r, h, rfl⟩ | ⟨u, σ₁, h₁, rest⟩)
    · exact .key_abrupt h
    · cases usable : u.requireKey with
      | error e =>
          rw [usable] at rest
          rcases rest with ⟨r, ⟨same, rfl⟩, rfl⟩ | ⟨k, σ₂, ⟨same, rfl⟩, rest⟩
          · cases same
            exact .key_unusable h₁ usable
          · cases same
      | ok k =>
          rw [usable] at rest
          rcases rest with ⟨r, ⟨same, rfl⟩, rfl⟩ | ⟨k, σ₂, ⟨same, rfl⟩, rest⟩
          · cases same
          · cases same
            rcases rest with ⟨r, h₂, rfl⟩ | ⟨v, σ₃, h₂, h₃⟩
            · exact .value_abrupt h₁ usable h₂
            · exact .cons h₁ usable h₂ h₃

theorem executes_bind_iff {name : String} {e : Expr} {c : Control (Option Value)} :
    Executes d s (.bind name e) σ c σ' ↔
      Then (Evaluates d s e) (fun v => Gives (fun _ => .done none) fun σ => σ.assign s name v)
        σ c σ' := by
  constructor
  · intro h
    cases h with
    | bind h => exact .inr ⟨_, _, h, rfl, rfl⟩
    | bind_abrupt h => exact .inl ⟨_, h, rfl⟩
  · rintro (⟨r, h, rfl⟩ | ⟨v, σ₁, h, rfl, rfl⟩)
    · exact .bind_abrupt h
    · exact .bind h

theorem executes_return_iff {e : Expr} {c : Control (Option Value)} :
    Executes d s (.return e) σ c σ' ↔
      Then (Evaluates d s e) (fun v => Gives (fun _ => .abrupt (.returning v)) id) σ c σ' := by
  constructor
  · intro h
    cases h with
    | returns h => exact .inr ⟨_, _, h, rfl, rfl⟩
    | return_abrupt h => exact .inl ⟨_, h, rfl⟩
  · rintro (⟨r, h, rfl⟩ | ⟨v, σ₁, h, rfl, rfl⟩)
    · exact .return_abrupt h
    · exact .returns h

theorem executes_expr_iff {e : Expr} {c : Control (Option Value)} :
    Executes d s (.expr e) σ c σ' ↔ Via (map some) (Evaluates d s e) σ c σ' := by
  constructor
  · intro h
    cases h with
    | expr h => exact ⟨_, h, rfl⟩
  · intro h
    obtain ⟨c, h, rfl⟩ := h
    exact .expr h

theorem executes_block_iff {body : List Stmt} {c : Control (Option Value)} :
    Executes d s (.block body) σ c σ' ↔ ExecutesAll d s none body σ c σ' := by
  refine ⟨fun h => ?_, .block⟩
  cases h with
  | block h => exact h

theorem executesAll_nil_iff {last : Option Value} {c : Control (Option Value)} :
    ExecutesAll d s last [] σ c σ' ↔ Gives (fun _ => .done last) id σ c σ' := by
  constructor
  · intro h
    cases h
    exact ⟨rfl, rfl⟩
  · intro h
    obtain ⟨rfl, rfl⟩ := h
    exact .nil

theorem executesAll_cons_iff {last : Option Value} {st : Stmt} {ss : List Stmt}
    {c : Control (Option Value)} :
    ExecutesAll d s last (st :: ss) σ c σ' ↔
      Then (Executes d s st) (fun value => ExecutesAll d s value ss) σ c σ' := by
  constructor
  · intro h
    cases h with
    | cons h₁ h₂ => exact .inr ⟨_, _, h₁, h₂⟩
    | cons_abrupt h => exact .inl ⟨_, h, rfl⟩
  · rintro (⟨r, h, rfl⟩ | ⟨value, σ₁, h₁, h₂⟩)
    · exact .cons_abrupt h
    · exact .cons h₁ h₂

theorem calls_function_iff {f : Closure} {arguments : List Value} {c : Control Value}
    (count : arguments.length = f.parameters.length) (below : d < callLimit) :
    Calls d (.function f) arguments σ c σ' ↔
      Via endCall (ExecutesAll (d + 1) (f.enter arguments σ).1 none f.body)
        (f.enter arguments σ).2 c σ' := by
  constructor
  · intro h
    cases h with
    | function _ _ body => exact ⟨_, body, rfl⟩
    | wrong_count wrong => exact absurd count wrong
    | refused _ limit => omega
    | not_callable function _ => exact absurd rfl (function f)
  · rintro ⟨c, body, rfl⟩
    exact .function count below body

theorem calls_function_count_iff {f : Closure} {arguments : List Value} {c : Control Value}
    (wrong : arguments.length ≠ f.parameters.length) :
    Calls d (.function f) arguments σ c σ' ↔
      Gives (fun _ => .abrupt (.failing (.argumentCount arguments.length f.parameters.length))) id
        σ c σ' := by
  constructor
  · intro h
    cases h with
    | function count _ _ => exact absurd count wrong
    | wrong_count _ => exact ⟨rfl, rfl⟩
    | refused count _ => exact absurd count wrong
    | not_callable function _ => exact absurd rfl (function f)
  · intro h
    obtain ⟨rfl, rfl⟩ := h
    exact .wrong_count wrong

theorem calls_function_refused_iff {f : Closure} {arguments : List Value} {c : Control Value}
    (count : arguments.length = f.parameters.length) (limit : callLimit ≤ d) :
    Calls d (.function f) arguments σ c σ' ↔
      Gives (fun _ => .abrupt (.failing (.callLimit callLimit))) id σ c σ' := by
  constructor
  · intro h
    cases h with
    | function _ below _ => omega
    | wrong_count wrong => exact absurd count wrong
    | refused _ _ => exact ⟨rfl, rfl⟩
    | not_callable function _ => exact absurd rfl (function f)
  · intro h
    obtain ⟨rfl, rfl⟩ := h
    exact .refused count limit

theorem calls_builtin_iff {b : Builtin} {arguments : List Value} {c : Control Value} :
    Calls d (.builtin b) arguments σ c σ' ↔
      Gives (fun _ => .ofExcept (b.result arguments))
        (fun σ => (b.printed arguments).foldl Store.printLine σ) σ c σ' := by
  constructor
  · intro h
    cases h with
    | builtin => exact ⟨rfl, rfl⟩
    | not_callable _ builtin => exact absurd rfl (builtin b)
  · intro h
    obtain ⟨rfl, rfl⟩ := h
    exact .builtin

theorem calls_other_iff {v : Value} {arguments : List Value} {c : Control Value}
    (function : ∀ f, v ≠ .function f) (builtin : ∀ b, v ≠ .builtin b) :
    Calls d v arguments σ c σ' ↔
      Gives (fun _ => .abrupt (.failing (.notCallable v.tag))) id σ c σ' := by
  constructor
  · intro h
    cases h with
    | function => exact absurd rfl (function _)
    | wrong_count => exact absurd rfl (function _)
    | refused => exact absurd rfl (function _)
    | builtin => exact absurd rfl (builtin _)
    | not_callable => exact ⟨rfl, rfl⟩
  · intro h
    obtain ⟨rfl, rfl⟩ := h
    exact .not_callable function builtin

end Inversion

end Marmoset
