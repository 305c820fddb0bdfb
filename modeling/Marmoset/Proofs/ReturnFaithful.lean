import Marmoset.Proofs.ControlFlow
import Marmoset.Proofs.Reach
import Marmoset.Proofs.ReturnContainment

/-! # Wrapped returns are faithful to control flow

The evaluator passes a `return` on as a wrapped value, and the rules of `Marmoset.Proofs.ControlFlow`
end with it.  The two agree as long as nothing but blocks and calls gets to see the wrapping.  A tree
is well-returned if every conditional with a `return` in its blocks is the whole expression of a
statement; a store is well-returned for a scope if all functions that can be reached from the scope
have well-returned bodies and no value that can be reached has a wrapped return in it.

`Agrees` compares a relation between stores and endings with an evaluation, under an invariant of the
store that the evaluation keeps.  The invariant speaks of the frames that can be reached and of those
made later (`View`), so that it says nothing about the rest of the store. -/

namespace Marmoset

/-! ### Well-returned trees -/

mutual

/-- Whether a `return` stands in an expression, outside of its function literals. -/
def Expr.hasReturn : Expr → Bool
  | .name _ | .integer _ | .text _ | .boolean _ | .function _ _ => false
  | .unary _ operand => operand.hasReturn
  | .binary _ left right => left.hasReturn || right.hasReturn
  | .cond condition consequence none => condition.hasReturn || Stmt.anyHasReturn consequence
  | .cond condition consequence (some alternative) =>
    condition.hasReturn || Stmt.anyHasReturn consequence || Stmt.anyHasReturn alternative
  | .call callee arguments => callee.hasReturn || Expr.anyHasReturn arguments
  | .array elements => Expr.anyHasReturn elements
  | .index collection position => collection.hasReturn || position.hasReturn
  | .hash pairs => Expr.pairsHaveReturn pairs

def Expr.anyHasReturn : List Expr → Bool
  | [] => false
  | e :: es => e.hasReturn || Expr.anyHasReturn es

def Expr.pairsHaveReturn : List (Expr × Expr) → Bool
  | [] => false
  | (key, value) :: pairs => key.hasReturn || value.hasReturn || Expr.pairsHaveReturn pairs

def Stmt.hasReturn : Stmt → Bool
  | .bind _ value => value.hasReturn
  | .return _ => true
  | .expr value => value.hasReturn
  | .block body => Stmt.anyHasReturn body

def Stmt.anyHasReturn : List Stmt → Bool
  | [] => false
  | s :: ss => s.hasReturn || Stmt.anyHasReturn ss

end

mutual

/-- Whether every conditional with a `return` in its blocks is the whole expression of a statement;
`whole` says that the given expression is. -/
def Expr.wellReturned (whole : Bool) : Expr → Bool
  | .name _ | .integer _ | .text _ | .boolean _ => true
  | .unary _ operand => operand.wellReturned false
  | .binary _ left right => left.wellReturned false && right.wellReturned false
  | .cond condition consequence none =>
    (whole || !Stmt.anyHasReturn consequence) && condition.wellReturned false &&
      Stmt.allWellReturned consequence
  | .cond condition consequence (some alternative) =>
    (whole || !Stmt.anyHasReturn consequence && !Stmt.anyHasReturn alternative) &&
      condition.wellReturned false && Stmt.allWellReturned consequence &&
      Stmt.allWellReturned alternative
  | .function _ body => Stmt.allWellReturned body
  | .call callee arguments => callee.wellReturned false && Expr.allWellReturned arguments
  | .array elements => Expr.allWellReturned elements
  | .index collection position => collection.wellReturned false && position.wellReturned false
  | .hash pairs => Expr.pairsWellReturned pairs

def Expr.allWellReturned : List Expr → Bool
  | [] => true
  | e :: es => e.wellReturned false && Expr.allWellReturned es

def Expr.pairsWellReturned : List (Expr × Expr) → Bool
  | [] => true
  | (key, value) :: pairs =>
    key.wellReturned false && value.wellReturned false && Expr.pairsWellReturned pairs

def Stmt.wellReturned : Stmt → Bool
  | .bind _ value => value.wellReturned false
  | .return value => value.wellReturned false
  | .expr value => value.wellReturned true
  | .block body => Stmt.allWellReturned body

def Stmt.allWellReturned : List Stmt → Bool
  | [] => true
  | s :: ss => s.wellReturned && Stmt.allWellReturned ss

end

mutual

theorem Expr.hasReturn_of_returns {e : Expr} (h : e.returns = true) : e.hasReturn = true := by
  match e with
  | .cond condition consequence none =>
      have := Stmt.anyHasReturn_of_returnsAny h
      simp [Expr.hasReturn, this]
  | .cond condition consequence (some alternative) =>
      simp only [Expr.returns, Bool.or_eq_true] at h
      rcases h with h | h
      · have := Stmt.anyHasReturn_of_returnsAny h
        simp [Expr.hasReturn, this]
      · have := Stmt.anyHasReturn_of_returnsAny h
        simp [Expr.hasReturn, this]

theorem Stmt.hasReturn_of_returns {s : Stmt} (h : s.returns = true) : s.hasReturn = true := by
  match s with
  | .return _ => rfl
  | .expr value => exact Expr.hasReturn_of_returns h
  | .block body => exact Stmt.anyHasReturn_of_returnsAny h

theorem Stmt.anyHasReturn_of_returnsAny {ss : List Stmt} (h : Stmt.returnsAny ss = true) :
    Stmt.anyHasReturn ss = true := by
  match ss with
  | s :: ss =>
      simp only [Stmt.returnsAny, Bool.or_eq_true] at h
      rcases h with h | h
      · have := Stmt.hasReturn_of_returns h
        simp [Stmt.anyHasReturn, this]
      · have := Stmt.anyHasReturn_of_returnsAny h
        simp [Stmt.anyHasReturn, this]

end

theorem Stmt.returnsAny_eq_false {ss : List Stmt} (h : Stmt.anyHasReturn ss = false) :
    Stmt.returnsAny ss = false := by
  cases returns : Stmt.returnsAny ss with
  | false => rfl
  | true => rw [Stmt.anyHasReturn_of_returnsAny returns] at h; cases h

/-- The value of a well-returned expression inside another is no wrapped return. -/
theorem Expr.returns_eq_false {e : Expr} (well : e.wellReturned false = true) :
    e.returns = false := by
  match e with
  | .cond condition consequence none =>
      simp only [Expr.wellReturned, Bool.and_eq_true, Bool.false_or, Bool.not_eq_true'] at well
      exact Stmt.returnsAny_eq_false well.1.1
  | .cond condition consequence (some alternative) =>
      simp only [Expr.wellReturned, Bool.and_eq_true, Bool.false_or, Bool.not_eq_true'] at well
      obtain ⟨⟨⟨⟨first, second⟩, -⟩, -⟩, -⟩ := well
      simp [Expr.returns, Stmt.returnsAny_eq_false first, Stmt.returnsAny_eq_false second]
  | .name _ | .integer _ | .text _ | .boolean _ | .unary _ _ | .binary _ _ _ | .function _ _
  | .call _ _ | .array _ | .index _ _ | .hash _ => rfl

/-! ### Endings of evaluations -/

/-- How an expression with this value ends. -/
def Value.ending : Value → Control Value
  | .returned v => .abrupt (.returning v)
  | v => .done v

/-- How a statement with this value ends. -/
def ending : Option Value → Control (Option Value)
  | some v => v.ending.map some
  | none => .done none

theorem Value.ending_of_all {p : Value → Prop} (unwrapped : Unwrapped p) {v : Value}
    (h : v.All p) : v.ending = .done v := by
  cases v with
  | returned w => exact absurd h.self (unwrapped.returned w)
  | _ => rfl

theorem ending_of_all {p : Value → Prop} (unwrapped : Unwrapped p) {value : Option Value}
    (h : ∀ v, value = some v → v.All p) : ending value = .done value := by
  cases value with
  | none => rfl
  | some v => rw [ending, Value.ending_of_all unwrapped (h v rfl), Control.map]

theorem orNull_ending (value : Option Value) :
    (ending value).orNull = (value.getD .null).ending := by
  rcases value with _ | v
  · rfl
  · cases v <;> rfl

theorem endCall_ending (value : Option Value) :
    (ending value).endCall = .done (callResult value) := by
  rcases value with _ | v
  · rfl
  · cases v <;> rfl

theorem result_ending (value : Option Value) : (ending value).result = value.map Value.unwrap := by
  rcases value with _ | v
  · rfl
  · cases v <;> rfl

theorem ending_of_not_endsBlock {value : Option Value} (on : ¬ endsBlock value = true) :
    ending value = .done value := by
  rcases value with _ | v
  · rfl
  · cases v with
    | returned w => exact absurd rfl on
    | _ => rfl

/-! ### Agreement of rules and evaluation -/

/-- How an evaluation ends that has this outcome, if `read` says how it ends with a result. -/
def Control.ofOutcome {α β : Type} (read : α → Control β) : Except RuntimeError α → Control β
  | .ok a => read a
  | .error e => .abrupt (.failing e)

theorem Control.ofOutcome_done {α : Type} (outcome : Except RuntimeError α) :
    ofOutcome .done outcome = .ofExcept outcome := by
  cases outcome <;> rfl

/-- Of the endings and stores that `R` allows from `σ`, there is one, and it is that of an evaluation
with this outcome and this store, which satisfies `I`; a result it has is good. -/
structure EndsAs {α β : Type} (I : Store → Prop) (R : Store → Control β → Store → Prop)
    (read : α → Control β) (good : α → Prop) (σ : Store) (run : Except RuntimeError α × Store) :
    Prop where
  iff : ∀ {c σ'}, R σ c σ' ↔ c = .ofOutcome read run.1 ∧ σ' = run.2
  kept : I run.2
  good : ∀ {a}, run.1 = .ok a → good a

/-- From every store with `I`, the relation `R` ends as the evaluation `x`. -/
def Agrees {α β : Type} (I : Store → Prop) (R : Store → Control β → Store → Prop) (x : Eval α)
    (read : α → Control β) (good : α → Prop) : Prop :=
  ∀ σ, I σ → EndsAs I R read good σ (x.runOn σ)

namespace Agrees

open Control

variable {α β γ δ : Type} {I : Store → Prop} {R : Store → Control β → Store → Prop} {x : Eval α}
  {read : α → Control β} {good : α → Prop}

theorem congr {R' : Store → Control β → Store → Prop} (h : Agrees I R x read good)
    (same : ∀ {σ c σ'}, R' σ c σ' ↔ R σ c σ') : Agrees I R' x read good := by
  intro σ start
  obtain ⟨iff, kept, value⟩ := h σ start
  exact ⟨same.trans iff, kept, value⟩

theorem gives {c : Store → Control β} {f : Store → Store}
    (ends : ∀ σ, .ofOutcome read (x.runOn σ).1 = c σ) (store : ∀ σ, (x.runOn σ).2 = f σ)
    (kept : ∀ σ, I σ → I (f σ)) (value : ∀ σ a, I σ → (x.runOn σ).1 = .ok a → good a) :
    Agrees I (Gives c f) x read good := by
  intro σ start
  refine ⟨?_, ?_, value σ _ start⟩
  · rw [ends, store]
    exact Iff.rfl
  · rw [store]
    exact kept σ start

theorem pure {a : α} (h : good a) : Agrees I (Gives (fun _ => read a) id) (Pure.pure a) read good :=
  gives (fun _ => rfl) (fun _ => rfl) (fun _ start => start) fun _ _ _ e => Except.ok.inj e ▸ h

theorem throw {e : RuntimeError} :
    Agrees I (Gives (fun _ => .abrupt (.failing e)) id) (MonadExcept.throw e : Eval α) read good :=
  gives (fun _ => rfl) (fun _ => rfl) (fun _ start => start) fun _ _ _ e => by cases e

theorem ofExcept {result : Except RuntimeError β} {good : β → Prop}
    (h : ∀ b, result = .ok b → good b) :
    Agrees I (Gives (fun _ => .ofExcept result) id) (Eval.ofExcept result) .done good :=
  gives (fun _ => ofOutcome_done result) (fun _ => rfl) (fun _ start => start) fun _ b _ => h b

theorem bind {R' : β → Store → Control γ → Store → Prop} {x : Eval β} {f : β → Eval δ}
    {readNext : δ → Control γ} {good : β → Prop} {goodNext : δ → Prop}
    (first : Agrees I R x .done good)
    (next : ∀ b, good b → Agrees I (R' b) (f b) readNext goodNext) :
    Agrees I (Then R R') (x >>= f) readNext goodNext := by
  intro σ start
  obtain ⟨iff, kept, value⟩ := first σ start
  rw [Eval.runOn_bind]
  generalize x.runOn σ = run at iff kept value
  rcases run with ⟨e | b, σ₁⟩
  · exact ⟨then_iff_of_abrupt iff, kept, fun e => by cases e⟩
  · obtain ⟨iffNext, keptNext, valueNext⟩ := next b (value rfl) σ₁ kept
    exact ⟨(then_iff_of_done iff).trans iffNext, keptNext, valueNext⟩

theorem via {g : Control β → Control γ} {f : α → δ} {readNext : δ → Control γ} {goodNext : δ → Prop}
    (h : Agrees I R x read good) (failing : ∀ e, g (.abrupt (.failing e)) = .abrupt (.failing e))
    (ends : ∀ a, good a → g (read a) = readNext (f a)) (value : ∀ a, good a → goodNext (f a)) :
    Agrees I (Via g R) (x >>= fun a => Pure.pure (f a)) readNext goodNext := by
  intro σ start
  obtain ⟨iff, kept, goodValue⟩ := h σ start
  rw [Eval.runOn_bind]
  generalize x.runOn σ = run at iff kept goodValue
  rcases run with ⟨e | a, σ₁⟩
  · exact ⟨via_iff iff (failing e), kept, fun e => by cases e⟩
  · refine ⟨via_iff iff (ends a (goodValue rfl)), kept, fun e => ?_⟩
    cases e
    exact value a (goodValue rfl)

/-- A result may be read in another way that makes no difference to good results. -/
theorem reread {read' : α → Control β} {good' : α → Prop} (h : Agrees I R x read good)
    (same : ∀ a, good a → read a = read' a) (imp : ∀ a, good a → good' a) :
    Agrees I R x read' good' := by
  intro σ start
  obtain ⟨iff, kept, value⟩ := h σ start
  generalize x.runOn σ = run at iff kept value
  rcases run with ⟨e | a, σ₁⟩
  · exact ⟨iff, kept, fun e => by cases e⟩
  · refine ⟨fun {c σ'} => ?_, kept, fun e => Except.ok.inj e ▸ imp a (value rfl)⟩
    rw [iff, ofOutcome, ofOutcome, same a (value rfl)]

/-- A value that cannot be a wrapped return is the result it looks like. -/
theorem plain {p : Value → Prop} {R : Store → Control Value → Store → Prop} {x : Eval Value}
    {wrapped : Bool} (h : Agrees I R x Value.ending (Handed p wrapped)) (unwrapped : Unwrapped p)
    (not : wrapped = false) : Agrees I R x .done (Value.All p) := by
  refine h.reread (fun v handed => ?_) fun v handed => handed.all_of_not_wrapped not
  exact Value.ending_of_all unwrapped (handed.all_of_not_wrapped not)

/-- A result that is no wrapped return is the value it looks like. -/
theorem handed {p : Value → Prop} {R : Store → Control Value → Store → Prop} {x : Eval Value}
    {wrapped : Bool} (h : Agrees I R x .done (Value.All p)) (unwrapped : Unwrapped p) :
    Agrees I R x Value.ending (Handed p wrapped) := by
  refine h.reread (fun v all => ?_) fun v all => .inl all
  exact (Value.ending_of_all unwrapped all).symm

/-- Going on after a statement, unless its value is a wrapped return. -/
theorem block {p : Value → Prop} {R : Store → Control (Option Value) → Store → Prop}
    {R' : Option Value → Store → Control (Option Value) → Store → Prop} {x : Eval (Option Value)}
    {f : Option Value → Eval (Option Value)} {wrapped wrappedNext : Bool}
    (first : Agrees I R x ending fun value => ∀ v, value = some v → Handed p wrapped v)
    (next : ∀ value, (∀ v, value = some v → v.All p) → Agrees I (R' value) (f value) ending
      fun value => ∀ v, value = some v → Handed p wrappedNext v) :
    Agrees I (Then R R')
      (x >>= fun value => if endsBlock value then Pure.pure value else f value) ending
      fun value => ∀ v, value = some v → Handed p (wrapped || wrappedNext) v := by
  intro σ start
  obtain ⟨iff, kept, value⟩ := first σ start
  rw [Eval.runOn_bind]
  generalize x.runOn σ = run at iff kept value
  rcases run with ⟨e | last, σ₁⟩
  · exact ⟨then_iff_of_abrupt iff, kept, fun e => by cases e⟩
  · have handed := value rfl
    by_cases ends : endsBlock last = true
    -- the rules stop here because the statement returned, the evaluation because of the wrapping
    · obtain ⟨v, rfl⟩ := endsBlock_iff.mp ends
      refine ⟨then_iff_of_abrupt iff, kept, fun e => ?_⟩
      cases e
      exact fun v e => (handed v e).mono fun w => by simp [w]
    · have plain := Handed.all_of_not_endsBlock handed ends
      obtain ⟨iffNext, keptNext, valueNext⟩ := next last plain σ₁ kept
      have iffDone : ∀ {c σ'}, R σ c σ' ↔ c = .done last ∧ σ' = σ₁ := fun {c σ'} => by
        rw [iff, ofOutcome, ending_of_not_endsBlock ends]
      simp only [ends]
      refine ⟨(then_iff_of_done iffDone).trans iffNext, keptNext, fun e v e' => ?_⟩
      exact (valueNext e v e').mono fun w => by simp [w]

end Agrees

/-! ### The store of a well-returned program -/

/-- No wrapped return, and if a function, then one with a well-returned body and a visible scope. -/
def Value.Faithful (view : View) : Value → Prop
  | .returned _ => False
  | .function f => Stmt.allWellReturned f.body = true ∧ view.Shows f.scope
  | _ => True

theorem Value.faithful_unwrapped (view : View) : Unwrapped (Value.Faithful view) := by
  constructor
  · constructor <;> intros <;> trivial
  · exact fun _ => id

/-- The visible frames bind faithful values only, and new frames will be visible. -/
structure Store.Faithful (view : View) (σ : Store) : Prop where
  holds : σ.Holds view.visible (Value.Faithful view)
  size : view.base ≤ σ.frames.size

open Control
open Value (faithful_unwrapped)

variable {view : View}

theorem agrees_name (d : Nat) {s : Scope} (seen : view.Shows s) (x : String) :
    Agrees (Store.Faithful view) (Evaluates d s (.name x)) ((Expr.name x).eval d s) .done
      (Value.All (Value.Faithful view)) := by
  have run : ∀ σ, ((Expr.name x).eval d s).runOn σ = (nameValue s x σ, σ) := fun σ => by
    simp only [Expr.eval, Eval.runOn_bind, Eval.runOn_view, Eval.runOn_ofExcept]
  refine Agrees.congr (.gives ?_ ?_ (fun _ start => start) ?_) evaluates_name_iff
  · exact fun σ => by rw [run, ofOutcome_done]
  · exact fun σ => by rw [run]
  · intro σ v start result
    rw [run] at result
    exact start.holds.nameValue (faithful_unwrapped view).toOrdinary seen result

theorem agrees_function (d : Nat) {s : Scope} (seen : view.Shows s)
    (parameters : List String) {body : List Stmt} (well : Stmt.allWellReturned body = true) :
    Agrees (Store.Faithful view) (Evaluates d s (.function parameters body))
      ((Expr.function parameters body).eval d s) .done (Value.All (Value.Faithful view)) := by
  have run : ∀ σ, ((Expr.function parameters body).eval d s).runOn σ =
      (.ok (.function (σ.newClosure parameters body s).1), (σ.newClosure parameters body s).2) :=
    fun σ => by
      simp only [Expr.eval, Eval.runOn_bind, Eval.runOn_step, Eval.runOn_pure]
  refine Agrees.congr (.gives ?_ ?_ ?_ ?_) evaluates_function_iff
  · exact fun σ => by rw [run]; rfl
  · exact fun σ => by rw [run]
  · exact fun σ start => ⟨start.holds.of_frames_eq rfl, start.size⟩
  · intro σ v start result
    rw [run] at result
    cases result
    exact Value.all_function_iff.mpr ⟨well, seen⟩

theorem agrees_builtin (d : Nat) (b : Builtin) {arguments : List Value}
    (given : ∀ v ∈ arguments, v.All (Value.Faithful view)) :
    Agrees (Store.Faithful view) (Calls d (.builtin b) arguments)
      (Value.call d (.builtin b) arguments) .done (Value.All (Value.Faithful view)) := by
  have run : ∀ σ, (Value.call d (.builtin b) arguments).runOn σ =
      (b.result arguments, (b.printed arguments).foldl Store.printLine σ) := fun σ => by
    simp only [Value.call, Builtin.call, Eval.runOn_bind, Eval.runOn_change, Eval.runOn_ofExcept]
  refine Agrees.congr (.gives ?_ ?_ ?_ ?_) calls_builtin_iff
  · exact fun σ => by rw [run, ofOutcome_done]
  · exact fun σ => by rw [run]
  · intro σ start
    have same := Store.frames_printLines σ (b.printed arguments)
    exact ⟨start.holds.of_frames_eq same, by rw [same]; exact start.size⟩
  · intro σ v start result
    rw [run] at result
    exact (faithful_unwrapped view).all_result given result

theorem agrees_assign (s : Scope) (name : String) {v : Value}
    (good : v.All (Value.Faithful view)) :
    Agrees (Store.Faithful view) (Gives (fun _ => .done none) fun σ => σ.assign s name v)
      (do Eval.change fun store => store.assign s name v; return none) ending
      (fun value => ∀ v, value = some v → Handed (Value.Faithful view) false v) := by
  refine .gives (fun _ => rfl) (fun _ => rfl) ?_ ?_
  · exact fun σ start => ⟨start.holds.assign good, by rw [Store.size_assign]; exact start.size⟩
  · rintro σ value start ⟨⟩ v ⟨⟩

/-- The value of an expression inside another is no wrapped return. -/
theorem Agrees.operand {I : Store → Prop} {R : Store → Control Value → Store → Prop}
    {x : Eval Value} {e : Expr}
    (h : Agrees I R x Value.ending (Handed (Value.Faithful view) e.returns))
    (well : e.wellReturned false = true) : Agrees I R x .done (Value.All (Value.Faithful view)) :=
  h.plain (faithful_unwrapped view) (Expr.returns_eq_false well)

/-- The branch of a conditional that is taken. -/
theorem Agrees.branch {I : Store → Prop} {R : Store → Control (Option Value) → Store → Prop}
    {x : Eval (Option Value)} {wrapped wrapped' : Bool}
    (h : Agrees I R x ending
      fun value => ∀ v, value = some v → Handed (Value.Faithful view) wrapped v)
    (imp : wrapped = true → wrapped' = true) :
    Agrees I (Via orNull R) (x >>= fun value => Pure.pure (value.getD .null)) Value.ending
      (Handed (Value.Faithful view) wrapped') := by
  refine h.via (fun _ => rfl) (fun value _ => orNull_ending value) fun value handed => ?_
  exact (Handed.getD handed (faithful_unwrapped view).toOrdinary).mono imp

/-- The body of a call, in the scope that the call opens. -/
theorem Store.Faithful.enter {σ : Store} (start : σ.Faithful view) {f : Closure}
    {arguments : List Value} (closed : view.Shows f.scope)
    (given : ∀ v ∈ arguments, v.All (Value.Faithful view)) :
    (f.enter arguments σ).2.Faithful view ∧ view.Shows (f.enter arguments σ).1 := by
  refine ⟨⟨start.holds.enter f given, ?_⟩, closed.enter arguments start.size⟩
  rw [Store.size_enter]
  exact Nat.le_succ_of_le start.size

/-! ### The whole evaluator -/

mutual

theorem Expr.agrees (d : Nat) (s : Scope) (seen : view.Shows s) (e : Expr)
    {whole : Bool} (well : e.wellReturned whole = true) :
    Agrees (Store.Faithful view) (Evaluates d s e) (e.eval d s) Value.ending
      (Handed (Value.Faithful view) e.returns) := by
  have unwrapped := faithful_unwrapped view
  match e with
  | .name x => exact (agrees_name d seen x).handed unwrapped
  | .integer n =>
      simp only [Expr.eval]
      exact .handed (.congr (.pure (unwrapped.all_integer n)) evaluates_integer_iff) unwrapped
  | .text t =>
      simp only [Expr.eval]
      exact .handed (.congr (.pure (unwrapped.all_text t)) evaluates_text_iff) unwrapped
  | .boolean b =>
      simp only [Expr.eval]
      exact .handed (.congr (.pure (unwrapped.all_boolean b)) evaluates_boolean_iff) unwrapped
  | .unary op operand =>
      have first := (Expr.agrees d s seen operand well).operand well
      simp only [Expr.eval]
      refine .handed (.congr (first.bind fun v _ => ?_) evaluates_unary_iff) unwrapped
      exact .ofExcept fun w result => unwrapped.all_unary result
  | .binary op left right =>
      simp only [Expr.wellReturned, Bool.and_eq_true] at well
      have first := (Expr.agrees d s seen left well.1).operand well.1
      have second := (Expr.agrees d s seen right well.2).operand well.2
      simp only [Expr.eval]
      refine .handed (.congr (first.bind fun a _ => ?_) evaluates_binary_iff) unwrapped
      refine second.bind fun b _ => ?_
      exact .ofExcept fun w result => unwrapped.all_binary result
  | .cond condition consequence none =>
      simp only [Expr.wellReturned, Bool.and_eq_true] at well
      have first := (Expr.agrees d s seen condition well.1.2).operand well.1.2
      have block := Stmt.agreesAll d s seen none consequence nofun well.2
      simp only [Expr.eval]
      refine .congr (first.bind fun v _ => ?_) evaluates_cond_none_iff
      split
      · exact block.branch id
      · exact .handed (.pure unwrapped.all_null) unwrapped
  | .cond condition consequence (some alternative) =>
      simp only [Expr.wellReturned, Bool.and_eq_true] at well
      obtain ⟨⟨⟨-, inCondition⟩, inConsequence⟩, inAlternative⟩ := well
      have first := (Expr.agrees d s seen condition inCondition).operand inCondition
      have block := Stmt.agreesAll d s seen none consequence nofun inConsequence
      have otherwise := Stmt.agreesAll d s seen none alternative nofun inAlternative
      simp only [Expr.eval]
      refine .congr (first.bind fun v _ => ?_) evaluates_cond_some_iff
      split
      · exact block.branch fun returns => by simp [Expr.returns, returns]
      · exact otherwise.branch fun returns => by simp [Expr.returns, returns]
  | .function parameters body => exact (agrees_function d seen parameters well).handed unwrapped
  | .call callee arguments =>
      simp only [Expr.wellReturned, Bool.and_eq_true] at well
      have first := (Expr.agrees d s seen callee well.1).operand well.1
      have second := Expr.agreesAll d s seen arguments well.2
      simp only [Expr.eval]
      refine .handed (.congr (first.bind fun f callable => ?_) evaluates_call_iff) unwrapped
      refine second.bind fun values given => ?_
      exact Value.agreesCall d f values callable given
  | .array elements =>
      have all := Expr.agreesAll d s seen elements well
      simp only [Expr.eval]
      refine .handed (.congr ?_ evaluates_array_iff) unwrapped
      exact all.via (fun _ => rfl) (fun _ _ => rfl) fun values good => unwrapped.all_array good
  | .index collection position =>
      simp only [Expr.wellReturned, Bool.and_eq_true] at well
      have first := (Expr.agrees d s seen collection well.1).operand well.1
      have second := (Expr.agrees d s seen position well.2).operand well.2
      simp only [Expr.eval]
      refine .handed (.congr (first.bind fun a good => ?_) evaluates_index_iff) unwrapped
      refine second.bind fun b _ => ?_
      exact .ofExcept fun w result => unwrapped.all_index good result
  | .hash pairs =>
      have all := Expr.agreesPairs d s seen [] pairs nofun well
      simp only [Expr.eval]
      refine .handed (.congr ?_ evaluates_hash_iff) unwrapped
      exact all.via (fun _ => rfl) (fun _ _ => rfl) fun entries good => unwrapped.all_hash good
termination_by (callLimit - d, sizeOf e)

theorem Expr.agreesAll (d : Nat) (s : Scope) (seen : view.Shows s) (es : List Expr)
    (well : Expr.allWellReturned es = true) :
    Agrees (Store.Faithful view) (EvaluatesAll d s es) (Expr.evalAll d s es) .done
      (fun vs => ∀ v ∈ vs, v.All (Value.Faithful view)) := by
  match es with
  | [] =>
      simp only [Expr.evalAll]
      exact .congr (.pure nofun) evaluatesAll_nil_iff
  | e :: es =>
      simp only [Expr.allWellReturned, Bool.and_eq_true] at well
      have first := (Expr.agrees d s seen e well.1).operand well.1
      have rest := Expr.agreesAll d s seen es well.2
      simp only [Expr.evalAll]
      refine .congr (first.bind fun v head => ?_) evaluatesAll_cons_iff
      refine rest.via (fun _ => rfl) (fun _ _ => rfl) fun vs tail => ?_
      rintro w (_ | ⟨_, mem⟩)
      · exact head
      · exact tail w mem
termination_by (callLimit - d, sizeOf es)

theorem Expr.agreesPairs (d : Nat) (s : Scope) (seen : view.Shows s)
    (entries : Table Key Value) (pairs : List (Expr × Expr))
    (before : ∀ entry ∈ entries, entry.2.All (Value.Faithful view))
    (well : Expr.pairsWellReturned pairs = true) :
    Agrees (Store.Faithful view) (EvaluatesPairs d s entries pairs)
      (Expr.evalPairs d s entries pairs) .done
      (fun entries => ∀ entry ∈ entries, entry.2.All (Value.Faithful view)) := by
  match pairs with
  | [] =>
      simp only [Expr.evalPairs]
      exact .congr (.pure before) evaluatesPairs_nil_iff
  | (key, value) :: pairs =>
      simp only [Expr.pairsWellReturned, Bool.and_eq_true] at well
      obtain ⟨⟨inKey, inValue⟩, inPairs⟩ := well
      have first := (Expr.agrees d s seen key inKey).operand inKey
      have second := (Expr.agrees d s seen value inValue).operand inValue
      simp only [Expr.evalPairs]
      refine .congr (first.bind fun u _ => ?_) evaluatesPairs_cons_iff
      refine .bind (.ofExcept fun _ _ => trivial) fun k (_ : True) => ?_
      refine second.bind fun v good => ?_
      refine Expr.agreesPairs d s seen (Table.insert entries k v) pairs (fun entry mem => ?_) inPairs
      rcases Table.mem_insert mem with rfl | mem
      · exact good
      · exact before entry mem
termination_by (callLimit - d, sizeOf pairs)

theorem Stmt.agrees (d : Nat) (s : Scope) (seen : view.Shows s) (st : Stmt)
    (well : st.wellReturned = true) :
    Agrees (Store.Faithful view) (Executes d s st) (st.exec d s) ending
      (fun value => ∀ v, value = some v → Handed (Value.Faithful view) st.returns v) := by
  match st with
  | .bind name value =>
      have first := (Expr.agrees d s seen value well).operand well
      simp only [Stmt.exec]
      exact .congr (first.bind fun v good => agrees_assign s name good) executes_bind_iff
  | .return value =>
      have first := (Expr.agrees d s seen value well).operand well
      simp only [Stmt.exec]
      refine .congr (first.bind fun v good => .pure ?_) executes_return_iff
      rintro w ⟨⟩
      exact .inr ⟨rfl, v, rfl, good⟩
  | .expr value =>
      have first := Expr.agrees d s seen value well
      simp only [Stmt.exec]
      refine .congr (first.via (fun _ => rfl) (fun _ _ => rfl) fun v handed => ?_) executes_expr_iff
      rintro w ⟨⟩
      exact handed
  | .block body =>
      have all := Stmt.agreesAll d s seen none body nofun well
      simp only [Stmt.exec]
      exact .congr all executes_block_iff
termination_by (callLimit - d, sizeOf st)

theorem Stmt.agreesAll (d : Nat) (s : Scope) (seen : view.Shows s)
    (last : Option Value) (ss : List Stmt)
    (plain : ∀ v, last = some v → v.All (Value.Faithful view))
    (well : Stmt.allWellReturned ss = true) :
    Agrees (Store.Faithful view) (ExecutesAll d s last ss) (Stmt.execAll d s last ss) ending
      (fun value => ∀ v, value = some v → Handed (Value.Faithful view) (Stmt.returnsAny ss) v) := by
  match ss with
  | [] =>
      simp only [Stmt.execAll]
      refine .congr (.gives (fun _ => ?_) (fun _ => rfl) (fun _ start => start) ?_)
        executesAll_nil_iff
      · exact ending_of_all (faithful_unwrapped view) plain
      · rintro σ value start ⟨⟩ v e
        exact .inl (plain v e)
  | st :: ss =>
      simp only [Stmt.allWellReturned, Bool.and_eq_true] at well
      have first := Stmt.agrees d s seen st well.1
      simp only [Stmt.execAll_cons]
      refine .congr (first.block fun value plain => ?_) executesAll_cons_iff
      exact Stmt.agreesAll d s seen value ss plain well.2
termination_by (callLimit - d, sizeOf ss)

theorem Value.agreesCall (d : Nat) (callee : Value) (arguments : List Value)
    (callable : callee.All (Value.Faithful view))
    (given : ∀ v ∈ arguments, v.All (Value.Faithful view)) :
    Agrees (Store.Faithful view) (Calls d callee arguments)
      (Value.call d callee arguments) .done (Value.All (Value.Faithful view)) := by
  match callee with
  | .function f =>
      obtain ⟨well, closed⟩ := Value.all_function_iff.mp callable
      by_cases count : arguments.length = f.parameters.length
      · by_cases below : d < callLimit
        · have lower : callLimit - (d + 1) < callLimit - d := by omega
          -- the scope of the body depends on the store, so the body is compared in one store
          intro σ start
          obtain ⟨inside, shown⟩ := start.enter closed given
          have body := Stmt.agreesAll (d + 1) (f.enter arguments σ).1 shown none f.body nofun well
          have ended : Agrees (Store.Faithful view) _ _ .done (Value.All (Value.Faithful view)) :=
            body.via (fun _ => rfl) (fun value _ => endCall_ending value) fun value handed =>
              Handed.callResult handed (faithful_unwrapped view)
          obtain ⟨iff, kept, good⟩ := ended _ inside
          rw [Value.runOn_call count below]
          exact ⟨(calls_function_iff count below).trans iff, kept, good⟩
        · rw [Value.call_of_limit count below]
          exact .congr .throw (calls_function_refused_iff count (Nat.le_of_not_lt below))
      · rw [Value.call_of_count_ne count]
        exact .congr .throw (calls_function_count_iff count)
  | .builtin b => exact agrees_builtin d b given
  | .integer _ | .boolean _ | .null | .text _ | .array _ | .hash _ | .returned _ | .error _ =>
      simp only [Value.call]
      exact .congr .throw (calls_other_iff nofun nofun)
termination_by (callLimit - d, 0)

end

/-! ### Programs -/

namespace Store

/-- No value that can be reached has a wrapped return in it, and every function that can be reached
has a well-returned body. -/
structure WellReturned (σ : Store) (s : Scope) : Prop where
  clean : ∀ v, σ.BindsInReach s v → ¬ v.HoldsReturn
  bodies : ∀ v f, σ.BindsInReach s v → Value.Within (.function f) v →
    Stmt.allWellReturned f.body = true

theorem WellReturned.faithful {σ : Store} {s : Scope} (h : σ.WellReturned s) :
    σ.Faithful (σ.reach s) := by
  refine ⟨holds_reach fun v part bound within closed => ?_, Nat.le_refl _⟩
  cases part with
  | returned w => exact h.clean v bound ⟨w, within⟩
  | function f => exact ⟨h.bodies v f bound within, closed f rfl⟩
  | _ => trivial

end Store

theorem result_ofOutcome (outcome : Except RuntimeError (Option Value)) :
    (Control.ofOutcome ending outcome).result = Node.resultOf outcome := by
  cases outcome with
  | ok value => exact result_ending value
  | error e => rfl

/-- A well-returned program in a well-returned store has one result and one store after it by the
rules, and they are those of its run; the counter of active calls is back where it started. -/
theorem program_means_iff_run (program : Program) (s : Scope) (σ : Store) (d : Nat)
    (well : Stmt.allWellReturned program = true) (environment : σ.WellReturned s) :
    (∀ result σ', Program.Means d s program σ result σ' ↔
      (Node.program program).run d s σ = (result, σ')) ∧
    ∃ fuel after,
      (∀ n, fuel ≤ n → ((Node.program program).perform n s).runOn (Machine.start σ d) =
        some ((((Node.program program).eval d s).runOn σ).1, after)) ∧
      after.store = ((Node.program program).run d s σ).2 ∧ after.depth = d := by
  have seen : (σ.reach s).Shows s := fun i mem => .inl (.own mem)
  obtain ⟨iff, -, -⟩ := Stmt.agreesAll d s seen none program nofun well σ environment.faithful
  obtain ⟨fuel, events, done⟩ := (Node.program program).settles d s (Machine.start σ d) rfl
  refine ⟨fun result σ' => ?_, fuel, _, done, rfl, rfl⟩
  constructor
  · rintro ⟨c, ends, rfl⟩
    obtain ⟨rfl, rfl⟩ := iff.mp ends
    rw [result_ofOutcome]
    rfl
  · intro run
    cases run
    exact ⟨_, iff.mpr ⟨rfl, rfl⟩, (result_ofOutcome _).symm⟩

/-- A store with `fn(x) { if (x) { return [1] }; 2 }` bound to `f`, and `let r = f(true); r` run in it:
the result and the store of the run are those of the rules. -/
theorem program_means_iff_run_early_return :
    let f : Closure := ⟨0, ["x"], [.expr (.cond (.name "x") [.return (.array [.integer 1])] none),
      .expr (.integer 2)], ⟨0, []⟩⟩
    let σ : Store := ⟨#[[("f", .function f)]], 1, ""⟩
    let program : Program := [.bind "r" (.call (.name "f") [.boolean true]), .expr (.name "r")]
    let (result, σ') := (Node.program program).run 0 ⟨0, []⟩ σ
    Stmt.allWellReturned program = true ∧ σ.WellReturned ⟨0, []⟩ ∧
      σ.BindsInReach ⟨0, []⟩ (.function f) ∧
      Program.Means 0 ⟨0, []⟩ program σ result σ' := by
  intro f σ program
  have well : Stmt.allWellReturned program = true := by decide
  have only : ∀ v, σ.BindsInReach ⟨0, []⟩ v → v = .function f := by
    intro v bound
    obtain ⟨name, mem⟩ := bound.binds.of_single_frame
    cases List.mem_singleton.mp mem
    rfl
  have environment : σ.WellReturned ⟨0, []⟩ := by
    refine ⟨fun v bound => ?_, fun v g bound within => ?_⟩
    · rintro ⟨w, within⟩
      cases only v bound
      cases within
    · cases only v bound
      cases within
      decide
  refine ⟨well, environment, ⟨0, _, "f", .own List.mem_cons_self, rfl, List.mem_cons_self⟩, ?_⟩
  exact ((program_means_iff_run program ⟨0, []⟩ σ 0 well environment).1 _ _).mpr rfl

end Marmoset
