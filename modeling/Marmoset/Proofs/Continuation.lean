import Mathlib.Data.List.Forall2
import Marmoset.Proofs.LineBreaks
import Marmoset.Proofs.Synchronisation
import Marmoset.Proofs.Termination
import Marmoset.Proofs.TwoRuns

/-! # Sources in a row

Two sources run one after the other in one scope do what they do as one source, with a line feed
between them, if nothing of the first goes on into the second.  This takes three things.  The first
source must end in a semicolon, if it has tokens at all: then no token and no statement goes on over
the line feed (`parseSource_append`).  It must run to its end, without an error and without a
`return`: then its statements are followed by those of the second
(`Stmt.exists_runOn_execAll_append`).  And what it prints must make no difference to the second,
which no program can look at (`runSource_precededBy`). -/

namespace Marmoset

/-! ### Reading two sources -/

/-- The source has no tokens, or its last token is a semicolon. -/
def EndsInSemicolon (source : String) : Prop :=
  ∀ t ∈ (TokenStream.ofSource source).tokens.getLast?, t.kind = .semicolon

/-- What is read from two sources in a row is what is read from the first, and then what is read
from the second but for the lines of its errors. -/
theorem parseSource_append {s₁ : String} (read : (parseSource s₁).errors = [])
    (ends : EndsInSemicolon s₁) (s₂ : String) :
    StreamSimulation.lines.SameResult (parseSource (s₁ ++ "\n" ++ s₂))
      (parseSource s₁ ++ parseSource s₂) := by
  have legal : LastLegal (TokenStream.ofSource s₁).tokens := by
    intro t last
    rw [ends t last]
    decide
  obtain ⟨line, tokens⟩ := tokens_ofSource_append legal s₂
  have later (endLine : Nat) : StreamSimulation.lines.SameResult
      (parseProgram ⟨tokensFrom line (lexemes s₂.toList), endLine⟩) (parseSource s₂) :=
    parseProgram_of_same_tokens (tokensFrom_same line 1 _)
  -- in both cases reading the two in a row is reading the first and then the tokens of the second
  suffices split : ∃ endLine, parseSource (s₁ ++ "\n" ++ s₂) =
      parseSource s₁ ++ parseProgram ⟨tokensFrom line (lexemes s₂.toList), endLine⟩ by
    obtain ⟨endLine, split⟩ := split
    rw [split]
    have first : StreamSimulation.lines.SameResult (parseSource s₁) (parseSource s₁) :=
      ⟨rfl, by rw [read]; exact .nil⟩
    exact first.append (later endLine)
  refine ⟨(TokenStream.ofSource (s₁ ++ "\n" ++ s₂)).endLine, ?_⟩
  rcases List.eq_nil_or_concat (TokenStream.ofSource s₁).tokens with none | ⟨before, t, some⟩
  · have empty : parseSource s₁ = ⟨[], []⟩ := parseProgram_of_eof (by
      rw [TokenStream.current, none]
      rfl)
    rw [none, List.nil_append] at tokens
    rw [empty, ← tokens]
    rfl
  · rw [List.concat_eq_append] at some
    have isSemicolon : t.kind = .semicolon := ends t (by rw [some]; simp)
    have notEof : ∀ t ∈ before, t.kind ≠ .eof := fun t mem =>
      kind_ne_eof_of_mem_ofSource (by rw [some]; simp [mem])
    let c : Cut := ⟨before, t, tokensFrom line (lexemes s₂.toList),
      (TokenStream.ofSource (s₁ ++ "\n" ++ s₂)).endLine, (TokenStream.ofSource s₁).endLine,
      isSemicolon, notEof⟩
    have short : c.short before = TokenStream.ofSource s₁ :=
      congrArg (TokenStream.mk · (TokenStream.ofSource s₁).endLine) some.symm
    have whole : c.whole before = TokenStream.ofSource (s₁ ++ "\n" ++ s₂) := by
      rw [some, List.append_assoc, List.singleton_append] at tokens
      exact congrArg (TokenStream.mk · c.endLine) tokens.symm
    have unexcused : ¬ c.simulation.Excused (parseProgram (c.short before)).errors := by
      rintro ⟨-, e, recorded, -⟩
      rw [short] at recorded
      exact List.not_mem_nil (read ▸ recorded)
    have split := c.parseProgram_whole before List.suffix_rfl unexcused
    rw [short, whole] at split
    exact split

/-! ### Running two programs -/

/-- Whether statements in a row all come to their end, none of them with an error or a `return`. -/
def Stmt.allComplete (d : Nat) (s : Scope) : List Stmt → Store → Bool
  | [], _ => true
  | st :: ss, σ =>
    match (st.exec d s).runOn σ with
    | (.ok value, σ₁) => !endsBlock value && Stmt.allComplete d s ss σ₁
    | (.error _, _) => false

theorem Stmt.allComplete_cons {d : Nat} {s : Scope} {st : Stmt} {σ σ₁ : Store}
    {value : Option Value} (first : (st.exec d s).runOn σ = (.ok value, σ₁)) (ss : List Stmt) :
    Stmt.allComplete d s (st :: ss) σ = (!endsBlock value && Stmt.allComplete d s ss σ₁) := by
  rw [Stmt.allComplete, first]

/-- Statements that come to their end hand on to those that follow. -/
theorem Stmt.exists_runOn_execAll_append {d : Nat} {s : Scope} {ss : List Stmt} {σ : Store}
    (complete : Stmt.allComplete d s ss σ = true) (last : Option Value) :
    ∃ last' σ', ∀ ss', (Stmt.execAll d s last (ss ++ ss')).runOn σ =
      (Stmt.execAll d s last' ss').runOn σ' := by
  induction ss generalizing σ last with
  | nil => exact ⟨last, σ, fun _ => rfl⟩
  | cons st ss ih =>
      rw [Stmt.allComplete] at complete
      split at complete
      · next value σ₁ first =>
        rw [Bool.and_eq_true, Bool.not_eq_true'] at complete
        obtain ⟨last', σ', rest⟩ := ih complete.2 value
        refine ⟨last', σ', fun ss' => ?_⟩
        rw [List.cons_append, Stmt.runOn_execAll_cons first complete.1, rest]
      · cases complete

theorem Stmt.execAll_of_ne_nil {ss : List Stmt} (ne : ss ≠ []) (d : Nat) (s : Scope)
    (last last' : Option Value) : Stmt.execAll d s last ss = Stmt.execAll d s last' ss := by
  cases ss with
  | nil => exact absurd rfl ne
  | cons st ss => rw [Stmt.execAll_cons, Stmt.execAll_cons]

/-- A program that comes to its end, and statements after it. -/
theorem Node.run_program_append {d : Nat} {s : Scope} {p₁ p₂ : Program} {σ : Store}
    (complete : Stmt.allComplete d s p₁ σ = true) (ne : p₂ ≠ []) :
    (Node.program (p₁ ++ p₂)).run d s σ =
      (Node.program p₂).run d s ((Node.program p₁).run d s σ).2 := by
  obtain ⟨last, σ', hands⟩ := Stmt.exists_runOn_execAll_append complete none
  have alone : (Stmt.execAll d s none p₁).runOn σ = (.ok last, σ') := by
    have alone := hands []
    rw [List.append_nil, Stmt.execAll] at alone
    exact alone
  have both : (Stmt.execAll d s none (p₁ ++ p₂)).runOn σ = (Stmt.execAll d s none p₂).runOn σ' := by
    rw [hands p₂, Stmt.execAll_of_ne_nil ne d s last none]
  simp only [Node.run, Node.eval, alone, both]

/-! ### What was printed before -/

namespace Store

/-- The store with a text printed before everything else. -/
def precededBy (text : String) (σ : Store) : Store :=
  { σ with output := text ++ σ.output }

theorem takeOutput_precededBy (σ : Store) :
    σ.takeOutput.2.precededBy σ.takeOutput.1 = σ := by
  simp [takeOutput, precededBy]

theorem assignAll_precededBy (text : String) (σ : Store) (s : Scope)
    (bindings : List (String × Value)) :
    (σ.precededBy text).assignAll s bindings = (σ.assignAll s bindings).precededBy text := by
  induction bindings generalizing σ with
  | nil => rfl
  | cons entry bindings ih => exact ih (σ.assign s entry.1 entry.2)

theorem printLine_precededBy (text : String) (σ : Store) (line : String) :
    (σ.precededBy text).printLine line = (σ.printLine line).precededBy text := by
  simp [precededBy, printLine, String.append_assoc]

end Store

/-- Nothing that a run does looks at what was printed. -/
theorem precededSimulation (text : String) :
    EvalSimulation (fun σ τ => σ.precededBy text = τ) (fun _ => True) (fun _ => True)
      fun _ => True where
  toWrappable := .top
  body _ _ := trivial
  lookup := by
    rintro σ _ s name rfl - -
    exact ⟨rfl, fun v _ _ _ => trivial⟩
  newClosure := by
    rintro σ _ s body parameters rfl - -
    exact ⟨rfl, rfl, trivial⟩
  assign := by
    rintro σ _ s v name rfl - -
    rfl
  enter := by
    rintro σ _ f arguments rfl - -
    exact ⟨rfl, (Store.assignAll_precededBy text _ _ _).symm, trivial⟩
  printLine := by
    rintro σ _ line rfl
    exact (σ.printLine_precededBy text line).symm

/-- A program does the same whatever was printed before it. -/
theorem Node.run_precededBy (text : String) (node : Node) (d : Nat) (s : Scope) (σ : Store) :
    node.run d s (σ.precededBy text) =
      ((node.run d s σ).1, (node.run d s σ).2.precededBy text) := by
  obtain ⟨result, after⟩ :=
    node.run_matches (precededSimulation text) d trivial (fun _ _ => trivial) rfl
  exact Prod.ext result.symm after.symm

theorem runSource_precededBy (text : String) (source : String) (d : Nat) (s : Scope) (σ : Store) :
    runSource d s source (σ.precededBy text) =
      ((runSource d s source σ).1, (runSource d s source σ).2.precededBy text) := by
  simp only [runSource, Node.run_precededBy]
  split <;> rfl

/-! ### Sources in a row -/

theorem runSource_append {s₁ s₂ : String} {d : Nat} {s : Scope} {σ : Store}
    (read₁ : (parseSource s₁).errors = []) (ends : EndsInSemicolon s₁)
    (read₂ : (parseSource s₂).errors = []) (nonempty : (parseSource s₂).program ≠ [])
    (complete : Stmt.allComplete d s (parseSource s₁).program σ = true) :
    runSource d s (s₁ ++ "\n" ++ s₂) σ = runSource d s s₂ (runSource d s s₁ σ).2 := by
  obtain ⟨program, errors⟩ := parseSource_append read₁ ends s₂
  rw [ParseResult.errors_append, read₁, read₂] at errors
  have read := List.forall₂_nil_right_iff.mp errors
  rw [runSource_of_errors_eq_nil read, runSource_of_errors_eq_nil read₁,
    runSource_of_errors_eq_nil read₂, program, ParseResult.program_append,
    Node.run_program_append complete nonempty]

/-- **Successive runs are one run of the concatenation.**  Let two sources be read without errors,
the first without tokens or ending in a semicolon, the second with a statement in it, and let all
statements of the first come to their end.  Then the two with a line feed between them have, run as
one source, the result of the second run after the first; they print what the first prints and then
what the second prints; and they leave the frames that the two leave one after the other. -/
theorem concatenation_runs_as_both (s₁ s₂ : String) (d : Nat) (s : Scope) (σ : Store)
    (read₁ : (parseSource s₁).errors = []) (ends : EndsInSemicolon s₁)
    (read₂ : (parseSource s₂).errors = []) (nonempty : (parseSource s₂).program ≠ [])
    (complete : Stmt.allComplete d s (parseSource s₁).program σ = true) :
    let (printed₁, between) := (runSource d s s₁ σ).2.takeOutput
    let (result₂, after₂) := runSource d s s₂ between
    let (printed₂, final) := after₂.takeOutput
    let (result, after) := runSource d s (s₁ ++ "\n" ++ s₂) σ
    result = result₂ ∧ after.takeOutput = (printed₁ ++ printed₂, final) := by
  have both := runSource_append read₁ ends read₂ nonempty complete
  have split := (runSource d s s₁ σ).2.takeOutput_precededBy
  rw [← split, runSource_precededBy] at both
  rw [both]
  exact ⟨rfl, rfl⟩

/-- The first source binds and prints a text with a semicolon and a line feed in it, and ends in a
comment; the second prints it again. -/
theorem concatenation_runs_as_both_comment :
    let s₁ := "let t = \";\n\"; puts(t); // t"
    let s₂ := "puts(t); t"
    let σ : Store := ⟨#[[]], 0, ""⟩
    (parseSource s₁).errors = [] ∧ EndsInSemicolon s₁ ∧ (parseSource s₂).errors = [] ∧
      (parseSource s₂).program ≠ [] ∧
      Stmt.allComplete 0 ⟨0, []⟩ (parseSource s₁).program σ = true ∧
      (runSource 0 ⟨0, []⟩ (s₁ ++ "\n" ++ s₂) σ).1 = .ok (some (.text ";\n")) ∧
      (runSource 0 ⟨0, []⟩ (s₁ ++ "\n" ++ s₂) σ).2.takeOutput =
        (";\n\n;\n\n", ⟨#[[("t", .text ";\n")]], 0, ""⟩) := by
  intro s₁ s₂ σ
  have parsed₁ : parseSource s₁ =
      ⟨[.bind "t" (.text ";\n"), .expr (.call (.name "puts") [.name "t"])], []⟩ := by
    simp only [s₁]
    with_unfolding_all rfl
  have parsed₂ : parseSource s₂ =
      ⟨[.expr (.call (.name "puts") [.name "t"]), .expr (.name "t")], []⟩ := by
    simp only [s₂]
    with_unfolding_all rfl
  have read₁ : (parseSource s₁).errors = [] := by rw [parsed₁]
  have read₂ : (parseSource s₂).errors = [] := by rw [parsed₂]
  have nonempty : (parseSource s₂).program ≠ [] := by
    rw [parsed₂]
    exact List.cons_ne_nil _ _
  have ends : EndsInSemicolon s₁ := by
    have last : (TokenStream.ofSource s₁).tokens.getLast? = some ⟨.semicolon, ";", 2⟩ := by
      decide +kernel
    intro t mem
    rw [last] at mem
    cases mem
    rfl
  let bound : Store := ⟨#[[("t", .text ";\n")]], 0, ""⟩
  let printed : Store := { bound with output := ";\n\n" }
  have complete : Stmt.allComplete 0 ⟨0, []⟩ (parseSource s₁).program σ = true := by
    have binding : ((Stmt.bind "t" (.text ";\n")).exec 0 ⟨0, []⟩).runOn σ = (.ok none, bound) :=
      (Stmt.perform_settles _ _ _).runOn_eq 5 fun _ => rfl
    have printing : ((Stmt.expr (.call (.name "puts") [.name "t"])).exec 0 ⟨0, []⟩).runOn bound =
        (.ok (some .null), printed) := (Stmt.perform_settles _ _ _).runOn_eq 10 fun _ => rfl
    rw [parsed₁]
    exact (Stmt.allComplete_cons binding _).trans (Stmt.allComplete_cons printing _)
  have run₁ : runSource 0 ⟨0, []⟩ s₁ σ = (.ok (some .null), printed) := by
    have run : (Node.program (parseSource s₁).program).run 0 ⟨0, []⟩ σ = (some .null, printed) := by
      rw [parsed₁]
      exact Node.run_of_perform 12 fun _ => rfl
    rw [runSource_of_errors_eq_nil read₁, run]
  have run₂ : runSource 0 ⟨0, []⟩ s₂ bound = (.ok (some (.text ";\n")), printed) := by
    have run : (Node.program (parseSource s₂).program).run 0 ⟨0, []⟩ bound =
        (some (.text ";\n"), printed) := by
      rw [parsed₂]
      exact Node.run_of_perform 12 fun _ => rfl
    rw [runSource_of_errors_eq_nil read₂, run]
  have main := concatenation_runs_as_both s₁ s₂ 0 ⟨0, []⟩ σ read₁ ends read₂ nonempty complete
  rw [run₁] at main
  dsimp only [Store.takeOutput] at main
  rw [run₂] at main
  exact ⟨read₁, ends, read₂, nonempty, complete, main.1, main.2⟩

end Marmoset
