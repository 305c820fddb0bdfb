import Marmoset.Proofs.Grammar

/-! # What may come next

Which token may come next depends on the tokens before it only through a stack of things that are
still expected (`Prediction`).  `Prediction.step` reads one token: it gives what is expected after it,
or nothing if the token cannot stand there.  Precedence plays no part in this.  It decides how a token
is grouped, and never whether it is allowed, so one expectation (`operators`) stands for all places at
which an expression may go on.

Two facts are proved here.  What is expected at the end of the input is settled by the stack alone
(`isSome_step_of_eof`), and whatever has been read without meeting a token that cannot stand there can
be completed (`exists_completion`). -/

namespace Marmoset

/-- The comma-separated lists of the language. -/
inductive Listing where
  | arguments | elements | entries | parameters
deriving DecidableEq, Repr

/-- Something that is expected: an expression or what may go on with one, a token of a given kind, a
semicolon or an `else` that may be left out, the beginning or the rest of a list, and the statements of
a block or of the program. -/
inductive Expectation where
  | operand | operators
  | token (kind : TokenKind)
  | semicolon | alternative
  | items (l : Listing) | moreItems (l : Listing)
  | block | program
deriving DecidableEq, Repr

/-- What is expected, from the nearest to the last. -/
abbrev Prediction := List Expectation

namespace Listing

/-- The token that ends a list. -/
def closing : Listing → TokenKind
  | arguments | parameters => .rightParen
  | elements => .rightBracket
  | entries => .rightBrace

/-- What an item is made of. -/
def item : Listing → Prediction
  | arguments | elements => [.operand]
  | entries => [.operand, .token .colon, .operand]
  | parameters => [.token .name]

end Listing

namespace Prediction

/-! ### Reading tokens -/

/-- After the first token of an expression. -/
def startOperand (rest : Prediction) (t : Token) : Option Prediction :=
  match t.kind with
  | .name | .text | .trueWord | .falseWord => some (.operators :: rest)
  | .integer => if (Integer.ofText? t.literal).isSome then some (.operators :: rest) else none
  | .bang | .minus => some (.operand :: rest)
  | .leftParen => some (.operand :: .token .rightParen :: .operators :: rest)
  | .ifWord =>
    some (.operand :: .token .leftBrace :: .block :: .alternative :: .operators :: rest)
  | .fnWord =>
    some (.token .leftParen :: .items .parameters :: .token .leftBrace :: .block :: .operators :: rest)
  | .leftBracket => some (.items .elements :: .operators :: rest)
  | .leftBrace => some (.items .entries :: .operators :: rest)
  | _ => none

/-- After the first token of an item. -/
def startItem (rest : Prediction) (t : Token) : Listing → Option Prediction
  | .arguments | .elements => startOperand rest t
  | .entries => startOperand (.token .colon :: .operand :: rest) t
  | .parameters => if t.kind = .name then some rest else none

/-- After the first token of a statement. -/
def startStatement (rest : Prediction) (t : Token) : Option Prediction :=
  match t.kind with
  | .letWord => some (.token .name :: .token .assign :: .operand :: .semicolon :: rest)
  | .returnWord => some (.operand :: .semicolon :: rest)
  | _ => startOperand (.semicolon :: rest) t

/-- What is expected after a token; nothing if it cannot come next. -/
def step : Prediction → Token → Option Prediction
  | [], _ => none
  | .operand :: rest, t => startOperand rest t
  | .operators :: rest, t =>
    match t.kind with
    | .leftParen => some (.items .arguments :: .operators :: rest)
    | .leftBracket => some (.operand :: .token .rightBracket :: .operators :: rest)
    | kind => if (BinaryOp.ofKind? kind).isSome then some (.operand :: rest) else step rest t
  | .token kind :: rest, t => if t.kind = kind then some rest else none
  | .semicolon :: rest, t => if t.kind = .semicolon then some rest else step rest t
  | .alternative :: rest, t =>
    if t.kind = .elseWord then some (.token .leftBrace :: .block :: rest) else step rest t
  | .items l :: rest, t =>
    if t.kind = l.closing then some rest else startItem (.moreItems l :: rest) t l
  | .moreItems l :: rest, t =>
    if t.kind = .comma then some (l.item ++ .moreItems l :: rest)
    else if t.kind = l.closing then some rest
    else none
  | .block :: rest, t =>
    if t.kind = .rightBrace then some rest else startStatement (.block :: rest) t
  | .program :: rest, t =>
    if t.kind = .eof then some [] else startStatement (.program :: rest) t

/-- What is expected after several tokens. -/
def run : Prediction → List Token → Option Prediction
  | s, [] => some s
  | s, t :: ts => (step s t).bind (run · ts)

/-- Whether the input may end: nothing is left but what can be left out. -/
def mayEnd : Prediction → Bool
  | .operators :: rest | .semicolon :: rest | .alternative :: rest => mayEnd rest
  | .program :: _ => true
  | _ => false

theorem run_append (s : Prediction) (u v : List Token) :
    run s (u ++ v) = (run s u).bind (run · v) := by
  induction u generalizing s with
  | nil => rfl
  | cons t u ih =>
      rw [List.cons_append, run, run, Option.bind_assoc]
      congr 1
      funext s'
      exact ih s'

/-- A token that cannot come next ends the reading. -/
theorem run_eq_none {s s' : Prediction} {w rest : List Token} {t : Token} (h : run s w = some s')
    (dead : step s' t = none) : run s (w ++ t :: rest) = none := by
  rw [run_append, h]
  exact congrArg (Option.bind · (run · rest)) dead

/-! ### Expectations that can be passed over -/

theorem step_operators {t : Token} (h : t.kind ∉ Grammar.continuing) (rest : Prediction) :
    step (.operators :: rest) t = step rest t := by
  rw [step]
  revert h
  cases t.kind <;> intro h <;> first | rfl | exact absurd (by decide) h

theorem step_operators_of_binary {t : Token} {op : BinaryOp} (h : BinaryOp.ofKind? t.kind = some op)
    (rest : Prediction) : step (.operators :: rest) t = some (.operand :: rest) := by
  rw [step]
  revert h
  cases t.kind <;> intro h <;> first | rfl | cases h

theorem startStatement_of_ne {t : Token} (hlet : t.kind ≠ .letWord) (hreturn : t.kind ≠ .returnWord)
    (rest : Prediction) : startStatement rest t = startOperand (.semicolon :: rest) t := by
  unfold startStatement
  split <;> first | contradiction | rfl

theorem step_semicolon {t : Token} (h : t.kind ≠ .semicolon) (rest : Prediction) :
    step (.semicolon :: rest) t = step rest t := by
  rw [step, if_neg h]

theorem step_alternative {t : Token} (h : t.kind ≠ .elseWord) (rest : Prediction) :
    step (.alternative :: rest) t = step rest t := by
  rw [step, if_neg h]

theorem startItem_eq_step (l : Listing) (rest : Prediction) (t : Token) :
    startItem rest t l = step (l.item ++ rest) t := by
  cases l <;> rfl

/-! ### The end of the input -/

theorem startOperand_of_eof {t : Token} (h : t.kind = .eof) (rest : Prediction) :
    startOperand rest t = none := by
  simp only [startOperand, h]

theorem startStatement_of_eof {t : Token} (h : t.kind = .eof) (rest : Prediction) :
    startStatement rest t = none := by
  simp only [startStatement, h]
  exact startOperand_of_eof h _

theorem isSome_step_of_eof {s : Prediction} (h : ∀ e ∈ s, e ≠ .token .eof) {t : Token}
    (ht : t.kind = .eof) : (step s t).isSome = mayEnd s := by
  induction s with
  | nil => rfl
  | cons e rest ih =>
      have below := ih fun e mem => h e (List.mem_cons_of_mem _ mem)
      cases e with
      | operand => simp [step, mayEnd, startOperand_of_eof ht]
      | operators =>
          rw [step_operators (by rw [ht]; decide), mayEnd]
          exact below
      | token kind =>
          have other : t.kind ≠ kind := by
            rw [ht]
            rintro rfl
            exact h _ List.mem_cons_self rfl
          simp [step, mayEnd, other]
      | semicolon =>
          rw [step_semicolon (by rw [ht]; decide), mayEnd]
          exact below
      | alternative =>
          rw [step_alternative (by rw [ht]; decide), mayEnd]
          exact below
      | items l => cases l <;> simp [step, mayEnd, startItem, Listing.closing, ht, startOperand_of_eof]
      | moreItems l => cases l <;> simp [step, mayEnd, Listing.closing, ht]
      | block => simp [step, mayEnd, ht, startStatement_of_eof]
      | program => simp [step, mayEnd, ht]

/-! ### Completions -/

end Prediction

/-- The expectations that can stand below one that may be passed over: a token that meets them is
never taken for an operator, a semicolon or an `else`. -/
def Expectation.resumes : Expectation → Bool
  | .token kind =>
    kind ∈ [.name, .assign, .leftBrace, .rightParen, .rightBracket, .colon]
  | _ => true

/-- Tokens that meet an expectation, as few as possible. -/
def Expectation.filler : Expectation → List Token
  | .operand => [⟨.name, "x", 0⟩]
  | .token kind => [⟨kind, "", 0⟩]
  | .items l | .moreItems l => [⟨l.closing, "", 0⟩]
  | .block => [⟨.rightBrace, "", 0⟩]
  | .operators | .semicolon | .alternative | .program => []

namespace Prediction

/-- Everything can be met in turn, down to the statements of the program. -/
structure Resumable (s : Prediction) : Prop where
  program : .program ∈ s
  resumes : ∀ e ∈ s, e.resumes = true

/-- The form of what is expected after any tokens: only the parenthesis after `fn` is met by a token
that could also go on with an expression. -/
def Proper (s : Prediction) : Prop :=
  Resumable s ∨ ∃ rest, s = .token .leftParen :: rest ∧ Resumable rest

theorem Resumable.cons {e : Expectation} {rest : Prediction} (h : Resumable rest)
    (he : e.resumes = true) : Resumable (e :: rest) where
  program := List.mem_cons_of_mem _ h.program
  resumes := List.forall_mem_cons.mpr ⟨he, h.resumes⟩

theorem Resumable.tail {e : Expectation} {rest : Prediction} (h : Resumable (e :: rest))
    (he : e ≠ .program) : Resumable rest where
  program := (List.mem_cons.mp h.program).resolve_left he.symm
  resumes := (List.forall_mem_cons.mp h.resumes).2

theorem Resumable.append_item {rest : Prediction} (h : Resumable rest) (l : Listing) :
    Resumable (l.item ++ rest) := by
  cases l with
  | arguments | elements => exact h.cons rfl
  | entries => exact ((h.cons rfl).cons rfl).cons rfl
  | parameters => exact h.cons rfl

theorem Resumable.proper {s : Prediction} (h : Resumable s) : Proper s :=
  .inl h

theorem proper_program : Proper [.program] :=
  .inl ⟨List.mem_singleton_self _, by decide⟩

theorem proper_of_startOperand {rest s : Prediction} {t : Token} (h : Resumable rest)
    (hs : startOperand rest t = some s) : Proper s := by
  have operators : Resumable (.operators :: rest) := h.cons rfl
  unfold startOperand at hs
  split at hs <;> try cases hs
  case h_5 =>
    -- an integer token may be out of range
    split at hs
    · cases hs
      exact operators.proper
    · cases hs
  case h_1 | h_2 | h_3 | h_4 => exact operators.proper
  case h_6 | h_7 => exact (h.cons rfl).proper
  case h_8 => exact ((operators.cons rfl).cons rfl).proper
  case h_9 => exact ((((operators.cons rfl).cons rfl).cons rfl).cons rfl).proper
  case h_10 => exact .inr ⟨_, rfl, ((operators.cons rfl).cons rfl).cons rfl⟩
  case h_11 | h_12 => exact (operators.cons rfl).proper

theorem proper_of_startStatement {rest s : Prediction} {t : Token} (h : Resumable rest)
    (hs : startStatement rest t = some s) : Proper s := by
  unfold startStatement at hs
  split at hs
  · cases hs
    exact ((((h.cons rfl).cons rfl).cons rfl).cons rfl).proper
  · cases hs
    exact ((h.cons rfl).cons rfl).proper
  · exact proper_of_startOperand (h.cons rfl) hs

/-- Reading a token that is not the end leaves a proper form behind. -/
theorem Resumable.proper_of_step {s s' : Prediction} {t : Token} (h : Resumable s)
    (ht : t.kind ≠ .eof) (hs : step s t = some s') : Proper s' := by
  induction s with
  | nil => cases hs
  | cons e rest ih =>
      cases e with
      | operand => exact proper_of_startOperand (h.tail nofun) hs
      | operators =>
          have below := h.tail nofun
          rw [step] at hs
          split at hs
          · cases hs
            exact ((below.cons rfl).cons rfl).proper
          · cases hs
            exact (((below.cons rfl).cons rfl).cons rfl).proper
          · split at hs
            · cases hs
              exact (below.cons rfl).proper
            · exact ih below hs
      | token kind =>
          rw [step] at hs
          split at hs
          · cases hs
            exact (h.tail nofun).proper
          · cases hs
      | semicolon =>
          rw [step] at hs
          split at hs
          · cases hs
            exact (h.tail nofun).proper
          · exact ih (h.tail nofun) hs
      | alternative =>
          rw [step] at hs
          split at hs
          · cases hs
            exact (((h.tail nofun).cons rfl).cons rfl).proper
          · exact ih (h.tail nofun) hs
      | items l =>
          have below := h.tail nofun
          rw [step] at hs
          split at hs
          · cases hs
            exact below.proper
          · have more : Resumable (.moreItems l :: rest) := below.cons rfl
            cases l with
            | arguments | elements => exact proper_of_startOperand more hs
            | entries => exact proper_of_startOperand ((more.cons rfl).cons rfl) hs
            | parameters =>
                rw [startItem] at hs
                split at hs
                · cases hs
                  exact more.proper
                · cases hs
      | moreItems l =>
          have below := h.tail nofun
          rw [step] at hs
          split at hs
          · cases hs
            exact ((below.cons rfl).append_item l).proper
          · split at hs
            · cases hs
              exact below.proper
            · cases hs
      | block =>
          rw [step] at hs
          split at hs
          · cases hs
            exact (h.tail nofun).proper
          · exact proper_of_startStatement h hs
      | program =>
          rw [step, if_neg ht] at hs
          exact proper_of_startStatement h hs

theorem Proper.of_step {s s' : Prediction} {t : Token} (h : Proper s) (ht : t.kind ≠ .eof)
    (hs : step s t = some s') : Proper s' := by
  obtain h | ⟨rest, rfl, below⟩ := h
  · exact h.proper_of_step ht hs
  · rw [step] at hs
    split at hs
    · cases hs
      exact below.proper
    · cases hs

theorem Proper.of_run {s s' : Prediction} {w : List Token} (h : Proper s)
    (hw : ∀ t ∈ w, t.kind ≠ .eof) (hs : run s w = some s') : Proper s' := by
  induction w generalizing s with
  | nil =>
      cases hs
      exact h
  | cons t w ih =>
      obtain ⟨ht, hw⟩ := List.forall_mem_cons.mp hw
      obtain ⟨s₁, h₁, hs⟩ := Option.bind_eq_some_iff.mp hs
      exact ih (h.of_step ht h₁) hw hs

/-- The end of the input is never one of the tokens that have to come. -/
theorem Proper.ne_eof {s : Prediction} (h : Proper s) : ∀ e ∈ s, e ≠ .token .eof := by
  have plain {rest : Prediction} (h : Resumable rest) : ∀ e ∈ rest, e ≠ .token .eof := by
    rintro e mem rfl
    exact absurd (h.resumes _ mem) (by decide)
  obtain h | ⟨rest, rfl, below⟩ := h
  · exact plain h
  · exact List.forall_mem_cons.mpr ⟨by decide, plain below⟩

/-- Tokens that meet everything that is expected, down to the statements of the program. -/
def completion : Prediction → List Token
  | [] | .program :: _ => []
  | e :: rest => e.filler ++ completion rest

theorem completion_cons {e : Expectation} (he : e ≠ .program) (rest : Prediction) :
    completion (e :: rest) = e.filler ++ completion rest := by
  cases e <;> first | rfl | contradiction

/-- The kinds of tokens that a completion is made of, the parenthesis after `fn` apart. -/
def resuming : List TokenKind :=
  [.name, .assign, .leftBrace, .rightParen, .rightBracket, .colon, .rightBrace]

theorem Resumable.kind_mem_resuming {s : Prediction} (h : Resumable s) :
    ∀ t ∈ completion s, t.kind ∈ resuming := by
  induction s with
  | nil => nofun
  | cons e rest ih =>
      by_cases he : e = .program
      · subst he
        nofun
      · rw [completion_cons he]
        refine List.forall_mem_append.mpr ⟨?_, ih (h.tail he)⟩
        have resumes := h.resumes e List.mem_cons_self
        cases e with
        | token kind =>
            revert resumes
            cases kind <;> decide
        | items l | moreItems l => cases l <;> decide
        | operand | operators | semicolon | alternative | block | program => decide

/-- What may be left out is passed over when the completion goes on below it. -/
theorem Resumable.completes_cons {e : Expectation} {rest : Prediction} (h : Resumable rest)
    (passed : ∀ t : Token, t.kind ∈ resuming → step (e :: rest) t = step rest t)
    (ends : mayEnd (e :: rest) = mayEnd rest)
    (completes : ∃ s, run rest (completion rest) = some s ∧ mayEnd s = true) :
    ∃ s, run (e :: rest) (completion rest) = some s ∧ mayEnd s = true := by
  have kinds := h.kind_mem_resuming
  cases hc : completion rest with
  | nil =>
      obtain ⟨s, hs, hend⟩ := completes
      rw [hc] at hs
      cases hs
      exact ⟨_, rfl, ends.trans hend⟩
  | cons t v =>
      rw [hc] at kinds completes
      rw [run, passed t (kinds t List.mem_cons_self)]
      exact completes

/-- A token that meets the nearest expectation is followed by a completion of the rest. -/
theorem completes_of_step {s rest : Prediction} {t : Token} (h : step s t = some rest)
    (completes : ∃ s', run rest (completion rest) = some s' ∧ mayEnd s' = true) :
    ∃ s', run s (t :: completion rest) = some s' ∧ mayEnd s' = true := by
  rw [run, h]
  exact completes

theorem Resumable.completes {s : Prediction} (h : Resumable s) :
    ∃ s', run s (completion s) = some s' ∧ mayEnd s' = true := by
  induction s with
  | nil => cases h.program
  | cons e rest ih =>
      have passOperators (below : Resumable rest) :
          ∃ s', run (.operators :: rest) (completion rest) = some s' ∧ mayEnd s' = true :=
        below.completes_cons (fun t ht => step_operators (by revert ht; cases t.kind <;> decide) rest)
          rfl (ih below)
      cases e with
      | operand => exact passOperators (h.tail nofun)
      | operators => exact passOperators (h.tail nofun)
      | token kind => exact completes_of_step (if_pos rfl) (ih (h.tail nofun))
      | semicolon =>
          exact (h.tail nofun).completes_cons
            (fun t ht => step_semicolon (by revert ht; cases t.kind <;> decide) rest) rfl
            (ih (h.tail nofun))
      | alternative =>
          exact (h.tail nofun).completes_cons
            (fun t ht => step_alternative (by revert ht; cases t.kind <;> decide) rest) rfl
            (ih (h.tail nofun))
      | items l => exact completes_of_step (if_pos rfl) (ih (h.tail nofun))
      | moreItems l =>
          have closes : step (.moreItems l :: rest) ⟨l.closing, "", 0⟩ = some rest := by
            cases l <;> rfl
          exact completes_of_step closes (ih (h.tail nofun))
      | block => exact completes_of_step (if_pos rfl) (ih (h.tail nofun))
      | program => exact ⟨_, rfl, rfl⟩

/-- Whatever has been read without meeting a token that cannot stand there can be completed. -/
theorem Proper.exists_completion {s : Prediction} (h : Proper s) :
    ∃ v s', (∀ t ∈ v, t.kind ≠ .eof) ∧ run s v = some s' ∧ mayEnd s' = true := by
  have noEof {rest : Prediction} (h : Resumable rest) : ∀ t ∈ completion rest, t.kind ≠ .eof := by
    intro t ht heof
    have := h.kind_mem_resuming t ht
    rw [heof] at this
    exact absurd this (by decide)
  obtain h | ⟨rest, rfl, below⟩ := h
  · obtain ⟨s', hs', hend⟩ := h.completes
    exact ⟨_, s', noEof h, hs', hend⟩
  · obtain ⟨s', hs', hend⟩ := below.completes
    exact ⟨⟨.leftParen, "", 0⟩ :: completion rest, s',
      List.forall_mem_cons.mpr ⟨by decide, noEof below⟩, hs', hend⟩

end Prediction

end Marmoset
