import Marmoset.Proofs.ParserSound
import Marmoset.Proofs.Prediction

/-! # Where the first error is

The parser is followed token by token along a prediction.  `Reaches u s v s'` says that the tokens
from `u` up to `v` may come where `s` is expected, and that the token at `v` is then met as if `s'`
were.  `Parsed.Predicts` says two things about a step: what it reads without an error was allowed to
come, and its first error is at a token that was not.  Each way of making a step keeps this, so the
whole parser has it (`parseProgram_reaches`), and it accepts what may come where a program is expected
(`errors_eq_nil_iff_run`).

What is expected can always be completed, so the token at which the first error is found is the
earliest one that no continuation can mend. -/

namespace Marmoset

/-! ### Tokens that are allowed -/

namespace Prediction

variable {u v w : TokenStream} {s s₁ s' : Prediction}

/-- The tokens of `u` before `v` may come where `s` is expected, none of them is the end, and the
token at `v` is then met as where `s'` is expected. -/
inductive Reaches : TokenStream → Prediction → TokenStream → Prediction → Prop
  | stay {u : TokenStream} {s s' : Prediction} :
      step s u.current = step s' u.current → Reaches u s u s'
  | read {u v : TokenStream} {s s₁ s' : Prediction} :
      u.current.kind ≠ .eof → step s u.current = some s₁ → Reaches u.advance s₁ v s' →
      Reaches u s v s'

theorem Reaches.refl : Reaches u s u s :=
  .stay rfl

theorem Reaches.one {kind : TokenKind} (hk : u.current.kind = kind) (hne : kind ≠ .eof)
    (h : step s u.current = some s') : Reaches u s u.advance s' :=
  .read (hk ▸ hne) h .refl

theorem Reaches.trans (h : Reaches u s v s₁) (h' : Reaches v s₁ w s') : Reaches u s w s' := by
  induction h with
  | stay heq =>
      cases h' with
      | stay heq' => exact .stay (heq.trans heq')
      | read hne hstep hrest => exact .read hne (heq.trans hstep) hrest
  | read hne hstep _ ih => exact .read hne hstep (ih h')

/-- The tokens that were read, and what is expected after them. -/
theorem Reaches.exists_run (h : Reaches u s v s') :
    ∃ w s₁, u.tokens = w ++ v.tokens ∧ (∀ t ∈ w, t.kind ≠ .eof) ∧ v.endLine = u.endLine ∧
      run s w = some s₁ ∧ step s₁ v.current = step s' v.current := by
  induction h with
  | stay heq => exact ⟨[], _, rfl, nofun, rfl, rfl, heq⟩
  | @read u v s s₁ s' hne hstep _ ih =>
      obtain ⟨w, s₂, htokens, hw, hend, hrun, hlast⟩ := ih
      refine ⟨u.current :: w, s₂, ?_, List.forall_mem_cons.mpr ⟨hne, hw⟩, hend, ?_, hlast⟩
      · rw [TokenStream.tokens_eq_cons hne, htokens, List.cons_append]
      · rw [run, hstep]
        exact hrun

end Prediction

open Prediction

/-! ### Steps that follow a prediction -/

namespace Parsed

variable {α β : Type} {start u v : TokenStream} {s s₁ s' : Prediction}

/-- The first error that a step finds: one that it records, or else the one that it fails with. -/
def firstError? (p : Parsed start α) : Option ParseError :=
  p.recorded.head?.or <|
    match p.outcome with
    | .ok _ => none
    | .error e => some e

/-- What the step reads may come from `u` on, where `s` is expected, and leaves `s'` to be expected;
its first error is at a token that cannot come. -/
structure Predicts (p : Parsed start α) (u : TokenStream) (s s' : Prediction) : Prop where
  yields : ∀ a t, p.Yields a t → Reaches u s t.advance s'
  fails : ∀ e, p.firstError? = some e → ∃ v, Reaches u s v [] ∧ v.current.line = e.line

/-- A step yields a value or has a first error. -/
theorem yields_or_firstError? (p : Parsed start α) :
    (∃ a, p.Yields a p.stop) ∨ ∃ e, p.firstError? = some e := by
  unfold Yields firstError?
  cases hrecorded : p.recorded with
  | cons e es => exact .inr ⟨e, rfl⟩
  | nil =>
      cases houtcome : p.outcome with
      | ok a => exact .inl ⟨a, rfl, rfl, rfl⟩
      | error e => exact .inr ⟨e, rfl⟩

theorem not_yields_of_firstError? {p : Parsed start α} {e : ParseError}
    (h : p.firstError? = some e) {a : α} {t : TokenStream} : ¬ p.Yields a t := by
  rintro ⟨houtcome, hrecorded, -⟩
  simp [firstError?, houtcome, hrecorded] at h

theorem Predicts.before {p : Parsed start α} (h : p.Predicts v s₁ s') (reaches : Reaches u s v s₁) :
    p.Predicts u s s' where
  yields a t hp := reaches.trans (h.yields a t hp)
  fails e he :=
    let ⟨w, hw, hline⟩ := h.fails e he
    ⟨w, reaches.trans hw, hline⟩

theorem predicts_here {a : α} (h : step s start.next = step s' start.next) :
    (here a : Parsed start α).Predicts start.advance s s' where
  yields b t ht := by
    obtain ⟨-, rfl⟩ := yields_here.mp ht
    exact .stay h
  fails e he := nomatch he

theorem predicts_ok_advance {a : α} {h : start.advance.remaining ≤ start.remaining}
    {kind : TokenKind} (hk : start.next.kind = kind) (hne : kind ≠ .eof)
    (hstep : step s start.next = some s') :
    (ok a start.advance h : Parsed start α).Predicts start.advance s s' where
  yields b t ht := by
    obtain ⟨-, rfl⟩ := yields_ok.mp ht
    exact .one hk hne hstep
  fails e he := nomatch he

theorem predicts_failHere {cause : ParseError.Cause} (h : step s start.current = none) :
    (failHere cause : Parsed start α).Predicts start s s' where
  yields a t ht := absurd ht not_yields_failHere
  fails e he := by
    cases he
    exact ⟨start, .stay h, rfl⟩

/-- An error is recorded at a token that cannot come. -/
theorem predicts_after_error {p : Parsed start α} {e : ParseError}
    (h : step s start.current = none) (hline : start.current.line = e.line) :
    (p.after [e]).Predicts start s s' where
  yields a t ht := absurd (yields_after.mp ht).1 (by simp)
  fails e' he := by
    cases he
    exact ⟨start, .stay h, hline⟩

theorem predicts_expect {kind : TokenKind} (hkind : kind ≠ .eof) (start : TokenStream)
    (rest : Prediction) : (expect kind start).Predicts start.advance (.token kind :: rest) rest := by
  unfold expect
  split
  · next h => exact predicts_ok_advance h hkind (if_pos h)
  · next h =>
    refine ⟨fun a t ht => absurd ht not_yields_fail, fun e he => ?_⟩
    cases he
    exact ⟨start.advance, .stay (if_neg h), rfl⟩

theorem predicts_skipSemicolon (a : α) (start : TokenStream) (rest : Prediction) :
    (skipSemicolon a start).Predicts start.advance (.semicolon :: rest) rest := by
  unfold skipSemicolon
  split
  · next h => exact predicts_ok_advance h (by decide) (if_pos h)
  · next h => exact predicts_here (step_semicolon h rest)

theorem Predicts.map {p : Parsed start α} (h : p.Predicts u s s') (f : α → β) :
    (p.map f).Predicts u s s' where
  yields b t hb :=
    let ⟨a, ha, _⟩ := yields_map.mp hb
    h.yields a t ha
  fails e he := by
    refine h.fails e ?_
    unfold firstError? at he ⊢
    rw [recorded_map, outcome_map] at he
    cases houtcome : p.outcome with
    | ok a => rwa [houtcome] at he
    | error e => rwa [houtcome] at he

theorem Predicts.shift {p : Parsed start.advance α} (h : p.Predicts u s s') :
    p.shift.Predicts u s s' :=
  ⟨h.yields, h.fails⟩

section resume

variable {p : Parsed start α}
  {f : Except ParseError α → (t : TokenStream) → t.remaining ≤ start.remaining → Parsed t β}

theorem firstError?_resume_of_yields {a : α} (h : p.Yields a p.stop) :
    (p.resume f).firstError? = (f (.ok a) p.stop p.remaining_le).firstError? := by
  obtain ⟨houtcome, hrecorded, -⟩ := h
  rw [← houtcome]
  simp [firstError?, Parsed.resume, after, hrecorded]

/-- What is found after the first error comes later than it. -/
theorem firstError?_resume_of_firstError? {e : ParseError} (h : p.firstError? = some e)
    (herror : ∀ e t ht, (f (.error e) t ht).firstError? = some e) :
    (p.resume f).firstError? = some e := by
  unfold firstError? at h
  cases hrecorded : p.recorded with
  | cons e' es =>
      rw [hrecorded] at h
      simpa [firstError?, Parsed.resume, after, hrecorded] using h
  | nil =>
      cases houtcome : p.outcome with
      | ok a => simp [hrecorded, houtcome] at h
      | error e' =>
          obtain rfl : e' = e := by simpa [hrecorded, houtcome] using h
          have first := herror e' p.stop p.remaining_le
          rw [← houtcome] at first
          simpa [firstError?, Parsed.resume, after, hrecorded] using first

/-- Going on after a step: if it yields something, what follows is predicted from there; if it fails,
the first error stays what it was. -/
theorem Predicts.resume (h : p.Predicts u s s₁)
    (hok : ∀ a t ht, p.Yields a t → (f (.ok a) t ht).Predicts t.advance s₁ s')
    (herror : ∀ e t ht, (f (.error e) t ht).firstError? = some e) :
    (p.resume f).Predicts u s s' := by
  obtain ⟨a, hyields⟩ | ⟨e, he⟩ := p.yields_or_firstError?
  · have inside := (hok a p.stop p.remaining_le hyields).before (h.yields a p.stop hyields)
    refine ⟨fun b t hb => ?_, fun e he => ?_⟩
    · rw [yields_resume, hyields.1] at hb
      exact inside.yields b t hb.2
    · rw [firstError?_resume_of_yields hyields] at he
      exact inside.fails e he
  · have same := firstError?_resume_of_firstError? he herror
    refine ⟨fun b t hb => absurd hb (not_yields_of_firstError? same), fun e' he' => ?_⟩
    obtain rfl := Option.some.inj (same.symm.trans he')
    exact h.fails e he

end resume

theorem Predicts.andThen {p : Parsed start α}
    {f : α → (t : TokenStream) → t.remaining ≤ start.remaining → Parsed t β}
    (h : p.Predicts u s s₁)
    (hf : ∀ a t ht, p.Yields a t → (f a t ht).Predicts t.advance s₁ s') :
    (p.andThen f).Predicts u s s' :=
  h.resume hf fun _ _ _ => rfl

/-! ### Lists -/

section lists

variable {l : Listing} {n : Nat} {item : (t : TokenStream) → t.remaining < n → Parsed t α}

theorem predicts_moreItems
    (hitem : ∀ t ht rest, (item t ht).Predicts t (l.item ++ rest) rest) (start : TokenStream)
    (h : start.remaining ≤ n) (rest : Prediction) :
    (moreItems l.closing n item start h).Predicts start.advance (.moreItems l :: rest) rest := by
  unfold moreItems
  split
  · next hc =>
    have fewer := start.remaining_advance_advance_lt (by rw [hc]; decide)
    refine Predicts.before (.shift (.shift ?_)) (.one hc (by decide) (if_pos hc))
    refine (hitem _ _ _).andThen fun first t ht _ => ?_
    exact (predicts_moreItems hitem t (by omega) rest).map _
  · next hc =>
    have closes : step (.moreItems l :: rest) start.next =
        step (.token l.closing :: rest) start.next := if_neg hc
    exact ((predicts_expect (by cases l <;> decide) start rest).map _).before (.stay closes)
termination_by start.remaining

theorem predicts_items
    (hitem : ∀ t ht rest, (item t ht).Predicts t (l.item ++ rest) rest) (start : TokenStream)
    (h : start.advance.remaining < n) (rest : Prediction) :
    (items l.closing n item start h).Predicts start.advance (.items l :: rest) rest := by
  unfold items
  split
  · next hc => exact predicts_ok_advance hc (by cases l <;> decide) (if_pos hc)
  · next hc =>
    have first : step (.items l :: rest) start.next =
        step (l.item ++ .moreItems l :: rest) start.next := by
      rw [← startItem_eq_step]
      exact if_neg hc
    refine Predicts.before (.shift ?_) (.stay first)
    refine (hitem _ _ _).andThen fun first t ht _ => ?_
    exact (predicts_moreItems hitem t (by omega) rest).map _

end lists

theorem predicts_bareName (start : TokenStream) (rest : Prediction) :
    (bareName start).Predicts start (.token .name :: rest) rest := by
  unfold bareName
  split
  · next h =>
    exact Predicts.before (predicts_here rfl) (.one h (by decide) (if_pos h))
  · next h => exact predicts_failHere (if_neg h)

theorem predicts_parameters (start : TokenStream) (rest : Prediction) :
    (parameters start).Predicts start.advance (.items .parameters :: rest) rest :=
  predicts_items (l := .parameters) (fun t _ rest => predicts_bareName t rest) start _ rest

end Parsed

/-! ### Expressions and statements -/

open Parsed TokenStream

mutual

/-- An expression is read where an operand is expected, and operators may go on with it. -/
theorem Expr.predicts_parse (p : Precedence) (s : TokenStream) (rest : Prediction) :
    (Expr.parse p s).Predicts s (.operand :: rest) (.operators :: rest) := by
  rw [Expr.parse]
  exact (Expr.predicts_parsePrimary s rest).andThen fun left t ht _ =>
    Expr.predicts_parseOperators p left t rest
termination_by 6 * s.remaining + 2

/-- An expression of the lowest precedence is read up to a token that does not go on with it. -/
theorem Expr.predicts_parse_lowest (s : TokenStream) (rest : Prediction) :
    (Expr.parse .lowest s).Predicts s (.operand :: rest) rest := by
  have h := Expr.predicts_parse .lowest s rest
  refine ⟨fun e t ht => ?_, h.fails⟩
  obtain ⟨-, -, -, hstop⟩ := Expr.isExpr_of_parse ht
  exact (h.yields e t ht).trans (.stay (step_operators (Grammar.not_mem_continuing hstop) rest))
termination_by 6 * s.remaining + 3

theorem Expr.predicts_parsePrimary (s : TokenStream) (rest : Prediction) :
    (Expr.parsePrimary s).Predicts s (.operand :: rest) (.operators :: rest) := by
  rw [Expr.parsePrimary]
  split
  · next heof => exact predicts_failHere (startOperand_of_eof heof rest)
  · next hne =>
    have pos : 0 < s.remaining := remaining_pos hne
    have start {s' : Prediction} (h : startOperand rest s.current = some s') :
        Reaches s (.operand :: rest) s.advance s' := .one rfl hne h
    split
    · next hk => exact (predicts_here rfl).before (start (by rw [startOperand, hk]))
    · next hk =>
      split
      · next hvalue =>
        exact (predicts_here rfl).before (start (by simp [startOperand, hk, hvalue]))
      · next hvalue => exact predicts_failHere (by simp [step, startOperand, hk, hvalue])
    · next hk => exact (predicts_here rfl).before (start (by rw [startOperand, hk]))
    · next hk => exact (predicts_here rfl).before (start (by rw [startOperand, hk]))
    · next hk => exact (predicts_here rfl).before (start (by rw [startOperand, hk]))
    · next hk =>
      exact ((Expr.predicts_parse .unary s.advance rest).map _).shift.before
        (start (by rw [startOperand, hk]))
    · next hk =>
      exact ((Expr.predicts_parse .unary s.advance rest).map _).shift.before
        (start (by rw [startOperand, hk]))
    · next hk =>
      refine Predicts.before (.shift ?_) (start (by rw [startOperand, hk]))
      refine (Expr.predicts_parse_lowest s.advance _).andThen fun inner t ht _ => ?_
      exact (predicts_expect (by decide) t _).map _
    · next hk =>
      refine Predicts.before (.shift ?_) (start (by rw [startOperand, hk]))
      refine (Expr.predicts_parse_lowest s.advance _).andThen fun condition t ht _ => ?_
      refine (Stmt.predicts_parseBraces t _).andThen fun consequence u hu _ => ?_
      split
      · next helse =>
        exact ((Stmt.predicts_parseBraces u.advance _).map _).shift.before
          (.one helse (by decide) (if_pos helse))
      · next helse => exact predicts_here (step_alternative helse _)
    · next hk =>
      refine Predicts.before ?_ (start (by rw [startOperand, hk]))
      refine (predicts_expect (by decide) s _).andThen fun _ t ht _ => ?_
      refine (predicts_parameters t _).andThen fun parameters u hu _ => ?_
      exact (Stmt.predicts_parseBraces u _).map _
    · next hk =>
      refine Predicts.before (.map ?_ _) (start (by rw [startOperand, hk]))
      exact predicts_items (l := .elements) (fun t ht rest => Expr.predicts_parse_lowest t rest) s _ _
    · next hk =>
      refine Predicts.before (.map ?_ _) (start (by rw [startOperand, hk]))
      exact predicts_items (l := .entries) (fun t ht rest => Expr.predicts_parsePair t rest) s _ _
    · have dead : startOperand rest s.current = none := by
        unfold startOperand
        split <;> first | contradiction | rfl
      exact predicts_failHere dead
termination_by 6 * s.remaining + 1
decreasing_by all_goals ((try simp only [remaining_advance] at *); omega)

theorem Expr.predicts_parsePair (s : TokenStream) (rest : Prediction) :
    (Expr.parsePair s).Predicts s (Listing.entries.item ++ rest) rest := by
  rw [Expr.parsePair]
  refine (Expr.predicts_parse_lowest s _).andThen fun key u hu _ => ?_
  refine (predicts_expect (by decide) u _).andThen fun _ v hv hcolon => ?_
  exact ((Expr.predicts_parse_lowest v.advance rest).map _).shift
termination_by 6 * s.remaining + 4
decreasing_by all_goals ((try simp only [remaining_advance] at *); omega)

theorem Expr.predicts_parseOperators (p : Precedence) (left : Expr) (s : TokenStream)
    (rest : Prediction) :
    (Expr.parseOperators p left s).Predicts s.advance (.operators :: rest) (.operators :: rest) := by
  rw [Expr.parseOperators]
  split
  · next hlt =>
    have fewer := s.remaining_advance_advance_lt (Precedence.ne_eof_of_lt hlt)
    split
    · next hk =>
      refine Predicts.before (.shift ?_) (.one hk (by decide) (by rw [step, ← next, hk]))
      refine Predicts.andThen (predicts_items (l := .arguments)
        (fun t ht rest => Expr.predicts_parse_lowest t rest) s.advance _ _) ?_
      exact fun arguments t ht _ => Expr.predicts_parseOperators p _ t rest
    · next hk =>
      refine Predicts.before (.shift (.shift ?_))
        (.one hk (by decide) (by rw [step, ← next, hk]))
      refine (Expr.predicts_parse_lowest s.advance.advance _).andThen fun position t ht _ => ?_
      refine (predicts_expect (by decide) t _).andThen fun _ u hu _ => ?_
      exact Expr.predicts_parseOperators p _ u rest
    · next kind hcall hindex =>
      split
      · next op hop =>
        refine Predicts.before (.shift (.shift ?_))
          (.one rfl (Precedence.ne_eof_of_lt hlt) (step_operators_of_binary hop rest))
        refine (Expr.predicts_parse _ s.advance.advance rest).andThen fun right t ht _ => ?_
        exact Expr.predicts_parseOperators p _ t rest
      · next hop => exact absurd hop (Grammar.ofKind?_ne_none hlt hcall hindex)
  · exact predicts_here rfl
termination_by 6 * s.remaining
decreasing_by all_goals ((try simp only [remaining_advance] at *); omega)

/-- A block is read with its braces. -/
theorem Stmt.predicts_parseBraces (s : TokenStream) (rest : Prediction) :
    (Stmt.parseBraces s).Predicts s.advance (.token .leftBrace :: .block :: rest) rest := by
  rw [Stmt.parseBraces]
  refine (predicts_expect (by decide) s _).andThen fun _ t ht hopen => ?_
  exact (Stmt.predicts_parseBlock t.advance rest).shift
termination_by 6 * s.advance.remaining + 6
decreasing_by all_goals ((try simp only [remaining_advance] at *); omega)

theorem Stmt.predicts_parseBlock (s : TokenStream) (rest : Prediction) :
    (Stmt.parseBlock s).Predicts s (.block :: rest) rest := by
  rw [Stmt.parseBlock]
  split
  · next hk => exact (predicts_here rfl).before (.one hk (by decide) (if_pos hk))
  · next hbrace =>
    split
    · next heof => exact predicts_after_error (by simp [step, heof, startStatement_of_eof]) rfl
    · next hne =>
      have pos : 0 < s.remaining := remaining_pos hne
      have statement : (Stmt.parse s).Predicts s (.block :: rest) (.block :: rest) :=
        Stmt.predicts_parse s (if_neg hbrace)
      refine statement.resume (fun st t ht _ => ?_) fun _ _ _ => rfl
      exact ((Stmt.predicts_parseBlock t.advance rest).map _).shift
termination_by 6 * s.remaining + 5
decreasing_by all_goals ((try simp only [remaining_advance] at *); omega)

/-- A statement is read wherever its first token starts one. -/
theorem Stmt.predicts_parse (s : TokenStream) {s₀ rest : Prediction}
    (h : step s₀ s.current = startStatement rest s.current) :
    (Stmt.parse s).Predicts s s₀ rest := by
  rw [Stmt.parse]
  split
  · next hk =>
    have pos : 0 < s.remaining := remaining_pos (by rw [hk]; decide)
    refine Predicts.before ?_ (.one hk (by decide) (h.trans (by rw [startStatement, hk])))
    refine (predicts_expect (by decide) s _).andThen fun _ t ht hname => ?_
    refine (predicts_expect (by decide) t _).andThen fun _ u hu hassign => ?_
    refine ((Expr.predicts_parse_lowest u.advance _).andThen fun value v hv _ => ?_).shift
    exact predicts_skipSemicolon _ v rest
  · split
    · next hk =>
      have pos : 0 < s.remaining := remaining_pos (by rw [hk]; decide)
      refine Predicts.before (.shift ?_)
        (.one hk (by decide) (h.trans (by rw [startStatement, hk])))
      refine (Expr.predicts_parse_lowest s.advance _).andThen fun value v hv _ => ?_
      exact predicts_skipSemicolon _ v rest
    · next hlet hreturn =>
      have operand : step s₀ s.current = step (.operand :: .semicolon :: rest) s.current :=
        h.trans (startStatement_of_ne hlet hreturn rest)
      refine Predicts.before ?_ (.stay operand)
      refine (Expr.predicts_parse_lowest s _).andThen fun value v hv _ => ?_
      exact predicts_skipSemicolon _ v rest
termination_by 6 * s.remaining + 4
decreasing_by all_goals ((try simp only [remaining_advance] at *); omega)

end

/-! ### Programs -/

/-- The first error of a statement is the first of the program that starts with it. -/
theorem head?_errors_of_firstError? {s : TokenStream} (hne : s.current.kind ≠ .eof) {e : ParseError}
    (h : (Stmt.parse s).firstError? = some e) : (parseProgram s).errors.head? = some e := by
  rw [parseProgram_of_ne_eof hne]
  unfold firstError? at h
  cases hrecorded : (Stmt.parse s).recorded with
  | cons e' es =>
      obtain rfl : e' = e := by simpa [hrecorded] using h
      cases (Stmt.parse s).outcome <;> rfl
  | nil =>
      cases houtcome : (Stmt.parse s).outcome with
      | ok st => simp [hrecorded, houtcome] at h
      | error e' =>
          obtain rfl : e' = e := by simpa [hrecorded, houtcome] using h
          rfl

/-- A program is followed up to its end if there is no error, and up to the first error otherwise. -/
theorem parseProgram_reaches (s : TokenStream) :
    ((parseProgram s).errors = [] →
      ∃ v, Reaches s [.program] v [.program] ∧ v.current.kind = .eof) ∧
    ∀ e, (parseProgram s).errors.head? = some e →
      ∃ v, Reaches s [.program] v [] ∧ v.current.line = e.line := by
  by_cases hk : s.current.kind = .eof
  · rw [parseProgram, dif_pos hk]
    refine ⟨fun _ => ⟨s, .refl, hk⟩, fun e he => ?_⟩
    cases he
  · have statement : (Stmt.parse s).Predicts s [.program] [.program] :=
      Stmt.predicts_parse s (if_neg hk)
    obtain ⟨st, hst⟩ | ⟨e, he⟩ := (Stmt.parse s).yields_or_firstError?
    · have pos := remaining_pos hk
      have hle := (Stmt.parse s).remaining_le
      have reaches := statement.yields st _ hst
      obtain ⟨accepted, rejected⟩ := parseProgram_reaches (Stmt.parse s).stop.advance
      rw [parseProgram_of_ne_eof hk]
      simp only [hst.1, hst.2.1, List.nil_append]
      refine ⟨fun h => ?_, fun e he => ?_⟩
      · obtain ⟨v, hv, heof⟩ := accepted h
        exact ⟨v, reaches.trans hv, heof⟩
      · obtain ⟨v, hv, hline⟩ := rejected e he
        exact ⟨v, reaches.trans hv, hline⟩
    · have first := head?_errors_of_firstError? hk he
      refine ⟨fun h => ?_, fun e' he' => ?_⟩
      · rw [h] at first
        cases first
      · obtain rfl := Option.some.inj (first.symm.trans he')
        exact statement.fails e he
termination_by s.remaining
decreasing_by rw [remaining_advance]; omega

/-! ### Ended lists of tokens -/

/-- The stream of tokens that an end-of-input token comes after, on the line that is their number. -/
def TokenStream.ended (tokens : List Token) : TokenStream :=
  .ofTokens (tokens ++ [Token.atEnd tokens.length])

section ended

variable {tokens : List Token} {s s' : Prediction} {v : TokenStream}

/-- A place that is reached divides the tokens, or is the end. -/
theorem Prediction.Reaches.of_ended (h : Reaches (.ended tokens) s v s') :
    ∃ w s₁, (∀ t ∈ w, t.kind ≠ .eof) ∧ run s w = some s₁ ∧
      step s₁ v.current = step s' v.current ∧
      (tokens = w ∧ v.current = Token.atEnd tokens.length ∨
        ∃ rest, tokens = w ++ v.current :: rest) := by
  obtain ⟨w, s₁, htokens, hw, -, hrun, hstep⟩ := h.exists_run
  refine ⟨w, s₁, hw, hrun, hstep, ?_⟩
  obtain ⟨beyond, hbeyond, hrest⟩ | ⟨rest, hrest, hv⟩ := List.append_eq_append_iff.mp htokens
  · cases beyond with
    | nil => exact .inl ⟨by simpa using hbeyond.symm, current_eq (by simpa using hrest.symm)⟩
    | cons t beyond =>
        -- the end would be among the tokens that were read
        obtain rfl : Token.atEnd tokens.length = t := (List.cons.inj hrest).1
        exact absurd rfl (hw (Token.atEnd tokens.length) (by simp [hbeyond]))
  · cases rest with
    | nil => exact .inl ⟨by simpa using hrest, current_eq hv⟩
    | cons t rest =>
        refine .inr ⟨rest, ?_⟩
        rw [hrest, current_eq hv]

/-- What the parser accepts is what may come where a program is expected. -/
theorem errors_eq_nil_iff_run (h : ∀ t ∈ tokens, t.kind ≠ .eof) :
    (parseProgram (.ended tokens)).errors = [] ↔
      ∃ s, run [.program] tokens = some s ∧ mayEnd s = true := by
  obtain ⟨accepted, rejected⟩ := parseProgram_reaches (.ended tokens)
  constructor
  · intro herrors
    obtain ⟨v, hv, heof⟩ := accepted herrors
    obtain ⟨w, s, hw, hrun, hstep, ⟨rfl, -⟩ | ⟨rest, hrest⟩⟩ := hv.of_ended
    · refine ⟨s, hrun, ?_⟩
      rw [← isSome_step_of_eof (proper_program.of_run hw hrun).ne_eof heof, hstep,
        isSome_step_of_eof proper_program.ne_eof heof]
      rfl
    · exact absurd heof (h _ (by simp [hrest]))
  · rintro ⟨s, hrun, hend⟩
    cases herrors : (parseProgram (.ended tokens)).errors with
    | nil => rfl
    | cons e es =>
        obtain ⟨v, hv, -⟩ := rejected e (by rw [herrors]; rfl)
        obtain ⟨w, s₁, hw, hrun₁, hstep, ⟨rfl, hv⟩ | ⟨rest, hrest⟩⟩ := hv.of_ended
        · obtain rfl := Option.some.inj (hrun.symm.trans hrun₁)
          have ends := isSome_step_of_eof (proper_program.of_run hw hrun).ne_eof
            (t := v.current) (by rw [hv]; rfl)
          rw [hstep, hend] at ends
          cases ends
        · rw [hrest, run_eq_none hrun₁ hstep] at hrun
          cases hrun

end ended

/-- **The first error is at the earliest token that no continuation can mend.**  The tokens are
numbered by their lines.  The ones before the first error can be continued to a program, and if it is
not at the end, the ones up to and including its token cannot. -/
theorem first_error_earliest (tokens : List Token) (hkinds : ∀ t ∈ tokens, t.kind ≠ .eof)
    (hlines : tokens.map Token.line = List.range tokens.length) (e : ParseError)
    (h : (parseProgram (.ended tokens)).errors.head? = some e) :
    e.line ≤ tokens.length ∧
      (∃ more, (∀ t ∈ more, t.kind ≠ .eof) ∧
        (parseProgram (.ended (tokens.take e.line ++ more))).errors = []) ∧
      (e.line < tokens.length → ∀ more, (∀ t ∈ more, t.kind ≠ .eof) →
        (parseProgram (.ended (tokens.take (e.line + 1) ++ more))).errors ≠ []) := by
  obtain ⟨v, hv, hline⟩ := (parseProgram_reaches (.ended tokens)).2 e h
  obtain ⟨w, s, hw, hrun, hstep, place⟩ := hv.of_ended
  have completed : ∃ more, (∀ t ∈ more, t.kind ≠ .eof) ∧
      (parseProgram (.ended (w ++ more))).errors = [] := by
    obtain ⟨more, s', hmore, hrun', hend⟩ := (proper_program.of_run hw hrun).exists_completion
    refine ⟨more, hmore, (errors_eq_nil_iff_run (List.forall_mem_append.mpr ⟨hw, hmore⟩)).mpr ?_⟩
    exact ⟨s', by rw [run_append, hrun]; exact hrun', hend⟩
  obtain ⟨rfl, hcurrent⟩ | ⟨rest, hrest⟩ := place
  · have atEnd : e.line = tokens.length := by rw [← hline, hcurrent]; rfl
    rw [atEnd, List.take_length]
    exact ⟨Nat.le_refl _, completed, fun hlt => absurd hlt (Nat.lt_irrefl _)⟩
  · have position : e.line = w.length := by
      have lookup := congrArg (·[w.length]?) hlines
      simp only [hrest] at lookup
      rw [← hline]
      simpa using lookup
    have upTo : tokens.take (e.line + 1) = w ++ [v.current] := by
      rw [position, hrest, List.take_length_add_append]
      rfl
    refine ⟨by rw [position, hrest]; simp, ?_, fun _ more hmore herrors => ?_⟩
    · rwa [position, hrest, List.take_left]
    · have kinds : ∀ t ∈ tokens.take (e.line + 1) ++ more, t.kind ≠ .eof :=
        List.forall_mem_append.mpr ⟨fun t ht => hkinds t (List.mem_of_mem_take ht), hmore⟩
      obtain ⟨s', hs', -⟩ := (errors_eq_nil_iff_run kinds).mp herrors
      rw [upTo, List.append_assoc, List.singleton_append, run_eq_none hrun hstep] at hs'
      cases hs'

/-- In `fn ( a , ) { b` the closing parenthesis is where the first error is: after the comma only a
name can come. -/
theorem first_error_earliest_trailing_comma :
    let tokens : List Token := [⟨.fnWord, "fn", 0⟩, ⟨.leftParen, "(", 1⟩, ⟨.name, "a", 2⟩,
      ⟨.comma, ",", 3⟩, ⟨.rightParen, ")", 4⟩, ⟨.leftBrace, "\x7b", 5⟩, ⟨.name, "b", 6⟩]
    (parseProgram (.ended tokens)).errors.head? = some ⟨.unexpected .name .rightParen, 4⟩ ∧
      (∃ more, (∀ t ∈ more, t.kind ≠ .eof) ∧
        (parseProgram (.ended (tokens.take 4 ++ more))).errors = []) ∧
      ∀ more, (∀ t ∈ more, t.kind ≠ .eof) →
        (parseProgram (.ended (tokens.take 5 ++ more))).errors ≠ [] := by
  intro tokens
  have first : (parseProgram (.ended tokens)).errors.head? =
      some ⟨.unexpected .name .rightParen, 4⟩ := by decide +kernel
  have main := first_error_earliest tokens (by decide) (by decide) _ first
  exact ⟨first, main.2.1, main.2.2 (by decide)⟩

end Marmoset
