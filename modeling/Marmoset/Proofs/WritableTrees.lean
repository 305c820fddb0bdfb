import Marmoset.Proofs.SourceText

/-! # What is read can be written

Cutting a text into lexemes gives names that are names, numbers made of digits and texts without
quotes (`Token.Spelled`).  The parser builds trees from such tokens alone, so every tree that it gives
can be written.  This holds of what is kept after errors as well, so the judgement `Parsed.Delivers`
says nothing about errors: where a step stops the tokens are still well spelled, and its value, if it
has one, is as it should be (`allWritable_parseProgram`).

Together with the reading of source texts this makes writing and reading inverse to each other. -/

namespace Marmoset

/-! ### Well spelled tokens -/

/-- The literal of the token is one that a token of its kind can have. -/
structure Token.Spelled (t : Token) : Prop where
  name : t.kind = .name → isName t.literal = true
  integer : t.kind = .integer → ∀ c ∈ t.literal.toList, c.isDigit = true
  text : t.kind = .text → t.literal.toList.all isNotQuote = true

/-- The kinds of tokens whose literals are restricted to a form. -/
def TokenKind.restricted : List TokenKind :=
  [.name, .integer, .text]

theorem Token.spelled_of_not_restricted {t : Token} (kind : TokenKind) (hk : t.kind = kind)
    (h : kind ∉ TokenKind.restricted) : t.Spelled := by
  subst hk
  refine ⟨fun hname => ?_, fun hinteger => ?_, fun htext => ?_⟩
  · rw [hname] at h
    exact absurd h (by decide)
  · rw [hinteger] at h
    exact absurd h (by decide)
  · rw [htext] at h
    exact absurd h (by decide)

namespace Lexeme

variable {c : Char} {rest : List Char} (line : Nat)

theorem spelled_word (h : isNameStart c = true) :
    ((run wordKind isNameChar c rest).1.toToken line).Spelled := by
  have notLiteral : wordKind (c :: rest.takeWhile isNameChar) ≠ .integer ∧
      wordKind (c :: rest.takeWhile isNameChar) ≠ .text := by
    unfold wordKind
    split <;> decide
  refine ⟨fun hkind => ?_, fun hkind => absurd hkind notLiteral.1,
    fun hkind => absurd hkind notLiteral.2⟩
  have kind : wordKind (c :: rest.takeWhile isNameChar) = .name := hkind
  refine isName_iff.mpr ⟨c, rest.takeWhile isNameChar, ?_, h, List.all_takeWhile, kind⟩
  show ((run wordKind isNameChar c rest).1.literal).toList = _
  simp [literal, run, kind]

theorem spelled_digits (h : c.isDigit = true) :
    ((run (fun _ => .integer) Char.isDigit c rest).1.toToken line).Spelled := by
  refine ⟨fun hname => ?_, fun _ => ?_, fun htext => ?_⟩
  · cases hname
  · show ∀ x ∈ ((run (fun _ => .integer) Char.isDigit c rest).1.literal).toList, x.isDigit = true
    have digits := List.all_eq_true.mp (List.all_takeWhile (p := Char.isDigit) (l := rest))
    simpa [literal, run, h] using digits
  · cases htext

theorem spelled_quoted : ((quoted rest).1.toToken line).Spelled := by
  unfold quoted
  split
  · exact Token.spelled_of_not_restricted .illegal rfl (by decide)
  · refine ⟨fun hname => ?_, fun hinteger => ?_, fun _ => ?_⟩
    · cases hname
    · cases hinteger
    · simp [toToken, literal]

theorem spelled_symbol : ((symbol c rest).1.toToken line).Spelled := by
  have alone : symbolKind c ∉ TokenKind.restricted := by
    unfold symbolKind
    split <;> decide
  unfold symbol
  split
  · exact Token.spelled_of_not_restricted .equal rfl (by decide)
  · exact Token.spelled_of_not_restricted .notEqual rfl (by decide)
  · exact Token.spelled_of_not_restricted .comment rfl (by decide)
  · exact Token.spelled_of_not_restricted _ rfl alone

theorem spelled_first : ((first c rest).1.toToken line).Spelled := by
  unfold first
  split
  · next h => exact spelled_word line h
  split
  · next h => exact spelled_digits line h
  split
  · exact Token.spelled_of_not_restricted .blank rfl (by decide)
  split
  · exact spelled_quoted line
  · exact spelled_symbol line

end Lexeme

theorem spelled_of_mem_lexemes {text : List Char} {l : Lexeme} (h : l ∈ lexemes text) (line : Nat) :
    (l.toToken line).Spelled := by
  fun_induction lexemes text with
  | case1 => cases h
  | case2 c rest ih =>
      obtain rfl | h := List.mem_cons.mp h
      · exact Lexeme.spelled_first line
      · exact ih h

namespace TokenStream

/-- All tokens are well spelled. -/
def Spelled (s : TokenStream) : Prop :=
  ∀ t ∈ s.tokens, t.Spelled

theorem spelled_ofSource (source : String) : (ofSource source).Spelled := by
  intro t ht
  obtain ⟨l, hl, line, rfl⟩ := exists_lexeme_of_mem_tokensFrom ht
  exact spelled_of_mem_lexemes hl line

theorem Spelled.advance {s : TokenStream} (h : s.Spelled) : s.advance.Spelled :=
  fun t ht => h t (List.mem_of_mem_tail ht)

theorem Spelled.current {s : TokenStream} (h : s.Spelled) : s.current.Spelled := by
  cases hs : s.tokens with
  | nil =>
      rw [show s.current = Token.atEnd s.endLine by simp [TokenStream.current, hs]]
      exact Token.spelled_of_not_restricted .eof rfl (by decide)
  | cons t ts =>
      rw [current_eq hs]
      exact h t (by simp [hs])

end TokenStream

/-! ### Steps of the parser -/

namespace Parsed

variable {α β : Type} {start : TokenStream} {Ok : α → TokenStream → Prop}
  {Ok' : β → TokenStream → Prop}

/-- The tokens where the step stops are well spelled, and its value, if it has one, is as stated. -/
structure Delivers (p : Parsed start α) (Ok : α → TokenStream → Prop) : Prop where
  stop : p.stop.Spelled
  value : ∀ a, p.outcome = .ok a → Ok a p.stop

theorem delivers_ok {a : α} {t : TokenStream} {h : t.remaining ≤ start.remaining} (ht : t.Spelled)
    (ha : Ok a t) : (ok a t h : Parsed start α).Delivers Ok where
  stop := ht
  value b hb := by
    cases hb
    exact ha

theorem delivers_here {a : α} (hs : start.Spelled) (ha : Ok a start) :
    (here a : Parsed start α).Delivers Ok :=
  delivers_ok hs ha

theorem delivers_fail {e : ParseError} {t : TokenStream} {h : t.remaining ≤ start.remaining}
    (ht : t.Spelled) : (fail e t h : Parsed start α).Delivers Ok :=
  ⟨ht, nofun⟩

theorem delivers_failHere {cause : ParseError.Cause} (hs : start.Spelled) :
    (failHere cause : Parsed start α).Delivers Ok :=
  delivers_fail hs

theorem delivers_expect {kind : TokenKind} (hs : start.Spelled) :
    (expect kind start).Delivers fun _ t => t.current.kind = kind := by
  unfold expect
  split
  · next h => exact delivers_ok hs.advance h
  · exact delivers_fail hs

theorem delivers_skipSemicolon {a : α} (hs : start.Spelled) (ha : ∀ t, Ok a t) :
    (skipSemicolon a start).Delivers Ok := by
  unfold skipSemicolon
  split
  · exact delivers_ok hs.advance (ha _)
  · exact delivers_here hs (ha _)

theorem Delivers.shift {p : Parsed start.advance α} (h : p.Delivers Ok) : p.shift.Delivers Ok :=
  ⟨h.stop, h.value⟩

theorem Delivers.after {p : Parsed start α} (h : p.Delivers Ok) (errors : List ParseError) :
    (p.after errors).Delivers Ok :=
  ⟨h.stop, h.value⟩

theorem Delivers.map {p : Parsed start α} (h : p.Delivers Ok) {f : α → β}
    (hf : ∀ a t, Ok a t → Ok' (f a) t) : (p.map f).Delivers Ok' where
  stop := h.stop
  value b hb := by
    rw [outcome_map] at hb
    cases houtcome : p.outcome with
    | error e =>
        rw [houtcome] at hb
        cases hb
    | ok a =>
        rw [houtcome] at hb
        cases hb
        exact hf a _ (h.value a houtcome)

/-- Going on after a step, whether it has a value or not. -/
theorem Delivers.resume {p : Parsed start α}
    {f : Except ParseError α → (t : TokenStream) → t.remaining ≤ start.remaining → Parsed t β}
    (h : p.Delivers Ok)
    (hok : ∀ a t ht, t.Spelled → Ok a t → (f (.ok a) t ht).Delivers Ok')
    (herror : ∀ e t ht, t.Spelled → (f (.error e) t ht).Delivers Ok') :
    (p.resume f).Delivers Ok' := by
  have inside : (f p.outcome p.stop p.remaining_le).Delivers Ok' := by
    cases houtcome : p.outcome with
    | ok a => exact hok a _ _ h.stop (h.value a houtcome)
    | error e => exact herror e _ _ h.stop
  exact ⟨inside.stop, inside.value⟩

theorem Delivers.andThen {p : Parsed start α}
    {f : α → (t : TokenStream) → t.remaining ≤ start.remaining → Parsed t β}
    (h : p.Delivers Ok) (hf : ∀ a t ht, t.Spelled → Ok a t → (f a t ht).Delivers Ok') :
    (p.andThen f).Delivers Ok' :=
  h.resume hf fun _ _ _ ht => delivers_fail ht

/-! ### Lists -/

section lists

variable {closing : TokenKind} {n : Nat} {item : (t : TokenStream) → t.remaining < n → Parsed t α}
  {Good : α → Prop}

theorem delivers_moreItems
    (hitem : ∀ t ht, t.Spelled → (item t ht).Delivers fun a _ => Good a) {start : TokenStream}
    {h : start.remaining ≤ n} (hs : start.Spelled) :
    (moreItems closing n item start h).Delivers fun as _ => ∀ a ∈ as, Good a := by
  unfold moreItems
  split
  · next hc =>
    have fewer := start.remaining_advance_advance_lt (by rw [hc]; decide)
    refine ((hitem _ _ hs.advance.advance).andThen fun first t ht hspelled hfirst => ?_).shift.shift
    exact (delivers_moreItems hitem hspelled).map fun as _ has =>
      List.forall_mem_cons.mpr ⟨hfirst, has⟩
  · exact (delivers_expect hs).map fun _ _ _ => List.forall_mem_nil _
termination_by start.remaining

theorem delivers_items
    (hitem : ∀ t ht, t.Spelled → (item t ht).Delivers fun a _ => Good a) {start : TokenStream}
    {h : start.advance.remaining < n} (hs : start.Spelled) :
    (items closing n item start h).Delivers fun as _ => ∀ a ∈ as, Good a := by
  unfold items
  split
  · exact delivers_ok hs.advance (List.forall_mem_nil _)
  · refine ((hitem _ _ hs.advance).andThen fun first t ht hspelled hfirst => ?_).shift
    exact (delivers_moreItems hitem hspelled).map fun as _ has =>
      List.forall_mem_cons.mpr ⟨hfirst, has⟩

end lists

theorem delivers_bareName (hs : start.Spelled) :
    (bareName start).Delivers fun name _ => isName name = true := by
  unfold bareName
  split
  · next h => exact delivers_here hs (hs.current.name h)
  · exact delivers_failHere hs

theorem delivers_parameters (hs : start.Spelled) :
    (parameters start).Delivers fun names _ => ∀ name ∈ names, isName name = true :=
  delivers_items (fun _ _ ht => delivers_bareName ht) hs

end Parsed

/-! ### Expressions and statements -/

theorem Expr.allWritable_of_forall {es : List Expr} (h : ∀ e ∈ es, e.isWritable = true) :
    Expr.allWritable es = true := by
  induction es with
  | nil => rfl
  | cons e es ih =>
      obtain ⟨he, hes⟩ := List.forall_mem_cons.mp h
      simp [Expr.allWritable, he, ih hes]

theorem Expr.pairsWritable_of_forall {pairs : List (Expr × Expr)}
    (h : ∀ pair ∈ pairs, pair.1.isWritable = true ∧ pair.2.isWritable = true) :
    Expr.pairsWritable pairs = true := by
  induction pairs with
  | nil => rfl
  | cons pair pairs ih =>
      obtain ⟨⟨hkey, hvalue⟩, hpairs⟩ := List.forall_mem_cons.mp h
      simp [Expr.pairsWritable, hkey, hvalue, ih hpairs]

open Parsed TokenStream

mutual

theorem Expr.delivers_parse (p : Precedence) {s : TokenStream} (hs : s.Spelled) :
    (Expr.parse p s).Delivers fun e _ => e.isWritable = true := by
  rw [Expr.parse]
  exact (Expr.delivers_parsePrimary hs).andThen fun left t ht hspelled hleft =>
    Expr.delivers_parseOperators p hleft hspelled
termination_by 5 * s.remaining + 2

theorem Expr.delivers_parsePrimary {s : TokenStream} (hs : s.Spelled) :
    (Expr.parsePrimary s).Delivers fun e _ => e.isWritable = true := by
  rw [Expr.parsePrimary]
  split
  · exact delivers_failHere hs
  · next hne =>
    have pos : 0 < s.remaining := remaining_pos hne
    split
    · next hk => exact delivers_here hs (hs.current.name hk)
    · next hk =>
      split
      · next value hvalue =>
        have nonneg := Integer.nonneg_of_ofText? (hs.current.integer hk) hvalue
        exact delivers_here hs (decide_eq_true nonneg)
      · exact delivers_failHere hs
    · next hk => exact delivers_here hs (hs.current.text hk)
    · exact delivers_here hs rfl
    · exact delivers_here hs rfl
    · exact ((Expr.delivers_parse .unary hs.advance).map fun _ _ h => h).shift
    · exact ((Expr.delivers_parse .unary hs.advance).map fun _ _ h => h).shift
    · refine ((Expr.delivers_parse .lowest hs.advance).andThen fun inner t ht hspelled h => ?_).shift
      exact (delivers_expect hspelled).map fun _ _ _ => h
    · refine ((Expr.delivers_parse .lowest hs.advance).andThen
        fun condition t ht hspelled hc => ?_).shift
      refine (Stmt.delivers_parseBraces hspelled).andThen fun consequence u hu hspelled' hbody => ?_
      split
      · refine ((Stmt.delivers_parseBraces hspelled'.advance).map fun alternative _ h => ?_).shift
        simp [Expr.isWritable, hc, hbody, h]
      · exact delivers_here hspelled' (by simp [Expr.isWritable, hc, hbody])
    · refine (delivers_expect hs).andThen fun _ t ht hspelled _ => ?_
      refine (delivers_parameters hspelled).andThen fun parameters u hu hspelled' hnames => ?_
      refine (Stmt.delivers_parseBraces hspelled').map fun body _ hbody => ?_
      rw [Expr.isWritable, List.all_eq_true.mpr hnames, hbody]
      rfl
    · exact (delivers_items (fun t ht hspelled => Expr.delivers_parse .lowest hspelled) hs).map
        fun _ _ h => Expr.allWritable_of_forall h
    · exact (delivers_items (fun t ht hspelled => Expr.delivers_parsePair hspelled) hs).map
        fun _ _ h => Expr.pairsWritable_of_forall h
    · exact delivers_failHere hs
termination_by 5 * s.remaining + 1
decreasing_by all_goals ((try simp only [remaining_advance] at *); omega)

theorem Expr.delivers_parsePair {s : TokenStream} (hs : s.Spelled) :
    (Expr.parsePair s).Delivers fun pair _ =>
      pair.1.isWritable = true ∧ pair.2.isWritable = true := by
  rw [Expr.parsePair]
  refine (Expr.delivers_parse .lowest hs).andThen fun key u hu hspelled hkey => ?_
  refine (delivers_expect hspelled).andThen fun _ v hv hspelled' _ => ?_
  exact ((Expr.delivers_parse .lowest hspelled'.advance).map fun _ _ hvalue => ⟨hkey, hvalue⟩).shift
termination_by 5 * s.remaining + 3
decreasing_by all_goals ((try simp only [remaining_advance] at *); omega)

theorem Expr.delivers_parseOperators (p : Precedence) {left : Expr} (hleft : left.isWritable = true)
    {s : TokenStream} (hs : s.Spelled) :
    (Expr.parseOperators p left s).Delivers fun e _ => e.isWritable = true := by
  rw [Expr.parseOperators]
  split
  · next hlt =>
    have fewer := s.remaining_advance_advance_lt (Precedence.ne_eof_of_lt hlt)
    split
    · refine ((delivers_items (fun t ht hspelled => Expr.delivers_parse .lowest hspelled)
        hs.advance).andThen fun arguments t ht hspelled harguments => ?_).shift
      refine Expr.delivers_parseOperators p ?_ hspelled
      simp [Expr.isWritable, hleft, Expr.allWritable_of_forall harguments]
    · refine ((Expr.delivers_parse .lowest hs.advance.advance).andThen
        fun position t ht hspelled hposition => ?_).shift.shift
      refine (delivers_expect hspelled).andThen fun _ u hu hspelled' _ => ?_
      refine Expr.delivers_parseOperators p ?_ hspelled'
      simp [Expr.isWritable, hleft, hposition]
    · split
      · refine ((Expr.delivers_parse _ hs.advance.advance).andThen
          fun right t ht hspelled hright => ?_).shift.shift
        refine Expr.delivers_parseOperators p ?_ hspelled
        simp [Expr.isWritable, hleft, hright]
      · exact delivers_here hs hleft
  · exact delivers_here hs hleft
termination_by 5 * s.remaining
decreasing_by all_goals ((try simp only [remaining_advance] at *); omega)

theorem Stmt.delivers_parseBraces {s : TokenStream} (hs : s.Spelled) :
    (Stmt.parseBraces s).Delivers fun body _ => Stmt.allWritable body = true := by
  rw [Stmt.parseBraces]
  refine (delivers_expect hs).andThen fun _ t ht hspelled hopen => ?_
  exact (Stmt.delivers_parseBlock hspelled.advance).shift
termination_by 5 * s.advance.remaining + 5
decreasing_by all_goals ((try simp only [remaining_advance] at *); omega)

theorem Stmt.delivers_parseBlock {s : TokenStream} (hs : s.Spelled) :
    (Stmt.parseBlock s).Delivers fun body _ => Stmt.allWritable body = true := by
  rw [Stmt.parseBlock]
  split
  · exact delivers_here hs rfl
  split
  · refine Delivers.after ?_ _
    exact delivers_here hs rfl
  · next hne =>
    have pos : 0 < s.remaining := remaining_pos hne
    refine (Stmt.delivers_parse hs).resume ?_ ?_
    · intro st t ht hspelled hst
      refine ((Stmt.delivers_parseBlock hspelled.advance).map fun body _ hbody => ?_).shift
      simp [Stmt.allWritable, hst, hbody]
    · -- a statement that cannot be read is dropped, and the block goes on
      intro e t ht hspelled
      refine Delivers.after ?_ _
      split
      · exact delivers_here hspelled rfl
      · exact (Stmt.delivers_parseBlock hspelled.advance).shift
termination_by 5 * s.remaining + 4
decreasing_by all_goals ((try simp only [remaining_advance] at *); omega)

theorem Stmt.delivers_parse {s : TokenStream} (hs : s.Spelled) :
    (Stmt.parse s).Delivers fun st _ => st.isWritable = true := by
  rw [Stmt.parse]
  split
  · next hk =>
    have pos : 0 < s.remaining := remaining_pos (by rw [hk]; decide)
    refine (delivers_expect hs).andThen fun _ t ht hspelled hname => ?_
    refine (delivers_expect hspelled).andThen fun _ u hu hspelled' _ => ?_
    refine ((Expr.delivers_parse .lowest hspelled'.advance).andThen
      fun value v hv hspelled'' hvalue => ?_).shift
    refine delivers_skipSemicolon hspelled'' fun _ => ?_
    simp [Stmt.isWritable, hspelled.current.name hname, hvalue]
  · split
    · next hk =>
      have pos : 0 < s.remaining := remaining_pos (by rw [hk]; decide)
      refine ((Expr.delivers_parse .lowest hs.advance).andThen
        fun value v hv hspelled hvalue => ?_).shift
      exact delivers_skipSemicolon hspelled fun _ => hvalue
    · refine (Expr.delivers_parse .lowest hs).andThen fun value v hv hspelled hvalue => ?_
      exact delivers_skipSemicolon hspelled fun _ => hvalue
termination_by 5 * s.remaining + 3
decreasing_by all_goals ((try simp only [remaining_advance] at *); omega)

end

/-! ### Programs -/

/-- What is read from well spelled tokens can be written, errors or not. -/
theorem allWritable_parseProgram {s : TokenStream} (hs : s.Spelled) :
    Stmt.allWritable (parseProgram s).program = true := by
  by_cases hk : s.current.kind = .eof
  · rw [parseProgram, dif_pos hk]
    rfl
  · have pos := remaining_pos hk
    have hle := (Stmt.parse s).remaining_le
    have statement := Stmt.delivers_parse hs
    have rest := allWritable_parseProgram statement.stop.advance
    rw [parseProgram_of_ne_eof hk]
    cases houtcome : (Stmt.parse s).outcome with
    | ok st => simp [Stmt.allWritable, statement.value st houtcome, rest]
    | error e => exact rest
termination_by s.remaining
decreasing_by rw [remaining_advance]; omega

/-- **Writing and reading are inverse to each other.**  A program is read back from its source text,
without an error, if and only if it can be written, and whatever is read from a text can be written,
also if there were errors. -/
theorem parseSource_sourceText_iff :
    (∀ program : Program,
      parseSource (sourceText program) = ⟨program, []⟩ ↔ Stmt.allWritable program = true) ∧
    ∀ source : String, Stmt.allWritable (parseSource source).program = true := by
  have readable (source : String) : Stmt.allWritable (parseSource source).program = true :=
    allWritable_parseProgram (spelled_ofSource source)
  refine ⟨fun program => ⟨fun h => ?_, parseSource_sourceText⟩, readable⟩
  have again := readable (sourceText program)
  rwa [h] at again

/-- The parentheses in `- ( a + b ) * ( c - ( d - 1 ) ) ; ( ! f ) ( "x y" ) [ 0 ] ;` are all that the
grouping needs. -/
theorem parseSource_sourceText_iff_grouping :
    let difference : Expr := .binary .sub (.name "c") (.binary .sub (.name "d") (.integer 1))
    let program : Program :=
      [.expr (.binary .mul (.unary .negate (.binary .add (.name "a") (.name "b"))) difference),
        .expr (.index (.call (.unary .not (.name "f")) [.text "x y"]) (.integer 0))]
    let source := "- ( a + b ) * ( c - ( d - 1 ) ) ; ( ! f ) ( \"x y\" ) [ 0 ] ;"
    Stmt.allWritable program = true ∧ sourceText program = source ∧
      parseSource source = ⟨program, []⟩ := by
  intro difference program source
  have writable : Stmt.allWritable program = true := by decide +kernel
  have written : sourceText program = source := by decide +kernel
  exact ⟨writable, written, written ▸ (parseSource_sourceText_iff.1 program).mpr writable⟩

end Marmoset
