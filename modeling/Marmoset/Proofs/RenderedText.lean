import Marmoset.Proofs.JoinedText
import Marmoset.Proofs.SourceText

/-! # The rendered text read back

`Expr.render` puts parentheses around every operator and every index, and leaves out the quotes of
texts, the braces of blocks and the semicolons after expressions.  A tree that has no place for
these (`Expr.isOperatorTree`) is made of names, integers that are not negative and booleans under
operators, calls, indices, arrays and hashes.  Its text is a program again: it is read back as the
tree, without an error.  The same goes for `let` and `return` statements of such expressions in a
row (`Stmt.isSimple`), which end with a semicolon.

Both follow from what is said of each expression: before anything that does not go on with a word or
a number, its text is cut into tokens that form the expression at the level of calls
(`Expr.forms_render`), so that it can be called, indexed or be an operand as it stands. -/

namespace Marmoset

open Grammar

/-! ### Operator trees -/

mutual

/-- The tree is made of names, integers that are not negative, booleans, operators, calls, indices,
arrays and hashes. -/
def Expr.isOperatorTree : Expr → Bool
  | .name word => isName word
  | .integer value => decide (0 ≤ value.toInt)
  | .boolean _ => true
  | .unary _ operand => operand.isOperatorTree
  | .binary _ left right => left.isOperatorTree && right.isOperatorTree
  | .call callee arguments => callee.isOperatorTree && Expr.allOperatorTrees arguments
  | .array elements => Expr.allOperatorTrees elements
  | .index collection position => collection.isOperatorTree && position.isOperatorTree
  | .hash pairs => Expr.pairsOperatorTrees pairs
  | .text _ | .cond _ _ _ | .function _ _ => false

def Expr.allOperatorTrees : List Expr → Bool
  | [] => true
  | e :: es => e.isOperatorTree && Expr.allOperatorTrees es

def Expr.pairsOperatorTrees : List (Expr × Expr) → Bool
  | [] => true
  | (key, value) :: pairs =>
    key.isOperatorTree && value.isOperatorTree && Expr.pairsOperatorTrees pairs

end

/-- A `let` or `return` statement of an operator tree. -/
def Stmt.isSimple : Stmt → Bool
  | .bind name value => isName name && value.isOperatorTree
  | .return value => value.isOperatorTree
  | .expr _ | .block _ => false

/-! ### Single tokens -/

variable {rest : List Char}

/-- A name is one token. -/
theorem forms_name {name : String} (h : isName name = true) (hrest : Ends rest) :
    Forms name.toList rest fun ts => ∃ t, ts = [t] ∧ t.kind = .name ∧ t.literal = name := by
  obtain ⟨c, cs, text, hc, hcs, hkind⟩ := isName_iff.mp h
  rw [text]
  refine .of_first (l := ⟨.name, c :: cs⟩) ?_ rfl fun line => ⟨_, rfl, rfl, ?_⟩
  · rw [Lexeme.first, if_pos hc, Lexeme.run_append_of_ends (List.all_eq_true.mp hcs) hrest, hkind]
  · show String.ofList (c :: cs) = name
    rw [← text, String.ofList_toList]

/-- A keyword or a symbol before a space is one token. -/
theorem forms_spaced (kind : TokenKind) (h : kind.spelling ≠ []) (rest : List Char) :
    Forms kind.spelling (' ' :: rest) fun ts => ∃ t, ts = [t] ∧ t.kind = kind := by
  have noSpace : kind.isSpace = false := by
    revert h
    cases kind <;> decide
  obtain ⟨c, cs, text, cut⟩ := Lexeme.apart_ofKind h (' ' :: rest) (by rintro x ⟨⟩; rfl)
  have spelled : kind.spelling = c :: cs := text
  rw [spelled]
  exact .of_first cut noSpace fun line => ⟨_, rfl, rfl⟩

/-- A keyword or a symbol between two spaces is one token. -/
theorem forms_amid (kind : TokenKind) (h : kind.spelling ≠ []) (rest : List Char) :
    Forms ([' '] ++ (kind.spelling ++ [' '])) rest fun ts => ∃ t, ts = [t] ∧ t.kind = kind := by
  have before := (forms_spaced kind h rest).append (forms_space rest)
  refine ((forms_space _).append before).mono ?_
  rintro _ ⟨_, _, rfl, rfl, _, _, rfl, ⟨t, rfl, ht⟩, rfl⟩
  exact ⟨t, rfl, ht⟩

theorem BinaryOp.toList_symbol (op : BinaryOp) : op.symbol.toList = op.kind.spelling := by
  cases op <;> rfl

theorem UnaryOp.toList_symbol (op : UnaryOp) : op.symbol.toList = op.kind.spelling := by
  cases op <;> rfl

/-- A text that is cut into the tokens of an expression does not start with an equals sign. -/
theorem Forms.head_ne_equals {l : Level} {e : Expr} {cs : List Char}
    (h : Forms cs rest (IsExpr l · e)) : ∀ c ∈ (cs ++ rest).head?, c ≠ '=' := by
  rintro c hc rfl
  obtain ⟨ts, line', cut, phrase⟩ := h 1
  obtain ⟨t, us, rfl, starts⟩ := phrase.head
  obtain ⟨more, text⟩ : ∃ more, cs ++ rest = '=' :: more := List.head?_eq_some_iff.mp hc
  have first : (Lexeme.first '=' more).1.kind = .assign ∨
      (Lexeme.first '=' more).1.kind = .equal := by
    show (Lexeme.symbol '=' more).1.kind = .assign ∨ (Lexeme.symbol '=' more).1.kind = .equal
    unfold Lexeme.symbol
    split
    · exact .inr rfl
    · next same => exact absurd same (by decide)
    · next same => exact absurd same (by decide)
    · exact .inl rfl
  have noSpace : (Lexeme.first '=' more).1.kind.isSpace = false := by
    obtain kind | kind := first <;> rw [kind] <;> rfl
  rw [text, lexemes, tokensFrom_of_not_isSpace noSpace, List.cons_append] at cut
  have same : t.kind = (Lexeme.first '=' more).1.kind := by rw [← (List.cons.inj cut).1]; rfl
  rw [same] at starts
  obtain kind | kind := first <;> rw [kind] at starts <;> exact absurd starts (by decide)

/-- A unary operator is one token before anything but an equals sign. -/
theorem forms_unary (op : UnaryOp) (h : ∀ c ∈ rest.head?, c ≠ '=') :
    Forms op.kind.spelling rest fun ts => ∃ t, ts = [t] ∧ t.kind = op.kind := by
  cases op with
  | negate => exact forms_separator .minus (by decide) rest
  | not =>
    refine .of_first (l := ⟨.bang, ['!']⟩) ?_ rfl fun line => ⟨_, rfl, rfl⟩
    cases rest with
    | nil => rfl
    | cons c cs =>
      have ne : c ≠ '=' := h c rfl
      show Lexeme.symbol '!' (c :: cs) = _
      unfold Lexeme.symbol
      split
      · next same _ => exact absurd same (by decide)
      · next same => exact absurd (List.cons.inj same).1 ne
      · next same _ => exact absurd same (by decide)
      · rfl

/-! ### Expressions -/

theorem Expr.texts_eq_map (es : List Expr) : Expr.texts es = es.map Expr.render := by
  induction es with
  | nil => rfl
  | cons e es ih => rw [Expr.texts, ih, List.map_cons]

theorem Expr.pairTexts_eq_map (pairs : List (Expr × Expr)) :
    Expr.pairTexts pairs = pairs.map fun pair => pair.1.render ++ ":" ++ pair.2.render := by
  induction pairs with
  | nil => rfl
  | cons pair pairs ih => rw [Expr.pairTexts, ih, List.map_cons]

/-- A text that forms an expression of any level in parentheses. -/
theorem forms_group {l : Level} {e : Expr} {cs : List Char}
    (h : Forms cs (')' :: rest) (IsExpr l · e)) :
    Forms (['('] ++ (cs ++ [')'])) rest (IsExpr .call · e) := by
  refine (forms_between .leftParen .rightParen (by decide) (by decide) h).mono ?_
  rintro _ ⟨t, us, t', rfl, ht, ht', hus⟩
  have inner : IsExpr .equality us e := hus.loosen (Level.rank_equality_le l)
  exact (IsExpr.group ht inner ht').loosen (by decide)

theorem forms_pair {pair : Expr × Expr}
    (hkey : ∀ rest, Ends rest → Forms pair.1.render.toList rest (IsExpr .call · pair.1))
    (hvalue : ∀ rest, Ends rest → Forms pair.2.render.toList rest (IsExpr .call · pair.2))
    (hrest : Ends rest) :
    Forms (pair.1.render ++ ":" ++ pair.2.render).toList rest (IsPair · pair) := by
  have text : (pair.1.render ++ ":" ++ pair.2.render).toList =
      pair.1.render.toList ++ ([':'] ++ pair.2.render.toList) := by simp
  rw [text]
  have value := (forms_separator .colon (by decide) _).append (hvalue rest hrest)
  refine ((hkey _ (ends_cons (by decide) _)).append value).mono ?_
  rintro _ ⟨us, _, rfl, hus, _, vs, rfl, ⟨t, rfl, ht⟩, hvs⟩
  exact .pair (hus.loosen (by decide)) ht (hvs.loosen (by decide))

mutual

/-- The text of an operator tree is cut into tokens that form the tree. -/
theorem Expr.forms_render (e : Expr) (h : e.isOperatorTree = true) (rest : List Char)
    (hrest : Ends rest) : Forms e.render.toList rest (IsExpr .call · e) := by
  match e with
  | .name word =>
    refine (forms_name h hrest).mono ?_
    rintro _ ⟨t, rfl, ht, rfl⟩
    exact (IsExpr.literal (.name ht)).loosen (by decide)
  | .integer value =>
    have nonneg : 0 ≤ value.toInt := of_decide_eq_true h
    rw [Expr.render, Integer.text_of_nonneg nonneg]
    refine (forms_number _ hrest).mono ?_
    rintro _ ⟨t, rfl, ht, literal⟩
    have read : Integer.ofText? t.literal = some value := by
      rw [literal, ← Integer.text_of_nonneg nonneg, String.ofList_toList,
        Integer.ofText?_text nonneg]
    exact (IsExpr.literal (.integer ht read)).loosen (by decide)
  | .boolean true =>
    refine (forms_word .trueWord (by decide) (by decide) rfl rfl hrest).mono ?_
    rintro _ ⟨t, rfl, ht⟩
    exact (IsExpr.literal (.isTrue ht)).loosen (by decide)
  | .boolean false =>
    refine (forms_word .falseWord (by decide) (by decide) rfl rfl hrest).mono ?_
    rintro _ ⟨t, rfl, ht⟩
    exact (IsExpr.literal (.isFalse ht)).loosen (by decide)
  | .unary op operand =>
    have text : (Expr.unary op operand).render.toList =
        ['('] ++ ((op.kind.spelling ++ operand.render.toList) ++ [')']) := by
      simp [Expr.render, op.toList_symbol]
    have operand' := Expr.forms_render operand h (')' :: rest) (ends_cons (by decide) rest)
    have symbol := (forms_unary op operand'.head_ne_equals).append operand'
    rw [text]
    refine forms_group (symbol.mono (Q := (IsExpr .unary · (.unary op operand))) ?_)
    rintro _ ⟨_, us, rfl, ⟨t, rfl, ht⟩, hus⟩
    exact .unary (ht ▸ op.isUnaryOp) (hus.loosen (by decide))
  | .binary op left right =>
    simp only [Expr.isOperatorTree, Bool.and_eq_true] at h
    have text : (Expr.binary op left right).render.toList =
        ['('] ++ ((left.render.toList ++ (([' '] ++ (op.kind.spelling ++ [' '])) ++
          right.render.toList)) ++ [')']) := by
      simp [Expr.render, op.toList_symbol]
    have right' := Expr.forms_render right h.2 (')' :: rest) (ends_cons (by decide) rest)
    have symbol := (forms_amid op.kind (by cases op <;> decide) _).append right'
    have left' := (Expr.forms_render left h.1 _ (ends_cons (c := ' ') (by decide) _)).append symbol
    rw [text]
    refine forms_group (left'.mono (Q := (IsExpr op.level · (.binary op left right))) ?_)
    rintro _ ⟨us, _, rfl, hus, _, vs, rfl, ⟨t, rfl, ht⟩, hvs⟩
    exact .binary (ht ▸ op.isBinaryOp) (hus.loosen (by cases op <;> decide))
      (hvs.loosen (by cases op <;> decide))
  | .call callee arguments =>
    simp only [Expr.isOperatorTree, Bool.and_eq_true] at h
    have text : (Expr.call callee arguments).render.toList =
        callee.render.toList ++
          (['('] ++ ((commaJoin (arguments.map Expr.render)).toList ++ [')'])) := by
      simp [Expr.render, Expr.texts_eq_map]
    have inner := forms_listed (Expr.forms_renderAll arguments h.2)
      (ends_cons (c := ')') (by decide) rest)
    have listed := forms_between .leftParen .rightParen (by decide) (by decide) inner
    rw [text]
    refine ((Expr.forms_render callee h.1 _ (ends_cons (by decide) _)).append listed).mono ?_
    rintro _ ⟨us, _, rfl, hus, t, vs, t', rfl, ht, ht', hvs⟩
    exact .call hus ht hvs ht'
  | .array elements =>
    have text : (Expr.array elements).render.toList =
        ['['] ++ ((commaJoin (elements.map Expr.render)).toList ++ [']']) := by
      simp [Expr.render, Expr.texts_eq_map]
    have inner := forms_listed (Expr.forms_renderAll elements h)
      (ends_cons (c := ']') (by decide) rest)
    rw [text]
    refine (forms_between .leftBracket .rightBracket (by decide) (by decide) inner).mono ?_
    rintro _ ⟨t, us, t', rfl, ht, ht', hus⟩
    exact (IsExpr.array ht hus ht').loosen (by decide)
  | .index collection position =>
    simp only [Expr.isOperatorTree, Bool.and_eq_true] at h
    have text : (Expr.index collection position).render.toList =
        ['('] ++ ((collection.render.toList ++ (['['] ++ (position.render.toList ++ [']']))) ++
          [')']) := by
      simp [Expr.render]
    have inner := Expr.forms_render position h.2 (']' :: ')' :: rest) (ends_cons (by decide) _)
    have place := forms_between .leftBracket .rightBracket (by decide) (by decide) inner
    have whole := (Expr.forms_render collection h.1 _ (ends_cons (by decide) _)).append place
    rw [text]
    refine forms_group (whole.mono (Q := (IsExpr .call · (.index collection position))) ?_)
    rintro _ ⟨us, _, rfl, hus, t, vs, t', rfl, ht, ht', hvs⟩
    exact .index hus ht (hvs.loosen (by decide)) ht'
  | .hash pairs =>
    have text : (Expr.hash pairs).render.toList =
        ['{'] ++ ((commaJoin (pairs.map fun pair =>
          pair.1.render ++ ":" ++ pair.2.render)).toList ++ ['}']) := by
      simp [Expr.render, Expr.pairTexts_eq_map]
    have inner := forms_listed (Expr.forms_renderPairs pairs h)
      (ends_cons (c := '}') (by decide) rest)
    rw [text]
    refine (forms_between .leftBrace .rightBrace (by decide) (by decide) inner).mono ?_
    rintro _ ⟨t, us, t', rfl, ht, ht', hus⟩
    exact (IsExpr.hash ht hus ht').loosen (by decide)

theorem Expr.forms_renderAll (es : List Expr) (h : Expr.allOperatorTrees es = true) :
    ∀ e ∈ es, ∀ rest, Ends rest → Forms e.render.toList rest (IsExpr .equality · e) := by
  match es with
  | [] => nofun
  | e :: es =>
    simp only [Expr.allOperatorTrees, Bool.and_eq_true] at h
    refine List.forall_mem_cons.mpr ⟨fun rest hrest => ?_, Expr.forms_renderAll es h.2⟩
    exact (Expr.forms_render e h.1 rest hrest).mono fun ts hts => hts.loosen (by decide)

theorem Expr.forms_renderPairs (pairs : List (Expr × Expr))
    (h : Expr.pairsOperatorTrees pairs = true) :
    ∀ pair ∈ pairs, ∀ rest, Ends rest →
      Forms (pair.1.render ++ ":" ++ pair.2.render).toList rest (IsPair · pair) := by
  match pairs with
  | [] => nofun
  | (key, value) :: pairs =>
    simp only [Expr.pairsOperatorTrees, Bool.and_eq_true] at h
    refine List.forall_mem_cons.mpr ⟨fun rest hrest => ?_, Expr.forms_renderPairs pairs h.2⟩
    exact forms_pair (Expr.forms_render key h.1.1) (Expr.forms_render value h.1.2) hrest

end

/-! ### Statements -/

/-- The text of a `let` or `return` statement is a statement with its semicolon. -/
theorem Stmt.forms_render (s : Stmt) (h : s.isSimple = true) (rest : List Char) :
    Forms s.render.toList rest fun ts =>
      ∃ us t, ts = us ++ [t] ∧ IsStmt us s ∧ t.kind = .semicolon := by
  have closed (e : Expr) (he : e.isOperatorTree = true) :=
    (Expr.forms_render e he (';' :: rest) (ends_cons (by decide) rest)).append
      (forms_separator .semicolon (by decide) rest)
  match s with
  | .bind word value =>
    simp only [Stmt.isSimple, Bool.and_eq_true] at h
    have text : (Stmt.bind word value).render.toList =
        TokenKind.letWord.spelling ++ ([' '] ++ (word.toList ++ (([' '] ++
          (TokenKind.assign.spelling ++ [' '])) ++ (value.render.toList ++ [';'])))) := by
      simp [Stmt.render, TokenKind.spelling]
    have assigned := (forms_amid .assign (by decide) _).append (closed value h.2)
    have named := (forms_name h.1 (ends_cons (c := ' ') (by decide) _)).append assigned
    have start := (forms_spaced .letWord (by decide) _).append
      ((forms_space _).append named)
    rw [text]
    refine start.mono ?_
    rintro _ ⟨_, _, rfl, ⟨t, rfl, ht⟩, _, _, rfl, rfl, _, _, rfl, ⟨n, rfl, hn, rfl⟩, _, _, rfl,
      ⟨q, rfl, hq⟩, us, _, rfl, hus, c, rfl, hc⟩
    exact ⟨t :: n :: q :: us, c, by simp, .bind ht hn hq (hus.loosen (by decide)), hc⟩
  | .return value =>
    have text : (Stmt.return value).render.toList =
        TokenKind.returnWord.spelling ++ ([' '] ++ (value.render.toList ++ [';'])) := by
      simp [Stmt.render, TokenKind.spelling]
    have start := (forms_spaced .returnWord (by decide) _).append
      ((forms_space _).append (closed value h))
    rw [text]
    refine start.mono ?_
    rintro _ ⟨_, _, rfl, ⟨t, rfl, ht⟩, _, _, rfl, rfl, us, _, rfl, hus, c, rfl, hc⟩
    exact ⟨t :: us, c, by simp, .return ht (hus.loosen (by decide)), hc⟩
  | .expr _ | .block _ => cases h

theorem Stmt.forms_renderAll (ss : List Stmt) (h : ∀ s ∈ ss, s.isSimple = true)
    (rest : List Char) : Forms (Stmt.renderAll ss).toList rest (IsStmts · ss) := by
  induction ss with
  | nil =>
    refine Forms.nil.mono ?_
    rintro _ rfl
    exact .nil
  | cons s ss ih =>
    obtain ⟨hs, hss⟩ := List.forall_mem_cons.mp h
    rw [Stmt.renderAll, String.toList_append]
    refine ((Stmt.forms_render s hs _).append (ih hss)).mono ?_
    rintro _ ⟨_, vs, rfl, ⟨us, t, rfl, hus, ht⟩, hvs⟩
    rw [List.append_assoc]
    exact .closed hus ht hvs

/-! ### Reading back -/

/-- A text that is cut into the tokens of a program is read as that program. -/
theorem Forms.parseSource_eq {source : String} {program : Program}
    (h : Forms source.toList [] (IsStmts · program)) : parseSource source = ⟨program, []⟩ := by
  obtain ⟨ts, line, cut, phrase⟩ := h 1
  have nothing : tokensFrom line (lexemes []) = [] := by rw [lexemes, tokensFrom]
  rw [nothing, List.append_nil, List.append_nil] at cut
  refine IsStmts.parseProgram_eq ?_ rfl
  unfold TokenStream.ofSource
  rw [cut]
  exact phrase

/-- **The rendered text of an operator tree is read back as the tree.**  The text of an expression
made of names, integers that are not negative, booleans, operators, calls, indices, arrays and
hashes is read without an error as one statement, which is that expression.  The text of `let` and
`return` statements of such expressions is read without an error as those statements. -/
theorem parseSource_render :
    (∀ e : Expr, e.isOperatorTree = true → parseSource e.render = ⟨[.expr e], []⟩) ∧
    ∀ ss : List Stmt, (∀ s ∈ ss, s.isSimple = true) →
      parseSource (Stmt.renderAll ss) = ⟨ss, []⟩ := by
  constructor
  · intro e h
    refine Forms.parseSource_eq ((Expr.forms_render e h [] ends_nil).mono fun ts hts => ?_)
    have statement : IsStmt ts (.expr e) := .expr (hts.loosen (by decide))
    simpa using IsStmts.unclosed (v := []) statement (by simp) .nil
  · intro ss h
    exact Forms.parseSource_eq (Stmt.forms_renderAll ss h [])

/-- The text `(f((1 + (!true)), [])[{a:2}])` is read as an index into a call, and the text
`let x = (-1);return x;` as two statements. -/
theorem parseSource_render_index_of_call :
    parseSource "(f((1 + (!true)), [])[\x7ba:2\x7d])" =
      ⟨[.expr (.index
        (.call (.name "f") [.binary .add (.integer 1) (.unary .not (.boolean true)), .array []])
        (.hash [(.name "a", .integer 2)]))], []⟩ ∧
    parseSource "let x = (-1);return x;" =
      ⟨[.bind "x" (.unary .negate (.integer 1)), .return (.name "x")], []⟩ := by
  constructor
  · have text : (Expr.index
        (.call (.name "f") [.binary .add (.integer 1) (.unary .not (.boolean true)), .array []])
        (.hash [(.name "a", .integer 2)])).render = "(f((1 + (!true)), [])[\x7ba:2\x7d])" := by
      decide
    rw [← text]
    exact parseSource_render.1 _ (by decide)
  · have text : Stmt.renderAll [.bind "x" (.unary .negate (.integer 1)), .return (.name "x")] =
        "let x = (-1);return x;" := by decide
    rw [← text]
    exact parseSource_render.2 _ (by decide)

end Marmoset
