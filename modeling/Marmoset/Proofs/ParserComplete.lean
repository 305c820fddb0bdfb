import Marmoset.Proofs.ParserSound

/-! # The parser reads every phrase of the grammar

A phrase of the grammar is read to its end with its tree and without an error, whatever follows it,
as long as the token that follows cannot go on with it (`IsExpr.read`, `IsStmt.read`,
`IsStmts.readBlock`).  Together with the converse this gives that the parser accepts the programs of
the grammar and nothing else, and returns the one tree that each of them has.

An operator of a left-recursive rule is met by the loop only after its whole left operand.
`IsExpr.read` therefore does not say that the phrase is read, but that reading gets from its start
to the loop behind it, with the tree as the operand on the left. -/

namespace Marmoset

open Grammar Parsed TokenStream

namespace Grammar

/-! ### What may follow -/

/-- The first of the tokens, if there is one, binds no tighter than `k` and is no `else`. -/
def Follows (k : Nat) (rest : List Token) : Prop :=
  ∀ t ∈ rest.head?, (Precedence.ofKind t.kind).level ≤ k ∧ t.kind ≠ .elseWord

theorem Follows.mono {k k' : Nat} {rest : List Token} (h : Follows k rest) (hk : k ≤ k') :
    Follows k' rest :=
  fun t ht => ⟨Nat.le_trans (h t ht).1 hk, (h t ht).2⟩

theorem follows_cons {k : Nat} {t : Token} {rest : List Token}
    (hk : (Precedence.ofKind t.kind).level ≤ k) (ht : t.kind ≠ .elseWord) :
    Follows k (t :: rest) := by
  intro x hx
  cases hx
  exact ⟨hk, ht⟩

/-- The next token of a stream is the first of the tokens that are left, or the end. -/
theorem Follows.next {k : Nat} {rest : List Token} (h : Follows k rest) {t : TokenStream}
    (ht : t.advance.tokens = rest) :
    (Precedence.ofKind t.next.kind).level ≤ k ∧ t.next.kind ≠ .elseWord := by
  cases rest with
  | nil =>
      have hnext : t.next.kind = .eof := by simp [TokenStream.next, current, ht, Token.atEnd]
      rw [hnext]
      exact ⟨Nat.zero_le k, by decide⟩
  | cons x rest =>
      rw [next_eq ht]
      exact h x rfl

/-- The tokens that close a list or a block. -/
def closers : List TokenKind :=
  [.rightParen, .rightBracket, .rightBrace]

theorem ne_of_mem_closers {kind : TokenKind} (h : kind ∈ closers) :
    kind ≠ .comma ∧ kind ≠ .elseWord ∧ kind ≠ .semicolon ∧ kind ∉ starting ∧
      Precedence.ofKind kind = .lowest := by
  revert h
  cases kind <;> decide

theorem follows_close {k : Nat} {close : Token} {rest : List Token} (h : close.kind ∈ closers) :
    Follows k (close :: rest) := by
  obtain ⟨-, helse, -, -, hlowest⟩ := ne_of_mem_closers h
  exact follows_cons (by rw [hlowest]; exact Nat.zero_le k) helse

/-- The token of a binary operator has the precedence of its level. -/
theorem IsBinaryOp.level_eq {l : Level} {kind : TokenKind} {op : BinaryOp}
    (h : IsBinaryOp l kind op) :
    (Precedence.ofKind kind).level = l.rank ∧ BinaryOp.ofKind? kind = some op ∧
      Level.above (Precedence.ofKind kind) = l.tighter := by
  cases h <;> exact ⟨rfl, rfl, rfl⟩

theorem IsBinaryOp.level_le_unary {l : Level} {kind : TokenKind} {op : BinaryOp}
    (h : IsBinaryOp l kind op) : (Precedence.ofKind kind).level ≤ Precedence.unary.level := by
  cases h <;> decide

theorem IsBinaryOp.ne_primary {l : Level} {kind : TokenKind} {op : BinaryOp}
    (h : IsBinaryOp l kind op) : l ≠ .primary := by
  cases h <;> decide

theorem IsBinaryOp.kind_ne {l : Level} {kind : TokenKind} {op : BinaryOp}
    (h : IsBinaryOp l kind op) :
    kind ≠ .elseWord ∧ kind ≠ .leftParen ∧ kind ≠ .leftBracket := by
  cases h <;> decide

theorem IsBinaryOp.level_lt {l : Level} {kind : TokenKind} {op : BinaryOp}
    (h : IsBinaryOp l kind op) {p : Precedence} (hp : (Level.above p).rank ≤ l.rank) :
    p < Precedence.ofKind kind := by
  cases h <;> cases p <;> first | decide | (revert hp; decide)

end Grammar

/-! ### Lists -/

namespace Parsed

variable {α : Type} {Item : List Token → α → Prop} {closing : TokenKind} {n k : Nat}
  {item : (t : TokenStream) → t.remaining < n → Parsed t α}

/-- Every item of at most `k` tokens is read. -/
def ReadsItems (Item : List Token → α → Prop) (k : Nat)
    (item : (t : TokenStream) → t.remaining < n → Parsed t α) : Prop :=
  ∀ ⦃w : List Token⦄ ⦃a : α⦄, Item w a → w.length ≤ k → ∀ (t : TokenStream) (ht : t.remaining < n)
    (rest : List Token), t.tokens = w ++ rest → Follows 0 rest →
    ∃ u, u.advance.tokens = rest ∧ (item t ht).Yields a u

theorem moreItems_yields_nil {s : TokenStream} {hs : s.remaining ≤ n} {close : Token}
    {rest : List Token} (hclose : close.kind = closing) (hclosing : closing ∈ closers)
    (htokens : s.advance.tokens = close :: rest) :
    (moreItems closing n item s hs).Yields [] s.advance := by
  have hnext : s.next.kind = closing := by rw [next_eq htokens, hclose]
  rw [moreItems, dif_neg (by rw [hnext]; exact (ne_of_mem_closers hclosing).1)]
  exact (yields_expect (x := ()).mpr ⟨hnext, rfl⟩).map _

theorem moreItems_yields_cons {s u t : TokenStream} {hs : s.remaining ≤ n} {a : α} {as : List α}
    (hcomma : s.next.kind = .comma)
    (hitem : ∀ ht, (item s.advance.advance ht).Yields a u)
    (hmore : ∀ hu, (moreItems closing n item u hu).Yields as t) :
    (moreItems closing n item s hs).Yields (a :: as) t := by
  rw [moreItems, dif_pos hcomma, yields_shift, yields_shift]
  exact (hitem _).andThen fun _ => (hmore _).map _

/-- The first of several items is read, and then the others up to the closing token. -/
theorem separated_yields (hclosing : closing ∈ closers) (hitem : ReadsItems Item k item)
    {w : List Token} {as : List α} (h : Separated Item w as) (hk : w.length ≤ k) {close : Token}
    {rest : List Token} (hclose : close.kind = closing) (s : TokenStream) (hs : s.remaining < n)
    (htokens : s.tokens = w ++ close :: rest) :
    ∃ a as' u t, as = a :: as' ∧ (item s hs).Yields a u ∧ t.advance.tokens = rest ∧
      ∀ hu, (moreItems closing n item u hu).Yields as' t := by
  induction h generalizing s with
  | @one w a ha =>
      obtain ⟨u, hu, hyields⟩ := hitem ha hk s hs _ htokens
        (follows_close (by rw [hclose]; exact hclosing))
      exact ⟨a, [], u, u.advance, rfl, hyields, advance_tokens_eq hu,
        fun _ => moreItems_yields_nil hclose hclosing hu⟩
  | @more w v comma a as ha hc h ih =>
      simp only [List.length_append, List.length_cons] at hk
      obtain ⟨u, hu, hyields⟩ := hitem ha (by omega) s hs (comma :: (v ++ close :: rest))
        (by rw [htokens]; simp) (follows_cons (by rw [hc]; decide) (by rw [hc]; decide))
      have hle := hyields.remaining_le
      have hnext : u.next.kind = .comma := by rw [next_eq hu, hc]
      have fewer := u.remaining_advance_advance_lt (by rw [hnext]; decide)
      obtain ⟨a', as', u', t, rfl, hyields', ht, hmore⟩ :=
        ih (by omega) u.advance.advance (by omega) (advance_tokens_eq hu)
      exact ⟨a, _, u, t, rfl, hyields, ht,
        fun _ => moreItems_yields_cons hnext (fun _ => hyields') hmore⟩

/-- A list is read with its closing token. -/
theorem items_yields (hclosing : closing ∈ closers) (hitem : ReadsItems Item k item)
    (hstart : ∀ {w a}, Item w a → ∃ t v, w = t :: v ∧ t.kind ∈ starting)
    {w : List Token} {as : List α} (h : Listed Item w as) (hk : w.length ≤ k) {close : Token}
    {rest : List Token} (hclose : close.kind = closing) {s : TokenStream}
    (hs : s.advance.remaining < n) (htokens : s.advance.tokens = w ++ close :: rest) :
    ∃ t, t.advance.tokens = rest ∧ (items closing n item s hs).Yields as t := by
  cases h with
  | none =>
      have hnext : s.next.kind = closing := by rw [next_eq htokens, hclose]
      refine ⟨s.advance, advance_tokens_eq htokens, ?_⟩
      rw [items, if_pos hnext]
      exact yields_ok.mpr ⟨rfl, rfl⟩
  | some h =>
      obtain ⟨first, v, rfl, hfirst⟩ : ∃ t v, w = t :: v ∧ t.kind ∈ starting := by
        cases h with
        | one ha => exact hstart ha
        | more ha _ _ =>
            obtain ⟨t, v, rfl, ht⟩ := hstart ha
            exact ⟨t, _, rfl, ht⟩
      have hnext : s.next.kind ≠ closing := by
        rw [next_eq htokens]
        rintro rfl
        exact (ne_of_mem_closers hclosing).2.2.2.1 hfirst
      obtain ⟨a, as', u, t, rfl, hyields, ht, hmore⟩ :=
        separated_yields hclosing hitem h hk hclose s.advance hs htokens
      refine ⟨t, ht, ?_⟩
      rw [items, if_neg hnext, yields_shift]
      exact hyields.andThen fun _ => (hmore _).map _

/-- A parameter list is read with its closing parenthesis. -/
theorem parameters_yields {w : List Token} {names : List String} (h : Listed IsName w names)
    {close : Token} {rest : List Token} (hclose : close.kind = .rightParen) {s : TokenStream}
    (htokens : s.advance.tokens = w ++ close :: rest) :
    ∃ t, t.advance.tokens = rest ∧ (parameters s).Yields names t := by
  refine items_yields (by decide) ?_ ?_ h (Nat.le_refl _) hclose _ htokens
  · intro v name hname _ t ht rest htokens _
    cases hname with
    | name hk =>
        refine ⟨t, advance_tokens_eq htokens, ?_⟩
        rw [← current_eq htokens] at hk ⊢
        simp only [bareName, if_pos hk]
        exact yields_here.mpr ⟨rfl, rfl⟩
  · intro v name hname
    cases hname with
    | name hk => exact ⟨_, _, rfl, by rw [hk]; decide⟩

end Parsed

/-! ### The operator loop -/

namespace Expr

theorem parse_yields {p : Precedence} {s t u : TokenStream} {left e : Expr}
    (hleft : (parsePrimary s).Yields left t) (hops : (parseOperators p left t).Yields e u) :
    (parse p s).Yields e u := by
  rw [parse]
  exact hleft.andThen fun _ => hops

theorem parseOperators_yields_left {p : Precedence} {s : TokenStream} {left : Expr}
    (h : (Precedence.ofKind s.next.kind).level ≤ p.level) :
    (parseOperators p left s).Yields left s := by
  have hstop : ¬ p < Precedence.ofKind s.next.kind := Nat.not_lt_of_le h
  rw [parseOperators, dif_neg hstop]
  exact yields_here.mpr ⟨rfl, rfl⟩

theorem parseOperators_yields_binary {p : Precedence} {s t u : TokenStream} {op : BinaryOp}
    {left right e : Expr} (hp : p < Precedence.ofKind s.next.kind)
    (hcall : s.next.kind ≠ .leftParen) (hindex : s.next.kind ≠ .leftBracket)
    (hop : BinaryOp.ofKind? s.next.kind = some op)
    (hright : (parse (Precedence.ofKind s.next.kind) s.advance.advance).Yields right t)
    (hops : (parseOperators p (.binary op left right) t).Yields e u) :
    (parseOperators p left s).Yields e u := by
  rw [parseOperators, dif_pos hp]
  split
  · contradiction
  · contradiction
  · simp only [hop]
    rw [yields_shift, yields_shift]
    exact hright.andThen fun _ => hops

theorem parseOperators_yields_call {p : Precedence} {s t u : TokenStream} {left e : Expr}
    {arguments : List Expr} (hp : p.level ≤ Precedence.unary.level)
    (hcall : s.next.kind = .leftParen)
    (harguments : ∀ h, (items .rightParen s.remaining (fun t _ => parse .lowest t) s.advance
      h).Yields arguments t)
    (hops : (parseOperators p (.call left arguments) t).Yields e u) :
    (parseOperators p left s).Yields e u := by
  have hlt : p < Precedence.ofKind s.next.kind := by
    rw [hcall]
    exact Nat.lt_of_le_of_lt hp (by decide)
  rw [parseOperators, dif_pos hlt]
  split
  · rw [yields_shift]
    exact (harguments _).andThen fun _ => hops
  · next h => exact absurd (hcall.symm.trans h) (by decide)
  · contradiction

theorem parseOperators_yields_index {p : Precedence} {s t u : TokenStream} {left position e : Expr}
    (hp : p.level ≤ Precedence.unary.level) (hindex : s.next.kind = .leftBracket)
    (hposition : (parse .lowest s.advance.advance).Yields position t)
    (hclose : t.next.kind = .rightBracket)
    (hops : (parseOperators p (.index left position) t.advance).Yields e u) :
    (parseOperators p left s).Yields e u := by
  have hlt : p < Precedence.ofKind s.next.kind := by
    rw [hindex]
    exact Nat.lt_of_le_of_lt hp (by decide)
  have hexpect : (expect .rightBracket t).Yields () t.advance := yields_expect.mpr ⟨hclose, rfl⟩
  rw [parseOperators, dif_pos hlt]
  split
  · next h => exact absurd (hindex.symm.trans h) (by decide)
  · rw [yields_shift, yields_shift]
    exact hposition.andThen fun _ => hexpect.andThen fun _ => hops
  · contradiction

end Expr

namespace Grammar

theorem IsLiteral.parsePrimary_yields {s : TokenStream} {e : Expr} (h : IsLiteral s.current e) :
    (Expr.parsePrimary s).Yields e s := by
  have hne : s.current.kind ≠ .eof := by cases h <;> simp [*]
  rw [Expr.parsePrimary, dif_neg hne]
  cases h with
  | name hk | text hk | isTrue hk | isFalse hk =>
      simp only [hk]
      exact yields_here.mpr ⟨rfl, rfl⟩
  | integer hk hn =>
      simp only [hk, hn]
      exact yields_here.mpr ⟨rfl, rfl⟩

/-- Reading from `s` gets to the operator loop before `rest`, with `e` as the operand on the left.
The precedence is one at which expressions of the level are read. -/
def Reached (s : TokenStream) (l : Level) (e : Expr) (rest : List Token) : Prop :=
  ∃ t, t.advance.tokens = rest ∧ ∀ p, (Level.above p).rank ≤ l.rank →
    p.level ≤ Precedence.unary.level → ∀ a u, (Expr.parseOperators p e t).Yields a u →
      (Expr.parse p s).Yields a u

variable {s : TokenStream} {l : Level} {e : Expr} {rest : List Token}

theorem Reached.loosen (h : Reached s l.tighter e rest) (hl : l ≠ .primary) :
    Reached s l e rest := by
  obtain ⟨t, ht, h⟩ := h
  refine ⟨t, ht, fun p hp => h p (Nat.le_trans hp ?_)⟩
  exact Nat.le_of_lt (Level.rank_lt_tighter hl)

theorem reached_of_parsePrimary {t : TokenStream} (ht : t.advance.tokens = rest)
    (h : (Expr.parsePrimary s).Yields e t) : Reached s l e rest :=
  ⟨t, ht, fun _ _ _ _ _ hops => Expr.parse_yields h hops⟩

/-- Before a token that binds no tighter, the loop ends with what has been read. -/
theorem Reached.parse (h : Reached s l e rest) {p : Precedence}
    (hp : (Level.above p).rank ≤ l.rank) (hunary : p.level ≤ Precedence.unary.level)
    (hrest : Follows p.level rest) :
    ∃ t, t.advance.tokens = rest ∧ (Expr.parse p s).Yields e t := by
  obtain ⟨t, ht, h⟩ := h
  exact ⟨t, ht, h p hp hunary e t (Expr.parseOperators_yields_left (hrest.next ht).1)⟩

end Grammar

/-! ### Primaries -/

namespace Expr

variable {s t u : TokenStream} {e : Expr}

theorem parsePrimary_yields_unary {op : UnaryOp} (hop : IsUnaryOp s.current.kind op)
    (h : (parse .unary s.advance).Yields e t) : (parsePrimary s).Yields (.unary op e) t := by
  generalize hk : s.current.kind = kind at hop
  cases hop <;>
  · rw [parsePrimary, dif_neg (by rw [hk]; decide)]
    simp only [hk]
    exact yields_shift.mpr (h.map _)

theorem parsePrimary_yields_group (hk : s.current.kind = .leftParen)
    (h : (parse .lowest s.advance).Yields e t) (hclose : t.next.kind = .rightParen) :
    (parsePrimary s).Yields e t.advance := by
  have hexpect : (expect .rightParen t).Yields () t.advance := yields_expect.mpr ⟨hclose, rfl⟩
  rw [parsePrimary, dif_neg (by rw [hk]; decide)]
  simp only [hk]
  exact yields_shift.mpr (h.andThen fun _ => hexpect.map _)

theorem parsePrimary_yields_cond {c : Expr} {consequence : Block} (hk : s.current.kind = .ifWord)
    (hc : (parse .lowest s.advance).Yields c t)
    (hconsequence : (Stmt.parseBraces t).Yields consequence u) (helse : u.next.kind ≠ .elseWord) :
    (parsePrimary s).Yields (.cond c consequence none) u := by
  rw [parsePrimary, dif_neg (by rw [hk]; decide)]
  simp only [hk]
  refine yields_shift.mpr (hc.andThen fun _ => hconsequence.andThen fun _ => ?_)
  rw [if_neg helse]
  exact yields_here.mpr ⟨rfl, rfl⟩

theorem parsePrimary_yields_condElse {c : Expr} {consequence alternative : Block}
    {u' : TokenStream} (hk : s.current.kind = .ifWord)
    (hc : (parse .lowest s.advance).Yields c t)
    (hconsequence : (Stmt.parseBraces t).Yields consequence u) (helse : u.next.kind = .elseWord)
    (halternative : (Stmt.parseBraces u.advance).Yields alternative u') :
    (parsePrimary s).Yields (.cond c consequence (some alternative)) u' := by
  rw [parsePrimary, dif_neg (by rw [hk]; decide)]
  simp only [hk]
  refine yields_shift.mpr (hc.andThen fun _ => hconsequence.andThen fun _ => ?_)
  rw [if_pos helse]
  exact yields_shift.mpr (halternative.map _)

theorem parsePrimary_yields_function {names : List String} {body : Block}
    (hk : s.current.kind = .fnWord) (hopen : s.next.kind = .leftParen)
    (hnames : (parameters s.advance).Yields names t)
    (hbody : (Stmt.parseBraces t).Yields body u) :
    (parsePrimary s).Yields (.function names body) u := by
  have hexpect : (expect .leftParen s).Yields () s.advance := yields_expect.mpr ⟨hopen, rfl⟩
  rw [parsePrimary, dif_neg (by rw [hk]; decide)]
  simp only [hk]
  exact hexpect.andThen fun _ => hnames.andThen fun _ => hbody.map _

theorem parsePrimary_yields_array {elements : List Expr} (hk : s.current.kind = .leftBracket)
    (helements : ∀ h, (items .rightBracket s.remaining (fun t _ => parse .lowest t) s h).Yields
      elements t) :
    (parsePrimary s).Yields (.array elements) t := by
  rw [parsePrimary, dif_neg (by rw [hk]; decide)]
  simp only [hk]
  exact (helements _).map _

theorem parsePair_yields {key value : Expr} (hkey : (parse .lowest s).Yields key t)
    (hcolon : t.next.kind = .colon) (hvalue : (parse .lowest t.advance.advance).Yields value u) :
    (parsePair s).Yields (key, value) u := by
  rw [parsePair]
  have hexpect : (expect .colon t).Yields () t.advance := yields_expect.mpr ⟨hcolon, rfl⟩
  exact hkey.andThen fun _ => hexpect.andThen fun _ => yields_shift.mpr (hvalue.map _)

theorem parsePrimary_yields_hash {pairs : List (Expr × Expr)} (hk : s.current.kind = .leftBrace)
    (hpairs : ∀ h, (items .rightBrace s.remaining (fun t _ => parsePair t) s h).Yields pairs t) :
    (parsePrimary s).Yields (.hash pairs) t := by
  rw [parsePrimary, dif_neg (by rw [hk]; decide)]
  simp only [hk]
  exact (hpairs _).map _

end Expr

/-! ### Statements -/

namespace Stmt

variable {s t u : TokenStream} {e : Expr} {st : Stmt} {ss : List Stmt}

theorem parse_yields_bind {name : String} (hk : s.current.kind = .letWord)
    (hname : s.next.kind = .name) (hliteral : s.next.literal = name)
    (hassign : s.advance.next.kind = .assign)
    (he : (Expr.parse .lowest s.advance.advance.advance).Yields e t)
    (hskip : (skipSemicolon (.bind name e) t).Yields st u) : (parse s).Yields st u := by
  have hexpect : (expect .name s).Yields () s.advance := yields_expect.mpr ⟨hname, rfl⟩
  have hexpect' : (expect .assign s.advance).Yields () s.advance.advance :=
    yields_expect.mpr ⟨hassign, rfl⟩
  subst hliteral
  rw [parse, dif_pos hk]
  exact hexpect.andThen fun _ => hexpect'.andThen fun _ =>
    yields_shift.mpr (he.andThen fun _ => hskip)

theorem parse_yields_return (hk : s.current.kind = .returnWord)
    (he : (Expr.parse .lowest s.advance).Yields e t)
    (hskip : (skipSemicolon (.return e) t).Yields st u) : (parse s).Yields st u := by
  rw [parse, dif_neg (by rw [hk]; decide), dif_pos hk]
  exact yields_shift.mpr (he.andThen fun _ => hskip)

theorem parse_yields_expr (hlet : s.current.kind ≠ .letWord)
    (hreturn : s.current.kind ≠ .returnWord) (he : (Expr.parse .lowest s).Yields e t)
    (hskip : (skipSemicolon (.expr e) t).Yields st u) : (parse s).Yields st u := by
  rw [parse, dif_neg hlet, dif_neg hreturn]
  exact he.andThen fun _ => hskip

theorem parseBlock_yields_nil (hbrace : s.current.kind = .rightBrace) :
    (parseBlock s).Yields [] s := by
  rw [parseBlock, if_pos hbrace]
  exact yields_here.mpr ⟨rfl, rfl⟩

theorem parseBlock_yields_cons (hbrace : s.current.kind ≠ .rightBrace)
    (heof : s.current.kind ≠ .eof) (hst : (parse s).Yields st t)
    (hss : (parseBlock t.advance).Yields ss u) : (parseBlock s).Yields (st :: ss) u := by
  obtain ⟨houtcome, hrecorded, rfl⟩ := hst
  rw [parseBlock, if_neg hbrace, dif_neg heof, yields_resume]
  simp only [houtcome]
  exact ⟨hrecorded, yields_shift.mpr (hss.map _)⟩

theorem parseBraces_yields (hopen : s.next.kind = .leftBrace)
    (h : (parseBlock s.advance.advance).Yields ss t) : (parseBraces s).Yields ss t := by
  have hexpect : (expect .leftBrace s).Yields () s.advance := yields_expect.mpr ⟨hopen, rfl⟩
  rw [parseBraces]
  exact hexpect.andThen fun _ => yields_shift.mpr h

end Stmt

/-! ### Phrases -/

namespace Grammar

/-- A block may follow an expression. -/
theorem IsBlock.follows {w rest : List Token} {body : Block} (h : IsBlock w body) :
    Follows 0 (w ++ rest) := by
  cases h with
  | block hopen _ _ => exact follows_cons (by rw [hopen]; decide) (by rw [hopen]; decide)

theorem IsPair.head {w : List Token} {pair : Expr × Expr} (h : IsPair w pair) :
    ∃ t v, w = t :: v ∧ t.kind ∈ starting := by
  cases h with
  | pair hkey _ _ =>
      obtain ⟨t, v, rfl, ht⟩ := hkey.head
      exact ⟨t, _, rfl, ht⟩

/-- The first of the tokens, if there is one, neither goes on with a statement nor ends it. -/
def Separate (rest : List Token) : Prop :=
  ∀ t ∈ rest.head?, t.kind ∉ continuing ∧ t.kind ≠ .elseWord ∧ t.kind ≠ .semicolon

theorem level_eq_zero {kind : TokenKind} (h : kind ∉ continuing) :
    (Precedence.ofKind kind).level = 0 := by
  revert h
  cases kind <;> decide

theorem Separate.follows {rest : List Token} (h : Separate rest) : Follows 0 rest :=
  fun t ht => ⟨Nat.le_of_eq (level_eq_zero (h t ht).1), (h t ht).2.1⟩

theorem separate_close {close : Token} {rest : List Token} (h : close.kind = .rightBrace) :
    Separate (close :: rest) := by
  intro t ht
  cases ht
  rw [h]
  decide

/-- The statements after one without a semicolon are separate from it. -/
theorem IsStmts.separate {v rest : List Token} {ss : List Stmt} (h : IsStmts v ss)
    (hv : ∀ t ∈ v.head?, t.kind ∉ continuing) (hrest : Separate rest) : Separate (v ++ rest) := by
  have hhead : v = [] ∨ ∃ t v', v = t :: v' ∧ t.kind ∈ .letWord :: .returnWord :: starting := by
    cases h with
    | nil => exact .inl rfl
    | closed hst _ _ | unclosed hst _ _ =>
        obtain ⟨t, v', rfl, ht⟩ := hst.head
        exact .inr ⟨t, _, rfl, ht⟩
  obtain rfl | ⟨t, v', rfl, ht⟩ := hhead
  · exact hrest
  · intro x hx
    cases hx
    refine ⟨hv t rfl, ?_, ?_⟩
    · intro hk
      rw [hk] at ht
      revert ht
      decide
    · intro hk
      rw [hk] at ht
      revert ht
      decide

/-- A statement with its semicolon is read to the end of it. -/
theorem skipSemicolon_yields_closed {t : TokenStream} {st : Stmt} {semicolon : Token}
    {rest : List Token} (ht : t.advance.tokens = semicolon :: rest)
    (hk : semicolon.kind = .semicolon) : (skipSemicolon st t).Yields st t.advance :=
  yields_skipSemicolon.mpr ⟨rfl, .inl ⟨by rw [next_eq ht, hk], rfl⟩⟩

/-- A statement without a semicolon ends with its expression. -/
theorem Separate.skipSemicolon_yields {t : TokenStream} {st : Stmt} {rest : List Token}
    (h : Separate rest) (ht : t.advance.tokens = rest) : (skipSemicolon st t).Yields st t := by
  refine yields_skipSemicolon.mpr ⟨rfl, .inr ⟨?_, rfl⟩⟩
  cases rest with
  | nil => simp [TokenStream.next, current, ht, Token.atEnd]
  | cons x rest =>
      rw [next_eq ht]
      exact (h x rfl).2.2

/-- The tokens that a statement starts with end no block and no program. -/
theorem IsStmt.current_ne {w rest : List Token} {st : Stmt} (h : IsStmt w st) {s : TokenStream}
    (hs : s.tokens = w ++ rest) : s.current.kind ≠ .rightBrace ∧ s.current.kind ≠ .eof := by
  obtain ⟨t, v, rfl, ht⟩ := h.head
  rw [current_eq hs]
  revert ht
  cases t.kind <;> decide

mutual

/-- Reading gets through an expression that is followed by no tighter operator. -/
theorem IsExpr.read {l : Level} {w : List Token} {e : Expr} (h : IsExpr l w e) {s : TokenStream}
    {rest : List Token} (hs : s.tokens = w ++ rest) (hrest : Follows l.rank rest) :
    Reached s l e rest := by
  match h with
  | .tighter hl h =>
      have hlt := Level.rank_lt_tighter hl
      have hnine := l.tighter.rank_lt_nine
      exact (h.read hs (hrest.mono (Nat.le_of_lt hlt))).loosen hl
  | @IsExpr.binary _ u v x op a b hop ha hb =>
      obtain ⟨hlevel, hop', habove⟩ := hop.level_eq
      obtain ⟨helse, hcall, hindex⟩ := hop.kind_ne
      have hlt := Level.rank_lt_tighter hop.ne_primary
      have hs' : s.tokens = u ++ (x :: (v ++ rest)) := by rw [hs]; simp
      obtain ⟨t, ht, hleft⟩ := ha.read hs'
        (follows_cons (Nat.le_of_eq hlevel) helse)
      rw [← next_eq ht] at hop hop' hcall hindex habove hlevel
      obtain ⟨t', ht', hright⟩ := (hb.read (advance_tokens_eq ht)
        (hrest.mono (Nat.le_of_lt hlt))).parse (p := Precedence.ofKind t.next.kind)
        (Nat.le_of_eq (congrArg Level.rank habove)) hop.level_le_unary (by rwa [hlevel])
      refine ⟨t', ht', fun p hp hunary a u hops => hleft p hp hunary a u ?_⟩
      exact Expr.parseOperators_yields_binary (hop.level_lt hp) hcall hindex hop' hright hops
  | @IsExpr.unary w x op e hop h =>
      obtain ⟨t, ht, hoperand⟩ := (h.read (advance_tokens_eq hs) hrest).parse (p := .unary)
        (Nat.le_refl _) (Nat.le_refl _) hrest
      rw [← current_eq hs] at hop
      exact reached_of_parsePrimary ht (Expr.parsePrimary_yields_unary hop hoperand)
  | @IsExpr.call u v opening closing f arguments hf hopen hargs hclose =>
      have hs' : s.tokens = u ++ (opening :: (v ++ closing :: rest)) := by rw [hs]; simp
      obtain ⟨t, ht, hcallee⟩ := hf.read hs'
        (follows_cons (by rw [hopen]; decide) (by rw [hopen]; decide))
      have hnext : t.next.kind = .leftParen := by rw [next_eq ht, hopen]
      have fewer := t.remaining_advance_advance_lt (by rw [hnext]; decide)
      have hitems : ReadsItems (n := t.remaining) (IsExpr .equality) v.length
          fun t _ => Expr.parse .lowest t :=
        fun w' a hw' hk t _ rest htokens hfollows => hw'.readBefore htokens hfollows
      obtain ⟨t', ht', hyields⟩ := items_yields (by decide) hitems IsExpr.head hargs
        (Nat.le_refl _) hclose fewer (advance_tokens_eq ht)
      refine ⟨t', ht', fun p hp hunary a u hops => hcallee p hp hunary a u ?_⟩
      exact Expr.parseOperators_yields_call hunary hnext (fun _ => hyields) hops
  | @IsExpr.index u v opening closing a i ha hopen hi hclose =>
      have hs' : s.tokens = u ++ (opening :: (v ++ closing :: rest)) := by rw [hs]; simp
      obtain ⟨t, ht, hcollection⟩ := ha.read hs'
        (follows_cons (by rw [hopen]; decide) (by rw [hopen]; decide))
      have hnext : t.next.kind = .leftBracket := by rw [next_eq ht, hopen]
      obtain ⟨t', ht', hposition⟩ := hi.readBefore (advance_tokens_eq ht)
        (follows_close (by rw [hclose]; decide))
      refine ⟨t'.advance, advance_tokens_eq ht', fun p hp hunary a u hops =>
        hcollection p hp hunary a u ?_⟩
      exact Expr.parseOperators_yields_index hunary hnext hposition
        (by rw [next_eq ht', hclose]) hops
  | .literal h =>
      rw [← current_eq hs] at h
      exact reached_of_parsePrimary (advance_tokens_eq hs) h.parsePrimary_yields
  | @IsExpr.group w opening closing e hopen h hclose =>
      have hs' : s.advance.tokens = w ++ closing :: rest := by rw [advance_tokens_eq hs]; simp
      obtain ⟨t, ht, hinner⟩ := h.readBefore hs' (follows_close (by rw [hclose]; decide))
      rw [← current_eq hs] at hopen
      exact reached_of_parsePrimary (advance_tokens_eq ht)
        (Expr.parsePrimary_yields_group hopen hinner (by rw [next_eq ht, hclose]))
  | @IsExpr.cond u v x c consequence hk hc hconsequence =>
      have hs' : s.advance.tokens = u ++ (v ++ rest) := by rw [advance_tokens_eq hs]; simp
      obtain ⟨t, ht, hcondition⟩ := hc.readBefore hs' hconsequence.follows
      obtain ⟨t', ht', hbraces⟩ := hconsequence.read ht
      rw [← current_eq hs] at hk
      exact reached_of_parsePrimary ht'
        (Expr.parsePrimary_yields_cond hk hcondition hbraces (hrest.next ht').2)
  | @IsExpr.condElse u v v' x x' c consequence alternative hk hc hconsequence helse halternative =>
      have hs' : s.advance.tokens = u ++ (v ++ x' :: (v' ++ rest)) := by
        rw [advance_tokens_eq hs]
        simp
      obtain ⟨t, ht, hcondition⟩ := hc.readBefore hs' hconsequence.follows
      obtain ⟨t', ht', hbraces⟩ := hconsequence.read ht
      obtain ⟨t₂, ht₂, hbraces'⟩ := halternative.read (advance_tokens_eq ht')
      rw [← current_eq hs] at hk
      exact reached_of_parsePrimary ht₂ (Expr.parsePrimary_yields_condElse hk hcondition hbraces
        (by rw [next_eq ht', helse]) hbraces')
  | @IsExpr.function u v x opening closing parameters body hk hopen hparameters hclose hbody =>
      have hadvance := advance_tokens_eq hs
      have hs' : s.advance.advance.tokens = u ++ closing :: (v ++ rest) := by
        rw [advance_tokens_eq hadvance]
        simp
      obtain ⟨t, ht, hnames⟩ := parameters_yields hparameters hclose hs'
      obtain ⟨t', ht', hbraces⟩ := hbody.read ht
      rw [← current_eq hs] at hk
      exact reached_of_parsePrimary ht' (Expr.parsePrimary_yields_function hk
        (by rw [next_eq hadvance, hopen]) hnames hbraces)
  | @IsExpr.array w opening closing elements hopen helements hclose =>
      rw [← current_eq hs] at hopen
      have pos := remaining_pos (s := s) (by rw [hopen]; decide)
      have hs' : s.advance.tokens = w ++ closing :: rest := by rw [advance_tokens_eq hs]; simp
      have hitems : ReadsItems (n := s.remaining) (IsExpr .equality) w.length
          fun t _ => Expr.parse .lowest t :=
        fun w' a hw' hk t _ rest htokens hfollows => hw'.readBefore htokens hfollows
      obtain ⟨t, ht, hyields⟩ := items_yields (by decide) hitems IsExpr.head helements
        (Nat.le_refl _) hclose (remaining_advance_lt pos) hs'
      exact reached_of_parsePrimary ht (Expr.parsePrimary_yields_array hopen fun _ => hyields)
  | @IsExpr.hash w opening closing pairs hopen hpairs hclose =>
      rw [← current_eq hs] at hopen
      have pos := remaining_pos (s := s) (by rw [hopen]; decide)
      have hs' : s.advance.tokens = w ++ closing :: rest := by rw [advance_tokens_eq hs]; simp
      have hitems : ReadsItems (n := s.remaining) IsPair w.length fun t _ => Expr.parsePair t :=
        fun w' a hw' hk t _ rest htokens hfollows => hw'.read htokens hfollows
      obtain ⟨t, ht, hyields⟩ := items_yields (by decide) hitems IsPair.head hpairs
        (Nat.le_refl _) hclose (remaining_advance_lt pos) hs'
      exact reached_of_parsePrimary ht (Expr.parsePrimary_yields_hash hopen fun _ => hyields)
termination_by 30 * w.length + (9 - l.rank)
decreasing_by
  all_goals ((try simp only [List.length_append, List.length_cons, List.length_nil]); omega)

/-- An expression is read up to a token that does not go on with it. -/
theorem IsExpr.readBefore {w : List Token} {e : Expr} (h : IsExpr .equality w e) {s : TokenStream}
    {rest : List Token} (hs : s.tokens = w ++ rest) (hrest : Follows 0 rest) :
    ∃ t, t.advance.tokens = rest ∧ (Expr.parse .lowest s).Yields e t :=
  (h.read hs (hrest.mono (Nat.zero_le _))).parse (by decide) (by decide) hrest
termination_by 30 * w.length + 9
decreasing_by
  have := Level.equality.rank_pos
  omega

theorem IsPair.read {w : List Token} {pair : Expr × Expr} (h : IsPair w pair) {s : TokenStream}
    {rest : List Token} (hs : s.tokens = w ++ rest) (hrest : Follows 0 rest) :
    ∃ t, t.advance.tokens = rest ∧ (Expr.parsePair s).Yields pair t := by
  match h with
  | @IsPair.pair u v x key value hkey hcolon hvalue =>
      have hs' : s.tokens = u ++ (x :: (v ++ rest)) := by rw [hs]; simp
      obtain ⟨t, ht, hkey⟩ := hkey.readBefore hs'
        (follows_cons (by rw [hcolon]; decide) (by rw [hcolon]; decide))
      obtain ⟨t', ht', hvalue⟩ := hvalue.readBefore (advance_tokens_eq ht) hrest
      exact ⟨t', ht', Expr.parsePair_yields hkey (by rw [next_eq ht, hcolon]) hvalue⟩
termination_by 30 * w.length + 10

/-- A block is read with its braces. -/
theorem IsBlock.read {w : List Token} {body : Block} (h : IsBlock w body) {s : TokenStream}
    {rest : List Token} (hs : s.advance.tokens = w ++ rest) :
    ∃ t, t.advance.tokens = rest ∧ (Stmt.parseBraces s).Yields body t := by
  match h with
  | @IsBlock.block w opening closing body hopen hbody hclose =>
      have hs' : s.advance.advance.tokens = w ++ closing :: rest := by
        rw [advance_tokens_eq hs]
        simp
      obtain ⟨t, ht, hblock⟩ := hbody.readBlock hclose hs'
      exact ⟨t, ht, Stmt.parseBraces_yields (by rw [next_eq hs, hopen]) hblock⟩
termination_by 30 * w.length

/-- A statement is read up to its semicolon, or to a token that does not go on with it. -/
theorem IsStmt.read {w : List Token} {st : Stmt} (h : IsStmt w st) {s : TokenStream}
    {rest : List Token} (hs : s.tokens = w ++ rest) (hrest : Follows 0 rest) :
    ∃ t, t.advance.tokens = rest ∧
      ∀ a u, (skipSemicolon st t).Yields a u → (Stmt.parse s).Yields a u := by
  match h with
  | @IsStmt.bind w x name eq e hk hname heq he =>
      have hs₁ := advance_tokens_eq hs
      have hs₂ := advance_tokens_eq hs₁
      obtain ⟨t, ht, hvalue⟩ := he.readBefore (advance_tokens_eq hs₂) hrest
      rw [← current_eq hs] at hk
      refine ⟨t, ht, fun a u hskip => ?_⟩
      exact Stmt.parse_yields_bind hk (by rw [next_eq hs₁, hname]) (by rw [next_eq hs₁])
        (by rw [next_eq hs₂, heq]) hvalue hskip
  | @IsStmt.return w x e hk he =>
      obtain ⟨t, ht, hvalue⟩ := he.readBefore (advance_tokens_eq hs) hrest
      rw [← current_eq hs] at hk
      exact ⟨t, ht, fun a u hskip => Stmt.parse_yields_return hk hvalue hskip⟩
  | @IsStmt.expr w e he =>
      obtain ⟨t, ht, hvalue⟩ := he.readBefore hs hrest
      obtain ⟨x, v, rfl, hx⟩ := he.head
      rw [← current_eq hs] at hx
      refine ⟨t, ht, fun a u hskip => Stmt.parse_yields_expr ?_ ?_ hvalue hskip⟩
      all_goals
        intro hk
        rw [hk] at hx
        revert hx
        decide
termination_by 30 * w.length + 10

/-- The statements of a block are read up to the closing brace. -/
theorem IsStmts.readBlock {w : List Token} {ss : List Stmt} (h : IsStmts w ss) {close : Token}
    (hclose : close.kind = .rightBrace) {s : TokenStream} {rest : List Token}
    (hs : s.tokens = w ++ close :: rest) :
    ∃ t, t.advance.tokens = rest ∧ (Stmt.parseBlock s).Yields ss t := by
  match h with
  | .nil => exact ⟨s, advance_tokens_eq hs, Stmt.parseBlock_yields_nil (by rw [current_eq hs, hclose])⟩
  | @IsStmts.closed u v semicolon st ss hst hk hss =>
      rw [List.append_assoc] at hs
      obtain ⟨hbrace, heof⟩ := hst.current_ne hs
      obtain ⟨t, ht, hparse⟩ := hst.read hs
        (follows_cons (by rw [hk]; decide) (by rw [hk]; decide))
      have hst' := hparse _ _ (skipSemicolon_yields_closed ht hk)
      obtain ⟨t', ht', hblock⟩ := hss.readBlock hclose (advance_tokens_eq ht)
      exact ⟨t', ht', Stmt.parseBlock_yields_cons hbrace heof hst' hblock⟩
  | @IsStmts.unclosed u v st ss hst hv hss =>
      have hseparate : Separate (v ++ close :: rest) := hss.separate hv (separate_close hclose)
      rw [List.append_assoc] at hs
      obtain ⟨hbrace, heof⟩ := hst.current_ne hs
      obtain ⟨t, ht, hparse⟩ := hst.read hs hseparate.follows
      have hst' := hparse _ _ (hseparate.skipSemicolon_yields ht)
      have hpos := hst.length_pos
      obtain ⟨t', ht', hblock⟩ := hss.readBlock hclose ht
      exact ⟨t', ht', Stmt.parseBlock_yields_cons hbrace heof hst' hblock⟩
termination_by 30 * w.length + 11

end

/-! ### Programs -/

theorem parseProgram_cons {s t : TokenStream} {st : Stmt} (heof : s.current.kind ≠ .eof)
    (h : (Stmt.parse s).Yields st t) :
    parseProgram s = ⟨st :: (parseProgram t.advance).program, (parseProgram t.advance).errors⟩ := by
  obtain ⟨houtcome, hrecorded, rfl⟩ := h
  rw [parseProgram_of_ne_eof heof]
  simp only [houtcome, hrecorded, List.nil_append]

/-- A program of the grammar is read without an error, and the result is its tree. -/
theorem IsStmts.parseProgram_eq {w : List Token} {ss : List Stmt} (h : IsStmts w ss)
    {s : TokenStream} (hs : s.tokens = w) : parseProgram s = ⟨ss, []⟩ := by
  match h with
  | .nil =>
      have heof : s.current.kind = .eof := by simp [current, hs, Token.atEnd]
      rw [parseProgram, dif_pos heof]
  | @IsStmts.closed u v semicolon st ss hst hk hss =>
      obtain ⟨-, heof⟩ := hst.current_ne hs
      obtain ⟨t, ht, hparse⟩ := hst.read hs
        (follows_cons (by rw [hk]; decide) (by rw [hk]; decide))
      have hst' := hparse _ _ (skipSemicolon_yields_closed ht hk)
      rw [parseProgram_cons heof hst', hss.parseProgram_eq (advance_tokens_eq ht)]
  | @IsStmts.unclosed u v st ss hst hv hss =>
      have hnil : Separate [] := by
        intro t ht
        cases ht
      have hseparate : Separate v := by simpa using hss.separate hv hnil
      obtain ⟨-, heof⟩ := hst.current_ne hs
      obtain ⟨t, ht, hparse⟩ := hst.read hs hseparate.follows
      have hst' := hparse _ _ (hseparate.skipSemicolon_yields ht)
      rw [parseProgram_cons heof hst', hss.parseProgram_eq ht]
termination_by ss.length

end Grammar

/-- **The parser accepts the programs of the grammar and nothing else.**  Each of them has one
tree, and it is the one that the parser returns. -/
theorem errors_eq_nil_iff_isProgram (tokens : List Token) (h : ∀ t ∈ tokens, t.kind ≠ .eof) :
    ((parseProgram (.ofTokens tokens)).errors = [] ↔ ∃ p, IsProgram tokens p) ∧
      (∀ p q, IsProgram tokens p → IsProgram tokens q → p = q) ∧
      ∀ p, IsProgram tokens p → (parseProgram (.ofTokens tokens)).program = p := by
  have hread : ∀ p, IsProgram tokens p → parseProgram (.ofTokens tokens) = ⟨p, []⟩ :=
    fun p hp => IsStmts.parseProgram_eq hp rfl
  refine ⟨⟨fun herrors => ⟨_, isProgram_of_errors_eq_nil h herrors⟩, ?_⟩, ?_, ?_⟩
  · rintro ⟨p, hp⟩
    rw [hread p hp]
  · intro p q hp hq
    have heq := (hread p hp).symm.trans (hread q hq)
    exact congrArg ParseResult.program heq
  · intro p hp
    rw [hread p hp]

/-- The tokens `f ( a ) - - b c` are two statements, and the minus signs group as they should. -/
theorem errors_eq_nil_iff_isProgram_two_statements :
    let tokens : List Token := [⟨.name, "f", 1⟩, ⟨.leftParen, "(", 1⟩, ⟨.name, "a", 1⟩,
      ⟨.rightParen, ")", 1⟩, ⟨.minus, "-", 1⟩, ⟨.minus, "-", 1⟩, ⟨.name, "b", 1⟩, ⟨.name, "c", 2⟩]
    (∀ t ∈ tokens, t.kind ≠ .eof) ∧ (parseProgram (.ofTokens tokens)).errors = [] ∧
      (parseProgram (.ofTokens tokens)).program =
        [.expr (.binary .sub (.call (.name "f") [.name "a"]) (.unary .negate (.name "b"))),
          .expr (.name "c")] := by
  intro tokens
  have name (l : Level) (literal : String) (line : Nat) :
      IsExpr l [⟨.name, literal, line⟩] (.name literal) :=
    (IsExpr.literal (.name rfl)).loosen (by cases l <;> decide)
  have call : IsExpr .sum (tokens.take 4) (.call (.name "f") [.name "a"]) :=
    (IsExpr.call (v := [⟨.name, "a", 1⟩]) (name .call "f" 1) rfl (.some (.one (name .equality "a" 1)))
      rfl).loosen (by decide)
  have negation : IsExpr .product [⟨.minus, "-", 1⟩, ⟨.name, "b", 1⟩]
      (.unary .negate (.name "b")) :=
    (IsExpr.unary .negate (name .unary "b" 1)).loosen (by decide)
  have difference := (IsExpr.binary (t := ⟨.minus, "-", 1⟩) .sub call negation).loosen
    (l := .equality) (by decide)
  have program : IsProgram tokens _ :=
    .unclosed (v := [⟨.name, "c", 2⟩]) (.expr difference) (by decide)
      (.unclosed (v := []) (.expr (name .equality "c" 2)) (by decide) .nil)
  have noEof : ∀ t ∈ tokens, t.kind ≠ .eof := by decide
  have main := errors_eq_nil_iff_isProgram tokens noEof
  exact ⟨noEof, main.1.mpr ⟨_, program⟩, main.2.2 _ program⟩

end Marmoset
