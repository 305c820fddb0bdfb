import Marmoset.Program.Parser
import Marmoset.Proofs.Grammar
import Marmoset.Proofs.ParserSteps

/-! # What the parser reads is in the grammar

If a parser yields a tree without an error, the tokens that it went over form a phrase of the
grammar with this tree (`Expr.isExpr_of_parse`, `Stmt.statement_of_parse`,
`Stmt.isBlock_of_parseBraces`).

The invariant of the operator loop is about the token that comes next.  The expression read so far
has to be of a level that the next operator can take on its left, that is one whose rank is at
least the precedence of that token.  After an operand this holds because the operand was read up
to a token that binds no tighter. -/

namespace Marmoset

open Grammar

/-! ### Lists -/

namespace Parsed

variable {α : Type} {Item : List Token → α → Prop} {closing : TokenKind} {n : Nat}
  {item : (t : TokenStream) → t.remaining < n → Parsed t α}

/-- The items after one that reads `w`, with the closing token. -/
theorem separated_of_moreItems (hclosing : closing ≠ .eof)
    (hitem : ∀ t ht a u, (item t ht).Yields a u → ∃ w, t.tokens = w ++ u.advance.tokens ∧ Item w a)
    {s t : TokenStream} {hs : s.remaining ≤ n} {as : List α}
    (h : (moreItems closing n item s hs).Yields as t) {w : List Token} {a : α} (hw : Item w a) :
    ∃ v close, s.advance.tokens = v ++ close :: t.advance.tokens ∧ close.kind = closing ∧
      Separated Item (w ++ v) (a :: as) := by
  unfold moreItems at h
  split at h
  · next hc =>
    rw [yields_shift, yields_shift, yields_andThen] at h
    obtain ⟨a', u, hu, hfirst, hrest⟩ := h
    obtain ⟨as', hmore, rfl⟩ := yields_map.mp hrest
    obtain ⟨w', hw', hi⟩ := hitem _ _ _ _ hfirst
    have fewer := s.remaining_advance_advance_lt (by rw [hc]; decide)
    obtain ⟨v, close, hv, hk, hsep⟩ := separated_of_moreItems hclosing hitem hmore hi
    refine ⟨s.next :: (w' ++ v), close, ?_, hk, .more hw hc hsep⟩
    rw [TokenStream.advance_tokens_eq_cons (by rw [hc]; decide), hw', hv]
    simp
  · obtain ⟨_, hclose, rfl⟩ := yields_map.mp h
    obtain ⟨hk, rfl⟩ := yields_expect.mp hclose
    refine ⟨[], s.next, ?_, hk, by simpa using .one hw⟩
    rw [TokenStream.advance_tokens_eq_cons (by rw [hk]; exact hclosing)]
    rfl
termination_by s.remaining

/-- A list read up to its closing token is a list of the grammar. -/
theorem listed_of_items (hclosing : closing ≠ .eof)
    (hitem : ∀ t ht a u, (item t ht).Yields a u → ∃ w, t.tokens = w ++ u.advance.tokens ∧ Item w a)
    {s t : TokenStream} {hs : s.advance.remaining < n} {as : List α}
    (h : (items closing n item s hs).Yields as t) :
    ∃ v close, s.advance.tokens = v ++ close :: t.advance.tokens ∧ close.kind = closing ∧
      Listed Item v as := by
  unfold items at h
  split at h
  · next hk =>
    obtain ⟨rfl, rfl⟩ := yields_ok.mp h
    refine ⟨[], s.next, ?_, hk, .none⟩
    rw [TokenStream.advance_tokens_eq_cons (by rw [hk]; exact hclosing)]
    rfl
  · rw [yields_shift, yields_andThen] at h
    obtain ⟨a, u, hu, hfirst, hrest⟩ := h
    obtain ⟨as', hmore, rfl⟩ := yields_map.mp hrest
    obtain ⟨w, hw, hi⟩ := hitem _ _ _ _ hfirst
    obtain ⟨v, close, hv, hk, hsep⟩ := separated_of_moreItems hclosing hitem hmore hi
    refine ⟨w ++ v, close, ?_, hk, .some hsep⟩
    rw [hw, hv]
    simp

theorem isName_of_bareName {s t : TokenStream} {name : String} (h : (bareName s).Yields name t) :
    ∃ w, s.tokens = w ++ t.advance.tokens ∧ IsName w name := by
  unfold bareName at h
  split at h
  · next hk =>
    obtain ⟨rfl, rfl⟩ := yields_here.mp h
    exact ⟨[t.current], TokenStream.tokens_eq_cons (by rw [hk]; decide), .name hk⟩
  · exact absurd h not_yields_failHere

theorem listed_of_parameters {s t : TokenStream} {names : List String}
    (h : (parameters s).Yields names t) :
    ∃ v close, s.advance.tokens = v ++ close :: t.advance.tokens ∧ close.kind = .rightParen ∧
      Listed IsName v names :=
  listed_of_items (by decide) (fun _ _ _ _ h => isName_of_bareName h) h

end Parsed

/-! ### Levels and precedences -/

namespace Grammar

/-- The level of an expression whose operators bind tighter than `p`.  Even the tightest operand
may start with a unary operator. -/
def Level.above : Precedence → Level
  | .lowest => .equality
  | .equality => .order
  | .order => .sum
  | .sum => .product
  | _ => .unary

theorem Level.rank_above_le {p : Precedence} {l : Level} (hp : p.level < l.rank) :
    (Level.above p).rank ≤ l.rank := by
  cases p <;> cases l <;> simp_all [above, rank, Precedence.level]

theorem Level.rank_above_le_unary (p : Precedence) : (Level.above p).rank ≤ Level.unary.rank := by
  cases p <;> decide

theorem Level.rank_call_le {l : Level} (h : Precedence.call.level ≤ l.rank) :
    Level.call.rank ≤ l.rank := by
  cases l <;> simp_all [rank, Precedence.level]

theorem Level.rank_above_le_call (p : Precedence) : (Level.above p).rank ≤ Level.call.rank := by
  cases p <;> decide

theorem level_le_rank_call (p : Precedence) : p.level ≤ Level.call.rank := by
  cases p <;> decide

theorem level_le_rank_primary (p : Precedence) : p.level ≤ Level.primary.rank := by
  cases p <;> decide

/-- A binary operator belongs to the level of its precedence, and its right operand to the level
above. -/
theorem isBinaryOp_of_ofKind? {kind : TokenKind} {op : BinaryOp}
    (h : BinaryOp.ofKind? kind = some op) :
    ∃ l, IsBinaryOp l kind op ∧ l.rank = (Precedence.ofKind kind).level ∧
      Level.above (Precedence.ofKind kind) = l.tighter := by
  cases kind <;> simp only [BinaryOp.ofKind?, Option.some.injEq, reduceCtorEq] at h <;> subst h
  · exact ⟨_, .add, rfl, rfl⟩
  · exact ⟨_, .sub, rfl, rfl⟩
  · exact ⟨_, .mul, rfl, rfl⟩
  · exact ⟨_, .div, rfl, rfl⟩
  · exact ⟨_, .less, rfl, rfl⟩
  · exact ⟨_, .greater, rfl, rfl⟩
  · exact ⟨_, .equal, rfl, rfl⟩
  · exact ⟨_, .notEqual, rfl, rfl⟩

/-- A token that goes on with an expression opens arguments, opens an index or is a binary
operator. -/
theorem ofKind?_ne_none {p : Precedence} {kind : TokenKind} (h : p < Precedence.ofKind kind)
    (hcall : kind ≠ .leftParen) (hindex : kind ≠ .leftBracket) : BinaryOp.ofKind? kind ≠ none := by
  intro hnone
  have hlowest : Precedence.ofKind kind = .lowest := by
    cases kind <;> first | rfl | contradiction
  rw [hlowest] at h
  exact Precedence.not_lt_lowest p h

/-- The stream `s` starts with an operand that has the tree `e` and ends at the current token of
`t`, and the operator that comes next can take it on its left. -/
def Operand (s : TokenStream) (e : Expr) (t : TokenStream) : Prop :=
  ∃ w l, s.tokens = w ++ t.advance.tokens ∧ IsExpr l w e ∧ Level.unary.rank ≤ l.rank ∧
    (Precedence.ofKind t.next.kind).level ≤ l.rank

theorem operand_of_primary {s t : TokenStream} {e : Expr} {w : List Token}
    (hw : s.tokens = w ++ t.advance.tokens) (he : IsExpr .primary w e) : Operand s e t :=
  ⟨w, .primary, hw, he, by decide, level_le_rank_primary _⟩

theorem operand_of_unary {s t : TokenStream} {op : UnaryOp} {e : Expr} {w : List Token}
    (hs : s.tokens = s.current :: s.advance.tokens) (hop : IsUnaryOp s.current.kind op)
    (hw : s.advance.tokens = w ++ t.advance.tokens) (he : IsExpr .unary w e)
    (hstop : ¬ Precedence.unary < Precedence.ofKind t.next.kind) : Operand s (.unary op e) t := by
  refine ⟨s.current :: w, .unary, ?_, .unary hop he, Nat.le_refl _, Nat.le_of_not_lt hstop⟩
  rw [hs, hw]
  rfl

/-- The stream `s` starts with the statement `st`, which ends at the current token of `t`: with its
semicolon, or before a token that does not go on with it. -/
def Statement (s : TokenStream) (st : Stmt) (t : TokenStream) : Prop :=
  ∃ u, IsStmt u st ∧
    ((∃ semicolon : Token, semicolon.kind = .semicolon ∧
        s.tokens = u ++ semicolon :: t.advance.tokens) ∨
      s.tokens = u ++ t.advance.tokens ∧ t.next.kind ∉ continuing)

theorem not_mem_continuing {kind : TokenKind} (h : ¬ Precedence.lowest < Precedence.ofKind kind) :
    kind ∉ continuing := by
  intro hmem
  apply h
  revert hmem
  cases kind <;> decide

/-- A statement ends with the semicolon that comes next, or else where its expression ends. -/
theorem statement_of_skipSemicolon {s t t' : TokenStream} {st st' : Stmt} {u : List Token}
    (hu : s.tokens = u ++ t.advance.tokens) (hst : IsStmt u st)
    (hstop : ¬ Precedence.lowest < Precedence.ofKind t.next.kind)
    (h : (Parsed.skipSemicolon st t).Yields st' t') : Statement s st' t' := by
  obtain ⟨rfl, ⟨hk, rfl⟩ | ⟨-, rfl⟩⟩ := Parsed.yields_skipSemicolon.mp h
  · refine ⟨u, hst, .inl ⟨t.next, hk, ?_⟩⟩
    rw [hu, TokenStream.advance_tokens_eq_cons (by rw [hk]; decide)]
  · exact ⟨u, hst, .inr ⟨hu, not_mem_continuing hstop⟩⟩

/-- A statement and the statements after it are statements in a row. -/
theorem Statement.isStmts_cons {s t : TokenStream} {st : Stmt} {ss : List Stmt}
    {v rest : List Token} (h : Statement s st t) (hv : t.advance.tokens = v ++ rest)
    (hss : IsStmts v ss) : ∃ w, s.tokens = w ++ rest ∧ IsStmts w (st :: ss) := by
  obtain ⟨u, hu, ⟨semicolon, hk, hs⟩ | ⟨hs, hnext⟩⟩ := h
  · exact ⟨u ++ semicolon :: v, by rw [hs, hv]; simp, .closed hu hk hss⟩
  · refine ⟨u ++ v, by rw [hs, hv, List.append_assoc], .unclosed hu ?_ hss⟩
    intro x hx
    cases v with
    | nil => cases hx
    | cons y v =>
        cases hx
        rwa [TokenStream.next, TokenStream.current, hv] at hnext

theorem Statement.tokens_subset {s t : TokenStream} {st : Stmt} (h : Statement s st t) :
    t.advance.tokens ⊆ s.tokens := by
  obtain ⟨u, -, ⟨semicolon, -, hs⟩ | ⟨hs, -⟩⟩ := h
  · rw [hs]
    exact fun x hx => List.mem_append_right _ (List.mem_cons_of_mem _ hx)
  · rw [hs]
    exact List.subset_append_right _ _

end Grammar

/-! ### Expressions and statements -/

open Parsed TokenStream

mutual

/-- What is read at a precedence is of the level above it, and ends before a token that binds no
tighter. -/
theorem Expr.isExpr_of_parse {p : Precedence} {s t : TokenStream} {e : Expr}
    (h : (Expr.parse p s).Yields e t) :
    ∃ w, s.tokens = w ++ t.advance.tokens ∧ IsExpr (Level.above p) w e ∧
      ¬ p < Precedence.ofKind t.next.kind := by
  rw [Expr.parse] at h
  obtain ⟨left, u, hu, hleft, hops⟩ := yields_andThen.mp h
  obtain ⟨w, l, hw, hl, hunary, hnext⟩ := Expr.operand_of_parsePrimary hleft
  have habove := Nat.le_trans (Level.rank_above_le_unary p) hunary
  obtain ⟨v, hv, he, hstop⟩ := Expr.isExpr_of_parseOperators hops hl habove hnext
  exact ⟨w ++ v, by rw [hw, hv, List.append_assoc], he, hstop⟩
termination_by 5 * s.remaining + 2

theorem Expr.isExpr_of_parseOperators {p : Precedence} {left : Expr} {s t : TokenStream} {e : Expr}
    (h : (Expr.parseOperators p left s).Yields e t) {l : Level} {w : List Token}
    (hl : IsExpr l w left) (hp : (Level.above p).rank ≤ l.rank)
    (hnext : (Precedence.ofKind s.next.kind).level ≤ l.rank) :
    ∃ v, s.advance.tokens = v ++ t.advance.tokens ∧ IsExpr (Level.above p) (w ++ v) e ∧
      ¬ p < Precedence.ofKind t.next.kind := by
  rw [Expr.parseOperators] at h
  split at h
  · next hlt =>
    have hne := Precedence.ne_eof_of_lt hlt
    have fewer := s.remaining_advance_advance_lt hne
    have hs := advance_tokens_eq_cons hne
    split at h
    · next hk =>
      rw [yields_shift, yields_andThen] at h
      obtain ⟨arguments, u, hu, hargs, hops⟩ := h
      obtain ⟨v, close, hv, hclose, hlisted⟩ := listed_of_items (by decide)
        (fun _ ht _ _ h => let ⟨w, hw, he, _⟩ := Expr.isExpr_of_parse h; ⟨w, hw, he⟩) hargs
      have hcallee : IsExpr .call w left := hl.loosen (Level.rank_call_le (by rwa [hk] at hnext))
      have hcall := IsExpr.call hcallee hk hlisted hclose
      obtain ⟨v', hv', he, hstop⟩ := Expr.isExpr_of_parseOperators hops hcall
        (Level.rank_above_le_call p) (level_le_rank_call _)
      refine ⟨s.next :: (v ++ [close]) ++ v', ?_, by simpa using he, hstop⟩
      rw [hs, hv, hv']
      simp
    · next hk =>
      rw [yields_shift, yields_shift, yields_andThen] at h
      obtain ⟨position, u, hu, hposition, h⟩ := h
      obtain ⟨_, u', hu', hexpect, hops⟩ := yields_andThen.mp h
      obtain ⟨hclose, rfl⟩ := yields_expect.mp hexpect
      obtain ⟨v, hv, hposition, -⟩ := Expr.isExpr_of_parse hposition
      have hu' := advance_tokens_eq_cons (s := u) (by rw [hclose]; decide)
      have hcollection : IsExpr .call w left := hl.loosen (by rwa [hk] at hnext)
      have hindex := IsExpr.index hcollection hk hposition hclose
      obtain ⟨v', hv', he, hstop⟩ := Expr.isExpr_of_parseOperators hops hindex
        (Level.rank_above_le_call p) (level_le_rank_call _)
      refine ⟨s.next :: (v ++ [u.next]) ++ v', ?_, by simpa using he, hstop⟩
      rw [hs, hv, hu', hv']
      simp
    · next kind hcall hindex =>
      split at h
      · next op hop =>
        rw [yields_shift, yields_shift, yields_andThen] at h
        obtain ⟨right, u, hu, hright, hops⟩ := h
        obtain ⟨l', hop, hrank, hright'⟩ := isBinaryOp_of_ofKind? hop
        obtain ⟨v, hv, hright, hstop⟩ := Expr.isExpr_of_parse hright
        rw [hright'] at hright
        have hbinary := IsExpr.binary hop (hl.loosen (by rwa [hrank])) hright
        -- the right operand ends before a token that binds no tighter than this operator
        obtain ⟨v', hv', he, hstop⟩ := Expr.isExpr_of_parseOperators hops hbinary
          (Level.rank_above_le (by rw [hrank]; exact hlt))
          (by rw [hrank]; exact Nat.le_of_not_lt hstop)
        refine ⟨s.next :: v ++ v', ?_, by simpa using he, hstop⟩
        rw [hs, hv, hv']
        simp
      · next hop => exact absurd hop (ofKind?_ne_none hlt hcall hindex)
  · next hstop =>
    obtain ⟨rfl, rfl⟩ := yields_here.mp h
    exact ⟨[], rfl, by simpa using hl.loosen hp, hstop⟩
termination_by 5 * s.remaining
decreasing_by all_goals ((try simp only [remaining_advance] at *); omega)

theorem Expr.operand_of_parsePrimary {s t : TokenStream} {e : Expr}
    (h : (Expr.parsePrimary s).Yields e t) : Operand s e t := by
  rw [Expr.parsePrimary] at h
  split at h
  · exact absurd h not_yields_failHere
  · next hne =>
    have pos : 0 < s.remaining := remaining_pos hne
    have hs := tokens_eq_cons hne
    split at h
    · next hk =>
      obtain ⟨rfl, rfl⟩ := yields_here.mp h
      exact operand_of_primary hs (.literal (.name hk))
    · next hk =>
      split at h
      · next value hvalue =>
        obtain ⟨rfl, rfl⟩ := yields_here.mp h
        exact operand_of_primary hs (.literal (.integer hk hvalue))
      · exact absurd h not_yields_failHere
    · next hk =>
      obtain ⟨rfl, rfl⟩ := yields_here.mp h
      exact operand_of_primary hs (.literal (.text hk))
    · next hk =>
      obtain ⟨rfl, rfl⟩ := yields_here.mp h
      exact operand_of_primary hs (.literal (.isTrue hk))
    · next hk =>
      obtain ⟨rfl, rfl⟩ := yields_here.mp h
      exact operand_of_primary hs (.literal (.isFalse hk))
    · next hk =>
      rw [yields_shift, yields_map] at h
      obtain ⟨operand, h, rfl⟩ := h
      obtain ⟨w, hw, he, hstop⟩ := Expr.isExpr_of_parse h
      exact operand_of_unary hs (hk ▸ .not) hw he hstop
    · next hk =>
      rw [yields_shift, yields_map] at h
      obtain ⟨operand, h, rfl⟩ := h
      obtain ⟨w, hw, he, hstop⟩ := Expr.isExpr_of_parse h
      exact operand_of_unary hs (hk ▸ .negate) hw he hstop
    · next hk =>
      rw [yields_shift, yields_andThen] at h
      obtain ⟨inner, u, hu, hinner, h⟩ := h
      obtain ⟨_, hexpect, rfl⟩ := yields_map.mp h
      obtain ⟨hclose, rfl⟩ := yields_expect.mp hexpect
      obtain ⟨w, hw, he, -⟩ := Expr.isExpr_of_parse hinner
      have hu' := advance_tokens_eq_cons (s := u) (by rw [hclose]; decide)
      exact operand_of_primary (by rw [hs, hw, hu']; simp) (.group hk he hclose)
    · next hk =>
      rw [yields_shift, yields_andThen] at h
      obtain ⟨condition, u, hu, hcondition, h⟩ := h
      obtain ⟨consequence, u', hu', hbraces, h⟩ := yields_andThen.mp h
      obtain ⟨w, hw, hcondition, -⟩ := Expr.isExpr_of_parse hcondition
      obtain ⟨v, hv, hconsequence⟩ := Stmt.isBlock_of_parseBraces hbraces
      split at h
      · next helse =>
        rw [yields_shift, yields_map] at h
        obtain ⟨alternative, halternative, rfl⟩ := h
        obtain ⟨v', hv', halternative⟩ := Stmt.isBlock_of_parseBraces halternative
        have hu' := advance_tokens_eq_cons (s := u') (by rw [helse]; decide)
        refine operand_of_primary ?_ (.condElse hk hcondition hconsequence helse halternative)
        rw [hs, hw, hv, hu', hv']
        simp
      · obtain ⟨rfl, rfl⟩ := yields_here.mp h
        exact operand_of_primary (by rw [hs, hw, hv]; simp) (.cond hk hcondition hconsequence)
    · next hk =>
      obtain ⟨_, u, hu, hexpect, h⟩ := yields_andThen.mp h
      obtain ⟨hopen, rfl⟩ := yields_expect.mp hexpect
      obtain ⟨parameters, u', hu', hparameters, h⟩ := yields_andThen.mp h
      obtain ⟨body, hbody, rfl⟩ := yields_map.mp h
      obtain ⟨v, close, hv, hclose, hparameters⟩ := listed_of_parameters hparameters
      obtain ⟨w, hw, hbody⟩ := Stmt.isBlock_of_parseBraces hbody
      have hs' := advance_tokens_eq_cons (s := s) (by rw [hopen]; decide)
      refine operand_of_primary ?_ (.function hk hopen hparameters hclose hbody)
      rw [hs, hs', hv, hw]
      simp
    · next hk =>
      obtain ⟨elements, helements, rfl⟩ := yields_map.mp h
      obtain ⟨v, close, hv, hclose, hlisted⟩ := listed_of_items (by decide)
        (fun _ ht _ _ h => let ⟨w, hw, he, _⟩ := Expr.isExpr_of_parse h; ⟨w, hw, he⟩) helements
      exact operand_of_primary (by rw [hs, hv]; simp) (.array hk hlisted hclose)
    · next hk =>
      obtain ⟨pairs, hpairs, rfl⟩ := yields_map.mp h
      obtain ⟨v, close, hv, hclose, hlisted⟩ := listed_of_items (by decide)
        (fun _ ht _ _ h => Expr.isPair_of_parsePair h) hpairs
      exact operand_of_primary (by rw [hs, hv]; simp) (.hash hk hlisted hclose)
    · exact absurd h not_yields_failHere
termination_by 5 * s.remaining + 1
decreasing_by all_goals ((try simp only [remaining_advance] at *); omega)

theorem Expr.isPair_of_parsePair {s t : TokenStream} {pair : Expr × Expr}
    (h : (Expr.parsePair s).Yields pair t) :
    ∃ w, s.tokens = w ++ t.advance.tokens ∧ IsPair w pair := by
  rw [Expr.parsePair] at h
  obtain ⟨key, u, hu, hkey, h⟩ := yields_andThen.mp h
  obtain ⟨_, u', hu', hexpect, h⟩ := yields_andThen.mp h
  obtain ⟨hcolon, rfl⟩ := yields_expect.mp hexpect
  rw [yields_shift, yields_map] at h
  obtain ⟨value, hvalue, rfl⟩ := h
  obtain ⟨w, hw, hkey, -⟩ := Expr.isExpr_of_parse hkey
  obtain ⟨w', hw', hvalue, -⟩ := Expr.isExpr_of_parse hvalue
  refine ⟨w ++ u.next :: w', ?_, .pair hkey hcolon hvalue⟩
  rw [hw, advance_tokens_eq_cons (s := u) (by rw [hcolon]; decide), hw']
  simp
termination_by 5 * s.remaining + 3
decreasing_by all_goals ((try simp only [remaining_advance] at *); omega)

/-- A block is read with its braces. -/
theorem Stmt.isBlock_of_parseBraces {s t : TokenStream} {body : Block}
    (h : (Stmt.parseBraces s).Yields body t) :
    ∃ w, s.advance.tokens = w ++ t.advance.tokens ∧ IsBlock w body := by
  rw [Stmt.parseBraces] at h
  obtain ⟨_, u, hu, hexpect, h⟩ := yields_andThen.mp h
  obtain ⟨hopen, rfl⟩ := yields_expect.mp hexpect
  obtain ⟨w, close, hw, hclose, hbody⟩ := Stmt.isStmts_of_parseBlock (yields_shift.mp h)
  have hs := advance_tokens_eq_cons (s := s) (by rw [hopen]; decide)
  exact ⟨_, by rw [hs, hw]; simp, .block hopen hbody hclose⟩
termination_by 5 * s.advance.remaining + 5
decreasing_by all_goals ((try simp only [remaining_advance] at *); omega)

theorem Stmt.isStmts_of_parseBlock {s t : TokenStream} {body : Block}
    (h : (Stmt.parseBlock s).Yields body t) :
    ∃ w close, s.tokens = w ++ close :: t.advance.tokens ∧ close.kind = .rightBrace ∧
      IsStmts w body := by
  rw [Stmt.parseBlock] at h
  split at h
  · next hk =>
    obtain ⟨rfl, rfl⟩ := yields_here.mp h
    exact ⟨[], t.current, tokens_eq_cons (by rw [hk]; decide), hk, .nil⟩
  · split at h
    · exact absurd (yields_after.mp h).1 (by simp)
    · next hne =>
      have pos : 0 < s.remaining := remaining_pos hne
      obtain ⟨hrecorded, h⟩ := yields_resume.mp h
      split at h
      · next st u hu hst =>
        rw [yields_shift, yields_map] at h
        obtain ⟨ss, hss, rfl⟩ := h
        have hle := (Stmt.parse s).remaining_le
        obtain ⟨v, close, hv, hclose, hss⟩ := Stmt.isStmts_of_parseBlock hss
        have hst := Stmt.statement_of_parse ⟨hst, hrecorded, rfl⟩
        obtain ⟨w, hw, hstmts⟩ := hst.isStmts_cons hv hss
        exact ⟨w, close, hw, hclose, hstmts⟩
      · exact absurd (yields_after.mp h).1 (by simp)
termination_by 5 * s.remaining + 4
decreasing_by all_goals ((try simp only [remaining_advance] at *); omega)

/-- A statement is read with its semicolon. -/
theorem Stmt.statement_of_parse {s t : TokenStream} {st : Stmt} (h : (Stmt.parse s).Yields st t) :
    Statement s st t := by
  rw [Stmt.parse] at h
  split at h
  · next hk =>
    have pos : 0 < s.remaining := remaining_pos (by rw [hk]; decide)
    obtain ⟨_, u, hu, hexpect, h⟩ := yields_andThen.mp h
    obtain ⟨hname, rfl⟩ := yields_expect.mp hexpect
    obtain ⟨_, u', hu', hexpect', h⟩ := yields_andThen.mp h
    obtain ⟨hassign, rfl⟩ := yields_expect.mp hexpect'
    rw [yields_shift, yields_andThen] at h
    obtain ⟨value, u, hu, hvalue, h⟩ := h
    obtain ⟨w, hw, hvalue, hstop⟩ := Expr.isExpr_of_parse hvalue
    refine statement_of_skipSemicolon ?_ (.bind hk hname hassign hvalue) hstop h
    have hs := tokens_eq_cons (s := s) (by rw [hk]; decide)
    have hs₁ := advance_tokens_eq_cons (s := s) (by rw [hname]; decide)
    have hs₂ := advance_tokens_eq_cons (s := s.advance) (by rw [hassign]; decide)
    rw [hs, hs₁, hs₂, hw]
    rfl
  · split at h
    · next hk =>
      have pos : 0 < s.remaining := remaining_pos (by rw [hk]; decide)
      rw [yields_shift, yields_andThen] at h
      obtain ⟨value, u, hu, hvalue, h⟩ := h
      obtain ⟨w, hw, hvalue, hstop⟩ := Expr.isExpr_of_parse hvalue
      refine statement_of_skipSemicolon ?_ (.return hk hvalue) hstop h
      rw [tokens_eq_cons (s := s) (by rw [hk]; decide), hw]
      rfl
    · obtain ⟨value, u, hu, hvalue, h⟩ := yields_andThen.mp h
      obtain ⟨w, hw, hvalue, hstop⟩ := Expr.isExpr_of_parse hvalue
      exact statement_of_skipSemicolon hw (.expr hvalue) hstop h
termination_by 5 * s.remaining + 3
decreasing_by all_goals ((try simp only [remaining_advance] at *); omega)

end

/-! ### Programs -/

/-- Statements are read one after the other, each from the token after the last one. -/
theorem parseProgram_of_ne_eof {s : TokenStream} (h : s.current.kind ≠ .eof) :
    parseProgram s =
      match (Stmt.parse s).outcome with
      | .ok st =>
        ⟨st :: (parseProgram (Stmt.parse s).stop.advance).program,
          (Stmt.parse s).recorded ++ (parseProgram (Stmt.parse s).stop.advance).errors⟩
      | .error e =>
        ⟨(parseProgram (Stmt.parse s).stop.advance).program,
          (Stmt.parse s).recorded ++ e :: (parseProgram (Stmt.parse s).stop.advance).errors⟩ := by
  rw [parseProgram]
  exact dif_neg h

/-- Tokens that are read without an error form a program. -/
theorem isProgram_of_errors_eq_nil {s : TokenStream} (hs : ∀ t ∈ s.tokens, t.kind ≠ .eof)
    (h : (parseProgram s).errors = []) : IsProgram s.tokens (parseProgram s).program := by
  by_cases hk : s.current.kind = .eof
  · have hnil : s.tokens = [] := by
      cases hts : s.tokens with
      | nil => rfl
      | cons t ts =>
          rw [current_eq hts] at hk
          exact absurd hk (hs t (by simp [hts]))
    rw [hnil, parseProgram, dif_pos hk]
    exact .nil
  · have hle := (Stmt.parse s).remaining_le
    have pos := remaining_pos hk
    rw [parseProgram_of_ne_eof hk] at h ⊢
    cases hst : (Stmt.parse s).outcome with
    | error e =>
        rw [hst] at h
        simp at h
    | ok st =>
        rw [hst] at h
        obtain ⟨hrecorded, hrest⟩ := List.append_eq_nil_iff.mp h
        have hst := Stmt.statement_of_parse ⟨hst, hrecorded, rfl⟩
        have hss := isProgram_of_errors_eq_nil
          (fun t ht => hs t (hst.tokens_subset ht)) hrest
        obtain ⟨w, hw, hprogram⟩ := hst.isStmts_cons (List.append_nil _).symm hss
        rw [hw, List.append_nil]
        exact hprogram
termination_by s.remaining
decreasing_by rw [remaining_advance]; omega

end Marmoset
