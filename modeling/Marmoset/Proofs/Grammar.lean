import Marmoset.Integer
import Marmoset.Program.Basic

/-! # The grammar

What the token lists of programs look like, and which tree each of them stands for, said without
the parser.  `IsExpr l w e` says that the tokens `w` form an expression of level `l` with the tree
`e`; `IsStmts w ss` says that `w` is a sequence of statements with the trees `ss`, and a program is
such a sequence.

Expressions come in levels.  From the loosest to the tightest these are the four levels of binary
operators, the unary operators, calls and indexing, and the primaries.  A binary operator has an
expression of its own level on the left and one of the next level on the right, so operators of one
level group to the left.

Statements need no semicolon, but one without it must not be followed by a token that would go on
with its expression (`continuing`). -/

namespace Marmoset
namespace Grammar

/-! ### Levels and operators -/

/-- The levels of expressions, from the loosest to the tightest. -/
inductive Level where
  | equality | order | sum | product | unary | call | primary
deriving DecidableEq, Repr

namespace Level

/-- The level above; nothing is above the primaries. -/
def tighter : Level → Level
  | equality => order
  | order => sum
  | sum => product
  | product => unary
  | unary => call
  | call | primary => primary

/-- The place of a level among the precedences of tokens: calls and indexing are one level, and a
primary is above them. -/
def rank : Level → Nat
  | equality => 1
  | order => 2
  | sum => 3
  | product => 4
  | unary => 5
  | call => 7
  | primary => 8

end Level

/-- The binary operators of each level and the tokens they are written with. -/
inductive IsBinaryOp : Level → TokenKind → BinaryOp → Prop
  | equal : IsBinaryOp .equality .equal .equal
  | notEqual : IsBinaryOp .equality .notEqual .notEqual
  | less : IsBinaryOp .order .less .less
  | greater : IsBinaryOp .order .greater .greater
  | add : IsBinaryOp .sum .plus .add
  | sub : IsBinaryOp .sum .minus .sub
  | mul : IsBinaryOp .product .star .mul
  | div : IsBinaryOp .product .slash .div

/-- The unary operators and the tokens they are written with. -/
inductive IsUnaryOp : TokenKind → UnaryOp → Prop
  | not : IsUnaryOp .bang .not
  | negate : IsUnaryOp .minus .negate

/-- The tokens that go on with an expression. -/
def continuing : List TokenKind :=
  [.equal, .notEqual, .less, .greater, .plus, .minus, .star, .slash, .leftParen, .leftBracket]

/-! ### Lists -/

/-- One or more items with commas between them. -/
inductive Separated {α : Type} (Item : List Token → α → Prop) : List Token → List α → Prop
  | one {w : List Token} {a : α} : Item w a → Separated Item w [a]
  | more {w v : List Token} {comma : Token} {a : α} {as : List α} :
      Item w a → comma.kind = .comma → Separated Item v as →
      Separated Item (w ++ comma :: v) (a :: as)

/-- Any number of items with commas between them and none after the last. -/
inductive Listed {α : Type} (Item : List Token → α → Prop) : List Token → List α → Prop
  | none : Listed Item [] []
  | some {w : List Token} {as : List α} : Separated Item w as → Listed Item w as

/-! ### Single tokens -/

/-- A name by itself, as in a parameter list. -/
inductive IsName : List Token → String → Prop
  | name {t : Token} : t.kind = .name → IsName [t] t.literal

/-- The tokens that are an expression by themselves.  An integer has to be in range. -/
inductive IsLiteral : Token → Expr → Prop
  | name {t : Token} : t.kind = .name → IsLiteral t (.name t.literal)
  | integer {t : Token} {n : Int64} :
      t.kind = .integer → Integer.ofText? t.literal = some n → IsLiteral t (.integer n)
  | text {t : Token} : t.kind = .text → IsLiteral t (.text t.literal)
  | isTrue {t : Token} : t.kind = .trueWord → IsLiteral t (.boolean true)
  | isFalse {t : Token} : t.kind = .falseWord → IsLiteral t (.boolean false)

/-! ### Expressions and statements -/

mutual

/-- The tokens form an expression of the level, with the given tree. -/
inductive IsExpr : Level → List Token → Expr → Prop
  /-- An expression is also one of every looser level. -/
  | tighter {l : Level} {w : List Token} {e : Expr} :
      l ≠ .primary → IsExpr l.tighter w e → IsExpr l w e
  | binary {l : Level} {u v : List Token} {t : Token} {op : BinaryOp} {a b : Expr} :
      IsBinaryOp l t.kind op → IsExpr l u a → IsExpr l.tighter v b →
      IsExpr l (u ++ t :: v) (.binary op a b)
  | unary {w : List Token} {t : Token} {op : UnaryOp} {e : Expr} :
      IsUnaryOp t.kind op → IsExpr .unary w e → IsExpr .unary (t :: w) (.unary op e)
  | call {u v : List Token} {opening closing : Token} {f : Expr} {arguments : List Expr} :
      IsExpr .call u f → opening.kind = .leftParen → Listed (IsExpr .equality) v arguments →
      closing.kind = .rightParen →
      IsExpr .call (u ++ opening :: (v ++ [closing])) (.call f arguments)
  | index {u v : List Token} {opening closing : Token} {a i : Expr} :
      IsExpr .call u a → opening.kind = .leftBracket → IsExpr .equality v i →
      closing.kind = .rightBracket →
      IsExpr .call (u ++ opening :: (v ++ [closing])) (.index a i)
  | literal {t : Token} {e : Expr} : IsLiteral t e → IsExpr .primary [t] e
  | group {w : List Token} {opening closing : Token} {e : Expr} :
      opening.kind = .leftParen → IsExpr .equality w e → closing.kind = .rightParen →
      IsExpr .primary (opening :: (w ++ [closing])) e
  | cond {u v : List Token} {t : Token} {c : Expr} {consequence : Block} :
      t.kind = .ifWord → IsExpr .equality u c → IsBlock v consequence →
      IsExpr .primary (t :: (u ++ v)) (.cond c consequence none)
  | condElse {u v v' : List Token} {t t' : Token} {c : Expr} {consequence alternative : Block} :
      t.kind = .ifWord → IsExpr .equality u c → IsBlock v consequence →
      t'.kind = .elseWord → IsBlock v' alternative →
      IsExpr .primary (t :: (u ++ (v ++ t' :: v'))) (.cond c consequence (some alternative))
  | function {u v : List Token} {t opening closing : Token} {parameters : List String}
      {body : Block} :
      t.kind = .fnWord → opening.kind = .leftParen → Listed IsName u parameters →
      closing.kind = .rightParen → IsBlock v body →
      IsExpr .primary (t :: opening :: (u ++ closing :: v)) (.function parameters body)
  | array {w : List Token} {opening closing : Token} {elements : List Expr} :
      opening.kind = .leftBracket → Listed (IsExpr .equality) w elements →
      closing.kind = .rightBracket →
      IsExpr .primary (opening :: (w ++ [closing])) (.array elements)
  | hash {w : List Token} {opening closing : Token} {pairs : List (Expr × Expr)} :
      opening.kind = .leftBrace → Listed IsPair w pairs → closing.kind = .rightBrace →
      IsExpr .primary (opening :: (w ++ [closing])) (.hash pairs)

/-- The tokens form an entry of a hash. -/
inductive IsPair : List Token → Expr × Expr → Prop
  | pair {u v : List Token} {t : Token} {key value : Expr} :
      IsExpr .equality u key → t.kind = .colon → IsExpr .equality v value →
      IsPair (u ++ t :: v) (key, value)

/-- The tokens form a block with its braces. -/
inductive IsBlock : List Token → Block → Prop
  | block {w : List Token} {opening closing : Token} {body : List Stmt} :
      opening.kind = .leftBrace → IsStmts w body → closing.kind = .rightBrace →
      IsBlock (opening :: (w ++ [closing])) body

/-- The tokens form a statement without its semicolon. -/
inductive IsStmt : List Token → Stmt → Prop
  | bind {w : List Token} {t name eq : Token} {e : Expr} :
      t.kind = .letWord → name.kind = .name → eq.kind = .assign → IsExpr .equality w e →
      IsStmt (t :: name :: eq :: w) (.bind name.literal e)
  | return {w : List Token} {t : Token} {e : Expr} :
      t.kind = .returnWord → IsExpr .equality w e → IsStmt (t :: w) (.return e)
  | expr {w : List Token} {e : Expr} : IsExpr .equality w e → IsStmt w (.expr e)

/-- The tokens form statements in a row, each with a semicolon or without one. -/
inductive IsStmts : List Token → List Stmt → Prop
  | nil : IsStmts [] []
  | closed {u v : List Token} {t : Token} {s : Stmt} {ss : List Stmt} :
      IsStmt u s → t.kind = .semicolon → IsStmts v ss → IsStmts (u ++ t :: v) (s :: ss)
  | unclosed {u v : List Token} {s : Stmt} {ss : List Stmt} :
      IsStmt u s → (∀ t ∈ v.head?, t.kind ∉ continuing) → IsStmts v ss →
      IsStmts (u ++ v) (s :: ss)

end

/-- The tokens form a program with the given tree. -/
def IsProgram (tokens : List Token) (program : Program) : Prop :=
  IsStmts tokens program

/-! ### Looser levels -/

theorem Level.rank_pos (l : Level) : 0 < l.rank := by
  cases l <;> decide

theorem Level.rank_lt_nine (l : Level) : l.rank < 9 := by
  cases l <;> decide

theorem Level.rank_tighter_le {l m : Level} (h : l.rank < m.rank) : l.tighter.rank ≤ m.rank := by
  cases l <;> cases m <;> simp_all [rank, tighter]

theorem Level.rank_lt_tighter {l : Level} (h : l ≠ .primary) : l.rank < l.tighter.rank := by
  cases l <;> simp_all [rank, tighter]

theorem Level.rank_injective {l m : Level} (h : l.rank = m.rank) : l = m := by
  cases l <;> cases m <;> simp_all [rank]

/-- An expression of a level is one of every looser level. -/
theorem IsExpr.loosen {l m : Level} {w : List Token} {e : Expr} (h : IsExpr m w e)
    (hlm : l.rank ≤ m.rank) : IsExpr l w e := by
  by_cases hr : l.rank = m.rank
  · rw [Level.rank_injective hr]
    exact h
  · have hlt : l.rank < m.rank := by omega
    have hl : l ≠ .primary := by
      rintro rfl
      cases m <;> simp [Level.rank] at hlt
    have := Level.rank_lt_tighter hl
    exact .tighter hl (h.loosen (Level.rank_tighter_le hlt))
termination_by m.rank - l.rank

/-! ### First tokens -/

/-- The tokens that an expression can start with. -/
def starting : List TokenKind :=
  [.name, .integer, .text, .trueWord, .falseWord, .bang, .minus, .leftParen, .ifWord, .fnWord,
    .leftBracket, .leftBrace]

/-- An expression has a first token, and it is a starting one. -/
theorem IsExpr.head {l : Level} {w : List Token} {e : Expr} (h : IsExpr l w e) :
    ∃ t v, w = t :: v ∧ t.kind ∈ starting := by
  match h with
  | .tighter _ h => exact h.head
  | .binary _ h _ =>
      obtain ⟨t, v, rfl, ht⟩ := h.head
      exact ⟨t, _, rfl, ht⟩
  | .call h _ _ _ =>
      obtain ⟨t, v, rfl, ht⟩ := h.head
      exact ⟨t, _, rfl, ht⟩
  | .index h _ _ _ =>
      obtain ⟨t, v, rfl, ht⟩ := h.head
      exact ⟨t, _, rfl, ht⟩
  | .unary hop _ =>
      refine ⟨_, _, rfl, ?_⟩
      generalize hk : Token.kind _ = kind at hop
      cases hop <;> simp [starting]
  | .literal h => exact ⟨_, _, rfl, by cases h <;> simp [starting, *]⟩
  | .group h _ _ | .cond h _ _ | .condElse h _ _ _ _ | .function h _ _ _ _ | .array h _ _ | .hash h _ _ =>
      exact ⟨_, _, rfl, by simp [h, starting]⟩

/-- A statement has a first token: `let`, `return` or the start of an expression. -/
theorem IsStmt.head {w : List Token} {s : Stmt} (h : IsStmt w s) :
    ∃ t v, w = t :: v ∧ t.kind ∈ .letWord :: .returnWord :: starting := by
  cases h with
  | bind h | «return» h => exact ⟨_, _, rfl, by simp [h]⟩
  | expr h =>
      obtain ⟨t, v, rfl, ht⟩ := h.head
      exact ⟨t, v, rfl, by simp [ht]⟩

theorem IsStmt.length_pos {w : List Token} {s : Stmt} (h : IsStmt w s) : 0 < w.length := by
  obtain ⟨t, v, rfl, -⟩ := h.head
  exact Nat.succ_pos _

end Grammar
end Marmoset
