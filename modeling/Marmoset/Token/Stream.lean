import Marmoset.Token.Lexeme

/-! # Token streams

A `TokenStream` is a finite list of tokens followed by end-of-input tokens without end.  Readers
look at the current token and at the one after it (`current`, `next`) and move on (`advance`); at
the end the stream stays where it is.  `remaining` counts the tokens that are left, which is what
the recursion of every reader goes down on. -/

namespace Marmoset

/-- Tokens to be read, and the line that the end of the input is on. -/
structure TokenStream where
  tokens : List Token
  endLine : Nat
deriving DecidableEq, Repr

namespace TokenStream

/-- The tokens of a source text.  The end is on the line after the last line feed. -/
def ofSource (source : String) : TokenStream :=
  ⟨tokensFrom 1 (lexemes source.toList), 1 + source.toList.count '\n'⟩

/-- A stream of given tokens.  The end is on the line of the last token, or on line 1. -/
def ofTokens (tokens : List Token) : TokenStream :=
  ⟨tokens, (tokens.getLast?.map Token.line).getD 1⟩

/-- The token to be read now. -/
def current (s : TokenStream) : Token :=
  s.tokens.headD (Token.atEnd s.endLine)

/-- The stream after its current token. -/
def advance (s : TokenStream) : TokenStream :=
  { s with tokens := s.tokens.tail }

/-- The token after the current one. -/
def next (s : TokenStream) : Token :=
  s.advance.current

/-- The number of tokens before the end. -/
def remaining (s : TokenStream) : Nat :=
  s.tokens.length

/-- The first `n` tokens, end-of-input tokens included. -/
def read : Nat → TokenStream → List Token
  | 0, _ => []
  | n + 1, s => s.current :: read n s.advance

/-! ### Counting -/

@[simp] theorem remaining_advance (s : TokenStream) : s.advance.remaining = s.remaining - 1 := by
  simp [remaining, advance]

theorem remaining_advance_le (s : TokenStream) : s.advance.remaining ≤ s.remaining := by
  rw [remaining_advance]
  exact Nat.sub_le _ _

theorem remaining_advance_lt {s : TokenStream} (h : 0 < s.remaining) :
    s.advance.remaining < s.remaining := by
  rw [remaining_advance]
  omega

/-- A current token other than the end is one of the tokens. -/
theorem remaining_pos {s : TokenStream} (h : s.current.kind ≠ .eof) : 0 < s.remaining := by
  cases ht : s.tokens with
  | nil => simp [current, ht, Token.atEnd] at h
  | cons t ts => simp [remaining, ht]

/-- A next token other than the end has a token before it. -/
theorem one_lt_remaining {s : TokenStream} (h : s.next.kind ≠ .eof) : 1 < s.remaining := by
  have := remaining_pos (s := s.advance) h
  rw [remaining_advance] at this
  omega

theorem remaining_advance_advance_lt (s : TokenStream) (h : s.next.kind ≠ .eof) :
    s.advance.advance.remaining < s.remaining := by
  have := one_lt_remaining h
  rw [remaining_advance, remaining_advance]
  omega

end TokenStream

end Marmoset
