import Marmoset.Token

/-! # Lexemes

A source text is cut into lexemes without losing a character: `Lexeme.first` takes the longest
lexeme at the front of a text, `lexemes` repeats it to the end.  The white space and the comments
between tokens are lexemes too, so the pieces join up to the source again (`text_lexemes`).
`tokensFrom` numbers the lines and keeps the tokens.

## Character classes

* a name starts with a letter or `_` and goes on with letters, digits and `_`; all of them ASCII;
* blanks are space, tab, carriage return and form feed; the line feed is a lexeme of its own;
* a text runs from one quote to the next, over line feeds as well; without a closing quote the rest
  of the source is one illegal lexeme;
* any other character that starts nothing is an illegal lexeme by itself. -/

namespace Marmoset

/-- A piece of source text with the kind of thing it is. -/
structure Lexeme where
  kind : TokenKind
  text : List Char
deriving DecidableEq, Repr

/-! ### Character classes -/

def isNameStart (c : Char) : Bool :=
  c.isAlpha || c == '_'

def isNameChar (c : Char) : Bool :=
  c.isAlphanum || c == '_'

def isBlank (c : Char) : Bool :=
  c == ' ' || c == '\t' || c == '\r' || c == '\x0c'

def isNotQuote (c : Char) : Bool :=
  c != '"'

def isNotLineFeed (c : Char) : Bool :=
  c != '\n'

/-- A whole word is a keyword or a name. -/
def wordKind : List Char → TokenKind
  | ['f', 'n'] => .fnWord
  | ['l', 'e', 't'] => .letWord
  | ['t', 'r', 'u', 'e'] => .trueWord
  | ['f', 'a', 'l', 's', 'e'] => .falseWord
  | ['i', 'f'] => .ifWord
  | ['e', 'l', 's', 'e'] => .elseWord
  | ['r', 'e', 't', 'u', 'r', 'n'] => .returnWord
  | _ => .name

/-- The kind of a character that stands alone. -/
def symbolKind : Char → TokenKind
  | '=' => .assign
  | '+' => .plus
  | '-' => .minus
  | '!' => .bang
  | '*' => .star
  | '/' => .slash
  | '<' => .less
  | '>' => .greater
  | ',' => .comma
  | ';' => .semicolon
  | ':' => .colon
  | '(' => .leftParen
  | ')' => .rightParen
  | '{' => .leftBrace
  | '}' => .rightBrace
  | '[' => .leftBracket
  | ']' => .rightBracket
  | '\n' => .newline
  | _ => .illegal

/-! ### Cutting -/

namespace Lexeme

/-- A lexeme made of `c` and the longest run of characters in a class, with what follows it. -/
def run (kindOf : List Char → TokenKind) (inClass : Char → Bool) (c : Char) (rest : List Char) :
    Lexeme × List Char :=
  let text := c :: rest.takeWhile inClass
  (⟨kindOf text, text⟩, rest.dropWhile inClass)

/-- The lexeme that starts with a quote. -/
def quoted (rest : List Char) : Lexeme × List Char :=
  match rest.dropWhile isNotQuote with
  | [] => (⟨.illegal, '"' :: rest⟩, [])
  | close :: after => (⟨.text, '"' :: (rest.takeWhile isNotQuote ++ [close])⟩, after)

/-- The lexeme that starts with a symbol: one of the two-character symbols, a comment, or the
symbol by itself. -/
def symbol (c : Char) (rest : List Char) : Lexeme × List Char :=
  match c, rest with
  | '=', '=' :: after => (⟨.equal, ['=', '=']⟩, after)
  | '!', '=' :: after => (⟨.notEqual, ['!', '=']⟩, after)
  | '/', '/' :: after =>
    (⟨.comment, '/' :: '/' :: after.takeWhile isNotLineFeed⟩, after.dropWhile isNotLineFeed)
  | c, rest => (⟨symbolKind c, [c]⟩, rest)

/-- The longest lexeme at the front of `c :: rest`, with what follows it. -/
def first (c : Char) (rest : List Char) : Lexeme × List Char :=
  if isNameStart c then run wordKind isNameChar c rest
  else if c.isDigit then run (fun _ => .integer) Char.isDigit c rest
  else if isBlank c then run (fun _ => .blank) isBlank c rest
  else if c == '"' then quoted rest
  else symbol c rest

/-- The literal of a lexeme: the quotes of a text are left out. -/
def literal (l : Lexeme) : String :=
  match l.kind with
  | .text => String.ofList l.text.tail.dropLast
  | _ => String.ofList l.text

/-- The number of line feeds in a lexeme. -/
def lineFeeds (l : Lexeme) : Nat :=
  l.text.count '\n'

/-- The token a lexeme stands for when it starts on the given line. -/
def toToken (l : Lexeme) (line : Nat) : Token :=
  ⟨l.kind, l.literal, line⟩

/-! ### Nothing is lost -/

theorem text_run (kindOf : List Char → TokenKind) (inClass : Char → Bool) (c : Char)
    (rest : List Char) :
    (run kindOf inClass c rest).1.text ++ (run kindOf inClass c rest).2 = c :: rest := by
  simp [run]

theorem text_quoted (rest : List Char) :
    (quoted rest).1.text ++ (quoted rest).2 = '"' :: rest := by
  unfold quoted
  split
  · simp
  · next close after h =>
    have split_rest := List.takeWhile_append_dropWhile (p := isNotQuote) (l := rest)
    rw [h] at split_rest
    simpa using split_rest

theorem text_symbol (c : Char) (rest : List Char) :
    (symbol c rest).1.text ++ (symbol c rest).2 = c :: rest := by
  unfold symbol
  split <;> simp

/-- The first lexeme and what follows it make up the text. -/
theorem text_first (c : Char) (rest : List Char) :
    (first c rest).1.text ++ (first c rest).2 = c :: rest := by
  unfold first
  split
  · exact text_run ..
  split
  · exact text_run ..
  split
  · exact text_run ..
  split
  · next h => rw [text_quoted, eq_of_beq h]
  · exact text_symbol ..

/-- A lexeme is never empty. -/
theorem text_first_ne_nil (c : Char) (rest : List Char) : (first c rest).1.text ≠ [] := by
  unfold first run quoted symbol
  repeat' split
  all_goals simp

theorem length_first_lt (c : Char) (rest : List Char) :
    (first c rest).2.length < (c :: rest).length := by
  have whole := congrArg List.length (text_first c rest)
  have nonempty := List.length_pos_iff.mpr (text_first_ne_nil c rest)
  rw [List.length_append] at whole
  omega

end Lexeme

/-- The lexemes of a text, from left to right. -/
def lexemes : List Char → List Lexeme
  | [] => []
  | c :: rest => (Lexeme.first c rest).1 :: lexemes (Lexeme.first c rest).2
termination_by text => text.length
decreasing_by exact Lexeme.length_first_lt c rest

/-- The lexemes of a text join up to the text. -/
theorem text_lexemes (text : List Char) : (lexemes text).flatMap Lexeme.text = text := by
  fun_induction lexemes text with
  | case1 => rfl
  | case2 c rest ih => rw [List.flatMap_cons, ih, Lexeme.text_first]

/-- The tokens among the lexemes of a text that starts on the given line. -/
def tokensFrom : Nat → List Lexeme → List Token
  | _, [] => []
  | line, l :: ls =>
    if l.kind.isSpace then tokensFrom (line + l.lineFeeds) ls
    else l.toToken line :: tokensFrom (line + l.lineFeeds) ls

end Marmoset
