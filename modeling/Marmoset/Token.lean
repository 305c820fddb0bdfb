/-! # Tokens

The tokens of the language.  `TokenKind` lists the kinds, `TokenKind.label` is the name under which
a kind appears in messages, and `Token` is a kind with its literal and the line it starts on.

The line of a token is a diagnostic: `Token.same` compares kind and literal only. -/

namespace Marmoset

/-- The kinds of lexical items, the ones between tokens included. -/
inductive TokenKind where
  | illegal | eof
  | name | integer | text
  | assign | plus | minus | bang | star | slash | less | greater | equal | notEqual
  | comma | semicolon | colon
  | leftParen | rightParen | leftBrace | rightBrace | leftBracket | rightBracket
  | fnWord | letWord | trueWord | falseWord | ifWord | elseWord | returnWord
  | comment | newline | blank
deriving DecidableEq, Repr

namespace TokenKind

/-- Every kind, in the order of declaration. -/
def all : List TokenKind :=
  [illegal, eof, name, integer, text, assign, plus, minus, bang, star, slash, less, greater, equal,
    notEqual, comma, semicolon, colon, leftParen, rightParen, leftBrace, rightBrace, leftBracket,
    rightBracket, fnWord, letWord, trueWord, falseWord, ifWord, elseWord, returnWord, comment,
    newline, blank]

/-- The name of a kind in messages: symbols stand for themselves, classes of tokens are in
capitals. -/
def label : TokenKind → String
  | illegal => "ILLEGAL"
  | eof => "EOF"
  | name => "IDENT"
  | integer => "INT"
  | text => "STRING"
  | assign => "="
  | plus => "+"
  | minus => "-"
  | bang => "!"
  | star => "*"
  | slash => "/"
  | less => "<"
  | greater => ">"
  | equal => "=="
  | notEqual => "!="
  | comma => ","
  | semicolon => ";"
  | colon => ":"
  | leftParen => "("
  | rightParen => ")"
  | leftBrace => "\x7b"
  | rightBrace => "\x7d"
  | leftBracket => "["
  | rightBracket => "]"
  | fnWord => "FUNCTION"
  | letWord => "LET"
  | trueWord => "TRUE"
  | falseWord => "FALSE"
  | ifWord => "IF"
  | elseWord => "ELSE"
  | returnWord => "RETURN"
  | comment => "COMMENT"
  | newline => "NEWLINE"
  | blank => "WHITESPACE"

/-- The kind with a given label. -/
def ofLabel? (label : String) : Option TokenKind :=
  all.find? fun kind => kind.label == label

/-- The kinds that separate tokens and are never tokens themselves. -/
def isSpace : TokenKind → Bool
  | comment | newline | blank => true
  | _ => false

theorem mem_all (kind : TokenKind) : kind ∈ all := by
  cases kind <;> decide

end TokenKind

/-- A token: its kind, its literal (a text without its quotes, otherwise the source text) and the
line it starts on. -/
structure Token where
  kind : TokenKind
  literal : String
  line : Nat
deriving DecidableEq, Repr

namespace Token

/-- Equality of tokens up to their line. -/
def same (a b : Token) : Bool :=
  a.kind == b.kind && a.literal == b.literal

/-- The token that stands for the end of the input. -/
def atEnd (line : Nat) : Token :=
  ⟨.eof, "", line⟩

theorem same_iff {a b : Token} : a.same b = true ↔ a.kind = b.kind ∧ a.literal = b.literal := by
  simp [same]

end Token

end Marmoset
