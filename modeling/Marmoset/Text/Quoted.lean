import Marmoset.Text.Unprinted

/-! # Quoted text

`quoted` writes a text between quotes on one line.  Quotes and backslashes get a backslash, the
common control characters their letter, and other characters without a printed form are written by
number. -/

namespace Marmoset

/-- A character by its number, in hexadecimal digits between braces. -/
def numbered (c : Char) : String :=
  "\\u\x7b" ++ String.ofList (Nat.toDigits 16 c.toNat) ++ "\x7d"

/-- A character as it stands between quotes. -/
def escaped (c : Char) : String :=
  if c = '\x00' then "\\0"
  else if c = '\t' then "\\t"
  else if c = '\r' then "\\r"
  else if c = '\n' then "\\n"
  else if c = '\\' then "\\\\"
  else if c = '"' then "\\\""
  else if isUnprinted c then numbered c
  else String.singleton c

/-- A text between quotes. -/
def quoted (s : String) : String :=
  "\"" ++ String.join (s.toList.map escaped) ++ "\""

end Marmoset
