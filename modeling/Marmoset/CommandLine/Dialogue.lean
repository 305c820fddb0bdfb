import Marmoset.Session
import Marmoset.Text.Trim

/-! # Dialogues

A dialogue reads lines and runs each in the same scope.  `Dialogue.reply` is the answer to one line,
`Dialogue.turn` says whether there is one, and `Dialogue.transcript` is what a whole input leads to.
A dialogue ends at the end of the input, at a line `.quit`, and at a line that is not UTF-8; nothing
after that line is looked at. -/

namespace Marmoset

/-- How the program ends and what it has written. -/
structure Exit where
  code : Nat
  output : String
  errors : String
deriving DecidableEq, Repr

/-- The scope and the store that the lines of a dialogue share. -/
structure Dialogue where
  scope : Scope
  store : Store

namespace Dialogue

/-- The text in front of each line. -/
def prompt : String :=
  ">> "

/-- The line that ends a dialogue. -/
def quitLine : String :=
  ".quit"

/-- The message about a line that is not UTF-8. -/
def notUtf8 : String :=
  "stream did not contain valid UTF-8\n"

/-- Nothing has been said. -/
def start : Dialogue :=
  let (scope, store) := Store.empty.newScope
  ⟨scope, store⟩

/-- How the result of a line is shown. -/
def shown : Except (List ParseError) (Option Value) → String
  | .ok none => ""
  | .ok (some value) => value.render ++ "\n"
  | .error errors =>
    "parser errors:\n" ++ String.join (errors.map fun e => "\t" ++ e.message ++ "\n")

/-- The answer to a line: what it prints, then its result. -/
def reply (d : Dialogue) (line : String) : String × Dialogue :=
  let (result, store) := runSource 0 d.scope line d.store
  let (printed, store) := store.takeOutput
  (printed ++ shown result, { d with store := store })

/-! ### Lines of bytes -/

def isNotFeed (b : UInt8) : Bool :=
  b != 10

/-- The bytes up to the first line feed, that included, and the ones after it. -/
def cutLine (bytes : List UInt8) : List UInt8 × List UInt8 :=
  match bytes.dropWhile isNotFeed with
  | [] => (bytes, [])
  | feed :: rest => (bytes.takeWhile isNotFeed ++ [feed], rest)

theorem append_cutLine (bytes : List UInt8) : (cutLine bytes).1 ++ (cutLine bytes).2 = bytes := by
  unfold cutLine
  split
  · simp
  · next feed rest h =>
    have parts := List.takeWhile_append_dropWhile (p := isNotFeed) (l := bytes)
    rw [h] at parts
    simpa using parts

theorem cutLine_ne_nil (b : UInt8) (bs : List UInt8) : (cutLine (b :: bs)).1 ≠ [] := by
  unfold cutLine
  split <;> simp

theorem length_cutLine (b : UInt8) (bs : List UInt8) :
    (cutLine (b :: bs)).2.length < (b :: bs).length := by
  have whole := congrArg List.length (append_cutLine (b :: bs))
  have nonempty := List.length_pos_iff.mpr (cutLine_ne_nil b bs)
  rw [List.length_append] at whole
  omega

/-- The lines of an input, each with its line feed if it has one. -/
def linesOf : List UInt8 → List (List UInt8)
  | [] => []
  | b :: bs => (cutLine (b :: bs)).1 :: linesOf (cutLine (b :: bs)).2
termination_by bytes => bytes.length
decreasing_by exact length_cutLine b bs

/-- Bytes as text, if they are UTF-8. -/
def decodeUtf8? (bytes : List UInt8) : Option String :=
  String.fromUTF8? ⟨bytes.toArray⟩

/-! ### Whole dialogues -/

/-- What a line leads to: the end of the dialogue, or an answer and the dialogue that goes on. -/
inductive Turn where
  | ended (code : Nat) (errors : String)
  | answered (answer : String) (next : Dialogue)

/-- Takes a line, given by its bytes. -/
def turn (d : Dialogue) (bytes : List UInt8) : Turn :=
  match decodeUtf8? bytes with
  | none => .ended 1 notUtf8
  | some line =>
    if trimWhiteSpace line = quitLine then .ended 0 ""
    else
      let (answer, next) := d.reply (trimWhiteSpace line)
      .answered answer next

/-- What the given lines lead to. -/
def converse (d : Dialogue) : List (List UInt8) → Exit
  | [] => ⟨0, prompt, ""⟩
  | bytes :: rest =>
    match d.turn bytes with
    | .ended code errors => ⟨code, prompt, errors⟩
    | .answered answer next =>
      let exit := next.converse rest
      { exit with output := prompt ++ answer ++ exit.output }

/-- What a whole input leads to. -/
def transcript (input : List UInt8) : Exit :=
  start.converse (linesOf input)

end Dialogue

end Marmoset
