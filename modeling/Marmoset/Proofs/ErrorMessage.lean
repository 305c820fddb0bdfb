import Mathlib.Data.List.Basic
import Marmoset.Proofs.Spacing
import Marmoset.Value.RuntimeError

/-! # Messages tell errors apart

The message of a runtime error opens with words that say what it is about (`RuntimeError.Topic`), and
goes on with the details.  No opening is the start of another, so a message has one topic
(`topic_eq_of_message_eq`).  Names stand in a message as they are, whatever they are made of, but
never in a place where they could be taken for something else: a name is all of the details, or it is
followed by a type, which is what comes after the last space.  The other parts are numbers, types and
operators, and what stands after each of them cannot occur in it. -/

namespace Marmoset

/-! ### Texts with a mark between their parts -/

/-- A text is cut in one way only at the last place of a mark. -/
theorem eq_of_last_mark {mark : Char} {xs xs' ys ys' : List Char}
    (free : mark ∉ ys) (free' : mark ∉ ys') (h : xs ++ mark :: ys = xs' ++ mark :: ys') :
    xs = xs' ∧ ys = ys' := by
  have reversed : ys.reverse ++ mark :: xs.reverse = ys'.reverse ++ mark :: xs'.reverse := by
    simpa using congrArg List.reverse h
  obtain ⟨back, front⟩ := eq_of_first_mark (by simpa using free) (by simpa using free') reversed
  exact ⟨List.reverse_inj.mp front, List.reverse_inj.mp back⟩

/-! ### Types, operators and numbers -/

theorem TypeTag.label_injective : Function.Injective TypeTag.label := by
  intro a b h
  cases a <;> cases b <;> first | rfl | exact absurd h (by decide)

theorem TypeTag.space_not_mem_label (tag : TypeTag) : ' ' ∉ tag.label.toList := by
  cases tag <;> decide

theorem UnaryOp.symbol_injective : Function.Injective UnaryOp.symbol := by
  intro a b h
  cases a <;> cases b <;> first | rfl | exact absurd h (by decide)

theorem BinaryOp.symbol_injective : Function.Injective BinaryOp.symbol := by
  intro a b h
  cases a <;> cases b <;> first | rfl | exact absurd h (by decide)

theorem BinaryOp.space_not_mem_symbol (op : BinaryOp) : ' ' ∉ op.symbol.toList := by
  cases op <;> decide

theorem not_mem_decimal {c : Char} (hc : c.isDigit = false) (n : Nat) : c ∉ (toString n).toList := by
  intro mem
  have digit : c.isDigit = true :=
    Nat.isDigit_of_mem_toDigits (by decide) (by decide) (Nat.toList_repr ▸ mem)
  rw [hc] at digit
  cases digit

/-- A number can be read back from its digits. -/
theorem decimal_injective {m n : Nat} (h : (toString m).toList = (toString n).toList) : m = n := by
  have readBack (k : Nat) : Integer.ofDigits? (toString k).toList = some k := by
    have digits : (toString k).toList = Nat.toDigits 10 k := Nat.toList_repr
    rw [digits, Integer.ofDigits?_toDigits]
  have same := readBack m
  rw [h, readBack n] at same
  exact (Option.some.inj same).symm

/-- An operation as it stands in a message. -/
def operationText (left : TypeTag) (op : BinaryOp) (right : TypeTag) : String :=
  left.label ++ " " ++ op.symbol ++ " " ++ right.label

theorem operationText_injective {left left' right right' : TypeTag} {op op' : BinaryOp}
    (h : operationText left op right = operationText left' op' right') :
    left = left' ∧ op = op' ∧ right = right' := by
  have letters : left.label.toList ++ ' ' :: (op.symbol.toList ++ ' ' :: right.label.toList) =
      left'.label.toList ++ ' ' :: (op'.symbol.toList ++ ' ' :: right'.label.toList) := by
    simpa [operationText] using congrArg String.toList h
  obtain ⟨first, rest⟩ := eq_of_first_mark left.space_not_mem_label left'.space_not_mem_label letters
  obtain ⟨second, third⟩ := eq_of_first_mark op.space_not_mem_symbol op'.space_not_mem_symbol rest
  exact ⟨TypeTag.label_injective (String.toList_injective first),
    BinaryOp.symbol_injective (String.toList_injective second),
    TypeTag.label_injective (String.toList_injective third)⟩

theorem unaryText_injective {op op' : UnaryOp} {operand operand' : TypeTag}
    (h : op.symbol ++ operand.label = op'.symbol ++ operand'.label) :
    op = op' ∧ operand = operand' := by
  have letters : op.symbol.toList ++ operand.label.toList =
      op'.symbol.toList ++ operand'.label.toList := by
    simpa using congrArg String.toList h
  have single (op : UnaryOp) : op.symbol.toList.length = 1 := by cases op <;> decide
  obtain ⟨front, back⟩ := List.append_inj letters (by rw [single, single])
  exact ⟨UnaryOp.symbol_injective (String.toList_injective front),
    TypeTag.label_injective (String.toList_injective back)⟩

/-- A type begins with a capital letter, and a unary operator does not. -/
theorem unaryText_ne_operationText {op : UnaryOp} {op' : BinaryOp} {operand left right : TypeTag} :
    op.symbol ++ operand.label ≠ operationText left op' right := by
  intro h
  obtain ⟨c, sign, small⟩ : ∃ c, op.symbol.toList = [c] ∧ c.isUpper = false := by
    cases op <;> exact ⟨_, rfl, by decide⟩
  obtain ⟨d, ds, label, capital⟩ : ∃ d ds, left.label.toList = d :: ds ∧ d.isUpper = true := by
    cases left <;> exact ⟨_, _, rfl, by decide⟩
  have letters : op.symbol.toList ++ operand.label.toList =
      left.label.toList ++ ' ' :: (op'.symbol.toList ++ ' ' :: right.label.toList) := by
    simpa [operationText] using congrArg String.toList h
  rw [sign, label] at letters
  obtain rfl : c = d := (List.cons.inj letters).1
  rw [small] at capital
  cases capital

theorem countText_injective {got got' want want' : Nat}
    (h : toString got ++ ", want=" ++ toString want = toString got' ++ ", want=" ++ toString want') :
    got = got' ∧ want = want' := by
  have letters : (toString got).toList ++ ',' :: (" want=".toList ++ (toString want).toList) =
      (toString got').toList ++ ',' :: (" want=".toList ++ (toString want').toList) := by
    simpa using congrArg String.toList h
  obtain ⟨front, back⟩ :=
    eq_of_first_mark (not_mem_decimal (by decide) got) (not_mem_decimal (by decide) got') letters
  exact ⟨decimal_injective front, decimal_injective (List.append_cancel_left back)⟩

theorem limitText_injective {limit limit' : Nat} (h : toString limit ++ ")" = toString limit' ++ ")") :
    limit = limit' := by
  have letters : (toString limit).toList ++ [')'] = (toString limit').toList ++ [')'] := by
    simpa using congrArg String.toList h
  exact decimal_injective (List.append_cancel_right letters)

/-- The type is what comes after the last space, so the name before it can be any text. -/
theorem argumentText_injective {function function' : String} {found found' : TypeTag}
    (h : function ++ "' not supported, got " ++ found.label =
      function' ++ "' not supported, got " ++ found'.label) :
    function = function' ∧ found = found' := by
  have letters : function.toList ++ "' not supported, got".toList ++ ' ' :: found.label.toList =
      function'.toList ++ "' not supported, got".toList ++ ' ' :: found'.label.toList := by
    simpa using congrArg String.toList h
  obtain ⟨front, back⟩ :=
    eq_of_last_mark found.space_not_mem_label found'.space_not_mem_label letters
  exact ⟨String.toList_injective (List.append_cancel_right front),
    TypeTag.label_injective (String.toList_injective back)⟩

namespace RuntimeError

/-! ### Openings -/

/-- What an error is about. -/
inductive Topic where
  | name | operator | mismatch | callee | key | indexed | count | argument | limit | zero | size
deriving DecidableEq

def Topic.all : List Topic :=
  [name, operator, mismatch, callee, key, indexed, count, argument, limit, zero, size]

theorem Topic.mem_all (t : Topic) : t ∈ all := by
  cases t <;> decide

/-- The words that a message begins with. -/
def Topic.opening : Topic → String
  | name => "identifier not found: "
  | operator => "unknown operator: "
  | mismatch => "type mismatch: "
  | callee => "not a function: "
  | key => "unusable as hash key: "
  | indexed => "index operator not supported: "
  | count => "wrong number of arguments: got="
  | argument => "argument to '"
  | limit => "maximum recursion depth exceeded (limit: "
  | zero => "division by zero"
  | size => "value out of integer range"

def topic : RuntimeError → Topic
  | unboundName _ => .name
  | unknownUnary _ _ | unknownBinary _ _ _ => .operator
  | typeMismatch _ _ _ => .mismatch
  | notCallable _ => .callee
  | notHashable _ => .key
  | notIndexable _ => .indexed
  | argumentCount _ _ => .count
  | unsupportedArgument _ _ => .argument
  | callLimit _ => .limit
  | divisionByZero => .zero
  | sizeOutOfRange => .size

/-- What a message says after its opening. -/
def details : RuntimeError → String
  | unboundName name => name
  | unknownUnary op operand => op.symbol ++ operand.label
  | unknownBinary left op right | typeMismatch left op right => operationText left op right
  | notCallable found | notHashable found | notIndexable found => found.label
  | argumentCount got want => toString got ++ ", want=" ++ toString want
  | unsupportedArgument function found => function ++ "' not supported, got " ++ found.label
  | callLimit limit => toString limit ++ ")"
  | divisionByZero | sizeOutOfRange => ""

theorem message_eq_append (e : RuntimeError) : e.message = e.topic.opening ++ e.details := by
  cases e with
  | unboundName | notCallable | notHashable | notIndexable => rfl
  | divisionByZero | sizeOutOfRange => exact String.append_empty.symm
  | unknownUnary | callLimit => exact String.append_assoc
  | unknownBinary | typeMismatch =>
    simp only [details, operationText, ← String.append_assoc]
    rfl
  | argumentCount | unsupportedArgument =>
    simp only [details, ← String.append_assoc]
    rfl

/-- No opening is the start of another. -/
theorem Topic.eq_of_prefix {t t' : Topic} (h : t.opening.toList <+: t'.opening.toList) : t = t' := by
  have all_differ : ∀ t ∈ all, ∀ t' ∈ all, t.opening.toList <+: t'.opening.toList → t = t' := by
    decide +kernel
  exact all_differ t t.mem_all t' t'.mem_all h

theorem topic_eq_of_message_eq {e e' : RuntimeError} (h : e.message = e'.message) :
    e.topic = e'.topic ∧ e.details = e'.details := by
  rw [message_eq_append, message_eq_append] at h
  have letters := congrArg String.toList h
  rw [String.toList_append, String.toList_append] at letters
  have same : e.topic = e'.topic := by
    have opening := List.prefix_append e.topic.opening.toList e.details.toList
    have opening' := List.prefix_append e'.topic.opening.toList e'.details.toList
    rw [← letters] at opening'
    obtain shorter | longer := List.prefix_or_prefix_of_prefix opening opening'
    · exact Topic.eq_of_prefix shorter
    · exact (Topic.eq_of_prefix longer).symm
  rw [same] at letters
  exact ⟨same, String.toList_injective (List.append_cancel_left letters)⟩

/-! ### Details -/

theorem eq_of_topic_eq {e e' : RuntimeError} (topic : e.topic = e'.topic)
    (details : e.details = e'.details) : e = e' := by
  -- errors of different topics are gone after this; two causes share the topic of operators
  cases e <;> cases e' <;> cases topic
  case unboundName.unboundName => exact congrArg unboundName details
  case unknownUnary.unknownUnary =>
    obtain ⟨rfl, rfl⟩ := unaryText_injective details
    rfl
  case unknownUnary.unknownBinary => exact absurd details unaryText_ne_operationText
  case unknownBinary.unknownUnary => exact absurd details.symm unaryText_ne_operationText
  case unknownBinary.unknownBinary | typeMismatch.typeMismatch =>
    obtain ⟨rfl, rfl, rfl⟩ := operationText_injective details
    rfl
  case notCallable.notCallable => exact congrArg notCallable (TypeTag.label_injective details)
  case notHashable.notHashable => exact congrArg notHashable (TypeTag.label_injective details)
  case notIndexable.notIndexable => exact congrArg notIndexable (TypeTag.label_injective details)
  case argumentCount.argumentCount =>
    obtain ⟨rfl, rfl⟩ := countText_injective details
    rfl
  case unsupportedArgument.unsupportedArgument =>
    obtain ⟨rfl, rfl⟩ := argumentText_injective details
    rfl
  case callLimit.callLimit => exact congrArg callLimit (limitText_injective details)
  case divisionByZero.divisionByZero | sizeOutOfRange.sizeOutOfRange => rfl

end RuntimeError

/-- **Two runtime errors are equal exactly when their messages are.** -/
theorem errors_eq_iff_messages_eq (e e' : RuntimeError) : e = e' ↔ e.message = e'.message := by
  constructor
  · rintro rfl
    rfl
  · intro same
    obtain ⟨topic, details⟩ := RuntimeError.topic_eq_of_message_eq same
    exact RuntimeError.eq_of_topic_eq topic details

end Marmoset
