import Mathlib.Data.List.TakeWhile
import Mathlib.Tactic.FinCases
import Marmoset.Proofs.LineBreaks

/-! # Tokens as longest matches

`TokenKind.Matches` gives the pattern of every kind, without a word on how a text is cut.
`LongestMatch kind text after` says that `text`, where it stands before `after`, is what the patterns
ask for: it matches, no pattern matches more of the source from there on, and if another pattern
matches the same text, then it is a keyword and the other pattern is that of names.  So a keyword is a
whole word and not the start of a longer one, and a name is never a keyword.

`Lexeme.first` cuts off longest matches and nothing else, except where no pattern matches at all
(`Lexeme.cutOff_first`).  So the tokens of a source, with what is skipped between them, are the source
again (`tokens_cover_source`). -/

namespace Marmoset

/-! ### Patterns -/

/-- An ASCII letter or `_`. -/
def IsLetter (c : Char) : Prop :=
  'a' ≤ c ∧ c ≤ 'z' ∨ 'A' ≤ c ∧ c ≤ 'Z' ∨ c = '_'

/-- An ASCII digit. -/
def IsDecimal (c : Char) : Prop :=
  '0' ≤ c ∧ c ≤ '9'

/-- Space, tab, carriage return and form feed. -/
def blanks : List Char :=
  [' ', '\t', '\r', '\x0c']

/-- The whole text matches the pattern of the kind. -/
inductive TokenKind.Matches : TokenKind → List Char → Prop
  | name {c : Char} {cs : List Char} :
      IsLetter c → (∀ x ∈ cs, IsLetter x ∨ IsDecimal x) → Matches .name (c :: cs)
  | integer {c : Char} {cs : List Char} :
      IsDecimal c → (∀ x ∈ cs, IsDecimal x) → Matches .integer (c :: cs)
  | text {body : List Char} :
      (∀ x ∈ body, x ≠ '"') → Matches .text ('"' :: (body ++ ['"']))
  | spelled {kind : TokenKind} {c : Char} {cs : List Char} :
      kind.spelling = c :: cs → Matches kind (c :: cs)
  | comment {body : List Char} :
      (∀ x ∈ body, x ≠ '\n') → Matches .comment ('/' :: '/' :: body)
  | newline : Matches .newline ['\n']
  | blank {c : Char} {cs : List Char} :
      c ∈ blanks → (∀ x ∈ cs, x ∈ blanks) → Matches .blank (c :: cs)

/-- The text matches the pattern of the kind where it stands before `after`, no pattern matches more
there, and no other pattern matches as much unless the text is a keyword, which a name could be. -/
structure LongestMatch (kind : TokenKind) (text after : List Char) : Prop where
  isMatch : kind.Matches text
  longest : ∀ {kind' : TokenKind} {longer rest : List Char},
    longer ++ rest = text ++ after → kind'.Matches longer → longer.length ≤ text.length
  preferred : ∀ {kind' : TokenKind}, kind'.Matches text → kind' = kind ∨ kind' = .name

/-- Where no pattern matches: a character that nothing starts with, or a quote that is not closed and
all that follows it. -/
inductive Unmatched : List Char → List Char → Prop
  | character {c : Char} {after : List Char} :
      (∀ kind text, ¬ TokenKind.Matches kind (c :: text)) → Unmatched [c] after
  | unclosed {body : List Char} :
      (∀ x ∈ body, x ≠ '"') → Unmatched ('"' :: body) []

/-! ### Classes of characters -/

theorem isNameStart_iff {c : Char} : isNameStart c = true ↔ IsLetter c := by
  have upper : c.isUpper = decide ('A' ≤ c ∧ c ≤ 'Z') := rfl
  have lower : c.isLower = (decide ('a' ≤ c) && decide (c ≤ 'z')) := rfl
  have start : isNameStart c = (c.isUpper || c.isLower || c == '_') := rfl
  simp only [start, upper, lower, IsLetter, Bool.or_eq_true, Bool.and_eq_true, decide_eq_true_eq,
    beq_iff_eq]
  tauto

theorem isDigit_iff {c : Char} : c.isDigit = true ↔ IsDecimal c := by
  simp only [Char.isDigit, IsDecimal, Bool.and_eq_true, decide_eq_true_eq, ge_iff_le, Char.le_def]

theorem isNameChar_iff {c : Char} : isNameChar c = true ↔ IsLetter c ∨ IsDecimal c := by
  rw [← isNameStart_iff, ← isDigit_iff]
  simp only [isNameChar, isNameStart, Char.isAlphanum, Bool.or_eq_true]
  tauto

theorem isNotQuote_iff {c : Char} : isNotQuote c = true ↔ c ≠ '"' :=
  bne_iff_ne

theorem isNotLineFeed_iff {c : Char} : isNotLineFeed c = true ↔ c ≠ '\n' :=
  bne_iff_ne

theorem isBlank_iff {c : Char} : isBlank c = true ↔ c ∈ blanks := by
  simp [isBlank, blanks, or_assoc]

-- Through the functions of the lexer, which evaluate on a literal character.
instance : DecidablePred IsLetter :=
  fun c => decidable_of_iff (isNameStart c = true) isNameStart_iff

instance : DecidablePred IsDecimal :=
  fun c => decidable_of_iff (c.isDigit = true) isDigit_iff

/-- The classes of characters that something starts with, the symbols aside, have nothing in common. -/
theorem not_isLetter_of_mem_blanks {c : Char} (h : c ∈ blanks) : ¬ IsLetter c := by
  unfold blanks at h
  fin_cases h <;> decide

theorem not_isDecimal_of_mem_blanks {c : Char} (h : c ∈ blanks) : ¬ IsDecimal c := by
  unfold blanks at h
  fin_cases h <;> decide

theorem not_isLetter_of_isDecimal {c : Char} (h : IsDecimal c) : ¬ IsLetter c := by
  rw [← isNameStart_iff, Lexeme.not_isNameStart_of_isDigit (isDigit_iff.mpr h)]
  decide

/-- What matches from within a class of characters is part of the longest run. -/
theorem length_le_takeWhile {p : Char → Bool} {w rest after : List Char} (hw : ∀ x ∈ w, p x = true)
    (split : w ++ rest = after) : w.length ≤ (after.takeWhile p).length := by
  rw [← split, List.takeWhile_append_of_pos hw, List.length_append]
  omega

/-! ### What a match can start with -/

/-- A character that starts no word, no number, no blank and no quoted text. -/
def IsSymbol (c : Char) : Prop :=
  ¬ IsLetter c ∧ ¬ IsDecimal c ∧ c ∉ blanks ∧ c ≠ '"'

instance : DecidablePred IsSymbol :=
  fun c => inferInstanceAs (Decidable (¬ IsLetter c ∧ ¬ IsDecimal c ∧ c ∉ blanks ∧ c ≠ '"'))

/-- What a symbol can stand at the start of, with the kind of the whole. -/
inductive SymbolMatch : TokenKind → Char → List Char → Prop
  | alone {kind : TokenKind} {c : Char} : symbolKind c = kind → SymbolMatch kind c []
  | equal : SymbolMatch .equal '=' ['=']
  | notEqual : SymbolMatch .notEqual '!' ['=']
  | comment {body : List Char} : (∀ x ∈ body, x ≠ '\n') → SymbolMatch .comment '/' ('/' :: body)

theorem SymbolMatch.kind_eq {kind kind' : TokenKind} {c : Char} {cs : List Char}
    (h : SymbolMatch kind c cs) (h' : SymbolMatch kind' c cs) : kind' = kind := by
  cases h with
  | alone alone =>
      cases h' with
      | alone alone' => rw [← alone, ← alone']
  | equal | notEqual | comment _ =>
      cases h'
      rfl

namespace TokenKind

variable {kind : TokenKind} {c : Char} {cs : List Char}

/-- A spelling is that of a keyword or that of a symbol. -/
theorem spelling_cases (h : kind.spelling = c :: cs) :
    IsLetter c ∧ (∀ x ∈ cs, IsLetter x ∨ IsDecimal x) ∧ kind = wordKind (c :: cs) ∨
      IsSymbol c ∧ SymbolMatch kind c cs := by
  cases kind <;> cases h
  case equal => exact .inr ⟨by decide, .equal⟩
  case notEqual => exact .inr ⟨by decide, .notEqual⟩
  case fnWord | letWord | trueWord | falseWord | ifWord | elseWord | returnWord =>
    refine .inl ⟨by decide, fun x hx => ?_, rfl⟩
    fin_cases hx <;> decide
  all_goals exact .inr ⟨by decide, .alone rfl⟩

namespace Matches

theorem ne_illegal {text : List Char} (h : kind.Matches text) : kind ≠ .illegal := by
  rintro rfl
  cases h with
  | spelled spelling => cases spelling

/-- The first character of a match decides what it can be. -/
theorem cons_cases (h : kind.Matches (c :: cs)) :
    IsLetter c ∧ (∀ x ∈ cs, IsLetter x ∨ IsDecimal x) ∧ (kind = wordKind (c :: cs) ∨ kind = .name) ∨
      IsDecimal c ∧ (∀ x ∈ cs, IsDecimal x) ∧ kind = .integer ∨
      c ∈ blanks ∧ (∀ x ∈ cs, x ∈ blanks) ∧ kind = .blank ∨
      c = '"' ∧ (∃ body, cs = body ++ ['"'] ∧ ∀ x ∈ body, x ≠ '"') ∧ kind = .text ∨
      IsSymbol c ∧ SymbolMatch kind c cs := by
  cases h with
  | name hc hcs => exact .inl ⟨hc, hcs, .inr rfl⟩
  | integer hc hcs => exact .inr (.inl ⟨hc, hcs, rfl⟩)
  | text hbody => exact .inr (.inr (.inr (.inl ⟨rfl, ⟨_, rfl, hbody⟩, rfl⟩)))
  | spelled spelling =>
      obtain ⟨hc, hcs, word⟩ | symbol := spelling_cases spelling
      · exact .inl ⟨hc, hcs, .inl word⟩
      · exact .inr (.inr (.inr (.inr symbol)))
  | comment hbody => exact .inr (.inr (.inr (.inr ⟨by decide, .comment hbody⟩)))
  | newline => exact .inr (.inr (.inr (.inr ⟨by decide, .alone rfl⟩)))
  | blank hc hcs => exact .inr (.inr (.inl ⟨hc, hcs, rfl⟩))

/-- What starts with a letter is a word. -/
theorem of_isLetter (h : kind.Matches (c :: cs)) (hc : IsLetter c) :
    (∀ x ∈ cs, IsLetter x ∨ IsDecimal x) ∧ (kind = wordKind (c :: cs) ∨ kind = .name) := by
  obtain ⟨-, word⟩ | ⟨digit, -⟩ | ⟨blank, -⟩ | ⟨rfl, -⟩ | ⟨symbol, -⟩ := h.cons_cases
  · exact word
  · exact absurd hc (not_isLetter_of_isDecimal digit)
  · exact absurd hc (not_isLetter_of_mem_blanks blank)
  · exact absurd hc (by decide)
  · exact absurd hc symbol.1

/-- What starts with a digit is a number. -/
theorem of_isDecimal (h : kind.Matches (c :: cs)) (hc : IsDecimal c) :
    (∀ x ∈ cs, IsDecimal x) ∧ kind = .integer := by
  obtain ⟨letter, -⟩ | ⟨-, number⟩ | ⟨blank, -⟩ | ⟨rfl, -⟩ | ⟨symbol, -⟩ := h.cons_cases
  · exact absurd letter (not_isLetter_of_isDecimal hc)
  · exact number
  · exact absurd hc (not_isDecimal_of_mem_blanks blank)
  · exact absurd hc (by decide)
  · exact absurd hc symbol.2.1

/-- What starts with a blank is a run of blanks. -/
theorem of_mem_blanks (h : kind.Matches (c :: cs)) (hc : c ∈ blanks) :
    (∀ x ∈ cs, x ∈ blanks) ∧ kind = .blank := by
  obtain ⟨letter, -⟩ | ⟨digit, -⟩ | ⟨-, run⟩ | ⟨rfl, -⟩ | ⟨symbol, -⟩ := h.cons_cases
  · exact absurd letter (not_isLetter_of_mem_blanks hc)
  · exact absurd digit (not_isDecimal_of_mem_blanks hc)
  · exact run
  · exact absurd hc (by decide)
  · exact absurd hc symbol.2.2.1

/-- What starts with a quote goes on to the next one. -/
theorem of_quote (h : kind.Matches ('"' :: cs)) :
    (∃ body, cs = body ++ ['"'] ∧ ∀ x ∈ body, x ≠ '"') ∧ kind = .text := by
  obtain ⟨letter, -⟩ | ⟨digit, -⟩ | ⟨blank, -⟩ | ⟨-, text⟩ | ⟨symbol, -⟩ := h.cons_cases
  · exact absurd letter (by decide)
  · exact absurd digit (by decide)
  · exact absurd blank (by decide)
  · exact text
  · exact absurd symbol (by decide)

theorem of_isSymbol (h : kind.Matches (c :: cs)) (hc : IsSymbol c) : SymbolMatch kind c cs := by
  obtain ⟨letter, -⟩ | ⟨digit, -⟩ | ⟨blank, -⟩ | ⟨quote, -⟩ | ⟨-, symbol⟩ := h.cons_cases
  · exact absurd letter hc.1
  · exact absurd digit hc.2.1
  · exact absurd blank hc.2.2.1
  · exact absurd quote hc.2.2.2
  · exact symbol

end Matches

end TokenKind

/-! ### Longest matches -/

section LongestMatches

variable {kind : TokenKind} {c : Char} {text rest after : List Char}

/-- It is enough to look at matches that start with the same character. -/
theorem LongestMatch.of_cons (isMatch : kind.Matches (c :: text))
    (longest : ∀ {kind' : TokenKind} {longer rest : List Char}, longer ++ rest = text ++ after →
      kind'.Matches (c :: longer) → longer.length ≤ text.length)
    (preferred : ∀ {kind' : TokenKind}, kind'.Matches (c :: text) → kind' = kind ∨ kind' = .name) :
    LongestMatch kind (c :: text) after where
  isMatch := isMatch
  longest := by
    intro kind' longer rest split matched
    cases longer with
    | nil => exact Nat.zero_le _
    | cons d longer =>
        obtain ⟨rfl, split'⟩ := List.cons.inj split
        exact Nat.succ_le_succ (longest split' matched)
  preferred := preferred

/-- The longest run of characters in a class is the longest match, if nothing else can match. -/
theorem LongestMatch.of_run {inClass : Char → Bool}
    (isMatch : kind.Matches (c :: rest.takeWhile inClass))
    (longest : ∀ {kind' : TokenKind} {longer : List Char}, kind'.Matches (c :: longer) →
      ∀ x ∈ longer, inClass x = true)
    (preferred : ∀ {kind' : TokenKind}, kind'.Matches (c :: rest.takeWhile inClass) →
      kind' = kind ∨ kind' = .name) :
    LongestMatch kind (c :: rest.takeWhile inClass) (rest.dropWhile inClass) := by
  refine .of_cons isMatch ?_ preferred
  intro kind' longer rest' split matched
  rw [List.takeWhile_append_dropWhile] at split
  exact length_le_takeWhile (longest matched) split

/-- A word is a name, or the spelling of its kind. -/
theorem wordKind_cases (text : List Char) :
    wordKind text = .name ∨ (wordKind text).spelling = text := by
  unfold wordKind
  split
  case h_8 => exact .inl rfl
  all_goals exact .inr rfl

/-- A character that stands alone is illegal, the line feed, or the spelling of its kind. -/
theorem symbolKind_cases (c : Char) :
    symbolKind c = .illegal ∨ c = '\n' ∨ (symbolKind c).spelling = [c] := by
  unfold symbolKind
  split
  case h_18 => exact .inr (.inl rfl)
  case h_19 => exact .inl rfl
  all_goals exact .inr (.inr rfl)

theorem matches_wordKind (hc : IsLetter c) (htext : ∀ x ∈ text, IsLetter x ∨ IsDecimal x) :
    (wordKind (c :: text)).Matches (c :: text) := by
  obtain name | spelling := wordKind_cases (c :: text)
  · rw [name]
    exact .name hc htext
  · exact .spelled spelling

theorem matches_symbolKind (legal : symbolKind c ≠ .illegal) : (symbolKind c).Matches [c] := by
  obtain illegal | rfl | spelling := symbolKind_cases c
  · exact absurd illegal legal
  · exact .newline
  · exact .spelled spelling

/-- A word is the longest match where a letter stands. -/
theorem longestMatch_word (hc : IsLetter c) :
    LongestMatch (wordKind (c :: rest.takeWhile isNameChar)) (c :: rest.takeWhile isNameChar)
      (rest.dropWhile isNameChar) := by
  have inside : ∀ x ∈ rest.takeWhile isNameChar, IsLetter x ∨ IsDecimal x :=
    fun x hx => isNameChar_iff.mp (List.mem_takeWhile_imp hx)
  refine .of_run (matches_wordKind hc inside) ?_ ?_
  · intro kind' longer matched x hx
    exact isNameChar_iff.mpr ((matched.of_isLetter hc).1 x hx)
  · intro kind' matched
    exact (matched.of_isLetter hc).2

/-- A number is the longest match where a digit stands. -/
theorem longestMatch_number (hc : IsDecimal c) :
    LongestMatch .integer (c :: rest.takeWhile Char.isDigit) (rest.dropWhile Char.isDigit) := by
  have inside : ∀ x ∈ rest.takeWhile Char.isDigit, IsDecimal x :=
    fun x hx => isDigit_iff.mp (List.mem_takeWhile_imp hx)
  refine .of_run (.integer hc inside) ?_ ?_
  · intro kind' longer matched x hx
    exact isDigit_iff.mpr ((matched.of_isDecimal hc).1 x hx)
  · intro kind' matched
    exact .inl (matched.of_isDecimal hc).2

/-- A run of blanks is the longest match where a blank stands. -/
theorem longestMatch_blanks (hc : c ∈ blanks) :
    LongestMatch .blank (c :: rest.takeWhile isBlank) (rest.dropWhile isBlank) := by
  have inside : ∀ x ∈ rest.takeWhile isBlank, x ∈ blanks :=
    fun x hx => isBlank_iff.mp (List.mem_takeWhile_imp hx)
  refine .of_run (.blank hc inside) ?_ ?_
  · intro kind' longer matched x hx
    exact isBlank_iff.mpr ((matched.of_mem_blanks hc).1 x hx)
  · intro kind' matched
    exact .inl (matched.of_mem_blanks hc).2

/-- A quoted text is the longest match where a quote stands that is closed. -/
theorem longestMatch_text (closed : rest.dropWhile isNotQuote = '"' :: after) :
    LongestMatch .text ('"' :: (rest.takeWhile isNotQuote ++ ['"'])) after := by
  have inside : ∀ x ∈ rest.takeWhile isNotQuote, x ≠ '"' :=
    fun x hx => isNotQuote_iff.mp (List.mem_takeWhile_imp hx)
  refine .of_cons (.text inside) ?_ ?_
  · intro kind' longer rest' split matched
    obtain ⟨⟨body, rfl, hbody⟩, -⟩ := matched.of_quote
    have whole : body ++ ('"' :: rest') = rest := by
      rw [← List.takeWhile_append_dropWhile (p := isNotQuote) (l := rest), closed]
      simpa using split
    have shorter := length_le_takeWhile (p := isNotQuote)
      (fun x hx => isNotQuote_iff.mpr (hbody x hx)) whole
    rw [List.length_append, List.length_append]
    exact Nat.succ_le_succ shorter
  · intro kind' matched
    exact .inl matched.of_quote.2

/-- Where a symbol stands, only what a symbol can start is to be looked at. -/
theorem LongestMatch.of_symbolMatch (hc : IsSymbol c) (matched : SymbolMatch kind c text)
    (legal : kind ≠ .illegal) (longest : ∀ {kind' : TokenKind} {longer rest : List Char},
      longer ++ rest = text ++ after → SymbolMatch kind' c longer → longer.length ≤ text.length) :
    LongestMatch kind (c :: text) after := by
  refine .of_cons ?_ (fun split matched' => longest split (matched'.of_isSymbol hc)) ?_
  · cases matched with
    | alone alone =>
        subst alone
        exact matches_symbolKind legal
    | equal => exact .spelled rfl
    | notEqual => exact .spelled rfl
    | comment hbody => exact .comment hbody
  · intro kind' matched'
    exact .inl (matched.kind_eq (matched'.of_isSymbol hc))

/-- A comment is the longest match where two slashes stand. -/
theorem longestMatch_comment :
    LongestMatch .comment ('/' :: '/' :: rest.takeWhile isNotLineFeed)
      (rest.dropWhile isNotLineFeed) := by
  have inside : ∀ x ∈ rest.takeWhile isNotLineFeed, x ≠ '\n' :=
    fun x hx => isNotLineFeed_iff.mp (List.mem_takeWhile_imp hx)
  refine .of_symbolMatch (by decide) (.comment inside) (by decide) ?_
  intro kind' longer rest' split matched
  cases matched with
  | alone => exact Nat.zero_le _
  | comment hbody =>
      rw [List.cons_append, List.cons_append, List.takeWhile_append_dropWhile] at split
      have shorter := length_le_takeWhile (p := isNotLineFeed)
        (fun x hx => isNotLineFeed_iff.mpr (hbody x hx)) (List.cons.inj split).2
      exact Nat.succ_le_succ shorter

end LongestMatches

/-! ### What is cut off -/

namespace Lexeme

/-- What is cut off is a longest match, or nothing matches. -/
structure CutOff (l : Lexeme) (after : List Char) : Prop where
  matched : l.kind ≠ .illegal → LongestMatch l.kind l.text after
  unmatched : l.kind = .illegal → Unmatched l.text after

theorem CutOff.of_longestMatch {l : Lexeme} {after : List Char}
    (h : LongestMatch l.kind l.text after) : l.CutOff after where
  matched _ := h
  unmatched illegal := absurd illegal h.isMatch.ne_illegal

theorem cutOff_quoted (rest : List Char) : (quoted rest).1.CutOff (quoted rest).2 := by
  unfold quoted
  split
  · next unclosed =>
      refine ⟨fun legal => absurd rfl legal, fun _ => .unclosed ?_⟩
      intro x hx
      exact isNotQuote_iff.mp (List.dropWhile_eq_nil_iff.mp unclosed x hx)
  · next close after closed =>
      have isQuote : close = '"' := by
        have stops := List.head?_dropWhile_not isNotQuote rest
        rw [closed] at stops
        simpa [isNotQuote] using stops
      subst isQuote
      exact .of_longestMatch (longestMatch_text closed)

/-- A symbol starts nothing longer than itself unless one of the symbols of two characters stands
there, or a comment. -/
theorem cutOff_symbol {c : Char} (hc : IsSymbol c) (rest : List Char) :
    (symbol c rest).1.CutOff (symbol c rest).2 := by
  fun_cases symbol c rest with
  | case1 after =>
      refine .of_longestMatch (.of_symbolMatch hc .equal (by simp) ?_)
      intro kind' longer rest' split matched
      cases matched <;> simp
  | case2 after =>
      refine .of_longestMatch (.of_symbolMatch hc .notEqual (by simp) ?_)
      intro kind' longer rest' split matched
      cases matched <;> simp
  | case3 after => exact .of_longestMatch longestMatch_comment
  | case4 _ _ noEqual noNotEqual noComment =>
      refine ⟨fun legal => ?_, fun illegal => .character fun kind text matched => ?_⟩
      · refine .of_symbolMatch hc (.alone rfl) legal ?_
        intro kind' longer rest' split matched
        cases matched with
        | alone => exact Nat.zero_le _
        | equal => exact absurd split.symm (noEqual _ rfl)
        | notEqual => exact absurd split.symm (noNotEqual _ rfl)
        | comment => exact absurd split.symm (noComment _ rfl)
      · cases matched.of_isSymbol hc with
        | alone alone => exact matched.ne_illegal (alone ▸ illegal)
        | equal | notEqual | comment => cases illegal

theorem cutOff_first (c : Char) (rest : List Char) : (first c rest).1.CutOff (first c rest).2 := by
  unfold first
  split
  · next letter => exact .of_longestMatch (longestMatch_word (isNameStart_iff.mp letter))
  · next noLetter =>
    split
    · next digit => exact .of_longestMatch (longestMatch_number (isDigit_iff.mp digit))
    · next noDigit =>
      split
      · next blank => exact .of_longestMatch (longestMatch_blanks (isBlank_iff.mp blank))
      · next noBlank =>
        split
        · exact cutOff_quoted rest
        · next noQuote =>
          have isSymbol : IsSymbol c :=
            ⟨fun h => noLetter (isNameStart_iff.mpr h), fun h => noDigit (isDigit_iff.mpr h),
              fun h => noBlank (isBlank_iff.mpr h), fun h => noQuote (beq_iff_eq.mpr h)⟩
          exact cutOff_symbol isSymbol rest

end Lexeme

/-! ### Tokens -/

/-- The text of a token in the source: a quoted text has its quotes around it again. -/
def Token.sourceText (t : Token) : List Char :=
  match t.kind with
  | .text => '"' :: (t.literal.toList ++ ['"'])
  | _ => t.literal.toList

/-- The token is what has to be taken where its text stands before `after`. -/
structure Token.Found (t : Token) (after : List Char) : Prop where
  isSpace_eq : t.kind.isSpace = false
  longestMatch : t.kind ≠ .illegal → LongestMatch t.kind t.sourceText after
  illegal_iff : t.kind = .illegal ↔ Unmatched t.sourceText after

/-- The source is made up of the tokens, in their order, and of what is skipped between them: blanks,
line feeds, and comments that run up to a line feed or the end. -/
inductive Covers : List Char → List Token → Prop
  | done : Covers [] []
  | space {c : Char} {source : List Char} {tokens : List Token} :
      c ∈ blanks ∨ c = '\n' → Covers source tokens → Covers (c :: source) tokens
  | comment {body source : List Char} {tokens : List Token} :
      (∀ x ∈ body, x ≠ '\n') → (∀ x ∈ source.head?, x = '\n') → Covers source tokens →
      Covers ('/' :: '/' :: (body ++ source)) tokens
  | token {t : Token} {after : List Char} {tokens : List Token} :
      t.Found after → Covers after tokens → Covers (t.sourceText ++ after) (t :: tokens)

/-- Where nothing matches, there is no match. -/
theorem Unmatched.not_matches {text after : List Char} (h : Unmatched text after)
    (kind : TokenKind) : ¬ kind.Matches text := by
  intro matched
  cases h with
  | character nothing => exact nothing _ _ matched
  | unclosed hbody =>
      obtain ⟨⟨body, rfl, -⟩, -⟩ := matched.of_quote
      exact hbody '"' (by simp) rfl

/-- A longest match of the pattern of texts is in quotes. -/
theorem sourceText_toToken {l : Lexeme} {after : List Char} (h : l.CutOff after) (line : Nat) :
    (l.toToken line).sourceText = l.text := by
  obtain ⟨kind, text⟩ := l
  by_cases isText : kind = .text
  · subst isText
    have matched : TokenKind.text.Matches text := (h.matched nofun).isMatch
    cases matched with
    | text hbody => simp [Token.sourceText, Lexeme.toToken, Lexeme.literal]
    | spelled spelling => cases spelling
  · unfold Token.sourceText Lexeme.toToken Lexeme.literal
    cases kind <;> first | exact absurd rfl isText | exact String.toList_ofList

theorem found_toToken {l : Lexeme} {after : List Char} (h : l.CutOff after)
    (noSpace : l.kind.isSpace = false) (line : Nat) : (l.toToken line).Found after := by
  refine ⟨noSpace, ?_, ?_⟩
  · rw [sourceText_toToken h]
    exact h.matched
  · rw [sourceText_toToken h]
    refine ⟨h.unmatched, fun unmatched => ?_⟩
    by_contra legal
    exact unmatched.not_matches _ (h.matched legal).isMatch

/-- The pattern of comments has no other way to match. -/
theorem TokenKind.Matches.of_comment {text : List Char} (h : TokenKind.comment.Matches text) :
    ∃ body, text = '/' :: '/' :: body ∧ ∀ x ∈ body, x ≠ '\n' := by
  cases h with
  | comment hbody => exact ⟨_, rfl, hbody⟩
  | spelled spelling => cases spelling

/-- A comment that is a longest match runs up to a line feed or the end. -/
theorem LongestMatch.comment_ends {body after : List Char} (hbody : ∀ x ∈ body, x ≠ '\n')
    (h : LongestMatch .comment ('/' :: '/' :: body) after) : ∀ x ∈ after.head?, x = '\n' := by
  intro x hx
  obtain ⟨rest, rfl⟩ := List.head?_eq_some_iff.mp hx
  by_contra inside
  -- With the character after it the comment would be longer.
  have longer : TokenKind.comment.Matches ('/' :: '/' :: (body ++ [x])) := by
    refine .comment fun y hy => ?_
    obtain hy | hy := List.mem_append.mp hy
    · exact hbody y hy
    · exact List.mem_singleton.mp hy ▸ inside
  have split : '/' :: '/' :: (body ++ [x]) ++ rest = '/' :: '/' :: body ++ x :: rest := by simp
  have shorter := h.longest split longer
  simp only [List.length_cons, List.length_append, List.length_nil] at shorter
  omega

theorem covers_blanks {cs source : List Char} {tokens : List Token} (hcs : ∀ x ∈ cs, x ∈ blanks)
    (h : Covers source tokens) : Covers (cs ++ source) tokens := by
  induction cs with
  | nil => exact h
  | cons c cs ih =>
      obtain ⟨hc, hcs⟩ := List.forall_mem_cons.mp hcs
      exact .space (.inl hc) (ih hcs)

/-- What lies between tokens can be skipped. -/
theorem covers_of_isSpace {l : Lexeme} {after : List Char} {tokens : List Token}
    (cut : l.CutOff after) (space : l.kind.isSpace = true) (h : Covers after tokens) :
    Covers (l.text ++ after) tokens := by
  obtain ⟨kind, text⟩ := l
  have longest : LongestMatch kind text after := cut.matched (by rintro rfl; cases space)
  cases kind <;> cases space
  case comment =>
    obtain ⟨body, rfl, hbody⟩ := longest.isMatch.of_comment
    exact .comment hbody (longest.comment_ends hbody) h
  case newline =>
    cases longest.isMatch with
    | newline => exact .space (.inr rfl) h
    | spelled spelling => cases spelling
  case blank =>
    cases longest.isMatch with
    | blank hc hcs => exact covers_blanks (List.forall_mem_cons.mpr ⟨hc, hcs⟩) h
    | spelled spelling => cases spelling

/-- The tokens of a text cover it, on whatever line it starts. -/
theorem covers_tokensFrom (source : List Char) (line : Nat) :
    Covers source (tokensFrom line (lexemes source)) := by
  fun_induction lexemes source generalizing line with
  | case1 => exact .done
  | case2 c rest ih =>
      have cut := Lexeme.cutOff_first c rest
      rw [← Lexeme.text_first c rest]
      cases space : (Lexeme.first c rest).1.kind.isSpace with
      | true =>
          rw [tokensFrom_of_isSpace space]
          exact covers_of_isSpace cut space (ih _)
      | false =>
          rw [tokensFrom_of_not_isSpace space, ← sourceText_toToken cut line]
          exact .token (found_toToken cut space line) (ih _)

theorem TokenStream.read_nil (endLine n : Nat) :
    read n ⟨[], endLine⟩ = List.replicate n (Token.atEnd endLine) := by
  induction n with
  | zero => rfl
  | succ n ih => exact congrArg (Token.atEnd endLine :: ·) ih

/-- After its tokens a stream goes on with the end of the input. -/
theorem TokenStream.read_append_end (tokens : List Token) (endLine n : Nat) :
    read (tokens.length + n) ⟨tokens, endLine⟩ =
      tokens ++ List.replicate n (Token.atEnd endLine) := by
  induction tokens with
  | nil =>
      rw [List.length_nil, Nat.zero_add]
      exact read_nil endLine n
  | cons t tokens ih =>
      rw [List.length_cons, Nat.add_right_comm]
      exact congrArg (t :: ·) ih

/-- **The lexer loses nothing and invents nothing.**  The tokens of a source that come before the first
end-of-input token cover it, and from there on there are only end-of-input tokens on one line. -/
theorem tokens_cover_source (source : String) :
    Covers source.toList (TokenStream.ofSource source).tokens ∧
      (∀ t ∈ (TokenStream.ofSource source).tokens, t.kind ≠ .eof) ∧
      ∀ n, (TokenStream.ofSource source).read ((TokenStream.ofSource source).tokens.length + n) =
        (TokenStream.ofSource source).tokens ++
          List.replicate n (Token.atEnd (TokenStream.ofSource source).endLine) :=
  ⟨covers_tokensFrom _ _, fun _ => kind_ne_eof_of_mem_ofSource, TokenStream.read_append_end _ _⟩

/-- Quotes in a comment, slashes in a text, a keyword at the start of a name, and what nothing starts
with. -/
example : (TokenStream.ofSource "lets==\"a//b\"@ // \"c\n \"d").tokens.map Token.sourceText =
    [['l', 'e', 't', 's'], ['=', '='], ['"', 'a', '/', '/', 'b', '"'], ['@'], ['"', 'd']] := by
  decide +kernel

end Marmoset
