import Marmoset.Integer
import Marmoset.Token.Stream

/-! # Lexemes with blanks between them

A lexeme stands apart (`Lexeme.Apart`) if it is cut off as it is wherever a space or the end of the
text comes after it.  The keywords and symbols do (`apart_ofKind`), and so do names, numbers and quoted
texts (`apart_ofName`, `apart_ofInteger`, `apart_ofText`).  If lexemes that stand apart are written with
single spaces between them, the tokens of the text are those lexemes (`reads_spaced`). -/

namespace Marmoset

/-! ### Where a run ends -/

/-- A run of characters in a class ends before a character that is not in it. -/
theorem takeWhile_append_of_stops {inClass : Char → Bool} {cs rest : List Char}
    (hcs : ∀ x ∈ cs, inClass x = true) (hrest : ∀ x ∈ rest.head?, inClass x = false) :
    (cs ++ rest).takeWhile inClass = cs ∧ (cs ++ rest).dropWhile inClass = rest := by
  rw [List.takeWhile_append_of_pos hcs, List.dropWhile_append_of_pos hcs]
  cases rest with
  | nil => simp
  | cons x xs => simp [hrest x rfl]

/-- A text is cut in one way only at the first place of a mark. -/
theorem eq_of_first_mark {mark : Char} {xs xs' ys ys' : List Char} (free : mark ∉ xs)
    (free' : mark ∉ xs') (h : xs ++ mark :: ys = xs' ++ mark :: ys') : xs = xs' ∧ ys = ys' := by
  have front {zs : List Char} (free : mark ∉ zs) (ws : List Char) :
      (zs ++ mark :: ws).takeWhile (· != mark) = zs := by
    refine (takeWhile_append_of_stops (fun x hx => ?_) (by simp)).1
    exact bne_iff_ne.mpr fun isMark => free (isMark ▸ hx)
  have same : xs = xs' := by rw [← front free ys, h, front free' ys']
  subst same
  exact ⟨rfl, (List.cons.inj (List.append_cancel_left h)).2⟩

/-! ### Names and numbers -/

/-- The words that are no names. -/
def keywords : List (List Char) :=
  [['f', 'n'], ['l', 'e', 't'], ['t', 'r', 'u', 'e'], ['f', 'a', 'l', 's', 'e'], ['i', 'f'],
    ['e', 'l', 's', 'e'], ['r', 'e', 't', 'u', 'r', 'n']]

/-- A letter or `_`, then letters, digits and `_`, and not a keyword. -/
def isName (s : String) : Bool :=
  match s.toList with
  | [] => false
  | c :: cs => isNameStart c && cs.all isNameChar && decide (c :: cs ∉ keywords)

theorem wordKind_eq_name_iff {cs : List Char} : wordKind cs = .name ↔ cs ∉ keywords := by
  unfold wordKind
  split <;> simp_all [keywords]

theorem isName_iff {s : String} :
    isName s = true ↔ ∃ c cs, s.toList = c :: cs ∧ isNameStart c = true ∧
      cs.all isNameChar = true ∧ wordKind (c :: cs) = .name := by
  unfold isName
  cases s.toList with
  | nil => simp
  | cons c cs => simp [wordKind_eq_name_iff, and_assoc]

namespace Integer

theorem text_of_nonneg {n : Int64} (h : 0 ≤ n.toInt) :
    (text n).toList = Nat.toDigits 10 n.toInt.toNat := by
  obtain ⟨m, hm⟩ := Int.eq_ofNat_of_zero_le h
  rw [text, hm]
  exact Nat.toList_repr

theorem ofDigits?_toDigits (n : Nat) : ofDigits? (Nat.toDigits 10 n) = some n := by
  have digits : (Nat.toDigits 10 n).all Char.isDigit = true :=
    List.all_eq_true.mpr fun c hc => Nat.isDigit_of_mem_toDigits (by decide) (by decide) hc
  unfold ofDigits?
  rw [if_pos ⟨Nat.toDigits_ne_nil, digits⟩]
  exact congrArg some (Nat.ofDigitChars_toDigits (by decide) (by decide))

/-- A text of digits has no sign to be read. -/
theorem ofText?_of_digits {s : String} (h : ∀ c ∈ s.toList, c.isDigit = true) :
    ofText? s = (ofDigits? s.toList).bind fun n => ofInt? n := by
  unfold ofText?
  split
  · next hs => exact absurd (h '-' (by simp [hs])) (by decide)
  · next hs => exact absurd (h '+' (by simp [hs])) (by decide)
  · rfl

/-- An integer that is not negative is read back from its decimal notation. -/
theorem ofText?_text {n : Int64} (h : 0 ≤ n.toInt) : ofText? (text n) = some n := by
  have digits : ∀ c ∈ (text n).toList, c.isDigit = true := by
    rw [text_of_nonneg h]
    exact fun c hc => Nat.isDigit_of_mem_toDigits (by decide) (by decide) hc
  rw [ofText?_of_digits digits, text_of_nonneg h, ofDigits?_toDigits, Option.bind_some,
    Int.toNat_of_nonneg h, ofInt?_toInt]

/-- What is read from digits alone is not negative. -/
theorem nonneg_of_ofText? {s : String} (h : ∀ c ∈ s.toList, c.isDigit = true) {n : Int64}
    (hn : ofText? s = some n) : 0 ≤ n.toInt := by
  rw [ofText?_of_digits h] at hn
  obtain ⟨m, -, hm⟩ := Option.bind_eq_some_iff.mp hn
  rw [ofInt?_eq_some_iff.mp hm]
  exact Int.natCast_nonneg m

end Integer

/-! ### Lexemes that stand apart -/

/-- How a keyword or a symbol is written. -/
def TokenKind.spelling : TokenKind → List Char
  | assign => ['=']
  | plus => ['+']
  | minus => ['-']
  | bang => ['!']
  | star => ['*']
  | slash => ['/']
  | less => ['<']
  | greater => ['>']
  | equal => ['=', '=']
  | notEqual => ['!', '=']
  | comma => [',']
  | semicolon => [';']
  | colon => [':']
  | leftParen => ['(']
  | rightParen => [')']
  | leftBrace => ['{']
  | rightBrace => ['}']
  | leftBracket => ['[']
  | rightBracket => [']']
  | fnWord => ['f', 'n']
  | letWord => ['l', 'e', 't']
  | trueWord => ['t', 'r', 'u', 'e']
  | falseWord => ['f', 'a', 'l', 's', 'e']
  | ifWord => ['i', 'f']
  | elseWord => ['e', 'l', 's', 'e']
  | returnWord => ['r', 'e', 't', 'u', 'r', 'n']
  | illegal | eof | name | integer | text | comment | newline | blank => []

namespace Lexeme

/-- A keyword or a symbol. -/
def ofKind (kind : TokenKind) : Lexeme :=
  ⟨kind, kind.spelling⟩

def ofName (name : String) : Lexeme :=
  ⟨.name, name.toList⟩

/-- An integer in decimal notation. -/
def ofInteger (n : Int64) : Lexeme :=
  ⟨.integer, (Integer.text n).toList⟩

/-- A text in quotes. -/
def ofText (s : String) : Lexeme :=
  ⟨.text, '"' :: (s.toList ++ ['"'])⟩

theorem literal_ofName (name : String) : (ofName name).literal = name :=
  String.ofList_toList

theorem literal_ofInteger (n : Int64) : (ofInteger n).literal = Integer.text n :=
  String.ofList_toList

theorem literal_ofText (s : String) : (ofText s).literal = s := by
  simp [literal, ofText]

/-- The end of a text, or the space before the next lexeme. -/
def Spaced (rest : List Char) : Prop :=
  ∀ c ∈ rest.head?, c = ' '

/-- The lexeme is cut off as it is where a space or the end of the text comes after it. -/
def Apart (l : Lexeme) : Prop :=
  ∀ rest, Spaced rest → ∃ c cs, l.text = c :: cs ∧ first c (cs ++ rest) = (l, rest)

theorem run_append_of_ends {kindOf : List Char → TokenKind} {inClass : Char → Bool} {c : Char}
    {cs rest : List Char} (hcs : ∀ x ∈ cs, inClass x = true)
    (hrest : ∀ x ∈ rest.head?, inClass x = false) :
    run kindOf inClass c (cs ++ rest) = (⟨kindOf (c :: cs), c :: cs⟩, rest) := by
  obtain ⟨taken, left⟩ := takeWhile_append_of_stops hcs hrest
  rw [run, taken, left]

/-- A run of characters in a class ends before a space, if the class has none. -/
theorem run_append {kindOf : List Char → TokenKind} {inClass : Char → Bool} {c : Char}
    {cs rest : List Char} (hcs : ∀ x ∈ cs, inClass x = true) (hspace : inClass ' ' = false)
    (hrest : Spaced rest) :
    run kindOf inClass c (cs ++ rest) = (⟨kindOf (c :: cs), c :: cs⟩, rest) :=
  run_append_of_ends hcs fun x hx => hrest x hx ▸ hspace

theorem apart_ofName {name : String} (h : isName name = true) : (ofName name).Apart := by
  intro rest hrest
  obtain ⟨c, cs, htext, hstart, hcs, hkind⟩ := isName_iff.mp h
  refine ⟨c, cs, htext, ?_⟩
  rw [first, if_pos hstart, run_append (List.all_eq_true.mp hcs) (by decide) hrest, hkind, ofName,
    htext]

theorem not_isNameStart_of_isDigit {c : Char} (h : c.isDigit = true) : isNameStart c = false := by
  have digits : ∀ n, n < 58 → 48 ≤ n → isNameStart (Char.ofNat n) = false := by decide
  obtain ⟨low, high⟩ := Char.isDigit_iff_toNat.mp h
  have start := digits c.toNat (Nat.lt_succ_of_le high) low
  rwa [Char.ofNat_toNat] at start

theorem apart_ofInteger {n : Int64} (h : 0 ≤ n.toInt) : (ofInteger n).Apart := by
  intro rest hrest
  have digits : ∀ c ∈ (Integer.text n).toList, c.isDigit = true := by
    rw [Integer.text_of_nonneg h]
    exact fun c hc => Nat.isDigit_of_mem_toDigits (by decide) (by decide) hc
  cases htext : (Integer.text n).toList with
  | nil =>
      rw [Integer.text_of_nonneg h] at htext
      exact absurd htext Nat.toDigits_ne_nil
  | cons c cs =>
      rw [htext] at digits
      obtain ⟨hc, hcs⟩ := List.forall_mem_cons.mp digits
      refine ⟨c, cs, htext, ?_⟩
      rw [first, not_isNameStart_of_isDigit hc, if_neg (by decide), if_pos hc,
        run_append hcs (by decide) hrest, ofInteger, htext]

theorem apart_ofText {s : String} (h : s.toList.all isNotQuote = true) : (ofText s).Apart := by
  intro rest hrest
  have plain := List.all_eq_true.mp h
  refine ⟨'"', s.toList ++ ['"'], rfl, ?_⟩
  have cut : quoted (s.toList ++ '"' :: rest) = (ofText s, rest) := by
    unfold quoted
    rw [List.takeWhile_append_of_pos plain, List.dropWhile_append_of_pos plain]
    simp [isNotQuote, ofText]
  rw [List.append_assoc, List.singleton_append]
  exact cut

theorem apart_ofKind {kind : TokenKind} (h : kind.spelling ≠ []) : (ofKind kind).Apart := by
  intro rest hrest
  cases rest with
  | nil => cases kind <;> first | exact absurd rfl h | exact ⟨_, _, rfl, rfl⟩
  | cons x xs =>
      obtain rfl : x = ' ' := hrest x rfl
      cases kind <;> first | exact absurd rfl h | exact ⟨_, _, rfl, rfl⟩

/-- Where a blank stands, the run of blanks is cut off. -/
theorem first_of_isBlank {c : Char} (h : isBlank c = true) (cs : List Char) :
    first c cs = run (fun _ => .blank) isBlank c cs := by
  simp only [isBlank, Bool.or_eq_true, beq_iff_eq] at h
  obtain ((rfl | rfl) | rfl) | rfl := h <;> rfl

/-- What is cut off and is no white space does not start with a blank. -/
theorem not_isBlank_of_first {c : Char} {cs rest : List Char} {l : Lexeme}
    (h : first c cs = (l, rest)) (hkind : l.kind.isSpace = false) : isBlank c = false := by
  cases hblank : isBlank c with
  | false => rfl
  | true =>
      rw [first_of_isBlank hblank] at h
      cases h
      cases hkind

end Lexeme

/-! ### Tokens -/

/-- The tokens are those of the lexemes, on whatever lines. -/
inductive Reads : List Token → List Lexeme → Prop
  | nil : Reads [] []
  | cons {l : Lexeme} {line : Nat} {ts : List Token} {ls : List Lexeme} :
      Reads ts ls → Reads (l.toToken line :: ts) (l :: ls)

/-- The texts of lexemes, each after a space. -/
def spacedAfter (ls : List Lexeme) : List Char :=
  ls.flatMap fun l => ' ' :: l.text

/-- The texts of lexemes with single spaces between them. -/
def spaced (ls : List Lexeme) : List Char :=
  List.intercalate [' '] (ls.map Lexeme.text)

theorem spaced_cons (l : Lexeme) (ls : List Lexeme) :
    spaced (l :: ls) = l.text ++ spacedAfter ls := by
  induction ls generalizing l with
  | nil => simp [spaced, spacedAfter]
  | cons l' ls ih =>
      have rest := ih l'
      unfold spaced at rest ⊢
      simp only [List.map_cons] at rest ⊢
      rw [List.intercalate_cons_cons, rest]
      simp [spacedAfter]

theorem tokensFrom_of_isSpace {l : Lexeme} (h : l.kind.isSpace = true) (line : Nat)
    (ls : List Lexeme) : tokensFrom line (l :: ls) = tokensFrom (line + l.lineFeeds) ls := by
  rw [tokensFrom, if_pos h]

theorem tokensFrom_of_not_isSpace {l : Lexeme} (h : l.kind.isSpace = false) (line : Nat)
    (ls : List Lexeme) :
    tokensFrom line (l :: ls) = l.toToken line :: tokensFrom (line + l.lineFeeds) ls := by
  rw [tokensFrom, if_neg (ne_true_of_eq_false h)]

theorem exists_lexeme_of_mem_tokensFrom {line : Nat} {ls : List Lexeme} {t : Token}
    (h : t ∈ tokensFrom line ls) : ∃ l ∈ ls, ∃ line', t = l.toToken line' := by
  induction ls generalizing line with
  | nil => cases h
  | cons l ls ih =>
      have later (h : t ∈ tokensFrom (line + l.lineFeeds) ls) :
          ∃ l' ∈ l :: ls, ∃ line', t = l'.toToken line' := by
        obtain ⟨l', mem, eq⟩ := ih h
        exact ⟨l', List.mem_cons_of_mem _ mem, eq⟩
      rw [tokensFrom] at h
      split at h
      · exact later h
      · obtain rfl | h := List.mem_cons.mp h
        · exact ⟨l, List.mem_cons_self, line, rfl⟩
        · exact later h

theorem spaced_spacedAfter (ls : List Lexeme) : Lexeme.Spaced (spacedAfter ls) := by
  cases ls with
  | nil => nofun
  | cons l ls =>
      rintro c hc
      exact (Option.some.inj hc).symm

/-- A lexeme that stands apart is the first one of its text and what comes after a space. -/
theorem lexemes_append {l : Lexeme} (h : l.Apart) {rest : List Char} (hrest : Lexeme.Spaced rest) :
    lexemes (l.text ++ rest) = l :: lexemes rest := by
  obtain ⟨c, cs, htext, hcut⟩ := h rest hrest
  rw [htext, List.cons_append, lexemes, hcut]

/-- The space before a lexeme that stands apart is a lexeme by itself. -/
theorem lexemes_space_append {l : Lexeme} (h : l.Apart) (hkind : l.kind.isSpace = false)
    {rest : List Char} (hrest : Lexeme.Spaced rest) :
    lexemes (' ' :: (l.text ++ rest)) = ⟨.blank, [' ']⟩ :: l :: lexemes rest := by
  obtain ⟨c, cs, htext, hcut⟩ := h rest hrest
  have hblank := Lexeme.not_isBlank_of_first hcut hkind
  have space : Lexeme.first ' ' (c :: (cs ++ rest)) = (⟨.blank, [' ']⟩, c :: (cs ++ rest)) := by
    show Lexeme.run (fun _ => .blank) isBlank ' ' (c :: (cs ++ rest)) = _
    simp [Lexeme.run, hblank]
  rw [htext, List.cons_append, lexemes, space, lexemes, hcut]

theorem reads_spacedAfter {ls : List Lexeme} (h : ∀ l ∈ ls, l.Apart ∧ l.kind.isSpace = false)
    (line : Nat) : Reads (tokensFrom line (lexemes (spacedAfter ls))) ls := by
  induction ls generalizing line with
  | nil =>
      rw [spacedAfter, List.flatMap_nil, lexemes]
      exact .nil
  | cons l ls ih =>
      obtain ⟨⟨hl, hkind⟩, hls⟩ := List.forall_mem_cons.mp h
      have cut : lexemes (spacedAfter (l :: ls)) = ⟨.blank, [' ']⟩ :: l :: lexemes (spacedAfter ls) :=
        lexemes_space_append hl hkind (spaced_spacedAfter ls)
      rw [cut, tokensFrom_of_isSpace rfl, tokensFrom_of_not_isSpace hkind]
      exact .cons (ih hls _)

/-- Lexemes that stand apart and have spaces between them are the tokens of their text. -/
theorem reads_spaced {ls : List Lexeme} (h : ∀ l ∈ ls, l.Apart ∧ l.kind.isSpace = false)
    (line : Nat) : Reads (tokensFrom line (lexemes (spaced ls))) ls := by
  cases ls with
  | nil =>
      rw [spaced, List.map_nil, List.intercalate_nil, lexemes]
      exact .nil
  | cons l ls =>
      obtain ⟨⟨hl, hkind⟩, hls⟩ := List.forall_mem_cons.mp h
      rw [spaced_cons, lexemes_append hl (spaced_spacedAfter ls), tokensFrom_of_not_isSpace hkind]
      exact .cons (reads_spacedAfter hls _)

/-! ### Parts of what is read -/

theorem Reads.eq_nil {ts : List Token} (h : Reads ts []) : ts = [] := by
  cases h
  rfl

theorem Reads.exists_cons {ts : List Token} {l : Lexeme} {ls : List Lexeme} (h : Reads ts (l :: ls)) :
    ∃ line us, ts = l.toToken line :: us ∧ Reads us ls := by
  cases h with
  | cons h => exact ⟨_, _, rfl, h⟩

theorem Reads.exists_append {ts : List Token} {ls ls' : List Lexeme} (h : Reads ts (ls ++ ls')) :
    ∃ us vs, ts = us ++ vs ∧ Reads us ls ∧ Reads vs ls' := by
  induction ls generalizing ts with
  | nil => exact ⟨[], ts, rfl, .nil, h⟩
  | cons l ls ih =>
      obtain ⟨line, us, rfl, hus⟩ := h.exists_cons
      obtain ⟨us, vs, rfl, hus, hvs⟩ := ih hus
      exact ⟨_, vs, rfl, .cons hus, hvs⟩

end Marmoset
