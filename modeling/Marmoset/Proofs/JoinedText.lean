import Marmoset.Proofs.Grammar
import Marmoset.Program.Printer
import Marmoset.Proofs.Spacing

/-! # Texts put together without spaces

`Forms cs rest P` says that where `cs` stands before `rest`, it is cut into tokens of its own, and that
these tokens form a phrase `P`; what comes after is cut as if it stood alone.  Symbols, spaces and
quoted texts can stand before anything, words and numbers before what goes on with neither (`Ends`).
Phrases are put together by `Forms.append`, and items with commas between them by `forms_listed`. -/

namespace Marmoset

open Grammar

/-- The text does not go on with a word or a number before it. -/
def Ends (rest : List Char) : Prop :=
  ∀ c ∈ rest.head?, isNameChar c = false

theorem ends_nil : Ends [] := nofun

theorem ends_cons {c : Char} (h : isNameChar c = false) (rest : List Char) : Ends (c :: rest) := by
  rintro x ⟨⟩
  exact h

theorem Ends.not_isDigit {rest : List Char} (h : Ends rest) : ∀ c ∈ rest.head?, c.isDigit = false := by
  intro c hc
  have outside := h c hc
  simp only [isNameChar, Char.isAlphanum, Bool.or_eq_false_iff] at outside
  exact outside.1.2

/-- Before `rest` the text `cs` is cut into tokens that form the phrase. -/
def Forms (cs rest : List Char) (P : List Token → Prop) : Prop :=
  ∀ line, ∃ ts line', tokensFrom line (lexemes (cs ++ rest)) = ts ++ tokensFrom line' (lexemes rest) ∧
    P ts

namespace Forms

variable {cs cs' rest : List Char} {P Q : List Token → Prop}

theorem mono (h : Forms cs rest P) (himp : ∀ ts, P ts → Q ts) : Forms cs rest Q := by
  intro line
  obtain ⟨ts, line', cut, phrase⟩ := h line
  exact ⟨ts, line', cut, himp ts phrase⟩

theorem nil : Forms [] rest (· = []) :=
  fun line => ⟨[], line, rfl, rfl⟩

theorem append (h : Forms cs (cs' ++ rest) P) (h' : Forms cs' rest Q) :
    Forms (cs ++ cs') rest fun ts => ∃ us vs, ts = us ++ vs ∧ P us ∧ Q vs := by
  intro line
  obtain ⟨us, line', cut, hus⟩ := h line
  obtain ⟨vs, line'', cut', hvs⟩ := h' line'
  refine ⟨us ++ vs, line'', ?_, us, vs, rfl, hus, hvs⟩
  rw [List.append_assoc, cut, cut', List.append_assoc]

/-- A lexeme that is cut off before `rest` and is no white space is one token. -/
theorem of_first {c : Char} {l : Lexeme} (cut : Lexeme.first c (cs ++ rest) = (l, rest))
    (hspace : l.kind.isSpace = false) (h : ∀ line, P [l.toToken line]) : Forms (c :: cs) rest P := by
  intro line
  refine ⟨[l.toToken line], line + l.lineFeeds, ?_, h line⟩
  rw [List.cons_append, lexemes, cut, tokensFrom_of_not_isSpace hspace, List.singleton_append]

end Forms

/-! ### Single tokens -/

variable {rest : List Char}

/-- The symbols that can stand before anything. -/
def separators : List TokenKind :=
  [.comma, .colon, .semicolon, .minus, .leftParen, .rightParen, .leftBracket, .rightBracket,
    .leftBrace, .rightBrace]

theorem forms_separator (kind : TokenKind) (h : kind ∈ separators) (rest : List Char) :
    Forms kind.spelling rest fun ts => ∃ t, ts = [t] ∧ t.kind = kind := by
  simp only [separators, List.mem_cons, List.not_mem_nil, or_false] at h
  obtain rfl | rfl | rfl | rfl | rfl | rfl | rfl | rfl | rfl | rfl := h
  all_goals exact .of_first rfl rfl fun line => ⟨_, rfl, rfl⟩

theorem lineFeeds_run_isBlank {c : Char} (hc : isBlank c = true) (cs : List Char) :
    (Lexeme.run (fun _ => .blank) isBlank c cs).1.lineFeeds = 0 := by
  show (c :: cs.takeWhile isBlank).count '\n' = 0
  rw [List.count_eq_zero, List.mem_cons, not_or]
  constructor
  · rintro rfl
    exact absurd hc (by decide)
  · intro mem
    have inside := List.all_eq_true.mp (List.all_takeWhile (p := isBlank) (l := cs)) '\n' mem
    exact absurd inside (by decide)

/-- Blanks make no token. -/
theorem tokensFrom_lexemes_blank {c : Char} (hc : isBlank c = true) (line : Nat) (cs : List Char) :
    tokensFrom line (lexemes (c :: cs)) = tokensFrom line (lexemes (cs.dropWhile isBlank)) := by
  rw [lexemes, Lexeme.first_of_isBlank hc, tokensFrom_of_isSpace rfl, lineFeeds_run_isBlank hc,
    Nat.add_zero]
  rfl

/-- A blank makes no token, whatever follows. -/
theorem forms_blank {c : Char} (hc : isBlank c = true) (rest : List Char) :
    Forms [c] rest (· = []) := by
  intro line
  refine ⟨[], line, ?_, rfl⟩
  rw [List.nil_append, List.singleton_append, tokensFrom_lexemes_blank hc]
  cases rest with
  | nil => rfl
  | cons d cs =>
      by_cases hd : isBlank d = true
      · rw [List.dropWhile_cons_of_pos hd, tokensFrom_lexemes_blank hd]
      · rw [List.dropWhile_cons_of_neg hd]

theorem forms_space (rest : List Char) : Forms [' '] rest (· = []) :=
  forms_blank (by decide) rest

/-- The digits of a number are one token. -/
theorem forms_number (n : Nat) (hrest : Ends rest) :
    Forms (Nat.toDigits 10 n) rest fun ts =>
      ∃ t, ts = [t] ∧ t.kind = .integer ∧ t.literal = String.ofList (Nat.toDigits 10 n) := by
  have digits : ∀ c ∈ Nat.toDigits 10 n, c.isDigit = true :=
    fun c hc => Nat.isDigit_of_mem_toDigits (by decide) (by decide) hc
  cases text : Nat.toDigits 10 n with
  | nil => exact absurd text Nat.toDigits_ne_nil
  | cons c cs =>
      rw [text] at digits
      obtain ⟨hc, hcs⟩ := List.forall_mem_cons.mp digits
      refine .of_first (l := ⟨.integer, c :: cs⟩) ?_ rfl fun line => ⟨_, rfl, rfl, rfl⟩
      rw [Lexeme.first, Lexeme.not_isNameStart_of_isDigit hc, if_neg (by decide), if_pos hc,
        Lexeme.run_append_of_ends hcs hrest.not_isDigit]

/-- A keyword is one token. -/
theorem forms_word (kind : TokenKind) {c : Char} {cs : List Char} (hc : isNameStart c = true)
    (hcs : cs.all isNameChar = true) (hkind : wordKind (c :: cs) = kind)
    (hspace : kind.isSpace = false) (hrest : Ends rest) :
    Forms (c :: cs) rest fun ts => ∃ t, ts = [t] ∧ t.kind = kind := by
  refine .of_first (l := ⟨kind, c :: cs⟩) ?_ hspace fun line => ⟨_, rfl, rfl⟩
  rw [Lexeme.first, if_pos hc, Lexeme.run_append_of_ends (List.all_eq_true.mp hcs) hrest, hkind]

/-- A quoted text is one token. -/
theorem forms_text {s : String} (h : '"' ∉ s.toList) (rest : List Char) :
    Forms ('"' :: (s.toList ++ ['"'])) rest fun ts =>
      ∃ t, ts = [t] ∧ t.kind = .text ∧ t.literal = s := by
  have plain : ∀ c ∈ s.toList, isNotQuote c = true := by
    intro c hc
    refine bne_iff_ne.mpr ?_
    rintro rfl
    exact h hc
  have cut : Lexeme.quoted (s.toList ++ '"' :: rest) = (Lexeme.ofText s, rest) := by
    unfold Lexeme.quoted
    rw [List.takeWhile_append_of_pos plain, List.dropWhile_append_of_pos plain]
    simp [isNotQuote, Lexeme.ofText]
  refine .of_first (l := Lexeme.ofText s) ?_ rfl fun line => ⟨_, rfl, rfl, Lexeme.literal_ofText s⟩
  rw [List.append_assoc, List.singleton_append]
  exact cut

/-- A phrase between two symbols. -/
theorem forms_between (opening closing : TokenKind) (hopening : opening ∈ separators)
    (hclosing : closing ∈ separators) {inner rest : List Char} {P : List Token → Prop}
    (h : Forms inner (closing.spelling ++ rest) P) :
    Forms (opening.spelling ++ (inner ++ closing.spelling)) rest fun ts =>
      ∃ t us t', ts = t :: (us ++ [t']) ∧ t.kind = opening ∧ t'.kind = closing ∧ P us := by
  have closed := h.append (forms_separator closing hclosing rest)
  refine ((forms_separator opening hopening _).append closed).mono ?_
  rintro _ ⟨_, _, rfl, ⟨t, rfl, ht⟩, us, _, rfl, hus, t', rfl, ht'⟩
  exact ⟨t, us, t', rfl, ht, ht', hus⟩

/-! ### Lists -/

section lists

variable {α : Type} {Item : List Token → α → Prop} {text : α → String}

/-- Items with commas between them form a list, if each of them forms an item before a comma and the
last one before what follows. -/
theorem forms_listed {as : List α}
    (h : ∀ a ∈ as, ∀ rest, Ends rest → Forms (text a).toList rest (Item · a)) (hrest : Ends rest) :
    Forms (commaJoin (as.map text)).toList rest (Listed Item · as) := by
  have separated (a : α) (as : List α)
      (h : ∀ b ∈ a :: as, ∀ rest, Ends rest → Forms (text b).toList rest (Item · b)) :
      Forms (commaJoin ((a :: as).map text)).toList rest (Separated Item · (a :: as)) := by
    induction as generalizing a with
    | nil =>
        have only := (h a List.mem_cons_self rest hrest).mono fun ts hts => Separated.one hts
        simpa [commaJoin] using only
    | cons b as ih =>
        obtain ⟨ha, hmore⟩ := List.forall_mem_cons.mp h
        have joined : (commaJoin ((a :: b :: as).map text)).toList =
            (text a).toList ++ ([','] ++ ([' '] ++ (commaJoin ((b :: as).map text)).toList)) := by
          simp [commaJoin, String.toList_intercalate]
        rw [joined]
        have more := (forms_space _).append (ih b hmore)
        have comma := (forms_separator .comma (by decide) _).append more
        refine ((ha _ (ends_cons (by decide) _)).append comma).mono ?_
        rintro _ ⟨us, _, rfl, hus, _, _, rfl, ⟨t, rfl, ht⟩, _, vs, rfl, rfl, hvs⟩
        exact .more hus ht hvs
  cases as with
  | nil => exact Forms.nil.mono fun ts hts => hts ▸ .none
  | cons a as => exact (separated a as h).mono fun ts hts => .some hts

end lists

end Marmoset
