import Mathlib.Data.List.Forall2
import Marmoset.Proofs.Spacing

/-! # A line feed between two texts

No lexeme but a quoted text goes on over a line feed: not a word, a number or a blank, not a symbol
and not a comment.  So if all quotes are closed, a text, a line feed and another text are cut into
the lexemes of the one, the line feed and the lexemes of the other (`lexemes_append_lineFeed`), and
the tokens of the second text are the same as they are by themselves, on later lines
(`tokens_ofSource_append`).

A quote that is not closed takes in the rest of its text and is illegal, so where the last token of
a text is not illegal, all quotes in it are closed. -/

namespace Marmoset

/-! ### Cutting before a line feed -/

/-- A run that ends inside a text ends there whatever follows. -/
theorem takeWhile_append_of_ends {p : Char → Bool} {u : List Char} (ends : u.dropWhile p ≠ [])
    (w : List Char) :
    (u ++ w).takeWhile p = u.takeWhile p ∧ (u ++ w).dropWhile p = u.dropWhile p ++ w := by
  induction u with
  | nil => exact absurd rfl ends
  | cons c u ih =>
      by_cases inClass : p c = true
      · simp only [List.dropWhile_cons_of_pos inClass] at ends
        simp [inClass, ih ends]
      · simp [inClass]

/-- A run of characters that has no line feed in it ends before one. -/
theorem takeWhile_append_lineFeed {p : Char → Bool} (stops : p '\n' = false) (u v : List Char) :
    (u ++ '\n' :: v).takeWhile p = u.takeWhile p ∧
      (u ++ '\n' :: v).dropWhile p = u.dropWhile p ++ '\n' :: v := by
  induction u with
  | nil => simp [stops]
  | cons c u ih =>
      by_cases inClass : p c = true
      · simp [inClass, ih]
      · simp [inClass]

namespace Lexeme

/-- A lexeme that is cut off, when a line feed and another text follow. -/
abbrev beforeLineFeed (v : List Char) (cut : Lexeme × List Char) : Lexeme × List Char :=
  (cut.1, cut.2 ++ '\n' :: v)

theorem run_append_lineFeed {kindOf : List Char → TokenKind} {inClass : Char → Bool}
    (stops : inClass '\n' = false) (c : Char) (u v : List Char) :
    run kindOf inClass c (u ++ '\n' :: v) = beforeLineFeed v (run kindOf inClass c u) := by
  obtain ⟨taken, left⟩ := takeWhile_append_lineFeed stops u v
  rw [run, run, taken, left]

theorem quoted_append_lineFeed {u : List Char} (closed : u.dropWhile isNotQuote ≠ [])
    (v : List Char) : quoted (u ++ '\n' :: v) = beforeLineFeed v (quoted u) := by
  obtain ⟨taken, left⟩ := takeWhile_append_of_ends closed ('\n' :: v)
  unfold quoted
  rw [taken, left]
  cases rest : u.dropWhile isNotQuote with
  | nil => exact absurd rest closed
  | cons close after => rfl

theorem starts_of_append_lineFeed {u v after : List Char} {x : Char} (ne : x ≠ '\n')
    (starts : u ++ '\n' :: v = x :: after) : ∃ rest, u = x :: rest := by
  cases u with
  | nil => exact absurd (List.cons.inj starts).1.symm ne
  | cons c u => exact ⟨u, congrArg (· :: u) (List.cons.inj starts).1⟩

/-- No symbol of two characters has a line feed in it, and a comment ends before one. -/
theorem symbol_append_lineFeed (c : Char) (u v : List Char) :
    symbol c (u ++ '\n' :: v) = beforeLineFeed v (symbol c u) := by
  fun_cases symbol c u with
  | case1 after => rfl
  | case2 after => rfl
  | case3 after =>
      obtain ⟨taken, left⟩ := takeWhile_append_lineFeed (p := isNotLineFeed) (by decide) after v
      rw [List.cons_append, symbol, taken, left]
  | case4 _ _ notEqual notUnequal notComment =>
      rw [symbol]
      · intro after isEqual starts
        obtain ⟨rest, rfl⟩ := starts_of_append_lineFeed (by decide) starts
        exact notEqual rest isEqual rfl
      · intro after isBang starts
        obtain ⟨rest, rfl⟩ := starts_of_append_lineFeed (by decide) starts
        exact notUnequal rest isBang rfl
      · intro after isSlash starts
        obtain ⟨rest, rfl⟩ := starts_of_append_lineFeed (by decide) starts
        exact notComment rest isSlash rfl

/-- The first lexeme ends before the line feed, unless it is a quote that is not closed. -/
theorem first_append_lineFeed {c : Char} {u : List Char}
    (closed : c = '"' → u.dropWhile isNotQuote ≠ []) (v : List Char) :
    first c (u ++ '\n' :: v) = beforeLineFeed v (first c u) := by
  unfold first
  split
  · exact run_append_lineFeed (by decide) c u v
  split
  · exact run_append_lineFeed (by decide) c u v
  split
  · exact run_append_lineFeed (by decide) c u v
  split
  · next quote => exact quoted_append_lineFeed (closed (eq_of_beq quote)) v
  · exact symbol_append_lineFeed c u v

theorem first_of_not_closed {u : List Char} (unclosed : u.dropWhile isNotQuote = []) :
    first '"' u = (⟨.illegal, '"' :: u⟩, []) := by
  have cut : first '"' u = quoted u := rfl
  rw [cut, quoted, unclosed]

/-- The end of the input is no lexeme. -/
theorem kind_first_ne_eof (c : Char) (rest : List Char) : (first c rest).1.kind ≠ .eof := by
  have word (text : List Char) : wordKind text ≠ .eof := by
    unfold wordKind
    split <;> decide
  have single (c : Char) : symbolKind c ≠ .eof := by
    unfold symbolKind
    split <;> decide
  unfold first
  split
  · exact word _
  split
  · exact (by decide : TokenKind.integer ≠ .eof)
  split
  · exact (by decide : TokenKind.blank ≠ .eof)
  split
  · unfold quoted
    split <;> simp
  · unfold symbol
    split
    · simp
    · simp
    · simp
    · exact single c

end Lexeme

/-! ### Lexemes and tokens -/

/-- The last token is not illegal. -/
def LastLegal (tokens : List Token) : Prop :=
  ∀ t ∈ tokens.getLast?, t.kind ≠ .illegal

theorem LastLegal.tail {line : Nat} {l : Lexeme} {ls : List Lexeme}
    (h : LastLegal (tokensFrom line (l :: ls))) :
    LastLegal (tokensFrom (line + l.lineFeeds) ls) := by
  rw [tokensFrom] at h
  split at h
  · exact h
  · intro t last
    refine h t ?_
    rw [List.getLast?_cons, Option.mem_def.mp last]
    rfl

theorem lexemes_append_lineFeed (u v : List Char) {line : Nat}
    (legal : LastLegal (tokensFrom line (lexemes u))) :
    lexemes (u ++ '\n' :: v) = lexemes u ++ ⟨.newline, ['\n']⟩ :: lexemes v := by
  fun_induction lexemes u generalizing line with
  | case1 =>
      have cut : Lexeme.first '\n' v = (⟨.newline, ['\n']⟩, v) := rfl
      rw [List.nil_append, lexemes, cut]
      rfl
  | case2 c u ih =>
      have closed : c = '"' → u.dropWhile isNotQuote ≠ [] := by
        rintro rfl unclosed
        rw [Lexeme.first_of_not_closed unclosed, lexemes] at legal
        exact legal _ rfl rfl
      rw [List.cons_append, lexemes, Lexeme.first_append_lineFeed closed, ih legal.tail]
      rfl

/-- Later lexemes start on a line that counts the line feeds before them. -/
theorem tokensFrom_append (line : Nat) (ls ls' : List Lexeme) :
    tokensFrom line (ls ++ ls') =
      tokensFrom line ls ++ tokensFrom (line + (ls.flatMap Lexeme.text).count '\n') ls' := by
  induction ls generalizing line with
  | nil => rfl
  | cons l ls ih =>
      have lines : line + ((l :: ls).flatMap Lexeme.text).count '\n' =
          line + l.lineFeeds + (ls.flatMap Lexeme.text).count '\n' := by
        rw [List.flatMap_cons, List.count_append, Lexeme.lineFeeds, Nat.add_assoc]
      rw [List.cons_append, tokensFrom, tokensFrom, ih, lines]
      split <;> rfl

/-- The line that a text starts on makes no difference to its tokens but for their lines. -/
theorem tokensFrom_same (line line' : Nat) (ls : List Lexeme) :
    List.Forall₂ (fun t t' => t.same t') (tokensFrom line ls) (tokensFrom line' ls) := by
  induction ls generalizing line line' with
  | nil => exact .nil
  | cons l ls ih =>
      rw [tokensFrom, tokensFrom]
      split
      · exact ih _ _
      · exact .cons (Token.same_iff.mpr ⟨rfl, rfl⟩) (ih _ _)

theorem kind_ne_eof_of_mem_lexemes {text : List Char} {l : Lexeme} (h : l ∈ lexemes text) :
    l.kind ≠ .eof := by
  fun_induction lexemes text with
  | case1 => cases h
  | case2 c rest ih =>
      obtain rfl | h := List.mem_cons.mp h
      · exact Lexeme.kind_first_ne_eof c rest
      · exact ih h

theorem kind_ne_eof_of_mem_ofSource {source : String} {t : Token}
    (h : t ∈ (TokenStream.ofSource source).tokens) : t.kind ≠ .eof := by
  obtain ⟨l, mem, line, rfl⟩ := exists_lexeme_of_mem_tokensFrom h
  exact kind_ne_eof_of_mem_lexemes mem

/-- The tokens of a text, a line feed and another text. -/
theorem tokens_ofSource_append {s₁ : String}
    (legal : LastLegal (TokenStream.ofSource s₁).tokens) (s₂ : String) :
    ∃ line, (TokenStream.ofSource (s₁ ++ "\n" ++ s₂)).tokens =
      (TokenStream.ofSource s₁).tokens ++ tokensFrom line (lexemes s₂.toList) := by
  have text : (s₁ ++ "\n" ++ s₂).toList = s₁.toList ++ '\n' :: s₂.toList := by simp
  have cut : (TokenStream.ofSource (s₁ ++ "\n" ++ s₂)).tokens =
      tokensFrom 1 (lexemes s₁.toList ++ ⟨.newline, ['\n']⟩ :: lexemes s₂.toList) := by
    rw [← lexemes_append_lineFeed _ _ legal, ← text]
    rfl
  rw [tokensFrom_append, tokensFrom_of_isSpace rfl] at cut
  exact ⟨_, cut⟩

end Marmoset
