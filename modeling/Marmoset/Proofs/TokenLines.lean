import Marmoset.Proofs.LongestMatch

/-! # The lines of tokens

What the line of a token says is a matter of the text in front of it.  The tokens up to a given one
divide the source there (`StandsAfter`): the ones before it cover the text before it, and its line
is the number of line feeds in that text, counted from the line the source starts on
(`exists_standsAfter`).

A `Scanner` hands out the tokens of a source one at a time and keeps a counter of lines.  The
counter moves in two places: when a line feed between tokens is skipped, and after a token, by the
line feeds in it.  Blanks and comments have no line feed in them and leave the counter alone.  So
the scanner hands out the tokens of `TokenStream.ofSource`, and then the end of the input again and
again (`Scanner.read_eq`). -/

namespace Marmoset

/-! ### Less text after a match -/

section Shrink

variable {kind : TokenKind} {text after more : List Char}

/-- What is the longest match stays so when there is less text to go on with. -/
theorem LongestMatch.shrink (h : LongestMatch kind text (after ++ more)) :
    LongestMatch kind text after where
  isMatch := h.isMatch
  longest := by
    intro kind' longer rest split matched
    have split' : longer ++ (rest ++ more) = text ++ (after ++ more) := by
      rw [← List.append_assoc, split, List.append_assoc]
    exact h.longest split' matched
  preferred := h.preferred

theorem Unmatched.shrink (h : Unmatched text (after ++ more)) : Unmatched text after := by
  cases whole : after ++ more with
  | nil =>
      obtain ⟨rfl, rfl⟩ := List.append_eq_nil_iff.mp whole
      exact h
  | cons c rest =>
      rw [whole] at h
      cases h with
      | character nothing => exact .character nothing

theorem Lexeme.CutOff.shrink {l : Lexeme} (h : l.CutOff (after ++ more)) : l.CutOff after where
  matched legal := (h.matched legal).shrink
  unmatched illegal := (h.unmatched illegal).shrink

end Shrink

/-! ### Places of tokens -/

/-- The token stands in the source right after `text`: the tokens before it cover that text, and
with the tokens after it, it covers what follows. -/
structure StandsAfter (source text : List Char) (before : List Token) (t : Token)
    (after : List Token) : Prop where
  covered : Covers text before
  covers : ∃ rest, source = text ++ (t.sourceText ++ rest) ∧
    Covers (t.sourceText ++ rest) (t :: after)

namespace StandsAfter

variable {source text : List Char} {before before' after : List Token} {t : Token} {l : Lexeme}

/-- A lexeme in front of a source is in front of the text before a token, too. -/
theorem cons_lexeme (h : StandsAfter source text before t after)
    (front : Covers (l.text ++ text) before') :
    StandsAfter (l.text ++ source) (l.text ++ text) before' t after := by
  obtain ⟨-, rest, split, covers⟩ := h
  refine ⟨front, rest, ?_, covers⟩
  rw [split, List.append_assoc]

theorem cutOff (h : StandsAfter source text before t after) (cut : l.CutOff source) :
    l.CutOff text := by
  obtain ⟨-, rest, split, -⟩ := h
  rw [split] at cut
  exact cut.shrink

end StandsAfter

/-- A token of a source stands somewhere in it, and its line counts the line feeds up to there from
the line that the source starts on. -/
theorem exists_standsAfter {source : List Char} {line : Nat} {before after : List Token} {t : Token}
    (h : tokensFrom line (lexemes source) = before ++ t :: after) :
    ∃ text, StandsAfter source text before t after ∧ t.line = line + text.count '\n' := by
  fun_induction lexemes source generalizing line before with
  | case1 => simp [tokensFrom] at h
  | case2 c source ih =>
      have cut := Lexeme.cutOff_first c source
      have counted (text : List Char) :
          line + (Lexeme.first c source).1.lineFeeds + text.count '\n' =
            line + ((Lexeme.first c source).1.text ++ text).count '\n' := by
        rw [List.count_append, Lexeme.lineFeeds, Nat.add_assoc]
      rw [← Lexeme.text_first c source]
      cases space : (Lexeme.first c source).1.kind.isSpace with
      | true =>
          rw [tokensFrom_of_isSpace space] at h
          obtain ⟨text, stands, hline⟩ := ih h
          refine ⟨_, stands.cons_lexeme ?_, hline.trans (counted text)⟩
          exact covers_of_isSpace (stands.cutOff cut) space stands.covered
      | false =>
          rw [tokensFrom_of_not_isSpace space] at h
          cases before with
          | nil =>
              obtain ⟨rfl, rfl⟩ := List.cons.inj h
              refine ⟨[], ⟨.done, (Lexeme.first c source).2, ?_, ?_⟩, rfl⟩
              · rw [sourceText_toToken cut, List.nil_append]
              · exact .token (found_toToken cut space line) (covers_tokensFrom _ _)
          | cons u before =>
              obtain ⟨rfl, later⟩ := List.cons.inj h
              obtain ⟨text, stands, hline⟩ := ih later
              refine ⟨_, stands.cons_lexeme ?_, hline.trans (counted text)⟩
              rw [← sourceText_toToken cut line]
              exact .token (found_toToken (stands.cutOff cut) space line) stands.covered

/-! ### A counter of lines -/

/-- The text that is still to be read, and the counter of lines. -/
structure Scanner where
  rest : List Char
  line : Nat

namespace Scanner

/-- Nothing of the source has been read. -/
def start (source : String) : Scanner :=
  ⟨source.toList, 1⟩

/-- How far the counter moves when something between tokens is skipped. -/
def skipped : TokenKind → Nat
  | .newline => 1
  | _ => 0

/-- The next token, and the scanner after it. -/
def next : Scanner → Token × Scanner
  | ⟨[], line⟩ => (Token.atEnd line, ⟨[], line⟩)
  | ⟨c :: cs, line⟩ =>
    if (Lexeme.first c cs).1.kind.isSpace then
      next ⟨(Lexeme.first c cs).2, line + skipped (Lexeme.first c cs).1.kind⟩
    else
      ((Lexeme.first c cs).1.toToken line,
        ⟨(Lexeme.first c cs).2, line + (Lexeme.first c cs).1.lineFeeds⟩)
termination_by s => s.rest.length
decreasing_by exact Lexeme.length_first_lt c cs

/-- The tokens that the first `n` calls hand out. -/
def read : Nat → Scanner → List Token
  | 0, _ => []
  | n + 1, s => s.next.1 :: read n s.next.2

/-- What a scanner is going to hand out. -/
def stream (s : Scanner) : TokenStream :=
  ⟨tokensFrom s.line (lexemes s.rest), s.line + s.rest.count '\n'⟩

/-- The counter misses nothing: of what is skipped, only the line feed itself has a line feed in
it. -/
theorem skipped_of_isSpace {l : Lexeme} {after : List Char} (cut : l.CutOff after)
    (space : l.kind.isSpace = true) : skipped l.kind = l.lineFeeds := by
  obtain ⟨kind, text⟩ := l
  have isMatch : kind.Matches text := (cut.matched (by rintro rfl; cases space)).isMatch
  cases kind <;> cases space
  case comment =>
    obtain ⟨body, rfl, hbody⟩ := isMatch.of_comment
    refine (List.count_eq_zero.mpr ?_).symm
    simpa using fun mem => hbody '\n' mem rfl
  case newline =>
    cases isMatch with
    | newline => rfl
    | spelled spelling => cases spelling
  case blank =>
    cases isMatch with
    | blank hc hcs =>
        refine (List.count_eq_zero.mpr fun mem => ?_).symm
        exact absurd (List.forall_mem_cons.mpr ⟨hc, hcs⟩ '\n' mem) (by decide)
    | spelled spelling => cases spelling

section Cutting

variable {c : Char} {cs : List Char} (line : Nat)

theorem count_first (c : Char) (cs : List Char) : (c :: cs).count '\n' =
    (Lexeme.first c cs).1.lineFeeds + (Lexeme.first c cs).2.count '\n' := by
  rw [← Lexeme.text_first c cs, List.count_append, Lexeme.lineFeeds]

theorem stream_of_isSpace (space : (Lexeme.first c cs).1.kind.isSpace = true) :
    stream ⟨c :: cs, line⟩ =
      stream ⟨(Lexeme.first c cs).2, line + (Lexeme.first c cs).1.lineFeeds⟩ := by
  simp only [stream, lexemes, tokensFrom_of_isSpace space, count_first, Nat.add_assoc]

theorem stream_of_not_isSpace (noSpace : (Lexeme.first c cs).1.kind.isSpace = false) :
    stream ⟨c :: cs, line⟩ =
      let later := stream ⟨(Lexeme.first c cs).2, line + (Lexeme.first c cs).1.lineFeeds⟩
      ⟨(Lexeme.first c cs).1.toToken line :: later.tokens, later.endLine⟩ := by
  simp only [stream, lexemes, tokensFrom_of_not_isSpace noSpace, count_first, Nat.add_assoc]

end Cutting

/-- Each call hands out the current token and goes on with the others. -/
theorem next_eq (s : Scanner) :
    s.next.1 = s.stream.current ∧ s.next.2.stream = s.stream.advance := by
  fun_induction next s with
  | case1 line => simp [stream, lexemes, tokensFrom, TokenStream.current, TokenStream.advance]
  | case2 c cs line space ih =>
      rw [skipped_of_isSpace (Lexeme.cutOff_first c cs) space] at ih ⊢
      rw [stream_of_isSpace line space]
      exact ih
  | case3 c cs line noSpace =>
      rw [stream_of_not_isSpace line (eq_false_of_ne_true noSpace)]
      exact ⟨rfl, rfl⟩

theorem read_eq (n : Nat) (s : Scanner) : s.read n = s.stream.read n := by
  induction n generalizing s with
  | zero => rfl
  | succ n ih => rw [read, ih, s.next_eq.1, s.next_eq.2, TokenStream.read]

end Scanner

/-! ### The lines of a source -/

/-- What is read from a stream is one of its tokens or the end of the input. -/
theorem TokenStream.mem_read {n : Nat} {s : TokenStream} {t : Token} (h : t ∈ s.read n) :
    t ∈ s.tokens ∨ t = Token.atEnd s.endLine := by
  induction n generalizing s with
  | zero => cases h
  | succ n ih =>
      obtain rfl | h := List.mem_cons.mp h
      · unfold current
        cases s.tokens with
        | nil => exact .inr rfl
        | cons u tokens => exact .inl List.mem_cons_self
      · exact (ih h).imp List.mem_of_mem_tail id

/-- **Tokens are on the lines that they start on.**  A scanner with one counter of lines hands out
the tokens of the source.  Each of them stands right after the text that the ones before it cover,
on the line that is one more than the number of line feeds in that text.  The end of the input, as
often as it is handed out, is on the line that is one more than the number of line feeds in the
source. -/
theorem token_lines_exact (source : String) :
    (∀ n, (Scanner.start source).read n = (TokenStream.ofSource source).read n) ∧
    (∀ before t after, (TokenStream.ofSource source).tokens = before ++ t :: after →
      ∃ text, StandsAfter source.toList text before t after ∧ t.line = 1 + text.count '\n') ∧
    ∀ n, ∀ t ∈ (Scanner.start source).read n, t.kind = .eof →
      t.line = 1 + source.toList.count '\n' := by
  have handsOut (n : Nat) : (Scanner.start source).read n = (TokenStream.ofSource source).read n :=
    Scanner.read_eq n (Scanner.start source)
  refine ⟨handsOut, fun before t after split => exists_standsAfter split, fun n t mem isEof => ?_⟩
  rw [handsOut] at mem
  obtain mem | rfl := TokenStream.mem_read mem
  · exact absurd isEof (kind_ne_eof_of_mem_ofSource mem)
  · rfl

end Marmoset
