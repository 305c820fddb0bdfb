import Mathlib.Data.List.Forall2
import Marmoset.Proofs.JoinedText
import Marmoset.Proofs.LongestMatch

/-! # The layout of tokens

What stands between tokens makes no difference to them.  `Layout tokens text` says that a text is
made of the texts of the tokens, set apart by white space and comments; the text with single spaces
between them (`joined`) is one such text.  If the tokens are those of a source, then they are the
tokens of every text that they are laid out in, on other lines (`laid_out_tokens_read_back`).

The argument does not look at how a text is cut.  A text can be covered by tokens in one way only
(`Covers.same_tokensFrom`), because there is one longest match where a match begins
(`LongestMatch.unique`).  And a longest match stays so if white space or a comment comes after it
(`LongestMatch.before`), so a layout of tokens is covered by them. -/

namespace Marmoset

/-! ### Layouts -/

/-- White space and comments, each comment with the line feed that ends it. -/
inductive Gap : List Char → Prop
  | nil : Gap []
  | space {c : Char} {gap : List Char} : c ∈ blanks ∨ c = '\n' → Gap gap → Gap (c :: gap)
  | comment {body gap : List Char} :
      (∀ x ∈ body, x ≠ '\n') → Gap gap → Gap ('/' :: '/' :: (body ++ '\n' :: gap))

/-- A character that a token of the kind does not go on with: white space, or the start of a comment
unless a slash is before it. -/
def TokenKind.EndsAt (kind : TokenKind) (x : Char) : Prop :=
  x ∈ blanks ∨ x = '\n' ∨ x = '/' ∧ kind ≠ .slash

/-- The token is set apart from the text after it.  An illegal token with a quote in it is a quote
that is not closed; nothing can be set apart from that. -/
structure Token.EndsBefore (t : Token) (rest : List Char) : Prop where
  endsAt : ∀ x ∈ rest.head?, t.kind.EndsAt x
  unclosed : t.kind = .illegal → '"' ∈ t.literal.toList → rest = []

/-- The text is made of the texts of the tokens, set apart from each other, with white space and
comments before, between and after them. -/
inductive Layout : List Token → List Char → Prop
  | blank {text : List Char} : Covers text [] → Layout [] text
  | token {t : Token} {tokens : List Token} {gap rest : List Char} :
      Gap gap → t.EndsBefore rest → Layout tokens rest →
      Layout (t :: tokens) (gap ++ (t.sourceText ++ rest))

/-- The texts of tokens with single spaces between them. -/
def joined (tokens : List Token) : String :=
  String.ofList (List.intercalate [' '] (tokens.map Token.sourceText))

/-- Reading the text gives the tokens, on whatever lines, and after them the end of the input. -/
def ReadsAs (text : String) (tokens : List Token) : Prop :=
  ∀ n, List.Forall₂ (fun t t' => t.same t' = true) (tokens ++ List.replicate n (Token.atEnd 1))
    ((TokenStream.ofSource text).read (tokens.length + n))

/-! ### Longest matches are unique -/

section Unique

variable {kind kind' : TokenKind} {text text' after after' : List Char}

theorem TokenKind.Matches.ne_nil (h : kind.Matches text) : text ≠ [] := by
  cases h <;> simp

theorem LongestMatch.unique (h : LongestMatch kind text after)
    (h' : LongestMatch kind' text' after')
    (split : text ++ after = text' ++ after') : kind = kind' ∧ text = text' ∧ after = after' := by
  have le := h'.longest split h.isMatch
  have ge := h.longest split.symm h'.isMatch
  obtain ⟨rfl, rfl⟩ := List.append_inj split (Nat.le_antisymm le ge)
  refine ⟨?_, rfl, rfl⟩
  obtain same | rfl := h.preferred h'.isMatch
  · exact same.symm
  · obtain same | same := h'.preferred h.isMatch
    · exact same
    · exact same

/-- Where nothing matches, there is no longest match. -/
theorem Unmatched.not_longestMatch (h : Unmatched text after)
    (split : text ++ after = text' ++ after') : ¬ LongestMatch kind text' after' := by
  intro h'
  cases text' with
  | nil => exact h'.isMatch.ne_nil rfl
  | cons c cs =>
      cases h with
      | character nothing =>
          obtain ⟨rfl, -⟩ := List.cons.inj split
          exact nothing _ _ h'.isMatch
      | @unclosed body plain =>
          obtain ⟨rfl, -⟩ := List.cons.inj split
          obtain ⟨⟨quoted, rfl, -⟩, -⟩ := h'.isMatch.of_quote
          have whole : body = quoted ++ '"' :: after' := by simpa using split
          exact plain '"' (by simp [whole]) rfl

/-- A quote can be closed, so something can start with it. -/
theorem ne_quote_of_not_matches {c : Char}
    (nothing : ∀ kind text, ¬ TokenKind.Matches kind (c :: text)) : c ≠ '"' := by
  rintro rfl
  have empty : TokenKind.text.Matches ('"' :: ([] ++ ['"'])) := .text nofun
  exact nothing _ _ empty

theorem Unmatched.unique (h : Unmatched text after) (h' : Unmatched text' after')
    (split : text ++ after = text' ++ after') : text = text' ∧ after = after' := by
  cases h with
  | character nothing =>
      cases h' with
      | character => exact ⟨congrArg ([·]) (List.cons.inj split).1, (List.cons.inj split).2⟩
      | unclosed => exact absurd (List.cons.inj split).1 (ne_quote_of_not_matches nothing)
  | unclosed =>
      cases h' with
      | character nothing =>
          exact absurd (List.cons.inj split).1.symm (ne_quote_of_not_matches nothing)
      | unclosed => exact ⟨by simpa using split, rfl⟩

/-- What is cut off from a text is determined by the text. -/
theorem Lexeme.CutOff.unique {l l' : Lexeme} (h : l.CutOff after) (h' : l'.CutOff after')
    (split : l.text ++ after = l'.text ++ after') : l = l' ∧ after = after' := by
  obtain ⟨kind, text⟩ := l
  obtain ⟨kind', text'⟩ := l'
  by_cases illegal : kind = .illegal
  · by_cases illegal' : kind' = .illegal
    · obtain ⟨rfl, rfl⟩ := (h.unmatched illegal).unique (h'.unmatched illegal') split
      exact ⟨by rw [illegal, illegal'], rfl⟩
    · exact absurd (h'.matched illegal') ((h.unmatched illegal).not_longestMatch split)
  · by_cases illegal' : kind' = .illegal
    · exact absurd (h.matched illegal) ((h'.unmatched illegal').not_longestMatch split.symm)
    · obtain ⟨rfl, rfl, rfl⟩ := (h.matched illegal).unique (h'.matched illegal') split
      exact ⟨rfl, rfl⟩

end Unique

/-! ### Longest matches before white space and comments -/

section Before

variable {kind kind' : TokenKind} {text after rest : List Char} {x : Char}

theorem TokenKind.EndsAt.not_isNameChar (h : kind.EndsAt x) : ¬ (IsLetter x ∨ IsDecimal x) := by
  obtain blank | rfl | ⟨rfl, -⟩ := h
  · exact not_or.mpr ⟨not_isLetter_of_mem_blanks blank, not_isDecimal_of_mem_blanks blank⟩
  · decide
  · decide

theorem TokenKind.EndsAt.ne_equals (h : kind.EndsAt x) : x ≠ '=' := by
  rintro rfl
  obtain blank | newline | ⟨slash, -⟩ := h
  · exact absurd blank (by decide)
  · exact absurd newline (by decide)
  · exact absurd slash (by decide)

/-- What a token matches cannot be gone on with at such a character. -/
theorem TokenKind.Matches.not_matches_append (h : kind.Matches text)
    (noSpace : kind.isSpace = false) (ends : kind.EndsAt x) (more : List Char) :
    ¬ kind'.Matches (text ++ x :: more) := by
  intro longer
  cases text with
  | nil => exact h.ne_nil rfl
  | cons c cs =>
      rw [List.cons_append] at longer
      obtain ⟨letter, -, -⟩ | ⟨digit, -, -⟩ | ⟨-, -, rfl⟩ | ⟨rfl, -, -⟩ | ⟨symbol, start⟩ :=
        h.cons_cases
      · exact ends.not_isNameChar ((longer.of_isLetter letter).1 x (by simp))
      · exact ends.not_isNameChar (.inr ((longer.of_isDecimal digit).1 x (by simp)))
      · cases noSpace
      · -- both go on to the next quote, which is the same one
        obtain ⟨⟨body, rfl, plain⟩, -⟩ := h.of_quote
        obtain ⟨⟨body', split, plain'⟩, -⟩ := longer.of_quote
        rw [List.append_assoc] at split
        obtain ⟨-, rest⟩ :=
          eq_of_first_mark (fun mem => plain _ mem rfl) (fun mem => plain' _ mem rfl) split
        cases rest
      · cases start with
        | alone alone =>
            cases longer.of_isSymbol symbol with
            | equal => exact ends.ne_equals rfl
            | notEqual => exact ends.ne_equals rfl
            | comment =>
                obtain blank | newline | ⟨-, noSlash⟩ := ends
                · exact absurd blank (by decide)
                · exact absurd newline (by decide)
                · exact noSlash alone.symm
        | equal => cases longer.of_isSymbol symbol
        | notEqual => cases longer.of_isSymbol symbol
        | comment => cases noSpace

theorem LongestMatch.before (h : LongestMatch kind text after) (noSpace : kind.isSpace = false)
    (ends : ∀ x ∈ rest.head?, kind.EndsAt x) : LongestMatch kind text rest where
  isMatch := h.isMatch
  preferred := h.preferred
  longest := by
    intro kind' longer tail split matched
    obtain ⟨more, rfl, -⟩ | ⟨more, rfl, rfl⟩ := List.append_eq_append_iff.mp split
    · simp
    · cases more with
      | nil => simp
      | cons x more => exact absurd matched (h.isMatch.not_matches_append noSpace (ends x rfl) more)

theorem Unmatched.before (h : Unmatched text after) (unclosed : '"' ∈ text → rest = []) :
    Unmatched text rest := by
  cases h with
  | character nothing => exact .character nothing
  | unclosed plain =>
      rw [unclosed List.mem_cons_self]
      exact .unclosed plain

theorem Token.sourceText_of_illegal {t : Token} (illegal : t.kind = .illegal) :
    t.sourceText = t.literal.toList := by
  rw [sourceText, illegal]

theorem Token.Found.before {t : Token} (h : t.Found after) (ends : t.EndsBefore rest) :
    t.Found rest where
  isSpace_eq := h.isSpace_eq
  longestMatch legal := (h.longestMatch legal).before h.isSpace_eq ends.endsAt
  illegal_iff := by
    constructor
    · intro illegal
      have unmatched := h.illegal_iff.mp illegal
      rw [sourceText_of_illegal illegal] at unmatched ⊢
      exact unmatched.before (ends.unclosed illegal)
    · intro unmatched
      by_contra legal
      exact unmatched.not_matches _ (h.longestMatch legal).isMatch

end Before

/-! ### Coverings -/

section Coverings

variable {source text gap rest : List Char} {tokens : List Token} {t : Token}

theorem Token.Found.cutOff (h : t.Found rest) : Lexeme.CutOff ⟨t.kind, t.sourceText⟩ rest where
  matched := h.longestMatch
  unmatched := h.illegal_iff.mp

theorem Token.Found.ne_nil (h : t.Found rest) : t.sourceText ≠ [] := by
  by_cases illegal : t.kind = .illegal
  · cases text : t.sourceText with
    | nil =>
        have unmatched := h.illegal_iff.mp illegal
        rw [text] at unmatched
        cases unmatched
    | cons => simp
  · exact (h.longestMatch illegal).isMatch.ne_nil

/-- A token is the same as the one that its text stands for. -/
theorem Token.same_toToken (t : Token) (line : Nat) :
    t.same (Lexeme.toToken ⟨t.kind, t.sourceText⟩ line) = true := by
  refine Token.same_iff.mpr ⟨rfl, ?_⟩
  obtain ⟨kind, literal, _⟩ := t
  unfold Lexeme.toToken Lexeme.literal Token.sourceText
  cases kind <;> simp

theorem lexemes_of_found (h : t.Found rest) :
    lexemes (t.sourceText ++ rest) = ⟨t.kind, t.sourceText⟩ :: lexemes rest := by
  cases text : t.sourceText ++ rest with
  | nil => exact absurd (List.append_eq_nil_iff.mp text).1 h.ne_nil
  | cons c cs =>
      have split : (Lexeme.first c cs).1.text ++ (Lexeme.first c cs).2 = t.sourceText ++ rest :=
        (Lexeme.text_first c cs).trans text.symm
      obtain ⟨lexeme, after⟩ := (Lexeme.cutOff_first c cs).unique h.cutOff split
      rw [lexemes, lexeme, after]

/-- A comment in front of a line feed or the end is one lexeme. -/
theorem lexemes_comment {body : List Char} (plain : ∀ x ∈ body, x ≠ '\n')
    (ends : ∀ x ∈ rest.head?, x = '\n') :
    lexemes ('/' :: '/' :: (body ++ rest)) = ⟨.comment, '/' :: '/' :: body⟩ :: lexemes rest := by
  have noFeed : ∀ x ∈ body, isNotLineFeed x = true := fun x hx => isNotLineFeed_iff.mpr (plain x hx)
  have stops : ∀ x ∈ rest.head?, isNotLineFeed x = false := fun x hx => ends x hx ▸ by decide
  obtain ⟨taken, left⟩ := takeWhile_append_of_stops noFeed stops
  have cut : Lexeme.first '/' ('/' :: (body ++ rest)) =
      (⟨.comment, '/' :: '/' :: (body ++ rest).takeWhile isNotLineFeed⟩,
        (body ++ rest).dropWhile isNotLineFeed) := rfl
  rw [lexemes, cut, taken, left]

/-- A text is covered by its tokens only. -/
theorem Covers.same_tokensFrom (h : Covers text tokens) (line : Nat) :
    List.Forall₂ (fun t t' => t.same t' = true) tokens (tokensFrom line (lexemes text)) := by
  induction h generalizing line with
  | done =>
      rw [lexemes]
      exact .nil
  | @space c source tokens white _ ih =>
      obtain blank | rfl := white
      · obtain ⟨_, line', cut, rfl⟩ := forms_blank (isBlank_iff.mpr blank) source line
        rw [List.singleton_append, List.nil_append] at cut
        rw [cut]
        exact ih line'
      · have cut : Lexeme.first '\n' source = (⟨.newline, ['\n']⟩, source) := rfl
        rw [lexemes, cut, tokensFrom_of_isSpace rfl]
        exact ih _
  | comment plain ends _ ih =>
      rw [lexemes_comment plain ends, tokensFrom_of_isSpace rfl]
      exact ih _
  | @token t after tokens found _ ih =>
      rw [lexemes_of_found found, tokensFrom_of_not_isSpace found.isSpace_eq]
      exact .cons (t.same_toToken line) (ih _)

theorem Covers.found (h : Covers text tokens) : ∀ t ∈ tokens, ∃ after, t.Found after := by
  induction h with
  | done => exact nofun
  | space _ _ ih => exact ih
  | comment _ _ _ ih => exact ih
  | token found _ ih => exact List.forall_mem_cons.mpr ⟨⟨_, found⟩, ih⟩

theorem Gap.covers (h : Gap gap) (covers : Covers text tokens) : Covers (gap ++ text) tokens := by
  induction h with
  | nil => exact covers
  | space white _ ih => exact .space white ih
  | @comment body gap plain _ ih =>
      have ended : Covers ('\n' :: (gap ++ text)) tokens := .space (.inr rfl) ih
      have whole := Covers.comment plain (by simp) ended
      simpa using whole

/-- Tokens of some source cover every text that they are laid out in. -/
theorem Layout.covers (h : Layout tokens text) (found : ∀ t ∈ tokens, ∃ after, t.Found after) :
    Covers text tokens := by
  induction h with
  | blank covers => exact covers
  | token gap ends _ ih =>
      obtain ⟨⟨after, here⟩, later⟩ := List.forall_mem_cons.mp found
      exact gap.covers (.token (here.before ends) (ih later))

end Coverings

/-! ### Single spaces -/

section Joined

variable {source text gap gap' : List Char} {tokens : List Token} {t : Token}

theorem Gap.append (h : Gap gap) (h' : Gap gap') : Gap (gap ++ gap') := by
  induction h with
  | nil => exact h'
  | space white _ ih => exact .space white ih
  | comment plain _ ih =>
      have whole := Gap.comment plain ih
      simpa using whole

theorem Layout.after_gap (h : Layout tokens text) (white : Gap gap) :
    Layout tokens (gap ++ text) := by
  cases h with
  | blank covers => exact .blank (white.covers covers)
  | token gapped ends rest =>
      rw [← List.append_assoc]
      exact .token (white.append gapped) ends rest

/-- A quote that is not closed takes in all that comes after it. -/
theorem Token.Found.after_eq_nil {after : List Char} (h : t.Found after)
    (illegal : t.kind = .illegal) (quote : '"' ∈ t.literal.toList) : after = [] := by
  have unmatched := h.illegal_iff.mp illegal
  rw [sourceText_of_illegal illegal] at unmatched
  cases text : t.literal.toList with
  | nil =>
      rw [text] at quote
      cases quote
  | cons c cs =>
      rw [text] at unmatched quote
      cases unmatched with
      | character nothing =>
          exact absurd (List.mem_singleton.mp quote).symm (ne_quote_of_not_matches nothing)
      | unclosed => rfl

theorem Covers.eq_nil (h : Covers [] tokens) : tokens = [] := by
  generalize empty : [] = text at h
  cases h with
  | done => rfl
  | space => cases empty
  | comment => cases empty
  | token found => exact absurd (List.append_eq_nil_iff.mp empty.symm).1 found.ne_nil

/-- The tokens of a source are laid out with single spaces between them. -/
theorem Covers.layout_joined (h : Covers source tokens) : Layout tokens (joined tokens).toList := by
  unfold joined
  rw [String.toList_ofList]
  induction h with
  | done => exact .blank .done
  | space _ _ ih => exact ih
  | comment _ _ _ ih => exact ih
  | @token t after tokens found covers ih =>
      cases tokens with
      | nil =>
          have alone : Layout [t] ([] ++ (t.sourceText ++ [])) :=
            .token .nil ⟨nofun, fun _ _ => rfl⟩ (.blank .done)
          simpa using alone
      | cons u us =>
          have ends :
              t.EndsBefore (' ' :: List.intercalate [' '] ((u :: us).map Token.sourceText)) := by
            refine ⟨?_, fun illegal quote => ?_⟩
            · rintro x ⟨⟩
              exact .inl (by decide)
            · -- no token comes after a quote that is not closed
              rw [found.after_eq_nil illegal quote] at covers
              cases covers.eq_nil
          have spaced := ih.after_gap (.space (c := ' ') (.inl (by decide)) .nil)
          have whole := Layout.token Gap.nil ends spaced
          simpa [List.intercalate_cons_cons] using whole

end Joined

/-! ### Reading -/

theorem readsAs_of_same {text : String} {tokens : List Token}
    (same : List.Forall₂ (fun t t' => t.same t' = true) tokens (TokenStream.ofSource text).tokens) :
    ReadsAs text tokens := by
  intro n
  have ends : List.Forall₂ (fun t t' => t.same t' = true) (List.replicate n (Token.atEnd 1))
      (List.replicate n (Token.atEnd (TokenStream.ofSource text).endLine)) := by
    induction n with
    | zero => exact .nil
    | succ n ih => exact .cons rfl ih
  have stream := TokenStream.read_append_end (TokenStream.ofSource text).tokens
    (TokenStream.ofSource text).endLine n
  rw [← same.length_eq] at stream
  exact stream ▸ List.rel_append same ends

/-- **Tokens can be read back from every layout of them.**  Let the tokens of a source be written
with single spaces between them, or with any white space and comments before, between and after them:
they are the tokens of this text, too, and after them comes the end of the input. -/
theorem laid_out_tokens_read_back (source : String) :
    (∀ t ∈ (TokenStream.ofSource source).tokens, t.kind ≠ .eof) ∧
      let tokens := (TokenStream.ofSource source).tokens
      ReadsAs source tokens ∧ ReadsAs (joined tokens) tokens ∧
        ∀ text : String, Layout tokens text.toList → ReadsAs text tokens := by
  refine ⟨fun _ => kind_ne_eof_of_mem_ofSource, ?_⟩
  intro tokens
  have covers : Covers source.toList tokens := covers_tokensFrom _ _
  have readBack (text : String) (layout : Layout tokens text.toList) : ReadsAs text tokens :=
    readsAs_of_same ((layout.covers covers.found).same_tokensFrom 1)
  exact ⟨readsAs_of_same (covers.same_tokensFrom 1), readBack _ covers.layout_joined, readBack⟩

/-- With comments between them two slashes do not become one. -/
theorem laid_out_tokens_read_back_slashes :
    let tokens := (TokenStream.ofSource "a/ /b").tokens
    Layout tokens "a // x\n/ // y\n/ b // z".toList ∧
      ReadsAs "a // x\n/ // y\n/ b // z" tokens := by
  intro tokens
  have same : tokens = [⟨.name, "a", 1⟩, ⟨.slash, "/", 1⟩, ⟨.slash, "/", 1⟩, ⟨.name, "b", 1⟩] := by
    decide +kernel
  have space : ' ' ∈ blanks ∨ ' ' = '\n' := .inl (by decide)
  have ends (t : Token) (legal : t.kind ≠ .illegal) (rest : List Char) :
      t.EndsBefore (' ' :: rest) := by
    refine ⟨?_, fun illegal => absurd illegal legal⟩
    rintro x ⟨⟩
    exact .inl (by decide)
  have comment (c : Char) (noFeed : c ≠ '\n') : Gap (' ' :: '/' :: '/' :: ([' ', c] ++ ['\n'])) :=
    .space space (.comment (by simp [noFeed]) .nil)
  have last : Covers (' ' :: '/' :: '/' :: ([' ', 'z'] ++ [])) [] :=
    .space space (.comment (by simp) nofun .done)
  have layout : Layout tokens "a // x\n/ // y\n/ b // z".toList := by
    rw [same]
    exact .token .nil (ends _ (by decide) _) <|
      .token (comment 'x' (by decide)) (ends _ (by decide) _) <|
      .token (comment 'y' (by decide)) (ends _ (by decide) _) <|
      .token (.space space .nil) (ends _ (by decide) _) (.blank last)
  exact ⟨layout, (laid_out_tokens_read_back "a/ /b").2.2.2 _ layout⟩

end Marmoset
