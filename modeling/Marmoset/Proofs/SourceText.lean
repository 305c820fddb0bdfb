import Marmoset.Proofs.ParserComplete
import Marmoset.Proofs.Spacing

/-! # Programs as source text

`sourceText` writes a program with single spaces between the tokens, a semicolon after every
statement and parentheses only where the grouping needs them: `grouped` puts them around an expression
that stands where a tighter level is called for.

The trees that can be written (`Stmt.allWritable`) have names that are names, integers that are not
negative, texts without quotes, and no block as a statement.  Reading the text of such a program gives
the program back, without an error (`parseSource_sourceText`).  `Writes` is what is shown of each
phrase: its lexemes stand apart, and the tokens read from them form the phrase. -/

namespace Marmoset

open Grammar

/-! ### Writing -/

/-- The level that an operator belongs to. -/
def BinaryOp.level : BinaryOp → Level
  | equal | notEqual => .equality
  | less | greater => .order
  | add | sub => .sum
  | mul | div => .product

/-- The token that an operator is written with. -/
def BinaryOp.kind : BinaryOp → TokenKind
  | add => .plus
  | sub => .minus
  | mul => .star
  | div => .slash
  | less => .less
  | greater => .greater
  | equal => .equal
  | notEqual => .notEqual

/-- The token that an operator is written with. -/
def UnaryOp.kind : UnaryOp → TokenKind
  | negate => .minus
  | not => .bang

/-- The level of an expression that is written without parentheses around it. -/
def Expr.level : Expr → Level
  | .binary op _ _ => op.level
  | .unary _ _ => .unary
  | .call _ _ | .index _ _ => .call
  | _ => .primary

/-- An expression where one of the level `l` is called for: in parentheses if its own level is
looser. -/
def grouped (l : Level) (e : Expr) (written : List Lexeme) : List Lexeme :=
  if e.level.rank < l.rank then .ofKind .leftParen :: (written ++ [.ofKind .rightParen]) else written

/-- Items with commas between them. -/
def commaSeparated (items : List (List Lexeme)) : List Lexeme :=
  List.intercalate [.ofKind .comma] items

/-- Statements in braces. -/
def braced (written : List Lexeme) : List Lexeme :=
  .ofKind .leftBrace :: (written ++ [.ofKind .rightBrace])

mutual

/-- The lexemes of an expression, without parentheses around it. -/
def Expr.written : Expr → List Lexeme
  | .name name => [.ofName name]
  | .integer value => [.ofInteger value]
  | .text value => [.ofText value]
  | .boolean true => [.ofKind .trueWord]
  | .boolean false => [.ofKind .falseWord]
  | .unary op operand => .ofKind op.kind :: grouped .unary operand operand.written
  | .binary op left right =>
    grouped op.level left left.written ++
      .ofKind op.kind :: grouped op.level.tighter right right.written
  | .cond condition consequence none =>
    .ofKind .ifWord :: (condition.written ++ braced (Stmt.writtenAll consequence))
  | .cond condition consequence (some alternative) =>
    .ofKind .ifWord :: (condition.written ++ (braced (Stmt.writtenAll consequence) ++
      .ofKind .elseWord :: braced (Stmt.writtenAll alternative)))
  | .function parameters body =>
    .ofKind .fnWord :: .ofKind .leftParen ::
      (commaSeparated (parameters.map fun name => [.ofName name]) ++
        .ofKind .rightParen :: braced (Stmt.writtenAll body))
  | .call callee arguments =>
    grouped .call callee callee.written ++
      .ofKind .leftParen :: (commaSeparated (Expr.writtenAll arguments) ++ [.ofKind .rightParen])
  | .array elements =>
    .ofKind .leftBracket :: (commaSeparated (Expr.writtenAll elements) ++ [.ofKind .rightBracket])
  | .index collection position =>
    grouped .call collection collection.written ++
      .ofKind .leftBracket :: (position.written ++ [.ofKind .rightBracket])
  | .hash pairs =>
    .ofKind .leftBrace :: (commaSeparated (Expr.writtenPairs pairs) ++ [.ofKind .rightBrace])

/-- The lexemes of each of several expressions. -/
def Expr.writtenAll : List Expr → List (List Lexeme)
  | [] => []
  | e :: es => e.written :: Expr.writtenAll es

/-- The lexemes of each of several pairs. -/
def Expr.writtenPairs : List (Expr × Expr) → List (List Lexeme)
  | [] => []
  | (key, value) :: pairs =>
    (key.written ++ .ofKind .colon :: value.written) :: Expr.writtenPairs pairs

/-- The lexemes of a statement without its semicolon. -/
def Stmt.written : Stmt → List Lexeme
  | .bind name value => .ofKind .letWord :: .ofName name :: .ofKind .assign :: value.written
  | .return value => .ofKind .returnWord :: value.written
  | .expr value => value.written
  | .block body => braced (Stmt.writtenAll body)

/-- The lexemes of statements in a row, each with a semicolon. -/
def Stmt.writtenAll : List Stmt → List Lexeme
  | [] => []
  | s :: ss => s.written ++ .ofKind .semicolon :: Stmt.writtenAll ss

end

/-- The source text of a program. -/
def sourceText (program : Program) : String :=
  String.ofList (spaced (Stmt.writtenAll program))

/-! ### Trees that can be written -/

mutual

/-- The names of the tree are names, its integers are not negative, its texts have no quotes, and no
block stands as a statement. -/
def Expr.isWritable : Expr → Bool
  | .name name => isName name
  | .integer value => decide (0 ≤ value.toInt)
  | .text value => value.toList.all isNotQuote
  | .boolean _ => true
  | .unary _ operand => operand.isWritable
  | .binary _ left right => left.isWritable && right.isWritable
  | .cond condition consequence none => condition.isWritable && Stmt.allWritable consequence
  | .cond condition consequence (some alternative) =>
    condition.isWritable && Stmt.allWritable consequence && Stmt.allWritable alternative
  | .function parameters body => parameters.all isName && Stmt.allWritable body
  | .call callee arguments => callee.isWritable && Expr.allWritable arguments
  | .array elements => Expr.allWritable elements
  | .index collection position => collection.isWritable && position.isWritable
  | .hash pairs => Expr.pairsWritable pairs

def Expr.allWritable : List Expr → Bool
  | [] => true
  | e :: es => e.isWritable && Expr.allWritable es

def Expr.pairsWritable : List (Expr × Expr) → Bool
  | [] => true
  | (key, value) :: pairs => key.isWritable && value.isWritable && Expr.pairsWritable pairs

def Stmt.isWritable : Stmt → Bool
  | .bind name value => isName name && value.isWritable
  | .return value => value.isWritable
  | .expr value => value.isWritable
  | .block _ => false

def Stmt.allWritable : List Stmt → Bool
  | [] => true
  | s :: ss => s.isWritable && Stmt.allWritable ss

end

/-! ### Written phrases -/

theorem Grammar.Level.rank_equality_le (l : Level) : Level.equality.rank ≤ l.rank := by
  cases l <;> decide

theorem Grammar.Level.rank_le_primary (l : Level) : l.rank ≤ Level.primary.rank := by
  cases l <;> decide

/-- The lexemes stand apart, and the tokens read from them form a phrase. -/
structure Writes (ls : List Lexeme) (Phrase : List Token → Prop) : Prop where
  apart : ∀ l ∈ ls, l.Apart ∧ l.kind.isSpace = false
  phrase : ∀ ts, Reads ts ls → Phrase ts

namespace Writes

variable {ls ls' : List Lexeme} {P Q : List Token → Prop}

theorem mono (h : Writes ls P) (himp : ∀ ts, P ts → Q ts) : Writes ls Q :=
  ⟨h.apart, fun ts hts => himp ts (h.phrase ts hts)⟩

theorem nil : Writes [] (· = []) :=
  ⟨nofun, fun _ => Reads.eq_nil⟩

theorem one {l : Lexeme} (hl : l.Apart) (hspace : l.kind.isSpace = false)
    (h : ∀ line, P [l.toToken line]) : Writes [l] P := by
  refine ⟨List.forall_mem_singleton.mpr ⟨hl, hspace⟩, fun ts hts => ?_⟩
  obtain ⟨line, us, rfl, hus⟩ := hts.exists_cons
  obtain rfl := hus.eq_nil
  exact h line

theorem append (h : Writes ls P) (h' : Writes ls' Q) :
    Writes (ls ++ ls') fun ts => ∃ us vs, ts = us ++ vs ∧ P us ∧ Q vs := by
  refine ⟨List.forall_mem_append.mpr ⟨h.apart, h'.apart⟩, fun ts hts => ?_⟩
  obtain ⟨us, vs, rfl, hus, hvs⟩ := hts.exists_append
  exact ⟨us, vs, rfl, h.phrase us hus, h'.phrase vs hvs⟩

/-- A keyword or a symbol before a phrase. -/
theorem after {kind : TokenKind} (hkind : kind.spelling ≠ []) (h : Writes ls P) :
    Writes (.ofKind kind :: ls) fun ts => ∃ t vs, ts = t :: vs ∧ t.kind = kind ∧ P vs := by
  have apart : (Lexeme.ofKind kind).Apart := Lexeme.apart_ofKind hkind
  have noSpace : (Lexeme.ofKind kind).kind.isSpace = false := by
    revert hkind
    cases kind <;> decide
  refine ⟨List.forall_mem_cons.mpr ⟨⟨apart, noSpace⟩, h.apart⟩, fun ts hts => ?_⟩
  obtain ⟨line, us, rfl, hus⟩ := hts.exists_cons
  exact ⟨_, us, rfl, rfl, h.phrase us hus⟩

/-- A phrase between two symbols. -/
theorem between {opening closing : TokenKind} (hopening : opening.spelling ≠ [])
    (hclosing : closing.spelling ≠ []) (h : Writes ls P) :
    Writes (.ofKind opening :: (ls ++ [.ofKind closing])) fun ts =>
      ∃ t us t', ts = t :: (us ++ [t']) ∧ t.kind = opening ∧ t'.kind = closing ∧ P us := by
  refine ((h.append (nil.after hclosing)).after hopening).mono ?_
  rintro _ ⟨t, _, rfl, ht, us, _, rfl, hus, t', _, rfl, ht', rfl⟩
  exact ⟨t, us, t', rfl, ht, ht', hus⟩

/-- Items with commas between them are a list of the grammar. -/
theorem listed {α : Type} {Item : List Token → α → Prop} {render : α → List Lexeme} {as : List α}
    (h : ∀ a ∈ as, Writes (render a) (Item · a)) :
    Writes (commaSeparated (as.map render)) (Listed Item · as) := by
  have separated (a : α) (as : List α) (h : ∀ b ∈ a :: as, Writes (render b) (Item · b)) :
      Writes (commaSeparated ((a :: as).map render)) (Separated Item · (a :: as)) := by
    induction as generalizing a with
    | nil =>
        have only := (h a List.mem_cons_self).mono fun ts hts => Separated.one hts
        simpa [commaSeparated] using only
    | cons b as ih =>
        obtain ⟨ha, hrest⟩ := List.forall_mem_cons.mp h
        have cut : commaSeparated ((a :: b :: as).map render) =
            render a ++ .ofKind .comma :: commaSeparated ((b :: as).map render) := by
          simp [commaSeparated, List.intercalate_cons_cons]
        rw [cut]
        refine (ha.append ((ih b hrest).after (by decide))).mono ?_
        rintro _ ⟨us, _, rfl, hus, t, vs, rfl, ht, hvs⟩
        exact .more hus ht hvs
  cases as with
  | nil => exact nil.mono fun ts hts => hts ▸ .none
  | cons a as => exact (separated a as h).mono fun ts hts => .some hts

/-- Parentheses bring an expression to the level that is called for. -/
theorem grouped {l : Level} {e : Expr} (h : Writes e.written (IsExpr e.level · e)) :
    Writes (Marmoset.grouped l e e.written) (IsExpr l · e) := by
  unfold Marmoset.grouped
  split
  · refine (h.between (by decide) (by decide)).mono ?_
    rintro _ ⟨t, us, t', rfl, ht, ht', hus⟩
    have inner : IsExpr .equality us e := hus.loosen (Level.rank_equality_le _)
    exact (IsExpr.group ht inner ht').loosen (Level.rank_le_primary l)
  · next hlevel => exact h.mono fun ts hts => hts.loosen (Nat.le_of_not_lt hlevel)

theorem braced {body : List Stmt} (h : Writes (Stmt.writtenAll body) (IsStmts · body)) :
    Writes (Marmoset.braced (Stmt.writtenAll body)) (IsBlock · body) := by
  refine (h.between (by decide) (by decide)).mono ?_
  rintro _ ⟨t, us, t', rfl, ht, ht', hus⟩
  exact .block ht hus ht'

theorem equality {e : Expr} (h : Writes e.written (IsExpr e.level · e)) :
    Writes e.written (IsExpr .equality · e) :=
  h.mono fun _ hts => hts.loosen (Level.rank_equality_le _)

theorem name {name : String} (h : isName name = true) : Writes [.ofName name] (IsName · name) := by
  refine one (Lexeme.apart_ofName h) rfl fun line => ?_
  have token : IsName [(Lexeme.ofName name).toToken line] (Lexeme.ofName name).literal := .name rfl
  rwa [Lexeme.literal_ofName] at token

theorem literal {l : Lexeme} {e : Expr} (hl : l.Apart) (hspace : l.kind.isSpace = false)
    (h : ∀ line, IsLiteral (l.toToken line) e) : Writes [l] (IsExpr .primary · e) :=
  one hl hspace fun line => .literal (h line)

end Writes

theorem Expr.writtenAll_eq_map (es : List Expr) : Expr.writtenAll es = es.map Expr.written := by
  induction es with
  | nil => rfl
  | cons e es ih => rw [Expr.writtenAll, ih, List.map_cons]

theorem Expr.writtenPairs_eq_map (pairs : List (Expr × Expr)) :
    Expr.writtenPairs pairs =
      pairs.map fun pair => pair.1.written ++ .ofKind .colon :: pair.2.written := by
  induction pairs with
  | nil => rfl
  | cons pair pairs ih => rw [Expr.writtenPairs, ih, List.map_cons]

theorem BinaryOp.isBinaryOp (op : BinaryOp) : IsBinaryOp op.level op.kind op := by
  cases op <;> constructor

theorem UnaryOp.isUnaryOp (op : UnaryOp) : IsUnaryOp op.kind op := by
  cases op <;> constructor

mutual

/-- A tree that can be written is the tree of what is written for it. -/
theorem Expr.writes (e : Expr) (h : e.isWritable = true) :
    Writes e.written (IsExpr e.level · e) := by
  match e with
  | .name name =>
      refine .literal (Lexeme.apart_ofName h) rfl fun line => ?_
      have token : IsLiteral ((Lexeme.ofName name).toToken line)
          (.name (Lexeme.ofName name).literal) := .name rfl
      rwa [Lexeme.literal_ofName] at token
  | .integer value =>
      have nonneg : 0 ≤ value.toInt := of_decide_eq_true h
      refine .literal (Lexeme.apart_ofInteger nonneg) rfl fun line => .integer rfl ?_
      show Integer.ofText? (Lexeme.ofInteger value).literal = some value
      rw [Lexeme.literal_ofInteger, Integer.ofText?_text nonneg]
  | .text value =>
      refine .literal (Lexeme.apart_ofText h) rfl fun line => ?_
      have token : IsLiteral ((Lexeme.ofText value).toToken line)
          (.text (Lexeme.ofText value).literal) := .text rfl
      rwa [Lexeme.literal_ofText] at token
  | .boolean true => exact .literal (Lexeme.apart_ofKind (by decide)) rfl fun _ => .isTrue rfl
  | .boolean false => exact .literal (Lexeme.apart_ofKind (by decide)) rfl fun _ => .isFalse rfl
  | .unary op operand =>
      have operand' := (Expr.writes operand h).grouped (l := .unary)
      refine (operand'.after (by cases op <;> decide)).mono ?_
      rintro _ ⟨t, us, rfl, ht, hus⟩
      exact .unary (ht ▸ op.isUnaryOp) hus
  | .binary op left right =>
      simp only [Expr.isWritable, Bool.and_eq_true] at h
      have left' := (Expr.writes left h.1).grouped (l := op.level)
      have right' := (Expr.writes right h.2).grouped (l := op.level.tighter)
      refine (left'.append (right'.after (by cases op <;> decide))).mono ?_
      rintro _ ⟨us, _, rfl, hus, t, vs, rfl, ht, hvs⟩
      exact .binary (ht ▸ op.isBinaryOp) hus hvs
  | .cond condition consequence none =>
      simp only [Expr.isWritable, Bool.and_eq_true] at h
      have condition' := (Expr.writes condition h.1).equality
      have consequence' := (Stmt.writesAll consequence h.2).braced
      refine ((condition'.append consequence').after (by decide)).mono ?_
      rintro _ ⟨t, _, rfl, ht, us, vs, rfl, hus, hvs⟩
      exact .cond ht hus hvs
  | .cond condition consequence (some alternative) =>
      simp only [Expr.isWritable, Bool.and_eq_true] at h
      have condition' := (Expr.writes condition h.1.1).equality
      have consequence' := (Stmt.writesAll consequence h.1.2).braced
      have alternative' := (Stmt.writesAll alternative h.2).braced
      refine ((condition'.append (consequence'.append (alternative'.after (by decide)))).after
        (by decide)).mono ?_
      rintro _ ⟨t, _, rfl, ht, us, _, rfl, hus, vs, _, rfl, hvs, t', vs', rfl, ht', hvs'⟩
      exact .condElse ht hus hvs ht' hvs'
  | .function parameters body =>
      simp only [Expr.isWritable, Bool.and_eq_true, List.all_eq_true] at h
      have parameters' := Writes.listed fun name mem => Writes.name (h.1 name mem)
      have body' := (Stmt.writesAll body h.2).braced
      refine (((parameters'.append (body'.after (by decide))).after (by decide)).after
        (by decide)).mono ?_
      rintro _ ⟨t, _, rfl, ht, t₁, _, rfl, ht₁, us, _, rfl, hus, t₂, vs, rfl, ht₂, hvs⟩
      exact .function ht ht₁ hus ht₂ hvs
  | .call callee arguments =>
      simp only [Expr.isWritable, Bool.and_eq_true] at h
      have callee' := (Expr.writes callee h.1).grouped (l := .call)
      have arguments' := Writes.listed (Expr.writesAll arguments h.2)
      rw [← Expr.writtenAll_eq_map] at arguments'
      refine (callee'.append (arguments'.between (by decide) (by decide))).mono ?_
      rintro _ ⟨us, _, rfl, hus, t, vs, t', rfl, ht, ht', hvs⟩
      exact .call hus ht hvs ht'
  | .array elements =>
      have elements' := Writes.listed (Expr.writesAll elements h)
      rw [← Expr.writtenAll_eq_map] at elements'
      refine (elements'.between (by decide) (by decide)).mono ?_
      rintro _ ⟨t, us, t', rfl, ht, ht', hus⟩
      exact .array ht hus ht'
  | .index collection position =>
      simp only [Expr.isWritable, Bool.and_eq_true] at h
      have collection' := (Expr.writes collection h.1).grouped (l := .call)
      have position' := (Expr.writes position h.2).equality
      refine (collection'.append (position'.between (by decide) (by decide))).mono ?_
      rintro _ ⟨us, _, rfl, hus, t, vs, t', rfl, ht, ht', hvs⟩
      exact .index hus ht hvs ht'
  | .hash pairs =>
      have pairs' := Writes.listed (Expr.writesPairs pairs h)
      rw [← Expr.writtenPairs_eq_map] at pairs'
      refine (pairs'.between (by decide) (by decide)).mono ?_
      rintro _ ⟨t, us, t', rfl, ht, ht', hus⟩
      exact .hash ht hus ht'

theorem Expr.writesAll (es : List Expr) (h : Expr.allWritable es = true) :
    ∀ e ∈ es, Writes e.written (IsExpr .equality · e) := by
  match es with
  | [] => nofun
  | e :: es =>
      simp only [Expr.allWritable, Bool.and_eq_true] at h
      exact List.forall_mem_cons.mpr ⟨(Expr.writes e h.1).equality, Expr.writesAll es h.2⟩

theorem Expr.writesPairs (pairs : List (Expr × Expr)) (h : Expr.pairsWritable pairs = true) :
    ∀ pair ∈ pairs, Writes (pair.1.written ++ .ofKind .colon :: pair.2.written) (IsPair · pair) := by
  match pairs with
  | [] => nofun
  | (key, value) :: pairs =>
      simp only [Expr.pairsWritable, Bool.and_eq_true] at h
      have key' := (Expr.writes key h.1.1).equality
      have value' := (Expr.writes value h.1.2).equality
      refine List.forall_mem_cons.mpr ⟨?_, Expr.writesPairs pairs h.2⟩
      refine (key'.append (value'.after (by decide))).mono ?_
      rintro _ ⟨us, _, rfl, hus, t, vs, rfl, ht, hvs⟩
      exact .pair hus ht hvs

theorem Stmt.writes (s : Stmt) (h : s.isWritable = true) : Writes s.written (IsStmt · s) := by
  match s with
  | .bind name value =>
      simp only [Stmt.isWritable, Bool.and_eq_true] at h
      have name' := Writes.name h.1
      have value' := (Expr.writes value h.2).equality
      refine ((name'.append (value'.after (by decide))).after (by decide)).mono ?_
      rintro _ ⟨t, _, rfl, ht, _, _, rfl, ⟨hname⟩, t', vs, rfl, ht', hvs⟩
      exact .bind ht hname ht' hvs
  | .return value =>
      refine ((Expr.writes value h).equality.after (by decide)).mono ?_
      rintro _ ⟨t, us, rfl, ht, hus⟩
      exact .return ht hus
  | .expr value => exact (Expr.writes value h).equality.mono fun _ hts => .expr hts

theorem Stmt.writesAll (ss : List Stmt) (h : Stmt.allWritable ss = true) :
    Writes (Stmt.writtenAll ss) (IsStmts · ss) := by
  match ss with
  | [] => exact Writes.nil.mono fun ts hts => hts ▸ .nil
  | s :: ss =>
      simp only [Stmt.allWritable, Bool.and_eq_true] at h
      refine ((Stmt.writes s h.1).append ((Stmt.writesAll ss h.2).after (by decide))).mono ?_
      rintro _ ⟨us, _, rfl, hus, t, vs, rfl, ht, hvs⟩
      exact .closed hus ht hvs

end

/-- The text of a program that can be written is read back as that program, without an error. -/
theorem parseSource_sourceText {program : Program} (h : Stmt.allWritable program = true) :
    parseSource (sourceText program) = ⟨program, []⟩ := by
  have written := Stmt.writesAll program h
  refine IsStmts.parseProgram_eq ?_ rfl
  unfold TokenStream.ofSource sourceText
  rw [String.toList_ofList]
  exact written.phrase _ (reads_spaced written.apart 1)

end Marmoset
