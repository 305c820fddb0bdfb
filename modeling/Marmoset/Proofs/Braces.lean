import Marmoset.Token.Stream

/-! # Balanced braces

`BracesBalanced` says that opening and closing braces are balanced and properly nested.  Then every
opening brace has a matching closing one, with balanced braces between the two
(`BracesBalanced.exists_matching`).

`TokenStream.level` counts the braces that are open at a place of a stream, by those that close after
it: in what is left of balanced braces no opening brace lacks its closing one
(`BracesBalanced.surplus_suffix`), so the count is not below that at the end.

A `ClosedBlock` is what stands after an opening brace, cut at the matching closing one, and
`ClosedBlock.Inside` are the places from there to that brace.  The level tells where they end: a
reader that moves on inside the block, and does not come below the level of its closing brace, is
still inside the block (`ClosedBlock.Inside.advance`). -/

namespace Marmoset

/-! ### Balanced braces -/

/-- How a token changes the number of open braces. -/
def TokenKind.brace : TokenKind → Int
  | .leftBrace => 1
  | .rightBrace => -1
  | _ => 0

/-- Opening and closing braces are balanced and properly nested. -/
inductive BracesBalanced : List Token → Prop
  | nil : BracesBalanced []
  | other {t : Token} {ts : List Token} :
      t.kind.brace = 0 → BracesBalanced ts → BracesBalanced (t :: ts)
  | pair {opening closing : Token} {inner after : List Token} :
      opening.kind = .leftBrace → closing.kind = .rightBrace → BracesBalanced inner →
      BracesBalanced after → BracesBalanced (opening :: (inner ++ closing :: after))

/-- How many more closing braces there are than opening ones. -/
def surplus : List Token → Int
  | [] => 0
  | t :: ts => surplus ts - t.kind.brace

theorem surplus_append (ts us : List Token) : surplus (ts ++ us) = surplus ts + surplus us := by
  induction ts with
  | nil => simp [surplus]
  | cons t ts ih =>
    rw [List.cons_append, surplus, surplus, ih]
    omega

/-- What is left of a list around a given element. -/
theorem suffix_append_cons {α : Type} {left xs zs : List α} {y : α} (h : left <:+ xs ++ y :: zs) :
    (∃ xs', xs' <:+ xs ∧ left = xs' ++ y :: zs) ∨ left <:+ zs := by
  induction xs with
  | nil =>
    obtain rfl | later := List.suffix_cons_iff.mp h
    · exact .inl ⟨[], List.suffix_rfl, rfl⟩
    · exact .inr later
  | cons x xs ih =>
    obtain rfl | later := List.suffix_cons_iff.mp h
    · exact .inl ⟨x :: xs, List.suffix_rfl, rfl⟩
    · obtain ⟨xs', suffix, rfl⟩ | later := ih later
      · exact .inl ⟨xs', suffix.trans (List.suffix_cons x xs), rfl⟩
      · exact .inr later

namespace BracesBalanced

variable {ts : List Token}

theorem surplus_eq (h : BracesBalanced ts) : surplus ts = 0 := by
  induction h with
  | nil => rfl
  | other none _ ih => rw [surplus, ih, none, Int.sub_zero]
  | pair hopen hclose _ _ ih ih' =>
    rw [surplus, surplus_append, surplus, ih, ih', hopen, hclose]
    rfl

/-- What is left of balanced braces has no opening brace that is not closed. -/
theorem surplus_suffix {left : List Token} (h : BracesBalanced ts) (suffix : left <:+ ts) :
    0 ≤ surplus left := by
  induction h generalizing left with
  | nil =>
    obtain rfl := List.suffix_nil.mp suffix
    exact Int.le_refl 0
  | @other t ts none h ih =>
    obtain rfl | later := List.suffix_cons_iff.mp suffix
    · exact Int.le_of_eq (BracesBalanced.other none h).surplus_eq.symm
    · exact ih later
  | @pair opening closing inner after hopen hclose h h' ih ih' =>
    obtain rfl | later := List.suffix_cons_iff.mp suffix
    · exact Int.le_of_eq (BracesBalanced.pair hopen hclose h h').surplus_eq.symm
    obtain ⟨inner', within, rfl⟩ | later := suffix_append_cons later
    · have nonneg := ih within
      rw [surplus_append, surplus, h'.surplus_eq, hclose]
      show 0 ≤ surplus inner' + (0 - -1)
      omega
    · exact ih' later

/-- Every opening brace has a matching closing one. -/
theorem exists_matching {opening : Token} {rest : List Token} (h : BracesBalanced ts)
    (suffix : opening :: rest <:+ ts) (isOpening : opening.kind = .leftBrace) :
    ∃ body closing after, rest = body ++ closing :: after ∧ closing.kind = .rightBrace ∧
      BracesBalanced body := by
  induction h generalizing rest with
  | nil => cases List.suffix_nil.mp suffix
  | other none _ ih =>
    obtain same | later := List.suffix_cons_iff.mp suffix
    · cases same
      rw [isOpening] at none
      cases none
    · exact ih later
  | pair _ hclose h _ ih ih' =>
    obtain same | later := List.suffix_cons_iff.mp suffix
    · cases same
      exact ⟨_, _, _, rfl, hclose, h⟩
    obtain ⟨inner', within, same⟩ | later := suffix_append_cons later
    · cases inner' with
      | nil =>
        cases same
        cases isOpening.symm.trans hclose
      | cons t inner' =>
        cases same
        obtain ⟨body, closing, after, rfl, isClosing, balanced⟩ := ih within
        exact ⟨body, closing, after ++ _, List.append_assoc .., isClosing, balanced⟩
    · exact ih' later

end BracesBalanced

namespace TokenStream

/-- How many braces are open at a place, if those of the whole stream are balanced. -/
def level (s : TokenStream) : Int :=
  surplus s.tokens

theorem level_advance (s : TokenStream) : s.advance.level = s.level + s.current.kind.brace := by
  cases tokens : s.tokens with
  | nil => simp [level, advance, current, tokens, surplus, Token.atEnd, TokenKind.brace]
  | cons t ts =>
    simp only [level, advance, current, tokens, surplus, List.tail_cons, List.headD_cons]
    omega

end TokenStream

/-! ### Places in a block -/

/-- The tokens after an opening brace: the ones up to the closing brace that matches it, that brace,
and the ones after it. -/
structure ClosedBlock where
  body : List Token
  closing : Token
  after : List Token
  endLine : Nat
  isClosing : closing.kind = .rightBrace
  balanced : BracesBalanced body
  notEof : ∀ t ∈ body, t.kind ≠ .eof

namespace ClosedBlock

variable (c : ClosedBlock)

/-- The place where `left` is left before the closing brace. -/
def place (left : List Token) : TokenStream :=
  ⟨left ++ c.closing :: c.after, c.endLine⟩

/-- A place of the block, that of the closing brace included. -/
def Inside (s : TokenStream) : Prop :=
  ∃ left, left <:+ c.body ∧ s = c.place left

/-- A place of the block whose token has been read, so that the next one is still in the block. -/
structure Passed (s : TokenStream) : Prop where
  inside : c.Inside s
  next : c.Inside s.advance
  level_le : s.advance.level ≤ s.level

theorem level_place (left : List Token) :
    (c.place left).level = surplus left + (c.place []).level :=
  surplus_append left _

variable {c} {s : TokenStream}

theorem Inside.level_le (h : c.Inside s) : (c.place []).level ≤ s.level := by
  obtain ⟨left, suffix, rfl⟩ := h
  have nonneg := c.balanced.surplus_suffix suffix
  have here := c.level_place left
  omega

theorem Inside.current_ne_eof (h : c.Inside s) : s.current.kind ≠ .eof := by
  obtain ⟨left, suffix, rfl⟩ := h
  cases left with
  | nil => exact c.isClosing ▸ (by decide)
  | cons t left => exact c.notEof t (suffix.subset List.mem_cons_self)

/-- The closing brace is the only token that leads out of the block. -/
theorem Inside.advance (h : c.Inside s) (stays : (c.place []).level ≤ s.advance.level) :
    c.Inside s.advance := by
  obtain ⟨left, suffix, rfl⟩ := h
  cases left with
  | nil =>
    have lower : (c.place []).advance.level = (c.place []).level + -1 := by
      rw [TokenStream.level_advance]
      show _ + c.closing.kind.brace = _
      rw [c.isClosing]
      rfl
    omega
  | cons t left => exact ⟨left, (List.suffix_cons t left).trans suffix, rfl⟩

theorem Inside.passed (h : c.Inside s) (stays : (c.place []).level ≤ s.advance.level)
    (notOpening : s.advance.level ≤ s.level) : c.Passed s :=
  ⟨h, h.advance stays, notOpening⟩

/-- A token that is no brace can be passed and keeps the level. -/
theorem Inside.pass {kind : TokenKind} (h : c.Inside s) (found : s.current.kind = kind)
    (none : kind.brace = 0) : c.Passed s ∧ s.advance.level = s.level := by
  have same : s.advance.level = s.level := by
    rw [TokenStream.level_advance, found, none, Int.add_zero]
  exact ⟨h.passed (same ▸ h.level_le) (Int.le_of_eq same), same⟩

/-- A token that is no brace can be passed after another one. -/
theorem Passed.pass {kind : TokenKind} (h : c.Passed s) (found : s.next.kind = kind)
    (none : kind.brace = 0) : c.Passed s.advance ∧ s.advance.advance.level = s.advance.level :=
  h.next.pass found none

/-- Among the closing braces of a block, the last one is the only one at the level of the block. -/
theorem level_eq_iff {left : List Token} (suffix : left <:+ c.body)
    (closed : (c.place left).current.kind = .rightBrace) :
    (c.place left).level = (c.place c.body).level ↔ left = [] := by
  have start := c.level_place c.body
  rw [c.balanced.surplus_eq, Int.zero_add] at start
  rw [start]
  constructor
  · intro same
    cases left with
    | nil => rfl
    | cons t left =>
      have isClosing : t.kind = .rightBrace := closed
      have here := c.level_place (t :: left)
      have later := c.balanced.surplus_suffix ((List.suffix_cons t left).trans suffix)
      rw [surplus, isClosing] at here
      have one : TokenKind.rightBrace.brace = -1 := rfl
      omega
  · rintro rfl
    rfl

end ClosedBlock

end Marmoset
