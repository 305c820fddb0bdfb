import Marmoset.Program.Parsed

/-! # Steps without errors

`p.Yields a t` says that the step `p` gives `a`, records no error and stops at `t`.  For each way
of making a step there is one equivalence that says when it yields what; these are the only facts
about steps that the proofs about the parser use.

A step stops at the last token of what it reads, so `t.advance` is the stream that is left
after it. -/

namespace Marmoset

namespace TokenStream

/-- A current token other than the end is the first of the tokens. -/
theorem tokens_eq_cons {s : TokenStream} (h : s.current.kind ≠ .eof) :
    s.tokens = s.current :: s.advance.tokens := by
  cases ht : s.tokens with
  | nil => simp [current, ht, Token.atEnd] at h
  | cons t ts => simp [current, advance, ht]

/-- A next token other than the end is the first of the tokens after the current one. -/
theorem advance_tokens_eq_cons {s : TokenStream} (h : s.next.kind ≠ .eof) :
    s.advance.tokens = s.next :: s.advance.advance.tokens :=
  tokens_eq_cons h

theorem current_eq {s : TokenStream} {t : Token} {ts : List Token} (h : s.tokens = t :: ts) :
    s.current = t := by
  simp [current, h]

theorem advance_tokens_eq {s : TokenStream} {t : Token} {ts : List Token}
    (h : s.tokens = t :: ts) : s.advance.tokens = ts := by
  simp [advance, h]

theorem next_eq {s : TokenStream} {t : Token} {ts : List Token} (h : s.advance.tokens = t :: ts) :
    s.next = t :=
  current_eq h

end TokenStream

namespace Parsed

variable {α β : Type} {start : TokenStream}

/-- The step gives `a`, records nothing and stops at `t`. -/
def Yields (p : Parsed start α) (a : α) (t : TokenStream) : Prop :=
  p.outcome = .ok a ∧ p.recorded = [] ∧ p.stop = t

theorem yields_ok {a b : α} {t u : TokenStream} {h : t.remaining ≤ start.remaining} :
    (ok a t h : Parsed start α).Yields b u ↔ b = a ∧ u = t := by
  simp [Yields, ok, eq_comm]

theorem yields_here {a b : α} {u : TokenStream} :
    (here a : Parsed start α).Yields b u ↔ b = a ∧ u = start :=
  yields_ok

theorem not_yields_fail {e : ParseError} {a : α} {t u : TokenStream}
    {h : t.remaining ≤ start.remaining} : ¬ (fail e t h : Parsed start α).Yields a u := by
  simp [Yields, fail]

theorem not_yields_failHere {cause : ParseError.Cause} {a : α} {u : TokenStream} :
    ¬ (failHere cause : Parsed start α).Yields a u :=
  not_yields_fail

theorem yields_expect {kind : TokenKind} {x : Unit} {t : TokenStream} :
    (expect kind start).Yields x t ↔ start.next.kind = kind ∧ t = start.advance := by
  unfold expect
  split
  · next h => simp [yields_ok, h]
  · next h => simp [not_yields_fail, h]

theorem yields_skipSemicolon {a b : α} {t : TokenStream} :
    (skipSemicolon a start).Yields b t ↔
      b = a ∧ (start.next.kind = .semicolon ∧ t = start.advance ∨
        start.next.kind ≠ .semicolon ∧ t = start) := by
  unfold skipSemicolon
  split
  · next h => simp [yields_ok, h]
  · next h => simp [yields_here, h]

theorem yields_shift {p : Parsed start.advance α} {a : α} {t : TokenStream} :
    p.shift.Yields a t ↔ p.Yields a t :=
  Iff.rfl

theorem yields_map {p : Parsed start α} {f : α → β} {b : β} {t : TokenStream} :
    (p.map f).Yields b t ↔ ∃ a, p.Yields a t ∧ f a = b := by
  unfold Yields
  rw [outcome_map, recorded_map, stop_map]
  cases p.outcome with
  | error e => simp [Except.map]
  | ok a => simp [Except.map, and_comm, and_left_comm]

theorem yields_after {p : Parsed start α} {errors : List ParseError} {a : α} {t : TokenStream} :
    (p.after errors).Yields a t ↔ errors = [] ∧ p.Yields a t := by
  simp only [Yields, after, List.append_eq_nil_iff, and_assoc, and_left_comm]

theorem yields_resume {p : Parsed start α}
    {f : Except ParseError α → (t : TokenStream) → t.remaining ≤ start.remaining → Parsed t β}
    {b : β} {u : TokenStream} :
    (p.resume f).Yields b u ↔
      p.recorded = [] ∧ (f p.outcome p.stop p.remaining_le).Yields b u := by
  unfold resume
  rw [yields_after]
  rfl

theorem yields_andThen {p : Parsed start α}
    {f : α → (t : TokenStream) → t.remaining ≤ start.remaining → Parsed t β} {b : β}
    {u : TokenStream} :
    (p.andThen f).Yields b u ↔ ∃ a t, ∃ h, p.Yields a t ∧ (f a t h).Yields b u := by
  obtain ⟨outcome, recorded, stop, hle⟩ := p
  unfold andThen
  rw [yields_resume]
  cases outcome with
  | error e =>
      constructor
      · exact fun h => absurd h.2 not_yields_fail
      · rintro ⟨_, _, _, ⟨h, _⟩, _⟩
        cases h
  | ok a =>
      constructor
      · rintro ⟨rfl, h⟩
        exact ⟨a, stop, hle, ⟨rfl, rfl, rfl⟩, h⟩
      · rintro ⟨_, _, _, ⟨h, rfl, rfl⟩, hf⟩
        cases h
        exact ⟨rfl, hf⟩

theorem Yields.remaining_le {p : Parsed start α} {a : α} {t : TokenStream} (h : p.Yields a t) :
    t.remaining ≤ start.remaining :=
  h.2.2 ▸ p.remaining_le

theorem Yields.andThen {p : Parsed start α}
    {f : α → (t : TokenStream) → t.remaining ≤ start.remaining → Parsed t β} {a : α} {b : β}
    {t u : TokenStream} (h : p.Yields a t) (hf : ∀ ht, (f a t ht).Yields b u) :
    (p.andThen f).Yields b u :=
  yields_andThen.mpr ⟨a, t, h.remaining_le, h, hf _⟩

theorem Yields.map {p : Parsed start α} {a : α} {t : TokenStream} (h : p.Yields a t) (f : α → β) :
    (p.map f).Yields (f a) t :=
  yields_map.mpr ⟨a, h, rfl⟩

end Parsed

end Marmoset
