import Marmoset.Proofs.Braces
import Marmoset.Proofs.Dropped

/-! # Where blocks end

A statement that cannot be read is dropped, and the block goes on from where reading stopped.  If
that is inside braces of the statement itself, a hash or an inner block, the block goes on inside
those braces, and the next closing brace that it meets there ends it.  So a block may end before its
matching brace; it never ends after it.

`Parsed.Tracks` compares the level of braces after a step with the level that it should be.  It is
never lower, and a level that is too high stays so: the parser passes a closing brace only as the end
of a hash or of a block whose opening brace it has passed before.  All steps of the parser are shown
to be like this, along with the lists of the statements they drop (`Stmt.parseBlock_tracks`).  A
block therefore ends at its matching brace exactly if no statement dropped in it changes the level
(`block_ends_at_matching_brace`). -/

namespace Marmoset

/-! ### What steps do to the level -/

/-- After the statement is dropped, the block goes on at the level that the statement starts at. -/
def Dropped.StaysLevel (d : Dropped) : Prop :=
  d.resumption.level = d.start.level

instance (d : Dropped) : Decidable d.StaysLevel :=
  inferInstanceAs (Decidable (d.resumption.level = d.start.level))

/-- None of the dropped statements changes the level. -/
def StayLevel (drops : List Dropped) : Prop :=
  ∀ d ∈ drops, d.StaysLevel

instance (drops : List Dropped) : Decidable (StayLevel drops) :=
  inferInstanceAs (Decidable (∀ d ∈ drops, d.StaysLevel))

theorem stayLevel_nil : StayLevel [] := nofun

theorem stayLevel_append_iff {ds ds' : List Dropped} :
    StayLevel (ds ++ ds') ↔ StayLevel ds ∧ StayLevel ds' :=
  List.forall_mem_append

theorem stayLevel_cons_iff {d : Dropped} {ds : List Dropped} :
    StayLevel (d :: ds) ↔ d.StaysLevel ∧ StayLevel ds :=
  List.forall_mem_cons

theorem TokenKind.brace_nonneg {kind : TokenKind} (h : kind ≠ .rightBrace) : 0 ≤ kind.brace := by
  cases kind <;> first | exact absurd rfl h | decide

namespace Parsed

variable {α β : Type} {s : TokenStream} {c : ClosedBlock} {e : Int}

/-- A step inside a block, which drops the given statements and leads to the level `e` when none of
them changes the level.  It stops inside the block.  The level after it, or the level at which it
fails, is not below `e`, and it is `e` only if no statement changes the level. -/
structure Tracks (c : ClosedBlock) (e : Int) (p : Parsed s α) (drops : List Dropped) : Prop where
  recorded : p.recorded = drops.map Dropped.error
  failed {error : ParseError} : p.outcome = .error error →
    c.Inside p.stop ∧ e ≤ p.stop.level ∧ (p.stop.level = e → StayLevel drops)
  kept {a : α} : p.outcome = .ok a →
    c.Passed p.stop ∧ e ≤ p.stop.advance.level ∧ (p.stop.advance.level = e ↔ StayLevel drops)

/-! #### Single steps -/

theorem tracks_passed (h : c.Passed s) (a : α) :
    (here a : Parsed s α).Tracks c s.advance.level [] where
  recorded := rfl
  failed := nofun
  kept _ := ⟨h, Int.le_refl _, iff_of_true rfl stayLevel_nil⟩

theorem tracks_here {kind : TokenKind} (h : c.Inside s) (found : s.current.kind = kind)
    (none : kind.brace = 0) (a : α) : (here a : Parsed s α).Tracks c s.level [] := by
  obtain ⟨passed, same⟩ := h.pass found none
  rw [← same]
  exact tracks_passed passed a

theorem tracks_failHere (h : c.Inside s) (cause : ParseError.Cause) :
    (failHere cause : Parsed s α).Tracks c s.level [] where
  recorded := rfl
  failed _ := ⟨h, Int.le_refl _, fun _ => stayLevel_nil⟩
  kept := nofun

/-- A token that is no opening brace changes the level by itself. -/
theorem tracks_ok_advance {kind : TokenKind} (inside : c.Inside s.advance)
    (found : s.next.kind = kind) (notOpening : kind.brace ≤ 0)
    (stays : (c.place []).level ≤ s.advance.level + kind.brace) (a : α) :
    (ok a s.advance s.remaining_advance_le : Parsed s α).Tracks c
      (s.advance.level + kind.brace) [] := by
  have after : s.advance.advance.level = s.advance.level + kind.brace := by
    rw [TokenStream.level_advance, ← found]
    rfl
  refine ⟨rfl, nofun, fun _ => ⟨?_, Int.le_of_eq after.symm, iff_of_true after stayLevel_nil⟩⟩
  exact inside.passed (after ▸ stays) (by omega)

theorem tracks_expect (h : c.Passed s) {kind : TokenKind} (notOpening : kind.brace ≤ 0)
    (stays : (c.place []).level ≤ s.advance.level + kind.brace) :
    (expect kind s).Tracks c (s.advance.level + kind.brace) [] := by
  unfold expect
  split
  · next found => exact tracks_ok_advance h.next found notOpening stays ()
  · refine ⟨rfl, fun _ => ⟨h.inside, ?_, fun _ => stayLevel_nil⟩, ?_⟩
    · have le := h.level_le
      show s.advance.level + kind.brace ≤ s.level
      omega
    · rintro _ ⟨⟩

/-- A token that is expected and is no brace keeps the level. -/
theorem tracks_expect_of_zero (h : c.Passed s) (kind : TokenKind) (none : kind.brace = 0) :
    (expect kind s).Tracks c s.advance.level [] := by
  have low := h.next.level_le
  have step := tracks_expect h (Int.le_of_eq none) (by omega)
  rwa [none, Int.add_zero] at step

theorem tracks_skipSemicolon (h : c.Passed s) (a : α) :
    (skipSemicolon a s).Tracks c s.advance.level [] := by
  unfold skipSemicolon
  split
  · next found =>
    obtain ⟨passed, same⟩ := h.pass found rfl
    refine ⟨rfl, ?_, fun _ => ⟨passed, Int.le_of_eq same.symm, iff_of_true same stayLevel_nil⟩⟩
    rintro _ ⟨⟩
  · exact tracks_passed h a

/-! #### Steps in a row -/

theorem Tracks.map {p : Parsed s α} {drops : List Dropped} (h : p.Tracks c e drops) (f : α → β) :
    (p.map f).Tracks c e drops := by
  obtain ⟨outcome, recorded, stop, le⟩ := p
  cases outcome with
  | ok a => exact ⟨h.recorded, nofun, fun _ => h.kept rfl⟩
  | error error => exact ⟨h.recorded, fun _ => h.failed rfl, nofun⟩

theorem Tracks.shift {p : Parsed s.advance α} {drops : List Dropped} (h : p.Tracks c e drops) :
    p.shift.Tracks c e drops :=
  ⟨h.recorded, h.failed, h.kept⟩

/-- Two steps, of which the second one may change the level by a negative `k` besides. -/
theorem Tracks.andThenClosing {p : Parsed s α} {drops : List Dropped} {k : Int} (hk : k ≤ 0)
    {f : α → (t : TokenStream) → t.remaining ≤ s.remaining → Parsed t β}
    {g : α → (t : TokenStream) → t.remaining ≤ s.remaining → List Dropped}
    (h : p.Tracks c e drops)
    (next : ∀ a t ht, c.Passed t → e ≤ t.advance.level →
      (f a t ht).Tracks c (t.advance.level + k) (g a t ht)) :
    (p.andThen f).Tracks c (e + k) (drops ++ p.following g) := by
  obtain ⟨outcome, recorded, stop, le⟩ := p
  cases outcome with
  | error error =>
    obtain ⟨inside, above, good⟩ :
      c.Inside stop ∧ e ≤ stop.level ∧ (stop.level = e → StayLevel drops) := h.failed rfl
    show Tracks c (e + k) ⟨.error error, recorded ++ [], stop, _⟩ (drops ++ [])
    rw [List.append_nil, List.append_nil]
    refine ⟨h.recorded, fun _ => ⟨inside, by show e + k ≤ stop.level; omega, fun same => ?_⟩, nofun⟩
    have same : stop.level = e + k := same
    exact good (by omega)
  | ok a =>
    obtain ⟨passed, above, good⟩ : c.Passed stop ∧ e ≤ stop.advance.level ∧
      (stop.advance.level = e ↔ StayLevel drops) := h.kept rfl
    have step := next a stop le passed above
    show Tracks c (e + k) ⟨(f a stop le).outcome, recorded ++ (f a stop le).recorded,
      (f a stop le).stop, _⟩ (drops ++ g a stop le)
    refine ⟨?_, fun failed => ?_, fun kept => ?_⟩
    · rw [List.map_append, ← step.recorded]
      exact congrArg (· ++ _) h.recorded
    · obtain ⟨inside, above', good'⟩ := step.failed failed
      refine ⟨inside, by show e + k ≤ (f a stop le).stop.level; omega, fun same => ?_⟩
      have same : (f a stop le).stop.level = e + k := same
      exact stayLevel_append_iff.mpr ⟨good.mp (by omega), good' (by omega)⟩
    · obtain ⟨passed', above', good'⟩ := step.kept kept
      refine ⟨passed', by show e + k ≤ (f a stop le).stop.advance.level; omega, ?_⟩
      rw [stayLevel_append_iff, ← good, ← good']
      show (f a stop le).stop.advance.level = e + k ↔ _
      omega

theorem Tracks.andThen {p : Parsed s α} {drops : List Dropped}
    {f : α → (t : TokenStream) → t.remaining ≤ s.remaining → Parsed t β}
    {g : α → (t : TokenStream) → t.remaining ≤ s.remaining → List Dropped}
    (h : p.Tracks c e drops)
    (next : ∀ a t ht, c.Passed t → (f a t ht).Tracks c t.advance.level (g a t ht)) :
    (p.andThen f).Tracks c e (drops ++ p.following g) := by
  have step := h.andThenClosing (Int.le_refl 0) (f := f) (g := g) fun a t ht passed _ => by
    rw [Int.add_zero]
    exact next a t ht passed
  rwa [Int.add_zero] at step

/-- A first step that drops nothing. -/
theorem Tracks.silentThen {p : Parsed s α}
    {f : α → (t : TokenStream) → t.remaining ≤ s.remaining → Parsed t β}
    {g : α → (t : TokenStream) → t.remaining ≤ s.remaining → List Dropped} (h : p.Tracks c e [])
    (next : ∀ a t ht, c.Passed t → (f a t ht).Tracks c t.advance.level (g a t ht)) :
    (p.andThen f).Tracks c e (p.following g) :=
  h.andThen next

/-- A second step that drops nothing. -/
theorem Tracks.andThenSilent {p : Parsed s α} {drops : List Dropped}
    {f : α → (t : TokenStream) → t.remaining ≤ s.remaining → Parsed t β} (h : p.Tracks c e drops)
    (next : ∀ a t ht, c.Passed t → (f a t ht).Tracks c t.advance.level []) :
    (p.andThen f).Tracks c e drops := by
  have step := h.andThen (g := fun _ _ _ => []) next
  rwa [following_silent, List.append_nil] at step

/-! #### Lists -/

section Lists

variable {closing : TokenKind} {n : Nat} {item : (t : TokenStream) → t.remaining < n → Parsed t α}
  {dropped : (t : TokenStream) → t.remaining < n → List Dropped}

theorem tracks_moreItems (notOpening : closing.brace ≤ 0)
    (items : ∀ t ht, c.Inside t → (item t ht).Tracks c t.level (dropped t ht)) (s : TokenStream)
    (h : s.remaining ≤ n) (passed : c.Passed s)
    (stays : (c.place []).level ≤ s.advance.level + closing.brace) :
    (moreItems closing n item s h).Tracks c (s.advance.level + closing.brace)
      (droppedMore n item dropped s h) := by
  rw [moreItems, droppedMore]
  by_cases comma : s.next.kind = .comma
  · rw [dif_pos comma, dif_pos comma]
    have fewer := s.remaining_advance_advance_lt (by rw [comma]; decide)
    obtain ⟨passed, same⟩ := passed.pass comma rfl
    have first := items _ (Nat.lt_of_lt_of_le fewer h) passed.next
    rw [same] at first
    refine (first.andThenClosing notOpening fun a t ht passed above => ?_).shift.shift
    exact (tracks_moreItems notOpening items t _ passed (by omega)).map _
  · rw [dif_neg comma, dif_neg comma]
    exact (tracks_expect passed notOpening stays).map _
termination_by s.remaining

theorem tracks_items (closing : TokenKind) (notOpening : closing.brace ≤ 0)
    (items : ∀ t ht, c.Inside t → (item t ht).Tracks c t.level (dropped t ht))
    (h : s.advance.remaining < n) (inside : c.Inside s.advance)
    (stays : (c.place []).level ≤ s.advance.level + closing.brace) :
    (Parsed.items closing n item s h).Tracks c (s.advance.level + closing.brace)
      (droppedItems closing n item dropped s h) := by
  unfold Parsed.items droppedItems
  by_cases closed : s.next.kind = closing
  · rw [if_pos closed, if_pos closed]
    exact tracks_ok_advance inside closed notOpening stays []
  · rw [if_neg closed, if_neg closed]
    refine ((items _ h inside).andThenClosing notOpening fun a t ht passed above => ?_).shift
    exact (tracks_moreItems notOpening items t _ passed (by omega)).map _

/-- Items between tokens that are no braces. -/
theorem tracks_items_of_zero (closing : TokenKind) (none : closing.brace = 0)
    (items : ∀ t ht, c.Inside t → (item t ht).Tracks c t.level (dropped t ht))
    (h : s.advance.remaining < n) (inside : c.Inside s.advance) :
    (Parsed.items closing n item s h).Tracks c s.advance.level
      (droppedItems closing n item dropped s h) := by
  have low := inside.level_le
  have list := tracks_items closing (Int.le_of_eq none) items h inside (by omega)
  rwa [none, Int.add_zero] at list

end Lists

theorem tracks_parameters (inside : c.Inside s.advance) :
    (parameters s).Tracks c s.advance.level [] := by
  have names : ∀ t : TokenStream, t.remaining < s.remaining + 1 → c.Inside t →
      (bareName t).Tracks c t.level [] := by
    intro t _ inside
    unfold bareName
    split
    · next isName => exact tracks_here inside isName rfl _
    · exact tracks_failHere inside _
  have list := tracks_items_of_zero .rightParen rfl names
    (Nat.lt_succ_of_le s.remaining_advance_le) inside
  rwa [droppedItems_silent] at list

/-- The statements of a block, where reading starts at `s`: it ends on a closing brace of the block,
not below the level of `s`, and at that level exactly if no statement changes the level. -/
structure TracksBlock (c : ClosedBlock) (p : Parsed s Block) (drops : List Dropped) : Prop where
  recorded : p.recorded = drops.map Dropped.error
  inside : c.Inside p.stop
  closed : p.stop.current.kind = .rightBrace
  level_le : s.level ≤ p.stop.level
  level_eq_iff : p.stop.level = s.level ↔ StayLevel drops

/-- A block with its braces is at the level below its statements. -/
theorem TracksBlock.tracks {p : Parsed s Block} {drops : List Dropped} (h : p.TracksBlock c drops)
    {body : Block} (read : p.outcome = .ok body) (up : s.level = e + 1)
    (low : (c.place []).level ≤ e) : p.Tracks c e drops := by
  have down : p.stop.advance.level = p.stop.level + -1 := by
    rw [TokenStream.level_advance, h.closed]
    rfl
  have above := h.level_le
  refine ⟨h.recorded, fun failed => ?_, fun _ => ⟨?_, by omega, ?_⟩⟩
  · cases read.symm.trans failed
  · exact h.inside.passed (by omega) (by omega)
  · rw [← h.level_eq_iff]
    omega

/-! #### Steps of a block -/

theorem Tracks.resumption {d : Dropped} {drops : List Dropped}
    (h : (Stmt.parse d.start).Tracks c e drops) :
    c.Inside d.resumption ∧ e ≤ d.resumption.level ∧ (d.resumption.level = e → StayLevel drops) := by
  obtain ⟨inside, above, good⟩ := h.failed d.fails
  unfold Dropped.resumption
  by_cases atClose : (Stmt.parse d.start).stop.current.kind = .rightBrace
  · rw [if_pos atClose]
    exact ⟨inside, above, good⟩
  · have higher := TokenStream.level_advance (Stmt.parse d.start).stop
    have up := TokenKind.brace_nonneg atClose
    have low := inside.level_le
    rw [if_neg atClose]
    exact ⟨inside.advance (by omega), by omega, fun same => good (by omega)⟩

theorem tracksBlock_of_ended (ended : s.EndsBlock) (inside : c.Inside s) :
    (Stmt.parseBlock s).TracksBlock c (Stmt.droppedBlock s) := by
  have closed := ended.resolve_right inside.current_ne_eof
  rw [Stmt.parseBlock_of_closed closed, Stmt.droppedBlock_of_ended ended]
  exact ⟨rfl, inside, closed, Int.le_refl _, iff_of_true rfl stayLevel_nil⟩

theorem TracksBlock.of_goesOn {t : TokenStream} {errors : List ParseError}
    (rest : (Stmt.parseBlock t).TracksBlock c (Stmt.droppedBlock t))
    (goesOn : Stmt.BlockGoesOn s t errors) (recorded : errors = (Stmt.droppedAt s).map Dropped.error)
    (above : s.level ≤ t.level) (stays : t.level = s.level ↔ StayLevel (Stmt.droppedAt s)) :
    (Stmt.parseBlock s).TracksBlock c (Stmt.droppedBlock s) := by
  have above' := rest.level_le
  refine ⟨?_, goesOn.stop ▸ rest.inside, goesOn.stop ▸ rest.closed, ?_, ?_⟩
  · rw [goesOn.recorded, goesOn.dropped, List.map_append, ← recorded, ← rest.recorded]
  · rw [goesOn.stop]
    omega
  · rw [goesOn.stop, goesOn.dropped, stayLevel_append_iff, ← stays, ← rest.level_eq_iff]
    omega

end Parsed

theorem Precedence.brace_of_lt {p : Precedence} {kind : TokenKind} (h : p < ofKind kind) :
    kind.brace = 0 := by
  cases kind <;> first | rfl | exact absurd h (not_lt_lowest p)

open Parsed TokenStream

variable {c : ClosedBlock}

mutual

theorem Expr.parse_tracks (p : Precedence) (s : TokenStream) (h : c.Inside s) :
    (Expr.parse p s).Tracks c s.level (Expr.dropped p s) := by
  rw [Expr.parse, Expr.dropped]
  refine (Expr.parsePrimary_tracks s h).andThen fun left t _ passed => ?_
  exact Expr.parseOperators_tracks p left t passed
termination_by 5 * s.remaining + 2

theorem Expr.parsePrimary_tracks (s : TokenStream) (h : c.Inside s) :
    (Expr.parsePrimary s).Tracks c s.level (Expr.droppedPrimary s) := by
  have notEof := h.current_ne_eof
  have pos : 0 < s.remaining := remaining_pos notEof
  rw [Expr.parsePrimary, Expr.droppedPrimary, dif_neg notEof, dif_neg notEof]
  cases kind : s.current.kind
  case eof => exact absurd kind notEof
  case name | text | trueWord | falseWord => exact tracks_here h kind rfl _
  case integer =>
    simp only
    split
    · exact tracks_here h kind rfl _
    · exact tracks_failHere h _
  case bang | minus =>
    obtain ⟨passed, same⟩ := h.pass kind rfl
    rw [← same]
    exact ((Expr.parse_tracks .unary s.advance passed.next).map _).shift
  case leftParen =>
    obtain ⟨passed, same⟩ := h.pass kind rfl
    rw [← same]
    refine Tracks.shift ((Expr.parse_tracks .lowest s.advance passed.next).andThenSilent ?_)
    exact fun inner t _ passed => (tracks_expect_of_zero passed .rightParen rfl).map _
  case ifWord =>
    obtain ⟨passed, same⟩ := h.pass kind rfl
    rw [← same]
    refine Tracks.shift ((Expr.parse_tracks .lowest s.advance passed.next).andThen ?_)
    intro condition t _ passed
    refine (Stmt.parseBraces_tracks t passed).andThen fun consequence u _ passed => ?_
    by_cases hasElse : u.next.kind = .elseWord
    · obtain ⟨passed, same⟩ := passed.pass hasElse rfl
      rw [if_pos hasElse, if_pos hasElse, ← same]
      exact ((Stmt.parseBraces_tracks u.advance passed).map _).shift
    · rw [if_neg hasElse, if_neg hasElse]
      exact tracks_passed passed _
  case fnWord =>
    obtain ⟨passed, same⟩ := h.pass kind rfl
    rw [← same]
    refine (tracks_expect_of_zero passed .leftParen rfl).silentThen fun _ t _ passed => ?_
    refine (tracks_parameters passed.next).silentThen fun parameters u _ passed => ?_
    exact (Stmt.parseBraces_tracks u passed).map _
  case leftBracket =>
    obtain ⟨passed, same⟩ := h.pass kind rfl
    rw [← same]
    refine (tracks_items_of_zero .rightBracket rfl ?_ _ passed.next).map _
    exact fun t _ inside => Expr.parse_tracks .lowest t inside
  case leftBrace =>
    have up : s.advance.level = s.level + 1 := by
      rw [level_advance, kind]
      rfl
    have down : s.advance.level + TokenKind.rightBrace.brace = s.level := by
      rw [up]
      show s.level + 1 + -1 = s.level
      omega
    have low := h.level_le
    have list := tracks_items .rightBrace (by decide)
      (fun t (_ : t.remaining < s.remaining) inside => Expr.parsePair_tracks t inside)
      (remaining_advance_lt pos) (h.advance (by omega)) (by omega)
    rw [down] at list
    exact list.map _
  all_goals exact tracks_failHere h _
termination_by 5 * s.remaining + 1
decreasing_by all_goals ((try simp only [remaining_advance] at *); omega)

theorem Expr.parsePair_tracks (s : TokenStream) (h : c.Inside s) :
    (Expr.parsePair s).Tracks c s.level (Expr.droppedPair s) := by
  rw [Expr.parsePair, Expr.droppedPair]
  refine (Expr.parse_tracks .lowest s h).andThen fun key u _ passed => ?_
  refine (tracks_expect_of_zero passed .colon rfl).silentThen fun _ v _ passed => ?_
  exact ((Expr.parse_tracks .lowest v.advance passed.next).map _).shift
termination_by 5 * s.remaining + 3
decreasing_by all_goals ((try simp only [remaining_advance] at *); omega)

theorem Expr.parseOperators_tracks (p : Precedence) (left : Expr) (s : TokenStream)
    (h : c.Passed s) :
    (Expr.parseOperators p left s).Tracks c s.advance.level (Expr.droppedOperators p left s) := by
  rw [Expr.parseOperators, Expr.droppedOperators]
  by_cases tighter : p < Precedence.ofKind s.next.kind
  · have fewer := s.remaining_advance_advance_lt (Precedence.ne_eof_of_lt tighter)
    obtain ⟨passed, same⟩ := h.pass rfl (Precedence.brace_of_lt tighter)
    rw [dif_pos tighter, dif_pos tighter, ← same]
    cases kind : s.next.kind
    case leftParen =>
      refine Tracks.shift (Tracks.andThen
        (tracks_items_of_zero .rightParen rfl ?_ fewer passed.next) ?_)
      · exact fun t _ inside => Expr.parse_tracks .lowest t inside
      · exact fun arguments t _ passed => Expr.parseOperators_tracks p _ t passed
    case leftBracket =>
      refine ((Expr.parse_tracks .lowest s.advance.advance passed.next).andThen ?_).shift.shift
      intro position t _ passed
      refine (tracks_expect_of_zero passed .rightBracket rfl).silentThen fun _ u _ passed => ?_
      exact Expr.parseOperators_tracks p _ u passed
    case plus | minus | star | slash | less | greater | equal | notEqual =>
      refine ((Expr.parse_tracks _ s.advance.advance passed.next).andThen ?_).shift.shift
      exact fun right t _ passed => Expr.parseOperators_tracks p _ t passed
    all_goals
      rw [kind] at tighter
      exact absurd tighter (Precedence.not_lt_lowest p)
  · rw [dif_neg tighter, dif_neg tighter]
    exact tracks_passed h left
termination_by 5 * s.remaining
decreasing_by all_goals ((try simp only [remaining_advance] at *); omega)

theorem Stmt.parseBraces_tracks (s : TokenStream) (h : c.Passed s) :
    (Stmt.parseBraces s).Tracks c s.advance.level (Stmt.droppedBraces s) := by
  rw [Stmt.parseBraces, Stmt.droppedBraces]
  unfold expect
  split
  · next opening =>
    have up : s.advance.advance.level = s.advance.level + 1 := by
      rw [level_advance]
      show s.advance.level + s.next.kind.brace = _
      rw [opening]
      rfl
    have low := h.next.level_le
    have block := Stmt.parseBlock_tracks s.advance.advance (h.next.advance (by omega))
    obtain ⟨places, made⟩ := Stmt.exists_blockMadeOf s.advance.advance
    show Tracks c s.advance.level (Stmt.parseBlock s.advance.advance).shift.shift
      (Stmt.droppedBlock s.advance.advance)
    exact (block.tracks made.statements up low).shift.shift
  · have le := h.level_le
    exact ⟨rfl, fun _ => ⟨h.inside, le, fun _ => stayLevel_nil⟩, nofun⟩
termination_by 5 * s.advance.remaining + 5
decreasing_by all_goals ((try simp only [remaining_advance] at *); omega)

theorem Stmt.parseBlock_tracks (s : TokenStream) (h : c.Inside s) :
    (Stmt.parseBlock s).TracksBlock c (Stmt.droppedBlock s) := by
  by_cases ended : s.EndsBlock
  · exact tracksBlock_of_ended ended h
  have pos := remaining_pos h.current_ne_eof
  have le := (Stmt.parse s).remaining_le
  have first := Stmt.parse_tracks s h
  cases outcome : (Stmt.parse s).outcome with
  | ok statement =>
    obtain ⟨passed, above, stays⟩ := first.kept outcome
    have rest := Stmt.parseBlock_tracks (Stmt.parse s).stop.advance passed.next
    rw [← Stmt.droppedAt_of_ok outcome] at stays
    refine rest.of_goesOn (Stmt.blockGoesOn_of_ok ended outcome) ?_ above stays
    rw [Stmt.droppedAt_of_ok outcome, first.recorded]
  | error error =>
    obtain ⟨d, start⟩ : ∃ d : Dropped, d.start = s := ⟨⟨s, error, outcome⟩, rfl⟩
    rw [← start] at first ended
    obtain ⟨inside, above, good⟩ := first.resumption
    have rest : (Stmt.parseBlock d.resumption).TracksBlock c (Stmt.droppedBlock d.resumption) := by
      by_cases endsHere : d.resumption.EndsBlock
      · exact tracksBlock_of_ended endsHere inside
      · have fewer := start ▸ Dropped.resumption_lt ended endsHere
        exact Stmt.parseBlock_tracks d.resumption inside
    subst start
    refine rest.of_goesOn (Stmt.blockGoesOn_of_dropped d ended) ?_ above ?_
    · rw [Stmt.droppedAt_start d, List.map_append, ← first.recorded]
      rfl
    · rw [Stmt.droppedAt_start d, stayLevel_append_iff, stayLevel_cons_iff]
      exact ⟨fun same => ⟨good same, same, stayLevel_nil⟩, fun stay => stay.2.1⟩
termination_by 5 * s.remaining + 4
decreasing_by all_goals ((try simp only [remaining_advance] at *); omega)

theorem Stmt.parse_tracks (s : TokenStream) (h : c.Inside s) :
    (Stmt.parse s).Tracks c s.level (Stmt.dropped s) := by
  rw [Stmt.parse, Stmt.dropped]
  by_cases isLet : s.current.kind = .letWord
  · have pos : 0 < s.remaining := remaining_pos (by rw [isLet]; decide)
    obtain ⟨passed, same⟩ := h.pass isLet rfl
    rw [dif_pos isLet, dif_pos isLet, ← same]
    refine (tracks_expect_of_zero passed .name rfl).silentThen fun _ t _ passed => ?_
    refine (tracks_expect_of_zero passed .assign rfl).silentThen fun _ u _ passed => ?_
    refine Tracks.shift ((Expr.parse_tracks .lowest u.advance passed.next).andThenSilent ?_)
    exact fun value v _ passed => tracks_skipSemicolon passed _
  rw [dif_neg isLet, dif_neg isLet]
  by_cases isReturn : s.current.kind = .returnWord
  · have pos : 0 < s.remaining := remaining_pos (by rw [isReturn]; decide)
    obtain ⟨passed, same⟩ := h.pass isReturn rfl
    rw [dif_pos isReturn, dif_pos isReturn, ← same]
    refine Tracks.shift ((Expr.parse_tracks .lowest s.advance passed.next).andThenSilent ?_)
    exact fun value t _ passed => tracks_skipSemicolon passed _
  · rw [dif_neg isReturn, dif_neg isReturn]
    refine (Expr.parse_tracks .lowest s h).andThenSilent ?_
    exact fun value t _ passed => tracks_skipSemicolon passed _
termination_by 5 * s.remaining + 3
decreasing_by all_goals ((try simp only [remaining_advance] at *); omega)

end

/-! ### The matching brace -/

/-- All statements of a block are inside it, and the level does not fall from one to the next. -/
theorem Attempts.inside {s stop : TokenStream} {places : List TokenStream}
    (attempts : Attempts s places stop) (h : c.Inside s) :
    s.level ≤ stop.level ∧ ∀ p ∈ places, c.Inside p ∧ s.level ≤ p.level ∧ p.level ≤ stop.level := by
  -- one place in front of others that are not below it
  have cons {s t stop : TokenStream} {places : List TokenStream} (h : c.Inside s)
      (above : s.level ≤ t.level) (rest : t.level ≤ stop.level ∧
        ∀ p ∈ places, c.Inside p ∧ t.level ≤ p.level ∧ p.level ≤ stop.level) :
      s.level ≤ stop.level ∧
        ∀ p ∈ s :: places, c.Inside p ∧ s.level ≤ p.level ∧ p.level ≤ stop.level := by
    have whole := Int.le_trans above rest.1
    refine ⟨whole, List.forall_mem_cons.mpr ⟨⟨h, Int.le_refl _, whole⟩, fun p mem => ?_⟩⟩
    obtain ⟨inside, low, high⟩ := rest.2 p mem
    exact ⟨inside, Int.le_trans above low, high⟩
  induction attempts with
  | ended => exact ⟨Int.le_refl _, nofun⟩
  | @read s _ _ _ _ read _ ih =>
    obtain ⟨passed, above, -⟩ := (Stmt.parse_tracks s h).kept read
    exact cons h above (ih passed.next)
  | @dropped d _ _ _ _ ih =>
    obtain ⟨inside, above, -⟩ := (Stmt.parse_tracks d.start h).resumption
    exact cons h above (ih inside)

/-- **A block ends at its matching brace exactly when no dropped statement changes the level.**
Take tokens with balanced braces and an opening brace among them.  Reading the statements after it
ends on a closing brace, which is the matching one or stands before it, and the errors recorded on
the way are those of the statements that were dropped.  It ends on the matching one exactly if after
every dropped statement, also after those dropped in blocks inside the block, reading goes on at the
level of braces that the statement starts at.

At certain places inside these braces, each of them where the attempt before it has led to, the block
looks for a statement.  It holds exactly the statements that can be read there, in their order, and
all others are dropped.  If it ends on the matching brace, then all the places are at its own level,
and not inside the braces of something in it. -/
theorem block_ends_at_matching_brace {tokens before rest : List Token} {opening : Token}
    (balanced : BracesBalanced tokens) (notEof : ∀ t ∈ tokens, t.kind ≠ .eof)
    (split : tokens = before ++ opening :: rest) (isOpening : opening.kind = .leftBrace)
    (endLine : Nat) :
    ∃ body closing after, rest = body ++ closing :: after ∧ closing.kind = .rightBrace ∧
      BracesBalanced body ∧
      ∃ left places, left <:+ body ∧
        (Stmt.parseBlock ⟨rest, endLine⟩).stop = ⟨left ++ closing :: after, endLine⟩ ∧
        (Stmt.parseBlock ⟨rest, endLine⟩).stop.current.kind = .rightBrace ∧
        (Stmt.parseBlock ⟨rest, endLine⟩).recorded =
          (Stmt.droppedBlock ⟨rest, endLine⟩).map Dropped.error ∧
        (left = [] ↔ StayLevel (Stmt.droppedBlock ⟨rest, endLine⟩)) ∧
        Attempts ⟨rest, endLine⟩ places (Stmt.parseBlock ⟨rest, endLine⟩).stop ∧
        (Stmt.parseBlock ⟨rest, endLine⟩).outcome =
          .ok (places.filterMap fun p => (Stmt.parse p).outcome.toOption) ∧
        Stmt.droppedBlock ⟨rest, endLine⟩ = places.flatMap Stmt.droppedAt ∧
        (∀ p ∈ places, ∃ ahead, ahead <:+ body ∧ p = ⟨ahead ++ closing :: after, endLine⟩) ∧
        (left = [] → ∀ p ∈ places, p.level = (⟨rest, endLine⟩ : TokenStream).level) := by
  subst split
  obtain ⟨body, closing, after, rfl, isClosing, inner⟩ :=
    balanced.exists_matching (List.suffix_append before _) isOpening
  have noEnd : ∀ t ∈ body, t.kind ≠ .eof := fun t mem => notEof t (by simp [mem])
  let c : ClosedBlock := ⟨body, closing, after, endLine, isClosing, inner, noEnd⟩
  have start : c.Inside (c.place body) := ⟨body, List.suffix_rfl, rfl⟩
  have block := Stmt.parseBlock_tracks (c.place body) start
  obtain ⟨places, made⟩ := Stmt.exists_blockMadeOf (c.place body)
  obtain ⟨-, within⟩ := made.attempts.inside start
  obtain ⟨left, suffix, stop⟩ := block.inside
  have closed := block.closed
  rw [stop] at closed
  have matching : (Stmt.parseBlock (c.place body)).stop.level = (c.place body).level ↔ left = [] :=
    stop ▸ ClosedBlock.level_eq_iff suffix closed
  refine ⟨body, closing, after, rfl, isClosing, inner, left, places, suffix, stop, block.closed,
    block.recorded, matching.symm.trans block.level_eq_iff, made.attempts, made.statements,
    made.dropped, fun p mem => (within p mem).1, fun ends p mem => ?_⟩
  obtain ⟨-, low, high⟩ := within p mem
  rw [matching.mpr ends] at high
  exact Int.le_antisymm high low

/-- In `{ let = 1; if b { let = } 2 }` four statements are dropped, two of them in the inner block.
The outer block ends at the last brace and holds the other three. -/
theorem block_ends_at_matching_brace_malformed_statements :
    let rest : List Token := [⟨.letWord, "let", 1⟩, ⟨.assign, "=", 1⟩, ⟨.integer, "1", 1⟩,
      ⟨.semicolon, ";", 1⟩, ⟨.ifWord, "if", 1⟩, ⟨.name, "b", 1⟩, ⟨.leftBrace, "\x7b", 1⟩,
      ⟨.letWord, "let", 1⟩, ⟨.assign, "=", 1⟩, ⟨.rightBrace, "\x7d", 1⟩, ⟨.integer, "2", 1⟩,
      ⟨.rightBrace, "\x7d", 1⟩]
    ∃ body closing after, rest = body ++ closing :: after ∧ closing.kind = .rightBrace ∧
      BracesBalanced body ∧ (Stmt.parseBlock ⟨rest, 1⟩).stop = ⟨closing :: after, 1⟩ ∧
      (Stmt.parseBlock ⟨rest, 1⟩).recorded.length = 4 ∧
      (Stmt.parseBlock ⟨rest, 1⟩).outcome =
        .ok [.expr (.integer 1), .expr (.cond (.name "b") [] none), .expr (.integer 2)] ∧
      ∃ places, Attempts ⟨rest, 1⟩ places (Stmt.parseBlock ⟨rest, 1⟩).stop ∧
        (Stmt.parseBlock ⟨rest, 1⟩).outcome =
          .ok (places.filterMap fun p => (Stmt.parse p).outcome.toOption) ∧
        ∀ p ∈ places, p.level = (⟨rest, 1⟩ : TokenStream).level := by
  intro rest
  have two : BracesBalanced [⟨.integer, "2", 1⟩] := .other rfl .nil
  have malformed : BracesBalanced [⟨.letWord, "let", 1⟩, ⟨.assign, "=", 1⟩] :=
    .other rfl (.other rfl .nil)
  have inner := @BracesBalanced.pair ⟨.leftBrace, "\x7b", 1⟩ ⟨.rightBrace, "\x7d", 1⟩ _ _ rfl rfl
    malformed two
  have body : BracesBalanced (rest.take 11) :=
    .other rfl (.other rfl (.other rfl (.other rfl (.other rfl (.other rfl inner)))))
  have balanced : BracesBalanced (⟨.leftBrace, "\x7b", 1⟩ :: rest) := .pair rfl rfl body .nil
  obtain ⟨body, closing, after, split, isClosing, nested, left, places, -, stop, -, -, ends, attempts,
    statements, -, -, level⟩ := @block_ends_at_matching_brace _ [] rest _ balanced (by decide) rfl rfl 1
  obtain rfl := ends.mpr (by decide +kernel)
  have held : (Stmt.parseBlock ⟨rest, 1⟩).outcome =
      .ok [.expr (.integer 1), .expr (.cond (.name "b") [] none), .expr (.integer 2)] := by
    simp only [rest]
    with_unfolding_all rfl
  exact ⟨body, closing, after, split, isClosing, nested, stop, by decide +kernel, held, places,
    attempts, statements, level rfl⟩

/-- In `fn() { [{} 1 }` the array is given up on the brace after its first element, since a comma or
a bracket has to come next.  The block of the function ends there, and not at the last brace, which
is the one that matches. -/
theorem block_ends_early :
    let tokens := (TokenStream.ofSource "fn() \x7b [\x7b\x7d 1 \x7d").tokens
    tokens.map Token.kind = [.fnWord, .leftParen, .rightParen, .leftBrace, .leftBracket, .leftBrace,
      .rightBrace, .integer, .rightBrace] ∧
    BracesBalanced tokens ∧ BracesBalanced ((tokens.drop 4).take 4) ∧
    (Expr.parsePrimary ⟨tokens, 1⟩).stop = (Stmt.parseBlock ⟨tokens.drop 4, 1⟩).stop ∧
    (Stmt.parseBlock ⟨tokens.drop 4, 1⟩).stop.tokens = tokens.drop 6 ∧
    (Stmt.parseBlock ⟨tokens.drop 4, 1⟩).outcome = .ok [] ∧ tokens.drop 6 ≠ tokens.drop 8 := by
  have read : (TokenStream.ofSource "fn() \x7b [\x7b\x7d 1 \x7d").tokens =
      [⟨.fnWord, "fn", 1⟩, ⟨.leftParen, "(", 1⟩, ⟨.rightParen, ")", 1⟩, ⟨.leftBrace, "\x7b", 1⟩,
        ⟨.leftBracket, "[", 1⟩, ⟨.leftBrace, "\x7b", 1⟩, ⟨.rightBrace, "\x7d", 1⟩,
        ⟨.integer, "1", 1⟩, ⟨.rightBrace, "\x7d", 1⟩] := by decide +kernel
  have one : BracesBalanced [⟨.integer, "1", 1⟩] := .other rfl .nil
  have hash := @BracesBalanced.pair ⟨.leftBrace, "\x7b", 1⟩ ⟨.rightBrace, "\x7d", 1⟩ _ _ rfl rfl
    .nil one
  have body : BracesBalanced (⟨.leftBracket, "[", 1⟩ :: _) := .other rfl hash
  have block := @BracesBalanced.pair ⟨.leftBrace, "\x7b", 1⟩ ⟨.rightBrace, "\x7d", 1⟩ _ _ rfl rfl
    body .nil
  rw [read]
  refine ⟨rfl, .other rfl (.other rfl (.other rfl block)), body, by decide +kernel,
    by decide +kernel, by with_unfolding_all rfl, by decide +kernel⟩

end Marmoset
