import Marmoset.Proofs.ParserSound

/-! # The statements that are dropped in blocks

While a block is read, a statement that cannot be read is dropped and its error recorded.
`Stmt.droppedBlock` lists the statements that are dropped in a block and in the blocks inside it, in
the order in which they are given up; `Expr.dropped` and `Stmt.dropped` do the same for the blocks
inside an expression and inside a statement.  The recursion is that of the parser, which says where
each part ends and the next begins; what comes after a failure is not read.

A block looks for a statement at one place after another (`Attempts`).  It holds those that it finds,
in their order, and drops the others (`Stmt.exists_blockMadeOf`). -/

namespace Marmoset

open TokenStream (remaining_advance remaining_advance_lt remaining_pos)

/-- A statement that cannot be read: the place where it starts, and its error. -/
structure Dropped where
  start : TokenStream
  error : ParseError
  fails : (Stmt.parse start).outcome = .error error

/-- Where a block goes on after the statement: on a closing brace, which ends the block, or on the
token after the one that reading stopped on. -/
def Dropped.resumption (d : Dropped) : TokenStream :=
  if (Stmt.parse d.start).stop.current.kind = .rightBrace then (Stmt.parse d.start).stop
  else (Stmt.parse d.start).stop.advance

/-! ### Places inside a list of items -/

namespace TokenStream

variable {start t : TokenStream} {n : Nat}

theorem remaining_item_lt (h : start.remaining ≤ n) (comma : start.next.kind = .comma) :
    start.advance.advance.remaining < n :=
  Nat.lt_of_lt_of_le (start.remaining_advance_advance_lt (by rw [comma]; decide)) h

theorem remaining_le_of_item (h : start.remaining ≤ n) (comma : start.next.kind = .comma)
    (read : t.remaining ≤ start.advance.advance.remaining) : t.remaining ≤ n :=
  Nat.le_of_lt (Nat.lt_of_le_of_lt read (remaining_item_lt h comma))

theorem remaining_le_of_first (h : start.advance.remaining < n)
    (read : t.remaining ≤ start.advance.remaining) : t.remaining ≤ n :=
  Nat.le_of_lt (Nat.lt_of_le_of_lt read h)

end TokenStream

namespace Parsed

open TokenStream (remaining_item_lt remaining_le_of_item remaining_le_of_first)

variable {α : Type} {start : TokenStream}

/-- What is dropped after a step that gives a value. -/
def following (p : Parsed start α)
    (f : α → (t : TokenStream) → t.remaining ≤ start.remaining → List Dropped) : List Dropped :=
  match p.outcome with
  | .ok a => f a p.stop p.remaining_le
  | .error _ => []

section Lists

variable (closing : TokenKind) (n : Nat) (item : (t : TokenStream) → t.remaining < n → Parsed t α)
  (dropped : (t : TokenStream) → t.remaining < n → List Dropped)

/-- What is dropped in the items after the current one. -/
def droppedMore (start : TokenStream) (h : start.remaining ≤ n) : List Dropped :=
  if hc : start.next.kind = .comma then
    dropped start.advance.advance (remaining_item_lt h hc) ++
      (item start.advance.advance (remaining_item_lt h hc)).following fun _ t ht =>
        droppedMore t (remaining_le_of_item h hc ht)
  else []
termination_by start.remaining
decreasing_by exact Nat.lt_of_le_of_lt ht (remaining_item_lt (Nat.le_refl _) hc)

/-- What is dropped in a list of items. -/
def droppedItems (start : TokenStream) (h : start.advance.remaining < n) : List Dropped :=
  if start.next.kind = closing then []
  else
    dropped start.advance h ++ (item start.advance h).following fun _ t ht =>
      droppedMore n item dropped t (remaining_le_of_first h ht)

variable {closing n item}

theorem following_silent (p : Parsed start α) : p.following (fun _ _ _ => []) = [] := by
  unfold following
  cases p.outcome <;> rfl

theorem droppedMore_silent (start : TokenStream) (h : start.remaining ≤ n) :
    droppedMore n item (fun _ _ => []) start h = [] := by
  rw [droppedMore]
  split
  · next comma =>
    have fewer := remaining_item_lt (Nat.le_refl start.remaining) comma
    have le := (item start.advance.advance (remaining_item_lt h comma)).remaining_le
    simp only [List.nil_append, following]
    split
    · exact droppedMore_silent _ _
    · rfl
  · rfl
termination_by start.remaining

theorem droppedItems_silent (start : TokenStream) (h : start.advance.remaining < n) :
    droppedItems closing n item (fun _ _ => []) start h = [] := by
  unfold droppedItems
  split
  · rfl
  · simp only [droppedMore_silent, following_silent, List.nil_append]

end Lists

end Parsed

mutual

/-- What is dropped in the blocks inside an expression. -/
def Expr.dropped (p : Precedence) (s : TokenStream) : List Dropped :=
  Expr.droppedPrimary s ++ (Expr.parsePrimary s).following fun left t _ =>
    Expr.droppedOperators p left t
termination_by 5 * s.remaining + 2

/-- What is dropped in an expression up to its first operator. -/
def Expr.droppedPrimary (s : TokenStream) : List Dropped :=
  if h : s.current.kind = .eof then [] else
  have pos : 0 < s.remaining := remaining_pos h
  match s.current.kind with
  | .bang | .minus => Expr.dropped .unary s.advance
  | .leftParen => Expr.dropped .lowest s.advance
  | .ifWord =>
    Expr.dropped .lowest s.advance ++ (Expr.parse .lowest s.advance).following fun _ t _ =>
      Stmt.droppedBraces t ++ (Stmt.parseBraces t).following fun _ u _ =>
        if u.next.kind = .elseWord then Stmt.droppedBraces u.advance else []
  | .fnWord =>
    (Parsed.expect .leftParen s).following fun _ t _ =>
      (Parsed.parameters t).following fun _ u _ => Stmt.droppedBraces u
  | .leftBracket =>
    Parsed.droppedItems .rightBracket s.remaining (fun t _ => Expr.parse .lowest t)
      (fun t _ => Expr.dropped .lowest t) s (remaining_advance_lt pos)
  | .leftBrace =>
    Parsed.droppedItems .rightBrace s.remaining (fun t _ => Expr.parsePair t)
      (fun t _ => Expr.droppedPair t) s (remaining_advance_lt pos)
  | _ => []
termination_by 5 * s.remaining + 1
decreasing_by all_goals ((try simp only [remaining_advance] at *); omega)

/-- What is dropped in an entry of a hash. -/
def Expr.droppedPair (s : TokenStream) : List Dropped :=
  Expr.dropped .lowest s ++ (Expr.parse .lowest s).following fun _ u _ =>
    (Parsed.expect .colon u).following fun _ v _ => Expr.dropped .lowest v.advance
termination_by 5 * s.remaining + 3
decreasing_by all_goals ((try simp only [remaining_advance] at *); omega)

/-- What is dropped in the operators after an expression. -/
def Expr.droppedOperators (p : Precedence) (left : Expr) (s : TokenStream) : List Dropped :=
  if h : p < Precedence.ofKind s.next.kind then
    have fewer := s.remaining_advance_advance_lt (Precedence.ne_eof_of_lt h)
    match s.next.kind with
    | .leftParen =>
      Parsed.droppedItems .rightParen s.remaining (fun t _ => Expr.parse .lowest t)
        (fun t _ => Expr.dropped .lowest t) s.advance fewer ++
      (Parsed.items .rightParen s.remaining (fun t _ => Expr.parse .lowest t) s.advance
        fewer).following fun arguments t _ => Expr.droppedOperators p (.call left arguments) t
    | .leftBracket =>
      Expr.dropped .lowest s.advance.advance ++
        (Expr.parse .lowest s.advance.advance).following fun position t _ =>
          (Parsed.expect .rightBracket t).following fun _ u _ =>
            Expr.droppedOperators p (.index left position) u
    | kind =>
      match BinaryOp.ofKind? kind with
      | some op =>
        Expr.dropped (Precedence.ofKind kind) s.advance.advance ++
          (Expr.parse (Precedence.ofKind kind) s.advance.advance).following fun right t _ =>
            Expr.droppedOperators p (.binary op left right) t
      | none => []
  else []
termination_by 5 * s.remaining
decreasing_by all_goals ((try simp only [remaining_advance] at *); omega)

/-- What is dropped in a block whose opening brace is the token after the current one. -/
def Stmt.droppedBraces (s : TokenStream) : List Dropped :=
  (Parsed.expect .leftBrace s).following fun _ t _ => Stmt.droppedBlock t.advance
termination_by 5 * s.advance.remaining + 5
decreasing_by all_goals ((try simp only [remaining_advance] at *); omega)

/-- What is dropped in a block; the current token is the one after the opening brace. -/
def Stmt.droppedBlock (s : TokenStream) : List Dropped :=
  if s.current.kind = .rightBrace then []
  else if h : s.current.kind = .eof then []
  else
    have : 0 < s.remaining := remaining_pos h
    have : (Stmt.parse s).stop.remaining ≤ s.remaining := (Stmt.parse s).remaining_le
    Stmt.dropped s ++
      match fails : (Stmt.parse s).outcome with
      | .ok _ => Stmt.droppedBlock (Stmt.parse s).stop.advance
      | .error error =>
        ⟨s, error, fails⟩ ::
          if (Stmt.parse s).stop.current.kind = .rightBrace then []
          else Stmt.droppedBlock (Stmt.parse s).stop.advance
termination_by 5 * s.remaining + 4
decreasing_by all_goals ((try simp only [remaining_advance] at *); omega)

/-- What is dropped in the blocks inside a statement. -/
def Stmt.dropped (s : TokenStream) : List Dropped :=
  if h : s.current.kind = .letWord then
    have : 0 < s.remaining := remaining_pos (by rw [h]; decide)
    (Parsed.expect .name s).following fun _ t _ =>
      (Parsed.expect .assign t).following fun _ u _ => Expr.dropped .lowest u.advance
  else if h : s.current.kind = .returnWord then
    have : 0 < s.remaining := remaining_pos (by rw [h]; decide)
    Expr.dropped .lowest s.advance
  else Expr.dropped .lowest s
termination_by 5 * s.remaining + 3
decreasing_by all_goals ((try simp only [remaining_advance] at *); omega)

end

/-! ### Steps of a block -/

/-- A block ends at a closing brace and at the end of the input. -/
def TokenStream.EndsBlock (s : TokenStream) : Prop :=
  s.current.kind = .rightBrace ∨ s.current.kind = .eof

instance (s : TokenStream) : Decidable s.EndsBlock :=
  inferInstanceAs (Decidable (_ ∨ _))

/-- The statement at a place, if it can be read. -/
def Stmt.read? (s : TokenStream) : Option Stmt :=
  (Stmt.parse s).outcome.toOption

/-- What is dropped at a place: what is dropped in the blocks inside the statement there, and then the
statement itself if it cannot be read. -/
def Stmt.droppedAt (s : TokenStream) : List Dropped :=
  Stmt.dropped s ++
    match fails : (Stmt.parse s).outcome with
    | .ok _ => []
    | .error error => [⟨s, error, fails⟩]

namespace Stmt

variable {s t : TokenStream} {statement : Stmt}

theorem read?_of_ok (read : (Stmt.parse s).outcome = .ok statement) :
    Stmt.read? s = some statement := by
  rw [Stmt.read?, read]
  rfl

theorem read?_start (d : Dropped) : Stmt.read? d.start = none := by
  rw [Stmt.read?, d.fails]
  rfl

theorem droppedAt_of_ok (read : (Stmt.parse s).outcome = .ok statement) :
    Stmt.droppedAt s = Stmt.dropped s := by
  unfold Stmt.droppedAt
  split
  · exact List.append_nil _
  · next fails => cases read.symm.trans fails

theorem droppedAt_start (d : Dropped) : Stmt.droppedAt d.start = Stmt.dropped d.start ++ [d] := by
  obtain ⟨s, error, fails⟩ := d
  unfold Stmt.droppedAt
  split
  · next read => cases fails.symm.trans read
  · next error' fails' =>
    cases fails.symm.trans fails'
    rfl

theorem parseBlock_of_closed (closed : s.current.kind = .rightBrace) :
    Stmt.parseBlock s = .here [] := by
  rw [Stmt.parseBlock, if_pos closed]

theorem parseBlock_of_ended (ended : s.EndsBlock) :
    (Stmt.parseBlock s).stop = s ∧ (Stmt.parseBlock s).outcome = .ok [] := by
  rw [Stmt.parseBlock]
  split
  · exact ⟨rfl, rfl⟩
  · next notClosed =>
    rw [dif_pos (ended.resolve_left notClosed)]
    exact ⟨rfl, rfl⟩

theorem droppedBlock_of_ended (ended : s.EndsBlock) : Stmt.droppedBlock s = [] := by
  rw [Stmt.droppedBlock]
  rcases ended with closed | eof
  · rw [if_pos closed]
  · rw [dif_pos eof, ite_self]

/-- The block from `s` on goes on at `t`, after what is at `s` has been kept or dropped and the given
errors have been recorded. -/
structure BlockGoesOn (s t : TokenStream) (errors : List ParseError) : Prop where
  statements {body : Block} : (Stmt.parseBlock t).outcome = .ok body →
    (Stmt.parseBlock s).outcome = .ok ((Stmt.read? s).toList ++ body)
  recorded : (Stmt.parseBlock s).recorded = errors ++ (Stmt.parseBlock t).recorded
  stop : (Stmt.parseBlock s).stop = (Stmt.parseBlock t).stop
  dropped : Stmt.droppedBlock s = Stmt.droppedAt s ++ Stmt.droppedBlock t

theorem blockGoesOn_of_ok (on : ¬ s.EndsBlock) (read : (Stmt.parse s).outcome = .ok statement) :
    BlockGoesOn s (Stmt.parse s).stop.advance (Stmt.parse s).recorded := by
  obtain ⟨notClosed, notEof⟩ := not_or.mp on
  have block : Stmt.parseBlock s = (((Stmt.parseBlock (Stmt.parse s).stop.advance).map
      (statement :: ·)).shift.since (Stmt.parse s).remaining_le).after (Stmt.parse s).recorded := by
    rw [Stmt.parseBlock, if_neg notClosed, dif_neg notEof]
    simp only [Parsed.resume, read]
  refine ⟨fun {body} rest => ?_, by rw [block]; rfl, by rw [block]; rfl, ?_⟩
  · rw [block, Stmt.read?_of_ok read]
    show (Stmt.parseBlock _).outcome.map _ = _
    rw [rest]
    rfl
  · rw [Stmt.droppedAt_of_ok read, Stmt.droppedBlock, if_neg notClosed, dif_neg notEof]
    split
    · rfl
    · next fails => cases read.symm.trans fails

/-- A block goes on after a statement that is dropped, be it only to end there. -/
theorem blockGoesOn_of_dropped (d : Dropped) (on : ¬ d.start.EndsBlock) :
    BlockGoesOn d.start d.resumption ((Stmt.parse d.start).recorded ++ [d.error]) := by
  obtain ⟨notClosed, notEof⟩ := not_or.mp on
  have block : Stmt.parseBlock d.start = ((Parsed.after [d.error]
      (if (Stmt.parse d.start).stop.current.kind = .rightBrace then .here []
        else (Stmt.parseBlock (Stmt.parse d.start).stop.advance).shift)).since
      (Stmt.parse d.start).remaining_le).after (Stmt.parse d.start).recorded := by
    rw [Stmt.parseBlock, if_neg notClosed, dif_neg notEof]
    simp only [Parsed.resume, d.fails]
  have drops : Stmt.droppedBlock d.start = Stmt.droppedAt d.start ++
      if (Stmt.parse d.start).stop.current.kind = .rightBrace then []
      else Stmt.droppedBlock (Stmt.parse d.start).stop.advance := by
    rw [Stmt.droppedAt_start, Stmt.droppedBlock, if_neg notClosed, dif_neg notEof, List.append_assoc]
    split
    · next read => cases d.fails.symm.trans read
    · next error fails =>
      cases d.fails.symm.trans fails
      rfl
  unfold Dropped.resumption
  by_cases atClose : (Stmt.parse d.start).stop.current.kind = .rightBrace
  · have ended := Stmt.parseBlock_of_closed atClose
    rw [if_pos atClose] at block drops ⊢
    refine ⟨fun {body} rest => ?_, ?_, by rw [block, ended]; rfl, ?_⟩
    · rw [block, Stmt.read?_start]
      exact ended ▸ rest
    · rw [block, ended]
      exact (List.append_nil _).symm
    · rw [drops, Stmt.droppedBlock_of_ended (.inl atClose)]
  · rw [if_neg atClose] at block drops ⊢
    refine ⟨fun {body} rest => ?_, ?_, by rw [block]; rfl, drops⟩
    · rw [block, Stmt.read?_start]
      exact rest
    · rw [block, List.append_assoc]
      rfl

end Stmt

theorem Dropped.resumption_lt {d : Dropped} (on : ¬ d.start.EndsBlock)
    (further : ¬ d.resumption.EndsBlock) : d.resumption.remaining < d.start.remaining := by
  have pos := remaining_pos (not_or.mp on).2
  have le := (Stmt.parse d.start).remaining_le
  unfold Dropped.resumption at further ⊢
  by_cases atClose : (Stmt.parse d.start).stop.current.kind = .rightBrace
  · rw [if_pos atClose] at further
    exact absurd (.inl atClose) further
  · rw [if_neg atClose, remaining_advance]
    omega

/-! ### What a block is made of -/

/-- The places, one after the other, at which a block has a statement, up to the place where it ends.
After a statement that can be read the next place is that of the token behind it; after one that is
dropped it is where the block goes on (`Dropped.resumption`). -/
inductive Attempts : TokenStream → List TokenStream → TokenStream → Prop
  | ended {s : TokenStream} : s.EndsBlock → Attempts s [] s
  | read {s stop : TokenStream} {places : List TokenStream} {statement : Stmt} :
      ¬ s.EndsBlock → (Stmt.parse s).outcome = .ok statement →
      Attempts (Stmt.parse s).stop.advance places stop → Attempts s (s :: places) stop
  | dropped {d : Dropped} {stop : TokenStream} {places : List TokenStream} :
      ¬ d.start.EndsBlock → Attempts d.resumption places stop →
      Attempts d.start (d.start :: places) stop

/-- The block from `s` on is made of what is at the given places: it holds the statements that can be
read there, in their order, and the other ones are dropped. -/
structure Stmt.BlockMadeOf (s : TokenStream) (places : List TokenStream) : Prop where
  attempts : Attempts s places (Stmt.parseBlock s).stop
  statements : (Stmt.parseBlock s).outcome = .ok (places.filterMap Stmt.read?)
  dropped : Stmt.droppedBlock s = places.flatMap Stmt.droppedAt

namespace Stmt.BlockMadeOf

variable {s : TokenStream} {places : List TokenStream}

theorem of_ended (ended : s.EndsBlock) : BlockMadeOf s [] := by
  obtain ⟨stop, block⟩ := Stmt.parseBlock_of_ended ended
  exact ⟨stop.symm ▸ .ended ended, block, Stmt.droppedBlock_of_ended ended⟩

theorem of_goesOn {t : TokenStream} {errors : List ParseError} (rest : BlockMadeOf t places)
    (goesOn : BlockGoesOn s t errors)
    (attempts : ∀ {stop}, Attempts t places stop → Attempts s (s :: places) stop) :
    BlockMadeOf s (s :: places) := by
  refine ⟨goesOn.stop ▸ attempts rest.attempts, ?_, ?_⟩
  · rw [goesOn.statements rest.statements, List.filterMap_cons]
    cases Stmt.read? s <;> rfl
  · rw [goesOn.dropped, rest.dropped, List.flatMap_cons]

end Stmt.BlockMadeOf

/-- Every block is made of what is at some places. -/
theorem Stmt.exists_blockMadeOf (s : TokenStream) : ∃ places, Stmt.BlockMadeOf s places := by
  by_cases ended : s.EndsBlock
  · exact ⟨[], .of_ended ended⟩
  cases outcome : (Stmt.parse s).outcome with
  | ok statement =>
    have pos := remaining_pos (not_or.mp ended).2
    have le := (Stmt.parse s).remaining_le
    obtain ⟨places, rest⟩ := Stmt.exists_blockMadeOf (Stmt.parse s).stop.advance
    exact ⟨s :: places, rest.of_goesOn (Stmt.blockGoesOn_of_ok ended outcome) (.read ended outcome)⟩
  | error error =>
    obtain ⟨d, start⟩ : ∃ d : Dropped, d.start = s := ⟨⟨s, error, outcome⟩, rfl⟩
    rw [← start] at ended
    obtain ⟨places, rest⟩ : ∃ places, Stmt.BlockMadeOf d.resumption places := by
      by_cases endsHere : d.resumption.EndsBlock
      · exact ⟨[], .of_ended endsHere⟩
      · have fewer := start ▸ Dropped.resumption_lt ended endsHere
        exact Stmt.exists_blockMadeOf d.resumption
    subst start
    have goesOn := Stmt.blockGoesOn_of_dropped d ended
    exact ⟨d.start :: places, rest.of_goesOn goesOn (.dropped ended)⟩
termination_by s.remaining
decreasing_by all_goals ((try simp only [remaining_advance] at *); omega)

end Marmoset
