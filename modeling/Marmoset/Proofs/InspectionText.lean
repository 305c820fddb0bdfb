import Mathlib.Data.List.Forall2
import Marmoset.Proofs.Equality
import Marmoset.Proofs.ErrorPosition
import Marmoset.Proofs.JoinedText
import Marmoset.Proofs.SourceText
import Marmoset.Session

/-! # The text of a value as a program

`Value.sourceText` is the text of a value with every text in it in quotes; with the texts left as they
are it would be `Value.render` (`Value.textWith_id`).  Let a value be made of integers, booleans, texts
without quotes, arrays, and hashes with distinct keys (`Value.IsPlain` of all its parts).  Then its
source text is a program whose result is the value, unless the least integer occurs in it: that one is
written as the negative of an integer that is out of range, and this is the first error then
(`runSource_sourceText`).

Both are shown together, along the value.  `Value.Phrase ts v` says of tokens that they can be read as
an expression for `v`, or that reading them fails because of the least integer.  The text of `v` is cut
into such tokens (`Value.forms_sourceText`): a list of phrases is a phrase of the array, since its
elements are read one after the other up to the first that fails (`Parsed.items_failsWith`). -/

namespace Marmoset

open Grammar Parsed TokenStream

/-! ### Texts in quotes -/

/-- The text of a key, with a text changed by `onText`. -/
def Key.textWith (onText : String → String) : Key → String
  | .text value => onText value
  | key => key.render

mutual

/-- The text of a value, with the texts in it changed by `onText`. -/
def Value.textWith (onText : String → String) : Value → String
  | .integer value => (Key.integer value).textWith onText
  | .boolean value => (Key.boolean value).textWith onText
  | .text value => (Key.text value).textWith onText
  | .array elements => "[" ++ commaJoin (Value.textsWith onText elements) ++ "]"
  | .hash entries => "\x7b" ++ commaJoin (Value.entryTextsWith onText entries) ++ "\x7d"
  | v => v.render

def Value.textsWith (onText : String → String) : List Value → List String
  | [] => []
  | v :: vs => v.textWith onText :: Value.textsWith onText vs

def Value.entryTextsWith (onText : String → String) : List (Key × Value) → List String
  | [] => []
  | (key, v) :: entries =>
    (key.textWith onText ++ ": " ++ v.textWith onText) :: Value.entryTextsWith onText entries

end

/-- A text with quotes around it. -/
def inQuotes (text : String) : String :=
  "\"" ++ text ++ "\""

/-- The text of a value, with every text in it in quotes. -/
def Value.sourceText (v : Value) : String :=
  v.textWith inQuotes

theorem Key.textWith_id (key : Key) : key.textWith id = key.render := by
  cases key <;> rfl

mutual

/-- If the texts stay as they are, this is the text of the value. -/
theorem Value.textWith_id (v : Value) : v.textWith id = v.render := by
  match v with
  | .integer _ | .text _ | .null | .function _ | .builtin _ | .returned _ | .error _ => rfl
  | .boolean true | .boolean false => rfl
  | .array elements => rw [textWith, render, Value.textsWith_id]
  | .hash entries => rw [textWith, render, Value.entryTextsWith_id]

theorem Value.textsWith_id (vs : List Value) : Value.textsWith id vs = Value.texts vs := by
  match vs with
  | [] => rfl
  | v :: vs => rw [textsWith, texts, Value.textWith_id v, Value.textsWith_id vs]

theorem Value.entryTextsWith_id (entries : List (Key × Value)) :
    Value.entryTextsWith id entries = Value.entryTexts entries := by
  match entries with
  | [] => rfl
  | (key, v) :: entries =>
      rw [entryTextsWith, entryTexts, Key.textWith_id, Value.textWith_id v,
        Value.entryTextsWith_id entries]

end

theorem Value.textsWith_eq_map (onText : String → String) (vs : List Value) :
    Value.textsWith onText vs = vs.map (Value.textWith onText) := by
  induction vs with
  | nil => rfl
  | cons v vs ih => rw [textsWith, ih, List.map_cons]

theorem Value.entryTextsWith_eq_map (onText : String → String) (entries : List (Key × Value)) :
    Value.entryTextsWith onText entries =
      entries.map fun entry => entry.1.textWith onText ++ ": " ++ entry.2.textWith onText := by
  induction entries with
  | nil => rfl
  | cons entry entries ih => rw [entryTextsWith, ih, List.map_cons]

theorem Value.textWith_toValue (onText : String → String) (key : Key) :
    key.toValue.textWith onText = key.textWith onText := by
  cases key <;> rfl

/-! ### Values that can be written -/

/-- A key without quotes in it. -/
def Key.IsPlain : Key → Prop
  | .text value => '"' ∉ value.toList
  | _ => True

/-- An integer, a boolean, a text without quotes, an array, or a hash whose keys are distinct and
without quotes. -/
def Value.IsPlain : Value → Prop
  | .integer _ | .boolean _ | .array _ => True
  | .text value => '"' ∉ value.toList
  | .hash entries => (Table.keys entries).Nodup ∧ ∀ key ∈ Table.keys entries, key.IsPlain
  | _ => False

/-- The least integer, or a hash with the least integer as a key. -/
def Value.IsLeast : Value → Prop
  | .integer n => n = Int64.minValue
  | .hash entries => Key.integer Int64.minValue ∈ Table.keys entries
  | _ => False

/-- The least integer occurs in a value. -/
def Value.HoldsLeast (v : Value) : Prop :=
  ∃ part, Value.Within part v ∧ part.IsLeast

/-- A value that can be a key has no other part. -/
theorem Value.all_toValue_iff {p : Value → Prop} (key : Key) : key.toValue.All p ↔ p key.toValue := by
  refine ⟨Value.All.self, fun here part within => ?_⟩
  cases key <;> cases within <;> exact here

/-- What holds of plain keys, of arrays of values that it holds of and of hashes of such values holds
of every value with plain parts. -/
theorem Value.All.plain_induct {motive : Value → Prop} {v : Value} (plain : v.All Value.IsPlain)
    (literal : ∀ key : Key, key.IsPlain → motive key.toValue)
    (array : ∀ elements, (∀ v ∈ elements, motive v) → motive (.array elements))
    (hash : ∀ entries, (Table.keys entries).Nodup → (∀ key ∈ Table.keys entries, key.IsPlain) →
      (∀ entry ∈ entries, motive entry.2) → motive (.hash entries)) : motive v := by
  match v with
  | .integer n => exact literal (.integer n) trivial
  | .boolean b => exact literal (.boolean b) trivial
  | .text s => exact literal (.text s) plain.self
  | .array elements =>
      refine array elements fun v mem => ?_
      exact ((Value.all_array_iff.mp plain).2 v mem).plain_induct literal array hash
  | .hash entries =>
      obtain ⟨here, below⟩ := Value.all_hash_iff.mp plain
      refine hash entries here.1 here.2 fun entry mem => ?_
      exact (below entry mem).plain_induct literal array hash
  | .null | .function _ | .builtin _ | .returned _ | .error _ => exact plain.self.elim
termination_by sizeOf v
decreasing_by
  · have := List.sizeOf_lt_of_mem mem
    simp
    omega
  · have := List.sizeOf_lt_of_mem mem
    obtain ⟨key, v⟩ := entry
    simp at this ⊢
    omega

/-! ### Steps that fail -/

/-- What can be said of each item of a list. -/
theorem Grammar.Listed.exists_forall₂ {α β : Type} {Phrase : List Token → β → Prop}
    {Item : List Token → α → Prop} {R : α → β → Prop} {ts : List Token} {bs : List β}
    (h : Listed Phrase ts bs) (each : ∀ b ∈ bs, ∀ us, Phrase us b → ∃ a, Item us a ∧ R a b) :
    ∃ as, Listed Item ts as ∧ List.Forall₂ R as bs := by
  have separated {ts : List Token} {bs : List β} (h : Separated Phrase ts bs)
      (each : ∀ b ∈ bs, ∀ us, Phrase us b → ∃ a, Item us a ∧ R a b) :
      ∃ as, Separated Item ts as ∧ List.Forall₂ R as bs := by
    induction h with
    | one hb =>
        obtain ⟨a, ha, related⟩ := each _ List.mem_cons_self _ hb
        exact ⟨[a], .one ha, .cons related .nil⟩
    | more hb hcomma _ ih =>
        obtain ⟨a, ha, related⟩ := each _ List.mem_cons_self _ hb
        obtain ⟨as, has, rest⟩ := ih fun b mem => each b (List.mem_cons_of_mem _ mem)
        exact ⟨a :: as, .more ha hcomma has, .cons related rest⟩
  cases h with
  | none => exact ⟨[], .none, .nil⟩
  | some h =>
      obtain ⟨as, has, related⟩ := separated h each
      exact ⟨as, .some has, related⟩

namespace Parsed

variable {α β : Type} {start : TokenStream} {cause : ParseError.Cause}

/-- The first error of the step has the given cause. -/
def FailsWith (p : Parsed start α) (cause : ParseError.Cause) : Prop :=
  ∃ line, p.firstError? = some ⟨cause, line⟩

theorem failsWith_failHere : (failHere cause : Parsed start α).FailsWith cause :=
  ⟨_, rfl⟩

theorem FailsWith.shift {p : Parsed start.advance α} (h : p.FailsWith cause) :
    p.shift.FailsWith cause :=
  h

theorem FailsWith.andThen {p : Parsed start α} (h : p.FailsWith cause)
    (f : α → (t : TokenStream) → t.remaining ≤ start.remaining → Parsed t β) :
    (p.andThen f).FailsWith cause := by
  obtain ⟨line, first⟩ := h
  exact ⟨line, firstError?_resume_of_firstError? first fun _ _ _ => rfl⟩

theorem FailsWith.map {p : Parsed start α} (h : p.FailsWith cause) (f : α → β) :
    (p.map f).FailsWith cause := by
  obtain ⟨line, first⟩ := h
  refine ⟨line, ?_⟩
  unfold firstError? at first ⊢
  rw [recorded_map, outcome_map]
  cases outcome : p.outcome with
  | ok a => rwa [outcome] at first
  | error e => rwa [outcome] at first

theorem Yields.andThen_failsWith {p : Parsed start α} {a : α} {t : TokenStream} (h : p.Yields a t)
    {f : α → (t : TokenStream) → t.remaining ≤ start.remaining → Parsed t β}
    (hf : ∀ ht, (f a t ht).FailsWith cause) : (p.andThen f).FailsWith cause := by
  obtain ⟨outcome, recorded, rfl⟩ := h
  obtain ⟨line, first⟩ := hf p.remaining_le
  exact ⟨line, (firstError?_resume_of_yields ⟨outcome, recorded, rfl⟩).trans first⟩

section items

variable {Phrase : List Token → β → Prop} {Bad : β → Prop} {closing : TokenKind} {n : Nat}
  {item : (t : TokenStream) → t.remaining < n → Parsed t α}

/-- An item and those after it, up to the closing token. -/
def itemsFrom (closing : TokenKind) (n : Nat)
    (item : (t : TokenStream) → t.remaining < n → Parsed t α) (start : TokenStream)
    (h : start.remaining < n) : Parsed start (List α) :=
  (item start h).andThen fun first t _ =>
    (moreItems closing n item t (by omega)).map (first :: ·)

theorem items_eq_shift {hs : start.advance.remaining < n} (notClosed : start.next.kind ≠ closing) :
    items closing n item start hs = (itemsFrom closing n item start.advance hs).shift :=
  if_neg notClosed

theorem moreItems_failsWith {hs : start.remaining ≤ n} (comma : start.next.kind = .comma)
    (h : ∀ ht, (itemsFrom closing n item start.advance.advance ht).FailsWith cause) :
    (moreItems closing n item start hs).FailsWith cause := by
  rw [moreItems, dif_pos comma]
  exact (h _).shift.shift

/-- The step reads the tokens as an item, if what follows does not go on with it. -/
def Accepts (item : (t : TokenStream) → t.remaining < n → Parsed t α) (ts : List Token) : Prop :=
  ∀ s hs rest, s.tokens = ts ++ rest → Follows 0 rest →
    ∃ a u, u.advance.tokens = rest ∧ (item s hs).Yields a u

/-- The step fails with the given cause where the tokens stand, whatever follows. -/
def Rejects (cause : ParseError.Cause) (item : (t : TokenStream) → t.remaining < n → Parsed t α)
    (ts : List Token) : Prop :=
  ∀ s hs rest, s.tokens = ts ++ rest → (item s hs).FailsWith cause

/-- If one of several items is bad, reading them fails at the first one that is. -/
theorem itemsFrom_failsWith {ts : List Token} {bs : List β} (h : Separated Phrase ts bs)
    (good : ∀ b ∈ bs, ¬ Bad b → ∀ us, Phrase us b → Accepts item us)
    (bad : ∀ b ∈ bs, Bad b → ∀ us, Phrase us b → Rejects cause item us) (some : ∃ b ∈ bs, Bad b)
    {s : TokenStream} {hs : s.remaining < n} {rest : List Token} (htokens : s.tokens = ts ++ rest) :
    (itemsFrom closing n item s hs).FailsWith cause := by
  induction h generalizing s with
  | one hb =>
      obtain ⟨_, mem, isBad⟩ := some
      cases List.mem_singleton.mp mem
      exact (bad _ List.mem_cons_self isBad _ hb s hs rest htokens).andThen _
  | @more us vs comma b bs hb hcomma _ ih =>
      rw [List.append_assoc] at htokens
      by_cases isBad : Bad b
      · exact (bad b List.mem_cons_self isBad us hb s hs _ htokens).andThen _
      · obtain ⟨a, u, hu, yields⟩ := good b List.mem_cons_self isBad us hb s hs _ htokens
          (follows_cons (by rw [hcomma]; decide) (by rw [hcomma]; decide))
        have later : ∃ b ∈ bs, Bad b := by
          obtain ⟨c, mem, isBad'⟩ := some
          obtain rfl | mem := List.mem_cons.mp mem
          · exact absurd isBad' isBad
          · exact ⟨c, mem, isBad'⟩
        have more : ∀ ht, (itemsFrom closing n item u.advance.advance ht).FailsWith cause :=
          fun ht => ih (fun c mem => good c (List.mem_cons_of_mem _ mem))
            (fun c mem => bad c (List.mem_cons_of_mem _ mem)) later (advance_tokens_eq hu)
        exact yields.andThen_failsWith fun _ =>
          (moreItems_failsWith (by rw [next_eq hu, hcomma]) more).map _

/-- If one of the items of a list is bad, reading the list fails at the first one that is. -/
theorem items_failsWith {ts : List Token} {bs : List β} (h : Listed Phrase ts bs)
    (hclosing : closing ∈ closers)
    (starts : ∀ {us b}, Phrase us b → ∃ t vs, us = t :: vs ∧ t.kind ∈ starting)
    (good : ∀ b ∈ bs, ¬ Bad b → ∀ us, Phrase us b → Accepts item us)
    (bad : ∀ b ∈ bs, Bad b → ∀ us, Phrase us b → Rejects cause item us) (some : ∃ b ∈ bs, Bad b)
    {s : TokenStream} {hs : s.advance.remaining < n} {rest : List Token}
    (htokens : s.advance.tokens = ts ++ rest) :
    (items closing n item s hs).FailsWith cause := by
  cases h with
  | none =>
      obtain ⟨_, mem, -⟩ := some
      cases mem
  | some separated =>
      obtain ⟨first, vs, rfl, hfirst⟩ : ∃ t vs, ts = t :: vs ∧ t.kind ∈ starting := by
        cases separated with
        | one hb => exact starts hb
        | more hb _ _ =>
            obtain ⟨t, vs, rfl, ht⟩ := starts hb
            exact ⟨t, _, rfl, ht⟩
      have notClosed : s.next.kind ≠ closing := by
        rw [next_eq htokens]
        rintro rfl
        exact (ne_of_mem_closers hclosing).2.2.2.1 hfirst
      rw [items_eq_shift notClosed]
      exact (itemsFrom_failsWith separated good bad some htokens).shift

end items

end Parsed

/-! ### What is evaluated -/

/-- The expression has the value everywhere and does nothing else. -/
def Expr.Denotes (e : Expr) (v : Value) : Prop :=
  ∀ depth scope store, (e.eval depth scope).runOn store = (.ok v, store)

/-- A key as a literal. -/
def Key.literal : Key → Expr
  | .integer value => .integer value
  | .boolean value => .boolean value
  | .text value => .text value

theorem Key.denotes_literal (key : Key) : key.literal.Denotes key.toValue := by
  intro depth scope store
  cases key <;> rw [Key.literal, Expr.eval] <;> rfl

theorem Expr.denotes_negate {e : Expr} {n : Int64} (h : e.Denotes (.integer (-n))) :
    (Expr.unary .negate e).Denotes (.integer n) := by
  intro depth scope store
  rw [Expr.eval, Eval.runOn_bind, h]
  show (Except.ok (Value.integer (-(-n))), store) = _
  rw [Int64.neg_neg]

theorem Expr.runOn_evalAll {es : List Expr} {vs : List Value} (h : List.Forall₂ Expr.Denotes es vs)
    (depth : Nat) (scope : Scope) (store : Store) :
    (Expr.evalAll depth scope es).runOn store = (.ok vs, store) := by
  induction h with
  | nil =>
      rw [Expr.evalAll]
      rfl
  | cons he _ ih =>
      rw [Expr.evalAll, Eval.runOn_bind, he]
      simp only
      rw [Eval.runOn_bind, ih]
      rfl

theorem Expr.denotes_array {es : List Expr} {vs : List Value} (h : List.Forall₂ Expr.Denotes es vs) :
    (Expr.array es).Denotes (.array vs) := by
  intro depth scope store
  rw [Expr.eval, Eval.runOn_bind, Expr.runOn_evalAll h]
  rfl

/-- The two expressions of a pair have the key and the value of an entry. -/
def Expr.PairDenotes (pair : Expr × Expr) (entry : Key × Value) : Prop :=
  pair.1.Denotes entry.1.toValue ∧ pair.2.Denotes entry.2

/-- Entries with distinct keys are put one after the other. -/
theorem Expr.runOn_evalPairs {pairs : List (Expr × Expr)} {entries : List (Key × Value)}
    (h : List.Forall₂ Expr.PairDenotes pairs entries) (done : Table Key Value)
    (distinct : (Table.keys (done ++ entries)).Nodup) (depth : Nat) (scope : Scope) (store : Store) :
    (Expr.evalPairs depth scope done pairs).runOn store = (.ok (done ++ entries), store) := by
  induction h generalizing done with
  | nil =>
      rw [Expr.evalPairs, List.append_nil]
      rfl
  | @cons pair entry pairs entries hpair _ ih =>
      obtain ⟨key, value⟩ := pair
      obtain ⟨k, v⟩ := entry
      obtain ⟨hkey, hvalue⟩ := hpair
      have absent : k ∉ Table.keys done := by
        intro mem
        rw [Table.keys, List.map_append, List.nodup_append] at distinct
        exact distinct.2.2 k mem k (by simp) rfl
      have usable : k.toValue.requireKey = .ok k := by
        unfold Value.requireKey
        rw [Value.key?_toValue]
      have rest := ih (done ++ [(k, v)]) (by simpa using distinct)
      rw [Expr.evalPairs, Eval.runOn_bind, hkey]
      simp only
      rw [Eval.runOn_bind, usable, Eval.runOn_ofExcept]
      simp only
      rw [Eval.runOn_bind, hvalue]
      simp only
      rw [Table.insert_of_not_mem absent, rest, List.append_assoc, List.singleton_append]

theorem Expr.denotes_hash {pairs : List (Expr × Expr)} {entries : List (Key × Value)}
    (h : List.Forall₂ Expr.PairDenotes pairs entries) (distinct : (Table.keys entries).Nodup) :
    (Expr.hash pairs).Denotes (.hash entries) := by
  intro depth scope store
  rw [Expr.eval, Eval.runOn_bind, Expr.runOn_evalPairs h [] distinct]
  rfl

/-! ### The least integer -/

namespace Value

theorem holdsLeast_toValue_iff (key : Key) :
    key.toValue.HoldsLeast ↔ key = .integer Int64.minValue := by
  constructor
  · rintro ⟨part, within, least⟩
    cases key <;> cases within
    · exact congrArg Key.integer least
    · exact least.elim
    · exact least.elim
  · rintro rfl
    exact ⟨_, .self, rfl⟩

theorem holdsLeast_array_iff {elements : List Value} :
    (array elements).HoldsLeast ↔ ∃ v ∈ elements, v.HoldsLeast := by
  constructor
  · rintro ⟨part, within, least⟩
    cases within with
    | self => exact least.elim
    | element mem within => exact ⟨_, mem, part, within, least⟩
  · rintro ⟨v, mem, part, within, least⟩
    exact ⟨part, .element mem within, least⟩

theorem holdsLeast_hash_iff {entries : List (Key × Value)} :
    (hash entries).HoldsLeast ↔
      ∃ entry ∈ entries, entry.1.toValue.HoldsLeast ∨ entry.2.HoldsLeast := by
  constructor
  · rintro ⟨part, within, least⟩
    cases within with
    | self =>
        obtain ⟨entry, mem, key⟩ := List.mem_map.mp least
        exact ⟨entry, mem, .inl ((holdsLeast_toValue_iff _).mpr key)⟩
    | entry mem within => exact ⟨_, mem, .inr ⟨part, within, least⟩⟩
  · rintro ⟨entry, mem, least | ⟨part, within, least⟩⟩
    · refine ⟨_, .self, List.mem_map.mpr ⟨entry, mem, ?_⟩⟩
      exact (holdsLeast_toValue_iff _).mp least
    · exact ⟨part, .entry mem within, least⟩

end Value

/-! ### Phrases of values -/

/-- The integer literal after the minus sign of the least integer is out of range. -/
def outOfRange : ParseError.Cause :=
  .badInteger "9223372036854775808"

/-- The tokens are an expression for the value, unless the least integer occurs in it; then they cannot
be read. -/
structure Value.Phrase (ts : List Token) (v : Value) : Prop where
  starts : ∃ t us, ts = t :: us ∧ t.kind ∈ starting
  reads : ¬ v.HoldsLeast → ∃ e, IsExpr .equality ts e ∧ e.Denotes v
  fails : v.HoldsLeast → ∀ s rest, s.tokens = ts ++ rest →
    (Expr.parsePrimary s).FailsWith outOfRange

/-- The tokens are those of a key, a colon and those of a value. -/
inductive Value.EntryPhrase : List Token → Key × Value → Prop
  | entry {us vs : List Token} {t : Token} {key : Key} {v : Value} :
      Value.Phrase us key.toValue → t.kind = .colon → Value.Phrase vs v →
      Value.EntryPhrase (us ++ t :: vs) (key, v)

namespace Value

theorem Phrase.of_isExpr {ts : List Token} {v : Value} {e : Expr} {l : Level} (h : IsExpr l ts e)
    (denotes : e.Denotes v) (noLeast : ¬ v.HoldsLeast) : Phrase ts v where
  starts := h.head
  reads _ := ⟨e, h.loosen (Level.rank_equality_le l), denotes⟩
  fails least := absurd least noLeast

theorem Phrase.parse_failsWith {ts : List Token} {v : Value} (h : Phrase ts v)
    (least : v.HoldsLeast) {s : TokenStream} {rest : List Token} (htokens : s.tokens = ts ++ rest)
    (p : Precedence) : (Expr.parse p s).FailsWith outOfRange := by
  rw [Expr.parse]
  exact (h.fails least s rest htokens).andThen _

/-! #### Integers -/

theorem text_of_neg {n : Int64} (h : n.toInt < 0) :
    (Integer.text n).toList = '-' :: Nat.toDigits 10 (-n.toInt).toNat := by
  have text : Integer.text n = "-" ++ (-n.toInt).toNat.repr := by
    rw [Integer.text, Int.toString_eq_repr, Int.repr_eq_if, if_neg (by omega)]
  rw [text, String.toList_append, Nat.toList_repr]
  rfl

/-- The negative of the least integer is the only one that is out of range. -/
theorem toInt_neg_of_ne {n : Int64} (h : n ≠ Int64.minValue) : (-n).toInt = -n.toInt := by
  have low := n.le_toInt
  have high := n.toInt_lt
  have ne : n.toInt ≠ -9223372036854775808 := by
    intro eq
    exact h (Int64.toInt_inj.mp (eq.trans Int64.toInt_minValue.symm))
  rw [Int64.toInt_neg, Int.bmod_eq_of_le] <;> omega

theorem isLiteral_number {n : Int64} (h : 0 ≤ n.toInt) {t : Token} (hkind : t.kind = .integer)
    (hliteral : t.literal = String.ofList (Nat.toDigits 10 n.toInt.toNat)) :
    IsLiteral t (.integer n) := by
  refine .integer hkind ?_
  rw [hliteral, ← Integer.text_of_nonneg h, String.ofList_toList, Integer.ofText?_text h]

theorem not_holdsLeast_of_ne {key : Key} (h : key ≠ .integer Int64.minValue) :
    ¬ key.toValue.HoldsLeast :=
  fun least => h ((holdsLeast_toValue_iff key).mp least)

/-- A token that is the literal of a key is a phrase of it. -/
theorem phrase_literal (key : Key) (h : key ≠ .integer Int64.minValue) {t : Token}
    (literal : IsLiteral t key.literal) : Phrase [t] key.toValue :=
  .of_isExpr (.literal literal) key.denotes_literal (not_holdsLeast_of_ne h)

theorem phrase_nonneg {n : Int64} (h : 0 ≤ n.toInt) {t : Token} (hkind : t.kind = .integer)
    (hliteral : t.literal = String.ofList (Nat.toDigits 10 n.toInt.toNat)) :
    Phrase [t] (.integer n) := by
  have notLeast : Key.integer n ≠ .integer Int64.minValue := by
    rintro ⟨⟩
    exact absurd h (by decide)
  exact phrase_literal (.integer n) notLeast (isLiteral_number h hkind hliteral)

/-- A negative integer is the negative of one that can be written, or the least one. -/
theorem phrase_neg {n : Int64} (h : n.toInt < 0) {t t' : Token} (ht : t.kind = .minus)
    (hkind : t'.kind = .integer)
    (hliteral : t'.literal = String.ofList (Nat.toDigits 10 (-n.toInt).toNat)) :
    Phrase [t, t'] (.integer n) := by
  by_cases least : n = Int64.minValue
  · subst least
    have literal : t'.literal = "9223372036854775808" := hliteral.trans (by decide +kernel)
    refine ⟨⟨t, [t'], rfl, by rw [ht]; decide⟩, fun noLeast => ?_, fun _ s rest htokens => ?_⟩
    · exact absurd ((holdsLeast_toValue_iff (.integer _)).mpr rfl) noLeast
    · have current := current_eq htokens
      have next := current_eq (advance_tokens_eq htokens)
      have operand : (Expr.parsePrimary s.advance).FailsWith outOfRange := by
        have unreadable : Integer.ofText? "9223372036854775808" = none := by decide +kernel
        rw [Expr.parsePrimary, dif_neg (by rw [next, hkind]; decide)]
        simp only [next, hkind, literal, unreadable]
        exact failsWith_failHere
      rw [Expr.parsePrimary, dif_neg (by rw [current, ht]; decide)]
      simp only [current, ht]
      rw [Expr.parse]
      exact ((operand.andThen _).map _).shift
  · have negated := toInt_neg_of_ne least
    have operand : IsLiteral t' (.integer (-n)) :=
      isLiteral_number (by omega) hkind (by rw [negated]; exact hliteral)
    have whole : IsExpr .unary [t, t'] (.unary .negate (.integer (-n))) :=
      .unary (ht ▸ .negate) ((IsExpr.literal operand).loosen (by decide))
    have notLeast : Key.integer n ≠ .integer Int64.minValue := fun eq => least (Key.integer.inj eq)
    exact .of_isExpr whole (Expr.denotes_negate (Key.denotes_literal (.integer (-n))))
      (not_holdsLeast_of_ne notLeast)

theorem forms_integer (n : Int64) {rest : List Char} (hrest : Ends rest) :
    Forms (Integer.text n).toList rest (Phrase · (.integer n)) := by
  by_cases sign : 0 ≤ n.toInt
  · rw [Integer.text_of_nonneg sign]
    refine (forms_number _ hrest).mono ?_
    rintro _ ⟨t, rfl, hkind, hliteral⟩
    exact phrase_nonneg sign hkind hliteral
  · have negative : n.toInt < 0 := by omega
    rw [text_of_neg negative]
    refine ((forms_separator .minus (by decide) _).append (forms_number _ hrest)).mono ?_
    rintro _ ⟨_, _, rfl, ⟨t, rfl, ht⟩, t', rfl, hkind, hliteral⟩
    exact phrase_neg negative ht hkind hliteral

/-! #### Booleans, texts and keys -/

theorem forms_boolean (b : Bool) {rest : List Char} (hrest : Ends rest) :
    Forms (Key.boolean b).render.toList rest (Phrase · (.boolean b)) := by
  cases b with
  | true =>
      refine (forms_word .trueWord (by decide) (by decide) rfl rfl hrest).mono ?_
      rintro _ ⟨t, rfl, ht⟩
      exact phrase_literal (.boolean true) nofun (.isTrue ht)
  | false =>
      refine (forms_word .falseWord (by decide) (by decide) rfl rfl hrest).mono ?_
      rintro _ ⟨t, rfl, ht⟩
      exact phrase_literal (.boolean false) nofun (.isFalse ht)

theorem forms_quoted {s : String} (h : '"' ∉ s.toList) (rest : List Char) :
    Forms (inQuotes s).toList rest (Phrase · (.text s)) := by
  have text : (inQuotes s).toList = '"' :: (s.toList ++ ['"']) := by simp [inQuotes]
  rw [text]
  refine (forms_text h rest).mono ?_
  rintro _ ⟨t, rfl, ht, rfl⟩
  exact phrase_literal (.text t.literal) nofun (.text ht)

theorem forms_key {key : Key} (h : key.IsPlain) {rest : List Char} (hrest : Ends rest) :
    Forms (key.textWith inQuotes).toList rest (Phrase · key.toValue) := by
  cases key with
  | integer n => exact forms_integer n hrest
  | boolean b => exact forms_boolean b hrest
  | text s => exact forms_quoted h rest

/-! #### Arrays and hashes -/

theorem Phrase.accepts {ts : List Token} {v : Value} (h : Phrase ts v) (noLeast : ¬ v.HoldsLeast)
    (n : Nat) : Accepts (n := n) (fun t _ => Expr.parse .lowest t) ts := by
  intro s hs rest htokens hrest
  obtain ⟨e, he, -⟩ := h.reads noLeast
  obtain ⟨t, ht, yields⟩ := he.readBefore htokens hrest
  exact ⟨e, t, ht, yields⟩

theorem Phrase.rejects {ts : List Token} {v : Value} (h : Phrase ts v) (least : v.HoldsLeast)
    (n : Nat) : Rejects (n := n) outOfRange (fun t _ => Expr.parse .lowest t) ts :=
  fun _ _ _ htokens => h.parse_failsWith least htokens .lowest

theorem phrase_array {ts : List Token} {vs : List Value} {opening closing : Token}
    (hopen : opening.kind = .leftBracket) (h : Listed Phrase ts vs)
    (hclose : closing.kind = .rightBracket) : Phrase (opening :: (ts ++ [closing])) (.array vs) := by
  refine ⟨⟨opening, _, rfl, by rw [hopen]; decide⟩, fun noLeast => ?_, fun least s rest htokens => ?_⟩
  · rw [holdsLeast_array_iff] at noLeast
    obtain ⟨es, listed, denotes⟩ := h.exists_forall₂ fun v mem us hus =>
      hus.reads fun least => noLeast ⟨v, mem, least⟩
    exact ⟨.array es, (IsExpr.array hopen listed hclose).loosen (by decide),
      Expr.denotes_array denotes⟩
  · have current := current_eq htokens
    have inside : s.advance.tokens = ts ++ closing :: rest := by
      rw [advance_tokens_eq htokens]
      simp
    rw [Expr.parsePrimary, dif_neg (by rw [current, hopen]; decide)]
    simp only [current, hopen]
    refine FailsWith.map ?_ _
    exact items_failsWith h (by decide) Phrase.starts (fun v _ noLeast us hus => hus.accepts noLeast _)
      (fun v _ least us hus => hus.rejects least _) (holdsLeast_array_iff.mp least) inside

/-- The least integer occurs in an entry. -/
def EntryHoldsLeast (entry : Key × Value) : Prop :=
  entry.1.toValue.HoldsLeast ∨ entry.2.HoldsLeast

theorem EntryPhrase.starts {ts : List Token} {entry : Key × Value} (h : EntryPhrase ts entry) :
    ∃ t us, ts = t :: us ∧ t.kind ∈ starting := by
  cases h with
  | entry hkey _ _ =>
      obtain ⟨t, us, rfl, ht⟩ := hkey.starts
      exact ⟨t, _, rfl, ht⟩

theorem EntryPhrase.reads {ts : List Token} {entry : Key × Value} (h : EntryPhrase ts entry)
    (noLeast : ¬ EntryHoldsLeast entry) :
    ∃ pair, IsPair ts pair ∧ Expr.PairDenotes pair entry := by
  cases h with
  | entry hkey hcolon hvalue =>
      obtain ⟨k, isKey, denotesKey⟩ := hkey.reads fun least => noLeast (.inl least)
      obtain ⟨e, isValue, denotesValue⟩ := hvalue.reads fun least => noLeast (.inr least)
      exact ⟨(k, e), .pair isKey hcolon isValue, denotesKey, denotesValue⟩

theorem EntryPhrase.accepts {ts : List Token} {entry : Key × Value} (h : EntryPhrase ts entry)
    (noLeast : ¬ EntryHoldsLeast entry) (n : Nat) :
    Accepts (n := n) (fun t _ => Expr.parsePair t) ts := by
  intro s hs rest htokens hrest
  obtain ⟨pair, hpair, -⟩ := h.reads noLeast
  obtain ⟨t, ht, yields⟩ := hpair.read htokens hrest
  exact ⟨pair, t, ht, yields⟩

theorem EntryPhrase.rejects {ts : List Token} {entry : Key × Value} (h : EntryPhrase ts entry)
    (least : EntryHoldsLeast entry) (n : Nat) :
    Rejects (n := n) outOfRange (fun t _ => Expr.parsePair t) ts := by
  intro s hs rest htokens
  cases h with
  | @entry us vs colon key v hkey hcolon hvalue =>
      rw [List.append_assoc] at htokens
      show (Expr.parsePair s).FailsWith outOfRange
      rw [Expr.parsePair]
      by_cases inKey : key.toValue.HoldsLeast
      · exact (hkey.parse_failsWith inKey htokens .lowest).andThen _
      · obtain ⟨k, u, hu, yields⟩ := hkey.accepts inKey _ s hs _ htokens
          (follows_cons (by rw [hcolon]; decide) (by rw [hcolon]; decide))
        have found : (expect .colon u).Yields () u.advance :=
          yields_expect.mpr ⟨by rw [next_eq hu, hcolon], rfl⟩
        have inValue := least.resolve_left inKey
        have fails := hvalue.parse_failsWith inValue (advance_tokens_eq hu) .lowest
        exact yields.andThen_failsWith fun _ => found.andThen_failsWith fun _ => (fails.map _).shift

theorem phrase_hash {ts : List Token} {entries : List (Key × Value)} {opening closing : Token}
    (distinct : (Table.keys entries).Nodup) (hopen : opening.kind = .leftBrace)
    (h : Listed EntryPhrase ts entries) (hclose : closing.kind = .rightBrace) :
    Phrase (opening :: (ts ++ [closing])) (.hash entries) := by
  refine ⟨⟨opening, _, rfl, by rw [hopen]; decide⟩, fun noLeast => ?_, fun least s rest htokens => ?_⟩
  · rw [holdsLeast_hash_iff] at noLeast
    obtain ⟨pairs, listed, denotes⟩ := h.exists_forall₂ fun entry mem us hus =>
      hus.reads fun least => noLeast ⟨entry, mem, least⟩
    exact ⟨.hash pairs, (IsExpr.hash hopen listed hclose).loosen (by decide),
      Expr.denotes_hash denotes distinct⟩
  · have current := current_eq htokens
    have inside : s.advance.tokens = ts ++ closing :: rest := by
      rw [advance_tokens_eq htokens]
      simp
    rw [Expr.parsePrimary, dif_neg (by rw [current, hopen]; decide)]
    simp only [current, hopen]
    refine FailsWith.map ?_ _
    exact items_failsWith h (by decide) EntryPhrase.starts
      (fun entry _ noLeast us hus => hus.accepts noLeast _)
      (fun entry _ least us hus => hus.rejects least _) (holdsLeast_hash_iff.mp least) inside

theorem forms_entry {key : Key} {v : Value} (plain : key.IsPlain)
    (h : ∀ rest, Ends rest → Forms v.sourceText.toList rest (Phrase · v)) {rest : List Char}
    (hrest : Ends rest) :
    Forms (key.textWith inQuotes ++ ": " ++ v.sourceText).toList rest (EntryPhrase · (key, v)) := by
  have text : (key.textWith inQuotes ++ ": " ++ v.sourceText).toList =
      (key.textWith inQuotes).toList ++ ([':'] ++ ([' '] ++ v.sourceText.toList)) := by simp
  rw [text]
  have value := (forms_space _).append (h rest hrest)
  have colon := (forms_separator .colon (by decide) _).append value
  refine ((forms_key plain (ends_cons (by decide) _)).append colon).mono ?_
  rintro _ ⟨us, _, rfl, hus, _, _, rfl, ⟨t, rfl, ht⟩, _, vs, rfl, rfl, hvs⟩
  exact .entry hus ht hvs

theorem toList_sourceText_array (elements : List Value) :
    (array elements).sourceText.toList =
      ['['] ++ ((commaJoin (elements.map sourceText)).toList ++ [']']) := by
  rw [sourceText, textWith, textsWith_eq_map, String.toList_append, String.toList_append,
    List.append_assoc]
  rfl

theorem toList_sourceText_hash (entries : List (Key × Value)) :
    (hash entries).sourceText.toList =
      ['{'] ++ ((commaJoin (entries.map fun entry =>
        entry.1.textWith inQuotes ++ ": " ++ entry.2.sourceText)).toList ++ ['}']) := by
  rw [sourceText, textWith, entryTextsWith_eq_map, String.toList_append, String.toList_append,
    List.append_assoc]
  rfl

/-- The text of a plain value is cut into tokens that are a phrase of it. -/
theorem forms_sourceText {v : Value} (plain : v.All IsPlain) :
    ∀ rest, Ends rest → Forms v.sourceText.toList rest (Phrase · v) := by
  refine plain.plain_induct (motive := fun v => ∀ rest, Ends rest →
    Forms v.sourceText.toList rest (Phrase · v)) ?_ ?_ ?_
  · intro key plain rest hrest
    rw [sourceText, textWith_toValue]
    exact forms_key plain hrest
  · intro elements ih rest hrest
    have inner : Forms (commaJoin (elements.map sourceText)).toList (']' :: rest)
        (Listed Phrase · elements) := forms_listed ih (ends_cons (by decide) rest)
    rw [toList_sourceText_array]
    refine (forms_between .leftBracket .rightBracket (by decide) (by decide) inner).mono ?_
    rintro _ ⟨t, us, t', rfl, ht, ht', hus⟩
    exact phrase_array ht hus ht'
  · intro entries distinct plain ih rest hrest
    have each : ∀ entry ∈ entries, ∀ rest, Ends rest →
        Forms (entry.1.textWith inQuotes ++ ": " ++ entry.2.sourceText).toList rest
          (EntryPhrase · entry) :=
      fun entry mem rest hrest =>
        forms_entry (plain _ (List.mem_map_of_mem mem)) (ih entry mem) hrest
    have inner := forms_listed each (ends_cons (by decide : isNameChar '}' = false) rest)
    rw [toList_sourceText_hash]
    refine (forms_between .leftBrace .rightBrace (by decide) (by decide) inner).mono ?_
    rintro _ ⟨t, us, t', rfl, ht, ht', hus⟩
    exact phrase_hash distinct ht hus ht'

/-! ### Equality -/

theorem equal_self_of_plain {v : Value} (plain : v.All IsPlain) : v.equal v = true := by
  refine equal_refl fun part within => ?_
  have here := plain part within
  cases part <;> first | trivial | exact here.1

end Value

/-! ### Running the text of a value -/

theorem Value.unwrap_of_plain {v : Value} (h : v.IsPlain) : v.unwrap = v := by
  cases v <;> first | rfl | exact h.elim

/-- The result of a program that is an expression is its value. -/
theorem Node.run_expr {e : Expr} {v : Value} (h : e.Denotes v) (unwrapped : v.unwrap = v)
    (depth : Nat) (scope : Scope) (store : Store) :
    (Node.program [.expr e]).run depth scope store = (some v, store) := by
  have statement : (Stmt.exec depth scope (.expr e)).runOn store = (.ok (some v), store) := by
    rw [Stmt.exec, Eval.runOn_bind, h]
    rfl
  have statements : (Stmt.execAll depth scope none [.expr e]).runOn store = (.ok (some v), store) := by
    rw [Stmt.execAll, Eval.runOn_bind, statement]
    cases v <;> simp [Stmt.execAll]
  rw [Node.run, Node.eval, statements]
  exact congrArg (some ·, store) unwrapped

theorem ne_eof_of_mem_starting {kind : TokenKind} (h : kind ∈ starting) :
    kind ≠ .eof ∧ kind ≠ .letWord ∧ kind ≠ .returnWord := by
  revert h
  cases kind <;> decide

/-- A phrase of a value is a program that is read without an error, unless the least integer occurs in
the value. -/
theorem Value.Phrase.parseProgram {ts : List Token} {v : Value} (h : Value.Phrase ts v)
    {s : TokenStream} (htokens : s.tokens = ts) :
    (¬ v.HoldsLeast → ∃ e : Expr, parseProgram s = ⟨[.expr e], []⟩ ∧ e.Denotes v) ∧
      (v.HoldsLeast → ∃ line errors,
        (Marmoset.parseProgram s).errors = ⟨outOfRange, line⟩ :: errors) := by
  constructor
  · intro noLeast
    obtain ⟨e, he, denotes⟩ := h.reads noLeast
    have program : IsStmts (ts ++ []) [.expr e] := .unclosed (.expr he) nofun .nil
    exact ⟨e, program.parseProgram_eq (by rw [htokens, List.append_nil]), denotes⟩
  · intro least
    obtain ⟨t, us, rfl, ht⟩ := h.starts
    obtain ⟨notEnd, notLet, notReturn⟩ := ne_eof_of_mem_starting ht
    rw [← current_eq htokens] at notEnd notLet notReturn
    have expression := h.parse_failsWith least (htokens.trans (List.append_nil _).symm) .lowest
    obtain ⟨line, first⟩ : (Stmt.parse s).FailsWith outOfRange := by
      rw [Stmt.parse, dif_neg notLet, dif_neg notReturn]
      exact expression.andThen _
    have head := head?_errors_of_firstError? notEnd first
    obtain ⟨errors, cons⟩ := List.head?_eq_some_iff.mp head
    exact ⟨line, errors, cons⟩

/-- **The text of a value evaluates back to the value.**  Let the value be plain in all its parts.  If
the least integer does not occur in it, its source text, run anywhere, has the value as its result and
changes and prints nothing.  If it does, the text cannot be read, and the first error is the integer
that the least one is the negative of. -/
theorem runSource_sourceText {v : Value} (plain : v.All Value.IsPlain) (depth : Nat) (scope : Scope)
    (store : Store) :
    (¬ v.HoldsLeast → runSource depth scope v.sourceText store = (.ok (some v), store) ∧
        v.equal v = true) ∧
      (v.HoldsLeast → ∃ line errors, runSource depth scope v.sourceText store =
        (.error (⟨.badInteger "9223372036854775808", line⟩ :: errors), store)) := by
  obtain ⟨ts, line, cut, phrase⟩ := Value.forms_sourceText plain [] ends_nil 1
  have tokens : (TokenStream.ofSource v.sourceText).tokens = ts := by
    rw [List.append_nil, lexemes, tokensFrom, List.append_nil] at cut
    exact cut
  obtain ⟨reads, fails⟩ := phrase.parseProgram tokens
  constructor
  · intro noLeast
    obtain ⟨e, parsed, denotes⟩ := reads noLeast
    refine ⟨?_, Value.equal_self_of_plain plain⟩
    have result := Node.run_expr denotes (Value.unwrap_of_plain plain.self) depth scope store
    unfold runSource parseSource
    rw [parsed]
    simp only [List.isEmpty_nil, if_true, result]
  · intro least
    obtain ⟨line, errors, found⟩ := fails least
    refine ⟨line, errors, ?_⟩
    unfold runSource parseSource
    simp only [found]
    rfl

/-- A hash with an array and the greatest integer in it is read back; an array with the least integer as
a key in it is not. -/
theorem runSource_sourceText_nested :
    let v : Value := .hash [(.integer (-1), .array [.boolean true, .text "a, // b"]),
      (.text "k: 1", .hash []), (.boolean false, .integer Int64.maxValue)]
    let w : Value := .array [.text "x", .hash [(.integer Int64.minValue, .integer 1)]]
    v.All Value.IsPlain ∧ ¬ v.HoldsLeast ∧ w.All Value.IsPlain ∧ w.HoldsLeast ∧
      runSource 0 ⟨0, []⟩ v.sourceText .empty = (.ok (some v), .empty) ∧ v.equal v = true ∧
      ∃ line errors, runSource 0 ⟨0, []⟩ w.sourceText .empty =
        (.error (⟨.badInteger "9223372036854775808", line⟩ :: errors), .empty) := by
  intro v w
  have integer (p : Value → Prop) (n : Int64) : (Value.integer n).All p ↔ p (.integer n) :=
    Value.all_toValue_iff (.integer n)
  have boolean (p : Value → Prop) (b : Bool) : (Value.boolean b).All p ↔ p (.boolean b) :=
    Value.all_toValue_iff (.boolean b)
  have text (p : Value → Prop) (s : String) : (Value.text s).All p ↔ p (.text s) :=
    Value.all_toValue_iff (.text s)
  have plain : v.All Value.IsPlain := by
    simp [v, Value.all_hash_iff, Value.all_array_iff, Value.IsPlain, Key.IsPlain, Table.keys, integer,
      boolean, text]
  have plain' : w.All Value.IsPlain := by
    simp [w, Value.all_hash_iff, Value.all_array_iff, Value.IsPlain, Key.IsPlain, Table.keys, integer,
      text]
  have noLeast : ¬ v.HoldsLeast := by
    have greatest : Int64.maxValue ≠ Int64.minValue := by decide
    have parts : v.All fun part => ¬ part.IsLeast := by
      simp [v, Value.all_hash_iff, Value.all_array_iff, Value.IsLeast, Table.keys, integer, boolean,
        text, greatest]
    rintro ⟨part, within, least⟩
    exact parts part within least
  have least : w.HoldsLeast :=
    ⟨_, .element (List.mem_cons_of_mem _ List.mem_cons_self) .self, List.mem_cons_self⟩
  have result := (runSource_sourceText plain 0 ⟨0, []⟩ .empty).1 noLeast
  exact ⟨plain, noLeast, plain', least, result.1, result.2,
    (runSource_sourceText plain' 0 ⟨0, []⟩ .empty).2 least⟩

example : (Value.hash [(.integer (-1), .array [.boolean true, .text "a, // b"]),
    (.text "k: 1", .hash [])]).sourceText = "\x7b-1: [true, \"a, // b\"], \"k: 1\": \x7b\x7d\x7d" := by
  decide +kernel

end Marmoset
