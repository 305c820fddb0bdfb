import Mathlib.Data.List.Nodup
import Mathlib.Data.List.TakeWhile
import Marmoset.CommandLine.Run
import Marmoset.Proofs.Continuation

/-! # A dialogue is a session

The specification of a dialogue knows neither bytes nor prompts: a `Session` runs texts one after
the other in one scope and one store, which nothing else touches, and notes for each text what was
printed while it ran and what it gave.

Main statement (`dialogue_is_session`): when the arguments are flags only, what the program writes
is the answers of a session, each after a prompt, and a last prompt.  The texts of the session are
the lines of the input up to its end or to the first `.quit`, trimmed (`Heard`); the bytes after
`.quit` may be anything.

The program forgets what a line printed before it runs the next, so its store and that of the
session differ in the output.  They stay equal apart from it because no program can look at the
output (`runSource_precededBy`). -/

namespace Marmoset

/-! ### Arguments that are flags -/

namespace CommandLine

/-- A flag that can go with a dialogue. -/
inductive Flag where
  | file
  | pipe
deriving DecidableEq

namespace Flag

/-- The letter of a flag. -/
def letter : Flag → Char
  | file => 'f'
  | pipe => 'p'

/-- The long form of a flag. -/
def word : Flag → String
  | file => "--file"
  | pipe => "--pipe-mode"

end Flag

/-- Arguments that give the listed flags and nothing else.  Letters may share a dash, and `--` may
follow the flags. -/
inductive GiveFlags : List String → List Flag → Prop where
  | none : GiveFlags [] []
  | ended : GiveFlags ["--"] []
  | word (flag : Flag) {args : List String} {flags : List Flag} :
      GiveFlags args flags → GiveFlags (flag.word :: args) (flag :: flags)
  | letters (flag : Flag) (others : List Flag) {args : List String} {flags : List Flag} :
      GiveFlags args flags →
        GiveFlags (String.ofList ('-' :: (flag :: others).map Flag.letter) :: args)
          ((flag :: others) ++ flags)

/-- No argument but flags, and none of them twice. -/
def OnlyFlags (args : List String) : Prop :=
  ∃ flags, GiveFlags args flags ∧ flags.Nodup

namespace Seen

/-- Reads a flag. -/
def setFlag (seen : Seen) : Flag → Except Action Seen
  | .file => seen.setFile
  | .pipe => seen.setPipe

/-- The flags read so far. -/
def flags (seen : Seen) : List Flag :=
  (if seen.file then [.file] else []) ++ (if seen.pipe then [.pipe] else [])

theorem shortFlag_letter (seen : Seen) (flag : Flag) :
    seen.shortFlag flag.letter = seen.setFlag flag := by
  cases flag <;> rfl

theorem argument_word (seen : Seen) (flag : Flag) :
    seen.argument flag.word = seen.setFlag flag := by
  cases flag <;> rfl

theorem foldlM_letters (seen : Seen) (flags : List Flag) :
    (flags.map Flag.letter).foldlM shortFlag seen = flags.foldlM setFlag seen := by
  rw [List.foldlM_map]
  exact congrArg (fun f => flags.foldlM f seen) (funext₂ shortFlag_letter)

theorem argument_letters (seen : Seen) (flag : Flag) (others : List Flag) :
    seen.argument (String.ofList ('-' :: (flag :: others).map Flag.letter)) =
      (flag :: others).foldlM setFlag seen := by
  rw [← foldlM_letters]
  cases flag <;> simp [argument, Flag.letter]

theorem arguments_of_giveFlags {args : List String} {flags : List Flag}
    (given : GiveFlags args flags) (seen : Seen) :
    seen.arguments args = flags.foldlM setFlag seen := by
  induction given generalizing seen with
  | none => rfl
  | ended => rfl
  | word flag _ ih =>
    have flagged : flag.word ≠ "--" := by cases flag <;> decide
    rw [arguments, if_neg flagged, argument_word, List.foldlM_cons]
    exact congrArg (seen.setFlag flag).bind (funext ih)
  | letters flag others _ ih =>
    have flagged : String.ofList ('-' :: (flag :: others).map Flag.letter) ≠ "--" := by
      intro same
      have second := congrArg String.toList same
      cases flag <;> simp [Flag.letter] at second
    rw [arguments, if_neg flagged, argument_letters, List.foldlM_append]
    exact congrArg ((flag :: others).foldlM setFlag seen).bind (funext ih)

/-- A flag not read before is read. -/
theorem exists_setFlag {seen : Seen} {flag : Flag} (fresh : flag ∉ seen.flags) :
    ∃ seen', seen.setFlag flag = .ok seen' ∧ seen'.contents = seen.contents ∧
      ∀ other, other ∈ seen'.flags ↔ other = flag ∨ other ∈ seen.flags := by
  obtain ⟨file, pipe, contents⟩ := seen
  cases flag <;> cases file <;> cases pipe <;>
    simp_all [flags, setFlag, setFile, setPipe]
  all_goals grind

theorem exists_foldlM_setFlag {flags : List Flag} (nodup : flags.Nodup) {seen : Seen}
    (fresh : ∀ flag ∈ flags, flag ∉ seen.flags) :
    ∃ seen', flags.foldlM setFlag seen = .ok seen' ∧ seen'.contents = seen.contents := by
  induction flags generalizing seen with
  | nil => exact ⟨seen, rfl, rfl⟩
  | cons flag flags ih =>
    obtain ⟨absent, nodup⟩ := List.nodup_cons.mp nodup
    obtain ⟨next, read, kept, now⟩ := exists_setFlag (fresh flag List.mem_cons_self)
    have later : ∀ other ∈ flags, other ∉ next.flags := by
      intro other listed again
      rcases (now other).mp again with rfl | before
      · exact absent listed
      · exact fresh other (List.mem_cons_of_mem _ listed) before
    obtain ⟨seen', rest, same⟩ := ih nodup later
    exact ⟨seen', by rw [List.foldlM_cons, read]; exact rest, same.trans kept⟩

end Seen

theorem Action.ofArguments_of_onlyFlags {args : List String} (only : OnlyFlags args) :
    Action.ofArguments args = .interact := by
  obtain ⟨flags, given, nodup⟩ := only
  have fresh : ∀ flag ∈ flags, flag ∉ Seen.nothing.flags := fun _ _ => List.not_mem_nil
  obtain ⟨seen, read, kept⟩ := Seen.exists_foldlM_setFlag nodup fresh
  have empty : seen.contents = none := kept
  rw [ofArguments, Seen.arguments_of_giveFlags given, read]
  simp only [Seen.action, empty]

end CommandLine

/-! ### Bytes of texts -/

/-- The UTF-8 bytes of a text. -/
def utf8 (s : String) : List UInt8 :=
  s.toUTF8.data.toList

theorem utf8_eq_flatMap (s : String) : utf8 s = s.toList.flatMap String.utf8EncodeChar := by
  conv_lhs => rw [← String.ofList_toList (s := s)]
  rw [utf8, String.toUTF8_eq_toByteArray, String.toByteArray_ofList, List.utf8Encode,
    List.toList_data_toByteArray]

theorem utf8_append (s t : String) : utf8 (s ++ t) = utf8 s ++ utf8 t := by
  rw [utf8_eq_flatMap, utf8_eq_flatMap, utf8_eq_flatMap, String.toList_append, List.flatMap_append]

theorem utf8_feed : utf8 "\n" = [10] := by
  rw [utf8_eq_flatMap]
  rfl

/-- Only a line feed has the byte 10 in its encoding: the bytes of a longer encoding are above
it. -/
theorem eq_feed_of_mem_utf8EncodeChar {c : Char} (feed : 10 ∈ String.utf8EncodeChar c) :
    c = '\n' := by
  have value : ∀ n < 256, 10 = UInt8.ofNat n → n = 10 := by
    intro n small same
    have number := congrArg UInt8.toNat same
    rw [UInt8.toNat_ofNat_of_lt' small] at number
    exact number.symm
  have code : c.val.toNat = 10 := by
    rw [String.utf8EncodeChar] at feed
    grind
  exact Char.ext (UInt32.toNat_inj.mp code)

theorem feed_not_mem_utf8 {s : String} (single : '\n' ∉ s.toList) : 10 ∉ utf8 s := by
  rw [utf8_eq_flatMap, List.mem_flatMap]
  rintro ⟨c, inside, feed⟩
  exact single (eq_feed_of_mem_utf8EncodeChar feed ▸ inside)

theorem decodeUtf8?_utf8 (s : String) : Dialogue.decodeUtf8? (utf8 s) = some s := by
  have bytes : (⟨(utf8 s).toArray⟩ : ByteArray) = s.toByteArray := rfl
  rw [Dialogue.decodeUtf8?, bytes, String.fromUTF8?, dif_pos s.isValidUTF8]
  rfl

theorem utf8_injective : Function.Injective utf8 := by
  intro s t same
  have read := decodeUtf8?_utf8 s
  rw [same, decodeUtf8?_utf8] at read
  exact (Option.some.inj read).symm

/-! ### Lines of an input -/

namespace Dialogue

theorem isNotFeed_of_not_mem {bytes : List UInt8} (single : 10 ∉ bytes) :
    ∀ b ∈ bytes, isNotFeed b = true := by
  intro b inside
  simpa [isNotFeed] using ne_of_mem_of_not_mem inside single

theorem linesOf_append_feed {bytes : List UInt8} (single : 10 ∉ bytes) (rest : List UInt8) :
    linesOf (bytes ++ 10 :: rest) = (bytes ++ [10]) :: linesOf rest := by
  have inside := isNotFeed_of_not_mem single
  have cut : cutLine (bytes ++ 10 :: rest) = (bytes ++ [10], rest) := by
    rw [cutLine, List.dropWhile_append_of_pos inside, List.takeWhile_append_of_pos inside]
    simp [isNotFeed]
  obtain ⟨b, bs, same⟩ := List.exists_cons_of_ne_nil (l := bytes ++ 10 :: rest) (by simp)
  rw [same, linesOf, ← same, cut]

theorem linesOf_of_not_mem {bytes : List UInt8} (nonempty : bytes ≠ []) (single : 10 ∉ bytes) :
    linesOf bytes = [bytes] := by
  have cut : cutLine bytes = (bytes, []) := by
    rw [cutLine, List.dropWhile_eq_nil_iff.mpr (isNotFeed_of_not_mem single)]
  obtain ⟨b, bs, rfl⟩ := List.exists_cons_of_ne_nil nonempty
  rw [linesOf, cut, linesOf]

theorem linesOf_line {line : String} (single : '\n' ∉ line.toList) (rest : List UInt8) :
    linesOf (utf8 line ++ 10 :: rest) = utf8 (line ++ "\n") :: linesOf rest := by
  rw [linesOf_append_feed (feed_not_mem_utf8 single), utf8_append, utf8_feed]

theorem linesOf_last {line : String} (single : '\n' ∉ line.toList) (nonempty : line ≠ "") :
    linesOf (utf8 line) = [utf8 line] := by
  have bytes : utf8 line ≠ [] := fun none => nonempty (utf8_injective none)
  exact linesOf_of_not_mem bytes (feed_not_mem_utf8 single)

end Dialogue

theorem trimWhiteSpace_append_feed (s : String) :
    trimWhiteSpace (s ++ "\n") = trimWhiteSpace s := by
  have feed : isWhiteSpace '\n' = true := rfl
  have list : trimList (s.toList ++ ['\n']) = trimList s.toList := by
    rw [trimList, trimList, List.dropWhile_append]
    split
    · next blank => simp [feed, List.isEmpty_iff.mp blank]
    · simp [feed]
  exact congrArg String.ofList (by rw [String.toList_append]; exact list)

theorem ne_empty_of_quit {line : String} (quit : trimWhiteSpace line = ".quit") : line ≠ "" := by
  rintro rfl
  exact absurd quit (by decide)

/-- The lines of an input that a dialogue runs: those before its end or before the first line that
trims to `.quit`.  They are UTF-8; what follows `.quit` need not be. -/
inductive Heard : List UInt8 → List String → Prop where
  | ended : Heard [] []
  /-- A line with its line feed. -/
  | line {line : String} {rest : List UInt8} {lines : List String} :
      '\n' ∉ line.toList → trimWhiteSpace line ≠ ".quit" → Heard rest lines →
        Heard (utf8 line ++ 10 :: rest) (line :: lines)
  /-- The last line, without a line feed. -/
  | unended {line : String} :
      '\n' ∉ line.toList → trimWhiteSpace line ≠ ".quit" → line ≠ "" → Heard (utf8 line) [line]
  /-- The end of the input or the line feed and any bytes follow `.quit`. -/
  | quit {line : String} {tail : List UInt8} :
      '\n' ∉ line.toList → trimWhiteSpace line = ".quit" → (tail = [] ∨ ∃ rest, tail = 10 :: rest) →
        Heard (utf8 line ++ tail) []

/-- Every text can be heard, to its end or to its first `.quit`. -/
theorem exists_heard (text : List Char) : ∃ lines, Heard (utf8 (String.ofList text)) lines := by
  by_cases feed : '\n' ∈ text
  · obtain ⟨line, rest, rfl, absent⟩ := List.eq_append_cons_of_mem feed
    have single : '\n' ∉ (String.ofList line).toList := by rwa [String.toList_ofList]
    have bytes : utf8 (String.ofList (line ++ '\n' :: rest)) =
        utf8 (String.ofList line) ++ 10 :: utf8 (String.ofList rest) := by
      have feed : utf8 (String.ofList ['\n']) = [10] := utf8_feed
      rw [List.append_cons, String.ofList_append, String.ofList_append, utf8_append, utf8_append,
        List.append_assoc, feed, List.singleton_append]
    rw [bytes]
    by_cases quit : trimWhiteSpace (String.ofList line) = ".quit"
    · exact ⟨[], .quit single quit (.inr ⟨_, rfl⟩)⟩
    · obtain ⟨lines, heard⟩ := exists_heard rest
      exact ⟨_, .line single quit heard⟩
  · have single : '\n' ∉ (String.ofList text).toList := by rwa [String.toList_ofList]
    by_cases quit : trimWhiteSpace (String.ofList text) = ".quit"
    · exact ⟨[], List.append_nil (utf8 _) ▸ .quit single quit (.inl rfl)⟩
    · by_cases empty : String.ofList text = ""
      · exact ⟨[], empty ▸ .ended⟩
      · exact ⟨_, .unended single quit empty⟩
termination_by text.length

/-! ### Sessions -/

/-- What came of a text: what was printed while it ran, and its result. -/
structure Answer where
  printed : String
  result : Except (List ParseError) (Option Value)

namespace Answer

/-- The lines that tell the result. -/
def lines (answer : Answer) : List String :=
  match answer.result with
  | .ok none => []
  | .ok (some value) => [value.render]
  | .error errors => "parser errors:" :: errors.map fun e => "\t" ++ e.message

/-- An answer after a prompt. -/
def text (answer : Answer) : String :=
  ">> " ++ answer.printed ++ String.join (answer.lines.map (· ++ "\n"))

theorem join_lines (answer : Answer) :
    String.join (answer.lines.map (· ++ "\n")) = Dialogue.shown answer.result := by
  obtain ⟨printed, _ | _ | value⟩ := answer
  · simp [lines, Dialogue.shown, Function.comp_def, String.append_assoc]
  · rfl
  · simp [lines, Dialogue.shown]

end Answer

/-- The texts run one after the other in the same scope, the first of them on the given store and
each other one on the store that the one before it left. -/
inductive Session (scope : Scope) : Store → List String → List Answer → Prop where
  | nil {σ : Store} : Session scope σ [] []
  | cons {σ σ' : Store} {text : String} {texts : List String} {answer : Answer}
      {answers : List Answer} :
      runSource 0 scope text σ = (answer.result, σ') → σ'.output = σ.output ++ answer.printed →
        Session scope σ' texts answers → Session scope σ (text :: texts) (answer :: answers)

namespace Dialogue

/-- A dialogue that shares everything with a store but the output. -/
def silenced (scope : Scope) (σ : Store) : Dialogue :=
  ⟨scope, σ.takeOutput.2⟩

/-- A reply is what a run with all earlier output in the store adds to the output, and then its
result. -/
theorem exists_reply_silenced (scope : Scope) (σ : Store) (line : String) :
    ∃ (answer : Answer) (σ' : Store), runSource 0 scope line σ = (answer.result, σ') ∧
      σ'.output = σ.output ++ answer.printed ∧
      prompt ++ ((silenced scope σ).reply line).1 = answer.text ∧
      ((silenced scope σ).reply line).2 = silenced scope σ' := by
  have split := runSource_precededBy σ.takeOutput.1 line 0 scope σ.takeOutput.2
  rw [σ.takeOutput_precededBy] at split
  rcases ran : runSource 0 scope line σ.takeOutput.2 with ⟨result, τ⟩
  rw [ran] at split
  refine ⟨⟨τ.output, result⟩, τ.precededBy σ.output, split, rfl, ?_, ?_⟩
  · rw [Answer.text, Answer.join_lines, reply, silenced, ran, prompt]
    simp [Store.takeOutput, String.append_assoc]
  · rw [reply, silenced, ran]
    rfl

/-- What the given lines lead to is what a session with the given texts answers. -/
def Conducts (scope : Scope) (σ : Store) (lines : List (List UInt8)) (texts : List String) : Prop :=
  ∃ answers, Session scope σ texts answers ∧
    (silenced scope σ).converse lines =
      ⟨0, String.join (answers.map Answer.text) ++ prompt, ""⟩

theorem conducts_of_quit (scope : Scope) (σ : Store) {line : String}
    (quit : trimWhiteSpace line = ".quit") (rest : List (List UInt8)) :
    Conducts scope σ (utf8 line :: rest) [] := by
  have ended : (silenced scope σ).turn (utf8 line) = .ended 0 "" := by
    rw [turn, decodeUtf8?_utf8]
    exact if_pos quit
  refine ⟨[], .nil, ?_⟩
  rw [converse, ended]
  rfl

theorem conducts_cons {scope : Scope} {line : String} (stay : trimWhiteSpace line ≠ ".quit")
    {rest : List (List UInt8)} {texts : List String}
    (later : ∀ σ, Conducts scope σ rest texts) (σ : Store) :
    Conducts scope σ (utf8 line :: rest) (trimWhiteSpace line :: texts) := by
  obtain ⟨answer, σ', ran, printed, said, left⟩ :=
    exists_reply_silenced scope σ (trimWhiteSpace line)
  obtain ⟨answers, session, spoken⟩ := later σ'
  have answered : (silenced scope σ).turn (utf8 line) =
      .answered ((silenced scope σ).reply (trimWhiteSpace line)).1 (silenced scope σ') := by
    rw [turn, decodeUtf8?_utf8, ← left]
    exact if_neg stay
  refine ⟨answer :: answers, .cons ran printed session, ?_⟩
  rw [converse, answered]
  simp only [spoken, said, List.map_cons, String.join_cons, String.append_assoc]

theorem conducts_of_heard (scope : Scope) {input : List UInt8} {lines : List String}
    (heard : Heard input lines) (σ : Store) :
    Conducts scope σ (linesOf input) (lines.map trimWhiteSpace) := by
  induction heard generalizing σ with
  | ended =>
    rw [linesOf]
    exact ⟨[], .nil, rfl⟩
  | @line line rest lines single stay _ ih =>
    rw [linesOf_line single, List.map_cons, ← trimWhiteSpace_append_feed]
    exact conducts_cons (by rwa [trimWhiteSpace_append_feed]) ih σ
  | unended single stay nonempty =>
    rw [linesOf_last single nonempty]
    exact conducts_cons stay (fun _ => ⟨[], .nil, rfl⟩) σ
  | quit single quit follows =>
    rcases follows with rfl | ⟨rest, rfl⟩
    · rw [List.append_nil, linesOf_last single (ne_empty_of_quit quit)]
      exact conducts_of_quit scope σ quit []
    · rw [linesOf_line single]
      exact conducts_of_quit scope σ (by rwa [trimWhiteSpace_append_feed]) _

end Dialogue

/-- **A dialogue is a session.**  With flags as its only arguments, the program runs the lines of its
input as a session in a new scope and writes the answers, each after a prompt, and a last prompt.
Every input in UTF-8 has such lines, and so has every input that is UTF-8 up to a `.quit`. -/
theorem dialogue_is_session {args : List String} (only : CommandLine.OnlyFlags args)
    (readFile : String → Option (List UInt8)) :
    (∀ text : String, ∃ lines, Heard (utf8 text) lines) ∧
    ∀ input lines, Heard input lines → ∃ answers,
      Session Store.empty.newScope.1 Store.empty.newScope.2 (lines.map trimWhiteSpace) answers ∧
      CommandLine.run args readFile input =
        ⟨0, String.join (answers.map Answer.text) ++ ">> ", ""⟩ := by
  refine ⟨fun text => String.ofList_toList (s := text) ▸ exists_heard text.toList,
    fun input lines heard => ?_⟩
  obtain ⟨answers, session, spoken⟩ :=
    Dialogue.conducts_of_heard Store.empty.newScope.1 heard Store.empty.newScope.2
  refine ⟨answers, session, ?_⟩
  rw [CommandLine.run, CommandLine.Action.ofArguments_of_onlyFlags only]
  exact spoken

/-- The lines print, fail at run time, fail to be read and give nothing; what follows `.quit` is not
UTF-8. -/
theorem dialogue_is_session_until_quit :
    CommandLine.OnlyFlags ["-pf", "--"] ∧
    Heard (utf8 "puts(1); 1 / 0" ++ 10 :: (utf8 "let é = )\r" ++ 10 :: (utf8 "" ++ 10 ::
      (utf8 " .quit\r" ++ [10, 255])))) ["puts(1); 1 / 0", "let é = )\r", ""] ∧
    ∃ answers,
      Session Store.empty.newScope.1 Store.empty.newScope.2 ["puts(1); 1 / 0", "let é = )", ""]
        answers ∧
      CommandLine.run ["-pf", "--"] (fun _ => none)
        (utf8 "puts(1); 1 / 0" ++ 10 :: (utf8 "let é = )\r" ++ 10 :: (utf8 "" ++ 10 ::
          (utf8 " .quit\r" ++ [10, 255])))) =
        ⟨0, String.join (answers.map Answer.text) ++ ">> ", ""⟩ := by
  have only : CommandLine.OnlyFlags ["-pf", "--"] :=
    ⟨[.pipe, .file], .letters .pipe [.file] .ended, by decide⟩
  have heard : Heard (utf8 "puts(1); 1 / 0" ++ 10 :: (utf8 "let é = )\r" ++ 10 :: (utf8 "" ++ 10 ::
      (utf8 " .quit\r" ++ [10, 255])))) ["puts(1); 1 / 0", "let é = )\r", ""] :=
    .line (by decide) (by decide) <| .line (by decide) (by decide) <|
      .line (by decide) (by decide) <| .quit (by decide) (by decide) (.inr ⟨[255], rfl⟩)
  exact ⟨only, heard, (dialogue_is_session only fun _ => none).2 _ _ heard⟩

end Marmoset
