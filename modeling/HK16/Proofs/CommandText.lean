import HK16.Proofs.Writing

/-!
# Commands and their source lines

A command has a source line, which is made of its words with a space between
each two of them. Commands are added to a lowering directly or as such lines.
Both ways check indices and counts and name the same faults, but names are
checked in lines only. So the line of a command is read as that command exactly
if the command is accepted directly and its names have the right form. Lines with
comments, further words or other blanks are not covered.
-/

namespace HK16

namespace Text

/-- Whether the text is a word that stays whole in a line: it is not empty, and
holds neither blanks nor slashes. -/
def isWord (text : List Char) : Bool :=
  !text.isEmpty && text.all fun c => !isBlank c && c != '/'

/-- The letters of words are neither blank nor slashes. -/
theorem isWord_iff {text : List Char} :
    isWord text = true ↔ text ≠ [] ∧ ∀ c ∈ text, isBlank c = false ∧ c ≠ '/' := by
  simp only [isWord, Bool.and_eq_true, Bool.not_eq_true', List.isEmpty_eq_false_iff,
    List.all_eq_true, bne_iff_ne]

/-- Names are words. -/
theorem isWord_of_isName {text : List Char} (h : isName text = true) : isWord text = true := by
  refine isWord_iff.mpr ⟨?_, fun c hc => Assembly.nameChar_free (isNameChar_of_mem h hc)⟩
  rintro rfl
  cases h

/-- Letters that are not blank are added to the word that is being read. -/
theorem wordsFrom_append {letters : List Char} (h : ∀ c ∈ letters, isBlank c = false)
    (text word : List Char) :
    wordsFrom (letters ++ text) word = wordsFrom text (letters.reverse ++ word) := by
  induction letters generalizing word with
  | nil => rfl
  | cons c letters ih =>
    rw [List.forall_mem_cons] at h
    have hletter : ¬isBlank c = true := Bool.eq_false_iff.mp h.1
    rw [List.cons_append, wordsFrom, if_neg hletter, ih h.2, List.reverse_cons, List.append_assoc,
      List.singleton_append]

/-- Words with spaces between them are found again. -/
theorem words_intercalate {items : List (List Char)} (h : ∀ item ∈ items, isWord item = true) :
    words ([' '].intercalate items) = items := by
  induction items with
  | nil => rfl
  | cons item items ih =>
    rw [List.forall_mem_cons] at h
    obtain ⟨hnonempty, hletters⟩ := isWord_iff.mp h.1
    have hopen : ¬item.reverse.isEmpty = true := by
      rw [List.isEmpty_reverse, List.isEmpty_iff]
      exact hnonempty
    have hfirst (text : List Char) : words (item ++ text) = wordsFrom text item.reverse := by
      rw [words, wordsFrom_append (fun c hc => (hletters c hc).1), List.append_nil]
    cases items with
    | nil =>
      have hlast := hfirst []
      rw [List.append_nil] at hlast
      rw [List.intercalate_singleton, hlast, wordsFrom, if_neg hopen, List.reverse_reverse]
    | cons next items =>
      have hspace : isBlank ' ' = true := rfl
      rw [List.intercalate_cons_cons, List.append_assoc, hfirst, List.singleton_append, wordsFrom,
        if_pos hspace, if_neg hopen, List.reverse_reverse]
      exact congrArg (item :: ·) (ih h.2)

/-- Words with spaces between them hold no slash. -/
theorem slash_notMem_intercalate {items : List (List Char)}
    (h : ∀ item ∈ items, isWord item = true) : '/' ∉ [' '].intercalate items := by
  induction items with
  | nil => exact List.not_mem_nil
  | cons item items ih =>
    rw [List.forall_mem_cons] at h
    have hfirst : '/' ∉ item := fun hmem => ((isWord_iff.mp h.1).2 '/' hmem).2 rfl
    cases items with
    | nil =>
      rw [List.intercalate_singleton]
      exact hfirst
    | cons next items =>
      have hspace : '/' ∉ [' '] := by decide
      rw [List.intercalate_cons_cons, List.mem_append, List.mem_append, not_or, not_or]
      exact ⟨⟨hfirst, hspace⟩, ih h.2⟩

/-- Digits without a sign are read as such. -/
theorem readNat_of_isDigit {limit : Nat} {digits : List Char} (hnonempty : digits ≠ [])
    (h : ∀ c ∈ digits, c.isDigit = true) :
    readNat limit digits = readDigits limit .tooLarge 0 digits := by
  have hsign : '+' ∉ digits := fun hmem => absurd (h '+' hmem) (by decide)
  rw [readNat.eq_def]
  split
  · exact absurd rfl hnonempty
  · exact absurd List.mem_cons_self hsign
  · exact absurd List.mem_cons_self hsign
  · rfl

end Text

namespace Bytecode

/-! ## Arguments -/

/-- Decimal texts are words. -/
theorem isWord_decimal (value : Word) : Text.isWord value.decimal.toList = true := by
  refine Text.isWord_iff.mpr ⟨?_, fun c hc => ?_⟩
  · rw [Word.decimal, Nat.toString_eq_repr, Nat.toList_repr]
    exact Nat.toDigits_ne_nil
  · exact Assembly.nameChar_free (Text.isNameChar_of_isDigit (isDigit_of_mem_toString hc))

/-- The decimal text of a word is read as that word. -/
theorem number_decimal (value : Word) : Argument.number value.decimal.toList = .ok value := by
  have hnonempty := (Text.isWord_iff.mp (isWord_decimal value)).1
  have hdigits : ∀ c ∈ value.decimal.toList, c.isDigit = true := fun c => isDigit_of_mem_toString
  have hle : value.toNat ≤ 65535 := Nat.le_of_lt_succ value.isLt
  have hread : Text.readNat 65535 value.decimal.toList = .ok value.toNat := by
    rw [Text.readNat_of_isDigit hnonempty hdigits]
    exact (Text.readDigits_eq_ok_iff (Nat.zero_le _)).mpr
      ⟨hdigits, Text.decimal_toString value.toNat, hle⟩
  have hvalue : BitVec.ofNat 16 value.toNat = value := by
    rw [BitVec.ofNat_toNat, BitVec.setWidth_eq]
  rw [Argument.number, hread]
  exact congrArg Except.ok hvalue

/-- A name is read as that name. -/
theorem name_toList {name : String} (h : Text.isName name.toList = true) :
    Argument.name name.toList = .ok name := by
  rw [Argument.name, if_pos h, String.ofList_toList]

/-- The word of a segment is read as that segment. -/
theorem segment_text (segment : Segment) :
    Argument.segment segment.text.toList = .ok segment := by
  cases segment <;> rfl

/-! ## Lines of commands -/

namespace Command

/-- The words of a command. -/
def words : Command → List String
  | arithmetic operation => [operation.text]
  | push segment index => ["push", segment.text, index.decimal]
  | pop segment index => ["pop", segment.text, index.decimal]
  | label name => ["label", name]
  | goto name => ["goto", name]
  | ifGoto name => ["if-goto", name]
  | function name locals => ["function", name, locals.decimal]
  | call name arguments => ["call", name, arguments.decimal]
  | return_ => ["return"]

/-- The source line of a command. -/
def text (command : Command) : String := String.intercalate " " command.words

variable {command : Command}

/-- The words of a command stay whole if its names have the right form. -/
theorem isWord_of_mem_words (h : command.IsNamed) :
    ∀ word ∈ command.words.map String.toList, Text.isWord word = true := by
  cases command with
  | arithmetic operation =>
    have hword : Text.isWord operation.text.toList = true := by cases operation <;> decide
    simp only [words, List.map_cons, List.map_nil, List.forall_mem_cons]
    exact ⟨hword, List.forall_mem_nil _⟩
  | push segment index | pop segment index =>
    have hsegment : Text.isWord segment.text.toList = true := by cases segment <;> decide
    simp only [words, List.map_cons, List.map_nil, List.forall_mem_cons]
    exact ⟨by decide, hsegment, isWord_decimal index, List.forall_mem_nil _⟩
  | label name | goto name | ifGoto name =>
    simp only [words, List.map_cons, List.map_nil, List.forall_mem_cons]
    exact ⟨by decide, Text.isWord_of_isName h, List.forall_mem_nil _⟩
  | function name count | call name count =>
    simp only [words, List.map_cons, List.map_nil, List.forall_mem_cons]
    exact ⟨by decide, Text.isWord_of_isName h, isWord_decimal count, List.forall_mem_nil _⟩
  | return_ =>
    simp only [words, List.map_cons, List.map_nil, List.forall_mem_cons]
    exact ⟨by decide, List.forall_mem_nil _⟩

section Words

variable {word : List Char}

/-- A command of a segment and a number is read from their words. -/
theorem parse_move (make : Segment → Word → Command)
    (hword : ∀ first second, Command.parse word [first, second] = do
      return some (make (← Argument.segment first) (← Argument.number second)))
    (segment : Segment) (index : Word) :
    Command.parse word [segment.text.toList, index.decimal.toList] =
      .ok (some (make segment index)) := by
  rw [hword, segment_text, number_decimal]
  rfl

/-- A command of a name is read from it. -/
theorem parse_jump (make : String → Command)
    (hword : ∀ first, Command.parse word [first] = do
      return some (make (← Argument.name first)))
    {name : String} (h : Text.isName name.toList = true) :
    Command.parse word [name.toList] = .ok (some (make name)) := by
  rw [hword, name_toList h]
  rfl

/-- A command of a name and a number is read from their words. -/
theorem parse_counted (make : String → Word → Command)
    (hword : ∀ first second, Command.parse word [first, second] = do
      return some (make (← Argument.name first) (← Argument.number second)))
    {name : String} (h : Text.isName name.toList = true) (count : Word) :
    Command.parse word [name.toList, count.decimal.toList] = .ok (some (make name count)) := by
  rw [hword, name_toList h, number_decimal]
  rfl

end Words

/-- The words of a command are read as that command if its names have the right
form. -/
theorem parse_words (h : command.IsNamed) :
    ∃ word arguments, command.words.map String.toList = word :: arguments ∧
      Command.parse word arguments = .ok (some command) := by
  cases command with
  | arithmetic operation => cases operation <;> exact ⟨_, _, rfl, rfl⟩
  | push segment index =>
    exact ⟨_, _, rfl, parse_move .push (fun _ _ => rfl) segment index⟩
  | pop segment index => exact ⟨_, _, rfl, parse_move .pop (fun _ _ => rfl) segment index⟩
  | label name => exact ⟨_, _, rfl, parse_jump .label (fun _ => rfl) h⟩
  | goto name => exact ⟨_, _, rfl, parse_jump .goto (fun _ => rfl) h⟩
  | ifGoto name => exact ⟨_, _, rfl, parse_jump .ifGoto (fun _ => rfl) h⟩
  | function name locals => exact ⟨_, _, rfl, parse_counted .function (fun _ _ => rfl) h locals⟩
  | call name arguments => exact ⟨_, _, rfl, parse_counted .call (fun _ _ => rfl) h arguments⟩
  | return_ => exact ⟨_, _, rfl, rfl⟩

/-- The line of a command whose names have the right form is read as that
command, or refused with the fault of its check. -/
theorem parse_text (h : command.IsNamed) :
    Line.parse command.text.toList = command.check.map fun () => .command command := by
  have hwhole := isWord_of_mem_words h
  have hspace : " ".toList = [' '] := rfl
  obtain ⟨word, arguments, hwords, hparse⟩ := parse_words h
  rw [Line.parse, text, String.toList_intercalate, hspace,
    Assembly.splitAtComment_of_notMem (Text.slash_notMem_intercalate hwhole),
    Text.words_intercalate hwhole, hwords]
  simp only [hparse]
  cases command.check <;> rfl

end Command

/-! ## The two ways to give a command -/

/-- The source line of a command is read as that command exactly if a lowering
accepts the command directly and its names have the right form. If they have, the
line is refused exactly if the lowering refuses the command, and with the same
fault. -/
theorem line_reads_command_iff (lowering : Lowering) (command : Command) :
    (Line.parse command.text.toList = .ok (.command command) ↔
      (lowering.command command).2 = .ok () ∧ command.IsNamed) ∧
    (command.IsNamed → Line.parse command.text.toList =
      (lowering.command command).2.map fun () => .command command) := by
  rw [snd_command]
  refine ⟨⟨fun hread => ?_, ?_⟩, Command.parse_text⟩
  · exact ⟨check_of_parse hread, isNamed_of_parse_line hread⟩
  · rintro ⟨hcheck, hnamed⟩
    rw [Command.parse_text hnamed, hcheck]
    rfl

/-- A call whose number is beyond the greatest one by one. -/
theorem sampleGreatCall_refused :
    (Command.call "Main.run" 32763).IsNamed ∧
      (Command.call "Main.run" 32763).text = "call Main.run 32763" ∧
      Line.parse (Command.call "Main.run" 32763).text.toList =
        .error (.countOutOfRange 32763) ∧
      ((Lowering.ofFile "Main" "Sys.init").command (.call "Main.run" 32763)).2 =
        .error (.countOutOfRange 32763) := by
  have hnamed : (Command.call "Main.run" 32763).IsNamed := by
    rw [Command.IsNamed]
    decide
  have hrefused : ((Lowering.ofFile "Main" "Sys.init").command (.call "Main.run" 32763)).2 =
      .error (.countOutOfRange 32763) := by decide +kernel
  have hread := (line_reads_command_iff (.ofFile "Main" "Sys.init") (.call "Main.run" 32763)).2
    hnamed
  rw [hrefused] at hread
  exact ⟨hnamed, by decide +kernel, hread, hrefused⟩

/-- A label that begins with a digit is refused in a line, but accepted directly. -/
theorem sampleDigitLabel_accepted :
    (Command.label "1st").text = "label 1st" ∧
      Line.parse (Command.label "1st").text.toList = .error (.invalidName "1st") ∧
      ((Lowering.ofFile "Main" "Sys.init").command (.label "1st")).2 = .ok () := by
  decide +kernel

end Bytecode

end HK16
