import HK16.Assembly.Listing
import HK16.Proofs.CanonicalLines
import HK16.Proofs.UsedAssembler

/-!
# Listings of assembled programs

A listing walks over the lines of a source and over its statements at the same
time, with an address of its own. For a source that was assembled, the two walks
stay together: every line has one row, the rows of instructions show the words of
the image in order, with their addresses, and no word is missing. How the rows of
sources look that cannot be assembled is not described.
-/

namespace HK16.Assembly

/-! ## What rows should show -/

/-- The statement of a line, if it has one. -/
def statement? (line : String) : Option Statement :=
  (Statement.parseLine line.toList).toOption.join

/-- The number of instructions in front of the line with the index. -/
def addressAt (lines : List String) (index : Nat) : Nat :=
  wordCount ((lines.take index).filterMap statement?)

/-- The columns of an instruction: four hexadecimal digits for its address, and
sixteen binary ones for its word. -/
def instructionMargin (address : Nat) (word : Word) : String :=
  "[" ++ Word.hex (BitVec.ofNat 16 address) ++ "] " ++ word.binary ++ " "

/-- The number of the line with the index, counted from one, in its column. -/
def numberColumn (index : Nat) : String := Text.padLeft 4 (toString (index + 1))

/-- The comment of a line with the mark in front of it. -/
def commentOf (line : String) : String :=
  match (splitComment line.toList).2 with
  | some comment => "//" ++ String.ofList comment
  | none => ""

/-- The text is the row of the line with the index, if the instructions of the
source have the words. -/
inductive Shown (lines : List String) (words : List Word) (index : Nat) : String → Prop
  /-- A line without a statement has a number and perhaps a comment. -/
  | blank {line : String} (hline : lines[index]? = some line)
    (h : Statement.parseLine line.toList = .ok none) :
    Shown lines words index
      (Row.noWord ++ "| " ++ numberColumn index ++ ": " ++ commentOf line)
  /-- A label has a number, but neither an address nor a word. -/
  | label {line name : String} (hline : lines[index]? = some line)
    (h : Statement.parseLine line.toList = .ok (some (.label name))) :
    Shown lines words index
      (Row.noWord ++ "| " ++ numberColumn index ++ ": " ++ (Statement.label name).coloured ++
        " " ++ commentOf line)
  /-- An instruction has its address and its word in front. -/
  | instruction {line : String} {statement : Statement} {word : Word}
    (hline : lines[index]? = some line)
    (h : Statement.parseLine line.toList = .ok (some statement))
    (hinstruction : statement.isInstruction = true)
    (hword : words[addressAt lines index]? = some word) :
    Shown lines words index
      (instructionMargin (addressAt lines index) word ++ "| " ++ numberColumn index ++ ":   " ++
        statement.coloured ++ " " ++ commentOf line)

/-- What stands in front of the bar of a printed row, unless it is blank. -/
def carried? (row : String) : Option String :=
  ((Text.cut '|' row.toList).map fun parts => String.ofList parts.1).filter (· != Row.noWord)

/-- The printed rows show the lines of a source and the words of its image. -/
structure ShowsImage (lines : List String) (words : List Word) (shown : List String) :
    Prop where
  /-- There is one row for each line. -/
  length_eq : shown.length = lines.length
  /-- Each row is that of the line with the same index. -/
  row : ∀ index row, shown[index]? = some row → Shown lines words index row
  /-- A row is broken by a line feed only if its line is. -/
  unbroken : ∀ (index : Nat) (line row : String), lines[index]? = some line →
    shown[index]? = some row → '\n' ∉ line.toList → '\n' ∉ row.toList
  /-- The addresses of all words fit in program memory. -/
  length_le : words.length ≤ programMax
  /-- The rows carry the words in order, with the addresses from zero on. -/
  carried_eq : shown.filterMap carried? = words.mapIdx instructionMargin
  /-- No word is replaced by marks. -/
  unmarked : ∀ row ∈ shown, ∀ columns, carried? row = some columns → '!' ∉ columns.toList

/-! ## Reading and listing step by step -/

/-- The statements of lines with their places, if the first line has the index. -/
def placedFrom (index : Nat) (lines : List String) : List Placed :=
  (lines.zipIdx index).filterMap fun item => (statement? item.1).map (Placed.mk item.2)

/-- What the line contributes if its instruction has the address. -/
def rowCode (table : SymbolTable) (address : Word) : Option Statement → RowCode
  | none => .blank
  | some (.label name) => .label (.label name)
  | some statement => .instruction address (encode table statement).toOption statement

/-- The row of the line with the index. -/
def lineRow (table : SymbolTable) (index address : Nat) (line : String) : Row :=
  ⟨index + 1, rowCode table (BitVec.ofNat 16 address) (statement? line),
    (splitComment line.toList).2.map String.ofList⟩

theorem placedFrom_cons (index : Nat) (line : String) (lines : List String) :
    placedFrom index (line :: lines) =
      ((statement? line).map (Placed.mk index)).toList ++ placedFrom (index + 1) lines := by
  rw [placedFrom, List.zipIdx_cons, List.filterMap_cons]
  cases statement? line <;> rfl

theorem le_line_of_mem_placedFrom {index : Nat} {lines : List String} {placed : Placed}
    (h : placed ∈ placedFrom index lines) : index ≤ placed.line := by
  obtain ⟨⟨line, i⟩, hmem, hplaced⟩ := List.mem_filterMap.mp h
  obtain ⟨statement, -, rfl⟩ := Option.map_eq_some_iff.mp hplaced
  exact List.le_snd_of_mem_zipIdx hmem

theorem statements_placedFrom (index : Nat) (lines : List String) :
    statements (placedFrom index lines) = lines.filterMap statement? := by
  induction lines generalizing index with
  | nil => rfl
  | cons line lines ih =>
    rw [placedFrom_cons, statements, List.map_append, List.filterMap_cons]
    have hrest := ih (index + 1)
    rw [statements] at hrest
    rw [hrest]
    cases statement? line <;> rfl

/-- A program that is read consists of the statements of its lines, all of which
can be read. -/
theorem eq_placedFrom_of_readFrom {index : Nat} {done program : List Placed}
    {lines : List String} (h : readFrom index done lines = .ok program) :
    program = done.reverse ++ placedFrom index lines ∧
      ∀ line ∈ lines, Statement.parseLine line.toList = .ok (statement? line) := by
  induction lines generalizing index done with
  | nil =>
    rw [readFrom] at h
    obtain rfl := Except.ok.inj h
    exact ⟨(List.append_nil _).symm, List.forall_mem_nil _⟩
  | cons line lines ih =>
    rw [readFrom] at h
    rw [placedFrom_cons, List.forall_mem_cons, statement?]
    split at h
    · cases h
    · next hparse =>
      obtain ⟨rfl, hlines⟩ := ih h
      rw [hparse]
      exact ⟨rfl, rfl, hlines⟩
    · next statement hparse =>
      obtain ⟨rfl, hlines⟩ := ih h
      rw [hparse, List.reverse_cons, List.append_assoc]
      exact ⟨rfl, rfl, hlines⟩

theorem addressAt_cons (line : String) (lines : List String) (index : Nat) :
    addressAt (line :: lines) (index + 1) =
      wordCount (statement? line).toList + addressAt lines index := by
  rw [addressAt, List.take_succ_cons, List.filterMap_cons, addressAt]
  cases statement? line with
  | none => exact (Nat.zero_add _).symm
  | some statement => rw [← wordCount_append]; rfl

/-- One line of the listing: its statement is taken from the program, and an
instruction takes one address. -/
theorem rowsFrom_cons (table : SymbolTable) (index address : Nat) (done : List Row)
    (line : String) (lines : List String) :
    rowsFrom table index (BitVec.ofNat 16 address) done (line :: lines)
        (placedFrom index (line :: lines)) =
      rowsFrom table (index + 1) (BitVec.ofNat 16 (address + wordCount (statement? line).toList))
        (lineRow table index address line :: done) lines (placedFrom (index + 1) lines) := by
  rw [placedFrom_cons, lineRow]
  cases hstatement : statement? line with
  | none =>
    rw [Option.map_none, Option.toList_none, List.nil_append]
    cases hrest : placedFrom (index + 1) lines with
    | nil => rfl
    | cons placed rest =>
      have hmem : placed ∈ placedFrom (index + 1) lines := by
        rw [hrest]
        exact List.mem_cons_self
      have hle := le_line_of_mem_placedFrom hmem
      have hne : placed.line ≠ index := by omega
      rw [rowsFrom, if_neg hne]
      rfl
  | some statement =>
    rw [Option.map_some, Option.toList_some, List.singleton_append, rowsFrom, if_pos rfl]
    cases statement with
    | label name => rfl
    | address _ | compute _ =>
      rw [BitVec.ofNat_add]
      rfl

/-- The listing of a program has one row for each line, each with the address that
the instructions in front of the line lead to. -/
theorem rowsFrom_eq (table : SymbolTable) (index address : Nat) (done : List Row)
    (lines : List String) :
    rowsFrom table index (BitVec.ofNat 16 address) done lines (placedFrom index lines) =
      done.reverse ++ lines.mapIdx fun i line =>
        lineRow table (index + i) (address + addressAt lines i) line := by
  induction lines generalizing index address done with
  | nil => exact (List.append_nil _).symm
  | cons line lines ih =>
    rw [rowsFrom_cons, ih, List.mapIdx_cons, List.reverse_cons, List.append_assoc]
    simp only [addressAt_cons, Nat.add_assoc, Nat.add_comm 1]
    rfl

/-- The rows of a program that was read, one for each line. -/
theorem rows_eq {lines : List String} {program : List Placed} (h : readLines lines = .ok program)
    (table : SymbolTable) :
    rows table lines program =
      lines.mapIdx fun index line => lineRow table index (addressAt lines index) line := by
  obtain ⟨rfl, -⟩ := eq_placedFrom_of_readFrom h
  have hrows := rowsFrom_eq table 0 0 [] lines
  simp only [Nat.zero_add] at hrows
  exact hrows

/-! ## Words -/

/-- The words are those of the instructions of the lines under the table. -/
def Encoded (table : SymbolTable) (lines : List String) (words : List Word) : Prop :=
  List.Forall₂ (fun statement word => encode table statement = .ok word)
    ((lines.filterMap statement?).filter Statement.isInstruction) words

/-- Under the table that is left behind, the words are those of the instructions,
and there are no more of them than program memory holds. -/
theorem encoded_of_assembleLines {before table : SymbolTable} {lines : List String}
    {words : List Word} (h : assembleLines before lines = (table, .ok words)) :
    ∃ program, readLines lines = .ok program ∧ words.length ≤ programMax ∧
      Encoded table lines words := by
  rw [assembleLines] at h
  split at h
  · next program hread =>
    obtain ⟨rfl, -⟩ := eq_placedFrom_of_readFrom hread
    obtain ⟨hbind, -, -, hencode⟩ := walks_of_assembleProgram (congrArg Prod.snd h)
    rw [h, encodeAll_eq_ok_iff] at hencode
    rw [bindLabels, bindLabelsFrom_eq_ok_iff _ _ (Nat.zero_le _), Nat.zero_add] at hbind
    refine ⟨_, hread, ?_, ?_⟩
    · rw [← hencode.length_eq, ← List.countP_eq_length_filter]
      exact hbind
    · rw [Encoded, ← statements_placedFrom 0]
      exact hencode
  · cases h

/-- A line without an instruction takes no address and adds no word. -/
theorem instructions_cons_of_none {line : String}
    (h : ∀ statement, statement? line = some statement → statement.isInstruction = false)
    (lines : List String) :
    wordCount (statement? line).toList = 0 ∧
      ((line :: lines).filterMap statement?).filter Statement.isInstruction =
        (lines.filterMap statement?).filter Statement.isInstruction := by
  cases hstatement : statement? line with
  | none => exact ⟨rfl, by rw [List.filterMap_cons_none hstatement]⟩
  | some statement =>
    have hlabel := h statement hstatement
    rw [Option.toList_some, wordCount_cons, hlabel, List.filterMap_cons_some hstatement,
      List.filter_cons_of_neg (Bool.eq_false_iff.mp hlabel)]
    exact ⟨rfl, rfl⟩

/-- The word of an instruction stands at the address that its line leads to. -/
theorem exists_word_of_line {table : SymbolTable} {lines : List String} {words : List Word}
    (h : Encoded table lines words) {index : Nat} {line : String} {statement : Statement}
    (hline : lines[index]? = some line) (hstatement : statement? line = some statement)
    (hinstruction : statement.isInstruction = true) :
    ∃ word, words[addressAt lines index]? = some word ∧ encode table statement = .ok word := by
  obtain ⟨hlt, rfl⟩ := List.getElem?_eq_some_iff.mp hline
  have hcode : CodeAt (lines.filterMap statement?) (addressAt lines index)
      (statement :: (lines.drop (index + 1)).filterMap statement?) := by
    refine ⟨(lines.take index).filterMap statement?, [], ?_, rfl⟩
    rw [List.append_nil, ← List.filterMap_cons_some hstatement, ← List.filterMap_append,
      ← List.drop_eq_getElem_cons hlt, List.take_append_drop]
  exact getElem?_of_codeAt h hcode hinstruction

/-! ## Printed rows -/

/-- The printed rows of a program that was read, one for each line. -/
theorem map_render_rows {lines : List String} {program : List Placed}
    (h : readLines lines = .ok program) (table : SymbolTable) :
    (rows table lines program).map Row.render =
      lines.mapIdx fun index line => (lineRow table index (addressAt lines index) line).render := by
  apply List.ext_getElem?
  intro index
  rw [rows_eq h table, List.getElem?_map, List.getElem?_mapIdx, List.getElem?_mapIdx,
    Option.map_map]
  rfl

section Printed

variable {table : SymbolTable} {index address : Nat} {line : String}

theorem commentText_lineRow : (lineRow table index address line).commentText = commentOf line := by
  rw [Row.commentText, lineRow, commentOf]
  cases (splitComment line.toList).2 <;> rfl

theorem render_blank (h : statement? line = none) :
    (lineRow table index address line).render =
      Row.noWord ++ "| " ++ numberColumn index ++ ": " ++ commentOf line := by
  rw [Row.render, commentText_lineRow, lineRow, h]
  rfl

theorem render_label {name : String} (h : statement? line = some (.label name)) :
    (lineRow table index address line).render =
      Row.noWord ++ "| " ++ numberColumn index ++ ": " ++ (Statement.label name).coloured ++ " " ++
        commentOf line := by
  rw [Row.render, commentText_lineRow, lineRow, h]
  rfl

theorem render_instruction {statement : Statement} {word : Word}
    (h : statement? line = some statement) (hinstruction : statement.isInstruction = true)
    (hword : encode table statement = .ok word) :
    (lineRow table index address line).render =
      instructionMargin address word ++ "| " ++ numberColumn index ++ ":   " ++
        statement.coloured ++ " " ++ commentOf line := by
  have hcode : rowCode table (BitVec.ofNat 16 address) (some statement) =
      .instruction (BitVec.ofNat 16 address) (some word) statement := by
    cases statement with
    | label name => cases hinstruction
    | address _ | compute _ => simp only [rowCode, hword, Except.toOption]
  have hbar : " | " = " " ++ "| " := by decide
  rw [Row.render, commentText_lineRow, lineRow, h, hcode, instructionMargin]
  simp only [hbar, ← String.append_assoc]
  rfl

end Printed

/-- Whether the character may stand in the columns of an instruction. -/
def isMarginChar (c : Char) : Bool := c.isAlphanum || c == '[' || c == ']' || c == ' '

/-- The columns of an instruction are made of digits, brackets and blanks. -/
theorem isMarginChar_of_mem {address : Nat} {word : Word} {c : Char}
    (h : c ∈ (instructionMargin address word).toList) : isMarginChar c = true := by
  have hdigit : ∀ n < 16, isMarginChar (Word.hexDigit n) = true := by decide
  have hopen : "[".toList = ['['] := rfl
  have hclose : "] ".toList = [']', ' '] := rfl
  have hblank : " ".toList = [' '] := rfl
  simp only [instructionMargin, String.toList_append, hopen, hclose, hblank, List.mem_append,
    List.mem_cons, List.not_mem_nil, or_false] at h
  rcases h with (((rfl | hhex) | rfl | rfl) | hbinary) | rfl
  · rfl
  · rw [Word.hex, String.toList_ofList, List.mem_map] at hhex
    obtain ⟨unit, -, rfl⟩ := hhex
    exact hdigit _ (Nat.mod_lt _ (by decide))
  · rfl
  · rfl
  · rcases Word.mem_binary hbinary with rfl | rfl <;> rfl
  · rfl

theorem toList_noWord : Row.noWord.toList = List.replicate 25 ' ' := String.toList_ofList

theorem instructionMargin_ne_noWord (address : Nat) (word : Word) :
    instructionMargin address word ≠ Row.noWord := by
  intro h
  have hbracket : '[' ∈ (instructionMargin address word).toList := by
    have hopen : "[".toList = ['['] := rfl
    simp only [instructionMargin, String.toList_append, hopen, List.cons_append, List.mem_cons,
      true_or]
  rw [h, toList_noWord] at hbracket
  exact absurd (List.eq_of_mem_replicate hbracket) (by decide)

/-- The text in front of the first bar is what a row carries. -/
theorem carried?_append {front : String} (rest : String) (h : '|' ∉ front.toList) :
    carried? (front ++ ("| " ++ rest)) = if front = Row.noWord then none else some front := by
  have hbar : "| ".toList = ['|', ' '] := rfl
  rw [carried?, String.toList_append, String.toList_append, hbar, List.cons_append,
    Text.cut_append _ h, Option.map_some, String.ofList_toList]
  by_cases hblank : front = Row.noWord
  · rw [if_pos hblank, Option.filter_some, if_neg (fun hne => bne_iff_ne.mp hne hblank)]
  · rw [if_neg hblank, Option.filter_some, if_pos (bne_iff_ne.mpr hblank)]

theorem carried?_noWord (rest : String) : carried? (Row.noWord ++ ("| " ++ rest)) = none := by
  have hbar : '|' ∉ Row.noWord.toList := by
    rw [toList_noWord]
    exact fun hmem => absurd (List.eq_of_mem_replicate hmem) (by decide)
  rw [carried?_append rest hbar, if_pos rfl]

theorem carried?_instructionMargin (address : Nat) (word : Word) (rest : String) :
    carried? (instructionMargin address word ++ ("| " ++ rest)) =
      some (instructionMargin address word) := by
  have hbar : '|' ∉ (instructionMargin address word).toList :=
    fun hmem => absurd (isMarginChar_of_mem hmem) (by decide)
  rw [carried?_append rest hbar, if_neg (instructionMargin_ne_noWord address word)]

section Carried

variable {table : SymbolTable} {index address : Nat} {line : String}

/-- The row of a line without an instruction carries nothing. -/
theorem carried?_lineRow_eq_none
    (h : ∀ statement, statement? line = some statement → statement.isInstruction = false) :
    carried? (lineRow table index address line).render = none := by
  cases hstatement : statement? line with
  | none =>
    rw [render_blank hstatement]
    simp only [String.append_assoc, carried?_noWord]
  | some statement =>
    cases statement with
    | label name =>
      rw [render_label hstatement]
      simp only [String.append_assoc, carried?_noWord]
    | address _ | compute _ => cases h _ hstatement

/-- The row of an instruction carries its address and its word. -/
theorem carried?_lineRow_eq_some {statement : Statement} {word : Word}
    (h : statement? line = some statement) (hinstruction : statement.isInstruction = true)
    (hword : encode table statement = .ok word) :
    carried? (lineRow table index address line).render = some (instructionMargin address word) := by
  rw [render_instruction h hinstruction hword]
  simp only [String.append_assoc, carried?_instructionMargin]

end Carried

/-- What the rows of lines carry are the words of their instructions in order,
with the addresses from the first one on. -/
theorem filterMap_carried? {table : SymbolTable} {lines : List String} {words : List Word}
    (h : Encoded table lines words) (index address : Nat) :
    (lines.mapIdx fun i line =>
        (lineRow table (index + i) (address + addressAt lines i) line).render).filterMap carried? =
      words.mapIdx fun i word => instructionMargin (address + i) word := by
  rw [Encoded] at h
  induction lines generalizing index address words with
  | nil =>
    obtain rfl := List.forall₂_nil_left_iff.mp h
    rfl
  | cons line lines ih =>
    have hzero : addressAt (line :: lines) 0 = 0 := rfl
    -- The other rows are those of the other lines, one index on and behind this line's word.
    have hrest : (fun i other => (lineRow table (index + (i + 1))
          (address + addressAt (line :: lines) (i + 1)) other).render) =
        fun i other => (lineRow table (index + 1 + i)
          (address + wordCount (statement? line).toList + addressAt lines i) other).render := by
      funext i other
      rw [addressAt_cons, Nat.add_assoc index, Nat.add_comm 1 i, Nat.add_assoc address]
    rw [List.mapIdx_cons, hrest, hzero]
    by_cases hline : ∃ statement, statement? line = some statement ∧ statement.isInstruction = true
    · obtain ⟨statement, hstatement, hinstruction⟩ := hline
      rw [List.filterMap_cons_some hstatement, List.filter_cons_of_pos hinstruction] at h
      obtain ⟨word, others, hword, hothers, rfl⟩ := List.forall₂_cons_left_iff.mp h
      have hcount : wordCount (statement? line).toList = 1 := by
        rw [hstatement, Option.toList_some, wordCount_cons, hinstruction]
        rfl
      rw [List.filterMap_cons_some (carried?_lineRow_eq_some hstatement hinstruction hword),
        ih hothers, hcount, List.mapIdx_cons]
      simp only [Nat.add_assoc, Nat.add_comm 1]
    · have hnone : ∀ statement, statement? line = some statement →
          statement.isInstruction = false := fun statement hstatement =>
        Bool.eq_false_iff.mpr fun hinstruction => hline ⟨statement, hstatement, hinstruction⟩
      obtain ⟨hcount, hothers⟩ := instructions_cons_of_none hnone lines
      rw [hothers] at h
      rw [List.filterMap_cons_none (carried?_lineRow_eq_none hnone), ih h, hcount, Nat.add_zero]

/-! ## Rows and line feeds -/

theorem newline_notMem_append {front back : String} :
    '\n' ∉ (front ++ back).toList ↔ '\n' ∉ front.toList ∧ '\n' ∉ back.toList := by
  rw [String.toList_append, List.mem_append, not_or]

theorem newline_notMem_of_not_isBlank {text : List Char}
    (h : ∀ c ∈ text, Text.isBlank c = false) : '\n' ∉ text :=
  fun hmem => absurd (h '\n' hmem) (by decide)

theorem newline_notMem_paint (colour : Text.Colour) {text : String} (h : '\n' ∉ text.toList) :
    '\n' ∉ (Text.paint colour text).toList := by
  have hon : '\n' ∉ colour.on.toList := by cases colour <;> decide
  rw [Text.paint, newline_notMem_append, newline_notMem_append]
  exact ⟨⟨hon, h⟩, by decide⟩

/-- The coloured text of a compute statement holds no line feed. -/
theorem newline_notMem_compute (fields : Compute) : '\n' ∉ fields.coloured.toList := by
  have hplain (colour : Text.Colour) {text : String} (h : ∀ c ∈ text.toList, isPlain c = true) :
      '\n' ∉ (Text.paint colour text).toList :=
    newline_notMem_paint colour
      (newline_notMem_of_not_isBlank fun c hc => not_isBlank_of_isPlain (h c hc))
  rw [Compute.coloured, newline_notMem_append, newline_notMem_append]
  refine ⟨⟨?_, hplain _ (isPlain_of_mem_computation fields.comp)⟩, ?_⟩
  · split
    · decide
    · rw [newline_notMem_append]
      exact ⟨hplain _ (isPlain_of_mem_destination fields.dest), by decide⟩
  · split
    · decide
    · next jump _ =>
      rw [newline_notMem_append]
      exact ⟨by decide, hplain _ (isPlain_of_mem_jump jump)⟩

/-- The coloured text of a statement that was read holds no line feed. -/
theorem newline_notMem_coloured {statement : Statement} (h : statement.IsWritable) :
    '\n' ∉ statement.coloured.toList := by
  cases statement with
  | address operand =>
    have hoperand : '\n' ∉ operand.text.toList :=
      newline_notMem_of_not_isBlank fun c hc =>
        Text.not_isBlank_of_isNameChar ((parse_operand h).1 c hc)
    cases operand with
    | literal _ | symbol _ =>
      rw [Statement.coloured, Instruction.colouredAddress, newline_notMem_append,
        newline_notMem_append]
      exact ⟨by decide, newline_notMem_paint _ hoperand⟩
  | label name =>
    have hname : '\n' ∉ name.toList :=
      newline_notMem_of_not_isBlank fun c hc =>
        Text.not_isBlank_of_isNameChar (Text.isNameChar_of_mem h hc)
    simp only [Statement.coloured, Text.paintBold, newline_notMem_append]
    exact ⟨⟨⟨by decide, ⟨by decide, hname⟩, by decide⟩, by decide⟩, by decide⟩
  | compute fields => exact newline_notMem_compute fields

/-- A comment stands at the end of its line. -/
theorem suffix_of_splitAtComment {line comment : List Char}
    (h : (splitAtComment line).2 = some comment) : comment <:+ line := by
  fun_induction splitAtComment line with
  | case1 => cases h
  | case2 found =>
    obtain rfl := Option.some.inj h
    exact (List.suffix_cons '/' _).trans (List.suffix_cons '/' _)
  | case3 c line hline rest ih => exact (ih h).trans (List.suffix_cons c line)

theorem newline_notMem_commentOf {line : String} (h : '\n' ∉ line.toList) :
    '\n' ∉ (commentOf line).toList := by
  rw [commentOf]
  split
  · next comment hcomment =>
    have hletters : (String.ofList comment).toList = comment := String.toList_ofList
    rw [newline_notMem_append, hletters]
    exact ⟨by decide, fun hmem => h ((suffix_of_splitAtComment hcomment).subset hmem)⟩
  · decide

theorem newline_notMem_numberColumn (index : Nat) : '\n' ∉ (numberColumn index).toList := by
  rw [numberColumn, Text.padLeft, newline_notMem_append, String.toList_ofList]
  refine ⟨fun hmem => absurd (List.eq_of_mem_replicate hmem) (by decide), fun hmem => ?_⟩
  exact absurd (Bytecode.isDigit_of_mem_toString hmem) (by decide)

/-- The row of a line without a line feed has none. -/
theorem Shown.newline_notMem {lines : List String} {words : List Word} {index : Nat}
    {row line : String} (h : Shown lines words index row) (hline : lines[index]? = some line)
    (hfree : '\n' ∉ line.toList) : '\n' ∉ row.toList := by
  have hnumber := newline_notMem_numberColumn index
  have hcomment := newline_notMem_commentOf hfree
  have hblank : '\n' ∉ Row.noWord.toList := by
    rw [toList_noWord]
    exact fun hmem => absurd (List.eq_of_mem_replicate hmem) (by decide)
  cases h with
  | blank hfound hparse =>
    cases hline.symm.trans hfound
    simp only [newline_notMem_append]
    exact ⟨⟨⟨⟨hblank, by decide⟩, hnumber⟩, by decide⟩, hcomment⟩
  | label hfound hparse =>
    cases hline.symm.trans hfound
    have hcoloured := newline_notMem_coloured (isWritable_of_parseLine hparse)
    simp only [newline_notMem_append]
    exact ⟨⟨⟨⟨⟨⟨hblank, by decide⟩, hnumber⟩, by decide⟩, hcoloured⟩, by decide⟩, hcomment⟩
  | @instruction _ _ word hfound hparse _ _ =>
    cases hline.symm.trans hfound
    have hcoloured := newline_notMem_coloured (isWritable_of_parseLine hparse)
    have hmargin : '\n' ∉ (instructionMargin (addressAt lines index) word).toList :=
      fun hmem => absurd (isMarginChar_of_mem hmem) (by decide)
    simp only [newline_notMem_append]
    exact ⟨⟨⟨⟨⟨⟨hmargin, by decide⟩, hnumber⟩, by decide⟩, hcoloured⟩, by decide⟩, hcomment⟩

/-! ## The whole listing -/

/-- Every line of an assembled source is shown in its row. -/
theorem shown_lineRow {table : SymbolTable} {lines : List String} {words : List Word}
    (h : Encoded table lines words) {index : Nat} {line : String}
    (hline : lines[index]? = some line)
    (hparse : Statement.parseLine line.toList = .ok (statement? line)) :
    Shown lines words index (lineRow table index (addressAt lines index) line).render := by
  cases hstatement : statement? line with
  | none =>
    rw [hstatement] at hparse
    rw [render_blank hstatement]
    exact .blank hline hparse
  | some statement =>
    rw [hstatement] at hparse
    cases hinstruction : statement.isInstruction with
    | true =>
      obtain ⟨word, hword, hencode⟩ := exists_word_of_line h hline hstatement hinstruction
      rw [render_instruction hstatement hinstruction hencode]
      exact .instruction hline hparse hinstruction hword
    | false =>
      cases statement with
      | label name =>
        rw [render_label hstatement]
        exact .label hline hparse
      | address _ | compute _ => cases hinstruction

/-- Let a source be assembled, from any table. Its listing under the table that is
left behind has one row for each line between its first and its last line, in
order and with the number of the line. In front of the bars, the rows of
instructions show exactly the words of the image in order with the addresses from
zero on, each word in the row of its instruction's line, and the other rows show
nothing there. No word is replaced by marks. -/
theorem listing_agrees_with_image (path : String) (before table : SymbolTable)
    (lines : List String) (words : List Word)
    (h : assembleLines before lines = (table, .ok words)) :
    ∃ program shown, readLines lines = .ok program ∧
      Listing.render path table lines program =
        Text.unlines ([Listing.header path] ++ shown ++ [Listing.footer]) ∧
      ShowsImage lines words shown := by
  obtain ⟨program, hread, hlength, hwords⟩ := encoded_of_assembleLines h
  refine ⟨program, (rows table lines program).map Row.render, hread, rfl, ?_⟩
  rw [map_render_rows hread table]
  have hshown : ∀ index row, (lines.mapIdx fun index line =>
      (lineRow table index (addressAt lines index) line).render)[index]? = some row →
        Shown lines words index row := by
    intro index row hrow
    rw [List.getElem?_mapIdx, Option.map_eq_some_iff] at hrow
    obtain ⟨line, hline, rfl⟩ := hrow
    have hparse := (eq_placedFrom_of_readFrom hread).2 line (List.mem_of_getElem? hline)
    exact shown_lineRow hwords hline hparse
  have hcarried := filterMap_carried? hwords 0 0
  simp only [Nat.zero_add] at hcarried
  refine ⟨List.length_mapIdx, hshown, ?_, hlength, hcarried, ?_⟩
  · intro index line row hline hrow hfree
    exact (hshown index row hrow).newline_notMem hline hfree
  · intro row hrow columns hcolumns
    have hmem : columns ∈ words.mapIdx instructionMargin := by
      rw [← hcarried]
      exact List.mem_filterMap.mpr ⟨row, hrow, hcolumns⟩
    obtain ⟨address, word, -, rfl⟩ := List.mem_mapIdx.mp hmem
    exact fun hmark => absurd (isMarginChar_of_mem hmark) (by decide)

/-- A source with comments, an empty line, a label and a variable. -/
def sampleListed : List String :=
  ["// stay here", "(LOOP)", "@LOOP // again", "", "0;JMP", "  @x"]

theorem sampleListed_shown :
    (assembleLines .predefined sampleListed).2 = .ok [0, 0xEA87, 16] ∧
      ∃ program shown, readLines sampleListed = .ok program ∧
        Listing.render "main.asm" (assembleLines .predefined sampleListed).1 sampleListed program =
          Text.unlines ([Listing.header "main.asm"] ++ shown ++ [Listing.footer]) ∧
        ShowsImage sampleListed [0, 0xEA87, 16] shown ∧
        shown.filterMap carried? =
          ["[0000] 0000000000000000 ", "[0001] 1110101010000111 ",
            "[0002] 0000000000010000 "] := by
  have hwords : (assembleLines .predefined sampleListed).2 = .ok [0, 0xEA87, 16] := by
    decide +kernel
  obtain ⟨program, shown, hread, hrender, hshows⟩ :=
    listing_agrees_with_image "main.asm" .predefined _ sampleListed _ (Prod.ext rfl hwords)
  exact ⟨hwords, program, shown, hread, hrender, hshows,
    hshows.carried_eq.trans (by decide +kernel)⟩

end HK16.Assembly
