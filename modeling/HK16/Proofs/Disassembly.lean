import HK16.Machine.Disassembly
import HK16.Proofs.Image
import HK16.Proofs.Placement
import Mathlib.Tactic.IntervalCases

/-!
# Disassembly and reassembly

The plain listing of an image is a program. Assembling it gives the image back,
up to the two bits below the highest of a compute word, which decoding ignores
and encoding sets. The assembler sets these bits in everything that it emits, so
its own images survive the round trip unchanged. The addressed and coloured
listings, and images with words that are no instructions, are not covered.
-/

namespace HK16

/-! ## One word -/

/-- A word with the bits that its decoding ignores set to one. -/
def Word.canonical (word : Word) : Word :=
  if word.toNat < 0x8000 then word else word ||| 0x6000#16

namespace Instruction

/-- The three fields of a compute word behind three set bits are the word with
two bits more. -/
theorem append_fields {word : Word} (h : word.msb = true) :
    0b111#3 ++ word.extractLsb' 6 7 ++ word.extractLsb' 3 3 ++ word.extractLsb' 0 3 =
      word ||| 0x6000#16 := by
  have hhigh : word.getLsbD 15 = true := by
    simpa only [BitVec.msb_eq_getLsbD_last] using h
  apply BitVec.eq_of_getLsbD_eq
  intro i hi
  simp only [BitVec.getLsbD_append, BitVec.getLsbD_extractLsb', BitVec.getLsbD_or]
  interval_cases i <;> simp [hhigh]

/-- The instruction of a word is encoded as that word in canonical form. -/
theorem encode_of_decode? {word : Word} {instruction : Instruction}
    (h : decode? word = some instruction) : instruction.encode = word.canonical := by
  have hhigh : word.msb = true ↔ ¬word.toNat < 0x8000 := by
    rw [BitVec.msb_eq_decide, decide_eq_true_iff]
    omega
  rw [decode?] at h
  split at h
  · next hmsb =>
    obtain ⟨comp, hcomp, rfl⟩ := Option.map_eq_some_iff.mp h
    rw [encode, Compute.encode, Computation.control_of_ofControl? hcomp, Destination.bits_ofBits,
      Jump.fieldBits_ofBits?, append_fields hmsb, Word.canonical, if_neg (hhigh.mp hmsb)]
  · next hmsb =>
    obtain rfl := Option.some.inj h
    have hlow : word.toNat < 0x8000 := by
      by_contra hlow
      exact hmsb (hhigh.mpr hlow)
    rw [Word.canonical, if_pos hlow, ← BitVec.toNat_inj]
    exact toNat_encode_load (Nat.le_of_lt_succ hlow)

/-- The statement that an instruction is written as. -/
def statement : Instruction → Assembly.Statement
  | load value => .address (.literal value)
  | compute fields => .compute fields

theorem text_statement (instruction : Instruction) :
    instruction.statement.text = instruction.text := by
  cases instruction <;> rfl

theorem isInstruction_statement (instruction : Instruction) :
    instruction.statement.isInstruction = true := by
  cases instruction <;> rfl

/-- The instruction of a word can be written down. -/
theorem isWritable_statement {word : Word} {instruction : Instruction}
    (h : decode? word = some instruction) : instruction.statement.IsWritable := by
  cases instruction with
  | load value => exact (eq_of_decode?_load h).2
  | compute fields => trivial

/-- In every code the statement of a word has the canonical form of that word. -/
theorem wordValue_statement {word : Word} {instruction : Instruction}
    (h : decode? word = some instruction) (code : List Assembly.Statement) :
    word.canonical.toNat = Assembly.wordValue code instruction.statement ∧
      Assembly.HasWord code instruction.statement := by
  rw [← encode_of_decode? h]
  cases instruction with
  | load value =>
    have hvalue := (eq_of_decode?_load h).2
    exact ⟨toNat_encode_load hvalue, hvalue⟩
  | compute fields => exact ⟨fields.toNat_encode, trivial⟩

end Instruction

/-! ## Images -/

/-- The instructions of words that all have one. -/
abbrev Decodes (words : List Word) (instructions : List Instruction) : Prop :=
  List.Forall₂ (fun word instruction => Instruction.decode? word = some instruction) words
    instructions

namespace Machine

/-- The line of a word in an image is read as that word. -/
theorem imageLine_binary (number : Nat) (word : Word) :
    imageLine number word.binary.toList = .ok (some word) := by
  have htrim : Text.trim word.binary.toList = word.binary.toList :=
    Text.trim_of_not_isBlank fun c hc => Word.not_isBlank_of_mem_binary hc
  have hsome : word.binary.toList.isEmpty = false := by
    simp [Word.binary]
  simp only [imageLine, htrim, hsome, Word.ofBinary?_binary, Bool.false_eq_true, if_false]

/-- The plain listing of words that decode is the texts of their instructions. -/
theorem disassembleFrom_binary {words : List Word} {instructions : List Instruction}
    (h : Decodes words instructions) (number : Nat) (address : Word) (done : Array String) :
    disassembleFrom true number address done (words.map Word.binary) =
      (done ++ (instructions.map Instruction.text).toArray, none) := by
  induction h generalizing number address done with
  | nil => simp [disassembleFrom]
  | @cons word instruction words instructions hdecode _ ih =>
    have hline : disassembleWord true address word = instruction.text := by
      rw [disassembleWord, hdecode]
      rfl
    rw [List.map_cons, disassembleFrom, imageLine_binary]
    dsimp only
    rw [ih, hline]
    simp

/-- The lines of an image are the digits of its words. -/
theorem lines_imageText (words : List Word) :
    Text.lines (Console.imageText words) = words.map Word.binary := by
  apply Text.lines_unlines
  intro line hline c hc
  obtain ⟨word, -, rfl⟩ := List.mem_map.mp hline
  exact Word.not_isBlank_of_mem_binary hc

/-- Disassembly of an image lists its instructions and finds no bad line. -/
theorem disassemble_imageText {words : List Word} {instructions : List Instruction}
    (h : Decodes words instructions) :
    disassemble true (Console.imageText words) = (instructions.map Instruction.text, none) := by
  rw [disassemble, lines_imageText, disassembleFrom_binary h]
  simp

end Machine

namespace Assembly

/-- Instructions without symbols are assembled to their words in canonical form. -/
theorem assembleProgram_of_decodes {words : List Word} {instructions : List Instruction}
    {program : List Placed} (h : Decodes words instructions) (hlength : words.length ≤ 32768)
    (hprogram : statements program = instructions.map Instruction.statement) :
    (assembleProgram .predefined program).2 = .ok (words.map Word.canonical) := by
  have hall : ∀ statement ∈ statements program, statement.isInstruction = true := by
    rw [hprogram, List.forall_mem_map]
    exact fun instruction _ => instruction.isInstruction_statement
  have hcount : wordCount (statements program) = words.length := by
    rw [wordCount, List.countP_eq_length.mpr hall, hprogram, List.length_map, h.length_eq]
  have hreferences : references (statements program) = [] := by
    rw [references, List.filterMap_eq_nil_iff, hprogram, List.forall_mem_map]
    intro instruction _
    cases instruction <;> rfl
  have hfree : freeReferences (statements program) = [] := by
    rw [freeReferences, hreferences]
    rfl
  rw [assembleProgram_eq_ok_iff, hcount, hfree, List.filter_eq_self.mpr hall, hprogram,
    List.forall₂_map_left_iff, List.forall₂_map_right_iff]
  refine ⟨hlength, by simp, ?_⟩
  exact (h.imp fun word instruction hdecode => Instruction.wordValue_statement hdecode _).flip

/-- Instructions are written as their statements are. -/
theorem map_text_statement (instructions : List Instruction) :
    (instructions.map Instruction.statement).map Statement.text =
      instructions.map Instruction.text := by
  rw [List.map_map]
  exact List.map_congr_left fun instruction _ => instruction.text_statement

/-- Instructions that come from words can be written down. -/
theorem isWritable_of_decodes {words : List Word} {instructions : List Instruction}
    (h : Decodes words instructions) :
    ∀ statement ∈ instructions.map Instruction.statement, statement.IsWritable := by
  induction h with
  | nil => exact fun _ hmem => absurd hmem List.not_mem_nil
  | cons hdecode _ ih =>
    exact List.forall_mem_cons.mpr ⟨Instruction.isWritable_statement hdecode, ih⟩

/-- A listing of instructions is assembled to the words it was made from, in
canonical form. -/
theorem assemble_texts {words : List Word} {instructions : List Instruction}
    (h : Decodes words instructions) (hlength : words.length ≤ 32768) :
    assemble (instructions.map Instruction.text) = .ok (words.map Word.canonical) := by
  obtain ⟨program, hread, hprogram⟩ := readFrom_texts (isWritable_of_decodes h) 0 []
  rw [map_text_statement] at hread
  rw [assemble, assembleLines, readLines, hread]
  exact assembleProgram_of_decodes h hlength hprogram

/-- A listing of instructions is found again in its text. -/
theorem lines_texts {words : List Word} {instructions : List Instruction}
    (h : Decodes words instructions) :
    Text.lines (Text.unlines (instructions.map Instruction.text)) =
      instructions.map Instruction.text := by
  rw [← map_text_statement]
  exact lines_unlines_text (isWritable_of_decodes h)

/-- The word of a statement has an instruction and is in canonical form. -/
theorem canonical_of_wordValue {code : List Statement} {statement : Statement} {word : Word}
    (hvalue : word.toNat = wordValue code statement) (hword : HasWord code statement) :
    (Instruction.decode? word).isSome = true ∧ word.canonical = word := by
  cases statement with
  | label name => cases hword
  | compute fields =>
    rw [wordValue, ← Compute.toNat_encode, BitVec.toNat_inj] at hvalue
    have hdecode := Instruction.decode?_encode_compute fields
    rw [hvalue, hdecode, ← Instruction.encode_of_decode? hdecode]
    exact ⟨rfl, rfl⟩
  | address operand =>
    rw [HasWord, ← hvalue] at hword
    have hlow : word.toNat < 0x8000 := Nat.lt_succ_of_le hword
    rw [Instruction.decode?_of_toNat_le hword, Word.canonical, if_pos hlow]
    exact ⟨rfl, rfl⟩

/-- What the assembler emits fits in program memory and consists of instructions
in canonical form. -/
theorem canonical_of_assemble {lines : List String} {words : List Word}
    (h : assemble lines = .ok words) :
    words.length ≤ 32768 ∧
      ∀ word ∈ words, (Instruction.decode? word).isSome = true ∧ word.canonical = word := by
  rw [assemble, assembleLines] at h
  cases hread : readLines lines with
  | error fault =>
    rw [hread] at h
    cases h
  | ok program =>
    rw [hread] at h
    obtain ⟨hcount, -, hall⟩ := assembleProgram_eq_ok_iff.mp h
    constructor
    · rwa [wordCount, List.countP_eq_length_filter, hall.length_eq] at hcount
    · exact ((List.forall₂_and_left _ _).mp (hall.flip.imp fun _ _ hword =>
        ⟨canonical_of_wordValue hword.1 hword.2, hword⟩)).1

/-- Words that all decode have a list of instructions. -/
theorem exists_decodes {words : List Word}
    (h : ∀ word ∈ words, (Instruction.decode? word).isSome = true) :
    ∃ instructions, Decodes words instructions :=
  exists_forall₂ fun word hword => Option.isSome_iff_exists.mp (h word hword)

/-- The texts of the instructions of words, word by word. -/
theorem map_text_of_decodes {words : List Word} {instructions : List Instruction}
    (h : Decodes words instructions) :
    words.map (fun word => (Instruction.decode? word).map Instruction.text) =
      (instructions.map Instruction.text).map some := by
  rw [← List.forall₂_eq_eq_eq, List.forall₂_map_left_iff, List.forall₂_map_right_iff,
    List.forall₂_map_right_iff]
  refine h.imp fun word instruction hdecode => ?_
  rw [hdecode, Option.map_some]

/-- The plain listing of an image whose words all decode can be assembled, as it
is and from its text. It has the text of one instruction for each word, and
assembles to that word with the bits set that decoding ignores. An image that the
assembler made consists of such words, and its listing assembles to exactly the
same image. -/
theorem assemble_disassemble :
    (∀ words : List Word, words.length ≤ 32768 →
      (∀ word ∈ words, (Instruction.decode? word).isSome = true) →
      ∃ listing, Machine.disassemble true (Console.imageText words) = (listing, none) ∧
        listing.map some =
          words.map (fun word => (Instruction.decode? word).map Instruction.text) ∧
        assemble listing = .ok (words.map Word.canonical) ∧
        assemble (Text.lines (Text.unlines listing)) = .ok (words.map Word.canonical)) ∧
    (∀ lines words, assemble lines = .ok words →
      (∀ word ∈ words, (Instruction.decode? word).isSome = true) ∧
      ∃ listing, Machine.disassemble true (Console.imageText words) = (listing, none) ∧
        assemble listing = .ok words ∧
        assemble (Text.lines (Text.unlines listing)) = .ok words) := by
  constructor
  · intro words hlength hall
    obtain ⟨instructions, h⟩ := exists_decodes hall
    refine ⟨_, Machine.disassemble_imageText h, (map_text_of_decodes h).symm,
      assemble_texts h hlength, ?_⟩
    rw [lines_texts h, assemble_texts h hlength]
  · intro lines words hwords
    obtain ⟨hlength, hall⟩ := canonical_of_assemble hwords
    have hdecode : ∀ word ∈ words, (Instruction.decode? word).isSome = true :=
      fun word hword => (hall word hword).1
    have hcanonical : words.map Word.canonical = words :=
      (List.map_congr_left fun word hword => (hall word hword).2).trans (List.map_id' words)
    obtain ⟨instructions, h⟩ := exists_decodes hdecode
    refine ⟨hdecode, _, Machine.disassemble_imageText h, ?_, ?_⟩
    · rw [assemble_texts h hlength, hcanonical]
    · rw [lines_texts h, assemble_texts h hlength, hcanonical]

/-- A compute word without the two bits, and the constant that is loaded in front
of it. -/
def sampleImage : List Word := [0x0007#16, 0x8C10#16]

theorem sampleImage_reassembled :
    (∃ listing, Machine.disassemble true (Console.imageText sampleImage) = (listing, none) ∧
      assemble listing = .ok [0x0007#16, 0xEC10#16]) ∧
    assemble ["  @loop // again", "(loop)", "A+D ; JMP"] = .ok [0x0001#16, 0xE087#16] ∧
    ∃ listing, Machine.disassemble true (Console.imageText [0x0001#16, 0xE087#16]) =
        (listing, none) ∧ assemble listing = .ok [0x0001#16, 0xE087#16] := by
  have hcanonical : sampleImage.map Word.canonical = [0x0007#16, 0xEC10#16] := by decide
  have hsource : assemble ["  @loop // again", "(loop)", "A+D ; JMP"] =
      .ok [0x0001#16, 0xE087#16] := by decide +kernel
  have hdecode : ∀ word ∈ sampleImage, (Instruction.decode? word).isSome = true := by
    rw [sampleImage, List.forall_mem_cons, List.forall_mem_singleton]
    decide
  obtain ⟨listing, hlisting, -, hwords, -⟩ :=
    assemble_disassemble.1 sampleImage (by decide) hdecode
  rw [hcanonical] at hwords
  obtain ⟨-, again, hagain, hsame, -⟩ := assemble_disassemble.2 _ _ hsource
  exact ⟨⟨listing, hlisting, hwords⟩, hsource, again, hagain, hsame⟩

end Assembly

end HK16
