import HK16.Proofs.Writing

/-!
# Canonical source lines

One statement can be written on many lines: with blanks and a comment around it,
with zeros in front of a constant, with the letters of a destination in any
order, with the operands of a sum exchanged. Printing what a line is read as
chooses one of them. The choice is read as the line was, so a source can be
replaced by its canonical lines, and two lines that can be read mean the same
statement exactly if the same text is chosen for them. Comments are lost on the
way.
-/

namespace HK16.Assembly

/-- The line as its statement is printed. A line without a statement becomes
empty, and one that cannot be read stays as it is. -/
def canonicalLine (line : String) : String :=
  match Statement.parseLine line.toList with
  | .ok (some statement) => statement.text
  | .ok none => ""
  | .error _ => line

/-- The canonical form of a line with a statement is the text of that statement. -/
theorem canonicalLine_eq_text {line : String} {statement : Statement}
    (h : Statement.parseLine line.toList = .ok (some statement)) :
    canonicalLine line = statement.text := by
  rw [canonicalLine, h]

/-- What is read from a line is read again from its text. -/
theorem parseLine_text_of_parseLine {line : List Char} {statement : Statement}
    (h : Statement.parseLine line = .ok (some statement)) :
    Statement.parseLine statement.text.toList = .ok (some statement) :=
  parseLine_text (isWritable_of_parseLine h)

/-- Every line is read as its canonical form is, also if it cannot be read. -/
theorem parseLine_canonicalLine (line : String) :
    Statement.parseLine (canonicalLine line).toList = Statement.parseLine line.toList := by
  rw [canonicalLine]
  split
  · next statement hread =>
    have hagain := parseLine_text_of_parseLine hread
    rw [hagain, hread]
  · next hread =>
    have hempty : Statement.parseLine "".toList = .ok none := by decide
    rw [hempty, hread]
  · rfl

/-- A line is read as a statement that some line is read as exactly if its
canonical form is the text of that statement. -/
theorem canonicalLine_eq_text_iff {line other : String} {statement : Statement}
    (h : Statement.parseLine line.toList = .ok (some statement)) :
    canonicalLine other = statement.text ↔
      Statement.parseLine other.toList = .ok (some statement) := by
  constructor
  · intro htext
    have hagain := parseLine_text_of_parseLine h
    rw [← parseLine_canonicalLine, htext, hagain]
  · exact canonicalLine_eq_text

/-! ## Sources -/

/-- Lines that are read alike make up the same program, or fail at the same place. -/
theorem readFrom_map {change : String → String}
    (h : ∀ line, Statement.parseLine (change line).toList = Statement.parseLine line.toList)
    (index : Nat) (done : List Placed) (lines : List String) :
    readFrom index done (lines.map change) = readFrom index done lines := by
  induction lines generalizing index done with
  | nil => rfl
  | cons line lines ih =>
    rw [List.map_cons, readFrom, readFrom, h line]
    split
    · rfl
    · exact ih _ _
    · exact ih _ _

/-- Every statement of a program that is read comes from one of the lines. -/
theorem exists_line_of_mem_readFrom {index : Nat} {done program : List Placed}
    {lines : List String} (h : readFrom index done lines = .ok program) {placed : Placed}
    (hmem : placed ∈ program) :
    placed ∈ done ∨
      ∃ line ∈ lines, Statement.parseLine line.toList = .ok (some placed.statement) := by
  induction lines generalizing index done with
  | nil =>
    rw [readFrom] at h
    obtain rfl := Except.ok.inj h
    exact .inl (List.mem_reverse.mp hmem)
  | cons line lines ih =>
    rw [readFrom] at h
    split at h
    · cases h
    · refine (ih h).imp_right ?_
      rintro ⟨found, hfound, hread⟩
      exact ⟨found, List.mem_cons_of_mem _ hfound, hread⟩
    · next statement hstatement =>
      rcases ih h with hdone | ⟨found, hfound, hread⟩
      · rcases List.mem_cons.mp hdone with rfl | hbefore
        · exact .inr ⟨line, List.mem_cons_self, hstatement⟩
        · exact .inl hbefore
      · exact .inr ⟨found, List.mem_cons_of_mem _ hfound, hread⟩

/-- The statements of a program that is read can be written. -/
theorem writable_of_readLines {lines : List String} {program : List Placed}
    (h : readLines lines = .ok program) : Writable (statements program) := by
  intro statement hstatement
  obtain ⟨placed, hplaced, rfl⟩ := List.mem_map.mp hstatement
  rcases exists_line_of_mem_readFrom h hplaced with hnone | ⟨line, -, hread⟩
  · exact absurd hnone List.not_mem_nil
  · exact isWritable_of_parseLine hread

/-- A statement that any line is read as has a constant of fifteen bits or a name
of the right form, and is read again from its own text; a line is read as it
exactly if that text is the line's canonical form. A source in canonical lines is
the same program at the same places, and a source that cannot be read fails as
before. The texts of the statements of a program alone, in a list or in a file,
make up the same statements. -/
theorem canonical_lines_read_alike :
    (∀ (line : String) (statement : Statement),
      Statement.parseLine line.toList = .ok (some statement) →
        statement.IsWritable ∧
        Statement.parseLine statement.text.toList = .ok (some statement) ∧
        ∀ other : String, canonicalLine other = statement.text ↔
          Statement.parseLine other.toList = .ok (some statement)) ∧
    (∀ lines : List String, readLines (lines.map canonicalLine) = readLines lines) ∧
    ∀ (lines : List String) (program : List Placed), readLines lines = .ok program →
      ∃ again, statements again = statements program ∧
        readLines ((statements program).map Statement.text) = .ok again ∧
        readLines (Text.lines (Text.unlines ((statements program).map Statement.text))) =
          .ok again := by
  refine ⟨fun line statement hread => ?_, fun lines => ?_, fun lines program hread => ?_⟩
  · exact ⟨isWritable_of_parseLine hread, parseLine_text_of_parseLine hread,
      fun other => canonicalLine_eq_text_iff hread⟩
  · exact readFrom_map parseLine_canonicalLine 0 [] lines
  · have hwritable := writable_of_readLines hread
    obtain ⟨again, hagain, hstatements⟩ := readFrom_texts hwritable 0 []
    refine ⟨again, hstatements, hagain, ?_⟩
    rw [lines_unlines_text hwritable]
    exact hagain

/-- Lines with blanks, zeros in front of a constant, a comment, letters in another
order and exchanged operands. -/
def sampleSource : List String :=
  ["\t@ 0042 // answer", " ( Main.loop ) ", "// nothing", "MDA = A + D;JLE "]

theorem sampleSource_canonical :
    sampleSource.map canonicalLine = ["@42", "(Main.loop)", "", "AMD=D+A;JLE"] ∧
    Statement.parseLine "AMD=D+A;JLE".toList =
      .ok (some (.compute ⟨⟨true, true, true⟩, .dPlusA, some .le⟩)) ∧
    readLines ["@42", "(Main.loop)", "", "AMD=D+A;JLE"] = readLines sampleSource ∧
    ∃ program again, readLines sampleSource = .ok program ∧ statements again = statements program ∧
      readLines ["@42", "(Main.loop)", "AMD=D+A;JLE"] = .ok again := by
  have hlines : sampleSource.map canonicalLine = ["@42", "(Main.loop)", "", "AMD=D+A;JLE"] := by
    decide +kernel
  have hcompute : Statement.parseLine "MDA = A + D;JLE ".toList =
      .ok (some (.compute ⟨⟨true, true, true⟩, .dPlusA, some .le⟩)) := by
    decide +kernel
  have hsame := canonical_lines_read_alike.2.1 sampleSource
  rw [hlines] at hsame
  obtain ⟨program, hread, htexts⟩ : ∃ program, readLines sampleSource = .ok program ∧
      (statements program).map Statement.text = ["@42", "(Main.loop)", "AMD=D+A;JLE"] :=
    ⟨[⟨0, .address (.literal 42)⟩, ⟨1, .label "Main.loop"⟩,
      ⟨3, .compute ⟨⟨true, true, true⟩, .dPlusA, some .le⟩⟩], by decide +kernel, by decide +kernel⟩
  obtain ⟨again, hstatements, hagain, -⟩ :=
    canonical_lines_read_alike.2.2 sampleSource program hread
  rw [htexts] at hagain
  exact ⟨hlines, (canonical_lines_read_alike.1 _ _ hcompute).2.1, hsame, program, again, hread,
    hstatements, hagain⟩

end HK16.Assembly
