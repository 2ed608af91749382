import HK16.Assembly.Source
import HK16.Proofs.Names

/-!
# Printed statements are read back

The text of a statement is one line without blanks and comments. Reading it
gives the statement, provided that its constant has fifteen bits and its name is
one. The letters of a destination are printed in another order than that of its
bits, and a computation that has two spellings is printed in the first. Lines
that are written by hand are not covered.
-/

namespace HK16

namespace Text

/-- Nothing is trimmed off a text without blanks. -/
theorem trim_of_not_isBlank {text : List Char} (h : ∀ c ∈ text, isBlank c = false) :
    trim text = text := by
  have hkept {letters : List Char} (hletters : ∀ c ∈ letters, isBlank c = false) :
      letters.dropWhile isBlank = letters := by
    cases letters with
    | nil => rfl
    | cons c rest => exact trimStart_cons_of_not_blank rest (hletters c List.mem_cons_self)
  have hreverse : ∀ c ∈ text.reverse, isBlank c = false := fun c hc =>
    h c (List.mem_reverse.mp hc)
  rw [trim, trimStart, hkept h, trimEnd, hkept hreverse, List.reverse_reverse]

/-- The characters of names are not blank. -/
theorem not_isBlank_of_isNameChar {c : Char} (h : isNameChar c = true) : isBlank c = false := by
  have hletter : c.isAlpha = (decide (65 ≤ c.toNat ∧ c.toNat ≤ 90) ||
      decide (97 ≤ c.toNat) && decide (c.toNat ≤ 122)) := rfl
  have hdigit : c.isDigit = (decide (48 ≤ c.toNat) && decide (c.toNat ≤ 57)) := rfl
  have hrange : 0x23 < c.toNat ∧ c.toNat < 0x7B := by
    rw [isNameChar, Char.isAlphanum, hletter, hdigit] at h
    simp only [Bool.or_eq_true, Bool.and_eq_true, decide_eq_true_eq, beq_iff_eq] at h
    rcases h with (((hrange | rfl) | rfl) | rfl) | rfl
    · omega
    all_goals decide
  simp only [isBlank, Bool.or_eq_false_iff, Bool.and_eq_false_iff, decide_eq_false_iff_not,
    beq_eq_false_iff_ne]
  omega

/-- Digits may stand in names. -/
theorem isNameChar_of_isDigit {c : Char} (h : c.isDigit = true) : isNameChar c = true := by
  rw [isNameChar, Char.isAlphanum, h]
  simp only [Bool.or_true, Bool.true_or]

/-- The decimal text of a number denotes it. -/
theorem decimal_toString (n : Nat) : decimal (toString n).toList = n := by
  have hdigits : (toString n).toList = Nat.toDigits 10 n := by
    rw [Nat.toString_eq_repr, Nat.toList_repr]
  have hvalue := Nat.ofDigitChars_ten_toDigits (n := n)
  rw [Nat.ofDigitChars_eq_foldl] at hvalue
  rw [hdigits, decimal, decimalFrom]
  simpa only [digitValue, Nat.mul_comm 10] using hvalue

end Text

/-! ## The three parts of a compute statement -/

/-- A mnemonic is read as its computation, also where it has a second spelling. -/
theorem Computation.parse?_text (comp : Computation) : parse? comp.text.toList = some comp := by
  cases comp <;> decide

/-- The letters of a destination are read as that destination. -/
theorem Destination.parse?_text (dest : Destination) : parse? dest.text.toList = some dest := by
  rcases dest with ⟨_ | _, _ | _, _ | _⟩ <;> decide

/-- The mnemonic of a condition is read as that condition. -/
theorem Jump.parse?_text (jump : Jump) : parse? jump.text.toList = some jump := by
  cases jump <;> decide

namespace Assembly

/-- Whether a character neither is blank nor has a meaning of its own in a
compute statement, a comment or the beginning of another statement. -/
def isPlain (c : Char) : Bool := !Text.isBlank c && !(['/', '=', ';', '@', '('].contains c)

/-- Plain characters are not blank. -/
theorem not_isBlank_of_isPlain {c : Char} (h : isPlain c = true) : Text.isBlank c = false := by
  rw [isPlain, Bool.and_eq_true, Bool.not_eq_true'] at h
  exact h.1

/-- A text of plain characters holds none of the marks. -/
theorem notMem_of_isPlain {text : List Char} {mark : Char} (h : ∀ c ∈ text, isPlain c = true)
    (hmark : isPlain mark = false) : mark ∉ text := by
  intro hmem
  rw [h mark hmem] at hmark
  cases hmark

theorem isPlain_of_mem_computation (comp : Computation) :
    ∀ c ∈ comp.text.toList, isPlain c = true := by
  rw [← List.all_eq_true]
  cases comp <;> decide

theorem isPlain_of_mem_destination (dest : Destination) :
    ∀ c ∈ dest.text.toList, isPlain c = true := by
  rw [← List.all_eq_true]
  rcases dest with ⟨_ | _, _ | _, _ | _⟩ <;> decide

theorem isPlain_of_mem_jump (jump : Jump) : ∀ c ∈ jump.text.toList, isPlain c = true := by
  rw [← List.all_eq_true]
  cases jump <;> decide

/-- The text behind a destination: the computation, and the jump if there is one. -/
def behindDest (comp : Computation) : Option Jump → List Char
  | none => comp.text.toList
  | some jump => comp.text.toList ++ ';' :: jump.text.toList

/-- The text of a compute statement in its parts. -/
theorem toList_text_compute (c : Compute) :
    c.text.toList = if c.dest.isEmpty then behindDest c.comp c.jump
      else c.dest.text.toList ++ '=' :: behindDest c.comp c.jump := by
  obtain ⟨dest, comp, jump⟩ := c
  have hequals : "=".toList = ['='] := rfl
  have hsemicolon : ";".toList = [';'] := rfl
  cases jump with
  | none =>
    simp only [Compute.text, behindDest, String.append_empty]
    split
    · rw [String.empty_append]
    · rw [String.toList_append, String.toList_append, hequals, List.append_assoc,
        List.singleton_append]
  | some jump =>
    simp only [Compute.text, behindDest]
    split
    · rw [String.empty_append, String.toList_append, String.toList_append, hsemicolon,
        List.singleton_append]
    · simp only [String.toList_append, hequals, hsemicolon, List.append_assoc, List.cons_append,
        List.nil_append]

/-- The text behind a destination is divided into the computation and the jump. -/
theorem cut_behindDest (comp : Computation) (jump : Option Jump) :
    Text.cut ';' (behindDest comp jump) =
      jump.map fun jump => (comp.text.toList, jump.text.toList) := by
  have hfree : ';' ∉ comp.text.toList :=
    notMem_of_isPlain (isPlain_of_mem_computation comp) (by decide)
  cases jump with
  | none => exact Text.cut_eq_none_iff.mpr hfree
  | some jump => exact Text.cut_append _ hfree

/-- The text behind a destination holds plain characters and perhaps a semicolon. -/
theorem mem_behindDest {comp : Computation} {jump : Option Jump} {c : Char}
    (h : c ∈ behindDest comp jump) : isPlain c = true ∨ c = ';' := by
  cases jump with
  | none => exact .inl (isPlain_of_mem_computation comp c h)
  | some jump =>
    rw [behindDest, List.mem_append, List.mem_cons] at h
    rcases h with hcomp | rfl | hjump
    · exact .inl (isPlain_of_mem_computation comp c hcomp)
    · exact .inr rfl
    · exact .inl (isPlain_of_mem_jump jump c hjump)

/-- The text of a compute statement holds plain characters and two marks. -/
theorem mem_text_compute {fields : Compute} {c : Char} (h : c ∈ fields.text.toList) :
    isPlain c = true ∨ c = ';' ∨ c = '=' := by
  have hbehind (hc : c ∈ behindDest fields.comp fields.jump) :
      isPlain c = true ∨ c = ';' ∨ c = '=' :=
    (mem_behindDest hc).imp_right .inl
  rw [toList_text_compute] at h
  split at h
  · exact hbehind h
  · rw [List.mem_append, List.mem_cons] at h
    rcases h with hdest | rfl | hrest
    · exact .inl (isPlain_of_mem_destination fields.dest c hdest)
    · exact .inr (.inr rfl)
    · exact hbehind hrest

/-- The text of a compute statement is divided at the destination, if it has one. -/
theorem cut_text_compute (c : Compute) :
    Text.cut '=' c.text.toList =
      if c.dest.isEmpty then none else some (c.dest.text.toList, behindDest c.comp c.jump) := by
  rw [toList_text_compute]
  split
  · rw [Text.cut_eq_none_iff]
    intro hmem
    exact absurd (mem_behindDest hmem) (by decide)
  · exact Text.cut_append _ (notMem_of_isPlain (isPlain_of_mem_destination c.dest) (by decide))

/-- A text of plain characters is trimmed already. -/
theorem trim_of_isPlain {text : List Char} (h : ∀ c ∈ text, isPlain c = true) :
    Text.trim text = text :=
  Text.trim_of_not_isBlank fun c hc => not_isBlank_of_isPlain (h c hc)

/-- A result that is dropped has no letters. -/
theorem toList_text_of_isEmpty {dest : Destination} (h : dest.isEmpty = true) :
    dest.text.toList = [] := by
  obtain ⟨a, d, m⟩ := dest
  simp only [Destination.isEmpty, Bool.not_eq_true', Bool.or_eq_false_iff] at h
  obtain ⟨⟨rfl, rfl⟩, rfl⟩ := h
  rfl

/-- The text of a compute statement is read as its fields. -/
theorem parseCompute_text (c : Compute) : parseCompute c.text.toList = .ok c := by
  have hdest := trim_of_isPlain (isPlain_of_mem_destination c.dest)
  have hcomp := trim_of_isPlain (isPlain_of_mem_computation c.comp)
  have hread := c.dest.parse?_text
  -- Whether or not there is an equals sign, what remains is to divide the text behind it.
  by_cases hempty : c.dest.isEmpty = true
  on_goal 1 =>
    rw [toList_text_of_isEmpty hempty] at hread
    rw [parseCompute, cut_text_compute, if_pos hempty]
    dsimp only
    rw [toList_text_compute, if_pos hempty, cut_behindDest, hread]
  on_goal 2 =>
    rw [parseCompute, cut_text_compute, if_neg hempty]
    dsimp only
    rw [hdest, cut_behindDest, hread]
  all_goals
    obtain ⟨dest, comp, jump⟩ := c
    cases jump with
    | none =>
      dsimp only [Option.map_none, behindDest] at hcomp ⊢
      rw [hcomp, comp.parse?_text]
      rfl
    | some jump =>
      have hjump := trim_of_isPlain (isPlain_of_mem_jump jump)
      have hletters : jump.text.toList.isEmpty = false := by cases jump <;> rfl
      simp only [Option.map_some, hcomp, hjump, comp.parse?_text, jump.parse?_text, hletters,
        Bool.false_eq_true, if_false]

/-! ## Whole lines -/

/-- What can be written so that it is read back: constants of fifteen bits and
names of the right form. -/
def Statement.IsWritable : Statement → Prop
  | .address (.literal value) => value.toNat ≤ Instruction.addressMax
  | .address (.symbol name) => Text.isName name.toList = true
  | .label name => Text.isName name.toList = true
  | .compute _ => True

/-- A line without slashes has no comment. -/
theorem splitAtComment_of_notMem {line : List Char} (h : '/' ∉ line) :
    splitAtComment line = (line, none) := by
  induction line with
  | nil => rfl
  | cons c line ih =>
    rw [List.mem_cons, not_or] at h
    rw [splitAtComment, ih h.2]
    intro comment hc
    exact absurd hc.symm h.1

/-- A line of characters that are neither blank nor slashes is all code. -/
theorem splitComment_of_not_isBlank {line : List Char}
    (h : ∀ c ∈ line, Text.isBlank c = false ∧ c ≠ '/') : splitComment line = (line, none) := by
  have hslash : '/' ∉ line := fun hmem => (h '/' hmem).2 rfl
  rw [splitComment, splitAtComment_of_notMem hslash,
    Text.trim_of_not_isBlank fun c hc => (h c hc).1]

/-- The characters of names are neither blank nor slashes. -/
theorem nameChar_free {c : Char} (h : Text.isNameChar c = true) :
    Text.isBlank c = false ∧ c ≠ '/' := by
  refine ⟨Text.not_isBlank_of_isNameChar h, ?_⟩
  rintro rfl
  exact absurd h (by decide)

/-- A printed constant is a row of digits that starts with one. -/
theorem parse_decimal {value : Word} (h : value.toNat ≤ Instruction.addressMax) :
    Operand.parse value.decimal.toList = .ok (.literal value) := by
  have hdigits : ∀ c ∈ value.decimal.toList, c.isDigit = true := fun c =>
    Bytecode.isDigit_of_mem_toString
  have hvalue : Text.decimal value.decimal.toList = value.toNat := Text.decimal_toString _
  cases htext : value.decimal.toList with
  | nil =>
    have hnonempty : value.decimal.toList ≠ [] := by
      rw [Word.decimal, Nat.toString_eq_repr, Nat.toList_repr]
      exact Nat.toDigits_ne_nil
    exact absurd htext hnonempty
  | cons c rest =>
    rw [htext] at hdigits hvalue
    have hfirst : c.isDigit = true := hdigits c List.mem_cons_self
    have hall : (c :: rest).all Char.isDigit = true := List.all_eq_true.mpr hdigits
    rw [Operand.parse, if_pos hfirst, if_pos hall, hvalue, if_pos h, BitVec.ofNat_toNat,
      BitVec.setWidth_eq]

/-- A printed name is read as that name. -/
theorem parse_name {name : String} (h : Text.isName name.toList = true) :
    Operand.parse name.toList = .ok (.symbol name) := by
  cases htext : name.toList with
  | nil => rw [htext] at h; cases h
  | cons c rest =>
    rw [htext] at h
    have hfirst : ¬c.isDigit = true := by
      simp only [Text.isName, Bool.and_eq_true, Bool.not_eq_true'] at h
      exact Bool.eq_false_iff.mp h.1.1
    rw [Operand.parse, if_neg hfirst, if_pos h, ← htext, String.ofList_toList]

/-- The operand of a writable statement consists of the characters of names and
is read as it was. -/
theorem parse_operand {operand : Operand} (h : (Statement.address operand).IsWritable) :
    (∀ c ∈ operand.text.toList, Text.isNameChar c = true) ∧
      Operand.parse operand.text.toList = .ok operand := by
  cases operand with
  | literal value =>
    exact ⟨fun c hc => Text.isNameChar_of_isDigit (Bytecode.isDigit_of_mem_toString hc),
      parse_decimal h⟩
  | symbol name => exact ⟨fun c hc => Text.isNameChar_of_mem h hc, parse_name h⟩

/-- A line that starts with code is read as that code. -/
theorem parseLine_of_free {c : Char} {code : List Char}
    (h : ∀ d ∈ c :: code, Text.isBlank d = false ∧ d ≠ '/') :
    Statement.parseLine (c :: code) = (Statement.parseCode (c :: code)).map some := by
  rw [Statement.parseLine, splitComment_of_not_isBlank h]
  rfl

/-- The text of a label is its name in parentheses. -/
theorem toList_text_label (name : String) :
    (Statement.label name).text.toList = '(' :: (name.toList ++ [')']) := by
  have hopen : "(".toList = ['('] := rfl
  have hclose : ")".toList = [')'] := rfl
  rw [Statement.text, String.toList_append, String.toList_append, hopen, hclose,
    List.append_assoc, List.singleton_append]

/-- The text of a writable statement holds neither blanks nor slashes. -/
theorem free_of_mem_text {statement : Statement} (h : statement.IsWritable) :
    ∀ c ∈ statement.text.toList, Text.isBlank c = false ∧ c ≠ '/' := by
  cases statement with
  | address operand =>
    have htext : (Statement.address operand).text.toList = '@' :: operand.text.toList :=
      String.toList_append
    rw [htext, List.forall_mem_cons]
    exact ⟨by decide, fun c hc => nameChar_free ((parse_operand h).1 c hc)⟩
  | label name =>
    rw [toList_text_label, List.forall_mem_cons, List.forall_mem_append,
      List.forall_mem_singleton]
    exact ⟨by decide, fun c hc => nameChar_free (Text.isNameChar_of_mem h hc), by decide⟩
  | compute fields =>
    intro c hc
    rcases mem_text_compute hc with hplain | rfl | rfl
    · refine ⟨not_isBlank_of_isPlain hplain, ?_⟩
      rintro rfl
      exact absurd hplain (by decide)
    · decide
    · decide

/-- Every writable statement is read back from its text. -/
theorem parseLine_text {statement : Statement} (h : statement.IsWritable) :
    Statement.parseLine statement.text.toList = .ok (some statement) := by
  have hfree := free_of_mem_text h
  cases statement with
  | address operand =>
    obtain ⟨hchars, hread⟩ := parse_operand h
    have htext : (Statement.address operand).text.toList = '@' :: operand.text.toList :=
      String.toList_append
    have htrim := Text.trim_of_not_isBlank fun c hc =>
      Text.not_isBlank_of_isNameChar (hchars c hc)
    rw [htext] at hfree ⊢
    rw [parseLine_of_free hfree, Statement.parseCode, htrim, hread]
    rfl
  | label name =>
    have htrim := Text.trim_of_not_isBlank fun c hc =>
      Text.not_isBlank_of_isNameChar (Text.isNameChar_of_mem h hc)
    have hname : labelName? (name.toList ++ [')']) = some name := by
      have hisName : Text.isName name.toList = true := h
      rw [labelName?, List.getLast?_concat, List.dropLast_concat, htrim, if_pos hisName,
        String.ofList_toList]
      rfl
    rw [toList_text_label] at hfree ⊢
    rw [parseLine_of_free hfree, Statement.parseCode, hname]
    rfl
  | compute fields =>
    have hread := parseCompute_text fields
    have hchars : ∀ c ∈ fields.text.toList, isPlain c = true ∨ c = ';' ∨ c = '=' :=
      fun c => mem_text_compute
    have htext : (Statement.compute fields).text = fields.text := rfl
    rw [htext] at hfree ⊢
    cases hcode : fields.text.toList with
    | nil =>
      rw [hcode] at hread
      cases hread
    | cons c code =>
      rw [hcode] at hread hchars hfree
      have hfirst := hchars c List.mem_cons_self
      rw [parseLine_of_free hfree, Statement.parseCode, hread]
      · rfl
      · intro operand heq
        obtain ⟨rfl, -⟩ := List.cons.inj heq
        exact absurd hfirst (by decide)
      · intro rest heq
        obtain ⟨rfl, -⟩ := List.cons.inj heq
        exact absurd hfirst (by decide)

/-- The texts of writable statements are read as these statements, one a line. -/
theorem readFrom_texts {code : List Statement} (h : ∀ statement ∈ code, statement.IsWritable)
    (index : Nat) (done : List Placed) :
    ∃ placed, readFrom index done (code.map Statement.text) = .ok (done.reverse ++ placed) ∧
      placed.map Placed.statement = code := by
  induction code generalizing index done with
  | nil => exact ⟨[], by rw [List.append_nil]; rfl, rfl⟩
  | cons statement code ih =>
    rw [List.forall_mem_cons] at h
    obtain ⟨placed, hread, hcode⟩ := ih h.2 (index + 1) (⟨index, statement⟩ :: done)
    refine ⟨⟨index, statement⟩ :: placed, ?_, by rw [List.map_cons, hcode]⟩
    rw [List.map_cons, readFrom, parseLine_text h.1]
    dsimp only
    rw [hread, List.reverse_cons, List.append_assoc, List.singleton_append]

end Assembly

end HK16
