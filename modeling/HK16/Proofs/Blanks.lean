import HK16.Proofs.Printing
import Mathlib.Data.List.DropRight

/-!
# Blanks in compute statements

Blanks may stand around the parts of a compute statement and anywhere inside its
computation. Inside a destination or a jump they are not skipped: letters with a
blank between them are no destination, and no condition either. So a line that
comes from a compute statement by inserting blanks is read as that statement
unless one of them tears the destination or the jump apart, and then it is
refused for that part. Comments are left out of account.
-/

namespace HK16

namespace Text

/-- The second text is the first one with blanks inserted at any places. -/
inductive Spread : List Char → List Char → Prop
  /-- Nothing is inserted into the empty text. -/
  | nil : Spread [] []
  /-- A character of the first text is kept. -/
  | keep (c : Char) {text line : List Char} : Spread text line → Spread (c :: text) (c :: line)
  /-- A blank is inserted. -/
  | insert {c : Char} {text line : List Char} (h : isBlank c = true) :
    Spread text line → Spread text (c :: line)

/-- Whether a blank stands between other characters of the text. -/
def HasGap (text : List Char) : Prop := ∃ c ∈ trim text, isBlank c = true

instance (text : List Char) : Decidable (HasGap text) :=
  decidable_of_iff ((trim text).any isBlank = true) List.any_eq_true

/-! ## Texts without their blanks -/

theorem squeeze_of_not_isBlank {text : List Char} (h : ∀ c ∈ text, isBlank c = false) :
    squeeze text = text := by
  rw [squeeze, List.filter_eq_self]
  intro c hc
  rw [h c hc, Bool.not_false]

theorem squeeze_append (front back : List Char) :
    squeeze (front ++ back) = squeeze front ++ squeeze back :=
  List.filter_append front back

theorem squeeze_cons_of_not_blank {c : Char} (text : List Char) (h : isBlank c = false) :
    squeeze (c :: text) = c :: squeeze text := by
  rw [squeeze, List.filter_cons_of_pos (by rw [h, Bool.not_false])]
  rfl

theorem squeeze_cons_of_blank {c : Char} (text : List Char) (h : isBlank c = true) :
    squeeze (c :: text) = squeeze text := by
  rw [squeeze, List.filter_cons_of_neg (by rw [h, Bool.not_true]; decide)]
  rfl

/-- Inserted blanks are removed by squeezing. -/
theorem Spread.squeeze_eq {text line : List Char} (h : Spread text line) :
    squeeze line = squeeze text := by
  induction h with
  | nil => rfl
  | keep c _ ih =>
    by_cases hc : isBlank c = true
    · rw [squeeze_cons_of_blank _ hc, squeeze_cons_of_blank _ hc, ih]
    · have hc' : isBlank c = false := Bool.eq_false_iff.mpr hc
      rw [squeeze_cons_of_not_blank _ hc', squeeze_cons_of_not_blank _ hc', ih]
  | insert hc _ ih => rw [squeeze_cons_of_blank _ hc, ih]

/-- A text is itself with blanks inserted where they were removed. -/
theorem spread_squeeze (line : List Char) : Spread (squeeze line) line := by
  induction line with
  | nil => exact .nil
  | cons c line ih =>
    by_cases hc : isBlank c = true
    · rw [squeeze_cons_of_blank _ hc]
      exact .insert hc ih
    · rw [squeeze_cons_of_not_blank _ (Bool.eq_false_iff.mpr hc)]
      exact .keep c ih

theorem squeeze_dropWhile (text : List Char) : squeeze (text.dropWhile isBlank) = squeeze text := by
  induction text with
  | nil => rfl
  | cons c text ih =>
    by_cases hc : isBlank c = true
    · rw [List.dropWhile_cons_of_pos hc, ih, squeeze_cons_of_blank _ hc]
    · rw [List.dropWhile_cons_of_neg hc]

/-- Trimming removes only what squeezing removes. -/
theorem squeeze_trim (text : List Char) : squeeze (trim text) = squeeze text := by
  have hreverse (letters : List Char) : squeeze letters.reverse = (squeeze letters).reverse :=
    List.filter_reverse
  rw [trim, trimEnd, hreverse, squeeze_dropWhile, hreverse, List.reverse_reverse, trimStart,
    squeeze_dropWhile]

/-- A trimmed text does not begin with a blank. -/
theorem not_isBlank_of_head?_trim {text : List Char} {c : Char} (h : (trim text).head? = some c) :
    isBlank c = false := by
  have hfront : trim text <+: trimStart text := List.rdropWhile_prefix isBlank _
  obtain ⟨rest, hrest⟩ := hfront
  cases hkept : trim text with
  | nil =>
    rw [hkept] at h
    cases h
  | cons first letters =>
    rw [hkept] at h hrest
    obtain rfl := Option.some.inj h
    have hfirst := List.head?_dropWhile_not isBlank text
    rw [← trimStart, ← hrest] at hfirst
    exact hfirst

/-- Trimming twice is trimming once. -/
theorem trim_trim (text : List Char) : trim (trim text) = trim text := by
  have hstart : trimStart (trim text) = trim text := by
    cases hkept : trim text with
    | nil => rfl
    | cons c rest =>
      have hhead : (trim text).head? = some c := by rw [hkept, List.head?_cons]
      exact trimStart_cons_of_not_blank rest (not_isBlank_of_head?_trim hhead)
  rw [trim, hstart]
  exact List.rdropWhile_idempotent isBlank _

/-- A text begins with the same character after squeezing as after trimming. -/
theorem head?_squeeze (text : List Char) : (squeeze text).head? = (trim text).head? := by
  rw [← squeeze_trim]
  cases hkept : trim text with
  | nil => rfl
  | cons c rest =>
    have hhead : (trim text).head? = some c := by rw [hkept, List.head?_cons]
    rw [squeeze_cons_of_not_blank rest (not_isBlank_of_head?_trim hhead), List.head?_cons,
      List.head?_cons]

/-- Without a gap, trimming leaves what squeezing leaves. -/
theorem trim_eq_squeeze {text : List Char} (h : ¬HasGap text) : trim text = squeeze text := by
  rw [← squeeze_trim, squeeze_of_not_isBlank]
  intro c hc
  by_contra hblank
  exact h ⟨c, hc, Bool.not_eq_false _ |>.mp hblank⟩

theorem trim_squeeze (text : List Char) : trim (squeeze text) = squeeze text :=
  trim_of_not_isBlank fun _ hc => not_isBlank_of_mem_squeeze hc

/-- Squeezing does not move the place where a text is cut. -/
theorem cut_squeeze {marker : Char} (h : isBlank marker = false) (text : List Char) :
    cut marker (squeeze text) =
      (cut marker text).map fun parts => (squeeze parts.1, squeeze parts.2) := by
  induction text with
  | nil => rfl
  | cons c text ih =>
    by_cases hmarker : c = marker
    · subst hmarker
      rw [squeeze_cons_of_not_blank text h]
      simp only [cut, if_true, Option.map_some]
      rfl
    · by_cases hc : isBlank c = true
      · rw [squeeze_cons_of_blank text hc, ih, cut, if_neg hmarker, Option.map_map]
        congr 1
        funext parts
        exact congrArg (·, squeeze parts.2) (squeeze_cons_of_blank parts.1 hc).symm
      · have hc' : isBlank c = false := Bool.eq_false_iff.mpr hc
        rw [squeeze_cons_of_not_blank text hc', cut, if_neg hmarker, ih, cut, if_neg hmarker,
          Option.map_map, Option.map_map]
        congr 1
        funext parts
        exact congrArg (·, squeeze parts.2) (squeeze_cons_of_not_blank parts.1 hc').symm

end Text

/-! ## Parts that are torn apart -/

/-- Only the three letters are added to a destination. -/
theorem Destination.mem_of_addLetters {dest result : Destination} {letters : List Char}
    (h : addLetters dest letters = some result) : ∀ c ∈ letters, c = 'A' ∨ c = 'D' ∨ c = 'M' := by
  fun_induction addLetters dest letters with
  | case1 => exact List.forall_mem_nil _
  | case2 | case4 | case6 => cases h
  | case3 dest letters _ ih => exact List.forall_mem_cons.mpr ⟨.inl rfl, ih h⟩
  | case5 dest letters _ ih => exact List.forall_mem_cons.mpr ⟨.inr (.inl rfl), ih h⟩
  | case7 dest letters _ ih => exact List.forall_mem_cons.mpr ⟨.inr (.inr rfl), ih h⟩
  | case8 => cases h

/-- Letters with a blank between them are no destination. -/
theorem Destination.parse?_of_hasGap {text : List Char} (h : Text.HasGap text) :
    parse? (Text.trim text) = none := by
  obtain ⟨c, hc, hblank⟩ := h
  rw [parse?, Text.trim_trim]
  by_contra hsome
  obtain ⟨dest, hdest⟩ := Option.ne_none_iff_exists'.mp hsome
  rcases mem_of_addLetters hdest c hc with rfl | rfl | rfl <;> exact absurd hblank (by decide)

/-- A mnemonic with a blank inside is no condition. -/
theorem Jump.parse?_of_hasGap {text : List Char} (h : Text.HasGap text) :
    parse? (Text.trim text) = none := by
  obtain ⟨c, hc, hblank⟩ := h
  rw [parse?, Text.trim_trim]
  by_contra hsome
  obtain ⟨jump, hjump⟩ := Option.ne_none_iff_exists'.mp hsome
  have htext : jump.text = String.ofList (Text.trim text) := by
    simpa using List.find?_some hjump
  have hletters : jump.text.toList = Text.trim text := by
    rw [htext, String.toList_ofList]
  have hplain := Assembly.isPlain_of_mem_jump jump c (by rw [hletters]; exact hc)
  rw [Assembly.not_isBlank_of_isPlain hplain] at hblank
  cases hblank

/-- The blanks of a computation do not matter. -/
theorem Computation.parse?_trim (text : List Char) :
    parse? (Text.trim text) = parse? (Text.squeeze text) := by
  rw [parse?, parse?, Text.squeeze_trim, Text.squeeze_squeeze]

namespace Assembly

/-! ## The parts of a statement -/

/-- The text in front of the equals sign. -/
def destPart (code : List Char) : List Char :=
  match Text.cut '=' code with
  | some parts => parts.1
  | none => []

/-- The text behind the equals sign, or all of it. -/
def behindEquals (code : List Char) : List Char :=
  match Text.cut '=' code with
  | some parts => parts.2
  | none => code

/-- The text between the two marks. -/
def compPart (code : List Char) : List Char :=
  match Text.cut ';' (behindEquals code) with
  | some parts => parts.1
  | none => behindEquals code

/-- The text behind the semicolon. -/
def jumpPart (code : List Char) : List Char :=
  match Text.cut ';' (behindEquals code) with
  | some parts => parts.2
  | none => []

/-- Read the three parts of a compute statement. -/
def readParts (dest comp jump : List Char) : Except Fault Compute :=
  match Destination.parse? dest with
  | none => .error (.unknownDestination (String.ofList dest))
  | some destination =>
    match Computation.parse? comp with
    | none => .error (.unknownComputation (String.ofList comp))
    | some computation =>
      if jump.isEmpty then .ok ⟨destination, computation, none⟩
      else
        match Jump.parse? jump with
        | none => .error (.unknownJump (String.ofList jump))
        | some condition => .ok ⟨destination, computation, some condition⟩

/-- A compute statement is read part by part, each without the blanks around it. -/
theorem parseCompute_eq (code : List Char) :
    parseCompute code =
      readParts (Text.trim (destPart code)) (Text.trim (compPart code))
        (Text.trim (jumpPart code)) := by
  have hnil : Text.trim [] = [] := rfl
  rw [parseCompute, compPart, jumpPart, destPart, behindEquals]
  cases Text.cut '=' code with
  | none =>
    dsimp only
    cases Text.cut ';' code with
    | none => rw [hnil]; rfl
    | some parts => rw [hnil]; rfl
  | some sides =>
    dsimp only
    cases Text.cut ';' sides.2 with
    | none => rw [hnil]; rfl
    | some parts => rfl

/-- Squeezing a statement squeezes each of its parts. -/
theorem parts_squeeze (code : List Char) :
    destPart (Text.squeeze code) = Text.squeeze (destPart code) ∧
      compPart (Text.squeeze code) = Text.squeeze (compPart code) ∧
      jumpPart (Text.squeeze code) = Text.squeeze (jumpPart code) := by
  have hequalsMark : Text.isBlank '=' = false := by decide
  have hsemicolonMark : Text.isBlank ';' = false := by decide
  have hequals := Text.cut_squeeze hequalsMark code
  have hbehind : behindEquals (Text.squeeze code) = Text.squeeze (behindEquals code) := by
    rw [behindEquals, behindEquals, hequals]
    cases Text.cut '=' code <;> rfl
  have hsemicolon := Text.cut_squeeze hsemicolonMark (behindEquals code)
  refine ⟨?_, ?_, ?_⟩
  · rw [destPart, destPart, hequals]
    cases Text.cut '=' code <;> rfl
  · rw [compPart, compPart, hbehind, hsemicolon]
    cases Text.cut ';' (behindEquals code) <;> rfl
  · rw [jumpPart, jumpPart, hbehind, hsemicolon]
    cases Text.cut ';' (behindEquals code) <;> rfl

/-- Parts are read as a statement if each of them is read; an empty jump is none. -/
theorem readParts_eq_ok {dest comp jump : List Char} {fields : Compute}
    (h : readParts dest comp jump = .ok fields) :
    Destination.parse? dest = some fields.dest ∧ Computation.parse? comp = some fields.comp ∧
      (jump = [] ∧ fields.jump = none ∨
        jump ≠ [] ∧ ∃ condition, Jump.parse? jump = some condition ∧
          fields.jump = some condition) := by
  rw [readParts] at h
  split at h
  · cases h
  · next destination hdest =>
    split at h
    · cases h
    · next computation hcomp =>
      split at h
      · next hempty =>
        cases h
        exact ⟨hdest, hcomp, .inl ⟨List.isEmpty_iff.mp hempty, rfl⟩⟩
      · next hempty =>
        split at h
        · cases h
        · next condition hjump =>
          cases h
          have hsome : jump ≠ [] := fun hnil => hempty (List.isEmpty_iff.mpr hnil)
          exact ⟨hdest, hcomp, .inr ⟨hsome, condition, hjump, rfl⟩⟩

section Parts

variable {dest comp jump : List Char} {fields : Compute}
  (h : readParts (Text.squeeze dest) (Text.squeeze comp) (Text.squeeze jump) = .ok fields)

/-- A destination that is torn apart is the fault, whatever the other parts are. -/
theorem readParts_of_hasGap_dest (comp jump : List Char) (hgap : Text.HasGap dest) :
    readParts (Text.trim dest) comp jump =
      .error (.unknownDestination (String.ofList (Text.trim dest))) := by
  rw [readParts, Destination.parse?_of_hasGap hgap]

include h

/-- A jump that is torn apart is the fault of parts that can be read otherwise. -/
theorem readParts_of_hasGap_jump (hdest : ¬Text.HasGap dest) (hgap : Text.HasGap jump) :
    readParts (Text.trim dest) (Text.trim comp) (Text.trim jump) =
      .error (.unknownJump (String.ofList (Text.trim jump))) := by
  obtain ⟨hreadDest, hreadComp, -⟩ := readParts_eq_ok h
  have hsome : (Text.trim jump).isEmpty = false := by
    obtain ⟨c, hc, -⟩ := hgap
    exact List.isEmpty_eq_false_iff.mpr (List.ne_nil_of_mem hc)
  rw [readParts, Text.trim_eq_squeeze hdest, hreadDest, Computation.parse?_trim, hreadComp]
  simp only [hsome, Jump.parse?_of_hasGap hgap, Bool.false_eq_true, if_false]

/-- Parts that are not torn apart are read as they are without blanks. -/
theorem readParts_of_not_hasGap (hdest : ¬Text.HasGap dest) (hjump : ¬Text.HasGap jump) :
    readParts (Text.trim dest) (Text.trim comp) (Text.trim jump) = .ok fields := by
  obtain ⟨hreadDest, hreadComp, hreadJump⟩ := readParts_eq_ok h
  obtain ⟨destination, computation, condition⟩ := fields
  rw [readParts, Text.trim_eq_squeeze hdest, hreadDest, Computation.parse?_trim, hreadComp,
    Text.trim_eq_squeeze hjump]
  rcases hreadJump with ⟨hnil, rfl⟩ | ⟨hsome, found, hfound, rfl⟩
  · simp only [hnil, List.isEmpty_nil, if_true]
  · have hletters : (Text.squeeze jump).isEmpty = false := List.isEmpty_eq_false_iff.mpr hsome
    simp only [hletters, hfound, Bool.false_eq_true, if_false]

end Parts

/-! ## Lines -/

/-- A line without a double slash has no comment. -/
theorem splitAtComment_of_uncommented {line : List Char} (h : ¬['/', '/'] <:+: line) :
    splitAtComment line = (line, none) := by
  induction line with
  | nil => rfl
  | cons c line ih =>
    have hrest : ¬['/', '/'] <:+: line := fun hinside => h (List.infix_cons hinside)
    rw [splitAtComment, ih hrest]
    rintro comment rfl rfl
    exact h (List.prefix_append ['/', '/'] comment).isInfix

/-- A code that begins neither with an at sign nor with a bracket computes. -/
theorem parseCode_of_head? {code : List Char} (hat : code.head? ≠ some '@')
    (hopen : code.head? ≠ some '(') :
    Statement.parseCode code = (parseCompute code).map .compute := by
  unfold Statement.parseCode
  split
  · exact absurd List.head?_cons hat
  · exact absurd List.head?_cons hopen
  · rfl

/-- A code that is read as a compute statement begins with neither, and is read as
one from its parts. -/
theorem head?_of_parseCode {code : List Char} {fields : Compute}
    (h : Statement.parseCode code = .ok (.compute fields)) :
    code.head? ≠ some '@' ∧ code.head? ≠ some '(' ∧ parseCompute code = .ok fields := by
  unfold Statement.parseCode at h
  split at h
  · next operand =>
    cases hread : Operand.parse (Text.trim operand) with
    | error fault => rw [hread] at h; cases h
    | ok found => rw [hread] at h; cases h
  · next rest =>
    cases hread : labelName? rest with
    | none => rw [hread] at h; cases h
    | some name => rw [hread] at h; cases h
  · next hat hopen =>
    refine ⟨fun hhead => ?_, fun hhead => ?_, ?_⟩
    · obtain ⟨rest, hcode⟩ := List.head?_eq_some_iff.mp hhead
      exact hat rest hcode
    · obtain ⟨rest, hcode⟩ := List.head?_eq_some_iff.mp hhead
      exact hopen rest hcode
    · cases hread : parseCompute code with
      | error fault => rw [hread] at h; cases h
      | ok found => rw [hread] at h; cases h; rfl

/-- A line without a double slash is read from its code. -/
theorem parseLine_of_uncommented {line : List Char} (h : ¬['/', '/'] <:+: line)
    (hcode : Text.trim line ≠ []) :
    Statement.parseLine line = (Statement.parseCode (Text.trim line)).map some := by
  have hsplit := splitAtComment_of_uncommented h
  have hsome : (Text.trim line).isEmpty = false := List.isEmpty_eq_false_iff.mpr hcode
  simp only [Statement.parseLine, splitComment, hsplit, hsome, Bool.false_eq_true, if_false]

/-- A compute statement without blanks is read from its parts, and stays a code
that computes when blanks are inserted. -/
theorem parseLine_of_spread {text line : List Char} {fields : Compute}
    (hblank : ∀ c ∈ text, Text.isBlank c = false) (hcomment : ¬['/', '/'] <:+: text)
    (hread : Statement.parseLine text = .ok (some (.compute fields)))
    (hspread : Text.Spread text line) :
    parseCompute text = .ok fields ∧ Text.squeeze (Text.trim line) = text ∧
      Statement.parseLine line =
        (parseCompute (Text.trim line)).map fun found => some (.compute found) := by
  have htrim : Text.trim text = text := Text.trim_of_not_isBlank hblank
  have hsqueeze : Text.squeeze line = text := by
    rw [hspread.squeeze_eq, Text.squeeze_of_not_isBlank hblank]
  -- A double slash of the line would stay one without the blanks.
  have hline : ¬['/', '/'] <:+: line := by
    rintro ⟨front, back, rfl⟩
    apply hcomment
    rw [← hsqueeze, Text.squeeze_append, Text.squeeze_append]
    exact ⟨_, _, rfl⟩
  have hsome : text ≠ [] := by
    rintro rfl
    cases hread
  have hcode : Statement.parseCode text = .ok (.compute fields) := by
    rw [parseLine_of_uncommented hcomment (by rw [htrim]; exact hsome), htrim] at hread
    cases hfound : Statement.parseCode text with
    | error fault => rw [hfound] at hread; cases hread
    | ok statement => rw [hfound] at hread; cases hread; rfl
  obtain ⟨hat, hopen, hparts⟩ := head?_of_parseCode hcode
  have hhead : (Text.trim line).head? = text.head? := by
    rw [← Text.head?_squeeze, hsqueeze]
  have hkept : Text.trim line ≠ [] := by
    intro hnil
    rw [hnil, List.head?_nil] at hhead
    exact hsome (List.head?_eq_none_iff.mp hhead.symm)
  refine ⟨hparts, by rw [Text.squeeze_trim, hsqueeze], ?_⟩
  rw [parseLine_of_uncommented hline hkept,
    parseCode_of_head? (by rw [hhead]; exact hat) (by rw [hhead]; exact hopen)]
  cases parseCompute (Text.trim line) <;> rfl

/-- Take a text without blanks and comments that is read as a compute statement,
and a line that comes from it by inserting blanks anywhere. The line is read as
the same statement exactly if no blank stands between two letters of the
destination or of the jump. Otherwise it is refused, for the destination if that
one is torn apart, else for the jump. -/
theorem spread_statement_read_iff {text line : List Char} {fields : Compute}
    (hblank : ∀ c ∈ text, Text.isBlank c = false) (hcomment : ¬['/', '/'] <:+: text)
    (hread : Statement.parseLine text = .ok (some (.compute fields)))
    (hspread : Text.Spread text line) :
    (Statement.parseLine line = Statement.parseLine text ↔
      ¬Text.HasGap (destPart (Text.trim line)) ∧ ¬Text.HasGap (jumpPart (Text.trim line))) ∧
    (Text.HasGap (destPart (Text.trim line)) →
      Statement.parseLine line =
        .error (.unknownDestination (String.ofList (Text.trim (destPart (Text.trim line)))))) ∧
    (¬Text.HasGap (destPart (Text.trim line)) → Text.HasGap (jumpPart (Text.trim line)) →
      Statement.parseLine line =
        .error (.unknownJump (String.ofList (Text.trim (jumpPart (Text.trim line)))))) := by
  obtain ⟨hcompute, hsqueeze, hline⟩ := parseLine_of_spread hblank hcomment hread hspread
  obtain ⟨hdestPart, hcompPart, hjumpPart⟩ := parts_squeeze (Text.trim line)
  have hparts : readParts (Text.squeeze (destPart (Text.trim line)))
      (Text.squeeze (compPart (Text.trim line))) (Text.squeeze (jumpPart (Text.trim line))) =
        .ok fields := by
    rw [← hsqueeze, parseCompute_eq, hdestPart, hcompPart, hjumpPart] at hcompute
    simpa only [Text.trim_squeeze] using hcompute
  rw [parseCompute_eq] at hline
  have hdestGap (hgap : Text.HasGap (destPart (Text.trim line))) :
      Statement.parseLine line =
        .error (.unknownDestination (String.ofList (Text.trim (destPart (Text.trim line))))) := by
    rw [hline, readParts_of_hasGap_dest _ _ hgap]
    rfl
  have hjumpGap (hdest : ¬Text.HasGap (destPart (Text.trim line)))
      (hgap : Text.HasGap (jumpPart (Text.trim line))) :
      Statement.parseLine line =
        .error (.unknownJump (String.ofList (Text.trim (jumpPart (Text.trim line))))) := by
    rw [hline, readParts_of_hasGap_jump hparts hdest hgap]
    rfl
  refine ⟨⟨fun hsame => ?_, fun hnone => ?_⟩, hdestGap, hjumpGap⟩
  · rw [hread] at hsame
    have hdest : ¬Text.HasGap (destPart (Text.trim line)) := by
      intro hgap
      rw [hdestGap hgap] at hsame
      cases hsame
    refine ⟨hdest, fun hgap => ?_⟩
    rw [hjumpGap hdest hgap] at hsame
    cases hsame
  · rw [hline, readParts_of_not_hasGap hparts hnone.1 hnone.2, hread]
    rfl

/-- A statement with blanks of several kinds around its parts and inside its
computation. -/
def sampleSpread : List Char := "\tAMD = D\u3000|\u00a0M ;JLE ".toList

/-- The sample is read as it is without blanks. With a blank in its jump it is not. -/
theorem sampleSpread_read :
    Statement.parseLine sampleSpread = Statement.parseLine "AMD=D|M;JLE".toList ∧
    ¬Text.HasGap (destPart (Text.trim sampleSpread)) ∧
    ¬Text.HasGap (jumpPart (Text.trim sampleSpread)) ∧
    Statement.parseLine "AMD=D|M; J LE".toList = .error (.unknownJump "J LE") := by
  have hread : Statement.parseLine "AMD=D|M;JLE".toList =
      .ok (some (.compute ⟨⟨true, true, true⟩, .dOrM, some .le⟩)) := by decide +kernel
  have hsample : Text.squeeze sampleSpread = "AMD=D|M;JLE".toList := by decide +kernel
  have htorn : Text.squeeze "AMD=D|M; J LE".toList = "AMD=D|M;JLE".toList := by decide +kernel
  have hblank : ∀ c ∈ "AMD=D|M;JLE".toList, Text.isBlank c = false := by
    rw [← hsample]
    exact fun c => Text.not_isBlank_of_mem_squeeze
  have hcomment : ¬['/', '/'] <:+: "AMD=D|M;JLE".toList := by
    intro hinside
    have hslash := hinside.subset List.mem_cons_self
    exact absurd hslash (by decide)
  have hspread : Text.Spread "AMD=D|M;JLE".toList sampleSpread := by
    rw [← hsample]
    exact Text.spread_squeeze sampleSpread
  have hspreadTorn : Text.Spread "AMD=D|M;JLE".toList "AMD=D|M; J LE".toList := by
    rw [← htorn]
    exact Text.spread_squeeze _
  have hsame : Statement.parseLine sampleSpread = Statement.parseLine "AMD=D|M;JLE".toList := by
    decide +kernel
  have hwhole := (spread_statement_read_iff hblank hcomment hread hspread).1.mp hsame
  have hdest : ¬Text.HasGap (destPart (Text.trim "AMD=D|M; J LE".toList)) := by decide +kernel
  have hgap : Text.HasGap (jumpPart (Text.trim "AMD=D|M; J LE".toList)) := by decide +kernel
  have hrefused := (spread_statement_read_iff hblank hcomment hread hspreadTorn).2.2 hdest hgap
  exact ⟨hsame, hwhole.1, hwhole.2, hrefused⟩

/-- Blanks between the letters of a destination, and inside a jump, change what is
read. -/
theorem blanks_between_letters_refused :
    (Text.Spread "AM=1".toList "A M=1".toList ∧
      Statement.parseLine "AM=1".toList =
        .ok (some (.compute ⟨.toAM, .one, none⟩)) ∧
      Statement.parseLine "A M=1".toList = .error (.unknownDestination "A M")) ∧
    (Text.Spread "0;JMP".toList "0;J MP".toList ∧
      Statement.parseLine "0;JMP".toList =
        .ok (some (.compute ⟨.nowhere, .zero, some .always⟩)) ∧
      Statement.parseLine "0;J MP".toList = .error (.unknownJump "J MP")) := by
  refine ⟨⟨?_, by decide +kernel, by decide +kernel⟩, ?_, by decide +kernel, by decide +kernel⟩
  · exact .keep 'A' (.insert (by decide) (.keep 'M' (.keep '=' (.keep '1' .nil))))
  · exact .keep '0' (.keep ';' (.keep 'J' (.insert (by decide) (.keep 'M' (.keep 'P' .nil)))))

end Assembly

end HK16
