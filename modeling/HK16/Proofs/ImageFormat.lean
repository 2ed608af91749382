import HK16.Proofs.Image
import Mathlib.Algebra.Order.Ring.Nat

/-!
# Which texts are images

An image is read if every line that is not blank holds a word between its
blanks. A word is sixteen binary digits, and the reader also takes a plus sign in
the place of the first of them. The fault of any other text names its first line
that holds something else. Whether the words are instructions does not matter
here.
-/

namespace HK16

namespace Word

/-- Whether the text is a row of so many binary digits. -/
def IsDigits (count : Nat) (text : List Char) : Prop :=
  text.length = count ∧ ∀ c ∈ text, c = '0' ∨ c = '1'

/-- Whether the text is taken for a word: sixteen binary digits, or a plus sign in
front of fifteen. -/
def IsText (text : List Char) : Prop :=
  IsDigits 16 text ∨ ∃ digits, text = '+' :: digits ∧ IsDigits 15 digits

/-- The number that binary digits denote, the highest first, without regard to a
plus sign in front of them. -/
def textValue (text : List Char) : Nat := Nat.ofDigitChars 2 (withoutPlus text) 0

theorem withoutPlus_of_ne {c : Char} (rest : List Char) (h : c ≠ '+') :
    withoutPlus (c :: rest) = c :: rest := by
  rw [withoutPlus]
  intro digits heq
  exact h (List.cons.inj heq).1

/-- At most one character is dropped, so no more digits are left than characters. -/
theorem length_withoutPlus_le (text : List Char) : (withoutPlus text).length ≤ text.length := by
  unfold withoutPlus
  split
  · rw [List.length_cons]
    omega
  · exact Nat.le_refl _

theorem not_isDigits_plus (count : Nat) (rest : List Char) : ¬IsDigits count ('+' :: rest) := by
  rintro ⟨-, hdigits⟩
  have hplus := hdigits '+' List.mem_cons_self
  revert hplus
  decide

/-- Without a plus sign in front, only sixteen digits are taken. -/
theorem isText_iff_isDigits {text : List Char} (h : text.head? ≠ some '+') :
    IsText text ↔ IsDigits 16 text := by
  refine ⟨fun htext => htext.resolve_right ?_, .inl⟩
  rintro ⟨digits, rfl, -⟩
  exact h List.head?_cons

/-- The test of the reader: sixteen characters, and digits behind the plus sign. -/
theorem isText_iff (text : List Char) :
    IsText text ↔
      text.length = 16 ∧ (withoutPlus text).all (fun c => c == '0' || c == '1') = true := by
  have hall (digits : List Char) : digits.all (fun c => c == '0' || c == '1') = true ↔
      ∀ c ∈ digits, c = '0' ∨ c = '1' := by
    simp only [List.all_eq_true, Bool.or_eq_true, beq_iff_eq]
  rw [hall]
  cases text with
  | nil => simp [IsText, IsDigits]
  | cons c rest =>
    by_cases hplus : c = '+'
    · subst hplus
      have hnot := not_isDigits_plus 16 rest
      have hplain : withoutPlus ('+' :: rest) = rest := rfl
      rw [hplain, IsText, or_iff_right hnot, List.length_cons]
      constructor
      · rintro ⟨digits, heq, hlength, hdigits⟩
        obtain rfl := (List.cons.inj heq).2
        exact ⟨by omega, hdigits⟩
      · rintro ⟨hlength, hdigits⟩
        exact ⟨rest, rfl, by omega, hdigits⟩
    · have hhead : (c :: rest).head? ≠ some '+' := by simpa using hplus
      rw [withoutPlus_of_ne rest hplus, isText_iff_isDigits hhead, IsDigits]

/-- A digit is added behind the digits of a word that leaves room for it. -/
theorem toNat_addDigit {word : Word} {c : Char} (hc : c = '0' ∨ c = '1')
    (hroom : word.toNat < 32768) :
    (addDigit word c).toNat = 2 * word.toNat + (c.toNat - '0'.toNat) := by
  have hbit : (if c = '1' then (1 : Word) else 0).toNat = c.toNat - '0'.toNat := by
    rcases hc with rfl | rfl <;> rfl
  have hsmall : c.toNat - '0'.toNat < 2 ^ 1 := by
    rcases hc with rfl | rfl <;> decide
  have hshift : word.toNat <<< 1 = 2 * word.toNat := by
    rw [Nat.shiftLeft_eq]
    omega
  have hkept : word.toNat <<< 1 % 2 ^ 16 = word.toNat <<< 1 := by
    rw [hshift]
    omega
  rw [addDigit, BitVec.toNat_or, BitVec.toNat_shiftLeft, hbit, hkept,
    ← Nat.shiftLeft_add_eq_or_of_lt hsmall, hshift]

/-- Reading digits behind a word computes the number they denote together, as long
as there is room for all of them. -/
theorem toNat_foldl_addDigit {digits : List Char} (hdigits : ∀ c ∈ digits, c = '0' ∨ c = '1')
    {word : Word} (hroom : (word.toNat + 1) * 2 ^ digits.length ≤ 65536) :
    (digits.foldl addDigit word).toNat = Nat.ofDigitChars 2 digits word.toNat := by
  induction digits generalizing word with
  | nil => rfl
  | cons c digits ih =>
    rw [List.forall_mem_cons] at hdigits
    rw [List.length_cons, pow_succ] at hroom
    have hpositive : 0 < 2 ^ digits.length := Nat.two_pow_pos digits.length
    have hhalf : (word.toNat + 1) * 2 ^ digits.length ≤ 32768 := by
      have hassoc := Nat.mul_assoc (word.toNat + 1) (2 ^ digits.length) 2
      omega
    have hword : word.toNat < 32768 := by
      have hle := Nat.le_mul_of_pos_right (word.toNat + 1) hpositive
      omega
    have hstep := toNat_addDigit hdigits.1 hword
    have hdigit : c.toNat - '0'.toNat ≤ 1 := by
      rcases hdigits.1 with rfl | rfl <;> decide
    have hnext : ((addDigit word c).toNat + 1) * 2 ^ digits.length ≤ 65536 := by
      have hbound : (addDigit word c).toNat + 1 ≤ 2 * (word.toNat + 1) := by omega
      have hscaled := Nat.mul_le_mul_right (2 ^ digits.length) hbound
      have hassoc := Nat.mul_assoc 2 (word.toNat + 1) (2 ^ digits.length)
      omega
    rw [List.foldl_cons, ih hdigits.2 hnext, hstep, Nat.ofDigitChars_cons]

/-- The word of a text is the number that its digits denote. -/
theorem ofBinary?_of_isText {text : List Char} (h : IsText text) :
    ∃ word, ofBinary? text = some word ∧ word.toNat = textValue text := by
  have htest := (isText_iff text).mp h
  refine ⟨(withoutPlus text).foldl addDigit 0, ?_, ?_⟩
  · rw [ofBinary?, if_pos htest]
    rfl
  · have hlength : (withoutPlus text).length ≤ 16 := by
      have hle := length_withoutPlus_le text
      omega
    have hdigits : ∀ c ∈ withoutPlus text, c = '0' ∨ c = '1' := by
      simpa only [List.all_eq_true, Bool.or_eq_true, beq_iff_eq] using htest.2
    have hpow := Nat.pow_le_pow_right (Nat.two_pos) hlength
    have hroom : ((0 : Word).toNat + 1) * 2 ^ (withoutPlus text).length ≤ 65536 := by
      have hzero : (0 : Word).toNat = 0 := rfl
      rw [hzero]
      omega
    exact toNat_foldl_addDigit hdigits hroom

/-- Nothing else is read as a word. -/
theorem ofBinary?_of_not_isText {text : List Char} (h : ¬IsText text) : ofBinary? text = none := by
  rw [isText_iff] at h
  rw [ofBinary?, if_neg h]

end Word

namespace Machine

/-- What stands on a line between the blanks at its ends. -/
def entry (line : String) : List Char := Text.trim line.toList

/-- The entries of lines, without the empty ones. -/
def entries (lines : List String) : List (List Char) :=
  (lines.map entry).filter fun text => !text.isEmpty

/-- Whether the line may stand in an image. -/
def IsImageLine (line : String) : Prop := entry line = [] ∨ Word.IsText (entry line)

theorem entries_cons_of_eq_nil {line : String} (lines : List String) (h : entry line = []) :
    entries (line :: lines) = entries lines := by
  simp [entries, h]

theorem entries_cons_of_ne_nil {line : String} (lines : List String) (h : entry line ≠ []) :
    entries (line :: lines) = entry line :: entries lines := by
  simp [entries, h]

/-- All lines may stand in an image exactly if all entries are words. -/
theorem forall_isImageLine_iff (lines : List String) :
    (∀ line ∈ lines, IsImageLine line) ↔ ∀ text ∈ entries lines, Word.IsText text := by
  induction lines with
  | nil => simp [entries]
  | cons line lines ih =>
    rw [List.forall_mem_cons, ih, IsImageLine]
    by_cases hempty : entry line = []
    · simp only [entries_cons_of_eq_nil lines hempty, hempty, true_or, true_and]
    · simp only [entries_cons_of_ne_nil lines hempty, List.forall_mem_cons, hempty, false_or]

/-! ## Lines -/

/-- A line without an entry adds nothing. -/
theorem imageLine_of_eq_nil {line : String} (number : Nat) (h : entry line = []) :
    imageLine number line.toList = .ok none := by
  have htrim : Text.trim line.toList = [] := h
  simp only [imageLine, htrim, List.isEmpty_nil, if_true]

/-- A line whose entry is a word adds that word. -/
theorem imageLine_of_isText {line : String} (number : Nat) (h : Word.IsText (entry line)) :
    ∃ word, imageLine number line.toList = .ok (some word) ∧
      word.toNat = Word.textValue (entry line) := by
  obtain ⟨word, hword, hvalue⟩ := Word.ofBinary?_of_isText h
  have hlength := ((Word.isText_iff _).mp h).1
  have hsome : (Text.trim line.toList).isEmpty = false := by
    rw [List.isEmpty_eq_false_iff]
    intro hnil
    rw [entry, hnil, List.length_nil] at hlength
    omega
  refine ⟨word, ?_, hvalue⟩
  rw [entry] at hword
  simp only [imageLine, hsome, hword, Bool.false_eq_true, if_false]

/-- Any other line is a fault that shows its number and its entry. -/
theorem imageLine_of_not {line : String} (number : Nat) (h : ¬IsImageLine line) :
    imageLine number line.toList =
      .error (.notBinaryWord number (String.ofList (entry line))) := by
  rw [IsImageLine, not_or] at h
  have hsome : (Text.trim line.toList).isEmpty = false := List.isEmpty_eq_false_iff.mpr h.1
  have hnone : Word.ofBinary? (Text.trim line.toList) = none := Word.ofBinary?_of_not_isText h.2
  simp only [imageLine, hsome, hnone, Bool.false_eq_true, if_false, entry]

/-! ## Whole images -/

/-- Lines that may all stand in an image are read as the values of their entries. -/
theorem readImageFrom_of_forall {lines : List String} (h : ∀ line ∈ lines, IsImageLine line)
    (number : Nat) (done : List Word) :
    ∃ words, readImageFrom number done lines = .ok (done.reverse ++ words) ∧
      words.map BitVec.toNat = (entries lines).map Word.textValue := by
  induction lines generalizing number done with
  | nil => exact ⟨[], by rw [List.append_nil]; rfl, rfl⟩
  | cons line lines ih =>
    rw [List.forall_mem_cons] at h
    by_cases hempty : entry line = []
    · obtain ⟨words, hread, hvalues⟩ := ih h.2 (number + 1) done
      refine ⟨words, ?_, ?_⟩
      · rw [readImageFrom, imageLine_of_eq_nil number hempty]
        exact hread
      · rw [entries_cons_of_eq_nil lines hempty, hvalues]
    · have htext := h.1.resolve_left hempty
      obtain ⟨word, hline, hvalue⟩ := imageLine_of_isText number htext
      obtain ⟨words, hread, hvalues⟩ := ih h.2 (number + 1) (word :: done)
      refine ⟨word :: words, ?_, ?_⟩
      · rw [readImageFrom, hline]
        dsimp only
        rw [hread, List.reverse_cons, List.append_assoc, List.singleton_append]
      · rw [entries_cons_of_ne_nil lines hempty, List.map_cons, List.map_cons, hvalue, hvalues]

/-- The first line that may not stand in an image ends the reading. -/
theorem readImageFrom_of_not {front : List String} {line : String}
    (hfront : ∀ earlier ∈ front, IsImageLine earlier) (hline : ¬IsImageLine line)
    (rest : List String) (number : Nat) (done : List Word) :
    readImageFrom number done (front ++ line :: rest) =
      .error (.notBinaryWord (number + front.length) (String.ofList (entry line))) := by
  induction front generalizing number done with
  | nil =>
    rw [List.nil_append, readImageFrom, imageLine_of_not number hline]
    rfl
  | cons first front ih =>
    rw [List.forall_mem_cons] at hfront
    have hnumber : number + 1 + front.length = number + (first :: front).length := by
      rw [List.length_cons]
      omega
    rw [List.cons_append, readImageFrom]
    rcases hfront.1 with hempty | htext
    · rw [imageLine_of_eq_nil number hempty]
      dsimp only
      rw [ih hfront.2, hnumber]
    · obtain ⟨word, hfirst, -⟩ := imageLine_of_isText number htext
      rw [hfirst]
      dsimp only
      rw [ih hfront.2, hnumber]

/-- If some line may not stand in an image, there is a first one. -/
theorem exists_first_of_not_forall {lines : List String}
    (h : ¬∀ line ∈ lines, IsImageLine line) :
    ∃ front line rest, lines = front ++ line :: rest ∧
      (∀ earlier ∈ front, IsImageLine earlier) ∧ ¬IsImageLine line := by
  induction lines with
  | nil => exact absurd (List.forall_mem_nil _) h
  | cons first lines ih =>
    rw [List.forall_mem_cons, not_and] at h
    by_cases hfirst : IsImageLine first
    · obtain ⟨front, line, rest, rfl, hfront, hline⟩ := ih (h hfirst)
      exact ⟨first :: front, line, rest, rfl, List.forall_mem_cons.mpr ⟨hfirst, hfront⟩, hline⟩
    · exact ⟨[], first, lines, rfl, List.forall_mem_nil _, hfirst⟩

/-- A text of lines that may stand in an image is read as the numbers of its entries. -/
theorem readImage_of_forall {text : String} (h : ∀ line ∈ Text.lines text, IsImageLine line) :
    ∃ words, readImage text = .ok words ∧
      words.map BitVec.toNat = (entries (Text.lines text)).map Word.textValue :=
  readImageFrom_of_forall h 1 []

/-- The fault of a text is the first line that may not stand in an image. -/
theorem readImage_eq_error_iff {text : String} {fault : Fault} :
    readImage text = .error fault ↔
      ∃ front line rest, Text.lines text = front ++ line :: rest ∧
        (∀ earlier ∈ front, IsImageLine earlier) ∧ ¬IsImageLine line ∧
        fault = .notBinaryWord (front.length + 1) (String.ofList (entry line)) := by
  have hbad {front : List String} {line : String} {rest : List String}
      (hlines : Text.lines text = front ++ line :: rest)
      (hfront : ∀ earlier ∈ front, IsImageLine earlier) (hline : ¬IsImageLine line) :
      readImage text =
        .error (.notBinaryWord (front.length + 1) (String.ofList (entry line))) := by
    rw [readImage, hlines, readImageFrom_of_not hfront hline, Nat.add_comm]
  constructor
  · intro h
    have hnot : ¬∀ line ∈ Text.lines text, IsImageLine line := by
      intro hall
      obtain ⟨words, hwords, -⟩ := readImage_of_forall hall
      rw [h] at hwords
      cases hwords
    obtain ⟨front, line, rest, hlines, hfront, hline⟩ := exists_first_of_not_forall hnot
    rw [hbad hlines hfront hline] at h
    exact ⟨front, line, rest, hlines, hfront, hline, (Except.error.inj h).symm⟩
  · rintro ⟨front, line, rest, hlines, hfront, hline, rfl⟩
    exact hbad hlines hfront hline

/-- Every line of a text that is read may stand in an image. -/
theorem forall_isImageLine_of_readImage {text : String} {words : List Word}
    (h : readImage text = .ok words) : ∀ line ∈ Text.lines text, IsImageLine line := by
  by_contra hnot
  obtain ⟨front, line, rest, hlines, hfront, hline⟩ := exists_first_of_not_forall hnot
  rw [readImage_eq_error_iff.mpr ⟨front, line, rest, hlines, hfront, hline, rfl⟩] at h
  cases h

/-- A text is read as an image exactly if every entry of its lines is sixteen
binary digits, or a plus sign and fifteen of them; the words are the numbers that
the digits denote, in order. Otherwise the fault has the number and the entry of
the first line that holds anything else. In a text without plus signs in front of
its entries the sixteen digits are all that is accepted. -/
theorem readImage_format (text : String) :
    ((∃ words, readImage text = .ok words) ↔
      ∀ found ∈ entries (Text.lines text), Word.IsText found) ∧
    (∀ words, readImage text = .ok words →
      words.map BitVec.toNat = (entries (Text.lines text)).map Word.textValue) ∧
    (∀ fault, readImage text = .error fault ↔
      ∃ front line rest, Text.lines text = front ++ line :: rest ∧
        (∀ earlier ∈ front, IsImageLine earlier) ∧ ¬IsImageLine line ∧
        fault = .notBinaryWord (front.length + 1) (String.ofList (entry line))) ∧
    ((∀ found ∈ entries (Text.lines text), found.head? ≠ some '+') →
      ((∃ words, readImage text = .ok words) ↔
        ∀ found ∈ entries (Text.lines text), Word.IsDigits 16 found)) := by
  have hsuccess : (∃ words, readImage text = .ok words) ↔
      ∀ found ∈ entries (Text.lines text), Word.IsText found := by
    rw [← forall_isImageLine_iff]
    constructor
    · rintro ⟨words, h⟩
      exact forall_isImageLine_of_readImage h
    · intro h
      obtain ⟨words, hwords, -⟩ := readImage_of_forall h
      exact ⟨words, hwords⟩
  refine ⟨hsuccess, fun words h => ?_, fun fault => readImage_eq_error_iff, fun hplain => ?_⟩
  · obtain ⟨found, hfound, hvalues⟩ := readImage_of_forall (forall_isImageLine_of_readImage h)
    rw [h] at hfound
    obtain rfl := Except.ok.inj hfound
    exact hvalues
  · rw [hsuccess]
    exact forall₂_congr fun found hfound => Word.isText_iff_isDigits (hplain found hfound)

/-- Words between blanks, an empty line, and another end of line. -/
def sampleText : String := "\t0000000000000010 \r\n\n1110110000010000"

/-- The sample is an image, and with `101` on the fifth line it is none. -/
theorem sampleText_format :
    readImage sampleText = .ok [0x0002#16, 0xEC10#16] ∧
    [2, 0xEC10] = (entries (Text.lines sampleText)).map Word.textValue ∧
    (∀ found ∈ entries (Text.lines sampleText), Word.IsDigits 16 found) ∧
    ∃ front line rest, Text.lines (sampleText ++ "\n\n 101 \n+") = front ++ line :: rest ∧
      (∀ earlier ∈ front, IsImageLine earlier) ∧ ¬IsImageLine line ∧
      Fault.notBinaryWord 5 "101" =
        .notBinaryWord (front.length + 1) (String.ofList (entry line)) := by
  have hread : readImage sampleText = .ok [0x0002#16, 0xEC10#16] := by decide +kernel
  have hfault : readImage (sampleText ++ "\n\n 101 \n+") = .error (.notBinaryWord 5 "101") := by
    decide +kernel
  have hentries : entries (Text.lines sampleText) =
      ["0000000000000010".toList, "1110110000010000".toList] := by decide +kernel
  have hplain : ∀ found ∈ entries (Text.lines sampleText), found.head? ≠ some '+' := by
    rw [hentries, List.forall_mem_cons, List.forall_mem_singleton]
    decide
  obtain ⟨-, hvalues, -, hdigits⟩ := readImage_format sampleText
  exact ⟨hread, hvalues _ hread, (hdigits hplain).mp ⟨_, hread⟩,
    ((readImage_format _).2.2.1 _).mp hfault⟩

/-- A plus sign takes the place of the first digit. -/
theorem plusSign_accepted :
    readImage "+000000000000001" = .ok [0x0001#16] ∧
    ¬∀ found ∈ entries (Text.lines "+000000000000001"), Word.IsDigits 16 found := by
  have hentries : entries (Text.lines "+000000000000001") = ['+' :: "000000000000001".toList] := by
    decide +kernel
  refine ⟨by decide +kernel, fun h => ?_⟩
  rw [hentries, List.forall_mem_singleton] at h
  exact Word.not_isDigits_plus _ _ h

end Machine

end HK16
