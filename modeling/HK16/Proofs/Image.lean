import HK16.Console.Assemble
import HK16.Machine.Image
import HK16.Proofs.Printing

/-!
# Images are read back

An image is written as one line of sixteen binary digits for each word. Its
lines are found again in the text, and each of them is read as its word. Images
that were not written this way, with blanks, empty lines or a plus sign, are not
covered.
-/

namespace HK16

/-! ## Lines -/

namespace Text

/-- The text of lines is the letters of each, followed by a line feed. -/
theorem toList_unlines (lines : List String) :
    (unlines lines).toList = lines.flatMap fun line => line.toList ++ ['\n'] := by
  have hfold (text : String) : (lines.foldl (fun text line => text ++ line ++ "\n") text).toList =
      text.toList ++ lines.flatMap fun line => line.toList ++ ['\n'] := by
    induction lines generalizing text with
    | nil => exact (List.append_nil _).symm
    | cons line lines ih =>
      have hfeed : "\n".toList = ['\n'] := rfl
      rw [List.foldl_cons, ih, String.toList_append, String.toList_append, hfeed,
        List.flatMap_cons, List.append_assoc, List.append_assoc, List.append_assoc]
  exact hfold ""

/-- A line without carriage returns is closed as it is. -/
theorem closeLine_of_notMem {line : List Char} (h : '\r' ∉ line) :
    closeLine line.reverse = String.ofList line := by
  rw [closeLine, List.reverse_reverse]
  intro rest hrest
  apply h
  rw [← List.mem_reverse, hrest]
  exact List.mem_cons_self

/-- Letters other than the line feed belong to the line that is being read. -/
theorem linesFrom_append {letters : List Char} (line : List Char) (done : Array String)
    (rest : List Char) (h : '\n' ∉ letters) :
    linesFrom line done (letters ++ rest) = linesFrom (letters.reverse ++ line) done rest := by
  induction letters generalizing line with
  | nil => rfl
  | cons c letters ih =>
    rw [List.mem_cons, not_or] at h
    rw [List.cons_append, linesFrom, ih (c :: line) h.2, List.reverse_cons, List.append_assoc,
      List.singleton_append]
    exact fun hc => absurd hc.symm h.1

/-- Lines without blanks are found again in their text. -/
theorem lines_unlines {lines : List String}
    (h : ∀ line ∈ lines, ∀ c ∈ line.toList, isBlank c = false) :
    Text.lines (unlines lines) = lines := by
  have hfrom (done : Array String) :
      linesFrom [] done (lines.flatMap fun line => line.toList ++ ['\n']) =
        done ++ lines.toArray := by
    induction lines generalizing done with
    | nil => simp [linesFrom]
    | cons line lines ih =>
      rw [List.forall_mem_cons] at h
      have hfeed : '\n' ∉ line.toList := fun hc => absurd (h.1 _ hc) (by decide)
      have hreturn : '\r' ∉ line.toList := fun hc => absurd (h.1 _ hc) (by decide)
      rw [List.flatMap_cons, List.append_assoc, linesFrom_append _ _ _ hfeed, List.append_nil,
        List.singleton_append, linesFrom, closeLine_of_notMem hreturn, String.ofList_toList,
        ih h.2]
      simp
  rw [Text.lines, toList_unlines, hfrom]
  simp

end Text

/-- Code that can be written is found again in its text, one statement a line. -/
theorem Assembly.lines_unlines_text {code : List Statement}
    (h : ∀ statement ∈ code, statement.IsWritable) :
    Text.lines (Text.unlines (code.map Statement.text)) = code.map Statement.text := by
  apply Text.lines_unlines
  rw [List.forall_mem_map]
  exact fun statement hmem c hc => (free_of_mem_text (h statement hmem) c hc).1

/-! ## Words -/

namespace Word

/-- Continue a word by a binary digit. -/
def addDigit (word : Word) (c : Char) : Word := word <<< 1 ||| (if c = '1' then 1 else 0)

/-- The next digit of a word, read behind the digits in front of it. -/
theorem addDigit_shift (word : Word) {k : Nat} (h : k < 16) :
    addDigit (word >>> (16 - k)) (bitDigit (word.getMsbD k)) = word >>> (16 - (k + 1)) := by
  have hbit : word.getMsbD k = word.getLsbD (15 - k) := by
    simp [BitVec.getMsbD, h]
  have hdigit : (if bitDigit (word.getMsbD k) = '1' then (1 : Word) else 0) =
      if word.getLsbD (15 - k) then 1 else 0 := by
    rw [hbit]
    cases word.getLsbD (15 - k) <;> rfl
  have hshift : 16 - k = 15 - k + 1 := by omega
  apply BitVec.eq_of_getLsbD_eq
  intro i hi
  rw [addDigit, hdigit, BitVec.getLsbD_or, BitVec.getLsbD_shiftLeft, BitVec.getLsbD_ushiftRight,
    BitVec.getLsbD_ushiftRight, hshift]
  cases i with
  | zero => cases hw : word.getLsbD (15 - k) <;> simp [hw]
  | succ i =>
    have hone : (if word.getLsbD (15 - k) then (1 : Word) else 0).getLsbD (i + 1) = false := by
      cases word.getLsbD (15 - k) <;> simp
    have hindex : 15 - k + 1 + i = 16 - (k + 1) + (i + 1) := by omega
    rw [hone, Bool.or_false]
    simp [hindex, hi]

/-- The highest digits of a word, read as a number, are the word without its
lower bits. -/
theorem foldl_addDigit (word : Word) {k : Nat} (h : k ≤ 16) :
    ((List.range k).map fun i => bitDigit (word.getMsbD i)).foldl addDigit 0 =
      word >>> (16 - k) := by
  induction k with
  | zero =>
    apply BitVec.eq_of_getLsbD_eq
    intro i hi
    simp
  | succ k ih =>
    rw [List.range_succ, List.map_append, List.foldl_append, ih (by omega)]
    exact addDigit_shift word h

/-- The digits of a word are zeros and ones. -/
theorem mem_binary {word : Word} {c : Char} (h : c ∈ word.binary.toList) : c = '0' ∨ c = '1' := by
  rw [binary, String.toList_ofList, List.mem_map] at h
  obtain ⟨i, -, rfl⟩ := h
  cases word.getMsbD i with
  | false => exact .inl rfl
  | true => exact .inr rfl

theorem not_isBlank_of_mem_binary {word : Word} {c : Char} (h : c ∈ word.binary.toList) :
    Text.isBlank c = false := by
  rcases mem_binary h with rfl | rfl <;> rfl

/-- The digits of a word are read as that word. -/
theorem ofBinary?_binary (word : Word) : ofBinary? word.binary.toList = some word := by
  have hsign : withoutPlus word.binary.toList = word.binary.toList := by
    rw [withoutPlus]
    intro rest hrest
    have hplus : '+' ∈ word.binary.toList := by
      rw [hrest]
      exact List.mem_cons_self
    exact absurd (mem_binary hplus) (by decide)
  have hlength : word.binary.toList.length = 16 := by simp [binary]
  have hdigits : word.binary.toList.all (fun c => c == '0' || c == '1') = true := by
    rw [List.all_eq_true]
    intro c hc
    simpa using mem_binary hc
  have hfold : word.binary.toList.foldl addDigit 0 = word := by
    rw [binary, String.toList_ofList, foldl_addDigit word (by omega)]
    exact BitVec.ushiftRight_zero word
  rw [ofBinary?, hsign, if_pos ⟨hlength, hdigits⟩]
  exact congrArg some hfold

end Word

end HK16
