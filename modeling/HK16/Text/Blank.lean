/-!
# Blank characters and words

Source text is cut at the characters that carry the Unicode property
White_Space. Trimming removes them at both ends, `squeeze` removes them
everywhere, and `words` keeps the runs between them. The zero width space, the
byte order mark and the four information separators are not blank.
-/

namespace HK16.Text

/-- Whether the character has the Unicode property White_Space. -/
def isBlank (c : Char) : Bool :=
  let n := c.toNat
  (0x9 ≤ n && n ≤ 0xD) || n == 0x20 || n == 0x85 || n == 0xA0 || n == 0x1680 ||
    (0x2000 ≤ n && n ≤ 0x200A) || n == 0x2028 || n == 0x2029 || n == 0x202F ||
    n == 0x205F || n == 0x3000

/-- The text without the blanks in front of it. -/
def trimStart (text : List Char) : List Char := text.dropWhile isBlank

/-- The text without the blanks behind it. -/
def trimEnd (text : List Char) : List Char := (text.reverse.dropWhile isBlank).reverse

/-- The text without the blanks at either end. -/
def trim (text : List Char) : List Char := trimEnd (trimStart text)

/-- The text without any blank. -/
def squeeze (text : List Char) : List Char := text.filter (! isBlank ·)

/-- Collect the words of a text. The second argument holds the letters of the
word that is being read, last letter first. -/
def wordsFrom : List Char → List Char → List (List Char)
  | [], word => if word.isEmpty then [] else [word.reverse]
  | c :: text, word =>
    if isBlank c then
      if word.isEmpty then wordsFrom text [] else word.reverse :: wordsFrom text []
    else wordsFrom text (c :: word)

/-- The maximal runs of characters that are not blank, in order. -/
def words (text : List Char) : List (List Char) := wordsFrom text []

/-- A text without blanks in front is its own trimmed start. -/
theorem trimStart_cons_of_not_blank {c : Char} (text : List Char) (h : isBlank c = false) :
    trimStart (c :: text) = c :: text := by
  simp [trimStart, h]

/-- Squeezing twice is squeezing once. -/
theorem squeeze_squeeze (text : List Char) : squeeze (squeeze text) = squeeze text := by
  simp [squeeze, List.filter_filter]

/-- A squeezed text holds no blank. -/
theorem not_isBlank_of_mem_squeeze {c : Char} {text : List Char} (h : c ∈ squeeze text) :
    isBlank c = false := by
  simpa [squeeze] using (List.mem_filter.mp h).2

end HK16.Text
