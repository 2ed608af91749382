/-!
# Lines of a text

A line ends at a line feed; one carriage return in front of that line feed
belongs to the line's end. What follows the last line feed is a line only if it
is not empty. `cut` and `cutAt` divide one line at a marker.
-/

namespace HK16.Text

/-- The letters of a finished line, held last letter first, in reading order and
without the carriage return of its end. -/
def closeLine : List Char → String
  | '\r' :: line => String.ofList line.reverse
  | line => String.ofList line.reverse

/-- Collect the lines of a text. `line` holds the letters of the line that is
being read, last letter first; `done` holds the finished lines. -/
def linesFrom (line : List Char) (done : Array String) : List Char → Array String
  | [] => if line.isEmpty then done else done.push (String.ofList line.reverse)
  | '\n' :: text => linesFrom [] (done.push (closeLine line)) text
  | c :: text => linesFrom (c :: line) done text

/-- The lines of a text, without their ends. -/
def lines (text : String) : List String := (linesFrom [] #[] text.toList).toList

/-- Every line followed by a line feed. -/
def unlines (lines : List String) : String := lines.foldl (fun text line => text ++ line ++ "\n") ""

/-- Cut a text at the first place where the character stands; the character
itself is dropped. `none` if it does not occur. -/
def cut (marker : Char) : List Char → Option (List Char × List Char)
  | [] => none
  | c :: text =>
    if c = marker then some ([], text)
    else (cut marker text).map fun (front, rest) => (c :: front, rest)

/-- A text with exactly one marker-free part in front of the marker is cut there. -/
theorem cut_append {marker : Char} {front : List Char} (rest : List Char)
    (h : marker ∉ front) : cut marker (front ++ marker :: rest) = some (front, rest) := by
  induction front with
  | nil => simp [cut]
  | cons c front ih =>
    have hc : c ≠ marker := fun e => h (by simp [e])
    have hf : marker ∉ front := fun m => h (by simp [m])
    simp [cut, hc, ih hf]

/-- A text is not cut exactly when the marker does not occur in it. -/
theorem cut_eq_none_iff {marker : Char} {text : List Char} :
    cut marker text = none ↔ marker ∉ text := by
  induction text with
  | nil => simp [cut]
  | cons c text ih =>
    by_cases h : c = marker
    · simp [cut, h]
    · have hm : ¬ marker = c := fun e => h e.symm
      simp [cut, h, hm, ih]

end HK16.Text
