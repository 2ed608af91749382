import HK16.Machine.Fault
import HK16.Text.Blank
import HK16.Text.Lines

/-!
# Memory images

An image holds one word a line, as sixteen binary digits. Blanks around a word
and empty lines are ignored.
-/

namespace HK16.Machine

/-- The word of one line of an image; `none` for an empty line. -/
def imageLine (number : Nat) (line : List Char) : Except Fault (Option Word) :=
  let text := Text.trim line
  if text.isEmpty then .ok none
  else
    match Word.ofBinary? text with
    | some word => .ok (some word)
    | none => .error (.notBinaryWord number (String.ofList text))

/-- Read the lines of an image from the given line number on. `done` holds the
words read so far, the last one first. -/
def readImageFrom (number : Nat) (done : List Word) : List String → Except Fault (List Word)
  | [] => .ok done.reverse
  | line :: lines =>
    match imageLine number line.toList with
    | .error fault => .error fault
    | .ok none => readImageFrom (number + 1) done lines
    | .ok (some word) => readImageFrom (number + 1) (word :: done) lines

/-- Read the words of an image. The first line that is no word is the fault. -/
def readImage (text : String) : Except Fault (List Word) := readImageFrom 1 [] (Text.lines text)

end HK16.Machine
