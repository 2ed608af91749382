/-!
# Terminal colours

Coloured text is text between escape sequences. A colour and the bold weight
are switched off separately, so that a nested piece of text can change one of
them and keep the other. Widths count every character, the escape characters
included.
-/

namespace HK16.Text

/-- The colours in use. -/
inductive Colour
  | red
  | green
  | yellow
  | blue
  | cyan
  deriving Repr, DecidableEq

/-- The escape sequence that switches a colour on. -/
def Colour.on : Colour → String
  | .red => "\x1b[31m"
  | .green => "\x1b[32m"
  | .yellow => "\x1b[33m"
  | .blue => "\x1b[34m"
  | .cyan => "\x1b[36m"

/-- The escape sequence that returns to the default colour. -/
def colourOff : String := "\x1b[39m"

/-- A text in one colour. -/
def paint (colour : Colour) (text : String) : String := colour.on ++ text ++ colourOff

/-- A bold text in one colour. -/
def paintBold (colour : Colour) (text : String) : String :=
  colour.on ++ "\x1b[1m" ++ text ++ colourOff ++ "\x1b[22m"

/-- An underlined text. -/
def underline (text : String) : String := "\x1b[4m" ++ text ++ "\x1b[24m"

/-- The text, with blanks behind it up to the given number of characters. -/
def padRight (width : Nat) (text : String) : String :=
  text ++ String.ofList (List.replicate (width - text.length) ' ')

/-- The text, with blanks in front of it up to the given number of characters. -/
def padLeft (width : Nat) (text : String) : String :=
  String.ofList (List.replicate (width - text.length) ' ') ++ text

end HK16.Text
