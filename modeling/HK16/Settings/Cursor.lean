/-!
# Places in settings texts

A place counts bytes, lines and the characters of its line. Five characters end
a line, and a carriage return in front of a line feed belongs to it. A line that
starts with three dashes or three dots, followed by a blank or by nothing, marks
the start or the end of a document.
-/

namespace HK16.Settings

/-- Whether a character may occur in a settings text. Controls may not, except
for the tab and the ends of lines. -/
def isAllowed (c : Char) : Bool :=
  let n := c.toNat
  n == 0x09 || n == 0x0A || n == 0x0D || (0x20 ≤ n && n ≤ 0x7E) || n == 0x85 ||
    (0xA0 ≤ n && n ≤ 0xFFFD) || 0x10000 ≤ n

/-- Whether a character ends a line. -/
def isBreak (c : Char) : Bool :=
  let n := c.toNat
  n == 0x0A || n == 0x0D || n == 0x85 || n == 0x2028 || n == 0x2029

/-- Whether a character is a space or a tab. -/
def isSpacing (c : Char) : Bool := c == ' ' || c == '\t'

/-- Whether a character may occur in a name of the settings format. -/
def isWordChar (c : Char) : Bool :=
  c.isDigit || ('a' ≤ c && c ≤ 'z') || ('A' ≤ c && c ≤ 'Z') || c == '_' || c == '-'

/-- Whether a word ends in front of this text. -/
def endsWord : List Char → Bool
  | [] => true
  | c :: _ => isSpacing c || isBreak c

/-- Whether a line ends in front of this text. -/
def endsLine : List Char → Bool
  | [] => true
  | c :: _ => isBreak c

/-- Whether a carriage return stands in front of a line feed. -/
def isPaired (c : Char) (text : List Char) : Bool := c == '\r' && text.head? == some '\n'

/-- A place in a text. -/
structure Place where
  /-- The number of bytes in front of the place, in UTF-8. -/
  index : Nat
  /-- The number of lines in front of the place's line. -/
  line : Nat
  /-- The number of characters in front of the place on its line. -/
  column : Nat

namespace Place

/-- The beginning of a text. -/
def start : Place := ⟨0, 0, 0⟩

/-- The place behind a character, which the given text follows. -/
def after (place : Place) (c : Char) (text : List Char) : Place :=
  let index := place.index + c.utf8Size
  if isPaired c text then { place with index := index }
  else if isBreak c then ⟨index, place.line + 1, 0⟩
  else { place with index := index, column := place.column + 1 }

end Place

/-- A place and the text that follows it. -/
structure Cursor where
  /-- The place. -/
  place : Place
  /-- What follows. -/
  rest : List Char

namespace Cursor

/-- Go on behind the next characters. -/
def skip (cursor : Cursor) : Nat → Cursor
  | 0 => cursor
  | n + 1 =>
    match cursor.rest with
    | [] => cursor
    | c :: text => skip ⟨cursor.place.after c text, text⟩ n

/-- Divide a text behind the characters that meet a condition. `done` holds
those so far, the last one first. -/
def spanFrom (holds : Char → Bool) (done : List Char) (place : Place) :
    List Char → List Char × Cursor
  | [] => (done.reverse, ⟨place, []⟩)
  | c :: text =>
    if holds c then spanFrom holds (c :: done) (place.after c text) text
    else (done.reverse, ⟨place, c :: text⟩)

/-- The characters from here that meet a condition, and the place behind them. -/
def span (holds : Char → Bool) (cursor : Cursor) : List Char × Cursor :=
  spanFrom holds [] cursor.place cursor.rest

/-- Skip spaces and tabs. -/
def skipSpacing (cursor : Cursor) : Cursor := (cursor.span isSpacing).2

/-- Skip the end of a line, if one is here. -/
def skipBreak (cursor : Cursor) : Cursor :=
  match cursor.rest with
  | c :: text => if isBreak c then cursor.skip (if isPaired c text then 2 else 1) else cursor
  | [] => cursor

/-- Skip spacing, a comment and the end of the line; `none` if something else
stands on the line. -/
def finishLine (cursor : Cursor) : Option Cursor :=
  let cursor := cursor.skipSpacing
  let cursor := match cursor.rest with
    | '#' :: _ => (cursor.span fun c => !isBreak c).2
    | _ => cursor
  if endsLine cursor.rest then some cursor.skipBreak else none

end Cursor

/-- Whether a text starts with three times the mark, as a word. -/
def startsMark (mark : Char) : List Char → Bool
  | a :: b :: c :: text => a == mark && b == mark && c == mark && endsWord text
  | _ => false

/-- Whether a document starts or ends here. -/
def atDocumentMark (place : Place) (text : List Char) : Bool :=
  place.column == 0 && (startsMark '-' text || startsMark '.' text)

end HK16.Settings
