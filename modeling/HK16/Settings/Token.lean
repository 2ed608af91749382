import HK16.Settings.Scalar

/-!
# Tokens of settings texts

The marks, names and scalars of which a settings text consists, and the reading
of names: anchors, tags and the directives in front of a document. A tag is
written with a handle, which stands for the beginning of the tag, or in full.
-/

namespace HK16.Settings

/-- A piece of a settings text. Collections of the indented style have no marks
of their own at their ends; their tokens come from the indentation. -/
inductive Token
  /-- The version that a document asks for. -/
  | version (major minor : Nat)
  /-- What a handle stands for in a document. -/
  | handle (name stem : List Char)
  /-- Three dashes. -/
  | documentStart
  /-- Three dots. -/
  | documentEnd
  /-- An indented list starts. -/
  | indentedList
  /-- An indented map starts. -/
  | indentedMap
  /-- An indented list or map ends. -/
  | dedent
  /-- The mark of an item of an indented list. -/
  | dash
  /-- An opening square bracket. -/
  | listOpen
  /-- A closing square bracket. -/
  | listClose
  /-- An opening brace. -/
  | mapOpen
  /-- A closing brace. -/
  | mapClose
  /-- A comma between brackets. -/
  | comma
  /-- A key follows. -/
  | key
  /-- A value follows. -/
  | value
  /-- A node that was named before. -/
  | reference (name : List Char)
  /-- The name of the node that follows. -/
  | anchor (name : List Char)
  /-- The tag of the node that follows, with the handle in front, which is empty
  for a tag in full. -/
  | tag (handle suffix : List Char)
  /-- A piece of text. -/
  | scalar (text : List Char) (style : Style)
  deriving DecidableEq

/-- Whether an anchor may end in front of this text. -/
def endsAnchor (text : List Char) : Bool :=
  endsWord text || text.head?.any fun c =>
    c == '?' || c == ':' || c == ',' || c == ']' || c == '\x7d' || c == '%' || c == '@' ||
      c.toNat == 96

/-- Read the name behind the mark of an anchor or a reference. -/
def anchorName (cursor : Cursor) : Option (List Char × Cursor) :=
  let (name, cursor) := (cursor.skip 1).span isWordChar
  if !name.isEmpty && endsAnchor cursor.rest then some (name, cursor) else none

/-- Whether a character may stand in a tag. Some may only stand in a tag in full
and in what a handle stands for. -/
def isTagChar (full : Bool) (c : Char) : Bool :=
  isWordChar c || c.toNat == 39 ||
    c == ';' || c == '/' || c == '?' || c == ':' || c == '@' || c == '&' || c == '=' || c == '+' ||
    c == '$' || c == '.' || c == '!' || c == '~' || c == '*' || c == '(' || c == ')' ||
    (full && (c == ',' || c == '[' || c == ']'))

/-- The number of octets that a first octet announces, itself included. -/
def octetCount? (octet : Nat) : Option Nat :=
  if octet < 0x80 then some 1
  else if octet / 0x20 = 0x6 then some 2
  else if octet / 0x10 = 0xE then some 3
  else if octet / 0x08 = 0x1E then some 4
  else none

/-- Read the characters of a tag. An octet is written with a percent sign and
two hexadecimal digits, and `left` octets of a character are still expected.
`done` holds what has been read, the last one first. -/
def tagFrom (full : Bool) (left : Nat) (done : List Char) (place : Place) :
    List Char → Option (List Char × Cursor)
  | [] => if left = 0 then some (done.reverse, ⟨place, []⟩) else none
  | '%' :: a :: b :: text =>
    match hexDigit? a, hexDigit? b with
    | some high, some low =>
      let octet := high * 16 + low
      let place := ((place.after '%' (a :: b :: text)).after a (b :: text)).after b text
      if left = 0 then
        match octetCount? octet with
        | some count => tagFrom full (count - 1) (Char.ofNat octet :: done) place text
        | none => none
      else if octet / 0x40 = 2 then tagFrom full (left - 1) (Char.ofNat octet :: done) place text
      else none
    | _, _ => none
  | c :: text =>
    if c = '%' ∨ 0 < left then none
    else if isTagChar full c then tagFrom full 0 (c :: done) (place.after c text) text
    else some (done.reverse, ⟨place, c :: text⟩)

/-- Read the characters of a tag. -/
def tagText (full : Bool) (cursor : Cursor) : Option (List Char × Cursor) :=
  tagFrom full 0 [] cursor.place cursor.rest

/-- What counts of the text of a tag: it ends at the first null character. -/
def tagValue (text : List Char) : List Char := text.takeWhile fun c => c.toNat ≠ 0

/-- Read a handle: an exclamation mark, a word, and a second exclamation mark if
it is there. -/
def handleName (cursor : Cursor) : Option (List Char × Cursor) :=
  match cursor.rest with
  | '!' :: _ =>
    let (word, cursor) := (cursor.skip 1).span isWordChar
    match cursor.rest with
    | '!' :: _ => some ('!' :: word ++ ['!'], cursor.skip 1)
    | _ => some ('!' :: word, cursor)
  | _ => none

/-- Read a tag in full, between angle brackets. -/
def fullTag (cursor : Cursor) : Option (Token × Cursor) := do
  let (text, cursor) ← tagText true (cursor.skip 2)
  if text.isEmpty || cursor.rest.head? ≠ some '>' then none
  else return (.tag [] (tagValue text), cursor.skip 1)

/-- Read a tag with a handle. If only one exclamation mark is there, it is the
handle, and what follows belongs to the tag; alone it is a tag of its own. -/
def shortTag (cursor : Cursor) : Option (Token × Cursor) := do
  let (name, cursor) ← handleName cursor
  let (text, cursor) ← tagText false cursor
  if 1 < name.length ∧ name.getLast? = some '!' then
    if text.isEmpty then none else return (.tag name (tagValue text), cursor)
  else
    let suffix := tagValue (name.drop 1 ++ text)
    return (if suffix.isEmpty then .tag [] ['!'] else .tag ['!'] suffix, cursor)

/-- Read a tag, behind which a word ends. -/
def readTag (flow : Bool) (cursor : Cursor) : Option (Token × Cursor) := do
  let (token, cursor) ← match cursor.rest with
    | _ :: '<' :: _ => fullTag cursor
    | _ => shortTag cursor
  if endsWord cursor.rest || (flow && cursor.rest.head? = some ',') then return (token, cursor)
  else none

/-- Read a number of a version, which has one to nine digits. -/
def versionNumber (cursor : Cursor) : Option (Nat × Cursor) :=
  let (digits, cursor) := cursor.span Char.isDigit
  if digits.isEmpty ∨ 9 < digits.length then none
  else some (digits.foldl (fun value c => value * 10 + (c.toNat - '0'.toNat)) 0, cursor)

/-- Read the version behind the name of its directive. -/
def versionDirective (cursor : Cursor) : Option (Token × Cursor) := do
  let (major, cursor) ← versionNumber cursor.skipSpacing
  if cursor.rest.head? ≠ some '.' then none
  else
    let (minor, cursor) ← versionNumber (cursor.skip 1)
    return (.version major minor, cursor)

/-- Read a handle and what it stands for behind the name of their directive. -/
def handleDirective (cursor : Cursor) : Option (Token × Cursor) := do
  let (name, cursor) ← handleName cursor.skipSpacing
  if name ≠ ['!'] ∧ name.getLast? ≠ some '!' then none
  else if !cursor.rest.head?.any isSpacing then none
  else
    let (stem, cursor) ← tagText true cursor.skipSpacing
    if stem.isEmpty || !endsWord cursor.rest then none
    else return (.handle name (tagValue stem), cursor)

/-- Read a directive, which has a line of its own. -/
def readDirective (cursor : Cursor) : Option (Token × Cursor) := do
  let (name, cursor) := (cursor.skip 1).span isWordChar
  if !endsWord cursor.rest then none
  else
    let (token, cursor) ← match String.ofList name with
      | "YAML" => versionDirective cursor
      | "TAG" => handleDirective cursor
      | _ => none
    return (token, ← cursor.finishLine)

end HK16.Settings
