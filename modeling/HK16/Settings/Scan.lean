import HK16.Settings.Token

/-!
# Scanning settings texts

A scan turns a text into tokens. Outside of brackets the indentation makes
tokens too: a collection starts where a mark stands further right than the
collection around it, and ends in front of a line that stands further left.

A key has no mark in front of it. Where one may start, its place is remembered
as a candidate, and a colon on the same line, at most 1024 bytes further,
makes it a key. A candidate at the column of the map around it must become one.
-/

namespace HK16.Settings

/-- A place where a key may have started. -/
structure Candidate where
  /-- Whether it must become a key. -/
  required : Bool
  /-- The number of tokens in front of it. -/
  position : Nat
  /-- The place. -/
  place : Place

namespace Candidate

/-- The greatest distance in bytes between the start of a key and its colon. -/
def reach : Nat := 1024

/-- Whether a colon at the given place comes too late. -/
def isStale (candidate : Candidate) (place : Place) : Bool :=
  candidate.place.line < place.line || candidate.place.index + reach < place.index

end Candidate

/-- The state of a scan. -/
structure Scan where
  /-- The rest of the text. -/
  cursor : Cursor
  /-- The tokens so far. -/
  tokens : Array Token
  /-- The column of the indented collection around, negative outside of any. -/
  indent : Int
  /-- The columns of the collections around that one, the innermost first. -/
  outer : List Int
  /-- The candidate between the innermost brackets. -/
  candidate : Option Candidate
  /-- The candidates between the brackets around those, the innermost first. -/
  enclosing : List (Option Candidate)
  /-- Whether a key may start here. -/
  keyAllowed : Bool

namespace Scan

/-- The beginning of a text. -/
def start (text : List Char) : Scan := ⟨⟨.start, text⟩, #[], -1, [], none, [], true⟩

/-- Whether the scan is between brackets. -/
def flow (scan : Scan) : Bool := !scan.enclosing.isEmpty

/-- Skip spaces, comments and ends of lines. Tabs are skipped too, except outside
of brackets where a key may start; the end of a line outside of brackets allows
one. A byte order mark may start a line. -/
def skipFrom (flow keyAllowed comment : Bool) (place : Place) : List Char → Bool × Cursor
  | [] => (keyAllowed, ⟨place, []⟩)
  | c :: text =>
    let next := place.after c text
    if isBreak c then skipFrom flow (keyAllowed || !flow) false next text
    else if comment then skipFrom flow keyAllowed true next text
    else if c == ' ' || (c == '\t' && (flow || !keyAllowed)) ||
        (place.column == 0 && c.toNat == 0xFEFF) then
      skipFrom flow keyAllowed false next text
    else if c == '#' then skipFrom flow keyAllowed true next text
    else (keyAllowed, ⟨place, c :: text⟩)

/-- Go on to the next token. -/
def skip (scan : Scan) : Scan :=
  let (keyAllowed, cursor) :=
    skipFrom scan.flow scan.keyAllowed false scan.cursor.place scan.cursor.rest
  { scan with cursor := cursor, keyAllowed := keyAllowed }

/-- Drop the candidate if it is stale; `none` if it had to become a key. Those
around brackets are looked at when the brackets are closed. -/
def dropStale (scan : Scan) : Option Scan :=
  match scan.candidate with
  | some found =>
    if !found.isStale scan.cursor.place then some scan
    else if found.required then none
    else some { scan with candidate := none }
  | none => some scan

/-- Drop the candidate; `none` if it had to become a key. -/
def dropCandidate (scan : Scan) : Option Scan :=
  if scan.candidate.any Candidate.required then none else some { scan with candidate := none }

/-- Remember this place as a candidate, if a key may start here. -/
def saveCandidate (scan : Scan) : Option Scan :=
  if scan.keyAllowed then
    let place := scan.cursor.place
    let required := !scan.flow && scan.indent == place.column
    scan.dropCandidate.map fun scan =>
      { scan with candidate := some ⟨required, scan.tokens.size, place⟩ }
  else some scan

/-- Add a token. -/
def push (scan : Scan) (token : Token) : Scan := { scan with tokens := scan.tokens.push token }

/-- Add a token and go on behind its characters. -/
def take (scan : Scan) (token : Token) (count : Nat) : Scan :=
  { scan.push token with cursor := scan.cursor.skip count }

/-- Start a collection at a column further right, with its token at the given
position. -/
def roll (scan : Scan) (column position : Nat) (token : Token) : Scan :=
  if !scan.flow && scan.indent < column then
    { scan with
      indent := column
      outer := scan.indent :: scan.outer
      tokens := scan.tokens.insertIdxIfInBounds position token }
  else scan

/-- End the collections that are further right than a column. -/
def unrollFrom (column : Int) (tokens : Array Token) (indent : Int) :
    List Int → Array Token × Int × List Int
  | [] => (tokens, indent, [])
  | next :: outer =>
    if column < indent then unrollFrom column (tokens.push .dedent) next outer
    else (tokens, indent, next :: outer)

/-- End the collections that are further right than a column. -/
def unroll (scan : Scan) (column : Int) : Scan :=
  if scan.flow then scan
  else
    let (tokens, indent, outer) := unrollFrom column scan.tokens scan.indent scan.outer
    { scan with tokens := tokens, indent := indent, outer := outer }

/-- Allow a key at the next token, or not. -/
def allowKey (scan : Scan) (allowed : Bool) : Scan := { scan with keyAllowed := allowed }

/-- Read the mark of a document's start or end. -/
def documentMark (scan : Scan) (token : Token) : Option Scan := do
  return ((← (scan.unroll (-1)).dropCandidate).allowKey false).take token 3

/-- Read a directive. -/
def directive (scan : Scan) : Option Scan := do
  let scan := (← (scan.unroll (-1)).dropCandidate).allowKey false
  let (token, cursor) ← readDirective scan.cursor
  return { scan.push token with cursor := cursor }

/-- Read an opening bracket. -/
def openBracket (scan : Scan) (token : Token) : Option Scan := do
  let scan ← scan.saveCandidate
  return ({ scan with
    candidate := none
    enclosing := scan.candidate :: scan.enclosing }.allowKey true).take token 1

/-- Read a closing bracket. -/
def closeBracket (scan : Scan) (token : Token) : Option Scan := do
  let scan ← scan.dropCandidate
  let scan := match scan.enclosing with
    | candidate :: enclosing => { scan with candidate := candidate, enclosing := enclosing }
    | [] => scan
  return (scan.allowKey false).take token 1

/-- Read a comma. -/
def comma (scan : Scan) : Option Scan := do
  return ((← scan.dropCandidate).allowKey true).take .comma 1

/-- Start a collection here, outside of brackets, where a key must be allowed. -/
def startHere (scan : Scan) (token : Token) : Option Scan :=
  if scan.flow then some scan
  else if scan.keyAllowed then some (scan.roll scan.cursor.place.column scan.tokens.size token)
  else none

/-- Read the mark of a list item. -/
def dash (scan : Scan) : Option Scan := do
  return ((← (← scan.startHere .indentedList).dropCandidate).allowKey true).take .dash 1

/-- Read the mark in front of a key. -/
def keyMark (scan : Scan) : Option Scan := do
  let scan ← (← scan.startHere .indentedMap).dropCandidate
  return (scan.allowKey !scan.flow).take .key 1

/-- Read the mark in front of a value, which makes the candidate a key. -/
def valueMark (scan : Scan) : Option Scan :=
  match scan.candidate with
  | some found =>
    let tokens := scan.tokens.insertIdxIfInBounds found.position .key
    let scan := { scan with tokens := tokens, candidate := none }
    some (((scan.roll found.place.column found.position .indentedMap).allowKey false).take .value 1)
  | none => do
    let scan ← scan.startHere .indentedMap
    return (scan.allowKey !scan.flow).take .value 1

/-- Read a name that starts a node. -/
def name (scan : Scan) (read : Cursor → Option (Token × Cursor)) : Option Scan := do
  let scan := (← scan.saveCandidate).allowKey false
  let (token, cursor) ← read scan.cursor
  return { scan.push token with cursor := cursor }

/-- Read an anchor or a reference. -/
def anchor (scan : Scan) (token : List Char → Token) : Option Scan :=
  scan.name fun cursor => (anchorName cursor).map fun (name, cursor) => (token name, cursor)

/-- Read a quoted scalar. -/
def quotedScalar (scan : Scan) (single : Bool) : Option Scan :=
  scan.name fun cursor => (quoted single cursor).map fun (text, cursor) =>
    (.scalar text (if single then .single else .double), cursor)

/-- Read a block, behind which a key may start. -/
def blockScalar (scan : Scan) (literal : Bool) : Option Scan := do
  let scan := (← scan.dropCandidate).allowKey true
  let (text, cursor) ← block literal scan.indent scan.cursor
  let style := if literal then Style.literal else Style.folded
  return { scan.push (.scalar text style) with cursor := cursor }

/-- Read a plain scalar. If its line has ended, a key may start behind it. -/
def plainScalar (scan : Scan) : Option Scan := do
  let scan := (← scan.saveCandidate).allowKey false
  let (text, broken, cursor) ← plain scan.flow (scan.indent + 1).toNat scan.cursor
  return ({ scan.push (.scalar text .plain) with cursor := cursor }).allowKey broken

/-- Whether a plain scalar may start with a character, which the text follows. -/
def startsPlain (flow : Bool) (c : Char) (text : List Char) : Bool :=
  if c == '-' then !text.head?.any isSpacing
  else if c == '?' || c == ':' then !flow && !endsWord text
  else
    !(isSpacing c || isBreak c || isFlowMark c || c == '#' || c == '&' || c == '*' || c == '!' ||
      c == '|' || c == '>' || c == '"' || c == '%' || c == '@' || c.toNat == 39 || c.toNat == 96)

/-- Read the token that starts with a character, which the text follows. -/
def token (scan : Scan) (c : Char) (text : List Char) : Option Scan :=
  let first := scan.cursor.place.column == 0
  if first && c == '%' then scan.directive
  else if first && startsMark '-' (c :: text) then scan.documentMark .documentStart
  else if first && startsMark '.' (c :: text) then scan.documentMark .documentEnd
  else if c == '[' then scan.openBracket .listOpen
  else if c == '\x7b' then scan.openBracket .mapOpen
  else if c == ']' then scan.closeBracket .listClose
  else if c == '\x7d' then scan.closeBracket .mapClose
  else if c == ',' then scan.comma
  else if c == '-' && endsWord text then scan.dash
  else if c == '?' && (scan.flow || endsWord text) then scan.keyMark
  else if c == ':' && (scan.flow || endsWord text) then scan.valueMark
  else if c == '*' then scan.anchor .reference
  else if c == '&' then scan.anchor .anchor
  else if c == '!' then scan.name (readTag scan.flow)
  else if c == '|' && !scan.flow then scan.blockScalar true
  else if c == '>' && !scan.flow then scan.blockScalar false
  else if c.toNat == 39 then scan.quotedScalar true
  else if c == '"' then scan.quotedScalar false
  else if startsPlain scan.flow c text then scan.plainScalar
  else none

/-- Read the tokens up to the end of the text. Each round reads at least one
character, so that the length of the text bounds their number. -/
def run : Nat → Scan → Option (Array Token)
  | 0, _ => none
  | fuel + 1, scan =>
    match scan.skip.dropStale with
    | none => none
    | some scan =>
      let scan := scan.unroll scan.cursor.place.column
      match scan.cursor.rest with
      | [] => (scan.unroll (-1)).dropCandidate.map Scan.tokens
      | c :: text =>
        match scan.token c text with
        | none => none
        | some scan => run fuel scan

end Scan

/-- The tokens of a text; `none` if it holds a character that may not occur or
something that is no token. -/
def tokens? (text : List Char) : Option (List Token) :=
  if text.all isAllowed then ((Scan.start text).run (text.length + 1)).map Array.toList else none

end HK16.Settings
