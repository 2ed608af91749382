import HK16.Settings.Cursor

/-!
# Scalars of settings texts

A scalar is a piece of text. It is written plainly, in one of two kinds of
quotes, or as a block of indented lines. Between two words of a plain or quoted
scalar, a single end of a line stands for a space, and of several ends the
first is dropped; spacing around them does not count. The lines of a literal
block are kept, those of a folded one are joined in the same way.
-/

namespace HK16.Settings

/-- How a scalar is written. -/
inductive Style
  /-- Without quotes. -/
  | plain
  /-- In single quotes. -/
  | single
  /-- In double quotes. -/
  | double
  /-- As a block whose lines are kept. -/
  | literal
  /-- As a block whose lines are joined. -/
  | folded
  deriving Repr, DecidableEq

/-- The character that the end of a line stands for. -/
def breakChar (c : Char) : Char := if c.toNat == 0x2028 || c.toNat == 0x2029 then c else '\n'

/-- What stands between two words of a scalar. -/
structure Gap where
  /-- The spacing on the line of the first word, the last character first. -/
  spacing : List Char
  /-- Whether the line has ended. -/
  broken : Bool
  /-- The first end of a line. -/
  first : Option Char
  /-- The other ends of lines, the last one first. -/
  later : List Char

namespace Gap

/-- Nothing between two characters. -/
def empty : Gap := ⟨[], false, none, []⟩

/-- The gap behind the end of a line that was escaped. -/
def escaped : Gap := ⟨[], true, none, []⟩

/-- Whether nothing stands between two characters. -/
def isEmpty (gap : Gap) : Bool := !gap.broken && gap.spacing.isEmpty

/-- Add a character of spacing or the end of a line, which the text follows. -/
def add (gap : Gap) (c : Char) (text : List Char) : Gap :=
  if isSpacing c then if gap.broken then gap else { gap with spacing := c :: gap.spacing }
  else if isPaired c text then gap
  else if gap.broken then { gap with later := breakChar c :: gap.later }
  else ⟨[], true, some (breakChar c), []⟩

/-- Ends of lines as part of a scalar, the last character first. -/
def joined (first : Option Char) (later : List Char) : List Char :=
  if first = some '\n' then if later.isEmpty then [' '] else later
  else later ++ first.toList

/-- The gap as part of a scalar, the last character first. -/
def reversed (gap : Gap) : List Char :=
  if gap.broken then joined gap.first gap.later else gap.spacing

end Gap

/-- Whether a character has a meaning of its own between brackets. -/
def isFlowMark (c : Char) : Bool :=
  c == ',' || c == '[' || c == ']' || c == '\x7b' || c == '\x7d'

/-- Read a plain scalar. `done` holds what has been read, the last character
first, and `least` is the column from which lines outside of brackets go on with
the scalar. Between brackets, a colon directly in front of a mark is refused.
The result also tells whether the line ended behind the last word. -/
def plainFrom (flow : Bool) (least : Nat) (done : List Char) (gap : Gap) (place : Place) :
    List Char → Option (List Char × Bool × Cursor)
  | [] => some (done.reverse, gap.broken, ⟨place, []⟩)
  | c :: text =>
    if isSpacing c || isBreak c then
      if c == '\t' && gap.broken && place.column < least then none
      else plainFrom flow least done (gap.add c text) (place.after c text) text
    else if !gap.isEmpty && ((!flow && place.column < least) ||
        atDocumentMark place (c :: text) || c == '#') then
      some (done.reverse, gap.broken, ⟨place, c :: text⟩)
    else if flow && c == ':' && text.head?.any (fun d => isFlowMark d || d == '?') then none
    else if (c == ':' && endsWord text) || (flow && isFlowMark c) then
      some (done.reverse, gap.broken, ⟨place, c :: text⟩)
    else plainFrom flow least (c :: (gap.reversed ++ done)) .empty (place.after c text) text

/-- Read a plain scalar. -/
def plain (flow : Bool) (least : Nat) (cursor : Cursor) : Option (List Char × Bool × Cursor) :=
  plainFrom flow least [] .empty cursor.place cursor.rest

/-- The value of a hexadecimal digit. -/
def hexDigit? (c : Char) : Option Nat :=
  if c.isDigit then some (c.toNat - '0'.toNat)
  else if 'a' ≤ c ∧ c ≤ 'f' then some (c.toNat - 'a'.toNat + 10)
  else if 'A' ≤ c ∧ c ≤ 'F' then some (c.toNat - 'A'.toNat + 10)
  else none

/-- The character that a backslash and a letter stand for. -/
def escaped? (c : Char) : Option Char :=
  match c with
  | '0' => some (Char.ofNat 0)
  | 'a' => some (Char.ofNat 0x07)
  | 'b' => some (Char.ofNat 0x08)
  | 't' | '\t' => some '\t'
  | 'n' => some '\n'
  | 'v' => some (Char.ofNat 0x0B)
  | 'f' => some (Char.ofNat 0x0C)
  | 'r' => some '\r'
  | 'e' => some (Char.ofNat 0x1B)
  | ' ' | '"' | '/' | '\\' => some c
  | 'N' => some (Char.ofNat 0x85)
  | '_' => some (Char.ofNat 0xA0)
  | 'L' => some (Char.ofNat 0x2028)
  | 'P' => some (Char.ofNat 0x2029)
  | _ => none

/-- The number of hexadecimal digits that follow a backslash and a letter. -/
def escapeWidth? : Char → Option Nat
  | 'x' => some 2
  | 'u' => some 4
  | 'U' => some 8
  | _ => none

/-- The character of a code point. -/
def scalarValue? (n : Nat) : Option Char := if n.isValidChar then some (Char.ofNat n) else none

/-- Read the rest of a quoted scalar up to its closing quote. `done` holds what
has been read, the last character first, `gap` what stands behind it, and
`digits` the number of hexadecimal digits that are still expected, with the
value of those so far. -/
def quotedFrom (single : Bool) (done : List Char) (gap : Gap) (digits : Nat × Nat)
    (place : Place) : List Char → Option (List Char × Cursor)
  | [] => none
  | c :: text =>
    let next := place.after c text
    match digits with
    | (left + 1, value) =>
      match hexDigit? c with
      | none => none
      | some digit =>
        let value := value * 16 + digit
        if left = 0 then
          match scalarValue? value with
          | some d => quotedFrom single (d :: done) gap (0, 0) next text
          | none => none
        else quotedFrom single done gap (left, value) next text
    | (0, _) =>
      if isSpacing c || isBreak c then
        quotedFrom single done (gap.add c text) (0, 0) next text
      else if !gap.isEmpty && atDocumentMark place (c :: text) then none
      else
        let done := gap.reversed ++ done
        if single then
          if c.toNat = 39 then
            match text with
            | d :: more =>
              if d.toNat = 39 then
                quotedFrom single (d :: done) .empty (0, 0) (next.after d more) more
              else some (done.reverse, ⟨next, d :: more⟩)
            | [] => some (done.reverse, ⟨next, []⟩)
          else quotedFrom single (c :: done) .empty (0, 0) next text
        else if c = '"' then some (done.reverse, ⟨next, text⟩)
        else if c = '\\' then
          match text with
          | [] => none
          | '\r' :: '\n' :: more =>
            quotedFrom single done .escaped (0, 0)
              ((next.after '\r' ('\n' :: more)).after '\n' more) more
          | d :: more =>
            if isBreak d then quotedFrom single done .escaped (0, 0) (next.after d more) more
            else
              match escaped? d, escapeWidth? d with
              | some e, _ => quotedFrom single (e :: done) .empty (0, 0) (next.after d more) more
              | none, some width =>
                quotedFrom single done .empty (width, 0) (next.after d more) more
              | none, none => none
        else quotedFrom single (c :: done) .empty (0, 0) next text

/-- Read a quoted scalar from its opening quote on. -/
def quoted (single : Bool) (cursor : Cursor) : Option (List Char × Cursor) :=
  let cursor := cursor.skip 1
  quotedFrom single [] .empty (0, 0) cursor.place cursor.rest

/-- What becomes of the ends of lines behind the last line of a block. -/
inductive Chomp
  /-- None is kept. -/
  | strip
  /-- The first one is kept. -/
  | clip
  /-- All are kept. -/
  | keep
  deriving Repr, DecidableEq

/-- The chomping that a character asks for. -/
def Chomp.ofChar? : Char → Option Chomp
  | '+' => some keep
  | '-' => some strip
  | _ => none

/-- Read what stands behind the mark of a block: chomping and a depth from one
to nine, in any order, each at most once. -/
def blockHeader (cursor : Cursor) : Option (Chomp × Option Nat × Cursor) :=
  match cursor.rest with
  | c :: text =>
    match Chomp.ofChar? c, text with
    | some chomp, d :: _ =>
      if d = '0' then none
      else if d.isDigit then some (chomp, some (d.toNat - '0'.toNat), cursor.skip 2)
      else some (chomp, none, cursor.skip 1)
    | some chomp, [] => some (chomp, none, cursor.skip 1)
    | none, text =>
      if c = '0' then none
      else if c.isDigit then
        match text.head?.bind Chomp.ofChar? with
        | some chomp => some (chomp, some (c.toNat - '0'.toNat), cursor.skip 2)
        | none => some (.clip, some (c.toNat - '0'.toNat), cursor.skip 1)
      else some (.clip, none, cursor)
  | [] => some (.clip, none, cursor)

/-- Skip the indentation of lines and read the ends of empty ones. `indent` is
the column of the block, if it is known, `most` the greatest indentation so far,
and `breaks` holds the ends of lines, the last one first. A tab may not stand in
the indentation. -/
def blockBreaks (indent : Option Nat) (most : Nat) (breaks : List Char) (place : Place) :
    List Char → Option (Nat × List Char × Cursor)
  | [] => some (max most place.column, breaks, ⟨place, []⟩)
  | c :: text =>
    let inside := indent.all fun column => place.column < column
    if inside && c == ' ' then blockBreaks indent most breaks (place.after c text) text
    else if inside && c == '\t' then none
    else
      let most := max most place.column
      if isBreak c then
        blockBreaks indent most (if isPaired c text then breaks else breakChar c :: breaks)
          (place.after c text) text
      else some (most, breaks, ⟨place, c :: text⟩)

/-- What has been read of a block. -/
structure Block where
  /-- The text, the last character first. -/
  done : List Char
  /-- The end of the last line. -/
  first : Option Char
  /-- The ends of the empty lines behind it, the last one first. -/
  later : List Char
  /-- Whether the last line started with spacing. -/
  spaced : Bool
  /-- The place behind. -/
  cursor : Cursor

/-- Read the lines of a block at the given column. Each round reads a line, so
that the length of the text bounds their number. -/
def blockLines (literal : Bool) (indent : Nat) : Nat → Block → Option Block
  | 0, _ => none
  | fuel + 1, block =>
    match block.cursor.rest with
    | [] => some block
    | c :: _ =>
      if block.cursor.place.column ≠ indent then some block
      else
        let spaced := isSpacing c
        let between :=
          if !literal && !block.spaced && !spaced then Gap.joined block.first block.later
          else block.later ++ block.first.toList
        let (line, cursor) := block.cursor.span fun c => !isBreak c
        let first := cursor.rest.head?.map breakChar
        let cursor := cursor.skipBreak
        match blockBreaks (some indent) 0 [] cursor.place cursor.rest with
        | none => none
        | some (_, later, cursor) =>
          blockLines literal indent fuel
            ⟨line.reverse ++ (between ++ block.done), first, later, spaced, cursor⟩

/-- Read a block from its mark on. `outer` is the column of the collection
around it, which is negative outside of any. -/
def block (literal : Bool) (outer : Int) (cursor : Cursor) : Option (List Char × Cursor) := do
  let (chomp, depth, cursor) ← blockHeader (cursor.skip 1)
  let cursor ← cursor.finishLine
  let known := depth.map fun n => (max outer 0).toNat + n
  let (most, later, cursor) ← blockBreaks known 0 [] cursor.place cursor.rest
  let indent := known.getD (max (max most (outer + 1).toNat) 1)
  let block ← blockLines literal indent (cursor.rest.length + 1) ⟨[], none, later, false, cursor⟩
  let tail := match chomp with
    | .strip => []
    | .clip => block.first.toList
    | .keep => block.later ++ block.first.toList
  return ((tail ++ block.done).reverse, block.cursor)

end HK16.Settings
