import HK16.Assembly.Program

/-!
# Program listings

A listing shows every source line together with the address and the word of its
instruction. The rows are data; `render` gives them their columns. A statement
that cannot be encoded has no word, and its row shows sixteen marks instead.
-/

namespace HK16.Assembly

/-- The code that a source line contributes. -/
inductive RowCode
  /-- The line holds no statement. -/
  | blank
  /-- The line binds a label. -/
  | label (statement : Statement)
  /-- The line is an instruction at an address; the word is absent if the
  statement cannot be encoded. -/
  | instruction (address : Word) (word : Option Word) (statement : Statement)
  deriving Repr, DecidableEq

/-- One row of a listing. -/
structure Row where
  /-- The number of the source line, counted from one. -/
  number : Nat
  /-- What the line contributes. -/
  code : RowCode
  /-- The text behind the comment mark, if there is a comment. -/
  comment : Option String
  deriving Repr, DecidableEq

/-- Continue a listing at the given line index and address. `done` holds the
rows so far, the last one first. -/
def rowsFrom (table : SymbolTable) (index : Nat) (address : Word) (done : List Row) :
    List String → List Placed → List Row
  | [], _ => done.reverse
  | line :: lines, program =>
    let comment := (splitComment line.toList).2.map String.ofList
    match program with
    | placed :: rest =>
      if placed.line = index then
        match placed.statement with
        | .label name =>
          rowsFrom table (index + 1) address
            (⟨index + 1, .label (.label name), comment⟩ :: done) lines rest
        | statement =>
          rowsFrom table (index + 1) (address + 1)
            (⟨index + 1, .instruction address (encode table statement).toOption statement,
              comment⟩ :: done) lines rest
      else
        rowsFrom table (index + 1) address (⟨index + 1, .blank, comment⟩ :: done) lines
          (placed :: rest)
    | [] =>
      rowsFrom table (index + 1) address (⟨index + 1, .blank, comment⟩ :: done) lines []

/-- The rows of a listing, one for each source line. -/
def rows (table : SymbolTable) (lines : List String) (program : List Placed) : List Row :=
  rowsFrom table 0 0 [] lines program

namespace Row

/-- The empty columns in front of a line without an instruction. -/
def noWord : String := String.ofList (List.replicate 25 ' ')

/-- The column of a word. -/
def wordText : Option Word → String
  | some word => Word.binary word
  | none => Text.paintBold .red (String.ofList (List.replicate 16 '!'))

/-- The comment as it stands in the source. -/
def commentText (row : Row) : String :=
  match row.comment with
  | some comment => "//" ++ comment
  | none => ""

/-- One line of the listing. -/
def render (row : Row) : String :=
  let number := Text.padLeft 4 (toString row.number)
  match row.code with
  | .blank => noWord ++ "| " ++ number ++ ": " ++ row.commentText
  | .label statement =>
    noWord ++ "| " ++ number ++ ": " ++ statement.coloured ++ " " ++ row.commentText
  | .instruction address word statement =>
    "[" ++ Word.hex address ++ "] " ++ wordText word ++ " | " ++ number ++ ":   " ++
      statement.coloured ++ " " ++ row.commentText

end Row

namespace Listing

/-- A row of dashes. -/
def dashes (count : Nat) : String := String.ofList (List.replicate count '-')

/-- The line above a listing. The path is followed by dashes up to a fixed
width, in which each of its bytes counts. -/
def header (path : String) : String :=
  dashes 25 ++ "+------[" ++ path ++ "]" ++ dashes (45 - path.utf8ByteSize)

/-- The line below a listing. -/
def footer : String := dashes 25 ++ "+" ++ dashes 53

/-- The listing of a source. -/
def render (path : String) (table : SymbolTable) (lines : List String)
    (program : List Placed) : String :=
  Text.unlines ([header path] ++ (rows table lines program).map Row.render ++ [footer])

/-- The line of one symbol below the listing; predefined symbols have none. -/
def symbolLine (symbol : Symbol) : Option String :=
  let line := fun kind => " " ++ kind ++ " 0x" ++ Word.hex symbol.address ++ " " ++ symbol.name
  match symbol.kind with
  | .predefined => none
  | .label => some (line (Text.paint .green "label"))
  | .variable => some (line (Text.paint .cyan "var  "))

/-- The symbols that a program brought in. -/
def renderSymbols (table : SymbolTable) : String :=
  Text.unlines (table.toList.filterMap symbolLine)

end Listing

end HK16.Assembly
