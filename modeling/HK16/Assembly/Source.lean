import HK16.Assembly.Fault
import HK16.Assembly.Statement
import HK16.Diagnostic
import HK16.Text.Lines
import HK16.Text.Name
import HK16.Text.Numeral

/-!
# Source lines of assembly programs

A comment starts at the first double slash. What stands in front of it, without
the blanks around it, is empty or one statement: an address statement starts
with an at sign, a label with an opening bracket, and everything else computes.
Of several faults in one compute statement the destination's is named first,
then the computation's, then the jump's.
-/

namespace HK16.Assembly

/-- Divide a line at its first double slash. The comment is what follows it. -/
def splitAtComment : List Char → List Char × Option (List Char)
  | [] => ([], none)
  | '/' :: '/' :: comment => ([], some comment)
  | c :: line =>
    let rest := splitAtComment line
    (c :: rest.1, rest.2)

/-- The code of a line without the blanks around it, and the comment, if any. -/
def splitComment (line : List Char) : List Char × Option (List Char) :=
  (Text.trim (splitAtComment line).1, (splitAtComment line).2)

/-- Read the operand of an address statement. One that starts with a digit must
be a number that fits in fifteen bits; any other must be a name. -/
def Operand.parse (text : List Char) : Except Fault Operand :=
  match text with
  | c :: _ =>
    if c.isDigit then
      if text.all Char.isDigit then
        if Text.decimal text ≤ Instruction.addressMax then
          .ok (.literal (BitVec.ofNat 16 (Text.decimal text)))
        else .error (.addressOutOfRange (String.ofList text))
      else .error (.invalidSymbol (String.ofList text))
    else if Text.isName text then .ok (.symbol (String.ofList text))
    else .error (.invalidSymbol (String.ofList text))
  | [] => .error (.invalidSymbol "")

/-- Read a label from the text behind its opening bracket; `none` if the closing
bracket is missing or no name stands between the two. -/
def labelName? (text : List Char) : Option String :=
  match text.getLast? with
  | some ')' =>
    let name := Text.trim text.dropLast
    if Text.isName name then some (String.ofList name) else none
  | _ => none

/-- Read a compute statement `dest=comp;jump`. The destination and the jump may
be absent, and an empty jump is an absent one. -/
def parseCompute (code : List Char) : Except Fault Compute :=
  let (dest, rest) := match Text.cut '=' code with
    | some (dest, rest) => (Text.trim dest, rest)
    | none => ([], code)
  let (comp, jump) := match Text.cut ';' rest with
    | some (comp, jump) => (Text.trim comp, Text.trim jump)
    | none => (Text.trim rest, [])
  match Destination.parse? dest with
  | none => .error (.unknownDestination (String.ofList dest))
  | some destination =>
    match Computation.parse? comp with
    | none => .error (.unknownComputation (String.ofList comp))
    | some computation =>
      if jump.isEmpty then .ok ⟨destination, computation, none⟩
      else
        match Jump.parse? jump with
        | none => .error (.unknownJump (String.ofList jump))
        | some condition => .ok ⟨destination, computation, some condition⟩

/-- Read the statement of a code that is not empty. -/
def Statement.parseCode (code : List Char) : Except Fault Statement :=
  match code with
  | '@' :: operand => (Operand.parse (Text.trim operand)).map .address
  | '(' :: rest =>
    match labelName? rest with
    | some name => .ok (.label name)
    | none => .error (.invalidLabel (String.ofList code))
  | code => (parseCompute code).map .compute

/-- Read one source line; a line without code has no statement. -/
def Statement.parseLine (line : List Char) : Except Fault (Option Statement) :=
  let code := (splitComment line).1
  if code.isEmpty then .ok none else (Statement.parseCode code).map some

/-- A statement with the index of its source line, counted from zero. -/
structure Placed where
  /-- The index of the source line. -/
  line : Nat
  /-- The statement. -/
  statement : Statement
  deriving Repr, DecidableEq

/-- Read the lines from the given index on. `done` holds the statements read so
far, the last one first. -/
def readFrom (index : Nat) (done : List Placed) :
    List String → Except (Located Fault) (List Placed)
  | [] => .ok done.reverse
  | line :: lines =>
    match Statement.parseLine line.toList with
    | .error fault => .error ((Located.ofCause fault).atIndex index)
    | .ok none => readFrom (index + 1) done lines
    | .ok (some statement) => readFrom (index + 1) (⟨index, statement⟩ :: done) lines

/-- Read the statements of a program with their places. The first line that
cannot be read is the fault. -/
def readLines (lines : List String) : Except (Located Fault) (List Placed) := readFrom 0 [] lines

end HK16.Assembly
