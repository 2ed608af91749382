import HK16.Assembly.Source
import HK16.Bytecode.Command

/-!
# Source lines of the stack language

A line is cut at its first double slash and divided into words. The first word
says which command it is; words behind those that the command needs are ignored.
A line whose first word is no command is not a fault of the line.
-/

namespace HK16.Bytecode

/-- What a source line holds. -/
inductive Line
  /-- Nothing. -/
  | blank
  /-- A word that is no command. -/
  | unknown (word : String)
  /-- A command. -/
  | command (command : Command)
  deriving Repr, DecidableEq

namespace Argument

/-- The argument at a position, which the command named by `word` needs. -/
def get (word : List Char) (arguments : List (List Char)) (position : Nat) :
    Except Fault (List Char) :=
  match arguments[position]? with
  | some argument => .ok argument
  | none => .error (.missingArgument (String.ofList word))

/-- Read an argument as an index or a count. -/
def number (argument : List Char) : Except Fault Word :=
  match Text.readNat 65535 argument with
  | .ok n => .ok (BitVec.ofNat 16 n)
  | .error _ => .error (.badArgument (String.ofList argument) "index")

/-- Read an argument as a name. -/
def name (argument : List Char) : Except Fault String :=
  if Text.isName argument then .ok (String.ofList argument)
  else .error (.invalidName (String.ofList argument))

/-- Read an argument as a segment. -/
def segment (argument : List Char) : Except Fault Segment :=
  match Segment.ofText? (String.ofList argument) with
  | some segment => .ok segment
  | none => .error (.unknownSegment (String.ofList argument))

end Argument

/-- Read the command of a word and its arguments, from left to right; `none` if
the word is no command. -/
def Command.parse (word : List Char) (arguments : List (List Char)) :
    Except Fault (Option Command) := do
  let arg := Argument.get word arguments
  match String.ofList word with
  | "push" => return some (.push (← Argument.segment (← arg 0)) (← Argument.number (← arg 1)))
  | "pop" => return some (.pop (← Argument.segment (← arg 0)) (← Argument.number (← arg 1)))
  | "label" => return some (.label (← Argument.name (← arg 0)))
  | "goto" => return some (.goto (← Argument.name (← arg 0)))
  | "if-goto" => return some (.ifGoto (← Argument.name (← arg 0)))
  | "function" => return some (.function (← Argument.name (← arg 0)) (← Argument.number (← arg 1)))
  | "call" => return some (.call (← Argument.name (← arg 0)) (← Argument.number (← arg 1)))
  | "return" => return some .return_
  | word => return (Arithmetic.ofText? word).map .arithmetic

/-- Read one source line and check its command. -/
def Line.parse (line : List Char) : Except Fault Line :=
  match Text.words (Assembly.splitAtComment line).1 with
  | [] => .ok .blank
  | word :: arguments =>
    match Command.parse word arguments with
    | .error fault => .error fault
    | .ok none => .ok (.unknown (String.ofList word))
    | .ok (some found) =>
      match found.check with
      | .error fault => .error fault
      | .ok () => .ok (.command found)

end HK16.Bytecode
