import HK16.Instruction.Basic
import HK16.MemoryMap

/-!
# Commands of the stack language

The stack language computes on a stack of words. Values come from and go to
eight segments of memory. Functions have arguments and local variables, and
labels belong to the function in which they stand. Indices and counts are bound
by the size of a segment and by the fifteen bits of an address.
-/

namespace HK16.Bytecode

/-- Arithmetic and comparison. -/
inductive Arithmetic
  | add
  | sub
  | neg
  | eq
  | gt
  | lt
  | and
  | or
  | not
  deriving Repr, DecidableEq

/-- The segments that values come from and go to. -/
inductive Segment
  /-- The numbers themselves. -/
  | constant
  /-- The local variables of the running function. -/
  | locals
  /-- The arguments of the running function. -/
  | argument
  /-- Cells behind the first base. -/
  | thisBase
  /-- Cells behind the second base. -/
  | thatBase
  /-- The variables of the source file. -/
  | static
  /-- Eight fixed cells. -/
  | temp
  /-- The two bases. -/
  | pointer
  deriving Repr, DecidableEq

namespace Arithmetic

/-- Every operation. -/
def all : List Arithmetic := [add, sub, neg, eq, gt, lt, and, or, not]

/-- The word of an operation. -/
def text : Arithmetic → String
  | add => "add"
  | sub => "sub"
  | neg => "neg"
  | eq => "eq"
  | gt => "gt"
  | lt => "lt"
  | and => "and"
  | or => "or"
  | not => "not"

/-- The operation of a word. -/
def ofText? (text : String) : Option Arithmetic := all.find? (·.text == text)

end Arithmetic

namespace Segment

/-- Every segment. -/
def all : List Segment := [constant, locals, argument, thisBase, thatBase, static, temp, pointer]

/-- The word of a segment. -/
def text : Segment → String
  | constant => "constant"
  | locals => "local"
  | argument => "argument"
  | thisBase => "this"
  | thatBase => "that"
  | static => "static"
  | temp => "temp"
  | pointer => "pointer"

/-- The segment of a word. -/
def ofText? (text : String) : Option Segment := all.find? (·.text == text)

/-- The greatest index into the segment. -/
def indexMax : Segment → Nat
  | temp => MemoryMap.tempSize - 1
  | pointer => 1
  | _ => Instruction.addressMax

end Segment

/-- One command. -/
inductive Command
  /-- Compute on the top of the stack. -/
  | arithmetic (operation : Arithmetic)
  /-- Push a value of a segment. -/
  | push (segment : Segment) (index : Word)
  /-- Pop a value into a segment. -/
  | pop (segment : Segment) (index : Word)
  /-- Name this place within the function. -/
  | label (name : String)
  /-- Continue at a label of the function. -/
  | goto (name : String)
  /-- Pop a value, and continue at a label of the function unless it is zero. -/
  | ifGoto (name : String)
  /-- Start a function with local variables. -/
  | function (name : String) (locals : Word)
  /-- Call a function with arguments. -/
  | call (name : String) (arguments : Word)
  /-- Return from the running function. -/
  | return_
  deriving Repr, DecidableEq

/-- What can be wrong with a command. -/
inductive Fault
  /-- A command has too few words. -/
  | missingArgument (word : String)
  /-- A word is not what its place asks for. -/
  | badArgument (word kind : String)
  /-- The word is no segment. -/
  | unknownSegment (word : String)
  /-- The word is no name. -/
  | invalidName (word : String)
  /-- A number cannot be a target. -/
  | popConstant
  /-- The segment has no such cell. -/
  | indexOutOfRange (segment : Segment) (index : Word)
  /-- There are too many arguments or local variables. -/
  | countOutOfRange (count : Word)
  deriving Repr, DecidableEq

/-- The text shown for a fault. -/
def Fault.message : Fault → String
  | missingArgument word => "More argument required for `" ++ word ++ "`"
  | badArgument word kind => "Cannot parse `" ++ word ++ "` as " ++ kind
  | unknownSegment word => "Unknown segment: `" ++ word ++ "`"
  | invalidName word => "Invalid name: `" ++ word ++ "`"
  | popConstant => "Cannot pop to constant segment"
  | indexOutOfRange segment index =>
    "Index " ++ index.decimal ++ " out of range for " ++ segment.text ++ " segment"
  | countOutOfRange count => "Count " ++ count.decimal ++ " out of range"

instance : ToString Fault := ⟨Fault.message⟩

namespace Command

/-- The number of words that a call saves: the return address and four pointers. -/
def frameSize : Nat := 5

/-- Check the index of a segment. -/
def checkIndex (segment : Segment) (index : Word) : Except Fault Unit :=
  if index.toNat ≤ segment.indexMax then .ok () else .error (.indexOutOfRange segment index)

/-- Check a count against its greatest value. -/
def checkCount (most : Nat) (count : Word) : Except Fault Unit :=
  if count.toNat ≤ most then .ok () else .error (.countOutOfRange count)

/-- Check indices and counts. A call needs room for its frame in the address
that it computes. Names are not looked at. -/
def check : Command → Except Fault Unit
  | pop .constant _ => .error .popConstant
  | push segment index => checkIndex segment index
  | pop segment index => checkIndex segment index
  | function _ locals => checkCount Instruction.addressMax locals
  | call _ arguments => checkCount (Instruction.addressMax - frameSize) arguments
  | _ => .ok ()

end Command

end HK16.Bytecode
