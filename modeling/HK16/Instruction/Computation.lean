import HK16.Text.Blank
import HK16.Word

/-!
# Computations of the arithmetic unit

The unit has six control lines: zero and negate each operand, choose sum or
conjunction, negate the result. A computation is one of the twenty-eight useful
settings of the lines together with a seventh bit, which selects the memory cell
at `A` instead of `A` as the second operand. Other settings have no name and
cannot be written in a program, although `alu` evaluates all of them.
-/

namespace HK16

/-- The settings of the arithmetic unit that have a name. -/
inductive Computation
  | zero
  | one
  | minusOne
  | d
  | a
  | m
  | notD
  | notA
  | notM
  | negD
  | negA
  | negM
  | dPlusOne
  | aPlusOne
  | mPlusOne
  | dMinusOne
  | aMinusOne
  | mMinusOne
  | dPlusA
  | dPlusM
  | dMinusA
  | dMinusM
  | aMinusD
  | mMinusD
  | dAndA
  | dAndM
  | dOrA
  | dOrM
  deriving Repr, DecidableEq

/-- Evaluate six control lines on two operands. The lines are, from the highest
bit: zero the first operand, complement it, zero the second operand, complement
it, add instead of conjoin, complement the result. -/
def alu (control : BitVec 6) (x y : Word) : Word :=
  let x := if control.getLsbD 5 then 0 else x
  let x := if control.getLsbD 4 then ~~~x else x
  let y := if control.getLsbD 3 then 0 else y
  let y := if control.getLsbD 2 then ~~~y else y
  let out := if control.getLsbD 1 then x + y else x &&& y
  if control.getLsbD 0 then ~~~out else out

namespace Computation

/-- Every computation, in the order of the instruction table. -/
def all : List Computation :=
  [zero, one, minusOne, d, a, m, notD, notA, notM, negD, negA, negM, dPlusOne, aPlusOne,
    mPlusOne, dMinusOne, aMinusOne, mMinusOne, dPlusA, dPlusM, dMinusA, dMinusM, aMinusD,
    mMinusD, dAndA, dAndM, dOrA, dOrM]

/-- The operand selector and the six control lines. -/
def control : Computation → BitVec 7
  | zero => 0b0101010#7
  | one => 0b0111111#7
  | minusOne => 0b0111010#7
  | d => 0b0001100#7
  | a => 0b0110000#7
  | m => 0b1110000#7
  | notD => 0b0001101#7
  | notA => 0b0110001#7
  | notM => 0b1110001#7
  | negD => 0b0001111#7
  | negA => 0b0110011#7
  | negM => 0b1110011#7
  | dPlusOne => 0b0011111#7
  | aPlusOne => 0b0110111#7
  | mPlusOne => 0b1110111#7
  | dMinusOne => 0b0001110#7
  | aMinusOne => 0b0110010#7
  | mMinusOne => 0b1110010#7
  | dPlusA => 0b0000010#7
  | dPlusM => 0b1000010#7
  | dMinusA => 0b0010011#7
  | dMinusM => 0b1010011#7
  | aMinusD => 0b0000111#7
  | mMinusD => 0b1000111#7
  | dAndA => 0b0000000#7
  | dAndM => 0b1000000#7
  | dOrA => 0b0010101#7
  | dOrM => 0b1010101#7

/-- The computation with the given selector and control lines, if it has a name. -/
def ofControl? (control : BitVec 7) : Option Computation :=
  all.find? (·.control == control)

/-- The mnemonic. -/
def text : Computation → String
  | zero => "0"
  | one => "1"
  | minusOne => "-1"
  | d => "D"
  | a => "A"
  | m => "M"
  | notD => "!D"
  | notA => "!A"
  | notM => "!M"
  | negD => "-D"
  | negA => "-A"
  | negM => "-M"
  | dPlusOne => "D+1"
  | aPlusOne => "A+1"
  | mPlusOne => "M+1"
  | dMinusOne => "D-1"
  | aMinusOne => "A-1"
  | mMinusOne => "M-1"
  | dPlusA => "D+A"
  | dPlusM => "D+M"
  | dMinusA => "D-A"
  | dMinusM => "D-M"
  | aMinusD => "A-D"
  | mMinusD => "M-D"
  | dAndA => "D&A"
  | dAndM => "D&M"
  | dOrA => "D|A"
  | dOrM => "D|M"

/-- The mnemonic with its operands exchanged, where that is the same computation. -/
def commutedText : Computation → Option String
  | dPlusA => some "A+D"
  | dPlusM => some "M+D"
  | dAndA => some "A&D"
  | dAndM => some "M&D"
  | dOrA => some "A|D"
  | dOrM => some "M|D"
  | _ => none

/-- Read a mnemonic, in either spelling. Blanks are ignored wherever they stand. -/
def parse? (text : List Char) : Option Computation :=
  let letters := String.ofList (Text.squeeze text)
  all.find? fun c => c.text == letters || c.commutedText == some letters

/-- The name of the computation in exchanged data. -/
def identifier : Computation → String
  | zero => "Zero"
  | one => "One"
  | minusOne => "NegOne"
  | d => "D"
  | a => "A"
  | m => "M"
  | notD => "NotD"
  | notA => "NotA"
  | notM => "NotM"
  | negD => "NegD"
  | negA => "NegA"
  | negM => "NegM"
  | dPlusOne => "DPlusOne"
  | aPlusOne => "APlusOne"
  | mPlusOne => "MPlusOne"
  | dMinusOne => "DMinusOne"
  | aMinusOne => "AMinusOne"
  | mMinusOne => "MMinusOne"
  | dPlusA => "DPlusA"
  | dPlusM => "DPlusM"
  | dMinusA => "DMinusA"
  | dMinusM => "DMinusM"
  | aMinusD => "AMinusD"
  | mMinusD => "MMinusD"
  | dAndA => "DAndA"
  | dAndM => "DAndM"
  | dOrA => "DOrA"
  | dOrM => "DOrM"

/-- The computation of the given name. -/
def ofIdentifier? (name : String) : Option Computation := all.find? (·.identifier == name)

/-- Whether the second operand is the memory cell at `A` and not `A` itself. -/
def readsMemory (c : Computation) : Bool := c.control.getLsbD 6

/-- The result on `D` and on the second operand that `readsMemory` selects. -/
def eval (c : Computation) (d am : Word) : Word := alu (c.control.setWidth 6) d am

/-- Control lines determine their computation. -/
@[simp] theorem ofControl?_control (c : Computation) : ofControl? c.control = some c := by
  cases c <;> decide

/-- Only the control lines of a computation denote it. -/
theorem control_of_ofControl? {bits : BitVec 7} {c : Computation} (h : ofControl? bits = some c) :
    c.control = bits := by
  simpa using List.find?_some h

end Computation

end HK16
