import HK16.Instruction.Computation
import HK16.Instruction.Destination
import HK16.Instruction.Jump
import HK16.Text.Style

/-!
# Instructions and their words

An instruction either loads a constant into `A` or computes. In a load word the
highest bit is clear and the other fifteen are the constant. In a compute word
the three highest bits are set, followed by the computation, the destination and
the jump. Decoding looks at the highest bit and at the three fields only, so the
two bits below the highest may have any value in a compute word.
-/

namespace HK16

/-- The fields of a compute instruction. -/
structure Compute where
  /-- Where the result goes. -/
  dest : Destination
  /-- What is computed. -/
  comp : Computation
  /-- When the machine continues at the address in `A`. -/
  jump : Option Jump
  deriving Repr, DecidableEq

/-- A machine instruction without symbols. -/
inductive Instruction
  /-- Load a constant into `A`. -/
  | load (value : Word)
  /-- Compute, store and perhaps jump. -/
  | compute (fields : Compute)
  deriving Repr, DecidableEq

namespace Compute

/-- The word of a compute instruction. -/
def encode (c : Compute) : Word :=
  0b111#3 ++ c.comp.control ++ c.dest.bits ++ Jump.fieldBits c.jump

/-- The text `dest=comp;jump`, without the parts that are absent. -/
def text (c : Compute) : String :=
  (if c.dest.isEmpty then "" else c.dest.text ++ "=") ++ c.comp.text ++
    (match c.jump with
      | none => ""
      | some jump => ";" ++ jump.text)

/-- The text in colour. -/
def coloured (c : Compute) : String :=
  (if c.dest.isEmpty then "" else Text.paint .blue c.dest.text ++ "=") ++
    Text.paint .green c.comp.text ++
    (match c.jump with
      | none => ""
      | some jump => ";" ++ Text.paint .red jump.text)

end Compute

namespace Instruction

/-- The greatest constant that an instruction can load, and the greatest address
of a program. -/
def addressMax : Nat := 32767

/-- The word of an instruction; a constant loses its highest bit. -/
def encode : Instruction → Word
  | load value => value &&& 0x7FFF#16
  | compute fields => fields.encode

/-- The instruction of a word; `none` if the computation has no name. -/
def decode? (word : Word) : Option Instruction :=
  if word.msb then
    (Computation.ofControl? (word.extractLsb' 6 7)).map fun comp =>
      compute ⟨.ofBits (word.extractLsb' 3 3), comp, Jump.ofBits? (word.extractLsb' 0 3)⟩
  else some (load word)

/-- The coloured text of an address instruction with the given operand. -/
def colouredAddress (colour : Text.Colour) (operand : String) : String :=
  Text.Colour.red.on ++ "@" ++ Text.paint colour operand

/-- The assembly text. -/
def text : Instruction → String
  | load value => "@" ++ value.decimal
  | compute fields => fields.text

/-- The assembly text in colour. -/
def coloured : Instruction → String
  | load value => colouredAddress .yellow value.decimal
  | compute fields => fields.coloured

end Instruction

end HK16
