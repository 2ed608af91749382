import HK16.Instruction.Basic

/-!
# Statements of assembly programs

A statement loads an address, which may be a symbol, or names the next
instruction, or computes. Once every symbol has an address, all statements but
labels become instructions.
-/

namespace HK16.Assembly

/-- What an address statement loads. -/
inductive Operand
  /-- A number. -/
  | literal (value : Word)
  /-- The address of a symbol. -/
  | symbol (name : String)
  deriving Repr, DecidableEq

/-- One statement. -/
inductive Statement
  /-- Load an address or a constant. -/
  | address (operand : Operand)
  /-- Name the address of the next instruction. -/
  | label (name : String)
  /-- Compute, store and perhaps jump. -/
  | compute (fields : Compute)
  deriving Repr, DecidableEq

namespace Operand

/-- The value of an operand under an assignment of addresses. -/
def value? (addressOf : String → Option Word) : Operand → Option Word
  | literal value => some value
  | symbol name => addressOf name

/-- The text of an operand. -/
def text : Operand → String
  | literal value => value.decimal
  | symbol name => name

end Operand

namespace Statement

/-- Load a constant. -/
def constant (value : Word) : Statement := address (.literal value)

/-- Load the address of a symbol. -/
def reference (name : String) : Statement := address (.symbol name)

/-- Compute and store without a jump. -/
def store (dest : Destination) (comp : Computation) : Statement := compute ⟨dest, comp, none⟩

/-- Compute and jump without storing. -/
def branch (comp : Computation) (jump : Jump) : Statement :=
  compute ⟨.nowhere, comp, some jump⟩

/-- Whether the statement takes a word of the program. -/
def isInstruction : Statement → Bool
  | label _ => false
  | _ => true

/-- The instruction of a statement under an assignment of addresses; `none` for
labels and for symbols without an address. -/
def resolve (addressOf : String → Option Word) : Statement → Option Instruction
  | address operand => (operand.value? addressOf).map .load
  | label _ => none
  | compute fields => some (.compute fields)

/-- The assembly text. -/
def text : Statement → String
  | address operand => "@" ++ operand.text
  | label name => "(" ++ name ++ ")"
  | compute fields => fields.text

/-- The assembly text in colour. -/
def coloured : Statement → String
  | address (.literal value) => Instruction.colouredAddress .yellow value.decimal
  | address (.symbol name) => Instruction.colouredAddress .cyan name
  | label name => Text.paintBold .green ("(" ++ name ++ ")")
  | compute fields => fields.coloured

end Statement

end HK16.Assembly
