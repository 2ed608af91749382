import HK16.Assembly.Source
import HK16.Assembly.SymbolTable

/-!
# From programs to words

Assembly takes three walks over a program. The first gives every label the
address of the next instruction, the second gives every symbol that is still
unknown the next variable cell, and the third encodes. The symbol table is kept
from one program to the next, and what a failed walk has already bound stays.
-/

namespace HK16.Assembly

/-- The number of words that program memory holds. -/
def programMax : Nat := Instruction.addressMax + 1

/-- Bind the labels of a program whose first instruction has the given address.
The walk fails at the first instruction that does not fit in program memory. -/
def bindLabelsFrom (next : Nat) (table : SymbolTable) :
    List Placed → SymbolTable × Except (Located Fault) Unit
  | [] => (table, .ok ())
  | placed :: program =>
    match placed.statement with
    | .label name => bindLabelsFrom next (table.bindLabel name (BitVec.ofNat 16 next)) program
    | _ =>
      if next < programMax then bindLabelsFrom (next + 1) table program
      else (table, .error (.ofCause (.programTooLarge (next + 1))))

/-- Bind every label of a program to the address of the next instruction. -/
def bindLabels (table : SymbolTable) (program : List Placed) :
    SymbolTable × Except (Located Fault) Unit :=
  bindLabelsFrom 0 table program

/-- Give a variable cell to every symbol of the program that is still unknown,
in the order of first use. -/
def allocateVariables (table : SymbolTable) :
    List Placed → SymbolTable × Except (Located Fault) Unit
  | [] => (table, .ok ())
  | placed :: program =>
    match placed.statement with
    | .address (.symbol name) =>
      if table.contains name then allocateVariables table program
      else
        match table.allocate name with
        | .ok (_, table) => allocateVariables table program
        | .error fault => (table, .error ((Located.ofCause fault).atIndex placed.line))
    | _ => allocateVariables table program

/-- The word of one statement under a symbol table. An address must be known
and fit in fifteen bits, and a label has no word. -/
def encode (table : SymbolTable) : Statement → Except Fault Word
  | .address operand =>
    match operand.value? table.address? with
    | some value =>
      if value.toNat ≤ Instruction.addressMax then .ok (Instruction.load value).encode
      else .error (.addressOutOfRange operand.text)
    | none => .error (.undefinedSymbol operand.text)
  | .label name => .error (.invalidLabel (Statement.label name).text)
  | .compute fields => .ok fields.encode

/-- The words of the instructions of a program under a symbol table. -/
def encodeAll (table : SymbolTable) (program : List Placed) :
    Except (Located Fault) (List Word) :=
  (program.filter (·.statement.isInstruction)).mapM fun placed =>
    match encode table placed.statement with
    | .ok word => .ok word
    | .error fault => .error ((Located.ofCause fault).atIndex placed.line)

/-- Assemble a program, starting from the symbols of earlier ones. -/
def assembleProgram (table : SymbolTable) (program : List Placed) :
    SymbolTable × Except (Located Fault) (List Word) :=
  match bindLabels table program with
  | (table, .error fault) => (table, .error fault)
  | (table, .ok ()) =>
    match allocateVariables table program with
    | (table, .error fault) => (table, .error fault)
    | (table, .ok ()) => (table, encodeAll table program)

/-- Assemble source lines, starting from the symbols of earlier programs. Lines
that cannot be read leave the table as it is. -/
def assembleLines (table : SymbolTable) (lines : List String) :
    SymbolTable × Except (Located Fault) (List Word) :=
  match readLines lines with
  | .ok program => assembleProgram table program
  | .error fault => (table, .error fault)

/-- Assemble source lines to the sixteen binary digits of each word. -/
def assembleDigits (table : SymbolTable) (lines : List String) :
    SymbolTable × Except (Located Fault) (List String) :=
  Prod.map id (Except.map (List.map Word.binary)) (assembleLines table lines)

/-- Assemble source lines with the predefined symbols only. -/
def assemble (lines : List String) : Except (Located Fault) (List Word) :=
  (assembleLines .predefined lines).2

end HK16.Assembly
