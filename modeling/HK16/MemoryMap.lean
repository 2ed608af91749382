import HK16.Word

/-!
# Memory map and predefined names

The first sixteen cells have the names `R0` to `R15`; the first five of them are
also the pointers of the stack machine. The screen and the keyboard have fixed
addresses. Variables start after the registers and the stack after the
variables' customary area.
-/

namespace HK16

/-- The base pointers of the stack machine. -/
inductive Pointer
  /-- The next free cell of the stack. -/
  | sp
  /-- The first local variable of the running function. -/
  | lcl
  /-- The first argument of the running function. -/
  | arg
  /-- The first base set by the program. -/
  | thisBase
  /-- The second base set by the program. -/
  | thatBase
  deriving Repr, DecidableEq

namespace Pointer

/-- Every pointer, in the order of their cells. -/
def all : List Pointer := [sp, lcl, arg, thisBase, thatBase]

/-- The predefined name. -/
def name : Pointer → String
  | sp => "SP"
  | lcl => "LCL"
  | arg => "ARG"
  | thisBase => "THIS"
  | thatBase => "THAT"

/-- The cell that holds the pointer. -/
def address : Pointer → Word
  | sp => 0
  | lcl => 1
  | arg => 2
  | thisBase => 3
  | thatBase => 4

/-- The pointer of the given name. -/
def ofName? (name : String) : Option Pointer := all.find? (·.name == name)

/-- The pointer in the given cell. -/
def ofAddress? (address : Word) : Option Pointer := all.find? (·.address == address)

end Pointer

/-- One of the sixteen named cells at the start of memory. -/
abbrev Register := Fin 16

namespace Register

/-- Every register, in the order of their cells. -/
def all : List Register := List.finRange 16

/-- The predefined name. -/
def name (r : Register) : String := "R" ++ toString r.val

/-- The cell of the register. -/
def address (r : Register) : Word := BitVec.ofNat 16 r.val

/-- The register of the given name. -/
def ofName? (text : String) : Option Register := all.find? (fun r => Register.name r == text)

/-- The register in the given cell. -/
def ofAddress? (cell : Word) : Option Register :=
  all.find? (fun r => Register.address r == cell)

end Register

namespace MemoryMap

/-- The first cell of the screen. -/
def screen : Word := 0x4000

/-- The cell of the keyboard. -/
def keyboard : Word := 0x6000

/-- The first cell of the temporary segment. -/
def tempBase : Word := 5

/-- The number of cells of the temporary segment. -/
def tempSize : Nat := 8

/-- The first cell that a variable may take. -/
def variableBase : Nat := 16

/-- The first cell of the stack. -/
def stackBase : Nat := 256

/-- Every predefined name with its address, in the order of the symbol table. -/
def predefined : List (String × Word) :=
  Register.all.map (fun r => (Register.name r, Register.address r)) ++
    Pointer.all.map (fun p => (p.name, p.address)) ++
    [("SCREEN", screen), ("KBD", keyboard)]

end MemoryMap

end HK16
