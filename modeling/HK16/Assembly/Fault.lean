/-!
# Faults of assembly programs

Each fault names what was found in the source, or which limit of the machine
the program exceeds.
-/

namespace HK16.Assembly

/-- What can be wrong with a statement or a program. -/
inductive Fault
  /-- The text is no computation. -/
  | unknownComputation (text : String)
  /-- The text is no jump condition. -/
  | unknownJump (text : String)
  /-- The text is no destination. -/
  | unknownDestination (text : String)
  /-- The operand is neither a number nor a name. -/
  | invalidSymbol (text : String)
  /-- The statement opens a label and is none. -/
  | invalidLabel (text : String)
  /-- The operand does not fit in fifteen bits. -/
  | addressOutOfRange (operand : String)
  /-- No address is left for the variable. -/
  | variablesExhausted (name : String)
  /-- There are more instructions than program memory holds. -/
  | programTooLarge (count : Nat)
  /-- The symbol has no address. -/
  | undefinedSymbol (name : String)
  deriving Repr, DecidableEq

/-- The text shown for a fault. -/
def Fault.message : Fault → String
  | unknownComputation text => "Unknown computation: `" ++ text ++ "`"
  | unknownJump text => "Unknown jump: `" ++ text ++ "`"
  | unknownDestination text => "Unknown destination: `" ++ text ++ "`"
  | invalidSymbol text => "Invalid symbol: `" ++ text ++ "`"
  | invalidLabel text => "Invalid label: `" ++ text ++ "`"
  | addressOutOfRange operand => "Address out of range: `" ++ operand ++ "` (max 32767)"
  | variablesExhausted name => "Address space overflow: cannot allocate `" ++ name ++ "`"
  | programTooLarge count =>
    "Program too large: " ++ toString count ++ " instructions (max 32768)"
  | undefinedSymbol name => "Undefined symbol: `" ++ name ++ "`"

instance : ToString Fault := ⟨Fault.message⟩

end HK16.Assembly
