import HK16.Assembly.Fault
import HK16.Diagnostic
import HK16.Files.Fault
import HK16.Word

/-!
# Faults of the machine

A program stops with a fault when it meets a word that is no instruction.
Programs and settings can also fail to load.
-/

namespace HK16.Machine

/-- What can go wrong in loading and running a program. -/
inductive Fault
  /-- The word at an address is no instruction. -/
  | illegalInstruction (address word : Word)
  /-- A line of an image is not a binary word. -/
  | notBinaryWord (line : Nat) (text : String)
  /-- The image does not fit in program memory. -/
  | programTooLarge (count : Nat)
  /-- The program's source cannot be assembled. -/
  | cannotAssemble (path : String) (fault : Located Assembly.Fault)
  /-- The settings cannot be read. -/
  | badSettings (source : String)
  /-- A file cannot be used. -/
  | file (fault : Files.Fault)
  deriving Repr, DecidableEq

/-- The text shown for a fault. -/
def Fault.message : Fault → String
  | illegalInstruction address word =>
    "Illegal instruction " ++ Word.binary word ++ " at " ++ Word.hex address
  | notBinaryWord line text =>
    "Line " ++ toString line ++ ": not a binary word: `" ++ text ++ "`"
  | programTooLarge count => "Program too large: " ++ toString count ++ " words"
  | cannotAssemble path fault => "Failed to assemble " ++ path ++ ": " ++ fault.message
  | badSettings source => "Failed to parse config: " ++ source
  | file fault => fault.message

instance : ToString Fault := ⟨Fault.message⟩

end HK16.Machine
