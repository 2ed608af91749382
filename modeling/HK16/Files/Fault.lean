/-!
# Faults of files

What can go wrong between a tool and its files. Why the system refused is not
part of the fault.
-/

namespace HK16.Files

/-- A file that could not be used. -/
inductive Fault
  /-- The file cannot be opened for reading. -/
  | cannotOpen (path : String)
  /-- The file is open and its text cannot be read. -/
  | cannotRead
  /-- The file cannot be created. -/
  | cannotCreate (path : String)
  /-- The file cannot be written. -/
  | cannotWrite (path : String)
  /-- The directory holds no bytecode files. -/
  | noBytecode (directory : String)
  deriving Repr, DecidableEq

/-- The text shown for a fault. -/
def Fault.message : Fault → String
  | cannotOpen path => "Failed to open file: " ++ path
  | cannotRead => "Failed to read line"
  | cannotCreate path => "Failed to create file: " ++ path
  | cannotWrite path => "Failed to write file: " ++ path
  | noBytecode directory => "No .vm file in directory: " ++ directory

instance : ToString Fault := ⟨Fault.message⟩

end HK16.Files
