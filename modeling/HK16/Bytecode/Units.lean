import HK16.Files.Fault
import HK16.Files.Path
import HK16.Files.Workspace

/-!
# Bytecode files

A directory stands for the bytecode files in it. The assembly file that belongs
to a bytecode file has the same path with another extension; the one that
belongs to a directory stands in it and has its name.
-/

namespace HK16.Bytecode

open Files

variable {m : Type → Type} [Monad m] [Workspace m]

/-- The paths of the bytecode files in a directory, in the order of their texts. -/
def listUnits (directory : String) : m (Except Files.Fault (List String)) := do
  match ← Workspace.entries directory with
  | .error _ => return .error (.cannotOpen directory)
  | .ok names =>
    let paths := (names.filter fun name => Path.extension? name = some "vm").map
      (Path.join directory)
    if paths.isEmpty then return .error (.noBytecode directory)
    else return .ok (paths.mergeSort fun left right => !decide (right < left))

/-- The path of the assembly file that belongs to an input. -/
def outputPath (input : String) (isDirectory : Bool) : m (Except Files.Fault String) := do
  if isDirectory then
    match ← Workspace.realName input with
    | .ok name => return .ok (Path.join input (name.getD "out" ++ ".asm"))
    | .error _ => return .error (.cannotOpen input)
  else return .ok (Path.withExtension input "asm")

end HK16.Bytecode
