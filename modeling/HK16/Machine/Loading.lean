import HK16.Assembly.Program
import HK16.Files.Path
import HK16.Files.Workspace
import HK16.Machine.Image

/-!
# Loading programs from files

A file whose extension is `asm` is assembled, with the predefined symbols only.
Every other file is an image.
-/

namespace HK16.Machine

/-- The words of a program file with the given path and text. -/
def readProgram (path text : String) : Except Fault (List Word) :=
  if Files.Path.extension? path = some "asm" then
    (Assembly.assemble (Text.lines text)).mapError (.cannotAssemble path)
  else readImage text

/-- Read a program file. -/
def loadProgram {m : Type → Type} [Monad m] [Files.Workspace m] (path : String) :
    m (Except Fault (List Word)) := do
  match ← Files.Workspace.readText path with
  | .ok text => return readProgram path text
  | .error _ => return .error (.file (.cannotOpen path))

end HK16.Machine
