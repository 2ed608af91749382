import HK16.Console.Options
import HK16.Diagnostic
import HK16.Files.Fault
import HK16.Files.Workspace

/-!
# Tools

A tool has rules for its options and a body that runs on a workspace. It ends
with zero, with one after a fault, and with two if its command line is wrong.
-/

namespace HK16.Console

open Files

/-- A tool of the command line. -/
structure Tool (m : Type → Type) where
  /-- The name under which the tool is called. -/
  name : String
  /-- What the tool prints as its version. -/
  version : String
  /-- The options besides the common ones. -/
  rules : List OptionRule
  /-- Whether the options may stand together. -/
  consistent : Request → Bool
  /-- Run, and tell whether that went well. -/
  body : Request → m Bool

variable {m : Type → Type} [Monad m] [Workspace m]

/-- Print one line. -/
def say (line : String) : m Unit := Workspace.print (line ++ "\n")

/-- Show a fault that belongs to a whole file. -/
def failFile (path : String) (fault : Files.Fault) : m Bool := do
  Workspace.print (Diagnostic.render path [] none fault.message)
  return false

/-- How a tool is called. -/
def Tool.usage (tool : Tool m) : String := "Usage: " ++ tool.name ++ " [OPTIONS] [INPUT]"

/-- Run a tool on its arguments. The result is the exit code. -/
def Tool.run (tool : Tool m) (arguments : List String) : m Nat := do
  match readOptions tool.rules arguments with
  | .error .version => say tool.version; return 0
  | .error .help => say tool.usage; return 0
  | .error .wrong => return 2
  | .ok request =>
    if !tool.consistent request then return 2
    else if ← tool.body request then return 0
    else return 1

end HK16.Console
