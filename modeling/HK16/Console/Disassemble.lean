import HK16.Console.Tool
import HK16.Diagnostic
import HK16.Machine.Disassembly

/-!
# The disassembler tool

Prints the instructions of an image.
-/

namespace HK16.Console

open Files

variable {m : Type → Type} [Monad m] [Workspace m]

/-- Run the disassembler. -/
def disassembleBody (request : Request) : m Bool := do
  let input := request.plain.getD "main.hack"
  match ← Workspace.readText input with
  | .error refusal =>
    Workspace.print (Diagnostic.headline
      ("Failed to open file: " ++ input ++ ": " ++ refusal.message))
    return false
  | .ok text =>
    let (lines, bad) := Machine.disassemble (request.has "plain") text
    Workspace.print (Text.unlines lines)
    match bad with
    | none => return true
    | some (number, line) =>
      Workspace.print (Diagnostic.headline
        (input ++ ":" ++ toString number ++ ": not a binary word: `" ++ line ++ "`"))
      return false

/-- The disassembler. -/
def disassembler : Tool m where
  name := "hkdis"
  version := "hkasm 0.1.0"
  rules := [⟨"plain", some 'p', .flag⟩]
  consistent _ := true
  body := disassembleBody

end HK16.Console
