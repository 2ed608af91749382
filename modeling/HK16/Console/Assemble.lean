import HK16.Assembly.Listing
import HK16.Console.Tool
import HK16.Files.Path

/-!
# The assembler tool

Reads an assembly source, writes its image, and prints the listing on request.
-/

namespace HK16.Console

open Files

variable {m : Type → Type} [Monad m] [Workspace m]

/-- The text of an image file. -/
def imageText (words : List Word) : String := Text.unlines (words.map Word.binary)

/-- Assemble statements that have been read, write the image and print the
listing if asked for. -/
def assembleProgram (input output : String) (listing : Bool) (lines : List String)
    (program : List Assembly.Placed) : m Bool := do
  say "2. Resolve Symbols & Generate Binary"
  match Assembly.assembleProgram .predefined program with
  | (_, .error fault) =>
    Workspace.print (Diagnostic.ofLocated input lines fault)
    return false
  | (table, .ok words) =>
    say ("  > " ++ output)
    if !(← Workspace.writeText output (imageText words)) then
      failFile input (.cannotCreate output)
    else
      if listing then
        Workspace.print (Assembly.Listing.render input table lines program)
        Workspace.print (Assembly.Listing.renderSymbols table)
      say ("  " ++ toString words.length ++ " instructions")
      return true

/-- Run the assembler. -/
def assembleBody (request : Request) : m Bool := do
  let input := request.plain.getD "main.asm"
  let output := (request.value? "output").getD (Path.dropSuffix input ".asm" ++ ".hack")
  say "HK16 Assembler"
  say "1. Read File and Parse Lines"
  say ("  < " ++ input)
  match ← Workspace.readText input with
  | .error refusal =>
    failFile input (if refusal.isContent then .cannotRead else .cannotOpen input)
  | .ok text =>
    let lines := Text.lines text
    match Assembly.readLines lines with
    | .error fault =>
      Workspace.print (Diagnostic.ofLocated input lines fault)
      return false
    | .ok program => assembleProgram input output (request.has "dump") lines program

/-- The assembler. -/
def assembler : Tool m where
  name := "hkasm"
  version := "hkasm 0.1.0"
  rules := [⟨"output", some 'o', .value fun _ => true⟩, ⟨"dump", some 'd', .flag⟩]
  consistent _ := true
  body := assembleBody

end HK16.Console
