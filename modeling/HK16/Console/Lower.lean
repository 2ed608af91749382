import HK16.Bytecode.Lowering
import HK16.Bytecode.Units
import HK16.Console.Tool

/-!
# The bytecode tool

Lowers a bytecode file, or all bytecode files of a directory, to one assembly
file. A directory gets the bootstrap unless it is switched off, a single file
only if it is asked for.
-/

namespace HK16.Console

open Files Bytecode

variable {m : Type → Type} [Monad m] [Workspace m]

/-- The warning about a line that was skipped. -/
def skippedWarning (path : String) (skipped : Nat × String) : String :=
  Text.paintBold .yellow "warning" ++ ": skipped unknown command `" ++ skipped.2 ++ "`\n" ++
    Diagnostic.place (path ++ ":" ++ toString skipped.1)

/-- Lower files one after the other. `done` holds the statements so far; `none`
means that a file could not be read or lowered, which has been shown. -/
def lowerUnits (lowering : Lowering) (boot : Bool) (done : Array Assembly.Statement) :
    List String → m (Option (Array Assembly.Statement))
  | [] => return some done
  | path :: paths => do
    say ("  < " ++ path)
    match ← Workspace.readText path with
    | .error _ =>
      let _ ← failFile path (.cannotOpen path)
      return none
    | .ok text =>
      let lines := Text.lines text
      let seen := lowering.skipped.size
      match (lowering.enterFile ((Path.stem? path).getD path)).unit lines boot with
      | (_, .error fault) =>
        Workspace.print (Diagnostic.ofLocated path lines fault)
        return none
      | (lowering, .ok statements) =>
        let skipped := lowering.skipped.toList.drop seen
        Workspace.print (String.join (skipped.map (skippedWarning path)))
        lowerUnits lowering false (done ++ statements) paths

/-- Write the assembly file. -/
def writeAssembly (path output : String) (statements : List Assembly.Statement) : m Bool := do
  say "2. Write Assembly"
  say ("  > " ++ output)
  if ← Workspace.writeText output (Text.unlines (statements.map Assembly.Statement.text)) then
    say ("  " ++ toString statements.length ++ " lines")
    return true
  else failFile path (.cannotWrite output)

/-- Lower the given files into the output. -/
def lowerAll (entry output : String) (boot : Bool) (paths : List String) : m Bool := do
  say "1. Read Files & Translate"
  match ← lowerUnits (.ofFile "" entry) boot #[] paths with
  | none => return false
  | some statements =>
    if boot then
      say ("  " ++ Text.paint .green "note" ++ ": bootstrap calls `" ++ entry ++ "`")
    writeAssembly (paths.getLast?.getD "") output statements.toList

/-- Run the bytecode tool. -/
def lowerBody (request : Request) : m Bool := do
  let input := request.plain.getD "."
  say "HK16 VM Translator"
  let isDirectory ← Workspace.isDirectory input
  let paths ← if isDirectory then listUnits input else pure (.ok [input])
  let boot := (isDirectory || request.has "boot") && !request.has "no-boot"
  match paths with
  | .error fault => failFile input fault
  | .ok paths =>
    let output ← match request.value? "output" with
      | some output => pure (.ok output)
      | none => outputPath input isDirectory
    match output with
    | .error fault => failFile input fault
    | .ok output =>
      lowerAll ((request.value? "entry").getD Lowering.defaultEntry) output boot paths

/-- The bytecode tool. -/
def bytecodeTool : Tool m where
  name := "hkvm"
  version := "hkvm 0.1.0"
  rules :=
    [⟨"output", some 'o', .value fun _ => true⟩, ⟨"boot", none, .flag⟩, ⟨"no-boot", none, .flag⟩,
      ⟨"entry", none, .value fun _ => true⟩]
  consistent request := !(request.has "boot" && request.has "no-boot")
  body := lowerBody

end HK16.Console
