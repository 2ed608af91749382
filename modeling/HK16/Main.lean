import HK16.Console.Assemble
import HK16.Console.Disassemble
import HK16.Console.Emulate
import HK16.Console.Lower

/-!
# The command line

The first argument names the tool, the others are its arguments. The tools run
on the files of the computer.
-/

namespace HK16.Main

open Files Console

/-- What an error of the system says about a path. -/
def refusalOf : IO.Error → Refusal
  | .inappropriateType _ code _ => if code = 21 then .isDirectory else .notDirectory
  | _ => .missing

instance : Workspace IO where
  readText path := do
    try
      match String.fromUTF8? (← IO.FS.readBinFile path) with
      | some text => return .ok text
      | none => return .error .notText
    catch error => return .error (refusalOf error)
  isDirectory path := do
    try (← IO.FS.realPath path).isDir
    catch _ => return false
  entries path := do
    try return .ok ((← (← IO.FS.realPath path).readDir).toList.map fun entry => entry.fileName)
    catch error => return .error (refusalOf error)
  realName path := do
    try return .ok (← IO.FS.realPath path).fileName
    catch error => return .error (refusalOf error)
  writeText path text := do
    try
      IO.FS.writeFile path text
      return true
    catch _ => return false
  print text := IO.print text

/-- The tools. -/
def tools : List (Tool IO) := [assembler, disassembler, bytecodeTool, emulator]

end HK16.Main

/-- Run the tool that the first argument names. -/
def main (arguments : List String) : IO UInt32 := do
  match arguments with
  | name :: rest =>
    match HK16.Main.tools.find? fun tool => tool.name == name with
    | some tool => return UInt32.ofNat (← tool.run rest)
    | none => return 2
  | [] => return 2
