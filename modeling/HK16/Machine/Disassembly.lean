import HK16.Instruction.Basic
import HK16.Machine.Image

/-!
# Disassembly of images

Each word of an image becomes one line, with its address and binary digits or
as a plain mnemonic. A word that is no instruction is always shown in full. A
line that is no word ends the disassembly.
-/

namespace HK16.Machine

/-- The line of one word. -/
def disassembleWord (plain : Bool) (address word : Word) : String :=
  let columns := "[" ++ Word.hex address ++ "] " ++ Word.binary word ++ " | "
  match Instruction.decode? word with
  | some instruction => if plain then instruction.text else columns ++ instruction.coloured
  | none => columns ++ Text.paintBold .red "illegal"

/-- Disassemble lines of an image from the given line number and address on.
`done` holds the lines so far. -/
def disassembleFrom (plain : Bool) (number : Nat) (address : Word) (done : Array String) :
    List String → Array String × Option (Nat × String)
  | [] => (done, none)
  | line :: lines =>
    match imageLine number line.toList with
    | .ok none => disassembleFrom plain (number + 1) address done lines
    | .ok (some word) =>
      disassembleFrom plain (number + 1) (address + 1)
        (done.push (disassembleWord plain address word)) lines
    | .error _ => (done, some (number, String.ofList (Text.trim line.toList)))

/-- Disassemble an image. The second part is the number and the text of the line
that is no word, if there is one. -/
def disassemble (plain : Bool) (text : String) : List String × Option (Nat × String) :=
  let (done, bad) := disassembleFrom plain 1 0 #[] (Text.lines text)
  (done.toList, bad)

end HK16.Machine
