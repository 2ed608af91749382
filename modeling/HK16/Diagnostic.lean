import HK16.Text.Style

/-!
# Located faults and their display

A fault may carry the number of the source line where it arose. The first line
that is attached stays. A diagnostic shows the fault, the place and, when the
line is known, the text of that line.
-/

namespace HK16

/-- A fault with the number of its source line, counted from one, if it is known. -/
structure Located (ε : Type) where
  /-- The line's number, counted from one. -/
  line : Option Nat
  /-- What went wrong. -/
  cause : ε
  deriving Repr, DecidableEq

namespace Located

variable {ε : Type}

/-- A fault whose line is not known. -/
def ofCause (cause : ε) : Located ε := ⟨none, cause⟩

/-- Attach the line with the given index, counted from zero, unless a line is
already attached. -/
def atIndex (fault : Located ε) (index : Nat) : Located ε :=
  match fault.line with
  | some _ => fault
  | none => { fault with line := some (index + 1) }

/-- The fault in one line of text. -/
def message [ToString ε] (fault : Located ε) : String :=
  match fault.line with
  | some line => "line " ++ toString line ++ ": " ++ toString fault.cause
  | none => toString fault.cause

/-- A line that is attached is never replaced. -/
@[simp] theorem atIndex_atIndex (fault : Located ε) (i j : Nat) :
    (fault.atIndex i).atIndex j = fault.atIndex i := by
  rcases fault with ⟨_ | _, cause⟩ <;> rfl

end Located

namespace Diagnostic

/-- The headline of a fault. -/
def headline (message : String) : String :=
  Text.paintBold .red "error" ++ ": " ++ message ++ "\n"

/-- The line that names the place of a fault. -/
def place (location : String) : String :=
  "     " ++ Text.paint .blue "-->" ++ " " ++ Text.underline location ++ "\n"

/-- An empty line of the margin. -/
def margin : String := "      " ++ Text.paint .blue "|" ++ "\n"

/-- Display a fault of a file with the given lines. A line number beyond the
file shows an empty line; the number zero shows the first line. -/
def render (file : String) (lines : List String) (line : Option Nat) (message : String) : String :=
  match line with
  | some n =>
    headline message ++ place (file ++ ":" ++ toString n) ++ margin ++
      " " ++ Text.paint .blue (Text.padLeft 4 (toString n) ++ " |") ++ " " ++
      (lines[n - 1]?).getD "" ++ "\n" ++ margin
  | none => headline message ++ place file

/-- Display a located fault. -/
def ofLocated {ε : Type} [ToString ε] (file : String) (lines : List String)
    (fault : Located ε) : String :=
  render file lines fault.line (toString fault.cause)

end Diagnostic

end HK16
