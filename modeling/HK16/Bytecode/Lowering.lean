import HK16.Bytecode.Code
import HK16.Bytecode.Source

/-!
# Lowering of bytecode units

A lowering takes units of bytecode one after the other and hands out their
assembly statements. Counters run on from unit to unit, so that invented labels
stay apart. Lines that are no commands are skipped and remembered. When a line
is wrong, the statements of the unit are dropped; what was counted and skipped
before that line stays.
-/

namespace HK16.Bytecode

open Assembly

/-- The state between two units. -/
structure Lowering where
  /-- The place of the next command. -/
  scope : Scope
  /-- The function that the bootstrap calls. -/
  entry : String
  /-- Statements that have not been handed out. -/
  pending : Array Statement
  /-- The skipped lines so far, with their numbers counted from one. -/
  skipped : Array (Nat × String)
  deriving DecidableEq

namespace Lowering

/-- The function that the bootstrap calls unless another is named. -/
def defaultEntry : String := "Sys.init"

/-- The beginning, in the given file. -/
def ofFile (file : String) (entry : String) : Lowering := ⟨.ofFile file, entry, #[], #[]⟩

/-- Go on with another file. -/
def enterFile (lowering : Lowering) (file : String) : Lowering :=
  { lowering with scope := lowering.scope.enterFile file }

/-- Add the statements of a command and move behind it. -/
def append (lowering : Lowering) (code : List Statement) (command : Command) : Lowering :=
  { lowering with
    scope := lowering.scope.after command
    pending := lowering.pending ++ code }

/-- Remember a skipped line. -/
def skip (lowering : Lowering) (number : Nat) (line : List Char) : Lowering :=
  { lowering with
    skipped := lowering.skipped.push (number, String.ofList (Text.trim line)) }

/-- Add the bootstrap. The entry function is called as in a function of its own,
and then the function and its next call are put back. -/
def bootstrap (lowering : Lowering) : Lowering :=
  let inside : Lowering :=
    { lowering with
      scope := lowering.scope.within Code.bootScope.function Code.bootScope.calls
      pending := lowering.pending ++ Code.bootSetup }
  let called := inside.append (Code.call inside.scope inside.entry 0) (.call inside.entry 0)
  { called with scope := called.scope.within lowering.scope.function lowering.scope.calls }

/-- Add one command, which is checked first. -/
def command (lowering : Lowering) (command : Command) : Lowering × Except Fault Unit :=
  match command.compile lowering.scope with
  | .error fault => (lowering, .error fault)
  | .ok code => (lowering.append code command, .ok ())

/-- Add the commands of source lines, the first of which has the given index. -/
def linesFrom (index : Nat) (lowering : Lowering) :
    List String → Lowering × Except (Located Fault) Unit
  | [] => (lowering, .ok ())
  | line :: lines =>
    match Line.parse line.toList with
    | .error fault => (lowering, .error ((Located.ofCause fault).atIndex index))
    | .ok .blank => linesFrom (index + 1) lowering lines
    | .ok (.unknown _) => linesFrom (index + 1) (lowering.skip (index + 1) line.toList) lines
    | .ok (.command command) =>
      match command.compile lowering.scope with
      | .error fault => (lowering, .error ((Located.ofCause fault).atIndex index))
      | .ok code => linesFrom (index + 1) (lowering.append code command) lines

/-- Take everything that has not been handed out. -/
def flush (lowering : Lowering) : Lowering × List Statement :=
  ({ lowering with pending := #[] }, lowering.pending.toList)

/-- Lower one unit, with the bootstrap in front if asked for. The statements are
handed out, or dropped if a line is wrong. -/
def unit (lowering : Lowering) (lines : List String) (boot : Bool) :
    Lowering × Except (Located Fault) (List Statement) :=
  let (lowering, result) := linesFrom 0 (if boot then lowering.bootstrap else lowering) lines
  let (lowering, statements) := lowering.flush
  (lowering, result.map fun () => statements)

/-- The bootstrap leaves the place as it was, although its call is counted, and what
it adds does not depend on that place. -/
theorem bootstrap_eq (lowering : Lowering) :
    lowering.bootstrap =
      { lowering with pending := lowering.pending ++ Code.boot lowering.entry } := by
  have hpending : lowering.pending ++ Code.bootSetup ++ Code.call Code.bootScope lowering.entry 0 =
      lowering.pending ++ Code.boot lowering.entry := by
    apply Array.ext'
    simp only [Array.toList_appendList, Code.boot, List.append_assoc]
  simp only [bootstrap, append, Scope.within_after_call, Code.call_within_bootScope, hpending]

end Lowering

/-- Lower the lines of a single file. -/
def lower (file : String) (lines : List String) (boot : Bool) :
    Except (Located Fault) (List Statement) :=
  ((Lowering.ofFile file Lowering.defaultEntry).unit lines boot).2

end HK16.Bytecode
