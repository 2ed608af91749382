import HK16.Console.Tool
import HK16.Machine.Loading
import HK16.Machine.Monitor
import HK16.Machine.Preset

/-!
# The emulator tool

Loads a program, presets memory, runs under a monitor, and writes the memory
cells that are not zero on request.
-/

namespace HK16.Console

open Files Machine

variable {m : Type → Type} [Monad m] [Workspace m]

/-- The greatest number of cycles. -/
def cyclesMax : Nat := 18446744073709551615

/-- One row of the opening box. -/
def boxRow (title text : String) : String := "| " ++ title ++ Text.padRight 36 text ++ " |"

/-- The opening box. -/
def openingBox (input : String) (settings : Option String) (showAll : Bool) : List String :=
  let border := "+-----------------------------------------------+"
  [border, boxRow "Emulate: " input] ++
    (settings.map fun path => boxRow " - Dump: " path).toList ++
    (if showAll then [boxRow " - Dump: " "All"] else []) ++ [border]

/-- Show a fault. -/
def failMachine (fault : Machine.Fault) : m Bool := do
  Workspace.print (Diagnostic.headline fault.message)
  return false

/-- The watched addresses of a settings file; without one there are none. A file
that can be opened and not read is one with bad settings. -/
def loadWatches (settings : Option String) : m (Except Machine.Fault Watches) := do
  match settings with
  | none => return .ok ∅
  | some path =>
    match ← Workspace.readText path with
    | .ok text => return Watches.read path text
    | .error refusal =>
      return .error (if refusal.isContent then .badSettings path else .file (.cannotOpen path))

/-- Memory cells in the form of settings. -/
def cellsText (cells : List (Word × Word)) : String :=
  if cells.isEmpty then "\x7b\x7d\n"
  else Text.unlines (cells.map fun (address, value) => address.decimal ++ ": " ++ value.decimal)

/-- How the run is reported. -/
def closing (run : ObservedOutcome) : String :=
  if run.state.done then
    "Halted after " ++ toString run.cycles ++ " cycles at PC=" ++ Word.hex run.state.pc
  else Text.paintBold .yellow "warning" ++ ": stopped after " ++ toString run.cycles ++ " cycles"

/-- Write the memory cells that are not zero, if a file is named. -/
def writeMemory (output : Option String) (memory : Memory) : m Bool := do
  match output with
  | none => return true
  | some path =>
    if ← Workspace.writeText path (cellsText memory.nonzero) then
      say ("  > " ++ path)
      return true
    else failMachine (.file (.cannotWrite path))

/-- Run a machine under a monitor and report. -/
def emulateState (state : State) (monitor : Monitor) (limit : Nat) (output : Option String) :
    m Bool := do
  let opened := monitor.observer.before state
  Workspace.print (Text.unlines opened.lines)
  let run := opened.state.observe monitor.observer 0 limit
  Workspace.print (Text.unlines run.lines.toList)
  match run.fault with
  | some fault => failMachine fault
  | none =>
    say "================================================="
    say (closing run)
    writeMemory output run.state.memory

/-- Run the emulator. -/
def emulateBody (request : Request) : m Bool := do
  let input := request.plain.getD "main.hack"
  let settings := request.value? "dump-cfg"
  let showAll := request.has "dump-all"
  say "HK16 Emulator by kanade-k-1228"
  Workspace.print (Text.unlines (openingBox input settings showAll))
  match (← loadProgram input).bind State.initial.load with
  | .error fault => failMachine fault
  | .ok state =>
    let presets := (request.values "set").filterMap fun text => (readPreset text).toOption
    say "[INIT]"
    match ← loadWatches settings with
    | .error fault => failMachine fault
    | .ok watches =>
      let limit := match request.value? "tmax" with
        | some text => (Text.readNat cyclesMax text.toList).toOption.getD cyclesMax
        | none => cyclesMax
      emulateState (state.preset presets) ⟨request.has "trace", showAll, settings, watches⟩ limit
        (request.value? "ram-out")

/-- The emulator. -/
def emulator : Tool m where
  name := "hkemu"
  version := "HK16 Emulator v1.0.0"
  rules :=
    [⟨"tmax", some 't', .value fun text => (Text.readNat cyclesMax text.toList).isOk⟩,
      ⟨"trace", none, .flag⟩, ⟨"dump-cfg", some 'd', .value fun _ => true⟩,
      ⟨"dump-all", some 'a', .flag⟩, ⟨"ram-out", none, .value fun _ => true⟩,
      ⟨"set", none, .values fun text => (readPreset text).isOk⟩]
  consistent _ := true
  body := emulateBody

end HK16.Console
