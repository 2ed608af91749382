import HK16.MemoryMap
import HK16.Machine.Run
import HK16.Settings.Document
import HK16.Text.Quoted
import Std.Data.TreeMap

/-!
# Traces and snapshots of runs

A monitor says what a run prints, by two hooks. A trace has one line for each step.
A snapshot shows the registers after a step; at watched addresses it also shows the
stack, if that is asked for, and chosen cells. Watched addresses come from a
settings document.
-/

namespace HK16.Machine

/-- What is shown at a watched address besides the registers. -/
structure Watch where
  /-- Whether the stack is shown. -/
  stack : Bool
  /-- The cells that are shown, in order. -/
  cells : List Word
  deriving Repr, DecidableEq

namespace Watch

open Settings (Document Node)

/-- An address or a cell of the settings. -/
def word? (node : Node) : Option Word := do
  let n ← node.natural?
  if n < 65536 then some (BitVec.ofNat 16 n) else none

/-- The fields of a watch that have been read. -/
structure Fields where
  /-- The field `stack`. -/
  stack : Option Bool
  /-- The field `ram`. -/
  cells : Option (List Word)

/-- Read one more field. The two known fields may occur once each; others are
ignored. -/
def Fields.add (document : Document) (fields : Fields) (key value : Node) :
    Document.Decode Fields := do
  match ← document.decode Node.text? key with
  | "stack" =>
    if fields.stack.isSome then failure
    else return { fields with stack := some (← document.decode Node.boolean? value) }
  | "ram" =>
    if fields.cells.isSome then failure
    else
      let items ← document.decode Node.items? value
      return { fields with cells := some (← items.mapM (document.decode word?)) }
  | _ => return fields

/-- Read what is shown at one address. -/
def ofNode (document : Document) (node : Node) : Document.Decode Watch := do
  let fields ← (← document.decode Node.pairs? node).foldlM
    (fun fields (key, value) => Fields.add document fields key value) ⟨none, none⟩
  return ⟨fields.stack.getD false, fields.cells.getD []⟩

end Watch

/-- Watched addresses. -/
abbrev Watches := Std.TreeMap Word Watch

namespace Watches

/-- Read the watched addresses of a settings document. Of several watches for one
address the last one counts. -/
def ofDocument? (document : Settings.Document) : Option Watches :=
  let read : Settings.Document.Decode Watches := do
    (← document.decode Settings.Node.pairs? document.root).foldlM (fun watches (key, value) => do
      let address ← document.decode Watch.word? key
      return watches.insert address (← Watch.ofNode document value)) ∅
  read.run' 0

/-- Read the watched addresses from the text of settings; the source of the text
is named in the fault. -/
def read (source text : String) : Except Fault Watches :=
  match (Settings.Document.read? text).bind ofDocument? with
  | some watches => .ok watches
  | none => .error (.badSettings source)

end Watches

/-- What a run prints. -/
structure Monitor where
  /-- Whether every step is traced. -/
  trace : Bool
  /-- Whether the registers are shown after every step. -/
  showAll : Bool
  /-- The file that the watched addresses come from, if they come from one. -/
  source : Option String
  /-- The watched addresses. -/
  watches : Watches

/-- One line of a trace: time, address, word, instruction, registers. -/
def traceLine (time : Nat) (address word : Word) (state : State) : String :=
  let instruction := match Instruction.decode? word with
    | some instruction => instruction.coloured
    | none => Text.paintBold .red "illegal"
  "[" ++ Text.padLeft 6 (toString time) ++ "] [" ++ Word.hex address ++ "] " ++
    Word.binary word ++ " | " ++ Text.padRight 24 instruction ++ " | A=" ++ Word.hex state.a ++
    " D=" ++ Word.hex state.d

namespace Snapshot

/-- The line above and below the registers. -/
def border : String := " +-----------+-----------+-----------+"

/-- The line below a list of cells. -/
def lowerBorder : String := " +-----------------------------------+"

/-- The registers and the pointers of the stack machine. -/
def registers (state : State) : List String :=
  let pointer := fun (p : Pointer) => Word.hex (state.memory.get p.address)
  [border,
    " |  pc: " ++ Word.hex state.pc ++ " |  sp: " ++ pointer .sp ++ " | arg: " ++
      pointer .arg ++ " |",
    " |   a: " ++ Word.hex state.a ++ " | lcl: " ++ pointer .lcl ++ " | this: " ++
      pointer .thisBase ++ "|",
    " |   d: " ++ Word.hex state.d ++ " |           | that: " ++ pointer .thatBase ++ "|",
    border]

/-- One cell. -/
def cell (state : State) (address : Word) : String :=
  " | " ++ Word.hex address ++ " : " ++ Word.hex (state.memory.get address) ++
    "                      |"

/-- The given cells. -/
def cells (state : State) (addresses : List Word) : List String :=
  addresses.map (cell state) ++ [lowerBorder]

/-- The cells of the stack, from its base to the stack pointer. -/
def stack (state : State) : List String :=
  let top := (state.memory.get Pointer.sp.address).toNat
  cells state ((List.range (top - MemoryMap.stackBase)).map fun i =>
    BitVec.ofNat 16 (MemoryMap.stackBase + i))

/-- Everything that a watch asks for. -/
def watched (state : State) (watch : Watch) : List String :=
  registers state ++ (if watch.stack then stack state else []) ++ cells state watch.cells

end Snapshot

namespace Monitor

/-- The line that announces a trace. -/
def traceTitle (monitor : Monitor) : List String :=
  if monitor.trace then [" * Trace"] else []

/-- The lines that announce snapshots. -/
def snapshotTitles (monitor : Monitor) : List String :=
  (if monitor.showAll then [" * Dump all"] else []) ++
    (match monitor.source with
      | some source =>
        [" * Dump[" ++ toString monitor.watches.size ++ "] " ++ Text.quote source]
      | none => [])

/-- The lines in front of a run. -/
def opening (monitor : Monitor) : List String := monitor.traceTitle ++ monitor.snapshotTitles

/-- The hook that traces the steps. -/
def traceHook (monitor : Monitor) : Hook where
  before state := ⟨state, monitor.traceTitle⟩
  after time address word state :=
    ⟨state, if monitor.trace then [traceLine time address word state] else []⟩

/-- The hook that takes snapshots. -/
def snapshotHook (monitor : Monitor) : Hook where
  before state := ⟨state, monitor.snapshotTitles⟩
  after _ address _ state :=
    ⟨state, match monitor.watches[address]? with
      | some watch => Snapshot.watched state watch
      | none => if monitor.showAll then Snapshot.registers state else []⟩

/-- Both hooks; a step is traced before its snapshot is taken. -/
def observer (monitor : Monitor) : Observer := [monitor.traceHook, monitor.snapshotHook]

end Monitor

end HK16.Machine
