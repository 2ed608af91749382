import HK16.Assembly.Statement
import HK16.Bytecode.Command

/-!
# Assembly code of commands

The stack starts at a fixed cell, and `SP` holds the address of the first free
one. A call saves the return address and four pointers on the stack, above the
arguments; a return restores them and leaves its value where the first argument
stood. `R13` and `R14` are used in between.

The code of a command depends on names that belong to its place: the file, for
the static segment, the function, for labels, and two counters that keep
invented labels apart. `Scope.after` says how a command changes that place.
-/

namespace HK16.Bytecode

open Assembly

/-- The place of a command among files, functions and invented labels. -/
structure Scope where
  /-- The source file. -/
  file : String
  /-- The function, which is the file outside of functions. -/
  function : String
  /-- The number of comparisons so far. -/
  compares : Nat
  /-- The number of the next call within the function. -/
  calls : Nat
  deriving Repr, DecidableEq

namespace Scope

/-- The beginning of a file. -/
def ofFile (file : String) : Scope := ⟨file, file, 0, 1⟩

/-- Go on with another file. Comparisons are counted through. -/
def enterFile (scope : Scope) (file : String) : Scope :=
  { scope with file := file, function := file, calls := 1 }

/-- The same place in another function, with the number of its next call. -/
def within (scope : Scope) (function : String) (calls : Nat) : Scope :=
  { scope with function := function, calls := calls }

/-- The assembly label of a label of the function. -/
def labelName (scope : Scope) (label : String) : String := scope.function ++ "$" ++ label

/-- The label behind the next call. -/
def returnLabel (scope : Scope) : String := scope.function ++ "$ret." ++ toString scope.calls

/-- The symbol of a static variable. -/
def staticName (scope : Scope) (index : Word) : String := scope.file ++ "." ++ index.decimal

/-- The label of the next comparison's true branch. -/
def trueLabel (scope : Scope) : String := "CMP_TRUE." ++ toString (scope.compares + 1)

/-- The label behind the next comparison. -/
def endLabel (scope : Scope) : String := "CMP_END." ++ toString (scope.compares + 1)

/-- The place behind a command. -/
def after (scope : Scope) : Command → Scope
  | .arithmetic .eq | .arithmetic .gt | .arithmetic .lt =>
    { scope with compares := scope.compares + 1 }
  | .function name _ => { scope with function := name, calls := 1 }
  | .call _ _ => { scope with calls := scope.calls + 1 }
  | _ => scope

/-- A call from another function leaves no trace once the function is put back. -/
theorem within_after_call (scope : Scope) (function name : String) (calls : Nat)
    (arguments : Word) :
    ((scope.within function calls).after (.call name arguments)).within scope.function
      scope.calls = scope := rfl

end Scope

namespace Code

/-- Load the address of a pointer. -/
def atPointer (pointer : Pointer) : Statement := .reference pointer.name

/-- The register that holds an address or a frame between two instructions. -/
def noteRegister : Register := 13

/-- The register that holds the return address while a frame is taken back. -/
def linkRegister : Register := 14

/-- Load the address of a register. -/
def atRegister (register : Register) : Statement := .reference (Register.name register)

/-- Push `D`. -/
def pushD : List Statement :=
  [atPointer .sp, .store .toA .m, .store .toM .d, atPointer .sp, .store .toM .mPlusOne]

/-- Pop into `D`; `A` holds the cell that was popped. -/
def popD : List Statement :=
  [atPointer .sp, .store .toAM .mMinusOne, .store .toD .m]

/-- Replace the top of the stack by a computation on it. -/
def unary (comp : Computation) : List Statement :=
  [atPointer .sp, .store .toA .mMinusOne, .store .toM comp]

/-- Replace the two topmost values by a computation on `D`, the upper one, and
the memory cell of the lower one. -/
def binary (comp : Computation) : List Statement :=
  popD ++ [.store .toA .aMinusOne, .store .toM comp]

/-- Replace the two topmost values by a truth value: all bits set if the lower
one minus the upper one meets the condition, else zero. -/
def compare (scope : Scope) (jump : Jump) : List Statement :=
  popD ++
    [.store .toA .aMinusOne, .store .toD .mMinusD, .reference scope.trueLabel, .branch .d jump,
      atPointer .sp, .store .toA .mMinusOne, .store .toM .zero, .reference scope.endLabel,
      .branch .zero .always, .label scope.trueLabel, atPointer .sp, .store .toA .mMinusOne,
      .store .toM .minusOne, .label scope.endLabel]

/-- The code of an operation. -/
def arithmetic (scope : Scope) : Arithmetic → List Statement
  | .neg => unary .negM
  | .not => unary .notM
  | .add => binary .dPlusM
  | .sub => binary .mMinusD
  | .and => binary .dAndM
  | .or => binary .dOrM
  | .eq => compare scope .eq
  | .gt => compare scope .gt
  | .lt => compare scope .lt

/-- Where a cell of a segment is. -/
inductive Cell
  /-- The number itself. -/
  | number (value : Word)
  /-- As far behind a pointer's value as the index says. -/
  | behind (base : Pointer)
  /-- At an address that is known. -/
  | fixed (operand : Operand)
  deriving Repr, DecidableEq

/-- Find a cell of a segment. The segments of fixed size have no cells beyond it. -/
def cell (scope : Scope) (segment : Segment) (index : Word) : Except Fault Cell :=
  match segment with
  | .constant => .ok (.number index)
  | .locals => .ok (.behind .lcl)
  | .argument => .ok (.behind .arg)
  | .thisBase => .ok (.behind .thisBase)
  | .thatBase => .ok (.behind .thatBase)
  | .static => .ok (.fixed (.symbol (scope.staticName index)))
  | .temp =>
    if index.toNat < MemoryMap.tempSize then .ok (.fixed (.literal (MemoryMap.tempBase + index)))
    else .error (.indexOutOfRange segment index)
  | .pointer =>
    if index = 0 then .ok (.fixed (.symbol Pointer.thisBase.name))
    else if index = 1 then .ok (.fixed (.symbol Pointer.thatBase.name))
    else .error (.indexOutOfRange segment index)

/-- Bring the value of a cell to `D`. -/
def fetch (index : Word) : Cell → List Statement
  | .number value => [.constant value, .store .toD .a]
  | .behind base =>
    [.constant index, .store .toD .a, atPointer base, .store .toA .dPlusM, .store .toD .m]
  | .fixed operand => [.address operand, .store .toD .m]

/-- Push the value of a cell of a segment. -/
def push (scope : Scope) (segment : Segment) (index : Word) : Except Fault (List Statement) :=
  (cell scope segment index).map fun cell => fetch index cell ++ pushD

/-- Pop a value into a cell of a segment. -/
def pop (scope : Scope) (segment : Segment) (index : Word) : Except Fault (List Statement) :=
  match cell scope segment index with
  | .error fault => .error fault
  | .ok (.number _) => .error .popConstant
  | .ok (.behind base) =>
    .ok ([.constant index, .store .toD .a, atPointer base, .store .toD .dPlusM,
      atRegister noteRegister, .store .toM .d] ++ popD ++
      [atRegister noteRegister, .store .toA .m, .store .toM .d])
  | .ok (.fixed operand) => .ok (popD ++ [.address operand, .store .toM .d])

/-- Push a zero. -/
def pushZero : List Statement :=
  [atPointer .sp, .store .toA .m, .store .toM .zero, atPointer .sp, .store .toM .mPlusOne]

/-- Start a function: its label, and a zero for each local variable. -/
def function (name : String) (locals : Word) : List Statement :=
  .label name :: (List.replicate locals.toNat pushZero).flatten

/-- The pointers that a call saves, in the order of saving. -/
def savedPointers : List Pointer := [.lcl, .arg, .thisBase, .thatBase]

/-- Push the value of a pointer. -/
def save (pointer : Pointer) : List Statement := [atPointer pointer, .store .toD .m] ++ pushD

/-- Call a function: save the return address and the pointers, move `ARG` to the
first argument and `LCL` to the top of the stack, jump, and go on at the return
label. -/
def call (scope : Scope) (name : String) (arguments : Word) : List Statement :=
  [.reference scope.returnLabel, .store .toD .a] ++ pushD ++ savedPointers.flatMap save ++
    [atPointer .sp, .store .toD .m, .constant (arguments + BitVec.ofNat 16 Command.frameSize),
      .store .toD .dMinusA, atPointer .arg, .store .toM .d, atPointer .sp, .store .toD .m,
      atPointer .lcl, .store .toM .d] ++
    [.reference name, .branch .zero .always, .label scope.returnLabel]

/-- Take a pointer back from the frame, whose upper end is in `R13`. -/
def restore (pointer : Pointer) : List Statement :=
  [atRegister noteRegister, .store .toAM .mMinusOne, .store .toD .m, atPointer pointer,
    .store .toM .d]

/-- Return: keep the frame in `R13` and the return address in `R14`, put the
value in place of the first argument, take the pointers back, and jump. -/
def leave : List Statement :=
  [atPointer .lcl, .store .toD .m, atRegister noteRegister, .store .toM .d,
    .constant (BitVec.ofNat 16 Command.frameSize), .store .toA .dMinusA, .store .toD .m,
    atRegister linkRegister, .store .toM .d] ++
    popD ++
    [atPointer .arg, .store .toA .m, .store .toM .d, atPointer .arg, .store .toD .mPlusOne,
      atPointer .sp, .store .toM .d] ++
    savedPointers.reverse.flatMap restore ++
    [atRegister linkRegister, .store .toA .m, .branch .zero .always]

/-- The function name under which the bootstrap calls the entry function. -/
def bootScope : Scope := Scope.ofFile "Bootstrap"

/-- The code of a call depends on its place only by the label behind the call. -/
theorem call_within_bootScope (scope : Scope) (name : String) (arguments : Word) :
    call (scope.within bootScope.function bootScope.calls) name arguments =
      call bootScope name arguments := by
  have hlabel : (scope.within bootScope.function bootScope.calls).returnLabel =
      bootScope.returnLabel := rfl
  rw [call, call, hlabel]

/-- Give a pointer a negative number, so that its first use without a function
is seen. -/
def poison (pointer : Pointer) (magnitude : Word) : List Statement :=
  [.constant magnitude, .store .toD .negA, atPointer pointer, .store .toM .d]

/-- The bootstrap in front of its call: set up the stack and fill the other
pointers with negative numbers. -/
def bootSetup : List Statement :=
  [.constant (BitVec.ofNat 16 MemoryMap.stackBase), .store .toD .a, atPointer .sp, .store .toM .d,
    atPointer .lcl, .store .toM .minusOne] ++
    poison .arg 2 ++ poison .thisBase 3 ++ poison .thatBase 4

/-- The bootstrap: set everything up and call the entry function. -/
def boot (entry : String) : List Statement := bootSetup ++ call bootScope entry 0

end Code

/-- The code of a command at its place. -/
def Command.code (scope : Scope) : Command → Except Fault (List Statement)
  | .arithmetic operation => .ok (Code.arithmetic scope operation)
  | .push segment index => Code.push scope segment index
  | .pop segment index => Code.pop scope segment index
  | .label name => .ok [.label (scope.labelName name)]
  | .goto name => .ok [.reference (scope.labelName name), .branch .zero .always]
  | .ifGoto name => .ok (Code.popD ++ [.reference (scope.labelName name), .branch .d .ne])
  | .function name locals => .ok (Code.function name locals)
  | .call name arguments => .ok (Code.call scope name arguments)
  | .return_ => .ok Code.leave

/-- Check a command and give its code. -/
def Command.compile (scope : Scope) (command : Command) : Except Fault (List Statement) :=
  match command.check with
  | .error fault => .error fault
  | .ok () => command.code scope

end HK16.Bytecode
