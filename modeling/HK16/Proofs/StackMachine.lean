import HK16.Bytecode.Code
import HK16.Machine.Memory
import HK16.Proofs.Layout

/-!
# The stack machine

The stack language is run here on its own, one command at a time, with nothing
but the index of the next command and data memory as its state. `SP` holds the
address of the first free cell of the stack. Functions, calls and returns are
not part of this machine: it runs the commands that compute, move values and
branch.
-/

namespace HK16.Bytecode

namespace Stack

/-- The address of the first free cell. -/
def pointer (memory : Memory) : Word := memory.get Pointer.sp.address

/-- The topmost value. -/
def top (memory : Memory) : Word := memory.get (pointer memory - 1)

/-- The value below the topmost one. -/
def second (memory : Memory) : Word := memory.get (pointer memory - 2)

/-- Put a value on the stack. -/
def push (memory : Memory) (value : Word) : Memory :=
  (memory.set (pointer memory) value).set Pointer.sp.address (pointer memory + 1)

/-- Give up the topmost value. -/
def drop (memory : Memory) : Memory := memory.set Pointer.sp.address (pointer memory - 1)

/-- Replace the topmost value. -/
def replace (memory : Memory) (value : Word) : Memory := memory.set (pointer memory - 1) value

/-- Replace the two topmost values by one. -/
def combine (memory : Memory) (value : Word) : Memory :=
  (drop memory).set (pointer memory - 2) value

variable {memory : Memory}

/-- Pointers lie below the stack. -/
theorem pointer_ne_of_le {pointer : Pointer} {address : Word} (h : 256 ≤ address.toNat) :
    pointer.address ≠ address := by
  rintro rfl
  cases pointer <;> exact absurd h (by decide)

/-- Registers lie below the stack. -/
theorem register_ne_of_le {register : Register} {address : Word} (h : 256 ≤ address.toNat) :
    Register.address register ≠ address := by
  rintro rfl
  have hlt := register.isLt
  rw [Register.address, BitVec.toNat_ofNat] at h
  omega

/-- Pushing moves the pointer up. -/
theorem pointer_push (value : Word) : pointer (push memory value) = pointer memory + 1 :=
  Memory.get_set_self _ _ _

/-- A pushed value stands where the pointer was. -/
theorem get_push {address : Word} (value : Word) (h : address ≠ 0) :
    (push memory value).get address =
      if pointer memory = address then value else memory.get address := by
  have hsp : Pointer.sp.address ≠ address := Ne.symm h
  rw [push, Memory.get_set_of_ne _ _ hsp, Memory.get_set]

/-- The values below the popped one stay. -/
theorem get_drop {address : Word} (h : address ≠ 0) :
    (drop memory).get address = memory.get address :=
  Memory.get_set_of_ne memory _ (Ne.symm h)

/-- Popping moves the pointer down. -/
theorem pointer_drop : pointer (drop memory) = pointer memory - 1 :=
  Memory.get_set_self memory _ _

/-- Replacing the value that is topmost after one was popped. -/
theorem replace_drop (value : Word) :
    replace (drop memory) value = combine memory value := by
  have hbelow : pointer memory - 1 - 1 = pointer memory - 2 := by bv_omega
  rw [replace, pointer_drop, hbelow, combine]

end Stack

/-- The word of a truth value. -/
def truthWord (truth : Bool) : Word := if truth then -1 else 0

namespace Arithmetic

/-- The number of values that an operation takes from the stack. -/
def operands : Arithmetic → Nat
  | neg | not => 1
  | _ => 2

/-- What an operation does to the stack. Comparisons look at the difference of
the two values as a signed number of sixteen bits. -/
def effect (operation : Arithmetic) (memory : Memory) : Memory :=
  let x := Stack.second memory
  let y := Stack.top memory
  match operation with
  | neg => Stack.replace memory (-y)
  | not => Stack.replace memory (~~~y)
  | add => Stack.combine memory (x + y)
  | sub => Stack.combine memory (x - y)
  | and => Stack.combine memory (x &&& y)
  | or => Stack.combine memory (x ||| y)
  | eq => Stack.combine memory (truthWord ((x - y).toInt = 0))
  | gt => Stack.combine memory (truthWord (0 < (x - y).toInt))
  | lt => Stack.combine memory (truthWord ((x - y).toInt < 0))

end Arithmetic

namespace Segment

/-- The pointer behind which the cells of a segment lie, if there is one. -/
def base? : Segment → Option Pointer
  | locals => some .lcl
  | argument => some .arg
  | thisBase => some .thisBase
  | thatBase => some .thatBase
  | _ => none

/-- The address of a cell of a segment, where static variables have the given
addresses. A number has no address of its own. -/
def cellAddress (staticAddress : Word → Word) (memory : Memory) (segment : Segment)
    (index : Word) : Word :=
  match segment.base?, segment with
  | some base, _ => memory.get base.address + index
  | none, static => staticAddress index
  | none, temp => MemoryMap.tempBase + index
  | none, pointer => Pointer.thisBase.address + index
  | none, _ => index

/-- The value that a push takes from a segment. -/
def value (staticAddress : Word → Word) (memory : Memory) (segment : Segment)
    (index : Word) : Word :=
  match segment with
  | constant => index
  | _ => memory.get (cellAddress staticAddress memory segment index)

/-- Take the topmost value into a cell of a segment. A cell behind a pointer has
its address in `R13` meanwhile, where it stays. -/
def popInto (staticAddress : Word → Word) (memory : Memory) (segment : Segment)
    (index : Word) : Memory :=
  let target := cellAddress staticAddress memory segment index
  let noted :=
    if segment.base?.isSome then memory.set (Register.address Code.noteRegister) target else memory
  (Stack.drop noted).set target (Stack.top memory)

end Segment

/-- The number of values that a command takes from the stack. -/
def Command.operands : Command → Nat
  | arithmetic operation => operation.operands
  | pop _ _ | ifGoto _ => 1
  | _ => 0

/-- The commands that compute, move values and branch. -/
def Command.isLocal : Command → Bool
  | function _ _ | call _ _ | return_ => false
  | _ => true

/-- The indices of the static variables that commands use, in order and with
repetitions. -/
def staticIndices (commands : List Command) : List Word :=
  commands.filterMap fun
    | .push .static index | .pop .static index => some index
    | _ => none

/-- Static variables take cells in the order of their first use. -/
def staticAddress (commands : List Command) (index : Word) : Word :=
  BitVec.ofNat 16 (MemoryMap.variableBase + Assembly.firstIndex (staticIndices commands) index)

/-- The stack machine between two commands. -/
structure Configuration where
  /-- The index of the next command. -/
  index : Nat
  /-- Data memory. -/
  memory : Memory

namespace Configuration

/-- Continue at the index of a label. -/
def jumpTo (commands : List Command) (name : String) (memory : Memory) : Option Configuration :=
  (commands.idxOf? (.label name)).map fun index => ⟨index, memory⟩

/-- Perform the next command. There is none behind the last command, and
functions are not part of this machine. -/
def step (commands : List Command) (c : Configuration) : Option Configuration :=
  match commands[c.index]? with
  | some (.arithmetic operation) => some ⟨c.index + 1, operation.effect c.memory⟩
  | some (.push segment index) =>
    some ⟨c.index + 1,
      Stack.push c.memory (segment.value (staticAddress commands) c.memory index)⟩
  | some (.pop segment index) =>
    some ⟨c.index + 1, segment.popInto (staticAddress commands) c.memory index⟩
  | some (.label _) => some ⟨c.index + 1, c.memory⟩
  | some (.goto name) => jumpTo commands name c.memory
  | some (.ifGoto name) =>
    if Stack.top c.memory = 0 then some ⟨c.index + 1, Stack.drop c.memory⟩
    else jumpTo commands name (Stack.drop c.memory)
  | _ => none

/-- Perform a number of commands. -/
def steps (commands : List Command) : Nat → Configuration → Option Configuration
  | 0, c => some c
  | n + 1, c => (step commands c).bind (steps commands n)

/-- The stack has the operands of the next command above its fixed first cell,
and a free cell below the end of memory. -/
def HasRoom (commands : List Command) (c : Configuration) : Prop :=
  ∀ command, commands[c.index]? = some command →
    MemoryMap.stackBase + command.operands ≤ (Stack.pointer c.memory).toNat ∧
      (Stack.pointer c.memory).toNat < 65535

end Configuration

end HK16.Bytecode
