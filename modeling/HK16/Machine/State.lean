import HK16.Instruction.Basic
import HK16.Machine.Fault
import HK16.Machine.Memory

/-!
# The machine and its steps

A machine holds a program, data memory, the registers `A` and `D` and the
program counter. A step executes the word at the program counter. The address
in `A` before the step is the one that is read, written and jumped to.

A machine is done when the counter has left the program, or when a jump that
stores nothing has closed the loop of two instructions that loads its own
address and jumps there. Only a taken jump decides about that loop again.
-/

namespace HK16.Machine

/-- The words of a program, which fit in program memory. -/
structure Rom where
  /-- The words, from address zero on. -/
  words : Array Word
  /-- Program memory has 32768 words. -/
  size_le : words.size ≤ 32768
  deriving DecidableEq

/-- The program without words. -/
def Rom.empty : Rom := ⟨#[], by simp⟩

/-- Put words into program memory. -/
def Rom.ofWords (words : List Word) : Except Fault Rom :=
  if h : words.toArray.size ≤ 32768 then .ok ⟨words.toArray, h⟩
  else .error (.programTooLarge words.length)

/-- A machine between two steps. -/
structure State where
  /-- The program. -/
  rom : Rom
  /-- Data memory. -/
  memory : Memory
  /-- The address register. -/
  a : Word
  /-- The data register. -/
  d : Word
  /-- The program counter. -/
  pc : Word
  /-- Whether the last taken jump closed the endless loop. -/
  halted : Bool
  deriving DecidableEq

namespace State

/-- A machine without a program, with everything zero. -/
def initial : State := ⟨.empty, .zero, 0, 0, 0, false⟩

/-- Restart with a program. Data memory is kept. -/
def start (state : State) (rom : Rom) : State := ⟨rom, state.memory, 0, 0, 0, false⟩

/-- Load words as a program and restart. -/
def load (state : State) (words : List Word) : Except Fault State :=
  (Rom.ofWords words).map state.start

/-- The word at the program counter. -/
def word? (state : State) : Option Word := state.rom.words[state.pc.toNat]?

/-- Whether the machine has nothing more to do. -/
def done (state : State) : Bool :=
  state.halted || decide (state.rom.words.size ≤ state.pc.toNat)

/-- What stands at the program counter. -/
inductive Fetched
  /-- The counter is behind the program. -/
  | nothing
  /-- The word is no instruction. -/
  | illegal (word : Word)
  /-- The word is an instruction. -/
  | instruction (word : Word) (instruction : Instruction)
  deriving Repr, DecidableEq

/-- Fetch and decode the word at the program counter. -/
def fetch (state : State) : Fetched :=
  match state.word? with
  | none => .nothing
  | some word =>
    match Instruction.decode? word with
    | none => .illegal word
    | some instruction => .instruction word instruction

/-- The second operand of a computation. -/
def operand (state : State) (comp : Computation) : Word :=
  if comp.readsMemory then state.memory.get state.a else state.a

/-- The result of a computation. -/
def result (state : State) (comp : Computation) : Word :=
  comp.eval state.d (state.operand comp)

/-- Whether a jump to the target from the program counter closes the loop that
loads its own address and jumps there. -/
def closesLoop (state : State) (target : Word) : Bool :=
  decide (target + 1 = state.pc) &&
    decide (state.rom.words[target.toNat]? = some (Instruction.load target).encode)

/-- Whether an optional jump is taken on a result. -/
def jumps (jump : Option Jump) (out : Word) : Bool :=
  match jump with
  | none => false
  | some jump => jump.holds out

/-- Execute one instruction. -/
def execute (state : State) : Instruction → State
  | .load value => { state with a := value, pc := state.pc + 1 }
  | .compute c =>
    let out := state.result c.comp
    let taken := jumps c.jump out
    let closes := c.dest.isEmpty && state.closesLoop state.a
    { rom := state.rom
      memory := if c.dest.m then state.memory.set state.a out else state.memory
      a := if c.dest.a then out else state.a
      d := if c.dest.d then out else state.d
      pc := if taken then state.a else state.pc + 1
      halted := if taken then closes else state.halted }

/-- Execute the word at the program counter. Behind the program nothing happens. -/
def step (state : State) : Except Fault State :=
  match state.fetch with
  | .nothing => .ok state
  | .illegal word => .error (.illegalInstruction state.pc word)
  | .instruction _ instruction => .ok (state.execute instruction)

/-- A step with the address and the word that it executes. Behind the program,
where nothing happens, zero stands for the word. -/
@[inline] def tracedStep (state : State) : Except Fault (Word × Word × State) :=
  let address := state.pc
  match state.fetch with
  | .nothing => .ok (address, 0, state)
  | .illegal word => .error (.illegalInstruction address word)
  | .instruction word instruction => .ok (address, word, state.execute instruction)

/-- Write several cells of data memory. -/
def preset (state : State) (presets : List (Word × Word)) : State :=
  { state with memory := state.memory.setAll presets }

end State

end HK16.Machine
