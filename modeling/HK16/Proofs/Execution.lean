import HK16.Machine.Run
import HK16.Proofs.Placement

/-!
# Execution of assembled code

Code without jumps acts on data memory and the two registers as a function,
which is the composition of what its statements do. A machine whose program
holds the code follows that function step by step and ends behind the code. A
jump moves the program counter only. The flag of the endless loop is left open:
it has no influence on steps.
-/

namespace HK16.Machine

open Assembly

/-- Perform a number of steps, as long as none of them meets a fault. -/
def State.steps : Nat → State → Except Fault State
  | 0, state => .ok state
  | n + 1, state =>
    match state.step with
    | .ok next => State.steps n next
    | .error fault => .error fault

/-- Steps can be performed in two parts. -/
theorem State.steps_add {m n : Nat} {state middle final : State}
    (hm : state.steps m = .ok middle) (hn : middle.steps n = .ok final) :
    state.steps (m + n) = .ok final := by
  induction m generalizing state with
  | zero =>
    cases hm
    rwa [Nat.zero_add]
  | succ m ih =>
    rw [State.steps] at hm
    rw [Nat.succ_add, State.steps]
    cases hs : state.step with
    | error fault => rw [hs] at hm; cases hm
    | ok next =>
      rw [hs] at hm
      exact ih hm

/-- Steps do not change the program. -/
theorem State.rom_of_steps {n : Nat} {state final : State} (h : state.steps n = .ok final) :
    final.rom = state.rom := by
  induction n generalizing state with
  | zero => cases h; rfl
  | succ n ih =>
    rw [State.steps] at h
    cases hs : state.step with
    | error fault => rw [hs] at h; cases h
    | ok next =>
      rw [hs] at h
      have hnext : next.rom = state.rom := by
        rw [State.step] at hs
        split at hs
        · cases hs; rfl
        · cases hs
        · next word instruction _ =>
          cases hs
          cases instruction <;> rfl
      rw [ih h, hnext]

/-- Data memory and the two registers: what instructions compute on. -/
structure Data where
  /-- Data memory. -/
  memory : Memory
  /-- The address register. -/
  a : Word
  /-- The data register. -/
  d : Word

/-- The data of a machine. -/
def State.data (state : State) : Data := ⟨state.memory, state.a, state.d⟩

namespace Data

/-- The value of a computation. -/
def result (x : Data) (comp : Computation) : Word := comp.denote x.d x.a (x.memory.get x.a)

/-- Write a word to a destination; memory is written at the old address. -/
def store (x : Data) (dest : Destination) (out : Word) : Data :=
  ⟨if dest.m then x.memory.set x.a out else x.memory, if dest.a then out else x.a,
    if dest.d then out else x.d⟩

/-- What one statement does to the data, in a program that gives symbols their
addresses. -/
def apply (program : List Statement) (x : Data) : Statement → Data
  | .address (.literal value) => { x with a := value }
  | .address (.symbol name) => { x with a := addressIn program name }
  | .label _ => x
  | .compute c => x.store c.dest (x.result c.comp)

/-- What statements do to the data one after the other. -/
def applyAll (program : List Statement) (x : Data) (code : List Statement) : Data :=
  code.foldl (apply program) x

@[simp] theorem applyAll_nil (program : List Statement) (x : Data) :
    x.applyAll program [] = x := rfl

@[simp] theorem applyAll_cons (program : List Statement) (x : Data) (statement : Statement)
    (code : List Statement) :
    x.applyAll program (statement :: code) = (x.apply program statement).applyAll program code :=
  rfl

@[simp] theorem applyAll_append (program : List Statement) (x : Data)
    (code rest : List Statement) :
    x.applyAll program (code ++ rest) = (x.applyAll program code).applyAll program rest :=
  List.foldl_append

end Data

/-- The control lines give a machine the value that the mnemonic denotes. -/
theorem State.result_eq (state : State) (comp : Computation) :
    state.result comp = state.data.result comp := by
  rw [State.result, State.operand, Computation.eval_eq_denote]
  rfl

/-- The program leads from one address and data to another in finitely many
steps without a fault, whatever the flag of the endless loop is. -/
def Reaches (rom : Rom) (start : Word) (x : Data) (stop : Word) (y : Data) : Prop :=
  ∀ state : State, state.rom = rom → state.pc = start → state.data = x →
    ∃ n final, state.steps n = .ok final ∧ final.rom = rom ∧ final.pc = stop ∧ final.data = y

namespace Reaches

variable {rom : Rom} {p q r : Word} {x y z : Data}

/-- Nothing happens in no steps. -/
theorem refl (rom : Rom) (p : Word) (x : Data) : Reaches rom p x p x :=
  fun state hrom hpc hdata => ⟨0, state, rfl, hrom, hpc, hdata⟩

/-- Ways can be joined. -/
theorem trans (h : Reaches rom p x q y) (k : Reaches rom q y r z) : Reaches rom p x r z := by
  intro state hrom hpc hdata
  obtain ⟨m, middle, hm, hrom', hpc', hdata'⟩ := h state hrom hpc hdata
  obtain ⟨n, final, hn, hrom'', hpc'', hdata''⟩ := k middle hrom' hpc' hdata'
  exact ⟨m + n, final, State.steps_add hm hn, hrom'', hpc'', hdata''⟩

end Reaches

/-- The program leads from one address and memory to another, whatever the two
registers hold. -/
def Runs (rom : Rom) (start : Word) (memory : Memory) (stop : Word) (memory' : Memory) : Prop :=
  ∀ a d, ∃ a' d', Reaches rom start ⟨memory, a, d⟩ stop ⟨memory', a', d'⟩

namespace Runs

variable {rom : Rom} {p q r : Word} {x y z : Memory}

/-- Nothing happens in no steps. -/
theorem refl (rom : Rom) (p : Word) (x : Memory) : Runs rom p x p x :=
  fun a d => ⟨a, d, Reaches.refl rom p _⟩

/-- Runs can be joined. -/
theorem trans (h : Runs rom p x q y) (k : Runs rom q y r z) : Runs rom p x r z := by
  intro a d
  obtain ⟨a', d', hxy⟩ := h a d
  obtain ⟨a'', d'', hyz⟩ := k a' d'
  exact ⟨a'', d'', hxy.trans hyz⟩

/-- A machine at the start of a run gets to its end. -/
theorem steps (h : Runs rom p x q y) (state : State) (hrom : state.rom = rom)
    (hpc : state.pc = p) (hmemory : state.memory = x) :
    ∃ n final, state.steps n = .ok final ∧ final.rom = rom ∧ final.pc = q ∧ final.memory = y := by
  obtain ⟨a', d', hreach⟩ := h state.a state.d
  obtain ⟨n, final, hn, hrom', hpc', hdata⟩ := hreach state hrom hpc (by rw [← hmemory]; rfl)
  exact ⟨n, final, hn, hrom', hpc', congrArg Data.memory hdata⟩

end Runs

/-- Whether a statement cannot jump. -/
def isStraight : Statement → Bool
  | .compute c => c.jump.isNone
  | _ => true

section Assembled

variable {program rest : List Statement} {rom : Rom} {address : Nat}

/-- A machine at an instruction of its program fetches this instruction. -/
theorem fetch_eq {statement : Statement} {instruction : Instruction} {state : State}
    (h : Assembled program rom) (hat : CodeAt program address (statement :: rest))
    (hi : (statement.resolve fun name => some (addressIn program name)) = some instruction)
    (hrom : state.rom = rom) (hpc : state.pc = BitVec.ofNat 16 address) :
    ∃ word, state.fetch = .instruction word instruction := by
  have hinst : statement.isInstruction = true := by
    cases statement with
    | label name => cases hi
    | address operand => rfl
    | compute fields => rfl
  obtain ⟨hlt, word, hword, hdecode⟩ := h.decode?_word hat hinst
  have hplace : (BitVec.ofNat 16 address).toNat = address := by
    rw [BitVec.toNat_ofNat, Nat.mod_eq_of_lt (by omega)]
  refine ⟨word, ?_⟩
  simp only [State.fetch, State.word?, hrom, hpc, hplace, hword, hdecode, hi]

/-- Executing the instruction of a statement without a jump moves the counter on
and does what `Data.apply` says. -/
theorem execute_of_isStraight {statement : Statement} {instruction : Instruction} (state : State)
    (hi : (statement.resolve fun name => some (addressIn program name)) = some instruction)
    (hjump : isStraight statement = true) :
    (state.execute instruction).rom = state.rom ∧ (state.execute instruction).pc = state.pc + 1 ∧
      (state.execute instruction).data = state.data.apply program statement := by
  cases statement with
  | label name => cases hi
  | address operand => cases operand <;> cases hi <;> exact ⟨rfl, rfl, rfl⟩
  | compute c =>
    cases hi
    have hc : c.jump = none := Option.isNone_iff_eq_none.mp hjump
    refine ⟨rfl, ?_, ?_⟩
    · simp only [State.execute, hc, State.jumps, Bool.false_eq_true, if_false]
    · simp only [State.data, State.execute, State.result_eq]
      rfl

/-- One statement without a jump does what `Data.apply` says. -/
theorem reaches_apply {statement : Statement} (h : Assembled program rom)
    (hat : CodeAt program address (statement :: rest)) (hjump : isStraight statement = true)
    (x : Data) :
    Reaches rom (BitVec.ofNat 16 address) x
      (BitVec.ofNat 16 (address + wordCount [statement])) (x.apply program statement) := by
  intro state hrom hpc hdata
  subst hdata
  cases hi : statement.resolve fun name => some (addressIn program name) with
  | none =>
    cases statement with
    | label name => exact ⟨0, state, rfl, hrom, hpc, rfl⟩
    | address operand => cases operand <;> cases hi
    | compute c => cases hi
  | some instruction =>
    have hcount : wordCount [statement] = 1 := by
      cases statement with
      | label name => cases hi
      | address operand => rfl
      | compute c => rfl
    obtain ⟨word, hfetch⟩ := fetch_eq h hat hi hrom hpc
    obtain ⟨hrom', hpc', hdata⟩ := execute_of_isStraight state hi hjump
    refine ⟨1, state.execute instruction, ?_, hrom'.trans hrom, ?_, hdata⟩
    · simp only [State.steps, State.step, hfetch]
    · rw [hpc', hpc, hcount, BitVec.ofNat_add]
      rfl

/-- Code without jumps, labels included, is executed from its start to its end. -/
theorem reaches_applyAll {code : List Statement} (h : Assembled program rom)
    (hat : CodeAt program address code) (hjump : code.all isStraight = true) (x : Data) :
    Reaches rom (BitVec.ofNat 16 address) x (BitVec.ofNat 16 (address + wordCount code))
      (x.applyAll program code) := by
  induction code generalizing address x with
  | nil => exact Reaches.refl rom _ x
  | cons statement code ih =>
    rw [List.all_cons, Bool.and_eq_true] at hjump
    have hfirst := reaches_apply h hat hjump.1 x
    have hrest := ih hat.tail hjump.2 (x.apply program statement)
    have hcount : address + wordCount [statement] + wordCount code =
        address + wordCount (statement :: code) := by
      rw [Nat.add_assoc, ← wordCount_append, List.singleton_append]
    rw [hcount] at hrest
    exact hfirst.trans hrest

/-- Code without jumps that changes memory in the same way for all registers. -/
theorem runs_applyAll {code : List Statement} {x y : Memory} (h : Assembled program rom)
    (hat : CodeAt program address code) (hjump : code.all isStraight = true)
    (hmemory : ∀ a d, ((⟨x, a, d⟩ : Data).applyAll program code).memory = y) :
    Runs rom (BitVec.ofNat 16 address) x (BitVec.ofNat 16 (address + wordCount code)) y := by
  intro a d
  rw [← hmemory a d]
  exact ⟨_, _, reaches_applyAll h hat hjump ⟨x, a, d⟩⟩

/-- A jump leads to the address in `A` if the condition holds, else behind it,
and leaves the data as they are. -/
theorem reaches_branch {comp : Computation} {jump : Jump} (h : Assembled program rom)
    (hat : CodeAt program address (.branch comp jump :: rest)) (x : Data) :
    Reaches rom (BitVec.ofNat 16 address) x
      (if jump.holds (x.result comp) then x.a else BitVec.ofNat 16 (address + 1)) x := by
  intro state hrom hpc hdata
  obtain ⟨word, hfetch⟩ := fetch_eq h hat rfl hrom hpc
  have hnext : state.pc + 1 = BitVec.ofNat 16 (address + 1) := by
    rw [hpc, BitVec.ofNat_add]
    rfl
  subst hdata
  refine ⟨1, state.execute (.compute ⟨.nowhere, comp, some jump⟩), ?_, hrom, ?_, rfl⟩
  · simp only [State.steps, State.step, hfetch]
  · simp only [State.execute, State.jumps, State.result_eq, hnext]
    rfl

/-- A jump whose condition holds leads to the address in `A`. -/
theorem reaches_branch_taken {comp : Computation} {jump : Jump} {x : Data}
    (h : Assembled program rom) (hat : CodeAt program address (.branch comp jump :: rest))
    (hjump : jump.holds (x.result comp) = true) :
    Reaches rom (BitVec.ofNat 16 address) x x.a x := by
  have hreach := reaches_branch h hat x
  rwa [if_pos hjump] at hreach

/-- A jump whose condition does not hold leads behind it. -/
theorem reaches_branch_missed {comp : Computation} {jump : Jump} {x : Data}
    (h : Assembled program rom) (hat : CodeAt program address (.branch comp jump :: rest))
    (hjump : jump.holds (x.result comp) = false) :
    Reaches rom (BitVec.ofNat 16 address) x (BitVec.ofNat 16 (address + 1)) x := by
  have hreach := reaches_branch h hat x
  rwa [if_neg (Bool.not_eq_true _ ▸ hjump)] at hreach

end Assembled

end HK16.Machine
