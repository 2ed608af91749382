import HK16.Proofs.Segments
import HK16.Proofs.UsedAssembler

/-!
# Computing on the stack

The code of an operation is executed in any program in which no label is declared
twice, wherever it stands and whatever the assembler has seen before. It replaces
the operands by the result and changes nothing else in memory. Comparisons look at
the sign of a difference of sixteen bits: equality is exact, and the two orders
are those of signed numbers exactly if the difference does not overflow.
-/

namespace HK16.Bytecode

open Assembly Machine

namespace Arithmetic

/-- The word that an operation makes of the two topmost words of the stack, the
second of which is on top. -/
def result (operation : Arithmetic) (x y : Word) : Word :=
  match operation with
  | neg => -y
  | not => ~~~y
  | add => x + y
  | sub => x - y
  | and => x &&& y
  | or => x ||| y
  | eq => truthWord ((x - y).toInt = 0)
  | gt => truthWord (0 < (x - y).toInt)
  | lt => truthWord ((x - y).toInt < 0)

/-- The cell in which the result stands, below the given first free cell: that of
the lowest operand. -/
def resultCell (operation : Arithmetic) (free : Word) : Word :=
  match operation with
  | neg | not => free - 1
  | _ => free - 2

/-- What an operation does to memory, cell by cell. -/
structure Computed (operation : Arithmetic) (before after : Memory) : Prop where
  /-- The first free cell is the one behind the result. -/
  pointer : Stack.pointer after = operation.resultCell (Stack.pointer before) + 1
  /-- The result has replaced the lowest operand. -/
  result : after.get (operation.resultCell (Stack.pointer before)) =
    operation.result (Stack.second before) (Stack.top before)
  /-- All other cells are as they were. -/
  other : ∀ address, address ≠ Pointer.sp.address →
    address ≠ operation.resultCell (Stack.pointer before) →
      after.get address = before.get address

variable {memory : Memory}

/-- Replacing the topmost value, cell by cell. -/
theorem computed_replace {operation : Arithmetic} (h : 258 ≤ (Stack.pointer memory).toNat)
    (hcell : operation.resultCell (Stack.pointer memory) = Stack.pointer memory - 1) :
    operation.Computed memory
      (Stack.replace memory (operation.result (Stack.second memory) (Stack.top memory))) := by
  have hlow : 256 ≤ (Stack.pointer memory - 1).toNat := by bv_omega
  have hback : Stack.pointer memory - 1 + 1 = Stack.pointer memory := by bv_omega
  refine ⟨?_, ?_, fun address _ hne => ?_⟩
  · rw [hcell, hback]
    exact Memory.get_set_of_ne memory _ (Stack.pointer_ne_of_le hlow).symm
  · rw [hcell]
    exact Memory.get_set_self memory _ _
  · rw [hcell] at hne
    exact Memory.get_set_of_ne memory _ hne.symm

/-- Replacing the two topmost values by one, cell by cell. -/
theorem computed_combine {operation : Arithmetic} (h : 258 ≤ (Stack.pointer memory).toNat)
    (hcell : operation.resultCell (Stack.pointer memory) = Stack.pointer memory - 2) :
    operation.Computed memory
      (Stack.combine memory (operation.result (Stack.second memory) (Stack.top memory))) := by
  have hlow : 256 ≤ (Stack.pointer memory - 2).toNat := by bv_omega
  have hback : Stack.pointer memory - 2 + 1 = Stack.pointer memory - 1 := by bv_omega
  refine ⟨?_, ?_, fun address hsp hne => ?_⟩
  · rw [hcell, hback]
    exact (Memory.get_set_of_ne _ _ (Stack.pointer_ne_of_le hlow).symm).trans Stack.pointer_drop
  · rw [hcell]
    exact Memory.get_set_self _ _ _
  · rw [hcell] at hne
    exact (Memory.get_set_of_ne _ _ hne.symm).trans (Stack.get_drop hsp)

/-- The effect of an operation on the stack, cell by cell. -/
theorem computed_effect (operation : Arithmetic) (h : 258 ≤ (Stack.pointer memory).toNat) :
    operation.Computed memory (operation.effect memory) := by
  cases operation with
  | neg | not => exact computed_replace h rfl
  | add | sub | and | or | eq | gt | lt => exact computed_combine h rfl

end Arithmetic

/-! ## Signs of differences -/

/-- The difference of two signed words fits in a word, or the word has the wrong
sign. -/
theorem toInt_sub_cases (x y : Word) :
    (-32768 ≤ x.toInt - y.toInt ∧ x.toInt - y.toInt ≤ 32767 ∧
      (x - y).toInt = x.toInt - y.toInt) ∨
    (32767 < x.toInt - y.toInt ∧ (x - y).toInt < 0) ∨
    (x.toInt - y.toInt < -32768 ∧ 0 < (x - y).toInt) := by
  have hx : -32768 ≤ x.toInt ∧ x.toInt < 32768 := ⟨x.le_toInt, x.toInt_lt⟩
  have hy : -32768 ≤ y.toInt ∧ y.toInt < 32768 := ⟨y.le_toInt, y.toInt_lt⟩
  have hwrap : (x - y).toInt = (x.toInt - y.toInt).bmod 65536 := BitVec.toInt_sub
  rw [Int.bmod] at hwrap
  split at hwrap <;> omega

/-- A difference of sixteen bits is zero exactly for equal words. -/
theorem toInt_sub_eq_zero_iff (x y : Word) : (x - y).toInt = 0 ↔ x = y := by
  have hsigned : x = y ↔ x.toInt = y.toInt := BitVec.toInt_inj.symm
  have hcases := toInt_sub_cases x y
  rw [hsigned]
  omega

/-- A difference is positive for the greater word, and for no other, exactly if
it does not overflow. -/
theorem toInt_sub_pos_iff (x y : Word) :
    (0 < (x - y).toInt ↔ y.toInt < x.toInt) ↔
      -32768 ≤ x.toInt - y.toInt ∧ x.toInt - y.toInt ≤ 32767 := by
  rcases toInt_sub_cases x y with ⟨hlow, hhigh, heq⟩ | ⟨hhigh, hneg⟩ | ⟨hlow, hpos⟩
  · exact ⟨fun _ => ⟨hlow, hhigh⟩, fun _ => by omega⟩
  · refine ⟨fun hiff => ?_, fun hrange => by omega⟩
    have hpos := hiff.mpr (by omega)
    omega
  · refine ⟨fun hiff => ?_, fun hrange => by omega⟩
    have hless := hiff.mp hpos
    omega

/-- A difference is negative for the smaller word, and for no other, exactly if
it does not overflow. -/
theorem toInt_sub_neg_iff (x y : Word) :
    ((x - y).toInt < 0 ↔ x.toInt < y.toInt) ↔
      -32768 ≤ x.toInt - y.toInt ∧ x.toInt - y.toInt ≤ 32767 := by
  rcases toInt_sub_cases x y with ⟨hlow, hhigh, heq⟩ | ⟨hhigh, hneg⟩ | ⟨hlow, hpos⟩
  · exact ⟨fun _ => ⟨hlow, hhigh⟩, fun _ => by omega⟩
  · refine ⟨fun hiff => ?_, fun hrange => by omega⟩
    have hless := hiff.mp hneg
    omega
  · refine ⟨fun hiff => ?_, fun hrange => by omega⟩
    have hneg := hiff.mpr (by omega)
    omega

/-- The two words of truth values. -/
theorem truthWord_eq_iff (truth : Bool) :
    (truthWord truth = 0xFFFF ↔ truth = true) ∧ (truthWord truth = 0 ↔ truth = false) := by
  cases truth <;> decide

/-! ## The code in its program -/

/-- The symbols in the code of an operation are predefined or declared by it. -/
theorem not_isFree_arithmetic {program : List Statement} {scope : Scope} {operation : Arithmetic}
    (hlabels : ∀ name ∈ labelNames (Code.arithmetic scope operation),
      Statement.label name ∈ program) :
    ∀ name ∈ references (Code.arithmetic scope operation), ¬IsFree program name := by
  have hsp := not_isFree_pointer program .sp
  have hcompare (h : ∀ name ∈ [scope.trueLabel, scope.endLabel], Statement.label name ∈ program) :
      ∀ name ∈ [Pointer.sp.name, scope.trueLabel, Pointer.sp.name, scope.endLabel,
        Pointer.sp.name], ¬IsFree program name := by
    have htrue : ¬IsFree program scope.trueLabel := fun hfree => hfree.2 (h _ (by simp))
    have hend : ¬IsFree program scope.endLabel := fun hfree => hfree.2 (h _ (by simp))
    simp [hsp, htrue, hend]
  have hsimple : ∀ name ∈ [Pointer.sp.name], ¬IsFree program name := by
    simp [hsp]
  cases operation with
  | eq | gt | lt => exact hcompare hlabels
  | add | sub | neg | and | or | not => exact hsimple

/-- The code of an operation runs from its beginning to its end and does what the
operation does to the stack, whatever the assembler has seen before. -/
theorem runs_arithmetic_used {requests : List Request} {placed : List Placed} {words : List Word}
    {rom : Machine.Rom} {address : Nat} {scope : Scope} {operation : Arithmetic} {memory : Memory}
    (hwords : (assembleProgram (SymbolTable.predefined.afterAll requests) placed).2 = .ok words)
    (hrom : Rom.ofWords words = .ok rom) (hlabels : (labelNames (statements placed)).Nodup)
    (hat : CodeAt (statements placed) address (Code.arithmetic scope operation))
    (hs : 258 ≤ (Stack.pointer memory).toNat) :
    Runs rom (BitVec.ofNat 16 address) memory
      (BitVec.ofNat 16 (address + wordCount (Code.arithmetic scope operation)))
      (operation.effect memory) := by
  have hdeclared : ∀ name ∈ labelNames (Code.arithmetic scope operation),
      Statement.label name ∈ statements placed := by
    intro name hname
    obtain ⟨before, after, hsplit, -⟩ := hat
    rw [hsplit]
    exact List.mem_append_left _ (List.mem_append_right _ (mem_labelNames.mp hname))
  have hroom : MemoryMap.stackBase + operation.operands ≤ (Stack.pointer memory).toNat := by
    have htwo : operation.operands ≤ 2 := by cases operation <;> decide
    rw [MemoryMap.stackBase]
    omega
  refine Code.runs_arithmetic (assembled_settled hwords hrom)
    (codeAt_settled hat (not_isFree_arithmetic hdeclared)) ?_ hroom
  rw [labelNames_settled]
  exact hlabels

/-- The code of an operation in an assembled program without repeated labels takes
a machine in front of it to the instruction behind it. The result has replaced the
operands, and nothing else in memory has changed. A comparison leaves all bits set
or zero. It looks at the sign of the difference of sixteen bits, which decides
equality for all words, and each order exactly if the difference of the two signed
numbers is itself one. -/
theorem operation_code_computes {requests : List Request} {placed : List Placed}
    {words : List Word} {before code after : List Statement} {scope : Scope}
    {operation : Arithmetic} {state : State}
    (hwords : (assembleProgram (SymbolTable.predefined.afterAll requests) placed).2 = .ok words)
    (hrom : Rom.ofWords words = .ok state.rom) (hlabels : (labelNames (statements placed)).Nodup)
    (hcode : (Command.arithmetic operation).compile scope = .ok code)
    (hplace : statements placed = before ++ code ++ after)
    (hpc : state.pc = BitVec.ofNat 16 (wordCount before))
    (hs : 258 ≤ (Stack.pointer state.memory).toNat) :
    (∃ n final, state.steps n = .ok final ∧ final.rom = state.rom ∧
      final.pc = BitVec.ofNat 16 (wordCount (before ++ code)) ∧
      operation.Computed state.memory final.memory) ∧
    ∀ x y : Word,
      (∀ comparison, comparison = Arithmetic.eq ∨ comparison = .gt ∨ comparison = .lt →
        comparison.result x y = 0xFFFF ∨ comparison.result x y = 0) ∧
      (Arithmetic.eq.result x y = 0xFFFF ↔ (x - y).toInt = 0) ∧
      (Arithmetic.gt.result x y = 0xFFFF ↔ 0 < (x - y).toInt) ∧
      (Arithmetic.lt.result x y = 0xFFFF ↔ (x - y).toInt < 0) ∧
      (Arithmetic.eq.result x y = 0xFFFF ↔ x = y) ∧
      ((Arithmetic.gt.result x y = 0xFFFF ↔ y.toInt < x.toInt) ↔
        -32768 ≤ x.toInt - y.toInt ∧ x.toInt - y.toInt ≤ 32767) ∧
      ((Arithmetic.lt.result x y = 0xFFFF ↔ x.toInt < y.toInt) ↔
        -32768 ≤ x.toInt - y.toInt ∧ x.toInt - y.toInt ≤ 32767) := by
  constructor
  · cases hcode
    have hat : CodeAt (statements placed) (wordCount before) (Code.arithmetic scope operation) :=
      ⟨before, after, hplace, rfl⟩
    obtain ⟨n, final, hsteps, hfinal, hend, hmemory⟩ :=
      (runs_arithmetic_used hwords hrom hlabels hat hs).steps state rfl hpc rfl
    refine ⟨n, final, hsteps, hfinal, ?_, ?_⟩
    · rw [hend, wordCount_append]
    · rw [hmemory]
      exact operation.computed_effect hs
  · intro x y
    have heq : Arithmetic.eq.result x y = 0xFFFF ↔ (x - y).toInt = 0 :=
      (truthWord_eq_iff _).1.trans decide_eq_true_iff
    have hgt : Arithmetic.gt.result x y = 0xFFFF ↔ 0 < (x - y).toInt :=
      (truthWord_eq_iff _).1.trans decide_eq_true_iff
    have hlt : Arithmetic.lt.result x y = 0xFFFF ↔ (x - y).toInt < 0 :=
      (truthWord_eq_iff _).1.trans decide_eq_true_iff
    refine ⟨?_, heq, hgt, hlt, heq.trans (toInt_sub_eq_zero_iff x y), ?_, ?_⟩
    · rintro comparison (rfl | rfl | rfl) <;>
        exact (Bool.eq_false_or_eq_true _).imp (truthWord_eq_iff _).1.mpr (truthWord_eq_iff _).2.mpr
    · rw [hgt]
      exact toInt_sub_pos_iff x y
    · rw [hlt]
      exact toInt_sub_neg_iff x y

/-- The words of a comparison at the beginning of a program. -/
def sampleGreater : List Word :=
  [0, 64680, 64528, 60576, 61904, 12, 58113, 0, 64672, 60040, 15, 60039, 0, 64672, 61064]

/-- The least number is found to be greater than one, since the difference
overflows. The assembler has seen one of the two labels elsewhere before. -/
theorem sampleGreater_computed :
    ∃ n final, (presetMachine sampleGreater [(0, 258), (256, 0x8000), (257, 1)]).steps n =
        .ok final ∧ final.pc = 15 ∧ final.memory.get 256 = 0xFFFF ∧ final.memory.get 0 = 257 := by
  have hwords : (assembleProgram
      (SymbolTable.predefined.afterAll [.program [⟨0, .label "CMP_TRUE.1"⟩]])
      ((Code.arithmetic (.ofFile "Main") .gt).map (Placed.mk 0))).2 = .ok sampleGreater := by
    decide +kernel
  have hplace : statements ((Code.arithmetic (.ofFile "Main") .gt).map (Placed.mk 0)) =
      [] ++ Code.arithmetic (.ofFile "Main") .gt ++ [] := rfl
  have hrom : Rom.ofWords sampleGreater =
      .ok (presetMachine sampleGreater [(0, 258), (256, 0x8000), (257, 1)]).rom := by
    decide +kernel
  have hpointer : Stack.pointer (Memory.zero.setAll [(0, 258), (256, 0x8000), (257, 1)]) = 258 := by
    simp [Stack.pointer, Memory.setAll, Memory.get_set, Pointer.address]
  have hvalues : (Memory.zero.setAll [(0, 258), (256, 0x8000), (257, 1)]).get 256 = 0x8000 ∧
      (Memory.zero.setAll [(0, 258), (256, 0x8000), (257, 1)]).get 257 = 1 := by
    simp [Memory.setAll, Memory.get_set]
  obtain ⟨n, final, hsteps, -, hpc, hcomputed⟩ := (operation_code_computes hwords hrom
    (by decide +kernel) rfl hplace rfl (by rw [memory_presetMachine, hpointer]; decide)).1
  have hresult := hcomputed.result
  have hfree := hcomputed.pointer
  rw [memory_presetMachine, Stack.second, Stack.top, hpointer] at hresult
  rw [memory_presetMachine, hpointer] at hfree
  have hcell : Arithmetic.gt.resultCell 258 = 256 := rfl
  have hbelow : (258 : Word) - 2 = 256 ∧ (258 : Word) - 1 = 257 := ⟨rfl, rfl⟩
  rw [hcell, hbelow.1, hbelow.2, hvalues.1, hvalues.2] at hresult
  exact ⟨n, final, hsteps, hpc, hresult, hfree⟩

end HK16.Bytecode
