import HK16.Bytecode.Code
import HK16.Proofs.Execution
import HK16.Proofs.Names
import HK16.Proofs.StackMachine

/-!
# What the code of commands does

Each piece of code that a command is made of acts on data memory as the stack
machine says. The pieces without jumps are described by equations; comparisons
and branches by where they lead.
-/

namespace HK16.Machine

open Assembly Bytecode

/-! ## Single statements -/

namespace Data

variable (program : List Statement) (memory : Memory) (a d : Word)

@[simp] theorem apply_constant (value : Word) :
    (⟨memory, a, d⟩ : Data).apply program (.constant value) = ⟨memory, value, d⟩ := rfl

@[simp] theorem apply_reference (name : String) :
    (⟨memory, a, d⟩ : Data).apply program (.reference name) =
      ⟨memory, addressIn program name, d⟩ := rfl

@[simp] theorem apply_atPointer (pointer : Pointer) :
    (⟨memory, a, d⟩ : Data).apply program (Code.atPointer pointer) =
      ⟨memory, pointer.address, d⟩ := by
  rw [Code.atPointer, apply_reference, addressIn_pointer]

@[simp] theorem apply_atRegister (register : Register) :
    (⟨memory, a, d⟩ : Data).apply program (Code.atRegister register) =
      ⟨memory, Register.address register, d⟩ := by
  rw [Code.atRegister, apply_reference, addressIn_register]

@[simp] theorem apply_label (name : String) :
    (⟨memory, a, d⟩ : Data).apply program (.label name) = ⟨memory, a, d⟩ := rfl

@[simp] theorem apply_store_toA (comp : Computation) :
    (⟨memory, a, d⟩ : Data).apply program (.store .toA comp) =
      ⟨memory, comp.denote d a (memory.get a), d⟩ := rfl

@[simp] theorem apply_store_toD (comp : Computation) :
    (⟨memory, a, d⟩ : Data).apply program (.store .toD comp) =
      ⟨memory, a, comp.denote d a (memory.get a)⟩ := rfl

@[simp] theorem apply_store_toM (comp : Computation) :
    (⟨memory, a, d⟩ : Data).apply program (.store .toM comp) =
      ⟨memory.set a (comp.denote d a (memory.get a)), a, d⟩ := rfl

@[simp] theorem apply_store_toAM (comp : Computation) :
    (⟨memory, a, d⟩ : Data).apply program (.store .toAM comp) =
      ⟨memory.set a (comp.denote d a (memory.get a)), comp.denote d a (memory.get a), d⟩ := rfl

end Data

end HK16.Machine

namespace HK16.Bytecode

open Assembly Machine

/-- What compiles has its code. -/
theorem Command.code_of_compile {command : Command} {scope : Scope} {code : List Statement}
    (h : command.compile scope = .ok code) : command.code scope = .ok code := by
  rw [Command.compile] at h
  split at h
  · cases h
  · exact h

namespace Code

variable {program : List Statement} {memory : Memory} {a d : Word}

/-! ## Moving values -/

/-- Pushing `D`. -/
theorem applyAll_pushD (h : Stack.pointer memory ≠ 0) :
    (⟨memory, a, d⟩ : Data).applyAll program pushD = ⟨Stack.push memory d, 0, d⟩ := by
  have hs : memory.get Pointer.sp.address = Stack.pointer memory := rfl
  have hkeep : (memory.set (Stack.pointer memory) d).get Pointer.sp.address =
      Stack.pointer memory := Memory.get_set_of_ne memory d h
  simp only [pushD, Data.applyAll_cons, Data.applyAll_nil, Data.apply_atPointer,
    Data.apply_store_toA, Data.apply_store_toM, Computation.denote, hs, hkeep, Stack.push]
  rfl

/-- Popping into `D` leaves the address of the popped cell in `A`. -/
theorem applyAll_popD (h : Stack.pointer memory - 1 ≠ 0) :
    (⟨memory, a, d⟩ : Data).applyAll program popD =
      ⟨Stack.drop memory, Stack.pointer memory - 1, Stack.top memory⟩ := by
  have hs : memory.get Pointer.sp.address = Stack.pointer memory := rfl
  have htop : (memory.set Pointer.sp.address (Stack.pointer memory - 1)).get
      (Stack.pointer memory - 1) = Stack.top memory :=
    Memory.get_set_of_ne memory _ (Ne.symm h)
  simp only [popD, Data.applyAll_cons, Data.applyAll_nil, Data.apply_atPointer,
    Data.apply_store_toAM, Data.apply_store_toD, Computation.denote, hs, htop, Stack.drop]

/-! ## Arithmetic -/

/-- Replacing the topmost value by a computation on it. -/
theorem applyAll_unary (comp : Computation) :
    (⟨memory, a, d⟩ : Data).applyAll program (unary comp) =
      ⟨Stack.replace memory (comp.denote d (Stack.pointer memory - 1) (Stack.top memory)),
        Stack.pointer memory - 1, d⟩ := by
  have hs : memory.get Pointer.sp.address = Stack.pointer memory := rfl
  simp only [unary, Data.applyAll_cons, Data.applyAll_nil, Data.apply_atPointer,
    Data.apply_store_toA, Data.apply_store_toM, hs, Stack.replace, Stack.top]
  rfl

/-- Popping into `D` and going on to the cell below. -/
theorem applyAll_popD_below (h : 258 ≤ (Stack.pointer memory).toNat) :
    (⟨memory, a, d⟩ : Data).applyAll program (popD ++ [.store .toA .aMinusOne]) =
      ⟨Stack.drop memory, Stack.pointer memory - 2, Stack.top memory⟩ := by
  have hne : Stack.pointer memory - 1 ≠ 0 := by bv_omega
  have hbelow : Stack.pointer memory - 1 - 1 = Stack.pointer memory - 2 := by bv_omega
  rw [Data.applyAll_append, applyAll_popD hne]
  simp only [Data.applyAll_cons, Data.applyAll_nil, Data.apply_store_toA, Computation.denote,
    hbelow]

/-- Replacing the two topmost values by a computation on them. -/
theorem applyAll_binary (comp : Computation) (h : 258 ≤ (Stack.pointer memory).toNat) :
    (⟨memory, a, d⟩ : Data).applyAll program (binary comp) =
      ⟨Stack.combine memory
          (comp.denote (Stack.top memory) (Stack.pointer memory - 2) (Stack.second memory)),
        Stack.pointer memory - 2, Stack.top memory⟩ := by
  have hne : Stack.pointer memory - 2 ≠ 0 := by bv_omega
  have hcode : binary comp = popD ++ [.store .toA .aMinusOne] ++ [.store .toM comp] := rfl
  rw [hcode, Data.applyAll_append, applyAll_popD_below h]
  simp only [Data.applyAll_cons, Data.applyAll_nil, Data.apply_store_toM, Stack.get_drop hne,
    Stack.combine, Stack.second]

/-! ## Comparisons -/

/-- The pieces of a comparison: up to the first jump, the false branch up to the
second jump, and the true branch, which ends behind the comparison. -/
theorem compare_eq (scope : Scope) (jump : Jump) :
    compare scope jump =
      (popD ++ [.store .toA .aMinusOne] ++ [.store .toD .mMinusD, .reference scope.trueLabel]) ++
      (.branch .d jump :: (unary .zero ++ [.reference scope.endLabel] ++
      (.branch .zero .always ::
      (.label scope.trueLabel :: (unary .minusOne ++ [.label scope.endLabel]))))) := rfl

/-- A comparison replaces the two topmost values by the truth value of the
condition on their difference, on whichever branch. -/
theorem runs_compare {rom : Machine.Rom} {address : Nat} {scope : Scope} {jump : Jump}
    (h : Assembled program rom) (hat : CodeAt program address (compare scope jump))
    (hd : (labelNames program).Nodup) (hs : 258 ≤ (Stack.pointer memory).toNat) :
    Runs rom (BitVec.ofNat 16 address) memory
      (BitVec.ofNat 16 (address + wordCount (compare scope jump)))
      (Stack.combine memory (truthWord (jump.holds (Stack.second memory - Stack.top memory)))) := by
  have hne : Stack.pointer memory - 2 ≠ 0 := by bv_omega
  have hcount : wordCount (compare scope jump) = 15 := rfl
  rw [compare_eq] at hat
  have hfirst := hat.left
  have hsplit := hat.right
  have hfalse := hsplit.tail.left
  have hskip := hsplit.tail.right
  have htrue := hskip.tail
  have hend := htrue.tail.right
  have htrueAddress : addressIn program scope.trueLabel = BitVec.ofNat 16 (address + 12) :=
    congrArg (BitVec.ofNat 16) (htrue.symbolAddress_label (by simp) hd)
  have hendAddress : addressIn program scope.endLabel = BitVec.ofNat 16 (address + 15) :=
    congrArg (BitVec.ofNat 16) (hend.symbolAddress_label (by simp) hd)
  intro a d
  have hdifference := reaches_applyAll h hfirst rfl ⟨memory, a, d⟩
  rw [Data.applyAll_append, applyAll_popD_below hs] at hdifference
  simp only [Data.applyAll_cons, Data.applyAll_nil, Data.apply_store_toD, Data.apply_reference,
    Computation.denote, Stack.get_drop hne] at hdifference
  cases hholds : jump.holds (Stack.second memory - Stack.top memory) with
  | true =>
    have hbranch := hdifference.trans (reaches_branch_taken h hsplit hholds)
    rw [htrueAddress] at hbranch
    have hstore := reaches_applyAll h htrue rfl ⟨Stack.drop memory,
      BitVec.ofNat 16 (address + 12), Stack.second memory - Stack.top memory⟩
    simp only [Data.applyAll_cons, Data.applyAll_append, Data.applyAll_nil, Data.apply_label,
      applyAll_unary, Stack.replace_drop, Computation.denote] at hstore
    exact ⟨_, _, hbranch.trans hstore⟩
  | false =>
    have hbranch := hdifference.trans (reaches_branch_missed h hsplit hholds)
    have hstore := reaches_applyAll h hfalse rfl ⟨Stack.drop memory,
      addressIn program scope.trueLabel, Stack.second memory - Stack.top memory⟩
    simp only [Data.applyAll_cons, Data.applyAll_append, Data.applyAll_nil, applyAll_unary,
      Stack.replace_drop, Data.apply_reference, Computation.denote, hendAddress] at hstore
    exact ⟨_, _, (hbranch.trans hstore).trans (reaches_branch_taken h hskip rfl)⟩

/-- The code of an operation does what the operation does to the stack. -/
theorem runs_arithmetic {rom : Machine.Rom} {address : Nat} {scope : Scope}
    {operation : Arithmetic} (h : Assembled program rom)
    (hat : CodeAt program address (arithmetic scope operation))
    (hd : (labelNames program).Nodup)
    (hs : MemoryMap.stackBase + operation.operands ≤ (Stack.pointer memory).toNat) :
    Runs rom (BitVec.ofNat 16 address) memory
      (BitVec.ofNat 16 (address + wordCount (arithmetic scope operation)))
      (operation.effect memory) := by
  cases operation with
  | neg => exact runs_applyAll h hat rfl fun a d => by rw [arithmetic, applyAll_unary]; rfl
  | not => exact runs_applyAll h hat rfl fun a d => by rw [arithmetic, applyAll_unary]; rfl
  | add =>
    refine runs_applyAll h hat rfl fun a d => ?_
    rw [arithmetic, applyAll_binary _ hs, Computation.denote, BitVec.add_comm]
    rfl
  | sub => exact runs_applyAll h hat rfl fun a d => by rw [arithmetic, applyAll_binary _ hs]; rfl
  | and =>
    refine runs_applyAll h hat rfl fun a d => ?_
    rw [arithmetic, applyAll_binary _ hs, Computation.denote, BitVec.and_comm]
    rfl
  | or =>
    refine runs_applyAll h hat rfl fun a d => ?_
    rw [arithmetic, applyAll_binary _ hs, Computation.denote, BitVec.or_comm]
    rfl
  | eq | gt | lt =>
    have hcompare := runs_compare h hat hd hs
    rwa [Jump.holds_eq] at hcompare

/-! ## Segments -/

/-- The address of a cell in a program that gives symbols their addresses. -/
def Cell.address (program : List Statement) (memory : Memory) (index : Word) : Cell → Word
  | .number value => value
  | .behind base => memory.get base.address + index
  | .fixed (.literal value) => value
  | .fixed (.symbol name) => addressIn program name

/-- The cell that code looks for is the one that the stack machine means. Static
variables are where the program has their symbols. -/
theorem address_of_cell {scope : Scope} {segment : Segment} {index : Word} {found : Cell}
    {statics : Word → Word} (memory : Memory) (hcell : cell scope segment index = .ok found)
    (hstatic : segment = .static → addressIn program (scope.staticName index) = statics index) :
    found.address program memory index = segment.cellAddress statics memory index := by
  cases segment with
  | constant | locals | argument | thisBase | thatBase => cases hcell; rfl
  | static =>
    cases hcell
    exact hstatic rfl
  | temp =>
    simp only [cell] at hcell
    split at hcell
    · cases hcell
      rfl
    · cases hcell
  | pointer =>
    simp only [cell] at hcell
    split at hcell
    · next h0 =>
      cases hcell
      subst h0
      exact addressIn_pointer program .thisBase
    · split at hcell
      · next h1 =>
        cases hcell
        subst h1
        exact addressIn_pointer program .thatBase
      · cases hcell

/-- Only numbers have no cell, and only cells behind a pointer have a base. -/
theorem kind_of_cell {scope : Scope} {segment : Segment} {index : Word} {found : Cell}
    (hcell : cell scope segment index = .ok found) :
    (∃ base, found = .behind base ∧ segment.base? = some base) ∨
    (segment = .constant ∧ found = .number index) ∨
    (segment ≠ .constant ∧ segment.base? = none ∧ ∃ operand, found = .fixed operand) := by
  cases segment with
  | constant => cases hcell; exact .inr (.inl ⟨rfl, rfl⟩)
  | locals | argument | thisBase | thatBase => cases hcell; exact .inl ⟨_, rfl, rfl⟩
  | static => cases hcell; exact .inr (.inr ⟨by decide, rfl, _, rfl⟩)
  | temp =>
    simp only [cell] at hcell
    split at hcell
    · cases hcell; exact .inr (.inr ⟨by decide, rfl, _, rfl⟩)
    · cases hcell
  | pointer =>
    simp only [cell] at hcell
    split at hcell
    · cases hcell; exact .inr (.inr ⟨by decide, rfl, _, rfl⟩)
    · split at hcell
      · cases hcell; exact .inr (.inr ⟨by decide, rfl, _, rfl⟩)
      · cases hcell

/-- Loading a known address. -/
theorem apply_fixed (operand : Operand) (index : Word) :
    (⟨memory, a, d⟩ : Data).apply program (.address operand) =
      ⟨memory, (Cell.fixed operand).address program memory index, d⟩ := by
  cases operand <;> rfl

/-- Bringing the value of a segment to `D`. -/
theorem applyAll_fetch {scope : Scope} {segment : Segment} {index : Word} {found : Cell}
    {statics : Word → Word} (hcell : cell scope segment index = .ok found)
    (hstatic : segment = .static → addressIn program (scope.staticName index) = statics index) :
    ∃ a', (⟨memory, a, d⟩ : Data).applyAll program (fetch index found) =
      ⟨memory, a', segment.value statics memory index⟩ := by
  have haddress := address_of_cell memory hcell hstatic
  rcases kind_of_cell hcell with ⟨base, rfl, hbase⟩ | ⟨rfl, rfl⟩ | ⟨hne, -, operand, rfl⟩
  · have hvalue : segment.value statics memory index =
        memory.get (memory.get base.address + index) := by
      cases segment <;> cases hbase <;> rfl
    simp only [fetch, Data.applyAll_cons, Data.applyAll_nil, Data.apply_constant,
      Data.apply_store_toD, Data.apply_atPointer, Data.apply_store_toA, Computation.denote, hvalue,
      BitVec.add_comm index]
    exact ⟨_, rfl⟩
  · exact ⟨index, rfl⟩
  · have hvalue : segment.value statics memory index =
        memory.get (segment.cellAddress statics memory index) := by
      cases segment <;> first | rfl | exact absurd rfl hne
    simp only [fetch, Data.applyAll_cons, Data.applyAll_nil, apply_fixed operand index, haddress,
      Data.apply_store_toD, Computation.denote, hvalue]
    exact ⟨_, rfl⟩

/-- The code of a push has no jumps and puts the value of the segment on the
stack, whatever the two registers hold. -/
theorem memory_push {scope : Scope} {segment : Segment} {index : Word} {code : List Statement}
    {statics : Word → Word} (hcode : push scope segment index = .ok code)
    (hstatic : segment = .static → addressIn program (scope.staticName index) = statics index)
    (hs : MemoryMap.stackBase ≤ (Stack.pointer memory).toNat) :
    code.all isStraight = true ∧ ∀ a d, ((⟨memory, a, d⟩ : Data).applyAll program code).memory =
      Stack.push memory (segment.value statics memory index) := by
  have hne : Stack.pointer memory ≠ 0 := by
    rw [MemoryMap.stackBase] at hs
    bv_omega
  rw [push] at hcode
  cases hcell : cell scope segment index with
  | error fault => rw [hcell] at hcode; cases hcode
  | ok found =>
    rw [hcell] at hcode
    cases hcode
    refine ⟨by cases found <;> rfl, fun a d => ?_⟩
    obtain ⟨a', hfetch⟩ := applyAll_fetch (a := a) (d := d) hcell hstatic
    rw [Data.applyAll_append, hfetch, applyAll_pushD hne]

/-- The code of a push puts the value of the segment on the stack. -/
theorem runs_push {rom : Machine.Rom} {address : Nat} {scope : Scope} {segment : Segment}
    {index : Word} {code : List Statement} {statics : Word → Word} (h : Assembled program rom)
    (hcode : push scope segment index = .ok code) (hat : CodeAt program address code)
    (hstatic : segment = .static → addressIn program (scope.staticName index) = statics index)
    (hs : MemoryMap.stackBase ≤ (Stack.pointer memory).toNat) :
    Runs rom (BitVec.ofNat 16 address) memory (BitVec.ofNat 16 (address + wordCount code))
      (Stack.push memory (segment.value statics memory index)) := by
  obtain ⟨hstraight, hmemory⟩ := memory_push hcode hstatic hs
  exact runs_applyAll h hat hstraight hmemory

/-- Noting the address of a cell behind a pointer in `R13`. -/
theorem applyAll_noteAddress (base : Pointer) (index : Word) :
    (⟨memory, a, d⟩ : Data).applyAll program [.constant index, .store .toD .a, atPointer base,
        .store .toD .dPlusM, atRegister noteRegister, .store .toM .d] =
      ⟨memory.set (Register.address noteRegister) ((Cell.behind base).address program memory index),
        Register.address noteRegister, (Cell.behind base).address program memory index⟩ := by
  simp only [Data.applyAll_cons, Data.applyAll_nil, Data.apply_constant, Data.apply_store_toD,
    Data.apply_atPointer, Data.apply_atRegister, Data.apply_store_toM, Computation.denote,
    Cell.address, BitVec.add_comm index]

/-- The code of a pop has no jumps and takes the topmost value into the cell of
the segment, whatever the two registers hold. -/
theorem memory_pop {scope : Scope} {segment : Segment} {index : Word} {code : List Statement}
    {statics : Word → Word} (hcode : pop scope segment index = .ok code)
    (hstatic : segment = .static → addressIn program (scope.staticName index) = statics index)
    (hs : MemoryMap.stackBase + 1 ≤ (Stack.pointer memory).toNat) :
    code.all isStraight = true ∧ ∀ a d, ((⟨memory, a, d⟩ : Data).applyAll program code).memory =
      segment.popInto statics memory index := by
  have hlow : 256 ≤ (Stack.pointer memory - 1).toNat := by
    rw [MemoryMap.stackBase] at hs
    bv_omega
  have hne : Stack.pointer memory - 1 ≠ 0 := by bv_omega
  rw [pop] at hcode
  cases hcell : cell scope segment index with
  | error fault => rw [hcell] at hcode; cases hcode
  | ok found =>
    rw [hcell] at hcode
    have haddress := address_of_cell memory hcell hstatic
    rcases kind_of_cell hcell with ⟨base, rfl, hbase⟩ | ⟨rfl, rfl⟩ | ⟨-, hbase, operand, rfl⟩
    · cases hcode
      refine ⟨rfl, fun a d => ?_⟩
      rw [Data.applyAll_append, Data.applyAll_append, applyAll_noteAddress, haddress]
      have hpointer : Stack.pointer (memory.set (Register.address noteRegister)
          (segment.cellAddress statics memory index)) = Stack.pointer memory :=
        Memory.get_set_of_ne memory _ (by decide)
      have htop : Stack.top (memory.set (Register.address noteRegister)
          (segment.cellAddress statics memory index)) = Stack.top memory := by
        rw [Stack.top, hpointer]
        exact Memory.get_set_of_ne memory _ (Stack.register_ne_of_le hlow)
      rw [applyAll_popD (by rwa [hpointer]), htop]
      simp only [Data.applyAll_cons, Data.applyAll_nil, Data.apply_atRegister,
        Data.apply_store_toA, Data.apply_store_toM, Computation.denote,
        Stack.get_drop (by decide : Register.address noteRegister ≠ 0), Memory.get_set_self,
        Segment.popInto, hbase, Option.isSome_some, if_true]
    · cases hcode
    · cases hcode
      refine ⟨rfl, fun a d => ?_⟩
      rw [Data.applyAll_append, applyAll_popD hne]
      simp only [Data.applyAll_cons, Data.applyAll_nil, apply_fixed operand index,
        Data.apply_store_toM, Computation.denote, Segment.popInto, hbase, Option.isSome_none,
        Bool.false_eq_true, if_false, ← haddress]
      cases operand <;> rfl

/-- The code of a pop takes the topmost value into the cell of the segment. -/
theorem runs_pop {rom : Machine.Rom} {address : Nat} {scope : Scope} {segment : Segment}
    {index : Word} {code : List Statement} {statics : Word → Word} (h : Assembled program rom)
    (hcode : pop scope segment index = .ok code) (hat : CodeAt program address code)
    (hstatic : segment = .static → addressIn program (scope.staticName index) = statics index)
    (hs : MemoryMap.stackBase + 1 ≤ (Stack.pointer memory).toNat) :
    Runs rom (BitVec.ofNat 16 address) memory (BitVec.ofNat 16 (address + wordCount code))
      (segment.popInto statics memory index) := by
  obtain ⟨hstraight, hmemory⟩ := memory_pop hcode hstatic hs
  exact runs_applyAll h hat hstraight hmemory

/-! ## Branches -/

/-- Loading the address of a symbol and jumping leads there. -/
theorem reaches_jump {rom : Machine.Rom} {address : Nat} {name : String}
    (h : Assembled program rom)
    (hat : CodeAt program address [.reference name, .branch .zero .always]) :
    Reaches rom (BitVec.ofNat 16 address) ⟨memory, a, d⟩ (addressIn program name)
      ⟨memory, addressIn program name, d⟩ := by
  have hload := reaches_apply h hat rfl ⟨memory, a, d⟩
  exact hload.trans (reaches_branch_taken h hat.tail rfl)

/-- The code of a conditional branch gives up the topmost value and leads to the
label unless that value was zero. -/
theorem runs_ifGoto {rom : Machine.Rom} {address : Nat} {name : String}
    (h : Assembled program rom)
    (hat : CodeAt program address (popD ++ [.reference name, .branch .d .ne]))
    (hs : MemoryMap.stackBase + 1 ≤ (Stack.pointer memory).toNat) :
    Runs rom (BitVec.ofNat 16 address) memory
      (if Stack.top memory = 0 then BitVec.ofNat 16 (address + 5) else addressIn program name)
      (Stack.drop memory) := by
  have hne : Stack.pointer memory - 1 ≠ 0 := by
    rw [MemoryMap.stackBase] at hs
    bv_omega
  intro a d
  have hcode : popD ++ [.reference name, .branch .d .ne] =
      popD ++ [.reference name] ++ [.branch .d .ne] := rfl
  rw [hcode] at hat
  have hpop := reaches_applyAll h hat.left rfl ⟨memory, a, d⟩
  rw [Data.applyAll_append, applyAll_popD hne] at hpop
  by_cases htop : Stack.top memory = 0
  · have hmiss := reaches_branch_missed h hat.right (x := ⟨Stack.drop memory,
      addressIn program name, Stack.top memory⟩) (by rw [htop]; rfl)
    rw [if_pos htop]
    exact ⟨_, _, hpop.trans hmiss⟩
  · have htake : Jump.ne.holds (Stack.top memory) = true := by
      rw [Jump.holds_eq]
      refine decide_eq_true fun hzero => htop ?_
      rwa [← BitVec.toInt_zero (w := 16), BitVec.toInt_inj] at hzero
    rw [if_neg htop]
    exact ⟨_, _, hpop.trans (reaches_branch_taken h hat.right htake)⟩

end Code

end HK16.Bytecode
