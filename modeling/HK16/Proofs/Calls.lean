import HK16.Proofs.Code
import HK16.Proofs.Frames

/-!
# Calls and returns

The code of a call sets up a frame and leads to the entry of the function, which
gives the local variables their zeros. The code of a return takes the frame back
and leads behind the call. What the code of a function does in between is left
open: it may be any execution that keeps the frame.
-/

namespace HK16.Bytecode

open Assembly Machine SymbolTable

namespace Code

variable {program : List Statement} {memory : Memory} {a d : Word}

/-- Saving pointers pushes their values. -/
theorem applyAll_save (program : List Statement) (memory : Memory) (a d : Word)
    (pointers : List Pointer) (hp : Pointer.sp ∉ pointers)
    (hlow : 256 ≤ (Stack.pointer memory).toNat)
    (hhigh : (Stack.pointer memory).toNat + pointers.length ≤ 65535) :
    ∃ a' d', (⟨memory, a, d⟩ : Data).applyAll program (pointers.flatMap save) =
      ⟨Stack.pushAll memory (pointers.map fun pointer => memory.get pointer.address), a', d'⟩ := by
  induction pointers generalizing memory a d with
  | nil => exact ⟨a, d, rfl⟩
  | cons first pointers ih =>
    rw [List.mem_cons, not_or] at hp
    rw [List.length_cons] at hhigh
    have hne : Stack.pointer memory ≠ 0 := by bv_omega
    have hnext : (Stack.pointer memory + 1).toNat = (Stack.pointer memory).toNat + 1 := by
      bv_omega
    obtain ⟨a', d', hrest⟩ := ih (Stack.push memory (memory.get first.address)) 0
      (memory.get first.address) hp.2 (by rw [Stack.pointer_push, hnext]; omega)
      (by rw [Stack.pointer_push, hnext]; omega)
    refine ⟨a', d', ?_⟩
    rw [Stack.map_get_push _ hp.2 hlow] at hrest
    rw [List.flatMap_cons, Data.applyAll_append, save, Data.applyAll_append]
    simp only [Data.applyAll_cons, Data.applyAll_nil, Data.apply_atPointer, Data.apply_store_toD,
      Computation.denote, applyAll_pushD hne, hrest]
    rfl

/-- The end of the code of a call sets the two pointers of the new frame. -/
theorem applyAll_setFrame (arguments : Word) :
    (⟨memory, a, d⟩ : Data).applyAll program
        [atPointer .sp, .store .toD .m, .constant (arguments + BitVec.ofNat 16 Command.frameSize),
          .store .toD .dMinusA, atPointer .arg, .store .toM .d, atPointer .sp, .store .toD .m,
          atPointer .lcl, .store .toM .d] =
      ⟨(memory.set Pointer.arg.address (Stack.pointer memory - (arguments + 5))).set
        Pointer.lcl.address (Stack.pointer memory), Pointer.lcl.address, Stack.pointer memory⟩ := by
  have hsp : Pointer.arg.address ≠ Pointer.sp.address := by decide
  simp only [Data.applyAll_cons, Data.applyAll_nil, Data.apply_atPointer, Data.apply_store_toD,
    Data.apply_constant, Data.apply_store_toM, Computation.denote,
    Memory.get_set_of_ne memory _ hsp]
  rfl

/-- A call ends with its return label. -/
theorem exists_call_eq (scope : Scope) (name : String) (arguments : Word) :
    ∃ front, call scope name arguments = front ++ [.label scope.returnLabel] :=
  ⟨_, (List.append_assoc _ [Statement.reference name, Statement.branch .zero .always] _).symm⟩

/-- The code of a call sets up the frame and leads to the function. -/
theorem runs_call {rom : Machine.Rom} {address : Nat} {scope : Scope} {name : String}
    {arguments : Word} (h : Assembled program rom)
    (hat : CodeAt program address (call scope name arguments))
    (hlow : 256 ≤ (Stack.pointer memory).toNat)
    (hhigh : (Stack.pointer memory).toNat + 5 ≤ 65535) :
    Runs rom (BitVec.ofNat 16 address) memory (addressIn program name)
      (Frame.enter memory (addressIn program scope.returnLabel) arguments) := by
  have hne : Stack.pointer memory ≠ 0 := by bv_omega
  have hnext : (Stack.pointer memory + 1).toNat = (Stack.pointer memory).toNat + 1 := by bv_omega
  have hcount : savedPointers.length = 4 := rfl
  have hpointer : Stack.pointer memory + 1 + BitVec.ofNat 16 4 = Stack.pointer memory + 5 := by
    bv_omega
  have hbase : Stack.pointer memory + 5 - (arguments + 5) = Stack.pointer memory - arguments := by
    bv_omega
  intro a d
  obtain ⟨a', d', hsave⟩ := applyAll_save program
    (Stack.push memory (addressIn program scope.returnLabel)) 0
    (addressIn program scope.returnLabel) savedPointers (by decide)
    (by rw [Stack.pointer_push, hnext]; omega)
    (by rw [Stack.pointer_push, hnext, hcount]; omega)
  have hlast : Stack.pointer (Stack.pushAll (Stack.push memory
      (addressIn program scope.returnLabel)) (savedPointers.map fun pointer =>
        memory.get pointer.address)) = Stack.pointer memory + 5 := by
    rw [Stack.pointer_pushAll, Stack.pointer_push, ← hpointer]
    rfl
  rw [Stack.map_get_push _ (by decide) hlow] at hsave
  have hfirst : (⟨memory, a, d⟩ : Data).applyAll program
      [.reference scope.returnLabel, .store .toD .a] =
        ⟨memory, addressIn program scope.returnLabel, addressIn program scope.returnLabel⟩ := rfl
  have hsetup := reaches_applyAll h hat.left rfl ⟨memory, a, d⟩
  rw [Data.applyAll_append, Data.applyAll_append, Data.applyAll_append, hfirst,
    applyAll_pushD hne, hsave, applyAll_setFrame, hlast, hbase, ← Stack.pushAll_cons] at hsetup
  have hjump : CodeAt program _ ([.reference name, .branch .zero .always] ++
    [.label scope.returnLabel]) := hat.right
  exact ⟨_, _, hsetup.trans (reaches_jump h hjump.left)⟩

/-- Zeros are pushed one after the other. -/
theorem applyAll_pushZeros (program : List Statement) (memory : Memory) (a d : Word) (count : Nat)
    (hlow : 256 ≤ (Stack.pointer memory).toNat)
    (hhigh : (Stack.pointer memory).toNat + count ≤ 65535) :
    ((⟨memory, a, d⟩ : Data).applyAll program (List.replicate count pushZero).flatten).memory =
      Stack.pushAll memory (List.replicate count 0) := by
  induction count generalizing memory a with
  | zero => rfl
  | succ count ih =>
    have hne : Stack.pointer memory ≠ Pointer.sp.address := by
      intro hzero
      rw [hzero] at hlow
      exact absurd hlow (by decide)
    have hnext : (Stack.pointer memory + 1).toNat = (Stack.pointer memory).toNat + 1 := by
      bv_omega
    have hs : memory.get Pointer.sp.address = Stack.pointer memory := rfl
    have hzero : (⟨memory, a, d⟩ : Data).applyAll program pushZero =
        ⟨Stack.push memory 0, Pointer.sp.address, d⟩ := by
      simp only [pushZero, Data.applyAll_cons, Data.applyAll_nil, Data.apply_atPointer,
        Data.apply_store_toA, Data.apply_store_toM, Computation.denote, hs,
        Memory.get_set_of_ne memory _ hne, Stack.push]
    rw [List.replicate_succ, List.flatten_cons, Data.applyAll_append, hzero,
      ih _ _ (by rw [Stack.pointer_push, hnext]; omega)
        (by rw [Stack.pointer_push, hnext]; omega)]
    rfl

/-- Pushing zeros declares no label. -/
theorem label_notMem_zeros (name : String) (count : Nat) :
    Statement.label name ∉ (List.replicate count pushZero).flatten := by
  intro hmem
  obtain ⟨code, hcode, hmem⟩ := List.mem_flatten.mp hmem
  rw [List.eq_of_mem_replicate hcode, ← mem_labelNames] at hmem
  exact List.not_mem_nil hmem

/-- The entry of a function gives each local variable a zero. -/
theorem runs_function {rom : Machine.Rom} {address : Nat} {name : String} {locals : Word}
    (h : Assembled program rom) (hat : CodeAt program address (function name locals))
    (hlow : 256 ≤ (Stack.pointer memory).toNat)
    (hhigh : (Stack.pointer memory).toNat + locals.toNat ≤ 65535) :
    Runs rom (BitVec.ofNat 16 address) memory
      (BitVec.ofNat 16 (address + wordCount (function name locals)))
      (Stack.pushAll memory (List.replicate locals.toNat 0)) := by
  have hstraight : (function name locals).all isStraight = true := by
    have hzeros : ∀ statement ∈ (List.replicate locals.toNat pushZero).flatten,
        isStraight statement = true := by
      intro statement hmem
      obtain ⟨code, hcode, hmem⟩ := List.mem_flatten.mp hmem
      rw [List.eq_of_mem_replicate hcode] at hmem
      exact List.all_eq_true.mp (by rfl : pushZero.all isStraight = true) statement hmem
    rw [function, List.all_cons, Bool.and_eq_true]
    exact ⟨rfl, List.all_eq_true.mpr hzeros⟩
  exact runs_applyAll h hat hstraight fun a d =>
    applyAll_pushZeros program memory a d locals.toNat hlow hhigh

/-- Taking pointers back reads the cells below the one that `R13` points to. -/
theorem applyAll_restore (program : List Statement) (memory : Memory) (a d : Word)
    (pointers : List Pointer)
    (hlow : 256 + pointers.length ≤ (memory.get (Register.address noteRegister)).toNat) :
    ∃ a' d', (⟨memory, a, d⟩ : Data).applyAll program (pointers.flatMap restore) =
      ⟨Frame.restore memory pointers, a', d'⟩ := by
  induction pointers generalizing memory a d with
  | nil => exact ⟨a, d, rfl⟩
  | cons first pointers ih =>
    rw [List.length_cons] at hlow
    have hsource : 256 ≤ (memory.get (Register.address noteRegister) - 1).toNat := by bv_omega
    have hfirst : (⟨memory, a, d⟩ : Data).applyAll program (restore first) =
        ⟨(memory.set (Register.address noteRegister)
            (memory.get (Register.address noteRegister) - 1)).set first.address
            (memory.get (memory.get (Register.address noteRegister) - 1)),
          first.address,
          memory.get (memory.get (Register.address noteRegister) - 1)⟩ := by
      simp only [restore, Data.applyAll_cons, Data.applyAll_nil, Data.apply_atRegister,
        Data.apply_store_toAM, Data.apply_store_toD, Data.apply_atPointer, Data.apply_store_toM,
        Computation.denote, Memory.get_set_of_ne memory _ (Stack.register_ne_of_le hsource)]
    rw [List.flatMap_cons, Data.applyAll_append, hfirst]
    exact ih _ _ _ (by rw [Frame.get_register_restored]; bv_omega)

/-- A return notes the frame in `R13` and the return address in `R14`. -/
theorem applyAll_noteFrame (program : List Statement) (a d : Word)
    (hframe : 256 + 5 ≤ (memory.get Pointer.lcl.address).toNat) :
    (⟨memory, a, d⟩ : Data).applyAll program
        [atPointer .lcl, .store .toD .m, atRegister noteRegister, .store .toM .d,
          .constant (BitVec.ofNat 16 Command.frameSize), .store .toA .dMinusA, .store .toD .m,
          atRegister linkRegister, .store .toM .d] =
      ⟨Frame.note memory, Register.address linkRegister,
        memory.get (memory.get Pointer.lcl.address - 5)⟩ := by
  have hcell : 256 ≤ (memory.get Pointer.lcl.address -
      BitVec.ofNat 16 Command.frameSize).toNat := by
    rw [Command.frameSize]
    bv_omega
  simp only [Data.applyAll_cons, Data.applyAll_nil, Data.apply_atPointer, Data.apply_store_toD,
    Data.apply_atRegister, Data.apply_store_toM, Data.apply_constant, Data.apply_store_toA,
    Computation.denote, Memory.get_set_of_ne memory _ (Stack.register_ne_of_le hcell)]
  rfl

/-- A return puts the topmost value in place of the first argument and makes the
cell behind it the first free one. -/
theorem applyAll_giveResult (program : List Statement) (memory : Memory) (a d : Word)
    (htarget : 256 ≤ (memory.get Pointer.arg.address).toNat)
    (htop : 256 + 1 ≤ (Stack.pointer memory).toNat) :
    ((⟨memory, a, d⟩ : Data).applyAll program (popD ++
        [atPointer .arg, .store .toA .m, .store .toM .d, atPointer .arg, .store .toD .mPlusOne,
          atPointer .sp, .store .toM .d])) =
      ⟨Frame.giveResult memory, Pointer.sp.address, memory.get Pointer.arg.address + 1⟩ := by
  have hne : Stack.pointer memory - 1 ≠ 0 := by bv_omega
  have harg : (Stack.drop memory).get Pointer.arg.address = memory.get Pointer.arg.address :=
    Stack.get_drop (by decide)
  have hkeep := Memory.get_set_of_ne (Stack.drop memory) (Stack.top memory)
    (Stack.pointer_ne_of_le htarget : Pointer.arg.address ≠ _).symm
  rw [Data.applyAll_append, applyAll_popD hne]
  simp only [Data.applyAll_cons, Data.applyAll_nil, Data.apply_atPointer, Data.apply_store_toA,
    Data.apply_store_toM, Data.apply_store_toD, Computation.denote, harg, hkeep]
  rfl

/-- The pieces of a return. -/
theorem leave_eq :
    leave =
      ([atPointer .lcl, .store .toD .m, atRegister noteRegister, .store .toM .d,
        .constant (BitVec.ofNat 16 Command.frameSize), .store .toA .dMinusA, .store .toD .m,
        atRegister linkRegister, .store .toM .d] ++
      ((popD ++ [atPointer .arg, .store .toA .m, .store .toM .d, atPointer .arg,
        .store .toD .mPlusOne, atPointer .sp, .store .toM .d]) ++
      (savedPointers.reverse.flatMap restore ++ [atRegister linkRegister, .store .toA .m]))) ++
      [.branch .zero .always] := rfl

/-- The code of a return leads to the address in the frame. -/
theorem runs_leave {rom : Machine.Rom} {address : Nat} (h : Assembled program rom)
    (hat : CodeAt program address leave)
    (hframe : 256 + 5 ≤ (memory.get Pointer.lcl.address).toNat)
    (htarget : 256 ≤ (memory.get Pointer.arg.address).toNat)
    (htop : 256 + 1 ≤ (Stack.pointer memory).toNat) :
    Runs rom (BitVec.ofNat 16 address) memory (memory.get (memory.get Pointer.lcl.address - 5))
      (Frame.leave memory) := by
  rw [leave_eq] at hat
  intro a d
  have htarget' : 256 ≤ ((Frame.note memory).get Pointer.arg.address).toNat := by
    rwa [Frame.get_note_pointer]
  have hpointer : Stack.pointer (Frame.note memory) = Stack.pointer memory :=
    Frame.get_note_pointer .sp
  have hkeep (register : Register) (hne : Pointer.sp.address ≠ Register.address register) :
      (Frame.giveResult (Frame.note memory)).get (Register.address register) =
        (Frame.note memory).get (Register.address register) :=
    Frame.get_giveResult_of_ne hne (Stack.register_ne_of_le htarget').symm
  obtain ⟨a', d', hrestore⟩ := applyAll_restore program (Frame.giveResult (Frame.note memory))
    Pointer.sp.address ((Frame.note memory).get Pointer.arg.address + 1) savedPointers.reverse (by
      rw [hkeep noteRegister (by decide), Frame.get_note_frame]
      exact Nat.le_of_succ_le hframe)
  have hreturn : (Frame.leave memory).get (Register.address linkRegister) =
      memory.get (memory.get Pointer.lcl.address - 5) := by
    rw [Frame.leave, Frame.get_restore_of_ne _ (by decide) (by decide),
      hkeep linkRegister (by decide)]
    exact Memory.get_set_self _ _ _
  have hcode := reaches_applyAll h hat.left rfl ⟨memory, a, d⟩
  rw [Data.applyAll_append, Data.applyAll_append, Data.applyAll_append,
    applyAll_noteFrame program a d hframe,
    applyAll_giveResult program _ _ _ htarget' (by rwa [hpointer]), hrestore] at hcode
  have hlast := hcode.trans (reaches_branch_taken h hat.right rfl)
  rw [← hreturn]
  exact ⟨_, _, hlast⟩

end Code

/-- A call followed by the entry of the function that it leads to. -/
theorem runs_callEntry {program : List Statement} {rom : Machine.Rom} {memory : Memory}
    {callAddress entryAddress : Nat} {scope : Scope} {name : String} {arguments locals : Word}
    (h : Assembled program rom)
    (hcallAt : CodeAt program callAddress (Code.call scope name arguments))
    (hentryAt : CodeAt program entryAddress (Code.function name locals))
    (hname : symbolAddress program name = entryAddress)
    (hlow : 256 ≤ (Stack.pointer memory).toNat)
    (hhigh : (Stack.pointer memory).toNat + 5 + locals.toNat ≤ 65535) :
    Runs rom (BitVec.ofNat 16 callAddress) memory
      (BitVec.ofNat 16 (entryAddress + wordCount (Code.function name locals)))
      (Frame.enterBody memory (addressIn program scope.returnLabel) arguments locals) := by
  have hcall := Code.runs_call h hcallAt hlow (by omega)
  have hpointer := Frame.toNat_pointer_enter memory (addressIn program scope.returnLabel) arguments
    (by omega)
  rw [addressIn, hname] at hcall
  exact hcall.trans (Code.runs_function h hentryAt (by omega) (by omega))

section Machine

variable {program callCode entryCode returnCode : List Statement}
  {scope entryScope returnScope : Scope} {name : String} {arguments locals : Word}
  {state : State}

/-- In an assembled program whose labels are distinct and not predefined, the
code of a call leads to the first instruction behind the entry of the function,
with the frame set up and the local variables zero. -/
theorem call_enters_function {callAddress entryAddress : Nat}
    (hrom : Assembled program state.rom) (hdistinct : (labelNames program).Nodup)
    (hfree : ∀ label ∈ labelNames program, predefinedAddress? label = none)
    (hcall : (Command.call name arguments).compile scope = .ok callCode)
    (hcallAt : CodeAt program callAddress callCode)
    (hentry : (Command.function name locals).compile entryScope = .ok entryCode)
    (hentryAt : CodeAt program entryAddress entryCode)
    (hpc : state.pc = BitVec.ofNat 16 callAddress)
    (hlow : 256 ≤ (Stack.pointer state.memory).toNat)
    (hhigh : (Stack.pointer state.memory).toNat + 5 + locals.toNat ≤ 65535) :
    ∃ n final, state.steps n = .ok final ∧
      final.pc = BitVec.ofNat 16 (entryAddress + wordCount entryCode) ∧
      Frame.Entered state.memory final.memory
        (BitVec.ofNat 16 (callAddress + wordCount callCode)) arguments locals := by
  cases Command.code_of_compile hcall
  cases Command.code_of_compile hentry
  have hname : symbolAddress program name = entryAddress :=
    hentryAt.symbolAddress_label (hfree name hentryAt.label_mem) hdistinct
  have hreturn : addressIn program scope.returnLabel =
      BitVec.ofNat 16 (callAddress + wordCount (Code.call scope name arguments)) :=
    congrArg (BitVec.ofNat 16)
      (hcallAt.right.tail.tail.symbolAddress_label (by simp) hdistinct)
  obtain ⟨n, final, hsteps, -, hpc', hmemory⟩ :=
    (runs_callEntry hrom hcallAt hentryAt hname hlow hhigh).steps state rfl hpc rfl
  refine ⟨n, final, hsteps, hpc', ?_⟩
  rw [hmemory, hreturn]
  exact Frame.entered_enterBody _ arguments hlow hhigh

/-- A call with one argument, and a function with two local variables that
returns a number. -/
def sampleCall : List Statement :=
  Code.call (.ofFile "Main") "F" 1 ++ (Code.function "F" 2 ++ ([.constant 7, .store .toD .a] ++
    Code.pushD ++ Code.leave))

/-- A machine can stand at the sample call with the stack at 300. -/
theorem exists_sampleMachine : ∃ start : State, Assembled sampleCall start.rom ∧
    start.pc = BitVec.ofNat 16 0 ∧ Stack.pointer start.memory = 300 := by
  obtain ⟨rom, hrom⟩ : ∃ rom, Assembled sampleCall rom := exists_assembled (by decide +kernel)
  exact ⟨⟨rom, Memory.zero.set 0 300, 0, 0, 0, false⟩, hrom, rfl, Memory.get_set_self _ _ _⟩

/-- The sample call enters its function with the frame in the cells from 300 on. -/
theorem sampleCall_enters : ∃ (start final : State) (n : Nat),
    Assembled sampleCall start.rom ∧ Stack.pointer start.memory = 300 ∧
      start.steps n = .ok final ∧ final.pc = 57 ∧
      Frame.Entered start.memory final.memory 47 1 2 := by
  obtain ⟨start, hrom, hpc, hpointer⟩ := exists_sampleMachine
  have hcall : (Command.call "F" 1).compile (.ofFile "Main") =
      .ok (Code.call (.ofFile "Main") "F" 1) := rfl
  have hentry : (Command.function "F" 2).compile (.ofFile "Main") =
      .ok (Code.function "F" 2) := rfl
  have hentryAt : CodeAt sampleCall 47 (Code.function "F" 2) :=
    ⟨Code.call (.ofFile "Main") "F" 1, _, rfl, rfl⟩
  obtain ⟨n, final, hsteps, hfinal, hentered⟩ := call_enters_function hrom (by decide +kernel)
    (by decide +kernel) hcall ⟨[], _, rfl, rfl⟩ hentry hentryAt hpc (by rw [hpointer]; decide)
    (by rw [hpointer]; decide)
  exact ⟨start, final, n, hrom, hpointer, hsteps, hfinal, hentered⟩

/-- Whatever a function does that keeps its frame, a return leads back behind the
call with the arguments replaced by one value. The call has to reach the
function: its name is not predefined, and this is its last declaration. -/
theorem call_return_balance {callFront callBack entryFront entryBack : List Statement}
    {returnAddress : Nat} (hrom : Assembled program state.rom)
    (hcall : (Command.call name arguments).compile scope = .ok callCode)
    (hcallAt : program = callFront ++ callCode ++ callBack)
    (hentry : (Command.function name locals).compile entryScope = .ok entryCode)
    (hentryAt : program = entryFront ++ entryCode ++ entryBack)
    (hname : predefinedAddress? name = none) (hlast : Statement.label name ∉ entryBack)
    (hreturn : Command.return_.compile returnScope = .ok returnCode)
    (hreturnAt : CodeAt program returnAddress returnCode)
    (hpc : state.pc = BitVec.ofNat 16 (wordCount callFront))
    (hlow : 256 + arguments.toNat ≤ (Stack.pointer state.memory).toNat)
    (hhigh : (Stack.pointer state.memory).toNat + 5 + locals.toNat ≤ 65535) :
    ∃ n entered, state.steps n = .ok entered ∧
      entered.pc = BitVec.ofNat 16 (wordCount (entryFront ++ entryCode)) ∧
      Frame.Entered state.memory entered.memory (addressIn program scope.returnLabel) arguments
        locals ∧
      ∀ m leaving, entered.steps m = .ok leaving → leaving.pc = BitVec.ofNat 16 returnAddress →
        leaving.memory.get Pointer.lcl.address = Stack.pointer state.memory + 5 →
        leaving.memory.get Pointer.arg.address = Stack.pointer state.memory - arguments →
        (∀ i < 5, leaving.memory.get (Stack.pointer state.memory + BitVec.ofNat 16 i) =
          entered.memory.get (Stack.pointer state.memory + BitVec.ofNat 16 i)) →
        (Stack.pointer state.memory).toNat + 5 < (Stack.pointer leaving.memory).toNat →
        ∃ l final, leaving.steps l = .ok final ∧
          final.pc = addressIn program scope.returnLabel ∧
          (Statement.label scope.returnLabel ∉ callBack →
            final.pc = BitVec.ofNat 16 (wordCount (callFront ++ callCode))) ∧
          Frame.Left state.memory leaving.memory final.memory arguments := by
  cases Command.code_of_compile hcall
  cases Command.code_of_compile hentry
  cases Command.code_of_compile hreturn
  have hcode : CodeAt program (wordCount callFront) (Code.call scope name arguments) :=
    ⟨callFront, callBack, hcallAt, rfl⟩
  have hentryCode : CodeAt program (wordCount entryFront) (Code.function name locals) :=
    ⟨entryFront, entryBack, hentryAt, rfl⟩
  have haddress : symbolAddress program name = wordCount entryFront := by
    rw [hentryAt, List.append_assoc, Code.function, List.cons_append]
    refine symbolAddress_of_last hname ?_
    rw [List.mem_append, not_or]
    exact ⟨Code.label_notMem_zeros name locals.toNat, hlast⟩
  obtain ⟨n, entered, hsteps, hrom', hpc', hmemory⟩ :=
    (runs_callEntry hrom hcode hentryCode haddress (by omega) hhigh).steps state rfl hpc rfl
  have hentered : Frame.Entered state.memory entered.memory (addressIn program scope.returnLabel)
      arguments locals := by
    rw [hmemory]
    exact Frame.entered_enterBody _ arguments (by omega) hhigh
  refine ⟨n, entered, hsteps, by rw [hpc', wordCount_append], hentered, ?_⟩
  intro m leaving hbody hleaving hlcl harg hkept htop
  have hleave : Runs state.rom (BitVec.ofNat 16 returnAddress) leaving.memory _
      (Frame.leave leaving.memory) :=
    Code.runs_leave hrom hreturnAt (by rw [hlcl]; bv_omega) (by rw [harg]; bv_omega) (by omega)
  have hleavingRom : leaving.rom = state.rom := by rw [State.rom_of_steps hbody, hrom']
  obtain ⟨l, final, hfinal, -, hfinalPc, hfinalMemory⟩ :=
    hleave.steps leaving hleavingRom hleaving rfl
  have hback : final.pc = addressIn program scope.returnLabel := by
    have hplace : Stack.pointer state.memory + 5 - 5 =
        Stack.pointer state.memory + BitVec.ofNat 16 0 := by
      bv_omega
    rw [hfinalPc, hlcl, hplace, hkept 0 (by decide), BitVec.add_zero, hentered.returnCell]
  refine ⟨l, final, hfinal, hback, ?_, ?_⟩
  · intro hreturnLast
    obtain ⟨front, hfront⟩ := Code.exists_call_eq scope name arguments
    rw [hback, addressIn, hcallAt, symbolAddress_of_trailing hfront (by simp) hreturnLast]
  · rw [hfinalMemory]
    exact Frame.left_leave hentered hlow hlcl harg hkept htop

/-- The sample call leaves the number in place of its argument, and the machine
goes on behind the call. -/
theorem sampleCall_returns : ∃ (start final : State) (n : Nat),
    Assembled sampleCall start.rom ∧ start.pc = 0 ∧ Stack.pointer start.memory = 300 ∧
      start.steps n = .ok final ∧ final.pc = 47 ∧ Stack.pointer final.memory = 300 ∧
      final.memory.get 299 = 7 := by
  obtain ⟨start, hrom, hpc, hpointer⟩ := exists_sampleMachine
  have hcall : (Command.call "F" 1).compile (.ofFile "Main") =
      .ok (Code.call (.ofFile "Main") "F" 1) := rfl
  have hentry : (Command.function "F" 2).compile (.ofFile "Main") =
      .ok (Code.function "F" 2) := rfl
  have hreturn : Command.return_.compile (.ofFile "Main") = .ok Code.leave := rfl
  have hpush : Code.push (.ofFile "Main") .constant 7 =
      .ok ([.constant 7, .store .toD .a] ++ Code.pushD) := rfl
  have hcallAt : sampleCall = [] ++ Code.call (.ofFile "Main") "F" 1 ++
    (Code.function "F" 2 ++ ([.constant 7, .store .toD .a] ++ Code.pushD ++ Code.leave)) := rfl
  have hentryAt : sampleCall = Code.call (.ofFile "Main") "F" 1 ++ Code.function "F" 2 ++
    ([.constant 7, .store .toD .a] ++ Code.pushD ++ Code.leave) := rfl
  have hbodyAt : CodeAt sampleCall 57 ([.constant 7, .store .toD .a] ++ Code.pushD ++ Code.leave) :=
    ⟨_, [], by rw [List.append_nil]; exact hentryAt, rfl⟩
  obtain ⟨n, entered, hsteps, hbody, hentered, hbalance⟩ := call_return_balance hrom hcall
    hcallAt hentry hentryAt (by decide +kernel) (by decide +kernel) hreturn hbodyAt.right hpc
    (by rw [hpointer]; decide) (by rw [hpointer]; decide)
  have hstatic : Segment.constant = .static →
      addressIn sampleCall ((Scope.ofFile "Main").staticName 7) = id 7 := nofun
  have hroom : Stack.pointer entered.memory = 307 := by
    rw [hentered.pointer, hpointer]
    rfl
  have hrun : Runs start.rom (BitVec.ofNat 16 57) entered.memory (BitVec.ofNat 16 64)
      (Stack.push entered.memory 7) :=
    Code.runs_push hrom hpush hbodyAt.left hstatic (by rw [hroom]; decide)
  obtain ⟨m, leaving, hm, -, hleaving, hmemory⟩ :=
    hrun.steps entered (State.rom_of_steps hsteps) hbody rfl
  have hkeep {address : Word} (h0 : address ≠ 0) (h : address ≠ 307) :
      leaving.memory.get address = entered.memory.get address := by
    rw [hmemory, Stack.get_push _ h0, hroom, if_neg h.symm]
  have htop : Stack.pointer leaving.memory = 308 := by
    rw [hmemory, Stack.pointer_push, hroom]
    rfl
  rw [hpointer] at hbalance
  obtain ⟨l, final, hl, -, hback, hleft⟩ := hbalance m leaving hm hleaving
    (by rw [hkeep (by decide) (by decide), hentered.lcl, hpointer])
    (by rw [hkeep (by decide) (by decide), hentered.arg, hpointer])
    (fun i hi => hkeep (by bv_omega) (by bv_omega)) (by rw [htop]; decide)
  have hresult := hleft.result
  rw [hpointer, htop, hmemory, Stack.get_push _ (by decide), hroom] at hresult
  refine ⟨start, final, n + (m + l), hrom, hpc, hpointer,
    State.steps_add hsteps (State.steps_add hm hl), hback (by decide +kernel), ?_, hresult⟩
  rw [hleft.pointer, hpointer]
  rfl

end Machine

end HK16.Bytecode
