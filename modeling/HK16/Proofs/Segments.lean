import HK16.Proofs.EndlessLoop
import HK16.Proofs.Lowering
import HK16.Proofs.Requests

/-!
# Moving words between the stack and the segments

The code of a push or a pop is executed wherever its words stand in program
memory, under every symbol table that an assembler can have, and whatever else
program memory holds. It takes one step for each word and changes memory as the
command says, also if the cell it writes is the stack pointer, the base of a
segment, the register that notes an address, or a cell of the stack.
-/

namespace HK16.Machine

open Assembly SymbolTable Bytecode

/-! ## Code anywhere in program memory -/

/-- From the program counter on, program memory holds the words that the code
has under the table. -/
def State.InFrontOf (state : State) (table : SymbolTable) (code : List Statement)
    (words : List Word) : Prop :=
  (∃ program, statements program = code ∧ encodeAll table program = .ok words) ∧
    ∀ i word, words[i]? = some word → state.rom.words[state.pc.toNat + i]? = some word

/-- The word of a statement decodes to the instruction of the statement. -/
theorem decode?_of_encode {table : SymbolTable} {statement : Statement} {word : Word}
    (h : encode table statement = .ok word) :
    ∃ instruction, Instruction.decode? word = some instruction ∧
      statement.resolve table.address? = some instruction := by
  cases statement with
  | label name => cases h
  | compute fields =>
    cases h
    exact ⟨.compute fields, Instruction.decode?_encode_compute fields, rfl⟩
  | address operand =>
    rw [encode] at h
    split at h
    · next value hvalue =>
      split at h
      · next hle =>
        cases h
        have hload : (Instruction.load value).encode = value :=
          BitVec.eq_of_toNat_eq (Instruction.toNat_encode_load hle)
        refine ⟨.load value, ?_, ?_⟩
        · rw [hload, Instruction.decode?_of_toNat_le hle]
        · rw [Statement.resolve, hvalue, Option.map_some]
      · cases h
    · cases h

/-- Only the symbol that a statement loads matters for its instruction. -/
theorem resolve_congr {statement : Statement} {addressOf other : String → Option Word}
    (h : ∀ name, statement = .address (.symbol name) → addressOf name = other name) :
    statement.resolve addressOf = statement.resolve other := by
  rcases statement with (value | name) | label | fields
  · rfl
  · exact congrArg (Option.map Instruction.load) (h name rfl)
  · rfl
  · rfl

/-- Code without jumps is executed in one step for each of its words, if the
table has the addresses of its symbols from the program. -/
theorem steps_applyAll {program code : List Statement} {table : SymbolTable} {words : List Word}
    {state : State}
    (hencoded : List.Forall₂ (fun statement word => encode table statement = .ok word)
      (code.filter Statement.isInstruction) words)
    (hsymbols : ∀ name, Statement.address (.symbol name) ∈ code →
      table.address? name = some (addressIn program name))
    (hjump : code.all isStraight = true)
    (hrom : ∀ i word, words[i]? = some word → state.rom.words[state.pc.toNat + i]? = some word) :
    ∃ final, state.steps words.length = .ok final ∧ final.rom = state.rom ∧
      final.pc.toNat = state.pc.toNat + words.length ∧
      final.data = state.data.applyAll program code := by
  induction code generalizing state words with
  | nil =>
    cases hencoded
    exact ⟨state, rfl, rfl, rfl, rfl⟩
  | cons statement code ih =>
    rw [List.all_cons, Bool.and_eq_true] at hjump
    have hrest : ∀ name, Statement.address (.symbol name) ∈ code →
        table.address? name = some (addressIn program name) :=
      fun name hname => hsymbols name (List.mem_cons_of_mem _ hname)
    by_cases hi : statement.isInstruction = true
    · rw [List.filter_cons_of_pos hi] at hencoded
      obtain ⟨word, later, hword, hlater, rfl⟩ := List.forall₂_cons_left_iff.mp hencoded
      obtain ⟨instruction, hdecode, hresolve⟩ := decode?_of_encode hword
      have hlocal : (statement.resolve fun name => some (addressIn program name)) =
          some instruction := by
        rw [← hresolve]
        refine resolve_congr fun name hname => ?_
        exact (hsymbols name (hname ▸ List.mem_cons_self)).symm
      have hat : state.instructionAt state.pc.toNat = some instruction :=
        Option.bind_eq_some_iff.mpr ⟨word, hrom 0 word rfl, hdecode⟩
      obtain ⟨hrom', hpc, hdata⟩ := execute_of_isStraight state hlocal hjump.1
      have hplace : (state.execute instruction).pc.toNat = state.pc.toNat + 1 := by
        rw [hpc]
        exact State.toNat_add_one_of_instructionAt hat
      have hfollow : ∀ i word', later[i]? = some word' →
          (state.execute instruction).rom.words[(state.execute instruction).pc.toNat + i]? =
            some word' := by
        intro i word' hword'
        rw [hrom', hplace, Nat.add_assoc, Nat.add_comm 1 i]
        exact hrom (i + 1) word' hword'
      obtain ⟨final, hsteps, hfinal, hend, hresult⟩ := ih hlater hrest hjump.2 hfollow
      refine ⟨final, ?_, hfinal.trans hrom', ?_, ?_⟩
      · rw [List.length_cons, State.steps, State.step_of_instructionAt hat]
        exact hsteps
      · rw [hend, hplace, List.length_cons]
        omega
      · rw [hresult, hdata, Data.applyAll_cons]
    · have hlabel : state.data.apply program statement = state.data := by
        cases statement with
        | label name => rfl
        | address operand => exact absurd rfl hi
        | compute fields => exact absurd rfl hi
      rw [List.filter_cons_of_neg hi] at hencoded
      rw [Data.applyAll_cons, hlabel]
      exact ih hencoded hrest hjump.2 hrom

/-- A name that is not predefined has every address in some program, namely in
one that declares it there. -/
theorem exists_addressIn {name : String} (h : predefinedAddress? name = none) (address : Word) :
    ∃ program, addressIn program name = address := by
  refine ⟨List.replicate address.toNat (.constant 0) ++ [.label name], ?_⟩
  have hcount : wordCount (List.replicate address.toNat (.constant 0)) = address.toNat := by
    rw [wordCount, List.countP_replicate]
    rfl
  rw [addressIn, symbolAddress_of_last h List.not_mem_nil, hcount]
  exact BitVec.ofNat_toNat 16 address

end HK16.Machine

namespace HK16.Bytecode

open Assembly SymbolTable Machine

/-! ## The symbols of pushes and pops -/

/-- The commands that move a word between the stack and a cell. -/
def Command.Moves (command : Command) (segment : Segment) (index : Word) : Prop :=
  command = .push segment index ∨ command = .pop segment index

variable {command : Command} {segment : Segment} {index : Word} {scope : Scope}

/-- The code of a push or a pop refers to predefined names, and in the static
segment to the symbol of the variable. -/
theorem Command.Moves.reference_cases (h : command.Moves segment index)
    (hcheck : command.check = .ok ()) {name : String}
    (hname : name ∈ references (command.emitted scope)) :
    predefinedAddress? name ≠ none ∨ segment = .static ∧ name = scope.staticName index := by
  have hfilter : ((references (command.emitted scope)).filter fun name => IsFree [] name) =
      (staticIndices [command]).map scope.staticName := by
    refine filter_references_emitted ?_ hcheck ?_ ?_ fun other => ?_
    · rcases h with rfl | rfl <;> rfl
    · rcases h with rfl | rfl <;> exact nofun
    · rcases h with rfl | rfl <;> exact nofun
    · exact ⟨scope.predefinedAddress?_staticName other, List.not_mem_nil⟩
  have hstatics : ∀ other ∈ staticIndices [command], segment = .static ∧ other = index := by
    rcases h with rfl | rfl <;> cases segment <;> simp [staticIndices]
  by_cases hp : predefinedAddress? name = none
  · have hfree : name ∈ (references (command.emitted scope)).filter fun name => IsFree [] name :=
      List.mem_filter.mpr ⟨hname, decide_eq_true ⟨hp, List.not_mem_nil⟩⟩
    rw [hfilter] at hfree
    obtain ⟨other, hother, rfl⟩ := List.mem_map.mp hfree
    obtain ⟨hsegment, rfl⟩ := hstatics other hother
    exact .inr ⟨hsegment, rfl⟩
  · exact .inl hp

/-- Under a sound table a push or a pop has the effect that it has in every program
with the static variable where the table has it. -/
theorem Command.Moves.steps (h : command.Moves segment index) (hcheck : command.check = .ok ())
    {table : SymbolTable} (htable : table.Sound) {statics : Word → Word}
    (hstatic : segment = .static →
      table.address? (scope.staticName index) = some (statics index))
    {words : List Word} {state : State} {memory : Memory}
    (hfront : state.InFrontOf table (command.emitted scope) words)
    (heffect : ∀ program,
      (segment = .static → addressIn program (scope.staticName index) = statics index) →
      (command.emitted scope).all isStraight = true ∧ ∀ a d,
        ((⟨state.memory, a, d⟩ : Data).applyAll program (command.emitted scope)).memory = memory) :
    ∃ final, state.steps words.length = .ok final ∧ final.rom = state.rom ∧
      final.pc.toNat = state.pc.toNat + words.length ∧ final.memory = memory := by
  -- Effects are stated for programs. One that declares the symbol of the variable at the
  -- address in the table stands for the table: all other symbols are predefined.
  obtain ⟨program, hprogram⟩ :=
    exists_addressIn (scope.predefinedAddress?_staticName index) (statics index)
  obtain ⟨hjump, hmemory⟩ := heffect program fun _ => hprogram
  have hsymbols : ∀ name, Statement.address (.symbol name) ∈ command.emitted scope →
      table.address? name = some (addressIn program name) := by
    intro name hname
    rcases h.reference_cases hcheck (mem_references.mpr hname) with hp | ⟨hsegment, rfl⟩
    · obtain ⟨address, haddress⟩ := Option.ne_none_iff_exists'.mp hp
      rw [address?, htable.find?_predefined haddress, addressIn_of_predefined program haddress]
      rfl
    · rw [hstatic hsegment, hprogram]
  obtain ⟨⟨placed, hplaced, hencoded⟩, hrom⟩ := hfront
  rw [encodeAll_eq_ok_iff, hplaced] at hencoded
  obtain ⟨final, hsteps, hrom', hpc, hdata⟩ := steps_applyAll hencoded hsymbols hjump hrom
  exact ⟨final, hsteps, hrom', hpc, (congrArg Data.memory hdata).trans (hmemory _ _)⟩

/-- What a pop leaves in memory: the noted address, the stack pointer and the
cell are written in this order. -/
theorem Segment.popInto_eq (segment : Segment) (statics : Word → Word) (memory : Memory)
    (index : Word) :
    segment.popInto statics memory index =
      ((if segment.base?.isSome then
          memory.set (Register.address Code.noteRegister)
            (segment.cellAddress statics memory index)
        else memory).set Pointer.sp.address (Stack.pointer memory - 1)).set
          (segment.cellAddress statics memory index) (memory.get (Stack.pointer memory - 1)) := by
  have hpointer : Stack.pointer (if segment.base?.isSome then
      memory.set (Register.address Code.noteRegister) (segment.cellAddress statics memory index)
      else memory) = Stack.pointer memory := by
    split
    · exact Memory.get_set_of_ne memory _ (by decide)
    · rfl
  simp only [popInto, Stack.drop, hpointer, Stack.top]

/-- A push or pop that passes its check has a code. Under any table that an
assembler can have, a machine that stands in front of the words of this code ends
behind them after one step for each. A push has then written the number, or what
the cell of the segment held, to the first free cell of the stack, and moved the
stack pointer up. A pop has noted the address of a cell behind a base, moved the
stack pointer down and written the topmost value to the cell, in this order.
Nothing else in memory changes. -/
theorem push_pop_move_words (scope : Scope) (segment : Segment) (index : Word)
    (requests : List Request) (statics : Word → Word)
    (hstatic : segment = .static → (SymbolTable.predefined.afterAll requests).address?
      (scope.staticName index) = some (statics index)) :
    ((Command.push segment index).check = .ok () →
      ∃ code, (Command.push segment index).compile scope = .ok code ∧
        ∀ (words : List Word) (state : State),
        state.InFrontOf (SymbolTable.predefined.afterAll requests) code words →
        256 ≤ (Stack.pointer state.memory).toNat →
        ∃ final, state.steps words.length = .ok final ∧ final.rom = state.rom ∧
          final.pc.toNat = state.pc.toNat + words.length ∧
          final.memory = (state.memory.set (Stack.pointer state.memory)
            (segment.value statics state.memory index)).set Pointer.sp.address
              (Stack.pointer state.memory + 1)) ∧
    ((Command.pop segment index).check = .ok () →
      ∃ code, (Command.pop segment index).compile scope = .ok code ∧
        ∀ (words : List Word) (state : State),
        state.InFrontOf (SymbolTable.predefined.afterAll requests) code words →
        257 ≤ (Stack.pointer state.memory).toNat →
        ∃ final, state.steps words.length = .ok final ∧ final.rom = state.rom ∧
          final.pc.toNat = state.pc.toNat + words.length ∧
          final.memory = ((if segment.base?.isSome then
              state.memory.set (Register.address Code.noteRegister)
                (segment.cellAddress statics state.memory index)
            else state.memory).set Pointer.sp.address (Stack.pointer state.memory - 1)).set
              (segment.cellAddress statics state.memory index)
              (state.memory.get (Stack.pointer state.memory - 1))) := by
  have htable := sound_predefined.afterAll requests
  refine ⟨fun hcheck => ?_, fun hcheck => ?_⟩
  · have hcompile := Command.compile_eq_ok scope rfl hcheck
    refine ⟨_, hcompile, fun words state hfront hs => ?_⟩
    exact Command.Moves.steps (.inl rfl) hcheck htable hstatic hfront fun program hprogram =>
      Code.memory_push (Command.code_of_compile hcompile) hprogram hs
  · have hcompile := Command.compile_eq_ok scope rfl hcheck
    refine ⟨_, hcompile, fun words state hfront hs => ?_⟩
    rw [← segment.popInto_eq statics]
    exact Command.Moves.steps (.inr rfl) hcheck htable hstatic hfront fun program hprogram =>
      Code.memory_pop (Command.code_of_compile hcompile) hprogram hs

/-- A machine at the beginning of a program that fits in program memory, with
presets in memory. -/
def presetMachine (words : List Word) (presets : List (Word × Word)) : State :=
  (State.initial.preset presets).start
    (if h : words.toArray.size ≤ 32768 then ⟨words.toArray, h⟩ else .empty)

theorem memory_presetMachine (words : List Word) (presets : List (Word × Word)) :
    (presetMachine words presets).memory = Memory.zero.setAll presets := rfl

/-- It stands in front of all of its program. -/
theorem inFrontOf_presetMachine {table : SymbolTable} {program : List Placed} {words : List Word}
    (presets : List (Word × Word)) (hlength : words.toArray.size ≤ 32768)
    (hwords : encodeAll table program = .ok words) :
    (presetMachine words presets).InFrontOf table (statements program) words := by
  refine ⟨⟨program, rfl, hwords⟩, fun i word hword => ?_⟩
  have hpc : (presetMachine words presets).pc.toNat + i = i := Nat.zero_add i
  have hrom : (presetMachine words presets).rom.words = words.toArray := by
    rw [presetMachine, dif_pos hlength]
    rfl
  rw [hpc, hrom, List.getElem?_toArray, hword]

/-- The words of a push of the first static variable, which has the first cell. -/
def samplePush : List Word := [16, 64528, 0, 64544, 58120, 0, 64968]

/-- The words of a pop into the third local variable. -/
def samplePop : List Word := [2, 60432, 1, 61584, 13, 58120, 0, 64680, 64528, 13, 64544, 58120]

/-- The push takes the value of the variable to the stack. In the pop the local
variable is the register that notes its address, and the popped value replaces
the address there. -/
theorem sampleMoves_executed :
    (∃ final, (presetMachine samplePush [(0, 258), (16, 5)]).steps 7 = .ok final ∧
      final.memory.get 258 = 5 ∧ final.memory.get 0 = 259) ∧
    ∃ final, (presetMachine samplePop [(0, 258), (1, 11), (257, 7)]).steps 12 = .ok final ∧
      final.memory.get 13 = 7 ∧ final.memory.get 0 = 257 := by
  constructor
  · obtain ⟨code, hcode, hrun⟩ := (push_pop_move_words (.ofFile "Main") .static 0
      [.allocateVariables [⟨0, .reference "Main.0"⟩]] (fun _ => 16)
      (fun _ => by decide +kernel)).1 (by decide)
    cases hcode
    have hwords : encodeAll (SymbolTable.predefined.afterAll
        [.allocateVariables [⟨0, .reference "Main.0"⟩]])
        (((Command.push .static 0).emitted (.ofFile "Main")).map (Placed.mk 0)) =
          .ok samplePush := by decide +kernel
    have hpointer : Stack.pointer (Memory.zero.setAll [(0, 258), (16, 5)]) = 258 := by
      simp [Stack.pointer, Memory.setAll, Memory.get_set, Pointer.address]
    have hvalue : (Memory.zero.setAll [(0, 258), (16, 5)]).get 16 = 5 := by
      simp [Memory.setAll]
    obtain ⟨final, hsteps, -, -, hmemory⟩ := hrun samplePush _
      (inFrontOf_presetMachine [(0, 258), (16, 5)] (by decide) hwords)
      (by rw [memory_presetMachine, hpointer]; decide)
    rw [memory_presetMachine, hpointer] at hmemory
    refine ⟨final, hsteps, ?_, ?_⟩
    · rw [hmemory, Memory.get_set_of_ne _ _ (by decide), Memory.get_set_self]
      exact hvalue
    · rw [hmemory]
      exact Memory.get_set_self _ _ _
  · obtain ⟨code, hcode, hrun⟩ := (push_pop_move_words (.ofFile "Main") .locals 2 []
      (fun _ => 16) nofun).2 (by decide)
    cases hcode
    have hwords : encodeAll (SymbolTable.predefined.afterAll [])
        (((Command.pop .locals 2).emitted (.ofFile "Main")).map (Placed.mk 0)) =
          .ok samplePop := by decide +kernel
    have hpointer : Stack.pointer (Memory.zero.setAll [(0, 258), (1, 11), (257, 7)]) = 258 := by
      simp [Stack.pointer, Memory.setAll, Memory.get_set, Pointer.address]
    have htop : (Memory.zero.setAll [(0, 258), (1, 11), (257, 7)]).get (258 - 1) = 7 := by
      simp [Memory.setAll]
    have hcell : Segment.locals.cellAddress (fun _ => 16)
        (Memory.zero.setAll [(0, 258), (1, 11), (257, 7)]) 2 = 13 := by
      simp [Segment.cellAddress, Segment.base?, Memory.setAll, Memory.get_set, Pointer.address]
    obtain ⟨final, hsteps, -, -, hmemory⟩ := hrun samplePop _
      (inFrontOf_presetMachine [(0, 258), (1, 11), (257, 7)] (by decide) hwords)
      (by rw [memory_presetMachine, hpointer]; decide)
    rw [memory_presetMachine, hpointer, htop, hcell] at hmemory
    refine ⟨final, hsteps, ?_, ?_⟩
    · rw [hmemory]
      exact Memory.get_set_self _ _ _
    · rw [hmemory, Memory.get_set_of_ne _ _ (by decide)]
      exact Memory.get_set_self _ _ _

end HK16.Bytecode
