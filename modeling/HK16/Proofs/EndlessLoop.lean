import HK16.Proofs.Execution

/-!
# The endless loop that ends a run

A program ends by loading an address and jumping there from the next word. The
machine sets a flag when such a jump closes the loop. In every machine that was
loaded and has taken steps, the flag means that the loop goes on for ever and
changes nothing but the program counter. Conversely a machine that stands at
such a loop has the flag after two steps. Nothing is said about loops of other
shapes, which go on until the cycles are used up.
-/

namespace HK16.Machine

namespace State

/-- The instruction at an address of the program, if there is one. -/
def instructionAt (state : State) (address : Nat) : Option Instruction :=
  state.rom.words[address]?.bind Instruction.decode?

/-- The machine goes round the loop at an address: the word there loads the
address, the next one jumps back and stores nothing, and the flag is set. -/
structure Looping (state : State) (address : Word) (fields : Compute) : Prop where
  /-- The first word loads its own address. -/
  load : state.instructionAt address.toNat = some (.load address)
  /-- The second word computes. -/
  jump : state.instructionAt (address.toNat + 1) = some (.compute fields)
  /-- Its result is dropped. -/
  nowhere : fields.dest.isEmpty = true
  /-- On its result the jump is taken. -/
  taken : jumps fields.jump (state.result fields.comp) = true
  /-- The address is loaded. -/
  register : state.a = address
  /-- The machine stands at one of the two words. -/
  place : state.pc = address ∨ state.pc = address + 1
  /-- The flag is set. -/
  flag : state.halted = true

/-! ## Single steps -/

variable {state next : State} {address : Word} {fields : Compute}

/-- Instructions stand within program memory. -/
theorem lt_of_instructionAt {place : Nat} {instruction : Instruction}
    (h : state.instructionAt place = some instruction) : place < 32768 := by
  obtain ⟨word, hword, -⟩ := Option.bind_eq_some_iff.mp h
  obtain ⟨hlt, -⟩ := Array.getElem?_eq_some_iff.mp hword
  have hsize := state.rom.size_le
  omega

/-- In front of a word of the program, addresses do not wrap. -/
theorem toNat_add_one_of_instructionAt {instruction : Instruction}
    (h : state.instructionAt address.toNat = some instruction) :
    (address + 1).toNat = address.toNat + 1 := by
  have hlt := lt_of_instructionAt h
  have hone : (1 : Word).toNat = 1 := rfl
  rw [BitVec.toNat_add, hone]
  omega

/-- A step executes the instruction at the program counter. -/
theorem step_of_instructionAt {instruction : Instruction}
    (h : state.instructionAt state.pc.toNat = some instruction) :
    state.step = .ok (state.execute instruction) := by
  obtain ⟨word, hword, hdecode⟩ := Option.bind_eq_some_iff.mp h
  have hfetch : state.fetch = .instruction word instruction := by
    simp only [fetch, word?, hword, hdecode]
  rw [step, hfetch]

/-- A step behind the program changes nothing, and every other one executes the
instruction at the program counter. -/
theorem step_cases (h : state.step = .ok next) :
    next = state ∨ ∃ instruction, state.instructionAt state.pc.toNat = some instruction ∧
      next = state.execute instruction := by
  cases hword : state.word? with
  | none =>
    have hfetch : state.fetch = .nothing := by simp only [fetch, hword]
    rw [step, hfetch] at h
    exact .inl (Except.ok.inj h).symm
  | some word =>
    cases hdecode : Instruction.decode? word with
    | none =>
      have hfetch : state.fetch = .illegal word := by simp only [fetch, hword, hdecode]
      rw [step, hfetch] at h
      cases h
    | some instruction =>
      have hat : state.instructionAt state.pc.toNat = some instruction :=
        Option.bind_eq_some_iff.mpr ⟨word, hword, hdecode⟩
      rw [step_of_instructionAt hat] at h
      exact .inr ⟨instruction, hat, (Except.ok.inj h).symm⟩

/-- Only a taken jump that stores nothing and closes the loop sets the flag. -/
theorem halted_execute {instruction : Instruction}
    (h : (state.execute instruction).halted = true) (hclear : state.halted = false) :
    ∃ fields, instruction = .compute fields ∧ fields.dest.isEmpty = true ∧
      jumps fields.jump (state.result fields.comp) = true ∧ state.closesLoop state.a = true := by
  cases instruction with
  | load value =>
    have hkept : (state.execute (.load value)).halted = state.halted := rfl
    rw [hkept, hclear] at h
    cases h
  | compute fields =>
    have hflag : (state.execute (.compute fields)).halted =
        if jumps fields.jump (state.result fields.comp) then
          fields.dest.isEmpty && state.closesLoop state.a
        else state.halted := rfl
    rw [hflag] at h
    split at h
    · next htaken =>
      rw [Bool.and_eq_true] at h
      exact ⟨fields, rfl, h.1, htaken, h.2⟩
    · rw [hclear] at h
      cases h

/-- A jump that stores nothing moves the program counter and decides about the
flag. -/
theorem execute_of_taken (hdest : fields.dest.isEmpty = true)
    (htaken : jumps fields.jump (state.result fields.comp) = true) :
    state.execute (.compute fields) =
      { state with pc := state.a, halted := state.closesLoop state.a } := by
  obtain ⟨dest, comp, jump⟩ := fields
  obtain ⟨a, d, m⟩ := dest
  simp only [Destination.isEmpty, Bool.not_eq_true', Bool.or_eq_false_iff] at hdest
  obtain ⟨⟨rfl, rfl⟩, rfl⟩ := hdest
  simp only [execute, htaken, Destination.isEmpty, Bool.false_eq_true, if_false, if_true,
    Bool.or_self, Bool.not_false, Bool.true_and]

/-- A jump closes the loop exactly if the word in front of it loads its own
address and the jump leads there. -/
theorem closesLoop_iff :
    state.closesLoop address = true ↔
      state.pc = address + 1 ∧ state.instructionAt address.toNat = some (.load address) := by
  rw [closesLoop, Bool.and_eq_true, decide_eq_true_iff, decide_eq_true_iff, eq_comm]
  refine and_congr_right fun _ => ?_
  constructor
  · intro hword
    obtain ⟨hlt, -⟩ := Array.getElem?_eq_some_iff.mp hword
    have hle : address.toNat ≤ Instruction.addressMax := by
      have hsize := state.rom.size_le
      rw [Instruction.addressMax]
      omega
    -- The constant of a load keeps fifteen bits, which is all that an address of the program has.
    have hself : (Instruction.load address).encode = address :=
      BitVec.eq_of_toNat_eq (Instruction.toNat_encode_load hle)
    rw [instructionAt, hword, Option.bind_some, hself, Instruction.decode?_of_toNat_le hle]
  · intro hat
    have hle : address.toNat ≤ Instruction.addressMax := Nat.le_of_lt_succ (lt_of_instructionAt hat)
    obtain ⟨word, hword, hdecode⟩ := Option.bind_eq_some_iff.mp hat
    obtain ⟨rfl, -⟩ := Instruction.eq_of_decode?_load hdecode
    rw [hword, BitVec.eq_of_toNat_eq (Instruction.toNat_encode_load hle)]

/-! ## Round the loop -/

/-- One step in the loop moves the program counter to the other word, and
nothing else changes. -/
theorem Looping.step_eq (h : state.Looping address fields) :
    state.step =
      .ok { state with pc := if state.pc = address then address + 1 else address } := by
  have hplace := toNat_add_one_of_instructionAt h.load
  rcases h.place with hpc | hpc
  · have hat : state.instructionAt state.pc.toNat = some (.load address) := by
      rw [hpc]
      exact h.load
    have hload : state.execute (.load address) =
        { state with a := address, pc := state.pc + 1 } := rfl
    rw [step_of_instructionAt hat, hload, if_pos hpc, hpc, ← h.register]
  · have hat : state.instructionAt state.pc.toNat = some (.compute fields) := by
      rw [hpc, hplace]
      exact h.jump
    have hcloses : state.closesLoop state.a = true := by
      rw [h.register]
      exact closesLoop_iff.mpr ⟨hpc, h.load⟩
    have hne : state.pc ≠ address := by
      rw [hpc]
      intro heq
      have hnat := congrArg BitVec.toNat heq
      omega
    rw [step_of_instructionAt hat, execute_of_taken h.nowhere h.taken, hcloses, if_neg hne,
      h.register, ← h.flag]

/-- The machine is still in the loop when it stands at either word of it. -/
theorem Looping.withPc (h : state.Looping address fields) {pc : Word}
    (hpc : pc = address ∨ pc = address + 1) :
    Looping { state with pc := pc } address fields :=
  ⟨h.load, h.jump, h.nowhere, h.taken, h.register, hpc, h.flag⟩

/-- From either word of the loop, any number of steps leads to one of the two
words in turn, and nothing else changes. -/
theorem Looping.steps_eq (h : state.Looping address fields) (phase : Nat)
    (hphase : state.pc = address + BitVec.ofNat 16 (phase % 2)) (k : Nat) :
    state.steps k = .ok { state with pc := address + BitVec.ofNat 16 ((phase + k) % 2) } := by
  induction k generalizing state phase with
  | zero => rw [Nat.add_zero, ← hphase, steps]
  | succ k ih =>
    have hother : (if state.pc = address then address + 1 else address) =
        address + BitVec.ofNat 16 ((phase + 1) % 2) := by
      rw [hphase]
      rcases Nat.mod_two_eq_zero_or_one phase with hp | hp
      · have hnext : (phase + 1) % 2 = 1 := by omega
        rw [hp, hnext, BitVec.add_zero, if_pos rfl]
        rfl
      · have hnext : (phase + 1) % 2 = 0 := by omega
        have hne : address + BitVec.ofNat 16 1 ≠ address := by bv_omega
        rw [hp, hnext, BitVec.add_zero, if_neg hne]
    have hword : (if state.pc = address then address + 1 else address) = address ∨
        (if state.pc = address then address + 1 else address) = address + 1 := by
      split
      · exact .inr rfl
      · exact .inl rfl
    have hrest := ih (h.withPc hword) (phase + 1) hother
    rw [steps, h.step_eq]
    dsimp only
    rw [hrest]
    simp only [Nat.add_assoc, Nat.add_comm 1 k]

/-- Two steps from the first word of the loop load the address and set the flag. -/
theorem steps_two_of_loop (hpc : state.pc = address)
    (hload : state.instructionAt address.toNat = some (.load address))
    (hjump : state.instructionAt (address.toNat + 1) = some (.compute fields))
    (hdest : fields.dest.isEmpty = true)
    (htaken : jumps fields.jump (fields.comp.eval state.d
      (if fields.comp.readsMemory then state.memory.get address else address)) = true) :
    state.steps 2 = .ok { state with a := address, halted := true } := by
  obtain ⟨middle, hmiddle⟩ : ∃ middle : State,
      middle = { state with a := address, pc := address + 1 } := ⟨_, rfl⟩
  have hfirst : state.step = .ok middle := by
    rw [step_of_instructionAt (hpc ▸ hload), hmiddle, ← hpc]
    rfl
  have hat : middle.instructionAt middle.pc.toNat = some (.compute fields) := by
    rw [hmiddle, toNat_add_one_of_instructionAt hload]
    exact hjump
  have hresult : jumps fields.jump (middle.result fields.comp) = true := by
    rw [hmiddle]
    exact htaken
  have hcloses : middle.closesLoop middle.a = true := by
    rw [hmiddle]
    exact closesLoop_iff.mpr ⟨rfl, hload⟩
  have hsecond : middle.step = .ok { state with a := address, halted := true } := by
    rw [step_of_instructionAt hat, execute_of_taken hdest hresult, hcloses, hmiddle, ← hpc]
  rw [steps, hfirst]
  dsimp only
  rw [steps, hsecond]
  rfl

/-! ## The flag in loaded machines -/

/-- If the flag is set, the machine is in the loop. -/
def FlagSound (state : State) : Prop :=
  state.halted = true → ∃ address fields, state.Looping address fields

/-- A jump that closes the loop leads into it. -/
theorem looping_of_closesLoop (hat : state.instructionAt state.pc.toNat = some (.compute fields))
    (hdest : fields.dest.isEmpty = true)
    (htaken : jumps fields.jump (state.result fields.comp) = true)
    (hcloses : state.closesLoop state.a = true) :
    (state.execute (.compute fields)).Looping state.a fields := by
  obtain ⟨hpc, hload⟩ := closesLoop_iff.mp hcloses
  rw [hpc, toNat_add_one_of_instructionAt hload] at hat
  rw [execute_of_taken hdest htaken, hcloses]
  exact ⟨hload, hat, hdest, htaken, rfl, .inl rfl, rfl⟩

/-- Steps keep the meaning of the flag. -/
theorem FlagSound.step (h : FlagSound state) (hstep : state.step = .ok next) :
    FlagSound next := by
  intro hflag
  cases hclear : state.halted with
  | true =>
    obtain ⟨address, fields, hloop⟩ := h hclear
    rw [hloop.step_eq] at hstep
    rw [← Except.ok.inj hstep]
    refine ⟨address, fields, hloop.withPc ?_⟩
    split
    · exact .inr rfl
    · exact .inl rfl
  | false =>
    rcases step_cases hstep with rfl | ⟨instruction, hat, rfl⟩
    · rw [hclear] at hflag
      cases hflag
    · obtain ⟨fields, rfl, hdest, htaken, hcloses⟩ := halted_execute hflag hclear
      exact ⟨state.a, fields, looping_of_closesLoop hat hdest htaken hcloses⟩

/-- Any number of steps keeps the meaning of the flag. -/
theorem FlagSound.steps {n : Nat} {final : State} (h : FlagSound state)
    (hsteps : state.steps n = .ok final) : FlagSound final := by
  induction n generalizing state with
  | zero =>
    cases hsteps
    exact h
  | succ n ih =>
    rw [State.steps] at hsteps
    cases hstep : state.step with
    | error fault => rw [hstep] at hsteps; cases hsteps
    | ok next =>
      rw [hstep] at hsteps
      exact ih (h.step hstep) hsteps

/-- A machine that was just loaded has a clear flag, whatever is then written to
its data memory. -/
theorem flagSound_of_load {machine loaded : State} {words : List Word}
    (h : machine.load words = .ok loaded) (presets : List (Word × Word)) :
    FlagSound (loaded.preset presets) := by
  rw [load] at h
  cases hrom : Rom.ofWords words with
  | error fault => rw [hrom] at h; cases h
  | ok rom =>
    rw [hrom] at h
    cases h
    exact nofun

end State

/-- In a machine that was loaded, had cells of its memory written and took any
number of steps, a set flag means that all further steps succeed and only move
the program counter to and fro between a word that loads its own address and the
next one. Conversely, a machine that stands at such a word, followed by a jump
that stores nothing and is taken with that address in `A`, is done after two
steps, with memory and `D` as they were. -/
theorem halt_flag_sound_and_complete :
    (∀ (machine loaded state : State) (words : List Word) (presets : List (Word × Word)) (n : Nat),
      machine.load words = .ok loaded → (loaded.preset presets).steps n = .ok state →
      state.halted = true →
      ∃ (address : Word) (phase : Nat),
        state.instructionAt address.toNat = some (.load address) ∧
        ∀ k, state.steps k =
          .ok { state with pc := address + BitVec.ofNat 16 ((phase + k) % 2) }) ∧
    ∀ (state : State) (address : Word) (fields : Compute), state.pc = address →
      state.instructionAt address.toNat = some (.load address) →
      state.instructionAt (address.toNat + 1) = some (.compute fields) →
      fields.dest.isEmpty = true →
      State.jumps fields.jump (fields.comp.eval state.d
        (if fields.comp.readsMemory then state.memory.get address else address)) = true →
      ∃ final, state.steps 2 = .ok final ∧ final.halted = true ∧ final.done = true ∧
        final.memory = state.memory ∧ final.d = state.d := by
  constructor
  · intro machine loaded state words presets n hload hsteps hflag
    obtain ⟨address, fields, hloop⟩ := (State.flagSound_of_load hload presets).steps hsteps hflag
    have hphase : ∃ phase, state.pc = address + BitVec.ofNat 16 (phase % 2) := by
      rcases hloop.place with hpc | hpc
      · exact ⟨0, by rw [hpc]; exact (BitVec.add_zero address).symm⟩
      · exact ⟨1, hpc⟩
    obtain ⟨phase, hphase⟩ := hphase
    exact ⟨address, phase, hloop.load, hloop.steps_eq phase hphase⟩
  · intro state address fields hpc hload hjump hdest htaken
    exact ⟨_, State.steps_two_of_loop hpc hload hjump hdest htaken, rfl, rfl, rfl, rfl⟩

/-- The words of `@0` and `M;JNE`: a loop for as long as the first cell is not
zero. -/
def sampleLoop : Rom := ⟨#[0b0000000000000000#16, 0b1111110000000101#16], by decide⟩

/-- The sample, started with five in the first cell, is done after two steps, and
the five stays there for ever. -/
theorem sampleLoop_halts : ∃ loaded state : State,
    State.initial.load sampleLoop.words.toList = .ok loaded ∧
    (loaded.preset [(0, 5)]).steps 2 = .ok state ∧ state.done = true ∧
    ∀ k, ∃ final, state.steps k = .ok final ∧ final.memory.get 0 = 5 := by
  obtain ⟨hsound, hcomplete⟩ := halt_flag_sound_and_complete
  have hload : State.initial.load sampleLoop.words.toList =
      .ok (State.initial.start sampleLoop) := rfl
  obtain ⟨start, hstart⟩ : ∃ start, start = (State.initial.start sampleLoop).preset [(0, 5)] :=
    ⟨_, rfl⟩
  have hrom : start.rom = sampleLoop := by rw [hstart]; rfl
  have hpc : start.pc = 0 := by rw [hstart]; rfl
  have hd : start.d = 0 := by rw [hstart]; rfl
  have hcell : start.memory.get 0 = 5 := by
    rw [hstart]
    exact Memory.get_set_self _ _ _
  obtain ⟨state, hsteps, hflag, hdone, hmemory, -⟩ :=
    hcomplete start 0 ⟨.nowhere, .m, some .ne⟩ hpc (by rw [State.instructionAt, hrom]; decide)
      (by rw [State.instructionAt, hrom]; decide) rfl (by rw [hcell, hd]; decide)
  rw [hstart] at hsteps
  obtain ⟨address, phase, -, hrounds⟩ := hsound _ _ state _ _ 2 hload hsteps hflag
  refine ⟨_, state, hload, hsteps, hdone, fun k => ⟨_, hrounds k, ?_⟩⟩
  rw [← hcell, ← hmemory]

end HK16.Machine
