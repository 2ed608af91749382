import HK16.Proofs.Lowering

/-!
# Assembled commands run like the stack machine

A machine whose program memory holds the assembled code of commands follows the
stack machine: after any number of commands it stands at the code of the next
one with the same data memory. This holds as long as the stack has room; calls
and returns are not covered.
-/

namespace HK16.Bytecode

open Assembly Machine

section Step

variable {file : String} {commands : List Command} {rom : Machine.Rom}

/-- A jump leads to the code of the label's command. -/
theorem addressIn_jumpTo {scope : Scope} {name : String} {memory : Memory} {next : Configuration}
    (hrun : Runnable commands) (h : Configuration.jumpTo commands name memory = some next) :
    addressIn (codeAll scope commands) (scope.labelName name) =
      BitVec.ofNat 16 (commandAddress scope commands next.index) ∧ next.memory = memory := by
  obtain ⟨i, hi, rfl⟩ := Option.map_eq_some_iff.mp h
  have hget : commands[i]? = some (.label name) := by
    obtain ⟨hlt, hlabel, -⟩ := List.idxOf?_eq_some_iff.mp hi
    exact List.getElem?_eq_some_iff.mpr ⟨hlt, hlabel⟩
  exact ⟨congrArg (BitVec.ofNat 16) (symbolAddress_labelName hrun scope hget), rfl⟩

/-- The stack machine gets stuck in no runnable command, and never leaves the
commands but at their end. -/
theorem Runnable.exists_step {c : Configuration} (hrun : Runnable commands)
    (h : c.index < commands.length) :
    ∃ next, c.step commands = some next ∧ next.index ≤ commands.length := by
  have hget : commands[c.index]? = some commands[c.index] := List.getElem?_eq_getElem h
  have hmem := List.mem_of_getElem? hget
  have hjump (name : String) (memory : Memory)
      (htarget : .goto name ∈ commands ∨ .ifGoto name ∈ commands) :
      ∃ next, Configuration.jumpTo commands name memory = some next ∧
        next.index ≤ commands.length := by
    rw [Configuration.jumpTo]
    cases hi : commands.idxOf? (.label name) with
    | none => exact absurd (hrun.targets name htarget) (List.idxOf?_eq_none_iff.mp hi)
    | some i =>
      obtain ⟨hlt, -⟩ := List.idxOf?_eq_some_iff.mp hi
      exact ⟨_, rfl, Nat.le_of_lt hlt⟩
  rw [Configuration.step, hget]
  cases hcommand : commands[c.index] with
  | arithmetic _ | push _ _ | pop _ _ | label _ => exact ⟨_, rfl, h⟩
  | goto name => exact hjump name _ (.inl (hcommand ▸ hmem))
  | ifGoto name =>
    dsimp only
    split
    · exact ⟨_, rfl, h⟩
    · exact hjump name _ (.inr (hcommand ▸ hmem))
  | function _ _ | call _ _ | return_ =>
    have hlocal := hrun.isLocal _ hmem
    rw [hcommand] at hlocal
    cases hlocal

/-- The machine performs one command. -/
theorem runs_step {c next : Configuration} (h : Assembled (codeAll (.ofFile file) commands) rom)
    (hrun : Runnable commands) (htrue : file ≠ "CMP_TRUE") (hend : file ≠ "CMP_END")
    (hroom : c.HasRoom commands) (hstep : c.step commands = some next) :
    Runs rom (BitVec.ofNat 16 (commandAddress (.ofFile file) commands c.index)) c.memory
      (BitVec.ofNat 16 (commandAddress (.ofFile file) commands next.index)) next.memory := by
  rw [Configuration.step] at hstep
  cases hget : commands[c.index]? with
  | none => rw [hget] at hstep; cases hstep
  | some command =>
    rw [hget] at hstep
    obtain ⟨hlow, -⟩ := hroom command hget
    have hmem : command ∈ commands := List.mem_of_getElem? hget
    have hat := codeAt_emitted (.ofFile file) hget
    have hnext := commandAddress_succ (.ofFile file) hget
    have hcode := Command.code_of_compile (Command.compile_eq_ok
      ((Scope.ofFile file).afterAll (commands.take c.index)) (hrun.isLocal command hmem)
      (hrun.checked command hmem))
    obtain ⟨hfile, hfunction⟩ := hrun.afterAll_take (.ofFile file) c.index
    have hstatics := addressIn_staticName hrun htrue hend
    rw [← Scope.staticName_congr hfile] at hstatics
    cases command with
    | arithmetic operation =>
      cases hstep
      rw [hnext]
      exact Code.runs_arithmetic h hat
        (nodup_labelNames_codeAll _ hrun.isLocal hrun.checked hrun.labels) hlow
    | push segment index =>
      cases hstep
      rw [hnext]
      exact Code.runs_push h hcode hat (fun _ => hstatics index) hlow
    | pop segment index =>
      cases hstep
      rw [hnext]
      exact Code.runs_pop h hcode hat (fun _ => hstatics index) hlow
    | label name =>
      cases hstep
      rw [hnext]
      exact Runs.refl rom _ _
    | goto name =>
      obtain ⟨hplace, hmemory⟩ := addressIn_jumpTo hrun hstep
      rw [← hplace, hmemory, ← Scope.labelName_congr hfunction]
      exact fun a d => ⟨_, _, Code.reaches_jump h hat⟩
    | ifGoto name =>
      have hbranch := Code.runs_ifGoto h hat hlow
      dsimp only at hstep
      split at hstep
      · next hzero =>
        cases hstep
        rw [if_pos hzero] at hbranch
        rw [hnext]
        exact hbranch
      · next hzero =>
        obtain ⟨hplace, hmemory⟩ := addressIn_jumpTo hrun hstep
        rw [if_neg hzero] at hbranch
        rw [← hplace, hmemory, ← Scope.labelName_congr hfunction]
        exact hbranch
    | function _ _ | call _ _ | return_ => cases hstep

/-- The machine performs any number of commands. -/
theorem runs_steps {n : Nat} {c final : Configuration}
    (h : Assembled (codeAll (.ofFile file) commands) rom) (hrun : Runnable commands)
    (htrue : file ≠ "CMP_TRUE") (hend : file ≠ "CMP_END")
    (hroom : ∀ k < n, ∀ reached, c.steps commands k = some reached → reached.HasRoom commands)
    (hsteps : c.steps commands n = some final) :
    Runs rom (BitVec.ofNat 16 (commandAddress (.ofFile file) commands c.index)) c.memory
      (BitVec.ofNat 16 (commandAddress (.ofFile file) commands final.index)) final.memory := by
  induction n generalizing c with
  | zero =>
    cases hsteps
    exact Runs.refl rom _ _
  | succ n ih =>
    obtain ⟨next, hnext, hrest⟩ := Option.bind_eq_some_iff.mp hsteps
    have hfirst := runs_step h hrun htrue hend (hroom 0 (Nat.succ_pos n) c rfl) hnext
    refine hfirst.trans (ih ?_ hrest)
    -- What the rest of the run reaches in `k` commands, the run reaches in one more.
    intro k hk reached hreached
    refine hroom (k + 1) (Nat.succ_lt_succ hk) reached ?_
    rw [Configuration.steps, hnext]
    exact hreached

end Step

/-- Runnable commands in a file whose name is not that of a comparison's label
have code, and wherever this code is assembled, a machine that loads it with any
data memory follows the stack machine. After any number of commands during which
the stack has room, it has met no fault, has the same data memory, and stands at
the code of the next command. -/
theorem assembled_commands_follow_stackMachine {file : String} {commands : List Command}
    (hrun : Runnable commands) (htrue : file ≠ "CMP_TRUE") (hend : file ≠ "CMP_END") :
    ∃ program, lowerCommands file commands = .ok program ∧
      ∀ (placed : List Placed) (words : List Word), statements placed = program →
        (assembleProgram .predefined placed).2 = .ok words →
      ∀ (machine : State) (n : Nat) (final : Configuration),
        (⟨0, machine.memory⟩ : Configuration).steps commands n = some final →
        (∀ k < n, ∀ reached, (⟨0, machine.memory⟩ : Configuration).steps commands k = some reached →
          reached.HasRoom commands) →
        ∃ start m reached front, machine.load words = .ok start ∧ start.steps m = .ok reached ∧
          reached.memory = final.memory ∧
          lowerCommands file (commands.take final.index) = .ok front ∧
          reached.pc = BitVec.ofNat 16 (wordCount front) := by
  refine ⟨_, lowerCommands_eq_ok file hrun.isLocal hrun.checked, ?_⟩
  intro placed words hplaced hwords machine n final hsteps hroom
  obtain ⟨rom, hrom, hassembled⟩ := exists_rom hwords
  rw [hplaced] at hassembled
  have hload : machine.load words = .ok (machine.start rom) := by
    rw [State.load, hrom]
    rfl
  obtain ⟨m, reached, hm, -, hpc, hmemory⟩ :=
    (runs_steps hassembled hrun htrue hend hroom hsteps).steps (machine.start rom) rfl rfl rfl
  have hfront := lowerCommands_eq_ok file
    (fun command h => hrun.isLocal command (List.mem_of_mem_take h))
    (fun command h => hrun.checked command (List.mem_of_mem_take (i := final.index) h))
  exact ⟨_, m, reached, _, hload, hm, hmemory, hfront, hpc⟩

/-- A branch over one command. -/
def sampleBranch : List Command :=
  [.push .constant 1, .ifGoto "END", .push .constant 5, .label "END"]

/-- The sample has no functions, and its only label is its only target. -/
theorem runnable_sampleBranch : Runnable sampleBranch where
  isLocal := by decide
  checked := by decide
  labels name := by
    simp only [sampleBranch, List.count_cons, List.count_nil, beq_iff_eq, reduceCtorEq, if_false,
      Nat.add_zero, Nat.zero_add]
    split <;> decide
  targets name h := by
    simpa [sampleBranch] using h

/-- The sample branch is taken: the machine ends behind all nineteen words with
an empty stack. -/
theorem sampleBranch_taken : ∃ (machine start reached : State) (words : List Word) (m : Nat),
    Stack.pointer machine.memory = 256 ∧ machine.load words = .ok start ∧
      start.steps m = .ok reached ∧ reached.pc = 19 ∧ Stack.pointer reached.memory = 256 := by
  obtain ⟨program, hprogram, hfollow⟩ := assembled_commands_follow_stackMachine
    runnable_sampleBranch (by decide : "Main" ≠ "CMP_TRUE") (by decide)
  obtain ⟨placed, words, hplaced, hwords⟩ : ∃ placed words, statements placed = program ∧
      (assembleProgram .predefined placed).2 = .ok words := by
    cases hprogram
    exact exists_words (by decide +kernel)
  obtain ⟨machine, hpointer⟩ : ∃ machine : State, Stack.pointer machine.memory = 256 :=
    ⟨{ State.initial with memory := Memory.zero.set 0 256 }, Memory.get_set_self _ _ _⟩
  have hpushed : Stack.pointer (Stack.push machine.memory 1) = 257 := by
    rw [Stack.pointer_push, hpointer]
    rfl
  have htop : Stack.top (Stack.push machine.memory 1) ≠ 0 := by
    rw [Stack.top, hpushed, Stack.get_push _ (by decide), hpointer, if_pos (by decide)]
    decide
  have hdropped : Stack.pointer (Stack.drop (Stack.push machine.memory 1)) = 256 := by
    rw [Stack.pointer_drop, hpushed]
    rfl
  have hpush : (⟨0, machine.memory⟩ : Configuration).step sampleBranch =
      some ⟨1, Stack.push machine.memory 1⟩ := rfl
  have hjump : (⟨1, Stack.push machine.memory 1⟩ : Configuration).step sampleBranch =
      some ⟨3, Stack.drop (Stack.push machine.memory 1)⟩ := if_neg htop
  have hsteps : (⟨0, machine.memory⟩ : Configuration).steps sampleBranch 3 =
      some ⟨4, Stack.drop (Stack.push machine.memory 1)⟩ := by
    rw [Configuration.steps, hpush, Option.bind_some, Configuration.steps, hjump]
    rfl
  have hroom : ∀ k < 3, ∀ reached,
      (⟨0, machine.memory⟩ : Configuration).steps sampleBranch k = some reached →
        reached.HasRoom sampleBranch := by
    intro k hk reached hreached command hcommand
    obtain rfl | rfl | rfl : k = 0 ∨ k = 1 ∨ k = 2 := by omega
    · cases hreached
      cases hcommand
      rw [hpointer]
      decide
    · rw [Configuration.steps, hpush] at hreached
      cases hreached
      cases hcommand
      rw [hpushed]
      decide
    · rw [Configuration.steps, hpush, Option.bind_some, Configuration.steps, hjump] at hreached
      cases hreached
      cases hcommand
      rw [hdropped]
      decide
  obtain ⟨start, m, reached, front, hload, hm, hmemory, hfront, hpc⟩ :=
    hfollow placed words hplaced hwords machine 3 _ hsteps hroom
  cases hfront
  exact ⟨machine, start, reached, words, m, hpointer, hload, hm, hpc, hmemory ▸ hdropped⟩

end HK16.Bytecode
