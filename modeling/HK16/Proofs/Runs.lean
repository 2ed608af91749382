import HK16.Machine.Monitor
import HK16.Proofs.Execution

/-!
# Runs in parts and runs under observation

A run can be interrupted after any number of cycles and taken up again, also in
front of the step that closes the endless loop, behind the program or at a word
that is no instruction: it ends where the whole run ends and has counted the same
cycles. A run that is stopped by a fault stands at the word that is no
instruction, with all steps in front of it done. The hooks of a monitor hand back
the machine that they get, so that a run under a monitor is the same run, and the
cycles that it takes from the time are the steps that are counted without one.
Which lines are printed after a step is not described here.
-/

namespace HK16.Machine

/-- Take up a run again for at most the given number of cycles. A run that was
stopped by a fault stays stopped. -/
def Outcome.resume (outcome : Outcome) (limit : Nat) : Outcome :=
  match outcome.fault with
  | some _ => outcome
  | none => runFrom outcome.cycles limit outcome.state

/-- What a cycle can do. A machine that is done stays where it is. Otherwise the
cycle stops in front of a word that is no instruction, or it executes one. -/
theorem runFrom_cases (state : State) :
    (state.done = true ∧ ∀ cycles limit, runFrom cycles limit state = ⟨state, cycles, none⟩) ∨
    (∃ word, state.done = false ∧ state.word? = some word ∧ Instruction.decode? word = none ∧
      ∀ cycles limit, runFrom cycles (limit + 1) state =
        ⟨state, cycles, some (.illegalInstruction state.pc word)⟩) ∨
    ∃ next, state.done = false ∧ state.step = .ok next ∧
      ∀ cycles limit, runFrom cycles (limit + 1) state = runFrom (cycles + 1) limit next := by
  cases hdone : state.done with
  | true =>
    refine .inl ⟨rfl, fun cycles limit => ?_⟩
    cases limit with
    | zero => rfl
    | succ limit => rw [runFrom, if_pos hdone]
  | false =>
    -- The program counter lies within the program, so there is a word to fetch.
    have hwithin := hdone
    rw [State.done, Bool.or_eq_false_iff, decide_eq_false_iff_not, Nat.not_le] at hwithin
    have hword : state.word? = some state.rom.words[state.pc.toNat] :=
      Array.getElem?_eq_getElem hwithin.2
    cases hdecode : Instruction.decode? state.rom.words[state.pc.toNat] with
    | none =>
      refine .inr (.inl ⟨_, rfl, hword, hdecode, fun cycles limit => ?_⟩)
      simp only [runFrom, State.fetch, hdone, hword, hdecode, Bool.false_eq_true, if_false]
    | some instruction =>
      refine .inr (.inr ⟨state.execute instruction, rfl, ?_, fun cycles limit => ?_⟩)
      · simp only [State.step, State.fetch, hword, hdecode]
      · simp only [runFrom, State.fetch, hdone, hword, hdecode, Bool.false_eq_true, if_false]

/-! ## Runs in parts -/

/-- The cycles in front of a run are counted apart from its own. -/
theorem runFrom_cycles (cycles limit : Nat) (state : State) :
    runFrom cycles limit state =
      ⟨(state.run limit).state, cycles + (state.run limit).cycles, (state.run limit).fault⟩ := by
  -- Both runs take the same cycles, and the difference of their counts stays the same.
  have hshift : ∀ count, runFrom (cycles + count) limit state =
      ⟨(runFrom count limit state).state, cycles + (runFrom count limit state).cycles,
        (runFrom count limit state).fault⟩ := by
    induction limit generalizing state with
    | zero => exact fun count => rfl
    | succ limit ih =>
      intro count
      rcases runFrom_cases state with ⟨-, hrun⟩ | ⟨word, -, -, -, hrun⟩ | ⟨next, -, -, hrun⟩
      · rw [hrun, hrun]
      · rw [hrun, hrun]
      · rw [hrun, hrun]
        exact ih next (count + 1)
  exact hshift 0

/-- A run of the sum of two numbers of cycles is the first run, taken up again. -/
theorem runFrom_add (cycles m n : Nat) (state : State) :
    runFrom cycles (m + n) state = (runFrom cycles m state).resume n := by
  induction m generalizing cycles state with
  | zero => rw [Nat.zero_add]; rfl
  | succ m ih =>
    rw [Nat.succ_add]
    rcases runFrom_cases state with ⟨-, hrun⟩ | ⟨word, -, -, -, hrun⟩ | ⟨next, -, -, hrun⟩
    · rw [hrun, hrun]
      exact (hrun cycles n).symm
    · rw [hrun, hrun]
      rfl
    · rw [hrun, hrun]
      exact ih (cycles + 1) next

/-! ## Where a run ends -/

/-- A run performs one step for each cycle that it counts. -/
theorem steps_run (state : State) (limit : Nat) :
    state.steps (state.run limit).cycles = .ok (state.run limit).state := by
  induction limit generalizing state with
  | zero => rfl
  | succ limit ih =>
    rw [State.run]
    rcases runFrom_cases state with ⟨-, hrun⟩ | ⟨word, -, -, -, hrun⟩ | ⟨next, -, hstep, hrun⟩
    · rw [hrun]
      rfl
    · rw [hrun]
      rfl
    · rw [hrun, runFrom_cycles]
      dsimp only
      rw [Nat.zero_add, Nat.add_comm, State.steps, hstep]
      exact ih next

/-- A run that is stopped by a fault stands at a word that is no instruction. -/
theorem fault_run {state : State} {limit : Nat} {fault : Fault}
    (h : (state.run limit).fault = some fault) :
    ∃ word, fault = .illegalInstruction (state.run limit).state.pc word ∧
      (state.run limit).state.word? = some word ∧ Instruction.decode? word = none := by
  induction limit generalizing state with
  | zero => cases h
  | succ limit ih =>
    rw [State.run] at h ⊢
    rcases runFrom_cases state with
      ⟨-, hrun⟩ | ⟨word, -, hword, hdecode, hrun⟩ | ⟨next, -, -, hrun⟩
    · rw [hrun] at h
      cases h
    · rw [hrun] at h ⊢
      exact ⟨word, (Option.some.inj h).symm, hword, hdecode⟩
    · rw [hrun, runFrom_cycles] at h ⊢
      exact ih h

/-! ## Runs under observation -/

/-- A step that is traced is a step. -/
theorem tracedStep_eq (state : State) :
    state.tracedStep =
      state.step.map fun next => (state.pc, state.word?.getD 0, next) := by
  rw [State.tracedStep, State.step, State.fetch]
  cases state.word? with
  | none => rfl
  | some word =>
    dsimp only
    cases Instruction.decode? word <;> rfl

/-- Calls that hand back the machine that they get do so one after the other. -/
theorem state_passAll {calls : List (State → Reply)}
    (h : ∀ call ∈ calls, ∀ state, (call state).state = state) (state : State) :
    (passAll calls state).state = state := by
  refine List.foldlRecOn (motive := fun reply : Reply => reply.state = state) calls _ rfl
    fun reply hreply call hcall => ?_
  exact (h call hcall reply.state).trans hreply

/-- A hook that hands back the machine that it gets after a step. -/
def Hook.Passive (hook : Hook) : Prop :=
  ∀ time address word state, (hook.after time address word state).state = state

/-- Both hooks of a monitor only print after a step. -/
theorem Monitor.passive_of_mem_observer (monitor : Monitor) :
    ∀ hook ∈ monitor.observer, hook.Passive := by
  have htrace : monitor.traceHook.Passive := fun _ _ _ _ => rfl
  have hsnapshot : monitor.snapshotHook.Passive := fun _ _ _ _ => rfl
  simp only [Monitor.observer, List.mem_cons, List.not_mem_nil, or_false, forall_eq_or_imp,
    forall_eq]
  exact ⟨htrace, hsnapshot⟩

/-- Both hooks of a monitor only print in front of a run. -/
theorem Monitor.before_observer (monitor : Monitor) (state : State) :
    monitor.observer.before state = ⟨state, monitor.opening⟩ := rfl

section Passive

variable {observer : Observer} (h : ∀ hook ∈ observer, hook.Passive)

include h

/-- Passive hooks leave the machine as it is after a step. -/
theorem Observer.state_after (time : Nat) (address word : Word) (state : State) :
    (observer.after time address word state).state = state := by
  refine state_passAll (List.forall_mem_map.mpr fun hook hhook => ?_) state
  exact h hook hhook time address word

/-- A run with passive hooks ends like the run without them. -/
theorem toOutcome_observeFrom (lines : Array String) (time limit : Nat) (state : State) :
    (observeFrom observer time lines time limit state).toOutcome = runFrom time limit state := by
  -- One run takes its cycles from the time and the other counts them. Both agree after a step
  -- because the time is the number of cycles in front of it.
  induction limit generalizing lines time state with
  | zero => rfl
  | succ limit ih =>
    rcases runFrom_cases state with
      ⟨hdone, hrun⟩ | ⟨word, hdone, hword, hdecode, hrun⟩ | ⟨next, hdone, hstep, hrun⟩
    · rw [hrun, observeFrom, if_pos hdone]
    · have hillegal : state.tracedStep = .error (.illegalInstruction state.pc word) := by
        simp only [State.tracedStep, State.fetch, hword, hdecode]
      rw [hrun, observeFrom, if_neg (Bool.eq_false_iff.mp hdone), hillegal]
    · rw [hrun, observeFrom, if_neg (Bool.eq_false_iff.mp hdone), tracedStep_eq, hstep]
      dsimp only [Except.map]
      rw [Observer.state_after h]
      exact ih _ _ next

end Passive

/-- A run of some cycles that is taken up for some more ends like one run of all
of them: with the cycles of both parts, in the same state and with the same fault,
if there is one. If the first part ends with a fault, so does the whole run, in
the same state. In either case the fault names the program counter and the word
there, which is no instruction, and all steps in front of it have been done. The
hooks of any monitor hand the machine back in front of a run, with the lines that
open it, and the run with them, from time zero on, ends like the run without them. -/
theorem runs_compose (state : State) (m n : Nat) :
    ((state.run m).fault = none →
      state.run (m + n) =
        ⟨((state.run m).state.run n).state,
          (state.run m).cycles + ((state.run m).state.run n).cycles,
          ((state.run m).state.run n).fault⟩) ∧
    (∀ fault, (state.run m).fault = some fault → state.run (m + n) = state.run m) ∧
    (∀ limit fault, (state.run limit).fault = some fault →
      ∃ word, fault = .illegalInstruction (state.run limit).state.pc word ∧
        (state.run limit).state.word? = some word ∧ Instruction.decode? word = none ∧
        state.steps (state.run limit).cycles = .ok (state.run limit).state) ∧
    ∀ (monitor : Monitor) (limit : Nat),
      monitor.observer.before state = ⟨state, monitor.opening⟩ ∧
      (state.observe monitor.observer 0 limit).toOutcome = state.run limit := by
  have hadd : state.run (m + n) = (state.run m).resume n := runFrom_add 0 m n state
  refine ⟨fun hnone => ?_, fun fault hsome => ?_, fun limit fault hfault => ?_, ?_⟩
  · rw [hadd, Outcome.resume, hnone]
    exact runFrom_cycles _ _ _
  · rw [hadd, Outcome.resume, hsome]
  · obtain ⟨word, hfields, hword, hdecode⟩ := fault_run hfault
    exact ⟨word, hfields, hword, hdecode, steps_run state limit⟩
  · exact fun monitor limit => ⟨monitor.before_observer state,
      toOutcome_observeFrom monitor.passive_of_mem_observer #[] 0 limit state⟩

/-- The words of `@1` and one that is no instruction. -/
def sampleStop : Rom := ⟨#[0b0000000000000001#16, 0b1111111111000000#16], by decide⟩

/-- The words of `@0` and `0;JMP`. -/
def sampleEnd : Rom := ⟨#[0b0000000000000000#16, 0b1110101010000111#16], by decide⟩

/-- The first sample is stopped in its second part, and a trace does not change
that. The second sample is done at the end of its first part. -/
theorem sampleStop_composed :
    ((State.initial.start sampleStop).run 1).fault = none ∧
    ((State.initial.start sampleStop).observe
        (Monitor.observer ⟨true, true, none, ∅⟩) 0 (1 + 4)).fault =
      some (.illegalInstruction 1 0b1111111111000000#16) ∧
    ((State.initial.start sampleEnd).run 2).state.done = true ∧
    ((State.initial.start sampleEnd).run (2 + 4)).cycles = 2 := by
  obtain ⟨hstop, -, -, hobserve⟩ := runs_compose (State.initial.start sampleStop) 1 4
  obtain ⟨hend, -⟩ := runs_compose (State.initial.start sampleEnd) 2 4
  refine ⟨rfl, ?_, rfl, ?_⟩
  · have hrun := congrArg Outcome.fault (hobserve ⟨true, true, none, ∅⟩ (1 + 4)).2
    rw [hrun, hstop rfl]
    rfl
  · rw [hend rfl]
    rfl

end HK16.Machine
