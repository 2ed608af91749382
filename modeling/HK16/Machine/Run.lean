import HK16.Machine.State

/-!
# Runs

A run repeats steps until the machine is done, a word is no instruction, or a
given number of cycles has passed. An observed run also passes the machine through
hooks, in front of the run and after each step. A hook prints lines and hands a
machine back, with which the run goes on. An observed run does not count its
steps: it takes the number of cycles from the time of its last step.
-/

namespace HK16.Machine

/-- How a run ended. -/
structure Outcome where
  /-- The machine after the last completed step. -/
  state : State
  /-- The number of completed steps. -/
  cycles : Nat
  /-- The fault that stopped the run, if one did. -/
  fault : Option Fault

/-- Continue a run for at most the given number of cycles. -/
def runFrom (cycles : Nat) : Nat → State → Outcome
  | 0, state => ⟨state, cycles, none⟩
  | limit + 1, state =>
    if state.done then ⟨state, cycles, none⟩
    else
      match state.fetch with
      | .nothing => ⟨state, cycles, none⟩
      | .illegal word => ⟨state, cycles, some (.illegalInstruction state.pc word)⟩
      | .instruction _ instruction => runFrom (cycles + 1) limit (state.execute instruction)

/-- Run for at most the given number of cycles. -/
def State.run (state : State) (limit : Nat) : Outcome := runFrom 0 limit state

/-- What a hook hands back. -/
structure Reply where
  /-- The machine with which the run goes on. -/
  state : State
  /-- The lines that are printed. -/
  lines : List String

/-- Something that is done beside a run. -/
structure Hook where
  /-- What is done in front of the run. -/
  before : State → Reply
  /-- What is done after a step: from the time of the step, the address and the
  word that were executed, and the machine afterwards. -/
  after : Nat → Word → Word → State → Reply

/-- Pass a machine through calls of hooks. Each call gets the machine that the one
in front of it hands back. -/
def passAll (calls : List (State → Reply)) (state : State) : Reply :=
  calls.foldl (fun reply call =>
    let next := call reply.state
    ⟨next.state, reply.lines ++ next.lines⟩) ⟨state, []⟩

/-- The hooks of an observed run, in the order in which they are called. -/
abbrev Observer := List Hook

/-- Call all hooks in front of a run. -/
def Observer.before (observer : Observer) (state : State) : Reply :=
  passAll (observer.map Hook.before) state

/-- Call all hooks after a step. -/
def Observer.after (observer : Observer) (time : Nat) (address word : Word) (state : State) :
    Reply :=
  passAll (observer.map fun hook => hook.after time address word) state

/-- How an observed run ended, with the lines that were collected. -/
structure ObservedOutcome extends Outcome where
  /-- The collected lines in order. -/
  lines : Array String

/-- Continue an observed run for at most the given number of cycles. After a step
the number of cycles is one more than the time of the step. -/
def observeFrom (observer : Observer) (cycles : Nat) (lines : Array String) (time : Nat) :
    Nat → State → ObservedOutcome
  | 0, state => ⟨⟨state, cycles, none⟩, lines⟩
  | limit + 1, state =>
    if state.done then ⟨⟨state, cycles, none⟩, lines⟩
    else
      match state.tracedStep with
      | .error fault => ⟨⟨state, cycles, some fault⟩, lines⟩
      | .ok (address, word, next) =>
        let reply := observer.after time address word next
        observeFrom observer (time + 1) (lines ++ reply.lines) (time + 1) limit reply.state

/-- Run for at most the given number of cycles under observation. The first step
has the given time. -/
def State.observe (state : State) (observer : Observer) (time limit : Nat) : ObservedOutcome :=
  observeFrom observer 0 #[] time limit state

end HK16.Machine
