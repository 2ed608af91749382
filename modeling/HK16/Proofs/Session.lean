import HK16.Proofs.Labels
import Mathlib.Data.List.Flatten

/-!
# Sessions of a lowering

A lowering is used by four operations in any order: enter a file, add the
bootstrap, add a command, and lower a unit. Only units hand out code, namely all
that was added since the last unit, and a unit with a wrong line drops it. What
is handed out is the code of some of the events of the session at the places
where they happened, so the labels that were invented for it are all different.
-/

namespace HK16.Bytecode

open Assembly

/-- One use of a lowering. -/
inductive Operation
  /-- Go on with another file. -/
  | enterFile (file : String)
  /-- Add the bootstrap. -/
  | bootstrap
  /-- Add one command. -/
  | command (command : Command)
  /-- Lower a unit of source lines, with the bootstrap in front if asked for. -/
  | unit (lines : List String) (boot : Bool)
  deriving Repr, DecidableEq

/-- The lowering behind an operation, and the code that is handed out. -/
def Lowering.perform (lowering : Lowering) : Operation → Lowering × List Statement
  | .enterFile file => (lowering.enterFile file, [])
  | .bootstrap => (lowering.bootstrap, [])
  | .command command => ((lowering.command command).1, [])
  | .unit lines boot =>
    match lowering.unit lines boot with
    | (next, .ok code) => (next, code)
    | (next, .error _) => (next, [])

/-- All code that is handed out in a session. -/
def Lowering.output (lowering : Lowering) : List Operation → List Statement
  | [] => []
  | operation :: operations =>
    (lowering.perform operation).2 ++ (lowering.perform operation).1.output operations

/-! ## The events of a session -/

/-- The commands of source lines in front of the first line that cannot be read. -/
def executed : List String → List Command
  | [] => []
  | line :: lines =>
    match Line.parse line.toList with
    | .error _ => []
    | .ok (.command command) => command :: executed lines
    | .ok _ => executed lines

/-- Whether all lines can be read. -/
def readable : List String → Bool
  | [] => true
  | line :: lines =>
    match Line.parse line.toList with
    | .error _ => false
    | .ok _ => readable lines

namespace Operation

/-- The events of an operation. A command that is refused is none. -/
def events : Operation → List Event
  | enterFile file => [.file file]
  | bootstrap => [.boot]
  | command added =>
    match added.check with
    | .ok () => [.command added]
    | .error _ => []
  | unit lines boot => (if boot then [.boot] else []) ++ (executed lines).map .command

/-- Of the events that wait and those of the operation, the ones that are handed
out and the ones that wait afterwards. -/
def divide (items : List (Scope × Event)) :
    Operation → List (Scope × Event) × List (Scope × Event)
  | unit lines _ => if readable lines then (items, []) else ([], [])
  | _ => ([], items)

/-- The operation without the bootstrap, if anything remains. -/
def bootless : Operation → Option Operation
  | enterFile file => some (.enterFile file)
  | bootstrap => none
  | command added => some (.command added)
  | unit lines _ => some (.unit lines false)

end Operation

/-- The events whose code is handed out in a session, if those in front of it
still wait. -/
def handedOut (scope : Scope) (waiting : List (Scope × Event)) :
    List Operation → List (Scope × Event)
  | [] => []
  | operation :: operations =>
    let (given, waiting) := operation.divide (waiting ++ trace scope operation.events)
    given ++ handedOut (scope.afterEvents operation.events) waiting operations

theorem handedOut_cons (scope : Scope) (waiting : List (Scope × Event)) (operation : Operation)
    (operations : List Operation) :
    handedOut scope waiting (operation :: operations) =
      (operation.divide (waiting ++ trace scope operation.events)).1 ++
        handedOut (scope.afterEvents operation.events)
          (operation.divide (waiting ++ trace scope operation.events)).2 operations := rfl

/-! ## Lines -/

/-- A line that is read as a command holds one that is read from its words and
checked. -/
theorem exists_of_parse {line : List Char} {command : Command}
    (h : Line.parse line = .ok (.command command)) :
    ∃ word arguments, Command.parse word arguments = .ok (some command) ∧
      command.check = .ok () := by
  rw [Line.parse] at h
  split at h
  · cases h
  · next word arguments _ =>
    split at h
    · cases h
    · cases h
    · next hparse =>
      split at h
      · cases h
      · next hcheck =>
        cases h
        exact ⟨word, arguments, hparse, hcheck⟩

/-- A line that is read as a command holds a checked one. -/
theorem check_of_parse {line : List Char} {command : Command}
    (h : Line.parse line = .ok (.command command)) : command.check = .ok () := by
  obtain ⟨-, -, -, hcheck⟩ := exists_of_parse h
  exact hcheck

/-- Executed commands are read from lines. -/
theorem exists_of_mem_executed {lines : List String} {command : Command}
    (h : command ∈ executed lines) : ∃ line, Line.parse line = .ok (.command command) := by
  induction lines with
  | nil => cases h
  | cons line lines ih =>
    rw [executed] at h
    split at h
    · cases h
    · next hparse =>
      rcases List.mem_cons.mp h with rfl | hrest
      · exact ⟨_, hparse⟩
      · exact ih hrest
    · exact ih h

/-- Executed commands are checked. -/
theorem check_of_mem_executed {lines : List String} {command : Command}
    (h : command ∈ executed lines) : command.check = .ok () := by
  obtain ⟨line, hparse⟩ := exists_of_mem_executed h
  exact check_of_parse hparse

/-- The events of an operation are checked. -/
theorem Operation.checked_events (operation : Operation) :
    ∀ event ∈ operation.events, event.Checked := by
  intro event hevent
  cases operation with
  | enterFile file =>
    obtain rfl := List.mem_singleton.mp hevent
    trivial
  | bootstrap =>
    obtain rfl := List.mem_singleton.mp hevent
    trivial
  | command added =>
    rw [events] at hevent
    split at hevent
    · next hcheck =>
      obtain rfl := List.mem_singleton.mp hevent
      exact hcheck
    · cases hevent
  | unit lines boot =>
    rw [events, List.mem_append, List.mem_map] at hevent
    rcases hevent with hboot | ⟨command, hmem, rfl⟩
    · split at hboot
      · obtain rfl := List.mem_singleton.mp hboot
        trivial
      · cases hboot
    · exact check_of_mem_executed hmem

/-- A bootstrap in front of a unit does not change the place. -/
theorem Scope.afterEvents_ite (scope : Scope) (boot : Bool) :
    scope.afterEvents (if boot then [.boot] else []) = scope := by
  cases boot <;> rfl

/-- The place behind a unit is that behind its executed commands. -/
theorem Scope.afterEvents_unit (scope : Scope) (lines : List String) (boot : Bool) :
    scope.afterEvents (Operation.unit lines boot).events =
      scope.afterEvents ((executed lines).map .command) := by
  rw [Operation.events, Scope.afterEvents, List.foldl_append]
  exact congrArg (Scope.afterEvents · _) (scope.afterEvents_ite boot)

/-- The state of a lowering that matters for what it hands out: the place, and
the code of the events that wait. -/
structure Lowering.Holds (lowering : Lowering) (entry : String) (scope : Scope)
    (waiting : List (Scope × Event)) : Prop where
  /-- The place of the next command. -/
  scope_eq : lowering.scope = scope
  /-- The function that the bootstrap calls. -/
  entry_eq : lowering.entry = entry
  /-- What has not been handed out is the code of the waiting events. -/
  pending_eq : lowering.pending.toList = codeOf entry waiting

theorem codeOf_trace_singleton (entry : String) (scope : Scope) (event : Event) :
    codeOf entry (trace scope [event]) = event.code entry scope :=
  List.append_nil _

namespace Lowering.Holds

variable {lowering : Lowering} {entry : String} {scope : Scope} {waiting : List (Scope × Event)}

/-- A command that is added waits behind the others. -/
theorem append (command : Command) (h : lowering.Holds entry scope waiting) :
    (lowering.append (command.emitted scope) command).Holds entry (scope.after command)
      (waiting ++ trace scope [.command command]) := by
  rw [Lowering.append]
  refine ⟨congrArg (Scope.after · command) h.scope_eq, h.entry_eq, ?_⟩
  rw [Array.toList_appendList, h.pending_eq, codeOf_append,
    codeOf_trace_singleton, Event.code]

/-- The bootstrap waits behind the others and leaves the place as it is. -/
theorem bootstrap (h : lowering.Holds entry scope waiting) :
    lowering.bootstrap.Holds entry scope (waiting ++ trace scope [.boot]) := by
  rw [Lowering.bootstrap_eq]
  refine ⟨h.scope_eq, h.entry_eq, ?_⟩
  rw [Array.toList_appendList, h.pending_eq, h.entry_eq, codeOf_append,
    codeOf_trace_singleton, Event.code]

/-- Entering a file adds no code. -/
theorem enterFile (file : String) (h : lowering.Holds entry scope waiting) :
    (lowering.enterFile file).Holds entry (scope.enterFile file)
      (waiting ++ trace scope [.file file]) := by
  refine ⟨congrArg (Scope.enterFile · file) h.scope_eq, h.entry_eq, ?_⟩
  rw [codeOf_append, codeOf_trace_singleton, Event.code, List.append_nil]
  exact h.pending_eq

/-- A remembered line changes nothing that matters. -/
theorem skip (number : Nat) (line : List Char) (h : lowering.Holds entry scope waiting) :
    (lowering.skip number line).Holds entry scope waiting :=
  ⟨h.scope_eq, h.entry_eq, h.pending_eq⟩

/-- Source lines add their executed commands, and fail exactly if one of them
cannot be read. -/
theorem linesFrom (index : Nat) (lines : List String) (h : lowering.Holds entry scope waiting) :
    (Lowering.linesFrom index lowering lines).1.Holds entry
        (scope.afterEvents ((executed lines).map .command))
        (waiting ++ trace scope ((executed lines).map .command)) ∧
      (Lowering.linesFrom index lowering lines).2.isOk = readable lines := by
  induction lines generalizing index lowering scope waiting with
  | nil =>
    refine ⟨?_, rfl⟩
    rw [executed, List.map_nil, trace, List.append_nil]
    exact h
  | cons line lines ih =>
    cases hparse : Line.parse line.toList with
    | error fault =>
      simp only [Lowering.linesFrom, executed, readable, hparse, List.map_nil, trace,
        List.append_nil]
      exact ⟨h, rfl⟩
    | ok content =>
      cases content with
      | blank =>
        simp only [Lowering.linesFrom, executed, readable, hparse]
        exact ih (index + 1) h
      | unknown word =>
        simp only [Lowering.linesFrom, executed, readable, hparse]
        exact ih (index + 1) (h.skip (index + 1) line.toList)
      | command command =>
        have hcode := Command.compile_of_check scope (check_of_parse hparse)
        have hrest := ih (index + 1) (h.append command)
        rw [List.append_assoc] at hrest
        simp only [Lowering.linesFrom, executed, readable, hparse, h.scope_eq, hcode]
        exact hrest

/-- Taking what waits leaves nothing behind. -/
theorem flush (h : lowering.Holds entry scope waiting) :
    lowering.flush.1.Holds entry scope [] ∧ lowering.flush.2 = codeOf entry waiting :=
  ⟨⟨h.scope_eq, h.entry_eq, rfl⟩, h.pending_eq⟩

/-- A unit takes all that waits, together with its own commands. -/
theorem unit (lines : List String) (boot : Bool) (h : lowering.Holds entry scope waiting) :
    (lowering.unit lines boot).1.Holds entry
        (scope.afterEvents (Operation.unit lines boot).events) [] ∧
      (readable lines = true → (lowering.unit lines boot).2 =
        .ok (codeOf entry (waiting ++ trace scope (Operation.unit lines boot).events))) ∧
      (readable lines = false → ∃ fault, (lowering.unit lines boot).2 = .error fault) := by
  have hstart : (if boot then lowering.bootstrap else lowering).Holds entry scope
      (waiting ++ trace scope (if boot then [.boot] else [])) := by
    cases boot with
    | false =>
      rw [if_neg Bool.false_ne_true, if_neg Bool.false_ne_true, trace, List.append_nil]
      exact h
    | true => exact h.bootstrap
  have htrace : trace scope (Operation.unit lines boot).events =
      trace scope (if boot then [.boot] else []) ++
        trace scope ((executed lines).map .command) := by
    rw [Operation.events, trace_append, scope.afterEvents_ite boot]
  obtain ⟨hlines, hread⟩ := hstart.linesFrom 0 lines
  rw [List.append_assoc, ← htrace, ← scope.afterEvents_unit lines boot] at hlines
  rw [Lowering.unit]
  rcases hrun : Lowering.linesFrom 0 (if boot then lowering.bootstrap else lowering) lines with
    ⟨final, result⟩
  rw [hrun] at hlines hread
  obtain ⟨hfinal, hcode⟩ := hlines.flush
  refine ⟨hfinal, fun hgood => ?_, fun hbad => ?_⟩
  · cases result with
    | ok value => exact congrArg Except.ok hcode
    | error fault => rw [hgood] at hread; cases hread
  · cases result with
    | ok value => rw [hbad] at hread; cases hread
    | error fault => exact ⟨fault, rfl⟩

/-- An operation hands out the code of the events that its description says, and
keeps the others. -/
theorem perform (operation : Operation) (h : lowering.Holds entry scope waiting) :
    (lowering.perform operation).2 =
        codeOf entry (operation.divide (waiting ++ trace scope operation.events)).1 ∧
      (lowering.perform operation).1.Holds entry (scope.afterEvents operation.events)
        (operation.divide (waiting ++ trace scope operation.events)).2 := by
  cases operation with
  | enterFile file => exact ⟨rfl, h.enterFile file⟩
  | bootstrap => exact ⟨rfl, h.bootstrap⟩
  | command added =>
    refine ⟨rfl, ?_⟩
    rw [Lowering.perform, Lowering.command, Operation.events, h.scope_eq]
    cases hcheck : added.check with
    | error fault =>
      rw [Command.compile, hcheck]
      dsimp only [Operation.divide, trace]
      rw [List.append_nil]
      exact h
    | ok value =>
      rw [Command.compile_of_check scope hcheck]
      exact h.append added
  | unit lines boot =>
    obtain ⟨hstate, hgood, hbad⟩ := h.unit lines boot
    rw [Lowering.perform, Operation.divide]
    rcases hunit : lowering.unit lines boot with ⟨next, result⟩
    rw [hunit] at hstate hgood hbad
    cases hread : readable lines with
    | true =>
      obtain rfl := hgood hread
      exact ⟨rfl, hstate⟩
    | false =>
      obtain ⟨fault, rfl⟩ := hbad hread
      exact ⟨rfl, hstate⟩

/-- A session hands out the code of the events that its description says. -/
theorem output_eq (operations : List Operation) (h : lowering.Holds entry scope waiting) :
    lowering.output operations = codeOf entry (handedOut scope waiting operations) := by
  induction operations generalizing lowering scope waiting with
  | nil => rfl
  | cons operation operations ih =>
    obtain ⟨hgiven, hnext⟩ := h.perform operation
    rw [Lowering.output, hgiven, ih hnext, ← codeOf_append, handedOut_cons]

end Lowering.Holds

/-- A lowering begins with nothing that waits. -/
theorem Lowering.holds_ofFile (file entry : String) :
    (Lowering.ofFile file entry).Holds entry (.ofFile file) [] := ⟨rfl, rfl, rfl⟩

/-! ## What is handed out -/

/-- Of what waits, some is handed out and the rest goes on waiting, or all is
dropped. -/
theorem Operation.divide_sublist (items : List (Scope × Event)) (operation : Operation) :
    ((operation.divide items).1 ++ (operation.divide items).2).Sublist items := by
  cases operation with
  | enterFile _ | bootstrap | command _ => exact List.Sublist.refl _
  | unit lines _ =>
    rw [divide]
    split
    · rw [List.append_nil]
    · exact List.nil_sublist _

/-- What is handed out are events of the session in their order, some of which
may be missing. -/
theorem handedOut_sublist (scope : Scope) (waiting : List (Scope × Event))
    (operations : List Operation) :
    (handedOut scope waiting operations).Sublist
      (waiting ++ trace scope (operations.flatMap Operation.events)) := by
  induction operations generalizing scope waiting with
  | nil => exact List.nil_sublist _
  | cons operation operations ih =>
    have hdivide := operation.divide_sublist (waiting ++ trace scope operation.events)
    have hrest := ih (scope.afterEvents operation.events)
      (operation.divide (waiting ++ trace scope operation.events)).2
    have hgiven := hrest.append_left
      (operation.divide (waiting ++ trace scope operation.events)).1
    rw [← List.append_assoc] at hgiven
    rw [List.flatMap_cons, trace_append, ← List.append_assoc]
    exact hgiven.trans (hdivide.append_right _)

section Handed

variable (file : String) (operations : List Operation)

/-- The events that are handed out in a session from the beginning are among
those of the session. -/
theorem handedOut_ofFile_sublist :
    (handedOut (.ofFile file) [] operations).Sublist
      (trace (.ofFile file) (operations.flatMap Operation.events)) :=
  handedOut_sublist (.ofFile file) [] operations

/-- What is handed out is checked. -/
theorem checked_handedOut :
    ∀ item ∈ handedOut (.ofFile file) [] operations, item.2.Checked := by
  intro item hitem
  have hmem := mem_of_mem_trace ((handedOut_ofFile_sublist file operations).subset hitem)
  obtain ⟨operation, -, hevent⟩ := List.mem_flatMap.mp hmem
  exact operation.checked_events _ hevent

/-- The labels of what is handed out are among those of the session. -/
theorem labelsOf_handedOut_sublist (p : Label → Bool) :
    ((labelsOf (handedOut (.ofFile file) [] operations)).filter p).Sublist
      ((labelsOf (trace (.ofFile file) (operations.flatMap Operation.events))).filter p) :=
  ((handedOut_ofFile_sublist file operations).flatMap _).filter p

end Handed

/-! ## Sessions without bootstraps -/

/-- Whether the event is the bootstrap. -/
def Event.isBoot : Event → Bool
  | .boot => true
  | _ => false

/-- Bootstraps do not change the place. -/
theorem trace_filter_isBoot (scope : Scope) (events : List Event) :
    trace scope (events.filter (!·.isBoot)) =
        (trace scope events).filter (fun item => !item.2.isBoot) ∧
      scope.afterEvents (events.filter (!·.isBoot)) = scope.afterEvents events := by
  induction events generalizing scope with
  | nil => exact ⟨rfl, rfl⟩
  | cons event events ih =>
    obtain ⟨htrace, hscope⟩ := ih (event.after scope)
    cases event with
    | boot => exact ⟨htrace, hscope⟩
    | file _ | command _ => exact ⟨congrArg (List.cons _) htrace, hscope⟩

/-- What remains of an operation has the same events except for the bootstrap,
and hands out and keeps the same ones. -/
theorem Operation.of_bootless {operation rest : Operation} (h : operation.bootless = some rest) :
    rest.events = operation.events.filter (!·.isBoot) ∧
      ∀ items (p : Scope × Event → Bool), rest.divide (items.filter p) =
        ((operation.divide items).1.filter p, (operation.divide items).2.filter p) := by
  have hcommands (commands : List Command) :
      (commands.map Event.command).filter (!·.isBoot) = commands.map Event.command := by
    rw [List.filter_eq_self]
    intro event hevent
    obtain ⟨command, -, rfl⟩ := List.mem_map.mp hevent
    rfl
  cases operation with
  | enterFile file => cases h; exact ⟨rfl, fun _ _ => rfl⟩
  | bootstrap => cases h
  | command added =>
    cases h
    refine ⟨?_, fun _ _ => rfl⟩
    rw [events]
    split <;> rfl
  | unit lines boot =>
    cases h
    constructor
    · rw [events, events, List.filter_append, hcommands]
      cases boot <;> rfl
    · intro items p
      rw [divide, divide]
      split <;> rfl

/-- Without its bootstraps a session hands out the same events at the same
places, except for the bootstraps. -/
theorem handedOut_bootless (scope : Scope) (waiting : List (Scope × Event))
    (operations : List Operation) :
    handedOut scope (waiting.filter fun item => !item.2.isBoot)
        (operations.filterMap Operation.bootless) =
      (handedOut scope waiting operations).filter fun item => !item.2.isBoot := by
  induction operations generalizing scope waiting with
  | nil => rfl
  | cons operation operations ih =>
    cases hrest : operation.bootless with
    | none =>
      cases operation with
      | bootstrap =>
        have hdivide (items : List (Scope × Event)) :
            Operation.bootstrap.divide items = ([], items) := rfl
        have hwaiting : (waiting ++ trace scope Operation.bootstrap.events).filter
            (fun item => !item.2.isBoot) = waiting.filter fun item => !item.2.isBoot := by
          rw [List.filter_append]
          exact List.append_nil _
        rw [List.filterMap_cons_none hrest, handedOut_cons, hdivide, List.nil_append, ← ih,
          hwaiting]
        rfl
      | enterFile _ | command _ | unit _ _ => cases hrest
    | some rest =>
      obtain ⟨hevents, hdivide⟩ := Operation.of_bootless hrest
      obtain ⟨htrace, hscope⟩ := trace_filter_isBoot scope operation.events
      rw [List.filterMap_cons_some hrest, handedOut_cons, handedOut_cons, hevents, htrace, hscope,
        ← List.filter_append, hdivide, ih, List.filter_append]

/-! ## Invented labels -/

/-- What a session hands out is the code of events at their places, and declares
their labels in order. The labels of comparisons among them have different names.
So have the labels behind calls, if no name is entered twice: neither a file, nor
a function, nor that of the bootstrap. Leaving out all bootstraps leaves out
their code and no other, so that they do not disturb the numbers of calls. -/
theorem invented_labels_fresh (file entry : String) (operations : List Operation) :
    (Lowering.ofFile file entry).output operations =
        codeOf entry (handedOut (.ofFile file) [] operations) ∧
      labelNames ((Lowering.ofFile file entry).output operations) =
        (labelsOf (handedOut (.ofFile file) [] operations)).map Label.text ∧
      (((labelsOf (handedOut (.ofFile file) [] operations)).filter
        Label.isComparison).map Label.text).Nodup ∧
      ((file :: (operations.flatMap Operation.events).flatMap Event.entered).Nodup →
        (((labelsOf (handedOut (.ofFile file) [] operations)).filter
          Label.isReturn).map Label.text).Nodup) ∧
      (Lowering.ofFile file entry).output (operations.filterMap Operation.bootless) =
        codeOf entry ((handedOut (.ofFile file) [] operations).filter
          fun item => !item.2.isBoot) := by
  have hholds := Lowering.holds_ofFile file entry
  have houtput := hholds.output_eq operations
  refine ⟨houtput, ?_, ?_, fun hnames => ?_, ?_⟩
  · rw [houtput, labelNames_codeOf entry (checked_handedOut file operations)]
  · have hlabels := (nodup_comparisons (.ofFile file) _).sublist
      (labelsOf_handedOut_sublist file operations Label.isComparison)
    exact hlabels.map_on fun label hlabel other hother =>
      Label.text_inj_of_isComparison (List.mem_filter.mp hlabel).2 (List.mem_filter.mp hother).2
  · have hlabels := (nodup_returns hnames).sublist
      (labelsOf_handedOut_sublist file operations Label.isReturn)
    exact hlabels.map_on fun label hlabel other hother =>
      Label.text_inj_of_isReturn (List.mem_filter.mp hlabel).2 (List.mem_filter.mp hother).2
  · rw [hholds.output_eq, ← handedOut_bootless, List.filter_nil]

/-- A session with a function whose name looks like a return label, a bootstrap in
the middle of it, a unit that is dropped, and a second file. -/
def sampleSession : List Operation :=
  [.command (.function "Main$ret.1" 0), .command (.call "Main" 0), .bootstrap,
    .unit ["call Main 0", "eq // counted on"] false, .unit ["call Main 0", "pop constant 1"] false,
    .unit ["call Main 0"] false, .enterFile "Main.1", .unit ["lt", "call Main 0"] false]

theorem sampleSession_fresh :
    ("Main" :: (sampleSession.flatMap Operation.events).flatMap Event.entered).Nodup ∧
      (labelNames ((Lowering.ofFile "Main" "Sys.init").output sampleSession)) =
        ["Main$ret.1", "Main$ret.1$ret.1", "Bootstrap$ret.1", "Main$ret.1$ret.2", "CMP_TRUE.1",
          "CMP_END.1", "Main$ret.1$ret.4", "CMP_TRUE.2", "CMP_END.2", "Main.1$ret.1"] ∧
      (((labelsOf (handedOut (.ofFile "Main") [] sampleSession)).filter
        Label.isReturn).map Label.text).Nodup := by
  have hnames :
      ("Main" :: (sampleSession.flatMap Operation.events).flatMap Event.entered).Nodup := by
    decide +kernel
  obtain ⟨-, hlabels, -, hreturns, -⟩ := invented_labels_fresh "Main" "Sys.init" sampleSession
  refine ⟨hnames, ?_, hreturns hnames⟩
  rw [hlabels]
  decide +kernel

end HK16.Bytecode
