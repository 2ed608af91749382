import HK16.Proofs.Calls
import HK16.Proofs.Lowering

/-!
# The labels of a run

Files are entered, the bootstrap is added and commands are lowered one after the
other. Each of these events declares labels that depend on the place where it
happens. Two families of labels are invented: those of comparisons, which are
counted through the whole run, and those behind calls, which are counted from
one in every function. A label of the first family never comes twice. One of the
second comes twice only if the same file or function is entered twice. Labels
that the program names itself are not kept apart here.
-/

namespace HK16.Bytecode

open Assembly

/-- What a label of the code is for. -/
inductive Label
  /-- The beginning of a function. -/
  | entry (function : String)
  /-- A label of the program within a function. -/
  | place (function name : String)
  /-- The place behind a call within a function. -/
  | afterCall (function : String) (number : Nat)
  /-- The branch of a comparison that holds. -/
  | trueBranch (number : Nat)
  /-- The place behind a comparison. -/
  | afterCompare (number : Nat)
  deriving Repr, DecidableEq

namespace Label

/-- The name of a label in the code. -/
def text : Label → String
  | entry function => function
  | place function name => function ++ "$" ++ name
  | afterCall function number => function ++ "$ret." ++ toString number
  | trueBranch number => "CMP_TRUE." ++ toString number
  | afterCompare number => "CMP_END." ++ toString number

/-- Whether the label belongs to a comparison. -/
def isComparison : Label → Bool
  | trueBranch _ | afterCompare _ => true
  | _ => false

/-- Whether the label stands behind a call. -/
def isReturn : Label → Bool
  | afterCall _ _ => true
  | _ => false

/-- The name of a label behind a call in its two parts. -/
theorem text_afterCall (function : String) (number : Nat) :
    (afterCall function number).text = function ++ "$ret" ++ "." ++ toString number := by
  have hmark : "$ret." = "$ret" ++ "." := rfl
  rw [text, hmark, ← String.append_assoc]

/-- Labels of comparisons have different names. -/
theorem text_inj_of_isComparison {label other : Label} (h : label.isComparison = true)
    (h' : other.isComparison = true) (htext : label.text = other.text) : label = other := by
  have hmarks : "CMP_TRUE." = "CMP_TRUE" ++ "." ∧ "CMP_END." = "CMP_END" ++ "." := ⟨rfl, rfl⟩
  cases label with
  | trueBranch n =>
    cases other with
    | trueBranch m =>
      rw [text, text, hmarks.1, dotted_inj] at htext
      rw [htext.2]
    | afterCompare m =>
      rw [text, text, hmarks.1, hmarks.2, dotted_inj] at htext
      exact absurd htext.1 (by decide)
    | entry _ | place _ _ | afterCall _ _ => cases h'
  | afterCompare n =>
    cases other with
    | trueBranch m =>
      rw [text, text, hmarks.1, hmarks.2, dotted_inj] at htext
      exact absurd htext.1 (by decide)
    | afterCompare m =>
      rw [text, text, hmarks.2, dotted_inj] at htext
      rw [htext.2]
    | entry _ | place _ _ | afterCall _ _ => cases h'
  | entry _ | place _ _ | afterCall _ _ => cases h

/-- Labels behind calls have different names, whatever the functions are called. -/
theorem text_inj_of_isReturn {label other : Label} (h : label.isReturn = true)
    (h' : other.isReturn = true) (htext : label.text = other.text) : label = other := by
  cases label with
  | afterCall function number =>
    cases other with
    | afterCall function' number' =>
      rw [text_afterCall, text_afterCall, dotted_inj, String.append_left_inj] at htext
      rw [htext.1, htext.2]
    | entry _ | place _ _ | trueBranch _ | afterCompare _ => cases h'
  | entry _ | place _ _ | trueBranch _ | afterCompare _ => cases h

end Label

/-- The labels that a command declares at its place. -/
def Command.labels (scope : Scope) : Command → List Label
  | .arithmetic .eq | .arithmetic .gt | .arithmetic .lt =>
    [.trueBranch (scope.compares + 1), .afterCompare (scope.compares + 1)]
  | .label name => [.place scope.function name]
  | .function name _ => [.entry name]
  | .call _ _ => [.afterCall scope.function scope.calls]
  | _ => []

/-- What happens to the place where code is made. -/
inductive Event
  /-- Another file is entered. -/
  | file (name : String)
  /-- The bootstrap is added. -/
  | boot
  /-- A command is added. -/
  | command (command : Command)
  deriving Repr, DecidableEq

namespace Event

/-- The place behind an event. -/
def after (scope : Scope) : Event → Scope
  | file name => scope.enterFile name
  | boot => scope
  | command added => scope.after added

/-- The code of an event. -/
def code (entry : String) (scope : Scope) : Event → List Statement
  | file _ => []
  | boot => Code.boot entry
  | command added => added.emitted scope

/-- The labels that an event declares. -/
def labels (scope : Scope) : Event → List Label
  | file _ => []
  | boot => [.afterCall Code.bootScope.function Code.bootScope.calls]
  | command added => added.labels scope

/-- The name under which calls are counted from one after an event, or in it. -/
def entered : Event → List String
  | file name => [name]
  | boot => [Code.bootScope.function]
  | command (.function name _) => [name]
  | command _ => []

/-- Whether a command, if the event is one, passes its check. -/
def Checked : Event → Prop
  | command added => added.check = .ok ()
  | _ => True

end Event

/-- The place behind events. -/
def Scope.afterEvents (scope : Scope) (events : List Event) : Scope :=
  events.foldl Event.after scope

/-- A command leaves the file as it is. -/
theorem Scope.file_after (scope : Scope) (command : Command) :
    (scope.after command).file = scope.file := by
  cases command with
  | arithmetic operation => cases operation <;> rfl
  | push _ _ | pop _ _ | label _ | goto _ | ifGoto _ | function _ _ | call _ _ | return_ => rfl

/-- Events, each with the place where it happens. -/
def trace (scope : Scope) : List Event → List (Scope × Event)
  | [] => []
  | event :: events => (scope, event) :: trace (event.after scope) events

/-- The code of events at their places. -/
def codeOf (entry : String) (items : List (Scope × Event)) : List Statement :=
  items.flatMap fun item => item.2.code entry item.1

/-- The labels of events at their places. -/
def labelsOf (items : List (Scope × Event)) : List Label :=
  items.flatMap fun item => item.2.labels item.1

/-! ## Code and labels -/

/-- A command that passes its check has a code. -/
theorem Command.compile_of_check {command : Command} (scope : Scope)
    (h : command.check = .ok ()) : command.compile scope = .ok (command.emitted scope) := by
  cases command with
  | function _ _ | call _ _ | return_ => rw [Command.emitted, Command.compile, h]; rfl
  | arithmetic _ | push _ _ | pop _ _ | label _ | goto _ | ifGoto _ =>
    exact Command.compile_eq_ok scope rfl h

/-- A command is added exactly if it passes its check. -/
theorem snd_command (lowering : Lowering) (command : Command) :
    (lowering.command command).2 = command.check := by
  rw [Lowering.command]
  cases hcheck : command.check with
  | error fault => rw [Command.compile, hcheck]
  | ok value => rw [Command.compile_of_check lowering.scope hcheck]

theorem labelNames_function (name : String) (locals : Word) :
    labelNames (Code.function name locals) = [name] := by
  have hzeros : labelNames (List.replicate locals.toNat Code.pushZero).flatten = [] := by
    rw [List.eq_nil_iff_forall_not_mem]
    intro other hmem
    exact Code.label_notMem_zeros other locals.toNat (mem_labelNames.mp hmem)
  exact congrArg (name :: ·) hzeros

/-- The code of a checked command declares the labels of the command in order. -/
theorem labelNames_emitted_eq {command : Command} (scope : Scope)
    (h : command.check = .ok ()) :
    labelNames (command.emitted scope) = (command.labels scope).map Label.text := by
  have hcode := Command.code_of_compile (Command.compile_of_check scope h)
  cases command with
  | function name locals =>
    rw [← Except.ok.inj hcode]
    exact labelNames_function name locals
  | call _ _ | return_ =>
    rw [← Except.ok.inj hcode]
    rfl
  | arithmetic operation =>
    rw [labelNames_emitted scope rfl h]
    cases operation <;> rfl
  | push _ _ | pop _ _ | label _ | goto _ | ifGoto _ =>
    rw [labelNames_emitted scope rfl h]
    rfl

/-- The code of a checked event declares the labels of the event in order. -/
theorem labelNames_event {event : Event} (entry : String) (scope : Scope) (h : event.Checked) :
    labelNames (event.code entry scope) = (event.labels scope).map Label.text := by
  cases event with
  | file _ | boot => rfl
  | command added => exact labelNames_emitted_eq scope h

theorem codeOf_append (entry : String) (items rest : List (Scope × Event)) :
    codeOf entry (items ++ rest) = codeOf entry items ++ codeOf entry rest :=
  List.flatMap_append

/-- The code of checked events declares their labels in order. -/
theorem labelNames_codeOf {items : List (Scope × Event)} (entry : String)
    (h : ∀ item ∈ items, item.2.Checked) :
    labelNames (codeOf entry items) = (labelsOf items).map Label.text := by
  induction items with
  | nil => rfl
  | cons item items ih =>
    rw [List.forall_mem_cons] at h
    rw [codeOf, List.flatMap_cons, labelNames_append, labelNames_event entry item.1 h.1, labelsOf,
      List.flatMap_cons, List.map_append]
    exact congrArg _ (ih h.2)

/-- Events, one part behind the other. -/
theorem trace_append (scope : Scope) (events rest : List Event) :
    trace scope (events ++ rest) = trace scope events ++ trace (scope.afterEvents events) rest := by
  induction events generalizing scope with
  | nil => rfl
  | cons event events ih =>
    rw [List.cons_append, trace, trace, ih, List.cons_append]
    rfl

/-- The events of a trace are those that it was made of. -/
theorem map_snd_trace (scope : Scope) (events : List Event) :
    (trace scope events).map Prod.snd = events := by
  induction events generalizing scope with
  | nil => rfl
  | cons event events ih => rw [trace, List.map_cons, ih]

/-- Everything in a trace is one of the events. -/
theorem mem_of_mem_trace {scope : Scope} {events : List Event} {item : Scope × Event}
    (h : item ∈ trace scope events) : item.2 ∈ events := by
  have hmem := List.mem_map_of_mem (f := Prod.snd) h
  rwa [map_snd_trace] at hmem

/-- The labels of a run are those of its first event, followed by the others. -/
theorem labelsOf_trace_cons (scope : Scope) (event : Event) (events : List Event) :
    labelsOf (trace scope (event :: events)) =
      event.labels scope ++ labelsOf (trace (event.after scope) events) := rfl

/-! ## Comparisons -/

/-- An event never makes the number of comparisons smaller. If it is a
comparison, its labels carry the new number. -/
theorem Event.compares_step (scope : Scope) (event : Event) :
    ((event.labels scope).filter Label.isComparison = [] ∧
      (event.after scope).compares = scope.compares) ∨
    ((event.labels scope).filter Label.isComparison =
        [.trueBranch (scope.compares + 1), .afterCompare (scope.compares + 1)] ∧
      (event.after scope).compares = scope.compares + 1) := by
  cases event with
  | file _ | boot => exact .inl ⟨rfl, rfl⟩
  | command added =>
    cases added with
    | arithmetic operation =>
      cases operation with
      | eq | gt | lt => exact .inr ⟨rfl, rfl⟩
      | add | sub | neg | and | or | not => exact .inl ⟨rfl, rfl⟩
    | push _ _ | pop _ _ | label _ | goto _ | ifGoto _ | function _ _ | call _ _ | return_ =>
      exact .inl ⟨rfl, rfl⟩

/-- The comparisons of a run are numbered through. -/
theorem exists_comparisons (scope : Scope) (events : List Event) :
    ∃ count, (labelsOf (trace scope events)).filter Label.isComparison =
      (List.range' (scope.compares + 1) count).flatMap fun number =>
        [.trueBranch number, .afterCompare number] := by
  induction events generalizing scope with
  | nil => exact ⟨0, rfl⟩
  | cons event events ih =>
    obtain ⟨count, hrest⟩ := ih (event.after scope)
    rw [labelsOf_trace_cons, List.filter_append, hrest]
    rcases event.compares_step scope with ⟨hlabels, hcompares⟩ | ⟨hlabels, hcompares⟩
    · exact ⟨count, by rw [hlabels, hcompares, List.nil_append]⟩
    · exact ⟨count + 1, by rw [hlabels, hcompares, List.range'_succ, List.flatMap_cons]⟩

/-- No label of a comparison comes twice in a run. -/
theorem nodup_comparisons (scope : Scope) (events : List Event) :
    ((labelsOf (trace scope events)).filter Label.isComparison).Nodup := by
  obtain ⟨count, hlabels⟩ := exists_comparisons scope events
  rw [hlabels, List.nodup_flatMap]
  have hnumbers : (List.range' (scope.compares + 1) count).Nodup := List.nodup_range'
  refine ⟨fun number _ => by simp, hnumbers.imp fun {number other} hne => ?_⟩
  simp [Function.onFun, hne.symm]

/-! ## Calls -/

/-- What an event means for the counting of calls: it enters a name and declares
no label behind a call, or it is the bootstrap, which enters a name and leaves
again, or it is a call, or it leaves the counting as it is. -/
theorem Event.calls_step (scope : Scope) (event : Event) :
    ((event.labels scope).filter Label.isReturn = [] ∧
      event.entered = [(event.after scope).function]) ∨
    ((event.labels scope).filter Label.isReturn = [.afterCall Code.bootScope.function 1] ∧
      event.entered = [Code.bootScope.function] ∧ event.after scope = scope) ∨
    ((event.labels scope).filter Label.isReturn = [.afterCall scope.function scope.calls] ∧
      event.entered = [] ∧ (event.after scope).function = scope.function ∧
      (event.after scope).calls = scope.calls + 1) ∨
    ((event.labels scope).filter Label.isReturn = [] ∧ event.entered = [] ∧
      (event.after scope).function = scope.function ∧
      (event.after scope).calls = scope.calls) := by
  cases event with
  | file name => exact .inl ⟨rfl, rfl⟩
  | boot => exact .inr (.inl ⟨rfl, rfl, rfl⟩)
  | command added =>
    cases added with
    | function name _ => exact .inl ⟨rfl, rfl⟩
    | call _ _ => exact .inr (.inr (.inl ⟨rfl, rfl, rfl, rfl⟩))
    | arithmetic operation => cases operation <;> exact .inr (.inr (.inr ⟨rfl, rfl, rfl, rfl⟩))
    | push _ _ | pop _ _ | label _ | goto _ | ifGoto _ | return_ =>
      exact .inr (.inr (.inr ⟨rfl, rfl, rfl, rfl⟩))

/-- A label behind a call belongs to the function at the beginning of the run,
with a number that was still to come, or to a name that the run enters. -/
theorem mem_returns {scope : Scope} {events : List Event} {function : String} {number : Nat}
    (h : .afterCall function number ∈ (labelsOf (trace scope events)).filter Label.isReturn) :
    (function = scope.function ∧ scope.calls ≤ number) ∨
      function ∈ events.flatMap Event.entered := by
  induction events generalizing scope with
  | nil => cases h
  | cons event events ih =>
    rw [labelsOf_trace_cons, List.filter_append, List.mem_append] at h
    rw [List.flatMap_cons, List.mem_append]
    rcases event.calls_step scope with ⟨hlabels, hentered⟩ | ⟨hlabels, hentered, hafter⟩ |
      ⟨hlabels, hentered, hfunction, hcalls⟩ | ⟨hlabels, hentered, hfunction, hcalls⟩
    · rw [hlabels] at h
      rw [hentered, List.mem_singleton]
      rcases h with hnil | hrest
      · cases hnil
      · exact .inr ((ih hrest).imp_left And.left)
    · rw [hlabels, hafter, List.mem_singleton, Label.afterCall.injEq] at h
      rw [hentered, List.mem_singleton]
      rcases h with hboot | hrest
      · exact .inr (.inl hboot.1)
      · exact (ih hrest).imp_right .inr
    · rw [hlabels, List.mem_singleton, Label.afterCall.injEq] at h
      rcases h with ⟨rfl, rfl⟩ | hrest
      · exact .inl ⟨rfl, Nat.le_refl _⟩
      · rcases ih hrest with ⟨rfl, hle⟩ | hmem
        · exact .inl ⟨hfunction, by omega⟩
        · exact .inr (.inr hmem)
    · rw [hlabels] at h
      rcases h with hnil | hrest
      · cases hnil
      · rcases ih hrest with ⟨rfl, hle⟩ | hmem
        · exact .inl ⟨hfunction, by omega⟩
        · exact .inr (.inr hmem)

/-- If no name is entered twice, no label behind a call comes twice in a run. -/
theorem nodup_returns {scope : Scope} {events : List Event}
    (h : (scope.function :: events.flatMap Event.entered).Nodup) :
    ((labelsOf (trace scope events)).filter Label.isReturn).Nodup := by
  induction events generalizing scope with
  | nil => exact List.nodup_nil
  | cons event events ih =>
    rw [labelsOf_trace_cons, List.filter_append]
    rw [List.flatMap_cons] at h
    rcases event.calls_step scope with ⟨hlabels, hentered⟩ | ⟨hlabels, hentered, hafter⟩ |
      ⟨hlabels, hentered, hfunction, hcalls⟩ | ⟨hlabels, hentered, hfunction, hcalls⟩
    · rw [hentered, List.singleton_append] at h
      rw [hlabels, List.nil_append]
      exact ih (List.nodup_cons.mp h).2
    · rw [hentered, List.singleton_append, List.nodup_cons, List.nodup_cons, List.mem_cons] at h
      obtain ⟨hfunction, hboot, hrest⟩ := h
      rw [not_or] at hfunction
      rw [hlabels, hafter, List.singleton_append, List.nodup_cons]
      refine ⟨fun hmem => ?_, ih (List.nodup_cons.mpr ⟨hfunction.2, hrest⟩)⟩
      rcases mem_returns hmem with ⟨heq, -⟩ | hlater
      · exact hfunction.1 heq.symm
      · exact hboot hlater
    · rw [hentered, List.nil_append] at h
      rw [hlabels, List.singleton_append, List.nodup_cons]
      rw [← hfunction] at h ⊢
      refine ⟨fun hmem => ?_, ih h⟩
      rcases mem_returns hmem with ⟨-, hle⟩ | hlater
      · omega
      · exact (List.nodup_cons.mp h).1 hlater
    · rw [hentered, List.nil_append, ← hfunction] at h
      rw [hlabels, List.nil_append]
      exact ih h

end HK16.Bytecode
