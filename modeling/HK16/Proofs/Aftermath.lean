import HK16.Proofs.Refusal
import Mathlib.Data.List.Forall2

/-!
# What a unit leaves behind

The code of a unit that is refused is dropped, and the lines it skipped are not
reported again. Its comparisons stay counted, which later code shows only in the
numbers of their labels. Its function and the number of its next call stay as
well. A session that goes on answers as if the unit had not been there, up to
the numbers of comparisons, exactly if these two are what they were before.
-/

namespace HK16.Bytecode

open Assembly

/-! ## Other numbers of comparisons -/

/-- The place after some more comparisons. -/
def Scope.renumber (shift : Nat) (scope : Scope) : Scope :=
  { scope with compares := scope.compares + shift }

/-- The label after some more comparisons, which matter for their own labels only. -/
def Label.renumber (shift : Nat) : Label → Label
  | trueBranch number => trueBranch (number + shift)
  | afterCompare number => afterCompare (number + shift)
  | label => label

/-- Two statements are the same up to the number of a comparison. -/
inductive Renumbered (shift : Nat) : Statement → Statement → Prop
  /-- They are the same. -/
  | same (statement : Statement) : Renumbered shift statement statement
  /-- They load the address of a label. -/
  | reference (label : Label) :
    Renumbered shift (.address (.symbol label.text))
      (.address (.symbol (label.renumber shift).text))
  /-- They declare a label. -/
  | label (label : Label) :
    Renumbered shift (.label label.text) (.label (label.renumber shift).text)

/-- The events at places after some more comparisons. -/
def renumberAll (shift : Nat) (items : List (Scope × Event)) : List (Scope × Event) :=
  items.map (Prod.map (Scope.renumber shift) id)

section Code

variable {shift : Nat}

/-- Labels with a dollar sign do not belong to comparisons. -/
theorem Renumbered.name_eq {name other : String}
    (h : Renumbered shift (.address (.symbol name)) (.address (.symbol other)))
    (hdollar : '$' ∈ name.toList) : name = other := by
  cases h with
  | same => rfl
  | reference label =>
    cases label with
    | entry _ | place _ _ | afterCall _ _ => rfl
    | trueBranch number =>
      have htext : (Label.trueBranch number).text = "CMP_TRUE" ++ "." ++ toString number := rfl
      rw [htext, Scope.mem_dotted (by decide)] at hdollar
      exact absurd hdollar (by decide)
    | afterCompare number =>
      have htext : (Label.afterCompare number).text = "CMP_END" ++ "." ++ toString number := rfl
      rw [htext, Scope.mem_dotted (by decide)] at hdollar
      exact absurd hdollar (by decide)

/-- Code is the same as itself. -/
theorem renumbered_self (code : List Statement) : List.Forall₂ (Renumbered shift) code code :=
  List.forall₂_same.mpr fun statement _ => .same statement

theorem Scope.trueLabel_renumber (scope : Scope) :
    (scope.renumber shift).trueLabel =
      ((Label.trueBranch (scope.compares + 1)).renumber shift).text := by
  rw [Label.renumber, Nat.add_right_comm]
  rfl

theorem Scope.endLabel_renumber (scope : Scope) :
    (scope.renumber shift).endLabel =
      ((Label.afterCompare (scope.compares + 1)).renumber shift).text := by
  rw [Label.renumber, Nat.add_right_comm]
  rfl

/-- After some more comparisons the code of a comparison has other labels. -/
theorem renumbered_compare (scope : Scope) (jump : Jump) :
    List.Forall₂ (Renumbered shift) (Code.compare scope jump)
      (Code.compare (scope.renumber shift) jump) := by
  rw [Code.compare, Code.compare, Scope.trueLabel_renumber, Scope.endLabel_renumber]
  refine List.rel_append (renumbered_self _) ?_
  exact .cons (.same _) <| .cons (.same _) <| .cons (.reference (.trueBranch _)) <|
    .cons (.same _) <| .cons (.same _) <| .cons (.same _) <| .cons (.same _) <|
    .cons (.reference (.afterCompare _)) <| .cons (.same _) <| .cons (.label (.trueBranch _)) <|
    .cons (.same _) <| .cons (.same _) <| .cons (.same _) <| .cons (.label (.afterCompare _)) .nil

/-- After some more comparisons the code of a command is the same up to their
numbers. -/
theorem renumbered_emitted (scope : Scope) (command : Command) :
    List.Forall₂ (Renumbered shift) (command.emitted scope)
      (command.emitted (scope.renumber shift)) := by
  -- Only comparisons look at the number.
  have hsame (hcode : command.code (scope.renumber shift) = command.code scope) :
      List.Forall₂ (Renumbered shift) (command.emitted scope)
        (command.emitted (scope.renumber shift)) := by
    rw [Command.emitted, Command.emitted, Command.compile, Command.compile, hcode]
    exact renumbered_self _
  cases command with
  | arithmetic operation =>
    cases operation with
    | eq | gt | lt => exact renumbered_compare scope _
    | add | sub | neg | and | or | not => exact hsame rfl
  | push _ _ | pop _ _ | label _ | goto _ | ifGoto _ | function _ _ | call _ _ | return_ =>
    exact hsame rfl

/-- After some more comparisons the code of events is the same up to their
numbers. -/
theorem renumbered_codeOf (entry : String) (items : List (Scope × Event)) :
    List.Forall₂ (Renumbered shift) (codeOf entry items)
      (codeOf entry (renumberAll shift items)) := by
  induction items with
  | nil => exact .nil
  | cons item items ih =>
    refine List.rel_append ?_ ih
    rcases item with ⟨scope, event⟩
    cases event with
    | file _ | boot => exact renumbered_self _
    | command command => exact renumbered_emitted scope command

end Code

/-! ## Events after some more comparisons -/

section Places

variable (shift : Nat) (scope : Scope)

/-- Events count on from any number of comparisons. -/
theorem Event.after_renumber (event : Event) :
    event.after (scope.renumber shift) = (event.after scope).renumber shift := by
  cases event with
  | file _ | boot => rfl
  | command command =>
    cases command with
    | arithmetic operation =>
      cases operation with
      | eq | gt | lt =>
        have hcount : scope.compares + shift + 1 = scope.compares + 1 + shift := by omega
        exact congrArg (Scope.mk scope.file scope.function · scope.calls) hcount
      | add | sub | neg | and | or | not => rfl
    | push _ _ | pop _ _ | label _ | goto _ | ifGoto _ | function _ _ | call _ _ | return_ => rfl

/-- The place behind events moves along with the place in front of them. -/
theorem Scope.afterEvents_renumber (events : List Event) :
    (scope.renumber shift).afterEvents events = (scope.afterEvents events).renumber shift := by
  induction events generalizing scope with
  | nil => rfl
  | cons event events ih =>
    have hrest := ih (event.after scope)
    rw [← Event.after_renumber] at hrest
    exact hrest

/-- The places of events move along with the first one. -/
theorem trace_renumber (events : List Event) :
    trace (scope.renumber shift) events = renumberAll shift (trace scope events) := by
  induction events generalizing scope with
  | nil => rfl
  | cons event events ih =>
    rw [trace, trace, Event.after_renumber, ih]
    rfl

theorem renumberAll_append (items rest : List (Scope × Event)) :
    renumberAll shift (items ++ rest) = renumberAll shift items ++ renumberAll shift rest :=
  List.map_append

/-- What is handed out and what is kept does not depend on the places. -/
theorem Operation.divide_renumberAll (operation : Operation) (items : List (Scope × Event)) :
    operation.divide (renumberAll shift items) =
      (renumberAll shift (operation.divide items).1,
        renumberAll shift (operation.divide items).2) := by
  cases operation with
  | enterFile _ | bootstrap | command _ => rfl
  | unit lines _ =>
    rw [divide, divide]
    split <;> rfl

/-- Commands leave the file as it is, and never make the number of comparisons
smaller. -/
theorem Scope.exists_afterAll (commands : List Command) :
    (scope.afterAll commands).file = scope.file ∧
      ∃ count, (scope.afterAll commands).compares = scope.compares + count := by
  induction commands generalizing scope with
  | nil => exact ⟨rfl, 0, rfl⟩
  | cons command commands ih =>
    obtain ⟨hfile, count, hcount⟩ := ih (scope.after command)
    refine ⟨hfile.trans (scope.file_after command), ?_⟩
    rcases Event.compares_step scope (.command command) with ⟨-, hcompares⟩ | ⟨-, hcompares⟩
    · have hsame : (scope.after command).compares = scope.compares := hcompares
      exact ⟨count, by rw [← hsame]; exact hcount⟩
    · have hmore : (scope.after command).compares = scope.compares + 1 := hcompares
      refine ⟨count + 1, hcount.trans ?_⟩
      omega

end Places

/-! ## Answers -/

/-- What is answered to an operation. -/
structure Answer where
  /-- The code that is handed out, or the fault. -/
  result : Except (Located Fault) (List Statement)
  /-- The lines that the operation skipped. -/
  skipped : List (Nat × String)
  deriving DecidableEq

/-- Two answers are the same up to the numbers of comparisons. -/
inductive Answer.Renumbered (shift : Nat) : Answer → Answer → Prop
  /-- Both hand out code. -/
  | code {code other : List Statement} (skipped : List (Nat × String))
    (h : List.Forall₂ (Bytecode.Renumbered shift) code other) :
    Renumbered shift ⟨.ok code, skipped⟩ ⟨.ok other, skipped⟩
  /-- Both name the same fault. -/
  | fault (fault : Located Fault) (skipped : List (Nat × String)) :
    Renumbered shift ⟨.error fault, skipped⟩ ⟨.error fault, skipped⟩

namespace Lowering

/-- The result of an operation. Only units hand out code. -/
def result (lowering : Lowering) : Operation → Except (Located Fault) (List Statement)
  | .enterFile _ | .bootstrap => .ok []
  | .command added =>
    match (lowering.command added).2 with
    | .ok () => .ok []
    | .error fault => .error (.ofCause fault)
  | .unit lines boot => (lowering.unit lines boot).2

/-- The answer to an operation, with the lines that were not skipped before. -/
def answer (lowering : Lowering) (operation : Operation) : Answer :=
  ⟨lowering.result operation,
    (lowering.perform operation).1.skipped.toList.drop lowering.skipped.size⟩

/-- The answers of a session. -/
def answers (lowering : Lowering) : List Operation → List Answer
  | [] => []
  | operation :: operations =>
    lowering.answer operation :: (lowering.perform operation).1.answers operations

end Lowering

/-- The lines that are skipped in front of the first one that cannot be read, if
the first line has the given index. -/
def skippedFrom (index : Nat) : List String → List (Nat × String)
  | [] => []
  | line :: lines =>
    match Line.parse line.toList with
    | .error _ => []
    | .ok (.unknown _) =>
      (index + 1, String.ofList (Text.trim line.toList)) :: skippedFrom (index + 1) lines
    | .ok _ => skippedFrom (index + 1) lines

/-- The lines that an operation skips. -/
def Operation.skips : Operation → List (Nat × String)
  | enterFile _ | bootstrap | command _ => []
  | unit lines _ => skippedFrom 0 lines

section Skipped

variable (lowering : Lowering)

/-- Source lines add those that are skipped. -/
theorem skipped_linesFrom (index : Nat) (lines : List String) :
    (Lowering.linesFrom index lowering lines).1.skipped.toList =
      lowering.skipped.toList ++ skippedFrom index lines := by
  induction lines generalizing index lowering with
  | nil => exact (List.append_nil _).symm
  | cons line lines ih =>
    cases hparse : Line.parse line.toList with
    | error fault =>
      simp only [Lowering.linesFrom, skippedFrom, hparse, List.append_nil]
    | ok content =>
      cases content with
      | blank =>
        simp only [Lowering.linesFrom, skippedFrom, hparse]
        exact ih lowering (index + 1)
      | unknown word =>
        simp only [Lowering.linesFrom, skippedFrom, hparse]
        rw [ih, Lowering.skip, Array.toList_push, List.append_assoc, List.singleton_append]
      | command command =>
        have hcode := Command.compile_of_check lowering.scope (check_of_parse hparse)
        simp only [Lowering.linesFrom, skippedFrom, hparse, hcode]
        exact ih _ (index + 1)

/-- Every operation adds the lines that it skips. -/
theorem skipped_perform (operation : Operation) :
    (lowering.perform operation).1.skipped.toList =
      lowering.skipped.toList ++ operation.skips := by
  cases operation with
  | enterFile _ => exact (List.append_nil _).symm
  | bootstrap =>
    rw [Lowering.perform, Lowering.bootstrap_eq]
    exact (List.append_nil _).symm
  | command command =>
    rw [Operation.skips, List.append_nil, Lowering.perform, Lowering.command]
    cases command.compile lowering.scope <;> rfl
  | unit lines boot =>
    have hlines := skipped_linesFrom (if boot then lowering.bootstrap else lowering) 0 lines
    have hstart : (if boot then lowering.bootstrap else lowering).skipped = lowering.skipped := by
      cases boot with
      | false => rw [if_neg Bool.false_ne_true]
      | true => rw [if_pos rfl, Lowering.bootstrap_eq]
    rw [hstart] at hlines
    rw [Operation.skips, ← hlines, Lowering.perform, Lowering.unit]
    rcases Lowering.linesFrom 0 (if boot then lowering.bootstrap else lowering) lines with
      ⟨next, fault | value⟩ <;> rfl

/-- The skipped lines of an answer are those of the operation. -/
theorem answer_eq (operation : Operation) :
    lowering.answer operation = ⟨lowering.result operation, operation.skips⟩ := by
  rw [Lowering.answer, skipped_perform, ← Array.length_toList, List.drop_left]

end Skipped

/-! ## Sessions after some more comparisons -/

namespace Lowering.Holds

variable {lowering other : Lowering} {entry : String} {scope : Scope} {shift : Nat}
  {waiting : List (Scope × Event)}

/-- After some more comparisons an operation is answered in the same way up to
their numbers. -/
theorem renumbered_answer (operation : Operation) (h : lowering.Holds entry scope waiting)
    (h' : other.Holds entry (scope.renumber shift) (renumberAll shift waiting)) :
    Answer.Renumbered shift (lowering.answer operation) (other.answer operation) := by
  rw [answer_eq, answer_eq]
  cases operation with
  | enterFile _ | bootstrap => exact .code _ .nil
  | command added =>
    rw [result, result, snd_command, snd_command]
    cases added.check with
    | ok value => exact .code _ .nil
    | error fault => exact .fault _ _
  | unit lines boot =>
    obtain ⟨-, hgood, hbad⟩ := h.unit lines boot
    obtain ⟨-, hgood', -⟩ := h'.unit lines boot
    rw [result, result]
    cases hread : readable lines with
    | true =>
      rw [hgood hread, hgood' hread, trace_renumber]
      refine .code _ ?_
      rw [← renumberAll_append]
      exact renumbered_codeOf entry _
    | false =>
      -- The fault is that of the first wrong line, wherever the unit stands.
      obtain ⟨fault, hfault⟩ := hbad hread
      have hfault' : (other.unit lines boot).2 = .error fault :=
        (unit_eq_error_iff other boot).mpr ((unit_eq_error_iff lowering boot).mp hfault)
      rw [hfault, hfault']
      exact .fault fault _

/-- After some more comparisons a session is answered in the same way up to their
numbers. -/
theorem renumbered_answers (operations : List Operation) (h : lowering.Holds entry scope waiting)
    (h' : other.Holds entry (scope.renumber shift) (renumberAll shift waiting)) :
    List.Forall₂ (Answer.Renumbered shift) (lowering.answers operations)
      (other.answers operations) := by
  induction operations generalizing lowering other scope waiting with
  | nil => exact .nil
  | cons operation operations ih =>
    have hnext := (h.perform operation).2
    have hnext' := (h'.perform operation).2
    rw [trace_renumber, ← renumberAll_append, Operation.divide_renumberAll,
      Scope.afterEvents_renumber] at hnext'
    exact .cons (h.renumbered_answer operation h') (ih hnext hnext')

/-- A call in a unit of its own shows the function and the number of the call. -/
theorem answers_call (h : lowering.Holds entry scope []) :
    lowering.answers [.unit ["call F 0"] false] = [⟨.ok (Code.call scope "F" 0), []⟩] := by
  have hevents : (Operation.unit ["call F 0"] false).events = [.command (.call "F" 0)] := by
    decide +kernel
  have hskips : (Operation.unit ["call F 0"] false).skips = [] := by decide +kernel
  have hread : readable ["call F 0"] = true := by decide +kernel
  have hcode := (h.unit ["call F 0"] false).2.1 hread
  rw [hevents, List.nil_append, codeOf_trace_singleton] at hcode
  rw [answers, answers, answer_eq, hskips, result, hcode]
  rfl

end Lowering.Holds

/-! ## Units that are not noticed -/

/-- The label behind a call shows its function and its number. -/
theorem Scope.returnLabel_inj {scope other : Scope} (h : scope.returnLabel = other.returnLabel) :
    scope.function = other.function ∧ scope.calls = other.calls := by
  have hlabels : Label.afterCall scope.function scope.calls =
      .afterCall other.function other.calls := Label.text_inj_of_isReturn rfl rfl h
  exact Label.afterCall.inj hlabels

/-- The label behind a call contains a dollar sign. -/
theorem Scope.dollar_mem_returnLabel (scope : Scope) : '$' ∈ scope.returnLabel.toList := by
  have hmark : "$ret.".toList = ['$', 'r', 'e', 't', '.'] := rfl
  rw [returnLabel, String.toList_append, String.toList_append, hmark]
  simp

/-- If nothing waits in front of a unit, nothing waits behind it, and the place is
that behind its executed commands. -/
theorem Lowering.holds_unit {lowering : Lowering} (h : lowering.pending = #[])
    (lines : List String) (boot : Bool) :
    lowering.Holds lowering.entry lowering.scope [] ∧
      (lowering.unit lines boot).1.Holds lowering.entry
        (lowering.scope.afterAll (executed lines)) [] := by
  have hbefore : lowering.Holds lowering.entry lowering.scope [] := ⟨rfl, rfl, by rw [h]; rfl⟩
  have hafter := (hbefore.unit lines boot).1
  rw [Scope.afterEvents_unit, Scope.afterEvents, List.foldl_map] at hafter
  exact ⟨hbefore, hafter⟩

/-- Let nothing wait to be handed out, and lower a unit, which may be refused. All
later sessions give the same code, faults and skipped lines as they would without
the unit, up to the numbers of comparisons, exactly if the commands in front of
the first wrong line lead back to the function and the number of the next call
from which they started. -/
theorem unit_unnoticed_iff (lowering : Lowering) (lines : List String) (boot : Bool)
    (hpending : lowering.pending = #[]) :
    (∃ shift, ∀ operations, List.Forall₂ (Answer.Renumbered shift)
        (lowering.answers operations) ((lowering.unit lines boot).1.answers operations)) ↔
      (lowering.scope.afterAll (executed lines)).function = lowering.scope.function ∧
        (lowering.scope.afterAll (executed lines)).calls = lowering.scope.calls := by
  obtain ⟨hbefore, hafter⟩ := Lowering.holds_unit hpending lines boot
  constructor
  · rintro ⟨shift, hanswers⟩
    have hcall := hanswers [.unit ["call F 0"] false]
    rw [hbefore.answers_call, hafter.answers_call] at hcall
    rcases hcall with _ | ⟨hanswer, -⟩
    rcases hanswer with ⟨-, hcode⟩
    rcases hcode with _ | ⟨hfirst, -⟩
    have hlabels := hfirst.name_eq (Scope.dollar_mem_returnLabel _)
    exact ⟨(Scope.returnLabel_inj hlabels).1.symm, (Scope.returnLabel_inj hlabels).2.symm⟩
  · rintro ⟨hfunction, hcalls⟩
    obtain ⟨hfile, shift, hcompares⟩ := lowering.scope.exists_afterAll (executed lines)
    have hscope : lowering.scope.afterAll (executed lines) = lowering.scope.renumber shift := by
      rw [Scope.renumber, ← hfile, ← hfunction, ← hcalls, ← hcompares]
    rw [hscope] at hafter
    exact ⟨shift, fun operations => hbefore.renumbered_answers operations hafter⟩

/-- A lowering within a function, behind a call. -/
def sampleWithin : Lowering :=
  ((Lowering.ofFile "Main" "Sys.init").unit ["function F 0", "lt", "call G 0"] true).1

/-- A wrong unit that enters the function again and calls as often. -/
def sampleAgain : List String :=
  ["function F 2", "eq", "what is this", "call H 1", "pop constant 0", "call H 1"]

theorem sampleAgain_unnoticed :
    sampleWithin.pending = #[] ∧
      (sampleWithin.unit sampleAgain false).2 = .error ⟨some 5, .popConstant⟩ ∧
      ∃ shift, ∀ operations, List.Forall₂ (Answer.Renumbered shift)
        (sampleWithin.answers operations)
        ((sampleWithin.unit sampleAgain false).1.answers operations) := by
  have hpending : sampleWithin.pending = #[] := by decide +kernel
  have hscope : (sampleWithin.scope.afterAll (executed sampleAgain)).function =
        sampleWithin.scope.function ∧
      (sampleWithin.scope.afterAll (executed sampleAgain)).calls = sampleWithin.scope.calls := by
    decide +kernel
  exact ⟨hpending, by decide +kernel,
    (unit_unnoticed_iff sampleWithin sampleAgain false hpending).mpr hscope⟩

/-- A wrong unit that enters a function. -/
def sampleEntering : List String := ["function F 0", "pop constant 0"]

/-- The function of a refused unit stays, so that a later jump goes elsewhere. -/
theorem sampleEntering_noticed :
    ((Lowering.ofFile "Main" "Sys.init").unit sampleEntering false).2 =
        .error ⟨some 2, .popConstant⟩ ∧
      (Lowering.ofFile "Main" "Sys.init").answers [.unit ["goto L"] false] =
        [⟨.ok [.reference "Main$L", .branch .zero .always], []⟩] ∧
      ((Lowering.ofFile "Main" "Sys.init").unit sampleEntering false).1.answers
          [.unit ["goto L"] false] =
        [⟨.ok [.reference "F$L", .branch .zero .always], []⟩] ∧
      ¬∃ shift, ∀ operations, List.Forall₂ (Answer.Renumbered shift)
        ((Lowering.ofFile "Main" "Sys.init").answers operations)
        (((Lowering.ofFile "Main" "Sys.init").unit sampleEntering false).1.answers operations) := by
  have hbefore : (Lowering.ofFile "Main" "Sys.init").answers [.unit ["goto L"] false] =
      [⟨.ok [.reference "Main$L", .branch .zero .always], []⟩] := by decide +kernel
  have hafter : ((Lowering.ofFile "Main" "Sys.init").unit sampleEntering false).1.answers
      [.unit ["goto L"] false] =
      [⟨.ok [.reference "F$L", .branch .zero .always], []⟩] := by decide +kernel
  refine ⟨by decide +kernel, hbefore, hafter, ?_⟩
  rintro ⟨shift, hanswers⟩
  have hgoto := hanswers [.unit ["goto L"] false]
  rw [hbefore, hafter] at hgoto
  rcases hgoto with _ | ⟨⟨-, hcode⟩, -⟩
  rcases hcode with _ | ⟨hfirst, -⟩
  exact absurd (hfirst.name_eq (by decide)) (by decide)

end HK16.Bytecode
