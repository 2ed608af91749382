import HK16.Proofs.Aftermath

/-!
# Units in pieces

A unit can be cut into pieces at any lines, or its commands can be added one by
one and taken with an empty unit. The events are the same in all cases, and the
place is carried from one operation to the next, so the same code is handed out
and the same place is reached. Lines that hold no command add no event and can be
left out. The numbers of skipped lines begin anew with each piece; they are not
compared here.
-/

namespace HK16.Bytecode

open Assembly

/-! ## Sessions without faults -/

/-- The lowering behind a session. -/
def Lowering.performAll (lowering : Lowering) (operations : List Operation) : Lowering :=
  operations.foldl (fun lowering operation => (lowering.perform operation).1) lowering

/-- No operation of the session fails. Together they hand out the code and lead to
the place, and nothing waits in the end. -/
structure Lowering.Delivers (lowering : Lowering) (operations : List Operation)
    (code : List Statement) (scope : Scope) : Prop where
  /-- No operation fails. -/
  succeeds : ∀ answer ∈ lowering.answers operations, ∃ part, answer.result = .ok part
  /-- The parts that are handed out are the code, one behind the other. -/
  output_eq : lowering.output operations = code
  /-- The place of the next command, with its file, function and counters. -/
  scope_eq : (lowering.performAll operations).scope = scope
  /-- The function that the bootstrap calls is still the same. -/
  entry_eq : (lowering.performAll operations).entry = lowering.entry
  /-- Everything has been handed out. -/
  pending_eq : (lowering.performAll operations).pending = #[]

namespace Operation

/-- Whether the operation succeeds: its command passes its check, or its lines can
be read. -/
def isAccepted : Operation → Bool
  | enterFile _ | bootstrap => true
  | command added => added.check.isOk
  | unit lines _ => readable lines

/-- An operation that succeeds drops nothing of what waits. -/
theorem divide_append_of_isAccepted {operation : Operation} (h : operation.isAccepted = true)
    (items : List (Scope × Event)) :
    (operation.divide items).1 ++ (operation.divide items).2 = items := by
  cases operation with
  | enterFile _ | bootstrap | command _ => rfl
  | unit lines boot =>
    rw [isAccepted] at h
    rw [divide, if_pos h]
    exact List.append_nil items

end Operation

namespace Lowering

/-- Behind a unit nothing waits. -/
theorem pending_performAll_concat (lowering : Lowering) (operations : List Operation)
    (lines : List String) (boot : Bool) :
    (lowering.performAll (operations ++ [.unit lines boot])).pending = #[] := by
  rw [performAll, List.foldl_append, List.foldl_cons, List.foldl_nil, perform]
  generalize List.foldl _ lowering operations = before
  rw [unit]
  rcases linesFrom 0 (if boot then before.bootstrap else before) lines with ⟨next, fault | value⟩
  · rfl
  · rfl

namespace Holds

variable {lowering : Lowering} {entry : String} {scope : Scope} {waiting : List (Scope × Event)}
  {operation : Operation} {operations : List Operation}

/-- An operation that is accepted has a result. -/
theorem exists_result (h : lowering.Holds entry scope waiting)
    (haccepted : operation.isAccepted = true) : ∃ part, lowering.result operation = .ok part := by
  cases operation with
  | enterFile _ | bootstrap => exact ⟨[], rfl⟩
  | command added =>
    rw [result, snd_command]
    rw [Operation.isAccepted] at haccepted
    cases hcheck : added.check with
    | ok value => exact ⟨[], rfl⟩
    | error fault =>
      rw [hcheck] at haccepted
      cases haccepted
  | unit lines boot => exact ⟨_, (h.unit lines boot).2.1 haccepted⟩

/-- In a session of accepted operations no code is lost: what is handed out and
what waits in the end is the code of all events, in their order. -/
theorem performAll (h : lowering.Holds entry scope waiting)
    (haccepted : ∀ operation ∈ operations, operation.isAccepted = true) :
    (∀ answer ∈ lowering.answers operations, ∃ part, answer.result = .ok part) ∧
    ∃ rest, (lowering.performAll operations).Holds entry
        (scope.afterEvents (operations.flatMap Operation.events)) rest ∧
      lowering.output operations ++ codeOf entry rest =
        codeOf entry (waiting ++ trace scope (operations.flatMap Operation.events)) := by
  induction operations generalizing lowering scope waiting with
  | nil =>
    refine ⟨List.forall_mem_nil _, waiting, h, ?_⟩
    rw [List.flatMap_nil, trace, List.append_nil]
    rfl
  | cons operation operations ih =>
    rw [List.forall_mem_cons] at haccepted
    obtain ⟨hgiven, hnext⟩ := h.perform operation
    obtain ⟨hresults, rest, hrest, hcode⟩ := ih hnext haccepted.2
    refine ⟨?_, rest, ?_, ?_⟩
    · rw [answers, List.forall_mem_cons]
      exact ⟨h.exists_result haccepted.1, hresults⟩
    · rw [List.flatMap_cons, Scope.afterEvents, List.foldl_append]
      exact hrest
    · -- The operation hands out the first part of what waits and keeps the others.
      have hdivide := Operation.divide_append_of_isAccepted haccepted.1
        (waiting ++ trace scope operation.events)
      rw [output, List.append_assoc, hcode, hgiven, ← codeOf_append, ← List.append_assoc, hdivide,
        List.flatMap_cons, trace_append, List.append_assoc]

/-- A session of accepted operations that ends with a unit delivers the code of
its events. -/
theorem delivers (h : lowering.Holds entry scope [])
    (haccepted : ∀ operation ∈ operations, operation.isAccepted = true)
    (hlast : ∃ lines boot, operations.getLast? = some (.unit lines boot)) :
    lowering.Delivers operations (codeOf entry (trace scope (operations.flatMap Operation.events)))
      (scope.afterEvents (operations.flatMap Operation.events)) := by
  obtain ⟨hresults, rest, hrest, hcode⟩ := h.performAll haccepted
  have hpending : (lowering.performAll operations).pending = #[] := by
    obtain ⟨lines, boot, hlast⟩ := hlast
    obtain ⟨front, rfl⟩ := List.getLast?_eq_some_iff.mp hlast
    exact pending_performAll_concat lowering front lines boot
  have hnone : codeOf entry rest = [] := by rw [← hrest.pending_eq, hpending]
  rw [hnone, List.append_nil, List.nil_append] at hcode
  exact ⟨hresults, hcode, hrest.scope_eq, hrest.entry_eq.trans h.entry_eq.symm, hpending⟩

end Holds

end Lowering

/-! ## Pieces and single commands -/

/-- A unit for each piece, with the bootstrap in front of the first one if asked
for. -/
def inPieces (boot : Bool) : List (List String) → List Operation
  | [] => []
  | piece :: pieces => .unit piece boot :: pieces.map (.unit · false)

/-- The bootstrap if asked for, the commands of lines one by one, and a unit
without lines. -/
def oneByOne (boot : Bool) (lines : List String) : List Operation :=
  (if boot then [.bootstrap] else []) ++ (executed lines).map .command ++ [.unit [] false]

/-- Lines can be read if both parts can. -/
theorem readable_append (lines rest : List String) :
    readable (lines ++ rest) = (readable lines && readable rest) := by
  induction lines with
  | nil => rfl
  | cons line lines ih =>
    rw [List.cons_append, readable, readable]
    split
    · rfl
    · exact ih

/-- The commands of lines that can be read come in front of those that follow. -/
theorem executed_append {lines : List String} (h : readable lines = true) (rest : List String) :
    executed (lines ++ rest) = executed lines ++ executed rest := by
  induction lines with
  | nil => rfl
  | cons line lines ih =>
    rw [readable] at h
    rw [List.cons_append, executed, executed]
    split at h
    · cases h
    · next content hparse =>
      rw [hparse]
      cases content with
      | blank | unknown _ => exact ih h
      | command command => exact congrArg (command :: ·) (ih h)

/-- Pieces can be read if the whole can. -/
theorem readable_of_mem_pieces {pieces : List (List String)} (h : readable pieces.flatten = true)
    {piece : List String} (hmem : piece ∈ pieces) : readable piece = true := by
  obtain ⟨before, after, rfl⟩ := List.append_of_mem hmem
  rw [List.flatten_append, List.flatten_cons, readable_append, readable_append, Bool.and_eq_true,
    Bool.and_eq_true] at h
  exact h.2.1

/-- The commands of the pieces are those of the whole. -/
theorem flatMap_events_pieces {pieces : List (List String)}
    (h : readable pieces.flatten = true) :
    (pieces.map (Operation.unit · false)).flatMap Operation.events =
      (executed pieces.flatten).map .command := by
  induction pieces with
  | nil => rfl
  | cons piece pieces ih =>
    rw [List.flatten_cons, readable_append, Bool.and_eq_true] at h
    rw [List.map_cons, List.flatMap_cons, ih h.2, List.flatten_cons, executed_append h.1,
      List.map_append, Operation.events, if_neg Bool.false_ne_true, List.nil_append]

/-- Pieces have the events of the whole. -/
theorem events_inPieces (boot : Bool) {pieces : List (List String)} (hne : pieces ≠ [])
    (h : readable pieces.flatten = true) :
    (inPieces boot pieces).flatMap Operation.events =
      (Operation.unit pieces.flatten boot).events := by
  cases pieces with
  | nil => exact absurd rfl hne
  | cons piece pieces =>
    rw [List.flatten_cons, readable_append, Bool.and_eq_true] at h
    rw [inPieces, List.flatMap_cons, flatMap_events_pieces h.2, List.flatten_cons, Operation.events,
      Operation.events, executed_append h.1, List.map_append, List.append_assoc]

/-- Everything that is done in pieces is a unit of one of them. -/
theorem exists_of_mem_inPieces {boot : Bool} {pieces : List (List String)} {operation : Operation}
    (h : operation ∈ inPieces boot pieces) :
    ∃ piece ∈ pieces, ∃ first, operation = .unit piece first := by
  cases pieces with
  | nil => cases h
  | cons piece pieces =>
    rcases List.mem_cons.mp h with rfl | hrest
    · exact ⟨piece, List.mem_cons_self, boot, rfl⟩
    · obtain ⟨other, hother, rfl⟩ := List.mem_map.mp hrest
      exact ⟨other, List.mem_cons_of_mem _ hother, false, rfl⟩

/-- Pieces deliver what the whole does. -/
theorem Lowering.Holds.delivers_inPieces {lowering : Lowering} {entry : String} {scope : Scope}
    (h : lowering.Holds entry scope []) (boot : Bool) {pieces : List (List String)}
    (hne : pieces ≠ []) (hread : readable pieces.flatten = true) :
    lowering.Delivers (inPieces boot pieces)
      (codeOf entry (trace scope (Operation.unit pieces.flatten boot).events))
      (scope.afterEvents (Operation.unit pieces.flatten boot).events) := by
  rw [← events_inPieces boot hne hread]
  refine h.delivers (fun operation hmem => ?_) ?_
  · obtain ⟨piece, hpiece, first, rfl⟩ := exists_of_mem_inPieces hmem
    exact readable_of_mem_pieces hread hpiece
  · have hunits : inPieces boot pieces ≠ [] := by
      cases pieces with
      | nil => exact absurd rfl hne
      | cons piece pieces => exact List.cons_ne_nil _ _
    obtain ⟨piece, -, first, hlast⟩ := exists_of_mem_inPieces (List.getLast_mem hunits)
    exact ⟨piece, first, by rw [List.getLast?_eq_some_getLast hunits, hlast]⟩

/-- Single commands have the events of the lines that they are read from. -/
theorem events_oneByOne (boot : Bool) (lines : List String) :
    (oneByOne boot lines).flatMap Operation.events = (Operation.unit lines boot).events := by
  have hboot : (if boot then [Operation.bootstrap] else []).flatMap Operation.events =
      if boot then [.boot] else [] := by cases boot <;> rfl
  have hcommands : ((executed lines).map Operation.command).flatMap Operation.events =
      (executed lines).map .command := by
    rw [List.flatMap_map, ← List.flatMap_singleton' ((executed lines).map _), List.flatMap_map]
    apply List.flatMap_congr
    intro command hmem
    rw [Operation.events, check_of_mem_executed hmem]
  rw [oneByOne, List.flatMap_append, List.flatMap_append, hboot, hcommands, Operation.events]
  exact List.append_nil _

/-- Commands that are read from lines are accepted one by one. -/
theorem isAccepted_of_mem_oneByOne {boot : Bool} {lines : List String} {operation : Operation}
    (h : operation ∈ oneByOne boot lines) : operation.isAccepted = true := by
  rw [oneByOne, List.mem_append, List.mem_append] at h
  rcases h with (hboot | hcommand) | hunit
  · cases boot with
    | false => cases hboot
    | true =>
      obtain rfl := List.mem_singleton.mp hboot
      rfl
  · obtain ⟨command, hmem, rfl⟩ := List.mem_map.mp hcommand
    rw [Operation.isAccepted, check_of_mem_executed hmem]
    rfl
  · obtain rfl := List.mem_singleton.mp hunit
    rfl

/-- Single commands deliver what the lines do that they are read from. -/
theorem Lowering.Holds.delivers_oneByOne {lowering : Lowering} {entry : String} {scope : Scope}
    (h : lowering.Holds entry scope []) (boot : Bool) (lines : List String) :
    lowering.Delivers (oneByOne boot lines)
      (codeOf entry (trace scope (Operation.unit lines boot).events))
      (scope.afterEvents (Operation.unit lines boot).events) := by
  rw [← events_oneByOne boot lines]
  exact h.delivers (fun operation hmem => isAccepted_of_mem_oneByOne hmem)
    ⟨[], false, List.getLast?_concat⟩

/-! ## Lines without commands -/

/-- The words that commands begin with. -/
def commandWords : List String :=
  ["push", "pop", "label", "goto", "if-goto", "function", "call", "return"] ++
    Arithmetic.all.map Arithmetic.text

/-- Whether the line is blank in front of its comment, or begins with a word that
no command begins with. -/
def isSilent (line : String) : Bool :=
  match Text.words (splitAtComment line.toList).1 with
  | [] => true
  | word :: _ => !commandWords.contains (String.ofList word)

/-- The second list is the first one without some of its silent lines. -/
inductive Thinned : List String → List String → Prop
  /-- There are no lines. -/
  | nil : Thinned [] []
  /-- The first line stays. -/
  | keep (line : String) {lines kept : List String} (h : Thinned lines kept) :
    Thinned (line :: lines) (line :: kept)
  /-- The first line is silent and left out. -/
  | drop {line : String} {lines kept : List String} (hsilent : isSilent line = true)
    (h : Thinned lines kept) : Thinned (line :: lines) kept

/-- The words of operations are those that have one. -/
theorem ofText?_eq_none_iff (word : String) :
    Arithmetic.ofText? word = none ↔ word ∉ Arithmetic.all.map Arithmetic.text := by
  rw [Arithmetic.ofText?, List.find?_eq_none, List.mem_map]
  constructor
  · rintro hall ⟨operation, hmem, rfl⟩
    exact hall operation hmem (beq_self_eq_true _)
  · intro hnone operation hmem htext
    exact hnone ⟨operation, hmem, eq_of_beq htext⟩

/-- A word is no command exactly if no command begins with it, whatever follows. -/
theorem parse_eq_none_iff (word : List Char) (arguments : List (List Char)) :
    Command.parse word arguments = .ok none ↔ String.ofList word ∉ commandWords := by
  rw [Command.parse]
  split
  case h_1 hword | h_2 hword | h_6 hword | h_7 hword =>
    refine iff_of_false (fun h => ?_) (fun hnone => hnone (by rw [hword]; decide))
    obtain ⟨_, -, h⟩ := exists_of_bind_eq_ok h
    obtain ⟨_, -, h⟩ := exists_of_bind_eq_ok h
    obtain ⟨_, -, h⟩ := exists_of_bind_eq_ok h
    obtain ⟨_, -, h⟩ := exists_of_bind_eq_ok h
    cases h
  case h_3 hword | h_4 hword | h_5 hword =>
    refine iff_of_false (fun h => ?_) (fun hnone => hnone (by rw [hword]; decide))
    obtain ⟨_, -, h⟩ := exists_of_bind_eq_ok h
    obtain ⟨_, -, h⟩ := exists_of_bind_eq_ok h
    cases h
  case h_8 hword =>
    refine iff_of_false (fun h => ?_) (fun hnone => hnone (by rw [hword]; decide))
    cases h
  case h_9 hpush hpop hlabel hgoto hif hfunction hcall hreturn =>
    have hfirst : String.ofList word ∉
        ["push", "pop", "label", "goto", "if-goto", "function", "call", "return"] := by
      simp only [List.mem_cons, List.not_mem_nil, or_false, not_or]
      exact ⟨hpush, hpop, hlabel, hgoto, hif, hfunction, hcall, hreturn⟩
    rw [commandWords, List.mem_append, or_iff_right hfirst, ← ofText?_eq_none_iff,
      ← Option.map_eq_none_iff (f := Command.arithmetic)]
    exact ⟨Except.ok.inj, congrArg Except.ok⟩

/-- Silent lines are those that are read as no command. -/
theorem isSilent_iff {line : String} :
    isSilent line = true ↔ Line.parse line.toList = .ok .blank ∨
      ∃ word, Line.parse line.toList = .ok (.unknown word) := by
  rw [isSilent, Line.parse]
  cases Text.words (splitAtComment line.toList).1 with
  | nil => exact iff_of_true rfl (.inl rfl)
  | cons word arguments =>
    have hsilent := parse_eq_none_iff word arguments
    simp only [Bool.not_eq_true', List.contains_eq_mem, decide_eq_false_iff_not, ← hsilent]
    rcases Command.parse word arguments with fault | (_ | command)
    · simp
    · simp
    · cases hcheck : command.check with
      | error fault => simp [hcheck]
      | ok value => simp [hcheck]

/-- Silent lines do not matter for what is read from lines. -/
theorem Thinned.reads {lines kept : List String} (h : Thinned lines kept) :
    readable kept = readable lines ∧ executed kept = executed lines := by
  induction h with
  | nil => exact ⟨rfl, rfl⟩
  | keep line h ih =>
    rw [readable, readable, executed, executed, ih.1, ih.2]
    exact ⟨rfl, rfl⟩
  | drop hsilent h ih =>
    rw [readable, executed]
    rcases isSilent_iff.mp hsilent with hblank | ⟨word, hunknown⟩
    · rw [hblank]
      exact ih
    · rw [hunknown]
      exact ih

/-! ## The same code in other ways -/

/-- Let nothing wait, and let a unit be accepted. In pieces, cut at any lines and
with the bootstrap in front of the first one only, or as single commands behind the
bootstrap and in front of a unit without lines, the same code is handed out in
parts, no operation fails, and the file, the function and both counters end as
they do with the unit. A unit without some of the lines that are blank, only
comments, or no commands hands out the same code and leads to the same place. -/
theorem unit_delivered_in_pieces (lowering : Lowering) (lines : List String) (boot : Bool)
    (code : List Statement) (hpending : lowering.pending = #[])
    (hunit : (lowering.unit lines boot).2 = .ok code) :
    (∀ pieces : List (List String), pieces ≠ [] → pieces.flatten = lines →
      lowering.Delivers (inPieces boot pieces) code (lowering.unit lines boot).1.scope) ∧
    lowering.Delivers (oneByOne boot lines) code (lowering.unit lines boot).1.scope ∧
    ∀ kept, Thinned lines kept →
      (lowering.unit kept boot).2 = .ok code ∧
        (lowering.unit kept boot).1.scope = (lowering.unit lines boot).1.scope := by
  obtain ⟨hbefore, -⟩ := Lowering.holds_unit hpending lines boot
  obtain ⟨hafter, hgood, hbad⟩ := hbefore.unit lines boot
  have hread : readable lines = true := by
    by_contra hfalse
    obtain ⟨fault, hfault⟩ := hbad (Bool.eq_false_iff.mpr hfalse)
    rw [hunit] at hfault
    cases hfault
  have hcode := hgood hread
  rw [hunit] at hcode
  obtain rfl := Except.ok.inj hcode
  rw [hafter.scope_eq]
  refine ⟨?_, hbefore.delivers_oneByOne boot lines, ?_⟩
  · rintro pieces hne rfl
    exact hbefore.delivers_inPieces boot hne hread
  · intro kept hkept
    obtain ⟨hreadKept, hexecuted⟩ := hkept.reads
    obtain ⟨hafterKept, hgoodKept, -⟩ := hbefore.unit kept boot
    have hevents : (Operation.unit kept boot).events = (Operation.unit lines boot).events := by
      rw [Operation.events, Operation.events, hexecuted]
    rw [hevents] at hafterKept hgoodKept
    exact ⟨hgoodKept (hreadKept.trans hread), hafterKept.scope_eq⟩

/-- A lowering within a function, behind a comparison and a call. -/
def sampleOpen : Lowering :=
  ((Lowering.ofFile "Main" "Sys.init").unit ["function F 0", "lt", "call G 0"] false).1

/-- The rest of the function and the beginning of another one. -/
def sampleRest : List String :=
  ["call G 0 // again", "", "gt", "what is this", " // only a comment", "goto L", "function H 1",
    "call G 2"]

/-- The code of the rest behind the bootstrap. -/
def sampleRestCode : List Statement :=
  Code.boot "Sys.init" ++ Code.call ⟨"Main", "F", 1, 2⟩ "G" 0 ++
    Code.compare ⟨"Main", "F", 1, 3⟩ .gt ++ [.reference "F$L", .branch .zero .always] ++
    Code.function "H" 1 ++ Code.call ⟨"Main", "H", 2, 1⟩ "G" 2

theorem sampleRest_delivered :
    sampleOpen.pending = #[] ∧ (sampleOpen.unit sampleRest true).2 = .ok sampleRestCode ∧
      sampleOpen.Delivers
        (inPieces true [["call G 0 // again", ""], [],
          ["gt", "what is this", " // only a comment", "goto L", "function H 1"], ["call G 2"]])
        sampleRestCode ⟨"Main", "H", 2, 2⟩ ∧
      sampleOpen.Delivers (oneByOne true sampleRest) sampleRestCode ⟨"Main", "H", 2, 2⟩ ∧
      (sampleOpen.unit
        ["call G 0 // again", "gt", "goto L", "function H 1", "call G 2"] true).2 =
          .ok sampleRestCode := by
  have hpending : sampleOpen.pending = #[] := by decide +kernel
  have hunit : (sampleOpen.unit sampleRest true).2 = .ok sampleRestCode := by decide +kernel
  have hscope : (sampleOpen.unit sampleRest true).1.scope = ⟨"Main", "H", 2, 2⟩ := by
    decide +kernel
  obtain ⟨hpieces, hsingle, hthinned⟩ :=
    unit_delivered_in_pieces sampleOpen sampleRest true sampleRestCode hpending hunit
  rw [hscope] at hpieces hsingle
  have hkept : Thinned sampleRest
      ["call G 0 // again", "gt", "goto L", "function H 1", "call G 2"] :=
    .keep _ <| .drop (by decide +kernel) <| .keep _ <| .drop (by decide +kernel) <|
      .drop (by decide +kernel) <| .keep _ <| .keep _ <| .keep _ .nil
  exact ⟨hpending, hunit, hpieces _ (List.cons_ne_nil _ _) rfl, hsingle, (hthinned _ hkept).1⟩

end HK16.Bytecode
