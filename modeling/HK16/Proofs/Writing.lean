import HK16.Proofs.Image
import HK16.Proofs.Session

/-!
# Lowered code as text

The code of a bytecode file goes to the assembler as a text, one statement a
line. Every statement is read back from its line exactly if the file has no name
or a name of the right form. All constants in the code have fifteen bits, since
commands are checked, and all other names in it are made of names of the source
and fixed marks. Then the text is assembled to the same words as the code.
-/

namespace HK16

namespace Text

/-! ## Names made of parts -/

/-- Whether names can begin with the text: it is empty or a name itself. -/
def IsStem (text : String) : Prop := text = "" ∨ isName text.toList = true

/-- A name can be continued by the characters of names. -/
theorem isName_append {front back : List Char} (hfront : isName front = true)
    (hback : ∀ c ∈ back, isNameChar c = true) : isName (front ++ back) = true := by
  cases front with
  | nil => cases hfront
  | cons first rest =>
    simp only [isName, Bool.and_eq_true, List.all_eq_true] at hfront
    simp only [List.cons_append, isName, Bool.and_eq_true, List.all_eq_true]
    exact ⟨hfront.1, List.forall_mem_append.mpr ⟨hfront.2, hback⟩⟩

/-- A stem, a mark that is a name, and characters of names behind it are a name. -/
theorem IsStem.isName_append {stem mark back : String} (hstem : IsStem stem)
    (hmark : isName mark.toList = true) (hback : ∀ c ∈ back.toList, isNameChar c = true) :
    isName (stem ++ mark ++ back).toList = true := by
  rw [String.toList_append, String.toList_append]
  refine Text.isName_append ?_ hback
  rcases hstem with rfl | hname
  · exact hmark
  · exact Text.isName_append hname fun c => isNameChar_of_mem hmark

/-- What stands at the beginning of a name is empty or a name. -/
theorem isStem_of_isName_append {stem back : String} (h : isName (stem ++ back).toList = true) :
    IsStem stem := by
  rw [String.toList_append] at h
  cases hletters : stem.toList with
  | nil => exact .inl (String.toList_eq_nil_iff.mp hletters)
  | cons first rest =>
    rw [hletters, List.cons_append] at h
    simp only [isName, Bool.and_eq_true, List.all_eq_true, List.forall_mem_append] at h
    refine .inr ?_
    rw [hletters]
    simp only [isName, Bool.and_eq_true, List.all_eq_true]
    exact ⟨h.1, h.2.1⟩

/-- The digits of a number are characters of names. -/
theorem isNameChar_of_mem_toString {n : Nat} {c : Char} (h : c ∈ (toString n).toList) :
    isNameChar c = true :=
  isNameChar_of_isDigit (Bytecode.isDigit_of_mem_toString h)

end Text

/-! ## What is read can be written -/

namespace Assembly

/-- An operand that is read can be written. -/
theorem isWritable_of_parse_operand {text : List Char} {operand : Operand}
    (h : Operand.parse text = .ok operand) : (Statement.address operand).IsWritable := by
  unfold Operand.parse at h
  split at h
  · split at h
    · split at h
      · split at h
        · next hmax =>
          cases h
          refine le_trans ?_ hmax
          rw [BitVec.toNat_ofNat]
          exact Nat.mod_le _ _
        · cases h
      · cases h
    · split at h
      · next hname =>
        cases h
        rw [Statement.IsWritable, String.toList_ofList]
        exact hname
      · cases h
  · cases h

/-- A label that is read can be written. -/
theorem isName_of_labelName? {text : List Char} {name : String} (h : labelName? text = some name) :
    Text.isName name.toList = true := by
  rw [labelName?] at h
  split at h
  · dsimp only at h
    split at h
    · next hname =>
      cases h
      rw [String.toList_ofList]
      exact hname
    · cases h
  · cases h

/-- A statement that is read from any line can be written. -/
theorem isWritable_of_parseLine {line : List Char} {statement : Statement}
    (h : Statement.parseLine line = .ok (some statement)) : statement.IsWritable := by
  rw [Statement.parseLine] at h
  split at h
  · cases h
  · unfold Statement.parseCode at h
    split at h
    · next operand _ =>
      cases hread : Operand.parse (Text.trim operand) with
      | error fault => rw [hread] at h; cases h
      | ok found =>
        rw [hread] at h
        cases h
        exact isWritable_of_parse_operand hread
    · next rest _ =>
      cases hread : labelName? rest with
      | none => rw [hread] at h; cases h
      | some name =>
        rw [hread] at h
        cases h
        exact isName_of_labelName? hread
    · cases hread : parseCompute (splitComment line).1 with
      | error fault => rw [hread] at h; cases h
      | ok fields =>
        rw [hread] at h
        cases h
        trivial

/-! ## Code that can be written -/

/-- Code all of whose statements can be written. -/
def Writable (code : List Statement) : Prop := ∀ statement ∈ code, statement.IsWritable

@[simp] theorem writable_nil : Writable [] := fun _ h => absurd h List.not_mem_nil

@[simp] theorem writable_cons {statement : Statement} {code : List Statement} :
    Writable (statement :: code) ↔ statement.IsWritable ∧ Writable code :=
  List.forall_mem_cons

@[simp] theorem writable_append {code rest : List Statement} :
    Writable (code ++ rest) ↔ Writable code ∧ Writable rest :=
  List.forall_mem_append

namespace Statement

@[simp] theorem isWritable_store (dest : Destination) (comp : Computation) :
    (store dest comp).IsWritable := trivial

@[simp] theorem isWritable_branch (comp : Computation) (jump : Jump) :
    (branch comp jump).IsWritable := trivial

theorem isWritable_constant {value : Word} :
    (constant value).IsWritable ↔ value.toNat ≤ Instruction.addressMax := Iff.rfl

@[simp] theorem isWritable_reference {name : String} :
    (reference name).IsWritable ↔ Text.isName name.toList = true := Iff.rfl

@[simp] theorem isWritable_label {name : String} :
    (label name).IsWritable ↔ Text.isName name.toList = true := Iff.rfl

end Statement

end Assembly

namespace Bytecode

open Assembly

namespace Scope

/-- Names can begin with the file and with the function. -/
def IsStem (scope : Scope) : Prop := Text.IsStem scope.file ∧ Text.IsStem scope.function

variable {scope : Scope}

theorem isName_trueLabel (scope : Scope) : Text.isName scope.trueLabel.toList = true := by
  rw [trueLabel, String.toList_append]
  exact Text.isName_append (by decide) fun _ => Text.isNameChar_of_mem_toString

theorem isName_endLabel (scope : Scope) : Text.isName scope.endLabel.toList = true := by
  rw [endLabel, String.toList_append]
  exact Text.isName_append (by decide) fun _ => Text.isNameChar_of_mem_toString

theorem IsStem.isName_staticName (h : scope.IsStem) (index : Word) :
    Text.isName (scope.staticName index).toList = true :=
  h.1.isName_append (by decide) fun _ => Text.isNameChar_of_mem_toString

theorem IsStem.isName_returnLabel (h : scope.IsStem) :
    Text.isName scope.returnLabel.toList = true :=
  h.2.isName_append (by decide) fun _ => Text.isNameChar_of_mem_toString

theorem IsStem.isName_labelName (h : scope.IsStem) {label : String}
    (hlabel : Text.isName label.toList = true) :
    Text.isName (scope.labelName label).toList = true :=
  h.2.isName_append (by decide) fun _ => Text.isNameChar_of_mem hlabel

end Scope

namespace Code

@[simp] theorem isWritable_atPointer (pointer : Pointer) : (atPointer pointer).IsWritable := by
  have hname : Text.isName pointer.name.toList = true := by cases pointer <;> decide
  exact hname

@[simp] theorem isWritable_atRegister (register : Register) :
    (atRegister register).IsWritable := by
  have hall : ∀ r : Register, Text.isName (Register.name r).toList = true := by decide +kernel
  exact hall register

@[simp] theorem writable_pushD : Writable pushD := by simp [pushD]

@[simp] theorem writable_popD : Writable popD := by simp [popD]

/-- The code of every operation can be written. -/
theorem writable_arithmetic (scope : Scope) (operation : Arithmetic) :
    Writable (arithmetic scope operation) := by
  have htrue := scope.isName_trueLabel
  have hend := scope.isName_endLabel
  cases operation <;> simp [arithmetic, unary, binary, compare, htrue, hend]

/-- The address of a cell can be written, for an index within its segment. -/
theorem isWritable_of_cell {scope : Scope} {segment : Segment} {index : Word} {operand : Operand}
    (hscope : scope.IsStem) (h : cell scope segment index = .ok (.fixed operand)) :
    (Statement.address operand).IsWritable := by
  cases segment with
  | constant | locals | argument | thisBase | thatBase => cases h
  | static =>
    cases h
    exact hscope.isName_staticName index
  | temp =>
    simp only [cell] at h
    split at h
    · next hlt =>
      cases h
      rw [MemoryMap.tempSize] at hlt
      rw [Statement.IsWritable, Instruction.addressMax, MemoryMap.tempBase]
      bv_omega
    · cases h
  | pointer =>
    simp only [cell] at h
    split at h
    · cases h
      exact isWritable_atPointer .thisBase
    · split at h
      · cases h
        exact isWritable_atPointer .thatBase
      · cases h

/-- A push can be written. -/
theorem writable_push {scope : Scope} {segment : Segment} {index : Word} {code : List Statement}
    (hscope : scope.IsStem) (hindex : index.toNat ≤ Instruction.addressMax)
    (h : push scope segment index = .ok code) : Writable code := by
  rw [push] at h
  cases hcell : cell scope segment index with
  | error fault => rw [hcell] at h; cases h
  | ok found =>
    rw [hcell] at h
    cases h
    rcases kind_of_cell hcell with ⟨base, rfl, -⟩ | ⟨-, rfl⟩ | ⟨-, -, operand, rfl⟩
    · simp [fetch, Statement.isWritable_constant, hindex]
    · simp [fetch, Statement.isWritable_constant, hindex]
    · simp [fetch, isWritable_of_cell hscope hcell]

/-- A pop can be written. -/
theorem writable_pop {scope : Scope} {segment : Segment} {index : Word} {code : List Statement}
    (hscope : scope.IsStem) (hindex : index.toNat ≤ Instruction.addressMax)
    (h : pop scope segment index = .ok code) : Writable code := by
  rw [pop] at h
  cases hcell : cell scope segment index with
  | error fault => rw [hcell] at h; cases h
  | ok found =>
    rw [hcell] at h
    rcases kind_of_cell hcell with ⟨base, rfl, -⟩ | ⟨-, rfl⟩ | ⟨-, -, operand, rfl⟩
    · cases h
      simp [Statement.isWritable_constant, hindex]
    · cases h
    · cases h
      simp [isWritable_of_cell hscope hcell]

/-- The entry of a function can be written if its name can. -/
theorem writable_function {name : String} (hname : Text.isName name.toList = true)
    (locals : Word) : Writable (function name locals) := by
  have hzero : Writable pushZero := by simp [pushZero]
  rw [function, writable_cons, Statement.isWritable_label]
  refine ⟨hname, fun statement hmem => ?_⟩
  obtain ⟨code, hcode, hmem⟩ := List.mem_flatten.mp hmem
  rw [List.eq_of_mem_replicate hcode] at hmem
  exact hzero statement hmem

/-- A call can be written if its name can and the frame fits behind its arguments. -/
theorem writable_call {scope : Scope} {name : String} {arguments : Word} (hscope : scope.IsStem)
    (hname : Text.isName name.toList = true)
    (harguments : arguments.toNat ≤ Instruction.addressMax - Command.frameSize) :
    Writable (call scope name arguments) := by
  have hreturn := hscope.isName_returnLabel
  have hcount :
      (Statement.constant (arguments + BitVec.ofNat 16 Command.frameSize)).IsWritable := by
    rw [Statement.isWritable_constant, Instruction.addressMax] at *
    rw [Command.frameSize] at *
    bv_omega
  simp [call, savedPointers, save, hreturn, hname, hcount]

/-- A return can be written. -/
theorem writable_leave : Writable leave := by
  have hframe : (Statement.constant (BitVec.ofNat 16 Command.frameSize)).IsWritable := by
    rw [Statement.isWritable_constant]
    decide
  simp [leave, savedPointers, restore, hframe]

/-- The bootstrap can be written if the name of the entry function can. -/
theorem writable_boot {entry : String} (hentry : Text.isName entry.toList = true) :
    Writable (boot entry) := by
  have hcall : Writable (call bootScope entry 0) :=
    writable_call ⟨.inr (by decide), .inr (by decide)⟩ hentry (by decide)
  have hconstant (value : Word) (h : value.toNat ≤ Instruction.addressMax) (pointer : Pointer) :
      Writable (poison pointer value) := by
    simp [poison, Statement.isWritable_constant, h]
  have hbase : (Statement.constant (BitVec.ofNat 16 MemoryMap.stackBase)).IsWritable := by
    rw [Statement.isWritable_constant]
    decide
  rw [boot, bootSetup]
  simp only [writable_append]
  refine ⟨⟨⟨⟨?_, hconstant _ (by decide) _⟩, hconstant _ (by decide) _⟩,
    hconstant _ (by decide) _⟩, hcall⟩
  simp [hbase]

end Code

/-! ## Commands -/

/-- An index that passes its check has fifteen bits. -/
theorem index_le_of_checkIndex {segment : Segment} {index : Word}
    (h : Command.checkIndex segment index = .ok ()) : index.toNat ≤ Instruction.addressMax := by
  have hmax : segment.indexMax ≤ Instruction.addressMax := by cases segment <;> decide
  rw [Command.checkIndex] at h
  split at h
  · next hle => exact hle.trans hmax
  · cases h

/-- A count that passes its check is not too great. -/
theorem count_le_of_checkCount {most : Nat} {count : Word}
    (h : Command.checkCount most count = .ok ()) : count.toNat ≤ most := by
  rw [Command.checkCount] at h
  split at h
  · assumption
  · cases h

/-- Every name in the command has the right form. -/
def Command.IsNamed : Command → Prop
  | .label name | .goto name | .ifGoto name | .function name _ | .call name _ =>
    Text.isName name.toList = true
  | _ => True

/-- The code of a checked command can be written if its names can. -/
theorem writable_emitted {scope : Scope} {command : Command} (hscope : scope.IsStem)
    (hnamed : command.IsNamed) (hcheck : command.check = .ok ()) :
    Writable (command.emitted scope) := by
  have hcode := Command.code_of_compile (Command.compile_of_check scope hcheck)
  cases command with
  | push segment index =>
    exact Code.writable_push hscope (index_le_of_checkIndex hcheck) hcode
  | pop segment index =>
    exact Code.writable_pop hscope (index_le_of_checkIndex (Command.checkIndex_of_pop hcheck).2)
      hcode
  | arithmetic operation =>
    rw [← Except.ok.inj hcode]
    exact Code.writable_arithmetic scope operation
  | label name | goto name | ifGoto name =>
    rw [← Except.ok.inj hcode]
    simp [hscope.isName_labelName hnamed]
  | function name locals =>
    rw [← Except.ok.inj hcode]
    exact Code.writable_function hnamed locals
  | call name arguments =>
    rw [← Except.ok.inj hcode]
    exact Code.writable_call hscope hnamed (count_le_of_checkCount hcheck)
  | return_ =>
    rw [← Except.ok.inj hcode]
    exact Code.writable_leave

/-- Names can still begin with the file and the function behind a command. -/
theorem Scope.IsStem.after {scope : Scope} {command : Command} (h : scope.IsStem)
    (hnamed : command.IsNamed) : (scope.after command).IsStem := by
  cases command with
  | function name _ => exact ⟨h.1, .inr hnamed⟩
  | arithmetic operation => cases operation <;> exact h
  | push _ _ | pop _ _ | label _ | goto _ | ifGoto _ | call _ _ | return_ => exact h

/-- An argument that is read as a name is one. -/
theorem isName_of_name {argument : List Char} {name : String}
    (h : Argument.name argument = .ok name) : Text.isName name.toList = true := by
  rw [Argument.name] at h
  split at h
  · next hname =>
    cases h
    rw [String.toList_ofList]
    exact hname
  · cases h

/-- A computation in two parts that has a result has one of its first part. -/
theorem exists_of_bind_eq_ok {α β : Type} {first : Except Fault α} {next : α → Except Fault β}
    {result : β} (h : (first >>= next) = .ok result) :
    ∃ value, first = .ok value ∧ next value = .ok result := by
  cases first with
  | error fault => cases h
  | ok value => exact ⟨value, rfl, h⟩

/-- The names in a command that is read have the right form. -/
theorem isNamed_of_parse {word : List Char} {arguments : List (List Char)} {command : Command}
    (h : Command.parse word arguments = .ok (some command)) : command.IsNamed := by
  rw [Command.parse] at h
  split at h
  case h_1 | h_2 =>
    obtain ⟨_, -, h⟩ := exists_of_bind_eq_ok h
    obtain ⟨_, -, h⟩ := exists_of_bind_eq_ok h
    obtain ⟨_, -, h⟩ := exists_of_bind_eq_ok h
    obtain ⟨_, -, h⟩ := exists_of_bind_eq_ok h
    cases h
    trivial
  case h_3 | h_4 | h_5 =>
    obtain ⟨_, -, h⟩ := exists_of_bind_eq_ok h
    obtain ⟨_, hname, h⟩ := exists_of_bind_eq_ok h
    cases h
    exact isName_of_name hname
  case h_6 | h_7 =>
    obtain ⟨_, -, h⟩ := exists_of_bind_eq_ok h
    obtain ⟨_, hname, h⟩ := exists_of_bind_eq_ok h
    obtain ⟨_, -, h⟩ := exists_of_bind_eq_ok h
    obtain ⟨_, -, h⟩ := exists_of_bind_eq_ok h
    cases h
    exact isName_of_name hname
  case h_8 =>
    cases h
    trivial
  case h_9 =>
    obtain ⟨operation, -, rfl⟩ := Option.map_eq_some_iff.mp (Except.ok.inj h)
    trivial

/-- The names in a command that a line is read as have the right form. -/
theorem isNamed_of_parse_line {line : List Char} {command : Command}
    (h : Line.parse line = .ok (.command command)) : command.IsNamed := by
  obtain ⟨word, arguments, hparse, -⟩ := exists_of_parse h
  exact isNamed_of_parse hparse

/-- The names in executed commands have the right form. -/
theorem isNamed_of_mem_executed {lines : List String} {command : Command}
    (h : command ∈ executed lines) : command.IsNamed := by
  obtain ⟨line, hline⟩ := exists_of_mem_executed h
  exact isNamed_of_parse_line hline

/-! ## Units -/

/-- The code of checked commands can be written if their names can, from a place
on with whose file and function names can begin. -/
theorem writable_commands {scope : Scope} {commands : List Command} (entry : String)
    (hscope : scope.IsStem)
    (hcommands : ∀ command ∈ commands, command.IsNamed ∧ command.check = .ok ()) :
    Writable (codeOf entry (trace scope (commands.map .command))) := by
  -- A function that is entered becomes the stem of the names behind it.
  induction commands generalizing scope with
  | nil => exact writable_nil
  | cons command commands ih =>
    rw [List.forall_mem_cons] at hcommands
    obtain ⟨⟨hnamed, hcheck⟩, hrest⟩ := hcommands
    exact writable_append.mpr
      ⟨writable_emitted hscope hnamed hcheck, ih (hscope.after hnamed) hrest⟩

/-- A fresh lowering for the file accepts a unit and hands out the code for it.
If the unit gets the bootstrap, the entry function has a name of the right form. -/
def Lowers (file : String) (code : List Statement) : Prop :=
  ∃ entry lines boot, (boot = true → Text.isName entry.toList = true) ∧
    ((Lowering.ofFile file entry).unit lines boot).2 = .ok code

/-- Accepted units have the code of their commands, behind the bootstrap if there
is one. -/
theorem Lowers.exists_commands {file : String} {code : List Statement} (h : Lowers file code) :
    ∃ entry lines, ∃ boot : List Event,
      (boot = [] ∨ boot = [.boot] ∧ Text.isName entry.toList = true) ∧
      code = codeOf entry (trace (.ofFile file) (boot ++ (executed lines).map .command)) := by
  obtain ⟨entry, lines, boot, hentry, hunit⟩ := h
  obtain ⟨-, hgood, hbad⟩ := (Lowering.holds_ofFile file entry).unit lines boot
  refine ⟨entry, lines, if boot then [.boot] else [], ?_, ?_⟩
  · cases boot with
    | false => exact .inl rfl
    | true => exact .inr ⟨rfl, hentry rfl⟩
  · cases hread : readable lines with
    | false =>
      obtain ⟨fault, hfault⟩ := hbad hread
      rw [hunit] at hfault
      cases hfault
    | true =>
      have hcode := hgood hread
      rw [hunit] at hcode
      exact Except.ok.inj hcode

/-- The code of an accepted unit can be written if names can begin with the file. -/
theorem Lowers.writable {file : String} {code : List Statement} (hfile : Text.IsStem file)
    (h : Lowers file code) : Writable code := by
  obtain ⟨entry, lines, boot, hboot, rfl⟩ := h.exists_commands
  have hcommands : Writable (codeOf entry (trace (.ofFile file) ((executed lines).map .command))) :=
    writable_commands entry ⟨hfile, hfile⟩ fun command hmem =>
      ⟨isNamed_of_mem_executed hmem, check_of_mem_executed hmem⟩
  rcases hboot with rfl | ⟨rfl, hentry⟩
  · exact hcommands
  · exact writable_append.mpr ⟨Code.writable_boot hentry, hcommands⟩

/-- A unit that pushes the first static variable of a file refers to its symbol. -/
theorem exists_lowers_static (file : String) :
    ∃ code, Lowers file code ∧ .reference ((Scope.ofFile file).staticName 0) ∈ code := by
  have hread : readable ["push static 0"] = true := by decide +kernel
  have hcommands : executed ["push static 0"] = [.push .static 0] := by decide +kernel
  have hunit := ((Lowering.holds_ofFile file Lowering.defaultEntry).unit
    ["push static 0"] false).2.1 hread
  refine ⟨_, ⟨Lowering.defaultEntry, ["push static 0"], false, nofun, hunit⟩, ?_⟩
  have hcode : (Command.push .static 0).emitted (.ofFile file) =
      .reference ((Scope.ofFile file).staticName 0) :: .store .toD .m :: Code.pushD := rfl
  rw [Operation.events, hcommands, if_neg Bool.false_ne_true, List.nil_append, List.nil_append,
    List.map_singleton, codeOf_trace_singleton, Event.code, hcode]
  exact List.mem_cons_self

end Bytecode

/-! ## Assembling text and code -/

namespace Assembly

variable {program other : List Placed}

/-- The places of statements do not matter for labels. -/
theorem bindLabelsFrom_congr (h : statements program = statements other) (next : Nat)
    (table : SymbolTable) :
    bindLabelsFrom next table program = bindLabelsFrom next table other := by
  induction program generalizing next table other with
  | nil =>
    cases other with
    | nil => rfl
    | cons _ _ => cases h
  | cons placed program ih =>
    cases other with
    | nil => cases h
    | cons placed' other =>
      obtain ⟨hs, hrest⟩ := List.cons.inj h
      rw [bindLabelsFrom, bindLabelsFrom, hs]
      split
      · exact ih hrest _ _
      · split
        · exact ih hrest _ _
        · rfl

/-- The places of statements matter for the second walk only in its fault. -/
theorem allocateVariables_congr (h : statements program = statements other)
    (table : SymbolTable) :
    (allocateVariables table program).1 = (allocateVariables table other).1 ∧
      (allocateVariables table program).2.toOption =
        (allocateVariables table other).2.toOption := by
  induction program generalizing table other with
  | nil =>
    cases other with
    | nil => exact ⟨rfl, rfl⟩
    | cons _ _ => cases h
  | cons placed program ih =>
    cases other with
    | nil => cases h
    | cons placed' other =>
      obtain ⟨hs, hrest⟩ := List.cons.inj h
      rw [allocateVariables, allocateVariables, hs]
      split
      · split
        · exact ih hrest table
        · split
          · exact ih hrest _
          · exact ⟨rfl, rfl⟩
      · exact ih hrest table

/-- The places of statements do not matter for their words. -/
theorem encodeAll_congr (h : statements program = statements other) (table : SymbolTable) :
    (encodeAll table program).toOption = (encodeAll table other).toOption := by
  have hiff (words : List Word) :
      encodeAll table program = .ok words ↔ encodeAll table other = .ok words := by
    rw [encodeAll_eq_ok_iff, encodeAll_eq_ok_iff, h]
  cases hfirst : encodeAll table program with
  | ok words => rw [(hiff words).mp hfirst]
  | error fault =>
    cases hsecond : encodeAll table other with
    | ok words =>
      rw [(hiff words).mpr hsecond] at hfirst
      cases hfirst
    | error _ => rfl

/-- The places of statements matter only for what a fault says. -/
theorem assembleProgram_congr (h : statements program = statements other)
    (table : SymbolTable) :
    (assembleProgram table program).1 = (assembleProgram table other).1 ∧
      (assembleProgram table program).2.toOption = (assembleProgram table other).2.toOption := by
  rw [assembleProgram, assembleProgram, bindLabels, bindLabels, bindLabelsFrom_congr h]
  rcases bindLabelsFrom 0 table other with ⟨bound, fault | ⟨⟩⟩
  · exact ⟨rfl, rfl⟩
  · obtain ⟨htable, hresult⟩ := allocateVariables_congr h bound
    dsimp only
    generalize allocateVariables bound program = first at htable hresult ⊢
    generalize allocateVariables bound other = second at htable hresult ⊢
    rcases first with ⟨resolved, fault | ⟨⟩⟩ <;> rcases second with ⟨resolved', fault' | ⟨⟩⟩ <;>
      obtain rfl : resolved = resolved' := htable
    · exact ⟨rfl, rfl⟩
    · cases hresult
    · cases hresult
    · exact ⟨rfl, encodeAll_congr h resolved⟩

/-- Code that can be written is assembled from its text as it is directly. -/
theorem assembleLines_texts {code : List Statement} (hwritable : Writable code)
    (hprogram : statements program = code) (table : SymbolTable) :
    (assembleLines table (Text.lines (Text.unlines (code.map Statement.text)))).1 =
        (assembleProgram table program).1 ∧
      (assembleLines table (Text.lines (Text.unlines (code.map Statement.text)))).2.toOption =
        (assembleProgram table program).2.toOption := by
  obtain ⟨placed, hread, hplaced⟩ := readFrom_texts hwritable 0 []
  rw [lines_unlines_text hwritable, assembleLines, readLines, hread]
  exact assembleProgram_congr (hplaced.trans hprogram.symm) table

end Assembly

namespace Bytecode

open Assembly

/-- Every statement that a fresh lowering for the file hands out is read back
from its text, whatever unit it accepts, exactly if the file has no name or one of
the right form. Then the text of the code is assembled from any table as the code
is directly: to the same table, and to the same words or to none. -/
theorem lowered_code_reads_back_iff (file : String) :
    (Text.IsStem file ↔ ∀ code, Lowers file code → ∀ statement ∈ code,
      Statement.parseLine statement.text.toList = .ok (some statement)) ∧
    (Text.IsStem file → ∀ code, Lowers file code → ∀ table program, statements program = code →
      (assembleLines table (Text.lines (Text.unlines (code.map Statement.text)))).1 =
          (assembleProgram table program).1 ∧
        (assembleLines table (Text.lines (Text.unlines (code.map Statement.text)))).2.toOption =
          (assembleProgram table program).2.toOption) := by
  refine ⟨⟨fun hfile code hcode statement hmem => ?_, fun hread => ?_⟩,
    fun hfile code hcode table program hprogram => ?_⟩
  · exact parseLine_text (hcode.writable hfile statement hmem)
  · -- One unit decides: its code begins with the symbol of a static variable.
    obtain ⟨code, hcode, hmem⟩ := exists_lowers_static file
    have hname := isWritable_of_parseLine (hread code hcode _ hmem)
    rw [Statement.isWritable_reference, Scope.staticName, String.append_assoc] at hname
    exact Text.isStem_of_isName_append hname
  · exact assembleLines_texts (hcode.writable hfile) hprogram table

/-- A function with a local variable that calls itself. -/
def sampleUnit : List String :=
  ["function Main.main 1", "push static 3", "call Main.main 1", "return"]

/-- The unit is read back in a file of the right name, with the bootstrap. In a
file whose name begins with a digit, some unit is not. -/
theorem sampleUnit_reads_back :
    (∃ code, Lowers "Main" code ∧ .label "Main.main" ∈ code ∧
      (∀ statement ∈ code,
        Statement.parseLine statement.text.toList = .ok (some statement)) ∧
      (assembleLines .predefined (Text.lines (Text.unlines (code.map Statement.text)))).2.toOption =
        (assembleProgram .predefined (code.map (Placed.mk 0))).2.toOption) ∧
    ¬∀ code, Lowers "1st" code → ∀ statement ∈ code,
      Statement.parseLine statement.text.toList = .ok (some statement) := by
  have hmain : Text.IsStem "Main" := .inr (by decide)
  have hdigit : ¬Text.IsStem "1st" := by
    rintro (h | h) <;> exact absurd h (by decide)
  have hread : readable sampleUnit = true := by decide +kernel
  have hunit :=
    ((Lowering.holds_ofFile "Main" Lowering.defaultEntry).unit sampleUnit true).2.1 hread
  have hcode : Lowers "Main" _ := ⟨Lowering.defaultEntry, sampleUnit, true, by decide, hunit⟩
  refine ⟨⟨_, hcode, ?_, (lowered_code_reads_back_iff "Main").1.mp hmain _ hcode, ?_⟩,
    fun h => hdigit ((lowered_code_reads_back_iff "1st").1.mpr h)⟩
  · decide +kernel
  · refine ((lowered_code_reads_back_iff "Main").2 hmain _ hcode _ _ ?_).2
    rw [statements, List.map_map]
    exact List.map_id _

end Bytecode

end HK16
