import HK16.Bytecode.Lowering
import HK16.Proofs.Code

/-!
# The code of a list of commands

Commands that compute, move values and branch are lowered to their codes one
behind the other. No label of the result is declared twice, and its free symbols
are the static variables of the file, in the order of the commands that use
them. Functions, calls and returns are left out.
-/

namespace HK16.Bytecode

open Assembly SymbolTable

/-- Add commands one after the other, as long as none of them is refused. -/
def Lowering.commands (lowering : Lowering) : List Command → Except Fault Lowering
  | [] => .ok lowering
  | command :: rest =>
    match lowering.command command with
    | (next, .ok ()) => next.commands rest
    | (_, .error fault) => .error fault

/-- The statements of commands in a file of their own. -/
def lowerCommands (file : String) (commands : List Command) : Except Fault (List Statement) :=
  ((Lowering.ofFile file Lowering.defaultEntry).commands commands).map fun lowering =>
    lowering.flush.2

/-- Commands that are checked and compute, move values and branch to labels that
are declared once. -/
structure Runnable (commands : List Command) : Prop where
  /-- There are no functions, calls and returns. -/
  isLocal : ∀ command ∈ commands, command.isLocal = true
  /-- Every command passes its check. -/
  checked : ∀ command ∈ commands, command.check = .ok ()
  /-- No label is declared twice. -/
  labels : ∀ name, commands.count (.label name) ≤ 1
  /-- Every target is declared. -/
  targets : ∀ name, .goto name ∈ commands ∨ .ifGoto name ∈ commands → .label name ∈ commands

/-! ## Codes one behind the other -/

/-- The code of a command, which is nothing if the command is refused. -/
def Command.emitted (scope : Scope) (command : Command) : List Statement :=
  (command.compile scope).toOption.getD []

/-- The code of commands from a place on. -/
def codeAll (scope : Scope) : List Command → List Statement
  | [] => []
  | command :: commands => command.emitted scope ++ codeAll (scope.after command) commands

/-- The place behind commands. -/
def Scope.afterAll (scope : Scope) (commands : List Command) : Scope :=
  commands.foldl Scope.after scope

/-- An index that passes the check has a cell. -/
theorem exists_cell {segment : Segment} {index : Word} (scope : Scope)
    (h : Command.checkIndex segment index = .ok ()) :
    ∃ found, Code.cell scope segment index = .ok found := by
  rw [Command.checkIndex] at h
  split at h
  · next hle =>
    cases segment with
    | constant | locals | argument | thisBase | thatBase | static => exact ⟨_, rfl⟩
    | temp =>
      have hlt : index.toNat < MemoryMap.tempSize := Nat.lt_of_le_pred (by decide) hle
      exact ⟨_, if_pos hlt⟩
    | pointer =>
      by_cases h0 : index = 0
      · exact ⟨_, if_pos h0⟩
      · have h1 : index = 1 := by
          rw [Segment.indexMax] at hle
          bv_omega
        exact ⟨_, (if_neg h0).trans (if_pos h1)⟩
  · cases h

/-- A pop that passes its check has a target with a good index. -/
theorem Command.checkIndex_of_pop {segment : Segment} {index : Word}
    (h : (Command.pop segment index).check = .ok ()) :
    segment ≠ .constant ∧ checkIndex segment index = .ok () := by
  cases segment with
  | constant => cases h
  | locals | argument | thisBase | thatBase | static | temp | pointer => exact ⟨nofun, h⟩

/-- A command that passes its check and is not about functions has a code. -/
theorem Command.compile_eq_ok {command : Command} (scope : Scope)
    (hlocal : command.isLocal = true) (hcheck : command.check = .ok ()) :
    command.compile scope = .ok (command.emitted scope) := by
  have hcode : ∃ code, command.compile scope = .ok code := by
    rw [Command.compile, hcheck]
    cases command with
    | arithmetic _ | label _ | goto _ | ifGoto _ => exact ⟨_, rfl⟩
    | push segment index =>
      obtain ⟨found, hfound⟩ := exists_cell scope hcheck
      exact ⟨_, by rw [Command.code, Code.push, hfound]; rfl⟩
    | pop segment index =>
      obtain ⟨hne, hindex⟩ := checkIndex_of_pop hcheck
      obtain ⟨found, hfound⟩ := exists_cell scope hindex
      rcases Code.kind_of_cell hfound with ⟨base, rfl, -⟩ | ⟨hconstant, -⟩ | ⟨-, -, operand, rfl⟩
      · exact ⟨_, by rw [Command.code, Code.pop, hfound]⟩
      · exact absurd hconstant hne
      · exact ⟨_, by rw [Command.code, Code.pop, hfound]⟩
    | function _ _ | call _ _ | return_ => cases hlocal
  obtain ⟨code, hcode⟩ := hcode
  rw [Command.emitted, hcode]
  rfl

/-- Commands with a code are lowered to their codes. -/
theorem Lowering.commands_eq_ok {commands : List Command} (lowering : Lowering)
    (hlocal : ∀ command ∈ commands, command.isLocal = true)
    (hcheck : ∀ command ∈ commands, command.check = .ok ()) :
    ∃ final, lowering.commands commands = .ok final ∧
      final.pending.toList = lowering.pending.toList ++ codeAll lowering.scope commands := by
  induction commands generalizing lowering with
  | nil => exact ⟨lowering, rfl, (List.append_nil _).symm⟩
  | cons command commands ih =>
    rw [List.forall_mem_cons] at hlocal hcheck
    have hcode := Command.compile_eq_ok lowering.scope hlocal.1 hcheck.1
    obtain ⟨final, hfinal, hpending⟩ := ih
      (lowering.append (command.emitted lowering.scope) command) hlocal.2 hcheck.2
    refine ⟨final, ?_, ?_⟩
    · rw [Lowering.commands, Lowering.command, hcode]
      exact hfinal
    · rw [hpending, Lowering.append, codeAll, Array.toList_appendList, List.append_assoc]

/-- Runnable commands are lowered to their codes. -/
theorem lowerCommands_eq_ok (file : String) {commands : List Command}
    (hlocal : ∀ command ∈ commands, command.isLocal = true)
    (hcheck : ∀ command ∈ commands, command.check = .ok ()) :
    lowerCommands file commands = .ok (codeAll (.ofFile file) commands) := by
  obtain ⟨final, hfinal, hpending⟩ := Lowering.commands_eq_ok
    (Lowering.ofFile file Lowering.defaultEntry) hlocal hcheck
  rw [lowerCommands, hfinal]
  exact congrArg Except.ok hpending

/-- The code of two lists, one behind the other. -/
theorem codeAll_append (scope : Scope) (commands rest : List Command) :
    codeAll scope (commands ++ rest) =
      codeAll scope commands ++ codeAll (scope.afterAll commands) rest := by
  induction commands generalizing scope with
  | nil => rfl
  | cons command commands ih =>
    rw [List.cons_append, codeAll, codeAll, ih, List.append_assoc]
    rfl

section Position

variable {commands : List Command} {command : Command} {i : Nat} (scope : Scope)

/-- The address of the code of the command with the given index. -/
def commandAddress (commands : List Command) (i : Nat) : Nat :=
  wordCount (codeAll scope (commands.take i))

/-- The code of a command stands at its address. -/
theorem codeAt_emitted (hi : commands[i]? = some command) :
    CodeAt (codeAll scope commands) (commandAddress scope commands i)
      (command.emitted (scope.afterAll (commands.take i))) := by
  obtain ⟨hlt, hget⟩ := List.getElem?_eq_some_iff.mp hi
  refine ⟨codeAll scope (commands.take i),
    codeAll ((scope.afterAll (commands.take i)).after command) (commands.drop (i + 1)), ?_, rfl⟩
  have hsplit : commands = commands.take i ++ command :: commands.drop (i + 1) := by
    rw [← hget, ← List.drop_eq_getElem_cons hlt, List.take_append_drop]
  nth_rewrite 1 [hsplit]
  rw [codeAll_append, codeAll, List.append_assoc]

/-- The next command's code follows. -/
theorem commandAddress_succ (hi : commands[i]? = some command) :
    commandAddress scope commands (i + 1) = commandAddress scope commands i +
      wordCount (command.emitted (scope.afterAll (commands.take i))) := by
  rw [commandAddress, List.take_add_one, hi, codeAll_append, wordCount_append]
  simp only [Option.toList_some, codeAll, List.append_nil, commandAddress]

end Position

/-! ## Names stay as they are outside of functions -/

namespace Scope

variable {commands : List Command} {command : Command} (scope : Scope)

/-- Commands that are not about functions change only the number of comparisons,
and never make it smaller. -/
theorem after_of_isLocal (h : command.isLocal = true) :
    (scope.after command).file = scope.file ∧
      (scope.after command).function = scope.function ∧
      scope.compares ≤ (scope.after command).compares := by
  cases command with
  | arithmetic operation =>
    cases operation with
    | eq | gt | lt => exact ⟨rfl, rfl, Nat.le_succ _⟩
    | add | sub | neg | and | or | not => exact ⟨rfl, rfl, Nat.le_refl _⟩
  | push _ _ | pop _ _ | label _ | goto _ | ifGoto _ => exact ⟨rfl, rfl, Nat.le_refl _⟩
  | function _ _ | call _ _ | return_ => cases h

/-- File and function stay the same over commands that are not about functions. -/
theorem afterAll_of_isLocal (h : ∀ command ∈ commands, command.isLocal = true) :
    (scope.afterAll commands).file = scope.file ∧
      (scope.afterAll commands).function = scope.function := by
  induction commands generalizing scope with
  | nil => exact ⟨rfl, rfl⟩
  | cons command commands ih =>
    rw [List.forall_mem_cons] at h
    obtain ⟨hfile, hfunction, -⟩ := scope.after_of_isLocal h.1
    obtain ⟨hfile', hfunction'⟩ := ih (scope.after command) h.2
    exact ⟨hfile'.trans hfile, hfunction'.trans hfunction⟩

/-- The name of a label depends on the function only. -/
theorem labelName_congr {scope other : Scope} (h : other.function = scope.function) :
    other.labelName = scope.labelName := by
  funext name
  rw [labelName, labelName, h]

/-- The symbol of a static variable depends on the file only. -/
theorem staticName_congr {scope other : Scope} (h : other.file = scope.file) :
    other.staticName = scope.staticName := by
  funext index
  rw [staticName, staticName, h]

end Scope

/-! ## Labels -/

/-- The labels that the code of a command declares. -/
def Command.declared (scope : Scope) : Command → List String
  | .arithmetic .eq | .arithmetic .gt | .arithmetic .lt => [scope.trueLabel, scope.endLabel]
  | .label name => [scope.labelName name]
  | _ => []

/-- Pushing declares no label. -/
theorem labelNames_push {scope : Scope} {segment : Segment} {index : Word}
    {code : List Statement} (h : Code.push scope segment index = .ok code) :
    labelNames code = [] := by
  rw [Code.push] at h
  cases hcell : Code.cell scope segment index with
  | error fault => rw [hcell] at h; cases h
  | ok found =>
    rw [hcell] at h
    cases h
    cases found <;> rfl

/-- Popping declares no label. -/
theorem labelNames_pop {scope : Scope} {segment : Segment} {index : Word}
    {code : List Statement} (h : Code.pop scope segment index = .ok code) :
    labelNames code = [] := by
  rw [Code.pop] at h
  split at h
  · cases h
  · cases h
  · cases h
    rfl
  · cases h
    rfl

/-- The code of a command declares its labels in order. -/
theorem labelNames_emitted {command : Command} (scope : Scope)
    (hlocal : command.isLocal = true) (hcheck : command.check = .ok ()) :
    labelNames (command.emitted scope) = command.declared scope := by
  have hcode := Command.code_of_compile (Command.compile_eq_ok scope hlocal hcheck)
  cases command with
  | arithmetic operation => cases operation <;> rfl
  | push segment index => exact labelNames_push hcode
  | pop segment index => exact labelNames_pop hcode
  | label _ | goto _ | ifGoto _ => rfl
  | function _ _ | call _ _ | return_ => cases hlocal

/-- The labels of a code are those of the program and those of comparisons that
come after the ones counted so far. -/
theorem mem_labelNames_codeAll {commands : List Command} {scope : Scope} {name : String}
    (hlocal : ∀ command ∈ commands, command.isLocal = true)
    (hcheck : ∀ command ∈ commands, command.check = .ok ())
    (h : name ∈ labelNames (codeAll scope commands)) :
    (∃ label, .label label ∈ commands ∧ name = scope.labelName label) ∨
      ∃ other : Scope, scope.compares ≤ other.compares ∧
        (name = other.trueLabel ∨ name = other.endLabel) := by
  induction commands generalizing scope with
  | nil => cases h
  | cons command commands ih =>
    rw [List.forall_mem_cons] at hlocal hcheck
    rw [codeAll, labelNames_append, List.mem_append,
      labelNames_emitted scope hlocal.1 hcheck.1] at h
    rcases h with hfirst | hrest
    · cases command with
      | label label =>
        exact .inl ⟨label, List.mem_cons_self, List.mem_singleton.mp hfirst⟩
      | arithmetic operation =>
        cases operation with
        | eq | gt | lt =>
          exact .inr ⟨scope, Nat.le_refl _, by simpa [Command.declared] using hfirst⟩
        | add | sub | neg | and | or | not => cases hfirst
      | push _ _ | pop _ _ | goto _ | ifGoto _ | function _ _ | call _ _ | return_ => cases hfirst
    · obtain ⟨-, hfunction, hcompares⟩ := scope.after_of_isLocal hlocal.1
      rcases ih hlocal.2 hcheck.2 hrest with ⟨label, hmem, hname⟩ | ⟨other, hle, hname⟩
      · rw [Scope.labelName_congr hfunction] at hname
        exact .inl ⟨label, List.mem_cons_of_mem _ hmem, hname⟩
      · exact .inr ⟨other, Nat.le_trans hcompares hle, hname⟩

/-- The labels of one comparison are different. -/
theorem nodup_declared (scope : Scope) (command : Command) : (command.declared scope).Nodup := by
  have hpair : [scope.trueLabel, scope.endLabel].Nodup :=
    List.nodup_cons.mpr ⟨fun h => scope.trueLabel_ne_endLabel scope (List.mem_singleton.mp h),
      List.nodup_singleton _⟩
  cases command with
  | arithmetic operation =>
    cases operation with
    | eq | gt | lt => exact hpair
    | add | sub | neg | and | or | not => exact List.nodup_nil
  | label name => exact List.nodup_singleton _
  | push _ _ | pop _ _ | goto _ | ifGoto _ | function _ _ | call _ _ | return_ =>
    exact List.nodup_nil

/-- A label of a command is not declared again by the commands behind it. -/
theorem declared_notMem {command : Command} {commands : List Command} {scope : Scope}
    {name : String} (hlocal : ∀ c ∈ command :: commands, c.isLocal = true)
    (hcheck : ∀ c ∈ command :: commands, c.check = .ok ())
    (hlabels : ∀ label, (command :: commands).count (.label label) ≤ 1)
    (hname : name ∈ command.declared scope) :
    name ∉ labelNames (codeAll (scope.after command) commands) := by
  intro hagain
  rw [List.forall_mem_cons] at hlocal hcheck
  have hlater := mem_labelNames_codeAll hlocal.2 hcheck.2 hagain
  -- A comparison is counted before what follows it, so later numbers are greater.
  have hcompare (h : name = scope.trueLabel ∨ name = scope.endLabel)
      (hlt : scope.compares < (scope.after command).compares) : False := by
    rcases hlater with ⟨label, -, heq⟩ | ⟨other, hle, heq⟩
    · rw [heq] at h
      exact h.elim (Scope.labelName_ne_trueLabel _ _ _) (Scope.labelName_ne_endLabel _ _ _)
    · rcases h with rfl | rfl
      · rcases heq with heq | heq
        · rw [Scope.trueLabel_inj] at heq
          omega
        · exact scope.trueLabel_ne_endLabel other heq
      · rcases heq with heq | heq
        · exact other.trueLabel_ne_endLabel scope heq.symm
        · rw [Scope.endLabel_inj] at heq
          omega
  cases command with
  | label label =>
    rw [Command.declared, List.mem_singleton] at hname
    subst hname
    rcases hlater with ⟨label', hmem, heq⟩ | ⟨other, -, heq⟩
    · obtain rfl : label = label' := scope.labelName_inj.mp heq
      have hcount := hlabels label
      have hagain := List.count_pos_iff.mpr hmem
      rw [List.count_cons_self] at hcount
      omega
    · exact heq.elim (scope.labelName_ne_trueLabel other label)
        (scope.labelName_ne_endLabel other label)
  | arithmetic operation =>
    cases operation with
    | eq | gt | lt =>
      exact hcompare (by simpa [Command.declared] using hname) (Nat.lt_succ_self _)
    | add | sub | neg | and | or | not => cases hname
  | push _ _ | pop _ _ | goto _ | ifGoto _ | function _ _ | call _ _ | return_ => cases hname

/-- No label of the code of runnable commands is declared twice. -/
theorem nodup_labelNames_codeAll {commands : List Command} (scope : Scope)
    (hlocal : ∀ command ∈ commands, command.isLocal = true)
    (hcheck : ∀ command ∈ commands, command.check = .ok ())
    (hlabels : ∀ name, commands.count (.label name) ≤ 1) :
    (labelNames (codeAll scope commands)).Nodup := by
  induction commands generalizing scope with
  | nil => exact List.nodup_nil
  | cons command commands ih =>
    have hrest := ih (scope.after command) (List.forall_mem_cons.mp hlocal).2
      (List.forall_mem_cons.mp hcheck).2
      fun name => Nat.le_trans List.count_le_count_cons (hlabels name)
    rw [codeAll, labelNames_append, labelNames_emitted scope
      (hlocal command List.mem_cons_self) (hcheck command List.mem_cons_self)]
    refine List.nodup_append.mpr ⟨nodup_declared scope command, hrest, ?_⟩
    rintro name hname other hother rfl
    exact declared_notMem hlocal hcheck hlabels hname hother

/-! ## Static variables -/

/-- Pointers are never free. -/
theorem not_isFree_pointer (program : List Statement) (pointer : Pointer) :
    ¬IsFree program pointer.name := by
  intro h
  cases pointer <;> exact absurd h.1 (by decide +kernel)

/-- Registers are never free. -/
theorem not_isFree_register (program : List Statement) (register : Register) :
    ¬IsFree program (Register.name register) := by
  have hall : ∀ r : Register, predefinedAddress? (Register.name r) ≠ none := by decide +kernel
  exact fun h => hall register h.1

/-- The symbol by which code finds a cell at a known address. -/
def Code.Cell.symbols : Code.Cell → List String
  | .fixed (.symbol name) => [name]
  | _ => []

/-- Of the symbols of cells, only static variables are free. -/
theorem filter_symbols {program : List Statement} {scope : Scope} {segment : Segment}
    {index : Word} {found : Code.Cell} (h : Code.cell scope segment index = .ok found)
    (hstatic : ∀ index, IsFree program (scope.staticName index)) :
    (found.symbols.filter fun name => IsFree program name) =
      (staticIndices [.push segment index]).map scope.staticName := by
  have hpointer := not_isFree_pointer program
  cases segment with
  | constant | locals | argument | thisBase | thatBase => cases h; rfl
  | static =>
    cases h
    exact List.filter_cons_of_pos (decide_eq_true (hstatic index))
  | temp =>
    simp only [Code.cell] at h
    split at h
    · cases h
      rfl
    · cases h
  | pointer =>
    simp only [Code.cell] at h
    split at h
    · cases h
      exact List.filter_cons_of_neg (by simpa using hpointer .thisBase)
    · split at h
      · cases h
        exact List.filter_cons_of_neg (by simpa using hpointer .thatBase)
      · cases h

/-- Of the symbols in the code of a command, only static variables are free. -/
theorem filter_references_emitted {program : List Statement} {command : Command} {scope : Scope}
    (hlocal : command.isLocal = true) (hcheck : command.check = .ok ())
    (hdeclared : ∀ name ∈ command.declared scope, Statement.label name ∈ program)
    (htarget : ∀ name, command = .goto name ∨ command = .ifGoto name →
      Statement.label (scope.labelName name) ∈ program)
    (hstatic : ∀ index, IsFree program (scope.staticName index)) :
    ((references (command.emitted scope)).filter fun name => IsFree program name) =
      (staticIndices [command]).map scope.staticName := by
  have hpointer := not_isFree_pointer program
  have hregister := not_isFree_register program
  have hlabel {name : String} (h : Statement.label name ∈ program) : ¬IsFree program name :=
    fun hfree => hfree.2 h
  have hcode := Command.code_of_compile (Command.compile_eq_ok scope hlocal hcheck)
  cases command with
  | arithmetic operation =>
    have hcompare (h : ∀ name ∈ [scope.trueLabel, scope.endLabel], Statement.label name ∈ program) :
        ([Pointer.sp.name, scope.trueLabel, Pointer.sp.name, scope.endLabel,
          Pointer.sp.name].filter fun name => IsFree program name) = [] := by
      have htrue := hlabel (h scope.trueLabel (by simp))
      have hend := hlabel (h scope.endLabel (by simp))
      simp [hpointer, htrue, hend]
    have hsimple : ([Pointer.sp.name].filter fun name => IsFree program name) = [] := by
      simp [hpointer]
    cases operation with
    | eq | gt | lt => exact hcompare hdeclared
    | add | sub | neg | and | or | not => exact hsimple
  | push segment index =>
    rw [Command.code, Code.push] at hcode
    cases hcell : Code.cell scope segment index with
    | error fault => rw [hcell] at hcode; cases hcode
    | ok found =>
      rw [hcell] at hcode
      rw [← Except.ok.inj hcode, ← filter_symbols hcell hstatic]
      have hpushed (names : List String) :
          ((names ++ [Pointer.sp.name, Pointer.sp.name]).filter fun name => IsFree program name) =
            names.filter fun name => IsFree program name := by
        simp [hpointer]
      rcases found with value | base | (value | name)
      · exact hpushed []
      · exact (hpushed [base.name]).trans (List.filter_cons_of_neg (by simpa using hpointer base))
      · exact hpushed []
      · exact hpushed [name]
  | pop segment index =>
    rw [Command.code, Code.pop] at hcode
    cases hcell : Code.cell scope segment index with
    | error fault => rw [hcell] at hcode; cases hcode
    | ok found =>
      rw [hcell] at hcode
      have hsymbols : ((references (Command.emitted scope (.pop segment index))).filter
          fun name => IsFree program name) =
            found.symbols.filter fun name => IsFree program name := by
        rcases found with value | base | (value | name)
        · cases hcode
        · have hnone : ([base.name, Register.name Code.noteRegister, Pointer.sp.name,
              Register.name Code.noteRegister].filter fun name => IsFree program name) = [] := by
            simp [hpointer, hregister]
          rw [← Except.ok.inj hcode]
          exact hnone
        · rw [← Except.ok.inj hcode]
          exact List.filter_cons_of_neg (by simpa using hpointer .sp)
        · rw [← Except.ok.inj hcode]
          exact List.filter_cons_of_neg (by simpa using hpointer .sp)
      have hsame : staticIndices [.pop segment index] = staticIndices [.push segment index] := by
        cases segment <;> rfl
      rw [hsymbols, hsame, filter_symbols hcell hstatic]
  | label name => rfl
  | goto name =>
    exact List.filter_cons_of_neg (by simpa using hlabel (htarget name (.inl rfl)))
  | ifGoto name =>
    have hjump := hlabel (htarget name (.inr rfl))
    have hfilter : ([Pointer.sp.name, scope.labelName name].filter fun name =>
        IsFree program name) = [] := by
      simp [hpointer, hjump]
    exact hfilter
  | function _ _ | call _ _ | return_ => cases hlocal

/-- Of the symbols in the code of commands, only static variables are free. -/
theorem filter_references_codeAll {program : List Statement} {commands : List Command}
    {scope : Scope} (hlocal : ∀ command ∈ commands, command.isLocal = true)
    (hcheck : ∀ command ∈ commands, command.check = .ok ())
    (hdeclared : ∀ name ∈ labelNames (codeAll scope commands), Statement.label name ∈ program)
    (htargets : ∀ name, .goto name ∈ commands ∨ .ifGoto name ∈ commands →
      Statement.label (scope.labelName name) ∈ program)
    (hstatic : ∀ index, IsFree program (scope.staticName index)) :
    ((references (codeAll scope commands)).filter fun name => IsFree program name) =
      (staticIndices commands).map scope.staticName := by
  induction commands generalizing scope with
  | nil => rfl
  | cons command commands ih =>
    rw [List.forall_mem_cons] at hlocal hcheck
    obtain ⟨hfile, hfunction, -⟩ := scope.after_of_isLocal hlocal.1
    have hnames := Scope.labelName_congr hfunction
    have hstatics := Scope.staticName_congr hfile
    rw [codeAll, labelNames_append, labelNames_emitted scope hlocal.1 hcheck.1,
      List.forall_mem_append] at hdeclared
    have hothers : ∀ name, .goto name ∈ commands ∨ .ifGoto name ∈ commands →
        Statement.label ((scope.after command).labelName name) ∈ program := by
      intro name h
      rw [hnames]
      exact htargets name (h.imp (List.mem_cons_of_mem _) (List.mem_cons_of_mem _))
    have hrest := ih hlocal.2 hcheck.2 hdeclared.2 hothers (hstatics ▸ hstatic)
    have htarget : ∀ name, command = .goto name ∨ command = .ifGoto name →
        Statement.label (scope.labelName name) ∈ program := by
      rintro name (rfl | rfl)
      · exact htargets name (.inl List.mem_cons_self)
      · exact htargets name (.inr List.mem_cons_self)
    have hfirst := filter_references_emitted hlocal.1 hcheck.1 hdeclared.1 htarget hstatic
    have hsplit : staticIndices (command :: commands) =
        staticIndices [command] ++ staticIndices commands :=
      List.filterMap_append (l := [command])
    rw [codeAll, references, List.filterMap_append, List.filter_append, hsplit, List.map_append,
      ← hfirst, ← hstatics, ← hrest]
    rfl

section Program

variable {file : String} {commands : List Command}

/-- The symbols of static variables are declared nowhere. -/
theorem isFree_staticName (hrun : Runnable commands) (htrue : file ≠ "CMP_TRUE")
    (hend : file ≠ "CMP_END") (index : Word) :
    IsFree (codeAll (.ofFile file) commands) ((Scope.ofFile file).staticName index) := by
  refine ⟨Scope.predefinedAddress?_staticName _ index, ?_⟩
  rw [← mem_labelNames]
  intro hmem
  rcases mem_labelNames_codeAll hrun.isLocal hrun.checked hmem with
    ⟨label, -, heq⟩ | ⟨other, -, heq | heq⟩
  · exact Scope.staticName_ne_labelName _ rfl index label heq
  · exact Scope.staticName_ne_trueLabel _ other htrue index heq
  · exact Scope.staticName_ne_endLabel _ other hend index heq

/-- Runnable commands stay in one file and function. -/
theorem Runnable.afterAll_take (hrun : Runnable commands) (scope : Scope) (i : Nat) :
    (scope.afterAll (commands.take i)).file = scope.file ∧
      (scope.afterAll (commands.take i)).function = scope.function :=
  scope.afterAll_of_isLocal fun command h => hrun.isLocal command (List.mem_of_mem_take h)

/-- A label of the program stands where its command does. -/
theorem codeAt_label {name : String} {i : Nat} (hrun : Runnable commands) (scope : Scope)
    (hi : commands[i]? = some (.label name)) :
    CodeAt (codeAll scope commands) (commandAddress scope commands i)
      [.label (scope.labelName name)] := by
  rw [← Scope.labelName_congr (hrun.afterAll_take scope i).2]
  exact codeAt_emitted scope hi

/-- A label of the program stands for the address of its command. -/
theorem symbolAddress_labelName {name : String} {i : Nat} (hrun : Runnable commands)
    (scope : Scope) (hi : commands[i]? = some (.label name)) :
    symbolAddress (codeAll scope commands) (scope.labelName name) =
      commandAddress scope commands i :=
  (codeAt_label hrun scope hi).symbolAddress_label (Scope.predefinedAddress?_labelName _ _)
    (nodup_labelNames_codeAll scope hrun.isLocal hrun.checked hrun.labels)

/-- The free symbols of a program are its static variables. -/
theorem freeReferences_codeAll (hrun : Runnable commands) (htrue : file ≠ "CMP_TRUE")
    (hend : file ≠ "CMP_END") :
    freeReferences (codeAll (.ofFile file) commands) =
      (staticIndices commands).map (Scope.ofFile file).staticName := by
  refine filter_references_codeAll hrun.isLocal hrun.checked (fun name => mem_labelNames.mp) ?_
    (isFree_staticName hrun htrue hend)
  intro name htarget
  obtain ⟨i, hi⟩ := List.mem_iff_getElem?.mp (hrun.targets name htarget)
  exact mem_labelNames.mp (codeAt_label hrun _ hi).label_mem

/-- Static variables take cells in the order in which commands first use them. -/
theorem addressIn_staticName (hrun : Runnable commands) (htrue : file ≠ "CMP_TRUE")
    (hend : file ≠ "CMP_END") (index : Word) :
    addressIn (codeAll (.ofFile file) commands) ((Scope.ofFile file).staticName index) =
      staticAddress commands index := by
  have hfree := isFree_staticName hrun htrue hend index
  have hinjective : Function.Injective (Scope.ofFile file).staticName :=
    fun _ _ => (Scope.staticName_inj _).mp
  rw [addressIn, symbolAddress, hfree.1, labelPosition?_eq_none_iff.mpr hfree.2, staticAddress,
    freeReferences_codeAll hrun htrue hend]
  exact congrArg (fun place => BitVec.ofNat 16 (MemoryMap.variableBase + place))
    (firstIndex_map hinjective.injOn)

end Program

end HK16.Bytecode
