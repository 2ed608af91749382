import HK16.Proofs.Hygiene
import HK16.Proofs.Segments
import HK16.Proofs.UsedAssembler

/-!
# The cells of static variables

A static variable is a symbol made of its file and its number. The assembler
gives it a cell when it first meets the symbol, among labels, pointers and other
symbols that it does not know. Over all files that are lowered one after the
other, two static variables have the same cell only if they are the same variable
of the same file, whatever the files are called. Their cells lie behind the
registers. A function or a label of the code can have the name of the symbol;
then the symbol is its place in the program and nothing is said.
-/

namespace HK16.Assembly

open SymbolTable

/-- The symbol is a variable of an assembled program, in the given cell. -/
structure IsVariable (program : List Placed) (words : List Word) (name : String) (cell : Word) :
    Prop where
  /-- The table that remains has the symbol as a variable in the cell. -/
  found : (assembleProgram .predefined program).1.find? name = some ⟨name, .variable, cell⟩
  /-- The program loads the symbol. -/
  used : Statement.reference name ∈ statements program
  /-- Wherever the program loads the symbol, the word is the address of the cell. -/
  loaded : ∀ address rest, CodeAt (statements program) address (.reference name :: rest) →
    words[address]? = some cell

/-- The word of a statement that loads a symbol is the address of the symbol. -/
theorem eq_of_encode_reference {table : SymbolTable} {name : String} {address word : Word}
    (h : encode table (.reference name) = .ok word)
    (haddress : table.address? name = some address) : word = address := by
  rw [Statement.reference, encode, Operand.value?, haddress] at h
  dsimp only at h
  split at h
  · next hle =>
    rw [← Except.ok.inj h]
    exact BitVec.eq_of_toNat_eq (Instruction.toNat_encode_load hle)
  · cases h

section Variables

variable {program : List Placed} {words : List Word} {name other : String} {cell cell' : Word}

/-- Every free symbol that an assembled program loads is a variable. -/
theorem exists_isVariable (hwords : (assembleProgram .predefined program).2 = .ok words)
    (hused : Statement.reference name ∈ statements program)
    (hfree : IsFree (statements program) name) : ∃ cell, IsVariable program words name cell := by
  obtain ⟨hbind, hallocate, htable, hencode⟩ := walks_of_assembleProgram hwords
  have hlabel := labelPosition?_eq_none_iff.mpr hfree.2
  have hunknown : (bindLabels .predefined program).1.find? name = none := by
    rw [find?_bindLabels_predefined name hbind, hfree.1, hlabel]
    rfl
  have hmem := mem_freeReferences (mem_references.mpr hused) hfree.1 hlabel
  obtain ⟨cell, hfound⟩ : ∃ cell, (assembleProgram .predefined program).1.find? name =
      some ⟨name, .variable, cell⟩ := by
    rw [htable, find?_allocateVariables _ program name hallocate, hunknown,
      unknownReferences_bindLabels hbind]
    exact ⟨_, if_pos hmem⟩
  refine ⟨cell, hfound, hused, fun address rest hat => ?_⟩
  obtain ⟨word, hword, hencoded⟩ := getElem?_of_codeAt (encodeAll_eq_ok_iff.mp hencode) hat rfl
  have haddress : (assembleProgram .predefined program).1.address? name = some cell := by
    rw [address?, hfound]
    rfl
  rw [hword, eq_of_encode_reference hencoded haddress]

/-- Variables lie behind the registers. -/
theorem IsVariable.le_toNat (h : IsVariable program words name cell) : 16 ≤ cell.toNat := by
  have hsound := Sound.kept.assembleProgram sound_predefined program
  exact (hsound.cells _ (find?_eq_some_iff.mp h.found).1 rfl).1

/-- Different variables have different cells. -/
theorem IsVariable.cell_eq_iff (h : IsVariable program words name cell)
    (h' : IsVariable program words other cell') : cell = cell' ↔ name = other := by
  have hsound := Sound.kept.assembleProgram sound_predefined program
  constructor
  · intro hsame
    have hentry := hsound.distinct _ (find?_eq_some_iff.mp h.found).1 _
      (find?_eq_some_iff.mp h'.found).1 rfl rfl hsame
    exact congrArg Symbol.name hentry
  · rintro rfl
    have hfound := h.found.symm.trans h'.found
    exact congrArg Symbol.address (Option.some.inj hfound)

end Variables

end HK16.Assembly

namespace HK16.Bytecode

open Assembly SymbolTable

/-- One of the files pushes the static variable or pops into it. -/
def AccessesStatic (sources : List (String × List String)) (file : String) (index : Word) :
    Prop :=
  ∃ lines command, (file, lines) ∈ sources ∧ command ∈ executed lines ∧
    command.Moves .static index

/-- Commands are lowered in the file where they stand. -/
theorem exists_mem_trace {command : Command} {commands : List Command} (scope : Scope)
    (h : command ∈ commands) :
    ∃ place : Scope, place.file = scope.file ∧
      (place, Event.command command) ∈ trace scope (commands.map .command) := by
  induction commands generalizing scope with
  | nil => cases h
  | cons first commands ih =>
    rw [List.map_cons, trace]
    rcases List.mem_cons.mp h with rfl | hrest
    · exact ⟨scope, rfl, List.mem_cons_self⟩
    · obtain ⟨place, hfile, hmem⟩ := ih (scope.after first) hrest
      exact ⟨place, hfile.trans (scope.file_after first), List.mem_cons_of_mem _ hmem⟩

/-- Over several files, every command of a file is lowered there. -/
theorem exists_mem_trace_files {sources : List (String × List String)} {file : String}
    {lines : List String} {command : Command} (scope : Scope) (boot : Bool)
    (hsource : (file, lines) ∈ sources) (hcommand : command ∈ executed lines) :
    ∃ place : Scope, place.file = file ∧
      (place, Event.command command) ∈ trace scope (fileEvents boot sources) := by
  induction sources generalizing scope boot with
  | nil => cases hsource
  | cons source sources ih =>
    obtain ⟨first, text⟩ := source
    rw [fileEvents, trace, trace_append]
    rcases List.mem_cons.mp hsource with heq | hrest
    · cases heq
      obtain ⟨place, hfile, hmem⟩ := exists_mem_trace (scope.enterFile file) hcommand
      refine ⟨place, hfile, List.mem_cons_of_mem _ (List.mem_append_left _ ?_)⟩
      rw [Operation.events, trace_append, Scope.afterEvents_ite]
      exact List.mem_append_right _ hmem
    · obtain ⟨place, hfile, hmem⟩ := ih _ false hrest
      exact ⟨place, hfile, List.mem_cons_of_mem _ (List.mem_append_right _ hmem)⟩

/-- The code of a push or pop of a static variable loads its symbol. -/
theorem reference_mem_emitted {command : Command} {index : Word} (scope : Scope)
    (h : command.Moves .static index) (hcheck : command.check = .ok ()) :
    Statement.reference (scope.staticName index) ∈ command.emitted scope := by
  have hcode := Command.code_of_compile (Command.compile_of_check scope hcheck)
  rcases h with rfl | rfl
  · rw [← Except.ok.inj hcode]
    exact List.mem_cons_self
  · rw [← Except.ok.inj hcode]
    exact List.mem_append_right Code.popD List.mem_cons_self

/-- The code of files loads the symbol of every static variable that they access. -/
theorem reference_mem_files {start entry : String} {boot : Bool}
    {sources : List (String × List String)} {program : List Statement} {file : String}
    {index : Word} (hprogram : (Lowering.ofFile start entry).files boot sources = .ok program)
    (h : AccessesStatic sources file index) :
    Statement.reference (file ++ "." ++ toString index.toNat) ∈ program := by
  obtain ⟨lines, command, hsource, hcommand, hmoves⟩ := h
  obtain ⟨place, rfl, hmem⟩ := exists_mem_trace_files (.ofFile start) boot hsource hcommand
  rw [(Lowering.holds_ofFile start entry).files hprogram, ← place.staticName_eq]
  exact List.mem_flatMap.mpr
    ⟨_, hmem, reference_mem_emitted place hmoves (check_of_mem_executed hcommand)⟩

/-- If the code of files assembles, every static variable that they access is a
variable in a cell behind the registers, unless its symbol is a label of the code.
Two of them have the same cell exactly if they are the same variable of the same
file. -/
theorem static_variables_apart {start entry : String} {boot : Bool}
    {sources : List (String × List String)} {program : List Statement} {placed : List Placed}
    {words : List Word} {file other : String} {index otherIndex : Word}
    (hprogram : (Lowering.ofFile start entry).files boot sources = .ok program)
    (hplaced : statements placed = program)
    (hwords : (assembleProgram .predefined placed).2 = .ok words)
    (haccess : AccessesStatic sources file index)
    (haccess' : AccessesStatic sources other otherIndex)
    (hlabel : Statement.label (file ++ "." ++ toString index.toNat) ∉ program)
    (hlabel' : Statement.label (other ++ "." ++ toString otherIndex.toNat) ∉ program) :
    ∃ cell cell' : Word,
      IsVariable placed words (file ++ "." ++ toString index.toNat) cell ∧
      IsVariable placed words (other ++ "." ++ toString otherIndex.toNat) cell' ∧
      16 ≤ cell.toNat ∧ 16 ≤ cell'.toNat ∧
      (cell = cell' ↔ file = other ∧ index = otherIndex) := by
  subst hplaced
  have hvariable {file : String} {index : Word} (haccess : AccessesStatic sources file index)
      (hlabel : Statement.label (file ++ "." ++ toString index.toNat) ∉ statements placed) :
      ∃ cell, IsVariable placed words (file ++ "." ++ toString index.toNat) cell :=
    exists_isVariable hwords (reference_mem_files hprogram haccess)
      ⟨(Scope.ofFile file).predefinedAddress?_staticName index, hlabel⟩
  obtain ⟨cell, hcell⟩ := hvariable haccess hlabel
  obtain ⟨cell', hcell'⟩ := hvariable haccess' hlabel'
  refine ⟨cell, cell', hcell, hcell', hcell.le_toNat, hcell'.le_toNat, ?_⟩
  rw [hcell.cell_eq_iff hcell', dotted_inj, BitVec.toNat_inj]

/-- Two files, one of which is named like a function of the other, with a static
variable each. -/
def sampleDotted : List (String × List String) :=
  [("A", ["function A.1 0", "push static 12"]), ("A.1", ["pop static 2"])]

theorem sampleDotted_apart :
    ∃ program placed words cell cell',
      (Lowering.ofFile "" "Sys.init").files false sampleDotted = .ok program ∧
        statements placed = program ∧ (assembleProgram .predefined placed).2 = .ok words ∧
        IsVariable placed words "A.12" cell ∧ IsVariable placed words "A.1.2" cell' ∧
        cell ≠ cell' := by
  have hlabels : ((Lowering.ofFile "" "Sys.init").files false sampleDotted).map labelNames =
      .ok ["A.1"] := by decide +kernel
  have hassembles : ((Lowering.ofFile "" "Sys.init").files false sampleDotted).map (fun program =>
      (assembleProgram .predefined (program.map (Placed.mk 0))).2.isOk) = .ok true := by
    decide +kernel
  cases hprogram : (Lowering.ofFile "" "Sys.init").files false sampleDotted with
  | error fault => rw [hprogram] at hlabels; cases hlabels
  | ok program =>
    rw [hprogram] at hlabels hassembles
    obtain ⟨placed, words, hplaced, hwords⟩ := exists_words (Except.ok.inj hassembles)
    have hnames : labelNames program = ["A.1"] := Except.ok.inj hlabels
    have haccess : AccessesStatic sampleDotted "A" 12 :=
      ⟨_, .push .static 12, List.mem_cons_self, by decide +kernel, .inl rfl⟩
    have haccess' : AccessesStatic sampleDotted "A.1" 2 :=
      ⟨_, .pop .static 2, List.mem_cons_of_mem _ List.mem_cons_self, by decide +kernel, .inr rfl⟩
    obtain ⟨cell, cell', hcell, hcell', -, -, hsame⟩ :=
      static_variables_apart hprogram hplaced hwords haccess haccess'
        (by rw [← mem_labelNames, hnames]; decide) (by rw [← mem_labelNames, hnames]; decide)
    refine ⟨program, placed, words, cell, cell', rfl, hplaced, hwords, hcell, hcell', ?_⟩
    rw [Ne, hsame]
    decide

end HK16.Bytecode
