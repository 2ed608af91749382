import HK16.Proofs.Placement

/-!
# Renaming the symbols of a program

The names of labels and variables are the program's own choice. Assembly looks
at them only to see which are the same and which are predefined. If the others
are replaced by different names, none of which is predefined, every label keeps
its position, variables keep the order of their first use, and the words stay
what they were. A label may take the name of a variable and the other way round.
What a fault says about a name is not followed here.
-/

namespace HK16.Assembly

open SymbolTable

/-- The name that a symbol gets. Predefined names are kept. -/
def newName (rename : String → String) (name : String) : String :=
  if predefinedAddress? name = none then rename name else name

/-- The statement with a new name in place of its symbol or label. -/
def Statement.rename (rename : String → String) : Statement → Statement
  | .address (.symbol name) => .reference (newName rename name)
  | .label name => .label (newName rename name)
  | statement => statement

/-- A statement at its place in the source with a new name. -/
def Placed.rename (rename : String → String) (placed : Placed) : Placed :=
  { placed with statement := placed.statement.rename rename }

/-- The code declares the name or refers to it. -/
def Mentions (code : List Statement) (name : String) : Prop :=
  Statement.label name ∈ code ∨ Statement.reference name ∈ code

/-- The names that the code declares or refers to and that are not predefined. -/
def userNames (code : List Statement) : List String :=
  (labelNames code ++ references code).filter fun name => predefinedAddress? name = none

/-- New names for the labels and variables of a code. -/
structure IsRenaming (rename : String → String) (code : List Statement) : Prop where
  /-- Different names stay different, also a label's and a variable's. -/
  injective : ∀ name ∈ userNames code, ∀ other ∈ userNames code,
    rename name = rename other → name = other
  /-- No new name is predefined. -/
  unreserved : ∀ name ∈ userNames code, predefinedAddress? (rename name) = none

instance (rename : String → String) (code : List Statement) :
    Decidable (IsRenaming rename code) :=
  decidable_of_iff (_ ∧ _) ⟨fun h => ⟨h.1, h.2⟩, fun h => ⟨h.injective, h.unreserved⟩⟩

theorem mem_userNames {code : List Statement} {name : String} :
    name ∈ userNames code ↔ Mentions code name ∧ predefinedAddress? name = none := by
  rw [userNames, List.mem_filter, List.mem_append, mem_labelNames, mem_references,
    decide_eq_true_iff]
  rfl

/-- New names make no instruction and take none away. -/
@[simp] theorem isInstruction_rename (rename : String → String) (statement : Statement) :
    (statement.rename rename).isInstruction = statement.isInstruction := by
  rcases statement with (value | name) | label | fields <;> rfl

/-- The references of a renamed code are the new names of the references. -/
theorem references_rename (rename : String → String) (code : List Statement) :
    references (code.map (Statement.rename rename)) =
      (references code).map (newName rename) := by
  rw [references, references, List.filterMap_map, List.map_filterMap]
  refine List.filterMap_congr fun statement _ => ?_
  rcases statement with (value | name) | label | fields <;> rfl

namespace IsRenaming

variable {rename : String → String} {code : List Statement} {name other : String}

/-- A new name is predefined exactly if the old one was, with the same address. -/
theorem predefinedAddress?_newName (h : IsRenaming rename code) (hname : Mentions code name) :
    predefinedAddress? (newName rename name) = predefinedAddress? name := by
  rw [newName]
  split
  · next hp =>
    rw [hp]
    exact h.unreserved name (mem_userNames.mpr ⟨hname, hp⟩)
  · rfl

/-- No two names of the code become the same, predefined ones included. -/
theorem newName_inj (h : IsRenaming rename code) (hname : Mentions code name)
    (hother : Mentions code other) : newName rename name = newName rename other ↔ name = other := by
  refine ⟨fun heq => ?_, congrArg (newName rename)⟩
  have hsame : predefinedAddress? name = predefinedAddress? other := by
    rw [← h.predefinedAddress?_newName hname, heq, h.predefinedAddress?_newName hother]
  by_cases hp : predefinedAddress? name = none
  · have hp' : predefinedAddress? other = none := hsame ▸ hp
    rw [newName, newName, if_pos hp, if_pos hp'] at heq
    exact h.injective name (mem_userNames.mpr ⟨hname, hp⟩) other
      (mem_userNames.mpr ⟨hother, hp'⟩) heq
  · have hp' : ¬predefinedAddress? other = none := hsame ▸ hp
    rwa [newName, newName, if_neg hp, if_neg hp'] at heq

/-- The declarations of a label are those of its new name. -/
theorem rename_eq_label_iff (h : IsRenaming rename code) (hname : Mentions code name)
    {statement : Statement} (hs : statement ∈ code) :
    statement.rename rename = .label (newName rename name) ↔ statement = .label name := by
  rcases statement with (value | symbol) | label | fields
  · exact ⟨nofun, nofun⟩
  · exact ⟨nofun, nofun⟩
  · rw [Statement.rename, Statement.label.injEq, Statement.label.injEq]
    exact h.newName_inj (.inl hs) hname
  · exact ⟨nofun, nofun⟩

/-- A label keeps its position under its new name. -/
theorem labelPosition?_rename (h : IsRenaming rename code) (hname : Mentions code name) :
    labelPosition? (newName rename name) (code.map (Statement.rename rename)) =
      labelPosition? name code :=
  labelPosition?_map (fun statement _ => isInstruction_rename rename statement)
    fun _ hs => h.rename_eq_label_iff hname hs

/-- A symbol is free under its new name exactly if it was free. -/
theorem isFree_rename (h : IsRenaming rename code) (hname : Mentions code name) :
    IsFree (code.map (Statement.rename rename)) (newName rename name) ↔ IsFree code name := by
  rw [IsFree, IsFree, ← labelPosition?_eq_none_iff, ← labelPosition?_eq_none_iff,
    h.predefinedAddress?_newName hname, h.labelPosition?_rename hname]

/-- The free references keep their order. -/
theorem freeReferences_rename (h : IsRenaming rename code) :
    freeReferences (code.map (Statement.rename rename)) =
      (freeReferences code).map (newName rename) := by
  rw [freeReferences, references_rename, List.filter_map, freeReferences]
  refine congrArg (List.map (newName rename)) (List.filter_congr fun name hname => ?_)
  rw [Function.comp_apply, decide_eq_decide]
  exact h.isFree_rename (.inr (mem_references.mp hname))

/-- New names of references are different. -/
theorem injOn_references (h : IsRenaming rename code) :
    Set.InjOn (newName rename) {name | name ∈ references code} := by
  intro name hname other hother heq
  exact (h.newName_inj (.inr (mem_references.mp hname)) (.inr (mem_references.mp hother))).mp heq

/-- A symbol stands for the same address under its new name. -/
theorem symbolAddress_rename (h : IsRenaming rename code) (hname : name ∈ references code) :
    symbolAddress (code.map (Statement.rename rename)) (newName rename name) =
      symbolAddress code name := by
  have hmentions : Mentions code name := .inr (mem_references.mp hname)
  have hinj : Set.InjOn (newName rename) (insert name {other | other ∈ freeReferences code}) := by
    refine h.injOn_references.mono (Set.insert_subset hname ?_)
    exact fun other hother => (List.mem_filter.mp hother).1
  rw [symbolAddress, symbolAddress, h.predefinedAddress?_newName hmentions,
    h.labelPosition?_rename hmentions, h.freeReferences_rename, firstIndex_map hinj]

/-- Every statement asks for the same number as before. -/
theorem wordValue_rename (h : IsRenaming rename code) {statement : Statement}
    (hs : statement ∈ code) :
    wordValue (code.map (Statement.rename rename)) (statement.rename rename) =
      wordValue code statement := by
  rcases statement with (value | name) | label | fields
  · rfl
  · exact h.symbolAddress_rename (mem_references.mpr hs)
  · rfl
  · rfl

/-- A statement has a word exactly if it had one before. -/
theorem hasWord_rename (h : IsRenaming rename code) {statement : Statement}
    (hs : statement ∈ code) :
    HasWord (code.map (Statement.rename rename)) (statement.rename rename) ↔
      HasWord code statement := by
  have hvalue := h.wordValue_rename hs
  rcases statement with (value | name) | label | fields
  · exact Iff.rfl
  · exact iff_of_eq (congrArg (· ≤ Instruction.addressMax) hvalue)
  · exact Iff.rfl
  · exact Iff.rfl

end IsRenaming

theorem statements_rename (rename : String → String) (program : List Placed) :
    statements (program.map (Placed.rename rename)) =
      (statements program).map (Statement.rename rename) := by
  rw [statements, statements, List.map_map, List.map_map]
  rfl

/-- A program whose labels and variables get new names assembles to the same
words as before, with the predefined names, and to none if it did not assemble
before. -/
theorem assembleProgram_rename {rename : String → String} {program : List Placed}
    (h : IsRenaming rename (statements program)) (words : List Word) :
    (assembleProgram .predefined (program.map (Placed.rename rename))).2 = .ok words ↔
      (assembleProgram .predefined program).2 = .ok words := by
  rw [assembleProgram_eq_ok_iff, assembleProgram_eq_ok_iff, statements_rename]
  have hkept : ∀ statement ∈ statements program,
      (statement.rename rename).isInstruction = statement.isInstruction :=
    fun statement _ => isInstruction_rename rename statement
  have hcells :
      (freeReferences ((statements program).map (Statement.rename rename))).toFinset.card =
        (freeReferences (statements program)).toFinset.card := by
    rw [h.freeReferences_rename, card_toFinset_map]
    exact h.injOn_references.mono fun name hname => (List.mem_filter.mp hname).1
  rw [wordCount_map hkept, hcells, filter_isInstruction_map hkept, List.forall₂_map_left_iff]
  refine and_congr_right fun _ => and_congr_right fun _ => ?_
  refine forall₂_congr_of_mem fun statement hs word => ?_
  have hmem := (List.mem_filter.mp hs).1
  rw [h.wordValue_rename hmem, h.hasWord_rename hmem]

/-- A program with a label, two variables and a predefined name. -/
def sampleSymbols : List Placed :=
  [.reference "i", .label "LOOP", .reference "j", .reference "LOOP", .reference "SP",
    .reference "i"].map (Placed.mk 0)

/-- The label and a variable exchange their names. -/
def sampleExchange : String → String
  | "LOOP" => "i"
  | "i" => "LOOP"
  | name => name

theorem sampleSymbols_exchanged :
    IsRenaming sampleExchange (statements sampleSymbols) ∧
      (sampleSymbols.map (Placed.rename sampleExchange)).head?.map Placed.statement =
        some (.reference "LOOP") ∧
      (assembleProgram .predefined (sampleSymbols.map (Placed.rename sampleExchange))).2 =
        .ok [16, 17, 1, 0, 16] := by
  have hrenaming : IsRenaming sampleExchange (statements sampleSymbols) := by decide +kernel
  refine ⟨hrenaming, by decide +kernel, ?_⟩
  rw [assembleProgram_rename hrenaming]
  decide +kernel

end HK16.Assembly
