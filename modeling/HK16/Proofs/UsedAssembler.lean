import HK16.Proofs.Placement
import HK16.Proofs.Requests

/-!
# Programs of an assembler that has been used

An assembler that has seen other programs may know symbols of a program already,
so that their addresses depend on its history. Labels do not: every program binds
its own. If the symbols that a program neither declares nor finds predefined are
replaced by the addresses in the table, a new assembler makes the same words of
the program. What holds of assembled programs therefore also holds of those that
come from a used assembler, as long as it does not depend on variables.
-/

namespace HK16.Assembly

open SymbolTable

/-! ## Which names are predefined -/

/-- The table takes only the names of the memory map for predefined. -/
def OnlyPredefined (table : SymbolTable) : Prop :=
  ∀ name, table.kind? name = some .predefined → predefinedAddress? name ≠ none

/-- Neither labels nor variables are predefined. -/
theorem OnlyPredefined.kept : Kept OnlyPredefined where
  bindLabel h label _ _ name hname :=
    h name ((kind?_bindLabel_predefined _ label name _).mp hname)
  withVariable h variableName _ _ name hname := by
    rw [kind?, find?_withVariable] at hname
    split at hname
    · cases hname
    · exact h name hname

/-- A name that is not predefined is never taken for one. -/
theorem kind?_afterAll_ne {name : String} (h : predefinedAddress? name = none)
    (requests : List Request) :
    (SymbolTable.predefined.afterAll requests).kind? name ≠ some .predefined := by
  have hnew : OnlyPredefined .predefined := by
    intro other hother hnone
    rw [kind?, find?_predefined, hnone] at hother
    cases hother
  exact fun hkind => OnlyPredefined.kept.afterAll hnew requests name hkind h

/-! ## The walks from any table -/

/-- What assembles has taken all three walks, and its words are those under the
table that remains. -/
theorem walks_of_assembleProgram {table : SymbolTable} {program : List Placed} {words : List Word}
    (h : (assembleProgram table program).2 = .ok words) :
    (bindLabels table program).2 = .ok () ∧
      (allocateVariables (bindLabels table program).1 program).2 = .ok () ∧
      (assembleProgram table program).1 =
        (allocateVariables (bindLabels table program).1 program).1 ∧
      encodeAll (assembleProgram table program).1 program = .ok words := by
  rw [assembleProgram] at h ⊢
  generalize bindLabels table program = first at h ⊢
  rcases first with ⟨bound, fault | ⟨⟩⟩
  · cases h
  · dsimp only at h ⊢
    generalize allocateVariables bound program = second at h ⊢
    rcases second with ⟨resolved, fault | ⟨⟩⟩
    · cases h
    · exact ⟨rfl, rfl, rfl, h⟩

/-- After assembly a declared label has the address of its last declaration. -/
theorem address?_of_labelPosition? {table : SymbolTable} {program : List Placed}
    {words : List Word} {name : String} {position : Nat}
    (h : (assembleProgram table program).2 = .ok words)
    (hkind : table.kind? name ≠ some .predefined)
    (hposition : labelPosition? name (statements program) = some position) :
    (assembleProgram table program).1.address? name = some (BitVec.ofNat 16 position) := by
  obtain ⟨hbind, hallocate, htable, -⟩ := walks_of_assembleProgram h
  have hbound : (bindLabels table program).1.find? name =
      some ⟨name, .label, BitVec.ofNat 16 position⟩ := by
    rw [bindLabels, find?_bindLabelsFrom table program name hbind, if_neg hkind, hposition]
    dsimp only
    rw [Nat.zero_add]
  rw [htable, address?, find?_allocateVariables _ program name hallocate, hbound]
  rfl

/-! ## Programs without variables -/

/-- The statement with a symbol that is free in the code replaced by its address
in the table. -/
def Statement.settle (table : SymbolTable) (code : List Statement) : Statement → Statement
  | .address (.symbol name) =>
    if IsFree code name then .constant ((table.address? name).getD 0) else .reference name
  | statement => statement

/-- The code with its free symbols replaced by their addresses in the table. -/
def settled (table : SymbolTable) (code : List Statement) : List Statement :=
  code.map (Statement.settle table code)

section Settled

variable (table : SymbolTable) (code : List Statement)

/-- Replacing a symbol makes no instruction and takes none away. -/
@[simp] theorem isInstruction_settle (statement : Statement) :
    (statement.settle table code).isInstruction = statement.isInstruction := by
  rcases statement with (value | name) | label | fields
  · rfl
  · rw [Statement.settle]
    split <;> rfl
  · rfl
  · rfl

/-- Replacing a symbol makes no label and takes none away. -/
@[simp] theorem settle_eq_label_iff {statement : Statement} {name : String} :
    statement.settle table code = .label name ↔ statement = .label name := by
  rcases statement with (value | other) | label | fields
  · exact Iff.rfl
  · rw [Statement.settle]
    split <;> exact ⟨nofun, nofun⟩
  · exact Iff.rfl
  · exact Iff.rfl

/-- A statement that loads no free symbol stays as it is. -/
theorem settle_eq_self {statement : Statement}
    (h : ∀ name, statement = .address (.symbol name) → ¬IsFree code name) :
    statement.settle table code = statement := by
  rcases statement with (value | name) | label | fields
  · rfl
  · exact if_neg (h name rfl)
  · rfl
  · rfl

theorem wordCount_map_settle (part : List Statement) :
    wordCount (part.map (Statement.settle table code)) = wordCount part :=
  wordCount_map fun statement _ => isInstruction_settle table code statement

theorem labelPosition?_map_settle (name : String) (part : List Statement) :
    labelPosition? name (part.map (Statement.settle table code)) = labelPosition? name part :=
  labelPosition?_map (fun statement _ => isInstruction_settle table code statement)
    fun _ _ => settle_eq_label_iff table code

theorem label_mem_settled {name : String} :
    Statement.label name ∈ settled table code ↔ Statement.label name ∈ code := by
  rw [settled, List.mem_map]
  constructor
  · rintro ⟨statement, hmem, heq⟩
    rwa [(settle_eq_label_iff table code).mp heq] at hmem
  · exact fun hmem => ⟨_, hmem, rfl⟩

/-- The labels of a code do not change. -/
theorem labelNames_settled : labelNames (settled table code) = labelNames code := by
  rw [settled, labelNames, labelNames, List.filterMap_map]
  refine List.filterMap_congr fun statement _ => ?_
  rcases statement with (value | name) | label | fields
  · rfl
  · by_cases hfree : IsFree code name
    · simp only [Function.comp_apply, Statement.settle, if_pos hfree, Statement.constant]
    · simp only [Function.comp_apply, Statement.settle, if_neg hfree, Statement.reference]
  · rfl
  · rfl

/-- No symbol of the code is free any more. -/
theorem freeReferences_settled : freeReferences (settled table code) = [] := by
  rw [freeReferences, List.filter_eq_nil_iff]
  intro name hname hfree
  rw [mem_references, settled, List.mem_map] at hname
  obtain ⟨statement, -, heq⟩ := hname
  rw [decide_eq_true_eq, IsFree, label_mem_settled] at hfree
  rcases statement with (value | other) | label | fields
  · cases heq
  · rw [Statement.settle] at heq
    split at heq
    · cases heq
    · next hbound =>
      cases heq
      exact hbound hfree
  · cases heq
  · cases heq

end Settled

/-- In the code without free symbols every statement has the word that the used
assembler gives it, if that knows the predefined names and the labels of the code. -/
theorem wordValue_settle {table : SymbolTable} {code : List Statement} {statement : Statement}
    {word : Word} (hsound : table.Sound) (hcount : wordCount code ≤ 32768)
    (hlabels : ∀ name position, predefinedAddress? name = none →
      labelPosition? name code = some position →
        table.address? name = some (BitVec.ofNat 16 position))
    (h : encode table statement = .ok word) :
    word.toNat = wordValue (settled table code) (statement.settle table code) ∧
      HasWord (settled table code) (statement.settle table code) := by
  have hload {value : Word} (hle : value.toNat ≤ Instruction.addressMax)
      (hword : Except.ok (Instruction.load value).encode = (.ok word : Except Fault Word)) :
      word.toNat = value.toNat := by
    rw [← Except.ok.inj hword, Instruction.toNat_encode_load hle]
  rcases statement with (value | name) | label | fields
  · rw [encode] at h
    dsimp only [Operand.value?] at h
    split at h
    · next hle => exact ⟨hload hle h, hle⟩
    · cases h
  · rw [encode] at h
    dsimp only [Operand.value?] at h
    split at h
    · next value hvalue =>
      split at h
      · next hle =>
        have hword := hload hle h
        rw [Statement.settle]
        split
        · rw [hvalue]
          exact ⟨hword, hle⟩
        · next hbound =>
          -- The name is predefined or declared, so the table has what it stands for.
          have haddress : symbolAddress (settled table code) name = value.toNat := by
            rw [symbolAddress, settled, labelPosition?_map_settle]
            cases hp : predefinedAddress? name with
            | some address =>
              rw [address?, hsound.find?_predefined hp] at hvalue
              cases hvalue
              rfl
            | none =>
              cases hl : labelPosition? name code with
              | none => exact absurd ⟨hp, labelPosition?_eq_none_iff.mp hl⟩ hbound
              | some position =>
                have hle := labelPosition?_le hl
                rw [hlabels name position hp hl] at hvalue
                cases hvalue
                dsimp only
                rw [BitVec.toNat_ofNat, Nat.mod_eq_of_lt (by omega)]
          have hnumber : wordValue (settled table code) (.reference name) = value.toNat := haddress
          refine ⟨hword.trans hnumber.symm, ?_⟩
          rw [Statement.reference, HasWord]
          exact hnumber.trans_le hle
      · cases h
    · cases h
  · cases h
  · cases h
    exact ⟨fields.toNat_encode, trivial⟩

/-- What a used assembler makes of a program is what a new one makes of the
program without its free symbols. -/
theorem assembled_settled {requests : List Request} {program : List Placed} {words : List Word}
    {rom : Machine.Rom}
    (hwords : (assembleProgram (SymbolTable.predefined.afterAll requests) program).2 = .ok words)
    (hrom : Machine.Rom.ofWords words = .ok rom) :
    Assembled (settled (assembleProgram (SymbolTable.predefined.afterAll requests) program).1
      (statements program)) rom := by
  generalize hused : SymbolTable.predefined.afterAll requests = used at hwords ⊢
  have hsound : used.Sound := hused ▸ sound_predefined.afterAll requests
  obtain ⟨hbind, -, -, hencode⟩ := walks_of_assembleProgram hwords
  have hcount : wordCount (statements program) ≤ 32768 := by
    rw [bindLabels, bindLabelsFrom_eq_ok_iff _ _ (Nat.zero_le _), Nat.zero_add] at hbind
    exact hbind
  have hlabels : ∀ name position, predefinedAddress? name = none →
      labelPosition? name (statements program) = some position →
        (assembleProgram used program).1.address? name = some (BitVec.ofNat 16 position) :=
    fun name position hp => address?_of_labelPosition? hwords
      (hused ▸ kind?_afterAll_ne hp requests)
  have hresolved := Sound.kept.assembleProgram hsound program
  generalize (assembleProgram used program).1 = table at hencode hlabels hresolved ⊢
  have hstatements : statements ((settled table (statements program)).map (Placed.mk 0)) =
      settled table (statements program) := by
    rw [statements, List.map_map]
    exact List.map_id _
  refine ⟨(settled table (statements program)).map (Placed.mk 0), words, hstatements, ?_, hrom⟩
  rw [assembleProgram_eq_ok_iff, hstatements]
  refine ⟨?_, ?_, ?_⟩
  · rw [settled, wordCount_map_settle]
    exact hcount
  · rw [freeReferences_settled]
    exact Nat.zero_le _
  · rw [settled, filter_isInstruction_map fun statement _ => isInstruction_settle table _ statement,
      List.forall₂_map_left_iff]
    exact (encodeAll_eq_ok_iff.mp hencode).imp fun statement word hword =>
      wordValue_settle hresolved hcount hlabels hword

/-- Code that loads no free symbol of the program stands in the program without
free symbols where it stands in the program. -/
theorem codeAt_settled {table : SymbolTable} {program code : List Statement} {address : Nat}
    (h : CodeAt program address code) (hbound : ∀ name ∈ references code, ¬IsFree program name) :
    CodeAt (settled table program) address code := by
  obtain ⟨before, after, hsplit, rfl⟩ := h
  have hcode : code.map (Statement.settle table program) = code := by
    refine (List.map_congr_left fun statement hmem => ?_).trans (List.map_id code)
    refine settle_eq_self table program fun name hname => hbound name ?_
    rw [mem_references, ← hname]
    exact hmem
  refine ⟨before.map (Statement.settle table program), after.map (Statement.settle table program),
    ?_, (wordCount_map_settle table program before).symm⟩
  have hmap := congrArg (List.map (Statement.settle table program)) hsplit
  rw [List.map_append, List.map_append, hcode] at hmap
  exact hmap

end HK16.Assembly
