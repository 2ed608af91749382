import HK16.Assembly.Program
import HK16.Proofs.Instruction
import HK16.Proofs.SymbolTable
import Mathlib.Data.Finset.Card
import Mathlib.Data.List.Forall2

/-!
# The layout of an assembled program

An assembled program is described in one go: every instruction takes one word,
a label stands for the number of instructions in front of its last declaration,
and the remaining symbols take cells in the order of their first use. The three
walks of the assembler succeed exactly if this description fits the machine,
and then produce the described words. Faults and their lines are not described.
-/

namespace HK16.Assembly

open SymbolTable

/-- The statements of a program without their places in the source. -/
def statements (program : List Placed) : List Statement := program.map Placed.statement

/-- The number of words that a code takes. -/
def wordCount (code : List Statement) : Nat := code.countP Statement.isInstruction

@[simp] theorem wordCount_nil : wordCount [] = 0 := rfl

@[simp] theorem wordCount_append (code rest : List Statement) :
    wordCount (code ++ rest) = wordCount code + wordCount rest :=
  List.countP_append

theorem wordCount_cons (statement : Statement) (code : List Statement) :
    wordCount (statement :: code) = wordCount code + if statement.isInstruction then 1 else 0 :=
  List.countP_cons

@[simp] theorem wordCount_cons_label (name : String) (code : List Statement) :
    wordCount (.label name :: code) = wordCount code := rfl

/-- A change that makes no instruction and takes none away keeps the number of
words. -/
theorem wordCount_map {change : Statement → Statement} {code : List Statement}
    (h : ∀ statement ∈ code, (change statement).isInstruction = statement.isInstruction) :
    wordCount (code.map change) = wordCount code := by
  rw [wordCount, List.countP_map]
  exact List.countP_congr fun statement hmem => by rw [Function.comp_apply, h statement hmem]

/-- A change that keeps instructions and labels apart changes the instructions one
by one. -/
theorem filter_isInstruction_map {change : Statement → Statement} {code : List Statement}
    (h : ∀ statement ∈ code, (change statement).isInstruction = statement.isInstruction) :
    (code.map change).filter Statement.isInstruction =
      (code.filter Statement.isInstruction).map change := by
  rw [List.filter_map]
  exact congrArg (List.map change) (List.filter_congr h)

/-- The number of instructions in front of the last declaration of a label. -/
def labelPosition? (name : String) : List Statement → Option Nat
  | [] => none
  | statement :: code =>
    match labelPosition? name code with
    | some position => some (wordCount [statement] + position)
    | none => if statement = .label name then some 0 else none

/-- The symbols that a code refers to, in order and with repetitions. -/
def references (code : List Statement) : List String :=
  code.filterMap fun
    | .address (.symbol name) => some name
    | _ => none

/-- A symbol is free in a code if it is neither predefined nor declared there. -/
def IsFree (code : List Statement) (name : String) : Prop :=
  predefinedAddress? name = none ∧ Statement.label name ∉ code

instance (code : List Statement) (name : String) : Decidable (IsFree code name) :=
  inferInstanceAs (Decidable (_ ∧ _))

/-- The free symbols that a code refers to, in order and with repetitions. -/
def freeReferences (code : List Statement) : List String :=
  (references code).filter fun name => IsFree code name

/-- The number of different items in front of the first occurrence of an item. -/
def firstIndex {α : Type} [DecidableEq α] (items : List α) (item : α) : Nat :=
  (items.takeWhile (· ≠ item)).toFinset.card

/-- What a symbol stands for: its predefined address, else the number of
instructions in front of its last declaration, else the cell that its place
among the free symbols gives it. -/
def symbolAddress (code : List Statement) (name : String) : Nat :=
  match predefinedAddress? name with
  | some address => address.toNat
  | none =>
    match labelPosition? name code with
    | some position => position
    | none => MemoryMap.variableBase + firstIndex (freeReferences code) name

/-- The number that is the word of an instruction of a code. A compute word has
three set bits in front of its three fields. -/
def wordValue (code : List Statement) : Statement → Nat
  | .address (.literal value) => value.toNat
  | .address (.symbol name) => symbolAddress code name
  | .compute c =>
    0b111 * 8192 + c.comp.control.toNat * 64 + c.dest.bits.toNat * 8 +
      (Jump.fieldBits c.jump).toNat
  | .label _ => 0

/-- The words of a code as numbers, one for each instruction in order. -/
def image (code : List Statement) : List Nat :=
  (code.filter Statement.isInstruction).map (wordValue code)

/-- What the machine asks of a code. -/
structure Assemblable (code : List Statement) : Prop where
  /-- The instructions fit in program memory. -/
  words : wordCount code ≤ 32768
  /-- There is a cell for every free symbol. -/
  cells : (freeReferences code).toFinset.card ≤ 32752
  /-- Constants have fifteen bits. -/
  literals : ∀ value, Statement.address (.literal value) ∈ code → value.toNat ≤ 32767
  /-- A label that is referred to stands in front of an instruction that fits. -/
  labels : ∀ name ∈ references code, predefinedAddress? name = none →
    ∀ position, labelPosition? name code = some position → position < 32768

/-! ## Positions of labels -/

/-- A label has no position exactly if it is not declared. -/
theorem labelPosition?_eq_none_iff {name : String} {code : List Statement} :
    labelPosition? name code = none ↔ Statement.label name ∉ code := by
  induction code with
  | nil => simp [labelPosition?]
  | cons statement code ih =>
    rw [labelPosition?, List.mem_cons, not_or, ← ih]
    cases labelPosition? name code with
    | some position => simp
    | none =>
      by_cases hs : statement = .label name
      · simp [hs]
      · simp [hs, Ne.symm hs]

/-- The last declaration decides the position, and all code in front of it counts. -/
theorem labelPosition?_append_label {name : String} {before after : List Statement}
    (h : Statement.label name ∉ after) :
    labelPosition? name (before ++ .label name :: after) = some (wordCount before) := by
  induction before with
  | nil =>
    have hnone := labelPosition?_eq_none_iff.mpr h
    simp [labelPosition?, hnone]
  | cons statement before ih =>
    rw [List.cons_append, labelPosition?, ih, wordCount_cons, wordCount_cons]
    simp only [wordCount_nil, Nat.zero_add, Nat.add_comm]

/-- A declared label stands behind as many instructions as its position says. -/
theorem exists_of_labelPosition? {name : String} {code : List Statement} {position : Nat}
    (h : labelPosition? name code = some position) :
    ∃ before after, code = before ++ .label name :: after ∧ Statement.label name ∉ after ∧
      position = wordCount before := by
  induction code generalizing position with
  | nil => simp [labelPosition?] at h
  | cons statement code ih =>
    rw [labelPosition?] at h
    cases hrest : labelPosition? name code with
    | some rest =>
      simp only [hrest, Option.some.injEq] at h
      obtain ⟨before, after, hcode, hlast, hcount⟩ := ih hrest
      refine ⟨statement :: before, after, by rw [hcode, List.cons_append], hlast, ?_⟩
      rw [← h, hcount, wordCount_cons, wordCount_cons, wordCount_nil]
      omega
    | none =>
      simp only [hrest, Option.ite_none_right_eq_some, Option.some.injEq] at h
      obtain ⟨rfl, rfl⟩ := h
      exact ⟨[], code, rfl, labelPosition?_eq_none_iff.mp hrest, rfl⟩

/-- A change that moves no declaration of a label, though it may give the label
another name, and keeps the instructions in front of it, keeps its position. -/
theorem labelPosition?_map {change : Statement → Statement} {name newName : String}
    {code : List Statement}
    (hcount : ∀ statement ∈ code, (change statement).isInstruction = statement.isInstruction)
    (hlabel : ∀ statement ∈ code, change statement = .label newName ↔ statement = .label name) :
    labelPosition? newName (code.map change) = labelPosition? name code := by
  induction code with
  | nil => rfl
  | cons statement code ih =>
    rw [List.forall_mem_cons] at hcount hlabel
    have hone : wordCount [change statement] = wordCount [statement] := by
      rw [wordCount_cons, wordCount_cons, hcount.1]
    rw [List.map_cons, labelPosition?, labelPosition?, ih hcount.2 hlabel.2, hone]
    simp only [hlabel.1]

/-- A position lies within the code or at its end. -/
theorem labelPosition?_le {name : String} {code : List Statement} {position : Nat}
    (h : labelPosition? name code = some position) : position ≤ wordCount code := by
  obtain ⟨before, after, rfl, -, rfl⟩ := exists_of_labelPosition? h
  rw [wordCount_append]
  omega

/-! ## The first walk -/

/-- Binding a label changes what its name denotes, unless it is predefined. -/
theorem find?_bindLabel (table : SymbolTable) (label name : String) (address : Word) :
    (table.bindLabel label address).find? name =
      if label = name ∧ table.kind? name ≠ some .predefined then some ⟨label, .label, address⟩
      else table.find? name := by
  unfold bindLabel
  by_cases hl : label = name
  · subst hl
    by_cases hk : table.kind? label = some .predefined
    · simp [hk]
    · simp [hk, find?_insert]
  · by_cases hk : table.kind? label = some .predefined
    · simp [hk, hl]
    · simp [hk, hl, find?_insert]

/-- Binding a label makes no name predefined, and keeps those that are. -/
theorem kind?_bindLabel_predefined (table : SymbolTable) (label name : String) (address : Word) :
    (table.bindLabel label address).kind? name = some .predefined ↔
      table.kind? name = some .predefined := by
  rw [kind?, find?_bindLabel]
  split
  · next h => simp [h.2]
  · rfl

/-- Binding a label takes no variable cell. -/
@[simp] theorem nextVariable_bindLabel (table : SymbolTable) (label : String) (address : Word) :
    (table.bindLabel label address).nextVariable = table.nextVariable := by
  unfold bindLabel
  split <;> simp

/-- The first walk succeeds exactly if the instructions fit behind those that
were counted already. -/
theorem bindLabelsFrom_eq_ok_iff {next : Nat} (table : SymbolTable) (program : List Placed)
    (h : next ≤ programMax) :
    (bindLabelsFrom next table program).2 = .ok () ↔
      next + wordCount (statements program) ≤ programMax := by
  induction program generalizing next table with
  | nil => simpa [bindLabelsFrom, statements] using h
  | cons placed program ih =>
    rw [bindLabelsFrom, statements, List.map_cons, wordCount_cons]
    split
    · next name hs =>
      rw [ih _ h, hs]
      simp [statements, Statement.isInstruction]
    · next hs =>
      have hi : placed.statement.isInstruction = true := by
        cases hp : placed.statement with
        | label name => exact absurd hp (hs name)
        | address operand => rfl
        | compute fields => rfl
      rw [hi, if_pos rfl]
      split
      · next hlt =>
        rw [ih _ hlt, statements]
        omega
      · simp only [reduceCtorEq, false_iff]
        omega

/-- After the first walk a name that was not predefined denotes the position of
its last declaration, if there is one. -/
theorem find?_bindLabelsFrom {next : Nat} (table : SymbolTable) (program : List Placed)
    (name : String) (h : (bindLabelsFrom next table program).2 = .ok ()) :
    (bindLabelsFrom next table program).1.find? name =
      if table.kind? name = some .predefined then table.find? name
      else
        match labelPosition? name (statements program) with
        | some position => some ⟨name, .label, BitVec.ofNat 16 (next + position)⟩
        | none => table.find? name := by
  induction program generalizing next table with
  | nil => simp [bindLabelsFrom, statements, labelPosition?]
  | cons placed program ih =>
    rw [bindLabelsFrom] at h ⊢
    rw [statements, List.map_cons, labelPosition?]
    split at h
    · next label hs =>
      simp only [hs] at h ⊢
      rw [ih _ h]
      simp only [kind?_bindLabel_predefined, find?_bindLabel, statements]
      by_cases hk : table.kind? name = some .predefined
      · simp [hk]
      · cases hrest : labelPosition? name (program.map Placed.statement) with
        | some position => simp [hk, wordCount_cons_label]
        | none =>
          by_cases hl : label = name
          · simp [hk, hl]
          · simp [hk, hl]
    · next hs =>
      have hne : placed.statement ≠ .label name := hs name
      have hone : wordCount [placed.statement] = 1 := by
        cases hp : placed.statement with
        | label other => exact absurd hp (hs other)
        | address operand => rfl
        | compute fields => rfl
      split at h
      · next hlt =>
        rw [if_pos hlt, ih _ h, statements]
        cases hrest : labelPosition? name (program.map Placed.statement) with
        | some position => simp only [hone, Nat.add_assoc]
        | none => simp only [hne, if_false]
      · cases h

/-- The first walk takes no variable cell. -/
theorem nextVariable_bindLabelsFrom (next : Nat) (table : SymbolTable) (program : List Placed) :
    (bindLabelsFrom next table program).1.nextVariable = table.nextVariable := by
  induction program generalizing next table with
  | nil => rfl
  | cons placed program ih =>
    rw [bindLabelsFrom]
    split
    · rw [ih, nextVariable_bindLabel]
    · split
      · exact ih _ _
      · rfl

/-! ## The second walk -/

/-- The different names of a list are its first one and those of the others. -/
theorem card_toFinset_cons (name : String) (names : List String) :
    (name :: names).toFinset.card = (names.filter (· ≠ name)).toFinset.card + 1 := by
  have hset : (name :: names).toFinset = insert name (names.filter (· ≠ name)).toFinset := by
    ext other
    by_cases h : other = name <;> simp [h]
  rw [hset, Finset.card_insert_of_notMem (by simp)]

/-- Before a later name stand the first name and those of the others before it. -/
theorem firstIndex_cons_of_ne {first name : String} (names : List String) (h : first ≠ name) :
    firstIndex (first :: names) name = firstIndex (names.filter (· ≠ first)) name + 1 := by
  have hcomm : (names.takeWhile (· ≠ name)).filter (· ≠ first) =
      (names.filter (· ≠ first)).takeWhile (· ≠ name) := by
    induction names with
    | nil => rfl
    | cons other names ih =>
      by_cases hn : other = name
      · subst hn
        simp [Ne.symm h]
      · by_cases hf : other = first
        · simpa [hn, hf, h] using ih
        · simpa [hn, hf] using ih
  rw [firstIndex, List.takeWhile_cons, if_pos (by simpa using h), card_toFinset_cons, hcomm,
    firstIndex]

/-- The symbols of a code that a table does not know, in order and with repetitions. -/
def unknownReferences (table : SymbolTable) (code : List Statement) : List String :=
  (references code).filter fun name => (table.find? name).isNone

/-- The table after a name has taken the next cell. -/
def withVariable (table : SymbolTable) (name : String) : SymbolTable :=
  { table.insert ⟨name, .variable, BitVec.ofNat 16 table.nextVariable⟩ with
    nextVariable := table.nextVariable + 1 }

/-- As long as cells are left, a name can take the next one. -/
theorem allocate_eq_ok {table : SymbolTable} (name : String)
    (h : table.nextVariable ≤ Instruction.addressMax) :
    table.allocate name =
      .ok (BitVec.ofNat 16 table.nextVariable, withVariable table name) := by
  simp only [allocate, if_pos h, withVariable, nextVariable_insert]

/-- Taking a cell gives the name that cell and leaves the other names alone. -/
theorem find?_withVariable (table : SymbolTable) (name other : String) :
    (withVariable table name).find? other =
      if name = other then some ⟨name, .variable, BitVec.ofNat 16 table.nextVariable⟩
      else table.find? other :=
  find?_insert table _ other

/-- Behind the first reference to a symbol, that symbol is known. -/
theorem unknownReferences_withVariable (table : SymbolTable) (name : String)
    (code : List Statement) :
    unknownReferences (withVariable table name) code =
      (unknownReferences table code).filter (· ≠ name) := by
  rw [unknownReferences, unknownReferences, List.filter_filter]
  refine List.filter_congr fun other _ => ?_
  rw [find?_withVariable]
  by_cases h : name = other
  · simp [h]
  · simp [h, Ne.symm h]

/-- Statements that refer to no symbol do not matter for the second walk. -/
theorem references_cons_of_ne {statement : Statement} (code : List Statement)
    (h : ∀ name, statement ≠ .address (.symbol name)) :
    references (statement :: code) = references code := by
  rw [references, List.filterMap_cons]
  split
  · rfl
  · next name hs =>
    split at hs
    · next other => exact absurd rfl (h other)
    · cases hs

/-- A symbol is among the references exactly if an address statement loads it. -/
theorem mem_references {code : List Statement} {name : String} :
    name ∈ references code ↔ Statement.address (.symbol name) ∈ code := by
  rw [references, List.mem_filterMap]
  constructor
  · rintro ⟨statement, hs, hname⟩
    split at hname
    · cases hname
      exact hs
    · cases hname
  · exact fun hs => ⟨_, hs, rfl⟩

/-- The second walk succeeds exactly if there is a cell for every different
symbol that the table does not know. -/
theorem allocateVariables_eq_ok_iff (table : SymbolTable) (program : List Placed)
    (h : table.nextVariable ≤ programMax) :
    (allocateVariables table program).2 = .ok () ↔
      table.nextVariable + (unknownReferences table (statements program)).toFinset.card ≤
        programMax := by
  induction program generalizing table with
  | nil => simpa [allocateVariables, statements, unknownReferences, references] using h
  | cons placed program ih =>
    rw [allocateVariables, statements, List.map_cons]
    split
    · next name hs =>
      rw [hs, contains_eq_isSome]
      have hrefs : references (.address (.symbol name) :: program.map Placed.statement) =
        name :: references (statements program) := rfl
      cases hf : table.find? name with
      | some symbol =>
        simpa [unknownReferences, hrefs, hf] using ih table h
      | none =>
        have hunknown : unknownReferences table
            (.address (.symbol name) :: program.map Placed.statement) =
            name :: unknownReferences table (statements program) := by
          simp [unknownReferences, hrefs, hf]
        rw [hunknown, card_toFinset_cons, ← unknownReferences_withVariable]
        by_cases hroom : table.nextVariable ≤ Instruction.addressMax
        · have hnext : (withVariable table name).nextVariable = table.nextVariable + 1 := rfl
          have hle : (withVariable table name).nextVariable ≤ programMax := by
            rw [hnext, programMax]
            omega
          simp only [Option.isSome_none, Bool.false_eq_true, if_false, allocate_eq_ok name hroom,
            ih _ hle, hnext]
          omega
        · have hfull : table.nextVariable = programMax := by
            rw [programMax] at h ⊢
            omega
          simp only [Option.isSome_none, Bool.false_eq_true, if_false, allocate, if_neg hroom,
            reduceCtorEq, false_iff]
          omega
    · next hs =>
      rw [ih table h, unknownReferences, unknownReferences, references_cons_of_ne _ hs, statements]

/-- After the second walk a name that was unknown denotes the cell that its
place among the unknown symbols gives it; the others denote what they did. -/
theorem find?_allocateVariables (table : SymbolTable) (program : List Placed) (name : String)
    (h : (allocateVariables table program).2 = .ok ()) :
    (allocateVariables table program).1.find? name =
      match table.find? name with
      | some symbol => some symbol
      | none =>
        if name ∈ unknownReferences table (statements program) then
          some ⟨name, .variable, BitVec.ofNat 16 (table.nextVariable +
            firstIndex (unknownReferences table (statements program)) name)⟩
        else none := by
  induction program generalizing table with
  | nil => cases hf : table.find? name <;> simp [allocateVariables, statements, unknownReferences,
      references, hf]
  | cons placed program ih =>
    rw [allocateVariables] at h ⊢
    rw [statements, List.map_cons]
    split at h
    · next first hs =>
      simp only [hs, contains_eq_isSome] at h ⊢
      have hrefs : references (.address (.symbol first) :: program.map Placed.statement) =
        first :: references (statements program) := rfl
      cases hfirst : table.find? first with
      | some symbol =>
        simp only [hfirst, Option.isSome_some, if_true] at h ⊢
        have hunknown : unknownReferences table
            (.address (.symbol first) :: program.map Placed.statement) =
            unknownReferences table (statements program) := by
          simp [unknownReferences, hrefs, hfirst]
        rw [ih table h, hunknown]
      | none =>
        have hunknown : unknownReferences table
            (.address (.symbol first) :: program.map Placed.statement) =
            first :: unknownReferences table (statements program) := by
          simp [unknownReferences, hrefs, hfirst]
        simp only [hfirst, Option.isSome_none, Bool.false_eq_true, if_false] at h ⊢
        by_cases hroom : table.nextVariable ≤ Instruction.addressMax
        · simp only [allocate_eq_ok first hroom] at h ⊢
          rw [ih _ h, find?_withVariable, unknownReferences_withVariable, hunknown]
          by_cases hn : first = name
          · subst hn
            simp [hfirst, firstIndex]
          · have hn' : ¬ name = first := fun e => hn e.symm
            have hnext : (withVariable table first).nextVariable = table.nextVariable + 1 := rfl
            rw [if_neg hn, firstIndex_cons_of_ne _ hn, hnext, Nat.add_assoc, Nat.add_comm 1]
            simp [hn']
        · simp only [allocate, if_neg hroom, reduceCtorEq] at h
    · next hs =>
      rw [ih table h, unknownReferences, unknownReferences, references_cons_of_ne _ hs, statements]

/-! ## The third walk -/

/-- An instruction of a code has a word unless its address is too large. -/
def HasWord (code : List Statement) : Statement → Prop
  | .address operand => wordValue code (.address operand) ≤ Instruction.addressMax
  | .label _ => False
  | .compute _ => True

/-- A table that gives each symbol of a code what it stands for leads the third
walk to the described word of each statement. -/
theorem encode_eq_ok_iff {table : SymbolTable} {code : List Statement} {statement : Statement}
    {word : Word} (hs : statement ∈ code)
    (ht : ∀ name ∈ references code,
      ∃ address, table.address? name = some address ∧ address.toNat = symbolAddress code name) :
    encode table statement = .ok word ↔
      word.toNat = wordValue code statement ∧ HasWord code statement := by
  cases statement with
  | label name => simp [encode, HasWord]
  | compute c =>
    rw [encode, Except.ok.injEq, wordValue, ← Compute.toNat_encode, HasWord, and_true, eq_comm,
      BitVec.toNat_inj]
  | address operand =>
    obtain ⟨value, hvalue, hnat⟩ : ∃ value, operand.value? table.address? = some value ∧
        value.toNat = wordValue code (.address operand) := by
      cases operand with
      | literal value => exact ⟨value, rfl, rfl⟩
      | symbol name =>
        exact ht name (List.mem_filterMap.mpr ⟨_, hs, rfl⟩)
    rw [encode, hvalue, HasWord, ← hnat]
    by_cases hmax : value.toNat ≤ Instruction.addressMax
    · simp only [if_pos hmax, Except.ok.injEq, and_iff_left hmax]
      rw [← BitVec.toNat_inj, Instruction.toNat_encode_load hmax, eq_comm]
    · simp [hmax]

/-- A walk that may fail at each item succeeds with the results of all items. -/
theorem mapM_eq_ok_iff {ε α β : Type} {f : α → Except ε β} {items : List α} {results : List β} :
    items.mapM f = .ok results ↔
      List.Forall₂ (fun item result => f item = .ok result) items results := by
  induction items generalizing results with
  | nil => simp [pure, Except.pure, eq_comm]
  | cons item items ih =>
    rw [List.mapM_cons, List.forall₂_cons_left_iff]
    cases hf : f item with
    | error fault => simp [bind, Except.bind]
    | ok first =>
      cases hrest : items.mapM f with
      | error fault =>
        have hno : ∀ tail, ¬ List.Forall₂ (fun item result => f item = .ok result) items tail := by
          intro tail ht
          rw [ih.mpr ht] at hrest
          cases hrest
        simp [bind, Except.bind, hno]
      | ok tail =>
        have hiff : ∀ other, List.Forall₂ (fun item result => f item = .ok result) items other ↔
            tail = other := by
          intro other
          rw [← ih, hrest, Except.ok.injEq]
        simp [bind, Except.bind, pure, Except.pure, hiff, eq_comm]

/-- Item by item, only the relation on the items of the list matters. -/
theorem forall₂_congr_of_mem {α β : Type} {R S : α → β → Prop} {items : List α}
    {results : List β} (h : ∀ item ∈ items, ∀ result, R item result ↔ S item result) :
    List.Forall₂ R items results ↔ List.Forall₂ S items results := by
  induction items generalizing results with
  | nil => simp only [List.forall₂_nil_left_iff]
  | cons item items ih =>
    have htail : ∀ tail, List.Forall₂ R items tail ↔ List.Forall₂ S items tail := fun tail =>
      ih fun item hi => h item (List.mem_cons_of_mem _ hi)
    simp only [List.forall₂_cons_left_iff, h item List.mem_cons_self, htail]

/-- If every item has a result, there is a list of results. -/
theorem exists_forall₂ {α β : Type} {R : α → β → Prop} {items : List α}
    (h : ∀ item ∈ items, ∃ result, R item result) : ∃ results, List.Forall₂ R items results := by
  induction items with
  | nil => exact ⟨[], .nil⟩
  | cons item items ih =>
    obtain ⟨result, hr⟩ := h item List.mem_cons_self
    obtain ⟨results, hrs⟩ := ih fun item hi => h item (List.mem_cons_of_mem _ hi)
    exact ⟨result :: results, .cons hr hrs⟩

/-- The third walk produces the words of the instructions one by one. -/
theorem encodeAll_eq_ok_iff {table : SymbolTable} {program : List Placed} {words : List Word} :
    encodeAll table program = .ok words ↔
      List.Forall₂ (fun statement word => encode table statement = .ok word)
        ((statements program).filter Statement.isInstruction) words := by
  have hfilter : (statements program).filter Statement.isInstruction =
      (program.filter (·.statement.isInstruction)).map Placed.statement := List.filter_map
  rw [encodeAll, mapM_eq_ok_iff, hfilter, List.forall₂_map_left_iff]
  -- Attaching a line to a fault does not turn it into a word.
  constructor
  · refine List.Forall₂.imp fun placed word h => ?_
    cases hword : encode table placed.statement with
    | error fault => rw [hword] at h; cases h
    | ok found => rw [hword] at h; cases h; rfl
  · refine List.Forall₂.imp fun placed word h => ?_
    rw [h]

/-! ## The walks together -/

/-- The first walk over a program, from the predefined names, gives every name
its predefined address or the position of its last declaration. -/
theorem find?_bindLabels_predefined {program : List Placed} (name : String)
    (h : (bindLabels .predefined program).2 = .ok ()) :
    (bindLabels .predefined program).1.find? name =
      match predefinedAddress? name with
      | some address => some ⟨name, .predefined, address⟩
      | none => (labelPosition? name (statements program)).map fun position =>
        ⟨name, .label, BitVec.ofNat 16 position⟩ := by
  rw [bindLabels, find?_bindLabelsFrom _ _ _ h, kind?, find?_predefined]
  cases predefinedAddress? name with
  | some address => simp
  | none => cases labelPosition? name (statements program) <;> simp

/-- The symbols that the first walk leaves unknown are the free ones. -/
theorem unknownReferences_bindLabels {program : List Placed}
    (h : (bindLabels .predefined program).2 = .ok ()) :
    unknownReferences (bindLabels .predefined program).1 (statements program) =
      freeReferences (statements program) := by
  refine List.filter_congr fun name _ => ?_
  rw [find?_bindLabels_predefined name h, Bool.eq_iff_iff, decide_eq_true_iff, IsFree,
    ← labelPosition?_eq_none_iff]
  cases predefinedAddress? name <;> simp

/-- Every place among the free symbols is below their number. -/
theorem firstIndex_lt {names : List String} {name : String} (h : name ∈ names) :
    firstIndex names name < names.toFinset.card := by
  refine Finset.card_lt_card (Finset.ssubset_iff_of_subset ?_ |>.mpr ⟨name, by simpa using h, ?_⟩)
  · intro other ho
    rw [List.mem_toFinset] at ho ⊢
    exact (List.takeWhile_sublist _).subset ho
  · rw [List.mem_toFinset]
    intro hmem
    simpa using List.all_eq_true.mp List.all_takeWhile name hmem

/-- Items that are replaced by different ones keep their number. -/
theorem card_toFinset_map {α β : Type} [DecidableEq α] [DecidableEq β] {f : α → β}
    {items : List α} (hf : Set.InjOn f {item | item ∈ items}) :
    (items.map f).toFinset.card = items.toFinset.card := by
  have himage : (items.map f).toFinset = items.toFinset.image f := by
    ext item
    simp
  rw [himage, Finset.card_image_of_injOn]
  rwa [List.coe_toFinset]

/-- What stands in front of an item, if every item is replaced and no other one
is replaced by the same. -/
theorem takeWhile_map_ne {α β : Type} [DecidableEq α] [DecidableEq β] {f : α → β}
    {items : List α} {item : α} (hf : ∀ other ∈ items, f other = f item ↔ other = item) :
    (items.map f).takeWhile (· ≠ f item) = (items.takeWhile (· ≠ item)).map f := by
  induction items with
  | nil => rfl
  | cons first items ih =>
    rw [List.forall_mem_cons] at hf
    by_cases h : first = item
    · simp [h]
    · have hne : f first ≠ f item := fun heq => h (hf.1.mp heq)
      simpa [h, hne] using ih hf.2

/-- Items that are replaced by different ones keep their places of first occurrence. -/
theorem firstIndex_map {α β : Type} [DecidableEq α] [DecidableEq β] {f : α → β}
    {items : List α} {item : α} (hf : Set.InjOn f (insert item {other | other ∈ items})) :
    firstIndex (items.map f) (f item) = firstIndex items item := by
  have hfront := takeWhile_map_ne fun other hother => hf.eq_iff (.inr hother) (.inl rfl)
  rw [firstIndex, firstIndex, hfront, card_toFinset_map]
  exact hf.mono fun other hother => .inr ((List.takeWhile_sublist _).subset hother)

/-- A reference is free unless it is predefined or declared. -/
theorem mem_freeReferences {code : List Statement} {name : String} (hr : name ∈ references code)
    (hp : predefinedAddress? name = none) (hl : labelPosition? name code = none) :
    name ∈ freeReferences code :=
  List.mem_filter.mpr ⟨hr, decide_eq_true ⟨hp, labelPosition?_eq_none_iff.mp hl⟩⟩

/-- If the walks succeed, the table gives each symbol of the program what it
stands for. -/
theorem address?_allocateVariables {program : List Placed} {name : String}
    (hbind : (bindLabels .predefined program).2 = .ok ())
    (halloc : (allocateVariables (bindLabels .predefined program).1 program).2 = .ok ())
    (hwords : wordCount (statements program) ≤ 32768)
    (hcells : (freeReferences (statements program)).toFinset.card ≤ 32752)
    (hname : name ∈ references (statements program)) :
    ∃ address, (allocateVariables (bindLabels .predefined program).1 program).1.address? name =
      some address ∧ address.toNat = symbolAddress (statements program) name := by
  have hnext : (bindLabels .predefined program).1.nextVariable = MemoryMap.variableBase :=
    nextVariable_bindLabelsFrom 0 .predefined program
  rw [address?, find?_allocateVariables _ _ _ halloc, find?_bindLabels_predefined name hbind,
    unknownReferences_bindLabels hbind, hnext, symbolAddress]
  cases hp : predefinedAddress? name with
  | some address => exact ⟨address, rfl, rfl⟩
  | none =>
    cases hl : labelPosition? name (statements program) with
    | some position =>
      have hle := labelPosition?_le hl
      refine ⟨BitVec.ofNat 16 position, rfl, ?_⟩
      simp only [BitVec.toNat_ofNat]
      omega
    | none =>
      have hfree := mem_freeReferences hname hp hl
      have hlt := firstIndex_lt hfree
      refine ⟨BitVec.ofNat 16 (MemoryMap.variableBase +
        firstIndex (freeReferences (statements program)) name), by simp [hfree], ?_⟩
      simp only [BitVec.toNat_ofNat, MemoryMap.variableBase]
      omega

/-- Assembly from the predefined names succeeds exactly if the instructions and
the free symbols fit and every instruction has a word, and then yields these
words in order. -/
theorem assembleProgram_eq_ok_iff {program : List Placed} {words : List Word} :
    (assembleProgram .predefined program).2 = .ok words ↔
      wordCount (statements program) ≤ 32768 ∧
      (freeReferences (statements program)).toFinset.card ≤ 32752 ∧
      List.Forall₂ (fun statement word => word.toNat = wordValue (statements program) statement ∧
          HasWord (statements program) statement)
        ((statements program).filter Statement.isInstruction) words := by
  have hnext : (bindLabels .predefined program).1.nextVariable = MemoryMap.variableBase :=
    nextVariable_bindLabelsFrom 0 .predefined program
  have hbindIff : (bindLabels .predefined program).2 = .ok () ↔
      wordCount (statements program) ≤ 32768 := by
    rw [bindLabels, bindLabelsFrom_eq_ok_iff _ _ (Nat.zero_le _), Nat.zero_add]
    rfl
  have hallocIff : (bindLabels .predefined program).2 = .ok () →
      ((allocateVariables (bindLabels .predefined program).1 program).2 = .ok () ↔
        (freeReferences (statements program)).toFinset.card ≤ 32752) := by
    intro hbind
    rw [allocateVariables_eq_ok_iff _ _ (by rw [hnext]; decide), hnext,
      unknownReferences_bindLabels hbind, programMax, Instruction.addressMax,
      MemoryMap.variableBase]
    omega
  rw [assembleProgram]
  rcases hb : bindLabels .predefined program with ⟨table, result⟩
  rw [hb] at hbindIff hallocIff hnext
  cases result with
  | error fault =>
    simp only [reduceCtorEq, false_iff] at hbindIff ⊢
    exact fun h => hbindIff h.1
  | ok value =>
    have hwords := hbindIff.mp rfl
    have halloc := hallocIff rfl
    dsimp only at halloc ⊢
    rcases ha : allocateVariables table program with ⟨resolved, result⟩
    rw [ha] at halloc
    cases result with
    | error fault =>
      simp only [reduceCtorEq, false_iff] at halloc ⊢
      exact fun h => halloc h.2.1
    | ok value =>
      have hcells := halloc.mp rfl
      simp only [hwords, hcells, true_and]
      have hsymbols : ∀ name ∈ references (statements program), ∃ address,
          resolved.address? name = some address ∧
            address.toNat = symbolAddress (statements program) name := by
        intro name hname
        have hfound := address?_allocateVariables (by rw [hb]) (by rw [hb, ha]) hwords hcells hname
        rwa [hb, ha] at hfound
      rw [encodeAll_eq_ok_iff]
      refine forall₂_congr_of_mem fun statement hs word => ?_
      exact encode_eq_ok_iff (List.mem_filter.mp hs).1 hsymbols

/-- An instruction has a word exactly if its constant has fifteen bits and its
label is not behind all of program memory. -/
theorem hasWord_iff_assemblable {code : List Statement} (hwords : wordCount code ≤ 32768)
    (hcells : (freeReferences code).toFinset.card ≤ 32752) :
    (∀ statement ∈ code.filter Statement.isInstruction, HasWord code statement) ↔
      Assemblable code := by
  constructor
  · intro h
    refine ⟨hwords, hcells, fun value hv => ?_, fun name hname hp position hl => ?_⟩
    · exact h _ (List.mem_filter.mpr ⟨hv, rfl⟩)
    · have hle := h _ (List.mem_filter.mpr ⟨mem_references.mp hname, rfl⟩)
      simp only [HasWord, wordValue, symbolAddress, hp, hl, Instruction.addressMax] at hle
      omega
  · intro h statement hs
    obtain ⟨hs, hi⟩ := List.mem_filter.mp hs
    cases statement with
    | label name => cases hi
    | compute fields => trivial
    | address operand =>
      cases operand with
      | literal value => exact h.literals value hs
      | symbol name =>
        have hname := mem_references.mpr hs
        simp only [HasWord, wordValue, symbolAddress, Instruction.addressMax]
        cases hp : predefinedAddress? name with
        | some address => exact predefinedAddress?_le hp
        | none =>
          cases hl : labelPosition? name code with
          | some position => exact Nat.le_of_lt_succ (h.labels name hname hp position hl)
          | none =>
            have hlt := firstIndex_lt (mem_freeReferences hname hp hl)
            simp only [MemoryMap.variableBase]
            omega

/-- Every number that an instruction with a word asks for fits in a word. -/
theorem exists_word {code : List Statement} {statement : Statement} (h : HasWord code statement) :
    ∃ word : Word, word.toNat = wordValue code statement := by
  cases statement with
  | label name => cases h
  | compute fields => exact ⟨fields.encode, fields.toNat_encode⟩
  | address operand =>
    refine ⟨BitVec.ofNat 16 (wordValue code (.address operand)), ?_⟩
    rw [HasWord, Instruction.addressMax] at h
    rw [BitVec.toNat_ofNat]
    omega

/-- Assembly with the predefined names succeeds exactly on the codes that the
machine has room for. The result has one word for each instruction in order: the
encoding of a computation, the constant itself, or what the symbol stands for,
without loss of bits. -/
theorem assembleProgram_realizes_layout (program : List Placed) :
    ((∃ words, (assembleProgram .predefined program).2 = .ok words) ↔
      Assemblable (statements program)) ∧
    ∀ words, (assembleProgram .predefined program).2 = .ok words →
      words.map BitVec.toNat = image (statements program) := by
  simp only [assembleProgram_eq_ok_iff]
  constructor
  · constructor
    · rintro ⟨words, hwords, hcells, hall⟩
      refine (hasWord_iff_assemblable hwords hcells).mp ?_
      exact ((List.forall₂_and_left _ _).mp (hall.imp fun _ _ h => ⟨h.2, h.1⟩)).1
    · intro h
      have hword := (hasWord_iff_assemblable h.words h.cells).mpr h
      obtain ⟨words, hall⟩ := exists_forall₂ fun statement hs => exists_word (hword statement hs)
      refine ⟨words, h.words, h.cells, ?_⟩
      exact ((List.forall₂_and_left _ _).mpr ⟨hword, hall⟩).imp fun _ _ h => ⟨h.2, h.1⟩
  · rintro words ⟨-, -, hall⟩
    rw [image, ← List.forall₂_eq_eq_eq, List.forall₂_map_left_iff, List.forall₂_map_right_iff]
    exact (hall.imp fun _ _ h => h.1).flip

end HK16.Assembly
