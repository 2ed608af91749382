import HK16.Machine.State
import HK16.Proofs.Layout

/-!
# Where code stands in an assembled program

A piece of a program stands at the address that the instructions in front of it
give it. In program memory, the words from that address on decode to the
instructions of the piece, with every symbol replaced by its address. A label
that is declared once stands for the address of what follows it.
-/

namespace HK16.Assembly

open SymbolTable Machine

/-- The code is a part of the program and starts at the address. -/
def CodeAt (program : List Statement) (address : Nat) (code : List Statement) : Prop :=
  ∃ before after, program = before ++ code ++ after ∧ address = wordCount before

namespace CodeAt

variable {program code rest : List Statement} {address : Nat}

/-- The first part of a code starts where the code does. -/
theorem left (h : CodeAt program address (code ++ rest)) : CodeAt program address code := by
  obtain ⟨before, after, rfl, rfl⟩ := h
  exact ⟨before, rest ++ after, by simp only [List.append_assoc], rfl⟩

/-- The second part of a code starts behind the first one. -/
theorem right (h : CodeAt program address (code ++ rest)) :
    CodeAt program (address + wordCount code) rest := by
  obtain ⟨before, after, rfl, rfl⟩ := h
  exact ⟨before ++ code, after, by simp only [List.append_assoc], (wordCount_append _ _).symm⟩

/-- What follows the first statement starts behind it. -/
theorem tail {statement : Statement} (h : CodeAt program address (statement :: code)) :
    CodeAt program (address + wordCount [statement]) code := by
  rw [← List.singleton_append] at h
  exact h.right

/-- A code ends within the program. -/
theorem end_le (h : CodeAt program address code) :
    address + wordCount code ≤ wordCount program := by
  obtain ⟨before, after, rfl, rfl⟩ := h
  simp only [wordCount_append]
  omega

end CodeAt

/-- The labels that a code declares, in order and with repetitions. -/
def labelNames (code : List Statement) : List String :=
  code.filterMap fun
    | .label name => some name
    | _ => none

@[simp] theorem labelNames_append (code rest : List Statement) :
    labelNames (code ++ rest) = labelNames code ++ labelNames rest :=
  List.filterMap_append

/-- A name is among the labels exactly if the code declares it. -/
theorem mem_labelNames {code : List Statement} {name : String} :
    name ∈ labelNames code ↔ Statement.label name ∈ code := by
  rw [labelNames, List.mem_filterMap]
  constructor
  · rintro ⟨statement, hs, hname⟩
    split at hname
    · cases hname
      exact hs
    · cases hname
  · exact fun hs => ⟨_, hs, rfl⟩

/-- A label in front of a code is a label of the program. -/
theorem CodeAt.label_mem {program rest : List Statement} {address : Nat} {name : String}
    (h : CodeAt program address (.label name :: rest)) : name ∈ labelNames program := by
  obtain ⟨before, after, rfl, -⟩ := h
  rw [mem_labelNames]
  simp

/-- The address of a symbol as a word. -/
def addressIn (program : List Statement) (name : String) : Word :=
  BitVec.ofNat 16 (symbolAddress program name)

/-- Predefined names keep their addresses in every program. -/
theorem addressIn_of_predefined (program : List Statement) {name : String} {address : Word}
    (h : predefinedAddress? name = some address) : addressIn program name = address := by
  rw [addressIn, symbolAddress, h]
  exact BitVec.ofNat_toNat 16 address

/-- A pointer's name stands for the cell of the pointer. -/
@[simp] theorem addressIn_pointer (program : List Statement) (pointer : Pointer) :
    addressIn program pointer.name = pointer.address := by
  refine addressIn_of_predefined program ?_
  cases pointer <;> decide +kernel

/-- A register's name stands for the cell of the register. -/
@[simp] theorem addressIn_register (program : List Statement) (register : Register) :
    addressIn program (Register.name register) = Register.address register := by
  have hall : ∀ r : Register, predefinedAddress? (Register.name r) = some (Register.address r) := by
    decide +kernel
  exact addressIn_of_predefined program (hall register)

/-- The last declaration of a name that is not predefined is its address. -/
theorem symbolAddress_of_last {before after : List Statement} {name : String}
    (hp : predefinedAddress? name = none) (hlast : Statement.label name ∉ after) :
    symbolAddress (before ++ .label name :: after) name = wordCount before := by
  rw [symbolAddress, hp, labelPosition?_append_label hlast]

/-- A code that ends with the last declaration of a name ends at its address. -/
theorem symbolAddress_of_trailing {before code front after : List Statement} {name : String}
    (hcode : code = front ++ [.label name]) (hp : predefinedAddress? name = none)
    (hlast : Statement.label name ∉ after) :
    symbolAddress (before ++ code ++ after) name = wordCount (before ++ code) := by
  have hsplit : before ++ code ++ after = before ++ front ++ .label name :: after := by
    rw [hcode]
    simp only [List.append_assoc, List.singleton_append]
  have hcount : wordCount (before ++ code) = wordCount (before ++ front) := by
    rw [hcode, ← List.append_assoc, wordCount_append, wordCount_cons_label, wordCount_nil,
      Nat.add_zero]
  rw [hsplit, symbolAddress_of_last hp hlast, hcount]

/-- If no label is declared twice, none is declared again behind its declaration. -/
theorem label_notMem_of_nodup {before after : List Statement} {name : String}
    (h : (labelNames (before ++ .label name :: after)).Nodup) : Statement.label name ∉ after := by
  have hcons : labelNames (.label name :: after) = name :: labelNames after := rfl
  rw [labelNames_append, hcons] at h
  rw [← mem_labelNames]
  exact (List.nodup_cons.mp (List.nodup_append.mp h).2.1).1

/-- If no label is declared twice, each one stands for the address of what
follows it. -/
theorem CodeAt.symbolAddress_label {program rest : List Statement} {address : Nat} {name : String}
    (h : CodeAt program address (.label name :: rest)) (hp : predefinedAddress? name = none)
    (hd : (labelNames program).Nodup) : symbolAddress program name = address := by
  obtain ⟨before, after, rfl, rfl⟩ := h
  rw [List.append_assoc, List.cons_append] at hd ⊢
  exact symbolAddress_of_last hp (label_notMem_of_nodup hd)

/-- Program memory holds the words that a program assembles to with the
predefined names. -/
def Assembled (program : List Statement) (rom : Rom) : Prop :=
  ∃ (placed : List Placed) (words : List Word), statements placed = program ∧
    (assembleProgram .predefined placed).2 = .ok words ∧ Rom.ofWords words = .ok rom

/-- What assembles fits in program memory. -/
theorem exists_rom {placed : List Placed} {words : List Word}
    (h : (assembleProgram .predefined placed).2 = .ok words) :
    ∃ rom, Rom.ofWords words = .ok rom ∧ Assembled (statements placed) rom := by
  obtain ⟨hcount, -, hall⟩ := assembleProgram_eq_ok_iff.mp h
  have hlength : words.toArray.size ≤ 32768 := by
    rw [List.size_toArray, ← hall.length_eq, ← List.countP_eq_length_filter]
    exact hcount
  have hrom : Rom.ofWords words = .ok ⟨words.toArray, hlength⟩ := by
    rw [Rom.ofWords, dif_pos hlength]
  exact ⟨_, hrom, placed, words, rfl, h, hrom⟩

/-- Statements that assemble at some places in the source have words. -/
theorem exists_words {program : List Statement}
    (h : (assembleProgram .predefined (program.map (Placed.mk 0))).2.isOk = true) :
    ∃ placed words, statements placed = program ∧
      (assembleProgram .predefined placed).2 = .ok words := by
  have hstatements : statements (program.map (Placed.mk 0)) = program := by
    rw [statements, List.map_map]
    exact List.map_id program
  cases hwords : (assembleProgram .predefined (program.map (Placed.mk 0))).2 with
  | error fault => rw [hwords] at h; cases h
  | ok words => exact ⟨_, words, hstatements, hwords⟩

/-- Statements that assemble can be put into program memory. -/
theorem exists_assembled {program : List Statement}
    (h : (assembleProgram .predefined (program.map (Placed.mk 0))).2.isOk = true) :
    ∃ rom, Assembled program rom := by
  obtain ⟨placed, words, rfl, hwords⟩ := exists_words h
  obtain ⟨rom, -, hrom⟩ := exists_rom hwords
  exact ⟨rom, hrom⟩

/-- Corresponding items of two lists stand at the same position. -/
theorem getElem?_of_forall₂_append {α β : Type} {R : α → β → Prop} {front back : List α}
    {item : α} {results : List β} (h : List.Forall₂ R (front ++ item :: back) results) :
    ∃ result, results[front.length]? = some result ∧ R item result := by
  induction front generalizing results with
  | nil =>
    obtain ⟨result, tail, hr, -, rfl⟩ := List.forall₂_cons_left_iff.mp h
    exact ⟨result, rfl, hr⟩
  | cons first front ih =>
    obtain ⟨result, tail, -, htail, rfl⟩ := List.forall₂_cons_left_iff.mp h
    simpa only [List.length_cons, List.getElem?_cons_succ] using ih htail

/-- What belongs to an instruction of a program stands at its address, if there is
one item for each instruction. -/
theorem getElem?_of_codeAt {β : Type} {R : Statement → β → Prop} {program rest : List Statement}
    {address : Nat} {statement : Statement} {results : List β}
    (h : List.Forall₂ R (program.filter Statement.isInstruction) results)
    (hat : CodeAt program address (statement :: rest)) (hi : statement.isInstruction = true) :
    ∃ result, results[address]? = some result ∧ R statement result := by
  obtain ⟨before, after, rfl, rfl⟩ := hat
  rw [List.append_assoc, List.cons_append, List.filter_append, List.filter_cons_of_pos hi] at h
  have hlength : (before.filter Statement.isInstruction).length = wordCount before :=
    List.countP_eq_length_filter.symm
  rw [← hlength]
  exact getElem?_of_forall₂_append h

/-- A word with the value of an instruction decodes to that instruction, with
its symbol replaced. -/
theorem decode?_of_wordValue {program : List Statement} {statement : Statement} {word : Word}
    (hvalue : word.toNat = wordValue program statement) (hword : HasWord program statement) :
    Instruction.decode? word = statement.resolve fun name => some (addressIn program name) := by
  cases statement with
  | label name => cases hword
  | compute c =>
    rw [wordValue, ← Compute.toNat_encode, BitVec.toNat_inj] at hvalue
    rw [hvalue, Instruction.decode?_encode_compute, Statement.resolve]
  | address operand =>
    rw [HasWord, ← hvalue] at hword
    rw [Instruction.decode?_of_toNat_le hword]
    cases operand with
    | literal value =>
      rw [wordValue, BitVec.toNat_inj] at hvalue
      rw [hvalue]
      rfl
    | symbol name =>
      have hload : word = addressIn program name := by
        have hsymbol : symbolAddress program name = word.toNat := hvalue.symm
        rw [addressIn, hsymbol, BitVec.ofNat_toNat, BitVec.setWidth_eq]
      rw [hload]
      rfl

/-- Where an instruction of the program stands, program memory holds a word that
decodes to it. -/
theorem Assembled.decode?_word {program rest : List Statement} {rom : Rom} {address : Nat}
    {statement : Statement} (h : Assembled program rom)
    (hat : CodeAt program address (statement :: rest)) (hi : statement.isInstruction = true) :
    address < 32768 ∧ ∃ word, rom.words[address]? = some word ∧
      Instruction.decode? word = statement.resolve fun name => some (addressIn program name) := by
  obtain ⟨placed, words, rfl, hwords, hrom⟩ := h
  obtain ⟨hcount, -, hall⟩ := assembleProgram_eq_ok_iff.mp hwords
  have hend := hat.end_le
  rw [wordCount_cons, hi, if_pos rfl] at hend
  obtain ⟨word, hget, hvalue, hhas⟩ := getElem?_of_codeAt hall hat hi
  refine ⟨by omega, word, ?_, decode?_of_wordValue hvalue hhas⟩
  rw [Rom.ofWords] at hrom
  split at hrom
  · cases hrom
    simpa using hget
  · cases hrom

end HK16.Assembly
