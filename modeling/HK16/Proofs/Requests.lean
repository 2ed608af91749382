import HK16.Proofs.Layout

/-!
# The table of an assembler over many programs

An assembler keeps its symbol table from one request to the next, also when a
request fails half way. Whatever was asked of it, the predefined names stay as
they are at the front of the table, variables have cells of their own among
those handed out so far, and labels lie within program memory or right behind
it. Which names a table holds beyond that is not described here.
-/

namespace HK16.Assembly

open SymbolTable

/-- One use of an assembler. -/
inductive Request
  /-- Assemble source lines, to words or to their digits. -/
  | lines (lines : List String)
  /-- Assemble statements that have been read already. -/
  | program (program : List Placed)
  /-- Take only the first walk. -/
  | bindLabels (program : List Placed)
  /-- Take only the second walk. -/
  | allocateVariables (program : List Placed)
  deriving Repr, DecidableEq

namespace SymbolTable

/-- The table behind a request, whether it succeeds or fails. -/
def after (table : SymbolTable) : Request → SymbolTable
  | .lines lines => (assembleLines table lines).1
  | .program program => (assembleProgram table program).1
  | .bindLabels program => (Assembly.bindLabels table program).1
  | .allocateVariables program => (Assembly.allocateVariables table program).1

/-- The table behind requests one after the other. -/
def afterAll (table : SymbolTable) (requests : List Request) : SymbolTable :=
  requests.foldl after table

/-- A property of tables that labels and new variables keep. Nothing else changes
the table of an assembler. -/
structure Kept (P : SymbolTable → Prop) : Prop where
  /-- Binding a label in program memory or right behind it keeps the property. -/
  bindLabel : ∀ {table : SymbolTable}, P table → ∀ (name : String) {address : Word},
    address.toNat ≤ 32768 → P (table.bindLabel name address)
  /-- Giving an unknown name the next cell keeps the property. -/
  withVariable : ∀ {table : SymbolTable}, P table → ∀ {name : String}, table.find? name = none →
    table.nextVariable ≤ Instruction.addressMax → P (Assembly.withVariable table name)

namespace Kept

variable {P : SymbolTable → Prop} {table : SymbolTable}

/-- The first walk keeps the property, also if the program does not fit. -/
theorem bindLabelsFrom (hP : Kept P) (h : P table) {next : Nat} (hnext : next ≤ programMax)
    (program : List Placed) : P (Assembly.bindLabelsFrom next table program).1 := by
  induction program generalizing next table with
  | nil => exact h
  | cons placed program ih =>
    rw [Assembly.bindLabelsFrom]
    split
    · refine ih (hP.bindLabel h _ ?_) hnext
      rw [BitVec.toNat_ofNat]
      exact (Nat.mod_le _ _).trans hnext
    · split
      · next hlt => exact ih h hlt
      · exact h

/-- The second walk keeps the property, also if there are not enough cells. -/
theorem allocateVariables (hP : Kept P) (h : P table) (program : List Placed) :
    P (Assembly.allocateVariables table program).1 := by
  induction program generalizing table with
  | nil => exact h
  | cons placed program ih =>
    rw [Assembly.allocateVariables]
    split
    · next name _ =>
      split
      · exact ih h
      · next hunknown =>
        have hname : table.find? name = none := by
          rw [contains_eq_isSome, Option.isSome_iff_ne_none, ne_eq, not_not] at hunknown
          exact hunknown
        by_cases hroom : table.nextVariable ≤ Instruction.addressMax
        · rw [allocate_eq_ok name hroom]
          exact ih (hP.withVariable h hname hroom)
        · rw [allocate, if_neg hroom]
          exact h
    · exact ih h

/-- Assembly keeps the property, in whichever walk it ends. -/
theorem assembleProgram (hP : Kept P) (h : P table) (program : List Placed) :
    P (Assembly.assembleProgram table program).1 := by
  have hbound : P (bindLabels table program).1 := hP.bindLabelsFrom h (Nat.zero_le _) program
  rw [Assembly.assembleProgram]
  rcases hbind : bindLabels table program with ⟨bound, _ | _⟩
  · rw [hbind] at hbound
    exact hbound
  · rw [hbind] at hbound
    have hresolved := hP.allocateVariables hbound program
    dsimp only
    rcases hallocate : Assembly.allocateVariables bound program with ⟨resolved, _ | _⟩ <;>
      · rw [hallocate] at hresolved
        exact hresolved

/-- Every request keeps the property. -/
theorem after (hP : Kept P) (h : P table) (request : Request) : P (table.after request) := by
  cases request with
  | lines lines =>
    rw [SymbolTable.after, assembleLines]
    cases readLines lines with
    | ok program => exact hP.assembleProgram h program
    | error fault => exact h
  | program program => exact hP.assembleProgram h program
  | bindLabels program => exact hP.bindLabelsFrom h (Nat.zero_le _) program
  | allocateVariables program => exact hP.allocateVariables h program

/-- Any number of requests keep the property. -/
theorem afterAll (hP : Kept P) (h : P table) (requests : List Request) :
    P (table.afterAll requests) := by
  induction requests generalizing table with
  | nil => exact h
  | cons request requests ih => exact ih (hP.after h request)

end Kept

/-- The entries of the predefined names, in the order of the memory map. -/
def predefinedSymbols : List Symbol :=
  MemoryMap.predefined.map fun entry => ⟨entry.1, .predefined, entry.2⟩

/-- What holds of the table of an assembler, whatever was asked of it. -/
structure Sound (table : SymbolTable) : Prop where
  /-- The 23 predefined names come first, in their order and with their addresses. -/
  first : table.toList.take 23 = predefinedSymbols
  /-- The next cell lies behind the registers. -/
  le_next : 16 ≤ table.nextVariable
  /-- The next cell can be addressed, or all cells are taken. -/
  next_le : table.nextVariable ≤ 32768
  /-- Variables have cells behind the registers that were handed out. -/
  cells : ∀ symbol ∈ table.toList, symbol.kind = .variable →
    16 ≤ symbol.address.toNat ∧ symbol.address.toNat < table.nextVariable
  /-- No cell has two variables. -/
  distinct : ∀ symbol ∈ table.toList, ∀ other ∈ table.toList, symbol.kind = .variable →
    other.kind = .variable → symbol.address = other.address → symbol = other
  /-- Labels lie in program memory or right behind it. -/
  labels : ∀ symbol ∈ table.toList, symbol.kind = .label → symbol.address.toNat ≤ 32768

namespace Sound

variable {table : SymbolTable}

/-- A sound table has the predefined names. -/
theorem le_length (h : table.Sound) : 23 ≤ table.toList.length := by
  have hlength := congrArg List.length h.first
  rw [List.length_take] at hlength
  have hcount : predefinedSymbols.length = 23 := by decide +kernel
  omega

/-- In a sound table every predefined name has its address of the memory map. -/
theorem find?_predefined (h : table.Sound) {name : String} {address : Word}
    (hname : predefinedAddress? name = some address) :
    table.find? name = some ⟨name, .predefined, address⟩ := by
  obtain ⟨before, after, hsplit, -⟩ := List.lookup_eq_some_iff.mp hname
  have hmem : (⟨name, .predefined, address⟩ : Symbol) ∈ predefinedSymbols := by
    rw [predefinedSymbols, hsplit]
    simp
  rw [← h.first] at hmem
  exact find?_eq_some_iff.mpr ⟨List.mem_of_mem_take hmem, rfl⟩

/-- Entries in front of all others have predefined names. -/
theorem kind?_of_mem_first (h : table.Sound) {name : String}
    (hname : name ∈ (table.toList.take 23).map Symbol.name) :
    table.kind? name = some .predefined := by
  obtain ⟨symbol, hsymbol, rfl⟩ := List.mem_map.mp hname
  have hfound := find?_eq_some_iff.mpr ⟨List.mem_of_mem_take hsymbol, rfl⟩
  rw [h.first, predefinedSymbols] at hsymbol
  obtain ⟨entry, -, rfl⟩ := List.mem_map.mp hsymbol
  rw [kind?, hfound]
  rfl

/-- Binding a name that is not predefined leaves the predefined names in front. -/
theorem first_insert (h : table.Sound) {symbol : Symbol}
    (hkind : table.kind? symbol.name ≠ some .predefined) :
    (table.insert symbol).toList.take 23 = predefinedSymbols := by
  rw [take_toList_insert h.le_length fun hname => hkind (h.kind?_of_mem_first hname), h.first]

/-- Binding a label keeps a table sound. -/
theorem bindLabel (h : table.Sound) (name : String) {address : Word}
    (haddress : address.toNat ≤ 32768) : (table.bindLabel name address).Sound := by
  unfold SymbolTable.bindLabel
  split
  · exact h
  · next hkind =>
    -- The new entry is no variable, so variables are entries of before.
    have hold {symbol : Symbol} (hmem : symbol ∈ (table.insert ⟨name, .label, address⟩).toList)
        (hvariable : symbol.kind = .variable) : symbol ∈ table.toList := by
      rcases mem_toList_insert.mp hmem with rfl | ⟨hmem, -⟩
      · cases hvariable
      · exact hmem
    refine ⟨h.first_insert hkind, ?_, ?_, ?_, ?_, ?_⟩
    · rw [nextVariable_insert]
      exact h.le_next
    · rw [nextVariable_insert]
      exact h.next_le
    · intro symbol hmem hvariable
      rw [nextVariable_insert]
      exact h.cells symbol (hold hmem hvariable) hvariable
    · intro symbol hmem other hother hvariable hvariable' hsame
      exact h.distinct symbol (hold hmem hvariable) other (hold hother hvariable') hvariable
        hvariable' hsame
    · intro symbol hmem hlabel
      rcases mem_toList_insert.mp hmem with rfl | ⟨hmem, -⟩
      · exact haddress
      · exact h.labels symbol hmem hlabel

/-- Giving an unknown name the next cell keeps a table sound. -/
theorem withVariable (h : table.Sound) {name : String} (hname : table.find? name = none)
    (hroom : table.nextVariable ≤ Instruction.addressMax) :
    (Assembly.withVariable table name).Sound := by
  rw [Instruction.addressMax] at hroom
  have hle := h.le_next
  have hkind : table.kind? name ≠ some .predefined := by
    simp [kind?, hname]
  have hcell : (BitVec.ofNat 16 table.nextVariable).toNat = table.nextVariable := by
    rw [BitVec.toNat_ofNat, Nat.mod_eq_of_lt (by omega)]
  have hentries {symbol : Symbol} :
      symbol ∈ (Assembly.withVariable table name).toList →
        symbol = ⟨name, .variable, BitVec.ofNat 16 table.nextVariable⟩ ∨ symbol ∈ table.toList :=
    fun hmem => (mem_toList_insert.mp hmem).imp_right And.left
  have hnext : (Assembly.withVariable table name).nextVariable = table.nextVariable + 1 := rfl
  -- The cells of earlier variables are below the one that is handed out now.
  have hfresh {symbol : Symbol} (hmem : symbol ∈ table.toList)
      (hvariable : symbol.kind = .variable) :
      symbol.address ≠ BitVec.ofNat 16 table.nextVariable := by
    intro hsame
    have hlt := (h.cells symbol hmem hvariable).2
    rw [hsame, hcell] at hlt
    omega
  refine ⟨h.first_insert hkind, by omega, by omega, ?_, ?_, ?_⟩
  · intro symbol hmem hvariable
    rcases hentries hmem with rfl | hmem
    · rw [hcell]
      omega
    · have hrange := h.cells symbol hmem hvariable
      omega
  · intro symbol hmem other hother hvariable hvariable' hsame
    rcases hentries hmem with rfl | hmem
    · rcases hentries hother with rfl | hother
      · rfl
      · exact absurd hsame.symm (hfresh hother hvariable')
    · rcases hentries hother with rfl | hother
      · exact absurd hsame (hfresh hmem hvariable)
      · exact h.distinct symbol hmem other hother hvariable hvariable' hsame
  · intro symbol hmem hlabel
    rcases hentries hmem with rfl | hmem
    · cases hlabel
    · exact h.labels symbol hmem hlabel

/-- Whatever is asked of an assembler keeps its table sound. -/
theorem kept : Kept Sound := ⟨bindLabel, withVariable⟩

/-- Any number of requests keep a table sound. -/
theorem afterAll (h : table.Sound) (requests : List Request) :
    (table.afterAll requests).Sound :=
  kept.afterAll h requests

end Sound

/-- The table of a new assembler is sound. -/
theorem sound_predefined : predefined.Sound := by
  have hentries : predefined.toList = predefinedSymbols := by decide +kernel
  have hkinds {symbol : Symbol} (hmem : symbol ∈ predefined.toList) :
      symbol.kind = .predefined := by
    rw [hentries, predefinedSymbols] at hmem
    obtain ⟨entry, -, rfl⟩ := List.mem_map.mp hmem
    rfl
  have hnone {symbol : Symbol} {kind : SymbolKind} (hmem : symbol ∈ predefined.toList)
      (hkind : symbol.kind = kind) (hne : kind ≠ .predefined) : False :=
    hne (hkind.symm.trans (hkinds hmem))
  refine ⟨?_, by decide, by decide, ?_, ?_, ?_⟩
  · rw [hentries]
    decide +kernel
  · exact fun symbol hmem hkind => (hnone hmem hkind (by decide)).elim
  · exact fun symbol hmem _ _ hkind _ _ => (hnone hmem hkind (by decide)).elim
  · exact fun symbol hmem hkind => (hnone hmem hkind (by decide)).elim

end SymbolTable

/-- Whatever requests an assembler has met, with success or without, its table is
sound, no name has two entries in it, and every predefined name is found with
its kind and its address. -/
theorem symbolTable_sound_after_requests (requests : List Request) :
    (SymbolTable.predefined.afterAll requests).Sound ∧
      ((SymbolTable.predefined.afterAll requests).toList.map Symbol.name).Nodup ∧
      ∀ name address, predefinedAddress? name = some address →
        (SymbolTable.predefined.afterAll requests).kind? name = some .predefined ∧
          (SymbolTable.predefined.afterAll requests).address? name = some address := by
  have hsound := sound_predefined.afterAll requests
  refine ⟨hsound, nodup_names _, fun name address hname => ?_⟩
  rw [kind?, address?, hsound.find?_predefined hname]
  exact ⟨rfl, rfl⟩

end HK16.Assembly
