import HK16.Assembly.Fault
import HK16.Instruction.Basic
import HK16.MemoryMap
import Std.Data.TreeMap

/-!
# Symbol tables

A symbol table gives names addresses and remembers the order in which names
came first. It starts with the predefined names. A label may take over any name
but a predefined one; a variable takes the next free cell. A name that is bound
again keeps its place in the order.

The entries stand in an array in their order, and an index leads from each name
to its position. The index is exact by construction, so that no name occurs
twice.
-/

namespace HK16.Assembly

/-- How a name came into the table. -/
inductive SymbolKind
  | predefined
  | label
  | variable
  deriving Repr, DecidableEq

/-- One entry of a symbol table. -/
structure Symbol where
  /-- The name. -/
  name : String
  /-- How the name came into the table. -/
  kind : SymbolKind
  /-- The address of the name. -/
  address : Word
  deriving Repr, DecidableEq

/-- A symbol table with entries in the order of their first appearance. -/
structure SymbolTable where
  /-- The entries. -/
  entries : Array Symbol
  /-- The position of each name. -/
  index : Std.TreeMap String Nat
  /-- The cell of the next variable. -/
  nextVariable : Nat
  /-- The index leads exactly to the positions where a name stands. -/
  index_eq_some_iff : ∀ (name : String) (i : Nat),
    index[name]? = some i ↔ entries[i]?.map Symbol.name = some name

namespace SymbolTable

/-- The table without any name. -/
def empty : SymbolTable where
  entries := #[]
  index := ∅
  nextVariable := MemoryMap.variableBase
  index_eq_some_iff := by simp

/-- The entries in order. -/
def toList (table : SymbolTable) : List Symbol := table.entries.toList

/-- The entry of a name. -/
def find? (table : SymbolTable) (name : String) : Option Symbol :=
  table.index[name]?.bind fun i => table.entries[i]?

/-- Whether the name has an entry. -/
def contains (table : SymbolTable) (name : String) : Bool := table.index.contains name

/-- The address of a name. -/
def address? (table : SymbolTable) (name : String) : Option Word :=
  (table.find? name).map Symbol.address

/-- How a name came into the table. -/
def kind? (table : SymbolTable) (name : String) : Option SymbolKind :=
  (table.find? name).map Symbol.kind

/-- A position found in the index lies within the entries. -/
theorem lt_size_of_index {table : SymbolTable} {name : String} {i : Nat}
    (h : table.index[name]? = some i) : i < table.entries.size := by
  have hi := (table.index_eq_some_iff name i).mp h
  by_cases hs : i < table.entries.size
  · exact hs
  · simp [Array.getElem?_eq_none (Nat.le_of_not_lt hs)] at hi

/-- Bind a name: its entry is replaced in place, or added at the end. -/
def insert (table : SymbolTable) (symbol : Symbol) : SymbolTable :=
  match h : table.index[symbol.name]? with
  | some i =>
    { table with
      entries := table.entries.set i symbol (lt_size_of_index h)
      index_eq_some_iff := by
        intro name j
        have hi := (table.index_eq_some_iff symbol.name i).mp h
        rw [table.index_eq_some_iff]
        by_cases hij : i = j
        · subst hij
          rw [hi]
          simp [lt_size_of_index h]
        · simp [hij] }
  | none =>
    { table with
      entries := table.entries.push symbol
      index := table.index.insert symbol.name table.entries.size
      index_eq_some_iff := by
        intro name j
        rw [Std.TreeMap.getElem?_insert, Array.getElem?_push]
        by_cases hn : symbol.name = name
        · subst hn
          have hfree := table.index_eq_some_iff symbol.name j
          rw [h] at hfree
          by_cases hj : j = table.entries.size
          · simp [hj]
          · have hj' : ¬ table.entries.size = j := fun e => hj e.symm
            simpa [hj, hj'] using hfree
        · have hc : compare symbol.name name ≠ .eq := by simpa using hn
          by_cases hj : j = table.entries.size
          · have hlast := table.index_eq_some_iff name j
            simp [hj] at hlast
            simp [hc, hj, hn, hlast]
          · simp [hc, hj, table.index_eq_some_iff] }

/-- The table that holds the predefined names only. -/
def predefined : SymbolTable :=
  MemoryMap.predefined.foldl
    (fun table (name, address) => table.insert ⟨name, .predefined, address⟩) empty

/-- Bind a label to an address. Predefined names are left as they are. -/
def bindLabel (table : SymbolTable) (name : String) (address : Word) : SymbolTable :=
  if table.kind? name = some .predefined then table else table.insert ⟨name, .label, address⟩

/-- Give a name the next free cell, and return that cell. -/
def allocate (table : SymbolTable) (name : String) : Except Fault (Word × SymbolTable) :=
  if table.nextVariable ≤ Instruction.addressMax then
    let address := BitVec.ofNat 16 table.nextVariable
    let table := table.insert ⟨name, .variable, address⟩
    .ok (address, { table with nextVariable := table.nextVariable + 1 })
  else .error (.variablesExhausted name)

/-- The entries that the program itself brought in, in order. -/
def userSymbols (table : SymbolTable) : List Symbol :=
  table.toList.filter (·.kind ≠ .predefined)

end SymbolTable

end HK16.Assembly
