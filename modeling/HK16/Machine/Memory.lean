import HK16.Word

/-!
# Data memory

Data memory has a cell for each of the 65536 addresses. Reading after writing
follows the two usual laws, and two memories that read the same everywhere are
equal.
-/

namespace HK16

/-- The contents of data memory. -/
structure Memory where
  /-- One word for each address. -/
  cells : Vector Word 65536
  deriving DecidableEq

namespace Memory

/-- Memory whose cells are all zero. -/
def zero : Memory := ⟨Vector.replicate 65536 0⟩

/-- The word at an address. -/
def get (memory : Memory) (address : Word) : Word := getElem memory.cells address.toNat address.isLt

/-- Write a word to an address. -/
def set (memory : Memory) (address value : Word) : Memory :=
  ⟨memory.cells.set address.toNat value address.isLt⟩

/-- Write several words, one after the other. -/
def setAll (memory : Memory) (presets : List (Word × Word)) : Memory :=
  presets.foldl (fun memory (address, value) => memory.set address value) memory

/-- The cells that are not zero, with their addresses, in address order. -/
def nonzero (memory : Memory) : List (Word × Word) :=
  (List.range 65536).filterMap fun n =>
    let address := BitVec.ofNat 16 n
    let value := memory.get address
    if value = 0 then none else some (address, value)

/-- Every cell of zeroed memory is zero. -/
@[simp] theorem get_zero (address : Word) : zero.get address = 0 := by
  simp [zero, get]

/-- A cell that was written holds the word. -/
@[simp] theorem get_set_self (memory : Memory) (address value : Word) :
    (memory.set address value).get address = value := by
  simp [set, get]

/-- A write leaves the other cells as they are. -/
theorem get_set_of_ne (memory : Memory) {written read : Word} (value : Word)
    (h : written ≠ read) : (memory.set written value).get read = memory.get read := by
  have hn : written.toNat ≠ read.toNat := fun e => h (BitVec.eq_of_toNat_eq e)
  simp [set, get, hn]

/-- Reading after writing, in one equation. -/
theorem get_set (memory : Memory) (written read value : Word) :
    (memory.set written value).get read = if written = read then value else memory.get read := by
  by_cases h : written = read
  · subst h
    simp
  · simp [h, get_set_of_ne memory value h]

/-- Memories that agree on every cell are equal. -/
theorem ext_get {left right : Memory} (h : ∀ address, left.get address = right.get address) :
    left = right := by
  rcases left with ⟨left⟩
  rcases right with ⟨right⟩
  simp only [mk.injEq]
  refine Vector.ext fun i hi => ?_
  have key := h (BitVec.ofNat 16 i)
  have place : (BitVec.ofNat 16 i).toNat = i := by
    rw [BitVec.toNat_ofNat, Nat.mod_eq_of_lt hi]
  simpa only [get, place] using key

end Memory

end HK16
