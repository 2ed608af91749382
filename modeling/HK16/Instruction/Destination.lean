import HK16.Text.Blank

/-!
# Destinations

The result of a computation goes to any subset of `A`, `D` and the memory cell
at `A`. The field of an instruction holds one bit for each of them.
-/

namespace HK16

/-- The places that receive a result. -/
structure Destination where
  /-- Whether register `A` is written. -/
  a : Bool
  /-- Whether register `D` is written. -/
  d : Bool
  /-- Whether the memory cell at `A` is written. -/
  m : Bool
  deriving Repr, DecidableEq

namespace Destination

/-- The result is dropped. -/
def nowhere : Destination := ⟨false, false, false⟩

/-- Register `A` alone. -/
def toA : Destination := ⟨true, false, false⟩

/-- Register `D` alone. -/
def toD : Destination := ⟨false, true, false⟩

/-- The memory cell alone. -/
def toM : Destination := ⟨false, false, true⟩

/-- Register `A` and the memory cell at its old value. -/
def toAM : Destination := ⟨true, false, true⟩

/-- Whether the result is dropped. -/
def isEmpty (dest : Destination) : Bool := !(dest.a || dest.d || dest.m)

/-- The three bits of the field: `A`, `D`, memory. -/
def bits (dest : Destination) : BitVec 3 :=
  BitVec.ofBool dest.a ++ BitVec.ofBool dest.d ++ BitVec.ofBool dest.m

/-- The destination with the given bits. -/
def ofBits (bits : BitVec 3) : Destination :=
  ⟨bits.getLsbD 2, bits.getLsbD 1, bits.getLsbD 0⟩

/-- Every destination, in the order of their bits. -/
def all : List Destination := (List.range 8).map fun n => ofBits (BitVec.ofNat 3 n)

/-- The letters of the places in the order `A`, `M`, `D`. -/
def text (dest : Destination) : String :=
  (if dest.a then "A" else "") ++ (if dest.m then "M" else "") ++ (if dest.d then "D" else "")

/-- Add the places that letters name to a destination. A letter that names no
place, or one that is already present, is refused. -/
def addLetters (dest : Destination) : List Char → Option Destination
  | [] => some dest
  | 'A' :: letters => if dest.a then none else addLetters { dest with a := true } letters
  | 'D' :: letters => if dest.d then none else addLetters { dest with d := true } letters
  | 'M' :: letters => if dest.m then none else addLetters { dest with m := true } letters
  | _ => none

/-- Read a destination: letters in any order, each at most once, blanks around
them ignored. -/
def parse? (text : List Char) : Option Destination := addLetters nowhere (Text.trim text)

/-- The bits of a destination determine it. -/
@[simp] theorem ofBits_bits (dest : Destination) : ofBits dest.bits = dest := by
  rcases dest with ⟨_ | _, _ | _, _ | _⟩ <;> decide

/-- Every value of the field is the bits of one destination. -/
@[simp] theorem bits_ofBits (field : BitVec 3) : (ofBits field).bits = field := by
  revert field
  decide

end Destination

end HK16
