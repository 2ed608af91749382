import HK16.Text.Blank
import HK16.Word

/-!
# Jump conditions

A compute instruction may jump, depending on the sign of its result. The field
of an instruction has one bit for each of negative, zero and positive; the value
zero means that there is no jump and is no condition of its own.
-/

namespace HK16

/-- The conditions on the result under which a jump is taken. -/
inductive Jump
  | gt
  | eq
  | ge
  | lt
  | ne
  | le
  | always
  deriving Repr, DecidableEq

namespace Jump

/-- Every condition, in the order of their bits. -/
def all : List Jump := [gt, eq, ge, lt, ne, le, always]

/-- The mnemonic. -/
def text : Jump → String
  | gt => "JGT"
  | eq => "JEQ"
  | ge => "JGE"
  | lt => "JLT"
  | ne => "JNE"
  | le => "JLE"
  | always => "JMP"

/-- The three bits: taken if negative, if zero, if positive. -/
def bits : Jump → BitVec 3
  | gt => 0b001#3
  | eq => 0b010#3
  | ge => 0b011#3
  | lt => 0b100#3
  | ne => 0b101#3
  | le => 0b110#3
  | always => 0b111#3

/-- The condition with the given bits; `none` for the field without a jump. -/
def ofBits? (bits : BitVec 3) : Option Jump := all.find? (·.bits == bits)

/-- The field of an optional jump. -/
def fieldBits : Option Jump → BitVec 3
  | none => 0
  | some jump => jump.bits

/-- Read a mnemonic; blanks around it are ignored, its case is not. -/
def parse? (text : List Char) : Option Jump :=
  let letters := String.ofList (Text.trim text)
  all.find? (·.text == letters)

/-- The condition of the given name in exchanged data. -/
def ofIdentifier? (name : String) : Option Jump := all.find? (·.text == name)

/-- Whether the jump is taken on a result, which is read as a signed number: one
bit decides about negative results, one about zero and one about positive results. -/
def holds (jump : Jump) (out : Word) : Bool :=
  (jump.bits &&& 0b100#3 != 0#3 && decide (out.toInt < 0)) ||
    (jump.bits &&& 0b010#3 != 0#3 && decide (out.toInt = 0)) ||
    (jump.bits &&& 0b001#3 != 0#3 && decide (0 < out.toInt))

/-- The three bits of a jump make up the relation to zero that it is named for. -/
theorem holds_eq (jump : Jump) (out : Word) :
    jump.holds out = match jump with
      | gt => decide (0 < out.toInt)
      | eq => decide (out.toInt = 0)
      | ge => decide (0 ≤ out.toInt)
      | lt => decide (out.toInt < 0)
      | ne => decide (out.toInt ≠ 0)
      | le => decide (out.toInt ≤ 0)
      | always => true := by
  rw [holds, Bool.eq_iff_iff]
  -- Once the bits are those of a condition, what is left compares its signs with its name.
  cases jump <;>
    simp only [bits, BitVec.reduceAnd, BitVec.reduceBNe, Bool.false_and, Bool.true_and,
      Bool.or_eq_true, Bool.false_eq_true, decide_eq_true_eq, false_or, or_false, iff_true] <;>
    omega

/-- The field of an optional jump determines it. -/
@[simp] theorem ofBits?_fieldBits (jump : Option Jump) : ofBits? (fieldBits jump) = jump := by
  rcases jump with _ | jump
  · decide
  · cases jump <;> decide

/-- Every value of the field is that of one optional jump. -/
@[simp] theorem fieldBits_ofBits? (field : BitVec 3) : fieldBits (ofBits? field) = field := by
  revert field
  decide

end Jump

end HK16
