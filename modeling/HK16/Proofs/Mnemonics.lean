import HK16.Proofs.Execution

/-!
# Instructions do what their mnemonics say

The letters of a computation can be read as a small expression on the registers
and the cell at `A`: an operand, a sign and an operand, or two operands with an
operator between them. Sums, differences and negatives are those of signed
numbers, brought back to sixteen bits. The letters of a jump name a relation to
zero. A step on a compute word agrees with this reading, although the machine
works with control lines. The flag of the endless loop is left out.
-/

namespace HK16

namespace Mnemonic

/-- The value of a digit, a register or the cell at `A`. -/
def operand? (D A M : Word) : Char → Option Word
  | '0' => some 0
  | '1' => some 1
  | 'D' => some D
  | 'A' => some A
  | 'M' => some M
  | _ => none

/-- What a sign in front of an operand does. -/
def sign? : Char → Option (Word → Word)
  | '-' => some fun x => BitVec.ofInt 16 (-x.toInt)
  | '!' => some fun x => ~~~x
  | _ => none

/-- What an operator between two operands does. -/
def operator? : Char → Option (Word → Word → Word)
  | '+' => some fun x y => BitVec.ofInt 16 (x.toInt + y.toInt)
  | '-' => some fun x y => BitVec.ofInt 16 (x.toInt - y.toInt)
  | '&' => some fun x y => x &&& y
  | '|' => some fun x y => x ||| y
  | _ => none

/-- The value that the letters of a computation denote. -/
def value? (D A M : Word) : List Char → Option Word
  | [x] => operand? D A M x
  | [sign, x] => do return (← sign? sign) (← operand? D A M x)
  | [x, operator, y] => do
    return (← operator? operator) (← operand? D A M x) (← operand? D A M y)
  | _ => none

/-- Whether a signed number stands to zero as the letters of a jump say. -/
def relates (letters : String) (value : Int) : Bool :=
  match letters with
  | "JGT" => decide (0 < value)
  | "JEQ" => decide (value = 0)
  | "JGE" => decide (0 ≤ value)
  | "JLT" => decide (value < 0)
  | "JNE" => decide (value ≠ 0)
  | "JLE" => decide (value ≤ 0)
  | "JMP" => true
  | _ => false

/-- The letters of every computation denote a value, which is the one of the
computation. -/
theorem value?_text (c : Computation) (D A M : Word) :
    value? D A M c.text.toList = some (c.denote D A M) := by
  have hadd (x y : Word) : BitVec.ofInt 16 (x.toInt + y.toInt) = x + y := by
    rw [BitVec.ofInt_add, BitVec.ofInt_toInt, BitVec.ofInt_toInt]
  have hneg (x : Word) : BitVec.ofInt 16 (-x.toInt) = -x := by
    rw [BitVec.ofInt_neg, BitVec.ofInt_toInt]
  have hsub (x y : Word) : BitVec.ofInt 16 (x.toInt - y.toInt) = x - y := by
    rw [Int.sub_eq_add_neg, BitVec.ofInt_add, BitVec.ofInt_neg, BitVec.ofInt_toInt,
      BitVec.ofInt_toInt, BitVec.sub_eq_add_neg]
  cases c <;>
    simp [Computation.text, Computation.denote, value?, operand?, sign?, operator?, hadd, hneg,
      hsub]

/-- The letters of a jump name the relation on which it is taken. -/
theorem relates_text (jump : Jump) (value : Word) :
    relates jump.text value.toInt = jump.holds value := by
  rw [Jump.holds_eq]
  cases jump <;> rfl

end Mnemonic

namespace Machine

/-- A step on a compute word computes the value that the letters of its
computation denote on the registers and the cell at `A` as they were. It writes
this value to the places of the destination and to no other, the cell being the
one at the old `A`, and goes on at the old `A` if the value, as a signed number,
stands to zero as the letters of the jump say, else at the next word. -/
theorem step_performs_mnemonic {state : State} {word : Word} {fields : Compute}
    (hword : state.word? = some word)
    (hdecode : Instruction.decode? word = some (.compute fields)) :
    ∃ next value, state.step = .ok next ∧
      Mnemonic.value? state.d state.a (state.memory.get state.a) fields.comp.text.toList =
        some value ∧
      next.rom = state.rom ∧
      next.a = (if fields.dest.a then value else state.a) ∧
      next.d = (if fields.dest.d then value else state.d) ∧
      (∀ address, next.memory.get address =
        if fields.dest.m ∧ address = state.a then value else state.memory.get address) ∧
      next.pc = if fields.jump.any fun jump => Mnemonic.relates jump.text value.toInt
        then state.a else state.pc + 1 := by
  have hstep : state.step = .ok (state.execute (.compute fields)) := by
    simp only [State.step, State.fetch, hword, hdecode]
  refine ⟨state.execute (.compute fields), state.result fields.comp, hstep, ?_, rfl, rfl, rfl,
    fun address => ?_, ?_⟩
  · rw [Mnemonic.value?_text, state.result_eq]
    rfl
  · rw [State.execute]
    dsimp only
    cases fields.dest.m with
    | true => simp only [if_true, true_and, Memory.get_set, eq_comm]
    | false => simp only [Bool.false_eq_true, if_false, false_and]
  · have htaken : State.jumps fields.jump (state.result fields.comp) = fields.jump.any fun jump =>
        Mnemonic.relates jump.text (state.result fields.comp).toInt := by
      cases fields.jump with
      | none => rfl
      | some jump => exact (Mnemonic.relates_text jump _).symm
    rw [← htaken]
    rfl

/-- The word of `AMD=M-1;JGE`. -/
def sampleDecrement : Rom := ⟨#[0b1111110010111011#16], by decide⟩

/-- The cell at the address five counts down to zero and the machine jumps to the
address five, although the same step puts the zero into `A`. -/
theorem sampleDecrement_performed :
    ∃ next, State.step { (State.initial.preset [(5, 1)]).start sampleDecrement with a := 5 } =
        .ok next ∧
      next.a = 0 ∧ next.d = 0 ∧ next.memory.get 5 = 0 ∧ next.pc = 5 := by
  obtain ⟨start, hstart⟩ : ∃ start : State,
      start = { (State.initial.preset [(5, 1)]).start sampleDecrement with a := 5 } := ⟨_, rfl⟩
  have hword : start.word? = some 0b1111110010111011#16 := by rw [hstart]; rfl
  have ha : start.a = 5 := by rw [hstart]
  have hcell : start.memory.get 5 = 1 := by
    rw [hstart]
    exact Memory.get_set_self _ _ _
  obtain ⟨next, value, hstep, hvalue, -, hnexta, hnextd, hmemory, hpc⟩ :=
    step_performs_mnemonic hword
      (by decide : Instruction.decode? 0b1111110010111011#16 =
        some (.compute ⟨⟨true, true, true⟩, .mMinusOne, some .ge⟩))
  rw [ha, hcell] at hvalue
  have hzero : value = 0 := by
    have hread : Mnemonic.value? start.d 5 1 "M-1".toList = some 0 := by rfl
    exact Option.some.inj (hvalue.symm.trans hread)
  rw [hzero] at hnexta hnextd hmemory hpc
  rw [← hstart]
  refine ⟨next, hstep, hnexta, hnextd, ?_, ?_⟩
  · rw [hmemory, if_pos ⟨rfl, ha.symm⟩]
  · rw [hpc, ← ha]
    rfl

end Machine

end HK16
