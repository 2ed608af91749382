import HK16.Instruction.Basic

/-!
# The meaning of instruction words

The control lines of each named computation evaluate to what its mnemonic says,
as arithmetic and logic on words of sixteen bits. The word of a compute
instruction and every word of fifteen bits decode to the instruction that they
stand for.
-/

namespace HK16

namespace Computation

/-- The value that a mnemonic denotes on the two registers and the cell at `A`. -/
def denote (c : Computation) (D A M : Word) : Word :=
  match c with
  | zero => 0
  | one => 1
  | minusOne => -1
  | d => D
  | a => A
  | m => M
  | notD => ~~~D
  | notA => ~~~A
  | notM => ~~~M
  | negD => -D
  | negA => -A
  | negM => -M
  | dPlusOne => D + 1
  | aPlusOne => A + 1
  | mPlusOne => M + 1
  | dMinusOne => D - 1
  | aMinusOne => A - 1
  | mMinusOne => M - 1
  | dPlusA => D + A
  | dPlusM => D + M
  | dMinusA => D - A
  | dMinusM => D - M
  | aMinusD => A - D
  | mMinusD => M - D
  | dAndA => D &&& A
  | dAndM => D &&& M
  | dOrA => D ||| A
  | dOrM => D ||| M

/-- The control lines compute what the mnemonic denotes. -/
theorem eval_eq_denote (c : Computation) (D A M : Word) :
    c.eval D (if c.readsMemory then M else A) = c.denote D A M := by
  have hright : ∀ x : Word, x &&& 65535#16 = x := fun x => BitVec.and_allOnes
  have hleft : ∀ x : Word, 65535#16 &&& x = x := fun x => BitVec.allOnes_and
  have hor : ∀ x y : Word, ~~~(~~~x &&& ~~~y) = x ||| y := by
    intro x y
    rw [BitVec.not_and, BitVec.not_not, BitVec.not_not]
  cases c <;>
    simp only [eval, alu, control, readsMemory, denote, BitVec.getLsbD_setWidth] <;>
    simp [hright, hleft, hor] <;> bv_omega

end Computation

/-- The fields of a compute word stand side by side behind three set bits. -/
theorem Compute.toNat_encode (c : Compute) :
    c.encode.toNat = 0b111 * 8192 + c.comp.control.toNat * 64 + c.dest.bits.toNat * 8 +
      (Jump.fieldBits c.jump).toNat := by
  have hc := c.comp.control.isLt
  have hd := c.dest.bits.isLt
  have hj := (Jump.fieldBits c.jump).isLt
  rw [encode, BitVec.toNat_append, BitVec.toNat_append, BitVec.toNat_append,
    ← Nat.shiftLeft_add_eq_or_of_lt hc, ← Nat.shiftLeft_add_eq_or_of_lt hd,
    ← Nat.shiftLeft_add_eq_or_of_lt hj]
  simp only [Nat.shiftLeft_eq, BitVec.toNat_ofNat]
  omega

namespace Instruction

/-- A constant of fifteen bits is its own word. -/
theorem toNat_encode_load {value : Word} (h : value.toNat ≤ addressMax) :
    (load value).encode.toNat = value.toNat := by
  have hmask : (0x7FFF#16).toNat = 2 ^ 15 - 1 := rfl
  rw [encode, BitVec.toNat_and, hmask, Nat.and_two_pow_sub_one_eq_mod]
  rw [addressMax] at h
  omega

/-- A compute word decodes to its own fields. -/
theorem decode?_encode_compute (c : Compute) : decode? c.encode = some (.compute c) := by
  have hword : c.encode =
      0b111#3 ++ c.comp.control ++ c.dest.bits ++ Jump.fieldBits c.jump := rfl
  have hmsb : c.encode.msb = true := by
    rw [hword, BitVec.msb_append, BitVec.msb_append, BitVec.msb_append]
    rfl
  have hcomp : c.encode.extractLsb' 6 7 = c.comp.control := by
    rw [hword, BitVec.extractLsb'_append_eq_of_le (by omega),
      BitVec.extractLsb'_append_eq_of_le (by omega),
      BitVec.extractLsb'_append_eq_of_add_le (by omega), BitVec.extractLsb'_eq_self]
  have hdest : c.encode.extractLsb' 3 3 = c.dest.bits := by
    rw [hword, BitVec.extractLsb'_append_eq_of_le (by omega),
      BitVec.extractLsb'_append_eq_of_add_le (by omega), BitVec.extractLsb'_eq_self]
  have hjump : c.encode.extractLsb' 0 3 = Jump.fieldBits c.jump := by
    rw [hword, BitVec.extractLsb'_append_eq_of_add_le (by omega), BitVec.extractLsb'_eq_self]
  rw [decode?, if_pos hmsb, hcomp, hdest, hjump]
  simp

/-- A word that loads a constant is that constant, which has fifteen bits. -/
theorem eq_of_decode?_load {word value : Word} (h : decode? word = some (load value)) :
    word = value ∧ value.toNat ≤ addressMax := by
  rw [decode?] at h
  split at h
  · obtain ⟨comp, -, hcompute⟩ := Option.map_eq_some_iff.mp h
    cases hcompute
  · next hmsb =>
    cases h
    rw [BitVec.msb_eq_decide, decide_eq_true_iff] at hmsb
    rw [addressMax]
    exact ⟨rfl, by omega⟩

/-- A word of fifteen bits loads itself. -/
theorem decode?_of_toNat_le {word : Word} (h : word.toNat ≤ addressMax) :
    decode? word = some (.load word) := by
  have hmsb : word.msb = false := by
    rw [BitVec.msb_eq_decide, decide_eq_false_iff_not]
    rw [addressMax] at h
    omega
  rw [decode?, hmsb]
  rfl

end Instruction

end HK16
