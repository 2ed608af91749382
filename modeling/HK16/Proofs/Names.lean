import HK16.Bytecode.Code
import HK16.Proofs.SymbolTable
import Mathlib.Data.List.Basic
import Std.Data.String.ToNat

/-!
# Names of labels and static variables

The names that code is given are kept apart by two marks. A name that ends in a
point and a number can be divided in one way only, and predefined names contain
neither a point nor a dollar sign. From this follows which names of different
families can be equal: those of static variables and comparisons only if the
file is named like the comparison's label.
-/

namespace HK16.Bytecode

open Assembly.SymbolTable

/-- Decimal texts consist of digits. -/
theorem isDigit_of_mem_toString {n : Nat} {c : Char} (h : c ∈ (toString n).toList) :
    c.isDigit = true := by
  rw [Nat.toString_eq_repr, Nat.toList_repr] at h
  exact Nat.isDigit_of_mem_toDigits (by decide) (by decide) h

/-- If a list is divided at two items, these are the same or one stands in front
of the other. -/
theorem append_cons_cases {α : Type} {item item' : α} {front front' back back' : List α}
    (h : front ++ item :: back = front' ++ item' :: back') :
    (front = front' ∧ item = item' ∧ back = back') ∨
      (∃ middle, front' = front ++ item :: middle ∧ back = middle ++ item' :: back') ∨
      ∃ middle, front = front' ++ item' :: middle ∧ back' = middle ++ item :: back := by
  rcases List.append_eq_append_iff.mp h with ⟨middle, rfl, hm⟩ | ⟨middle, rfl, hm⟩
  · cases middle with
    | nil =>
      rw [List.nil_append, List.cons.injEq] at hm
      exact .inl ⟨(List.append_nil front).symm, hm⟩
    | cons first middle =>
      rw [List.cons_append, List.cons.injEq] at hm
      obtain ⟨rfl, hback⟩ := hm
      exact .inr (.inl ⟨middle, rfl, hback⟩)
  · cases middle with
    | nil =>
      rw [List.nil_append, List.cons.injEq] at hm
      exact .inl ⟨List.append_nil front', hm.1.symm, hm.2.symm⟩
    | cons first middle =>
      rw [List.cons_append, List.cons.injEq] at hm
      obtain ⟨rfl, hback⟩ := hm
      exact .inr (.inr ⟨middle, rfl, hback⟩)

/-- A list is divided in one way at the last occurrence of an item. -/
theorem append_cons_inj_of_last {α : Type} {item : α} {front front' back back' : List α}
    (hb : item ∉ back) (hb' : item ∉ back')
    (h : front ++ item :: back = front' ++ item :: back') : front = front' ∧ back = back' := by
  rcases append_cons_cases h with ⟨hfront, -, hback⟩ | ⟨middle, -, rfl⟩ | ⟨middle, -, rfl⟩
  · exact ⟨hfront, hback⟩
  · exact absurd (List.mem_append_right middle List.mem_cons_self) hb
  · exact absurd (List.mem_append_right middle List.mem_cons_self) hb'

/-- A point and a number at the end of a name can be told from what stands in
front of them. -/
theorem dotted_inj {s t : String} {m n : Nat} :
    s ++ "." ++ toString m = t ++ "." ++ toString n ↔ s = t ∧ m = n := by
  constructor
  · intro h
    have hdot : ∀ k : Nat, '.' ∉ (toString k).toList := fun k hk => by
      cases isDigit_of_mem_toString hk
    have hpoint : ".".toList = ['.'] := rfl
    have hlists := congrArg String.toList h
    rw [String.toList_append, String.toList_append, String.toList_append, String.toList_append,
      hpoint, List.append_assoc, List.append_assoc] at hlists
    obtain ⟨hfront, hdigits⟩ := append_cons_inj_of_last (hdot m) (hdot n) hlists
    exact ⟨String.toList_inj.mp hfront, Nat.repr_injective (String.toList_inj.mp hdigits)⟩
  · rintro ⟨rfl, rfl⟩
    rfl

/-- Names with a point or a dollar sign are not predefined. -/
theorem predefinedAddress?_eq_none {name : String}
    (h : '.' ∈ name.toList ∨ '$' ∈ name.toList) : predefinedAddress? name = none := by
  have hall : ∀ entry ∈ MemoryMap.predefined,
      '.' ∉ entry.1.toList ∧ '$' ∉ entry.1.toList := by decide +kernel
  rw [predefinedAddress?, List.lookup_eq_none_iff]
  intro entry he
  have hfree := hall entry he
  have hne : name ≠ entry.1 := by
    rintro rfl
    exact h.elim hfree.1 hfree.2
  simpa using hne

namespace Scope

/-- The label of a comparison's true branch in its two parts. -/
theorem trueLabel_eq (scope : Scope) :
    scope.trueLabel = "CMP_TRUE" ++ "." ++ toString (scope.compares + 1) := rfl

/-- The label behind a comparison in its two parts. -/
theorem endLabel_eq (scope : Scope) :
    scope.endLabel = "CMP_END" ++ "." ++ toString (scope.compares + 1) := rfl

/-- The symbol of a static variable in its two parts. -/
theorem staticName_eq (scope : Scope) (index : Word) :
    scope.staticName index = scope.file ++ "." ++ toString index.toNat := rfl

variable (scope other : Scope)

/-- Comparisons with different numbers have different labels. -/
theorem trueLabel_inj : scope.trueLabel = other.trueLabel ↔ scope.compares = other.compares := by
  rw [trueLabel_eq, trueLabel_eq, dotted_inj, and_iff_right rfl, Nat.add_right_cancel_iff]

/-- Comparisons with different numbers have different labels behind them. -/
theorem endLabel_inj : scope.endLabel = other.endLabel ↔ scope.compares = other.compares := by
  rw [endLabel_eq, endLabel_eq, dotted_inj, and_iff_right rfl, Nat.add_right_cancel_iff]

/-- The two labels of comparisons are never the same. -/
theorem trueLabel_ne_endLabel : scope.trueLabel ≠ other.endLabel := by
  rw [trueLabel_eq, endLabel_eq, Ne, dotted_inj]
  exact fun h => absurd h.1 (by decide)

/-- The name of a label contains a dollar sign. -/
theorem dollar_mem_labelName (label : String) : '$' ∈ (scope.labelName label).toList := by
  have hdollar : "$".toList = ['$'] := rfl
  rw [labelName, String.toList_append, String.toList_append, hdollar]
  simp

/-- A name that is made of a text and a number has the marks of the text and a
point. -/
theorem mem_dotted {text : String} {n : Nat} {c : Char} (hc : c.isDigit = false) :
    c ∈ (text ++ "." ++ toString n).toList ↔ c ∈ text.toList ∨ c = '.' := by
  have hdigits : c ∉ (toString n).toList := fun h => by
    rw [isDigit_of_mem_toString h] at hc
    cases hc
  have hpoint : ".".toList = ['.'] := rfl
  rw [String.toList_append, String.toList_append, hpoint, List.mem_append, List.mem_append,
    List.mem_singleton]
  simp only [hdigits, or_false]

/-- Labels of the program are never labels of comparisons. -/
theorem labelName_ne_trueLabel (label : String) : scope.labelName label ≠ other.trueLabel := by
  intro h
  have hmem := h ▸ scope.dollar_mem_labelName label
  rw [trueLabel_eq, mem_dotted (by decide)] at hmem
  revert hmem
  decide

/-- Labels of the program never stand behind comparisons. -/
theorem labelName_ne_endLabel (label : String) : scope.labelName label ≠ other.endLabel := by
  intro h
  have hmem := h ▸ scope.dollar_mem_labelName label
  rw [endLabel_eq, mem_dotted (by decide)] at hmem
  revert hmem
  decide

/-- Different labels of a function have different names. -/
theorem labelName_inj {label label' : String} :
    scope.labelName label = scope.labelName label' ↔ label = label' :=
  String.append_right_inj _

/-- Different static variables of a file have different symbols. -/
theorem staticName_inj {index index' : Word} :
    scope.staticName index = scope.staticName index' ↔ index = index' := by
  rw [staticName_eq, staticName_eq, dotted_inj, BitVec.toNat_inj, and_iff_right rfl]

/-- Outside of functions, no label is the symbol of a static variable. -/
theorem staticName_ne_labelName (h : scope.function = scope.file) (index : Word)
    (label : String) : scope.staticName index ≠ scope.labelName label := by
  rw [staticName_eq, labelName, h, String.append_assoc, String.append_assoc, Ne,
    String.append_right_inj]
  intro htexts
  have hlists := congrArg String.toList htexts
  have hpoint : ".".toList = ['.'] := rfl
  have hdollar : "$".toList = ['$'] := rfl
  rw [String.toList_append, String.toList_append, hpoint, hdollar, List.singleton_append,
    List.singleton_append, List.cons.injEq] at hlists
  exact absurd hlists.1 (by decide)

/-- Only in a file of that name is a static variable named like a comparison. -/
theorem staticName_ne_trueLabel (h : scope.file ≠ "CMP_TRUE") (index : Word) :
    scope.staticName index ≠ other.trueLabel := by
  rw [staticName_eq, trueLabel_eq, Ne, dotted_inj]
  exact fun hboth => h hboth.1

/-- Only in a file of that name is a static variable named like the end of a
comparison. -/
theorem staticName_ne_endLabel (h : scope.file ≠ "CMP_END") (index : Word) :
    scope.staticName index ≠ other.endLabel := by
  rw [staticName_eq, endLabel_eq, Ne, dotted_inj]
  exact fun hboth => h hboth.1

/-! ## No name of the code is predefined -/

@[simp] theorem predefinedAddress?_trueLabel : predefinedAddress? scope.trueLabel = none := by
  rw [trueLabel_eq]
  exact predefinedAddress?_eq_none (.inl ((mem_dotted (by decide)).mpr (.inr rfl)))

@[simp] theorem predefinedAddress?_endLabel : predefinedAddress? scope.endLabel = none := by
  rw [endLabel_eq]
  exact predefinedAddress?_eq_none (.inl ((mem_dotted (by decide)).mpr (.inr rfl)))

@[simp] theorem predefinedAddress?_staticName (index : Word) :
    predefinedAddress? (scope.staticName index) = none := by
  rw [staticName_eq]
  exact predefinedAddress?_eq_none (.inl ((mem_dotted (by decide)).mpr (.inr rfl)))

@[simp] theorem predefinedAddress?_labelName (label : String) :
    predefinedAddress? (scope.labelName label) = none :=
  predefinedAddress?_eq_none (.inr (scope.dollar_mem_labelName label))

@[simp] theorem predefinedAddress?_returnLabel : predefinedAddress? scope.returnLabel = none := by
  have hmark : "$ret.".toList = ['$', 'r', 'e', 't', '.'] := rfl
  refine predefinedAddress?_eq_none (.inr ?_)
  rw [returnLabel, String.toList_append, String.toList_append, hmark]
  simp

end Scope

end HK16.Bytecode
