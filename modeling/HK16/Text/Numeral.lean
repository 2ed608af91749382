/-!
# Decimal numerals

A numeral is an optional sign and at least one ASCII digit. Leading zeros are
fine, group marks are not. Reading stops at the first letter that decides the
outcome: a letter that is no digit is named before a range is exceeded by it,
and a range that is exceeded earlier wins over a bad letter that comes later.
-/

namespace HK16.Text

/-- Why a text is not a numeral of the wanted range. -/
inductive NumeralFault
  /-- There are no characters at all. -/
  | empty
  /-- A character is not a digit, or there is only a sign. -/
  | badDigit
  /-- The value is above the range. -/
  | tooLarge
  /-- The value is below the range. -/
  | tooSmall
  deriving Repr, DecidableEq

/-- The text shown for a numeral that cannot be read. -/
def NumeralFault.message : NumeralFault → String
  | .empty => "cannot parse integer from empty string"
  | .badDigit => "invalid digit found in string"
  | .tooLarge => "number too large to fit in target type"
  | .tooSmall => "number too small to fit in target type"

/-- The value of a decimal digit. -/
def digitValue (c : Char) : Nat := c.toNat - '0'.toNat

/-- Continue a decimal number by further digits. -/
def decimalFrom (value : Nat) (digits : List Char) : Nat :=
  digits.foldl (fun value c => value * 10 + digitValue c) value

/-- The number that a row of decimal digits denotes. -/
def decimal (digits : List Char) : Nat := decimalFrom 0 digits

/-- Continue a number by digits as long as it stays within the limit; `excess`
is the fault of a number beyond it. -/
def readDigits (limit : Nat) (excess : NumeralFault) (value : Nat) :
    List Char → Except NumeralFault Nat
  | [] => .ok value
  | c :: digits =>
    if c.isDigit then
      let value := value * 10 + digitValue c
      if value ≤ limit then readDigits limit excess value digits else .error excess
    else .error .badDigit

/-- Read a number from 0 to the limit, with an optional plus sign. -/
def readNat (limit : Nat) : List Char → Except NumeralFault Nat
  | [] => .error .empty
  | ['+'] => .error .badDigit
  | '+' :: digits => readDigits limit .tooLarge 0 digits
  | digits => readDigits limit .tooLarge 0 digits

/-- Read a number from the negated second limit to the first one, with an
optional sign. -/
def readInt (most least : Nat) : List Char → Except NumeralFault Int
  | ['-'] => .error .badDigit
  | '-' :: digits => (readDigits least .tooSmall 0 digits).map fun n => -(n : Int)
  | text => (readNat most text).map fun n => (n : Int)

/-- Reading digits succeeds exactly on rows of digits whose value stays within
the limit, and then returns that value. -/
theorem readDigits_eq_ok_iff {limit value result : Nat} {excess : NumeralFault}
    {digits : List Char} (h : value ≤ limit) :
    readDigits limit excess value digits = .ok result ↔
      (∀ c ∈ digits, c.isDigit = true) ∧ decimalFrom value digits = result ∧ result ≤ limit := by
  induction digits generalizing value with
  | nil =>
    simp only [readDigits, Except.ok.injEq, List.not_mem_nil, false_implies, implies_true,
      decimalFrom, List.foldl_nil, true_and]
    constructor
    · rintro rfl
      exact ⟨rfl, h⟩
    · exact fun e => e.1
  | cons c digits ih =>
    by_cases hd : c.isDigit = true
    · by_cases hl : value * 10 + digitValue c ≤ limit
      · simp [readDigits, hd, hl, ih hl, decimalFrom]
      · simp only [readDigits, hd, if_true, hl, if_false]
        constructor
        · intro e
          cases e
        · rintro ⟨-, e, hr⟩
          exfalso
          apply hl
          have grows : ∀ (ds : List Char) (v : Nat), v ≤ decimalFrom v ds := by
            intro ds
            induction ds with
            | nil => intro v; exact Nat.le_refl v
            | cons d ds ihd =>
              intro v
              have step := ihd (v * 10 + digitValue d)
              simp only [decimalFrom, List.foldl_cons] at step ⊢
              omega
          have bound := grows digits (value * 10 + digitValue c)
          simp only [decimalFrom, List.foldl_cons] at bound e
          omega
    · simp [readDigits, hd]

end HK16.Text
