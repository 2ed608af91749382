/-!
# Machine words

Every register, memory cell, address and instruction is a word of sixteen bits.
Arithmetic on words wraps. Words are written as sixteen binary digits or four
hexadecimal ones, and read back from binary digits.
-/

namespace HK16

/-- A word of sixteen bits. -/
abbrev Word := BitVec 16

namespace Word

/-- The binary digit of a bit. -/
def bitDigit (bit : Bool) : Char := if bit then '1' else '0'

/-- The hexadecimal digit of a number below sixteen, in upper case. -/
def hexDigit (n : Nat) : Char := Char.ofNat (if n < 10 then '0'.toNat + n else 'A'.toNat + (n - 10))

/-- Sixteen binary digits, the highest bit first. -/
def binary (word : Word) : String :=
  String.ofList ((List.range 16).map fun i => bitDigit (word.getMsbD i))

/-- Four hexadecimal digits, the highest first. -/
def hex (word : Word) : String :=
  String.ofList ([4096, 256, 16, 1].map fun unit => hexDigit (word.toNat / unit % 16))

/-- The decimal text of the unsigned value. -/
def decimal (word : Word) : String := toString word.toNat

/-- A text without the plus sign in front of it. -/
def withoutPlus : List Char → List Char
  | '+' :: text => text
  | text => text

/-- Read one word from sixteen characters: binary digits, the first of which may
be replaced by a plus sign. -/
def ofBinary? (text : List Char) : Option Word :=
  let digits := withoutPlus text
  if text.length = 16 ∧ digits.all (fun c => c == '0' || c == '1') = true then
    some (digits.foldl (fun word c => word <<< 1 ||| (if c = '1' then 1 else 0)) 0)
  else none

end Word

end HK16
