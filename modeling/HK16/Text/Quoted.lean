import HK16.Text.Invisible

/-!
# Quoted text

A text between double quotes, in which the quote, the backslash and every
character without a shape of its own are written as escapes.
-/

namespace HK16.Text

/-- The lower-case hexadecimal digits of a number. -/
def hexText (n : Nat) : String := String.ofList (Nat.toDigits 16 n)

/-- One character inside quotes. -/
def escape (c : Char) : String :=
  if c = '"' then "\\\""
  else if c = '\\' then "\\\\"
  else if c = '\n' then "\\n"
  else if c = '\r' then "\\r"
  else if c = '\t' then "\\t"
  else if c.toNat = 0 then "\\0"
  else if isInvisible c then "\\u\x7b" ++ hexText c.toNat ++ "\x7d"
  else String.singleton c

/-- The text in double quotes. -/
def quote (text : String) : String :=
  "\"" ++ text.toList.foldl (fun done c => done ++ escape c) "" ++ "\""

end HK16.Text
