import HK16.Text.Blank
import HK16.Text.Lines
import HK16.Text.Numeral
import HK16.Word

/-!
# Presets of memory cells

A preset `ADDR=VALUE` gives one cell of data memory its first value. The value
may be written as an unsigned or as a signed number.
-/

namespace HK16.Machine

/-- Why a text is no preset. -/
inductive PresetFault
  /-- There is no equals sign. -/
  | noEquals (text : String)
  /-- The address is no unsigned word. -/
  | badAddress (text : String) (fault : Text.NumeralFault)
  /-- The value is neither an unsigned nor a signed word. -/
  | badValue (text : String) (fault : Text.NumeralFault)
  deriving Repr, DecidableEq

/-- The text shown for a preset that cannot be read. -/
def PresetFault.message : PresetFault → String
  | noEquals text => "expected ADDR=VALUE: `" ++ text ++ "`"
  | badAddress text fault => "address `" ++ text ++ "`: " ++ fault.message
  | badValue text fault => "value `" ++ text ++ "`: " ++ fault.message

instance : ToString PresetFault := ⟨PresetFault.message⟩

/-- Read a word written as an unsigned or as a signed number. If neither can be
read, the signed reading names the fault. -/
def readWord (text : List Char) : Except Text.NumeralFault Word :=
  match Text.readNat 65535 text with
  | .ok n => .ok (BitVec.ofNat 16 n)
  | .error _ => (Text.readInt 32767 32768 text).map (BitVec.ofInt 16)

/-- Read a preset. Blanks around the address and the value are ignored; only the
value is shown without them when it is wrong. -/
def readPreset (text : String) : Except PresetFault (Word × Word) :=
  match Text.cut '=' text.toList with
  | none => .error (.noEquals text)
  | some (address, value) =>
    match Text.readNat 65535 (Text.trim address) with
    | .error fault => .error (.badAddress (String.ofList address) fault)
    | .ok n =>
      match readWord (Text.trim value) with
      | .error fault => .error (.badValue (String.ofList (Text.trim value)) fault)
      | .ok word => .ok (BitVec.ofNat 16 n, word)

end HK16.Machine
