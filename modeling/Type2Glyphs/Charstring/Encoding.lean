import Type2Glyphs.Charstring.Token

/-!
# Encoding — writing operands

Whole numbers of 16 bits are written in one, two or three bytes, whichever is shortest; 16.16
numbers take five.  Other whole numbers cannot be written.
-/

namespace Type2Glyphs

namespace Token

/-- What keeps a number from being written. -/
inductive EncodingFault
  | outOfRange (value : Int)
  deriving DecidableEq

/-- The wording of a fault. -/
def EncodingFault.message : EncodingFault → String
  | .outOfRange value => s!"integer {value} cannot be encoded in a charstring"

/-- The shortest bytes of a whole number. -/
def encodeInt (value : Int) : Except EncodingFault Bytes :=
  if -107 ≤ value ∧ value ≤ 107 then
    .ok (Bytes.ofInt 1 (value + 139))
  else if 108 ≤ value ∧ value ≤ 1131 then
    .ok (Bytes.ofInt 1 ((value - 108) / 256 + 247) ++ Bytes.ofInt 1 ((value - 108) % 256))
  else if -1131 ≤ value ∧ value ≤ -108 then
    .ok (Bytes.ofInt 1 ((-value - 108) / 256 + 251) ++ Bytes.ofInt 1 ((-value - 108) % 256))
  else if -32768 ≤ value ∧ value ≤ 32767 then
    .ok (shortByte :: Bytes.ofInt 2 value)
  else
    .error (.outOfRange value)

/-- The bytes of a 16.16 number. -/
def encodeFixed (value : Fixed) : Bytes :=
  fixedByte :: Bytes.ofInt 4 value.raw

/-- The bytes of an operand. -/
def encodeOperand : Operand → Except EncodingFault Bytes
  | .int value => encodeInt value.toInt
  | .fixed value => .ok (encodeFixed value)

end Token

end Type2Glyphs
