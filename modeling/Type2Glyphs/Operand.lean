import Type2Glyphs.Fixed

/-!
# Operand — the numbers that glyph programs compute with

An operand is a whole number or a 16.16 number, as it was written or computed.  Operators say which
of the two they need, and the conversion is done when they read it.
-/

namespace Type2Glyphs

/-- A number on the operand stack or in the transient array. -/
inductive Operand
  | int (value : Int32)
  | fixed (value : Fixed)
  deriving DecidableEq

namespace Operand

instance : Inhabited Operand := ⟨.int 0⟩

/-- The operand as a 16.16 number; a whole number keeps its low 16 bits. -/
def toFixed : Operand → Fixed
  | .int value => .ofInt value.toInt
  | .fixed value => value

/-- The operand as a whole number, rounded down. -/
def toInt : Operand → Int32
  | .int value => value
  | .fixed value => value.floor

/-- One for true and zero for false. -/
def ofBool (b : Bool) : Operand :=
  .int (if b then 1 else 0)

/-- The absolute value, of the same kind. -/
def abs : Operand → Operand
  | .int value => .int (if value < 0 then -value else value)
  | .fixed value => .fixed value.abs

/-- The negative, of the same kind. -/
def neg : Operand → Operand
  | .int value => .int (-value)
  | .fixed value => .fixed (-value)

/-- The sum: a whole number if both operands are. -/
def add : Operand → Operand → Operand
  | .int a, .int b => .int (a + b)
  | a, b => .fixed (a.toFixed + b.toFixed)

/-- The difference: a whole number if both operands are. -/
def sub : Operand → Operand → Operand
  | .int a, .int b => .int (a - b)
  | a, b => .fixed (a.toFixed - b.toFixed)

end Operand

end Type2Glyphs
