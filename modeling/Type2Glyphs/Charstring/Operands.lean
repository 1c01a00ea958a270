import Type2Glyphs.Fault
import Type2Glyphs.Geometry

/-!
# Operands — how many operands an operator takes

Operators that empty the stack read all operands from it, so the number of operands has to be right.
Too few are a fault of the stack; more than can be read are a fault of the program.
-/

namespace Type2Glyphs

/-! ## Numbers of operands -/

/-- Checks for exactly `wanted` operands. -/
def Operator.expectCount (op : Operator) (wanted count : Nat) : Except LoadError Unit :=
  if count < wanted then
    .error (.stack .underflow)
  else if count ≠ wanted then
    .error (.charstring (.operandCount op))
  else
    .ok ()

/-- Checks for one or more groups of operands, and `extra` operands beside them. -/
def Operator.expectGroups (op : Operator) (group extra count : Nat) : Except LoadError Unit :=
  if count < group + extra then
    .error (.stack .underflow)
  else if (count - extra) % group ≠ 0 then
    .error (.charstring (.operandCount op))
  else
    .ok ()

/-! ## Path operators -/

/-- Checks the number of operands of a path operator. -/
def PathOp.checkCount (op : PathOp) (count : Nat) : Except LoadError Unit :=
  match op with
  | .rlineto => (Operator.path op).expectGroups 2 0 count
  | .hlineto | .vlineto => (Operator.path op).expectGroups 1 0 count
  | .rrcurveto => (Operator.path op).expectGroups 6 0 count
  | .rcurveline => (Operator.path op).expectGroups 6 2 count
  | .rlinecurve => (Operator.path op).expectGroups 2 6 count
  | .vvcurveto | .hhcurveto | .vhcurveto | .hvcurveto =>
      (Operator.path op).expectGroups 4 (count % 2) count
  | .hflex => (Operator.path op).expectCount 7 count
  | .flex => (Operator.path op).expectCount 13 count
  | .hflex1 => (Operator.path op).expectCount 9 count
  | .flex1 => (Operator.path op).expectCount 11 count

/-! ## Moves -/

/-- The number of operands of a move. -/
def MoveOp.arity : MoveOp → Nat
  | .rmoveto => 2
  | .hmoveto | .vmoveto => 1

/-- How far a move goes. -/
def MoveOp.displacement (op : MoveOp) (operands : List Fixed) : Except LoadError Point :=
  match op, operands with
  | .rmoveto, [dx, dy] => .ok ⟨dx, dy⟩
  | .hmoveto, [dx] => .ok ⟨dx, 0⟩
  | .vmoveto, [dy] => .ok ⟨0, dy⟩
  | op, operands =>
      if operands.length < op.arity then
        .error (.stack .underflow)
      else
        .error (.charstring (.operandCount (.move op)))

end Type2Glyphs
