import Type2Glyphs.Fixed.SquareRoot
import Type2Glyphs.OperandStack

/-!
# Arithmetic — what stack operators do

A stack operator pops its operands, the last one first, and pushes its results.  It depends on the
stack alone, so it is a function `StackOp.apply` from stacks to stacks.

Logical results are the whole numbers zero and one.  Products, quotients and roots are 16.16
numbers; sums, differences, negatives and absolute values of whole numbers are whole.
-/

namespace Type2Glyphs

/-- The stack after a stack operator. -/
def StackOp.apply (op : StackOp) (stack : OperandStack) : Except StackFault OperandStack :=
  match op with
  | .and => do
      let (b, stack) ← stack.popFixed
      let (a, stack) ← stack.popFixed
      stack.push (.ofBool (a ≠ 0 ∧ b ≠ 0))
  | .or => do
      let (b, stack) ← stack.popFixed
      let (a, stack) ← stack.popFixed
      stack.push (.ofBool (a ≠ 0 ∨ b ≠ 0))
  | .not => do
      let (a, stack) ← stack.popFixed
      stack.push (.ofBool (a = 0))
  | .eq => do
      let (b, stack) ← stack.popFixed
      let (a, stack) ← stack.popFixed
      stack.push (.ofBool (a = b))
  | .ifelse => do
      let (v₂, stack) ← stack.popFixed
      let (v₁, stack) ← stack.popFixed
      let (s₂, stack) ← stack.pop
      let (s₁, stack) ← stack.pop
      stack.push (if v₁ ≤ v₂ then s₁ else s₂)
  | .abs => do
      let (a, stack) ← stack.pop
      stack.push a.abs
  | .neg => do
      let (a, stack) ← stack.pop
      stack.push a.neg
  | .add => do
      let (b, stack) ← stack.pop
      let (a, stack) ← stack.pop
      stack.push (a.add b)
  | .sub => do
      let (b, stack) ← stack.pop
      let (a, stack) ← stack.pop
      stack.push (a.sub b)
  | .mul => do
      let (b, stack) ← stack.popFixed
      let (a, stack) ← stack.popFixed
      stack.push (.fixed (a * b))
  | .div => do
      let (b, stack) ← stack.popFixed
      let (a, stack) ← stack.popFixed
      if b = 0 then
        throw .divideByZero
      stack.push (.fixed (a.quotient b))
  | .sqrt => do
      let (a, stack) ← stack.popFixed
      if a < 0 then
        throw (.invalidOperand .sqrt)
      stack.push (.fixed a.sqrt)
  | .drop => do
      let (_, stack) ← stack.pop
      return stack
  | .dup => stack.dup
  | .exch => stack.exch
  | .index => do
      let (depth, stack) ← stack.popInt
      stack.copyFromDepth depth.toInt
  | .roll => do
      let (shift, stack) ← stack.popInt
      let (count, stack) ← stack.popInt
      stack.roll count.toInt shift.toInt

end Type2Glyphs
