import Type2Glyphs.Charstring.Arithmetic
import Type2Glyphs.Charstring.Operands
import Type2Glyphs.Charstring.Segment
import Type2Glyphs.Load.Session
import Type2Glyphs.RandomStream

/-!
# Execute — operators that need nothing but the session

Hint operators, moves, path operators, and the operators of the transient array and the random
numbers.  What is left are the operators that run other programs, see
`Type2Glyphs.Charstring.Evaluate`.

The first operator that declares stems, carries a mask, moves or ends the glyph may have one operand
more than it needs.  This one is at the bottom of the stack and is the width of the glyph.
-/

namespace Type2Glyphs

namespace Eval

/-! ## Operands -/

/-- The operands from the bottom of the stack, without the width.  `extra` says whether their number
leaves room for a width; whether there is one is decided only once. -/
def takeOperands (extra : Nat → Bool) : Eval (List Fixed) := do
  let machine ← gets (·.machine)
  let operands := machine.stack.operands
  if machine.widthSeen then
    return operands
  modify (.mapMachine fun machine => { machine with widthSeen := true })
  if !extra operands.length then
    return operands
  modify (.mapMachine fun machine => { machine with width := operands.head? })
  return operands.tail

/-- The operands of stems, which come in pairs, without the width. -/
def takeStems (op : Operator) : Eval (List Fixed) := do
  let values ← takeOperands fun count => count % 2 = 1
  if values.length % 2 = 1 then
    throw (.charstring (.operandCount op))
  return values

/-! ## Hints -/

/-- Counts stems and passes them on. -/
def declareStems (direction : StemDirection) (values : List Fixed) : Eval Unit := do
  modify (.mapMachine fun machine =>
    { machine with stemCount := machine.stemCount + values.length / 2 })
  callHook (.stems direction values)

/-- Declares stems. -/
def stem (op : StemOp) : Eval Unit := do
  declareStems op.direction (← takeStems (.stem op))
  clearStack

/-- Reads a mask from the bytes after the operator and passes it on, and gives its length. -/
def readMask (op : MaskOp) (unread : Bytes) : Eval Nat := do
  let size := ((← gets (·.machine.stemCount)) + 7) / 8
  match unread.split? size with
  | none => throw (.charstring .unexpectedEnd)
  | some (bits, _) =>
      callHook (op.call bits)
      clearStack
      return size

/-- Declares the operands that are left as vertical stems, and reads a mask. -/
def mask (op : MaskOp) (unread : Bytes) : Eval Nat := do
  let values ← takeStems (.mask op)
  -- the stems count for the length of the mask
  if values ≠ [] then
    declareStems .vertical values
  readMask op unread

/-! ## Contours -/

/-- Moves the current point and starts a contour there. -/
def moveBy (d : Point) : Eval Unit := do
  modify (.mapMachine fun machine => { machine with position := machine.position + d })
  onDraft (Draft.startContour (← gets (·.machine.position)))

/-- Starts a contour. -/
def move (op : MoveOp) : Eval Unit := do
  let values ← takeOperands fun count => op.arity < count
  moveBy (← lift (op.displacement values))
  clearStack

/-- Opens a contour at the current point, unless one is open. -/
def ensureOpen : Eval Unit := do
  if !(← gets (·.draft.isOpen)) then
    onDraft (Draft.startContour (← gets (·.machine.position)))

/-- Appends a segment to the open contour. -/
def drawSegment (segment : Segment) : Eval Unit := do
  let p ← gets (·.machine.position)
  match segment with
  | .line d =>
      let q := p + d
      modify (.mapMachine fun machine => { machine with position := q })
      onDraft (Draft.addOnCurve q)
  | .curve d₁ d₂ d₃ =>
      let c₁ := p + d₁
      let c₂ := c₁ + d₂
      let q := c₂ + d₃
      modify (.mapMachine fun machine => { machine with position := q })
      onDraft (Draft.addCurve c₁ c₂ q)

/-- Draws the segments of a path operator. -/
def path (op : PathOp) : Eval Unit := do
  let operands ← gets (·.machine.stack.operands)
  lift (op.checkCount operands.length)
  ensureOpen
  (op.segments operands).forM drawSegment
  clearStack

/-! ## Storage and random numbers -/

/-- Checks the number of an entry of the transient array. -/
def transientIndex (i : Int) : Eval (Fin transientSize) :=
  if h : 0 ≤ i ∧ i.toNat < transientSize then
    return ⟨i.toNat, h.2⟩
  else
    throw (.stack (.invalidTransientIndex i))

/-- Stores an operand. -/
def put : Eval Unit := do
  let i ← popOperand OperandStack.popInt
  let value ← popOperand OperandStack.pop
  let i ← transientIndex i.toInt
  modify (.mapMachine fun machine =>
    { machine with transient := machine.transient.set i value })

/-- Fetches a stored operand. -/
def fetch : Eval Unit := do
  let i ← popOperand OperandStack.popInt
  let i ← transientIndex i.toInt
  let transient ← gets (·.machine.transient)
  changeStack (OperandStack.push transient[i])

/-- Draws a random number. -/
def random : Eval Unit := do
  modify fun session => { session with random := nextRandom session.random }
  let number := randomNumber (← gets (·.random))
  modify (.record (.drawn number))
  changeStack (OperandStack.push (.fixed number))

end Eval

end Type2Glyphs
