import Type2Glyphs.Charstring.Execute
import Type2Glyphs.Proofs.Strict.Segments
import Type2Glyphs.Proofs.Strict.Session

/-!
# Execute — operators that find their operands

The operators that need nothing but the session, with every operand read by its number, stems handed
on from an array with as many places as the stack, and contour ends in 16 bits.  Each of them
follows the operator of the same name in `Type2Glyphs.Charstring.Execute`.
-/

namespace Type2Glyphs

namespace Strict

open Eval (gets)

/-! ## Operands -/

/-- The operands from the one numbered `first` on. -/
def rest? (first : Nat) (operands : List Fixed) : Option (List Fixed) := do
  items? operands first (← minus? operands.length first)

/-- The operands from the bottom of the stack, without the width. -/
def takeOperands (extra : Nat → Bool) : StrictEval (List Fixed) := do
  let machine ← gets (·.machine)
  let operands := machine.stack.operands
  if machine.widthSeen then
    return ← rest? 0 operands
  modify (Session.mapMachine fun machine => { machine with widthSeen := true })
  if !extra operands.length then
    return ← rest? 0 operands
  let width ← operand? 0 operands
  modify (Session.mapMachine fun machine => { machine with width := some width })
  rest? 1 operands

/-- The operands of stems, which come in pairs, without the width. -/
def takeStems (op : Operator) : StrictEval (List Fixed) := do
  let values ← takeOperands fun count => count % 2 = 1
  if values.length % 2 = 1 then
    (throw (.charstring (.operandCount op)) : Eval Unit)
  return values

/-! ## Hints -/

/-- An array with a place for each operand that fits on the stack, filled from the front. -/
def buffer (values : List Fixed) : List Fixed :=
  values.take maxOperands ++ List.replicate (maxOperands - values.length) 0

/-- Counts stems and passes them on from the front of an array. -/
def declareStems (direction : StemDirection) (values : List Fixed) : StrictEval Unit := do
  modify (Session.mapMachine fun machine =>
    { machine with stemCount := machine.stemCount + values.length / 2 })
  let passed ← slice? 0 values.length (buffer values)
  Eval.callHook (.stems direction passed)

/-- Declares stems. -/
def stem (op : StemOp) : StrictEval Unit := do
  declareStems op.direction (← takeStems (.stem op))
  Eval.clearStack

/-- Declares the operands that are left as vertical stems, and reads a mask. -/
def mask (op : MaskOp) (unread : Bytes) : StrictEval Nat := do
  let values ← takeStems (.mask op)
  if values ≠ [] then
    declareStems .vertical values
  Eval.readMask op unread

/-! ## Contours -/

/-- Closes the open contour, if any, and starts one at the given point. -/
def startContour (p : Point) : StrictEval Unit := do
  mapDraft closeContour
  -- no contour is open now, so none is closed any more
  Eval.onDraft (Draft.startContour p)

/-- Moves the current point and starts a contour there. -/
def moveBy (d : Point) : StrictEval Unit := do
  modify (Session.mapMachine fun machine => { machine with position := machine.position + d })
  startContour (← gets (·.machine.position))

/-- Starts a contour. -/
def move (op : MoveOp) : StrictEval Unit := do
  let values ← takeOperands fun count => op.arity < count
  moveBy (← displacement op values)
  Eval.clearStack

/-- Opens a contour at the current point, unless one is open. -/
def ensureOpen : StrictEval Unit := do
  if !(← gets (·.draft.isOpen)) then
    startContour (← gets (·.machine.position))

/-- Draws the segments of a path operator. -/
def path (op : PathOp) : StrictEval Unit := do
  let operands ← gets (·.machine.stack.operands)
  checkCount op operands.length
  ensureOpen
  (← segments? op operands).forM fun segment => (Eval.drawSegment segment : StrictEval Unit)
  Eval.clearStack

/-! ## Storage and random numbers -/

/-- The entry of the transient array with the given number, if there is one. -/
def entry? (i : Nat) : Option (Fin transientSize) :=
  if h : i < transientSize then some ⟨i, h⟩ else none

/-- Stores an operand. -/
def put : StrictEval Unit := do
  let i ← popOperand Operand.toInt
  let value ← popOperand id
  let ⟨i, inside⟩ ← entry? (← Eval.transientIndex i.toInt)
  modify (Session.mapMachine fun machine =>
    { machine with transient := machine.transient.set i value inside })

/-- Fetches a stored operand. -/
def fetch : StrictEval Unit := do
  let i ← popOperand Operand.toInt
  let i ← entry? (← Eval.transientIndex i.toInt)
  let transient ← gets (·.machine.transient)
  changeStack (push (transient.get i))

/-- Draws a random number. -/
def random : StrictEval Unit := do
  modify fun session => { session with random := nextRandom session.random }
  let number := randomNumber (← gets (·.random))
  modify (Session.record (.drawn number))
  changeStack (push (.fixed number))

end Strict

namespace ComesTo

open Outcome Strict

/-! ## Operands -/

theorem rest?_eq {first : Nat} {operands : List Fixed} (within : first ≤ operands.length) :
    rest? first operands = some (operands.drop first) := by
  simp only [rest?, minus?_of_le within, Option.bind_eq_bind, Option.bind_some, items?_drop within]

/-- There is a width only where there are operands. -/
theorem takeOperands {extra : Nat → Bool} (none : extra 0 = false) :
    ComesTo (Strict.takeOperands extra) (Eval.takeOperands extra) fun values =>
      values.length ≤ maxOperands := by
  refine bind (P := fun machine : Machine => machine.stack.size ≤ maxOperands)
    (gets fun _ sound => sound.stack) fun machine room => ?_
  rw [← OperandStack.length_operands] at room
  generalize machine.stack.operands = operands at room
  have all : rest? 0 operands = some operands := rest?_eq (Nat.zero_le _)
  dsimp only
  cases machine.widthSeen with
  | true =>
      simp only [if_true, all]
      exact pure room
  | false =>
      simp only [all, Bool.false_eq_true, if_false]
      refine bind (mapMachine fun _ room => room) fun _ _ => ?_
      cases more : extra operands.length with
      | false => exact pure room
      | true =>
          cases operands with
          | nil =>
              rw [List.length_nil, none] at more
              cases more
          | cons width rest =>
              have tail : rest? 1 (width :: rest) = some rest := rest?_eq (Nat.le_add_left ..)
              simp only [Bool.not_true, Bool.false_eq_true, if_false, operand?, tail,
                List.getElem?_cons_zero, defined_bind]
              refine bind (mapMachine fun _ room => room) fun _ _ => ?_
              exact pure (Nat.le_of_succ_le room)

theorem takeStems (op : Operator) :
    ComesTo (Strict.takeStems op) (Eval.takeStems op) fun values =>
      values.length ≤ maxOperands := by
  refine (takeOperands rfl).bind fun values room => ?_
  dsimp only
  split
  · exact bind (P := fun _ => True) (throw _) fun _ _ => pure room
  · exact pure room

/-! ## Hints -/

/-- What was put into the array at its front is there. -/
theorem slice?_buffer {values : List Fixed} (room : values.length ≤ maxOperands) :
    slice? 0 values.length (buffer values) = some values := by
  have full : (buffer values).length = maxOperands := by
    simp only [buffer, List.length_append, List.length_take, List.length_replicate]
    omega
  rw [slice?_of_le (Nat.zero_le _) (by omega), buffer, List.take_of_length_le room]
  simp

theorem declareStems (direction : StemDirection) {values : List Fixed}
    (room : values.length ≤ maxOperands) :
    ComesTo (Strict.declareStems direction values) (Eval.declareStems direction values) := by
  simp only [Strict.declareStems, slice?_buffer room]
  exact bind (mapMachine fun _ room => room) fun _ _ => callHook _

theorem stem (op : StemOp) : ComesTo (Strict.stem op) (Eval.stem op) :=
  (takeStems _).bind fun _ room => (declareStems _ room).bind fun _ _ => clearStack

theorem readMask (op : MaskOp) (unread : Bytes) :
    ComesTo (liftM (Eval.readMask op unread)) (Eval.readMask op unread) := by
  refine total_bind (read _) fun count _ => ?_
  dsimp only
  split
  · exact throw _
  · exact total_bind (callHook _) fun _ _ => total_bind clearStack fun _ _ => pure trivial

theorem mask (op : MaskOp) (unread : Bytes) :
    ComesTo (Strict.mask op unread) (Eval.mask op unread) := by
  refine (takeStems _).bind fun values room => ?_
  dsimp only
  split
  · exact (declareStems _ room).bind fun _ _ => readMask op unread
  · exact readMask op unread

/-! ## Contours -/

/-- Drafts that fit go on to fit. -/
theorem fits : LocalDraftCoupling (fun _ => False) fun d d' => d' = d ∧ d.Fits :=
  (Draft.fits_invariant.draftCoupling _).toLocalDraftCoupling

theorem closeContour :
    ComesTo (Strict.mapDraft Strict.closeContour) (modify (Session.mapDraft Draft.closeContour)) :=
  mapDraft fun fits => ⟨closeContour_eq fits, fits.closeContour⟩

theorem startContour (p : Point) :
    ComesTo (Strict.startContour p) (Eval.onDraft (Draft.startContour p)) := by
  -- a contour that is closed already is not closed again
  have again : Eval.onDraft (Draft.startContour p) =
      modify (Session.mapDraft Draft.closeContour) >>= fun _ =>
        Eval.onDraft (Draft.startContour p) := by
    funext s
    have closed := Draft.closeContour_of_not_isOpen s.draft.isOpen_closeContour
    refine Eq.trans ?_ (bind_ok (modify_apply _ s) _).symm
    simp only [Eval.onDraft_apply, Draft.startContour_apply, Session.mapDraft_eq, closed,
      Draft.contourCount_closeContour, Draft.pointCount_closeContour]
  rw [again]
  exact closeContour.bind fun _ _ => onDraft (fits.startContour p)

theorem moveBy (d : Point) : ComesTo (Strict.moveBy d) (Eval.moveBy d) :=
  bind (mapMachine fun _ room => room) fun _ _ =>
    (read _).bind fun p _ => startContour p

theorem move (op : MoveOp) : ComesTo (Strict.move op) (Eval.move op) := by
  have given : ∀ values, Gives (displacement op values) (op.displacement values) fun _ => True :=
    fun values => ⟨displacement_eq op values, fun _ _ => trivial⟩
  refine (takeOperands (by cases op <;> rfl)).bind fun values _ => ?_
  exact (lift (given values)).bind fun d _ => (moveBy d).bind fun _ _ => clearStack

theorem ensureOpen : ComesTo Strict.ensureOpen Eval.ensureOpen := by
  refine (read _).bind fun isOpen _ => ?_
  cases isOpen with
  | true => exact done
  | false => exact (read _).bind fun p _ => startContour p

theorem drawSegment (segment : Segment) :
    ComesTo (liftM (Eval.drawSegment segment)) (Eval.drawSegment segment) := by
  refine total_bind (read _) fun p _ => ?_
  cases segment with
  | line d =>
      exact total_bind (mapMachine fun _ room => room) fun _ _ => onDraft (fits.addOnCurve _)
  | curve d₁ d₂ d₃ =>
      exact total_bind (mapMachine fun _ room => room) fun _ _ => onDraft (fits.addCurve _ _ _)

theorem path (op : PathOp) : ComesTo (Strict.path op) (Eval.path op) := by
  refine (read _).bind fun operands _ => ?_
  have given : Gives (checkCount op operands.length) (op.checkCount operands.length) fun _ =>
      segments? op operands = some (op.segments operands) :=
    ⟨checkCount_eq op _, fun _ checked => segments?_eq checked⟩
  refine (lift given).bind fun _ read => ensureOpen.bind fun _ _ => ?_
  rw [read]
  exact (forM drawSegment).bind fun _ _ => clearStack

/-! ## Storage and random numbers -/

theorem entry?_eq (i : Fin transientSize) : entry? i = some i :=
  dif_pos i.isLt

theorem transientIndex (i : Int) :
    ComesTo (liftM (Eval.transientIndex i)) (Eval.transientIndex i) := by
  simp only [Eval.transientIndex]
  split
  · exact pure trivial
  · exact throw _

theorem popInt : ComesTo (Strict.popOperand Operand.toInt) (Eval.popOperand OperandStack.popInt) :=
  popOperand fun _ => rfl

theorem popFixed :
    ComesTo (Strict.popOperand Operand.toFixed) (Eval.popOperand OperandStack.popFixed) :=
  popOperand fun _ => rfl

theorem pop : ComesTo (Strict.popOperand id) (Eval.popOperand OperandStack.pop) :=
  popOperand fun stack => by cases stack.pop <;> rfl

theorem push (value : Operand) :
    ComesTo (Strict.changeStack (Strict.push value)) (Eval.changeStack (OperandStack.push value)) :=
  changeStack fun room => push_gives room value

theorem put : ComesTo Strict.put Eval.put := by
  refine popInt.bind fun i _ => pop.bind fun value _ => (transientIndex _).bind fun i _ => ?_
  simp only [entry?_eq, defined_bind]
  exact mapMachine fun _ room => room

theorem fetch : ComesTo Strict.fetch Eval.fetch := by
  refine popInt.bind fun i _ => (transientIndex _).bind fun i _ => ?_
  simp only [entry?_eq, defined_bind]
  exact (read _).bind fun transient _ => push _

theorem random : ComesTo Strict.random Eval.random :=
  bind (change fun _ sound => ⟨sound.stack, sound.draft⟩) fun _ _ =>
    (read _).bind fun _ _ => (record _).bind fun _ _ => push _

end ComesTo

end Type2Glyphs
