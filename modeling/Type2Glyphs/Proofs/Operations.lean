import Type2Glyphs.Charstring.Execute
import Type2Glyphs.Proofs.Outcome

/-!
# Operations — what the parts of operators do to a session

Operators take and push operands, move the current point and draw on the draft.  One theorem for
each of these steps says what it does as a condition and a change of the session.
-/

namespace Type2Glyphs

/-- A move takes as many operands as it needs. -/
theorem MoveOp.length_of_displacement {op : MoveOp} {operands : List Fixed} {d : Point}
    (moves : op.displacement operands = .ok d) : operands.length = op.arity := by
  simp only [displacement] at moves
  split at moves
  · rfl
  · rfl
  · rfl
  · split at moves <;> cases moves

namespace Eval

open Outcome

/-- The operands are those on the stack, without a width if there is one that was not looked for
before. -/
theorem takeOperands_apply (extra : Nat → Bool) (s : Session) :
    takeOperands extra s =
      if s.machine.widthSeen then
        .ok s.machine.stack.operands s
      else if extra s.machine.stack.size then
        .ok s.machine.stack.operands.tail (s.mapMachine fun machine =>
          { machine with widthSeen := true, width := s.machine.stack.operands.head? })
      else
        .ok s.machine.stack.operands (s.mapMachine fun machine =>
          { machine with widthSeen := true }) := by
  simp only [takeOperands]
  rw [bind_ok (gets_apply s)]
  cases s.machine.widthSeen with
  | true => rfl
  | false =>
      simp only [Bool.false_eq_true, if_false]
      rw [bind_ok (modify_apply _ s), OperandStack.length_operands]
      cases extra s.machine.stack.size <;> rfl

theorem moveBy_apply (d : Point) (s : Session) :
    moveBy d s = onDraft (Draft.startContour (s.machine.position + d))
      (s.mapMachine fun machine => { machine with position := s.machine.position + d }) :=
  rfl

/-- A contour is started where none is open. -/
theorem ensureOpen_apply (s : Session) :
    ensureOpen s =
      if s.draft.isOpen then .ok () s
      else onDraft (Draft.startContour s.machine.position) s := by
  apply (bind_ok (gets_apply s) _).trans
  cases s.draft.isOpen <;> rfl

theorem drawSegment_line (d : Point) (s : Session) :
    drawSegment (.line d) s = onDraft (Draft.addOnCurve (s.machine.position + d))
      (s.mapMachine fun machine => { machine with position := s.machine.position + d }) :=
  rfl

theorem drawSegment_curve (d₁ d₂ d₃ : Point) (s : Session) :
    drawSegment (.curve d₁ d₂ d₃) s =
      onDraft (Draft.addCurve (s.machine.position + d₁) (s.machine.position + d₁ + d₂)
        (s.machine.position + d₁ + d₂ + d₃)) (s.mapMachine fun machine =>
          { machine with position := s.machine.position + d₁ + d₂ + d₃ }) :=
  rfl

/-- An operand is pushed if there is room for it. -/
theorem push_apply (value : Operand) (s : Session) :
    changeStack (OperandStack.push value) s =
      if s.machine.stack.size < maxOperands then
        .ok () (s.mapMachine fun machine =>
          { machine with stack := ⟨value :: machine.stack.entries⟩ })
      else
        .error (.stack .overflow) s := by
  split
  · next room =>
      exact changeStack_eq_ok.2 ⟨_, OperandStack.push_eq_ok_iff.2 ⟨room, rfl⟩, rfl⟩
  · next full =>
      have refused : OperandStack.push value s.machine.stack = .error .overflow := if_neg full
      simp only [changeStack, bind_apply, gets_apply, andThen, refused]
      rfl

/-- A random number is drawn and recorded, and then it is pushed. -/
theorem random_apply (s : Session) :
    random s = changeStack (OperandStack.push (.fixed (randomNumber (nextRandom s.random))))
      ({ s with random := nextRandom s.random }.record
        (.drawn (randomNumber (nextRandom s.random)))) := by
  apply (bind_ok (modify_apply _ s) _).trans
  apply (bind_ok (gets_apply _) _).trans
  exact bind_ok (modify_apply _ _) _

end Eval

end Type2Glyphs
