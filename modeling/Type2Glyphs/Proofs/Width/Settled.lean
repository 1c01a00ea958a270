import Type2Glyphs.Proofs.Operations
import Type2Glyphs.Proofs.Width.Remade

/-!
# Settled — runs after the width was looked for

Of two runs that have looked for a width only the second one found one.  From then on the width is
not looked for again, and all that the two do is the same.

* `Machine.settle below width` gives the machine the width, and puts operands below its own;
* `Session.Settled below width` relates sessions with machines of which one is made from the other
  in this way.  The operands are below only until the stack is cleared by the operator that looked
  for the width;
* `Session.Settled.operatorLaw` and `Session.Settled.closingLaw` say that operators go in step when
  they are gone.
-/

namespace Type2Glyphs

open Outcome

/-- The machine with operands below its own, and with a width. -/
def Machine.settle (below : List Operand) (width : Fixed) (machine : Machine) : Machine :=
  { machine with stack := machine.stack.above below, width := some width }

/-- Sessions after the width was looked for.  Only the second one has found one. -/
abbrev Session.Settled (below : List Operand) (width : Fixed) : Session → Session → Prop :=
  Session.Remade (Machine.settle below width) fun machine _ =>
    machine.widthSeen = true ∧ machine.width = none

namespace Session.Settled

variable {excused : LoadError → Prop} {below : List Operand} {width : Fixed} {α : Type}

/-! ## Steps above other operands -/

theorem mapMachine (f : Machine → Machine)
    (aside : ∀ machine, f (machine.settle below width) = (f machine).settle below width)
    (quiet : ∀ machine, (f machine).widthSeen = machine.widthSeen ∧
      (f machine).width = machine.width) :
    Simulates excused (Settled below width) (modify (Session.mapMachine f))
      (modify (Session.mapMachine f)) := by
  refine Remade.modifyMachine aside fun machine _ settled => ?_
  rw [(quiet machine).1, (quiet machine).2]
  exact settled

theorem placeless (below : List Operand) (width : Fixed) :
    Remade.Placeless (Machine.settle below width) fun machine _ =>
      machine.widthSeen = true ∧ machine.width = none :=
  ⟨fun _ => rfl, fun _ _ => rfl, fun _ _ _ settled => settled⟩

theorem closeContour :
    Simulates excused (Settled below width) (modify (Session.mapDraft Draft.closeContour))
      (modify (Session.mapDraft Draft.closeContour)) :=
  .modify fun _ _ related => related.mapDraft _

theorem moveBy (d : Point) :
    Simulates excused (Settled below width) (Eval.moveBy d) (Eval.moveBy d) :=
  (placeless below width).moveBy d

theorem declareStems (direction : StemDirection) (values : List Fixed) :
    Simulates excused (Settled below width) (Eval.declareStems direction values)
      (Eval.declareStems direction values) :=
  Simulates.bind (mapMachine _ (fun _ => rfl) fun _ => ⟨rfl, rfl⟩) fun _ => Remade.callHook _

theorem compose (font : Font) (limit levels : Nat) (frame : Frame) (accent : Accent) :
    Simulates excused (Settled below width)
      (Eval.compose font limit (Eval.below font limit levels) frame.depth accent)
      (Eval.compose font limit (Eval.below font limit levels) frame.depth accent) :=
  Remade.compose (fun _ _ _ settled => settled) font limit levels frame accent

/-- The operands that are popped are all above. -/
theorem popOperand {f : OperandStack → Except StackFault (α × OperandStack)}
    (above : ∀ {stack after : OperandStack} {a}, f stack = .ok (a, after) →
      f (stack.above below) = .ok (a, after.above below)) :
    Simulates (fun _ => True) (Settled below width) (Eval.popOperand f) (Eval.popOperand f) :=
  Remade.popOperand (fun _ => rfl) (fun _ _ => rfl) above fun settled _ => settled

theorem popAccent (bearing : Fixed) :
    Simulates (fun _ => True) (Settled below width) (Eval.popAccent bearing)
      (Eval.popAccent bearing) :=
  Simulates.bind (popOperand OperandStack.popInt_above) fun _ =>
    Simulates.bind (popOperand OperandStack.popInt_above) fun _ =>
      Simulates.bind (popOperand OperandStack.popFixed_above) fun _ =>
        Simulates.bind (popOperand OperandStack.popFixed_above) fun _ => Simulates.pure _

/-- The other operands are gone when the stack is cleared. -/
theorem clear {s s' : Session} (h : Settled below width s s') :
    Settled [] width (s.mapMachine fun machine => { machine with stack := .empty })
      (s'.mapMachine fun machine => { machine with stack := .empty }) :=
  Remade.mapMachine h rfl h.holds

/-! ## Operators -/

theorem takeOperands (extra : Nat → Bool) :
    Simulates excused (Settled [] width) (Eval.takeOperands extra)
      (Eval.takeOperands extra) := by
  intro s s' related
  -- the width is not looked for again, in neither run
  have seen : s'.machine.widthSeen = true := by
    rw [related.machine]
    exact related.holds.1
  have operands : s'.machine.stack.operands = s.machine.stack.operands := by
    rw [related.machine]
    simp only [Machine.settle, OperandStack.above_nil]
  simp only [Eval.takeOperands_apply, if_pos seen, if_pos related.holds.1, operands]
  exact .ok related

/-- Where no operands are below, operators that run no other program go in step. -/
theorem operatorLaw (width : Fixed) (excused : LoadError → Prop) :
    OperatorLaw fun {_} p => Simulates excused (Settled [] width) p p where
  pure := .pure
  throw := .throw
  bind := .bind
  stack part := by
    refine Remade.gets (fun machine => part machine.stack) fun machine => ?_
    simp only [Machine.settle, OperandStack.above_nil]
  setStack stack := by
    refine mapMachine _ (fun machine => ?_) fun _ => ⟨rfl, rfl⟩
    simp only [Machine.settle, OperandStack.above_nil]
  transient := Remade.gets (fun machine => machine.transient) fun _ => rfl
  store _ _ := mapMachine _ (fun _ => rfl) fun _ => ⟨rfl, rfl⟩
  stemCount := Remade.gets (fun machine => machine.stemCount) fun _ => rfl
  countStems _ := mapMachine _ (fun _ => rfl) fun _ => ⟨rfl, rfl⟩
  takeOperands := takeOperands
  moveBy := (placeless [] width).moveBy
  ensureOpen := (placeless [] width).ensureOpen
  drawSegment := (placeless [] width).drawSegment
  stems _ _ := Remade.callHook _
  mask _ _ := Remade.callHook _
  nextRandom := .modify fun _ _ related => related.mapRandom nextRandom
  random := by
    refine .gets fun s s' related => ?_
    rw [related.rest]
  drawn _ := .modify fun _ _ related => related.record _ _ related.holds

/-- What ends a glyph goes in step too. -/
theorem closingLaw (width : Fixed) (excused : LoadError → Prop) :
    ClosingLaw fun {_} p => Simulates excused (Settled [] width) p p where
  toOperatorLaw := operatorLaw width excused
  seeWidth := .modify fun _ _ related => Remade.mapMachine related rfl ⟨rfl, related.holds.2⟩
  closeContour := closeContour
  setLeftBearing frame bearing := by
    intro s s' related
    simp only [Eval.setLeftBearing_apply]
    exact .ok (related.mapDraft _)

end Session.Settled

end Type2Glyphs
