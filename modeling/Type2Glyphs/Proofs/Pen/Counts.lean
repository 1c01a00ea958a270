import Type2Glyphs.Proofs.Path.Expansion
import Type2Glyphs.Proofs.Pen.Marks

/-!
# Counts — how many lines and curves the operands of path operators describe

For the numbers of operands that a path operator accepts, the number alone says how many lines and
how many curves it stands for: `PathOp.lineCount` and `PathOp.curveCount` read this off the
expansion of the operator, without looking at an operand.

* `PathOp.countP_segments`: what an operator draws is as many lines and curves;
* `Step.countP_segments`: and so are those that the path operators of many steps draw.
-/

namespace Type2Glyphs

/-! ## Path operators -/

namespace PathOp

/-- The number of lines that so many operands describe. -/
def lineCount (count : Nat) : PathOp → Nat
  | .rlineto => count / 2
  | .hlineto | .vlineto => count
  | .rcurveline => 1
  | .rlinecurve => (count - 6) / 2
  | _ => 0

/-- The number of curves that so many operands describe. -/
def curveCount (count : Nat) : PathOp → Nat
  | .rlineto | .hlineto | .vlineto => 0
  | .rrcurveto => count / 6
  | .rcurveline => (count - 2) / 6
  | .rlinecurve => 1
  | .hhcurveto | .vvcurveto | .hvcurveto | .vhcurveto => count / 4
  | .flex | .hflex | .hflex1 | .flex1 => 2

theorem countP_expansion (op : PathOp) (count : Nat) (x : Nat → Fixed) :
    (op.expansion count x).countP Segment.isLine = op.lineCount count ∧
      ((op.expansion count x).countP fun segment => !segment.isLine) = op.curveCount count := by
  cases op <;>
    simp [expansion, expansion.parallel, expansion.turning, lineCount, curveCount,
      Segment.lineAt, Segment.curveAt, Segment.axisLineAt, Segment.parallelCurveAt,
      Segment.turningCurveAt, List.countP_map, Function.comp_def]

theorem form_of_accepted {op : PathOp} {count : Nat} (accepted : op.checkCount count = .ok ()) :
    op.fewest ≤ count ∧ op.hasForm count = true := by
  rw [checkCount_eq] at accepted
  split at accepted
  · cases accepted
  · next enough =>
      split at accepted
      · next form => exact ⟨Nat.le_of_not_lt enough, form⟩
      · cases accepted

/-- The operands that are accepted describe as many lines and curves as their number says. -/
theorem countP_segments (op : PathOp) {operands : List Fixed}
    (accepted : op.checkCount operands.length = .ok ()) :
    (op.segments operands).countP Segment.isLine = op.lineCount operands.length ∧
      ((op.segments operands).countP fun segment => !segment.isLine) =
        op.curveCount operands.length := by
  obtain ⟨enough, form⟩ := form_of_accepted accepted
  rw [op.segments_eq_expansion enough form]
  exact op.countP_expansion _ _

end PathOp

/-! ## Steps -/

namespace Step

/-- A path operator that is executed finds a number of operands that it accepts. -/
def Accepted : Step → Prop
  | operator _ (.path op) stack => op.checkCount stack.size = .ok ()
  | _ => True

/-- The number of lines that the operands of a path operator describe. -/
def lineCount : Step → Nat
  | operator _ (.path op) stack => op.lineCount stack.size
  | _ => 0

/-- The number of curves that the operands of a path operator describe. -/
def curveCount : Step → Nat
  | operator _ (.path op) stack => op.curveCount stack.size
  | _ => 0

/-- What the counts of single steps add up to. -/
def total (count : Step → Nat) : List Step → Nat
  | [] => 0
  | step :: steps => count step + total count steps

theorem accepted_of_idle {step : Step} (idle : step.Idle) : step.Accepted := by
  unfold Accepted
  split
  · cases idle.2
  · trivial

theorem countP_segments_of_accepted {step : Step} (accepted : step.Accepted) :
    step.segments.countP Segment.isLine = step.lineCount ∧
      (step.segments.countP fun segment => !segment.isLine) = step.curveCount := by
  cases step with
  | random number => exact ⟨rfl, rfl⟩
  | operator depth op stack =>
      cases op with
      | path op =>
          have counted : op.checkCount stack.size = .ok () := accepted
          rw [← stack.length_operands] at counted
          simp only [segments, lineCount, curveCount, ← stack.length_operands]
          exact op.countP_segments counted
      | _ => exact ⟨rfl, rfl⟩

/-- Lines and curves add up over the steps. -/
theorem countP_segments {steps : List Step} (accepted : ∀ step ∈ steps, step.Accepted) :
    (steps.flatMap segments).countP Segment.isLine = total lineCount steps ∧
      ((steps.flatMap segments).countP fun segment => !segment.isLine) =
        total curveCount steps := by
  induction steps with
  | nil => exact ⟨rfl, rfl⟩
  | cons step steps ih =>
      obtain ⟨first, later⟩ := List.forall_mem_cons.1 accepted
      obtain ⟨lines, curves⟩ := countP_segments_of_accepted first
      obtain ⟨moreLines, moreCurves⟩ := ih later
      simp only [List.flatMap_cons, List.countP_append, total, lines, curves, moreLines, moreCurves,
        and_self]

end Step

end Type2Glyphs
