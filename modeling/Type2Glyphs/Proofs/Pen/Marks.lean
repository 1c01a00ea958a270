import Type2Glyphs.Charstring.Execute
import Type2Glyphs.Proofs.Outline.Loops

/-!
# Marks — what a pen leaves that follows the operators of a charstring

To know what the operators of a charstring draw, it is enough to know where the current point is and
whether a contour was begun: a move starts a contour where it goes, and a path operator starts one
at the current point if none was begun.  A `Pen` follows the steps of a charstring and leaves a
`Mark` for every contour that starts and for every stroke.

* `Pen.countP_starts_draws`: contours start with the moves, and once more if a path operator comes
  before all of them;
* `Pen.length_points_draws`: a contour starts with one point, and strokes add one or three;
* `Pen.draws_of_unmoved`: a contour that starts without a move comes before everything else.
-/

namespace Type2Glyphs

/-! ## Steps -/

/-- What the evaluation of a charstring does that leaves an entry in the trace: it executes
operators and draws random numbers. -/
inductive Step
  | operator (depth : Nat) (op : Operator) (stack : OperandStack)
  | random (number : Fixed)

namespace Step

/-- The entry that a step leaves. -/
def entry : Step → TraceEntry
  | operator depth op stack => .operator depth op stack
  | random number => .drawn number

def isMove : Step → Bool
  | operator _ (.move _) _ => true
  | _ => false

@[simp] theorem isMove_move (depth : Nat) (op : MoveOp) (stack : OperandStack) :
    (operator depth (.move op) stack).isMove = true :=
  rfl

/-- Whether a line, curve or flex operator is executed. -/
def isPath : Step → Bool
  | operator _ (.path _) _ => true
  | _ => false

/-- The segments that the operands of a path operator describe. -/
def segments : Step → List Segment
  | operator _ (.path op) stack => op.segments stack.operands
  | _ => []

/-- Neither a move nor a path operator. -/
def Idle (step : Step) : Prop :=
  step.isMove = false ∧ step.isPath = false

/-- Every step is a move, a path operator or idle. -/
theorem kind (step : Step) :
    (∃ depth op stack, step = operator depth (.move op) stack) ∨
      (∃ depth op stack, step = operator depth (.path op) stack) ∨ step.Idle := by
  cases step with
  | random number => exact .inr (.inr ⟨rfl, rfl⟩)
  | operator depth op stack =>
      cases op with
      | move op => exact .inl ⟨depth, op, stack, rfl⟩
      | path op => exact .inr (.inl ⟨depth, op, stack, rfl⟩)
      | _ => exact .inr (.inr ⟨rfl, rfl⟩)

theorem segments_of_idle {step : Step} (idle : step.Idle) : step.segments = [] := by
  unfold segments
  split
  · cases idle.2
  · rfl

end Step

/-- Whether a path operator is executed before any move. -/
def unmoved (steps : List Step) : Bool :=
  (steps.takeWhile fun step => !step.isMove).any Step.isPath

theorem unmoved_of_idle {step : Step} (idle : step.Idle) (steps : List Step) :
    unmoved (step :: steps) = unmoved steps := by
  simp [unmoved, idle.1, idle.2]

/-- The path operator that comes before any move is the first step that draws. -/
theorem split_of_unmoved {steps : List Step} (h : unmoved steps = true) :
    ∃ before path after, steps = before ++ path :: after ∧ (∀ step ∈ before, step.Idle) ∧
      path.isPath = true := by
  induction steps with
  | nil => cases h
  | cons step steps ih =>
      rcases step.kind with ⟨depth, op, stack, rfl⟩ | ⟨depth, op, stack, rfl⟩ | idle
      · cases h
      · exact ⟨[], _, steps, rfl, by simp, rfl⟩
      · rw [unmoved_of_idle idle] at h
        obtain ⟨before, path, after, rfl, quiet, isPath⟩ := ih h
        exact ⟨step :: before, path, after, rfl, List.forall_mem_cons.2 ⟨idle, quiet⟩, isPath⟩

/-- How far a move goes: its operands are on top of the stack, maybe above a width. -/
def MoveOp.way (op : MoveOp) (stack : OperandStack) : Point :=
  match op.displacement (stack.operands.drop (stack.size - op.arity)) with
  | .ok d => d
  | .error _ => 0

/-! ## Strokes -/

namespace Segment

def isLine : Segment → Bool
  | line _ => true
  | curve _ _ _ => false

@[simp] theorem isLine_line (d : Point) : (line d).isLine = true :=
  rfl

@[simp] theorem isLine_curve (d₁ d₂ d₃ : Point) : (curve d₁ d₂ d₃).isLine = false :=
  rfl

/-- The stroke along a segment from the given point. -/
def stroke (p : Point) : Segment → Stroke
  | line d => .line (p + d)
  | curve d₁ d₂ d₃ => .curve (p + d₁) (p + d₁ + d₂) (p + d₁ + d₂ + d₃)

end Segment

/-- The point in which a stroke ends. -/
def Stroke.finish : Stroke → Point
  | line p => p
  | curve _ _ p => p

/-- Strokes along segments, each from where the one before it ends. -/
def Stroke.along (p : Point) : List Segment → List Stroke
  | [] => []
  | segment :: segments => segment.stroke p :: along (segment.stroke p).finish segments

/-- Where the last of the segments ends. -/
def Segment.finish (p : Point) : List Segment → Point
  | [] => p
  | segment :: segments => finish (segment.stroke p).finish segments

/-! ## Marks -/

/-- What is drawn at a time: the start of a contour, by a move or without one, or a stroke. -/
inductive Mark
  | moved (p : Point)
  | implied (p : Point)
  | stroke (drawn : Stroke)
  deriving DecidableEq

namespace Mark

/-- The points of a mark with their tags. -/
def points : Mark → List OutlinePoint
  | .moved p => [⟨p, .on⟩]
  | .implied p => [⟨p, .on⟩]
  | .stroke drawn => drawn.points

/-- Whether a contour starts. -/
def starts : Mark → Bool
  | .moved _ => true
  | .implied _ => true
  | .stroke _ => false

/-- Whether a contour starts without a move. -/
def isImplied : Mark → Bool
  | .implied _ => true
  | _ => false

/-- The mark moved by a displacement. -/
def shift (offset : Point) : Mark → Mark
  | .moved p => .moved (p + offset)
  | .implied p => .implied (p + offset)
  | .stroke drawn => .stroke (drawn.map (· + offset))

variable (offset : Point) (mark : Mark)

@[simp] theorem starts_shift : (mark.shift offset).starts = mark.starts := by
  cases mark <;> rfl

@[simp] theorem isImplied_shift : (mark.shift offset).isImplied = mark.isImplied := by
  cases mark <;> rfl

@[simp] theorem length_points_shift : (mark.shift offset).points.length = mark.points.length := by
  rcases mark with p | p | ⟨p⟩ | ⟨c₀, c₁, p⟩ <;> rfl

/-- Marks have as many points wherever they are. -/
theorem length_points_map_shift (marks : List Mark) :
    ((marks.map (shift offset)).flatMap points).length = (marks.flatMap points).length := by
  simp [List.length_flatMap, Function.comp_def]

theorem countP_starts_map_shift (marks : List Mark) :
    (marks.map (shift offset)).countP starts = marks.countP starts := by
  simp [List.countP_map, Function.comp_def]

theorem countP_starts_map_stroke (strokes : List Stroke) :
    (strokes.map Mark.stroke).countP starts = 0 := by
  simp [List.countP_map, Function.comp_def, starts]

end Mark

theorem Stroke.length_points_along (p : Point) (segments : List Segment) :
    (((along p segments).map Mark.stroke).flatMap Mark.points).length =
      segments.countP Segment.isLine + 3 * segments.countP fun segment => !segment.isLine := by
  induction segments generalizing p with
  | nil => rfl
  | cons segment segments ih =>
      have rest := ih (segment.stroke p).finish
      simp only [along, List.map_cons, List.flatMap_cons, List.length_append, rest]
      -- a line adds the point in which it ends, a curve also its two control points
      cases segment with
      | line d =>
          have one : (Mark.stroke ((Segment.line d).stroke p)).points.length = 1 := rfl
          simp [one, List.countP_cons]
          omega
      | curve d₁ d₂ d₃ =>
          have three : (Mark.stroke ((Segment.curve d₁ d₂ d₃).stroke p)).points.length = 3 := rfl
          simp [three]
          omega

/-! ## Pens -/

/-- What there is to know of a charstring to draw what its operators draw. -/
structure Pen where
  /-- Whether a contour was begun. -/
  begun : Bool := false
  position : Point := 0
  deriving DecidableEq

namespace Pen

/-- The marks that a step leaves. -/
def marks (pen : Pen) : Step → List Mark
  | .operator _ (.move op) stack => [.moved (pen.position + op.way stack)]
  | .operator _ (.path op) stack =>
      let strokes := Stroke.along pen.position (op.segments stack.operands)
      (if pen.begun then [] else [.implied pen.position]) ++ strokes.map .stroke
  | _ => []

/-- The pen after a step. -/
def after (pen : Pen) : Step → Pen
  | .operator _ (.move op) stack => ⟨true, pen.position + op.way stack⟩
  | .operator _ (.path op) stack =>
      ⟨true, Segment.finish pen.position (op.segments stack.operands)⟩
  | _ => pen

/-- The pen after many steps. -/
def run (pen : Pen) (steps : List Step) : Pen :=
  steps.foldl after pen

/-- The marks that many steps leave. -/
def draws (pen : Pen) : List Step → List Mark
  | [] => []
  | step :: steps => pen.marks step ++ (pen.after step).draws steps

variable (pen : Pen) {step : Step}

theorem marks_of_idle (idle : step.Idle) : pen.marks step = [] := by
  unfold marks
  split
  · cases idle.1
  · cases idle.2
  · rfl

theorem after_of_idle (idle : step.Idle) : pen.after step = pen := by
  unfold after
  split
  · cases idle.1
  · cases idle.2
  · rfl

theorem draws_of_idle (idle : step.Idle) (steps : List Step) :
    pen.draws (step :: steps) = pen.draws steps := by
  rw [draws, pen.marks_of_idle idle, pen.after_of_idle idle, List.nil_append]

theorem draws_append (first next : List Step) :
    pen.draws (first ++ next) = pen.draws first ++ (pen.run first).draws next := by
  induction first generalizing pen with
  | nil => rfl
  | cons step first ih =>
      simp only [List.cons_append, draws, ih, List.append_assoc]
      rfl

theorem run_append (first next : List Step) :
    pen.run (first ++ next) = (pen.run first).run next :=
  List.foldl_append

/-! ## Counting -/

/-- Contours start with the moves, and one starts without a move if a path operator comes before
all of them. -/
theorem countP_starts_draws (steps : List Step) :
    (pen.draws steps).countP Mark.starts =
      steps.countP Step.isMove + if !pen.begun && unmoved steps then 1 else 0 := by
  induction steps generalizing pen with
  | nil => simp [draws, unmoved]
  | cons step steps ih =>
      rcases step.kind with ⟨depth, op, stack, rfl⟩ | ⟨depth, op, stack, rfl⟩ | idle
      · -- the pen has begun by the move, so no path operator starts a contour after it
        simp only [draws, List.countP_append, ih]
        simp [marks, after, Mark.starts, List.countP_cons, unmoved]
        omega
      · -- here the pen begins, if it has not before
        simp only [draws, List.countP_append, ih, marks, Mark.countP_starts_map_stroke]
        cases pen.begun <;> simp [after, Mark.starts, Step.isMove, Step.isPath, unmoved]
        omega
      · rw [pen.draws_of_idle idle, ih, unmoved_of_idle idle]
        simp [idle.1]

/-- A contour starts with one point, a line has one more and a curve has three. -/
theorem length_points_draws (steps : List Step) :
    ((pen.draws steps).flatMap Mark.points).length =
      (pen.draws steps).countP Mark.starts +
        ((steps.flatMap Step.segments).countP Segment.isLine +
          3 * (steps.flatMap Step.segments).countP fun segment => !segment.isLine) := by
  induction steps generalizing pen with
  | nil => rfl
  | cons step steps ih =>
      rcases step.kind with ⟨depth, op, stack, rfl⟩ | ⟨depth, op, stack, rfl⟩ | idle
      · simp only [draws, List.flatMap_append, List.length_append, List.countP_append, ih]
        simp [marks, Mark.points, Mark.starts, Step.segments]
        omega
      · have strokes := Stroke.length_points_along pen.position (op.segments stack.operands)
        simp only [draws, List.flatMap_append, List.length_append, List.countP_append, ih, marks,
          Mark.countP_starts_map_stroke, strokes, List.flatMap_cons, Step.segments]
        cases pen.begun <;> simp [Mark.points, Mark.starts] <;> omega
      · rw [pen.draws_of_idle idle, ih, List.flatMap_cons, Step.segments_of_idle idle,
          List.nil_append]

/-! ## Contours that start without a move -/

theorem draws_of_begun (begun : pen.begun = true) (steps : List Step) :
    ∀ mark ∈ pen.draws steps, mark.isImplied = false := by
  induction steps generalizing pen with
  | nil => simp [draws]
  | cons step steps ih =>
      rcases step.kind with ⟨depth, op, stack, rfl⟩ | ⟨depth, op, stack, rfl⟩ | idle
      · rw [draws, List.forall_mem_append]
        exact ⟨by simp [marks, Mark.isImplied], ih _ rfl⟩
      · rw [draws, List.forall_mem_append]
        exact ⟨by simp [marks, begun, Mark.isImplied], ih _ rfl⟩
      · rw [pen.draws_of_idle idle]
        exact ih pen begun

/-- No contour starts without a move if a move comes before all path operators. -/
theorem draws_of_moved {steps : List Step} (moved : unmoved steps = false) :
    ∀ mark ∈ pen.draws steps, mark.isImplied = false := by
  induction steps with
  | nil => simp [draws]
  | cons step steps ih =>
      rcases step.kind with ⟨depth, op, stack, rfl⟩ | ⟨depth, op, stack, rfl⟩ | idle
      · rw [draws, List.forall_mem_append]
        exact ⟨by simp [marks, Mark.isImplied], draws_of_begun _ rfl steps⟩
      · cases moved
      · rw [pen.draws_of_idle idle]
        exact ih (unmoved_of_idle idle steps ▸ moved)

/-- If a path operator comes before all moves, the first mark is a contour that starts without a
move at the point where the pen was, and there is no other. -/
theorem draws_of_unmoved (fresh : pen.begun = false) {steps : List Step}
    (h : unmoved steps = true) :
    ∃ rest, pen.draws steps = .implied pen.position :: rest ∧
      ∀ mark ∈ rest, mark.isImplied = false := by
  induction steps with
  | nil => cases h
  | cons step steps ih =>
      rcases step.kind with ⟨depth, op, stack, rfl⟩ | ⟨depth, op, stack, rfl⟩ | idle
      · cases h
      · -- the strokes of this operator and all later marks belong to a path that was begun
        refine ⟨_ ++ draws _ steps, by simp only [draws, marks, fresh]; rfl, ?_⟩
        rw [List.forall_mem_append]
        exact ⟨by simp [Mark.isImplied], draws_of_begun _ rfl steps⟩
      · rw [pen.draws_of_idle idle]
        exact ih (unmoved_of_idle idle steps ▸ h)

end Pen

end Type2Glyphs
