import Type2Glyphs.Charstring.Evaluate

/-!
# Law — what holds of every glyph program because it holds of its steps

Many facts about evaluation have one reason only: they hold of every single step, and they are
handed on from step to step.  Such a fact is a property `L` of programs, and what has to be shown of
it is listed in structures, one for each size of program:

* `SequenceLaw L`: programs that are made of others, and those that do nothing;
* `OperandLaw L`: the steps on the parts of the machine that operators read and write;
* `OperatorLaw L`: moves, segments, hints and random numbers too, so that `L` holds of every
  operator that runs no other program;
* `ClosingLaw L`: what else an operator does that ends the glyph, so that `L` holds of these too if
  it holds of composing an accented glyph;
* `ReadingLaw L`, `DrawingLaw L` and `EndingLaw L`: the same three where `L` need not hold of every
  step on the stack, but only when operands are read as numbers, pushed and cleared.  They leave out
  the operators that only work on operands, and `SteadyLaw L` leaves out random numbers too;
* `MachineLaw L` and `LocalLaw L`: the same as `OperatorLaw L` where `L` holds of all steps on the
  machine and on the draft, whichever parts they look at;
* `ProgramLaw font limit L`: the steps that lead to other programs too.  Here `L levels` may depend
  on the number of levels that are left, and `ProgramLaw.evaluate` says that it holds of the
  evaluation of every program with so many levels left.
-/

namespace Type2Glyphs

/-! ## Sequences of steps -/

/-- `L` holds of what is made of steps for which it holds. -/
structure SequenceLaw (L : ∀ {α : Type}, Eval α → Prop) : Prop where
  pure : ∀ {α : Type} (a : α), L (Pure.pure a)
  throw : ∀ {α : Type} (e : LoadError), L (throw e : Eval α)
  bind : ∀ {α β : Type} {p : Eval α} {k : α → Eval β}, L p → (∀ a, L (k a)) → L (p >>= k)

namespace SequenceLaw

variable {L : ∀ {α : Type}, Eval α → Prop} {α β : Type}

theorem lift (law : SequenceLaw L) (result : Except LoadError α) : L (Eval.lift result) := by
  cases result with
  | ok a => exact law.pure a
  | error e => exact law.throw e

theorem forM (law : SequenceLaw L) {items : List β} {p : β → Eval PUnit}
    (h : ∀ item, L (p item)) : L (items.forM p) := by
  induction items with
  | nil => exact law.pure PUnit.unit
  | cons item items ih =>
      show L (p item >>= fun _ => items.forM p)
      exact law.bind (h item) fun _ => ih

theorem transientIndex (law : SequenceLaw L) (i : Int) : L (Eval.transientIndex i) := by
  simp only [Eval.transientIndex]
  split
  · exact law.pure _
  · exact law.throw _

end SequenceLaw

/-! ## Operands -/

/-- `L` holds when operands are read as the numbers that an operator needs, when numbers are pushed
and when the stack is cleared.  To take the operands of an operator, with or without a width below
them, is one step. -/
structure ReadingLaw (L : ∀ {α : Type}, Eval α → Prop) : Prop extends SequenceLaw L where
  operands : L (Eval.gets fun s => s.machine.stack.operands)
  popFixed : L (Eval.popOperand OperandStack.popFixed)
  popInt : L (Eval.popOperand OperandStack.popInt)
  push : ∀ value, L (Eval.changeStack (OperandStack.push value))
  clearStack : L Eval.clearStack
  stemCount : L (Eval.gets fun s => s.machine.stemCount)
  countStems : ∀ n, L (modify (Session.mapMachine fun machine =>
    { machine with stemCount := machine.stemCount + n }))
  takeOperands : ∀ extra, L (Eval.takeOperands extra)

namespace ReadingLaw

variable {L : ∀ {α : Type}, Eval α → Prop}

theorem takeStems (law : ReadingLaw L) (op : Operator) : L (Eval.takeStems op) := by
  refine law.bind (law.takeOperands _) fun values => ?_
  dsimp only
  split
  · exact law.bind (law.throw _) fun _ => law.pure _
  · exact law.pure _

theorem popAccent (law : ReadingLaw L) (bearing : Fixed) : L (Eval.popAccent bearing) :=
  law.bind law.popInt fun _ => law.bind law.popInt fun _ => law.bind law.popFixed fun _ =>
    law.bind law.popFixed fun _ => law.pure _

end ReadingLaw

/-- `L` holds of the steps on single parts of the machine, whatever they do with the operands, and
of what is made of steps for which it holds. -/
structure OperandLaw (L : ∀ {α : Type}, Eval α → Prop) : Prop where
  pure : ∀ {α : Type} (a : α), L (Pure.pure a)
  throw : ∀ {α : Type} (e : LoadError), L (throw e : Eval α)
  bind : ∀ {α β : Type} {p : Eval α} {k : α → Eval β}, L p → (∀ a, L (k a)) → L (p >>= k)
  stack : ∀ {α : Type} (part : OperandStack → α), L (Eval.gets fun s => part s.machine.stack)
  setStack : ∀ stack, L (modify (Session.mapMachine fun machine =>
    { machine with stack := stack }))
  transient : L (Eval.gets fun s => s.machine.transient)
  store : ∀ (i : Fin transientSize) value, L (modify (Session.mapMachine fun machine =>
    { machine with transient := machine.transient.set i value i.isLt }))
  stemCount : L (Eval.gets fun s => s.machine.stemCount)
  countStems : ∀ n, L (modify (Session.mapMachine fun machine =>
    { machine with stemCount := machine.stemCount + n }))
  takeOperands : ∀ extra, L (Eval.takeOperands extra)

namespace OperandLaw

variable {L : ∀ {α : Type}, Eval α → Prop} {α β : Type}

theorem sequenceLaw (law : OperandLaw L) : SequenceLaw L :=
  ⟨law.pure, law.throw, law.bind⟩

theorem lift (law : OperandLaw L) (result : Except LoadError α) : L (Eval.lift result) :=
  law.sequenceLaw.lift result

theorem changeStack (law : OperandLaw L) (f : OperandStack → Except StackFault OperandStack) :
    L (Eval.changeStack f) :=
  law.bind (law.stack fun stack => stack) fun _ => law.bind (law.lift _) fun _ => law.setStack _

theorem popOperand (law : OperandLaw L)
    (f : OperandStack → Except StackFault (α × OperandStack)) : L (Eval.popOperand f) :=
  law.bind (law.stack fun stack => stack) fun _ => law.bind (law.lift _) fun _ =>
    law.bind (law.setStack _) fun _ => law.pure _

theorem clearStack (law : OperandLaw L) : L Eval.clearStack :=
  law.setStack .empty

/-- To read, to push and to clear are steps on the stack. -/
theorem readingLaw (law : OperandLaw L) : ReadingLaw L where
  toSequenceLaw := law.sequenceLaw
  operands := law.stack fun stack => stack.operands
  popFixed := law.popOperand _
  popInt := law.popOperand _
  push _ := law.changeStack _
  clearStack := law.clearStack
  stemCount := law.stemCount
  countStems := law.countStems
  takeOperands := law.takeOperands

theorem forM (law : OperandLaw L) {items : List β} {p : β → Eval PUnit}
    (h : ∀ item, L (p item)) : L (items.forM p) :=
  law.sequenceLaw.forM h

theorem popAccent (law : OperandLaw L) (bearing : Fixed) : L (Eval.popAccent bearing) :=
  law.readingLaw.popAccent bearing

theorem transientIndex (law : OperandLaw L) (i : Int) : L (Eval.transientIndex i) :=
  law.sequenceLaw.transientIndex i

theorem put (law : OperandLaw L) : L Eval.put :=
  law.bind (law.popOperand _) fun _ => law.bind (law.popOperand _) fun _ =>
    law.bind (law.transientIndex _) fun _ => law.store _ _

theorem fetch (law : OperandLaw L) : L Eval.fetch :=
  law.bind (law.popOperand _) fun _ => law.bind (law.transientIndex _) fun _ =>
    law.bind law.transient fun _ => law.changeStack _

end OperandLaw

/-! ## Operators that run no other program -/

/-- `L` also holds when contours are moved and drawn and hints are passed on.  It need hold neither
of random numbers nor of operators that only work on operands. -/
structure SteadyLaw (L : ∀ {α : Type}, Eval α → Prop) : Prop extends ReadingLaw L where
  moveBy : ∀ d, L (Eval.moveBy d)
  ensureOpen : L Eval.ensureOpen
  drawSegment : ∀ segment, L (Eval.drawSegment segment)
  stems : ∀ direction values, L (Eval.callHook (.stems direction values))
  mask : ∀ (op : MaskOp) bits, L (Eval.callHook (op.call bits))

/-- `L` also holds when contours are moved and drawn, hints are passed on and random numbers are
drawn.  It need not hold of operators that only work on operands. -/
structure DrawingLaw (L : ∀ {α : Type}, Eval α → Prop) : Prop extends SteadyLaw L where
  nextRandom : L (modify fun s : Session => { s with random := nextRandom s.random })
  random : L (Eval.gets fun s => s.random)
  drawn : ∀ number, L (modify (Session.record (.drawn number)))

/-- `L` also holds when contours are moved and drawn, hints are passed on and random numbers are
drawn. -/
structure OperatorLaw (L : ∀ {α : Type}, Eval α → Prop) : Prop extends OperandLaw L where
  moveBy : ∀ d, L (Eval.moveBy d)
  ensureOpen : L Eval.ensureOpen
  drawSegment : ∀ segment, L (Eval.drawSegment segment)
  stems : ∀ direction values, L (Eval.callHook (.stems direction values))
  mask : ∀ (op : MaskOp) bits, L (Eval.callHook (op.call bits))
  nextRandom : L (modify fun s : Session => { s with random := nextRandom s.random })
  random : L (Eval.gets fun s => s.random)
  drawn : ∀ number, L (modify (Session.record (.drawn number)))

/-- Whether an operator can run another program. -/
def Operator.nests : Operator → Bool
  | .callsubr | .callgsubr | .endchar | .seac => true
  | _ => false

/-- Whether an operator only works on operands: it rearranges, combines or stores them. -/
def Operator.calculates : Operator → Bool
  | .stack _ | .put | .get => true
  | _ => false

/-- For an operator that runs no other program, fonts, levels and frames do not matter. -/
theorem Eval.execute_of_alone {font font' : Font} {limit limit' : Nat}
    {nested nested' : Option Evaluator} {frame frame' : Frame} {op : Operator}
    (alone : op.nests = false) (unread : Bytes) :
    execute font' limit' nested' frame' op unread = execute font limit nested frame op unread := by
  cases op with
  | callsubr | callgsubr | endchar | seac => cases alone
  | _ => rfl

/-- `L` holds of the operators that only work on operands. -/
theorem OperandLaw.execute {L : ∀ {α : Type}, Eval α → Prop} (law : OperandLaw L) {font : Font}
    {limit : Nat} {nested : Option Evaluator} {frame : Frame} {op : Operator}
    (calculates : op.calculates = true) (unread : Bytes) :
    L (Eval.execute font limit nested frame op unread) := by
  cases op with
  | stack op => exact law.bind (law.changeStack _) fun _ => law.pure _
  | put => exact law.bind law.put fun _ => law.pure _
  | get => exact law.bind law.fetch fun _ => law.pure _
  | _ => cases calculates

namespace SteadyLaw

variable {L : ∀ {α : Type}, Eval α → Prop}

theorem declareStems (law : SteadyLaw L) (direction : StemDirection) (values : List Fixed) :
    L (Eval.declareStems direction values) :=
  law.bind (law.countStems _) fun _ => law.stems direction values

theorem stem (law : SteadyLaw L) (op : StemOp) : L (Eval.stem op) :=
  law.bind (law.takeStems _) fun _ => law.bind (law.declareStems _ _) fun _ => law.clearStack

theorem readMask (law : SteadyLaw L) (op : MaskOp) (unread : Bytes) :
    L (Eval.readMask op unread) := by
  refine law.bind law.stemCount fun count => ?_
  dsimp only
  split
  · exact law.throw _
  · exact law.bind (law.mask op _) fun _ => law.bind law.clearStack fun _ => law.pure _

theorem maskOperator (law : SteadyLaw L) (op : MaskOp) (unread : Bytes) :
    L (Eval.mask op unread) := by
  refine law.bind (law.takeStems _) fun values => ?_
  dsimp only
  split
  · exact law.bind (law.declareStems _ _) fun _ => law.readMask op unread
  · exact law.readMask op unread

theorem move (law : SteadyLaw L) (op : MoveOp) : L (Eval.move op) :=
  law.bind (law.takeOperands _) fun _ => law.bind (law.lift _) fun _ =>
    law.bind (law.moveBy _) fun _ => law.clearStack

theorem path (law : SteadyLaw L) (op : PathOp) : L (Eval.path op) :=
  law.bind law.operands fun _ => law.bind (law.lift _) fun _ => law.bind law.ensureOpen fun _ =>
    law.bind (law.forM fun segment => law.drawSegment segment) fun _ => law.clearStack

/-- `L` holds of every operator that runs no other program, draws no random number and does not only
work on operands. -/
theorem execute (law : SteadyLaw L) {font : Font} {limit : Nat} {nested : Option Evaluator}
    {frame : Frame} {op : Operator} (alone : op.nests = false) (draws : op.calculates = false)
    (steady : op ≠ .random) (unread : Bytes) :
    L (Eval.execute font limit nested frame op unread) := by
  cases op with
  | stem op => exact law.bind (law.stem op) fun _ => law.pure _
  | mask op => exact law.bind (law.maskOperator op unread) fun _ => law.pure _
  | move op => exact law.bind (law.move op) fun _ => law.pure _
  | path op => exact law.bind (law.path op) fun _ => law.pure _
  | stack | put | get => cases draws
  | ret => exact law.pure _
  | dotsection => exact law.bind law.clearStack fun _ => law.pure _
  | random => exact absurd rfl steady
  | _ => cases alone

end SteadyLaw

namespace DrawingLaw

variable {L : ∀ {α : Type}, Eval α → Prop}

theorem drawRandom (law : DrawingLaw L) : L Eval.random :=
  law.bind law.nextRandom fun _ => law.bind law.random fun _ => law.bind (law.drawn _) fun _ =>
    law.push _

/-- `L` holds of every operator that runs no other program and does not only work on operands. -/
theorem execute (law : DrawingLaw L) {font : Font} {limit : Nat} {nested : Option Evaluator}
    {frame : Frame} {op : Operator} (alone : op.nests = false) (draws : op.calculates = false)
    (unread : Bytes) : L (Eval.execute font limit nested frame op unread) := by
  by_cases random : op = .random
  · rw [random]
    exact law.bind law.drawRandom fun _ => law.pure _
  · exact law.toSteadyLaw.execute alone draws random unread

end DrawingLaw

namespace OperatorLaw

variable {L : ∀ {α : Type}, Eval α → Prop}

theorem drawingLaw (law : OperatorLaw L) : DrawingLaw L where
  toReadingLaw := law.readingLaw
  moveBy := law.moveBy
  ensureOpen := law.ensureOpen
  drawSegment := law.drawSegment
  stems := law.stems
  mask := law.mask
  nextRandom := law.nextRandom
  random := law.random
  drawn := law.drawn

/-- `L` holds of every operator that runs no other program. -/
theorem execute (law : OperatorLaw L) {font : Font} {limit : Nat} {nested : Option Evaluator}
    {frame : Frame} {op : Operator} (alone : op.nests = false) (unread : Bytes) :
    L (Eval.execute font limit nested frame op unread) := by
  cases calculates : op.calculates with
  | false => exact law.drawingLaw.execute alone calculates unread
  | true => exact law.toOperandLaw.execute calculates unread

end OperatorLaw

/-! ## Operators that end the glyph -/

/-- `L` also holds of the steps by which a glyph is ended, but for composing an accented one.  It
need not hold of operators that only work on operands. -/
structure EndingLaw (L : ∀ {α : Type}, Eval α → Prop) : Prop extends DrawingLaw L where
  seeWidth : L (modify (Session.mapMachine fun machine => { machine with widthSeen := true }))
  closeContour : L (modify (Session.mapDraft Draft.closeContour))
  setLeftBearing : ∀ frame bearing, L (Eval.setLeftBearing frame bearing)

/-- `L` also holds of the steps by which a glyph is ended, but for composing an accented one. -/
structure ClosingLaw (L : ∀ {α : Type}, Eval α → Prop) : Prop extends OperatorLaw L where
  seeWidth : L (modify (Session.mapMachine fun machine => { machine with widthSeen := true }))
  closeContour : L (modify (Session.mapDraft Draft.closeContour))
  setLeftBearing : ∀ frame bearing, L (Eval.setLeftBearing frame bearing)

section Closing

variable {L : ∀ {α : Type}, Eval α → Prop} {font : Font} {limit : Nat} {nested : Option Evaluator}
  {frame : Frame}

theorem ReadingLaw.endchar (law : ReadingLaw L)
    (closeContour : L (modify (Session.mapDraft Draft.closeContour)))
    (compose : ∀ accent, L (Eval.compose font limit nested frame.depth accent)) :
    L (Eval.endchar font limit nested frame) := by
  refine law.bind (law.takeOperands _) fun operands => law.bind closeContour fun _ => ?_
  dsimp only
  split
  · exact law.bind (law.popAccent _) fun accent => law.bind (compose accent) fun _ => law.clearStack
  · split
    · exact law.bind (law.throw _) fun _ => law.clearStack
    · exact law.clearStack

theorem ReadingLaw.seac (law : ReadingLaw L)
    (seeWidth : L (modify (Session.mapMachine fun machine => { machine with widthSeen := true })))
    (closeContour : L (modify (Session.mapDraft Draft.closeContour)))
    (setLeftBearing : ∀ bearing, L (Eval.setLeftBearing frame bearing))
    (compose : ∀ accent, L (Eval.compose font limit nested frame.depth accent)) :
    L (Eval.seac font limit nested frame) :=
  law.bind seeWidth fun _ => law.bind law.operands fun _ =>
    law.bind (law.lift _) fun _ => law.bind closeContour fun _ =>
      law.bind (setLeftBearing _) fun _ => law.bind (law.popAccent _) fun accent =>
        law.bind (compose accent) fun _ => law.clearStack

theorem EndingLaw.endchar (law : EndingLaw L)
    (compose : ∀ accent, L (Eval.compose font limit nested frame.depth accent)) :
    L (Eval.endchar font limit nested frame) :=
  law.toReadingLaw.endchar law.closeContour compose

theorem EndingLaw.seac (law : EndingLaw L)
    (compose : ∀ accent, L (Eval.compose font limit nested frame.depth accent)) :
    L (Eval.seac font limit nested frame) :=
  law.toReadingLaw.seac law.seeWidth law.closeContour (law.setLeftBearing _) compose

theorem ClosingLaw.endingLaw (law : ClosingLaw L) : EndingLaw L where
  toDrawingLaw := law.drawingLaw
  seeWidth := law.seeWidth
  closeContour := law.closeContour
  setLeftBearing := law.setLeftBearing

theorem ClosingLaw.endchar (law : ClosingLaw L)
    (compose : ∀ accent, L (Eval.compose font limit nested frame.depth accent)) :
    L (Eval.endchar font limit nested frame) :=
  law.endingLaw.endchar compose

theorem ClosingLaw.seac (law : ClosingLaw L)
    (compose : ∀ accent, L (Eval.compose font limit nested frame.depth accent)) :
    L (Eval.seac font limit nested frame) :=
  law.endingLaw.seac compose

end Closing

/-! ## Machines as a whole -/

/-- `L` holds of all steps on the machine, and of what is made of steps for which it holds. -/
structure MachineLaw (L : ∀ {α : Type}, Eval α → Prop) : Prop where
  pure : ∀ {α : Type} (a : α), L (Pure.pure a)
  throw : ∀ {α : Type} (e : LoadError), L (throw e : Eval α)
  bind : ∀ {α β : Type} {p : Eval α} {k : α → Eval β}, L p → (∀ a, L (k a)) → L (p >>= k)
  gets : ∀ {α : Type} (part : Machine → α), L (Eval.gets fun s => part s.machine)
  mapMachine : ∀ f : Machine → Machine, L (modify (Session.mapMachine f))

/-- What holds of all steps on the machine holds of those on its parts. -/
theorem MachineLaw.operandLaw {L : ∀ {α : Type}, Eval α → Prop} (law : MachineLaw L) :
    OperandLaw L where
  pure := law.pure
  throw := law.throw
  bind := law.bind
  stack part := law.gets fun machine => part machine.stack
  setStack _ := law.mapMachine _
  transient := law.gets fun machine => machine.transient
  store _ _ := law.mapMachine _
  stemCount := law.gets fun machine => machine.stemCount
  countStems _ := law.mapMachine _
  takeOperands extra := by
    refine law.bind (law.gets fun machine => machine) fun machine => ?_
    dsimp only
    split
    · exact law.pure _
    · refine law.bind (law.mapMachine _) fun _ => ?_
      split
      · exact law.pure _
      · exact law.bind (law.mapMachine _) fun _ => law.pure _

section Contours

variable {L : ∀ {α : Type}, Eval α → Prop} (law : MachineLaw L)

include law

theorem MachineLaw.moveBy (start : ∀ p, L (Eval.onDraft (Draft.startContour p))) (d : Point) :
    L (Eval.moveBy d) :=
  law.bind (law.mapMachine _) fun _ =>
    law.bind (law.gets fun machine => machine.position) fun _ => start _

theorem MachineLaw.ensureOpen (isOpen : L (Eval.gets fun s => s.draft.isOpen))
    (start : ∀ p, L (Eval.onDraft (Draft.startContour p))) : L Eval.ensureOpen := by
  refine law.bind isOpen fun isOpen => ?_
  split
  · exact law.bind (law.gets fun machine => machine.position) fun _ => start _
  · exact law.pure _

theorem MachineLaw.drawSegment (addOnCurve : ∀ p, L (Eval.onDraft (Draft.addOnCurve p)))
    (addCurve : ∀ c₁ c₂ p, L (Eval.onDraft (Draft.addCurve c₁ c₂ p))) (segment : Segment) :
    L (Eval.drawSegment segment) := by
  refine law.bind (law.gets fun machine => machine.position) fun p => ?_
  cases segment with
  | line d => exact law.bind (law.mapMachine _) fun _ => addOnCurve _
  | curve d₁ d₂ d₃ => exact law.bind (law.mapMachine _) fun _ => addCurve _ _ _

end Contours

/-- `L` also holds when points are added, hints are passed on and random numbers are drawn. -/
structure LocalLaw (L : ∀ {α : Type}, Eval α → Prop) : Prop extends MachineLaw L where
  isOpen : L (Eval.gets fun s => s.draft.isOpen)
  startContour : ∀ p, L (Eval.onDraft (Draft.startContour p))
  addOnCurve : ∀ p, L (Eval.onDraft (Draft.addOnCurve p))
  addCurve : ∀ c₁ c₂ p, L (Eval.onDraft (Draft.addCurve c₁ c₂ p))
  stems : ∀ direction values, L (Eval.callHook (.stems direction values))
  mask : ∀ (op : MaskOp) bits, L (Eval.callHook (op.call bits))
  nextRandom : L (modify fun s : Session => { s with random := nextRandom s.random })
  random : L (Eval.gets fun s => s.random)
  drawn : ∀ number, L (modify (Session.record (.drawn number)))

/-- What holds of all steps on the machine and on the draft holds of moves and of segments. -/
theorem LocalLaw.operatorLaw {L : ∀ {α : Type}, Eval α → Prop} (law : LocalLaw L) :
    OperatorLaw L where
  toOperandLaw := law.operandLaw
  moveBy := law.toMachineLaw.moveBy law.startContour
  ensureOpen := law.toMachineLaw.ensureOpen law.isOpen law.startContour
  drawSegment := law.toMachineLaw.drawSegment law.addOnCurve law.addCurve
  stems := law.stems
  mask := law.mask
  nextRandom := law.nextRandom
  random := law.random
  drawn := law.drawn

/-! ## Programs -/

/-- `L levels` also holds where programs with so many levels left lead to other programs.  A program
with `levels` left below it is nested `limit - levels` deep. -/
structure ProgramLaw (font : Font) (limit : Nat) (L : Nat → ∀ {α : Type}, Eval α → Prop) :
    Prop where
  steps : ∀ levels, LocalLaw (L levels)
  deeper : ∀ {levels : Nat} {α : Type} {p : Eval α}, L levels p → L (levels + 1) p
  operator : ∀ {levels depth : Nat}, depth + levels = limit → ∀ op,
    L levels (modify fun s : Session => s.record (.operator depth op s.machine.stack))
  closeContour : ∀ levels, L levels (modify (Session.mapDraft Draft.closeContour))
  setLeftBearing : ∀ levels frame bearing, L levels (Eval.setLeftBearing frame bearing)
  listsComponents : ∀ levels, L levels (Eval.gets fun s => s.draft.listsComponents)
  list : ∀ levels components, L levels (modify fun s : Session =>
    { s with components := s.components ++ components })
  commit : ∀ levels, L levels (modify (Session.mapDraft Draft.commit))
  origin : ∀ levels, L levels (Eval.gets fun s => s.draft.origin)
  backAt : ∀ {levels : Nat} (origin : Point) {p : Eval Unit}, L levels p →
    L levels (Eval.andFinally p (Session.mapDraft fun draft => { draft with origin := origin }))
  component : ∀ {levels depth : Nat} {evaluate : Evaluator},
    (∀ frame program, frame.depth = depth + 1 → L levels (evaluate frame program)) →
    depth + (levels + 1) = limit → ∀ origin component,
    L (levels + 1) (Eval.drawComponent font evaluate depth origin component)

namespace ProgramLaw

variable {font : Font} {limit levels depth : Nat} {L : Nat → ∀ {α : Type}, Eval α → Prop}
  {frame : Frame}

/-- `L` holds of all programs one level down. -/
def Below (L : Nat → ∀ {α : Type}, Eval α → Prop) (font : Font) (limit levels depth : Nat) :
    Prop :=
  ∀ lower, levels = lower + 1 → ∀ frame program, frame.depth = depth + 1 →
    L lower (Eval.evaluate font limit lower frame program)

theorem drawComponents (law : ProgramLaw font limit L) (deep : depth + levels = limit)
    (below : Below L font limit levels depth) (components : List Component) :
    L levels (Eval.drawComponents font limit (Eval.below font limit levels) depth components) := by
  have step := (law.steps levels).operatorLaw
  cases levels with
  | zero => exact step.throw _
  | succ lower =>
      refine step.bind (law.commit _) fun _ => step.bind (law.origin _) fun origin => ?_
      refine law.backAt origin (step.forM fun component => ?_)
      exact law.component (below lower rfl) deep origin component

theorem compose (law : ProgramLaw font limit L) (deep : depth + levels = limit)
    (below : Below L font limit levels depth) (accent : Accent) :
    L levels (Eval.compose font limit (Eval.below font limit levels) depth accent) := by
  have step := (law.steps levels).operatorLaw
  refine step.bind (step.lift _) fun base => step.bind (step.lift _) fun mark => ?_
  refine step.bind (law.listsComponents _) fun lists => ?_
  split
  · exact law.list _ _
  · exact law.drawComponents deep below _

theorem call (law : ProgramLaw font limit L) (below : Below L font limit levels frame.depth)
    (subrs : Index) : L levels (Eval.call subrs limit (Eval.below font limit levels) frame) := by
  have step := (law.steps levels).operatorLaw
  refine step.bind (step.popOperand _) fun operand => step.bind (step.lift _) fun body => ?_
  cases levels with
  | zero => exact step.throw _
  | succ lower =>
      -- the body has one level less left, but what holds there holds here too
      have ran := below lower rfl { frame with depth := frame.depth + 1 } body rfl
      exact step.bind (law.deeper ran) fun ending => step.pure _

theorem closingLaw (law : ProgramLaw font limit L) (levels : Nat) : ClosingLaw (L levels) where
  toOperatorLaw := (law.steps levels).operatorLaw
  seeWidth := (law.steps levels).mapMachine _
  closeContour := law.closeContour levels
  setLeftBearing := law.setLeftBearing levels

theorem endchar (law : ProgramLaw font limit L) (deep : frame.depth + levels = limit)
    (below : Below L font limit levels frame.depth) :
    L levels (Eval.endchar font limit (Eval.below font limit levels) frame) :=
  (law.closingLaw levels).endchar fun accent => law.compose deep below accent

theorem seac (law : ProgramLaw font limit L) (deep : frame.depth + levels = limit)
    (below : Below L font limit levels frame.depth) :
    L levels (Eval.seac font limit (Eval.below font limit levels) frame) :=
  (law.closingLaw levels).seac fun accent => law.compose deep below accent

theorem execute (law : ProgramLaw font limit L) (deep : frame.depth + levels = limit)
    (below : Below L font limit levels frame.depth) (op : Operator) (unread : Bytes) :
    L levels (Eval.execute font limit (Eval.below font limit levels) frame op unread) := by
  have step := (law.steps levels).operatorLaw
  cases nests : op.nests with
  | false => exact step.execute nests unread
  | true =>
      cases op with
      | callsubr =>
          simp only [Eval.execute]
          split
          · exact step.throw _
          · exact law.call below _
      | callgsubr => exact law.call below _
      | endchar => exact step.bind (law.endchar deep below) fun _ => step.pure _
      | seac => exact step.bind (law.seac deep below) fun _ => step.pure _
      | _ => cases nests

theorem evaluateAfter (law : ProgramLaw font limit L) (deep : frame.depth + levels = limit)
    (below : Below L font limit levels frame.depth) (skip : Nat) (program : Bytes) :
    L levels (Eval.evaluateAfter
      (Eval.execute font limit (Eval.below font limit levels) frame) frame.depth skip program) := by
  have step := (law.steps levels).operatorLaw
  -- by induction on the bytes, since a token and a mask only skip some of those that follow
  induction program generalizing skip with
  | nil =>
      simp only [Eval.evaluateAfter]
      exact step.pure _
  | cons code rest ih =>
      cases skip with
      | succ skip => exact ih skip
      | zero =>
          simp only [Eval.evaluateAfter]
          refine step.bind (step.lift _) fun token => ?_
          split
          · exact step.bind (step.changeStack _) fun _ => ih _
          · next op used =>
              refine step.bind (law.operator deep op) fun _ => ?_
              refine step.bind (law.execute deep below op _) fun flow => ?_
              cases flow with
              | proceed skip => exact ih _
              | stop endsGlyph => exact step.pure _

/-- `L levels` holds of the evaluation of every program with so many levels left. -/
theorem evaluate (law : ProgramLaw font limit L) (deep : frame.depth + levels = limit)
    (program : Bytes) : L levels (Eval.evaluate font limit levels frame program) := by
  induction levels generalizing frame program with
  | zero =>
      simp only [Eval.evaluate_eq]
      refine law.evaluateAfter deep ?_ 0 program
      -- no program is run below the last level
      intro lower impossible
      cases impossible
  | succ levels ih =>
      simp only [Eval.evaluate_eq]
      refine law.evaluateAfter deep ?_ 0 program
      intro lower same frame' program nested
      cases same
      exact ih (by omega) program

end ProgramLaw

end Type2Glyphs
