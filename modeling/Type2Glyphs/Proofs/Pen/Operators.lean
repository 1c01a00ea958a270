import Type2Glyphs.Proofs.Draft.Additions
import Type2Glyphs.Proofs.Law.Pair
import Type2Glyphs.Proofs.Operations
import Type2Glyphs.Proofs.Pen.Execution

/-!
# Operators — a pen follows the operators of a charstring

A contour is open exactly if a move or a path operator was executed since the charstring started.
So a pen that has followed the charstring up to some step knows of the session what it needs for the
next one, and what it leaves for the steps is what they add to the draft: `Session.Drew` says so,
and `Eval.draws_alone` that it holds of every operator that runs no other program.
-/

namespace Type2Glyphs

open Outcome

/-! ## Drafts -/

/-- The second draft has these marks more. -/
structure Draft.Marked (marks : List Mark) (draft after : Draft) : Prop where
  adds : draft.Adds (marks.flatMap Mark.points) after
  contourCount : after.contourCount = draft.contourCount + marks.countP Mark.starts

namespace Draft.Marked

variable {marks more : List Mark} {draft after later : Draft}

/-- No mark is left by what adds no point and starts no contour. -/
theorem of_adds (adds : draft.Adds [] after) (same : after.contourCount = draft.contourCount) :
    draft.Marked [] after :=
  ⟨adds, same⟩

theorem of_same (keepsPoints : after.keepsPoints = draft.keepsPoints)
    (points : after.points = draft.points) (pointCount : after.pointCount = draft.pointCount)
    (box : after.box = draft.box) (contourCount : after.contourCount = draft.contourCount) :
    draft.Marked [] after :=
  of_adds (.of_same keepsPoints points pointCount box) contourCount

theorem refl (draft : Draft) : draft.Marked [] draft :=
  of_same rfl rfl rfl rfl rfl

theorem trans (first : draft.Marked marks after) (next : after.Marked more later) :
    draft.Marked (marks ++ more) later where
  adds := by
    rw [List.flatMap_append]
    exact first.adds.trans next.adds
  contourCount := by
    rw [next.contourCount, first.contourCount, List.countP_append, Nat.add_assoc]

theorem trans_nil (first : draft.Marked marks after) (next : after.Marked [] later) :
    draft.Marked marks later := by
  simpa only [List.append_nil] using first.trans next

theorem nil_trans (first : draft.Marked [] after) (next : after.Marked marks later) :
    draft.Marked marks later :=
  first.trans next

theorem closeContour (draft : Draft) : draft.Marked [] draft.closeContour :=
  of_adds (.closeContour draft) draft.contourCount_closeContour

theorem commit (draft : Draft) : draft.Marked [] draft.commit :=
  of_adds (.commit draft) draft.contourCount_commit

/-- A contour starts, by a move or without one, after the one before it is closed. -/
theorem start (draft : Draft) (p : Point) {mark : Mark} (starts : mark.starts = true)
    (points : mark.points = [⟨p + draft.origin, .on⟩]) :
    draft.Marked [mark] (draft.closeContour.openContour.add p .on) := by
  have opened : draft.Adds [] draft.closeContour.openContour :=
    (Adds.closeContour draft).trans_nil (.of_same rfl rfl rfl rfl)
  constructor
  · rw [List.flatMap_singleton, points, ← draft.origin_closeContour]
    exact opened.trans (.push _ ⟨p + draft.closeContour.origin, .on⟩)
  · simp [starts, Draft.add, Draft.push, openContour]

theorem line (draft : Draft) (p : Point) :
    draft.Marked [.stroke (.line (p + draft.origin))] (draft.add p .on) :=
  ⟨.push draft ⟨p + draft.origin, .on⟩, rfl⟩

theorem curve (draft : Draft) (c₁ c₂ p : Point) :
    draft.Marked [.stroke (.curve (c₁ + draft.origin) (c₂ + draft.origin) (p + draft.origin))]
      (draft.addCubic c₁ c₂ p) := by
  have first := Adds.push draft ⟨c₁ + draft.origin, .cubicControl⟩
  exact ⟨(first.trans (.push _ ⟨c₂ + draft.origin, .cubicControl⟩)).trans
    (.push _ ⟨p + draft.origin, .on⟩), rfl⟩

end Draft.Marked

/-! ## Sessions -/

namespace Session

/-- The entries of the trace in the order in which they were made. -/
def history (session : Session) : List TraceEntry :=
  session.trace.reverse

/-- The pen that has followed the charstring that is being evaluated. -/
def pen (session : Session) : Pen :=
  ⟨session.draft.isOpen, session.machine.position⟩

/-- The steps of a charstring have led from one session to another, and have added what a pen leaves
that follows them. -/
structure Drew (steps : List Step) (s t : Session) : Prop where
  history : t.history = s.history ++ steps.map Step.entry
  pen : t.pen = s.pen.run steps
  origin : t.draft.origin = s.draft.origin
  marked : s.draft.Marked ((s.pen.draws steps).map (.shift s.draft.origin)) t.draft
  accepted : ∀ step ∈ steps, step.Accepted

variable {s t u : Session} {steps more : List Step}

theorem history_of_record {entry : TraceEntry} (h : t.trace = entry :: s.trace) :
    t.history = s.history ++ [entry] := by
  simp [history, h]

theorem Drew.of_same (trace : t.trace = s.trace) (draft : t.draft = s.draft)
    (position : t.machine.position = s.machine.position) : s.Drew [] t where
  history := by simp [Session.history, trace]
  pen := by
    rw [Session.pen, draft, position]
    rfl
  origin := congrArg Draft.origin draft
  marked := draft ▸ .refl s.draft
  accepted := by simp

theorem Drew.refl (s : Session) : s.Drew [] s :=
  .of_same rfl rfl rfl

theorem Drew.trans (first : s.Drew steps t) (next : t.Drew more u) : s.Drew (steps ++ more) u where
  history := by simp [next.history, first.history]
  pen := by rw [next.pen, first.pen, Pen.run_append]
  origin := next.origin.trans first.origin
  marked := by
    have later := next.marked
    rw [first.pen, first.origin] at later
    rw [Pen.draws_append, List.map_append]
    exact first.marked.trans later
  accepted := List.forall_mem_append.2 ⟨first.accepted, next.accepted⟩

/-- A step that draws nothing only leaves its entry. -/
theorem Drew.recorded (s : Session) {step : Step} (idle : step.Idle) :
    s.Drew [step] (s.record step.entry) where
  history := history_of_record rfl
  pen := (s.pen.after_of_idle idle).symm
  origin := rfl
  marked := by
    rw [s.pen.draws_of_idle idle]
    exact .refl s.draft
  accepted := List.forall_mem_singleton.2 (Step.accepted_of_idle idle)

end Session

namespace Eval

open Session

variable {α β : Type} {s t : Session}

/-! ## Programs -/

/-- What the program adds is what a pen leaves that follows its steps. -/
def Draws (p : Eval α) : Prop :=
  ∀ s a t, p s = .ok a t → ∃ steps, s.Drew steps t

theorem draws_sequenceLaw : SequenceLaw fun {_} p => Draws p where
  pure a s _ t run := by
    cases run
    exact ⟨[], .refl s⟩
  throw e s _ t run := by cases run
  bind first next s b u run := by
    rcases bind_eq_ok.1 run with ⟨a, t, before, after⟩
    obtain ⟨steps, drew⟩ := first s a t before
    obtain ⟨more, later⟩ := next a t b u after
    exact ⟨steps ++ more, drew.trans later⟩

theorem Draws.gets (part : Session → α) : Draws (Eval.gets part) := by
  rintro s _ _ ⟨⟩
  exact ⟨[], .refl s⟩

theorem Draws.mapMachine {f : Machine → Machine}
    (same : ∀ machine, (f machine).position = machine.position) :
    Draws (modify (Session.mapMachine f) : Eval PUnit) := by
  rintro s _ _ ⟨⟩
  exact ⟨[], .of_same rfl rfl (same s.machine)⟩

/-- The width is taken without moving the current point. -/
theorem takeOperands_eq_ok {extra : Nat → Bool} {values : List Fixed}
    (run : takeOperands extra s = .ok values t) :
    t.trace = s.trace ∧ t.draft = s.draft ∧ t.machine.position = s.machine.position ∧
      t.machine.stack = s.machine.stack ∧
      (values = s.machine.stack.operands ∨
        extra s.machine.stack.size = true ∧ values = s.machine.stack.operands.tail) := by
  rw [takeOperands_apply] at run
  split at run
  · cases run
    exact ⟨rfl, rfl, rfl, rfl, .inl rfl⟩
  · split at run
    · next more =>
        cases run
        exact ⟨rfl, rfl, rfl, rfl, .inr ⟨more, rfl⟩⟩
    · cases run
      exact ⟨rfl, rfl, rfl, rfl, .inl rfl⟩

theorem draws_operandLaw : OperandLaw fun {_} p => Draws p where
  pure := draws_sequenceLaw.pure
  throw := draws_sequenceLaw.throw
  bind := draws_sequenceLaw.bind
  stack part := .gets _
  setStack stack := .mapMachine fun _ => rfl
  transient := .gets _
  store i value := .mapMachine fun _ => rfl
  stemCount := .gets _
  countStems n := .mapMachine fun _ => rfl
  takeOperands extra s values t run := by
    obtain ⟨trace, draft, position, -⟩ := takeOperands_eq_ok run
    exact ⟨[], .of_same trace draft position⟩

/-- A call of the hint hook that succeeds changes neither the draft nor the machine. -/
theorem parts_callHook {call : HintCall} (run : callHook call s = .ok () t) :
    t.draft = s.draft ∧ t.machine = s.machine := by
  rw [callHook_apply] at run
  split at run
  · cases run
    exact ⟨rfl, rfl⟩
  · split at run <;> cases run <;> exact ⟨rfl, rfl⟩

theorem Draws.callHook (call : HintCall) : Draws (Eval.callHook call) := by
  intro s _ t run
  obtain ⟨draft, machine⟩ := parts_callHook run
  exact ⟨[], .of_same (trace_callHook run) draft (congrArg Machine.position machine)⟩

/-! ## Operators that draw nothing -/

theorem Draws.declareStems (direction : StemDirection) (values : List Fixed) :
    Draws (Eval.declareStems direction values) :=
  draws_operandLaw.bind (draws_operandLaw.countStems _) fun _ => .callHook _

theorem Draws.stem (op : StemOp) : Draws (Eval.stem op) :=
  draws_operandLaw.bind (draws_operandLaw.readingLaw.takeStems _) fun values =>
    draws_operandLaw.bind (.declareStems _ values) fun _ => draws_operandLaw.clearStack

theorem Draws.readMask (op : MaskOp) (unread : Bytes) : Draws (Eval.readMask op unread) := by
  refine draws_operandLaw.bind draws_operandLaw.stemCount fun stems => ?_
  dsimp only
  split
  · exact draws_operandLaw.throw _
  · exact draws_operandLaw.bind (.callHook _) fun _ =>
      draws_operandLaw.bind draws_operandLaw.clearStack fun _ => draws_operandLaw.pure _

theorem Draws.mask (op : MaskOp) (unread : Bytes) : Draws (Eval.mask op unread) := by
  refine draws_operandLaw.bind (draws_operandLaw.readingLaw.takeStems _) fun values => ?_
  dsimp only
  split
  · exact draws_operandLaw.bind (.declareStems _ _) fun _ => .readMask op unread
  · exact .readMask op unread

/-- A random number leaves an entry of its own. -/
theorem Draws.random : Draws Eval.random := by
  have next : Draws (modify fun s : Session => { s with random := nextRandom s.random }) := by
    rintro s _ _ ⟨⟩
    exact ⟨[], .of_same rfl rfl rfl⟩
  have drawn : ∀ number, Draws (modify (Session.record (.drawn number)) : Eval PUnit) := by
    rintro number s _ _ ⟨⟩
    exact ⟨[.random number], .recorded s ⟨rfl, rfl⟩⟩
  exact draws_operandLaw.bind next fun _ => draws_operandLaw.bind (.gets _) fun _ =>
    draws_operandLaw.bind (drawn _) fun _ => draws_operandLaw.changeStack _

/-- An operator that draws nothing is recorded as a step first. -/
theorem Draws.traced {depth : Nat} {op : Operator} {p : Eval α}
    (idle : ∀ stack, (Step.operator depth op stack).Idle) (h : Draws p) :
    Draws (Eval.traced depth op p) := by
  intro s a t run
  rw [traced_apply] at run
  obtain ⟨steps, drew⟩ := h _ a t run
  exact ⟨_, (Drew.recorded s (idle s.machine.stack)).trans drew⟩

/-! ## Moves -/

theorem startContour_eq_ok {p : Point} (run : onDraft (Draft.startContour p) s = .ok () t) :
    t = { s with draft := s.draft.closeContour.openContour.add p .on } := by
  rw [onDraft_apply, Draft.startContour_apply] at run
  by_cases full : maxContours ≤ s.draft.contourCount ∨ maxPoints < s.draft.pointCount + 1
  · rw [if_pos full] at run
    cases run
  · rw [if_neg full] at run
    cases run
    rfl

/-- The operands of a move are on top of the stack. -/
theorem way_eq {op : MoveOp} {values : List Fixed} {d : Point}
    (run : takeOperands (fun count => op.arity < count) s = .ok values t)
    (h : op.displacement values = .ok d) : op.way s.machine.stack = d := by
  obtain ⟨-, -, -, -, taken⟩ := takeOperands_eq_ok run
  have count := MoveOp.length_of_displacement h
  have top : s.machine.stack.operands.drop (s.machine.stack.size - op.arity) = values := by
    rcases taken with rfl | ⟨-, rfl⟩
    · rw [OperandStack.length_operands] at count
      rw [count, Nat.sub_self, List.drop_zero]
    · -- all operands but the width at the bottom
      rw [List.length_tail, OperandStack.length_operands] at count
      have arity : 0 < op.arity := by cases op <;> decide
      rw [show s.machine.stack.size - op.arity = 1 by omega, List.drop_one]
  rw [MoveOp.way, top, h]

theorem draws_move (depth : Nat) (op : MoveOp) :
    Draws (traced depth (.move op) (move op)) := by
  intro s _ v run
  rw [traced_apply] at run
  rcases bind_eq_ok.1 run with ⟨values, _, taken, displacing⟩
  rcases bind_eq_ok.1 displacing with ⟨d, t, lifted, moving⟩
  obtain ⟨displaced, rfl⟩ := lift_eq_ok.1 lifted
  rcases bind_eq_ok.1 moving with ⟨_, u, moved, ⟨⟩⟩
  -- the width may be taken first, but that moves neither the current point nor the draft
  have way : op.way s.machine.stack = d := (way_eq taken displaced :)
  obtain ⟨trace, draft, position, -⟩ := takeOperands_eq_ok taken
  have drawn := startContour_eq_ok (moveBy_apply d t ▸ moved)
  subst drawn
  refine ⟨[.operator depth (.move op) s.machine.stack], history_of_record trace, ?_, ?_, ?_,
    List.forall_mem_singleton.2 trivial⟩
  · show Pen.mk true (t.machine.position + d) = ⟨true, s.machine.position + op.way s.machine.stack⟩
    rw [position, way]
    rfl
  · show t.draft.closeContour.origin = s.draft.origin
    rw [Draft.origin_closeContour, draft]
    rfl
  · show s.draft.Marked [.moved (s.machine.position + op.way s.machine.stack + s.draft.origin)]
      (t.draft.closeContour.openContour.add (t.machine.position + d) .on)
    rw [position, draft, way]
    exact .start s.draft (s.machine.position + d) rfl rfl

/-! ## Path operators -/

/-- In an open contour segments have been drawn from the current point. -/
structure Stroked (segments : List Segment) (s t : Session) : Prop where
  trace : t.trace = s.trace
  pen : t.pen = ⟨true, Segment.finish s.machine.position segments⟩
  origin : t.draft.origin = s.draft.origin
  marked : s.draft.Marked (((Stroke.along s.machine.position segments).map .stroke).map
    (.shift s.draft.origin)) t.draft

theorem stroked_of_drawSegment {segment : Segment} (isOpen : s.draft.isOpen = true)
    (run : drawSegment segment s = .ok () t) : Stroked [segment] s t := by
  cases segment with
  | line d =>
      rw [drawSegment_line, onDraft_apply] at run
      by_cases full : maxPoints < s.draft.pointCount + 1
      · rw [Session.mapMachine, Draft.addOnCurve_apply, if_pos full] at run
        cases run
      · rw [Session.mapMachine, Draft.addOnCurve_apply, if_neg full,
          if_neg (by simp [isOpen])] at run
        cases run
        exact ⟨rfl, congrArg (Pen.mk · (s.machine.position + d)) isOpen, rfl, .line s.draft _⟩
  | curve d₁ d₂ d₃ =>
      rw [drawSegment_curve, onDraft_apply] at run
      by_cases full : maxPoints < s.draft.pointCount + 3
      · rw [Session.mapMachine, Draft.addCurve_apply, if_pos full] at run
        cases run
      · rw [Session.mapMachine, Draft.addCurve_apply, if_neg full,
          if_neg (by simp [isOpen])] at run
        cases run
        exact ⟨rfl, congrArg (Pen.mk · (s.machine.position + d₁ + d₂ + d₃)) isOpen, rfl,
          .curve s.draft _ _ _⟩

/-- Segments are drawn one after the other, each from where the one before it ends. -/
theorem stroked_of_forM {segments : List Segment} (isOpen : s.draft.isOpen = true)
    (run : segments.forM drawSegment s = .ok () t) : Stroked segments s t := by
  induction segments generalizing s with
  | nil =>
      cases run
      exact ⟨rfl, congrArg (Pen.mk · t.machine.position) isOpen, rfl, .refl t.draft⟩
  | cons segment segments ih =>
      rcases bind_eq_ok.1 run with ⟨_, u, drawn, drawing⟩
      have first := stroked_of_drawSegment isOpen drawn
      have position : u.machine.position = (segment.stroke s.machine.position).finish :=
        congrArg Pen.position first.pen
      -- the contour stays open for the segments that follow
      have rest := ih (congrArg Pen.begun first.pen) drawing
      refine ⟨rest.trace.trans first.trace, ?_, rest.origin.trans first.origin, ?_⟩
      · rw [rest.pen, position]
        rfl
      · have later := rest.marked
        rw [position, first.origin] at later
        exact first.marked.trans later

/-- A contour starts at the current point unless one is open. -/
theorem ensureOpen_eq_ok (run : ensureOpen s = .ok () t) :
    t.draft.isOpen = true ∧ t.trace = s.trace ∧ t.machine = s.machine ∧
      t.draft.origin = s.draft.origin ∧
      s.draft.Marked ((if s.draft.isOpen then [] else [.implied s.machine.position]).map
        (.shift s.draft.origin)) t.draft := by
  rw [ensureOpen_apply] at run
  cases isOpen : s.draft.isOpen with
  | true =>
      rw [isOpen, if_pos rfl] at run
      cases run
      exact ⟨isOpen, rfl, rfl, rfl, .refl s.draft⟩
  | false =>
      rw [isOpen, if_neg Bool.false_ne_true] at run
      obtain rfl := startContour_eq_ok run
      exact ⟨rfl, rfl, rfl, s.draft.origin_closeContour, .start s.draft _ rfl rfl⟩

theorem draws_path (depth : Nat) (op : PathOp) :
    Draws (traced depth (.path op) (path op)) := by
  intro s _ v run
  rw [traced_apply] at run
  rcases bind_eq_ok.1 run with ⟨_, _, ⟨⟩, checking⟩
  rcases bind_eq_ok.1 checking with ⟨_, _, checked, opening⟩
  obtain ⟨accepted, rfl⟩ := lift_eq_ok.1 checked
  rw [OperandStack.length_operands] at accepted
  rcases bind_eq_ok.1 opening with ⟨_, t, opened, drawing⟩
  rcases bind_eq_ok.1 drawing with ⟨_, u, drawn, ⟨⟩⟩
  obtain ⟨isOpen, trace, machine, origin, started⟩ := ensureOpen_eq_ok opened
  have strokes := stroked_of_forM isOpen drawn
  have drew := strokes.marked
  rw [machine, origin] at drew
  refine ⟨[.operator depth (.path op) s.machine.stack],
    history_of_record (strokes.trace.trans trace), ?_, strokes.origin.trans origin, ?_,
    List.forall_mem_singleton.2 accepted⟩
  · refine strokes.pen.trans ?_
    rw [machine]
    rfl
  · -- the contour that may have started, and the strokes in it
    simp only [Pen.draws, Pen.marks, List.append_nil, List.map_append]
    exact started.trans drew

/-! ## All operators that run no other program -/

/-- What a pen leaves that follows the operators is what they add. -/
theorem draws_alone {font : Font} {limit : Nat} {nested : Option Evaluator} {frame : Frame}
    {op : Operator} (alone : op.nests = false) (depth : Nat) (unread : Bytes) :
    Draws (traced depth op (execute font limit nested frame op unread)) := by
  have proceeds : ∀ {α : Type} {p : Eval α} {flow : α → Flow}, Draws (traced depth op p) →
      Draws (traced depth op (p >>= fun a => pure (flow a))) := by
    intro _ p flow h
    rw [traced_bind]
    exact draws_operandLaw.bind h fun _ => draws_operandLaw.pure _
  cases op with
  | move op => exact proceeds (draws_move depth op)
  | path op => exact proceeds (draws_path depth op)
  | stem op => exact proceeds (.traced (fun _ => ⟨rfl, rfl⟩) (.stem op))
  | mask op => exact proceeds (.traced (fun _ => ⟨rfl, rfl⟩) (.mask op unread))
  | stack op => exact proceeds (.traced (fun _ => ⟨rfl, rfl⟩) (draws_operandLaw.changeStack _))
  | put => exact proceeds (.traced (fun _ => ⟨rfl, rfl⟩) draws_operandLaw.put)
  | get => exact proceeds (.traced (fun _ => ⟨rfl, rfl⟩) draws_operandLaw.fetch)
  | random => exact proceeds (.traced (fun _ => ⟨rfl, rfl⟩) .random)
  | dotsection => exact proceeds (.traced (fun _ => ⟨rfl, rfl⟩) draws_operandLaw.clearStack)
  | ret => exact .traced (fun _ => ⟨rfl, rfl⟩) (draws_operandLaw.pure _)
  | callsubr | callgsubr | endchar | seac => cases alone

end Eval

end Type2Glyphs
