import Type2Glyphs.Proofs.Draft.Whole
import Type2Glyphs.Proofs.Law.Parting
import Type2Glyphs.Proofs.Loading
import Type2Glyphs.Proofs.Pen.Operators

/-!
# Accounting — the contours and points of a load are those of its charstrings

Every charstring is evaluated with no contour open and on a machine of its own, and its components
are drawn after its last step, from their own origins.  So the trace of a load is that of an
execution, and what the load adds to the draft is what is drawn for the charstrings in it:
`Session.Performed` says so of a charstring that goes on from some step, `Session.Evaluated` of one
from start to stop, and `load_accounted` of the whole load.  Every path operator in it has found a
number of operands that it accepts, so these numbers tell how many lines and curves were drawn.
-/

namespace Type2Glyphs

open Outcome

/-! ## Sessions -/

namespace Session

/-- A charstring has been evaluated from here to its end, and what was added is what is drawn for
it from here on. -/
structure Performed (execution : Execution) (s t : Session) : Prop where
  history : t.history = s.history ++ execution.inner
  origin : t.draft.origin = s.draft.origin
  marked : s.draft.Marked (execution.marks s.draft.origin s.pen) t.draft
  accepted : execution.Accepted

/-- A charstring has been evaluated from start to stop, with the origin of its glyph at the given
place. -/
structure Evaluated (origin : Point) (execution : Execution) (s t : Session) : Prop where
  history : t.history = s.history ++ execution.entries
  marked : s.draft.Marked (execution.marks origin {}) t.draft
  accepted : execution.Accepted

/-- What composing an accented glyph adds: nothing if components are listed, and else what is drawn
for them. -/
inductive Composed (offset : Point) (s t : Session) : Prop
  | listed (trace : t.trace = s.trace) (draft : t.draft = s.draft)
  | drawn {base mark : Execution}
      (history : t.history = s.history ++ (base.entries ++ mark.entries))
      (origin : t.draft.origin = s.draft.origin)
      (marked : s.draft.Marked
        (base.marks s.draft.origin {} ++ mark.marks (s.draft.origin + offset) {}) t.draft)
      (accepted : base.Accepted ∧ mark.Accepted)

variable {s t u : Session} {steps : List Step} {execution : Execution}

theorem Drew.performed (h : s.Drew steps t) : s.Performed (.plain steps) t :=
  ⟨h.history, h.origin, h.marked, h.accepted⟩

theorem Drew.trans_performed (first : s.Drew steps t) (next : t.Performed execution u) :
    s.Performed (execution.prepend steps) u where
  history := by
    rw [next.history, first.history, Execution.inner_prepend, List.append_assoc]
  origin := next.origin.trans first.origin
  marked := by
    have later := next.marked
    rw [first.pen, first.origin] at later
    rw [Execution.marks_prepend]
    exact first.marked.trans later
  accepted := next.accepted.prepend first.accepted

/-- Composing an accented glyph is the last step of its charstring. -/
theorem Composed.performed {step : Step} (idle : step.Idle)
    (trace : t.trace = step.entry :: s.trace) (origin : t.draft.origin = s.draft.origin)
    (nothing : s.draft.Marked [] t.draft)
    (h : t.Composed step.accentOffset u) : ∃ execution, s.Performed execution u := by
  have draws : s.pen.draws [step] = [] := s.pen.draws_of_idle idle []
  have recorded := history_of_record trace
  have accepted : ∀ step' ∈ [step], step'.Accepted :=
    List.forall_mem_singleton.2 (Step.accepted_of_idle idle)
  cases h with
  | listed untraced undrawn =>
      -- listed components are not evaluated, so they are no part of the execution
      refine ⟨.plain [step], history_of_record (untraced.trans trace), ?_, ?_, accepted⟩
      · rw [undrawn, origin]
      · rw [Execution.marks, draws, undrawn]
        exact nothing
  | @drawn base mark history origin' marked accepted' =>
      refine ⟨.accented [] step base mark, ?_, origin'.trans origin, ?_, accepted, accepted'⟩
      · rw [history, recorded, List.append_assoc]
        rfl
      · rw [Execution.marks, List.nil_append, draws, ← origin]
        exact nothing.nil_trans marked

end Session

namespace Eval

open Session

variable {α β : Type} {font : Font} {limit depth : Nat} {frame : Frame} {evaluate : Evaluator}
  {s t : Session}

/-! ## Programs -/

/-- The program adds what is drawn for the rest of its charstring, which goes on after it unless
it has ended the glyph. -/
def Performs (ends : α → Prop) (p : Eval α) : Prop :=
  ∀ s a t, p s = .ok a t →
    (∃ execution, s.Performed execution t) ∧ (¬ ends a → ∃ steps, s.Drew steps t)

theorem Draws.performs {p : Eval α} (h : Draws p) (ends : α → Prop) : Performs ends p := by
  intro s a t run
  obtain ⟨steps, drew⟩ := h s a t run
  exact ⟨⟨_, drew.performed⟩, fun _ => ⟨steps, drew⟩⟩

theorem Performs.bind {ends : α → Prop} {ends' : β → Prop} {p : Eval α} {k : α → Eval β}
    (first : Performs ends p) (next : ∀ a, Performs ends' (k a))
    (last : ∀ a, ends a → ∃ b, ends' b ∧ k a = pure b) : Performs ends' (p >>= k) := by
  intro s b u run
  rcases bind_eq_ok.1 run with ⟨a, t, before, after⟩
  obtain ⟨performed, drew⟩ := first s a t before
  by_cases ended : ends a
  · -- nothing follows a program that has ended the glyph
    obtain ⟨b', ends', same⟩ := last a ended
    rw [same] at after
    cases after
    exact ⟨performed, fun goes => absurd ends' goes⟩
  · obtain ⟨steps, drew⟩ := drew ended
    obtain ⟨⟨execution, later⟩, more⟩ := next a t b u after
    refine ⟨⟨_, drew.trans_performed later⟩, fun goes => ?_⟩
    obtain ⟨steps', drew'⟩ := more goes
    exact ⟨_, drew.trans drew'⟩

/-! ## Whole charstrings -/

section Evaluating

variable (body : ∀ frame program, Performs (fun ending => ending.endsGlyph = true)
  (evaluate frame program))

include body

theorem evaluated_of_runProgram {program : Bytes}
    (run : runProgram evaluate frame program s = .ok () t) (closed : s.draft.isOpen = false) :
    ∃ execution, s.Evaluated s.draft.origin execution t := by
  rcases runProgram_eq_ok.1 run with ⟨unread, u, ran, rfl⟩
  obtain ⟨⟨execution, performed⟩, -⟩ := body _ _ _ _ _ ran
  -- on a new machine and with no contour open, the pen has followed nothing yet
  have fresh : ({ s with machine := {} }.record .start).pen = {} := by
    simp only [Session.pen, Session.record, closed]
  have left : u.draft.Marked [] (u.leave frame s.machine).draft := by
    simp only [Session.leave, Session.mapDraft_eq, Session.record]
    split
    · exact .refl u.draft
    · exact .of_same rfl rfl rfl rfl rfl
  refine ⟨execution, ?_, ?_, performed.accepted⟩
  · have stopped : (u.leave frame s.machine).history = u.history ++ [.stop] :=
      history_of_record rfl
    have started : ({ s with machine := {} }.record .start).history = s.history ++ [.start] :=
      history_of_record rfl
    rw [stopped, performed.history, started]
    simp [Execution.entries]
  · have marked := performed.marked.trans_nil left
    rwa [fresh] at marked

theorem evaluated_of_drawComponent {origin : Point} {component : Component}
    (closed : s.draft.isOpen = false)
    (run : drawComponent font evaluate depth origin component s = .ok () t) :
    (∃ execution, s.Evaluated (origin + component.offset) execution t) ∧
      t.draft.isOpen = false := by
  rcases bind_eq_ok.1 run with ⟨_, u, heard, moving⟩
  rcases bind_eq_ok.1 moving with ⟨_, _, ⟨⟩, drawing⟩
  rcases withGlyph_eq_ok.1 drawing with ⟨located, _, _, running, rfl⟩
  rcases bind_eq_ok.1 running with ⟨_, v, ran, ⟨⟩⟩
  have trace := trace_callHook heard
  obtain ⟨draft, -⟩ := parts_callHook heard
  have before : u.draft.isOpen = false := by rw [draft, closed]
  obtain ⟨execution, evaluated⟩ := evaluated_of_runProgram body ran before
  refine ⟨⟨execution, ?_, ?_, evaluated.accepted⟩, v.draft.isOpen_commit⟩
  · have same : u.history = s.history := congrArg List.reverse trace
    rw [← same]
    exact evaluated.history
  · have moved : s.draft.Marked [] { u.draft with origin := origin + component.offset } := by
      rw [← draft]
      exact .of_same rfl rfl rfl rfl rfl
    exact moved.nil_trans (evaluated.marked.trans_nil (.commit v.draft))

end Evaluating

/-! ## Accented glyphs -/

theorem popInt_eq_ok {stack after : OperandStack} {value : Int32}
    (h : stack.popInt = .ok (value, after)) : ∃ top, stack.entries = top :: after.entries := by
  unfold OperandStack.popInt OperandStack.pop at h
  split at h
  · cases h
  · next top below entries =>
      cases h
      exact ⟨top, entries⟩

theorem popFixed_eq_ok {stack after : OperandStack} {value : Fixed}
    (h : stack.popFixed = .ok (value, after)) :
    ∃ top, stack.entries = top :: after.entries ∧ value = top.toFixed := by
  unfold OperandStack.popFixed OperandStack.pop at h
  split at h
  · cases h
  · next top below entries =>
      cases h
      exact ⟨top, entries, rfl⟩

/-- The offset of an accent is below the two codes on top of the stack. -/
theorem popAccent_eq_ok {bearing : Fixed} {accent : Accent}
    (run : popAccent bearing s = .ok accent t) :
    t.trace = s.trace ∧ t.draft = s.draft ∧ ∃ mark base dy dx below,
      s.machine.stack.entries = mark :: base :: dy :: dx :: below ∧
        accent.offset = ⟨dx.toFixed - bearing, dy.toFixed⟩ := by
  rcases bind_eq_ok.1 run with ⟨_, _, popped, popping⟩
  rcases popOperand_eq_ok.1 popped with ⟨belowMark, markPopped, rfl⟩
  rcases bind_eq_ok.1 popping with ⟨_, _, popped, popping⟩
  rcases popOperand_eq_ok.1 popped with ⟨belowBase, basePopped, rfl⟩
  rcases bind_eq_ok.1 popping with ⟨_, _, popped, popping⟩
  rcases popOperand_eq_ok.1 popped with ⟨belowDy, dyPopped, rfl⟩
  rcases bind_eq_ok.1 popping with ⟨_, _, popped, ⟨⟩⟩
  rcases popOperand_eq_ok.1 popped with ⟨below, dxPopped, rfl⟩
  obtain ⟨mark, marks⟩ := popInt_eq_ok markPopped
  obtain ⟨base, bases⟩ := popInt_eq_ok basePopped
  obtain ⟨dy, dys, rfl⟩ := popFixed_eq_ok dyPopped
  obtain ⟨dx, dxs, rfl⟩ := popFixed_eq_ok dxPopped
  refine ⟨rfl, rfl, mark, base, dy, dx, below.entries, ?_, rfl⟩
  calc s.machine.stack.entries
      = mark :: belowMark.entries := marks
    _ = mark :: base :: belowBase.entries := congrArg (mark :: ·) bases
    _ = mark :: base :: dy :: belowDy.entries := congrArg (mark :: base :: ·) dys
    _ = mark :: base :: dy :: dx :: below.entries := congrArg (mark :: base :: dy :: ·) dxs

section Composing

variable {nested : Option Evaluator}
  (body : ∀ evaluate, nested = some evaluate → ∀ frame program,
    Performs (fun ending => ending.endsGlyph = true) (evaluate frame program))

include body

theorem composed_of_drawComponents {base mark : GlyphId} {offset : Point}
    (run : drawComponents font limit nested depth [⟨base, 0⟩, ⟨mark, offset⟩] s = .ok () t) :
    s.Composed offset t := by
  cases nested with
  | none => cases run
  | some evaluate =>
      have drawing : andFinally ([⟨base, 0⟩, ⟨mark, offset⟩].forM
          (drawComponent font evaluate depth s.draft.commit.origin))
          (.mapDraft fun draft => { draft with origin := s.draft.commit.origin })
          (s.mapDraft Draft.commit) = .ok () t := run
      rw [Draft.origin_commit] at drawing
      rcases andFinally_eq_ok.1 drawing with ⟨v, drawn, rfl⟩
      rcases bind_eq_ok.1 drawn with ⟨_, u, baseDrawn, later⟩
      rcases bind_eq_ok.1 later with ⟨_, _, markDrawn, ⟨⟩⟩
      obtain ⟨⟨baseRun, first⟩, closed⟩ :=
        evaluated_of_drawComponent (body evaluate rfl) s.draft.isOpen_commit baseDrawn
      obtain ⟨⟨markRun, second⟩, -⟩ :=
        evaluated_of_drawComponent (body evaluate rfl) closed markDrawn
      have committed : s.draft.Marked [] (s.mapDraft Draft.commit).draft := .commit s.draft
      -- the origin is brought back at the end
      have back : v.draft.Marked [] { v.draft with origin := s.draft.origin } :=
        .of_same rfl rfl rfl rfl rfl
      have marked := (committed.nil_trans (first.marked.trans second.marked)).trans_nil back
      rw [Point.add_zero] at marked
      have history : v.history = s.history ++ (baseRun.entries ++ markRun.entries) := by
        rw [second.history, first.history, List.append_assoc]
        rfl
      exact .drawn history rfl marked ⟨first.accepted, second.accepted⟩

theorem composed_of_compose {accent : Accent}
    (run : compose font limit nested depth accent s = .ok () t) :
    s.Composed accent.offset t := by
  rw [compose_eq] at run
  rcases bind_eq_ok.1 run with ⟨base, _, lifted, withBase⟩
  rw [(lift_eq_ok.1 lifted).2] at withBase
  rcases bind_eq_ok.1 withBase with ⟨mark, _, lifted, withMark⟩
  rw [(lift_eq_ok.1 lifted).2, composeOf_apply] at withMark
  split at withMark
  · cases withMark
    exact .listed rfl rfl
  · exact composed_of_drawComponents body withMark

/-- The operator that composes an accented glyph has been recorded, and what was done since draws
nothing. -/
theorem performed_of_accent {op : Operator} {stack : OperandStack} {bearing : Fixed} {u : Session}
    (idle : (Step.operator depth op stack).Idle)
    (bears : bearing = if op = .seac then stack.operands.headD 0 else 0)
    (trace : u.trace = .operator depth op stack :: s.trace) (same : u.machine.stack = stack)
    (origin : u.draft.origin = s.draft.origin) (nothing : s.draft.Marked [] u.draft)
    (run : (popAccent bearing >>= fun accent =>
      compose font limit nested depth accent >>= fun _ => clearStack) u = .ok () t) :
    ∃ execution, s.Performed execution t := by
  rcases bind_eq_ok.1 run with ⟨accent, v, popped, composing⟩
  rcases bind_eq_ok.1 composing with ⟨_, w, composed, ⟨⟩⟩
  obtain ⟨untraced, undrawn, mark, base, dy, dx, below, entries, offset⟩ := popAccent_eq_ok popped
  have composed := composed_of_compose body composed
  -- the offset was popped from the stack that was recorded
  have placed : (Step.operator depth op stack).accentOffset = accent.offset := by
    rw [offset, bears, Step.accentOffset, ← same]
    simp only [entries]
  rw [← placed] at composed
  obtain ⟨execution, performed⟩ := composed.performed (s := s) idle (untraced.trans trace)
    (by rw [undrawn, origin]) (by rw [undrawn]; exact nothing)
  exact ⟨execution, performed.history, performed.origin, performed.marked, performed.accepted⟩

theorem performs_endchar : Performs (fun _ => True)
    (traced frame.depth .endchar (endchar font limit nested frame)) := by
  intro s _ t run
  refine ⟨?_, fun goes => absurd trivial goes⟩
  rw [traced_apply] at run
  rcases bind_eq_ok.1 run with ⟨operands, u, taken, ending⟩
  rcases bind_eq_ok.1 ending with ⟨_, _, ⟨⟩, ended⟩
  obtain ⟨trace, draft, -, stack, -⟩ := takeOperands_eq_ok taken
  have origin : u.draft.closeContour.origin = s.draft.origin := by
    rw [Draft.origin_closeContour, draft]
    rfl
  have nothing : s.draft.Marked [] u.draft.closeContour := by
    rw [draft]
    exact .closeContour s.draft
  dsimp only at ended
  split at ended
  · exact performed_of_accent body (u := u.mapDraft Draft.closeContour) ⟨rfl, rfl⟩ rfl trace stack
      origin nothing ended
  · split at ended
    · cases ended
    · cases ended
      -- the glyph is not accented, so nothing follows the last step
      exact ⟨.plain [.operator frame.depth .endchar s.machine.stack], history_of_record trace,
        origin, nothing, List.forall_mem_singleton.2 trivial⟩

theorem performs_seac : Performs (fun _ => True)
    (traced frame.depth .seac (seac font limit nested frame)) := by
  intro s _ t run
  refine ⟨?_, fun goes => absurd trivial goes⟩
  rw [traced_apply] at run
  rcases bind_eq_ok.1 run with ⟨_, _, ⟨⟩, reading⟩
  rcases bind_eq_ok.1 reading with ⟨operands, _, ⟨⟩, counting⟩
  rcases bind_eq_ok.1 counting with ⟨_, _, counted, closing⟩
  rw [(lift_eq_ok.1 counted).2] at closing
  rcases bind_eq_ok.1 closing with ⟨_, _, ⟨⟩, setting⟩
  rcases bind_eq_ok.1 setting with ⟨_, u, set, accenting⟩
  rw [setLeftBearing_apply] at set
  -- the left bearing of a glyph is no part of what is drawn
  obtain ⟨trace, stack, origin, nothing⟩ :
      u.trace = .operator frame.depth .seac s.machine.stack :: s.trace ∧
        u.machine.stack = s.machine.stack ∧ u.draft.origin = s.draft.origin ∧
        s.draft.Marked [] u.draft := by
    have closed : s.draft.Marked [] s.draft.closeContour := .closeContour s.draft
    cases set
    refine ⟨rfl, rfl, ?_, closed.trans_nil ?_⟩
    · simp only [Session.mapDraft_eq]
      split <;> exact s.draft.origin_closeContour
    · simp only [Session.mapDraft_eq]
      split
      · exact .refl _
      · exact .of_same rfl rfl rfl rfl rfl
  exact performed_of_accent body ⟨rfl, rfl⟩ rfl trace stack origin nothing accenting

end Composing

/-! ## Programs -/

theorem performs_pairLaw (font : Font) (limit : Nat) :
    PairLaw font font limit (fun _ _ => True) fun {_} ends p _ => Performs ends p where
  globalSubrs := rfl
  deeper _ := trivial
  pure a := (draws_sequenceLaw.pure a).performs _
  throw e := (draws_sequenceLaw.throw e).performs _
  bind first next last := first.bind next fun a ended => by
    obtain ⟨b, ends', same, -⟩ := last a ended
    exact ⟨b, ends', same⟩
  push value := (draws_operandLaw.changeStack _).performs _
  missing depth e s a t run := by cases run
  popped depth op calls := by
    rcases calls with rfl | rfl
    · exact (Draws.traced (fun _ => ⟨rfl, rfl⟩) (draws_operandLaw.popOperand _)).performs _
    · exact (Draws.traced (fun _ => ⟨rfl, rfl⟩) (draws_operandLaw.popOperand _)).performs _
  alone alone _ unread := (draws_alone alone _ unread).performs _
  endchar _ below := performs_endchar fun _ => below.evaluator
  seac _ below := performs_seac fun _ => below.evaluator

/-- Every program adds what is drawn for the rest of its charstring. -/
theorem evaluate_performs (font : Font) (limit levels : Nat) (frame : Frame) (program : Bytes) :
    Performs (fun ending => ending.endsGlyph = true)
      (Eval.evaluate font limit levels frame program) :=
  (performs_pairLaw font limit).evaluate trivial program

end Eval

/-! ## Loads -/

variable {font : Font} {glyph : GlyphId} {settings : LoadSettings} {hook : Option HintHook}

/-- A load that succeeds has evaluated the charstring of its glyph, and nothing else adds to its
trace or to its draft. -/
theorem evaluated_of_load {loaded : LoadedGlyph}
    (success : (font.load glyph settings hook).result = .ok loaded) :
    ∃ execution, (Session.initial settings hook).Evaluated 0 execution
      (font.load glyph settings hook).session := by
  have report : font.load glyph settings hook =
      ⟨.ok loaded, (font.load glyph settings hook).session⟩ := by rw [← success]
  rcases load_eq_ok.1 report with ⟨s, drawn, finished⟩
  rcases Eval.withGlyph_eq_ok.1 drawn with ⟨located, t, -, drawing, rfl⟩
  rcases bind_eq_ok.1 drawing with ⟨_, u, opened, run⟩
  obtain ⟨draft, -⟩ := Eval.parts_callHook opened
  have closed : u.draft.isOpen = false := by
    rw [draft]
    rfl
  obtain ⟨execution, evaluated⟩ :=
    Eval.evaluated_of_runProgram (Eval.evaluate_performs font _ _) run closed
  -- the outline that is handed to the hint hook is only read
  obtain ⟨handed, -⟩ := closed_of_finishGlyph finished
  obtain ⟨draft', -⟩ := Eval.parts_callHook handed
  have started : u.history = (Session.initial settings hook).history :=
    (congrArg List.reverse (trace_callHook opened) :)
  have ended : (font.load glyph settings hook).session.history = t.history :=
    (congrArg List.reverse (trace_callHook handed) :)
  refine ⟨execution, ?_, ?_, evaluated.accepted⟩
  · rw [ended, evaluated.history, started]
  · rw [draft']
    have marked := evaluated.marked
    rw [draft] at marked
    exact marked

/-- The contours and points of a load that succeeds are those of the charstrings that its trace
tells, be they kept or only measured.  There is a contour for each move, and one for each charstring
that draws before it moves.  Contours start with one point each, and there is one more for a line
and three more for a curve that the operands of path operators describe, as their numbers say.  A
charstring starts at most one contour without a move, at its first operator that draws and at its
origin. -/
theorem load_accounted {loaded : LoadedGlyph}
    (success : (font.load glyph settings hook).result = .ok loaded) :
    let session := (font.load glyph settings hook).session
    ∃! execution : Execution, session.trace.reverse = execution.entries ∧
      let charstrings := execution.charstrings 0
      let steps := charstrings.flatMap Charstring.steps
      let segments := Charstring.segments charstrings
      let lines := Step.total Step.lineCount steps
      let curves := Step.total Step.curveCount steps
      session.draft.contourCount =
        steps.countP Step.isMove + charstrings.countP Charstring.unmoved ∧
      session.draft.pointCount = session.draft.contourCount + (lines + 3 * curves) ∧
      segments.countP Segment.isLine = lines ∧
      (segments.countP fun segment => !segment.isLine) = curves ∧
      (Session.initial settings hook).draft.Adds
        ((charstrings.flatMap Charstring.marks).flatMap Mark.points) session.draft ∧
      ∀ charstring ∈ charstrings, charstring.Opening := by
  intro session
  obtain ⟨execution, history, ⟨adds, counted⟩, accepted⟩ := evaluated_of_load success
  rw [Execution.marks_eq] at adds counted
  have contours : session.draft.contourCount =
      ((execution.charstrings 0).flatMap Charstring.marks).countP Mark.starts :=
    counted.trans (Nat.zero_add _)
  obtain ⟨lines, curves⟩ := Charstring.countP_segments _ (accepted.charstrings 0)
  refine ⟨execution, ⟨history, ?_, ?_, lines, curves, adds,
    fun charstring _ => charstring.opening⟩, ?_⟩
  · exact contours.trans (Charstring.countP_starts _)
  · rw [contours, ← lines, ← curves, ← Charstring.length_points]
    exact adds.pointCount.trans (Nat.zero_add _)
  · rintro other ⟨told, -⟩
    exact Execution.entries_injective (told.symm.trans history)

/-- A font of three glyphs: an accented one, a base that moves before it draws a curve and a line,
and an accent that draws three lines at once. -/
def Font.hasty : Font where
  glyphs := .ofList
    [some [189, 239, 140, 141, 14],
      some [139, 22, 149, 159, 169, 179, 189, 199, 209, 219, 24, 14],
      some [149, 159, 169, 6, 14]]
  globalSubrs := .empty
  subfonts := [{}]

/-- What is executed for its accented glyph. -/
def Execution.hasty : Execution :=
  .accented [] (.operator 0 .endchar ⟨[.int 2, .int 1, .int 100, .int 50]⟩)
    (.plain
      [.operator 1 (.move .hmoveto) ⟨[.int 0]⟩,
        .operator 1 (.path .rcurveline)
          ⟨[.int 80, .int 70, .int 60, .int 50, .int 40, .int 30, .int 20, .int 10]⟩,
        .operator 1 .endchar .empty])
    (.plain
      [.operator 1 (.path .hlineto) ⟨[.int 30, .int 20, .int 10]⟩,
        .operator 1 .endchar .empty])

/-- Eight operands of the base are a curve and a line, and three of the accent as many lines. -/
theorem load_accounted_hasty :
    (∃ loaded, (Font.hasty.load ⟨0⟩ {} none).result = .ok loaded) ∧
      (Font.hasty.load ⟨0⟩ {} none).session.trace.reverse = Execution.hasty.entries ∧
      (Font.hasty.load ⟨0⟩ {} none).session.draft.contourCount = 1 + 1 ∧
      (Font.hasty.load ⟨0⟩ {} none).session.draft.pointCount = 1 + 1 + (4 + 3 * 1) ∧
      (Charstring.segments (Execution.hasty.charstrings 0)).countP Segment.isLine = 4 ∧
      ((Charstring.segments (Execution.hasty.charstrings 0)).countP fun segment =>
        !segment.isLine) = 1 ∧
      (Font.hasty.load ⟨0⟩ {} none).session.draft.points[5]? =
        some ⟨⟨.ofInt 50, .ofInt 100⟩, .on⟩ ∧
      ∀ charstring ∈ Execution.hasty.charstrings 0, charstring.Opening := by
  obtain ⟨loaded, drawn⟩ : ∃ loaded, (Font.hasty.load ⟨0⟩ {} none).result = .ok loaded :=
    ok_of_isOk (by decide +kernel)
  have told : (Font.hasty.load ⟨0⟩ {} none).session.trace.reverse = Execution.hasty.entries := by
    decide +kernel
  obtain ⟨execution, ⟨history, contours, points, lines, curves, -, opening⟩, -⟩ :=
    load_accounted drawn
  obtain rfl : execution = .hasty := Execution.entries_injective (history.symm.trans told)
  have counted : (Font.hasty.load ⟨0⟩ {} none).session.draft.contourCount = 1 + 1 :=
    contours.trans (by decide)
  refine ⟨⟨loaded, drawn⟩, told, counted, ?_, lines.trans (by decide), curves.trans (by decide),
    by decide +kernel, opening⟩
  rw [points, counted]
  decide

end Type2Glyphs
