import Type2Glyphs.Proofs.Draft.Steps
import Type2Glyphs.Proofs.Operations
import Type2Glyphs.Proofs.Path.Expansion
import Type2Glyphs.Proofs.Simulation

/-!
# Singly — path operators drawn segment by segment

A path operator does what its expansion does when each segment has an operator of its own: a line
its `rlineto` of two operands, a curve its `rrcurveto` of six.  Only the first of these operators
can find that no contour is open.  What is left on the stack when a contour is full does differ, as
the operators take their operands piece by piece.

* `Eval.pathSingly` draws one segment by its own operator;
* `SameDrawing` relates the outcomes, and `Eval.path_expanded` says so for all path operators.
-/

namespace Type2Glyphs

open Outcome

/-! ## Operators of single segments -/

/-- The operator that draws one such segment. -/
def Segment.operator : Segment → PathOp
  | .line _ => .rlineto
  | .curve _ _ _ => .rrcurveto

/-- The operands from which its operator draws a segment. -/
def Segment.operands : Segment → List Fixed
  | .line d => [d.x, d.y]
  | .curve d₁ d₂ d₃ => [d₁.x, d₁.y, d₂.x, d₂.y, d₃.x, d₃.y]

/-- Draws a segment by an operator of its own, after its operands have been pushed on an empty
stack. -/
def Eval.pathSingly (segment : Segment) : Eval Unit := do
  clearStack
  segment.operands.forM fun d => changeStack (OperandStack.push (.fixed d))
  path segment.operator

/-- The session with the stack emptied. -/
def Session.cleared (s : Session) : Session :=
  s.mapMachine fun machine => { machine with stack := .empty }

/-- Both runs succeed in one and the same session, with an empty stack, or both find a limit reached
in sessions that differ in the stack only. -/
inductive SameDrawing :
    EStateM.Result LoadError Session Unit → EStateM.Result LoadError Session Unit → Prop
  | drawn {t : Session} (empty : t.machine.stack = .empty) : SameDrawing (.ok () t) (.ok () t)
  | full {t t' : Session} (same : t'.cleared = t.cleared) :
      SameDrawing (.error .outOfMemory t) (.error .outOfMemory t')

namespace Eval

variable {s s' : Session}

/-! ## Drawing does not look at the stack -/

/-- Sessions that are equal up to the stack. -/
abbrev UpToStack (s s' : Session) : Prop :=
  s'.cleared = s.cleared

section UpToStack

variable {α : Type} {excused : LoadError → Prop}

/-- What is read off a session does not depend on the stack if clearing that does not change it. -/
theorem upToStack_gets (part : Session → α) (blind : ∀ s : Session, part s.cleared = part s) :
    Simulates excused UpToStack (gets part) (gets part) := by
  refine .gets ?_
  intro s s' same
  calc part s' = part s'.cleared := (blind s').symm
    _ = part s.cleared := congrArg part same
    _ = part s := blind s

theorem upToStack_onDraft (program : Draft.Program Unit) :
    Simulates excused UpToStack (onDraft program) (onDraft program) := by
  intro s s' same
  have draft : s'.cleared.draft = s.cleared.draft := congrArg Session.draft same
  have redrawn := fun d : Draft => congrArg (fun t : Session => { t with draft := d }) same
  simp only [onDraft_apply]
  rw [show s'.draft = s.draft from draft]
  cases program s.draft with
  | ok a draft => exact .ok (redrawn draft)
  | error e draft => exact .error (redrawn draft)

theorem upToStack_ensureOpen : Simulates excused UpToStack ensureOpen ensureOpen := by
  refine (upToStack_gets (fun s => s.draft.isOpen) fun _ => rfl).bind fun isOpen => ?_
  split
  · exact (upToStack_gets (fun s => s.machine.position) fun _ => rfl).bind fun _ =>
      upToStack_onDraft _
  · exact .pure _

theorem upToStack_drawSegment (segment : Segment) :
    Simulates excused UpToStack (drawSegment segment) (drawSegment segment) := by
  have moved : ∀ q : Point, Simulates excused UpToStack
      (modify (Session.mapMachine fun machine => { machine with position := q }))
      (modify (Session.mapMachine fun machine => { machine with position := q })) := by
    intro q
    refine .modify ?_
    intro s s' same
    have together :=
      congrArg (Session.mapMachine fun machine => { machine with position := q }) same
    exact together
  refine (upToStack_gets (fun s => s.machine.position) fun _ => rfl).bind fun p => ?_
  cases segment with
  | line d => exact (moved _).bind fun _ => upToStack_onDraft _
  | curve d₁ d₂ d₃ => exact (moved _).bind fun _ => upToStack_onDraft _

end UpToStack

/-! ## Open contours stay open -/

theorem ensureOpen_of_isOpen (isOpen : s.draft.isOpen = true) : ensureOpen s = .ok () s := by
  rw [ensureOpen_apply, if_pos isOpen]

/-- A contour is open afterwards, unless there are too many points or contours. -/
theorem ensureOpen_cases (s : Session) :
    (∃ t, ensureOpen s = .ok () t ∧ t.draft.isOpen = true) ∨
      ∃ t, ensureOpen s = .error .outOfMemory t := by
  cases isOpen : s.draft.isOpen with
  | true => exact .inl ⟨s, ensureOpen_of_isOpen isOpen, isOpen⟩
  | false =>
      have closed : ¬ s.draft.isOpen = true := by simp [isOpen]
      rw [ensureOpen_apply, if_neg closed, onDraft_apply, Draft.startContour_apply]
      by_cases full : maxContours ≤ s.draft.contourCount ∨ maxPoints < s.draft.pointCount + 1
      · rw [if_pos full]
        exact .inr ⟨_, rfl⟩
      · rw [if_neg full]
        exact .inl ⟨_, rfl, rfl⟩

/-- A segment leaves the contour open, unless there are too many points. -/
theorem drawSegment_cases (segment : Segment) (isOpen : s.draft.isOpen = true) :
    (∃ t, drawSegment segment s = .ok () t ∧ t.draft.isOpen = true) ∨
      ∃ t, drawSegment segment s = .error .outOfMemory t := by
  have opened : ¬ s.draft.isOpen = false := by simp [isOpen]
  -- whichever points are added, there is a limit on their number only
  have added : ∀ {n : Nat} {draft : Draft} {program : Draft.Program Unit} (q : Point),
      (program s.draft = if maxPoints < s.draft.pointCount + n then .error .outOfMemory s.draft
        else .ok () draft) → draft.isOpen = true →
      ∀ u, u = onDraft program (s.mapMachine fun machine => { machine with position := q }) →
      (∃ t, u = .ok () t ∧ t.draft.isOpen = true) ∨ ∃ t, u = .error .outOfMemory t := by
    rintro n draft program q steps kept u rfl
    rw [onDraft_apply]
    simp only [Session.mapMachine, steps]
    by_cases full : maxPoints < s.draft.pointCount + n
    · rw [if_pos full]
      exact .inr ⟨_, rfl⟩
    · rw [if_neg full]
      exact .inl ⟨_, rfl, kept⟩
  cases segment with
  | line d =>
      have point := Draft.addOnCurve_apply (s.machine.position + d) s.draft
      rw [if_neg opened] at point
      exact added _ point isOpen _ rfl
  | curve d₁ d₂ d₃ =>
      have curve := Draft.addCurve_apply (s.machine.position + d₁) (s.machine.position + d₁ + d₂)
        (s.machine.position + d₁ + d₂ + d₃) s.draft
      rw [if_neg opened] at curve
      exact added _ curve isOpen _ rfl

/-! ## One operator for each segment -/

/-- A path operator with operands that it accepts opens a contour and draws its segments. -/
theorem path_of_accepted {op : PathOp}
    (accepted : op.checkCount s.machine.stack.operands.length = .ok ()) :
    path op s = (ensureOpen >>= fun _ =>
      (op.segments s.machine.stack.operands).forM drawSegment >>= fun _ => clearStack) s := by
  apply (bind_ok (gets_apply s) _).trans
  exact bind_ok (lift_eq_ok.2 ⟨accepted, rfl⟩) _

/-- Operands are pushed one after the other, if there is room for all of them. -/
theorem pushAll_apply (operands : List Fixed) {s : Session}
    (room : s.machine.stack.size + operands.length ≤ maxOperands) :
    operands.forM (fun d => changeStack (OperandStack.push (.fixed d))) s =
      .ok () (s.mapMachine fun machine =>
        { machine with stack := ⟨(operands.map .fixed).reverse ++ machine.stack.entries⟩ }) := by
  induction operands generalizing s with
  | nil => rfl
  | cons d rest ih =>
      simp only [List.length_cons] at room
      have pushed : changeStack (OperandStack.push (.fixed d)) s =
          .ok () (s.mapMachine fun machine =>
            { machine with stack := ⟨.fixed d :: s.machine.stack.entries⟩ }) :=
        changeStack_eq_ok.2 ⟨_, OperandStack.push_eq_ok_iff.2 ⟨by omega, rfl⟩, rfl⟩
      apply (bind_ok pushed _).trans
      have size : (⟨.fixed d :: s.machine.stack.entries⟩ : OperandStack).size =
          s.machine.stack.size + 1 := rfl
      refine (ih (by simp only [Session.mapMachine, size]; omega)).trans ?_
      simp only [Session.mapMachine, List.map_cons, List.reverse_cons, List.append_assoc,
        List.singleton_append]

/-- The operator of a segment draws that segment alone. -/
theorem pathSingly_apply (segment : Segment) (s : Session) :
    ∃ s', UpToStack s s' ∧ pathSingly segment s =
      (ensureOpen >>= fun _ => drawSegment segment >>= fun _ => clearStack) s' := by
  have few : segment.operands.length ≤ 6 := by
    cases segment <;> simp [Segment.operands]
  have room : s.cleared.machine.stack.size + segment.operands.length ≤ maxOperands := by
    show 0 + segment.operands.length ≤ 48
    omega
  have accepted : segment.operator.checkCount segment.operands.length = .ok () := by
    cases segment with
    | line d => exact (rfl : PathOp.rlineto.checkCount 2 = .ok ())
    | curve d₁ d₂ d₃ => exact (rfl : PathOp.rrcurveto.checkCount 6 = .ok ())
  have itself : segment.operator.segments segment.operands = [segment] := by
    cases segment <;> rfl
  -- the operands that were pushed are those that the operator finds
  have found : ∀ {t : Session}, t.machine.stack.operands = segment.operands →
      path segment.operator t =
        (ensureOpen >>= fun _ => drawSegment segment >>= fun _ => clearStack) t := by
    intro t given
    rw [path_of_accepted (by rw [given]; exact accepted), given, itself]
    have alone : [segment].forM drawSegment = drawSegment segment := bind_pure (drawSegment segment)
    rw [alone]
  refine ⟨_, ?_, (bind_ok (pushAll_apply segment.operands room) _).trans (found ?_)⟩
  · rfl
  · cases segment <;> rfl

/-- What is drawn first goes in step or is stopped by a limit, and the rest follows. -/
theorem sameDrawing_bind {p : Eval Unit} {k l : Unit → Eval Unit} {after : Session → Prop}
    (alike : Simulates (fun _ => False) UpToStack p p)
    (outcome : (∃ t, p s = .ok () t ∧ after t) ∨ ∃ t, p s = .error .outOfMemory t)
    (same : UpToStack s s')
    (next : ∀ {t t'}, after t → UpToStack t t' → SameDrawing (k () t) (l () t')) :
    SameDrawing ((p >>= k) s) ((p >>= l) s') := by
  have outcomes := alike same
  rcases outcome with ⟨t, drawn, known⟩ | ⟨t, full⟩
  · rw [drawn] at outcomes
    rcases outcomes.of_ok with ⟨t', drawn', related⟩
    rw [bind_ok drawn, bind_ok drawn']
    exact next known related
  · rw [full] at outcomes
    rcases outcomes.of_error not_false with ⟨t', full', related⟩
    rw [bind_error full, bind_error full']
    exact .full related

/-- A row of segments is drawn alike in one go and by one operator for each of them. -/
theorem sameDrawing_row {segments : List Segment} (some : segments ≠ []) (same : UpToStack s s') :
    SameDrawing
      ((ensureOpen >>= fun _ => segments.forM drawSegment >>= fun _ => clearStack) s)
      (segments.forM pathSingly s') := by
  -- by induction on the segments: behind the first one a contour is open, so that opening one
  -- again, as the next operator does, changes nothing
  induction segments generalizing s s' with
  | nil => exact absurd rfl some
  | cons segment rest ih =>
      rcases pathSingly_apply segment s' with ⟨u, loaded, single⟩
      have apart : (segment :: rest).forM pathSingly s' =
          ((ensureOpen >>= fun _ => drawSegment segment >>= fun _ => clearStack) >>= fun _ =>
            rest.forM pathSingly) u := by
        show (pathSingly segment >>= fun _ => rest.forM pathSingly) s' = _
        rw [bind_apply, single, ← bind_apply]
      have whole : (segment :: rest).forM drawSegment =
          drawSegment segment >>= fun _ => rest.forM drawSegment := rfl
      rw [apart, whole]
      simp only [bind_assoc]
      refine sameDrawing_bind upToStack_ensureOpen (ensureOpen_cases s) (loaded.trans same) ?_
      intro t t' isOpen related
      refine sameDrawing_bind (upToStack_drawSegment segment) (drawSegment_cases segment isOpen)
        related ?_
      intro v v' isOpen related
      cases rest with
      | nil =>
          have last : v'.cleared = v.cleared := related
          show SameDrawing (.ok () v.cleared) (.ok () v'.cleared)
          rw [last]
          exact .drawn rfl
      | cons next rest =>
          have again := ih (List.cons_ne_nil next rest) (related : UpToStack v v'.cleared)
          rwa [bind_ok (ensureOpen_of_isOpen isOpen)] at again

end Eval

/-! ## Path operators -/

/-- A path operator that is accepted stands for one segment at least. -/
theorem PathOp.expansion_ne_nil {op : PathOp} {count : Nat} (enough : op.fewest ≤ count)
    (x : Nat → Fixed) : op.expansion count x ≠ [] := by
  have row : ∀ {n} (f : Nat → Segment), 0 < n → (List.range n).map f ≠ [] := by
    intro n f some empty
    have none := congrArg List.length empty
    rw [List.length_map, List.length_range] at none
    exact absurd none (Nat.ne_of_gt some)
  cases op with
  | rcurveline | rlinecurve =>
      exact List.append_ne_nil_of_right_ne_nil _ (List.cons_ne_nil _ _)
  | hflex | flex | hflex1 | flex1 => exact List.cons_ne_nil _ _
  | _ =>
      refine row _ ?_
      simp only [fewest] at enough
      omega

/-- A path operator with too few operands, or with a number of them that does not have its form, is
rejected and changes nothing.  With any other operands it does what its expansion does, segment by
segment. -/
theorem Eval.path_expanded (op : PathOp) (s : Session) :
    let operands := s.machine.stack.operands
    if operands.length < op.fewest then
      path op s = .error (.stack .underflow) s
    else if op.hasForm operands.length then
      SameDrawing (path op s)
        ((op.expansion operands.length (operandOf operands)).forM pathSingly s)
    else
      path op s = .error (.charstring (.operandCount (.path op))) s := by
  intro operands
  have check := op.checkCount_eq operands.length
  have rejected : ∀ {e}, op.checkCount operands.length = .error e → path op s = .error e s := by
    intro e fails
    apply (bind_ok (gets_apply s) _).trans
    apply bind_error
    rw [fails]
    rfl
  by_cases few : operands.length < op.fewest
  · rw [if_pos few] at check ⊢
    exact rejected check
  · rw [if_neg few] at check ⊢
    by_cases form : op.hasForm operands.length = true
    · rw [if_pos form] at check ⊢
      have enough : op.fewest ≤ operands.length := Nat.le_of_not_lt few
      rw [path_of_accepted check, op.segments_eq_expansion enough form]
      exact sameDrawing_row (op.expansion_ne_nil enough _) rfl
    · rw [if_neg form] at check ⊢
      exact rejected check

end Type2Glyphs
