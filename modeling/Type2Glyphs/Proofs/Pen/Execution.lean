import Type2Glyphs.Proofs.Pen.Counts

/-!
# Execution — the charstrings behind a trace, and what is drawn for them

The trace of a load brackets the steps of every charstring, and those of the components of an
accented glyph follow the step that composes it.  So it has the shape of a tree, an `Execution`.
Each charstring in it is followed by a pen of its own, from the origin of its glyph or component.

* `Execution.marks_eq`: what an execution draws is what its charstrings draw;
* `Execution.entries_injective`: there is one execution at most for a trace;
* `Charstring.countP_starts` and `Charstring.length_points`: how many contours and points these are;
* `Charstring.countP_segments`: how many lines and curves, by the numbers of operands;
* `Charstring.opening`: when and where a charstring starts a contour without a move.
-/

namespace Type2Glyphs

/-- How far the accent of an accented glyph is from the base, by the operands of the operator that
composes it. -/
def Step.accentOffset : Step → Point
  | operator _ op stack =>
      match stack.entries with
      | _ :: _ :: dy :: dx :: _ =>
          ⟨dx.toFixed - if op = .seac then stack.operands.headD 0 else 0, dy.toFixed⟩
      | _ => 0
  | random _ => 0

/-! ## Charstrings -/

/-- A charstring that was evaluated: where the origin of its glyph or component lies, and its steps,
with those of its subroutines among them. -/
structure Charstring where
  origin : Point
  steps : List Step

namespace Charstring

/-- What is drawn for a charstring, at its final place. -/
def marks (charstring : Charstring) : List Mark :=
  (Pen.draws {} charstring.steps).map (.shift charstring.origin)

/-- Whether a path operator is executed before any move. -/
def unmoved (charstring : Charstring) : Bool :=
  Type2Glyphs.unmoved charstring.steps

/-- The segments that the operands of all path operators describe. -/
def segments (charstrings : List Charstring) : List Segment :=
  charstrings.flatMap fun charstring => charstring.steps.flatMap Step.segments

variable (charstrings : List Charstring)

/-- Contours start with the moves of charstrings, and once for each that draws before it moves. -/
theorem countP_starts :
    (charstrings.flatMap marks).countP Mark.starts =
      (charstrings.flatMap steps).countP Step.isMove + charstrings.countP unmoved := by
  induction charstrings with
  | nil => rfl
  | cons charstring charstrings ih =>
      have drawn : charstring.marks.countP Mark.starts =
          charstring.steps.countP Step.isMove + if charstring.unmoved then 1 else 0 :=
        (Mark.countP_starts_map_shift _ _).trans (Pen.countP_starts_draws {} charstring.steps)
      simp only [List.flatMap_cons, List.countP_append, List.countP_cons, ih, drawn]
      omega

/-- The segments are as many lines and curves as the numbers of operands say. -/
theorem countP_segments (accepted : ∀ step ∈ charstrings.flatMap steps, step.Accepted) :
    (segments charstrings).countP Segment.isLine =
        Step.total Step.lineCount (charstrings.flatMap steps) ∧
      ((segments charstrings).countP fun segment => !segment.isLine) =
        Step.total Step.curveCount (charstrings.flatMap steps) := by
  have drawn := Step.countP_segments accepted
  rwa [List.flatMap_assoc] at drawn

/-- Points are those in which contours start, one for a line and three for a curve. -/
theorem length_points :
    ((charstrings.flatMap marks).flatMap Mark.points).length =
      (charstrings.flatMap marks).countP Mark.starts +
        ((segments charstrings).countP Segment.isLine +
          3 * (segments charstrings).countP fun segment => !segment.isLine) := by
  induction charstrings with
  | nil => rfl
  | cons charstring charstrings ih =>
      have drawn := Pen.length_points_draws {} charstring.steps
      simp only [segments] at ih
      simp only [List.flatMap_cons, List.flatMap_append, List.length_append, List.countP_append, ih,
        marks, segments, Mark.length_points_map_shift, Mark.countP_starts_map_shift, drawn]
      omega

/-- When and where a charstring starts a contour without a move. -/
inductive Opening (charstring : Charstring) : Prop
  /-- Never, if it does not draw before it moves. -/
  | moved (h : charstring.unmoved = false)
      (none : ∀ mark ∈ charstring.marks, mark.isImplied = false)
  /-- Once and before all else at its origin, for a path operator before which nothing was drawn. -/
  | implied (h : charstring.unmoved = true) {before after : List Step} {path : Step}
      {rest : List Mark} (steps : charstring.steps = before ++ path :: after)
      (idle : ∀ step ∈ before, step.Idle) (isPath : path.isPath = true)
      (marks : charstring.marks = .implied charstring.origin :: rest)
      (once : ∀ mark ∈ rest, mark.isImplied = false)

theorem opening (charstring : Charstring) : charstring.Opening := by
  cases h : charstring.unmoved with
  | false =>
      refine .moved h fun mark mem => ?_
      obtain ⟨drawn, drawing, rfl⟩ := List.mem_map.1 mem
      rw [Mark.isImplied_shift]
      exact Pen.draws_of_moved {} h drawn drawing
  | true =>
      obtain ⟨before, path, after, steps, idle, isPath⟩ := split_of_unmoved h
      obtain ⟨rest, drawing, once⟩ := Pen.draws_of_unmoved {} rfl h
      have first : charstring.marks =
          .implied charstring.origin :: rest.map (.shift charstring.origin) := by
        simp only [marks, drawing, List.map_cons, Mark.shift, Point.zero_add]
      refine .implied h steps idle isPath first fun mark mem => ?_
      obtain ⟨drawn, later, rfl⟩ := List.mem_map.1 mem
      rw [Mark.isImplied_shift]
      exact once drawn later

end Charstring

/-! ## Executions -/

/-- The evaluation of a charstring: its steps, and those of the components of an accented glyph that
is composed by the last of them. -/
inductive Execution
  | plain (steps : List Step)
  | accented (steps : List Step) (last : Step) (base mark : Execution)

namespace Execution

/-- The entries of the trace between the start and the stop of the charstring. -/
def inner : Execution → List TraceEntry
  | plain steps => steps.map Step.entry
  | accented steps last base mark =>
      (steps ++ [last]).map Step.entry ++
        ((.start :: base.inner ++ [.stop]) ++ (.start :: mark.inner ++ [.stop]))

/-- The entries of the trace, in the order in which they were made. -/
def entries (execution : Execution) : List TraceEntry :=
  .start :: execution.inner ++ [.stop]

/-- All charstrings that were evaluated, from where the origin of the first one lies. -/
def charstrings (origin : Point) : Execution → List Charstring
  | plain steps => [⟨origin, steps⟩]
  | accented steps last base mark =>
      ⟨origin, steps ++ [last]⟩ ::
        (base.charstrings origin ++ mark.charstrings (origin + last.accentOffset))

/-- What is drawn, where the first charstring is followed by the given pen. -/
def marks (origin : Point) (pen : Pen) : Execution → List Mark
  | plain steps => (pen.draws steps).map (.shift origin)
  | accented steps last base mark =>
      (pen.draws (steps ++ [last])).map (.shift origin) ++
        (base.marks origin {} ++ mark.marks (origin + last.accentOffset) {})

/-- An execution is drawn charstring by charstring. -/
theorem marks_eq (origin : Point) (execution : Execution) :
    execution.marks origin {} = (execution.charstrings origin).flatMap Charstring.marks := by
  induction execution generalizing origin with
  | plain steps => simp [marks, charstrings, Charstring.marks]
  | accented steps last base mark baseDrawn markDrawn =>
      simp [marks, charstrings, Charstring.marks, baseDrawn, markDrawn]

/-- The execution with some steps before it. -/
def prepend (first : List Step) : Execution → Execution
  | plain steps => plain (first ++ steps)
  | accented steps last base mark => accented (first ++ steps) last base mark

theorem inner_prepend (first : List Step) (execution : Execution) :
    (execution.prepend first).inner = first.map Step.entry ++ execution.inner := by
  cases execution <;> simp [prepend, inner]

/-- All path operators that are executed find a number of operands that they accept. -/
def Accepted : Execution → Prop
  | plain steps => ∀ step ∈ steps, step.Accepted
  | accented steps last base mark =>
      (∀ step ∈ steps ++ [last], step.Accepted) ∧ base.Accepted ∧ mark.Accepted

theorem Accepted.prepend {first : List Step} {execution : Execution}
    (before : ∀ step ∈ first, step.Accepted) (h : execution.Accepted) :
    (execution.prepend first).Accepted := by
  cases execution with
  | plain steps => exact List.forall_mem_append.2 ⟨before, h⟩
  | accented steps last base mark =>
      refine ⟨?_, h.2⟩
      rw [List.append_assoc]
      exact List.forall_mem_append.2 ⟨before, h.1⟩

theorem Accepted.charstrings {execution : Execution} (h : execution.Accepted) (origin : Point) :
    ∀ step ∈ (execution.charstrings origin).flatMap Charstring.steps, step.Accepted := by
  induction execution generalizing origin with
  | plain steps =>
      simp only [Execution.charstrings, List.flatMap_singleton]
      exact h
  | accented steps last base mark baseAccepted markAccepted =>
      simp only [Execution.charstrings, List.flatMap_cons, List.flatMap_append,
        List.forall_mem_append]
      exact ⟨List.forall_mem_append.1 h.1, baseAccepted h.2.1 _, markAccepted h.2.2 _⟩

theorem marks_prepend (origin : Point) (pen : Pen) (first : List Step) (execution : Execution) :
    (execution.prepend first).marks origin pen =
      (pen.draws first).map (.shift origin) ++ execution.marks origin (pen.run first) := by
  cases execution <;> simp [prepend, marks, Pen.draws_append, List.append_assoc]

end Execution

/-! ## Executions and traces -/

/-- An entry that starts or stops a charstring, and not one of a step. -/
def TraceEntry.brackets : TraceEntry → Bool
  | start => true
  | stop => true
  | _ => false

theorem Step.entry_injective : Function.Injective entry := by
  intro step other same
  cases step <;> cases other <;> cases same <;> rfl

theorem Step.brackets_entry (step : Step) : step.entry.brackets = false := by
  cases step <;> rfl

/-- The steps before the next start or stop are told by their entries. -/
theorem Step.split_entries {steps others : List Step} {bracket bracket' : TraceEntry}
    {rest rest' : List TraceEntry} (h : bracket.brackets = true) (h' : bracket'.brackets = true)
    (same : steps.map entry ++ bracket :: rest = others.map entry ++ bracket' :: rest') :
    steps = others ∧ bracket = bracket' ∧ rest = rest' := by
  induction steps generalizing others with
  | nil =>
      cases others with
      | nil =>
          cases same
          exact ⟨rfl, rfl, rfl⟩
      | cons other others =>
          have first : bracket = other.entry := (List.cons.inj same).1
          cases (other.brackets_entry.symm.trans (first ▸ h))
  | cons step steps ih =>
      cases others with
      | nil =>
          have first : step.entry = bracket' := (List.cons.inj same).1
          cases (step.brackets_entry.symm.trans (first ▸ h'))
      | cons other others =>
          obtain ⟨first, later⟩ := List.cons.inj same
          obtain ⟨rfl, rest⟩ := ih later
          exact ⟨congrArg (· :: steps) (entry_injective first), rest⟩

namespace Execution

/-- What stands before the stop of a charstring tells its execution. -/
theorem inner_inj {execution other : Execution} {rest rest' : List TraceEntry}
    (same : execution.inner ++ .stop :: rest = other.inner ++ .stop :: rest') :
    execution = other ∧ rest = rest' := by
  induction execution generalizing other rest rest' with
  | plain steps =>
      cases other with
      | plain others =>
          obtain ⟨rfl, -, rfl⟩ := Step.split_entries rfl rfl same
          exact ⟨rfl, rfl⟩
      | accented others last base mark =>
          simp only [inner, List.append_assoc, List.cons_append] at same
          obtain ⟨-, impossible, -⟩ := Step.split_entries rfl rfl same
          cases impossible
  | accented steps last base mark baseTold markTold =>
      cases other with
      | plain others =>
          simp only [inner, List.append_assoc, List.cons_append] at same
          obtain ⟨-, impossible, -⟩ := Step.split_entries rfl rfl same
          cases impossible
      | accented others last' base' mark' =>
          simp only [inner, List.append_assoc, List.cons_append, List.nil_append] at same
          -- the steps up to the first start, and then what stands before two stops
          obtain ⟨together, -, fromBase⟩ := Step.split_entries rfl rfl same
          obtain ⟨rfl, fromMark⟩ := baseTold fromBase
          obtain ⟨rfl, after⟩ := markTold (List.cons.inj fromMark).2
          obtain ⟨rfl, ends⟩ := List.append_inj' together rfl
          cases ends
          exact ⟨rfl, (List.cons.inj after).2⟩

/-- The trace tells which charstrings were evaluated, and which of them others were drawn for. -/
theorem entries_injective : Function.Injective entries := by
  intro execution other same
  exact (inner_inj (List.cons.inj same).2).1

end Execution

end Type2Glyphs
