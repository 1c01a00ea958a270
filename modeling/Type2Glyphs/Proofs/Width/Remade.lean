import Type2Glyphs.Proofs.Aloof
import Type2Glyphs.Proofs.Program.Inlining
import Type2Glyphs.Proofs.Width.Below

/-!
# Remade — sessions that are equal but for something about the machine

Two runs can have machines of which one is made of the other, and be equal otherwise, up to the
trace.  Steps that neither see nor undo what was remade go in step.
-/

namespace Type2Glyphs

open Outcome

namespace Session

/-- Sessions that are equal up to the trace, but that the second machine is made of the first one by
`g`.  The first machine and the trace have the invariant `I`. -/
structure Remade (g : Machine → Machine) (I : Machine → List TraceEntry → Prop) (s s' : Session) :
    Prop where
  rest : s' = { s with machine := g s.machine, trace := s'.trace }
  holds : I s.machine s.trace

namespace Remade

variable {g : Machine → Machine} {I : Machine → List TraceEntry → Prop} {s s' : Session}
  {α : Type}

theorem machine (h : Remade g I s s') : s'.machine = g s.machine := by
  rw [h.rest]

/-- A change that has nothing to do with the machine and the trace. -/
theorem change (h : Remade g I s s') (f : Session → Session)
    (aside : ∀ s machine trace, f { s with machine := machine, trace := trace } =
      { f s with machine := machine, trace := trace })
    (quiet : ∀ s, (f s).machine = s.machine ∧ (f s).trace = s.trace) :
    Remade g I (f s) (f s') where
  rest := by
    rw [(quiet s).1, (quiet s').2]
    exact (congrArg f h.rest).trans (aside s _ s'.trace)
  holds := by
    rw [(quiet s).1, (quiet s).2]
    exact h.holds

theorem note (h : Remade g I s s') (event : LoadEvent) :
    Remade g I (s.note event) (s'.note event) :=
  h.change (Session.note event) (fun _ _ _ => rfl) fun _ => ⟨rfl, rfl⟩

theorem mapDraft (h : Remade g I s s') (f : Draft → Draft) :
    Remade g I (s.mapDraft f) (s'.mapDraft f) :=
  h.change (Session.mapDraft f) (fun _ _ _ => rfl) fun _ => ⟨rfl, rfl⟩

theorem record {J : Machine → List TraceEntry → Prop} (h : Remade g I s s')
    (entry entry' : TraceEntry) (holds : J s.machine (entry :: s.trace)) :
    Remade g J (s.record entry) (s'.record entry') where
  rest := by
    simp only [Session.record]
    rw [h.rest]
  holds := holds

/-- The machines are changed, and the second one of them may be made in another way afterwards. -/
theorem mapMachine {g' : Machine → Machine} {J : Machine → List TraceEntry → Prop}
    (h : Remade g I s s') {f f' : Machine → Machine}
    (aside : f' (g s.machine) = g' (f s.machine)) (holds : J (f s.machine) s.trace) :
    Remade g' J (s.mapMachine f) (s'.mapMachine f') where
  rest := by
    simp only [Session.mapMachine]
    rw [h.rest]
    simp only [aside]
  holds := holds

/-! ## Programs that go in step -/

theorem gets {excused : LoadError → Prop} (part : Machine → α)
    (blind : ∀ machine, part (g machine) = part machine) :
    Simulates excused (Remade g I) (Eval.gets fun s => part s.machine)
      (Eval.gets fun s => part s.machine) := by
  refine .gets ?_
  intro s s' related
  rw [related.machine]
  exact blind s.machine

theorem modifyMachine {excused : LoadError → Prop} {f : Machine → Machine}
    (aside : ∀ machine, f (g machine) = g (f machine))
    (keeps : ∀ machine trace, I machine trace → I (f machine) trace) :
    Simulates excused (Remade g I) (modify (Session.mapMachine f))
      (modify (Session.mapMachine f)) :=
  .modify fun s _ related => related.mapMachine (aside s.machine) (keeps _ _ related.holds)

theorem onDraft {excused : LoadError → Prop} (program : Draft.Program α) :
    Simulates excused (Remade g I) (Eval.onDraft program) (Eval.onDraft program) := by
  have same : Simulates excused Eq program program := by
    rintro d _ rfl
    cases program d with
    | ok a t => exact .ok rfl
    | error e t => exact .error rfl
  refine same.onDraft (fun related => by rw [related.rest]) ?_
  rintro s s' related d _ rfl
  exact related.change (fun s => { s with draft := d }) (fun _ _ _ => rfl) fun _ => ⟨rfl, rfl⟩

theorem callHook {excused : LoadError → Prop} (call : HintCall) :
    Simulates excused (Remade g I) (Eval.callHook call) (Eval.callHook call) := by
  refine .callHook ?_ ?_ (fun h => h.note) ?_ call
  · intro s s' related
    rw [related.rest]
  · intro s s' related _ _
    rw [related.rest]
    rfl
  · intro s s' related
    exact related.change (fun s => { s with hook := none }) (fun _ _ _ => rfl) fun _ => ⟨rfl, rfl⟩

/-- Operands are popped on machines of which the second one has more of them at the bottom. -/
theorem popOperand {below : List Operand}
    {f : OperandStack → Except StackFault (α × OperandStack)}
    (stack : ∀ machine, (g machine).stack = machine.stack.above below)
    (setStack : ∀ machine stack, { g machine with stack := stack.above below } =
      g { machine with stack := stack })
    (above : ∀ {stack after : OperandStack} {a}, f stack = .ok (a, after) →
      f (stack.above below) = .ok (a, after.above below))
    (keeps : ∀ {machine trace after a}, I machine trace → f machine.stack = .ok (a, after) →
      I { machine with stack := after } trace) :
    Simulates (fun _ => True) (Remade g I) (Eval.popOperand f) (Eval.popOperand f) := by
  intro s s' related
  cases popped : Eval.popOperand f s with
  | error e t => exact .excuse trivial
  | ok a t =>
      rcases popOperand_eq_ok.1 popped with ⟨after, found, rfl⟩
      have found' : f s'.machine.stack = .ok (a, after.above below) := by
        rw [related.machine, stack]
        exact above found
      rw [popOperand_of_ok found']
      exact .ok (related.mapMachine (setStack _ _) (keeps related.holds found))

theorem mapRandom (h : Remade g I s s') (f : UInt32 → UInt32) :
    Remade g I { s with random := f s.random } { s' with random := f s'.random } :=
  h.change (fun s => { s with random := f s.random }) (fun _ _ _ => rfl) fun _ => ⟨rfl, rfl⟩

/-- What has nothing to do with the machine goes in step, if it does so from sessions that are equal
up to the trace, and the trace does not matter to the invariant. -/
theorem aloof {excused : LoadError → Prop} {p : Eval α} (aloof : Aloof p)
    (same : Simulates excused Session.Same p p)
    (untraced : ∀ machine trace trace', I machine trace → I machine trace') :
    Simulates excused (Remade g I) p p := by
  intro s s' related
  have start : Session.Same s { s with trace := s'.trace } :=
    Same.of_trace { s with trace := s'.trace } s.trace
  -- the second run is one from a session that is equal up to the trace, on another machine
  have elsewhere : p s' = onMachine (g s.machine) (p { s with trace := s'.trace }) :=
    (congrArg p related.rest).trans (aloof { s with trace := s'.trace } _)
  have outcomes := same start
  have machine := aloof.machine s
  rw [elsewhere]
  revert outcomes machine
  generalize p s = result
  generalize p { s with trace := s'.trace } = result'
  intro outcomes machine
  have remade : ∀ {t t' : Session}, t.machine = s.machine → Same t t' →
      Remade g I t { t' with machine := g s.machine } := by
    intro t t' machine same
    refine ⟨?_, by rw [machine]; exact untraced _ _ _ related.holds⟩
    rw [same.eq, machine]
  cases outcomes with
  | ok same => exact .ok (remade machine same)
  | error same => exact .error (remade machine same)
  | excuse h => exact .excuse h

theorem compose {excused : LoadError → Prop}
    (untraced : ∀ machine trace trace', I machine trace → I machine trace') (font : Font)
    (limit levels : Nat) (frame : Frame) (accent : Accent) :
    Simulates excused (Remade g I)
      (Eval.compose font limit (Eval.below font limit levels) frame.depth accent)
      (Eval.compose font limit (Eval.below font limit levels) frame.depth accent) := by
  have c := Session.Same.coupling excused
  have level : NestedSimulates excused Session.Same (Frame.Alike Eq) limit limit
      (Eval.below font limit levels) (Eval.below font limit levels) :=
    c.below font (.inl ⟨rfl, rfl⟩)
  have alike : Frame.Alike Eq frame frame := ⟨rfl, rfl⟩
  exact aloof (Aloof.compose font limit _ _ accent) (c.compose font level alike accent) untraced

/-! ## Moves and segments -/

/-- The current point is neither remade nor looked at. -/
structure Placeless (g : Machine → Machine) (I : Machine → List TraceEntry → Prop) : Prop where
  position : ∀ machine, (g machine).position = machine.position
  moved : ∀ machine p, { g machine with position := p } = g { machine with position := p }
  holds : ∀ machine trace p, I machine trace → I { machine with position := p } trace

namespace Placeless

variable {excused : LoadError → Prop}

theorem gets (h : Placeless g I) :
    Simulates excused (Remade g I) (Eval.gets fun s => s.machine.position)
      (Eval.gets fun s => s.machine.position) :=
  Remade.gets (fun machine => machine.position) h.position

theorem put (h : Placeless g I) (p : Point) :
    Simulates excused (Remade g I)
      (modify (Session.mapMachine fun machine => { machine with position := p }))
      (modify (Session.mapMachine fun machine => { machine with position := p })) :=
  modifyMachine (fun machine => h.moved machine p) fun machine trace => h.holds machine trace p

theorem moveBy (h : Placeless g I) (d : Point) :
    Simulates excused (Remade g I) (Eval.moveBy d) (Eval.moveBy d) := by
  refine Simulates.bind (modifyMachine (fun machine => ?_) fun machine trace => ?_) fun _ =>
    h.gets.bind fun _ => onDraft _
  · rw [h.position]
    exact h.moved machine _
  · exact h.holds machine trace _

theorem ensureOpen (h : Placeless g I) :
    Simulates excused (Remade g I) Eval.ensureOpen Eval.ensureOpen := by
  have isOpen : Simulates excused (Remade g I) (Eval.gets fun s => s.draft.isOpen)
      (Eval.gets fun s => s.draft.isOpen) := by
    refine .gets fun s s' related => ?_
    rw [related.rest]
  refine isOpen.bind fun isOpen => ?_
  split
  · exact h.gets.bind fun _ => onDraft _
  · exact .pure _

theorem drawSegment (h : Placeless g I) (segment : Segment) :
    Simulates excused (Remade g I) (Eval.drawSegment segment) (Eval.drawSegment segment) := by
  refine h.gets.bind fun p => ?_
  cases segment with
  | line d => exact (h.put _).bind fun _ => onDraft _
  | curve d₁ d₂ d₃ => exact (h.put _).bind fun _ => onDraft _

end Placeless

end Remade

end Session

end Type2Glyphs
