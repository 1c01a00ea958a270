import Type2Glyphs.Proofs.Kinds.Operands
import Type2Glyphs.Proofs.Operations
import Type2Glyphs.Proofs.Width.Remade

/-!
# Session — runs on operands of the same values

Two runs can have operands of the same values that are whole numbers in one and 16.16 numbers in the
other, on the stack and in the transient array.  Apart from them and from the trace, which lists the
operands of every operator, their sessions are equal.

* `Session.Exchanged` relates such sessions;
* `Session.Exchanged.endingLaw` says that operators go in step, but for those that only work on
  operands;
* `Session.Exchanged.put` and `Session.Exchanged.fetch` say so for the transient array, and
  `Session.Exchanged.agree_changeStack` for changes of the stack that correspond.
-/

namespace Type2Glyphs

open Outcome OperandStack

/-! ## Machines and sessions -/

/-- The machine with other operands. -/
def Machine.reload (stack : OperandStack) (transient : Vector Operand transientSize)
    (machine : Machine) : Machine :=
  { machine with stack := stack, transient := transient }

/-- The machines are equal, but that operands of the same value may be of another kind. -/
structure Machine.Exchanged (machine machine' : Machine) : Prop where
  stack : machine.stack.SameValues machine'.stack
  transient : ∀ i, (machine.transient.get i).SameValue (machine'.transient.get i)
  rest : machine' = machine.reload machine'.stack machine'.transient

/-- The sessions are equal up to the trace, but that operands of the same value may be of another
kind. -/
structure Session.Exchanged (s s' : Session) : Prop where
  machine : s.machine.Exchanged s'.machine
  rest : s' = { s with machine := s'.machine, trace := s'.trace }

namespace Machine.Exchanged

variable {machine machine' : Machine}

theorem withStack (h : machine.Exchanged machine') {stack stack' : OperandStack}
    (same : stack.SameValues stack') :
    Machine.Exchanged { machine with stack := stack } { machine' with stack := stack' } where
  stack := same
  transient := h.transient
  rest := by
    rw [h.rest]
    rfl

theorem store (h : machine.Exchanged machine') (i : Fin transientSize) {a a' : Operand}
    (same : a.SameValue a') :
    Machine.Exchanged { machine with transient := machine.transient.set i a i.isLt }
      { machine' with transient := machine'.transient.set i a' i.isLt } where
  stack := h.stack
  transient j := by
    show Operand.SameValue (machine.transient.set i a i.isLt)[j]
      (machine'.transient.set i a' i.isLt)[j]
    simp only [Fin.getElem_fin, Vector.getElem_set]
    split
    · exact same
    · exact h.transient j
  rest := by
    rw [h.rest]
    rfl

/-- A change that has nothing to do with operands. -/
theorem change (h : machine.Exchanged machine') (f : Machine → Machine)
    (aside : ∀ stack transient machine,
      f (machine.reload stack transient) = (f machine).reload stack transient)
    (quiet : ∀ machine, (f machine).stack = machine.stack ∧
      (f machine).transient = machine.transient) :
    (f machine).Exchanged (f machine') where
  stack := by
    rw [(quiet _).1, (quiet _).1]
    exact h.stack
  transient := by
    rw [(quiet _).2, (quiet _).2]
    exact h.transient
  rest := by
    rw [(quiet _).1, (quiet _).2]
    exact (congrArg f h.rest).trans (aside _ _ _)

end Machine.Exchanged

namespace Session.Exchanged

variable {excused : LoadError → Prop} {s s' : Session} {α β : Type}

theorem mapMachine (h : s.Exchanged s') {f f' : Machine → Machine}
    (machine : (f s.machine).Exchanged (f' s'.machine)) :
    (s.mapMachine f).Exchanged (s'.mapMachine f') where
  machine := machine
  rest := by
    simp only [Session.mapMachine]
    rw [h.rest]

/-- A change of the machine that has nothing to do with operands. -/
theorem changeMachine (h : s.Exchanged s') {f : Machine → Machine}
    (aside : ∀ stack transient machine,
      f (machine.reload stack transient) = (f machine).reload stack transient)
    (quiet : ∀ machine, (f machine).stack = machine.stack ∧
      (f machine).transient = machine.transient) :
    (s.mapMachine f).Exchanged (s'.mapMachine f) :=
  h.mapMachine (h.machine.change f aside quiet)

theorem record (h : s.Exchanged s') (entry entry' : TraceEntry) :
    (s.record entry).Exchanged (s'.record entry') where
  machine := h.machine
  rest := by
    simp only [Session.record]
    rw [h.rest]

/-! ## Steps that have nothing to do with operands -/

/-- Steps go in step if they do so on machines that have been given any operands of the same values.
-/
theorem of_remade {p : Eval α} (steps : ∀ stack transient, Simulates excused
      (Remade (Machine.reload stack transient) fun machine _ =>
        machine.Exchanged (machine.reload stack transient)) p p) :
    Simulates excused Exchanged p p := by
  intro s s' h
  -- the second machine is the first one with the operands of the second one
  have remade : Remade (Machine.reload s'.machine.stack s'.machine.transient)
      (fun machine _ => machine.Exchanged
        (machine.reload s'.machine.stack s'.machine.transient)) s s' := by
    refine ⟨?_, ?_⟩
    · rw [← h.machine.rest]
      exact h.rest
    · rw [← h.machine.rest]
      exact h.machine
  refine (steps _ _ remade).mono fun t t' remade => ⟨?_, ?_⟩
  · rw [remade.machine]
    exact remade.holds
  · rw [remade.machine]
    exact remade.rest

theorem placeless (stack : OperandStack) (transient : Vector Operand transientSize) :
    Remade.Placeless (Machine.reload stack transient) fun machine _ =>
      machine.Exchanged (machine.reload stack transient) :=
  ⟨fun _ => rfl, fun _ _ => rfl, fun _ _ _ h => ⟨h.stack, h.transient, rfl⟩⟩

theorem callHook (call : HintCall) :
    Simulates excused Exchanged (Eval.callHook call) (Eval.callHook call) :=
  of_remade fun _ _ => Remade.callHook call

theorem compose (font : Font) (limit levels : Nat) (frame : Frame) (accent : Accent) :
    Simulates excused Exchanged
      (Eval.compose font limit (Eval.below font limit levels) frame.depth accent)
      (Eval.compose font limit (Eval.below font limit levels) frame.depth accent) :=
  of_remade fun _ _ => Remade.compose (fun _ _ _ h => h) font limit levels frame accent

/-! ## Steps on operands -/

/-- Stacks that correspond are put in the place of others. -/
theorem agree_changeStack (h : s.Exchanged s')
    {f f' : OperandStack → Except StackFault OperandStack}
    (alike : Corresponds (f s.machine.stack) (f' s'.machine.stack)) :
    Agree excused Exchanged (Eval.changeStack f s) (Eval.changeStack f' s') := by
  simp only [Eval.changeStack, bind_apply, gets_apply, andThen]
  revert alike
  generalize f s.machine.stack = result
  generalize f' s'.machine.stack = result'
  intro alike
  cases alike with
  | ok same => exact .ok (h.mapMachine (h.machine.withStack same))
  | error fault => exact .error h

/-- What is popped may be of another kind in the other run. -/
theorem popThen {k k' : Operand → Eval α}
    (next : ∀ a a', a.SameValue a' → Simulates excused Exchanged (k a) (k' a')) :
    Simulates excused Exchanged (Eval.popOperand OperandStack.pop >>= k)
      (Eval.popOperand OperandStack.pop >>= k') := by
  intro s s' h
  rcases h.machine.stack.pop with ⟨empty, empty'⟩ |
    ⟨a, a', below, below', popped, popped', same, rest⟩
  · rw [bind_error (popOperand_of_error empty), bind_error (popOperand_of_error empty')]
    exact .error h
  · rw [bind_ok (popOperand_of_ok popped), bind_ok (popOperand_of_ok popped')]
    exact next a a' same (h.mapMachine (h.machine.withStack rest))

/-- Operands of the same value are read alike. -/
theorem popRead (read : Operand → α) (alike : ∀ a a', a.SameValue a' → read a' = read a) :
    Simulates excused Exchanged
      (Eval.popOperand fun stack => stack.pop.map fun (top, below) => (read top, below))
      (Eval.popOperand fun stack => stack.pop.map fun (top, below) => (read top, below)) := by
  have popped : (Eval.popOperand fun stack =>
      stack.pop.map fun (top, below) => (read top, below)) =
        Eval.popOperand OperandStack.pop >>= fun a => Pure.pure (read a) := by
    funext s
    simp only [Eval.popOperand, bind_apply, gets_apply, andThen]
    cases s.machine.stack.pop <;> rfl
  rw [popped]
  refine popThen fun a a' same => ?_
  rw [alike a a' same]
  exact .pure _

theorem takeOperands (extra : Nat → Bool) :
    Simulates excused Exchanged (Eval.takeOperands extra) (Eval.takeOperands extra) := by
  intro s s' h
  -- the width is one of the operands, and they are read as 16.16 numbers
  have seen : s'.machine.widthSeen = s.machine.widthSeen := by
    rw [h.machine.rest]
    rfl
  simp only [Eval.takeOperands_apply, seen, h.machine.stack.operands, h.machine.stack.size]
  split
  · exact .ok h
  · split
    · exact .ok (h.changeMachine (fun _ _ _ => rfl) fun _ => ⟨rfl, rfl⟩)
    · exact .ok (h.changeMachine (fun _ _ _ => rfl) fun _ => ⟨rfl, rfl⟩)

/-! ## Operators -/

theorem sequenceLaw (excused : LoadError → Prop) :
    SequenceLaw fun {_} p => Simulates excused Exchanged p p :=
  ⟨.pure, .throw, .bind⟩

theorem readingLaw (excused : LoadError → Prop) :
    ReadingLaw fun {_} p => Simulates excused Exchanged p p where
  toSequenceLaw := sequenceLaw excused
  operands := .gets fun _ _ h => h.machine.stack.operands
  popFixed := popRead Operand.toFixed fun _ _ same => same.toFixed
  popInt := popRead Operand.toInt fun _ _ same => same.toInt
  push _ := fun _ _ h => h.agree_changeStack (.push h.machine.stack fun _ => .refl _)
  clearStack := .modify fun _ _ h => h.mapMachine (h.machine.withStack .nil)
  stemCount := .gets fun _ _ h => by rw [h.machine.rest]; rfl
  countStems _ := .modify fun _ _ h => h.changeMachine (fun _ _ _ => rfl) fun _ => ⟨rfl, rfl⟩
  takeOperands := takeOperands

/-- Operators go in step that run no other program and do not only work on operands. -/
theorem drawingLaw (excused : LoadError → Prop) :
    DrawingLaw fun {_} p => Simulates excused Exchanged p p where
  toReadingLaw := readingLaw excused
  moveBy d := of_remade fun stack transient => (placeless stack transient).moveBy d
  ensureOpen := of_remade fun stack transient => (placeless stack transient).ensureOpen
  drawSegment segment :=
    of_remade fun stack transient => (placeless stack transient).drawSegment segment
  stems _ _ := callHook _
  mask _ _ := callHook _
  nextRandom := of_remade fun _ _ => .modify fun _ _ related => related.mapRandom nextRandom
  random := .gets fun _ _ h => by rw [h.rest]
  drawn _ := .modify fun _ _ h => h.record _ _

/-- What ends a glyph goes in step too. -/
theorem endingLaw (excused : LoadError → Prop) :
    EndingLaw fun {_} p => Simulates excused Exchanged p p where
  toDrawingLaw := drawingLaw excused
  seeWidth := .modify fun _ _ h => h.changeMachine (fun _ _ _ => rfl) fun _ => ⟨rfl, rfl⟩
  closeContour := of_remade fun _ _ => .modify fun _ _ related => related.mapDraft _
  setLeftBearing frame bearing := by
    refine of_remade fun _ _ s s' related => ?_
    simp only [Eval.setLeftBearing_apply]
    exact .ok (related.mapDraft _)

/-! ### The transient array -/

/-- What is stored may be of another kind in the other run. -/
theorem put : Simulates excused Exchanged Eval.put Eval.put := by
  refine (readingLaw excused).popInt.bind fun i => popThen fun a a' same => ?_
  refine ((sequenceLaw excused).transientIndex _).bind fun i => .modify fun _ _ h => ?_
  exact h.mapMachine (h.machine.store i same)

theorem fetch : Simulates excused Exchanged Eval.fetch Eval.fetch := by
  refine (readingLaw excused).popInt.bind fun i => ?_
  refine ((sequenceLaw excused).transientIndex _).bind fun i => ?_
  intro s s' h
  exact h.agree_changeStack (.push h.machine.stack fun _ => h.machine.transient i)

end Session.Exchanged

end Type2Glyphs
