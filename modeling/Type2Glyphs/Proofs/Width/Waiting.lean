import Type2Glyphs.Proofs.Law.Growth
import Type2Glyphs.Proofs.Width.Search
import Type2Glyphs.Proofs.Width.Settled

/-!
# Waiting — runs with a width at the bottom of the stack

One run has a width below its operands that the other one does not have.  Until the width is looked
for, both do the same, since no operator reaches so far down.  The operator that looks for it takes
it off the stack, and from then on the runs are settled.

Nothing is said of a run whose stack becomes full before, or where the first operator that empties
the stack does not look for a width or finds one.  Such runs are `Exempt`, which the trace tells.

* `Session.Waiting width` relates sessions before the width is looked for;
* `Session.Widened width` relates sessions before or after that;
* `Widens width` relates outcomes, and is put together from the steps of an operator.
-/

namespace Type2Glyphs

open Outcome

/-- The machine with operands below its own. -/
def Machine.above (below : List Operand) (machine : Machine) : Machine :=
  { machine with stack := machine.stack.above below }

/-- No width has been looked for. -/
structure Machine.Unsettled (machine : Machine) : Prop where
  unseen : machine.widthSeen = false
  absent : machine.width = none

/-- No width has been looked for, nothing has emptied the stack, and there is room for one operand
more on it. -/
structure Machine.Searching (machine : Machine) (trace : List TraceEntry) : Prop
    extends machine.Unsettled where
  awaits : ∀ entry ∈ trace, entry.awaitsWidth = true
  room : machine.stack.size < maxOperands

/-! ## Sessions -/

namespace Session

/-- Sessions before a width is looked for.  The second one has it below its operands. -/
abbrev Waiting (width : Operand) : Session → Session → Prop :=
  Remade (Machine.above [width]) Machine.Searching

/-- Sessions before or after the width is taken off the stack. -/
def Widened (width : Operand) (s s' : Session) : Prop :=
  Waiting width s s' ∨ Settled [] width.toFixed s s'

/-- Whatever follows, the trace will not say that a width was looked for in vain. -/
def Decided (s : Session) : Prop :=
  ∀ later, lacksWidth (later ++ s.trace) = false

/-- The trace will not say that a width was looked for in vain with room for one. -/
inductive Exempt (s : Session) : Prop
  | decided (h : s.Decided)
  | full (awaits : ∀ entry ∈ s.trace, entry.awaitsWidth = true)
      (full : maxOperands ≤ s.machine.stack.size)

variable {width : Operand} {s s' t : Session} {depth : Nat} {op : Operator}

theorem Decided.grows (decided : s.Decided) (grows : s.Grows t) : t.Decided := by
  obtain ⟨entries, trace⟩ := grows.trace
  intro later
  rw [← trace, ← List.append_assoc]
  exact decided _

/-- An operator decides if it empties the stack or finds it full, unless it looks for a width in
vain. -/
theorem decided_record (awaits : ∀ entry ∈ s.trace, entry.awaitsWidth = true)
    (decides : (TraceEntry.operator depth op s.machine.stack).awaitsWidth = false)
    (finds : (TraceEntry.operator depth op s.machine.stack).missesWidth = false) :
    (s.record (.operator depth op s.machine.stack)).Decided :=
  fun later => (lacksWidth_append later awaits decides).trans finds

theorem Exempt.record (exempt : s.Exempt) (depth : Nat) (op : Operator) :
    (s.record (.operator depth op s.machine.stack)).Decided := by
  cases exempt with
  | decided h => exact h.grows (.record s _)
  | full awaits full =>
      have overfull : ¬ s.machine.stack.size < maxOperands := Nat.not_lt.2 full
      refine decided_record awaits ?_ ?_ <;>
        simp only [TraceEntry.awaitsWidth, TraceEntry.missesWidth, overfull, decide_false,
          Bool.and_false, Bool.false_and]

/-- An operator that leaves the stack as it is does not decide. -/
theorem Waiting.record (h : Waiting width s s') (keeps : op.emptiesStack = false) (depth : Nat) :
    Waiting width (s.record (.operator depth op s.machine.stack))
      (s'.record (.operator depth op s'.machine.stack)) := by
  have awaits : (TraceEntry.operator depth op s.machine.stack).awaitsWidth = true := by
    simp only [TraceEntry.awaitsWidth, keeps, Bool.not_false, Bool.true_and]
    exact decide_eq_true h.holds.room
  exact Remade.record h _ _
    { h.holds with awaits := List.forall_mem_cons.2 ⟨awaits, h.holds.awaits⟩ }

end Session

open Session

/-! ## Outcomes -/

/-- A success of the first run is one of the second run too, in sessions that are before or after
the width is taken off the stack; unless the first run is exempt. -/
def Widens (width : Operand) {α : Type} (result result' : EStateM.Result LoadError Session α) :
    Prop :=
  ∀ a t, result = .ok a t → t.Exempt ∨ ∃ t', result' = .ok a t' ∧ Widened width t t'

namespace Widens

variable {width : Operand} {α β : Type} {s s' : Session} {p q : Eval α} {k l : α → Eval β}

theorem of_agree {result result' : EStateM.Result LoadError Session α}
    (agree : Agree (fun _ => True) (Widened width) result result') :
    Widens width result result' := by
  rintro a t rfl
  exact .inr agree.of_ok

theorem of_waiting (h : Simulates (fun _ => True) (Waiting width) p q)
    (related : Waiting width s s') : Widens width (p s) (q s') :=
  of_agree ((h related).mono fun _ _ => .inl)

theorem of_settled (h : Simulates (fun _ => True) (Settled [] width.toFixed) p q)
    (related : Settled [] width.toFixed s s') : Widens width (p s) (q s') :=
  of_agree ((h related).mono fun _ _ => .inr)

theorem of_exempt {result result' : EStateM.Result LoadError Session α}
    (exempt : (finalSession result).Exempt) : Widens width result result' := by
  rintro a t rfl
  exact .inl exempt

/-- Steps that go in step, and what follows them. -/
theorem simulates_bind {R : Session → Session → Prop}
    (first : Simulates (fun _ => True) R p q) (related : R s s')
    (next : ∀ a ⦃t t'⦄, R t t' → Widens width (k a t) (l a t')) :
    Widens width ((p >>= k) s) ((q >>= l) s') := by
  intro b u run
  rcases bind_eq_ok.1 run with ⟨a, t, ran, after⟩
  have outcomes := first related
  rw [ran] at outcomes
  obtain ⟨t', ran', related⟩ := outcomes.of_ok
  rw [bind_ok ran']
  exact next a related b u after

/-- In the end another value is returned. -/
theorem andReturn (h : Widens width (p s) (q s')) (f : α → β) :
    Widens width ((p >>= fun a => pure (f a)) s) ((q >>= fun a => pure (f a)) s') := by
  intro b u run
  rcases bind_eq_ok.1 run with ⟨a, t, ran, returned⟩
  cases returned
  rcases h a _ ran with exempt | ⟨t', ran', related⟩
  · exact .inl exempt
  · exact .inr ⟨t', bind_ok ran' _, related⟩

end Widens

/-! ## Before the width is looked for -/

namespace Session.Waiting

variable {width : Operand} {α : Type} {s s' : Session} {depth : Nat} {op : Operator}

/-- An operand is popped above the width. -/
theorem popOperand {f : OperandStack → Except StackFault (α × OperandStack)}
    (above : ∀ {stack after : OperandStack} {a}, f stack = .ok (a, after) →
      f (stack.above [width]) = .ok (a, after.above [width]))
    (shrinks : ∀ {stack after : OperandStack} {a}, f stack = .ok (a, after) →
      after.size ≤ stack.size) :
    Simulates (fun _ => True) (Waiting width) (Eval.popOperand f) (Eval.popOperand f) :=
  Remade.popOperand (fun _ => rfl) (fun _ _ => rfl) above fun searching popped =>
    { searching with room := Nat.lt_of_le_of_lt (shrinks popped) searching.room }

/-- The stack is changed above the width, or there is no room for it any more. -/
theorem changeStack {f : OperandStack → Except StackFault OperandStack}
    (rises : ∀ stack, OperandStack.Rises [width] (f stack) (f (stack.above [width])))
    (related : Waiting width s s') :
    Widens width (Eval.changeStack f s) (Eval.changeStack f s') := by
  rintro ⟨⟩ t changed
  rcases changeStack_eq_ok.1 changed with ⟨stack, changes, rfl⟩
  by_cases room : stack.size < maxOperands
  · have changes' : f s'.machine.stack = .ok (stack.above [width]) := by
      rw [related.machine]
      exact rises _ stack changes room
    refine .inr ⟨_, changeStack_eq_ok.2 ⟨_, changes', rfl⟩, .inl ?_⟩
    exact Remade.mapMachine related rfl { related.holds with room := room }
  · -- the next operator finds the stack full
    exact .inl (.full related.holds.awaits (Nat.not_lt.1 room))

theorem push (value : Operand) (related : Waiting width s s') :
    Widens width (Eval.changeStack (OperandStack.push value) s)
      (Eval.changeStack (OperandStack.push value) s') :=
  related.changeStack fun stack => .push value stack

theorem transientIndex (i : Int) :
    Simulates (fun _ => True) (Waiting width) (Eval.transientIndex i) (Eval.transientIndex i) := by
  simp only [Eval.transientIndex]
  split
  · exact .pure _
  · exact .throw _

theorem popInt : Simulates (fun _ => True) (Waiting width) (Eval.popOperand OperandStack.popInt)
    (Eval.popOperand OperandStack.popInt) :=
  popOperand OperandStack.popInt_above OperandStack.size_popInt

theorem pop : Simulates (fun _ => True) (Waiting width) (Eval.popOperand OperandStack.pop)
    (Eval.popOperand OperandStack.pop) :=
  popOperand OperandStack.pop_above OperandStack.size_pop

theorem put : Simulates (fun _ => True) (Waiting width) Eval.put Eval.put :=
  popInt.bind fun _ => pop.bind fun _ => (transientIndex _).bind fun _ =>
    .modify fun _ _ related => Remade.mapMachine related rfl { related.holds with }

theorem fetch (related : Waiting width s s') : Widens width (Eval.fetch s) (Eval.fetch s') := by
  refine .simulates_bind popInt related fun _ t t' related => ?_
  refine .simulates_bind (transientIndex _) related fun _ t t' related => ?_
  have transient : Simulates (fun _ => True) (Waiting width)
      (Eval.gets fun s => s.machine.transient) (Eval.gets fun s => s.machine.transient) :=
    Remade.gets (fun machine => machine.transient) fun _ => rfl
  refine .simulates_bind transient related fun transient t t' related => ?_
  exact related.push _

theorem random (related : Waiting width s s') : Widens width (Eval.random s) (Eval.random s') := by
  have next : Simulates (fun _ => True) (Waiting width)
      (modify fun s : Session => { s with random := nextRandom s.random } : Eval Unit)
      (modify fun s : Session => { s with random := nextRandom s.random }) :=
    .modify fun _ _ related => related.mapRandom nextRandom
  have drawn : ∀ number, Simulates (fun _ => True) (Waiting width)
      (modify (Session.record (.drawn number)) : Eval Unit)
      (modify (Session.record (.drawn number))) := by
    refine fun number => .modify fun s s' related => ?_
    exact Remade.record related _ _
      { related.holds with awaits := List.forall_mem_cons.2 ⟨rfl, related.holds.awaits⟩ }
  have seed : Simulates (fun _ => True) (Waiting width) (Eval.gets fun s => s.random)
      (Eval.gets fun s => s.random) := by
    refine .gets fun s s' related => ?_
    rw [related.rest]
  refine .simulates_bind next related fun _ t t' related => ?_
  refine .simulates_bind seed related fun _ t t' related => ?_
  exact .simulates_bind (drawn _) related fun _ t t' related => related.push _

end Session.Waiting

end Type2Glyphs
