import Type2Glyphs.Proofs.Stack.Cells

/-!
# Calls — an operand stack from outside

All that a caller sees of an operand stack are the answers to its calls.  Here calls and answers are
data, and the answers of a stack in cells are those of an `OperandStack`, whatever is called and in
whatever order (`Cells.answers_blank`).
-/

namespace Type2Glyphs

/-- A call of an operation of the operand stack. -/
inductive StackCall
  | push (value : Operand)
  | pop
  | popFixed
  | popInt
  | dup
  | exch
  | copyFromDepth (depth : Int32)
  | roll (count shift : Int32)
  | getFixed (i : Nat)
  | slice (first count : Nat)
  | demand (count : Nat)
  | clear

/-- What a call gives if it does not fail. -/
inductive StackAnswer
  | done
  | operand (value : Operand)
  | fixed (value : Fixed)
  | int (value : Int32)
  | row (values : List Fixed)
  deriving DecidableEq

namespace StackCall

/-- The answer that is made of what an operation gives, and the new stack. -/
def answer {α : Type} (f : α → StackAnswer) (result : Except StackFault (α × OperandStack)) :
    Except StackFault (StackAnswer × OperandStack) :=
  result.map fun (a, stack) => (f a, stack)

/-- The answer to a call that leaves the stack as it is. -/
def read {α : Type} (f : α → StackAnswer) (stack : OperandStack) (result : Except StackFault α) :
    Except StackFault (StackAnswer × OperandStack) :=
  answer f (result.map fun a => (a, stack))

/-- The answer of a stack, and the new stack. -/
def outcome (stack : OperandStack) : StackCall → Except StackFault (StackAnswer × OperandStack)
  | .push value => answer (fun _ => StackAnswer.done) (Cells.done (stack.push value))
  | .pop => answer .operand stack.pop
  | .popFixed => answer .fixed stack.popFixed
  | .popInt => answer .int stack.popInt
  | .dup => answer (fun _ => StackAnswer.done) (Cells.done stack.dup)
  | .exch => answer (fun _ => StackAnswer.done) (Cells.done stack.exch)
  | .copyFromDepth depth =>
      answer (fun _ => StackAnswer.done) (Cells.done (stack.copyFromDepth depth.toInt))
  | .roll count shift =>
      answer (fun _ => StackAnswer.done) (Cells.done (stack.roll count.toInt shift.toInt))
  | .getFixed i => read .fixed stack (stack.getFixed i)
  | .slice first count => read .row stack (stack.slice first count)
  | .demand count => read (fun _ => StackAnswer.done) stack (stack.demand count)
  | .clear => .ok (.done, .empty)

/-- The operation on cells. -/
def program : StackCall → Cells.Program StackAnswer
  | .push value => (fun _ => StackAnswer.done) <$> Cells.push value
  | .pop => .operand <$> Cells.pop
  | .popFixed => .fixed <$> Cells.popFixed
  | .popInt => .int <$> Cells.popInt
  | .dup => (fun _ => StackAnswer.done) <$> Cells.dup
  | .exch => (fun _ => StackAnswer.done) <$> Cells.exch
  | .copyFromDepth depth => (fun _ => StackAnswer.done) <$> Cells.copyFromDepth depth.toInt
  | .roll count shift => (fun _ => StackAnswer.done) <$> Cells.roll count.toInt shift.toInt
  | .getFixed i => .fixed <$> Cells.getFixed i
  | .slice first count => .row <$> Cells.slice first count
  | .demand count => (fun _ => StackAnswer.done) <$> Cells.demand count
  | .clear => (fun _ => StackAnswer.done) <$> Cells.clear

/-- Every call comes to the same in cells and on the stack in them. -/
theorem program_refines (call : StackCall) (cells : Cells) :
    cells.Refines (call.program cells) (call.outcome cells.stack) := by
  cases call with
  | push value => exact (Cells.push_refines cells value).map _
  | pop => exact (Cells.pop_refines cells).map _
  | popFixed => exact (Cells.Refines.map (Cells.pop_refines cells) Operand.toFixed).map _
  | popInt => exact (Cells.Refines.map (Cells.pop_refines cells) Operand.toInt).map _
  | dup => exact (Cells.dup_refines cells).map _
  | exch => exact (Cells.exch_refines cells).map _
  | copyFromDepth depth => exact (Cells.copyFromDepth_refines cells depth.toInt).map _
  | roll count shift => exact (Cells.roll_refines cells count.toInt shift.toInt).map _
  | getFixed i => exact (Cells.getFixed_refines cells i).map _
  | slice first count => exact (Cells.slice_refines cells first count).map _
  | demand count => exact (Cells.demand_refines cells count).map _
  | clear => exact .ok StackAnswer.done rfl

end StackCall

/-! ## Rows of calls -/

/-- The answers of a stack to a row of calls, and the stack after them.  A call that fails leaves
the stack as it was. -/
def OperandStack.answers : List StackCall → OperandStack →
    List (Except StackFault StackAnswer) × OperandStack
  | [], stack => ([], stack)
  | call :: calls, stack =>
      match call.outcome stack with
      | .ok (answer, after) =>
          let (answers, last) := after.answers calls
          (.ok answer :: answers, last)
      | .error fault =>
          let (answers, last) := stack.answers calls
          (.error fault :: answers, last)

/-- The answers of cells to a row of calls, and what the calls leave in them. -/
def Cells.answers : List StackCall → Cells → List (Except StackFault StackAnswer) × Cells
  | [], cells => ([], cells)
  | call :: calls, cells =>
      match call.program cells with
      | .ok answer after =>
          let (answers, last) := after.answers calls
          (.ok answer :: answers, last)
      | .error fault after =>
          let (answers, last) := after.answers calls
          (.error fault :: answers, last)

namespace Cells

theorem answers_stack (calls : List StackCall) (cells : Cells) :
    (cells.answers calls).1 = (cells.stack.answers calls).1 ∧
      (cells.answers calls).2.stack = (cells.stack.answers calls).2 := by
  induction calls generalizing cells with
  | nil => exact ⟨rfl, rfl⟩
  | cons call calls ih =>
      have step := call.program_refines cells
      rw [answers, OperandStack.answers]
      generalize call.program cells = outcome at step ⊢
      generalize call.outcome cells.stack = expected at step ⊢
      cases step with
      | ok answer same =>
          obtain ⟨answers, last⟩ := ih ‹_›
          subst same
          exact ⟨congrArg _ answers, last⟩
      | error fault same =>
          obtain ⟨answers, last⟩ := ih ‹_›
          rw [same] at answers last
          exact ⟨congrArg _ answers, last⟩

theorem stack_blank : blank.stack = .empty :=
  rfl

/-- A stack in cells gives the same answers to any calls as one that is a list of at most
`maxOperands` operands, and no call that fails changes the list.  Rolling turns a cycle of operands
as often as it is asked to, and is refused if there are not as many. -/
theorem answers_blank :
    (∀ calls, (blank.answers calls).1 = (OperandStack.empty.answers calls).1 ∧
      (blank.answers calls).2.stack = (OperandStack.empty.answers calls).2 ∧
      (OperandStack.empty.answers calls).2.size ≤ maxOperands) ∧
    (∀ (call : StackCall) (cells after : Cells) (fault : StackFault),
      call.program cells = .error fault after → after.stack = cells.stack) ∧
    ∀ stack : OperandStack,
      (∀ count shift : Int, count < 0 ∨ (stack.size : Int) < count →
        stack.roll count shift = .error (.invalidOperand .roll)) ∧
      (∀ shift, stack.roll 0 shift = .ok stack) ∧
      ∀ (count : Nat) (a b : Int), 1 ≤ count → count ≤ stack.size →
        stack.roll count a = .ok (stack.rolled count a) ∧
        stack.roll count a >>= OperandStack.roll count b = .ok (stack.rolled count (a + b)) ∧
        stack.roll count a >>= OperandStack.roll count (-a) = .ok stack := by
  refine ⟨fun calls => ?_, fun call cells after fault failed => ?_, fun stack =>
    ⟨fun count shift outside => OperandStack.roll_of_outside outside shift,
      fun shift => OperandStack.roll_of_le (Nat.zero_le stack.size) shift, ?_⟩⟩
  · obtain ⟨answers, last⟩ := answers_stack calls blank
    rw [stack_blank] at answers last
    refine ⟨answers, last, ?_⟩
    rw [← last, size_stack]
    exact (blank.answers calls).2.within
  · have step := call.program_refines cells
    rw [failed] at step
    generalize call.outcome cells.stack = expected at step
    cases step with
    | error fault same => exact same
  · intro count a b _ within
    have twice : ∀ b, stack.roll count a >>= OperandStack.roll count b =
        .ok (stack.rolled count (a + b)) := by
      intro b
      have still : count ≤ (stack.rolled count a).size := by
        rwa [OperandStack.size_rolled]
      rw [OperandStack.roll_of_le within]
      show (stack.rolled count a).roll count b = _
      rw [OperandStack.roll_of_le still, OperandStack.rolled_rolled within]
    have back : stack.rolled count (a + -a) = stack := by
      rw [Int.add_right_neg]
      exact OperandStack.rolled_of_dvd (Int.dvd_zero _)
    exact ⟨OperandStack.roll_of_le within a, twice b, (twice (-a)).trans (congrArg _ back)⟩

/-- A cell is used once more with a number of the other kind, and three of four operands are rolled
as far as can be and back again. -/
theorem answers_blank_rolled :
    let stack : OperandStack := ⟨[.int 4, .fixed 1, .int 2, .int 1]⟩
    (blank.answers [.push (.int 7), .clear, .pop, .push (.fixed 1), .popInt]).1 =
        [.ok .done, .ok .done, .error .underflow, .ok .done, .ok (.int 1)] ∧
      stack.roll 3 (-2147483648) = .ok ⟨[.fixed 1, .int 2, .int 4, .int 1]⟩ ∧
      stack.roll 3 (-2147483648) >>= OperandStack.roll 3 2147483648 = .ok stack ∧
      stack.roll 5 1 = .error (.invalidOperand .roll) := by
  intro stack
  obtain ⟨answers, _, rolls⟩ := answers_blank
  obtain ⟨refused, _, turned⟩ := rolls stack
  obtain ⟨once, _, back⟩ := turned 3 (-2147483648) 0 (by decide) (by decide)
  exact ⟨(answers _).1.trans (by decide), once.trans (by decide), back, refused 5 1 (by decide)⟩

end Cells

end Type2Glyphs
