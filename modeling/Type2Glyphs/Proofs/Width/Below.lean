import Type2Glyphs.Charstring.Arithmetic

/-!
# Below — stack operators on a stack with more operands at the bottom

A stack operator reaches down into the stack only as far as it finds operands, or it fails.  So one
that succeeds does the same when there are more operands at the bottom, if the stack does not
overflow by them; and it leaves these where they are.

* `Rises below` relates the two outcomes, and is put together along the steps of an operator;
* `StackOp.apply_above` says so for all stack operators.
-/

namespace Type2Glyphs

namespace OperandStack

variable {below : List Operand} {stack after : OperandStack}

/-- The stack with more operands at the bottom. -/
def above (below : List Operand) (stack : OperandStack) : OperandStack :=
  ⟨stack.entries ++ below⟩

@[simp] theorem above_nil (stack : OperandStack) : stack.above [] = stack := by
  simp [above]

theorem size_above (below : List Operand) (stack : OperandStack) :
    (stack.above below).size = stack.size + below.length := by
  simp [above, size]

theorem operands_above (below : List Operand) (stack : OperandStack) :
    (stack.above below).operands = below.reverse.map Operand.toFixed ++ stack.operands := by
  simp [above, operands]

/-! ## Popping -/

theorem pop_above {value : Operand} (popped : stack.pop = .ok (value, after)) :
    (stack.above below).pop = .ok (value, after.above below) := by
  rcases stack with ⟨_ | ⟨top, entries⟩⟩
  · cases popped
  · cases popped
    rfl

/-- An operand is read in some way when it is popped. -/
theorem map_pop_above {α : Type} {read : Operand → α} {a : α}
    (popped : stack.pop.map (fun (top, below) => (read top, below)) = .ok (a, after)) :
    (stack.above below).pop.map (fun (top, below) => (read top, below)) =
      .ok (a, after.above below) := by
  cases popping : stack.pop with
  | error e =>
      rw [popping] at popped
      cases popped
  | ok result =>
      rw [popping] at popped
      cases popped
      rw [pop_above popping]
      rfl

theorem popFixed_above {value : Fixed} (popped : stack.popFixed = .ok (value, after)) :
    (stack.above below).popFixed = .ok (value, after.above below) :=
  map_pop_above popped

theorem popInt_above {value : Int32} (popped : stack.popInt = .ok (value, after)) :
    (stack.above below).popInt = .ok (value, after.above below) :=
  map_pop_above popped

theorem size_pop {value : Operand} (popped : stack.pop = .ok (value, after)) :
    after.size ≤ stack.size := by
  rcases stack with ⟨_ | ⟨top, entries⟩⟩
  · cases popped
  · cases popped
    exact Nat.le_succ _

theorem size_popInt {value : Int32} (popped : stack.popInt = .ok (value, after)) :
    after.size ≤ stack.size := by
  simp only [popInt] at popped
  cases popping : stack.pop with
  | error e =>
      rw [popping] at popped
      cases popped
  | ok result =>
      rw [popping] at popped
      cases popped
      exact size_pop popping

/-! ## Steps that rise -/

/-- A success of the first program is one of the second program too, with `below` at the bottom of
the stack, if there is room. -/
def Rises (below : List Operand) (p q : Except StackFault OperandStack) : Prop :=
  ∀ after, p = .ok after → after.size + below.length ≤ maxOperands → q = .ok (after.above below)

namespace Rises

theorem pure (stack : OperandStack) :
    Rises below (Pure.pure stack) (Pure.pure (stack.above below)) := by
  rintro _ ⟨⟩ _
  rfl

theorem throw (e : StackFault) (q : Except StackFault OperandStack) :
    Rises below (throw e) q := by
  rintro _ ⟨⟩

/-- A step that takes operands from the top, and what follows it. -/
theorem bind {α : Type} {f : OperandStack → Except StackFault (α × OperandStack)}
    {k l : α × OperandStack → Except StackFault OperandStack}
    (pops : ∀ {a after}, f stack = .ok (a, after) →
      f (stack.above below) = .ok (a, after.above below))
    (next : ∀ a after, Rises below (k (a, after)) (l (a, after.above below))) :
    Rises below (f stack >>= k) (f (stack.above below) >>= l) := by
  intro after succeeds room
  cases popped : f stack with
  | error e =>
      rw [popped] at succeeds
      cases succeeds
  | ok result =>
      rw [popped] at succeeds
      rw [pops popped]
      exact next _ _ after succeeds room

theorem pop {k l : Operand × OperandStack → Except StackFault OperandStack}
    (next : ∀ a after, Rises below (k (a, after)) (l (a, after.above below))) :
    Rises below (stack.pop >>= k) ((stack.above below).pop >>= l) :=
  bind pop_above next

theorem popFixed {k l : Fixed × OperandStack → Except StackFault OperandStack}
    (next : ∀ a after, Rises below (k (a, after)) (l (a, after.above below))) :
    Rises below (stack.popFixed >>= k) ((stack.above below).popFixed >>= l) :=
  bind popFixed_above next

theorem popInt {k l : Int32 × OperandStack → Except StackFault OperandStack}
    (next : ∀ a after, Rises below (k (a, after)) (l (a, after.above below))) :
    Rises below (stack.popInt >>= k) ((stack.above below).popInt >>= l) :=
  bind popInt_above next

theorem push (value : Operand) (stack : OperandStack) :
    Rises below (stack.push value) ((stack.above below).push value) := by
  intro after pushed room
  obtain ⟨_, rfl⟩ := push_eq_ok_iff.1 pushed
  refine push_eq_ok_iff.2 ⟨?_, rfl⟩
  rw [size_above]
  simp only [size, List.length_cons] at room ⊢
  omega

theorem dup (stack : OperandStack) : Rises below stack.dup (stack.above below).dup := by
  rcases stack with ⟨_ | ⟨top, entries⟩⟩
  · rintro _ ⟨⟩
  · exact push top ⟨top :: entries⟩

theorem exch (stack : OperandStack) : Rises below stack.exch (stack.above below).exch := by
  rcases stack with ⟨_ | ⟨top, _ | ⟨second, entries⟩⟩⟩
  · rintro _ ⟨⟩
  · rintro _ ⟨⟩
  · rintro _ ⟨⟩ _
    rfl

theorem copyFromDepth (depth : Int) (stack : OperandStack) :
    Rises below (stack.copyFromDepth depth) ((stack.above below).copyFromDepth depth) := by
  simp only [OperandStack.copyFromDepth, above]
  cases found : stack.entries[depth.toNat]? with
  | none => exact throw _ _
  | some value =>
      obtain ⟨within, _⟩ := List.getElem?_eq_some_iff.1 found
      rw [List.getElem?_append_left within, found]
      exact push value stack

/-- The operands that are rotated are all above. -/
theorem roll (count shift : Int) (stack : OperandStack) :
    Rises below (stack.roll count shift) ((stack.above below).roll count shift) := by
  simp only [OperandStack.roll]
  split
  · exact throw _ _
  · next within =>
      have inside : ¬ (count < 0 ∨ ((stack.above below).size : Int) < count) := by
        rw [size_above]
        omega
      have enough : count.toNat ≤ stack.entries.length := by
        simp only [size] at within
        omega
      rw [if_neg inside]
      rintro _ ⟨⟩ _
      simp only [above, List.take_append_of_le_length enough,
        List.drop_append_of_le_length enough, List.append_assoc]

end Rises

end OperandStack

open OperandStack

/-- A stack operator that succeeds does the same above other operands, if there is room. -/
theorem StackOp.apply_above {below : List Operand} {stack : OperandStack} (op : StackOp) :
    Rises below (op.apply stack) (op.apply (stack.above below)) := by
  cases op with
  | and | or | eq | mul => exact .popFixed fun _ _ => .popFixed fun _ _ => .push _ _
  | not => exact .popFixed fun _ _ => .push _ _
  | ifelse =>
      exact .popFixed fun _ _ => .popFixed fun _ _ => .pop fun _ _ => .pop fun _ _ => .push _ _
  | abs | neg => exact .pop fun _ _ => .push _ _
  | add | sub => exact .pop fun _ _ => .pop fun _ _ => .push _ _
  | div =>
      refine .popFixed fun b _ => .popFixed fun a _ => ?_
      dsimp only
      split
      · exact .throw _ _
      · exact .push _ _
  | sqrt =>
      refine .popFixed fun a _ => ?_
      dsimp only
      split
      · exact .throw _ _
      · exact .push _ _
  | drop => exact .pop fun _ _ => .pure _
  | dup => exact .dup _
  | exch => exact .exch _
  | index => exact .popInt fun _ _ => .copyFromDepth _ _
  | roll => exact .popInt fun _ _ => .popInt fun _ _ => .roll _ _ _

end Type2Glyphs
