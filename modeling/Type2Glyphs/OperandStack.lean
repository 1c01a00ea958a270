import Type2Glyphs.Fault
import Type2Glyphs.Operand

/-!
# OperandStack — a bounded stack of operands

The stack holds at most 48 operands.  Its entries are listed from the top; `OperandStack.operands`
lists them as 16.16 numbers from the bottom, which is the order in which path operators read them.

An operation gives the new stack, or a fault; after a fault the caller still has the old stack.
-/

namespace Type2Glyphs

/-- The greatest number of operands on the stack. -/
def maxOperands : Nat := 48

/-- A stack of operands, listed from the top. -/
structure OperandStack where
  entries : List Operand
  deriving DecidableEq, Inhabited

namespace OperandStack

/-- The stack without operands. -/
def empty : OperandStack :=
  ⟨[]⟩

/-- The number of operands. -/
def size (stack : OperandStack) : Nat :=
  stack.entries.length

/-- The operands from the bottom, as 16.16 numbers. -/
def operands (stack : OperandStack) : List Fixed :=
  stack.entries.reverse.map Operand.toFixed

@[simp] theorem length_operands (stack : OperandStack) : stack.operands.length = stack.size := by
  simp [operands, size]

/-! ## Pushing and popping -/

/-- Puts an operand on top. -/
def push (value : Operand) (stack : OperandStack) : Except StackFault OperandStack :=
  if stack.size < maxOperands then .ok ⟨value :: stack.entries⟩ else .error .overflow

/-- The operand on top, and the stack below it. -/
def pop (stack : OperandStack) : Except StackFault (Operand × OperandStack) :=
  match stack.entries with
  | [] => .error .underflow
  | top :: below => .ok (top, ⟨below⟩)

/-- The operand on top as a 16.16 number, and the stack below it. -/
def popFixed (stack : OperandStack) : Except StackFault (Fixed × OperandStack) :=
  stack.pop.map fun (top, below) => (top.toFixed, below)

/-- The operand on top as a whole number, and the stack below it. -/
def popInt (stack : OperandStack) : Except StackFault (Int32 × OperandStack) :=
  stack.pop.map fun (top, below) => (top.toInt, below)

/-- An operand can be pushed exactly when there is room for it. -/
theorem push_eq_ok_iff {value : Operand} {stack after : OperandStack} :
    stack.push value = .ok after ↔ stack.size < maxOperands ∧ after = ⟨value :: stack.entries⟩ := by
  unfold push
  split
  · next room => simp [room, eq_comm]
  · next full => simp [full]

/-- A pushed operand is the last one. -/
theorem operands_push {value : Operand} {stack after : OperandStack}
    (h : stack.push value = .ok after) : after.operands = stack.operands ++ [value.toFixed] := by
  obtain ⟨_, rfl⟩ := push_eq_ok_iff.1 h
  simp [operands]

/-- What is pushed is popped. -/
theorem pop_push {value : Operand} {stack after : OperandStack}
    (h : stack.push value = .ok after) : after.pop = .ok (value, stack) := by
  obtain ⟨_, rfl⟩ := push_eq_ok_iff.1 h
  rfl

/-! ## Rearranging -/

/-- Pushes the operand on top once more. -/
def dup (stack : OperandStack) : Except StackFault OperandStack :=
  match stack.entries with
  | [] => .error .underflow
  | top :: _ => stack.push top

/-- Exchanges the two operands on top. -/
def exch (stack : OperandStack) : Except StackFault OperandStack :=
  match stack.entries with
  | top :: second :: below => .ok ⟨second :: top :: below⟩
  | _ => .error .underflow

/-- Pushes the operand `depth` places below the top once more; a negative depth means the top. -/
def copyFromDepth (depth : Int) (stack : OperandStack) : Except StackFault OperandStack :=
  match stack.entries[depth.toNat]? with
  | none => .error (.invalidOperand .index)
  | some value => stack.push value

/-- Rotates the upper `count` operands by `shift` places toward the top. -/
def roll (count shift : Int) (stack : OperandStack) : Except StackFault OperandStack :=
  if count < 0 ∨ (stack.size : Int) < count then
    .error (.invalidOperand .roll)
  else
    let upper := stack.entries.take count.toNat
    let turn := (shift % count).toNat
    .ok ⟨upper.drop turn ++ upper.take turn ++ stack.entries.drop count.toNat⟩

/-! ## Reading without popping -/

/-- Checks that there are `count` operands or more. -/
def demand (count : Nat) (stack : OperandStack) : Except StackFault Unit :=
  if stack.size < count then .error .underflow else .ok ()

/-- The operand with the given number, counted from the bottom, as a 16.16 number. -/
def getFixed (i : Nat) (stack : OperandStack) : Except StackFault Fixed :=
  match stack.operands[i]? with
  | none => .error .underflow
  | some value => .ok value

/-- The `count` operands from the one numbered `first` on, counted from the bottom. -/
def slice (first count : Nat) (stack : OperandStack) : Except StackFault (List Fixed) :=
  if stack.size < first + count then
    .error .underflow
  else
    .ok ((stack.operands.drop first).take count)

end OperandStack

end Type2Glyphs
