import Type2Glyphs.Charstring.Arithmetic
import Type2Glyphs.Charstring.Operands

/-!
# Operands — reading operands where there are any

Lists can be read at any place, and numbers be subtracted in any order, since there is a convention
for what comes of it where it makes no sense.  A machine with arrays and unsigned numbers has no
such convention.  `Strict` is for computations on such a machine: they give a value or a fault, or
nothing at all where an operation is used outside its domain.

The operations of the operand stack are written down in this way once more.  As long as the stack
has at most `maxOperands` operands, they are defined and give what the operations of `OperandStack`
give, and the stack is not higher afterwards: see `Gives` and the theorems at the end.
-/

namespace Type2Glyphs

/-- A value or a fault, or nothing where an operation is not defined. -/
abbrev Strict (ε : Type) := ExceptT ε Option

namespace Strict

variable {ε α β : Type}

/-! ## Operations that are not defined everywhere -/

/-- The difference of two numbers, if it is one. -/
def minus? (a b : Nat) : Option Nat :=
  if b ≤ a then some (a - b) else none

/-- The remainder that is not negative.  There is none for zero. -/
def remainder? (a b : Int) : Option Int :=
  if b = 0 then none else some (a % b)

/-- The quotient of two 16.16 numbers.  There is none for zero. -/
def quotient? (a b : Fixed) : Option Fixed :=
  if b = 0 then none else some (a.quotient b)

/-- The number as 16 bits, if it has no more. -/
def word? (n : Nat) : Option Nat :=
  if n < 65536 then some n else none

/-- The part of a list from `start` to before `stop`, if there is one. -/
def slice? (start stop : Nat) (items : List α) : Option (List α) :=
  if start ≤ stop ∧ stop ≤ items.length then some ((items.drop start).take (stop - start)) else none

/-- The `count` items of a list from the one numbered `start` on, each read on its own. -/
def items? (items : List α) (start : Nat) : (count : Nat) → Option (List α)
  | 0 => some []
  | count + 1 => items[start]?.bind fun item => (items? items (start + 1) count).map (item :: ·)

theorem minus?_of_le {a b : Nat} (h : b ≤ a) : minus? a b = some (a - b) :=
  if_pos h

theorem slice?_of_le {start stop : Nat} {items : List α} (ordered : start ≤ stop)
    (within : stop ≤ items.length) :
    slice? start stop items = some ((items.drop start).take (stop - start)) :=
  if_pos ⟨ordered, within⟩

/-- The items of a list between others can be read. -/
theorem items?_append (front items back : List α) {start count : Nat}
    (first : start = front.length) (all : count = items.length) :
    items? (front ++ items ++ back) start count = some items := by
  subst first all
  induction items generalizing front with
  | nil => rfl
  | cons item items ih =>
      have here : (front ++ item :: items ++ back)[front.length]? = some item := by simp
      have later := ih (front ++ [item])
      rw [List.length_append, List.append_assoc front] at later
      simp only [List.length_cons, items?, here, Option.bind_some]
      exact congrArg (Option.map (item :: ·)) later

/-- All items from the one numbered `start` on can be read. -/
theorem items?_drop {items : List α} {start : Nat} (h : start ≤ items.length) :
    items? items start (items.length - start) = some (items.drop start) := by
  have read := items?_append (items.take start) (items.drop start) []
    (List.length_take_of_le h).symm List.length_drop.symm
  rwa [List.append_nil, List.take_append_drop] at read

/-! ## Computations that are defined -/

/-- An outcome that is defined. -/
def of (result : Except ε α) : Strict ε α :=
  ExceptT.mk (some result)

/-- The computation is defined and comes to `result`, and what it gives has the property `P`. -/
structure Gives (p : Strict ε α) (result : Except ε α) (P : α → Prop) : Prop where
  defined : p = of result
  holds : ∀ a, result = .ok a → P a

namespace Gives

variable {p : Strict ε α} {result : Except ε α} {P : α → Prop} {Q : β → Prop}

theorem ok {a : α} (h : P a) : Gives (pure a : Strict ε α) (.ok a) P :=
  ⟨rfl, fun _ same => Except.ok.inj same ▸ h⟩

theorem error (e : ε) : Gives (throw e : Strict ε α) (.error e) P := by
  refine ⟨rfl, fun _ impossible => ?_⟩
  cases impossible

/-- What follows only needs to be defined for what can come first. -/
theorem bind (first : Gives p result P) {k : α → Strict ε β} {l : α → Except ε β}
    (next : ∀ a, P a → Gives (k a) (l a) Q) : Gives (p >>= k) (result >>= l) Q := by
  rcases first with ⟨rfl, holds⟩
  cases result with
  | ok a => exact next a (holds a rfl)
  | error e => exact error e

/-- A fault can be made part of a larger one. -/
theorem adapt {ε' : Type} (given : Gives p result P) {wrap : ε → ε'} :
    Gives (p.adapt wrap) (result.mapError wrap) P := by
  rcases given with ⟨rfl, holds⟩
  cases result with
  | ok a => exact ok (holds a rfl)
  | error e => exact error (wrap e)

end Gives

@[simp] theorem some_bind (a : α) (k : α → Strict ε β) :
    (liftM (some a) : Strict ε α) >>= k = k a :=
  rfl

@[simp] theorem throw_bind (e : ε) (k : α → Strict ε β) :
    (throw e : Strict ε α) >>= k = throw e :=
  rfl

/-! ## The operand stack -/

/-- The operand with the given number, counted from the bottom. -/
def slot? (i : Nat) (stack : OperandStack) : Option Operand :=
  stack.entries.reverse[i]?

/-- The operand on top, and the stack below it. -/
def pop (stack : OperandStack) : Strict StackFault (Operand × OperandStack) := do
  if stack.size = 0 then
    throw .underflow
  let top ← minus? stack.size 1
  let value ← slot? top stack
  return (value, ⟨stack.entries.tail⟩)

/-- Puts an operand on top.  There is a slot for it below `maxOperands`. -/
def push (value : Operand) (stack : OperandStack) : Strict StackFault OperandStack := do
  if stack.size = maxOperands then
    throw .overflow
  if stack.size < maxOperands then
    return ⟨value :: stack.entries⟩
  else
    (none : Option OperandStack)

/-- Pushes the operand on top once more. -/
def dup (stack : OperandStack) : Strict StackFault OperandStack := do
  if stack.size = 0 then
    throw .underflow
  let top ← minus? stack.size 1
  push (← slot? top stack) stack

/-- Exchanges the two operands on top. -/
def exch (stack : OperandStack) : Strict StackFault OperandStack := do
  if stack.size < 2 then
    throw .underflow
  let top ← slot? (← minus? stack.size 1) stack
  let second ← slot? (← minus? stack.size 2) stack
  return ⟨second :: top :: stack.entries.drop 2⟩

/-- Pushes the operand `depth` places below the top once more. -/
def copyFromDepth (depth : Int) (stack : OperandStack) : Strict StackFault OperandStack := do
  if stack.size ≤ depth.toNat then
    throw (.invalidOperand .index)
  let top ← minus? stack.size 1
  let i ← minus? top depth.toNat
  push (← slot? i stack) stack

/-- Rotates the upper `count` operands by `shift` places toward the top. -/
def roll (count shift : Int) (stack : OperandStack) : Strict StackFault OperandStack := do
  if count < 0 ∨ (stack.size : Int) < count then
    throw (.invalidOperand .roll)
  if count = 0 then
    return stack
  let start ← minus? stack.size count.toNat
  let turn ← remainder? shift count
  -- from the bottom, the last `turn` operands come to stand before the others
  let upper ← slice? start stack.size stack.entries.reverse
  let cut ← minus? upper.length turn.toNat
  let rolled := upper.drop cut ++ upper.take cut
  return ⟨(stack.entries.reverse.take start ++ rolled).reverse⟩

/-- Replaces the operand on top. -/
def unary (f : Operand → Strict StackFault Operand) (stack : OperandStack) :
    Strict StackFault OperandStack := do
  let (a, stack) ← pop stack
  push (← f a) stack

/-- Replaces the two operands on top, of which the second one is above the first one. -/
def binary (f : Operand → Operand → Strict StackFault Operand) (stack : OperandStack) :
    Strict StackFault OperandStack := do
  let (b, stack) ← pop stack
  let (a, stack) ← pop stack
  push (← f a b) stack

/-- The stack after a stack operator. -/
def apply (op : StackOp) (stack : OperandStack) : Strict StackFault OperandStack :=
  match op with
  | .and => binary (fun a b => return .ofBool (a.toFixed ≠ 0 ∧ b.toFixed ≠ 0)) stack
  | .or => binary (fun a b => return .ofBool (a.toFixed ≠ 0 ∨ b.toFixed ≠ 0)) stack
  | .not => unary (fun a => return .ofBool (a.toFixed = 0)) stack
  | .eq => binary (fun a b => return .ofBool (a.toFixed = b.toFixed)) stack
  | .ifelse => do
      let (v₂, stack) ← pop stack
      let (v₁, stack) ← pop stack
      binary (fun s₁ s₂ => return if v₁.toFixed ≤ v₂.toFixed then s₁ else s₂) stack
  | .abs => unary (fun a => return a.abs) stack
  | .neg => unary (fun a => return a.neg) stack
  | .add => binary (fun a b => return a.add b) stack
  | .sub => binary (fun a b => return a.sub b) stack
  | .mul => binary (fun a b => return .fixed (a.toFixed * b.toFixed)) stack
  | .div => binary (fun a b => do
      if b.toFixed = 0 then
        throw .divideByZero
      return .fixed (← quotient? a.toFixed b.toFixed)) stack
  | .sqrt => unary (fun a => do
      if a.toFixed < 0 then
        throw (.invalidOperand .sqrt)
      return .fixed a.toFixed.sqrt) stack
  | .drop => do
      let (_, stack) ← pop stack
      return stack
  | .dup => dup stack
  | .exch => exch stack
  | .index => do
      let (depth, stack) ← pop stack
      copyFromDepth depth.toInt.toInt stack
  | .roll => do
      let (shift, stack) ← pop stack
      let (count, stack) ← pop stack
      roll count.toInt.toInt shift.toInt.toInt stack

/-! ### Stacks that are not too high -/

section Stack

variable {stack after : OperandStack} {value : Operand}

theorem slot?_top (top : Operand) (below : List Operand) :
    slot? below.length ⟨top :: below⟩ = some top := by
  simp [slot?]

theorem slot?_second (top second : Operand) (below : List Operand) :
    slot? below.length ⟨top :: second :: below⟩ = some second := by
  simp [slot?]

theorem pop_gives (room : stack.size ≤ maxOperands) :
    Gives (pop stack) stack.pop fun popped => popped.2.size ≤ maxOperands := by
  rcases stack with ⟨_ | ⟨top, below⟩⟩
  · exact .error _
  · have positive : minus? (below.length + 1) 1 = some below.length :=
      minus?_of_le (Nat.le_add_left 1 below.length)
    simp only [pop, OperandStack.size, List.length_cons, Nat.succ_ne_zero, if_false, positive,
      some_bind, slot?_top]
    exact .ok (Nat.le_of_succ_le room)

theorem push_gives (room : stack.size ≤ maxOperands) (value : Operand) :
    Gives (push value stack) (stack.push value) fun after => after.size ≤ maxOperands := by
  simp only [push, OperandStack.push]
  by_cases full : stack.size = maxOperands
  · simp only [if_pos full, if_neg (Nat.not_lt.2 (Nat.le_of_eq full.symm)), throw_bind]
    exact .error _
  · have free : stack.size < maxOperands := Nat.lt_of_le_of_ne room full
    simp only [if_neg full, if_pos free]
    exact .ok free

theorem dup_gives (room : stack.size ≤ maxOperands) :
    Gives (dup stack) stack.dup fun after => after.size ≤ maxOperands := by
  rcases stack with ⟨_ | ⟨top, below⟩⟩
  · exact .error _
  · have positive : minus? (below.length + 1) 1 = some below.length :=
      minus?_of_le (Nat.le_add_left 1 below.length)
    simp only [dup, OperandStack.size, List.length_cons, Nat.succ_ne_zero, if_false, positive,
      some_bind, slot?_top]
    exact push_gives room top

theorem exch_gives (room : stack.size ≤ maxOperands) :
    Gives (exch stack) stack.exch fun after => after.size ≤ maxOperands := by
  rcases stack with ⟨_ | ⟨top, _ | ⟨second, below⟩⟩⟩
  · exact .error _
  · exact .error _
  · have small : ¬ below.length + 2 < 2 := Nat.not_lt.2 (Nat.le_add_left ..)
    have one : minus? (below.length + 2) 1 = some (second :: below).length :=
      minus?_of_le (Nat.le_add_left 1 (below.length + 1))
    have two : minus? (below.length + 2) 2 = some below.length :=
      minus?_of_le (Nat.le_add_left ..)
    simp only [exch, OperandStack.size, List.length_cons, if_neg small, one, two, some_bind,
      slot?_second]
    rw [← List.length_cons, slot?_top]
    exact .ok room

theorem copyFromDepth_gives (room : stack.size ≤ maxOperands) (depth : Int) :
    Gives (copyFromDepth depth stack) (stack.copyFromDepth depth) fun after =>
      after.size ≤ maxOperands := by
  simp only [copyFromDepth, OperandStack.copyFromDepth]
  by_cases deep : stack.size ≤ depth.toNat
  · have none : stack.entries[depth.toNat]? = none := List.getElem?_eq_none deep
    simp only [if_pos deep, throw_bind, none]
    exact .error _
  · have within : depth.toNat < stack.entries.length := Nat.lt_of_not_le deep
    have top : minus? stack.size 1 = some (stack.size - 1) := minus?_of_le (by omega)
    have place : minus? (stack.size - 1) depth.toNat = some (stack.size - 1 - depth.toNat) :=
      minus?_of_le (by omega)
    have value : slot? (stack.size - 1 - depth.toNat) stack = some stack.entries[depth.toNat] := by
      have there : stack.entries.length - 1 - (stack.entries.length - 1 - depth.toNat) =
          depth.toNat := by omega
      rw [slot?, OperandStack.size, List.getElem?_reverse (by omega), there]
      exact List.getElem?_eq_getElem within
    simp only [if_neg deep, top, place, value, some_bind, List.getElem?_eq_getElem within]
    exact push_gives room _

/-- Seen from the bottom, the operands that move up are those that stand last. -/
theorem reverse_roll (entries : List Operand) {count turn : Nat} (some : turn ≤ count)
    (room : count ≤ entries.length) :
    let upper := (entries.take count).reverse
    (entries.reverse.take (entries.length - count) ++
        (upper.drop (count - turn) ++ upper.take (count - turn))).reverse =
      (entries.take count).drop turn ++ (entries.take count).take turn ++ entries.drop count := by
  intro upper
  have lower : entries.length - (entries.length - count) = count := Nat.sub_sub_self room
  have moved : count - (count - turn) = turn := Nat.sub_sub_self some
  rw [List.drop_reverse, List.take_reverse, List.take_reverse, List.length_take,
    Nat.min_eq_left room, moved, lower]
  simp only [List.reverse_append, List.reverse_reverse]

/-- The part of the stack that turns is the last one from the bottom. -/
theorem slice?_upper {count : Nat} (room : count ≤ stack.size) :
    slice? (stack.size - count) stack.size stack.entries.reverse =
      some (stack.entries.take count).reverse := by
  have within : stack.size ≤ stack.entries.reverse.length := by
    rw [List.length_reverse]
    exact Nat.le_refl _
  have lower : stack.entries.length - (stack.entries.length - count) = count :=
    Nat.sub_sub_self room
  rw [slice?_of_le (Nat.sub_le ..) within, List.drop_reverse, OperandStack.size, lower]
  refine congrArg some (List.take_of_length_le ?_)
  rw [List.length_reverse]
  exact List.length_take_le ..

theorem roll_gives (room : stack.size ≤ maxOperands) (count shift : Int) :
    Gives (roll count shift stack) (stack.roll count shift) fun after =>
      after.size ≤ maxOperands := by
  simp only [roll, OperandStack.roll]
  by_cases bad : count < 0 ∨ (stack.size : Int) < count
  · simp only [if_pos bad, throw_bind]
    exact .error _
  · simp only [if_neg bad]
    by_cases zero : count = 0
    · subst zero
      simp only [if_true, Int.toNat_zero, List.take_zero, List.drop_zero, List.drop_nil,
        List.take_nil, List.nil_append]
      exact .ok room
    · have below : count.toNat ≤ stack.size := by omega
      have turned : (shift % count).toNat ≤ count.toNat := by
        have less := Int.emod_lt_of_pos shift (show 0 < count by omega)
        omega
      have start : minus? stack.size count.toNat = some (stack.size - count.toNat) :=
        minus?_of_le below
      have turn : remainder? shift count = some (shift % count) := if_neg zero
      have length : (stack.entries.take count.toNat).reverse.length = count.toNat := by
        rw [List.length_reverse, List.length_take]
        exact Nat.min_eq_left below
      have cut : minus? count.toNat (shift % count).toNat =
          some (count.toNat - (shift % count).toNat) := minus?_of_le turned
      have rolled := reverse_roll stack.entries turned below
      simp only [if_neg zero, start, turn, slice?_upper below, length, cut, some_bind]
      rw [OperandStack.size, rolled]
      -- operands change places, and their number stays the same
      refine .ok ?_
      simp only [OperandStack.size, List.length_append, List.length_drop, List.length_take]
        at room below ⊢
      omega

/-! ### Operators -/

theorem unary_gives (room : stack.size ≤ maxOperands) (g : Operand → Operand) :
    Gives (unary (fun a => return g a) stack) (do let a ← stack.pop; a.2.push (g a.1)) fun after =>
      after.size ≤ maxOperands :=
  (pop_gives room).bind fun _ room => push_gives room _

theorem binary_gives (room : stack.size ≤ maxOperands) (g : Operand → Operand → Operand) :
    Gives (binary (fun a b => return g a b) stack) (do
      let b ← stack.pop
      let a ← b.2.pop
      a.2.push (g a.1 b.1)) fun after => after.size ≤ maxOperands :=
  (pop_gives room).bind fun _ room => (pop_gives room).bind fun _ room => push_gives room _

/-- Reading an operand as a 16.16 number comes after popping it. -/
theorem popFixed_bind (k : Fixed × OperandStack → Except StackFault α) (stack : OperandStack) :
    stack.popFixed >>= k = stack.pop >>= fun popped => k (popped.1.toFixed, popped.2) := by
  rcases stack with ⟨_ | ⟨top, below⟩⟩ <;> rfl

theorem popInt_bind (k : Int32 × OperandStack → Except StackFault α) (stack : OperandStack) :
    stack.popInt >>= k = stack.pop >>= fun popped => k (popped.1.toInt, popped.2) := by
  rcases stack with ⟨_ | ⟨top, below⟩⟩ <;> rfl

/-- Stack operators are defined on stacks that are not too high, and leave such stacks. -/
theorem apply_gives (room : stack.size ≤ maxOperands) (op : StackOp) :
    Gives (apply op stack) (op.apply stack) fun after => after.size ≤ maxOperands := by
  cases op with
  | and | or | eq | mul | add | sub =>
      simp only [apply, StackOp.apply, popFixed_bind]
      exact binary_gives room _
  | not | abs | neg =>
      simp only [apply, StackOp.apply, popFixed_bind]
      exact unary_gives room _
  | div =>
      simp only [apply, StackOp.apply, popFixed_bind]
      refine (pop_gives room).bind fun b room => (pop_gives room).bind fun a room => ?_
      by_cases zero : b.1.toFixed = 0
      · simp only [if_pos zero, throw_bind]
        exact .error _
      · simp only [quotient?, if_neg zero]
        exact push_gives room _
  | sqrt =>
      simp only [apply, StackOp.apply, popFixed_bind]
      refine (pop_gives room).bind fun a room => ?_
      by_cases negative : a.1.toFixed < 0
      · simp only [if_pos negative, throw_bind]
        exact .error _
      · simp only [if_neg negative]
        exact push_gives room _
  | ifelse =>
      simp only [apply, StackOp.apply, popFixed_bind]
      exact (pop_gives room).bind fun v₂ room => (pop_gives room).bind fun v₁ room =>
        binary_gives room _
  | drop => exact (pop_gives room).bind fun _ room => .ok room
  | dup => exact dup_gives room
  | exch => exact exch_gives room
  | index =>
      simp only [apply, StackOp.apply, popInt_bind]
      exact (pop_gives room).bind fun depth room => copyFromDepth_gives room _
  | roll =>
      simp only [apply, StackOp.apply, popInt_bind]
      exact (pop_gives room).bind fun shift room => (pop_gives room).bind fun count room =>
        roll_gives room _ _

end Stack

end Strict

end Type2Glyphs
