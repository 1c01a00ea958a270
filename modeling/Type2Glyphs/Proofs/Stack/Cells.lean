import Mathlib.Data.List.Zip
import Type2Glyphs.Proofs.Stack.Roll

/-!
# Cells — the operand stack in two rows of cells

A stack of bounded height needs no more memory than it has at the start: here the numbers lie in one
row of cells and their kinds in another, and a third field says how many of them belong to the
stack.  What lies above stays there when operands are popped or the stack is cleared, and is
overwritten by the next ones.

Each operation on cells comes to the same as the operation of `OperandStack` on the stack in them:
see `Cells.Refines` and the theorems named after the operations.
-/

namespace Type2Glyphs

/-! ## Cells -/

namespace Operand

/-- The number in a cell, of the kind that the other row says. -/
def ofCell (bits : Int32) (isFixed : Bool) : Operand :=
  if isFixed then .fixed ⟨bits⟩ else .int bits

/-- The 32 bits that go to the row of numbers. -/
def bits : Operand → Int32
  | .int value => value
  | .fixed value => value.bits

/-- What goes to the row of kinds. -/
def isFixed : Operand → Bool
  | .int _ => false
  | .fixed _ => true

theorem ofCell_bits (value : Operand) : ofCell value.bits value.isFixed = value := by
  cases value <;> rfl

end Operand

/-- A row of cells. -/
abbrev Row (α : Type) := Vector α maxOperands

/-- The row with `count` cells from `first` on turned: the last `turn` of them come to stand before
the others. -/
def Row.rotateRight {α : Type} (first count turn : Nat) (row : Row α) : Row α :=
  let part := (row.toList.drop first).take count
  ⟨(row.toList.take first ++ part.rotate (count - turn) ++ row.toList.drop (first + count)).toArray,
    by simp [part]; omega⟩

/-- A stack in two rows of cells, of which the first `top` are in use. -/
structure Cells where
  numbers : Row Int32
  kinds : Row Bool
  top : Nat
  within : top ≤ maxOperands

namespace Cells

/-- A program on cells.  It leaves cells behind also when it fails. -/
abbrev Program := EStateM StackFault Cells

/-- The cells of an empty stack. -/
def blank : Cells :=
  ⟨.replicate _ 0, .replicate _ false, 0, Nat.zero_le _⟩

/-- The operand in a cell. -/
def get (cells : Cells) (i : Nat) (inside : i < cells.top) : Operand :=
  have there : i < maxOperands := Nat.lt_of_lt_of_le inside cells.within
  .ofCell cells.numbers[i] cells.kinds[i]

/-- The cells with `count` operands fewer on top. -/
def lower (cells : Cells) (count : Nat) : Cells :=
  { cells with
    top := cells.top - count
    within := Nat.le_trans (Nat.sub_le cells.top count) cells.within }

/-! ### Operations -/

/-- Writes to the first cell that is not in use. -/
def pushCell (bits : Int32) (isFixed : Bool) : Program Unit := fun cells =>
  if full : cells.top = maxOperands then
    .error .overflow cells
  else
    have room : cells.top < maxOperands := Nat.lt_of_le_of_ne cells.within full
    .ok () {
      numbers := cells.numbers.set cells.top bits room
      kinds := cells.kinds.set cells.top isFixed room
      top := cells.top + 1
      within := room }

/-- Puts an operand on top. -/
def push (value : Operand) : Program Unit :=
  pushCell value.bits value.isFixed

/-- The operand on top, whose cell is no longer in use. -/
def pop : Program Operand := fun cells =>
  if some : 0 < cells.top then
    .ok (cells.get (cells.top - 1) (Nat.sub_lt some Nat.one_pos)) (cells.lower 1)
  else
    .error .underflow cells

/-- The operand on top as a 16.16 number. -/
def popFixed : Program Fixed :=
  Operand.toFixed <$> pop

/-- The operand on top as a whole number. -/
def popInt : Program Int32 :=
  Operand.toInt <$> pop

/-- Pushes the operand `depth` places below the top once more. -/
def pushCopy (depth : Nat) (cells : Cells) (inside : depth < cells.top) :
    EStateM.Result StackFault Cells Unit :=
  have there : cells.top - 1 - depth < maxOperands := by
    have within := cells.within
    omega
  pushCell cells.numbers[cells.top - 1 - depth] cells.kinds[cells.top - 1 - depth] cells

/-- Pushes the operand on top once more. -/
def dup : Program Unit := fun cells =>
  if some : 0 < cells.top then cells.pushCopy 0 some else .error .underflow cells

/-- The cells with the contents of two of them exchanged. -/
def swap (cells : Cells) (i j : Nat) (inside : i < cells.top) (inside' : j < cells.top) : Cells :=
  have there : i < maxOperands := Nat.lt_of_lt_of_le inside cells.within
  have there' : j < maxOperands := Nat.lt_of_lt_of_le inside' cells.within
  { cells with numbers := cells.numbers.swap i j, kinds := cells.kinds.swap i j }

/-- Exchanges the two operands on top. -/
def exch : Program Unit := fun cells =>
  if two : 2 ≤ cells.top then
    .ok () (cells.swap (cells.top - 1) (cells.top - 2) (by omega) (by omega))
  else
    .error .underflow cells

/-- Pushes the operand `depth` places below the top once more; a negative depth means the top. -/
def copyFromDepth (depth : Int) : Program Unit := fun cells =>
  if inside : depth.toNat < cells.top then
    cells.pushCopy depth.toNat inside
  else
    .error (.invalidOperand .index) cells

/-- The cells with the upper `count` operands turned by `turn` places. -/
def turned (cells : Cells) (count turn : Nat) : Cells :=
  { cells with
    numbers := cells.numbers.rotateRight (cells.top - count) count turn
    kinds := cells.kinds.rotateRight (cells.top - count) count turn }

/-- Rotates the upper `count` operands by `shift` places toward the top. -/
def roll (count shift : Int) : Program Unit := fun cells =>
  if count < 0 ∨ (cells.top : Int) < count then
    .error (.invalidOperand .roll) cells
  else if count = 0 then
    .ok () cells
  else
    .ok () (cells.turned count.toNat (shift % count).toNat)

/-- Checks that there are `count` operands or more. -/
def demand (count : Nat) : Program Unit := fun cells =>
  if cells.top < count then .error .underflow cells else .ok () cells

/-- The operand with the given number, counted from the bottom, as a 16.16 number. -/
def getFixed (i : Nat) : Program Fixed := fun cells =>
  if inside : i < cells.top then .ok (cells.get i inside).toFixed cells
  else .error .underflow cells

/-- The `count` operands from the one numbered `first` on, counted from the bottom. -/
def slice (first count : Nat) : Program (List Fixed) := fun cells =>
  if inside : first + count ≤ cells.top then
    .ok (.ofFn fun i : Fin count =>
      (cells.get (first + i)
        (Nat.lt_of_lt_of_le (Nat.add_lt_add_left i.isLt first) inside)).toFixed)
      cells
  else
    .error .underflow cells

/-- Takes all operands from the stack. -/
def clear : Program Unit := fun cells =>
  .ok () { cells with top := 0, within := Nat.zero_le maxOperands }

/-! ## The stack in the cells -/

/-- All cells, in use or not. -/
def row (cells : Cells) : List Operand :=
  List.zipWith Operand.ofCell cells.numbers.toList cells.kinds.toList

/-- The operands on the stack, from the bottom. -/
def listed (cells : Cells) : List Operand :=
  cells.row.take cells.top

/-- The stack that is in the cells. -/
def stack (cells : Cells) : OperandStack :=
  ⟨cells.listed.reverse⟩

variable {cells : Cells}

theorem length_row (cells : Cells) : cells.row.length = maxOperands := by
  simp [row]

theorem length_listed (cells : Cells) : cells.listed.length = cells.top := by
  rw [listed, List.length_take, length_row, Nat.min_eq_left cells.within]

theorem size_stack (cells : Cells) : cells.stack.size = cells.top := by
  rw [OperandStack.size, stack, List.length_reverse, length_listed]

theorem getElem?_row {i : Nat} (inside : i < maxOperands) :
    cells.row[i]? = some (.ofCell cells.numbers[i] cells.kinds[i]) := by
  simp [row, inside]

theorem getElem?_listed {i : Nat} (inside : i < cells.top) :
    cells.listed[i]? = some (cells.get i inside) := by
  rw [listed, List.getElem?_take_of_lt inside,
    getElem?_row (Nat.lt_of_lt_of_le inside cells.within)]
  rfl

/-- Seen from the top, the operand numbered `depth` is as many cells below the last one. -/
theorem getElem?_entries {depth : Nat} (inside : depth < cells.top) :
    cells.stack.entries[depth]? =
      some (cells.get (cells.top - 1 - depth) (by omega)) := by
  rw [stack, List.getElem?_reverse (by rwa [length_listed]), length_listed, getElem?_listed]

theorem lower_listed (cells : Cells) (count : Nat) :
    (cells.lower count).stack.entries = cells.stack.entries.drop count := by
  rw [stack, stack, List.drop_reverse, length_listed]
  refine congrArg List.reverse ?_
  rw [listed, listed, List.take_take, Nat.min_eq_left (Nat.sub_le _ _)]
  rfl

/-! ## Operations on cells and on stacks -/

/-- An operation on cells comes to the same as one on the stack in them, and leaves the stack as it
was if it fails. -/
inductive Refines {α : Type} (cells : Cells) :
    EStateM.Result StackFault Cells α → Except StackFault (α × OperandStack) → Prop
  | ok (a : α) {after : Cells} {stack : OperandStack} (same : after.stack = stack) :
      Refines cells (.ok a after) (.ok (a, stack))
  | error (fault : StackFault) {after : Cells} (same : after.stack = cells.stack) :
      Refines cells (.error fault after) (.error fault)

/-- The outcome of an operation that gives nothing but the new stack. -/
def done (result : Except StackFault OperandStack) : Except StackFault (Unit × OperandStack) :=
  result.map fun stack => ((), stack)

theorem Refines.map {α β : Type} {p : Program α} {result : Except StackFault (α × OperandStack)}
    (h : Refines cells (p cells) result) (f : α → β) :
    Refines cells ((f <$> p) cells) (result.map fun (a, stack) => (f a, stack)) := by
  simp only [Functor.map, EStateM.map]
  generalize p cells = outcome at h ⊢
  cases h with
  | ok a same => exact .ok (f a) same
  | error fault same => exact .error fault same

theorem take_set_succ {α : Type} {items : List α} {i : Nat} (item : α)
    (inside : i < items.length) : (items.set i item).take (i + 1) = items.take i ++ [item] := by
  have length : (items.take i).length = i := List.length_take_of_le (Nat.le_of_lt inside)
  rw [List.set_eq_take_append_cons_drop, if_pos inside, List.take_append, length,
    List.take_of_length_le (by omega), Nat.add_sub_cancel_left]
  rfl

theorem pushCell_refines (cells : Cells) (bits : Int32) (isFixed : Bool) :
    Refines cells (pushCell bits isFixed cells)
      (done (cells.stack.push (.ofCell bits isFixed))) := by
  unfold pushCell OperandStack.push
  rw [size_stack]
  split
  · next full =>
      rw [if_neg (by omega)]
      exact .error .overflow rfl
  · next free =>
      have room : cells.top < maxOperands := Nat.lt_of_le_of_ne cells.within free
      rw [if_pos room]
      refine .ok () (congrArg OperandStack.mk ?_)
      have inside : cells.top < cells.numbers.toList.length := by simpa using room
      have inside' : cells.top < cells.kinds.toList.length := by simpa using room
      have same : (cells.numbers.toList.take cells.top).length =
          (cells.kinds.toList.take cells.top).length := by simp
      rw [listed, row, Vector.toList_set, Vector.toList_set, List.take_zipWith,
        take_set_succ bits inside, take_set_succ isFixed inside', List.zipWith_append same,
        List.reverse_append, ← List.take_zipWith]
      rfl

theorem push_refines (cells : Cells) (value : Operand) :
    Refines cells (push value cells) (done (cells.stack.push value)) := by
  have written := pushCell_refines cells value.bits value.isFixed
  rwa [Operand.ofCell_bits] at written

/-- The operand on top stands first, and those below it stay in their cells. -/
theorem entries_of_pos (some : 0 < cells.top) :
    cells.stack.entries =
      cells.get (cells.top - 1) (Nat.sub_lt some Nat.one_pos) :: (cells.lower 1).stack.entries := by
  have first := getElem?_entries some
  rw [← List.head?_eq_getElem?] at first
  obtain ⟨below, cut⟩ := List.head?_eq_some_iff.1 first
  rw [lower_listed, cut]
  rfl

theorem entries_of_two (two : 2 ≤ cells.top) :
    cells.stack.entries = cells.get (cells.top - 1) (by omega) ::
      cells.get (cells.top - 2) (by omega) :: (cells.lower 2).stack.entries := by
  have below : 0 < (cells.lower 1).top := Nat.sub_pos_of_lt two
  rw [entries_of_pos (Nat.lt_of_lt_of_le Nat.two_pos two), entries_of_pos below]
  rfl

theorem entries_of_zero (none : ¬ 0 < cells.top) : cells.stack.entries = [] := by
  rw [← List.length_eq_zero_iff]
  exact (size_stack cells).trans (Nat.eq_zero_of_not_pos none)

theorem pop_refines (cells : Cells) : Refines cells (pop cells) cells.stack.pop := by
  unfold pop OperandStack.pop
  split
  · next some =>
      rw [entries_of_pos some]
      exact .ok _ rfl
  · next none =>
      rw [entries_of_zero none]
      exact .error .underflow rfl

theorem pushCopy_refines {depth : Nat} (inside : depth < cells.top) :
    Refines cells (cells.pushCopy depth inside)
      (done (cells.stack.push (cells.get (cells.top - 1 - depth) (by omega)))) :=
  pushCell_refines cells _ _

theorem dup_refines (cells : Cells) : Refines cells (dup cells) (done cells.stack.dup) := by
  unfold dup OperandStack.dup
  split
  · next some =>
      rw [entries_of_pos some]
      exact pushCopy_refines some
  · next none =>
      rw [entries_of_zero none]
      exact .error .underflow rfl

theorem copyFromDepth_refines (cells : Cells) (depth : Int) :
    Refines cells (copyFromDepth depth cells) (done (cells.stack.copyFromDepth depth)) := by
  unfold copyFromDepth OperandStack.copyFromDepth
  split
  · next inside =>
      rw [getElem?_entries inside]
      exact pushCopy_refines inside
  · next deep =>
      have none : cells.stack.entries[depth.toNat]? = none :=
        List.getElem?_eq_none ((size_stack cells).trans_le (Nat.le_of_not_lt deep))
      rw [none]
      exact .error _ rfl

theorem demand_refines (cells : Cells) (count : Nat) :
    Refines cells (demand count cells)
      ((cells.stack.demand count).map fun _ => ((), cells.stack)) := by
  unfold demand OperandStack.demand
  rw [size_stack]
  split
  · exact .error _ rfl
  · exact .ok () rfl

theorem operands_stack (cells : Cells) :
    cells.stack.operands = cells.listed.map Operand.toFixed := by
  rw [OperandStack.operands, stack, List.reverse_reverse]

theorem getFixed_refines (cells : Cells) (i : Nat) :
    Refines cells (getFixed i cells)
      ((cells.stack.getFixed i).map fun value => (value, cells.stack)) := by
  unfold getFixed OperandStack.getFixed
  rw [operands_stack, List.getElem?_map]
  split
  · next inside =>
      rw [getElem?_listed inside]
      exact .ok _ rfl
  · next outside =>
      rw [List.getElem?_eq_none (by rw [length_listed]; omega)]
      exact .error _ rfl

theorem slice_refines (cells : Cells) (first count : Nat) :
    Refines cells (slice first count cells)
      ((cells.stack.slice first count).map fun values => (values, cells.stack)) := by
  unfold slice OperandStack.slice
  rw [size_stack]
  split
  · next inside =>
      rw [if_neg (by omega), operands_stack]
      have length :
          (((cells.listed.map Operand.toFixed).drop first).take count).length = count := by
        rw [List.length_take, List.length_drop, List.length_map, length_listed]
        omega
      have read : (List.ofFn fun i : Fin count => (cells.get (first + i) (by omega)).toFixed) =
          ((cells.listed.map Operand.toFixed).drop first).take count := by
        refine List.ext_getElem (by rw [List.length_ofFn, length]) fun i here _ => ?_
        rw [List.length_ofFn] at here
        have there : first + i < cells.top := by omega
        have found := getElem?_listed there
        rw [List.getElem?_eq_getElem (by rwa [length_listed])] at found
        simp [← Option.some.inj found]
      rw [← read]
      exact .ok _ rfl
  · next outside =>
      rw [if_pos (by omega)]
      exact .error _ rfl

/-- Cells above the first ones can be written to, and the first ones stay as they are. -/
theorem listed_of_take {after : Cells} (top : after.top = cells.top)
    (numbers : after.numbers.toList.take cells.top = cells.numbers.toList.take cells.top)
    (kinds : after.kinds.toList.take cells.top = cells.kinds.toList.take cells.top) :
    after.listed = cells.listed := by
  rw [listed, listed, row, row, top, List.take_zipWith, List.take_zipWith, numbers, kinds]

theorem take_swap {α : Type} (row : Row α) {i j : Nat} (inside : i < maxOperands)
    (inside' : j < maxOperands) (ordered : j ≤ i) :
    (row.swap i j inside inside').toList.take j = row.toList.take j := by
  rw [Vector.toList_swap, List.take_set_of_le (Nat.le_refl j), List.take_set_of_le ordered]

/-- The two operands on top stand the other way round, and those below stay. -/
theorem entries_swap (two : 2 ≤ cells.top) :
    (cells.swap (cells.top - 1) (cells.top - 2) (by omega) (by omega)).stack.entries =
      cells.get (cells.top - 2) (by omega) :: cells.get (cells.top - 1) (by omega) ::
        (cells.lower 2).stack.entries := by
  have lower : cells.top - 2 ≤ cells.top - 1 := Nat.sub_le_sub_left (Nat.le_succ 1) cells.top
  have inside : cells.top - 1 < maxOperands := Nat.sub_one_lt_of_le (by omega) cells.within
  have inside' : cells.top - 2 < maxOperands := Nat.lt_of_le_of_lt lower inside
  have below : ((cells.swap (cells.top - 1) (cells.top - 2) (by omega) (by omega)).lower 2).listed =
      (cells.lower 2).listed :=
    listed_of_take rfl (take_swap _ inside inside' lower) (take_swap _ inside inside' lower)
  rw [entries_of_two (show 2 ≤ (cells.swap _ _ _ _).top from two)]
  simp only [get, swap, Vector.getElem_swap_left, Vector.getElem_swap_right]
  exact congrArg (fun below => _ :: _ :: List.reverse below) below

theorem exch_refines (cells : Cells) : Refines cells (exch cells) (done cells.stack.exch) := by
  unfold exch OperandStack.exch
  split
  · next two =>
      rw [entries_of_two two]
      exact .ok () (congrArg OperandStack.mk (entries_swap two))
  · next few =>
      have short : cells.stack.entries.length < 2 :=
        (size_stack cells).trans_lt (Nat.lt_of_not_le few)
      generalize cells.stack.entries = entries at short ⊢
      rcases entries with _ | ⟨top, _ | ⟨second, below⟩⟩
      · exact .error _ rfl
      · exact .error _ rfl
      · simp only [List.length_cons] at short
        omega

theorem toList_rotateRight {α : Type} (first count turn : Nat) (row : Row α) :
    (row.rotateRight first count turn).toList =
      row.toList.take first ++ ((row.toList.drop first).take count).rotate (count - turn) ++
        row.toList.drop (first + count) :=
  rfl

/-- Both rows are turned by the same number of places, so that the operands are. -/
theorem listed_turned {count : Nat} (turn : Nat) (some : count ≤ cells.top) :
    (cells.turned count turn).listed =
      cells.listed.take (cells.top - count) ++
        (cells.listed.drop (cells.top - count)).rotate (count - turn) := by
  have start : cells.top - count + count = cells.top := Nat.sub_add_cancel some
  have rest : cells.top - (cells.top - count) = count := Nat.sub_sub_self some
  have lower : (cells.row.take (cells.top - count)).length = cells.top - count := by
    rw [List.length_take, length_row]
    have within := cells.within
    omega
  have upper : (((cells.row.drop (cells.top - count)).take count).rotate (count - turn)).length =
      count := by
    rw [List.length_rotate, List.length_take, List.length_drop, length_row]
    have within := cells.within
    omega
  have whole : (cells.turned count turn).row = cells.row.take (cells.top - count) ++
      ((cells.row.drop (cells.top - count)).take count).rotate (count - turn) ++
        cells.row.drop cells.top := by
    rw [row, turned, toList_rotateRight, toList_rotateRight, start, List.zipWith_append (by simp),
      List.zipWith_append (by simp), ← List.zipWith_rotate_distrib _ _ _ _ (by simp),
      ← List.take_zipWith, ← List.take_zipWith, ← List.drop_zipWith, ← List.drop_zipWith]
    rfl
  have both : (cells.row.take (cells.top - count) ++
      ((cells.row.drop (cells.top - count)).take count).rotate (count - turn)).length =
        cells.top := by
    rw [List.length_append, lower, upper, start]
  rw [listed, whole, listed, List.take_take, Nat.min_eq_left (Nat.sub_le _ _), List.drop_take, rest]
  exact List.take_left' both

/-- Seen from the other end, a list is turned the other way. -/
theorem reverse_rotate_sub {α : Type} {items : List α} {turn : Nat} (within : turn ≤ items.length) :
    (items.rotate (items.length - turn)).reverse = items.reverse.rotate turn := by
  rw [List.rotate_eq_drop_append_take (Nat.sub_le _ _), List.rotate_eq_drop_append_take (by simpa),
    List.reverse_append, List.drop_reverse, List.take_reverse]

theorem stack_turned {count : Nat} {shift : Int} (some : count ≤ cells.top)
    (within : (shift % count).toNat ≤ count) :
    (cells.turned count (shift % count).toNat).stack = cells.stack.rolled count shift := by
  refine congrArg OperandStack.mk ?_
  have rest : cells.top - (cells.top - count) = count := Nat.sub_sub_self some
  have length : (cells.listed.drop (cells.top - count)).length = count := by
    rw [List.length_drop, length_listed, rest]
  have turned := reverse_rotate_sub (length.symm ▸ within)
  rw [length] at turned
  rw [listed_turned _ some, List.reverse_append, turned, stack, List.take_reverse,
    List.drop_reverse, length_listed]

theorem roll_refines (cells : Cells) (count shift : Int) :
    Refines cells (roll count shift cells) (done (cells.stack.roll count shift)) := by
  unfold roll
  split
  · next outside =>
      rw [OperandStack.roll_of_outside (by rwa [size_stack])]
      exact .error _ rfl
  · next inside =>
      obtain ⟨count, rfl⟩ := Int.eq_ofNat_of_zero_le (show 0 ≤ count by omega)
      have some : count ≤ cells.stack.size := by
        rw [size_stack]
        omega
      rw [OperandStack.roll_of_le some]
      split
      · next none =>
          obtain rfl : count = 0 := Int.natCast_eq_zero.1 none
          exact .ok () rfl
      · next positive =>
          have turn := Int.emod_lt_of_pos shift (show 0 < (count : Int) by omega)
          rw [Int.toNat_natCast]
          exact .ok () (stack_turned ((size_stack cells).symm ▸ some) (by omega))

end Cells

end Type2Glyphs
