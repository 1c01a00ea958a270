import Mathlib.Data.List.Rotate
import Type2Glyphs.OperandStack

/-!
# Roll — turning the upper operands of a stack

The upper operands of a stack form a cycle that can be turned by any number of places, in either
direction.  Turning twice is turning once by the sum, so turning back undoes it, and the operands
below do not move.
-/

namespace Type2Glyphs

namespace OperandStack

variable {stack : OperandStack} {count : Nat}

/-- The stack with its upper `count` operands turned by `shift` places toward the top. -/
def rolled (count : Nat) (shift : Int) (stack : OperandStack) : OperandStack :=
  ⟨(stack.entries.take count).rotate (shift % count).toNat ++ stack.entries.drop count⟩

theorem size_rolled (count : Nat) (shift : Int) (stack : OperandStack) :
    (stack.rolled count shift).size = stack.size := by
  have cut := congrArg List.length (List.take_append_drop count stack.entries)
  rw [List.length_append] at cut
  rw [size, rolled, List.length_append, List.length_rotate, cut, size]

/-- Turning by a multiple of the count moves nothing. -/
theorem rolled_of_dvd {shift : Int} (whole : (count : Int) ∣ shift) :
    stack.rolled count shift = stack := by
  rw [rolled, Int.emod_eq_zero_of_dvd whole, Int.toNat_zero, List.rotate_zero,
    List.take_append_drop]

/-- The places to turn by, as a number. -/
theorem cast_turn (some : 0 < count) (shift : Int) :
    ((shift % count).toNat : Int) = shift % count :=
  Int.toNat_of_nonneg (Int.emod_nonneg shift (Int.natCast_ne_zero.2 (Nat.ne_of_gt some)))

theorem turn_add (some : 0 < count) (a b : Int) :
    ((a % count).toNat + (b % count).toNat) % count = ((a + b) % count).toNat := by
  apply Int.ofNat.inj
  calc
    ((((a % count).toNat + (b % count).toNat) % count : Nat) : Int)
      = (((a % count).toNat : Int) + ((b % count).toNat : Int)) % count := rfl
    _ = (a % count + b % count) % count := by rw [cast_turn some, cast_turn some]
    _ = (a + b) % count := (Int.add_emod a b count).symm
    _ = ((a + b) % count).toNat := (cast_turn some _).symm

/-- Turning twice is turning by the sum. -/
theorem rolled_rolled (within : count ≤ stack.size) (a b : Int) :
    (stack.rolled count a).rolled count b = stack.rolled count (a + b) := by
  rcases Nat.eq_zero_or_pos count with rfl | some
  · rfl
  · have upper : (stack.entries.take count).length = count := List.length_take_of_le within
    have turned : ((stack.entries.take count).rotate (a % count).toNat).length = count := by
      rw [List.length_rotate, upper]
    have sum : (stack.entries.take count).rotate ((a % count).toNat + (b % count).toNat) =
        (stack.entries.take count).rotate ((a + b) % count).toNat := by
      rw [← List.rotate_mod, upper, turn_add some]
    rw [rolled, rolled, List.take_left' turned, List.drop_left' turned, List.rotate_rotate, sum,
      rolled]

theorem roll_of_le (within : count ≤ stack.size) (shift : Int) :
    stack.roll count shift = .ok (stack.rolled count shift) := by
  have fits : ¬ ((count : Int) < 0 ∨ (stack.size : Int) < count) := by omega
  simp only [roll, if_neg fits, rolled, Int.toNat_natCast]
  rcases Nat.eq_zero_or_pos count with rfl | some
  · simp only [List.take_zero, List.drop_nil, List.take_nil, List.rotate_nil, List.append_nil]
  · have upper : (stack.entries.take count).length = count := List.length_take_of_le within
    have turn : (shift % count).toNat ≤ (stack.entries.take count).length := by
      have less := Int.emod_lt_of_pos shift (Int.natCast_pos.2 some)
      rw [upper]
      omega
    rw [List.rotate_eq_drop_append_take turn]

theorem roll_of_outside {count : Int} (outside : count < 0 ∨ (stack.size : Int) < count)
    (shift : Int) : stack.roll count shift = .error (.invalidOperand .roll) :=
  if_pos outside

end OperandStack

end Type2Glyphs
