import Mathlib.Algebra.Group.Nat.Even
import Type2Glyphs.Fixed.SquareRoot

/-!
# RootBounds — the rounded-down root is the root

`floorRoot` lies between the root and the root less one: its square is not above the number
(`floorRoot_le`), and the square of the next integer is (`lt_floorRoot_succ`).
-/

namespace Type2Glyphs

theorem floorRoot_le (digits n : Nat) :
    floorRoot digits n * floorRoot digits n ≤ n := by
  induction digits generalizing n with
  | zero => simp [floorRoot]
  | succ digits ih =>
      simp only [floorRoot]
      split
      · assumption
      · have h := ih (n / 4)
        have : 2 * floorRoot digits (n / 4) * (2 * floorRoot digits (n / 4)) =
            4 * (floorRoot digits (n / 4) * floorRoot digits (n / 4)) := by
          rw [Nat.mul_mul_mul_comm]
        omega

theorem lt_floorRoot_succ {digits n : Nat} (small : n < 4 ^ digits) :
    n < (floorRoot digits n + 1) * (floorRoot digits n + 1) := by
  induction digits generalizing n with
  | zero =>
      have : n = 0 := by simpa using small
      simp [floorRoot, this]
  | succ digits ih =>
      have quarter : n / 4 < 4 ^ digits := by
        rw [Nat.pow_succ] at small
        omega
      have h := ih quarter
      simp only [floorRoot]
      generalize floorRoot digits (n / 4) = r at h ⊢
      have square : (2 * r + 2) * (2 * r + 2) = 4 * ((r + 1) * (r + 1)) := by
        have : 2 * r + 2 = 2 * (r + 1) := by omega
        rw [this, Nat.mul_mul_mul_comm]
      split
      · have : 2 * r + 1 + 1 = 2 * r + 2 := by omega
        rw [this, square]
        omega
      · omega

end Type2Glyphs
