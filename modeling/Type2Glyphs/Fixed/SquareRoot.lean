import Type2Glyphs.Fixed

/-!
# SquareRoot — nearest square roots of 16.16 numbers

The root of a number with count `c` has the count `√(65536 c)`.  It is found exactly: first the
root rounded down, digit by digit in base two, and then the nearer of its two neighbours.  A root
never lies halfway between two counts, so there is no tie to break.

* `floorRoot` is the root rounded down;
* `nearestRoot` is the root rounded to nearest.
-/

namespace Type2Glyphs

/-- The square root of `n`, rounded down, for `n` below `4 ^ digits`. -/
def floorRoot : (digits : Nat) → (n : Nat) → Nat
  | 0, _ => 0
  | digits + 1, n =>
      let low := 2 * floorRoot digits (n / 4)
      if (low + 1) * (low + 1) ≤ n then low + 1 else low

/-- The square root of `n`, rounded to nearest, for `n` below `4 ^ digits`. -/
def nearestRoot (digits n : Nat) : Nat :=
  let r := floorRoot digits n
  if n - r * r > r then r + 1 else r

/-- The square root of a number that is not negative, rounded to nearest.  Its count has at most
31 binary digits, so 24 binary digits of the root are enough. -/
def Fixed.sqrt (a : Fixed) : Fixed :=
  .ofRaw (nearestRoot 24 (a.raw.toNat * 65536))

end Type2Glyphs
