import Type2Glyphs.Fixed

/-!
# FloatingPoint — IEEE 754 forms of 16.16 numbers

Path elements carry coordinates in binary32, and a charstring can be written from binary64 numbers.
Both formats are handled as bit patterns, so every rounding below is exact integer arithmetic:

* `Fixed.toSingle` rounds to the nearest binary32 number, a tie to the even significand;
* `Single.widen` is the binary64 number of the same value;
* `Fixed.ofDouble` rounds a binary64 number to the nearest 16.16 number.
-/

namespace Type2Glyphs

/-! ## From 16.16 to binary32 -/

/-- The quotient `m / d` rounded to nearest, a tie to the even neighbour. -/
def divToEven (m d : Nat) : Nat :=
  let q := m / d
  let twice := 2 * (m % d)
  if d < twice ∨ d = twice ∧ q % 2 = 1 then q + 1 else q

/-- A binary32 number: its sign, and the 31 bits of exponent and fraction read as one integer. -/
structure Single where
  negative : Bool
  magnitude : Nat
  deriving DecidableEq, Inhabited

/-- The nearest binary32 number.  With the leading bit of the count at position `top`, the
significand has 24 bits and the biased exponent is `top + 111`; a significand that rounds up to
25 bits carries into the exponent by itself. -/
def Fixed.toSingle (a : Fixed) : Single :=
  let m := a.raw.natAbs
  if m = 0 then
    ⟨false, 0⟩
  else
    let top := m.log2
    let significand := if top ≤ 23 then m <<< (23 - top) else divToEven m (1 <<< (top - 23))
    ⟨a.raw < 0, ((top + 110) <<< 23) + significand⟩

namespace Single

/-- The 32 bits of the number. -/
def bits (s : Single) : Nat :=
  (if s.negative then 1 <<< 31 else 0) + s.magnitude

/-- The 64 bits of the binary64 number of the same value, for a number that is zero or normal.
The exponent is biased by 896 more and the fraction has 29 bits more. -/
def widen (s : Single) : Nat :=
  (if s.negative then 1 <<< 63 else 0) +
    if s.magnitude = 0 then 0 else (896 <<< 52) + (s.magnitude <<< 29)

end Single

/-! ## From binary64 to 16.16 -/

/-- The number of the given sign whose count is nearest to `m * 2 ^ (e - 1059)`, a half going away
from zero, and clamped to the range of 32 bits. -/
def Fixed.ofScaled (negative : Bool) (m e : Nat) : Fixed :=
  let count := if 1059 ≤ e then m <<< (e - 1059) else (m + (1 <<< (1058 - e))) >>> (1059 - e)
  if negative then
    .ofRaw (-(min count 2147483648 : Nat))
  else
    .ofRaw (min count 2147483647 : Nat)

/-- The 16.16 number nearest to the binary64 number with the given bits, a half going away from
zero.  Numbers out of range give the nearest end of it, and what is not a number gives zero. -/
def Fixed.ofDouble (bits : UInt64) : Fixed :=
  let negative := bits.toNat >>> 63 = 1
  let exponent := (bits.toNat >>> 52) % 2048
  let fraction := bits.toNat % (1 <<< 52)
  if exponent = 2047 ∧ fraction ≠ 0 then
    0
  else if exponent = 0 then
    .ofScaled negative fraction 1
  else
    .ofScaled negative ((1 <<< 52) + fraction) exponent

end Type2Glyphs
