/-!
# Tag — how a point shapes its contour

A point lies on the curve or controls it, and a control point is quadratic or cubic.  In a tag byte
the lowest bit says "on the curve" and the highest bit "cubic"; a point with both bits counts as on
the curve wherever the two readings differ.
-/

namespace Type2Glyphs

/-- The tag of a point. -/
structure Tag where
  onCurve : Bool
  cubic : Bool
  deriving DecidableEq, Inhabited

namespace Tag

/-- A point on the curve. -/
def on : Tag := ⟨true, false⟩

/-- A control point of a quadratic curve. -/
def quadControl : Tag := ⟨false, false⟩

/-- A control point of a cubic curve. -/
def cubicControl : Tag := ⟨false, true⟩

/-- Whether neither bit is set. -/
def isQuadControl (tag : Tag) : Bool :=
  !tag.onCurve && !tag.cubic

/-- The tag in a byte, whose other bits are dropped. -/
def ofBits (bits : UInt8) : Tag :=
  ⟨bits.toNat % 2 = 1, 128 ≤ bits.toNat⟩

/-- The byte of a tag. -/
def bits (tag : Tag) : Nat :=
  (if tag.onCurve then 1 else 0) + if tag.cubic then 128 else 0

/-- A tag is read back from its byte. -/
theorem ofBits_bits (tag : Tag) : ofBits (.ofNat tag.bits) = tag := by
  rcases tag with ⟨_ | _, _ | _⟩ <;> rfl

end Tag

end Type2Glyphs
