import Type2Glyphs.Fixed

/-!
# Geometry — points and boxes

Points of the plane with 16.16 coordinates, and the smallest upright box around a set of them.
`Box.extend` is the step by which a box grows around points that come one after the other; the box
around no point at all is `none`.
-/

namespace Type2Glyphs

/-! ## Points -/

/-- A point, or the displacement between two points. -/
structure Point where
  x : Fixed
  y : Fixed
  deriving DecidableEq, Inhabited

namespace Point

instance : OfNat Point 0 := ⟨⟨0, 0⟩⟩

instance : Add Point := ⟨fun p q => ⟨p.x + q.x, p.y + q.y⟩⟩

theorem add_def (p q : Point) : p + q = ⟨p.x + q.x, p.y + q.y⟩ :=
  rfl

theorem add_assoc (p q r : Point) : p + q + r = p + (q + r) := by
  simp only [add_def, Fixed.add_assoc]

theorem add_comm (p q : Point) : p + q = q + p := by
  rw [add_def, add_def, Fixed.add_comm p.x, Fixed.add_comm p.y]

@[simp] theorem add_zero (p : Point) : p + 0 = p := by
  show Point.mk (p.x + 0) (p.y + 0) = p
  rw [Fixed.add_zero, Fixed.add_zero]

@[simp] theorem zero_add (p : Point) : 0 + p = p := by
  rw [add_comm, add_zero]

/-- Displacements can be applied in any order. -/
theorem add_right_comm (p q r : Point) : p + q + r = p + r + q := by
  rw [add_assoc, add_comm q r, ← add_assoc]

/-- The point with both coordinates multiplied by `factor`. -/
def scale (factor : Fixed) (p : Point) : Point :=
  ⟨p.x * factor, p.y * factor⟩

/-- The point halfway between two others, each coordinate rounded down. -/
def midpoint (p q : Point) : Point :=
  ⟨p.x.midpoint q.x, p.y.midpoint q.y⟩

end Point

/-! ## Boxes -/

/-- An upright box, given by the least and the greatest coordinates. -/
structure Box where
  xMin : Fixed
  yMin : Fixed
  xMax : Fixed
  yMax : Fixed
  deriving DecidableEq, Inhabited

namespace Box

/-- The box that holds one point only. -/
def ofPoint (p : Point) : Box :=
  ⟨p.x, p.y, p.x, p.y⟩

/-- The smallest box that holds `b` and `p`. -/
def insert (b : Box) (p : Point) : Box :=
  ⟨min b.xMin p.x, min b.yMin p.y, max b.xMax p.x, max b.yMax p.y⟩

/-- The box around one point more. -/
def extend : Option Box → Point → Option Box
  | none, p => some (ofPoint p)
  | some b, p => some (b.insert p)

/-- The smallest box around the given points, if there are any. -/
def around (points : List Point) : Option Box :=
  points.foldl extend none

/-- Points can be added one by one. -/
theorem around_append (points more : List Point) :
    around (points ++ more) = more.foldl extend (around points) := by
  simp [around]

/-- The box with its four coordinates multiplied by `factor`.  A negative factor leaves them where
they are, so that the least coordinate is then the greater one. -/
def scale (factor : Fixed) (b : Box) : Box :=
  ⟨b.xMin * factor, b.yMin * factor, b.xMax * factor, b.yMax * factor⟩

/-- The distance from the lower to the upper side. -/
def height (b : Box) : Fixed :=
  b.yMax - b.yMin

end Box

end Type2Glyphs
