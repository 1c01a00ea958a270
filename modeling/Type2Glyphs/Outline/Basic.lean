import Type2Glyphs.Geometry
import Type2Glyphs.Outline.Tag

/-!
# Outline — contours of tagged points

An `Outline` is a row of tagged points that is cut into contours.  The cuts are given by the index
of the last point of each contour; `Outline.contours` is the view in which an outline is a list of
lists of points.
-/

namespace Type2Glyphs

/-- A point of a contour with its tag. -/
structure OutlinePoint where
  position : Point
  tag : Tag
  deriving DecidableEq, Inhabited

/-- A closed contour. -/
abbrev Contour := List OutlinePoint

/-- An outline: its points, and the index of the last point of each contour. -/
structure Outline where
  points : Array OutlinePoint
  ends : Array Nat
  deriving DecidableEq, Inhabited

namespace OutlinePoint

/-- The point moved by a displacement. -/
def shift (offset : Point) (p : OutlinePoint) : OutlinePoint :=
  { p with position := p.position + offset }

/-- The point with both coordinates multiplied by `factor`. -/
def scale (factor : Fixed) (p : OutlinePoint) : OutlinePoint :=
  { p with position := p.position.scale factor }

end OutlinePoint

namespace Outline

/-- The outline without points. -/
def empty : Outline :=
  ⟨#[], #[]⟩

/-- Whether there are no points. -/
def isEmpty (outline : Outline) : Bool :=
  outline.points.isEmpty

/-- The contours that start at the point numbered `start` and have the given ends. -/
def contoursFrom (points : Array OutlinePoint) (start : Nat) : List Nat → List Contour
  | [] => []
  | last :: ends =>
      (points.extract start (last + 1)).toList :: contoursFrom points (last + 1) ends

/-- The contours of the outline. -/
def contours (outline : Outline) : List Contour :=
  contoursFrom outline.points 0 outline.ends.toList

/-- The smallest box around all points. -/
def controlBox (outline : Outline) : Option Box :=
  Box.around (outline.points.toList.map OutlinePoint.position)

/-- The outline moved by a displacement. -/
def shift (offset : Point) (outline : Outline) : Outline :=
  { outline with points := outline.points.map (.shift offset) }

/-- The outline with every coordinate multiplied by `factor`. -/
def scale (factor : Fixed) (outline : Outline) : Outline :=
  { outline with points := outline.points.map (.scale factor) }

/-- The outline followed by another one, whose ends count on from the points of the first. -/
def append (first second : Outline) : Outline :=
  ⟨first.points ++ second.points, first.ends ++ second.ends.map (· + first.points.size)⟩

end Outline

end Type2Glyphs
