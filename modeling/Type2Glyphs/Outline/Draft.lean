import Type2Glyphs.Fault
import Type2Glyphs.Outline.Basic

/-!
# Draft — an outline under construction

A glyph is drawn contour by contour into a `Draft`.  Points are added to the outline of the
component in progress, and are placed relative to its origin; `Draft.commit` appends that outline to
those of the components before it.

A draft can keep the measures of its points without the points: box and counts grow in the same way,
and the same limits hold.

Operations are `EStateM` programs, since a failed one can have done something: a contour that cannot
be started has closed the one before it.
-/

namespace Type2Glyphs

/-- The greatest number of points in one outline. -/
def maxPoints : Nat := 32767

/-- The greatest number of contours in one outline. -/
def maxContours : Nat := 32767

/-- An outline under construction. -/
structure Draft where
  /-- The components that are complete. -/
  base : Outline := .empty
  /-- The component in progress. -/
  current : Outline := .empty
  /-- Where the origin of the component in progress lies. -/
  origin : Point := 0
  /-- Whether a contour is open. -/
  isOpen : Bool := false
  box : Option Box := none
  /-- Whether points are kept, and not only measured. -/
  keepsPoints : Bool := true
  /-- Whether the components of an accented glyph are listed and not drawn. -/
  listsComponents : Bool := false
  leftBearing : Point := 0
  advance : Point := 0
  pointCount : Nat := 0
  contourCount : Nat := 0
  deriving DecidableEq, Inhabited

namespace Draft

/-- A program on a draft.  It leaves a draft behind also when it fails. -/
abbrev Program := EStateM LoadError Draft

/-! ## Points -/

/-- Checks that `n` more points fit. -/
def ensureCapacity (n : Nat) : Program Unit := do
  if maxPoints < (← get).pointCount + n then
    throw .outOfMemory

/-- The draft with one point more, at its final place. -/
def push (p : OutlinePoint) (draft : Draft) : Draft :=
  { draft with
    current :=
      if draft.keepsPoints then
        { draft.current with points := draft.current.points.push p }
      else
        draft.current
    pointCount := draft.pointCount + 1
    box := Box.extend draft.box p.position }

/-- The draft with one point more, given relative to its origin. -/
def add (p : Point) (tag : Tag) (draft : Draft) : Draft :=
  draft.push ⟨p + draft.origin, tag⟩

/-- Adds a point to the open contour. -/
def addPoint (p : Point) (tag : Tag) : Program Unit := do
  if !(← get).isOpen then
    throw (.charstring .noOpenContour)
  if maxPoints ≤ (← get).pointCount then
    throw .outOfMemory
  modify (add p tag)

/-- Adds a point on the curve. -/
def addOnCurve (p : Point) : Program Unit := do
  ensureCapacity 1
  addPoint p .on

/-- Adds the two control points of a cubic curve and its end. -/
def addCurve (c₁ c₂ p : Point) : Program Unit := do
  ensureCapacity 3
  addPoint c₁ .cubicControl
  addPoint c₂ .cubicControl
  addPoint p .on

/-! ## Contours -/

/-- The draft with no contour open. -/
def closeContour (draft : Draft) : Draft :=
  if !draft.isOpen then
    draft
  else
    { draft with
      isOpen := false
      current :=
        if draft.keepsPoints then
          { draft.current with ends := draft.current.ends.push (draft.current.points.size - 1) }
        else
          draft.current }

/-- The draft with a contour open that has no point yet. -/
def openContour (draft : Draft) : Draft :=
  { draft with isOpen := true, contourCount := draft.contourCount + 1 }

/-- Closes the open contour, if any, and starts one at the given point. -/
def startContour (p : Point) : Program Unit := do
  modify closeContour
  if maxContours ≤ (← get).contourCount then
    throw .outOfMemory
  ensureCapacity 1
  modify openContour
  addPoint p .on

/-! ## Components -/

/-- The draft with its current component complete. -/
def commit (draft : Draft) : Draft :=
  let draft := draft.closeContour
  if !draft.keepsPoints || draft.current.isEmpty then
    draft
  else if draft.base.isEmpty then
    -- the base is empty, so the two can be exchanged and nothing is copied
    { draft with base := draft.current, current := draft.base }
  else
    { draft with base := draft.base.append draft.current, current := .empty }

/-- The complete outline and the box around its points. -/
def finish (draft : Draft) : Outline × Option Box :=
  let draft := draft.commit
  (draft.base, draft.box)

end Draft

end Type2Glyphs
