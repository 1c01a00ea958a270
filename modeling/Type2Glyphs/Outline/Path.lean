import Type2Glyphs.Outline.Basic

/-!
# Path — drawing an outline

A contour is drawn as one closed path: it starts at a point on the curve, two points on the curve in
a row are joined by a line, a cubic curve has two control points, and a quadratic curve has one.
Between two quadratic control points lies an implied point on the curve, halfway between them.

A contour that starts with a quadratic control point is drawn from its last point, if that is on the
curve, or else from the point implied between the last one and the first one.

* `Contour.draw` draws one contour, `Outline.draw` all of them one after the other;
* what was drawn before an ill-formed contour was found stays drawn, so a `Drawing` has both
  elements and a fault.
-/

namespace Type2Glyphs

/-! ## Paths -/

/-- One step of a path, with coordinates of any type. -/
inductive PathElement (coordinate : Type)
  | moveTo (x y : coordinate)
  | lineTo (x y : coordinate)
  | quadTo (cx cy x y : coordinate)
  | curveTo (cx₀ cy₀ cx₁ cy₁ x y : coordinate)
  | close
  deriving DecidableEq

/-- The same step with each coordinate converted. -/
def PathElement.map {α β : Type} (f : α → β) : PathElement α → PathElement β
  | .moveTo x y => .moveTo (f x) (f y)
  | .lineTo x y => .lineTo (f x) (f y)
  | .quadTo cx cy x y => .quadTo (f cx) (f cy) (f x) (f y)
  | .curveTo cx₀ cy₀ cx₁ cy₁ x y => .curveTo (f cx₀) (f cy₀) (f cx₁) (f cy₁) (f x) (f y)
  | .close => .close

/-- What makes a contour ill-formed, with the index of the point in the outline. -/
inductive PathFault
  | expectedQuad (index : Nat)
  | expectedQuadOrOnCurve (index : Nat)
  | expectedCubic (index : Nat)
  deriving DecidableEq

/-- The wording of a fault. -/
def PathFault.message : PathFault → String
  | .expectedQuad index => s!"expected quadratic off-curve point at index {index}"
  | .expectedQuadOrOnCurve index =>
      s!"expected quadratic off-curve or on-curve point at index {index}"
  | .expectedCubic index => s!"expected cubic off-curve point at index {index}"

/-- A path, or the part of a path that was drawn before a fault was found. -/
structure Drawing where
  elements : List (PathElement Fixed)
  fault : Option PathFault
  deriving DecidableEq

namespace Drawing

/-- Nothing drawn yet. -/
def blank : Drawing :=
  ⟨[], none⟩

/-- Nothing drawn because of a fault. -/
def failed (fault : PathFault) : Drawing :=
  ⟨[], some fault⟩

/-- The drawing with one element in front. -/
def cons (element : PathElement Fixed) (drawing : Drawing) : Drawing :=
  { drawing with elements := element :: drawing.elements }

/-- One drawing after another, unless the first one has a fault. -/
def append (first second : Drawing) : Drawing :=
  match first.fault with
  | some _ => first
  | none => ⟨first.elements ++ second.elements, second.fault⟩

/-- The whole path, or what is wrong with it. -/
def result (drawing : Drawing) : Except PathFault (List (PathElement Fixed)) :=
  match drawing.fault with
  | some fault => .error fault
  | none => .ok drawing.elements

end Drawing

/-! ## Elements between points -/

namespace Point

/-- The start of a path at `p`. -/
def moveTo (p : Point) : PathElement Fixed :=
  .moveTo p.x p.y

/-- A line to `p`. -/
def lineTo (p : Point) : PathElement Fixed :=
  .lineTo p.x p.y

/-- A quadratic curve to `p` with the control point `c`. -/
def quadTo (c p : Point) : PathElement Fixed :=
  .quadTo c.x c.y p.x p.y

/-- A cubic curve to `p` with the control points `c₀` and `c₁`. -/
def curveTo (c₀ c₁ p : Point) : PathElement Fixed :=
  .curveTo c₀.x c₀.y c₁.x c₁.y p.x p.y

end Point

/-! ## Contours -/

namespace Contour

/-- Draws the given points, of which the first has the number `index`, and closes the path at
`start`. -/
def drawFrom (start : Point) (index : Nat) : Contour → Drawing
  | [] => .cons .close .blank
  | p :: rest =>
      if p.tag.onCurve then
        .cons p.position.lineTo (drawFrom start (index + 1) rest)
      else if p.tag.cubic then
        match rest with
        | [] => .failed (.expectedCubic (index + 1))
        | q :: rest =>
            if q.tag.cubic then
              match rest with
              -- a curve without an end goes back to the start
              | [] => .cons (p.position.curveTo q.position start) (.cons .close .blank)
              | r :: rest =>
                  .cons (p.position.curveTo q.position r.position)
                    (drawFrom start (index + 3) rest)
            else
              .failed (.expectedCubic (index + 1))
      else
        match rest with
        | [] => .cons (p.position.quadTo start) (.cons .close .blank)
        | q :: rest =>
            if q.tag.onCurve then
              .cons (p.position.quadTo q.position) (drawFrom start (index + 2) rest)
            else if q.tag.cubic then
              .failed (.expectedQuad (index + 1))
            else
              .cons (p.position.quadTo (p.position.midpoint q.position))
                (drawFrom start (index + 1) (q :: rest))

/-- Draws a contour whose first point has the number `index`. -/
def draw (index : Nat) (contour : Contour) : Drawing :=
  match contour with
  | [] => .blank
  | first :: rest =>
      let last := (first :: rest).getLast (List.cons_ne_nil first rest)
      if first.tag.onCurve then
        .cons first.position.moveTo (drawFrom first.position (index + 1) rest)
      else if first.tag.cubic then
        .failed (.expectedQuadOrOnCurve index)
      else if last.tag.onCurve then
        .cons last.position.moveTo
          (drawFrom last.position index (first :: rest).dropLast)
      else
        let start := first.position.midpoint last.position
        .cons start.moveTo (drawFrom start index (first :: rest))

end Contour

/-! ## Outlines -/

namespace Outline

/-- Draws contours one after the other; the first point has the number `index`. -/
def drawContours (index : Nat) : List Contour → Drawing
  | [] => .blank
  | contour :: contours =>
      (contour.draw index).append (drawContours (index + contour.length) contours)

/-- Draws the outline. -/
def draw (outline : Outline) : Drawing :=
  drawContours 0 outline.contours

/-- The whole outline as a path, or what is wrong with it. -/
def path (outline : Outline) : Except PathFault (List (PathElement Fixed)) :=
  outline.draw.result

end Outline

end Type2Glyphs
