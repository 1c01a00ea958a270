import Type2Glyphs.Operator
import Type2Glyphs.Geometry

/-!
# Segment — what path operators draw

Every path operator stands for a row of lines and cubic curves, given by displacements from point to
point.  `PathOp.segments` reads that row from the operands, for the numbers of operands that
`PathOp.checkCount` accepts; see `Type2Glyphs.Charstring.Operands`.

The short forms leave out displacements that are zero: `hlineto` and `vlineto` alternate between the
two axes, and the curves of `hhcurveto`, `vvcurveto`, `hvcurveto` and `vhcurveto` start or end along
an axis.  The flex operators draw two curves and leave out what makes the last point line up with
the first one.
-/

namespace Type2Glyphs

/-- A line or a cubic curve, by the displacements from each of its points to the next. -/
inductive Segment
  | line (d : Point)
  | curve (d₁ d₂ d₃ : Point)
  deriving DecidableEq

/-! ## Rows of segments -/

namespace Segment

/-- The displacement with the given parts along an axis and across it. -/
def oriented (horizontal : Bool) (along across : Fixed) : Point :=
  if horizontal then ⟨along, across⟩ else ⟨across, along⟩

/-- Lines from pairs of operands. -/
def lines : List Fixed → List Segment
  | dx :: dy :: rest => .line ⟨dx, dy⟩ :: lines rest
  | _ => []

/-- Lines along alternating axes, from one operand each. -/
def alternatingLines (horizontal : Bool) : List Fixed → List Segment
  | d :: rest => .line (oriented horizontal d 0) :: alternatingLines (!horizontal) rest
  | [] => []

/-- Curves from groups of six operands, and a line from two that are left over. -/
def curvesAndLine : List Fixed → List Segment
  | dx₁ :: dy₁ :: dx₂ :: dy₂ :: dx₃ :: dy₃ :: rest =>
      .curve ⟨dx₁, dy₁⟩ ⟨dx₂, dy₂⟩ ⟨dx₃, dy₃⟩ :: curvesAndLine rest
  | [dx, dy] => [.line ⟨dx, dy⟩]
  | _ => []

/-- Lines from pairs of operands, and a curve from the last six. -/
def linesAndCurve : List Fixed → List Segment
  | [dx₁, dy₁, dx₂, dy₂, dx₃, dy₃] => [.curve ⟨dx₁, dy₁⟩ ⟨dx₂, dy₂⟩ ⟨dx₃, dy₃⟩]
  | dx :: dy :: rest => .line ⟨dx, dy⟩ :: linesAndCurve rest
  | _ => []

/-- Curves that start and end along the same axis, from groups of four operands.  The first curve
may be given a displacement across the axis at its start. -/
def parallelCurves (horizontal : Bool) (across : Fixed) : List Fixed → List Segment
  | d₁ :: dx₂ :: dy₂ :: d₃ :: rest =>
      .curve (oriented horizontal d₁ across) ⟨dx₂, dy₂⟩ (oriented horizontal d₃ 0) ::
        parallelCurves horizontal 0 rest
  | _ => []

/-- Curves along an axis, where an odd operand in front is the displacement across it. -/
def axisCurves (horizontal : Bool) (operands : List Fixed) : List Segment :=
  match operands with
  | across :: rest =>
      if operands.length % 2 = 1 then
        parallelCurves horizontal across rest
      else
        parallelCurves horizontal 0 operands
  | [] => []

/-- Curves that start along one axis and end along the other, by turns.  The last one may be given a
displacement that turns its end away from the axis. -/
def alternatingCurves (horizontal : Bool) : List Fixed → List Segment
  | [d₁, dx₂, dy₂, d₃, last] =>
      [.curve (oriented horizontal d₁ 0) ⟨dx₂, dy₂⟩ (oriented (!horizontal) d₃ last)]
  | d₁ :: dx₂ :: dy₂ :: d₃ :: rest =>
      .curve (oriented horizontal d₁ 0) ⟨dx₂, dy₂⟩ (oriented (!horizontal) d₃ 0) ::
        alternatingCurves (!horizontal) rest
  | _ => []

/-- Two curves that end at the height where they start, with the join level. -/
def levelFlex : List Fixed → List Segment
  | [dx₁, dx₂, dy₂, dx₃, dx₄, dx₅, dx₆] =>
      -- the second curve takes back the height of the first one
      [.curve ⟨dx₁, 0⟩ ⟨dx₂, dy₂⟩ ⟨dx₃, 0⟩, .curve ⟨dx₄, 0⟩ ⟨dx₅, -dy₂⟩ ⟨dx₆, 0⟩]
  | _ => []

/-- Two curves that end at the height where they start. -/
def levelEndFlex : List Fixed → List Segment
  | [dx₁, dy₁, dx₂, dy₂, dx₃, dx₄, dx₅, dy₅, dx₆] =>
      [.curve ⟨dx₁, dy₁⟩ ⟨dx₂, dy₂⟩ ⟨dx₃, 0⟩,
       .curve ⟨dx₄, 0⟩ ⟨dx₅, dy₅⟩ ⟨dx₆, -(dy₁ + dy₂ + dy₅)⟩]
  | _ => []

/-- Two curves that end level with their start: at its height if the way to the last operand is
longer in the horizontal direction, and else straight above or below it. -/
def levelAxisFlex : List Fixed → List Segment
  | [dx₁, dy₁, dx₂, dy₂, dx₃, dy₃, dx₄, dy₄, dx₅, dy₅, d₆] =>
      let dx := dx₁ + dx₂ + dx₃ + dx₄ + dx₅
      let dy := dy₁ + dy₂ + dy₃ + dy₄ + dy₅
      let last : Point := if dy.raw.natAbs < dx.raw.natAbs then ⟨d₆, -dy⟩ else ⟨-dx, d₆⟩
      [.curve ⟨dx₁, dy₁⟩ ⟨dx₂, dy₂⟩ ⟨dx₃, dy₃⟩, .curve ⟨dx₄, dy₄⟩ ⟨dx₅, dy₅⟩ last]
  | _ => []

end Segment

/-- The segments that a path operator draws, for a number of operands that it accepts.  The last
operand of `flex` does not matter. -/
def PathOp.segments (op : PathOp) (operands : List Fixed) : List Segment :=
  match op with
  | .rlineto => Segment.lines operands
  | .hlineto => Segment.alternatingLines true operands
  | .vlineto => Segment.alternatingLines false operands
  | .rrcurveto => Segment.curvesAndLine operands
  | .rcurveline => Segment.curvesAndLine operands
  | .rlinecurve => Segment.linesAndCurve operands
  | .vvcurveto => Segment.axisCurves false operands
  | .hhcurveto => Segment.axisCurves true operands
  | .vhcurveto => Segment.alternatingCurves false operands
  | .hvcurveto => Segment.alternatingCurves true operands
  | .hflex => Segment.levelFlex operands
  | .flex => Segment.curvesAndLine operands
  | .hflex1 => Segment.levelEndFlex operands
  | .flex1 => Segment.levelAxisFlex operands

end Type2Glyphs
