import Type2Glyphs.Charstring.Evaluate
import Type2Glyphs.Load.Settings

/-!
# Glyph — loading a glyph

`Font.load` evaluates the program of a glyph and gives its outline and measures.  The outline passes
through the hint hook before everything is scaled.

The left side bearing is the left side of the box around the points, and for a glyph without points
what the glyph program says.  Measures for vertical layout center the glyph: on its advance from
left to right, and on the vertical advance from top to bottom.
-/

namespace Type2Glyphs

/-- Measures for vertical layout. -/
structure VerticalMetrics where
  /-- The way from the vertical origin to the upper left corner of the box. -/
  bearing : Point
  advance : Fixed
  deriving DecidableEq, Inhabited

/-- A glyph as it was loaded. -/
structure LoadedGlyph where
  outline : Outline
  /-- The components of an accented glyph, if they were listed and not drawn. -/
  components : List Component
  leftSideBearing : Point
  advance : Point
  box : Option Box
  vertical : Option VerticalMetrics
  deriving DecidableEq, Inhabited

/-- The outcome of loading a glyph, and the session as it was at the end. -/
structure LoadReport where
  result : Except LoadError LoadedGlyph
  session : Session

namespace LoadedGlyph

/-- Measures for vertical layout, made from those for horizontal layout. -/
def centered (leftSideBearing advance : Point) (box : Option Box) (verticalAdvance : Fixed) :
    VerticalMetrics :=
  let height := (box.map Box.height).getD 0
  ⟨⟨leftSideBearing.x - advance.x.half, (verticalAdvance - height).half⟩, verticalAdvance⟩

/-- The loaded glyph from what was drawn, in font units. -/
def assemble (settings : LoadSettings) (outline : Outline) (components : List Component)
    (leftBearing advance : Point) (box : Option Box) (verticalAdvance : Fixed) : LoadedGlyph :=
  let (outline, leftBearing, advance, box, verticalAdvance) :=
    match settings.factor with
    | none => (outline, leftBearing, advance, box, verticalAdvance)
    | some factor =>
        (outline.scale factor, leftBearing.scale factor, advance.scale factor,
          box.map (Box.scale factor), verticalAdvance * factor)
  let leftSideBearing : Point :=
    match box with
    | some box => ⟨box.xMin, 0⟩
    | none => leftBearing
  { outline, components, leftSideBearing, advance, box
    vertical :=
      if settings.flags.verticalLayout then
        some (centered leftSideBearing advance box verticalAdvance)
      else
        none }

end LoadedGlyph

namespace Eval

/-- Evaluates the program of the glyph to be loaded. -/
def drawGlyph (font : Font) (limit : Nat) (glyph : GlyphId) : Eval Unit :=
  withGlyph font glyph fun located => do
    callHook (.openGlyph glyph)
    runProgram (evaluate font limit limit) ⟨located.subfont, false, 0⟩ located.program

/-- Completes the outline and assembles the glyph. -/
def finishGlyph (font : Font) (settings : LoadSettings) : Eval LoadedGlyph := do
  let session ← get
  let (outline, box) := session.draft.finish
  let outline ← closeHook outline
  return .assemble settings outline session.components session.draft.leftBearing
    session.draft.advance box font.vertical

/-- Loads a glyph. -/
def loadGlyph (font : Font) (glyph : GlyphId) (settings : LoadSettings) : Eval LoadedGlyph := do
  drawGlyph font settings.depthLimit glyph
  finishGlyph font settings

end Eval

/-- The session in which loading a glyph starts. -/
def Session.initial (settings : LoadSettings) (hook : Option HintHook) : Session where
  draft :=
    { keepsPoints := !settings.flags.metricsOnly
      listsComponents := settings.flags.noRecurse }
  hook := if settings.hinting then hook else none
  random := settings.randomSeed

/-- Loads a glyph, and reports what happened on the way. -/
def Font.load (font : Font) (glyph : GlyphId) (settings : LoadSettings)
    (hook : Option HintHook) : LoadReport :=
  match Eval.loadGlyph font glyph settings (.initial settings hook) with
  | .ok loaded session => ⟨.ok loaded, session⟩
  | .error e session => ⟨.error e, session⟩

end Type2Glyphs
