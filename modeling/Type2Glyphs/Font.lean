import Type2Glyphs.Index
import Type2Glyphs.FontDictSelect
import Type2Glyphs.Fixed

/-!
# Font — the tables that glyphs are loaded from

A `Font` has a store of glyph programs, subroutines for all glyphs, and one or more subfonts with
subroutines and widths of their own.  It also says which glyph stands for a code of the standard
encoding, which is how accented glyphs name their components.

* `Font.locate` finds the program and the subfont of a glyph;
* `Font.accentGlyph?` finds the glyph of a code.
-/

namespace Type2Glyphs

/-! ## Stores of glyph programs -/

/-- Where glyph programs come from.  Fetching one can fail. -/
structure GlyphStore where
  count : Nat
  fetch : GlyphId → Except LoadError Bytes

namespace GlyphStore

/-- The glyph programs of an INDEX. -/
def ofIndex (index : Index) : GlyphStore where
  count := index.count
  fetch glyph := (index.get glyph.number).mapError .fontData

/-- The given glyph programs, of which some cannot be fetched. -/
def ofList (programs : List (Option Bytes)) : GlyphStore where
  count := programs.length
  fetch glyph :=
    match programs[glyph.number]? with
    | some (some program) => .ok program
    | _ => .error (.fontData .outOfBounds)

end GlyphStore

/-! ## Fonts -/

/-- Subroutines and widths that a group of glyphs shares. -/
structure Subfont where
  localSubrs : Option Index := none
  /-- The advance of a glyph whose program gives no width. -/
  defaultWidth : Fixed := 0
  /-- What the width in a program is added to. -/
  nominalWidth : Fixed := 0
  deriving DecidableEq, Inhabited

/-- The advance of a glyph whose program gives that width, or none. -/
def Subfont.advance (subfont : Subfont) : Option Fixed → Fixed
  | some width => subfont.nominalWidth + width
  | none => subfont.defaultWidth

/-- The tables of a font. -/
structure Font where
  glyphs : GlyphStore
  globalSubrs : Index
  subfonts : List Subfont
  /-- Which subfont a glyph uses; without it all glyphs use the first one. -/
  select : Option FontDictSelect := none
  /-- The glyphs of codes, where the last entry of a code counts. -/
  accentMap : Option (List (Nat × GlyphId)) := none
  unitsPerEm : Nat := 1000
  verticalAdvance : Option Fixed := none

/-- What is needed to evaluate a glyph. -/
structure LocatedGlyph where
  program : Bytes
  subfont : Subfont

namespace Font

/-- The advance for vertical layout, which is one em if the font does not say otherwise. -/
def vertical (font : Font) : Fixed :=
  font.verticalAdvance.getD (.ofInt font.unitsPerEm)

/-- The glyph of a code of the standard encoding.  A font that selects subfonts has no encoding, and
a font without a map has none either; there the code is the glyph's number. -/
def accentGlyph? (font : Font) (code : Int) : Option GlyphId :=
  if code < 0 ∨ 256 ≤ code then
    none
  else
    match font.select, font.accentMap with
    | none, some entries => entries.reverse.lookup code.toNat
    | _, _ => some ⟨code.toNat⟩

/-- The subfont of a glyph. -/
def subfont (font : Font) (glyph : GlyphId) : Except FontDataFault Subfont := do
  let number ←
    match font.select with
    | none => pure 0
    | some select =>
        match select.fontDict? glyph with
        | none => throw (.missingFontDict glyph)
        | some number => pure number
  match font.subfonts[number]? with
  | none => throw (.invalidFontDictIndex number)
  | some subfont => return subfont

/-- The program and the subfont of a glyph. -/
def locate (font : Font) (glyph : GlyphId) : Except LoadError LocatedGlyph := do
  if font.glyphs.count ≤ glyph.number then
    throw (.glyphOutOfRange glyph)
  let subfont ← (font.subfont glyph).mapError .fontData
  let program ← font.glyphs.fetch glyph
  return ⟨program, subfont⟩

end Font

end Type2Glyphs
