/-!
# GlyphId — numbers of glyphs

A font numbers its glyphs from zero, and all tables refer to them by that number.
-/

namespace Type2Glyphs

/-- The number of a glyph in its font. -/
structure GlyphId where
  number : Nat
  deriving DecidableEq, Inhabited

/-- The glyph number as messages show it. -/
def GlyphId.text (glyph : GlyphId) : String :=
  s!"GID_{glyph.number}"

end Type2Glyphs
