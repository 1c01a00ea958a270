import Type2Glyphs.Fault

/-!
# FontDictSelect — which font DICT a glyph uses

A font whose glyphs share several sets of subroutines and widths has a table that gives each glyph
the number of its font DICT.  The table is either a list with one number per glyph, or a list of
ranges: each range starts at its first glyph and ends before the next range, and the last one ends
before the sentinel.

* `FontDictSelect.parse` reads a table;
* `FontDictSelect.fontDict?` looks a glyph up, by bisection among ranges;
* `FontDictSelect.listTable` and `FontDictSelect.rangeTable` write the two forms.
-/

namespace Type2Glyphs

/-- Glyphs from `first` on that use the font DICT with the number `fontDict`. -/
structure FontDictRange where
  first : Nat
  fontDict : Nat
  deriving DecidableEq, Inhabited

/-- The table that selects a font DICT for each glyph. -/
inductive FontDictSelect
  | perGlyph (fontDicts : Bytes)
  | byRange (ranges : Array FontDictRange) (sentinel : Nat)
  deriving DecidableEq, Inhabited

namespace FontDictSelect

/-! ## Reading -/

/-- The ranges that consecutive groups of three bytes spell. -/
def readRanges (bytes : Bytes) : Array FontDictRange :=
  go #[] bytes
where
  go (ranges : Array FontDictRange) : Bytes → Array FontDictRange
    | high :: low :: fontDict :: bytes =>
        go (ranges.push ⟨Bytes.bigEndian [high, low], fontDict.toNat⟩) bytes
    | _ => ranges

/-- Reads the table of a font with the given number of glyphs. -/
def parse (bytes : Bytes) (glyphCount : Nat) : Except FontDataFault FontDictSelect := do
  let (format, bytes) ← FontDataFault.demand (bytes.uint? 1)
  if format = 0 then
    let (fontDicts, _) ← FontDataFault.demand (bytes.split? glyphCount)
    return .perGlyph fontDicts
  else if format = 3 then
    let (count, bytes) ← FontDataFault.demand (bytes.uint? 2)
    let (ranges, bytes) ← FontDataFault.demand (bytes.split? (count * 3))
    let (sentinel, _) ← FontDataFault.demand (bytes.uint? 2)
    return .byRange (readRanges ranges) sentinel
  else
    throw (.unsupportedSelectFormat format)

/-! ## Looking up -/

/-- The number of ranges in front of the bisection point: the one before it starts at or before the
glyph, and the one after it does not. -/
def bisect (ranges : Array FontDictRange) (glyph low high : Nat) : Nat :=
  if low < high then
    let middle := (low + high) / 2
    if (ranges.getD middle default).first ≤ glyph then
      bisect ranges glyph (middle + 1) high
    else
      bisect ranges glyph low middle
  else
    low
termination_by high - low

/-- The number of the font DICT of a glyph, if the table covers it. -/
def fontDict? (table : FontDictSelect) (glyph : GlyphId) : Option Nat :=
  match table with
  | .perGlyph fontDicts => fontDicts[glyph.number]?.map UInt8.toNat
  | .byRange ranges sentinel =>
      if sentinel ≤ glyph.number then
        none
      else
        match bisect ranges glyph.number 0 ranges.size with
        | 0 => none
        | before + 1 => ranges[before]?.map FontDictRange.fontDict

/-! ## Writing -/

/-- The table with one number per glyph. -/
def listTable (fontDicts : Bytes) : Bytes :=
  0 :: fontDicts

/-- The table of the given ranges. -/
def rangeTable (ranges : List FontDictRange) (sentinel : Nat) : Bytes :=
  3 :: (Bytes.ofNat 2 ranges.length ++
    ranges.flatMap (fun range => Bytes.ofNat 2 range.first ++ Bytes.ofNat 1 range.fontDict) ++
    Bytes.ofNat 2 sentinel)

end FontDictSelect

end Type2Glyphs
