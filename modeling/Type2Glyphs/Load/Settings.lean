import Type2Glyphs.Fixed

/-!
# Settings — how a glyph is to be loaded

`LoadFlags` is a set of five switches, stored elsewhere as the bits of a number.  `LoadSettings`
adds a scale factor, the limit of nesting and the seed of the random numbers.
-/

namespace Type2Glyphs

/-! ## Flags -/

/-- Switches for loading a glyph. -/
structure LoadFlags where
  /-- Leave all measures in font units. -/
  noScale : Bool := false
  /-- Leave the hint hook alone. -/
  noHinting : Bool := false
  /-- List the components of an accented glyph and do not draw them. -/
  noRecurse : Bool := false
  /-- Keep no points; this also leaves the hint hook alone. -/
  metricsOnly : Bool := false
  /-- Add measures for vertical layout. -/
  verticalLayout : Bool := false
  deriving DecidableEq, Inhabited

namespace LoadFlags

/-- The flags as a list, in the order of their bits. -/
def toList (flags : LoadFlags) : List Bool :=
  [flags.noScale, flags.noHinting, flags.noRecurse, flags.metricsOnly, flags.verticalLayout]

/-- The flags in the five lowest bits of a number. -/
def ofBits (bits : Nat) : LoadFlags :=
  ⟨bits.testBit 0, bits.testBit 1, bits.testBit 2, bits.testBit 3, bits.testBit 4⟩

/-- The number whose bits are the flags. -/
def bits (flags : LoadFlags) : Nat :=
  flags.toList.foldr (fun flag bits => 2 * bits + if flag then 1 else 0) 0

/-- The flags that are in one set or the other. -/
def union (a b : LoadFlags) : LoadFlags :=
  ⟨a.noScale || b.noScale, a.noHinting || b.noHinting, a.noRecurse || b.noRecurse,
   a.metricsOnly || b.metricsOnly, a.verticalLayout || b.verticalLayout⟩

/-- Whether all flags of `b` are in `a`. -/
def contains (a b : LoadFlags) : Bool :=
  a.union b = a

/-- The names of the flags, in the order of their bits. -/
def names : List String :=
  ["NO_SCALE", "NO_HINTING", "NO_RECURSE", "METRICS_ONLY", "VERTICAL_LAYOUT"]

/-- The set as text: the names of its flags between braces. -/
def text (flags : LoadFlags) : String :=
  let present := (names.zip flags.toList).filterMap fun (name, flag) =>
    if flag then some name else none
  "\x7b" ++ ", ".intercalate present ++ "\x7d"

/-- A set of flags is read back from its bits. -/
theorem ofBits_bits (flags : LoadFlags) : ofBits flags.bits = flags := by
  rcases flags with ⟨_ | _, _ | _, _ | _, _ | _, _ | _⟩ <;> rfl

end LoadFlags

/-! ## Settings -/

/-- The greatest depth to which subroutines and components can be nested. -/
def maxNesting : Nat := 10

/-- Settings for loading a glyph. -/
structure LoadSettings where
  flags : LoadFlags := {}
  /-- What all measures are multiplied by. -/
  scale : Option Fixed := none
  depthLimit : Nat := maxNesting
  randomSeed : UInt32 := 0
  deriving DecidableEq, Inhabited

namespace LoadSettings

/-- The settings with a lower limit of nesting.  It cannot be raised above `maxNesting`. -/
def withDepthLimit (limit : Nat) (settings : LoadSettings) : LoadSettings :=
  { settings with depthLimit := min limit maxNesting }

theorem depthLimit_withDepthLimit (limit : Nat) (settings : LoadSettings) :
    (settings.withDepthLimit limit).depthLimit = min limit maxNesting :=
  rfl

/-- The factor that applies. -/
def factor (settings : LoadSettings) : Option Fixed :=
  if settings.flags.noScale then none else settings.scale

/-- Whether the hint hook is called. -/
def hinting (settings : LoadSettings) : Bool :=
  !settings.flags.noHinting && !settings.flags.metricsOnly

end LoadSettings

end Type2Glyphs
