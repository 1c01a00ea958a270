import Type2Glyphs.Fault
import Type2Glyphs.Outline.Basic

/-!
# Hint — what a hint hook is told

Hints are not interpreted here.  Stems and masks are passed on to a `HintHook` as they stand in the
glyph program, between a call that opens the glyph and one that hands over its outline.

A hook may remember what it was told, so its answers are functions of all calls so far.
-/

namespace Type2Glyphs

/-- The direction of a stem. -/
inductive StemDirection
  | horizontal
  | vertical
  deriving DecidableEq

/-- The direction of the stems that an operator declares. -/
def StemOp.direction : StemOp → StemDirection
  | .hstem | .hstemhm => .horizontal
  | .vstem | .vstemhm => .vertical

/-- A call of a hint hook. -/
inductive HintCall
  /-- The glyph is about to be evaluated. -/
  | openGlyph (glyph : GlyphId)
  /-- Edges and widths of stems, as they stand on the operand stack. -/
  | stems (direction : StemDirection) (values : List Fixed)
  | hintMask (mask : Bytes)
  | counterMask (mask : Bytes)
  /-- A component follows, and hints so far do not apply to it. -/
  | clearHints
  /-- The outline is complete and may be changed. -/
  | close (outline : Outline)
  deriving DecidableEq

/-- The call that passes on a mask. -/
def MaskOp.call (mask : Bytes) : MaskOp → HintCall
  | .hintmask => .hintMask mask
  | .cntrmask => .counterMask mask

/-- A receiver of hints.  Both functions get the calls so far, the latest one first. -/
structure HintHook where
  /-- How the latest call fails, if it does. -/
  failure : List HintCall → Option HintFailure
  /-- What becomes of the outline in the latest call. -/
  adjust : List HintCall → Outline → Outline

/-- The hook that never fails and changes nothing. -/
def HintHook.silent : HintHook :=
  ⟨fun _ => none, fun _ outline => outline⟩

end Type2Glyphs
