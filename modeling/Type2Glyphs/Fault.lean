import Type2Glyphs.Operator
import Type2Glyphs.GlyphId

/-!
# Fault — why loading a glyph fails

One type per place where something can be wrong: the font's tables, the structure of a glyph
program, its operand stack, and the hint hook.  `LoadError` gathers them.  Every type has its
wording in one function `message`.
-/

namespace Type2Glyphs

/-! ## Font tables -/

/-- What can be wrong with the tables that locate glyph programs. -/
inductive FontDataFault
  | outOfBounds
  | invalidOffsetSize (size : Nat)
  | zeroOffset
  | unorderedOffsets (object : Nat)
  | unsupportedSelectFormat (format : Nat)
  | missingFontDict (glyph : GlyphId)
  | invalidFontDictIndex (index : Nat)
  deriving DecidableEq

/-- The wording of a fault in the tables. -/
def FontDataFault.message : FontDataFault → String
  | .outOfBounds => "read out of bounds"
  | .invalidOffsetSize size => s!"invalid offset size of {size} for INDEX (expected 1-4)"
  | .zeroOffset => "invalid offset of 0 in INDEX (must be >= 1)"
  | .unorderedOffsets object => s!"offsets for INDEX object {object} are not in ascending order"
  | .unsupportedSelectFormat format => s!"unsupported FDSelect format {format}"
  | .missingFontDict glyph => s!"FDSelect has no font DICT for glyph {glyph.text}"
  | .invalidFontDictIndex index => s!"font DICT index {index} is out of range"

/-- What a read gives that must succeed: reading past the end is out of bounds. -/
def FontDataFault.demand {α : Type} : Option α → Except FontDataFault α
  | some value => .ok value
  | none => .error .outOfBounds

/-! ## Glyph programs -/

/-- What can be wrong with the structure of a glyph program. -/
inductive CharstringFault
  | invalidOperator (code : UInt8)
  | invalidEscapeOperator (code : UInt8)
  | unexpectedEnd
  | unterminated
  | operandCount (op : Operator)
  | missingSubroutines
  | invalidSubroutine (index : Int)
  | noOpenContour
  | invalidAccentCode (code : Int)
  deriving DecidableEq

/-- The wording of a fault in a glyph program. -/
def CharstringFault.message : CharstringFault → String
  | .invalidOperator code => s!"invalid charstring operator {code.toNat}"
  | .invalidEscapeOperator code => s!"invalid charstring operator 12 {code.toNat}"
  | .unexpectedEnd => "unexpected end of charstring data"
  | .unterminated => "charstring ended without endchar"
  | .operandCount op => s!"wrong number of operands for {op.name}"
  | .missingSubroutines => "callsubr used without a local subroutine INDEX"
  | .invalidSubroutine index => s!"subroutine index {index} is out of range"
  | .noOpenContour => "point added with no open contour"
  | .invalidAccentCode code => s!"accent composition code {code} does not map to a glyph"

/-! ## The operand stack -/

/-- What can go wrong on the operand stack and in arithmetic. -/
inductive StackFault
  | overflow
  | underflow
  | divideByZero
  | invalidTransientIndex (index : Int)
  | invalidOperand (op : StackOp)
  deriving DecidableEq

/-- The wording of a fault on the stack. -/
def StackFault.message : StackFault → String
  | .overflow => "stack overflow"
  | .underflow => "stack underflow"
  | .divideByZero => "division by zero"
  | .invalidTransientIndex index => s!"transient array index {index} is out of range"
  | .invalidOperand op => s!"invalid operand for {op.name}"

/-! ## The hint hook -/

/-- How a hint hook fails: an advisory failure ends hinting, a fatal one ends the load. -/
inductive HintFailure
  | advisory (reason : String)
  | fatal (reason : String)
  deriving DecidableEq

/-- The wording of a hint failure, which is the hook’s own. -/
def HintFailure.message : HintFailure → String
  | .advisory reason => reason
  | .fatal reason => reason

/-! ## Loading -/

/-- Why a glyph cannot be loaded. -/
inductive LoadError
  | glyphOutOfRange (glyph : GlyphId)
  | fontData (fault : FontDataFault)
  | charstring (fault : CharstringFault)
  | stack (fault : StackFault)
  | nestingTooDeep (limit : Nat)
  | outOfMemory
  | hinting (failure : HintFailure)
  deriving DecidableEq

/-- The wording of a load error: where it arose, and what was wrong there. -/
def LoadError.message : LoadError → String
  | .glyphOutOfRange glyph => s!"glyph {glyph.text} is out of range"
  | .fontData fault => s!"invalid font data: {fault.message}"
  | .charstring fault => s!"malformed charstring: {fault.message}"
  | .stack fault => s!"operand stack fault: {fault.message}"
  | .nestingTooDeep limit => s!"nesting depth limit ({limit}) exceeded"
  | .outOfMemory => "exceeded memory limits while building the outline"
  | .hinting failure => s!"hinting failed: {failure.message}"

end Type2Glyphs
