import Type2Glyphs.Charstring.Token
import Type2Glyphs.Charstring.Execute

/-!
# Evaluate — running glyph programs

A glyph program is evaluated token by token.  Operands are pushed; operators are executed.  An
operator can run another program one level deeper: a subroutine, which shares the machine, or the
components of an accented glyph, which get machines of their own.

The limit of nesting is a limit on the levels below: `evaluate` is given the number of levels that
are left, and with none left every operator that would need one fails.  So evaluation ends, whatever
the programs are.
-/

namespace Type2Glyphs

/-- What a glyph program belongs to: whose subroutines and widths it uses, whether it draws a
component, and how deeply it is nested. -/
structure Frame where
  subfont : Subfont
  isComponent : Bool
  depth : Nat

/-- How the evaluation of a program ends: it returns to its caller or it ends the glyph, and leaves
some bytes unread. -/
structure Ending where
  endsGlyph : Bool
  unread : Bytes
  deriving DecidableEq

/-- A way to evaluate the program of a frame. -/
abbrev Evaluator := Frame → Bytes → Eval Ending

/-- How a program goes on after an operator. -/
inductive Flow
  /-- With the next token, after so many bytes. -/
  | proceed (skip : Nat)
  | stop (endsGlyph : Bool)
  deriving DecidableEq

/-- An accented glyph: the codes of its components, and where the accent goes. -/
structure Accent where
  baseCode : Int32
  accentCode : Int32
  offset : Point
  deriving DecidableEq

namespace Eval

/-! ## Tokens -/

/-- Evaluates a program after its first `skip` bytes. -/
def evaluateAfter (execute : Operator → Bytes → Eval Flow) (depth : Nat) :
    (skip : Nat) → Bytes → Eval Ending
  | _, [] => return ⟨false, []⟩
  | skip + 1, _ :: rest => evaluateAfter execute depth skip rest
  | 0, code :: rest => do
      match ← lift ((Token.read code rest).mapError .charstring) with
      | (.operand value, used) =>
          changeStack (OperandStack.push value)
          evaluateAfter execute depth used rest
      | (.operator op, used) =>
          modify fun session => session.record (.operator depth op session.machine.stack)
          match ← execute op (rest.drop used) with
          | .proceed skip => evaluateAfter execute depth (used + skip) rest
          | .stop endsGlyph => return ⟨endsGlyph, rest.drop used⟩

/-- Bytes that are passed over can as well be dropped. -/
theorem evaluateAfter_drop (execute : Operator → Bytes → Eval Flow) (depth skip : Nat)
    (program : Bytes) :
    evaluateAfter execute depth skip program =
      evaluateAfter execute depth 0 (program.drop skip) := by
  induction program generalizing skip with
  | nil => simp [evaluateAfter]
  | cons code rest ih =>
      cases skip with
      | zero => rfl
      | succ skip => exact ih skip

/-! ## Whole glyphs -/

/-- Sets the advance of a glyph.  The width of a component does not count. -/
def setAdvance (frame : Frame) : Eval Unit := do
  if !frame.isComponent then
    let advance := frame.subfont.advance (← gets (·.machine.width))
    modify (.mapDraft fun draft => { draft with advance := ⟨advance, 0⟩ })

/-- Evaluates the program of a glyph or component, which has to end the glyph. -/
def runProgram (evaluate : Evaluator) (frame : Frame) (program : Bytes) : Eval Unit :=
  onFreshMachine do
    modify (.record .start)
    let ending ← evaluate frame program
    if !ending.endsGlyph then
      throw (.charstring .unterminated)
    setAdvance frame
    modify (.record .stop)

/-! ## Accented glyphs -/

/-- Draws a component at its place relative to `origin`. -/
def drawComponent (font : Font) (evaluate : Evaluator) (depth : Nat) (origin : Point)
    (component : Component) : Eval Unit := do
  callHook .clearHints
  modify (.mapDraft fun draft => { draft with origin := origin + component.offset })
  withGlyph font component.glyph fun located => do
    runProgram evaluate ⟨located.subfont, true, depth + 1⟩ located.program
    modify (.mapDraft Draft.commit)

/-- The glyph of a component's code. -/
def accentGlyph (font : Font) (code : Int32) : Except LoadError GlyphId :=
  match font.accentGlyph? code.toInt with
  | some glyph => .ok glyph
  | none => .error (.charstring (.invalidAccentCode code.toInt))

/-- Draws components one after the other, relative to the origin of what was drawn before. -/
def drawComponents (font : Font) (limit : Nat) (nested : Option Evaluator) (depth : Nat)
    (components : List Component) : Eval Unit := do
  match nested with
  | none => throw (.nestingTooDeep limit)
  | some evaluate =>
      modify (.mapDraft Draft.commit)
      let origin ← gets (·.draft.origin)
      andFinally (components.forM (drawComponent font evaluate depth origin))
        (.mapDraft fun draft => { draft with origin := origin })

/-- Draws the components of an accented glyph, or lists them if the draft does so. -/
def compose (font : Font) (limit : Nat) (nested : Option Evaluator) (depth : Nat)
    (accent : Accent) : Eval Unit := do
  let base ← lift (accentGlyph font accent.baseCode)
  let mark ← lift (accentGlyph font accent.accentCode)
  let components : List Component := [⟨base, 0⟩, ⟨mark, accent.offset⟩]
  -- listing needs no level below, so it is never too deep
  if ← gets (·.draft.listsComponents) then
    modify fun session => { session with components := session.components ++ components }
  else
    drawComponents font limit nested depth components

/-- Pops the operands that describe an accented glyph.  The accent's offset is counted from the left
bearing `bearing`. -/
def popAccent (bearing : Fixed) : Eval Accent := do
  let accentCode ← popOperand OperandStack.popInt
  let baseCode ← popOperand OperandStack.popInt
  let dy ← popOperand OperandStack.popFixed
  let dx ← popOperand OperandStack.popFixed
  return ⟨baseCode, accentCode, ⟨dx - bearing, dy⟩⟩

/-! ## Subroutines -/

/-- The number of a subroutine: the operand with the bias added, in 32 bits at most. -/
def subroutineNumber (subrs : Index) (operand : Int32) : Int :=
  min (operand.toInt + subrs.bias) 2147483647

/-- The body of a subroutine. -/
def subroutine (subrs : Index) (operand : Int32) : Except LoadError Bytes :=
  let number := subroutineNumber subrs operand
  if number < 0 ∨ (subrs.count : Int) ≤ number then
    .error (.charstring (.invalidSubroutine number))
  else
    (subrs.get number.toNat).mapError .fontData

/-- Calls the subroutine whose biased number is on top of the stack. -/
def call (subrs : Index) (limit : Nat) (nested : Option Evaluator) (frame : Frame) :
    Eval Flow := do
  let operand ← popOperand OperandStack.popInt
  let body ← lift (subroutine subrs operand)
  match nested with
  | none => throw (.nestingTooDeep limit)
  | some evaluate =>
      let ending ← evaluate { frame with depth := frame.depth + 1 } body
      -- a subroutine that ends the glyph ends all programs that led to it
      return if ending.endsGlyph then .stop true else .proceed 0

/-! ## Operators -/

/-- Ends the glyph.  Four operands describe an accented glyph. -/
def endchar (font : Font) (limit : Nat) (nested : Option Evaluator) (frame : Frame) :
    Eval Unit := do
  let operands ← takeOperands fun count => count = 1 ∨ count = 5
  modify (.mapDraft Draft.closeContour)
  if operands.length = 4 then
    compose font limit nested frame.depth (← popAccent 0)
  else if operands ≠ [] then
    throw (.charstring (.operandCount .endchar))
  clearStack

/-- Sets the left bearing of a glyph.  That of a component does not count. -/
def setLeftBearing (frame : Frame) (bearing : Fixed) : Eval Unit := do
  if !frame.isComponent then
    modify (.mapDraft fun draft => { draft with leftBearing := ⟨bearing, 0⟩ })

/-- Ends the glyph as an accented one whose left bearing is given. -/
def seac (font : Font) (limit : Nat) (nested : Option Evaluator) (frame : Frame) :
    Eval Unit := do
  modify (.mapMachine fun machine => { machine with widthSeen := true })
  let operands ← gets (·.machine.stack.operands)
  lift (Operator.seac.expectCount 5 operands.length)
  modify (.mapDraft Draft.closeContour)
  let bearing := operands.headD 0
  setLeftBearing frame bearing
  compose font limit nested frame.depth (← popAccent bearing)
  clearStack

/-- Executes an operator, with the bytes after it at hand. -/
def execute (font : Font) (limit : Nat) (nested : Option Evaluator) (frame : Frame)
    (op : Operator) (unread : Bytes) : Eval Flow := do
  match op with
  | .stem op => stem op; return .proceed 0
  | .mask op => return .proceed (← mask op unread)
  | .move op => move op; return .proceed 0
  | .path op => path op; return .proceed 0
  | .stack op => changeStack op.apply; return .proceed 0
  | .callsubr =>
      match frame.subfont.localSubrs with
      | none => throw (.charstring .missingSubroutines)
      | some subrs => call subrs limit nested frame
  | .callgsubr => call font.globalSubrs limit nested frame
  | .ret => return .stop false
  | .endchar => endchar font limit nested frame; return .stop true
  | .seac => seac font limit nested frame; return .stop true
  | .dotsection => clearStack; return .proceed 0
  | .put => put; return .proceed 0
  | .get => fetch; return .proceed 0
  | .random => random; return .proceed 0

/-- Evaluates a program whose operators can run others by `nested`. -/
def evaluateWith (font : Font) (limit : Nat) (nested : Option Evaluator) : Evaluator :=
  fun frame program =>
    evaluateAfter (execute font limit nested frame) frame.depth 0 program

/-- Evaluates a program with the given number of levels left below it. -/
def evaluate (font : Font) (limit : Nat) : (levels : Nat) → Evaluator
  | 0 => evaluateWith font limit none
  | levels + 1 => evaluateWith font limit (some (evaluate font limit levels))

/-- The evaluator of the programs one level down, if there are levels left. -/
def below (font : Font) (limit : Nat) : (levels : Nat) → Option Evaluator
  | 0 => none
  | levels + 1 => some (evaluate font limit levels)

theorem evaluate_eq (font : Font) (limit levels : Nat) :
    evaluate font limit levels = evaluateWith font limit (below font limit levels) := by
  cases levels <;> rfl

end Eval

end Type2Glyphs
