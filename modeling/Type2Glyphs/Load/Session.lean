import Type2Glyphs.OperandStack
import Type2Glyphs.Outline.Draft
import Type2Glyphs.Hint
import Type2Glyphs.Font

/-!
# Session — the state of loading one glyph

All programs that run while a glyph is loaded share a `Session`: the draft of the outline, the hint
hook, the random numbers, and the state of the glyph program that is being evaluated.  They are
`EStateM` programs, so that what was done before a failure is kept.

A session also keeps two records, the latest entry first.  The journal lists what others can notice:
programs fetched and released, calls of the hint hook, and the end of hinting.  The trace lists the
operators that were evaluated and the random numbers that were drawn.

Programs on the draft take it out of the session while they run, so that its arrays have one owner
and grow in place; `mapDraft_eq` and `onDraft_apply` say that this makes no difference.
-/

namespace Type2Glyphs

/-! ## State of a glyph program -/

/-- The number of operands in the transient array. -/
abbrev transientSize : Nat := 32

/-- What a glyph program works on.  It is shared with its subroutines, but not with the components
of an accented glyph. -/
structure Machine where
  stack : OperandStack := .empty
  transient : Vector Operand transientSize := .replicate transientSize (.int 0)
  /-- The number of stems declared so far. -/
  stemCount : Nat := 0
  /-- Whether the operator that may have a width has been evaluated. -/
  widthSeen : Bool := false
  width : Option Fixed := none
  /-- The current point. -/
  position : Point := 0
  deriving DecidableEq, Inhabited

/-- A component of an accented glyph. -/
structure Component where
  glyph : GlyphId
  offset : Point
  deriving DecidableEq, Inhabited

/-! ## Records -/

/-- An entry of the journal. -/
inductive LoadEvent
  | fetched (glyph : GlyphId)
  | released (glyph : GlyphId)
  | hinted (call : HintCall)
  | hintingDisabled (reason : String)
  deriving DecidableEq

namespace LoadEvent

/-- The call of the hint hook, if the entry is one. -/
def call? : LoadEvent → Option HintCall
  | .hinted call => some call
  | _ => none

/-- The warning that goes with an entry. -/
def warning? : LoadEvent → Option String
  | .hintingDisabled reason => some s!"hinting disabled for this glyph: {reason}"
  | _ => none

end LoadEvent

/-- An entry of the trace. -/
inductive TraceEntry
  /-- The evaluation of a glyph or component starts. -/
  | start
  /-- An operator is evaluated, so deeply nested and on that stack. -/
  | operator (depth : Nat) (op : Operator) (stack : OperandStack)
  /-- A random number is drawn. -/
  | drawn (number : Fixed)
  /-- The evaluation of a glyph or component has ended. -/
  | stop
  deriving DecidableEq

/-! ## Sessions -/

/-- The state of loading one glyph. -/
structure Session where
  machine : Machine := {}
  draft : Draft := {}
  /-- The hint hook, for as long as it is called. -/
  hook : Option HintHook := none
  random : UInt32 := 0
  /-- The components of a glyph that were listed and not drawn. -/
  components : List Component := []
  journal : List LoadEvent := []
  trace : List TraceEntry := []

/-- A program on a session. -/
abbrev Eval := EStateM LoadError Session

namespace Session

/-- All calls of the hint hook, the latest one first. -/
def hintCalls (session : Session) : List HintCall :=
  session.journal.filterMap LoadEvent.call?

/-- The session with one entry more in its journal. -/
def note (event : LoadEvent) (session : Session) : Session :=
  { session with journal := event :: session.journal }

/-- The session with one entry more in its trace. -/
def record (entry : TraceEntry) (session : Session) : Session :=
  { session with trace := entry :: session.trace }

/-- The session with its machine changed. -/
def mapMachine (f : Machine → Machine) (session : Session) : Session :=
  { session with machine := f session.machine }

/-- The session with its draft changed. -/
def mapDraft (f : Draft → Draft) (session : Session) : Session :=
  let draft := session.draft
  let session := { session with draft := {} }
  { session with draft := f draft }

theorem mapDraft_eq (f : Draft → Draft) (session : Session) :
    session.mapDraft f = { session with draft := f session.draft } :=
  rfl

end Session

namespace Eval

/-! ## Running on parts of a session -/

/-- What a function sees of the session. -/
def gets {α : Type} (part : Session → α) : Eval α := fun session =>
  .ok (part session) session

/-- A result that must be there. -/
def lift {α : Type} : Except LoadError α → Eval α
  | .ok a => pure a
  | .error e => throw e

/-- Runs a program on the draft. -/
def onDraft {α : Type} (program : Draft.Program α) : Eval α := fun session =>
  let draft := session.draft
  let session := { session with draft := {} }
  match program draft with
  | .ok a draft => .ok a { session with draft }
  | .error e draft => .error e { session with draft }

theorem onDraft_apply {α : Type} (program : Draft.Program α) (session : Session) :
    onDraft program session =
      match program session.draft with
      | .ok a draft => .ok a { session with draft }
      | .error e draft => .error e { session with draft } :=
  rfl

/-- Runs a program on a machine of its own. -/
def onFreshMachine {α : Type} (program : Eval α) : Eval α := fun session =>
  match program { session with machine := {} } with
  | .ok a after => .ok a { after with machine := session.machine }
  | .error e after => .error e { after with machine := session.machine }

/-- Runs a program, and changes the session afterwards whether it failed or not. -/
def andFinally {α : Type} (program : Eval α) (f : Session → Session) : Eval α := fun session =>
  match program session with
  | .ok a after => .ok a (f after)
  | .error e after => .error e (f after)

/-! ## The operand stack -/

/-- Replaces the operand stack. -/
def changeStack (f : OperandStack → Except StackFault OperandStack) : Eval Unit := do
  let stack ← lift ((f (← gets (·.machine.stack))).mapError .stack)
  modify (.mapMachine fun machine => { machine with stack })

/-- Pops an operand. -/
def popOperand {α : Type} (f : OperandStack → Except StackFault (α × OperandStack)) :
    Eval α := do
  let (value, stack) ← lift ((f (← gets (·.machine.stack))).mapError .stack)
  modify (.mapMachine fun machine => { machine with stack })
  return value

/-- Removes all operands. -/
def clearStack : Eval Unit :=
  modify (.mapMachine fun machine => { machine with stack := .empty })

/-! ## The hint hook -/

/-- Calls the hint hook, if there is one.  An advisory failure ends hinting for the glyph. -/
def callHook (call : HintCall) : Eval Unit := do
  match (← get).hook with
  | none => return
  | some hook =>
      modify (.note (.hinted call))
      match hook.failure (← get).hintCalls with
      | none => return
      | some (.fatal reason) => throw (.hinting (.fatal reason))
      | some (.advisory reason) =>
          modify fun session => { session.note (.hintingDisabled reason) with hook := none }

/-- Hands the complete outline to the hint hook, which may change it also when it then fails. -/
def closeHook (outline : Outline) : Eval Outline := do
  let hook := (← get).hook
  callHook (.close outline)
  let calls := (← get).hintCalls
  return match hook with
    | none => outline
    | some hook => hook.adjust calls outline

/-! ## Glyph programs -/

/-- Fetches the program of a glyph, which has to be released from then on. -/
def fetchProgram (glyphs : GlyphStore) (glyph : GlyphId) : Eval Bytes := do
  let program ← lift (glyphs.fetch glyph)
  modify (.note (.fetched glyph))
  return program

/-- Finds the subfont of a glyph, and fetches its program when there is nothing else to fail. -/
def locate (font : Font) (glyph : GlyphId) : Eval LocatedGlyph := do
  if font.glyphs.count ≤ glyph.number then
    throw (.glyphOutOfRange glyph)
  let subfont ← lift ((font.subfont glyph).mapError .fontData)
  let program ← fetchProgram font.glyphs glyph
  return ⟨program, subfont⟩

/-- Runs a program on a located glyph, whose own program is released afterwards in any case. -/
def withGlyph {α : Type} (font : Font) (glyph : GlyphId) (program : LocatedGlyph → Eval α) :
    Eval α := do
  let located ← locate font glyph
  andFinally (program located) (.note (.released glyph))

end Eval

end Type2Glyphs
