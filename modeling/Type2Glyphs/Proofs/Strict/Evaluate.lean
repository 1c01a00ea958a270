import Type2Glyphs.Load.Glyph
import Type2Glyphs.Proofs.Strict.Execute
import Type2Glyphs.Proofs.Strict.Tables

/-!
# Evaluate — loading without an undefined operation

The whole evaluator on programs that may come to nothing, from the tables to the outline.  Every
token has to find a stack that is not too high.

`load_defined` says that no glyph program, table, setting or hint hook makes an operation be used
outside its domain: loading always comes to something, and this is the outcome of `Font.load`.
-/

namespace Type2Glyphs

/-- A way to evaluate the program of a frame that may come to nothing. -/
abbrev StrictEvaluator := Frame → Bytes → StrictEval Ending

namespace Strict

open Eval (gets)

variable {α : Type}

/-! ## Tokens -/

/-- Finds the subfont of a glyph, and fetches its program when there is nothing else to fail. -/
def locate (font : Font) (glyph : GlyphId) : StrictEval LocatedGlyph := do
  if font.glyphs.count ≤ glyph.number then
    (throw (.glyphOutOfRange glyph) : Eval Unit)
  let subfont ← (subfont font glyph).adapt LoadError.fontData
  let program ← Eval.fetchProgram font.glyphs glyph
  return ⟨program, subfont⟩

/-- Runs a program on a located glyph, whose own program is released afterwards in any case. -/
def withGlyph (font : Font) (glyph : GlyphId) (program : LocatedGlyph → StrictEval α) :
    StrictEval α := do
  let located ← locate font glyph
  andFinally (program located) (.note (.released glyph))

/-- Comes to nothing if the stack is too high. -/
def checkStack : StrictEval Unit := do
  if (← gets (·.machine.stack)).size ≤ maxOperands then
    return
  else
    (none : Option Unit)

/-- Evaluates a program after its first `skip` bytes. -/
def evaluateAfter (execute : Operator → Bytes → StrictEval Flow) (depth : Nat) :
    (skip : Nat) → Bytes → StrictEval Ending
  | _, [] => return ⟨false, []⟩
  | skip + 1, _ :: rest => evaluateAfter execute depth skip rest
  | 0, code :: rest => do
      checkStack
      match ← Eval.lift ((Token.read code rest).mapError .charstring) with
      | (.operand value, used) =>
          changeStack (push value)
          evaluateAfter execute depth used rest
      | (.operator op, used) =>
          modify fun session : Session =>
            session.record (.operator depth op session.machine.stack)
          match ← execute op (rest.drop used) with
          | .proceed skip => evaluateAfter execute depth (used + skip) rest
          | .stop endsGlyph => return ⟨endsGlyph, rest.drop used⟩

/-- Evaluates the program of a glyph or component, which has to end the glyph. -/
def runProgram (evaluate : StrictEvaluator) (frame : Frame) (program : Bytes) : StrictEval Unit :=
  onFreshMachine do
    modify (Session.record .start)
    let ending ← evaluate frame program
    if !ending.endsGlyph then
      (throw (.charstring .unterminated) : Eval Unit)
    Eval.setAdvance frame
    modify (Session.record .stop)

/-! ## Accented glyphs -/

/-- Draws a component at its place relative to `origin`. -/
def drawComponent (font : Font) (evaluate : StrictEvaluator) (depth : Nat) (origin : Point)
    (component : Component) : StrictEval Unit := do
  Eval.callHook .clearHints
  modify (Session.mapDraft fun draft => { draft with origin := origin + component.offset })
  withGlyph font component.glyph fun located => do
    runProgram evaluate ⟨located.subfont, true, depth + 1⟩ located.program
    mapDraft commit

/-- Draws components one after the other, relative to the origin of what was drawn before. -/
def drawComponents (font : Font) (limit : Nat) (nested : Option StrictEvaluator) (depth : Nat)
    (components : List Component) : StrictEval Unit := do
  match nested with
  | none => (throw (.nestingTooDeep limit) : Eval Unit)
  | some evaluate =>
      mapDraft commit
      let origin ← gets (·.draft.origin)
      andFinally (components.forM (drawComponent font evaluate depth origin))
        (.mapDraft fun draft => { draft with origin := origin })

/-- Draws the components of an accented glyph, or lists them if the draft does so. -/
def compose (font : Font) (limit : Nat) (nested : Option StrictEvaluator) (depth : Nat)
    (accent : Accent) : StrictEval Unit := do
  let base ← Eval.lift (Eval.accentGlyph font accent.baseCode)
  let mark ← Eval.lift (Eval.accentGlyph font accent.accentCode)
  let components : List Component := [⟨base, 0⟩, ⟨mark, accent.offset⟩]
  if ← gets (·.draft.listsComponents) then
    modify fun session : Session =>
      { session with components := session.components ++ components }
  else
    drawComponents font limit nested depth components

/-- Pops the operands that describe an accented glyph. -/
def popAccent (bearing : Fixed) : StrictEval Accent := do
  let accentCode ← popOperand Operand.toInt
  let baseCode ← popOperand Operand.toInt
  let dy ← popOperand Operand.toFixed
  let dx ← popOperand Operand.toFixed
  return ⟨baseCode, accentCode, ⟨dx - bearing, dy⟩⟩

/-! ## Subroutines -/

/-- The body of a subroutine. -/
def subroutine (subrs : Index) (operand : Int32) : Strict LoadError Bytes :=
  let number := Eval.subroutineNumber subrs operand
  if number < 0 ∨ (subrs.count : Int) ≤ number then
    throw (.charstring (.invalidSubroutine number))
  else
    (object subrs number.toNat).adapt .fontData

/-- Calls the subroutine whose biased number is on top of the stack. -/
def call (subrs : Index) (limit : Nat) (nested : Option StrictEvaluator) (frame : Frame) :
    StrictEval Flow := do
  let operand ← popOperand Operand.toInt
  let body ← subroutine subrs operand
  match nested with
  | none => (throw (.nestingTooDeep limit) : Eval Flow)
  | some evaluate =>
      let ending ← evaluate { frame with depth := frame.depth + 1 } body
      return if ending.endsGlyph then .stop true else .proceed 0

/-! ## Operators -/

/-- Ends the glyph.  Four operands describe an accented glyph. -/
def endchar (font : Font) (limit : Nat) (nested : Option StrictEvaluator) (frame : Frame) :
    StrictEval Unit := do
  let operands ← takeOperands fun count => count = 1 ∨ count = 5
  mapDraft closeContour
  if operands.length = 4 then
    compose font limit nested frame.depth (← popAccent 0)
  else if operands ≠ [] then
    (throw (.charstring (.operandCount .endchar)) : Eval Unit)
  Eval.clearStack

/-- Ends the glyph as an accented one whose left bearing is given. -/
def seac (font : Font) (limit : Nat) (nested : Option StrictEvaluator) (frame : Frame) :
    StrictEval Unit := do
  modify (Session.mapMachine fun machine => { machine with widthSeen := true })
  let operands ← gets (·.machine.stack.operands)
  of (Operator.seac.expectCount 5 operands.length)
  mapDraft closeContour
  let bearing ← operand? 0 operands
  Eval.setLeftBearing frame bearing
  compose font limit nested frame.depth (← popAccent bearing)
  Eval.clearStack

/-- Executes an operator, with the bytes after it at hand. -/
def execute (font : Font) (limit : Nat) (nested : Option StrictEvaluator) (frame : Frame)
    (op : Operator) (unread : Bytes) : StrictEval Flow := do
  match op with
  | .stem op => stem op; return .proceed 0
  | .mask op => return .proceed (← mask op unread)
  | .move op => move op; return .proceed 0
  | .path op => path op; return .proceed 0
  | .stack op => changeStack (apply op); return .proceed 0
  | .callsubr =>
      match frame.subfont.localSubrs with
      | none => (throw (.charstring .missingSubroutines) : Eval Flow)
      | some subrs => call subrs limit nested frame
  | .callgsubr => call font.globalSubrs limit nested frame
  | .ret => return .stop false
  | .endchar => endchar font limit nested frame; return .stop true
  | .seac => seac font limit nested frame; return .stop true
  | .dotsection => Eval.clearStack; return .proceed 0
  | .put => put; return .proceed 0
  | .get => fetch; return .proceed 0
  | .random => random; return .proceed 0

/-- Evaluates a program whose operators can run others by `nested`. -/
def evaluateWith (font : Font) (limit : Nat) (nested : Option StrictEvaluator) : StrictEvaluator :=
  fun frame program =>
    evaluateAfter (execute font limit nested frame) frame.depth 0 program

/-- Evaluates a program with the given number of levels left below it. -/
def evaluate (font : Font) (limit : Nat) : (levels : Nat) → StrictEvaluator
  | 0 => evaluateWith font limit none
  | levels + 1 => evaluateWith font limit (some (evaluate font limit levels))

/-! ## Loading -/

/-- Evaluates the program of the glyph to be loaded. -/
def drawGlyph (font : Font) (limit : Nat) (glyph : GlyphId) : StrictEval Unit :=
  withGlyph font glyph fun located => do
    Eval.callHook (.openGlyph glyph)
    runProgram (evaluate font limit limit) ⟨located.subfont, false, 0⟩ located.program

/-- Completes the outline and assembles the glyph. -/
def finishGlyph (font : Font) (settings : LoadSettings) : StrictEval LoadedGlyph := do
  let session ← (get : Eval Session)
  let (outline, box) ← finish session.draft
  let outline ← Eval.closeHook outline
  return .assemble settings outline session.components session.draft.leftBearing
    session.draft.advance box font.vertical

/-- Loads a glyph. -/
def loadGlyph (font : Font) (glyph : GlyphId) (settings : LoadSettings) :
    StrictEval LoadedGlyph := do
  drawGlyph font settings.depthLimit glyph
  finishGlyph font settings

/-- Loads a glyph, and reports what happened on the way. -/
def load (font : Font) (glyph : GlyphId) (settings : LoadSettings) (hook : Option HintHook) :
    Option LoadReport :=
  (loadGlyph font glyph settings (.initial settings hook)).map fun
    | .ok loaded session => ⟨.ok loaded, session⟩
    | .error e session => ⟨.error e, session⟩

end Strict

/-! ## Programs that come to the outcome -/

/-- Evaluators of the next level, if there are any, of which the first one comes to what the second
one does. -/
inductive NestedComesTo : Option StrictEvaluator → Option Evaluator → Prop
  | bottom : NestedComesTo none none
  | levels {e : StrictEvaluator} {e' : Evaluator}
      (h : ∀ frame program, ComesTo (e frame program) (e' frame program)) :
      NestedComesTo (some e) (some e')

namespace ComesTo

open Strict

variable {α : Type} {P : α → Prop} {font : Font} {limit : Nat} {nested : Option StrictEvaluator}
  {nested' : Option Evaluator} {frame : Frame}

/-! ### Glyphs -/

theorem fetchProgram (glyphs : GlyphStore) (glyph : GlyphId) :
    ComesTo (liftM (Eval.fetchProgram glyphs glyph)) (Eval.fetchProgram glyphs glyph) := by
  refine total fun s sound => ?_
  rw [Outcome.fetchProgram_apply]
  cases glyphs.fetch glyph with
  | error e => exact .error sound
  | ok program => exact .ok trivial ⟨sound.stack, sound.draft⟩

theorem locate (font : Font) (glyph : GlyphId) :
    ComesTo (Strict.locate font glyph) (Eval.locate font glyph) := by
  have selected : ComesTo (liftM ((Strict.subfont font glyph).adapt LoadError.fontData))
      (Eval.lift ((font.subfont glyph).mapError .fontData)) :=
    lift (subfont_gives font glyph).adapt
  have found := selected.bind fun subfont _ => (fetchProgram font.glyphs glyph).bind
    fun program _ => pure (a := LocatedGlyph.mk program subfont) (P := fun _ => True) trivial
  simp only [Strict.locate, Eval.locate]
  by_cases out : font.glyphs.count ≤ glyph.number
  · simp only [if_pos out]
    exact (throw (P := fun _ => True) _).bind fun _ _ => found
  · simp only [if_neg out]
    exact found

theorem withGlyph (font : Font) (glyph : GlyphId) {p : LocatedGlyph → StrictEval α}
    {q : LocatedGlyph → Eval α} (body : ∀ located, ComesTo (p located) (q located) P) :
    ComesTo (Strict.withGlyph font glyph p) (Eval.withGlyph font glyph q) P :=
  (locate font glyph).bind fun located _ =>
    (body located).andFinally fun _ sound => ⟨sound.stack, sound.draft⟩

/-- What is changed in a draft beside its outlines does not matter. -/
theorem mapMeasures {f : Draft → Draft} (keeps : ∀ draft, draft.Fits → (f draft).Fits) :
    ComesTo (modify (Session.mapDraft f)) (modify (Session.mapDraft f)) :=
  change fun s sound => ⟨sound.stack, keeps s.draft sound.draft⟩

theorem setAdvance (frame : Frame) :
    ComesTo (liftM (Eval.setAdvance frame)) (Eval.setAdvance frame) := by
  simp only [Eval.setAdvance]
  split
  · exact total_bind (read _) fun _ _ => mapMeasures fun _ fits => { fits with }
  · exact done

theorem setLeftBearing (frame : Frame) (bearing : Fixed) :
    ComesTo (liftM (Eval.setLeftBearing frame bearing)) (Eval.setLeftBearing frame bearing) := by
  simp only [Eval.setLeftBearing]
  split
  · exact mapMeasures fun _ fits => { fits with }
  · exact done

theorem commit : ComesTo (Strict.mapDraft Strict.commit) (modify (Session.mapDraft Draft.commit)) :=
  mapDraft fun fits => ⟨commit_eq fits, fits.commit⟩

theorem runProgram {e : StrictEvaluator} {e' : Evaluator}
    (body : ∀ frame program, ComesTo (e frame program) (e' frame program)) (frame : Frame)
    (program : Bytes) : ComesTo (Strict.runProgram e frame program)
      (Eval.runProgram e' frame program) := by
  refine onFreshMachine ((record _).bind fun _ _ => (body frame program).bind fun ending _ => ?_)
  have rest : ComesTo (do liftM (Eval.setAdvance frame); modify (Session.record .stop))
      (do Eval.setAdvance frame; modify (Session.record .stop)) :=
    (setAdvance frame).bind fun _ _ => record _
  dsimp only
  split
  · exact bind (P := fun _ => True) (throw _) fun _ _ => rest
  · exact rest

/-! ### Accented glyphs -/

theorem drawComponent (font : Font) {e : StrictEvaluator} {e' : Evaluator}
    (body : ∀ frame program, ComesTo (e frame program) (e' frame program)) (depth : Nat)
    (origin : Point) (component : Component) :
    ComesTo (Strict.drawComponent font e depth origin component)
      (Eval.drawComponent font e' depth origin component) :=
  (callHook _).bind fun _ _ => bind (mapMeasures fun _ fits => { fits with }) fun _ _ =>
    withGlyph font _ fun _ => (runProgram body _ _).bind fun _ _ => commit

theorem drawComponents (lower : NestedComesTo nested nested') (depth : Nat)
    (components : List Component) :
    ComesTo (Strict.drawComponents font limit nested depth components)
      (Eval.drawComponents font limit nested' depth components) := by
  cases lower with
  | bottom => exact throw _
  | levels body =>
      refine commit.bind fun _ _ => (read _).bind fun origin _ => ?_
      refine (forM fun component => drawComponent font body depth origin component).andFinally ?_
      exact fun s sound => ⟨sound.stack, { sound.draft with }⟩

theorem compose (lower : NestedComesTo nested nested') (depth : Nat) (accent : Accent) :
    ComesTo (Strict.compose font limit nested depth accent)
      (Eval.compose font limit nested' depth accent) := by
  refine (lifted _).bind fun base _ => (lifted _).bind fun mark _ => (read _).bind fun lists _ => ?_
  cases lists with
  | true => exact change fun _ sound => ⟨sound.stack, sound.draft⟩
  | false => exact drawComponents lower depth _

theorem popAccent (bearing : Fixed) :
    ComesTo (Strict.popAccent bearing) (Eval.popAccent bearing) :=
  popInt.bind fun _ _ => popInt.bind fun _ _ => popFixed.bind fun _ _ => popFixed.bind fun _ _ =>
    pure trivial

/-! ### Operators -/

theorem subroutine_gives (subrs : Index) (operand : Int32) :
    Gives (subroutine subrs operand) (Eval.subroutine subrs operand) fun _ => True := by
  simp only [subroutine, Eval.subroutine]
  split
  · exact .error _
  · exact (object_gives subrs _).adapt

theorem call (lower : NestedComesTo nested nested') (subrs : Index) (frame : Frame) :
    ComesTo (Strict.call subrs limit nested frame) (Eval.call subrs limit nested' frame) := by
  refine popInt.bind fun operand _ => (lift (subroutine_gives subrs operand)).bind fun body _ => ?_
  cases lower with
  | bottom => exact throw _
  | levels h => exact (h _ body).bind fun ending _ => pure trivial

theorem endchar (lower : NestedComesTo nested nested') (frame : Frame) :
    ComesTo (Strict.endchar font limit nested frame) (Eval.endchar font limit nested' frame) := by
  refine (takeOperands rfl).bind fun operands _ => closeContour.bind fun _ _ => ?_
  dsimp only
  split
  · exact (popAccent _).bind fun accent _ => (compose lower _ accent).bind fun _ _ => clearStack
  · split
    · exact bind (P := fun _ => True) (throw _) fun _ _ => clearStack
    · exact clearStack

theorem seac (lower : NestedComesTo nested nested') (frame : Frame) :
    ComesTo (Strict.seac font limit nested frame) (Eval.seac font limit nested' frame) := by
  refine bind (mapMachine fun _ room => room) fun _ _ => (read _).bind fun operands _ => ?_
  have given : Gives (of (Operator.seac.expectCount 5 operands.length))
      (Operator.seac.expectCount 5 operands.length) fun _ =>
        operand? 0 operands = some (operands.headD 0) := by
    refine ⟨rfl, fun _ checked => ?_⟩
    match operands, Operator.eq_of_expectCount checked with
    | bearing :: _, _ => rfl
  refine (lift given).bind fun _ first => closeContour.bind fun _ _ => ?_
  rw [first, defined_bind]
  exact (setLeftBearing frame _).bind fun _ _ => (popAccent _).bind fun accent _ =>
    (compose lower _ accent).bind fun _ _ => clearStack

theorem execute (lower : NestedComesTo nested nested') (frame : Frame) (op : Operator)
    (unread : Bytes) :
    ComesTo (Strict.execute font limit nested frame op unread)
      (Eval.execute font limit nested' frame op unread) := by
  cases op with
  | stem op => exact (stem op).bind fun _ _ => pure trivial
  | mask op => exact (mask op unread).bind fun _ _ => pure trivial
  | move op => exact (move op).bind fun _ _ => pure trivial
  | path op => exact (path op).bind fun _ _ => pure trivial
  | stack op =>
      exact (changeStack fun room => apply_gives room op).bind fun _ _ => pure trivial
  | callsubr =>
      simp only [Strict.execute, Eval.execute]
      cases frame.subfont.localSubrs with
      | none => exact throw _
      | some subrs => exact call lower subrs frame
  | callgsubr => exact call lower _ frame
  | ret => exact pure trivial
  | endchar => exact (endchar lower frame).bind fun _ _ => pure trivial
  | seac => exact (seac lower frame).bind fun _ _ => pure trivial
  | dotsection => exact clearStack.bind fun _ _ => pure trivial
  | put => exact put.bind fun _ _ => pure trivial
  | get => exact fetch.bind fun _ _ => pure trivial
  | random => exact random.bind fun _ _ => pure trivial

/-! ### Programs -/

/-- In a sound session the stack is not too high. -/
theorem checkStack_bind {p : StrictEval α} {q : Eval α} (next : ComesTo p q P) :
    ComesTo (checkStack >>= fun _ => p) q P := by
  intro s sound
  have passed : (checkStack >>= fun _ => p) s = p s := by
    have room : checkStack s = some (.ok () s) := by
      show (if s.machine.stack.size ≤ maxOperands then _ else _ : StrictEval Unit) s = _
      rw [if_pos sound.stack]
      rfl
    show (checkStack s).bind _ = p s
    rw [room]
    rfl
  rw [passed]
  exact next sound

theorem evaluateAfter {execute : Operator → Bytes → StrictEval Flow}
    {execute' : Operator → Bytes → Eval Flow}
    (step : ∀ op unread, ComesTo (execute op unread) (execute' op unread)) (depth skip : Nat)
    (program : Bytes) : ComesTo (Strict.evaluateAfter execute depth skip program)
      (Eval.evaluateAfter execute' depth skip program) := by
  -- by induction on the bytes, since a token and a mask only skip some of those that are left
  induction program generalizing skip with
  | nil =>
      simp only [Strict.evaluateAfter, Eval.evaluateAfter]
      exact pure trivial
  | cons code rest ih =>
      cases skip with
      | succ skip => exact ih skip
      | zero =>
          simp only [Strict.evaluateAfter, Eval.evaluateAfter]
          refine checkStack_bind ((lifted _).bind fun token _ => ?_)
          rcases token with ⟨value | op, used⟩
          · exact (push value).bind fun _ _ => ih used
          · refine bind (change fun _ sound => ⟨sound.stack, sound.draft⟩) fun _ _ => ?_
            refine (step op _).bind fun flow _ => ?_
            cases flow with
            | proceed skip => exact ih _
            | stop endsGlyph => exact pure trivial

theorem evaluate (font : Font) (limit levels : Nat) (frame : Frame) (program : Bytes) :
    ComesTo (Strict.evaluate font limit levels frame program)
      (Eval.evaluate font limit levels frame program) := by
  induction levels generalizing frame program with
  | zero => exact evaluateAfter (execute .bottom frame) _ _ _
  | succ levels ih => exact evaluateAfter (execute (.levels ih) frame) _ _ _

/-! ### Loading -/

theorem drawGlyph (font : Font) (limit : Nat) (glyph : GlyphId) :
    ComesTo (Strict.drawGlyph font limit glyph) (Eval.drawGlyph font limit glyph) :=
  withGlyph font glyph fun _ => (callHook _).bind fun _ _ =>
    runProgram (evaluate font limit limit) _ _

theorem closeHook (outline : Outline) :
    ComesTo (liftM (Eval.closeHook outline)) (Eval.closeHook outline) :=
  total_bind (total fun _ sound => .ok trivial sound) fun _ _ => total_bind (callHook _) fun _ _ =>
    total_bind (total fun _ sound => .ok trivial sound) fun _ _ => pure trivial

theorem finishGlyph (font : Font) (settings : LoadSettings) :
    ComesTo (Strict.finishGlyph font settings) (Eval.finishGlyph font settings) := by
  refine bind (P := Session.Sound) (total fun _ sound => .ok sound sound) fun session sound => ?_
  rw [finish_eq sound.draft, defined_bind]
  exact (closeHook _).bind fun _ _ => pure trivial

theorem loadGlyph (font : Font) (glyph : GlyphId) (settings : LoadSettings) :
    ComesTo (Strict.loadGlyph font glyph settings) (Eval.loadGlyph font glyph settings) :=
  (drawGlyph font _ glyph).bind fun _ _ => finishGlyph font settings

end ComesTo

theorem Session.sound_initial (settings : LoadSettings) (hook : Option HintHook) :
    (Session.initial settings hook).Sound where
  stack := Nat.zero_le _
  draft := by
    refine ⟨Nat.le_refl _, Nat.zero_le _, ?_, ?_⟩
    · intro last mem
      cases mem
    · intro last mem
      cases mem

/-- No operation is used outside its domain, whatever is loaded: loading comes to something, and the
objects of an INDEX, which may also be where glyph programs come from, can always be read. -/
theorem load_defined (font : Font) (glyph : GlyphId) (settings : LoadSettings)
    (hook : Option HintHook) :
    Strict.load font glyph settings hook = some (font.load glyph settings hook) ∧
      ∀ index i, Strict.object index i = Strict.of (index.get i) := by
  have loaded := ComesTo.loadGlyph font glyph settings (Session.sound_initial settings hook)
  refine ⟨?_, fun index i => (Strict.object_gives index i).defined⟩
  refine (congrArg (Option.map _) loaded.1).trans ?_
  simp only [Font.load]
  cases Eval.loadGlyph font glyph settings (.initial settings hook) <;> rfl

end Type2Glyphs
