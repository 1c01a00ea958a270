import Type2Glyphs.Proofs.Coupling
import Type2Glyphs.Proofs.Law.Parting
import Type2Glyphs.Proofs.Loading

/-!
# Blind — steps that have nothing to do with random numbers

One operator draws random numbers.  All other steps of glyph programs neither read nor change the
state of the random numbers and the trace: where these are others, they come to the same.

* `Blind p` says so of a program, and `Blind.execute` has it for every operator that runs no other
  program and draws no random number;
* `BlindLaw L` hands a property `L` on from blind steps to all that is done around the programs of
  glyphs and components.  What has to be shown of these programs themselves is `runs`.
-/

namespace Type2Glyphs

open Outcome

variable {α β : Type}

/-! ## Blind programs -/

/-- The second session is the first one with other random numbers and another trace. -/
def Session.Recast (random : UInt32) (trace : List TraceEntry) (s s' : Session) : Prop :=
  s' = { s with random, trace }

/-- An outcome with another state of the random numbers. -/
def withRandom (random : UInt32) :
    EStateM.Result LoadError Session α → EStateM.Result LoadError Session α
  | .ok a t => .ok a { t with random }
  | .error e t => .error e { t with random }

/-- The program goes in step with itself whatever the random numbers and the trace are, and leaves
them as they are. -/
def Blind (p : Eval α) : Prop :=
  ∀ random trace, Simulates (fun _ => False) (Session.Recast random trace) p p

namespace Blind

/-- A blind program is one that goes in step with itself in one run, too. -/
theorem keeps {p : Eval α} (blind : Blind p) (s : Session) :
    (finalSession (p s)).random = s.random ∧ (finalSession (p s)).trace = s.trace := by
  -- the second run is the first one
  have itself : s.Recast s.random s.trace s := rfl
  have final : finalSession (p s) =
      { finalSession (p s) with random := s.random, trace := s.trace } := (blind _ _ itself).final
  exact ⟨(congrArg Session.random final :), (congrArg Session.trace final :)⟩

/-- A blind program comes to the same with other random numbers. -/
theorem reseeded {p : Eval α} (blind : Blind p) (s : Session) (random : UInt32) :
    p { s with random } = withRandom random (p s) := by
  have recast : s.Recast random s.trace { s with random } := rfl
  have outcomes := blind _ _ recast
  have kept := (blind.keeps s).2
  revert outcomes kept
  generalize p s = result
  generalize p _ = result'
  intro outcomes kept
  cases outcomes with
  | @ok a t t' related =>
      have trace : t.trace = s.trace := kept
      rw [related, ← trace]
      rfl
  | @error e t t' related =>
      have trace : t.trace = s.trace := kept
      rw [related, ← trace]
      rfl
  | excuse impossible => exact impossible.elim

theorem of_modify {f : Session → Session}
    (h : ∀ (s : Session) random trace, f { s with random, trace } = { f s with random, trace }) :
    Blind (modify f : Eval PUnit) := by
  intro random trace
  refine .modify ?_
  rintro s _ rfl
  exact h s random trace

theorem mapDraft (f : Draft → Draft) : Blind (modify (Session.mapDraft f) : Eval PUnit) :=
  of_modify fun _ _ _ => rfl

theorem note (event : LoadEvent) : Blind (modify (Session.note event) : Eval PUnit) :=
  of_modify fun _ _ _ => rfl

theorem gets {part : Session → α}
    (h : ∀ (s : Session) random trace, part { s with random, trace } = part s) :
    Blind (Eval.gets part) := by
  intro random trace
  refine .gets ?_
  rintro s _ rfl
  exact h s random trace

theorem onDraft (program : Draft.Program α) : Blind (Eval.onDraft program) := by
  intro random trace
  refine .onDraft (.refl program) ?_ ?_
  · rintro s _ rfl
    rfl
  · rintro s _ rfl d _ rfl
    rfl

theorem callHook (call : HintCall) : Blind (Eval.callHook call) := by
  intro random trace
  refine .callHook ?_ ?_ ?_ ?_ call
  · rintro s _ rfl
    rfl
  · rintro s _ rfl hook _
    rfl
  · rintro s _ rfl event
    rfl
  · rintro s _ rfl
    rfl

theorem setLeftBearing (frame : Frame) (bearing : Fixed) :
    Blind (Eval.setLeftBearing frame bearing) := by
  rintro random trace s _ rfl
  simp only [Eval.setLeftBearing_apply]
  exact .ok rfl

/-- To hand the outline over is to call the hint hook. -/
theorem finishGlyph (font : Font) (settings : LoadSettings) :
    Blind (Eval.finishGlyph font settings) := by
  rintro random trace s _ rfl
  have recast : s.Recast random trace { s with random, trace } := rfl
  have outcomes := callHook (.close s.draft.finish.1) random trace recast
  simp only [finishGlyph_apply]
  revert outcomes
  generalize Eval.callHook (.close s.draft.finish.1) s = result
  generalize Eval.callHook (.close s.draft.finish.1) _ = result'
  intro outcomes
  cases outcomes with
  | ok related =>
      cases related
      exact .ok rfl
  | error related => exact .error related
  | excuse impossible => exact impossible.elim

/-! ## Operators -/

theorem machineCoupling (random : UInt32) (trace : List TraceEntry) :
    MachineCoupling (Session.Recast random trace) where
  machine := by
    rintro s _ rfl
    rfl
  withMachine := by
    rintro s _ rfl machine
    rfl

theorem machineLaw : MachineLaw fun {_} p => Blind p where
  pure a _ _ := Simulates.pure a
  throw e _ _ := Simulates.throw e
  bind first next random trace := (first random trace).bind fun a => next a random trace
  gets part random trace := (machineCoupling random trace).gets part
  mapMachine f random trace := (machineCoupling random trace).mapMachine f

theorem operandLaw : OperandLaw fun {_} p => Blind p :=
  machineLaw.operandLaw

theorem steadyLaw : SteadyLaw fun {_} p => Blind p where
  toReadingLaw := operandLaw.readingLaw
  moveBy := machineLaw.moveBy fun _ => onDraft _
  ensureOpen := machineLaw.ensureOpen (gets fun _ _ _ => rfl) fun _ => onDraft _
  drawSegment := machineLaw.drawSegment (fun _ => onDraft _) fun _ _ _ => onDraft _
  stems _ _ := callHook _
  mask _ _ := callHook _

/-- All operators are blind but those that draw random numbers or run other programs. -/
theorem execute {font : Font} {limit : Nat} {nested : Option Evaluator} {frame : Frame}
    {op : Operator} (alone : op.nests = false) (steady : op ≠ .random) (unread : Bytes) :
    Blind (Eval.execute font limit nested frame op unread) := by
  cases calculates : op.calculates with
  | false => exact steadyLaw.execute alone calculates steady unread
  | true => exact operandLaw.execute calculates unread

end Blind

/-! ## Glyphs and components -/

/-- `L` holds of blind programs and of what is made of programs for which it holds. -/
structure BlindLaw (L : ∀ {α : Type}, Eval α → Prop) : Prop where
  blind : ∀ {α : Type} {p : Eval α}, Blind p → L p
  bind : ∀ {α β : Type} {p : Eval α} {k : α → Eval β}, L p → (∀ a, L (k a)) → L (p >>= k)
  andFinally : ∀ {α : Type} {p : Eval α} {f : Session → Session}, L p →
    Blind (modify f : Eval PUnit) → L (Eval.andFinally p f)

namespace BlindLaw

variable {L : ∀ {α : Type}, Eval α → Prop} {font : Font} {limit depth : Nat}
  {nested : Option Evaluator} {evaluate : Evaluator} {frame : Frame}

theorem readingLaw (law : BlindLaw L) : ReadingLaw L where
  pure a := law.blind (Blind.operandLaw.pure a)
  throw e := law.blind (Blind.operandLaw.throw e)
  bind := law.bind
  operands := law.blind Blind.steadyLaw.operands
  popFixed := law.blind (Blind.operandLaw.popOperand _)
  popInt := law.blind (Blind.operandLaw.popOperand _)
  push _ := law.blind (Blind.operandLaw.changeStack _)
  clearStack := law.blind Blind.operandLaw.clearStack
  stemCount := law.blind Blind.operandLaw.stemCount
  countStems _ := law.blind (Blind.operandLaw.countStems _)
  takeOperands _ := law.blind (Blind.operandLaw.takeOperands _)

theorem withGlyph (law : BlindLaw L) {glyph : GlyphId} {p : LocatedGlyph → Eval α}
    (body : ∀ located, L (p located)) : L (Eval.withGlyph font glyph p) := by
  rw [withGlyph_eq]
  exact law.bind (law.readingLaw.lift _) fun located => law.bind (law.blind (.note _)) fun _ =>
    law.andFinally (body located) (.note _)

theorem drawComponent (law : BlindLaw L)
    (runs : ∀ frame program, L (Eval.runProgram evaluate frame program)) (origin : Point)
    (component : Component) : L (Eval.drawComponent font evaluate depth origin component) :=
  law.bind (law.blind (.callHook _)) fun _ => law.bind (law.blind (.mapDraft _)) fun _ =>
    law.withGlyph fun _ => law.bind (runs _ _) fun _ => law.blind (.mapDraft _)

/-- The glyph itself is drawn as its components are. -/
theorem drawGlyph (law : BlindLaw L)
    (runs : ∀ frame program, L (Eval.runProgram (Eval.evaluate font limit limit) frame program))
    (glyph : GlyphId) : L (Eval.drawGlyph font limit glyph) :=
  law.withGlyph fun _ => law.bind (law.blind (.callHook _)) fun _ => runs _ _

theorem loadGlyph (law : BlindLaw L) {settings : LoadSettings}
    (runs : ∀ frame program, L (Eval.runProgram
      (Eval.evaluate font settings.depthLimit settings.depthLimit) frame program))
    (glyph : GlyphId) : L (Eval.loadGlyph font glyph settings) :=
  law.bind (law.drawGlyph runs glyph) fun _ => law.blind (.finishGlyph font settings)

section Composing

variable (law : BlindLaw L)
  (runs : ∀ evaluate, nested = some evaluate → ∀ frame program,
    L (Eval.runProgram evaluate frame program))

include law runs

theorem drawComponents (components : List Component) :
    L (Eval.drawComponents font limit nested depth components) := by
  cases nested with
  | none => exact law.readingLaw.throw _
  | some evaluate =>
      refine law.bind (law.blind (.mapDraft _)) fun _ =>
        law.bind (law.blind (.gets fun _ _ _ => rfl)) fun origin => ?_
      refine law.andFinally (law.readingLaw.forM fun component => ?_) (.mapDraft _)
      exact law.drawComponent (runs evaluate rfl) origin component

theorem compose (accent : Accent) : L (Eval.compose font limit nested depth accent) := by
  refine law.bind (law.readingLaw.lift _) fun base => law.bind (law.readingLaw.lift _) fun mark =>
    law.bind (law.blind (.gets fun _ _ _ => rfl)) fun lists => ?_
  split
  · exact law.blind (.of_modify fun _ _ _ => rfl)
  · exact law.drawComponents runs _

theorem endchar : L (Eval.endchar font limit nested frame) :=
  law.readingLaw.endchar (law.blind (.mapDraft _)) fun accent => law.compose runs accent

theorem seac : L (Eval.seac font limit nested frame) :=
  law.readingLaw.seac (law.blind (.of_modify fun _ _ _ => rfl)) (law.blind (.mapDraft _))
    (fun bearing => law.blind (.setLeftBearing frame bearing)) fun accent =>
      law.compose runs accent

end Composing

end BlindLaw

end Type2Glyphs
