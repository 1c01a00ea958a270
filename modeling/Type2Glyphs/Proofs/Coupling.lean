import Type2Glyphs.Proofs.Law
import Type2Glyphs.Proofs.Outcome
import Type2Glyphs.Proofs.Simulation

/-!
# Coupling — what two runs of a glyph program have to share

A glyph program decides what to do by its machine, the random numbers and a few facts about the
draft.  Sessions that agree on these go in step through every operator, whatever else differs.

* `Simulates.onDraft` and `Simulates.callHook`: what goes in step on drafts, and with the hint hook;
* `MachineCoupling R`: related sessions have equal machines, and may change them together;
* `LocalCoupling excused R`: they also go in step when points are added, hints are passed on and
  random numbers are drawn, so that every operator that runs no other program goes in step;
* `Coupling excused R frames origins`: they go in step through components too.

The theorems at the end of each section say so for the programs concerned.  The operators that run
other programs follow in `Type2Glyphs.Proofs.Coupling.Evaluate`.
-/

namespace Type2Glyphs

open Outcome

/-! ## Drafts and hints -/

namespace Simulates

variable {excused : LoadError → Prop} {R : Session → Session → Prop} {α : Type}

/-- Programs that go in step on drafts do so on sessions. -/
theorem onDraft {D : Draft → Draft → Prop} {p q : Draft.Program α} (h : Simulates excused D p q)
    (draft : ∀ {s s'}, R s s' → D s.draft s'.draft)
    (withDraft : ∀ {s s'}, R s s' → ∀ {d d'}, D d d' →
      R { s with draft := d } { s' with draft := d' }) :
    Simulates excused R (Eval.onDraft p) (Eval.onDraft q) := by
  intro s s' related
  have outcomes := h (draft related)
  simp only [Eval.onDraft_apply]
  revert outcomes
  generalize p s.draft = result
  generalize q s'.draft = result'
  intro outcomes
  cases outcomes with
  | ok drafts => exact .ok (withDraft related drafts)
  | error drafts => exact .error (withDraft related drafts)
  | excuse h => exact .excuse h

/-- Sessions with one hint hook, which has heard the same calls in both, go in step when it hears
another one. -/
theorem callHook (hook : ∀ {s s'}, R s s' → s'.hook = s.hook)
    (calls : ∀ {s s'}, R s s' → ∀ hook, s.hook = some hook → s'.hintCalls = s.hintCalls)
    (note : ∀ {s s'}, R s s' → ∀ event, R (s.note event) (s'.note event))
    (mute : ∀ {s s'}, R s s' → R { s with hook := none } { s' with hook := none })
    (call : HintCall) : Simulates excused R (Eval.callHook call) (Eval.callHook call) := by
  intro s s' related
  simp only [callHook_apply, hook related]
  cases hooked : s.hook with
  | none => exact .ok related
  | some hook =>
      have noted := note related (.hinted call)
      dsimp only
      rw [calls related hook hooked]
      cases hook.failure (call :: s.hintCalls) with
      | none => exact .ok noted
      | some failure =>
          cases failure with
          | fatal reason => exact .error noted
          | advisory reason => exact .ok (mute (note noted (.hintingDisabled reason)))

end Simulates

/-! ## Machines -/

/-- Related sessions have equal machines, and stay related when both get another one. -/
structure MachineCoupling (R : Session → Session → Prop) : Prop where
  machine : ∀ {s s'}, R s s' → s'.machine = s.machine
  withMachine : ∀ {s s'}, R s s' → ∀ machine,
    R { s with machine := machine } { s' with machine := machine }

namespace MachineCoupling

open Eval

variable {excused : LoadError → Prop} {R : Session → Session → Prop} {α : Type}

theorem mapMachine (c : MachineCoupling R) (f : Machine → Machine) :
    Simulates excused R (modify (Session.mapMachine f)) (modify (Session.mapMachine f)) := by
  refine .modify ?_
  intro s s' related
  have moved := c.withMachine related (f s.machine)
  simpa only [Session.mapMachine, c.machine related] using moved

/-- What is read off the machine is the same. -/
theorem gets (c : MachineCoupling R) (part : Machine → α) :
    Simulates excused R (Eval.gets fun s => part s.machine)
      (Eval.gets fun s => part s.machine) := by
  refine .gets ?_
  intro s s' related
  simp only [c.machine related]

/-- Going in step is handed on from the steps on the machine. -/
theorem law (c : MachineCoupling R) (excused : LoadError → Prop) :
    MachineLaw fun {_} p => Simulates excused R p p where
  pure := Simulates.pure
  throw := Simulates.throw
  bind := Simulates.bind
  gets := c.gets
  mapMachine := c.mapMachine

theorem changeStack (c : MachineCoupling R)
    (f : OperandStack → Except StackFault OperandStack) :
    Simulates excused R (Eval.changeStack f) (Eval.changeStack f) :=
  (c.law excused).operandLaw.changeStack f

theorem popOperand (c : MachineCoupling R)
    (f : OperandStack → Except StackFault (α × OperandStack)) :
    Simulates excused R (Eval.popOperand f) (Eval.popOperand f) :=
  (c.law excused).operandLaw.popOperand f

theorem clearStack (c : MachineCoupling R) :
    Simulates excused R Eval.clearStack Eval.clearStack :=
  (c.law excused).operandLaw.clearStack

theorem takeOperands (c : MachineCoupling R) (extra : Nat → Bool) :
    Simulates excused R (Eval.takeOperands extra) (Eval.takeOperands extra) :=
  (c.law excused).operandLaw.takeOperands extra

theorem popAccent (c : MachineCoupling R) (bearing : Fixed) :
    Simulates excused R (Eval.popAccent bearing) (Eval.popAccent bearing) :=
  (c.law excused).operandLaw.popAccent bearing

end MachineCoupling

/-! ## Operators that run no other program -/

/-- Related sessions go in step when points are added, hints are passed on and random numbers are
drawn. -/
structure LocalCoupling (excused : LoadError → Prop) (R : Session → Session → Prop) : Prop
    extends MachineCoupling R where
  random : ∀ {s s'}, R s s' → s'.random = s.random
  withRandom : ∀ {s s'}, R s s' → ∀ random,
    R { s with random := random } { s' with random := random }
  drawn : ∀ {s s'}, R s s' → ∀ number, R (s.record (.drawn number)) (s'.record (.drawn number))
  isOpen : ∀ {s s'}, R s s' → s'.draft.isOpen = s.draft.isOpen
  startContour : ∀ p, Simulates excused R (Eval.onDraft (Draft.startContour p))
    (Eval.onDraft (Draft.startContour p))
  addOnCurve : ∀ p, Simulates excused R (Eval.onDraft (Draft.addOnCurve p))
    (Eval.onDraft (Draft.addOnCurve p))
  addCurve : ∀ c₁ c₂ p, Simulates excused R (Eval.onDraft (Draft.addCurve c₁ c₂ p))
    (Eval.onDraft (Draft.addCurve c₁ c₂ p))
  callHook : ∀ call, Simulates excused R (Eval.callHook call) (Eval.callHook call)

namespace LocalCoupling

open Eval

variable {excused : LoadError → Prop} {R : Session → Session → Prop}

/-- Going in step is handed on from all steps of operators that run no other program. -/
theorem localLaw (c : LocalCoupling excused R) :
    LocalLaw fun {_} p => Simulates excused R p p where
  toMachineLaw := c.law excused
  isOpen := .gets fun _ _ related => c.isOpen related
  startContour := c.startContour
  addOnCurve := c.addOnCurve
  addCurve := c.addCurve
  stems _ _ := c.callHook _
  mask _ _ := c.callHook _
  nextRandom := by
    refine .modify ?_
    intro s s' related
    have moved := c.withRandom related (nextRandom s.random)
    simpa only [c.random related] using moved
  random := .gets fun _ _ related => c.random related
  drawn _ := .modify fun _ _ related => c.drawn related _

end LocalCoupling

end Type2Glyphs
