import Type2Glyphs.Charstring.Evaluate
import Type2Glyphs.Proofs.Outcome

/-!
# Aloof — programs that have nothing to do with the machine

Components are drawn on machines of their own.  So whatever machine the accented glyph is on, they
are drawn in the same way, and the machine stays as it is.
-/

namespace Type2Glyphs

open Outcome

/-- The outcome on another machine. -/
def onMachine {α : Type} (machine : Machine) : EStateM.Result LoadError Session α →
    EStateM.Result LoadError Session α
  | .ok a t => .ok a { t with machine := machine }
  | .error e t => .error e { t with machine := machine }

/-- The program neither looks at the machine nor changes it. -/
def Aloof {α : Type} (p : Eval α) : Prop :=
  ∀ s machine, p { s with machine := machine } = onMachine machine (p s)

namespace Aloof

variable {α β : Type} {p : Eval α}

/-- The machine stays as it is. -/
theorem machine (aloof : Aloof p) (s : Session) : (finalSession (p s)).machine = s.machine := by
  have same : p s = onMachine s.machine (p s) := aloof s s.machine
  rw [same]
  cases p s <;> rfl

theorem pure (a : α) : Aloof (Pure.pure a) :=
  fun _ _ => rfl

theorem throw (e : LoadError) : Aloof (throw e : Eval α) :=
  fun _ _ => rfl

theorem lift (result : Except LoadError α) : Aloof (Eval.lift result) := by
  cases result with
  | ok a => exact pure a
  | error e => exact throw e

theorem bind {k : α → Eval β} (first : Aloof p) (next : ∀ a, Aloof (k a)) : Aloof (p >>= k) := by
  intro s machine
  simp only [bind_apply, first s machine]
  cases p s with
  | ok a t => exact next a t machine
  | error e t => rfl

/-- What is changed has nothing to do with the machine. -/
theorem modify {f : Session → Session}
    (aside : ∀ s machine, f { s with machine := machine } = { f s with machine := machine }) :
    Aloof (modify f : Eval Unit) :=
  fun s machine => congrArg (EStateM.Result.ok ()) (aside s machine)

/-- What is seen has nothing to do with the machine. -/
theorem gets {part : Session → α}
    (blind : ∀ s machine, part { s with machine := machine } = part s) :
    Aloof (Eval.gets part) := by
  intro s machine
  simp only [gets_apply, blind]
  rfl

theorem forM {items : List β} {p : β → Eval PUnit} (each : ∀ item, Aloof (p item)) :
    Aloof (items.forM p) := by
  induction items with
  | nil => exact pure PUnit.unit
  | cons item items ih =>
      show Aloof (p item >>= fun _ => items.forM p)
      exact (each item).bind fun _ => ih

theorem andFinally {f : Session → Session} (body : Aloof p)
    (aside : ∀ s machine, f { s with machine := machine } = { f s with machine := machine }) :
    Aloof (Eval.andFinally p f) := by
  intro s machine
  simp only [Eval.andFinally, body s machine]
  cases p s with
  | ok a t => exact congrArg (EStateM.Result.ok a) (aside t machine)
  | error e t => exact congrArg (EStateM.Result.error e) (aside t machine)

theorem callHook (call : HintCall) : Aloof (Eval.callHook call) := by
  rintro ⟨own, draft, hook, random, components, journal, trace⟩ machine
  simp only [callHook_apply]
  cases hook with
  | none => rfl
  | some hook =>
      dsimp only [Session.hintCalls]
      cases hook.failure (call :: journal.filterMap LoadEvent.call?) with
      | none => rfl
      | some failure => cases failure <;> rfl

/-- A machine of its own takes the place of the one that is there. -/
theorem onFreshMachine (p : Eval α) : Aloof (Eval.onFreshMachine p) := by
  intro s machine
  simp only [Eval.onFreshMachine]
  cases p { s with machine := {} } <;> rfl

theorem withGlyph {font : Font} {glyph : GlyphId} {p : LocatedGlyph → Eval α}
    (body : ∀ located, Aloof (p located)) : Aloof (Eval.withGlyph font glyph p) := by
  rw [withGlyph_eq]
  exact (lift _).bind fun located => (modify fun _ _ => rfl).bind fun _ =>
    (body located).andFinally fun _ _ => rfl

/-! ## Components -/

theorem drawComponent (font : Font) (evaluate : Evaluator) (depth : Nat) (origin : Point)
    (component : Component) :
    Aloof (Eval.drawComponent font evaluate depth origin component) :=
  (callHook _).bind fun _ => (modify fun _ _ => rfl).bind fun _ =>
    withGlyph fun _ => (onFreshMachine _).bind fun _ => modify fun _ _ => rfl

/-- Components are drawn whatever the machine of the accented glyph is. -/
theorem drawComponents (font : Font) (limit : Nat) (nested : Option Evaluator) (depth : Nat)
    (components : List Component) :
    Aloof (Eval.drawComponents font limit nested depth components) := by
  cases nested with
  | none => exact throw _
  | some evaluate =>
      refine (modify fun _ _ => rfl).bind fun _ => (gets fun _ _ => rfl).bind fun origin => ?_
      exact (forM fun component => drawComponent font evaluate depth origin component).andFinally
        fun _ _ => rfl

/-- The components of an accented glyph are listed or drawn whatever the machine is. -/
theorem compose (font : Font) (limit : Nat) (nested : Option Evaluator) (depth : Nat)
    (accent : Accent) : Aloof (Eval.compose font limit nested depth accent) := by
  refine (lift _).bind fun base => (lift _).bind fun mark => ?_
  refine (gets fun _ _ => rfl).bind fun lists => ?_
  split
  · exact modify fun _ _ => rfl
  · exact drawComponents font limit nested depth _

end Aloof

end Type2Glyphs
