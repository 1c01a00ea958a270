import Type2Glyphs.Load.Glyph
import Type2Glyphs.Proofs.Coupling

/-!
# Coupling.Evaluate — runs that go in step through subroutines and components

The operators that run other programs take them from the evaluator of the next level.  Two runs can
have different numbers of levels: as long as the first run has no more levels than the second one,
and its failure for want of levels is excused, both run the same programs.

* `Coupling.evaluate`: the evaluation of any program goes in step;
* `Coupling.drawGlyph`: the evaluation of a whole glyph goes in step, components and all.
-/

namespace Type2Glyphs

/-- Operators that run no other program go in step, whatever the levels and frames are. -/
theorem LocalCoupling.execute {excused : LoadError → Prop} {R : Session → Session → Prop}
    (c : LocalCoupling excused R) {font : Font} {limit limit' : Nat}
    {nested nested' : Option Evaluator} {f f' : Frame} {op : Operator} {unread : Bytes}
    (alone : op.nests = false) :
    Simulates excused R (Eval.execute font limit nested f op unread)
      (Eval.execute font limit' nested' f' op unread) := by
  have same : Eval.execute font limit' nested' f' op unread =
      Eval.execute font limit nested f op unread := Eval.execute_of_alone alone unread
  rw [same]
  exact c.localLaw.operatorLaw.execute alone unread

/-- Related sessions go in step through whole glyph programs.  The programs may belong to different
frames, related by `frames`, and draw from different origins, related by `origins`. -/
structure Coupling (excused : LoadError → Prop) (R : Session → Session → Prop)
    (frames : Frame → Frame → Prop) (origins : Point → Point → Prop) : Prop
    extends LocalCoupling excused R where
  subfont : ∀ {f f'}, frames f f' → f'.subfont = f.subfont
  deeper : ∀ {f f'}, frames f f' →
    frames { f with depth := f.depth + 1 } { f' with depth := f'.depth + 1 }
  component : ∀ {f f'}, frames f f' → ∀ subfont,
    frames ⟨subfont, true, f.depth + 1⟩ ⟨subfont, true, f'.depth + 1⟩
  start : ∀ {s s'}, R s s' → R (s.record .start) (s'.record .start)
  stop : ∀ {s s'}, R s s' → R (s.record .stop) (s'.record .stop)
  operator : ∀ {f f'}, frames f f' → ∀ {s s'}, R s s' → ∀ op stack,
    R (s.record (.operator f.depth op stack)) (s'.record (.operator f'.depth op stack))
  fetched : ∀ {s s'}, R s s' → ∀ glyph, R (s.note (.fetched glyph)) (s'.note (.fetched glyph))
  released : ∀ {s s'}, R s s' → ∀ glyph, R (s.note (.released glyph)) (s'.note (.released glyph))
  closeContour : ∀ {s s'}, R s s' →
    R (s.mapDraft Draft.closeContour) (s'.mapDraft Draft.closeContour)
  commit : ∀ {s s'}, R s s' → R (s.mapDraft Draft.commit) (s'.mapDraft Draft.commit)
  listsComponents : ∀ {s s'}, R s s' → s'.draft.listsComponents = s.draft.listsComponents
  list : ∀ {s s'}, R s s' → s.draft.listsComponents = true → ∀ components,
    R { s with components := s.components ++ components }
      { s' with components := s'.components ++ components }
  origin : ∀ {s s'}, R s s' → origins s.draft.origin s'.draft.origin
  withOrigin : ∀ {s s'}, R s s' → ∀ {o o'}, origins o o' →
    R (s.mapDraft fun draft => { draft with origin := o })
      (s'.mapDraft fun draft => { draft with origin := o' })
  displaced : ∀ {o o'}, origins o o' → ∀ d, origins (o + d) (o' + d)
  setAdvance : ∀ {f f'}, frames f f' →
    Simulates excused R (Eval.setAdvance f) (Eval.setAdvance f')
  setLeftBearing : ∀ {f f'}, frames f f' → ∀ bearing,
    Simulates excused R (Eval.setLeftBearing f bearing) (Eval.setLeftBearing f' bearing)

/-- Evaluators of the next level go in step, or the first run has none and is excused for it. -/
inductive NestedSimulates (excused : LoadError → Prop) (R : Session → Session → Prop)
    (frames : Frame → Frame → Prop) (limit limit' : Nat) :
    Option Evaluator → Option Evaluator → Prop
  | levels {e e' : Evaluator}
      (h : ∀ {f f'}, frames f f' → ∀ program, Simulates excused R (e f program) (e' f' program)) :
      NestedSimulates excused R frames limit limit' (some e) (some e')
  | bottom (h : limit' = limit) : NestedSimulates excused R frames limit limit' none none
  | excuse {nested : Option Evaluator} (h : excused (.nestingTooDeep limit)) :
      NestedSimulates excused R frames limit limit' none nested

namespace Coupling

open Eval

variable {excused : LoadError → Prop} {R : Session → Session → Prop}
  {frames : Frame → Frame → Prop} {origins : Point → Point → Prop} {limit limit' : Nat}
  {nested nested' : Option Evaluator} {f f' : Frame}

/-! ## Glyphs -/

theorem onFreshMachine {α : Type} (c : Coupling excused R frames origins) {p q : Eval α}
    (body : Simulates excused R p q) :
    Simulates excused R (Eval.onFreshMachine p) (Eval.onFreshMachine q) := by
  intro s s' related
  have outcomes := body (c.withMachine related {})
  have same := c.machine related
  simp only [Eval.onFreshMachine]
  rw [same]
  revert outcomes
  generalize p { s with machine := {} } = result
  generalize q { s' with machine := {} } = result'
  intro outcomes
  cases outcomes with
  | ok related => exact .ok (c.withMachine related s.machine)
  | error related => exact .error (c.withMachine related s.machine)
  | excuse h => exact .excuse h

theorem withGlyph {α : Type} (c : Coupling excused R frames origins) (font : Font)
    (glyph : GlyphId) {p q : LocatedGlyph → Eval α}
    (body : ∀ located, Simulates excused R (p located) (q located)) :
    Simulates excused R (Eval.withGlyph font glyph p) (Eval.withGlyph font glyph q) := by
  simp only [Outcome.withGlyph_eq]
  exact (Simulates.lift _).bind fun located =>
    (Simulates.modify fun _ _ related => c.fetched related glyph).bind fun _ =>
      (body located).andFinally fun _ _ related => c.released related glyph

theorem runProgram (c : Coupling excused R frames origins) {e e' : Evaluator}
    (related : frames f f')
    (body : ∀ program, Simulates excused R (e f program) (e' f' program)) (program : Bytes) :
    Simulates excused R (Eval.runProgram e f program) (Eval.runProgram e' f' program) := by
  apply c.onFreshMachine
  refine (Simulates.modify fun _ _ related => c.start related).bind fun _ => ?_
  refine (body program).bind fun ending => ?_
  have rest : Simulates excused R (Eval.setAdvance f >>= fun _ => modify (Session.record .stop))
      (Eval.setAdvance f' >>= fun _ => modify (Session.record .stop)) :=
    (c.setAdvance related).bind fun _ => Simulates.modify fun _ _ related => c.stop related
  dsimp only
  split
  · exact (Simulates.throw _).bind fun _ => rest
  · exact rest

/-! ## Accented glyphs -/

theorem drawComponent (c : Coupling excused R frames origins) (font : Font) {e e' : Evaluator}
    (related : frames f f')
    (body : ∀ {f f'}, frames f f' → ∀ program, Simulates excused R (e f program) (e' f' program))
    {o o' : Point} (same : origins o o') (component : Component) :
    Simulates excused R (Eval.drawComponent font e f.depth o component)
      (Eval.drawComponent font e' f'.depth o' component) := by
  refine (c.callHook _).bind fun _ => ?_
  refine (Simulates.modify fun _ _ h => c.withOrigin h (c.displaced same _)).bind fun _ => ?_
  refine c.withGlyph font component.glyph fun located => ?_
  have deeper := c.component related located.subfont
  exact (c.runProgram deeper (fun program => body deeper program) _).bind fun _ =>
    Simulates.modify fun _ _ h => c.commit h

theorem drawList (c : Coupling excused R frames origins) (font : Font) {e e' : Evaluator}
    (related : frames f f')
    (body : ∀ {f f'}, frames f f' → ∀ program, Simulates excused R (e f program) (e' f' program))
    {o o' : Point} (same : origins o o') (components : List Component) :
    Simulates excused R (components.forM (Eval.drawComponent font e f.depth o))
      (components.forM (Eval.drawComponent font e' f'.depth o')) :=
  Simulates.forM fun component => c.drawComponent font related body same component

theorem drawComponents (c : Coupling excused R frames origins) (font : Font)
    (levels : NestedSimulates excused R frames limit limit' nested nested')
    (related : frames f f') (components : List Component) :
    Simulates excused R (Eval.drawComponents font limit nested f.depth components)
      (Eval.drawComponents font limit' nested' f'.depth components) := by
  cases levels with
  | bottom h =>
      subst h
      exact Simulates.throw _
  | excuse h => exact Simulates.excuse h _
  | levels body =>
      refine (Simulates.modify fun _ _ h => c.commit h).bind fun _ => ?_
      -- the two origins differ, so they are followed from the states where they are read
      intro s s' start
      have same := c.origin start
      have drawn := c.drawList font related body same components
      exact drawn.andFinally (fun _ _ h => c.withOrigin h same) start

theorem compose (c : Coupling excused R frames origins) (font : Font)
    (levels : NestedSimulates excused R frames limit limit' nested nested')
    (related : frames f f') (accent : Accent) :
    Simulates excused R (Eval.compose font limit nested f.depth accent)
      (Eval.compose font limit' nested' f'.depth accent) := by
  refine (Simulates.lift _).bind fun base => ?_
  refine (Simulates.lift _).bind fun mark => ?_
  intro s s' start
  have same := c.listsComponents start
  show Agree excused R
    ((if s.draft.listsComponents then _ else _ : Eval Unit) s)
    ((if s'.draft.listsComponents then _ else _ : Eval Unit) s')
  rw [same]
  by_cases lists : s.draft.listsComponents = true
  · simp only [if_pos lists]
    exact .ok (c.list start lists _)
  · simp only [if_neg lists]
    exact c.drawComponents font levels related _ start

/-! ## Operators that run other programs -/

theorem call (c : Coupling excused R frames origins) (subrs : Index)
    (levels : NestedSimulates excused R frames limit limit' nested nested')
    (related : frames f f') :
    Simulates excused R (Eval.call subrs limit nested f) (Eval.call subrs limit' nested' f') := by
  refine (c.popOperand _).bind fun operand => ?_
  refine (Simulates.lift _).bind fun body => ?_
  cases levels with
  | bottom h =>
      subst h
      exact Simulates.throw _
  | excuse h => exact Simulates.excuse h _
  | levels run => exact (run (c.deeper related) body).bind fun _ => Simulates.pure _

theorem endchar (c : Coupling excused R frames origins) (font : Font)
    (levels : NestedSimulates excused R frames limit limit' nested nested')
    (related : frames f f') :
    Simulates excused R (Eval.endchar font limit nested f)
      (Eval.endchar font limit' nested' f') := by
  refine (c.takeOperands _).bind fun operands => ?_
  refine (Simulates.modify fun _ _ h => c.closeContour h).bind fun _ => ?_
  dsimp only
  split
  · exact (c.popAccent _).bind fun accent => (c.compose font levels related accent).bind fun _ =>
      c.clearStack
  · split
    · exact (Simulates.throw _).bind fun _ => c.clearStack
    · exact c.clearStack

theorem seac (c : Coupling excused R frames origins) (font : Font)
    (levels : NestedSimulates excused R frames limit limit' nested nested')
    (related : frames f f') :
    Simulates excused R (Eval.seac font limit nested f) (Eval.seac font limit' nested' f') :=
  (c.mapMachine _).bind fun _ => (c.gets fun machine => machine.stack.operands).bind fun _ =>
    (Simulates.lift _).bind fun _ => (Simulates.modify fun _ _ h => c.closeContour h).bind fun _ =>
      (c.setLeftBearing related _).bind fun _ => (c.popAccent _).bind fun accent =>
        (c.compose font levels related accent).bind fun _ => c.clearStack

/-- Every operator goes in step. -/
theorem execute (c : Coupling excused R frames origins) (font : Font)
    (levels : NestedSimulates excused R frames limit limit' nested nested')
    (related : frames f f') (op : Operator) (unread : Bytes) :
    Simulates excused R (Eval.execute font limit nested f op unread)
      (Eval.execute font limit' nested' f' op unread) := by
  cases nests : op.nests with
  | false => exact c.toLocalCoupling.execute nests
  | true =>
      cases op with
      | callsubr =>
          unfold Eval.execute
          dsimp only
          simp only [c.subfont related]
          split
          · exact Simulates.throw _
          · exact c.call _ levels related
      | callgsubr => exact c.call _ levels related
      | endchar => exact (c.endchar font levels related).bind fun _ => Simulates.pure _
      | seac => exact (c.seac font levels related).bind fun _ => Simulates.pure _
      | _ => cases nests

/-! ## Programs -/

/-- A program goes in step from every byte on. -/
theorem evaluateAfter (c : Coupling excused R frames origins) (font : Font)
    (levels : NestedSimulates excused R frames limit limit' nested nested')
    (related : frames f f') (skip : Nat) (program : Bytes) :
    Simulates excused R
      (Eval.evaluateAfter (Eval.execute font limit nested f) f.depth skip program)
      (Eval.evaluateAfter (Eval.execute font limit' nested' f') f'.depth skip program) := by
  induction program generalizing skip with
  | nil =>
      simp only [Eval.evaluateAfter]
      exact Simulates.pure _
  | cons code rest ih =>
      cases skip with
      | succ skip => exact ih skip
      | zero =>
          simp only [Eval.evaluateAfter]
          refine (Simulates.lift _).bind fun token => ?_
          split
          · exact (c.changeStack _).bind fun _ => ih _
          · next op used =>
              have recorded : Simulates excused R
                  (modify fun s : Session => s.record (.operator f.depth op s.machine.stack))
                  (modify fun s : Session => s.record (.operator f'.depth op s.machine.stack)) := by
                refine .modify ?_
                intro s s' h
                simp only [c.machine h]
                exact c.operator related h op s.machine.stack
              refine recorded.bind fun _ => ?_
              refine (c.execute font levels related op _).bind fun flow => ?_
              cases flow with
              | proceed skip => exact ih _
              | stop endsGlyph => exact Simulates.pure _

/-- The evaluators of the next level go in step, if both runs have the same limit and as many levels
left, or the first one has no more levels and is excused for running out of them. -/
theorem below (c : Coupling excused R frames origins) (font : Font) {levels levels' : Nat}
    (room : limit' = limit ∧ levels' = levels ∨
      excused (.nestingTooDeep limit) ∧ levels ≤ levels') :
    NestedSimulates excused R frames limit limit' (Eval.below font limit levels)
      (Eval.below font limit' levels') := by
  induction levels generalizing levels' with
  | zero =>
      rcases room with ⟨same, rfl⟩ | ⟨h, _⟩
      · exact .bottom same
      · exact .excuse h
  | succ levels ih =>
      obtain ⟨levels', rfl⟩ : ∃ n, levels' = n + 1 := by
        rcases room with ⟨_, rfl⟩ | ⟨_, le⟩
        · exact ⟨levels, rfl⟩
        · exact ⟨levels' - 1, by omega⟩
      -- one level down the same is true of the levels that are left
      have next : limit' = limit ∧ levels' = levels ∨
          excused (.nestingTooDeep limit) ∧ levels ≤ levels' :=
        room.imp (And.imp_right Nat.succ.inj) (And.imp_right Nat.le_of_succ_le_succ)
      refine .levels ?_
      intro f f' related program
      simp only [evaluate_eq]
      exact c.evaluateAfter font (ih next) related 0 program

theorem evaluate (c : Coupling excused R frames origins) (font : Font) {levels levels' : Nat}
    (room : limit' = limit ∧ levels' = levels ∨
      excused (.nestingTooDeep limit) ∧ levels ≤ levels')
    (related : frames f f') (program : Bytes) :
    Simulates excused R (Eval.evaluate font limit levels f program)
      (Eval.evaluate font limit' levels' f' program) := by
  simp only [evaluate_eq]
  exact c.evaluateAfter font (c.below font room) related 0 program

/-- The evaluation of a whole glyph goes in step. -/
theorem drawGlyph (c : Coupling excused R frames origins) (font : Font) (glyph : GlyphId)
    (room : limit' = limit ∨ excused (.nestingTooDeep limit) ∧ limit ≤ limit')
    (top : ∀ subfont, frames ⟨subfont, false, 0⟩ ⟨subfont, false, 0⟩) :
    Simulates excused R (Eval.drawGlyph font limit glyph) (Eval.drawGlyph font limit' glyph) := by
  have both : limit' = limit ∧ limit' = limit ∨
      excused (.nestingTooDeep limit) ∧ limit ≤ limit' :=
    room.imp_left fun same => ⟨same, same⟩
  refine c.withGlyph font glyph fun located => ?_
  refine (c.callHook _).bind fun _ => ?_
  exact c.runProgram (top _) (fun program => c.evaluate font both (top _) program) _

end Coupling

end Type2Glyphs
