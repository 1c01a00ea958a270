import Type2Glyphs.Load.Glyph
import Type2Glyphs.Proofs.Outcome

/-!
# GlyphRun — what is done around the program of a glyph

The program of a glyph or component is fetched and released, and is evaluated on a machine of its
own; if it ends the glyph, the advance is set.  The theorems say what this comes to, from what the
evaluation comes to.

Where no hint hook is called, a component is drawn in the same way as a glyph, but for the origin
and the commit at the end.
-/

namespace Type2Glyphs

open Outcome

/-- How often the evaluation of a glyph or component was started. -/
def Session.starts (session : Session) : Nat :=
  session.trace.count .start

/-- The session after a program that has ended its glyph, with the machine from before. -/
def Session.leave (frame : Frame) (machine : Machine) (session : Session) : Session :=
  let advance : Point := ⟨frame.subfont.advance session.machine.width, 0⟩
  { (session.mapDraft fun draft =>
      if frame.isComponent then draft else { draft with advance }).record .stop with machine }

namespace Eval

variable {evaluate : Evaluator} {frame : Frame} {program : Bytes} {font : Font} {glyph : GlyphId}
  {limit : Nat} {α : Type} {s t u : Session}

/-! ## Programs of glyphs -/

/-- A program that changes the draft of a frame that is no component’s. -/
theorem setAdvance_apply (frame : Frame) (s : Session) :
    setAdvance frame s =
      .ok () (s.mapDraft fun draft =>
        if frame.isComponent then draft
        else { draft with advance := ⟨frame.subfont.advance s.machine.width, 0⟩ }) := by
  simp only [setAdvance]
  cases frame.isComponent <;> rfl

theorem setLeftBearing_apply (frame : Frame) (bearing : Fixed) (s : Session) :
    setLeftBearing frame bearing s =
      .ok () (s.mapDraft fun draft =>
        if frame.isComponent then draft else { draft with leftBearing := ⟨bearing, 0⟩ }) := by
  simp only [setLeftBearing]
  cases frame.isComponent <;> rfl

theorem runProgram_apply (evaluate : Evaluator) (frame : Frame) (program : Bytes) (s : Session) :
    runProgram evaluate frame program s =
      match evaluate frame program ({ s with machine := {} }.record .start) with
      | .error e t => .error e { t with machine := s.machine }
      | .ok ending t =>
          if ending.endsGlyph then
            .ok () (t.leave frame s.machine)
          else
            .error (.charstring .unterminated) { t with machine := s.machine } := by
  have started : (modify (Session.record .start) : Eval Unit) { s with machine := {} } =
      .ok () ({ s with machine := {} }.record .start) := rfl
  simp only [runProgram, onFreshMachine]
  simp only [bind_ok started]
  -- only a program that ended its glyph sets an advance
  cases run : evaluate frame program ({ s with machine := {} }.record .start) with
  | error e t => rw [bind_error run]
  | ok ending t =>
      simp only [bind_ok run]
      rcases ending with ⟨_ | _, unread⟩
      · rfl
      · have advanced := bind_ok (setAdvance_apply frame t) fun _ =>
          (modify (Session.record .stop) : Eval Unit)
        simp only [Bool.not_true, Bool.false_eq_true, if_false, advanced]
        rfl

theorem runProgram_eq_ok :
    runProgram evaluate frame program s = .ok () u ↔
      ∃ unread t, evaluate frame program ({ s with machine := {} }.record .start) =
        .ok ⟨true, unread⟩ t ∧ u = t.leave frame s.machine := by
  simp only [runProgram_apply]
  constructor
  · intro h
    cases run : evaluate frame program ({ s with machine := {} }.record .start) with
    | error e t =>
        rw [run] at h
        cases h
    | ok ending t =>
        rcases ending with ⟨endsGlyph, unread⟩
        rw [run] at h
        cases endsGlyph with
        | false => cases h
        | true =>
            cases h
            exact ⟨unread, t, rfl, rfl⟩
  · rintro ⟨unread, t, run, rfl⟩
    rw [run]
    rfl

/-! ## Fetching and releasing -/

theorem withGlyph_eq_ok {p : LocatedGlyph → Eval α} {a : α} :
    withGlyph font glyph p s = .ok a u ↔
      ∃ located t, font.locate glyph = .ok located ∧
        p located (s.note (.fetched glyph)) = .ok a t ∧ u = t.note (.released glyph) := by
  constructor
  · intro h
    rcases bind_eq_ok.1 h with ⟨located, _, locating, running⟩
    rcases locate_eq_ok.1 locating with ⟨found, rfl⟩
    rcases andFinally_eq_ok.1 running with ⟨t, run, rfl⟩
    exact ⟨located, t, found, run, rfl⟩
  · rintro ⟨located, t, found, run, rfl⟩
    refine bind_eq_ok.2 ⟨located, _, locate_eq_ok.2 ⟨found, rfl⟩, ?_⟩
    exact andFinally_eq_ok.2 ⟨t, run, rfl⟩

/-! ## Without a hint hook -/

theorem callHook_of_unhooked (unhooked : s.hook = none) (call : HintCall) :
    callHook call s = .ok () s := by
  rw [callHook_apply, unhooked]

/-- A glyph is drawn by its program. -/
theorem drawGlyph_eq_ok (unhooked : s.hook = none) :
    drawGlyph font limit glyph s = .ok () u ↔
      ∃ located t, font.locate glyph = .ok located ∧
        runProgram (Eval.evaluate font limit limit) ⟨located.subfont, false, 0⟩ located.program
          (s.note (.fetched glyph)) = .ok () t ∧ u = t.note (.released glyph) := by
  have silent : callHook (.openGlyph glyph) (s.note (.fetched glyph)) =
      .ok () (s.note (.fetched glyph)) := by
    refine callHook_of_unhooked ?_ _
    exact unhooked
  apply withGlyph_eq_ok.trans
  simp only [bind_ok silent]

/-- A glyph is not drawn if its program fails. -/
theorem drawGlyph_eq_error (unhooked : s.hook = none) {e : LoadError} {located : LocatedGlyph}
    (found : font.locate glyph = .ok located)
    (run : runProgram (Eval.evaluate font limit limit) ⟨located.subfont, false, 0⟩ located.program
      (s.note (.fetched glyph)) = .error e t) :
    drawGlyph font limit glyph s = .error e (t.note (.released glyph)) := by
  have silent : callHook (.openGlyph glyph) (s.note (.fetched glyph)) =
      .ok () (s.note (.fetched glyph)) := by
    refine callHook_of_unhooked ?_ _
    exact unhooked
  have locating : locate font glyph s = .ok located (s.note (.fetched glyph)) :=
    locate_eq_ok.2 ⟨found, rfl⟩
  refine (bind_ok locating _).trans ?_
  exact andFinally_error ((bind_ok silent _).trans run)

/-- A component is drawn by its program from another origin, and is then complete. -/
theorem drawComponent_eq_ok (unhooked : s.hook = none) {depth : Nat} {origin : Point}
    {component : Component} :
    drawComponent font evaluate depth origin component s = .ok () u ↔
      ∃ located t, font.locate component.glyph = .ok located ∧
        runProgram evaluate ⟨located.subfont, true, depth + 1⟩ located.program
          ((s.mapDraft fun draft => { draft with origin := origin + component.offset }).note
            (.fetched component.glyph)) = .ok () t ∧
        u = (t.mapDraft Draft.commit).note (.released component.glyph) := by
  simp only [drawComponent]
  simp only [bind_ok (callHook_of_unhooked unhooked .clearHints)]
  constructor
  · intro h
    rcases bind_eq_ok.1 h with ⟨_, _, moved, drawing⟩
    cases moved
    rcases withGlyph_eq_ok.1 drawing with ⟨located, _, found, running, rfl⟩
    rcases bind_eq_ok.1 running with ⟨_, t, run, committed⟩
    cases committed
    exact ⟨located, t, found, run, rfl⟩
  · rintro ⟨located, t, found, run, rfl⟩
    refine bind_eq_ok.2 ⟨(), _, rfl, ?_⟩
    exact withGlyph_eq_ok.2 ⟨located, _, found, bind_ok run _, rfl⟩

end Eval

end Type2Glyphs
