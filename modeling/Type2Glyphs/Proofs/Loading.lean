import Type2Glyphs.Proofs.GlyphRun

/-!
# Loading — from what was drawn to the loaded glyph

Loading draws the glyph and then assembles what was drawn.  Without a hint hook, or with one that
leaves the outline alone, the loaded glyph is a function of the session in which drawing ends.
-/

namespace Type2Glyphs

open Outcome

/-- The glyph as it was drawn in a session. -/
def LoadedGlyph.ofSession (font : Font) (settings : LoadSettings) (session : Session) :
    LoadedGlyph :=
  .assemble settings session.draft.finish.1 session.components session.draft.leftBearing
    session.draft.advance session.draft.finish.2 font.vertical

/-- A hint hook that does not change the outline that it is given. -/
def HintHook.LeavesOutline (hook : HintHook) : Prop :=
  ∀ calls outline, hook.adjust calls outline = outline

variable {font : Font} {settings : LoadSettings} {glyph : GlyphId} {hook : Option HintHook}
  {session after : Session}

/-! ## Assembling -/

theorem LoadedGlyph.outline_ofSession (font : Font) (settings : LoadSettings)
    (session : Session) :
    (ofSession font settings session).outline =
      match settings.factor with
      | none => session.draft.finish.1
      | some factor => session.draft.finish.1.scale factor := by
  simp only [ofSession, assemble]
  cases settings.factor <;> rfl

/-- Without a scale factor the measures are those of the draft. -/
theorem LoadedGlyph.ofSession_of_unscaled (font : Font) (unscaled : settings.factor = none)
    (session : Session) :
    let loaded := ofSession font settings session
    loaded.outline = session.draft.finish.1 ∧ loaded.box = session.draft.finish.2 ∧
      loaded.advance = session.draft.advance ∧ loaded.components = session.components := by
  unfold ofSession assemble
  rw [unscaled]
  exact ⟨rfl, rfl, rfl, rfl⟩

/-- The glyph as it was drawn in a session, but with that outline. -/
def LoadedGlyph.ofOutline (font : Font) (settings : LoadSettings) (session : Session)
    (outline : Outline) : LoadedGlyph :=
  .assemble settings outline session.components session.draft.leftBearing session.draft.advance
    session.draft.finish.2 font.vertical

/-- The outline that a hint hook makes of the one that it is given. -/
def HintHook.adjusted (hook : Option HintHook) (calls : List HintCall) (outline : Outline) :
    Outline :=
  match hook with
  | none => outline
  | some hook => hook.adjust calls outline

theorem closeHook_apply (outline : Outline) (session : Session) :
    Eval.closeHook outline session =
      match Eval.callHook (.close outline) session with
      | .error e after => .error e after
      | .ok _ after => .ok (HintHook.adjusted session.hook after.hintCalls outline) after := by
  simp only [Eval.closeHook]
  apply (bind_ok (get_apply session) _).trans
  cases closed : Eval.callHook (.close outline) session with
  | error e after => exact bind_error closed _
  | ok u after => exact bind_ok closed _

/-- A glyph is finished with the outline that the hook makes of it, unless the hook fails. -/
theorem finishGlyph_apply (font : Font) (settings : LoadSettings) (session : Session) :
    Eval.finishGlyph font settings session =
      match Eval.callHook (.close session.draft.finish.1) session with
      | .error e after => .error e after
      | .ok _ after => .ok (.ofOutline font settings session
          (HintHook.adjusted session.hook after.hintCalls session.draft.finish.1)) after := by
  have handed := closeHook_apply session.draft.finish.1 session
  simp only [Eval.finishGlyph]
  apply (bind_ok (get_apply session) _).trans
  cases closed : Eval.callHook (.close session.draft.finish.1) session with
  | error e after =>
      rw [closed] at handed
      exact bind_error handed _
  | ok u after =>
      rw [closed] at handed
      exact bind_ok handed _

theorem finishGlyph_of_unhinted (unhinted : session.hook = none) :
    Eval.finishGlyph font settings session = .ok (.ofSession font settings session) session := by
  rw [finishGlyph_apply, callHook_apply, unhinted]
  rfl

/-- A glyph that was finished was handed to the hint hook, which may have changed the outline. -/
theorem closed_of_finishGlyph {loaded : LoadedGlyph}
    (finished : Eval.finishGlyph font settings session = .ok loaded after) :
    Eval.callHook (.close session.draft.finish.1) session = .ok () after ∧
      loaded = .ofOutline font settings session
        (HintHook.adjusted session.hook after.hintCalls session.draft.finish.1) := by
  rw [finishGlyph_apply] at finished
  cases closed : Eval.callHook (.close session.draft.finish.1) session with
  | error e t =>
      rw [closed] at finished
      cases finished
  | ok u t =>
      rw [closed] at finished
      cases finished
      exact ⟨rfl, rfl⟩

/-- Whatever else the hook does, the outline that it leaves alone is the one that was drawn. -/
theorem finishGlyph_eq_ok {loaded : LoadedGlyph}
    (leaves : ∀ hook, session.hook = some hook → hook.LeavesOutline)
    (h : Eval.finishGlyph font settings session = .ok loaded after) :
    loaded = .ofSession font settings session := by
  obtain ⟨_, rfl⟩ := closed_of_finishGlyph h
  cases hooked : session.hook with
  | none => rfl
  | some hook =>
      have unchanged : HintHook.adjusted (some hook) after.hintCalls session.draft.finish.1 =
          session.draft.finish.1 := leaves hook hooked _ _
      rw [unchanged]
      rfl

/-! ## Whole loads -/

theorem load_of_drawn (drawn : Eval.drawGlyph font settings.depthLimit glyph
      (.initial settings hook) = .ok () session) (unhinted : session.hook = none) :
    font.load glyph settings hook = ⟨.ok (.ofSession font settings session), session⟩ := by
  have loaded : Eval.loadGlyph font glyph settings (.initial settings hook) =
      .ok (.ofSession font settings session) session :=
    (bind_ok drawn _).trans (finishGlyph_of_unhinted unhinted)
  simp only [Font.load]
  rw [loaded]

theorem load_of_failed {e : LoadError} (failed : Eval.drawGlyph font settings.depthLimit glyph
      (.initial settings hook) = .error e session) :
    font.load glyph settings hook = ⟨.error e, session⟩ := by
  have loaded : Eval.loadGlyph font glyph settings (.initial settings hook) = .error e session :=
    bind_error failed _
  simp only [Font.load]
  rw [loaded]

/-- For a glyph that is not found nothing is done. -/
theorem load_of_unlocated {e : LoadError} (missing : font.locate glyph = .error e) :
    font.load glyph settings hook = ⟨.error e, .initial settings hook⟩ := by
  have lost : Eval.locate font glyph (.initial settings hook) =
      .error e (.initial settings hook) := by
    rw [locate_apply, missing]
  exact load_of_failed (bind_error lost _)

/-- A load that succeeds has drawn the glyph and assembled it. -/
theorem drawn_of_load {loaded : LoadedGlyph}
    (h : (font.load glyph settings hook).result = .ok loaded) :
    ∃ session after, Eval.drawGlyph font settings.depthLimit glyph (.initial settings hook) =
      .ok () session ∧ Eval.finishGlyph font settings session = .ok loaded after := by
  simp only [Font.load] at h
  cases run : Eval.loadGlyph font glyph settings (.initial settings hook) with
  | error e t =>
      rw [run] at h
      cases h
  | ok result t =>
      rw [run] at h
      cases h
      rcases bind_eq_ok.1 run with ⟨_, session, drawn, finished⟩
      exact ⟨session, t, drawn, finished⟩

/-- A load succeeds exactly when the glyph is drawn and then finished. -/
theorem load_eq_ok {loaded : LoadedGlyph} :
    font.load glyph settings hook = ⟨.ok loaded, after⟩ ↔
      ∃ session, Eval.drawGlyph font settings.depthLimit glyph (.initial settings hook) =
        .ok () session ∧ Eval.finishGlyph font settings session = .ok loaded after := by
  have report : font.load glyph settings hook = ⟨.ok loaded, after⟩ ↔
      Eval.loadGlyph font glyph settings (.initial settings hook) = .ok loaded after := by
    simp only [Font.load]
    cases Eval.loadGlyph font glyph settings (.initial settings hook) <;> simp
  refine report.trans (bind_eq_ok.trans ?_)
  exact ⟨fun ⟨_, session, run⟩ => ⟨session, run⟩, fun ⟨session, run⟩ => ⟨(), session, run⟩⟩

/-! ## Loads without a hint hook -/

namespace Session

/-- The session in which the program of a glyph to be loaded is evaluated. -/
def started (settings : LoadSettings) (glyph : GlyphId) : Session :=
  { (initial settings none).note (.fetched glyph) with machine := {} }.record .start

/-- The session after the program of a loaded glyph has ended it. -/
def ended (subfont : Subfont) (glyph : GlyphId) (session : Session) : Session :=
  (session.leave ⟨subfont, false, 0⟩ {}).note (.released glyph)

theorem hook_initial (settings : LoadSettings) : (initial settings none).hook = none :=
  ite_self none

end Session

/-- What the program of a glyph to be loaded comes to. -/
abbrev LocatedGlyph.evaluated (located : LocatedGlyph) (font : Font) (settings : LoadSettings)
    (glyph : GlyphId) : EStateM.Result LoadError Session Ending :=
  Eval.evaluate font settings.depthLimit settings.depthLimit ⟨located.subfont, false, 0⟩
    located.program (.started settings glyph)

section Unhooked

variable {located : LocatedGlyph} {e : LoadError}

theorem load_of_ended (found : font.locate glyph = .ok located) {unread : Bytes}
    (run : located.evaluated font settings glyph = .ok ⟨true, unread⟩ session)
    (unhooked : session.hook = none) :
    font.load glyph settings none =
      ⟨.ok (.ofSession font settings (session.ended located.subfont glyph)),
        session.ended located.subfont glyph⟩ := by
  have drawn : Eval.drawGlyph font settings.depthLimit glyph (.initial settings none) =
      .ok () (session.ended located.subfont glyph) :=
    (Eval.drawGlyph_eq_ok (Session.hook_initial settings)).2
      ⟨located, _, found, Eval.runProgram_eq_ok.2 ⟨unread, session, run, rfl⟩, rfl⟩
  exact load_of_drawn drawn unhooked

/-- A program that fails or does not end the glyph. -/
theorem load_of_stuck (found : font.locate glyph = .ok located)
    (run : located.evaluated font settings glyph = .error e session ∨
      ∃ unread, e = .charstring .unterminated ∧
        located.evaluated font settings glyph = .ok ⟨false, unread⟩ session) :
    (font.load glyph settings none).result = .error e := by
  have failing : Eval.runProgram
      (Eval.evaluate font settings.depthLimit settings.depthLimit) ⟨located.subfont, false, 0⟩
      located.program ((Session.initial settings none).note (.fetched glyph)) =
      .error e { session with machine := {} } := by
    simp only [Eval.runProgram_apply]
    rcases run with run | ⟨unread, rfl, run⟩
    · simp only [LocatedGlyph.evaluated, Session.started] at run
      rw [run]
      rfl
    · simp only [LocatedGlyph.evaluated, Session.started] at run
      rw [run]
      rfl
  have failed := Eval.drawGlyph_eq_error (Session.hook_initial settings) found failing
  simp only [load_of_failed failed]

end Unhooked

/-! ## An accented glyph -/

/-- A font of three glyphs: an accented one, a curve as its base and a line as its accent. -/
def Font.accented : Font where
  glyphs := .ofList
    [some [189, 239, 140, 141, 14], some [139, 22, 149, 159, 169, 179, 189, 199, 8, 14],
      some [149, 22, 149, 6, 14]]
  globalSubrs := .empty
  subfonts := [{}]

end Type2Glyphs
