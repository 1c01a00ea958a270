import Type2Glyphs.Proofs.Hint.Calls

/-!
# Advisory — what is left of a hint hook that gives up

An advisory failure ends hinting.  The glyph is then the one that is loaded without a hook, with one
exception: the hook gets the outline in its last call, and what it does to the outline there stays
done although the call failed.
-/

namespace Type2Glyphs

variable {font : Font} {glyph : GlyphId} {settings : LoadSettings} {hook : HintHook}

/-! ## Outlines -/

/-- The outline, scaled as the settings say. -/
def LoadSettings.scaled (settings : LoadSettings) (outline : Outline) : Outline :=
  match settings.factor with
  | none => outline
  | some factor => outline.scale factor

/-- The outline of a glyph makes no difference to the rest of it. -/
theorem LoadedGlyph.ofOutline_eq (font : Font) (settings : LoadSettings) (session : Session)
    (outline : Outline) :
    ofOutline font settings session outline =
      { ofSession font settings session with outline := settings.scaled outline } := by
  simp only [ofOutline, ofSession, assemble, LoadSettings.scaled]
  cases settings.factor <;> rfl

/-! ## The last call -/

section Closing

variable {session : Session} (hooked : session.hook = some hook)

include hooked

/-- The outline is the last thing that the hook hears of. -/
theorem hintCalls_finishGlyph (font : Font) (settings : LoadSettings) :
    (finalSession (Eval.finishGlyph font settings session)).hintCalls =
      .close session.draft.finish.1 :: session.hintCalls := by
  simp only [finishGlyph_apply, Outcome.callHook_apply, hooked]
  cases hook.failure (.close session.draft.finish.1 :: session.hintCalls) with
  | none => rfl
  | some failure => cases failure <;> rfl

/-- A hook that has answered all calls before can still change the outline and fail. -/
theorem finishGlyph_of_advised (font : Font) (settings : LoadSettings)
    (answered : hook.Answers session.hintCalls) {call : HintCall} {earlier : List HintCall}
    {reason : String} (advised : hook.failure (call :: earlier) = some (.advisory reason))
    (heard : call :: earlier <:+
      (finalSession (Eval.finishGlyph font settings session)).hintCalls) :
    call = .close session.draft.finish.1 ∧
      outcome (Eval.finishGlyph font settings session) = .ok (.ofOutline font settings session
        (hook.adjust (call :: earlier) session.draft.finish.1)) := by
  rw [hintCalls_finishGlyph hooked] at heard
  obtain ⟨rfl, rfl⟩ := answered.latest advised heard
  refine ⟨rfl, ?_⟩
  simp only [finishGlyph_apply, Outcome.callHook_apply, hooked, advised]
  rfl

end Closing

/-! ## Loads -/

theorem Session.Heard.ofSession {given : Listener} {s t : Session} (h : s.Heard given t)
    (font : Font) (settings : LoadSettings) :
    LoadedGlyph.ofSession font settings s = .ofSession font settings t := by
  rw [h.same]
  rfl

/-- A glyph that can be loaded without a hook is drawn with the silent hook in the same way. -/
theorem drawn_silent (hinting : settings.hinting = true) {loaded : LoadedGlyph}
    (unhinted : (font.load glyph settings none).result = .ok loaded) :
    ∃ t, Eval.drawGlyph font settings.depthLimit glyph (.initial settings (some .silent)) =
      .ok () t ∧ LoadedGlyph.ofSession font settings t = loaded := by
  obtain ⟨s, after, drawn, finished⟩ := drawn_of_load unhinted
  have both := (Keeps.drawGlyph font settings.depthLimit glyph ⟨none, []⟩).follows
    (.initial hinting none)
  rw [drawn] at both
  revert both
  generalize Eval.drawGlyph font settings.depthLimit glyph (.initial settings (some .silent)) =
    result
  intro both
  cases both with
  | @ok _ _ t h =>
      -- a session that started without a hook never gets one
      have mute := h.heard.symm.trans (Listener.hearAll_mute _ _)
      have unhooked : s.hook = none := congrArg Listener.hook (Except.ok.inj mute)
      rw [finishGlyph_of_unhinted unhooked] at finished
      cases finished
      exact ⟨t, rfl, (h.ofSession font settings).symm⟩

/-- A glyph that was drawn is left to be finished. -/
theorem load_of_finished {hook : Option HintHook} {session : Session}
    (drawn : Eval.drawGlyph font settings.depthLimit glyph (.initial settings hook) =
      .ok () session) :
    font.load glyph settings hook =
      ⟨outcome (Eval.finishGlyph font settings session),
        finalSession (Eval.finishGlyph font settings session)⟩ := by
  have loading : Eval.loadGlyph font glyph settings (.initial settings hook) =
      Eval.finishGlyph font settings session := Outcome.bind_ok drawn _
  rw [load_eq, loading]

/-- A hook that fails with an advice does not keep the glyph from being drawn.  It is called no
more, or it has answered all calls so far. -/
theorem drawn_of_advised {loaded : LoadedGlyph}
    (unhinted : (font.load glyph settings none).result = .ok loaded)
    {call : HintCall} {earlier : List HintCall} {reason : String}
    (heard : call :: earlier <:+ (font.load glyph settings (some hook)).session.hintCalls)
    (advised : hook.failure (call :: earlier) = some (.advisory reason)) :
    ∃ s, Eval.drawGlyph font settings.depthLimit glyph (.initial settings (some hook)) =
      .ok () s ∧ LoadedGlyph.ofSession font settings s = loaded ∧
        (s.hook = none ∨ s.hook = some hook ∧ hook.Answers s.hintCalls) := by
  have hinting : settings.hinting = true := by
    cases hinting : settings.hinting with
    | true => rfl
    | false =>
        rw [hintCalls_of_unhinted hinting] at heard
        cases List.suffix_nil.1 heard
  obtain ⟨t, silent, same⟩ := drawn_silent hinting unhinted
  have both := (Keeps.drawGlyph font settings.depthLimit glyph ⟨some hook, []⟩).follows
    (.initial hinting (some hook))
  have answers := Listener.Heard.of_hearAll hook t.hintCalls
  rw [silent] at both
  cases drawn : Eval.drawGlyph font settings.depthLimit glyph (.initial settings (some hook)) with
  | ok u s =>
      rw [drawn] at both
      cases both with
      | ok h =>
          rw [h.heard] at answers
          exact ⟨s, rfl, (h.ofSession font settings).trans same, answers.of_ok⟩
  | error e s =>
      -- a hook that has ended the load did so in its latest call, which is the one that failed
      rw [drawn] at both
      cases both with
      | halted h =>
          simp only [finalSession] at h
          rw [h] at answers
          obtain ⟨latest, before, calls, answered, failed⟩ := answers.of_error
          simp only [load_of_failed drawn] at heard
          dsimp only at calls
          rw [calls] at heard
          obtain ⟨rfl, rfl⟩ := answered.latest advised heard
          cases failed.symm.trans advised

/-- A hook that fails with an advice leaves the glyph as it is loaded without a hook, unless the
call was the last one and the hook has changed the outline in it. -/
theorem load_advisory {loaded : LoadedGlyph}
    (unhinted : (font.load glyph settings none).result = .ok loaded)
    {call : HintCall} {earlier : List HintCall} {reason : String}
    (heard : call :: earlier <:+ (font.load glyph settings (some hook)).session.hintCalls)
    (advised : hook.failure (call :: earlier) = some (.advisory reason)) :
    (font.load glyph settings (some hook)).result = .ok loaded ∨
      ∃ outline, call = .close outline ∧ hook.adjust (call :: earlier) outline ≠ outline ∧
        (font.load glyph settings (some hook)).result = .ok { loaded with
          outline := settings.scaled (hook.adjust (call :: earlier) outline) } := by
  obtain ⟨s, drawn, rfl, calling⟩ := drawn_of_advised unhinted heard advised
  simp only [load_of_finished drawn] at heard ⊢
  rcases calling with unhooked | ⟨hooked, answered⟩
  · rw [finishGlyph_of_unhinted unhooked]
    exact .inl rfl
  · -- the call that failed was not heard before, so it is the one that gets the outline
    obtain ⟨last, result⟩ := finishGlyph_of_advised hooked font settings answered advised heard
    by_cases kept : hook.adjust (call :: earlier) s.draft.finish.1 = s.draft.finish.1
    · rw [kept] at result
      exact .inl result
    · rw [LoadedGlyph.ofOutline_eq] at result
      exact .inr ⟨_, last, kept, result⟩

theorem load_advisory_muted :
    ∃ loaded, (Font.accented.load ⟨0⟩ {} none).result = .ok loaded ∧
      (Font.accented.load ⟨0⟩ {} (some (.failingAt 1 (.advisory "no room")))).result =
        .ok loaded := by
  obtain ⟨loaded, unhinted⟩ : ∃ loaded, (Font.accented.load ⟨0⟩ {} none).result = .ok loaded :=
    ok_of_isOk (by decide +kernel)
  have calls : (Font.accented.load ⟨0⟩ {}
      (some (.failingAt 1 (.advisory "no room")))).session.hintCalls =
        [.clearHints, .openGlyph ⟨0⟩] := by decide +kernel
  have advised : (HintHook.failingAt 1 (.advisory "no room")).failure
      [.clearHints, .openGlyph ⟨0⟩] = some (.advisory "no room") := rfl
  rcases load_advisory unhinted (calls ▸ List.suffix_refl _) advised with same | ⟨_, last, _⟩
  · exact ⟨loaded, unhinted, same⟩
  · cases last

/-- A hook that moves the outline to the right and then gives up. -/
def HintHook.regretting : HintHook where
  failure
    | .close _ :: _ => some (.advisory "no room")
    | _ => none
  adjust _ outline := outline.shift ⟨1, 0⟩

/-- A glyph that was changed in the last call is not the one that is loaded without a hook. -/
theorem load_regretting :
    let unhinted := Font.accented.load ⟨1⟩ {} none
    let report := Font.accented.load ⟨1⟩ {} (some .regretting)
    unhinted.result.isOk ∧
      HintHook.regretting.failure report.session.hintCalls = some (.advisory "no room") ∧
      report.result ≠ unhinted.result := by
  decide +kernel

end Type2Glyphs
