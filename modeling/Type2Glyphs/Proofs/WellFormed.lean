import Type2Glyphs.Proofs.Draft.Sketch
import Type2Glyphs.Proofs.Loading

/-!
# WellFormed — every loaded outline can be drawn

The outline of a glyph that can be loaded is formed by loops, whatever its program does: by moves
and path operators, with contours that are opened on the way, in subroutines and in components.
Drawing it finds no fault.
-/

namespace Type2Glyphs

/-- Scaling keeps the loops of an outline. -/
theorem Outline.scale_ofLoops (factor : Fixed) (loops : List Loop) :
    (ofLoops loops).scale factor = ofLoops (loops.map (.map (.scale factor))) :=
  (ofLoops_map (.scale factor) loops).symm

/-- A draft that keeps no points shows nothing, and any other one shows a sketch from the start. -/
theorem finish_of_drawn {font : Font} {glyph : GlyphId} {settings : LoadSettings}
    {hook : Option HintHook} {session : Session}
    (drawn : Eval.drawGlyph font settings.depthLimit glyph (.initial settings hook) =
      .ok () session) :
    ∃ loops, session.draft.finish.1 = .ofLoops loops ∧
      (Outline.ofLoops loops).points.size ≤ maxPoints := by
  cases metricsOnly : settings.flags.metricsOnly with
  | true =>
      have start : (Session.initial settings hook).draft.Pointless := by
        refine ⟨?_, rfl, rfl⟩
        simp [Session.initial, metricsOnly]
      -- nothing is kept, so the outline is that of no loops
      have last := Draft.pointless_invariant.drawGlyph start drawn
      refine ⟨[], ?_, Nat.zero_le _⟩
      have finished := Draft.pointless_invariant.commit last
      exact finished.base
  | false =>
      have start := Draft.shows_initial settings hook metricsOnly
      rcases Draft.shows_invariant.drawGlyph ⟨.blank, start⟩ drawn with ⟨sketch, last⟩
      refine ⟨sketch.loops, last.finish, ?_⟩
      rw [← Array.length_toList, Outline.toList_points_ofLoops]
      -- the limit on the count is one on the outline, as every point was kept
      have room := last.room
      simp only [last.pointCount] at room
      exact room

/-- A loaded outline is formed by loops, with no more points than can be counted, if the hint hook
leaves it alone. -/
theorem load_formedBy {font : Font} {glyph : GlyphId} {settings : LoadSettings}
    {hook : Option HintHook} {loaded : LoadedGlyph}
    (leaves : ∀ given, hook = some given → given.LeavesOutline)
    (h : (font.load glyph settings hook).result = .ok loaded) :
    (∃ loops, loaded.outline.FormedBy loops) ∧ loaded.outline.points.size ≤ maxPoints := by
  rcases drawn_of_load h with ⟨session, after, drawn, finished⟩
  have hooked : ∀ given, (Session.initial settings hook).hook = some given →
      given.LeavesOutline := by
    intro given initial
    simp only [Session.initial] at initial
    cases hinting : settings.hinting <;> simp [hinting] at initial
    exact leaves given initial
  have outlined := finishGlyph_eq_ok (hooks_of_drawn hooked drawn) finished
  rcases finish_of_drawn drawn with ⟨loops, finish, room⟩
  rw [outlined, LoadedGlyph.outline_ofSession, finish]
  cases settings.factor with
  | none => exact ⟨⟨loops, Outline.formedBy_ofLoops loops⟩, room⟩
  | some factor =>
      dsimp only
      refine ⟨⟨loops.map (.map (.scale factor)), ?_⟩, ?_⟩
      · simp only [Outline.scale_ofLoops]
        exact Outline.formedBy_ofLoops _
      · simpa [Outline.scale] using room

theorem load_formedBy_accented :
    (Font.accented.load ⟨0⟩ {} (some .silent)).session.hintCalls.length = 4 ∧
      ∃ loaded, (Font.accented.load ⟨0⟩ {} (some .silent)).result = .ok loaded ∧
        loaded.outline.ends = #[3, 5] ∧
        (∃ loops, loaded.outline.FormedBy loops) ∧ loaded.outline.points.size ≤ maxPoints := by
  have leaves : ∀ given, some HintHook.silent = some given → given.LeavesOutline := by
    intro given same
    cases same
    exact fun _ _ => rfl
  have ends : (Font.accented.load ⟨0⟩ {} (some .silent)).result.toOption.map (fun loaded =>
      loaded.outline.ends) = some #[3, 5] := by decide +kernel
  refine ⟨by decide +kernel, ?_⟩
  cases result : (Font.accented.load ⟨0⟩ {} (some .silent)).result with
  | error e =>
      rw [result] at ends
      cases ends
  | ok loaded =>
      rw [result] at ends
      exact ⟨loaded, rfl, Option.some.inj ends, load_formedBy leaves result⟩

end Type2Glyphs
