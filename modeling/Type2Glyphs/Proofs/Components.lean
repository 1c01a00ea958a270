import Type2Glyphs.Proofs.Draft.Sketch
import Type2Glyphs.Proofs.Loading

/-!
# Components — a component is a glyph loaded on its own

A component of an accented glyph is drawn into a draft that holds other loops already, from another
origin, one level deeper and with the random numbers that are next.  What it adds to the draft are
the loops of the same glyph loaded on its own, moved to that origin.

The two runs go in step as long as the component can be drawn: on its own the glyph has at least as
many levels left, and at most as many points and contours.
-/

namespace Type2Glyphs

open Outcome

/-! ## Sketches after other loops -/

namespace Sketch

variable (before : List Loop) (f : Point → Point) (sketch : Sketch)

@[simp] theorem after_close : (sketch.after before f).close = sketch.close.after before f := by
  cases pending : sketch.pending <;> simp [after, close, current, pending]

theorem after_extend (stroke : Stroke) :
    (sketch.after before f).extend (stroke.map f) = (sketch.extend stroke).after before f := by
  cases pending : sketch.pending <;> simp [after, extend, Loop.extend, Loop.map, pending]

theorem after_commit : (sketch.after before f).commit = sketch.commit.after before f := by
  cases pending : sketch.pending <;> simp [after, commit, loops, current, pending]

theorem loops_after : (sketch.after before f).loops = before ++ sketch.loops.map (.map f) := by
  cases pending : sketch.pending <;> simp [after, loops, current, pending]

theorem length_points_le_after : sketch.points.length ≤ (sketch.after before f).points.length := by
  simp only [points]
  simp only [loops_after, List.flatMap_append, List.length_append, List.flatMap_map]
  have same : (sketch.loops.flatMap fun loop => (loop.map f).points).length =
      (sketch.loops.flatMap Loop.points).length := by
    simp [List.length_flatMap, Loop.points_map]
  omega

end Sketch

/-! ## Drafts of components -/

/-- The first draft holds the second one at a displacement, after other loops. -/
structure Draft.Displaced (before : List Loop) (offset : Point) (draft alone : Draft) : Prop where
  shown : ∃ sketch, alone.Shows sketch ∧ draft.Shows (sketch.after before (· + offset))
  contourCount : alone.contourCount ≤ draft.contourCount
  origin : draft.origin = alone.origin + offset
  draws : draft.listsComponents = false
  drawsAlone : alone.listsComponents = false

namespace Draft.Displaced

variable {before : List Loop} {offset : Point} {draft alone : Draft}

theorem pointCount (h : Displaced before offset draft alone) :
    alone.pointCount ≤ draft.pointCount := by
  rcases h.shown with ⟨sketch, shown, displaced⟩
  simp only [shown.pointCount, displaced.pointCount]
  exact sketch.length_points_le_after before _

theorem isOpen (h : Displaced before offset draft alone) : alone.isOpen = draft.isOpen := by
  rcases h.shown with ⟨sketch, shown, displaced⟩
  simp only [shown.isOpen, displaced.isOpen]
  exact (Option.isSome_map ..).symm

/-- A point is put at the same place in both, up to the displacement. -/
theorem place (h : Displaced before offset draft alone) (p : Point) :
    p + draft.origin = p + alone.origin + offset := by
  simp only [h.origin, Point.add_assoc]

theorem coupling (before : List Loop) (offset : Point) :
    DraftCoupling (fun _ => True) (Displaced before offset) (fun _ _ => True)
      (fun o o' => o = o' + offset) where
  isOpen h := h.isOpen
  -- the component can run into a limit before the glyph on its own does, but not after it
  counts h := .inr ⟨trivial, h.pointCount, h.contourCount⟩
  closeContour := by
    intro d d' h
    rcases h.shown with ⟨sketch, shown, displaced⟩
    have closed := displaced.closeContour
    simp only [Sketch.after_close] at closed
    refine ⟨⟨_, shown.closeContour, closed⟩, ?_, ?_, ?_, ?_⟩
    · simpa using h.contourCount
    · simpa using h.origin
    · simpa using h.draws
    · simpa using h.drawsAlone
  start := by
    intro d d' h closed _ room p
    rcases h.shown with ⟨sketch, shown, displaced⟩
    have roomAlone := Nat.lt_of_le_of_lt h.pointCount room
    have started := displaced.start closed room p
    simp only [h.place] at started
    exact ⟨⟨_, shown.start (h.isOpen.trans closed) roomAlone p, started⟩,
      Nat.succ_le_succ h.contourCount, h.origin, h.draws, h.drawsAlone⟩
  line := by
    intro d d' h isOpen room p
    rcases h.shown with ⟨sketch, shown, displaced⟩
    have drawn := displaced.line isOpen room p
    simp only [h.place] at drawn
    have roomAlone := Nat.lt_of_le_of_lt h.pointCount room
    refine ⟨⟨_, shown.line (h.isOpen.trans isOpen) roomAlone p, ?_⟩, h.contourCount, h.origin,
      h.draws, h.drawsAlone⟩
    rw [← Sketch.after_extend]
    exact drawn
  curve := by
    intro d d' h isOpen room c₁ c₂ p
    rcases h.shown with ⟨sketch, shown, displaced⟩
    have drawn := displaced.curve isOpen room c₁ c₂ p
    simp only [h.place] at drawn
    have roomAlone := Nat.le_trans (Nat.add_le_add_right h.pointCount 3) room
    refine ⟨⟨_, shown.curve (h.isOpen.trans isOpen) roomAlone c₁ c₂ p, ?_⟩, h.contourCount,
      h.origin, h.draws, h.drawsAlone⟩
    rw [← Sketch.after_extend]
    exact drawn
  components := trivial
  commit := by
    intro d d' h
    rcases h.shown with ⟨sketch, shown, displaced⟩
    have committed := displaced.commit
    simp only [Sketch.after_commit] at committed
    refine ⟨⟨_, shown.commit, committed⟩, ?_, ?_, ?_, ?_⟩
    · simpa using h.contourCount
    · simpa using h.origin
    · simpa using h.draws
    · simpa using h.drawsAlone
  listsComponents h := by rw [h.draws, h.drawsAlone]
  origin h := h.origin
  withOrigin := by
    intro d d' h o o' same
    rcases h.shown with ⟨sketch, shown, displaced⟩
    exact ⟨⟨sketch, { shown with }, { displaced with }⟩, h.contourCount, same, h.draws,
      h.drawsAlone⟩
  displaced := by
    rintro _ o' rfl v
    exact Point.add_right_comm o' offset v
  advance := by
    intro c c' _ d d' h a
    rcases h.shown with ⟨sketch, shown, displaced⟩
    cases c <;> cases c' <;> exact ⟨⟨sketch, { shown with }, { displaced with }⟩,
      h.contourCount, h.origin, h.draws, h.drawsAlone⟩
  leftBearing := by
    intro c c' _ d d' h b
    rcases h.shown with ⟨sketch, shown, displaced⟩
    cases c <;> cases c' <;> exact ⟨⟨sketch, { shown with }, { displaced with }⟩,
      h.contourCount, h.origin, h.draws, h.drawsAlone⟩

end Draft.Displaced

/-! ## Components and loads -/

/-- The settings for a load that draws components. -/
def LoadSettings.drawing (settings : LoadSettings) : LoadSettings :=
  { settings with flags := { settings.flags with noRecurse := false } }

/-- The settings for a component on its own: so many levels, and random numbers from there. -/
def LoadSettings.alone (levels : Nat) (seed : UInt32) (settings : LoadSettings) : LoadSettings :=
  { settings.drawing with depthLimit := levels, randomSeed := seed }

/-- Nothing is open, listed or hooked, and the draft holds the given loops. -/
structure Session.Holds (session : Session) (loops : List Loop) : Prop where
  shown : session.draft.Shows ⟨loops, [], none⟩
  draws : session.draft.listsComponents = false
  components : session.components = []
  unhooked : session.hook = none

/-- Sessions with drafts at a displacement, with nothing listed and no hint hook. -/
abbrev Session.Displaced (before : List Loop) (offset : Point) : Session → Session → Prop :=
  Alike (Draft.Displaced before offset) (fun list list' => list = [] ∧ list' = []) fun _ => False

theorem Session.Displaced.coupling (before : List Loop) (offset : Point) :
    Coupling (fun _ => True) (Session.Displaced before offset) (Frame.Alike fun _ _ => True)
      (fun o o' => o = o' + offset) := by
  refine (Draft.Displaced.coupling before offset).coupling ?_ _
  intro d d' h listing
  have draws := h.draws
  rw [listing] at draws
  cases draws

/-- Before a component is drawn, its session is displaced from that of a load on its own. -/
theorem Session.Holds.displaced {before : List Loop} {s : Session} (holds : s.Holds before)
    {settings : LoadSettings} (keepsPoints : settings.flags.metricsOnly = false) (levels : Nat)
    (offset : Point) (glyph : GlyphId) :
    Session.Displaced before offset
      ({ (s.mapDraft fun draft => { draft with origin := offset }).note (.fetched glyph) with
        machine := {} }.record .start)
      (.started (settings.alone levels s.random) glyph) := by
  -- nothing of the component has been drawn yet
  have blank : (⟨before, [], none⟩ : Sketch) = Sketch.blank.after before (· + offset) := by
    simp [Sketch.after, Sketch.blank]
  have shown := holds.shown
  rw [blank] at shown
  have start := Draft.shows_initial (settings.alone levels s.random) none keepsPoints
  refine Alike.of_unhooked rfl ?_ rfl ⟨holds.components, rfl⟩ holds.unhooked
    (Session.hook_initial _)
  refine ⟨⟨.blank, { start with }, { shown with }⟩, Nat.zero_le _, ?_, holds.draws, rfl⟩
  exact (Point.zero_add offset).symm

/-- A component adds the loops of the glyph on its own, at its place. -/
theorem drawComponent_alone {font : Font} {settings : LoadSettings} {levels depth limit : Nat}
    {origin : Point} {component : Component} {before : List Loop} {s t : Session}
    (holds : s.Holds before) (unscaled : settings.factor = none)
    (keepsPoints : settings.flags.metricsOnly = false)
    (drawn : Eval.drawComponent font (Eval.evaluate font limit levels) depth origin component s =
      .ok () t) :
    ∃ loaded loops session,
      font.load component.glyph (settings.alone levels s.random) none =
        ⟨.ok loaded, session⟩ ∧
      loaded.outline = .ofLoops loops ∧
      t.Holds (before ++ loops.map (.map (· + (origin + component.offset)))) ∧
      t.random = session.random ∧ t.machine = s.machine := by
  obtain ⟨located, _, found, run, rfl⟩ :=
    (Eval.drawComponent_eq_ok holds.unhooked).1 drawn
  rcases Eval.runProgram_eq_ok.1 run with ⟨unread, t, evaluated, rfl⟩
  -- the glyph on its own has the same levels left, and is evaluated in step with the component
  have related := holds.displaced keepsPoints levels (origin + component.offset) component.glyph
  have frames : Frame.Alike (fun _ _ => True) ⟨located.subfont, true, depth + 1⟩
      ⟨located.subfont, false, 0⟩ := ⟨rfl, trivial⟩
  have room : levels = limit ∧ levels = levels ∨ True ∧ levels ≤ levels :=
    .inr ⟨trivial, Nat.le_refl levels⟩
  have outcomes := (Session.Displaced.coupling before (origin + component.offset)).evaluate font
    room frames located.program related
  rw [evaluated] at outcomes
  rcases outcomes.of_ok with ⟨t', evaluated', after⟩
  have loaded : font.load component.glyph (settings.alone levels s.random) none = _ :=
    load_of_ended found evaluated' (after.hook.trans after.noHook)
  rcases after.draft.shown with ⟨sketch, shown, displaced⟩
  have committed := displaced.commit
  simp only [Sketch.after_commit] at committed
  refine ⟨_, sketch.loops, _, loaded, ?_, ⟨?_, ?_, after.components.1, after.noHook⟩,
    after.random.symm, rfl⟩
  · simp only [LoadedGlyph.outline_ofSession]
    have factor : (settings.alone levels s.random).factor = none := unscaled
    rw [factor]
    have advanced : (t'.ended located.subfont component.glyph).draft.Shows sketch :=
      { shown with }
    exact advanced.finish
  · have done : sketch.commit.after before (· + (origin + component.offset)) =
        ⟨before ++ sketch.loops.map (.map (· + (origin + component.offset))), [], none⟩ := rfl
    rw [← done]
    exact committed
  · exact (Draft.listsComponents_commit _).trans after.draft.draws

/-- A base and its mark add their loops one after the other, each with the random numbers that are
next. -/
theorem drawComponents_alone {font : Font} {settings : LoadSettings} {levels depth limit : Nat}
    {base mark : GlyphId} {offset : Point} {sketch : Sketch} {s t : Session}
    (shown : s.draft.Shows sketch) (origin : s.draft.origin = 0)
    (draws : s.draft.listsComponents = false) (components : s.components = [])
    (unhooked : s.hook = none) (unscaled : settings.factor = none)
    (keepsPoints : settings.flags.metricsOnly = false)
    (drawn : Eval.drawComponents font limit (Eval.below font limit levels) depth
      [⟨base, 0⟩, ⟨mark, offset⟩] s = .ok () t) :
    ∃ lower loaded session loaded' session' loops loops',
      levels = lower + 1 ∧
      font.load base (settings.alone lower s.random) none = ⟨.ok loaded, session⟩ ∧
      font.load mark (settings.alone lower session.random) none = ⟨.ok loaded', session'⟩ ∧
      loaded.outline = .ofLoops loops ∧ loaded'.outline = .ofLoops loops' ∧
      t.Holds (sketch.loops ++ loops ++ loops'.map (.map (· + offset))) ∧
      t.random = session'.random ∧ t.machine = s.machine := by
  cases levels with
  | zero => cases drawn
  | succ lower =>
      rcases bind_eq_ok.1 drawn with ⟨_, _, committed, drawing⟩
      cases committed
      rcases bind_eq_ok.1 drawing with ⟨_, _, at0, drawing⟩
      cases at0
      rcases andFinally_eq_ok.1 drawing with ⟨u, both, rfl⟩
      rcases bind_eq_ok.1 both with ⟨_, v, first, rest⟩
      rcases bind_eq_ok.1 rest with ⟨_, w, second, nothing⟩
      cases nothing
      -- the mark is drawn from the same origin as the base, which is that of the glyph
      have holds : (s.mapDraft Draft.commit).Holds sketch.loops :=
        ⟨shown.commit, (Draft.listsComponents_commit _).trans draws, components, unhooked⟩
      have here : (s.mapDraft Draft.commit).draft.origin = 0 :=
        (Draft.origin_commit _).trans origin
      obtain ⟨loaded, loops, session, load, outline, between, random, machine⟩ :=
        drawComponent_alone holds unscaled keepsPoints first
      obtain ⟨loaded', loops', session', load', outline', after, random', machine'⟩ :=
        drawComponent_alone between unscaled keepsPoints second
      simp only [here, Point.add_zero, Point.zero_add, Loop.map_self, List.map_id] at after
      rw [random] at load'
      exact ⟨lower, loaded, session, loaded', session', loops, loops', rfl, load, load', outline,
        outline', ⟨{ after.shown with }, after.draws, after.components, after.unhooked⟩, random',
        machine'.trans machine⟩

end Type2Glyphs
