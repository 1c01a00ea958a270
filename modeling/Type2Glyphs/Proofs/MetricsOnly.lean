import Type2Glyphs.Proofs.Draft.Coupling
import Type2Glyphs.Proofs.Loading

/-!
# MetricsOnly — measures without points

A load that keeps no points comes to the same measures, and fails with the same errors, as one that
keeps them and leaves the hint hook alone.

A draft without points is the other draft with its points forgotten, at every moment:
`Draft.measures` forgets them, and every change of a draft commutes with it.
-/

namespace Type2Glyphs

/-! ## Drafts -/

namespace Draft

/-- The draft with its points forgotten. -/
def measures (draft : Draft) : Draft :=
  { draft with base := .empty, current := .empty, keepsPoints := false }

theorem measures_closeContour (draft : Draft) :
    draft.measures.closeContour = draft.closeContour.measures := by
  cases isOpen : draft.isOpen <;> simp [closeContour, measures, isOpen]

theorem measures_commit (draft : Draft) : draft.measures.commit = draft.commit.measures := by
  -- with no points kept, a commit is no more than closing the contour
  have forgotten : draft.measures.commit = draft.closeContour.measures := by
    simp only [commit]
    simp only [measures_closeContour]
    rfl
  rw [forgotten]
  unfold commit
  dsimp only
  split
  · rfl
  · split <;> rfl

theorem measures_coupling :
    DraftCoupling (fun _ => False) (fun draft draft' => draft' = draft.measures) Eq Eq where
  isOpen h := by rw [h]; rfl
  counts h := .inl (by rw [h]; exact ⟨rfl, rfl⟩)
  closeContour h := by rw [h, measures_closeContour]
  start h _ _ _ _ := by rw [h]; rfl
  line h _ _ _ := by rw [h]; rfl
  curve h _ _ _ _ _ := by rw [h]; rfl
  components := rfl
  commit h := by rw [h, measures_commit]
  listsComponents h := by rw [h]; rfl
  origin h := by rw [h]; rfl
  withOrigin h _ _ same := by rw [h, ← same]; rfl
  displaced same _ := by rw [same]
  advance := by
    rintro c _ rfl d _ rfl a
    cases c <;> rfl
  leftBearing := by
    rintro c _ rfl d _ rfl b
    cases c <;> rfl

end Draft

/-! ## Glyphs -/

/-- The glyph without its points. -/
def LoadedGlyph.withoutOutline (loaded : LoadedGlyph) : LoadedGlyph :=
  { loaded with outline := .empty }

namespace LoadSettings

/-- The settings for a load that keeps no points. -/
def metricsOnly (settings : LoadSettings) : LoadSettings :=
  { settings with flags := settings.flags.union { metricsOnly := true } }

/-- The settings for a load that keeps all points and leaves the hint hook alone. -/
def unhinted (settings : LoadSettings) : LoadSettings :=
  { settings with
    flags := { settings.flags.union { noHinting := true } with metricsOnly := false } }

theorem factor_metricsOnly (settings : LoadSettings) :
    settings.metricsOnly.factor = settings.unhinted.factor :=
  rfl

end LoadSettings

@[simp] theorem Outline.scale_empty (factor : Fixed) : Outline.empty.scale factor = .empty := by
  simp [Outline.scale, Outline.empty]

theorem ofSession_measures (font : Font) (settings : LoadSettings) {s s' : Session}
    (drafts : s'.draft = s.draft.measures) (components : s'.components = s.components) :
    LoadedGlyph.ofSession font settings.metricsOnly s' =
      (LoadedGlyph.ofSession font settings.unhinted s).withoutOutline := by
  have finished : s'.draft.finish = (.empty, s.draft.finish.2) := by
    simp only [Draft.finish]
    rw [drafts, Draft.measures_commit]
    rfl
  have vertical : settings.metricsOnly.flags.verticalLayout =
      settings.unhinted.flags.verticalLayout := rfl
  simp only [LoadedGlyph.ofSession, LoadedGlyph.assemble, LoadedGlyph.withoutOutline]
  rw [finished, components, drafts, settings.factor_metricsOnly, vertical]
  cases settings.unhinted.factor with
  | none => rfl
  | some factor =>
      dsimp only
      simp only [Outline.scale_empty]
      rfl

/-- Sessions of the two loads: one draft is the other one with its points forgotten. -/
abbrev Session.Measured : Session → Session → Prop :=
  Alike (fun draft draft' => draft' = draft.measures) Eq fun _ => False

theorem Session.Measured.coupling :
    Coupling (fun _ => False) Session.Measured (Frame.Alike Eq) Eq :=
  Draft.measures_coupling.coupling (fun _ _ _ _ same _ => by rw [same]) _

theorem Session.Measured.initial (settings : LoadSettings) (hook hook' : Option HintHook) :
    Session.Measured (.initial settings.unhinted hook') (.initial settings.metricsOnly hook) := by
  have unhinted : (Session.initial settings.unhinted hook').hook = none := by
    simp [Session.initial, LoadSettings.hinting, LoadSettings.unhinted, LoadFlags.union]
  have measuredHook : (Session.initial settings.metricsOnly hook).hook = none := by
    simp [Session.initial, LoadSettings.hinting, LoadSettings.metricsOnly, LoadFlags.union]
  refine Alike.of_unhooked rfl ?_ rfl rfl unhinted measuredHook
  simp [Session.initial, Draft.measures, LoadSettings.unhinted, LoadSettings.metricsOnly,
    LoadFlags.union]

/-- Forgetting the points changes no count. -/
theorem Draft.counts_measures (draft : Draft) :
    draft.measures.commit.pointCount = draft.commit.pointCount ∧
      draft.measures.commit.contourCount = draft.commit.contourCount := by
  rw [draft.measures_commit]
  exact ⟨rfl, rfl⟩

/-- A load that keeps no points gives what a load that keeps them gives, with the same errors and
the same numbers of points and contours, but for the outline. -/
theorem load_metricsOnly (font : Font) (glyph : GlyphId) (settings : LoadSettings)
    (hook hook' : Option HintHook) :
    let measured := font.load glyph settings.metricsOnly hook
    let full := font.load glyph settings.unhinted hook'
    measured.result = full.result.map LoadedGlyph.withoutOutline ∧
      measured.session.draft.commit.pointCount = full.session.draft.commit.pointCount ∧
      measured.session.draft.commit.contourCount = full.session.draft.commit.contourCount := by
  intro measured full
  have start := Session.Measured.initial settings hook hook'
  have room : settings.depthLimit = settings.depthLimit ∨
      False ∧ settings.depthLimit ≤ settings.depthLimit := .inl rfl
  have outcomes := Session.Measured.coupling.drawGlyph font glyph room (fun _ => ⟨rfl, rfl⟩) start
  -- the two runs end together, and the glyph is assembled from drafts that differ in points only
  cases run : Eval.drawGlyph font settings.depthLimit glyph
      (.initial settings.unhinted hook') with
  | ok _ t =>
      rw [run] at outcomes
      rcases outcomes.of_ok with ⟨t', run', related⟩
      have silent : t.hook = none := related.noHook
      have fullLoad : full = _ := load_of_drawn run silent
      have measuredLoad : measured = _ := load_of_drawn run' (related.hook.trans silent)
      rw [fullLoad, measuredLoad]
      dsimp only
      rw [ofSession_measures font settings related.draft related.components.symm, related.draft]
      exact ⟨rfl, Draft.counts_measures _⟩
  | error e t =>
      rw [run] at outcomes
      rcases outcomes.of_error not_false with ⟨t', run', related⟩
      have fullLoad : full = _ := load_of_failed run
      have measuredLoad : measured = _ := load_of_failed run'
      rw [fullLoad, measuredLoad]
      dsimp only
      simp only [related.draft]
      exact ⟨rfl, Draft.counts_measures _⟩

end Type2Glyphs
