import Type2Glyphs.Proofs.ControlBox

/-!
# Scaling — the same glyph with a factor and in font units

A factor is applied when a glyph is assembled, and not before: a load with a factor and the same
load in font units draw alike and make the same calls of the hint hook.  So every measure of the
scaled glyph is the measure in font units times the factor, rounded once.

Two things do not follow from that alone.  The box is scaled side by side, and is still the box
around the scaled points as long as rounding keeps the order.  And the offsets of components are not
among the measures that are scaled.
-/

namespace Type2Glyphs

/-! ## Loads in font units -/

/-- The settings with all measures left in font units. -/
def LoadSettings.inFontUnits (settings : LoadSettings) : LoadSettings :=
  { settings with flags := { settings.flags with noScale := true } }

/-- The measures of a glyph are those of another one times a factor.  Of the components not even the
offsets are multiplied. -/
structure LoadedGlyph.ScaledFrom (factor : Fixed) (loaded plain : LoadedGlyph) : Prop where
  outline : loaded.outline = plain.outline.scale factor
  leftSideBearing : loaded.leftSideBearing = plain.leftSideBearing.scale factor
  advance : loaded.advance = plain.advance.scale factor
  box : loaded.box = plain.box.map (Box.scale factor)
  verticalAdvance : loaded.vertical.map VerticalMetrics.advance =
    plain.vertical.map fun vertical => vertical.advance * factor
  components : loaded.components = plain.components

/-- The component with its offset multiplied by `factor`. -/
def Component.scale (factor : Fixed) (component : Component) : Component :=
  { component with offset := component.offset.scale factor }

/-- The hint hook does not change the outline that it is handed in the latest call, if that is what
the call is for. -/
def HintHook.LeftOutline (hook : Option HintHook) (calls : List HintCall) : Prop :=
  ∀ given outline earlier, hook = some given → calls = .close outline :: earlier →
    given.adjust calls outline = outline

theorem HintHook.LeavesOutline.leftOutline {hook : HintHook} (leaves : hook.LeavesOutline)
    (calls : List HintCall) : LeftOutline (some hook) calls := by
  rintro given outline earlier hooked _
  cases hooked
  exact leaves calls outline

theorem Component.map_scale_eq_self_iff {factor : Fixed} {components : List Component} :
    components.map (scale factor) = components ↔
      ∀ component ∈ components, component.offset.scale factor = component.offset := by
  have fixed : ∀ component : Component, component.scale factor = id component ↔
      component.offset.scale factor = component.offset := by
    rintro ⟨glyph, offset⟩
    simp [scale]
  simp only [← fixed]
  rw [← List.map_inj_left, List.map_id]

variable {font : Font} {glyph : GlyphId} {settings : LoadSettings} {hook : Option HintHook}
  {factor : Fixed} {plain loaded : LoadedGlyph}

theorem Fixed.zero_mul (factor : Fixed) : 0 * factor = 0 := by
  refine ext_raw ?_
  show (ofRaw (roundProduct ((0 : Fixed).raw * factor.raw))).raw = (0 : Fixed).raw
  rw [raw_zero, Int.zero_mul]
  rfl

instance (factor a : Fixed) : Decidable (factor.Scalable a) :=
  inferInstanceAs (Decidable (_ ∧ _))

instance (factor : Fixed) (outline : Outline) : Decidable (outline.Scalable factor) :=
  inferInstanceAs (Decidable (∀ p ∈ outline.points, _))

namespace LoadSettings

@[simp] theorem factor_inFontUnits (settings : LoadSettings) : settings.inFontUnits.factor = none :=
  rfl

end LoadSettings

namespace LoadedGlyph

theorem outline_ofOutline (font : Font) (settings : LoadSettings) (session : Session)
    (outline : Outline) :
    (ofOutline font settings session outline).outline = settings.scaled outline := by
  rw [ofOutline_eq]

/-- What is assembled with a factor is scaled from what is assembled without. -/
theorem scaledFrom_ofOutline (font : Font) (applied : settings.factor = some factor)
    (session : Session) (outline : Outline) :
    (ofOutline font settings session outline).ScaledFrom factor
      (ofOutline font settings.inFontUnits session outline) := by
  simp only [ofOutline, assemble, LoadSettings.factor_inFontUnits]
  rw [applied]
  refine ⟨rfl, ?_, rfl, rfl, ?_, rfl⟩
  · cases session.draft.finish.2 with
    | none => rfl
    | some b =>
        -- the bearing is on the base line before and after
        simp only [Option.map_some, Point.scale, Box.scale, Fixed.zero_mul]
  · cases vertical : settings.flags.verticalLayout <;> simp [LoadSettings.inFontUnits, vertical,
      centered]

end LoadedGlyph

/-- A glyph that is loaded can be loaded in font units too.  Both are assembled from one session and
from one outline, and the hint hook hears the same. -/
theorem finished_inFontUnits (h : (font.load glyph settings hook).result = .ok loaded) :
    ∃ session outline, loaded = .ofOutline font settings session outline ∧
      font.load glyph settings.inFontUnits hook =
        ⟨.ok (.ofOutline font settings.inFontUnits session outline),
          (font.load glyph settings hook).session⟩ := by
  obtain ⟨session, after, drawn, finished⟩ := drawn_of_load h
  have ended : (font.load glyph settings hook).session = after := by
    rw [load_of_finished drawn, finished]
    rfl
  obtain ⟨closed, rfl⟩ := closed_of_finishGlyph finished
  refine ⟨session, _, rfl, ?_⟩
  rw [ended]
  -- the factor makes no difference before the glyph is assembled
  refine load_eq_ok.2 ⟨session, drawn, ?_⟩
  rw [finishGlyph_apply, closed]

/-! ## Boxes -/

/-- In font units the box that grew with the points is the box around the outline. -/
theorem load_box_of_unscaled (keeps : settings.flags.metricsOnly = false)
    (unscaled : settings.factor = none)
    (left : HintHook.LeftOutline hook (font.load glyph settings hook).session.hintCalls)
    (h : (font.load glyph settings hook).result = .ok loaded) :
    loaded.box = loaded.outline.controlBox := by
  obtain ⟨session, drawn, box, outline | ⟨given, earlier, hooked, calls, changed, _⟩⟩ :=
    finished_of_load h
  · have start := Draft.shows_initial settings hook keeps
    obtain ⟨sketch, last⟩ := Draft.shows_invariant.drawGlyph ⟨.blank, start⟩ drawn
    simp only [LoadSettings.scaledBox, LoadSettings.scaled] at box outline
    rw [unscaled] at box outline
    calc loaded.box = session.draft.finish.2 := box
      _ = session.draft.finish.1.controlBox := by rw [last.finish_box, last.finish]
      _ = loaded.outline.controlBox := by rw [outline]
  · rw [calls] at left
    exact absurd (left given _ earlier hooked rfl) changed

/-- A glyph that keeps its points, and whose hint hook leaves the outline alone, comes with a box
that is scaled from the box in font units.  Unless a product overflows or the factor is negative,
this is the box around the scaled points. -/
theorem load_box_of_scaled (keeps : settings.flags.metricsOnly = false)
    (left : HintHook.LeftOutline hook (font.load glyph settings hook).session.hintCalls)
    (upright : ¬ settings.Mirrors) (h : (font.load glyph settings hook).result = .ok loaded) :
    ∃ plain, (font.load glyph settings.inFontUnits hook).result = .ok plain ∧
      loaded.outline = settings.scaled plain.outline ∧
      loaded.box = settings.scaledBox plain.box ∧
      (settings.Fits plain.outline → loaded.box = loaded.outline.controlBox) := by
  obtain ⟨session, outline, rfl, same⟩ := finished_inFontUnits h
  generalize measured : LoadedGlyph.ofOutline font settings.inFontUnits session outline = plain
    at same
  have loadedPlain : (font.load glyph settings.inFontUnits hook).result = .ok plain := by rw [same]
  have outlines : (LoadedGlyph.ofOutline font settings session outline).outline =
      settings.scaled plain.outline := by
    rw [← measured, LoadedGlyph.outline_ofOutline, LoadedGlyph.outline_ofOutline]
    rfl
  have boxes : (LoadedGlyph.ofOutline font settings session outline).box =
      settings.scaledBox plain.box := by
    rw [← measured, LoadedGlyph.box_ofOutline, LoadedGlyph.box_ofOutline]
    rfl
  refine ⟨plain, loadedPlain, outlines, boxes, fun fits => ?_⟩
  have around : plain.box = plain.outline.controlBox := by
    have keepsPlain : settings.inFontUnits.flags.metricsOnly = false := keeps
    refine load_box_of_unscaled keepsPlain settings.factor_inFontUnits ?_ loadedPlain
    rw [same]
    exact left
  rw [boxes, outlines, around]
  exact LoadSettings.scaledBox_controlBox fits upright

/-- An accented glyph at one and a half times its size, with a hook that changes nothing. -/
theorem load_box_of_enlarged :
    ∃ loaded, (Font.accented.load ⟨0⟩ { scale := some (.ofRaw 98304) } (some .silent)).result =
        .ok loaded ∧
      loaded.outline.points.size = 6 ∧ loaded.box = loaded.outline.controlBox := by
  let settings : LoadSettings := { scale := some (.ofRaw 98304) }
  have size : (Font.accented.load ⟨0⟩ settings (some .silent)).result.toOption.map
      (fun loaded => loaded.outline.points.size) = some 6 := by decide +kernel
  have room : (Font.accented.load ⟨0⟩ settings.inFontUnits (some .silent)).result.toOption.all
      (fun plain => decide (Outline.Scalable (.ofRaw 98304) plain.outline)) := by decide +kernel
  obtain ⟨loaded, result⟩ :
      ∃ loaded, (Font.accented.load ⟨0⟩ settings (some .silent)).result = .ok loaded :=
    ok_of_isOk (by decide +kernel)
  have left : HintHook.LeftOutline (some .silent)
      (Font.accented.load ⟨0⟩ settings (some .silent)).session.hintCalls :=
    HintHook.LeavesOutline.leftOutline (fun _ _ => rfl) _
  have upright : ¬ settings.Mirrors := by
    rintro ⟨factor, applied, negative⟩
    cases applied
    exact absurd negative (by decide)
  obtain ⟨plain, result', _, _, bounded⟩ := load_box_of_scaled rfl left upright result
  rw [result'] at room
  rw [result] at size
  have fits : settings.Fits plain.outline := by
    intro factor applied
    cases applied
    exact of_decide_eq_true room
  exact ⟨loaded, result, Option.some.inj size, bounded fits⟩

/-! ## Measures -/

/-- With a factor every measure is that in font units times the factor, but the components of an
accented glyph come with the offsets in font units.  Only offsets that the factor does not change
are those of the scaled glyph. -/
theorem load_measures (applied : settings.factor = some factor)
    (h : (font.load glyph settings hook).result = .ok loaded) :
    ∃ plain, (font.load glyph settings.inFontUnits hook).result = .ok plain ∧
      loaded.ScaledFrom factor plain ∧
      (loaded.components = plain.components.map (Component.scale factor) ↔
        ∀ component ∈ plain.components, component.offset.scale factor = component.offset) := by
  obtain ⟨session, outline, rfl, same⟩ := finished_inFontUnits h
  have scaled := LoadedGlyph.scaledFrom_ofOutline font applied session outline
  refine ⟨_, congrArg LoadReport.result same, scaled, ?_⟩
  rw [scaled.components, eq_comm]
  exact Component.map_scale_eq_self_iff

/-- The components of an accented glyph at twice its size. -/
theorem load_measures_of_doubled :
    let settings : LoadSettings := { flags := { noRecurse := true }, scale := some (.ofInt 2) }
    ∃ loaded plain, (Font.accented.load ⟨0⟩ settings none).result = .ok loaded ∧
      (Font.accented.load ⟨0⟩ settings.inFontUnits none).result = .ok plain ∧
      loaded.ScaledFrom (.ofInt 2) plain ∧
      loaded.components = [⟨⟨1⟩, 0⟩, ⟨⟨2⟩, ⟨.ofInt 50, .ofInt 100⟩⟩] := by
  intro settings
  have listed : (Font.accented.load ⟨0⟩ settings none).result.toOption.map
      LoadedGlyph.components = some [⟨⟨1⟩, 0⟩, ⟨⟨2⟩, ⟨.ofInt 50, .ofInt 100⟩⟩] := by
    decide +kernel
  obtain ⟨loaded, result⟩ : ∃ loaded, (Font.accented.load ⟨0⟩ settings none).result = .ok loaded :=
    ok_of_isOk (by decide +kernel)
  obtain ⟨plain, result', scaled, _⟩ := load_measures rfl result
  rw [result] at listed
  exact ⟨loaded, plain, result, result', scaled, Option.some.inj listed⟩

/-- At twice its size an accented glyph lists its accent at the offset in font units.  That is not
where the accent is drawn: for that the offset must be doubled too. -/
theorem load_components_misplaced :
    let drawing : LoadSettings := { scale := some (.ofInt 2) }
    let listing : LoadSettings := { drawing with flags := { noRecurse := true } }
    ∃ plain ∈ (Font.accented.load ⟨0⟩ listing.inFontUnits none).result.toOption,
    ∃ loaded ∈ (Font.accented.load ⟨0⟩ listing none).result.toOption,
    ∃ full ∈ (Font.accented.load ⟨0⟩ drawing none).result.toOption,
    ∃ accent ∈ (Font.accented.load ⟨2⟩ drawing none).result.toOption,
      loaded.components ≠ plain.components.map (Component.scale (.ofInt 2)) ∧
      ∃ component ∈ loaded.components, component.glyph = ⟨2⟩ ∧
        (accent.outline.shift component.offset).points ≠ full.outline.points.extract 4 6 ∧
        (accent.outline.shift (component.scale (.ofInt 2)).offset).points =
          full.outline.points.extract 4 6 := by
  decide +kernel

end Type2Glyphs
