import Mathlib.Data.List.Induction
import Mathlib.Data.Set.Monotone
import Mathlib.Order.Bounds.Image
import Type2Glyphs.Proofs.Draft.Sketch
import Type2Glyphs.Proofs.Hint.Advisory

/-!
# ControlBox — the box that a loaded glyph comes with

The box of a glyph grows with its points and is scaled side by side.  `Box.Encloses` says what a
smallest box around points is, and a product that does not overflow keeps the order of its other
factor or turns it around, so the scaled box is the smallest one around the scaled points, or that
box with opposite sides exchanged.

The hint hook is handed the outline when the box is made.  What it does to the outline there does
not reach the box.
-/

namespace Type2Glyphs

/-! ## The order of numbers -/

namespace Fixed

instance instLinearOrder : LinearOrder Fixed where
  le_refl a := Int.le_refl a.raw
  le_trans _ _ _ first second := Int.le_trans (le_iff_raw.1 first) second
  le_antisymm _ _ above below := ext_raw (Int.le_antisymm above below)
  le_total a b := Int.le_total a.raw b.raw
  lt_iff_le_not_ge _ _ := Int.lt_iff_le_and_not_ge
  toDecidableLE := inferInstance
  toDecidableEq := inferInstance
  toDecidableLT := inferInstance
  min_def _ _ := rfl
  max_def _ _ := rfl

/-- The exact product, rounded to a count, fits into 32 bits. -/
def Scalable (factor a : Fixed) : Prop :=
  -2147483648 ≤ roundProduct (a.raw * factor.raw) ∧ roundProduct (a.raw * factor.raw) < 2147483648

theorem Scalable.raw_mul {factor a : Fixed} (fits : Scalable factor a) :
    (a * factor).raw = roundProduct (a.raw * factor.raw) :=
  raw_ofRaw fits.1 fits.2

theorem roundProduct_mono {p q : Int} (h : p ≤ q) : roundProduct p ≤ roundProduct q := by
  unfold roundProduct
  split <;> split <;> omega

variable {factor : Fixed}

/-- Without an overflow, a factor that is not negative keeps the order. -/
theorem monotoneOn_mul (upright : 0 ≤ factor) :
    MonotoneOn (· * factor) {a | Scalable factor a} := by
  intro a fitsA b fitsB h
  have products : a.raw * factor.raw ≤ b.raw * factor.raw :=
    Int.mul_le_mul_of_nonneg_right h (by simpa using le_iff_raw.1 upright)
  simp only [le_iff_raw, fitsA.raw_mul, fitsB.raw_mul]
  exact roundProduct_mono products

/-- Without an overflow, a negative factor turns the order around. -/
theorem antitoneOn_mul (mirrored : factor ≤ 0) :
    AntitoneOn (· * factor) {a | Scalable factor a} := by
  intro a fitsA b fitsB h
  have products : b.raw * factor.raw ≤ a.raw * factor.raw :=
    Int.mul_le_mul_of_nonpos_right h (by simpa using le_iff_raw.1 mirrored)
  simp only [le_iff_raw, fitsA.raw_mul, fitsB.raw_mul]
  exact roundProduct_mono products

end Fixed

/-! ## Smallest boxes -/

namespace Box

/-- The point lies in the box. -/
def Contains (b : Box) (p : Point) : Prop :=
  (b.xMin ≤ p.x ∧ p.x ≤ b.xMax) ∧ b.yMin ≤ p.y ∧ p.y ≤ b.yMax

instance (b : Box) (p : Point) : Decidable (b.Contains p) :=
  inferInstanceAs (Decidable (_ ∧ _))

/-- The box holds all points, and each of its sides touches one. -/
structure Encloses (b : Box) (points : List Point) : Prop where
  left : IsLeast (Point.x '' {p | p ∈ points}) b.xMin
  right : IsGreatest (Point.x '' {p | p ∈ points}) b.xMax
  lower : IsLeast (Point.y '' {p | p ∈ points}) b.yMin
  upper : IsGreatest (Point.y '' {p | p ∈ points}) b.yMax

/-- The box with opposite sides exchanged. -/
def flip (b : Box) : Box :=
  ⟨b.xMax, b.yMax, b.xMin, b.yMin⟩

variable {b : Box} {p : Point} {points : List Point}

theorem Encloses.contains (h : b.Encloses points) (mem : p ∈ points) : b.Contains p :=
  ⟨⟨h.left.2 ⟨p, mem, rfl⟩, h.right.2 ⟨p, mem, rfl⟩⟩,
    h.lower.2 ⟨p, mem, rfl⟩, h.upper.2 ⟨p, mem, rfl⟩⟩

theorem Encloses.unique {b' : Box} (h : b.Encloses points) (h' : b'.Encloses points) : b = b' := by
  cases b
  cases b'
  congr
  · exact h.left.unique h'.left
  · exact h.lower.unique h'.lower
  · exact h.right.unique h'.right
  · exact h.upper.unique h'.upper

theorem encloses_ofPoint (p : Point) : (ofPoint p).Encloses [p] := by
  constructor <;> simp [ofPoint]

/-- The smallest box for one point more. -/
theorem Encloses.insert (h : b.Encloses points) (p : Point) :
    (b.insert p).Encloses (points ++ [p]) := by
  have more : ∀ coordinate : Point → Fixed, coordinate '' {q | q ∈ points ++ [p]} =
      Insert.insert (coordinate p) (coordinate '' {q | q ∈ points}) := by
    intro coordinate
    rw [← Set.image_insert_eq]
    congr 1
    ext q
    simp [or_comm]
  constructor
  · rw [more, Box.insert, min_comm b.xMin]
    exact h.left.insert p.x
  · rw [more, Box.insert, max_comm b.xMax]
    exact h.right.insert p.x
  · rw [more, Box.insert, min_comm b.yMin]
    exact h.lower.insert p.y
  · rw [more, Box.insert, max_comm b.yMax]
    exact h.upper.insert p.y

theorem around_eq_none_iff : around points = none ↔ points = [] := by
  induction points using List.reverseRecOn with
  | nil => exact iff_of_true rfl rfl
  | append_singleton points p ih =>
      have grown : around (points ++ [p]) = extend (around points) p := around_append points [p]
      rw [grown]
      cases around points <;> simp [extend]

/-- What grows around points that come one after the other is the smallest box. -/
theorem encloses_of_around (h : around points = some b) : b.Encloses points := by
  induction points using List.reverseRecOn generalizing b with
  | nil => cases h
  | append_singleton points p ih =>
      have grown : around (points ++ [p]) = extend (around points) p := around_append points [p]
      rw [grown] at h
      cases before : around points with
      | none =>
          rw [before] at h
          cases h
          rw [around_eq_none_iff.1 before]
          exact encloses_ofPoint p
      | some smaller =>
          rw [before] at h
          cases h
          exact (ih before).insert p

theorem around_eq_some_iff : around points = some b ↔ b.Encloses points := by
  refine ⟨encloses_of_around, fun h => ?_⟩
  cases found : around points with
  | none =>
      -- a side touches a point, so there is one
      obtain ⟨p, mem, _⟩ := h.left.1
      rw [around_eq_none_iff.1 found] at mem
      cases mem
  | some b' => rw [(encloses_of_around found).unique h]

/-! ### Scaled boxes -/

section Scaling

variable {factor : Fixed}

/-- What the coordinates of scaled points are. -/
theorem image_map_scale (coordinate : Point → Fixed)
    (scaled : ∀ p, coordinate (p.scale factor) = coordinate p * factor) :
    coordinate '' {p | p ∈ points.map (Point.scale factor)} =
      (· * factor) '' (coordinate '' {p | p ∈ points}) := by
  ext a
  simp [scaled]

variable (fits : ∀ p ∈ points, factor.Scalable p.x ∧ factor.Scalable p.y)

include fits

theorem scalable_x : Point.x '' {p | p ∈ points} ⊆ {a | factor.Scalable a} := by
  rintro _ ⟨p, mem, rfl⟩
  exact (fits p mem).1

theorem scalable_y : Point.y '' {p | p ∈ points} ⊆ {a | factor.Scalable a} := by
  rintro _ ⟨p, mem, rfl⟩
  exact (fits p mem).2

theorem Encloses.scale (h : b.Encloses points) (upright : 0 ≤ factor) :
    (b.scale factor).Encloses (points.map (Point.scale factor)) := by
  have monotone := Fixed.monotoneOn_mul upright
  constructor
  · rw [image_map_scale Point.x fun _ => rfl]
    exact (monotone.mono (scalable_x fits)).map_isLeast h.left
  · rw [image_map_scale Point.x fun _ => rfl]
    exact (monotone.mono (scalable_x fits)).map_isGreatest h.right
  · rw [image_map_scale Point.y fun _ => rfl]
    exact (monotone.mono (scalable_y fits)).map_isLeast h.lower
  · rw [image_map_scale Point.y fun _ => rfl]
    exact (monotone.mono (scalable_y fits)).map_isGreatest h.upper

theorem Encloses.flip_scale (h : b.Encloses points) (mirrored : factor ≤ 0) :
    (b.scale factor).flip.Encloses (points.map (Point.scale factor)) := by
  have antitone := Fixed.antitoneOn_mul mirrored
  constructor
  · rw [image_map_scale Point.x fun _ => rfl]
    exact (antitone.mono (scalable_x fits)).map_isGreatest h.right
  · rw [image_map_scale Point.x fun _ => rfl]
    exact (antitone.mono (scalable_x fits)).map_isLeast h.left
  · rw [image_map_scale Point.y fun _ => rfl]
    exact (antitone.mono (scalable_y fits)).map_isGreatest h.upper
  · rw [image_map_scale Point.y fun _ => rfl]
    exact (antitone.mono (scalable_y fits)).map_isLeast h.lower

end Scaling

end Box

/-! ## Boxes of outlines -/

namespace Outline

variable {outline : Outline} {b : Box} {factor : Fixed}

/-- No product overflows when the outline is scaled. -/
def Scalable (factor : Fixed) (outline : Outline) : Prop :=
  ∀ p ∈ outline.points, factor.Scalable p.position.x ∧ factor.Scalable p.position.y

/-- The box is the smallest one around the points of the outline, and there is none without
points. -/
structure BoundedBy (outline : Outline) (box : Option Box) : Prop where
  none : box = .none ↔ outline.points = #[]
  contains : ∀ b, box = some b → ∀ p ∈ outline.points, b.Contains p.position
  smallest : box = outline.controlBox

theorem controlBox_eq_none_iff : outline.controlBox = none ↔ outline.points = #[] := by
  simp [controlBox, Box.around_eq_none_iff]

theorem boundedBy_controlBox (outline : Outline) : outline.BoundedBy outline.controlBox where
  none := controlBox_eq_none_iff
  contains _ found _ mem := (Box.encloses_of_around found).contains (List.mem_map_of_mem mem.val)
  smallest := rfl

/-- Positions in a scaled outline are scaled positions. -/
theorem positions_scale (factor : Fixed) (outline : Outline) :
    (outline.scale factor).points.toList.map OutlinePoint.position =
      (outline.points.toList.map OutlinePoint.position).map (Point.scale factor) := by
  simp [scale, OutlinePoint.scale, Function.comp_def]

theorem Scalable.positions (fits : outline.Scalable factor) :
    ∀ p ∈ outline.points.toList.map OutlinePoint.position,
      factor.Scalable p.x ∧ factor.Scalable p.y := by
  intro p mem
  obtain ⟨q, listed, rfl⟩ := List.mem_map.1 mem
  exact fits q ⟨listed⟩

theorem controlBox_scale (fits : outline.Scalable factor) (upright : 0 ≤ factor) :
    (outline.scale factor).controlBox = outline.controlBox.map (Box.scale factor) := by
  simp only [controlBox]
  rw [positions_scale]
  cases found : Box.around (outline.points.toList.map OutlinePoint.position) with
  | none =>
      rw [Box.around_eq_none_iff.1 found]
      rfl
  | some b =>
      exact Box.around_eq_some_iff.2 ((Box.encloses_of_around found).scale fits.positions upright)

theorem controlBox_scale_of_neg (fits : outline.Scalable factor) (mirrored : factor ≤ 0) :
    (outline.scale factor).controlBox =
      (outline.controlBox.map (Box.scale factor)).map Box.flip := by
  simp only [controlBox]
  rw [positions_scale]
  cases found : Box.around (outline.points.toList.map OutlinePoint.position) with
  | none =>
      rw [Box.around_eq_none_iff.1 found]
      rfl
  | some b =>
      exact Box.around_eq_some_iff.2
        ((Box.encloses_of_around found).flip_scale fits.positions mirrored)

end Outline

/-! ## Loads -/

namespace LoadSettings

variable {settings : LoadSettings} {outline : Outline}

/-- No product overflows when the outline is scaled as the settings say. -/
def Fits (settings : LoadSettings) (outline : Outline) : Prop :=
  ∀ factor, settings.factor = some factor → outline.Scalable factor

/-- Measures are scaled by a negative factor. -/
def Mirrors (settings : LoadSettings) : Prop :=
  ∃ factor, settings.factor = some factor ∧ factor < 0

/-- The box, scaled as the settings say. -/
def scaledBox (settings : LoadSettings) (box : Option Box) : Option Box :=
  match settings.factor with
  | none => box
  | some factor => box.map (Box.scale factor)

theorem scaledBox_eq_none_iff {box : Option Box} :
    settings.scaledBox box = none ↔ box = none := by
  simp only [scaledBox]
  cases settings.factor <;> simp

theorem scaledBox_controlBox (fits : settings.Fits outline) (upright : ¬ settings.Mirrors) :
    settings.scaledBox outline.controlBox = (settings.scaled outline).controlBox := by
  simp only [scaledBox, scaled]
  cases factor : settings.factor with
  | none => rfl
  | some a =>
      have nonneg : 0 ≤ a := not_lt.1 fun negative => upright ⟨a, factor, negative⟩
      exact (Outline.controlBox_scale (fits a factor) nonneg).symm

theorem flip_scaledBox_controlBox (fits : settings.Fits outline) (mirrors : settings.Mirrors) :
    (settings.scaledBox outline.controlBox).map Box.flip =
      (settings.scaled outline).controlBox := by
  obtain ⟨a, factor, negative⟩ := mirrors
  simp only [scaledBox, scaled]
  rw [factor]
  exact (Outline.controlBox_scale_of_neg (fits a factor) (le_of_lt negative)).symm

end LoadSettings

theorem LoadedGlyph.box_ofOutline (font : Font) (settings : LoadSettings) (session : Session)
    (outline : Outline) :
    (ofOutline font settings session outline).box =
      settings.scaledBox session.draft.finish.2 := by
  simp only [ofOutline, assemble, LoadSettings.scaledBox]
  cases settings.factor <;> rfl

section Loaded

variable {font : Font} {glyph : GlyphId} {settings : LoadSettings} {hook : Option HintHook}
  {loaded : LoadedGlyph}

/-- The box is that of the draft, and the outline too unless the hint hook has changed it in its
last call. -/
theorem finished_of_load (h : (font.load glyph settings hook).result = .ok loaded) :
    ∃ session, Eval.drawGlyph font settings.depthLimit glyph (.initial settings hook) =
        .ok () session ∧
      loaded.box = settings.scaledBox session.draft.finish.2 ∧
      (loaded.outline = settings.scaled session.draft.finish.1 ∨
        ∃ given earlier, hook = some given ∧
          (font.load glyph settings hook).session.hintCalls =
            .close session.draft.finish.1 :: earlier ∧
          given.adjust (.close session.draft.finish.1 :: earlier) session.draft.finish.1 ≠
            session.draft.finish.1 ∧
          loaded.outline = settings.scaled
            (given.adjust (.close session.draft.finish.1 :: earlier) session.draft.finish.1)) := by
  obtain ⟨session, after, drawn, finished⟩ := drawn_of_load h
  have calls : (font.load glyph settings hook).session = after := by
    rw [load_of_finished drawn, finished]
    rfl
  obtain ⟨_, rfl⟩ := closed_of_finishGlyph finished
  -- a hook that is there at the end was there at the start
  have given : ∀ last, session.hook = some last → hook = some last := by
    refine hooks_of_drawn ?_ drawn
    intro first initial
    simp only [Session.initial] at initial
    cases hinting : settings.hinting <;> simp [hinting] at initial
    exact initial
  refine ⟨session, drawn, LoadedGlyph.box_ofOutline .., ?_⟩
  rw [LoadedGlyph.ofOutline_eq]
  cases hooked : session.hook with
  | none => exact .inl rfl
  | some last =>
      have heard := hintCalls_finishGlyph hooked font settings
      rw [finished] at heard
      simp only [finalSession] at heard
      rw [calls]
      by_cases kept : last.adjust after.hintCalls session.draft.finish.1 =
          session.draft.finish.1
      · refine .inl (congrArg settings.scaled ?_)
        exact kept
      · rw [heard] at kept
        refine .inr ⟨last, session.hintCalls, given last hooked, heard, kept, ?_⟩
        rw [← heard]
        rfl

/-- A glyph that keeps its points comes with the smallest box around its outline as it was drawn.
Only a negative factor exchanges the sides of that box, and only a hint hook that changes the
outline in its last call has it differ from the one that was drawn. -/
theorem load_bounded (keeps : settings.flags.metricsOnly = false)
    (h : (font.load glyph settings hook).result = .ok loaded) :
    ∃ drawn : Outline,
      (loaded.outline = settings.scaled drawn ∨
        ∃ given earlier, hook = some given ∧
          (font.load glyph settings hook).session.hintCalls = .close drawn :: earlier ∧
          given.adjust (.close drawn :: earlier) drawn ≠ drawn ∧
          loaded.outline = settings.scaled (given.adjust (.close drawn :: earlier) drawn)) ∧
      (loaded.box = none ↔ drawn.points = #[]) ∧
      (settings.Fits drawn →
        (¬ settings.Mirrors → (settings.scaled drawn).BoundedBy loaded.box) ∧
        (settings.Mirrors → (settings.scaled drawn).BoundedBy (loaded.box.map Box.flip))) := by
  obtain ⟨session, drawn, box, outline⟩ := finished_of_load h
  have start := Draft.shows_initial settings hook keeps
  obtain ⟨sketch, last⟩ := Draft.shows_invariant.drawGlyph ⟨.blank, start⟩ drawn
  have measured : session.draft.finish.2 = session.draft.finish.1.controlBox := by
    rw [last.finish_box, last.finish]
  rw [measured] at box
  refine ⟨session.draft.finish.1, outline, ?_, ?_⟩
  · rw [box, LoadSettings.scaledBox_eq_none_iff, Outline.controlBox_eq_none_iff]
  · intro fits
    rw [box]
    constructor
    · intro upright
      rw [LoadSettings.scaledBox_controlBox fits upright]
      exact Outline.boundedBy_controlBox _
    · intro mirrors
      rw [LoadSettings.flip_scaledBox_controlBox fits mirrors]
      exact Outline.boundedBy_controlBox _

/-- Halving never overflows. -/
theorem load_bounded_halved :
    ∃ loaded, (Font.accented.load ⟨0⟩ { scale := some (.ofRaw 32768) } none).result = .ok loaded ∧
      loaded.outline.points.size = 6 ∧ loaded.outline.BoundedBy loaded.box := by
  have points : (Font.accented.load ⟨0⟩ { scale := some (.ofRaw 32768) } none).result.toOption.map
      (fun loaded => loaded.outline.points.size) = some 6 := by decide +kernel
  cases result : (Font.accented.load ⟨0⟩ { scale := some (.ofRaw 32768) } none).result with
  | error e =>
      rw [result] at points
      cases points
  | ok loaded =>
      rw [result] at points
      obtain ⟨drawn, outline, _, bounded⟩ := load_bounded rfl result
      have halves : ∀ a : Fixed, (Fixed.ofRaw 32768).Scalable a := by
        intro a
        have half : (Fixed.ofRaw 32768).raw = 32768 := by decide
        have low := a.le_raw
        have high := a.raw_lt
        rw [Fixed.Scalable, half, Fixed.roundProduct]
        split <;> omega
      have fits : LoadSettings.Fits { scale := some (.ofRaw 32768) } drawn := by
        intro factor applied p _
        cases applied
        exact ⟨halves _, halves _⟩
      have upright : ¬ LoadSettings.Mirrors { scale := some (.ofRaw 32768) } := by
        rintro ⟨factor, applied, negative⟩
        cases applied
        exact absurd negative (by decide)
      rcases outline with same | ⟨_, _, impossible, _⟩
      · refine ⟨loaded, rfl, Option.some.inj points, ?_⟩
        rw [same]
        exact (bounded fits).1 upright
      · cases impossible

/-- A hook that moves the outline up. -/
def HintHook.raising : HintHook where
  failure _ := none
  adjust _ outline := outline.shift ⟨0, 1⟩

/-- The box does not move with the outline, and a negative factor exchanges its sides. -/
theorem load_unbounded :
    (∃ loaded ∈ (Font.accented.load ⟨1⟩ {} (some .raising)).result.toOption,
      ∃ b ∈ loaded.box, ∃ p ∈ loaded.outline.points, ¬ b.Contains p.position) ∧
    (∃ loaded ∈ (Font.accented.load ⟨1⟩ { scale := some (-1) } none).result.toOption,
      ∃ b ∈ loaded.box, ∃ p ∈ loaded.outline.points, ¬ b.Contains p.position) := by
  decide +kernel

end Loaded

end Type2Glyphs
