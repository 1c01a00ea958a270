import Type2Glyphs.Proofs.Draft.Coupling
import Type2Glyphs.Proofs.Draft.Contours

/-!
# Sketch — what a draft holds, loop by loop

A `Sketch` says what a draft that keeps its points is: the loops of the components that are
complete, those of the component in progress, and the loop that is open.  `Draft.Shows` ties the two
together, and each operation on drafts has its counterpart on sketches.

Points of a sketch stand at their final places, and not relative to the origin of the draft.
-/

namespace Type2Glyphs

/-! ## Sketches -/

/-- An outline under construction, loop by loop. -/
structure Sketch where
  done : List Loop
  now : List Loop
  pending : Option Loop

namespace Sketch

/-- The sketch without loops. -/
def blank : Sketch :=
  ⟨[], [], none⟩

/-- The loops of the component in progress, the open one included. -/
def current (sketch : Sketch) : List Loop :=
  sketch.now ++ sketch.pending.toList

/-- All loops. -/
def loops (sketch : Sketch) : List Loop :=
  sketch.done ++ sketch.current

/-- All points. -/
def points (sketch : Sketch) : List OutlinePoint :=
  sketch.loops.flatMap Loop.points

/-- The sketch with no loop open. -/
def close (sketch : Sketch) : Sketch :=
  ⟨sketch.done, sketch.current, none⟩

/-- The sketch with a loop that starts at `p`. -/
def start (p : Point) (sketch : Sketch) : Sketch :=
  { sketch with pending := some ⟨p, []⟩ }

/-- The sketch with one stroke more in the open loop. -/
def extend (stroke : Stroke) (sketch : Sketch) : Sketch :=
  { sketch with pending := sketch.pending.map (.extend stroke) }

/-- The sketch with the component in progress complete. -/
def commit (sketch : Sketch) : Sketch :=
  ⟨sketch.loops, [], none⟩

/-- The sketch with other loops before all of it and every point replaced. -/
def after (before : List Loop) (f : Point → Point) (sketch : Sketch) : Sketch :=
  ⟨before ++ sketch.done.map (.map f), sketch.now.map (.map f), sketch.pending.map (.map f)⟩

/-! ### Contours of sketches -/

/-- The contours of the loops. -/
def parts (sketch : Sketch) : Parts :=
  ⟨sketch.done.map Loop.points, sketch.now.map Loop.points, sketch.pending.map Loop.points⟩

variable (sketch : Sketch)

theorem current_parts : sketch.parts.current = sketch.current.map Loop.points := by
  cases pending : sketch.pending <;> simp [parts, Parts.current, current, pending]

theorem contours_parts : sketch.parts.contours = sketch.loops.map Loop.points := by
  rw [Parts.contours, current_parts, loops, List.map_append]
  rfl

theorem points_parts : sketch.parts.points = sketch.points := by
  rw [Parts.points, contours_parts, points, List.flatMap_def]

theorem parts_close : sketch.close.parts = sketch.parts.close := by
  simp only [Parts.close, current_parts]
  rfl

theorem parts_commit : sketch.commit.parts = sketch.parts.commit := by
  simp only [Parts.commit, contours_parts]
  rfl

theorem parts_extend (stroke : Stroke) :
    (sketch.extend stroke).parts = sketch.parts.extend stroke.points := by
  cases pending : sketch.pending <;> simp [parts, extend, Parts.extend, pending]

end Sketch

/-! ## Drafts that show sketches -/

namespace Draft

/-- The draft keeps its points, and they are those of the sketch. -/
structure Shows (draft : Draft) (sketch : Sketch) : Prop where
  keepsPoints : draft.keepsPoints = true
  isOpen : draft.isOpen = sketch.pending.isSome
  base : draft.base = .ofLoops sketch.done
  current : draft.current = ⟨(Outline.ofLoops sketch.current).points,
    (Outline.ofLoops sketch.now).ends⟩
  pointCount : draft.pointCount = sketch.points.length
  room : draft.pointCount ≤ maxPoints
  box : draft.box = Box.around (sketch.points.map OutlinePoint.position)

namespace Shows

variable {draft : Draft} {sketch : Sketch}

/-- What a draft shows is what it holds. -/
theorem holds (h : draft.Shows sketch) : draft.Holds sketch.parts where
  keepsPoints := h.keepsPoints
  isOpen := by rw [h.isOpen, Sketch.parts, Option.isSome_map]
  base := h.base
  current := by
    rw [h.current, Sketch.current_parts]
    rfl
  pointCount := by rw [h.pointCount, Sketch.points_parts]
  room := h.room
  box := by rw [h.box, Sketch.points_parts]
  nonempty := by
    rw [Sketch.contours_parts]
    exact Outline.nonempty_of_mem_points

theorem of_holds (h : draft.Holds sketch.parts) : draft.Shows sketch where
  keepsPoints := h.keepsPoints
  isOpen := by rw [h.isOpen, Sketch.parts, Option.isSome_map]
  base := h.base
  current := by
    rw [h.current, Sketch.current_parts]
    rfl
  pointCount := by rw [h.pointCount, Sketch.points_parts]
  room := h.room
  box := by rw [h.box, Sketch.points_parts]

theorem start (h : draft.Shows sketch) (closed : draft.isOpen = false)
    (room : draft.pointCount < maxPoints) (p : Point) :
    (draft.openContour.add p .on).Shows (sketch.start (p + draft.origin)) :=
  of_holds (h.holds.start closed room ⟨p + draft.origin, .on⟩)

theorem stroke (h : draft.Shows sketch) (isOpen : draft.isOpen = true) (stroke : Stroke)
    (room : draft.pointCount + stroke.points.length ≤ maxPoints) :
    (draft.pushAll stroke.points).Shows (sketch.extend stroke) := by
  have extended := h.holds.extend isOpen stroke.points room
  rw [← Sketch.parts_extend] at extended
  exact of_holds extended

theorem line (h : draft.Shows sketch) (isOpen : draft.isOpen = true)
    (room : draft.pointCount < maxPoints) (p : Point) :
    (draft.add p .on).Shows (sketch.extend (.line (p + draft.origin))) :=
  h.stroke isOpen (.line (p + draft.origin)) room

theorem curve (h : draft.Shows sketch) (isOpen : draft.isOpen = true)
    (room : draft.pointCount + 3 ≤ maxPoints) (c₁ c₂ p : Point) :
    (draft.addCubic c₁ c₂ p).Shows
      (sketch.extend (.curve (c₁ + draft.origin) (c₂ + draft.origin) (p + draft.origin))) :=
  h.stroke isOpen (.curve (c₁ + draft.origin) (c₂ + draft.origin) (p + draft.origin)) room

theorem closeContour (h : draft.Shows sketch) : draft.closeContour.Shows sketch.close := by
  have closed := h.holds.closeContour
  rw [← Sketch.parts_close] at closed
  exact of_holds closed

/-- The component in progress moves to those that are complete, with nothing left behind. -/
theorem commit (h : draft.Shows sketch) : draft.commit.Shows sketch.commit := by
  have committed := h.holds.commit
  rw [← Sketch.parts_commit] at committed
  exact of_holds committed

theorem finish (h : draft.Shows sketch) : draft.finish.1 = .ofLoops sketch.loops :=
  h.commit.base

theorem finish_box (h : draft.Shows sketch) :
    draft.finish.2 = (Outline.ofLoops sketch.loops).controlBox := by
  have box := h.holds.finish_box
  rw [Sketch.contours_parts] at box
  exact box

end Shows

theorem shows_initial (settings : LoadSettings) (hook : Option HintHook)
    (keeps : settings.flags.metricsOnly = false) :
    (Session.initial settings hook).draft.Shows .blank := by
  refine ⟨?_, rfl, rfl, rfl, rfl, Nat.zero_le _, rfl⟩
  simp [Session.initial, keeps]

/-! ## Invariants -/

/-- A draft that keeps its points shows some sketch, whatever is done to it. -/
theorem shows_invariant : DraftInvariant fun draft => ∃ sketch, draft.Shows sketch where
  closeContour := fun ⟨_, h⟩ => ⟨_, h.closeContour⟩
  start := fun ⟨_, h⟩ closed _ room p => ⟨_, h.start closed room p⟩
  line := fun ⟨_, h⟩ isOpen room p => ⟨_, h.line isOpen room p⟩
  curve := fun ⟨_, h⟩ isOpen room c₁ c₂ p => ⟨_, h.curve isOpen room c₁ c₂ p⟩
  commit := fun ⟨_, h⟩ => ⟨_, h.commit⟩
  withOrigin := fun ⟨sketch, h⟩ _ => ⟨sketch, { h with }⟩
  advance := fun ⟨sketch, h⟩ _ => ⟨sketch, { h with }⟩
  leftBearing := fun ⟨sketch, h⟩ _ => ⟨sketch, { h with }⟩

/-- The draft keeps no points and has none. -/
structure Pointless (draft : Draft) : Prop where
  keepsPoints : draft.keepsPoints = false
  base : draft.base = .empty
  current : draft.current = .empty

theorem pointless_invariant : DraftInvariant Pointless := by
  have closed : ∀ {draft : Draft}, draft.Pointless → draft.closeContour.Pointless := by
    intro draft h
    refine ⟨?_, ?_, ?_⟩
    · simp only [keepsPoints_closeContour]
      exact h.keepsPoints
    · simp only [base_closeContour]
      exact h.base
    · simp only [closeContour]
      split
      · exact h.current
      · simp [h.keepsPoints, h.current]
  -- a point is counted and measured, but not kept
  have pushed : ∀ {draft : Draft}, draft.Pointless → ∀ p, (draft.push p).Pointless := by
    intro draft h p
    refine ⟨h.keepsPoints, h.base, ?_⟩
    simp [push, h.keepsPoints, h.current]
  refine ⟨closed, ?_, fun h _ _ p => pushed h _, ?_, ?_, ?_, ?_, ?_⟩
  · intro draft h _ _ _ p
    have opened : draft.openContour.Pointless := { h with }
    exact pushed opened _
  · intro draft h _ _ c₁ c₂ p
    exact pushed (pushed (pushed h _) _) _
  · intro draft h
    have forgotten : draft.commit = draft.closeContour := by
      simp [commit, h.keepsPoints]
    rw [forgotten]
    exact closed h
  · exact fun h _ => { h with }
  · exact fun h _ => { h with }
  · exact fun h _ => { h with }

end Draft

end Type2Glyphs
