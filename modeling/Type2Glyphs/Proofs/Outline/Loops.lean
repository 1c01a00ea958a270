import Type2Glyphs.Outline.Path

/-!
# Loops — contours that start on the curve and go on in strokes

Glyph programs draw lines and cubic curves only, so each of their contours is a `Loop`: a point on
the curve, and a row of strokes from there.  An outline of loops is cut into them without remainder,
and is drawn stroke by stroke.

* `Outline.ofContours` puts contours one after the other; `contours_ofContours` cuts them apart;
* `Outline.draw_ofLoops`: the path of an outline of loops is that of its loops, without a fault;
* `Outline.FormedBy` gathers what there is to say about an outline of loops.
-/

namespace Type2Glyphs

/-! ## Contours one after the other -/

namespace Outline

/-- The numbers of the last points of contours, of which the first starts at `start`. -/
def endsFrom (start : Nat) : List Contour → List Nat
  | [] => []
  | contour :: contours =>
      (start + contour.length - 1) :: endsFrom (start + contour.length) contours

/-- The outline of the given contours. -/
def ofContours (contours : List Contour) : Outline :=
  ⟨contours.flatten.toArray, (endsFrom 0 contours).toArray⟩

section Nonempty

variable {contours : List Contour}

theorem le_of_mem_endsFrom {start last : Nat} (nonempty : ∀ contour ∈ contours, contour ≠ [])
    (h : last ∈ endsFrom start contours) : start ≤ last := by
  induction contours generalizing start with
  | nil => cases h
  | cons contour contours ih =>
      have long := List.length_pos_iff.2 (nonempty contour List.mem_cons_self)
      rcases List.mem_cons.1 h with rfl | h
      · omega
      · have later := ih (fun c mem => nonempty c (List.mem_cons_of_mem _ mem)) h
        omega

theorem pairwise_endsFrom (start : Nat) (nonempty : ∀ contour ∈ contours, contour ≠ []) :
    (endsFrom start contours).Pairwise (· < ·) := by
  induction contours generalizing start with
  | nil => exact .nil
  | cons contour contours ih =>
      have rest : ∀ c ∈ contours, c ≠ [] := fun c mem => nonempty c (List.mem_cons_of_mem _ mem)
      have long := List.length_pos_iff.2 (nonempty contour List.mem_cons_self)
      refine .cons ?_ (ih _ rest)
      intro last mem
      have later := le_of_mem_endsFrom rest mem
      omega

theorem getLast?_endsFrom (start : Nat) (some : contours ≠ []) :
    (endsFrom start contours).getLast? = .some (start + contours.flatten.length - 1) := by
  induction contours generalizing start with
  | nil => exact absurd rfl some
  | cons contour contours ih =>
      cases contours with
      | nil => simp [endsFrom]
      | cons second contours =>
          have last := ih (start + contour.length) (List.cons_ne_nil _ _)
          -- the last end is that of the contours after the first one
          calc (endsFrom start (contour :: second :: contours)).getLast?
              = .some ((endsFrom (start + contour.length) (second :: contours)).getLast?.getD
                  (start + contour.length - 1)) := List.getLast?_cons
            _ = .some (start + contour.length + (second :: contours).flatten.length - 1) := by
                rw [last]
                rfl
            _ = .some (start + (contour :: second :: contours).flatten.length - 1) := by
                rw [Nat.add_assoc, ← List.length_append]
                rfl

theorem endsFrom_append (start : Nat) (first second : List Contour) :
    endsFrom start (first ++ second) =
      endsFrom start first ++ endsFrom (start + first.flatten.length) second := by
  induction first generalizing start with
  | nil => rfl
  | cons contour first ih =>
      simp only [List.cons_append, endsFrom, ih, List.flatten_cons, List.length_append,
        Nat.add_assoc]

/-- Contours that start later end later by as many points. -/
theorem endsFrom_add (start distance : Nat) (nonempty : ∀ contour ∈ contours, contour ≠ []) :
    endsFrom (start + distance) contours =
      (endsFrom start contours).map (· + distance) := by
  induction contours generalizing start with
  | nil => rfl
  | cons contour contours ih =>
      have rest : ∀ c ∈ contours, c ≠ [] := fun c mem => nonempty c (List.mem_cons_of_mem _ mem)
      have long := List.length_pos_iff.2 (nonempty contour List.mem_cons_self)
      have shifted := ih (start + contour.length) rest
      simp only [endsFrom]
      rw [List.map_cons, ← shifted]
      congr 1
      · omega
      · congr 1
        omega

theorem ofContours_append (first : List Contour) {second : List Contour}
    (nonempty : ∀ contour ∈ second, contour ≠ []) :
    ofContours (first ++ second) = (ofContours first).append (ofContours second) := by
  have later := endsFrom_add 0 first.flatten.length nonempty
  simp only [Nat.zero_add] at later
  simp only [ofContours, append]
  simp only [List.flatten_append, endsFrom_append, Nat.zero_add, later, List.size_toArray,
    List.append_toArray, List.map_toArray]

/-- What is cut out of an outline of contours are these contours. -/
theorem contoursFrom_endsFrom (before : List OutlinePoint)
    (nonempty : ∀ contour ∈ contours, contour ≠ []) :
    contoursFrom (before ++ contours.flatten).toArray before.length
      (endsFrom before.length contours) = contours := by
  induction contours generalizing before with
  | nil => rfl
  | cons contour contours ih =>
      have rest : ∀ c ∈ contours, c ≠ [] := fun c mem => nonempty c (List.mem_cons_of_mem _ mem)
      have long := List.length_pos_iff.2 (nonempty contour List.mem_cons_self)
      -- the contour after this one starts after its last point, which there is as it is not empty
      have next : before.length + contour.length - 1 + 1 = (before ++ contour).length := by
        simp only [List.length_append]
        omega
      have points : before ++ (contour :: contours).flatten =
          before ++ contour ++ contours.flatten := by
        simp only [List.flatten_cons, List.append_assoc]
      have cut := ih (before ++ contour) rest
      simp only [endsFrom, contoursFrom]
      rw [points, next, ← List.length_append, cut]
      congr 1
      simp

theorem isEmpty_ofContours (nonempty : ∀ contour ∈ contours, contour ≠ []) :
    (ofContours contours).isEmpty = contours.isEmpty := by
  cases contours with
  | nil => rfl
  | cons contour contours => simp [isEmpty, ofContours, nonempty contour List.mem_cons_self]

theorem contours_ofContours (nonempty : ∀ contour ∈ contours, contour ≠ []) :
    (ofContours contours).contours = contours :=
  contoursFrom_endsFrom [] nonempty

end Nonempty

/-- A contour more adds the number of its last point. -/
theorem ends_ofContours_concat (contours : List Contour) (contour : Contour) :
    (ofContours (contours ++ [contour])).ends =
      (ofContours contours).ends.push ((ofContours (contours ++ [contour])).points.size - 1) := by
  simp [ofContours, endsFrom_append, endsFrom]

end Outline

/-! ## Strokes and loops -/

/-- A line or a curve of a contour: its points after the one in which it starts. -/
inductive Stroke
  | line (p : Point)
  | curve (c₀ c₁ p : Point)
  deriving DecidableEq

namespace Stroke

/-- The points of a stroke with their tags. -/
def points : Stroke → List OutlinePoint
  | .line p => [⟨p, .on⟩]
  | .curve c₀ c₁ p => [⟨c₀, .cubicControl⟩, ⟨c₁, .cubicControl⟩, ⟨p, .on⟩]

/-- How a stroke is drawn. -/
def element : Stroke → PathElement Fixed
  | .line p => p.lineTo
  | .curve c₀ c₁ p => c₀.curveTo c₁ p

/-- The stroke with every point replaced by another one. -/
def map (f : Point → Point) : Stroke → Stroke
  | .line p => .line (f p)
  | .curve c₀ c₁ p => .curve (f c₀) (f c₁) (f p)

end Stroke

/-- A contour that starts on the curve and goes on in strokes. -/
structure Loop where
  start : Point
  strokes : List Stroke
  deriving DecidableEq

namespace Loop

/-- The points of a loop with their tags. -/
def points (loop : Loop) : Contour :=
  ⟨loop.start, .on⟩ :: loop.strokes.flatMap Stroke.points

/-- How a loop is drawn. -/
def path (loop : Loop) : List (PathElement Fixed) :=
  loop.start.moveTo :: loop.strokes.map Stroke.element ++ [.close]

/-- The loop with one stroke more. -/
def extend (stroke : Stroke) (loop : Loop) : Loop :=
  { loop with strokes := loop.strokes ++ [stroke] }

/-- The loop with every point replaced by another one. -/
def map (f : Point → Point) (loop : Loop) : Loop :=
  ⟨f loop.start, loop.strokes.map (.map f)⟩

theorem map_self : (map fun p => p) = id := by
  have strokes : (Stroke.map fun p => p) = id := by
    funext stroke
    cases stroke <;> rfl
  funext loop
  simp [map, strokes]

theorem points_ne_nil (loop : Loop) : loop.points ≠ [] :=
  List.cons_ne_nil _ _

@[simp] theorem points_extend (stroke : Stroke) (loop : Loop) :
    (loop.extend stroke).points = loop.points ++ stroke.points := by
  simp [points, extend]

/-- Replacing the points of a loop keeps their tags. -/
theorem points_map (f : Point → Point) (loop : Loop) :
    (loop.map f).points = loop.points.map fun p => { p with position := f p.position } := by
  have strokes : ∀ stroke : Stroke, (stroke.map f).points =
      stroke.points.map fun p => { p with position := f p.position } := by
    intro stroke
    cases stroke <;> rfl
  simp [points, map, List.flatMap_map, List.map_flatMap, strokes]

end Loop

/-! ## Outlines of loops -/

namespace Outline

/-- The outline of the given loops. -/
def ofLoops (loops : List Loop) : Outline :=
  ofContours (loops.map Loop.points)

variable {loops : List Loop}

theorem nonempty_of_mem_points : ∀ contour ∈ loops.map Loop.points, contour ≠ [] := by
  intro contour mem
  rcases List.mem_map.1 mem with ⟨loop, _, rfl⟩
  exact loop.points_ne_nil

theorem toList_points_ofLoops (loops : List Loop) :
    (ofLoops loops).points.toList = loops.flatMap Loop.points := by
  simp [ofLoops, ofContours, List.flatMap_def]

theorem ofLoops_append (first second : List Loop) :
    ofLoops (first ++ second) = (ofLoops first).append (ofLoops second) := by
  simp only [ofLoops]
  simp only [List.map_append]
  exact ofContours_append _ nonempty_of_mem_points

theorem isEmpty_ofLoops (loops : List Loop) : (ofLoops loops).isEmpty = loops.isEmpty := by
  simp only [ofLoops, isEmpty_ofContours nonempty_of_mem_points, List.isEmpty_map]

theorem contours_ofLoops (loops : List Loop) : (ofLoops loops).contours = loops.map Loop.points :=
  contours_ofContours nonempty_of_mem_points

theorem pairwise_ends_ofLoops (loops : List Loop) :
    (ofLoops loops).ends.toList.Pairwise (· < ·) :=
  pairwise_endsFrom 0 nonempty_of_mem_points

/-- The last end is that of the last point. -/
theorem back?_ends_ofLoops (some : loops ≠ []) :
    (ofLoops loops).ends.back? = .some ((ofLoops loops).points.size - 1) := by
  have contours : loops.map Loop.points ≠ [] := by simpa using some
  have last := getLast?_endsFrom 0 contours
  rw [← Array.getLast?_toList]
  simpa [ofLoops, ofContours] using last

/-! ## Drawing -/

/-- From any point on the curve, strokes are drawn one after the other and the path is closed. -/
theorem drawFrom_points (start : Point) (index : Nat) (strokes : List Stroke) :
    Contour.drawFrom start index (strokes.flatMap Stroke.points) =
      ⟨strokes.map Stroke.element ++ [.close], none⟩ := by
  induction strokes generalizing index with
  | nil => rfl
  | cons stroke strokes ih =>
      simp only [List.flatMap_cons]
      -- every stroke ends on the curve, so the next one is drawn from there in the same way
      cases stroke with
      | line p =>
          unfold Stroke.points Contour.drawFrom
          exact congrArg (Drawing.cons p.lineTo) (ih (index + 1))
      | curve c₀ c₁ p =>
          unfold Stroke.points Contour.drawFrom
          exact congrArg (Drawing.cons (c₀.curveTo c₁ p)) (ih (index + 3))

theorem draw_points (index : Nat) (loop : Loop) : loop.points.draw index = ⟨loop.path, none⟩ :=
  congrArg (Drawing.cons loop.start.moveTo) (drawFrom_points loop.start (index + 1) loop.strokes)

theorem drawContours_points (index : Nat) (loops : List Loop) :
    drawContours index (loops.map Loop.points) = ⟨loops.flatMap Loop.path, none⟩ := by
  induction loops generalizing index with
  | nil => rfl
  | cons loop loops ih =>
      simp only [List.map_cons, drawContours, draw_points, ih, Drawing.append, List.flatMap_cons]

/-- An outline of loops is drawn loop by loop. -/
theorem draw_ofLoops (loops : List Loop) :
    (ofLoops loops).draw = ⟨loops.flatMap Loop.path, none⟩ := by
  simp only [draw]
  simp only [contours_ofLoops]
  exact drawContours_points 0 loops

/-! ## What an outline of loops is -/

/-- The outline is cut into loops, without gap or remainder, and drawn loop by loop. -/
structure FormedBy (outline : Outline) (loops : List Loop) : Prop where
  increasing : outline.ends.toList.Pairwise (· < ·)
  complete : outline = .empty ∨
    outline.points ≠ #[] ∧ outline.ends.back? = some (outline.points.size - 1)
  nonempty : ∀ contour ∈ outline.contours, contour ≠ []
  covered : outline.contours.flatten = outline.points.toList
  contours : outline.contours = loops.map Loop.points
  drawn : outline.draw = ⟨loops.flatMap Loop.path, none⟩

theorem formedBy_ofLoops (loops : List Loop) : (ofLoops loops).FormedBy loops := by
  have contours := contours_ofLoops loops
  refine ⟨pairwise_ends_ofLoops loops, ?_, ?_, ?_, contours, draw_ofLoops loops⟩
  · by_cases nothing : loops = []
    · rw [nothing]
      exact .inl rfl
    · have points : (ofLoops loops).isEmpty = false := by
        simp only [isEmpty_ofLoops]
        simpa using nothing
      refine .inr ⟨?_, back?_ends_ofLoops nothing⟩
      simpa [isEmpty] using points
  · rw [contours]
    exact nonempty_of_mem_points
  · rw [contours, toList_points_ofLoops, List.flatMap_def]

/-! ## Other places -/

/-- Where the points of loops lie does not matter for how an outline is cut. -/
theorem ofLoops_map (f : Point → Point) (loops : List Loop) :
    ofLoops (loops.map (.map f)) =
      { ofLoops loops with
        points := (ofLoops loops).points.map fun p => { p with position := f p.position } } := by
  -- the ends depend on the lengths of the contours alone
  have ends : ∀ start, endsFrom start ((loops.map (.map f)).map Loop.points) =
      endsFrom start (loops.map Loop.points) := by
    induction loops with
    | nil => exact fun _ => rfl
    | cons loop loops ih =>
        intro start
        have size : (loop.map f).points.length = loop.points.length := by
          simp only [Loop.points_map, List.length_map]
        simp only [List.map_cons, endsFrom, size, ih]
  simp only [ofLoops, ofContours]
  rw [ends]
  congr 1
  simp [List.map_flatten, Function.comp_def, Loop.points_map]

end Outline

end Type2Glyphs
