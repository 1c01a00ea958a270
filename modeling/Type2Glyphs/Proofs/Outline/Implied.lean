import Type2Glyphs.Proofs.Outline.Drawing

/-!
# Implied — contours of lines and quadratic curves

A contour of quadratic curves need not list all of its points: between two control points in a row
lies an implied point on the curve, and a path can start at such a point.  Here a contour is
compared with the same one in which all points are listed (`Contour.explicit`), and with the one
that is turned so that it begins on the curve.

The elements of a path are given corner by corner: a control point bends the curve towards itself,
and a point on the curve is the end of a line unless a bend ends there.
-/

namespace Type2Glyphs

/-! ## Numbers of points -/

/-- The same fault at a point whose number is greater by `n`. -/
def PathFault.later (n : Nat) : PathFault → PathFault
  | .expectedQuad index => .expectedQuad (index + n)
  | .expectedQuadOrOnCurve index => .expectedQuadOrOnCurve (index + n)
  | .expectedCubic index => .expectedCubic (index + n)

/-- The same drawing of points whose numbers are greater by `n`. -/
def Drawing.later (n : Nat) (drawing : Drawing) : Drawing :=
  { drawing with fault := drawing.fault.map (.later n) }

theorem Drawing.later_cons (n : Nat) (element : PathElement Fixed) (drawing : Drawing) :
    (drawing.cons element).later n = (drawing.later n).cons element :=
  rfl

namespace Contour

variable {start : Point} {index index' : Nat} {p q r first last behind prev : OutlinePoint}
  {points rest contour : Contour}

/-! ## Drawing from one point to the next -/

theorem drawFrom_line (onCurve : p.tag.onCurve) :
    drawFrom start index (p :: rest) =
      .cons p.position.lineTo (drawFrom start (index + 1) rest) := by
  rw [drawFrom.eq_def]
  exact if_pos onCurve

section Cubic

variable (off : ¬ p.tag.onCurve) (cubic : p.tag.cubic)

include off cubic

theorem drawFrom_curve (cubic' : q.tag.cubic) :
    drawFrom start index (p :: q :: r :: rest) =
      .cons (p.position.curveTo q.position r.position) (drawFrom start (index + 3) rest) := by
  rw [drawFrom.eq_def]
  simp only [if_neg off, if_pos cubic, if_pos cubic']

theorem drawFrom_lone (plain : ¬ q.tag.cubic) :
    drawFrom start index (p :: q :: rest) = .failed (.expectedCubic (index + 1)) := by
  rw [drawFrom.eq_def]
  simp only [if_neg off, if_pos cubic, if_neg plain]

end Cubic

section Quadratic

variable (off : ¬ p.tag.onCurve) (quad : ¬ p.tag.cubic)

include off quad

theorem drawFrom_quad_nil :
    drawFrom start index [p] = .cons (p.position.quadTo start) (.cons .close .blank) := by
  simp only [drawFrom, if_neg off, if_neg quad]

theorem drawFrom_quad_on (onCurve : q.tag.onCurve) :
    drawFrom start index (p :: q :: rest) =
      .cons (p.position.quadTo q.position) (drawFrom start (index + 2) rest) := by
  rw [drawFrom.eq_def]
  simp only [if_neg off, if_neg quad, if_pos onCurve]

theorem drawFrom_quad_cubic (off' : ¬ q.tag.onCurve) (cubic : q.tag.cubic) :
    drawFrom start index (p :: q :: rest) = .failed (.expectedQuad (index + 1)) := by
  rw [drawFrom.eq_def]
  simp only [if_neg off, if_neg quad, if_neg off', if_pos cubic]

theorem drawFrom_quad_quad (off' : ¬ q.tag.onCurve) (quad' : ¬ q.tag.cubic) :
    drawFrom start index (p :: q :: rest) =
      .cons (p.position.quadTo (p.position.midpoint q.position))
        (drawFrom start (index + 1) (q :: rest)) := by
  rw [drawFrom.eq_def]
  simp only [if_neg off, if_neg quad, if_neg off', if_neg quad']

end Quadratic

/-- The number of the first point is only used to say where a fault is. -/
theorem drawFrom_later (start : Point) (index n : Nat) (points : Contour) :
    drawFrom start (index + n) points = (drawFrom start index points).later n := by
  fun_induction drawFrom start index points with
  | case1 => rfl
  | case2 index p rest onCurve ih =>
      rw [drawFrom_line onCurve, Nat.add_right_comm, ih, Drawing.later_cons]
  | case3 index p off cubic =>
      simp only [drawFrom, if_neg off, if_pos cubic, Nat.add_right_comm index n]
      rfl
  | case4 index p off cubic q cubic' =>
      simp only [drawFrom, if_neg off, if_pos cubic, if_pos cubic']
      rfl
  | case5 index p off cubic q cubic' r rest ih =>
      rw [drawFrom_curve off cubic cubic', Nat.add_right_comm, ih, Drawing.later_cons]
  | case6 index p off cubic q rest plain =>
      rw [drawFrom_lone off cubic plain, Nat.add_right_comm]
      rfl
  | case7 index p off quad =>
      rw [drawFrom_quad_nil off quad]
      rfl
  | case8 index p off quad q rest onCurve ih =>
      rw [drawFrom_quad_on off quad onCurve, Nat.add_right_comm, ih, Drawing.later_cons]
  | case9 index p off quad q rest off' cubic =>
      rw [drawFrom_quad_cubic off quad off' cubic, Nat.add_right_comm]
      rfl
  | case10 index p off quad q rest off' quad' ih =>
      rw [drawFrom_quad_quad off quad off' quad', Nat.add_right_comm, ih, Drawing.later_cons]

/-- A contour that ends on the curve can be drawn from its end. -/
theorem draw_turned (off : ¬ first.tag.onCurve) (quad : ¬ first.tag.cubic)
    (onCurve : last.tag.onCurve) (index : Nat) :
    draw index (last :: first :: rest) = (draw index (first :: (rest ++ [last]))).later 1 := by
  rw [draw_of_first index onCurve, draw_of_last index off quad onCurve, drawFrom_later,
    Drawing.later_cons]

/-! ## Contours without cubic control points -/

/-- All points are on the curve or quadratic control points. -/
def Quadratic (points : Contour) : Prop :=
  ∀ p ∈ points, p.tag.onCurve ∨ p.tag.isQuadControl

instance (points : Contour) : Decidable points.Quadratic :=
  inferInstanceAs (Decidable (∀ p ∈ points, _))

theorem isQuadControl_iff : p.tag.isQuadControl ↔ ¬ p.tag.onCurve ∧ ¬ p.tag.cubic := by
  simp [Tag.isQuadControl]

namespace Quadratic

theorem head (h : Quadratic (p :: points)) (off : ¬ p.tag.onCurve) : ¬ p.tag.cubic :=
  (isQuadControl_iff.1 ((h p List.mem_cons_self).resolve_left off)).2

theorem tail (h : Quadratic (p :: points)) : Quadratic points :=
  fun q mem => h q (List.mem_cons_of_mem p mem)

theorem control (h : Quadratic points) (mem : p ∈ points) (off : ¬ p.tag.onCurve) :
    p.tag.isQuadControl :=
  (h p mem).resolve_left off

end Quadratic

/-! ## Listing the implied points -/

/-- The point that is implied between two points in a row, if any. -/
def between (p q : OutlinePoint) : Contour :=
  if p.tag.isQuadControl && q.tag.isQuadControl then
    [⟨p.position.midpoint q.position, .on⟩]
  else
    []

/-- A row of points together with those that are implied in it. -/
def explicitRow : Contour → Contour
  | [] => []
  | [p] => [p]
  | p :: q :: rest => p :: (between p q ++ explicitRow (q :: rest))

/-- The contour with all implied points listed, where the one between the last point and the first
one comes at the end. -/
def explicit : Contour → Contour
  | [] => []
  | first :: rest =>
      explicitRow (first :: rest) ++
        between ((first :: rest).getLast (List.cons_ne_nil first rest)) first

theorem between_of_left (onCurve : p.tag.onCurve) : between p q = [] := by
  simp [between, Tag.isQuadControl, onCurve]

theorem between_of_right (onCurve : q.tag.onCurve) : between p q = [] := by
  simp [between, Tag.isQuadControl, onCurve]

theorem between_of_controls (control : p.tag.isQuadControl) (control' : q.tag.isQuadControl) :
    between p q = [⟨p.position.midpoint q.position, .on⟩] := by
  simp [between, control, control']

/-- A row goes on after a point on the curve as it would alone. -/
theorem explicitRow_cons_of_onCurve (onCurve : p.tag.onCurve) :
    explicitRow (p :: rest) = p :: explicitRow rest := by
  cases rest with
  | nil => rfl
  | cons q rest => rw [explicitRow, between_of_left onCurve, List.nil_append]

theorem exists_explicitRow_cons (first : OutlinePoint) (rest : Contour) :
    ∃ others, explicitRow (first :: rest) = first :: others := by
  cases rest with
  | nil => exact ⟨_, rfl⟩
  | cons q rest => exact ⟨_, rfl⟩

theorem explicitRow_concat_of_onCurve (points : Contour) (onCurve : last.tag.onCurve) :
    explicitRow (points ++ [last]) = explicitRow points ++ [last] := by
  fun_induction explicitRow points with
  | case1 => rfl
  | case2 p =>
      show p :: (between p last ++ [last]) = _
      rw [between_of_right onCurve]
      rfl
  | case3 p q rest ih =>
      show p :: (between p q ++ explicitRow (q :: rest ++ [last])) = _
      rw [ih, ← List.append_assoc]
      rfl

/-- A row is drawn in the same way with its implied points. -/
theorem drawFrom_explicitRow (quadratic : Quadratic points) :
    drawFrom start index' (explicitRow points) = drawFrom start index points := by
  fun_induction drawFrom start index points generalizing index' with
  | case1 => rfl
  | case2 index p rest onCurve ih =>
      rw [explicitRow_cons_of_onCurve onCurve, drawFrom_line onCurve, ih quadratic.tail]
  | case3 index p off cubic => exact absurd cubic (quadratic.head off)
  | case4 index p off cubic => exact absurd cubic (quadratic.head off)
  | case5 index p off cubic => exact absurd cubic (quadratic.head off)
  | case6 index p off cubic => exact absurd cubic (quadratic.head off)
  | case7 index p off quad => exact drawFrom_quad_nil off quad
  | case8 index p off quad q rest onCurve ih =>
      rw [explicitRow, between_of_right onCurve, List.nil_append,
        explicitRow_cons_of_onCurve onCurve, drawFrom_quad_on off quad onCurve,
        ih quadratic.tail.tail]
  | case9 index p off quad q rest off' cubic => exact absurd cubic (quadratic.tail.head off')
  | case10 index p off quad q rest off' quad' ih =>
      -- the curve ends at the implied point, which is now listed
      rw [explicitRow, between_of_controls (isQuadControl_iff.2 ⟨off, quad⟩)
        (isQuadControl_iff.2 ⟨off', quad'⟩), List.singleton_append, drawFrom_quad_on off quad rfl,
        ih quadratic.tail]

/-! ## The corners of a contour -/

/-- A point of a contour with its neighbours. -/
structure Corner where
  prev : OutlinePoint
  point : OutlinePoint
  next : OutlinePoint
  deriving DecidableEq

/-- Where the curve with the control point `p` ends before `q`. -/
def bend (p q : OutlinePoint) : Point :=
  if q.tag.onCurve then q.position else p.position.midpoint q.position

/-- What is drawn at a corner: one curve for a control point, and for a point on the curve a line,
unless a curve has led there. -/
def Corner.stretch (corner : Corner) : List (PathElement Fixed) :=
  if corner.point.tag.onCurve then
    if corner.prev.tag.onCurve then [corner.point.position.lineTo] else []
  else
    [corner.point.position.quadTo (bend corner.point corner.next)]

/-- The corners of a row that comes after `prev` and before `behind`. -/
def corners (prev behind : OutlinePoint) : Contour → List Corner
  | [] => []
  | p :: rest => ⟨prev, p, rest.head?.getD behind⟩ :: corners p behind rest

/-- Where the path of a contour starts: at its first point or else at its last one, if they are on
the curve, or at the point that is implied between them. -/
def opening : Contour → Point
  | [] => 0
  | first :: rest =>
      let last := (first :: rest).getLast (List.cons_ne_nil first rest)
      if first.tag.onCurve then first.position
      else if last.tag.onCurve then last.position
      else first.position.midpoint last.position

/-- The corners of the cycle, in order, without the one where the path starts. -/
def visited : Contour → List Corner
  | [] => []
  | first :: rest =>
      let last := (first :: rest).getLast (List.cons_ne_nil first rest)
      let cycle := corners last first (first :: rest)
      if first.tag.onCurve then cycle.tail
      else if last.tag.onCurve then cycle.dropLast
      else cycle

/-- The control point of a quadratic curve. -/
def control? : PathElement Fixed → Option Point
  | .quadTo cx cy _ _ => some ⟨cx, cy⟩
  | _ => none

theorem flatMap_corners_line (onCurve : p.tag.onCurve) (onCurve' : prev.tag.onCurve) :
    (corners prev behind (p :: rest)).flatMap Corner.stretch =
      p.position.lineTo :: (corners p behind rest).flatMap Corner.stretch := by
  simp only [corners, List.flatMap_cons, Corner.stretch, if_pos onCurve, if_pos onCurve',
    List.singleton_append]

theorem flatMap_corners_reached (onCurve : p.tag.onCurve) (off : ¬ prev.tag.onCurve) :
    (corners prev behind (p :: rest)).flatMap Corner.stretch =
      (corners p behind rest).flatMap Corner.stretch := by
  simp only [corners, List.flatMap_cons, Corner.stretch, if_pos onCurve, if_neg off,
    List.nil_append]

theorem flatMap_corners_control (off : ¬ p.tag.onCurve) :
    (corners prev behind (p :: rest)).flatMap Corner.stretch =
      p.position.quadTo (bend p (rest.head?.getD behind)) ::
        (corners p behind rest).flatMap Corner.stretch := by
  simp only [corners, List.flatMap_cons, Corner.stretch, if_neg off, List.singleton_append]

theorem corners_concat (points : Contour) :
    corners prev behind (points ++ [last]) =
      corners prev last points ++ [⟨points.getLast?.getD prev, last, behind⟩] := by
  induction points generalizing prev with
  | nil => rfl
  | cons p rest ih =>
      have next : (rest ++ [last]).head?.getD behind = rest.head?.getD last := by
        cases rest <;> rfl
      have before : (p :: rest).getLast?.getD prev = rest.getLast?.getD p := by
        rw [List.getLast?_cons]
        rfl
      rw [List.cons_append, corners, corners, next, ih, before, List.cons_append]

/-- The control points of the curves at the corners are the control points of the row, in order. -/
theorem controls_corners (quadratic : Quadratic points) :
    ((corners prev behind points).flatMap Corner.stretch).filterMap control? =
      (points.filter fun p => p.tag.isQuadControl).map OutlinePoint.position := by
  induction points generalizing prev with
  | nil => rfl
  | cons p rest ih =>
      rw [List.filter_cons]
      by_cases onCurve : p.tag.onCurve
      · rw [if_neg fun control => (isQuadControl_iff.1 control).1 onCurve]
        by_cases onCurve' : prev.tag.onCurve
        · rw [flatMap_corners_line onCurve onCurve', List.filterMap_cons_none rfl,
            ih quadratic.tail]
        · rw [flatMap_corners_reached onCurve onCurve', ih quadratic.tail]
      · have control : ∀ q : Point, control? (p.position.quadTo q) = some p.position :=
          fun _ => rfl
        rw [if_pos (quadratic.control List.mem_cons_self onCurve), flatMap_corners_control onCurve,
          List.filterMap_cons_some (control _), ih quadratic.tail, List.map_cons]

/-- A row is drawn corner by corner, from a point on the curve if it begins with a line, and back to
the start if it ends with a curve. -/
theorem drawFrom_corners (quadratic : Quadratic points)
    (begins : ∀ p ∈ points.head?, p.tag.onCurve → prev.tag.onCurve)
    (back : ∀ p ∈ points.getLast?, ¬ p.tag.onCurve → bend p behind = start) :
    drawFrom start index points =
      ⟨(corners prev behind points).flatMap Corner.stretch ++ [.close], none⟩ := by
  have later {p : OutlinePoint} {rest : Contour}
      (back : ∀ q ∈ (p :: rest).getLast?, ¬ q.tag.onCurve → bend q behind = start) :
      ∀ q ∈ rest.getLast?, ¬ q.tag.onCurve → bend q behind = start :=
    fun q mem => back q (by simp [List.getLast?_cons, Option.mem_def.1 mem])
  fun_induction drawFrom start index points generalizing prev with
  | case1 => rfl
  | case2 index p rest onCurve ih =>
      rw [ih quadratic.tail (fun _ _ _ => onCurve) (later back),
        flatMap_corners_line onCurve (begins p rfl onCurve)]
      rfl
  | case3 index p off cubic => exact absurd cubic (quadratic.head off)
  | case4 index p off cubic => exact absurd cubic (quadratic.head off)
  | case5 index p off cubic => exact absurd cubic (quadratic.head off)
  | case6 index p off cubic => exact absurd cubic (quadratic.head off)
  | case7 index p off quad =>
      have ends : bend p (Option.getD none behind) = start := back p rfl off
      rw [flatMap_corners_control off, List.head?_nil, ends]
      rfl
  | case8 index p off quad q rest onCurve ih =>
      have ends : bend p (Option.getD (some q) behind) = q.position := if_pos onCurve
      -- the curve of `p` leads to `q`, where nothing more is drawn
      rw [ih quadratic.tail.tail (fun _ _ _ => onCurve) (later (later back)),
        flatMap_corners_control off, List.head?_cons, ends, flatMap_corners_reached onCurve off]
      rfl
  | case9 index p off quad q rest off' cubic => exact absurd cubic (quadratic.tail.head off')
  | case10 index p off quad q rest off' quad' ih =>
      have ends : bend p (Option.getD (some q) behind) = p.position.midpoint q.position :=
        if_neg off'
      have begins : ∀ r ∈ (q :: rest).head?, r.tag.onCurve → p.tag.onCurve := by
        rintro r ⟨⟩ onCurve
        exact absurd onCurve off'
      rw [ih quadratic.tail begins (later back), flatMap_corners_control off, List.head?_cons, ends]
      rfl

/-! ## Contours -/

/-- Listing the implied points does not change what is drawn. -/
theorem draw_explicit (quadratic : Quadratic contour) (index : Nat) :
    contour.explicit.draw index = contour.draw index := by
  cases contour with
  | nil => rfl
  | cons first rest =>
      rcases ends_cases first rest with
        onCurve | ⟨off, ⟨middle, last, rfl, onCurve⟩ | ⟨last, closing, off'⟩⟩
      · rw [explicit, between_of_right onCurve, List.append_nil,
          explicitRow_cons_of_onCurve onCurve, draw_of_first index onCurve,
          drawFrom_explicitRow quadratic.tail, draw_of_first index onCurve]
      · obtain ⟨others, row⟩ := exists_explicitRow_cons first middle
        have part : Quadratic (first :: middle) :=
          fun p mem => quadratic p (List.mem_append_left [last] mem)
        have ends : (first :: (middle ++ [last])).getLast (List.cons_ne_nil _ _) = last := by simp
        have listed : explicit (first :: (middle ++ [last])) = first :: (others ++ [last]) := by
          rw [explicit, ends, between_of_left onCurve, List.append_nil, ← List.cons_append,
            explicitRow_concat_of_onCurve _ onCurve, row, List.cons_append]
        have quad : ¬ first.tag.cubic := quadratic.head off
        rw [listed, draw_of_last index off quad onCurve, draw_of_last index off quad onCurve,
          ← row, drawFrom_explicitRow part]
      · obtain ⟨others, row⟩ := exists_explicitRow_cons first rest
        have control : first.tag.isQuadControl := quadratic.control List.mem_cons_self off
        have control' : last.tag.isQuadControl :=
          quadratic.control (List.mem_of_getLast? closing) off'
        have ends : (first :: rest).getLast (List.cons_ne_nil _ _) = last :=
          (List.getLast_eq_iff_getLast?_eq_some _).2 closing
        have listed : explicit (first :: rest) =
            first :: (others ++ [⟨last.position.midpoint first.position, .on⟩]) := by
          rw [explicit, ends, between_of_controls control' control, row, List.cons_append]
        have quad : ¬ first.tag.cubic := quadratic.head off
        -- the path now starts at the last point, which is the one that was implied
        rw [listed, draw_of_last index off quad rfl, draw_of_implied index off quad closing off',
          ← row, drawFrom_explicitRow quadratic, Point.midpoint_comm]

section Visited

theorem visited_of_first (onCurve : first.tag.onCurve) :
    visited (first :: rest) = corners first first rest := by
  simp only [visited, if_pos onCurve, corners, List.tail_cons]

theorem visited_of_last (off : ¬ first.tag.onCurve) (onCurve : last.tag.onCurve) :
    visited (first :: (rest ++ [last])) = corners last last (first :: rest) := by
  have ends : (first :: (rest ++ [last])).getLast (List.cons_ne_nil _ _) = last := by simp
  have others : (corners last first (first :: (rest ++ [last]))).dropLast =
      corners last last (first :: rest) := by
    rw [← List.cons_append, corners_concat, List.dropLast_concat]
  simp only [visited, ends, if_neg off, if_pos onCurve, others]

theorem visited_of_implied (off : ¬ first.tag.onCurve)
    (closing : (first :: rest).getLast? = some last) (off' : ¬ last.tag.onCurve) :
    visited (first :: rest) = corners last first (first :: rest) := by
  have ends : (first :: rest).getLast (List.cons_ne_nil _ _) = last :=
    (List.getLast_eq_iff_getLast?_eq_some _).2 closing
  simp only [visited, ends, if_neg off, if_neg off']

theorem controls_visited (quadratic : Quadratic contour) :
    (contour.visited.flatMap Corner.stretch).filterMap control? =
      (contour.filter fun p => p.tag.isQuadControl).map OutlinePoint.position := by
  have no_control {p : OutlinePoint} (onCurve : p.tag.onCurve) : ¬ p.tag.isQuadControl :=
    fun control => (isQuadControl_iff.1 control).1 onCurve
  cases contour with
  | nil => rfl
  | cons first rest =>
      rcases ends_cases first rest with
        onCurve | ⟨off, ⟨middle, last, rfl, onCurve⟩ | ⟨last, closing, off'⟩⟩
      · rw [visited_of_first onCurve, controls_corners quadratic.tail, List.filter_cons,
          if_neg (no_control onCurve)]
      · have part : Quadratic (first :: middle) :=
          fun p mem => quadratic p (List.mem_append_left [last] mem)
        have others : [last].filter (fun p => p.tag.isQuadControl) = [] := by
          simp [no_control onCurve]
        rw [visited_of_last off onCurve, controls_corners part, ← List.cons_append,
          List.filter_append, others, List.append_nil]
      · rw [visited_of_implied off closing off', controls_corners quadratic]

/-- A contour is drawn corner by corner. -/
theorem draw_visited (quadratic : Quadratic contour) (nonempty : contour ≠ []) (index : Nat) :
    contour.draw index =
      ⟨contour.opening.moveTo :: (contour.visited.flatMap Corner.stretch ++ [.close]), none⟩ := by
  cases contour with
  | nil => exact absurd rfl nonempty
  | cons first rest =>
      rcases ends_cases first rest with
        onCurve | ⟨off, ⟨middle, last, rfl, onCurve⟩ | ⟨last, closing, off'⟩⟩
      · have opening : opening (first :: rest) = first.position := if_pos onCurve
        have back : ∀ p ∈ rest.getLast?, ¬ p.tag.onCurve → bend p first = first.position :=
          fun p _ _ => if_pos onCurve
        rw [draw_of_first index onCurve, opening, visited_of_first onCurve,
          drawFrom_corners quadratic.tail (fun _ _ _ => onCurve) back]
        rfl
      · have part : Quadratic (first :: middle) :=
          fun p mem => quadratic p (List.mem_append_left [last] mem)
        have opening : opening (first :: (middle ++ [last])) = last.position := by
          simp [opening, off, onCurve]
        have back : ∀ p ∈ (first :: middle).getLast?, ¬ p.tag.onCurve →
            bend p last = last.position := fun p _ _ => if_pos onCurve
        rw [draw_of_last index off (quadratic.head off) onCurve, opening,
          visited_of_last off onCurve, drawFrom_corners part (fun _ _ _ => onCurve) back]
        rfl
      · have ends : (first :: rest).getLast (List.cons_ne_nil _ _) = last :=
          (List.getLast_eq_iff_getLast?_eq_some _).2 closing
        have opening : opening (first :: rest) = first.position.midpoint last.position := by
          simp only [opening, ends, if_neg off, if_neg off']
        have begins : ∀ p ∈ (first :: rest).head?, p.tag.onCurve → last.tag.onCurve := by
          rintro p ⟨⟩ onCurve
          exact absurd onCurve off
        have back : ∀ p ∈ (first :: rest).getLast?, ¬ p.tag.onCurve →
            bend p first = first.position.midpoint last.position := by
          intro p mem _
          rw [closing] at mem
          cases mem
          rw [Point.midpoint_comm]
          exact if_neg off
        rw [draw_of_implied index off (quadratic.head off) closing off', opening,
          visited_of_implied off closing off', drawFrom_corners quadratic begins back]
        rfl

end Visited

/-- The path of a contour without cubic control points is the same if the implied points are listed,
and it has one quadratic curve for each control point and one line for each other point on the curve
where no curve ends.  Any contour that starts with a control point can be turned so that it starts
with its last point, if that is on the curve. -/
theorem draw_quadratic (index : Nat) :
    (∀ contour, Quadratic contour → contour.explicit.draw index = contour.draw index) ∧
    (∀ first middle last, first.tag.isQuadControl → last.tag.onCurve →
      draw index (last :: first :: middle) = (draw index (first :: (middle ++ [last]))).later 1) ∧
    ∀ contour, Quadratic contour → contour ≠ [] →
      contour.draw index =
        ⟨contour.opening.moveTo :: (contour.visited.flatMap Corner.stretch ++ [.close]), none⟩ ∧
      (contour.draw index).elements.filterMap control? =
        (contour.filter fun p => p.tag.isQuadControl).map OutlinePoint.position := by
  refine ⟨fun contour quadratic => draw_explicit quadratic index, ?_, ?_⟩
  · intro first middle last control onCurve
    obtain ⟨off, quad⟩ := isQuadControl_iff.1 control
    exact draw_turned off quad onCurve index
  · intro contour quadratic nonempty
    have drawn := draw_visited quadratic nonempty index
    refine ⟨drawn, ?_⟩
    have close : [PathElement.close].filterMap control? = [] := rfl
    rw [drawn, List.filterMap_cons_none rfl, List.filterMap_append, close, List.append_nil,
      controls_visited quadratic]

/-- A contour of which no point is on the curve. -/
def blob : Contour :=
  [⟨0, .quadControl⟩, ⟨⟨.ofInt 3, 0⟩, .quadControl⟩, ⟨⟨.ofInt 3, .ofInt 3⟩, .quadControl⟩]

theorem draw_quadratic_blob :
    blob.Quadratic ∧ blob.explicit.length = 6 ∧ blob.explicit.draw 0 = blob.draw 0 ∧
      (blob.draw 0).elements.filterMap control? = blob.map OutlinePoint.position ∧
      draw 0 (⟨0, .on⟩ :: blob) = (draw 0 (blob ++ [⟨0, .on⟩])).later 1 := by
  obtain ⟨listed, turned, drawn⟩ := draw_quadratic 0
  exact ⟨by decide, by decide, listed blob (by decide), (drawn blob (by decide) (by decide)).2,
    turned _ _ _ rfl rfl⟩

end Contour

end Type2Glyphs
