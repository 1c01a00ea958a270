import Type2Glyphs.Proofs.Outline.Loops
import Type2Glyphs.Proofs.Outline.Runs

/-!
# Drawing — which contours can be drawn

Drawing reads the points of a contour along the grammar of well-formed contours, but for one thing:
where a cubic curve ends, it does not look at the tag.  So a contour is well-formed exactly if it
can be drawn and all pairs of cubic control points end on the curve, and then all parts of its path
end on the curve.
-/

namespace Type2Glyphs

/-! ## Tags and ends -/

theorem Point.midpoint_comm (p q : Point) : p.midpoint q = q.midpoint p := by
  simp only [midpoint, Fixed.midpoint, Int.add_comm]

/-- The tag is one of the three that there are, and not on the curve and cubic at once. -/
def Tag.Single (tag : Tag) : Prop :=
  tag = .on ∨ tag = .quadControl ∨ tag = .cubicControl

instance (tag : Tag) : Decidable tag.Single :=
  inferInstanceAs (Decidable (_ ∨ _))

theorem Tag.Single.plain {tag : Tag} (single : tag.Single) (onCurve : tag.onCurve) :
    ¬ tag.cubic := by
  rcases single with rfl | rfl | rfl
  · exact Bool.false_ne_true
  · cases onCurve
  · cases onCurve

/-- Where an element of a path ends. -/
def PathElement.stop? : PathElement Fixed → Option Point
  | .moveTo x y => some ⟨x, y⟩
  | .lineTo x y => some ⟨x, y⟩
  | .quadTo _ _ x y => some ⟨x, y⟩
  | .curveTo _ _ _ _ x y => some ⟨x, y⟩
  | .close => none

/-- All elements of a path but its end have ends of the given kind. -/
def StopsAt (Stop : Point → Prop) (elements : List (PathElement Fixed)) : Prop :=
  ∀ element ∈ elements, ∀ stop ∈ element.stop?, Stop stop

namespace Drawing

@[simp] theorem fault_cons (element : PathElement Fixed) (drawing : Drawing) :
    (drawing.cons element).fault = drawing.fault :=
  rfl

@[simp] theorem elements_cons (element : PathElement Fixed) (drawing : Drawing) :
    (drawing.cons element).elements = element :: drawing.elements :=
  rfl

theorem fault_append (first second : Drawing) :
    (first.append second).fault = none ↔ first.fault = none ∧ second.fault = none := by
  unfold append
  cases fault : first.fault <;> simp [fault]

end Drawing

section Stops

variable {Stop : Point → Prop} {elements : List (PathElement Fixed)} {p : Point}

theorem stopsAt_nil : StopsAt Stop [] :=
  nofun

theorem stopsAt_close : StopsAt Stop [.close] := by
  rintro element listed stop ends
  cases List.mem_singleton.1 listed
  cases ends

theorem StopsAt.cons {element : PathElement Fixed} (ends : element.stop? = some p) (h : Stop p)
    (rest : StopsAt Stop elements) : StopsAt Stop (element :: elements) := by
  refine List.forall_mem_cons.2 ⟨?_, rest⟩
  rw [ends]
  rintro stop ⟨⟩
  exact h

theorem StopsAt.append {first second : Drawing} (h : StopsAt Stop first.elements)
    (h' : StopsAt Stop second.elements) : StopsAt Stop (first.append second).elements := by
  unfold Drawing.append
  cases first.fault with
  | some fault => exact h
  | none => exact List.forall_mem_append.2 ⟨h, h'⟩

theorem StopsAt.mono {Stop' : Point → Prop} (h : StopsAt Stop elements)
    (weaker : ∀ p, Stop p → Stop' p) : StopsAt Stop' elements :=
  fun element listed stop ends => weaker stop (h element listed stop ends)

end Stops

namespace Contour

/-- A point of the contour on the curve, or one that is implied between two quadratic control points
in a row. -/
inductive Passes (contour : Contour) : Point → Prop
  | point {p : OutlinePoint} (mem : p ∈ contour) (onCurve : p.tag.onCurve) :
      Passes contour p.position
  | implied {p q : OutlinePoint} (row : [p, q] <:+: contour ++ contour.take 1)
      (first : p.tag.isQuadControl) (second : q.tag.isQuadControl) :
      Passes contour (p.position.midpoint q.position)

/-- No point of the row is on the curve and cubic at once. -/
def Unmixed (points : Contour) : Prop :=
  ∀ p ∈ points, p.tag.onCurve → ¬ p.tag.cubic

section Unmixed

variable {p : OutlinePoint} {points : Contour}

theorem Unmixed.head (h : Unmixed (p :: points)) : p.tag.onCurve → ¬ p.tag.cubic :=
  h p List.mem_cons_self

theorem Unmixed.tail (h : Unmixed (p :: points)) : Unmixed points :=
  fun q mem => h q (List.mem_cons_of_mem p mem)

end Unmixed

/-- Among the ends are the points of the row on the curve and those that are implied in it. -/
structure Covered (Stop : Point → Prop) (points : Contour) : Prop where
  onCurve : ∀ p ∈ points, p.tag.onCurve → Stop p.position
  implied : ∀ p q, [p, q] <:+: points → p.tag.isQuadControl → q.tag.isQuadControl →
    Stop (p.position.midpoint q.position)

theorem Covered.of_infix {Stop : Point → Prop} {points part : Contour} (h : Covered Stop points)
    (within : part <:+: points) : Covered Stop part where
  onCurve p mem := h.onCurve p (within.subset mem)
  implied p q row := h.implied p q (row.trans within)

theorem Covered.tail {Stop : Point → Prop} {p : OutlinePoint} {points : Contour}
    (h : Covered Stop (p :: points)) : Covered Stop points :=
  h.of_infix (List.suffix_cons p points).isInfix

variable {start : Point} {index : Nat} {points : Contour} {prev behind : OutlinePoint}

/-! ## Points in a row -/

/-- A row of points is drawn along the grammar, but for the ends of cubic curves. -/
theorem fault_drawFrom_iff (single : Unmixed points)
    (plain : ¬ behind.tag.cubic) (begins : prev.tag.onCurve ∨ ∀ p ∈ points.head?, ¬ p.tag.cubic) :
    (drawFrom start index points).fault = none ∧ Stopped (points ++ [behind]) ↔
      Joined prev (points ++ [behind]) := by
  fun_induction drawFrom start index points generalizing prev with
  | case1 =>
      exact iff_of_true ⟨rfl, (stopped_cons plain).2 stopped_nil⟩ (.point plain (.last behind))
  | case2 index p rest onCurve ih =>
      rw [Drawing.fault_cons, List.cons_append, stopped_cons (single.head onCurve),
        joined_cons_iff (single.head onCurve)]
      exact ih single.tail (.inl onCurve)
  | case3 index p off cubic => exact iff_of_false nofun (not_joined_of_lone cubic plain)
  | case4 index p off cubic q cubic' =>
      -- the curve goes back to the start, which is what comes behind the points
      have starts := begins.resolve_right fun h => h p rfl cubic
      rw [Drawing.fault_cons, List.cons_append, List.cons_append, List.nil_append,
        stopped_curve_iff cubic cubic' fun _ => plain, joined_curve_iff cubic cubic']
      exact ⟨fun h => ⟨starts, h.2.1, plain, .last behind⟩, fun h => ⟨rfl, h.2.1, stopped_nil⟩⟩
  | case5 index p off cubic q cubic' r rest ih =>
      have starts := begins.resolve_right fun h => h p rfl cubic
      have behind := single.tail.tail
      rw [Drawing.fault_cons, List.cons_append, List.cons_append, List.cons_append,
        stopped_curve_iff cubic cubic' behind.head, joined_curve_iff cubic cubic']
      constructor
      · rintro ⟨drawn, stops, rest⟩
        exact ⟨starts, stops, behind.head stops, (ih behind.tail (.inl stops)).1 ⟨drawn, rest⟩⟩
      · rintro ⟨_, stops, _, rest⟩
        obtain ⟨drawn, rest⟩ := (ih behind.tail (.inl stops)).2 rest
        exact ⟨drawn, stops, rest⟩
  | case6 index p off cubic q rest plain' =>
      exact iff_of_false nofun (not_joined_of_lone cubic plain')
  | case7 index p off quad =>
      refine iff_of_true ⟨rfl, ?_⟩ (.point quad (.point plain (.last behind)))
      exact (stopped_cons quad).2 ((stopped_cons plain).2 stopped_nil)
  | case8 index p off quad q rest onCurve ih =>
      have plain' := single.tail.head onCurve
      rw [Drawing.fault_cons, List.cons_append, List.cons_append, stopped_cons quad,
        stopped_cons plain', joined_cons_iff quad, joined_cons_iff plain']
      exact ih single.tail.tail (.inl onCurve)
  | case9 index p off quad q rest off' cubic =>
      -- no cubic curve starts at a quadratic control point
      exact iff_of_false nofun fun h => off (((joined_cons_iff quad).1 h).starts cubic)
  | case10 index p off quad q rest off' quad' ih =>
      rw [Drawing.fault_cons, List.cons_append, stopped_cons quad, joined_cons_iff quad]
      refine ih single.tail (.inr ?_)
      rintro r ⟨⟩
      exact quad'

theorem wellFormed_nil : WellFormed [] where
  begins := nofun
  pairs before run after h := by
    have cut := h.cut
    simp [h.nonempty] at cut

/-- What is drawn along the grammar ends at the start, at points on the curve or between quadratic
control points. -/
theorem stopsAt_drawFrom {Stop : Point → Prop} (back : Stop start)
    (single : Unmixed points) (covered : Covered Stop points)
    (joined : Joined prev (points ++ [behind])) :
    StopsAt Stop (drawFrom start index points).elements := by
  fun_induction drawFrom start index points generalizing prev with
  | case1 => exact stopsAt_close
  | case2 index p rest onCurve ih =>
      exact .cons rfl (covered.onCurve p List.mem_cons_self onCurve)
        (ih single.tail covered.tail ((joined_cons_iff (single.head onCurve)).1 joined))
  | case3 => exact stopsAt_nil
  | case4 => exact .cons rfl back stopsAt_close
  | case5 index p off cubic q cubic' r rest ih =>
      obtain ⟨_, stops, _, joined⟩ := (joined_curve_iff cubic cubic').1 joined
      exact .cons rfl (covered.onCurve r (by simp) stops)
        (ih single.tail.tail.tail covered.tail.tail.tail joined)
  | case6 => exact stopsAt_nil
  | case7 => exact .cons rfl back stopsAt_close
  | case8 index p off quad q rest onCurve ih =>
      have plain := single.tail.head onCurve
      have joined := (joined_cons_iff plain).1 ((joined_cons_iff quad).1 joined)
      exact .cons rfl (covered.onCurve q (by simp) onCurve)
        (ih single.tail.tail covered.tail.tail joined)
  | case9 => exact stopsAt_nil
  | case10 index p off quad q rest off' quad' ih =>
      have between := covered.implied p q ⟨[], rest, rfl⟩ (by simp [Tag.isQuadControl, off, quad])
        (by simp [Tag.isQuadControl, off', quad'])
      exact .cons rfl between (ih single.tail covered.tail ((joined_cons_iff quad).1 joined))

/-! ## Where a path starts -/

/-- A contour is drawn from `start` through the points in a row, which come after `prev` and before
`behind` in the cycle. -/
structure Opens (contour : Contour) (index : Nat) (start : Point) (number : Nat)
    (prev : OutlinePoint) (points : Contour) (behind : OutlinePoint) : Prop where
  draw : contour.draw index = .cons start.moveTo (drawFrom start number points)
  part : points <:+: contour
  plain : ¬ behind.tag.cubic
  begins : prev.tag.onCurve ∨ ∀ p ∈ points.head?, ¬ p.tag.cubic
  wellFormed : contour.WellFormed ↔ Joined prev (points ++ [behind])
  pairsEnd : contour.PairsEnd ↔ Stopped (points ++ [behind])
  passes : contour.WellFormed → contour.Passes start

variable {first last : OutlinePoint} {rest : Contour}

theorem draw_of_first (index : Nat) (onCurve : first.tag.onCurve) :
    draw index (first :: rest) =
      .cons first.position.moveTo (drawFrom first.position (index + 1) rest) := by
  simp only [draw, onCurve, if_true]

theorem draw_of_last (index : Nat) (off : ¬ first.tag.onCurve) (quad : ¬ first.tag.cubic)
    (onCurve : last.tag.onCurve) :
    draw index (first :: (rest ++ [last])) =
      .cons last.position.moveTo (drawFrom last.position index (first :: rest)) := by
  have closing : (first :: (rest ++ [last])).getLast (List.cons_ne_nil _ _) = last := by simp
  have others : (first :: (rest ++ [last])).dropLast = first :: rest := by
    rw [← List.cons_append, List.dropLast_concat]
  simp only [draw, off, quad, closing, others, onCurve, Bool.false_eq_true, if_false, if_true]

theorem draw_of_implied (index : Nat) (off : ¬ first.tag.onCurve) (quad : ¬ first.tag.cubic)
    (closing : (first :: rest).getLast? = some last) (off' : ¬ last.tag.onCurve) :
    draw index (first :: rest) =
      .cons (first.position.midpoint last.position).moveTo
        (drawFrom (first.position.midpoint last.position) index (first :: rest)) := by
  have closing : (first :: rest).getLast (List.cons_ne_nil _ _) = last :=
    (List.getLast_eq_iff_getLast?_eq_some _).2 closing
  simp only [draw, off, quad, closing, off', Bool.false_eq_true, if_false]

theorem wellFormed_iff_joined (plain : ¬ first.tag.cubic) :
    WellFormed (first :: rest) ↔ Joined first (rest ++ [first]) := by
  rw [wellFormed_iff_paired plain, List.cons_append, paired_iff_joined plain]

theorem pairsEnd_iff_stopped (plain : ¬ first.tag.cubic) :
    PairsEnd (first :: rest) ↔ Stopped (rest ++ [first]) := by
  rw [PairsEnd, List.take_succ_cons, List.take_zero, List.cons_append, stopped_cons plain]

/-- A contour that begins on the curve is drawn from there. -/
theorem opens_first (onCurve : first.tag.onCurve) (plain : ¬ first.tag.cubic) :
    Opens (first :: rest) index first.position (index + 1) first rest first where
  draw := draw_of_first index onCurve
  part := List.infix_cons List.infix_rfl
  plain := plain
  begins := .inl onCurve
  wellFormed := wellFormed_iff_joined plain
  pairsEnd := pairsEnd_iff_stopped plain
  passes _ := .point List.mem_cons_self onCurve

/-- A contour that begins with a quadratic control point and ends on the curve is drawn from its
end. -/
theorem opens_last (off : ¬ first.tag.onCurve) (quad : ¬ first.tag.cubic)
    (onCurve : last.tag.onCurve) (plain : ¬ last.tag.cubic) :
    Opens (first :: (rest ++ [last])) index last.position index last (first :: rest) last where
  draw := draw_of_last index off quad onCurve
  part := ⟨[], [last], by simp⟩
  plain := plain
  begins := .inl onCurve
  wellFormed := by
    have behind : Joined last (first :: rest ++ [last]) ↔ Joined first (rest ++ [last]) :=
      joined_cons_iff quad
    rw [wellFormed_iff_joined quad, behind, List.append_assoc]
    exact (joined_append_cons_iff quad plain).trans (and_iff_left (.point quad (.last first)))
  pairsEnd := by
    have behind : Stopped (first :: rest ++ [last]) ↔ Stopped (rest ++ [last]) :=
      stopped_cons quad
    rw [pairsEnd_iff_stopped quad, behind, List.append_assoc]
    exact (stopped_append_cons_iff plain).trans (and_iff_left ((stopped_cons quad).2 stopped_nil))
  passes _ := .point (by simp) onCurve

/-- A contour with control points at both ends is drawn from the point that is implied between
them. -/
theorem opens_implied (off : ¬ first.tag.onCurve) (quad : ¬ first.tag.cubic)
    (closing : (first :: rest).getLast? = some last) (off' : ¬ last.tag.onCurve) :
    Opens (first :: rest) index (first.position.midpoint last.position) index first
      (first :: rest) first where
  draw := draw_of_implied index off quad closing off'
  part := List.infix_rfl
  plain := quad
  begins := .inr (by rintro p ⟨⟩; exact quad)
  wellFormed := by
    rw [wellFormed_iff_joined quad, List.cons_append, joined_cons_iff quad]
  pairsEnd := by
    rw [pairsEnd_iff_stopped quad, List.cons_append, stopped_cons quad]
  passes h := by
    obtain ⟨before, cut⟩ := List.getLast?_eq_some_iff.1 closing
    -- if the last point were cubic, the first one would be on the curve
    have quad' : ¬ last.tag.cubic := by
      intro cubic
      have joined : Joined first (first :: rest ++ [first]) :=
        .point quad ((wellFormed_iff_joined quad).1 h)
      rw [cut, List.append_assoc] at joined
      exact off (joined.stops cubic)
    rw [Point.midpoint_comm]
    refine .implied ⟨before, [], ?_⟩ (by simp [Tag.isQuadControl, off', quad'])
      (by simp [Tag.isQuadControl, off, quad])
    rw [List.take_succ_cons, List.take_zero, cut, List.append_nil, List.append_assoc]
    rfl

/-- The three ways in which a path starts: at the first point, at the last one, or between them. -/
theorem ends_cases (first : OutlinePoint) (rest : Contour) :
    first.tag.onCurve ∨ ¬ first.tag.onCurve ∧
      ((∃ middle last, rest = middle ++ [last] ∧ last.tag.onCurve) ∨
        ∃ last, (first :: rest).getLast? = some last ∧ ¬ last.tag.onCurve) := by
  refine or_iff_not_imp_left.2 fun off => ⟨off, ?_⟩
  rcases List.eq_nil_or_concat' rest with rfl | ⟨middle, last, rfl⟩
  · exact .inr ⟨first, rfl, off⟩
  · by_cases onCurve : last.tag.onCurve
    · exact .inl ⟨middle, last, rfl, onCurve⟩
    · exact .inr ⟨last, by rw [← List.cons_append, List.getLast?_concat], onCurve⟩

theorem exists_opens (single : Unmixed (first :: rest)) (plain : ¬ first.tag.cubic) (index : Nat) :
    ∃ start number prev points behind,
      Opens (first :: rest) index start number prev points behind := by
  rcases ends_cases first rest with
    onCurve | ⟨off, ⟨middle, last, rfl, onCurve⟩ | ⟨last, closing, off'⟩⟩
  · exact ⟨_, _, _, _, _, opens_first onCurve plain⟩
  · exact ⟨_, _, _, _, _, opens_last off plain onCurve (single last (by simp) onCurve)⟩
  · exact ⟨_, _, _, _, _, opens_implied off plain closing off'⟩

/-! ## Contours -/

section Contours

variable {contour : Contour} (single : contour.Unmixed)

include single

/-- A contour is well-formed if it can be drawn and its cubic curves end on the curve. -/
theorem fault_draw_iff (index : Nat) :
    (contour.draw index).fault = none ∧ contour.PairsEnd ↔ contour.WellFormed := by
  cases contour with
  | nil => exact iff_of_true ⟨rfl, stopped_nil⟩ wellFormed_nil
  | cons first rest =>
      by_cases cubic : first.tag.cubic
      · have off : ¬ first.tag.onCurve :=
          fun onCurve => single.head onCurve cubic
        have fault : (draw index (first :: rest)).fault ≠ none := by
          simp only [draw, off, cubic]
          exact nofun
        exact iff_of_false (fun h => fault h.1) fun h => h.begins first rfl cubic
      · obtain ⟨start, number, prev, points, behind, h⟩ := exists_opens single cubic index
        rw [h.draw, Drawing.fault_cons, h.pairsEnd, h.wellFormed]
        exact fault_drawFrom_iff (fun p mem => single p (h.part.subset mem)) h.plain h.begins

theorem stopsAt_draw (wellFormed : contour.WellFormed) (index : Nat) :
    StopsAt contour.Passes (contour.draw index).elements := by
  cases contour with
  | nil => exact stopsAt_nil
  | cons first rest =>
      obtain ⟨start, number, prev, points, behind, h⟩ :=
        exists_opens single (wellFormed.begins first rfl) index
      have covered : Covered (Passes (first :: rest)) points :=
        ⟨fun p mem => .point (h.part.subset mem), fun p q row =>
          .implied (row.trans (h.part.trans (List.prefix_append _ _).isInfix))⟩
      rw [h.draw]
      exact .cons rfl (h.passes wellFormed) (stopsAt_drawFrom (h.passes wellFormed)
        (fun p mem => single p (h.part.subset mem)) covered (h.wellFormed.1 wellFormed))

end Contours

/-- A contour with one cubic and one quadratic curve. -/
def rounded : Contour :=
  [⟨0, .on⟩, ⟨⟨0, 1⟩, .cubicControl⟩, ⟨⟨1, .ofInt 2⟩, .cubicControl⟩,
    ⟨⟨.ofInt 2, .ofInt 2⟩, .on⟩, ⟨⟨.ofInt 2, 0⟩, .quadControl⟩]

theorem pairsEnd_rounded : rounded.PairsEnd := by
  refine (pairsEnd_iff_stopped (by decide)).2 ?_
  refine (stopped_curve_iff rfl rfl (by decide)).2 ⟨rfl, ?_⟩
  exact (stopped_cons (by decide)).2 ((stopped_cons (by decide)).2 stopped_nil)

/-- A contour with a cubic curve that ends at a third control point. -/
def loose : Contour :=
  [⟨0, .on⟩, ⟨⟨1, 1⟩, .cubicControl⟩, ⟨⟨.ofInt 2, 1⟩, .cubicControl⟩,
    ⟨⟨.ofInt 2, 0⟩, .cubicControl⟩]

theorem not_wellFormed_loose : ¬ loose.WellFormed := by
  intro h
  have run : loose.Run [⟨0, .on⟩] [⟨⟨1, 1⟩, .cubicControl⟩, ⟨⟨.ofInt 2, 1⟩, .cubicControl⟩,
      ⟨⟨.ofInt 2, 0⟩, .cubicControl⟩] [] := by
    constructor <;> decide
  exact absurd (h.pairs _ _ _ run).1 (by decide)

end Contour

/-! ## Outlines -/

namespace Outline

variable {outline : Outline} {contours : List Contour}

theorem fault_drawContours_iff
    (single : ∀ contour ∈ contours, contour.Unmixed) (index : Nat) :
    (drawContours index contours).fault = none ∧ (∀ contour ∈ contours, contour.PairsEnd) ↔
      ∀ contour ∈ contours, contour.WellFormed := by
  induction contours generalizing index with
  | nil => simp [drawContours, Drawing.blank]
  | cons contour contours ih =>
      obtain ⟨here, later⟩ := List.forall_mem_cons.1 single
      rw [drawContours, Drawing.fault_append, List.forall_mem_cons, List.forall_mem_cons,
        and_and_and_comm, Contour.fault_draw_iff here, ih later]

theorem stopsAt_drawContours
    (single : ∀ contour ∈ contours, contour.Unmixed)
    (wellFormed : ∀ contour ∈ contours, contour.WellFormed) (index : Nat) :
    StopsAt (fun stop => ∃ contour ∈ contours, contour.Passes stop)
      (drawContours index contours).elements := by
  induction contours generalizing index with
  | nil => exact stopsAt_nil
  | cons contour contours ih =>
      obtain ⟨here, later⟩ := List.forall_mem_cons.1 single
      obtain ⟨wellFormed, rest⟩ := List.forall_mem_cons.1 wellFormed
      refine StopsAt.append ?_ ?_
      · exact (Contour.stopsAt_draw here wellFormed index).mono fun p passes =>
          ⟨contour, List.mem_cons_self, passes⟩
      · exact (ih later rest _).mono fun p ⟨contour', listed, passes⟩ =>
          ⟨contour', List.mem_cons_of_mem contour listed, passes⟩

theorem mem_of_mem_contoursFrom {points : Array OutlinePoint} {start : Nat} {ends : List Nat}
    {contour : Contour} (listed : contour ∈ contoursFrom points start ends) {p : OutlinePoint}
    (mem : p ∈ contour) : p ∈ points := by
  induction ends generalizing start with
  | nil => cases listed
  | cons last ends ih =>
      rcases List.mem_cons.1 listed with rfl | listed
      · obtain ⟨number, _, rfl⟩ := Array.mem_extract_iff_getElem.1 (Array.mem_toList_iff.1 mem)
        exact Array.getElem_mem _
      · exact ih listed

/-- The contours of an outline have no other points than the outline. -/
theorem mem_of_mem_contours {contour : Contour} (listed : contour ∈ outline.contours)
    {p : OutlinePoint} (mem : p ∈ contour) : p ∈ outline.points :=
  mem_of_mem_contoursFrom listed mem

theorem path_eq_ok_iff {elements : List (PathElement Fixed)} :
    outline.path = .ok elements ↔ outline.draw.fault = none ∧ elements = outline.draw.elements := by
  simp only [path, Drawing.result]
  cases outline.draw.fault <;> simp [eq_comm]

/-- An outline is well-formed if it can be drawn and its cubic curves end on the curve; then all
parts of its path end on the curve.  That the cubic curves do so is not found out by drawing. -/
theorem wellFormed_iff_path (single : ∀ p ∈ outline.points, p.tag.Single) :
    ((∃ elements, outline.path = .ok elements) ∧ (∀ contour ∈ outline.contours, contour.PairsEnd) ↔
      ∀ contour ∈ outline.contours, contour.WellFormed) ∧
    ((∀ contour ∈ outline.contours, contour.WellFormed) →
      ∃ elements, outline.path = .ok elements ∧
        StopsAt (fun stop => ∃ contour ∈ outline.contours, contour.Passes stop) elements) := by
  have single : ∀ contour ∈ outline.contours, contour.Unmixed :=
    fun contour listed p mem => (single p (mem_of_mem_contours listed mem)).plain
  have drawn : (∃ elements, outline.path = .ok elements) ↔ outline.draw.fault = none := by
    simp [path_eq_ok_iff]
  have whole := fault_drawContours_iff single 0
  refine ⟨?_, fun wellFormed => ?_⟩
  · rw [drawn]
    exact whole
  · exact ⟨_, path_eq_ok_iff.2 ⟨(whole.2 wellFormed).1, rfl⟩,
      stopsAt_drawContours single wellFormed 0⟩

theorem wellFormed_rounded :
    let outline := ofContours [Contour.rounded]
    (∀ p ∈ outline.points, p.tag.Single) ∧ (∀ contour ∈ outline.contours, contour.WellFormed) ∧
      ∃ elements, outline.path = .ok elements ∧
        StopsAt (fun stop => ∃ contour ∈ outline.contours, contour.Passes stop) elements := by
  intro outline
  have single : ∀ p ∈ outline.points, p.tag.Single := by decide
  have path : ∃ elements, outline.path = .ok elements := ⟨_, rfl⟩
  have contours : outline.contours = [Contour.rounded] := contours_ofContours (by decide)
  have pairsEnd : ∀ contour ∈ outline.contours, contour.PairsEnd := by
    rw [contours]
    exact List.forall_mem_singleton.2 Contour.pairsEnd_rounded
  obtain ⟨whole, stops⟩ := wellFormed_iff_path single
  have wellFormed := whole.1 ⟨path, pairsEnd⟩
  exact ⟨single, wellFormed, stops wellFormed⟩

/-- A cubic curve is drawn to a control point, although its contour is not well-formed. -/
theorem path_loose :
    let outline := ofContours [Contour.loose]
    (∀ p ∈ outline.points, p.tag.Single) ∧
      outline.path = .ok [Point.moveTo 0,
        Point.curveTo ⟨1, 1⟩ ⟨.ofInt 2, 1⟩ ⟨.ofInt 2, 0⟩, .close] ∧
      ∃ contour ∈ outline.contours, contour ≠ [] ∧ ¬ contour.WellFormed :=
  ⟨by decide, by decide, Contour.loose, by decide, by decide, Contour.not_wellFormed_loose⟩

end Outline

end Type2Glyphs
