import Type2Glyphs.Proofs.Draft.Coupling
import Type2Glyphs.Proofs.Draft.History

/-!
# Whole — the outline of a draft that is not finished

A draft keeps its outline in two parts.  `Draft.whole` puts them together, so that one can say what
a draft has more than an earlier one: `Outline.Begins` says that an outline is the beginning of
another, points and ends.

* `Draft.Reachable`: what a draft can become by its operations, in whatever order;
* `ComponentInvariant I`: the changes that a component makes to a draft keep `I`;
* `Draft.Neat`: the two parts never have ends without points, and a reachable draft is neat;
* `Draft.Kept before draft`: since `before`, nothing was done but what components do.
-/

namespace Type2Glyphs

/-! ## Beginnings of outlines -/

/-- The first outline is the beginning of the second one. -/
structure Outline.Begins (first second : Outline) : Prop where
  points : first.points.toList <+: second.points.toList
  ends : first.ends.toList <+: second.ends.toList

namespace Outline.Begins

theorem refl (outline : Outline) : outline.Begins outline :=
  ⟨List.prefix_rfl, List.prefix_rfl⟩

theorem trans {first second third : Outline} (h : first.Begins second)
    (h' : second.Begins third) : first.Begins third :=
  ⟨h.points.trans h'.points, h.ends.trans h'.ends⟩

/-- What is added to the second of two outlines comes after both. -/
theorem append (base : Outline) {first second : Outline} (h : first.Begins second) :
    (base.append first).Begins (base.append second) := by
  constructor
  · simpa [Outline.append] using h.points
  · simpa [Outline.append] using h.ends.map (· + base.points.size)

end Outline.Begins

namespace Outline

theorem append_empty (outline : Outline) : outline.append .empty = outline := by
  simp [append, empty]

theorem empty_append (outline : Outline) : Outline.empty.append outline = outline := by
  simp [append, empty]

end Outline

/-! ## Changes of a draft -/

/-- What holds of a draft through every change that the program of a component makes. -/
structure ComponentInvariant (I : Draft → Prop) : Prop where
  closeContour : ∀ {d}, I d → I d.closeContour
  start : ∀ {d}, I d → d.isOpen = false → ∀ p, I (d.openContour.add p .on)
  add : ∀ {d}, I d → d.isOpen = true → ∀ p tag, I (d.add p tag)
  commit : ∀ {d}, I d → I d.commit
  withOrigin : ∀ {d}, I d → ∀ o, I { d with origin := o }

namespace ComponentInvariant

variable {I : Draft → Prop}

theorem addCubic (inv : ComponentInvariant I) {d : Draft} (h : I d) (isOpen : d.isOpen = true)
    (c₁ c₂ p : Point) : I (d.addCubic c₁ c₂ p) :=
  inv.add (inv.add (inv.add h isOpen c₁ _) isOpen c₂ _) isOpen p _

/-- An invariant couples every draft that has it with itself, for components. -/
theorem draftCoupling (inv : ComponentInvariant I) (excused : LoadError → Prop) :
    DraftCoupling excused (fun d d' => d' = d ∧ I d) (fun c c' => c = true ∧ c' = true) Eq where
  isOpen h := by rw [h.1]
  counts h := .inl (by rw [h.1]; exact ⟨rfl, rfl⟩)
  closeContour h := ⟨by rw [h.1], inv.closeContour h.2⟩
  start h closed _ _ p := ⟨by rw [h.1], inv.start h.2 closed p⟩
  line h isOpen _ p := ⟨by rw [h.1], inv.add h.2 isOpen p .on⟩
  curve h isOpen _ c₁ c₂ p := ⟨by rw [h.1], inv.addCubic h.2 isOpen c₁ c₂ p⟩
  components := ⟨rfl, rfl⟩
  commit h := ⟨by rw [h.1], inv.commit h.2⟩
  listsComponents h := by rw [h.1]
  origin h := by rw [h.1]
  withOrigin h _ _ same := ⟨by rw [h.1, same], inv.withOrigin h.2 _⟩
  displaced same v := by rw [same]
  advance kinds _ _ h _ := by
    rw [kinds.1, kinds.2]
    exact h
  leftBearing kinds _ _ h _ := by
    rw [kinds.1, kinds.2]
    exact h

/-- No operation on drafts breaks what components keep. -/
theorem perform (inv : ComponentInvariant I) {d : Draft} (h : I d) (op : DraftOp) :
    I (d.perform op).2 := by
  cases op with
  | ensureCapacity count =>
      simp only [Draft.perform, DraftOp.program, Draft.ensureCapacity_apply]
      by_cases full : maxPoints < d.pointCount + count
      · simpa only [if_pos full] using h
      · simpa only [if_neg full] using h
  | addPoint p tag =>
      simp only [Draft.perform, DraftOp.program, Draft.addPoint_apply]
      by_cases closed : d.isOpen = false
      · simpa only [if_pos closed] using h
      · by_cases full : maxPoints ≤ d.pointCount
        · simpa only [if_neg closed, if_pos full] using h
        · simpa only [if_neg closed, if_neg full] using inv.add h (by simpa using closed) p tag
  | addOnCurve p =>
      simp only [Draft.perform, DraftOp.program, Draft.addOnCurve_apply]
      by_cases full : maxPoints < d.pointCount + 1
      · simpa only [if_pos full] using h
      · by_cases closed : d.isOpen = false
        · simpa only [if_neg full, if_pos closed] using h
        · simpa only [if_neg full, if_neg closed] using inv.add h (by simpa using closed) p .on
  | startContour p =>
      simp only [Draft.perform, DraftOp.program, Draft.startContour_apply]
      have closed := inv.closeContour h
      by_cases full : maxContours ≤ d.contourCount ∨ maxPoints < d.pointCount + 1
      · simpa only [if_pos full] using closed
      · simpa only [if_neg full] using inv.start closed d.isOpen_closeContour p
  | closeContour => exact inv.closeContour h
  | commit => exact inv.commit h
  | setOrigin origin => exact inv.withOrigin h origin

end ComponentInvariant

namespace Draft

/-! ## Reachable drafts -/

/-- A draft to which nothing was done but operations and the setting of measures. -/
inductive Reachable : Draft → Prop
  | blank (keepsPoints listsComponents : Bool) :
      Reachable { keepsPoints := keepsPoints, listsComponents := listsComponents }
  | perform {draft : Draft} (h : Reachable draft) (op : DraftOp) : Reachable (draft.perform op).2
  | measure {draft : Draft} (h : Reachable draft) (leftBearing advance : Point) :
      Reachable { draft with leftBearing := leftBearing, advance := advance }

theorem closeContour_of_pointless {draft : Draft} (isOpen : draft.isOpen = true)
    (keeps : draft.keepsPoints = false) : draft.closeContour = { draft with isOpen := false } := by
  simp [closeContour, isOpen, keeps]

theorem closeContour_of_isOpen {draft : Draft} (isOpen : draft.isOpen = true)
    (keeps : draft.keepsPoints = true) :
    draft.closeContour = { draft with
      isOpen := false
      current := { draft.current with
        ends := draft.current.ends.push (draft.current.points.size - 1) } } := by
  simp [closeContour, isOpen, keeps]

theorem current_push_of_pointless {draft : Draft} (keeps : draft.keepsPoints = false)
    (p : OutlinePoint) : (draft.push p).current = draft.current := by
  simp [push, keeps]

theorem isEmpty_current_push {draft : Draft} (keeps : draft.keepsPoints = true)
    (p : OutlinePoint) : (draft.push p).current.isEmpty = false := by
  simp [push, keeps, Outline.isEmpty]

/-- Neither part of the draft has ends without points, and an open contour has a point. -/
structure Neat (draft : Draft) : Prop where
  base : draft.base.isEmpty = true → draft.base = .empty
  current : draft.current.isEmpty = true → draft.current = .empty
  pointless : draft.keepsPoints = false → draft.current = .empty
  opened : draft.keepsPoints = true → draft.isOpen = true → draft.current.isEmpty = false

namespace Neat

variable {draft : Draft}

theorem closeContour (h : draft.Neat) : draft.closeContour.Neat := by
  cases isOpen : draft.isOpen with
  | false =>
      rw [closeContour_of_not_isOpen isOpen]
      exact h
  | true =>
      cases keeps : draft.keepsPoints with
      | false =>
          rw [closeContour_of_pointless isOpen keeps]
          exact ⟨h.base, h.current, h.pointless, fun _ impossible => nomatch impossible⟩
      | true =>
          rw [closeContour_of_isOpen isOpen keeps]
          refine ⟨h.base, fun empty => ?_, fun pointless => ?_, fun _ impossible =>
            nomatch impossible⟩
          · exact absurd (h.opened keeps isOpen) (Bool.not_eq_false _ ▸ empty)
          · exact absurd keeps (Bool.not_eq_true _ ▸ pointless)

/-- Where a point is added, the current part is not empty if points are kept.  So a contour may have
been opened for it. -/
theorem push (base : draft.base.isEmpty = true → draft.base = .empty)
    (current : draft.current.isEmpty = true → draft.current = .empty)
    (pointless : draft.keepsPoints = false → draft.current = .empty) (p : OutlinePoint) :
    (draft.push p).Neat := by
  cases keeps : draft.keepsPoints with
  | false =>
      have same := current_push_of_pointless keeps p
      refine ⟨base, ?_, fun _ => same.trans (pointless keeps), fun kept => ?_⟩
      · rw [same]
        exact current
      · cases keeps.symm.trans kept
  | true =>
      have some := isEmpty_current_push keeps p
      refine ⟨base, fun none => ?_, fun pointless => ?_, fun _ _ => some⟩
      · cases some.symm.trans none
      · cases keeps.symm.trans pointless

end Neat

/-! ## The outline as a whole -/

/-- The outline in both of its parts. -/
def whole (draft : Draft) : Outline :=
  draft.base.append draft.current

theorem whole_closeContour (draft : Draft) : draft.whole.Begins draft.closeContour.whole := by
  cases isOpen : draft.isOpen with
  | false =>
      rw [closeContour_of_not_isOpen isOpen]
      exact .refl _
  | true =>
      cases keeps : draft.keepsPoints with
      | false =>
          rw [closeContour_of_pointless isOpen keeps]
          exact .refl _
      | true =>
          rw [closeContour_of_isOpen isOpen keeps]
          refine .append draft.base ⟨List.prefix_rfl, ?_⟩
          simp

theorem whole_push (draft : Draft) (p : OutlinePoint) :
    draft.whole.Begins (draft.push p).whole := by
  refine .append draft.base ?_
  cases keeps : draft.keepsPoints with
  | false =>
      rw [current_push_of_pointless keeps]
      exact .refl _
  | true =>
      constructor <;> simp [push, keeps]

/-- Where points are kept, none is left in the current part of a draft that was committed. -/
theorem isEmpty_current_commit (draft : Draft) (keeps : draft.commit.keepsPoints = true) :
    draft.commit.current.isEmpty = true := by
  unfold commit at keeps ⊢
  dsimp only at keeps ⊢
  split at keeps
  · next nothing =>
      rw [if_pos nothing]
      rw [keeps] at nothing
      exact nothing
  · next some =>
      rw [if_neg some]
      split
      · next none => exact none
      · rfl

theorem isOpen_commit (draft : Draft) : draft.commit.isOpen = false := by
  have closed := draft.isOpen_closeContour
  unfold commit
  dsimp only
  split
  · exact closed
  · split <;> exact closed

namespace Neat

variable {draft : Draft}

/-- A neat draft without open contour is committed by moving its points, with none left behind. -/
theorem commit_eq (h : draft.Neat) (closed : draft.isOpen = false) :
    ∃ base, draft.commit = { draft with base := base, current := .empty } ∧
      base.append .empty = draft.whole ∧ (base.isEmpty = true → base = .empty) := by
  unfold Draft.commit
  rw [closeContour_of_not_isOpen closed]
  dsimp only
  split
  · next nothing =>
      have empty : draft.current = .empty := by
        rcases Bool.or_eq_true_iff.1 nothing with pointless | none
        · exact h.pointless (by simpa using pointless)
        · exact h.current none
      refine ⟨draft.base, ?_, ?_, h.base⟩
      · rw [← empty]
      · rw [whole, empty]
  · split
    · next none =>
        have empty := h.base none
        refine ⟨draft.current, ?_, ?_, h.current⟩
        · rw [empty]
        · rw [whole, empty, Outline.append_empty, Outline.empty_append]
    · next more =>
        refine ⟨draft.whole, rfl, Outline.append_empty _, fun none => absurd ?_ more⟩
        have points := Array.isEmpty_iff.1 none
        exact Array.isEmpty_iff.2 (Array.append_eq_empty_iff.1 points).1

/-- What is committed has been closed, and nothing is left in the current part. -/
theorem commit_whole (h : draft.Neat) :
    draft.commit.Neat ∧ draft.commit.whole = draft.closeContour.whole ∧
      draft.commit.isOpen = false ∧ draft.commit.current = .empty := by
  rcases h.closeContour.commit_eq draft.isOpen_closeContour with ⟨base, committed, whole, empty⟩
  rw [commit_closeContour] at committed
  rw [committed]
  refine ⟨⟨empty, fun _ => rfl, fun _ => rfl, fun _ isOpen => ?_⟩, whole,
    draft.isOpen_closeContour, rfl⟩
  cases draft.isOpen_closeContour.symm.trans isOpen

end Neat

theorem neat_invariant : ComponentInvariant Neat where
  closeContour h := h.closeContour
  start h _ p := by
    refine Neat.push ?_ ?_ ?_ _
    · exact h.base
    · exact h.current
    · exact h.pointless
  add h _ p tag := .push h.base h.current h.pointless _
  commit h := h.commit_whole.1
  withOrigin h _ := { h with }

/-- A reachable draft is neat. -/
theorem Reachable.neat {draft : Draft} (h : draft.Reachable) : draft.Neat := by
  induction h with
  | blank keepsPoints listsComponents =>
      exact ⟨fun _ => rfl, fun _ => rfl, fun _ => rfl, fun _ isOpen => nomatch isOpen⟩
  | perform _ op ih => exact neat_invariant.perform ih op
  | measure _ leftBearing advance ih => exact { ih with }

/-! ## What components leave alone -/

/-- Since the draft `before` nothing was done but what components do: the measures and settings are
the same, and the outline goes on from what it was. -/
structure Kept (before draft : Draft) : Prop where
  neat : draft.Neat
  advance : draft.advance = before.advance
  leftBearing : draft.leftBearing = before.leftBearing
  keepsPoints : draft.keepsPoints = before.keepsPoints
  listsComponents : draft.listsComponents = before.listsComponents
  whole : before.whole.Begins draft.whole

namespace Kept

variable {before draft : Draft}

theorem refl (h : draft.Neat) : draft.Kept draft :=
  ⟨h, rfl, rfl, rfl, rfl, .refl _⟩

theorem push (h : before.Kept draft) (p : OutlinePoint) (isOpen : Bool) (count : Nat) :
    before.Kept (Draft.push p { draft with isOpen := isOpen, contourCount := count }) where
  neat := by
    refine Neat.push ?_ ?_ ?_ p
    · exact h.neat.base
    · exact h.neat.current
    · exact h.neat.pointless
  advance := h.advance
  leftBearing := h.leftBearing
  keepsPoints := h.keepsPoints
  listsComponents := h.listsComponents
  whole := h.whole.trans (whole_push { draft with isOpen := isOpen, contourCount := count } p)

theorem closeContour (h : before.Kept draft) : before.Kept draft.closeContour where
  neat := h.neat.closeContour
  advance := draft.advance_closeContour.trans h.advance
  leftBearing := draft.leftBearing_closeContour.trans h.leftBearing
  keepsPoints := draft.keepsPoints_closeContour.trans h.keepsPoints
  listsComponents := draft.listsComponents_closeContour.trans h.listsComponents
  whole := h.whole.trans draft.whole_closeContour

theorem commit (h : before.Kept draft) : before.Kept draft.commit := by
  have closed := h.closeContour
  rcases closed.neat.commit_eq draft.isOpen_closeContour with ⟨base, committed, _, _⟩
  rcases h.neat.commit_whole with ⟨neat, whole, _, _⟩
  rw [commit_closeContour] at committed
  refine ⟨neat, ?_, ?_, ?_, ?_, whole ▸ closed.whole⟩
  · rw [committed]
    exact closed.advance
  · rw [committed]
    exact closed.leftBearing
  · rw [committed]
    exact closed.keepsPoints
  · rw [committed]
    exact closed.listsComponents

end Kept

theorem kept_invariant (before : Draft) : ComponentInvariant before.Kept where
  closeContour h := h.closeContour
  start {d} h _ p := h.push ⟨p + d.origin, .on⟩ true (d.contourCount + 1)
  add {d} h _ p tag := h.push ⟨p + d.origin, tag⟩ d.isOpen d.contourCount
  commit h := h.commit
  withOrigin h _ := ⟨{ h.neat with }, h.advance, h.leftBearing, h.keepsPoints, h.listsComponents,
    h.whole⟩

end Draft

end Type2Glyphs
