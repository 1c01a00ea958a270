import Type2Glyphs.Proofs.Outcome

/-!
# Steps — what each operation does to a draft

An operation on a draft checks limits, and then changes the draft in one go or leaves it as it is; a
contour that cannot be started has closed the one before it, and that is all.  One theorem for each
operation says so, with the check as a condition and the change as a function on drafts.
-/

namespace Type2Glyphs

namespace Draft

open Outcome

/-- The draft with a cubic curve more. -/
def addCubic (c₁ c₂ p : Point) (draft : Draft) : Draft :=
  ((draft.add c₁ .cubicControl).add c₂ .cubicControl).add p .on

/-! ## Facts that operations leave alone -/

section Unchanged

variable (draft : Draft)

@[simp] theorem isOpen_closeContour : draft.closeContour.isOpen = false := by
  simp only [closeContour]
  cases h : draft.isOpen <;> simp [h]

@[simp] theorem pointCount_closeContour : draft.closeContour.pointCount = draft.pointCount := by
  simp only [closeContour]
  split <;> rfl

@[simp] theorem contourCount_closeContour :
    draft.closeContour.contourCount = draft.contourCount := by
  simp only [closeContour]
  split <;> rfl

@[simp] theorem origin_closeContour : draft.closeContour.origin = draft.origin := by
  simp only [closeContour]
  split <;> rfl

@[simp] theorem box_closeContour : draft.closeContour.box = draft.box := by
  simp only [closeContour]
  split <;> rfl

@[simp] theorem keepsPoints_closeContour :
    draft.closeContour.keepsPoints = draft.keepsPoints := by
  simp only [closeContour]
  split <;> rfl

@[simp] theorem listsComponents_closeContour :
    draft.closeContour.listsComponents = draft.listsComponents := by
  simp only [closeContour]
  split <;> rfl

@[simp] theorem base_closeContour : draft.closeContour.base = draft.base := by
  simp only [closeContour]
  split <;> rfl

theorem leftBearing_closeContour : draft.closeContour.leftBearing = draft.leftBearing := by
  simp only [closeContour]
  split <;> rfl

theorem advance_closeContour : draft.closeContour.advance = draft.advance := by
  simp only [closeContour]
  split <;> rfl

@[simp] theorem isOpen_openContour : draft.openContour.isOpen = true :=
  rfl

@[simp] theorem pointCount_openContour : draft.openContour.pointCount = draft.pointCount :=
  rfl

@[simp] theorem isOpen_add (p : Point) (tag : Tag) :
    (draft.add p tag).isOpen = draft.isOpen :=
  rfl

@[simp] theorem pointCount_add (p : Point) (tag : Tag) :
    (draft.add p tag).pointCount = draft.pointCount + 1 :=
  rfl

@[simp] theorem contourCount_commit : draft.commit.contourCount = draft.contourCount := by
  have closed := draft.contourCount_closeContour
  unfold commit
  dsimp only
  split
  · exact closed
  · split <;> exact closed

@[simp] theorem origin_commit : draft.commit.origin = draft.origin := by
  have closed := draft.origin_closeContour
  unfold commit
  dsimp only
  split
  · exact closed
  · split <;> exact closed

@[simp] theorem listsComponents_commit :
    draft.commit.listsComponents = draft.listsComponents := by
  have closed := draft.listsComponents_closeContour
  unfold commit
  dsimp only
  split
  · exact closed
  · split <;> exact closed

/-- A draft with no contour open is closed already. -/
theorem closeContour_of_not_isOpen {draft : Draft} (closed : draft.isOpen = false) :
    draft.closeContour = draft := by
  simp [closeContour, closed]

@[simp] theorem closeContour_closeContour : draft.closeContour.closeContour = draft.closeContour :=
  closeContour_of_not_isOpen draft.isOpen_closeContour

/-- A draft is committed by closing its contour and more. -/
@[simp] theorem commit_closeContour : draft.closeContour.commit = draft.commit := by
  simp only [commit, closeContour_closeContour]

end Unchanged

/-! ## Operations as conditions and changes -/

theorem ensureCapacity_apply (n : Nat) (draft : Draft) :
    ensureCapacity n draft =
      if maxPoints < draft.pointCount + n then
        .error .outOfMemory draft
      else
        .ok () draft := by
  simp only [ensureCapacity]
  simp only [bind_ok (get_apply draft)]
  split <;> rfl

theorem addPoint_apply (p : Point) (tag : Tag) (draft : Draft) :
    addPoint p tag draft =
      if draft.isOpen = false then
        .error (.charstring .noOpenContour) draft
      else if maxPoints ≤ draft.pointCount then
        .error .outOfMemory draft
      else
        .ok () (draft.add p tag) := by
  simp only [addPoint]
  simp only [bind_ok (get_apply draft)]
  cases isOpen : draft.isOpen with
  | false => rfl
  | true =>
      have step : (do if maxPoints ≤ (← get).pointCount then throw .outOfMemory
                      modify (add p tag) : Program Unit) draft =
          if maxPoints ≤ draft.pointCount then .error .outOfMemory draft
          else .ok () (draft.add p tag) := by
        simp only [bind_ok (get_apply draft)]
        split <;> rfl
      simpa [isOpen] using step

theorem addOnCurve_apply (p : Point) (draft : Draft) :
    addOnCurve p draft =
      if maxPoints < draft.pointCount + 1 then
        .error .outOfMemory draft
      else if draft.isOpen = false then
        .error (.charstring .noOpenContour) draft
      else
        .ok () (draft.add p .on) := by
  have room := ensureCapacity_apply 1 draft
  have point := addPoint_apply p .on draft
  by_cases full : maxPoints < draft.pointCount + 1
  · simp only [if_pos full] at room ⊢
    exact bind_error room _
  · simp only [if_neg full] at room ⊢
    simp only [if_neg (by omega : ¬ maxPoints ≤ draft.pointCount)] at point
    exact (bind_ok room _).trans point

theorem addCurve_apply (c₁ c₂ p : Point) (draft : Draft) :
    addCurve c₁ c₂ p draft =
      if maxPoints < draft.pointCount + 3 then
        .error .outOfMemory draft
      else if draft.isOpen = false then
        .error (.charstring .noOpenContour) draft
      else
        .ok () (draft.addCubic c₁ c₂ p) := by
  have room := ensureCapacity_apply 3 draft
  have first := addPoint_apply c₁ .cubicControl draft
  by_cases full : maxPoints < draft.pointCount + 3
  · simp only [if_pos full] at room ⊢
    exact bind_error room _
  · simp only [if_neg full] at room ⊢
    apply (bind_ok room _).trans
    simp only [if_neg (by omega : ¬ maxPoints ≤ draft.pointCount)] at first
    cases isOpen : draft.isOpen with
    | false =>
        simp only [if_pos isOpen] at first
        exact bind_error first _
    | true =>
        -- there is room for three points, so no later check fails
        have second := addPoint_apply c₂ .cubicControl (draft.add c₁ .cubicControl)
        have third := addPoint_apply p .on
          ((draft.add c₁ .cubicControl).add c₂ .cubicControl)
        simp only [isOpen_add, pointCount_add, isOpen, Bool.true_eq_false, if_false]
          at first second third
        have second := second.trans (if_neg (by omega))
        have third := third.trans (if_neg (by omega))
        exact (bind_ok first _).trans ((bind_ok second _).trans third)

theorem startContour_apply (p : Point) (draft : Draft) :
    startContour p draft =
      if maxContours ≤ draft.contourCount ∨ maxPoints < draft.pointCount + 1 then
        .error .outOfMemory draft.closeContour
      else
        .ok () (draft.closeContour.openContour.add p .on) := by
  have closed : (modify closeContour : Program Unit) draft = .ok () draft.closeContour := rfl
  apply (bind_ok closed _).trans
  simp only [bind_ok (get_apply _), contourCount_closeContour]
  by_cases contours : maxContours ≤ draft.contourCount
  · rw [if_pos contours, if_pos (.inl contours)]
    rfl
  · simp only [if_neg contours]
    -- the contour before it is closed already, whether there is room for another one or not
    have room := ensureCapacity_apply 1 draft.closeContour
    simp only [pointCount_closeContour] at room
    by_cases full : maxPoints < draft.pointCount + 1
    · simp only [if_pos full] at room
      rw [if_pos (.inr full)]
      exact bind_error room _
    · simp only [if_neg full] at room
      rw [if_neg (by omega)]
      apply (bind_ok room _).trans
      have opened : (modify openContour : Program Unit) draft.closeContour =
          .ok () draft.closeContour.openContour := rfl
      have point := addPoint_apply p .on draft.closeContour.openContour
      simp only [isOpen_openContour, pointCount_openContour, pointCount_closeContour,
        Bool.true_eq_false, if_false] at point
      exact (bind_ok opened _).trans (point.trans (if_neg (by omega)))

end Draft

end Type2Glyphs
