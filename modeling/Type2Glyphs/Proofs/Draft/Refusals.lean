import Type2Glyphs.Proofs.Draft.History

/-!
# Refusals — operations on a draft that fail

An operation that is refused has done nothing that can be noticed by finishing the draft.  All but
one check their limits first and leave the draft as it is; `startContour` has closed the open
contour before, which finishing would do anyway (`Draft.finish_closeContour`).

A reservation speaks for the points that follow: `Draft.accepts_adding_iff` says how many points
fit, and that is what `ensureCapacity` checks.  `Draft.after_adding` says what these points leave
behind.
-/

namespace Type2Glyphs

namespace Draft

open Outcome

variable {draft : Draft} {op : DraftOp} {e : LoadError}

/-! ## Refused operations -/

/-- Finishing closes the open contour, so it does not matter if that has been done before. -/
theorem finish_closeContour (draft : Draft) : draft.closeContour.finish = draft.finish := by
  simp only [finish, commit_closeContour]

/-- A program that fails has left the draft as it is, or has closed a contour and nothing else. -/
theorem program_eq_error {after : Draft} (failed : op.program draft = .error e after) :
    (e = .charstring .noOpenContour ∨ e = .outOfMemory) ∧
      (after = draft ∨ after = draft.closeContour) := by
  cases op with
  | ensureCapacity count =>
      simp only [DraftOp.program, ensureCapacity_apply] at failed
      split at failed <;> cases failed
      exact ⟨.inr rfl, .inl rfl⟩
  | addPoint p tag =>
      simp only [DraftOp.program, addPoint_apply] at failed
      split at failed
      · cases failed
        exact ⟨.inl rfl, .inl rfl⟩
      · split at failed <;> cases failed
        exact ⟨.inr rfl, .inl rfl⟩
  | addOnCurve p =>
      simp only [DraftOp.program, addOnCurve_apply] at failed
      split at failed
      · cases failed
        exact ⟨.inr rfl, .inl rfl⟩
      · split at failed <;> cases failed
        exact ⟨.inl rfl, .inl rfl⟩
  | startContour p =>
      simp only [DraftOp.program, startContour_apply] at failed
      split at failed <;> cases failed
      exact ⟨.inr rfl, .inr rfl⟩
  | closeContour => cases failed
  | commit => cases failed
  | setOrigin origin => cases failed

/-- The call of an operation that is refused. -/
theorem perform_of_refused (refused : (draft.perform op).1.refusal = some e) :
    (e = .charstring .noOpenContour ∨ e = .outOfMemory) ∧
      ((draft.perform op).2 = draft ∨ (draft.perform op).2 = draft.closeContour) := by
  simp only [perform] at refused ⊢
  split at refused
  · cases refused
  · next e' after failed =>
      cases refused
      exact program_eq_error failed

/-- A contour needs room for the point in which it starts. -/
theorem perform_startContour_of_full (p : Point) (full : maxPoints ≤ draft.pointCount) :
    (draft.perform (.startContour p)).1.refusal = some .outOfMemory := by
  simp only [perform, DraftOp.program, startContour_apply]
  rw [if_pos (.inr (Nat.lt_succ_of_le full))]

/-! ## Points in a row -/

/-- The operations that add points one after the other. -/
def adding (points : List OutlinePoint) : List DraftOp :=
  points.map fun p => .addPoint p.position p.tag

theorem perform_ensureCapacity (draft : Draft) (count : Nat) :
    (draft.perform (.ensureCapacity count)).2 = draft ∧
      ((draft.perform (.ensureCapacity count)).1.refusal = none ↔
        draft.pointCount + count ≤ maxPoints) := by
  simp only [perform, DraftOp.program, ensureCapacity_apply]
  by_cases full : maxPoints < draft.pointCount + count
  · simp [full]
  · simp [if_neg full, Nat.le_of_not_lt full]

theorem perform_addPoint (isOpen : draft.isOpen = true) (p : OutlinePoint) :
    draft.perform (.addPoint p.position p.tag) =
      if maxPoints ≤ draft.pointCount then
        (⟨.addPoint p.position p.tag, some .outOfMemory⟩, draft)
      else
        (⟨.addPoint p.position p.tag, none⟩, draft.add p.position p.tag) := by
  simp only [perform, DraftOp.program, addPoint_apply, isOpen, Bool.true_eq_false, if_false]
  by_cases full : maxPoints ≤ draft.pointCount
  · simp only [if_pos full]
  · simp only [if_neg full]

/-- The points of a row are accepted exactly when there is room for all of them. -/
theorem accepts_adding_iff {points : List OutlinePoint} (isOpen : draft.isOpen = true) :
    (∀ call ∈ draft.calls (adding points), call.refusal = none) ↔
      points = [] ∨ draft.pointCount + points.length ≤ maxPoints := by
  induction points generalizing draft with
  | nil => simp [adding, calls]
  | cons p points ih =>
      have step := perform_addPoint isOpen p
      have later := @ih (draft.add p.position p.tag) isOpen
      rw [pointCount_add] at later
      simp only [adding, List.map_cons, calls, List.forall_mem_cons] at later ⊢
      by_cases full : maxPoints ≤ draft.pointCount
      · rw [if_pos full] at step
        simp only [step, reduceCtorEq, false_and, List.length_cons, false_or, false_iff]
        omega
      · rw [if_neg full] at step
        simp only [step, later, true_and, reduceCtorEq, false_or, List.length_cons]
        constructor
        · rintro (rfl | room)
          · show draft.pointCount + 1 ≤ maxPoints
            omega
          · omega
        · intro room
          exact .inr (by omega)

/-- What a row of points that are accepted leaves behind. -/
theorem after_adding {points : List OutlinePoint} (isOpen : draft.isOpen = true)
    (room : draft.pointCount + points.length ≤ maxPoints) :
    (draft.after (adding points)).isOpen = true ∧
      (draft.after (adding points)).pointCount = draft.pointCount + points.length := by
  induction points generalizing draft with
  | nil => exact ⟨isOpen, rfl⟩
  | cons p points ih =>
      simp only [List.length_cons] at room ⊢
      have step := perform_addPoint isOpen p
      rw [if_neg (by omega)] at step
      have later := @ih (draft.add p.position p.tag) isOpen (by rw [pointCount_add]; omega)
      rw [pointCount_add] at later
      simp only [adding, List.map_cons, after, List.foldl_cons, step]
      exact ⟨later.1, later.2.trans (by omega)⟩

/-! ## The result -/

/-- An operation that is refused leaves what is known of the draft and what it comes to at the end
as if it had not been called.  While a contour is open, points can be reserved exactly when they can
be added one after the other. -/
theorem perform_refused (draft : Draft) :
    (∀ (op : DraftOp) (e : LoadError), (draft.perform op).1.refusal = some e →
      (e = .charstring .noOpenContour ∨ e = .outOfMemory) ∧
        (draft.perform op).2.pointCount = draft.pointCount ∧
        (draft.perform op).2.contourCount = draft.contourCount ∧
        (draft.perform op).2.box = draft.box ∧
        (draft.perform op).2.origin = draft.origin ∧
        (draft.perform op).2.leftBearing = draft.leftBearing ∧
        (draft.perform op).2.advance = draft.advance ∧
        (draft.perform op).2.finish = draft.finish) ∧
    (draft.isOpen = true → ∀ points : List OutlinePoint, points ≠ [] →
      ((draft.perform (.ensureCapacity points.length)).1.refusal = none ↔
        ∀ call ∈ (draft.perform (.ensureCapacity points.length)).2.calls (adding points),
          call.refusal = none)) := by
  constructor
  · intro op e refused
    rcases perform_of_refused refused with ⟨reason, same | closed⟩
    · rw [same]
      exact ⟨reason, rfl, rfl, rfl, rfl, rfl, rfl, rfl⟩
    · rw [closed]
      exact ⟨reason, draft.pointCount_closeContour, draft.contourCount_closeContour,
        draft.box_closeContour, draft.origin_closeContour, draft.leftBearing_closeContour,
        draft.advance_closeContour, finish_closeContour draft⟩
  · intro isOpen points some
    rcases perform_ensureCapacity draft points.length with ⟨same, reserved⟩
    rw [same, reserved, accepts_adding_iff isOpen]
    simp only [some, false_or]

/-- The draft after one contour was started and points were added up to the given number. -/
def ofPoints (count : Nat) : Draft :=
  after (.startContour 0 :: adding (List.replicate (count - 1) ⟨0, .on⟩)) {}

theorem ofPoints_count (count : Nat) (some : 1 ≤ count) (room : count ≤ maxPoints) :
    (ofPoints count).isOpen = true ∧ (ofPoints count).pointCount = count := by
  have started : ((Draft.perform (.startContour 0) {}).2.isOpen = true) ∧
      (Draft.perform (.startContour 0) {}).2.pointCount = 1 := by decide
  have row : (List.replicate (count - 1) (⟨0, .on⟩ : OutlinePoint)).length = count - 1 :=
    List.length_replicate
  obtain ⟨isOpen, points⟩ := after_adding started.1 (by rw [started.2, row]; omega)
  rw [started.2, row] at points
  exact ⟨isOpen, points.trans (by omega)⟩

/-- With as many points as there can be but two, a third one has no room.  Another contour cannot be
started after the last point, and a point needs an open one. -/
theorem perform_refused_full :
    (∃ e, ((ofPoints 32765).perform (.ensureCapacity 3)).1.refusal = some e) ∧
      ((ofPoints 32765).perform (.ensureCapacity 3)).2.finish = (ofPoints 32765).finish ∧
      (∀ call ∈ ((ofPoints 32765).perform (.ensureCapacity 2)).2.calls
        (adding [⟨0, .on⟩, ⟨0, .on⟩]), call.refusal = none) ∧
      ((ofPoints 32767).perform (.startContour 0)).1.refusal = some .outOfMemory ∧
      ((ofPoints 32767).perform (.startContour 0)).2.finish = (ofPoints 32767).finish ∧
      ((ofPoints 32767).perform (.startContour 0)).2.pointCount = 32767 ∧
      (Draft.perform (.addPoint 0 .on) {}).2.finish = Draft.finish {} := by
  obtain ⟨isOpen, near⟩ := ofPoints_count 32765 (by decide) (by decide)
  obtain ⟨_, full⟩ := ofPoints_count 32767 (by decide) (by decide)
  obtain ⟨refused, reserved⟩ := perform_refused (ofPoints 32765)
  have two := (perform_ensureCapacity (ofPoints 32765) 2).2.2 (by rw [near]; decide)
  have three : ((ofPoints 32765).perform (.ensureCapacity 3)).1.refusal ≠ none := by
    rw [Ne, (perform_ensureCapacity _ _).2, near]
    decide
  obtain ⟨e, noRoom⟩ := Option.ne_none_iff_exists'.1 three
  have noContour := @perform_startContour_of_full (ofPoints 32767) 0 (Nat.le_of_eq full.symm)
  obtain ⟨_, _, _, _, _, _, _, same⟩ := refused _ e noRoom
  obtain ⟨_, points, _, _, _, _, _, unstarted⟩ := (perform_refused (ofPoints 32767)).1 _ _ noContour
  obtain ⟨_, _, _, _, _, _, _, notOpen⟩ :=
    (perform_refused {}).1 (.addPoint 0 .on) (.charstring .noOpenContour) (by decide)
  have accepted := (reserved isOpen [⟨0, .on⟩, ⟨0, .on⟩] (by decide)).1
  simp only [List.length_cons, List.length_nil, Nat.zero_add, Nat.reduceAdd] at accepted
  exact ⟨⟨e, noRoom⟩, same, accepted two, noContour, unstarted, points.trans full, notOpen⟩

end Draft

end Type2Glyphs
