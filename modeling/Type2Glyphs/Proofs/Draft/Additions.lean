import Type2Glyphs.Proofs.Draft.Steps

/-!
# Additions — what a draft has more than an earlier one, and what is left of it without places

Points are only ever added to a draft, whichever component they belong to.  So two runs that draw
the same thing at different places can be compared by the points that each of them adds, and by what
is equal when all places are taken away.

* `Draft.Adds` says which points were added between two drafts;
* `Draft.unplaced` is a draft with all points at the origin;
* `Draft.Moved` relates drafts that have added the same points, at a displacement.
-/

namespace Type2Glyphs

/-! ## Points that were added -/

namespace Draft

/-- All points, in the order in which they were added. -/
def points (draft : Draft) : List OutlinePoint :=
  draft.base.points.toList ++ draft.current.points.toList

/-- The second draft has these points more, of which it may keep no more than the measures. -/
structure Adds (added : List OutlinePoint) (draft after : Draft) : Prop where
  keepsPoints : after.keepsPoints = draft.keepsPoints
  points : after.points = if draft.keepsPoints then draft.points ++ added else draft.points
  pointCount : after.pointCount = draft.pointCount + added.length
  box : after.box = (added.map OutlinePoint.position).foldl Box.extend draft.box

@[simp] theorem points_closeContour (draft : Draft) : draft.closeContour.points = draft.points := by
  simp only [closeContour]
  split
  · rfl
  · cases draft.keepsPoints <;> simp [points]

/-- A draft is committed by closing its contour and rearranging its points into two outlines. -/
theorem commit_eq (draft : Draft) :
    ∃ base current, draft.commit = { draft.closeContour with base := base, current := current } ∧
      base.points.toList ++ current.points.toList = draft.points := by
  have closed := draft.points_closeContour
  simp only [commit]
  split
  · exact ⟨_, _, rfl, closed⟩
  · split
    · next empty =>
        -- the base has no points, so it makes no difference where it stands
        have none : draft.closeContour.base.points = #[] := Array.isEmpty_iff.1 empty
        refine ⟨_, _, rfl, ?_⟩
        rw [← closed, points, none]
        simp
    · refine ⟨_, _, rfl, ?_⟩
      simpa [points, Outline.append, Outline.empty] using closed

namespace Adds

variable {added more : List OutlinePoint} {draft after later : Draft}

/-- Nothing is added by what leaves the points and their measures alone. -/
theorem of_same (keepsPoints : after.keepsPoints = draft.keepsPoints)
    (points : after.points = draft.points) (pointCount : after.pointCount = draft.pointCount)
    (box : after.box = draft.box) : draft.Adds [] after := by
  refine ⟨keepsPoints, ?_, pointCount, box⟩
  rw [points, List.append_nil, ite_self]

theorem refl (draft : Draft) : draft.Adds [] draft :=
  of_same rfl rfl rfl rfl

theorem trans (first : draft.Adds added after) (next : after.Adds more later) :
    draft.Adds (added ++ more) later where
  keepsPoints := next.keepsPoints.trans first.keepsPoints
  points := by
    rw [next.points, first.points, first.keepsPoints]
    cases draft.keepsPoints <;> simp
  pointCount := by
    rw [next.pointCount, first.pointCount, List.length_append, Nat.add_assoc]
  box := by
    rw [next.box, first.box, List.map_append, List.foldl_append]

theorem trans_nil (first : draft.Adds added after) (next : after.Adds [] later) :
    draft.Adds added later := by
  simpa only [List.append_nil] using first.trans next

theorem push (draft : Draft) (p : OutlinePoint) : draft.Adds [p] (draft.push p) where
  keepsPoints := rfl
  points := by
    cases keeps : draft.keepsPoints <;> simp [Draft.points, Draft.push, keeps]
  pointCount := rfl
  box := rfl

theorem closeContour (draft : Draft) : draft.Adds [] draft.closeContour :=
  of_same draft.keepsPoints_closeContour draft.points_closeContour draft.pointCount_closeContour
    draft.box_closeContour

theorem commit (draft : Draft) : draft.Adds [] draft.commit := by
  rcases draft.commit_eq with ⟨base, current, committed, points⟩
  rw [committed]
  exact of_same draft.keepsPoints_closeContour points draft.pointCount_closeContour
    draft.box_closeContour

end Adds

end Draft

/-! ## Drafts without places -/

/-- The point at the origin, with its tag. -/
def OutlinePoint.unplaced (p : OutlinePoint) : OutlinePoint :=
  { p with position := 0 }

/-- The outline with all points at the origin. -/
def Outline.unplaced (outline : Outline) : Outline :=
  { outline with points := outline.points.map .unplaced }

@[simp] theorem Outline.unplaced_empty : Outline.empty.unplaced = Outline.empty := by
  simp [empty, unplaced]

theorem Outline.isEmpty_unplaced (outline : Outline) :
    outline.unplaced.isEmpty = outline.isEmpty := by
  simp only [isEmpty, unplaced, Array.isEmpty, Array.size_map]

theorem Outline.unplaced_append (first second : Outline) :
    (first.append second).unplaced = first.unplaced.append second.unplaced := by
  simp [append, unplaced]

namespace Draft

/-- The draft with all points at the origin, and nothing measured. -/
def unplaced (draft : Draft) : Draft :=
  { draft with
    base := draft.base.unplaced
    current := draft.current.unplaced
    origin := 0
    box := none }

/-- A point more is the same wherever it is. -/
theorem unplaced_push (draft : Draft) (p : OutlinePoint) :
    (draft.push p).unplaced = { draft.unplaced.push p.unplaced with box := none } := by
  cases keeps : draft.keepsPoints <;>
    simp [push, unplaced, Outline.unplaced, keeps]

theorem unplaced_closeContour (draft : Draft) :
    draft.closeContour.unplaced = draft.unplaced.closeContour := by
  cases isOpen : draft.isOpen <;> cases keeps : draft.keepsPoints <;>
    simp [closeContour, unplaced, Outline.unplaced, isOpen, keeps]

theorem unplaced_commit (draft : Draft) : draft.commit.unplaced = draft.unplaced.commit := by
  simp only [commit]
  rw [← unplaced_closeContour]
  generalize draft.closeContour = closed
  have keeps : closed.unplaced.keepsPoints = closed.keepsPoints := rfl
  have current : closed.unplaced.current.isEmpty = closed.current.isEmpty :=
    closed.current.isEmpty_unplaced
  have base : closed.unplaced.base.isEmpty = closed.base.isEmpty := closed.base.isEmpty_unplaced
  rw [keeps, current, base]
  split
  · rfl
  · split
    · rfl
    · simp [unplaced, Outline.unplaced_append]

/-! ## Drafts at a displacement -/

/-- Drafts that are equal up to places, and whose origins are a displacement of `shift` apart. -/
structure Apart (shift : Point) (d d' : Draft) : Prop where
  unplaced : d'.unplaced = d.unplaced
  origin : d'.origin = d.origin + shift

/-- Since earlier drafts, the displaced drafts have added the same points, at a displacement of
`offset`. -/
structure Moved (shift offset : Point) (before before' : Draft) (d d' : Draft) : Prop
    extends Apart shift d d' where
  added : ∃ points, before.Adds points d ∧ before'.Adds (points.map (.shift offset)) d'

namespace Moved

variable {shift offset u : Point} {before before' d d' : Draft}

theorem isOpen (h : Moved shift offset before before' d d') : d'.isOpen = d.isOpen :=
  (congrArg Draft.isOpen h.unplaced :)

theorem pointCount (h : Moved shift offset before before' d d') : d'.pointCount = d.pointCount :=
  (congrArg Draft.pointCount h.unplaced :)

theorem contourCount (h : Moved shift offset before before' d d') :
    d'.contourCount = d.contourCount :=
  (congrArg Draft.contourCount h.unplaced :)

theorem listsComponents (h : Moved shift offset before before' d d') :
    d'.listsComponents = d.listsComponents :=
  (congrArg Draft.listsComponents h.unplaced :)

/-- Drafts stay related by what changes no point and no measure, and acts on unplaced drafts too. -/
theorem change (h : Moved shift offset before before' d d') (f g : Draft → Draft)
    (unplaced : ∀ d, (f d).unplaced = g d.unplaced) (origin : ∀ d, (f d).origin = d.origin)
    (nothing : ∀ d : Draft, d.Adds [] (f d)) : Moved shift offset before before' (f d) (f d') where
  unplaced := by rw [unplaced, unplaced, h.unplaced]
  origin := by rw [origin, origin, h.origin]
  added := by
    rcases h.added with ⟨points, added, added'⟩
    exact ⟨points, added.trans_nil (nothing d), added'.trans_nil (nothing d')⟩

/-- A point is added to both, in places that are a displacement of `offset` apart. -/
theorem add (h : Moved shift offset before before' d d') {p p' : Point}
    (place : p' + d'.origin = p + d.origin + offset) (tag : Tag) :
    Moved shift offset before before' (d.add p tag) (d'.add p' tag) where
  unplaced := by
    have unplaced : ∀ (draft : Draft) p, (draft.add p tag).unplaced =
        { draft.unplaced.push ⟨0, tag⟩ with box := none } := fun draft p => draft.unplaced_push _
    rw [unplaced, unplaced, h.unplaced]
  origin := h.origin
  added := by
    rcases h.added with ⟨points, added, added'⟩
    have point := added.trans (.push d ⟨p + d.origin, tag⟩)
    have point' := added'.trans (.push d' ⟨p' + d'.origin, tag⟩)
    refine ⟨points ++ [⟨p + d.origin, tag⟩], point, ?_⟩
    rw [place] at point'
    simpa [OutlinePoint.shift, Draft.add, place] using point'

theorem closeContour (h : Moved shift offset before before' d d') :
    Moved shift offset before before' d.closeContour d'.closeContour :=
  h.change _ _ unplaced_closeContour origin_closeContour .closeContour

theorem openContour (h : Moved shift offset before before' d d') :
    Moved shift offset before before' d.openContour d'.openContour :=
  h.change Draft.openContour Draft.openContour (fun _ => rfl) (fun _ => rfl)
    fun _ => .of_same rfl rfl rfl rfl

theorem commit (h : Moved shift offset before before' d d') :
    Moved shift offset before before' d.commit d'.commit :=
  h.change _ _ unplaced_commit origin_commit .commit

theorem withOrigin (h : Moved shift offset before before' d d') (origin : Point) :
    Moved shift offset before before' { d with origin := origin }
      { d' with origin := origin + shift } where
  unplaced := h.unplaced
  origin := rfl
  added := by
    rcases h.added with ⟨points, added, added'⟩
    exact ⟨points, added.trans_nil (.of_same rfl rfl rfl rfl),
      added'.trans_nil (.of_same rfl rfl rfl rfl)⟩

theorem withAdvance (h : Moved shift offset before before' d d') (advance : Point) :
    Moved shift offset before before' { d with advance := advance }
      { d' with advance := advance } :=
  h.change (fun d => { d with advance := advance }) (fun d => { d with advance := advance })
    (fun _ => rfl) (fun _ => rfl) fun _ => .of_same rfl rfl rfl rfl

theorem withLeftBearing (h : Moved shift offset before before' d d') (bearing : Point) :
    Moved shift offset before before' { d with leftBearing := bearing }
      { d' with leftBearing := bearing } :=
  h.change (fun d => { d with leftBearing := bearing }) (fun d => { d with leftBearing := bearing })
    (fun _ => rfl) (fun _ => rfl) fun _ => .of_same rfl rfl rfl rfl

end Moved

end Draft

end Type2Glyphs
