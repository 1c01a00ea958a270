import Type2Glyphs.Proofs.Draft.Steps
import Type2Glyphs.Proofs.Outline.Loops

/-!
# Contours — what a draft holds, contour by contour

`Parts` says what a draft that keeps its points is: the contours of the components that are
complete, those of the component in progress, and the contour that is open.  `Draft.Holds` ties the
two together, and each change of a draft has its counterpart on parts.

No contour is empty, since the one that is opened gets its first point at once.
-/

namespace Type2Glyphs

/-! ## Parts -/

/-- The contours of an outline under construction. -/
structure Parts where
  done : List Contour
  now : List Contour
  pending : Option Contour

namespace Parts

/-- No contours. -/
def none : Parts :=
  ⟨[], [], .none⟩

/-- The contours of the component in progress, the open one included. -/
def current (parts : Parts) : List Contour :=
  parts.now ++ parts.pending.toList

/-- All contours. -/
def contours (parts : Parts) : List Contour :=
  parts.done ++ parts.current

/-- All points. -/
def points (parts : Parts) : List OutlinePoint :=
  parts.contours.flatten

/-- The parts with no contour open. -/
def close (parts : Parts) : Parts :=
  ⟨parts.done, parts.current, .none⟩

/-- The parts with the component in progress complete. -/
def commit (parts : Parts) : Parts :=
  ⟨parts.contours, [], .none⟩

/-- The parts with a contour open that starts at `p`. -/
def start (p : OutlinePoint) (parts : Parts) : Parts :=
  { parts with pending := some [p] }

/-- The parts with more points in the open contour. -/
def extend (points : List OutlinePoint) (parts : Parts) : Parts :=
  { parts with pending := parts.pending.map (· ++ points) }

variable (parts : Parts)

@[simp] theorem current_close : parts.close.current = parts.current := by
  simp [close, current]

@[simp] theorem contours_close : parts.close.contours = parts.contours := by
  simp [contours, close, current]

@[simp] theorem contours_commit : parts.commit.contours = parts.contours := by
  simp [contours, commit, current]

@[simp] theorem points_close : parts.close.points = parts.points := by
  simp [points]

@[simp] theorem points_commit : parts.commit.points = parts.points := by
  simp [points]

variable {parts}

theorem close_eq_self (closed : parts.pending = .none) : parts.close = parts := by
  cases parts with
  | mk done now pending =>
      cases closed
      simp [close, current]

theorem current_start (closed : parts.pending = .none) (p : OutlinePoint) :
    (parts.start p).current = parts.current ++ [[p]] := by
  simp [current, start, closed]

theorem current_extend {contour : Contour} (isOpen : parts.pending = some contour)
    (points : List OutlinePoint) :
    (parts.extend points).current = parts.now ++ [contour ++ points] := by
  simp [current, extend, isOpen]

end Parts

/-! ## Drafts that hold parts -/

namespace Draft

/-- The draft with more points, at their final places. -/
def pushAll (points : List OutlinePoint) (draft : Draft) : Draft :=
  points.foldl (fun draft p => draft.push p) draft

theorem pushAll_eq {draft : Draft} (keeps : draft.keepsPoints = true)
    (points : List OutlinePoint) :
    draft.pushAll points = { draft with
      current := { draft.current with points := draft.current.points ++ points.toArray }
      pointCount := draft.pointCount + points.length
      box := (points.map OutlinePoint.position).foldl Box.extend draft.box } := by
  induction points generalizing draft with
  | nil => simp [pushAll]
  | cons p points ih =>
      have step : draft.pushAll (p :: points) = (draft.push p).pushAll points := rfl
      have pushed : (draft.push p).keepsPoints = true := keeps
      rw [step, ih pushed]
      simp [push, keeps, Nat.add_comm, Nat.add_left_comm]

/-- The draft keeps its points, and they are those of the parts. -/
structure Holds (draft : Draft) (parts : Parts) : Prop where
  keepsPoints : draft.keepsPoints = true
  isOpen : draft.isOpen = parts.pending.isSome
  base : draft.base = .ofContours parts.done
  current : draft.current = ⟨(Outline.ofContours parts.current).points,
    (Outline.ofContours parts.now).ends⟩
  pointCount : draft.pointCount = parts.points.length
  room : draft.pointCount ≤ maxPoints
  box : draft.box = Box.around (parts.points.map OutlinePoint.position)
  nonempty : ∀ contour ∈ parts.contours, contour ≠ []

namespace Holds

variable {draft : Draft} {parts : Parts}

theorem pending_of_isOpen (h : draft.Holds parts) (isOpen : draft.isOpen = true) :
    ∃ contour, parts.pending = some contour := by
  have pending := h.isOpen
  rw [isOpen] at pending
  exact Option.isSome_iff_exists.1 pending.symm

theorem pending_of_closed (h : draft.Holds parts) (closed : draft.isOpen = false) :
    parts.pending = none := by
  have pending := h.isOpen
  rw [closed] at pending
  simpa using pending.symm

/-! ### Points -/

/-- With points added to its open contour, the draft holds any parts that have them too. -/
theorem pushAll (h : draft.Holds parts) {parts' : Parts} (points : List OutlinePoint)
    {count : Nat} (done : parts'.done = parts.done) (now : parts'.now = parts.now)
    (pending : parts'.pending.isSome = true)
    (current : parts'.current.flatten = parts.current.flatten ++ points)
    (nonempty : ∀ contour ∈ parts'.current, contour ≠ [])
    (room : draft.pointCount + points.length ≤ maxPoints) :
    (Draft.pushAll points { draft with isOpen := true, contourCount := count }).Holds parts' := by
  -- the open contour is the last one, so new points come after all others
  have all : parts'.points = parts.points ++ points := by
    simp only [Parts.points, Parts.contours, List.flatten_append, done, current,
      List.append_assoc]
  have keeps : { draft with isOpen := true, contourCount := count }.keepsPoints = true :=
    h.keepsPoints
  simp only [pushAll_eq keeps]
  refine ⟨h.keepsPoints, pending.symm, ?_, ?_, ?_, room, ?_, ?_⟩
  · rw [done]
    exact h.base
  · simp [h.current, now, Outline.ofContours, current]
  · dsimp only
    rw [all, List.length_append, h.pointCount]
  · dsimp only
    rw [all, List.map_append, Box.around_append, h.box]
  · intro contour mem
    rcases List.mem_append.1 mem with mem | mem
    · rw [done] at mem
      exact h.nonempty contour (List.mem_append_left _ mem)
    · exact nonempty contour mem

theorem start (h : draft.Holds parts) (closed : draft.isOpen = false)
    (room : draft.pointCount < maxPoints) (p : OutlinePoint) :
    (draft.openContour.push p).Holds (parts.start p) := by
  have current := Parts.current_start (h.pending_of_closed closed) p
  refine h.pushAll [p] rfl rfl rfl ?_ ?_ room
  · rw [current, List.flatten_append]
    rfl
  · intro contour mem
    rw [current] at mem
    rcases List.mem_append.1 mem with mem | mem
    · exact h.nonempty contour (List.mem_append_right _ mem)
    · rw [List.mem_singleton.1 mem]
      exact List.cons_ne_nil p []

theorem extend (h : draft.Holds parts) (isOpen : draft.isOpen = true)
    (points : List OutlinePoint) (room : draft.pointCount + points.length ≤ maxPoints) :
    (draft.pushAll points).Holds (parts.extend points) := by
  obtain ⟨contour, pending⟩ := h.pending_of_isOpen isOpen
  have opened : draft =
      { draft with isOpen := true, contourCount := draft.contourCount } := by
    rw [← isOpen]
  have current : parts.current = parts.now ++ [contour] := by
    rw [Parts.current, pending]
    rfl
  have long : contour ≠ [] := by
    refine h.nonempty contour (List.mem_append_right _ ?_)
    rw [current]
    exact List.mem_append_right _ List.mem_cons_self
  rw [opened]
  refine h.pushAll points rfl rfl ?_ ?_ ?_ room
  · simp [Parts.extend, pending]
  · rw [Parts.current_extend pending, current]
    simp
  · intro other mem
    rw [Parts.current_extend pending] at mem
    rcases List.mem_append.1 mem with mem | mem
    · exact h.nonempty other (List.mem_append_right _ (List.mem_append_left _ mem))
    · rw [List.mem_singleton.1 mem]
      exact List.append_ne_nil_of_left_ne_nil long points

/-! ### Contours and components -/

theorem closeContour (h : draft.Holds parts) : draft.closeContour.Holds parts.close := by
  cases isOpen : draft.isOpen with
  | false =>
      have pending := h.pending_of_closed isOpen
      simp only [closeContour_of_not_isOpen isOpen, Parts.close_eq_self pending]
      exact h
  | true =>
      obtain ⟨contour, pending⟩ := h.pending_of_isOpen isOpen
      -- the end of the open contour is the only thing that is added
      have current : parts.current = parts.now ++ [contour] := by
        rw [Parts.current, pending]
        rfl
      have ends := Outline.ends_ofContours_concat parts.now contour
      rw [← current] at ends
      refine ⟨?_, isOpen_closeContour draft, ?_, ?_, ?_, ?_, ?_, ?_⟩
      · simp only [keepsPoints_closeContour]
        exact h.keepsPoints
      · simp only [base_closeContour]
        exact h.base
      · have closed : draft.closeContour.current = Outline.ofContours parts.current := by
          simp only [Draft.closeContour, isOpen, h.keepsPoints, h.current, Bool.not_true,
            Bool.false_eq_true, if_false, if_true, ← ends]
        rw [closed, Parts.current_close]
        rfl
      · simp only [pointCount_closeContour, Parts.points_close]
        exact h.pointCount
      · simp only [pointCount_closeContour]
        exact h.room
      · simp only [box_closeContour, Parts.points_close]
        exact h.box
      · rw [Parts.contours_close]
        exact h.nonempty

theorem current_of_closed (h : draft.Holds parts) (closed : parts.pending = none) :
    draft.current = .ofContours parts.current := by
  have now : parts.current = parts.now := by
    rw [Parts.current, closed]
    exact List.append_nil _
  have current := h.current
  rw [now] at current ⊢
  exact current

/-- The component in progress moves to those that are complete, with nothing left behind. -/
theorem commit (h : draft.Holds parts) : draft.commit.Holds parts.commit := by
  have held := h.closeContour
  have current := held.current_of_closed rfl
  simp only [Parts.current_close] at current
  unfold Draft.commit
  generalize draft.closeContour = closed at held current ⊢
  have base : closed.base = .ofContours parts.done := held.base
  have nothingNow : (!closed.keepsPoints || closed.current.isEmpty) = parts.current.isEmpty := by
    rw [held.keepsPoints, current, Outline.isEmpty_ofContours
      fun contour mem => h.nonempty contour (List.mem_append_right _ mem)]
    rfl
  have nothingDone : closed.base.isEmpty = parts.done.isEmpty := by
    rw [base, Outline.isEmpty_ofContours
      fun contour mem => h.nonempty contour (List.mem_append_left _ mem)]
  dsimp only
  rw [nothingNow, nothingDone]
  have points : parts.close.points = parts.commit.points := by
    simp only [Parts.points_close, Parts.points_commit]
  -- whichever way the points move, what counts is where they are afterwards
  have moved : ∀ {outline rest : Outline}, outline = .ofContours parts.contours →
      rest = .empty → Draft.Holds { closed with base := outline, current := rest }
        parts.commit := by
    intro outline rest all nothing
    refine ⟨held.keepsPoints, held.isOpen, all, nothing, ?_, held.room, ?_, ?_⟩
    · rw [← points]
      exact held.pointCount
    · rw [← points]
      exact held.box
    · rw [Parts.contours_commit]
      exact h.nonempty
  split
  · next nothing =>
      have nothing : parts.current = [] := by simpa using nothing
      have all : closed.base = .ofContours parts.contours := by
        rw [base, Parts.contours, nothing, List.append_nil]
      have rest : closed.current = .empty := by
        rw [current, nothing]
        rfl
      exact moved all rest
  · split
    · next nothing =>
        have nothing : parts.done = [] := by simpa using nothing
        have all : closed.current = .ofContours parts.contours := by
          rw [current, Parts.contours, nothing, List.nil_append]
        have rest : closed.base = .empty := by
          rw [base, nothing]
          rfl
        exact moved all rest
    · have all : closed.base.append closed.current = .ofContours parts.contours := by
        rw [base, current, Parts.contours, Outline.ofContours_append]
        exact fun contour mem => h.nonempty contour (List.mem_append_right _ mem)
      exact moved all rfl

theorem finish (h : draft.Holds parts) : draft.finish.1 = .ofContours parts.contours :=
  h.commit.base

theorem finish_box (h : draft.Holds parts) :
    draft.finish.2 = (Outline.ofContours parts.contours).controlBox := by
  have box := h.commit.box
  simp only [Parts.points_commit] at box
  exact box

end Holds

end Draft

end Type2Glyphs
