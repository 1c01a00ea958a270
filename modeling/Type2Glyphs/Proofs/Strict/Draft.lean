import Type2Glyphs.Proofs.Draft.Coupling
import Type2Glyphs.Proofs.Strict.Operands

/-!
# Draft — contour ends in 16 bits

An outline lists the last point of each contour by its number.  Here these numbers are stored in 16
bits: closing a contour and appending an outline are defined only where the numbers are small
enough, and so is their sum with the number of points in front.

`Draft.Fits` is the invariant that makes them small enough: there are never more points in a draft
than were counted, and the count has a limit.
-/

namespace Type2Glyphs

namespace Strict

/-! ## Closing and committing -/

/-- The draft with no contour open. -/
def closeContour (draft : Draft) : Option Draft := do
  if !draft.isOpen then
    return draft
  else if draft.keepsPoints then
    let last ← word? (draft.current.points.size - 1)
    return { draft with
      isOpen := false
      current := { draft.current with ends := draft.current.ends.push last } }
  else
    return { draft with isOpen := false }

/-- The outline followed by another one, whose ends count on from the points of the first. -/
def append (first second : Outline) : Option Outline := do
  let offset ← word? first.points.size
  let ends ← second.ends.toList.mapM fun last => word? (last + offset)
  return ⟨first.points ++ second.points, first.ends ++ ends.toArray⟩

/-- The draft with its current component complete. -/
def commit (draft : Draft) : Option Draft := do
  let draft ← closeContour draft
  if !draft.keepsPoints || draft.current.isEmpty then
    return draft
  else if draft.base.isEmpty then
    return { draft with base := draft.current, current := draft.base }
  else
    return { draft with base := ← append draft.base draft.current, current := .empty }

/-- The complete outline and the box around its points. -/
def finish (draft : Draft) : Option (Outline × Option Box) := do
  let draft ← commit draft
  return (draft.base, draft.box)

end Strict

/-! ## Drafts that fit -/

/-- No contour ends behind the points of the outline. -/
def Outline.EndsWithin (outline : Outline) : Prop :=
  ∀ last ∈ outline.ends.toList, last ≤ outline.points.size

/-- All points of the draft were counted, the count is within its limit, and no contour ends behind
the points. -/
structure Draft.Fits (draft : Draft) : Prop where
  counted : draft.base.points.size + draft.current.points.size ≤ draft.pointCount
  room : draft.pointCount ≤ maxPoints
  base : draft.base.EndsWithin
  current : draft.current.EndsWithin

namespace Outline.EndsWithin

variable {outline : Outline}

theorem end_push {last : Nat} (h : outline.EndsWithin) (within : last ≤ outline.points.size) :
    EndsWithin { outline with ends := outline.ends.push last } := by
  intro other mem
  simp only [Array.toList_push, List.mem_append, List.mem_singleton] at mem
  rcases mem with mem | rfl
  · exact h other mem
  · exact within

theorem point_push (h : outline.EndsWithin) (p : OutlinePoint) :
    EndsWithin { outline with points := outline.points.push p } := by
  intro last mem
  rw [Array.size_push]
  exact Nat.le_succ_of_le (h last mem)

theorem append {first second : Outline} (h : first.EndsWithin) (h' : second.EndsWithin) :
    (first.append second).EndsWithin := by
  intro last mem
  simp only [Outline.append, Array.toList_append, Array.toList_map, List.mem_append,
    List.mem_map, Array.size_append] at mem ⊢
  rcases mem with mem | ⟨last, mem, rfl⟩
  · exact Nat.le_add_right_of_le (h last mem)
  · have within := h' last mem
    omega

end Outline.EndsWithin

namespace Draft.Fits

variable {draft : Draft}

theorem closeContour (h : draft.Fits) : draft.closeContour.Fits := by
  simp only [Draft.closeContour]
  split
  · exact h
  · cases draft.keepsPoints with
    | true => exact { h with current := h.current.end_push (Nat.sub_le ..) }
    | false => exact { h with }

/-- A point more is one in the count more, whether it is kept or not. -/
theorem push (h : draft.Fits) (room : draft.pointCount < maxPoints) (p : OutlinePoint) :
    (draft.push p).Fits := by
  simp only [Draft.push]
  cases draft.keepsPoints with
  | true =>
      refine ⟨?_, room, h.base, h.current.point_push p⟩
      simp only [if_true, Array.size_push]
      exact Nat.succ_le_succ h.counted
  | false => exact { h with counted := Nat.le_succ_of_le h.counted, room := room }

theorem add (h : draft.Fits) (room : draft.pointCount < maxPoints) (p : Point) (tag : Tag) :
    (draft.add p tag).Fits :=
  h.push room _

theorem commit (h : draft.Fits) : draft.commit.Fits := by
  have closed := h.closeContour
  simp only [Draft.commit]
  split
  · exact closed
  · split
    · refine ⟨?_, closed.room, closed.current, closed.base⟩
      dsimp only
      rw [Nat.add_comm]
      exact closed.counted
    · refine ⟨?_, closed.room, closed.base.append closed.current, ?_⟩
      · simp only [Outline.append, Array.size_append]
        exact closed.counted
      · intro last mem
        cases mem

end Draft.Fits

namespace Draft

theorem fits_invariant : DraftInvariant Fits where
  closeContour := Fits.closeContour
  start h _ _ room p := by
    have opened : (openContour _).Fits := { h with }
    exact opened.add room p .on
  line h _ room p := h.add room p .on
  curve h _ room c₁ c₂ p := by
    have first := h.add (Nat.lt_of_lt_of_le (by omega) room) c₁ .cubicControl
    have second := first.add (Nat.lt_of_succ_lt room) c₂ .cubicControl
    exact second.add room p .on
  commit := Fits.commit
  withOrigin h _ := { h with }
  advance h _ := { h with }
  leftBearing h _ := { h with }

end Draft

namespace Strict

variable {draft : Draft}

theorem word?_of_le {n : Nat} (h : n ≤ 2 * maxPoints) : word? n = some n :=
  if_pos (Nat.lt_of_le_of_lt h (by decide))

theorem closeContour_eq (h : draft.Fits) : closeContour draft = some draft.closeContour := by
  -- all points were counted, and the count is within its limit
  have room := h.room
  have counted := h.counted
  have last : word? (draft.current.points.size - 1) = some (draft.current.points.size - 1) :=
    word?_of_le (by omega)
  simp only [closeContour, Draft.closeContour, last]
  cases draft.isOpen with
  | false => rfl
  | true => cases draft.keepsPoints <;> rfl

/-- A list whose items can all be replaced can be replaced. -/
theorem mapM_eq_map {α β : Type} {f : α → Option β} {g : α → β} {items : List α}
    (h : ∀ item ∈ items, f item = some (g item)) : items.mapM f = some (items.map g) := by
  induction items with
  | nil => rfl
  | cons item items ih =>
      rw [List.mapM_cons, h item List.mem_cons_self,
        ih fun other mem => h other (List.mem_cons_of_mem item mem)]
      rfl

theorem append_eq {first second : Outline}
    (room : first.points.size + second.points.size ≤ maxPoints) (within : second.EndsWithin) :
    append first second = some (first.append second) := by
  have offset : word? first.points.size = some first.points.size := word?_of_le (by omega)
  have moved : second.ends.toList.mapM (fun last => word? (last + first.points.size)) =
      some (second.ends.toList.map (· + first.points.size)) := by
    refine mapM_eq_map fun last mem => word?_of_le ?_
    have bound := within last mem
    omega
  have back : (second.ends.toList.map (· + first.points.size)).toArray =
      second.ends.map (· + first.points.size) := by
    rw [← Array.toList_map]
  simp only [append, offset, Option.bind_eq_bind, Option.bind_some, moved, back]
  rfl

theorem commit_eq (h : draft.Fits) : commit draft = some draft.commit := by
  have closed := h.closeContour
  have appended := append_eq (Nat.le_trans closed.counted closed.room) closed.current
  simp only [commit, Draft.commit, closeContour_eq h, Option.bind_eq_bind, Option.bind_some,
    appended]
  split
  · rfl
  · split <;> rfl

theorem finish_eq (h : draft.Fits) : finish draft = some draft.finish := by
  simp only [finish, commit_eq h]
  rfl

end Strict

end Type2Glyphs
