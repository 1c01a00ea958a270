import Mathlib.Data.List.Infix
import Mathlib.Data.List.TakeWhile
import Type2Glyphs.Outline.Basic

/-!
# Runs — the cubic control points of a contour

Control points of cubic curves come in pairs between points on the curve.  `Contour.WellFormed` says
so for a contour read as a cycle: every longest run of cubic control points has length two, with
points on the curve on both sides.

`Contour.Joined` is the same as a grammar.  It reads the points once, from one that is not cubic to
its next occurrence, and this is the form in which contours are drawn.
-/

namespace Type2Glyphs

namespace Contour

/-! ## Longest runs -/

/-- The points are cut in three, with a longest run of cubic control points in the middle. -/
structure Run (points before run after : Contour) : Prop where
  cut : points = before ++ run ++ after
  nonempty : run ≠ []
  cubic : ∀ p ∈ run, p.tag.cubic
  starts : ∀ p ∈ before.getLast?, ¬ p.tag.cubic
  stops : ∀ p ∈ after.head?, ¬ p.tag.cubic

/-- The first point is not cubic, and every longest run of cubic control points is a pair between
points on the curve.  The last point of the contour comes before the first one. -/
structure WellFormed (contour : Contour) : Prop where
  begins : ∀ p ∈ contour.head?, ¬ p.tag.cubic
  pairs : ∀ before run after, contour.Run before run after → run.length = 2 ∧
    (∃ p ∈ (contour ++ before).getLast?, p.tag.onCurve) ∧
    ∃ p ∈ (after ++ contour).head?, p.tag.onCurve

/-- Two cubic control points in a row are followed by a point on the curve, if by any. -/
def Stopped (points : Contour) : Prop :=
  ∀ p q r, [p, q, r] <:+: points → p.tag.cubic → q.tag.cubic → r.tag.onCurve

/-- Two cubic control points in a row are followed by a point on the curve.  After the last point of
the contour comes the first one. -/
def PairsEnd (contour : Contour) : Prop :=
  Stopped (contour ++ contour.take 1)

/-- Every longest run of cubic control points is a pair between points on the curve, where the
points are not read as a cycle. -/
def Paired (points : Contour) : Prop :=
  ∀ before run after, points.Run before run after → run.length = 2 ∧
    (∃ p ∈ before.getLast?, p.tag.onCurve) ∧ ∃ p ∈ after.head?, p.tag.onCurve

/-- The points go on from `p`, one by one or with a cubic curve from a point on the curve to
another. -/
inductive Joined : OutlinePoint → Contour → Prop
  | last (p : OutlinePoint) : Joined p []
  | point {p q : OutlinePoint} {points : Contour} (plain : ¬ q.tag.cubic)
      (rest : Joined q points) : Joined p (q :: points)
  | curve {p c₀ c₁ q : OutlinePoint} {points : Contour} (starts : p.tag.onCurve)
      (first : c₀.tag.cubic) (second : c₁.tag.cubic) (stops : q.tag.onCurve)
      (plain : ¬ q.tag.cubic) (rest : Joined q points) : Joined p (c₀ :: c₁ :: q :: points)

variable {points before run after earlier later : Contour} {p q c₀ c₁ : OutlinePoint}

namespace Run

/-- A run does not start with a point that is not cubic. -/
theorem exists_before (h : Run (p :: points) before run after) (plain : ¬ p.tag.cubic) :
    ∃ before', before = p :: before' ∧ points = before' ++ run ++ after := by
  have cut := h.cut
  cases before with
  | nil =>
      cases run with
      | nil => exact absurd rfl h.nonempty
      | cons c run =>
          cases cut
          exact absurd (h.cubic p List.mem_cons_self) plain
  | cons b before' =>
      cases cut
      exact ⟨before', rfl, rfl⟩

theorem before_ne_nil (h : Run (p :: points) before run after) (plain : ¬ p.tag.cubic) :
    before ≠ [] := by
  obtain ⟨before', rfl, _⟩ := h.exists_before plain
  exact List.cons_ne_nil p before'

/-- Behind a point that is not cubic there is no run. -/
theorem cubic_of_singleton (h : Run [p] before run after) : p.tag.cubic := by
  by_contra plain
  obtain ⟨_, _, nothing⟩ := h.exists_before plain
  simp [h.nonempty] at nothing

/-- What comes earlier makes no difference to a run. -/
theorem append_left (h : Run points before run after) (some : before ≠ []) (earlier : Contour) :
    Run (earlier ++ points) (earlier ++ before) run after where
  cut := by rw [h.cut]; simp only [List.append_assoc]
  nonempty := h.nonempty
  cubic := h.cubic
  starts := by
    rw [List.getLast?_append_of_ne_nil earlier some]
    exact h.starts
  stops := h.stops

/-- What comes later makes no difference to a run if it starts with a point that is not cubic. -/
theorem append_right (h : Run points before run after) (plain : ¬ q.tag.cubic) (later : Contour) :
    Run (points ++ q :: later) before run (after ++ q :: later) where
  cut := by rw [h.cut]; simp only [List.append_assoc]
  nonempty := h.nonempty
  cubic := h.cubic
  starts := h.starts
  stops := by
    cases after with
    | nil =>
        rintro r ⟨⟩
        exact plain
    | cons r after => exact h.stops

/-- A run is on one side of a point that is not cubic. -/
theorem split (h : Run (earlier ++ q :: later) before run after)
    (plain : ¬ q.tag.cubic) :
    (∃ before', before = earlier ++ before' ∧ before' ≠ [] ∧ Run (q :: later) before' run after) ∨
      ∃ after', after = after' ++ q :: later ∧ Run earlier before run after' := by
  have cut := h.cut
  rw [List.append_assoc] at cut
  rcases List.append_eq_append_iff.1 cut with ⟨before', rfl, rest⟩ | ⟨inner, rfl, rest⟩
  · have some : before' ≠ [] := by
      rintro rfl
      cases run with
      | nil => exact h.nonempty rfl
      | cons r run =>
          cases rest
          exact plain (h.cubic q List.mem_cons_self)
    have starts := h.starts
    rw [List.getLast?_append_of_ne_nil earlier some] at starts
    rw [← List.append_assoc] at rest
    exact .inl ⟨before', rfl, some, rest, h.nonempty, h.cubic, starts, h.stops⟩
  · rcases List.append_eq_append_iff.1 rest with ⟨after', rfl, rfl⟩ | ⟨beyond, rfl, behind⟩
    · refine .inr ⟨after', rfl, ?_, h.nonempty, h.cubic, h.starts, ?_⟩
      · simp only [List.append_assoc]
      · intro r first
        exact h.stops r (List.mem_head?_append_of_mem_head? first)
    · cases beyond with
      | nil =>
          refine .inr ⟨[], behind.symm, ?_, h.nonempty, h.cubic, h.starts, nofun⟩
          simp only [List.append_nil]
      | cons r beyond =>
          cases behind
          exact absurd (h.cubic q (by simp)) plain

/-- The run that starts behind a point that is not cubic. -/
theorem of_cubic (plain : ¬ p.tag.cubic) (cubic : q.tag.cubic) (points : Contour) :
    Run (p :: q :: points) [p] (q :: points.takeWhile (·.tag.cubic))
      (points.dropWhile (·.tag.cubic)) where
  cut := by simp
  nonempty := List.cons_ne_nil _ _
  cubic := by
    intro r mem
    rcases List.mem_cons.1 mem with rfl | mem
    · exact cubic
    · exact List.mem_takeWhile_imp (p := fun r : OutlinePoint => r.tag.cubic) mem
  starts := by
    rintro r ⟨⟩
    exact plain
  stops := by
    intro r first
    have stopped := List.head?_dropWhile_not (·.tag.cubic) points
    rw [first] at stopped
    simpa using stopped

end Run

/-! ## Cycles and rows -/

/-- In a row that comes back to its first point the runs are those of the cycle. -/
theorem run_concat_iff (plain : ¬ p.tag.cubic) :
    Run (points ++ [p]) before run after ↔
      ∃ after', after = after' ++ [p] ∧ Run points before run after' := by
  constructor
  · intro h
    rcases h.split plain with ⟨before', _, _, alone⟩ | within
    · exact absurd alone.cubic_of_singleton plain
    · exact within
  · rintro ⟨after, rfl, h⟩
    exact h.append_right plain []

/-- A cycle whose first point is not cubic is well-formed as the row that comes back to it. -/
theorem wellFormed_iff_paired (plain : ¬ p.tag.cubic) :
    WellFormed (p :: points) ↔ Paired (p :: points ++ [p]) := by
  have behind : ∀ after : Contour, (after ++ p :: points).head? = (after ++ [p]).head? := by
    simp
  have ahead : ∀ {before run after}, Run (p :: points) before run after →
      (p :: points ++ before).getLast? = before.getLast? := fun cut =>
    List.getLast?_append_of_ne_nil (p :: points) (cut.before_ne_nil plain)
  constructor
  · intro h before run after wrapped
    obtain ⟨after, rfl, cut⟩ := (run_concat_iff plain).1 wrapped
    have pair := h.pairs before run after cut
    rw [ahead cut, behind] at pair
    exact pair
  · intro h
    refine ⟨by rintro q ⟨⟩; exact plain, ?_⟩
    intro before run after cut
    rw [ahead cut, behind]
    exact h before run (after ++ [p]) ((run_concat_iff plain).2 ⟨after, rfl, cut⟩)

/-! ## The grammar -/

theorem Paired.of_append (earlier : Contour) (plain : ¬ p.tag.cubic)
    (h : Paired (earlier ++ p :: points)) : Paired (p :: points) := by
  intro before run after cut
  have some := cut.before_ne_nil plain
  obtain ⟨pair, starts, stops⟩ := h _ _ _ (cut.append_left some earlier)
  rw [List.getLast?_append_of_ne_nil earlier some] at starts
  exact ⟨pair, starts, stops⟩

/-- A first cubic control point has a second one, and they stand between points on the curve. -/
theorem Paired.exists_curve (plain : ¬ p.tag.cubic) (cubic : c₀.tag.cubic)
    (h : Paired (p :: c₀ :: points)) :
    p.tag.onCurve ∧ ∃ c₁ q rest, points = c₁ :: q :: rest ∧ c₁.tag.cubic ∧ q.tag.onCurve ∧
      ¬ q.tag.cubic := by
  have first := Run.of_cubic plain cubic points
  obtain ⟨pair, ⟨_, ⟨⟩, starts⟩, q, next, stops⟩ := h _ _ _ first
  obtain ⟨c₁, one⟩ := List.length_eq_one_iff.1 (Nat.succ.inj pair)
  obtain ⟨rest, follow⟩ := List.head?_eq_some_iff.1 next
  refine ⟨starts, c₁, q, rest, ?_, first.cubic c₁ (by simp [one]), stops, first.stops q next⟩
  have cut := List.takeWhile_append_dropWhile (p := (·.tag.cubic)) (l := points)
  rw [one, follow] at cut
  exact cut.symm

theorem joined_of_paired {p : OutlinePoint} {points : Contour} (plain : ¬ p.tag.cubic)
    (h : Paired (p :: points)) : Joined p points := by
  match points with
  | [] => exact .last p
  | q :: rest =>
      by_cases cubic : q.tag.cubic
      · obtain ⟨starts, c₁, r, later, rfl, second, stops, plain'⟩ := h.exists_curve plain cubic
        exact .curve starts cubic second stops plain'
          (joined_of_paired plain' (.of_append [p, q, c₁] plain' h))
      · exact .point cubic (joined_of_paired cubic (.of_append [p] cubic h))
termination_by points.length

/-- Two cubic control points behind a point on the curve are the only run there. -/
theorem Run.of_pair (h : Run [p, c₀, c₁] before run after) (plain : ¬ p.tag.cubic)
    (first : c₀.tag.cubic) (second : c₁.tag.cubic) :
    before = [p] ∧ run.length = 2 ∧ after = [] := by
  obtain ⟨before, rfl, cut⟩ := h.exists_before plain
  match before with
  | [] =>
      match run with
      | [] => exact absurd rfl h.nonempty
      | [c] =>
          cases cut
          exact absurd second (h.stops c₁ rfl)
      | [c, c'] =>
          cases cut
          exact ⟨rfl, rfl, rfl⟩
      | c :: c' :: c'' :: run => cases cut
  | [c] =>
      obtain ⟨rfl, _⟩ := List.cons.inj cut
      exact absurd first (h.starts c₀ rfl)
  | c :: c' :: before => simp [h.nonempty] at cut

theorem Joined.paired (h : Joined p points) (plain : ¬ p.tag.cubic) : Paired (p :: points) := by
  induction h with
  | last p =>
      intro before run after alone
      exact absurd alone.cubic_of_singleton plain
  | @point p q points plain' _ ih =>
      intro before run after cut
      have behind : Run ([p] ++ q :: points) before run after := cut
      rcases behind.split plain' with ⟨before, rfl, some, later⟩ | ⟨after, rfl, alone⟩
      · rw [List.getLast?_append_of_ne_nil [p] some]
        exact ih plain' _ _ _ later
      · exact absurd alone.cubic_of_singleton plain
  | @curve p c₀ c₁ q points starts first second stops plain' _ ih =>
      intro before run after cut
      have behind : Run ([p, c₀, c₁] ++ q :: points) before run after := cut
      rcases behind.split plain' with ⟨before, rfl, some, later⟩ | ⟨after, rfl, pair⟩
      · rw [List.getLast?_append_of_ne_nil _ some]
        exact ih plain' _ _ _ later
      · obtain ⟨rfl, two, rfl⟩ := pair.of_pair plain first second
        exact ⟨two, ⟨p, rfl, starts⟩, q, rfl, stops⟩

/-- A row from a point that is not cubic is derived by the grammar if it is well-formed. -/
theorem paired_iff_joined (plain : ¬ p.tag.cubic) : Paired (p :: points) ↔ Joined p points :=
  ⟨joined_of_paired plain, fun h => h.paired plain⟩

/-! ## Cutting a row -/

/-- A row can be cut at a point that is not cubic. -/
theorem paired_append_cons_iff (plain : ¬ q.tag.cubic) :
    Paired (earlier ++ q :: later) ↔ Paired (earlier ++ [q]) ∧ Paired (q :: later) := by
  have behind : ∀ after : Contour, (after ++ q :: later).head? = (after ++ [q]).head? := by
    simp
  constructor
  · refine fun h => ⟨?_, h.of_append earlier plain⟩
    intro before run after cut
    obtain ⟨after, rfl, within⟩ := (run_concat_iff plain).1 cut
    rw [← behind]
    exact h _ _ _ (within.append_right plain later)
  · rintro ⟨first, second⟩ before run after cut
    rcases cut.split plain with ⟨before, rfl, some, behind⟩ | ⟨after, rfl, within⟩
    · rw [List.getLast?_append_of_ne_nil earlier some]
      exact second _ _ _ behind
    · rw [behind]
      exact first _ _ _ (within.append_right plain [])

theorem joined_append_cons_iff (plain : ¬ p.tag.cubic) (plain' : ¬ q.tag.cubic) :
    Joined p (earlier ++ q :: later) ↔ Joined p (earlier ++ [q]) ∧ Joined q later := by
  rw [← paired_iff_joined plain, ← paired_iff_joined plain, ← paired_iff_joined plain',
    ← List.cons_append, paired_append_cons_iff plain', List.cons_append]

theorem joined_cons_iff (plain : ¬ q.tag.cubic) : Joined p (q :: points) ↔ Joined q points := by
  refine ⟨fun h => ?_, .point plain⟩
  cases h with
  | point _ rest => exact rest
  | curve _ first => exact absurd first plain

theorem joined_curve_iff (first : c₀.tag.cubic) (second : c₁.tag.cubic) :
    Joined p (c₀ :: c₁ :: q :: points) ↔
      p.tag.onCurve ∧ q.tag.onCurve ∧ ¬ q.tag.cubic ∧ Joined q points := by
  refine ⟨fun h => ?_, fun ⟨starts, stops, plain, rest⟩ =>
    .curve starts first second stops plain rest⟩
  cases h with
  | point plain => exact absurd first plain
  | curve starts _ _ stops plain rest => exact ⟨starts, stops, plain, rest⟩

/-- A cubic control point does not come alone. -/
theorem not_joined_of_lone (first : c₀.tag.cubic) (plain : ¬ q.tag.cubic) :
    ¬ Joined p (c₀ :: q :: points) := by
  intro h
  cases h with
  | point plain' => exact plain' first
  | curve _ _ second => exact plain second

/-- What is followed by a cubic control point is on the curve. -/
theorem Joined.starts (h : Joined p (c₀ :: points)) (first : c₀.tag.cubic) : p.tag.onCurve := by
  cases h with
  | point plain => exact absurd first plain
  | curve starts => exact starts

/-- What follows a cubic control point at the end is on the curve. -/
theorem Joined.stops (h : Joined p (points ++ [c₁, q])) (second : c₁.tag.cubic) :
    q.tag.onCurve := by
  generalize row : points ++ [c₁, q] = all at h
  induction h generalizing points with
  | last => simp at row
  | point plain _ ih =>
      match points with
      | [] =>
          cases row
          exact absurd second plain
      | _ :: points =>
          cases row
          exact ih rfl
  | curve _ _ _ stops plain _ ih =>
      match points with
      | [] => cases row
      | [_] =>
          cases row
          exact stops
      | [_, _] =>
          cases row
          exact absurd second plain
      | _ :: _ :: _ :: points =>
          cases row
          exact ih rfl

/-! ## The ends of pairs -/

theorem stopped_cons_iff : Stopped (p :: points) ↔
    (p.tag.cubic → ∀ q r, [q, r] <+: points → q.tag.cubic → r.tag.onCurve) ∧ Stopped points := by
  simp only [Stopped, List.infix_cons_iff, List.cons_prefix_cons]
  grind

theorem stopped_nil : Stopped [] := by
  intro p q r row
  cases List.infix_nil.1 row

theorem stopped_cons (plain : ¬ p.tag.cubic) : Stopped (p :: points) ↔ Stopped points := by
  rw [stopped_cons_iff]
  simp [plain]

theorem stopped_curve_iff (first : c₀.tag.cubic) (second : c₁.tag.cubic)
    (single : q.tag.onCurve → ¬ q.tag.cubic) :
    Stopped (c₀ :: c₁ :: q :: points) ↔ q.tag.onCurve ∧ Stopped points := by
  constructor
  · intro h
    have stops : q.tag.onCurve := (stopped_cons_iff.1 h).1 first c₁ q ⟨points, rfl⟩ second
    exact ⟨stops, (stopped_cons (single stops)).1 (stopped_cons_iff.1 (stopped_cons_iff.1 h).2).2⟩
  · rintro ⟨stops, rest⟩
    refine stopped_cons_iff.2 ⟨?_, stopped_cons_iff.2 ⟨?_, (stopped_cons (single stops)).2 rest⟩⟩
    · intro _ a b front _
      simp only [List.cons_prefix_cons] at front
      rw [front.2.1]
      exact stops
    · intro _ a b front cubic
      rw [(List.cons_prefix_cons.1 front).1] at cubic
      exact absurd cubic (single stops)

/-- The ends of pairs can be looked at on both sides of a point that is not cubic. -/
theorem stopped_append_cons_iff (plain : ¬ q.tag.cubic) :
    Stopped (earlier ++ q :: later) ↔ Stopped (earlier ++ [q]) ∧ Stopped later := by
  induction earlier with
  | nil =>
    rw [List.nil_append, List.nil_append, stopped_cons plain, stopped_cons plain]
    exact (and_iff_right stopped_nil).symm
  | cons p earlier ih =>
      have same : ∀ a b, a.tag.cubic →
          ([a, b] <+: earlier ++ q :: later ↔ [a, b] <+: earlier ++ [q]) := by
        intro a b cubic
        rcases earlier with _ | ⟨c, _ | ⟨d, earlier⟩⟩
        · simp [List.cons_prefix_cons]
          grind
        · simp [List.cons_prefix_cons]
        · simp [List.cons_prefix_cons]
      rw [List.cons_append, List.cons_append, stopped_cons_iff, stopped_cons_iff, ih]
      grind

end Contour

end Type2Glyphs
