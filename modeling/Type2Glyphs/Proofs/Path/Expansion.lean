import Type2Glyphs.Charstring.Operands
import Type2Glyphs.Charstring.Segment

/-!
# Expansion — what the operands of path operators stand for

A path operator is short for a row of single lines and curves.  `PathOp.expansion` writes this row
down by the numbers of the operands: how many segments there are, and which operands the segment
with each number takes.  The operator itself takes its list of operands apart from the front.

* `PathOp.fewest` and `PathOp.hasForm` say which numbers of operands there can be, and
  `PathOp.checkCount_eq` that these are the ones that are accepted;
* `PathOp.segments_eq_expansion`: for these, the operator draws its expansion.
-/

namespace Type2Glyphs

/-! ## Numbers of operands -/

namespace PathOp

/-- The least number of operands. -/
def fewest : PathOp → Nat
  | .hlineto | .vlineto => 1
  | .rlineto => 2
  | .hhcurveto | .vvcurveto | .hvcurveto | .vhcurveto => 4
  | .rrcurveto => 6
  | .hflex => 7
  | .rcurveline | .rlinecurve => 8
  | .hflex1 => 9
  | .flex1 => 11
  | .flex => 13

/-- Whether so many operands have the form of the operator, if they are not too few. -/
def hasForm (count : Nat) : PathOp → Bool
  | .hlineto | .vlineto => true
  | .rlineto | .rlinecurve => count % 2 = 0
  | .rrcurveto => count % 6 = 0
  | .rcurveline => count % 6 = 2
  -- one operand may be left over from groups of four
  | .hhcurveto | .vvcurveto | .hvcurveto | .vhcurveto => count % 4 ≤ 1
  | .hflex => count = 7
  | .hflex1 => count = 9
  | .flex1 => count = 11
  | .flex => count = 13

end PathOp

namespace Operator

variable {op : Operator} {fewest count : Nat} {form : Bool}

theorem expectGroups_eq {group extra : Nat} (least : group + extra ≤ count ↔ fewest ≤ count)
    (whole : fewest ≤ count → ((count - extra) % group = 0 ↔ form = true)) :
    op.expectGroups group extra count =
      if count < fewest then .error (.stack .underflow)
      else if form then .ok ()
      else .error (.charstring (.operandCount op)) := by
  simp only [expectGroups]
  by_cases few : count < fewest
  · rw [if_pos few, if_pos (by omega)]
  · rw [if_neg few, if_neg (by omega)]
    have same := whole (by omega)
    cases form with
    | true => rw [if_neg (not_not_intro (same.2 rfl)), if_pos rfl]
    | false => rw [if_pos (fun zero => Bool.false_ne_true (same.1 zero)), if_neg Bool.false_ne_true]

theorem expectCount_eq {wanted : Nat} :
    op.expectCount wanted count =
      if count < wanted then .error (.stack .underflow)
      else if decide (count = wanted) then .ok ()
      else .error (.charstring (.operandCount op)) := by
  simp only [expectCount, decide_eq_true_eq, ite_not]

end Operator

namespace PathOp

theorem checkCount_eq (op : PathOp) (count : Nat) :
    op.checkCount count =
      if count < op.fewest then .error (.stack .underflow)
      else if op.hasForm count then .ok ()
      else .error (.charstring (.operandCount (.path op))) := by
  cases op with
  | hflex | flex | hflex1 | flex1 => exact Operator.expectCount_eq
  | hlineto | vlineto =>
      have always : 1 ≤ count → ((count - 0) % 1 = 0 ↔ true = true) := fun _ => by
        simp only [Nat.mod_one]
      exact Operator.expectGroups_eq Iff.rfl always
  | _ =>
      apply Operator.expectGroups_eq <;> simp only [fewest, hasForm, decide_eq_true_eq] <;> omega

end PathOp

/-! ## Rows of segments by numbers -/

/-- The operand with the given number. -/
def operandOf (operands : List Fixed) (i : Nat) : Fixed :=
  operands.getD i 0

namespace Segment

/-- A line from two operands. -/
def lineAt (x : Nat → Fixed) (i : Nat) : Segment :=
  .line ⟨x i, x (i + 1)⟩

/-- A curve from six operands. -/
def curveAt (x : Nat → Fixed) (i : Nat) : Segment :=
  .curve ⟨x i, x (i + 1)⟩ ⟨x (i + 2), x (i + 3)⟩ ⟨x (i + 4), x (i + 5)⟩

/-- Whether the segment with the given number goes along the horizontal axis, where the axes are
taken by turns. -/
def axisOf (horizontal : Bool) (i : Nat) : Bool :=
  if i % 2 = 0 then horizontal else !horizontal

/-- The line along an axis from one operand, where the axes are taken by turns. -/
def axisLineAt (horizontal : Bool) (x : Nat → Fixed) (i : Nat) : Segment :=
  .line (oriented (axisOf horizontal i) (x i) 0)

/-- A curve from four operands that starts with a displacement across an axis and ends along it. -/
def parallelCurveAt (horizontal : Bool) (across : Fixed) (x : Nat → Fixed) (i : Nat) : Segment :=
  .curve (oriented horizontal (x i) across) ⟨x (i + 1), x (i + 2)⟩
    (oriented horizontal (x (i + 3)) 0)

/-- A curve from four operands that starts along an axis and ends along the other one, but for the
displacement `last` across that. -/
def turningCurveAt (horizontal : Bool) (last : Fixed) (x : Nat → Fixed) (i : Nat) : Segment :=
  .curve (oriented horizontal (x i) 0) ⟨x (i + 1), x (i + 2)⟩
    (oriented (!horizontal) (x (i + 3)) last)

end Segment

open Segment in
/-- The segments that a path operator stands for, given the number of its operands and the operand
with each number. -/
def PathOp.expansion (count : Nat) (x : Nat → Fixed) : PathOp → List Segment
  | .rlineto => (List.range (count / 2)).map fun i => lineAt x (2 * i)
  | .hlineto => (List.range count).map fun i => axisLineAt true x i
  | .vlineto => (List.range count).map fun i => axisLineAt false x i
  | .rrcurveto => (List.range (count / 6)).map fun i => curveAt x (6 * i)
  | .rcurveline =>
      ((List.range ((count - 2) / 6)).map fun i => curveAt x (6 * i)) ++ [lineAt x (count - 2)]
  | .rlinecurve =>
      ((List.range ((count - 6) / 2)).map fun i => lineAt x (2 * i)) ++ [curveAt x (count - 6)]
  | .hhcurveto => parallel true
  | .vvcurveto => parallel false
  | .hvcurveto => turning true
  | .vhcurveto => turning false
  | .flex => [curveAt x 0, curveAt x 6]
  | .hflex =>
      -- the second curve takes back the height of the first one
      [.curve ⟨x 0, 0⟩ ⟨x 1, x 2⟩ ⟨x 3, 0⟩, .curve ⟨x 4, 0⟩ ⟨x 5, -x 2⟩ ⟨x 6, 0⟩]
  | .hflex1 =>
      -- the last point is at the height of the first one
      [.curve ⟨x 0, x 1⟩ ⟨x 2, x 3⟩ ⟨x 4, 0⟩,
       .curve ⟨x 5, 0⟩ ⟨x 6, x 7⟩ ⟨x 8, -(x 1 + x 3 + x 7)⟩]
  | .flex1 =>
      -- the last point is level with the first one, along the axis on which it is farther away
      let d : Point := ⟨x 0 + x 2 + x 4 + x 6 + x 8, x 1 + x 3 + x 5 + x 7 + x 9⟩
      let last : Point := if d.y.raw.natAbs < d.x.raw.natAbs then ⟨x 10, -d.y⟩ else ⟨-d.x, x 10⟩
      [curveAt x 0, .curve ⟨x 6, x 7⟩ ⟨x 8, x 9⟩ last]
where
  /-- Curves along one axis, where the first operand of an odd number is the displacement across it
  at the start of the first curve. -/
  parallel (horizontal : Bool) : List Segment :=
    (List.range (count / 4)).map fun i =>
      let across := if i = 0 ∧ count % 2 = 1 then x 0 else 0
      parallelCurveAt horizontal across x (count % 2 + 4 * i)
  /-- Curves along the axes by turns, where the last operand of an odd number is the displacement
  across the axis at the end of the last curve. -/
  turning (horizontal : Bool) : List Segment :=
    (List.range (count / 4)).map fun i =>
      let last := if i + 1 = count / 4 ∧ count % 2 = 1 then x (count - 1) else 0
      turningCurveAt (axisOf horizontal i) last x (4 * i)

theorem operandOf_drop (operands : List Fixed) (k : Nat) :
    operandOf (operands.drop k) = fun j => operandOf operands (k + j) := by
  funext j
  simp only [operandOf, List.getD_eq_getElem?_getD, List.getElem?_drop]

/-! ## Rounds -/

/-- A function takes operands in groups of `width`, as long as `after` more follow the group, and
draws a segment from each.  What it does may depend on the number of the round. -/
def TakesGroups (width after : Nat) (plain : Nat → List Fixed → List Segment)
    (segment : Nat → (Nat → Fixed) → Segment) : Prop :=
  ∀ i group rest, group.length = width → after ≤ rest.length →
    plain i (group ++ rest) = segment i (operandOf (group ++ rest)) :: plain (i + 1) rest

namespace TakesGroups

variable {width after : Nat} {plain : Nat → List Fixed → List Segment}
  {segment : Nat → (Nat → Fixed) → Segment} {operands : List Fixed}

theorem rounds (takes : TakesGroups width after plain segment) (count first : Nat)
    (long : width * count + after ≤ operands.length) :
    plain first operands =
      ((List.range count).map fun i =>
        segment (first + i) fun j => operandOf operands (width * i + j)) ++
      plain (first + count) (operands.drop (width * count)) := by
  -- by induction on the rounds, each of which starts one group further on
  induction count generalizing first operands with
  | zero => simp
  | succ count ih =>
      have further : width * (count + 1) = width + width * count := by
        rw [Nat.mul_succ, Nat.add_comm]
      have group : (operands.take width).length = width := List.length_take_of_le (by omega)
      have rest : (operands.drop width).length = operands.length - width := List.length_drop
      have one := takes first (operands.take width) (operands.drop width) group (by omega)
      rw [List.take_append_drop] at one
      have place : ∀ i j, width + (width * i + j) = width * (i + 1) + j := by
        intro i j
        rw [Nat.mul_succ]
        omega
      calc plain first operands
          = segment first (operandOf operands) :: plain (first + 1) (operands.drop width) := one
        _ = segment first (operandOf operands) ::
              (((List.range count).map fun i => segment (first + 1 + i) fun j =>
                  operandOf operands (width * (i + 1) + j)) ++
                plain (first + 1 + count) (operands.drop (width * (count + 1)))) := by
            rw [ih (first + 1) (by omega), List.drop_drop, further]
            simp only [operandOf_drop, place]
        _ = _ := by
            simp only [List.range_succ_eq_map, List.map_cons, List.map_map, List.cons_append,
              Nat.mul_zero, Nat.zero_add, Nat.add_zero, Function.comp_def, Nat.succ_eq_add_one,
              Nat.add_assoc, Nat.add_comm 1]

/-- The rounds are followed by what the function draws from the operands that are left. -/
theorem rounds_last (takes : TakesGroups width after plain segment)
    (last : Nat → (Nat → Fixed) → List Segment)
    (stops : ∀ i tail, tail.length = after → plain i tail = last i (operandOf tail))
    (count : Nat) (all : operands.length = width * count + after) :
    plain 0 operands =
      ((List.range count).map fun i => segment i fun j => operandOf operands (width * i + j)) ++
      last count fun j => operandOf operands (width * count + j) := by
  have tail : (operands.drop (width * count)).length = after := by
    rw [List.length_drop]
    omega
  have drawn := takes.rounds count 0 (Nat.le_of_eq all.symm)
  simp only [Nat.zero_add] at drawn
  rw [drawn, stops count _ tail, operandOf_drop]

/-- If the groups are all there is, so are the rounds. -/
theorem rounds_all (takes : TakesGroups width 0 plain segment) (done : ∀ i, plain i [] = [])
    (count : Nat) (all : operands.length = width * count) :
    plain 0 operands =
      (List.range count).map fun i => segment i fun j => operandOf operands (width * i + j) := by
  have stops : ∀ i tail, tail.length = 0 → plain i tail = [] := by
    intro i tail empty
    rw [List.length_eq_zero_iff.1 empty, done]
  have drawn := takes.rounds_last (fun _ _ => []) stops count all
  rwa [List.append_nil] at drawn

end TakesGroups

/-! ## Each kind of row -/

namespace Segment

variable {operands : List Fixed}

theorem axisOf_succ (horizontal : Bool) (i : Nat) :
    axisOf horizontal (i + 1) = !axisOf horizontal i := by
  simp only [axisOf]
  by_cases even : i % 2 = 0
  · rw [if_pos even, if_neg (by omega)]
  · rw [if_neg even, if_pos (by omega), Bool.not_not]

theorem takesGroups_lines :
    TakesGroups 2 0 (fun _ => lines) fun _ x => lineAt x 0 := fun _ group _ length _ =>
  match group, length with
  | [_, _], _ => rfl

theorem takesGroups_alternatingLines (horizontal : Bool) :
    TakesGroups 1 0 (fun i => alternatingLines (axisOf horizontal i)) fun i x =>
      .line (oriented (axisOf horizontal i) (x 0) 0) := fun _ group _ length _ =>
  match group, length with
  | [_], _ => by
      simp only [axisOf_succ]
      rfl

theorem alternatingLines_eq (horizontal : Bool) :
    alternatingLines horizontal operands =
      (List.range operands.length).map fun i => axisLineAt horizontal (operandOf operands) i := by
  have drawn := (takesGroups_alternatingLines horizontal).rounds_all (fun _ => rfl)
    operands.length (Nat.one_mul _).symm
  simp only [Nat.one_mul] at drawn
  exact drawn

theorem takesGroups_curvesAndLine (after : Nat) :
    TakesGroups 6 after (fun _ => curvesAndLine) fun _ x => curveAt x 0 := fun _ group _ length _ =>
  match group, length with
  | [_, _, _, _, _, _], _ => rfl

/-- A pair is a line only if a curve can follow it. -/
theorem takesGroups_linesAndCurve : TakesGroups 2 6 (fun _ => linesAndCurve) fun _ x =>
    lineAt x 0 := fun _ group rest length enough =>
  match group, length, rest, enough with
  | [_, _], _, _ :: _ :: _ :: _ :: _ :: _ :: _, _ => rfl

theorem takesGroups_parallelCurves (horizontal : Bool) (across : Fixed) :
    TakesGroups 4 0 (fun i => parallelCurves horizontal (if i = 0 then across else 0)) fun i x =>
      parallelCurveAt horizontal (if i = 0 then across else 0) x 0 := fun _ group _ length _ =>
  match group, length with
  | [_, _, _, _], _ => rfl

/-- A curve is not the last one if there are operands for another one. -/
theorem takesGroups_alternatingCurves (horizontal : Bool) {after : Nat} (more : 4 ≤ after) :
    TakesGroups 4 after (fun i => alternatingCurves (axisOf horizontal i)) fun i x =>
      turningCurveAt (axisOf horizontal i) 0 x 0 := fun _ group rest length enough =>
  match group, length, rest, Nat.le_trans more enough with
  | [_, _, _, _], _, _ :: _ :: _, _ => by
      simp only [axisOf_succ]
      rfl

/-- An odd operand in front is the displacement across the axis. -/
theorem axisCurves_eq (horizontal : Bool) (form : operands.length % 4 ≤ 1) :
    axisCurves horizontal operands =
      PathOp.expansion.parallel operands.length (operandOf operands) horizontal := by
  have takes := takesGroups_parallelCurves horizontal
  simp only [PathOp.expansion.parallel]
  by_cases odd : operands.length % 2 = 1
  · rcases List.length_pos_iff_exists_cons.1 (by omega : 0 < operands.length) with
      ⟨across, rest, rfl⟩
    have whole : rest.length = 4 * ((across :: rest).length / 4) := by
      simp only [List.length_cons] at form odd ⊢
      omega
    -- the operands of the curves are counted from the second one on
    have behind : operandOf rest = fun j => operandOf (across :: rest) (1 + j) :=
      operandOf_drop (across :: rest) 1
    calc axisCurves horizontal (across :: rest)
        = parallelCurves horizontal across rest := if_pos odd
      _ = _ := (takes across).rounds_all (fun _ => rfl) _ whole
      _ = _ := by
          simp only [odd, and_true, behind]
          rfl
  · have even : operands.length % 2 = 0 := Nat.mod_two_ne_one.1 odd
    have whole : operands.length = 4 * (operands.length / 4) := by omega
    calc axisCurves horizontal operands
        = parallelCurves horizontal 0 operands := by
          cases operands with
          | nil => rfl
          | cons first rest => exact if_neg odd
      _ = _ := (takes 0).rounds_all (fun _ => rfl) _ whole
      _ = _ := by
          simp only [even, Nat.zero_ne_one, and_false, if_false, ite_self, Nat.zero_add]
          rfl

/-- The last curve takes the operand that is left over, if there is one. -/
theorem alternatingCurves_eq (horizontal : Bool) (enough : 4 ≤ operands.length)
    (form : operands.length % 4 ≤ 1) :
    alternatingCurves horizontal operands =
      PathOp.expansion.turning operands.length (operandOf operands) horizontal := by
  have takes := fun after => @takesGroups_alternatingCurves horizontal after
  simp only [PathOp.expansion.turning]
  rcases Nat.exists_eq_add_of_le' (by omega : 1 ≤ operands.length / 4) with ⟨count, groups⟩
  have before : ∀ i ∈ List.range count, ¬ i + 1 = count + 1 := by
    intro i inside
    have := List.mem_range.1 inside
    omega
  rw [groups, List.range_succ, List.map_append]
  by_cases odd : operands.length % 2 = 1
  · have all : operands.length = 4 * count + 5 := by omega
    have drawn := (takes 5 (by decide)).rounds_last
      (fun i x => [turningCurveAt (axisOf horizontal i) (x 4) x 0])
      (fun i tail five => match tail, five with
        | [_, _, _, _, _], _ => rfl) count all
    refine Eq.trans drawn ?_
    congr 1
    · refine List.map_congr_left fun i inside => ?_
      rw [if_neg (fun h => before i inside h.1)]
      rfl
    · have last : operands.length - 1 = 4 * count + 4 := by omega
      simp only [List.map_cons, List.map_nil, odd, last, and_self, if_true]
      rfl
  · have all : operands.length = 4 * count + 4 := by omega
    have drawn := (takes 4 (by decide)).rounds_last
      (fun i x => [turningCurveAt (axisOf horizontal i) 0 x 0])
      (fun i tail four => match tail, four with
        | [_, _, _, _], _ => rfl) count all
    refine Eq.trans drawn ?_
    simp only [odd, and_false, if_false]
    rfl

end Segment

/-- For the numbers of operands that are accepted, a path operator draws its expansion. -/
theorem PathOp.segments_eq_expansion (op : PathOp) {operands : List Fixed}
    (enough : op.fewest ≤ operands.length) (form : op.hasForm operands.length = true) :
    op.segments operands = op.expansion operands.length (operandOf operands) := by
  cases op with
  | rlineto =>
      have whole : operands.length % 2 = 0 := of_decide_eq_true form
      exact Segment.takesGroups_lines.rounds_all (fun _ => rfl) _ (by omega)
  | hlineto | vlineto => exact Segment.alternatingLines_eq _
  | rrcurveto =>
      have whole : operands.length % 6 = 0 := of_decide_eq_true form
      exact (Segment.takesGroups_curvesAndLine 0).rounds_all (fun _ => rfl) _ (by omega)
  | rcurveline =>
      have whole : operands.length % 6 = 2 := of_decide_eq_true form
      rcases (⟨operands.length / 6, by omega⟩ : ∃ count, operands.length = 6 * count + 2) with
        ⟨count, all⟩
      have last : operands.length - 2 = 6 * count := by omega
      have rounds : 6 * count / 6 = count := by omega
      simp only [expansion, last, rounds]
      exact (Segment.takesGroups_curvesAndLine 2).rounds_last (fun _ x => [Segment.lineAt x 0])
        (fun _ tail two => match tail, two with
          | [_, _], _ => rfl) count all
  | rlinecurve =>
      have even : operands.length % 2 = 0 := of_decide_eq_true form
      have many : 8 ≤ operands.length := enough
      rcases (⟨operands.length / 2 - 3, by omega⟩ : ∃ count, operands.length = 2 * count + 6) with
        ⟨count, all⟩
      have last : operands.length - 6 = 2 * count := by omega
      have rounds : 2 * count / 2 = count := by omega
      simp only [expansion, last, rounds]
      exact Segment.takesGroups_linesAndCurve.rounds_last (fun _ x => [Segment.curveAt x 0])
        (fun _ tail six => match tail, six with
          | [_, _, _, _, _, _], _ => rfl) count all
  | hhcurveto | vvcurveto => exact Segment.axisCurves_eq _ (of_decide_eq_true form)
  | hvcurveto | vhcurveto => exact Segment.alternatingCurves_eq _ enough (of_decide_eq_true form)
  | hflex =>
      match operands, of_decide_eq_true form with
      | [_, _, _, _, _, _, _], _ => rfl
  | flex =>
      match operands, of_decide_eq_true form with
      | [_, _, _, _, _, _, _, _, _, _, _, _, _], _ => rfl
  | hflex1 =>
      match operands, of_decide_eq_true form with
      | [_, _, _, _, _, _, _, _, _], _ => rfl
  | flex1 =>
      match operands, of_decide_eq_true form with
      | [_, _, _, _, _, _, _, _, _, _, _], _ => rfl

/-- The axes alternate, and the ninth operand turns the end of the last curve only. -/
example (x : Nat → Fixed) : PathOp.hvcurveto.expansion 9 x =
    [.curve ⟨x 0, 0⟩ ⟨x 1, x 2⟩ ⟨0, x 3⟩, .curve ⟨0, x 4⟩ ⟨x 5, x 6⟩ ⟨x 7, x 8⟩] := by
  rfl

end Type2Glyphs
