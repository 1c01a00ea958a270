import Type2Glyphs.Charstring.Segment
import Type2Glyphs.Proofs.Strict.Operands

/-!
# Segments — reading segments by the numbers of their operands

The functions of `Type2Glyphs.Charstring.Segment` take lists apart, so they never ask for an operand
that is not there.  Here path operators count through their operands instead, in loops that go on as
long as there seem to be more, and every operand is read by its number.

`segments?_eq` says that this is always possible after the number of operands has been checked, and
that the segments are the same.  The checks themselves are in front.
-/

namespace Type2Glyphs

namespace Operator

variable {op : Operator} {group extra wanted count : Nat}

theorem eq_of_expectCount (h : op.expectCount wanted count = .ok ()) : count = wanted := by
  simp only [expectCount] at h
  split at h
  · cases h
  · split at h
    · cases h
    · next same => exact Decidable.not_not.1 same

theorem whole_of_expectGroups (h : op.expectGroups group extra count = .ok ()) :
    group + extra ≤ count ∧ (count - extra) % group = 0 := by
  simp only [expectGroups] at h
  split at h
  · cases h
  · split at h
    · cases h
    · next enough whole => exact ⟨Nat.le_of_not_lt enough, Decidable.not_not.1 whole⟩

end Operator

namespace Strict

variable {σ : Type}

/-! ## Numbers of operands -/

/-- Checks for one or more groups of operands, and `extra` operands beside them. -/
def expectGroups (op : Operator) (group extra count : Nat) : Strict LoadError Unit := do
  if count < group + extra then
    throw (.stack .underflow)
  if (← remainder? (← minus? count extra) group) ≠ 0 then
    throw (.charstring (.operandCount op))

/-- Checks the number of operands of a path operator. -/
def checkCount (op : PathOp) (count : Nat) : Strict LoadError Unit :=
  match op with
  | .rlineto => expectGroups (.path op) 2 0 count
  | .hlineto | .vlineto => expectGroups (.path op) 1 0 count
  | .rrcurveto => expectGroups (.path op) 6 0 count
  | .rcurveline => expectGroups (.path op) 6 2 count
  | .rlinecurve => expectGroups (.path op) 2 6 count
  | .vvcurveto | .hhcurveto | .vhcurveto | .hvcurveto =>
      expectGroups (.path op) 4 (count % 2) count
  | .hflex => of ((Operator.path op).expectCount 7 count)
  | .flex => of ((Operator.path op).expectCount 13 count)
  | .hflex1 => of ((Operator.path op).expectCount 9 count)
  | .flex1 => of ((Operator.path op).expectCount 11 count)

/-- The operand with the given number, if there is one. -/
def operand? (i : Nat) (operands : List Fixed) : Option Fixed :=
  operands[i]?

/-- How far a move goes. -/
def displacement (op : MoveOp) (operands : List Fixed) : Strict LoadError Point := do
  of ((Operator.move op).expectCount op.arity operands.length)
  match op with
  | .rmoveto => return ⟨← operand? 0 operands, ← operand? 1 operands⟩
  | .hmoveto => return ⟨← operand? 0 operands, 0⟩
  | .vmoveto => return ⟨0, ← operand? 0 operands⟩

theorem expectGroups_eq (op : Operator) {group : Nat} (some : group ≠ 0) (extra count : Nat) :
    expectGroups op group extra count = of (op.expectGroups group extra count) := by
  simp only [expectGroups, Operator.expectGroups]
  by_cases few : count < group + extra
  · simp only [if_pos few]
    rfl
  · have rest : minus? count extra = .some (count - extra) := minus?_of_le (by omega)
    have left : remainder? (count - extra : Nat) group = .some ((count - extra) % group : Nat) :=
      if_neg (Int.natCast_ne_zero.2 some)
    simp only [if_neg few, rest, left, some_bind, Int.natCast_ne_zero]
    split <;> rfl

theorem checkCount_eq (op : PathOp) (count : Nat) :
    checkCount op count = of (op.checkCount count) := by
  cases op with
  | hflex | flex | hflex1 | flex1 => rfl
  | _ => exact expectGroups_eq _ (Nat.succ_ne_zero _) _ _

theorem displacement_eq (op : MoveOp) (operands : List Fixed) :
    displacement op operands = of (op.displacement operands) := by
  cases op <;> rcases operands with _ | ⟨a, _ | ⟨b, _ | ⟨c, operands⟩⟩⟩ <;> rfl

/-! ## Loops -/

/-- What a loop draws that reads `width` operands in each round, from the one numbered `start` on
and as long as the number is below `stop`.  A round gives a segment, and what the next round goes
by; the loop gives the number at which it ends, too. -/
def loop? (width : Nat) (round : σ → List Fixed → Option (Segment × σ)) (operands : List Fixed)
    (state : σ) (start stop : Nat) : Option (List Segment × Nat) :=
  if start < stop ∧ 0 < width then do
    let (segment, state) ← round state (← items? operands start width)
    let (segments, last) ← loop? width round operands state (start + width) stop
    return (segment :: segments, last)
  else
    return ([], start)
termination_by stop - start

/-- What a loop draws that goes on to the last operand. -/
def all? (width : Nat) (round : σ → List Fixed → Option (Segment × σ)) (operands : List Fixed)
    (state : σ) (start : Nat) : Option (List Segment) :=
  (loop? width round operands state start operands.length).map Prod.fst

/-- A line from two operands. -/
def line? (_ : Unit) : List Fixed → Option (Segment × Unit)
  | [dx, dy] => some (.line ⟨dx, dy⟩, ())
  | _ => none

/-- A line along an axis from one operand; the next one goes along the other axis. -/
def axisLine? (horizontal : Bool) : List Fixed → Option (Segment × Bool)
  | [d] => some (.line (Segment.oriented horizontal d 0), !horizontal)
  | _ => none

/-- A curve from six operands. -/
def curve? (_ : Unit) : List Fixed → Option (Segment × Unit)
  | [dx₁, dy₁, dx₂, dy₂, dx₃, dy₃] => some (.curve ⟨dx₁, dy₁⟩ ⟨dx₂, dy₂⟩ ⟨dx₃, dy₃⟩, ())
  | _ => none

/-- A curve from four operands that starts and ends along the same axis. -/
def parallelCurve? (horizontal : Bool) (across : Fixed) : List Fixed → Option (Segment × Fixed)
  | [d₁, dx₂, dy₂, d₃] =>
      some (.curve (Segment.oriented horizontal d₁ across) ⟨dx₂, dy₂⟩
        (Segment.oriented horizontal d₃ 0), 0)
  | _ => none

/-- Curves along an axis, where an odd operand in front is the displacement across it. -/
def axisCurves? (horizontal : Bool) (operands : List Fixed) : Option (List Segment) := do
  if operands.length % 2 = 1 then
    all? 4 (parallelCurve? horizontal) operands (← operand? 0 operands) 1
  else
    all? 4 (parallelCurve? horizontal) operands 0 0

/-- A curve from four operands that ends along the other axis, or `last` away from it. -/
def turningCurve? (horizontal : Bool) (last : Fixed) : List Fixed → Option Segment
  | [d₁, dx₂, dy₂, d₃] =>
      some (.curve (Segment.oriented horizontal d₁ 0) ⟨dx₂, dy₂⟩
        (Segment.oriented (!horizontal) d₃ last))
  | _ => none

/-- The displacement that turns the end of a curve away from its axis: the fifth operand of five
that are left. -/
def turn? (operands : List Fixed) (i : Nat) : Option Fixed := do
  if (← minus? operands.length i) = 5 then operand? (i + 4) operands else return 0

/-- Curves that start along one axis and end along the other, by turns, from the operand numbered
`i` on. -/
def alternatingCurves? (horizontal : Bool) (operands : List Fixed) (i : Nat) :
    Option (List Segment) :=
  if i + 4 ≤ operands.length then do
    let curve ← turningCurve? horizontal (← turn? operands i) (← items? operands i 4)
    return curve :: (← alternatingCurves? (!horizontal) operands (i + 4))
  else
    return []
termination_by operands.length - i

/-- The segments that a path operator draws. -/
def segments? (op : PathOp) (operands : List Fixed) : Option (List Segment) := do
  let count := operands.length
  match op with
  | .rlineto => all? 2 line? operands () 0
  | .hlineto => all? 1 axisLine? operands true 0
  | .vlineto => all? 1 axisLine? operands false 0
  | .rrcurveto => all? 6 curve? operands () 0
  | .rcurveline =>
      let (curves, i) ← loop? 6 curve? operands () 0 (← minus? count 2)
      let (line, _) ← line? () (← items? operands i 2)
      return curves ++ [line]
  | .rlinecurve =>
      let (lines, i) ← loop? 2 line? operands () 0 (← minus? count 6)
      let (curve, _) ← curve? () (← items? operands i 6)
      return lines ++ [curve]
  | .vvcurveto => axisCurves? false operands
  | .hhcurveto => axisCurves? true operands
  | .vhcurveto => alternatingCurves? false operands 0
  | .hvcurveto => alternatingCurves? true operands 0
  | .hflex => return Segment.levelFlex (← items? operands 0 7)
  | .flex => return Segment.curvesAndLine (← items? operands 0 12)
  | .hflex1 => return Segment.levelEndFlex (← items? operands 0 9)
  | .flex1 => return Segment.levelAxisFlex (← items? operands 0 11)

/-! ### Loops that read what there is -/

/-- A group of operands can be read where there are so many. -/
theorem items?_group {operands : List Fixed} {start width : Nat}
    (within : start + width ≤ operands.length) :
    ∃ group, group.length = width ∧ items? operands start width = some group ∧
      operands.drop start = group ++ operands.drop (start + width) := by
  have split : operands.drop start =
      (operands.drop start).take width ++ operands.drop (start + width) := by
    rw [← List.drop_drop, List.take_append_drop]
  have length : ((operands.drop start).take width).length = width := by
    rw [List.length_take, List.length_drop]
    omega
  have before : start = (operands.take start).length := by
    rw [List.length_take]
    omega
  refine ⟨(operands.drop start).take width, length, ?_, split⟩
  have read := items?_append (operands.take start) ((operands.drop start).take width)
    (operands.drop (start + width)) before length.symm
  rwa [List.append_assoc, ← split, List.take_append_drop] at read

/-- A loop reads groups of operands up to the last `after` ones, and draws what a function on lists
draws that takes one group after the other. -/
theorem loop?_eq {width after : Nat} {round : σ → List Fixed → Option (Segment × σ)}
    {plain : σ → List Fixed → List Segment} (positive : 0 < width)
    (step : ∀ state group rest, group.length = width → after ≤ rest.length →
      ∃ segment next, round state group = some (segment, next) ∧
        plain state (group ++ rest) = segment :: plain next rest)
    {operands : List Fixed} (state : σ) {start : Nat} (rounds : Nat)
    (all : start + rounds * width + after = operands.length) :
    ∃ segments next, loop? width round operands state start (start + rounds * width) =
        some (segments, start + rounds * width) ∧
      plain state (operands.drop start) =
        segments ++ plain next (operands.drop (start + rounds * width)) := by
  -- by induction on the rounds, each of which starts one group further on and in a state of its own
  induction rounds generalizing state start with
  | zero =>
      refine ⟨[], state, ?_, by simp⟩
      rw [loop?, if_neg (by omega)]
      simp
  | succ rounds ih =>
      have further : start + width + rounds * width = start + (rounds + 1) * width := by
        rw [Nat.succ_mul]
        omega
      have within : start + width ≤ operands.length := by omega
      rcases items?_group within with ⟨group, length, read, split⟩
      have enough : after ≤ (operands.drop (start + width)).length := by
        rw [List.length_drop]
        omega
      rcases step state group _ length enough with ⟨segment, next, drawn, first⟩
      have left : start + width + rounds * width + after = operands.length := by omega
      rcases ih next left with ⟨segments, final, looped, rest⟩
      rw [further] at looped rest
      refine ⟨segment :: segments, final, ?_, ?_⟩
      · rw [loop?, if_pos ⟨by omega, positive⟩]
        simp [read, drawn, looped]
      · rw [split, first, rest]
        rfl

/-- The operands that a loop leaves over can be read after it. -/
theorem loop?_tail {width after : Nat} {round : σ → List Fixed → Option (Segment × σ)}
    {plain : σ → List Fixed → List Segment} (positive : 0 < width)
    (step : ∀ state group rest, group.length = width → after ≤ rest.length →
      ∃ segment next, round state group = some (segment, next) ∧
        plain state (group ++ rest) = segment :: plain next rest)
    {operands : List Fixed} (state : σ) {start : Nat} (enough : start + after ≤ operands.length)
    (whole : (operands.length - after - start) % width = 0) :
    ∃ segments next i tail, loop? width round operands state start (operands.length - after) =
        some (segments, i) ∧
      items? operands i after = some tail ∧ tail.length = after ∧
      plain state (operands.drop start) = segments ++ plain next tail := by
  have rounds : (operands.length - after - start) / width * width =
      operands.length - after - start := Nat.div_mul_cancel (Nat.dvd_of_mod_eq_zero whole)
  have all : start + (operands.length - after - start) / width * width + after =
      operands.length := by omega
  rcases loop?_eq positive step state _ all with ⟨segments, next, looped, drawn⟩
  have stop : start + (operands.length - after - start) / width * width =
      operands.length - after := by omega
  rw [stop] at looped drawn
  have left : operands.length - (operands.length - after) = after := by omega
  have within : operands.length - after ≤ operands.length := Nat.sub_le ..
  have tail := items?_drop within
  rw [left] at tail
  exact ⟨segments, next, _, _, looped, tail, List.length_drop.trans left, drawn⟩

/-- A loop that leaves no operand over draws what the function on lists draws. -/
theorem all?_eq {width : Nat} {round : σ → List Fixed → Option (Segment × σ)}
    {plain : σ → List Fixed → List Segment} (positive : 0 < width)
    (step : ∀ state group rest, group.length = width →
      ∃ segment next, round state group = some (segment, next) ∧
        plain state (group ++ rest) = segment :: plain next rest)
    (done : ∀ state, plain state [] = []) {operands : List Fixed} (state : σ) {start : Nat}
    (within : start ≤ operands.length) (whole : (operands.length - start) % width = 0) :
    all? width round operands state start = some (plain state (operands.drop start)) := by
  have anyway : ∀ state group rest, group.length = width → 0 ≤ List.length rest →
      ∃ segment next, round state group = some (segment, next) ∧
        plain state (group ++ rest) = segment :: plain next rest :=
    fun state group rest length _ => step state group rest length
  rcases loop?_tail positive anyway state within whole with
    ⟨segments, next, i, tail, looped, _, empty, drawn⟩
  have stop : operands.length - 0 = operands.length := rfl
  rw [all?, ← stop, looped, drawn, List.length_eq_zero_iff.1 empty, done, List.append_nil]
  rfl

theorem lines_step (state : Unit) (group rest : List Fixed)
    (length : group.length = 2) :
    ∃ segment next, line? state group = some (segment, next) ∧
      Segment.lines (group ++ rest) = segment :: Segment.lines rest :=
  match group, length with
  | [_, _], _ => ⟨_, _, rfl, rfl⟩

theorem alternatingLines_step (horizontal : Bool) (group rest : List Fixed)
    (length : group.length = 1) :
    ∃ segment next, axisLine? horizontal group = some (segment, next) ∧
      Segment.alternatingLines horizontal (group ++ rest) =
        segment :: Segment.alternatingLines next rest :=
  match group, length with
  | [_], _ => ⟨_, _, rfl, rfl⟩

theorem curvesAndLine_step (state : Unit) (group rest : List Fixed)
    (length : group.length = 6) :
    ∃ segment next, curve? state group = some (segment, next) ∧
      Segment.curvesAndLine (group ++ rest) = segment :: Segment.curvesAndLine rest :=
  match group, length with
  | [_, _, _, _, _, _], _ => ⟨_, _, rfl, rfl⟩

theorem linesAndCurve_step (state : Unit) (group rest : List Fixed) (length : group.length = 2)
    (enough : 6 ≤ rest.length) :
    ∃ segment next, line? state group = some (segment, next) ∧
      Segment.linesAndCurve (group ++ rest) = segment :: Segment.linesAndCurve rest :=
  match group, length, rest, enough with
  | [_, _], _, _ :: _ :: _ :: _ :: _ :: _ :: _, _ => ⟨_, _, rfl, rfl⟩

theorem parallelCurves_step (horizontal : Bool) (across : Fixed)
    (group rest : List Fixed) (length : group.length = 4) :
    ∃ segment next, parallelCurve? horizontal across group = some (segment, next) ∧
      Segment.parallelCurves horizontal across (group ++ rest) =
        segment :: Segment.parallelCurves horizontal next rest :=
  match group, length with
  | [_, _, _, _], _ => ⟨_, _, rfl, rfl⟩

theorem axisCurves?_eq (horizontal : Bool) {operands : List Fixed}
    (whole : (operands.length - operands.length % 2) % 4 = 0) :
    axisCurves? horizontal operands = some (Segment.axisCurves horizontal operands) := by
  have curves : ∀ across start, start ≤ operands.length → (operands.length - start) % 4 = 0 →
      all? 4 (parallelCurve? horizontal) operands across start =
        some (Segment.parallelCurves horizontal across (operands.drop start)) :=
    fun across _ => all?_eq (by decide) (parallelCurves_step horizontal) (fun _ => rfl) across
  simp only [axisCurves?]
  by_cases odd : operands.length % 2 = 1
  · rw [odd] at whole
    have positive : 0 < operands.length := by omega
    rcases List.length_pos_iff_exists_cons.1 positive with ⟨across, rest, split⟩
    have first : operand? 0 operands = some across := by
      rw [split]
      rfl
    simp only [if_pos odd, first, Option.bind_eq_bind, Option.bind_some, curves _ _ positive whole]
    rw [split] at odd ⊢
    exact congrArg some (if_pos odd).symm
  · have even : operands.length % 2 = 0 := Nat.mod_two_ne_one.1 odd
    rw [even] at whole
    simp only [if_neg odd, curves _ _ (Nat.zero_le _) whole]
    cases operands with
    | nil => rfl
    | cons across rest => exact congrArg some (if_neg odd).symm

/-- The last one of some alternating curves takes the operand that is left over, if there is one. -/
theorem alternatingCurves_step (horizontal : Bool) (group : List Fixed)
    (length : group.length = 4) :
    ∃ curve : Fixed → Segment, (∀ turn, turningCurve? horizontal turn group = some (curve turn)) ∧
      (∀ turn, Segment.alternatingCurves horizontal (group ++ [turn]) = [curve turn]) ∧
      (∀ rest, rest.length ≠ 1 → Segment.alternatingCurves horizontal (group ++ rest) =
        curve 0 :: Segment.alternatingCurves (!horizontal) rest) := by
  match group, length with
  | [_, _, _, _], _ =>
      refine ⟨_, fun _ => rfl, fun _ => rfl, fun rest more => ?_⟩
      match rest, more with
      | [], _ => rfl
      | _ :: _ :: _, _ => rfl

/-- One operand may be left over after groups of four, but no more. -/
theorem alternatingCurves?_eq (horizontal : Bool) {operands : List Fixed} {i : Nat}
    (whole : (operands.length - i) % 4 ≤ 1) :
    alternatingCurves? horizontal operands i =
      some (Segment.alternatingCurves horizontal (operands.drop i)) := by
  fun_induction alternatingCurves? horizontal operands i with
  | case1 horizontal i more ih =>
      rcases items?_group more with ⟨group, four, read, split⟩
      rcases alternatingCurves_step horizontal group four with ⟨curve, drawn, last, other⟩
      have length : (operands.drop (i + 4)).length = operands.length - (i + 4) := List.length_drop
      have left : minus? operands.length i = some (operands.length - i) := minus?_of_le (by omega)
      simp only [read, drawn, ih (by omega), split, turn?, left, Option.bind_eq_bind,
        Option.bind_some]
      by_cases five : operands.length - i = 5
      · -- the fifth operand is the only one that the next round finds, and it draws nothing
        rcases List.length_eq_one_iff.1 (length.trans (by omega)) with ⟨turn, rest⟩
        have fifth : operand? (i + 4) operands = some turn := by
          rw [operand?, ← List.head?_drop, rest]
          rfl
        simp only [if_pos five, fifth, Option.bind_some, rest, last]
        rfl
      · simp only [if_neg five, other _ (by omega : (operands.drop (i + 4)).length ≠ 1)]
        rfl
  | case2 horizontal i few =>
      have short : (operands.drop i).length ≤ 1 := by
        rw [List.length_drop]
        omega
      match operands.drop i, short with
      | [], _ => rfl
      | [_], _ => rfl

/-- After the check on their number, all operands that a path operator reads are there. -/
theorem segments?_eq {op : PathOp} {operands : List Fixed}
    (checked : op.checkCount operands.length = .ok ()) :
    segments? op operands = some (op.segments operands) := by
  have exact {n : Nat} (all : operands.length = n) : items? operands 0 n = some operands := by
    subst all
    exact items?_drop (Nat.zero_le _)
  cases op with
  | rlineto =>
      have whole := (Operator.whole_of_expectGroups checked).2
      exact all?_eq (by decide) lines_step (fun _ => rfl) () (Nat.zero_le _) whole
  | hlineto | vlineto =>
      have whole := (Operator.whole_of_expectGroups checked).2
      exact all?_eq (by decide) alternatingLines_step (fun _ => rfl) _ (Nat.zero_le _) whole
  | rrcurveto =>
      have whole := (Operator.whole_of_expectGroups checked).2
      exact all?_eq (by decide) curvesAndLine_step (fun _ => rfl) () (Nat.zero_le _) whole
  | rcurveline =>
      rcases Operator.whole_of_expectGroups checked with ⟨enough, whole⟩
      have after : 0 + 2 ≤ operands.length := by omega
      have stop : minus? operands.length 2 = some (operands.length - 2) := minus?_of_le (by omega)
      rcases loop?_tail (by decide) (fun state group rest length _ =>
        curvesAndLine_step state group rest length) () after whole with
        ⟨curves, _, i, tail, looped, read, two, drawn⟩
      match tail, two with
      | [_, _], _ =>
          simp only [segments?, stop, looped, read, Option.bind_eq_bind, Option.bind_some]
          exact congrArg some drawn.symm
  | rlinecurve =>
      rcases Operator.whole_of_expectGroups checked with ⟨enough, whole⟩
      have after : 0 + 6 ≤ operands.length := by omega
      have stop : minus? operands.length 6 = some (operands.length - 6) := minus?_of_le (by omega)
      rcases loop?_tail (by decide) linesAndCurve_step () after whole with
        ⟨lines, _, i, tail, looped, read, six, drawn⟩
      match tail, six with
      | [_, _, _, _, _, _], _ =>
          simp only [segments?, stop, looped, read, Option.bind_eq_bind, Option.bind_some]
          exact congrArg some drawn.symm
  | vvcurveto | hhcurveto => exact axisCurves?_eq _ (Operator.whole_of_expectGroups checked).2
  | vhcurveto | hvcurveto =>
      have whole := (Operator.whole_of_expectGroups checked).2
      exact alternatingCurves?_eq _ (by omega)
  | hflex | hflex1 | flex1 =>
      simp only [segments?, exact (Operator.eq_of_expectCount checked)]
      rfl
  | flex =>
      match operands, Operator.eq_of_expectCount checked with
      | [_, _, _, _, _, _, _, _, _, _, _, _, _], _ => rfl

end Strict

end Type2Glyphs
