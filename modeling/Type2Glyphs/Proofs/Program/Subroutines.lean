import Type2Glyphs.Proofs.Program.Inlining
import Type2Glyphs.Proofs.Program.Numbers

/-!
# Subroutines — a call reaches the subroutine that its operand stands for

Subroutines are called by a number from which the bias of their INDEX is taken, so that more of them
have short numbers.  The bias is added in 32 bits, but this cuts nothing off that an INDEX could
have.

* `subroutine_eq` says which subroutine an operand stands for, in integers without bounds;
* `call_apply` says what a call does with it;
* `exists_operand` gives every subroutine a number of 16 bits;
* `execute_reaches` has both for the operators that call subroutines.
-/

namespace Type2Glyphs

open Outcome

/-- The number with what is above or below 32 bits cut off. -/
def saturated (number : Int) : Int :=
  max (-2147483648) (min number 2147483647)

namespace Eval

/-! ## Numbers of subroutines -/

section Numbers

variable {subrs : Index}

/-- The bias is not negative, so the sum can only be too large. -/
theorem subroutineNumber_eq (subrs : Index) (operand : Int32) :
    subroutineNumber subrs operand = saturated (operand.toInt + subrs.bias) := by
  have least := operand.le_toInt
  simp only [subroutineNumber, saturated]
  omega

/-- An operand stands for the subroutine whose number it is with the bias added, or for none. -/
theorem subroutine_eq (small : subrs.count < 65536) (operand : Int32) :
    subroutine subrs operand =
      let number := operand.toInt + subrs.bias
      if 0 ≤ number ∧ number < subrs.count then
        (subrs.get number.toNat).mapError .fontData
      else
        .error (.charstring (.invalidSubroutine (saturated number))) := by
  have least := operand.le_toInt
  simp only [subroutine, subroutineNumber_eq]
  -- a number that is cut off is too large for an INDEX before and after that
  by_cases inside : 0 ≤ operand.toInt + subrs.bias ∧ operand.toInt + subrs.bias < subrs.count
  · have exact : saturated (operand.toInt + subrs.bias) = operand.toInt + subrs.bias := by
      simp only [saturated]
      omega
    rw [exact, if_pos inside, if_neg (by omega)]
  · have outside : saturated (operand.toInt + subrs.bias) < 0 ∨
        (subrs.count : Int) ≤ saturated (operand.toInt + subrs.bias) := by
      simp only [saturated]
      omega
    rw [if_neg inside, if_pos outside]

/-- Every subroutine has a number of 16 bits.  The last ones before the bias changes take the
greatest: with 33899 subroutines it is 32767. -/
theorem exists_operand (small : subrs.count < 65536) {k : Nat} (inside : k < subrs.count) :
    ∃ value : Int, -32768 ≤ value ∧ value ≤ 32767 ∧ value + subrs.bias = k := by
  refine ⟨k - subrs.bias, ?_, ?_, by omega⟩
  all_goals
    simp only [Index.bias]
    split_ifs <;> omega

end Numbers

/-! ## Calls -/

section Calls

variable {font : Font} {limit : Nat} {nested : Option Evaluator} {frame : Frame} {subrs : Index}
  {operand : Operand} {entries : List Operand} {s : Session}

/-- A call pops its operand, looks for the subroutine, and evaluates it if there is a level left. -/
theorem call_apply (top : s.machine.stack = ⟨operand :: entries⟩) :
    let popped := s.mapMachine fun machine => { machine with stack := ⟨entries⟩ }
    call subrs limit nested frame s =
      match subroutine subrs operand.toInt, nested with
      | .error e, _ => .error e popped
      | .ok _, none => .error (.nestingTooDeep limit) popped
      | .ok body, some evaluate =>
          (evaluate { frame with depth := frame.depth + 1 } body >>= fun ending =>
            pure (Flow.ofCall ending.endsGlyph)) popped := by
  intro popped
  have taken : OperandStack.popInt s.machine.stack = .ok (operand.toInt, ⟨entries⟩) := by
    rw [top]
    rfl
  refine (bind_ok (popOperand_of_ok taken) _).trans ?_
  cases subroutine subrs operand.toInt with
  | error e => rfl
  | ok body =>
      refine (bind_ok (lift_eq_ok.2 ⟨rfl, rfl⟩) _).trans ?_
      cases nested <;> rfl

/-- A program of a number and a call pushes the number, pops it again, evaluates the subroutine and
goes on behind the call as that ends. -/
theorem evaluate_numberedCall {op : Operator} {levels : Nat} {number rest body : Bytes}
    {inner : Evaluator} (calls : op.subroutines? font frame.subfont = some subrs)
    (found : subroutine subrs operand.toInt = .ok body)
    (reads : Token.next? (number ++ (op.encoding ++ rest)) =
      some (.ok (.operand operand, op.encoding ++ rest)))
    (room : s.machine.stack.size < maxOperands) (deeper : below font limit levels = some inner) :
    evaluate font limit levels frame (number ++ (op.encoding ++ rest)) s =
      (inner { frame with depth := frame.depth + 1 } body >>= fun ending =>
        follow (execute font limit (below font limit levels) frame) frame.depth rest
          (.ofCall ending.endsGlyph))
        (s.record (.operator frame.depth op ⟨operand :: s.machine.stack.entries⟩)) := by
  rcases encoding_of_calls calls with ⟨code, encoding, read⟩
  -- the operand is pushed and popped again, which leaves the stack as it was
  have called : execute font limit (below font limit levels) frame op rest
      ((pushAll [operand] s).record
        (.operator frame.depth op (pushAll [operand] s).machine.stack)) =
        (inner { frame with depth := frame.depth + 1 } body >>= fun ending =>
          pure (Flow.ofCall ending.endsGlyph))
          (s.record (.operator frame.depth op ⟨operand :: s.machine.stack.entries⟩)) := by
    rw [execute_of_calls calls, call_apply rfl, found, deeper]
    rfl
  rw [evaluate_eq]
  refine (evaluateAfter_next? reads room).trans ?_
  rw [encoding]
  refine (evaluateAfter_operator (read rest) _).trans ?_
  rw [List.drop_zero, bind_apply, called, ← bind_apply, bind_assoc]
  simp only [pure_bind]

end Calls

/-! ## Both operators -/

/-- An operator that calls a subroutine adds the bias of the INDEX to the operand on top of the
stack.  If that is the number of a subroutine and this can be read and nested, its body is evaluated
one level down with the operand popped; if there is no such subroutine, nothing is done but to pop
the operand.  An INDEX has no more than 65535 subroutines, and each of them is reached by a number
of 16 bits, which can be written in front of the operator. -/
theorem execute_reaches {font : Font} {limit : Nat} {frame : Frame} {op : Operator} {subrs : Index}
    (calls : op.subroutines? font frame.subfont = some subrs) (small : subrs.count < 65536) :
    let levels := limit - frame.depth
    let inner : Frame := { frame with depth := frame.depth + 1 }
    (∀ (s : Session) (operand : Operand) (entries : List Operand) (unread : Bytes),
      s.machine.stack = ⟨operand :: entries⟩ →
      let number := operand.toInt.toInt + subrs.bias
      let popped := s.mapMachine fun machine => { machine with stack := ⟨entries⟩ }
      let outcome := execute font limit (below font limit levels) frame op unread s
      (0 ≤ number ∧ number < subrs.count →
        (∀ fault, subrs.get number.toNat = .error fault →
          outcome = .error (.fontData fault) popped) ∧
        ∀ body, subrs.get number.toNat = .ok body →
          (limit ≤ frame.depth → outcome = .error (.nestingTooDeep limit) popped) ∧
          (frame.depth < limit → outcome =
            (evaluate font limit (limit - inner.depth) inner body >>= fun ending =>
              pure (.ofCall ending.endsGlyph)) popped)) ∧
      (¬ (0 ≤ number ∧ number < subrs.count) →
        outcome = .error (.charstring (.invalidSubroutine (saturated number))) popped)) ∧
    ∀ k, k < subrs.count → ∃ value : Int, -32768 ≤ value ∧ value ≤ 32767 ∧
      value + subrs.bias = k ∧ ∃ bytes, Token.encodeInt value = .ok bytes ∧
        ∀ (s : Session) (rest body : Bytes), s.machine.stack.size < maxOperands →
          frame.depth < limit → subrs.get k = .ok body →
            evaluate font limit levels frame (bytes ++ (op.encoding ++ rest)) s =
              (evaluate font limit (limit - inner.depth) inner body >>= fun ending =>
                follow (execute font limit (below font limit levels) frame) frame.depth rest
                  (.ofCall ending.endsGlyph))
                (s.record (.operator frame.depth op
                  ⟨.int (.ofInt value) :: s.machine.stack.entries⟩)) := by
  intro levels inner
  have deeper (free : frame.depth < limit) :
      below font limit levels = some (evaluate font limit (limit - inner.depth)) := by
    have more : limit - frame.depth = limit - (frame.depth + 1) + 1 := by omega
    show below font limit (limit - frame.depth) = _
    rw [more]
    rfl
  refine ⟨?_, ?_⟩
  · intro s operand entries unread top number popped outcome
    have called : outcome = _ := (congrFun (execute_of_calls calls unread) s).trans (call_apply top)
    rw [subroutine_eq small] at called
    refine ⟨?_, ?_⟩
    · intro inside
      dsimp only at called
      rw [if_pos inside] at called
      refine ⟨?_, ?_⟩
      · intro fault unreadable
        rw [called, unreadable]
        rfl
      · intro body object
        rw [object] at called
        refine ⟨fun full => ?_, fun free => ?_⟩
        · have bottom : levels = 0 := Nat.sub_eq_zero_of_le full
          rw [called, bottom]
          rfl
        · rw [called, deeper free]
          rfl
    · intro outside
      dsimp only at called
      rw [if_neg outside] at called
      exact called
  · intro k inside
    obtain ⟨value, least, most, biased⟩ := exists_operand small inside
    obtain ⟨bytes, written, -, read⟩ := Token.exists_encodeInt least most
    refine ⟨value, least, most, biased, bytes, written, ?_⟩
    intro s rest body room free object
    have value' : (Int32.ofInt value).toInt = value :=
      Int32.toInt_ofInt_of_le (by omega) (by omega)
    have found : subroutine subrs (Operand.int (.ofInt value)).toInt = .ok body :=
      subroutine_of_biased small object (by rw [Operand.toInt, value']; omega)
    exact evaluate_numberedCall calls found (read _) room (deeper free)

/-- One subroutine of `stemFont` is called as -107; 2147483647 is no number of a subroutine, also
with the bias added.  In an INDEX of 33899 subroutines the last one is called as 32767. -/
theorem execute_reaches_bounds :
    let frame : Frame := ⟨{}, false, 0⟩
    let s (operand : Operand) : Session := { machine := { stack := ⟨[operand]⟩ } }
    execute stemFont 1 (below stemFont 1 1) frame .callgsubr [] (s (.fixed (.ofInt (-107)))) =
      (evaluate stemFont 1 0 ⟨{}, false, 1⟩ [139, 149, 18, 11, 14] >>= fun ending =>
        pure (.ofCall ending.endsGlyph)) {} ∧
    execute stemFont 1 (below stemFont 1 1) frame .callgsubr [] (s (.int 2147483647)) =
      .error (.charstring (.invalidSubroutine 2147483647)) {} ∧
    execute stemFont 0 (below stemFont 0 0) frame .callgsubr [] (s (.int (-107))) =
      .error (.nestingTooDeep 0) {} ∧
    ∃ value : Int, value + (Index.mk 33899 1 [] []).bias = 33898 ∧
      Token.encodeInt value = .ok [28, 127, 255] := by
  intro frame s
  have calls : Operator.callgsubr.subroutines? stemFont frame.subfont = some stemFont.globalSubrs :=
    rfl
  obtain ⟨one, -⟩ := @execute_reaches stemFont 1 frame _ _ calls (by decide)
  obtain ⟨none, -⟩ := @execute_reaches stemFont 0 frame _ _ calls (by decide)
  obtain ⟨-, all⟩ := @execute_reaches stemFont 1
    ⟨{ localSubrs := some ⟨33899, 1, [], []⟩ }, false, 0⟩ .callsubr _ rfl (by decide)
  have body {operand : Operand} (first : operand.toInt.toInt + stemFont.globalSubrs.bias = 0) :
      stemFont.globalSubrs.get (operand.toInt.toInt + stemFont.globalSubrs.bias).toNat =
        .ok [139, 149, 18, 11, 14] := by
    rw [first]
    rfl
  refine ⟨?_, ?_, ?_, ?_⟩
  · have called := ((one (s (.fixed (.ofInt (-107)))) _ [] [] rfl).1 (by decide)).2 _
      (body (by decide))
    exact called.2 (by decide)
  · exact (one (s (.int 2147483647)) _ [] [] rfl).2 (by decide)
  · have called := ((none (s (.int (-107))) _ [] [] rfl).1 (by decide)).2 _ (body (by decide))
    exact called.1 (by decide)
  · obtain ⟨value, -, -, biased, bytes, written, -⟩ := all 33898 (by decide)
    have greatest : value = 32767 := by
      have bias : (Index.mk 33899 1 [] []).bias = 1131 := rfl
      omega
    subst greatest
    exact ⟨32767, rfl, by decide⟩

end Eval

end Type2Glyphs
