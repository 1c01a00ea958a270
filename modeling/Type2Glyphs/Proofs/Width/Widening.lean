import Type2Glyphs.Proofs.Law.Pair
import Type2Glyphs.Proofs.Width.Waiting

/-!
# Widening — programs with a width in front

A program does the same with a width at the bottom of the stack, but that it finds this width where
it found none before.

* `Session.Unsettled.takeOperands` is about the operator that looks for the width: without it there
  are as many operands as the operator takes, or it fails;
* `Widening.pairLaw` puts the operators together, and `Eval.evaluate_widened` says so for all
  programs.
-/

namespace Type2Glyphs

open Outcome Session

/-- Sessions in which no width was looked for.  The second one has one below its operands. -/
abbrev Session.Unsettled (width : Operand) : Session → Session → Prop :=
  Remade (Machine.above [width]) fun machine _ => machine.Unsettled

/-! ## The operator that looks for the width -/

namespace Session.Unsettled

variable {width : Operand} {α : Type} {s s' : Session}

/-- If no width is found above the other one, that one is found, unless what follows fails. -/
theorem takeOperands {extra : Nat → Bool} {k : List Fixed → Eval α}
    (related : Unsettled width s s') (missed : extra s.machine.stack.size = false)
    (takes : ∀ operands t a u, k operands t = .ok a u → extra operands.length = false →
      extra (operands.length + 1) = true)
    (next : ∀ operands ⦃t t'⦄, Settled [width] width.toFixed t t' →
      Widens width (k operands t) (k operands t')) :
    Widens width ((Eval.takeOperands extra >>= k) s) ((Eval.takeOperands extra >>= k) s') := by
  intro a u run
  -- the first run finds no width, and what follows has to do with all its operands
  have seen : Eval.takeOperands extra s = .ok s.machine.stack.operands
      (s.mapMachine fun machine => { machine with widthSeen := true }) := by
    simp only [Eval.takeOperands_apply, related.holds.unseen, missed, Bool.false_eq_true, if_false]
  rw [bind_ok seen] at run
  have found : extra (s.machine.stack.size + 1) = true := by
    rw [← OperandStack.length_operands] at missed ⊢
    exact takes _ _ _ _ run missed
  -- so with the width below them the second run finds that, and is left with the same operands
  have unseen' : s'.machine.widthSeen = false := by
    rw [related.machine]
    exact related.holds.unseen
  have operands' : s'.machine.stack.operands = width.toFixed :: s.machine.stack.operands := by
    rw [related.machine]
    exact OperandStack.operands_above [width] s.machine.stack
  have size' : s'.machine.stack.size = s.machine.stack.size + 1 := by
    rw [related.machine]
    exact OperandStack.size_above [width] s.machine.stack
  have seen' : Eval.takeOperands extra s' = .ok s.machine.stack.operands
      (s'.mapMachine fun machine =>
        { machine with widthSeen := true, width := some width.toFixed }) := by
    simp only [Eval.takeOperands_apply, unseen', size', found, operands', Bool.false_eq_true,
      if_false, if_true, List.tail_cons, List.head?_cons]
  rw [bind_ok seen']
  have settled : Settled [width] width.toFixed
      (s.mapMachine fun machine => { machine with widthSeen := true })
      (s'.mapMachine fun machine =>
        { machine with widthSeen := true, width := some width.toFixed }) :=
    Remade.mapMachine related rfl ⟨rfl, related.holds.absent⟩
  exact next _ settled a u run

/-- Stems come in pairs, so one operand more is the width. -/
theorem takeStems {op : Operator} {k : List Fixed → Eval α} (related : Unsettled width s s')
    (missed : decide (s.machine.stack.size % 2 = 1) = false)
    (next : ∀ operands ⦃t t'⦄, Settled [width] width.toFixed t t' →
      Widens width (k operands t) (k operands t')) :
    Widens width ((Eval.takeStems op >>= k) s) ((Eval.takeStems op >>= k) s') := by
  simp only [Eval.takeStems, bind_assoc]
  refine related.takeOperands missed ?_ ?_
  · intro operands _ _ _ _ even
    simp only [decide_eq_false_iff_not] at even
    exact decide_eq_true (by omega)
  · intro operands t t' settled
    by_cases odd : operands.length % 2 = 1
    · simp only [if_pos odd]
      rintro a u failed
      cases failed
    · simp only [if_neg odd]
      exact next operands settled

end Session.Unsettled

/-! ## What it does with its operands -/

namespace Session.Settled

variable {below : List Operand} {width : Operand} {s s' : Session}

theorem clearStack (related : Settled below width.toFixed s s') :
    Widens width (Eval.clearStack s) (Eval.clearStack s') :=
  .of_agree (.ok (.inr related.clear))

theorem readMask (related : Settled below width.toFixed s s') (op : MaskOp) (unread : Bytes) :
    Widens width (Eval.readMask op unread s) (Eval.readMask op unread s') := by
  have stemCount : Simulates (fun _ => True) (Settled below width.toFixed)
      (Eval.gets fun s => s.machine.stemCount) (Eval.gets fun s => s.machine.stemCount) :=
    Remade.gets (fun machine => machine.stemCount) fun _ => rfl
  refine .simulates_bind stemCount related fun count t t' related => ?_
  cases unread.split? ((count + 7) / 8) with
  | none =>
      rintro a u failed
      cases failed
  | some bits =>
      refine .simulates_bind (Remade.callHook _) related fun _ t t' related => ?_
      exact (Settled.clearStack related).andReturn fun _ => _

end Session.Settled

namespace Session.Unsettled

variable {width : Operand} {s s' : Session}

theorem stem (related : Unsettled width s s') (op : StemOp)
    (missed : (Operator.stem op).findsWidth s.machine.stack.size = false) :
    Widens width (Eval.stem op s) (Eval.stem op s') := by
  refine related.takeStems missed fun operands t t' settled => ?_
  refine .simulates_bind (Settled.declareStems _ _) settled fun _ t t' settled => ?_
  exact settled.clearStack

theorem mask (related : Unsettled width s s') (op : MaskOp) (unread : Bytes)
    (missed : (Operator.mask op).findsWidth s.machine.stack.size = false) :
    Widens width (Eval.mask op unread s) (Eval.mask op unread s') := by
  refine related.takeStems missed fun operands t t' settled => ?_
  by_cases some : operands ≠ []
  · simp only [if_pos some]
    refine .simulates_bind (Settled.declareStems _ _) settled fun _ t t' settled => ?_
    exact settled.readMask op unread
  · simp only [if_neg some]
    exact settled.readMask op unread

theorem move (related : Unsettled width s s') (op : MoveOp)
    (missed : (Operator.move op).findsWidth s.machine.stack.size = false) :
    Widens width (Eval.move op s) (Eval.move op s') := by
  refine related.takeOperands missed ?_ fun operands t t' settled => ?_
  · intro operands t a u run _
    rcases bind_eq_ok.1 run with ⟨d, _, lifted, _⟩
    have moves := MoveOp.length_of_displacement (lift_eq_ok.1 lifted).1
    exact decide_eq_true (by omega)
  · refine .simulates_bind (.lift _) settled fun d t t' settled => ?_
    refine .simulates_bind (Settled.moveBy d) settled fun _ t t' settled => ?_
    exact settled.clearStack

theorem endchar {font : Font} {limit levels : Nat} {frame : Frame}
    (related : Unsettled width s s')
    (missed : Operator.endchar.findsWidth s.machine.stack.size = false) :
    Widens width (Eval.endchar font limit (Eval.below font limit levels) frame s)
      (Eval.endchar font limit (Eval.below font limit levels) frame s') := by
  refine related.takeOperands missed ?_ fun operands t t' settled => ?_
  · intro operands t a u run _
    rcases bind_eq_ok.1 run with ⟨_, _, _, run⟩
    -- an accented glyph has four operands, and any other one has none
    by_cases four : operands.length = 4
    · exact decide_eq_true (.inr (by omega))
    · by_cases none : operands = []
      · subst none
        rfl
      · simp only [if_neg four, ne_eq, none, not_false_eq_true, if_true] at run
        cases run
  · refine .simulates_bind Settled.closeContour settled fun _ t t' settled => ?_
    by_cases four : operands.length = 4
    · simp only [if_pos four]
      refine .simulates_bind (Settled.popAccent 0) settled fun accent t t' settled => ?_
      refine .simulates_bind (Settled.compose font limit levels frame accent) settled
        fun _ t t' settled => ?_
      exact settled.clearStack
    · by_cases none : operands = []
      · simp only [none, ne_eq, not_true_eq_false, if_false]
        exact settled.clearStack
      · simp only [if_neg four, none, ne_eq, not_false_eq_true, if_true]
        rintro a u failed
        cases failed

end Session.Unsettled

/-! ## Operators before the width is looked for -/

namespace Session.Waiting

variable {width : Operand} {α : Type} {s s' : Session} {depth : Nat} {op : Operator} {p q : Eval α}

theorem unsettled (related : Waiting width s s') (entry entry' : TraceEntry) :
    Unsettled width (s.record entry) (s'.record entry') :=
  Remade.record related entry entry' related.holds.toUnsettled

/-- An operator that does not decide. -/
theorem undecided (related : Waiting width s s') (keeps : op.emptiesStack = false)
    (step : ∀ {t t'}, Waiting width t t' → Widens width (p t) (q t')) :
    Widens width (Eval.traced depth op p s) (Eval.traced depth op q s') :=
  step (related.record keeps depth)

/-- An operator that decides, unless it looks for a width in vain. -/
theorem decided (related : Waiting width s s') (grows : Effects Grows Grows p)
    (empties : op.emptiesStack = true)
    (finds : (TraceEntry.operator depth op s.machine.stack).missesWidth = false) :
    Widens width (Eval.traced depth op p s) (Eval.traced depth op q s') := by
  have decides : (TraceEntry.operator depth op s.machine.stack).awaitsWidth = false := by
    simp only [TraceEntry.awaitsWidth, empties, Bool.not_true, Bool.false_and]
  have decided := decided_record related.holds.awaits decides finds
  exact .of_exempt (.decided (decided.grows (Grows.final grows _)))

/-- An operator that looks for a width, of which only a search in vain counts. -/
theorem looks (related : Waiting width s s') (grows : Effects Grows Grows p)
    (looks : op.looksForWidth = true)
    (missed : op.findsWidth s.machine.stack.size = false →
      Widens width (p (s.record (.operator depth op s.machine.stack)))
        (q (s'.record (.operator depth op s'.machine.stack)))) :
    Widens width (Eval.traced depth op p s) (Eval.traced depth op q s') := by
  cases finds : op.findsWidth s.machine.stack.size with
  | false => exact missed finds
  | true =>
      refine related.decided grows (Operator.emptiesStack_of_looksForWidth looks) ?_
      simp only [TraceEntry.missesWidth, finds, Bool.not_true, Bool.and_false]

theorem execute {font : Font} {limit : Nat} {nested : Option Evaluator} {frame : Frame}
    (related : Waiting width s s') (alone : op.nests = false) (unread : Bytes) :
    Widens width
      (Eval.traced frame.depth op (Eval.execute font limit nested frame op unread) s)
      (Eval.traced frame.depth op (Eval.execute font limit nested frame op unread) s') := by
  have grows : Effects Grows Grows (Eval.execute font limit nested frame op unread) :=
    Grows.operatorLaw.execute alone unread
  cases op with
  | stem op =>
      refine related.looks grows rfl fun missed => ?_
      exact ((related.unsettled _ _).stem op missed).andReturn fun _ => _
  | mask op =>
      refine related.looks grows rfl fun missed => ?_
      exact ((related.unsettled _ _).mask op unread missed).andReturn fun _ => _
  | move op =>
      refine related.looks grows rfl fun missed => ?_
      exact ((related.unsettled _ _).move op missed).andReturn fun _ => _
  | path | dotsection => exact related.decided grows rfl rfl
  | stack op =>
      refine related.undecided rfl fun related => ?_
      exact (related.changeStack (f := op.apply) fun _ => op.apply_above).andReturn fun _ => _
  | ret => exact related.undecided rfl fun related => .of_waiting (.pure _) related
  | put =>
      refine related.undecided rfl fun related => ?_
      exact (Widens.of_waiting put related).andReturn fun _ => _
  | get => exact related.undecided rfl fun related => related.fetch.andReturn fun _ => _
  | random => exact related.undecided rfl fun related => related.random.andReturn fun _ => _
  | _ => cases alone

end Session.Waiting

/-! ## Programs -/

/-- The second program does what the first one does, with a width at the bottom of the stack.  A
session that is exempt stays so. -/
structure Widening (width : Operand) {α : Type} (p q : Eval α) : Prop where
  exempt : ∀ {s : Session}, s.Exempt → ∀ {a t}, p s = .ok a t → t.Exempt
  widens : ∀ {s s'}, Widened width s s' → Widens width (p s) (q s')

namespace Widening

variable {width : Operand} {α β : Type} {p q : Eval α} {k l : α → Eval β} {depth : Nat}
  {op : Operator}

theorem pure (a : α) : Widening width (Pure.pure a) (Pure.pure a) where
  exempt := by
    rintro s exempt _ _ ⟨⟩
    exact exempt
  widens := by
    rintro s s' related _ _ ⟨⟩
    exact .inr ⟨s', rfl, related⟩

theorem throw (e : LoadError) : Widening width (throw e : Eval α) (MonadExcept.throw e) where
  exempt := by
    rintro s _ _ _ ⟨⟩
  widens := by
    rintro s s' _ _ _ ⟨⟩

theorem bind (first : Widening width p q) (next : ∀ a, Widening width (k a) (l a)) :
    Widening width (p >>= k) (q >>= l) where
  exempt := by
    intro s exempt b u run
    rcases bind_eq_ok.1 run with ⟨a, t, ran, after⟩
    exact (next a).exempt (first.exempt exempt ran) after
  widens := by
    intro s s' related b u run
    rcases bind_eq_ok.1 run with ⟨a, t, ran, after⟩
    rcases first.widens related a t ran with exempt | ⟨t', ran', related⟩
    · exact .inl ((next a).exempt exempt after)
    · rw [bind_ok ran']
      exact (next a).widens related b u after

/-- A number is pushed if there is room for it. -/
theorem push (value : Operand) :
    Widening width (Eval.changeStack (OperandStack.push value))
      (Eval.changeStack (OperandStack.push value)) where
  exempt := by
    intro s exempt a t pushed
    rcases changeStack_eq_ok.1 pushed with ⟨stack, room, rfl⟩
    cases exempt with
    | decided h => exact .decided h
    | full _ full => exact absurd (OperandStack.push_eq_ok_iff.1 room).1 (Nat.not_lt.2 full)
  widens := by
    rintro s s' (waiting | settled)
    · exact waiting.push value
    · exact .of_settled ((Settled.operatorLaw _ _).changeStack _) settled

/-- An operator of which only the two sides of the search are to be shown. -/
theorem traced (grows : Effects Grows Grows p)
    (waiting : ∀ {s s'}, Waiting width s s' →
      Widens width (Eval.traced depth op p s) (Eval.traced depth op q s'))
    (settled : Simulates (fun _ => True) (Settled [] width.toFixed) p q) :
    Widening width (Eval.traced depth op p) (Eval.traced depth op q) where
  exempt := by
    intro s exempt a t ran
    have decided := (exempt.record depth op).grows (Grows.final grows _)
    have ran : p (s.record (.operator depth op s.machine.stack)) = .ok a t := ran
    rw [ran] at decided
    exact .decided decided
  widens := by
    rintro s s' (related | related)
    · exact waiting related
    · simp only [Eval.traced_apply]
      exact .of_settled settled (Remade.record related _ _ related.holds)

variable {font : Font} {limit levels : Nat} {frame : Frame}

theorem pairLaw (width : Operand) (font : Font) (limit : Nat) :
    PairLaw font font limit (fun levels frame => frame.depth + levels = limit)
      fun {_} _ p q => Widening width p q where
  globalSubrs := rfl
  deeper := by
    intro levels frame deep
    simp only at deep ⊢
    omega
  pure := pure
  throw := throw
  bind first next _ := first.bind next
  push := push
  missing depth e := by
    refine traced (Grows.operatorLaw.throw e) ?_ (.throw e)
    rintro s s' _ a t ⟨⟩
  popped depth op calls := by
    refine traced (Grows.operatorLaw.popOperand _) (fun related => ?_)
      ((Settled.operatorLaw _ _).popOperand _)
    have keeps : op.emptiesStack = false := by rcases calls with rfl | rfl <;> rfl
    exact related.undecided keeps fun related => .of_waiting Waiting.popInt related
  alone {_ frame nested nested' op} nests _ unread := by
    have same : Eval.execute font limit nested' frame op unread =
        Eval.execute font limit nested frame op unread := Eval.execute_of_alone nests unread
    rw [same]
    exact traced (Grows.operatorLaw.execute nests unread) (fun related =>
      related.execute nests unread) ((Settled.operatorLaw _ _).execute nests unread)
  endchar {levels frame} deep _ := by
    have grows := (Grows.programLaw font limit).endchar deep (Grows.below deep)
    have settled := (Settled.closingLaw width.toFixed (fun _ => True)).endchar
      fun accent => Settled.compose font limit levels frame accent
    refine traced grows (fun related => ?_) settled
    exact related.looks grows rfl fun missed => (related.unsettled _ _).endchar missed
  seac {levels frame} deep _ := by
    have grows := (Grows.programLaw font limit).seac deep (Grows.below deep)
    have settled := (Settled.closingLaw width.toFixed (fun _ => True)).seac
      fun accent => Settled.compose font limit levels frame accent
    exact traced grows (fun related => related.decided grows rfl rfl) settled

end Widening

/-- Every program does the same with a width at the bottom of the stack. -/
theorem Eval.evaluate_widened {width : Operand} {font : Font} {limit levels : Nat} {frame : Frame}
    (deep : frame.depth + levels = limit) (program : Bytes) :
    Widening width (evaluate font limit levels frame program)
      (evaluate font limit levels frame program) :=
  (Widening.pairLaw width font limit).evaluate deep program

end Type2Glyphs
