import Type2Glyphs.Proofs.Program.Locality

/-!
# Run — what a program has consumed when it is left

A program is left in one of three ways: at its end, by its own return operator, or by an operator
that ended the glyph.  `Eval.Run` describes a program's run together with the bytes that it has
consumed until then.  The return operator itself is not among them, as leaving is all it does.

* `Run.of_evaluateAfter`: every evaluation that succeeds is such a run;
* `Run.front_append`: what has been consumed is the front of the program;
* `Run.unique`: there is no other way to leave it;
* `Run.replayed`: what has been consumed comes to the same before other bytes;
* `evaluate_empties`: a program that has ended the glyph leaves no operands.
-/

namespace Type2Glyphs

namespace Eval

open Outcome

/-- From the session `s` the program consumes the bytes `front` and is left in the session `t`, with
the glyph ended or not. -/
inductive Run (execute : Operator → Bytes → Eval Flow) (depth : Nat) :
    (program : Bytes) → (s : Session) → (front : Bytes) → (endsGlyph : Bool) → (t : Session) → Prop
  | exhausted {s : Session} : Run execute depth [] s [] false s
  | returned {code : UInt8} {rest : Bytes} {used : Nat} {s : Session}
      (read : Token.read code rest = .ok (.operator .ret, used)) :
      Run execute depth (code :: rest) s [] false
        (s.record (.operator depth .ret s.machine.stack))
  | ended {code : UInt8} {rest : Bytes} {op : Operator} {used : Nat} {s t : Session}
      (read : Token.read code rest = .ok (.operator op, used))
      (executed : execute op (rest.drop used)
        (s.record (.operator depth op s.machine.stack)) = .ok (.stop true) t) :
      Run execute depth (code :: rest) s (code :: rest.take used) true t
  | operand {code : UInt8} {rest front : Bytes} {value : Operand} {used : Nat} {endsGlyph : Bool}
      {s s₁ t : Session}
      (read : Token.read code rest = .ok (.operand value, used))
      (pushed : changeStack (OperandStack.push value) s = .ok () s₁)
      (later : Run execute depth (rest.drop used) s₁ front endsGlyph t) :
      Run execute depth (code :: rest) s (code :: rest.take used ++ front) endsGlyph t
  | operator {code : UInt8} {rest front : Bytes} {op : Operator} {used skip : Nat}
      {endsGlyph : Bool} {s s₁ t : Session}
      (read : Token.read code rest = .ok (.operator op, used))
      (executed : execute op (rest.drop used)
        (s.record (.operator depth op s.machine.stack)) = .ok (.proceed skip) s₁)
      (later : Run execute depth (rest.drop (used + skip)) s₁ front endsGlyph t) :
      Run execute depth (code :: rest) s (code :: rest.take (used + skip) ++ front) endsGlyph t

namespace Run

variable {execute : Operator → Bytes → Eval Flow} {depth : Nat} {program front : Bytes}
  {endsGlyph : Bool} {s t : Session}

theorem front_append (run : Run execute depth program s front endsGlyph t) :
    ∃ later, program = front ++ later := by
  induction run with
  | exhausted => exact ⟨[], rfl⟩
  | returned _ => exact ⟨_, rfl⟩
  | @ended code rest op used s t _ _ =>
      refine ⟨rest.drop used, ?_⟩
      simp only [List.cons_append, List.take_append_drop]
  | @operand code rest front value used _ _ _ _ _ _ _ ih =>
      rcases ih with ⟨later, same⟩
      refine ⟨later, ?_⟩
      rw [List.append_assoc, ← same, List.cons_append, List.take_append_drop]
  | @operator code rest front op used skip _ _ _ _ _ _ _ ih =>
      rcases ih with ⟨later, same⟩
      refine ⟨later, ?_⟩
      rw [List.append_assoc, ← same, List.cons_append, List.take_append_drop]

/-- A program is left in one way only, if all that the return operator does is to leave it. -/
theorem unique (leaves : ∀ unread s, execute .ret unread s = .ok (.stop false) s)
    (run : Run execute depth program s front endsGlyph t) {front' : Bytes} {endsGlyph' : Bool}
    {t' : Session} (run' : Run execute depth program s front' endsGlyph' t') :
    front' = front ∧ endsGlyph' = endsGlyph ∧ t' = t := by
  -- the next token is read in one way, and its operator comes to one outcome
  induction run generalizing front' endsGlyph' t' with
  | exhausted =>
      cases run'
      exact ⟨rfl, rfl, rfl⟩
  | returned read =>
      cases run' with
      | returned read' => exact ⟨rfl, rfl, rfl⟩
      | ended read' executed' =>
          cases read.symm.trans read'
          cases (leaves _ _).symm.trans executed'
      | operand read' => cases read.symm.trans read'
      | operator read' executed' =>
          cases read.symm.trans read'
          cases (leaves _ _).symm.trans executed'
  | ended read executed =>
      cases run' with
      | returned read' =>
          cases read.symm.trans read'
          cases (leaves _ _).symm.trans executed
      | ended read' executed' =>
          cases read.symm.trans read'
          cases executed.symm.trans executed'
          exact ⟨rfl, rfl, rfl⟩
      | operand read' => cases read.symm.trans read'
      | operator read' executed' =>
          cases read.symm.trans read'
          cases executed.symm.trans executed'
  | operand read pushed _ ih =>
      cases run' with
      | returned read' => cases read.symm.trans read'
      | ended read' => cases read.symm.trans read'
      | operand read' pushed' later' =>
          cases read.symm.trans read'
          cases pushed.symm.trans pushed'
          rcases ih later' with ⟨rfl, rfl, rfl⟩
          exact ⟨rfl, rfl, rfl⟩
      | operator read' => cases read.symm.trans read'
  | operator read executed _ ih =>
      cases run' with
      | returned read' =>
          cases read.symm.trans read'
          cases (leaves _ _).symm.trans executed
      | ended read' executed' =>
          cases read.symm.trans read'
          cases executed.symm.trans executed'
      | operand read' => cases read.symm.trans read'
      | operator read' executed' later' =>
          cases read.symm.trans read'
          cases executed.symm.trans executed'
          rcases ih later' with ⟨rfl, rfl, rfl⟩
          exact ⟨rfl, rfl, rfl⟩

end Run

/-! ## One token -/

section Token

variable {execute : Operator → Bytes → Eval Flow} {depth : Nat} {code : UInt8} {rest : Bytes}
  {used : Nat}

/-- Goes on after an operator, with the bytes that are unread then. -/
def follow (execute : Operator → Bytes → Eval Flow) (depth : Nat) (unread : Bytes) :
    Flow → Eval Ending
  | .proceed skip => evaluateAfter execute depth 0 (unread.drop skip)
  | .stop endsGlyph => pure ⟨endsGlyph, unread⟩

/-- The bytes of a token are passed over together with those of the mask after it. -/
theorem follow_proceed (execute : Operator → Bytes → Eval Flow) (depth used skip : Nat)
    (rest : Bytes) :
    follow execute depth (rest.drop used) (.proceed skip) =
      evaluateAfter execute depth (used + skip) rest :=
  calc follow execute depth (rest.drop used) (.proceed skip)
      = evaluateAfter execute depth 0 ((rest.drop used).drop skip) := rfl
    _ = evaluateAfter execute depth 0 (rest.drop (used + skip)) := by rw [List.drop_drop]
    _ = evaluateAfter execute depth (used + skip) rest :=
        (evaluateAfter_drop execute depth _ rest).symm

theorem evaluateAfter_operand {value : Operand}
    (read : Token.read code rest = .ok (.operand value, used)) (s : Session) :
    evaluateAfter execute depth 0 (code :: rest) s =
      (changeStack (OperandStack.push value) >>= fun _ =>
        evaluateAfter execute depth 0 (rest.drop used)) s := by
  have lifted : lift ((Token.read code rest).mapError .charstring) s =
      .ok (.operand value, used) s := lift_eq_ok.2 ⟨Except.mapError_eq_ok.2 read, rfl⟩
  rw [← evaluateAfter_drop]
  exact bind_ok lifted _

theorem evaluateAfter_operator {op : Operator}
    (read : Token.read code rest = .ok (.operator op, used)) (s : Session) :
    evaluateAfter execute depth 0 (code :: rest) s =
      (execute op (rest.drop used) >>= follow execute depth (rest.drop used))
        (s.record (.operator depth op s.machine.stack)) := by
  have lifted : lift ((Token.read code rest).mapError .charstring) s =
      .ok (.operator op, used) s := lift_eq_ok.2 ⟨Except.mapError_eq_ok.2 read, rfl⟩
  have followed : follow execute depth (rest.drop used) = fun flow =>
      match flow with
      | .proceed skip => evaluateAfter execute depth (used + skip) rest
      | .stop endsGlyph => pure ⟨endsGlyph, rest.drop used⟩ := by
    funext flow
    cases flow with
    | stop endsGlyph => rfl
    | proceed skip => exact follow_proceed execute depth used skip rest
  rw [followed]
  exact bind_ok lifted _

end Token

/-! ## Runs in another place -/

/-- A step that succeeds can be taken as well from every session that `R` relates to its own, and
before other bytes. -/
structure Replays (R : Session → Session → Prop) (execute execute' : Operator → Bytes → Eval Flow)
    (depth depth' : Nat) : Prop where
  push : ∀ {value s s' t}, R s s' → changeStack (OperandStack.push value) s = .ok () t →
    ∃ t', R t t' ∧ changeStack (OperandStack.push value) s' = .ok () t'
  execute : ∀ {op unread flow s s' t}, R s s' →
    execute op unread (s.record (.operator depth op s.machine.stack)) = .ok flow t →
    flow.skip ≤ unread.length ∧ ∀ more, ∃ t', R t t' ∧
      execute' op (unread.take flow.skip ++ more)
        (s'.record (.operator depth' op s'.machine.stack)) = .ok flow t'

/-- What a run has consumed can be evaluated before other bytes.  It comes to the same, and if the
glyph has not ended the evaluation goes on with these bytes.  The return operator is not among the
bytes consumed, so `R` must not tell whether it has been recorded. -/
theorem Run.replayed {R : Session → Session → Prop}
    {execute execute' : Operator → Bytes → Eval Flow} {depth depth' : Nat}
    (steps : Replays R execute execute' depth depth') {body front : Bytes} {endsGlyph : Bool}
    {s s' t : Session} (run : Run execute depth body s front endsGlyph t)
    (returns : endsGlyph = false → ∀ {s s'}, R s s' →
      R (s.record (.operator depth .ret s.machine.stack)) s')
    (same : R s s') (rest : Bytes) :
    ∃ t', R t t' ∧ evaluateAfter execute' depth' 0 (front ++ rest) s' =
      follow execute' depth' rest (if endsGlyph then .stop true else .proceed 0) t' := by
  induction run generalizing s' with
  | exhausted => exact ⟨s', same, rfl⟩
  | returned read => exact ⟨s', returns rfl same, rfl⟩
  | @ended code bytes op used s t read executed =>
      rcases Token.read_local read with ⟨long, reread⟩
      rcases (steps.execute same executed).2 rest with ⟨t', related, done⟩
      have drop : (bytes.take used ++ rest).drop used = rest :=
        List.drop_left' (List.length_take_of_le long)
      refine ⟨t', related, ?_⟩
      apply (evaluateAfter_operator (reread rest) s').trans
      rw [drop]
      exact bind_ok done _
  | @operand code bytes front value used endsGlyph s s₁ t read pushed later ih =>
      rcases Token.read_local read with ⟨long, reread⟩
      rcases steps.push same pushed with ⟨s₁', related, pushed'⟩
      rcases ih returns related with ⟨t', after, evaluated⟩
      refine ⟨t', after, ?_⟩
      have program : code :: bytes.take used ++ front ++ rest =
          code :: (bytes.take used ++ (front ++ rest)) := by
        simp only [List.cons_append, List.append_assoc]
      have drop : (bytes.take used ++ (front ++ rest)).drop used = front ++ rest :=
        List.drop_left' (List.length_take_of_le long)
      rw [program]
      apply (evaluateAfter_operand (reread _) s').trans
      rw [drop]
      exact (bind_ok pushed' _).trans evaluated
  | @operator code bytes front op used skip endsGlyph s s₁ t read executed later ih =>
      rcases Token.read_local read with ⟨long, reread⟩
      rcases steps.execute same executed with ⟨within, elsewhere⟩
      obtain ⟨s₁', related, executed' : execute' op
          ((bytes.drop used).take skip ++ (front ++ rest)) _ = _⟩ := elsewhere (front ++ rest)
      rcases ih returns related with ⟨t', after, evaluated⟩
      refine ⟨t', after, ?_⟩
      -- the bytes passed over are those of the token and those of the mask
      have program : code :: bytes.take (used + skip) ++ front ++ rest =
          code :: (bytes.take used ++ ((bytes.drop used).take skip ++ (front ++ rest))) := by
        simp only [List.take_add, List.cons_append, List.append_assoc]
      have token : ∀ more : Bytes, (bytes.take used ++ more).drop used = more := fun more =>
        List.drop_left' (List.length_take_of_le long)
      have mask : ((bytes.drop used).take skip ++ (front ++ rest)).drop skip = front ++ rest :=
        List.drop_left' (List.length_take_of_le within)
      rw [program]
      apply (evaluateAfter_operator (reread _) s').trans
      rw [token]
      apply (bind_ok executed' _).trans
      have onward := congrArg (evaluateAfter execute' depth' 0 · s₁') mask
      exact onward.trans evaluated

/-! ## Evaluations are runs -/

variable {font : Font} {limit : Nat} {nested : Option Evaluator} {frame : Frame}

theorem Run.of_evaluateAfter {program : Bytes} {skip : Nat} {ending : Ending} {s t : Session}
    (h : evaluateAfter (execute font limit nested frame) frame.depth skip program s =
      .ok ending t) :
    ∃ front, Run (execute font limit nested frame) frame.depth (program.drop skip) s front
      ending.endsGlyph t := by
  induction program generalizing skip s with
  | nil =>
      simp only [evaluateAfter] at h
      cases h
      simp only [List.drop_nil]
      exact ⟨[], .exhausted⟩
  | cons code rest ih =>
      cases skip with
      | succ skip => exact ih h
      | zero =>
          simp only [evaluateAfter] at h
          rcases bind_eq_ok.1 h with ⟨⟨token, used⟩, s', lifted, h⟩
          rcases lift_eq_ok.1 lifted with ⟨wrapped, rfl⟩
          have read := Except.mapError_eq_ok.1 wrapped
          cases token with
          | operand value =>
              rcases bind_eq_ok.1 h with ⟨_, s₁, pushed, h⟩
              rcases ih h with ⟨front, later⟩
              exact ⟨_, .operand read pushed later⟩
          | operator op =>
              rcases bind_eq_ok.1 h with ⟨_, s₁, recorded, h⟩
              cases recorded
              rcases bind_eq_ok.1 h with ⟨flow, s₂, executed, h⟩
              cases flow with
              | proceed skip =>
                  rcases ih h with ⟨front, later⟩
                  exact ⟨_, .operator read executed later⟩
              | stop endsGlyph =>
                  cases h
                  rcases execute_yields _ executed with rfl | rfl
                  · exact ⟨_, .ended read executed⟩
                  · cases executed
                    exact ⟨_, .returned read⟩

/-! ## Operands that are left -/

/-- Whenever the program succeeds with a value of which `P` holds, it leaves no operands. -/
def Empties {α : Type} (P : α → Prop) (p : Eval α) : Prop :=
  ∀ ⦃s a t⦄, p s = .ok a t → P a → t.machine.stack = .empty

namespace Empties

variable {α β : Type} {P : α → Prop}

theorem bind {Q : β → Prop} (p : Eval α) {k : α → Eval β} (last : ∀ a, Empties Q (k a)) :
    Empties Q (p >>= k) := by
  intro s b u run
  rcases bind_eq_ok.1 run with ⟨a, t, _, after⟩
  exact last a after

theorem throw (e : LoadError) : Empties P (throw e : Eval α) := by
  intro s a t run
  cases run

theorem pure_of_not {a : α} (h : ¬ P a) : Empties P (pure a : Eval α) := by
  rintro s _ t ⟨⟩ holds
  exact absurd holds h

theorem clearStack {P : Unit → Prop} : Empties P Eval.clearStack := by
  rintro s a t ⟨⟩ _
  rfl

end Empties

/-- An operator that ends the glyph leaves no operands if the programs do that it can run. -/
theorem execute_empties
    (below : ∀ evaluate, nested = some evaluate → ∀ frame program,
      Empties (fun ending : Ending => ending.endsGlyph = true) (evaluate frame program))
    (op : Operator) (unread : Bytes) :
    Empties (· = .stop true) (execute font limit nested frame op unread) := by
  have called : ∀ subrs, Empties (· = .stop true) (call subrs limit nested frame) := by
    intro subrs
    refine .bind _ fun operand => .bind _ fun body => ?_
    cases nested with
    | none => exact .throw _
    | some evaluate =>
        intro s flow t run ends
        rcases bind_eq_ok.1 run with ⟨⟨endsGlyph, unread⟩, _, evaluated, last⟩
        cases endsGlyph with
        | false =>
            cases last
            cases ends
        | true =>
            cases last
            exact below evaluate rfl _ _ evaluated rfl
  have ended : ∀ {p : Eval Unit}, Empties (fun _ => True) p →
      Empties (· = .stop true) (p >>= fun _ => pure (Flow.stop true)) := by
    intro p empties s flow t run _
    rcases bind_eq_ok.1 run with ⟨_, _, ran, last⟩
    cases last
    exact empties ran trivial
  cases op with
  | callsubr =>
      simp only [execute]
      cases frame.subfont.localSubrs with
      | none => exact .throw _
      | some subrs => exact called subrs
  | callgsubr => exact called font.globalSubrs
  | endchar =>
      refine ended (.bind _ fun operands => .bind _ fun _ => ?_)
      dsimp only
      split
      · exact .bind _ fun accent => .bind _ fun _ => .clearStack
      · split
        · exact .bind _ fun _ => .clearStack
        · exact .clearStack
  | seac =>
      exact ended (.bind _ fun _ => .bind _ fun _ => .bind _ fun _ => .bind _ fun _ =>
        .bind _ fun _ => .bind _ fun _ => .bind _ fun _ => .clearStack)
  | ret => exact .pure_of_not (by decide)
  | _ => exact .bind _ fun _ => .pure_of_not Flow.noConfusion

theorem Run.empties {execute : Operator → Bytes → Eval Flow} {depth : Nat} {program front : Bytes}
    {endsGlyph : Bool} {s t : Session} (run : Run execute depth program s front endsGlyph t)
    (operators : ∀ op unread, Empties (· = .stop true) (execute op unread))
    (ends : endsGlyph = true) : t.machine.stack = .empty := by
  induction run with
  | exhausted => cases ends
  | returned read => cases ends
  | ended read executed => exact operators _ _ executed rfl
  | operand read pushed later ih => exact ih ends
  | operator read executed later ih => exact ih ends

/-- A program that ends the glyph leaves no operands. -/
theorem evaluate_empties (font : Font) (limit levels : Nat) (frame : Frame) (program : Bytes) :
    Empties (fun ending : Ending => ending.endsGlyph = true)
      (evaluate font limit levels frame program) := by
  induction levels generalizing frame program with
  | zero =>
      intro s ending t run ends
      obtain ⟨front, run⟩ := Run.of_evaluateAfter run
      -- no program is run below the last level
      exact run.empties (execute_empties nofun) ends
  | succ levels ih =>
      intro s ending t run ends
      obtain ⟨front, run⟩ := Run.of_evaluateAfter run
      refine run.empties (execute_empties ?_) ends
      rintro evaluate ⟨⟩
      exact ih

theorem below_empties {levels : Nat} {evaluate : Evaluator}
    (nested : below font limit levels = some evaluate) (frame : Frame) (program : Bytes) :
    Empties (fun ending : Ending => ending.endsGlyph = true) (evaluate frame program) := by
  cases levels with
  | zero => cases nested
  | succ lower =>
      cases nested
      exact evaluate_empties font limit lower frame program

end Eval

end Type2Glyphs
