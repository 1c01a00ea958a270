import Type2Glyphs.Proofs.Draft.Coupling
import Type2Glyphs.Proofs.Program.Run

/-!
# Inlining — a call does what its subroutine does in place of it

A subroutine works on the machine of its caller and knows nothing of the bytes after the call.  So
what it has consumed until it is left can stand in the place of the call: the same is drawn, and the
same remains.  Only the trace tells the two apart, as it has the depth of every operator.

* `Session.Same` relates sessions that are equal up to the trace;
* `Run.inlined` evaluates what a run has consumed, one level up and before other bytes;
* `evaluate_inlined` replaces a call by what its subroutine has consumed.
-/

namespace Type2Glyphs

open Outcome

/-! ## Sessions up to the trace -/

/-- Sessions that are equal up to the trace. -/
abbrev Session.Same : Session → Session → Prop :=
  Alike Eq Eq fun _ => True

namespace Session.Same

theorem of_trace (s : Session) (trace : List TraceEntry) :
    Session.Same { s with trace := trace } s :=
  ⟨rfl, rfl, rfl, rfl, rfl, fun _ _ => trivial, fun _ => rfl⟩

theorem eq {s s' : Session} (h : Session.Same s s') : s' = { s with trace := s'.trace } := by
  -- any hook is allowed, so the journals are equal even where there is none
  have journal := h.journal ⟨.silent, trivial⟩
  rcases s with ⟨machine, draft, hook, random, components, heard, trace⟩
  rcases s' with ⟨machine', draft', hook', random', components', heard', trace'⟩
  have machine : machine' = machine := h.machine
  have draft : draft = draft' := h.draft
  have hook : hook' = hook := h.hook
  have random : random' = random := h.random
  have components : components = components' := h.components
  have heard : heard' = heard := journal
  subst machine draft hook random components heard
  rfl

/-- Equal drafts are coupled. -/
theorem draftCoupling (excused : LoadError → Prop) : DraftCoupling excused Eq Eq Eq where
  isOpen h := by rw [h]
  counts h := .inl (by rw [h]; exact ⟨rfl, rfl⟩)
  closeContour h := by rw [h]
  start h _ _ _ p := by rw [h]
  line h _ _ p := by rw [h]
  curve h _ _ c₁ c₂ p := by rw [h]
  components := rfl
  commit h := by rw [h]
  listsComponents h := by rw [h]
  origin h := by rw [h]
  withOrigin h _ _ same := by rw [h, same]
  displaced same v := by rw [same]
  advance same _ _ h a := by rw [same, h]
  leftBearing same _ _ h b := by rw [same, h]

theorem coupling (excused : LoadError → Prop) :
    Coupling excused Session.Same (Frame.Alike Eq) Eq :=
  (draftCoupling excused).coupling (fun _ _ _ _ same _ => by rw [same]) _

end Session.Same

/-- What follows an operator goes in step. -/
theorem Coupling.follow {excused : LoadError → Prop} {R : Session → Session → Prop}
    {frames : Frame → Frame → Prop} {origins : Point → Point → Prop} {limit limit' : Nat}
    {nested nested' : Option Evaluator} {f f' : Frame} (c : Coupling excused R frames origins)
    (font : Font) (levels : NestedSimulates excused R frames limit limit' nested nested')
    (related : frames f f') (unread : Bytes) (flow : Flow) :
    Simulates excused R (Eval.follow (Eval.execute font limit nested f) f.depth unread flow)
      (Eval.follow (Eval.execute font limit' nested' f') f'.depth unread flow) := by
  cases flow with
  | proceed skip => exact c.evaluateAfter font levels related 0 (unread.drop skip)
  | stop endsGlyph => exact Simulates.pure _

/-- The INDEX of the subroutines that an operator calls, if there are any. -/
def Operator.subroutines? (font : Font) (subfont : Subfont) : Operator → Option Index
  | .callsubr => subfont.localSubrs
  | .callgsubr => some font.globalSubrs
  | _ => none

/-- How a program goes on after a call. -/
def Flow.ofCall (endsGlyph : Bool) : Flow :=
  if endsGlyph then .stop true else .proceed 0

namespace Eval

variable {font : Font} {limit limit' levels : Nat} {nested nested' : Option Evaluator}
  {f f' : Frame}

/-! ## Runs in another place -/

section Runs

variable {excused : LoadError → Prop}
  (deeper : NestedSimulates excused Session.Same (Frame.Alike Eq) limit limit' nested nested')
  (frames : Frame.Alike Eq f f')

include deeper frames

/-- Steps can be taken in another place too. -/
theorem replays_elsewhere :
    Replays Session.Same (execute font limit nested f) (execute font limit' nested' f') f.depth
      f'.depth where
  push := by
    intro value s s' t same pushed
    have outcomes : Agree excused Session.Same _ _ :=
      (Session.Same.coupling excused).changeStack (OperandStack.push value) same
    rw [pushed] at outcomes
    rcases outcomes.of_ok with ⟨t', pushed', related⟩
    exact ⟨t', related, pushed'⟩
  execute := by
    intro op unread flow s s' t same executed
    rcases execute_local executed with ⟨within, moved⟩
    refine ⟨within, ?_⟩
    intro more
    have recorded := same.record (.operator f.depth op s.machine.stack)
      (.operator f'.depth op s'.machine.stack)
    have outcomes := (Session.Same.coupling excused).execute font deeper frames op
      (unread.take flow.skip ++ more) recorded
    rw [moved] at outcomes
    rcases outcomes.of_ok with ⟨t', done, related⟩
    exact ⟨t', related, done⟩

/-- What a run has consumed can be evaluated before other bytes.  It comes to the same, and then
the evaluation goes on as after a call. -/
theorem Run.inlined {body front : Bytes} {endsGlyph : Bool} {s s' t : Session}
    (run : Run (execute font limit nested f) f.depth body s front endsGlyph t)
    (same : Session.Same s s') (rest : Bytes) :
    ∃ t', Session.Same t t' ∧
      evaluateAfter (execute font limit' nested' f') f'.depth 0 (front ++ rest) s' =
        follow (execute font limit' nested' f') f'.depth rest (Flow.ofCall endsGlyph) t' :=
  run.replayed (replays_elsewhere deeper frames) (fun _ _ _ same => { same with }) same rest

end Runs

/-! ## Calls -/

section Call

variable {op : Operator} {frame : Frame} {subrs : Index} {k : Nat} {body : Bytes}
  {operand : Operand} {s t : Session} {flow : Flow}

theorem execute_of_calls (calls : op.subroutines? font frame.subfont = some subrs)
    (unread : Bytes) :
    execute font limit nested frame op unread = call subrs limit nested frame := by
  cases op with
  | callsubr =>
      have found : frame.subfont.localSubrs = some subrs := calls
      simp only [execute, found]
  | callgsubr =>
      cases calls
      rfl
  | _ => cases calls

theorem encoding_of_calls {subfont : Subfont} (calls : op.subroutines? font subfont = some subrs) :
    ∃ code, op.encoding = [code] ∧ ∀ rest, Token.read code rest = .ok (.operator op, 0) := by
  cases op with
  | callsubr => exact ⟨10, rfl, fun _ => rfl⟩
  | callgsubr => exact ⟨29, rfl, fun _ => rfl⟩
  | _ => cases calls

/-- Adding the bias gives the number of the subroutine back. -/
theorem subroutine_of_biased {operand : Int32} (small : subrs.count < 65536)
    (object : subrs.get k = .ok body) (biased : operand.toInt = k - subrs.bias) :
    subroutine subrs operand = .ok body := by
  have inside : k < subrs.count := by
    by_cases outside : subrs.count ≤ k
    · simp only [Index.get, if_pos outside] at object
      cases object
    · exact Nat.lt_of_not_le outside
  -- so small a number is not cut off at the greatest one of 32 bits
  have number : subroutineNumber subrs operand = k := by
    simp only [subroutineNumber, biased]
    omega
  have known : ¬ ((k : Int) < 0 ∨ (subrs.count : Int) ≤ k) := by omega
  simp only [subroutine, number, if_neg known, Int.toNat_natCast, object]
  rfl

/-- A call that succeeds has evaluated its subroutine one level down, on the stack without the
operand. -/
theorem call_eq_ok {entries : List Operand} (found : subroutine subrs operand.toInt = .ok body)
    (top : s.machine.stack = ⟨operand :: entries⟩)
    (h : call subrs limit (below font limit levels) frame s = .ok flow t) :
    ∃ lower ending, levels = lower + 1 ∧ flow = Flow.ofCall ending.endsGlyph ∧
      evaluate font limit lower { frame with depth := frame.depth + 1 } body
        (s.mapMachine fun machine => { machine with stack := ⟨entries⟩ }) = .ok ending t := by
  have popped : OperandStack.popInt s.machine.stack = .ok (operand.toInt, ⟨entries⟩) := by
    rw [top]
    rfl
  have started := (bind_ok (popOperand_of_ok popped) _).symm.trans h
  have located := (bind_ok (lift_eq_ok.2 ⟨found, rfl⟩) _).symm.trans started
  cases levels with
  | zero => cases located
  | succ lower =>
      rcases bind_eq_ok.1 located with ⟨ending, t', evaluated, last⟩
      cases last
      exact ⟨lower, ending, rfl, rfl, evaluated⟩

/-- A program of a number and a call evaluates the subroutine one level down, and then goes on. -/
theorem evaluate_call {number rest : Bytes} {ending : Ending}
    (calls : op.subroutines? font frame.subfont = some subrs)
    (found : subroutine subrs operand.toInt = .ok body)
    (reads : Token.next? (number ++ (op.encoding ++ rest)) =
      some (.ok (.operand operand, op.encoding ++ rest)))
    (run : evaluate font limit levels frame (number ++ (op.encoding ++ rest)) s = .ok ending t) :
    ∃ lower left u, levels = lower + 1 ∧
      evaluate font limit lower { frame with depth := frame.depth + 1 } body
        (s.record (.operator frame.depth op ⟨operand :: s.machine.stack.entries⟩)) =
          .ok left u ∧
      follow (execute font limit (below font limit levels) frame) frame.depth rest
        (Flow.ofCall left.endsGlyph) u = .ok ending t := by
  rcases Token.next?_eq_ok.1 reads with ⟨code, tail, used, program, read, ahead⟩
  rcases encoding_of_calls calls with ⟨opcode, encoding, reread⟩
  rw [evaluate_eq, program] at run
  have first := (evaluateAfter_operand read s).symm.trans run
  rcases bind_eq_ok.1 first with ⟨_, s₁, pushed, calling⟩
  rw [ahead, encoding] at calling
  have second := (evaluateAfter_operator (reread rest) s₁).symm.trans calling
  rcases bind_eq_ok.1 second with ⟨flow, u, called, followed⟩
  simp only [execute_of_calls calls] at called
  simp only [List.drop_zero] at followed
  -- the operand is pushed and popped again, which leaves the stack as it was
  rcases changeStack_eq_ok.1 pushed with ⟨stack, room, rfl⟩
  rcases OperandStack.push_eq_ok_iff.1 room with ⟨_, rfl⟩
  rcases call_eq_ok found rfl called with ⟨lower, left, level, rfl, evaluated⟩
  exact ⟨lower, left, u, level, evaluated, followed⟩

end Call

/-! ## Calls replaced by their subroutines -/

/-- What a subroutine has consumed until it is left can stand in the place of its call.  The call
gives the number of the subroutine less the bias, in any encoding; an INDEX has no more than 65535
subroutines, since it counts them in two bytes. -/
theorem evaluate_inlined {op : Operator} {frame : Frame} {subrs : Index} {k : Nat}
    {body number rest : Bytes} {operand : Operand} {ending : Ending} {s t : Session}
    (calls : op.subroutines? font frame.subfont = some subrs) (small : subrs.count < 65536)
    (object : subrs.get k = .ok body)
    (reads : Token.next? (number ++ (op.encoding ++ rest)) =
      some (.ok (.operand operand, op.encoding ++ rest)))
    (biased : operand.toInt.toInt = k - subrs.bias)
    (run : evaluate font limit levels frame (number ++ (op.encoding ++ rest)) s = .ok ending t) :
    ∃ lower front endsGlyph u, levels = lower + 1 ∧ (∃ later, body = front ++ later) ∧
      Run (execute font limit (below font limit lower) { frame with depth := frame.depth + 1 })
        (frame.depth + 1) body
        (s.record (.operator frame.depth op ⟨operand :: s.machine.stack.entries⟩))
        front endsGlyph u ∧
      ∃ trace, evaluate font limit levels frame (front ++ rest) s =
        .ok ending { t with trace := trace } := by
  have found := subroutine_of_biased small object biased
  rcases evaluate_call calls found reads run with ⟨lower, left, u, rfl, evaluated, followed⟩
  simp only [evaluate_eq] at evaluated
  rcases Run.of_evaluateAfter evaluated with ⟨front, ran⟩
  -- what has been consumed does the same here, up to the trace, and so does what follows
  have c := Session.Same.coupling (· = .nestingTooDeep limit)
  have deeper : NestedSimulates _ Session.Same (Frame.Alike Eq) limit limit
      (below font limit lower) (below font limit (lower + 1)) :=
    c.below font (.inr ⟨rfl, Nat.le_succ lower⟩)
  have level : NestedSimulates _ Session.Same (Frame.Alike Eq) limit limit
      (below font limit (lower + 1)) (below font limit (lower + 1)) :=
    c.below font (.inl ⟨rfl, rfl⟩)
  have above : Frame.Alike Eq { frame with depth := frame.depth + 1 } frame := ⟨rfl, rfl⟩
  have alike : Frame.Alike Eq frame frame := ⟨rfl, rfl⟩
  have same : Session.Same _ s := Session.Same.of_trace s
    (.operator frame.depth op ⟨operand :: s.machine.stack.entries⟩ :: s.trace)
  rcases ran.inlined deeper above same rest with ⟨u', related, inlined⟩
  have onward := c.follow font level alike rest (Flow.ofCall left.endsGlyph) related
  rw [followed] at onward
  rcases onward.of_ok with ⟨t', finished, ended⟩
  refine ⟨lower, front, left.endsGlyph, u, rfl, ran.front_append, ran, t'.trace, ?_⟩
  rw [evaluate_eq, ← ended.eq]
  exact inlined.trans finished

/-- A font whose only subroutine declares a stem, returns, and would then end the glyph. -/
def stemFont : Font where
  glyphs := .ofList []
  globalSubrs := ⟨1, 1, [1, 6], [139, 149, 18, 11, 14]⟩
  subfonts := [{}]

theorem evaluate_inlined_stems :
    ∃ ending t trace,
      evaluate stemFont 1 1 ⟨{}, false, 0⟩
        ([32] ++ (Operator.callgsubr.encoding ++ [149, 159, 19, 192, 149, 22, 14])) {} =
          .ok ending t ∧
      t.machine.stemCount = 2 ∧
      evaluate stemFont 1 1 ⟨{}, false, 0⟩
        ([139, 149, 18] ++ [149, 159, 19, 192, 149, 22, 14]) {} =
          .ok ending { t with trace := trace } := by
  -- the mask after the call has a bit for the stem that the subroutine declares
  have stems : (match evaluate stemFont 1 1 ⟨{}, false, 0⟩
      ([32] ++ (Operator.callgsubr.encoding ++ [149, 159, 19, 192, 149, 22, 14])) {} with
      | .ok _ t => some t.machine.stemCount
      | .error _ _ => none) = some 2 := by decide +kernel
  cases run : evaluate stemFont 1 1 ⟨{}, false, 0⟩
      ([32] ++ (Operator.callgsubr.encoding ++ [149, 159, 19, 192, 149, 22, 14])) {} with
  | error e t =>
      rw [run] at stems
      cases stems
  | ok ending t =>
      rw [run] at stems
      obtain ⟨lower, front, endsGlyph, u, level, _, ran, trace, inlined⟩ :=
        evaluate_inlined (rfl : Operator.callgsubr.subroutines? stemFont _ = _) (by decide)
          (rfl : stemFont.globalSubrs.get 0 = _) rfl (by decide) run
      cases level
      have consumed : Run (execute stemFont 1 none ⟨{}, false, 1⟩) 1 [139, 149, 18, 11, 14]
          (Session.record (.operator 0 .callgsubr ⟨[.int (-107)]⟩) {}) _ false _ :=
        .operand rfl rfl (.operand rfl rfl (.operator rfl rfl (.returned rfl)))
      rcases consumed.unique (fun _ _ => rfl) ran with ⟨rfl, _, _⟩
      exact ⟨ending, t, trace, rfl, Option.some.inj stems, inlined⟩

end Eval

end Type2Glyphs
