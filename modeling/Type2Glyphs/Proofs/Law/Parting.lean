import Type2Glyphs.Proofs.Law.Pair
import Type2Glyphs.Proofs.Outcome
import Type2Glyphs.Proofs.Simulation

/-!
# Parting — runs that go in step until a glyph is composed

Two runs of one program from related sessions go in step, operator by operator, for as long as the
sessions stay related.  Where an accented glyph is composed they may part, since from then on other
things count than before.  Nothing else is evaluated after that: the stack is cleared, and all
programs that led there return.

* `Parting` says so of two outcomes, and `Parting.bind` carries it through programs;
* `PartingLaw` lists what there is to show of a relation between sessions, and
  `PartingLaw.evaluate` says that evaluations from related sessions have such outcomes.
-/

namespace Type2Glyphs

open Outcome

/-! ## Outcomes that part -/

/-- The outcome of drawing components, after which the stack is cleared and `a` is returned. -/
def resume {α : Type} (a : α) : EStateM.Result LoadError Session Unit →
    EStateM.Result LoadError Session α
  | .ok _ t => .ok a { t with machine := { t.machine with stack := .empty } }
  | .error e t => .error e t

theorem resume_unit (drawn : EStateM.Result LoadError Session Unit) :
    resume () drawn = andThen (fun _ => Eval.clearStack) drawn := by
  cases drawn <;> rfl

/-- After the components nothing follows but to return another value. -/
theorem resume_andThen {α β : Type} {a : α} {b : β} {k : α → Eval β}
    (final : k a = Pure.pure b) (drawn : EStateM.Result LoadError Session Unit) :
    andThen k (resume a drawn) = resume b drawn := by
  cases drawn with
  | ok _ t => exact congrFun final _
  | error e t => rfl

/-- Outcomes that agree still do so with the stacks cleared. -/
theorem Agree.resume {α : Type} {R : Session → Session → Prop}
    {drawn drawn' : EStateM.Result LoadError Session Unit}
    (h : Agree (fun _ => False) R drawn drawn') (a : α)
    (clear : ∀ {s s'}, R s s' →
      R (s.mapMachine fun machine => { machine with stack := .empty })
        (s'.mapMachine fun machine => { machine with stack := .empty })) :
    Agree (fun _ => False) R (resume a drawn) (resume a drawn') := by
  cases h with
  | ok related => exact .ok (clear related)
  | error related => exact .error related
  | excuse impossible => exact impossible.elim

/-- Outcomes that agree end in related sessions. -/
theorem Agree.final {α : Type} {R : Session → Session → Prop}
    {result result' : EStateM.Result LoadError Session α}
    (h : Agree (fun _ => False) R result result') :
    R (finalSession result) (finalSession result') := by
  cases h with
  | ok related => exact related
  | error related => exact related
  | excuse impossible => exact impossible.elim

/-- Outcomes that agree, or that part where a glyph is composed, in ways that `P` relates.  There
the value is one that `ends` the glyph. -/
inductive Parting (R : Session → Session → Prop)
    (P : EStateM.Result LoadError Session Unit → EStateM.Result LoadError Session Unit → Prop)
    {α : Type} (ends : α → Prop) :
    EStateM.Result LoadError Session α → EStateM.Result LoadError Session α → Prop
  | same {result result'} (agree : Agree (fun _ => False) R result result') :
      Parting R P ends result result'
  | parted {a : α} {drawn drawn'} (ended : ends a) (composed : P drawn drawn') :
      Parting R P ends (resume a drawn) (resume a drawn')

namespace Parting

variable {R At : Session → Session → Prop}
  {P : EStateM.Result LoadError Session Unit → EStateM.Result LoadError Session Unit → Prop}
  {α β : Type} {s s' : Session} {p q : Eval α} {k l : α → Eval β}

theorem bind {ends : α → Prop} {ends' : β → Prop} (first : Parting R P ends (p s) (q s'))
    (next : ∀ a ⦃t t'⦄, R t t' → Parting R P ends' (k a t) (l a t'))
    (last : ∀ a, ends a → ∃ b, ends' b ∧ k a = pure b ∧ l a = pure b) :
    Parting R P ends' ((p >>= k) s) ((q >>= l) s') := by
  simp only [bind_apply]
  revert first
  generalize p s = result
  generalize q s' = result'
  intro first
  cases first with
  | same agree =>
      cases agree with
      | ok related => exact next _ related
      | error related => exact .same (.error related)
      | excuse impossible => exact impossible.elim
  | @parted a drawn drawn' ended composed =>
      rcases last a ended with ⟨b, ended', final, final'⟩
      rw [resume_andThen final, resume_andThen final']
      exact .parted ended' composed

/-- What goes in step does not part. -/
theorem of_simulates {ends : α → Prop} (h : Simulates (fun _ => False) R p q)
    (related : R s s') : Parting R P ends (p s) (q s') :=
  .same (h related)

/-- Steps that go in step do not part either, also where the sessions are related by more. -/
theorem simulates_bind {ends : β → Prop} (weaken : ∀ ⦃t t'⦄, At t t' → R t t')
    (first : Simulates (fun _ => False) At p q) (related : At s s')
    (next : ∀ a ⦃t t'⦄, At t t' → Parting R P ends (k a t) (l a t')) :
    Parting R P ends ((p >>= k) s) ((q >>= l) s') := by
  have outcomes := first related
  simp only [bind_apply]
  revert outcomes
  generalize p s = result
  generalize q s' = result'
  intro outcomes
  cases outcomes with
  | ok related => exact next _ related
  | error related => exact .same (.error (weaken related))
  | excuse impossible => exact impossible.elim

end Parting

/-! ## Composing a glyph -/

namespace Eval

/-- Lists components or draws them. -/
def composeOf (font : Font) (limit : Nat) (nested : Option Evaluator) (depth : Nat)
    (components : List Component) : Eval Unit := do
  if ← gets (·.draft.listsComponents) then
    modify fun session => { session with components := session.components ++ components }
  else
    drawComponents font limit nested depth components

theorem compose_eq (font : Font) (limit : Nat) (nested : Option Evaluator) (depth : Nat)
    (accent : Accent) :
    compose font limit nested depth accent =
      lift (accentGlyph font accent.baseCode) >>= fun base =>
        lift (accentGlyph font accent.accentCode) >>= fun mark =>
          composeOf font limit nested depth [⟨base, 0⟩, ⟨mark, accent.offset⟩] :=
  rfl

theorem composeOf_apply (font : Font) (limit : Nat) (nested : Option Evaluator) (depth : Nat)
    (components : List Component) (s : Session) :
    composeOf font limit nested depth components s =
      if s.draft.listsComponents then
        .ok () { s with components := s.components ++ components }
      else
        drawComponents font limit nested depth components s := by
  show (if s.draft.listsComponents then _ else _ : Eval Unit) s = _
  split <;> rfl

end Eval

/-! ## Relations that last until a glyph is composed -/

/-- Related sessions go in step through all operators, but may part where a glyph is composed.
While that is done, sessions are related by `At`, which may say more about them: the operator has
been recorded last.  `places` says at what depths there can be so many levels left. -/
structure PartingLaw (font : Font) (limit : Nat) (places : Nat → Nat → Prop)
    (R : Session → Session → Prop) (At : Nat → Session → Session → Prop)
    (P : EStateM.Result LoadError Session Unit → EStateM.Result LoadError Session Unit → Prop) :
    Prop where
  deeper : ∀ {levels depth}, places (levels + 1) depth → places levels (depth + 1)
  operators : OperatorLaw fun {_} p => Simulates (fun _ => False) R p p
  record : ∀ {s s'}, R s s' → ∀ depth op,
    R (s.record (.operator depth op s.machine.stack))
      (s'.record (.operator depth op s'.machine.stack))
  related : ∀ {depth s s'}, At depth s s' → R s s'
  recordAt : ∀ {s s'}, R s s' → ∀ depth op, op = .endchar ∨ op = .seac →
    At depth (s.record (.operator depth op s.machine.stack))
      (s'.record (.operator depth op s'.machine.stack))
  operands : ∀ depth, OperandLaw fun {_} p => Simulates (fun _ => False) (At depth) p p
  seeWidth : ∀ depth, Simulates (fun _ => False) (At depth)
    (modify (Session.mapMachine fun machine => { machine with widthSeen := true }) : Eval Unit)
    (modify (Session.mapMachine fun machine => { machine with widthSeen := true }))
  closeContour : ∀ depth, Simulates (fun _ => False) (At depth)
    (modify (Session.mapDraft Draft.closeContour) : Eval Unit)
    (modify (Session.mapDraft Draft.closeContour))
  setLeftBearing : ∀ depth frame bearing, Simulates (fun _ => False) (At depth)
    (Eval.setLeftBearing frame bearing) (Eval.setLeftBearing frame bearing)
  compose : ∀ {levels depth s s'}, places levels depth → At depth s s' → ∀ base mark offset,
    Parting R P (fun _ => True)
      ((Eval.composeOf font limit (Eval.below font limit levels) depth
        [⟨base, 0⟩, ⟨mark, offset⟩] >>= fun _ => Eval.clearStack) s)
      ((Eval.composeOf font limit (Eval.below font limit levels) depth
        [⟨base, 0⟩, ⟨mark, offset⟩] >>= fun _ => Eval.clearStack) s')

namespace PartingLaw

variable {font : Font} {limit levels : Nat} {places : Nat → Nat → Prop}
  {R : Session → Session → Prop} {At : Nat → Session → Session → Prop}
  {P : EStateM.Result LoadError Session Unit → EStateM.Result LoadError Session Unit → Prop}
  {frame : Frame} {s s' : Session}

/-- A step before the glyph is composed, and what follows it. -/
theorem andThen (law : PartingLaw font limit places R At P) {α β : Type} {depth : Nat}
    {p : Eval α} {k : α → Eval β} {ends : β → Prop}
    (first : Simulates (fun _ => False) (At depth) p p) (related : At depth s s')
    (next : ∀ a ⦃t t'⦄, At depth t t' → Parting R P ends (k a t) (k a t')) :
    Parting R P ends ((p >>= k) s) ((p >>= k) s') :=
  Parting.simulates_bind (fun _ _ h => law.related h) first related next

theorem composeAccent (law : PartingLaw font limit places R At P)
    (place : places levels frame.depth) (related : At frame.depth s s') (accent : Accent) :
    Parting R P (fun _ => True)
      ((Eval.compose font limit (Eval.below font limit levels) frame.depth accent >>=
        fun _ => Eval.clearStack) s)
      ((Eval.compose font limit (Eval.below font limit levels) frame.depth accent >>=
        fun _ => Eval.clearStack) s') := by
  simp only [Eval.compose_eq, bind_assoc]
  refine law.andThen (Simulates.lift _) related fun base t t' related => ?_
  refine law.andThen (Simulates.lift _) related fun mark t t' related => ?_
  exact law.compose place related base mark accent.offset

theorem endchar (law : PartingLaw font limit places R At P) (place : places levels frame.depth)
    (related : At frame.depth s s') :
    Parting R P (fun _ => True) (Eval.endchar font limit (Eval.below font limit levels) frame s)
      (Eval.endchar font limit (Eval.below font limit levels) frame s') := by
  have steps := law.operands frame.depth
  refine law.andThen (steps.takeOperands _) related fun operands t t' related => ?_
  refine law.andThen (law.closeContour _) related fun _ t t' related => ?_
  by_cases accented : operands.length = 4
  · simp only [if_pos accented]
    refine law.andThen (steps.popAccent 0) related fun accent t t' related => ?_
    exact law.composeAccent place related accent
  · simp only [if_neg accented]
    refine Parting.of_simulates ?_ (law.related related)
    split
    · exact (Simulates.throw _).bind fun _ => law.operators.clearStack
    · exact law.operators.clearStack

theorem seac (law : PartingLaw font limit places R At P) (place : places levels frame.depth)
    (related : At frame.depth s s') :
    Parting R P (fun _ => True) (Eval.seac font limit (Eval.below font limit levels) frame s)
      (Eval.seac font limit (Eval.below font limit levels) frame s') := by
  have steps := law.operands frame.depth
  refine law.andThen (law.seeWidth _) related fun _ t t' related => ?_
  refine law.andThen (steps.stack fun stack => stack.operands) related
    fun operands t t' related => ?_
  refine law.andThen (steps.lift _) related fun _ t t' related => ?_
  refine law.andThen (law.closeContour _) related fun _ t t' related => ?_
  refine law.andThen (law.setLeftBearing _ frame _) related fun _ t t' related => ?_
  refine law.andThen (steps.popAccent _) related fun accent t t' related => ?_
  exact law.composeAccent place related accent

/-- What is handed on from operator to operator: the outcomes from related sessions agree or
part. -/
theorem pairLaw (law : PartingLaw font limit places R At P) :
    PairLaw font font limit (fun levels frame => places levels frame.depth)
      fun {_} ends p q => ∀ s s', R s s' → Parting R P ends (p s) (q s') where
  globalSubrs := rfl
  deeper := law.deeper
  pure a _ _ related := .of_simulates (Simulates.pure a) related
  throw e _ _ related := .of_simulates (Simulates.throw e) related
  bind first next last s s' related := (first s s' related).bind next last
  push value _ _ related := .of_simulates (law.operators.changeStack _) related
  missing depth e _ _ related := by
    simp only [Eval.traced_apply]
    exact .of_simulates (Simulates.throw e) (law.record related depth .callsubr)
  popped depth op _ _ _ related := by
    simp only [Eval.traced_apply]
    exact .of_simulates (law.operators.popOperand _) (law.record related depth op)
  alone nests _ unread _ _ related := by
    simp only [Eval.traced_apply]
    rw [Eval.execute_of_alone nests unread]
    exact .of_simulates (law.operators.execute nests unread) (law.record related _ _)
  endchar place _ _ _ related := law.endchar place (law.recordAt related _ _ (.inl rfl))
  seac place _ _ _ related := law.seac place (law.recordAt related _ _ (.inr rfl))

/-- From related sessions all programs go in step, or part where a glyph is composed. -/
theorem evaluate (law : PartingLaw font limit places R At P) (place : places levels frame.depth)
    (program : Bytes) (related : R s s') :
    Parting R P (fun ending => ending.endsGlyph = true)
      (Eval.evaluate font limit levels frame program s)
      (Eval.evaluate font limit levels frame program s') :=
  law.pairLaw.evaluate place program _ _ related

end PartingLaw

end Type2Glyphs
