import Type2Glyphs.Proofs.Law

/-!
# Pair — what holds of two evaluations of one program

Two evaluations of the same bytes can start from different sessions or belong to different fonts,
and still read the same tokens, execute the same operators and call the same subroutines.  So what
relates the two is handed on from one operator to the next.  `PairLaw` lists what there is to show
of a relation `L` between programs, and `PairLaw.evaluate` says that it relates the two evaluations.

`L ends p q` may say something else about values that end the glyph, which are told by `ends`: after
such a value nothing follows but to return it.
-/

namespace Type2Glyphs

/-- A program that is run for an operator, which is recorded first. -/
def Eval.traced {α : Type} (depth : Nat) (op : Operator) (p : Eval α) : Eval α := do
  modify fun session => session.record (.operator depth op session.machine.stack)
  p

theorem Eval.traced_apply {α : Type} (depth : Nat) (op : Operator) (p : Eval α) (s : Session) :
    traced depth op p s = p (s.record (.operator depth op s.machine.stack)) :=
  rfl

theorem Eval.traced_bind {α β : Type} (depth : Nat) (op : Operator) (p : Eval α)
    (k : α → Eval β) : traced depth op (p >>= k) = traced depth op p >>= k :=
  (bind_assoc ..).symm

/-- All programs with fewer levels left are related, where there are levels left at all. -/
def PairsBelow (L : ∀ {α : Type}, (α → Prop) → Eval α → Eval α → Prop) (font font' : Font)
    (limit levels : Nat) (places : Nat → Frame → Prop) : Prop :=
  ∀ lower, levels = lower + 1 → ∀ frame program, places lower frame →
    L (fun ending => ending.endsGlyph = true) (Eval.evaluate font limit lower frame program)
      (Eval.evaluate font' limit lower frame program)

/-- What all programs with fewer levels left have holds of the evaluator that operators are given,
if there are levels left. -/
theorem PairsBelow.evaluator {L : ∀ {α : Type}, (α → Prop) → Eval α → Eval α → Prop} {font : Font}
    {limit levels : Nat} {evaluate : Evaluator}
    (h : PairsBelow L font font limit levels fun _ _ => True)
    (nested : Eval.below font limit levels = some evaluate) (frame : Frame) (program : Bytes) :
    L (fun ending => ending.endsGlyph = true) (evaluate frame program)
      (evaluate frame program) := by
  cases levels with
  | zero => cases nested
  | succ lower =>
      cases nested
      exact h lower rfl frame program trivial

/-- `L` relates the programs that are run for single operators, and what is made of them in both
fonts.  An operator that ends the glyph may run the programs of components, which have fewer levels
left; `places` says which frames come up with so many of them. -/
structure PairLaw (font font' : Font) (limit : Nat) (places : Nat → Frame → Prop)
    (L : ∀ {α : Type}, (α → Prop) → Eval α → Eval α → Prop) : Prop where
  globalSubrs : font'.globalSubrs = font.globalSubrs
  deeper : ∀ {levels frame}, places (levels + 1) frame →
    places levels { frame with depth := frame.depth + 1 }
  pure : ∀ {α : Type} {ends : α → Prop} (a : α), L ends (Pure.pure a) (Pure.pure a)
  throw : ∀ {α : Type} {ends : α → Prop} (e : LoadError), L ends (throw e : Eval α) (throw e)
  bind : ∀ {α β : Type} {ends : α → Prop} {ends' : β → Prop} {p q : Eval α} {k l : α → Eval β},
    L ends p q → (∀ a, L ends' (k a) (l a)) →
    (∀ a, ends a → ∃ b, ends' b ∧ k a = Pure.pure b ∧ l a = Pure.pure b) →
    L ends' (p >>= k) (q >>= l)
  push : ∀ value, L (fun _ => False) (Eval.changeStack (OperandStack.push value))
    (Eval.changeStack (OperandStack.push value))
  missing : ∀ (depth : Nat) (e : LoadError), L (fun _ => False)
    (Eval.traced depth .callsubr (MonadExcept.throw e : Eval Flow))
    (Eval.traced depth .callsubr (MonadExcept.throw e : Eval Flow))
  popped : ∀ (depth : Nat) {op}, op = .callsubr ∨ op = .callgsubr → L (fun _ => False)
    (Eval.traced depth op (Eval.popOperand OperandStack.popInt))
    (Eval.traced depth op (Eval.popOperand OperandStack.popInt))
  alone : ∀ {levels frame nested nested' op}, Operator.nests op = false → places levels frame →
    ∀ unread, L (fun _ => False)
      (Eval.traced frame.depth op (Eval.execute font limit nested frame op unread))
      (Eval.traced frame.depth op (Eval.execute font' limit nested' frame op unread))
  endchar : ∀ {levels frame}, places levels frame →
    PairsBelow L font font' limit levels places → L (fun _ => True)
      (Eval.traced frame.depth .endchar
        (Eval.endchar font limit (Eval.below font limit levels) frame))
      (Eval.traced frame.depth .endchar
        (Eval.endchar font' limit (Eval.below font' limit levels) frame))
  seac : ∀ {levels frame}, places levels frame →
    PairsBelow L font font' limit levels places → L (fun _ => True)
      (Eval.traced frame.depth .seac (Eval.seac font limit (Eval.below font limit levels) frame))
      (Eval.traced frame.depth .seac
        (Eval.seac font' limit (Eval.below font' limit levels) frame))

namespace PairLaw

open Eval

variable {font font' : Font} {limit levels : Nat} {places : Nat → Frame → Prop}
  {L : ∀ {α : Type}, (α → Prop) → Eval α → Eval α → Prop} {frame : Frame} {α β : Type}

/-- One program after another, if the first one does not end the glyph. -/
theorem andThen (law : PairLaw font font' limit places L) {ends : β → Prop} {p q : Eval α}
    {k l : α → Eval β} (first : L (fun _ => False) p q) (next : ∀ a, L ends (k a) (l a)) :
    L ends (p >>= k) (q >>= l) :=
  law.bind first next fun _ impossible => impossible.elim

theorem weaken (law : PairLaw font font' limit places L) {ends : α → Prop} {p q : Eval α}
    (h : L (fun _ => False) p q) : L ends p q := by
  have returned : ∀ a : α, L ends (Pure.pure a : Eval α) (Pure.pure a) := law.pure
  have again := law.andThen h returned
  rwa [bind_pure, bind_pure] at again

theorem lift (law : PairLaw font font' limit places L) {ends : α → Prop}
    (result : Except LoadError α) : L ends (Eval.lift result) (Eval.lift result) := by
  cases result with
  | ok a => exact law.pure a
  | error e => exact law.throw e

/-! ## Operators -/

theorem call (law : PairLaw font font' limit places L) {op : Operator}
    (calls : op = .callsubr ∨ op = .callgsubr) (subrs : Index) (place : places levels frame)
    (below : PairsBelow L font font' limit levels places) :
    L (fun flow => flow = .stop true)
      (traced frame.depth op (Eval.call subrs limit (Eval.below font limit levels) frame))
      (traced frame.depth op (Eval.call subrs limit (Eval.below font' limit levels) frame)) := by
  simp only [Eval.call, traced_bind]
  refine law.andThen (law.popped _ calls) fun operand => ?_
  refine law.andThen (law.lift _) fun body => ?_
  cases levels with
  | zero => exact law.throw _
  | succ lower =>
      have ran := below lower rfl _ body (law.deeper place)
      refine law.bind ran (fun ending => law.pure _) ?_
      intro ending ends
      exact ⟨.stop true, rfl, by rw [ends]; rfl, by rw [ends]; rfl⟩

theorem execute (law : PairLaw font font' limit places L) (op : Operator)
    (place : places levels frame) (below : PairsBelow L font font' limit levels places)
    (unread : Bytes) :
    L (fun flow => flow = .stop true)
      (traced frame.depth op
        (Eval.execute font limit (Eval.below font limit levels) frame op unread))
      (traced frame.depth op
        (Eval.execute font' limit (Eval.below font' limit levels) frame op unread)) := by
  have ended : ∀ {p q : Eval Unit}, L (fun _ => True) (traced frame.depth op p)
      (traced frame.depth op q) → L (fun flow => flow = .stop true)
        (traced frame.depth op (p >>= fun _ => Pure.pure (Flow.stop true)))
        (traced frame.depth op (q >>= fun _ => Pure.pure (Flow.stop true))) := by
    intro p q related
    simp only [traced_bind]
    exact law.bind related (fun _ => law.pure _) fun _ _ => ⟨.stop true, rfl, rfl, rfl⟩
  cases nests : op.nests with
  | false => exact law.weaken (law.alone nests place unread)
  | true =>
      cases op with
      | callsubr =>
          simp only [Eval.execute]
          cases frame.subfont.localSubrs with
          | none => exact law.weaken (law.missing _ _)
          | some subrs => exact law.call (.inl rfl) subrs place below
      | callgsubr =>
          simp only [Eval.execute, law.globalSubrs]
          exact law.call (.inr rfl) _ place below
      | endchar => exact ended (law.endchar place below)
      | seac => exact ended (law.seac place below)
      | _ => cases nests

/-! ## Programs -/

theorem evaluateAfter (law : PairLaw font font' limit places L) (place : places levels frame)
    (below : PairsBelow L font font' limit levels places) (skip : Nat) (program : Bytes) :
    L (fun ending => ending.endsGlyph = true)
      (Eval.evaluateAfter (Eval.execute font limit (Eval.below font limit levels) frame)
        frame.depth skip program)
      (Eval.evaluateAfter (Eval.execute font' limit (Eval.below font' limit levels) frame)
        frame.depth skip program) := by
  -- by induction on the bytes, since a token and a mask only skip some of those that follow
  induction program generalizing skip with
  | nil =>
      simp only [Eval.evaluateAfter]
      exact law.pure _
  | cons code rest ih =>
      cases skip with
      | succ skip => exact ih skip
      | zero =>
          simp only [Eval.evaluateAfter]
          refine law.andThen (law.lift _) fun token => ?_
          split
          · exact law.andThen (law.push _) fun _ => ih _
          · next op used =>
              have executed := law.execute op place below (rest.drop used)
              show L _ (traced frame.depth op (_ >>= _)) (traced frame.depth op (_ >>= _))
              rw [traced_bind, traced_bind]
              refine law.bind executed ?_ ?_
              · intro flow
                cases flow with
                | proceed skip => exact ih _
                | stop endsGlyph => exact law.pure _
              · rintro _ rfl
                exact ⟨⟨true, rest.drop used⟩, rfl, rfl, rfl⟩

/-- Both evaluations of every program are related. -/
theorem evaluate (law : PairLaw font font' limit places L) (place : places levels frame)
    (program : Bytes) :
    L (fun ending => ending.endsGlyph = true) (Eval.evaluate font limit levels frame program)
      (Eval.evaluate font' limit levels frame program) := by
  induction levels generalizing frame program with
  | zero =>
      simp only [Eval.evaluate_eq]
      refine law.evaluateAfter place ?_ 0 program
      -- no program is run below the last level
      intro lower impossible
      cases impossible
  | succ levels ih =>
      simp only [Eval.evaluate_eq]
      refine law.evaluateAfter place ?_ 0 program
      intro lower same frame' program place
      cases same
      exact ih place program

end PairLaw

end Type2Glyphs
