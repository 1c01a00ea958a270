import Type2Glyphs.Proofs.Strict.Draft

/-!
# Session — programs that may come to nothing

A `StrictEval` is a program on a session like an `Eval`, but it comes to nothing at all where an
operation is used outside its domain.  `ComesTo p q` says that this does not happen to `p` in sound
sessions, and that `p` is then the program `q`.

A session is sound if its stack is not too high and its draft fits.  There is one rule for each way
in which programs are made.
-/

namespace Type2Glyphs

/-- A program on a session that comes to nothing where an operation is not defined. -/
def StrictEval (α : Type) :=
  Session → Option (EStateM.Result LoadError Session α)

instance : Monad StrictEval where
  pure a := fun s => some (.ok a s)
  bind p k := fun s => (p s).bind fun
    | .ok a t => k a t
    | .error e t => some (.error e t)

/-- Programs in which everything is defined. -/
instance : MonadLift Eval StrictEval where
  monadLift p := fun s => some (p s)

instance : MonadLift (Strict LoadError) StrictEval where
  monadLift p := fun s => p.run.map fun
    | .ok a => .ok a s
    | .error e => .error e s

namespace Strict

variable {α β : Type}

/-! ## Programs -/

/-- Changes the draft. -/
def mapDraft (f : Draft → Option Draft) : StrictEval Unit := fun s =>
  (f s.draft).map fun draft => .ok () { s with draft }

/-- Runs a program on a machine of its own. -/
def onFreshMachine (program : StrictEval α) : StrictEval α := fun s =>
  (program { s with machine := {} }).map fun
    | .ok a after => .ok a { after with machine := s.machine }
    | .error e after => .error e { after with machine := s.machine }

/-- Runs a program, and changes the session afterwards whether it failed or not. -/
def andFinally (program : StrictEval α) (f : Session → Session) : StrictEval α := fun s =>
  (program s).map fun
    | .ok a after => .ok a (f after)
    | .error e after => .error e (f after)

/-- Replaces the operand stack. -/
def changeStack (f : OperandStack → Strict StackFault OperandStack) : StrictEval Unit := do
  let stack ← (f (← Eval.gets (·.machine.stack))).adapt LoadError.stack
  modify (Session.mapMachine fun machine => { machine with stack })

/-- Pops an operand, and reads it as `read` says. -/
def popOperand (read : Operand → α) : StrictEval α := do
  let (value, stack) ← (pop (← Eval.gets (·.machine.stack))).adapt LoadError.stack
  modify (Session.mapMachine fun machine => { machine with stack })
  return read value

end Strict

/-! ## Sound sessions -/

/-- The operand stack is not too high, and the draft fits. -/
structure Session.Sound (session : Session) : Prop where
  stack : session.machine.stack.size ≤ maxOperands
  draft : session.draft.Fits

/-- An outcome in a sound session, where a value has the property `P`. -/
inductive Lands {α : Type} (P : α → Prop) : EStateM.Result LoadError Session α → Prop
  | ok {a : α} {s : Session} (holds : P a) (sound : s.Sound) : Lands P (.ok a s)
  | error {e : LoadError} {s : Session} (sound : s.Sound) : Lands P (.error e s)

/-- From a sound session everything in the first program is defined, and it comes to the outcome of
the second one, in a session that is sound again and with a value that has the property `P`. -/
def ComesTo {α : Type} (p : StrictEval α) (q : Eval α) (P : α → Prop := fun _ => True) : Prop :=
  ∀ ⦃s : Session⦄, s.Sound → p s = some (q s) ∧ Lands P (q s)

namespace Session.Sound

variable {s : Session}

/-- A machine whose stack is not too high can be put into a sound session. -/
theorem withMachine (h : s.Sound) {machine : Machine} (room : machine.stack.size ≤ maxOperands) :
    { s with machine := machine }.Sound :=
  ⟨room, h.draft⟩

theorem withDraft (h : s.Sound) {draft : Draft} (fits : draft.Fits) :
    { s with draft := draft }.Sound :=
  ⟨h.stack, fits⟩

end Session.Sound

namespace ComesTo

open Outcome

variable {α β : Type} {P : α → Prop} {Q : β → Prop} {p : StrictEval α} {q : Eval α}

/-! ## Programs of any kind -/

theorem pure {a : α} (holds : P a) : ComesTo (pure a) (pure a) P :=
  fun _ sound => ⟨rfl, .ok holds sound⟩

/-- The end of a program that gives nothing back. -/
theorem done : ComesTo (Pure.pure ()) (Pure.pure ()) :=
  pure trivial

theorem throw (e : LoadError) : ComesTo (liftM (throw e : Eval α)) (throw e) P :=
  fun _ sound => ⟨rfl, .error sound⟩

/-- A program in which everything is defined only has to leave sound sessions. -/
theorem total (keeps : ∀ s, s.Sound → Lands P (q s)) : ComesTo (liftM q) q P :=
  fun s sound => ⟨rfl, keeps s sound⟩

theorem bind {k : α → StrictEval β} {l : α → Eval β} (first : ComesTo p q P)
    (next : ∀ a, P a → ComesTo (k a) (l a) Q) : ComesTo (p >>= k) (q >>= l) Q := by
  intro s sound
  rcases first sound with ⟨defined, lands⟩
  have step : (p >>= k) s = (p s).bind fun
      | .ok a t => k a t
      | .error e t => some (.error e t) := rfl
  -- with the first program defined, all depends on the outcome of the one that it comes to
  simp only [bind_apply]
  rw [step, defined]
  revert lands
  generalize q s = result
  intro lands
  cases lands with
  | ok holds sound => exact next _ holds sound
  | error sound => exact ⟨rfl, .error sound⟩

/-- What is read off a sound session can have some property. -/
theorem gets {part : Session → α} (holds : ∀ s, s.Sound → P (part s)) :
    ComesTo (liftM (Eval.gets part)) (Eval.gets part) P :=
  total fun s sound => .ok (holds s sound) sound

theorem lift {computed : Strict LoadError α} {result : Except LoadError α}
    (given : Strict.Gives computed result P) : ComesTo (liftM computed) (Eval.lift result) P := by
  rcases given with ⟨rfl, holds⟩
  cases result with
  | ok a => exact pure (holds a rfl)
  | error e => exact throw e

theorem lifted (result : Except LoadError α) :
    ComesTo (liftM (Eval.lift result)) (Eval.lift result) := by
  cases result with
  | ok a => exact pure trivial
  | error e => exact throw e

theorem change {f : Session → Session} (keeps : ∀ s, s.Sound → (f s).Sound) :
    ComesTo (modify f) (modify f) :=
  fun s sound => ⟨rfl, .ok trivial (keeps s sound)⟩

theorem record (entry : TraceEntry) :
    ComesTo (modify (Session.record entry)) (modify (Session.record entry)) :=
  change fun _ sound => ⟨sound.stack, sound.draft⟩

theorem note (event : LoadEvent) :
    ComesTo (modify (Session.note event)) (modify (Session.note event)) :=
  change fun _ sound => ⟨sound.stack, sound.draft⟩

theorem forM {items : List β} {p : β → StrictEval PUnit} {q : β → Eval PUnit}
    (h : ∀ item, ComesTo (p item) (q item)) : ComesTo (items.forM p) (items.forM q) := by
  induction items with
  | nil => exact done
  | cons item items ih => exact (h item).bind fun _ _ => ih

theorem andFinally {f : Session → Session} (body : ComesTo p q P)
    (keeps : ∀ s, s.Sound → (f s).Sound) :
    ComesTo (Strict.andFinally p f) (Eval.andFinally q f) P := by
  intro s sound
  rcases body sound with ⟨defined, lands⟩
  simp only [Strict.andFinally, Eval.andFinally, defined]
  revert lands
  generalize q s = result
  intro lands
  cases lands with
  | ok holds sound => exact ⟨rfl, .ok holds (keeps _ sound)⟩
  | error sound => exact ⟨rfl, .error (keeps _ sound)⟩

/-- A program on a machine of its own starts with an empty stack, and leaves the old stack. -/
theorem onFreshMachine (body : ComesTo p q P) :
    ComesTo (Strict.onFreshMachine p) (Eval.onFreshMachine q) P := by
  intro s sound
  have fresh : { s with machine := {} }.Sound := sound.withMachine (Nat.zero_le _)
  rcases body fresh with ⟨defined, lands⟩
  simp only [Strict.onFreshMachine, Eval.onFreshMachine, defined]
  revert lands
  generalize q { s with machine := {} } = result
  intro lands
  cases lands with
  | ok holds after => exact ⟨rfl, .ok holds (after.withMachine sound.stack)⟩
  | error after => exact ⟨rfl, .error (after.withMachine sound.stack)⟩

theorem read (part : Session → α) : ComesTo (liftM (Eval.gets part)) (Eval.gets part) :=
  gets fun _ _ => trivial

/-- One program after another, with everything defined in both. -/
theorem total_bind {l : α → Eval β} (first : ComesTo (liftM q) q P)
    (next : ∀ a, P a → ComesTo (liftM (l a)) (l a) Q) : ComesTo (liftM (q >>= l)) (q >>= l) Q := by
  have apart : (liftM (q >>= l) : StrictEval β) = liftM q >>= fun a => liftM (l a) := by
    funext s
    show some ((q >>= l) s) = (some (q s)).bind _
    simp only [bind_apply, Option.bind_some]
    cases q s <;> rfl
  rw [apart]
  exact first.bind next

theorem defined_bind (a : α) (k : α → StrictEval β) :
    (liftM (some a) : StrictEval α) >>= k = k a :=
  rfl

/-! ## Machine and draft -/

theorem mapMachine {f : Machine → Machine}
    (keeps : ∀ machine, machine.stack.size ≤ maxOperands → (f machine).stack.size ≤ maxOperands) :
    ComesTo (modify (Session.mapMachine f)) (modify (Session.mapMachine f)) :=
  change fun s sound => sound.withMachine (keeps s.machine sound.stack)

theorem clearStack : ComesTo (liftM Eval.clearStack) Eval.clearStack :=
  total fun _ sound => .ok trivial (sound.withMachine (Nat.zero_le _))

theorem getStack : ComesTo (liftM (Eval.gets (·.machine.stack))) (Eval.gets (·.machine.stack))
    fun stack => stack.size ≤ maxOperands :=
  gets fun _ sound => sound.stack

/-- An operation on the stack that is defined where the stack is not too high. -/
theorem changeStack {f : OperandStack → Strict StackFault OperandStack}
    {g : OperandStack → Except StackFault OperandStack}
    (given : ∀ {stack}, stack.size ≤ maxOperands →
      Strict.Gives (f stack) (g stack) fun after => after.size ≤ maxOperands) :
    ComesTo (Strict.changeStack f) (Eval.changeStack g) :=
  getStack.bind fun _ room => (lift (given room).adapt).bind fun _ room =>
    mapMachine fun _ _ => room

/-- An operand is popped and then read. -/
theorem popOperand {read : Operand → α}
    {f : OperandStack → Except StackFault (α × OperandStack)}
    (same : ∀ stack, f stack = stack.pop.map fun (top, below) => (read top, below)) :
    ComesTo (Strict.popOperand read) (Eval.popOperand f) := by
  refine getStack.bind fun stack room => ?_
  have popped : ∀ l : α × OperandStack → Eval α,
      Eval.lift ((f stack).mapError LoadError.stack) >>= l =
        Eval.lift (stack.pop.mapError LoadError.stack) >>= fun popped =>
          l (read popped.1, popped.2) := by
    intro l
    rw [same]
    cases stack.pop <;> rfl
  rw [popped]
  exact (lift (Strict.pop_gives room).adapt).bind fun _ room =>
    (mapMachine fun _ _ => room).bind fun _ _ => pure trivial

theorem mapDraft {f : Draft → Option Draft} {g : Draft → Draft}
    (given : ∀ {draft}, draft.Fits → f draft = some (g draft) ∧ (g draft).Fits) :
    ComesTo (Strict.mapDraft f) (modify (Session.mapDraft g)) := by
  intro s sound
  rcases given sound.draft with ⟨defined, fits⟩
  simp only [Strict.mapDraft, defined]
  exact ⟨rfl, .ok trivial (sound.withDraft fits)⟩

/-- A program on the draft in which everything is defined leaves drafts that fit. -/
theorem onDraft {program : Draft.Program Unit}
    (keeps : Simulates (fun _ => False) (fun d d' => d' = d ∧ d.Fits) program program) :
    ComesTo (liftM (Eval.onDraft program)) (Eval.onDraft program) := by
  refine total fun s sound => ?_
  have outcomes := keeps ⟨rfl, sound.draft⟩
  simp only [Eval.onDraft_apply]
  revert outcomes
  generalize program s.draft = result
  intro outcomes
  cases outcomes with
  | ok related => exact .ok trivial (sound.withDraft related.2)
  | error related => exact .error (sound.withDraft related.2)
  | excuse h => exact h.elim

theorem callHook (call : HintCall) :
    ComesTo (liftM (Eval.callHook call)) (Eval.callHook call) := by
  refine total fun s sound => ?_
  simp only [callHook_apply]
  cases s.hook with
  | none => exact .ok trivial sound
  | some hook =>
      dsimp only
      cases hook.failure (call :: s.hintCalls) with
      | none => exact .ok trivial ⟨sound.stack, sound.draft⟩
      | some failure =>
          cases failure with
          | fatal reason => exact .error ⟨sound.stack, sound.draft⟩
          | advisory reason => exact .ok trivial ⟨sound.stack, sound.draft⟩

end ComesTo

end Type2Glyphs
