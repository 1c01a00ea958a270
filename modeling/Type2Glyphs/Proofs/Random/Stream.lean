import Mathlib.Logic.Function.Iterate
import Type2Glyphs.Proofs.Operations
import Type2Glyphs.Proofs.Program.Run
import Type2Glyphs.Proofs.Random.Blind

/-!
# Stream — random operators get the numbers of one stream in turn

The seed of a load begins a stream of random numbers, and every operator that draws one gets the
next, in whatever program it stands.

The trace tells that on its own.  An operator that draws a random number is recorded, then the
number is, and the next operator finds the number on its stack above what the first one found there.
`InTurn seed entries` checks this entry by entry.

Between two operators the number may still have to be found, which is what `Ready` allows; while
steps are taken that draw no random number, and between the programs of glyphs and components, the
session is `Calm`.  A program that fails leaves a `Failed` one.  Whatever is kept from step to step
is `Maintains seed P p`, and `evaluate_maintains` says that all programs keep sessions ready.  For
loads `load_streams` has it, and `InTurn.delivered` what it means for a single operator.
-/

namespace Type2Glyphs

open Outcome

variable {α β : Type}

/-! ## The numbers of a seed -/

/-- The state of the random numbers after so many draws. -/
def randomState (seed : UInt32) (draws : Nat) : UInt32 :=
  nextRandom^[draws] seed

theorem randomState_succ (seed : UInt32) (draws : Nat) :
    randomState seed (draws + 1) = nextRandom (randomState seed draws) :=
  Function.iterate_succ_apply' nextRandom draws seed

theorem toNat_nextRandom (state : UInt32) :
    (nextRandom state).toNat = (state.toNat * 1103515245 + 12345) % 4294967296 := by
  simp only [nextRandom, UInt32.toNat_add, UInt32.toNat_mul, UInt32.toNat_ofNat]
  omega

/-- The upper 16 bits of the state, and one more. -/
theorem raw_randomNumber_bits (state : UInt32) :
    (randomNumber state).raw = ((state >>> 16) &&& 0xFFFF).toNat + 1 := by
  have bound := state.toNat_lt
  have upper : ((state >>> 16) &&& 0xFFFF).toNat = state.toNat / 65536 := by
    have masked : state.toNat / 65536 &&& 65535 = state.toNat / 65536 % 65536 :=
      Nat.and_two_pow_sub_one_eq_mod _ 16
    simp only [UInt32.toNat_and, UInt32.toNat_shiftRight, UInt32.toNat_ofNat,
      Nat.shiftRight_eq_div_pow]
    refine masked.trans ?_
    omega
  rw [raw_randomNumber, upper]
  omega

/-! ## Traces -/

/-- Whether the entry is an operator that draws a random number. -/
def TraceEntry.isRandom : TraceEntry → Bool
  | .operator _ op _ => op = .random
  | _ => false

/-- How many of the entries are operators that draw random numbers. -/
def randomCount (entries : List TraceEntry) : Nat :=
  entries.countP TraceEntry.isRandom

theorem randomCount_random (depth : Nat) (stack : OperandStack) (earlier : List TraceEntry) :
    randomCount (.operator depth .random stack :: earlier) = randomCount earlier + 1 :=
  List.countP_cons_of_pos rfl

theorem randomCount_of_steady {entry : TraceEntry} (steady : entry.isRandom = false)
    (earlier : List TraceEntry) : randomCount (entry :: earlier) = randomCount earlier :=
  List.countP_cons_of_neg (Bool.not_eq_true _ ▸ steady)

/-- The number for an operator that draws one after these entries. -/
def numberAfter (seed : UInt32) (earlier : List TraceEntry) : Fixed :=
  randomNumber (randomState seed (randomCount earlier + 1))

/-- The latest entry has nothing to do with random numbers. -/
def AtRest : List TraceEntry → Prop
  | .drawn _ :: _ => False
  | entry :: _ => entry.isRandom = false
  | [] => True

/-- The entry may be the next one after these. -/
inductive TraceEntry.Follows (seed : UInt32) : TraceEntry → List TraceEntry → Prop
  /-- The number that was asked for. -/
  | number {depth : Nat} {stack : OperandStack} {earlier : List TraceEntry} :
      Follows seed (.drawn (numberAfter seed earlier)) (.operator depth .random stack :: earlier)
  /-- An operator that finds the number on its stack. -/
  | reader {depth depth' : Nat} {op : Operator} {stack stack' : OperandStack} {number : Fixed}
      {earlier : List TraceEntry} (room : stack.size < maxOperands)
      (pushed : .fixed number :: stack.entries <:+ stack'.entries) :
      Follows seed (.operator depth' op stack')
        (.drawn number :: .operator depth .random stack :: earlier)
  | other {entry : TraceEntry} {earlier : List TraceEntry} (atRest : AtRest earlier)
      (other : ∀ number, entry ≠ .drawn number) : Follows seed entry earlier

/-- Every entry may be the next one after those before it. -/
def InTurn (seed : UInt32) : List TraceEntry → Prop
  | [] => True
  | entry :: earlier => entry.Follows seed earlier ∧ InTurn seed earlier

/-- The trace that is left when a program fails.  If the latest number could not be pushed, that is
the failure. -/
inductive FailsAfter : LoadError → List TraceEntry → Prop
  | overflow {depth : Nat} {stack : OperandStack} {number : Fixed} {earlier : List TraceEntry}
      (full : maxOperands ≤ stack.size) :
      FailsAfter (.stack .overflow) (.drawn number :: .operator depth .random stack :: earlier)
  | pushed {e : LoadError} {depth : Nat} {stack : OperandStack} {number : Fixed}
      {earlier : List TraceEntry} (room : stack.size < maxOperands) :
      FailsAfter e (.drawn number :: .operator depth .random stack :: earlier)
  | atRest {e : LoadError} {entries : List TraceEntry} (atRest : AtRest entries) :
      FailsAfter e entries

section Traces

variable {seed : UInt32} {entry : TraceEntry} {entries earlier later : List TraceEntry}
  {depth : Nat} {op : Operator} {stack stack' : OperandStack}

/-- What lies on top makes no difference to an operator that looks for a number. -/
theorem TraceEntry.Follows.deeper
    (h : (TraceEntry.operator depth op stack).Follows seed entries)
    (more : stack.entries <:+ stack'.entries) :
    (TraceEntry.operator depth op stack').Follows seed entries := by
  cases h with
  | reader room pushed => exact .reader room (pushed.trans more)
  | other atRest _ => exact .other atRest nofun

/-- There is no number to be found on an empty stack. -/
theorem TraceEntry.Follows.atRest_of_empty
    (h : (TraceEntry.operator depth op .empty).Follows seed entries) : AtRest entries := by
  cases h with
  | reader room pushed => cases List.suffix_nil.1 pushed
  | other atRest _ => exact atRest

theorem TraceEntry.Follows.failsAfter
    (h : (TraceEntry.operator depth op stack).Follows seed entries) (e : LoadError) :
    FailsAfter e entries := by
  cases h with
  | reader room _ => exact .pushed room
  | other atRest _ => exact .atRest atRest

theorem InTurn.follows (h : InTurn seed (later ++ entry :: earlier)) :
    entry.Follows seed earlier := by
  induction later with
  | nil => exact h.1
  | cons _ later ih => exact ih h.2

end Traces

/-! ## Sessions -/

namespace Session

/-- The state of the random numbers is that after all operators that draw one, and these got their
numbers in turn. -/
structure Streams (seed : UInt32) (s : Session) : Prop where
  random : s.random = randomState seed (randomCount s.trace)
  inTurn : InTurn seed s.trace

/-- No random number is still to be found. -/
structure Calm (seed : UInt32) (s : Session) : Prop extends Streams seed s where
  atRest : AtRest s.trace

/-- An operator that comes next finds the latest random number. -/
structure Ready (seed : UInt32) (s : Session) : Prop extends Streams seed s where
  next : ∀ depth op, (TraceEntry.operator depth op s.machine.stack).Follows seed s.trace

/-- A program has failed with that error. -/
structure Failed (seed : UInt32) (e : LoadError) (s : Session) : Prop extends Streams seed s where
  failed : FailsAfter e s.trace

variable {seed : UInt32} {s t : Session}

/-- Nothing counts but the random numbers and the trace. -/
theorem Streams.of_same (h : s.Streams seed) (random : t.random = s.random)
    (trace : t.trace = s.trace) : t.Streams seed where
  random := by rw [random, trace, h.random]
  inTurn := by rw [trace]; exact h.inTurn

theorem Calm.of_same (h : s.Calm seed) (random : t.random = s.random)
    (trace : t.trace = s.trace) : t.Calm seed where
  toStreams := h.toStreams.of_same random trace
  atRest := by rw [trace]; exact h.atRest

theorem Failed.of_same {e : LoadError} (h : s.Failed seed e) (random : t.random = s.random)
    (trace : t.trace = s.trace) : t.Failed seed e where
  toStreams := h.toStreams.of_same random trace
  failed := by rw [trace]; exact h.failed

/-- An entry that says nothing of random numbers. -/
theorem Streams.record {entry : TraceEntry} (h : s.Streams seed)
    (follows : entry.Follows seed s.trace) (steady : entry.isRandom = false) :
    (s.record entry).Streams seed where
  random := by
    show s.random = randomState seed (randomCount (entry :: s.trace))
    rw [randomCount_of_steady steady, h.random]
  inTurn := ⟨follows, h.inTurn⟩

theorem Calm.ready (h : s.Calm seed) : s.Ready seed where
  toStreams := h.toStreams
  next _ _ := .other h.atRest nofun

theorem Ready.failed (h : s.Ready seed) (e : LoadError) : s.Failed seed e where
  toStreams := h.toStreams
  failed := (h.next 0 .ret).failsAfter e

theorem Calm.failed (h : s.Calm seed) (e : LoadError) : s.Failed seed e :=
  h.ready.failed e

/-- A program that has ended its glyph leaves no number to be found. -/
theorem Ready.calm (h : s.Ready seed) (empty : s.machine.stack = .empty) : s.Calm seed where
  toStreams := h.toStreams
  atRest := by
    have next := h.next 0 .ret
    rw [empty] at next
    exact next.atRest_of_empty

/-- An operator that draws a random number gets the next one. -/
theorem Ready.drawn (h : s.Ready seed) (depth : Nat) {state : UInt32}
    (next : state = randomState seed (randomCount s.trace + 1)) :
    ({ s.record (.operator depth .random s.machine.stack) with random := state }.record
      (.drawn (randomNumber state))).Streams seed where
  random := by
    show state = randomState seed (randomCount (_ :: _ :: s.trace))
    rw [randomCount_of_steady rfl, randomCount_random]
    exact next
  inTurn := by
    rw [next]
    exact ⟨.number, h.next depth .random, h.inTurn⟩

/-- More operands do no harm. -/
theorem Ready.push (h : s.Ready seed) (value : Operand) :
    (s.mapMachine fun machine =>
      { machine with stack := ⟨value :: machine.stack.entries⟩ }).Ready seed where
  toStreams := h.toStreams.of_same rfl rfl
  next depth op := (h.next depth op).deeper (List.suffix_cons _ _)

theorem Calm.start (h : s.Calm seed) :
    ({ s with machine := {} }.record .start).Calm seed := by
  have follows : TraceEntry.start.Follows seed s.trace := .other h.atRest nofun
  exact ⟨(h.toStreams.record follows rfl).of_same rfl rfl, rfl⟩

theorem Calm.leave (h : s.Calm seed) (frame : Frame) (machine : Machine) :
    (s.leave frame machine).Calm seed := by
  have follows : TraceEntry.stop.Follows seed s.trace := .other h.atRest nofun
  exact ⟨(h.toStreams.record follows rfl).of_same rfl rfl, rfl⟩

/-- An operator that draws no random number is recorded after the latest one was found. -/
theorem Ready.record (h : s.Ready seed) {op : Operator} (steady : op ≠ .random) (depth : Nat) :
    (s.record (.operator depth op s.machine.stack)).Calm seed where
  toStreams := h.toStreams.record (h.next depth op) (decide_eq_false steady)
  atRest := decide_eq_false steady

end Session

/-! ## Programs -/

/-- A program succeeds in a session of which `P` holds, or fails in one of which `E` holds. -/
inductive Comes (P : Session → Prop) (E : LoadError → Session → Prop) :
    EStateM.Result LoadError Session α → Prop
  | ok {a : α} {t : Session} (h : P t) : Comes P E (.ok a t)
  | error {e : LoadError} {t : Session} (h : E e t) : Comes P E (.error e t)

/-- The program keeps `P`, and fails as a program may. -/
def Maintains (seed : UInt32) (P : Session → Prop) (p : Eval α) : Prop :=
  ∀ ⦃s⦄, P s → Comes P (Session.Failed seed) (p s)

namespace Eval

open Session

variable {seed : UInt32} {P : Session → Prop} {font : Font} {limit levels depth : Nat}
  {nested : Option Evaluator} {evaluate : Evaluator} {frame : Frame}

theorem maintains_bind {p : Eval α} {k : α → Eval β} (first : Maintains seed P p)
    (next : ∀ a, Maintains seed P (k a)) : Maintains seed P (p >>= k) := by
  intro s h
  have outcome := first h
  simp only [bind_apply]
  revert outcome
  generalize p s = result
  intro outcome
  cases outcome with
  | ok h => exact next _ h
  | error h => exact .error h

/-- What draws no random number and records nothing keeps the session calm. -/
theorem calm_blindLaw (seed : UInt32) : BlindLaw fun {_} p => Maintains seed (Calm seed) p where
  blind {_ p} blind := by
    intro s h
    obtain ⟨random, trace⟩ := blind.keeps s
    revert random trace
    generalize p s = result
    intro random trace
    cases result with
    | ok a t => exact .ok (h.of_same random trace)
    | error e t => exact .error ((h.of_same random trace).failed e)
  bind := maintains_bind
  andFinally {_ p f} body last := by
    intro s h
    have outcome := body h
    simp only [andFinally]
    revert outcome
    generalize p s = result
    intro outcome
    cases outcome with
    | ok h => exact .ok (h.of_same (last.keeps _).1 (last.keeps _).2)
    | error h => exact .error (h.of_same (last.keeps _).1 (last.keeps _).2)

/-- An operator that draws a random number records it, and pushes it if there is room for it. -/
theorem execute_random (font : Font) (limit : Nat) (nested : Option Evaluator) (frame : Frame)
    (unread : Bytes) (s : Session) :
    let number := randomNumber (nextRandom s.random)
    let drawn := { s with random := nextRandom s.random }.record (.drawn number)
    execute font limit nested frame .random unread s =
      if s.machine.stack.size < maxOperands then
        .ok (.proceed 0) (drawn.mapMachine fun machine =>
          { machine with stack := ⟨.fixed number :: machine.stack.entries⟩ })
      else
        .error (.stack .overflow) drawn := by
  have outcome : execute font limit nested frame .random unread s =
      (random >>= fun _ => pure (Flow.proceed 0)) s := rfl
  -- which state comes next makes no difference to the rest
  have pushed : ∀ next : UInt32,
      let drawn := { s with random := next }.record (.drawn (randomNumber next))
      andThen (fun _ => pure (Flow.proceed 0))
        (changeStack (OperandStack.push (.fixed (randomNumber next))) drawn) =
          if s.machine.stack.size < maxOperands then
            .ok (.proceed 0) (drawn.mapMachine fun machine =>
              { machine with stack := ⟨.fixed (randomNumber next) :: machine.stack.entries⟩ })
          else
            .error (.stack .overflow) drawn := by
    intro next drawn
    rw [push_apply]
    by_cases room : s.machine.stack.size < maxOperands
    · exact (congrArg _ (if_pos room)).trans (if_pos room).symm
    · exact (congrArg _ (if_neg room)).trans (if_neg room).symm
  intro number drawn
  rw [outcome, bind_apply, random_apply]
  exact pushed _

/-- An operator that draws a random number gets the next one. -/
theorem random_maintains (depth : Nat) (unread : Bytes) :
    Maintains seed (Ready seed)
      (traced depth .random (execute font limit nested frame .random unread)) := by
  intro s h
  have before : (s.record (.operator depth .random s.machine.stack)).random = s.random := rfl
  have state : nextRandom s.random = randomState seed (randomCount s.trace + 1) := by
    rw [randomState_succ, h.random]
  rw [traced_apply, execute_random, before, state]
  -- from here on it does not matter which state that is
  generalize same : randomState seed (randomCount s.trace + 1) = next
  have streams := h.drawn depth same.symm
  split
  · next room =>
      refine .ok ⟨streams.of_same rfl rfl, fun depth op => ?_⟩
      exact .reader room (List.suffix_refl _)
  · next full => exact .error ⟨streams, .overflow (Nat.le_of_not_lt full)⟩

theorem traced_maintains (op : Operator) (steady : op ≠ .random) (depth : Nat) {p : Eval α}
    (body : Maintains seed (Calm seed) p) : Maintains seed (Ready seed) (traced depth op p) := by
  intro s h
  have outcome := body (h.record steady depth)
  rw [traced_apply]
  revert outcome
  generalize p _ = result
  intro outcome
  cases outcome with
  | ok h => exact .ok h.ready
  | error h => exact .error h

theorem alone_maintains {op : Operator} (alone : op.nests = false) (unread : Bytes) :
    Maintains seed (Ready seed) (traced depth op (execute font limit nested frame op unread)) := by
  by_cases random : op = .random
  · rw [random]
    exact random_maintains depth unread
  · exact traced_maintains op random depth
      ((calm_blindLaw seed).blind (.execute alone random unread))

/-- The program of a glyph or component begins and ends calm, since it leaves no operands. -/
theorem runProgram_maintains {program : Bytes}
    (body : Maintains seed (Ready seed) (evaluate frame program))
    (empties : Empties (fun ending : Ending => ending.endsGlyph = true) (evaluate frame program)) :
    Maintains seed (Calm seed) (runProgram evaluate frame program) := by
  intro s h
  have outcome := body h.start.ready
  have empty := @empties ({ s with machine := {} }.record .start)
  rw [runProgram_apply]
  revert outcome empty
  generalize evaluate frame program _ = result
  intro outcome empty
  cases outcome with
  | error h => exact .error (h.of_same rfl rfl)
  | @ok ending t h =>
      dsimp only
      -- a number that nobody has found would still be on the stack
      split
      · next ends => exact .ok ((h.calm (empty rfl ends)).leave frame s.machine)
      · exact .error ((h.failed _).of_same rfl rfl)

theorem below_maintains
    (h : PairsBelow (fun {_} _ p _ => Maintains seed (Ready seed) p) font font limit levels
      fun _ _ => True)
    (evaluate : Evaluator) (nested : below font limit levels = some evaluate) (frame : Frame)
    (program : Bytes) : Maintains seed (Calm seed) (runProgram evaluate frame program) :=
  runProgram_maintains (h.evaluator nested frame program) (below_empties nested _ _)

theorem maintains_pairLaw (seed : UInt32) (font : Font) (limit : Nat) :
    PairLaw font font limit (fun _ _ => True) fun {_} _ p _ => Maintains seed (Ready seed) p where
  globalSubrs := rfl
  deeper _ := trivial
  pure _ _ h := .ok h
  throw e _ h := .error (h.failed e)
  bind first next _ := maintains_bind first next
  push value := by
    intro s h
    rw [push_apply]
    split
    · exact .ok (h.push value)
    · exact .error (h.failed _)
  missing depth e :=
    traced_maintains .callsubr nofun depth ((calm_blindLaw seed).readingLaw.throw e)
  popped depth {op} calls := by
    have steady : op ≠ .random := by
      rintro rfl
      rcases calls with ⟨⟨⟩⟩ | ⟨⟨⟩⟩
    exact traced_maintains op steady depth (calm_blindLaw seed).readingLaw.popInt
  alone alone _ unread := alone_maintains alone unread
  endchar {_ frame} _ below :=
    traced_maintains .endchar nofun frame.depth
      ((calm_blindLaw seed).endchar (below_maintains below))
  seac {_ frame} _ below :=
    traced_maintains .seac nofun frame.depth
      ((calm_blindLaw seed).seac (below_maintains below))

/-- Every program gives its random operators their numbers in turn. -/
theorem evaluate_maintains (seed : UInt32) (font : Font) (limit levels : Nat) (frame : Frame)
    (program : Bytes) :
    Maintains seed (Ready seed) (Eval.evaluate font limit levels frame program) :=
  (maintains_pairLaw seed font limit).evaluate trivial program

theorem loadGlyph_maintains (seed : UInt32) (font : Font) (glyph : GlyphId)
    (settings : LoadSettings) : Maintains seed (Calm seed) (loadGlyph font glyph settings) :=
  (calm_blindLaw seed).loadGlyph
    (fun _ _ => runProgram_maintains (evaluate_maintains _ _ _ _ _ _)
      (evaluate_empties _ _ _ _ _)) glyph

end Eval

/-! ## Loads -/

/-- What comes after an operator that draws a random number on that stack. -/
inductive Delivered (number : Fixed) (stack : OperandStack)
    (result : Except LoadError LoadedGlyph) : List TraceEntry → Prop
  /-- The number was pushed, and the next operator finds it there. -/
  | found {depth : Nat} {op : Operator} {stack' : OperandStack} {later : List TraceEntry}
      (room : stack.size < maxOperands)
      (pushed : .fixed number :: stack.entries <:+ stack'.entries) :
      Delivered number stack result (later ++ [.operator depth op stack', .drawn number])
  /-- There is no next operator, since the load fails before that. -/
  | unused {e : LoadError} (room : stack.size < maxOperands) (failed : result = .error e) :
      Delivered number stack result [.drawn number]
  /-- There is no room for the number. -/
  | overflow (full : maxOperands ≤ stack.size) (failed : result = .error (.stack .overflow)) :
      Delivered number stack result [.drawn number]

/-- A load that succeeds leaves no number to be found, and one that fails leaves its trace as a
program that fails does. -/
def LeavesTrace (entries : List TraceEntry) : Except LoadError LoadedGlyph → Prop
  | .ok _ => AtRest entries
  | .error e => FailsAfter e entries

section Loads

variable {seed : UInt32} {result : Except LoadError LoadedGlyph} {depth : Nat}
  {stack : OperandStack} {number : Fixed} {earlier later : List TraceEntry}

theorem not_atRest_random : ¬ AtRest (.operator depth .random stack :: earlier) :=
  nofun

/-- The number is drawn before anything else happens. -/
theorem not_leavesTrace_random :
    ¬ LeavesTrace (.operator depth .random stack :: earlier) result := by
  intro left
  cases result with
  | ok loaded =>
      have atRest : AtRest (.operator depth .random stack :: earlier) := left
      exact not_atRest_random atRest
  | error e =>
      cases left with
      | atRest atRest => exact not_atRest_random atRest

theorem LeavesTrace.delivered
    (left : LeavesTrace (.drawn number :: .operator depth .random stack :: earlier) result) :
    Delivered number stack result [.drawn number] := by
  cases result with
  | ok loaded => exact left.elim
  | error e =>
      cases left with
      | overflow full => exact .overflow full rfl
      | pushed room => exact .unused room rfl
      | atRest atRest => exact atRest.elim

/-- By what follows them, all operators that draw random numbers get theirs. -/
theorem InTurn.delivered (h : InTurn seed (later ++ .operator depth .random stack :: earlier))
    (left : LeavesTrace (later ++ .operator depth .random stack :: earlier) result) :
    Delivered (numberAfter seed earlier) stack result later := by
  -- the trace is read from the operator on: first its number, then whoever finds that
  rcases later.eq_nil_or_concat with rfl | ⟨following, entry, rfl⟩
  · exact absurd left not_leavesTrace_random
  simp only [List.concat_eq_append, List.append_assoc, List.singleton_append] at h left
  cases h.follows with
  | other atRest _ => exact absurd atRest not_atRest_random
  | number =>
      rcases following.eq_nil_or_concat with rfl | ⟨next, entry, rfl⟩
      · exact left.delivered
      simp only [List.concat_eq_append, List.append_assoc, List.singleton_append] at h ⊢
      cases h.follows with
      | other atRest _ => exact atRest.elim
      | reader room pushed => exact .found room pushed

end Loads

theorem Session.calm_initial (settings : LoadSettings) (hook : Option HintHook) :
    (Session.initial settings hook).Calm settings.randomSeed :=
  ⟨⟨rfl, trivial⟩, trivial⟩

/-- In a load, all programs share one stream of random numbers. -/
theorem load_streams (font : Font) (glyph : GlyphId) (settings : LoadSettings)
    (hook : Option HintHook) :
    let report := font.load glyph settings hook
    report.session.Streams settings.randomSeed ∧
      LeavesTrace report.session.trace report.result := by
  have outcome := Eval.loadGlyph_maintains settings.randomSeed font glyph settings
    (Session.calm_initial settings hook)
  simp only [Font.load]
  revert outcome
  generalize Eval.loadGlyph font glyph settings _ = result
  intro outcome
  cases outcome with
  | ok calm => exact ⟨calm.toStreams, calm.atRest⟩
  | error failed => exact ⟨failed.toStreams, failed.failed⟩

end Type2Glyphs
