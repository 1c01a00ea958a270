import Type2Glyphs.Proofs.Random.Stream

/-!
# Seeds — what the seed of a load makes a difference to

The seed makes a difference by the operators that draw random numbers, and by nothing else.  A
program that comes to its end without such an operator comes to the same with other random numbers:
this is `Indifferent`, which is kept from step to step, since the trace only grows.

`load_random` has both for loads: the numbers that are drawn, and that without any the seed does not
matter.
-/

namespace Type2Glyphs

open Outcome

variable {α β : Type}

/-- If no random number is drawn, the program comes to the same with other random numbers. -/
structure Indifferent (p : Eval α) : Prop where
  grows : ∀ s, randomCount s.trace ≤ randomCount (finalSession (p s)).trace
  same : ∀ s, randomCount (finalSession (p s)).trace = randomCount s.trace →
    ∀ random, p { s with random } = withRandom random (p s)

namespace Indifferent

open Eval

variable {font : Font} {limit levels depth : Nat} {nested : Option Evaluator}
  {evaluate : Evaluator} {frame : Frame}

theorem bind {p : Eval α} {k : α → Eval β} (first : Indifferent p)
    (next : ∀ a, Indifferent (k a)) : Indifferent (p >>= k) where
  grows s := by
    have grown := first.grows s
    simp only [bind_apply]
    revert grown
    generalize p s = result
    intro grown
    cases result with
    | ok a t => exact Nat.le_trans grown ((next a).grows t)
    | error e t => exact grown
  same s kept random := by
    have grown := first.grows s
    have same := first.same s
    simp only [bind_apply] at kept ⊢
    revert kept grown same
    generalize p s = result
    intro kept grown same
    cases result with
    | error e t =>
        rw [same kept random]
        rfl
    | ok a t =>
        -- the count in between is squeezed, so neither program has drawn a number
        have later : randomCount t.trace ≤ randomCount (finalSession (k a t)).trace :=
          (next a).grows t
        have kept' : randomCount (finalSession (k a t)).trace = randomCount s.trace := kept
        have grown' : randomCount s.trace ≤ randomCount t.trace := grown
        have first : randomCount t.trace = randomCount s.trace := by omega
        rw [same first random]
        exact (next a).same t (by omega) random

theorem blindLaw : BlindLaw fun {_} p => Indifferent p where
  blind {_ p} blind := by
    refine ⟨fun s => ?_, fun s _ => blind.reseeded s⟩
    exact Nat.le_of_eq (congrArg randomCount (blind.keeps s).2.symm)
  bind := bind
  andFinally {_ p f} body last := by
    have final : ∀ s, (finalSession (andFinally p f s)).trace = (finalSession (p s)).trace := by
      intro s
      simp only [andFinally]
      cases p s with
      | ok a t => exact (last.keeps t).2
      | error e t => exact (last.keeps t).2
    refine ⟨fun s => ?_, fun s kept random => ?_⟩
    · rw [final]
      exact body.grows s
    · rw [final] at kept
      simp only [andFinally]
      rw [body.same s kept random]
      have changed : ∀ t : Session, f { t with random } = { f t with random } := by
        intro t
        have outcome := last.reseeded t random
        exact (EStateM.Result.ok.inj outcome).2
      cases p s with
      | ok a t => exact congrArg (EStateM.Result.ok a) (changed t)
      | error e t => exact congrArg (EStateM.Result.error e) (changed t)

theorem record (depth : Nat) (op : Operator) :
    Indifferent (modify fun s : Session =>
      s.record (.operator depth op s.machine.stack) : Eval PUnit) where
  grows _ := (List.sublist_cons_self _ _).countP_le
  same _ _ _ := rfl

theorem traced {p : Eval α} (h : Indifferent p) (depth : Nat) (op : Operator) :
    Indifferent (traced depth op p) :=
  (record depth op).bind fun _ => h

/-- An operator that draws a random number counts, so nothing is said of what it comes to. -/
theorem random (depth : Nat) (unread : Bytes) :
    Indifferent (Eval.traced depth .random
      (Eval.execute font limit nested frame .random unread)) := by
  have count : ∀ s, randomCount (finalSession (Eval.traced depth .random
      (Eval.execute font limit nested frame .random unread) s)).trace =
        randomCount s.trace + 1 := by
    intro s
    have recorded : ∀ number, randomCount
        (.drawn number :: .operator depth .random s.machine.stack :: s.trace) =
          randomCount s.trace + 1 := by
      intro number
      rw [randomCount_of_steady rfl, randomCount_random]
    rw [traced_apply, execute_random]
    split
    · exact recorded _
    · exact recorded _
  refine ⟨fun s => ?_, fun s kept => ?_⟩
  · rw [count]
    omega
  · rw [count] at kept
    omega

theorem alone {op : Operator} (alone : op.nests = false) (unread : Bytes) :
    Indifferent (Eval.traced depth op (Eval.execute font limit nested frame op unread)) := by
  by_cases drawn : op = .random
  · rw [drawn]
    exact random depth unread
  · exact (blindLaw.blind (.execute alone drawn unread)).traced depth op

theorem runProgram {program : Bytes} (body : Indifferent (evaluate frame program)) :
    Indifferent (runProgram evaluate frame program) := by
  -- the entries around a program are no operators
  have started : ∀ s : Session, randomCount ({ s with machine := {} }.record .start).trace =
      randomCount s.trace := fun _ => randomCount_of_steady rfl _
  have final : ∀ s, randomCount (finalSession (Eval.runProgram evaluate frame program s)).trace =
      randomCount (finalSession (evaluate frame program
        ({ s with machine := {} }.record .start))).trace := by
    intro s
    rw [runProgram_apply]
    cases evaluate frame program ({ s with machine := {} }.record .start) with
    | error e t => rfl
    | ok ending t =>
        dsimp only
        split
        · exact randomCount_of_steady rfl _
        · rfl
  refine ⟨fun s => ?_, fun s kept random => ?_⟩
  · rw [final, ← started s]
    exact body.grows _
  · rw [final, ← started s] at kept
    -- the program starts on the same machine, whatever the random numbers are
    have same : evaluate frame program ({ s with random, machine := {} }.record .start) =
        withRandom random (evaluate frame program ({ s with machine := {} }.record .start)) :=
      body.same _ kept random
    rw [runProgram_apply, runProgram_apply, same]
    cases evaluate frame program ({ s with machine := {} }.record .start) with
    | error e t => rfl
    | ok ending t =>
        rcases ending with ⟨_ | _, unread⟩
        · rfl
        · rfl

theorem pairLaw (font : Font) (limit : Nat) :
    PairLaw font font limit (fun _ _ => True) fun {_} _ p _ => Indifferent p where
  globalSubrs := rfl
  deeper _ := trivial
  pure := blindLaw.readingLaw.pure
  throw := blindLaw.readingLaw.throw
  bind first next _ := bind first next
  push _ := blindLaw.readingLaw.push _
  missing depth e := (blindLaw.readingLaw.throw e).traced depth _
  popped depth _ _ := blindLaw.readingLaw.popInt.traced depth _
  alone nests _ unread := alone nests unread
  endchar _ below :=
    (blindLaw.endchar fun _ nested _ _ => (below.evaluator nested _ _).runProgram).traced _ _
  seac _ below :=
    (blindLaw.seac fun _ nested _ _ => (below.evaluator nested _ _).runProgram).traced _ _

theorem loadGlyph (font : Font) (glyph : GlyphId) (settings : LoadSettings) :
    Indifferent (Eval.loadGlyph font glyph settings) :=
  blindLaw.loadGlyph (fun _ _ => ((pairLaw _ _).evaluate trivial _).runProgram) glyph

end Indifferent

/-! ## Loads -/

/-- A load that draws no random number is the same with every seed, but for the state of the random
numbers itself. -/
theorem load_reseeded {font : Font} {glyph : GlyphId} {settings : LoadSettings}
    {hook : Option HintHook}
    (none : randomCount (font.load glyph settings hook).session.trace = 0) (seed : UInt32) :
    font.load glyph { settings with randomSeed := seed } hook =
      let report := font.load glyph settings hook
      ⟨report.result, { report.session with random := seed }⟩ := by
  have final : (font.load glyph settings hook).session =
      finalSession (Eval.loadGlyph font glyph settings (.initial settings hook)) := by
    simp only [Font.load]
    cases Eval.loadGlyph font glyph settings (.initial settings hook) <;> rfl
  rw [final] at none
  -- of the settings, only the initial session knows the seed
  have initial : Session.initial { settings with randomSeed := seed } hook =
      { Session.initial settings hook with random := seed } := rfl
  have loading : Eval.loadGlyph font glyph { settings with randomSeed := seed } =
      Eval.loadGlyph font glyph settings := rfl
  have same := (Indifferent.loadGlyph font glyph settings).same (.initial settings hook) none seed
  simp only [Font.load]
  rw [loading, initial, same]
  cases Eval.loadGlyph font glyph settings (.initial settings hook) <;> rfl

/-- The seed of a load begins a stream of random numbers above zero and at most one.  Whatever
program they stand in, the operators that draw random numbers get the numbers of the stream in turn:
the operator pushes the number after those that the operators before it got, unless there is no room
on its stack, and the next operator finds it there.  A load without such an operator is the same
with every seed, and all that it leaves in its session is, but for the state of the stream. -/
theorem load_random (font : Font) (glyph : GlyphId) (settings : LoadSettings)
    (hook : Option HintHook) :
    let seed := settings.randomSeed
    let report := font.load glyph settings hook
    randomState seed 0 = seed ∧
    (∀ i, (randomState seed (i + 1)).toNat =
      ((randomState seed i).toNat * 1103515245 + 12345) % 4294967296) ∧
    (∀ i, let number := randomNumber (randomState seed i)
      number.raw = ((randomState seed i >>> 16) &&& 0xFFFF).toNat + 1 ∧
        0 < number ∧ number ≤ 1) ∧
    (∀ later depth stack earlier,
      report.session.trace = later ++ .operator depth .random stack :: earlier →
        Delivered (randomNumber (randomState seed (randomCount earlier + 1))) stack report.result
          later) ∧
    report.session.random = randomState seed (randomCount report.session.trace) ∧
    (∀ limit nested frame unread (s : Session),
      let number := randomNumber (nextRandom s.random)
      let drawn := { s with random := nextRandom s.random }.record (.drawn number)
      Eval.execute font limit nested frame .random unread s =
        if s.machine.stack.size < maxOperands then
          .ok (.proceed 0) (drawn.mapMachine fun machine =>
            { machine with stack := ⟨.fixed number :: machine.stack.entries⟩ })
        else
          .error (.stack .overflow) drawn) ∧
    (randomCount report.session.trace = 0 → ∀ seed' : UInt32,
      font.load glyph { settings with randomSeed := seed' } hook =
        ⟨report.result, { report.session with random := seed' }⟩) := by
  intro seed report
  obtain ⟨streams, left⟩ := load_streams font glyph settings hook
  refine ⟨rfl, ?_, ?_, ?_, streams.random, Eval.execute_random font, load_reseeded⟩
  · intro i
    rw [randomState_succ, toNat_nextRandom]
  · intro i
    exact ⟨raw_randomNumber_bits _, randomNumber_pos _, randomNumber_le_one _⟩
  · intro later depth stack earlier split
    have inTurn : InTurn seed report.session.trace := streams.inTurn
    have left' : LeavesTrace report.session.trace report.result := left
    rw [split] at inTurn left'
    exact inTurn.delivered left'

/-- A font of three glyphs: an accented one that draws a random number and calls a subroutine that
draws one, a base that moves by a random number, and an accent without any. -/
def Font.dicey : Font where
  glyphs := .ofList
    [some [12, 23, 32, 29, 12, 18, 12, 18, 139, 139, 140, 141, 14], some [12, 23, 22, 14],
      some [14]]
  globalSubrs := ⟨1, 1, [1, 4], [12, 23, 11]⟩
  subfonts := [{}]

theorem load_random_dicey :
    (∃ loaded, (Font.dicey.load ⟨0⟩ { randomSeed := 7 } none).result = .ok loaded) ∧
      (Font.dicey.load ⟨0⟩ { randomSeed := 7 } none).session.random = randomState 7 3 ∧
      (∃ later earlier, (Font.dicey.load ⟨0⟩ { randomSeed := 7 } none).session.trace =
          later ++ .operator 1 .random .empty :: earlier ∧
        Delivered (randomNumber (randomState 7 3)) .empty
          (Font.dicey.load ⟨0⟩ { randomSeed := 7 } none).result later) ∧
      Font.dicey.load ⟨2⟩ { randomSeed := 9 } none =
        let report := Font.dicey.load ⟨2⟩ { randomSeed := 7 } none
        ⟨report.result, { report.session with random := 9 }⟩ := by
  obtain ⟨-, -, -, delivered, ends, -⟩ := load_random Font.dicey ⟨0⟩ { randomSeed := 7 } none
  obtain ⟨-, -, -, -, -, -, reseeded⟩ := load_random Font.dicey ⟨2⟩ { randomSeed := 7 } none
  refine ⟨ok_of_isOk (by decide +kernel), ?_, ?_, reseeded (by decide +kernel) 9⟩
  · have all : randomCount (Font.dicey.load ⟨0⟩ { randomSeed := 7 } none).session.trace = 3 := by
      decide +kernel
    rw [all] at ends
    exact ends
  · -- the base is a component, so its operator is nested below the one that composes the glyph
    have split : (Font.dicey.load ⟨0⟩ { randomSeed := 7 } none).session.trace =
        (Font.dicey.load ⟨0⟩ { randomSeed := 7 } none).session.trace.take 8 ++
          .operator 1 .random .empty ::
            (Font.dicey.load ⟨0⟩ { randomSeed := 7 } none).session.trace.drop 9 := by
      decide +kernel
    have second : randomCount
        ((Font.dicey.load ⟨0⟩ { randomSeed := 7 } none).session.trace.drop 9) = 2 := by
      decide +kernel
    have third := delivered _ _ _ _ split
    rw [second] at third
    exact ⟨_, _, split, third⟩

end Type2Glyphs
