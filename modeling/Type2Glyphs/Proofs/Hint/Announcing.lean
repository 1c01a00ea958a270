import Type2Glyphs.Proofs.GlyphRun
import Type2Glyphs.Proofs.Hint.Notes
import Type2Glyphs.Proofs.Law.Effect
import Type2Glyphs.Proofs.Law.Pair
import Type2Glyphs.Proofs.Operations

/-!
# Announcing — operators tell a hint hook what they announce

As long as the hint hook does not fail, what a step adds to the journal is what it adds to the
trace, as far as stems and masks go; `Eval.Announces` says so of a program.  An operator that
declares stems or has a mask is recorded before it tells anything, so it announces only as a whole:

* `Eval.announces_stem` and `Eval.announces_mask` for these operators;
* `Eval.announces_sighted` for the others that look for the width;
* `Eval.announces_recorded` for those that do neither.

A mask operator looks at no bytes but those of its mask, see `Eval.mask_take`.
-/

namespace Type2Glyphs

open Outcome Relation

variable {α β : Type}

/-! ## Sessions -/

/-- The tally of the program that a machine belongs to. -/
def Machine.tally (machine : Machine) : StemTally :=
  ⟨machine.widthSeen, machine.stemCount⟩

/-- The operands that an operator would declare as stems. -/
def Machine.stems (machine : Machine) : List Fixed :=
  machine.tally.values machine.stack

namespace Session

/-- There is a hint hook, and it never fails. -/
def Unfailing (s : Session) : Prop :=
  ∃ hook, s.hook = some hook ∧ ∀ calls, hook.failure calls = none

/-- What is added to the journal reports what is added to the trace. -/
def Tells (tallies tallies' : List StemTally) (totals totals' : List Nat) (s t : Session) : Prop :=
  s.Unfailing → ∃ events entries, s.Adds events entries t ∧
    Reports tallies tallies' totals totals' entries events

/-- What is added to the journal breaks off before all of it is told. -/
def Stops (tallies : List StemTally) (totals totals' : List Nat) (s t : Session) : Prop :=
  s.Unfailing → ∃ events entries, s.Adds events entries t ∧
    Breaks tallies totals totals' entries events

/-- What the steps of a glyph program do: its tally and the number of its values go together. -/
def Told (s t : Session) : Prop :=
  ∀ tallies totals, s.Tells (s.machine.tally :: tallies) (t.machine.tally :: tallies)
    (2 * s.machine.tally.stemCount :: totals) (2 * t.machine.tally.stemCount :: totals) t

/-- What the steps of a glyph program do that fails. -/
def Stopped (s t : Session) : Prop :=
  ∀ tallies totals, ∃ total, s.Stops (s.machine.tally :: tallies)
    (2 * s.machine.tally.stemCount :: totals) (total :: totals) t

variable {tallies tallies' tallies'' : List StemTally} {totals totals' totals'' : List Nat}
  {events : List LoadEvent} {entries : List TraceEntry} {s t u : Session}

theorem Adds.unfailing (h : s.Adds events entries t) (unfailing : s.Unfailing) : t.Unfailing := by
  obtain ⟨hook, hooked, answers⟩ := unfailing
  exact ⟨hook, h.hook.trans hooked, answers⟩

/-- An entry that was recorded first is added too. -/
theorem Adds.recorded {entry : TraceEntry} (h : (s.record entry).Adds events [] t) :
    s.Adds events [entry] t :=
  ⟨h.hook, h.journal, h.trace⟩

theorem Adds.noted (h : s.Adds events entries t) (event : LoadEvent) :
    s.Adds (event :: events) entries (t.note event) :=
  ⟨h.hook, congrArg (event :: ·) h.journal, h.trace⟩

theorem Tells.of_adds (h : s.Adds events entries t)
    (reports : Reports tallies tallies' totals totals' entries events) :
    s.Tells tallies tallies' totals totals' t :=
  fun _ => ⟨events, entries, h, reports⟩

theorem Stops.of_adds (h : s.Adds events entries t)
    (breaks : Breaks tallies totals totals' entries events) : s.Stops tallies totals totals' t :=
  fun _ => ⟨events, entries, h, breaks⟩

theorem Tells.of_quiet (h : s.Quiet t) : s.Tells tallies tallies totals totals t :=
  .of_adds h ⟨rfl, rfl, rfl, trivial⟩

theorem Tells.trans (first : s.Tells tallies tallies' totals totals' t)
    (next : t.Tells tallies' tallies'' totals' totals'' u) :
    s.Tells tallies tallies'' totals totals'' u := by
  intro unfailing
  obtain ⟨_, _, added, reports⟩ := first unfailing
  obtain ⟨_, _, added', reports'⟩ := next (added.unfailing unfailing)
  exact ⟨_, _, added.trans added', reports.trans reports'⟩

theorem Tells.stops (h : s.Tells tallies tallies' totals totals' t) :
    s.Stops tallies totals totals' t := by
  intro unfailing
  obtain ⟨_, _, added, reports⟩ := h unfailing
  exact ⟨_, _, added, reports.breaks⟩

theorem Tells.trans_stops (first : s.Tells tallies tallies' totals totals' t)
    (next : t.Stops tallies' totals' totals'' u) : s.Stops tallies totals totals'' u := by
  intro unfailing
  obtain ⟨_, _, added, reports⟩ := first unfailing
  obtain ⟨_, _, added', breaks⟩ := next (added.unfailing unfailing)
  exact ⟨_, _, added.trans added', reports.trans_breaks breaks⟩

/-- What follows a failure adds nothing to the trace. -/
theorem Stops.trans (first : s.Stops tallies totals totals' t) (h : t.Adds events [] u)
    (unnoted : notes events = []) (summed : forwarded totals' events = totals'')
    (fits : AllFit totals' events) : s.Stops tallies totals totals'' u := by
  intro unfailing
  obtain ⟨_, _, added, breaks⟩ := first unfailing
  refine ⟨_, _, added.trans h, ?_, ?_, ?_, ?_⟩
  · rw [notes_append, unnoted]
    exact breaks.told
  · rw [notes_append, unnoted]
    exact breaks.announced
  · rw [forwarded_append, breaks.summed, summed]
  · exact breaks.fits.append (breaks.summed ▸ fits)

theorem Stops.quiet (first : s.Stops tallies totals totals' t) (h : t.Quiet u) :
    s.Stops tallies totals totals' u :=
  first.trans h rfl rfl trivial

/-- Steps that have nothing to do with stems. -/
theorem Told.of_quiet (h : s.Quiet t) (same : t.machine.tally = s.machine.tally) : s.Told t := by
  intro _ _
  rw [same]
  exact .of_quiet h

theorem Told.trans (first : s.Told t) (next : t.Told u) : s.Told u :=
  fun tallies totals => (first tallies totals).trans (next tallies totals)

theorem Told.stopped (h : s.Told t) : s.Stopped t :=
  fun tallies totals => ⟨_, (h tallies totals).stops⟩

theorem Told.trans_stopped (first : s.Told t) (next : t.Stopped u) : s.Stopped u := by
  intro tallies totals
  obtain ⟨total, stops⟩ := next tallies totals
  exact ⟨total, (first tallies totals).trans_stops stops⟩

theorem Stopped.quiet (first : s.Stopped t) (h : t.Quiet u) : s.Stopped u := by
  intro tallies totals
  obtain ⟨total, stops⟩ := first tallies totals
  exact ⟨total, stops.quiet h⟩

end Session

namespace Eval

open Session

variable {s t : Session}

/-! ## Steps -/

/-- The steps of a program tell what they announce. -/
abbrev Announces (p : Eval α) : Prop :=
  Effects Told Stopped p

theorem announces_law : SequenceLaw fun {_} p => Announces p where
  pure _ := fun s => .ok (.of_quiet (.refl s) rfl)
  throw _ := fun s => .error (Told.of_quiet (.refl s) rfl).stopped
  bind first next := (first.bind next).mono (fun _ _ ⟨_, h, h'⟩ => h.trans h')
    fun _ _ failed => failed.elim id fun ⟨_, h, h'⟩ => h.trans_stopped h'

namespace Announces

theorem gets (part : Session → α) : Announces (Eval.gets part) :=
  fun s => .ok (.of_quiet (.refl s) rfl)

theorem mapMachine {f : Machine → Machine} (same : ∀ machine, (f machine).tally = machine.tally) :
    Announces (modify (Session.mapMachine f) : Eval PUnit) :=
  .change fun s => .of_quiet ⟨rfl, rfl, rfl⟩ (same s.machine)

theorem mapDraft (f : Draft → Draft) : Announces (modify (Session.mapDraft f) : Eval PUnit) :=
  .change fun _ => .of_quiet ⟨rfl, rfl, rfl⟩ rfl

theorem onDraft (program : Draft.Program α) : Announces (Eval.onDraft program) := by
  intro s
  have drawn : ∀ draft, s.Told { s with draft } := fun _ => .of_quiet ⟨rfl, rfl, rfl⟩ rfl
  rw [onDraft_apply]
  cases program s.draft with
  | ok a draft => exact .ok (drawn draft)
  | error e draft => exact .error (drawn draft).stopped

theorem clearStack : Announces Eval.clearStack :=
  .mapMachine fun _ => rfl

theorem changeStack (f : OperandStack → Except StackFault OperandStack) :
    Announces (Eval.changeStack f) :=
  announces_law.bind (.gets _) fun _ => announces_law.bind (announces_law.lift _) fun _ =>
    .mapMachine fun _ => rfl

theorem popOperand (f : OperandStack → Except StackFault (α × OperandStack)) :
    Announces (Eval.popOperand f) :=
  announces_law.bind (.gets _) fun _ => announces_law.bind (announces_law.lift _) fun _ =>
    announces_law.bind (.mapMachine fun _ => rfl) fun _ => announces_law.pure _

theorem moveBy (d : Point) : Announces (Eval.moveBy d) :=
  announces_law.bind (.mapMachine fun _ => rfl) fun _ =>
    announces_law.bind (.gets _) fun _ => .onDraft _

theorem ensureOpen : Announces Eval.ensureOpen := by
  refine announces_law.bind (.gets _) fun isOpen => ?_
  split
  · exact announces_law.bind (.gets _) fun _ => .onDraft _
  · exact announces_law.pure _

theorem drawSegment (segment : Segment) : Announces (Eval.drawSegment segment) := by
  refine announces_law.bind (.gets _) fun p => ?_
  cases segment with
  | line d => exact announces_law.bind (.mapMachine fun _ => rfl) fun _ => .onDraft _
  | curve d₁ d₂ d₃ => exact announces_law.bind (.mapMachine fun _ => rfl) fun _ => .onDraft _

theorem path (op : PathOp) : Announces (Eval.path op) :=
  announces_law.bind (.gets _) fun _ => announces_law.bind (announces_law.lift _) fun _ =>
    announces_law.bind .ensureOpen fun _ =>
      announces_law.bind (announces_law.forM fun segment => .drawSegment segment) fun _ =>
        .clearStack

theorem put : Announces Eval.put :=
  announces_law.bind (.popOperand _) fun _ => announces_law.bind (.popOperand _) fun _ =>
    announces_law.bind (announces_law.transientIndex _) fun _ => .mapMachine fun _ => rfl

theorem fetch : Announces Eval.fetch :=
  announces_law.bind (.popOperand _) fun _ =>
    announces_law.bind (announces_law.transientIndex _) fun _ =>
      announces_law.bind (.gets _) fun _ => .changeStack _

theorem drawn (number : Fixed) :
    Announces (modify (Session.record (.drawn number)) : Eval PUnit) := by
  refine Effects.change fun s tallies totals => ?_
  have added : s.Adds [] [.drawn number] (s.record (.drawn number)) := ⟨rfl, rfl, rfl⟩
  exact .of_adds added ⟨rfl, rfl, rfl, trivial⟩

theorem random : Announces Eval.random := by
  have next : Announces (modify fun s : Session => { s with random := nextRandom s.random }) :=
    .change fun _ => .of_quiet ⟨rfl, rfl, rfl⟩ rfl
  exact announces_law.bind next fun _ => announces_law.bind (.gets _) fun _ =>
    announces_law.bind (.drawn _) fun _ => .changeStack _

theorem popAccent (bearing : Fixed) : Announces (Eval.popAccent bearing) :=
  announces_law.bind (.popOperand _) fun _ => announces_law.bind (.popOperand _) fun _ =>
    announces_law.bind (.popOperand _) fun _ => announces_law.bind (.popOperand _) fun _ =>
      announces_law.pure _

theorem setLeftBearing (frame : Frame) (bearing : Fixed) :
    Announces (Eval.setLeftBearing frame bearing) := by
  intro s
  rw [setLeftBearing_apply]
  exact .ok (.of_quiet ⟨rfl, rfl, rfl⟩ rfl)

end Announces

/-! ## Operators -/

section Operators

variable {depth : Nat} {op : Operator} {p : Eval α}

/-- An operator that does not count for stems is only recorded. -/
theorem announces_recorded (plain : ∀ tally stack, StemTally.after tally stack op = tally)
    (silent : ∀ tally stack, StemTally.announces tally stack op = []) (h : Announces p) :
    Announces (traced depth op p) := by
  have recorded : Announces (modify fun s : Session =>
      s.record (.operator depth op s.machine.stack)) := by
    refine Effects.change fun s tallies totals => ?_
    have added : s.Adds [] [.operator depth op s.machine.stack]
        (s.record (.operator depth op s.machine.stack)) := ⟨rfl, rfl, rfl⟩
    refine .of_adds added ⟨?_, ?_, rfl, trivial⟩
    · exact (congrArg (· ++ []) (silent _ _)).symm
    · exact congrArg (· :: tallies) (plain _ _)
  exact announces_law.bind recorded fun _ => h

/-- A program that looks for the width is run for an operator that does so. -/
theorem announces_sighted {k : α → Eval β}
    (sees : ∀ tally stack, StemTally.after tally stack op = { tally with widthSeen := true })
    (silent : ∀ tally stack, StemTally.announces tally stack op = [])
    (first : ∀ s, ∃ a t, p s = .ok a t ∧ s.Quiet t ∧
      t.machine.tally = { s.machine.tally with widthSeen := true })
    (next : ∀ a, Announces (k a)) : Announces (traced depth op (p >>= k)) := by
  intro s
  obtain ⟨a, t, run, quiet, seen⟩ := first (s.record (.operator depth op s.machine.stack))
  have told : s.Told t := by
    intro tallies totals
    have added : s.Adds [] [.operator depth op s.machine.stack] t :=
      ⟨quiet.hook, quiet.journal, quiet.trace⟩
    refine .of_adds added ⟨?_, ?_, ?_, trivial⟩
    · exact (congrArg (· ++ []) (silent _ _)).symm
    · exact congrArg (· :: tallies) ((sees _ _).trans seen.symm)
    · rw [seen]
      rfl
  rw [traced_apply, bind_ok run]
  exact (next a t).mono (fun u h => told.trans h) fun u h => told.trans_stopped h

end Operators

/-- The operands are taken with the width or without it, and it is not looked for any more. -/
theorem takeOperands_sees (extra : Nat → Bool) (s : Session) :
    ∃ t, takeOperands extra s =
        .ok (if !s.machine.widthSeen && extra s.machine.stack.size then
          s.machine.stack.operands.tail else s.machine.stack.operands) t ∧
      s.Quiet t ∧ t.machine.tally = { s.machine.tally with widthSeen := true } := by
  rw [takeOperands_apply]
  cases sighted : s.machine.widthSeen with
  | true => exact ⟨s, rfl, .refl s, by simp only [Machine.tally, sighted]⟩
  | false =>
      simp only [Bool.false_eq_true, if_false, Bool.not_false, Bool.true_and]
      split
      · exact ⟨_, rfl, ⟨rfl, rfl, rfl⟩, rfl⟩
      · exact ⟨_, rfl, ⟨rfl, rfl, rfl⟩, rfl⟩

/-- Operands are taken for an operator that looks for the width. -/
theorem announces_taken {depth : Nat} {op : Operator} {extra : Nat → Bool}
    {k : List Fixed → Eval β}
    (sees : ∀ tally stack, StemTally.after tally stack op = { tally with widthSeen := true })
    (silent : ∀ tally stack, StemTally.announces tally stack op = [])
    (next : ∀ values, Announces (k values)) :
    Announces (traced depth op (takeOperands extra >>= k)) :=
  announces_sighted sees silent (fun s => ⟨_, takeOperands_sees extra s⟩) next

theorem announces_move (depth : Nat) (op : MoveOp) :
    Announces (traced depth (.move op) (move op)) :=
  announces_taken (fun _ _ => rfl) (fun _ _ => rfl) fun _ =>
    announces_law.bind (announces_law.lift _) fun _ => announces_law.bind (.moveBy _) fun _ =>
      .clearStack

/-! ## Stems and masks -/

section Stems

/-- The operands of stems are taken in pairs, or not at all. -/
theorem takeStems_apply (op : Operator) (s : Session) : ∃ t, s.Quiet t ∧
    t.machine.tally = { s.machine.tally with widthSeen := true } ∧
    takeStems op s = if s.machine.stems.length % 2 = 1 then
      .error (.charstring (.operandCount op)) t else .ok s.machine.stems t := by
  obtain ⟨t, run, quiet, seen⟩ := takeOperands_sees (fun count => count % 2 = 1) s
  refine ⟨t, quiet, seen, ?_⟩
  -- what was taken are the operands that an operator would declare
  have taken : takeOperands (fun count => count % 2 = 1) s = .ok s.machine.stems t := run
  simp only [takeStems]
  rw [bind_ok taken]
  split <;> rfl

/-- No bytes but those of the mask are read. -/
theorem readMask_take (op : MaskOp) (unread : Bytes) (s : Session) :
    readMask op (unread.take s.machine.tally.maskSize) s = readMask op unread s := by
  have same : ∀ (size : Nat), ((unread.take size).take size) = unread.take size := by
    intro size
    rw [List.take_take, Nat.min_self]
  simp only [readMask, Bytes.split?, bind_ok (gets_apply s), Machine.tally, StemTally.maskSize,
    same]
  split
  · rfl
  · rfl

/-- Nothing is said of a hook that can fail. -/
theorem ends_of_failing (failing : ¬ s.Unfailing) (result : EStateM.Result LoadError Session α) :
    Ends s.Told s.Stopped result := by
  cases result with
  | ok a t => exact .ok fun _ _ unfailing => absurd unfailing failing
  | error e t => exact .error fun _ _ => ⟨0, fun unfailing => absurd unfailing failing⟩

variable (unfailing : s.Unfailing)

include unfailing

theorem callHook_of_unfailing (call : HintCall) :
    callHook call s = .ok () (s.note (.hinted call)) := by
  obtain ⟨hook, hooked, answers⟩ := unfailing
  simp only [callHook_apply, hooked, answers]

theorem declareStems_apply (direction : StemDirection) (values : List Fixed) :
    ∃ t, declareStems direction values s = .ok () t ∧
      s.Adds [.hinted (.stems direction values)] [] t ∧
      t.machine.tally =
        ⟨s.machine.tally.widthSeen, s.machine.tally.stemCount + values.length / 2⟩ := by
  -- stems are counted before the hook hears of them, which makes no difference to it
  have counted : (s.mapMachine fun machine =>
      { machine with stemCount := machine.stemCount + values.length / 2 }).Unfailing := unfailing
  exact ⟨_, (bind_ok (modify_apply _ s) _).trans (callHook_of_unfailing counted _),
    ⟨rfl, rfl, rfl⟩, rfl⟩

/-- Stems are declared in pairs and passed on, or nothing is done. -/
theorem stem_apply (op : StemOp) :
    (∃ e t, stem op s = .error e t ∧ s.Quiet t) ∨
      s.machine.stems.length % 2 = 0 ∧ ∃ t, stem op s = .ok () t ∧
        s.Adds [.hinted (.stems op.direction s.machine.stems)] [] t ∧
        t.machine.tally = s.machine.tally.declare s.machine.stack := by
  obtain ⟨t, quiet, seen, taken⟩ := takeStems_apply (.stem op) s
  simp only [stem]
  by_cases odd : s.machine.stems.length % 2 = 1
  · exact .inl ⟨_, t, bind_error (taken.trans (if_pos odd)) _, quiet⟩
  · obtain ⟨u, declared, added, counted⟩ :=
      declareStems_apply (quiet.unfailing unfailing) op.direction s.machine.stems
    have all := quiet.trans added
    refine .inr ⟨by omega, _, (bind_ok (taken.trans (if_neg odd)) _).trans (bind_ok declared _),
      ⟨all.hook, all.journal, all.trace⟩, ?_⟩
    exact counted.trans (by rw [seen]; rfl)

/-- The operands that are left are declared in pairs and passed on before a mask is read, or nothing
is done. -/
theorem mask_apply (op : MaskOp) :
    (∃ e t, s.Quiet t ∧ ∀ unread, mask op unread s = .error e t) ∨
      s.machine.stems.length % 2 = 0 ∧ ∃ t,
        s.Adds ((s.machine.tally.implied s.machine.stack).map LoadEvent.hinted) [] t ∧
        t.machine.tally = s.machine.tally.declare s.machine.stack ∧
        ∀ unread, mask op unread s = readMask op unread t := by
  obtain ⟨t, quiet, seen, taken⟩ := takeStems_apply (.mask op) s
  by_cases odd : s.machine.stems.length % 2 = 1
  · exact .inl ⟨_, t, quiet, fun unread => bind_error (taken.trans (if_pos odd)) _⟩
  refine .inr ⟨by omega, ?_⟩
  have again : ∀ unread, mask op unread s = _ := fun _ => bind_ok (taken.trans (if_neg odd)) _
  -- without operands the hook is not told of stems at all, not even of none
  by_cases none : s.machine.stems = []
  · have unsaid : s.machine.tally.implied s.machine.stack = [] := if_pos none
    refine ⟨t, unsaid ▸ quiet, seen.trans (StemTally.declare_of_none none).symm, ?_⟩
    intro unread
    rw [again]
    simp only [none]
    rfl
  · obtain ⟨u, declared, added, counted⟩ :=
      declareStems_apply (quiet.unfailing unfailing) .vertical s.machine.stems
    have said : s.machine.tally.implied s.machine.stack = [.stems .vertical s.machine.stems] :=
      if_neg none
    refine ⟨u, said ▸ quiet.trans added, counted.trans (by rw [seen]; rfl), ?_⟩
    intro unread
    rw [again]
    simp only [ne_eq, none, not_false_eq_true, if_true]
    exact bind_ok declared _

/-- A mask is as long as the stems so far demand, or the program ends too early. -/
theorem readMask_apply (op : MaskOp) (unread : Bytes) :
    readMask op unread s =
      let size := s.machine.tally.maskSize
      if (unread.take size).length = size then
        .ok size ((s.note (.hinted (op.call (unread.take size)))).mapMachine fun machine =>
          { machine with stack := .empty })
      else
        .error (.charstring .unexpectedEnd) s := by
  simp only [readMask, Bytes.split?, bind_ok (gets_apply s), Machine.tally, StemTally.maskSize]
  by_cases long : (unread.take ((s.machine.stemCount + 7) / 8)).length =
      (s.machine.stemCount + 7) / 8
  · simp only [if_pos long]
    exact (bind_ok (callHook_of_unfailing unfailing _) _).trans (if_pos long).symm
  · simp only [if_neg long]
    exact (if_neg long).symm

/-- A mask operator reads no more bytes than there are for the stems declared up to then, those that
it implies among them, and passes all of these on. -/
theorem mask_take (op : MaskOp) (unread : Bytes) :
    let size := (s.machine.tally.declare s.machine.stack).maskSize
    mask op (unread.take size) s = mask op unread s ∧
      ∀ used t, mask op unread s = .ok used t →
        used = size ∧ size ≤ unread.length ∧
          t.hintCalls.head? = some (op.call (unread.take size)) := by
  intro size
  rcases mask_apply unfailing op with ⟨e, t, _, failed⟩ | ⟨_, t, added, counted, read⟩
  · refine ⟨by rw [failed, failed], ?_⟩
    intro used u run
    cases (failed unread).symm.trans run
  · have sized : t.machine.tally.maskSize = size := congrArg StemTally.maskSize counted
    refine ⟨?_, ?_⟩
    · rw [read, read, ← sized, readMask_take]
    · intro used u run
      rw [read, readMask_apply (added.unfailing unfailing), sized] at run
      dsimp only at run
      split at run
      · next long =>
          cases run
          rw [List.length_take] at long
          exact ⟨rfl, by omega, rfl⟩
      · cases run

end Stems

theorem announces_stem (depth : Nat) (op : StemOp) :
    Announces (traced depth (.stem op) (stem op)) := by
  intro s
  by_cases unfailing : s.Unfailing
  case neg => exact ends_of_failing unfailing _
  have heard : (s.record (.operator depth (.stem op) s.machine.stack)).Unfailing := unfailing
  rw [traced_apply]
  rcases stem_apply heard op with ⟨e, t, run, added⟩ | ⟨even, t, run, added, counted⟩
  · rw [run]
    exact .error fun tallies totals => ⟨_, .of_adds added.recorded (.silent _ _)⟩
  · rw [run]
    refine .ok fun tallies totals => .of_adds added.recorded ?_
    rw [counted]
    exact .stem even op

theorem announces_mask (depth : Nat) (op : MaskOp) (unread : Bytes) :
    Announces (traced depth (.mask op) (mask op unread)) := by
  intro s
  by_cases unfailing : s.Unfailing
  case neg => exact ends_of_failing unfailing _
  have heard : (s.record (.operator depth (.mask op) s.machine.stack)).Unfailing := unfailing
  rw [traced_apply]
  -- a mask can fail before its stems are declared, or after that where the program ends
  rcases mask_apply heard op with ⟨e, t, added, run⟩ | ⟨even, t, added, counted, run⟩
  · rw [run]
    exact .error fun tallies totals => ⟨_, .of_adds added.recorded (.silent _ _)⟩
  · rw [run, readMask_apply (added.unfailing heard)]
    dsimp only
    split
    · next long =>
        have last := added.recorded.noted (.hinted (op.call
          (unread.take t.machine.tally.maskSize)))
        refine .ok fun tallies totals => .of_adds ⟨last.hook, last.journal, last.trace⟩ ?_
        show Reports _ (t.machine.tally :: tallies) _ (2 * t.machine.tally.stemCount :: totals) _ _
        rw [counted]
        exact .mask even op (by rw [← counted]; exact long)
    · exact .error fun tallies totals => ⟨_, .of_adds added.recorded (.implied even op)⟩

/-! ## All operators that run no other program -/

/-- Operators that run no other program announce what they tell. -/
theorem announces_alone {font : Font} {limit : Nat} {nested : Option Evaluator} {frame : Frame}
    {op : Operator} (alone : op.nests = false) (depth : Nat) (unread : Bytes) :
    Announces (traced depth op (execute font limit nested frame op unread)) := by
  have proceeds : ∀ {α : Type} {p : Eval α} {flow : α → Flow}, Announces (traced depth op p) →
      Announces (traced depth op (p >>= fun a => pure (flow a))) := by
    intro _ p flow h
    rw [traced_bind]
    exact announces_law.bind h fun _ => announces_law.pure _
  cases op with
  | stem op => exact proceeds (announces_stem depth op)
  | mask op => exact proceeds (announces_mask depth op unread)
  | move op => exact proceeds (announces_move depth op)
  | path op => exact proceeds (announces_recorded (fun _ _ => rfl) (fun _ _ => rfl) (.path op))
  | stack op =>
      exact proceeds (announces_recorded (fun _ _ => rfl) (fun _ _ => rfl) (.changeStack _))
  | put => exact proceeds (announces_recorded (fun _ _ => rfl) (fun _ _ => rfl) .put)
  | get => exact proceeds (announces_recorded (fun _ _ => rfl) (fun _ _ => rfl) .fetch)
  | random => exact proceeds (announces_recorded (fun _ _ => rfl) (fun _ _ => rfl) .random)
  | dotsection =>
      exact proceeds (announces_recorded (fun _ _ => rfl) (fun _ _ => rfl) .clearStack)
  | ret => exact announces_recorded (fun _ _ => rfl) (fun _ _ => rfl) (announces_law.pure _)
  | _ => cases alone

end Eval

end Type2Glyphs
