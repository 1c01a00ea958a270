import Type2Glyphs.Load.Session

/-!
# Notes — stems and masks in the two records of a session

The journal lists what a hint hook is told, and the trace lists the operators that were evaluated.
Of stems and masks, each says what the other one has to contain.

* `announced` reads the trace alone: what the operators of glyph programs tell, by their operands
  and by the stems before them.  Every glyph and component counts its own stems.
* `forwarded` reads the journal alone: how many values were passed on for each program that is
  fetched and not yet released.  A mask has one bit for two of them.

Both records have the latest entry first, and so has what is read from them.
-/

namespace Type2Glyphs

/-! ## What a hint hook is told -/

/-- Stems that are passed on, or a mask of so many bytes. -/
inductive HintNote
  | stems (direction : StemDirection) (values : List Fixed)
  | mask (op : MaskOp) (size : Nat)
  deriving DecidableEq

/-- What a call says of stems or masks. -/
def HintCall.note? : HintCall → Option HintNote
  | .stems direction values => some (.stems direction values)
  | .hintMask bits => some (.mask .hintmask bits.length)
  | .counterMask bits => some (.mask .cntrmask bits.length)
  | _ => none

/-- What the entries of a journal say of stems and masks. -/
def notes (events : List LoadEvent) : List HintNote :=
  (events.filterMap LoadEvent.call?).filterMap HintCall.note?

theorem notes_append (events earlier : List LoadEvent) :
    notes (events ++ earlier) = notes events ++ notes earlier := by
  simp only [notes, List.filterMap_append]

/-! ## Operators -/

/-- What counts for the hints of a glyph program: whether its width was looked for, and how many
stems it has declared. -/
structure StemTally where
  widthSeen : Bool := false
  stemCount : Nat := 0
  deriving DecidableEq

namespace StemTally

/-- The number of bytes of a mask. -/
def maskSize (tally : StemTally) : Nat :=
  (tally.stemCount + 7) / 8

/-- The operands of an operator that declares stems.  Stems come in pairs, so an odd operand at the
bottom is the width, unless this was looked for before. -/
def values (tally : StemTally) (stack : OperandStack) : List Fixed :=
  if !tally.widthSeen && stack.size % 2 = 1 then stack.operands.tail else stack.operands

/-- The tally after all operands were declared as stems. -/
def declare (tally : StemTally) (stack : OperandStack) : StemTally :=
  ⟨true, tally.stemCount + (tally.values stack).length / 2⟩

theorem declare_of_none {tally : StemTally} {stack : OperandStack}
    (none : tally.values stack = []) : tally.declare stack = { tally with widthSeen := true } := by
  rw [declare, none]
  rfl

/-- The tally after an operator. -/
def after (tally : StemTally) (stack : OperandStack) : Operator → StemTally
  | .stem _ | .mask _ => tally.declare stack
  | .move _ | .endchar | .seac => { tally with widthSeen := true }
  | _ => tally

/-- The stems that a mask declares before it is read, if operands are left. -/
def implied (tally : StemTally) (stack : OperandStack) : List HintCall :=
  if tally.values stack = [] then [] else [.stems .vertical (tally.values stack)]

/-- What an operator announces. -/
def announces (tally : StemTally) (stack : OperandStack) : Operator → List HintNote
  | .stem op => [.stems op.direction (tally.values stack)]
  | .mask op =>
      .mask op (tally.declare stack).maskSize :: (tally.implied stack).filterMap HintCall.note?
  | _ => []

end StemTally

/-! ## Traces -/

/-- The tallies of the glyph and of the components in it that are being evaluated, the innermost
one first, after an entry of the trace. -/
def TraceEntry.tallies (tallies : List StemTally) : TraceEntry → List StemTally
  | .start => {} :: tallies
  | .operator _ op stack => tallies.modifyHead fun tally => tally.after stack op
  | .drawn _ => tallies
  | .stop => tallies.tail

/-- What an entry of the trace announces. -/
def TraceEntry.announces (tallies : List StemTally) : TraceEntry → List HintNote
  | .operator _ op stack =>
      match tallies with
      | tally :: _ => tally.announces stack op
      | [] => []
  | _ => []

/-- The tallies after all these entries. -/
def talliesAfter (tallies : List StemTally) : List TraceEntry → List StemTally
  | [] => tallies
  | entry :: earlier => entry.tallies (talliesAfter tallies earlier)

/-- What all these entries announce. -/
def announced (tallies : List StemTally) : List TraceEntry → List HintNote
  | [] => []
  | entry :: earlier => entry.announces (talliesAfter tallies earlier) ++ announced tallies earlier

section Traces

variable (tallies : List StemTally) (entries earlier : List TraceEntry)

theorem talliesAfter_append :
    talliesAfter tallies (entries ++ earlier) =
      talliesAfter (talliesAfter tallies earlier) entries := by
  induction entries with
  | nil => rfl
  | cons entry entries ih => simp only [List.cons_append, talliesAfter, ih]

theorem announced_append :
    announced tallies (entries ++ earlier) =
      announced (talliesAfter tallies earlier) entries ++ announced tallies earlier := by
  induction entries with
  | nil => rfl
  | cons entry entries ih =>
      simp only [List.cons_append, announced, ih, talliesAfter_append, List.append_assoc]

theorem announced_tail : announced tallies entries.tail <:+ announced tallies entries := by
  cases entries with
  | nil => exact List.suffix_refl _
  | cons entry entries => exact List.suffix_append _ _

end Traces

/-! ## Journals -/

/-- How many values were passed on for each program that is fetched and not yet released, the one
that was fetched last first, after an entry of the journal. -/
def LoadEvent.totals (totals : List Nat) : LoadEvent → List Nat
  | .fetched _ => 0 :: totals
  | .released _ => totals.tail
  | .hinted (.stems _ values) => totals.modifyHead (· + values.length)
  | _ => totals

/-- How many values were passed on for each program after all these entries. -/
def forwarded (totals : List Nat) : List LoadEvent → List Nat
  | [] => totals
  | event :: earlier => event.totals (forwarded totals earlier)

/-- Stems come in pairs, and a mask has a bit for each pair that was passed on for its program. -/
def HintCall.Fits (totals : List Nat) : HintCall → Prop
  | .stems _ values => values.length % 2 = 0
  | .hintMask bits | .counterMask bits =>
      ∃ stems outer, totals = 2 * stems :: outer ∧ bits.length = (stems + 7) / 8
  | _ => True

/-- All calls fit to what was passed on before them. -/
def AllFit (totals : List Nat) : List LoadEvent → Prop
  | [] => True
  | event :: earlier =>
      (∀ call, event = .hinted call → call.Fits (forwarded totals earlier)) ∧
        AllFit totals earlier

section Journals

variable {totals : List Nat} {events earlier : List LoadEvent}

theorem forwarded_append (totals : List Nat) (events earlier : List LoadEvent) :
    forwarded totals (events ++ earlier) = forwarded (forwarded totals earlier) events := by
  induction events with
  | nil => rfl
  | cons event events ih => simp only [List.cons_append, forwarded, ih]

theorem AllFit.append (before : AllFit totals earlier)
    (after : AllFit (forwarded totals earlier) events) : AllFit totals (events ++ earlier) := by
  induction events with
  | nil => exact before
  | cons event events ih =>
      obtain ⟨fits, rest⟩ := after
      refine ⟨?_, ih rest⟩
      intro call same
      show call.Fits (forwarded totals (events ++ earlier))
      rw [forwarded_append]
      exact fits call same

theorem AllFit.fits {call : HintCall} (h : AllFit totals (events ++ .hinted call :: earlier)) :
    call.Fits (forwarded totals earlier) := by
  induction events with
  | nil => exact h.1 call rfl
  | cons event events ih => exact ih h.2

/-- What is no call always fits. -/
theorem allFit_of_uncalled {event : LoadEvent} (uncalled : event.call? = none) :
    AllFit totals [event] := by
  refine ⟨?_, trivial⟩
  rintro call rfl
  cases uncalled

theorem HintCall.fits_call {bits : Bytes} {stems : Nat} (size : bits.length = (stems + 7) / 8)
    (op : MaskOp) (outer : List Nat) : (op.call bits).Fits (2 * stems :: outer) := by
  cases op <;> exact ⟨stems, outer, rfl, size⟩

end Journals

/-! ## Both records -/

/-- The journal has what the trace announces, and all calls fit; by that, the tallies and the
numbers of values become others. -/
structure Reports (tallies tallies' : List StemTally) (totals totals' : List Nat)
    (entries : List TraceEntry) (events : List LoadEvent) : Prop where
  told : notes events = announced tallies entries
  counted : talliesAfter tallies entries = tallies'
  summed : forwarded totals events = totals'
  fits : AllFit totals events

/-- The journal ends on the way: only what the latest entry of the trace announces may be missing in
it.  All calls fit. -/
structure Breaks (tallies : List StemTally) (totals totals' : List Nat)
    (entries : List TraceEntry) (events : List LoadEvent) : Prop where
  told : announced tallies entries.tail <:+ notes events
  announced : notes events <:+ announced tallies entries
  summed : forwarded totals events = totals'
  fits : AllFit totals events

section Records

variable {tallies tallies' tallies'' : List StemTally} {totals totals' totals'' : List Nat}
  {entries entries' : List TraceEntry} {events events' : List LoadEvent}

theorem Reports.breaks (h : Reports tallies tallies' totals totals' entries events) :
    Breaks tallies totals totals' entries events where
  told := h.told ▸ announced_tail _ _
  announced := h.told ▸ List.suffix_refl _
  summed := h.summed
  fits := h.fits

theorem Reports.trans (first : Reports tallies tallies' totals totals' entries events)
    (next : Reports tallies' tallies'' totals' totals'' entries' events') :
    Reports tallies tallies'' totals totals'' (entries' ++ entries) (events' ++ events) where
  told := by rw [notes_append, announced_append, first.counted, first.told, next.told]
  counted := by rw [talliesAfter_append, first.counted, next.counted]
  summed := by rw [forwarded_append, first.summed, next.summed]
  fits := first.fits.append (first.summed ▸ next.fits)

theorem Reports.trans_breaks (first : Reports tallies tallies' totals totals' entries events)
    (next : Breaks tallies' totals' totals'' entries' events') :
    Breaks tallies totals totals'' (entries' ++ entries) (events' ++ events) where
  told := by
    cases entries' with
    | nil =>
        -- nothing was announced after the first part
        rw [List.nil_append, notes_append]
        refine (announced_tail _ _).trans ?_
        rw [← first.told]
        exact List.suffix_append _ _
    | cons entry entries' =>
        rw [List.cons_append, List.tail_cons, notes_append, announced_append, first.counted,
          first.told]
        exact List.suffix_append_self_iff.2 next.told
  announced := by
    rw [notes_append, announced_append, first.counted, first.told]
    exact List.suffix_append_self_iff.2 next.announced
  summed := by rw [forwarded_append, first.summed, next.summed]
  fits := first.fits.append (first.summed ▸ next.fits)

end Records

/-! ## One operator -/

section Operators

variable {tally : StemTally} {stack : OperandStack} {depth : Nat} {tallies : List StemTally}
  {totals : List Nat}

theorem StemTally.two_mul_declare (even : (tally.values stack).length % 2 = 0) :
    2 * tally.stemCount + (tally.values stack).length = 2 * (tally.declare stack).stemCount := by
  simp only [StemTally.declare]
  omega

/-- Stems are passed on as they are announced. -/
theorem Reports.stem (even : (tally.values stack).length % 2 = 0) (op : StemOp) :
    Reports (tally :: tallies) (tally.declare stack :: tallies) (2 * tally.stemCount :: totals)
      (2 * (tally.declare stack).stemCount :: totals) [.operator depth (.stem op) stack]
      [.hinted (.stems op.direction (tally.values stack))] where
  told := rfl
  counted := rfl
  summed := congrArg (· :: totals) (StemTally.two_mul_declare even)
  fits := by
    refine ⟨?_, trivial⟩
    rintro call ⟨⟩
    exact even

/-- Nothing is passed on for an operator that fails at once. -/
theorem Breaks.silent (op : Operator) (totals : List Nat) :
    Breaks tallies totals totals [.operator depth op stack] [] where
  told := List.suffix_refl _
  announced := List.nil_suffix
  summed := rfl
  fits := trivial

/-- What a mask implies is passed on before it. -/
theorem reports_implied (even : (tally.values stack).length % 2 = 0) (totals : List Nat) :
    let events := (tally.implied stack).map LoadEvent.hinted
    notes events = (tally.implied stack).filterMap HintCall.note? ∧
      forwarded (2 * tally.stemCount :: totals) events =
        2 * (tally.declare stack).stemCount :: totals ∧
      AllFit (2 * tally.stemCount :: totals) events := by
  have summed := StemTally.two_mul_declare even
  simp only [StemTally.implied]
  split
  · next none =>
      rw [none] at summed
      exact ⟨rfl, congrArg (· :: totals) summed, trivial⟩
  · refine ⟨rfl, congrArg (· :: totals) summed, ?_, trivial⟩
    rintro call ⟨⟩
    exact even

theorem announced_mask (tally : StemTally) (stack : OperandStack) (op : MaskOp) :
    announced (tally :: tallies) [.operator depth (.mask op) stack] =
      .mask op (tally.declare stack).maskSize ::
        (tally.implied stack).filterMap HintCall.note? :=
  List.append_nil _

/-- A mask is passed on as it is announced, after what it implies. -/
theorem Reports.mask (even : (tally.values stack).length % 2 = 0) (op : MaskOp) {bits : Bytes}
    (size : bits.length = (tally.declare stack).maskSize) :
    Reports (tally :: tallies) (tally.declare stack :: tallies) (2 * tally.stemCount :: totals)
      (2 * (tally.declare stack).stemCount :: totals) [.operator depth (.mask op) stack]
      (.hinted (op.call bits) :: (tally.implied stack).map LoadEvent.hinted) := by
  obtain ⟨told, summed, fits⟩ := reports_implied even totals
  refine ⟨?_, rfl, ?_, ?_, fits⟩
  · calc notes (.hinted (op.call bits) :: (tally.implied stack).map LoadEvent.hinted)
        = notes [.hinted (op.call bits)] ++ notes ((tally.implied stack).map LoadEvent.hinted) :=
          notes_append [_] _
      _ = [.mask op bits.length] ++ (tally.implied stack).filterMap HintCall.note? := by
          rw [told]
          cases op <;> rfl
      _ = announced (tally :: tallies) [.operator depth (.mask op) stack] := by
          rw [announced_mask, size]
          rfl
  · rw [← summed]
    cases op <;> rfl
  · rintro call ⟨⟩
    rw [summed]
    exact HintCall.fits_call size op totals

/-- What a mask implies is passed on also if the mask itself is cut off. -/
theorem Breaks.implied (even : (tally.values stack).length % 2 = 0) (op : MaskOp) :
    Breaks (tally :: tallies) (2 * tally.stemCount :: totals)
      (2 * (tally.declare stack).stemCount :: totals) [.operator depth (.mask op) stack]
      ((tally.implied stack).map LoadEvent.hinted) := by
  obtain ⟨told, summed, fits⟩ := reports_implied even totals
  refine ⟨List.nil_suffix, ?_, summed, fits⟩
  rw [told]
  -- the mask itself is announced last
  rw [announced_mask]
  exact List.suffix_cons _ _

end Operators

end Type2Glyphs
