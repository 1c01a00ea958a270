import Type2Glyphs.Proofs.Draft.Sketch
import Type2Glyphs.Proofs.Law.Parting

/-!
# Forks — listing components or drawing them

A run that lists the components of an accented glyph goes in step with the one that draws them, up
to the operator that composes the glyph.  There the two part: one lists what the other draws.  Both
have then ended the glyph, so nothing else is evaluated.

* `Forks` says so of two outcomes;
* `Session.Listing.partingLaw`: the sessions stay related until the two runs part;
* `forks_evaluate`: all evaluations from sessions that differ in listing only have such outcomes.
-/

namespace Type2Glyphs

open Outcome

/-! ## Sessions that differ in listing -/

/-- Drafts that are equal, but one draws components and the other one lists them. -/
structure Draft.Listing (full listed : Draft) : Prop where
  same : listed = { full with listsComponents := true }
  draws : full.listsComponents = false
  origin : full.origin = 0
  shown : ∃ sketch, full.Shows sketch

theorem Draft.Listing.coupling : LocalDraftCoupling (fun _ => False) Draft.Listing where
  isOpen h := by rw [h.same]
  counts h := .inl (by rw [h.same]; exact ⟨rfl, rfl⟩)
  closeContour := by
    rintro d _ ⟨rfl, draws, origin, sketch, shown⟩
    refine ⟨?_, ?_, ?_, _, shown.closeContour⟩
    · cases isOpen : d.isOpen <;> simp [closeContour, isOpen]
    · simpa using draws
    · simpa using origin
  start := by
    rintro d _ ⟨rfl, draws, origin, sketch, shown⟩ closed _ room p
    exact ⟨rfl, draws, origin, _, shown.start closed room p⟩
  line := by
    rintro d _ ⟨rfl, draws, origin, sketch, shown⟩ isOpen room p
    exact ⟨rfl, draws, origin, _, shown.line isOpen room p⟩
  curve := by
    rintro d _ ⟨rfl, draws, origin, sketch, shown⟩ isOpen room c₁ c₂ p
    exact ⟨rfl, draws, origin, _, shown.curve isOpen room c₁ c₂ p⟩

/-- Sessions of a full run and of one that lists components, as long as none have come up. -/
abbrev Session.Listing : Session → Session → Prop :=
  Alike Draft.Listing (fun list list' => list = [] ∧ list' = []) fun _ => False

theorem Session.Listing.coupling : LocalCoupling (fun _ => False) Session.Listing :=
  Alike.localCoupling Draft.Listing.coupling

/-- The latest entry of the trace is an operator that composes glyphs, so deeply nested. -/
def Composing (depth : Nat) (trace : List TraceEntry) : Prop :=
  ∃ op stack earlier, (op = .endchar ∨ op = .seac) ∧ trace = .operator depth op stack :: earlier

/-- Sessions that differ in listing, while an operator that composes glyphs is executed. -/
def Session.ListingAt (depth : Nat) (s s' : Session) : Prop :=
  Session.Listing s s' ∧ Composing depth s'.trace

/-- The session with components listed and the stack cleared. -/
def Session.listed (components : List Component) (session : Session) : Session :=
  { session with
    components := session.components ++ components
    machine := { session.machine with stack := .empty } }

/-! ## Outcomes that fork -/

/-- Outcomes that agree, or that part where one run draws components and the other lists them.
There the value is one that `ends` the glyph. -/
inductive Forks (font : Font) (limit : Nat) {α : Type} (ends : α → Prop) :
    EStateM.Result LoadError Session α → EStateM.Result LoadError Session α → Prop
  | same {result result'} (agree : Agree (fun _ => False) Session.Listing result result') :
      Forks font limit ends result result'
  | parted {a : α} {c c' : Session} {depth levels : Nat} (base mark : GlyphId) (offset : Point)
      (ended : ends a) (related : Session.Listing c c') (composing : Composing depth c'.trace)
      (deep : depth + levels = limit) :
      Forks font limit ends
        (resume a (Eval.drawComponents font limit (Eval.below font limit levels) depth
          [⟨base, 0⟩, ⟨mark, offset⟩] c))
        (.ok a (c'.listed [⟨base, 0⟩, ⟨mark, offset⟩]))

/-- One outcome comes of drawing components, and the other of listing them. -/
inductive DrawnAndListed (font : Font) (limit : Nat) :
    EStateM.Result LoadError Session Unit → EStateM.Result LoadError Session Unit → Prop
  | mk {c c' : Session} {depth levels : Nat} (base mark : GlyphId) (offset : Point)
      (related : Session.Listing c c') (composing : Composing depth c'.trace)
      (deep : depth + levels = limit) :
      DrawnAndListed font limit
        (Eval.drawComponents font limit (Eval.below font limit levels) depth
          [⟨base, 0⟩, ⟨mark, offset⟩] c)
        (.ok () { c' with components := c'.components ++ [⟨base, 0⟩, ⟨mark, offset⟩] })

theorem Forks.of_parts {font : Font} {limit : Nat} {α : Type} {ends : α → Prop}
    {result result' : EStateM.Result LoadError Session α}
    (parts : Parting Session.Listing (DrawnAndListed font limit) ends result result') :
    Forks font limit ends result result' := by
  cases parts with
  | same agree => exact .same agree
  | parted ended composed =>
      cases composed with
      | mk base mark offset related composing deep =>
          exact .parted base mark offset ended related composing deep

/-! ## Runs that list or draw -/

theorem Session.ListingAt.machineCoupling (depth : Nat) :
    MachineCoupling (Session.ListingAt depth) where
  machine h := h.1.machine
  withMachine h machine := ⟨Session.Listing.coupling.withMachine h.1 machine, h.2⟩

theorem Session.ListingAt.closeContour (depth : Nat) :
    Simulates (fun _ => False) (Session.ListingAt depth)
      (modify (Session.mapDraft Draft.closeContour) : Eval Unit)
      (modify (Session.mapDraft Draft.closeContour)) := by
  refine .modify ?_
  rintro s s' ⟨listing, composing⟩
  exact ⟨listing.mapDraft (Draft.Listing.coupling.closeContour listing.draft), composing⟩

theorem Session.ListingAt.setLeftBearing (depth : Nat) (frame : Frame) (bearing : Fixed) :
    Simulates (fun _ => False) (Session.ListingAt depth) (Eval.setLeftBearing frame bearing)
      (Eval.setLeftBearing frame bearing) := by
  rintro s s' ⟨listing, composing⟩
  simp only [Eval.setLeftBearing_apply]
  refine .ok ⟨listing.mapDraft ?_, composing⟩
  rcases listing.draft with ⟨same, draws, origin, sketch, shown⟩
  rw [same]
  cases frame.isComponent <;> exact ⟨rfl, draws, origin, sketch, { shown with }⟩

/-- Sessions that differ in listing stay so until components are listed or drawn. -/
theorem Session.Listing.partingLaw (font : Font) (limit : Nat) :
    PartingLaw font limit (fun levels depth => depth + levels = limit) Session.Listing
      Session.ListingAt (DrawnAndListed font limit) where
  deeper deep := by omega
  operators := Session.Listing.coupling.localLaw.operatorLaw
  record related _ _ := related.record _ _
  related h := h.1
  recordAt related _ op composes := ⟨related.record _ _, op, _, _, composes, rfl⟩
  operands depth := ((ListingAt.machineCoupling depth).law _).operandLaw
  seeWidth depth := (ListingAt.machineCoupling depth).mapMachine _
  closeContour := Session.ListingAt.closeContour
  setLeftBearing := Session.ListingAt.setLeftBearing
  compose := by
    intro levels depth s s' deep related base mark offset
    -- here the two part
    have draws : ¬ s.draft.listsComponents = true := by simp [related.1.draft.draws]
    have lists : s'.draft.listsComponents = true := by rw [related.1.draft.same]
    simp only [bind_apply, Eval.composeOf_apply, if_neg draws, if_pos lists, ← resume_unit]
    exact .parted trivial (.mk base mark offset related.1 related.2 deep)

/-! ## Programs -/

namespace Eval

variable {font : Font} {limit levels : Nat} {frame : Frame}

/-- Programs from sessions that differ in listing go in step or fork. -/
def EvaluatorForks (font : Font) (limit : Nat) (evaluate : Evaluator) (frame : Frame) : Prop :=
  ∀ program ⦃s s'⦄, Session.Listing s s' →
    Forks font limit (fun ending => ending.endsGlyph = true) (evaluate frame program s)
      (evaluate frame program s')

/-- From sessions that differ in listing, all programs go in step or fork. -/
theorem forks_evaluate (deep : frame.depth + levels = limit) :
    EvaluatorForks font limit (evaluate font limit levels) frame :=
  fun program _ _ related =>
    .of_parts ((Session.Listing.partingLaw font limit).evaluate deep program related)

end Eval

end Type2Glyphs
