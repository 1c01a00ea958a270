import Type2Glyphs.Proofs.Aloof
import Type2Glyphs.Proofs.Draft.Additions
import Type2Glyphs.Proofs.Draft.Coupling
import Type2Glyphs.Proofs.Law.Parting
import Type2Glyphs.Proofs.Operations

/-!
# Displacement — glyph programs drawn elsewhere

Glyph programs draw relative to where they are: to the current point, and to the origin of the
draft.  So a program that starts with both displaced draws the same contours at a displacement.  The
components that it composes start at points of their own, and are displaced with the origin only.

* `Session.Shifted` relates the two runs before components are drawn, and `Draft.Moved` their drafts
  while components are drawn;
* `PointsAdded` tells apart the points that a program itself adds and those of its components;
* `Eval.evaluate_displaced` says for all programs what the two runs have in common, and how far
  apart their points are.
-/

namespace Type2Glyphs

open Outcome

/-! ## Drafts -/

namespace Draft.Moved

variable {t u : Point} {before before' d d' : Draft}

/-- A point that is displaced, as seen from an origin that is displaced too. -/
theorem place (h : Moved t (t + u) before before' d d') (p : Point) :
    p + u + d'.origin = p + d.origin + (t + u) :=
  calc p + u + d'.origin = p + u + (d.origin + t) := by rw [h.origin]
    _ = p + (d.origin + t) + u := Point.add_right_comm ..
    _ = p + d.origin + (t + u) := by rw [← Point.add_assoc, Point.add_assoc]

theorem addShifted (h : Moved t (t + u) before before' d d') (p : Point) (tag : Tag) :
    Moved t (t + u) before before' (d.add p tag) (d'.add (p + u) tag) :=
  h.add (h.place p) tag

theorem startContour (p : Point) :
    Simulates (fun _ => False) (Moved t (t + u) before before') (Draft.startContour p)
      (Draft.startContour (p + u)) := by
  intro d d' related
  simp only [startContour_apply]
  refine LocalDraftCoupling.agree_check (.inl ?_) related.closeContour fun _ => ?_
  · rw [related.contourCount, related.pointCount]
  · exact .ok (related.closeContour.openContour.addShifted p .on)

theorem addOnCurve (p : Point) :
    Simulates (fun _ => False) (Moved t (t + u) before before') (Draft.addOnCurve p)
      (Draft.addOnCurve (p + u)) := by
  intro d d' related
  simp only [addOnCurve_apply]
  refine LocalDraftCoupling.agree_check (.inl ?_) related fun _ => ?_
  · rw [related.pointCount]
  · refine LocalDraftCoupling.agree_check (.inl ?_) related fun _ => ?_
    · rw [related.isOpen]
    · exact .ok (related.addShifted p .on)

theorem addCurve (c₁ c₂ p : Point) :
    Simulates (fun _ => False) (Moved t (t + u) before before') (Draft.addCurve c₁ c₂ p)
      (Draft.addCurve (c₁ + u) (c₂ + u) (p + u)) := by
  intro d d' related
  simp only [addCurve_apply]
  refine LocalDraftCoupling.agree_check (.inl ?_) related fun _ => ?_
  · rw [related.pointCount]
  · refine LocalDraftCoupling.agree_check (.inl ?_) related fun _ => ?_
    · rw [related.isOpen]
    · have first := related.addShifted c₁ .cubicControl
      exact .ok ((first.addShifted c₂ .cubicControl).addShifted p .on)

/-- A point that is displaced with the origin only. -/
theorem addAlike (h : Moved t t before before' d d') (p : Point) (tag : Tag) :
    Moved t t before before' (d.add p tag) (d'.add p tag) :=
  h.add (by rw [h.origin, ← Point.add_assoc]) tag

/-- Components are drawn from their own points, which differ by where they are placed only. -/
theorem coupling (t : Point) (before before' : Draft) :
    DraftCoupling (fun _ => False) (Moved t t before before') Eq
      (fun origin origin' => origin' = origin + t) where
  isOpen h := h.isOpen
  counts h := .inl ⟨h.pointCount, h.contourCount⟩
  closeContour h := h.closeContour
  start h _ _ _ p := h.openContour.addAlike p .on
  line h _ _ p := h.addAlike p .on
  curve h _ _ c₁ c₂ p := ((h.addAlike c₁ .cubicControl).addAlike c₂ .cubicControl).addAlike p .on
  components := rfl
  commit h := h.commit
  listsComponents h := h.listsComponents
  origin h := h.origin
  withOrigin h o o' same := by
    rw [same]
    exact h.withOrigin o
  displaced same v := by rw [same, Point.add_right_comm]
  advance := by
    rintro c _ rfl d d' h a
    cases c with
    | true => exact h
    | false => exact h.withAdvance a
  leftBearing := by
    rintro c _ rfl d d' h b
    cases c with
    | true => exact h
    | false => exact h.withLeftBearing b

end Draft.Moved

/-! ## Sessions -/

/-- The machine with its current point displaced. -/
def Machine.displace (u : Point) (machine : Machine) : Machine :=
  { machine with position := machine.position + u }

namespace Session

/-- The session with the origin of its draft displaced by `t`, and the current point by `u`. -/
def displace (t u : Point) (s : Session) : Session :=
  { s with
    machine := s.machine.displace u
    draft := { s.draft with origin := s.draft.origin + t } }

/-- Sessions that are equal up to where points are, and up to the trace.  The origins are a
displacement of `t` apart, and the current points one of `u`. -/
structure Apart (t u : Point) (s s' : Session) : Prop where
  machine : s'.machine = s.machine.displace u
  draft : s.draft.Apart t s'.draft
  hook : s'.hook = s.hook
  random : s'.random = s.random
  components : s'.components = s.components
  journal : s'.journal = s.journal

theorem Apart.mapMachine {t u : Point} {s s' : Session} (h : Apart t u s s')
    {f : Machine → Machine} (aside : ∀ machine, f (machine.displace u) = (f machine).displace u) :
    Apart t u (s.mapMachine f) (s'.mapMachine f) where
  machine := (congrArg f h.machine).trans (aside s.machine)
  draft := h.draft
  hook := h.hook
  random := h.random
  components := h.components
  journal := h.journal

/-- Sessions after the same steps from displaced sessions, without a component on the way. -/
structure Shifted (t u : Point) (before before' : Session) (s s' : Session) : Prop where
  rest : s' = { s with machine := s.machine.displace u, draft := s'.draft }
  draft : Draft.Moved t (t + u) before.draft before'.draft s.draft s'.draft
  starts : s.starts = before.starts
  starts' : s'.starts = before'.starts

namespace Shifted

variable {t u : Point} {before before' s s' : Session}

theorem refl (t u : Point) (s : Session) :
    Shifted t u s (s.displace t u) s (s.displace t u) where
  rest := rfl
  draft := ⟨⟨rfl, rfl⟩, [], .refl _, .refl _⟩
  starts := rfl
  starts' := rfl

/-- What becomes of the sessions in the end. -/
theorem apart (h : Shifted t u before before' s s') : Apart t u s s' where
  machine := by rw [h.rest]
  draft := h.draft.toApart
  hook := by rw [h.rest]
  random := by rw [h.rest]
  components := by rw [h.rest]
  journal := by rw [h.rest]

theorem position (h : Shifted t u before before' s s') :
    s'.machine.position = s.machine.position + u := by
  rw [h.rest]
  rfl

/-- The sessions stay related by what has nothing to do with drafts and current points. -/
theorem change (h : Shifted t u before before' s s') (f : Session → Session)
    (aside : ∀ s draft, f { s with machine := s.machine.displace u, draft := draft } =
      { f s with machine := (f s).machine.displace u, draft := draft })
    (drafts : ∀ s, (f s).draft = s.draft) (starts : ∀ s, (f s).starts = s.starts) :
    Shifted t u before before' (f s) (f s') where
  rest := by
    rw [drafts s']
    exact (congrArg f h.rest).trans (aside s s'.draft)
  draft := by
    rw [drafts, drafts]
    exact h.draft
  starts := (starts s).trans h.starts
  starts' := (starts s').trans h.starts'

theorem note (h : Shifted t u before before' s s') (event : LoadEvent) :
    Shifted t u before before' (s.note event) (s'.note event) :=
  h.change (Session.note event) (fun _ _ => rfl) (fun _ => rfl) fun _ => rfl

theorem mapDraft (h : Shifted t u before before' s s') {f g : Draft → Draft}
    (moved : Draft.Moved t (t + u) before.draft before'.draft (f s.draft) (g s'.draft)) :
    Shifted t u before before' (s.mapDraft f) (s'.mapDraft g) where
  rest := by
    simp only [mapDraft_eq]
    rw [h.rest]
  draft := moved
  starts := h.starts
  starts' := h.starts'

/-- The current points are moved to points that are as far apart as before. -/
theorem moveTo (h : Shifted t u before before' s s') (p : Point) :
    Shifted t u before before' (s.mapMachine fun machine => { machine with position := p })
      (s'.mapMachine fun machine => { machine with position := p + u }) where
  rest := by
    simp only [mapMachine]
    rw [h.rest]
    rfl
  draft := h.draft
  starts := h.starts
  starts' := h.starts'

/-! ### Steps of operators -/

theorem onDraft {p q : Draft.Program Unit}
    (h : Simulates (fun _ => False) (Draft.Moved t (t + u) before.draft before'.draft) p q) :
    Simulates (fun _ => False) (Shifted t u before before') (Eval.onDraft p) (Eval.onDraft q) := by
  refine h.onDraft (fun related => related.draft) ?_
  intro s s' related d d' drafts
  exact related.mapDraft (f := fun _ => d) (g := fun _ => d') drafts

theorem callHook (call : HintCall) :
    Simulates (fun _ => False) (Shifted t u before before') (Eval.callHook call)
      (Eval.callHook call) := by
  refine .callHook ?_ ?_ (fun h => h.note) ?_ call
  · intro s s' related
    rw [related.rest]
  · intro s s' related _ _
    rw [related.rest]
    rfl
  · intro s s' related
    exact related.change (fun s => { s with hook := none }) (fun _ _ => rfl) (fun _ => rfl)
      fun _ => rfl

/-- What is read off the machine is the same, but for the current point. -/
theorem gets {α : Type} (part : Machine → α)
    (blind : ∀ machine, part (machine.displace u) = part machine) :
    Simulates (fun _ => False) (Shifted t u before before') (Eval.gets fun s => part s.machine)
      (Eval.gets fun s => part s.machine) := by
  refine .gets ?_
  intro s s' related
  rw [related.rest]
  exact blind s.machine

/-- What is changed about the machine is not the current point. -/
theorem mapMachine {f : Machine → Machine}
    (aside : ∀ machine, f (machine.displace u) = (f machine).displace u) :
    Simulates (fun _ => False) (Shifted t u before before')
      (modify (Session.mapMachine f) : Eval Unit) (modify (Session.mapMachine f)) := by
  refine .modify ?_
  intro s s' related
  refine related.change (Session.mapMachine f) ?_ (fun _ => rfl) fun _ => rfl
  intro s draft
  simp only [Session.mapMachine, aside]

theorem takeOperands (extra : Nat → Bool) :
    Simulates (fun _ => False) (Shifted t u before before') (Eval.takeOperands extra)
      (Eval.takeOperands extra) := by
  intro s s' related
  have stack : s'.machine.stack = s.machine.stack := by
    rw [related.rest]
    rfl
  have widthSeen : s'.machine.widthSeen = s.machine.widthSeen := by
    rw [related.rest]
    rfl
  simp only [Eval.takeOperands_apply, stack, widthSeen]
  split
  · exact .ok related
  · split
    · exact .ok (related.change (Session.mapMachine fun machine =>
        { machine with widthSeen := true, width := s.machine.stack.operands.head? })
        (fun _ _ => rfl) (fun _ => rfl) fun _ => rfl)
    · exact .ok (related.change (Session.mapMachine fun machine =>
        { machine with widthSeen := true }) (fun _ _ => rfl) (fun _ => rfl) fun _ => rfl)

theorem operandLaw : OperandLaw fun {_} p =>
    Simulates (fun _ => False) (Shifted t u before before') p p where
  pure := Simulates.pure
  throw := Simulates.throw
  bind := Simulates.bind
  stack part := gets (fun machine => part machine.stack) fun _ => rfl
  setStack _ := mapMachine fun _ => rfl
  transient := gets Machine.transient fun _ => rfl
  store _ _ := mapMachine fun _ => rfl
  stemCount := gets Machine.stemCount fun _ => rfl
  countStems _ := mapMachine fun _ => rfl
  takeOperands := takeOperands

/-- A displacement from the current point leads to points that are as far apart. -/
theorem ahead (h : Shifted t u before before' s s') (d : Point) :
    s'.machine.position + d = s.machine.position + d + u := by
  rw [h.position, Point.add_right_comm]

theorem moveBy (d : Point) : Simulates (fun _ => False) (Shifted t u before before')
    (Eval.moveBy d) (Eval.moveBy d) := by
  intro s s' related
  simp only [Eval.moveBy_apply, related.ahead d]
  exact onDraft (Draft.Moved.startContour _) (related.moveTo _)

theorem ensureOpen : Simulates (fun _ => False) (Shifted t u before before') Eval.ensureOpen
    Eval.ensureOpen := by
  intro s s' related
  simp only [Eval.ensureOpen_apply, related.draft.isOpen, related.position]
  split
  · exact .ok related
  · exact onDraft (Draft.Moved.startContour _) related

theorem drawSegment (segment : Segment) : Simulates (fun _ => False)
    (Shifted t u before before') (Eval.drawSegment segment) (Eval.drawSegment segment) := by
  intro s s' related
  cases segment with
  | line d =>
      simp only [Eval.drawSegment_line, related.ahead d]
      exact onDraft (Draft.Moved.addOnCurve _) (related.moveTo _)
  | curve d₁ d₂ d₃ =>
      -- each point of the curve is found from the one before it
      have second : s'.machine.position + d₁ + d₂ = s.machine.position + d₁ + d₂ + u := by
        rw [related.ahead, Point.add_right_comm]
      have last : s'.machine.position + d₁ + d₂ + d₃ =
          s.machine.position + d₁ + d₂ + d₃ + u := by
        rw [second, Point.add_right_comm]
      simp only [Eval.drawSegment_curve, last]
      rw [second, related.ahead d₁]
      exact onDraft (Draft.Moved.addCurve _ _ _) (related.moveTo _)

theorem record (h : Shifted t u before before' s s') {entry : TraceEntry}
    (other : entry ≠ .start) : Shifted t u before before' (s.record entry) (s'.record entry) := by
  refine h.change (Session.record entry) (fun _ _ => rfl) (fun _ => rfl) ?_
  intro s
  exact List.count_cons_of_ne other

theorem mapRandom (h : Shifted t u before before' s s') (f : UInt32 → UInt32) :
    Shifted t u before before' { s with random := f s.random }
      { s' with random := f s'.random } :=
  h.change (fun s => { s with random := f s.random }) (fun _ _ => rfl) (fun _ => rfl)
    fun _ => rfl

theorem operatorLaw : OperatorLaw fun {_} p =>
    Simulates (fun _ => False) (Shifted t u before before') p p where
  toOperandLaw := operandLaw
  moveBy := moveBy
  ensureOpen := ensureOpen
  drawSegment := drawSegment
  stems _ _ := callHook _
  mask _ _ := callHook _
  nextRandom := by
    refine .modify ?_
    intro s s' related
    exact related.mapRandom _
  random := by
    refine .gets ?_
    intro s s' related
    rw [related.rest]
  drawn number := by
    refine .modify ?_
    intro s s' related
    exact related.record TraceEntry.noConfusion

theorem recordOperator (h : Shifted t u before before' s s') (depth : Nat) (op : Operator) :
    Shifted t u before before' (s.record (.operator depth op s.machine.stack))
      (s'.record (.operator depth op s'.machine.stack)) := by
  have stack : s'.machine.stack = s.machine.stack := by
    rw [h.rest]
    rfl
  rw [stack]
  exact h.record (by simp)

theorem setLeftBearing (frame : Frame) (bearing : Fixed) : Simulates (fun _ => False)
    (Shifted t u before before') (Eval.setLeftBearing frame bearing)
    (Eval.setLeftBearing frame bearing) := by
  intro s s' related
  simp only [Eval.setLeftBearing_apply]
  refine .ok (related.mapDraft ?_)
  cases frame.isComponent with
  | true => exact related.draft
  | false => exact related.draft.withLeftBearing _

end Shifted

end Session

/-! ## Composing a glyph elsewhere -/

/-- Both outcomes come of drawing the same components, from related sessions. -/
inductive ComposedElsewhere (font : Font) (limit : Nat) (t u : Point) (before before' : Session) :
    EStateM.Result LoadError Session Unit → EStateM.Result LoadError Session Unit → Prop
  | mk {c c' : Session} {depth levels : Nat} {components : List Component}
      (related : Session.Shifted t u before before' c c') :
      ComposedElsewhere font limit t u before before'
        (Eval.drawComponents font limit (Eval.below font limit levels) depth components c)
        (Eval.drawComponents font limit (Eval.below font limit levels) depth components c')

theorem Session.Shifted.partingLaw (font : Font) (limit : Nat) (t u : Point)
    (before before' : Session) :
    PartingLaw font limit (fun _ _ => True) (Session.Shifted t u before before')
      (fun _ => Session.Shifted t u before before')
      (ComposedElsewhere font limit t u before before') where
  deeper _ := trivial
  operators := operatorLaw
  record related := related.recordOperator
  related h := h
  recordAt related depth op _ := related.recordOperator depth op
  operands _ := operandLaw
  seeWidth _ := mapMachine fun _ => rfl
  closeContour _ := .modify fun _ _ related => related.mapDraft related.draft.closeContour
  setLeftBearing _ := setLeftBearing
  compose := by
    intro levels depth s s' _ related base mark offset
    simp only [bind_apply, Eval.composeOf_apply, related.draft.listsComponents]
    split
    · refine .same (.ok ?_)
      refine (related.change (fun s => { s with components := s.components ++ _ })
        (fun _ _ => rfl) (fun _ => rfl) fun _ => rfl).change
        (Session.mapMachine fun machine => { machine with stack := .empty })
        (fun _ _ => rfl) (fun _ => rfl) fun _ => rfl
    · simp only [← resume_unit]
      exact .parted trivial (.mk related)

/-! ## Points of a program and of its components -/

/-- From `s` on, a program has itself added the points `own`, and has started no component.  The
components that it composed last of all, if any, have added the points `composed`. -/
inductive PointsAdded (font : Font) (limit : Nat) (s : Session)
    (own composed : List OutlinePoint) {α : Type} :
    EStateM.Result LoadError Session α → Prop
  | alone {result} (uncomposed : (finalSession result).starts = s.starts)
      (added : s.draft.Adds own (finalSession result).draft) (nothing : composed = []) :
      PointsAdded font limit s own composed result
  | composing {a : α} {c : Session} {depth levels : Nat} {components : List Component}
      (uncomposed : c.starts = s.starts) (added : s.draft.Adds own c.draft)
      (drawn : c.draft.Adds composed (finalSession
        (Eval.drawComponents font limit (Eval.below font limit levels) depth components
          c)).draft) :
      PointsAdded font limit s own composed (resume a
        (Eval.drawComponents font limit (Eval.below font limit levels) depth components c))

section Outcomes

variable {font : Font} {limit : Nat} {t u : Point} {α : Type} {before before' c c' : Session}

/-- Where both runs have gone in step, there are no components. -/
theorem pointsAdded_of_agree {result result' : EStateM.Result LoadError Session α}
    (agree : Agree (fun _ => False) (Session.Shifted t u before before') result result') :
    ∃ own, Agree (fun _ => False) (Session.Apart t u) result result' ∧
      PointsAdded font limit before own [] result ∧
      PointsAdded font limit before' (own.map (.shift (t + u))) [] result' := by
  cases agree with
  | ok related =>
      rcases related.draft.added with ⟨own, added, added'⟩
      exact ⟨own, .ok related.apart, .alone related.starts added rfl,
        .alone related.starts' added' rfl⟩
  | error related =>
      rcases related.draft.added with ⟨own, added, added'⟩
      exact ⟨own, .error related.apart, .alone related.starts added rfl,
        .alone related.starts' added' rfl⟩
  | excuse impossible => exact impossible.elim

/-- Sessions after drawing the same components differ in places and in the current point only. -/
theorem apart_of_drawn (font : Font) (limit depth levels : Nat) (components : List Component)
    (frame : Frame) (related : Session.Shifted t u before before' c c') :
    Agree (fun _ => False)
      (fun s s' => s.Apart t u s' ∧
        Draft.Moved t t c.draft c'.draft s.draft s'.draft)
      (Eval.drawComponents font limit (Eval.below font limit levels) depth components c)
      (Eval.drawComponents font limit (Eval.below font limit levels) depth components c') := by
  -- the components are drawn in step from sessions with one and the same machine
  have coupling : Coupling _ (Alike (Draft.Moved t t c.draft c'.draft) Eq fun _ => True) _ _ :=
    (Draft.Moved.coupling t c.draft c'.draft).coupling (fun _ _ _ _ same _ => by rw [same]) _
  have start : Alike (Draft.Moved t t c.draft c'.draft) Eq (fun _ => True) c
      { c with draft := c'.draft } :=
    ⟨rfl, ⟨related.draft.toApart, [], .refl _, .refl _⟩, rfl, rfl, rfl,
      fun _ _ => trivial, fun _ => rfl⟩
  have outcomes := coupling.drawComponents font
    (coupling.below font (.inl ⟨rfl, rfl⟩ : limit = limit ∧ levels = levels ∨ _))
    (⟨rfl, rfl⟩ : Frame.Alike Eq { frame with depth := depth } { frame with depth := depth })
    components start
  dsimp only at outcomes
  -- and drawing them has nothing to do with the machine
  have aloof := Aloof.drawComponents font limit (Eval.below font limit levels) depth components
  have machine := aloof.machine c
  have elsewhere : Eval.drawComponents font limit (Eval.below font limit levels) depth components
      c' = onMachine (c.machine.displace u) (Eval.drawComponents font limit _ depth components
        { c with draft := c'.draft }) :=
    (congrArg (Eval.drawComponents font limit _ depth components) related.rest).trans
      (aloof { c with draft := c'.draft } _)
  rw [elsewhere]
  revert outcomes machine
  generalize Eval.drawComponents font limit (Eval.below font limit levels) depth components c =
    drawn
  generalize Eval.drawComponents font limit (Eval.below font limit levels) depth components
    { c with draft := c'.draft } = drawn'
  intro outcomes machine
  have apart : ∀ {s s'}, s.machine = c.machine →
      Alike (Draft.Moved t t c.draft c'.draft) Eq (fun _ => True) s s' →
      s.Apart t u { s' with machine := c.machine.displace u } ∧
        Draft.Moved t t c.draft c'.draft s.draft s'.draft := by
    intro s s' machine alike
    refine ⟨⟨?_, alike.draft.toApart, alike.hook, alike.random, alike.components.symm,
      alike.journal ⟨.silent, trivial⟩⟩, alike.draft⟩
    rw [machine]
  cases outcomes with
  | ok alike => exact .ok (apart machine alike)
  | error alike => exact .error (apart machine alike)
  | excuse impossible => exact impossible.elim

/-- Where components are drawn, they are displaced with the origin only. -/
theorem pointsAdded_of_composed (frame : Frame) (a : α)
    {drawn drawn' : EStateM.Result LoadError Session Unit}
    (composed : ComposedElsewhere font limit t u before before' drawn drawn') :
    ∃ own composed, Agree (fun _ => False) (Session.Apart t u) (resume a drawn)
        (resume a drawn') ∧
      PointsAdded font limit before own composed (resume a drawn) ∧
      PointsAdded font limit before' (own.map (.shift (t + u))) (composed.map (.shift t))
        (resume a drawn') := by
  cases composed with
  | @mk c c' depth levels components related =>
      have outcomes := apart_of_drawn font limit depth levels components frame related
      rcases related.draft.added with ⟨own, added, added'⟩
      rcases outcomes.final.2.added with ⟨composed, drawn, drawn'⟩
      refine ⟨own, composed, ?_, .composing related.starts added drawn,
        .composing related.starts' added' drawn'⟩
      exact (outcomes.mono fun _ _ h => h.1).resume a fun h => h.mapMachine fun _ => rfl

end Outcomes

/-- A program that starts with the current point displaced by `u` and the origin by `t` comes to the
same outcome, in a session that is equal up to places and has its current point displaced by `u`.
The points that it adds itself are displaced by `t + u`, and those of the components that it
composes by `t`. -/
theorem Eval.evaluate_displaced (font : Font) (limit levels : Nat) (frame : Frame)
    (program : Bytes) (s : Session) (t u : Point) :
    ∃ own composed,
      Agree (fun _ => False) (Session.Apart t u)
        (Eval.evaluate font limit levels frame program s)
        (Eval.evaluate font limit levels frame program (s.displace t u)) ∧
      PointsAdded font limit s own composed (Eval.evaluate font limit levels frame program s) ∧
      PointsAdded font limit (s.displace t u) (own.map (.shift (t + u)))
        (composed.map (.shift t))
        (Eval.evaluate font limit levels frame program (s.displace t u)) := by
  have law := Session.Shifted.partingLaw font limit t u s (s.displace t u)
  have outcomes : Parting _ _ _ (Eval.evaluate font limit levels frame program s)
      (Eval.evaluate font limit levels frame program (s.displace t u)) :=
    law.evaluate trivial program (.refl t u s)
  revert outcomes
  generalize Eval.evaluate font limit levels frame program s = result
  generalize Eval.evaluate font limit levels frame program (s.displace t u) = result'
  intro outcomes
  cases outcomes with
  | same agree =>
      rcases pointsAdded_of_agree agree with ⟨own, related, added, added'⟩
      exact ⟨own, [], related, added, added'⟩
  | parted ended composed => exact pointsAdded_of_composed frame _ composed

end Type2Glyphs
