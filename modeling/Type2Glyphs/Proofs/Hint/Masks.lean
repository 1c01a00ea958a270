import Type2Glyphs.Proofs.Hint.Announcing

/-!
# Masks — a mask has a bit for each stem that was passed on

With a hint hook that does not fail, every program tells what its operators announce.  A glyph or
component counts its own stems: its program runs on a machine of its own, between the entries of the
journal that fetch and release it and those of the trace that start and stop it.  So the masks that
are passed on are as long as the stems demand that were passed on before, in `load_masks`.
-/

namespace Type2Glyphs

open Outcome Relation

variable {α : Type}

/-! ## Sessions -/

namespace Session

/-- What the evaluation of a whole glyph or component does after it was fetched: it counts its own
stems. -/
structure Ran (s t : Session) : Prop where
  machine : t.machine = s.machine
  tells : ∀ tallies totals, ∃ total, s.Tells tallies tallies (0 :: totals) (total :: totals) t

/-- What the evaluation of a glyph or component does that fails. -/
def Broke (s t : Session) : Prop :=
  ∀ tallies totals, ∃ total, s.Stops tallies (0 :: totals) (total :: totals) t

/-- What makes no difference to the stems that others count. -/
structure Separate (s t : Session) : Prop where
  machine : t.machine = s.machine
  tells : ∀ tallies totals, s.Tells tallies tallies totals totals t

/-- What makes no difference to the stems that others count, but fails. -/
def Missed (s t : Session) : Prop :=
  ∀ tallies totals, s.Stops tallies totals totals t

variable {s t u : Session}

theorem Separate.of_quiet (h : s.Quiet t) (machine : t.machine = s.machine) : s.Separate t :=
  ⟨machine, fun _ _ => .of_quiet h⟩

theorem Separate.trans (first : s.Separate t) (next : t.Separate u) : s.Separate u :=
  ⟨next.machine.trans first.machine, fun tallies totals =>
    (first.tells tallies totals).trans (next.tells tallies totals)⟩

theorem Separate.missed (h : s.Separate t) : s.Missed t :=
  fun tallies totals => (h.tells tallies totals).stops

theorem Separate.trans_missed (first : s.Separate t) (next : t.Missed u) : s.Missed u :=
  fun tallies totals => (first.tells tallies totals).trans_stops (next tallies totals)

theorem Separate.told (h : s.Separate t) : s.Told t := by
  intro _ _
  rw [h.machine]
  exact h.tells _ _

theorem Missed.stopped (h : s.Missed t) : s.Stopped t :=
  fun _ _ => ⟨_, h _ _⟩

theorem Missed.broke (h : s.Missed t) : s.Broke t :=
  fun _ _ => ⟨_, h _ _⟩

theorem Separate.trans_ran (first : s.Separate t) (next : t.Ran u) : s.Ran u := by
  refine ⟨next.machine.trans first.machine, fun tallies totals => ?_⟩
  obtain ⟨total, tells⟩ := next.tells tallies totals
  exact ⟨total, (first.tells tallies _).trans tells⟩

theorem Separate.trans_broke (first : s.Separate t) (next : t.Broke u) : s.Broke u := by
  intro tallies totals
  obtain ⟨total, stops⟩ := next tallies totals
  exact ⟨total, (first.tells tallies _).trans_stops stops⟩

theorem Ran.trans_separate (first : s.Ran t) (next : t.Separate u) : s.Ran u := by
  refine ⟨next.machine.trans first.machine, fun tallies totals => ?_⟩
  obtain ⟨total, tells⟩ := first.tells tallies totals
  exact ⟨total, tells.trans (next.tells tallies _)⟩

end Session

namespace Eval

open Session

variable {s t : Session}

/-! ## Components -/

/-- Calls that say nothing of stems and masks. -/
theorem callHook_separate {call : HintCall} (unnoted : call.note? = none)
    (same : ∀ totals, LoadEvent.totals totals (.hinted call) = totals)
    (fits : ∀ totals, call.Fits totals) : Effects Separate Missed (callHook call) := by
  have noted : ∀ s : Session, s.Separate (s.note (.hinted call)) := by
    intro s
    refine ⟨rfl, fun tallies totals => .of_adds (Adds.noted (Quiet.refl s) _) ⟨?_, rfl, ?_, ?_⟩⟩
    · simp [notes, LoadEvent.call?, unnoted, announced]
    · exact same totals
    · exact ⟨fun _ h => LoadEvent.hinted.inj h ▸ fits totals, trivial⟩
  refine .callHook ?_ ?_ ?_ ?_
  · exact fun s _ => .of_quiet (.refl s) rfl
  · exact fun s _ _ _ => noted s
  · intro s hook reason hooked failed
    -- a hook that fails now is not one that never fails
    refine ⟨rfl, fun _ _ unfailing => ?_⟩
    obtain ⟨hook', hooked', answers⟩ := unfailing
    cases hooked.symm.trans hooked'
    cases (answers _).symm.trans failed
  · exact fun s _ _ _ _ => (noted s).missed

/-- A program on a machine of its own counts the stems of its glyph alone. -/
theorem runProgram_ran {evaluate : Evaluator} {frame : Frame} {program : Bytes}
    (body : Announces (evaluate frame program)) :
    Effects Ran Broke (runProgram evaluate frame program) := by
  intro s
  have evaluated := body ({ s with machine := {} }.record .start)
  -- the tally starts anew; the number of values did so when the glyph was fetched
  have started : ∀ tallies totals, s.Tells tallies ({} :: tallies) totals totals
      ({ s with machine := {} }.record .start) := by
    intro tallies totals
    have added : s.Adds [] [.start] ({ s with machine := {} }.record .start) := ⟨rfl, rfl, rfl⟩
    exact .of_adds added ⟨rfl, rfl, rfl, trivial⟩
  have left : ∀ (t : Session) (machine : Machine), t.Quiet { t with machine } :=
    fun _ _ => ⟨rfl, rfl, rfl⟩
  rw [runProgram_apply]
  revert evaluated
  generalize evaluate frame program _ = result
  intro evaluated
  cases evaluated with
  | error stopped =>
      refine .error fun tallies totals => ?_
      obtain ⟨total, stops⟩ := stopped tallies totals
      exact ⟨total, ((started tallies _).trans_stops stops).quiet (left _ _)⟩
  | @ok ending t told =>
      dsimp only
      -- the tally of the program goes with its machine, whether it ended the glyph or not
      split
      · have ended : ∀ tallies totals, t.Tells (t.machine.tally :: tallies) tallies totals totals
            (t.leave frame s.machine) := by
          intro tallies totals
          have added : t.Adds [] [.stop] (t.leave frame s.machine) := ⟨rfl, rfl, rfl⟩
          exact .of_adds added ⟨rfl, rfl, rfl, trivial⟩
        exact .ok ⟨rfl, fun tallies totals => ⟨_, (started tallies _).trans
          ((told tallies totals).trans (ended tallies _))⟩⟩
      · refine .error fun tallies totals => ?_
        obtain ⟨total, stops⟩ := told.stopped tallies totals
        exact ⟨total, ((started tallies _).trans_stops stops).quiet (left _ _)⟩

/-- An outcome with another machine. -/
def withMachine (machine : Machine) :
    EStateM.Result LoadError Session α → EStateM.Result LoadError Session α
  | .ok a t => .ok a { t with machine }
  | .error e t => .error e { t with machine }

/-- The machine of a glyph makes no difference to the components, and they make none to it. -/
theorem runProgram_withMachine (evaluate : Evaluator) (frame : Frame) (program : Bytes)
    (s : Session) (machine : Machine) :
    runProgram evaluate frame program { s with machine } =
      withMachine machine (runProgram evaluate frame program s) := by
  simp only [runProgram_apply]
  cases evaluate frame program ({ s with machine := {} }.record .start) with
  | error e t => rfl
  | ok ending t =>
      dsimp only
      split <;> rfl

/-- What a glyph has passed on counts no more when it is released. -/
theorem withGlyph_separate {font : Font} {glyph : GlyphId} {p : LocatedGlyph → Eval α}
    (body : ∀ located, Effects Ran Broke (p located)) :
    Effects Separate Missed (withGlyph font glyph p) := by
  have fetched : ∀ (s : Session) tallies totals, s.Tells tallies tallies totals (0 :: totals)
      (s.note (.fetched glyph)) :=
    fun s _ _ => .of_adds (Adds.noted (Quiet.refl s) _) ⟨rfl, rfl, rfl, allFit_of_uncalled rfl⟩
  have released := fun located => (body located).andFinally (f := .note (.released glyph))
    (Q := fun u w => ∃ v, u.Ran v ∧ w = v.note (.released glyph))
    (F := fun u w => ∃ v, u.Broke v ∧ w = v.note (.released glyph))
    (fun _ v h => ⟨v, h, rfl⟩) fun _ v h => ⟨v, h, rfl⟩
  -- the release drops the number of values, whatever it came to
  refine ((Effects.locate font glyph).bind released).mono ?_ ?_
  · rintro s _ ⟨_, ⟨-, rfl⟩, v, ran, rfl⟩
    refine ⟨ran.machine, fun tallies totals => ?_⟩
    obtain ⟨total, tells⟩ := ran.tells tallies totals
    refine (fetched s tallies totals).trans (tells.trans ?_)
    exact .of_adds (Adds.noted (Quiet.refl v) _) ⟨rfl, rfl, rfl, allFit_of_uncalled rfl⟩
  · rintro s w (⟨-, rfl⟩ | ⟨_, ⟨-, rfl⟩, v, broke, rfl⟩)
    · exact (Separate.of_quiet (.refl w) rfl).missed
    · intro tallies totals
      obtain ⟨total, stops⟩ := broke tallies totals
      exact ((fetched s tallies totals).trans_stops stops).trans (Adds.noted (Quiet.refl v) _)
        rfl rfl (allFit_of_uncalled rfl)

/-- Components make no difference to the stems of the glyph that they are drawn for. -/
theorem drawComponent_separate {font : Font} {evaluate : Evaluator}
    (body : ∀ frame program, Announces (evaluate frame program)) (depth : Nat) (origin : Point)
    (component : Component) :
    Effects Separate Missed (drawComponent font evaluate depth origin component) := by
  have cleared : Effects Separate Missed (callHook .clearHints) :=
    callHook_separate rfl (fun _ => rfl) fun _ => trivial
  have changed : ∀ f : Draft → Draft,
      Effects Separate (fun _ _ => False) (modify (Session.mapDraft f) : Eval Unit) :=
    fun f => .change fun s => .of_quiet ⟨rfl, rfl, rfl⟩ rfl
  have drawn : ∀ located : LocatedGlyph, Effects Ran Broke (do
      runProgram evaluate ⟨located.subfont, true, depth + 1⟩ located.program
      modify (Session.mapDraft Draft.commit)) := by
    intro located
    refine ((runProgram_ran (body _ _)).bind fun _ => changed _).mono ?_ ?_
    · rintro s u ⟨t, ran, last⟩
      exact ran.trans_separate last
    · rintro s u (broke | ⟨_, _, ⟨⟩⟩)
      exact broke
  refine (cleared.bind fun _ => (changed _).bind fun _ => withGlyph_separate drawn).mono ?_ ?_
  · rintro s w ⟨t, heard, u, moved, run⟩
    exact heard.trans (moved.trans run)
  · rintro s w (failed | ⟨t, heard, ⟨⟨⟩⟩ | ⟨u, moved, run⟩⟩)
    · exact failed
    · exact heard.trans_missed (moved.trans_missed run)

section Composing

variable {font : Font} {limit depth : Nat} {nested : Option Evaluator} {frame : Frame}
  (below : ∀ evaluate, nested = some evaluate → ∀ frame program, Announces (evaluate frame program))

include below

theorem announces_drawComponents (components : List Component) :
    Announces (drawComponents font limit nested depth components) := by
  cases nested with
  | none => exact announces_law.throw _
  | some evaluate =>
      refine announces_law.bind (.mapDraft _) fun _ => announces_law.bind (.gets _) fun origin => ?_
      have drawn : Announces (components.forM (drawComponent font evaluate depth origin)) :=
        announces_law.forM fun component =>
          (drawComponent_separate (below evaluate rfl) depth origin component).mono
            (fun _ _ => Separate.told) fun _ _ => Missed.stopped
      exact drawn.andFinally (fun _ _ h => h.trans (.of_quiet ⟨rfl, rfl, rfl⟩ rfl))
        fun _ _ h => h.quiet ⟨rfl, rfl, rfl⟩

theorem announces_compose (accent : Accent) :
    Announces (compose font limit nested depth accent) := by
  refine announces_law.bind (announces_law.lift _) fun base =>
    announces_law.bind (announces_law.lift _) fun mark =>
      announces_law.bind (.gets _) fun lists => ?_
  split
  · exact .change fun _ => .of_quiet ⟨rfl, rfl, rfl⟩ rfl
  · exact announces_drawComponents below _

theorem announces_endchar :
    Announces (traced depth .endchar (endchar font limit nested frame)) := by
  refine announces_taken (fun _ _ => rfl) (fun _ _ => rfl) fun operands => ?_
  refine announces_law.bind (.mapDraft _) fun _ => ?_
  -- four operands compose an accented glyph, and other operands are a fault
  dsimp only
  split
  · exact announces_law.bind (.popAccent _) fun accent =>
      announces_law.bind (announces_compose below accent) fun _ => .clearStack
  · split
    · exact announces_law.bind (announces_law.throw _) fun _ => .clearStack
    · exact .clearStack

theorem announces_seac : Announces (traced depth .seac (seac font limit nested frame)) := by
  have sees : ∀ s, ∃ a t, (modify (Session.mapMachine fun machine =>
      { machine with widthSeen := true }) : Eval Unit) s = .ok a t ∧ s.Quiet t ∧
        t.machine.tally = { s.machine.tally with widthSeen := true } :=
    fun _ => ⟨(), _, rfl, ⟨rfl, rfl, rfl⟩, rfl⟩
  refine announces_sighted (fun _ _ => rfl) (fun _ _ => rfl) sees fun _ => ?_
  exact announces_law.bind (.gets _) fun operands =>
    announces_law.bind (announces_law.lift _) fun _ => announces_law.bind (.mapDraft _) fun _ =>
      announces_law.bind (.setLeftBearing _ _) fun _ =>
        announces_law.bind (.popAccent _) fun accent =>
          announces_law.bind (announces_compose below accent) fun _ => .clearStack

end Composing

/-! ## Programs -/

theorem announces_pairLaw (font : Font) (limit : Nat) :
    PairLaw font font limit (fun _ _ => True) fun {_} _ p _ => Announces p where
  globalSubrs := rfl
  deeper _ := trivial
  pure := announces_law.pure
  throw := announces_law.throw
  bind first next _ := announces_law.bind first next
  push _ := .changeStack _
  missing depth e := by
    intro s
    exact .error fun _ _ => ⟨_, .of_adds (Adds.recorded (Quiet.refl _)) (.silent _ _)⟩
  popped depth op calls := by
    rcases calls with rfl | rfl
    · exact announces_recorded (fun _ _ => rfl) (fun _ _ => rfl) (.popOperand _)
    · exact announces_recorded (fun _ _ => rfl) (fun _ _ => rfl) (.popOperand _)
  alone alone _ unread := announces_alone alone _ unread
  endchar _ below := announces_endchar fun _ => below.evaluator
  seac _ below := announces_seac fun _ => below.evaluator

/-- Every program announces what it tells. -/
theorem evaluate_announces (font : Font) (limit levels : Nat) (frame : Frame) (program : Bytes) :
    Announces (evaluate font limit levels frame program) :=
  (announces_pairLaw font limit).evaluate trivial program

theorem loadGlyph_separate (font : Font) (glyph : GlyphId) (settings : LoadSettings) :
    Effects Separate Missed (loadGlyph font glyph settings) := by
  have opened : Effects Separate Missed (callHook (.openGlyph glyph)) :=
    callHook_separate rfl (fun _ => rfl) fun _ => trivial
  have closed : Effects Separate Missed (finishGlyph font settings) :=
    .finishGlyph font settings fun _ => callHook_separate rfl (fun _ => rfl) fun _ => trivial
  have drawn : Effects Separate Missed (drawGlyph font settings.depthLimit glyph) := by
    refine withGlyph_separate fun located => ?_
    refine (opened.bind fun _ => runProgram_ran (evaluate_announces _ _ _ _ _)).mono ?_ ?_
    · rintro s u ⟨t, heard, ran⟩
      exact heard.trans_ran ran
    · rintro s u (missed | ⟨t, heard, broke⟩)
      · exact missed.broke
      · exact heard.trans_broke broke
  refine (drawn.bind fun _ => closed).mono ?_ ?_
  · rintro s u ⟨t, first, last⟩
    exact first.trans last
  · rintro s u (missed | ⟨t, first, missed⟩)
    · exact missed
    · exact first.trans_missed missed

end Eval

/-! ## Loads -/

theorem Session.unfailing_initial {settings : LoadSettings} {hook : HintHook}
    (hinting : settings.hinting = true) (answers : ∀ calls, hook.failure calls = none) :
    (Session.initial settings (some hook)).Unfailing :=
  ⟨hook, if_pos hinting, answers⟩

/-- All entries of the records were added to an empty one. -/
theorem Session.Adds.of_initial {settings : LoadSettings} {hook : Option HintHook}
    {events : List LoadEvent} {entries : List TraceEntry} {t : Session}
    (h : (Session.initial settings hook).Adds events entries t) :
    t.journal = events ∧ t.trace = entries :=
  ⟨h.journal.trans (List.append_nil _), h.trace.trans (List.append_nil _)⟩

/-- What the journal and the trace of a load have in common. -/
theorem load_notes {settings : LoadSettings} {hook : HintHook} (font : Font) (glyph : GlyphId)
    (unfailing : (Session.initial settings (some hook)).Unfailing) :
    let report := font.load glyph settings (some hook)
    Breaks [] [] [] report.session.trace report.session.journal ∧
      ∀ loaded, report.result = .ok loaded →
        notes report.session.journal = announced [] report.session.trace := by
  intro report
  rcases (Eval.loadGlyph_separate font glyph settings).load (some hook) with
    ⟨-, separate⟩ | ⟨⟨e, failed⟩, missed⟩
  · obtain ⟨events, entries, added, reports⟩ := separate.tells [] [] unfailing
    obtain ⟨journal, trace⟩ := added.of_initial
    rw [journal, trace]
    exact ⟨reports.breaks, fun _ _ => reports.told⟩
  · obtain ⟨events, entries, added, breaks⟩ := missed [] [] unfailing
    obtain ⟨journal, trace⟩ := added.of_initial
    rw [journal, trace]
    refine ⟨breaks, ?_⟩
    intro loaded succeeded
    cases failed.symm.trans succeeded

/-- Masks are as long as the stems demand that were passed on.  With a hook that never fails, the
values of all stems are those that the trace announces, in that order, and if the load fails, only
what the latest operator announces may be missing.  Stems have pairs of values, and a mask has a bit
for each pair that was passed on for its glyph or component.  A mask operator reads no byte behind
those that it passes on.  A glyph or component does not see the stems of the one that it is drawn
for, and leaves them as they are. -/
theorem load_masks (font : Font) (glyph : GlyphId) (settings : LoadSettings) (hook : HintHook)
    (hinted : settings.flags.noHinting = false) (drawn : settings.flags.metricsOnly = false)
    (answers : ∀ calls, hook.failure calls = none) :
    let report := font.load glyph settings (some hook)
    let told := report.session.hintCalls.filterMap HintCall.note?
    (∀ later call earlier, report.session.journal = later ++ .hinted call :: earlier →
      call.Fits (forwarded [] earlier)) ∧
    announced [] report.session.trace.tail <:+ told ∧
    told <:+ announced [] report.session.trace ∧
    (∀ loaded, report.result = .ok loaded → told = announced [] report.session.trace) ∧
    (∀ (session : Session) (op : MaskOp) (unread : Bytes), session.hook = some hook →
      let size := (session.machine.tally.declare session.machine.stack).maskSize
      Eval.mask op (unread.take size) session = Eval.mask op unread session ∧
        ∀ used after, Eval.mask op unread session = .ok used after →
          used = size ∧ size ≤ unread.length ∧
            after.hintCalls.head? = some (op.call (unread.take size))) ∧
    ∀ (evaluate : Evaluator) (frame : Frame) (program : Bytes) (session : Session)
      (machine : Machine), Eval.runProgram evaluate frame program { session with machine } =
        Eval.withMachine machine (Eval.runProgram evaluate frame program session) := by
  intro report told
  have hinting : settings.hinting = true := by
    simp only [LoadSettings.hinting, hinted, drawn]
    rfl
  obtain ⟨breaks, complete⟩ := load_notes font glyph (Session.unfailing_initial hinting answers)
  refine ⟨?_, breaks.told, breaks.announced, complete, ?_, Eval.runProgram_withMachine⟩
  · intro later call earlier journal
    exact AllFit.fits (journal ▸ breaks.fits)
  · intro session op unread hooked
    exact Eval.mask_take ⟨hook, hooked, answers⟩ op unread

/-- A font of three glyphs with hints: an accented one with a width, a base with nine stems and an
accent with a mask for no stems. -/
def Font.striped : Font where
  glyphs := .ofList
    [some [140, 139, 149, 159, 149, 18, 139, 149, 19, 224, 189, 239, 140, 141, 14],
      some (List.replicate 18 140 ++ [1, 19, 255, 128, 139, 22, 14]), some [20, 14]]
  globalSubrs := .empty
  subfonts := [{}]

theorem load_masks_striped :
    (∃ loaded, (Font.striped.load ⟨0⟩ {} (some .silent)).result = .ok loaded) ∧
      (Font.striped.load ⟨0⟩ {} (some .silent)).session.hintCalls.filterMap HintCall.note? =
        [.mask .cntrmask 0, .mask .hintmask 2, .stems .horizontal (List.replicate 18 1),
          .mask .hintmask 1, .stems .vertical [0, .ofInt 10],
          .stems .horizontal [0, .ofInt 10, .ofInt 20, .ofInt 10]] ∧
      (Font.striped.load ⟨0⟩ {} (some .silent)).session.hintCalls.filterMap HintCall.note? =
        announced [] (Font.striped.load ⟨0⟩ {} (some .silent)).session.trace ∧
      ∀ later call earlier, (Font.striped.load ⟨0⟩ {} (some .silent)).session.journal =
        later ++ .hinted call :: earlier → call.Fits (forwarded [] earlier) := by
  obtain ⟨fits, -, -, complete, -⟩ :=
    load_masks Font.striped ⟨0⟩ {} .silent rfl rfl fun _ => rfl
  obtain ⟨loaded, drawn⟩ : ∃ loaded,
      (Font.striped.load ⟨0⟩ {} (some .silent)).result = .ok loaded :=
    ok_of_isOk (by decide +kernel)
  exact ⟨⟨loaded, drawn⟩, by decide +kernel, complete loaded drawn, fits⟩

end Type2Glyphs
