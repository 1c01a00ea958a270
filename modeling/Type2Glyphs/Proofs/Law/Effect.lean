import Mathlib.Logic.Relation
import Type2Glyphs.Proofs.Law
import Type2Glyphs.Proofs.Loading

/-!
# Effect — what programs do to the records of a session

`Effects P E p` says what the program `p` does to a session: the sessions before and after it are
related by `P` if it succeeds, and by `E` if it fails.

Most steps are quiet, which means that they change neither the hint hook nor a record.  What holds
for quiet steps and is kept from step to step holds of all programs: `EffectLaw` lists what there is
to show beyond that, and `EffectLaw.programLaw` makes a law of it.  What is done around the programs
of glyphs and components is put together from its parts, `Effects.drawComponent` and
`Effects.drawGlyph`.
-/

namespace Type2Glyphs

open Outcome Relation

variable {α β : Type}

/-! ## Sessions -/

namespace Session

/-- The second session has the hint hook of the first one, and some entries more in its records. -/
structure Adds (events : List LoadEvent) (entries : List TraceEntry) (s t : Session) : Prop where
  hook : t.hook = s.hook
  journal : t.journal = events ++ s.journal
  trace : t.trace = entries ++ s.trace

/-- The second session has the hint hook and the records of the first one. -/
abbrev Quiet : Session → Session → Prop :=
  Adds [] []

/-- An effect between entries that are added before and after it. -/
def Between (events : List LoadEvent) (entries : List TraceEntry) (P : Session → Session → Prop)
    (events' : List LoadEvent) (entries' : List TraceEntry) (s v : Session) : Prop :=
  ∃ t u, s.Adds events entries t ∧ P t u ∧ u.Adds events' entries' v

theorem Quiet.refl (s : Session) : s.Quiet s :=
  ⟨rfl, rfl, rfl⟩

variable {events events' : List LoadEvent} {entries entries' : List TraceEntry}
  {P Q : Session → Session → Prop} {s t u : Session}

theorem Adds.trans (first : s.Adds events entries t) (next : t.Adds events' entries' u) :
    s.Adds (events' ++ events) (entries' ++ entries) u where
  hook := next.hook.trans first.hook
  journal := by rw [next.journal, first.journal, List.append_assoc]
  trace := by rw [next.trace, first.trace, List.append_assoc]

theorem Between.mono (h : Between events entries P events' entries' s t)
    (weaker : ∀ s t, P s t → Q s t) : Between events entries Q events' entries' s t := by
  obtain ⟨u, v, before, inner, after⟩ := h
  exact ⟨u, v, before, weaker _ _ inner, after⟩

theorem Between.quiet_cons (first : s.Quiet t)
    (h : Between events entries P events' entries' t u) :
    Between events entries P events' entries' s u := by
  obtain ⟨v, w, before, inner, after⟩ := h
  refine ⟨v, w, ?_, inner, after⟩
  simpa only [List.append_nil] using first.trans before

theorem Between.snoc_quiet (h : Between events entries P events' entries' s t)
    (last : t.Quiet u) : Between events entries P events' entries' s u := by
  obtain ⟨v, w, before, inner, after⟩ := h
  exact ⟨v, w, before, inner, after.trans last⟩

end Session

/-- The glyph is found in the font. -/
def Font.Locates (font : Font) (glyph : GlyphId) : Prop :=
  ∃ located, font.locate glyph = .ok located

/-! ## Outcomes -/

/-- A program ends with a value in a session of which `P` holds, or with an error in one of which
`E` holds. -/
inductive Ends (P E : Session → Prop) : EStateM.Result LoadError Session α → Prop
  | ok {a : α} {t : Session} (h : P t) : Ends P E (.ok a t)
  | error {e : LoadError} {t : Session} (h : E t) : Ends P E (.error e t)

theorem Ends.mono {P E P' E' : Session → Prop} {result : EStateM.Result LoadError Session α}
    (h : Ends P E result) (ok : ∀ t, P t → P' t) (error : ∀ t, E t → E' t) :
    Ends P' E' result := by
  cases h with
  | ok h => exact .ok (ok _ h)
  | error h => exact .error (error _ h)

/-- The sessions before and after the program are related by `P` if it succeeds, and else by `E`. -/
def Effects (P E : Session → Session → Prop) (p : Eval α) : Prop :=
  ∀ s, Ends (P s) (E s) (p s)

/-! ## Programs -/

namespace Effects

variable {P E Q F : Session → Session → Prop}

theorem mono {p : Eval α} (h : Effects P E p) (ok : ∀ s t, P s t → Q s t)
    (error : ∀ s t, E s t → F s t) : Effects Q F p :=
  fun s => (h s).mono (ok s) (error s)

theorem change {f : Session → Session} (h : ∀ s, P s (f s)) :
    Effects P E (modify f : Eval PUnit) :=
  fun s => .ok (h s)

/-- One program after another. -/
theorem bind {p : Eval α} {k : α → Eval β} (first : Effects P E p)
    (next : ∀ a, Effects Q F (k a)) :
    Effects (Comp P Q) (fun s u => E s u ∨ Comp P F s u) (p >>= k) := by
  intro s
  have before := first s
  simp only [bind_apply]
  revert before
  generalize p s = result
  intro before
  cases before with
  | error h => exact .error (.inl h)
  | @ok a t h =>
      exact (next a t).mono (fun u after => ⟨t, h, after⟩) fun u after => .inr ⟨t, h, after⟩

/-- Something is done last of all, after a failure too. -/
theorem andFinally {p : Eval α} {f : Session → Session} (body : Effects P E p)
    (ok : ∀ s t, P s t → Q s (f t)) (error : ∀ s t, E s t → F s (f t)) :
    Effects Q F (Eval.andFinally p f) := by
  intro s
  have before := body s
  simp only [Eval.andFinally]
  revert before
  generalize p s = result
  intro before
  cases before with
  | ok h => exact .ok (ok _ _ h)
  | error h => exact .error (error _ _ h)

/-- Programs on the draft are quiet. -/
theorem onDraft (ok : ∀ s t, s.Quiet t → P s t) (error : ∀ s t, s.Quiet t → E s t)
    (program : Draft.Program α) : Effects P E (Eval.onDraft program) := by
  intro s
  simp only [Eval.onDraft_apply]
  cases program s.draft with
  | ok a draft => exact .ok (ok _ _ ⟨rfl, rfl, rfl⟩)
  | error e draft => exact .error (error _ _ ⟨rfl, rfl, rfl⟩)

/-- A call that the hint hook hears is noted, and it may end hinting or fail. -/
theorem callHook {call : HintCall} (unhooked : ∀ s, s.hook = none → P s s)
    (heard : ∀ s hook, s.hook = some hook → hook.failure (call :: s.hintCalls) = none →
      P s (s.note (.hinted call)))
    (muted : ∀ s hook reason, s.hook = some hook →
      hook.failure (call :: s.hintCalls) = some (.advisory reason) →
      P s { (s.note (.hinted call)).note (.hintingDisabled reason) with hook := none })
    (fatal : ∀ s hook reason, s.hook = some hook →
      hook.failure (call :: s.hintCalls) = some (.fatal reason) →
      E s (s.note (.hinted call))) : Effects P E (Eval.callHook call) := by
  intro s
  simp only [callHook_apply]
  cases hooked : s.hook with
  | none => exact .ok (unhooked s hooked)
  | some hook =>
      dsimp only
      cases failure : hook.failure (call :: s.hintCalls) with
      | none => exact .ok (heard s hook hooked failure)
      | some failed =>
          cases failed with
          | fatal reason => exact .error (fatal s hook reason hooked failure)
          | advisory reason => exact .ok (muted s hook reason hooked failure)

/-- The evaluation of a whole program stands between two entries of the trace. -/
theorem runProgram {evaluate : Evaluator} {frame : Frame} {program : Bytes}
    (body : Effects P E (evaluate frame program)) :
    Effects (Session.Between [] [.start] P [] [.stop])
      (Session.Between [] [.start] (fun s t => P s t ∨ E s t) [] [])
      (Eval.runProgram evaluate frame program) := by
  intro s
  have evaluated := body ({ s with machine := {} }.record .start)
  have started : s.Adds [] [.start] ({ s with machine := {} }.record .start) := ⟨rfl, rfl, rfl⟩
  simp only [Eval.runProgram_apply]
  revert evaluated
  generalize evaluate frame program _ = result
  intro evaluated
  cases evaluated with
  | error h => exact .error ⟨_, _, started, .inr h, ⟨rfl, rfl, rfl⟩⟩
  | @ok ending t h =>
      dsimp only
      -- a program that does not end is an error, although its evaluation succeeds
      split
      · exact .ok ⟨_, _, started, h, ⟨rfl, rfl, rfl⟩⟩
      · exact .error ⟨_, _, started, .inl h, ⟨rfl, rfl, rfl⟩⟩

/-- A glyph is fetched when it is found, and else nothing is done. -/
theorem locate (font : Font) (glyph : GlyphId) :
    Effects (fun s t => font.Locates glyph ∧ t = s.note (.fetched glyph))
      (fun s t => ¬ font.Locates glyph ∧ t = s) (Eval.locate font glyph) := by
  intro s
  rw [locate_apply]
  cases found : font.locate glyph with
  | error e =>
      refine .error ⟨?_, rfl⟩
      rintro ⟨located, found'⟩
      cases found.symm.trans found'
  | ok located => exact .ok ⟨⟨located, found⟩, rfl⟩

/-- What is done with a located glyph stands between fetching and releasing it. -/
theorem withGlyph {font : Font} {glyph : GlyphId} {p : LocatedGlyph → Eval α}
    (body : ∀ located, Effects P E (p located)) :
    Effects
      (fun s t => font.Locates glyph ∧
        Session.Between [.fetched glyph] [] P [.released glyph] [] s t)
      (fun s t => ¬ font.Locates glyph ∧ s.Quiet t ∨ font.Locates glyph ∧
        Session.Between [.fetched glyph] [] E [.released glyph] [] s t)
      (Eval.withGlyph font glyph p) := by
  -- the release is done on both ways out
  have released := fun located => (body located).andFinally (f := .note (.released glyph))
    (Q := fun u w => ∃ v, P u v ∧ v.Adds [.released glyph] [] w)
    (F := fun u w => ∃ v, E u v ∧ v.Adds [.released glyph] [] w)
    (fun _ v h => ⟨v, h, ⟨rfl, rfl, rfl⟩⟩) fun _ v h => ⟨v, h, ⟨rfl, rfl, rfl⟩⟩
  refine ((locate font glyph).bind released).mono ?_ ?_
  · rintro s w ⟨_, ⟨found, rfl⟩, v, h, last⟩
    exact ⟨found, s.note (.fetched glyph), v, ⟨rfl, rfl, rfl⟩, h, last⟩
  · rintro s w (⟨lost, rfl⟩ | ⟨_, ⟨found, rfl⟩, v, h, last⟩)
    · exact .inl ⟨lost, .refl w⟩
    · exact .inr ⟨found, s.note (.fetched glyph), v, ⟨rfl, rfl, rfl⟩, h, last⟩

/-! ## Glyphs and components -/

/-- A component is drawn by its program, after the hint hook has heard of it. -/
theorem drawComponent {font : Font} {evaluate : Evaluator} {depth : Nat} {component : Component}
    {C D : Session → Session → Prop} (clear : Effects C D (Eval.callHook .clearHints))
    (body : ∀ frame program, frame.depth = depth + 1 → Effects P E (evaluate frame program))
    (origin : Point) :
    Effects
      (Comp C fun s t => font.Locates component.glyph ∧
        Session.Between [.fetched component.glyph] [] (Session.Between [] [.start] P [] [.stop])
          [.released component.glyph] [] s t)
      (fun s t => D s t ∨ Comp C (fun s t => ¬ font.Locates component.glyph ∧ s.Quiet t ∨
        font.Locates component.glyph ∧ Session.Between [.fetched component.glyph] []
          (Session.Between [] [.start] (fun s t => P s t ∨ E s t) [] [])
          [.released component.glyph] [] s t) s t)
      (Eval.drawComponent font evaluate depth origin component) := by
  have moved : Effects Session.Quiet (fun _ _ => False) (modify (Session.mapDraft fun draft =>
      { draft with origin := origin + component.offset }) : Eval Unit) :=
    .change fun _ => ⟨rfl, rfl, rfl⟩
  have committed : Effects Session.Quiet (fun _ _ => False)
      (modify (Session.mapDraft Draft.commit) : Eval Unit) := .change fun _ => ⟨rfl, rfl, rfl⟩
  have drawn : ∀ located : LocatedGlyph, Effects (Session.Between [] [.start] P [] [.stop])
      (Session.Between [] [.start] (fun s t => P s t ∨ E s t) [] []) (do
        Eval.runProgram evaluate ⟨located.subfont, true, depth + 1⟩ located.program
        modify (Session.mapDraft Draft.commit)) := by
    intro located
    refine ((body ⟨_, _, _⟩ _ rfl).runProgram.bind fun _ => committed).mono ?_ ?_
    · rintro s u ⟨t, ran, last⟩
      exact ran.snoc_quiet last
    · rintro s u (broke | ⟨_, _, ⟨⟩⟩)
      exact broke
  refine (clear.bind fun _ => moved.bind fun _ => withGlyph drawn).mono ?_ ?_
  · rintro s w ⟨t, heard, u, moved, located, run⟩
    exact ⟨t, heard, located, run.quiet_cons moved⟩
  · rintro s w (h | ⟨t, heard, ⟨⟨⟩⟩ | ⟨u, moved, ⟨lost, quiet⟩ | ⟨located, run⟩⟩⟩)
    · exact .inl h
    · exact .inr ⟨t, heard, .inl ⟨lost, moved.trans quiet⟩⟩
    · exact .inr ⟨t, heard, .inr ⟨located, run.quiet_cons moved⟩⟩

/-- A glyph is drawn by its program, after the hint hook was told that it is opened. -/
theorem drawGlyph {font : Font} {limit : Nat} {glyph : GlyphId} {C D : Session → Session → Prop}
    (opened : Effects C D (Eval.callHook (.openGlyph glyph)))
    (body : ∀ frame program, frame.depth = 0 →
      Effects P E (Eval.evaluate font limit limit frame program)) :
    Effects
      (fun s t => font.Locates glyph ∧ Session.Between [.fetched glyph] []
        (Comp C (Session.Between [] [.start] P [] [.stop])) [.released glyph] [] s t)
      (fun s t => ¬ font.Locates glyph ∧ s.Quiet t ∨
        font.Locates glyph ∧ Session.Between [.fetched glyph] []
          (fun s t => D s t ∨
            Comp C (Session.Between [] [.start] (fun s t => P s t ∨ E s t) [] []) s t)
          [.released glyph] [] s t)
      (Eval.drawGlyph font limit glyph) :=
  withGlyph fun _ => opened.bind fun _ => (body ⟨_, _, _⟩ _ rfl).runProgram

/-- What is left to do to a glyph that was drawn is to hand over its outline. -/
theorem finishGlyph (font : Font) (settings : LoadSettings)
    (closed : ∀ outline, Effects P E (Eval.callHook (.close outline))) :
    Effects P E (Eval.finishGlyph font settings) := by
  intro s
  have handed := closed s.draft.finish.1 s
  rw [finishGlyph_apply]
  revert handed
  generalize Eval.callHook (.close s.draft.finish.1) s = result
  intro handed
  cases handed with
  | ok h => exact .ok h
  | error h => exact .error h

/-- A load ends in a session that its programs made of the initial one. -/
theorem load {font : Font} {glyph : GlyphId} {settings : LoadSettings}
    (loading : Effects P E (Eval.loadGlyph font glyph settings)) (hook : Option HintHook) :
    let report := font.load glyph settings hook
    (∃ loaded, report.result = .ok loaded) ∧ P (.initial settings hook) report.session ∨
      (∃ e, report.result = .error e) ∧ E (.initial settings hook) report.session := by
  have ended := loading (.initial settings hook)
  simp only [Font.load]
  revert ended
  generalize Eval.loadGlyph font glyph settings _ = result
  intro ended
  cases ended with
  | ok h => exact .inl ⟨⟨_, rfl⟩, h⟩
  | error h => exact .inr ⟨⟨_, rfl⟩, h⟩

end Effects

/-! ## Laws -/

/-- An effect that quiet steps have and that is kept from step to step.  What is left are the steps
that change a record, and the components of accented glyphs. -/
structure EffectLaw (font : Font) (limit : Nat) (P E : Nat → Session → Session → Prop) : Prop where
  quiet : ∀ {levels} {s t : Session}, s.Quiet t → P levels s t
  fails : ∀ {levels s t}, P levels s t → E levels s t
  trans : ∀ {levels s t u}, P levels s t → P levels t u → P levels s u
  transFails : ∀ {levels s t u}, P levels s t → E levels t u → E levels s u
  failsQuiet : ∀ {levels} {s t u : Session}, E levels s t → t.Quiet u → E levels s u
  deeper : ∀ {levels s t}, P levels s t → P (levels + 1) s t
  deeperFails : ∀ {levels s t}, E levels s t → E (levels + 1) s t
  drawn : ∀ {levels} (s : Session) number, P levels s (s.record (.drawn number))
  operator : ∀ {levels depth}, depth + levels = limit → ∀ (s : Session) op,
    P levels s (s.record (.operator depth op s.machine.stack))
  stems : ∀ {levels} direction values,
    Effects (P levels) (E levels) (Eval.callHook (.stems direction values))
  mask : ∀ {levels} (op : MaskOp) bits,
    Effects (P levels) (E levels) (Eval.callHook (op.call bits))
  component : ∀ {levels depth : Nat} {evaluate : Evaluator},
    (∀ frame program, frame.depth = depth + 1 →
      Effects (P levels) (E levels) (evaluate frame program)) →
    depth + (levels + 1) = limit → ∀ origin component,
    Effects (P (levels + 1)) (E (levels + 1))
      (Eval.drawComponent font evaluate depth origin component)

namespace EffectLaw

variable {font : Font} {limit levels : Nat} {P E : Nat → Session → Session → Prop}

theorem pure (law : EffectLaw font limit P E) (a : α) :
    Effects (P levels) (E levels) (Pure.pure a : Eval α) :=
  fun s => .ok (law.quiet (.refl s))

theorem bind (law : EffectLaw font limit P E) {p : Eval α} {k : α → Eval β}
    (first : Effects (P levels) (E levels) p)
    (next : ∀ a, Effects (P levels) (E levels) (k a)) :
    Effects (P levels) (E levels) (p >>= k) :=
  (first.bind next).mono (fun _ _ ⟨_, h, h'⟩ => law.trans h h') fun _ _ failed =>
    failed.elim id fun ⟨_, h, h'⟩ => law.transFails h h'

theorem gets (law : EffectLaw font limit P E) (part : Session → α) :
    Effects (P levels) (E levels) (Eval.gets part) :=
  fun s => .ok (law.quiet (.refl s))

theorem changes (law : EffectLaw font limit P E) {f : Session → Session}
    (h : ∀ s : Session, s.Quiet (f s)) :
    Effects (P levels) (E levels) (modify f : Eval PUnit) :=
  .change fun s => law.quiet (h s)

theorem onDraft (law : EffectLaw font limit P E) (program : Draft.Program α) :
    Effects (P levels) (E levels) (Eval.onDraft program) :=
  .onDraft (fun _ _ => law.quiet) (fun _ _ h => law.fails (law.quiet h)) program

theorem localLaw (law : EffectLaw font limit P E) (levels : Nat) :
    LocalLaw fun {_} p => Effects (P levels) (E levels) p where
  pure := law.pure
  throw _ := fun s => .error (law.fails (law.quiet (.refl s)))
  bind := law.bind
  gets _ := law.gets _
  mapMachine _ := law.changes fun _ => ⟨rfl, rfl, rfl⟩
  isOpen := law.gets _
  startContour _ := law.onDraft _
  addOnCurve _ := law.onDraft _
  addCurve _ _ _ := law.onDraft _
  stems := law.stems
  mask := law.mask
  nextRandom := law.changes fun _ => ⟨rfl, rfl, rfl⟩
  random := law.gets _
  drawn number := .change fun s => law.drawn s number

/-- An effect that is kept from step to step is one of every program. -/
theorem programLaw (law : EffectLaw font limit P E) :
    ProgramLaw font limit fun levels {_} p => Effects (P levels) (E levels) p where
  steps := law.localLaw
  deeper h := fun s => (h s).mono (fun _ => law.deeper) fun _ => law.deeperFails
  operator deep op := .change fun s => law.operator deep s op
  closeContour _ := law.changes fun _ => ⟨rfl, rfl, rfl⟩
  setLeftBearing _ frame bearing := by
    intro s
    simp only [Eval.setLeftBearing_apply]
    exact .ok (law.quiet ⟨rfl, rfl, rfl⟩)
  listsComponents _ := law.gets _
  list _ _ := law.changes fun _ => ⟨rfl, rfl, rfl⟩
  commit _ := law.changes fun _ => ⟨rfl, rfl, rfl⟩
  origin _ := law.gets _
  backAt _ _ h := h.andFinally (fun _ _ h => law.trans h (law.quiet ⟨rfl, rfl, rfl⟩))
    fun _ _ h => law.failsQuiet h ⟨rfl, rfl, rfl⟩
  component := law.component

end EffectLaw

/-! ## Records -/

/-- An operator in the trace is nested no deeper than the limit. -/
def TraceEntry.Within (limit : Nat) : TraceEntry → Prop
  | .operator depth _ _ => depth ≤ limit
  | _ => True

/-- An effect on the records that programs have whether they fail or not.  A glyph that is fetched
takes a level. -/
structure RecordLaw (font : Font) (limit : Nat) (P : Nat → Session → Session → Prop) : Prop where
  quiet : ∀ {levels} {s t : Session}, s.Quiet t → P levels s t
  trans : ∀ {levels s t u}, P levels s t → P levels t u → P levels s u
  deeper : ∀ {levels s t}, P levels s t → P (levels + 1) s t
  traced : ∀ {levels} {s t : Session} {entry : TraceEntry}, s.Adds [] [entry] t →
    entry.Within limit → P levels s t
  callHook : ∀ {levels} call, Effects (P levels) (P levels) (Eval.callHook call)
  fetched : ∀ {levels glyph s t}, font.Locates glyph →
    Session.Between [.fetched glyph] [] (P levels) [.released glyph] [] s t → P (levels + 1) s t

namespace RecordLaw

variable {font : Font} {limit levels : Nat} {P : Nat → Session → Session → Prop} {s t : Session}

/-- A whole program has the effect, with the entries around it. -/
theorem ran (law : RecordLaw font limit P)
    (h : Session.Between [] [.start] (P levels) [] [.stop] s t) : P levels s t := by
  obtain ⟨u, v, started, inner, stopped⟩ := h
  exact law.trans (law.traced started trivial) (law.trans inner (law.traced stopped trivial))

/-- A program that was left has the effect too. -/
theorem broke (law : RecordLaw font limit P)
    (h : Session.Between [] [.start] (fun s t => P levels s t ∨ P levels s t) [] [] s t) :
    P levels s t := by
  obtain ⟨u, v, started, inner, left⟩ := h
  have body : P levels u v := inner.elim id id
  exact law.trans (law.traced started trivial) (law.trans body (law.quiet left))

theorem effectLaw (law : RecordLaw font limit P) : EffectLaw font limit P P where
  quiet := law.quiet
  fails h := h
  trans := law.trans
  transFails := law.trans
  failsQuiet h next := law.trans h (law.quiet next)
  deeper := law.deeper
  deeperFails := law.deeper
  drawn s number := by
    have added : s.Adds [] [.drawn number] (s.record (.drawn number)) := ⟨rfl, rfl, rfl⟩
    exact law.traced added trivial
  operator {_ depth} deep s op := by
    have added : s.Adds [] [.operator depth op s.machine.stack]
        (s.record (.operator depth op s.machine.stack)) := ⟨rfl, rfl, rfl⟩
    have within : depth ≤ limit := Nat.le_of_add_right_le (Nat.le_of_eq deep)
    exact law.traced added within
  stems _ _ := law.callHook _
  mask _ _ := law.callHook _
  component {levels _ _} body _ origin component := by
    have cleared : Effects (P (levels + 1)) (P (levels + 1)) (Eval.callHook .clearHints) :=
      law.callHook _
    refine (cleared.drawComponent body origin).mono ?_ ?_
    -- the component takes the level that its accented glyph has more
    · rintro s u ⟨t, heard, found, drawn⟩
      exact law.trans heard (law.fetched found (drawn.mono fun _ _ => law.ran))
    · rintro s u (failed | ⟨t, heard, ⟨-, quiet⟩ | ⟨found, drawn⟩⟩)
      · exact failed
      · exact law.trans heard (law.quiet quiet)
      · exact law.trans heard (law.fetched found (drawn.mono fun _ _ => law.broke))

/-- A glyph that is found is drawn between fetching and releasing it, and nothing is done with one
that is not found. -/
theorem drawGlyph (law : RecordLaw font limit P) (glyph : GlyphId) :
    Effects
      (fun s t => font.Locates glyph ∧
        Session.Between [.fetched glyph] [] (P limit) [.released glyph] [] s t)
      (fun s t => ¬ font.Locates glyph ∧ s.Quiet t ∨ font.Locates glyph ∧
        Session.Between [.fetched glyph] [] (P limit) [.released glyph] [] s t)
      (Eval.drawGlyph font limit glyph) := by
  have body : ∀ frame program, frame.depth = 0 →
      Effects (P limit) (P limit) (Eval.evaluate font limit limit frame program) :=
    fun frame program top => law.effectLaw.programLaw.evaluate (by omega) program
  have opened : Effects (P limit) (P limit) (Eval.callHook (.openGlyph glyph)) := law.callHook _
  refine (opened.drawGlyph body).mono ?_ ?_
  · rintro s u ⟨found, drawn⟩
    refine ⟨found, drawn.mono ?_⟩
    rintro s u ⟨t, heard, run⟩
    exact law.trans heard (law.ran run)
  · rintro s u (lost | ⟨found, drawn⟩)
    · exact .inl lost
    · refine .inr ⟨found, drawn.mono ?_⟩
      rintro s u (failed | ⟨t, heard, run⟩)
      · exact failed
      · exact law.trans heard (law.broke run)

/-- On whatever way a load ends, a glyph that is found was fetched and released with the effect in
between; all that can follow is that the outline is handed over. -/
theorem load {settings : LoadSettings} (law : RecordLaw font settings.depthLimit P)
    (glyph : GlyphId) (hook : Option HintHook) :
    let report := font.load glyph settings hook
    ¬ font.Locates glyph ∧ (Session.initial settings hook).Quiet report.session ∨
      font.Locates glyph ∧ Comp
        (Session.Between [.fetched glyph] [] (P settings.depthLimit) [.released glyph] []) (P 0)
        (.initial settings hook) report.session := by
  have finished : Effects (P 0) (P 0) (Eval.finishGlyph font settings) :=
    .finishGlyph font settings fun _ => law.callHook _
  have loaded := (law.drawGlyph glyph).bind fun _ => finished
  rcases loaded.load hook with ⟨-, t, ⟨found, drawn⟩, closed⟩ |
    ⟨-, (lost | ⟨found, drawn⟩) | ⟨t, ⟨found, drawn⟩, closed⟩⟩
  · exact .inr ⟨found, t, drawn, closed⟩
  · exact .inl lost
  · exact .inr ⟨found, _, drawn, law.quiet (.refl _)⟩
  · exact .inr ⟨found, t, drawn, closed⟩

end RecordLaw

end Type2Glyphs
