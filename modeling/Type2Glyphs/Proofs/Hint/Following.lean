import Type2Glyphs.Proofs.Hint.Listener
import Type2Glyphs.Proofs.Law
import Type2Glyphs.Proofs.Loading

/-!
# Following — a load with a hint hook goes along with one whose hook is silent

Programs do not look at the hint hook.  So a load with any hook, or with none, does what the load
with the silent hook does, for as long as its own hook does not fail fatally.  What the silent hook
hears says what the other one hears: `Session.Heard` relates the sessions of the two loads, and
`Follows` the outcomes.

Where the first load has been ended by its hook, the second one goes on.  All that is needed to know
about the rest of it is that no call is ever forgotten; so `Keeps` says this too.
-/

namespace Type2Glyphs

open Outcome

variable {α β : Type} {given : Listener}

/-! ## Sessions -/

namespace Session

/-- The hint hook of a session, and what it heard. -/
def listener (session : Session) : Listener :=
  ⟨session.hook, session.hintCalls⟩

/-- The sessions agree but for what has to do with hints.  The hook of the second one is silent; of
what it heard, `given` heard what was heard in the first one. -/
structure Heard (given : Listener) (s t : Session) : Prop where
  same : s = { t with hook := s.hook, journal := s.journal, trace := s.trace }
  silent : t.hook = some .silent
  heard : given.hearAll t.hintCalls = .ok s.listener

/-- A change of the session that has nothing to do with hints. -/
structure Aside (f : Session → Session) : Prop where
  listener : ∀ s, (f s).listener = s.listener
  same : ∀ t hook journal trace, ∃ hook' journal' trace',
    f { t with hook := hook, journal := journal, trace := trace } =
      { f t with hook := hook', journal := journal', trace := trace' }

namespace Aside

theorem hintCalls {f : Session → Session} (aside : Aside f) (s : Session) :
    (f s).hintCalls = s.hintCalls :=
  congrArg Listener.calls (aside.listener s)

theorem mapMachine (f : Machine → Machine) : Aside (Session.mapMachine f) :=
  ⟨fun _ => rfl, fun _ _ _ _ => ⟨_, _, _, rfl⟩⟩

theorem mapDraft (f : Draft → Draft) : Aside (Session.mapDraft f) :=
  ⟨fun _ => rfl, fun _ _ _ _ => ⟨_, _, _, rfl⟩⟩

theorem mapRandom (f : UInt32 → UInt32) : Aside fun s => { s with random := f s.random } :=
  ⟨fun _ => rfl, fun _ _ _ _ => ⟨_, _, _, rfl⟩⟩

theorem list (components : List Component) :
    Aside fun s => { s with components := s.components ++ components } :=
  ⟨fun _ => rfl, fun _ _ _ _ => ⟨_, _, _, rfl⟩⟩

theorem record (entry : TraceEntry) : Aside (Session.record entry) :=
  ⟨fun _ => rfl, fun _ _ _ _ => ⟨_, _, _, rfl⟩⟩

theorem recordOperator (depth : Nat) (op : Operator) :
    Aside fun s => s.record (.operator depth op s.machine.stack) :=
  ⟨fun _ => rfl, fun _ _ _ _ => ⟨_, _, _, rfl⟩⟩

theorem fetched (glyph : GlyphId) : Aside (Session.note (.fetched glyph)) :=
  ⟨fun _ => rfl, fun _ _ _ _ => ⟨_, _, _, rfl⟩⟩

theorem released (glyph : GlyphId) : Aside (Session.note (.released glyph)) :=
  ⟨fun _ => rfl, fun _ _ _ _ => ⟨_, _, _, rfl⟩⟩

end Aside

theorem Heard.aside {s t : Session} {f : Session → Session} (h : s.Heard given t)
    (aside : Aside f) : (f s).Heard given (f t) where
  same := by
    obtain ⟨hook, journal, trace, changed⟩ := aside.same t s.hook s.journal s.trace
    rw [← h.same] at changed
    rw [changed]
  silent := (congrArg Listener.hook (aside.listener t)).trans h.silent
  heard := by
    rw [aside.hintCalls, aside.listener]
    exact h.heard

/-- What the first hook becomes by a call, if it does not end the load. -/
theorem Heard.hear {s s' t : Session} {call : HintCall} (h : s.Heard given t)
    (same : s' = { s with hook := s'.hook, journal := s'.journal })
    (heard : s.listener.hear call = .ok s'.listener) :
    s'.Heard given (t.note (.hinted call)) where
  same := by
    rw [same, h.same]
    rfl
  silent := h.silent
  heard := (Listener.hearAll_cons h.heard call).trans heard

end Session

/-! ## Outcomes -/

/-- The value or error in which a program ends. -/
def outcome : EStateM.Result LoadError Session α → Except LoadError α
  | .ok a _ => .ok a
  | .error e _ => .error e

/-- The first outcome is like the second one, or its hint hook has ended the load before. -/
inductive Follows (given : Listener) :
    EStateM.Result LoadError Session α → EStateM.Result LoadError Session α → Prop
  | ok {a : α} {s t : Session} (h : s.Heard given t) : Follows given (.ok a s) (.ok a t)
  | error {e : LoadError} {s t : Session} (h : s.Heard given t) :
      Follows given (.error e s) (.error e t)
  | halted {s : Session} {reason : String} {result : EStateM.Result LoadError Session α}
      (h : given.hearAll (finalSession result).hintCalls = .error ⟨s.hintCalls, reason⟩) :
      Follows given (.error (.hinting (.fatal reason)) s) result

/-- If the second run says nothing that ends the first one, both come to the same. -/
theorem Follows.of_heard {result result' : EStateM.Result LoadError Session α}
    (h : Follows given result result') {listener : Listener}
    (heard : given.hearAll (finalSession result').hintCalls = .ok listener) :
    outcome result = outcome result' ∧ (finalSession result).listener = listener := by
  cases h with
  | ok h => exact ⟨rfl, Except.ok.inj (h.heard.symm.trans heard)⟩
  | error h => exact ⟨rfl, Except.ok.inj (h.heard.symm.trans heard)⟩
  | halted h => cases h.symm.trans heard

theorem Follows.of_halted {result result' : EStateM.Result LoadError Session α}
    (h : Follows given result result') {halt : Halt}
    (halted : given.hearAll (finalSession result').hintCalls = .error halt) :
    outcome result = .error (.hinting (.fatal halt.reason)) ∧
      (finalSession result).hintCalls = halt.calls := by
  cases h with
  | ok h => cases h.heard.symm.trans halted
  | error h => cases h.heard.symm.trans halted
  | halted h =>
      cases h.symm.trans halted
      exact ⟨rfl, rfl⟩

/-- The program forgets no call, and from sessions that agree it goes along with itself. -/
structure Keeps (given : Listener) (p : Eval α) : Prop where
  grows : ∀ t, t.hintCalls <:+ (finalSession (p t)).hintCalls
  follows : ∀ {s t}, s.Heard given t → Follows given (p s) (p t)

namespace Keeps

/-! ## Programs -/

theorem pure (a : α) : Keeps given (Pure.pure a : Eval α) where
  grows _ := List.suffix_refl _
  follows h := .ok h

theorem throw (e : LoadError) : Keeps given (throw e : Eval α) where
  grows _ := List.suffix_refl _
  follows h := .error h

theorem bind {p : Eval α} {k : α → Eval β} (first : Keeps given p)
    (next : ∀ a, Keeps given (k a)) : Keeps given (p >>= k) where
  grows t := by
    have before := first.grows t
    simp only [bind_apply]
    revert before
    cases p t with
    | error e u => exact id
    | ok a u => exact fun before => before.trans ((next a).grows u)
  follows {s t} h := by
    have both := first.follows h
    simp only [bind_apply]
    revert both
    generalize p s = result
    generalize p t = result'
    intro both
    cases both with
    | ok h => exact (next _).follows h
    | error h => exact .error h
    | halted h =>
        -- the second run goes on, but nothing that it says is heard in the first one
        cases result' with
        | error e u => exact .halted h
        | ok a u => exact .halted (Listener.hearAll_of_suffix ((next a).grows u) h)

theorem gets {part : Session → α} (same : ∀ t hook journal trace,
    part { t with hook := hook, journal := journal, trace := trace } = part t) :
    Keeps given (Eval.gets part) where
  grows _ := List.suffix_refl _
  follows {s t} h := by
    have equal : part s = part t := by
      rw [h.same]
      exact same t _ _ _
    simp only [gets_apply, equal]
    exact .ok h

theorem change {f : Session → Session} (aside : Session.Aside f) :
    Keeps given (modify f : Eval PUnit) where
  grows t := by
    simp only [modify_apply, finalSession, aside.hintCalls]
    exact List.suffix_refl _
  follows h := .ok (h.aside aside)

theorem onDraft (program : Draft.Program α) : Keeps given (Eval.onDraft program) where
  grows t := by
    simp only [Eval.onDraft_apply]
    cases program t.draft <;> exact List.suffix_refl _
  follows {s t} h := by
    have drafts : s.draft = t.draft := by rw [h.same]
    simp only [Eval.onDraft_apply, drafts]
    cases program t.draft with
    | ok a draft => exact .ok (h.aside (.mapDraft fun _ => draft))
    | error e draft => exact .error (h.aside (.mapDraft fun _ => draft))

/-- Something is done last of all, after a failure too. -/
theorem andFinally {p : Eval α} {f : Session → Session} (body : Keeps given p)
    (aside : Session.Aside f) : Keeps given (Eval.andFinally p f) where
  grows t := by
    have before := body.grows t
    simp only [Eval.andFinally]
    revert before
    cases p t <;> simp only [finalSession, aside.hintCalls] <;> exact id
  follows {s t} h := by
    have both := body.follows h
    simp only [Eval.andFinally]
    revert both
    generalize p s = result
    generalize p t = result'
    intro both
    cases both with
    | ok h => exact .ok (h.aside aside)
    | error h => exact .error (h.aside aside)
    | @halted u reason _ h =>
        have last : given.hearAll (f (finalSession result')).hintCalls =
            .error ⟨(f u).hintCalls, reason⟩ := by
          rw [aside.hintCalls, aside.hintCalls]
          exact h
        cases result' with
        | ok a u => exact .halted last
        | error e u => exact .halted last

/-- The silent hook hears every call, and the other one if it still listens. -/
theorem callHook (call : HintCall) : Keeps given (Eval.callHook call) where
  grows t := by
    simp only [callHook_apply]
    cases t.hook with
    | none => exact List.suffix_refl _
    | some hook =>
        dsimp only
        cases hook.failure (call :: t.hintCalls) with
        | none => exact List.suffix_cons _ _
        | some failure => cases failure <;> exact List.suffix_cons _ _
  follows {s t} h := by
    have silent : Eval.callHook call t = .ok () (t.note (.hinted call)) := by
      rw [callHook_apply, h.silent]
      rfl
    simp only [silent, callHook_apply]
    -- the listener of the first run hears the call as its hook does
    cases hooked : s.hook with
    | none =>
        have mute : s.listener.hear call = .ok s.listener := by
          simp only [Session.listener, Listener.hear, hooked]
        exact .ok (h.hear rfl mute)
    | some hook =>
        have listening : s.listener = ⟨some hook, s.hintCalls⟩ := by
          rw [← hooked]
          rfl
        dsimp only
        cases failure : hook.failure (call :: s.hintCalls) with
        | none =>
            refine .ok (h.hear rfl ?_)
            rw [listening, Listener.hear_answered failure, ← hooked]
            rfl
        | some failed =>
            cases failed with
            | advisory reason =>
                refine .ok (h.hear rfl ?_)
                rw [listening, Listener.hear_advised failure]
                rfl
            | fatal reason =>
                refine .halted ?_
                have heard := Listener.hearAll_cons h.heard call
                rw [listening, Listener.hear_halted failure] at heard
                exact heard

theorem onFreshMachine {p : Eval α} (body : Keeps given p) :
    Keeps given (Eval.onFreshMachine p) where
  grows t := by
    have before := body.grows { t with machine := {} }
    simp only [Eval.onFreshMachine]
    revert before
    cases p { t with machine := {} } <;> exact id
  follows {s t} h := by
    have machines : s.machine = t.machine := by rw [h.same]
    have both := body.follows (h.aside (.mapMachine fun _ => {}))
    simp only [Session.mapMachine] at both
    simp only [Eval.onFreshMachine, machines]
    revert both
    generalize p { s with machine := {} } = result
    generalize p { t with machine := {} } = result'
    intro both
    cases both with
    | ok h => exact .ok (h.aside (.mapMachine fun _ => t.machine))
    | error h => exact .error (h.aside (.mapMachine fun _ => t.machine))
    | halted h =>
        cases result' with
        | ok a u => exact .halted h
        | error e u => exact .halted h

/-! ## Laws -/

theorem localLaw (given : Listener) : LocalLaw fun {_} p => Keeps given p where
  pure := pure
  throw := throw
  bind := bind
  gets _ := gets fun _ _ _ _ => rfl
  mapMachine _ := change (.mapMachine _)
  isOpen := gets fun _ _ _ _ => rfl
  startContour _ := onDraft _
  addOnCurve _ := onDraft _
  addCurve _ _ _ := onDraft _
  stems _ _ := callHook _
  mask _ _ := callHook _
  nextRandom := change (.mapRandom nextRandom)
  random := gets fun _ _ _ _ => rfl
  drawn _ := change (.record _)

theorem withGlyph (font : Font) (glyph : GlyphId) {p : LocatedGlyph → Eval α}
    (body : ∀ located, Keeps given (p located)) : Keeps given (Eval.withGlyph font glyph p) := by
  rw [withGlyph_eq]
  exact ((localLaw given).operandLaw.lift _).bind fun located =>
    (change (.fetched glyph)).bind fun _ => (body located).andFinally (.released glyph)

theorem setAdvance (frame : Frame) : Keeps given (Eval.setAdvance frame) := by
  have step := localLaw given
  simp only [Eval.setAdvance]
  split
  · exact (step.gets fun machine => machine.width).bind fun _ => change (.mapDraft _)
  · exact pure _

theorem runProgram {evaluate : Evaluator} {frame : Frame} {program : Bytes}
    (body : Keeps given (evaluate frame program)) :
    Keeps given (Eval.runProgram evaluate frame program) := by
  refine onFreshMachine ((change (.record _)).bind fun _ => body.bind fun ending => ?_)
  have rest : Keeps given (Eval.setAdvance frame >>= fun _ => modify (Session.record .stop)) :=
    (setAdvance frame).bind fun _ => change (.record _)
  dsimp only
  split
  · exact (throw _).bind fun _ => rest
  · exact rest

/-- A program goes along with itself in whatever frame. -/
theorem programLaw (font : Font) (limit : Nat) (given : Listener) :
    ProgramLaw font limit fun _ {_} p => Keeps given p where
  steps _ := localLaw given
  deeper h := h
  operator _ op := change (.recordOperator _ op)
  closeContour _ := change (.mapDraft _)
  setLeftBearing _ frame bearing := by
    simp only [Eval.setLeftBearing]
    split
    · exact change (.mapDraft _)
    · exact pure _
  listsComponents _ := gets fun _ _ _ _ => rfl
  list _ components := change (.list components)
  commit _ := change (.mapDraft _)
  origin _ := gets fun _ _ _ _ => rfl
  backAt _ _ h := h.andFinally (.mapDraft _)
  component body _ _ component :=
    (callHook _).bind fun _ => (change (.mapDraft _)).bind fun _ =>
      withGlyph _ component.glyph fun located =>
        (runProgram (body ⟨located.subfont, true, _⟩ _ rfl)).bind fun _ => change (.mapDraft _)

theorem drawGlyph (font : Font) (limit : Nat) (glyph : GlyphId) (given : Listener) :
    Keeps given (Eval.drawGlyph font limit glyph) :=
  withGlyph font glyph fun located => (callHook _).bind fun _ =>
    runProgram ((programLaw font limit given).evaluate (Nat.zero_add limit) located.program)

/-- A hook that leaves the outline alone does not show in the glyph either. -/
theorem finishGlyph (font : Font) (settings : LoadSettings)
    (leaves : ∀ hook, given.hook = some hook → hook.LeavesOutline) :
    Keeps given (Eval.finishGlyph font settings) where
  grows t := by
    have closing : Keeps given (Eval.callHook (.close t.draft.finish.1)) := callHook _
    have before := closing.grows t
    rw [finishGlyph_apply]
    revert before
    cases Eval.callHook (.close t.draft.finish.1) t <;> exact id
  follows {s t} h := by
    have drafts : s.draft = t.draft := by rw [h.same]
    have components : s.components = t.components := by rw [h.same]
    have adjusted : ∀ calls outline, HintHook.adjusted s.hook calls outline = outline := by
      intro calls outline
      cases hooked : s.hook with
      | none => rfl
      | some hook =>
          have kept := Listener.hook_of_hearAll h.heard
          simp only [Session.listener, hooked, reduceCtorEq, false_or] at kept
          exact leaves hook kept.symm calls outline
    have both := (callHook (.close t.draft.finish.1)).follows h
    rw [finishGlyph_apply, finishGlyph_apply, h.silent]
    simp only [adjusted, drafts, LoadedGlyph.ofOutline, components]
    -- both runs finish the same glyph now, unless the last call ends the first one
    revert both
    generalize Eval.callHook (.close t.draft.finish.1) s = result
    generalize Eval.callHook (.close t.draft.finish.1) t = result'
    intro both
    cases both with
    | ok h => exact .ok h
    | error h => exact .error h
    | halted h =>
        cases result' with
        | ok _ u => exact .halted h
        | error e u => exact .halted h

theorem loadGlyph (font : Font) (glyph : GlyphId) (settings : LoadSettings)
    (leaves : ∀ hook, given.hook = some hook → hook.LeavesOutline) :
    Keeps given (Eval.loadGlyph font glyph settings) :=
  (drawGlyph font settings.depthLimit glyph given).bind fun _ =>
    finishGlyph font settings leaves

end Keeps

end Type2Glyphs
