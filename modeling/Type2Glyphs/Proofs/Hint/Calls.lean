import Type2Glyphs.Proofs.Hint.Following
import Type2Glyphs.Proofs.Law.Effect

/-!
# Calls — what a hint hook hears of a load, and what it can do to it

A hook that does not fail and leaves the outline alone hears calls that do not depend on it, and
makes no difference to the load.  One that fails once hears the same calls up to then; it ends the
load if the failure is fatal, and else makes no difference either.

The calls begin with the opening of the glyph and end with its outline.  In between, hints are
cleared once for each component.
-/

namespace Type2Glyphs

open Relation

variable {font : Font} {glyph : GlyphId} {settings : LoadSettings}

/-- The calls of the hint hook, the earliest one first. -/
def Session.callsInOrder (session : Session) : List HintCall :=
  session.hintCalls.reverse

/-! ## Loads with a hook and with the silent hook -/

theorem Session.Heard.initial (hinting : settings.hinting = true) (hook : Option HintHook) :
    (Session.initial settings hook).Heard ⟨hook, []⟩ (.initial settings (some .silent)) where
  same := by
    simp [Session.initial, hinting]
  silent := if_pos hinting
  heard := by
    simp [Session.initial, Session.listener, Session.hintCalls, hinting, Listener.hearAll]

theorem load_eq (font : Font) (glyph : GlyphId) (settings : LoadSettings)
    (hook : Option HintHook) :
    font.load glyph settings hook =
      ⟨outcome (Eval.loadGlyph font glyph settings (.initial settings hook)),
        finalSession (Eval.loadGlyph font glyph settings (.initial settings hook))⟩ := by
  simp only [Font.load]
  cases Eval.loadGlyph font glyph settings (.initial settings hook) <;> rfl

section Hinted

variable (font glyph) (hinting : settings.hinting = true) {hook : Option HintHook}
  (leaves : ∀ given, hook = some given → given.LeavesOutline)

include hinting leaves

theorem follows_silent :
    Follows ⟨hook, []⟩ (Eval.loadGlyph font glyph settings (.initial settings hook))
      (Eval.loadGlyph font glyph settings (.initial settings (some .silent))) :=
  (Keeps.loadGlyph font glyph settings leaves).follows (.initial hinting hook)

/-- A hook that does not end the load makes no difference to it, and hears what a listener hears of
the calls of the silent hook. -/
theorem load_of_heard {listener : Listener}
    (heard : Listener.hearAll ⟨hook, []⟩
      (font.load glyph settings (some .silent)).session.hintCalls = .ok listener) :
    (font.load glyph settings hook).result = (font.load glyph settings (some .silent)).result ∧
      (font.load glyph settings hook).session.hintCalls = listener.calls := by
  simp only [load_eq] at heard ⊢
  obtain ⟨same, last⟩ := (follows_silent font glyph hinting leaves).of_heard heard
  exact ⟨same, congrArg Listener.calls last⟩

/-- A hook that ends the load hears what a listener hears of the calls of the silent hook. -/
theorem load_of_halted {halt : Halt}
    (halted : Listener.hearAll ⟨hook, []⟩
      (font.load glyph settings (some .silent)).session.hintCalls = .error halt) :
    (font.load glyph settings hook).result = .error (.hinting (.fatal halt.reason)) ∧
      (font.load glyph settings hook).session.hintCalls = halt.calls := by
  simp only [load_eq] at halted ⊢
  exact (follows_silent font glyph hinting leaves).of_halted halted

end Hinted

/-! ## Loads without hints -/

/-- A hook that is left alone makes no difference. -/
theorem load_of_unhinted (unhinted : settings.hinting = false) (hook hook' : Option HintHook) :
    font.load glyph settings hook = font.load glyph settings hook' := by
  have same : Session.initial settings hook = Session.initial settings hook' := by
    simp [Session.initial, unhinted]
  simp only [Font.load, same]

theorem hintCalls_of_unhinted (unhinted : settings.hinting = false) (hook : Option HintHook) :
    (font.load glyph settings hook).session.hintCalls = [] := by
  -- the hook could as well be silent, and nothing that it hears would be heard
  have related : (Session.initial settings hook).Heard ⟨none, []⟩
      { Session.initial settings hook with hook := some .silent } := by
    refine ⟨rfl, rfl, (Listener.hearAll_mute _ _).trans ?_⟩
    simp [Session.initial, Session.listener, Session.hintCalls, unhinted]
  have both := (Keeps.loadGlyph font glyph settings fun _ lost => by cases lost).follows related
  obtain ⟨-, last⟩ := both.of_heard (Listener.hearAll_mute _ _)
  rw [load_eq]
  exact congrArg Listener.calls last

/-- The silent hook makes no difference. -/
theorem load_silent (font : Font) (glyph : GlyphId) (settings : LoadSettings) :
    (font.load glyph settings (some .silent)).result = (font.load glyph settings none).result := by
  cases hinting : settings.hinting with
  | true =>
      have heard := load_of_heard font glyph hinting (fun _ lost => by cases lost)
        (Listener.hearAll_mute _ _)
      exact heard.1.symm
  | false => rw [load_of_unhinted hinting]

/-! ## A hook that fails once -/

theorem load_failingAt (font : Font) (glyph : GlyphId) (settings : LoadSettings) (n : Nat)
    (failure : HintFailure) :
    let failing := font.load glyph settings (some (.failingAt n failure))
    let silent := font.load glyph settings (some .silent)
    failing.session.callsInOrder = silent.session.callsInOrder.take (n + 1) ∧
      failing.result =
        if failure.isFatal ∧ n < silent.session.callsInOrder.length then .error (.hinting failure)
        else silent.result := by
  intro failing silent
  have length : silent.session.callsInOrder.length = silent.session.hintCalls.length :=
    List.length_reverse
  have leaves : ∀ given, some (HintHook.failingAt n failure) = some given →
      given.LeavesOutline := by
    rintro _ ⟨⟩ calls outline
    rfl
  rw [length]
  cases hinting : settings.hinting with
  | false =>
      have same : failing = silent := load_of_unhinted hinting _ _
      have none : silent.session.hintCalls = [] := hintCalls_of_unhinted hinting _
      simp [same, none, Session.callsInOrder]
  | true =>
      rcases Nat.lt_or_ge n silent.session.hintCalls.length with late | early
      · -- the calls up to the one that fails are the last ones of the list
        have front : (silent.session.hintCalls.drop
            (silent.session.hintCalls.length - (n + 1))).reverse =
            silent.session.callsInOrder.take (n + 1) := List.take_reverse.symm
        cases failure with
        | advisory reason =>
            obtain ⟨result, calls⟩ := load_of_heard font glyph hinting leaves
              (Listener.hearAll_failingAt_of_lt late)
            exact ⟨(congrArg List.reverse calls).trans front, result⟩
        | fatal reason =>
            obtain ⟨result, calls⟩ := load_of_halted font glyph hinting leaves
              (Listener.hearAll_failingAt_of_lt late)
            refine ⟨(congrArg List.reverse calls).trans front, result.trans ?_⟩
            exact (if_pos ⟨rfl, late⟩).symm
      · obtain ⟨result, calls⟩ := load_of_heard font glyph hinting leaves
          (Listener.hearAll_failingAt_of_le early)
        have whole : silent.session.callsInOrder.take (n + 1) = silent.session.callsInOrder :=
          List.take_of_length_le (by omega)
        have unnoticed : ¬ (failure.isFatal ∧ n < silent.session.hintCalls.length) := by
          rintro ⟨_, late⟩
          omega
        exact ⟨(congrArg List.reverse calls).trans whole.symm, result.trans (if_neg unnoticed).symm⟩

/-! ## The calls of the silent hook -/

namespace Session

/-- How often the hook was told to clear its hints. -/
def clears (session : Session) : Nat :=
  session.hintCalls.count .clearHints

/-- The silent hook has heard one call, and nothing else has happened. -/
def Hears (call : HintCall) (s t : Session) : Prop :=
  s.hook = some .silent →
    t.hook = some .silent ∧ t.hintCalls = call :: s.hintCalls ∧ t.trace = s.trace

/-- The silent hook has heard more calls.  Not counting one for each time that hints were cleared,
the evaluation of `n` glyphs or components was started. -/
def Tallies (n : Nat) (s t : Session) : Prop :=
  s.hook = some .silent →
    t.hook = some .silent ∧ s.hintCalls <:+ t.hintCalls ∧
      t.clears + s.starts + n = s.clears + t.starts

theorem Adds.hintCalls {events : List LoadEvent} {entries : List TraceEntry} {s t : Session}
    (h : s.Adds events entries t) (unheard : events.filterMap LoadEvent.call? = []) :
    t.hintCalls = s.hintCalls := by
  simp only [Session.hintCalls, h.journal, List.filterMap_append, unheard, List.nil_append]

theorem hears_callHook (call : HintCall) :
    Effects (Hears call) (fun _ _ => True) (Eval.callHook call) := by
  refine .callHook ?_ ?_ ?_ ?_
  · intro s unhooked silent
    cases unhooked.symm.trans silent
  · intro s hook hooked _ silent
    exact ⟨silent, rfl, rfl⟩
  · intro s hook reason hooked failed silent
    -- the silent hook does not fail
    cases hooked.symm.trans silent
    cases failed
  · intro s hook reason _ _
    trivial

namespace Tallies

variable {m n : Nat} {s t u : Session}

theorem trans (first : Tallies m s t) (next : Tallies n t u) : Tallies (m + n) s u := by
  intro silent
  obtain ⟨silent, before, cleared⟩ := first silent
  obtain ⟨silent, after, cleared'⟩ := next silent
  exact ⟨silent, before.trans after, by omega⟩

theorem of_adds {events : List LoadEvent} {entries : List TraceEntry} (h : s.Adds events entries t)
    (unheard : events.filterMap LoadEvent.call? = []) :
    Tallies (entries.count .start) s t := by
  have calls := h.hintCalls unheard
  intro hooked
  refine ⟨h.hook.trans hooked, calls ▸ List.suffix_refl _, ?_⟩
  simp only [clears, starts, calls, h.trace, List.count_append]
  omega

theorem of_hears {call : HintCall} (h : Hears call s t) (other : call ≠ .clearHints) :
    Tallies 0 s t := by
  intro silent
  obtain ⟨silent, calls, trace⟩ := h silent
  refine ⟨silent, calls ▸ List.suffix_cons _ _, ?_⟩
  simp only [clears, starts, calls, trace, List.count_cons_of_ne other]
  omega

/-- A component is started after hints were cleared for it. -/
theorem of_cleared (h : Hears .clearHints s t) (run : Tallies 1 t u) : Tallies 0 s u := by
  intro silent
  obtain ⟨silent, calls, trace⟩ := h silent
  obtain ⟨silent, more, started⟩ := run silent
  refine ⟨silent, (calls ▸ List.suffix_cons _ _ : s.hintCalls <:+ t.hintCalls).trans more, ?_⟩
  -- the start of the run is made up for by the call
  simp only [clears, starts, calls, trace, List.count_cons_self] at started ⊢
  omega

/-- Running a whole program is one start more. -/
theorem of_run (h : Between [] [.start] (Tallies n) [] [.stop] s t) : Tallies (n + 1) s t := by
  obtain ⟨u, v, started, inner, stopped⟩ := h
  have before : Tallies 1 s u := of_adds started rfl
  have after : Tallies 0 v t := of_adds stopped rfl
  have all := before.trans (inner.trans after)
  rwa [Nat.add_zero, Nat.add_comm] at all

theorem of_fetched {glyph : GlyphId}
    (h : Between [.fetched glyph] [] (Tallies n) [.released glyph] [] s t) : Tallies n s t := by
  obtain ⟨u, v, fetched, inner, released⟩ := h
  have before : Tallies 0 s u := of_adds fetched rfl
  have after : Tallies 0 v t := of_adds released rfl
  have all := before.trans (inner.trans after)
  rwa [Nat.add_zero, Nat.zero_add] at all

/-- Hints are cleared once for each component, by every program. -/
theorem law (font : Font) (limit : Nat) :
    EffectLaw font limit (fun _ => Tallies 0) fun _ _ _ => True where
  quiet h := of_adds h rfl
  fails _ := trivial
  trans := trans
  transFails _ _ := trivial
  failsQuiet _ _ := trivial
  deeper h := h
  deeperFails h := h
  drawn s number := by
    have added : s.Adds [] [.drawn number] (s.record (.drawn number)) := ⟨rfl, rfl, rfl⟩
    exact of_adds added rfl
  operator {_ depth} _ s op := by
    have added : s.Adds [] [.operator depth op s.machine.stack]
        (s.record (.operator depth op s.machine.stack)) := ⟨rfl, rfl, rfl⟩
    exact of_adds added rfl
  stems _ _ := (hears_callHook _).mono (fun _ _ h => of_hears h nofun) fun _ _ h => h
  mask op _ :=
    (hears_callHook _).mono (fun _ _ h => of_hears h (by cases op <;> nofun)) fun _ _ h => h
  component body _ origin component := by
    refine ((hears_callHook .clearHints).drawComponent body origin).mono ?_ fun _ _ _ => trivial
    rintro s u ⟨t, cleared, -, drawn⟩
    exact of_cleared cleared (of_fetched (drawn.mono fun _ _ => of_run))

end Tallies

/-- The silent hook has heard first that the glyph is opened.  Since then hints were cleared once
for each start but that of the glyph. -/
def Opens (glyph : GlyphId) (s t : Session) : Prop :=
  s.hook = some .silent →
    t.hook = some .silent ∧ ∃ more, t.hintCalls = more ++ .openGlyph glyph :: s.hintCalls ∧
      more.count .clearHints + s.starts + 1 = t.starts

theorem Opens.of_tallies {s t u : Session} (opened : Hears (.openGlyph glyph) s t)
    (run : Tallies 1 t u) : Opens glyph s u := by
  intro silent
  obtain ⟨silent, first, trace⟩ := opened silent
  obtain ⟨silent, ⟨more, calls⟩, started⟩ := run silent
  refine ⟨silent, more, by rw [← calls, first], ?_⟩
  -- the glyph is started too, but its opening clears no hints
  have other : HintCall.openGlyph glyph ≠ .clearHints := nofun
  simp only [clears, starts, ← calls, first, trace, List.count_append,
    List.count_cons_of_ne other] at started ⊢
  omega

theorem opens_drawGlyph (font : Font) (limit : Nat) (glyph : GlyphId) :
    Effects (Opens glyph) (fun _ _ => True) (Eval.drawGlyph font limit glyph) := by
  have body : ∀ frame program, frame.depth = 0 → Effects (Tallies 0) (fun _ _ => True)
      (Eval.evaluate font limit limit frame program) :=
    fun frame program top => (Tallies.law font limit).programLaw.evaluate (by omega) program
  refine ((hears_callHook (.openGlyph glyph)).drawGlyph body).mono ?_ fun _ _ _ => trivial
  rintro s u ⟨-, t, v, fetched, ⟨w, opened, run⟩, released⟩ silent
  obtain ⟨silent, more, calls, started⟩ :=
    Opens.of_tallies opened (.of_run run) (fetched.hook.trans silent)
  have before : t.starts = s.starts := congrArg (List.count _) fetched.trace
  have after : u.starts = v.starts := congrArg (List.count _) released.trace
  refine ⟨released.hook.trans silent, more, ?_, by omega⟩
  rw [released.hintCalls rfl, calls, fetched.hintCalls rfl]

end Session

/-- What the silent hook hears of a load that succeeds. -/
theorem calls_of_loaded (hinting : settings.hinting = true)
    {loaded : LoadedGlyph} (h : (font.load glyph settings (some .silent)).result = .ok loaded) :
    let session := (font.load glyph settings (some .silent)).session
    ∃ middle outline, session.callsInOrder = .openGlyph glyph :: (middle ++ [.close outline]) ∧
      middle.count .clearHints + 1 = session.trace.count .start := by
  intro session
  -- the outline is handed over in a call of its own, which is the last one
  have finished : Effects (fun s t => ∃ outline, Session.Hears (.close outline) s t)
      (fun _ _ => True) (Eval.finishGlyph font settings) := .finishGlyph font settings fun _ =>
    (Session.hears_callHook _).mono (fun _ _ heard => ⟨_, heard⟩) fun _ _ h => h
  have loading := (Session.opens_drawGlyph font settings.depthLimit glyph).bind fun _ => finished
  rcases loading.load (some .silent) with ⟨-, t, opened, outline, closed⟩ | ⟨⟨e, failed⟩, -⟩
  · obtain ⟨silent, more, calls, started⟩ := opened (if_pos hinting)
    obtain ⟨-, last, trace⟩ := closed silent
    refine ⟨more.reverse, outline, ?_, ?_⟩
    · have fresh : (Session.initial settings (some .silent)).hintCalls = [] := rfl
      simp [session, Session.callsInOrder, last, calls, fresh]
    · rw [List.count_reverse, trace]
      exact started
  · cases h.symm.trans failed

/-! ## Any load -/

/-- A hook that does not fail and leaves the outline alone makes no difference, and one that fails
once hears the same calls up to then.  A fatal failure is the error of the load, and an advisory one
makes no difference. -/
theorem load_hintCalls (font : Font) (glyph : GlyphId) (settings : LoadSettings) :
    let unhinted := font.load glyph settings none
    let silent := font.load glyph settings (some .silent)
    let calls := silent.session.callsInOrder
    silent.result = unhinted.result ∧
      (∀ n failure,
        let failing := font.load glyph settings (some (.failingAt n failure))
        failing.session.callsInOrder = calls.take (n + 1) ∧
          failing.result =
            if failure.isFatal ∧ n < calls.length then .error (.hinting failure)
            else unhinted.result) ∧
      (settings.flags.noHinting ∨ settings.flags.metricsOnly → calls = []) ∧
      (settings.flags.noHinting = false → settings.flags.metricsOnly = false →
        ∀ loaded, unhinted.result = .ok loaded →
          ∃ middle outline, calls = .openGlyph glyph :: (middle ++ [.close outline]) ∧
            middle.count .clearHints + 1 = silent.session.trace.count .start) := by
  intro unhinted silent calls
  have same : silent.result = unhinted.result := load_silent font glyph settings
  refine ⟨same, ?_, ?_, ?_⟩
  · intro n failure
    rw [← same]
    exact load_failingAt font glyph settings n failure
  · intro off
    have unhinting : settings.hinting = false := by
      rcases off with off | off <;> simp [LoadSettings.hinting, off]
    exact congrArg List.reverse (hintCalls_of_unhinted unhinting _)
  · intro hinted kept loaded h
    have hinting : settings.hinting = true := by simp [LoadSettings.hinting, hinted, kept]
    exact calls_of_loaded hinting (same.trans h)

theorem load_hintCalls_accented :
    let unhinted := Font.accented.load ⟨0⟩ {} none
    let silent := Font.accented.load ⟨0⟩ {} (some .silent)
    let calls := silent.session.callsInOrder
    let fatal := Font.accented.load ⟨0⟩ {} (some (.failingAt 1 (.fatal "no room")))
    let advisory := Font.accented.load ⟨0⟩ {} (some (.failingAt 1 (.advisory "no room")))
    fatal.result = .error (.hinting (.fatal "no room")) ∧
      advisory.result = unhinted.result ∧ advisory.session.callsInOrder = calls.take 2 ∧
      (Font.accented.load ⟨0⟩ { flags := { noHinting := true } }
        (some .silent)).session.callsInOrder = [] ∧
      ∃ middle outline, calls = .openGlyph ⟨0⟩ :: (middle ++ [.close outline]) ∧
        middle.count .clearHints + 1 = 3 := by
  intro unhinted silent calls fatal advisory
  have length : calls.length = 4 := by decide +kernel
  have starts : silent.session.trace.count .start = 3 := by decide +kernel
  obtain ⟨loaded, h⟩ : ∃ loaded, unhinted.result = .ok loaded := ok_of_isOk (by decide +kernel)
  obtain ⟨_, failing, _, shape⟩ := load_hintCalls Font.accented ⟨0⟩ {}
  obtain ⟨_, _, off, _⟩ := load_hintCalls Font.accented ⟨0⟩ { flags := { noHinting := true } }
  obtain ⟨middle, outline, whole, cleared⟩ := shape rfl rfl loaded h
  obtain ⟨_, ended⟩ := failing 1 (.fatal "no room")
  obtain ⟨heard, unnoticed⟩ := failing 1 (.advisory "no room")
  have late : 1 < calls.length := length ▸ (by decide : 1 < 4)
  refine ⟨ended.trans (if_pos ⟨rfl, late⟩), unnoticed.trans (if_neg ?_), heard, off (.inl rfl),
    middle, outline, whole, by rw [cleared, starts]⟩
  rintro ⟨impossible, _⟩
  cases impossible

end Type2Glyphs
