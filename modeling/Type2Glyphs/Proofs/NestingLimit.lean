import Type2Glyphs.Proofs.Coupling.Evaluate
import Type2Glyphs.Proofs.Law.Effect

/-!
# NestingLimit — what the limit of nesting does

Programs can run each other, and themselves, in circles.  The limit of nesting ends this: a load
never has more than `limit + 1` programs under way, and none of them is nested deeper than the
limit.  `Eval.evaluate` goes down by the levels that are left.  `Eval.descend` compares the depth
with the limit before each program instead, and has a supply of nested calls that could run out;
loads by it are the loads of `Font.load`.

The limit is not noticed otherwise.  With a higher limit a load is the same, unless it failed
because the limit was reached.
-/

namespace Type2Glyphs

open Outcome

/-! ## Settings -/

/-- Settings that can be made: the ones that are given by flags, and those with a scale factor, a
limit of nesting or a seed set. -/
inductive LoadSettings.Made : LoadSettings → Prop
  | flags (flags : LoadFlags) : Made { flags }
  | scale {settings : LoadSettings} (made : Made settings) (factor : Fixed) :
      Made { settings with scale := some factor }
  | depthLimit {settings : LoadSettings} (made : Made settings) (limit : Nat) :
      Made (settings.withDepthLimit limit)
  | randomSeed {settings : LoadSettings} (made : Made settings) (seed : UInt32) :
      Made { settings with randomSeed := seed }

theorem LoadSettings.Made.depthLimit_le {settings : LoadSettings} (made : settings.Made) :
    settings.depthLimit ≤ maxNesting := by
  induction made with
  | flags => exact Nat.le_refl _
  | scale _ _ ih => exact ih
  | depthLimit _ _ _ => exact Nat.min_le_right _ _
  | randomSeed _ _ ih => exact ih

/-! ## Depths -/

namespace Eval

/-- Evaluates a program with so many nested calls at hand.  Before each program its depth is checked
against the limit.  What `beyond` does is done for lack of calls, and at depths over the limit. -/
def descend (font : Font) (limit : Nat) (beyond : Evaluator) : (calls : Nat) → Evaluator
  | 0 => beyond
  | calls + 1 => fun frame program =>
      if limit < frame.depth then
        beyond frame program
      else
        let deeper :=
          if limit < frame.depth + 1 then none else some (descend font limit beyond calls)
        evaluateWith font limit deeper frame program

/-- The evaluator, used for programs at that depth only. -/
def atDepth (depth : Nat) (evaluate : Evaluator) : Evaluator :=
  fun frame program => evaluate { frame with depth } program

/-- All programs that a program runs are one level deeper. -/
theorem evaluateWith_atDepth (font : Font) (limit : Nat) (evaluate : Evaluator) (frame : Frame)
    (program : Bytes) :
    evaluateWith font limit (some (atDepth (frame.depth + 1) evaluate)) frame program =
      evaluateWith font limit (some evaluate) frame program := by
  -- a subroutine or a component gets the depth that `atDepth` sets, and nothing else is run
  have same : execute font limit (some (atDepth (frame.depth + 1) evaluate)) frame =
      execute font limit (some evaluate) frame := by
    funext op unread
    cases op <;> rfl
  simp only [evaluateWith]
  rw [same]

theorem descend_eq (font : Font) {limit : Nat} (beyond : Evaluator) {calls : Nat} {frame : Frame}
    (shallow : frame.depth ≤ limit) (enough : limit < frame.depth + calls) (program : Bytes) :
    descend font limit beyond calls frame program =
      evaluate font limit (limit - frame.depth) frame program := by
  induction calls generalizing frame program with
  | zero => omega
  | succ calls ih =>
      simp only [descend]
      simp only [if_neg (Nat.not_lt.2 shallow)]
      cases levels : limit - frame.depth with
      | zero =>
          have deepest : limit < frame.depth + 1 := by omega
          simp only [if_pos deepest]
          rfl
      | succ lower =>
          have room : ¬ limit < frame.depth + 1 := by omega
          -- the two agree within the limit only, but a program runs others just one level deeper
          have same : atDepth (frame.depth + 1) (descend font limit beyond calls) =
              atDepth (frame.depth + 1) (evaluate font limit lower) := by
            funext frame' program'
            have left : limit - (frame.depth + 1) = lower := by omega
            rw [← left]
            exact ih (Nat.not_lt.1 room) (by dsimp only; omega) program'
          simp only [if_neg room]
          calc evaluateWith font limit (some (descend font limit beyond calls)) frame program
              = evaluateWith font limit
                  (some (atDepth (frame.depth + 1) (descend font limit beyond calls)))
                  frame program := (evaluateWith_atDepth ..).symm
            _ = evaluateWith font limit
                  (some (atDepth (frame.depth + 1) (evaluate font limit lower)))
                  frame program := by rw [same]
            _ = evaluateWith font limit (some (evaluate font limit lower)) frame program :=
                evaluateWith_atDepth ..
            _ = evaluate font limit (lower + 1) frame program := rfl

/-- Evaluates the program of the glyph to be loaded, by that evaluator. -/
def drawGlyphBy (evaluate : Evaluator) (font : Font) (glyph : GlyphId) : Eval Unit :=
  withGlyph font glyph fun located => do
    callHook (.openGlyph glyph)
    runProgram evaluate ⟨located.subfont, false, 0⟩ located.program

end Eval

/-- Loads a glyph by that evaluator. -/
def Font.loadBy (font : Font) (evaluate : Evaluator) (glyph : GlyphId) (settings : LoadSettings)
    (hook : Option HintHook) : LoadReport :=
  let loading := do
    Eval.drawGlyphBy evaluate font glyph
    Eval.finishGlyph font settings
  match loading (.initial settings hook) with
  | .ok loaded session => ⟨.ok loaded, session⟩
  | .error e session => ⟨.error e, session⟩

/-- The first program is not nested, so what happens at other depths is up to the evaluator. -/
theorem Font.loadBy_congr {font : Font} {evaluate evaluate' : Evaluator}
    (same : ∀ subfont program, evaluate ⟨subfont, false, 0⟩ program =
      evaluate' ⟨subfont, false, 0⟩ program) (glyph : GlyphId) (settings : LoadSettings)
    (hook : Option HintHook) :
    font.loadBy evaluate glyph settings hook = font.loadBy evaluate' glyph settings hook := by
  have drawn : Eval.drawGlyphBy evaluate font glyph = Eval.drawGlyphBy evaluate' font glyph := by
    simp only [Eval.drawGlyphBy, Eval.runProgram, same]
  simp only [Font.loadBy]
  rw [drawn]

/-! ## Traces -/

/-- The second session has the trace of the first one and some entries more, with no operator beyond
the limit among them. -/
def Session.Deepens (limit : Nat) (s t : Session) : Prop :=
  ∃ entries, t.trace = entries ++ s.trace ∧ ∀ entry ∈ entries, entry.Within limit

namespace Session.Deepens

variable {limit : Nat} {s t u : Session}

theorem of_adds {events : List LoadEvent} {entries : List TraceEntry}
    (h : s.Adds events entries t) (within : ∀ entry ∈ entries, entry.Within limit) :
    Deepens limit s t :=
  ⟨entries, h.trace, within⟩

theorem untraced (same : t.trace = s.trace) : Deepens limit s t :=
  ⟨[], same, List.forall_mem_nil _⟩

theorem trans (first : Deepens limit s t) (next : Deepens limit t u) : Deepens limit s u := by
  obtain ⟨entries, before, within⟩ := first
  obtain ⟨entries', after, within'⟩ := next
  refine ⟨entries' ++ entries, by rw [after, before, List.append_assoc], ?_⟩
  intro entry member
  exact (List.mem_append.1 member).elim (within' entry) (within entry)

/-- Something is done between entries that are not traced. -/
theorem between {events events' : List LoadEvent}
    (h : Between events [] (Deepens limit) events' [] s t) : Deepens limit s t := by
  obtain ⟨u, v, before, inner, after⟩ := h
  exact (untraced before.trace).trans (inner.trans (untraced after.trace))

theorem callHook (call : HintCall) :
    Effects (Deepens limit) (Deepens limit) (Eval.callHook call) :=
  .callHook (fun _ _ => untraced rfl) (fun _ _ _ _ => untraced rfl)
    (fun _ _ _ _ _ => untraced rfl) fun _ _ _ _ _ => untraced rfl

/-- Programs with no levels left run no other program, so what is traced is within the limit. -/
theorem law (font : Font) (limit : Nat) : RecordLaw font limit fun _ => Deepens limit where
  quiet h := untraced h.trace
  trans := trans
  deeper h := h
  traced h within := of_adds h (List.forall_mem_singleton.2 within)
  callHook := callHook
  fetched _ := between

end Session.Deepens

/-- No operator is evaluated beyond the limit. -/
theorem trace_within (font : Font) (glyph : GlyphId) (settings : LoadSettings)
    (hook : Option HintHook) {entry : TraceEntry}
    (traced : entry ∈ (font.load glyph settings hook).session.trace) :
    entry.Within settings.depthLimit := by
  have deepens : Session.Deepens settings.depthLimit (.initial settings hook)
      (font.load glyph settings hook).session := by
    rcases (Session.Deepens.law font settings.depthLimit).load glyph hook with
      ⟨-, lost⟩ | ⟨-, t, drawn, closed⟩
    · exact .untraced lost.trace
    · exact (Session.Deepens.between drawn).trans closed
  obtain ⟨entries, all, within⟩ := deepens
  have initial : (Session.initial settings hook).trace = [] := rfl
  rw [all, initial, List.append_nil] at traced
  exact within entry traced

/-! ## Two limits -/

/-- Two runs from one session go in step as long as they run the same programs. -/
theorem Coupling.refl (excused : LoadError → Prop) :
    Coupling excused (fun s s' => s' = s) (fun f f' => f' = f) fun o o' => o' = o where
  machine h := by rw [h]
  withMachine h _ := by rw [h]
  random h := by rw [h]
  withRandom h _ := by rw [h]
  drawn h _ := by rw [h]
  isOpen h := by rw [h]
  startContour _ := .refl _
  addOnCurve _ := .refl _
  addCurve _ _ _ := .refl _
  callHook _ := .refl _
  subfont h := by rw [h]
  deeper h := by rw [h]
  component h _ := by rw [h]
  start h := by rw [h]
  stop h := by rw [h]
  operator same _ _ h _ _ := by rw [h, same]
  fetched h _ := by rw [h]
  released h _ := by rw [h]
  closeContour h := by rw [h]
  commit h := by rw [h]
  listsComponents h := by rw [h]
  list h _ _ := by rw [h]
  origin h := by rw [h]
  withOrigin h _ _ same := by rw [h, same]
  displaced h _ := by rw [h]
  setAdvance h := by rw [h]; exact .refl _
  setLeftBearing h _ := by rw [h]; exact .refl _

/-- With a higher limit the same happens, unless the limit was reached. -/
theorem load_of_higher_limit (font : Font) (glyph : GlyphId) (settings : LoadSettings)
    (hook : Option HintHook) {limit : Nat} (higher : settings.depthLimit ≤ limit) :
    (font.load glyph settings hook).result = .error (.nestingTooDeep settings.depthLimit) ∨
      font.load glyph { settings with depthLimit := limit } hook =
        font.load glyph settings hook := by
  have start : Session.initial { settings with depthLimit := limit } hook =
      Session.initial settings hook := rfl
  have outcomes := (Coupling.refl (· = .nestingTooDeep settings.depthLimit)).drawGlyph font glyph
    (.inr ⟨rfl, higher⟩) (fun _ => rfl) start
  -- the limit is read while the glyph is drawn, and not after that
  have finish : Eval.finishGlyph font { settings with depthLimit := limit } =
      Eval.finishGlyph font settings := rfl
  simp only [Font.load, Eval.loadGlyph, bind_apply]
  rw [finish]
  cases run : Eval.drawGlyph font settings.depthLimit glyph (.initial settings hook) with
  | ok drawn t =>
      rw [run] at outcomes
      obtain ⟨t', run', same⟩ := outcomes.of_ok
      rw [run', same]
      exact .inr rfl
  | error e t =>
      by_cases reached : e = .nestingTooDeep settings.depthLimit
      · exact .inl (congrArg Except.error reached)
      · rw [run] at outcomes
        obtain ⟨t', run', same⟩ := outcomes.of_error reached
        rw [run', same]
        exact .inr rfl

/-! ## Loads -/

/-- Loading evaluates no program beyond the limit and needs no more nested calls than the limit
allows, whatever would happen otherwise; and a higher limit makes no difference, unless the limit
was reached. -/
theorem load_nestingLimit (font : Font) (glyph : GlyphId) (settings : LoadSettings)
    (hook : Option HintHook) :
    let report := font.load glyph settings hook
    (settings.Made → settings.depthLimit ≤ maxNesting) ∧
      (∀ beyond calls, settings.depthLimit < calls →
        font.loadBy (Eval.descend font settings.depthLimit beyond calls) glyph settings hook =
          report) ∧
      (∀ depth op stack, .operator depth op stack ∈ report.session.trace →
        depth ≤ settings.depthLimit) ∧
      ∀ limit, settings.depthLimit ≤ limit →
        report.result = .error (.nestingTooDeep settings.depthLimit) ∨
          font.load glyph { settings with depthLimit := limit } hook = report := by
  intro report
  refine ⟨LoadSettings.Made.depthLimit_le, ?_, ?_, ?_⟩
  · -- the program of the glyph is not nested, so all levels are left for it
    intro beyond calls enough
    refine Font.loadBy_congr ?_ glyph settings hook
    intro subfont program
    exact Eval.descend_eq font beyond (Nat.zero_le _) (by simpa using enough) program
  · intro depth op stack traced
    exact trace_within font glyph settings hook traced
  · intro limit higher
    exact load_of_higher_limit font glyph settings hook higher

/-- A font with a glyph that is its own base and accent, and one that is ended by a subroutine of a
subroutine. -/
def Font.circular : Font where
  glyphs := .ofList [some [139, 139, 139, 139, 14], some [32, 29]]
  globalSubrs := ⟨2, 1, [1, 3, 4], [33, 29, 14]⟩
  subfonts := [{}]

theorem load_nestingLimit_circular :
    let settings := LoadSettings.withDepthLimit 2 {}
    let report := Font.circular.load ⟨1⟩ settings none
    (Font.circular.load ⟨0⟩ settings none).result = .error (.nestingTooDeep 2) ∧
      (Font.circular.load ⟨1⟩ (settings.withDepthLimit 1) none).result =
        .error (.nestingTooDeep 1) ∧
      settings.depthLimit ≤ maxNesting ∧
      (∀ beyond, Font.circular.loadBy (Eval.descend Font.circular 2 beyond 3) ⟨1⟩ settings none =
        report) ∧
      (∃ op stack, .operator 2 op stack ∈ report.session.trace ∧ 2 ≤ settings.depthLimit) ∧
      Font.circular.load ⟨1⟩ { settings with depthLimit := 10 } none = report := by
  intro settings report
  have made : settings.Made := .depthLimit (.flags {}) 2
  have loaded : report.result ≠ .error (.nestingTooDeep 2) := by decide +kernel
  have traced : .operator 2 .endchar .empty ∈ report.session.trace := by decide +kernel
  obtain ⟨bounded, descended, shallow, higher⟩ :=
    load_nestingLimit Font.circular ⟨1⟩ settings none
  refine ⟨by decide +kernel, by decide +kernel, bounded made, ?_, ?_, ?_⟩
  · intro beyond
    exact descended beyond 3 (by decide)
  · exact ⟨.endchar, .empty, traced, shallow 2 .endchar .empty traced⟩
  · exact (higher 10 (by decide)).resolve_left loaded

end Type2Glyphs
